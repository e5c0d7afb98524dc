import PhyLang.Interpreter.Session
import PhyLang.Proofs.Ast.Shape
import PhyLang.Proofs.Integer.Digits
import PhyLang.Proofs.Real.Nearest
import PhyLang.Proofs.Value.Plain

namespace PhyLang

namespace Value

/-- The integers of 64 bits. -/
def InRange (n : Int) : Prop := minInt ≤ n ∧ n ≤ maxInt

instance (n : Int) : Decidable (InRange n) := inferInstanceAs (Decidable (minInt ≤ n ∧ n ≤ maxInt))

/-- A value that a program may work with: its integers have 64 bits, its functions have bodies of the shape of
programs, and the host adds nothing but the clock. -/
def IsSound (parts : Parts) : Value → Prop
  | .int n => InRange n
  | .real _ | .str _ | .bool _ | .null => True
  | .fn closure => parts.IsName closure.name ∧ (∀ param ∈ closure.params, parts.IsName param) ∧
      ∀ statement ∈ closure.body, statement.IsStatement parts
  | .native function => function = Machine.readClock
  | .callable | .signal _ | .foreign _ => False

/-- An operation gives a sound value or an error of the language. -/
def SoundResult (parts : Parts) : Operated Value → Prop
  | .ok v => v.IsSound parts
  | .error (.error _) => True
  | .error (.fault _) => False

theorem InRange.natAbs_lt {n : Int} (range : InRange n) : n.natAbs < 2 ^ 64 := by
  unfold InRange minInt maxInt at range
  omega

variable {parts : Parts}

theorem failureShowing_eq {n : Int} (below : n.natAbs < 2 ^ 128) (e : OperationError) :
    failureShowing n e = .error e := by
  have writable : Integer.isWritable n := decide_eq_true (Integer.lt_unwritable below (by decide))
  unfold failureShowing
  rw [if_pos writable]

/-- An integer beyond 64 bits is an error that shows it, if it can be written. -/
theorem checked_overflow {n : Int} (beyond : ¬InRange n) (writable : Integer.isWritable n) :
    checked n = .error (.error (.overflow n)) := by
  unfold checked failureShowing
  rw [if_pos writable]
  exact if_neg beyond

theorem checked_sound {n : Int} (below : n.natAbs < 2 ^ 128) : SoundResult parts (checked n) := by
  unfold checked
  by_cases range : minInt ≤ n ∧ n ≤ maxInt
  · rw [if_pos range]
    exact range
  · rw [if_neg range, failureShowing_eq below]
    trivial

theorem onInts_natAbs_lt {op : BinaryOperator} {a b : Int} (left : InRange a) (right : InRange b) :
    (onInts op a b).natAbs < 2 ^ 128 := by
  have first := left.natAbs_lt
  have second := right.natAbs_lt
  have product : a.natAbs * b.natAbs < 2 ^ 64 * 2 ^ 64 := Nat.mul_lt_mul'' first second
  cases op <;> simp only [onInts, Int.natAbs_mul] <;> omega

theorem toReal_sound {v : Value} (sound : v.IsSound parts) : ∃ x, v.toReal = .ok x := by
  fun_cases toReal v with
  | case1 n x _ => exact ⟨x, rfl⟩
  | case2 n beyond =>
    obtain ⟨x, nearest⟩ := Real.ofInt?_isSome (InRange.natAbs_lt sound) (by omega)
    rw [beyond] at nearest
    cases nearest
  | case3 x => exact ⟨x, rfl⟩
  | case4 => exact ⟨0, rfl⟩

theorem onReals_sound {left right : Value} (first : left.IsSound parts) (second : right.IsSound parts)
    (calculate : Float → Float → Float) : SoundResult parts (onReals calculate left right) := by
  obtain ⟨a, leftReal⟩ := toReal_sound first
  obtain ⟨b, rightReal⟩ := toReal_sound second
  simp only [onReals, leftReal, rightReal]
  trivial

theorem divide_sound {left right : Value} (first : left.IsSound parts) (second : right.IsSound parts) :
    SoundResult parts (divide left right) := by
  unfold divide
  split
  · trivial
  · split
    next a b _ =>
      have size := InRange.natAbs_lt first
      have smaller : (a.tdiv b).natAbs ≤ a.natAbs := by
        rw [Int.natAbs_tdiv]
        exact Nat.div_le_self ..
      exact checked_sound (by omega)
    next => exact onReals_sound first second _

theorem repeated_sound {count : Int} (range : InRange count) (s : String) : SoundResult parts (repeated s count) := by
  have size := range.natAbs_lt
  unfold repeated
  by_cases negative : count < 0
  · rw [if_pos negative, failureShowing_eq (by omega)]
    trivial
  · rw [if_neg negative, if_neg (by have := range.2; omega)]
    split <;> trivial

theorem calculate_sound {left right : Value} (first : left.IsSound parts) (second : right.IsSound parts)
    (op : BinaryOperator) : SoundResult parts (calculate op left right) := by
  unfold calculate
  split
  next a b => exact checked_sound (onInts_natAbs_lt first second)
  next => trivial
  next => exact repeated_sound second _
  next => exact repeated_sound first _
  next =>
    split
    · exact onReals_sound first second _
    · trivial

/-- A binary operator gives a sound value for sound operands, or fails with an error of the language. -/
theorem operate_sound {left right : Value} (first : left.IsSound parts) (second : right.IsSound parts)
    (operator : String) : SoundResult parts (left.operate right operator) := by
  unfold operate
  split
  next op _ =>
    unfold apply
    split
    · exact calculate_sound first second _
    · exact calculate_sound first second _
    · exact calculate_sound first second _
    · split
      · exact divide_sound first second
      · trivial
    all_goals split <;> trivial
  next => trivial

/-- A unary operator gives a sound value for a sound operand, or fails with an error of the language. -/
theorem negate_sound {v : Value} (sound : v.IsSound parts) (operator : String) :
    SoundResult parts (v.negate operator) := by
  unfold negate
  split
  · split
    next n =>
      have size := InRange.natAbs_lt sound
      exact checked_sound (by omega)
    next => trivial
    next => trivial
  · split
    · split <;> trivial
    · trivial

end Value

end PhyLang
