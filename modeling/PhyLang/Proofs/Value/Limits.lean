import PhyLang.Proofs.Value.Plain
import PhyLang.Proofs.Value.Sound

namespace PhyLang

/-- What is asked of the integers of a run, and for which faults the host may refuse an operation on them. -/
structure Limits where
  int : Int → Prop
  fault : Fault → Prop

namespace Value

/-- A value that operations can do something with, or null. -/
def IsBasic : Value → Prop
  | .int _ | .real _ | .str _ | .bool _ | .null => True
  | _ => False

section Others

variable {left right : Value} (other : ¬left.IsBasic ∨ ¬right.IsBasic)
include other

theorem isNumeric_other : ¬(left.isNumeric && right.isNumeric) := by
  rcases other with noBasic | noBasic
  · cases left <;> simp_all [isNumeric, IsBasic]
  · cases right <;> simp_all [isNumeric, IsBasic]

theorem calculate_other (op : BinaryOperator) : calculate op left right = unsupported op left right := by
  unfold calculate
  split
  case h_5 => rw [if_neg (isNumeric_other other)]
  all_goals simp [IsBasic] at other

theorem apply_other (op : BinaryOperator) : apply op left right = unsupported op left right := by
  cases op with
  | add | sub | mul => exact calculate_other other _
  | div => exact if_neg (isNumeric_other other)
  | less | lessEqual | greater | greaterEqual =>
    dsimp only [apply]
    split
    next first second =>
      rcases other with noBasic | noBasic
      · cases left <;> simp_all [magnitude?, IsBasic]
      · cases right <;> simp_all [magnitude?, IsBasic]
    next => rfl
  | equal | notEqual =>
    dsimp only [apply]
    have unordered : sameKindOrder? left right = none := by
      rcases other with noBasic | noBasic
      · cases left <;> simp_all [sameKindOrder?, magnitude?, IsBasic]
      · cases left <;> cases right <;> simp_all [sameKindOrder?, magnitude?, IsBasic]
    rw [unordered]

/-- A function or something foreign is an operand of no operation. -/
theorem operate_other (operator : String) : ∃ e, left.operate right operator = .error (.error e) := by
  unfold operate
  split
  · exact ⟨_, apply_other other _⟩
  · exact ⟨_, rfl⟩

end Others

end Value

namespace Limits

/-- Integers of any size, operations on which may be refused. -/
def unlimited : Limits := ⟨fun _ => True, Fault.IsNumeric⟩

/-- Integers of 64 bits, on which no operation is refused. -/
def word : Limits := ⟨Value.InRange, fun _ => False⟩

/-- If a value is an integer, it lies within the limits. -/
def Admits (limits : Limits) (v : Value) : Prop := ∀ n, v = .int n → limits.int n

/-- What comes of an operation: a plain value within the limits, an error of the language, or a refusal for
one of the faults. -/
def AdmitsResult (limits : Limits) : Operated Value → Prop
  | .ok v => v.IsPlain ∧ limits.Admits v
  | .error (.error _) => True
  | .error (.fault f) => limits.fault f

/-- Operations on values within the limits stay within them, and so do the integers between others. -/
structure AreKept (limits : Limits) : Prop where
  operate {left right : Value} (operator : String) : limits.Admits left → limits.Admits right →
    limits.AdmitsResult (left.operate right operator)
  negate {v : Value} (operator : String) : limits.Admits v → limits.AdmitsResult (v.negate operator)
  between {first last n : Int} : limits.int first → limits.int last → first ≤ n → n ≤ last → limits.int n
  zero : limits.int 0
  one : limits.int 1

theorem unlimited_admits {result : Operated Value} (regular : Value.IsRegular result) :
    unlimited.AdmitsResult result := by
  rcases result with (e | f) | v
  · trivial
  · exact regular.numeric f rfl
  · exact ⟨regular.plain v rfl, fun _ _ => trivial⟩

theorem unlimited_areKept : unlimited.AreKept where
  operate operator _ _ := unlimited_admits (Value.operate_isRegular _ _ operator)
  negate operator _ := unlimited_admits (Value.negate_isRegular _ operator)
  between _ _ _ _ := trivial
  zero := trivial
  one := trivial

theorem word_admits {result : Operated Value} (plain : Value.IsPlainResult result)
    (sound : Value.SoundResult Parts.any result) : word.AdmitsResult result := by
  rcases result with (e | f) | v
  · trivial
  · exact sound
  · refine ⟨plain v rfl, fun n same => ?_⟩
    subst same
    exact sound

/-- A value within the limits that operations can do something with is sound. -/
theorem word_isSound {v : Value} (admits : word.Admits v) (basic : v.IsBasic) : v.IsSound Parts.any := by
  cases v with
  | int n => exact admits n rfl
  | real | str | bool | null => trivial
  | _ => exact basic.elim

theorem word_areKept : word.AreKept where
  operate {left right} operator first second := by
    by_cases basic : left.IsBasic ∧ right.IsBasic
    · exact word_admits (Value.operate_isRegular _ _ operator).plain
        (Value.operate_sound (word_isSound first basic.1) (word_isSound second basic.2) operator)
    · obtain ⟨e, failed⟩ := Value.operate_other (not_and_or.mp basic) operator
      rw [failed]
      trivial
  negate {v} operator admits := by
    by_cases basic : v.IsBasic
    · exact word_admits (Value.negate_isRegular _ operator).plain (Value.negate_sound (word_isSound admits basic) operator)
    · cases v <;> first | exact absurd trivial basic | skip
      all_goals
        unfold Value.negate
        split
        · trivial
        · split <;> trivial
  between first last lower upper := ⟨first.1.trans lower, upper.trans last.2⟩
  zero := show Value.InRange 0 by decide
  one := show Value.InRange 1 by decide

end Limits

end PhyLang
