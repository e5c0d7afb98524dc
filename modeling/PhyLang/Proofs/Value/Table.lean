import PhyLang.Proofs.Value.Comparison
import PhyLang.Proofs.Value.Limits

namespace PhyLang

namespace Value

/-- A sum, difference or product, of integers and of reals. -/
inductive Calculates : String → (Int → Int → Int) → (Float → Float → Float) → Prop
  | sum : Calculates "+" (· + ·) (· + ·)
  | difference : Calculates "-" (· - ·) (· - ·)
  | product : Calculates "*" (· * ·) (· * ·)

/-- Two numbers of which at least one is a real. -/
inductive AreMixed : Value → Value → Prop
  | left {x : Float} {right : Value} : right.isNumeric → AreMixed (.real x) right
  | right {left : Value} {x : Float} : left.isNumeric → AreMixed left (.real x)

/-- A number and the real that it is made. -/
inductive IsMadeReal : Value → Float → Prop
  | int {n : Int} {x : Float} : Real.ofInt? n = some x → IsMadeReal (.int n) x
  | real {x : Float} : IsMadeReal (.real x) x

/-- The zeros, of which there are two among the reals. -/
inductive IsZero : Value → Prop
  | int : IsZero (.int 0)
  | positive : IsZero (.real 0.0)
  | negative : IsZero (.real (-0.0))

/-- A quotient is cut off toward zero: what remains is smaller than the divisor, and has the sign of the
dividend unless it is zero. -/
def IsQuotient (a b q : Int) : Prop := ∃ m, a = q * b + m ∧ |m| < |b| ∧ (m = 0 ∨ m.sign = a.sign)

/-- A text, a number of times. -/
def copies (s : String) : Nat → String
  | 0 => ""
  | n + 1 => s ++ copies s n

/-- What an operator gives for two values. -/
inductive Gives : String → Value → Value → Value → Prop
  | ints {op f g a b} : Calculates op f g → InRange (f a b) → Gives op (.int a) (.int b) (.int (f a b))
  | reals {op f g left right x y} : Calculates op f g → AreMixed left right → IsMadeReal left x →
      IsMadeReal right y → Gives op left right (.real (g x y))
  | quotient {a b q} : b ≠ 0 → ¬(a = minInt ∧ b = -1) → IsQuotient a b q → Gives "/" (.int a) (.int b) (.int q)
  | realQuotient {left right x y} : AreMixed left right → ¬IsZero right → IsMadeReal left x →
      IsMadeReal right y → Gives "/" left right (.real (x / y))
  | concatenation {a b} : Gives "+" (.str a) (.str b) (.str (a ++ b))
  | repetition {s n} : 0 ≤ n → Gives "*" (.str s) (.int n) (.str (copies s n.toNat))
  | repetitionLeft {s n} : 0 ≤ n → Gives "*" (.int n) (.str s) (.str (copies s n.toNat))
  | order {op relation left right c} : left.isNumeric → right.isNumeric → Orders op relation →
      (c = true ↔ Relates relation left right) → Gives op.text left right (.bool c)
  | equalTexts {a b} : Gives "==" (.str a) (.str b) (.bool (a = b))
  | equalTruths {a b} : Gives "==" (.bool a) (.bool b) (.bool (a = b))
  | different {left right c} : Gives "==" left right (.bool c) → Gives "!=" left right (.bool !c)

/-- The pairs of values that an operator is defined on, unless there is no result. -/
inductive Supports : String → Value → Value → Prop
  | numbers {op : BinaryOperator} {left right} : left.isNumeric → right.isNumeric → Supports op.text left right
  | texts {op a b} : op ∈ ["+", "==", "!="] → Supports op (.str a) (.str b)
  | repetition {s n} : Supports "*" (.str s) (.int n)
  | repetitionLeft {s n} : Supports "*" (.int n) (.str s)
  | truths {op a b} : op ∈ ["==", "!="] → Supports op (.bool a) (.bool b)

/-- The error of an operator for two values. -/
inductive Fails : String → Value → Value → OperationError → Prop
  | overflow {op f g a b} : Calculates op f g → ¬InRange (f a b) →
      Fails op (.int a) (.int b) (.overflow (f a b))
  | largeQuotient : Fails "/" (.int minInt) (.int (-1)) (.overflow (-minInt))
  | zero {left right} : left.isNumeric → IsZero right → Fails "/" left right .divisionByZero
  | repetition {s n} : n < 0 → Fails "*" (.str s) (.int n) (.negativeCount n)
  | repetitionLeft {s n} : n < 0 → Fails "*" (.int n) (.str s) (.negativeCount n)
  | unsupported {op : BinaryOperator} {left right} : ¬Supports op.text left right →
      Fails op.text left right (.unsupported op.text left.typeName right.typeName)
  | unknown {op left right} : (∀ known : BinaryOperator, known.text ≠ op) →
      Fails op left right (.unknownOperator op)

/-- What the operators give for two values, and how they fail, is what the table says. -/
structure FollowsTable (left right : Value) : Prop where
  gives (op : String) (v : Value) : left.operate right op = .ok v ↔ Gives op left right v
  fails (op : String) (failure : OperationFailure) :
    left.operate right op = .error failure ↔ ∃ e, failure = .error e ∧ Fails op left right e
  /-- Of two integers there is no quotient exactly for zero, and for the least one by minus one. -/
  division {a b : Int} : left = .int a → right = .int b →
    ((∃ failure, left.operate right "/" = .error failure) ↔ b = 0 ∨ (a = minInt ∧ b = -1))
  /-- A text is repeated alike on both sides. -/
  repetition_comm {s : String} {n : Int} : left = .str s → right = .int n →
    left.operate right "*" = right.operate left "*"
  repetition_fails {s : String} {n : Int} : left = .str s → right = .int n →
    ((∃ failure, left.operate right "*" = .error failure) ↔ n < 0)
  /-- Repetitions are concatenated by adding the counts. -/
  repetition_add {m n : Int} (s : String) : left = .int m → right = .int n → 0 ≤ m → 0 ≤ n → InRange (m + n) →
    ∃ a b, (str s).operate left "*" = .ok (.str a) ∧ (str s).operate right "*" = .ok (.str b) ∧
      (str s).operate (.int (m + n)) "*" = (str a).operate (.str b) "+"
  /-- Only two numbers, two texts and two truth values are equal or different. -/
  equality {op : String} : op ∈ ["==", "!="] → ((∃ v, left.operate right op = .ok v) ↔
    (left.isNumeric ∧ right.isNumeric) ∨ (∃ a b, left = .str a ∧ right = .str b) ∨
      ∃ a b, left = .bool a ∧ right = .bool b)
  /-- Only numbers are ordered. -/
  order {op : String} : op ∈ ["<", "<=", ">", ">="] →
    ((∃ v, left.operate right op = .ok v) ↔ left.isNumeric ∧ right.isNumeric)
  /-- A truth value is no number on either side. -/
  truth {b : Bool} {op : String} {v : Value} : left = .bool b ∨ right = .bool b → left.operate right op = .ok v →
    op ∈ ["==", "!="] ∧ (∃ a, left = .bool a) ∧ ∃ c, right = .bool c

section Quotient

theorem isQuotient_tdiv (a : Int) {b : Int} (nonzero : b ≠ 0) : IsQuotient a b (a.tdiv b) := by
  have sign := Int.sign_tmod a b
  refine ⟨a.tmod b, (Int.tdiv_mul_add_tmod a b).symm, ?_, ?_⟩
  · rw [Int.abs_eq_natAbs, Int.abs_eq_natAbs, Int.natAbs_tmod]
    exact Int.ofNat_lt.mpr (Nat.mod_lt _ (Int.natAbs_pos.mpr nonzero))
  · by_cases divides : b ∣ a
    · exact Or.inl (Int.tmod_eq_zero_of_dvd divides)
    · rw [if_neg divides] at sign
      exact Or.inr sign

theorem nonneg_of_sign {a m : Int} (sign : m = 0 ∨ m.sign = a.sign) (above : 0 ≤ a) : 0 ≤ m := by
  rcases sign with rfl | same
  · exact le_rfl
  · rwa [← Int.sign_nonneg_iff, same, Int.sign_nonneg_iff]

theorem nonpos_of_sign {a m : Int} (sign : m = 0 ∨ m.sign = a.sign) (below : a ≤ 0) : m ≤ 0 := by
  rcases sign with rfl | same
  · exact le_rfl
  · rwa [← Int.sign_nonpos_iff, same, Int.sign_nonpos_iff]

/-- Two remainders lie on one side of zero, so they differ by less than the divisor. -/
theorem IsQuotient.unique {a b q r : Int} (first : IsQuotient a b q) (second : IsQuotient a b r) : q = r := by
  obtain ⟨m, isSum, small, sign⟩ := first
  obtain ⟨n, isSum', small', sign'⟩ := second
  have multiple : n - m = b * (q - r) := by linarith [mul_comm b q, mul_comm b r, mul_sub b q r]
  have near : |n - m| < |b| := by
    rw [abs_lt] at *
    rcases le_total 0 a with above | below
    · have positive := nonneg_of_sign sign above
      have positive' := nonneg_of_sign sign' above
      omega
    · have negative := nonpos_of_sign sign below
      have negative' := nonpos_of_sign sign' below
      omega
  have none : n - m = 0 := Int.eq_zero_of_abs_lt_dvd ((abs_dvd b _).mpr ⟨_, multiple⟩) near
  have nonzero : b ≠ 0 := by
    rintro rfl
    exact absurd small (by simp)
  rw [none] at multiple
  have same := (mul_eq_zero.mp multiple.symm).resolve_left nonzero
  omega

theorem tdiv_inRange {a b : Int} (range : InRange a) (nonzero : b ≠ 0) :
    InRange (a.tdiv b) ↔ ¬(a = minInt ∧ b = -1) := by
  have size : (a.tdiv b).natAbs = a.natAbs / b.natAbs := Int.natAbs_tdiv a b
  unfold InRange minInt maxInt at *
  by_cases minusOne : b = -1
  · rw [minusOne, Int.tdiv_neg, Int.tdiv_one]
    omega
  · by_cases one : b = 1
    · rw [one, Int.tdiv_one]
      omega
    · have half : a.natAbs / b.natAbs ≤ a.natAbs / 2 := Nat.div_le_div_left (by omega) (by omega)
      omega

end Quotient

section Zero

theorem isZero_iff {v : Value} : v.isZero ↔ IsZero v := by
  have positive := Real.unitsInOne_pos
  unfold isZero
  rw [beq_iff_eq]
  cases v with
  | int n =>
    rw [magnitude?, Option.some.injEq, Real.Magnitude.ofInt, Real.Magnitude.units.injEq, Int.mul_eq_zero]
    constructor
    · intro zero
      obtain rfl : n = 0 := by omega
      exact .int
    · rintro ⟨⟩
      exact Or.inl rfl
  | real x =>
    rw [magnitude?, Option.some.injEq, Real.magnitude_eq_zero]
    constructor
    · rintro (rfl | rfl)
      · exact .positive
      · exact .negative
    · rintro (_ | _)
      · exact Or.inl rfl
      · exact Or.inr rfl
  | _ =>
    constructor
    · intro counted
      cases counted
    · intro zero
      cases zero

end Zero

section Repetition

theorem copies_eq (s : String) (n : Nat) : String.join (List.replicate n s) = copies s n := by
  induction n with
  | zero => rfl
  | succ n ih => rw [List.replicate_succ, String.join_cons, ih, copies]

theorem copies_empty (n : Nat) : copies "" n = "" := by
  induction n with
  | zero => rfl
  | succ n ih => rw [copies, ih, String.append_empty]

theorem copies_add (s : String) (m n : Nat) : copies s (m + n) = copies s m ++ copies s n := by
  rw [← copies_eq, ← copies_eq, ← copies_eq, List.replicate_append_replicate.symm, String.join_append]

theorem repeated_eq (s : String) {n : Int} (nonneg : 0 ≤ n) (range : InRange n) :
    repeated s n = .ok (.str (copies s n.toNat)) := by
  unfold repeated
  rw [if_neg (by omega), if_neg (by have := range.2; omega), copies_eq]
  by_cases empty : s.isEmpty
  · obtain rfl : s = "" := by simpa using empty
    rw [if_pos empty, copies_empty]
  · rw [if_neg empty]

theorem repeated_negative (s : String) {n : Int} (negative : n < 0) (range : InRange n) :
    repeated s n = .error (.error (.negativeCount n)) := by
  have size := range.natAbs_lt
  unfold repeated
  rw [if_pos negative, failureShowing_eq (by omega)]

end Repetition

section Operators

variable {left right : Value} {op : String} {f : Int → Int → Int} {g : Float → Float → Float}

/-- The operator with a spelling that calculates. -/
theorem Calculates.exists_operator (calculates : Calculates op f g) :
    ∃ known : BinaryOperator, known.text = op ∧ onInts known = f ∧ onFloats known = g ∧
      ∀ left right, left.operate right op = calculate known left right := by
  cases calculates with
  | sum => exact ⟨.add, rfl, rfl, rfl, fun left right => operate_text left right .add⟩
  | difference => exact ⟨.sub, rfl, rfl, rfl, fun left right => operate_text left right .sub⟩
  | product => exact ⟨.mul, rfl, rfl, rfl, fun left right => operate_text left right .mul⟩

theorem Calculates.operate_ints (calculates : Calculates op f g) (a b : Int) :
    (int a).operate (int b) op = checked (f a b) := by
  obtain ⟨known, -, rfl, -, result⟩ := calculates.exists_operator
  exact result _ _

theorem AreMixed.isNumeric (mixed : AreMixed left right) : left.isNumeric ∧ right.isNumeric := by
  cases mixed with
  | left numeric => exact ⟨rfl, numeric⟩
  | right numeric => exact ⟨numeric, rfl⟩

theorem AreMixed.calculate_eq (mixed : AreMixed left right) (known : BinaryOperator) :
    calculate known left right = onReals (onFloats known) left right := by
  have numeric := mixed.isNumeric
  cases mixed <;> unfold calculate <;> split <;> simp_all

theorem AreMixed.divide_eq (mixed : AreMixed left right) (nonzero : ¬IsZero right) :
    divide left right = onReals (· / ·) left right := by
  unfold divide
  rw [if_neg (mt isZero_iff.mp nonzero)]
  split
  · cases mixed
  · rfl

theorem IsMadeReal.toReal_eq {v : Value} {x : Float} (made : IsMadeReal v x) : v.toReal = .ok x := by
  fun_cases toReal v with
  | case1 n y nearest =>
    obtain ⟨same⟩ := made
    rw [Option.some.inj (nearest.symm.trans same)]
  | case2 n beyond =>
    obtain ⟨same⟩ := made
    cases beyond.symm.trans same
  | case3 y =>
    cases made
    rfl
  | case4 v notInt notReal =>
    cases made with
    | int => exact absurd rfl (notInt _)
    | real => exact absurd rfl (notReal _)

theorem onReals_eq {x y : Float} (first : IsMadeReal left x) (second : IsMadeReal right y) :
    onReals g left right = .ok (.real (g x y)) := by
  simp only [onReals, first.toReal_eq, second.toReal_eq]
  rfl

/-- The quotient of two integers, unless the divisor is zero. -/
theorem operate_quotient (a : Int) {b : Int} (nonzero : b ≠ 0) :
    (int a).operate (int b) "/" = checked (a.tdiv b) := by
  have divisor : ¬(int b).isZero := by
    rw [isZero_iff]
    rintro ⟨⟩
    exact nonzero rfl
  exact if_neg divisor

theorem operate_divide (numeric : left.isNumeric) (numeric' : right.isNumeric) :
    left.operate right "/" = divide left right :=
  if_pos (Bool.and_eq_true_iff.mpr ⟨numeric, numeric'⟩)

theorem checked_beyond {n : Int} (beyond : ¬InRange n) (below : n.natAbs < 2 ^ 128) :
    checked n = .error (.error (.overflow n)) :=
  checked_overflow beyond (decide_eq_true (Integer.lt_unwritable below (by decide)))

theorem operate_equality {order : Option Ordering} (comparable : sameKindOrder? left right = some order) :
    left.operate right "==" = .ok (.bool (order == some .eq)) ∧
      left.operate right "!=" = .ok (.bool !(order == some .eq)) := by
  constructor
  · change apply .equal left right = _
    simp only [apply, comparable]
    rfl
  · change apply .notEqual left right = _
    simp only [apply, comparable]
    rfl

theorem operate_incomparable (incomparable : sameKindOrder? left right = none) :
    left.operate right "==" = unsupported .equal left right ∧
      left.operate right "!=" = unsupported .notEqual left right := by
  constructor
  · change apply .equal left right = _
    simp only [apply, incomparable]
  · change apply .notEqual left right = _
    simp only [apply, incomparable]

theorem beq_order {α : Type} [BEq α] [LawfulBEq α] [DecidableEq α] (a b : α) :
    ((if a == b then some Ordering.eq else none) == some Ordering.eq) = decide (a = b) := by
  by_cases same : a = b
  · rw [if_pos (beq_iff_eq.mpr same), decide_eq_true same]
    rfl
  · rw [if_neg (mt beq_iff_eq.mp same), decide_eq_false same]
    rfl

/-- What the table gives is what the operator gives. -/
theorem Gives.operate {v : Value} (gives : Gives op left right v) (first : Limits.word.Admits left)
    (second : Limits.word.Admits right) : left.operate right op = .ok v := by
  induction gives with
  | ints calculates range =>
    rw [calculates.operate_ints]
    exact if_pos range
  | reals calculates mixed isX isY =>
    obtain ⟨known, -, -, rfl, result⟩ := calculates.exists_operator
    rw [result, mixed.calculate_eq, onReals_eq isX isY]
  | @quotient a b q nonzero fits quotient =>
    obtain rfl := quotient.unique (isQuotient_tdiv a nonzero)
    rw [operate_quotient a nonzero]
    exact if_pos ((tdiv_inRange (first a rfl) nonzero).mpr fits)
  | realQuotient mixed nonzero isX isY =>
    rw [operate_divide mixed.isNumeric.1 mixed.isNumeric.2, mixed.divide_eq nonzero, onReals_eq isX isY]
  | concatenation => rfl
  | repetition nonneg => exact repeated_eq _ nonneg (second _ rfl)
  | repetitionLeft nonneg => exact repeated_eq _ nonneg (first _ rfl)
  | order numeric numeric' orders related =>
    have tells := orders.tells numeric numeric'
    rename_i c
    cases c with
    | true => exact tells.holds (related.mp rfl)
    | false => exact tells.fails fun holds => nomatch related.mpr holds
  | @equalTexts a b => exact (operate_equality rfl).1.trans (by rw [beq_order])
  | @equalTruths a b => exact (operate_equality rfl).1.trans (by rw [beq_order])
  | @different left right c _ ih =>
    have equal := ih first second
    cases comparable : sameKindOrder? left right with
    | none => cases equal.symm.trans (operate_incomparable comparable).1
    | some order =>
      cases equal.symm.trans (operate_equality comparable).1
      exact (operate_equality comparable).2

theorem isNumeric_of_magnitude? {v : Value} {m : Real.Magnitude} (counted : v.magnitude? = some m) : v.isNumeric := by
  cases v with
  | int | real => rfl
  | _ => cases counted

section Unsupported

variable {known : BinaryOperator} (absent : ¬Supports known.text left right)
include absent

theorem not_isNumeric_of_unsupported : ¬(left.isNumeric && right.isNumeric) := by
  intro numeric
  have numeric := Bool.and_eq_true_iff.mp numeric
  exact absent (.numbers numeric.1 numeric.2)

theorem calculate_unsupported : calculate known left right = unsupported known left right := by
  fun_cases calculate known left right with
  | case1 => exact absurd (.numbers rfl rfl) absent
  | case2 => exact absurd (.texts (by decide)) absent
  | case3 => exact absurd .repetition absent
  | case4 => exact absurd .repetitionLeft absent
  | case5 | case6 => exact if_neg (not_isNumeric_of_unsupported absent)

theorem magnitude?_unsupported {a b : Real.Magnitude} (first : left.magnitude? = some a) : right.magnitude? ≠ some b :=
  fun second => absent (.numbers (isNumeric_of_magnitude? first) (isNumeric_of_magnitude? second))

theorem sameKindOrder?_unsupported (comparison : known.text ∈ ["==", "!="]) : sameKindOrder? left right = none := by
  fun_cases sameKindOrder? left right with
  | case1 => exact absurd (.texts (List.mem_cons_of_mem _ comparison)) absent
  | case2 => exact absurd (.truths comparison) absent
  | case3 =>
    cases first : left.magnitude? with
    | none => rfl
    | some a =>
      cases second : right.magnitude? with
      | none => rfl
      | some b => exact absurd second (magnitude?_unsupported absent first)

/-- An operator that is not defined on two values says so. -/
theorem operate_unsupported : left.operate right known.text = unsupported known left right := by
  cases known with
  | add => exact calculate_unsupported absent
  | sub => exact calculate_unsupported absent
  | mul => exact calculate_unsupported absent
  | div => exact if_neg (not_isNumeric_of_unsupported absent)
  | equal => exact (operate_incomparable (sameKindOrder?_unsupported absent (by decide))).1
  | notEqual => exact (operate_incomparable (sameKindOrder?_unsupported absent (by decide))).2
  | less | lessEqual | greater | greaterEqual =>
    rw [operate_text]
    dsimp only [apply]
    split
    next a b first second => exact absurd second (magnitude?_unsupported absent first)
    next => rfl

end Unsupported

/-- The errors of the table are those of the operator. -/
theorem Fails.operate {e : OperationError} (fails : Fails op left right e) (first : Limits.word.Admits left)
    (second : Limits.word.Admits right) : left.operate right op = .error (.error e) := by
  cases fails with
  | @overflow _ f g a b calculates beyond =>
    obtain ⟨known, -, rfl, -, -⟩ := calculates.exists_operator
    rw [calculates.operate_ints]
    exact checked_beyond beyond (onInts_natAbs_lt (first a rfl) (second b rfl))
  | largeQuotient =>
    rw [operate_quotient minInt (by decide)]
    exact checked_beyond (n := minInt.tdiv (-1)) (by decide) (by decide)
  | zero numeric zero =>
    have numeric' : right.isNumeric := by cases zero <;> rfl
    rw [operate_divide numeric numeric']
    exact if_pos (isZero_iff.mpr zero)
  | repetition negative => exact repeated_negative _ negative (second _ rfl)
  | repetitionLeft negative => exact repeated_negative _ negative (first _ rfl)
  | unsupported absent => exact operate_unsupported absent
  | unknown foreign =>
    have none : BinaryOperator.ofText? op = none := by
      refine List.find?_eq_none.mpr fun known _ => ?_
      simpa using foreign known
    rw [Value.operate, none]

/-- The table has a result or an error for two values. -/
def IsSettled (op : String) (left right : Value) : Prop :=
  (∃ v, Gives op left right v) ∨ ∃ e, Fails op left right e

theorem exists_isMadeReal {v : Value} (numeric : v.isNumeric) (admits : Limits.word.Admits v) :
    ∃ x, IsMadeReal v x := by
  cases v with
  | int n =>
    obtain ⟨x, nearest⟩ := Real.ofInt?_isSome (admits n rfl).natAbs_lt (by omega)
    exact ⟨x, .int nearest⟩
  | real x => exact ⟨x, .real⟩
  | _ => cases numeric

theorem ints_or_areMixed (first : left.isNumeric) (second : right.isNumeric) :
    (∃ a b, left = .int a ∧ right = .int b) ∨ AreMixed left right := by
  cases left with
  | int a =>
    cases right with
    | int b => exact Or.inl ⟨a, b, rfl, rfl⟩
    | real => exact Or.inr (.right first)
    | _ => cases second
  | real => exact Or.inr (.left second)
  | _ => cases first

section Numbers

variable (first : left.isNumeric) (second : right.isNumeric) (leftFits : Limits.word.Admits left)
  (rightFits : Limits.word.Admits right)
include first second

theorem Orders.isSettled {op : BinaryOperator} {relation : Real.Exact → Real.Exact → Prop}
    (orders : Orders op relation) : ∃ c, Gives op.text left right (.bool c) := by
  by_cases related : Relates relation left right
  · exact ⟨true, .order first second orders ⟨fun _ => related, fun _ => rfl⟩⟩
  · exact ⟨false, .order first second orders ⟨nofun, fun holds => absurd holds related⟩⟩

include leftFits rightFits

theorem Calculates.isSettled (calculates : Calculates op f g) : IsSettled op left right := by
  rcases ints_or_areMixed first second with ⟨a, b, rfl, rfl⟩ | mixed
  · by_cases range : InRange (f a b)
    · exact Or.inl ⟨_, .ints calculates range⟩
    · exact Or.inr ⟨_, .overflow calculates range⟩
  · obtain ⟨x, isX⟩ := exists_isMadeReal first leftFits
    obtain ⟨y, isY⟩ := exists_isMadeReal second rightFits
    exact Or.inl ⟨_, .reals calculates mixed isX isY⟩

theorem quotient_isSettled : IsSettled "/" left right := by
  by_cases zero : IsZero right
  · exact Or.inr ⟨_, .zero first zero⟩
  · rcases ints_or_areMixed first second with ⟨a, b, rfl, rfl⟩ | mixed
    · have nonzero : b ≠ 0 := by
        rintro rfl
        exact zero .int
      by_cases large : a = minInt ∧ b = -1
      · obtain ⟨rfl, rfl⟩ := large
        exact Or.inr ⟨_, .largeQuotient⟩
      · exact Or.inl ⟨_, .quotient nonzero large (isQuotient_tdiv a nonzero)⟩
    · obtain ⟨x, isX⟩ := exists_isMadeReal first leftFits
      obtain ⟨y, isY⟩ := exists_isMadeReal second rightFits
      exact Or.inl ⟨_, .realQuotient mixed zero isX isY⟩

theorem numbers_isSettled (op : BinaryOperator) : IsSettled op.text left right := by
  have told {op : BinaryOperator} {relation : Real.Exact → Real.Exact → Prop} (orders : Orders op relation) :
      IsSettled op.text left right := by
    obtain ⟨c, gives⟩ := orders.isSettled first second
    exact Or.inl ⟨_, gives⟩
  cases op with
  | add => exact Calculates.sum.isSettled first second leftFits rightFits
  | sub => exact Calculates.difference.isSettled first second leftFits rightFits
  | mul => exact Calculates.product.isSettled first second leftFits rightFits
  | div => exact quotient_isSettled first second leftFits rightFits
  | less => exact told .less
  | lessEqual => exact told .lessEqual
  | greater => exact told .greater
  | greaterEqual => exact told .greaterEqual
  | equal => exact told .equal
  | notEqual =>
    obtain ⟨c, equal⟩ := Orders.equal.isSettled first second
    exact Or.inl ⟨_, .different equal⟩

end Numbers

theorem Supports.isSettled (supports : Supports op left right) (first : Limits.word.Admits left)
    (second : Limits.word.Admits right) : IsSettled op left right := by
  cases supports with
  | @numbers known _ _ numeric numeric' => exact numbers_isSettled numeric numeric' first second known
  | texts known =>
    simp only [List.mem_cons, List.not_mem_nil, or_false] at known
    rcases known with rfl | rfl | rfl
    · exact Or.inl ⟨_, .concatenation⟩
    · exact Or.inl ⟨_, .equalTexts⟩
    · exact Or.inl ⟨_, .different .equalTexts⟩
  | @repetition s n =>
    rcases lt_or_ge n 0 with negative | nonneg
    · exact Or.inr ⟨_, .repetition negative⟩
    · exact Or.inl ⟨_, .repetition nonneg⟩
  | @repetitionLeft s n =>
    rcases lt_or_ge n 0 with negative | nonneg
    · exact Or.inr ⟨_, .repetitionLeft negative⟩
    · exact Or.inl ⟨_, .repetitionLeft nonneg⟩
  | truths known =>
    simp only [List.mem_cons, List.not_mem_nil, or_false] at known
    rcases known with rfl | rfl
    · exact Or.inl ⟨_, .equalTruths⟩
    · exact Or.inl ⟨_, .different .equalTruths⟩

/-- The table has an entry for every spelling and all values. -/
theorem isSettled (op : String) (first : Limits.word.Admits left) (second : Limits.word.Admits right) :
    IsSettled op left right := by
  by_cases known : ∃ known : BinaryOperator, known.text = op
  · obtain ⟨known, rfl⟩ := known
    by_cases supports : Supports known.text left right
    · exact supports.isSettled first second
    · exact Or.inr ⟨_, .unsupported supports⟩
  · exact Or.inr ⟨_, .unknown (not_exists.mp known)⟩

section Table

variable (first : Limits.word.Admits left) (second : Limits.word.Admits right)
include first second

theorem operate_ok_iff {v : Value} : left.operate right op = .ok v ↔ Gives op left right v := by
  refine ⟨fun result => ?_, fun gives => gives.operate first second⟩
  rcases isSettled op first second with ⟨w, gives⟩ | ⟨e, fails⟩
  · obtain rfl := Except.ok.inj (result.symm.trans (gives.operate first second))
    exact gives
  · cases result.symm.trans (fails.operate first second)

theorem operate_error_iff {failure : OperationFailure} :
    left.operate right op = .error failure ↔ ∃ e, failure = .error e ∧ Fails op left right e := by
  constructor
  · intro result
    rcases isSettled op first second with ⟨w, gives⟩ | ⟨e, fails⟩
    · cases result.symm.trans (gives.operate first second)
    · exact ⟨e, Except.error.inj (result.symm.trans (fails.operate first second)), fails⟩
  · rintro ⟨e, rfl, fails⟩
    exact fails.operate first second

/-- What has a result is supported. -/
theorem supports_of_operate {v : Value} (result : left.operate right op = .ok v) : Supports op left right := by
  by_contra absent
  by_cases known : ∃ known : BinaryOperator, known.text = op
  · obtain ⟨known, rfl⟩ := known
    cases result.symm.trans (operate_unsupported absent)
  · have unknown : Fails op left right _ := .unknown (not_exists.mp known)
    cases result.symm.trans (unknown.operate first second)

theorem division_iff {a b : Int} (dividend : left = .int a) (divisor : right = .int b) :
    (∃ failure, left.operate right "/" = .error failure) ↔ b = 0 ∨ (a = minInt ∧ b = -1) := by
  subst dividend divisor
  constructor
  · rintro ⟨failure, failed⟩
    by_contra fits
    obtain ⟨nonzero, fits⟩ := not_or.mp fits
    have gives := Gives.quotient nonzero fits (isQuotient_tdiv a nonzero)
    cases failed.symm.trans (gives.operate first second)
  · rintro (rfl | ⟨rfl, rfl⟩)
    · exact ⟨_, (Fails.zero rfl .int).operate first second⟩
    · exact ⟨_, Fails.largeQuotient.operate first second⟩

theorem repetition_iff {s : String} {n : Int} (text : left = .str s) (count : right = .int n) :
    (∃ failure, left.operate right "*" = .error failure) ↔ n < 0 := by
  subst text count
  constructor
  · rintro ⟨failure, failed⟩
    by_contra nonneg
    cases failed.symm.trans ((Gives.repetition (by omega)).operate first second)
  · exact fun negative => ⟨_, (Fails.repetition negative).operate first second⟩

theorem equality_iff (comparison : op ∈ ["==", "!="]) : (∃ v, left.operate right op = .ok v) ↔
    (left.isNumeric ∧ right.isNumeric) ∨ (∃ a b, left = .str a ∧ right = .str b) ∨
      ∃ a b, left = .bool a ∧ right = .bool b := by
  constructor
  · rintro ⟨v, result⟩
    cases supports_of_operate first second result with
    | numbers numeric numeric' => exact Or.inl ⟨numeric, numeric'⟩
    | texts => exact Or.inr (Or.inl ⟨_, _, rfl, rfl⟩)
    | truths => exact Or.inr (Or.inr ⟨_, _, rfl, rfl⟩)
    | repetition | repetitionLeft => exact absurd comparison (by decide)
  · intro kinds
    have equal : ∃ c, Gives "==" left right (.bool c) := by
      rcases kinds with ⟨numeric, numeric'⟩ | ⟨a, b, rfl, rfl⟩ | ⟨a, b, rfl, rfl⟩
      · exact Orders.equal.isSettled numeric numeric'
      · exact ⟨_, .equalTexts⟩
      · exact ⟨_, .equalTruths⟩
    obtain ⟨c, equal⟩ := equal
    simp only [List.mem_cons, List.not_mem_nil, or_false] at comparison
    rcases comparison with rfl | rfl
    · exact ⟨_, equal.operate first second⟩
    · exact ⟨_, (Gives.different equal).operate first second⟩

theorem order_iff (comparison : op ∈ ["<", "<=", ">", ">="]) :
    (∃ v, left.operate right op = .ok v) ↔ left.isNumeric ∧ right.isNumeric := by
  have orders : ∃ (known : BinaryOperator) (relation : _), known.text = op ∧ Orders known relation := by
    simp only [List.mem_cons, List.not_mem_nil, or_false] at comparison
    rcases comparison with rfl | rfl | rfl | rfl
    · exact ⟨_, _, rfl, .less⟩
    · exact ⟨_, _, rfl, .lessEqual⟩
    · exact ⟨_, _, rfl, .greater⟩
    · exact ⟨_, _, rfl, .greaterEqual⟩
  constructor
  · rintro ⟨v, result⟩
    cases supports_of_operate first second result with
    | numbers numeric numeric' => exact ⟨numeric, numeric'⟩
    | texts known =>
      have apart : ∀ op ∈ ["<", "<=", ">", ">="], op ∉ ["+", "==", "!="] := by decide
      exact absurd known (apart op comparison)
    | truths known =>
      have apart : ∀ op ∈ ["<", "<=", ">", ">="], op ∉ ["==", "!="] := by decide
      exact absurd known (apart op comparison)
    | repetition | repetitionLeft => exact absurd comparison (by decide)
  · rintro ⟨numeric, numeric'⟩
    obtain ⟨known, relation, rfl, orders⟩ := orders
    obtain ⟨c, gives⟩ := orders.isSettled numeric numeric'
    exact ⟨_, gives.operate first second⟩

end Table

end Operators

/-- Every operator does for every two values, whose integers have 64 bits, what the table says. -/
theorem followsTable {left right : Value} (first : Limits.word.Admits left) (second : Limits.word.Admits right) :
    FollowsTable left right where
  gives _ _ := operate_ok_iff first second
  fails _ _ := operate_error_iff first second
  division := division_iff first second
  repetition_comm text count := by
    subst text count
    rfl
  repetition_fails := repetition_iff first second
  repetition_add {m n} s count more nonneg nonneg' range := by
    subst count more
    have unbounded : Limits.word.Admits (.str s) := fun _ => nofun
    have total : Limits.word.Admits (.int (m + n)) := fun k same => Value.int.inj same ▸ range
    refine ⟨_, _, (Gives.repetition nonneg).operate unbounded first,
      (Gives.repetition nonneg').operate unbounded second, ?_⟩
    rw [(Gives.repetition (by omega)).operate unbounded total, Int.toNat_add nonneg nonneg', copies_add]
    rfl
  equality := equality_iff first second
  order := order_iff first second
  truth truth result := by
    cases supports_of_operate first second result with
    | truths known => exact ⟨known, ⟨_, rfl⟩, ⟨_, rfl⟩⟩
    | numbers numeric numeric' =>
      rcases truth with rfl | rfl
      · cases numeric
      · cases numeric'
    | texts | repetition | repetitionLeft => rcases truth with same | same <;> cases same

theorem followsTable_of_int_str :
    Limits.word.Admits (.int 3) ∧ Limits.word.Admits (.str "ab") ∧ FollowsTable (.int 3) (.str "ab") := by
  have first : Limits.word.Admits (.int 3) := fun n same => Value.int.inj same ▸ (show InRange 3 by decide)
  have second : Limits.word.Admits (.str "ab") := fun _ => nofun
  exact ⟨first, second, followsTable first second⟩

end Value

end PhyLang
