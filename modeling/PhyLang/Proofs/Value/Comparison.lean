import PhyLang.Proofs.Real.Exact
import PhyLang.Value.Operation

namespace PhyLang

namespace Real.Magnitude

theorem ofRat_units_strictMono : StrictMono fun count : Int => Exact.ofRat (count / unitsInOne) := by
  intro a b less
  have positive : (0 : ℚ) < unitsInOne := by exact_mod_cast unitsInOne_pos
  exact Exact.ofRat_lt.mpr (div_lt_div_of_pos_right (by exact_mod_cast less) positive)

/-- Magnitudes are ordered as the numbers that they stand for. -/
theorem compare?_eq (a b : Magnitude) : a.compare? b = Option.map₂ compare a.number? b.number? := by
  cases a with
  | undefined => rfl
  | below =>
    cases b with
    | undefined | below => rfl
    | units b => exact congrArg some (compare_lt_iff_lt.mpr (Exact.bot_lt_ofRat _)).symm
    | above => exact congrArg some (compare_lt_iff_lt.mpr bot_lt_top).symm
  | above =>
    cases b with
    | undefined | above => rfl
    | units b => exact congrArg some (compare_gt_iff_gt.mpr (Exact.ofRat_lt_top _)).symm
    | below => exact congrArg some (compare_gt_iff_gt.mpr bot_lt_top).symm
  | units a =>
    cases b with
    | undefined => rfl
    | below => exact congrArg some (compare_gt_iff_gt.mpr (Exact.bot_lt_ofRat _)).symm
    | above => exact congrArg some (compare_lt_iff_lt.mpr (Exact.ofRat_lt_top _)).symm
    | units b =>
      have same := ofRat_units_strictMono.cmp_map_eq a b
      rw [cmp_eq_compare, cmp_eq_compare] at same
      exact congrArg some same.symm

theorem number?_ofInt (n : Int) : (ofInt n).number? = some (.ofRat n) := by
  have positive : (unitsInOne : ℚ) ≠ 0 := by exact_mod_cast unitsInOne_pos.ne'
  have whole : ((n * unitsInOne : Int) : ℚ) / unitsInOne = n := by
    push_cast
    exact mul_div_cancel_right₀ _ positive
  rw [ofInt, number?, whole]

end Real.Magnitude

namespace Value

/-- The number that a value stands for. -/
def number? : Value → Option Real.Exact
  | .int n => some (.ofRat n)
  | .real x => Real.number? x
  | _ => none

/-- A value is the real that is no number. -/
def IsNaN (v : Value) : Prop := ∃ x, v = .real x ∧ x.isNaN

/-- Two values stand for numbers that are related to each other. -/
def Relates (relation : Real.Exact → Real.Exact → Prop) (left right : Value) : Prop :=
  ∃ a b, left.number? = some a ∧ right.number? = some b ∧ relation a b

/-- A comparison of two values is true. -/
def Satisfies (left : Value) (operator : String) (right : Value) : Prop :=
  left.operate right operator = .ok (.bool true)

/-- A comparison of two values is true if something holds, and false otherwise. -/
structure Tells (left : Value) (operator : String) (right : Value) (p : Prop) : Prop where
  holds : p → left.operate right operator = .ok (.bool true)
  fails : ¬p → left.operate right operator = .ok (.bool false)

theorem Tells.satisfies_iff {left right : Value} {operator : String} {p : Prop} (tells : Tells left operator right p) :
    left.Satisfies operator right ↔ p := by
  refine ⟨fun satisfied => ?_, tells.holds⟩
  by_contra unrelated
  cases satisfied.symm.trans (tells.fails unrelated)

/-- The comparisons that tell how the numbers that two values stand for are related. Inequality is none of them,
for it also holds where a value stands for no number. -/
inductive Orders : BinaryOperator → (Real.Exact → Real.Exact → Prop) → Prop
  | less : Orders .less (· < ·)
  | lessEqual : Orders .lessEqual (· ≤ ·)
  | greater : Orders .greater (· > ·)
  | greaterEqual : Orders .greaterEqual (· ≥ ·)
  | equal : Orders .equal (· = ·)

/-- The spellings of the comparisons. -/
def comparisons : List String := ["<", "<=", ">", ">=", "==", "!="]

theorem operate_text (left right : Value) (op : BinaryOperator) : left.operate right op.text = apply op left right := by
  have found : BinaryOperator.ofText? op.text = some op := by cases op <;> decide
  rw [operate, found]

theorem magnitude?_isNumeric {v : Value} (numeric : v.isNumeric) :
    ∃ m, v.magnitude? = some m ∧ m.number? = v.number? := by
  cases v with
  | int n => exact ⟨_, rfl, Real.Magnitude.number?_ofInt n⟩
  | real x => exact ⟨_, rfl, Real.number?_magnitude x⟩
  | _ => cases numeric

theorem sameKindOrder?_magnitude {left right : Value} {a b : Real.Magnitude} (first : left.magnitude? = some a)
    (second : right.magnitude? = some b) : sameKindOrder? left right = some (a.compare? b) := by
  cases left with
  | int | real =>
    simp only [sameKindOrder?, first, second]
    rfl
  | _ => cases first

section Orders

variable {op : BinaryOperator} {relation : Real.Exact → Real.Exact → Prop} (orders : Orders op relation)
include orders

theorem Orders.holds_none : op.holds none = false := by cases orders <;> rfl

theorem Orders.holds_compare (a b : Real.Exact) : op.holds (some (compare a b)) ↔ relation a b := by
  cases orders with
  | less => simp [BinaryOperator.holds, compare_lt_iff_lt]
  | lessEqual => simp [BinaryOperator.holds, compare_lt_iff_lt, le_iff_lt_or_eq]
  | greater => simp [BinaryOperator.holds, compare_gt_iff_gt]
  | greaterEqual =>
    change _ ↔ b ≤ a
    rw [le_iff_lt_or_eq, @eq_comm _ b a]
    simp [BinaryOperator.holds, compare_gt_iff_gt]
  | equal => simp [BinaryOperator.holds]

theorem Orders.holds_iff (left right : Value) :
    op.holds (Option.map₂ compare left.number? right.number?) ↔ Relates relation left right := by
  unfold Relates
  cases left.number? with
  | none => simp [orders.holds_none]
  | some a =>
    cases right.number? with
    | none => simp [orders.holds_none]
    | some b => simp [orders.holds_compare]

theorem Orders.mem_comparisons : op.text ∈ comparisons := by cases orders <;> decide

end Orders

theorem exists_of_comparisons {operator : String} (comparison : operator ∈ comparisons) :
    ∃ op : BinaryOperator, op.text = operator ∧ op.holds none = (op.text == "!=") := by
  simp only [comparisons, List.mem_cons, List.not_mem_nil, or_false] at comparison
  rcases comparison with rfl | rfl | rfl | rfl | rfl | rfl
  · exact ⟨.less, rfl, rfl⟩
  · exact ⟨.lessEqual, rfl, rfl⟩
  · exact ⟨.greater, rfl, rfl⟩
  · exact ⟨.greaterEqual, rfl, rfl⟩
  · exact ⟨.equal, rfl, rfl⟩
  · exact ⟨.notEqual, rfl, rfl⟩

section Numbers

variable {left right : Value} (first : left.isNumeric) (second : right.isNumeric)
include first second

/-- A comparison of two numbers is that of the numbers that they stand for. -/
theorem apply_comparison {op : BinaryOperator} (comparison : op.text ∈ comparisons) :
    apply op left right = .ok (.bool (op.holds (Option.map₂ compare left.number? right.number?))) := by
  obtain ⟨a, leftMagnitude, leftExact⟩ := magnitude?_isNumeric first
  obtain ⟨b, rightMagnitude, rightExact⟩ := magnitude?_isNumeric second
  rw [← leftExact, ← rightExact, ← Real.Magnitude.compare?_eq]
  cases op with
  | less | lessEqual | greater | greaterEqual => simp only [apply, leftMagnitude, rightMagnitude]
  | equal | notEqual => simp only [apply, sameKindOrder?_magnitude leftMagnitude rightMagnitude]
  | add | sub | mul | div => exact absurd comparison (by decide)

theorem tells_of_holds (op : BinaryOperator) {p : Prop} (comparison : op.text ∈ comparisons)
    (holds : op.holds (Option.map₂ compare left.number? right.number?) ↔ p) : Tells left op.text right p := by
  have result := apply_comparison first second comparison
  rw [← operate_text] at result
  rw [← holds]
  exact ⟨fun true => by rw [result, true], fun false => by rw [result, Bool.eq_false_of_not_eq_true false]⟩

/-- An order of numbers is told exactly. -/
theorem Orders.tells {op : BinaryOperator} {relation : Real.Exact → Real.Exact → Prop} (orders : Orders op relation) :
    Tells left op.text right (Relates relation left right) :=
  tells_of_holds first second op orders.mem_comparisons (orders.holds_iff left right)

theorem less_satisfies_iff : left.Satisfies "<" right ↔ Relates (· < ·) left right :=
  (Orders.less.tells first second).satisfies_iff

theorem lessEqual_satisfies_iff : left.Satisfies "<=" right ↔ Relates (· ≤ ·) left right :=
  (Orders.lessEqual.tells first second).satisfies_iff

theorem equal_satisfies_iff : left.Satisfies "==" right ↔ Relates (· = ·) left right :=
  (Orders.equal.tells first second).satisfies_iff

theorem greater_satisfies_iff : left.Satisfies ">" right ↔ Relates (· > ·) left right :=
  (Orders.greater.tells first second).satisfies_iff

theorem notEqual_tells : Tells left "!=" right ¬Relates (· = ·) left right :=
  tells_of_holds first second .notEqual (by decide) <| by
    rw [← Orders.equal.holds_iff]
    simp [BinaryOperator.holds]

end Numbers

/-- Two numbers are compared by the numbers that they stand for, consistently with each other and with
every further number. -/
structure ComparesExactly (left right : Value) : Prop where
  less : Tells left "<" right (Relates (· < ·) left right)
  lessEqual : Tells left "<=" right (Relates (· ≤ ·) left right)
  greater : Tells left ">" right (Relates (· > ·) left right)
  greaterEqual : Tells left ">=" right (Relates (· ≥ ·) left right)
  equal : Tells left "==" right (Relates (· = ·) left right)
  notEqual : Tells left "!=" right ¬Relates (· = ·) left right
  /-- Exactly one of less, equal and greater is true, unless there is a real that is no number. -/
  trichotomy : ¬left.IsNaN → ¬right.IsNaN →
    (left.Satisfies "<" right ∧ ¬left.Satisfies "==" right ∧ ¬left.Satisfies ">" right) ∨
    (¬left.Satisfies "<" right ∧ left.Satisfies "==" right ∧ ¬left.Satisfies ">" right) ∨
    (¬left.Satisfies "<" right ∧ ¬left.Satisfies "==" right ∧ left.Satisfies ">" right)
  lessEqual_iff : left.Satisfies "<=" right ↔ left.Satisfies "<" right ∨ left.Satisfies "==" right
  less_iff : left.Satisfies "<" right ↔ right.Satisfies ">" left
  notEqual_iff : left.Satisfies "!=" right ↔ ¬left.Satisfies "==" right
  less_trans {last : Value} : last.isNumeric → left.Satisfies "<" right → right.Satisfies "<" last →
    left.Satisfies "<" last
  equal_trans {last : Value} : last.isNumeric → left.Satisfies "==" right → right.Satisfies "==" last →
    left.Satisfies "==" last
  /-- With a real that is no number every comparison is false but one. -/
  undefined : left.IsNaN ∨ right.IsNaN → ∀ operator ∈ comparisons,
    left.operate right operator = .ok (.bool (operator == "!="))

theorem number?_of_not_isNaN {v : Value} (numeric : v.isNumeric) (number : ¬v.IsNaN) : ∃ a, v.number? = some a := by
  cases v with
  | int n => exact ⟨_, rfl⟩
  | real x =>
    refine Option.ne_none_iff_exists'.mp fun none => number ⟨x, rfl, ?_⟩
    exact Real.number?_eq_none.mp none
  | _ => cases numeric

theorem IsNaN.number?_eq {v : Value} (undefined : v.IsNaN) : v.number? = none := by
  obtain ⟨x, rfl, notANumber⟩ := undefined
  exact Real.number?_eq_none.mpr notANumber

theorem Relates.trans {relation : Real.Exact → Real.Exact → Prop} [IsTrans Real.Exact relation] {a b c : Value}
    (first : Relates relation a b) (second : Relates relation b c) : Relates relation a c := by
  obtain ⟨x, y, isX, isY, before⟩ := first
  obtain ⟨y', z, isY', isZ, after⟩ := second
  obtain rfl : y = y' := Option.some.inj (isY.symm.trans isY')
  exact ⟨x, z, isX, isZ, IsTrans.trans x y z before after⟩

/-- Numbers are compared by the numbers that they stand for. -/
theorem comparesExactly {left right : Value} (first : left.isNumeric) (second : right.isNumeric) :
    ComparesExactly left right where
  less := Orders.less.tells first second
  lessEqual := Orders.lessEqual.tells first second
  greater := Orders.greater.tells first second
  greaterEqual := Orders.greaterEqual.tells first second
  equal := Orders.equal.tells first second
  notEqual := notEqual_tells first second
  trichotomy leftNumber rightNumber := by
    obtain ⟨a, isA⟩ := number?_of_not_isNaN first leftNumber
    obtain ⟨b, isB⟩ := number?_of_not_isNaN second rightNumber
    have related (relation : Real.Exact → Real.Exact → Prop) : Relates relation left right ↔ relation a b := by
      simp [Relates, isA, isB]
    rw [less_satisfies_iff first second, equal_satisfies_iff first second, greater_satisfies_iff first second,
      related, related, related]
    rcases lt_trichotomy a b with less | equal | greater
    · exact Or.inl ⟨less, less.ne, less.not_gt⟩
    · exact Or.inr (Or.inl ⟨equal.not_lt, equal, equal.not_gt⟩)
    · exact Or.inr (Or.inr ⟨greater.not_gt, greater.ne', greater⟩)
  lessEqual_iff := by
    rw [lessEqual_satisfies_iff first second, less_satisfies_iff first second, equal_satisfies_iff first second]
    simp only [Relates, le_iff_lt_or_eq, and_or_left, exists_or]
  less_iff := by
    rw [less_satisfies_iff first second, greater_satisfies_iff second first]
    constructor
    · rintro ⟨a, b, isA, isB, less⟩
      exact ⟨b, a, isB, isA, less⟩
    · rintro ⟨b, a, isB, isA, less⟩
      exact ⟨a, b, isA, isB, less⟩
  notEqual_iff := by
    rw [(notEqual_tells first second).satisfies_iff, equal_satisfies_iff first second]
  less_trans third before after := by
    rw [less_satisfies_iff first second] at before
    rw [less_satisfies_iff second third] at after
    exact (less_satisfies_iff first third).mpr (before.trans after)
  equal_trans third before after := by
    rw [equal_satisfies_iff first second] at before
    rw [equal_satisfies_iff second third] at after
    exact (equal_satisfies_iff first third).mpr (before.trans after)
  undefined notNumber operator comparison := by
    have unordered : Option.map₂ compare left.number? right.number? = none := by
      rw [Option.map₂_eq_none_iff]
      exact notNumber.imp IsNaN.number?_eq IsNaN.number?_eq
    obtain ⟨op, rfl, result⟩ := exists_of_comparisons comparison
    rw [operate_text, apply_comparison first second comparison, unordered, result]

theorem comparesExactly_large :
    (int 9007199254740993).isNumeric ∧ (real 9007199254740992).isNumeric ∧
      ComparesExactly (int 9007199254740993) (real 9007199254740992) :=
  ⟨rfl, rfl, comparesExactly rfl rfl⟩

end Value

end PhyLang
