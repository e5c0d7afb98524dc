import PhyLang.Value.Operation

namespace PhyLang

/-- A fault that has to do with the size of a number. -/
def Fault.IsNumeric : Fault → Prop
  | .unwritable | .largeReal | .largeCount => True
  | _ => False

namespace Value

/-- A value that holds no function and cannot be called. -/
def IsPlain : Value → Prop
  | .int _ | .real _ | .str _ | .bool _ | .null | .foreign _ => True
  | .fn _ | .native _ | .callable | .signal _ => False

theorem ofJson_isPlain (value : Json) : (ofJson value).IsPlain := by
  cases value <;> trivial

/-- Whether what an operation gives is plain, if it gives anything. -/
def IsPlainResult (result : Operated Value) : Prop := ∀ v, result = .ok v → v.IsPlain

/-- Whether an operation gives plain values only, and is refused for the size of a number only. -/
structure IsRegular (result : Operated Value) : Prop where
  plain : IsPlainResult result
  numeric : ∀ f, result = .error (.fault f) → f.IsNumeric

theorem isRegular_ok {v : Value} (plain : v.IsPlain) : IsRegular (.ok v) := by
  refine ⟨fun other same => ?_, fun f same => ?_⟩
  · cases same
    exact plain
  · cases same

theorem isRegular_error (e : OperationError) : IsRegular (.error (.error e)) := by
  refine ⟨fun v same => ?_, fun f same => ?_⟩ <;> cases same

theorem isRegular_fault {f : Fault} (numeric : f.IsNumeric) : IsRegular (.error (.fault f)) := by
  refine ⟨fun v same => ?_, fun other same => ?_⟩
  · cases same
  · cases same
    exact numeric

theorem failureShowing_isRegular (n : Int) (e : OperationError) : IsRegular (.error (failureShowing n e)) := by
  unfold failureShowing
  split
  · exact isRegular_error e
  · exact isRegular_fault trivial

theorem checked_isRegular (n : Int) : IsRegular (checked n) := by
  unfold checked
  split
  · exact isRegular_ok trivial
  · exact failureShowing_isRegular _ _

theorem toReal_refused {v : Value} {failure : OperationFailure} (refused : v.toReal = .error failure) :
    failure = .fault .largeReal := by
  revert refused
  fun_cases toReal v with
  | case2 => exact fun refused => (Except.error.inj refused).symm
  | _ => exact nofun

theorem onReals_isRegular (calculate : Float → Float → Float) (left right : Value) :
    IsRegular (onReals calculate left right) := by
  unfold onReals
  cases first : left.toReal with
  | error failure =>
    cases toReal_refused first
    exact isRegular_fault trivial
  | ok a =>
    cases second : right.toReal with
    | error failure =>
      cases toReal_refused second
      exact isRegular_fault trivial
    | ok b => exact isRegular_ok trivial

theorem divide_isRegular (left right : Value) : IsRegular (divide left right) := by
  unfold divide
  split
  · exact isRegular_error _
  · split
    · exact checked_isRegular _
    · exact onReals_isRegular _ left right

theorem repeated_isRegular (s : String) (count : Int) : IsRegular (repeated s count) := by
  unfold repeated
  split
  · exact failureShowing_isRegular _ _
  · split
    · exact isRegular_fault trivial
    · split
      · exact isRegular_ok trivial
      · exact isRegular_ok trivial

theorem calculate_isRegular (op : BinaryOperator) (left right : Value) : IsRegular (calculate op left right) := by
  unfold calculate
  split
  · exact checked_isRegular _
  · exact isRegular_ok trivial
  · exact repeated_isRegular _ _
  · exact repeated_isRegular _ _
  · split
    · exact onReals_isRegular _ left right
    · exact isRegular_error _

theorem apply_isRegular (op : BinaryOperator) (left right : Value) : IsRegular (apply op left right) := by
  cases op with
  | add | sub | mul => exact calculate_isRegular _ left right
  | div =>
    dsimp only [apply]
    split
    · exact divide_isRegular left right
    · exact isRegular_error _
  | less | lessEqual | greater | greaterEqual | equal | notEqual =>
    dsimp only [apply]
    split
    · exact isRegular_ok trivial
    · exact isRegular_error _

theorem operate_isRegular (left right : Value) (operator : String) : IsRegular (left.operate right operator) := by
  unfold operate
  split
  · exact apply_isRegular _ left right
  · exact isRegular_error _

theorem negate_isRegular (v : Value) (operator : String) : IsRegular (v.negate operator) := by
  unfold negate
  split
  · split
    · exact checked_isRegular _
    · exact isRegular_ok trivial
    · exact isRegular_error _
  · split
    · split
      · exact isRegular_ok trivial
      · exact isRegular_error _
    · exact isRegular_error _

end Value

end PhyLang
