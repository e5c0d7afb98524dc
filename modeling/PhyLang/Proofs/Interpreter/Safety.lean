import PhyLang.Proofs.Interpreter.Soundness

namespace PhyLang

/-- Integers of 64 bits, and names and locations of any kind. -/
def Parts.fitting : Parts := ⟨fun _ => True, Value.InRange, fun _ => True⟩

theorem Parts.fitting_isInterval : Parts.fitting.IsInterval where
  zero := by
    unfold fitting Value.InRange Value.minInt Value.maxInt
    omega
  between := by
    rintro first last n ⟨above, _⟩ ⟨_, below⟩ lower upper
    exact ⟨above.trans lower, upper.trans below⟩

/-- A value that the language documents. -/
def Value.IsDocumented : Value → Prop
  | .int n => InRange n
  | .real _ | .str _ | .bool _ | .null | .fn _ | .native _ => True
  | .callable | .signal _ | .foreign _ => False

theorem Value.IsSound.isDocumented {parts : Parts} {v : Value} (sound : v.IsSound parts) : v.IsDocumented := by
  cases v <;> first | exact sound | trivial

/-- A function whose sum is too large for some arguments, called by a loop in which it fails. -/
def Program.overflowing : Program :=
  [.fnDecl (.str "next") [.str "n"]
      [.returnStmt (.binary (.str "+") (.identifier (.str "n") none) (.intLiteral 1 none) none) none] none,
    .forStmt (.varDecl (.str "i") .absent none) (.int 0x7ffffffffffffffe) (.int 0x7fffffffffffffff)
      (.block [.printStmt (.call (.identifier (.str "next") none) [.identifier (.str "i") none] none) none] none) none]

theorem Run.overflowing_fails :
    (match interpret {} 20 Program.overflowing (Machine.initial []) with
      | .error (.error e) _ => e.kind == "CallError" && e.innermost.kind == "OperationError"
      | _ => false) = true := by
  decide +kernel

end PhyLang
