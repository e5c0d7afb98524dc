import PhyLang.Proofs.Grammar.Literals
import PhyLang.Proofs.Interpreter.Agreement

namespace PhyLang

open Token (literalOf)

namespace Run

variable {setting : Setting} {fuel : Nat} {expr : Node} {m m' : Machine} {v : Value} {stop : Stop}

theorem interpretSource_ok {source : String} {program : Program} {clock : Clock}
    {result : EStateM.Result Stop Machine Value} (parsed : Program.parse source = .ok program)
    (ran : interpret setting fuel program (Machine.initial [] clock) = result) :
    interpretSource setting fuel source clock = .ok result := by
  rw [interpretSource, parsed, ← ran]
  rfl

theorem interpret_expr (loc : Option Loc) (evaluated : evaluate setting fuel 0 globalFrame expr m = .ok v m')
    (plain : v.IsPlain) : interpret setting (fuel + 1) [.exprStmt expr loc] m = .ok v m' := by
  have completed : execute setting (fuel + 1) 0 globalFrame (.exprStmt expr loc) m = .ok (.value v) m' := by
    have ended : Completion.ofValue v = .value v := by
      cases v with
      | signal => exact plain.elim
      | _ => rfl
    rw [← ended]
    exact bind_ok evaluated
  exact bind_ok completed

theorem interpret_expr_error (loc : Option Loc)
    (stopped : evaluate setting fuel 0 globalFrame expr m = .error stop m') :
    interpret setting (fuel + 1) [.exprStmt expr loc] m = .error stop m' :=
  bind_error (bind_error stopped)

section Programs

variable {inner loc stmtLoc : Option Loc} {n : Int}

theorem interpret_print {s : String} :
    interpret setting (fuel + 2) [.printStmt (.strLiteral (.str s) inner) loc] m =
      .ok .null { m with output := .printed s :: m.output } := rfl

theorem interpret_int : interpret setting (fuel + 2) [.exprStmt (.intLiteral n inner) stmtLoc] m = .ok (.int n) m :=
  rfl

/-- Only the number behind a minus sign and the sign together have to fit. -/
theorem evaluate_negation :
    evaluate setting (fuel + 2) 0 globalFrame (.unary (.str "-") (.intLiteral (-n) inner) loc) m =
      operated (Value.checked n) .negation loc m := by
  have checked : evaluate setting (fuel + 2) 0 globalFrame (.unary (.str "-") (.intLiteral (-n) inner) loc) m =
      operated (Value.checked (- -n)) .negation loc m := rfl
  rw [checked, Int.neg_neg]

theorem interpret_negation (fits : Value.InRange n) :
    interpret setting (fuel + 3) [.exprStmt (.unary (.str "-") (.intLiteral (-n) inner) loc) stmtLoc] m =
      .ok (.int n) m := by
  have checked : Value.checked n = .ok (.int n) := if_pos fits
  refine interpret_expr stmtLoc ?_ trivial
  rw [evaluate_negation, checked]
  rfl

theorem interpret_negation_error (beyond : ¬Value.InRange n) (writable : Integer.isWritable n) :
    interpret setting (fuel + 3) [.exprStmt (.unary (.str "-") (.intLiteral (-n) inner) loc) stmtLoc] m =
      .error (.error (.raised (.negation (.overflow n)) loc)) m := by
  refine interpret_expr_error stmtLoc ?_
  rw [evaluate_negation, Value.checked_overflow beyond writable]
  rfl

end Programs

end Run

/-- Every text can be written: its literal is a program of one statement, that has the text as its value, and printing
the literal writes the text and a line end. -/
theorem Program.literalOf_writes (s : String) :
    parse (literalOf s) =
        .ok [.exprStmt (.strLiteral (.str s) (some (.ofSource (literalOf s)))) (some (.ofSource (literalOf s)))] ∧
      ∀ setting fuel clock, ∃ m,
        Run.interpretSource setting (fuel + 2) ("print " ++ literalOf s) clock = .ok (.ok .null m) ∧
        m.outputs = [.printed s] ∧ ∀ showsTrace, Output.console showsTrace m.outputs = s ++ "\n" := by
  refine ⟨parse_literalOf s, fun setting fuel clock => ?_⟩
  obtain ⟨inner, loc, parsed⟩ := parse_print_literalOf s
  refine ⟨_, Run.interpretSource_ok parsed Run.interpret_print, rfl, fun showsTrace => ?_⟩
  have line : Output.console showsTrace [.printed s] = "" ++ (s ++ "\n") := by cases showsTrace <;> rfl
  exact line.trans String.empty_append

/-- What becomes of an integer that is written out and run as a program. -/
structure Value.EvaluatesBack (n : Int) : Prop where
  /-- An integer of 64 bits is the value, and nothing else changes. -/
  value : InRange n → ∀ setting fuel clock,
    Run.interpretSource setting (fuel + 3) (int n).text clock = .ok (.ok (.int n) (Machine.initial [] clock))
  /-- A minus sign is no part of a number: it negates one, which may itself be out of range. -/
  negation : n < 0 → (Nat.toDigits 10 n.natAbs).length ≤ Integer.digitLimit →
    let loc := some (Loc.ofSource (int n).text)
    ∃ inner, Program.parse (int n).text = .ok [.exprStmt (.unary (.str "-") (.intLiteral (-n) inner) loc) loc]
  /-- Below the least integer the negation fails, where it stands. -/
  overflow : n < minInt → (Nat.toDigits 10 n.natAbs).length ≤ Integer.digitLimit → ∀ setting fuel clock,
    let loc := some (Loc.ofSource (int n).text)
    let e := RuntimeError.raised (.negation (.overflow n)) loc
    Run.interpretSource setting (fuel + 3) (int n).text clock = .ok (.error (.error e) (Machine.initial [] clock)) ∧
      e.kind = "NegationError" ∧ e.loc? = loc

/-- Printed integers evaluate back to themselves. -/
theorem Value.evaluatesBack (n : Int) : EvaluatesBack n := by
  refine ⟨fun range setting fuel clock => ?_, fun negative short => Program.parse_negative short negative,
    fun below short setting fuel clock => ?_⟩
  · have short : (Nat.toDigits 10 n.natAbs).length ≤ Integer.digitLimit :=
      Integer.length_toDigits_le (Integer.lt_unwritable range.natAbs_lt (by decide))
    by_cases negative : n < 0
    · obtain ⟨inner, parsed⟩ := Program.parse_negative short negative
      exact Run.interpretSource_ok parsed (Run.interpret_negation range)
    · obtain ⟨inner, loc, parsed⟩ := Program.parse_nonneg short (not_lt.mp negative)
      exact Run.interpretSource_ok parsed Run.interpret_int
  · have negative : n < 0 := below.trans (by decide)
    have beyond : ¬InRange n := fun range => absurd range.1 (not_le.mpr below)
    have writable : Integer.isWritable n := by
      have size := Integer.digitsValue_writable short
      rw [Integer.digitsValue_toDigits] at size
      exact decide_eq_true size
    obtain ⟨inner, parsed⟩ := Program.parse_negative short negative
    exact ⟨Run.interpretSource_ok parsed (Run.interpret_negation_error beyond writable), rfl, rfl⟩

/-- The least integer, whose size is no integer of 64 bits, and the one below it. -/
theorem Value.evaluatesBack_least :
    Run.interpretSource {} 3 "-9223372036854775808" = .ok (.ok (.int minInt) (Machine.initial [])) ∧
      (∃ inner, Program.parse "-9223372036854775808" =
        .ok [.exprStmt (.unary (.str "-") (.intLiteral 9223372036854775808 inner)
          (some ⟨.int 1, .int 1, .int 1, .int 21⟩)) (some ⟨.int 1, .int 1, .int 1, .int 21⟩)]) ∧
      ¬InRange 9223372036854775808 ∧
      ∃ e : RuntimeError, Run.interpretSource {} 3 "-9223372036854775809" =
          .ok (.error (.error e) (Machine.initial [])) ∧
        e.kind = "NegationError" ∧ e.loc? = some ⟨.int 1, .int 1, .int 1, .int 21⟩ := by
  have least : (int minInt).text = "-9223372036854775808" := by decide +kernel
  have below : (int (minInt - 1)).text = "-9223372036854775809" := by decide +kernel
  have value := (evaluatesBack minInt).value (by decide) {} 0 (.steady 1)
  have negation := (evaluatesBack minInt).negation (by decide) (by decide +kernel)
  have overflow := (evaluatesBack (minInt - 1)).overflow (by decide) (by decide +kernel) {} 0 (.steady 1)
  rw [least] at value negation
  rw [below] at overflow
  exact ⟨value, negation, by decide, _, overflow⟩

end PhyLang
