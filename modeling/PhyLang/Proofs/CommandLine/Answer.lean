import PhyLang.Proofs.CommandLine.EmitLoad
import PhyLang.Proofs.Grammar.Rejected
import PhyLang.Proofs.Interpreter.Runnable

namespace PhyLang.CommandLine

/-- Whether the command fails with a message, and with the exit code of a failure. -/
structure Outcome.Reports (outcome : Outcome) (text : String) : Prop where
  exitCode : outcome.ending.exitCode? = some 1
  message : outcome.ending.message = text

/-- Whether the command ends as a program does: normally or with a report of an error at run time, unless the
run does not end or is refused for one of the faults. -/
inductive Outcome.IsOfRun (faults : Fault → Prop) (outcome : Outcome) : Prop
  | normal (ends : outcome.ending = .success)
  | failed (e : RuntimeError) (reports : outcome.Reports ("Runtime error: " ++ e.text ++ "\n"))
  | unending (ends : outcome.ending = .escaped (.run .exhausted))
  | refused (f : Fault) (possible : faults f) (ends : outcome.ending = .escaped (.run (.fault f)))

/-- Whether arguments ask for a task, with a level of detail for traces. -/
def Asks (arguments : List String) (task : Task) (level : Nat) : Prop :=
  ∃ request, Request.ofTexts arguments = .ok request ∧ request.task? = some task ∧ request.verbosity = level

theorem Asks.command {arguments : List String} {task : Task} {level : Nat} (asks : Asks arguments task level)
    (files : Files) (clock : Clock) : command arguments files clock = task.perform level files clock := by
  obtain ⟨request, read, asked, rfl⟩ := asks
  unfold CommandLine.command
  simp only [read, asked]

/-- A plain argument alone asks to run the source there. -/
theorem asks_run {name : String} (plain : Argument.ofTexts [name] = .ok [.plain name]) (named : name ≠ "") :
    Asks [name] (.run (.ofString name)) 0 := by
  have read : Request.ofTexts [name] = .ok { program := some name, place := .justTaken } := by
    rw [Request.ofTexts, plain]
    rfl
  refine ⟨_, read, ?_, rfl⟩
  unfold Request.task?
  rw [Option.filter_none, Option.filter_some, if_pos (by simpa using named)]
  rfl

/-- The switch for documents with a plain argument behind it asks to run the document there. -/
theorem asks_load {name : String} (plain : Argument.ofTexts [name] = .ok [.plain name]) (named : name ≠ "") :
    Asks ["--ast", name] (.load (.ofString name)) 0 := by
  have switch : Argument.ofChars "--ast".toList = .ok (.long (.file .load) none) := by decide
  have arguments : Argument.ofTexts ["--ast", name] = .ok [.long (.file .load) none, .plain name] := by
    rw [Argument.ofTexts, if_neg (by decide), switch, plain]
    rfl
  have read : Request.ofTexts ["--ast", name] = .ok { file := some (.load, name) } := by
    rw [Request.ofTexts, arguments]
    rfl
  refine ⟨_, read, ?_, rfl⟩
  unfold Request.task?
  rw [Option.filter_some, if_pos (by simpa using named)]

section Source

variable {files : Files} {path : Path} {bytes : List UInt8} {source : String}

theorem Files.readProgram_rejected {e : SyntaxError} (read : files.read path = .ok bytes)
    (text : decodeText bytes = .ok source.toList) (rejected : Program.parse source = .error e)
    (placed : Grammar.IsPlaced e) : files.readProgram path = .error (.invalidSource e) := by
  rw [readProgram_eq read text, rejected]
  cases e with
  | tooManyDigits => exact absurd placed Grammar.not_isPlaced_tooManyDigits
  | _ => rfl

/-- A task on source text that cannot be read ends as reading it does. -/
theorem Task.perform_unread {task : Task} {ending : Ending} (reads : task = .run path ∨ task = .emit path)
    (failed : files.readProgram path = .error ending) (level : Nat) (clock : Clock) :
    task.perform level files clock = ⟨"", ending, files⟩ := by
  rcases reads with rfl | rfl
  · unfold perform
    simp only [failed]
    rfl
  · unfold perform
    simp only [failed]
    rfl

end Source

/-- Exactly a source without a number of too many digits is a program or has an error that tells its place,
and the command reports such an error whenever it is to run the source or to write its document. -/
theorem parse_reported_iff (source : String) :
    ¬Program.HasLongNumber source ↔ (∃ program, Program.parse source = .ok program) ∨
      ∃ e, Program.parse source = .error e ∧ Grammar.IsPlaced e ∧
        ∀ (arguments : List String) (path : Path) (task : Task) (level : Nat) (files : Files) (clock : Clock)
            (bytes : List UInt8),
          Asks arguments task level → task = .run path ∨ task = .emit path → files.read path = .ok bytes →
            decodeText bytes = .ok source.toList →
              (command arguments files clock).Reports ("Syntax error: " ++ e.message ++ "\n") := by
  constructor
  · intro short
    cases parsed : Program.parse source with
    | ok program => exact .inl ⟨program, rfl⟩
    | error e =>
      have placed := (Program.parse_error parsed).resolve_right fun long => short long.2
      refine .inr ⟨e, rfl, placed, fun arguments path task level files clock bytes asks reads read text => ?_⟩
      rw [asks.command files clock, Task.perform_unread reads (Files.readProgram_rejected read text parsed placed)]
      exact ⟨rfl, rfl⟩
  · rintro (⟨program, parsed⟩ | ⟨e, rejected, placed, -⟩) long
    · rw [Program.parse_tooManyDigits.mpr long] at parsed
      cases parsed
    · rw [Program.parse_tooManyDigits.mpr long] at rejected
      cases rejected
      exact Grammar.not_isPlaced_tooManyDigits placed

/-- A source with a closing bracket where an expression must stand is reported with the place of the bracket. -/
theorem parse_reported_token : (command ["a.phy"] { entries := [(⟨"", ["a.phy"]⟩, Text.Utf8.encode "print )")] }).Reports
    "Syntax error: unexpected token ')' at 1:7\n" := by
  have misplaced : (match Program.parse "print )" with
      | .error e => e == .unexpectedToken [')'] ⟨1, 7⟩
      | .ok _ => false) = true := by decide +kernel
  split at misplaced
  next e rejected =>
    cases eq_of_beq misplaced
    have short : ¬Program.HasLongNumber "print )" := by
      intro long
      rw [Program.parse_tooManyDigits.mpr long] at rejected
      cases rejected
    rcases (parse_reported_iff "print )").mp short with ⟨program, parsed⟩ | ⟨e, same, -, reported⟩
    · rw [rejected] at parsed
      cases parsed
    · rw [rejected] at same
      cases same
      have asks : Asks ["a.phy"] (.run (.ofString "a.phy")) 0 := asks_run (by decide +kernel) (by decide)
      exact reported _ _ _ _ _ _ _ asks (.inl rfl) (by rfl) (by rfl)
  next => cases misplaced

/-- One digit more than can be converted, and a source is neither a program nor reported. -/
theorem parse_unreported :
    let source := String.ofList (List.replicate 4301 '1')
    let files : Files := { entries := [(⟨"", ["a.phy"]⟩, Text.Utf8.encode source)] }
    let outcome := command ["a.phy"] files
    Program.parse source = .error .tooManyDigits ∧ ¬Grammar.IsPlaced .tooManyDigits ∧
      outcome.ending = .escaped (.source .tooManyDigits) ∧ outcome.ending.exitCode? = none ∧
      outcome.ending.message = "" := by
  intro source files outcome
  have digits : ∀ c ∈ List.replicate 4301 '1', c = '1' := fun c member => List.eq_of_mem_replicate member
  have long : Program.HasLongNumber source := by
    refine Program.hasLongNumber_digits ⟨by rw [Ne, List.replicate_eq_nil_iff]; decide, fun c member => ?_⟩ ?_
    · rw [digits c member]
      decide
    · rw [List.length_replicate]
      decide
  have rejected := Program.parse_tooManyDigits.mpr long
  have plain : '\r' ∉ source.toList := by
    rw [String.toList_ofList]
    exact fun member => absurd (digits _ member) (by decide)
  have unread : files.readProgram (.ofString "a.phy") = .error (.escaped (.source .tooManyDigits)) :=
    (Files.readProgram_eq (by rfl) (decodeText_encode plain)).trans (by rw [rejected])
  have asks : Asks ["a.phy"] (.run (.ofString "a.phy")) 0 := asks_run (by decide +kernel) (by decide)
  have ends : outcome = ⟨"", .escaped (.source .tooManyDigits), files⟩ :=
    (asks.command files _).trans (Task.perform_unread (.inl rfl) unread 0 _)
  rw [ends]
  exact ⟨rejected, Grammar.not_isPlaced_tooManyDigits, rfl, rfl, rfl⟩

/-- Whether a fault is about a number that is beyond the range of another kind of number. -/
def LoadFault.IsOutOfRange (fault : LoadFault) : Prop := ∃ inner, fault = .document inner ∧ isOutOfRange inner

section Document

variable {files : Files} {path : Path} {bytes : List UInt8}

theorem Files.loadProgram_rejected {fault : LoadFault} (read : files.read path = .ok bytes)
    (invalid : programOf bytes = .error fault) (inRange : ¬fault.IsOutOfRange) :
    files.loadProgram path = .error (.invalidDocument path fault) := by
  rw [loadProgram_eq read, invalid]
  cases fault with
  | document inner => exact if_neg fun out => inRange ⟨inner, rfl, out⟩
  | _ => rfl

theorem Task.perform_unloaded {ending : Ending} (failed : files.loadProgram path = .error ending) (level : Nat)
    (clock : Clock) : (Task.load path).perform level files clock = ⟨"", ending, files⟩ := by
  unfold perform
  simp only [failed]
  rfl

end Document

/-- A program that can be run ends as programs do. -/
theorem execute_isOfRun {limits : Limits} (kept : limits.AreKept) {program : Program}
    (runnable : program.IsRunnable limits) (files : Files) (clock : Clock) :
    (execute 0 program files clock).IsOfRun limits.fault := by
  unfold execute
  simp only [if_pos]
  cases ran : Run.interpret { level := 0 } Run.plenty program (Machine.initial [] clock) with
  | ok v m => exact .normal rfl
  | error stop m =>
    cases stop with
    | error e => exact .failed e ⟨rfl, rfl⟩
    | exhausted => exact .unending rfl
    | fault f => exact .refused f (Run.interpret_bound kept _ _ runnable ran) rfl

/-- Every program that parsing gives can be run, and therefore what the documents hold that the command writes. -/
theorem parse_isRunnable {source : String} {program : Program} (parsed : Program.parse source = .ok program) :
    program.IsRunnable .unlimited :=
  Program.isRunnable_of_shape (fun _ _ => trivial) (Program.parse_isStatement parsed)

/-- Whether a document can be read and is no program. -/
def isNoProgram (bytes : List UInt8) : Bool :=
  match programOf bytes with
  | .error (.document .notProgram) => true
  | _ => false

theorem programOf_eq_of_isNoProgram {bytes : List UInt8} (noProgram : isNoProgram bytes) :
    programOf bytes = .error (.document .notProgram) := by
  unfold isNoProgram at noProgram
  split at noProgram
  next same => exact same
  next => cases noProgram

/-- Whether a run is refused for a fault. -/
def Ending.isRefusal (fault : Fault) : Ending → Bool
  | .escaped (.run (.fault f)) => decide (f = fault)
  | _ => false

theorem Ending.eq_of_isRefusal {fault : Fault} {ending : Ending} (refused : ending.isRefusal fault) :
    ending = .escaped (.run (.fault fault)) := by
  unfold isRefusal at refused
  split at refused
  next => rw [of_decide_eq_true refused]
  next => cases refused

/-- A condition with a statement that is no block as its branch, and without an alternative. -/
def bareBranch : Program :=
  [.ifStmt (.identifier (.str "true") none) (.printStmt (.strLiteral (.str "taken") none) none) .absent none]

/-- A file with a document, and one that holds JSON but no program. -/
def documentFiles : Files :=
  { entries := [(⟨"", ["a.json"]⟩, Text.Utf8.encode bareBranch.toJson.document),
    (⟨"", ["b.json"]⟩, Text.Utf8.encode "[1, 2]")] }

end PhyLang.CommandLine
