import PhyLang.Proofs.Ast.RoundTrip
import PhyLang.Proofs.Ast.Writable
import PhyLang.Proofs.CommandLine.Files
import PhyLang.Proofs.Grammar.Parse
import PhyLang.Proofs.Text.Utf8

namespace PhyLang

/-- A text without carriage returns is read from its bytes as it is. -/
theorem CommandLine.decodeText_encode {text : String} (plain : '\r' ∉ text.toList) :
    decodeText (Text.Utf8.encode text) = .ok text.toList := by
  rw [decodeText, Text.Utf8.decode_encode, Except.map, Text.unifyLineEnds_plain plain]

/-- The document of a program is read from its bytes. -/
theorem CommandLine.programOf_document {program : Program} (writable : Json.Writable program.toJson) :
    programOf (Text.Utf8.encode program.toJson.document) = .ok program := by
  have text : program.toJson.document.toList = program.toJson.write Json.indentation 0 := String.toList_ofList
  have plain : '\r' ∉ program.toJson.document.toList := by
    rw [text]
    exact Json.write_plain Json.indentation_plain program.toJson 0
  have json := Json.readDocument_write Json.indentation_blank writable
  unfold programOf
  rw [decodeText_encode plain, text]
  simp only [Except.mapError, bind, Except.bind, json]
  rw [Program.ofJson_toJson]

/-- The integers and locations of a parsed program can be written, unless its source has as many
characters as the least number that cannot be. -/
theorem Program.parse_writable {source : String} {program : Program} (parsed : Program.parse source = .ok program)
    (short : (Source.terminate source.toList).length + 1 < Integer.unwritable) :
    Json.Writable program.toJson := by
  obtain ⟨-, literals, derived⟩ := parse_ok parsed
  -- A position lies at most one further than the text is long, so its numbers have few enough digits.
  have within : ∀ {p : Source.Position}, p.Within (1 + (Source.terminate source.toList).length) →
      Integer.isWritable p.line ∧ Integer.isWritable p.column := by
    rintro p ⟨line, column⟩
    have small : ∀ n ≤ 1 + (Source.terminate source.toList).length, Integer.isWritable (n : Int) := by
      intro n le
      have below : n < Integer.unwritable := by omega
      exact decide_eq_true below
    exact ⟨small _ line, small _ column⟩
  have fits : Grammar.Fits Parts.writable (scanned source).tokens := by
    refine ⟨Token.scan_spelled, fun _ _ _ => trivial, ?_, ?_⟩
    · intro token member number
      exact Token.intValue_writable number (literals token member)
    · intro first firstMember last lastMember
      obtain ⟨line, column⟩ := within (Token.scan_within first firstMember).1
      obtain ⟨endLine, endColumn⟩ := within (Token.scan_within last lastMember).2
      exact ⟨line, column, endLine, endColumn, trivial⟩
  exact Program.toJson_writable (derived.isStatement fits)

namespace CommandLine

/-- What a file holds as source text is what parsing makes of its text. -/
theorem Files.readProgram_eq {files : Files} {path : Path} {bytes : List UInt8} {source : String}
    (read : files.read path = .ok bytes) (text : decodeText bytes = .ok source.toList) :
    files.readProgram path = match Program.parse source with
      | .error .tooManyDigits => .error (.escaped (.source .tooManyDigits))
      | .error e => .error (.invalidSource e)
      | .ok program => .ok program := by
  unfold readProgram load
  rw [read]
  simp only [bind, Except.bind, text, String.ofList_toList]
  rfl

/-- What a file holds as a document is what its bytes hold. -/
theorem Files.loadProgram_eq {files : Files} {path : Path} {bytes : List UInt8} (read : files.read path = .ok bytes) :
    files.loadProgram path = match programOf bytes with
      | .ok program => .ok program
      | .error (.document fault) =>
        if isOutOfRange fault then .error (.escaped (.document fault))
        else .error (.invalidDocument path (.document fault))
      | .error fault => .error (.invalidDocument path fault) := by
  unfold loadProgram load
  rw [read]
  rfl

theorem Files.readProgram_ok {files : Files} {path : Path} {bytes : List UInt8} {source : String} {program : Program}
    (read : files.read path = .ok bytes) (text : decodeText bytes = .ok source.toList)
    (parsed : Program.parse source = .ok program) : files.readProgram path = .ok program := by
  rw [readProgram_eq read text, parsed]

theorem Files.loadProgram_ok {files : Files} {path : Path} {bytes : List UInt8} {program : Program}
    (read : files.read path = .ok bytes) (loaded : programOf bytes = .ok program) :
    files.loadProgram path = .ok program := by
  rw [loadProgram_eq read, loaded]

section Tasks

variable {files : Files} {path : Path} {program : Program}

theorem Task.perform_emit (source : files.readProgram path = .ok program) (level : Nat) (clock : Clock) :
    (Task.emit path).perform level files clock = writeDocument path program files := by
  unfold perform
  simp only [source]
  rfl

theorem Task.perform_run (source : files.readProgram path = .ok program) (level : Nat) (clock : Clock) :
    (Task.run path).perform level files clock = execute level program files clock := by
  unfold perform
  simp only [source]
  rfl

theorem Task.perform_load (document : files.loadProgram path = .ok program) (level : Nat) (clock : Clock) :
    (Task.load path).perform level files clock = execute level program files clock := by
  unfold perform
  simp only [document]
  rfl

theorem writeDocument_written (succeeds : (writeDocument path program files).ending = .success) :
    files.write (path.extend documentEnding) program.toJson.document = .ok (writeDocument path program files).files := by
  unfold writeDocument at succeeds ⊢
  dsimp only at succeeds ⊢
  cases written : files.write (path.extend documentEnding) program.toJson.document with
  | error blockage =>
    rw [written] at succeeds
    cases succeeds
  | ok after => rfl

/-- Writing a document leaves the source as it was. -/
theorem writeDocument_read {bytes : List UInt8} (read : files.read path = .ok bytes)
    (succeeds : (writeDocument path program files).ending = .success) :
    (writeDocument path program files).files.read path = .ok bytes := by
  have written := writeDocument_written succeeds
  obtain ⟨there, place, -, -⟩ := Files.write_ok written
  have different : files.place path ≠ files.place (path.extend documentEnding) := by
    intro same
    exact Files.place_document_ne (same.trans place) place rfl
  rw [Files.read_write_other written different, read]

end Tasks

/-- A program that is written as a document beside its source is read from there as the same program,
unless the source is too long for its positions to be written as numbers at all. Running the document
shows what running the source shows, before and after the document was written: the same output, the same
ending with its message and exit code, and the same trace. -/
theorem emit_load {source : String} {program : Program} (parsed : Program.parse source = .ok program)
    (short : (Source.terminate source.toList).length + 1 < Integer.unwritable) :
    programOf (Text.Utf8.encode program.toJson.document) = .ok program ∧
      ∀ (files : Files) (path : Path) (bytes : List UInt8), files.read path = .ok bytes →
        decodeText bytes = .ok source.toList → ∀ (verbosity : Nat) (earlier : Clock) (emitted : Outcome),
          (Task.emit path).perform verbosity files earlier = emitted → emitted.ending = .success →
            ∀ (level : Nat) (clock : Clock),
              (Task.load (path.extend documentEnding)).perform level emitted.files clock =
                  (Task.run path).perform level emitted.files clock ∧
                ((Task.load (path.extend documentEnding)).perform level emitted.files clock).ShowsSame
                  ((Task.run path).perform level files clock) := by
  have loaded := programOf_document (Program.parse_writable parsed short)
  refine ⟨loaded, ?_⟩
  intro files path bytes read text verbosity earlier emitted emits succeeds level clock
  have source := Files.readProgram_ok read text parsed
  rw [Task.perform_emit source] at emits
  subst emits
  have written := writeDocument_written succeeds
  obtain ⟨there, place, -, set⟩ := Files.write_ok written
  -- The document holds the program, and the source beside it still does.
  have load := Task.perform_load (Files.loadProgram_ok (Files.read_write_self written) loaded) level clock
  have runAfter := Task.perform_run (Files.readProgram_ok (writeDocument_read read succeeds) text parsed) level clock
  have runBefore := Task.perform_run source level clock
  refine ⟨load.trans runAfter.symm, ?_⟩
  rw [load, runBefore, set]
  exact execute_set level program files clock (Files.document_ne_traceFile place) _

/-- The exit code zero is that of success alone. -/
theorem Ending.eq_success {ending : Ending} (zero : ending.exitCode? = some 0) : ending = .success := by
  cases ending with
  | success => rfl
  | _ => simp [exitCode?] at zero

/-- A file with one statement. -/
def oneFile : Files := { entries := [(⟨"", ["a.phy"]⟩, Text.Utf8.encode "print \"a\\n\" + 1")] }

/-- A file with one statement, which can be written as a document and run from there. -/
theorem emit_load_print :
    ∃ program path, Program.parse "print \"a\\n\" + 1" = .ok program ∧
      ((Task.emit path).perform 0 oneFile).ending = .success ∧
      programOf (Text.Utf8.encode program.toJson.document) = .ok program ∧ ∀ (level : Nat) (clock : Clock),
        ((Task.load (path.extend documentEnding)).perform level ((Task.emit path).perform 0 oneFile).files
            clock).ShowsSame ((Task.run path).perform level oneFile clock) := by
  have accepted : (Program.parse "print \"a\\n\" + 1").isOk = true := by decide +kernel
  have short : (Source.terminate "print \"a\\n\" + 1".toList).length + 1 < Integer.unwritable := by decide +kernel
  have zero : ((Task.emit ⟨"", ["a.phy"]⟩).perform 0 oneFile).ending.exitCode? = some 0 := by decide +kernel
  have succeeds := Ending.eq_success zero
  obtain ⟨program, parsed⟩ := Program.exists_of_isOk accepted
  obtain ⟨loaded, runs⟩ := emit_load parsed short
  refine ⟨program, ⟨"", ["a.phy"]⟩, parsed, succeeds, loaded, fun level clock => ?_⟩
  exact (runs _ _ _ rfl (by rfl) 0 _ _ rfl succeeds level clock).2

end CommandLine

end PhyLang
