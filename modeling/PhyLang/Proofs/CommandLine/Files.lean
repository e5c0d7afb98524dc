import Mathlib.Tactic
import PhyLang.CommandLine.Command

namespace PhyLang.CommandLine

namespace Files

@[simp] theorem isDirectory_set (files : Files) (here there : Path) (bytes : List UInt8) :
    (files.set here bytes).isDirectory there = files.isDirectory there := rfl

@[simp] theorem walk_set (files : Files) (here start : Path) (bytes : List UInt8) (steps : List String) :
    (files.set here bytes).walk start steps = files.walk start steps := by
  induction steps generalizing start with
  | nil => rfl
  | cons step steps ih => simp only [walk, isDirectory_set, ih]

@[simp] theorem place_set (files : Files) (here path : Path) (bytes : List UInt8) :
    (files.set here bytes).place path = files.place path := by
  simp only [place, walk_set]

theorem bytesAt_set_self {files : Files} {here : Path} (file : files.isDirectory here = false)
    (bytes : List UInt8) : (files.set here bytes).bytesAt here = .ok bytes := by
  have found : (files.set here bytes).entries.find? (·.1 == here) = some (here, bytes) := by
    have others : (files.entries.filter fun entry => !(entry.1 == here)).find? (·.1 == here) = none := by
      rw [List.find?_eq_none]
      intro entry member
      simpa using (List.mem_filter.mp member).2
    rw [set, List.find?_append, others]
    simp
  simp only [bytesAt, isDirectory_set, file, found, Bool.false_eq_true, if_false]

theorem bytesAt_set_other {files : Files} {here there : Path} (different : there ≠ here) (bytes : List UInt8) :
    (files.set here bytes).bytesAt there = files.bytesAt there := by
  have found : (files.set here bytes).entries.find? (·.1 == there) = files.entries.find? (·.1 == there) := by
    have last : ((here, bytes).1 == there) = false := by simpa using Ne.symm different
    rw [set, List.find?_append, List.find?_cons_of_neg (by simp [last]), List.find?_nil, Option.or_none,
      List.find?_filter]
    congr 1
    funext entry
    by_cases same : entry.1 = there
    · simp [same, different]
    · simp [same]
  simp only [bytesAt, isDirectory_set, found]

/-- What writing to the end of a path does. -/
theorem write_ok {files written : Files} {path : Path} {text : String} (done : files.write path text = .ok written) :
    ∃ here, files.place path = .ok here ∧ files.isDirectory here = false ∧
      written = files.set here (Text.Utf8.encode text) := by
  unfold write at done
  cases place : files.place path with
  | error blockage =>
    rw [place] at done
    cases done
  | ok here =>
    rw [place] at done
    by_cases directory : files.isDirectory here
    · simp [bind, Except.bind, directory] at done
    · simp only [bind, Except.bind, directory, Bool.false_eq_true, if_false, pure, Except.pure, Except.ok.injEq] at done
      exact ⟨here, rfl, by simpa using directory, done.symm⟩

/-- A text that was written is read back. -/
theorem read_write_self {files written : Files} {path : Path} {text : String}
    (done : files.write path text = .ok written) : written.read path = .ok (Text.Utf8.encode text) := by
  obtain ⟨here, place, file, rfl⟩ := write_ok done
  rw [read, place_set, place]
  exact bytesAt_set_self file _

/-- A file at another place is read as before. -/
theorem read_write_other {files written : Files} {path other : Path} {text : String}
    (done : files.write path text = .ok written) (different : files.place other ≠ files.place path) :
    written.read other = files.read other := by
  obtain ⟨here, place, -, rfl⟩ := write_ok done
  rw [read, read, place_set]
  cases reached : files.place other with
  | error blockage => rfl
  | ok there =>
    rw [reached, place] at different
    exact bytesAt_set_other (fun same => different (congrArg _ same)) _

theorem walk_append {files : Files} {start here : Path} {steps : List String} {last : String}
    (reached : files.walk start (steps ++ [last]) = .ok here) :
    ∃ middle, files.walk start steps = .ok middle ∧ here = middle.advance last := by
  induction steps generalizing start with
  | nil =>
    simp only [List.nil_append, walk] at reached
    split at reached
    · cases reached
    · split at reached
      · cases reached
      · cases reached
        exact ⟨start, rfl, rfl⟩
  | cons step steps ih =>
    simp only [List.cons_append, walk] at reached ⊢
    split at reached
    · cases reached
    · rename_i directory
      split at reached
      · cases reached
      · rename_i short
        obtain ⟨middle, before, last⟩ := ih reached
        exact ⟨middle, by rw [if_neg directory, if_neg short, before], last⟩

theorem place_ok {files : Files} {path here : Path} (reached : files.place path = .ok here) :
    files.walk ⟨path.root, []⟩ path.steps = .ok here := by
  unfold place at reached
  split at reached
  · cases reached
  · exact reached

/-- The place of a path with something added to its last step. -/
theorem place_extend {files : Files} {path there : Path} {ending : String}
    (reached : files.place (path.extend ending) = .ok there) :
    ∃ middle, files.walk ⟨path.root, []⟩ path.steps.dropLast = .ok middle ∧
      there = middle.advance (path.steps.getLastD "" ++ ending) := walk_append (place_ok reached)

end Files

theorem documentEnding_ne_above (step : String) : step ++ documentEnding ≠ Path.above := by
  intro same
  have lengths := congrArg (fun s => s.toList.length) same
  simp [documentEnding, Path.above] at lengths

theorem ne_documentEnding (step : String) : step ≠ step ++ documentEnding := by
  intro same
  have lengths := congrArg (fun s => s.toList.length) same
  simp [documentEnding] at lengths

theorem advance_documentEnding (here : Path) (step : String) :
    here.advance (step ++ documentEnding) = ⟨here.root, here.steps ++ [step ++ documentEnding]⟩ := by
  rw [Path.advance, if_pos (documentEnding_ne_above step)]

/-- The document of a program stands at another place than its source. -/
theorem Files.place_document_ne {files : Files} {path here there : Path} (source : files.place path = .ok here)
    (document : files.place (path.extend documentEnding) = .ok there) : here ≠ there := by
  obtain ⟨middle, before, rfl⟩ := place_extend document
  have walked := place_ok source
  rw [advance_documentEnding]
  rcases List.eq_nil_or_concat path.steps with none | ⟨steps, last, shape⟩
  · rw [none] at walked
    cases walked
    simp
  · rw [shape, List.concat_eq_append] at walked before
    obtain ⟨other, same, rfl⟩ := walk_append walked
    rw [List.dropLast_concat] at before
    rw [before] at same
    cases same
    rw [shape, List.concat_eq_append, List.getLastD_concat]
    -- A last step to the directory above takes a step away, adds itself or stays where it is.
    unfold Path.advance
    split
    · simpa using ne_documentEnding last
    · rename_i above
      rw [not_ne_iff] at above
      split
      · intro same
        have lengths := congrArg (fun p => p.steps.length) same
        simp at lengths
      · split
        · simpa using ne_documentEnding last
        · intro same
          have lengths := congrArg (fun p => p.steps.length) same
          simp at lengths

theorem Files.place_traceFile (files : Files) : files.place traceFile = .ok traceFile := by
  rfl

/-- The document of a program is not written to the file for traces. -/
theorem Files.document_ne_traceFile {files : Files} {path there : Path}
    (document : files.place (path.extend documentEnding) = .ok there) : there ≠ traceFile := by
  obtain ⟨middle, -, rfl⟩ := place_extend document
  rw [advance_documentEnding]
  intro same
  -- The two names differ in their last characters.
  have steps := congrArg (fun p => (p.steps.getLastD "").toList.getLastD ' ') same
  simp [traceFile, documentEnding] at steps

theorem Files.write_traceFile (files : Files) (text : String) :
    files.write traceFile text =
      if files.isDirectory traceFile then .error .directory else .ok (files.set traceFile (Text.Utf8.encode text)) := by
  rw [write, place_traceFile]
  simp only [bind, Except.bind]
  split <;> rfl

theorem Files.read_traceFile (files : Files) : files.read traceFile = files.bytesAt traceFile := by
  rw [read, place_traceFile]
  rfl

/-- Whether two runs of the command show the same: on the console, in how they end, and in the file for
traces. -/
structure Outcome.ShowsSame (a b : Outcome) : Prop where
  console : a.console = b.console
  ending : a.ending = b.ending
  trace : a.files.read traceFile = b.files.read traceFile

/-- A run of a program does not depend on a file that is not the one for traces. -/
theorem execute_set (level : Nat) (program : Program) (files : Files) (clock : Clock) {here : Path}
    (other : here ≠ traceFile) (bytes : List UInt8) :
    (execute level program (files.set here bytes) clock).ShowsSame (execute level program files clock) := by
  unfold execute
  by_cases quiet : level = 0
  · simp only [quiet, if_true]
    refine ⟨rfl, rfl, ?_⟩
    rw [Files.read_traceFile, Files.read_traceFile, Files.bytesAt_set_other (Ne.symm other)]
  · by_cases directory : files.isDirectory traceFile
    · simp only [quiet, if_false, Files.write_traceFile, Files.isDirectory_set, directory, if_true]
      refine ⟨rfl, rfl, ?_⟩
      rw [Files.read_traceFile, Files.read_traceFile, Files.bytesAt_set_other (Ne.symm other)]
    · rw [Bool.not_eq_true] at directory
      simp only [quiet, if_false, Files.write_traceFile, Files.isDirectory_set, directory, Bool.false_eq_true]
      refine ⟨rfl, rfl, ?_⟩
      simp only [Except.toOption, Option.getD_some]
      rw [Files.read_traceFile, Files.read_traceFile, Files.bytesAt_set_self (by simp [directory]),
        Files.bytesAt_set_self (by simp [directory])]

end PhyLang.CommandLine
