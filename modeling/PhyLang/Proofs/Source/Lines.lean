import PhyLang.Proofs.Source.Steps

namespace PhyLang.Source

/-- The part of a line before its first comment, where the line begins in a region of its own. -/
def withoutComment (r : Region) : List Char → List Char
  | [] => []
  | c :: rest => if r = .code ∧ c = '/' ∧ rest.head? = some '/' then [] else c :: withoutComment (r.next c none) rest

/-- Whether a comment begins behind a text, with what follows it. -/
def BeginsComment (r : Region) (before rest : List Char) : Prop := r.past before = .code ∧ ['/', '/'] <+: rest

theorem beginsComment_cons {r : Region} {c : Char} {rest : List Char} :
    BeginsComment r [] (c :: rest) ↔ r = .code ∧ c = '/' ∧ rest.head? = some '/' := by
  refine and_congr_right fun _ => ?_
  cases rest with
  | nil => simp
  | cons d rest => simp [eq_comm]

/-- A line is split at the first two slashes outside of a string, or is kept as a whole. -/
def CutsComment (r : Region) (kept comment : List Char) : Prop :=
  (comment = [] ∨ BeginsComment r kept comment) ∧
    ∀ before rest, kept = before ++ rest → rest ≠ [] → ¬BeginsComment r before (rest ++ comment)

theorem CutsComment.cons {r : Region} {c : Char} {kept comment : List Char}
    (goesOn : ¬BeginsComment r [] (c :: (kept ++ comment))) (cuts : CutsComment (r.next c none) kept comment) :
    CutsComment r (c :: kept) comment := by
  refine ⟨cuts.1, fun before rest split nonempty => ?_⟩
  cases before with
  | nil =>
    rw [List.nil_append] at split
    rw [← split]
    exact goesOn
  | cons d before =>
    obtain ⟨rfl, later⟩ := List.cons.inj split
    exact cuts.2 before rest later nonempty

theorem cutsComment_nil {r : Region} {comment : List Char} (ends : comment = [] ∨ BeginsComment r [] comment) :
    CutsComment r [] comment := by
  refine ⟨ends, fun before rest split nonempty => absurd ?_ nonempty⟩
  exact (List.append_eq_nil_iff.mp split.symm).2

theorem exists_comment (r : Region) (line : List Char) :
    ∃ comment, line = withoutComment r line ++ comment ∧ CutsComment r (withoutComment r line) comment := by
  induction line generalizing r with
  | nil => exact ⟨[], rfl, cutsComment_nil (.inl rfl)⟩
  | cons c line ih =>
    rw [withoutComment]
    split
    next begins => exact ⟨c :: line, rfl, cutsComment_nil (.inr (beginsComment_cons.mpr begins))⟩
    next goesOn =>
      obtain ⟨comment, same, cuts⟩ := ih (r.next c none)
      refine ⟨comment, by rw [List.cons_append, ← same], .cons ?_ cuts⟩
      rw [← same, beginsComment_cons]
      exact goesOn

theorem CutsComment.withoutComment_eq {r : Region} {kept comment : List Char} (cuts : CutsComment r kept comment) :
    withoutComment r (kept ++ comment) = kept := by
  obtain ⟨ends, first⟩ := cuts
  induction kept generalizing r with
  | nil =>
    rcases ends with rfl | begins
    · rfl
    · cases comment with
      | nil => rfl
      | cons c comment => rw [List.nil_append, withoutComment, if_pos (beginsComment_cons.mp begins)]
  | cons c kept ih =>
    have goesOn := first [] (c :: kept) rfl (by simp)
    rw [List.cons_append, beginsComment_cons] at goesOn
    rw [List.cons_append, withoutComment, if_neg goesOn]
    exact congrArg _ (ih ends fun before rest split => first (c :: before) rest (congrArg _ split))

/-- A line is cut at the first two slashes outside of a string. -/
theorem withoutComment_eq_iff {r : Region} {line kept : List Char} :
    withoutComment r line = kept ↔ ∃ comment, line = kept ++ comment ∧ CutsComment r kept comment := by
  constructor
  · rintro rfl
    exact exists_comment r line
  · rintro ⟨comment, rfl, cuts⟩
    exact cuts.withoutComment_eq

/-- Of what follows, a character that begins no comment does not ask. -/
theorem Region.next_goesOn {r : Region} {c : Char} {following : Option Char} (here : r ≠ .comment)
    (goesOn : ¬(r = .code ∧ c = '/' ∧ following = some '/')) : r.next c following = r.next c none := by
  cases r with
  | code =>
    have noComment : ¬(c = '/' ∧ following = some '/') := fun slashes => goesOn ⟨rfl, slashes⟩
    simp only [next, if_neg noComment]
    simp
  | string => rfl
  | escape => rfl
  | comment => exact absurd rfl here

theorem withoutComment_isPrefix (r : Region) (line : List Char) : withoutComment r line <+: line := by
  obtain ⟨comment, same, -⟩ := withoutComment_eq_iff.mp (rfl : withoutComment r line = _)
  exact ⟨comment, same.symm⟩

namespace Scan

variable {s : Scan} {line rest : List Char}

/-- Nothing is put out for the rest of a line that lies in a comment. -/
theorem kept_comment (inLine : '\n' ∉ line) (comment : s.region = .comment) : s.kept line rest = [] := by
  induction line generalizing s with
  | nil => rfl
  | cons c line ih =>
    obtain ⟨other, later⟩ := List.ne_and_not_mem_of_not_mem_cons inLine
    have dropped : ∀ following, s.emitted c following = [] := by
      intro following
      simp [emitted, comment, Ne.symm other]
    have still : ∀ following, (s.step c following).region = .comment := by
      intro following
      rw [region_step, comment, Region.next, if_neg (Ne.symm other)]
    rw [kept, dropped, ih later (still _)]
    rfl

/-- Of a line, what stands before its first comment is put out. -/
theorem kept_line (inLine : '\n' ∉ line) (here : s.region ≠ .comment) (noSlash : rest.head? ≠ some '/') :
    s.kept line rest = withoutComment s.region line := by
  induction line generalizing s with
  | nil => rfl
  | cons c line ih =>
    obtain ⟨other, later⟩ := List.ne_and_not_mem_of_not_mem_cons inLine
    have ahead : (line ++ rest).head? = some '/' ↔ line.head? = some '/' := by
      cases line with
      | nil => simpa using noSlash
      | cons => rfl
    rw [kept, withoutComment]
    by_cases begins : s.region = .code ∧ c = '/' ∧ line.head? = some '/'
    · obtain ⟨code, rfl, slash⟩ := begins
      have region : (s.step '/' (line ++ rest).head?).region = .comment := by
        rw [region_step, code, Region.next, if_pos ⟨rfl, ahead.mpr slash⟩]
      have dropped : s.emitted '/' (line ++ rest).head? = [] := by
        simp [emitted, code, ahead.mpr slash]
      rw [if_pos ⟨code, rfl, slash⟩, dropped, kept_comment later region]
      rfl
    · rw [if_neg begins]
      have next : s.region.next c (line ++ rest).head? = s.region.next c none :=
        Region.next_goesOn here (by rwa [ahead])
      rcases step_cases s c (line ++ rest).head? with keeps | drops | closes
      · have still : (s.step c (line ++ rest).head?).region ≠ .comment := by
          rw [region_step, next]
          exact Region.next_ne_comment here c
        rw [keeps.emitted, ih later still, region_step, next]
        rfl
      · exact absurd (next.symm.trans drops.region) (Region.next_ne_comment here c)
      · exact absurd closes.lineEnd.symm other

/-- A line begins in code or in a string. -/
theorem region_lineStart (s : Scan) (line rest : List Char) : (s.behind (line ++ ['\n']) rest).region ≠ .comment := by
  rw [behind_append, behind, behind, region_step]
  cases (s.behind line (['\n'] ++ rest)).region <;> simp [Region.next]

/-- Of the text behind a line end nothing is asked. -/
theorem behind_lineEnd (s : Scan) (line rest : List Char) :
    s.behind (line ++ ['\n']) rest = (s.behind line ['\n']).step '\n' none ∧
      s.kept (line ++ ['\n']) rest = s.kept line ['\n'] ++ (if (s.behind line ['\n']).closes then [';'] else []) ++ ['\n'] := by
  obtain ⟨same, put⟩ : s.behind line (['\n'] ++ rest) = s.behind line ['\n'] ∧
      s.kept line (['\n'] ++ rest) = s.kept line ['\n'] := behind_congr (by rfl)
  constructor
  · rw [behind_append, same, behind, step_lineEnd]
    rfl
  · rw [kept_append, same, put, kept, emitted_lineEnd, kept, List.append_nil, List.append_assoc]

end Scan

/-- The lines before one of them, each with its end. -/
def linesBefore (lines : List (List Char)) (k : Nat) : List Char := ((lines.take k).map (· ++ ['\n'])).flatten

theorem linesBefore_succ (line : List Char) (lines : List (List Char)) (k : Nat) :
    linesBefore (line :: lines) (k + 1) = (line ++ ['\n']) ++ linesBefore lines k := rfl

/-- The lines before another one end with a line end, if there are any. -/
theorem linesBefore_cases (lines : List (List Char)) (k : Nat) :
    linesBefore lines k = [] ∨ ∃ before, linesBefore lines k = before ++ ['\n'] := by
  induction lines generalizing k with
  | nil => exact .inl (by simp [linesBefore])
  | cons line lines ih =>
    cases k with
    | zero => exact .inl rfl
    | succ k =>
      rw [linesBefore_succ]
      rcases ih k with none | ⟨before, some⟩
      · exact .inr ⟨line, by rw [none, List.append_nil]⟩
      · exact .inr ⟨line ++ ['\n'] ++ before, by rw [some, List.append_assoc _ before]⟩

namespace Scan

theorem behind_linesBefore (s : Scan) (lines : List (List Char)) (k : Nat) (rest : List Char) :
    s.behind (linesBefore lines k) rest = s.behind (linesBefore lines k) [] ∧
      s.kept (linesBefore lines k) rest = s.kept (linesBefore lines k) [] := by
  rcases linesBefore_cases lines k with none | ⟨before, some⟩
  · rw [none]
    exact ⟨rfl, rfl⟩
  · rw [some, (s.behind_lineEnd before rest).1, (s.behind_lineEnd before []).1, (s.behind_lineEnd before rest).2,
      (s.behind_lineEnd before []).2]
    exact ⟨rfl, rfl⟩

/-- The lines that are put out for those of a text. -/
def terminatedLines (s : Scan) : List (List Char) → List (List Char)
  | [] => []
  | [line] => [withoutComment s.region line]
  | line :: next :: later =>
    (withoutComment s.region line ++ if (s.behind line ['\n']).closes then [';'] else []) ::
      ((s.behind line ['\n']).step '\n' none).terminatedLines (next :: later)

variable {s : Scan} {lines : List (List Char)}

theorem terminateFrom_intercalate (inLines : ∀ line ∈ lines, '\n' ∉ line) (here : s.region ≠ .comment) :
    terminateFrom s (['\n'].intercalate lines) = ['\n'].intercalate (s.terminatedLines lines) := by
  fun_induction terminatedLines s lines with
  | case1 => rfl
  | case2 s line =>
    have inLine := inLines line (List.mem_singleton_self _)
    rw [List.intercalate_singleton, List.intercalate_singleton, ← kept_nil, kept_line inLine here (by simp)]
  | case3 s line next later ih =>
    obtain ⟨inLine, inLater⟩ := List.forall_mem_cons.mp inLines
    obtain ⟨behind, kept⟩ := s.behind_lineEnd line (['\n'].intercalate (next :: later))
    have some : ∀ s : Scan, s.terminatedLines (next :: later) ≠ [] := by
      intro s
      cases later <;> simp [terminatedLines]
    have start := region_lineStart s line []
    rw [(s.behind_lineEnd line []).1] at start
    rw [List.intercalate_cons_cons, List.intercalate_cons_of_ne_nil (some _), terminateFrom_append, behind, kept,
      ih inLater start, kept_line inLine here (by simp)]

theorem length_terminatedLines (s : Scan) (lines : List (List Char)) :
    (s.terminatedLines lines).length = lines.length := by
  fun_induction terminatedLines s lines with
  | case1 => rfl
  | case2 => rfl
  | case3 s line next later ih => exact congrArg (· + 1) ih

theorem not_mem_terminatedLines (inLines : ∀ line ∈ lines, '\n' ∉ line) :
    ∀ line ∈ s.terminatedLines lines, '\n' ∉ line := by
  have cut : ∀ (r : Region) {line : List Char}, '\n' ∉ line → '\n' ∉ withoutComment r line :=
    fun r _ inLine member => inLine ((withoutComment_isPrefix r _).subset member)
  fun_induction terminatedLines s lines with
  | case1 => exact inLines
  | case2 s line => simpa using cut s.region (inLines line (List.mem_singleton_self _))
  | case3 s line next later ih =>
    obtain ⟨inLine, inLater⟩ := List.forall_mem_cons.mp inLines
    refine List.forall_mem_cons.mpr ⟨fun member => ?_, ih inLater⟩
    rcases List.mem_append.mp member with kept | closing
    · exact cut s.region inLine kept
    · split at closing <;> simp at closing

/-- What is put out for a line, with what was put out for those before it. -/
theorem getElem?_terminatedLines (inLines : ∀ line ∈ lines, '\n' ∉ line) (here : s.region ≠ .comment) {k : Nat}
    {line : List Char} (found : lines[k]? = some line) :
    let start := s.behind (linesBefore lines k) []
    let stop := s.behind (linesBefore lines k ++ line) ['\n']
    linesBefore (s.terminatedLines lines) k = s.kept (linesBefore lines k) [] ∧ start.region ≠ .comment ∧
      (s.terminatedLines lines)[k]? =
        some (withoutComment start.region line ++ if k + 1 < lines.length ∧ stop.closes then [';'] else []) := by
  fun_induction terminatedLines s lines generalizing k with
  | case1 => cases found
  | case2 s only =>
    cases k with
    | zero =>
      cases found
      exact ⟨rfl, here, by simp [linesBefore, behind]⟩
    | succ k => cases found
  | case3 s first next later ih =>
    obtain ⟨inLine, inLater⟩ := List.forall_mem_cons.mp inLines
    cases k with
    | zero =>
      cases found
      exact ⟨rfl, here, by simp [linesBefore, behind]⟩
    | succ k =>
      have start := region_lineStart s first []
      rw [(s.behind_lineEnd first []).1] at start
      obtain ⟨before, region, out⟩ := ih inLater start found
      have goesOn : ∀ more rest, s.behind (first ++ ['\n'] ++ more) rest =
          ((s.behind first ['\n']).step '\n' none).behind more rest := by
        intro more rest
        rw [behind_append, (s.behind_lineEnd first (more ++ rest)).1]
      have putOn := kept_append s (first ++ ['\n']) (linesBefore (next :: later) k) []
      rw [(s.behind_lineEnd first _).1, (s.behind_lineEnd first _).2, kept_line inLine here (by simp)] at putOn
      rw [linesBefore_succ, linesBefore_succ, goesOn, putOn, before, List.append_assoc _ _ line, goesOn]
      refine ⟨rfl, region, ?_⟩
      rw [List.getElem?_cons_succ, out]
      simp only [List.length_cons, Nat.add_lt_add_iff_right]

end Scan

theorem not_mem_of_mem_splitOn {text line : List Char} (member : line ∈ text.splitOn '\n') : '\n' ∉ line := by
  induction text generalizing line with
  | nil =>
    rw [List.splitOn_nil, List.mem_singleton] at member
    subst member
    exact List.not_mem_nil
  | cons c text ih =>
    rw [List.splitOn_cons_eq_if_modifyHead] at member
    split at member
    · rcases List.mem_cons.mp member with rfl | later
      · simp
      · exact ih later
    next other =>
      obtain ⟨first, later, lines⟩ := List.exists_cons_of_ne_nil (List.splitOn_ne_nil '\n' text)
      rw [lines, List.modifyHead_cons] at member
      rw [lines] at ih
      rcases List.mem_cons.mp member with rfl | inLater
      · have inFirst := ih (List.mem_cons_self ..)
        have apart : '\n' ≠ c := fun same => other (by simp [← same])
        exact List.not_mem_cons_of_ne_of_not_mem apart inFirst
      · exact ih (List.mem_cons_of_mem _ inLater)

/-- The lines of a terminated source. -/
theorem splitOn_terminate (source : List Char) :
    (terminate source).splitOn '\n' = Scan.terminatedLines {} (source.splitOn '\n') := by
  have inLines : ∀ line ∈ source.splitOn '\n', '\n' ∉ line := fun _ => not_mem_of_mem_splitOn
  have same := Scan.terminateFrom_intercalate (s := {}) inLines (by decide)
  have some : Scan.terminatedLines {} (source.splitOn '\n') ≠ [] := by
    rw [← List.length_pos_iff, Scan.length_terminatedLines, List.length_pos_iff]
    exact List.splitOn_ne_nil '\n' source
  rw [List.intercalate_splitOn] at same
  rw [terminate, same, List.splitOn_intercalate _ (Scan.not_mem_terminatedLines inLines) some]

theorem count_terminate (source : List Char) : (terminate source).count '\n' = source.count '\n' := by
  have counted : ∀ s : Scan, (terminateFrom s source).count '\n' = source.count '\n' := by
    induction source with
    | nil => exact fun _ => rfl
    | cons c source ih =>
      intro s
      rw [Scan.terminateFrom_cons, List.count_append, Scan.count_emitted, ih, ← List.count_append]
      rfl
  exact counted {}

/-- What is kept of a line: what stands before its first comment, where a string may go on from the lines before. -/
def keptOf (lines : List (List Char)) (k : Nat) (line : List Char) : List Char :=
  withoutComment (Region.code.behind (linesBefore lines k) []) line

/-- A line end closes a statement: it lies outside of strings and of round brackets, and the last visible
character that was put out so far is there and ends no statement and no block. -/
structure ClosesLine (lines out : List (List Char)) (k : Nat) (line : List Char) : Prop where
  ended : k + 1 < lines.length
  outside : (Region.code.behind (linesBefore lines k ++ line) ['\n']).uncommented = .code
  unbracketed : Region.code.depthBehind 0 (linesBefore lines k ++ line) ['\n'] = 0
  visible : ∃ c, lastVisible (linesBefore out k ++ keptOf lines k line) = some c ∧ c ∉ [';', '\x7b', '\x7d']

/-- The line of the terminated source for a line of the source. -/
theorem getElem?_terminate {source line : List Char} {k : Nat} (found : (source.splitOn '\n')[k]? = some line) :
    let lines := source.splitOn '\n'
    let out := (terminate source).splitOn '\n'
    (ClosesLine lines out k line → out[k]? = some (keptOf lines k line ++ [';'])) ∧
      (¬ClosesLine lines out k line → out[k]? = some (keptOf lines k line)) := by
  intro lines out
  have inLines : ∀ line ∈ lines, '\n' ∉ line := fun _ => not_mem_of_mem_splitOn
  have inLine : '\n' ∉ line := inLines line (List.mem_of_getElem? found)
  obtain ⟨before, region, here⟩ := Scan.getElem?_terminatedLines (s := {}) inLines (by decide) found
  rw [← splitOn_terminate] at before here
  rw [Scan.region_behind] at region here
  -- What was put out so far ends with what is kept of the line.
  have sofar : linesBefore out k ++ keptOf lines k line = Scan.kept {} (linesBefore lines k ++ line) ['\n'] := by
    obtain ⟨same, put⟩ := Scan.behind_linesBefore {} lines k (line ++ ['\n'])
    rw [Scan.kept_append, same, put, before, keptOf, Scan.kept_line inLine (by rwa [Scan.region_behind]) (by simp),
      Scan.region_behind]
  have closing : (k + 1 < lines.length ∧ (Scan.behind {} (linesBefore lines k ++ line) ['\n']).closes) ↔
      ClosesLine lines out k line := by
    rw [Scan.closes, Scan.isOpen_iff, Scan.region_behind, Scan.depth_behind, Scan.last_behind, ← sofar, Option.or_none]
    constructor
    · rintro ⟨ended, outside, unbracketed, visible⟩
      exact ⟨ended, outside, unbracketed, visible⟩
    · rintro ⟨ended, outside, unbracketed, visible⟩
      exact ⟨ended, outside, unbracketed, visible⟩
  constructor
  · intro closes
    rw [if_pos (closing.mpr closes)] at here
    exact here
  · intro goesOn
    rw [if_neg (mt closing.mp goesOn), List.append_nil] at here
    exact here

/-- Termination is exact by lines and columns. There are as many lines as before; of each the part before its
first comment is kept where it was, and a semicolon follows exactly if the line end closes a statement. -/
theorem terminate_lines (source : List Char) :
    let lines := source.splitOn '\n'
    let out := (terminate source).splitOn '\n'
    (terminate source).count '\n' = source.count '\n' ∧ out.length = lines.length ∧
      (∀ k line, lines[k]? = some line →
        (ClosesLine lines out k line → out[k]? = some (keptOf lines k line ++ [';'])) ∧
          (¬ClosesLine lines out k line → out[k]? = some (keptOf lines k line))) ∧
      ∀ k line column c, lines[k]? = some line → (keptOf lines k line)[column]? = some c →
        charIn? source k column = some c ∧ charIn? (terminate source) k column = some c := by
  intro lines out
  refine ⟨count_terminate source, ?_, fun k line => getElem?_terminate, fun k line column c found kept => ?_⟩
  · rw [show out = Scan.terminatedLines {} lines from splitOn_terminate source, Scan.length_terminatedLines]
  have inside : column < (keptOf lines k line).length := (List.getElem?_eq_some_iff.mp kept).1
  have inSource : (line : List Char)[column]? = some c := by
    obtain ⟨comment, same⟩ : keptOf lines k line <+: line := withoutComment_isPrefix _ line
    rw [← same, List.getElem?_append_left inside]
    exact kept
  obtain ⟨closed, unclosed⟩ := getElem?_terminate found
  refine ⟨?_, ?_⟩
  · rw [charIn?, found]
    exact inSource
  · by_cases closes : ClosesLine lines out k line
    · rw [charIn?, closed closes, Option.bind_some, List.getElem?_append_left inside]
      exact kept
    · rw [charIn?, unclosed closes]
      exact kept

/-- A comment after a string with slashes, brackets over two lines, and an empty line. -/
example : terminate "s=\"//\" // a\nf(1,\n2)\n\nb".toList = "s=\"//\" ;\nf(1,\n2);\n\nb".toList := by decide

end PhyLang.Source
