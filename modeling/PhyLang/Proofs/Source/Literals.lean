import PhyLang.Proofs.Source.Steps

namespace PhyLang.Source

/-- A string literal: its text with the quotes, and the stretch where it stands. -/
structure StringLiteral where
  text : List Char
  span : Span
  deriving DecidableEq, Repr, Inhabited

/-- The text of a literal, from what stands between its quotes. -/
def quoted (inside : List Char) : List Char := '"' :: (inside ++ ['"'])

/-- A place lies in a literal, behind its first character. -/
def StringLiteral.Holds (literal : StringLiteral) (place : Position) : Prop :=
  literal.span.start < place ∧ place < literal.span.stop

namespace Region

/-- Whether a string has begun and goes on. -/
def inString : Region → Bool
  | .string | .escape => true
  | .code | .comment => false

/-- The literals of a text in which no comment begins, where the part of it that was read last is `begun`. -/
def literalsFrom (r : Region) (start : Position) (begun : List Char) : List Char → List StringLiteral
  | [] => []
  | c :: rest =>
    let after := r.next c none
    let read := begun ++ [c]
    if after.inString then after.literalsFrom start read rest
    else
      let later := after.literalsFrom (start.advance read) [] rest
      if r.inString then ⟨read, ⟨start, start.advance read⟩⟩ :: later else later

end Region

namespace Scan

/-- The literals that the scan of a text delimits. In a string, what was read of its literal is `begun`, which
stands from `start` on; outside of strings the text goes on at `start`. -/
def literalsFrom (s : Scan) (start : Position) (begun : List Char) : List Char → List StringLiteral
  | [] => []
  | c :: rest =>
    let after := s.step c rest.head?
    let read := begun ++ [c]
    if after.region.inString then after.literalsFrom start read rest
    else
      let later := after.literalsFrom (start.advance read) [] rest
      if s.region.inString then ⟨read, ⟨start, start.advance read⟩⟩ :: later else later

end Scan

/-- The literals that termination delimits in a source, from left to right. -/
def stringLiterals (source : List Char) : List StringLiteral := Scan.literalsFrom {} .first [] source

namespace Region

variable {r : Region} {start : Position} {text rest : List Char}

theorem inString_uncommented (r : Region) : r.uncommented.inString = r.inString := by cases r <;> rfl

/-- A string begins at a quote in code. -/
theorem opens_string {c : Char} {following : Option Char} (outside : r.inString = false)
    (opens : (r.next c following).inString) : r = .code ∧ c = '"' := by
  cases r with
  | code =>
    refine ⟨rfl, by_contra fun noQuote => ?_⟩
    simp only [next, if_neg noQuote] at opens
    split at opens <;> cases opens
  | string | escape => cases outside
  | comment =>
    simp only [next] at opens
    split at opens <;> cases opens

/-- In code without quotes there is no literal. -/
theorem literalsFrom_code (noQuote : ∀ c ∈ text, c ≠ '"') :
    code.literalsFrom start [] (text ++ rest) = code.literalsFrom (start.advance text) [] rest := by
  induction text generalizing start with
  | nil => rfl
  | cons c text ih =>
    obtain ⟨first, later⟩ := List.forall_mem_cons.mp noQuote
    have step : code.literalsFrom start [] (c :: (text ++ rest)) =
        code.literalsFrom (start.next c) [] (text ++ rest) := by
      rw [literalsFrom, next_none first]
      rfl
    rw [List.cons_append, step, ih later]
    rfl

/-- The rest of a string, up to the quote that ends it. -/
theorem literalsFrom_inside {inside begun : List Char} (closed : Token.IsInside inside) :
    string.literalsFrom start begun (inside ++ '"' :: rest) =
      ⟨begun ++ inside ++ ['"'], ⟨start, start.advance (begun ++ inside ++ ['"'])⟩⟩ ::
        code.literalsFrom (start.advance (begun ++ inside ++ ['"'])) [] rest := by
  induction closed generalizing begun with
  | empty =>
    rw [List.append_nil]
    rfl
  | @plain c inside noQuote noBackslash _ _ ih =>
    have still : next .string c none = .string := by rw [next, if_neg noBackslash, if_neg noQuote]
    have step : string.literalsFrom start begun (c :: (inside ++ '"' :: rest)) =
        string.literalsFrom start (begun ++ [c]) (inside ++ '"' :: rest) := by
      rw [literalsFrom, still]
      rfl
    rw [List.cons_append, step, ih, List.append_assoc begun, List.singleton_append]
  | @escaped c inside _ _ ih =>
    have step : string.literalsFrom start begun ('\\' :: c :: (inside ++ '"' :: rest)) =
        string.literalsFrom start (begun ++ ['\\'] ++ [c]) (inside ++ '"' :: rest) := rfl
    rw [List.cons_append, List.cons_append, step, ih, List.append_assoc begun, List.append_assoc begun]
    rfl

/-- A string between quotes is a literal. -/
theorem literalsFrom_quoted {inside : List Char} (closed : Token.IsInside inside) :
    code.literalsFrom start [] (quoted inside ++ rest) =
      ⟨quoted inside, ⟨start, start.advance (quoted inside)⟩⟩ ::
        code.literalsFrom (start.advance (quoted inside)) [] rest := by
  have opened : code.literalsFrom start [] ('"' :: (inside ++ '"' :: rest)) =
      string.literalsFrom start ['"'] (inside ++ '"' :: rest) := rfl
  rw [quoted, List.cons_append, List.append_assoc, List.singleton_append, opened, literalsFrom_inside closed]
  rfl

end Region

namespace Scan

variable {s : Scan} {start : Position} {begun text : List Char} {literal : StringLiteral}

theorem uncommented_of_outside (outside : s.region.inString = false) : s.region.uncommented = .code := by
  cases region : s.region <;> rw [region] at outside <;> first | rfl | cases outside

/-- A step that stays outside of strings puts out no quote. -/
theorem emitted_noQuote {c : Char} {following : Option Char} (outside : s.region.inString = false)
    (stays : (s.step c following).region.inString = false) : ∀ d ∈ s.emitted c following, d ≠ '"' := by
  rcases step_cases s c following with keeps | drops | closes
  · rw [keeps.emitted, List.forall_mem_singleton]
    rintro rfl
    rw [keeps.after, uncommented_of_outside outside] at stays
    cases stays
  · rw [drops.emitted]
    exact List.forall_mem_nil _
  · rw [closes.emitted]
    simp

/-- A step into a string, in it or out of it keeps its character. -/
theorem keeps_of_inString {c : Char} {following : Option Char}
    (inString : ¬(s.region.inString = false ∧ (s.step c following).region.inString = false)) : s.Keeps c following := by
  rcases step_cases s c following with keeps | drops | closes
  · exact keeps
  · refine absurd ⟨?_, by rw [drops.after]; rfl⟩ inString
    rw [← Region.inString_uncommented, drops.outside]
    rfl
  · refine absurd ⟨?_, by rw [closes.after]; rfl⟩ inString
    rw [← Region.inString_uncommented, closes.outside]
    rfl

/-- Where a string begins, the source and what is put out are at the same place. -/
theorem start_eq {c : Char} {following : Option Char} {p q : Position}
    (aligned : s.Aligns (q.advance begun) (p.advance begun)) (outside : s.region.inString = false → begun = [])
    (same : s.region.inString → q = p)
    (inString : ¬(s.region.inString = false ∧ (s.step c following).region.inString = false)) : q = p := by
  cases here : s.region.inString with
  | true => exact same here
  | false =>
    obtain rfl := outside here
    have opens : (s.region.next c following).inString := by
      rw [← region_step]
      simpa [here] using inString
    obtain ⟨code, -⟩ := Region.opens_string here opens
    exact aligned.place (by simp [code])

/-- What is put out has the literals of the source, at the same places. -/
theorem literalsFrom_terminateFrom {p q : Position} (aligned : s.Aligns (q.advance begun) (p.advance begun))
    (outside : s.region.inString = false → begun = []) (same : s.region.inString → q = p) :
    s.region.uncommented.literalsFrom q begun (terminateFrom s text) = s.literalsFrom p begun text := by
  induction text generalizing s p q begun with
  | nil => rfl
  | cons c text ih =>
    generalize stepped : s.step c text.head? = after
    have alignedLater :
        after.Aligns ((q.advance begun).advance (s.emitted c text.head?)) (p.advance (begun ++ [c])) := by
      rw [Position.advance_append, ← stepped]
      exact aligns_step aligned c text.head?
    have later {p q : Position} (ends : after.region.inString = false) (aligned : after.Aligns q p) :
        after.region.uncommented.literalsFrom q [] (terminateFrom after text) = after.literalsFrom p [] text :=
      ih aligned (fun _ => rfl) fun inString => absurd (ends.symm.trans inString) nofun
    rw [terminateFrom_cons, literalsFrom, stepped]
    by_cases quiet : s.region.inString = false ∧ after.region.inString = false
    · -- What is put out has no quote, so it adds no literal.
      obtain ⟨here, ends⟩ := quiet
      obtain rfl := outside here
      have rest := later ends alignedLater
      rw [uncommented_of_outside ends] at rest
      rw [uncommented_of_outside here, Region.literalsFrom_code (emitted_noQuote here (stepped ▸ ends))]
      simp only [here, ends, Bool.false_eq_true, if_false]
      exact rest
    · -- The character itself is put out, where it stands in the source.
      rw [← stepped] at quiet
      have keeps := keeps_of_inString quiet
      have region : s.region.uncommented.next c none = after.region := by rw [← stepped, keeps.after]
      have code : after.region.uncommented = after.region := by
        rw [← region, Region.uncommented_eq (Region.next_ne_comment ?_ c)]
        cases s.region <;> decide
      obtain rfl := start_eq aligned outside same quiet
      rw [keeps.emitted, ← Position.advance_append] at alignedLater
      rw [keeps.emitted, List.singleton_append, Region.literalsFrom, region, Region.inString_uncommented]
      cases ends : after.region.inString with
      | true =>
        have rest := ih alignedLater (fun other => absurd (other.symm.trans ends) nofun) fun _ => rfl
        rw [code] at rest
        exact rest
      | false =>
        have rest := later ends alignedLater
        rw [code] at rest
        simp only [Bool.false_eq_true, if_false, rest]

section Steps

variable {c : Char}

theorem literalsFrom_goesOn (goesOn : (s.step c text.head?).region.inString) :
    s.literalsFrom start begun (c :: text) = (s.step c text.head?).literalsFrom start (begun ++ [c]) text :=
  if_pos goesOn

theorem literalsFrom_ends (ends : (s.step c text.head?).region.inString = false) :
    let stop := start.advance (begun ++ [c])
    s.literalsFrom start begun (c :: text) =
      (if s.region.inString then [⟨begun ++ [c], ⟨start, stop⟩⟩] else []) ++
        (s.step c text.head?).literalsFrom stop [] text := by
  rw [literalsFrom]
  simp only [ends, Bool.false_eq_true, if_false]
  split <;> rfl

end Steps

/-- A literal stands in the text where it says, and begins in code. The text may have been read already up to a place
in a string, of which `begun` was read. -/
theorem stands_of_literalsFrom (outside : s.region.inString = false) (opened : begun = [] ∨ s.region = .code)
    (member : literal ∈ (s.behind begun text).literalsFrom start begun text) :
    ∃ before after, begun ++ text = before ++ (literal.text ++ after) ∧
      literal.span = ⟨start.advance before, (start.advance before).advance literal.text⟩ ∧
        (s.behind before (literal.text ++ after)).region = .code := by
  induction text generalizing s start begun with
  | nil => cases member
  | cons c text ih =>
    have step : (s.behind begun (c :: text)).step c text.head? = s.behind (begun ++ [c]) text := by
      rw [behind_append]
      rfl
    have read : begun ++ c :: text = begun ++ [c] ++ text := by rw [List.append_assoc, List.singleton_append]
    rw [read]
    cases inside : (s.behind (begun ++ [c]) text).region.inString with
    | true =>
      rw [literalsFrom_goesOn (by rwa [step]), step] at member
      refine ih outside (.inr ?_) member
      rcases opened with rfl | code
      · rw [← step, region_step] at inside
        exact (Region.opens_string outside inside).1
      · exact code
    | false =>
      rw [literalsFrom_ends (by rwa [step]), step] at member
      rcases List.mem_append.mp member with ended | later
      · obtain ⟨inString, this⟩ := List.mem_ite_nil_right.mp ended
        obtain rfl := List.mem_singleton.mp this
        have code : s.region = .code := by
          refine opened.resolve_left ?_
          rintro rfl
          exact absurd (outside.symm.trans inString) nofun
        exact ⟨[], text, rfl, rfl, code⟩
      · obtain ⟨before, after, split, span, code⟩ := ih inside (.inl rfl) later
        rw [List.nil_append] at split
        refine ⟨begun ++ [c] ++ before, after, by rw [split, List.append_assoc _ before], ?_, ?_⟩
        · rw [span, Position.advance_append _ (begun ++ [c])]
        · rw [behind_append, ← split]
          exact code

/-- A literal begins no earlier than the text, with what was read of it. -/
theorem le_start (member : literal ∈ s.literalsFrom start begun text) : start ≤ literal.span.start := by
  induction text generalizing s start begun with
  | nil => cases member
  | cons c text ih =>
    cases inside : (s.step c text.head?).region.inString with
    | true =>
      rw [literalsFrom_goesOn inside] at member
      exact ih member
    | false =>
      rw [literalsFrom_ends inside] at member
      rcases List.mem_append.mp member with ended | later
      · obtain ⟨-, this⟩ := List.mem_ite_nil_right.mp ended
        obtain rfl := List.mem_singleton.mp this
        exact le_rfl
      · exact (start.le_advance _).trans (ih later)

/-- A string that has begun and ends is a literal. -/
theorem exists_literal (inString : s.region.inString) (ended : (s.behind text []).region.inString = false) :
    ∃ literal ∈ s.literalsFrom start begun text,
      literal.span.start = start ∧ start.advance begun < literal.span.stop := by
  induction text generalizing s begun with
  | nil => exact absurd (inString.symm.trans ended) nofun
  | cons c text ih =>
    have further : start.advance begun < start.advance (begun ++ [c]) := by
      rw [Position.advance_append]
      exact Position.lt_next _ c
    rw [behind, List.append_nil] at ended
    cases inside : (s.step c text.head?).region.inString with
    | true =>
      rw [literalsFrom_goesOn inside]
      obtain ⟨literal, member, same, stop⟩ := ih inside ended
      exact ⟨literal, member, same, further.trans stop⟩
    | false =>
      rw [literalsFrom_ends inside, if_pos inString]
      exact ⟨_, List.mem_cons_self .., rfl, further⟩

/-- In a text that ends outside of strings, exactly the places in a literal are in a string. -/
theorem inString_iff (start : Position) {before rest : List Char} (outside : s.region.inString = false ↔ begun = [])
    (ended : (s.behind (before ++ rest) []).region.inString = false) :
    (s.behind before rest).region.inString ↔
      ∃ literal ∈ s.literalsFrom start begun (before ++ rest),
        literal.Holds ((start.advance begun).advance before) := by
  induction before generalizing s start begun with
  | nil =>
    constructor
    · intro inString
      obtain ⟨literal, member, same, stop⟩ := exists_literal inString ended
      have some : begun ≠ [] := fun none => absurd ((outside.mpr none).symm.trans inString) nofun
      exact ⟨literal, member, same ▸ Position.lt_advance start some, stop⟩
    · rintro ⟨literal, member, after, -⟩
      by_contra inCode
      obtain rfl := outside.mp (Bool.not_eq_true _ ▸ inCode)
      exact absurd ((le_start member).trans_lt after) (lt_irrefl start)
  | cons c before ih =>
    rw [List.cons_append, behind, List.append_nil] at ended
    have place : (start.advance begun).advance (c :: before) = (start.advance (begun ++ [c])).advance before := by
      rw [Position.advance_append]
      rfl
    rw [behind, List.cons_append, place]
    cases inside : (s.step c (before ++ rest).head?).region.inString with
    | true =>
      rw [literalsFrom_goesOn inside]
      exact ih start (iff_of_false (fun other => absurd (other.symm.trans inside) nofun) (by simp)) ended
    | false =>
      have later := ih (start.advance (begun ++ [c])) (iff_of_true inside rfl) ended
      rw [literalsFrom_ends inside, later]
      refine exists_congr fun literal => and_congr_left fun holds => ?_
      rw [List.mem_append, iff_or_self, List.mem_ite_nil_right]
      rintro ⟨-, this⟩
      -- What ends here ends before the place.
      obtain rfl := List.mem_singleton.mp this
      exact absurd (holds.2.trans_le (Position.le_advance _ before)) (lt_irrefl _)

section Inert

variable {inside : List Char}

theorem step_of_string (inString : s.region = .string ∨ s.region = .escape) (c : Char) (following : Option Char) :
    s.emitted c following = [c] ∧ (s.step c following).region = s.region.next c none ∧
      (s.step c following).depth = s.depth := by
  refine ⟨(keeps_of_string inString).emitted, ?_, ?_⟩
  · rw [region_step]
    rcases inString with region | region <;> rw [region] <;> rfl
  · rw [depth_step]
    rcases inString with region | region <;> rw [region] <;> rfl

/-- What stands between the quotes of a string is put out as it is, and changes nothing of the scan but the last
character. -/
theorem behind_inside (closed : Token.IsInside inside) (rest : List Char) (string : s.region = .string) :
    s.kept inside rest = inside ∧ (s.behind inside rest).region = .string ∧ (s.behind inside rest).depth = s.depth := by
  induction closed generalizing s with
  | empty => exact ⟨rfl, string, rfl⟩
  | @plain c inside noQuote noBackslash _ _ ih =>
    obtain ⟨emitted, region, depth⟩ := step_of_string (.inl string) c (inside ++ rest).head?
    rw [string, Region.next, if_neg noBackslash, if_neg noQuote] at region
    obtain ⟨put, still, same⟩ := ih region
    exact ⟨by rw [kept, emitted, put]; rfl, still, same.trans depth⟩
  | @escaped c inside _ _ ih =>
    obtain ⟨backslash, escape, depth⟩ := step_of_string (.inl string) '\\' (some c)
    rw [string] at escape
    obtain ⟨emitted, region, depthLater⟩ := step_of_string (.inr escape) c (inside ++ rest).head?
    rw [escape] at region
    obtain ⟨put, still, same⟩ := ih region
    refine ⟨?_, still, same.trans (depthLater.trans depth)⟩
    rw [kept, kept, List.cons_append, List.head?_cons, backslash, emitted, put]
    rfl

/-- A string in code is put out as it is, and the scan goes on in the same way whatever stands between the quotes. -/
theorem behind_quoted (closed : Token.IsInside inside) (rest : List Char) (code : s.region = .code) :
    s.kept (quoted inside) rest = quoted inside ∧ s.behind (quoted inside) rest = ⟨.code, s.depth, some '"'⟩ := by
  generalize stepped : s.step '"' (inside ++ ['"'] ++ rest).head? = opened
  have opens : s.Keeps '"' (inside ++ ['"'] ++ rest).head? := keeps_of_code code (by decide) (by simp)
  have string : opened.region = .string := by
    rw [← stepped, region_step, code]
    rfl
  have depthOpened : opened.depth = s.depth := by
    rw [← stepped, depth_step, code]
    rfl
  obtain ⟨put, still, same⟩ := behind_inside closed (['"'] ++ rest) string
  obtain ⟨closes, ended, depthClosed⟩ := step_of_string (.inl still) '"' rest.head?
  have whole : s.kept (quoted inside) rest = quoted inside := by
    rw [quoted, kept, opens.emitted, stepped, kept_append, put, kept, List.nil_append, closes]
    rfl
  have behind : s.behind (quoted inside) rest = (opened.behind inside (['"'] ++ rest)).step '"' rest.head? := by
    rw [quoted, Scan.behind, stepped, behind_append]
    rfl
  have region : (s.behind (quoted inside) rest).region = .code := by
    rw [behind, ended, still]
    rfl
  have depth : (s.behind (quoted inside) rest).depth = s.depth := by
    rw [behind, depthClosed, same, depthOpened]
  have last : (s.behind (quoted inside) rest).last = some '"' := by
    rw [last_behind, whole, quoted, ← List.cons_append, lastVisible_append]
    rfl
  refine ⟨whole, ?_⟩
  generalize s.behind (quoted inside) rest = after at region depth last
  obtain ⟨_, _, _⟩ := after
  cases region
  cases depth
  cases last
  rfl

end Inert

end Scan

/-- Termination leaves the literals of a source as they are, and where they are. -/
theorem stringLiterals_terminate (source : List Char) :
    Region.literalsFrom .code .first [] (terminate source) = stringLiterals source := by
  have start : Scan.Aligns {} .first .first := ⟨rfl, fun _ => rfl⟩
  exact Scan.literalsFrom_terminateFrom start (fun _ => rfl) fun _ => rfl

/-- Slashes in a string, and a quote in a comment. -/
example : stringLiterals "f(\"//\") // \"a".toList = [⟨"\"//\"".toList, ⟨1, 3⟩, ⟨1, 7⟩⟩] := by decide

/-- Whatever stands between the quotes of a string in code, the text before it and the text behind it are terminated
in the same way. -/
theorem terminate_quoted {before rest inside : List Char}
    (code : (Scan.behind {} before (quoted inside ++ rest)).region = .code) :
    ∃ kept later, ∀ other, Token.IsInside other →
      terminate (before ++ (quoted other ++ rest)) = kept ++ (quoted other ++ later) := by
  let s := Scan.behind {} before (quoted inside ++ rest)
  refine ⟨Scan.kept {} before (quoted inside ++ rest), terminateFrom ⟨.code, s.depth, some '"'⟩ rest, ?_⟩
  intro other closed
  have ahead : (quoted other ++ rest).head? = some '/' ↔ (quoted inside ++ rest).head? = some '/' := by rfl
  obtain ⟨same, put⟩ : Scan.behind {} before (quoted other ++ rest) = s ∧
      Scan.kept {} before (quoted other ++ rest) = Scan.kept {} before (quoted inside ++ rest) := Scan.behind_congr ahead
  obtain ⟨keptOther, behindOther⟩ := Scan.behind_quoted closed rest code
  rw [terminate, Scan.terminateFrom_append, same, put, Scan.terminateFrom_append, keptOther, behindOther]

/-- Every literal of a source stands there, and begins in code. -/
theorem stands_of_stringLiterals {source : List Char} {literal : StringLiteral}
    (member : literal ∈ stringLiterals source) :
    ∃ before after, source = before ++ (literal.text ++ after) ∧
      literal.span = ⟨Position.first.advance before, (Position.first.advance before).advance literal.text⟩ ∧
        (Scan.behind {} before (literal.text ++ after)).region = .code :=
  Scan.stands_of_literalsFrom (s := {}) rfl (.inl rfl) member

/-- In a source that ends outside of strings, exactly the places in a literal are in a string. -/
theorem inString_behind_iff {before rest : List Char}
    (ended : (Scan.behind {} (before ++ rest) []).region.inString = false) :
    (Scan.behind {} before rest).region.inString ↔
      ∃ literal ∈ stringLiterals (before ++ rest), literal.Holds (Position.first.advance before) :=
  Scan.inString_iff .first (iff_of_true rfl rfl) ended

end PhyLang.Source
