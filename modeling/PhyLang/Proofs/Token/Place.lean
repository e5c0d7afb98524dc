import PhyLang.Proofs.Source.Position
import PhyLang.Proofs.Token.Terminal

namespace PhyLang.Token

open Source (Position StandsAt)

section Prefixes

variable {input : List Char}

theorem intLexeme_isPrefix : intLexeme input <+: input := List.takeWhile_prefix _

theorem nameLexeme_isPrefix : nameLexeme input <+: input := by
  unfold nameLexeme
  split
  · split
    · exact List.prefix_cons_inj _ |>.mpr (List.takeWhile_prefix _)
    · exact List.nil_prefix
  · exact List.nil_prefix

theorem realLexeme_isPrefix : realLexeme input <+: input := by
  have split : intLexeme input ++ input.drop (intLexeme input).length = input :=
    List.prefix_iff_eq_append.mp intLexeme_isPrefix
  unfold realLexeme
  simp only
  split
  · exact List.nil_prefix
  · exact List.nil_prefix
  · rename_i places _ behind _
    have more : '.' :: intLexeme places <+: '.' :: places := (List.prefix_cons_inj _).mpr intLexeme_isPrefix
    rw [behind] at split
    calc intLexeme input ++ '.' :: intLexeme places
      _ <+: intLexeme input ++ '.' :: places := (List.prefix_append_right_inj _).mpr more
      _ = input := split
  · exact List.nil_prefix

theorem boundLexeme_isPrefix : boundLexeme input <+: input := by
  unfold boundLexeme
  split
  · split
    · exact List.nil_prefix
    · exact List.prefix_cons_inj _ |>.mpr intLexeme_isPrefix
  · exact intLexeme_isPrefix

theorem stringTail?_isPrefix {tail : List Char} (found : stringTail? input = some tail) : tail <+: input := by
  fun_induction stringTail? input generalizing tail with
  | case1 rest =>
    cases found
    exact (List.prefix_cons_inj _).mpr List.nil_prefix
  | case2 => cases found
  | case3 c rest _ ih =>
    obtain ⟨later, read, rfl⟩ := Option.map_eq_some_iff.mp found
    exact (List.prefix_cons_inj _).mpr ((List.prefix_cons_inj _).mpr (ih read))
  | case4 => cases found
  | case5 c rest _ _ _ ih =>
    obtain ⟨later, read, rfl⟩ := Option.map_eq_some_iff.mp found
    exact (List.prefix_cons_inj _).mpr (ih read)
  | case6 => cases found

theorem stringLexeme_isPrefix : stringLexeme input <+: input := by
  unfold stringLexeme
  split
  next rest =>
    cases read : stringTail? rest with
    | none => exact List.nil_prefix
    | some tail => exact (List.prefix_cons_inj _).mpr (stringTail?_isPrefix read)
  next => exact List.nil_prefix

/-- The text of a token is the beginning of the text in which it is found. -/
theorem lexeme?_isPrefix {accepts : Kind → Bool} {kind : Kind} {text : List Char}
    (found : lexeme? accepts input = some (kind, text)) : text <+: input := by
  cases lexeme?_isLexeme found with
  | real => exact realLexeme_isPrefix
  | name => exact nameLexeme_isPrefix
  | string => exact stringLexeme_isPrefix
  | bound => exact boundLexeme_isPrefix
  | int => exact intLexeme_isPrefix
  | fixed _ _ begins => exact begins

end Prefixes

/-- A token that begins with a semicolon is one. -/
theorem lexeme?_semicolon {accepts : Kind → Bool} {rest text : List Char} {kind : Kind}
    (found : lexeme? accepts (';' :: rest) = some (kind, text)) : kind = .mark .semicolon := by
  have only : ∀ fixed ∈ fixedKinds, (fixedText fixed).head?.all (· == ';') → fixed = .mark .semicolon := by decide
  cases lexeme?_isLexeme found with
  | real some => exact absurd (realLexeme_other (by decide)) some
  | name some => exact absurd (nameLexeme_other (by decide)) some
  | string some => exact absurd (stringLexeme_other (by decide)) some
  | bound some => exact absurd ((boundLexeme_other (by decide)).trans (intLexeme_other (by decide))) some
  | int some => exact absurd (intLexeme_other (by decide)) some
  | fixed member _ begins =>
    refine only kind member ?_
    cases first : fixedText kind with
    | nil => rfl
    | cons c later =>
      rw [first, List.cons_prefix_cons] at begins
      exact beq_iff_eq.mpr begins.1

/-- What is left behind the blanks at the start of a text begins with no blank. -/
theorem drop_blanks {input : List Char} {c : Char} {later : List Char}
    (first : input.drop (input.takeWhile Text.isSeparator).length = c :: later) : Text.isSeparator c = false := by
  have split : input.takeWhile Text.isSeparator ++ input.dropWhile Text.isSeparator = input :=
    List.takeWhile_append_dropWhile
  have behind : input.dropWhile Text.isSeparator = c :: later := by
    have dropped := congrArg (List.drop (input.takeWhile Text.isSeparator).length) split
    rwa [List.drop_left, first] at dropped
  have kept := List.head?_dropWhile_not Text.isSeparator input
  rw [behind] at kept
  simpa using kept

/-- A token stands in a text that starts at a place: its first character is visible and stands where its
span starts, and it is a semicolon only if the token is one. -/
structure StandsIn (start : Position) (text : List Char) (token : Token) : Prop where
  after : start ≤ token.span.start
  proper : token.span.start < token.span.stop
  first : ∃ c, token.text.head? = some c ∧ c ≠ '\n' ∧ (c = ';' → token.kind = .mark .semicolon) ∧
    StandsAt start text c token.span.start

theorem StandsIn.prepend {start : Position} {word text : List Char} {token : Token}
    (stands : StandsIn (start.advance word) text token) : StandsIn start (word ++ text) token := by
  obtain ⟨c, head, visible, semicolon, here⟩ := stands.first
  exact ⟨(start.le_advance word).trans stands.after, stands.proper, c, head, visible, semicolon, here.prepend⟩

/-- Every token that is scanned stands in the text, and no token starts before the ones before it stop. -/
theorem scanFrom_stand {mode : Mode} {place : Position} {input : List Char} :
    (∀ token ∈ (scanFrom mode place input).tokens, StandsIn place input token) ∧
      (scanFrom mode place input).tokens.Pairwise fun a b => a.span.stop ≤ b.span.start := by
  fun_induction scanFrom mode place input with
  | case1 => simp
  | case2 mode place input blanks rest start kind text found progress stop later ih =>
    obtain ⟨stand, ordered⟩ := ih
    obtain ⟨behind, split⟩ := lexeme?_isPrefix found
    have dropped : rest.drop text.length = behind := by rw [← split, List.drop_left]
    have whole : input = blanks ++ (text ++ behind) := by
      rw [split]
      exact (List.prefix_iff_eq_append.mp (List.takeWhile_prefix _)).symm
    have some : text ≠ [] := List.length_pos_iff.mp progress.1
    obtain ⟨c, more, rfl⟩ := List.exists_cons_of_ne_nil some
    have visible : Text.isSeparator c = false := drop_blanks split.symm
    have here : StandsIn place input ⟨kind, c :: more, ⟨start, stop⟩⟩ := by
      rw [whole]
      refine StandsIn.prepend ⟨le_rfl, start.lt_advance some, c, rfl, ?_, ?_, [], _, rfl, rfl⟩
      · rintro rfl
        exact absurd visible (by decide)
      · rintro rfl
        rw [← split] at found
        exact lexeme?_semicolon found
    rw [dropped] at stand ordered
    have others : ∀ token ∈ (scanFrom (mode.next kind) stop behind).tokens, StandsIn place input token := by
      intro token member
      rw [whole, ← List.append_assoc]
      refine StandsIn.prepend ?_
      rw [Position.advance_append]
      exact stand token member
    simp only [later, dropped]
    exact ⟨List.forall_mem_cons.mpr ⟨here, others⟩,
      List.pairwise_cons.mpr ⟨fun token member => (stand token member).after, ordered⟩⟩
  | case3 => simp

theorem scan_stand {input : List Char} : (∀ token ∈ (scan input).tokens, StandsIn .first input token) ∧
    (scan input).tokens.Pairwise fun a b => a.span.stop ≤ b.span.start := scanFrom_stand

end PhyLang.Token
