import PhyLang.Proofs.Grammar.Concatenation
import PhyLang.Proofs.Token.Escaped

namespace PhyLang

open Grammar (Expr leaf?)
open Source (IsKept Position Span)
open Token (IsApart IsDigits IsTextOf Mode Scans literalOf)

/-- The stretch of a text that begins at a place. -/
def Source.Span.over (place : Position) (text : List Char) : Span := ⟨place, place.advance text⟩

/-- The location of all of a source text. -/
def Loc.ofSource (source : String) : Loc := .ofSpan (.over .first source.toList)

namespace Program

variable {kind : Kind} {text digits : List Char} {node : Node} {source : String} {tokens : List Token}
  {program : Program}

theorem Reads.parse_kept (reads : Reads source.toList tokens program) (kept : IsKept source.toList []) :
    parse source = .ok program := by
  rw [← kept.same] at reads
  exact reads.parse_eq

/-- A literal or a name alone is a program. -/
theorem reads_leaf (begins : Mode.program.accepts kind) (textOf : IsTextOf kind text)
    (alone : leaf? ⟨kind, text, .over .first text⟩ = some node) :
    Reads text [⟨kind, text, .over .first text⟩] [.exprStmt node (some (.ofSpan (.over .first text)))] where
  scans := .single .first (Token.lexeme?_textOf begins textOf nofun) textOf.first
  literals := List.forall_mem_singleton.mpr (Token.literalFault?_textOf textOf)
  derived := .last (.expr ((Expr.leaf alone).weaken (Nat.zero_le _)))

/-- So is one that is printed. -/
theorem reads_print (begins : Mode.operand.accepts kind) (textOf : IsTextOf kind text)
    (alone : leaf? ⟨kind, text, .over ⟨1, 7⟩ text⟩ = some node) :
    Reads ("print ".toList ++ text)
      [⟨.word .print, "print".toList, .over .first "print".toList⟩, ⟨kind, text, .over ⟨1, 7⟩ text⟩]
      [.printStmt node (some (.ofSpan (.over .first ("print ".toList ++ text))))] where
  scans := by
    have apart : IsApart (' ' :: text) := fun c first => (Option.some.inj first).symm
    have printed : Scans .operand ⟨1, 6⟩ ([' '] ++ text) [⟨kind, text, .over ⟨1, 7⟩ text⟩] :=
      .prepend (List.forall_mem_singleton.mpr rfl)
        (.single ⟨1, 7⟩ (Token.lexeme?_textOf begins textOf nofun) textOf.first)
    exact .first (Token.lexeme?_textOf rfl (.word .print) apart) (IsTextOf.word .print).first printed
  literals := by
    refine List.forall_mem_cons.mpr ⟨rfl, List.forall_mem_singleton.mpr ?_⟩
    exact Token.literalFault?_textOf textOf
  derived := .last (.print rfl ((Expr.leaf alone).weaken (Nat.zero_le _)))

/-- Digits behind a minus sign are a negation, for a program begins with no range bound. -/
theorem reads_negation (allDigits : IsDigits digits) (short : digits.length ≤ Integer.digitLimit) :
    let operand := Node.intLiteral (Token.intValue digits) (some (.ofSpan (.over ⟨1, 2⟩ digits)))
    let loc := some (Loc.ofSpan (.over .first ('-' :: digits)))
    Reads ('-' :: digits) [⟨.mark .minus, ['-'], .over .first ['-']⟩, ⟨.int, digits, .over ⟨1, 2⟩ digits⟩]
      [.exprStmt (.unary (.str "-") operand loc) loc] := by
  intro operand loc
  have textOf : IsTextOf .int digits := .int allDigits short
  have number : Scans .operand ⟨1, 2⟩ digits [⟨.int, digits, .over ⟨1, 2⟩ digits⟩] :=
    .single ⟨1, 2⟩ (Token.lexeme?_textOf rfl textOf nofun) textOf.first
  have negation : Expr Grammar.unaryRank [⟨.mark .minus, ['-'], .over .first ['-']⟩, ⟨.int, digits, .over ⟨1, 2⟩ digits⟩]
      (.unary (.str "-") operand loc, .over .first ('-' :: digits)) :=
    .sign (.inr rfl) ((Expr.leaf rfl).weaken (by decide))
  have sign : Token.lexeme? Mode.program.accepts (['-'] ++ digits) = some (.mark .minus, ['-']) :=
    Token.lexeme?_minus rfl digits
  refine ⟨.first sign (IsTextOf.mark .minus).first number, ?_, .last (.expr (negation.weaken (Nat.zero_le _)))⟩
  refine List.forall_mem_cons.mpr ⟨rfl, List.forall_mem_singleton.mpr ?_⟩
  exact Token.literalFault?_textOf textOf

theorem parse_leaf (begins : Mode.program.accepts kind) (textOf : IsTextOf kind source.toList)
    (alone : leaf? ⟨kind, source.toList, .over .first source.toList⟩ = some node) :
    parse source = .ok [.exprStmt node (some (.ofSource source))] :=
  (reads_leaf begins textOf alone).parse_kept (Source.isKept_textOf textOf nofun)

section Strings

variable (s : String)

theorem leaf?_literalOf (span : Span) :
    leaf? ⟨.string, (literalOf s).toList, span⟩ = some (.strLiteral (.str s) (some (.ofSpan span))) := by
  rw [leaf?, Token.stringValue?_literalOf]
  rfl

/-- The literal of a text is a program that has the text as its value. -/
theorem parse_literalOf :
    parse (literalOf s) =
      .ok [.exprStmt (.strLiteral (.str s) (some (.ofSource (literalOf s)))) (some (.ofSource (literalOf s)))] :=
  parse_leaf rfl (Token.isTextOf_literalOf s) (leaf?_literalOf s _)

/-- So is the literal behind the word that prints it. -/
theorem parse_print_literalOf : ∃ inner loc,
    parse ("print " ++ literalOf s) = .ok [.printStmt (.strLiteral (.str s) inner) loc] := by
  have textOf := Token.isTextOf_literalOf s
  have reads := reads_print rfl textOf (leaf?_literalOf s _)
  have kept : IsKept ("print ".toList ++ (literalOf s).toList) [] :=
    (Source.isKept_plain (by decide) _).append (Source.isKept_textOf textOf nofun)
  rw [← String.toList_append] at reads kept
  exact ⟨_, _, reads.parse_kept kept⟩

end Strings

section Integers

theorem isDigits_toDigits (n : Nat) : IsDigits (Nat.toDigits 10 n) :=
  ⟨Nat.toDigits_ne_nil, fun _ member => Text.isDigit_of_isDigit (Integer.toDigits_isDigit member)⟩

theorem intValue_toDigits (n : Nat) : Token.intValue (Nat.toDigits 10 n) = n := by
  rw [Token.intValue, Token.splitSign_digits (isDigits_toDigits n)]
  exact congrArg Int.ofNat (Integer.digitsValue_toDigits n)

variable {n : Int} (short : (Nat.toDigits 10 n.natAbs).length ≤ Integer.digitLimit)

include short

/-- A number without sign is a program. -/
theorem parse_nonneg (nonneg : 0 ≤ n) : ∃ inner loc, parse (toString n) = .ok [.exprStmt (.intLiteral n inner) loc] := by
  have text : (toString n).toList = Nat.toDigits 10 n.natAbs := by
    rw [Integer.toList_toString, if_neg (by omega), List.nil_append]
  have textOf : IsTextOf .int (toString n).toList := text ▸ .int (isDigits_toDigits _) short
  have value : Token.intValue (toString n).toList = n := by
    rw [text, intValue_toDigits]
    omega
  have alone (span : Span) : leaf? ⟨.int, (toString n).toList, span⟩ = some (.intLiteral n (some (.ofSpan span))) := by
    rw [leaf?, value]
  exact ⟨_, _, parse_leaf rfl textOf (alone _)⟩

/-- A number with a minus sign is the negation of its size. -/
theorem parse_negative (negative : n < 0) :
    let loc := some (Loc.ofSource (toString n))
    ∃ inner, parse (toString n) = .ok [.exprStmt (.unary (.str "-") (.intLiteral (-n) inner) loc) loc] := by
  have text : (toString n).toList = '-' :: Nat.toDigits 10 n.natAbs := by
    rw [Integer.toList_toString, if_pos negative, List.singleton_append]
  have kept : IsKept (toString n).toList [] :=
    text ▸ Source.isKept_textOf (.negative (isDigits_toDigits _) short) nofun
  have size : (n.natAbs : Int) = -n := by omega
  have reads := reads_negation (isDigits_toDigits n.natAbs) short
  rw [intValue_toDigits, size, ← text] at reads
  exact ⟨_, reads.parse_kept kept⟩

end Integers

end Program

end PhyLang
