import PhyLang.Proofs.Ast.Unlocated
import PhyLang.Proofs.Grammar.Derivation
import PhyLang.Proofs.Token.Written

namespace PhyLang.Grammar

open Node (SameTree SameTrees)
open Source (Span)
open Token (spelling)

/-- Whether tokens are of the same kinds and texts, one by one. -/
def Alike (moved tokens : List Token) : Prop := moved.map spelling = tokens.map spelling

namespace Alike

variable {moved tokens later : List Token}

theorem eq_nil (alike : Alike moved []) : moved = [] := List.map_eq_nil_iff.mp alike

theorem cons {token : Token} (alike : Alike moved (token :: tokens)) :
    ∃ first rest, moved = first :: rest ∧ first.kind = token.kind ∧ first.text = token.text ∧ Alike rest tokens := by
  obtain ⟨first, rest, rfl, same, sameRest⟩ := List.map_eq_cons_iff.mp alike
  obtain ⟨kind, text⟩ := Prod.mk.inj same
  exact ⟨first, rest, rfl, kind, text, sameRest⟩

theorem append (alike : Alike moved (tokens ++ later)) :
    ∃ first rest, moved = first ++ rest ∧ Alike first tokens ∧ Alike rest later := by
  unfold Alike at alike
  rw [List.map_append] at alike
  obtain ⟨first, rest, rfl, same, sameRest⟩ := List.map_eq_append_iff.mp alike
  exact ⟨first, rest, rfl, same, sameRest⟩

theorem single {token : Token} (alike : Alike moved [token]) :
    ∃ first, moved = [first] ∧ first.kind = token.kind ∧ first.text = token.text := by
  obtain ⟨first, rest, rfl, kind, text, none⟩ := alike.cons
  rw [none.eq_nil]
  exact ⟨first, rfl, kind, text⟩

end Alike

theorem textOf_congr {first token : Token} (text : first.text = token.text) : textOf first = textOf token := by
  rw [textOf, textOf, text]

theorem joined_sameTree {level : Level} {first operator : Token} {left right otherLeft otherRight : Node × Span}
    (text : first.text = operator.text) (sameLeft : SameTree otherLeft.1 left.1)
    (sameRight : SameTree otherRight.1 right.1) :
    SameTree (joined level first otherLeft otherRight).1 (joined level operator left right).1 := by
  unfold SameTree joined
  unfold SameTree at sameLeft sameRight
  simp only [textOf_congr text]
  split
  · simp only [Node.unlocated, sameLeft, sameRight]
  · simp only [Node.unlocated, sameLeft, sameRight]

theorem leaf?_sameTree {first token : Token} {node : Node} (kind : first.kind = token.kind)
    (text : first.text = token.text) (alone : leaf? token = some node) :
    ∃ other, leaf? first = some other ∧ SameTree other node := by
  unfold leaf? at alone ⊢
  rw [kind, text, textOf_congr text]
  split at alone
  next => cases alone; exact ⟨_, rfl, rfl⟩
  next => cases alone; exact ⟨_, rfl, rfl⟩
  next => cases alone; exact ⟨_, rfl, rfl⟩
  next => cases alone; exact ⟨_, rfl, rfl⟩
  next => cases alone

mutual

/-- What an expression derives does not depend on where its tokens stand. -/
theorem Expr.relocated {rank : Nat} {moved tokens : List Token} {expr : Node × Span} (alike : Alike moved tokens) :
    Expr rank tokens expr → ∃ other, Expr rank moved other ∧ SameTree other.1 expr.1
  | .assign name equals inner => by
    obtain ⟨target, after, rfl, targetKind, targetText, alikeAfter⟩ := alike.cons
    obtain ⟨sign, rest, rfl, signKind, -, alikeRest⟩ := alikeAfter.cons
    obtain ⟨value, derived, same⟩ := inner.relocated alikeRest
    refine ⟨_, .assign (targetKind.trans name) (signKind.trans equals) derived, ?_⟩
    simp only [SameTree, Node.unlocated, textOf_congr targetText] at same ⊢
    rw [same]
  | .looser inner => by
    obtain ⟨other, derived, same⟩ := inner.relocated alike
    exact ⟨other, .looser derived, same⟩
  | .join joins left right => by
    obtain ⟨first, rest, rfl, alikeFirst, alikeRest⟩ := alike.append
    obtain ⟨operator, later, rfl, kind, text, alikeLater⟩ := alikeRest.cons
    obtain ⟨otherLeft, derivedLeft, sameLeft⟩ := left.relocated alikeFirst
    obtain ⟨otherRight, derivedRight, sameRight⟩ := right.relocated alikeLater
    exact ⟨_, .join (kind ▸ joins) derivedLeft derivedRight, joined_sameTree text sameLeft sameRight⟩
  | .sign signs inner => by
    obtain ⟨operator, rest, rfl, kind, text, alikeRest⟩ := alike.cons
    obtain ⟨other, derived, same⟩ := inner.relocated alikeRest
    refine ⟨_, .sign (kind ▸ signs) derived, ?_⟩
    simp only [SameTree, Node.unlocated, textOf_congr text] at same ⊢
    rw [same]
  | .call opens closes callee args => by
    obtain ⟨before, last, rfl, alikeBefore, alikeLast⟩ := alike.append
    obtain ⟨first, rest, rfl, alikeFirst, alikeRest⟩ := alikeBefore.append
    obtain ⟨opening, inside, rfl, openKind, -, alikeInside⟩ := alikeRest.cons
    obtain ⟨closing, rfl, closeKind, -⟩ := alikeLast.single
    obtain ⟨other, derived, same⟩ := callee.relocated alikeFirst
    obtain ⟨others, derivedArgs, sameArgs⟩ := args.relocated alikeInside
    refine ⟨_, .call (openKind.trans opens) (closeKind.trans closes) derived derivedArgs, ?_⟩
    simp only [SameTree, SameTrees, Node.unlocated] at same sameArgs ⊢
    rw [same, sameArgs]
  | .grouping opens closes inner => by
    obtain ⟨before, last, rfl, alikeBefore, alikeLast⟩ := alike.append
    obtain ⟨opening, inside, rfl, openKind, -, alikeInside⟩ := alikeBefore.cons
    obtain ⟨closing, rfl, closeKind, -⟩ := alikeLast.single
    obtain ⟨other, derived, same⟩ := inner.relocated alikeInside
    refine ⟨_, .grouping (openKind.trans opens) (closeKind.trans closes) derived, ?_⟩
    simp only [SameTree, Node.unlocated] at same ⊢
    rw [same]
  | .leaf alone => by
    obtain ⟨first, rfl, kind, text⟩ := alike.single
    obtain ⟨other, found, same⟩ := leaf?_sameTree kind text alone
    exact ⟨_, .leaf found, same⟩

theorem Args.relocated {moved tokens : List Token} {args : List Node} (alike : Alike moved tokens) :
    Args tokens args → ∃ others, Args moved others ∧ SameTrees others args
  | .none => by
    rw [alike.eq_nil]
    exact ⟨_, .none, rfl⟩
  | .some arg later => by
    obtain ⟨first, rest, rfl, alikeFirst, alikeRest⟩ := alike.append
    obtain ⟨other, derived, same⟩ := arg.relocated alikeFirst
    obtain ⟨others, derivedLater, sameLater⟩ := later.relocated alikeRest
    exact ⟨_, .some derived derivedLater, congrArg₂ List.cons same sameLater⟩

theorem MoreArgs.relocated {moved tokens : List Token} {args : List Node} (alike : Alike moved tokens) :
    MoreArgs tokens args → ∃ others, MoreArgs moved others ∧ SameTrees others args
  | .none => by
    rw [alike.eq_nil]
    exact ⟨_, .none, rfl⟩
  | .next separates arg later => by
    obtain ⟨before, rest, rfl, alikeBefore, alikeRest⟩ := alike.append
    obtain ⟨comma, first, rfl, kind, -, alikeFirst⟩ := alikeBefore.cons
    obtain ⟨other, derived, same⟩ := arg.relocated alikeFirst
    obtain ⟨others, derivedLater, sameLater⟩ := later.relocated alikeRest
    exact ⟨_, .next (kind.trans separates) derived derivedLater, congrArg₂ List.cons same sameLater⟩

end

section

variable {moved tokens : List Token}

theorem MoreParams.relocated {params : List Json} (alike : Alike moved tokens) (derived : MoreParams tokens params) :
    MoreParams moved params := by
  induction derived generalizing moved with
  | none =>
    rw [alike.eq_nil]
    exact .none
  | next separates name _ ih =>
    obtain ⟨comma, after, rfl, commaKind, -, alikeAfter⟩ := alike.cons
    obtain ⟨param, rest, rfl, paramKind, text, alikeRest⟩ := alikeAfter.cons
    rw [← textOf_congr text]
    exact .next (commaKind.trans separates) (paramKind.trans name) (ih alikeRest)

theorem Params.relocated {params : List Json} (alike : Alike moved tokens) (derived : Params tokens params) :
    Params moved params := by
  cases derived with
  | none =>
    rw [alike.eq_nil]
    exact .none
  | some name later =>
    obtain ⟨param, rest, rfl, kind, text, alikeRest⟩ := alike.cons
    rw [← textOf_congr text]
    exact .some (kind.trans name) (later.relocated alikeRest)

theorem Bounds.relocated {range : Json × Json} (alike : Alike moved tokens) (derived : Bounds tokens range) :
    Bounds moved range := by
  cases derived with
  | one bound =>
    obtain ⟨first, rfl, kind, text⟩ := alike.single
    rw [← text]
    exact .one (kind.trans bound)
  | two bound separates secondBound =>
    obtain ⟨first, after, rfl, firstKind, firstText, alikeAfter⟩ := alike.cons
    obtain ⟨range, last, rfl, rangeKind, -, alikeLast⟩ := alikeAfter.cons
    obtain ⟨second, rfl, secondKind, secondText⟩ := alikeLast.single
    rw [← firstText, ← secondText]
    exact .two (firstKind.trans bound) (rangeKind.trans separates) (secondKind.trans secondBound)

theorem Simple.relocated {node : Node} (alike : Alike moved tokens) (derived : Simple tokens node) :
    ∃ other, Simple moved other ∧ SameTree other node := by
  cases derived with
  | print begins inner =>
    obtain ⟨word, rest, rfl, kind, -, alikeRest⟩ := alike.cons
    obtain ⟨other, derived, same⟩ := inner.relocated alikeRest
    refine ⟨_, .print (kind.trans begins) derived, ?_⟩
    simp only [SameTree, Node.unlocated] at same ⊢
    rw [same]
  | declare begins name equals inner =>
    obtain ⟨word, after, rfl, kind, -, alikeAfter⟩ := alike.cons
    obtain ⟨target, signed, rfl, targetKind, targetText, alikeSigned⟩ := alikeAfter.cons
    obtain ⟨sign, rest, rfl, signKind, -, alikeRest⟩ := alikeSigned.cons
    obtain ⟨other, derived, same⟩ := inner.relocated alikeRest
    refine ⟨_, .declare (kind.trans begins) (targetKind.trans name) (signKind.trans equals) derived, ?_⟩
    simp only [SameTree, Node.unlocated, textOf_congr targetText] at same ⊢
    rw [same]
  | declareEmpty begins name =>
    obtain ⟨word, after, rfl, kind, -, alikeAfter⟩ := alike.cons
    obtain ⟨target, rfl, targetKind, targetText⟩ := alikeAfter.single
    refine ⟨_, .declareEmpty (kind.trans begins) (targetKind.trans name), ?_⟩
    simp only [SameTree, Node.unlocated, textOf_congr targetText]
  | «return» begins inner =>
    obtain ⟨word, rest, rfl, kind, -, alikeRest⟩ := alike.cons
    obtain ⟨other, derived, same⟩ := inner.relocated alikeRest
    refine ⟨_, .return (kind.trans begins) derived, ?_⟩
    simp only [SameTree, Node.unlocated] at same ⊢
    rw [same]
  | returnEmpty begins =>
    obtain ⟨word, rfl, kind, -⟩ := alike.single
    exact ⟨_, .returnEmpty (kind.trans begins), rfl⟩
  | expr inner =>
    obtain ⟨other, derived, same⟩ := inner.relocated alike
    refine ⟨_, .expr derived, ?_⟩
    simp only [SameTree, Node.unlocated] at same ⊢
    rw [same]

end

mutual

/-- What statements derive does not depend on where their tokens stand. -/
theorem Statements.relocated {moved tokens : List Token} {nodes : List Node} (alike : Alike moved tokens) :
    Statements tokens nodes → ∃ others, Statements moved others ∧ SameTrees others nodes
  | .none => by
    rw [alike.eq_nil]
    exact ⟨_, .none, rfl⟩
  | .last only => by
    obtain ⟨other, derived, same⟩ := only.relocated alike
    exact ⟨_, .last derived, congrArg (List.cons · []) same⟩
  | .semicolon ends later => by
    obtain ⟨mark, rest, rfl, kind, -, alikeRest⟩ := alike.cons
    obtain ⟨others, derived, same⟩ := later.relocated alikeRest
    exact ⟨others, .semicolon (kind.trans ends) derived, same⟩
  | .simple first ends later => by
    obtain ⟨before, after, rfl, alikeBefore, alikeAfter⟩ := alike.append
    obtain ⟨mark, rest, rfl, kind, -, alikeRest⟩ := alikeAfter.cons
    obtain ⟨other, derived, same⟩ := first.relocated alikeBefore
    obtain ⟨others, derivedLater, sameLater⟩ := later.relocated alikeRest
    exact ⟨_, .simple derived (kind.trans ends) derivedLater, congrArg₂ List.cons same sameLater⟩
  | .compound first later => by
    obtain ⟨before, after, rfl, alikeBefore, alikeAfter⟩ := alike.append
    obtain ⟨other, derived, same⟩ := first.relocated alikeBefore
    obtain ⟨others, derivedLater, sameLater⟩ := later.relocated alikeAfter
    exact ⟨_, .compound derived derivedLater, congrArg₂ List.cons same sameLater⟩

theorem Block.relocated {moved tokens : List Token} {body : List Node × Span} (alike : Alike moved tokens) :
    Block tokens body → ∃ other, Block moved other ∧ SameTrees other.1 body.1
  | .curly opens closes inner => by
    obtain ⟨before, last, rfl, alikeBefore, alikeLast⟩ := alike.append
    obtain ⟨opening, inside, rfl, openKind, -, alikeInside⟩ := alikeBefore.cons
    obtain ⟨closing, rfl, closeKind, -⟩ := alikeLast.single
    obtain ⟨others, derived, same⟩ := inner.relocated alikeInside
    exact ⟨_, .curly (openKind.trans opens) (closeKind.trans closes) derived, same⟩

theorem Compound.relocated {moved tokens : List Token} {node : Node × Span} (alike : Alike moved tokens) :
    Compound tokens node → ∃ other, Compound moved other ∧ SameTree other.1 node.1
  | .if begins condition body => by
    obtain ⟨before, last, rfl, alikeBefore, alikeLast⟩ := alike.append
    obtain ⟨word, rest, rfl, kind, -, alikeRest⟩ := alikeBefore.cons
    obtain ⟨other, derived, same⟩ := condition.relocated alikeRest
    obtain ⟨others, derivedBody, sameBody⟩ := body.relocated alikeLast
    refine ⟨_, .if (kind.trans begins) derived derivedBody, ?_⟩
    simp only [SameTree, SameTrees, Node.unlocated] at same sameBody ⊢
    rw [same, sameBody]
  | .ifElse begins condition body other => by
    obtain ⟨before, last, rfl, alikeBefore, alikeLast⟩ := alike.append
    obtain ⟨first, middle, rfl, alikeFirst, alikeMiddle⟩ := alikeBefore.append
    obtain ⟨word, rest, rfl, kind, -, alikeRest⟩ := alikeFirst.cons
    obtain ⟨_, derived, same⟩ := condition.relocated alikeRest
    obtain ⟨_, derivedBody, sameBody⟩ := body.relocated alikeMiddle
    obtain ⟨_, derivedOther, sameOther⟩ := other.relocated alikeLast
    refine ⟨_, .ifElse (kind.trans begins) derived derivedBody derivedOther, ?_⟩
    simp only [SameTree, SameTrees, Node.unlocated] at same sameBody sameOther ⊢
    rw [same, sameBody, sameOther]
  | .while begins condition body => by
    obtain ⟨before, last, rfl, alikeBefore, alikeLast⟩ := alike.append
    obtain ⟨word, rest, rfl, kind, -, alikeRest⟩ := alikeBefore.cons
    obtain ⟨_, derived, same⟩ := condition.relocated alikeRest
    obtain ⟨_, derivedBody, sameBody⟩ := body.relocated alikeLast
    refine ⟨_, .while (kind.trans begins) derived derivedBody, ?_⟩
    simp only [SameTree, SameTrees, Node.unlocated] at same sameBody ⊢
    rw [same, sameBody]
  | .for begins name within range body => by
    obtain ⟨before, last, rfl, alikeBefore, alikeLast⟩ := alike.append
    obtain ⟨word, named, rfl, kind, -, alikeNamed⟩ := alikeBefore.cons
    obtain ⟨target, member, rfl, targetKind, targetText, alikeMember⟩ := alikeNamed.cons
    obtain ⟨inside, rest, rfl, insideKind, -, alikeRest⟩ := alikeMember.cons
    obtain ⟨_, derivedBody, sameBody⟩ := body.relocated alikeLast
    have bounded := range.relocated alikeRest
    refine ⟨_, .for (kind.trans begins) (targetKind.trans name) (insideKind.trans within) bounded derivedBody, ?_⟩
    simp only [SameTree, SameTrees, Node.unlocated, textOf_congr targetText] at sameBody ⊢
    rw [sameBody]
  | .function begins name opens closes params body => by
    obtain ⟨before, last, rfl, alikeBefore, alikeLast⟩ := alike.append
    obtain ⟨word, named, rfl, kind, -, alikeNamed⟩ := alikeBefore.cons
    obtain ⟨target, bracket, rfl, targetKind, targetText, alikeBracket⟩ := alikeNamed.cons
    obtain ⟨opening, rest, rfl, openKind, -, alikeRest⟩ := alikeBracket.cons
    obtain ⟨closing, bodyTokens, rfl, closeKind, -, alikeBody⟩ := alikeLast.cons
    obtain ⟨_, derivedBody, sameBody⟩ := body.relocated alikeBody
    refine ⟨_, .function (kind.trans begins) (targetKind.trans name) (openKind.trans opens) (closeKind.trans closes)
      (params.relocated alikeRest) derivedBody, ?_⟩
    simp only [SameTree, SameTrees, Node.unlocated, textOf_congr targetText] at sameBody ⊢
    rw [sameBody]
  | .block body => by
    obtain ⟨_, derivedBody, sameBody⟩ := body.relocated alike
    refine ⟨_, .block derivedBody, ?_⟩
    simp only [SameTree, SameTrees, Node.unlocated] at sameBody ⊢
    rw [sameBody]

theorem Alternative.relocated {moved tokens : List Token} {node : Node × Span} (alike : Alike moved tokens) :
    Alternative tokens node → ∃ other, Alternative moved other ∧ SameTree other.1 node.1
  | .else begins branch inner => by
    obtain ⟨word, rest, rfl, kind, -, alikeRest⟩ := alike.cons
    obtain ⟨other, derived, same⟩ := inner.relocated alikeRest
    obtain ⟨first, later, rfl, firstKind, -, -⟩ := alikeRest.cons
    exact ⟨other, .else (kind.trans begins) (firstKind ▸ branch) derived, same⟩

end

end PhyLang.Grammar
