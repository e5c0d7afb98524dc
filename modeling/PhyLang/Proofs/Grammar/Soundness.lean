import PhyLang.Proofs.Grammar.First

namespace PhyLang.Grammar

open Source (Span)

theorem bind_ok {α β : Type} {first : Reading α} {next : α → Reading β} {result : β}
    (read : first >>= next = .ok result) : ∃ value, first = .ok value ∧ next value = .ok result := by
  cases first with
  | error left => cases read
  | ok value => exact ⟨value, rfl, read⟩

theorem kind_of_isMark {m : Mark} {token : Token} (is : isMark m token) : token.kind = .mark m := eq_of_beq is

theorem kind_of_isWord {w : Word} {token : Token} (is : isWord w token) : token.kind = .word w := eq_of_beq is

theorem expect_ok {fits : Token → Bool} {tokens rest : List Token} {token : Token}
    (read : expect fits tokens = .ok (token, rest)) : tokens = token :: rest ∧ fits token := by
  unfold expect at read
  split at read
  · split at read
    · rename_i first later fitting
      cases read
      exact ⟨rfl, fitting⟩
    · cases read
  · cases read

/-- The lowest rank of the operands that stand below a level, or of unary expressions. -/
def rankOf (level : Option Level) : Nat := level.elim unaryRank Level.rank

theorem rankOf_tighter (level : Level) : rankOf level.tighter = level.rank + 1 := by
  cases level <;> rfl

/-- Whether the functions for expressions read with this fuel only what the grammar derives. -/
structure ExprSound (fuel : Nat) : Prop where
  expression : ∀ {tokens rest expr}, expression fuel tokens = .ok (expr, rest) →
    ∃ used, tokens = used ++ rest ∧ Expr 0 used expr
  operand : ∀ {level tokens rest expr}, operand fuel level tokens = .ok (expr, rest) →
    ∃ used, tokens = used ++ rest ∧ Expr (rankOf level) used expr
  chain : ∀ {level before left tokens rest expr}, Expr level.rank before left →
    chain fuel level left tokens = .ok (expr, rest) →
    ∃ used, tokens = used ++ rest ∧ Expr level.rank (before ++ used) expr
  unary : ∀ {tokens rest expr}, unary fuel tokens = .ok (expr, rest) →
    ∃ used, tokens = used ++ rest ∧ Expr unaryRank used expr
  primary : ∀ {tokens rest expr}, primary fuel tokens = .ok (expr, rest) →
    ∃ used, tokens = used ++ rest ∧ Expr primaryRank used expr
  calls : ∀ {before callee tokens rest expr}, Expr callRank before callee →
    calls fuel callee tokens = .ok (expr, rest) →
    ∃ used, tokens = used ++ rest ∧ Expr callRank (before ++ used) expr
  arguments : ∀ {tokens rest args}, arguments fuel tokens = .ok (args, rest) →
    ∃ used, tokens = used ++ rest ∧ Args used args
  moreArguments : ∀ {tokens rest args}, moreArguments fuel tokens = .ok (args, rest) →
    ∃ used, tokens = used ++ rest ∧ MoreArgs used args

variable {fuel : Nat}

theorem expression_sound (sound : ExprSound fuel) {tokens rest : List Token} {expr : Node × Span}
    (read : expression (fuel + 1) tokens = .ok (expr, rest)) : ∃ used, tokens = used ++ rest ∧ Expr 0 used expr := by
  have lowest : ∀ {tokens}, operand fuel (some .or) tokens = .ok (expr, rest) →
      ∃ used, tokens = used ++ rest ∧ Expr 0 used expr := by
    intro tokens read
    obtain ⟨used, split, derived⟩ := sound.operand read
    exact ⟨used, split, .looser derived⟩
  rcases tokens with - | ⟨name, - | ⟨sign, later⟩⟩
  · exact lowest read
  · exact lowest read
  · rw [expression] at read
    split at read
    · rename_i assigns
      simp only [Bool.and_eq_true, beq_iff_eq] at assigns
      obtain ⟨⟨value, after⟩, readValue, done⟩ := bind_ok read
      obtain ⟨used, split, derived⟩ := sound.expression readValue
      cases done
      exact ⟨name :: sign :: used, by rw [split]; rfl, .assign assigns.1 (kind_of_isMark assigns.2) derived⟩
    · exact lowest read

theorem operand_sound (sound : ExprSound fuel) {level : Option Level} {tokens rest : List Token} {expr : Node × Span}
    (read : operand (fuel + 1) level tokens = .ok (expr, rest)) :
    ∃ used, tokens = used ++ rest ∧ Expr (rankOf level) used expr := by
  cases level with
  | none => exact sound.unary read
  | some level =>
    rw [operand] at read
    obtain ⟨⟨left, after⟩, readLeft, readChain⟩ := bind_ok read
    obtain ⟨before, splitLeft, derivedLeft⟩ := sound.operand readLeft
    rw [rankOf_tighter] at derivedLeft
    obtain ⟨used, split, derived⟩ := sound.chain (.looser derivedLeft) readChain
    exact ⟨before ++ used, by rw [splitLeft, split, List.append_assoc], derived⟩

theorem chain_sound (sound : ExprSound fuel) {level : Level} {before tokens rest : List Token}
    {left expr : Node × Span} (derivedLeft : Expr level.rank before left)
    (read : chain (fuel + 1) level left tokens = .ok (expr, rest)) :
    ∃ used, tokens = used ++ rest ∧ Expr level.rank (before ++ used) expr := by
  cases tokens with
  | nil =>
    cases read
    exact ⟨[], rfl, by rwa [List.append_nil]⟩
  | cons operator later =>
    rw [chain] at read
    split at read
    · rename_i joins
      -- What is joined so far is the left operand of the next operator.
      obtain ⟨⟨right, after⟩, readRight, readChain⟩ := bind_ok read
      obtain ⟨rightTokens, splitRight, derivedRight⟩ := sound.operand readRight
      rw [rankOf_tighter] at derivedRight
      obtain ⟨used, split, derived⟩ := sound.chain (.join joins derivedLeft derivedRight) readChain
      refine ⟨operator :: rightTokens ++ used, ?_, ?_⟩
      · rw [splitRight, split, List.cons_append, List.cons_append, List.append_assoc]
      · rwa [List.append_assoc] at derived
    · cases read
      exact ⟨[], rfl, by rwa [List.append_nil]⟩

theorem unary_sound (sound : ExprSound fuel) {tokens rest : List Token} {expr : Node × Span}
    (read : unary (fuel + 1) tokens = .ok (expr, rest)) :
    ∃ used, tokens = used ++ rest ∧ Expr unaryRank used expr := by
  cases tokens with
  | nil => cases read
  | cons token later =>
    rw [unary] at read
    split at read
    · rename_i signs
      rw [Bool.or_eq_true] at signs
      obtain ⟨⟨right, after⟩, readRight, done⟩ := bind_ok read
      obtain ⟨used, split, derived⟩ := sound.unary readRight
      cases done
      exact ⟨token :: used, by rw [split]; rfl, .sign (signs.imp kind_of_isMark kind_of_isMark) derived⟩
    · obtain ⟨⟨callee, after⟩, readCallee, readCalls⟩ := bind_ok read
      obtain ⟨before, splitCallee, derivedCallee⟩ := sound.primary readCallee
      obtain ⟨used, split, derived⟩ := sound.calls (.looser derivedCallee) readCalls
      exact ⟨before ++ used, by rw [splitCallee, split, List.append_assoc], .looser derived⟩

theorem primary_sound (sound : ExprSound fuel) {tokens rest : List Token} {expr : Node × Span}
    (read : primary (fuel + 1) tokens = .ok (expr, rest)) :
    ∃ used, tokens = used ++ rest ∧ Expr primaryRank used expr := by
  cases tokens with
  | nil => cases read
  | cons token later =>
    rw [primary] at read
    split at read
    · rename_i opens
      obtain ⟨⟨inner, after⟩, readInner, readClose⟩ := bind_ok read
      obtain ⟨⟨closing, left⟩, close, done⟩ := bind_ok readClose
      obtain ⟨used, split, derived⟩ := sound.expression readInner
      obtain ⟨splitClose, closes⟩ := expect_ok close
      cases done
      refine ⟨token :: used ++ [closing], ?_, .grouping (kind_of_isMark opens) (kind_of_isMark closes) derived⟩
      rw [split, splitClose, List.cons_append, List.cons_append, List.append_assoc, List.singleton_append]
    · split at read
      · rename_i node alone
        cases read
        exact ⟨[token], rfl, .leaf alone⟩
      · cases read

theorem calls_sound (sound : ExprSound fuel) {before tokens rest : List Token} {callee expr : Node × Span}
    (derivedCallee : Expr callRank before callee)
    (read : calls (fuel + 1) callee tokens = .ok (expr, rest)) :
    ∃ used, tokens = used ++ rest ∧ Expr callRank (before ++ used) expr := by
  cases tokens with
  | nil =>
    cases read
    exact ⟨[], rfl, by rwa [List.append_nil]⟩
  | cons token later =>
    rw [calls] at read
    split at read
    · rename_i opens
      obtain ⟨⟨args, after⟩, readArgs, readClose⟩ := bind_ok read
      obtain ⟨⟨closing, left⟩, close, readCalls⟩ := bind_ok readClose
      obtain ⟨argTokens, splitArgs, derivedArgs⟩ := sound.arguments readArgs
      obtain ⟨splitClose, closes⟩ := expect_ok close
      obtain ⟨used, split, derived⟩ :=
        sound.calls (.call (kind_of_isMark opens) (kind_of_isMark closes) derivedCallee derivedArgs) readCalls
      refine ⟨token :: argTokens ++ [closing] ++ used, ?_, ?_⟩
      · rw [splitArgs, splitClose, split]
        simp
      · simpa using derived
    · cases read
      exact ⟨[], rfl, by rwa [List.append_nil]⟩

theorem arguments_sound (sound : ExprSound fuel) {tokens rest : List Token} {args : List Node}
    (read : arguments (fuel + 1) tokens = .ok (args, rest)) : ∃ used, tokens = used ++ rest ∧ Args used args := by
  cases tokens with
  | nil => cases read
  | cons token later =>
    rw [arguments] at read
    split at read
    · cases read
      exact ⟨[], rfl, .none⟩
    · obtain ⟨⟨arg, after⟩, readArg, readMore⟩ := bind_ok read
      obtain ⟨⟨others, left⟩, readOthers, done⟩ := bind_ok readMore
      obtain ⟨argTokens, splitArg, derivedArg⟩ := sound.expression readArg
      obtain ⟨used, split, derived⟩ := sound.moreArguments readOthers
      cases done
      exact ⟨argTokens ++ used, by rw [splitArg, split, List.append_assoc], .some derivedArg derived⟩

theorem moreArguments_sound (sound : ExprSound fuel) {tokens rest : List Token} {args : List Node}
    (read : moreArguments (fuel + 1) tokens = .ok (args, rest)) :
    ∃ used, tokens = used ++ rest ∧ MoreArgs used args := by
  cases tokens with
  | nil =>
    cases read
    exact ⟨[], rfl, .none⟩
  | cons token later =>
    rw [moreArguments] at read
    split at read
    · rename_i separates
      obtain ⟨⟨arg, after⟩, readArg, readMore⟩ := bind_ok read
      obtain ⟨⟨others, left⟩, readOthers, done⟩ := bind_ok readMore
      obtain ⟨argTokens, splitArg, derivedArg⟩ := sound.expression readArg
      obtain ⟨used, split, derived⟩ := sound.moreArguments readOthers
      cases done
      refine ⟨token :: argTokens ++ used, ?_, .next (kind_of_isMark separates) derivedArg derived⟩
      rw [splitArg, split, List.cons_append, List.cons_append, List.append_assoc]
    · cases read
      exact ⟨[], rfl, .none⟩

/-- What the functions for expressions read is derived, whatever the fuel. -/
theorem exprSound (fuel : Nat) : ExprSound fuel := by
  induction fuel with
  | zero => constructor <;> (intros; contradiction)
  | succ fuel sound =>
    exact ⟨expression_sound sound, operand_sound sound, chain_sound sound, unary_sound sound, primary_sound sound,
      calls_sound sound, arguments_sound sound, moreArguments_sound sound⟩

theorem expression_derived {tokens rest : List Token} {expr : Node × Span}
    (read : expression fuel tokens = .ok (expr, rest)) : ∃ used, tokens = used ++ rest ∧ Expr 0 used expr :=
  (exprSound fuel).expression read

theorem bounds_derived {tokens rest : List Token} {range : Json × Json} (read : bounds tokens = .ok (range, rest)) :
    ∃ used, tokens = used ++ rest ∧ Bounds used range := by
  have bound_ok : ∀ {tokens rest n}, bound tokens = .ok (n, rest) →
      ∃ token, tokens = token :: rest ∧ token.kind = .bound ∧ n = Token.intValue token.text := by
    intro tokens rest n read
    obtain ⟨⟨token, later⟩, found, done⟩ := bind_ok read
    obtain ⟨split, fits⟩ := expect_ok found
    cases done
    exact ⟨token, split, eq_of_beq fits, rfl⟩
  obtain ⟨⟨n, later⟩, readFirst, readSecond⟩ := bind_ok read
  obtain ⟨first, split, bound, rfl⟩ := bound_ok readFirst
  cases later with
  | nil =>
    cases readSecond
    exact ⟨[first], split, .one bound⟩
  | cons token after =>
    simp only at readSecond
    split at readSecond
    · rename_i separates
      obtain ⟨⟨m, left⟩, read, done⟩ := bind_ok readSecond
      obtain ⟨second, splitSecond, secondBound, rfl⟩ := bound_ok read
      cases done
      exact ⟨[first, token, second], by rw [split, splitSecond]; rfl, .two bound (kind_of_isMark separates) secondBound⟩
    · cases readSecond
      exact ⟨[first], split, .one bound⟩

theorem moreParameters_derived {tokens rest : List Token} {params : List Json}
    (read : moreParameters tokens = .ok (params, rest)) : ∃ used, tokens = used ++ rest ∧ MoreParams used params := by
  fun_induction moreParameters tokens generalizing params rest with
  | case1 comma param later separates name ih =>
    obtain ⟨⟨others, left⟩, readOthers, done⟩ := bind_ok read
    obtain ⟨used, split, derived⟩ := ih readOthers
    cases done
    exact ⟨comma :: param :: used, by rw [split]; rfl, .next (kind_of_isMark separates) (eq_of_beq name) derived⟩
  | case2 comma param later separates other => cases read
  | case3 comma param later other =>
    cases read
    exact ⟨[], rfl, .none⟩
  | case4 comma separates => cases read
  | case5 comma other =>
    cases read
    exact ⟨[], rfl, .none⟩
  | case6 =>
    cases read
    exact ⟨[], rfl, .none⟩

theorem parameters_derived {tokens rest : List Token} {params : List Json}
    (read : parameters tokens = .ok (params, rest)) : ∃ used, tokens = used ++ rest ∧ Params used params := by
  cases tokens with
  | nil => cases read
  | cons token later =>
    rw [parameters] at read
    split at read
    · cases read
      exact ⟨[], rfl, .none⟩
    · split at read
      · rename_i name
        obtain ⟨⟨others, left⟩, readOthers, done⟩ := bind_ok read
        obtain ⟨used, split, derived⟩ := moreParameters_derived readOthers
        cases done
        exact ⟨token :: used, by rw [split]; rfl, .some (eq_of_beq name) derived⟩
      · cases read

theorem name_ok {tokens rest : List Token} {token : Token} (read : name tokens = .ok (token, rest)) :
    tokens = token :: rest ∧ token.kind = .name := by
  obtain ⟨split, fits⟩ := expect_ok read
  exact ⟨split, eq_of_beq fits⟩

theorem simple_derived {tokens rest : List Token} {node : Node} (read : simple fuel tokens = .ok (node, rest)) :
    ∃ used, tokens = used ++ rest ∧ Simple used node := by
  cases tokens with
  | nil => cases read
  | cons token later =>
    rw [simple] at read
    split at read
    · rename_i begins
      obtain ⟨⟨expr, after⟩, readExpr, done⟩ := bind_ok read
      obtain ⟨used, split, derived⟩ := expression_derived readExpr
      cases done
      exact ⟨token :: used, by rw [split]; rfl, .print begins derived⟩
    · rename_i begins
      obtain ⟨⟨target, after⟩, readName, readValue⟩ := bind_ok read
      obtain ⟨splitName, named⟩ := name_ok readName
      cases after with
      | nil =>
        cases readValue
        exact ⟨[token, target], by rw [splitName]; rfl, .declareEmpty begins named⟩
      | cons sign after =>
        simp only at readValue
        split at readValue
        · rename_i equals
          obtain ⟨⟨value, left⟩, readExpr, done⟩ := bind_ok readValue
          obtain ⟨used, split, derived⟩ := expression_derived readExpr
          cases done
          exact ⟨token :: target :: sign :: used, by rw [splitName, split]; rfl,
            .declare begins named (kind_of_isMark equals) derived⟩
        · cases readValue
          exact ⟨[token, target], by rw [splitName]; rfl, .declareEmpty begins named⟩
    · rename_i begins
      split at read
      · cases read
        exact ⟨[token], rfl, .returnEmpty begins⟩
      · obtain ⟨⟨value, after⟩, readValue, done⟩ := bind_ok read
        obtain ⟨used, split, derived⟩ := expression_derived readValue
        cases done
        exact ⟨token :: used, by rw [split]; rfl, .return begins derived⟩
    · obtain ⟨⟨expr, after⟩, readExpr, done⟩ := bind_ok read
      obtain ⟨used, split, derived⟩ := expression_derived readExpr
      cases done
      exact ⟨used, split, .expr derived⟩

/-- The tokens after the statements of a block begin with its closing bracket, and none are left after
those of a program. -/
def AtEnd (inBlock : Bool) (rest : List Token) : Prop :=
  if inBlock then ∃ closing later, rest = closing :: later ∧ closing.kind = .mark .closeCurly else rest = []

/-- Whether the functions for statements read with this fuel only what the grammar derives. -/
structure StatementSound (fuel : Nat) : Prop where
  statements : ∀ {inBlock tokens rest nodes}, statements fuel inBlock tokens = .ok (nodes, rest) →
    ∃ used, tokens = used ++ rest ∧ Statements used nodes ∧ AtEnd inBlock rest
  afterSimple : ∀ {inBlock tokens rest nodes}, afterSimple fuel inBlock tokens = .ok (nodes, rest) →
    AtEnd inBlock rest ∧ ((nodes = [] ∧ tokens = rest) ∨
      ∃ mark used, mark.kind = .mark .semicolon ∧ tokens = mark :: used ++ rest ∧ Statements used nodes)
  block : ∀ {tokens rest body}, block fuel tokens = .ok (body, rest) →
    ∃ used, tokens = used ++ rest ∧ Block used body
  compound : ∀ {tokens rest node}, compound fuel tokens = .ok (node, rest) →
    ∃ used, tokens = used ++ rest ∧ Compound used node
  alternative : ∀ {tokens rest other}, alternative fuel tokens = .ok (other, rest) →
    (other = none ∧ tokens = rest) ∨
      ∃ node used, other = some node ∧ tokens = used ++ rest ∧ Alternative used node

theorem statements_sound (sound : StatementSound fuel) {inBlock : Bool} {tokens rest : List Token}
    {nodes : List Node} (read : statements (fuel + 1) inBlock tokens = .ok (nodes, rest)) :
    ∃ used, tokens = used ++ rest ∧ Statements used nodes ∧ AtEnd inBlock rest := by
  cases tokens with
  | nil =>
    rw [statements] at read
    split at read
    · cases read
    · rename_i outside
      cases read
      exact ⟨[], rfl, .none, by rw [AtEnd, if_neg outside]⟩
  | cons token later =>
    rw [statements] at read
    split at read
    · rename_i ends
      obtain ⟨used, split, derived, last⟩ := sound.statements read
      exact ⟨token :: used, by rw [split]; rfl, .semicolon (kind_of_isMark ends) derived, last⟩
    · split at read
      · -- A closing brace ends the statements of a block, and is out of place elsewhere.
        rename_i closes
        split at read
        · rename_i inside
          cases read
          exact ⟨[], rfl, .none, by rw [AtEnd, if_pos inside]; exact ⟨_, _, rfl, kind_of_isMark closes⟩⟩
        · cases read
      · split at read
        · obtain ⟨⟨node, after⟩, readNode, readMore⟩ := bind_ok read
          obtain ⟨⟨others, left⟩, readOthers, done⟩ := bind_ok readMore
          obtain ⟨nodeTokens, splitNode, derivedNode⟩ := sound.compound readNode
          obtain ⟨used, split, derived, last⟩ := sound.statements readOthers
          cases done
          exact ⟨nodeTokens ++ used, by rw [splitNode, split, List.append_assoc], .compound derivedNode derived, last⟩
        · obtain ⟨⟨node, after⟩, readNode, readMore⟩ := bind_ok read
          obtain ⟨⟨others, left⟩, readOthers, done⟩ := bind_ok readMore
          obtain ⟨nodeTokens, splitNode, derivedNode⟩ := simple_derived readNode
          obtain ⟨last, ⟨rfl, split⟩ | ⟨mark, used, ends, split, derived⟩⟩ := sound.afterSimple readOthers
          · cases done
            exact ⟨nodeTokens, by rw [splitNode, split], .last derivedNode, last⟩
          · cases done
            refine ⟨nodeTokens ++ mark :: used, ?_, .simple derivedNode ends derived, last⟩
            rw [splitNode, split, List.append_assoc]

theorem afterSimple_sound (sound : StatementSound fuel) {inBlock : Bool} {tokens rest : List Token}
    {nodes : List Node} (read : afterSimple (fuel + 1) inBlock tokens = .ok (nodes, rest)) :
    AtEnd inBlock rest ∧ ((nodes = [] ∧ tokens = rest) ∨
      ∃ mark used, mark.kind = .mark .semicolon ∧ tokens = mark :: used ++ rest ∧ Statements used nodes) := by
  have resume : ∀ {tokens}, statements fuel inBlock tokens = .ok (nodes, rest) →
      (∀ token ∈ tokens.head?, token.kind = .mark .semicolon ∨ token.kind = .mark .closeCurly) →
      AtEnd inBlock rest ∧ ((nodes = [] ∧ tokens = rest) ∨
        ∃ mark used, mark.kind = .mark .semicolon ∧ tokens = mark :: used ++ rest ∧ Statements used nodes) := by
    intro tokens read head
    obtain ⟨used, split, derived, last⟩ := sound.statements read
    refine ⟨last, ?_⟩
    cases used with
    | nil => exact Or.inl ⟨derived.eq_nil, split⟩
    | cons mark used =>
      rw [split] at head
      rcases head mark rfl with ends | closes
      · exact Or.inr ⟨mark, used, ends, split, derived.of_semicolon ends⟩
      · -- Statements do not begin with a closing bracket.
        have begins := derived.first mark rfl
        rw [closes] at begins
        cases begins
  cases tokens with
  | nil => exact resume read (by simp)
  | cons token later =>
    rw [afterSimple] at read
    split at read
    · rename_i ends
      rw [Bool.or_eq_true] at ends
      refine resume read fun first head => ?_
      cases head
      exact ends.imp kind_of_isMark kind_of_isMark
    · cases read

theorem block_sound (sound : StatementSound fuel) {tokens rest : List Token} {body : List Node × Span}
    (read : block (fuel + 1) tokens = .ok (body, rest)) : ∃ used, tokens = used ++ rest ∧ Block used body := by
  rw [block] at read
  obtain ⟨⟨opening, after⟩, readOpen, readBody⟩ := bind_ok read
  obtain ⟨⟨nodes, left⟩, readNodes, readClose⟩ := bind_ok readBody
  obtain ⟨⟨closing, final⟩, close, done⟩ := bind_ok readClose
  obtain ⟨splitOpen, opens⟩ := expect_ok readOpen
  obtain ⟨used, split, derived, -⟩ := sound.statements readNodes
  obtain ⟨splitClose, closes⟩ := expect_ok close
  cases done
  refine ⟨opening :: used ++ [closing], ?_, .curly (kind_of_isMark opens) (kind_of_isMark closes) derived⟩
  rw [splitOpen, split, splitClose, List.cons_append, List.cons_append, List.append_assoc, List.singleton_append]

theorem alternative_sound (sound : StatementSound fuel) {tokens rest : List Token} {other : Option (Node × Span)}
    (read : alternative (fuel + 1) tokens = .ok (other, rest)) :
    (other = none ∧ tokens = rest) ∨
      ∃ node used, other = some node ∧ tokens = used ++ rest ∧ Alternative used node := by
  rw [alternative.eq_def] at read
  rcases tokens with - | ⟨token, later⟩
  · cases read
    exact Or.inl ⟨rfl, rfl⟩
  · simp only at read
    split at read
    · rename_i begins
      cases later with
      | nil => cases read
      | cons next after =>
        simp only at read
        split at read
        · rename_i branch
          rw [Bool.or_eq_true] at branch
          obtain ⟨⟨node, left⟩, readNode, done⟩ := bind_ok read
          obtain ⟨used, split, derived⟩ := sound.compound readNode
          -- The branch starts with the token behind `else` that was looked at before.
          obtain ⟨first, more, shape, -⟩ := derived.first
          rw [shape, List.cons_append, List.cons.injEq] at split
          obtain ⟨same, split⟩ := split
          rw [shape, ← same] at derived
          cases done
          refine Or.inr ⟨node, token :: next :: more, rfl, by rw [split]; rfl, ?_⟩
          exact .else (kind_of_isWord begins) (branch.imp kind_of_isWord kind_of_isMark) derived
        · cases read
    · cases read
      exact Or.inl ⟨rfl, rfl⟩

theorem compound_sound (sound : StatementSound fuel) {tokens rest : List Token} {node : Node × Span}
    (read : compound (fuel + 1) tokens = .ok (node, rest)) :
    ∃ used, tokens = used ++ rest ∧ Compound used node := by
  cases tokens with
  | nil => cases read
  | cons token later =>
    rw [compound] at read
    split at read
    · rename_i begins
      obtain ⟨⟨condition, after⟩, readCondition, readThen⟩ := bind_ok read
      obtain ⟨⟨⟨nodes, span⟩, left⟩, readBody, readElse⟩ := bind_ok readThen
      obtain ⟨⟨other, final⟩, readOther, done⟩ := bind_ok readElse
      obtain ⟨used, split, derived⟩ := expression_derived readCondition
      obtain ⟨bodyTokens, splitBody, derivedBody⟩ := sound.block readBody
      rcases sound.alternative readOther with ⟨rfl, same⟩ | ⟨branch, otherTokens, rfl, splitOther, derivedOther⟩
      · cases done
        refine ⟨token :: used ++ bodyTokens, ?_, .if begins derived derivedBody⟩
        rw [split, splitBody, same, List.cons_append, List.cons_append, List.append_assoc]
      · cases done
        refine ⟨token :: used ++ bodyTokens ++ otherTokens, ?_, .ifElse begins derived derivedBody derivedOther⟩
        rw [split, splitBody, splitOther]
        simp
    · rename_i begins
      obtain ⟨⟨condition, after⟩, readCondition, readRest⟩ := bind_ok read
      obtain ⟨⟨⟨nodes, span⟩, left⟩, readBody, done⟩ := bind_ok readRest
      obtain ⟨used, split, derived⟩ := expression_derived readCondition
      obtain ⟨bodyTokens, splitBody, derivedBody⟩ := sound.block readBody
      cases done
      refine ⟨token :: used ++ bodyTokens, ?_, .while begins derived derivedBody⟩
      rw [split, splitBody, List.cons_append, List.cons_append, List.append_assoc]
    · rename_i begins
      obtain ⟨⟨target, after⟩, readName, readRest⟩ := bind_ok read
      obtain ⟨⟨member, afterIn⟩, readIn, readRest⟩ := bind_ok readRest
      obtain ⟨⟨⟨first, last⟩, afterRange⟩, readRange, readRest⟩ := bind_ok readRest
      obtain ⟨⟨⟨nodes, span⟩, left⟩, readBody, done⟩ := bind_ok readRest
      obtain ⟨splitName, named⟩ := name_ok readName
      obtain ⟨splitIn, within⟩ := expect_ok readIn
      obtain ⟨used, split, derived⟩ := bounds_derived readRange
      obtain ⟨bodyTokens, splitBody, derivedBody⟩ := sound.block readBody
      cases done
      refine ⟨token :: target :: member :: used ++ bodyTokens, ?_,
        .for begins named (kind_of_isWord within) derived derivedBody⟩
      rw [splitName, splitIn, split, splitBody]
      simp
    · rename_i begins
      obtain ⟨⟨target, after⟩, readName, readRest⟩ := bind_ok read
      obtain ⟨⟨opening, afterOpen⟩, readOpen, readRest⟩ := bind_ok readRest
      obtain ⟨⟨params, afterParams⟩, readParams, readRest⟩ := bind_ok readRest
      obtain ⟨⟨closing, afterClose⟩, readClose, readRest⟩ := bind_ok readRest
      obtain ⟨⟨⟨nodes, span⟩, left⟩, readBody, done⟩ := bind_ok readRest
      obtain ⟨splitName, named⟩ := name_ok readName
      obtain ⟨splitOpen, opens⟩ := expect_ok readOpen
      obtain ⟨used, split, derived⟩ := parameters_derived readParams
      obtain ⟨splitClose, closes⟩ := expect_ok readClose
      obtain ⟨bodyTokens, splitBody, derivedBody⟩ := sound.block readBody
      cases done
      refine ⟨token :: target :: opening :: used ++ closing :: bodyTokens, ?_,
        .function begins named (kind_of_isMark opens) (kind_of_isMark closes) derived derivedBody⟩
      rw [splitName, splitOpen, split, splitClose, splitBody]
      simp
    · obtain ⟨⟨⟨nodes, span⟩, left⟩, readBody, done⟩ := bind_ok read
      obtain ⟨used, split, derived⟩ := sound.block readBody
      cases done
      exact ⟨used, split, .block derived⟩

/-- What the functions for statements read is derived, whatever the fuel. -/
theorem statementSound (fuel : Nat) : StatementSound fuel := by
  induction fuel with
  | zero => constructor <;> (intros; contradiction)
  | succ fuel sound =>
    exact ⟨statements_sound sound, afterSimple_sound sound, block_sound sound, compound_sound sound,
      alternative_sound sound⟩

/-- The tokens of a program derive it, all of them. -/
theorem program_derived {tokens rest : List Token} {nodes : List Node} (read : program tokens = .ok (nodes, rest)) :
    Statements tokens nodes := by
  obtain ⟨used, split, derived, last⟩ := (statementSound _).statements read
  rw [AtEnd, if_neg Bool.false_ne_true] at last
  rwa [split, last, List.append_nil]

end PhyLang.Grammar
