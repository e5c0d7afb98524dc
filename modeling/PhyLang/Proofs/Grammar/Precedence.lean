import PhyLang.Proofs.Grammar.Shape

namespace PhyLang

open Grammar (unaryRank callRank primaryRank Level)
open Source (Span)

namespace Node

/-- The rank of a binary operator. -/
def operatorRank : Json → Nat
  | .str "or" => Level.or.rank
  | .str "and" => Level.and.rank
  | .str "==" | .str "!=" => Level.equality.rank
  | .str "<" | .str "<=" | .str ">" | .str ">=" => Level.comparison.rank
  | .str "+" | .str "-" => Level.sum.rank
  | .str "*" | .str "/" => Level.product.rank
  | _ => 0

/-- The rank of an expression. -/
def rank : Node → Nat
  | .assign _ _ _ => 0
  | .binary operator _ _ _ | .logical operator _ _ _ => operatorRank operator
  | .unary _ _ _ => unaryRank
  | .call _ _ _ => callRank
  | _ => primaryRank

mutual

/-- Whether the ranks of all operands in a tree are as high as their operators ask for. -/
def RespectsRanks : Node → Prop
  | .binary operator left right _ | .logical operator left right _ =>
    operatorRank operator ≤ left.rank ∧ operatorRank operator < right.rank ∧ RespectsRanks left ∧ RespectsRanks right
  | .unary _ right _ => unaryRank ≤ right.rank ∧ RespectsRanks right
  | .call callee args _ => callRank ≤ callee.rank ∧ RespectsRanks callee ∧ AllRespectRanks args
  | .exprStmt inner _ | .printStmt inner _ | .varDecl _ inner _ | .returnStmt inner _ | .assign _ inner _
  | .grouping inner _ => RespectsRanks inner
  | .block statements _ | .fnDecl _ _ statements _ => AllRespectRanks statements
  | .ifStmt condition thenBranch elseBranch _ =>
    RespectsRanks condition ∧ RespectsRanks thenBranch ∧ RespectsRanks elseBranch
  | .whileStmt condition body _ => RespectsRanks condition ∧ RespectsRanks body
  | .forStmt placeholder _ _ body _ => RespectsRanks placeholder ∧ RespectsRanks body
  | .absent | .intLiteral _ _ | .realLiteral _ _ | .strLiteral _ _ | .identifier _ _ => True

def AllRespectRanks : List Node → Prop
  | [] => True
  | node :: rest => RespectsRanks node ∧ AllRespectRanks rest

end

end Node

namespace Grammar

theorem operatorRank_operators {level : Level} {text : String} (known : text ∈ level.operators) :
    Node.operatorRank (.str text) = level.rank := by
  cases level <;> simp only [Level.operators, List.mem_cons, List.not_mem_nil, or_false] at known
  · rw [known]
    rfl
  · rw [known]
    rfl
  · rcases known with rfl | rfl <;> rfl
  · rcases known with rfl | rfl | rfl | rfl <;> rfl
  · rcases known with rfl | rfl <;> rfl
  · rcases known with rfl | rfl <;> rfl

theorem leaf_rank {token : Token} {node : Node} (alone : leaf? token = some node) :
    node.rank = primaryRank ∧ node.RespectsRanks := by
  unfold leaf? at alone
  split at alone <;> cases alone <;> simp [Node.rank, Node.RespectsRanks]

theorem joined_rank {level : Level} {operator : Token} {left right : Node × Span} {text : String}
    (known : text ∈ level.operators) (same : textOf operator = .str text) :
    (joined level operator left right).1.rank = level.rank := by
  unfold joined
  rw [same]
  simp only
  split <;> exact operatorRank_operators known

/-- A derived expression has at least the rank that it is derived for. -/
theorem Expr.rank_le {rank : Nat} {tokens : List Token} {expr : Node × Span}
    (spelled : ∀ token ∈ tokens, Token.Spelled token.kind token.text) : Expr rank tokens expr → rank ≤ expr.1.rank
  | .assign _ _ _ => Nat.zero_le _
  | .looser inner => (Nat.le_succ _).trans (inner.rank_le spelled)
  | .join joins _ _ => by
    obtain ⟨text, known, same⟩ := textOf_operator (spelled _ (by simp)) joins
    rw [joined_rank known same]
  | .sign _ _ => le_rfl
  | .call _ _ _ _ => le_rfl
  | .grouping _ _ _ => le_rfl
  | .leaf alone => (leaf_rank alone).1.ge

mutual

theorem Expr.respectsRanks {rank : Nat} {tokens : List Token} {expr : Node × Span}
    (spelled : ∀ token ∈ tokens, Token.Spelled token.kind token.text) :
    Expr rank tokens expr → expr.1.RespectsRanks
  | .assign _ _ inner => by
    have respects := inner.respectsRanks fun token member => spelled token (by simp [member])
    exact respects
  | .looser inner => inner.respectsRanks spelled
  | .join joins left right => by
    obtain ⟨text, known, same⟩ := textOf_operator (spelled _ (by simp)) joins
    have leftRank := left.rank_le fun token member => spelled token (by simp [member])
    have rightRank := right.rank_le fun token member => spelled token (by simp [member])
    have leftRespects := left.respectsRanks fun token member => spelled token (by simp [member])
    have rightRespects := right.respectsRanks fun token member => spelled token (by simp [member])
    -- The rank of a joined node is read off the text of its operator.
    rw [← operatorRank_operators known] at leftRank rightRank
    unfold joined
    rw [same]
    split <;> exact ⟨leftRank, rightRank, leftRespects, rightRespects⟩
  | .sign _ inner =>
    ⟨inner.rank_le fun token member => spelled token (by simp [member]),
      inner.respectsRanks fun token member => spelled token (by simp [member])⟩
  | .call _ _ callee args =>
    ⟨callee.rank_le fun token member => spelled token (by simp [member]),
      callee.respectsRanks fun token member => spelled token (by simp [member]),
      args.respectRanks fun token member => spelled token (by simp [member])⟩
  | .grouping _ _ inner => by
    have respects := inner.respectsRanks fun token member => spelled token (by simp [member])
    exact respects
  | .leaf alone => (leaf_rank alone).2

theorem Args.respectRanks {tokens : List Token} {args : List Node}
    (spelled : ∀ token ∈ tokens, Token.Spelled token.kind token.text) :
    Args tokens args → Node.AllRespectRanks args
  | .none => trivial
  | .some first later =>
    ⟨first.respectsRanks fun token member => spelled token (by simp [member]),
      later.respectRanks fun token member => spelled token (by simp [member])⟩

theorem MoreArgs.respectRanks {tokens : List Token} {args : List Node}
    (spelled : ∀ token ∈ tokens, Token.Spelled token.kind token.text) :
    MoreArgs tokens args → Node.AllRespectRanks args
  | .none => trivial
  | .next _ first later =>
    ⟨first.respectsRanks fun token member => spelled token (by simp [member]),
      later.respectRanks fun token member => spelled token (by simp [member])⟩

end

theorem Simple.respectsRanks {tokens : List Token} {node : Node}
    (spelled : ∀ token ∈ tokens, Token.Spelled token.kind token.text) (derived : Simple tokens node) :
    node.RespectsRanks := by
  cases derived with
  | print _ inner => exact inner.respectsRanks fun token member => spelled token (by simp [member])
  | declare _ _ _ inner => exact inner.respectsRanks fun token member => spelled token (by simp [member])
  | declareEmpty => trivial
  | «return» _ inner => exact inner.respectsRanks fun token member => spelled token (by simp [member])
  | returnEmpty => trivial
  | expr inner => exact inner.respectsRanks spelled

mutual

/-- In derived statements all operands have the ranks that their operators ask for. -/
theorem Statements.respectRanks {tokens : List Token} {nodes : List Node}
    (spelled : ∀ token ∈ tokens, Token.Spelled token.kind token.text) :
    Statements tokens nodes → Node.AllRespectRanks nodes
  | .none => trivial
  | .semicolon _ later => later.respectRanks fun token member => spelled token (by simp [member])
  | .last only => ⟨only.respectsRanks spelled, trivial⟩
  | .simple first _ later =>
    ⟨first.respectsRanks fun token member => spelled token (by simp [member]),
      later.respectRanks fun token member => spelled token (by simp [member])⟩
  | .compound first later =>
    ⟨first.respectsRanks fun token member => spelled token (by simp [member]),
      later.respectRanks fun token member => spelled token (by simp [member])⟩

theorem Block.respectRanks {tokens : List Token} {body : List Node × Span}
    (spelled : ∀ token ∈ tokens, Token.Spelled token.kind token.text) :
    Block tokens body → Node.AllRespectRanks body.1
  | .curly _ _ inner => inner.respectRanks fun token member => spelled token (by simp [member])

theorem Compound.respectsRanks {tokens : List Token} {node : Node × Span}
    (spelled : ∀ token ∈ tokens, Token.Spelled token.kind token.text) :
    Compound tokens node → node.1.RespectsRanks
  | .if _ inner body =>
    ⟨inner.respectsRanks fun token member => spelled token (by simp [member]),
      body.respectRanks fun token member => spelled token (by simp [member]), trivial⟩
  | .ifElse _ inner body other =>
    ⟨inner.respectsRanks fun token member => spelled token (by simp [member]),
      body.respectRanks fun token member => spelled token (by simp [member]),
      other.respectsRanks fun token member => spelled token (by simp [member])⟩
  | .while _ inner body =>
    ⟨inner.respectsRanks fun token member => spelled token (by simp [member]),
      body.respectRanks fun token member => spelled token (by simp [member])⟩
  | .for _ _ _ _ body => ⟨trivial, body.respectRanks fun token member => spelled token (by simp [member])⟩
  | .function _ _ _ _ _ body => body.respectRanks fun token member => spelled token (by simp [member])
  | .block body => body.respectRanks spelled

theorem Alternative.respectsRanks {tokens : List Token} {node : Node × Span}
    (spelled : ∀ token ∈ tokens, Token.Spelled token.kind token.text) :
    Alternative tokens node → node.1.RespectsRanks
  | .else _ _ inner => inner.respectsRanks fun token member => spelled token (List.mem_cons_of_mem _ member)

end

end Grammar

end PhyLang
