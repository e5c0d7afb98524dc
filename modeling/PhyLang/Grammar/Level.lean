import PhyLang.Token.Basic

namespace PhyLang.Grammar

/-- The levels of binary operators, from the loosest to the tightest. All operators of one level
associate to the left. -/
inductive Level
  | or
  | and
  | equality
  | comparison
  | sum
  | product
  deriving DecidableEq, Repr, Inhabited

namespace Level

/-- The next tighter level; the operands of the tightest one are unary. -/
def tighter : Level → Option Level
  | .or => some .and
  | .and => some .equality
  | .equality => some .comparison
  | .comparison => some .sum
  | .sum => some .product
  | .product => none

def holds : Level → Kind → Bool
  | .or, kind => kind == .word .or
  | .and, kind => kind == .word .and
  | .equality, kind => kind == .mark .equal || kind == .mark .notEqual
  | .comparison, kind =>
    kind == .mark .less || kind == .mark .lessEqual || kind == .mark .greater || kind == .mark .greaterEqual
  | .sum, kind => kind == .mark .plus || kind == .mark .minus
  | .product, kind => kind == .mark .star || kind == .mark .slash

/-- Whether the operators of a level may leave their right operand unevaluated. -/
def isLogical : Level → Bool
  | .or | .and => true
  | _ => false

end Level

end PhyLang.Grammar
