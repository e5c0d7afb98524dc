import PhyLang.Proofs.Grammar.Soundness

namespace PhyLang.Grammar

open Source (Span)
open Token (Mode)

namespace Level

theorem rank_pos (level : Level) : 0 < level.rank := by cases level <;> decide

theorem rank_lt (level : Level) : level.rank < unaryRank := by cases level <;> decide

/-- An operator belongs to one level. -/
theorem holds_unique {level other : Level} {kind : Kind} (joins : level.holds kind) (otherJoins : other.holds kind) :
    level = other := by
  cases level <;> cases other <;> simp only [holds, Bool.or_eq_true, beq_iff_eq] at joins otherJoins <;> grind

theorem not_holds {level : Level} {kind : Kind} (joins : level.holds kind) :
    kind ≠ .mark .assign ∧ kind ≠ .mark .openRound := by
  constructor
  · rintro rfl
    cases level <;> cases joins
  · rintro rfl
    cases level <;> cases joins

end Level

/-- The level of a rank; those of no level are unary or tighter, or assignments. -/
def levelAt? : Nat → Option Level
  | 1 => some .or
  | 2 => some .and
  | 3 => some .equality
  | 4 => some .comparison
  | 5 => some .sum
  | 6 => some .product
  | _ => none

/-- The function that reads the expressions of a rank. -/
def reader (fuel : Nat) : (rank : Nat) → List Token → Reading ((Node × Span) × List Token)
  | 0 => expression fuel
  | 8 => unary fuel
  | 9 => primary fuel
  | rank => operand fuel (levelAt? rank)

/-- How reading goes on behind an expression of a rank. -/
def continued (fuel rank : Nat) (expr : Node × Span) (rest : List Token) : Reading ((Node × Span) × List Token) :=
  match rank with
  | 8 => calls fuel expr rest
  | rank =>
    match levelAt? rank with
    | some level => chain fuel level expr rest
    | none => .ok (expr, rest)

theorem reader_level (fuel : Nat) (level : Level) : reader fuel level.rank = operand fuel (some level) := by
  cases level <;> rfl

theorem reader_tighter (fuel : Nat) (level : Level) : reader fuel (level.rank + 1) = operand fuel level.tighter := by
  cases level <;> rfl

theorem continued_level (fuel : Nat) (level : Level) : continued fuel level.rank = chain fuel level := by
  cases level <;> rfl

/-- Whether some tokens are none with which an expression of a rank could go on. -/
def Stops (rank : Nat) (rest : List Token) : Prop :=
  ∀ token ∈ rest.head?, token.kind ≠ .mark .assign ∧ (∀ level : Level, rank ≤ level.rank → ¬level.holds token.kind) ∧
    (rank ≤ callRank → token.kind ≠ .mark .openRound)

namespace Stops

variable {rank : Nat} {rest : List Token}

theorem nil : Stops rank [] := by
  intro token head
  cases head

theorem mono {higher : Nat} (stops : Stops rank rest) (le : rank ≤ higher) : Stops higher rest := by
  intro token head
  obtain ⟨assigns, joins, calls⟩ := stops token head
  exact ⟨assigns, fun level above => joins level (le.trans above), fun below => calls (le.trans below)⟩

/-- No operator has rank zero, so an assignment stops where its value does. -/
theorem of_one (stops : Stops 1 rest) : Stops 0 rest := by
  intro token head
  obtain ⟨assigns, joins, calls⟩ := stops token head
  exact ⟨assigns, fun level _ => joins level level.rank_pos, fun _ => calls (by decide)⟩

/-- Tokens that end an expression wherever it stands. -/
theorem of_kind {token : Token} (ends : token.kind = .mark .closeRound ∨ token.kind = .mark .comma ∨
    token.kind = .mark .openCurly ∨ token.kind = .mark .closeCurly ∨ token.kind = .mark .semicolon) :
    Stops rank (token :: rest) := by
  intro first head
  cases head
  rcases ends with kind | kind | kind | kind | kind <;>
    exact ⟨by simp [kind], fun level _ => by cases level <;> simp [kind, Level.holds], by simp [kind]⟩

/-- An operator ends the operands of higher ranks. -/
theorem of_operator {level : Level} {operator : Token} (joins : level.holds operator.kind) :
    Stops (level.rank + 1) (operator :: rest) := by
  intro first head
  cases head
  obtain ⟨assigns, opens⟩ := Level.not_holds joins
  refine ⟨assigns, fun other above otherJoins => ?_, fun _ => opens⟩
  rw [Level.holds_unique joins otherJoins] at above
  omega

/-- An opening bracket ends what can be called. -/
theorem of_opening {opening : Token} (opens : opening.kind = .mark .openRound) :
    Stops primaryRank (opening :: rest) := by
  intro first head
  cases head
  refine ⟨by simp [opens], fun level above => ?_, fun below => absurd below (by decide)⟩
  have below := level.rank_lt
  simp only [primaryRank, unaryRank] at above below
  omega

end Stops

/-- Behind an expression that stops, reading goes on with nothing. -/
theorem continued_stops {rank fuel : Nat} {expr : Node × Span} {rest : List Token} (stops : Stops rank rest)
    (fuelled : 0 < fuel) : continued fuel rank expr rest = .ok (expr, rest) := by
  obtain ⟨fuel, rfl⟩ := Nat.exists_eq_succ_of_ne_zero fuelled.ne'
  unfold continued
  split
  · cases rest with
    | nil => rfl
    | cons token later =>
      have opens := (stops token rfl).2.2 (by decide)
      rw [calls, if_neg (by simpa [isMark] using opens)]
  · split
    next level found =>
      have same : rank = level.rank := by
        unfold levelAt? at found
        split at found <;> cases found <;> rfl
      cases rest with
      | nil => rfl
      | cons token later =>
        have joins := (stops token rfl).2.1 level same.le
        rw [chain, if_neg joins]
    next => rfl

/-- The tokens of an expression are read as that expression, and what reading comes to is what going on behind
it comes to. A chain of operators is derived from the left, but read by going on from what was read so far, so
this is asked for any way of going on. The fuel counts sixteen for each token. -/
def Reads (rank : Nat) (used : List Token) (expr : Node × Span) : Prop :=
  ∀ rest result limit, Stops (rank + 1) rest → 0 < limit →
    (∀ fuel ≥ limit, continued fuel rank expr rest = .ok result) →
    ∀ fuel ≥ limit + 16 * used.length + (10 - rank), reader fuel rank (used ++ rest) = .ok result

/-- An expression that stops is read up to its end. -/
theorem Reads.whole {rank : Nat} {used rest : List Token} {expr : Node × Span} (reads : Reads rank used expr)
    (stops : Stops rank rest) (fuel : Nat) (fuelled : 1 + 16 * used.length + (10 - rank) ≤ fuel) :
    reader fuel rank (used ++ rest) = .ok (expr, rest) :=
  reads _ _ _ (stops.mono (Nat.le_succ _)) Nat.one_pos (fun _ positive => continued_stops stops positive) fuel fuelled

/-- Whether some tokens begin with a name and the sign for an assignment to it. -/
def Assigns (tokens : List Token) : Prop :=
  ∃ target sign later, tokens = target :: sign :: later ∧ target.kind = .name ∧ sign.kind = .mark .assign

theorem not_assigns_cons {first : Token} {later : List Token} (other : first.kind ≠ .name) :
    ¬Assigns (first :: later) := by
  rintro ⟨target, sign, rest, same, name, -⟩
  cases same
  exact other name

/-- Only an assignment begins like one. -/
theorem Expr.not_assigns {rank : Nat} {tokens : List Token} {expr : Node × Span} (positive : 0 < rank)
    (rest : List Token) (follows : ∀ token ∈ rest.head?, token.kind ≠ .mark .assign) :
    Expr rank tokens expr → ¬Assigns (tokens ++ rest)
  | .assign _ _ _ => absurd positive (by decide)
  | .looser inner => inner.not_assigns (Nat.succ_pos _) rest follows
  | @Expr.join level operator _ right _ _ joins left _ => by
    have other := left.not_assigns level.rank_pos (operator :: (right ++ rest)) (by
      intro token head
      cases head
      exact (Level.not_holds joins).1)
    simpa using other
  | .sign signs _ => not_assigns_cons (by rcases signs with kind | kind <;> simp [kind])
  | @Expr.call opening closing _ tokens _ _ opens _ callee _ => by
    have other := callee.not_assigns (by decide) (opening :: (tokens ++ closing :: rest)) (by
      intro token head
      cases head
      simp [opens])
    simpa using other
  | .grouping opens _ _ => not_assigns_cons (by simp [opens])
  | .leaf _ => by
    rintro ⟨target, sign, later, same, -, assigns⟩
    cases same
    exact follows sign rfl assigns

theorem Expr.rank_le_primary {rank : Nat} {tokens : List Token} {expr : Node × Span} :
    Expr rank tokens expr → rank ≤ primaryRank
  | .assign _ _ _ => Nat.zero_le _
  | .looser inner => (Nat.le_succ _).trans inner.rank_le_primary
  | @Expr.join level _ _ _ _ _ _ _ _ => level.rank_lt.le.trans (by decide)
  | .sign _ _ => by decide
  | .call _ _ _ _ => by decide
  | .grouping _ _ _ => le_rfl
  | .leaf _ => le_rfl

/-- What no operator can take apart does not begin with a sign. -/
theorem Expr.not_signed {tokens : List Token} {expr : Node × Span} (derived : Expr primaryRank tokens expr) :
    ∃ first later, tokens = first :: later ∧ (isMark .bang first || isMark .minus first) = false := by
  generalize high : primaryRank = rank at derived
  cases derived with
  | assign => cases high
  | looser inner =>
    have low := inner.rank_le_primary
    omega
  | @join level =>
    have low := level.rank_lt
    simp only [primaryRank, unaryRank] at high low
    omega
  | sign => cases high
  | call => cases high
  | grouping opens => exact ⟨_, _, rfl, by simp [isMark, opens]⟩
  | @leaf token _ alone =>
    have unsigned : ∀ kind ∈ leafKinds, (kind == .mark .bang || kind == .mark .minus) = false := by decide
    exact ⟨token, [], rfl, unsigned token.kind (leaf_kind alone)⟩

theorem expression_operand {fuel : Nat} {tokens : List Token} (other : ¬Assigns tokens) :
    expression (fuel + 1) tokens = operand fuel (some .or) tokens := by
  rcases tokens with - | ⟨target, - | ⟨sign, later⟩⟩
  · rfl
  · rfl
  · have differs : ¬(target.kind == .name && isMark .assign sign) = true := by
      intro assigns
      rw [Bool.and_eq_true] at assigns
      exact other ⟨target, sign, later, rfl, eq_of_beq assigns.1, kind_of_isMark assigns.2⟩
    rw [expression, if_neg differs]

theorem rank_cases {rank : Nat} (small : rank < primaryRank) :
    rank = 0 ∨ (∃ level : Level, rank = level.rank) ∨ rank = unaryRank ∨ rank = callRank := by
  have below : rank < 9 := small
  interval_cases rank
  · exact Or.inl rfl
  · exact Or.inr (Or.inl ⟨.or, rfl⟩)
  · exact Or.inr (Or.inl ⟨.and, rfl⟩)
  · exact Or.inr (Or.inl ⟨.equality, rfl⟩)
  · exact Or.inr (Or.inl ⟨.comparison, rfl⟩)
  · exact Or.inr (Or.inl ⟨.sum, rfl⟩)
  · exact Or.inr (Or.inl ⟨.product, rfl⟩)
  · exact Or.inr (Or.inr (Or.inl rfl))
  · exact Or.inr (Or.inr (Or.inr rfl))

section Expressions

variable {tokens rest : List Token} {expr : Node × Span}

theorem Reads.looser_assignment (derived : Expr 1 tokens expr) (reads : Reads 1 tokens expr) :
    Reads 0 tokens expr := by
  intro rest result limit stops positive goesOn fuel fuelled
  obtain ⟨fuel, rfl⟩ := Nat.exists_eq_succ_of_ne_zero (by omega : fuel ≠ 0)
  rw [← goesOn limit le_rfl]
  have other := derived.not_assigns Nat.one_pos rest fun token head => (stops token head).1
  have operand := reads.whole stops fuel (by omega)
  exact (expression_operand other).trans operand

theorem Reads.looser_level {level : Level} (reads : Reads (level.rank + 1) tokens expr) :
    Reads level.rank tokens expr := by
  intro rest result limit stops positive goesOn fuel fuelled
  have low := level.rank_lt
  simp only [unaryRank] at low
  obtain ⟨fuel, rfl⟩ := Nat.exists_eq_succ_of_ne_zero (by omega : fuel ≠ 0)
  have first := reads.whole stops fuel (by omega)
  have later := goesOn fuel (by omega)
  rw [reader_tighter] at first
  rw [continued_level] at later
  rw [reader_level, operand, first]
  exact later

theorem Reads.looser_unary (reads : Reads callRank tokens expr) : Reads unaryRank tokens expr := by
  intro rest result limit stops positive goesOn fuel fuelled
  simp only [unaryRank] at fuelled
  obtain ⟨fuel, rfl⟩ := Nat.exists_eq_succ_of_ne_zero (by omega : fuel ≠ 0)
  rw [← goesOn limit le_rfl]
  exact reads.whole stops fuel (by simp only [callRank]; omega)

theorem Reads.looser_call (derived : Expr primaryRank tokens expr) (reads : Reads primaryRank tokens expr) :
    Reads callRank tokens expr := by
  intro rest result limit stops positive goesOn fuel fuelled
  simp only [callRank] at fuelled
  obtain ⟨fuel, rfl⟩ := Nat.exists_eq_succ_of_ne_zero (by omega : fuel ≠ 0)
  have callee : primary fuel (tokens ++ rest) = .ok (expr, rest) :=
    reads.whole stops fuel (by simp only [primaryRank]; omega)
  obtain ⟨first, later, rfl, unsigned⟩ := derived.not_signed
  change unary (fuel + 1) (first :: (later ++ rest)) = .ok result
  rw [List.cons_append] at callee
  rw [unary, unsigned, if_neg Bool.false_ne_true, callee]
  exact goesOn fuel (by omega)

/-- An expression of a higher rank is read as one of a lower rank. -/
theorem Reads.looser {rank : Nat} (derived : Expr (rank + 1) tokens expr) (reads : Reads (rank + 1) tokens expr) :
    Reads rank tokens expr := by
  rcases rank_cases derived.rank_le_primary with rfl | ⟨level, rfl⟩ | rfl | rfl
  · exact reads.looser_assignment derived
  · exact reads.looser_level
  · exact reads.looser_unary
  · exact reads.looser_call derived

theorem Reads.assign {target sign : Token} {value : Node × Span} (name : target.kind = .name)
    (equals : sign.kind = .mark .assign) (reads : Reads 0 tokens value) :
    Reads 0 (target :: sign :: tokens) (.assign (textOf target) value.1 (some (.ofSpan (target.span.to value.2))),
      target.span.to value.2) := by
  intro rest result limit stops positive goesOn fuel fuelled
  simp only [List.length_cons] at fuelled
  obtain ⟨fuel, rfl⟩ := Nat.exists_eq_succ_of_ne_zero (by omega : fuel ≠ 0)
  have inner : expression fuel (tokens ++ rest) = .ok (value, rest) :=
    reads.whole stops.of_one fuel (by omega)
  change expression (fuel + 1) (target :: sign :: (tokens ++ rest)) = .ok result
  rw [expression, if_pos (by simp [name, isMark, equals]), inner]
  exact goesOn limit le_rfl

/-- A chain that has been read up to an operator goes on behind the operand on its right. -/
theorem Reads.join {level : Level} {operator : Token} {leftTokens rightTokens : List Token} {left right : Node × Span}
    (joins : level.holds operator.kind) (readsLeft : Reads level.rank leftTokens left)
    (readsRight : Reads (level.rank + 1) rightTokens right) :
    Reads level.rank (leftTokens ++ operator :: rightTokens) (joined level operator left right) := by
  intro rest result limit stops positive goesOn fuel fuelled
  have low := level.rank_lt
  simp only [unaryRank] at low
  simp only [List.length_append, List.length_cons] at fuelled
  have behind : ∀ fuel ≥ max limit (1 + 16 * rightTokens.length + (10 - (level.rank + 1))) + 1,
      continued fuel level.rank left (operator :: (rightTokens ++ rest)) = .ok result := by
    intro fuel fuelled
    obtain ⟨fuel, rfl⟩ := Nat.exists_eq_succ_of_ne_zero (by omega : fuel ≠ 0)
    have operand := readsRight.whole stops fuel (by omega)
    have later := goesOn fuel (by omega)
    rw [reader_tighter] at operand
    rw [continued_level] at later
    rw [continued_level, chain, if_pos joins, operand]
    exact later
  have whole := readsLeft _ _ _ (Stops.of_operator joins) (Nat.succ_pos _) behind fuel (by omega)
  rwa [List.append_assoc]

theorem Reads.sign {operator : Token} {right : Node × Span}
    (signs : operator.kind = .mark .bang ∨ operator.kind = .mark .minus) (reads : Reads unaryRank tokens right) :
    Reads unaryRank (operator :: tokens) (.unary (textOf operator) right.1 (some (.ofSpan (operator.span.to right.2))),
      operator.span.to right.2) := by
  intro rest result limit stops positive goesOn fuel fuelled
  simp only [unaryRank, List.length_cons] at fuelled
  obtain ⟨fuel, rfl⟩ := Nat.exists_eq_succ_of_ne_zero (by omega : fuel ≠ 0)
  obtain ⟨fuel, rfl⟩ := Nat.exists_eq_succ_of_ne_zero (by omega : fuel ≠ 0)
  have stopsHere : Stops unaryRank rest := by
    intro token head
    obtain ⟨assigns, joins, opens⟩ := stops token head
    refine ⟨assigns, fun level above => ?_, fun _ => opens (by decide)⟩
    have low := level.rank_lt
    omega
  have operand : unary fuel (tokens ++ rest) = .ok (right, rest) :=
    reads.whole stopsHere (fuel + 1) (by simp only [unaryRank]; omega)
  have signed : (isMark .bang operator || isMark .minus operator) = true := by
    rcases signs with kind | kind <;> simp [isMark, kind]
  change unary (fuel + 1) (operator :: (tokens ++ rest)) = .ok result
  rw [unary, if_pos signed, operand]
  exact goesOn limit le_rfl

theorem expect_eq {fits : Token → Bool} {token : Token} (fitting : fits token) (later : List Token) :
    expect fits (token :: later) = .ok (token, later) := by
  rw [expect, if_pos fitting]

theorem isMark_of_kind {m : Mark} {token : Token} (kind : token.kind = .mark m) : isMark m token := by
  rw [isMark, kind]
  exact beq_self_eq_true _

/-- The tokens between the brackets of a call are read as its arguments. -/
def ReadsArgs (tokens : List Token) (args : List Node) : Prop :=
  ∀ closing rest, closing.kind = .mark .closeRound → ∀ fuel ≥ 16 * tokens.length + 12,
    arguments fuel (tokens ++ closing :: rest) = .ok (args, closing :: rest)

/-- The tokens after the first argument of a call are read as its other arguments. -/
def ReadsMore (tokens : List Token) (args : List Node) : Prop :=
  ∀ closing rest, closing.kind = .mark .closeRound → ∀ fuel ≥ 16 * tokens.length + 12,
    moreArguments fuel (tokens ++ closing :: rest) = .ok (args, closing :: rest)

theorem Reads.call {opening closing : Token} {calleeTokens : List Token} {callee : Node × Span} {args : List Node}
    (opens : opening.kind = .mark .openRound) (closes : closing.kind = .mark .closeRound)
    (reads : Reads callRank calleeTokens callee) (readsArgs : ReadsArgs tokens args) :
    Reads callRank (calleeTokens ++ opening :: tokens ++ [closing])
      (.call callee.1 args (some (.ofSpan (callee.2.to closing.span))), callee.2.to closing.span) := by
  intro rest result limit stops positive goesOn fuel fuelled
  simp only [callRank, List.length_append, List.length_cons, List.length_nil] at fuelled
  have behind : ∀ fuel ≥ max limit (16 * tokens.length + 12) + 1,
      continued fuel callRank callee (opening :: (tokens ++ closing :: rest)) = .ok result := by
    intro fuel fuelled
    obtain ⟨fuel, rfl⟩ := Nat.exists_eq_succ_of_ne_zero (by omega : fuel ≠ 0)
    have inner := readsArgs closing rest closes fuel (by omega)
    change calls (fuel + 1) callee (opening :: (tokens ++ closing :: rest)) = .ok result
    rw [calls, if_pos (isMark_of_kind opens), inner]
    simp only [bind, Except.bind, expect_eq (isMark_of_kind closes)]
    exact goesOn fuel (by omega)
  have whole := reads _ _ _ (Stops.of_opening opens) (Nat.succ_pos _) behind fuel (by simp only [callRank]; omega)
  simpa using whole

theorem Reads.grouping {opening closing : Token} (opens : opening.kind = .mark .openRound)
    (closes : closing.kind = .mark .closeRound) (reads : Reads 0 tokens expr) :
    Reads primaryRank (opening :: tokens ++ [closing])
      (.grouping expr.1 (some (.ofSpan (opening.span.to closing.span))), opening.span.to closing.span) := by
  intro rest result limit stops positive goesOn fuel fuelled
  simp only [primaryRank, List.length_append, List.length_cons, List.length_nil] at fuelled
  obtain ⟨fuel, rfl⟩ := Nat.exists_eq_succ_of_ne_zero (by omega : fuel ≠ 0)
  have inner : expression fuel (tokens ++ closing :: rest) = .ok (expr, closing :: rest) :=
    reads.whole (Stops.of_kind (Or.inl closes)) fuel (by omega)
  have split : opening :: tokens ++ [closing] ++ rest = opening :: (tokens ++ closing :: rest) := by simp
  rw [split]
  change primary (fuel + 1) (opening :: (tokens ++ closing :: rest)) = .ok result
  rw [primary, if_pos (isMark_of_kind opens), inner]
  simp only [bind, Except.bind, expect_eq (isMark_of_kind closes)]
  exact goesOn limit le_rfl

theorem Reads.leaf {token : Token} {node : Node} (alone : leaf? token = some node) :
    Reads primaryRank [token] (node, token.span) := by
  intro rest result limit stops positive goesOn fuel fuelled
  obtain ⟨fuel, rfl⟩ := Nat.exists_eq_succ_of_ne_zero (by omega : fuel ≠ 0)
  have other : ¬isMark .openRound token = true := by
    intro opens
    rw [leaf?, kind_of_isMark opens] at alone
    cases alone
  change primary (fuel + 1) (token :: rest) = .ok result
  rw [primary, if_neg other, alone]
  exact goesOn limit le_rfl

theorem ReadsArgs.none : ReadsArgs [] [] := by
  intro closing rest closes fuel fuelled
  obtain ⟨fuel, rfl⟩ := Nat.exists_eq_succ_of_ne_zero (by omega : fuel ≠ 0)
  rw [List.nil_append, arguments, if_pos (isMark_of_kind closes)]

theorem ReadsMore.none : ReadsMore [] [] := by
  intro closing rest closes fuel fuelled
  obtain ⟨fuel, rfl⟩ := Nat.exists_eq_succ_of_ne_zero (by omega : fuel ≠ 0)
  have other : ¬isMark .comma closing = true := by simp [isMark, closes]
  rw [List.nil_append, moreArguments, if_neg other]

theorem MoreArgs.first {args : List Node} (derived : MoreArgs tokens args) :
    ∀ first ∈ tokens.head?, first.kind = .mark .comma := by
  intro first head
  cases derived with
  | none => cases head
  | next separates =>
    cases head
    exact separates

/-- An argument ends before a comma or the closing bracket. -/
theorem MoreArgs.stops {args : List Node} (derived : MoreArgs tokens args) {closing : Token}
    (closes : closing.kind = .mark .closeRound) : Stops 0 (tokens ++ closing :: rest) := by
  cases tokens with
  | nil => exact Stops.of_kind (Or.inl closes)
  | cons first later => exact Stops.of_kind (Or.inr (Or.inl (derived.first first rfl)))

theorem ReadsArgs.some {later : List Token} {args : List Node} (derived : Expr 0 tokens expr)
    (derivedLater : MoreArgs later args) (reads : Reads 0 tokens expr) (readsMore : ReadsMore later args) :
    ReadsArgs (tokens ++ later) (expr.1 :: args) := by
  intro closing rest closes fuel fuelled
  rw [List.length_append] at fuelled
  have positive := derived.length_pos
  obtain ⟨fuel, rfl⟩ := Nat.exists_eq_succ_of_ne_zero (by omega : fuel ≠ 0)
  have arg : expression fuel (tokens ++ (later ++ closing :: rest)) = .ok (expr, later ++ closing :: rest) :=
    reads.whole (derivedLater.stops closes) fuel (by omega)
  have others := readsMore closing rest closes fuel (by omega)
  obtain ⟨first, more, rfl, begins⟩ := derived.first
  have other : ¬isMark .closeRound first = true := by
    intro ends
    rw [kind_of_isMark ends] at begins
    cases begins
  rw [List.cons_append] at arg
  rw [List.append_assoc, List.cons_append, arguments, if_neg other, arg]
  simp only [bind, Except.bind, others]
  rfl

theorem ReadsMore.next {comma : Token} {later : List Token} {args : List Node} (separates : comma.kind = .mark .comma)
    (derivedLater : MoreArgs later args) (reads : Reads 0 tokens expr) (readsMore : ReadsMore later args) :
    ReadsMore (comma :: tokens ++ later) (expr.1 :: args) := by
  intro closing rest closes fuel fuelled
  simp only [List.length_append, List.length_cons] at fuelled
  obtain ⟨fuel, rfl⟩ := Nat.exists_eq_succ_of_ne_zero (by omega : fuel ≠ 0)
  have arg : expression fuel (tokens ++ (later ++ closing :: rest)) = .ok (expr, later ++ closing :: rest) :=
    reads.whole (derivedLater.stops closes) fuel (by omega)
  have others := readsMore closing rest closes fuel (by omega)
  rw [List.append_assoc, List.cons_append, moreArguments, if_pos (isMark_of_kind separates), arg]
  simp only [bind, Except.bind, others]
  rfl

end Expressions

mutual

/-- A derived expression is read. -/
theorem Expr.reads {rank : Nat} {tokens : List Token} {expr : Node × Span} : Expr rank tokens expr →
    Reads rank tokens expr
  | .assign name equals inner => inner.reads.assign name equals
  | .looser inner => inner.reads.looser inner
  | .join joins left right => left.reads.join joins right.reads
  | .sign signs inner => inner.reads.sign signs
  | .call opens closes callee args => callee.reads.call opens closes args.reads
  | .grouping opens closes inner => inner.reads.grouping opens closes
  | .leaf alone => .leaf alone

theorem Args.reads {tokens : List Token} {args : List Node} : Args tokens args → ReadsArgs tokens args
  | .none => .none
  | .some first later => .some first later first.reads later.reads

theorem MoreArgs.reads {tokens : List Token} {args : List Node} : MoreArgs tokens args → ReadsMore tokens args
  | .none => .none
  | .next separates first later => .next separates later first.reads later.reads

end

theorem expression_eq {tokens : List Token} {expr : Node × Span} (derived : Expr 0 tokens expr)
    {rest : List Token} (stops : Stops 0 rest) (fuel : Nat) (fuelled : 16 * tokens.length + 11 ≤ fuel) :
    expression fuel (tokens ++ rest) = .ok (expr, rest) :=
  derived.reads.whole stops fuel (by omega)

theorem name_eq {target : Token} (named : target.kind = .name) (later : List Token) :
    name (target :: later) = .ok (target, later) :=
  expect_eq (by rw [named]; exact beq_self_eq_true _) later

theorem bound_eq {token : Token} (kind : token.kind = .bound) (later : List Token) :
    bound (token :: later) = .ok (Token.intValue token.text, later) := by
  rw [bound, expect_eq (by rw [kind]; exact beq_self_eq_true _)]
  rfl

/-- A range is read up to the block behind it. -/
theorem Bounds.reads {tokens : List Token} {range : Json × Json} (derived : Bounds tokens range) {opening : Token}
    (opens : opening.kind = .mark .openCurly) (rest : List Token) :
    bounds (tokens ++ opening :: rest) = .ok (range, opening :: rest) := by
  cases derived with
  | one first =>
    have other : ¬isMark .range opening = true := by simp [isMark, opens]
    rw [List.singleton_append, bounds, bound_eq first]
    simp only [bind, Except.bind, if_neg other]
    rfl
  | two first separates second =>
    rw [List.cons_append, List.cons_append, List.singleton_append, bounds, bound_eq first]
    simp only [bind, Except.bind, if_pos (isMark_of_kind separates), bound_eq second]
    rfl

theorem MoreParams.reads {tokens : List Token} {params : List Json} (derived : MoreParams tokens params)
    {closing : Token} (closes : closing.kind = .mark .closeRound) (rest : List Token) :
    moreParameters (tokens ++ closing :: rest) = .ok (params, closing :: rest) := by
  induction derived with
  | none =>
    have other : ¬isMark .comma closing = true := by simp [isMark, closes]
    cases rest with
    | nil => rw [List.nil_append, moreParameters, if_neg other]
    | cons next rest => rw [List.nil_append, moreParameters, if_neg other]
  | next separates named _ ih =>
    have isName : (_ == Kind.name) = true := beq_iff_eq.mpr named
    rw [List.cons_append, List.cons_append, moreParameters, if_pos (isMark_of_kind separates), if_pos isName, ih]
    rfl

/-- Parameters are read up to the closing bracket. -/
theorem Params.reads {tokens : List Token} {params : List Json} (derived : Params tokens params) {closing : Token}
    (closes : closing.kind = .mark .closeRound) (rest : List Token) :
    parameters (tokens ++ closing :: rest) = .ok (params, closing :: rest) := by
  cases derived with
  | none => rw [List.nil_append, parameters, if_pos (isMark_of_kind closes)]
  | @some param _ _ named later =>
    have other : ¬isMark .closeRound param = true := by simp [isMark, named]
    have isName : (param.kind == Kind.name) = true := beq_iff_eq.mpr named
    rw [List.cons_append, parameters, if_neg other, if_pos isName, later.reads closes]
    rfl

/-- Whether a statement without a block may end before some tokens. -/
def EndsSimple (rest : List Token) : Prop :=
  ∀ token ∈ rest.head?, token.kind = .mark .semicolon ∨ token.kind = .mark .closeCurly

theorem EndsSimple.stops {rest : List Token} (ends : EndsSimple rest) : Stops 0 rest := by
  cases rest with
  | nil => exact Stops.nil
  | cons token later =>
    rcases ends token rfl with kind | kind
    · exact Stops.of_kind (by simp [kind])
    · exact Stops.of_kind (by simp [kind])

theorem EndsSimple.head {rest : List Token} (ends : EndsSimple rest) :
    (rest.head?.all fun next => isMark .semicolon next || isMark .closeCurly next) = true := by
  cases rest with
  | nil => rfl
  | cons token later => rcases ends token rfl with kind | kind <;> simp [isMark, kind]

theorem AtEnd.endsSimple {inBlock : Bool} {rest : List Token} (last : AtEnd inBlock rest) : EndsSimple rest := by
  intro token head
  unfold AtEnd at last
  split at last
  · obtain ⟨closing, later, rfl, closes⟩ := last
    cases head
    exact Or.inr closes
  · subst rest
    cases head

theorem simple_expression {fuel : Nat} {token : Token} {later rest : List Token} {expr : Node × Span}
    (begins : Mode.beginsOperand token.kind) (read : expression fuel (token :: later) = .ok (expr, rest)) :
    simple fuel (token :: later) = .ok (.exprStmt expr.1 (some (.ofSpan expr.2)), rest) := by
  rw [simple]
  split
  next kind => rw [kind] at begins; cases begins
  next kind => rw [kind] at begins; cases begins
  next kind => rw [kind] at begins; cases begins
  next => rw [read]; rfl

/-- A statement without a block is read up to its end. -/
theorem Simple.reads {tokens : List Token} {node : Node} (derived : Simple tokens node) {rest : List Token}
    (ends : EndsSimple rest) {fuel : Nat} (fuelled : 16 * tokens.length + 11 ≤ fuel) :
    simple fuel (tokens ++ rest) = .ok (node, rest) := by
  cases derived with
  | print begins inner =>
    rw [List.length_cons] at fuelled
    rw [List.cons_append, simple, begins]
    simp only [expression_eq inner ends.stops fuel (by omega)]
    rfl
  | declare begins named equals inner =>
    simp only [List.length_cons] at fuelled
    rw [List.cons_append, simple, begins]
    simp only [List.cons_append, name_eq named, bind, Except.bind, if_pos (isMark_of_kind equals),
      expression_eq inner ends.stops fuel (by omega)]
    rfl
  | declareEmpty begins named =>
    rw [List.cons_append, simple, begins]
    simp only [List.cons_append, List.nil_append, name_eq named, bind, Except.bind]
    cases rest with
    | nil => rfl
    | cons token later =>
      have other : ¬isMark .assign token = true := by rcases ends token rfl with kind | kind <;> simp [isMark, kind]
      simp only [if_neg other]
      rfl
  | @«return» _ tokens _ begins inner =>
    rw [List.length_cons] at fuelled
    have value := expression_eq inner ends.stops fuel (by omega)
    obtain ⟨first, later, rfl, beginsValue⟩ := inner.first
    have other : ((first :: later ++ rest).head?.all fun next =>
        isMark .semicolon next || isMark .closeCurly next) ≠ true := by
      intro ends
      rcases (Bool.or_eq_true _ _).mp ends with kind | kind
      · rw [kind_of_isMark kind] at beginsValue
        cases beginsValue
      · rw [kind_of_isMark kind] at beginsValue
        cases beginsValue
    rw [List.cons_append, simple, begins]
    simp only [if_neg other, value]
    rfl
  | returnEmpty begins =>
    rw [List.cons_append, List.nil_append, simple, begins]
    simp only [if_pos ends.head]
  | expr inner =>
    have value := expression_eq inner ends.stops _ fuelled
    obtain ⟨first, later, rfl, begins⟩ := inner.first
    exact simple_expression begins value

/-- Whether some tokens do not go on with the alternative of a condition. -/
def NoAlternative (rest : List Token) : Prop := ∀ token ∈ rest.head?, token.kind ≠ .word .else

theorem AtEnd.noAlternative {inBlock : Bool} {rest : List Token} (last : AtEnd inBlock rest) : NoAlternative rest := by
  intro token head
  rcases last.endsSimple token head with kind | kind <;> simp [kind]

theorem Statements.noAlternative {tokens : List Token} {nodes : List Node} (derived : Statements tokens nodes)
    {inBlock : Bool} {rest : List Token} (last : AtEnd inBlock rest) : NoAlternative (tokens ++ rest) := by
  cases tokens with
  | nil => exact last.noAlternative
  | cons first later =>
    intro token head
    cases head
    have begins := derived.first first rfl
    intro kind
    rw [kind] at begins
    cases begins

/-- Statements are read up to the end of the block or the program. -/
def ReadsStatements (tokens : List Token) (nodes : List Node) : Prop :=
  ∀ inBlock rest, AtEnd inBlock rest → ∀ fuel ≥ 16 * tokens.length + 16,
    statements fuel inBlock (tokens ++ rest) = .ok (nodes, rest)

def ReadsBlock (tokens : List Token) (body : List Node × Span) : Prop :=
  ∀ rest, ∀ fuel ≥ 16 * tokens.length, block fuel (tokens ++ rest) = .ok (body, rest)

def ReadsCompound (tokens : List Token) (node : Node × Span) : Prop :=
  ∀ rest, NoAlternative rest → ∀ fuel ≥ 16 * tokens.length + 1, compound fuel (tokens ++ rest) = .ok (node, rest)

def ReadsAlternative (tokens : List Token) (node : Node × Span) : Prop :=
  ∀ rest, NoAlternative rest → ∀ fuel ≥ 16 * tokens.length, alternative fuel (tokens ++ rest) = .ok (some node, rest)

theorem ReadsStatements.none : ReadsStatements [] [] := by
  intro inBlock rest last fuel fuelled
  obtain ⟨fuel, rfl⟩ := Nat.exists_eq_succ_of_ne_zero (by omega : fuel ≠ 0)
  unfold AtEnd at last
  split at last
  next inside =>
    obtain ⟨closing, later, rfl, closes⟩ := last
    have other : ¬isMark .semicolon closing = true := by simp [isMark, closes]
    rw [List.nil_append, statements, if_neg other, if_pos (isMark_of_kind closes), if_pos inside]
  next outside =>
    subst rest
    rw [List.nil_append, statements, if_neg outside]

section Statements

variable {tokens later rest : List Token} {node : Node} {nodes : List Node}

theorem ReadsStatements.semicolon {mark : Token} (ends : mark.kind = .mark .semicolon)
    (reads : ReadsStatements tokens nodes) : ReadsStatements (mark :: tokens) nodes := by
  intro inBlock rest last fuel fuelled
  rw [List.length_cons] at fuelled
  obtain ⟨fuel, rfl⟩ := Nat.exists_eq_succ_of_ne_zero (by omega : fuel ≠ 0)
  rw [List.cons_append, statements, if_pos (isMark_of_kind ends)]
  exact reads inBlock rest last fuel (by omega)

theorem beginsSimple_cases {token : Token} (begins : beginsSimple token.kind) :
    ¬isMark .semicolon token = true ∧ ¬isMark .closeCurly token = true ∧ ¬beginsCompound token = true := by
  refine ⟨fun ends => ?_, fun closes => ?_, fun compound => ?_⟩
  · rw [kind_of_isMark ends] at begins
    cases begins
  · rw [kind_of_isMark closes] at begins
    cases begins
  · unfold beginsCompound at compound
    split at compound
    next kind => rw [kind] at begins; cases begins
    next kind => rw [kind] at begins; cases begins
    next kind => rw [kind] at begins; cases begins
    next kind => rw [kind] at begins; cases begins
    next kind => rw [kind] at begins; cases begins
    next => cases compound

theorem beginsCompound_cases {token : Token} (begins : beginsCompound token) :
    ¬isMark .semicolon token = true ∧ ¬isMark .closeCurly token = true := by
  refine ⟨fun ends => ?_, fun closes => ?_⟩
  · rw [beginsCompound, kind_of_isMark ends] at begins
    cases begins
  · rw [beginsCompound, kind_of_isMark closes] at begins
    cases begins

/-- Statements that begin with one without a block. -/
theorem statements_simple {fuel : Nat} {inBlock : Bool} (derived : Simple tokens node)
    (first : simple fuel (tokens ++ later) = .ok (node, later))
    (others : afterSimple fuel inBlock later = .ok (nodes, rest)) :
    statements (fuel + 1) inBlock (tokens ++ later) = .ok (node :: nodes, rest) := by
  obtain ⟨token, more, rfl, begins⟩ := derived.first
  obtain ⟨noEnd, noClose, noBlock⟩ := beginsSimple_cases begins
  rw [List.cons_append] at first ⊢
  rw [statements, if_neg noEnd, if_neg noClose, if_neg noBlock, first]
  simp only [bind, Except.bind, others]
  rfl

theorem afterSimple_ends {fuel : Nat} {inBlock : Bool} (ends : EndsSimple later) :
    afterSimple (fuel + 1) inBlock later = statements fuel inBlock later := by
  cases later with
  | nil => rfl
  | cons token more =>
    have found := ends.head
    exact if_pos found

theorem ReadsStatements.last (derived : Simple tokens node) : ReadsStatements tokens [node] := by
  intro inBlock rest last fuel fuelled
  obtain ⟨fuel, rfl⟩ := Nat.exists_eq_succ_of_ne_zero (by omega : fuel ≠ 0)
  obtain ⟨fuel, rfl⟩ := Nat.exists_eq_succ_of_ne_zero (by omega : fuel ≠ 0)
  have positive := derived.length_pos
  refine statements_simple derived (derived.reads last.endsSimple (by omega)) ?_
  rw [afterSimple_ends last.endsSimple]
  exact ReadsStatements.none inBlock rest last fuel (by simp only [List.length_nil]; omega)

theorem ReadsStatements.simple {mark : Token} (derived : Simple tokens node) (ends : mark.kind = .mark .semicolon)
    (reads : ReadsStatements later nodes) : ReadsStatements (tokens ++ mark :: later) (node :: nodes) := by
  intro inBlock rest last fuel fuelled
  rw [List.length_append, List.length_cons] at fuelled
  obtain ⟨fuel, rfl⟩ := Nat.exists_eq_succ_of_ne_zero (by omega : fuel ≠ 0)
  obtain ⟨fuel, rfl⟩ := Nat.exists_eq_succ_of_ne_zero (by omega : fuel ≠ 0)
  have endsHere : EndsSimple (mark :: later ++ rest) := by
    intro token head
    cases head
    exact Or.inl ends
  have positive := derived.length_pos
  rw [List.append_assoc]
  refine statements_simple derived (derived.reads endsHere (by omega)) ?_
  rw [afterSimple_ends endsHere]
  exact ReadsStatements.semicolon ends reads inBlock rest last fuel (by simp only [List.length_cons]; omega)

theorem ReadsStatements.compound {node : Node × Span} (derived : Compound tokens node)
    (derivedLater : Statements later nodes) (reads : ReadsCompound tokens node)
    (readsLater : ReadsStatements later nodes) : ReadsStatements (tokens ++ later) (node.1 :: nodes) := by
  intro inBlock rest last fuel fuelled
  rw [List.length_append] at fuelled
  obtain ⟨fuel, rfl⟩ := Nat.exists_eq_succ_of_ne_zero (by omega : fuel ≠ 0)
  have first := reads (later ++ rest) (derivedLater.noAlternative last) fuel (by omega)
  obtain ⟨token, more, rfl, begins⟩ := derived.first
  rw [List.length_cons] at fuelled
  have others := readsLater inBlock rest last fuel (by omega)
  obtain ⟨noEnd, noClose⟩ := beginsCompound_cases begins
  rw [List.cons_append] at first
  rw [List.append_assoc, List.cons_append, statements, if_neg noEnd, if_neg noClose, if_pos begins, first]
  simp only [bind, Except.bind, others]
  rfl

theorem ReadsBlock.curly {opening closing : Token} (opens : opening.kind = .mark .openCurly)
    (closes : closing.kind = .mark .closeCurly) (reads : ReadsStatements tokens nodes) :
    ReadsBlock (opening :: tokens ++ [closing]) (nodes, opening.span.to closing.span) := by
  intro rest fuel fuelled
  simp only [List.length_append, List.length_cons, List.length_nil] at fuelled
  obtain ⟨fuel, rfl⟩ := Nat.exists_eq_succ_of_ne_zero (by omega : fuel ≠ 0)
  have inner := reads true (closing :: rest) ⟨closing, rest, rfl, closes⟩ fuel (by omega)
  have split : opening :: tokens ++ [closing] ++ rest = opening :: (tokens ++ closing :: rest) := by simp
  rw [split, block, expect_eq (isMark_of_kind opens)]
  simp only [bind, Except.bind, inner, expect_eq (isMark_of_kind closes)]
  rfl

theorem alternative_none {fuel : Nat} (other : NoAlternative rest) :
    alternative (fuel + 1) rest = .ok (none, rest) := by
  cases rest with
  | nil => rfl
  | cons token later =>
    have differs : ¬isWord .else token = true := by simpa [isWord] using other token rfl
    rw [alternative.eq_def]
    simp only [if_neg differs]

/-- An expression ends before a block. -/
theorem Block.stops {body : List Node × Span} (derived : Block tokens body) (rest : List Token) :
    Stops 0 (tokens ++ rest) := by
  obtain ⟨opening, later, rfl, opens⟩ := derived.first
  exact Stops.of_kind (by simp [opens])

theorem ReadsCompound.if {word : Token} {bodyTokens : List Token} {condition : Node × Span}
    {body : List Node × Span} (begins : word.kind = .word .if) (derived : Expr 0 tokens condition)
    (derivedBody : Block bodyTokens body) (reads : ReadsBlock bodyTokens body) :
    ReadsCompound (word :: tokens ++ bodyTokens)
      (.ifStmt condition.1 (.block body.1 (some (.ofSpan body.2))) .absent (some (.ofSpan (word.span.to body.2))),
        word.span.to body.2) := by
  intro rest other fuel fuelled
  simp only [List.length_append, List.length_cons] at fuelled
  obtain ⟨fuel, rfl⟩ := Nat.exists_eq_succ_of_ne_zero (by omega : fuel ≠ 0)
  obtain ⟨fuel, rfl⟩ := Nat.exists_eq_succ_of_ne_zero (by omega : fuel ≠ 0)
  have asked := expression_eq derived (derivedBody.stops rest) (fuel + 1) (by omega)
  have inner := reads rest (fuel + 1) (by omega)
  rw [List.append_assoc, List.cons_append, Grammar.compound, begins]
  simp only [asked, bind, Except.bind, inner, alternative_none other]
  rfl

theorem ReadsCompound.ifElse {word : Token} {bodyTokens otherTokens : List Token} {condition other : Node × Span}
    {body : List Node × Span} (begins : word.kind = .word .if) (derived : Expr 0 tokens condition)
    (derivedBody : Block bodyTokens body) (reads : ReadsBlock bodyTokens body)
    (readsOther : ReadsAlternative otherTokens other) :
    ReadsCompound (word :: tokens ++ bodyTokens ++ otherTokens)
      (.ifStmt condition.1 (.block body.1 (some (.ofSpan body.2))) other.1 (some (.ofSpan (word.span.to other.2))),
        word.span.to other.2) := by
  intro rest noElse fuel fuelled
  simp only [List.length_append, List.length_cons] at fuelled
  obtain ⟨fuel, rfl⟩ := Nat.exists_eq_succ_of_ne_zero (by omega : fuel ≠ 0)
  have asked := expression_eq derived (derivedBody.stops (otherTokens ++ rest)) fuel (by omega)
  have inner := reads (otherTokens ++ rest) fuel (by omega)
  have branch := readsOther rest noElse fuel (by omega)
  rw [List.append_assoc, List.append_assoc, List.cons_append, Grammar.compound, begins]
  simp only [asked, bind, Except.bind, inner, branch]
  rfl

theorem ReadsCompound.while {word : Token} {bodyTokens : List Token} {condition : Node × Span}
    {body : List Node × Span} (begins : word.kind = .word .while) (derived : Expr 0 tokens condition)
    (derivedBody : Block bodyTokens body) (reads : ReadsBlock bodyTokens body) :
    ReadsCompound (word :: tokens ++ bodyTokens)
      (.whileStmt condition.1 (.block body.1 (some (.ofSpan body.2))) (some (.ofSpan (word.span.to body.2))),
        word.span.to body.2) := by
  intro rest other fuel fuelled
  simp only [List.length_append, List.length_cons] at fuelled
  obtain ⟨fuel, rfl⟩ := Nat.exists_eq_succ_of_ne_zero (by omega : fuel ≠ 0)
  have asked := expression_eq derived (derivedBody.stops rest) fuel (by omega)
  have inner := reads rest fuel (by omega)
  rw [List.append_assoc, List.cons_append, Grammar.compound, begins]
  simp only [asked, bind, Except.bind, inner]
  rfl

theorem ReadsCompound.for {word target member : Token} {bodyTokens : List Token} {range : Json × Json}
    {body : List Node × Span} (begins : word.kind = .word .for) (named : target.kind = .name)
    (within : member.kind = .word .in) (derived : Bounds tokens range) (derivedBody : Block bodyTokens body)
    (reads : ReadsBlock bodyTokens body) :
    ReadsCompound (word :: target :: member :: tokens ++ bodyTokens)
      (.forStmt (.varDecl (textOf target) .absent (some (.ofSpan target.span))) range.1 range.2
        (.block body.1 (some (.ofSpan body.2))) (some (.ofSpan (word.span.to body.2))), word.span.to body.2) := by
  intro rest other fuel fuelled
  simp only [List.length_append, List.length_cons] at fuelled
  obtain ⟨fuel, rfl⟩ := Nat.exists_eq_succ_of_ne_zero (by omega : fuel ≠ 0)
  have inner := reads rest fuel (by omega)
  have isIn : isWord .in member := beq_iff_eq.mpr within
  obtain ⟨opening, later, rfl, opens⟩ := derivedBody.first
  have bounded := derived.reads opens (later ++ rest)
  rw [List.cons_append] at inner
  rw [List.append_assoc, List.cons_append, List.cons_append, List.cons_append, Grammar.compound, begins]
  simp only [name_eq named, bind, Except.bind, expect_eq isIn, List.cons_append, bounded, inner]
  rfl

theorem ReadsCompound.function {word target opening closing : Token} {bodyTokens : List Token} {params : List Json}
    {body : List Node × Span} (begins : word.kind = .word .fn) (named : target.kind = .name)
    (opens : opening.kind = .mark .openRound) (closes : closing.kind = .mark .closeRound)
    (derived : Params tokens params) (reads : ReadsBlock bodyTokens body) :
    ReadsCompound (word :: target :: opening :: tokens ++ closing :: bodyTokens)
      (.fnDecl (textOf target) params body.1 (some (.ofSpan (word.span.to body.2))), word.span.to body.2) := by
  intro rest other fuel fuelled
  simp only [List.length_append, List.length_cons] at fuelled
  obtain ⟨fuel, rfl⟩ := Nat.exists_eq_succ_of_ne_zero (by omega : fuel ≠ 0)
  have inner := reads rest fuel (by omega)
  have listed := derived.reads closes (bodyTokens ++ rest)
  rw [List.append_assoc, List.cons_append, List.cons_append, List.cons_append, Grammar.compound, begins]
  simp only [name_eq named, bind, Except.bind, expect_eq (isMark_of_kind opens), List.cons_append, listed,
    expect_eq (isMark_of_kind closes), inner]
  rfl

theorem ReadsCompound.block {body : List Node × Span} (derived : Block tokens body) (reads : ReadsBlock tokens body) :
    ReadsCompound tokens (.block body.1 (some (.ofSpan body.2)), body.2) := by
  intro rest other fuel fuelled
  obtain ⟨fuel, rfl⟩ := Nat.exists_eq_succ_of_ne_zero (by omega : fuel ≠ 0)
  have inner := reads rest fuel (by omega)
  obtain ⟨opening, later, rfl, opens⟩ := derived.first
  rw [List.cons_append] at inner
  rw [List.cons_append, Grammar.compound, opens]
  simp only [inner, bind, Except.bind]
  rfl

theorem ReadsAlternative.else {word first : Token} {node : Node × Span} (begins : word.kind = .word .else)
    (branch : first.kind = .word .if ∨ first.kind = .mark .openCurly) (reads : ReadsCompound (first :: tokens) node) :
    ReadsAlternative (word :: first :: tokens) node := by
  intro rest other fuel fuelled
  simp only [List.length_cons] at fuelled
  obtain ⟨fuel, rfl⟩ := Nat.exists_eq_succ_of_ne_zero (by omega : fuel ≠ 0)
  have inner := reads rest other fuel (by simp only [List.length_cons]; omega)
  have isElse : isWord .else word := beq_iff_eq.mpr begins
  have isBranch : (isWord .if first || isMark .openCurly first) = true := by
    rcases branch with kind | kind <;> simp [isWord, isMark, kind]
  rw [List.cons_append] at inner
  rw [alternative.eq_def]
  simp only [List.cons_append, if_pos isElse, if_pos isBranch, inner, bind, Except.bind]
  rfl

end Statements

mutual

/-- Derived statements are read. -/
theorem Statements.reads {tokens : List Token} {nodes : List Node} : Statements tokens nodes →
    ReadsStatements tokens nodes
  | .none => .none
  | .last only => .last only
  | .semicolon ends later => later.reads.semicolon ends
  | .simple first ends later => .simple first ends later.reads
  | .compound first later => .compound first later first.reads later.reads

theorem Block.reads {tokens : List Token} {body : List Node × Span} : Block tokens body → ReadsBlock tokens body
  | .curly opens closes inner => .curly opens closes inner.reads

theorem Compound.reads {tokens : List Token} {node : Node × Span} : Compound tokens node → ReadsCompound tokens node
  | .if begins condition body => .if begins condition body body.reads
  | .ifElse begins condition body other => .ifElse begins condition body body.reads other.reads
  | .while begins condition body => .while begins condition body body.reads
  | .for begins name within range body => .for begins name within range body body.reads
  | .function begins name opens closes params body => .function begins name opens closes params body.reads
  | .block body => .block body body.reads

theorem Alternative.reads {tokens : List Token} {node : Node × Span} : Alternative tokens node →
    ReadsAlternative tokens node
  | .else begins branch inner => .else begins branch inner.reads

end

/-- The programs that are read are those that the grammar derives. -/
theorem program_iff {tokens : List Token} {nodes : List Node} :
    program tokens = .ok (nodes, []) ↔ Statements tokens nodes := by
  constructor
  · exact program_derived
  · intro derived
    have last : AtEnd false [] := by rw [AtEnd, if_neg Bool.false_ne_true]
    have read := derived.reads false [] last (16 * (tokens.length + 1)) (by omega)
    rwa [List.append_nil] at read

end PhyLang.Grammar
