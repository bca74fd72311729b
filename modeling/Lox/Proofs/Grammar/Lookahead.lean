import Lox.Proofs.Grammar.Derivation

/-!
# The tokens at the edges of a phrase

A rule decides what to do by the token that comes next. Two things are said here of a derivation
for that: the token at which a phrase begins (`Derives.starts`), and the tokens behind which an
expression would go on (`Stops`). No token of a phrase is an end (`Derives.not_end`).
-/

namespace Lox.Grammar

/-! ## Where a phrase begins -/

/-- The tokens begin as an expression does; a `fun` there has a parenthesis behind it. -/
def StartsExpression (ts : List Token) : Prop :=
  ∃ t us, ts = t :: us ∧ (opensPrimary t = true ∨ isUnaryOperator t = true) ∧
    (t.isKeyword .funKw = true → us.head?.any (Token.isMark .leftParen) = true)

/-- Where an expression begins, it does so with more tokens behind. -/
theorem StartsExpression.append {ts : List Token} (h : StartsExpression ts) (us : List Token) :
    StartsExpression (ts ++ us) := by
  obtain ⟨t, vs, rfl, ht, hfun⟩ := h
  refine ⟨t, vs ++ us, rfl, ht, fun hk => ?_⟩
  cases vs with
  | nil => exact absurd (hfun hk) Bool.false_ne_true
  | cons v vs => exact hfun hk

/-- A token that begins an expression other than a function literal. -/
theorem startsExpression_cons {t : Token} {us : List Token}
    (ht : opensPrimary t = true ∨ isUnaryOperator t = true) (hk : t.isKeyword .funKw = false) :
    StartsExpression (t :: us) :=
  ⟨t, us, rfl, ht, fun h => absurd (hk.symm.trans h) Bool.false_ne_true⟩

/-- A test that fails for every token at which an expression may begin fails for these tokens. -/
theorem StartsExpression.head?_any {ts : List Token} (h : StartsExpression ts)
    {test : Token → Bool}
    (htest : ∀ t, test t = true → opensPrimary t = false ∧ isUnaryOperator t = false) :
    ts.head?.any test = false := by
  obtain ⟨t, us, rfl, ht, -⟩ := h
  cases hb : test t with
  | false => exact hb
  | true =>
    obtain ⟨hprimary, hunary⟩ := htest t hb
    rw [hprimary, hunary] at ht
    rcases ht with ht | ht <;> exact absurd ht Bool.false_ne_true

/-- An expression begins with no mark but a parenthesis or an operator. -/
theorem StartsExpression.head?_isMark {ts : List Token} (h : StartsExpression ts) {m : Mark}
    (hm : m ≠ .leftParen ∧ m ≠ .bang ∧ m ≠ .minus) : ts.head?.any (Token.isMark m) = false := by
  refine h.head?_any fun t ht => ?_
  rw [Token.isMark_iff] at ht
  obtain ⟨hparen, hbang, hminus⟩ := hm
  constructor
  · cases m <;> simp_all [opensPrimary, Token.literal?]
  · simp [isUnaryOperator, Token.isMark, ht, hbang, hminus]

/-- An expression begins with no keyword of a statement. -/
theorem StartsExpression.head?_isKeyword {ts : List Token} (h : StartsExpression ts)
    {k : Keyword} (hk : opensPrimary ⟨.keyword k, "", 0⟩ = false) :
    ts.head?.any (Token.isKeyword k) = false := by
  refine h.head?_any fun t ht => ?_
  rw [Token.isKeyword_iff] at ht
  constructor
  · rw [← hk]
    unfold opensPrimary Token.literal?
    rw [ht]
  · simp [isUnaryOperator, Token.isMark, ht]

/-- An expression begins with nothing that another statement begins with. -/
theorem StartsExpression.head?_opensStatement {ts : List Token} (h : StartsExpression ts) :
    ts.head?.any opensStatement = false := by
  refine h.head?_any fun t ht => ?_
  unfold opensStatement at ht
  split at ht <;> simp_all [opensPrimary, isUnaryOperator, Token.isMark, Token.literal?]

/-- How the tokens of a phrase begin, for the phrases that begin as an expression may. -/
def Phrase.Starts : Phrase → List Token → Prop
  | .expression _ _, ts | .argumentRow _, ts | .expressionStatement _, ts => StartsExpression ts
  | .statement _ _, ts => StartsExpression ts ∨ ts.head?.any opensStatement = true
  | .block _, ts => ts.head?.any opensStatement = true
  | _, _ => True

/-- Every phrase begins as it should. -/
theorem Derives.starts {phrase : Phrase} {ts : List Token} (h : Derives phrase ts) :
    phrase.Starts ts := by
  induction h with
  -- phrases that begin with a part begin as this part does
  | tighter _ _ ih => exact ih
  | joined _ _ _ ih => exact ih.append _
  | assign hn =>
    rw [Token.isIdentifier_iff] at hn
    exact startsExpression_cons (.inl (by simp [opensPrimary, hn])) (by simp [Token.isKeyword, hn])
  | set _ _ _ _ _ ih => exact ih.append _
  | conditional _ _ _ _ _ ih => exact ih.append _
  | @unary operator _ _ ho =>
    refine startsExpression_cons (.inr ho) ?_
    unfold isUnaryOperator Token.isMark at ho
    cases hk : operator.kind <;> simp_all [Token.isKeyword]
  | call _ _ _ _ ih => exact ih.append _
  | get _ _ _ ih => exact ih.append _
  | @literal t _ ht =>
    refine startsExpression_cons (.inl ?_) ?_
    · unfold opensPrimary
      split
      next => rfl
      next => rfl
      next => rfl
      next => rfl
      next => rfl
      next => rw [ht]; rfl
    · unfold Token.literal? at ht
      split at ht <;> simp_all [Token.isKeyword]
  | name hn =>
    rw [Token.isIdentifier_iff] at hn
    exact startsExpression_cons (.inl (by simp [opensPrimary, hn])) (by simp [Token.isKeyword, hn])
  | receiver hk =>
    rw [Token.isKeyword_iff] at hk
    exact startsExpression_cons (.inl (by simp [opensPrimary, hk])) (by simp [Token.isKeyword, hk])
  | inherited hk =>
    rw [Token.isKeyword_iff] at hk
    exact startsExpression_cons (.inl (by simp [opensPrimary, hk])) (by simp [Token.isKeyword, hk])
  | group ho =>
    rw [Token.isMark_iff] at ho
    exact startsExpression_cons (.inl (by simp [opensPrimary, ho])) (by simp [Token.isKeyword, ho])
  -- `fun` begins an expression only with a parenthesis behind it
  | functionLiteral hk ho =>
    rw [Token.isKeyword_iff] at hk
    exact ⟨_, _, rfl, .inl (by simp [opensPrimary, hk]), fun _ => ho⟩
  | lastArgument _ ih => exact ih
  | nextArgument _ _ _ ih => exact ih.append _
  | expressionStatement _ _ ih => exact ih.append _
  | block ho =>
    rw [Token.isMark_iff] at ho
    simp [Phrase.Starts, opensStatement, ho]
  | continueLoop hk | breakLoop hk | forLoop hk | ifThen hk | ifThenElse hk | input hk
  | print hk | returnValue hk | whileLoop hk =>
    rw [Token.isKeyword_iff] at hk
    exact .inr (by simp [opensStatement, hk])
  | empty he =>
    rw [Token.isMark_iff] at he
    exact .inr (by simp [opensStatement, he])
  | blockStatement _ ih => exact .inr ih
  | plain _ ih => exact .inl ih
  -- nothing is asked of the other phrases
  | _ => trivial

/-- An expression of any rank begins as one. -/
theorem Derives.startsExpression {rank : Rank} {e : Expr} {ts : List Token}
    (h : Derives (.expression rank e) ts) : StartsExpression ts :=
  h.starts

/-- What begins has a token. -/
theorem StartsExpression.length_pos {ts : List Token} (h : StartsExpression ts) :
    0 < ts.length := by
  obtain ⟨t, us, rfl, -⟩ := h
  exact Nat.succ_pos _

/-- A test on the next token says of tokens with others behind them what it says of them alone. -/
theorem head?_any_append {ts : List Token} (hpos : 0 < ts.length) (us : List Token)
    (test : Token → Bool) : (ts ++ us).head?.any test = ts.head?.any test := by
  cases ts with
  | nil => exact absurd hpos (Nat.lt_irrefl 0)
  | cons t ts => rfl

/-- An expression at least as tight as a call does not begin with a unary operator. -/
theorem Derives.head?_isUnaryOperator {rank : Rank} {e : Expr} {ts : List Token}
    (h : Derives (.expression rank e) ts) (hrank : Rank.call.index ≤ rank.index) :
    ts.head?.any isUnaryOperator = false := by
  generalize hp : Phrase.expression rank e = phrase at h
  induction h generalizing rank e with
  | @tighter own next _ _ hnext _ ih =>
    cases hp
    refine ih ?_ rfl
    cases own <;> cases hnext <;> first | decide | exact absurd hrank (by decide)
  | @joined level =>
    cases hp
    cases level <;> exact absurd hrank (by decide)
  -- these are looser than a call, as are all binary operators
  | assign | set | conditional | unary =>
    cases hp
    exact absurd hrank (by decide)
  | call hc _ _ _ ih | get hc _ _ ih =>
    cases hp
    rw [head?_any_append hc.startsExpression.length_pos]
    exact ih (Nat.le_refl _) rfl
  | literal ht =>
    cases hp
    unfold Token.literal? at ht
    split at ht <;> simp_all [isUnaryOperator, Token.isMark]
  | name hn =>
    rw [Token.isIdentifier_iff] at hn
    simp [isUnaryOperator, Token.isMark, hn]
  | receiver hk | inherited hk | functionLiteral hk =>
    rw [Token.isKeyword_iff] at hk
    simp [isUnaryOperator, Token.isMark, hk]
  | group ho =>
    rw [Token.isMark_iff] at ho
    simp [isUnaryOperator, Token.isMark, ho]
  | _ => cases hp

/-! ## Where an expression ends -/

/-- The rank of the expressions that the token goes on, if it goes on any. -/
def goesOn? (t : Token) : Option Rank :=
  match t.kind with
  | .mark .comma => some .comma
  | .mark .equal => some .assignment
  | .mark .question => some .conditional
  | .keyword .orKw => some .or
  | .keyword .andKw => some .and
  | .mark .bangEqual | .mark .equalEqual => some .equality
  | .mark .greater | .mark .greaterEqual | .mark .less | .mark .lessEqual => some .comparison
  | .mark .minus | .mark .plus => some .term
  | .mark .slash | .mark .star => some .factor
  | .mark .leftParen | .mark .dot => some .call
  | _ => none

/-- An expression of the rank ends before these tokens: the first one, if there is one, goes on
only looser expressions. -/
def Stops (rank : Rank) (rest : List Token) : Prop :=
  ∀ t r, rest.head? = some t → goesOn? t = some r → r.index < rank.index

/-- Where an expression ends, a tighter one does. -/
theorem Stops.le {rank rank' : Rank} {rest : List Token} (h : Stops rank rest)
    (hle : rank.index ≤ rank'.index) : Stops rank' rest := by
  intro t r ht hr
  have := h t r ht hr
  omega

/-- Nothing goes on a primary expression. -/
theorem stops_primary (rest : List Token) : Stops .primary rest := by
  intro t r _ hr
  unfold goesOn? at hr
  split at hr <;> cases hr <;> decide

/-- Whether an expression ends is said by the token behind it. -/
theorem stops_cons {rank : Rank} {t : Token} {rest : List Token}
    (h : ∀ r, goesOn? t = some r → r.index < rank.index) : Stops rank (t :: rest) := by
  intro u r hu hr
  cases hu
  exact h r hr

/-- Before a mark that goes on nothing, or only what is looser, an expression ends. -/
theorem stops_mark {rank : Rank} {m : Mark} {t : Token} {rest : List Token}
    (ht : t.isMark m = true)
    (h : ∀ r, goesOn? ⟨.mark m, "", 0⟩ = some r → r.index < rank.index) :
    Stops rank (t :: rest) := by
  refine stops_cons fun r hr => h r ?_
  unfold goesOn? at hr ⊢
  rw [Token.isMark_iff.mp ht] at hr
  exact hr

/-- An operator goes on the expressions of its level. -/
theorem goesOn?_joins {level : Level} {t : Token} (h : level.joins t = true) :
    goesOn? t = some level.rank := by
  unfold Level.joins at h
  split at h <;> simp_all [goesOn?, Level.rank]

/-- Tokens that go on an expression of the rank, or a tighter one, do not follow where it ends. -/
theorem Stops.head?_any {rank own : Rank} {rest : List Token} {test : Token → Bool}
    (h : Stops rank rest) (hle : rank.index ≤ own.index)
    (htest : ∀ t, test t = true → goesOn? t = some own) : rest.head?.any test = false := by
  cases rest with
  | nil => rfl
  | cons t us =>
    cases hb : test t with
    | false => exact hb
    | true =>
      have := h t own rfl (htest t hb)
      omega

/-- A mark that would go on the expression does not come next. -/
theorem Stops.mark {rank : Rank} {m : Mark} {rest : List Token} (h : Stops rank rest)
    (hm : ∃ r, goesOn? ⟨.mark m, "", 0⟩ = some r ∧ rank.index ≤ r.index) :
    rest.head?.any (Token.isMark m) = false := by
  obtain ⟨own, hown, hle⟩ := hm
  refine h.head?_any hle fun t ht => ?_
  rw [← hown]
  unfold goesOn?
  rw [Token.isMark_iff.mp ht]

/-! ## No phrase holds an end -/

/-- The token can stand in a phrase. -/
def Inner (t : Token) : Prop :=
  t.isEnd = false

/-- A token of another kind than the end. -/
theorem inner_of_kind {t : Token} {k : Kind} (h : t.kind = k) (hk : k ≠ .eof) : Inner t := by
  unfold Inner Token.isEnd
  split
  next he => exact absurd (h.symm.trans he) hk
  next => rfl

/-- A mark is no end. -/
@[grind →]
theorem inner_of_isMark {m : Mark} {t : Token} (h : t.isMark m = true) : Inner t :=
  inner_of_kind (Token.isMark_iff.mp h) (by simp)

/-- A keyword is no end. -/
@[grind →]
theorem inner_of_isKeyword {k : Keyword} {t : Token} (h : t.isKeyword k = true) : Inner t :=
  inner_of_kind (Token.isKeyword_iff.mp h) (by simp)

/-- A name is no end. -/
@[grind →]
theorem inner_of_isIdentifier {t : Token} (h : t.isIdentifier = true) : Inner t :=
  inner_of_kind (Token.isIdentifier_iff.mp h) (by simp)

/-- A marker is no end. -/
@[grind →]
theorem inner_of_isMarker {marker : String} {t : Token} (h : isMarker marker t = true) :
    Inner t := by
  unfold isMarker at h
  rw [Bool.and_eq_true] at h
  exact inner_of_isIdentifier h.1

/-- A unary operator is no end. -/
@[grind →]
theorem inner_of_isUnaryOperator {t : Token} (h : isUnaryOperator t = true) : Inner t := by
  unfold isUnaryOperator at h
  rw [Bool.or_eq_true] at h
  rcases h with h | h
  · exact inner_of_isMark h
  · exact inner_of_isMark h

/-- A literal is no end. -/
@[grind →]
theorem inner_of_literal? {t : Token} {value : Literal} (h : t.literal? = some value) :
    Inner t := by
  unfold Inner Token.isEnd
  split
  next he => simp [Token.literal?, he] at h
  next => rfl

/-- An operator is no end. -/
@[grind →]
theorem inner_of_joins {level : Level} {t : Token} (h : level.joins t = true) : Inner t := by
  unfold Inner Token.isEnd
  split
  next he => cases level <;> simp [Level.joins, he] at h
  next => rfl

/-- No token of a phrase is an end. -/
theorem Derives.inner {phrase : Phrase} {ts : List Token} (h : Derives phrase ts) :
    ∀ t ∈ ts, Inner t := by
  induction h <;> grind

end Lox.Grammar
