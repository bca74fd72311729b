import Lox.Proofs.Grammar.Lookahead
import Lox.Proofs.Grammar.Reaches
import Lox.Proofs.Grammar.Soundness
import Lox.Proofs.Tree.Unsited

/-!
# What a rule does with its phrase

`Recognized phrase ts` says of the rule for a phrase what has to be shown if `ts` derives it: the
rule reads these tokens and no others, and gives the tree of the phrase up to sites.

The ranks whose rule looks for more once it has an expression need care. Their derivations grow to
the left while the rule runs in a loop, so what is claimed of them is where the loop stands when
the tokens are read (`Begins`), not what the rule returns; the latter follows where the expression
ends (`Begins.completes`).
-/

namespace Lox.Grammar

open Lox.Parser

/-! ## Expressions of every rank -/

/-- The rule for expressions of a rank. -/
def rankRule : Rank → Nat → Parser Expr
  | .comma, fuel => binary fuel .comma
  | .assignment, fuel => assignment fuel
  | .conditional, fuel => conditional fuel
  | .or, fuel => binary fuel .or
  | .and, fuel => binary fuel .and
  | .equality, fuel => binary fuel .equality
  | .comparison, fuel => binary fuel .comparison
  | .term, fuel => binary fuel .term
  | .factor, fuel => binary fuel .factor
  | .unary, fuel => unary fuel
  | .call, fuel => call fuel
  | .primary, fuel => primary fuel

/-- What the rule for a rank does once it has an expression that may still go on. -/
def rankRest : Rank → Nat → Expr → Parser Expr
  | .comma, fuel, e => binaryRest fuel .comma e
  | .or, fuel, e => binaryRest fuel .or e
  | .and, fuel, e => binaryRest fuel .and e
  | .equality, fuel, e => binaryRest fuel .equality e
  | .comparison, fuel, e => binaryRest fuel .comparison e
  | .term, fuel, e => binaryRest fuel .term e
  | .factor, fuel, e => binaryRest fuel .factor e
  | .call, fuel, e => callRest fuel e
  | _, _, e => pure e

/-- The rank of what must have ended where a rule for the rank looks for more. -/
def innerRank : Rank → Rank
  | .comma => .assignment
  | .or => .and
  | .and => .equality
  | .equality => .comparison
  | .comparison => .term
  | .term => .factor
  | .factor => .unary
  | .call => .primary
  | rank => rank

/-- The rule for the rank of a level is that for the level. -/
theorem rankRule_level (level : Level) (fuel : Nat) :
    rankRule level.rank fuel = binary fuel level := by
  cases level <;> rfl

/-- The rule for what follows an operand of a level is the one for its rank. -/
theorem rankRest_level (level : Level) (fuel : Nat) (e : Expr) :
    rankRest level.rank fuel e = binaryRest fuel level e := by
  cases level <;> rfl

/-- What must have ended are the operands. -/
theorem innerRank_level (level : Level) : innerRank level.rank = level.operandRank := by
  cases level <;> rfl

/-- The rule for the rank reads all of the tokens where they end an expression of the rank, and
gives `e` up to sites. -/
def Completes (rank : Rank) (e : Expr) (ts : List Token) : Prop :=
  ∀ ⦃fuel : Nat⦄ ⦃rest : List Token⦄, Covers fuel (ts.length + rest.length) (rankCost rank) →
    Stops rank rest → Reaches (rankRule rank fuel) ts rest fun e' => e'.unsited = e.unsited

/-- The rule for the rank reads the tokens as an expression `e` that may go on: what then becomes
of it is what `rankRest` makes of it. -/
def Begins (rank : Rank) (e : Expr) (ts : List Token) : Prop :=
  ∀ ⦃fuel : Nat⦄ ⦃us rest : List Token⦄ ⦃P : Expr → Prop⦄,
    Covers fuel (ts.length + (us.length + rest.length)) (rankCost rank) →
    Stops (innerRank rank) (us ++ rest) →
    (∀ fuel' e', Covers fuel' (us.length + rest.length) 1 → e'.unsited = e.unsited →
      Reaches (rankRest rank fuel' e') us rest P) →
    Reaches (rankRule rank fuel) (ts ++ us) rest P

/-- Fuel that covers a rule that costs something can be spent. -/
theorem Covers.exists_succ {fuel n cost : Nat} (h : Covers fuel n cost) (hc : 0 < cost) :
    ∃ fuel', fuel = fuel' + 1 := by
  cases fuel with
  | zero => unfold Covers at h; omega
  | succ fuel' => exact ⟨fuel', rfl⟩

/-- Fuel covers fewer tokens and a cheaper rule too. -/
theorem Covers.mono {fuel n m cost cost' : Nat} (h : Covers fuel n cost) (hm : m ≤ n)
    (hc : cost' ≤ cost) : Covers fuel m cost' := by
  unfold Covers callsPerToken at *
  omega

/-- Every rank costs something. -/
theorem rankCost_pos (rank : Rank) : 0 < rankCost rank := by
  cases rank <;> decide

theorem innerRank_index_le (rank : Rank) : rank.index ≤ (innerRank rank).index := by
  cases rank <;> decide

/-- Where the expression ends, nothing more is made of it. -/
theorem rankRest_reaches {rank : Rank} {fuel : Nat} {rest : List Token} {e : Expr}
    {P : Expr → Prop} (hcover : Covers fuel rest.length 1) (hstops : Stops rank rest) (he : P e) :
    Reaches (rankRest rank fuel e) [] rest P := by
  obtain ⟨fuel, rfl⟩ := hcover.exists_succ (by decide)
  have hlevel (level : Level) (h : Stops level.rank rest) :
      Reaches (binaryRest (fuel + 1) level e) [] rest P :=
    Reaches.take?_none (h.head?_any (Nat.le_refl _) fun t ht => goesOn?_joins ht) (Reaches.pure he)
  cases rank with
  | comma => exact hlevel .comma hstops
  | or => exact hlevel .or hstops
  | and => exact hlevel .and hstops
  | equality => exact hlevel .equality hstops
  | comparison => exact hlevel .comparison hstops
  | term => exact hlevel .term hstops
  | factor => exact hlevel .factor hstops
  | call =>
    refine Reaches.takes_false (hstops.mark ⟨.call, rfl, by decide⟩) ?_
    refine Reaches.takes_false (hstops.mark ⟨.call, rfl, by decide⟩) ?_
    exact Reaches.pure he
  | assignment | conditional | unary | primary => exact Reaches.pure he

/-- Where no operator of the rank follows, the expression does not go on. -/
theorem Begins.completes {rank : Rank} {e : Expr} {ts : List Token} (h : Begins rank e ts) :
    Completes rank e ts := by
  intro fuel rest hcover hstops
  have hall := @h fuel [] rest (fun e' => e'.unsited = e.unsited)
    (by rw [List.length_nil, Nat.zero_add]; exact hcover)
    (hstops.le (innerRank_index_le rank))
    fun fuel' e' hcover' he' => rankRest_reaches (by simpa using hcover') hstops he'
  rw [List.append_nil] at hall
  exact hall

/-- The ranks whose rule does not look for more read all of the expression or none of it. -/
theorem Completes.begins {rank : Rank} {e : Expr} {ts : List Token} (h : Completes rank e ts)
    (hinner : innerRank rank = rank) (hrest : ∀ fuel e', rankRest rank fuel e' = pure e') :
    Begins rank e ts := by
  intro fuel us rest P hcover hstops hnext
  rw [hinner] at hstops
  have hlen : (us ++ rest).length = us.length + rest.length := List.length_append
  have hcost := rankCost_pos rank
  have hrule := @h fuel (us ++ rest) (by rw [hlen]; exact hcover) hstops
  rw [← bind_pure (rankRule rank fuel)]
  refine Reaches.bind hrule fun e' he' => ?_
  rw [← hrest fuel e']
  refine hnext fuel e' ?_ he'
  unfold Covers at *
  rw [Nat.mul_add] at hcover
  omega

/-- An operand of a level is read as an expression of its rank. -/
theorem operand_reaches {level : Level} {fuel : Nat} {ts rest : List Token} {e : Expr}
    (h : Completes level.operandRank e ts)
    (hcover : Covers fuel (ts.length + rest.length) (operandCost level))
    (hstops : Stops level.operandRank rest) :
    Reaches (operand fuel level) ts rest fun e' => e'.unsited = e.unsited := by
  obtain ⟨fuel, rfl⟩ := hcover.exists_succ (Nat.succ_pos _)
  have hnext := hcover.next (Nat.lt_succ_self (rankCost level.operandRank))
  cases level <;> exact h hnext hstops

/-- What begins an expression of a rank with operators is an operand. -/
theorem Begins.level {level : Level} {e : Expr} {ts : List Token}
    (h : Completes level.operandRank e ts) (hpos : 0 < ts.length) : Begins level.rank e ts := by
  intro fuel us rest P hcover hstops hnext
  obtain ⟨fuel, rfl⟩ := hcover.exists_succ (rankCost_pos _)
  rw [innerRank_level] at hstops
  rw [rankRule_level]
  have hlen : (us ++ rest).length = us.length + rest.length := List.length_append
  have hoperand := @operand_reaches level fuel ts (us ++ rest) e h
    (by rw [hlen]; exact hcover.next (operandCost_lt level)) hstops
  refine Reaches.bind hoperand fun e' he' => ?_
  rw [← rankRest_level]
  exact hnext fuel e' (hcover.after (by omega) (by decide)) he'

/-- An expression stands for itself wherever a looser one may stand. -/
theorem Begins.tighter {rank next : Rank} {e : Expr} {ts : List Token}
    (hnext : rank.next? = some next) (hd : Derives (.expression next e) ts)
    (h : Begins next e ts) : Begins rank e ts := by
  have hpos := hd.startsExpression.length_pos
  have hc := h.completes
  cases rank with
  -- at the seven levels of binary operators the loop for the operator finds none
  | comma => cases hnext; exact @Begins.level .comma _ _ hc hpos
  | or => cases hnext; exact @Begins.level .or _ _ hc hpos
  | and => cases hnext; exact @Begins.level .and _ _ hc hpos
  | equality => cases hnext; exact @Begins.level .equality _ _ hc hpos
  | comparison => cases hnext; exact @Begins.level .comparison _ _ hc hpos
  | term => cases hnext; exact @Begins.level .term _ _ hc hpos
  | factor => cases hnext; exact @Begins.level .factor _ _ hc hpos
  -- the other rules look for one token, `=` or `?` behind or an operator in front, in vain
  | assignment =>
    cases hnext
    refine Completes.begins (fun fuel rest hcover hstops => ?_) rfl fun _ _ => rfl
    obtain ⟨fuel, rfl⟩ := hcover.exists_succ (by decide)
    refine Reaches.last (hc (hcover.next (by decide)) (hstops.le (by decide))) fun e' he' => ?_
    refine Reaches.take?_none (hstops.mark ⟨.assignment, rfl, by decide⟩) ?_
    exact Reaches.pure he'
  | conditional =>
    cases hnext
    refine Completes.begins (fun fuel rest hcover hstops => ?_) rfl fun _ _ => rfl
    obtain ⟨fuel, rfl⟩ := hcover.exists_succ (by decide)
    refine Reaches.last (hc (hcover.next (by decide)) (hstops.le (by decide))) fun e' he' => ?_
    refine Reaches.takes_false (hstops.mark ⟨.conditional, rfl, by decide⟩) ?_
    exact Reaches.pure he'
  | unary =>
    cases hnext
    refine Completes.begins (fun fuel rest hcover hstops => ?_) rfl fun _ _ => rfl
    obtain ⟨fuel, rfl⟩ := hcover.exists_succ (by decide)
    have hno := hd.head?_isUnaryOperator (Nat.le_refl _)
    rw [← head?_any_append hpos rest] at hno
    exact Reaches.take?_none hno (hc (hcover.next (by decide)) (hstops.le (by decide)))
  | call =>
    cases hnext
    intro fuel us rest P hcover hstops hnext
    obtain ⟨fuel, rfl⟩ := hcover.exists_succ (by decide)
    have hlen : (us ++ rest).length = us.length + rest.length := List.length_append
    have hprimary := @hc fuel (us ++ rest) (by rw [hlen]; exact hcover.next (by decide)) hstops
    refine Reaches.bind hprimary fun e' he' => ?_
    exact hnext fuel e' (hcover.after (by omega) (by decide)) he'
  | primary => cases hnext

/-- A call, a property or a primary is also a conditional. -/
theorem Begins.target {rank : Rank} {e : Expr} {ts : List Token}
    (hrank : rank = .primary ∨ rank = .call)
    (hd : Derives (.expression rank e) ts) (h : Begins rank e ts) : Begins .conditional e ts := by
  -- from rank to rank, with the derivation alongside
  have up {rank next : Rank} (hnext : rank.next? = some next)
      (h : Derives (.expression next e) ts ∧ Begins next e ts) :
      Derives (.expression rank e) ts ∧ Begins rank e ts :=
    ⟨.tighter hnext h.1, Begins.tighter hnext h.1 h.2⟩
  have hcall : Derives (.expression .call e) ts ∧ Begins .call e ts := by
    rcases hrank with rfl | rfl
    · exact up rfl ⟨hd, h⟩
    · exact ⟨hd, h⟩
  have hfactor := @up .factor .unary rfl (@up .unary .call rfl hcall)
  have hcomparison := @up .comparison .term rfl (@up .term .factor rfl hfactor)
  have hand := @up .and .equality rfl (@up .equality .comparison rfl hcomparison)
  exact (@up .conditional .or rfl (@up .or .and rfl hand)).2

/-- The loop that has read the left operand reads the operator and the right one, and stands behind
them. -/
theorem Begins.joined {level : Level} {left right : Expr} {operator : Token}
    {ls rs : List Token} (ho : level.joins operator = true)
    (hl : Begins level.rank left ls) (hr : Completes level.operandRank right rs) :
    Begins level.rank (level.join left operator right) (ls ++ operator :: rs) := by
  intro fuel us rest P hcover hstops hnext
  rw [innerRank_level] at hstops
  rw [List.append_assoc, List.cons_append]
  refine hl ?_ ?_ fun fuel' left' hcover' hleft => ?_
  · simpa [Nat.add_assoc, Nat.add_comm, Nat.add_left_comm] using hcover
  · rw [innerRank_level]
    refine stops_cons fun r hr => ?_
    rw [goesOn?_joins ho] at hr
    cases hr
    cases level <;> decide
  · obtain ⟨fuel', rfl⟩ := hcover'.exists_succ (by decide)
    simp only [List.length_cons, List.length_append] at hcover'
    have hright := @operand_reaches level fuel' rs (us ++ rest) right hr
      (hcover'.after (by rw [List.length_append]; omega) (operandCost_lt_callsPerToken level))
      hstops
    rw [rankRest_level]
    refine Reaches.take?_some ho (Reaches.bind hright fun right' hright' => ?_)
    rw [← rankRest_level]
    refine hnext fuel' _ (hcover'.after (by omega) (by decide)) ?_
    rw [Level.unsited_join, Level.unsited_join, hleft, hright']

/-! ## What is claimed of every phrase -/

/-- The rule for the phrase reads its tokens, and gives its tree up to sites, wherever the fuel
covers it and the tokens behind do not go on the phrase. -/
def Recognized : Phrase → List Token → Prop
  | .expression rank e, ts => Begins rank e ts
  | .optional e, ts => ∀ ⦃mark : Mark⦄ ⦃fuel : Nat⦄ ⦃rest : List Token⦄,
    (mark = .semicolon ∨ mark = .rightParen) → rest.head?.any (Token.isMark mark) = true →
    Covers fuel (ts.length + rest.length) (rankCost .comma) →
    Reaches (optionalUntil mark (binary fuel .comma)) ts rest fun e' =>
      Expr.unsitedOption e' = Expr.unsitedOption e
  | .arguments es, ts => ∀ ⦃fuel : Nat⦄ ⦃paren : Token⦄ ⦃rest : List Token⦄,
    paren.isMark .rightParen = true → Covers fuel (ts.length + (paren :: rest).length) 18 →
    Reaches (argumentsRule (arguments fuel 0)) (ts ++ [paren]) rest fun result =>
      Expr.unsitedAll result.1 = Expr.unsitedAll es ∧ result.2 = paren
  | .argumentRow es, ts => ∀ ⦃fuel count : Nat⦄ ⦃rest : List Token⦄,
    count + es.length ≤ maxArity → Covers fuel (ts.length + rest.length) 18 →
    Stops .comma rest →
    Reaches (arguments fuel count) ts rest fun es' => Expr.unsitedAll es' = Expr.unsitedAll es
  | .parameters names, ts => ∀ ⦃fuel : Nat⦄ ⦃rest : List Token⦄,
    rest.head?.any (Token.isMark .rightParen) = true → ts.length ≤ fuel →
    Reaches (parametersRule fuel) ts rest fun names' => names' = names
  | .parameterRow names, ts => ∀ ⦃fuel count : Nat⦄ ⦃rest : List Token⦄,
    count + names.length ≤ maxArity → rest.head?.any (Token.isMark .rightParen) = true →
    ts.length ≤ fuel → Reaches (parameters fuel count) ts rest fun names' => names' = names
  | .block body, ts => ∃ open' us, ts = open' :: us ∧ open'.isMark .leftBrace = true ∧
    ∀ ⦃fuel : Nat⦄ ⦃rest : List Token⦄, Covers (fuel + 1) (ts.length + rest.length) 1 →
    Reaches (blockRule (declarations fuel true)) us rest fun body' =>
      Stmt.unsitedAll body' = Stmt.unsitedAll body
  | .function d, ts => ∀ ⦃fuel : Nat⦄ ⦃rest : List Token⦄ (role : FunctionRole),
    Covers (fuel + 1) (ts.length + rest.length) 1 →
    Reaches (functionRule fuel (declarations fuel true) role) ts rest fun d' =>
      d'.unsited = d.unsited
  | .getter d, ts => ∀ ⦃fuel : Nat⦄ ⦃rest : List Token⦄,
    Covers (fuel + 1) (ts.length + rest.length) 1 →
    Reaches (getterRule (declarations fuel true)) ts rest fun d' => d'.unsited = d.unsited
  | .setter d, ts => ∀ ⦃fuel : Nat⦄ ⦃rest : List Token⦄,
    Covers (fuel + 1) (ts.length + rest.length) 1 →
    Reaches (setterRule fuel (declarations fuel true)) ts rest fun d' => d'.unsited = d.unsited
  | .members ms, ts => ∀ ⦃fuel : Nat⦄ ⦃rest : List Token⦄,
    rest.head?.any (Token.isMark .rightBrace) = true →
    Covers fuel (ts.length + rest.length) 1 →
    Reaches (members fuel) ts rest fun ms' => ms'.unsited = ms.unsited
  | .varDecl s, ts => ∃ keyword us, ts = keyword :: us ∧ keyword.isKeyword .varKw = true ∧
    ∀ ⦃fuel : Nat⦄ ⦃rest : List Token⦄, Covers (fuel + 1) (ts.length + rest.length) 1 →
    Reaches (varRule (binary fuel .comma)) us rest fun s' => s'.unsited = s.unsited
  | .expressionStatement s, ts => ∀ ⦃fuel : Nat⦄ ⦃rest : List Token⦄,
    Covers fuel (ts.length + rest.length) (rankCost .comma) →
    Reaches (expressionRule (binary fuel .comma)) ts rest fun s' => s'.unsited = s.unsited
  | .forStart start, ts => ∀ ⦃fuel : Nat⦄ ⦃rest : List Token⦄,
    Covers fuel (ts.length + rest.length) (rankCost .comma) →
    Reaches (forStart (binary fuel .comma)) ts rest fun start' =>
      Stmt.unsitedOption start' = Stmt.unsitedOption start
  | .statement isOpen s, ts => ∀ ⦃fuel : Nat⦄ ⦃rest : List Token⦄,
    Covers fuel (ts.length + rest.length) 20 →
    (isOpen = true → rest.head?.any (Token.isKeyword .elseKw) = false) →
    Reaches (statement fuel) ts rest fun s' => s'.unsited = s.unsited
  | .declaration s, ts => ∀ ⦃fuel : Nat⦄ ⦃rest : List Token⦄,
    Covers fuel (ts.length + rest.length) 21 →
    rest.head?.any (Token.isKeyword .elseKw) = false →
    Reaches (declaration fuel) ts rest fun s' => s'.unsited = s.unsited
  | .declarations ss, ts => ∀ ⦃fuel : Nat⦄ ⦃inBlock : Bool⦄ ⦃rest : List Token⦄,
    (rest.isEmpty || (inBlock && rest.head?.any (Token.isMark .rightBrace))) = true →
    Covers fuel (ts.length + rest.length) 22 →
    Reaches (declarations fuel inBlock) ts rest fun ss' =>
      Stmt.unsitedAll ss' = Stmt.unsitedAll ss

end Lox.Grammar
