import Lox.Proofs.Grammar.Breaks
import Lox.Proofs.Grammar.Completeness
import Lox.Proofs.Grammar.Ending
import Lox.Proofs.Grammar.Slice

/-!
# A statement that is not ended

What parsing makes of a simple statement whose semicolon is missing, where a keyword follows at
which a statement begins. The rule of the statement reads all of it and is refused at the keyword
(`Breaks`, `Derives.unended`): that is one error, at the right place. Going on then passes over the
keyword, as it passes over any token at which an error is found. So what is left is parsed as if it
stood alone, but it begins at the next statement behind the keyword, and the keyword's own statement
is not parsed (`parse_unended`).
-/

namespace Lox

/-- The keywords at which a statement begins and which go on no expression. -/
def statementKeywords : List Keyword :=
  [.classKw, .valKw, .varKw, .forKw, .ifKw, .inputKw, .whileKw, .printKw, .returnKw, .breakKw,
    .continueKw]

/-- A statement begins at the token, whatever comes before it. -/
def Token.BeginsAnew (t : Token) : Prop :=
  ∃ k ∈ statementKeywords, t.isKeyword k = true

/-- The error that a missing semicolon at the end of a simple statement makes: the rule that reports
it and what it wanted. A `return` without a value looks for one. -/
def Stmt.unended? : Stmt → Option (Rule × Problem)
  | .constant _ _ => some (.constantDecl, .constantEnd)
  | .var _ _ => some (.varDecl, .varEnd)
  | .expression _ => some (.expressionStatement, .expressionEnd)
  | .continueLoop _ => some (.continueStatement, .continueEnd)
  | .breakLoop _ => some (.breakStatement, .breakEnd)
  | .input _ _ => some (.inputStatement, .inputEnd)
  | .print _ _ => some (.printStatement, .printEnd)
  | .returnValue _ (some _) => some (.returnStatement, .returnEnd)
  | .returnValue _ none => some (.primary, .expression)
  | _ => none

namespace Grammar

open Lox.Parser

/-! ## The keyword behind -/

section Keyword

variable {t : Token}

/-- Which keyword begins the statement. -/
theorem kind_of_beginsAnew (h : t.BeginsAnew) : ∃ k ∈ statementKeywords, t.kind = .keyword k := by
  obtain ⟨k, hk, ht⟩ := h
  exact ⟨k, hk, Token.isKeyword_iff.mp ht⟩

/-- The keyword is no mark, so no semicolon. -/
theorem isMark_of_beginsAnew (h : t.BeginsAnew) (m : Mark) : t.isMark m = false := by
  obtain ⟨k, -, ht⟩ := kind_of_beginsAnew h
  simp [Token.isMark, ht]

/-- The keyword is no end. -/
theorem isEnd_of_beginsAnew (h : t.BeginsAnew) : t.isEnd = false := by
  obtain ⟨k, -, ht⟩ := h
  exact inner_of_isKeyword ht

/-- The keyword is no operator. -/
theorem isUnaryOperator_of_beginsAnew (h : t.BeginsAnew) : isUnaryOperator t = false := by
  unfold isUnaryOperator
  rw [isMark_of_beginsAnew h, isMark_of_beginsAnew h, Bool.or_self]

/-- The keyword begins no expression. -/
theorem opensPrimary_of_beginsAnew (h : t.BeginsAnew) : opensPrimary t = false := by
  obtain ⟨k, hk, ht⟩ := kind_of_beginsAnew h
  have hall : ∀ k ∈ statementKeywords, opensPrimary ⟨.keyword k, "", 0⟩ = false := by decide
  rw [← hall k hk]
  unfold opensPrimary Token.literal?
  rw [ht]

/-- No expression goes on behind the keyword. -/
theorem stops_of_beginsAnew (h : t.BeginsAnew) (rank : Rank) (more : List Token) :
    Stops rank (t :: more) := by
  obtain ⟨k, hk, ht⟩ := kind_of_beginsAnew h
  have hall : ∀ k ∈ statementKeywords, goesOn? ⟨.keyword k, "", 0⟩ = none := by decide
  refine stops_cons fun r hr => ?_
  have hnone : goesOn? t = none := by
    rw [← hall k hk]
    unfold goesOn?
    rw [ht]
  rw [hnone] at hr
  cases hr

end Keyword

/-! ## No expression begins at it -/

section Refused

variable {k : Token} {more : List Token}

/-- A level is refused at the keyword where its operands are. -/
theorem binary_refused (level : Level) {fuel : Nat}
    (h : ∀ {fuel}, Covers fuel (k :: more).length (rankCost level.operandRank) →
      Breaks (rankRule level.operandRank fuel) [] (k :: more) ⟨.primary, k, .expression⟩)
    (hcover : Covers fuel (k :: more).length (rankCost level.rank)) :
    Breaks (binary fuel level) [] (k :: more) ⟨.primary, k, .expression⟩ := by
  obtain ⟨fuel, rfl⟩ := hcover.exists_succ (rankCost_pos _)
  have hoperand := hcover.next (operandCost_lt level)
  obtain ⟨fuel, rfl⟩ := hoperand.exists_succ (Nat.succ_pos _)
  have hinner := h (hoperand.next (Nat.lt_succ_self _))
  refine Breaks.bind (p := operand (fuel + 1) level) ?_
  cases level <;> exact hinner

/-- The rule for expressions of a rank is refused at the keyword: it begins with that of the next
tighter rank. -/
theorem rankRule_refused (hk : k.BeginsAnew) : ∀ (rank : Rank) {fuel : Nat},
    Covers fuel (k :: more).length (rankCost rank) →
      Breaks (rankRule rank fuel) [] (k :: more) ⟨.primary, k, .expression⟩
  | .comma, _, hcover => binary_refused .comma (rankRule_refused hk .assignment) hcover
  | .or, _, hcover => binary_refused .or (rankRule_refused hk .and) hcover
  | .and, _, hcover => binary_refused .and (rankRule_refused hk .equality) hcover
  | .equality, _, hcover => binary_refused .equality (rankRule_refused hk .comparison) hcover
  | .comparison, _, hcover => binary_refused .comparison (rankRule_refused hk .term) hcover
  | .term, _, hcover => binary_refused .term (rankRule_refused hk .factor) hcover
  | .factor, _, hcover => binary_refused .factor (rankRule_refused hk .unary) hcover
  | .assignment, _ + 1, hcover =>
    Breaks.bind (rankRule_refused hk .conditional (hcover.next (by decide)))
  | .conditional, _ + 1, hcover =>
    Breaks.bind (rankRule_refused hk .or (hcover.next (by decide)))
  | .unary, _ + 1, hcover =>
    Breaks.take?_none (isUnaryOperator_of_beginsAnew hk)
      (rankRule_refused hk .call (hcover.next (by decide)))
  | .call, _ + 1, hcover => Breaks.bind (rankRule_refused hk .primary (hcover.next (by decide)))
  | .primary, _ + 1, _ =>
    Breaks.take?_none (opensPrimary_of_beginsAnew hk) (Breaks.refuseNext _ _)
  | .assignment, 0, hcover | .conditional, 0, hcover | .unary, 0, hcover | .call, 0, hcover
  | .primary, 0, hcover => absurd hcover not_covers_zero
termination_by rank => 11 - rank.index
decreasing_by all_goals decide

end Refused

/-! ## Simple statements -/

/-- The rule reads `ts` and is refused at the keyword behind them. -/
def Unended (p : Nat → Parser Stmt) (cost : Nat) (ts : List Token) (rule : Rule)
    (problem : Problem) : Prop :=
  ∀ ⦃fuel : Nat⦄ ⦃k : Token⦄ ⦃more : List Token⦄, k.BeginsAnew →
    Covers fuel (ts.length + (k :: more).length) cost →
    Breaks (p fuel) ts (k :: more) ⟨rule, k, problem⟩

section Statements

variable {keyword name equals k : Token} {value : Expr} {vs more : List Token} {rule : Rule}
  {problem : Problem} {fuel : Nat}

/-- The value at the end of a statement is read, and then the semicolon is missing. -/
theorem value_unended {f : Expr → Token → Parser Stmt} (hv : Completes .comma value vs)
    (hk : k.BeginsAnew) (hcover : Covers fuel (vs.length + (k :: more).length) (rankCost .comma)) :
    Breaks (do f (← binary fuel .comma) (← expect (Token.isMark .semicolon) rule problem)) vs
      (k :: more) ⟨rule, k, problem⟩ := by
  rw [← List.append_nil vs]
  refine Breaks.after (hv hcover (stops_of_beginsAnew hk _ _)) fun value' _ => ?_
  exact Breaks.missing rule problem (isMark_of_beginsAnew hk _)

/-- An expression without its semicolon. -/
theorem unended_expression (hd : Derives (.expression .comma value) vs)
    (hv : Completes .comma value vs) :
    Unended statement 20 vs .expressionStatement .expressionEnd := by
  intro fuel k more hk hcover
  obtain ⟨fuel, rfl⟩ := hcover.exists_succ (by decide)
  refine Breaks.take?_none ?_ (value_unended hv hk (hcover.next (by decide)))
  exact (hd.startsExpression.append _).head?_opensStatement

/-- A `continue` without its semicolon. -/
theorem unended_continue (hkeyword : keyword.isKeyword .continueKw = true) :
    Unended statement 20 [keyword] .continueStatement .continueEnd := by
  intro fuel k more hk hcover
  obtain ⟨fuel, rfl⟩ := hcover.exists_succ (by decide)
  rw [Token.isKeyword_iff] at hkeyword
  refine Breaks.take?_some (by simp [opensStatement, hkeyword]) ?_
  simp only [hkeyword]
  exact Breaks.missing _ _ (isMark_of_beginsAnew hk _)

/-- A `break` without its semicolon. -/
theorem unended_break (hkeyword : keyword.isKeyword .breakKw = true) :
    Unended statement 20 [keyword] .breakStatement .breakEnd := by
  intro fuel k more hk hcover
  obtain ⟨fuel, rfl⟩ := hcover.exists_succ (by decide)
  rw [Token.isKeyword_iff] at hkeyword
  refine Breaks.take?_some (by simp [opensStatement, hkeyword]) ?_
  simp only [hkeyword]
  exact Breaks.missing _ _ (isMark_of_beginsAnew hk _)

/-- An `input` without its semicolon. -/
theorem unended_input (hkeyword : keyword.isKeyword .inputKw = true)
    (hn : name.isIdentifier = true) :
    Unended statement 20 [keyword, name] .inputStatement .inputEnd := by
  intro fuel k more hk hcover
  obtain ⟨fuel, rfl⟩ := hcover.exists_succ (by decide)
  rw [Token.isKeyword_iff] at hkeyword
  refine Breaks.take?_some (by simp [opensStatement, hkeyword]) ?_
  simp only [hkeyword]
  exact Breaks.expect hn (Breaks.missing _ _ (isMark_of_beginsAnew hk _))

/-- A `print` without its semicolon. -/
theorem unended_print (hkeyword : keyword.isKeyword .printKw = true)
    (hv : Completes .comma value vs) :
    Unended statement 20 (keyword :: vs) .printStatement .printEnd := by
  intro fuel k more hk hcover
  obtain ⟨fuel, rfl⟩ := hcover.exists_succ (by decide)
  rw [Token.isKeyword_iff] at hkeyword
  rw [List.length_cons] at hcover
  refine Breaks.take?_some (by simp [opensStatement, hkeyword]) ?_
  simp only [hkeyword]
  exact value_unended hv hk (hcover.after (by omega) (by decide))

/-- A `return` with a value and without its semicolon. -/
theorem unended_return (hkeyword : keyword.isKeyword .returnKw = true)
    (hd : Derives (.expression .comma value) vs) (hv : Completes .comma value vs) :
    Unended statement 20 (keyword :: vs) .returnStatement .returnEnd := by
  intro fuel k more hk hcover
  obtain ⟨fuel, rfl⟩ := hcover.exists_succ (by decide)
  rw [Token.isKeyword_iff] at hkeyword
  rw [List.length_cons] at hcover
  refine Breaks.take?_some (by simp [opensStatement, hkeyword]) ?_
  simp only [hkeyword, returnRule, optionalUntil, bind_assoc]
  refine Breaks.sees ?_
  rw [(hd.startsExpression.append _).head?_isMark (by decide)]
  simp only [Bool.false_eq_true, if_false, map_eq_pure_bind, bind_assoc, pure_bind]
  exact value_unended hv hk (hcover.after (by omega) (by decide))

/-- Behind `return` the keyword stands where a value or a semicolon does. -/
theorem unended_returnNothing (hkeyword : keyword.isKeyword .returnKw = true) :
    Unended statement 20 [keyword] .primary .expression := by
  intro fuel k more hk hcover
  obtain ⟨fuel, rfl⟩ := hcover.exists_succ (by decide)
  rw [Token.isKeyword_iff] at hkeyword
  refine Breaks.take?_some (by simp [opensStatement, hkeyword]) ?_
  simp only [hkeyword, returnRule, optionalUntil, bind_assoc]
  refine Breaks.sees ?_
  rw [List.nil_append, List.head?_cons, Option.any_some, isMark_of_beginsAnew hk]
  simp only [Bool.false_eq_true, if_false, map_eq_pure_bind, bind_assoc, pure_bind]
  rw [List.length_singleton] at hcover
  exact Breaks.bind (rankRule_refused hk .comma (hcover.after (by omega) (by decide)))

end Statements

/-! ## Declarations -/

section Declarations

variable {keyword name equals k t : Token} {value : Expr} {s : Stmt} {ts us vs more : List Token}
  {rule : Rule} {problem : Problem} {fuel : Nat} {expression : Parser Expr}
  {statement : Parser Stmt} {declarations : Parser (List Stmt)} {members : Parser Members}

/-- A declaration at a keyword of its own that is neither `class` nor `fun`. -/
theorem breaks_named {e : SyntaxError} (hclass : t.isKeyword .classKw = false)
    (hfun : t.isKeyword .funKw = false)
    (h : Breaks
      (do if ← takes (Token.isKeyword .valKw) then constantRule expression
          else if ← takes (Token.isKeyword .varKw) then varRule expression
          else statement) (t :: ts) more e) :
    Breaks (declarationRule fuel expression statement declarations members) (t :: ts) more e := by
  refine Breaks.takes_false hclass (Breaks.sees (Breaks.seesSecond ?_))
  simp only [List.cons_append, List.head?_cons, Option.any_some, hfun, Bool.false_and]
  exact Breaks.takes_false hfun h

/-- A constant without its semicolon. -/
theorem unended_constant (hkeyword : keyword.isKeyword .valKw = true)
    (hn : name.isIdentifier = true) (hq : equals.isMark .equal = true)
    (hv : Completes .comma value vs) :
    Unended declaration 21 (keyword :: name :: equals :: vs) .constantDecl .constantEnd := by
  intro fuel k more hk hcover
  obtain ⟨fuel, rfl⟩ := hcover.exists_succ (by decide)
  simp only [List.length_cons] at hcover
  have hkind := Token.isKeyword_iff.mp hkeyword
  refine breaks_named (by simp [Token.isKeyword, hkind]) (by simp [Token.isKeyword, hkind]) ?_
  refine Breaks.takes_true hkeyword (Breaks.expect hn (Breaks.expect hq ?_))
  exact value_unended hv hk (hcover.after (by simp only [List.length_cons]; omega) (by decide))

/-- A variable without a value and without its semicolon. -/
theorem unended_var (hkeyword : keyword.isKeyword .varKw = true)
    (hn : name.isIdentifier = true) :
    Unended declaration 21 [keyword, name] .varDecl .varEnd := by
  intro fuel k more hk hcover
  obtain ⟨fuel, rfl⟩ := hcover.exists_succ (by decide)
  have hkind := Token.isKeyword_iff.mp hkeyword
  refine breaks_named (by simp [Token.isKeyword, hkind]) (by simp [Token.isKeyword, hkind]) ?_
  refine Breaks.takes_false (by simp [Token.isKeyword, hkind]) (Breaks.takes_true hkeyword ?_)
  refine Breaks.expect hn (Breaks.takes_false (isMark_of_beginsAnew hk _) ?_)
  simp only [Bool.false_eq_true, if_false, pure_bind]
  exact Breaks.missing _ _ (isMark_of_beginsAnew hk _)

/-- A variable with a value and without its semicolon. -/
theorem unended_varValue (hkeyword : keyword.isKeyword .varKw = true)
    (hn : name.isIdentifier = true) (hq : equals.isMark .equal = true)
    (hv : Completes .comma value vs) :
    Unended declaration 21 (keyword :: name :: equals :: vs) .varDecl .varEnd := by
  intro fuel k more hk hcover
  obtain ⟨fuel, rfl⟩ := hcover.exists_succ (by decide)
  simp only [List.length_cons] at hcover
  have hkind := Token.isKeyword_iff.mp hkeyword
  refine breaks_named (by simp [Token.isKeyword, hkind]) (by simp [Token.isKeyword, hkind]) ?_
  refine Breaks.takes_false (by simp [Token.isKeyword, hkind]) (Breaks.takes_true hkeyword ?_)
  refine Breaks.expect hn (Breaks.takes_true hq ?_)
  simp only [if_true, map_eq_pure_bind, bind_assoc, pure_bind]
  exact value_unended hv hk (hcover.after (by simp only [List.length_cons]; omega) (by decide))

/-- No keyword of a declaration begins a statement other than an expression. -/
theorem head?_declarationKeyword (h : ts.head?.any opensStatement = true) :
    ∀ k ∈ declarationKeywords, ts.head?.any (Token.isKeyword k) = false := by
  intro k hk
  cases ts with
  | nil => rfl
  | cons t ts =>
    have ht : opensStatement t = true := h
    show t.isKeyword k = false
    unfold opensStatement at ht
    simp only [declarationKeywords, List.mem_cons, List.not_mem_nil, or_false] at hk
    rcases hk with rfl | rfl | rfl | rfl
    all_goals split at ht <;> simp_all [Token.isKeyword]

/-- Where an expression begins there is a statement; `fun` in front of a parenthesis is no
declaration. -/
theorem declarationRule_expression {c : Cursor} (h : StartsExpression c.unread) :
    declarationRule fuel expression statement declarations members c = statement c := by
  have hno (k : Keyword) (hk : opensPrimary ⟨.keyword k, "", 0⟩ = false) :
      c.unread.head?.any (Token.isKeyword k) = false := h.head?_isKeyword hk
  cases hfun : c.unread.head?.any (Token.isKeyword .funKw) with
  | false =>
    refine declarationRule_plain fun k hk => ?_
    simp only [declarationKeywords, List.mem_cons, List.not_mem_nil, or_false] at hk
    rcases hk with rfl | rfl | rfl | rfl
    · exact hno _ rfl
    · exact hfun
    · exact hno _ rfl
    · exact hno _ rfl
  | true =>
    obtain ⟨t, us, hu, -, hparen⟩ := h
    rw [hu] at hfun
    have hsecond : c.seesSecond (Token.isMark .leftParen) = true := by
      rw [Cursor.seesSecond, hu]
      exact hparen hfun
    have hsees : c.sees (Token.isKeyword .funKw) = true := by
      rw [Cursor.sees, hu]
      exact hfun
    have hclass : takes (Token.isKeyword .classKw) c = .ok false c :=
      bind_ok (Parser.take?_none (hno .classKw rfl))
    refine (bind_ok hclass).trans ?_
    show (if (c.sees (Token.isKeyword .funKw) && c.seesSecond (Token.isMark .leftParen)) = true
      then statement else _ : Parser Stmt) c = _
    rw [hsees, hsecond]
    rfl

/-- What is said of the rule for statements holds of that for declarations. -/
theorem Unended.declaration (h : Unended Grammar.statement 20 ts rule problem)
    (hts : StartsExpression ts ∨ ts.head?.any opensStatement = true) :
    Unended Grammar.declaration 21 ts rule problem := by
  intro fuel k more hk hcover
  obtain ⟨fuel, rfl⟩ := hcover.exists_succ (by decide)
  intro c hc
  have hplain : Grammar.declaration (fuel + 1) c = Grammar.statement fuel c := by
    rcases hts with hts | hts
    · refine declarationRule_expression ?_
      rw [hc]
      exact hts.append _
    · refine declarationRule_plain (head?_declarationKeyword ?_)
      rw [hc]
      cases ts with
      | nil => exact absurd hts Bool.false_ne_true
      | cons t ts => exact hts
  rw [hplain]
  exact h hk (hcover.next (by decide)) c hc

/-- Every simple statement without its semicolon is refused at a keyword behind it. -/
theorem Derives.unended (h : Derives (.declaration s) us)
    (hs : s.unended? = some (rule, problem)) :
    ∃ ts semicolon, us = ts ++ [semicolon] ∧ Unended Grammar.declaration 21 ts rule problem := by
  -- the rule for statements, behind a keyword
  have behind {keyword : Token} {ks : List Token} {kw : Keyword}
      (hkeyword : keyword.isKeyword kw = true)
      (hopens : opensStatement ⟨.keyword kw, "", 0⟩ = true)
      (h : Unended Grammar.statement 20 (keyword :: ks) rule problem) :
      Unended Grammar.declaration 21 (keyword :: ks) rule problem := by
    refine h.declaration (.inr ?_)
    rw [← hopens]
    show opensStatement keyword = _
    unfold opensStatement
    rw [Token.isKeyword_iff.mp hkeyword]
  cases h with
  | classDecl | derivedClass | functionDecl => cases hs
  | constant hkeyword hn hq hv =>
    cases hs
    exact ⟨_, _, rfl, unended_constant hkeyword hn hq hv.recognized.completes⟩
  | var hvar =>
    cases hvar with
    | varDecl hkeyword hn =>
      cases hs
      exact ⟨[_, _], _, rfl, unended_var hkeyword hn⟩
    | varDeclValue hkeyword hn hq hv =>
      cases hs
      exact ⟨_, _, rfl, unended_varValue hkeyword hn hq hv.recognized.completes⟩
  | statement hd =>
    cases hd with
    | @forLoop _ _ _ _ start => cases start <;> cases hs
    | ifThen | ifThenElse | whileLoop | blockStatement | empty => cases hs
    | plain hd =>
      cases hd with
      | expressionStatement hv =>
        cases hs
        exact ⟨_, _, rfl, (unended_expression hv hv.recognized.completes).declaration
          (.inl hv.startsExpression)⟩
    | continueLoop hkeyword =>
      cases hs
      exact ⟨[_], _, rfl, behind hkeyword rfl (unended_continue hkeyword)⟩
    | breakLoop hkeyword =>
      cases hs
      exact ⟨[_], _, rfl, behind hkeyword rfl (unended_break hkeyword)⟩
    | input hkeyword hn =>
      cases hs
      exact ⟨[_, _], _, rfl, behind hkeyword rfl (unended_input hkeyword hn)⟩
    | print hkeyword hv =>
      cases hs
      exact ⟨_, _, rfl, behind hkeyword rfl (unended_print hkeyword hv.recognized.completes)⟩
    | returnValue hkeyword hd =>
      cases hd with
      | absent =>
        cases hs
        exact ⟨[_], _, rfl, behind hkeyword rfl (unended_returnNothing hkeyword)⟩
      | present hv =>
        cases hs
        exact ⟨_, _, rfl, behind hkeyword rfl (unended_return hkeyword hv hv.recognized.completes)⟩

end Declarations

/-! ## Programs -/

section Programs

variable {tokens ts more left : List Token} {semicolon stop k : Token} {s : Stmt} {rule : Rule}
  {problem : Problem} {e : SyntaxError} {site : Site}

/-- Behind a declaration that is given up, what is left is parsed as if it stood alone. -/
theorem parse_given_up {fuel : Nat} (n n₂ : Site) (hstop : stop.isEnd = true)
    (hfuel : fuelFor (Cursor.start tokens n).unread.length = fuel + 1)
    (hfirst : recovering (declaration fuel) (Cursor.start tokens n) =
      .ok none ⟨left, stop, [e], site⟩)
    (hopen : ∀ t ∈ left, t.isEnd = false)
    (hless : left.length < (Cursor.start tokens n).unread.length) :
    let behind := Program.parse (left ++ [stop]) n₂
    Program.parse tokens n =
      ⟨Stmt.shiftedAll ⟨0, renumber n₂ site⟩ behind.tree, e :: behind.errors,
        renumber n₂ site behind.nextSite⟩ := by
  intro behind
  obtain ⟨hunread, hend⟩ := start_open n₂ hopen hstop
  obtain ⟨rest, c, hrest, -⟩ := declarations_total (c := Cursor.start (left ++ [stop]) n₂)
    (covers_fuelFor _ 22 (by decide))
  have hbehind : behind = ⟨rest, c.errors, c.nextSite⟩ := parse_of_declarations hrest
  have hle : fuelFor left.length ≤ fuel := by
    unfold fuelFor callsPerToken at hfuel ⊢
    omega
  -- the rest of this run is the other parse on the same lines, with its sites renumbered
  obtain ⟨c', hlater, herrors, hnext⟩ : ∃ c',
      declarations fuel false ⟨left, stop, [e], site⟩ =
        .ok (Stmt.shiftedAll ⟨0, renumber n₂ site⟩ rest) c' ∧
      c'.errors = [e] ++ c.errors.map (SyntaxError.later 0) ∧
      c'.nextSite = renumber n₂ site c.nextSite := by
    refine declarations_later ?_ ?_ rfl rfl (by rw [hunread]; exact hle) hrest
    · rw [hunread, Token.map_later_zero]
    · rw [hend]
      rfl
  have hne : (Cursor.start tokens n).unread ≠ [] :=
    List.ne_nil_of_length_pos (Nat.zero_lt_of_lt hless)
  have hwhole := declarations_next hne hfirst hlater
  rw [← hfuel] at hwhole
  have hsame : c.errors.map (SyntaxError.later 0) = c.errors := List.map_id c.errors
  rw [parse_of_declarations hwhole, herrors, hnext, hsame, hbehind]
  rfl

/-- Tokens that are parsed as a simple statement once a semicolon is behind them are refused at a
keyword instead. -/
theorem unended_of_parse {n : Site} (hopen : ∀ t ∈ ts, t.isEnd = false)
    (hsemicolon : semicolon.isMark .semicolon = true) (hstop : stop.isEnd = true)
    (htree : (Program.parse (ts ++ [semicolon, stop]) n).tree = [s])
    (herrors : (Program.parse (ts ++ [semicolon, stop]) n).errors = [])
    (hs : s.unended? = some (rule, problem)) : Unended declaration 21 ts rule problem := by
  have hclosed : ∀ t ∈ ts ++ [semicolon], t.isEnd = false := by
    intro t ht
    rcases List.mem_append.mp ht with ht | ht
    · exact hopen t ht
    · rw [List.mem_singleton.mp ht]
      exact inner_of_isMark hsemicolon
  have hderives := program_derives herrors
  rw [htree, List.append_cons, beforeEnd_stop hclosed hstop] at hderives
  have hstatement : Derives (.declaration s) (ts ++ [semicolon]) := by
    generalize ts ++ [semicolon] = us at hderives ⊢
    cases hderives with
    | nextDeclaration hd hr =>
      cases hr
      rw [List.append_nil]
      exact hd
  obtain ⟨ts', semicolon', hts, hunended⟩ := hstatement.unended hs
  obtain ⟨rfl, -⟩ := List.append_inj' hts rfl
  exact hunended

/-- **What a missing semicolon costs.** A simple statement that is parsed without an error, with its
semicolon taken away, has exactly one error where a keyword follows at which a statement begins, and
the error is at that keyword. The keyword is then passed over, whatever begins there, and what is
parsed besides is what is parsed from the next statement behind it alone. References are numbered
on. -/
theorem parse_unended (n n₁ n₂ : Site) (hopen : ∀ t ∈ ts, t.isEnd = false)
    (hsemicolon : semicolon.isMark .semicolon = true) (hstop : stop.isEnd = true)
    (htree : (Program.parse (ts ++ [semicolon, stop]) n₁).tree = [s])
    (herrors : (Program.parse (ts ++ [semicolon, stop]) n₁).errors = [])
    (hs : s.unended? = some (rule, problem)) (hk : k.BeginsAnew) :
    let behind := Program.parse (resumeAfter k (beforeEnd more) ++ [Token.endAmong more]) n₂
    ∃ next, Program.parse (ts ++ k :: more) n =
      ⟨Stmt.shiftedAll ⟨0, renumber n₂ next⟩ behind.tree, ⟨rule, k, problem⟩ :: behind.errors,
        renumber n₂ next behind.nextSite⟩ := by
  intro behind
  have hunended := unended_of_parse hopen hsemicolon hstop htree herrors hs
  have hkOpen := isEnd_of_beginsAnew hk
  obtain ⟨hunread, hend⟩ := start_unread_of_closed (k :: more) n hopen
  rw [show (Cursor.start (k :: more) n).unread = k :: beforeEnd more from beforeEnd_cons hkOpen]
    at hunread
  rw [show (Cursor.start (k :: more) n).stop = Token.endAmong more from endAmong_cons hkOpen]
    at hend
  obtain ⟨passed, hpassed⟩ := Cursor.resumeAfter_eq k (beforeEnd more)
  have hlength := congrArg List.length hunread
  have hlength' := congrArg List.length hpassed
  simp only [List.length_append, List.length_cons] at hlength hlength'
  -- one unit of the fuel is spent on the declaration that is given up
  obtain ⟨fuel, hfuel, hcover⟩ : ∃ fuel,
      fuelFor (Cursor.start (ts ++ k :: more) n).unread.length = fuel + 1 ∧
        Covers fuel (ts.length + (k :: beforeEnd more).length) 21 := by
    refine ⟨fuelFor (Cursor.start (ts ++ k :: more) n).unread.length - 1, ?_, ?_⟩
    all_goals simp only [Covers, fuelFor, callsPerToken, List.length_cons]; omega
  -- the statement is given up at `k`, and reading resumes behind that
  obtain ⟨site, hfirst⟩ := (hunended hk hcover).recovering hunread
  rw [hend] at hfirst
  have hopenBehind : ∀ t ∈ resumeAfter k (beforeEnd more), t.isEnd = false := by
    intro t ht
    have hmem : t ∈ beforeEnd more := by
      rw [hpassed]
      exact List.mem_append_right _ ht
    exact isEnd_of_mem_beforeEnd hmem
  exact ⟨site, parse_given_up n n₂ (endAmong_isEnd more) hfuel hfirst hopenBehind (by omega)⟩

/-- A `print` whose semicolon is missing, and two statements behind it, of which the second one is
left. -/
theorem parse_unended_print :
    let cut := beforeEnd (scanTokens "print 1")
    let closed := cut ++ [⟨.mark .semicolon, ";", 1⟩, Token.endOf 1]
    let k : Token := ⟨.keyword .printKw, "print", 2⟩
    let more := scanTokens "2; var a;"
    let behind := Program.parse (resumeAfter k (beforeEnd more) ++ [Token.endAmong more]) 0
    (Program.parse closed 0).errors = [] ∧ k.BeginsAnew ∧ behind.tree.length = 1 ∧
      ∃ next, Program.parse (cut ++ k :: more) 0 =
        ⟨Stmt.shiftedAll ⟨0, renumber 0 next⟩ behind.tree,
          ⟨.printStatement, k, .printEnd⟩ :: behind.errors, renumber 0 next behind.nextSite⟩ := by
  intro cut closed k more behind
  have hopen : ∀ t ∈ cut, t.isEnd = false := by decide +kernel
  have herrors : (Program.parse closed 0).errors = [] := by decide +kernel
  have hk : k.BeginsAnew := ⟨.printKw, by decide, rfl⟩
  have hone : (Program.parse closed 0).tree.length = 1 := by decide +kernel
  obtain ⟨s, htree⟩ := List.length_eq_one_iff.mp hone
  have hprint : (Program.parse closed 0).tree.head?.bind Stmt.unended? =
      some (.printStatement, .printEnd) := by
    decide +kernel
  rw [htree] at hprint
  exact ⟨herrors, hk, by decide +kernel,
    parse_unended 0 0 0 hopen rfl rfl htree herrors hprint hk⟩

/-- Where the keyword's own statement has a mistake, that one is not reported. -/
theorem parse_unended_loses :
    let cut := beforeEnd (scanTokens "print 1")
    let rest := scanTokens "\nprint ;"
    let closed := Program.parse (cut ++ scanTokens ";") 0
    (closed.errors = [] ∧
        closed.tree.map Stmt.unended? = [some (.printStatement, .printEnd)]) ∧
      (∃ k ∈ rest.head?, k.BeginsAnew) ∧
      ¬∃ e, (Program.parse (cut ++ rest) 0).errors = e :: (Program.parse rest 0).errors := by
  intro cut rest closed
  have hsimple : closed.errors = [] ∧
      closed.tree.map Stmt.unended? = [some (.printStatement, .printEnd)] := by
    decide +kernel
  have hhead : rest.head? = some ⟨.keyword .printKw, "print", 2⟩ := by decide +kernel
  refine ⟨hsimple, ⟨_, hhead, .printKw, by decide, rfl⟩, ?_⟩
  rintro ⟨e, he⟩
  have hone : (Program.parse (cut ++ rest) 0).errors.length = 1 := by decide +kernel
  have hother : (Program.parse rest 0).errors.length = 1 := by decide +kernel
  rw [he, List.length_cons, hother] at hone
  cases hone

end Programs

end Grammar

end Lox
