import Lox.Proofs.Grammar.Recognized

/-!
# Expressions and functions are recognized

One lemma for each way to derive an expression, a function or a member of a class: if its parts are
recognized, so is the whole.
-/

namespace Lox.Grammar

open Lox.Parser

/-! ## Expressions, one by one -/

section Expressions

/-- A primary expression is whatever its rule makes of the tokens, wherever the fuel covers it. -/
theorem begins_primary {e : Expr} {ts : List Token}
    (h : ∀ ⦃fuel : Nat⦄ ⦃rest : List Token⦄, Covers (fuel + 1) (ts.length + rest.length) 1 →
      Reaches (primary (fuel + 1)) ts rest fun e' => e'.unsited = e.unsited) :
    Begins .primary e ts := by
  refine Completes.begins (fun fuel rest hcover _ => ?_) rfl fun _ _ => rfl
  obtain ⟨fuel, rfl⟩ := hcover.exists_succ (by decide)
  exact h hcover

/-- A literal is read with its one token. -/
theorem begins_literal {t : Token} {value : Literal} (ht : t.literal? = some value) :
    Begins .primary (.literal value) [t] := by
  refine begins_primary fun fuel rest _ => ?_
  have hopens : opensPrimary t = true := by
    unfold opensPrimary
    split
    next => rfl
    next => rfl
    next => rfl
    next => rfl
    next => rfl
    next => rw [ht]; rfl
  refine Reaches.take?_some hopens ?_
  unfold Token.literal? at ht
  split at ht <;> cases ht <;> simp only [Token.literal?, *] <;> exact Reaches.pure rfl

/-- A name is read with its one token, and gets a site of its own. -/
theorem begins_name {site : Site} {name : Token} (hn : name.isIdentifier = true) :
    Begins .primary (.variable site name) [name] := by
  rw [Token.isIdentifier_iff] at hn
  refine begins_primary fun fuel rest _ => ?_
  refine Reaches.take?_some (by simp [opensPrimary, hn]) ?_
  simp only [hn]
  exact Reaches.freshSite fun site' => Reaches.pure rfl

/-- `this` is read with its one token. -/
theorem begins_receiver {site : Site} {keyword : Token}
    (hk : keyword.isKeyword .thisKw = true) :
    Begins .primary (.receiver site keyword) [keyword] := by
  rw [Token.isKeyword_iff] at hk
  refine begins_primary fun fuel rest _ => ?_
  refine Reaches.take?_some (by simp [opensPrimary, hk]) ?_
  simp only [hk]
  exact Reaches.freshSite fun site' => Reaches.pure rfl

/-- A `super` takes two more tokens. -/
theorem begins_inherited {site : Site} {keyword dot method : Token}
    (hk : keyword.isKeyword .superKw = true) (hd : dot.isMark .dot = true)
    (hm : method.isIdentifier = true) :
    Begins .primary (.inherited site keyword method) [keyword, dot, method] := by
  rw [Token.isKeyword_iff] at hk
  refine begins_primary fun fuel rest _ => ?_
  refine Reaches.take?_some (by simp [opensPrimary, hk]) ?_
  simp only [hk]
  refine Reaches.expect hd (Reaches.expect hm ?_)
  exact Reaches.freshSite fun site' => Reaches.pure rfl

/-- In parentheses any expression ends, at the closing one. -/
theorem begins_group {open' close : Token} {inner : Expr} {ts : List Token}
    (ho : open'.isMark .leftParen = true) (he : Completes .comma inner ts)
    (hc : close.isMark .rightParen = true) :
    Begins .primary (.group inner) (open' :: (ts ++ [close])) := by
  rw [Token.isMark_iff] at ho
  refine begins_primary fun fuel rest hcover => ?_
  refine Reaches.take?_some (by simp [opensPrimary, ho]) ?_
  simp only [ho]
  simp only [List.length_cons, List.length_append, List.length_nil] at hcover
  have hinner := @he fuel ([close] ++ rest)
    (hcover.after (by simp only [List.length_append, List.length_cons, List.length_nil]; omega)
      (by decide))
    (stops_mark hc fun r hr => by cases hr)
  refine Reaches.bind hinner fun inner' hinner' => Reaches.expect hc (Reaches.pure ?_)
  rw [Expr.unsited, Expr.unsited, hinner']

/-- An operand of the same rank follows its operator. -/
theorem completes_unary {operator : Token} {operand : Expr} {ts : List Token}
    (ho : isUnaryOperator operator = true) (he : Completes .unary operand ts) :
    Begins .unary (.unary operator operand) (operator :: ts) := by
  refine Completes.begins (fun fuel rest hcover hstops => ?_) rfl fun _ _ => rfl
  obtain ⟨fuel, rfl⟩ := hcover.exists_succ (by decide)
  simp only [List.length_cons] at hcover
  refine Reaches.take?_some ho ?_
  have hoperand := @he fuel rest (hcover.after (by omega) (by decide)) hstops
  refine Reaches.last hoperand fun operand' hoperand' => Reaches.pure ?_
  rw [Expr.unsited, Expr.unsited, hoperand']

/-- The `?` ends the condition and the `:` the first branch. -/
theorem completes_conditional {condition whenTrue whenFalse : Expr} {question colon : Token}
    {cs ts fs : List Token} (hc : Completes .or condition cs)
    (hq : question.isMark .question = true) (ht : Completes .comma whenTrue ts)
    (hm : colon.isMark .colon = true) (hf : Completes .conditional whenFalse fs) :
    Begins .conditional (.conditional condition whenTrue whenFalse)
      (cs ++ question :: (ts ++ colon :: fs)) := by
  refine Completes.begins (fun fuel rest hcover hstops => ?_) rfl fun _ _ => rfl
  obtain ⟨fuel, rfl⟩ := hcover.exists_succ (by decide)
  have hor : Covers fuel _ (rankCost .or) := hcover.next (by decide)
  have hcondition := @hc fuel ((question :: (ts ++ colon :: fs)) ++ rest)
    (by simpa [Nat.add_assoc, Nat.add_comm, Nat.add_left_comm] using hor)
    (stops_mark hq fun r hr => by cases hr; decide)
  simp only [List.length_cons, List.length_append] at hcover
  refine Reaches.bind hcondition fun condition' hcondition' => Reaches.takes_true hq ?_
  have hwhenTrue := @ht fuel ((colon :: fs) ++ rest)
    (hcover.after (by simp only [List.length_append, List.length_cons]; omega) (by decide))
    (stops_mark hm fun r hr => by cases hr)
  refine Reaches.bind hwhenTrue fun whenTrue' hwhenTrue' => Reaches.expect hm ?_
  have hwhenFalse := @hf fuel rest (hcover.after (by omega) (by decide)) hstops
  refine Reaches.last hwhenFalse fun whenFalse' hwhenFalse' => Reaches.pure ?_
  rw [Expr.unsited, Expr.unsited, hcondition', hwhenTrue', hwhenFalse']

/-- A name, followed by `=`: the rule reads the name as an expression first and then finds the
`=`. -/
theorem completes_assign {site : Site} {name equals : Token} {value : Expr} {vs : List Token}
    (hn : name.isIdentifier = true) (he : equals.isMark .equal = true)
    (hv : Completes .assignment value vs) :
    Begins .assignment (.assign site name value) (name :: equals :: vs) := by
  refine Completes.begins (fun fuel rest hcover hstops => ?_) rfl fun _ _ => rfl
  obtain ⟨fuel, rfl⟩ := hcover.exists_succ (by decide)
  simp only [List.length_cons] at hcover
  have htarget := Begins.target (.inl rfl) (.name hn) (@begins_name site name hn)
  have hname := @Begins.completes _ _ _ htarget fuel ((equals :: vs) ++ rest)
    (by simpa [Nat.add_assoc, Nat.add_comm, Nat.add_left_comm] using hcover.next (by decide))
    (stops_mark he fun r hr => by cases hr; decide)
  have hvalue := @hv fuel rest (hcover.after (by omega) (by decide)) hstops
  show Reaches (assignmentRule (Grammar.conditional fuel) (assignment fuel))
    ([name] ++ (equals :: vs)) rest _
  refine Reaches.bind hname fun target htarget => Reaches.take?_some he ?_
  obtain ⟨site', rfl⟩ := Expr.eq_variable_of_unsited htarget
  refine Reaches.last hvalue fun value' hvalue' => ?_
  refine Reaches.freshSite fun site'' => Reaches.pure ?_
  rw [Expr.unsited, Expr.unsited, hvalue']

/-- A property goes on from its object. -/
theorem begins_get {object : Expr} {dot name : Token} {os : List Token}
    (ho : Begins .call object os) (hd : dot.isMark .dot = true)
    (hn : name.isIdentifier = true) : Begins .call (.get object name) (os ++ [dot, name]) := by
  intro fuel us rest P hcover hstops hnext
  rw [List.append_assoc]
  refine ho ?_ (stops_primary _) fun fuel' object' hcover' hobject => ?_
  · simpa [Nat.add_assoc, Nat.add_comm, Nat.add_left_comm] using hcover
  · obtain ⟨fuel', rfl⟩ := hcover'.exists_succ (by decide)
    simp only [List.length_cons, List.length_append, List.length_nil] at hcover'
    have hno : dot.isMark .leftParen = false := by
      simp [Token.isMark, Token.isMark_iff.mp hd]
    refine Reaches.takes_false hno ?_
    refine Reaches.takes_true hd (Reaches.expect hn ?_)
    refine hnext fuel' _ (hcover'.after (by omega) (by decide)) ?_
    rw [Expr.unsited, Expr.unsited, hobject]

/-- The object and its property are read as an expression; the `=` behind them makes it an
assignment. -/
theorem completes_set {object value : Expr} {dot name equals : Token} {os vs : List Token}
    (hos : Derives (.expression .call object) os) (ho : Begins .call object os)
    (hd : dot.isMark .dot = true) (hn : name.isIdentifier = true)
    (he : equals.isMark .equal = true) (hv : Completes .assignment value vs) :
    Begins .assignment (.set object name value) (os ++ dot :: name :: equals :: vs) := by
  refine Completes.begins (fun fuel rest hcover hstops => ?_) rfl fun _ _ => rfl
  obtain ⟨fuel, rfl⟩ := hcover.exists_succ (by decide)
  simp only [List.length_cons, List.length_append] at hcover
  have htarget := Begins.target (.inr rfl) (.get hos hd hn) (begins_get ho hd hn)
  have hget := @Begins.completes _ _ _ htarget fuel ((equals :: vs) ++ rest)
    (by simpa [Nat.add_assoc, Nat.add_comm, Nat.add_left_comm] using hcover.next (by decide))
    (stops_mark he fun r hr => by cases hr; decide)
  have hvalue := @hv fuel rest (hcover.after (by omega) (by decide)) hstops
  have hsplit : os ++ dot :: name :: equals :: vs = (os ++ [dot, name]) ++ (equals :: vs) := by
    simp
  rw [hsplit]
  refine Reaches.bind hget fun target htarget => Reaches.take?_some he ?_
  obtain ⟨object', rfl, hobject⟩ := Expr.eq_get_of_unsited htarget
  refine Reaches.last hvalue fun value' hvalue' => Reaches.pure ?_
  rw [Expr.unsited, Expr.unsited, hobject, hvalue']

/-- A call goes on from its callee. -/
theorem begins_call {callee : Expr} {es : List Expr} {open' paren : Token} {cs as : List Token}
    (hc : Begins .call callee cs) (ho : open'.isMark .leftParen = true)
    (ha : Recognized (.arguments es) as) (hp : paren.isMark .rightParen = true) :
    Begins .call (.call callee paren es) (cs ++ open' :: (as ++ [paren])) := by
  intro fuel us rest P hcover hstops hnext
  rw [List.append_assoc]
  refine hc ?_ (stops_primary _) fun fuel' callee' hcover' hcallee => ?_
  · simpa [Nat.add_assoc, Nat.add_comm, Nat.add_left_comm] using hcover
  · obtain ⟨fuel', rfl⟩ := hcover'.exists_succ (by decide)
    simp only [List.length_cons, List.length_append, List.length_nil] at hcover'
    refine Reaches.takes_true ho ?_
    have hargs := @ha fuel' paren (us ++ rest) hp
      (hcover'.after (by simp only [List.length_cons, List.length_append]; omega) (by decide))
    refine Reaches.bind hargs fun result hresult => ?_
    obtain ⟨es', paren'⟩ := result
    obtain ⟨hes, rfl⟩ := hresult
    refine hnext fuel' _ (hcover'.after (by omega) (by decide)) ?_
    rw [Expr.unsited, Expr.unsited, hcallee, hes]

theorem recognized_noArguments : Recognized (.arguments []) [] := by
  intro fuel paren rest hp _
  refine Reaches.sees ?_
  simp only [List.nil_append, List.cons_append, List.head?_cons, Option.any_some, hp, if_true,
    pure_bind]
  exact Reaches.expect hp (Reaches.pure ⟨rfl, rfl⟩)

/-- Arguments that begin with an expression do not begin with the closing parenthesis. -/
theorem recognized_someArguments {es : List Expr} {ts : List Token}
    (hd : Derives (.argumentRow es) ts) (he : Recognized (.argumentRow es) ts)
    (hl : es.length ≤ maxArity) : Recognized (.arguments es) ts := by
  intro fuel paren rest hp hcover
  have hstart : StartsExpression ts := hd.starts
  have hno : ts.head?.any (Token.isMark .rightParen) = false :=
    hstart.head?_isMark (by decide)
  have hrow := @he fuel 0 ([paren] ++ rest) (by omega) hcover
    (stops_mark hp fun r hr => by cases hr)
  refine Reaches.sees ?_
  rw [List.append_assoc, head?_any_append hstart.length_pos, hno]
  refine Reaches.bind hrow fun es' hes' => Reaches.expect hp (Reaches.pure ⟨hes', rfl⟩)

/-- No comma follows the last argument. -/
theorem recognized_lastArgument {e : Expr} {ts : List Token} (he : Completes .assignment e ts) :
    Recognized (.argumentRow [e]) ts := by
  intro fuel count rest hcount hcover hstops
  obtain ⟨fuel, rfl⟩ := hcover.exists_succ (by decide)
  have hlt : ¬ maxArity ≤ count := by rw [List.length_singleton] at hcount; omega
  have hvalue := @he fuel rest (hcover.next (by decide)) (hstops.le (by decide))
  unfold arguments
  simp only [hlt, if_false]
  refine Reaches.last hvalue fun e' he' => ?_
  refine Reaches.takes_false (hstops.mark ⟨.comma, rfl, by decide⟩) (Reaches.pure ?_)
  simp only [Expr.unsitedAll, he']

/-- A comma follows every other argument. -/
theorem recognized_nextArgument {e : Expr} {es : List Expr} {comma : Token} {ts us : List Token}
    (he : Completes .assignment e ts) (hc : comma.isMark .comma = true)
    (hes : Recognized (.argumentRow es) us) :
    Recognized (.argumentRow (e :: es)) (ts ++ comma :: us) := by
  intro fuel count rest hcount hcover hstops
  obtain ⟨fuel, rfl⟩ := hcover.exists_succ (by decide)
  rw [List.length_cons] at hcount
  have hlt : ¬ maxArity ≤ count := by omega
  simp only [List.length_cons, List.length_append] at hcover
  have hvalue := @he fuel ((comma :: us) ++ rest)
    (by simpa [Nat.add_assoc, Nat.add_comm, Nat.add_left_comm] using hcover.next (by decide))
    (stops_mark hc fun r hr => by cases hr; decide)
  have hmore := @hes fuel (count + 1) rest (by omega) (hcover.after (by omega) (by decide)) hstops
  unfold arguments
  simp only [hlt, if_false]
  refine Reaches.bind hvalue fun e' he' => Reaches.takes_true hc ?_
  refine Reaches.last hmore fun es' hes' => Reaches.pure ?_
  rw [Expr.unsitedAll, Expr.unsitedAll, he', hes']

end Expressions

/-! ## Functions and classes -/

section Functions

theorem recognized_noParameters : Recognized (.parameters []) [] := by
  intro fuel rest hrest _
  refine Reaches.sees ?_
  rw [List.nil_append, hrest]
  exact Reaches.pure rfl

/-- Parameters begin with a name, not with a parenthesis. -/
theorem Derives.parameterRow_starts {names ts : List Token}
    (h : Derives (.parameterRow names) ts) :
    0 < ts.length ∧ ts.head?.any (Token.isMark .rightParen) = false := by
  cases h with
  | lastParameter hn | nextParameter hn =>
    rw [Token.isIdentifier_iff] at hn
    exact ⟨Nat.succ_pos _, by simp [Token.isMark, hn]⟩

/-- Parameters are not the closing parenthesis. -/
theorem recognized_someParameters {names ts : List Token} (hd : Derives (.parameterRow names) ts)
    (h : Recognized (.parameterRow names) ts) (hl : names.length ≤ maxArity) :
    Recognized (.parameters names) ts := by
  intro fuel rest hrest hfuel
  obtain ⟨hpos, hno⟩ := hd.parameterRow_starts
  refine Reaches.sees ?_
  rw [head?_any_append hpos, hno]
  exact h (by omega) hrest hfuel

/-- No comma follows the last parameter. -/
theorem recognized_lastParameter {name : Token} (hn : name.isIdentifier = true) :
    Recognized (.parameterRow [name]) [name] := by
  intro fuel count rest hcount hrest hfuel
  obtain ⟨fuel, rfl⟩ : ∃ fuel', fuel = fuel' + 1 :=
    Nat.exists_eq_succ_of_ne_zero (by rw [List.length_singleton] at hfuel; omega)
  have hlt : ¬ maxArity ≤ count := by rw [List.length_singleton] at hcount; omega
  have hno : rest.head?.any (Token.isMark .comma) = false := by
    cases rest with
    | nil => rfl
    | cons t us => simp [Token.isMark, Token.isMark_iff.mp hrest]
  unfold parameters
  simp only [hlt, if_false]
  exact Reaches.expect hn (Reaches.takes_false hno (Reaches.pure rfl))

/-- A comma follows every other parameter. -/
theorem recognized_nextParameter {name comma : Token} {names ts : List Token}
    (hn : name.isIdentifier = true) (hc : comma.isMark .comma = true)
    (hs : Recognized (.parameterRow names) ts) :
    Recognized (.parameterRow (name :: names)) (name :: comma :: ts) := by
  intro fuel count rest hcount hrest hfuel
  rw [List.length_cons] at hcount
  simp only [List.length_cons] at hfuel
  obtain ⟨fuel, rfl⟩ : ∃ fuel', fuel = fuel' + 1 := Nat.exists_eq_succ_of_ne_zero (by omega)
  have hlt : ¬ maxArity ≤ count := by omega
  have hmore := @hs fuel (count + 1) rest (by omega) hrest (by omega)
  unfold parameters
  simp only [hlt, if_false]
  refine Reaches.expect hn (Reaches.takes_true hc ?_)
  exact Reaches.last hmore fun names' hnames => Reaches.pure (by rw [hnames])

/-- A block ends at the brace that closes it. -/
theorem recognized_block {open' close : Token} {body : List Stmt} {ts : List Token}
    (ho : open'.isMark .leftBrace = true) (hb : Recognized (.declarations body) ts)
    (hc : close.isMark .rightBrace = true) :
    Recognized (.block body) (open' :: (ts ++ [close])) := by
  refine ⟨open', _, rfl, ho, fun fuel rest hcover => ?_⟩
  simp only [List.length_cons, List.length_append, List.length_nil] at hcover
  have hbody := @hb fuel true ([close] ++ rest) (by simp [hc])
    (hcover.after (by simp only [List.length_append, List.length_cons, List.length_nil]; omega)
      (by decide))
  exact Reaches.bind hbody fun body' hbody' => Reaches.expect hc (Reaches.pure hbody')

/-- A body, behind the check for the brace at which it begins. -/
theorem block_reaches {α : Type} {body : List Stmt} {bs rest : List Token} {fuel : Nat}
    {rule : Rule} {problem : Problem} {f : List Stmt → Parser α} {P : α → Prop}
    (hb : Recognized (.block body) bs) (hcover : Covers (fuel + 1) (bs.length + rest.length) 1)
    (hf : ∀ body', Stmt.unsitedAll body' = Stmt.unsitedAll body → Reaches (f body') [] rest P) :
    Reaches
      (do let _ ← Parser.expect (Token.isMark .leftBrace) rule problem
          let body ← blockRule (declarations fuel true)
          f body) bs rest P := by
  obtain ⟨open', us, rfl, ho, hbody⟩ := hb
  exact Reaches.expect ho (Reaches.last (hbody hcover) hf)

/-- The parameters and the body of a function, whatever it is. -/
theorem functionRest_reaches {names : List Token} {body : List Stmt} {close : Token}
    {ps bs rest : List Token} {fuel : Nat} {rule : Rule} {role : FunctionRole}
    (hp : Recognized (.parameters names) ps) (hc : close.isMark .rightParen = true)
    (hb : Recognized (.block body) bs)
    (hcover : Covers (fuel + 1) ((ps ++ close :: bs).length + rest.length) 1) :
    Reaches (functionRest fuel (declarations fuel true) rule role) (ps ++ close :: bs) rest
      fun result => result.1 = names ∧ Stmt.unsitedAll result.2 = Stmt.unsitedAll body := by
  have hfuel := hcover.le (by decide)
  simp only [List.length_cons, List.length_append] at hcover hfuel
  have hnames := @hp fuel ((close :: bs) ++ rest) hc (by omega)
  refine Reaches.bind hnames fun names' hnames' => Reaches.expect hc ?_
  exact block_reaches hb (hcover.mono (by omega) (Nat.le_refl _)) fun body' hbody' =>
    Reaches.pure ⟨hnames', hbody'⟩

/-- A function with its name. -/
theorem recognized_function {name open' close : Token} {names : List Token} {body : List Stmt}
    {ps bs : List Token} (hn : name.isIdentifier = true) (ho : open'.isMark .leftParen = true)
    (hp : Recognized (.parameters names) ps) (hc : close.isMark .rightParen = true)
    (hb : Recognized (.block body) bs) :
    Recognized (.function ⟨some name, name, names, body⟩)
      (name :: open' :: (ps ++ close :: bs)) := by
  intro fuel rest role hcover
  simp only [List.length_cons] at hcover
  refine Reaches.expect hn (Reaches.expect ho ?_)
  refine Reaches.last (functionRest_reaches hp hc hb (hcover.mono (by omega) (Nat.le_refl _)))
    fun result hresult => Reaches.pure ?_
  rw [FunctionDecl.unsited, FunctionDecl.unsited, hresult.1, hresult.2]

/-- A `fun` with no name behind it begins an expression. -/
theorem begins_functionLiteral {keyword open' close : Token} {names : List Token}
    {body : List Stmt} {ps bs : List Token} (hk : keyword.isKeyword .funKw = true)
    (ho : open'.isMark .leftParen = true) (hp : Recognized (.parameters names) ps)
    (hc : close.isMark .rightParen = true) (hb : Recognized (.block body) bs) :
    Begins .primary (.function ⟨none, keyword, names, body⟩)
      (keyword :: open' :: (ps ++ close :: bs)) := by
  rw [Token.isKeyword_iff] at hk
  refine begins_primary fun fuel rest hcover => ?_
  simp only [List.length_cons] at hcover
  refine Reaches.take?_some (by simp [opensPrimary, hk]) ?_
  simp only [hk]
  refine Reaches.expect ho ?_
  refine Reaches.last (functionRest_reaches hp hc hb (hcover.mono (by omega) (Nat.le_refl _)))
    fun result hresult => Reaches.pure ?_
  rw [Expr.unsited, Expr.unsited, FunctionDecl.unsited, FunctionDecl.unsited, hresult.1,
    hresult.2]

/-- A getter without parentheses: a brace follows its name. -/
theorem recognized_getter {name : Token} {body : List Stmt} {bs : List Token}
    (hn : name.isIdentifier = true) (hb : Recognized (.block body) bs) :
    Recognized (.getter ⟨some name, name, [], body⟩) (name :: bs) := by
  intro fuel rest hcover
  have hno : (bs ++ rest).head?.any (Token.isMark .leftParen) = false := by
    obtain ⟨open', us, rfl, ho, -⟩ := hb
    simp [Token.isMark, Token.isMark_iff.mp ho]
  refine Reaches.expect hn (Reaches.takes_false hno ?_)
  rw [List.length_cons] at hcover
  refine block_reaches hb (hcover.mono (by omega) (Nat.le_refl _)) fun body' hbody' =>
    Reaches.pure ?_
  rw [FunctionDecl.unsited, FunctionDecl.unsited, hbody']

/-- The rule for getters reads one with empty parentheses as the same getter. -/
theorem recognized_getterParens {name open' close : Token} {body : List Stmt} {bs : List Token}
    (hn : name.isIdentifier = true) (ho : open'.isMark .leftParen = true)
    (hc : close.isMark .rightParen = true) (hb : Recognized (.block body) bs) :
    Recognized (.getter ⟨some name, name, [], body⟩) (name :: open' :: close :: bs) := by
  intro fuel rest hcover
  simp only [List.length_cons] at hcover
  refine Reaches.expect hn (Reaches.takes_true ho ?_)
  refine Reaches.expect hc ?_
  refine block_reaches hb (hcover.mono (by omega) (Nat.le_refl _)) fun body' hbody' =>
    Reaches.pure ?_
  rw [FunctionDecl.unsited, FunctionDecl.unsited, hbody']

/-- A setter is stored under the name of a setter. -/
theorem recognized_setter {name open' parameter close : Token} {body : List Stmt}
    {bs : List Token} (hn : name.isIdentifier = true) (ho : open'.isMark .leftParen = true)
    (hp : parameter.isIdentifier = true) (hc : close.isMark .rightParen = true)
    (hb : Recognized (.block body) bs) :
    Recognized (.setter ⟨some (name.renamed (setterName name.lexeme)), name, [parameter], body⟩)
      (name :: open' :: parameter :: close :: bs) := by
  intro fuel rest hcover
  have hfuel := hcover.le (by decide)
  simp only [List.length_cons] at hcover hfuel
  have hnames := recognized_someParameters (.lastParameter hp) (recognized_lastParameter hp)
    (show 1 ≤ maxArity by decide)
  have hparameter := @hnames fuel ((close :: bs) ++ rest) hc (by rw [List.length_singleton]; omega)
  refine Reaches.expect hn (Reaches.expect ho ?_)
  refine @Reaches.bind _ _ _ [parameter] (close :: bs) rest _ _ _ hparameter
    fun names' hnames' => ?_
  subst hnames'
  refine Reaches.expect hc ?_
  refine block_reaches hb (hcover.mono (by omega) (Nat.le_refl _)) fun body' hbody' =>
    Reaches.pure ?_
  rw [FunctionDecl.unsited, FunctionDecl.unsited, hbody']

end Functions

section Classes

variable {d : FunctionDecl} {ms : Members} {ts us : List Token}

/-- Members end at the brace that closes the class. -/
theorem recognized_noMembers : Recognized (.members .none) [] := by
  intro fuel rest hrest hcover
  obtain ⟨fuel, rfl⟩ := hcover.exists_succ (by decide)
  intro c hc
  rw [List.nil_append] at hc
  have hsees : c.sees (Token.isMark .rightBrace) = true := by rw [Cursor.sees, hc]; exact hrest
  refine ⟨.none, c.nextSite, ?_, rfl⟩
  show (if c.unread.isEmpty || c.sees (Token.isMark .rightBrace) then
    pure .none else _ : Parser Members) c = _
  rw [hsees, Bool.or_true, if_pos rfl, ← hc]
  rfl

/-- A function begins with its name and a parenthesis. -/
theorem Derives.function_starts (h : Derives (.function d) ts) :
    ∃ name open' vs, ts = name :: open' :: vs ∧ name.kind = .identifier ∧
      open'.kind = .mark .leftParen := by
  cases h with
  | function hn ho =>
    exact ⟨_, _, _, rfl, Token.isIdentifier_iff.mp hn, Token.isMark_iff.mp ho⟩

/-- A getter begins with its name. -/
theorem Derives.getter_starts (h : Derives (.getter d) ts) :
    ∃ name vs, ts = name :: vs ∧ name.kind = .identifier := by
  cases h with
  | getter hn | getterParens hn => exact ⟨_, _, rfl, Token.isIdentifier_iff.mp hn⟩

/-- A setter begins with its name. -/
theorem Derives.setter_starts (h : Derives (.setter d) ts) :
    ∃ name vs, ts = name :: vs ∧ name.kind = .identifier := by
  cases h with
  | setter hn => exact ⟨_, _, rfl, Token.isIdentifier_iff.mp hn⟩

/-- A marker is a name with the text of the marker. -/
theorem isMarker_iff {marker : String} {t : Token} :
    isMarker marker t = true ↔ t.kind = .identifier ∧ t.lexeme = marker := by
  unfold isMarker
  rw [Bool.and_eq_true, Token.isIdentifier_iff, decide_eq_true_iff]

/-- Where a member begins, the rule for all members reads it and the others behind it. -/
theorem members_reaches {fuel : Nat} {rest : List Token} {P : Members → Prop}
    (hpos : 0 < ts.length) (hno : ts.head?.any (Token.isMark .rightBrace) = false)
    (h : Reaches (memberRule fuel (declarations fuel true) (members fuel)) ts rest P) :
    Reaches (members (fuel + 1)) ts rest P :=
  Reaches.continues (k := id) rfl hpos hno h

/-- A method begins with its name and a parenthesis, so it is not read as a getter or a setter,
whatever its name is. -/
theorem recognized_nextMethod (hd : Derives (.function d) ts) (hf : Recognized (.function d) ts)
    (hr : Recognized (.members ms) us) :
    Recognized (.members { ms with methods := d :: ms.methods }) (ts ++ us) := by
  intro fuel rest hrest hcover
  obtain ⟨fuel, rfl⟩ := hcover.exists_succ (by decide)
  obtain ⟨name, open', vs, hts, hname, hopen⟩ := hd.function_starts
  rw [List.length_append] at hcover
  have hpos : 0 < ts.length := by rw [hts]; exact Nat.succ_pos _
  have hmethod := @hf fuel (us ++ rest) .method
    (hcover.mono (by rw [List.length_append]; omega) (Nat.le_refl _))
  have hothers := @hr fuel rest hrest (hcover.after (by omega) (by decide))
  -- a name in front of a parenthesis marks nothing, whatever the name is
  refine members_reaches (by rw [List.length_append]; omega)
    (by rw [hts]; simp [Token.isMark, hname]) ?_
  unfold memberRule seesMarker
  simp only [bind_assoc, pure_bind]
  refine Reaches.takes_false (by rw [hts]; simp [Token.isKeyword, hname]) ?_
  have hsecond : ((ts ++ us) ++ rest).tail.head?.any Token.isIdentifier = false := by
    rw [hts]
    simp [Token.isIdentifier, hopen]
  refine Reaches.sees (Reaches.seesSecond ?_)
  rw [hsecond, Bool.and_false]
  refine Reaches.sees (Reaches.seesSecond ?_)
  rw [hsecond, Bool.and_false]
  refine Reaches.bind hmethod fun d' hd' => Reaches.last hothers fun ms' hms' => Reaches.pure ?_
  unfold Members.unsited at hms' ⊢
  simp_all [FunctionDecl.unsitedAll]

/-- A class method has `class` before it. -/
theorem recognized_nextClassMethod {keyword : Token} (hk : keyword.isKeyword .classKw = true)
    (hf : Recognized (.function d) ts) (hr : Recognized (.members ms) us) :
    Recognized (.members { ms with classMethods := d :: ms.classMethods })
      (keyword :: (ts ++ us)) := by
  intro fuel rest hrest hcover
  obtain ⟨fuel, rfl⟩ := hcover.exists_succ (by decide)
  simp only [List.length_cons, List.length_append] at hcover
  have hmethod := @hf fuel (us ++ rest) .method
    (hcover.mono (by rw [List.length_append]; omega) (Nat.le_refl _))
  have hothers := @hr fuel rest hrest (hcover.after (by omega) (by decide))
  refine members_reaches (Nat.succ_pos _) (by simp [Token.isMark, Token.isKeyword_iff.mp hk]) ?_
  refine Reaches.takes_true hk ?_
  refine Reaches.bind hmethod fun d' hd' => Reaches.last hothers fun ms' hms' => Reaches.pure ?_
  unfold Members.unsited at hms' ⊢
  simp_all [FunctionDecl.unsitedAll]

/-- A getter has its marker before its name. -/
theorem recognized_nextGetter {marker : Token} (hk : isMarker "get" marker = true)
    (hd : Derives (.getter d) ts) (hf : Recognized (.getter d) ts)
    (hr : Recognized (.members ms) us) :
    Recognized (.members { ms with getters := d :: ms.getters }) (marker :: (ts ++ us)) := by
  intro fuel rest hrest hcover
  obtain ⟨fuel, rfl⟩ := hcover.exists_succ (by decide)
  obtain ⟨name, vs, hts, hname⟩ := hd.getter_starts
  obtain ⟨hkind, -⟩ := isMarker_iff.mp hk
  simp only [List.length_cons, List.length_append] at hcover
  have hgetter := @hf fuel (us ++ rest)
    (hcover.mono (by rw [List.length_append]; omega) (Nat.le_refl _))
  have hothers := @hr fuel rest hrest (hcover.after (by omega) (by decide))
  refine members_reaches (Nat.succ_pos _) (by simp [Token.isMark, hkind]) ?_
  unfold memberRule seesMarker
  simp only [bind_assoc, pure_bind]
  refine Reaches.takes_false (by simp [Token.isKeyword, hkind]) ?_
  refine Reaches.sees (Reaches.seesSecond ?_)
  have hsecond : ((marker :: (ts ++ us)) ++ rest).tail.head?.any Token.isIdentifier = true := by
    rw [hts]
    simp [Token.isIdentifier, hname]
  have hfirst : ((marker :: (ts ++ us)) ++ rest).head?.any (isMarker "get") = true := hk
  rw [hfirst, hsecond]
  refine Reaches.take?_some hk ?_
  refine Reaches.bind hgetter fun d' hd' => Reaches.last hothers fun ms' hms' => Reaches.pure ?_
  unfold Members.unsited at hms' ⊢
  simp_all [FunctionDecl.unsitedAll]

/-- A setter has its marker before its name. -/
theorem recognized_nextSetter {marker : Token} (hk : isMarker "set" marker = true)
    (hd : Derives (.setter d) ts) (hf : Recognized (.setter d) ts)
    (hr : Recognized (.members ms) us) :
    Recognized (.members { ms with setters := d :: ms.setters }) (marker :: (ts ++ us)) := by
  intro fuel rest hrest hcover
  obtain ⟨fuel, rfl⟩ := hcover.exists_succ (by decide)
  obtain ⟨name, vs, hts, hname⟩ := hd.setter_starts
  obtain ⟨hkind, hlexeme⟩ := isMarker_iff.mp hk
  simp only [List.length_cons, List.length_append] at hcover
  have hsetter := @hf fuel (us ++ rest)
    (hcover.mono (by rw [List.length_append]; omega) (Nat.le_refl _))
  have hothers := @hr fuel rest hrest (hcover.after (by omega) (by decide))
  refine members_reaches (Nat.succ_pos _) (by simp [Token.isMark, hkind]) ?_
  unfold memberRule seesMarker
  simp only [bind_assoc, pure_bind]
  refine Reaches.takes_false (by simp [Token.isKeyword, hkind]) ?_
  have hget : ((marker :: (ts ++ us)) ++ rest).head?.any (isMarker "get") = false := by
    simp [isMarker, hlexeme]
  have hset : ((marker :: (ts ++ us)) ++ rest).head?.any (isMarker "set") = true := hk
  have hsecond : ((marker :: (ts ++ us)) ++ rest).tail.head?.any Token.isIdentifier = true := by
    rw [hts]
    simp [Token.isIdentifier, hname]
  refine Reaches.sees (Reaches.seesSecond ?_)
  rw [hget, Bool.false_and]
  refine Reaches.sees (Reaches.seesSecond ?_)
  rw [hset, hsecond]
  refine Reaches.take?_some hk ?_
  refine Reaches.bind hsetter fun d' hd' => Reaches.last hothers fun ms' hms' => Reaches.pure ?_
  unfold Members.unsited at hms' ⊢
  simp_all [FunctionDecl.unsitedAll]

end Classes

end Lox.Grammar
