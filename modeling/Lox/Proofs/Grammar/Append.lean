import Lox.Proofs.Grammar.Seam
import Lox.Proofs.Grammar.Soundness

/-!
# Parsing one text after another

Each rule of the grammar does in a text that goes on what it does in the text by itself
(`Following`). So a program is parsed as its parts are: where a row of tokens ends well, the tokens
after it are parsed as if they stood alone, and errors in the one part touch nothing in the other
(`Program.parse_append`).
-/

namespace Lox.Grammar

open Lox.Parser

variable {S : Seam} {o : Prop}

/-! ## Expressions -/

section Expressions

variable {conditional assignment or expression unary call : Parser Expr}
variable {conditional' assignment' or' expression' unary' call' : Parser Expr}
variable {arguments arguments' : Parser (List Expr)}

/-- What is assigned to, and what is not, goes by the shape of the target, which shifting keeps. -/
theorem assignTo_follows (target : Expr) (equals : Token) (value : Expr) :
    S.Follows o (Expr.shifted S.toShift) (assignTo target equals value)
      (assignTo (target.shifted S.toShift) (equals.later S.lines) (value.shifted S.toShift)) := by
  have hother : ∀ target : Expr, S.Follows o (Expr.shifted S.toShift)
      (do report .assignment equals .assignmentTarget; return target)
      (do report .assignment (equals.later S.lines) .assignmentTarget
          return target.shifted S.toShift) :=
    fun _ => .bind (.report _ _ _) fun _ => .pure rfl
  cases target with
  | «variable» site name => exact .bind .freshSite fun site => .pure rfl
  | get object name => exact .pure rfl
  | _ => exact hother _

/-- After the left side a rule goes on only with `=`, which the second text does not begin with
where the first one ended well. -/
theorem assignmentRule_follows
    (hc : S.Follows True (Expr.shifted S.toShift) conditional conditional')
    (ha : S.Follows True (Expr.shifted S.toShift) assignment assignment') :
    S.Follows True (Expr.shifted S.toShift) (assignmentRule conditional assignment)
      (assignmentRule conditional' assignment') := by
  refine .andThen hc fun target => .take? (fun _ _ => rfl) (fun equals _ => ?_) (.pure rfl)
    (.inl trivial)
  exact .andThen ha fun value => assignTo_follows target equals value

/-- A conditional: what the second text begins with is no `?`, or the first one had an error. -/
theorem conditionalRule_follows (ho : S.Follows True (Expr.shifted S.toShift) or or')
    (he : S.Follows True (Expr.shifted S.toShift) expression expression')
    (hc : S.Follows True (Expr.shifted S.toShift) conditional conditional') :
    S.Follows True (Expr.shifted S.toShift) (conditionalRule or expression conditional)
      (conditionalRule or' expression' conditional') := by
  refine .andThen ho fun condition => .takes (fun _ _ => rfl) ?_ (.pure rfl) (.inl trivial)
  refine .andThen he fun whenTrue => .bind (.expect (fun _ _ => rfl) _ _) fun _ => ?_
  exact .andThen hc fun whenFalse => .pure rfl

/-- A unary operator asks for its operand. -/
theorem unaryRule_follows (hu : S.Follows True (Expr.shifted S.toShift) unary unary')
    (hc : S.Follows True (Expr.shifted S.toShift) call call') :
    S.Follows True (Expr.shifted S.toShift) (unaryRule unary call) (unaryRule unary' call') :=
  .take? (fun _ _ => rfl) (fun _ _ => .andThen hu fun _ => .pure rfl) hc (.inl trivial)

/-- The arguments and the closing parenthesis, so many lines later. -/
theorem argumentsRule_follows
    (ha : S.Follows True (Expr.shiftedAll S.toShift) arguments arguments') :
    S.Follows o (fun r => (Expr.shiftedAll S.toShift r.1, r.2.later S.lines))
      (argumentsRule arguments) (argumentsRule arguments') := by
  have hrest : ∀ values : List Expr, S.Follows o
      (fun r : List Expr × Token => (Expr.shiftedAll S.toShift r.1, r.2.later S.lines))
      (do let paren ← expect (Token.isMark .rightParen) .call .argumentsClose
          return (values, paren))
      (do let paren ← expect (Token.isMark .rightParen) .call .argumentsClose
          return (Expr.shiftedAll S.toShift values, paren)) :=
    fun values => .bind (.expect (fun _ _ => rfl) _ _) fun paren => .pure rfl
  have hend : ∀ values : List Expr, Demands (do
      let paren ← expect (Token.isMark .rightParen) .call .argumentsClose
      return (values, paren)) := fun values => .bind (.expect _ _)
  refine .sees (fun _ _ => rfl) ?_ (.ending ha hrest hend) (.inr (.after ha.steady hend))
  exact .bind (φ := Expr.shiftedAll S.toShift) (.pure rfl) hrest

/-- A `super` takes the site that the counter of its own text gives it. -/
theorem inheritedRule_follows (keyword : Token) :
    S.Follows o (Expr.shifted S.toShift) (inheritedRule keyword)
      (inheritedRule (keyword.later S.lines)) :=
  .bind (.expect (fun _ _ => rfl) _ _) fun _ => .bind (.expect (fun _ _ => rfl) _ _) fun _ =>
    .bind .freshSite fun _ => .pure rfl

/-- A group demands its closing parenthesis. -/
theorem groupRule_follows (he : S.Follows True (Expr.shifted S.toShift) expression expression') :
    S.Follows o (Expr.shifted S.toShift) (groupRule expression) (groupRule expression') :=
  .ending he (fun _ => .bind (.expect (fun _ _ => rfl) _ _) fun _ => .pure rfl)
    fun _ => .bind (.expect _ _)

end Expressions

/-! ## Functions -/

section Functions

variable {declarations declarations' : Parser (List Stmt)}

/-- Parameters take no site, so only their lines change. -/
theorem parameters_follows {fuel fuel' : Nat} (hfuel : fuel ≤ fuel') (count : Nat) :
    S.Follows True (List.map (Token.later S.lines)) (parameters fuel count)
      (parameters fuel' count) := by
  induction fuel generalizing fuel' count with
  | zero => exact .outOfFuel
  | succ fuel ih =>
    obtain ⟨fuel', rfl⟩ : ∃ n, fuel' = n + 1 := ⟨fuel' - 1, by omega⟩
    have hnames : S.Follows True (List.map (Token.later S.lines)) (do
        let name ← expect Token.isIdentifier .functionDecl .parameterName
        if ← takes (Token.isMark .comma) then
          return name :: (← parameters fuel (count + 1))
        else
          return [name]) (do
        let name ← expect Token.isIdentifier .functionDecl .parameterName
        if ← takes (Token.isMark .comma) then
          return name :: (← parameters fuel' (count + 1))
        else
          return [name]) := by
      refine .bind (.expect (fun _ _ => rfl) _ _) fun name => ?_
      refine .takes (fun _ _ => rfl) ?_ (.pure rfl) (.inl trivial)
      exact .andThen (ih (by omega) (count + 1)) fun names => .pure rfl
    unfold parameters
    by_cases hcount : maxArity ≤ count
    · simp only [hcount, if_true]
      exact .reportNext _ _ hnames
    · simp only [hcount, if_false]
      exact hnames

/-- Parameters demand nothing, but the parenthesis behind them is asked for at once. -/
theorem parametersRule_follows {fuel fuel' : Nat} (hfuel : fuel ≤ fuel') :
    S.Follows True (List.map (Token.later S.lines)) (parametersRule fuel) (parametersRule fuel') :=
  .sees (fun _ _ => rfl) (.pure rfl) (parameters_follows hfuel 0) (.inl trivial)

/-- A block demands its closing brace, so it does not end with the first text. -/
theorem blockRule_follows
    (hd : S.Follows True (Stmt.shiftedAll S.toShift) declarations declarations') :
    S.Follows o (Stmt.shiftedAll S.toShift) (blockRule declarations) (blockRule declarations') :=
  .ending hd (fun _ => .bind (.expect (fun _ _ => rfl) _ _) fun _ => .pure rfl)
    fun _ => .bind (.expect _ _)

/-- A function from its parameters on ends with its block. -/
theorem functionRest_follows {fuel fuel' : Nat} (hfuel : fuel ≤ fuel')
    (hd : S.Follows True (Stmt.shiftedAll S.toShift) declarations declarations') (rule : Rule)
    (role : FunctionRole) :
    S.Follows o (fun r => (r.1.map (Token.later S.lines), Stmt.shiftedAll S.toShift r.2))
      (functionRest fuel declarations rule role) (functionRest fuel' declarations' rule role) := by
  refine .ending (parametersRule_follows hfuel) (fun names => ?_) fun names => .bind (.expect _ _)
  refine .bind (.expect (fun _ _ => rfl) _ _) fun _ => ?_
  refine .bind (.expect (fun _ _ => rfl) _ _) fun _ => ?_
  exact .bind (blockRule_follows hd) fun body => .pure rfl

/-- A function with its name, so many lines later. -/
theorem functionRule_follows {fuel fuel' : Nat} (hfuel : fuel ≤ fuel')
    (hd : S.Follows True (Stmt.shiftedAll S.toShift) declarations declarations')
    (role : FunctionRole) :
    S.Follows o (FunctionDecl.shifted S.toShift) (functionRule fuel declarations role)
      (functionRule fuel' declarations' role) := by
  refine .bind (.expect (fun _ _ => rfl) _ _) fun name => .bind (.expect (fun _ _ => rfl) _ _)
    fun _ => ?_
  exact .bind (functionRest_follows hfuel hd .functionDecl role) fun rest => .pure rfl

/-- A function without a name keeps its keyword. -/
theorem functionLiteralRule_follows {fuel fuel' : Nat} (hfuel : fuel ≤ fuel')
    (hd : S.Follows True (Stmt.shiftedAll S.toShift) declarations declarations')
    (keyword : Token) :
    S.Follows o (Expr.shifted S.toShift) (functionLiteralRule fuel declarations keyword)
      (functionLiteralRule fuel' declarations' (keyword.later S.lines)) :=
  .bind (.expect (fun _ _ => rfl) _ _) fun _ =>
    .bind (functionRest_follows hfuel hd .functionLiteral .function) fun _ => .pure rfl

/-- Behind its name, a function is still to have its parameters. -/
theorem functionRule_last (fuel : Nat) (role : FunctionRole) {c : Cursor} {t : Token}
    (hu : c.unread = [t]) (ht : t.isIdentifier = true) :
    ∃ e c₁, functionRule fuel declarations role c = .error (.problem e) c₁ ∧ e.token = c.stop := by
  refine ⟨⟨.functionDecl, c.stop, .functionOpen role⟩, { c with unread := [] }, ?_, rfl⟩
  refine (bind_ok (expect_some hu ht)).trans ?_
  exact bind_error (expect_none (c := { c with unread := [] }) rfl)

end Functions

/-! ## Classes -/

section Classes

variable {declarations declarations' : Parser (List Stmt)} {others others' : Parser Members}
variable {members members' : Parser Members}

/-- A getter ends with its block, with or without parentheses before it. -/
theorem getterRule_follows
    (hd : S.Follows True (Stmt.shiftedAll S.toShift) declarations declarations') :
    S.Follows o (FunctionDecl.shifted S.toShift) (getterRule declarations)
      (getterRule declarations') := by
  have hrest : ∀ name : Token, S.Follows o (FunctionDecl.shifted S.toShift)
      (do let _ ← expect (Token.isMark .leftBrace) .classDecl .getterBodyOpen
          let body ← blockRule declarations
          return (⟨some name, name, [], body⟩ : FunctionDecl))
      (do let _ ← expect (Token.isMark .leftBrace) .classDecl .getterBodyOpen
          let body ← blockRule declarations'
          return (⟨some (name.later S.lines), name.later S.lines, [], body⟩ : FunctionDecl)) :=
    fun name => .bind (.expect (fun _ _ => rfl) _ _) fun _ =>
      .bind (blockRule_follows hd) fun body => .pure rfl
  refine .bind (.expect (fun _ _ => rfl) _ _) fun name => .takes (fun _ _ => rfl) ?_ (hrest name)
    (.inr (.inl (.bind (.expect _ _))))
  exact .bind (.expect (fun _ _ => rfl) _ _) fun _ => hrest name

/-- The name that a setter is stored under does not depend on its line. -/
theorem setterRule_follows {fuel fuel' : Nat} (hfuel : fuel ≤ fuel')
    (hd : S.Follows True (Stmt.shiftedAll S.toShift) declarations declarations') :
    S.Follows o (FunctionDecl.shifted S.toShift) (setterRule fuel declarations)
      (setterRule fuel' declarations') := by
  have hrest : ∀ (name : Token) (names : List Token), S.Follows o (FunctionDecl.shifted S.toShift)
      (do let _ ← expect (Token.isMark .rightParen) .classDecl .setterClose
          let _ ← expect (Token.isMark .leftBrace) .classDecl .setterBodyOpen
          let body ← blockRule declarations
          return (⟨some (name.renamed (setterName name.lexeme)), name, names, body⟩ :
            FunctionDecl))
      (do let _ ← expect (Token.isMark .rightParen) .classDecl .setterClose
          let _ ← expect (Token.isMark .leftBrace) .classDecl .setterBodyOpen
          let body ← blockRule declarations'
          return (⟨some ((name.later S.lines).renamed (setterName name.lexeme)),
            name.later S.lines, names.map (Token.later S.lines), body⟩ : FunctionDecl)) := by
    intro name names
    refine .bind (.expect (fun _ _ => rfl) _ _) fun _ => .bind (.expect (fun _ _ => rfl) _ _)
      fun _ => ?_
    exact .bind (blockRule_follows hd) fun body => .pure rfl
  refine .bind (.expect (fun _ _ => rfl) _ _) fun name => .bind (.expect (fun _ _ => rfl) _ _)
    fun _ => ?_
  refine .ending (parametersRule_follows hfuel) (fun names => ?_) fun names => ?_
  · rw [List.length_map]
    by_cases harity : names.length ≠ 1
    · simp only [harity, ne_eq, not_false_eq_true, if_true]
      exact .bind (.report _ _ _) fun _ => hrest name names
    · simp only [harity, if_false]
      exact hrest name names
  · by_cases harity : names.length ≠ 1
    · simp only [harity, ne_eq, not_false_eq_true, if_true]
      exact .after (.report _ _ _) fun _ => .bind (.expect _ _)
    · simp only [harity, if_false]
      exact .bind (.expect _ _)

/-- A member in front of others, whatever the kind. -/
theorem member_follows {d d' : Parser FunctionDecl} (add : FunctionDecl → Members → Members)
    (hd : S.Follows False (FunctionDecl.shifted S.toShift) d d')
    (ho : S.Follows True (Members.shifted S.toShift) others others')
    (hadd : ∀ d rest, (add d rest).shifted S.toShift =
      add (d.shifted S.toShift) (rest.shifted S.toShift)) :
    S.Follows True (Members.shifted S.toShift)
      (do let d ← d
          let rest ← others
          return add d rest)
      (do let d ← d'
          let rest ← others'
          return add d rest) :=
  .bind hd fun d => .andThen ho fun rest => .pure (hadd d rest).symm

/-- Looking for a member that is marked. If only the marker is left, it is the name of a method,
which is refused behind it. -/
theorem seesMarker_follows {marker : String} {f g : Bool → Parser Members}
    (htrue : S.Follows True (Members.shifted S.toShift) (f true) (g true))
    (hfalse : S.Follows True (Members.shifted S.toShift) (f false) (g false))
    (hend : Demands (f false))
    (hlast : ∀ c t, c.unread = [t] → isMarker marker t = true → ∃ e c₁,
      f false c = .error (.problem e) c₁ ∧ e.token = c.stop) :
    S.Follows True (Members.shifted S.toShift) (seesMarker marker >>= f)
      (seesMarker marker >>= g) := by
  unfold seesMarker
  simp only [bind_assoc, pure_bind]
  exact .seesBoth (fun _ _ => rfl) (fun _ _ => rfl) htrue hfalse hend hlast

/-- There is no marker where nothing is left, so the rule that needs none decides. -/
theorem seesMarker_demands {marker : String} {f : Bool → Parser Members}
    (hfalse : Demands (f false)) :
    Demands (seesMarker marker >>= f) := by
  unfold seesMarker
  simp only [bind_assoc, pure_bind]
  refine .sees (.seesSecond fun b => ?_)
  rwa [Bool.false_and]

/-- A marker is an identifier with the text of the marker. -/
theorem isIdentifier_of_isMarker {marker : String} {t : Token} (h : isMarker marker t = true) :
    t.isIdentifier = true ∧ t.lexeme = marker := by
  simpa [isMarker] using h

/-- A member of any kind, before those that follow it. -/
theorem memberRule_follows {fuel fuel' : Nat} (hfuel : fuel ≤ fuel')
    (hd : S.Follows True (Stmt.shiftedAll S.toShift) declarations declarations')
    (ho : S.Follows True (Members.shifted S.toShift) others others') :
    S.Follows True (Members.shifted S.toShift) (memberRule fuel declarations others)
      (memberRule fuel' declarations' others') := by
  have hmethod := functionRule_follows (o := False) hfuel hd .method
  have hplain := member_follows (fun d rest => { rest with methods := d :: rest.methods })
    hmethod ho fun _ _ => rfl
  have hdemands : ∀ add : FunctionDecl → Members → Members, Demands (do
      let d ← functionRule fuel declarations .method
      let rest ← others
      return add d rest) := fun add => .bind (.bind (.expect _ _))
  have hrefused : ∀ (add : FunctionDecl → Members → Members) (marker : String) (c : Cursor)
      (t : Token), c.unread = [t] → isMarker marker t = true → ∃ e c₁, (do
        let d ← functionRule fuel declarations .method
        let rest ← others
        return add d rest) c = .error (.problem e) c₁ ∧ e.token = c.stop := by
    intro add marker c t hu ht
    obtain ⟨e, c₁, hrefused, htoken⟩ :=
      functionRule_last fuel .method hu (isIdentifier_of_isMarker ht).1
    exact ⟨e, c₁, bind_error hrefused, htoken⟩
  refine .takes (fun _ _ => rfl) ?_ ?_ (.inl trivial)
  · exact member_follows (fun d rest => { rest with classMethods := d :: rest.classMethods })
      hmethod ho fun _ _ => rfl
  refine seesMarker_follows ?_ ?_ ?_ ?_
  · refine .take? (fun _ _ => rfl) (fun t _ => ?_) ?_ (.inl trivial)
    · exact member_follows (fun d rest => { rest with getters := d :: rest.getters })
        (getterRule_follows hd) ho fun _ _ => rfl
    · exact member_follows (fun d rest => { rest with getters := d :: rest.getters })
        (getterRule_follows hd) ho fun _ _ => rfl
  · refine seesMarker_follows ?_ hplain (hdemands _) (hrefused _ "set")
    refine .take? (fun _ _ => rfl) (fun t _ => ?_) ?_ (.inl trivial)
    · exact member_follows (fun d rest => { rest with setters := d :: rest.setters })
        (setterRule_follows hfuel hd) ho fun _ _ => rfl
    · exact member_follows (fun d rest => { rest with setters := d :: rest.setters })
        (setterRule_follows hfuel hd) ho fun _ _ => rfl
  · exact seesMarker_demands (hdemands _)
  · intro c t hu ht
    obtain ⟨e, c₁, hmethod, htoken⟩ :=
      hrefused (fun d rest => { rest with methods := d :: rest.methods }) "get" c t hu ht
    refine ⟨e, c₁, ?_, htoken⟩
    -- the marker of a getter is not that of a setter
    have hset : seesMarker "set" c = .ok false c := by
      have hsees : c.sees (isMarker "set") = false := by
        unfold Cursor.sees isMarker
        rw [hu, List.head?_cons, Option.any_some, (isIdentifier_of_isMarker ht).2]
        simp
      show EStateM.Result.ok (c.sees (isMarker "set") && c.seesSecond Token.isIdentifier) c = _
      rw [hsees, Bool.false_and]
    exact (bind_ok hset).trans hmethod

/-- The clause of a superclass, or none. -/
theorem superclassRule_follows :
    S.Follows True (Expr.shiftedOption S.toShift) superclassRule superclassRule := by
  refine .takes (fun _ _ => rfl) ?_ (.pure rfl) (.inl trivial)
  exact .bind (.expect (fun _ _ => rfl) _ _) fun name => .bind .freshSite fun _ => .pure rfl

/-- A class demands its closing brace. -/
theorem classRule_follows (hm : S.Follows True (Members.shifted S.toShift) members members') :
    S.Follows o (Stmt.shifted S.toShift) (classRule members) (classRule members') := by
  refine .bind (.expect (fun _ _ => rfl) _ _) fun name => ?_
  refine .ending superclassRule_follows (fun superclass => ?_) fun _ => .bind (.expect _ _)
  refine .bind (.expect (fun _ _ => rfl) _ _) fun _ => ?_
  refine .ending hm (fun ms => ?_) fun _ => .bind (.expect _ _)
  exact .bind (.expect (fun _ _ => rfl) _ _) fun _ => .pure rfl

end Classes

/-! ## Statements -/

section Statements

variable {expression expression' : Parser Expr} {statement statement' : Parser Stmt}
variable {declarations declarations' : Parser (List Stmt)} {members members' : Parser Members}

/-- A clause that is there. -/
theorem some_follows (he : S.Follows True (Expr.shifted S.toShift) expression expression') :
    S.Follows True (Expr.shiftedOption S.toShift) (some <$> expression) (some <$> expression') :=
  .map he fun _ => rfl

/-- A constant demands its semicolon. -/
theorem constantRule_follows
    (he : S.Follows True (Expr.shifted S.toShift) expression expression') :
    S.Follows o (Stmt.shifted S.toShift) (constantRule expression) (constantRule expression') := by
  refine .bind (.expect (fun _ _ => rfl) _ _) fun name => .bind (.expect (fun _ _ => rfl) _ _)
    fun _ => ?_
  exact .ending he (fun _ => .bind (.expect (fun _ _ => rfl) _ _) fun _ => .pure rfl)
    fun _ => .bind (.expect _ _)

/-- A variable demands its semicolon, with or without a value before it. -/
theorem varRule_follows (he : S.Follows True (Expr.shifted S.toShift) expression expression') :
    S.Follows o (Stmt.shifted S.toShift) (varRule expression) (varRule expression') := by
  have hrest : ∀ (name : Token) (value : Option Expr), S.Follows o (Stmt.shifted S.toShift)
      (do let _ ← expect (Token.isMark .semicolon) .varDecl .varEnd
          return Stmt.var name value)
      (do let _ ← expect (Token.isMark .semicolon) .varDecl .varEnd
          return Stmt.var (name.later S.lines) (Expr.shiftedOption S.toShift value)) :=
    fun name value => .bind (.expect (fun _ _ => rfl) _ _) fun _ => .pure rfl
  have hend : ∀ (name : Token) (value : Option Expr), Demands (do
      let _ ← expect (Token.isMark .semicolon) .varDecl .varEnd
      return Stmt.var name value) := fun name value => .bind (.expect _ _)
  refine .bind (.expect (fun _ _ => rfl) _ _) fun name => .takes (fun _ _ => rfl) ?_ ?_
    (.inr (.inl (.after (.pure none) (hend name))))
  · exact .ending (some_follows he) (hrest name) (hend name)
  · exact .bind (φ := Expr.shiftedOption S.toShift) (.pure rfl) (hrest name)

/-- An expression as a statement demands its semicolon. -/
theorem expressionRule_follows
    (he : S.Follows True (Expr.shifted S.toShift) expression expression') :
    S.Follows o (Stmt.shifted S.toShift) (expressionRule expression)
      (expressionRule expression') :=
  .ending he (fun _ => .bind (.expect (fun _ _ => rfl) _ _) fun _ => .pure rfl)
    fun _ => .bind (.expect _ _)

/-- An expression has a token at least. -/
theorem expressionRule_demands
    (he : S.Follows True (Expr.shifted S.toShift) expression expression') :
    Demands (expressionRule expression) :=
  .after he.steady fun _ => .bind (.expect _ _)

/-- A clause is absent if the token behind it comes next. -/
theorem optionalUntil_follows (mark : Mark)
    (he : S.Follows True (Expr.shifted S.toShift) expression expression') :
    S.Follows True (Expr.shiftedOption S.toShift) (optionalUntil mark expression)
      (optionalUntil mark expression') :=
  .sees (fun _ _ => rfl) (.pure rfl) (some_follows he) (.inl trivial)

/-- The start of a `for` ends with a semicolon of its own. -/
theorem forStart_follows (he : S.Follows True (Expr.shifted S.toShift) expression expression') :
    S.Follows o (Stmt.shiftedOption S.toShift) (forStart expression) (forStart expression') := by
  have hexpression : Demands (some <$> expressionRule expression) :=
    .bind (expressionRule_demands he)
  refine .takes (fun _ _ => rfl) (.pure rfl) ?_ (.inr (.inl (.takes hexpression)))
  refine .takes (fun _ _ => rfl) ?_ ?_ (.inr (.inl hexpression))
  · exact .map (varRule_follows he) fun _ => rfl
  · exact .map (expressionRule_follows he) fun _ => rfl

/-- A `for` ends with its body, and the loop that is made of it is shifted with its parts. -/
theorem forRule_follows (he : S.Follows True (Expr.shifted S.toShift) expression expression')
    (hs : S.Follows False (Stmt.shifted S.toShift) statement statement') :
    S.Follows o (Stmt.shifted S.toShift) (forRule expression statement)
      (forRule expression' statement') := by
  refine .bind (.expect (fun _ _ => rfl) _ _) fun _ => .bind (forStart_follows he) fun start => ?_
  refine .ending (optionalUntil_follows .semicolon he) (fun condition => ?_)
    fun _ => .bind (.expect _ _)
  refine .bind (.expect (fun _ _ => rfl) _ _) fun _ => ?_
  refine .ending (optionalUntil_follows .rightParen he) (fun increment => ?_)
    fun _ => .bind (.expect _ _)
  refine .bind (.expect (fun _ _ => rfl) _ _) fun _ => .bind hs fun body => .pure ?_
  exact (forLoop_shifted S.toShift start condition increment body).symm

/-- What follows the first text does not begin with `else`, so an `if` does not go on there. -/
theorem ifRule_follows (he : S.Follows True (Expr.shifted S.toShift) expression expression')
    (hs : S.Follows False (Stmt.shifted S.toShift) statement statement') :
    S.Follows o (Stmt.shifted S.toShift) (ifRule expression statement)
      (ifRule expression' statement') := by
  refine .bind (.expect (fun _ _ => rfl) _ _) fun _ => ?_
  refine .ending he (fun condition => ?_) fun _ => .bind (.expect _ _)
  refine .bind (.expect (fun _ _ => rfl) _ _) fun _ => .bind hs fun whenTrue => ?_
  refine .takes (fun _ _ => rfl) ?_ ?_ (.inr (.inr S.noElse))
  · have hsome : S.Follows False (Stmt.shiftedOption S.toShift) (some <$> statement)
        (some <$> statement') := .map hs fun _ => rfl
    exact .bind hsome fun whenFalse => .pure rfl
  · exact .bind (φ := Stmt.shiftedOption S.toShift) (.pure rfl) fun whenFalse => .pure rfl

/-- A `while` ends with its body. -/
theorem whileRule_follows (he : S.Follows True (Expr.shifted S.toShift) expression expression')
    (hs : S.Follows False (Stmt.shifted S.toShift) statement statement') :
    S.Follows o (Stmt.shifted S.toShift) (whileRule expression statement)
      (whileRule expression' statement') := by
  refine .bind (.expect (fun _ _ => rfl) _ _) fun _ => ?_
  refine .ending he (fun condition => ?_) fun _ => .bind (.expect _ _)
  exact .bind (.expect (fun _ _ => rfl) _ _) fun _ => .bind hs fun body => .pure rfl

/-- An `input` takes a site for its variable. -/
theorem inputRule_follows (keyword : Token) :
    S.Follows o (Stmt.shifted S.toShift) (inputRule keyword)
      (inputRule (keyword.later S.lines)) :=
  .bind (.expect (fun _ _ => rfl) _ _) fun _ => .bind (.expect (fun _ _ => rfl) _ _) fun _ =>
    .bind .freshSite fun _ => .pure rfl

/-- A `print` demands its semicolon. -/
theorem printRule_follows (he : S.Follows True (Expr.shifted S.toShift) expression expression')
    (keyword : Token) :
    S.Follows o (Stmt.shifted S.toShift) (printRule expression keyword)
      (printRule expression' (keyword.later S.lines)) :=
  .ending he (fun _ => .bind (.expect (fun _ _ => rfl) _ _) fun _ => .pure rfl)
    fun _ => .bind (.expect _ _)

/-- A `return` demands its semicolon, with or without a value before it. -/
theorem returnRule_follows (he : S.Follows True (Expr.shifted S.toShift) expression expression')
    (keyword : Token) :
    S.Follows o (Stmt.shifted S.toShift) (returnRule expression keyword)
      (returnRule expression' (keyword.later S.lines)) :=
  .ending (optionalUntil_follows .semicolon he)
    (fun _ => .bind (.expect (fun _ _ => rfl) _ _) fun _ => .pure rfl)
    fun _ => .bind (.expect _ _)

/-- Every kind of statement goes by its first token, whose kind does not depend on its line. -/
theorem statementRule_follows
    (he : S.Follows True (Expr.shifted S.toShift) expression expression')
    (hs : S.Follows False (Stmt.shifted S.toShift) statement statement')
    (hd : S.Follows True (Stmt.shiftedAll S.toShift) declarations declarations') :
    S.Follows o (Stmt.shifted S.toShift) (statementRule expression statement declarations)
      (statementRule expression' statement' declarations') := by
  refine .take? (fun _ _ => rfl) (fun t _ => ?_) (expressionRule_follows he)
    (.inr (.inl (expressionRule_demands he)))
  dsimp only [Token.later_kind]
  split
  next => exact .bind (.expect (fun _ _ => rfl) _ _) fun _ => .pure rfl
  next => exact .bind (.expect (fun _ _ => rfl) _ _) fun _ => .pure rfl
  next => exact forRule_follows he hs
  next => exact ifRule_follows he hs
  next => exact inputRule_follows t
  next => exact printRule_follows he t
  next => exact returnRule_follows he t
  next => exact whileRule_follows he hs
  next => exact .pure rfl
  next => exact .map (blockRule_follows hd) fun _ => rfl

/-- A statement has a token at least. -/
theorem statementRule_demands
    (he : S.Follows True (Expr.shifted S.toShift) expression expression') :
    Demands (statementRule expression statement declarations) :=
  .take? (expressionRule_demands he)

/-- Every kind of declaration, each ending as its rule does. -/
theorem declarationRule_follows {fuel fuel' : Nat} (hfuel : fuel ≤ fuel')
    (he : S.Follows True (Expr.shifted S.toShift) expression expression')
    (hs : S.Follows False (Stmt.shifted S.toShift) statement statement') (hend : Demands statement)
    (hd : S.Follows True (Stmt.shiftedAll S.toShift) declarations declarations')
    (hm : S.Follows True (Members.shifted S.toShift) members members') :
    S.Follows False (Stmt.shifted S.toShift)
      (declarationRule fuel expression statement declarations members)
      (declarationRule fuel' expression' statement' declarations' members') := by
  have hvar : S.Follows False (Stmt.shifted S.toShift)
      (do if ← takes (Token.isKeyword .valKw) then constantRule expression
          else if ← takes (Token.isKeyword .varKw) then varRule expression
          else statement)
      (do if ← takes (Token.isKeyword .valKw) then constantRule expression'
          else if ← takes (Token.isKeyword .varKw) then varRule expression'
          else statement') := by
    refine .takes (fun _ _ => rfl) (constantRule_follows he) ?_ (.inr (.inl (.takes hend)))
    exact .takes (fun _ _ => rfl) (varRule_follows he) hs (.inr (.inl hend))
  have hfunction : S.Follows False (Stmt.shifted S.toShift)
      (.functionDecl <$> functionRule fuel declarations .function)
      (.functionDecl <$> functionRule fuel' declarations' .function) :=
    .map (functionRule_follows hfuel hd .function) fun _ => rfl
  refine .takes (fun _ _ => rfl) (classRule_follows hm) ?_
    (.inr (.inl (.sees (.seesSecond fun b => ?_))))
  · refine .seesBoth (f := fun b => if b = true then statement else _)
      (g := fun b => if b = true then statement' else _) (fun _ _ => rfl) (fun _ _ => rfl) hs
      (.takes (fun _ _ => rfl) hfunction hvar (.inr (.inl (.takes (.takes hend)))))
      (.takes (.takes (.takes hend))) ?_
    intro c t hu ht
    -- behind `fun`, a function is still to have its name
    have htakes : takes (Token.isKeyword .funKw) c = .ok true { c with unread := [] } :=
      bind_ok (take?_some hu ht)
    have hrefused : functionRule fuel declarations .function { c with unread := [] } =
        .error (.problem ⟨.functionDecl, c.stop, .functionName .function⟩)
          { c with unread := [] } :=
      bind_error (expect_none (c := { c with unread := [] }) rfl)
    refine ⟨⟨.functionDecl, c.stop, .functionName .function⟩, { c with unread := [] }, ?_, rfl⟩
    exact (bind_ok htakes).trans (bind_error (f := fun d => pure (.functionDecl d)) hrefused)
  · rw [Bool.false_and]
    exact .takes (.takes (.takes hend))

end Statements

/-! ## The rules tied together -/

/-- With these fuels, every rule does in the second text what it does in the first. -/
structure Following (S : Seam) (fuel fuel' : Nat) : Prop where
  binary (level : Level) :
    S.Follows True (Expr.shifted S.toShift) (binary fuel level) (binary fuel' level)
  binaryRest (level : Level) (left : Expr) :
    S.Follows True (Expr.shifted S.toShift) (binaryRest fuel level left)
      (binaryRest fuel' level (left.shifted S.toShift))
  operand (level : Level) :
    S.Follows True (Expr.shifted S.toShift) (operand fuel level) (operand fuel' level)
  assignment : S.Follows True (Expr.shifted S.toShift) (assignment fuel) (assignment fuel')
  conditional : S.Follows True (Expr.shifted S.toShift) (conditional fuel) (conditional fuel')
  unary : S.Follows True (Expr.shifted S.toShift) (unary fuel) (unary fuel')
  call : S.Follows True (Expr.shifted S.toShift) (call fuel) (call fuel')
  callRest (callee : Expr) :
    S.Follows True (Expr.shifted S.toShift) (callRest fuel callee)
      (callRest fuel' (callee.shifted S.toShift))
  arguments (count : Nat) :
    S.Follows True (Expr.shiftedAll S.toShift) (arguments fuel count) (arguments fuel' count)
  primary : S.Follows False (Expr.shifted S.toShift) (primary fuel) (primary fuel')
  declarations (inBlock : Bool) :
    S.Follows True (Stmt.shiftedAll S.toShift) (declarations fuel inBlock)
      (declarations fuel' inBlock)
  declaration : S.Follows False (Stmt.shifted S.toShift) (declaration fuel) (declaration fuel')
  statement : S.Follows False (Stmt.shifted S.toShift) (statement fuel) (statement fuel')
  statementDemands : Demands (Grammar.statement fuel)
  members : S.Follows True (Members.shifted S.toShift) (members fuel) (members fuel')

/-- Without fuel the first run says nothing about the second. -/
theorem following_zero (fuel' : Nat) : Following S 0 fuel' where
  binary _ := .outOfFuel
  binaryRest _ _ := .outOfFuel
  operand _ := .outOfFuel
  assignment := .outOfFuel
  conditional := .outOfFuel
  unary := .outOfFuel
  call := .outOfFuel
  callRest _ := .outOfFuel
  arguments _ := .outOfFuel
  primary := .outOfFuel
  declarations _ := .outOfFuel
  declaration := .outOfFuel
  statement := .outOfFuel
  statementDemands := .outOfFuel
  members := .outOfFuel

section Step

variable {fuel fuel' : Nat} (following : Following S fuel fuel')

include following

/-- Whether an operator comes next is asked of the second text where the first one ends; what it
begins with may be one, unless the first one had an error. -/
theorem Following.binaryRest_step (level : Level) (left : Expr) :
    S.Follows True (Expr.shifted S.toShift) (Grammar.binaryRest (fuel + 1) level left)
      (Grammar.binaryRest (fuel' + 1) level (left.shifted S.toShift)) := by
  have hjoins : Token.Lineless level.joins := fun _ _ => rfl
  refine .take? hjoins (fun operator _ => ?_) (.pure rfl) (.inl trivial)
  refine .andThen (following.operand level) fun right => ?_
  rw [← Level.shifted_join]
  exact following.binaryRest level _

/-- The operands of a level are the next tighter level, or unary. -/
theorem Following.operand_step (level : Level) :
    S.Follows True (Expr.shifted S.toShift) (Grammar.operand (fuel + 1) level)
      (Grammar.operand (fuel' + 1) level) := by
  cases level with
  | comma => exact following.assignment
  | or => exact following.binary .and
  | and => exact following.binary .equality
  | equality => exact following.binary .comparison
  | comparison => exact following.binary .term
  | term => exact following.binary .factor
  | factor => exact following.unary

/-- Whether a call or a property goes on from the callee is asked of the second text where the first
one ends. -/
theorem Following.callRest_step (callee : Expr) :
    S.Follows True (Expr.shifted S.toShift) (Grammar.callRest (fuel + 1) callee)
      (Grammar.callRest (fuel' + 1) (callee.shifted S.toShift)) := by
  refine .takes (fun _ _ => rfl) ?_ ?_ (.inl trivial)
  · exact .bind (argumentsRule_follows (following.arguments 0)) fun result =>
      following.callRest (.call callee result.2 result.1)
  refine .takes (fun _ _ => rfl) ?_ (.pure rfl) (.inl trivial)
  exact .bind (.expect (fun _ _ => rfl) _ _) fun name => following.callRest (.get callee name)

/-- Arguments go on behind each comma; where there are too many, both texts say so. -/
theorem Following.arguments_step (count : Nat) :
    S.Follows True (Expr.shiftedAll S.toShift) (Grammar.arguments (fuel + 1) count)
      (Grammar.arguments (fuel' + 1) count) := by
  have hrow : S.Follows True (Expr.shiftedAll S.toShift)
      (do let value ← Grammar.assignment fuel
          if ← takes (Token.isMark .comma) then
            return value :: (← Grammar.arguments fuel (count + 1))
          else return [value])
      (do let value ← Grammar.assignment fuel'
          if ← takes (Token.isMark .comma) then
            return value :: (← Grammar.arguments fuel' (count + 1))
          else return [value]) := by
    refine .andThen following.assignment fun value => ?_
    refine .takes (fun _ _ => rfl) ?_ (.pure rfl) (.inl trivial)
    exact .andThen (following.arguments (count + 1)) fun _ => .pure rfl
  unfold Grammar.arguments
  by_cases hcount : maxArity ≤ count
  · simp only [hcount, if_true]
    exact .reportNext _ _ hrow
  · simp only [hcount, if_false]
    exact hrow

/-- What is read by its first token never begins where nothing is left. -/
theorem Following.primary_step (hfuel : fuel ≤ fuel') :
    S.Follows False (Expr.shifted S.toShift) (Grammar.primary (fuel + 1))
      (Grammar.primary (fuel' + 1)) := by
  unfold Grammar.primary
  refine .take? (fun _ _ => rfl) (fun t ht => ?_) (.refuseNext _ _)
    (.inr (.inl (.peek fun t => .refuse _ t _)))
  dsimp only [Token.later_kind]
  split
  next => exact .bind .freshSite fun _ => .pure rfl
  next => exact inheritedRule_follows t
  next => exact functionLiteralRule_follows hfuel (following.declarations true) t
  next => exact .bind .freshSite fun _ => .pure rfl
  next => exact groupRule_follows (following.binary .comma)
  next =>
    have hliteral : t.literal?.isSome = true := by
      unfold opensPrimary at ht
      split at ht
      all_goals first | contradiction | exact ht
    rw [show (t.later S.lines).literal? = t.literal? from rfl]
    cases hvalue : t.literal? with
    | some value => exact .pure rfl
    | none =>
      rw [hvalue] at hliteral
      cases hliteral

/-- In a block, declarations end at a brace. At the top they end with the text, and the rest of the
second text is still to come. -/
theorem Following.declarations_step (inBlock : Bool) :
    S.Follows True (Stmt.shiftedAll S.toShift) (Grammar.declarations (fuel + 1) inBlock)
      (Grammar.declarations (fuel' + 1) inBlock) := by
  unfold Grammar.declarations
  refine .isEmpty (k := fun b => inBlock && b) (f := fun b => if b = true then _ else _)
    (g := fun b => if b = true then _ else _) (fun _ _ => rfl) (.pure rfl) ?_
  refine .bind (.recovering following.declaration) fun first => ?_
  refine .andThen (following.declarations inBlock) fun rest => .pure ?_
  rw [Stmt.shiftedAll_append, Stmt.shiftedAll_toList]

/-- Members end at a brace. -/
theorem Following.members_step (hfuel : fuel ≤ fuel') :
    S.Follows True (Members.shifted S.toShift) (Grammar.members (fuel + 1))
      (Grammar.members (fuel' + 1)) := by
  unfold Grammar.members
  exact .isEmpty (k := id) (f := fun b => if b = true then _ else _)
    (g := fun b => if b = true then _ else _) (fun _ _ => rfl) (.pure rfl)
    (memberRule_follows hfuel (following.declarations true) following.members)

/-- All rules follow with one more unit of fuel in both texts. -/
theorem Following.step (hfuel : fuel ≤ fuel') : Following S (fuel + 1) (fuel' + 1) where
  binary level := .andThen (following.operand level) fun left => following.binaryRest level left
  binaryRest := following.binaryRest_step
  operand := following.operand_step
  assignment := assignmentRule_follows following.conditional following.assignment
  conditional :=
    conditionalRule_follows (following.binary .or) (following.binary .comma) following.conditional
  unary := unaryRule_follows following.unary following.call
  call := .bind following.primary fun callee => following.callRest callee
  callRest := following.callRest_step
  arguments := following.arguments_step
  primary := following.primary_step hfuel
  declarations := following.declarations_step
  declaration := declarationRule_follows hfuel (following.binary .comma) following.statement
    following.statementDemands (following.declarations true) following.members
  statement := statementRule_follows (following.binary .comma) following.statement
    (following.declarations true)
  statementDemands := statementRule_demands (following.binary .comma)
  members := following.members_step hfuel

end Step

theorem following {fuel fuel' : Nat} (hfuel : fuel ≤ fuel') : Following S fuel fuel' := by
  induction fuel generalizing fuel' with
  | zero => exact following_zero fuel'
  | succ fuel ih =>
    obtain ⟨fuel', rfl⟩ : ∃ n, fuel' = n + 1 := ⟨fuel' - 1, by omega⟩
    exact (ih (by omega)).step (by omega)

/-! ## Programs -/

section Programs

variable {fuel fuel' : Nat} {c c' c₁ c₂ : Cursor}

/-- There are no declarations where nothing is left. -/
theorem declarations_end (h : c.unread = []) : declarations (fuel + 1) false c = .ok [] c := by
  show (if c.unread.isEmpty || (false && c.sees _) then pure [] else _ : Parser (List Stmt)) c = _
  rw [h]
  rfl

/-- One declaration, or none if it is refused, and then the others. -/
theorem declarations_next {first : Option Stmt} {rest : List Stmt} (hne : c.unread ≠ [])
    (hfirst : recovering (declaration fuel) c = .ok first c₁)
    (hrest : declarations fuel false c₁ = .ok rest c₂) :
    declarations (fuel + 1) false c = .ok (first.toList ++ rest) c₂ := by
  show (if c.unread.isEmpty || (false && c.sees _) then pure [] else _ : Parser (List Stmt)) c = _
  have hmore : (c.unread.isEmpty || (false && c.sees (Token.isMark .rightBrace))) = false := by
    rw [Bool.false_and, Bool.or_false]
    exact List.isEmpty_eq_false_iff.mpr hne
  rw [hmore]
  exact (bind_ok hfirst).trans (bind_ok hrest)

/-- Where something is left to read, the next declaration is read or passed over. -/
theorem recovering_reads (hcovers : Covers (fuel + 1) c.unread.length 22) (hne : c.unread ≠ []) :
    ∃ first c₁, recovering (declaration fuel) c = .ok first c₁ ∧
      c₁.unread.length < c.unread.length := by
  have hreads := Reads.recovering ((sound fuel).declaration (hcovers.next (by decide)))
    (Nat.le_refl _) hne
  cases hfirst : recovering (declaration fuel) c with
  | ok first c₁ =>
    rw [hfirst] at hreads
    obtain ⟨ts, es, hmove, hlen, -⟩ := hreads
    exact ⟨first, c₁, rfl, by rw [hmove.length_eq]; omega⟩
  | error e c₁ =>
    unfold recovering at hfirst
    rw [recovering] at hreads
    cases hd : declaration fuel c with
    | ok s c₂ =>
      rw [hd] at hfirst
      cases hfirst
    | error e c₂ =>
      rw [hd] at hfirst hreads
      cases e with
      | problem e => cases hfirst
      | outOfFuel => exact hreads.elim

/-- A program is read to its end, whatever it is. -/
theorem declarations_total (hcovers : Covers fuel c.unread.length 22) :
    ∃ ss c₁, declarations fuel false c = .ok ss c₁ ∧ c₁.unread = [] := by
  induction fuel generalizing c with
  | zero => exact absurd hcovers not_covers_zero
  | succ fuel ih =>
    by_cases hempty : c.unread = []
    · exact ⟨[], c, declarations_end hempty, hempty⟩
    obtain ⟨first, c₁, hfirst, hless⟩ := recovering_reads hcovers hempty
    obtain ⟨rest, c₂, hrest, hdone⟩ := ih (hcovers.after hless (by decide))
    exact ⟨first.toList ++ rest, c₂, declarations_next hempty hfirst hrest, hdone⟩

/-- In a text that goes on, the declarations of the first text come first, and then those that are
read from its end on. -/
theorem declarations_joined (hj : S.Joins c c') (hfuel : fuel ≤ fuel')
    (hcovers : Covers fuel c.unread.length 22)
    (hfuel' : fuelFor (c.unread.length + S.more.length) ≤ fuel') :
    ∃ ss c₁, declarations fuel false c = .ok ss c₁ ∧ c₁.unread = [] ∧ (S.Spoilt c₁.errors ∨
      ∃ fuel₁ c₁', S.Joins c₁ c₁' ∧ fuelFor S.more.length ≤ fuel₁ ∧ ∀ rest c₂,
        declarations fuel₁ false c₁' = .ok rest c₂ →
          declarations fuel' false c' = .ok (Stmt.shiftedAll S.toShift ss ++ rest) c₂) := by
  induction fuel generalizing fuel' c c' with
  | zero => exact absurd hcovers not_covers_zero
  | succ fuel ih =>
    by_cases hempty : c.unread = []
    · refine ⟨[], c, declarations_end hempty, hempty, .inr ⟨fuel', c', hj, ?_, fun _ _ h => h⟩⟩
      rwa [hempty, List.length_nil, Nat.zero_add] at hfuel'
    obtain ⟨fuel', rfl⟩ : ∃ n, fuel' = n + 1 := ⟨fuel' - 1, by omega⟩
    obtain ⟨first, c₁, hfirst, hless⟩ := recovering_reads hcovers hempty
    have hcovers₁ : Covers fuel c₁.unread.length 22 := hcovers.after hless (by decide)
    have hfollowing : Following S fuel fuel' := following (by omega)
    have hagree := (Seam.Follows.recovering (o := False) hfollowing.declaration).agree c c' hj
    rw [hfirst] at hagree
    -- the first declaration is spoilt by the end of the text, or both texts give the same one
    rcases hagree with hspoilt | ⟨hno, _⟩ | ⟨c₁', hfirst', hj₁⟩
    · obtain ⟨rest, c₂, hrest, hdone⟩ := declarations_total hcovers₁
      refine ⟨first.toList ++ rest, c₂, declarations_next hempty hfirst hrest, hdone, .inl ?_⟩
      -- what was reported stays reported
      have hsteady := (following (S := S) (Nat.le_refl fuel)).declarations false |>.steady c₁
      rw [hrest] at hsteady
      obtain ⟨e, he, hbad⟩ := hspoilt
      exact ⟨e, hsteady.errors e he, hbad⟩
    · exact hno.elim
    · have hfuel₁ : fuelFor (c₁.unread.length + S.more.length) ≤ fuel' := by
        unfold fuelFor callsPerToken at hfuel' ⊢
        omega
      obtain ⟨rest, c₂, hrest, hdone, hjoined⟩ := ih hj₁ (by omega) hcovers₁ hfuel₁
      refine ⟨first.toList ++ rest, c₂, declarations_next hempty hfirst hrest, hdone,
        hjoined.imp_right ?_⟩
      rintro ⟨fuel₁, c₂', hj₂, hfuel₂, hlater⟩
      refine ⟨fuel₁, c₂', hj₂, hfuel₂, fun more c₃ hmore => ?_⟩
      have hne' : c'.unread ≠ [] := by
        rw [hj.unread]
        simp [hempty]
      rw [Stmt.shiftedAll_append, Stmt.shiftedAll_toList, List.append_assoc]
      exact declarations_next hne' hfirst' (hlater more c₃ hmore)

/-- A parse is what the rule for declarations gives, with the errors and the counter of its
cursor. -/
theorem parse_of_declarations {tokens : List Token} {n : Site} {ss : List Stmt}
    (h : declarations (fuelFor (Cursor.start tokens n).unread.length) false
      (Cursor.start tokens n) = .ok ss c) :
    Program.parse tokens n = ⟨ss, c.errors, c.nextSite⟩ := by
  unfold Program.parse Parser.run
  dsimp only
  rw [h]
  rfl

/-- Tokens are read in a text of their own. -/
theorem start_unread_of_closed {first : List Token} (second : List Token) (n : Site)
    (hfirst : ∀ t ∈ first, t.isEnd = false) :
    (Cursor.start (first ++ second) n).unread = first ++ (Cursor.start second n).unread ∧
      (Cursor.start (first ++ second) n).stop = (Cursor.start second n).stop := by
  have hpass : ∀ t ∈ first, (!t.isEnd) = true := fun t ht => by rw [hfirst t ht]; rfl
  have hnone : first.find? Token.isEnd = none :=
    List.find?_eq_none.mpr fun t ht => by rw [hfirst t ht]; exact Bool.false_ne_true
  refine ⟨List.takeWhile_append_of_pos hpass, ?_⟩
  unfold Cursor.start
  rw [List.find?_append, hnone, Option.none_or]

/-- The sites of a text whose references were numbered from one number, if they are numbered from
another. -/
def renumber (start start' : Site) (site : Site) : Site :=
  site + start' - start

/-- A site keeps its distance from the first. -/
theorem renumber_add (start start' i : Site) : renumber start start' (start + i) = start' + i := by
  unfold renumber
  rw [Nat.add_assoc, Nat.add_sub_cancel_left, Nat.add_comm]

theorem renumber_self (n : Site) : renumber n n = id := by
  funext i
  exact Nat.add_sub_cancel ..

/-- A text by itself is parsed as the same text on later lines and behind other ones is. -/
theorem declarations_later {lines : Nat} {before : List SyntaxError}
    (hunread : c'.unread = c.unread.map (Token.later lines)) (hstop : c'.stop = c.stop.later lines)
    (hnone : c.errors = []) (herrors : c'.errors = before) (hfuel : fuel ≤ fuel') {ss : List Stmt}
    (h : declarations fuel false c = .ok ss c₁) :
    let shift : Shift := ⟨lines, renumber c.nextSite c'.nextSite⟩
    ∃ c₁', declarations fuel' false c' = .ok (Stmt.shiftedAll shift ss) c₁' ∧
      c₁'.errors = before ++ c₁.errors.map (SyntaxError.later lines) ∧
      c₁'.nextSite = renumber c.nextSite c'.nextSite c₁.nextSite := by
  intro shift
  let S : Seam := {
    shift with
    before
    more := []
    stop := c.stop
    stop' := c'.stop
    continued := False
    bad := fun _ => False
    whole := fun _ => ⟨rfl, hstop⟩
    atStop := fun hno => hno.elim
    noElse := rfl }
  have hj : S.Joins c c' := by
    refine ⟨?_, rfl, rfl, ?_, fun i => renumber_add _ _ i, fun hno => hno.elim⟩
    · rw [hunread]
      exact (List.append_nil _).symm
    · rw [herrors, hnone]
      exact (List.append_nil _).symm
  have hagree := ((following (S := S) hfuel).declarations false).agree c c' hj
  rw [h] at hagree
  rcases hagree with ⟨e, _, hno⟩ | ⟨_, hno, _⟩ | ⟨c₁', hdeclarations, hj₁⟩
  · exact hno.elim
  · exact hno.elim
  · exact ⟨c₁', hdeclarations, hj₁.errors, (hj₁.sites 0).symm⟩

/-- A parse of a text so many lines later starts with its tokens so many lines later. A row without
an end gets one on line 1, wherever the others are, so it must have one of its own. -/
theorem start_later {second : List Token} {lines : Nat} (n n' : Site)
    (hends : lines = 0 ∨ ∃ t ∈ second, t.isEnd = true) :
    (Cursor.start (second.map (Token.later lines)) n).unread =
        (Cursor.start second n').unread.map (Token.later lines) ∧
      (Cursor.start (second.map (Token.later lines)) n).stop =
        (Cursor.start second n').stop.later lines := by
  have hsame : (fun t => (!t.isEnd)) ∘ Token.later lines = fun t => !t.isEnd := rfl
  have hend : Token.isEnd ∘ Token.later lines = Token.isEnd := rfl
  unfold Cursor.start
  refine ⟨by rw [List.takeWhile_map, hsame], ?_⟩
  dsimp only
  rw [List.find?_map, hend]
  cases hfind : second.find? Token.isEnd with
  | some t => rfl
  | none =>
    rcases hends with rfl | ⟨t, ht, hisEnd⟩
    · rfl
    · exact absurd hisEnd (List.find?_eq_none.mp hfind t ht)

/-- No parse starts with `else` if its text does not. -/
theorem start_noElse {second : List Token} {lines : Nat} (n : Site)
    (helse : second.head?.any (Token.isKeyword .elseKw) = false) :
    ((Cursor.start second n).unread.map (Token.later lines)).head?.any
      (Token.isKeyword .elseKw) = false := by
  unfold Cursor.start
  cases second with
  | nil => rfl
  | cons t ts =>
    dsimp only
    rw [List.takeWhile_cons]
    split
    · exact helse
    · rfl

/-- A parse of a text with one end starts with all other tokens. -/
theorem start_open {first : List Token} {stop : Token} (n : Site)
    (hopen : ∀ t ∈ first, t.isEnd = false) (hstop : stop.isEnd = true) :
    (Cursor.start (first ++ [stop]) n).unread = first ∧
      (Cursor.start (first ++ [stop]) n).stop = stop := by
  obtain ⟨hunread, hend⟩ := start_unread_of_closed [stop] n hopen
  rw [hunread, hend]
  unfold Cursor.start
  refine ⟨?_, by rw [List.find?_cons_of_pos hstop]; rfl⟩
  dsimp only
  rw [List.takeWhile_cons_of_neg (by rw [hstop]; exact Bool.false_ne_true), List.append_nil]

section Joined

variable {first second : List Token} {stop : Token} (lines : Nat) (n n₁ n₂ : Site)
variable (hstop : stop.isEnd = true) (helse : second.head?.any (Token.isKeyword .elseKw) = false)

/-- A row of tokens with another one behind it, so many lines later. Where the first one has errors,
nothing is said after one at its end. -/
def joint (first : List Token) : Seam where
  lines := 0
  sites := renumber n₁ n
  before := []
  more := (Cursor.start second n₂).unread.map (Token.later lines)
  stop := stop
  stop' := (Cursor.start second n₂).stop.later lines
  continued := True
  bad e := (Program.parse (first ++ [stop]) n₁).errors = [] ∨ e.token.isEnd = true
  whole hno := absurd trivial hno
  atStop _ e he := .inr (by rw [he]; exact hstop)
  noElse := start_noElse n₂ helse

/-- At the start, the two runs are at the same place. -/
theorem joint_joins (hopen : ∀ t ∈ first, t.isEnd = false)
    (hclosed : (Program.parse (first ++ [stop]) n₁).errors = [] ∨
      ∃ t ∈ first.getLast?, t.isMark .semicolon = true)
    (hends : lines = 0 ∨ ∃ t ∈ second, t.isEnd = true) :
    (joint lines n n₁ n₂ hstop helse first).Joins (Cursor.start (first ++ [stop]) n₁)
      (Cursor.start (first ++ second.map (Token.later lines)) n) := by
  obtain ⟨hunread, hend⟩ := start_open n₁ hopen hstop
  obtain ⟨hwhole, hwholeStop⟩ :=
    start_unread_of_closed (second.map (Token.later lines)) n hopen
  obtain ⟨hlater, hlaterStop⟩ := start_later n n₂ hends
  refine ⟨?_, hend, hwholeStop.trans hlaterStop, rfl, fun i => renumber_add _ _ i, ?_⟩
  · rw [hwhole, hlater, hunread]
    exact congrArg (· ++ _) (List.map_id _).symm
  · rintro - ⟨e, hbad⟩ t ht
    obtain ⟨t', ht', hmark⟩ := hclosed.resolve_left fun h => hbad (.inl h)
    rw [hunread] at ht
    rw [Option.mem_unique ht ht']
    exact hmark

/-- Where no error of the first text is at its end, nothing keeps the second run from going on as
the first one did. -/
theorem joint_clean
    (hinside : ∀ e ∈ (Program.parse (first ++ [stop]) n₁).errors, e.token.isEnd = false) :
    ¬(joint lines n n₁ n₂ hstop helse first).Spoilt
      (Program.parse (first ++ [stop]) n₁).errors := by
  rintro ⟨e, he, hnone | hisEnd⟩
  · rw [hnone] at he
    cases he
  · rw [hinside e he] at hisEnd
    cases hisEnd

include hstop helse in
/-- A row of tokens that ends well, with later ones behind it, is parsed as the two are. -/
theorem parse_joined (hopen : ∀ t ∈ first, t.isEnd = false)
    (hclosed : (Program.parse (first ++ [stop]) n₁).errors = [] ∨
      ∃ t ∈ first.getLast?, t.isMark .semicolon = true)
    (hinside : ∀ e ∈ (Program.parse (first ++ [stop]) n₁).errors, e.token.isEnd = false)
    (hends : lines = 0 ∨ ∃ t ∈ second, t.isEnd = true) :
    let one := Program.parse (first ++ [stop]) n₁
    let two := Program.parse second n₂
    let next := renumber n₁ n one.nextSite
    Program.parse (first ++ second.map (Token.later lines)) n =
      ⟨Stmt.shiftedAll ⟨0, renumber n₁ n⟩ one.tree ++
          Stmt.shiftedAll ⟨lines, renumber n₂ next⟩ two.tree,
        one.errors ++ two.errors.map (SyntaxError.later lines), renumber n₂ next two.nextSite⟩ := by
  intro one two next
  have hunread := (start_open n₁ hopen hstop).1
  have hj := joint_joins lines n n₁ n₂ hstop helse hopen hclosed hends
  have hclean := joint_clean lines n n₁ n₂ hstop helse hinside
  -- the first part, up to its end
  have hlength := congrArg List.length hj.unread
  rw [List.length_append, List.length_map] at hlength
  obtain ⟨ss, c₁, hdeclarations, hdone, hjoined⟩ := declarations_joined hj
    (by unfold fuelFor callsPerToken; omega) (covers_fuelFor _ _ (by decide))
    (Nat.le_of_eq (congrArg fuelFor hlength.symm))
  have hone : one = ⟨ss, c₁.errors, c₁.nextSite⟩ := parse_of_declarations hdeclarations
  rw [show Program.parse (first ++ [stop]) n₁ = one from rfl, hone] at hclean
  obtain ⟨fuel₁, c₁', hj₁, hfuel₁, hthen⟩ := hjoined.resolve_left hclean
  have hstart : c₁'.unread = (Cursor.start second n₂).unread.map (Token.later lines) := by
    rw [hj₁.unread, hdone]
    rfl
  have hnext : c₁'.nextSite = next := by
    show c₁'.nextSite = renumber n₁ n one.nextSite
    rw [hone]
    exact (hj₁.sites 0).symm
  have herrors : c₁'.errors = one.errors := by
    rw [hj₁.errors, hone]
    exact List.map_id _
  -- the second part, from there on
  obtain ⟨rest, c₂, hrest, -⟩ := declarations_total (c := Cursor.start second n₂)
    (covers_fuelFor (Cursor.start second n₂).unread.length 22 (by decide))
  obtain ⟨c₂', hrest', herrors', hsites'⟩ := declarations_later hstart hj₁.stop' rfl herrors
    (Nat.le_trans (Nat.le_of_eq (congrArg fuelFor (List.length_map _).symm)) hfuel₁) hrest
  have htwo : two = ⟨rest, c₂.errors, c₂.nextSite⟩ := parse_of_declarations hrest
  rw [parse_of_declarations (hthen _ _ hrest'), herrors', hsites', hnext, hone, htwo]
  rfl

end Joined

/-- Parsing distributes over the boundary between two rows of tokens, errors included: where the
first one, up to an end of its own, has no errors or ends with a semicolon, no error at that end,
and the second one does not begin with `else`, the statements and the errors of both together are
those of the one and then those of the other. References are numbered on. -/
theorem parse_append {first second : List Token} {stop : Token} (n n₁ n₂ : Site)
    (hopen : ∀ t ∈ first, t.isEnd = false) (hstop : stop.isEnd = true)
    (hclosed : (Program.parse (first ++ [stop]) n₁).errors = [] ∨
      ∃ t ∈ first.getLast?, t.isMark .semicolon = true)
    (hinside : ∀ e ∈ (Program.parse (first ++ [stop]) n₁).errors, e.token.isEnd = false)
    (helse : second.head?.any (Token.isKeyword .elseKw) = false) :
    let one := Program.parse (first ++ [stop]) n₁
    let two := Program.parse second n₂
    let both := Program.parse (first ++ second) n
    let next := renumber n₁ n one.nextSite
    both.tree = Stmt.shiftedAll ⟨0, renumber n₁ n⟩ one.tree ++
        Stmt.shiftedAll ⟨0, renumber n₂ next⟩ two.tree ∧
      both.errors = one.errors ++ two.errors ∧ both.nextSite = renumber n₂ next two.nextSite := by
  intro one two both next
  have hjoined :=
    parse_joined 0 n n₁ n₂ hstop helse hopen hclosed hinside (.inl rfl)
  have hsame : second.map (Token.later 0) = second := List.map_id second
  have herrors : two.errors.map (SyntaxError.later 0) = two.errors := List.map_id two.errors
  rw [hsame] at hjoined
  dsimp only at hjoined
  rw [herrors] at hjoined
  have hboth : both = _ := hjoined
  rw [hboth]
  exact ⟨rfl, rfl, rfl⟩

/-- A class, a declaration and a statement with mistakes, and another one behind them. -/
theorem parse_append_broken_class :
    let first := beforeEnd (scanTokens "class A < { m() {} } var = 1; print (2;")
    let second := scanTokens "x = ; print x;"
    let one := Program.parse (first ++ [Token.endOf 1]) 0
    let two := Program.parse second 0
    let both := Program.parse (first ++ second) 0
    one.errors.length = 3 ∧ two.errors.length = 1 ∧ both.errors = one.errors ++ two.errors ∧
      both.tree = Stmt.shiftedAll ⟨0, renumber 0 0⟩ one.tree ++
        Stmt.shiftedAll ⟨0, renumber 0 (renumber 0 0 one.nextSite)⟩ two.tree := by
  intro first second one two both
  have hopen : ∀ t ∈ first, t.isEnd = false := by decide +kernel
  have hclosed : ∃ t ∈ first.getLast?, t.isMark .semicolon = true := by decide +kernel
  have hinside : ∀ e ∈ one.errors, e.token.isEnd = false := by decide +kernel
  have helse : second.head?.any (Token.isKeyword .elseKw) = false := by decide +kernel
  have happend := parse_append 0 0 0 hopen rfl (.inr hclosed) hinside helse
  exact ⟨by decide +kernel, by decide +kernel, happend.2.1, happend.1⟩

end Programs

end Lox.Grammar
