import Lox.Proofs.Grammar.Script
import Lox.Proofs.Grammar.Lookahead
import Lox.Proofs.Tree.Formed

/-!
# The rules of the grammar, step by step

Every rule of the grammar is a script, and the trees that it gives are formed, whatever the tokens
are and whatever errors it reports or recovers from on the way (`scripting`). A node is made right
after its operator was read, so the operator is one that the rule's test let through; no rule asks
for more than the tokens one step ahead.
-/

namespace Lox.Grammar

open Lox.Parser

/-! ## Expressions -/

section Expressions

variable {conditional assignment or expression unary call : Parser Expr}
variable {arguments : Parser (List Expr)}

/-- Only a variable or a property is assigned to. -/
theorem assignTo_scripted {target : Expr} {equals : Token} {value : Expr} (ht : target.Formed)
    (hv : value.Formed) : Scripted Expr.Formed (assignTo target equals value) := by
  unfold assignTo
  split
  next => exact Scripted.freshSite.bind fun site _ => .pure hv
  next => exact .pure ⟨ht, hv⟩
  next => exact Scripted.report.bind fun _ _ => .pure ht

/-- An assignment, or what binds tighter. -/
theorem assignmentRule_scripted (hc : Scripted Expr.Formed conditional)
    (ha : Scripted Expr.Formed assignment) :
    Scripted Expr.Formed (assignmentRule conditional assignment) := by
  refine hc.bind fun target ht => Scripted.take?.bind fun equals? _ => ?_
  cases equals? with
  | none => exact .pure ht
  | some equals => exact ha.bind fun value hv => assignTo_scripted ht hv

/-- A conditional is formed if its three parts are. -/
theorem conditionalRule_scripted (ho : Scripted Expr.Formed or)
    (he : Scripted Expr.Formed expression) (hc : Scripted Expr.Formed conditional) :
    Scripted Expr.Formed (conditionalRule or expression conditional) := by
  refine ho.bind fun condition hcondition => Scripted.takes.bind fun question _ => .ite ?_ ?_
  · refine he.bind fun whenTrue htrue => Scripted.expect.bind fun _ _ => ?_
    exact hc.bind fun whenFalse hfalse => .pure ⟨hcondition, htrue, hfalse⟩
  · exact .pure hcondition

/-- The rule lets through the operators that evaluation knows. -/
theorem isUnary_of_isUnaryOperator {t : Token} (h : isUnaryOperator t = true) : t.IsUnary := by
  unfold isUnaryOperator Token.isMark at h
  unfold Token.IsUnary
  split at h
  next mark hkind =>
    rw [hkind]
    cases mark <;> simp_all
  next => simp at h

/-- A unary operator is one that passed the test. -/
theorem unaryRule_scripted (hu : Scripted Expr.Formed unary) (hc : Scripted Expr.Formed call) :
    Scripted Expr.Formed (unaryRule unary call) := by
  refine Scripted.take?.bind fun operator? hoperator => ?_
  cases operator? with
  | some operator =>
    exact hu.bind fun operand h => .pure ⟨isUnary_of_isUnaryOperator (hoperator operator rfl), h⟩
  | none => exact hc

/-- Arguments are formed one by one. -/
theorem argumentsRule_scripted (ha : Scripted Expr.FormedAll arguments) :
    Scripted (fun result => Expr.FormedAll result.1) (argumentsRule arguments) := by
  have hrest (values : List Expr) (hvalues : Expr.FormedAll values) :
      Scripted (fun result => Expr.FormedAll result.1) (do
        let paren ← expect (Token.isMark .rightParen) .call .argumentsClose
        return (values, paren)) :=
    Scripted.expect.bind fun paren _ => .pure hvalues
  have hnone : Scripted Expr.FormedAll (pure [] : Parser (List Expr)) := .pure trivial
  exact Scripted.sees.bind fun closed _ => .ite (hnone.bind hrest) (ha.bind hrest)

/-- A `super` has no parts. -/
theorem inheritedRule_scripted (keyword : Token) :
    Scripted Expr.Formed (inheritedRule keyword) :=
  Scripted.expect.bind fun _ _ => Scripted.expect.bind fun _ _ =>
    Scripted.freshSite.bind fun _ _ => .pure trivial

/-- A group is formed if the expression in it is. -/
theorem groupRule_scripted (he : Scripted Expr.Formed expression) :
    Scripted Expr.Formed (groupRule expression) :=
  he.bind fun _ hinner => Scripted.expect.bind fun _ _ => .pure hinner

end Expressions

/-! ## Functions -/

section Functions

variable {declarations : Parser (List Stmt)}

/-- Nothing is asked of parameters. -/
theorem parameters_scripted (fuel count : Nat) :
    Scripted (fun _ => True) (parameters fuel count) := by
  induction fuel generalizing count with
  | zero => exact .outOfFuel
  | succ fuel ih =>
    have hnames : Scripted (fun _ => True) (do
        let name ← expect Token.isIdentifier .functionDecl .parameterName
        if ← takes (Token.isMark .comma) then
          return name :: (← parameters fuel (count + 1))
        else
          return [name]) := by
      refine Scripted.expect.bind fun name _ => Scripted.takes.bind fun comma _ => .ite ?_ ?_
      · exact (ih (count + 1)).bind fun names _ => .pure trivial
      · exact .pure trivial
    unfold parameters
    by_cases hcount : maxArity ≤ count
    · simp only [hcount, if_true]
      exact Scripted.peek.bind fun t _ => Scripted.report.bind fun _ _ => hnames
    · simp only [hcount, if_false]
      exact hnames

/-- Nothing is asked of parameters in parentheses. -/
theorem parametersRule_scripted (fuel : Nat) :
    Scripted (fun _ => True) (parametersRule fuel) :=
  Scripted.sees.bind fun _ _ => .ite (.pure trivial) (parameters_scripted fuel 0)

/-- A block is formed if its declarations are. -/
theorem blockRule_scripted (hd : Scripted Stmt.FormedAll declarations) :
    Scripted Stmt.FormedAll (blockRule declarations) :=
  hd.bind fun _ hbody => Scripted.expect.bind fun _ _ => .pure hbody

/-- The body of a function is formed. -/
theorem functionRest_scripted (fuel : Nat) (hd : Scripted Stmt.FormedAll declarations)
    (rule : Rule) (role : FunctionRole) :
    Scripted (fun result => Stmt.FormedAll result.2)
      (functionRest fuel declarations rule role) := by
  refine (parametersRule_scripted fuel).bind fun names _ => Scripted.expect.bind fun _ _ => ?_
  refine Scripted.expect.bind fun _ _ => (blockRule_scripted hd).bind fun body hbody => ?_
  exact .pure hbody

/-- The function has a name, which was read first. -/
theorem functionRule_scripted (fuel : Nat) (hd : Scripted Stmt.FormedAll declarations)
    (role : FunctionRole) :
    Scripted (fun d => d.Named ∧ d.Formed) (functionRule fuel declarations role) := by
  refine Scripted.expect.bind fun name _ => Scripted.expect.bind fun _ _ => ?_
  exact (functionRest_scripted fuel hd .functionDecl role).bind fun result hresult =>
    .pure ⟨⟨name, rfl⟩, hresult⟩

/-- A function without a name may stand where an expression does. -/
theorem functionLiteralRule_scripted (fuel : Nat) (hd : Scripted Stmt.FormedAll declarations)
    (keyword : Token) : Scripted Expr.Formed (functionLiteralRule fuel declarations keyword) := by
  refine Scripted.expect.bind fun _ _ => ?_
  exact (functionRest_scripted fuel hd .functionLiteral .function).bind fun result hresult =>
    .pure hresult

end Functions

/-! ## Classes -/

section Classes

variable {declarations : Parser (List Stmt)} {others members : Parser Members}

/-- The members read so far are formed, each as its kind has it. -/
structure Members.Formed (ms : Members) : Prop where
  methods : ∀ d ∈ ms.methods, d.Named ∧ d.Formed
  classMethods : ∀ d ∈ ms.classMethods, d.Named ∧ d.Formed
  getters : ∀ d ∈ ms.getters, (d.Named ∧ d.parameters = []) ∧ d.Formed
  setters : ∀ d ∈ ms.setters, d.NamedAsSetter ∧ d.Formed

/-- A getter has a name and no parameters, whether parentheses were read or not. -/
theorem getterRule_scripted (hd : Scripted Stmt.FormedAll declarations) :
    Scripted (fun d => (d.Named ∧ d.parameters = []) ∧ d.Formed) (getterRule declarations) := by
  have hrest (name : Token) : Scripted (fun d => (d.Named ∧ d.parameters = []) ∧ d.Formed) (do
      let _ ← expect (Token.isMark .leftBrace) .classDecl .getterBodyOpen
      let body ← blockRule declarations
      return (⟨some name, name, [], body⟩ : FunctionDecl)) :=
    Scripted.expect.bind fun _ _ => (blockRule_scripted hd).bind fun body hbody =>
      .pure ⟨⟨⟨name, rfl⟩, rfl⟩, hbody⟩
  refine Scripted.expect.bind fun name _ => Scripted.takes.bind fun parens _ => ?_
  cases parens with
  | true => exact Scripted.expect.bind fun _ _ => hrest name
  | false => exact hrest name

/-- A setter is stored under the name of a setter, however many parameters it has. -/
theorem setterRule_scripted (fuel : Nat) (hd : Scripted Stmt.FormedAll declarations) :
    Scripted (fun d => d.NamedAsSetter ∧ d.Formed) (setterRule fuel declarations) := by
  have hrest (name : Token) (names : List Token) :
      Scripted (fun d => d.NamedAsSetter ∧ d.Formed) (do
        let _ ← expect (Token.isMark .rightParen) .classDecl .setterClose
        let _ ← expect (Token.isMark .leftBrace) .classDecl .setterBodyOpen
        let body ← blockRule declarations
        return (⟨some (name.renamed (setterName name.lexeme)), name, names, body⟩ :
          FunctionDecl)) := by
    refine Scripted.expect.bind fun _ _ => Scripted.expect.bind fun _ _ => ?_
    exact (blockRule_scripted hd).bind fun body hbody => .pure ⟨⟨_, rfl, rfl⟩, hbody⟩
  refine Scripted.expect.bind fun name _ => Scripted.expect.bind fun _ _ => ?_
  refine (parametersRule_scripted fuel).bind fun names _ => ?_
  by_cases harity : names.length ≠ 1
  · simp only [harity, ne_eq, not_false_eq_true, if_true]
    exact Scripted.report.bind fun _ _ => hrest name names
  · simp only [harity, if_false]
    exact hrest name names

/-- A member in front of others, whatever the kind. -/
theorem member_scripted {d : Parser FunctionDecl} {R : FunctionDecl → Prop}
    (add : FunctionDecl → Members → Members) (hd : Scripted R d)
    (ho : Scripted Members.Formed others)
    (hadd : ∀ d rest, R d → rest.Formed → (add d rest).Formed) :
    Scripted Members.Formed (do
      let d ← d
      let rest ← others
      return add d rest) :=
  hd.bind fun d hd => ho.bind fun rest hrest => .pure (hadd d rest hd hrest)

/-- No end is a name. -/
theorem isIdentifier_of_isEnd {t : Token} (h : t.isEnd = true) : t.isIdentifier = false :=
  Bool.eq_false_iff.mpr fun hi => Bool.eq_false_iff.mp (inner_of_isIdentifier hi) h

theorem seesMarker_scripted (marker : String) : Scripted (fun _ => True) (seesMarker marker) :=
  Scripted.seesBoth (fun _ => isIdentifier_of_isEnd) fun _ => .pure trivial

/-- Whatever kind the member is of, it is formed as that kind has it. -/
theorem memberRule_scripted (fuel : Nat) (hd : Scripted Stmt.FormedAll declarations)
    (ho : Scripted Members.Formed others) :
    Scripted Members.Formed (memberRule fuel declarations others) := by
  have hmethod := functionRule_scripted fuel hd .method
  refine Scripted.takes.bind fun classMethod _ => .ite ?_ ?_
  · exact member_scripted (fun d rest => { rest with classMethods := d :: rest.classMethods })
      hmethod ho fun d rest hd h =>
        ⟨h.methods, List.forall_mem_cons.mpr ⟨hd, h.classMethods⟩, h.getters, h.setters⟩
  refine (seesMarker_scripted "get").bind fun getter _ => .ite ?_ ?_
  · exact Scripted.take?.bind fun _ _ => member_scripted
      (fun d rest => { rest with getters := d :: rest.getters }) (getterRule_scripted hd) ho
      fun d rest hd h =>
        ⟨h.methods, h.classMethods, List.forall_mem_cons.mpr ⟨hd, h.getters⟩, h.setters⟩
  refine (seesMarker_scripted "set").bind fun setter _ => .ite ?_ ?_
  · exact Scripted.take?.bind fun _ _ => member_scripted
      (fun d rest => { rest with setters := d :: rest.setters }) (setterRule_scripted fuel hd) ho
      fun d rest hd h =>
        ⟨h.methods, h.classMethods, h.getters, List.forall_mem_cons.mpr ⟨hd, h.setters⟩⟩
  · exact member_scripted (fun d rest => { rest with methods := d :: rest.methods })
      hmethod ho fun d rest hd h =>
        ⟨List.forall_mem_cons.mpr ⟨hd, h.methods⟩, h.classMethods, h.getters, h.setters⟩

/-- A superclass is a name. -/
theorem superclassRule_scripted :
    Scripted (fun clause? => ∀ clause ∈ clause?, clause.IsVariable) superclassRule := by
  refine Scripted.takes.bind fun less _ => .ite ?_ (.pure fun _ h => nomatch h)
  refine Scripted.expect.bind fun name _ => Scripted.freshSite.bind fun site _ => .pure ?_
  rintro _ ⟨⟩
  exact ⟨site, name, rfl⟩

/-- The members that were read make a formed class. -/
theorem Members.Formed.classDecl {ms : Members} (h : ms.Formed) (name : Token)
    {superclass : Option Expr} (hs : ∀ clause ∈ superclass, clause.IsVariable) :
    ClassDecl.Formed
      ⟨name, superclass, ms.methods, ms.classMethods, ms.getters, ms.setters⟩ := by
  refine ⟨hs, ⟨fun d hd => (h.methods d hd).1, fun d hd => (h.classMethods d hd).1,
    fun d hd => (h.getters d hd).1, fun d hd => (h.setters d hd).1⟩, ?_, ?_, ?_, ?_⟩
  · exact FunctionDecl.formedAll_iff.mpr fun d hd => (h.methods d hd).2
  · exact FunctionDecl.formedAll_iff.mpr fun d hd => (h.classMethods d hd).2
  · exact FunctionDecl.formedAll_iff.mpr fun d hd => (h.getters d hd).2
  · exact FunctionDecl.formedAll_iff.mpr fun d hd => (h.setters d hd).2

/-- A class is formed if its members are, each by its kind. -/
theorem classRule_scripted (hm : Scripted Members.Formed members) :
    Scripted Stmt.Formed (classRule members) := by
  refine Scripted.expect.bind fun name _ => superclassRule_scripted.bind fun superclass hs => ?_
  refine Scripted.expect.bind fun _ _ => hm.bind fun ms h => Scripted.expect.bind fun _ _ => ?_
  exact .pure (h.classDecl name hs)

end Classes

/-! ## Statements -/

section Statements

variable {expression : Parser Expr} {statement : Parser Stmt} {declarations : Parser (List Stmt)}
variable {members : Parser Members}

/-- A constant is formed if its value is. -/
theorem constantRule_scripted (he : Scripted Expr.Formed expression) :
    Scripted Stmt.Formed (constantRule expression) := by
  refine Scripted.expect.bind fun name _ => Scripted.expect.bind fun _ _ => ?_
  exact he.bind fun value hvalue => Scripted.expect.bind fun _ _ => .pure hvalue

/-- An expression that may be absent. -/
theorem some_scripted (he : Scripted Expr.Formed expression) :
    Scripted Expr.FormedOption (some <$> expression) :=
  he.map fun _ h => h

/-- A variable is formed if its value is, or if it has none. -/
theorem varRule_scripted (he : Scripted Expr.Formed expression) :
    Scripted Stmt.Formed (varRule expression) := by
  have hrest (name : Token) (value : Option Expr) (hvalue : Expr.FormedOption value) :
      Scripted Stmt.Formed (do
        let _ ← expect (Token.isMark .semicolon) .varDecl .varEnd
        return Stmt.var name value) :=
    Scripted.expect.bind fun _ _ => .pure hvalue
  have hnone : Scripted Expr.FormedOption (pure none : Parser (Option Expr)) := .pure trivial
  exact Scripted.expect.bind fun name _ => Scripted.takes.bind fun equals _ =>
    .ite ((some_scripted he).bind (hrest name)) (hnone.bind (hrest name))

/-- An expression as a statement is formed if the expression is. -/
theorem expressionRule_scripted (he : Scripted Expr.Formed expression) :
    Scripted Stmt.Formed (expressionRule expression) :=
  he.bind fun _ hvalue => Scripted.expect.bind fun _ _ => .pure hvalue

/-- An absent clause is formed. -/
theorem optionalUntil_scripted (mark : Mark) (he : Scripted Expr.Formed expression) :
    Scripted Expr.FormedOption (optionalUntil mark expression) :=
  Scripted.sees.bind fun _ _ => .ite (.pure trivial) (some_scripted he)

/-- The start of a `for` is a formed statement, if there is one. -/
theorem forStart_scripted (he : Scripted Expr.Formed expression) :
    Scripted Stmt.FormedOption (forStart expression) := by
  refine Scripted.takes.bind fun nothing _ => .ite (.pure trivial) ?_
  refine Scripted.takes.bind fun isVar _ => .ite ?_ ?_
  · exact (varRule_scripted he).map fun _ h => h
  · exact (expressionRule_scripted he).map fun _ h => h

/-- The loop that a `for` stands for has the nodes of its clauses and its body. -/
theorem forLoop_formed {start : Option Stmt} {condition increment : Option Expr} {body : Stmt}
    (hs : Stmt.FormedOption start) (hc : Expr.FormedOption condition)
    (hi : Expr.FormedOption increment) (hb : body.Formed) :
    (forLoop start condition increment body).Formed := by
  have hloop : (Stmt.loop (condition.getD (.literal .true)) body increment).Formed := by
    refine ⟨?_, hb, hi⟩
    cases condition with
    | none => trivial
    | some e => exact hc
  cases start with
  | none => exact hloop
  | some first => exact ⟨hs, hloop, trivial⟩

/-- The blocks and the condition that are added to a `for` are formed. -/
theorem forRule_scripted (he : Scripted Expr.Formed expression)
    (hs : Scripted Stmt.Formed statement) :
    Scripted Stmt.Formed (forRule expression statement) := by
  refine Scripted.expect.bind fun _ _ => (forStart_scripted he).bind fun start hstart => ?_
  refine (optionalUntil_scripted .semicolon he).bind fun condition hcondition => ?_
  refine Scripted.expect.bind fun _ _ => ?_
  refine (optionalUntil_scripted .rightParen he).bind fun increment hincrement => ?_
  refine Scripted.expect.bind fun _ _ => hs.bind fun body hbody => ?_
  exact .pure (forLoop_formed hstart hcondition hincrement hbody)

/-- An `if`, with or without `else`. -/
theorem ifRule_scripted (he : Scripted Expr.Formed expression)
    (hs : Scripted Stmt.Formed statement) :
    Scripted Stmt.Formed (ifRule expression statement) := by
  have hsome : Scripted Stmt.FormedOption (some <$> statement) := hs.map fun _ h => h
  have hnone : Scripted Stmt.FormedOption (pure none : Parser (Option Stmt)) := .pure trivial
  refine Scripted.expect.bind fun _ _ => he.bind fun condition hcondition => ?_
  refine Scripted.expect.bind fun _ _ => hs.bind fun whenTrue htrue => ?_
  refine Scripted.takes.bind fun hasElse _ => .ite ?_ ?_
  · exact hsome.bind fun whenFalse hfalse => .pure ⟨hcondition, htrue, hfalse⟩
  · exact hnone.bind fun whenFalse hfalse => .pure ⟨hcondition, htrue, hfalse⟩

/-- A `while` has no increment. -/
theorem whileRule_scripted (he : Scripted Expr.Formed expression)
    (hs : Scripted Stmt.Formed statement) :
    Scripted Stmt.Formed (whileRule expression statement) := by
  refine Scripted.expect.bind fun _ _ => he.bind fun condition hcondition => ?_
  refine Scripted.expect.bind fun _ _ => hs.bind fun body hbody => ?_
  exact .pure ⟨hcondition, hbody, trivial⟩

/-- An `input` has a variable for its target. -/
theorem inputRule_scripted (keyword : Token) : Scripted Stmt.Formed (inputRule keyword) :=
  Scripted.expect.bind fun name _ => Scripted.expect.bind fun _ _ =>
    Scripted.freshSite.bind fun site _ => .pure ⟨site, name, rfl⟩

/-- A `print` is formed if its value is. -/
theorem printRule_scripted (he : Scripted Expr.Formed expression) (keyword : Token) :
    Scripted Stmt.Formed (printRule expression keyword) :=
  he.bind fun _ hvalue => Scripted.expect.bind fun _ _ => .pure hvalue

/-- A `return` is formed if its value is, or if it has none. -/
theorem returnRule_scripted (he : Scripted Expr.Formed expression) (keyword : Token) :
    Scripted Stmt.Formed (returnRule expression keyword) :=
  (optionalUntil_scripted .semicolon he).bind fun _ hvalue => Scripted.expect.bind fun _ _ =>
    .pure hvalue

/-- Every kind of statement is parsed by a script to a formed tree. -/
theorem statementRule_scripted (he : Scripted Expr.Formed expression)
    (hs : Scripted Stmt.Formed statement) (hd : Scripted Stmt.FormedAll declarations) :
    Scripted Stmt.Formed (statementRule expression statement declarations) := by
  refine Scripted.take?.bind fun t? _ => ?_
  cases t? with
  | none => exact expressionRule_scripted he
  | some t =>
    dsimp only
    split
    next => exact Scripted.expect.bind fun _ _ => .pure trivial
    next => exact Scripted.expect.bind fun _ _ => .pure trivial
    next => exact forRule_scripted he hs
    next => exact ifRule_scripted he hs
    next => exact inputRule_scripted t
    next => exact printRule_scripted he t
    next => exact returnRule_scripted he t
    next => exact whileRule_scripted he hs
    next => exact .pure trivial
    next => exact (blockRule_scripted hd).map fun _ h => h

/-- No end is a mark. -/
theorem isMark_of_isEnd {m : Mark} {t : Token} (h : t.isEnd = true) : t.isMark m = false :=
  Bool.eq_false_iff.mpr fun hm => Bool.eq_false_iff.mp (inner_of_isMark hm) h

/-- Every kind of declaration is parsed by a script to a formed tree. -/
theorem declarationRule_scripted (fuel : Nat) (he : Scripted Expr.Formed expression)
    (hs : Scripted Stmt.Formed statement) (hd : Scripted Stmt.FormedAll declarations)
    (hm : Scripted Members.Formed members) :
    Scripted Stmt.Formed (declarationRule fuel expression statement declarations members) := by
  have hnamed : Scripted Stmt.Formed (do
      if ← takes (Token.isKeyword .funKw) then
        .functionDecl <$> functionRule fuel declarations .function
      else if ← takes (Token.isKeyword .valKw) then constantRule expression
      else if ← takes (Token.isKeyword .varKw) then varRule expression
      else statement) := by
    refine Scripted.takes.bind fun isFun _ => .ite ?_ ?_
    · exact (functionRule_scripted fuel hd .function).map fun _ h => h
    refine Scripted.takes.bind fun isVal _ => .ite (constantRule_scripted he) ?_
    exact Scripted.takes.bind fun isVar _ => .ite (varRule_scripted he) hs
  refine Scripted.takes.bind fun isClass _ => .ite (classRule_scripted hm) ?_
  exact Scripted.seesBoth (fun _ => isMark_of_isEnd)
    (f := fun isLiteral => if isLiteral = true then statement else _)
    fun isLiteral => .ite hs hnamed

end Statements

/-! ## The rules tied together -/

/-- With this fuel every rule is a script that makes formed trees. -/
structure Scripting (fuel : Nat) : Prop where
  binary (level : Level) : Scripted Expr.Formed (binary fuel level)
  binaryRest (level : Level) {left : Expr} : left.Formed →
    Scripted Expr.Formed (binaryRest fuel level left)
  operand (level : Level) : Scripted Expr.Formed (operand fuel level)
  assignment : Scripted Expr.Formed (assignment fuel)
  conditional : Scripted Expr.Formed (conditional fuel)
  unary : Scripted Expr.Formed (unary fuel)
  call : Scripted Expr.Formed (call fuel)
  callRest {callee : Expr} : callee.Formed → Scripted Expr.Formed (callRest fuel callee)
  arguments (count : Nat) : Scripted Expr.FormedAll (arguments fuel count)
  primary : Scripted Expr.Formed (primary fuel)
  declarations (inBlock : Bool) : Scripted Stmt.FormedAll (declarations fuel inBlock)
  declaration : Scripted Stmt.Formed (declaration fuel)
  statement : Scripted Stmt.Formed (statement fuel)
  members : Scripted Members.Formed (members fuel)

/-- Without fuel a rule is the script that is out of it. -/
theorem scripting_zero : Scripting 0 where
  binary _ := .outOfFuel
  binaryRest _ _ _ := .outOfFuel
  operand _ := .outOfFuel
  assignment := .outOfFuel
  conditional := .outOfFuel
  unary := .outOfFuel
  call := .outOfFuel
  callRest _ := .outOfFuel
  arguments _ := .outOfFuel
  primary := .outOfFuel
  declarations _ := .outOfFuel
  declaration := .outOfFuel
  statement := .outOfFuel
  members := .outOfFuel

/-- An operator of a level makes a node that it may stand at. -/
theorem join_formed {level : Level} {left right : Expr} {operator : Token}
    (h : level.joins operator = true) (hl : left.Formed) (hr : right.Formed) :
    (level.join left operator right).Formed := by
  unfold Level.joins at h
  split at h <;> simp_all [Level.join, Expr.Formed, Token.IsBinary, Token.IsLogical, binaryMarks]

namespace Scripting

variable {fuel : Nat} (scripting : Scripting fuel)

include scripting

/-- An operator joins formed operands as its level has it. -/
theorem binaryRest_step (level : Level) {left : Expr} (h : left.Formed) :
    Scripted Expr.Formed (Grammar.binaryRest (fuel + 1) level left) := by
  refine Scripted.take?.bind fun operator? hoperator => ?_
  cases operator? with
  | none => exact .pure h
  | some operator =>
    exact (scripting.operand level).bind fun right hright =>
      scripting.binaryRest level (join_formed (hoperator operator rfl) h hright)

/-- The operands of a level are the next tighter level, or unary. -/
theorem operand_step (level : Level) :
    Scripted Expr.Formed (Grammar.operand (fuel + 1) level) := by
  cases level with
  | comma => exact scripting.assignment
  | or => exact scripting.binary .and
  | and => exact scripting.binary .equality
  | equality => exact scripting.binary .comparison
  | comparison => exact scripting.binary .term
  | term => exact scripting.binary .factor
  | factor => exact scripting.unary

/-- Calls and properties behind a formed callee. -/
theorem callRest_step {callee : Expr} (h : callee.Formed) :
    Scripted Expr.Formed (Grammar.callRest (fuel + 1) callee) := by
  refine Scripted.takes.bind fun paren _ => .ite ?_ ?_
  · refine (argumentsRule_scripted (scripting.arguments 0)).bind fun result hresult => ?_
    exact scripting.callRest ⟨h, hresult⟩
  refine Scripted.takes.bind fun dot _ => .ite ?_ (.pure h)
  exact Scripted.expect.bind fun name _ => scripting.callRest h

/-- An argument after a comma, again and again. -/
theorem arguments_step (count : Nat) :
    Scripted Expr.FormedAll (Grammar.arguments (fuel + 1) count) := by
  have hrow : Scripted Expr.FormedAll (do
      let value ← Grammar.assignment fuel
      if ← takes (Token.isMark .comma) then
        return value :: (← Grammar.arguments fuel (count + 1))
      else return [value]) := by
    refine scripting.assignment.bind fun value hv => Scripted.takes.bind fun comma _ => .ite ?_ ?_
    · exact (scripting.arguments (count + 1)).bind fun values hvalues => .pure ⟨hv, hvalues⟩
    · exact .pure ⟨hv, trivial⟩
  unfold Grammar.arguments
  by_cases hcount : maxArity ≤ count
  · simp only [hcount, if_true]
    exact Scripted.peek.bind fun t _ => Scripted.report.bind fun _ _ => hrow
  · simp only [hcount, if_false]
    exact hrow

/-- The first token tells which script goes on. -/
theorem primary_step : Scripted Expr.Formed (Grammar.primary (fuel + 1)) := by
  unfold Grammar.primary
  refine Scripted.take?.bind fun t? _ => ?_
  cases t? with
  | none => exact Scripted.peek.bind fun t _ => .refuse
  | some t =>
    dsimp only
    split
    next => exact Scripted.freshSite.bind fun site _ => .pure trivial
    next => exact inheritedRule_scripted t
    next => exact functionLiteralRule_scripted fuel (scripting.declarations true) t
    next => exact Scripted.freshSite.bind fun site _ => .pure trivial
    next => exact groupRule_scripted (scripting.binary .comma)
    next =>
      split
      next => exact .pure trivial
      next => exact .refuse

/-- A declaration that is refused leaves nothing behind that could be ill formed. -/
theorem declarations_step (inBlock : Bool) :
    Scripted Stmt.FormedAll (Grammar.declarations (fuel + 1) inBlock) := by
  have hmore : Scripted Stmt.FormedAll (do
      let first ← recovering (Grammar.declaration fuel)
      let rest ← Grammar.declarations fuel inBlock
      return first.toList ++ rest) := by
    refine scripting.declaration.recovering.bind fun first hfirst => ?_
    refine (scripting.declarations inBlock).bind fun rest hrest => .pure ?_
    cases first with
    | none => exact hrest
    | some s => exact ⟨hfirst s rfl, hrest⟩
  unfold Grammar.declarations
  refine Scripted.atEnd (f := fun ended => sees (Token.isMark .rightBrace) >>= fun closed =>
    if (ended || (inBlock && closed)) = true then pure [] else _) fun ended => ?_
  exact Scripted.sees.bind fun closed _ => .ite (.pure trivial) hmore

/-- Members are formed up to the brace. -/
theorem members_step : Scripted Members.Formed (Grammar.members (fuel + 1)) := by
  unfold Grammar.members
  refine Scripted.atEnd (f := fun ended => sees (Token.isMark .rightBrace) >>= fun closed =>
    if (ended || closed) = true then pure Members.none else _) fun ended => ?_
  refine Scripted.sees.bind fun closed _ => .ite (.pure ?_) ?_
  · exact ⟨List.forall_mem_nil _, List.forall_mem_nil _, List.forall_mem_nil _,
      List.forall_mem_nil _⟩
  · exact memberRule_scripted fuel (scripting.declarations true) scripting.members

/-- All rules are scripts with one more unit of fuel. -/
theorem step : Scripting (fuel + 1) where
  binary level := (scripting.operand level).bind fun _ h => scripting.binaryRest level h
  binaryRest level _ h := scripting.binaryRest_step level h
  operand := scripting.operand_step
  assignment := assignmentRule_scripted scripting.conditional scripting.assignment
  conditional :=
    conditionalRule_scripted (scripting.binary .or) (scripting.binary .comma)
      scripting.conditional
  unary := unaryRule_scripted scripting.unary scripting.call
  call := scripting.primary.bind fun _ h => scripting.callRest h
  callRest h := scripting.callRest_step h
  arguments := scripting.arguments_step
  primary := scripting.primary_step
  declarations := scripting.declarations_step
  declaration := declarationRule_scripted fuel (scripting.binary .comma) scripting.statement
    (scripting.declarations true) scripting.members
  statement := statementRule_scripted (scripting.binary .comma) scripting.statement
    (scripting.declarations true)
  members := scripting.members_step

end Scripting

theorem scripting (fuel : Nat) : Scripting fuel := by
  induction fuel with
  | zero => exact scripting_zero
  | succ fuel ih => exact ih.step

/-- The rule for an expression that a whole text is makes a formed one. -/
theorem wholeExpression_scripted (fuel : Nat) :
    Scripted Expr.FormedOption (wholeExpression fuel) := by
  refine ((scripting fuel).binary .comma).bind fun value h => ?_
  refine Scripted.atEnd (f := fun ended => if ended = true then pure (some value) else _)
    fun ended => .ite (.pure h) ?_
  exact Scripted.peek.bind fun t _ => Scripted.report.bind fun _ _ => .pure trivial

end Lox.Grammar

namespace Lox

/-! ## Whole parses -/

/-- What parsing gives is formed, with errors or without. -/
theorem Parser.run_gives {α : Type} {rule : Nat → Parser α} {R : α → Prop}
    (hrule : ∀ fuel, (rule fuel).Gives R) (tokens : List Token) (nextSite : Site) :
    ∀ a ∈ (Parser.run rule tokens nextSite).tree, R a := by
  unfold Parser.run
  dsimp only
  split
  next a c heq =>
    intro b hb
    cases hb
    exact hrule _ _ _ _ heq
  next =>
    intro b hb
    cases hb
  next =>
    intro b hb
    cases hb

/-- The statements that are left of a program with errors are formed, and so are those of one
without. -/
theorem Program.parse_formed (tokens : List Token) (nextSite : Site) :
    Stmt.FormedAll (Program.parse tokens nextSite).tree := by
  have hrun := Parser.run_gives
    (fun fuel => ((Grammar.scripting fuel).declarations false).gives) tokens nextSite
  unfold Program.parse
  dsimp only
  cases htree : (Parser.run (fun fuel => Grammar.declarations fuel false) tokens nextSite).tree with
  | none => trivial
  | some ss => exact hrun ss htree

/-- The expression that any tokens are parsed to is formed, if there is one. -/
theorem Expr.parse_formed (tokens : List Token) (nextSite : Site) :
    ∀ e ∈ (Expr.parse tokens nextSite).tree, e.Formed := by
  have hrun := Parser.run_gives (fun fuel => (Grammar.wholeExpression_scripted fuel).gives) tokens
    nextSite
  intro e he
  unfold Expr.parse at he
  obtain ⟨e?, htree, rfl⟩ : ∃ e? ∈ (Parser.run Grammar.wholeExpression tokens nextSite).tree,
      e? = some e := by
    simpa [Option.join_eq_some_iff] using he
  exact hrun (some e) htree

end Lox
