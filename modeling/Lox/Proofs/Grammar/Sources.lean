import Lox.Grammar
import Lox.Proofs.Tree.Names

/-!
# Where the tokens of trees and syntax errors come from

A parse reads its tokens in order and keeps some of them in the tree. `Sourced P stop p R` says of a
rule `p` at a cursor whose unread tokens all have `P` and whose end is `stop`: what the rule gives
has `R`, and each error that it reports or gives up with names a token that has `P`, or the end.
With a law for each step that rules are made of, this goes through all rules. So the errors that a
tree can ever meet name tokens that were read (`Program.parse_sourced`), and a syntax error names
one of these or the end of the row.
-/

namespace Lox

/-- The tokens still to be read and those that errors name have their source in `P` and `stop`. -/
structure Cursor.Sourced (P : Token → Prop) (stop : Token) (c : Cursor) : Prop where
  unread : ∀ t ∈ c.unread, P t
  ends : c.stop = stop
  errors : ∀ e ∈ c.errors, P e.token ∨ e.token = stop

/-- A rule that is refused for a problem names a token of which `P` holds, or `stop`. -/
def Refusal.Sourced (P : Token → Prop) (stop : Token) : Refusal → Prop
  | .problem e => P e.token ∨ e.token = stop
  | .outOfFuel => True

/-- Recovery goes on with tokens that were there. -/
theorem mem_of_mem_resumeAfter {last t : Token} {ts : List Token}
    (h : t ∈ resumeAfter last ts) : t ∈ ts := by
  induction ts generalizing last with
  | nil => exact h
  | cons t' ts ih =>
    unfold resumeAfter at h
    split at h
    next => exact h
    next => exact List.mem_cons_of_mem t' (ih h)

namespace Cursor.Sourced

variable {P : Token → Prop} {stop : Token} {c : Cursor}

/-- The next token is one that is unread, or the last one. -/
theorem next (h : c.Sourced P stop) : P c.next ∨ c.next = stop := by
  unfold Cursor.next
  cases hunread : c.unread with
  | nil => exact .inr h.ends
  | cons t ts => exact .inl (h.unread t (hunread ▸ List.mem_cons_self))

/-- An error is remembered with the others; it names such a token. -/
theorem report {e : SyntaxError} (h : c.Sourced P stop) (he : P e.token ∨ e.token = stop) :
    (c.report e).Sourced P stop where
  unread := h.unread
  ends := h.ends
  errors e' hmem := by
    rcases List.mem_append.mp hmem with hold | hnew
    · exact h.errors e' hold
    · rw [List.mem_singleton.mp hnew]
      exact he

/-- With fewer tokens to read. -/
theorem of_unread {unread : List Token} (h : c.Sourced P stop)
    (hsub : ∀ t ∈ unread, t ∈ c.unread) : Cursor.Sourced P stop { c with unread } where
  unread t hmem := h.unread t (hsub t hmem)
  ends := h.ends
  errors := h.errors

/-- Recovery skips tokens and adds none. -/
theorem resume (h : c.Sourced P stop) : c.resume.Sourced P stop := by
  unfold Cursor.resume
  split
  next => exact h
  next t ts hunread =>
    refine h.of_unread fun t' hmem => ?_
    rw [hunread]
    exact List.mem_cons_of_mem t (mem_of_mem_resumeAfter hmem)

end Cursor.Sourced

namespace Parser

variable {α β : Type} {P : Token → Prop} {stop : Token}

/-- From tokens that have `P`, with `stop` at their end, the rule gives something that has `R`; an
error names a token that has `P`, or `stop`. -/
def Sourced (P : Token → Prop) (stop : Token) (p : Parser α) (R : α → Prop) : Prop :=
  ∀ c, c.Sourced P stop → match p c with
    | .ok a c' => c'.Sourced P stop ∧ R a
    | .error refusal c' => c'.Sourced P stop ∧ refusal.Sourced P stop

namespace Sourced

variable {p : Parser α} {R : α → Prop} {T : β → Prop} {test : Token → Bool}

/-- What has the property is given back with it. -/
theorem pure {a : α} (h : R a) : Sourced P stop (pure a : Parser α) R :=
  fun _ hc => ⟨hc, h⟩

/-- A refusal names the token that it is about. -/
theorem refuse {rule : Rule} {t : Token} {problem : Problem} (ht : P t ∨ t = stop) :
    Sourced P stop (refuse rule t problem : Parser α) R :=
  fun _ hc => ⟨hc, ht⟩

theorem outOfFuel : Sourced P stop (outOfFuel : Parser α) R :=
  fun _ hc => ⟨hc, trivial⟩

/-- One rule and then another, which goes on with what the first one gave. -/
theorem bind {f : α → Parser β} (hp : Sourced P stop p R)
    (hf : ∀ a, R a → Sourced P stop (f a) T) : Sourced P stop (p >>= f) T := by
  intro c hc
  have hfirst := hp c hc
  show match EStateM.bind p f c with
    | .ok b c' => c'.Sourced P stop ∧ T b
    | .error refusal c' => c'.Sourced P stop ∧ refusal.Sourced P stop
  unfold EStateM.bind
  cases hpc : p c with
  | error refusal c' =>
    rw [hpc] at hfirst
    exact hfirst
  | ok a c₁ =>
    rw [hpc] at hfirst
    exact hf a hfirst.2 c₁ hfirst.1

/-- What is made of a result has what follows from its property. -/
theorem map {f : α → β} (hp : Sourced P stop p R) (h : ∀ a, R a → T (f a)) :
    Sourced P stop (f <$> p) T :=
  bind hp fun a ha => .pure (h a ha)

/-- A rule that goes one of two ways is sourced if both are. -/
theorem ite {b : Bool} {q : Parser α} (hp : Sourced P stop p R) (hq : Sourced P stop q R) :
    Sourced P stop (if b = true then p else q) R := by
  cases b with
  | true => exact hp
  | false => exact hq

theorem get : Sourced P stop (get : Parser Cursor) fun _ => True :=
  fun _ hc => ⟨hc, trivial⟩

/-- The token that is looked at is unread, or the last one. -/
theorem peek : Sourced P stop peek fun t => P t ∨ t = stop :=
  fun _ hc => ⟨hc, hc.next⟩

theorem sees : Sourced P stop (sees test) fun _ => True :=
  fun _ hc => ⟨hc, trivial⟩

theorem seesSecond : Sourced P stop (seesSecond test) fun _ => True :=
  fun _ hc => ⟨hc, trivial⟩

/-- A site is no token. -/
theorem freshSite : Sourced P stop freshSite fun _ => True :=
  fun _ hc => ⟨⟨hc.unread, hc.ends, hc.errors⟩, trivial⟩

/-- An error that is reported names such a token. -/
theorem report {rule : Rule} {t : Token} {problem : Problem} (ht : P t ∨ t = stop) :
    Sourced P stop (report rule t problem) fun _ => True :=
  fun _ hc => ⟨hc.report ht, trivial⟩

/-- A token that is taken was unread. -/
theorem take? : Sourced P stop (take? test) fun t? => ∀ t ∈ t?, P t := by
  intro c hc
  unfold Parser.take?
  cases hunread : c.unread with
  | nil => exact ⟨hc, fun _ h => nomatch h⟩
  | cons t ts =>
    dsimp only
    by_cases ht : test t = true
    · rw [if_pos ht]
      refine ⟨hc.of_unread fun t' hmem => hunread ▸ List.mem_cons_of_mem t hmem, ?_⟩
      rintro _ ⟨⟩
      exact hc.unread t (hunread ▸ List.mem_cons_self)
    · rw [if_neg ht]
      exact ⟨hc, fun _ h => nomatch h⟩

theorem takes : Sourced P stop (takes test) fun _ => True :=
  take?.bind fun _ _ => .pure trivial

/-- A token that is asked for was unread, and if it is not there, the error names the one that
is. -/
theorem expect {rule : Rule} {problem : Problem} : Sourced P stop (expect test rule problem) P := by
  refine take?.bind fun t? ht => ?_
  cases t? with
  | some t => exact .pure (ht t rfl)
  | none => exact peek.bind fun t ht => .refuse ht

/-- A rule that is refused gives nothing, and its error is reported. -/
theorem recovering (hp : Sourced P stop p R) :
    Sourced P stop (recovering p) fun a? => ∀ a ∈ a?, R a := by
  intro c hc
  have hfirst := hp c hc
  unfold Parser.recovering
  cases hpc : p c with
  | ok a c' =>
    rw [hpc] at hfirst
    refine ⟨hfirst.1, ?_⟩
    rintro _ ⟨⟩
    exact hfirst.2
  | error refusal c' =>
    rw [hpc] at hfirst
    cases refusal with
    | outOfFuel => exact hfirst
    | problem e => exact ⟨(hfirst.1.report hfirst.2).resume, fun _ h => nomatch h⟩

end Sourced

end Parser

namespace Grammar

open Lox.Parser

variable {P : Token → Prop} {stop : Token}

/-! ## Expressions -/

/-- A rule for expressions. -/
abbrev SourcedExpr (P : Token → Prop) (stop : Token) (p : Parser Expr) : Prop :=
  Sourced P stop p (Expr.Names P)

/-- A rule for statements. -/
abbrev SourcedStmt (P : Token → Prop) (stop : Token) (p : Parser Stmt) : Prop :=
  Sourced P stop p (Stmt.Names P)

/-- A rule for statements in a row. -/
abbrev SourcedStmts (P : Token → Prop) (stop : Token) (p : Parser (List Stmt)) : Prop :=
  Sourced P stop p (Stmt.NamesAll P)

/-- A rule for functions. -/
abbrev SourcedFunction (P : Token → Prop) (stop : Token) (p : Parser FunctionDecl) : Prop :=
  Sourced P stop p (FunctionDecl.Names P)

/-- Errors about the members name only tokens of which `P` holds. -/
structure Members.Names (P : Token → Prop) (ms : Members) : Prop where
  methods : FunctionDecl.NamesAll P ms.methods
  classMethods : FunctionDecl.NamesAll P ms.classMethods
  getters : FunctionDecl.NamesAll P ms.getters
  setters : FunctionDecl.NamesAll P ms.setters

/-- A rule for members of a class. -/
abbrev SourcedMembers (P : Token → Prop) (stop : Token) (p : Parser Members) : Prop :=
  Sourced P stop p (Members.Names P)

section Expressions

variable {conditional assignment or expression unary call : Parser Expr}
variable {arguments : Parser (List Expr)}

/-- An assignment keeps the name of its target, and an invalid target is reported at the `=`. -/
theorem assignTo_sourced {target : Expr} {equals : Token} {value : Expr} (ht : target.Names P)
    (hequals : P equals) (hv : value.Names P) :
    SourcedExpr P stop (assignTo target equals value) := by
  unfold assignTo
  split
  next => exact Sourced.freshSite.bind fun site _ => .pure ⟨ht, hv⟩
  next => exact .pure ⟨ht.1, ht.2, hv⟩
  next => exact (Sourced.report (.inl hequals)).bind fun _ _ => .pure ht

/-- The `=` is a token that was read. -/
theorem assignmentRule_sourced (hc : SourcedExpr P stop conditional)
    (ha : SourcedExpr P stop assignment) :
    SourcedExpr P stop (assignmentRule conditional assignment) := by
  refine hc.bind fun target ht => Sourced.take?.bind fun equals? hequals => ?_
  cases equals? with
  | none => exact .pure ht
  | some equals => exact ha.bind fun value hv => assignTo_sourced ht (hequals equals rfl) hv

/-- A conditional names what its parts name. -/
theorem conditionalRule_sourced (ho : SourcedExpr P stop or) (he : SourcedExpr P stop expression)
    (hc : SourcedExpr P stop conditional) :
    SourcedExpr P stop (conditionalRule or expression conditional) := by
  refine ho.bind fun condition hcondition => Sourced.takes.bind fun question _ => .ite ?_ ?_
  · refine he.bind fun whenTrue htrue => Sourced.expect.bind fun _ _ => ?_
    exact hc.bind fun whenFalse hfalse => .pure ⟨hcondition, htrue, hfalse⟩
  · exact .pure hcondition

/-- The operator is a token that was read. -/
theorem unaryRule_sourced (hu : SourcedExpr P stop unary) (hc : SourcedExpr P stop call) :
    SourcedExpr P stop (unaryRule unary call) := by
  refine Sourced.take?.bind fun operator? hoperator => ?_
  cases operator? with
  | some operator => exact hu.bind fun operand h => .pure ⟨hoperator operator rfl, h⟩
  | none => exact hc

/-- The closing parenthesis is kept, for errors of the call. -/
theorem argumentsRule_sourced (ha : Sourced P stop arguments (Expr.NamesAll P)) :
    Sourced P stop (argumentsRule arguments) fun result =>
      Expr.NamesAll P result.1 ∧ P result.2 := by
  have hrest (values : List Expr) (hvalues : Expr.NamesAll P values) : Sourced P stop (do
      let paren ← expect (Token.isMark .rightParen) .call .argumentsClose
      return (values, paren)) fun result => Expr.NamesAll P result.1 ∧ P result.2 :=
    Sourced.expect.bind fun paren hparen => .pure ⟨hvalues, hparen⟩
  have hnone : Sourced P stop (pure [] : Parser (List Expr)) (Expr.NamesAll P) := .pure trivial
  exact Sourced.sees.bind fun closed _ => .ite (hnone.bind hrest) (ha.bind hrest)

/-- A `super` keeps its keyword and the name of the method. -/
theorem inheritedRule_sourced {keyword : Token} (hk : P keyword) :
    SourcedExpr P stop (inheritedRule keyword) :=
  Sourced.expect.bind fun _ _ => Sourced.expect.bind fun _ hmethod =>
    Sourced.freshSite.bind fun _ _ => .pure ⟨hk, hmethod⟩

/-- A group names what is in it. -/
theorem groupRule_sourced (he : SourcedExpr P stop expression) :
    SourcedExpr P stop (groupRule expression) :=
  he.bind fun _ hinner => Sourced.expect.bind fun _ _ => .pure hinner

end Expressions

/-! ## Functions -/

section Functions

variable {declarations : Parser (List Stmt)}

/-- Too many parameters are reported, each at its own place. -/
theorem parameters_sourced (fuel count : Nat) :
    Sourced P stop (parameters fuel count) fun _ => True := by
  induction fuel generalizing count with
  | zero => exact .outOfFuel
  | succ fuel ih =>
    have hnames : Sourced P stop (do
        let name ← expect Token.isIdentifier .functionDecl .parameterName
        if ← takes (Token.isMark .comma) then
          return name :: (← parameters fuel (count + 1))
        else
          return [name]) fun _ => True := by
      refine Sourced.expect.bind fun name _ => Sourced.takes.bind fun comma _ => .ite ?_ ?_
      · exact (ih (count + 1)).bind fun names _ => .pure trivial
      · exact .pure trivial
    unfold parameters
    by_cases hcount : maxArity ≤ count
    · simp only [hcount, if_true]
      exact Sourced.peek.bind fun t ht => (Sourced.report ht).bind fun _ _ => hnames
    · simp only [hcount, if_false]
      exact hnames

/-- No error names a parameter once it is read. -/
theorem parametersRule_sourced (fuel : Nat) :
    Sourced P stop (parametersRule fuel) fun _ => True :=
  Sourced.sees.bind fun _ _ => .ite (.pure trivial) (parameters_sourced fuel 0)

/-- A block names what its declarations name. -/
theorem blockRule_sourced (hd : SourcedStmts P stop declarations) :
    SourcedStmts P stop (blockRule declarations) :=
  hd.bind fun _ hbody => Sourced.expect.bind fun _ _ => .pure hbody

/-- What a function names is in its body. -/
theorem functionRest_sourced (fuel : Nat) (hd : SourcedStmts P stop declarations) (rule : Rule)
    (role : FunctionRole) :
    Sourced P stop (functionRest fuel declarations rule role) fun result =>
      Stmt.NamesAll P result.2 := by
  refine (parametersRule_sourced fuel).bind fun names _ => Sourced.expect.bind fun _ _ => ?_
  refine Sourced.expect.bind fun _ _ => (blockRule_sourced hd).bind fun body hbody => ?_
  exact .pure hbody

/-- The function itself is named in no error. -/
theorem functionRule_sourced (fuel : Nat) (hd : SourcedStmts P stop declarations)
    (role : FunctionRole) : SourcedFunction P stop (functionRule fuel declarations role) := by
  refine Sourced.expect.bind fun name _ => Sourced.expect.bind fun _ _ => ?_
  exact (functionRest_sourced fuel hd .functionDecl role).bind fun result hresult => .pure hresult

/-- What a function without a name names is in its body. -/
theorem functionLiteralRule_sourced (fuel : Nat) (hd : SourcedStmts P stop declarations)
    (keyword : Token) : SourcedExpr P stop (functionLiteralRule fuel declarations keyword) := by
  refine Sourced.expect.bind fun _ _ => ?_
  exact (functionRest_sourced fuel hd .functionLiteral .function).bind fun result hresult =>
    .pure hresult

end Functions

/-! ## Classes -/

section Classes

variable {declarations : Parser (List Stmt)} {others members : Parser Members}

/-- What a getter names is in its body. -/
theorem getterRule_sourced (hd : SourcedStmts P stop declarations) :
    SourcedFunction P stop (getterRule declarations) := by
  have hrest (name : Token) : SourcedFunction P stop (do
      let _ ← expect (Token.isMark .leftBrace) .classDecl .getterBodyOpen
      let body ← blockRule declarations
      return (⟨some name, name, [], body⟩ : FunctionDecl)) :=
    Sourced.expect.bind fun _ _ => (blockRule_sourced hd).bind fun body hbody => .pure hbody
  refine Sourced.expect.bind fun name _ => Sourced.takes.bind fun parens _ => ?_
  cases parens with
  | true => exact Sourced.expect.bind fun _ _ => hrest name
  | false => exact hrest name

/-- What a setter names is in its body, for its stored name occurs in no error. -/
theorem setterRule_sourced (fuel : Nat) (hd : SourcedStmts P stop declarations) :
    SourcedFunction P stop (setterRule fuel declarations) := by
  have hrest (name : Token) (names : List Token) : SourcedFunction P stop (do
      let _ ← expect (Token.isMark .rightParen) .classDecl .setterClose
      let _ ← expect (Token.isMark .leftBrace) .classDecl .setterBodyOpen
      let body ← blockRule declarations
      return (⟨some (name.renamed (setterName name.lexeme)), name, names, body⟩ :
        FunctionDecl)) := by
    refine Sourced.expect.bind fun _ _ => Sourced.expect.bind fun _ _ => ?_
    exact (blockRule_sourced hd).bind fun body hbody => .pure hbody
  refine Sourced.expect.bind fun name hname => Sourced.expect.bind fun _ _ => ?_
  refine (parametersRule_sourced fuel).bind fun names _ => ?_
  -- the arity is complained of at the name as it was written
  by_cases harity : names.length ≠ 1
  · simp only [harity, ne_eq, not_false_eq_true, if_true]
    exact (Sourced.report (.inl hname)).bind fun _ _ => hrest name names
  · simp only [harity, if_false]
    exact hrest name names

theorem seesMarker_sourced (marker : String) :
    Sourced P stop (seesMarker marker) fun _ => True :=
  Sourced.sees.bind fun _ _ => Sourced.seesSecond.bind fun _ _ => .pure trivial

/-- A member in front of others, whatever the kind. -/
theorem member_sourced {d : Parser FunctionDecl} (add : FunctionDecl → Members → Members)
    (hd : SourcedFunction P stop d) (ho : SourcedMembers P stop others)
    (hadd : ∀ d rest, d.Names P → rest.Names P → (add d rest).Names P) :
    SourcedMembers P stop (do
      let d ← d
      let rest ← others
      return add d rest) :=
  hd.bind fun d hd => ho.bind fun rest hrest => .pure (hadd d rest hd hrest)

/-- A member, whichever of the four kinds it is, and those after it. -/
theorem memberRule_sourced (fuel : Nat) (hd : SourcedStmts P stop declarations)
    (ho : SourcedMembers P stop others) :
    SourcedMembers P stop (memberRule fuel declarations others) := by
  have hmethod := functionRule_sourced fuel hd .method
  refine Sourced.takes.bind fun classMethod _ => .ite ?_ ?_
  · exact member_sourced (fun d rest => { rest with classMethods := d :: rest.classMethods })
      hmethod ho fun d rest hd h => ⟨h.methods, ⟨hd, h.classMethods⟩, h.getters, h.setters⟩
  refine (seesMarker_sourced "get").bind fun getter _ => .ite ?_ ?_
  · exact Sourced.take?.bind fun _ _ => member_sourced
      (fun d rest => { rest with getters := d :: rest.getters }) (getterRule_sourced hd) ho
      fun d rest hd h => ⟨h.methods, h.classMethods, ⟨hd, h.getters⟩, h.setters⟩
  refine (seesMarker_sourced "set").bind fun setter _ => .ite ?_ ?_
  · exact Sourced.take?.bind fun _ _ => member_sourced
      (fun d rest => { rest with setters := d :: rest.setters }) (setterRule_sourced fuel hd) ho
      fun d rest hd h => ⟨h.methods, h.classMethods, h.getters, ⟨hd, h.setters⟩⟩
  · exact member_sourced (fun d rest => { rest with methods := d :: rest.methods })
      hmethod ho fun d rest hd h => ⟨⟨hd, h.methods⟩, h.classMethods, h.getters, h.setters⟩

/-- The name of a superclass is a token that was read. -/
theorem superclassRule_sourced : Sourced P stop superclassRule (Expr.NamesOption P) := by
  refine Sourced.takes.bind fun less _ => .ite ?_ (.pure trivial)
  exact Sourced.expect.bind fun name hname => Sourced.freshSite.bind fun site _ => .pure hname

/-- A class names what its superclass and its members name. -/
theorem classRule_sourced (hm : SourcedMembers P stop members) :
    SourcedStmt P stop (classRule members) := by
  refine Sourced.expect.bind fun name hname => superclassRule_sourced.bind fun superclass hs => ?_
  refine Sourced.expect.bind fun _ _ => hm.bind fun ms h => Sourced.expect.bind fun _ _ => ?_
  exact .pure ⟨hname, hs, h.methods, h.classMethods, h.getters, h.setters⟩

end Classes

/-! ## Statements -/

section Statements

variable {expression : Parser Expr} {statement : Parser Stmt} {declarations : Parser (List Stmt)}
variable {members : Parser Members}

/-- What a constant names is in its value. -/
theorem constantRule_sourced (he : SourcedExpr P stop expression) :
    SourcedStmt P stop (constantRule expression) := by
  refine Sourced.expect.bind fun name _ => Sourced.expect.bind fun _ _ => ?_
  exact he.bind fun value hvalue => Sourced.expect.bind fun _ _ => .pure hvalue

/-- An expression that may be absent. -/
theorem some_sourced (he : SourcedExpr P stop expression) :
    Sourced P stop (some <$> expression) (Expr.NamesOption P) :=
  he.map fun _ h => h

/-- What a variable names is in its value, if it has one. -/
theorem varRule_sourced (he : SourcedExpr P stop expression) :
    SourcedStmt P stop (varRule expression) := by
  have hrest (name : Token) (value : Option Expr) (hvalue : Expr.NamesOption P value) :
      SourcedStmt P stop (do
        let _ ← expect (Token.isMark .semicolon) .varDecl .varEnd
        return Stmt.var name value) :=
    Sourced.expect.bind fun _ _ => .pure hvalue
  have hnone : Sourced P stop (pure none : Parser (Option Expr)) (Expr.NamesOption P) :=
    .pure trivial
  exact Sourced.expect.bind fun name _ => Sourced.takes.bind fun equals _ =>
    .ite ((some_sourced he).bind (hrest name)) (hnone.bind (hrest name))

/-- An expression as a statement. -/
theorem expressionRule_sourced (he : SourcedExpr P stop expression) :
    SourcedStmt P stop (expressionRule expression) :=
  he.bind fun _ hvalue => Sourced.expect.bind fun _ _ => .pure hvalue

/-- A clause that may be absent. -/
theorem optionalUntil_sourced (mark : Mark) (he : SourcedExpr P stop expression) :
    Sourced P stop (optionalUntil mark expression) (Expr.NamesOption P) :=
  Sourced.sees.bind fun _ _ => .ite (.pure trivial) (some_sourced he)

/-- The start of a `for`, whichever it is. -/
theorem forStart_sourced (he : SourcedExpr P stop expression) :
    Sourced P stop (forStart expression) (Stmt.NamesOption P) := by
  refine Sourced.takes.bind fun nothing _ => .ite (.pure trivial) ?_
  refine Sourced.takes.bind fun isVar _ => .ite ?_ ?_
  · exact (varRule_sourced he).map fun _ h => h
  · exact (expressionRule_sourced he).map fun _ h => h

/-- The loop that a `for` stands for names no tokens but those of its clauses and its body. -/
theorem forLoop_names {start : Option Stmt} {condition increment : Option Expr} {body : Stmt}
    (hs : Stmt.NamesOption P start) (hc : Expr.NamesOption P condition)
    (hi : Expr.NamesOption P increment) (hb : body.Names P) :
    (forLoop start condition increment body).Names P := by
  have hloop : (Stmt.loop (condition.getD (.literal .true)) body increment).Names P := by
    refine ⟨?_, hb, hi⟩
    cases condition with
    | none => trivial
    | some e => exact hc
  cases start with
  | none => exact hloop
  | some first => exact ⟨hs, hloop, trivial⟩

/-- The loop that stands for a `for` names what its clauses name; what is added to it names
nothing. -/
theorem forRule_sourced (he : SourcedExpr P stop expression) (hs : SourcedStmt P stop statement) :
    SourcedStmt P stop (forRule expression statement) := by
  refine Sourced.expect.bind fun _ _ => (forStart_sourced he).bind fun start hstart => ?_
  refine (optionalUntil_sourced .semicolon he).bind fun condition hcondition => ?_
  refine Sourced.expect.bind fun _ _ => ?_
  refine (optionalUntil_sourced .rightParen he).bind fun increment hincrement => ?_
  refine Sourced.expect.bind fun _ _ => hs.bind fun body hbody => ?_
  exact .pure (forLoop_names hstart hcondition hincrement hbody)

/-- An `if` names what its condition and its branches name. -/
theorem ifRule_sourced (he : SourcedExpr P stop expression) (hs : SourcedStmt P stop statement) :
    SourcedStmt P stop (ifRule expression statement) := by
  have hsome : Sourced P stop (some <$> statement) (Stmt.NamesOption P) := hs.map fun _ h => h
  have hnone : Sourced P stop (pure none : Parser (Option Stmt)) (Stmt.NamesOption P) :=
    .pure trivial
  refine Sourced.expect.bind fun _ _ => he.bind fun condition hcondition => ?_
  refine Sourced.expect.bind fun _ _ => hs.bind fun whenTrue htrue => ?_
  refine Sourced.takes.bind fun hasElse _ => .ite ?_ ?_
  · exact hsome.bind fun whenFalse hfalse => .pure ⟨hcondition, htrue, hfalse⟩
  · exact hnone.bind fun whenFalse hfalse => .pure ⟨hcondition, htrue, hfalse⟩

/-- A `while` names what its condition and its body name. -/
theorem whileRule_sourced (he : SourcedExpr P stop expression)
    (hs : SourcedStmt P stop statement) :
    SourcedStmt P stop (whileRule expression statement) := by
  refine Sourced.expect.bind fun _ _ => he.bind fun condition hcondition => ?_
  refine Sourced.expect.bind fun _ _ => hs.bind fun body hbody => ?_
  exact .pure ⟨hcondition, hbody, trivial⟩

/-- An `input` keeps its keyword and the name of its variable. -/
theorem inputRule_sourced {keyword : Token} (hk : P keyword) :
    SourcedStmt P stop (inputRule keyword) :=
  Sourced.expect.bind fun _ hname => Sourced.expect.bind fun _ _ =>
    Sourced.freshSite.bind fun _ _ => .pure ⟨hk, hname⟩

/-- A `print` keeps its keyword, for an error of the output. -/
theorem printRule_sourced (he : SourcedExpr P stop expression) {keyword : Token}
    (hk : P keyword) : SourcedStmt P stop (printRule expression keyword) :=
  he.bind fun _ hvalue => Sourced.expect.bind fun _ _ => .pure ⟨hk, hvalue⟩

/-- A `return` keeps its keyword, for an error of its place. -/
theorem returnRule_sourced (he : SourcedExpr P stop expression) {keyword : Token}
    (hk : P keyword) : SourcedStmt P stop (returnRule expression keyword) :=
  (optionalUntil_sourced .semicolon he).bind fun _ hvalue => Sourced.expect.bind fun _ _ =>
    .pure ⟨hk, hvalue⟩

/-- Every kind of statement names tokens of the text only. -/
theorem statementRule_sourced (he : SourcedExpr P stop expression)
    (hs : SourcedStmt P stop statement) (hd : SourcedStmts P stop declarations) :
    SourcedStmt P stop (statementRule expression statement declarations) := by
  refine Sourced.take?.bind fun t? ht => ?_
  cases t? with
  | none => exact expressionRule_sourced he
  | some t =>
    have ht : P t := ht t rfl
    dsimp only
    split
    next => exact Sourced.expect.bind fun _ _ => .pure ht
    next => exact Sourced.expect.bind fun _ _ => .pure ht
    next => exact forRule_sourced he hs
    next => exact ifRule_sourced he hs
    next => exact inputRule_sourced ht
    next => exact printRule_sourced he ht
    next => exact returnRule_sourced he ht
    next => exact whileRule_sourced he hs
    next => exact .pure trivial
    next => exact (blockRule_sourced hd).map fun _ h => h

/-- Every kind of declaration names tokens of the text only. -/
theorem declarationRule_sourced (fuel : Nat) (he : SourcedExpr P stop expression)
    (hs : SourcedStmt P stop statement) (hd : SourcedStmts P stop declarations)
    (hm : SourcedMembers P stop members) :
    SourcedStmt P stop (declarationRule fuel expression statement declarations members) := by
  have hnamed : SourcedStmt P stop (do
      if ← takes (Token.isKeyword .funKw) then
        .functionDecl <$> functionRule fuel declarations .function
      else if ← takes (Token.isKeyword .valKw) then constantRule expression
      else if ← takes (Token.isKeyword .varKw) then varRule expression
      else statement) := by
    refine Sourced.takes.bind fun isFun _ => .ite ?_ ?_
    · exact (functionRule_sourced fuel hd .function).map fun _ h => h
    refine Sourced.takes.bind fun isVal _ => .ite (constantRule_sourced he) ?_
    exact Sourced.takes.bind fun isVar _ => .ite (varRule_sourced he) hs
  refine Sourced.takes.bind fun isClass _ => .ite (classRule_sourced hm) ?_
  refine Sourced.sees.bind fun isFun _ => ?_
  exact Sourced.seesSecond.bind fun isParen _ => .ite hs hnamed

end Statements

/-! ## The rules tied together -/

/-- With this fuel every rule takes the tokens that it keeps or names from those it reads. -/
structure Sourcing (P : Token → Prop) (stop : Token) (fuel : Nat) : Prop where
  binary (level : Level) : SourcedExpr P stop (binary fuel level)
  binaryRest (level : Level) {left : Expr} : left.Names P →
    SourcedExpr P stop (binaryRest fuel level left)
  operand (level : Level) : SourcedExpr P stop (operand fuel level)
  assignment : SourcedExpr P stop (assignment fuel)
  conditional : SourcedExpr P stop (conditional fuel)
  unary : SourcedExpr P stop (unary fuel)
  call : SourcedExpr P stop (call fuel)
  callRest {callee : Expr} : callee.Names P → SourcedExpr P stop (callRest fuel callee)
  arguments (count : Nat) : Sourced P stop (arguments fuel count) (Expr.NamesAll P)
  primary : SourcedExpr P stop (primary fuel)
  declarations (inBlock : Bool) : SourcedStmts P stop (declarations fuel inBlock)
  declaration : SourcedStmt P stop (declaration fuel)
  statement : SourcedStmt P stop (statement fuel)
  members : SourcedMembers P stop (members fuel)

/-- Without fuel no rule gives anything, and no error is reported. -/
theorem sourcing_zero : Sourcing P stop 0 where
  binary _ := .outOfFuel
  binaryRest _ _ _ := .outOfFuel
  operand _ := .outOfFuel
  assignment := .outOfFuel
  conditional := .outOfFuel
  unary := .outOfFuel
  call := .outOfFuel
  callRest _ := .outOfFuel
  arguments _ := .outOfFuel
  primary := .outOfFuel
  declarations _ := .outOfFuel
  declaration := .outOfFuel
  statement := .outOfFuel
  members := .outOfFuel

namespace Sourcing

variable {fuel : Nat} (sourcing : Sourcing P stop fuel)

include sourcing

/-- Operators to the right of an operand are tokens that were read. -/
theorem binaryRest_step (level : Level) {left : Expr} (h : left.Names P) :
    SourcedExpr P stop (Grammar.binaryRest (fuel + 1) level left) := by
  refine Sourced.take?.bind fun operator? hoperator => ?_
  cases operator? with
  | none => exact .pure h
  | some operator =>
    refine (sourcing.operand level).bind fun right hright => sourcing.binaryRest level ?_
    cases level <;> exact ⟨h, hoperator operator rfl, hright⟩

/-- The operands of a level are the next tighter level, or unary. -/
theorem operand_step (level : Level) :
    SourcedExpr P stop (Grammar.operand (fuel + 1) level) := by
  cases level with
  | comma => exact sourcing.assignment
  | or => exact sourcing.binary .and
  | and => exact sourcing.binary .equality
  | equality => exact sourcing.binary .comparison
  | comparison => exact sourcing.binary .term
  | term => exact sourcing.binary .factor
  | factor => exact sourcing.unary

/-- Calls and properties behind a callee. -/
theorem callRest_step {callee : Expr} (h : callee.Names P) :
    SourcedExpr P stop (Grammar.callRest (fuel + 1) callee) := by
  refine Sourced.takes.bind fun paren _ => .ite ?_ ?_
  · refine (argumentsRule_sourced (sourcing.arguments 0)).bind fun result hresult => ?_
    exact sourcing.callRest ⟨h, hresult.2, hresult.1⟩
  refine Sourced.takes.bind fun dot _ => .ite ?_ (.pure h)
  exact Sourced.expect.bind fun name hname => sourcing.callRest ⟨h, hname⟩

/-- Too many arguments are reported, each at its own place. -/
theorem arguments_step (count : Nat) :
    Sourced P stop (Grammar.arguments (fuel + 1) count) (Expr.NamesAll P) := by
  have hrow : Sourced P stop (do
      let value ← Grammar.assignment fuel
      if ← takes (Token.isMark .comma) then
        return value :: (← Grammar.arguments fuel (count + 1))
      else return [value]) (Expr.NamesAll P) := by
    refine sourcing.assignment.bind fun value hv => Sourced.takes.bind fun comma _ => .ite ?_ ?_
    · exact (sourcing.arguments (count + 1)).bind fun values hvalues => .pure ⟨hv, hvalues⟩
    · exact .pure ⟨hv, trivial⟩
  unfold Grammar.arguments
  by_cases hcount : maxArity ≤ count
  · simp only [hcount, if_true]
    exact Sourced.peek.bind fun t ht => (Sourced.report ht).bind fun _ _ => hrow
  · simp only [hcount, if_false]
    exact hrow

/-- What is read by its first token; where nothing can begin, the error names that token. -/
theorem primary_step : SourcedExpr P stop (Grammar.primary (fuel + 1)) := by
  unfold Grammar.primary
  refine Sourced.take?.bind fun t? ht => ?_
  cases t? with
  | none => exact Sourced.peek.bind fun t ht => .refuse ht
  | some t =>
    have ht : P t := ht t rfl
    dsimp only
    split
    next => exact Sourced.freshSite.bind fun site _ => .pure ht
    next => exact inheritedRule_sourced ht
    next => exact functionLiteralRule_sourced fuel (sourcing.declarations true) t
    next => exact Sourced.freshSite.bind fun site _ => .pure ht
    next => exact groupRule_sourced (sourcing.binary .comma)
    next =>
      split
      next => exact .pure trivial
      next => exact .refuse (.inl ht)

/-- Declarations go on up to the end, errors among them: each names a token that was there. -/
theorem declarations_step (inBlock : Bool) :
    SourcedStmts P stop (Grammar.declarations (fuel + 1) inBlock) := by
  have hmore : SourcedStmts P stop (do
      let first ← recovering (Grammar.declaration fuel)
      let rest ← Grammar.declarations fuel inBlock
      return first.toList ++ rest) := by
    refine sourcing.declaration.recovering.bind fun first hfirst => ?_
    refine (sourcing.declarations inBlock).bind fun rest hrest => .pure ?_
    cases first with
    | none => exact hrest
    | some s => exact ⟨hfirst s rfl, hrest⟩
  unfold Grammar.declarations
  exact Sourced.get.bind fun c _ => Sourced.sees.bind fun closed _ => .ite (.pure trivial) hmore

/-- Members go on up to the closing brace. -/
theorem members_step : SourcedMembers P stop (Grammar.members (fuel + 1)) := by
  unfold Grammar.members
  refine Sourced.get.bind fun c _ => Sourced.sees.bind fun closed _ => .ite ?_ ?_
  · exact .pure ⟨trivial, trivial, trivial, trivial⟩
  · exact memberRule_sourced fuel (sourcing.declarations true) sourcing.members

/-- All rules are sourced with one more unit of fuel. -/
theorem step : Sourcing P stop (fuel + 1) where
  binary level := (sourcing.operand level).bind fun _ h => sourcing.binaryRest level h
  binaryRest level _ h := sourcing.binaryRest_step level h
  operand := sourcing.operand_step
  assignment := assignmentRule_sourced sourcing.conditional sourcing.assignment
  conditional :=
    conditionalRule_sourced (sourcing.binary .or) (sourcing.binary .comma) sourcing.conditional
  unary := unaryRule_sourced sourcing.unary sourcing.call
  call := sourcing.primary.bind fun _ h => sourcing.callRest h
  callRest h := sourcing.callRest_step h
  arguments := sourcing.arguments_step
  primary := sourcing.primary_step
  declarations := sourcing.declarations_step
  declaration := declarationRule_sourced fuel (sourcing.binary .comma) sourcing.statement
    (sourcing.declarations true) sourcing.members
  statement := statementRule_sourced (sourcing.binary .comma) sourcing.statement
    (sourcing.declarations true)
  members := sourcing.members_step

end Sourcing

theorem sourcing (fuel : Nat) : Sourcing P stop fuel := by
  induction fuel with
  | zero => exact sourcing_zero
  | succ fuel ih => exact ih.step

/-- An expression that a whole text is names tokens of the text. -/
theorem wholeExpression_sourced (fuel : Nat) :
    Sourced P stop (wholeExpression fuel) (Expr.NamesOption P) := by
  refine ((sourcing fuel).binary .comma).bind fun value h => Sourced.get.bind fun c _ => ?_
  refine .ite (.pure h) ?_
  exact Sourced.peek.bind fun t ht => (Sourced.report ht).bind fun _ _ => .pure trivial

end Grammar

/-! ## Whole parses -/

/-- What stands at the end of a row of tokens. -/
def Token.endAmong (tokens : List Token) : Token :=
  (tokens.find? Token.isEnd).getD Token.missingEnd

/-- A parse of a row of tokens keeps and names only tokens of the row that are no ends, and what
stands at its end. -/
theorem Parser.run_sourced {α : Type} {rule : Nat → Parser α} {P : Token → Prop} {R : α → Prop}
    {tokens : List Token}
    (hrule : ∀ fuel, Parser.Sourced P (Token.endAmong tokens) (rule fuel) R)
    (htokens : ∀ t ∈ tokens, t.isEnd = false → P t) (nextSite : Site) :
    (∀ e ∈ (Parser.run rule tokens nextSite).errors,
        P e.token ∨ e.token = Token.endAmong tokens) ∧
      ∀ a, (Parser.run rule tokens nextSite).tree = some a → R a := by
  have hstart : (Cursor.start tokens nextSite).Sourced P (Token.endAmong tokens) :=
    ⟨fun t hmem => htokens t ((List.takeWhile_prefix _).mem hmem) (by
      simpa using List.all_eq_true.mp List.all_takeWhile t hmem), rfl, fun _ hmem => nomatch hmem⟩
  have hrun := hrule (Grammar.fuelFor (Cursor.start tokens nextSite).unread.length) _ hstart
  unfold Parser.run
  dsimp only
  split
  next a c heq =>
    rw [heq] at hrun
    refine ⟨hrun.1.errors, fun b hb => ?_⟩
    cases hb
    exact hrun.2
  next e c heq =>
    rw [heq] at hrun
    exact ⟨(hrun.1.report hrun.2).errors, fun _ h => nomatch h⟩
  next c heq =>
    rw [heq] at hrun
    exact ⟨hrun.1.errors, fun _ h => nomatch h⟩

/-- Errors about a program that is parsed name tokens of its row; syntax errors may also name what
stands at the end of it. -/
theorem Program.parse_sourced {P : Token → Prop} {tokens : List Token}
    (htokens : ∀ t ∈ tokens, t.isEnd = false → P t) (nextSite : Site) :
    (∀ e ∈ (Program.parse tokens nextSite).errors,
        P e.token ∨ e.token = Token.endAmong tokens) ∧
      Stmt.NamesAll P (Program.parse tokens nextSite).tree := by
  obtain ⟨herrors, htree⟩ := Parser.run_sourced
    (fun fuel => (Grammar.sourcing fuel).declarations false) htokens nextSite
  refine ⟨herrors, ?_⟩
  unfold Program.parse
  dsimp only
  cases hrun : (Parser.run (fun fuel => Grammar.declarations fuel false) tokens nextSite).tree with
  | none => trivial
  | some ss => exact htree ss hrun

/-- Errors and tree of a parsed expression have their tokens from the text, or an error stands at
its end. -/
theorem Expr.parse_sourced {P : Token → Prop} {tokens : List Token}
    (htokens : ∀ t ∈ tokens, t.isEnd = false → P t) (nextSite : Site) :
    (∀ e ∈ (Expr.parse tokens nextSite).errors, P e.token ∨ e.token = Token.endAmong tokens) ∧
      Expr.NamesOption P (Expr.parse tokens nextSite).tree := by
  obtain ⟨herrors, htree⟩ := Parser.run_sourced Grammar.wholeExpression_sourced htokens nextSite
  refine ⟨herrors, ?_⟩
  unfold Expr.parse
  dsimp only
  cases hrun : (Parser.run Grammar.wholeExpression tokens nextSite).tree with
  | none => trivial
  | some e => exact htree e hrun

end Lox
