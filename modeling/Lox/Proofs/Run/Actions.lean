import Lox.Proofs.Run.Rules

/-!
# The steps that programs take

`Action` lists the steps of layers, each with its mark, and with the task that takes it where it
matters which one does. No layer of any task takes another step (`Task.layer_acts`). So a property
of steps is proved by going through the actions, and not through statements and expressions.

Most actions do not even differ in what they do to the machine: they leave the store alone
(`Quiet`), or they succeed and change nothing but the store (`Storing`).
-/

namespace Lox.Eval

open Exec

/-! ## Actions -/

/-- An action of the innermost of the tasks that leaves the store alone, and its mark. -/
inductive QuietAction : List Task → {α : Type} → Exec α → Mark → Prop where
  | fail {tasks : List Task} {α : Type} (token : Token) (cause : RuntimeCause) :
      QuietAction tasks (fail token cause : Exec α) .nothing
  | ofExcept {tasks : List Task} {α : Type} (token : Token) (result : Except RuntimeCause α) :
      QuietAction tasks (ofExcept token result) .nothing
  | field {tasks : List Task} (o : Object) (name : String) :
      QuietAction tasks (return (← get).store.field? o name) .nothing
  | native {tasks : List Task} (n : Native) (paren : Token) (arguments : List Value) :
      QuietAction tasks (callNative n paren arguments) .nothing
  | superclass {tasks : List Task} (d : ClassDecl) (clause : Expr) (value : Value) :
      QuietAction tasks (superclassOf d clause value) .nothing
  | typedLine {tasks : List Task} (keyword : Token) :
      QuietAction tasks (takeLine >>= typedValue keyword) .nothing
  | callResult {tasks : List Task} (f : Function) (flow : Flow) :
      QuietAction tasks (callResult f flow) .nothing
  | print {outer : List Task} (keyword : Token) (e : Expr) (value : Value) :
      QuietAction (.statement (.print keyword e) :: outer) (print keyword value) .nothing
  | «variable» {outer : List Task} (site : Site) (name : Token) :
      QuietAction (.expression (.variable site name) :: outer) (lookUp site name)
        (.refers (.variable site name))
  | receiver {outer : List Task} (site : Site) (keyword : Token) :
      QuietAction (.expression (.receiver site keyword) :: outer) (lookUp site keyword)
        (.refers (.receiver site keyword))
  | inherited {outer : List Task} (site : Site) (keyword method : Token) :
      QuietAction (.expression (.inherited site keyword method) :: outer)
        (inheritedSource site keyword method) (.refers (.inherited site keyword method))

/-- An action of the innermost of the tasks that only puts something into the store, and its
mark. -/
inductive StoringAction : List Task → {α : Type} → Exec α → Mark → Prop where
  | newObject {tasks : List Task} (c : Class) :
      StoringAction tasks (fromStore fun s => s.newObject c) .nothing
  | setField {tasks : List Task} (o : Object) (name : String) (value : Value) :
      StoringAction tasks (modifyStore fun s => s.setField o name value) .nothing
  | block {tasks : List Task} (body : List Stmt) :
      StoringAction tasks innerFrame (.frame (.block body))
  | call {outer : List Task} (f : Function) (arguments : List Value) :
      StoringAction (.invoke f arguments :: outer) (callFrame f arguments)
        (.frame (.call f.declaration))
  | function {tasks : List Task} (d : FunctionDecl) :
      StoringAction tasks (makeFunction d) .function
  | functionDecl {tasks : List Task} (d : FunctionDecl) :
      StoringAction tasks (declareFunction d) (.declares (.functionDecl d))
  | constant {tasks : List Task} (name : Token) (initial : Expr) (value : Value) :
      StoringAction tasks (define name.lexeme value false) (.declares (.constant name initial))
  | var {tasks : List Task} (name : Token) (initial : Option Expr) (value : Value) :
      StoringAction tasks (define name.lexeme value true) (.declares (.var name initial))
  | members {tasks : List Task} (d : ClassDecl) (superclass : Option Class) :
      StoringAction tasks (declareClass d superclass) (.members d)
  | method {tasks : List Task} (f : Function) (receiver : Value) :
      StoringAction tasks (Eval.bind f receiver) (.method f)

/-- An action of the innermost of the tasks, and its mark. Assignments are on their own, as they
change the store but may fail. -/
inductive Action : List Task → {α : Type} → Exec α → Mark → Prop where
  | quiet {tasks : List Task} {α : Type} {x : Exec α} {mark : Mark}
      (h : QuietAction tasks x mark) : Action tasks x mark
  | storing {tasks : List Task} {α : Type} {x : Exec α} {mark : Mark}
      (h : StoringAction tasks x mark) : Action tasks x mark
  | assign {outer : List Task} (site : Site) (name : Token) (e : Expr) (value : Value) :
      Action (.expression (.assign site name e) :: outer) (assign site name value)
        (.refers (.assign site name e))
  | input {outer : List Task} (keyword : Token) (target : Expr) (value : Value) :
      Action (.statement (.input keyword target) :: outer) (assignInput keyword target value)
        (.refers target)

/-- What is listed as quiet is so. -/
theorem QuietAction.quiet {tasks : List Task} {α : Type} {x : Exec α} {mark : Mark}
    (h : QuietAction tasks x mark) : Quiet x := by
  cases h with
  | fail token cause => exact .fail token cause
  | ofExcept token result => exact .ofExcept token result
  | field o name => exact .bind .get fun _ => .pure _
  | native n paren arguments => exact .callNative n paren arguments
  | superclass d clause value => exact .superclassOf d clause value
  | typedLine keyword => exact .typedLine keyword
  | callResult f flow => exact .callResult f flow
  | print keyword e value => exact .print keyword value
  | «variable» site name => exact .lookUp site name
  | receiver site keyword => exact .lookUp site keyword
  | inherited site keyword method => exact .inheritedSource site keyword method

/-! ## What only stores -/

/-- The computation succeeds and changes nothing but the store. What it gives and what it stores
depends on the store and the current frame alone. -/
def Storing {α : Type} (x : Exec α) : Prop :=
  ∀ m : Machine, ∃ a s, ∀ m' : Machine, m'.store = m.store → m'.current = m.current →
    x m' = .ok a { m' with store := s }

namespace Storing

variable {α β : Type} {x : Exec α} {f : α → Exec β}

/-- Giving back a value stores nothing. -/
theorem pure (a : α) : Storing (pure a : Exec α) :=
  fun m => ⟨a, m.store, fun _ hstore _ => hstore ▸ rfl⟩

/-- What stores in two steps stores. -/
theorem bind (hx : Storing x) (hf : ∀ a, Storing (f a)) : Storing (x >>= f) := by
  intro m
  obtain ⟨a, s₁, hx⟩ := hx m
  obtain ⟨b, s, hf⟩ := hf a { m with store := s₁ }
  refine ⟨b, s, fun m' hstore hcurrent => ?_⟩
  show EStateM.bind x f m' = _
  unfold EStateM.bind
  rw [hx m' hstore hcurrent]
  exact hf { m' with store := s₁ } rfl hcurrent

/-- Of the machine, only the current frame is read. -/
theorem get_bind {f : Machine → Exec α} (hsame : ∀ m m', m.current = m'.current → f m = f m')
    (hf : ∀ m, Storing (f m)) : Storing (get >>= f) := by
  intro m
  obtain ⟨a, s, h⟩ := hf m m
  refine ⟨a, s, fun m' hstore hcurrent => ?_⟩
  show f m' m' = _
  rw [hsame m' m hcurrent]
  exact h m' hstore hcurrent

/-- A function of the store alone. -/
theorem fromStore (f : Store → α × Store) : Storing (fromStore f) :=
  fun m => ⟨(f m.store).1, (f m.store).2, fun _ hstore _ => hstore ▸ rfl⟩

/-- A change of the store alone. -/
theorem modifyStore (f : Store → Store) : Storing (modifyStore f) :=
  fun m => ⟨(), f m.store, fun _ hstore _ => hstore ▸ rfl⟩

/-- Binding a name in the current frame. -/
theorem define (name : String) (value : Value) (mutable : Bool) :
    Storing (define name value mutable) :=
  fun m => ⟨(), m.store.define m.current name value mutable,
    fun _ hstore hcurrent => hstore ▸ hcurrent ▸ rfl⟩

/-- A new frame inside the current one. -/
theorem innerFrame : Storing innerFrame :=
  fun m => ⟨(m.store.newFrame (some m.current)).1, (m.store.newFrame (some m.current)).2,
    fun _ hstore hcurrent => hstore ▸ hcurrent ▸ rfl⟩

/-- Making the members of a class, one by one. -/
theorem addMembers (closure : FrameId) (kind : MemberKind) (isInitializer : FunctionDecl → Bool)
    (ds : List FunctionDecl) (table : Methods) :
    Storing (addMembers closure kind isInitializer ds table) := by
  unfold Eval.addMembers
  induction ds generalizing table with
  | nil => exact .pure table
  | cons d ds ih =>
    rw [List.foldlM_cons]
    exact .bind (.bind (.fromStore _) fun _ => .pure _) ih

/-- The frame around members, with the superclass if there is one. -/
theorem memberFrame (superclass : Option Class) : Storing (memberFrame superclass) := by
  cases superclass with
  | none => exact .get_bind (fun _ _ h => h ▸ rfl) fun _ => .pure _
  | some c => exact .bind .innerFrame fun _ => .bind (.modifyStore _) fun _ => .pure _

/-- Making a class and binding its name. -/
theorem declareClass (d : ClassDecl) (superclass : Option Class) :
    Storing (declareClass d superclass) := by
  refine .bind (.define _ _ _) fun _ => .bind (.memberFrame superclass) fun closure => ?_
  refine .bind (.addMembers _ _ _ _ _) fun methods => ?_
  refine .bind (.addMembers _ _ _ _ _) fun methods => ?_
  refine .bind (.addMembers _ _ _ _ _) fun methods => ?_
  refine .bind (.addMembers _ _ _ _ _) fun classMethods => ?_
  exact .bind (.fromStore _) fun c => .define _ _ _

end Storing

/-- What is listed as storing only stores. -/
theorem StoringAction.stores {tasks : List Task} {α : Type} {x : Exec α} {mark : Mark}
    (h : StoringAction tasks x mark) : Storing x := by
  cases h with
  | newObject c => exact .fromStore _
  | setField o name value => exact .modifyStore _
  | block body => exact .innerFrame
  | call f arguments =>
    exact .bind (.fromStore _) fun _ => .bind (.modifyStore _) fun _ => .pure _
  | function d => exact .get_bind (fun _ _ h => h ▸ rfl) fun _ => .fromStore _
  | functionDecl d =>
    exact .get_bind (fun _ _ h => h ▸ rfl) fun _ => .bind (.fromStore _) fun _ => .define _ _ _
  | constant name initial value => exact .define name.lexeme value false
  | var name initial value => exact .define name.lexeme value true
  | members d superclass => exact .declareClass d superclass
  | method f receiver => exact .fromStore _

/-! ## Layers -/

/-- Every step of the layer is an action of the innermost of the tasks. -/
def Layer.Acts (tasks : List Task) {α : Type} : Layer α → Prop
  | .done _ => True
  | .step x mark next => Action tasks x mark ∧ ∀ b, (next b).Acts tasks
  | .start _ next | .enter _ _ _ next => ∀ a, (next a).Acts tasks

namespace Layer

variable {tasks outer : List Task} {α : Type}

/-- A layer may go one of two ways. -/
theorem acts_ite {b : Bool} {l l' : Layer α} (h : l.Acts tasks) (h' : l'.Acts tasks) :
    (if b = true then l else l').Acts tasks := by
  cases b with
  | true => exact h
  | false => exact h'

/-- To fail is an action of every task. -/
theorem fail_acts (token : Token) (cause : RuntimeCause) :
    (Layer.step (fail token cause) .nothing (.done : α → Layer α)).Acts tasks :=
  ⟨.quiet (.fail token cause), fun _ => trivial⟩

/-- Taking a method from an object binds it to the object. -/
theorem method_acts (f : Function) (receiver : Value) : (Layer.method f receiver).Acts tasks :=
  ⟨.storing (.method f receiver), fun _ => trivial⟩

/-- A property of a class is one of its members, or there is none. -/
theorem classProperty_acts (c : Class) (name : Token) :
    (Layer.classProperty c name).Acts tasks := by
  refine acts_ite trivial ?_
  split
  next => exact method_acts _ _
  next => exact fail_acts _ _

/-- A property is set by a setter or as a field. -/
theorem setProperty_acts (o : Object) (name : Token) (value : Value) :
    (Layer.setProperty o name value).Acts tasks := by
  unfold Layer.setProperty
  split
  next => exact ⟨.storing (.method _ _), fun _ _ => trivial⟩
  next => exact ⟨.storing (.setField _ _ _), fun _ => trivial⟩

/-- A property of an object is a field, a method or a getter, or there is none. -/
theorem objectProperty_acts (o : Object) (name : Token) :
    (Layer.objectProperty o name).Acts tasks := by
  refine ⟨.quiet (.field _ _), fun field => ?_⟩
  cases field with
  | some value => trivial
  | none =>
    dsimp only
    split
    next => exact ⟨.storing (.method _ _), fun _ _ => trivial⟩
    next =>
      split
      next => exact method_acts _ _
      next => exact fail_acts _ _

/-- A call checks its arguments and then runs a body, makes an object or calls a native function. -/
theorem call_acts (callee : Value) (paren : Token) (arguments : List Value) :
    (Layer.call callee paren arguments).Acts tasks := by
  cases callee with
  | native n serial => exact ⟨.quiet (.native n paren arguments), fun _ => trivial⟩
  | function f => exact fun _ => trivial
  | cls c =>
    refine ⟨.storing (.newObject c), fun o => ?_⟩
    split
    next => trivial
    next => exact ⟨.storing (.method _ _), fun _ _ => trivial⟩
  | _ => exact fail_acts _ _

/-- The steps of every expression are actions for it. -/
theorem expression_acts (e : Expr) : (Layer.expression e).Acts (.expression e :: outer) := by
  cases e with
  | literal value => trivial
  | «variable» site name => exact ⟨.quiet (.variable site name), fun _ => trivial⟩
  | assign site name value => exact fun v => ⟨.assign site name value v, fun _ => trivial⟩
  | receiver site keyword => exact ⟨.quiet (.receiver site keyword), fun _ => trivial⟩
  | inherited site keyword method =>
    exact ⟨.quiet (.inherited site keyword method),
      fun source => ⟨.storing (.method source.1 source.2), fun _ _ => trivial⟩⟩
  | group inner => exact fun _ => trivial
  | unary operator operand => exact fun _ => ⟨.quiet (.ofExcept operator _), fun _ => trivial⟩
  | binary left operator right =>
    exact fun _ _ => ⟨.quiet (.ofExcept operator _), fun _ => trivial⟩
  | logical left operator right => exact fun _ => acts_ite trivial fun _ => trivial
  | conditional condition whenTrue whenFalse =>
    exact fun _ => acts_ite (fun _ => trivial) fun _ => trivial
  | call callee paren arguments =>
    intro callee values
    dsimp only
    split
    next => exact fail_acts _ _
    next =>
      split
      next => exact fail_acts _ _
      next => exact fun _ => trivial
  | get object name =>
    intro object
    cases object with
    | object o => exact fun _ => trivial
    | cls c => exact classProperty_acts c name
    | _ => exact fail_acts _ _
  | set object name value =>
    intro object
    cases object with
    | object o => exact fun value => setProperty_acts o name value
    | _ => exact fail_acts _ _
  | function d => exact ⟨.storing (.function d), fun _ => trivial⟩

/-- The steps of every statement are actions for it. -/
theorem statement_acts (s : Stmt) : (Layer.statement s).Acts (.statement s :: outer) := by
  cases s with
  | block body => exact ⟨.storing (.block body), fun _ _ => trivial⟩
  | breakLoop keyword => trivial
  | continueLoop keyword => trivial
  | classDecl d => exact fun superclass => ⟨.storing (.members d superclass), fun _ => trivial⟩
  | empty => trivial
  | expression value => exact fun _ => trivial
  | functionDecl d => exact ⟨.storing (.functionDecl d), fun _ => trivial⟩
  | conditional condition whenTrue whenFalse =>
    refine fun value => acts_ite (fun _ => trivial) ?_
    cases whenFalse with
    | none => trivial
    | some s => exact fun _ => trivial
  | input keyword target =>
    exact ⟨.quiet (.typedLine keyword),
      fun value => ⟨.input keyword target value, fun _ => trivial⟩⟩
  | print keyword value => exact fun v => ⟨.quiet (.print keyword value v), fun _ => trivial⟩
  | returnValue keyword value => exact fun _ => trivial
  | constant name initial => exact fun v => ⟨.storing (.constant name initial v), fun _ => trivial⟩
  | var name initial => exact fun v => ⟨.storing (.var name initial v), fun _ => trivial⟩
  | loop condition body increment => exact fun _ => trivial

/-- The rounds of a loop only start tasks. -/
theorem rounds_acts (condition : Expr) (body : Stmt) (increment : Option Expr) :
    (Layer.rounds condition body increment).Acts tasks := by
  refine fun value => acts_ite (fun flow => ?_) trivial
  cases flow with
  | breakLoop => trivial
  | returned v => trivial
  | normal => exact fun _ _ => trivial
  | continueLoop => exact fun _ _ => trivial

end Layer

/-- The steps of every task are actions. -/
theorem Task.layer_acts (t : Task) (outer : List Task) : t.layer.Acts (t :: outer) := by
  cases t with
  | statement s => exact Layer.statement_acts s
  | statements ss =>
    cases ss with
    | nil => trivial
    | cons s ss =>
      intro flow
      cases flow with
      | normal => exact fun _ => trivial
      | _ => trivial
  | rounds condition body increment => exact Layer.rounds_acts condition body increment
  | clause d =>
    unfold Task.layer
    dsimp only
    split
    next => trivial
    next => exact fun _ => ⟨.quiet (.superclass _ _ _), fun _ => trivial⟩
  | expression e => exact Layer.expression_acts e
  | optional e =>
    cases e with
    | none => trivial
    | some e => exact fun _ => trivial
  | expressions es =>
    cases es with
    | nil => trivial
    | cons e es => exact fun _ _ => trivial
  | property f =>
    unfold Task.layer
    dsimp only
    split
    next => exact fun _ => trivial
    next => trivial
  | objectProperty o name => exact Layer.objectProperty_acts o name
  | call callee paren arguments => exact Layer.call_acts callee paren arguments
  | invoke f arguments =>
    -- making the frame of the call changes the store, reading the result does not
    exact ⟨.storing (.call f arguments), fun _ flow =>
      ⟨.quiet (.callResult f flow), fun _ => trivial⟩⟩

end Lox.Eval
