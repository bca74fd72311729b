import Lox.Eval
import Lox.Proofs.Scope.Visits

/-!
# One layer of evaluation at a time

The functions that evaluate programs call each other, each call with one unit of fuel less. A
`Task` is one such call, and `Task.layer` says what it does up to the calls it makes itself: which
steps it takes on the machine, which tasks it starts, and in which frame. `run_succ` proves that
evaluation is nothing but its layers, so what holds of every layer holds of every run.

A step carries a mark that says what it makes, or which reference it uses. Marks change nothing
about a run.
-/

namespace Lox.Eval

open Exec

/-! ## Tasks and layers -/

/-- One call among the functions that evaluate programs. -/
inductive Task where
  | statement (s : Stmt)
  | statements (ss : List Stmt)
  | rounds (condition : Expr) (body : Stmt) (increment : Option Expr)
  | clause (d : ClassDecl)
  | expression (e : Expr)
  | optional (e : Option Expr)
  | expressions (es : List Expr)
  | property (f : Function)
  | objectProperty (o : Object) (name : Token)
  | call (callee : Value) (paren : Token) (arguments : List Value)
  | invoke (f : Function) (arguments : List Value)

/-- What a task gives. -/
abbrev Task.Result : Task → Type
  | .statement _ | .statements _ | .rounds _ _ _ => Flow
  | .clause _ => Option Class
  | .expressions _ => List Value
  | .expression _ | .optional _ | .property _ | .objectProperty _ _ | .call _ _ _
  | .invoke _ _ => Value

/-- The task run with so much fuel. -/
def Task.run (fuel : Nat) : (t : Task) → Exec t.Result
  | .statement s => execute fuel s
  | .statements ss => executeAll fuel ss
  | .rounds condition body increment => repeatLoop fuel condition body increment
  | .clause d => superclassClause fuel d
  | .expression e => evaluate fuel e
  | .optional e => evaluateOption fuel e
  | .expressions es => evaluateAll fuel es
  | .property f => asProperty fuel f
  | .objectProperty o name => Eval.objectProperty fuel o name
  | .call callee paren arguments => Eval.call fuel callee paren arguments
  | .invoke f arguments => Eval.invoke fuel f arguments

/-- What a step is about. -/
inductive Mark where
  | nothing
  /-- It looks up or assigns to the variable that an expression refers to. -/
  | refers (e : Expr)
  /-- It makes a frame. -/
  | frame (region : Region)
  /-- It makes a function in the current frame. -/
  | function
  /-- It binds the name that a declaration declares in the current frame. If that is a function,
  it makes it there. -/
  | declares (s : Stmt)
  /-- It makes a class and its members, and a frame around these if the class has a superclass, and
  binds the name of the class in the current frame. -/
  | members (d : ClassDecl)
  /-- It makes a method of `f`, and a frame around it that holds the receiver. -/
  | method (f : Function)

/-- What is left to do of a task, up to the tasks it starts. -/
inductive Layer (α : Type) : Type 1 where
  | done (result : α)
  | step {β : Type} (x : Exec β) (mark : Mark) (next : β → Layer α)
  | start (t : Task) (next : t.Result → Layer α)
  /-- Starts a task inside a frame, which lies inside the surroundings of `around`, or in the
  current ones if it is absent. -/
  | enter (frame : FrameId) (around : Option Function) (t : Task) (next : t.Result → Layer α)

/-- A layer run, given how tasks are run. -/
def Layer.run {α : Type} (sub : (t : Task) → Exec t.Result) : Layer α → Exec α
  | .done a => pure a
  | .step x _ next => x >>= fun b => (next b).run sub
  | .start t next => sub t >>= fun r => (next r).run sub
  | .enter frame _ t next => within frame (sub t) >>= fun r => (next r).run sub

/-! ## What each task does -/

/-- Makes a function and binds its name. -/
def declareFunction (d : FunctionDecl) : Exec Unit := do
  let m ← get
  let f ← fromStore fun s => s.newFunction d m.current false .method
  define (f.name?.getD "") (.function f) false

/-- Makes a function without binding a name. -/
def makeFunction (d : FunctionDecl) : Exec Function := do
  let m ← get
  fromStore fun s => s.newFunction d m.current false .method

/-- Gives the variable that an `input` statement names its value. -/
def assignInput (keyword : Token) (target : Expr) (value : Value) : Exec Unit :=
  match target with
  | .variable site name => assign site name value
  | _ => fail keyword .inputTargetInvalid

/-- The member that `super` and a name stand for, not yet a method, and the receiver. -/
def inheritedSource (site : Site) (keyword method : Token) : Exec (Function × Value) := do
  let m ← get
  match m.table[site]? with
  | none => fail keyword .superNotHere
  | some distance =>
    match m.store.getAt? m.current distance "super" with
    | some (.cls c) =>
      let receiver := (m.store.getAt? m.current (distance - 1) "this").getD .nil
      match (c.findMethod method.lexeme).or (c.findClassMethod method.lexeme) with
      | some f => return (f, receiver)
      | none => fail method .undefinedProperty
    | _ => fail keyword .superclassNotClass

/-- Makes a frame for a call and binds the parameters in it. -/
def callFrame (f : Function) (arguments : List Value) : Exec FrameId := do
  let frame ← fromStore fun s => s.newFrame (some f.closure)
  bindParameters frame f arguments
  return frame

/-- The layer of a member taken as a method. -/
def Layer.method (f : Function) (receiver : Value) : Layer Value :=
  .step (Eval.bind f receiver) (.method f) fun f => .done (.function f)

/-- The layer of a class's property. -/
def Layer.classProperty (c : Class) (name : Token) : Layer Value :=
  if c.metaclass?.isSome && c.name = name.lexeme then .done (.cls c)
  else
    match c.findClassMethod name.lexeme with
    | some f => .method f (.cls c)
    | none => .step (fail name .undefinedProperty) .nothing .done

/-- The layer of an assignment to a property of an instance. -/
def Layer.setProperty (o : Object) (name : Token) (value : Value) : Layer Value :=
  match o.cls.findMethod (setterName name.lexeme) with
  | some f =>
    .step (Eval.bind f (.object o)) (.method f) fun f =>
      .start (.invoke f [value]) fun _ => .done value
  | none =>
    .step (modifyStore fun s => s.setField o name.lexeme value) .nothing fun _ => .done value

/-- The layer of a statement. -/
def Layer.statement : Stmt → Layer Flow
  | .block body =>
    .step innerFrame (.frame (.block body)) fun frame =>
      .enter frame none (.statements body) .done
  | .breakLoop _ => .done .breakLoop
  | .continueLoop _ => .done .continueLoop
  | .classDecl d =>
    .start (.clause d) fun superclass =>
      .step (declareClass d superclass) (.members d) fun _ => .done .normal
  | .empty => .done .normal
  | .expression value => .start (.expression value) fun _ => .done .normal
  | .functionDecl d =>
    .step (declareFunction d) (.declares (.functionDecl d)) fun _ => .done .normal
  | .conditional condition whenTrue whenFalse =>
    .start (.expression condition) fun value =>
      if value.isTruthy then .start (.statement whenTrue) .done
      else
        match whenFalse with
        | some s => .start (.statement s) .done
        | none => .done .normal
  | .input keyword target =>
    .step (takeLine >>= typedValue keyword) .nothing fun value =>
      .step (assignInput keyword target value) (.refers target) fun _ => .done .normal
  | .print keyword value =>
    .start (.expression value) fun value =>
      .step (print keyword value) .nothing fun _ => .done .normal
  | .returnValue _ value => .start (.optional value) fun value => .done (.returned value)
  | .constant name initial =>
    .start (.expression initial) fun value =>
      .step (define name.lexeme value false) (.declares (.constant name initial)) fun _ =>
        .done .normal
  | .var name initial =>
    .start (.optional initial) fun value =>
      .step (define name.lexeme value true) (.declares (.var name initial)) fun _ =>
        .done .normal
  | .loop condition body increment => .start (.rounds condition body increment) .done

/-- The layer of the rounds of a loop. -/
def Layer.rounds (condition : Expr) (body : Stmt) (increment : Option Expr) : Layer Flow :=
  .start (.expression condition) fun value =>
    if value.isTruthy then
      .start (.statement body) fun
        | .breakLoop => .done .normal
        | .returned value => .done (.returned value)
        | _ =>
          .start (.optional increment) fun _ => .start (.rounds condition body increment) .done
    else .done .normal

/-- The layer of an expression. -/
def Layer.expression : Expr → Layer Value
  | .literal value => .done (.ofLiteral value)
  | .variable site name => .step (lookUp site name) (.refers (.variable site name)) .done
  | .assign site name value =>
    .start (.expression value) fun v =>
      .step (assign site name v) (.refers (.assign site name value)) fun _ => .done v
  | .receiver site keyword => .step (lookUp site keyword) (.refers (.receiver site keyword)) .done
  | .inherited site keyword method =>
    .step (inheritedSource site keyword method) (.refers (.inherited site keyword method))
      fun source =>
        .step (Eval.bind source.1 source.2) (.method source.1) fun f => .start (.property f) .done
  | .group inner => .start (.expression inner) .done
  | .unary operator operand =>
    .start (.expression operand) fun value =>
      .step (ofExcept operator (Value.unary operator.kind value)) .nothing .done
  | .binary left operator right =>
    .start (.expression left) fun a =>
      .start (.expression right) fun b =>
        .step (ofExcept operator (Value.binary operator.kind a b)) .nothing .done
  | .logical left operator right =>
    .start (.expression left) fun a =>
      if Value.decides operator.kind a then .done a else .start (.expression right) .done
  | .conditional condition whenTrue whenFalse =>
    .start (.expression condition) fun value =>
      if value.isTruthy then .start (.expression whenTrue) .done
      else .start (.expression whenFalse) .done
  | .call callee paren arguments =>
    .start (.expression callee) fun callee =>
      .start (.expressions arguments) fun values =>
        match callee.arity? with
        | none => .step (fail paren .notCallable) .nothing .done
        | some arity =>
          if values.length ≠ arity then
            .step (fail paren (.wrongArity arity values.length)) .nothing .done
          else .start (.call callee paren values) .done
  | .get object name =>
    .start (.expression object) fun
      | .object o => .start (.objectProperty o name) .done
      | .cls c => .classProperty c name
      | _ => .step (fail name .noProperties) .nothing .done
  | .set object name value =>
    .start (.expression object) fun
      | .object o => .start (.expression value) fun value => .setProperty o name value
      | _ => .step (fail name .noFields) .nothing .done
  | .function d => .step (makeFunction d) .function fun f => .done (.function f)

/-- The layer of a property of an instance. -/
def Layer.objectProperty (o : Object) (name : Token) : Layer Value :=
  .step (return (← get).store.field? o name.lexeme) .nothing fun
    | some value => .done value
    | none =>
      match o.cls.findMethod name.lexeme with
      | some f =>
        .step (Eval.bind f (.object o)) (.method f) fun f => .start (.property f) .done
      | none =>
        match o.cls.findClassMethod name.lexeme with
        | some f => .method f (.cls o.cls)
        | none => .step (fail name .undefinedProperty) .nothing .done

/-- The layer of a call. -/
def Layer.call (callee : Value) (paren : Token) (arguments : List Value) : Layer Value :=
  match callee with
  | .native n _ => .step (callNative n paren arguments) .nothing .done
  | .function f => .start (.invoke f arguments) .done
  | .cls c =>
    .step (fromStore fun s => s.newObject c) .nothing fun o =>
      match c.initializer? with
      | none => .done (.object o)
      | some f =>
        .step (Eval.bind f (.object o)) (.method f) fun f =>
          .start (.invoke f arguments) fun _ => .done (.object o)
  | _ => .step (fail paren .notCallable) .nothing .done

/-- What a task does up to the tasks it starts. -/
def Task.layer : (t : Task) → Layer t.Result
  | .statement s => .statement s
  | .statements [] => .done .normal
  | .statements (s :: ss) =>
    .start (.statement s) fun
      | .normal => .start (.statements ss) .done
      | flow => .done flow
  | .rounds condition body increment => .rounds condition body increment
  | .clause d =>
    match d.superclass with
    | none => .done none
    | some parent =>
      .start (.expression parent) fun value =>
        .step (superclassOf d parent value) .nothing fun c => .done (some c)
  | .expression e => .expression e
  | .optional none => .done .nil
  | .optional (some e) => .start (.expression e) .done
  | .expressions [] => .done []
  | .expressions (e :: es) =>
    .start (.expression e) fun value =>
      .start (.expressions es) fun values => .done (value :: values)
  | .property f =>
    match f.kind with
    | .getter => .start (.invoke f []) .done
    | _ => .done (.function f)
  | .objectProperty o name => .objectProperty o name
  | .call callee paren arguments => .call callee paren arguments
  | .invoke f arguments =>
    .step (callFrame f arguments) (.frame (.call f.declaration)) fun frame =>
      .enter frame (some f) (.statements f.declaration.body) fun flow =>
        .step (callResult f flow) .nothing .done

/-! ## Evaluation is its layers -/

theorem run_zero (t : Task) : t.run 0 = outOfFuel := by
  cases t <;> rfl

/-- Finding an inherited member and making it a method are two steps. -/
theorem inheritedMember_source (site : Site) (keyword method : Token) :
    inheritedMember site keyword method =
      inheritedSource site keyword method >>= fun source => bind source.1 source.2 := by
  rw [inheritedMember, inheritedSource, bind_assoc]
  congr 1
  funext m
  cases m.table[site]? with
  | none => rfl
  | some distance =>
    dsimp only
    generalize m.store.getAt? m.current distance "super" = parent
    match parent with
    | some (.cls c) =>
      dsimp only
      cases (c.findMethod method.lexeme).or (c.findClassMethod method.lexeme) <;> rfl
    | none | some .nil | some (.bool _) | some (.number _) | some (.string _)
    | some (.native _ _) | some (.function _) | some (.object _) => rfl

/-- A layer that ends with the result of a task runs as that task. -/
theorem Layer.run_start_done (sub : (t : Task) → Exec t.Result) (t : Task) :
    (Layer.start t .done).run sub = sub t :=
  bind_pure (sub t)

/-- A layer of one step is the step. -/
theorem Layer.run_step_done {α : Type} (sub : (t : Task) → Exec t.Result) (x : Exec α)
    (mark : Mark) : (Layer.step x mark .done).run sub = x :=
  bind_pure x

/-- Setting a property is its layer. -/
theorem setProperty_run (fuel : Nat) (o : Object) (name : Token) (value : Value) :
    (Layer.setProperty o name value).run (Task.run fuel) =
      (match o.cls.findMethod (setterName name.lexeme) with
        | some f => do
          let f ← bind f (.object o)
          let _ ← invoke fuel f [value]
          return value
        | none => do
          modifyStore fun s => s.setField o name.lexeme value
          return value) := by
  unfold Layer.setProperty
  cases o.cls.findMethod (setterName name.lexeme) <;> rfl

/-- A property of a class is its layer, which starts no task. -/
theorem classProperty_run (sub : (t : Task) → Exec t.Result) (c : Class) (name : Token) :
    (Layer.classProperty c name).run sub = classProperty c name := by
  unfold Layer.classProperty classProperty
  split
  next => rfl
  next =>
    cases c.findClassMethod name.lexeme with
    | none => exact Layer.run_step_done sub _ .nothing
    | some f => rfl

/-- Executing a statement is its layer, with one unit of fuel spent. -/
theorem statement_run (fuel : Nat) (s : Stmt) :
    (Layer.statement s).run (Task.run fuel) = execute (fuel + 1) s := by
  rw [execute.eq_def]
  cases s with
  | block body =>
    simp only [Layer.statement, Layer.run, bind_pure]
    rfl
  | breakLoop keyword => rfl
  | continueLoop keyword => rfl
  | classDecl d => rfl
  | empty => rfl
  | expression value => rfl
  | functionDecl d => rfl
  | conditional condition whenTrue whenFalse =>
    show evaluate fuel condition >>= _ = _
    congr 1
    funext value
    by_cases htrue : value.isTruthy = true
    · simp only [htrue, if_true]
      exact Layer.run_start_done ..
    · simp only [htrue]
      cases whenFalse with
      | none => rfl
      | some s => exact Layer.run_start_done ..
  | input keyword target =>
    show (takeLine >>= typedValue keyword) >>= _ = _
    rw [bind_assoc]
    simp only [Eval.input, bind_assoc]
    rfl
  | print keyword value => rfl
  | returnValue keyword value => rfl
  | constant name value => rfl
  | var name value => rfl
  | loop condition body increment => exact Layer.run_start_done ..

/-- The rounds of a loop are their layer, with one unit of fuel spent. -/
theorem rounds_run (fuel : Nat) (condition : Expr) (body : Stmt) (increment : Option Expr) :
    (Layer.rounds condition body increment).run (Task.run fuel) =
      repeatLoop (fuel + 1) condition body increment := by
  rw [repeatLoop.eq_def]
  show evaluate fuel condition >>= _ = _
  congr 1
  funext value
  by_cases htrue : value.isTruthy = true
  · simp only [htrue, if_true]
    show execute fuel body >>= _ = _
    congr 1
    funext flow
    have hagain : (Layer.start (.optional increment) fun _ =>
        .start (.rounds condition body increment) .done).run (Task.run fuel) =
          (do
            let _ ← evaluateOption fuel increment
            repeatLoop fuel condition body increment) := by
      simp only [Layer.run, bind_pure]
      rfl
    cases flow with
    | normal => exact hagain
    | breakLoop => rfl
    | continueLoop => exact hagain
    | returned value => rfl
  · simp only [htrue]
    rfl

/-- Evaluating an expression is its layer, with one unit of fuel spent. -/
theorem expression_run (fuel : Nat) (e : Expr) :
    (Layer.expression e).run (Task.run fuel) = evaluate (fuel + 1) e := by
  rw [evaluate.eq_def]
  cases e with
  | literal value => rfl
  | «variable» site name => exact Layer.run_step_done ..
  | assign site name value => rfl
  | receiver site keyword => exact Layer.run_step_done ..
  | inherited site keyword method =>
    simp only [inheritedMember_source, bind_assoc, Layer.expression, Layer.run, bind_pure]
    rfl
  | group inner => exact Layer.run_start_done ..
  | unary operator operand =>
    simp only [Layer.expression, Layer.run, bind_pure]
    rfl
  | binary left operator right =>
    simp only [Layer.expression, Layer.run, bind_pure]
    rfl
  | logical left operator right =>
    -- the first operand is run the same on both sides; its value decides what is run next
    show evaluate fuel left >>= _ = _
    congr 1
    funext a
    by_cases hdecides : Value.decides operator.kind a = true
    · simp only [hdecides, if_true]
      rfl
    · simp only [hdecides]
      exact Layer.run_start_done ..
  | conditional condition whenTrue whenFalse =>
    show evaluate fuel condition >>= _ = _
    congr 1
    funext value
    by_cases htrue : value.isTruthy = true
    · simp only [htrue, if_true]
      exact Layer.run_start_done ..
    · simp only [htrue]
      exact Layer.run_start_done ..
  | call callee paren arguments =>
    show evaluate fuel callee >>= _ = _
    congr 1
    funext callee
    show evaluateAll fuel arguments >>= _ = _
    congr 1
    funext values
    cases callee.arity? with
    | none => exact Layer.run_step_done ..
    | some arity =>
      show Layer.run _ (if _ then _ else _) = if _ then _ else _
      split
      next => exact Layer.run_step_done ..
      next => exact Layer.run_start_done ..
  | get object name =>
    show evaluate fuel object >>= _ = _
    congr 1
    funext value
    cases value with
    | object o => exact Layer.run_start_done ..
    | cls c => exact classProperty_run ..
    | _ => exact Layer.run_step_done ..
  | set object name value =>
    show evaluate fuel object >>= _ = _
    congr 1
    funext target
    cases target with
    | object o =>
      simp only [Layer.run, setProperty_run]
      rfl
    | _ => exact Layer.run_step_done ..
  | function d => rfl

/-- A property of an object is its layer, with one unit of fuel spent. -/
theorem objectProperty_run (fuel : Nat) (o : Object) (name : Token) :
    (Layer.objectProperty o name).run (Task.run fuel) =
      Eval.objectProperty (fuel + 1) o name := by
  rw [Eval.objectProperty.eq_def]
  show (get >>= _) >>= _ = _
  rw [bind_assoc]
  congr 1
  funext m
  rw [pure_bind]
  cases m.store.field? o name.lexeme with
  | some value => rfl
  | none =>
    simp only
    cases o.cls.findMethod name.lexeme with
    | some f =>
      simp only [Layer.run, bind_pure]
      rfl
    | none =>
      cases o.cls.findClassMethod name.lexeme with
      | some f => rfl
      | none => exact Layer.run_step_done ..

/-- A call is its layer, with one unit of fuel spent. -/
theorem call_run (fuel : Nat) (callee : Value) (paren : Token) (arguments : List Value) :
    (Layer.call callee paren arguments).run (Task.run fuel) =
      Eval.call (fuel + 1) callee paren arguments := by
  rw [Eval.call.eq_def]
  cases callee with
  | native n serial => exact Layer.run_step_done ..
  | function f => exact Layer.run_start_done ..
  | cls c =>
    simp only [Layer.call, Layer.run]
    congr 1
    funext o
    cases c.initializer? <;> rfl
  | _ => exact Layer.run_step_done ..

/-- A task is its layer, with the tasks that the layer starts run with one unit of fuel less. -/
theorem run_succ (fuel : Nat) (t : Task) : t.run (fuel + 1) = t.layer.run (Task.run fuel) := by
  symm
  cases t with
  | statement s => exact statement_run fuel s
  | statements ss =>
    cases ss with
    | nil => rfl
    | cons s ss =>
      show execute fuel s >>= _ = executeAll (fuel + 1) (s :: ss)
      rw [executeAll.eq_def]
      congr 1
      funext flow
      cases flow with
      | normal => exact Layer.run_start_done ..
      | _ => rfl
  | rounds condition body increment => exact rounds_run fuel condition body increment
  | clause d =>
    obtain ⟨name, superclass, methods, classMethods, getters, setters⟩ := d
    cases superclass <;> rfl
  | expression e => exact expression_run fuel e
  | optional e =>
    cases e with
    | none => rfl
    | some e => exact Layer.run_start_done ..
  | expressions es => cases es <;> rfl
  | property f =>
    obtain ⟨serial, d, closure, isInitializer, kind⟩ := f
    cases kind with
    | getter => exact Layer.run_start_done ..
    | method => rfl
    | setter => rfl
  | objectProperty o name => exact objectProperty_run fuel o name
  | call callee paren arguments => exact call_run fuel callee paren arguments
  | invoke f arguments =>
    show callFrame f arguments >>= _ = invoke (fuel + 1) f arguments
    rw [invoke.eq_def]
    simp only [callFrame, bind_assoc, pure_bind, Layer.run, bind_pure]
    rfl

end Lox.Eval
