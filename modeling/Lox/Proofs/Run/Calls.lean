import Lox.Proofs.Run.Log
import Lox.Proofs.Run.Starts

/-!
# How calls end

The call of a class follows right on the evaluation of its arguments and gives the object that was
the next one to be made then, whatever its initializer does. The call of an initializer gives what
the frame around it binds to `this`, whatever its body does. Both hold at the end of every call that
a session logs (`Chronicle.log_fulfilled`).
-/

namespace Lox

namespace Eval

open Exec

/-! ## Layers that start no calls of values -/

theorem Layer.statement_callless (s : Stmt) : (Layer.statement s).Starts (¬·.IsCall) := by
  cases s with
  | conditional condition whenTrue whenFalse =>
    refine ⟨id, fun value => starts_ite (starts_last id) ?_⟩
    cases whenFalse <;> simp [Layer.Starts, Task.IsCall]
  | _ => simp [Layer.statement, Layer.Starts, Task.IsCall]

/-- Only a call expression starts the call of a value. -/
theorem Task.layer_callless {t : Task}
    (ht : ∀ callee paren arguments, t ≠ .expression (.call callee paren arguments)) :
    t.layer.Starts (¬·.IsCall) := by
  have hevaluates : ∀ t : Task, t.Evaluates → ¬t.IsCall := fun _ => Evaluates.not_isCall
  cases t with
  | statement s => exact Layer.statement_callless s
  | statements ss =>
    cases ss with
    | nil => trivial
    | cons s ss =>
      refine ⟨id, fun flow => ?_⟩
      cases flow <;> simp [Layer.Starts, Task.IsCall]
  | rounds condition body increment =>
    refine ⟨id, fun value => Layer.starts_ite ⟨id, fun flow => ?_⟩ trivial⟩
    cases flow <;> simp [Layer.Starts, Task.IsCall]
  | clause d =>
    unfold Task.layer
    dsimp only
    split
    next => trivial
    next => exact ⟨id, fun _ _ => trivial⟩
  | expression e =>
    exact Layer.expression_starts hevaluates e (.inl fun _ _ _ he => ht _ _ _ (congrArg _ he))
  | optional e => cases e <;> simp [Task.layer, Layer.Starts, Task.IsCall]
  | expressions es => cases es <;> simp [Task.layer, Layer.Starts, Task.IsCall]
  | property f =>
    unfold Task.layer
    dsimp only
    split <;> simp [Layer.Starts, Task.IsCall]
  | objectProperty o name => exact Layer.objectProperty_starts hevaluates o name
  | call callee paren arguments => exact Layer.call_starts hevaluates callee paren arguments
  | invoke f arguments => exact fun _ => ⟨id, fun _ _ => trivial⟩

/-! ## Ends of calls -/

/-- At the moment `ev` a call of the class ends. At the moment `evaluated` its arguments had been
evaluated, and `during` are all the moments since then: they are those of the call. The result is
the object that was the next to be made when the arguments had been evaluated. -/
structure Constructs (evaluated : Event) (during : List Event) (ev : Event) (c : Class)
    (paren : Token) (arguments : List Value) (result : Value) : Prop where
  call : ∃ callee es outer, ev.around.tasks = .expression (.call callee paren es) :: outer ∧
    evaluated.occurrence = .ends (.expressions es) arguments
  tasks : evaluated.around.tasks = ev.around.tasks
  during : ∀ inner ∈ during,
    .call (.cls c) paren arguments :: ev.around.tasks <:+ inner.around.tasks
  result : result = .object ⟨evaluated.machine.store.objects.size, c⟩

/-- If a call of a class or of an initializer ends at this moment, it gives what it should. -/
structure Event.Fulfills (past : List Event) (ev : Event) : Prop where
  construction : ∀ c paren arguments result,
    ev.occurrence = .ends (.call (.cls c) paren arguments) result →
      ∃ before evaluated during, past = before ++ evaluated :: during ∧
        Constructs evaluated during ev c paren arguments result
  initializer : ∀ f arguments result, ev.occurrence = .ends (.invoke f arguments) result →
    f.isInitializer = true → result = (ev.machine.store.getAt? f.closure 0 "this").getD .nil

/-- All calls that end at these moments give what they should. -/
def Fulfilled (evs : List Event) : Prop :=
  ∀ before ev after, evs = before ++ ev :: after → ev.Fulfills before

section Fulfilled

variable {ev : Event} {past evs evs' : List Event}

/-- A call that gives what it should does so behind a longer past as well. -/
theorem Event.Fulfills.append (h : ev.Fulfills past) (before : List Event) :
    ev.Fulfills (before ++ past) := by
  refine ⟨fun c paren arguments result hends => ?_, h.initializer⟩
  obtain ⟨earlier, evaluated, during, rfl, hconstructs⟩ :=
    h.construction c paren arguments result hends
  exact ⟨before ++ earlier, evaluated, during, (List.append_assoc ..).symm, hconstructs⟩

/-- At a step no call ends. -/
theorem Event.Fulfills.step {mark : Mark} {halt : Option Halt} {m : Machine}
    (h : ev.occurrence = .step mark halt m) : ev.Fulfills past :=
  ⟨fun _ _ _ _ hends => (nomatch h.symm.trans hends),
    fun _ _ _ hends => (nomatch h.symm.trans hends)⟩

theorem Fulfilled.nil : Fulfilled [] :=
  fun before _ _ heq => by cases before <;> cases heq

/-- Moments after which others come. -/
theorem Fulfilled.followed (h : Fulfilled evs)
    (h' : ∀ before ev after, evs' = before ++ ev :: after → ev.Fulfills (evs ++ before)) :
    Fulfilled (evs ++ evs') := by
  intro before ev after heq
  rcases List.append_eq_append_iff.mp heq with ⟨mid, rfl, heq'⟩ | ⟨mid, rfl, heq'⟩
  · exact h' mid ev after heq'
  · cases mid with
    | nil =>
      have hev := h' [] ev after heq'.symm
      rwa [List.append_nil, List.append_nil] at hev
    | cons first mid =>
      injection heq' with hfirst _
      subst hfirst
      exact h before ev mid rfl

theorem Fulfilled.append (h : Fulfilled evs) (h' : Fulfilled evs') : Fulfilled (evs ++ evs') :=
  h.followed fun before ev after heq => (h' before ev after heq).append evs

/-- One more moment, at which a call gives what it should, may be added. -/
theorem Fulfilled.concat (h : Fulfilled evs) (hev : ev.Fulfills evs) :
    Fulfilled (evs ++ [ev]) := by
  refine h.followed fun before ev' after heq => ?_
  cases before with
  | nil =>
    injection heq with hfirst _
    rwa [← hfirst, List.append_nil]
  | cons first before =>
    injection heq with _ heq
    cases before <;> cases heq

/-- A moment at which a step is taken. -/
theorem Fulfilled.singleton {mark : Mark} {halt : Option Halt} {m : Machine}
    (h : ev.occurrence = .step mark halt m) : Fulfilled [ev] :=
  Fulfilled.nil.concat (.step h)

end Fulfilled

/-! ## What tasks log -/

/-- What a call gives, with the stores before and after it. -/
def Task.Gave (s : Store) : (t : Task) → t.Result → Store → Prop
  | .call (.cls c) _ _, a, _ => a = .object ⟨s.objects.size, c⟩
  | .invoke f _, a, s' =>
    f.isInitializer = true → a = (s'.getAt? f.closure 0 "this").getD .nil
  | _, _, _ => True

/-- What a task logs inside the tasks around it: the moments of its own, at which calls are
fulfilled, and then its end. -/
def Task.Ran (t : Task) (tasks : List Task) (s : Store) :
    Option t.Result → List Event → Store → Prop
  | some a, evs, s' => ∃ during last, evs = during ++ [last] ∧ Fulfilled during ∧
    (∀ inner ∈ during, t :: tasks <:+ inner.around.tasks) ∧
    last.around.tasks = tasks ∧ last.occurrence = .ends t a ∧ last.machine.store = s' ∧
    t.Gave s a s'
  | none, evs, _ => Fulfilled evs ∧ ∀ inner ∈ evs, t :: tasks <:+ inner.around.tasks

/-- At these moments calls are fulfilled, inside these tasks. -/
def Within (tasks : List Task) (evs : List Event) : Prop :=
  Fulfilled evs ∧ ∀ inner ∈ evs, tasks <:+ inner.around.tasks

section Tasks

variable {t : Task} {tasks : List Task} {s s' : Store} {evs evs' : List Event}

theorem Within.nil : Within tasks [] :=
  ⟨.nil, fun _ h => nomatch h⟩

theorem Within.append (h : Within tasks evs) (h' : Within tasks evs') :
    Within tasks (evs ++ evs') :=
  ⟨h.1.append h'.1, fun ev hev => (List.mem_append.mp hev).elim (h.2 ev) (h'.2 ev)⟩

/-- The end of a task that is not the call of a value. -/
theorem Task.Gave.fulfills {a : t.Result} {ev : Event} {past : List Event} (h : t.Gave s a s')
    (ht : ¬t.IsCall) (hends : ev.occurrence = .ends t a) (hstore : ev.machine.store = s') :
    ev.Fulfills past := by
  refine ⟨fun c paren arguments result hcall => ?_, fun f arguments result hinvoke hf => ?_⟩
  · cases hends.symm.trans hcall
    exact absurd trivial ht
  · cases hends.symm.trans hinvoke
    rw [hstore]
    exact h hf

/-- A task inside others that is not the call of a value. -/
theorem Task.Ran.within {result : Option t.Result} (h : t.Ran tasks s result evs s')
    (ht : ¬t.IsCall) : Within tasks evs := by
  have hinside : ∀ inner : Event, t :: tasks <:+ inner.around.tasks →
      tasks <:+ inner.around.tasks := fun _ h => (List.suffix_cons t tasks).trans h
  cases result with
  | none => exact ⟨h.1, fun inner hinner => hinside inner (h.2 inner hinner)⟩
  | some a =>
    obtain ⟨during, last, rfl, hduring, htasks, hlast, hends, hstore, hgave⟩ := h
    refine ⟨hduring.concat (hgave.fulfills ht hends hstore), fun inner hinner => ?_⟩
    rcases List.mem_append.mp hinner with hinner | hinner
    · exact hinside inner (htasks inner hinner)
    · obtain rfl := List.mem_singleton.mp hinner
      exact hlast ▸ List.suffix_refl _

end Tasks

/-! ## What layers log -/

section Layers

variable {sub : (t : Task) → Surroundings → Traced t.Result}
variable {around : Surroundings}

/-- What two relations say of the events of a computation may be said at once. -/
theorem Logs.and {α : Type} {x : Traced α} {P P' : Store → Option α → List Event → Store → Prop}
    (h : Logs x P) (h' : Logs x P') : Logs x fun s a evs s' => P s a evs s' ∧ P' s a evs s' := by
  intro r
  have hr := h r
  have hr' := h' r
  cases hx : x r with
  | ok a r' =>
    rw [hx] at hr hr'
    obtain ⟨evs, hlog, hP⟩ := hr
    obtain ⟨evs', hlog', hP'⟩ := hr'
    cases List.append_cancel_left (hlog.symm.trans hlog')
    exact ⟨evs, hlog, hP, hP'⟩
  | error e r' =>
    rw [hx] at hr hr'
    obtain ⟨evs, hlog, hP⟩ := hr
    obtain ⟨evs', hlog', hP'⟩ := hr'
    cases List.append_cancel_left (hlog.symm.trans hlog')
    exact ⟨evs, hlog, hP, hP'⟩

/-- A step of a layer. -/
theorem observe_within {β : Type} {x : Exec β} {mark : Mark} :
    Logs (observe around mark x) fun _ _ evs _ => Within around.tasks evs := by
  have hstep : ∀ ev : Event, ev.around = around → (∃ halt m, ev.occurrence = .step mark halt m) →
      Within around.tasks [ev] := by
    rintro ev rfl ⟨halt, m, hev⟩
    exact ⟨.singleton hev, fun inner hinner => List.mem_singleton.mp hinner ▸ List.suffix_refl _⟩
  exact .observe (fun _ _ _ _ _ => hstep _ rfl ⟨_, _, rfl⟩) fun _ _ _ _ _ =>
    hstep _ rfl ⟨_, _, rfl⟩

/-- Two computations, one after the other, have their calls fulfilled inside the tasks if each has.
-/
theorem Logs.within_bind {α β : Type} {x : Traced α} {f : α → Traced β} {tasks : List Task}
    (hx : Logs x fun _ _ evs _ => Within tasks evs)
    (hf : ∀ a, Logs (f a) fun _ _ evs _ => Within tasks evs) :
    Logs (x >>= f) fun _ _ evs _ => Within tasks evs :=
  hx.bind hf (fun _ _ _ _ _ _ _ h h' => h.append h') fun _ _ _ h => h

/-- A layer that starts no call of a value. -/
theorem Layer.trace_within (hsub : ∀ t around, Logs (sub t around) (t.Ran around.tasks))
    {α : Type} {l : Layer α} (h : l.Starts (¬·.IsCall)) :
    Logs (l.trace sub around) fun _ _ evs _ => Within around.tasks evs := by
  induction l with
  | done a => exact .pure fun _ => .nil
  | step x mark next ih => exact observe_within.within_bind fun b => ih b (h b)
  | start t next ih =>
    exact ((hsub t around).mono fun _ _ _ _ hran => hran.within h.1).within_bind fun a =>
      ih a (h.2 a)
  | enter frame f t next ih =>
    refine Logs.within_bind (fun r => ?_) fun a => ih a (h.2 a)
    exact ((hsub t (around.enter frame f r.history.origins)).mono
      fun _ _ _ _ hran => hran.within h.1).withinFrame r

/-- Inside these tasks the arguments of a call have been evaluated at this moment. -/
structure Event.Evaluated (ev : Event) (tasks : List Task) (es : List Expr) (values : List Value)
    (s : Store) : Prop where
  tasks : ev.around.tasks = tasks
  ends : ev.occurrence = .ends (.expressions es) values
  store : ev.machine.store = s

/-- After the arguments have been evaluated, calls are fulfilled at these moments too. -/
def AfterArguments (tasks : List Task) (es : List Expr) (values : List Value) (s : Store)
    (evs : List Event) : Prop :=
  (∀ inner ∈ evs, tasks <:+ inner.around.tasks) ∧
    ∀ past evaluated, evaluated.Evaluated tasks es values s → Fulfilled (past ++ [evaluated]) →
      Fulfilled (past ++ [evaluated] ++ evs)

theorem Within.afterArguments {tasks : List Task} {evs : List Event} (h : Within tasks evs)
    (es : List Expr) (values : List Value) (s : Store) : AfterArguments tasks es values s evs :=
  ⟨h.2, fun _ _ _ hpast => hpast.append h.1⟩

/-- The call of a value does so. -/
theorem Task.Ran.afterArguments {callee : Value} {paren : Token} {arguments : List Value}
    {e : Expr} {es : List Expr} {outer : List Task} {s s' : Store} {result : Option Value}
    {evs : List Event}
    (h : Task.Ran (.call callee paren arguments) (.expression (.call e paren es) :: outer) s
      result evs s') :
    AfterArguments (.expression (.call e paren es) :: outer) es arguments s evs := by
  cases result with
  | none =>
    exact Within.afterArguments ⟨h.1, fun ev hev => (List.suffix_cons _ _).trans (h.2 ev hev)⟩ ..
  | some a =>
    obtain ⟨during, last, rfl, hduring, hinside, hlast, hresult, -, hgave⟩ := h
    refine ⟨fun inner hinner => ?_, fun past evaluated hevaluated hpast => ?_⟩
    · rcases List.mem_append.mp hinner with hinner | hinner
      · exact (List.suffix_cons _ _).trans (hinside inner hinner)
      · obtain rfl := List.mem_singleton.mp hinner
        exact hlast ▸ List.suffix_refl _
    rw [← List.append_assoc]
    refine (hpast.append hduring).concat ⟨fun c paren' arguments' a' hcall => ?_, ?_⟩
    · cases hresult.symm.trans hcall
      refine ⟨past, evaluated, during, List.append_cons .. |>.symm, ?_⟩
      refine ⟨⟨e, es, outer, hlast, hevaluated.ends⟩, hevaluated.tasks.trans hlast.symm,
        fun inner hinner => hlast ▸ hinside inner hinner, ?_⟩
      rw [hevaluated.store]
      exact hgave
    · intro f _ _ hinvoke
      cases hresult.symm.trans hinvoke

/-- All that happens in a call expression lies inside of it, and the calls in it are fulfilled. -/
theorem Layer.call_within (hsub : ∀ t around, Logs (sub t around) (t.Ran around.tasks))
    {callee : Expr} {paren : Token} {es : List Expr} {outer : List Task}
    (htasks : around.tasks = .expression (.call callee paren es) :: outer) :
    Logs ((Layer.expression (.call callee paren es)).trace sub around) fun _ _ evs _ =>
      Within around.tasks evs := by
  refine Logs.within_bind ((hsub (.expression callee) around).mono fun _ _ _ _ h => h.within id)
    fun f => ?_
  -- the arguments, and what comes right after them
  refine (hsub (.expressions es) around).bind
    (R := fun values s _ evs' _ => AfterArguments around.tasks es values s evs')
    (fun values => ?_) ?_ fun _ _ _ h => h.within id
  · have hfail : ∀ cause : RuntimeCause,
        Logs ((Layer.step (fail paren cause) .nothing .done : Layer Value).trace sub around)
          fun s _ evs' _ => AfterArguments around.tasks es values s evs' := fun cause =>
      (trace_within hsub (l := .step (fail paren cause) .nothing .done) fun _ => trivial).mono
        fun _ _ _ _ h => h.afterArguments ..
    dsimp only
    split
    next => exact hfail _
    next =>
      split
      next => exact hfail _
      next =>
        refine (hsub (.call f paren values) around).bind (R := fun a _ _ evs' _ => evs' = [])
          (fun a => .pure fun _ => rfl) ?_ ?_
        · rintro s a evs s₁ b evs' s' hran rfl
          rw [htasks] at hran ⊢
          rw [List.append_nil]
          exact hran.afterArguments
        · intro s evs s' hran
          rw [htasks] at hran ⊢
          exact hran.afterArguments
  · rintro s values evs s₁ b evs' s' hran ⟨hinside, hfulfilled⟩
    have hwithin := hran.within id
    refine ⟨?_, fun ev hev => (List.mem_append.mp hev).elim (hwithin.2 ev) (hinside ev)⟩
    obtain ⟨during, last, rfl, -, -, hlast, hends, hstore, -⟩ := hran
    exact hfulfilled during last ⟨hlast, hends, hstore⟩ hwithin.1

/-- What a task does up to its end. -/
theorem Task.layer_within (hsub : ∀ t around, Logs (sub t around) (t.Ran around.tasks))
    (t : Task) (around : Surroundings) :
    Logs (t.layer.trace sub (around.inside t)) fun _ _ evs _ =>
      Within (t :: around.tasks) evs := by
  by_cases ht : ∃ callee paren es, t = .expression (.call callee paren es)
  · obtain ⟨callee, paren, es, rfl⟩ := ht
    exact Layer.call_within hsub rfl
  · have hcallless : t.layer.Starts (¬·.IsCall) :=
      layer_callless fun callee paren es heq => ht ⟨callee, paren, es, heq⟩
    exact Layer.trace_within hsub hcallless

/-- What comes last decides about the result. -/
theorem Logs.last {α β : Type} {x : Traced α} {f : α → Traced β}
    {P : Store → Option α → List Event → Store → Prop} {T : Option β → Store → Prop}
    (hx : Logs x P) (hf : ∀ a, Logs (f a) fun _ b _ s' => T b s') (herror : ∀ s', T none s') :
    Logs (x >>= f) fun _ b _ s' => T b s' :=
  hx.bind hf (fun _ _ _ _ _ _ _ _ h => h) fun _ _ s' _ => herror s'

/-- A class gives the object that it makes at first. -/
theorem Layer.call_gave (hsub : ∀ t around, Logs (sub t around) (t.Ran around.tasks)) (c : Class)
    (paren : Token) (arguments : List Value) :
    Logs ((Layer.call (.cls c) paren arguments).trace sub around) fun s result _ _ =>
      ∀ a ∈ result, a = .object ⟨s.objects.size, c⟩ := by
  refine Logs.bind (P := fun s o _ _ => ∀ o' ∈ o, o' = ⟨s.objects.size, c⟩)
    (R := fun o _ result _ _ => ∀ a ∈ result, a = .object o) (.observe ?_ ?_) (fun o => ?_) ?_ ?_
  · rintro origins m o m' hx _ ⟨⟩
    cases hx
    rfl
  · intro origins m e m' hx
    cases hx
  · have hdone : Logs (pure (.object o) : Traced Value) fun _ result _ _ =>
        ∀ a ∈ result, a = .object o := .pure fun _ _ ha => (Option.some.inj ha).symm
    dsimp only
    split
    next => exact hdone
    next f hf =>
      refine Logs.last observe_within (fun g => ?_) fun _ _ ha => nomatch ha
      exact Logs.last (hsub (.invoke g arguments) around) (fun _ => hdone) fun _ _ ha => nomatch ha
  · rintro s o evs s₁ result evs' s' ho hresult a ha
    rw [hresult a ha, ho o rfl]
  · exact fun _ _ _ _ _ ha => nomatch ha

/-- An initializer gives what the frame around its call binds to `this`. -/
theorem Task.invoke_gave (hsub : ∀ t around, Logs (sub t around) (t.Ran around.tasks))
    (f : Function) (arguments : List Value) :
    Logs ((Task.invoke f arguments).layer.trace sub around) fun _ result _ s' =>
      ∀ a ∈ result, f.isInitializer = true → a = (s'.getAt? f.closure 0 "this").getD .nil := by
  refine Logs.last observe_within (fun frame => ?_) fun _ _ ha => nomatch ha
  have hbody : Logs (fun r => withinFrame frame (sub (.statements f.declaration.body)
      (around.enter frame f r.history.origins)) r) fun _ _ _ _ => True := fun r =>
    ((hsub (.statements f.declaration.body) (around.enter frame f r.history.origins)).mono
      fun _ _ _ _ _ => trivial).withinFrame r
  refine Logs.last hbody (fun flow => ?_) fun _ _ ha => nomatch ha
  refine Logs.bind (R := fun a s result _ s' => result = some a ∧ s' = s)
    (.observe (P := fun _ result _ s' => ∀ a ∈ result, f.isInitializer = true →
      a = (s'.getAt? f.closure 0 "this").getD .nil) ?_ ?_)
    (fun a => .pure fun _ => ⟨rfl, rfl⟩) ?_ ?_
  · rintro origins m a m' hx _ ⟨⟩ hf
    unfold callResult at hx
    rw [if_pos hf] at hx
    cases hx
    rfl
  · exact fun _ _ _ _ _ _ ha => nomatch ha
  · rintro s a evs s₁ result evs' s' ha ⟨rfl, rfl⟩
    exact ha
  · exact fun _ _ _ h => h

/-- What a task gives when it ends. -/
theorem Task.layer_gave (hsub : ∀ t around, Logs (sub t around) (t.Ran around.tasks))
    (t : Task) (around : Surroundings) :
    Logs (t.layer.trace sub (around.inside t)) fun s result _ s' =>
      ∀ a ∈ result, t.Gave s a s' := by
  have hall := layer_within hsub t around
  cases t with
  | call callee paren arguments =>
    cases callee with
    | cls c => exact Layer.call_gave hsub c paren arguments
    | _ => exact hall.mono fun _ _ _ _ _ _ _ => trivial
  | invoke f arguments => exact invoke_gave hsub f arguments
  | _ => exact hall.mono fun _ _ _ _ _ _ _ => trivial

/-- What a task logs, if the tasks that it starts do. -/
theorem Task.layer_ran (hsub : ∀ t around, Logs (sub t around) (t.Ran around.tasks))
    (t : Task) (around : Surroundings) :
    Logs (recorded t around (t.layer.trace sub (around.inside t))) (t.Ran around.tasks) := by
  refine recorded_logs ((layer_within hsub t around).and (layer_gave hsub t around)) ?_
    fun _ _ _ h => h.1
  rintro s a evs s' origins m ⟨hwithin, hgave⟩ hm
  exact ⟨evs, _, rfl, hwithin.1, hwithin.2, rfl, rfl, hm, hgave a rfl⟩

end Layers

/-- What a run of a task logs. -/
theorem Task.trace_ran (fuel : Nat) (t : Task) (around : Surroundings) :
    Logs (t.trace fuel around) (t.Ran around.tasks) :=
  Task.trace_logs (Q := Task.Ran) (fun _ _ _ => ⟨.nil, fun _ h => nomatch h⟩)
    (fun _ hsub t around => t.layer_ran hsub around) fuel t around

/-- A session logs nothing but fulfilled calls. -/
theorem fulfilled_law : LogLaw fun _ evs _ => Fulfilled evs where
  nil _ := .nil
  append := Fulfilled.append
  statement fuel _ := (Task.trace_ran fuel _ .top).mono fun _ _ _ _ h => (h.within id).1
  expression fuel _ := (Task.trace_ran fuel _ .top).mono fun _ _ _ _ h => (h.within id).1
  write _ := observe_within.mono fun _ _ _ _ h => h.1

end Eval

open Eval

/-- All calls in a session end with what they should. -/
theorem Chronicle.log_fulfilled (input : Input) (output : Output) (host : Host) (fuel : Nat)
    (steps : List Step) :
    Fulfilled (takeAll fuel steps (start input output host)).run.history.log := by
  obtain ⟨evs, hlog, hevs⟩ := takeAll_logs fulfilled_law fuel steps (start input output host)
  rw [show (start input output host).run.history.log = [] from rfl, List.nil_append] at hlog
  rwa [hlog]

end Lox
