import Lox.Proofs.Attested.Values

/-!
# Steps add only attested values

At each moment of an attested run the log attests to all that the store holds, that the tasks at
work handle and that tasks give. `Leaves` says of a step that it leads from one attested run to
another one; it is shown here of each step that a layer of evaluation takes. The moment of the step
itself is in the log then, so a method that was just taken and a class that was just made are
attested.
-/

namespace Lox.Eval

open Exec

/-! ## Attested runs -/

/-- The moments before this one attest to all values at this one: to those that the store holds, to
those that tasks work on, and to what a task gives. -/
structure Event.Attested (past : List Event) (ev : Event) : Prop where
  store : ev.machine.store.Attested past
  tasks : ∀ t ∈ ev.around.tasks, ∀ v ∈ t.values, v.Attested past ev.machine.store.objects.size
  result : ∀ (t : Task) (a : t.Result), ev.occurrence = .ends t a →
    ∀ v ∈ t.values ++ t.given a, v.Attested past ev.machine.store.objects.size
  older : ∀ old ∈ past, old.machine.store.objects.size ≤ ev.machine.store.objects.size

/-- The log attests to what the store holds now, and did so at each moment. -/
structure Run.Attested (r : Run) : Prop where
  store : r.machine.store.Attested r.history.log
  older : ∀ ev ∈ r.history.log, ev.machine.store.objects.size ≤ r.machine.store.objects.size
  log : ∀ (i : Nat) (ev : Event), r.history.log[i]? = some ev →
    ev.Attested (r.history.log.take i)

/-- The log attests to the value now. -/
abbrev Run.Attests (r : Run) (v : Value) : Prop :=
  v.Attested r.history.log r.machine.store.objects.size

/-- The second run has all the moments and all the objects of the first one. -/
structure Run.Later (r r' : Run) : Prop where
  log : r.history.log ⊆ r'.history.log
  objects : r.machine.store.objects.size ≤ r'.machine.store.objects.size

/-- Run and tasks at work are attested. -/
structure Vouched (around : Surroundings) (r : Run) : Prop where
  run : r.Attested
  tasks : ∀ t ∈ around.tasks, ∀ v ∈ t.values, r.Attests v

variable {around : Surroundings} {r r' r'' : Run}

/-- A run is as late as it is. -/
theorem Run.Later.refl (r : Run) : r.Later r :=
  ⟨fun _ => id, Nat.le_refl _⟩

/-- Later than later is later. -/
theorem Run.Later.trans (h : r.Later r') (h' : r'.Later r'') : r.Later r'' :=
  ⟨fun _ hev => h'.log (h.log hev), Nat.le_trans h.objects h'.objects⟩

/-- What is attested stays so as moments are added. -/
theorem Run.Attests.later {v : Value} (h : r.Attests v) (hr : r.Later r') : r'.Attests v :=
  Value.Attested.later h hr.log hr.objects

/-- The values of the tasks at work stay attested while they are. -/
theorem Vouched.later (h : Vouched around r) (hr : r.Later r') (hr' : r'.Attested) :
    Vouched around r' :=
  ⟨hr', fun t ht v hv => Run.Attests.later (h.tasks t ht v hv) hr⟩

/-- A task that starts is at work on attested values. -/
theorem Vouched.cons {t : Task} (h : Vouched around r) (ht : ∀ v ∈ t.values, r.Attests v) :
    Vouched (around.inside t) r :=
  ⟨h.run, fun _ ht' => (List.mem_cons.mp ht').elim (fun heq => heq ▸ ht) (h.tasks _)⟩

/-- The tasks around one are attested with it. -/
theorem Vouched.tail {t : Task} (h : Vouched (around.inside t) r) : Vouched around r :=
  ⟨h.run, fun t' ht' => h.tasks t' (List.mem_cons_of_mem _ ht')⟩

/-- A moment of the present is logged, after which the store may be another one. -/
theorem Run.Attested.logged (h : r.Attested) {origins : Origins} {m : Machine} {ev : Event}
    (hmachine : ev.machine = r.machine) (hev : ev.Attested r.history.log)
    (hobjects : r.machine.store.objects.size ≤ m.store.objects.size)
    (hstore : m.store.Attested (r.history.log ++ [ev])) :
    r.Later ⟨m, ⟨origins, r.history.log ++ [ev]⟩⟩ ∧
      Run.Attested ⟨m, ⟨origins, r.history.log ++ [ev]⟩⟩ := by
  refine ⟨⟨List.subset_append_left _ _, hobjects⟩, hstore, fun ev' hev' => ?_,
    log_concat h.log hev⟩
  rcases List.mem_append.mp hev' with hold | hnew
  · exact Nat.le_trans (h.older ev' hold) hobjects
  · rw [List.mem_singleton.mp hnew, hmachine]
    exact hobjects

/-- The moment of a step. -/
def Run.stepping (around : Surroundings) (mark : Mark) (halt : Option Halt) (m : Machine)
    (r : Run) : Event :=
  ⟨around, r.history.origins, r.machine, .step mark halt m⟩

/-- A step that is logged leaves a run attested if its store is, seen from behind the step. -/
theorem Vouched.took (h : Vouched around r) (mark : Mark) (halt : Option Halt) {m : Machine}
    (hobjects : r.machine.store.objects.size ≤ m.store.objects.size)
    (hstore : m.store.Attested (r.history.log ++ [r.stepping around mark halt m])) :
    r.Later (r.took around mark halt m) ∧ (r.took around mark halt m).Attested :=
  h.run.logged rfl ⟨h.run.store, h.tasks, (fun _ _ hends => nomatch hends), h.run.older⟩ hobjects
    hstore

/-- The end of a task is logged. -/
theorem Vouched.recorded {t : Task} {a : t.Result} (h : Vouched (around.inside t) r)
    (ha : ∀ v ∈ t.given a, r.Attests v) :
    r.Later (r.record around (.ends t a)) ∧ (r.record around (.ends t a)).Attested := by
  refine h.run.logged rfl ⟨h.run.store, h.tail.tasks, ?_, h.run.older⟩ (Nat.le_refl _)
    (h.run.store.mono (List.subset_append_left _ _))
  rintro _ _ ⟨⟩ v hv
  exact (List.mem_append.mp hv).elim (h.tasks t List.mem_cons_self v) (ha v)

/-! ## Steps -/

/-- However the step ends, the run is later and attested, and what the step gives has `R`. -/
def Leaves (around : Surroundings) (mark : Mark) {β : Type} (x : Exec β) (r : Run)
    (R : β → Run → Prop) : Prop :=
  match observe around mark x r with
  | .ok b r' => r.Later r' ∧ r'.Attested ∧ R b r'
  | .error _ r' => r.Later r' ∧ r'.Attested

section Steps

variable {mark : Mark} {β : Type} {x : Exec β} {R : β → Run → Prop}

/-- A step that leaves the store alone. -/
theorem leaves_quiet (h : Vouched around r) (hx : Quiet x)
    (hR : ∀ b m r', x r.machine = .ok b m → r.Later r' → R b r') : Leaves around mark x r R := by
  have hquiet := hx r.machine
  have htook : ∀ halt m, Unchanged r.machine m →
      r.Later (r.took around mark halt m) ∧ (r.took around mark halt m).Attested := by
    intro halt m hm
    refine h.took mark halt (Nat.le_of_eq (by rw [hm.store])) ?_
    rw [hm.store]
    exact h.run.store.mono (List.subset_append_left _ _)
  unfold Leaves observe
  cases hxm : x r.machine with
  | ok b m =>
    rw [hxm] at hquiet
    obtain ⟨hlater, hattested⟩ := htook none m hquiet
    exact ⟨hlater, hattested, hR b m _ hxm hlater⟩
  | error e m =>
    rw [hxm] at hquiet
    exact htook (some e) m hquiet

/-- A step that changes the store and is known to succeed. -/
theorem leaves_ok (h : Vouched around r) {b : β} {m : Machine} (hx : x r.machine = .ok b m)
    (hobjects : r.machine.store.objects.size ≤ m.store.objects.size)
    (hstore : m.store.Attested (r.history.log ++ [r.stepping around mark none m]))
    (hR : r.Later (r.took around mark none m) → R b (r.took around mark none m)) :
    Leaves around mark x r R := by
  obtain ⟨hlater, hattested⟩ := h.took mark none hobjects hstore
  unfold Leaves observe
  rw [hx]
  exact ⟨hlater, hattested, hR hlater⟩

/-- A failure is a moment, and gives nothing. -/
theorem fail_leaves (h : Vouched around r) (token : Token) (cause : RuntimeCause) :
    Leaves around mark (fail token cause : Exec β) r fun _ _ => False :=
  leaves_quiet h (.fail token cause) fun _ _ _ hx _ => nomatch hx

/-! ## Variables -/

/-- Binding a name keeps an attested value. -/
theorem define_leaves (h : Vouched around r) (name : String) {value : Value} (mutable : Bool)
    (hvalue : r.Attests value) :
    Leaves around mark (define name value mutable) r fun _ _ => True :=
  leaves_ok h rfl (Nat.le_refl _)
    ((h.run.store.define _ name mutable hvalue).mono (List.subset_append_left _ _)) fun _ => trivial

/-- What a name denotes stood in the store. -/
theorem lookUp_leaves (h : Vouched around r) (site : Site) (name : Token) :
    Leaves around mark (lookUp site name) r fun v r' => r'.Attests v := by
  refine leaves_quiet h (.lookUp site name) fun v m r' hx hlater => ?_
  rw [lookUp, get_bind] at hx
  cases hv : r.machine.lookUp site name.lexeme with
  | none =>
    rw [hv] at hx
    cases hx
  | some value =>
    rw [hv] at hx
    cases hx
    obtain ⟨f, b, hb, rfl⟩ := lookUp_binding hv
    exact Run.Attests.later (h.run.store.bindings f _ b hb) hlater

/-- An assignment keeps an attested value. -/
theorem assign_leaves (h : Vouched around r) (site : Site) (name : Token) {value : Value}
    (hvalue : r.Attests value) :
    Leaves around mark (assign site name value) r fun _ _ => True := by
  cases htarget : r.machine.target site name.lexeme with
  | ok frame =>
    refine leaves_ok h (b := ()) (m := { r.machine with
      store := r.machine.store.define frame name.lexeme value true }) ?_ (Nat.le_refl _)
      ((h.run.store.define frame name.lexeme true hvalue).mono (List.subset_append_left _ _))
      fun _ => trivial
    unfold assign
    rw [htarget]
  | error fault =>
    have htook := h.took mark (some (.fault ⟨name, fault.cause⟩)) (Nat.le_refl _)
      (h.run.store.mono (List.subset_append_left _ _))
    unfold Leaves observe assign
    rw [htarget]
    exact htook

/-- What was read is kept by a variable, if by anything. -/
theorem assignInput_leaves (h : Vouched around r) (keyword : Token) (target : Expr) {value : Value}
    (hvalue : r.Attests value) :
    Leaves around mark (assignInput keyword target value) r fun _ _ => True := by
  cases target with
  | «variable» site name => exact assign_leaves h site name hvalue
  | _ => exact leaves_quiet h (.fail _ _) fun _ _ _ hx _ => nomatch hx

/-! ## Frames -/

/-- A new frame holds no value. -/
theorem innerFrame_leaves (h : Vouched around r) :
    Leaves around mark innerFrame r fun _ _ => True :=
  leaves_ok h rfl (Nat.le_refl _)
    ((h.run.store.newFrame _).mono (List.subset_append_left _ _)) fun _ => trivial

/-- The frame of a call holds its arguments. -/
theorem callFrame_leaves (h : Vouched around r) (f : Function) {arguments : List Value}
    (harguments : ∀ v ∈ arguments, r.Attests v) :
    Leaves around mark (callFrame f arguments) r fun _ _ => True := by
  obtain ⟨hbound, hobjects⟩ := (h.run.store.newFrame (some f.closure)).bindAll
    r.machine.store.frames.size (f.kind != .setter) (f.declaration.parameters.zip arguments)
    fun p hp => harguments p.2 (List.of_mem_zip hp).2
  exact leaves_ok h rfl (Nat.le_of_eq hobjects.symm)
    (hbound.mono (List.subset_append_left _ _)) fun _ => trivial

/-- The result of a call was returned or stood in the store. -/
theorem callResult_leaves (h : Vouched around r) (f : Function) {flow : Flow}
    (hflow : ∀ v ∈ Flow.values flow, r.Attests v) :
    Leaves around mark (callResult f flow) r fun v r' => r'.Attests v := by
  refine leaves_quiet h (.callResult f flow) fun v m r' hx hlater => ?_
  unfold callResult at hx
  split at hx
  next =>
    cases hx
    exact Run.Attests.later (h.run.store.getAt?_getD f.closure 0 "this") hlater
  next =>
    cases flow with
    | returned value =>
      cases hx
      exact Run.Attests.later (hflow _ List.mem_cons_self) hlater
    | _ =>
      cases hx
      trivial

/-! ## Functions and methods -/

/-- A function made by itself is no initializer, so nothing need attest to it. -/
theorem makeFunction_leaves (h : Vouched around r) (d : FunctionDecl) :
    Leaves around mark (makeFunction d) r fun f r' => r'.Attests (.function f) :=
  leaves_ok h rfl (Nat.le_refl _) ((h.run.store.drawn _).mono (List.subset_append_left _ _))
    fun _ hinit => nomatch hinit

/-- A function is made and bound to its name. -/
theorem declareFunction_leaves (h : Vouched around r) (d : FunctionDecl) :
    Leaves around mark (declareFunction d) r fun _ _ => True := by
  let f : Function := ⟨r.machine.store.nextSerial, d, r.machine.current, false, .method⟩
  have hf : (Value.function f).Attested r.history.log r.machine.store.objects.size :=
    fun hinit => nomatch hinit
  have hstore := (h.run.store.drawn (r.machine.store.nextSerial + 1)).define r.machine.current
    (f.name?.getD "") false hf
  exact leaves_ok h (b := ()) (m := { r.machine with store := _ }) rfl (Nat.le_refl _)
    (hstore.mono (List.subset_append_left _ _)) fun _ => trivial

/-- A member that is an initializer is an ordinary method `init`, so its methods are attested. -/
theorem bind_leaves (h : Vouched around r) {g : Function} {receiver : Value}
    (hg : g.isInitializer = true → OrdinaryInit r.history.log g) (hreceiver : r.Attests receiver) :
    Leaves around (.method g) (Eval.bind g receiver) r fun f r' => r'.Attests (.function f) := by
  have hlog := List.subset_append_left r.history.log
  refine leaves_ok h rfl (Nat.le_refl _)
    ((((h.run.store.newFrame (some g.closure)).define r.machine.store.frames.size "this" false
      hreceiver).drawn _).mono (hlog _)) fun _ hinit => ?_
  refine ⟨g, receiver, ⟨_, List.mem_append_right _ (List.mem_singleton_self _), _, rfl, rfl⟩, ?_⟩
  exact (hg hinit).mono (hlog _)

/-- What is found for `super`: a member of the class that is bound to it, and a receiver. -/
theorem inheritedSource_leaves (h : Vouched around r) (site : Site) (keyword method : Token) :
    Leaves around mark (inheritedSource site keyword method) r fun source r' =>
      (source.1.isInitializer = true → OrdinaryInit r'.history.log source.1) ∧
        r'.Attests source.2 := by
  refine leaves_quiet h (.inheritedSource site keyword method) fun source m r' hx hlater => ?_
  unfold inheritedSource at hx
  rw [get_bind] at hx
  cases hdistance : r.machine.table[site]? with
  | none =>
    rw [hdistance] at hx
    cases hx
  | some d =>
    rw [hdistance] at hx
    dsimp only at hx
    cases hparent : r.machine.store.getAt? r.machine.current d "super" with
    | none =>
      rw [hparent] at hx
      cases hx
    | some parent =>
      have hclass := h.run.store.getAt? hparent
      rw [hparent] at hx
      cases parent with
      | cls c =>
        dsimp only at hx
        cases hf : (c.findMethod method.lexeme).or (c.findClassMethod method.lexeme) with
        | none =>
          rw [hf] at hx
          cases hx
        | some f =>
          rw [hf] at hx
          cases hx
          refine ⟨fun hinit => ?_, Run.Attests.later (h.run.store.getAt?_getD _ _ _) hlater⟩
          rcases Option.or_eq_some_iff.mp hf with hf | ⟨_, hf⟩
          · exact (Class.Attested.findMethod hclass hf hinit).mono hlater.log
          · cases (Class.Attested.findClassMethod hclass hf).symm.trans hinit
      | _ => cases hx

/-! ## Classes and instances -/

/-- The class that is made is declared at the moment of this step. -/
theorem declareClass_leaves (h : Vouched around r) (d : ClassDecl) {superclass : Option Class}
    (hsuper : ∀ c ∈ superclass, c.Attested r.history.log) :
    Leaves around (.members d) (declareClass d superclass) r fun _ _ => True := by
  obtain ⟨c, n, hmade, hc, -⟩ := makeClass_ok d superclass r.machine
  let m₁ : Machine :=
    { r.machine with
      store := r.machine.store.define r.machine.current d.name.lexeme .nil false }
  let m₂ : Machine := drawn n { m₁ with store := memberStore superclass m₁ }
  let m : Machine := { m₂ with store := m₂.store.define m₂.current d.name.lexeme (.cls c) false }
  have hrun : declareClass d superclass r.machine = .ok () m := by
    rw [declareClass_eq]
    exact ok_bind hmade
  -- the store before the name of the class is bound to it
  have hnamed : m₁.store.Attested r.history.log :=
    h.run.store.define r.machine.current d.name.lexeme false trivial
  obtain ⟨hstore, hobjects⟩ := hnamed.memberStore hsuper
  let ev := r.stepping around (.members d) none m
  have hlog : r.history.log ⊆ r.history.log ++ [ev] := List.subset_append_left _ _
  have hclass : (Value.cls c).Attested (r.history.log ++ [ev]) m₂.store.objects.size := by
    intro e he
    rw [Class.lineage_eq, hc] at he
    rcases List.mem_cons.mp he with rfl | he
    · exact ⟨ev, List.mem_append_right _ (List.mem_singleton_self _), d, superclass, _, m, rfl,
        hmade, rfl⟩
    · cases superclass with
      | none => cases he
      | some parent => exact (hsuper parent rfl e he).mono hlog
  exact leaves_ok h hrun (Nat.le_of_eq hobjects.symm)
    (((hstore.drawn n).mono hlog).define m₂.current d.name.lexeme false hclass) fun _ => trivial

/-- The superclass is the value of its clause. -/
theorem superclassOf_leaves (h : Vouched around r) (d : ClassDecl) (clause : Expr) {value : Value}
    (hvalue : r.Attests value) :
    Leaves around mark (superclassOf d clause value) r fun c r' => r'.Attests (.cls c) := by
  refine leaves_quiet h (.superclassOf d clause value) fun c m r' hx hlater => ?_
  unfold superclassOf at hx
  split at hx
  next =>
    cases hx
    exact Run.Attests.later hvalue hlater
  next => split at hx <;> cases hx

/-- A new object has the next number. -/
theorem newObject_leaves (h : Vouched around r) {c : Class} (hc : r.Attests (.cls c)) :
    Leaves around mark (fromStore fun s => s.newObject c) r fun o r' =>
      o.cls = c ∧ r'.Attests (.object o) := by
  have hsize : (r.machine.store.newObject c).2.objects.size = r.machine.store.objects.size + 1 :=
    Array.size_push ..
  refine leaves_ok h rfl (Nat.le_trans (Nat.le_succ _) (Nat.le_of_eq hsize.symm))
    ((h.run.store.newObject c).mono (List.subset_append_left _ _)) fun hlater => ⟨rfl, ?_, ?_⟩
  · exact Nat.lt_of_lt_of_eq (Nat.lt_succ_self _) hsize.symm
  · exact Run.Attests.later (v := .cls c) hc hlater

/-- A field keeps an attested value. -/
theorem setField_leaves (h : Vouched around r) (o : Object) (name : String) {value : Value}
    (hvalue : r.Attests value) :
    Leaves around mark (modifyStore fun s => s.setField o name value) r fun _ _ => True :=
  leaves_ok h rfl (Nat.le_of_eq (Array.size_modify ..).symm)
    ((h.run.store.setField o name hvalue).mono (List.subset_append_left _ _)) fun _ => trivial

/-- What a field holds stood in the store. -/
theorem field_leaves (h : Vouched around r) (o : Object) (name : String) :
    Leaves around mark (return (← get).store.field? o name) r fun v? r' =>
      ∀ v ∈ v?, r'.Attests v := by
  refine leaves_quiet h (.bind .get fun m => .pure _) fun v? m r' hx hlater v hv => ?_
  cases hx
  exact Run.Attests.later (h.run.store.fields o name v hv) hlater

/-! ## Values without functions, classes and objects -/

/-- What is read needs no attesting. -/
theorem typedLine_leaves (h : Vouched around r) (keyword : Token) :
    Leaves around mark (takeLine >>= typedValue keyword) r fun v r' => r'.Attests v :=
  leaves_quiet h (.typedLine keyword) fun _ _ _ hx _ => .of_bare (typedLine_bare hx)

/-- What a unary operator gives needs no attesting. -/
theorem unary_leaves (h : Vouched around r) (operator : Token) (value : Value) :
    Leaves around mark (ofExcept operator (Value.unary operator.kind value)) r
      fun v r' => r'.Attests v := by
  refine leaves_quiet h (.ofExcept operator _) fun v m r' hx _ => ?_
  cases hv : Value.unary operator.kind value with
  | error cause =>
    rw [hv] at hx
    cases hx
  | ok a =>
    rw [hv] at hx
    cases hx
    exact .of_bare (Value.unary_bare hv)

/-- What a binary operator gives needs no attesting, unless it is the right operand. -/
theorem binary_leaves (h : Vouched around r) (operator : Token) (a : Value) {b : Value}
    (hb : r.Attests b) :
    Leaves around mark (ofExcept operator (Value.binary operator.kind a b)) r
      fun v r' => r'.Attests v := by
  refine leaves_quiet h (.ofExcept operator _) fun v m r' hx hlater => ?_
  cases hv : Value.binary operator.kind a b with
  | error cause =>
    rw [hv] at hx
    cases hx
  | ok c =>
    rw [hv] at hx
    cases hx
    rcases Value.binary_bare hv with rfl | hbare
    · exact Run.Attests.later hb hlater
    · exact .of_bare hbare

/-- What a native function gives needs no attesting. -/
theorem callNative_leaves (h : Vouched around r) (n : Native) (paren : Token)
    (arguments : List Value) :
    Leaves around mark (callNative n paren arguments) r fun v r' => r'.Attests v := by
  refine leaves_quiet h (.callNative n paren arguments) fun v m r' hx _ => ?_
  unfold callNative at hx
  rcases hresult : n.apply arguments r.machine.host with ⟨_ | w, host⟩
  · rw [hresult] at hx
    cases hx
  · rw [hresult] at hx
    cases hx
    exact .of_bare (Native.apply_bare hresult)

/-- Printing keeps no value. -/
theorem print_leaves (h : Vouched around r) (keyword : Token) (value : Value) :
    Leaves around mark (print keyword value) r fun _ _ => True :=
  leaves_quiet h (.print keyword value) fun _ _ _ _ _ => trivial

end Steps

end Lox.Eval
