import Lox.Proofs.Run.Makers

/-!
# Every activation binds all its parameters

A call expression counts its arguments, but a getter that is read, a setter that is assigned to and
the initializer of a class that is called run without anything being counted. What they rely on is
that the members of classes are regular (`Class.Regular`): whichever class of the line of
superclasses a member is found in, as a getter it has no parameters, and under a name that ends in
`=` it is a setter with one. `Chronicle.activations_complete`: at every moment of a session all
values are regular, every call that is at work has as many arguments as its callee takes, and the
frame of a function binds each parameter and nothing else.
-/

namespace Lox

/-! ## Regular values -/

/-- A getter has no parameters. -/
def Function.Regular (f : Function) : Prop :=
  f.kind = .getter → f.declaration.parameters = []

/-- The members that are found in a class suit the ways in which they are called. -/
structure Class.Regular (c : Class) : Prop where
  method : ∀ name f, c.findMethod name = some f → f.Regular
  setter : ∀ name f, c.findMethod name = some f → name.toList.getLast? = some '=' →
    f.kind = .setter ∧ ∃ parameter, f.declaration.parameters = [parameter]
  classMethod : ∀ name f, c.findClassMethod name = some f → f.Regular

/-- The functions and classes in the value are regular. -/
def Value.Regular : Value → Prop
  | .function f => f.Regular
  | .cls c => c.Regular
  | .object o => o.cls.Regular
  | .nil | .bool _ | .number _ | .string _ | .native _ _ => True

/-- All values in frames and fields are regular. -/
structure Store.Regular (s : Store) : Prop where
  bindings : ∀ frame name b, s.binding? frame name = some b → b.value.Regular
  fields : ∀ o name v, s.field? o name = some v → v.Regular

namespace Eval

/-- The task works on regular values, and if it calls one, then with as many arguments as that
takes. -/
def Task.Regular : Task → Prop
  | .property f => f.Regular
  | .objectProperty o _ => o.cls.Regular
  | .call callee _ arguments =>
    callee.Regular ∧ (∀ v ∈ arguments, v.Regular) ∧ callee.arity? = some arguments.length
  | .invoke f arguments =>
    f.Regular ∧ (∀ v ∈ arguments, v.Regular) ∧ arguments.length = f.declaration.parameters.length
  | .statement _ | .statements _ | .rounds _ _ _ | .clause _ | .expression _ | .optional _
  | .expressions _ => True

/-- What the task gives is regular. -/
def Task.GivesRegular : (t : Task) → t.Result → Prop
  | .statement _, flow | .statements _, flow | .rounds _ _ _, flow =>
    ∀ v, flow = .returned v → v.Regular
  | .clause _, c => ∀ c', c = some c' → c'.Regular
  | .expressions _, values => ∀ v ∈ values, v.Regular
  | .expression _, v | .optional _, v | .property _, v | .objectProperty _ _, v | .call _ _ _, v
  | .invoke _ _, v => v.Regular

/-- All values at a moment are regular, and all calls are complete. -/
def regularity : Watch :=
  ⟨Store.Regular, Task.Regular, Task.GivesRegular⟩

/-! ## What runs know is regular -/

section Known

variable {r : Run}

theorem Run.Made.regular {f : Function} (h : r.Made f) : f.Regular :=
  fun hkind => List.eq_nil_of_length_eq_zero (h.getter hkind)

/-- A name that ends in `=` is that of a setter. -/
theorem exists_setterName {name : String} (h : name.toList.getLast? = some '=') :
    ∃ property, name = setterName property := by
  refine ⟨String.ofList name.toList.dropLast, String.toList_inj.mp ?_⟩
  rw [setterName, String.toList_append, String.toList_ofList]
  exact (List.dropLast_append_getLast? '=' h).symm

theorem Run.KnowsClass.regular {c : Class} (h : r.KnowsClass c) : c.Regular where
  method name f hf := (h.method name f hf).toMade.regular
  setter name f hf hname := by
    obtain ⟨property, rfl⟩ := exists_setterName hname
    obtain ⟨hkind, harity⟩ := h.setter property f hf
    exact ⟨hkind, List.length_eq_one_iff.mp harity⟩
  classMethod name f hf := (h.classMethod name f hf).toMade.regular

theorem Run.KnowsValue.regular {v : Value} (h : r.KnowsValue v) : v.Regular := by
  cases v with
  | function f => exact (Run.KnowsFunction.toMade h).regular
  | cls c => exact Run.KnowsClass.regular h
  | object o => exact Run.KnowsClass.regular h
  | _ => trivial

theorem Task.Ready.regular {spot : Spot} {around : Surroundings} {t : Task}
    (h : t.Ready spot around r) : t.Regular := by
  cases t with
  | property f => exact (Run.KnowsFunction.toMade h).regular
  | objectProperty o name => exact Run.KnowsClass.regular h
  | call callee paren arguments => exact ⟨h.1.regular, fun v hv => (h.2.1 v hv).regular, h.2.2⟩
  | invoke f arguments => exact ⟨h.1.toMade.regular, fun v hv => (h.2.1 v hv).regular, h.2.2⟩
  | _ => trivial

theorem Task.Ended.regular {spot : Spot} {around : Surroundings} {t : Task} {result : t.Result}
    (h : t.Ended spot around r result) : t.GivesRegular result := by
  cases t with
  | statement s => exact fun v hv => (h.value v hv).regular
  | statements ss => exact fun v hv => (Awaited.value h v hv).regular
  | rounds condition body increment => exact fun v hv => (h.1.value v hv).regular
  | clause d => exact fun c hc => (h.1 c hc).regular
  | expressions es => exact fun v hv => (h v hv).regular
  | expression e => exact Run.KnowsValue.regular h
  | optional e => exact Run.KnowsValue.regular h
  | property f => exact Run.KnowsValue.regular h
  | objectProperty o name => exact Run.KnowsValue.regular h
  | call callee paren arguments => exact Run.KnowsValue.regular h
  | invoke f arguments => exact Run.KnowsValue.regular h

theorem lexical_regular : lexical.Grants regularity where
  task h := h.2.regular
  store h :=
    ⟨fun frame name b hb => (h.sound.bindings frame name b hb).regular,
      fun o name v hv => (h.sound.fields o name v hv).regular⟩
  result h := Task.Ended.regular h

end Known

/-! ## The frame of a call -/

/-- The frame binds the parameters of the function to the arguments, each to the one in its place,
and nothing else. Of parameters with the same name the last one counts. -/
structure Filled (f : Function) (arguments : List Value) (frame : FrameId) (s : Store) : Prop where
  length : arguments.length = f.declaration.parameters.length
  paired : (f.declaration.parameters.zip arguments).unzip = (f.declaration.parameters, arguments)
  bound : ∀ before p after, f.declaration.parameters = before ++ p :: after →
    (∀ q ∈ after, q.lexeme ≠ p.lexeme) →
      ∃ v, arguments[before.length]? = some v ∧
        s.binding? frame p.lexeme = some ⟨v, f.kind != .setter⟩
  only : ∀ name, s.Binds frame name ↔ ∃ p ∈ f.declaration.parameters, p.lexeme = name

/-- What names are bound to in the frame in which they were bound one after the other. -/
theorem bindAll_binding?_last {frame : FrameId} (mutable : Bool) (pairs : List (Token × Value))
    {s : Store} (hlt : frame < s.frames.size) (name : String) :
    (bindAll frame mutable pairs s).binding? frame name =
      ((pairs.reverse.find? fun p => p.1.lexeme = name).map fun p =>
        (⟨p.2, mutable⟩ : Binding)).or (s.binding? frame name) := by
  induction pairs generalizing s with
  | nil => rfl
  | cons pair pairs ih =>
    have hstep : bindAll frame mutable (pair :: pairs) s =
        bindAll frame mutable pairs (s.define frame pair.1.lexeme pair.2 mutable) := rfl
    rw [hstep, ih (by rwa [Store.define_size]), Store.define_binding?, List.reverse_cons,
      List.find?_append]
    cases pairs.reverse.find? fun p => p.1.lexeme = name with
    | some p => rfl
    | none =>
      by_cases hname : pair.1.lexeme = name <;> simp [hname, hlt]

section Pairs

variable {parameters : List Token} {arguments : List Value}

/-- Names that parameters have are found among the pairs of parameters and arguments, if none of
them is left out. -/
theorem find?_pairs_isSome (hlength : arguments.length = parameters.length) (name : String) :
    ((parameters.zip arguments).reverse.find? fun q => q.1.lexeme = name).isSome ↔
      ∃ p ∈ parameters, p.lexeme = name := by
  have hfst : (parameters.zip arguments).map Prod.fst = parameters :=
    List.map_fst_zip (Nat.le_of_eq hlength.symm)
  rw [List.find?_isSome]
  constructor
  · rintro ⟨q, hq, hname⟩
    exact ⟨q.1, (List.of_mem_zip (List.mem_reverse.mp hq)).1, of_decide_eq_true hname⟩
  · rintro ⟨p, hp, rfl⟩
    rw [← hfst] at hp
    obtain ⟨q, hq, rfl⟩ := List.mem_map.mp hp
    exact ⟨q, List.mem_reverse.mpr hq, decide_eq_true rfl⟩

/-- The last pair with the name of a parameter that no later one shares is that of the parameter and
the argument in its place. -/
theorem find?_pairs_last (hlength : arguments.length = parameters.length)
    {before after : List Token} {p : Token} (hsplit : parameters = before ++ p :: after)
    (hlast : ∀ q ∈ after, q.lexeme ≠ p.lexeme) :
    ∃ v, arguments[before.length]? = some v ∧
      ((parameters.zip arguments).reverse.find? fun q => q.1.lexeme = p.lexeme) = some (p, v) := by
  subst hsplit
  have hplace : before.length < arguments.length := by
    rw [hlength, List.length_append, List.length_cons]
    omega
  -- the arguments are split where the parameters are
  have harguments := List.take_append_drop before.length arguments
  rw [List.drop_eq_getElem_cons hplace] at harguments
  have hzip : (before ++ p :: after).zip arguments =
      before.zip (arguments.take before.length) ++
        (p, arguments[before.length]) :: after.zip (arguments.drop (before.length + 1)) := by
    conv_lhs => rw [← harguments]
    rw [List.zip_append (by rw [List.length_take, Nat.min_eq_left (Nat.le_of_lt hplace)]),
      List.zip_cons_cons]
  have hafter : ((after.zip (arguments.drop (before.length + 1))).reverse.find? fun q =>
      q.1.lexeme = p.lexeme) = none := by
    refine List.find?_eq_none.mpr fun q hq => ?_
    rw [decide_eq_true_iff]
    exact hlast q.1 (List.of_mem_zip (List.mem_reverse.mp hq)).1
  refine ⟨arguments[before.length], List.getElem?_eq_getElem hplace, ?_⟩
  rw [hzip, List.reverse_append, List.reverse_cons, List.find?_append, List.find?_append, hafter]
  simp

end Pairs

/-- A call with as many arguments as there are parameters fills its frame. -/
theorem callFrame_filled {f : Function} {arguments : List Value} {frame : FrameId}
    {m m' : Machine} (h : callFrame f arguments m = .ok frame m')
    (hlength : arguments.length = f.declaration.parameters.length) :
    frame = m.store.frames.size ∧ Filled f arguments frame m'.store := by
  cases h
  let s : Store := (m.store.newFrame (some f.closure)).2
  have hlt : m.store.frames.size < s.frames.size :=
    Nat.lt_of_lt_of_eq (Nat.lt_succ_self _) (Store.newFrame_size ..).symm
  have hbinding : ∀ name, (bindAll m.store.frames.size (f.kind != .setter)
      (f.declaration.parameters.zip arguments) s).binding? m.store.frames.size name =
        ((f.declaration.parameters.zip arguments).reverse.find? fun p =>
          p.1.lexeme = name).map fun p => ⟨p.2, f.kind != .setter⟩ := by
    intro name
    have hnone : s.binding? m.store.frames.size name = none :=
      (Store.newFrame_binding? ..).trans (Store.binding?_of_size_le (Nat.le_refl _) name)
    rw [bindAll_binding?_last _ _ hlt, hnone, Option.or_none]
  refine ⟨rfl, hlength, List.unzip_zip hlength.symm, fun before p after hsplit hlast => ?_,
    fun name => ?_⟩
  · obtain ⟨v, hv, hfound⟩ := find?_pairs_last hlength hsplit hlast
    exact ⟨v, hv, (hbinding p.lexeme).trans (by rw [hfound]; rfl)⟩
  · rw [← find?_pairs_isSome hlength name, ← Option.isSome_map, ← hbinding name]
    exact Option.isSome_iff_exists.symm

/-- The call whose frame is made at this moment, and the machine afterwards. -/
def Event.call? (ev : Event) : Option (Function × List Value × Machine) :=
  match ev.around.tasks, ev.occurrence with
  | .invoke f arguments :: _, .step (.frame (.call _)) _ after => some (f, arguments, after)
  | _, _ => none

theorem Event.call?_some {ev : Event} {f : Function} {arguments : List Value} {after : Machine}
    (h : ev.call? = some (f, arguments, after)) :
    ∃ outer d halt, ev.around.tasks = .invoke f arguments :: outer ∧
      ev.occurrence = .step (.frame (.call d)) halt after := by
  unfold Event.call? at h
  split at h
  next htasks hstep =>
    cases h
    exact ⟨_, _, _, htasks, hstep⟩
  next => cases h

end Eval

open Eval

namespace Chronicle

/-- At every moment of a session, all values in the store, in the tasks at work and in results are
regular, so members suit the ways in which they are called, and every call at work has as many
arguments as its callee takes, natives included. The frame that the call of a function makes binds
each parameter to the argument in its place, and nothing else. -/
theorem activations_complete (input : Input) (output : Output) (host : Host) (fuel : Nat)
    (steps : List Step) :
    ∀ ev ∈ (takeAll fuel steps (start input output host)).run.history.log,
      regularity.Holds ev ∧
      (∀ f arguments outer, ev.around.tasks = .invoke f arguments :: outer →
        arguments.length = f.declaration.parameters.length ∧
        ∀ d halt after, ev.occurrence = .step (.frame (.call d)) halt after →
          halt = none ∧ d = f.declaration ∧
            Filled f arguments ev.machine.store.frames.size after.store) ∧
      ∀ n serial paren arguments outer,
        ev.around.tasks = .call (.native n serial) paren arguments :: outer →
          arguments.length = n.arity := by
  intro ev hev
  have hholds := (takeAll_watched input output host lexical_regular fuel steps).2 ev hev
  refine ⟨hholds, fun f arguments outer htasks => ?_,
    fun n serial paren arguments outer htasks => ?_⟩
  · have hregular := hholds.tasks (.invoke f arguments) (htasks ▸ List.mem_cons_self)
    refine ⟨hregular.2.2, fun d halt after hstep => ?_⟩
    -- only a block and a call make such a frame, and the innermost task is the call
    rcases steps_perform input output host fuel steps hev _ _ _ hstep with
      ⟨_, hblock⟩ | ⟨rfl, g, arguments', outer', frame, htasks', hregion, hrun⟩
    · cases hblock
    · cases hregion
      cases htasks.symm.trans htasks'
      obtain ⟨rfl, hfilled⟩ := callFrame_filled hrun hregular.2.2
      exact ⟨rfl, rfl, hfilled⟩
  · have hregular := hholds.tasks (.call (.native n serial) paren arguments)
      (htasks ▸ List.mem_cons_self)
    exact (Option.some.inj hregular.2.2).symm

/-- A setter of a superclass that an instance made by an initializer is assigned to through. -/
theorem activations_complete_setter :
    ∃ ev ∈ (takeAll 20 [.run "class A \x7b init(a) \x7b\x7d set x(v) \x7b\x7d \x7d
          class B < A \x7b\x7d", .run "B(nil).x = true;"]
        (start ⟨[]⟩ {} ⟨fun _ => 0, fun _ => 0, 0, 0⟩)).run.history.log,
      ∃ f arguments after, ev.call? = some (f, arguments, after) ∧ f.kind = .setter ∧
        f.Regular ∧ Filled f arguments ev.machine.store.frames.size after.store := by
  have hany : (takeAll 20 [.run "class A \x7b init(a) \x7b\x7d set x(v) \x7b\x7d \x7d
          class B < A \x7b\x7d", .run "B(nil).x = true;"]
      (start ⟨[]⟩ {} ⟨fun _ => 0, fun _ => 0, 0, 0⟩)).run.history.log.any
        (fun ev => ev.call?.any fun call => call.1.kind == .setter) = true := by
    decide +kernel
  obtain ⟨ev, hev, hcall⟩ := List.any_eq_true.mp hany
  obtain ⟨⟨f, arguments, after⟩, hcall, hkind⟩ := (Option.any_eq_true _ _).mp hcall
  obtain ⟨outer, d, halt, htasks, hstep⟩ := Event.call?_some hcall
  obtain ⟨hholds, hfunction, -⟩ :=
    activations_complete ⟨[]⟩ {} ⟨fun _ => 0, fun _ => 0, 0, 0⟩ 20 _ ev hev
  have hregular := hholds.tasks (.invoke f arguments) (htasks ▸ List.mem_cons_self)
  exact ⟨ev, hev, f, arguments, after, hcall, eq_of_beq hkind, hregular.1,
    ((hfunction f arguments outer htasks).2 d halt after hstep).2.2⟩

end Chronicle

end Lox
