import Lox.Proofs.Session.History
import Lox.Proofs.Store.Reachable

/-!
# The scopes of a session are well formed

At any moment of a session, from anything that the program holds on to, only frames can be reached
whose chains end at the globals, and only classes that are younger than their superclasses. This
does not depend on resolving: it holds of texts that are run without it or in spite of its errors,
of runs that fail and of runs that are cut short (`Chronicle.scopes_grounded`).
-/

namespace Lox

namespace Eval

/-! ## What a program holds on to -/

/-- The values that a task works on. -/
def Task.values : Task → List Value
  | .property f => [.function f]
  | .objectProperty o _ => [.object o]
  | .call callee _ arguments => callee :: arguments
  | .invoke f arguments => .function f :: arguments
  | .statement _ | .statements _ | .rounds _ _ _ | .clause _ | .expression _ | .optional _
  | .expressions _ => []

/-- The value that is returned. -/
def Flow.values : Flow → List Value
  | .returned value => [value]
  | .normal | .breakLoop | .continueLoop => []

/-- The values that a task gives. -/
def Task.given : (t : Task) → t.Result → List Value
  | .statement _, flow | .statements _, flow | .rounds _ _ _, flow => Flow.values flow
  | .clause _, superclass => (superclass : Option Class).toList.map .cls
  | .expressions _, values => values
  | .expression _, v | .optional _, v | .property _, v | .objectProperty _ _, v | .call _ _ _, v
  | .invoke _ _, v => [v]

/-- What a program may hold on to after these moments: the frames it is or was in, the values that
tasks work or worked on, and those that tasks gave. -/
inductive Holds (past : List Event) (m : Machine) : Node → Prop where
  | globals : Holds past m (.frame m.globals)
  | current : Holds past m (.frame m.current)
  | entered {ev : Event} (hev : ev ∈ past) : Holds past m (.frame ev.machine.current)
  | operand {ev : Event} {t : Task} {v : Value} (hev : ev ∈ past) (ht : t ∈ ev.around.tasks)
      (hv : v ∈ t.values) : Holds past m (.value v)
  | result {ev : Event} {t : Task} {a : t.Result} {v : Value} (hev : ev ∈ past)
      (hend : ev.occurrence = .ends t a) (hv : v ∈ t.given a) : Holds past m (.value v)

variable {P : Token → Prop} {s : Store}

theorem Task.Proper.values {t : Task} (h : t.Proper P s) : ∀ v ∈ t.values, v.Proper P s := by
  cases t with
  | property f => exact List.forall_mem_singleton.mpr h
  | objectProperty o name => exact List.forall_mem_singleton.mpr h.1
  | call callee paren arguments => exact List.forall_mem_cons.mpr ⟨h.1, h.2.2⟩
  | invoke f arguments => exact List.forall_mem_cons.mpr ⟨h.1, h.2⟩
  | _ => exact fun _ hv => nomatch hv

theorem Flow.Proper.values {flow : Flow} (h : flow.Proper P s) :
    ∀ v ∈ Flow.values flow, v.Proper P s := by
  cases flow with
  | returned value => exact List.forall_mem_singleton.mpr h
  | _ => exact fun _ hv => nomatch hv

theorem Task.Gives.given {t : Task} {a : t.Result} (h : t.Gives P s a) :
    ∀ v ∈ t.given a, v.Proper P s := by
  cases t with
  | statement st => exact Flow.Proper.values h
  | statements ss => exact Flow.Proper.values h
  | rounds condition body increment => exact Flow.Proper.values h
  | clause d =>
    intro v hv
    obtain ⟨c, hc, rfl⟩ := List.mem_map.mp hv
    exact h c (Option.mem_toList.mp hc)
  | expressions es => exact h
  | expression e => exact List.forall_mem_singleton.mpr h
  | optional e => exact List.forall_mem_singleton.mpr h
  | property f => exact List.forall_mem_singleton.mpr h
  | objectProperty o name => exact List.forall_mem_singleton.mpr h
  | call callee paren arguments => exact List.forall_mem_singleton.mpr h
  | invoke f arguments => exact List.forall_mem_singleton.mpr h

/-- All that is held on to is proper, now that the store has grown. -/
theorem Holds.proper {past : List Event} {m : Machine} (hm : m.Proper P)
    (hpast : ∀ ev ∈ past, ev.Proper P ∧ ev.machine.store.Grows m.store) {a : Node}
    (h : Holds past m a) : a.Proper P m.store := by
  cases h with
  | globals => exact hm.store.there
  | current => exact hm.current
  | entered hev =>
    exact Nat.lt_of_lt_of_le (hpast _ hev).1.machine.current (hpast _ hev).2.size
  | operand hev ht hv =>
    exact (((hpast _ hev).1.tasks _ ht).values _ hv).grows (hpast _ hev).2
  | result hev hend hv =>
    exact (Task.Gives.given ((hpast _ hev).1.result _ _ hend) _ hv).grows (hpast _ hev).2

end Eval

/-- The frame that a function closes over. -/
def Value.closure? : Value → Option FrameId
  | .function f => some f.closure
  | _ => none

open Eval

namespace Chronicle

/-! ## States of a session -/

/-- The session was in this state, after these moments. -/
inductive Passed (c : Chronicle) : List Event → Machine → Prop where
  | before {past later : List Event} {ev : Event}
      (h : c.run.history.log = past ++ ev :: later) : c.Passed (past ++ [ev]) ev.machine
  | after {past later : List Event} {ev : Event}
      (h : c.run.history.log = past ++ ev :: later) : c.Passed (past ++ [ev]) ev.after
  | now : c.Passed c.run.history.log c.run.machine

variable {P : Token → Prop} {c : Chronicle} {past : List Event} {m : Machine}

/-- In every state the machine is proper, the moments up to it came before, and the session goes on
from it to where it is now. -/
structure Traversed (P : Token → Prop) (c : Chronicle) (past : List Event) (m : Machine) :
    Prop where
  machine : m.Proper P
  past : ∀ ev ∈ past, ev.Proper P ∧ ev.machine.store.Grows m.store
  globals : m.globals = c.run.machine.globals
  grows : m.store.Grows c.run.machine.store

theorem Orderly.traversed (h : c.Orderly P) (hm : c.Passed past m) : c.Traversed P past m := by
  -- the moments up to one of the log come before it
  have hsplit : ∀ {past later : List Event} {ev : Event},
      c.run.history.log = past ++ ev :: later →
        ev.Orderly P c.run ∧
          ∀ ev' ∈ past ++ [ev], ev'.Proper P ∧ ev'.machine.store.Grows ev.machine.store := by
    intro past later ev hlog
    have hmem : ∀ ev' ∈ past ++ [ev], ev' ∈ c.run.history.log := by
      intro ev' hev'
      rw [hlog, List.append_cons]
      exact List.mem_append_left _ hev'
    have horder := h.order
    rw [hlog, List.pairwise_append] at horder
    refine ⟨h.log ev (hmem ev (List.mem_append_right _ (List.mem_singleton_self ev))),
      fun ev' hev' => ⟨(h.log ev' (hmem ev' hev')).proper, ?_⟩⟩
    rcases List.mem_append.mp hev' with hev' | hev'
    · have hproper := (h.log ev' (hmem ev' (List.mem_append_left _ hev'))).proper
      exact hproper.after.grows.trans (horder.2.2 ev' hev' ev List.mem_cons_self)
    · rw [List.mem_singleton.mp hev']
      exact .refl _
  cases hm with
  | before hlog =>
    obtain ⟨hev, hpast⟩ := hsplit hlog
    exact ⟨hev.proper.machine, hpast, hev.globals, hev.proper.after.grows.trans hev.grows⟩
  | @after _ _ ev hlog =>
    obtain ⟨hev, hpast⟩ := hsplit hlog
    have hafter := hev.proper.after
    refine ⟨hafter.proper, fun ev' hev' => ?_, hafter.globals.trans hev.globals, hev.grows⟩
    exact ⟨(hpast ev' hev').1, (hpast ev' hev').2.trans hafter.grows⟩
  | now =>
    refine ⟨h.machine, fun ev hev => ?_, rfl, .refl _⟩
    exact ⟨(h.log ev hev).proper, (h.log ev hev).proper.after.grows.trans (h.log ev hev).grows⟩

/-- Scopes are well formed in every state of every session. A frame's parent is an earlier frame,
now and for as long as the session lasts, and only the globals have none. From all that the program
holds on to, only frames are reached from which parents lead to the globals in finitely many steps,
and only classes that were made after their superclasses, so looking up names and members ends. -/
theorem scopes_grounded (input : Input) (output : Output) (host : Host) (deeds : Deeds) :
    let c := performAll deeds (start input output host)
    (∀ past m past' m', c.Passed past m → c.Passed past' m' → m.globals = m'.globals ∧
      ∀ frame, frame < m.store.frames.size → frame < m'.store.frames.size →
        m.store.parent? frame = m'.store.parent? frame) ∧
    ∀ past m, c.Passed past m →
      (∀ frame parent, m.store.parent? frame = some parent → parent < frame) ∧
      (∀ frame, frame < m.store.frames.size →
        (m.store.parent? frame = none ↔ frame = m.globals)) ∧
      ∀ a b, Holds past m a → m.store.Reaches a b →
        (∀ frame, b = .frame frame → ∃ fs, m.store.Grounded m.globals frame fs) ∧
        (∀ f, b = .value (.function f) → ∃ fs, m.store.Grounded m.globals f.closure fs) ∧
        (∀ d, b = .value (.cls d) → d.Grounded) ∧
        ∀ o, b = .value (.object o) → o.cls.Grounded := by
  intro c
  have hc := performAll_orderly input output host deeds
  refine ⟨fun past m past' m' hm hm' => ?_, fun past m hm => ?_⟩
  · have h := hc.traversed hm
    have h' := hc.traversed hm'
    refine ⟨h.globals.trans h'.globals.symm, fun frame hlt hlt' => ?_⟩
    rw [← h.grows.parent frame hlt, ← h'.grows.parent frame hlt']
  have h := hc.traversed hm
  have hstore := h.machine.store
  refine ⟨fun frame parent hp => hstore.parent_lt hp,
    fun frame hlt => hstore.parent?_eq_none_iff hlt, fun a b ha hab => ?_⟩
  -- whatever is reached from something proper is proper
  have hb := hstore.reaches hab (ha.proper h.machine h.past)
  refine ⟨?_, ?_, ?_, ?_⟩
  · rintro frame rfl
    exact hstore.grounded hb
  · rintro f rfl
    exact hstore.grounded (Function.Proper.closure hb)
  · rintro d rfl
    exact Class.Proper.grounded hb
  · rintro o rfl
    exact Class.Proper.grounded hb

/-- A frame may be reached from itself by way of the values it holds: here a function closes over
the globals, which bind it. Its chain ends all the same. -/
theorem scopes_grounded_cycle :
    let c := performAll [(9, .runLeniently false "fun f() { f; }")]
      (start ⟨[]⟩ {} ⟨fun _ => 0, fun _ => 0, 0, 0⟩)
    let m := c.run.machine
    ∃ f : Function, m.store.Leads (.frame m.globals) (.value (.function f)) ∧
      m.store.Leads (.value (.function f)) (.frame m.globals) ∧
        ∃ fs, m.store.Grounded m.globals f.closure fs := by
  have hgrounded := scopes_grounded ⟨[]⟩ {} ⟨fun _ => 0, fun _ => 0, 0, 0⟩
    [(9, .runLeniently false "fun f() { f; }")]
  have hbound : ((performAll [(9, .runLeniently false "fun f() { f; }")]
      (start ⟨[]⟩ {} ⟨fun _ => 0, fun _ => 0, 0, 0⟩)).run.machine.store.binding? 0 "f").bind
        (fun b => b.value.closure?) = some 0 := by
    decide +kernel
  have hglobals : (performAll [(9, .runLeniently false "fun f() { f; }")]
      (start ⟨[]⟩ {} ⟨fun _ => 0, fun _ => 0, 0, 0⟩)).run.machine.globals = 0 := by
    decide +kernel
  generalize performAll [(9, .runLeniently false "fun f() { f; }")]
    (start ⟨[]⟩ {} ⟨fun _ => 0, fun _ => 0, 0, 0⟩) = c at hgrounded hbound hglobals ⊢
  intro c m
  obtain ⟨⟨value, mutable⟩, hb, hvalue⟩ := Option.bind_eq_some_iff.mp hbound
  cases value with
  | function f =>
    have hclosure : f.closure = m.globals := (Option.some.inj hvalue).trans hglobals.symm
    have hleads : m.store.Leads (.frame m.globals) (.value (.function f)) := by
      rw [show m.globals = 0 from hglobals]
      exact .binding hb
    have hreached := (hgrounded.2 _ _ .now).2.2 _ _ .globals (.single hleads)
    exact ⟨f, hleads, hclosure ▸ .closure f, hreached.2.1 f rfl⟩
  | _ => cases hvalue

end Chronicle

end Lox
