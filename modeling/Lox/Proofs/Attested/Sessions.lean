import Lox.Proofs.Attested.Evaluation
import Lox.Proofs.Run.Sessions

/-!
# Sessions keep values attested

At each moment of a session the moments before it attest to all values (`Chronicle.log_attested`).
So an object that a program can get hold of at some moment has a number below the number of objects
made so far, and one that is made then is a new one (`Event.Attested.reaches_made`).
-/

namespace Lox

open Eval

/-! ## Objects that were made -/

/-- An object has one of the first so many numbers. -/
def Node.Made (objects : Nat) : Node → Prop
  | .value (.object o) => o.id < objects
  | _ => True

section Made

variable {past : List Event} {s : Store} {a b : Node}

theorem Value.Attested.made {n : Nat} {v : Value} (h : v.Attested past n) :
    (Node.value v).Made n := by
  cases v with
  | object o => exact h.1
  | _ => trivial

/-- A hop to an object goes by way of a variable or a field. -/
theorem Store.Attested.leads (h : s.Attested past) (hab : s.Leads a b) :
    b.Made s.objects.size := by
  cases hab with
  | binding hb => exact (h.bindings _ _ _ hb).made
  | field hv => exact (h.fields _ _ _ hv).made
  | _ => trivial

theorem Store.Attested.reaches (h : s.Attested past) (hab : s.Reaches a b)
    (ha : a.Made s.objects.size) : b.Made s.objects.size := by
  cases hab with
  | refl => exact ha
  | tail _ hlast => exact h.leads hlast

end Made

namespace Eval

/-- Whatever a program can reach from what it holds on to, at an attested moment after attested
ones, was made before. -/
theorem Event.Attested.reaches_made {log : List Event} {i : Nat} {ev : Event}
    (hlog : ∀ (i : Nat) (ev : Event), log[i]? = some ev → ev.Attested (log.take i))
    (hi : log[i]? = some ev) {a : Node} (ha : Holds (log.take (i + 1)) ev.machine a)
    {o : Object} (ho : ev.machine.store.Reaches a (.value (.object o))) :
    o.id < ev.machine.store.objects.size := by
  have hev := hlog i ev hi
  -- a moment up to this one is attested, when there were no more objects than now
  have hpast : ∀ old ∈ log.take (i + 1), ∃ before, old.Attested before ∧
      old.machine.store.objects.size ≤ ev.machine.store.objects.size := by
    intro old hold
    obtain ⟨k, hk, hget⟩ := List.mem_take_iff_getElem.mp hold
    obtain ⟨hki, hklog⟩ := Nat.lt_min.mp hk
    have hlogk : log[k]? = some old := by rw [List.getElem?_eq_getElem hklog, hget]
    refine ⟨_, hlog k old hlogk, ?_⟩
    rcases Nat.lt_or_eq_of_le (Nat.le_of_lt_succ hki) with hlt | rfl
    · exact hev.older old (List.mem_take_iff_getElem.mpr ⟨k, Nat.lt_min.mpr ⟨hlt, hklog⟩, hget⟩)
    · cases hlogk.symm.trans hi
      exact Nat.le_refl _
  have hnode : a.Made ev.machine.store.objects.size := by
    cases ha with
    | operand hold ht hv =>
      obtain ⟨_, hold, hle⟩ := hpast _ hold
      exact ((hold.tasks _ ht _ hv).later (fun _ => id) hle).made
    | result hold hend hv =>
      obtain ⟨_, hold, hle⟩ := hpast _ hold
      exact ((hold.result _ _ hend _ (List.mem_append_right _ hv)).later (fun _ => id) hle).made
    | _ => trivial
  exact hev.store.reaches ho hnode

end Eval

namespace Chronicle

/-! ## Whole sessions -/

/-- The run of the session is attested. -/
def Attested (c : Chronicle) : Prop :=
  c.run.Attested

theorem start_attested (input : Input) (output : Output) (host : Host) :
    (start input output host).Attested := by
  have hbare := Machine.start_bare input output host
  refine ⟨⟨fun frame name b hb => ?_, fun o name v hv => ?_⟩, fun _ h => (nomatch h),
    fun i _ h => ?_⟩
  · obtain ⟨n, serial, rfl⟩ := hbare.binding frame name b hb
    trivial
  · cases (hbare.field o name).symm.trans hv
  · cases h

theorem attested_invariant : Invariant Attested := by
  refine .of_runs (fun _ h => h) (fun _ _ h => ⟨h.store, h.older, h.log⟩) (fun fuel ss h => ?_)
    fun fuel e h => ?_
  · exact (traceProgram_attested fuel ss h).ends (fun _ hr => hr.2) fun _ hr => hr.2
  · exact (traceExpression_attested fuel e h).ends (fun _ hr => hr.2) fun _ hr => hr.2

/-- At each moment of a session, the moments before it attest to all values. -/
theorem log_attested (input : Input) (output : Output) (host : Host) (fuel : Nat)
    (steps : List Step) (i : Nat) (ev : Event)
    (hi : (takeAll fuel steps (start input output host)).run.history.log[i]? = some ev) :
    ev.Attested ((takeAll fuel steps (start input output host)).run.history.log.take i) :=
  (attested_invariant.takeAll fuel steps _ (start_attested input output host)).log i ev hi

end Chronicle

end Lox
