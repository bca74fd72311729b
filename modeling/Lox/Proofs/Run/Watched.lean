import Lox.Proofs.Run.Contract

/-!
# Watching a run

A contract speaks of where tasks start and where they end. A watch asks something of every moment in
between: of the store, of the tasks at work, and of the result where a task ends. If a contract
grants what a watch asks wherever a task starts, goes on and ends (`Contract.Grants`), then every
run under the contract stands the watch at all of its moments (`Contract.watched_layered`).
-/

namespace Lox.Eval

/-- What is asked of the moments of a run. -/
structure Watch where
  store : Store → Prop
  task : Task → Prop
  result : (t : Task) → t.Result → Prop

/-- The watch is stood at this moment. -/
structure Watch.Holds (w : Watch) (ev : Event) : Prop where
  store : w.store ev.machine.store
  tasks : ∀ t ∈ ev.around.tasks, w.task t
  result : ∀ t a, ev.occurrence = .ends t a → w.task t ∧ w.result t a

/-- The watch was stood at all moments so far. -/
def Watch.Seen (w : Watch) (r : Run) : Prop :=
  ∀ ev ∈ r.history.log, w.Holds ev

/-- One more moment at which the watch is stood. -/
theorem Watch.Seen.logged {w : Watch} {r r' : Run} {ev : Event} (h : w.Seen r)
    (hlog : r'.history.log = r.history.log ++ [ev]) (hev : w.Holds ev) : w.Seen r' := by
  intro ev' hev'
  rw [hlog] at hev'
  rcases List.mem_append.mp hev' with hold | hnew
  · exact h ev' hold
  · exact List.mem_singleton.mp hnew ▸ hev

/-- What the contract says of tasks grants what the watch asks. -/
structure Contract.Grants (c : Contract) (w : Watch) : Prop where
  task : ∀ {v t around r}, c.pre v t around r → w.task t
  store : ∀ {r r'}, c.kept r r' → w.store r'.machine.store
  result : ∀ {v t around r a r'}, c.post v t around r a r' → w.result t a

/-- The watch that asks nothing. -/
def Watch.nothing : Watch :=
  ⟨fun _ => True, fun _ => True, fun _ _ => True⟩

theorem Contract.grants_nothing {c : Contract} : c.Grants .nothing :=
  ⟨fun _ => trivial, fun _ => trivial, fun _ => trivial⟩

/-- The contract, with the watch stood all the time. -/
def Contract.watched (c : Contract) (w : Watch) : Contract where
  View := c.View
  kept r r' := c.kept r r' ∧ (w.Seen r → w.Seen r')
  halted r r' := c.halted r r' ∧ (w.Seen r → w.Seen r')
  pre v t around r := c.pre v t around r ∧ ∀ t' ∈ around.tasks, w.task t'
  post := c.post

namespace Contract

variable {c : Contract} {w : Watch}

theorem watched_lawful (hc : c.Lawful) : (c.watched w).Lawful where
  trans h h' := ⟨hc.trans h.1 h'.1, fun hs => h'.2 (h.2 hs)⟩
  halt h h' := ⟨hc.halt h.1 h'.1, fun hs => h'.2 (h.2 hs)⟩
  begin_kept h := ⟨hc.begin_kept h.1, id⟩
  begin_halted h := ⟨hc.begin_halted h.1, id⟩

/-- A layer that honours the contract honours it under the watch, and may end with whatever the
contract still grants there. -/
theorem meets_watched (hc : c.Lawful) (hw : c.Grants w) {around : Surroundings}
    (htasks : ∀ t ∈ around.tasks, w.task t) {α : Type} {l : Layer α} {Q Q' : α → Run → Prop}
    {r s : Run} (hkept : c.kept r s) (h : l.Meets c around Q s)
    (hQ : ∀ a s', c.kept r s' → Q a s' → Q' a s') : l.Meets (c.watched w) around Q' s := by
  induction l generalizing s with
  | done a => exact hQ a s hkept h
  | step x mark next ih =>
    have hmoment : ∀ halt m, w.Seen s → w.Seen (s.took around mark halt m) :=
      fun halt m hs => hs.logged rfl ⟨hw.store hkept, htasks, fun _ _ hends => nomatch hends⟩
    unfold Layer.Meets observe at h ⊢
    cases hx : x s.machine with
    | ok b m =>
      rw [hx] at h
      exact ⟨⟨h.1, hmoment none m⟩, ih b (hc.trans hkept h.1) h.2⟩
    | error e m =>
      rw [hx] at h
      exact ⟨h, hmoment (some e) m⟩
  | start t next ih =>
    obtain ⟨v, hpre, hnext⟩ := h
    exact ⟨v, ⟨hpre, htasks⟩, fun a s' hs' hpost =>
      ih a (hc.trans hkept hs'.1) (hnext a s' hs'.1 hpost)⟩
  | enter frame f t next ih =>
    obtain ⟨v, hpre, hnext, hhalted⟩ := h
    refine ⟨v, ⟨hpre, htasks⟩, fun a s' hs' hpost => ?_, fun s' hs' => ⟨hhalted s' hs'.1, hs'.2⟩⟩
    obtain ⟨hleave, hmeets⟩ := hnext a s' hs'.1 hpost
    exact ⟨⟨hleave, hs'.2⟩, ih a (hc.trans hkept hleave) hmeets⟩

/-- Every layer honours the contract under the watch, if it honours the contract. -/
theorem watched_layered (hc : c.Lawful) (hlayers : c.Layered) (hw : c.Grants w) :
    (c.watched w).Layered := by
  rintro v t around r ⟨hpre, htasks⟩
  have hinside : ∀ t' ∈ (around.inside t).tasks, w.task t' := by
    intro t' ht'
    rcases List.mem_cons.mp ht' with rfl | ht'
    · exact hw.task hpre
    · exact htasks t' ht'
  refine meets_watched hc hw hinside (hc.begin_kept hpre) (hlayers v t around r hpre) ?_
  rintro a s hkept ⟨hrecorded, hpost⟩
  refine ⟨⟨hrecorded, fun hs => hs.logged rfl ⟨hw.store hkept, htasks, ?_⟩⟩, hpost⟩
  intro t' a' hends
  cases hends
  exact ⟨hw.task hpre, hw.result hpost⟩

end Contract

end Lox.Eval
