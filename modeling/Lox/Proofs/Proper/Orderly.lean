import Lox.Proofs.Proper.Evaluation
import Lox.Proofs.Run.Sessions

/-!
# Runs in order between texts

A run is orderly if its machine is proper and idle, if the references of the trees whose names were
resolved have different sites that were given out, if the distances it knows are those found for
these trees, and if its log tells of proper moments, each of a store that the later ones come after.
Running a tree keeps a run orderly, and so does learning the distances of a tree with new sites.
-/

namespace Lox.Eval

variable {P : Token → Prop} {r r' : Run}

/-! ## Moments in a row -/

/-- Along the moments input is used up from the one state to the other. -/
def Fed (i : Input) : List Event → Input → Prop
  | [], i' => i' = i
  | ev :: evs, i' => ev.machine.input = i ∧ Fed ev.after.input evs i'

/-- Input is used up along moments and then along more of them. -/
theorem Fed.append {i i' i'' : Input} {evs evs' : List Event} (h : Fed i evs i')
    (h' : Fed i' evs' i'') : Fed i (evs ++ evs') i'' := by
  induction evs generalizing i with
  | nil =>
    cases h
    exact h'
  | cons ev evs ih => exact ⟨h.1, ih h.2⟩

section Course

variable {roots : List Root} {m m' : Machine} {evs : List Event}

/-- Moving to another frame keeps everything else. -/
theorem Moved.eqs (h : Moved m m') :
    m'.store = m.store ∧ m'.input = m.input ∧ m'.globals = m.globals ∧ m'.table = m.table := by
  obtain ⟨frame, rfl⟩ := h
  exact ⟨rfl, rfl, rfl, rfl⟩

/-- Along a course input is used up by reading alone. -/
theorem Course.fed (h : Course P roots m evs m') : Fed m.input evs m'.input := by
  induction evs generalizing m with
  | nil => exact (Moved.eqs h).2.1
  | cons ev evs ih => exact ⟨h.1.eqs.2.1, ih h.2.2.2⟩

/-- Along a course the store only grows. -/
theorem Course.grows (h : Course P roots m evs m') : m.store.Grows m'.store := by
  induction evs generalizing m with
  | nil =>
    rw [(Moved.eqs h).1]
    exact .refl _
  | cons ev evs ih =>
    have hafter := h.2.2.1.after.grows
    rw [h.1.eqs.1] at hafter
    exact hafter.trans (ih h.2.2.2)

/-- What the moments of a course have in common with its ends. -/
structure Course.Holds (P : Token → Prop) (roots : List Root) (m m' : Machine) (ev : Event) :
    Prop where
  proper : ev.Proper P
  roots : ev.origins.roots = roots
  globals : ev.machine.globals = m.globals
  table : ev.machine.table = m.table
  later : m.store.Grows ev.machine.store
  earlier : ev.after.store.Grows m'.store

/-- Every moment of a course is proper, and lies between its ends. -/
theorem Course.holds (h : Course P roots m evs m') :
    ∀ ev ∈ evs, Course.Holds P roots m m' ev := by
  induction evs generalizing m with
  | nil => exact fun _ hev => nomatch hev
  | cons ev evs ih =>
    obtain ⟨hmoved, hroots, hproper, hrest⟩ := h
    obtain ⟨hstore, _, hglobals, htable⟩ := hmoved.eqs
    intro ev' hev'
    rcases List.mem_cons.mp hev' with rfl | hev'
    · exact ⟨hproper, hroots, hglobals, htable, by rw [hstore]; exact .refl _, hrest.grows⟩
    · have hlater := ih hrest ev' hev'
      have hafter := hproper.after
      refine ⟨hlater.proper, hlater.roots, ?_, ?_, ?_, hlater.earlier⟩
      · rw [hlater.globals, hafter.globals, hglobals]
      · rw [hlater.table, hafter.table, htable]
      · rw [← hstore]
        exact hafter.grows.trans hlater.later

/-- The store of each moment comes after that of the moment before. -/
theorem Course.pairwise (h : Course P roots m evs m') :
    evs.Pairwise fun ev ev' => ev.after.store.Grows ev'.machine.store := by
  induction evs generalizing m with
  | nil => exact .nil
  | cons ev evs ih =>
    exact List.pairwise_cons.mpr
      ⟨fun ev' hev' => (Course.holds h.2.2.2 ev' hev').later, ih h.2.2.2⟩

end Course

/-! ## Errors and the log -/

/-- If the computation stops with a runtime error, the log tells of a step that was stopped by
it. -/
def Explained {α : Type} (x : Traced α) : Prop :=
  ∀ r, match x r with
    | .ok _ _ => True
    | .error halt r' => ∀ e, halt = .fault e →
      ∃ ev ∈ r'.history.log, ∃ mark m, ev.occurrence = .step mark (some (.fault e)) m

namespace Explained

variable {α β : Type} {x : Traced α}

/-- Giving back a value stops nothing. -/
theorem pure (a : α) : Explained (pure a : Traced α) :=
  fun _ => trivial

/-- The part that stops tells of the step. -/
theorem bind {f : α → Traced β} (hx : Explained x) (hf : ∀ a, Explained (f a)) :
    Explained (x >>= f) := by
  intro r
  have hr := hx r
  show match EStateM.bind x f r with
    | .ok _ _ => True
    | .error halt r' => ∀ e, halt = .fault e →
      ∃ ev ∈ r'.history.log, ∃ mark m, ev.occurrence = .step mark (some (.fault e)) m
  unfold EStateM.bind
  cases hxr : x r with
  | ok a r' => exact hf a r'
  | error halt r' =>
    rw [hxr] at hr
    exact hr

/-- A step that stops is in the log with its error. -/
theorem observe (around : Surroundings) (mark : Mark) (y : Exec α) :
    Explained (observe around mark y) := by
  intro r
  unfold Eval.observe
  cases y r.machine with
  | ok a m => trivial
  | error halt m =>
    rintro e rfl
    exact ⟨_, List.mem_append_right _ (List.mem_singleton_self _), mark, m, rfl⟩

theorem withinFrame {frame : FrameId} (hx : Explained x) : Explained (withinFrame frame x) := by
  intro r
  have hr := hx (r.atFrame frame)
  unfold Eval.withinFrame
  cases hxr : x (r.atFrame frame) with
  | ok a r' => trivial
  | error halt r' =>
    rw [hxr] at hr
    exact hr

end Explained

/-- A layer stops with a step of its own or with one of its tasks. -/
theorem Layer.trace_explained {α : Type} {sub : (t : Task) → Surroundings → Traced t.Result}
    (hsub : ∀ t around, Explained (sub t around)) (around : Surroundings) (l : Layer α) :
    Explained (l.trace sub around) := by
  induction l with
  | done a => exact .pure a
  | step x mark next ih => exact (Explained.observe around mark x).bind ih
  | start t next ih => exact (hsub t around).bind ih
  | enter frame f t next ih =>
    refine Explained.bind (fun r => ?_) ih
    exact (hsub t (around.enter frame f r.history.origins)).withinFrame r

/-- Every error of a task is in the log, by induction on the fuel. -/
theorem Task.trace_explained (fuel : Nat) (t : Task) (around : Surroundings) :
    Explained (t.trace fuel around) := by
  induction fuel generalizing t around with
  | zero => exact fun _ _ h => nomatch h
  | succ fuel ih =>
    exact (Layer.trace_explained ih (around.inside t) t.layer).bind fun _ _ => trivial

theorem traceProgram_explained (fuel : Nat) (ss : List Stmt) :
    Explained (traceProgram fuel ss) := by
  induction ss with
  | nil => exact .pure ()
  | cons s ss ih => exact (Task.trace_explained fuel (.statement s) .top).bind fun _ => ih

theorem traceExpression_explained (fuel : Nat) (e : Expr) :
    Explained (traceExpression fuel e) :=
  (Task.trace_explained fuel (.expression e) .top).bind fun v =>
    (Explained.observe .top .nothing (Exec.writeLine v)).bind fun _ => .pure v

/-! ## Trees and their distances -/

/-- The distances that resolving finds for the references of the tree. -/
def Root.table (root : Root) : Table :=
  (root.part.walk .start).table

/-- The sites of the references of the tree. -/
def Root.sites (root : Root) : List Site :=
  sitesOf root.part.references

/-- The distance of a reference, found for one of the trees. -/
def distance? (roots : List Root) (i : Site) : Option Nat :=
  roots.findSome? fun root => root.table[i]?

/-- Resolving finds distances for no sites but those of the tree. -/
theorem Root.table_none {root : Root} {i : Site} (hi : i ∉ root.sites) : root.table[i]? = none :=
  Part.walk_table root.part hi

/-- No tree has a distance for a site that is none of theirs. -/
theorem distance?_none {roots : List Root} {i : Site} (hi : i ∉ roots.flatMap Root.sites) :
    distance? roots i = none := by
  refine List.findSome?_eq_none_iff.mpr fun root hroot => Root.table_none fun hmem => hi ?_
  exact List.mem_flatMap.mpr ⟨root, hroot, hmem⟩

/-! ## Orderly runs -/

/-- What holds of a moment in the log of an orderly run. -/
structure Event.Orderly (P : Token → Prop) (r : Run) (ev : Event) : Prop where
  proper : ev.Proper P
  roots : ev.origins.roots <:+ r.history.origins.roots
  globals : ev.machine.globals = r.machine.globals
  table : ∀ i : Site, ev.machine.table[i]? = distance? ev.origins.roots i
  grows : ev.after.store.Grows r.machine.store

/-- Nothing is being run, and the sites from `nextSite` on are still to be given out. -/
structure Run.Orderly (P : Token → Prop) (nextSite : Site) (r : Run) : Prop where
  machine : r.machine.Proper P
  idle : r.machine.current = r.machine.globals
  drawn : Drawn 0 nextSite (r.history.origins.roots.flatMap Root.sites)
  table : ∀ i : Site, r.machine.table[i]? = distance? r.history.origins.roots i
  log : ∀ ev ∈ r.history.log, ev.Orderly P r
  order : r.history.log.Pairwise fun ev ev' => ev.after.store.Grows ev'.machine.store

variable {nextSite nextSite' : Site}

/-- Sites may be left out. -/
theorem Run.Orderly.mono (h : r.Orderly P nextSite) (hle : nextSite ≤ nextSite') :
    r.Orderly P nextSite' :=
  ⟨h.machine, h.idle, ⟨Nat.zero_le _, h.drawn.once, fun i hi =>
    ⟨Nat.zero_le i, Nat.lt_of_lt_of_le (h.drawn.range i hi).2 hle⟩⟩, h.table, h.log, h.order⟩

/-- No distance is known for a site that is still to be given out. -/
theorem Run.Orderly.unknown (h : r.Orderly P nextSite) {i : Site} (hi : nextSite ≤ i) :
    r.machine.table[i]? = none := by
  rw [h.table]
  exact distance?_none fun hmem => Nat.not_lt.mpr hi (h.drawn.range i hmem).2

/-- The distances of a tree with new sites are learned, and those that are known stay. -/
theorem Run.Orderly.begin (h : r.Orderly P nextSite) {root : Root}
    (hdrawn : Drawn nextSite nextSite' root.sites) :
    (r.begin root.table root).Orderly P nextSite' ∧
      ∀ i < nextSite, (r.begin root.table root).machine.table[i]? = r.machine.table[i]? := by
  have htable : ∀ i : Site, (r.begin root.table root).machine.table[i]? =
      (root.table[i]?).or r.machine.table[i]? := Machine.learn_table r.machine root.table
  refine ⟨⟨⟨h.machine.store, h.machine.current⟩, h.idle, ?_, fun i => ?_, fun ev hev => ?_,
    h.order⟩, fun i hi => ?_⟩
  · refine (h.drawn.append hdrawn).of_count fun i => Nat.le_of_eq ?_
    show (root.sites ++ r.history.origins.roots.flatMap Root.sites).count i = _
    rw [List.count_append, List.count_append, Nat.add_comm]
  · rw [htable, h.table]
    show _ = List.findSome? _ (root :: r.history.origins.roots)
    rw [List.findSome?_cons]
    cases root.table[i]? <;> rfl
  · have hold := h.log ev hev
    exact ⟨hold.proper, hold.roots.trans (List.suffix_cons _ _), hold.globals, hold.table,
      hold.grows⟩
  · have hnew : i ∉ root.sites := fun hmem => Nat.not_le.mpr hi (hdrawn.range i hmem).1
    rw [htable, Root.table_none hnew, Option.none_or]

/-- A run that goes on in proper order stays orderly. -/
theorem Run.Orderly.upkept (h : r.Orderly P nextSite) (hr : Run.Upkept P r r') :
    r'.Orderly P nextSite := by
  obtain ⟨evs, hlog, hcourse⟩ := hr.course
  have hroots := hr.roots
  refine ⟨hr.follows.proper, ?_, hroots ▸ h.drawn, fun i => ?_, fun ev hev => ?_, ?_⟩
  · rw [hr.follows.current, hr.follows.globals, h.idle]
  · rw [hr.follows.table, hroots]
    exact h.table i
  · rw [hlog] at hev
    rcases List.mem_append.mp hev with hold | hnew
    · have hold := h.log ev hold
      exact ⟨hold.proper, hroots ▸ hold.roots, hold.globals.trans hr.follows.globals.symm,
        hold.table, hold.grows.trans hr.follows.grows⟩
    · have hnew := hcourse.holds ev hnew
      have hsame : ev.origins.roots = r'.history.origins.roots := hnew.roots.trans hroots.symm
      refine ⟨hnew.proper, ⟨[], hsame⟩, hnew.globals.trans hr.follows.globals.symm, fun i => ?_,
        hnew.earlier⟩
      rw [hnew.table, hnew.roots]
      exact h.table i
  · rw [hlog]
    refine List.pairwise_append.mpr ⟨h.order, hcourse.pairwise, fun ev hev ev' hev' => ?_⟩
    exact (h.log ev hev).grows.trans (hcourse.holds ev' hev').later

end Lox.Eval
