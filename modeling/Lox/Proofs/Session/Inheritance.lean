import Lox.Proofs.Run.Makers
import Lox.Proofs.Scope.Members
import Lox.Proofs.Session.History
import Lox.Proofs.Store.Lineage

/-!
# Inherited members

`super` does not depend on the receiver. Where it is evaluated, the frame of the superclass is the
one that was made when the declaration of the textually innermost class was executed, and it still
holds the superclass of that moment; the frame of the receiver right inside of it is that of the
activation of the member in which `super` stands. The member is looked up from that superclass on
and taken as a method of that receiver (`Chronicle.super_static`).
-/

namespace Lox

/-- The member that a name stands for in a class and those above it: the nearest one for instances,
else the nearest class method. -/
def Class.nearest? (c : Class) (name : String) : Option Function :=
  (c.lineage.findSome? fun d => d.methods[name]?).or
    (c.lineage.findSome? fun d => d.classMethods[name]?)

theorem Class.nearest?_eq (c : Class) (name : String) :
    (c.findMethod name).or (c.findClassMethod name) = c.nearest? name := by
  rw [findMethod_eq, findClassMethod_eq]
  rfl

namespace Eval

open Exec

/-! ## Evaluation -/

/-- Evaluation of `super` where both the superclass and the receiver are found. -/
theorem evaluate_inherited (fuel : Nat) {site : Site} {keyword method : Token} {m : Machine}
    {n : Nat} {parent : Class} {receiver : Value} (hdistance : m.table[site]? = some (n + 1))
    (hsuper : m.store.getAt? m.current (n + 1) "super" = some (.cls parent))
    (hthis : m.store.getAt? m.current n "this" = some receiver) :
    evaluate (fuel + 1) (.inherited site keyword method) m =
      match parent.nearest? method.lexeme with
      | some f => (Eval.bind f receiver >>= asProperty fuel) m
      | none => .error (.fault ⟨method, .undefinedProperty⟩) m := by
  have hsource : inheritedSource site keyword method m =
      match parent.nearest? method.lexeme with
      | some f => .ok (f, receiver) m
      | none => .error (.fault ⟨method, .undefinedProperty⟩) m := by
    unfold inheritedSource
    rw [get_bind, hdistance]
    dsimp only
    rw [hsuper, Nat.add_sub_cancel, hthis]
    dsimp only
    rw [Class.nearest?_eq]
    cases parent.nearest? method.lexeme <;> rfl
  show (inheritedMember site keyword method >>= asProperty fuel) m = _
  rw [inheritedMember_source, bind_assoc]
  cases hfound : parent.nearest? method.lexeme with
  | some f =>
    rw [hfound] at hsource
    exact ok_bind hsource
  | none =>
    rw [hfound] at hsource
    exact error_bind hsource

/-! ## Frames around a moment -/

/-- The frame so many steps up the chain of the current one. -/
def Event.frameAt (ev : Event) (k : Nat) : Option FrameId :=
  ev.machine.store.ancestor? ev.machine.current k

/-- Where a reference is used, there is a frame for each region around it, and one around that. -/
theorem Agreement.frameAt {ev : Event} {e : Expr} {site : Site} {name : Token} {root : Root}
    {w : Walk} {ps : List Place} (h : Agreement ev e site name root w ps) {k : Nat}
    {region : Region} (hk : (ps.map Place.region)[k]? = some region) :
    ∃ frame outer, ev.frameAt k = some frame ∧ ev.frameAt (k + 1) = some outer ∧
      ev.origins.regions frame = some region := by
  have hregions : (ev.around.frames.map ev.origins.regions)[k]? = some (some region) := by
    rw [h.regions, ← Function.comp_def, ← List.map_map, List.getElem?_map, hk]
    rfl
  rw [List.getElem?_map] at hregions
  obtain ⟨frame, hframe, hregion⟩ := Option.map_eq_some_iff.mp hregions
  have hlt : k < ev.around.frames.length := (List.getElem?_eq_some_iff.mp hframe).1
  have hnext : k + 1 < (ev.around.frames ++ [ev.machine.globals]).length := by
    rw [List.length_append]
    exact Nat.succ_lt_succ hlt
  refine ⟨frame, _, ?_, (h.chain (k + 1)).trans (List.getElem?_eq_getElem hnext), hregion⟩
  exact (h.chain k).trans ((List.getElem?_append_left hlt).trans hframe)

/-! ## Where the frames come from -/

/-- The frame `k` steps up holds the superclass `parent` of the class `d`. It was made when the
declaration of the class was executed in the frame around it, and `parent` was the superclass
then. -/
structure ClassAt (past : List Event) (ev : Event) (k : Nat) (d : ClassDecl) (parent : Class) :
    Prop where
  holds : ev.machine.store.getAt? ev.machine.current k "super" = some (.cls parent)
  declared : ∃ declaration ∈ past, ∃ after c,
    declaration.occurrence = .step (.members d) none after ∧
    declareClass d (some parent) declaration.machine = .ok () after ∧
    after.store.binding? declaration.machine.current d.name.lexeme = some ⟨.cls c, false⟩ ∧
    c.superclass = some parent ∧
    ev.frameAt k = some declaration.machine.store.frames.size ∧
    ev.frameAt (k + 1) = some declaration.machine.current

/-- The frame `k` steps up holds the receiver of the member `m`. It was made when a function made
from the member, in the frame around it, was taken as a method of this receiver. -/
structure ReceiverAt (past : List Event) (ev : Event) (k : Nat) (m : FunctionDecl)
    (receiver : Value) : Prop where
  holds : ev.machine.store.getAt? ev.machine.current k "this" = some receiver
  taken : ∃ taking ∈ past, ∃ after f method,
    taking.occurrence = .step (.method f) none after ∧ f.declaration = m ∧
    Eval.bind f receiver taking.machine = .ok method after ∧
    ev.frameAt k = some method.closure ∧ ev.frameAt (k + 1) = some f.closure

/-- The frame `k` steps up is that of a call of the member `m` as a method, which holds its receiver
in the frame around. -/
def CallAt (past : List Event) (ev : Event) (k : Nat) (m : FunctionDecl) : Prop :=
  ∃ call ∈ past, ∃ after method arguments outer frame,
    call.around.tasks = .invoke method arguments :: outer ∧
    call.occurrence = .step (.frame (.call m)) none after ∧ method.declaration = m ∧
    callFrame method arguments call.machine = .ok frame after ∧
    ev.frameAt k = some frame ∧ ev.frameAt (k + 1) = some method.closure

/-- At this moment `super.method` is evaluated inside the member `m` of the textually innermost
class `d`, with only the regions `inner` of blocks and calls between it and the call of the member.
The superclass is the one with which the declaration of that class was executed, the receiver is
that of this call, and the nearest member of the name from the superclass on is taken as a method of
the receiver. That there is none is the only failure. -/
structure BindsSuper (past : List Event) (ev : Event) (site : Site) (keyword method : Token)
    (d : ClassDecl) (m : FunctionDecl) (inner : List Region) (parent : Class)
    (receiver : Value) : Prop where
  place : ∃ root ∈ ev.origins.roots, ∃ w ps,
    Visits root.part w ps (.expression (.inherited site keyword method)) ∧
      InnermostClass root.part ps d m inner
  call : CallAt past ev inner.length m
  this : ReceiverAt past ev (inner.length + 1) m receiver
  super : ClassAt past ev (inner.length + 2) d parent
  distance : ev.machine.table[site]? = some (inner.length + 2)
  evaluates : ∀ fuel, evaluate (fuel + 1) (.inherited site keyword method) ev.machine =
    match parent.nearest? method.lexeme with
    | some f => (Eval.bind f receiver >>= asProperty fuel) ev.machine
    | none => .error (.fault ⟨method, .undefinedProperty⟩) ev.machine

/-- What is known of the log of a session. -/
structure Coherent (log : List Event) : Prop where
  agrees : ∀ ev ∈ log, ev.Agrees
  accepted : ∀ ev ∈ log, ∀ root ∈ ev.origins.roots, ∃ T, Accepted T root.part
  current : ∀ ev ∈ log, ev.machine.current < ev.machine.store.frames.size
  performs : ∀ ev ∈ log, ev.Performs
  made : ∀ i ev, log[i]? = some ev → MadeAt (log.take i) ev.origins ev.machine.store
  grows : ∀ i ev, log[i]? = some ev → ∀ past ∈ log.take i,
    past.after.store.Grows ev.machine.store
  kept : ∀ i ev, log[i]? = some ev → ∀ past ∈ log.take i, ∀ mark halt m,
    past.occurrence = .step mark halt m → ∀ frame < m.store.frames.size,
      ∀ name ∈ ["this", "super"],
        ev.machine.store.binding? frame name = m.store.binding? frame name

namespace Coherent

variable {log : List Event} {i k : Nat} {ev : Event} {frame outer : FrameId}

/-- A frame is still where it was made, and binds `this` or `super` to what it did then. -/
theorem since (h : Coherent log) (hi : log[i]? = some ev) (hframe : ev.frameAt k = some frame)
    (houter : ev.frameAt (k + 1) = some outer) {past : Event} (hpast : past ∈ log.take i)
    {mark : Mark} {halt : Option Halt} {after : Machine}
    (hstep : past.occurrence = .step mark halt after) (hlt : frame < after.store.frames.size) :
    after.store.parent? frame = some outer ∧ ∀ name ∈ ["this", "super"], ∀ b,
      after.store.binding? frame name = some b →
        ev.machine.store.getAt? ev.machine.current k name = some b.value := by
  have hgrows := h.grows i ev hi past hpast
  unfold Event.after at hgrows
  rw [hstep] at hgrows
  constructor
  · rw [← hgrows.parent frame hlt]
    exact Store.parent?_of_ancestor? hframe houter
  · intro name hname b hb
    unfold Store.getAt?
    rw [show ev.machine.store.ancestor? _ k = some frame from hframe, Option.bind_some,
      h.kept i ev hi past hpast mark halt after hstep frame hlt name hname, hb]
    rfl

/-- The frame of a superclass. -/
theorem classAt (h : Coherent log) (hi : log[i]? = some ev) (hframe : ev.frameAt k = some frame)
    (houter : ev.frameAt (k + 1) = some outer) {d : ClassDecl}
    (hregion : ev.origins.regions frame = some (.superclass d)) :
    ∃ parent, ClassAt (log.take i) ev k d parent := by
  obtain ⟨past, hpast, hmakes⟩ :=
    h.made i ev hi frame (Store.ancestor?_lt hframe) _ hregion
  have hmem : past ∈ log := List.mem_of_mem_take hpast
  have hname : ∀ halt m, past.occurrence = .step (.members d) halt m →
      d.name.lexeme ≠ "super" := by
    intro halt m hstep
    have hagrees := h.agrees past hmem
    unfold Event.Agrees at hagrees
    rw [hstep] at hagrees
    exact (hagrees.declared d.name rfl).ne_super
  obtain ⟨parent, after, hstep, hrun, rfl⟩ := hmakes.superclass (h.performs past hmem) hname
  obtain ⟨hsize, hparent, hsuper⟩ := declareClass_frame hrun (hname _ _ hstep)
  obtain ⟨c, hbinding, hc⟩ := declareClass_binding hrun (h.current past hmem)
  obtain ⟨houter', hholds⟩ :=
    h.since hi hframe houter hpast hstep (hsize ▸ Nat.lt_succ_self _)
  -- the frame around it is still the one in which the class was declared
  cases hparent.symm.trans houter'
  exact ⟨parent, hholds "super" (by simp) _ hsuper, past, hpast, after, c, hstep, hrun, hbinding,
    hc, hframe, houter⟩

/-- The frame of a receiver. -/
theorem receiverAt (h : Coherent log) (hi : log[i]? = some ev)
    (hframe : ev.frameAt k = some frame) (houter : ev.frameAt (k + 1) = some outer)
    {m : FunctionDecl} (hregion : ev.origins.regions frame = some (.receiver m)) :
    ∃ receiver, ReceiverAt (log.take i) ev k m receiver := by
  obtain ⟨past, hpast, hmakes⟩ :=
    h.made i ev hi frame (Store.ancestor?_lt hframe) _ hregion
  obtain ⟨f, receiver, method, after, hstep, hf, hrun, rfl⟩ :=
    hmakes.receiver (h.performs past (List.mem_of_mem_take hpast))
  obtain ⟨_, hclosure, hsize, hparent, hthis⟩ := bind_frame hrun
  obtain ⟨houter', hholds⟩ :=
    h.since hi hframe houter hpast hstep (hsize ▸ Nat.lt_succ_self _)
  cases hparent.symm.trans houter'
  exact ⟨receiver, hholds "this" (by simp) _ hthis, past, hpast, after, f, method, hstep, hf, hrun,
    hclosure ▸ hframe, houter⟩

/-- The frame of a call. -/
theorem callAt (h : Coherent log) (hi : log[i]? = some ev) (hframe : ev.frameAt k = some frame)
    (houter : ev.frameAt (k + 1) = some outer) {m : FunctionDecl}
    (hregion : ev.origins.regions frame = some (.call m)) : CallAt (log.take i) ev k m := by
  obtain ⟨past, hpast, hmakes⟩ :=
    h.made i ev hi frame (Store.ancestor?_lt hframe) _ hregion
  obtain ⟨method, arguments, tasks, after, htasks, hstep, hm, hrun⟩ :=
    hmakes.call (h.performs past (List.mem_of_mem_take hpast))
  obtain ⟨hmade, hsize, hparent⟩ := callFrame_frame hrun
  rw [← hmade] at hparent
  obtain ⟨houter', _⟩ :=
    h.since hi hframe houter hpast hstep (hsize ▸ hmade ▸ Nat.lt_succ_self _)
  cases hparent.symm.trans houter'
  exact ⟨past, hpast, after, method, arguments, tasks, frame, htasks, hstep, hm, hrun, hframe,
    houter⟩

end Coherent

/-- The site of the `super` that is evaluated at a moment. -/
def Event.inherited? (ev : Event) : Option Site :=
  match ev.occurrence.refers? with
  | some (.inherited site _ _) => some site
  | _ => none

theorem Event.inherited?_some {ev : Event} {site : Site} (h : ev.inherited? = some site) :
    ∃ keyword method halt m,
      ev.occurrence = .step (.refers (.inherited site keyword method)) halt m := by
  unfold Event.inherited? at h
  split at h
  next site' keyword method he =>
    cases h
    obtain ⟨halt, m, hstep⟩ := Occurrence.refers?_some he
    exact ⟨keyword, method, halt, m, hstep⟩
  next => cases h

end Eval

open Eval

namespace Chronicle

/-! ## Sessions -/

/-- Running texts keeps sessions in order. -/
theorem orderly_invariant : Invariant (Orderly fun _ => True) :=
  ⟨fun fuel _ _ _ h => (runTokens_keeps fuel h fun _ _ _ => trivial).continues.orderly,
    fun fuel _ _ _ h => (evaluateTokens_keeps fuel h fun _ _ _ => trivial).continues.orderly⟩

variable (input : Input) (output : Output) (host : Host) (fuel : Nat) (steps : List Step)

theorem log_coherent :
    Coherent (takeAll fuel steps (start input output host)).run.history.log := by
  have horderly := orderly_invariant.takeAll fuel steps _ (start_orderly _ input output host)
  have hsettled := takeAll_settled input output host fuel steps
  refine ⟨log_agrees input output host fuel steps, fun ev hev root hroot => ?_,
    fun ev hev => (horderly.log ev hev).proper.machine.current,
    fun ev hev => steps_perform input output host fuel steps hev,
    fun i ev => frames_made input output host fuel steps, fun i ev hi past hpast => ?_,
    fun i ev hi past hpast mark halt m hstep frame hframe name hname =>
      binding_kept input output host fuel steps hi hpast hstep hframe hname⟩
  · have hroots := (horderly.log ev hev).roots
    exact ⟨_, hsettled.sound.accepted root (hroots.mem hroot)⟩
  · obtain ⟨k, hk, hpast⟩ := List.mem_take_iff_getElem.mp hpast
    obtain ⟨hlt, rfl⟩ := List.getElem?_eq_some_iff.mp hi
    rw [← hpast]
    exact List.pairwise_iff_getElem.mp horderly.order k i _ hlt (by omega)

/-- `super` is statically bound. Whenever it is evaluated in a session, through whatever receiver,
closure or later text, the lookup begins at the class that was the superclass of the textually
innermost class when the declaration of that class was executed, and what is found becomes a method
of the receiver of the member in whose call `super` stands, however many blocks and functions lie
between. -/
theorem super_static :
    ∀ i ev, (takeAll fuel steps (start input output host)).run.history.log[i]? = some ev →
      ∀ site keyword method halt m,
        ev.occurrence = .step (.refers (.inherited site keyword method)) halt m →
        ∃ d member inner parent receiver,
          BindsSuper ((takeAll fuel steps (start input output host)).run.history.log.take i) ev
            site keyword method d member inner parent receiver := by
  intro i ev hi site keyword method halt m hstep
  have hlog := log_coherent input output host fuel steps
  have hmem := List.mem_of_getElem? hi
  -- where the expression stands
  obtain ⟨site', name, root, w, ps, hagrees⟩ : ∃ site' name root w ps,
      Agreement ev (.inherited site keyword method) site' name root w ps := by
    have hev := hlog.agrees ev hmem
    unfold Event.Agrees at hev
    rw [hstep] at hev
    exact hev.refers _ rfl
  cases hagrees.reference
  obtain ⟨T, hroot⟩ := hlog.accepted ev hmem root hagrees.known
  obtain ⟨d, member, inner, hclass, -, hdistance⟩ := hagrees.visits.inherited_enclosed hroot
  have hkeyword : keyword.lexeme = "super" := (hagrees.visits.fits hroot).tidy
  have htable : ev.machine.table[site]? = some (inner.length + 2) := by
    rw [hagrees.distance, hkeyword]
    exact hdistance
  -- the frames of the call, the receiver and the superclass lie one around the other
  obtain ⟨-, outer, -, hregions⟩ := hclass.around
  have hat : ∀ n region, (Region.call member :: .receiver member :: .superclass d ::
      outer.map Place.region)[n]? = some region →
        (ps.map Place.region)[inner.length + n]? = some region := by
    intro n region hn
    rw [hregions, List.getElem?_append_right (Nat.le_add_right _ _), Nat.add_sub_cancel_left]
    exact hn
  obtain ⟨_, _, hcall, hcall', hcallRegion⟩ := hagrees.frameAt (hat 0 _ rfl)
  obtain ⟨_, _, hthis, hthis', hthisRegion⟩ := hagrees.frameAt (hat 1 _ rfl)
  obtain ⟨_, _, hsuper, hsuper', hsuperRegion⟩ := hagrees.frameAt (hat 2 _ rfl)
  -- and each of them was made for its region, at an earlier moment
  obtain ⟨receiver, hreceiver⟩ := hlog.receiverAt hi hthis hthis' hthisRegion
  obtain ⟨parent, hparent⟩ := hlog.classAt hi hsuper hsuper' hsuperRegion
  exact ⟨d, member, inner, parent, receiver, ⟨root, hagrees.known, w, ps, hagrees.visits, hclass⟩,
    hlog.callAt hi hcall hcall' hcallRegion, hreceiver, hparent, htable,
    fun fuel => evaluate_inherited fuel htable hparent.holds hreceiver.holds⟩

/-- `super` in a function that a method gave back, called on a later line when the name of the
superclass stands for another class. -/
theorem super_static_escaped_closure :
    ∃ (i : Nat) (ev : Event), (takeAll 14 [.run "class A \x7b m() \x7b\x7d \x7d
          class B < A \x7b t() \x7b \x7b return fun () \x7b super.m; \x7d; \x7d \x7d \x7d
          var f = B().t();", .run "class A \x7b\x7d f();"]
        (start ⟨[]⟩ {} ⟨fun _ => 0, fun _ => 0, 0, 0⟩)).run.history.log[i]? = some ev ∧
      ∃ site keyword method halt m,
        ev.occurrence = .step (.refers (.inherited site keyword method)) halt m ∧
        ev.machine.table[site]? = some 4 ∧
        ∃ past d member inner parent receiver,
          BindsSuper past ev site keyword method d member inner parent receiver := by
  have hany : (takeAll 14 [.run "class A \x7b m() \x7b\x7d \x7d
          class B < A \x7b t() \x7b \x7b return fun () \x7b super.m; \x7d; \x7d \x7d \x7d
          var f = B().t();", .run "class A \x7b\x7d f();"]
      (start ⟨[]⟩ {} ⟨fun _ => 0, fun _ => 0, 0, 0⟩)).run.history.log.any (fun ev =>
        ev.inherited?.any fun site => ev.machine.table[site]? == some 4) = true := by
    decide +kernel
  obtain ⟨ev, hev, hdistance⟩ := List.any_eq_true.mp hany
  obtain ⟨i, hi⟩ := List.getElem?_of_mem hev
  obtain ⟨site, hsite, hdistance⟩ := (Option.any_eq_true _ _).mp hdistance
  obtain ⟨keyword, method, halt, m, hstep⟩ := Event.inherited?_some hsite
  exact ⟨i, ev, hi, site, keyword, method, halt, m, hstep, eq_of_beq hdistance, _,
    super_static ⟨[]⟩ {} ⟨fun _ => 0, fun _ => 0, 0, 0⟩ 14 _ i ev hi site keyword method halt m
      hstep⟩

end Chronicle

end Lox
