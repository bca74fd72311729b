import Lox.Proofs.Attested.Sessions
import Lox.Proofs.Library
import Lox.Proofs.Run.Calls
import Lox.Proofs.Session.Inheritance

/-!
# Construction

The call of a class gives an instance of just this class that is none of the values that there were
when its arguments had been evaluated. The ordinary method `init` gives, however it was obtained and
however its body ends, the value that it was taken for, which is also what `this` denotes in its
calls. An initializer closes over the frame that holds its receiver; that frame was made when it was
taken, and nothing binds `this` in it again (`Chronicle.constructions_return_instance`).
-/

namespace Lox

/-- A variable of the frame itself. -/
theorem Store.getAt?_zero {s : Store} {frame : FrameId} {name : String} {b : Binding}
    (hb : s.binding? frame name = some b) : s.getAt? frame 0 name = some b.value := by
  have hlt : frame < s.frames.size := by
    by_contra hle
    rw [binding?_of_size_le (Nat.not_lt.mp hle)] at hb
    cases hb
  unfold getAt? ancestor?
  rw [if_pos hlt, Option.bind_some, hb]
  rfl

/-- No value is equal to an object that was made after it. -/
theorem Value.equals_later {v : Value} {o : Object} (h : ∀ p, v = .object p → p.id < o.id) :
    v.equals (.object o) = false := by
  cases v with
  | object p => exact beq_false_of_ne (Nat.ne_of_lt (h p rfl))
  | _ => rfl

namespace Eval

open Exec

/-! ## Where `this` is evaluated -/

/-- At this moment `this` is evaluated inside the member of the textually innermost class that `f`
was made from. It stands in a call of `f`, with only the regions `inner` of blocks and calls between
it and that call, and denotes the value. -/
structure DenotesThis (past : List Event) (ev : Event) (site : Site) (keyword : Token)
    (f : Function) (inner : List Region) (value : Value) : Prop where
  place : ∃ root ∈ ev.origins.roots, ∃ w ps d,
    Visits root.part w ps (.expression (.receiver site keyword)) ∧
      InnermostMember root.part ps d f.declaration inner
  call : ∃ call ∈ past, ∃ after arguments outer frame,
    call.around.tasks = .invoke f arguments :: outer ∧
    call.occurrence = .step (.frame (.call f.declaration)) none after ∧
    callFrame f arguments call.machine = .ok frame after ∧
    ev.frameAt inner.length = some frame ∧ ev.frameAt (inner.length + 1) = some f.closure
  holds : ev.machine.store.getAt? ev.machine.current (inner.length + 1) "this" = some value
  evaluates : ∀ fuel, evaluate (fuel + 1) (.receiver site keyword) ev.machine =
    .ok value ev.machine

/-- Evaluation of `this` where the receiver is found. -/
theorem evaluate_receiver (fuel : Nat) {site : Site} {keyword : Token} {m : Machine} {n : Nat}
    {receiver : Value} (hdistance : m.table[site]? = some n)
    (hthis : m.store.getAt? m.current n keyword.lexeme = some receiver) :
    evaluate (fuel + 1) (.receiver site keyword) m = .ok receiver m := by
  have hfound : m.lookUp site keyword.lexeme = some receiver := by
    unfold Machine.lookUp
    rw [hdistance]
    exact hthis
  show lookUp site keyword m = .ok receiver m
  rw [lookUp, get_bind, hfound]
  rfl

namespace Coherent

variable {log : List Event} {i k : Nat} {ev : Event}

/-- Whenever `this` is evaluated, it stands in a call of a member. -/
theorem denotesThis (h : Coherent log) (hi : log[i]? = some ev) {site : Site} {keyword : Token}
    {halt : Option Halt} {m : Machine}
    (hstep : ev.occurrence = .step (.refers (.receiver site keyword)) halt m) :
    ∃ f inner value, DenotesThis (log.take i) ev site keyword f inner value := by
  have hmem := List.mem_of_getElem? hi
  -- where the expression stands
  obtain ⟨site', name, root, w, ps, hagrees⟩ : ∃ site' name root w ps,
      Agreement ev (.receiver site keyword) site' name root w ps := by
    have hev := h.agrees ev hmem
    unfold Event.Agrees at hev
    rw [hstep] at hev
    exact hev.refers _ rfl
  cases hagrees.reference
  obtain ⟨T, hroot⟩ := h.accepted ev hmem root hagrees.known
  obtain ⟨d, member, inner, hmember, hdistance⟩ := hagrees.visits.receiver_enclosed hroot
  have hkeyword : keyword.lexeme = "this" := (hagrees.visits.fits hroot).tidy
  have htable : ev.machine.table[site]? = some (inner.length + 1) := by
    rw [hagrees.distance, hkeyword]
    exact hdistance
  -- the frame of the call lies in the one that holds the receiver
  obtain ⟨-, outer, -, hregions⟩ := hmember.around
  have hat : ∀ n region, (Region.call member :: .receiver member ::
      (d.places outer).map Place.region)[n]? = some region →
        (ps.map Place.region)[inner.length + n]? = some region := by
    intro n region hn
    rw [hregions, List.getElem?_append_right (Nat.le_add_right _ _), Nat.add_sub_cancel_left]
    exact hn
  obtain ⟨_, _, hcall, hcall', hcallRegion⟩ := hagrees.frameAt (hat 0 _ rfl)
  obtain ⟨_, _, hthis, hthis', hthisRegion⟩ := hagrees.frameAt (hat 1 _ rfl)
  obtain ⟨value, hvalue⟩ := h.receiverAt hi hthis hthis' hthisRegion
  obtain ⟨call, hpast, after, f, arguments, tasks, frame, htasks, hmade, rfl, hrun, hframe,
    hclosure⟩ := h.callAt hi hcall hcall' hcallRegion
  exact ⟨f, inner, value, ⟨root, hagrees.known, w, ps, d, hagrees.visits, hmember⟩,
    ⟨call, hpast, after, arguments, tasks, frame, htasks, hmade, hrun, hframe, hclosure⟩,
    hvalue.holds, fun fuel => evaluate_receiver fuel htable (hkeyword ▸ hvalue.holds)⟩

/-! ## Methods that were taken -/

variable {g g' f : Function} {receiver receiver' : Value}

/-- The frame that a method closes over still holds the receiver for which it was taken. -/
theorem taken_binding (h : Coherent log) (hi : log[i]? = some ev)
    (htaken : Taken (log.take i) g receiver f) :
    ev.machine.store.binding? f.closure "this" = some ⟨receiver, false⟩ := by
  obtain ⟨taking, hpast, after, hstep, hrun⟩ := htaken
  obtain ⟨-, hclosure, hsize, -, hthis⟩ := bind_frame hrun
  have hlt : f.closure < after.store.frames.size := by
    rw [hsize, hclosure]
    exact Nat.lt_succ_self _
  rw [h.kept i ev hi taking hpast _ none after hstep f.closure hlt "this" (by simp), hclosure]
  exact hthis

/-- A method is taken only once. -/
theorem taken_receiver (h : Coherent log) (htaken : Taken log g receiver f)
    (htaken' : Taken log g' receiver' f) : receiver = receiver' := by
  obtain ⟨taking, hpast, after, hstep, hrun⟩ := htaken
  obtain ⟨taking', hpast', after', hstep', hrun'⟩ := htaken'
  obtain ⟨-, hclosure, -, -, hthis⟩ := bind_frame hrun
  obtain ⟨-, hclosure', -, -, hthis'⟩ := bind_frame hrun'
  -- when a method is taken, the frame that it closes over is not there yet
  have hnew : ∀ {p p' : Nat} {t t' : Event} {g₀ : Function} {receiver₀ : Value} {after₀ : Machine},
      log[p]? = some t → log[p']? = some t' → t.occurrence = .step (.method g₀) none after₀ →
      Eval.bind g₀ receiver₀ t.machine = .ok f after₀ → f.closure = t'.machine.store.frames.size →
      ¬p < p' := by
    intro p p' t t' g₀ receiver₀ after₀ hp hp' hstep₀ hrun₀ hsize hlt
    have hmem : t ∈ log.take p' :=
      List.mem_of_getElem? ((List.getElem?_take_of_lt hlt).trans hp)
    have hbinding := h.taken_binding hp' ⟨t, hmem, after₀, hstep₀, hrun₀⟩
    rw [Store.binding?_of_size_le (Nat.le_of_eq hsize.symm)] at hbinding
    cases hbinding
  obtain ⟨p, hp⟩ := List.getElem?_of_mem hpast
  obtain ⟨p', hp'⟩ := List.getElem?_of_mem hpast'
  rcases Nat.lt_trichotomy p p' with hlt | rfl | hlt
  · exact absurd hlt (hnew hp hp' hstep hrun hclosure')
  · cases hp.symm.trans hp'
    cases hstep.symm.trans hstep'
    cases hthis.symm.trans hthis'
    rfl
  · exact absurd hlt (hnew hp' hp hstep' hrun' hclosure)

/-- `this` denotes in the calls of a method the value for which it was taken. -/
theorem denotesThis_receiver (h : Coherent log) (hi : log[i]? = some ev) {site : Site}
    {keyword : Token} {inner : List Region} {value : Value}
    (hthis : DenotesThis (log.take i) ev site keyword f inner value)
    (htaken : Taken (log.take i) g receiver f) : value = receiver := by
  obtain ⟨-, ⟨_, _, _, _, _, _, _, _, _, _, hclosure⟩, hholds, -⟩ := hthis
  unfold Store.getAt? at hholds
  rw [show ev.machine.store.ancestor? _ _ = some f.closure from hclosure, Option.bind_some,
    h.taken_binding hi htaken] at hholds
  exact (Option.some.inj hholds).symm

/-- In the calls of an initializer `this` denotes a value for which it was taken. -/
theorem denotesThis_taken (h : Coherent log)
    (hattested : ∀ (i : Nat) (ev : Event), log[i]? = some ev → ev.Attested (log.take i))
    (hi : log[i]? = some ev) (hf : f.isInitializer = true) {site : Site} {keyword : Token}
    {inner : List Region} {value : Value}
    (hthis : DenotesThis (log.take i) ev site keyword f inner value) :
    ∃ g, Taken log g value f := by
  obtain ⟨call, hcall, _, arguments, _, _, htasks, _⟩ := hthis.call
  obtain ⟨q, hq, hget⟩ := List.mem_take_iff_getElem.mp hcall
  have hcalled := (hattested q call (by rw [← hget]; simp)).tasks (.invoke f arguments)
    (htasks ▸ List.mem_cons_self) (.function f) List.mem_cons_self
  obtain ⟨g, receiver, htaken, -⟩ := hcalled hf
  have hsub : log.take q ⊆ log.take i :=
    (List.take_sublist_take_left (Nat.le_of_lt (Nat.lt_min.mp hq).1)).subset
  obtain rfl := h.denotesThis_receiver hi hthis (htaken.mono hsub)
  exact ⟨g, htaken.mono (List.take_subset q log)⟩

end Coherent

/-! ## Moments at which calls end -/

/-- The class whose call ends at this moment, its arguments and what the call gives. -/
def Event.construction? (ev : Event) : Option (Class × Token × List Value × Value) :=
  match ev.occurrence with
  | .ends (.call (.cls c) paren arguments) result => some (c, paren, arguments, result)
  | _ => none

theorem Event.construction?_some {ev : Event} {c : Class} {paren : Token} {arguments : List Value}
    {result : Value} (h : ev.construction? = some (c, paren, arguments, result)) :
    ev.occurrence = .ends (.call (.cls c) paren arguments) result := by
  unfold construction? at h
  split at h
  next heq =>
    cases h
    exact heq
  next => cases h

/-- The function whose call ends at this moment, its arguments and what the call gives. -/
def Event.invocation? (ev : Event) : Option (Function × List Value × Value) :=
  match ev.occurrence with
  | .ends (.invoke f arguments) result => some (f, arguments, result)
  | _ => none

theorem Event.invocation?_some {ev : Event} {f : Function} {arguments : List Value}
    {result : Value} (h : ev.invocation? = some (f, arguments, result)) :
    ev.occurrence = .ends (.invoke f arguments) result := by
  unfold invocation? at h
  split at h
  next heq =>
    cases h
    exact heq
  next => cases h

/-- The site and the keyword of the `this` that is evaluated at this moment. -/
def Event.receiver? (ev : Event) : Option (Site × Token) :=
  match ev.occurrence.refers? with
  | some (.receiver site keyword) => some (site, keyword)
  | _ => none

theorem Event.receiver?_some {ev : Event} {site : Site} {keyword : Token}
    (h : ev.receiver? = some (site, keyword)) :
    ∃ halt m, ev.occurrence = .step (.refers (.receiver site keyword)) halt m := by
  unfold receiver? at h
  split at h
  next he =>
    cases h
    exact Occurrence.refers?_some he
  next => cases h

end Eval

open Eval

namespace Chronicle

/-! ## Sessions -/

/-- A call of a class gives an instance of just this class, made after the arguments were evaluated:
no value that a program could get hold of at that moment is equal to it. A function is an
initializer just if it was taken, for some receiver, from a class's ordinary method `init`. All its
calls that end give this receiver, and that is what `this` denotes in all its calls. Whenever `this`
is evaluated, it is in the call of a function. -/
theorem constructions_return_instance (input : Input) (output : Output) (host : Host) (fuel : Nat)
    (steps : List Step) :
    let log := (takeAll fuel steps (start input output host)).run.history.log
    (∀ i ev, log[i]? = some ev → ∀ c paren arguments result,
      ev.occurrence = .ends (.call (.cls c) paren arguments) result →
        ∃ k evaluated, k < i ∧ log[k]? = some evaluated ∧
          Constructs evaluated ((log.take i).drop (k + 1)) ev c paren arguments result ∧
          ∀ a v, Holds (log.take (k + 1)) evaluated.machine a →
            evaluated.machine.store.Reaches a (.value v) → v.equals result = false) ∧
    (∀ i ev, log[i]? = some ev → ∀ f arguments result,
      ev.occurrence = .ends (.invoke f arguments) result →
        (f.isInitializer = true ↔
          ∃ g receiver, Taken (log.take i) g receiver f ∧ OrdinaryInit (log.take i) g) ∧
        ∀ g receiver, Taken (log.take i) g receiver f → OrdinaryInit (log.take i) g →
          result = receiver ∧
          ∀ k ev' site keyword inner value, log[k]? = some ev' →
            DenotesThis (log.take k) ev' site keyword f inner value → value = receiver) ∧
    ∀ k ev, log[k]? = some ev → ∀ site keyword halt m,
      ev.occurrence = .step (.refers (.receiver site keyword)) halt m →
        ∃ f inner value, DenotesThis (log.take k) ev site keyword f inner value := by
  intro log
  have hlog : Coherent log := log_coherent input output host fuel steps
  have hattested : ∀ (i : Nat) (ev : Event), log[i]? = some ev → ev.Attested (log.take i) :=
    log_attested input output host fuel steps
  have hfulfills : ∀ (i : Nat) (ev : Event), log[i]? = some ev → ev.Fulfills (log.take i) := by
    intro i ev hi
    obtain ⟨hlt, rfl⟩ := List.getElem?_eq_some_iff.mp hi
    refine log_fulfilled input output host fuel steps (log.take i) _ (log.drop (i + 1)) ?_
    rw [List.getElem_cons_drop, List.take_append_drop]
  refine ⟨fun i ev hi c paren arguments result hends => ?_,
    fun i ev hi f arguments result hends => ?_,
    fun k ev hk site keyword halt m hstep => hlog.denotesThis hk hstep⟩
  · obtain ⟨before, evaluated, during, htake, hconstructs⟩ :=
      (hfulfills i ev hi).construction c paren arguments result hends
    obtain ⟨hlt, hevaluated, hduring⟩ := List.getElem?_of_take_eq htake
    refine ⟨before.length, evaluated, hlt, hevaluated, hduring.symm ▸ hconstructs,
      fun a v ha hv => ?_⟩
    -- what could be reached has a smaller number
    rw [hconstructs.result]
    refine Value.equals_later fun p hp => ?_
    exact Event.Attested.reaches_made hattested hevaluated ha (hp ▸ hv)
  · have htaken_of := (hattested i ev hi).result _ _ hends (.function f) List.mem_cons_self
    refine ⟨⟨htaken_of, fun ⟨g, receiver, htaken, hg⟩ =>
      htaken.isInitializer.trans hg.isInitializer⟩, fun g receiver htaken hg => ?_⟩
    have hf : f.isInitializer = true := htaken.isInitializer.trans hg.isInitializer
    refine ⟨?_, fun k ev' site keyword inner value hk hthis => ?_⟩
    · rw [(hfulfills i ev hi).initializer f arguments result hends hf,
        Store.getAt?_zero (hlog.taken_binding hi htaken)]
      rfl
    · obtain ⟨g', htaken'⟩ := hlog.denotesThis_taken hattested hk hf hthis
      exact hlog.taken_receiver htaken' (htaken.mono (List.take_subset i log))

/-- An initializer keeps its instance elsewhere and returns early. It is called in a construction,
by way of `super`, and again as a method that was kept. -/
theorem constructions_return_instance_early :
    let steps : List Step := [.run "var kept; var f;
        class A \x7b init(x) \x7b kept = this; if (x) return; 1; \x7d \x7d",
      .run "class B < A \x7b init() \x7b super.init(true); f = super.init; \x7d \x7d B(); f(true);"]
    let log := (takeAll 20 steps (start ⟨[]⟩ {} ⟨fun _ => 0, fun _ => 0, 0, 0⟩)).run.history.log
    (∃ i ev c paren arguments result, log[i]? = some ev ∧
      ev.occurrence = .ends (.call (.cls c) paren arguments) result ∧ c.name = "B" ∧
      ∃ k evaluated, log[k]? = some evaluated ∧
        Constructs evaluated ((log.take i).drop (k + 1)) ev c paren arguments result) ∧
    (∃ i ev f arguments result, log[i]? = some ev ∧
      ev.occurrence = .ends (.invoke f arguments) result ∧ arguments.length = 1 ∧
      ev.around.tasks.length = 3 ∧
      ∃ g, Taken (log.take i) g result f ∧ OrdinaryInit (log.take i) g) ∧
    ∃ k ev f site keyword inner value, log[k]? = some ev ∧
      DenotesThis (log.take k) ev site keyword f inner value := by
  intro steps log
  obtain ⟨hconstructed, hinvoked, hthis⟩ :=
    constructions_return_instance ⟨[]⟩ {} ⟨fun _ => 0, fun _ => 0, 0, 0⟩ 20 steps
  -- the log is searched by evaluation; the theorem then speaks of whatever was found
  have hclass : log.any (fun ev => ev.construction?.any fun p => p.1.name == "B") = true := by
    decide +kernel
  have hinit : log.any (fun ev => ev.invocation?.any fun p => p.1.isInitializer &&
      (p.2.1.length == 1 && ev.around.tasks.length == 3)) = true := by
    decide +kernel
  have hreceiver : log.any (fun ev => ev.receiver?.isSome) = true := by
    decide +kernel
  refine ⟨?_, ?_, ?_⟩
  · obtain ⟨ev, hev, hclass⟩ := List.any_eq_true.mp hclass
    obtain ⟨i, hi⟩ := List.getElem?_of_mem hev
    obtain ⟨⟨c, paren, arguments, result⟩, hends, hname⟩ := (Option.any_eq_true _ _).mp hclass
    have hoccurrence := Event.construction?_some hends
    obtain ⟨k, evaluated, _, hk, hconstructs, _⟩ :=
      hconstructed i ev hi c paren arguments result hoccurrence
    exact ⟨i, ev, c, paren, arguments, result, hi, hoccurrence, eq_of_beq hname, k, evaluated, hk,
      hconstructs⟩
  · obtain ⟨ev, hev, hinit⟩ := List.any_eq_true.mp hinit
    obtain ⟨i, hi⟩ := List.getElem?_of_mem hev
    obtain ⟨⟨f, arguments, result⟩, hends, hf⟩ := (Option.any_eq_true _ _).mp hinit
    obtain ⟨hf, hplace⟩ := (Bool.and_eq_true _ _).mp hf
    obtain ⟨hlength, htasks⟩ := (Bool.and_eq_true _ _).mp hplace
    have hoccurrence := Event.invocation?_some hends
    obtain ⟨hflag, hreturns⟩ := hinvoked i ev hi f arguments result hoccurrence
    obtain ⟨g, receiver, htaken, hg⟩ := hflag.mp hf
    obtain ⟨rfl, _⟩ := hreturns g receiver htaken hg
    exact ⟨i, ev, f, arguments, result, hi, hoccurrence, eq_of_beq hlength, eq_of_beq htasks, g,
      htaken, hg⟩
  · obtain ⟨ev, hev, hreceiver⟩ := List.any_eq_true.mp hreceiver
    obtain ⟨k, hk⟩ := List.getElem?_of_mem hev
    obtain ⟨⟨site, keyword⟩, hreceiver⟩ := Option.isSome_iff_exists.mp hreceiver
    obtain ⟨halt, m, hstep⟩ := Event.receiver?_some hreceiver
    obtain ⟨f, inner, value, hdenotes⟩ := hthis k ev hk site keyword halt m hstep
    exact ⟨k, ev, f, site, keyword, inner, value, hk, hdenotes⟩

end Chronicle

end Lox
