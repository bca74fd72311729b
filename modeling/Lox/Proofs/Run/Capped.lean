import Lox.Proofs.Run.Chronicle
import Lox.Proofs.Run.Silent

/-!
# A sink that fills up

A sink that holds `limit` bytes takes the first ones that are written and refuses all others. A run
with such a sink is followed beside one whose sink has no end. The two go through the same moments
but for the bytes that did not fit (`Run.Abreast`), until a `print` is refused: that stops the one
run with an error at the keyword, and by then its sink is full, while the other goes on
(`Run.Parted`). So an output is cut in one case and left alone in the other, and `EndsCapped` says
this of every way in which a computation can end.
-/

namespace Lox

/-! ## Outputs -/

namespace Output

/-- The output of a sink that holds `limit` bytes, for all that was written to a sink without end.
It is the same bytes as long as these fit. -/
def capped (limit : Nat) (o : Output) : Output where
  bytes := o.bytes.take limit
  limit := some limit

/-- What fits is all there. -/
theorem capped_of_fits {limit : Nat} {o : Output} (h : o.bytes.size ≤ limit) :
    o.capped limit = { o with limit := some limit } := by
  unfold capped
  rw [Array.take_eq_extract, Array.extract_eq_self_of_le h]

/-- Later bytes stand behind the earlier ones, and no more of them than fit. -/
structure Extends (o o' : Output) : Prop where
  limit : o'.limit = o.limit
  bytes : ∃ more, o'.bytes = o.bytes ++ more
  within : ∀ limit, o.limit = some limit → o.bytes.size ≤ limit → o'.bytes.size ≤ limit

/-- An output extends itself. -/
theorem Extends.refl (o : Output) : o.Extends o :=
  ⟨rfl, ⟨#[], Array.append_empty.symm⟩, fun _ _ h => h⟩

/-- More and more may be written. -/
theorem Extends.trans {o o' o'' : Output} (h : o.Extends o') (h' : o'.Extends o'') :
    o.Extends o'' := by
  obtain ⟨more, hmore⟩ := h.bytes
  obtain ⟨more', hmore'⟩ := h'.bytes
  refine ⟨h'.limit.trans h.limit, ⟨more ++ more', by rw [hmore', hmore, Array.append_assoc]⟩, ?_⟩
  exact fun limit hl hle => h'.within limit (h.limit.trans hl) (h.within limit hl hle)

/-- A sink that is full stays as it is. -/
theorem Extends.full {limit : Nat} {o o' : Output} (h : o.Extends o') (hl : o.limit = some limit)
    (hfull : o.bytes.size = limit) : o'.bytes = o.bytes := by
  obtain ⟨more, hmore⟩ := h.bytes
  have hsize := h.within limit hl (Nat.le_of_eq hfull)
  rw [hmore, Array.size_append] at hsize
  have hnone : more.size = 0 := by omega
  rw [hmore, Array.eq_empty_of_size_eq_zero hnone, Array.append_empty]

/-- Nothing is taken back. -/
theorem Extends.size_le {o o' : Output} (h : o.Extends o') : o.bytes.size ≤ o'.bytes.size := by
  obtain ⟨more, hmore⟩ := h.bytes
  rw [hmore, Array.size_append]
  exact Nat.le_add_right _ _

/-- The first bytes stay as they are. -/
theorem Extends.take {limit : Nat} {o o' : Output} (h : o.Extends o')
    (hfull : limit ≤ o.bytes.size) : o'.bytes.take limit = o.bytes.take limit := by
  obtain ⟨more, hmore⟩ := h.bytes
  rw [hmore, Array.take_eq_extract, Array.take_eq_extract, Array.extract_append,
    Nat.sub_eq_zero_of_le hfull, Array.extract_zero, Array.append_empty]

variable {o : Output} (bytes : Array UInt8)

/-- Writing puts bytes behind those there are, as far as they fit. -/
theorem writeBytes_extends : o.Extends (o.writeBytes bytes).2 :=
  ⟨rfl, ⟨_, rfl⟩, fun _ hl h => size_writeBytes_le hl h bytes⟩

/-- Writing a line puts bytes behind those there are, as far as they fit. -/
theorem writeLine_extends (s : String) : o.Extends (o.writeLine s).2 :=
  writeBytes_extends _

variable {limit : Nat} (h : o.limit = none)

include h

/-- All that is written to a sink without end fits. -/
theorem writeLine_fits (s : String) : (o.writeLine s).1 = true := by
  simp only [writeLine, writeBytes, fitting, h, decide_true]

/-- What does not fit is left out. -/
theorem writeBytes_capped :
    ((o.capped limit).writeBytes bytes).2 = (o.writeBytes bytes).2.capped limit := by
  have hroom : limit - min limit o.bytes.size = limit - o.bytes.size := by omega
  simp only [writeBytes, fitting, capped, h, Array.take_eq_extract, Array.extract_append,
    Array.size_extract, Nat.sub_zero, Nat.zero_sub, hroom]

/-- A line that is written into the capped sink is the capped line of the endless one. -/
theorem writeLine_capped (s : String) :
    ((o.capped limit).writeLine s).2 = (o.writeLine s).2.capped limit :=
  writeBytes_capped _ h

/-- Something does not fit only if that is more than the sink holds. -/
theorem writeBytes_exceeds (hrefused : ((o.capped limit).writeBytes bytes).1 = false) :
    limit < (o.writeBytes bytes).2.bytes.size := by
  simp only [writeBytes, fitting, capped, Array.take_eq_extract, Array.size_extract,
    decide_eq_false_iff_not] at hrefused
  simp only [writeBytes, fitting, h, Array.size_append]
  omega

/-- A line is refused only if there is more then than the sink holds. -/
theorem writeLine_exceeds {s : String} (hrefused : ((o.capped limit).writeLine s).1 = false) :
    limit < (o.writeLine s).2.bytes.size :=
  writeBytes_exceeds _ h hrefused

end Output

/-- The machine with a sink that holds `limit` bytes. -/
def Machine.capped (limit : Nat) (m : Machine) : Machine :=
  m.withOutput (m.output.capped limit)

/-- As long as the output fits, only the limit is different. -/
theorem Machine.capped_of_fits {limit : Nat} {m : Machine} (h : m.output.bytes.size ≤ limit) :
    m.capped limit = { m with output.limit := some limit } :=
  congrArg m.withOutput (Output.capped_of_fits h)

namespace Eval

open Exec

/-! ## Runs that go on -/

/-- The later moments stand behind the earlier ones, and so do the bytes. -/
structure Run.Goes (r r₁ : Run) : Prop where
  output : r.machine.output.Extends r₁.machine.output
  log : ∃ evs, r₁.history.log = r.history.log ++ evs ∧
    ∀ ev ∈ evs, r.machine.output.Extends ev.machine.output

/-- A run goes on from itself. -/
theorem Run.Goes.refl (r : Run) : r.Goes r :=
  ⟨.refl _, [], (List.append_nil _).symm, fun _ h => nomatch h⟩

/-- A run goes on and on. -/
theorem Run.Goes.trans {r r₁ r₂ : Run} (h : r.Goes r₁) (h' : r₁.Goes r₂) : r.Goes r₂ := by
  obtain ⟨evs, hlog, hevs⟩ := h.log
  obtain ⟨evs', hlog', hevs'⟩ := h'.log
  refine ⟨h.output.trans h'.output, evs ++ evs', by rw [hlog', hlog, List.append_assoc], ?_⟩
  intro ev hev
  rcases List.mem_append.mp hev with hev | hev
  · exact hevs ev hev
  · exact h.output.trans (hevs' ev hev)

/-- A run goes on with one more moment, at the machine it was at. -/
theorem Run.Goes.logged {r r₁ : Run} {ev : Event}
    (houtput : r.machine.output.Extends r₁.machine.output)
    (hlog : r₁.history.log = r.history.log ++ [ev]) (hev : ev.machine = r.machine) : r.Goes r₁ := by
  refine ⟨houtput, [ev], hlog, fun ev' h => ?_⟩
  rw [List.mem_singleton.mp h, hev]
  exact .refl _

/-- A run goes on by a step that extends the output. -/
theorem Run.Goes.took {r : Run} (around : Surroundings) (mark : Mark) (halt : Option Halt)
    {m : Machine} (hm : r.machine.output.Extends m.output) : r.Goes (r.took around mark halt m) :=
  .logged hm rfl rfl

/-! ## Two runs beside each other -/

/-- At this moment a value is printed for a statement with this keyword. If it does not fit, that
stops the run. -/
structure Event.Prints (ev : Event) (keyword : Token) (value : Value) : Prop where
  task : ∃ e outer, ev.around.tasks = .statement (.print keyword e) :: outer
  occurrence : ∃ mark, ev.occurrence = .step mark
    (if (ev.machine.output.writeLine value.text).1 then none
      else some (.fault ⟨keyword, .outputRefused⟩))
    (ev.machine.withOutput (ev.machine.output.writeLine value.text).2)

/-- At this moment a `print` is refused. -/
def Event.Refuses (ev : Event) : Prop :=
  ∃ keyword value, ev.Prints keyword value ∧ (ev.machine.output.writeLine value.text).1 = false

/-- Only `print` statements print. -/
theorem Event.not_refuses_of_other {ev : Event} (h : ¬Printing ev.around.tasks) : ¬ev.Refuses :=
  fun ⟨keyword, _, ⟨⟨e, outer, htask⟩, _⟩, _⟩ => h ⟨keyword, e, outer, htask⟩

/-- What is refused stops the run. -/
theorem Event.not_refuses_of_goes {around : Surroundings} {origins : Origins} {m after : Machine}
    {mark : Mark} : ¬(Event.mk around origins m (.step mark none after)).Refuses := by
  rintro ⟨keyword, value, ⟨-, mark', hoccurrence⟩, hfits⟩
  rw [hfits] at hoccurrence
  cases hoccurrence

/-- Where a task ends, nothing is printed. -/
theorem Event.not_refuses_of_ends {around : Surroundings} {origins : Origins} {m : Machine}
    {t : Task} {result : t.Result} : ¬(Event.mk around origins m (.ends t result)).Refuses :=
  fun ⟨_, _, ⟨_, _, hoccurrence⟩, _⟩ => nomatch hoccurrence

/-- The moment as it is with a sink that holds `limit` bytes. -/
def Event.capped (limit : Nat) (ev : Event) : Event where
  around := ev.around
  origins := ev.origins
  machine := ev.machine.capped limit
  occurrence :=
    match ev.occurrence with
    | .step mark halt after => .step mark halt (after.capped limit)
    | .ends t result => .ends t result

/-- The first run has a sink without end, and the second one is the same but for a sink that holds
`limit` bytes. -/
structure Run.Matches (limit : Nat) (r r' : Run) : Prop where
  endless : r.machine.output.limit = none
  machine : r'.machine = r.machine.capped limit
  origins : r'.history.origins = r.history.origins

/-- Two runs went on through the same moments, with no `print` refused, and still match. -/
structure Run.Abreast (limit : Nat) (r r' r₁ r₁' : Run) : Prop
    extends Run.Matches limit r₁ r₁' where
  log : ∃ evs, r₁.history.log = r.history.log ++ evs ∧
    r₁'.history.log = r'.history.log ++ evs.map (·.capped limit) ∧
    ∀ ev ∈ evs, ¬(ev.capped limit).Refuses

/-- At the same moment of two runs the same is at work, and the machines are the same but for a sink
of `limit` bytes in the second one. -/
structure Event.SameIn (limit : Nat) (ev ev' : Event) : Prop where
  around : ev'.around = ev.around
  origins : ev'.origins = ev.origins
  machine : ev'.machine = ev.machine.capped limit

/-- At the same moment of two runs the same value is printed, and it does not fit into the sink of
the second one. -/
structure Event.RefusedIn (limit : Nat) (keyword : Token) (ev ev' : Event) : Prop
    extends Event.SameIn limit ev ev' where
  prints : ∃ value, ev.Prints keyword value ∧ ev'.Prints keyword value ∧
    (ev'.machine.output.writeLine value.text).1 = false

/-- Two runs went on through the same moments until a `print` was refused in the second one. That
was its last moment, which left its sink full, and its machine as it is but for the frame that is
current, while the first one may have gone on. -/
structure Run.Parted (limit : Nat) (keyword : Token) (r r' r₁ r₁' : Run) : Prop where
  log : ∃ shared ev ev' rest, (∀ e ∈ shared, ¬(e.capped limit).Refuses) ∧
    ev.RefusedIn limit keyword ev' ∧
    r₁.history.log = r.history.log ++ (shared ++ ev :: rest) ∧
    r₁'.history.log = r'.history.log ++ (shared.map (·.capped limit) ++ [ev']) ∧
    (∀ later ∈ rest, limit < later.machine.output.bytes.size) ∧
    ∃ mark halt after, ev'.occurrence = .step mark halt after ∧
      r₁'.machine = { after with current := r₁'.machine.current }
  output : r₁'.machine.output = r₁.machine.output.capped limit
  full : limit < r₁.machine.output.bytes.size

/-- How a computation ends with a sink without end, and how it ends with one that holds `limit`
bytes. -/
inductive EndsCapped (limit : Nat) (r r' : Run) {α : Type} :
    EStateM.Result Halt Run α → EStateM.Result Halt Run α → Prop where
  | ok {a : α} {r₁ r₁' : Run} (h : Run.Abreast limit r r' r₁ r₁') :
      EndsCapped limit r r' (.ok a r₁) (.ok a r₁')
  | error {e : Halt} {r₁ r₁' : Run} (h : Run.Abreast limit r r' r₁ r₁') :
      EndsCapped limit r r' (.error e r₁) (.error e r₁')
  | refused {result : EStateM.Result Halt Run α} {keyword : Token} {r₁' : Run}
      (h : Run.Parted limit keyword r r' (endOf result) r₁') :
      EndsCapped limit r r' result (.error (.fault ⟨keyword, .outputRefused⟩) r₁')

namespace Run

variable {limit : Nat} {keyword : Token} {r r' r₁ r₁' r₂ r₂' : Run}

/-- Runs that match are abreast before the first moment. -/
theorem Matches.abreast (h : r.Matches limit r') : Abreast limit r r' r r' :=
  ⟨h, [], (List.append_nil _).symm, (List.append_nil _).symm, fun _ h => nomatch h⟩

/-- One more moment of both. -/
theorem Abreast.logged (ev : Event) (hmatches : r₁.Matches limit r₁')
    (hlog : r₁.history.log = r.history.log ++ [ev])
    (hlog' : r₁'.history.log = r'.history.log ++ [ev.capped limit])
    (hev : ¬(ev.capped limit).Refuses) : Abreast limit r r' r₁ r₁' :=
  ⟨hmatches, [ev], hlog, hlog', fun _ h => List.mem_singleton.mp h ▸ hev⟩

/-- Runs that stay abreast for two stretches do so for the whole. -/
theorem Abreast.trans (h : Abreast limit r r' r₁ r₁') (h' : Abreast limit r₁ r₁' r₂ r₂') :
    Abreast limit r r' r₂ r₂' := by
  obtain ⟨evs, hlog, hlog', hevs⟩ := h.log
  obtain ⟨more, hmore, hmore', hmoments⟩ := h'.log
  refine ⟨h'.toMatches, evs ++ more, ?_, ?_, ?_⟩
  · rw [hmore, hlog, List.append_assoc]
  · rw [hmore', hlog', List.map_append, List.append_assoc]
  · exact fun ev hev => (List.mem_append.mp hev).elim (hevs ev) (hmoments ev)

/-- Runs that were abreast first have parted since. -/
theorem Abreast.parted (h : Abreast limit r r' r₁ r₁') (h' : Parted limit keyword r₁ r₁' r₂ r₂') :
    Parted limit keyword r r' r₂ r₂' := by
  obtain ⟨evs, hlog, hlog', hevs⟩ := h.log
  obtain ⟨shared, ev, ev', rest, hshared, hrefused, hmore, hmore', hlast⟩ := h'.log
  refine ⟨⟨evs ++ shared, ev, ev', rest, ?_, hrefused, ?_, ?_, hlast⟩, h'.output, h'.full⟩
  · exact fun e he => (List.mem_append.mp he).elim (hevs e) (hshared e)
  · rw [hmore, hlog, List.append_assoc, List.append_assoc]
  · rw [hmore', hlog', List.map_append, List.append_assoc, List.append_assoc]

/-- Runs that have parted stay so when the first one goes on. -/
theorem Parted.goes (h : Parted limit keyword r r' r₁ r₁') (h' : r₁.Goes r₂) :
    Parted limit keyword r r' r₂ r₁' := by
  obtain ⟨shared, ev, ev', rest, hshared, hrefused, hlog, hlog', hlater, hlast⟩ := h.log
  obtain ⟨more, hmore, hmoments⟩ := h'.log
  refine ⟨⟨shared, ev, ev', rest ++ more, hshared, hrefused, ?_, hlog', ?_, hlast⟩, ?_, ?_⟩
  · rw [hmore, hlog]
    simp only [List.append_assoc, List.cons_append]
  · intro later hmem
    rcases List.mem_append.mp hmem with hmem | hmem
    · exact hlater later hmem
    · exact Nat.lt_of_lt_of_le h.full (hmoments later hmem).size_le
  · rw [h.output]
    unfold Output.capped
    rw [h'.output.take (Nat.le_of_lt h.full)]
  · exact Nat.lt_of_lt_of_le h.full h'.output.size_le

/-- The same step taken in both runs. -/
theorem Matches.took (h : r.Matches limit r') {around : Surroundings} (mark : Mark)
    (halt : Option Halt) {m : Machine} (hm : m.output.limit = none)
    (hgoes : ¬Printing around.tasks ∨ halt = none) :
    Abreast limit r r' (r.took around mark halt m)
      (r'.took around mark halt (m.capped limit)) := by
  have hstore : r'.machine.store = r.machine.store := by
    rw [h.machine]
    rfl
  refine Abreast.logged ⟨around, r.history.origins, r.machine, .step mark halt m⟩
    ⟨hm, rfl, ?_⟩ rfl ?_ ?_
  · show r'.history.origins.after around mark r'.machine.store m.store = _
    rw [hstore, h.origins]
    rfl
  · show r'.history.log ++ [⟨around, r'.history.origins, r'.machine, _⟩] = _
    rw [h.origins, h.machine]
    rfl
  · rcases hgoes with hother | rfl
    · exact Event.not_refuses_of_other hother
    · exact Event.not_refuses_of_goes

/-- The same text written in both runs. -/
theorem Matches.written (h : r.Matches limit r') (s : String) :
    r'.machine.withOutput (r'.machine.output.writeLine s).2 =
      (r.machine.withOutput (r.machine.output.writeLine s).2).capped limit := by
  rw [h.machine]
  show r.machine.withOutput ((r.machine.output.capped limit).writeLine s).2 = _
  rw [Output.writeLine_capped h.endless s]
  rfl

/-- The end of a task recorded in both runs. -/
theorem Matches.record (h : r.Matches limit r') (around : Surroundings) (t : Task)
    (result : t.Result) :
    Abreast limit r r' (r.record around (.ends t result)) (r'.record around (.ends t result)) := by
  refine Abreast.logged ⟨around, r.history.origins, r.machine, .ends t result⟩
    ⟨h.endless, h.machine, h.origins⟩ rfl ?_ Event.not_refuses_of_ends
  show r'.history.log ++ [⟨around, r'.history.origins, r'.machine, _⟩] = _
  rw [h.origins, h.machine]
  rfl

/-- Both runs may go into a frame. -/
theorem Matches.atFrame (h : r.Matches limit r') (frame : FrameId) :
    (r.atFrame frame).Matches limit (r'.atFrame frame) := by
  refine ⟨h.endless, ?_, h.origins⟩
  show { r'.machine with current := frame } = _
  rw [h.machine]
  rfl

/-- A frame left in both runs. -/
theorem Abreast.leave {frame : FrameId}
    (h : Abreast limit (r.atFrame frame) (r'.atFrame frame) r₁ r₁') (former : FrameId) :
    Abreast limit r r' (r₁.atFrame former) (r₁'.atFrame former) :=
  ⟨h.toMatches.atFrame former, h.log⟩

/-- Leaving a frame after runs have parted changes only the current frame. -/
theorem Parted.leave {frame : FrameId}
    (h : Parted limit keyword (r.atFrame frame) (r'.atFrame frame) r₁ r₁') (former : FrameId) :
    Parted limit keyword r r' (r₁.atFrame former) (r₁'.atFrame former) := by
  obtain ⟨shared, ev, ev', rest, hshared, hrefused, hlog, hlog', hlater, mark, halt, after, hlast,
    hmachine⟩ := h.log
  refine ⟨⟨shared, ev, ev', rest, hshared, hrefused, hlog, hlog', hlater, mark, halt, after, hlast,
    ?_⟩, h.output, h.full⟩
  show { r₁'.machine with current := former } = { after with current := former }
  rw [hmachine]

end Run

/-- What `print` does depends only on whether the line is accepted. -/
theorem print_eq (keyword : Token) (value : Value) (m : Machine) :
    print keyword value m = if (m.output.writeLine value.text).1 then
      .ok () (m.withOutput (m.output.writeLine value.text).2)
    else .error (.fault ⟨keyword, .outputRefused⟩)
      (m.withOutput (m.output.writeLine value.text).2) := by
  unfold Eval.print
  show EStateM.bind (writeLine value) _ m = _
  unfold EStateM.bind writeLine
  dsimp only
  cases (m.output.writeLine value.text).1 <;> rfl

/-- What a computation does with a sink that holds `limit` bytes is what it does with one without
end, cut short. -/
structure Capping (limit : Nat) {α : Type} (x : Traced α) : Prop where
  goes : ∀ r : Run, r.Goes (endOf (x r))
  ends : ∀ r r' : Run, r.Matches limit r' → EndsCapped limit r r' (x r) (x r')

namespace Capping

variable {limit : Nat} {α β : Type} {x : Traced α} {f : α → Traced β}

/-- A result is the same with both sinks. -/
theorem pure (a : α) : Capping limit (pure a : Traced α) :=
  ⟨fun r => .refl r, fun _ _ h => .ok h.abreast⟩

/-- After a refusal nothing goes on in the second run, whatever the first one does. -/
theorem bind (hx : Capping limit x) (hf : ∀ a, Capping limit (f a)) :
    Capping limit (x >>= f) := by
  constructor
  · intro r
    show r.Goes (endOf (EStateM.bind x f r))
    unfold EStateM.bind
    have hr := hx.goes r
    cases hxr : x r with
    | ok a r₁ =>
      rw [hxr] at hr
      exact hr.trans ((hf a).goes r₁)
    | error e r₁ =>
      rw [hxr] at hr
      exact hr
  -- the second run has ended where the first may go on; what the first does then does not matter
  · intro r r' h
    show EndsCapped limit r r' (EStateM.bind x f r) (EStateM.bind x f r')
    unfold EStateM.bind
    have hr := hx.ends r r' h
    generalize x r = result at hr
    generalize x r' = result' at hr
    cases hr with
    | @ok a r₁ r₁' hrun =>
      dsimp only
      have hnext := (hf a).ends r₁ r₁' hrun.toMatches
      generalize f a r₁ = result at hnext
      generalize f a r₁' = result' at hnext
      cases hnext with
      | ok h' => exact .ok (hrun.trans h')
      | error h' => exact .error (hrun.trans h')
      | refused h' => exact .refused (hrun.parted h')
    | error hrun => exact .error hrun
    | refused hparted =>
      cases result with
      | ok a r₁ => exact .refused (hparted.goes ((hf a).goes r₁))
      | error e r₁ => exact .refused hparted

/-- A silent step does the same in both runs, whatever the limit is. -/
theorem observe_silent {around : Surroundings} (hother : ¬Printing around.tasks) (mark : Mark)
    {y : Exec α} (hy : Silent y) : Capping limit (observe around mark y) := by
  constructor
  · intro r
    unfold observe
    cases hrun : y r.machine with
    | ok a m => exact .took _ _ _ (hy.output_of_ok hrun ▸ .refl _)
    | error e m => exact .took _ _ _ (hy.output_of_error hrun ▸ .refl _)
  · intro r r' h
    have hsame := hy r.machine (r.machine.output.capped limit)
    unfold observe
    rw [h.machine]
    unfold Machine.capped
    rw [hsame]
    cases hrun : y r.machine with
    | ok a m =>
      have hm := hy.output_of_ok hrun
      have htook := h.took mark none (m := m) (hm ▸ h.endless) (.inl hother)
      unfold Machine.capped at htook
      rw [hm] at htook
      exact .ok htook
    | error e m =>
      have hm := hy.output_of_error hrun
      have htook := h.took mark (some e) (m := m) (hm ▸ h.endless) (.inl hother)
      unfold Machine.capped at htook
      rw [hm] at htook
      exact .error htook

/-- A value printed for a `print` statement. -/
theorem observe_print {around : Surroundings} {keyword : Token} {e : Expr} {outer : List Task}
    (htask : around.tasks = .statement (.print keyword e) :: outer) (mark : Mark) (value : Value) :
    Capping limit (observe around mark (print keyword value)) := by
  have hextends : ∀ m : Machine, m.output.Extends
      (m.withOutput (m.output.writeLine value.text).2).output :=
    fun m => Output.writeLine_extends value.text
  constructor
  · intro r
    unfold Eval.observe
    rw [print_eq]
    cases (r.machine.output.writeLine value.text).1 with
    | true => exact .took around mark none (hextends r.machine)
    | false => exact .took around mark (some _) (hextends r.machine)
  -- the endless sink takes the text; the limited one takes it too or refuses it
  · intro r r' h
    have hfits := Output.writeLine_fits h.endless value.text
    have hcapped := h.written value.text
    have hrun : observe around mark (print keyword value) r = .ok () (r.took around mark none
        (r.machine.withOutput (r.machine.output.writeLine value.text).2)) := by
      unfold observe
      rw [print_eq, if_pos hfits]
    rw [hrun]
    unfold observe
    rw [print_eq, hcapped]
    cases hfits' : (r'.machine.output.writeLine value.text).1 with
    | true => exact .ok (h.took mark none h.endless (.inr rfl))
    | false =>
      let printed := r.machine.withOutput (r.machine.output.writeLine value.text).2
      let refusal := Halt.fault ⟨keyword, .outputRefused⟩
      -- the two runs part at this very step: `none` noted by the one, the refusal by the other
      refine .refused ⟨⟨[], ⟨around, r.history.origins, r.machine, .step mark none printed⟩,
        ⟨around, r'.history.origins, r'.machine, .step mark (some refusal) (printed.capped limit)⟩,
        [], ?_, ⟨⟨rfl, h.origins, h.machine⟩, value, ?_, ?_, hfits'⟩, rfl, rfl, ?_, mark, _, _, rfl,
        rfl⟩, rfl, ?_⟩
      · exact fun _ hmem => nomatch hmem
      · exact ⟨⟨e, outer, htask⟩, mark, by rw [if_pos hfits]⟩
      · exact ⟨⟨e, outer, htask⟩, mark, by rw [hfits', hcapped]; rfl⟩
      · exact fun _ hmem => nomatch hmem
      · rw [h.machine] at hfits'
        exact Output.writeLine_exceeds h.endless hfits'

/-- A step that is no `print` is the same with both sinks; a `print` is, or it is refused. -/
theorem observe {tasks : List Task} {around : Surroundings} (htasks : around.tasks = tasks)
    (mark : Mark) {y : Exec α} (hy : Speaks tasks y) : Capping limit (observe around mark y) := by
  cases hy with
  | silent hother h => exact observe_silent (htasks ▸ hother) mark h
  | print htask value => exact observe_print (htasks.trans htask) mark value

/-- A value written as the result of an expression. If it does not fit, that changes nothing. -/
theorem writeResult {around : Surroundings} (mark : Mark) (value : Value) :
    Capping limit (Eval.observe around mark (writeLine value) >>= fun _ => Pure.pure value) := by
  constructor
  · intro r
    exact .took around mark none (Output.writeLine_extends value.text)
  · intro r r' h
    have hcapped := h.written value.text
    have hcond : ¬Printing around.tasks ∨ (none : Option Halt) = none := .inr rfl
    have htook := h.took mark none
      (m := r.machine.withOutput (r.machine.output.writeLine value.text).2) h.endless hcond
    rw [← hcapped] at htook
    exact .ok htook

/-- What happens inside a frame. -/
theorem withinFrame {frame : FrameId} (hx : Capping limit x) :
    Capping limit (withinFrame frame x) := by
  constructor
  · intro r
    have hr := hx.goes (r.atFrame frame)
    unfold Eval.withinFrame
    cases hrun : x (r.atFrame frame) with
    | ok a r₁ =>
      rw [hrun] at hr
      exact ⟨hr.output, hr.log⟩
    | error e r₁ =>
      rw [hrun] at hr
      exact ⟨hr.output, hr.log⟩
  · intro r r' h
    have hr := hx.ends _ _ (h.atFrame frame)
    have hcurrent : r'.machine.current = r.machine.current := by
      rw [h.machine]
      rfl
    unfold Eval.withinFrame
    rw [hcurrent]
    generalize x (r.atFrame frame) = result at hr
    generalize x (r'.atFrame frame) = result' at hr
    cases hr with
    | ok hrun => exact .ok (hrun.leave r.machine.current)
    | error hrun => exact .error (hrun.leave r.machine.current)
    | refused hparted =>
      cases result with
      | ok a r₁ => exact .refused (hparted.leave r.machine.current)
      | error e r₁ => exact .refused (hparted.leave r.machine.current)

/-- What runs inside a frame, whose surroundings are read off the origins. -/
theorem enter {sub : Surroundings → Traced α} (hsub : ∀ inner, Capping limit (sub inner))
    (around : Surroundings) (frame : FrameId) (callee : Option Function) :
    Capping limit fun r =>
      Eval.withinFrame frame (sub (around.enter frame callee r.history.origins)) r := by
  constructor
  · intro r
    exact (withinFrame (hsub (around.enter frame callee r.history.origins))).goes r
  · intro r r' h
    show EndsCapped limit r r' _
      (Eval.withinFrame frame (sub (around.enter frame callee r'.history.origins)) r')
    rw [h.origins]
    exact (withinFrame (hsub (around.enter frame callee r.history.origins))).ends r r' h

end Capping

/-! ## Tasks -/

variable {limit : Nat}

/-- A layer is cut short if its tasks are. -/
theorem Layer.trace_capping {α : Type} {sub : (t : Task) → Surroundings → Traced t.Result}
    (hsub : ∀ t around, Capping limit (sub t around)) (around : Surroundings) {l : Layer α}
    (h : l.Speaks around.tasks) : Capping limit (l.trace sub around) := by
  induction l with
  | done a => exact .pure a
  | step x mark next ih => exact (Capping.observe rfl mark h.1).bind fun b => ih b (h.2 b)
  | start t next ih => exact (hsub t around).bind fun a => ih a (h a)
  | enter frame f t next ih =>
    exact (Capping.enter (hsub t) around frame f).bind fun a => ih a (h a)

/-- Every task is cut short at the first refusal, by induction on the fuel. -/
theorem Task.trace_capping (fuel : Nat) (t : Task) (around : Surroundings) :
    Capping limit (t.trace fuel around) := by
  induction fuel generalizing t around with
  | zero => exact ⟨fun r => .refl r, fun r r' h => .error h.abreast⟩
  | succ fuel ih =>
    have hlayer := Layer.trace_capping ih (around.inside t) (t.layer_speaks around.tasks)
    refine hlayer.bind fun result => ⟨fun r => .logged (.refl _) rfl rfl, fun r r' h => .ok ?_⟩
    exact h.record around t result

/-- A whole program is cut short at the first refusal. -/
theorem traceProgram_capping (fuel : Nat) (ss : List Stmt) :
    Capping limit (traceProgram fuel ss) := by
  induction ss with
  | nil => exact .pure ()
  | cons s ss ih => exact (Task.trace_capping fuel (.statement s) .top).bind fun _ => ih

/-- An expression that is evaluated is cut short at the first refusal. -/
theorem traceExpression_capping (fuel : Nat) (e : Expr) :
    Capping limit (traceExpression fuel e) :=
  (Task.trace_capping fuel (.expression e) .top).bind fun value =>
    .writeResult .nothing value

end Eval

end Lox
