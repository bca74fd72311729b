import Lox.Proofs.Run.Capped
import Lox.Proofs.Run.Fuel

/-!
# A full sink only truncates

A session that writes to a sink of so many bytes is followed beside the same one with a sink without
end. A text leaves the two abreast, or a `print` is refused in it, which stops that text with one
error (`Chronicle.take_capped`). After that the one sink is full and the other only gains bytes, so
whatever else the two sessions do, the bytes of the one remain the first ones of the other
(`Chronicle.takeAll_capped`).
-/

namespace Lox

open Eval

namespace Eval.Run

variable {limit : Nat} {keyword : Token} {r r' r₁ r₁' r₂ r₂' : Run}

/-- Trees begin alike in both runs. -/
theorem Matches.begin (h : r.Matches limit r') (table : Table) (root : Root) :
    (r.begin table root).Matches limit (r'.begin table root) := by
  refine ⟨h.endless, ?_, ?_⟩
  · show r'.machine.learn table = _
    rw [h.machine]
    rfl
  · show { r'.history.origins with roots := root :: r'.history.origins.roots } = _
    rw [h.origins]
    rfl

/-- Two runs of which the second one was refused something: they shared their moments until then,
and the sink of the second one holds the first bytes of the other one. -/
structure Apart (limit : Nat) (r r' r₁ r₁' : Run) : Prop where
  log : ∃ shared ev ev' rest rest' keyword, ev.RefusedIn limit keyword ev' ∧
    r₁.history.log = r.history.log ++ (shared ++ ev :: rest) ∧
    r₁'.history.log = r'.history.log ++ (shared.map (·.capped limit) ++ ev' :: rest') ∧
    ∀ later ∈ rest, limit < later.machine.output.bytes.size
  output : r₁'.machine.output = r₁.machine.output.capped limit
  full : limit < r₁.machine.output.bytes.size

theorem Parted.apart (h : Parted limit keyword r r' r₁ r₁') : Apart limit r r' r₁ r₁' := by
  obtain ⟨shared, ev, ev', rest, -, hrefused, hlog, hlog', hlater, -⟩ := h.log
  exact ⟨⟨shared, ev, ev', rest, [], keyword, hrefused, hlog, hlog', hlater⟩, h.output, h.full⟩

theorem Abreast.apart (h : Abreast limit r r' r₁ r₁') (h' : Apart limit r₁ r₁' r₂ r₂') :
    Apart limit r r' r₂ r₂' := by
  obtain ⟨evs, hevs, hevs', -⟩ := h.log
  obtain ⟨shared, ev, ev', rest, rest', keyword, hrefused, hlog, hlog', hlater⟩ := h'.log
  refine ⟨⟨evs ++ shared, ev, ev', rest, rest', keyword, hrefused, ?_, ?_, hlater⟩, h'.output,
    h'.full⟩
  · rw [hlog, hevs, List.append_assoc, List.append_assoc]
  · rw [hlog', hevs', List.map_append, List.append_assoc, List.append_assoc]

/-- Whatever the two runs do afterwards. -/
theorem Apart.goes (h : Apart limit r r' r₁ r₁') (hr : r₁.Goes r₂) (hr' : r₁'.Goes r₂') :
    Apart limit r r' r₂ r₂' := by
  obtain ⟨shared, ev, ev', rest, rest', keyword, hrefused, hlog, hlog', hlater⟩ := h.log
  obtain ⟨more, hmore, hmoments⟩ := hr.log
  obtain ⟨more', hmore', -⟩ := hr'.log
  have hlimit : r₁'.machine.output.limit = some limit := by
    rw [h.output]
    rfl
  -- the sink of the second run is full, so nothing that is written later changes it
  have hsize : r₁'.machine.output.bytes.size = limit := by
    rw [h.output]
    unfold Output.capped
    rw [Array.take_eq_extract, Array.size_extract, Nat.sub_zero]
    exact Nat.min_eq_left (Nat.le_of_lt h.full)
  refine ⟨⟨shared, ev, ev', rest ++ more, rest' ++ more', keyword, hrefused, ?_, ?_, ?_⟩, ?_, ?_⟩
  · rw [hmore, hlog]
    simp only [List.append_assoc, List.cons_append]
  · rw [hmore', hlog']
    simp only [List.append_assoc, List.cons_append]
  · intro later hmem
    rcases List.mem_append.mp hmem with hmem | hmem
    · exact hlater later hmem
    · exact Nat.lt_of_lt_of_le h.full (hmoments later hmem).size_le
  · calc r₂'.machine.output
        = ⟨r₂'.machine.output.bytes, r₂'.machine.output.limit⟩ := rfl
      _ = r₁'.machine.output := by rw [hr'.output.full hlimit hsize, hr'.output.limit]
      _ = r₁.machine.output.capped limit := h.output
      _ = r₂.machine.output.capped limit := by
        unfold Output.capped
        rw [hr.output.take (Nat.le_of_lt h.full)]
  · exact Nat.lt_of_lt_of_le h.full hr.output.size_le

/-- Runs abreast from the beginning have the same moments. -/
theorem Abreast.moment (h : Abreast limit r r' r₁ r₁') (hr : r.history.log = [])
    (hr' : r'.history.log = []) {k : Nat} {ev : Event} (hev : r₁.history.log[k]? = some ev) :
    ∃ ev', r₁'.history.log[k]? = some ev' ∧ ev.SameIn limit ev' := by
  obtain ⟨evs, hlog, hlog', -⟩ := h.log
  rw [hlog, hr, List.nil_append] at hev
  refine ⟨ev.capped limit, ?_, rfl, rfl, rfl⟩
  rw [hlog', hr', List.nil_append, List.getElem?_map, hev]
  rfl

/-- Runs that went apart since the beginning have the same moments for as long as all fits. -/
theorem Apart.moment (h : Apart limit r r' r₁ r₁') (hr : r.history.log = [])
    (hr' : r'.history.log = []) {k : Nat} {ev : Event} (hev : r₁.history.log[k]? = some ev)
    (hfits : ev.machine.output.bytes.size ≤ limit) :
    ∃ ev', r₁'.history.log[k]? = some ev' ∧ ev.SameIn limit ev' := by
  obtain ⟨shared, refused, refused', rest, rest', keyword, hrefused, hlog, hlog', hlater⟩ := h.log
  rw [hlog, hr, List.nil_append] at hev
  rw [hlog', hr', List.nil_append]
  rcases Nat.lt_trichotomy k shared.length with hk | rfl | hk
  · rw [List.getElem?_append_left hk] at hev
    refine ⟨ev.capped limit, ?_, rfl, rfl, rfl⟩
    rw [List.getElem?_append_left (by rwa [List.length_map]), List.getElem?_map, hev]
    rfl
  · rw [List.getElem?_append_right (Nat.le_refl _), Nat.sub_self, List.getElem?_cons_zero] at hev
    injection hev with hev
    subst hev
    refine ⟨refused', ?_, hrefused.toSameIn⟩
    rw [List.getElem?_append_right (Nat.le_of_eq (List.length_map _)), List.length_map,
      Nat.sub_self, List.getElem?_cons_zero]
  · rw [List.getElem?_append_right (Nat.le_of_lt hk)] at hev
    obtain ⟨i, hi⟩ := Nat.exists_eq_add_of_lt hk
    rw [hi, show shared.length + i + 1 - shared.length = i + 1 by omega,
      List.getElem?_cons_succ] at hev
    exact absurd hfits (Nat.not_le_of_lt (hlater ev (List.mem_of_getElem? hev)))

end Eval.Run

namespace Chronicle

variable {limit : Nat}

/-- The sessions are the same but for a sink of `limit` bytes instead of one without end. -/
structure Matches (limit : Nat) (c c' : Chronicle) : Prop where
  run : c.run.Matches limit c'.run
  nextSite : c'.nextSite = c.nextSite

/-- The sessions went on through the same moments and still match. -/
structure Abreast (limit : Nat) (c c' c₁ c₁' : Chronicle) : Prop where
  run : Run.Abreast limit c.run c'.run c₁.run c₁'.run
  nextSite : c₁'.nextSite = c₁.nextSite

theorem Abreast.matched {c c' c₁ c₁' : Chronicle} (h : Abreast limit c c' c₁ c₁') :
    Matches limit c₁ c₁' :=
  ⟨h.run.toMatches, h.nextSite⟩

/-- What becomes of a text with a sink without end, and with one of `limit` bytes: the same, but for
bytes that do not fit, and no `print` is refused; or one is, and that is the one error of the
text. -/
inductive OutcomeCapped (limit : Nat) (c c' : Chronicle) : Outcome → Outcome → Prop where
  | same {errors : Option (List Diagnostic)} {c₁ c₁' : Chronicle} (h : Abreast limit c c' c₁ c₁') :
      OutcomeCapped limit c c' (errors, c₁) (errors, c₁')
  | refused {outcome : Outcome} {keyword : Token} {c₁' : Chronicle}
      (h : Run.Parted limit keyword c.run c'.run outcome.2.run c₁'.run) :
      OutcomeCapped limit c c' outcome (some [.runtime ⟨keyword, .outputRefused⟩], c₁')

/-- What a text does with a sink of `limit` bytes is what it does with one without end, cut
short. -/
structure Capping (limit : Nat) (next : Chronicle → Outcome) : Prop where
  goes : ∀ c : Chronicle, c.run.Goes (next c).2.run
  ends : ∀ c c' : Chronicle, Matches limit c c' → OutcomeCapped limit c c' (next c) (next c')

/-! ## The stages -/

/-- A text that is not run. -/
theorem reject_capping (errors : List Diagnostic) :
    Capping limit fun c => (some errors, c) :=
  ⟨fun c => .refl c.run, fun _ _ h => .same ⟨h.run.abreast, h.nextSite⟩⟩

theorem runResolved_capping {α : Type} (resolution : Resolution) (root : Root) {x : Traced α}
    (hx : Eval.Capping limit x) : Capping limit (runResolved resolution root x) := by
  unfold runResolved
  cases resolution.errors with
  | cons error errors => exact reject_capping _
  | nil =>
    constructor
    · intro c
      have hgoes := hx.goes (c.run.begin resolution.table root)
      dsimp only
      cases hrun : x (c.run.begin resolution.table root) with
      | ok a r =>
        rw [hrun] at hgoes
        exact ⟨hgoes.output, hgoes.log⟩
      | error e r =>
        rw [hrun] at hgoes
        cases e <;> exact ⟨hgoes.output, hgoes.log⟩
    · intro c c' h
      have hends := hx.ends _ _ (h.run.begin resolution.table root)
      dsimp only
      generalize x (c.run.begin resolution.table root) = result at hends
      generalize x (c'.run.begin resolution.table root) = result' at hends
      -- the moments that a run has when a tree begins are those that it had before
      cases hends with
      | ok hrun => exact .same ⟨⟨hrun.toMatches, hrun.log⟩, h.nextSite⟩
      | @error e r r' hrun => cases e <;> exact .same ⟨⟨hrun.toMatches, hrun.log⟩, h.nextSite⟩
      | refused hparted =>
        refine .refused ?_
        cases result with
        | ok a r => exact ⟨hparted.log, hparted.output, hparted.full⟩
        | error e r => cases e <;> exact ⟨hparted.log, hparted.output, hparted.full⟩

/-- A text that gives out numbers of sites before it goes on. -/
theorem Capping.sited (next : Site → Chronicle → Outcome) (number : Site → Site)
    (h : ∀ site, Capping limit (next site)) :
    Capping limit fun c => next c.nextSite { c with nextSite := number c.nextSite } := by
  constructor
  · exact fun c => (h c.nextSite).goes { c with nextSite := number c.nextSite }
  · intro c c' hc
    have hends := (h c.nextSite).ends { c with nextSite := number c.nextSite }
      { c' with nextSite := number c.nextSite } ⟨hc.run, rfl⟩
    rw [hc.nextSite]
    generalize next c.nextSite { c with nextSite := number c.nextSite } = outcome at hends
    generalize next c.nextSite { c' with nextSite := number c.nextSite } = outcome' at hends
    cases hends with
    | same hrun => exact .same ⟨hrun.run, hrun.nextSite⟩
    | refused hparted => exact .refused hparted

/-- What is done with tokens that were parsed as a program. -/
def runParsed (fuel : Nat) (parsed : Parsed (List Stmt)) (c : Chronicle) : Outcome :=
  match parsed.errors with
  | [] =>
    c.runResolved (.ofProgram parsed.tree) (.program parsed.tree) (traceProgram fuel parsed.tree)
  | errors => (some (errors.map .syntactic), c)

/-- What is done with tokens that were parsed as an expression. -/
def evaluateParsed (fuel : Nat) (parsed : Parsed (Option Expr)) (c : Chronicle) : Outcome :=
  match parsed.tree, parsed.errors with
  | some e, [] => c.runResolved (.ofExpr e) (.expression e) (traceExpression fuel e)
  | _, errors => (some (errors.map .syntactic), c)

theorem runTokens_capping (fuel : Nat) (tokens : List Token) :
    Capping limit (runTokens fuel tokens) := by
  refine Capping.sited (fun site => runParsed fuel (Program.parse tokens site))
    (fun site => (Program.parse tokens site).nextSite) fun site => ?_
  obtain ⟨tree, _ | ⟨error, errors⟩, nextSite⟩ := Program.parse tokens site
  · exact runResolved_capping _ _ (traceProgram_capping fuel tree)
  · exact reject_capping _

theorem evaluateTokens_capping (fuel : Nat) (tokens : List Token) :
    Capping limit (evaluateTokens fuel tokens) := by
  refine Capping.sited (fun site => evaluateParsed fuel (Expr.parse tokens site))
    (fun site => (Expr.parse tokens site).nextSite) fun site => ?_
  obtain ⟨_ | e, errors, nextSite⟩ := Expr.parse tokens site
  · exact reject_capping _
  cases errors with
  | nil => exact runResolved_capping _ _ (traceExpression_capping fuel e)
  | cons error errors => exact reject_capping _

/-- A text after which another one comes unless the first one met errors. -/
theorem Capping.followed {first second : Chronicle → Outcome} (h : Capping limit first)
    (h' : Capping limit second) :
    Capping limit fun c => match first c with
      | (some [], c) => second c
      | outcome => outcome := by
  constructor
  · intro c
    have hgoes := h.goes c
    generalize first c = outcome at hgoes
    obtain ⟨_ | _ | _, c₁⟩ := outcome
    · exact hgoes
    · exact hgoes.trans (h'.goes c₁)
    · exact hgoes
  · intro c c' hc
    have hends := h.ends c c' hc
    generalize first c = outcome at hends
    generalize first c' = outcome' at hends
    cases hends with
    | @same errors c₁ c₁' hrun =>
      match errors with
      | none => exact .same hrun
      | some (error :: errors) => exact .same hrun
      | some [] =>
        have hnext := h'.ends c₁ c₁' hrun.matched
        dsimp only
        generalize second c₁ = outcome at hnext
        generalize second c₁' = outcome' at hnext
        cases hnext with
        | same hrun' => exact .same ⟨hrun.run.trans hrun'.run, hrun'.nextSite⟩
        | refused hparted => exact .refused (hrun.run.parted hparted)
    | refused hparted =>
      refine .refused ?_
      obtain ⟨_ | _ | _, c₁⟩ := outcome
      · exact hparted
      · exact hparted.goes (h'.goes c₁)
      · exact hparted

theorem runLineTokens_capping (fuel : Nat) (tokens : List Token) :
    Capping limit (runLineTokens fuel tokens) := by
  unfold runLineTokens
  obtain ⟨statements, expression⟩ := Session.splitStatements tokens
  dsimp only
  by_cases hshort : expression.length ≤ 1
  · simp only [if_pos hshort]
    exact runTokens_capping fuel tokens
  simp only [if_neg hshort]
  cases statements.getLast? with
  | none => exact evaluateTokens_capping fuel tokens
  | some last => exact (runTokens_capping fuel _).followed (evaluateTokens_capping fuel expression)

theorem scanned_capping (source : String) {next : List Token → Chronicle → Outcome}
    (h : ∀ tokens, Capping limit (next tokens)) :
    Capping limit fun c => c.scanned source next := by
  unfold scanned
  cases scanErrors source with
  | nil => exact h _
  | cons error errors => exact reject_capping _

/-- A step does with a sink of so many bytes what it does with one without end, cut short. -/
theorem take_capping (fuel : Nat) (step : Step) : Capping limit fun c => c.take fuel step := by
  cases step with
  | run source => exact scanned_capping source (runTokens_capping fuel)
  | line source => exact scanned_capping source (runLineTokens_capping fuel)
  | evaluate source => exact scanned_capping source (evaluateTokens_capping fuel)
  | reset => exact reject_capping []

theorem takeAll_goes (fuel : Nat) (steps : List Step) (c : Chronicle) :
    c.run.Goes (takeAll fuel steps c).run := by
  induction steps generalizing c with
  | nil => exact .refl c.run
  | cons step steps ih =>
    have hcapping : Capping 0 fun c => c.take fuel step := take_capping fuel step
    have hgoes := hcapping.goes c
    unfold takeAll
    generalize c.take fuel step = outcome at hgoes
    obtain ⟨_ | errors, c₁⟩ := outcome
    · exact hgoes
    · exact hgoes.trans (ih c₁)

variable {ρ : Type} [Reporter ρ]

/-- Two sessions whose steps were all taken are abreast and told the same, or something was refused
in the second one. -/
theorem takeAll_capped {fuel : Nat} {steps : List Step} {c c' : Chronicle} {r j j' : ρ}
    {s s' : Session} (h : Matches limit c c')
    (hs : Step.takeAll fuel steps c.session r = some (s, j))
    (hs' : Step.takeAll fuel steps c'.session r = some (s', j')) :
    (Abreast limit c c' (takeAll fuel steps c) (takeAll fuel steps c') ∧ j' = j) ∨
      Run.Apart limit c.run c'.run (takeAll fuel steps c).run (takeAll fuel steps c').run := by
  -- as long as nothing is refused, the two sessions match before each step
  induction steps generalizing c c' r with
  | nil =>
    cases hs
    cases hs'
    exact .inl ⟨⟨h.run.abreast, h.nextSite⟩, rfl⟩
  | cons step steps ih =>
    unfold Step.takeAll Step.take at hs hs'
    rw [← take_forget] at hs hs'
    have hends := (take_capping fuel step).ends c c' h
    unfold takeAll
    generalize c.take fuel step = outcome at hs hends
    generalize c'.take fuel step = outcome' at hs' hends
    cases hends with
    | @same errors c₁ c₁' hrun =>
      cases errors with
      | none => cases hs
      | some errors =>
        rcases ih hrun.matched hs hs' with ⟨hrest, htold⟩ | hapart
        · exact .inl ⟨⟨hrun.run.trans hrest.run, hrest.nextSite⟩, htold⟩
        · exact .inr (hrun.run.apart hapart)
    | @refused _ keyword c₁' hparted =>
      obtain ⟨_ | errors, c₁⟩ := outcome
      · cases hs
      · exact .inr (hparted.apart.goes (takeAll_goes fuel steps c₁) (takeAll_goes fuel steps c₁'))

/-- Two sessions whose steps were all taken, each with fuel of its own, are abreast and told the
same, or something was refused in the second one. -/
theorem takeAll_capped_of_fuels {fuel fuel' : Nat} {steps : List Step} {c c' : Chronicle}
    {r j j' : ρ} {s s' : Session} (h : Matches limit c c')
    (hs : Step.takeAll fuel steps c.session r = some (s, j))
    (hs' : Step.takeAll fuel' steps c'.session r = some (s', j')) :
    (Abreast limit c c' (takeAll fuel steps c) (takeAll fuel' steps c') ∧ j' = j) ∨
      Run.Apart limit c.run c'.run (takeAll fuel steps c).run (takeAll fuel' steps c').run := by
  obtain ⟨hmore, hsame⟩ := takeAll_more (Nat.le_max_left fuel fuel') hs
  obtain ⟨hmore', hsame'⟩ := takeAll_more (Nat.le_max_right fuel fuel') hs'
  rw [← hsame, ← hsame']
  exact takeAll_capped h hmore hmore'

/-- The session with a sink without end in place of its own. -/
def lifted (c : Chronicle) : Chronicle :=
  { c with run.machine.output.limit := none }

/-- A session with a sink of so many bytes is the one with a sink without end, cut short. -/
theorem lifted_matches {c : Chronicle} (hlimit : c.run.machine.output.limit = some limit)
    (hfits : c.run.machine.output.bytes.size ≤ limit) : Matches limit c.lifted c := by
  refine ⟨⟨rfl, ?_, rfl⟩, rfl⟩
  have houtput : c.lifted.run.machine.output.capped limit = c.run.machine.output :=
    (Output.capped_of_fits hfits).trans (hlimit ▸ rfl)
  show c.run.machine = c.lifted.run.machine.withOutput _
  rw [houtput]
  rfl

/-- A session with a sink that fills up is at each time within what it holds. -/
theorem takeAll_within (limit fuel : Nat) (steps : List Step) (input : Input) (host : Host) :
    let c := takeAll fuel steps (start input { limit := some limit } host)
    c.run.machine.output.limit = some limit ∧ c.run.machine.output.bytes.size ≤ limit := by
  have hgoes := (takeAll_goes fuel steps (start input { limit := some limit } host)).output
  exact ⟨hgoes.limit, hgoes.within limit rfl (Nat.zero_le _)⟩

theorem start_matches (input : Input) (host : Host) :
    Matches limit (start input {} host) (start input { limit := some limit } host) :=
  have hempty : Output.capped limit {} = { limit := some limit } :=
    Output.capped_of_fits (Nat.zero_le limit)
  ⟨⟨rfl, congrArg (Machine.start input {} host).withOutput hempty.symm, rfl⟩, rfl⟩

end Chronicle

/-- The first of some steps are all taken if the steps are. -/
theorem Step.takeAll_of_prefix {ρ : Type} [Reporter ρ] {fuel : Nat} {before steps : List Step}
    (hbefore : before <+: steps) {s s' : Session} {r r' : ρ}
    (h : takeAll fuel steps s r = some (s', r')) :
    ∃ s₁ r₁, takeAll fuel before s r = some (s₁, r₁) := by
  induction before generalizing steps s r with
  | nil => exact ⟨s, r, rfl⟩
  | cons step before ih =>
    obtain ⟨after, rfl⟩ := hbefore
    rw [List.cons_append] at h
    unfold takeAll at h ⊢
    cases htake : step.take fuel s r with
    | none =>
      rw [htake] at h
      cases h
    | some taken =>
      rw [htake] at h
      exact ih (List.prefix_append before after) h

/-- A session writes to a sink that holds `limit` bytes, and the same one to a sink without end.
Whenever both come to their ends, the bytes in the one are the first ones in the other. Up to the
first write that is refused both go through the same moments and report the same errors. And with
the sink that fills up each step does what it does without its limit, but for the bytes that do not
fit, unless a `print` is refused: that is its last moment, and the one error that it reports. -/
theorem Session.full_sink_truncates {ρ : Type} [Reporter ρ] {steps : List Step} {input : Input}
    {host : Host} {limit fuel fuel' : Nat} {r j j' : ρ} {s s' : Session}
    (hs : Step.takeAll fuel steps (start input {} host) r = some (s, j))
    (hs' : Step.takeAll fuel' steps (start input { limit := some limit } host) r = some (s', j')) :
    let endless := Chronicle.start input {} host
    let capped := Chronicle.start input { limit := some limit } host
    s'.machine.output.bytes = s.machine.output.bytes.take limit ∧
    (∀ (k : Nat) ev, (Chronicle.takeAll fuel steps endless).run.history.log[k]? = some ev →
      ev.machine.output.bytes.size ≤ limit →
      ∃ ev', (Chronicle.takeAll fuel' steps capped).run.history.log[k]? = some ev' ∧
        ev'.around = ev.around ∧ ev'.origins = ev.origins ∧
          ev'.machine = { ev.machine with output.limit := some limit }) ∧
    (∀ before, before <+: steps → ∀ s₁ j₁,
      Step.takeAll fuel before endless.session r = some (s₁, j₁) →
      s₁.machine.output.bytes.size ≤ limit →
      Step.takeAll fuel' before capped.session r =
        some ({ s₁ with machine.output.limit := some limit }, j₁)) ∧
    ∀ before step after, steps = before ++ step :: after →
      let c := Chronicle.takeAll fuel' before capped
      Chronicle.OutcomeCapped limit c.lifted c (c.lifted.take fuel' step) (c.take fuel' step) := by
  intro endless capped
  have hmatches : Chronicle.Matches limit endless capped := Chronicle.start_matches input host
  -- either the capped run never had to refuse a write, or it did and has gone another way since
  have hcapped := Chronicle.takeAll_capped_of_fuels hmatches hs hs'
  obtain rfl := Chronicle.takeAll_forget (c := endless) hs
  obtain rfl := Chronicle.takeAll_forget (c := capped) hs'
  refine ⟨?_, ?_, ?_, ?_⟩
  · rcases hcapped with ⟨habreast, -⟩ | hapart
    · exact congrArg (fun m => m.output.bytes) habreast.run.machine
    · exact congrArg Output.bytes hapart.output
  · intro k ev hev hfits
    -- a moment at which all still fits lies before the first refusal
    have hmoment : ∃ ev', (Chronicle.takeAll fuel' steps capped).run.history.log[k]? = some ev' ∧
        ev.SameIn limit ev' := by
      rcases hcapped with ⟨habreast, -⟩ | hapart
      · exact habreast.run.moment rfl rfl hev
      · exact hapart.moment rfl rfl hev hfits
    obtain ⟨ev', hev', hsame⟩ := hmoment
    exact ⟨ev', hev', hsame.around, hsame.origins,
      hsame.machine.trans (Machine.capped_of_fits hfits)⟩
  · intro before hbefore s₁ j₁ hs₁ hfits
    obtain ⟨s₁', j₁', hs₁'⟩ := Step.takeAll_of_prefix hbefore hs'
    have hcapped := Chronicle.takeAll_capped_of_fuels hmatches hs₁ hs₁'
    obtain rfl := Chronicle.takeAll_forget hs₁
    obtain rfl := Chronicle.takeAll_forget (c := capped) hs₁'
    rcases hcapped with ⟨habreast, rfl⟩ | hapart
    · have hmachine := habreast.run.machine.trans (Machine.capped_of_fits hfits)
      refine hs₁'.trans ?_
      unfold Chronicle.session
      rw [hmachine, habreast.nextSite]
    -- a run that has been refused has more to write than fits
    · exact absurd hfits (Nat.not_le_of_lt hapart.full)
  · intro before step after hsteps c
    obtain ⟨hlimit, hwithin⟩ := Chronicle.takeAll_within limit fuel' before input host
    exact (Chronicle.take_capping fuel' step).ends _ _ (Chronicle.lifted_matches hlimit hwithin)

/-- The sink is full inside the text of a value. The statement after that `print` is left out, the
result of the next text is refused without an error, and the last text misses the variable. -/
theorem Session.full_sink_truncates_inside_text :
    let steps : List Step := [.run "print true; print false; var a = 1;", .evaluate "nil",
      .run "print a;"]
    let host : Host := ⟨fun _ => 0, fun _ => 0, 0, 0⟩
    ∃ (s s' : Session) (j j' : Collection),
      Step.takeAll 12 steps (start ⟨[]⟩ {} host) Collection.empty = some (s, j) ∧
      Step.takeAll 12 steps (start ⟨[]⟩ { limit := some 7 } host) Collection.empty = some (s', j') ∧
      s'.machine.output.bytes = s.machine.output.bytes.take 7 ∧
      s.machine.output.bytes.size = 17 ∧ j.runtime.length = 0 ∧
      j'.runtime.map (·.cause) = [.outputRefused, .undefinedVariable] := by
  intro steps host
  have hends : ((Step.takeAll 12 steps (start ⟨[]⟩ {} host) Collection.empty).map fun e =>
      (e.1.machine.output.bytes.size, e.2.runtime.length)) = some (17, 0) := by decide +kernel
  have hends' : ((Step.takeAll 12 steps (start ⟨[]⟩ { limit := some 7 } host)
      Collection.empty).map fun e => e.2.runtime.map (·.cause)) =
        some [.outputRefused, .undefinedVariable] := by decide +kernel
  obtain ⟨⟨s, j⟩, hs, hsizes⟩ := Option.map_eq_some_iff.mp hends
  obtain ⟨⟨s', j'⟩, hs', herrors⟩ := Option.map_eq_some_iff.mp hends'
  injection hsizes with hsize hnone
  exact ⟨s, s', j, j', hs, hs', (full_sink_truncates hs hs').1, hsize, hnone, herrors⟩

end Lox
