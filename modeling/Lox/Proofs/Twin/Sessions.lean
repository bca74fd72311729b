import Lox.Proofs.Run.Sessions
import Lox.Proofs.Twin.Evaluation
import Lox.Proofs.Twin.Scopes

/-!
# Two sessions

Two writings of a program that resolving accepts are run on twin machines: resolving finds the same
for both, and the runs end alike.
-/

namespace Lox

variable {v : Variation} {l l' : Layout}

/-! ## Resolving -/

/-- A program that parsing and resolving accept. -/
theorem Accepted.of_parse {tokens : List Token} (hspelled : ∀ t ∈ tokens, t.Spelled)
    {nextSite : Site} (hparse : (Program.parse tokens nextSite).errors = [])
    (hresolve : (Resolution.ofProgram (Program.parse tokens nextSite).tree).errors = []) :
    Accepted (Resolution.ofProgram (Program.parse tokens nextSite).tree).table
      (.statements (Program.parse tokens nextSite).tree) := by
  have hderives := Grammar.program_derives hparse
  have htidy := hderives.tidy fun t ht => hspelled t ((List.takeWhile_prefix _).mem ht)
  exact ⟨hresolve, (Program.parse_drawn tokens nextSite).nodup,
    fun _ _ => Std.TreeMap.getElem?_emptyc, fun _ _ => rfl, htidy⟩

/-- Resolving finds the same for the other writing of an accepted program. -/
theorem Alike.resolution {ss ss' : List Stmt} (h : Alike v [] (.statements ss) (.statements ss'))
    (haccepted : Accepted v.table (.statements ss)) :
    (Resolution.ofProgram ss').errors = [] ∧
      ∀ i i', v.known i i' →
        (Resolution.ofProgram ss').table[i']? = (Resolution.ofProgram ss).table[i]? := by
  have hstart : Walk.Twin v [] .start .start := ⟨.nil, fun _ _ _ => rfl, rfl, rfl⟩
  have hend := h.walks haccepted .start .start [] .root hstart
  refine ⟨List.eq_nil_of_length_eq_zero ?_, hend.table⟩
  exact hend.errors.trans (congrArg List.length haccepted.errors)

/-! ## Running -/

namespace Session

/-- Sessions that go on alike from a frame: their machines are twins, and the same sites are still
to be given out. -/
structure Twin (v : Variation) (l : Layout) (frame : FrameId) (s s' : Session) : Prop where
  machine : s.machine.Twin v l s'.machine
  current : s.machine.current = frame
  nextSite : s'.nextSite = s.nextSite

/-- Texts that end alike: both are run to their end, both stop with a runtime error or both run out
of fuel. -/
inductive OutcomeTwin (v : Variation) (l : Layout) (frame : FrameId) :
    Outcome → Outcome → Prop where
  | done {l' : Layout} {s s' : Session} (hl : l <+: l') (h : s.Twin v l' frame s') :
      OutcomeTwin v l frame (some ([], s)) (some ([], s'))
  | failed {l' : Layout} {e e' : RuntimeError} {s s' : Session} (hl : l <+: l')
      (h : s.Twin v l' frame s') (he : e.Twin v e') :
      OutcomeTwin v l frame (some ([.runtime e], s)) (some ([.runtime e'], s'))
  | outOfFuel : OutcomeTwin v l frame none none

/-- The outcome of a text that was run to this end. -/
def ended {α : Type} (nextSite : Site) : EStateM.Result Halt Machine α → Outcome
  | .ok _ m => some ([], ⟨m, nextSite⟩)
  | .error (.fault e) m => some ([.runtime e], ⟨m, nextSite⟩)
  | .error .outOfFuel _ => none

/-- A tree that resolving has nothing against is run on what is known then. -/
theorem runResolved_eq {α : Type} {resolution : Resolution} (herrors : resolution.errors = [])
    (x : Exec α) (s : Session) :
    s.runResolved resolution x = ended s.nextSite (x (s.machine.learn resolution.table)) := by
  unfold runResolved
  rw [herrors]
  unfold attempt learn
  dsimp only
  generalize x (s.machine.learn resolution.table) = r
  cases r with
  | ok a m => rfl
  | error e m => cases e <;> rfl

/-- Running a resolved tree gives out no sites. -/
theorem runResolved_nextSite {α : Type} {resolution : Resolution} {x : Exec α} {s s' : Session}
    {errors : List Diagnostic} (h : s.runResolved resolution x = some (errors, s')) :
    s'.nextSite = s.nextSite := by
  cases herrors : resolution.errors with
  | cons error errors =>
    unfold runResolved at h
    rw [herrors] at h
    cases h
    rfl
  | nil =>
    rw [runResolved_eq herrors] at h
    generalize x (s.machine.learn resolution.table) = r at h
    cases r with
    | ok a m =>
      cases h
      rfl
    | error e m =>
      cases e <;> cases h
      rfl

/-- Computations that end alike give texts that end alike. -/
theorem ended_twin {α : Type} {frame : FrameId} {R : Layout → α → α → Prop}
    {r r' : EStateM.Result Halt Machine α} (h : EndTwin v l frame R r r') (nextSite : Site) :
    OutcomeTwin v l frame (ended nextSite r) (ended nextSite r') := by
  rcases h.cases with ⟨a, m, a', m', rfl, rfl, l', hl, hm, hcurrent, -⟩ |
    ⟨e, m, e', m', rfl, rfl, l', hl, hm, hcurrent, he⟩ | ⟨m, m', rfl, rfl⟩
  · exact .done hl ⟨hm, hcurrent, rfl⟩
  · exact .failed hl ⟨hm, hcurrent, rfl⟩ he
  · exact .outOfFuel

theorem runResolved_twin {α : Type} {marks : List Bool} {R : Layout → α → α → Prop}
    {resolution resolution' : Resolution} (herrors : resolution.errors = [])
    (herrors' : resolution'.errors = []) {x x' : Exec α} (hx : Exec.Twin v l marks R x x')
    {s s' : Session}
    (hm : (s.machine.learn resolution.table).Twin v l (s'.machine.learn resolution'.table))
    (hnext : s'.nextSite = s.nextSite) (hmarks : l[s.machine.current]? = some marks) :
    OutcomeTwin v l s.machine.current (s.runResolved resolution x)
      (s'.runResolved resolution' x') := by
  rw [runResolved_eq herrors, runResolved_eq herrors', hnext]
  exact ended_twin (hx l (List.prefix_refl _) _ _ hm hmarks) s.nextSite

end Session

/-! ## New sessions -/

/-- A machine on which nothing was run is its own twin. -/
theorem Machine.start_twin (input : Input) (output : Output) (host : Host) {T T' : Table}
    (hT : ∀ i i', v.known i i' → T[i]? = v.table[i]?)
    (hT' : ∀ i i', v.known i i' → T'[i']? = v.table[i]?) :
    Machine.Twin v [[]] ((Machine.start input output host).learn T)
      ((Machine.start input output host).learn T') := by
  have hbare := Machine.start_bare input output host
  have hlearn : ∀ (T : Table) (i : Site),
      ((Machine.start input output host).learn T).table[i]? = T[i]? := fun T i => by
    rw [Machine.learn_table]
    show (T[i]?).or (∅ : Table)[i]? = _
    rw [Std.TreeMap.getElem?_emptyc, Option.or_none]
  refine ⟨?_, rfl, rfl, fun i i' hi => (hlearn T i).trans (hT i i' hi),
    fun i i' hi => (hlearn T' i').trans (hT' i i' hi), rfl, rfl, rfl, rfl⟩
  show Store.Twin v [[]] (Machine.start input output host).store
    (Machine.start input output host).store
  refine ⟨hbare.size, hbare.size, fun _ => rfl, fun frame parent marks h => ?_,
    fun frame marks h name hname => ?_, rfl, fun o o' ho name => ?_, rfl⟩
  · rw [hbare.parent] at h
    cases h
  · obtain rfl : marks = [] := by
      cases frame with
      | zero => exact (Option.some.inj h).symm
      | succ frame => cases h
    show Option.Rel _ _ (Store.binding? _ _ (v.name false name))
    rw [v.name_false]
    cases hb : (Machine.start input output host).store.binding? frame name with
    | none => exact .none
    | some b =>
      obtain ⟨n, serial, rfl⟩ := hbare.binding frame name b hb
      exact .some ⟨.native n serial, rfl⟩
  · rw [hbare.field, hbare.field]
    exact .none

/-! ## Sessions in which texts were run -/

namespace Session

/-- A variation that changes nothing and knows all references that the session gave out. -/
def plain (s : Session) : Variation :=
  .lined 0 s.machine.table (· < s.nextSite)

/-- The session is its own twin: every function in its store was made in a frame of the store, and
its references have sites that were given out. -/
def Whole (s : Session) : Prop :=
  ∃ l, s.machine.Twin s.plain l s.machine ∧ l[s.machine.current]? = some []

theorem start_whole (input : Input) (output : Output) (host : Host) :
    (start input output host).Whole := by
  have hknown : ∀ i i', (start input output host).plain.known i i' →
      (∅ : Table)[i']? = (start input output host).plain.table[i]? := by
    rintro i i' ⟨rfl, -⟩
    rfl
  exact ⟨[[]], Machine.start_twin input output host (fun _ _ _ => rfl) hknown, rfl⟩

theorem plain_within {s s' : Session} (hle : s.nextSite ≤ s'.nextSite) : s.plain.Within s'.plain :=
  ⟨rfl, rfl, .inl rfl, fun _ _ hi => ⟨hi.1, Nat.lt_of_lt_of_le hi.2 hle⟩⟩

/-- A session whose store is its own twin. -/
theorem whole_of_store {s : Session} {l : Layout}
    (hstore : s.machine.store.Twin s.plain l s.machine.store)
    (hglobal : l[s.machine.globals]? = some []) (hcurrent : l[s.machine.current]? = some []) :
    s.Whole := by
  refine ⟨l, ⟨hstore, rfl, rfl, fun _ _ _ => rfl, ?_, rfl, rfl, rfl, hglobal⟩, hcurrent⟩
  rintro i i' ⟨rfl, -⟩
  rfl

namespace Whole

variable {s s' : Session}

theorem later (h : s.Whole) {nextSite : Site} (hle : s.nextSite ≤ nextSite) :
    Whole { s with nextSite } := by
  obtain ⟨l, htwin, hcurrent⟩ := h
  exact whole_of_store (htwin.store.vary (plain_within hle)) htwin.global hcurrent

/-- A session stays whole when distances are learned. -/
theorem learn (h : s.Whole) (T : Table) : (s.learn T).Whole := by
  obtain ⟨l, htwin, hcurrent⟩ := h
  have hwithin : s.plain.Within (s.learn T).plain := plain_within (Nat.le_refl _)
  exact whole_of_store (htwin.store.vary hwithin) htwin.global hcurrent

/-- A computation that does the same in two runs leaves a session whole. -/
theorem runResolved (h : s.Whole) {α : Type} {R : Variation → Layout → α → α → Prop}
    {resolution : Resolution} {x : Exec α}
    (hx : ∀ v l, v.Moves 0 → (∀ i < s.nextSite, v.known i i) → Exec.Twin v l [] (R v) x x)
    {errors : List Diagnostic} (hrun : s.runResolved resolution x = some (errors, s')) :
    s'.Whole := by
  cases herrors : resolution.errors with
  | cons error more =>
    unfold Session.runResolved at hrun
    rw [herrors] at hrun
    cases hrun
    exact h
  | nil =>
    obtain ⟨l, htwin, hcurrent⟩ := h.learn resolution.table
    have hend := runResolved_twin herrors herrors
      (hx _ l (Variation.lined_moves _ _ _) fun _ hi => ⟨rfl, hi⟩) htwin rfl hcurrent
    -- the run is its own twin in the variation of the session before it, which knows the same sites
    have hnext := runResolved_nextSite hrun
    rw [hrun] at hend
    have hafter : ∀ l' : Layout, l <+: l' →
        s'.Twin (s.learn resolution.table).plain l' s.machine.current s' → s'.Whole := by
      intro l' hl hs
      have hwithin : (s.learn resolution.table).plain.Within s'.plain :=
        plain_within (Nat.le_of_eq hnext.symm)
      refine whole_of_store (hs.machine.store.vary hwithin) hs.machine.global ?_
      rw [hs.current]
      exact Layout.grow hl hcurrent
    cases hend with
    | done hl hs => exact hafter _ hl hs
    | failed hl hs _ => exact hafter _ hl hs

/-- A part of a program is its own other writing where its references may occur. -/
theorem alike_self {ss : List Stmt} {lo hi : Site}
    (hdrawn : Drawn lo hi (sitesOf (Stmt.referencesAll ss))) (hv : v.Moves 0)
    (hknown : ∀ i < hi, v.known i i) :
    Alike v [] (.statements ss) (.statements ss) := by
  have hself := Stmt.alikeAll_later hv [] ss fun reference hreference =>
    hknown _ (hdrawn.range _ (List.mem_map_of_mem hreference)).2
  rwa [Stmt.shiftedAll_same] at hself

theorem runTokens (h : s.Whole) {fuel : Nat} {tokens : List Token} {errors : List Diagnostic}
    (hrun : s.runTokens fuel tokens = some (errors, s')) : s'.Whole := by
  have hdrawn := Program.parse_drawn tokens s.nextSite
  unfold Session.runTokens at hrun
  generalize Program.parse tokens s.nextSite = parsed at hrun hdrawn
  obtain ⟨tree, parseErrors, nextSite⟩ := parsed
  cases parseErrors with
  | cons error more =>
    cases hrun
    exact h.later hdrawn.le
  | nil =>
    refine (h.later hdrawn.le).runResolved (R := fun _ _ _ _ => True) (fun v l hv hknown => ?_) hrun
    exact interpret_twin fuel (alike_self hdrawn hv hknown)

theorem evaluateTokens (h : s.Whole) {fuel : Nat} {tokens : List Token}
    {errors : List Diagnostic} (hrun : s.evaluateTokens fuel tokens = some (errors, s')) :
    s'.Whole := by
  obtain ⟨hle, hdrawn⟩ := Expr.parse_drawn tokens s.nextSite
  unfold Session.evaluateTokens at hrun
  generalize Expr.parse tokens s.nextSite = parsed at hrun hle hdrawn
  obtain ⟨tree, parseErrors, nextSite⟩ := parsed
  cases tree with
  | none =>
    cases hrun
    exact h.later hle
  | some e =>
    cases parseErrors with
    | cons error more =>
      cases hrun
      exact h.later hle
    | nil =>
      refine (h.later hle).runResolved (R := Value.Twin) (fun v l hv hknown => ?_) hrun
      have hself := Expr.alike_later hv [] e fun reference hreference =>
        hknown _ ((hdrawn e rfl).range _ (List.mem_map_of_mem hreference)).2
      rw [Expr.shifted_same] at hself
      exact interpretExpression_twin fuel hself

theorem runLineTokens (h : s.Whole) {fuel : Nat} {tokens : List Token} {errors : List Diagnostic}
    (hrun : s.runLineTokens fuel tokens = some (errors, s')) : s'.Whole := by
  unfold Session.runLineTokens at hrun
  generalize splitStatements tokens = parts at hrun
  obtain ⟨statements, expression⟩ := parts
  dsimp only at hrun
  split at hrun
  next => exact h.runTokens hrun
  next =>
    cases hlast : statements.getLast? with
    | none =>
      rw [hlast] at hrun
      exact h.evaluateTokens hrun
    | some last =>
      rw [hlast] at hrun
      dsimp only at hrun
      split at hrun
      next s₁ hfirst => exact (h.runTokens hfirst).evaluateTokens hrun
      next => exact h.runTokens hrun

theorem scanned (h : s.Whole) {source : String} {next : List Token → Session → Outcome}
    {errors : List Diagnostic} (hnext : ∀ tokens, next tokens s = some (errors, s') → s'.Whole)
    (hrun : s.scanned source next = some (errors, s')) : s'.Whole := by
  unfold Session.scanned at hrun
  split at hrun
  next => exact hnext _ hrun
  next =>
    cases hrun
    exact h

/-- A step leaves a session whole. -/
theorem outcome (h : s.Whole) {fuel : Nat} {step : Step} {errors : List Diagnostic}
    (hrun : step.outcome fuel s = some (errors, s')) : s'.Whole := by
  cases step with
  | run source =>
    change s.scanned source (Session.runTokens fuel) = _ at hrun
    exact h.scanned (fun _ hnext => h.runTokens hnext) hrun
  | line source =>
    change s.scanned source (Session.runLineTokens fuel) = _ at hrun
    exact h.scanned (fun _ hnext => h.runLineTokens hnext) hrun
  | evaluate source =>
    change s.scanned source (Session.evaluateTokens fuel) = _ at hrun
    exact h.scanned (fun _ hnext => h.evaluateTokens hnext) hrun
  | reset =>
    cases hrun
    exact h

/-- Steps in order keep a session whole. -/
theorem takeAll {ρ : Type} [Reporter ρ] {fuel : Nat} {steps : List Step} {r r' : ρ} (h : s.Whole)
    (hrun : Step.takeAll fuel steps s r = some (s', r')) : s'.Whole := by
  induction steps generalizing s r with
  | nil =>
    cases hrun
    exact h
  | cons step steps ih =>
    unfold Step.takeAll Step.take at hrun
    cases hstep : step.outcome fuel s with
    | none =>
      rw [hstep] at hrun
      cases hrun
    | some outcome =>
      obtain ⟨errors, s₁⟩ := outcome
      rw [hstep] at hrun
      exact ih (h.outcome hstep) hrun

end Whole

end Session

end Lox
