import Lox.Proofs.Grammar.Sources
import Lox.Proofs.Proper.Orderly
import Lox.Proofs.Session.Deeds
import Lox.Proofs.Token.Joined

/-!
# Sessions stay in order

Whatever a session is asked to do, it stays orderly (`Chronicle.Continues`): with texts whose tokens
all have `P`, sites are given out anew, distances that are known stay, moments are added through
which input is used up, and errors name tokens as `Diagnostic.Sourced` says. This goes through all
stages, and holds of texts that are rejected, of runs that fail and of runs that are cut short.
-/

namespace Lox

open Eval

/-! ## What errors name -/

/-- The error is one of running and names a token of which `P` holds. -/
def Diagnostic.Ran (P : Token → Prop) : Diagnostic → Prop
  | .runtime e => P e.token
  | .lexical _ | .syntactic _ | .scope _ => False

/-- The error is not lexical and names a token of the row: a syntax error may also name what stands
at the end of it, and a runtime error names a token of which `P` holds. -/
def Diagnostic.Sourced (P : Token → Prop) (tokens : List Token) : Diagnostic → Prop
  | .lexical _ => False
  | .syntactic e => (e.token ∈ tokens ∧ e.token.isEnd = false) ∨ e.token = .endAmong tokens
  | .scope e => e.token ∈ tokens ∧ e.token.isEnd = false
  | .runtime e => P e.token

namespace Chronicle

/-! ## Stretches of a session -/

/-- The session is in order between two texts. -/
def Orderly (P : Token → Prop) (c : Chronicle) : Prop :=
  c.run.Orderly P c.nextSite

/-- The session went on from `c` to `c'`, which is in order. Distances known in `c` stay, as do
those of references that have none. -/
structure Later (P : Token → Prop) (c c' : Chronicle) : Prop where
  orderly : c'.Orderly P
  sites : c.nextSite ≤ c'.nextSite
  grows : c.run.machine.store.Grows c'.run.machine.store
  roots : c.run.history.origins.roots <:+ c'.run.history.origins.roots
  known : ∀ i < c.nextSite, c'.run.machine.table[i]? = c.run.machine.table[i]?
  added : ∃ evs, c'.run.history.log = c.run.history.log ++ evs ∧
    ∀ ev ∈ evs, ∀ i < c.nextSite, ev.machine.table[i]? = c.run.machine.table[i]?

/-- The session went on from `c` to `c'`, and all input that was used was used at the moments added
to the log. -/
structure Continues (P : Token → Prop) (c c' : Chronicle) : Prop extends Later P c c' where
  fed : ∃ evs, c'.run.history.log = c.run.history.log ++ evs ∧
    Fed c.run.machine.input evs c'.run.machine.input

/-- The outcome of a text continues the session, and the errors have `D`. -/
structure Outcome.Keeps (P : Token → Prop) (c : Chronicle) (D : Diagnostic → Prop) (o : Outcome) :
    Prop where
  continues : c.Continues P o.2
  errors : ∀ errors, o.1 = some errors → ∀ d ∈ errors, D d

variable {P : Token → Prop} {c c' c'' : Chronicle} {D D' : Diagnostic → Prop}

theorem Later.trans (h : c.Later P c') (h' : c'.Later P c'') : c.Later P c'' := by
  obtain ⟨evs, hlog, hknown⟩ := h.added
  obtain ⟨evs', hlog', hknown'⟩ := h'.added
  refine ⟨h'.orderly, Nat.le_trans h.sites h'.sites, h.grows.trans h'.grows,
    h.roots.trans h'.roots, fun i hi => ?_, evs ++ evs', ?_, fun ev hev i hi => ?_⟩
  · rw [h'.known i (Nat.lt_of_lt_of_le hi h.sites), h.known i hi]
  · rw [hlog', hlog, List.append_assoc]
  · rcases List.mem_append.mp hev with hev | hev
    · exact hknown ev hev i hi
    · rw [hknown' ev hev i (Nat.lt_of_lt_of_le hi h.sites), h.known i hi]

theorem Continues.trans (h : c.Continues P c') (h' : c'.Continues P c'') :
    c.Continues P c'' := by
  obtain ⟨evs, hlog, hfed⟩ := h.fed
  obtain ⟨evs', hlog', hfed'⟩ := h'.fed
  refine ⟨h.toLater.trans h'.toLater, evs ++ evs', ?_, hfed.append hfed'⟩
  rw [hlog', hlog, List.append_assoc]

/-- Sites are given out to a tree that is not run. -/
theorem Orderly.drop (h : c.Orderly P) {nextSite : Site} (hle : c.nextSite ≤ nextSite) :
    c.Continues P ⟨c.run, nextSite⟩ where
  orderly := h.mono hle
  sites := hle
  grows := .refl _
  roots := List.suffix_refl _
  known _ _ := rfl
  added := ⟨[], (List.append_nil _).symm, fun _ hev => nomatch hev⟩
  fed := ⟨[], (List.append_nil _).symm, rfl⟩

/-- The distances of a tree with new sites are learned. -/
theorem Orderly.begin (h : c.Orderly P) {root : Root} {nextSite : Site}
    (hdrawn : Drawn c.nextSite nextSite root.sites) :
    c.Continues P ⟨c.run.begin root.table root, nextSite⟩ where
  orderly := (Run.Orderly.begin h hdrawn).1
  sites := hdrawn.le
  grows := .refl _
  roots := List.suffix_cons _ _
  known := (Run.Orderly.begin h hdrawn).2
  added := ⟨[], (List.append_nil _).symm, fun _ hev => nomatch hev⟩
  fed := ⟨[], (List.append_nil _).symm, rfl⟩

/-- A session goes on in order where a run that was kept up leads. -/
theorem Orderly.ran (h : c.Orderly P) {r : Run} (hr : Run.Upkept P c.run r) :
    c.Continues P ⟨r, c.nextSite⟩ := by
  obtain ⟨evs, hlog, hcourse⟩ := hr.course
  have htable : r.machine.table = c.run.machine.table := hr.follows.table
  refine ⟨⟨Run.Orderly.upkept h hr, Nat.le_refl _, hr.follows.grows, ⟨[], hr.roots.symm⟩,
    fun i _ => ?_, evs, hlog, fun ev hev i _ => ?_⟩, evs, hlog, hcourse.fed⟩
  · rw [htable]
  · rw [(hcourse.holds ev hev).table]

/-- A tree is run that may fail or be cut short. -/
theorem ran_keeps {α : Type} {x : Traced α} (h : c.Orderly P)
    (hx : (upkeep P).Outcome c.run (fun _ _ => True) (x c.run)) (hexplained : Explained x) :
    Outcome.Keeps P c (Diagnostic.Ran P) (match x c.run with
      | .ok _ r => (some [], ⟨r, c.nextSite⟩)
      | .error (.fault e) r => (some [.runtime e], ⟨r, c.nextSite⟩)
      | .error .outOfFuel r => (none, ⟨r, c.nextSite⟩)) := by
  have hexplained := hexplained c.run
  cases hxr : x c.run with
  | ok a r =>
    rw [hxr] at hx
    refine ⟨h.ran hx.1, ?_⟩
    rintro _ ⟨⟩ d hd
    cases hd
  | error halt r =>
    rw [hxr] at hx hexplained
    have hran : c.Continues P ⟨r, c.nextSite⟩ := h.ran hx
    cases halt with
    | outOfFuel => exact ⟨hran, fun _ herrors => nomatch herrors⟩
    | fault e =>
      refine ⟨hran, ?_⟩
      rintro _ ⟨⟩ d hd
      cases List.mem_singleton.mp hd
      obtain ⟨ev, hev, mark, m, hstep⟩ := hexplained e rfl
      exact (hran.orderly.log ev hev).proper.fault mark _ m hstep

theorem Outcome.Keeps.after {o : Outcome} (hc : c.Continues P c') (h : o.Keeps P c' D) :
    o.Keeps P c D :=
  ⟨hc.trans h.continues, h.errors⟩

theorem Outcome.Keeps.mono {o : Outcome} (h : o.Keeps P c D) (hD : ∀ d, D d → D' d) :
    o.Keeps P c D' :=
  ⟨h.continues, fun errors herrors d hd => hD d (h.errors errors herrors d hd)⟩

/-! ## Trees -/

/-- A tree with new sites is run, with its distances learned or not. -/
theorem attempt_keeps {α : Type} {x : Traced α} (root : Root) (h : c.Orderly P)
    {nextSite : Site} (hdrawn : Drawn c.nextSite nextSite root.sites)
    (hx : ∀ r : Run, r.machine.Proper P → (upkeep P).Outcome r (fun _ _ => True) (x r))
    (hexplained : Explained x) {resolution : Option Resolution}
    (hresolution : ∀ r ∈ resolution, r.table = root.table) :
    Outcome.Keeps P c (Diagnostic.Ran P) (attempt resolution root x ⟨c.run, nextSite⟩) := by
  unfold attempt
  cases resolution with
  | none =>
    have hdropped := h.drop hdrawn.le
    exact (ran_keeps hdropped.orderly (hx _ hdropped.orderly.machine) hexplained).after hdropped
  | some r =>
    dsimp only
    rw [hresolution r rfl]
    have hbegun := h.begin hdrawn
    exact (ran_keeps hbegun.orderly (hx _ hbegun.orderly.machine) hexplained).after hbegun

theorem runResolved_eq {α : Type} (resolution : Resolution) (root : Root) (x : Traced α)
    (c : Chronicle) : c.runResolved resolution root x =
      match resolution.errors with
      | [] => c.attempt (some resolution) root x
      | errors => (some (errors.map .scope), c) := by
  unfold runResolved
  cases resolution.errors <;> rfl

/-- A tree with new sites is resolved, and run if that met no errors. -/
theorem runResolved_keeps {α : Type} {x : Traced α} {tokens : List Token} (root : Root)
    (h : c.Orderly P) {nextSite : Site} (hdrawn : Drawn c.nextSite nextSite root.sites)
    (hx : ∀ r : Run, r.machine.Proper P → (upkeep P).Outcome r (fun _ _ => True) (x r))
    (hexplained : Explained x)
    (hblames : (root.part.walk .start).Blames fun t => t ∈ tokens ∧ t.isEnd = false) :
    Outcome.Keeps P c (Diagnostic.Sourced P tokens)
      (runResolved ⟨root.table, (root.part.walk .start).errors⟩ root x ⟨c.run, nextSite⟩) := by
  rw [runResolved_eq]
  dsimp only
  have htable : ∀ r ∈ some (⟨root.table, (root.part.walk .start).errors⟩ : Resolution),
      r.table = root.table := by
    rintro _ ⟨⟩
    rfl
  have hrun := attempt_keeps root h hdrawn hx hexplained htable
  split
  next herrors =>
    rw [herrors] at hrun
    refine hrun.mono fun d hd => ?_
    cases d with
    | runtime e => exact hd
    | _ => exact hd.elim
  next =>
    refine ⟨h.drop hdrawn.le, ?_⟩
    rintro _ ⟨⟩ d hd
    obtain ⟨e, he, rfl⟩ := List.mem_map.mp hd
    exact hblames e he

/-! ## Tokens -/

/-- Tokens are run as a program. -/
theorem runTokens_keeps (fuel : Nat) {tokens : List Token} (h : c.Orderly P)
    (htokens : ∀ t ∈ tokens, t.isEnd = false → P t) :
    Outcome.Keeps P c (Diagnostic.Sourced P tokens) (c.runTokens fuel tokens) := by
  have hdrawn := Program.parse_drawn tokens c.nextSite
  obtain ⟨herrors, hblames⟩ := Program.parse_sourced
    (P := fun t => t ∈ tokens ∧ t.isEnd = false) (fun t ht hopen => ⟨ht, hopen⟩) c.nextSite
  obtain ⟨_, hnames⟩ := Program.parse_sourced htokens c.nextSite
  unfold runTokens
  generalize Program.parse tokens c.nextSite = parsed at hdrawn herrors hblames hnames
  obtain ⟨ss, errors, nextSite⟩ := parsed
  cases errors with
  | nil =>
    exact runResolved_keeps (.program ss) h hdrawn
      (fun r hr => traceProgram_upkeep fuel hr hnames) (traceProgram_explained fuel ss)
      (Stmt.walkAll_blames ss hblames fun _ he => nomatch he)
  | cons error errors =>
    refine ⟨h.drop hdrawn.le, ?_⟩
    rintro _ ⟨⟩ d hd
    obtain ⟨e, he, rfl⟩ := List.mem_map.mp hd
    exact herrors e he

/-- Tokens are evaluated as an expression whose value is written. -/
theorem evaluateTokens_keeps (fuel : Nat) {tokens : List Token} (h : c.Orderly P)
    (htokens : ∀ t ∈ tokens, t.isEnd = false → P t) :
    Outcome.Keeps P c (Diagnostic.Sourced P tokens) (c.evaluateTokens fuel tokens) := by
  obtain ⟨hle, hdrawn⟩ := Expr.parse_drawn tokens c.nextSite
  obtain ⟨herrors, hblames⟩ := Expr.parse_sourced
    (P := fun t => t ∈ tokens ∧ t.isEnd = false) (fun t ht hopen => ⟨ht, hopen⟩) c.nextSite
  obtain ⟨_, hnames⟩ := Expr.parse_sourced htokens c.nextSite
  unfold evaluateTokens
  generalize Expr.parse tokens c.nextSite = parsed at hle hdrawn herrors hblames hnames
  obtain ⟨tree, errors, nextSite⟩ := parsed
  have hrejected : Outcome.Keeps P c (Diagnostic.Sourced P tokens)
      (some (errors.map .syntactic), ⟨c.run, nextSite⟩) := by
    refine ⟨h.drop hle, ?_⟩
    rintro _ ⟨⟩ d hd
    obtain ⟨e, he, rfl⟩ := List.mem_map.mp hd
    exact herrors e he
  cases tree with
  | none => exact hrejected
  | some e =>
    cases errors with
    | nil =>
      exact runResolved_keeps (.expression e) h (hdrawn e rfl)
        (fun r hr => traceExpression_upkeep fuel hr hnames) (traceExpression_explained fuel e)
        (e.walk_blames hblames fun _ he => nomatch he)
    | cons error errors => exact hrejected

end Chronicle

/-! ## Lines -/

/-- The token is an end that was put behind a token of the row that statements end with, on the line
of that token. -/
def Token.EndsStatements (tokens : List Token) (t : Token) : Prop :=
  ∃ front last rest, tokens = front ++ last :: rest ∧ Session.endsStatement last = true ∧
    t = .endOf last.line

/-- The error names a token of the row, or an end put behind the statements in it. -/
def Diagnostic.OnLine (P : Token → Prop) (tokens : List Token) : Diagnostic → Prop
  | .lexical _ => False
  | .syntactic e => e.token ∈ tokens ∨ e.token.EndsStatements tokens
  | .scope e => e.token ∈ tokens
  | .runtime e => P e.token

/-- What stands at the end of a row that has one end. -/
theorem Token.endAmong_closed {ts : List Token} {stop : Token} (hopen : ∀ t ∈ ts, t.isEnd = false)
    (hstop : stop.isEnd = true) : Token.endAmong (ts ++ [stop]) = stop := by
  have hnone : ts.find? Token.isEnd = none :=
    List.find?_eq_none.mpr fun t ht => by simp [hopen t ht]
  unfold Token.endAmong
  rw [List.find?_append, hnone, Option.none_or, List.find?_singleton, if_pos hstop,
    Option.getD_some]

/-- An error about a part of a row that ends as the row does. -/
theorem Diagnostic.Sourced.onLine {P : Token → Prop} {ts : List Token} {stop : Token}
    (front : List Token) (hopen : ∀ t ∈ ts, t.isEnd = false) (hstop : stop.isEnd = true)
    {d : Diagnostic} (h : d.Sourced P (ts ++ [stop])) : d.OnLine P (front ++ ts ++ [stop]) := by
  have hmem : ∀ t ∈ ts ++ [stop], t ∈ front ++ ts ++ [stop] := fun t ht => by
    rw [List.append_assoc]
    exact List.mem_append_right front ht
  cases d with
  | lexical e => exact h
  | syntactic e =>
    rcases h with h | h
    · exact .inl (hmem _ h.1)
    · rw [Token.endAmong_closed hopen hstop] at h
      refine .inl ?_
      rw [h]
      exact List.mem_append_right _ (List.mem_singleton_self stop)
  | scope e => exact hmem _ h.1
  | runtime e => exact h

/-- An error about the statements of a line, which are given an end of their own. -/
theorem Diagnostic.Sourced.onStatements {P : Token → Prop} {front rest : List Token} {last : Token}
    (hopen : ∀ t ∈ front ++ [last], t.isEnd = false) (hlast : Session.endsStatement last = true)
    {d : Diagnostic} (h : d.Sourced P (front ++ [last] ++ [.endOf last.line])) :
    d.OnLine P (front ++ [last] ++ rest) := by
  have hmem : ∀ t : Token, t ∈ front ++ [last] ++ [.endOf last.line] ∧ t.isEnd = false →
      t ∈ front ++ [last] ++ rest := by
    rintro t ⟨ht, hend⟩
    rcases List.mem_append.mp ht with ht | ht
    · exact List.mem_append_left rest ht
    · rw [List.mem_singleton.mp ht] at hend
      cases hend
  cases d with
  | lexical e => exact h
  | syntactic e =>
    rcases h with h | h
    · exact .inl (hmem _ h)
    · rw [Token.endAmong_closed hopen rfl] at h
      exact .inr ⟨front, last, rest, by simp, hlast, h⟩
  | scope e => exact hmem _ h
  | runtime e => exact h

/-- The statements of a line end with a token that statements end with. -/
theorem Session.splitStatements_last {tokens : List Token} {last : Token}
    (h : (splitStatements tokens).1.getLast? = some last) : endsStatement last = true := by
  rw [splitStatements, List.getLast?_reverse] at h
  have hnot := List.head?_dropWhile_not (fun t => !endsStatement t) tokens.reverse
  rw [h] at hnot
  simpa using hnot

namespace Chronicle

variable {P : Token → Prop} {c c' : Chronicle} {D D' : Diagnostic → Prop}

/-- Tokens are run as a line: statements, and an expression after them. -/
theorem runLineTokens_keeps (fuel : Nat) {ts : List Token} {stop : Token} (h : c.Orderly P)
    (hopen : ∀ t ∈ ts, t.isEnd = false) (hstop : stop.isEnd = true) (htokens : ∀ t ∈ ts, P t) :
    Outcome.Keeps P c (Diagnostic.OnLine P (ts ++ [stop]))
      (c.runLineTokens fuel (ts ++ [stop])) := by
  have hends : ∀ us : List Token, (∀ t ∈ us, t ∈ ts) → ∀ e : Token, e.isEnd = true →
      ∀ t ∈ us ++ [e], t.isEnd = false → P t := by
    intro us hus e he t ht hnot
    rcases List.mem_append.mp ht with ht | ht
    · exact htokens t (hus t ht)
    · rw [List.mem_singleton.mp ht, he] at hnot
      cases hnot
  have hwhole : ∀ d : Diagnostic, d.Sourced P (ts ++ [stop]) → d.OnLine P (ts ++ [stop]) :=
    fun d hd => Diagnostic.Sourced.onLine [] hopen hstop hd
  have hparts := Session.splitStatements_append (ts ++ [stop])
  have hlast := @Session.splitStatements_last (ts ++ [stop])
  unfold runLineTokens
  generalize Session.splitStatements (ts ++ [stop]) = parts at hparts hlast
  obtain ⟨statements, expression⟩ := parts
  dsimp only at hparts hlast ⊢
  by_cases hshort : expression.length ≤ 1
  · rw [if_pos hshort]
    exact (runTokens_keeps fuel h (hends ts (fun _ ht => ht) stop hstop)).mono hwhole
  rw [if_neg hshort]
  cases hstatements : statements.getLast? with
  | none => exact (evaluateTokens_keeps fuel h (hends ts (fun _ ht => ht) stop hstop)).mono hwhole
  | some last =>
    have hended := hlast hstatements
    obtain ⟨front, rfl⟩ := List.getLast?_eq_some_iff.mp hstatements
    -- the expression has the end of the line
    obtain ⟨us, rfl⟩ : ∃ us, expression = us ++ [stop] := by
      rcases List.eq_nil_or_concat expression with rfl | ⟨us, e, rfl⟩
      · exact absurd (Nat.zero_le 1) hshort
      · rw [List.concat_eq_append, ← List.append_assoc] at hparts
        exact ⟨us, by rw [List.concat_eq_append, (List.append_inj' hparts rfl).2]⟩
    obtain rfl : front ++ [last] ++ us = ts := by
      rw [← List.append_assoc] at hparts
      exact (List.append_inj' hparts rfl).1
    dsimp only
    have hrun := runTokens_keeps fuel h (hends (front ++ [last])
      (fun t ht => List.mem_append_left us ht) (.endOf last.line) rfl)
    have hrunErrors : ∀ d : Diagnostic, d.Sourced P (front ++ [last] ++ [.endOf last.line]) →
        d.OnLine P (front ++ [last] ++ us ++ [stop]) := fun d hd => by
      rw [List.append_assoc (front ++ [last])]
      exact hd.onStatements (fun t ht => hopen t (List.mem_append_left us ht)) hended
    generalize c.runTokens fuel (front ++ [last] ++ [.endOf last.line]) = outcome at hrun
    obtain ⟨_ | _ | _, c'⟩ := outcome
    · exact hrun.mono hrunErrors
    · have hevaluate := evaluateTokens_keeps fuel hrun.continues.orderly
        (hends us (fun t ht => List.mem_append_right _ ht) stop hstop)
      exact (hevaluate.after hrun.continues).mono fun d hd =>
        hd.onLine _ (fun t ht => hopen t (List.mem_append_right _ ht)) hstop
    · exact hrun.mono hrunErrors

end Chronicle

/-! ## Texts -/

/-- The error is one of scanning the text or names a token of it. If the text was typed in, a syntax
error may name an end that was put behind the statements, and a runtime error may come from an
earlier text. -/
def Diagnostic.From (P : Token → Prop) (typed : Bool) (source : String) : Diagnostic → Prop
  | .lexical e => e ∈ scanErrors source
  | .syntactic e =>
    e.token ∈ scanTokens source ∨ typed = true ∧ e.token.EndsStatements (scanTokens source)
  | .scope e => e.token ∈ scanTokens source
  | .runtime e => P e.token

/-- An error of a run alone may come from any text. -/
theorem Diagnostic.Ran.anyText {P : Token → Prop} {d : Diagnostic} (h : d.Ran P) {typed : Bool}
    {source : String} : d.From P typed source := by
  cases d with
  | runtime e => exact h
  | _ => exact h.elim

/-- Is the text of the deed typed in, so that an expression may follow its statements? -/
def Deed.isTyped : Deed → Bool
  | .take (.line _) | .prompt => true
  | .take (.run _) | .take (.evaluate _) | .take .reset | .runLeniently _ _
  | .evaluateLeniently _ _ _ => false

namespace Chronicle

variable {P : Token → Prop} {c : Chronicle}

/-- An expression is evaluated, and its value written or not. -/
theorem evaluator_upkeep (fuel : Nat) (written : Bool) {e : Expr} {r : Run}
    (h : r.machine.Proper P) (he : e.Names P) :
    (upkeep P).Outcome r (fun _ _ => True) ((some <$> evaluator fuel written e : Traced _) r) := by
  have hvalue : (upkeep P).Outcome r (fun _ _ => True) (evaluator fuel written e r) := by
    cases written with
    | true => exact traceExpression_upkeep fuel h he
    | false => exact (upkeep_run fuel (t := .expression e) (.top h) he).mono fun _ _ _ _ => trivial
  exact hvalue.bind fun _ r' hr' _ => ⟨hr', trivial⟩

theorem evaluator_explained (fuel : Nat) (written : Bool) (e : Expr) :
    Explained (some <$> evaluator fuel written e : Traced (Option Value)) := by
  have hvalue : Explained (evaluator fuel written e) := by
    cases written with
    | true => exact traceExpression_explained fuel e
    | false => exact Task.trace_explained fuel (.expression e) .top
  exact hvalue.bind fun v => .pure (some v)

/-- A text is scanned, and its tokens go on if that met no errors. -/
theorem scanned_keeps {source : String} {typed : Bool} {next : List Token → Chronicle → Outcome}
    (h : c.Orderly P)
    (hnext : ∀ ts stop, scanTokens source = ts ++ [stop] → (∀ t ∈ ts, t.isEnd = false) →
      stop.isEnd = true →
      Outcome.Keeps P c (Diagnostic.From P typed source) (next (ts ++ [stop]) c)) :
    Outcome.Keeps P c (Diagnostic.From P typed source) (c.scanned source next) := by
  unfold scanned
  cases herrors : scanErrors source with
  | nil =>
    obtain ⟨ts, htokens, hopen⟩ := scanTokens_end herrors
    dsimp only
    rw [htokens]
    exact hnext ts _ htokens hopen rfl
  | cons error errors =>
    refine ⟨h.drop (Nat.le_refl _), ?_⟩
    rintro _ ⟨⟩ d hd
    obtain ⟨e, he, rfl⟩ := List.mem_map.mp hd
    show e ∈ scanErrors source
    rwa [herrors]

/-- A text that is run as a program or evaluated. -/
theorem scanned_sourced {source : String} {next : List Token → Chronicle → Outcome}
    (h : c.Orderly P) (htokens : ∀ t ∈ scanTokens source, P t)
    (hnext : ∀ tokens, (∀ t ∈ tokens, t.isEnd = false → P t) →
      Outcome.Keeps P c (Diagnostic.Sourced P tokens) (next tokens c)) :
    Outcome.Keeps P c (Diagnostic.From P false source) (c.scanned source next) := by
  refine scanned_keeps h fun ts stop hscan hopen hstop => ?_
  rw [hscan] at htokens
  refine (hnext (ts ++ [stop]) fun t ht _ => htokens t ht).mono fun d hd => ?_
  have hline := hd.onLine [] hopen hstop
  cases d with
  | lexical e => exact hd.elim
  | syntactic e =>
    refine .inl ?_
    rw [hscan]
    rcases hd with hd | hd
    · exact hd.1
    · rw [hd, Token.endAmong_closed hopen hstop]
      exact List.mem_append_right _ (List.mem_singleton_self stop)
  | scope e =>
    show e.token ∈ scanTokens source
    rw [hscan]
    exact hd.1
  | runtime e => exact hd

/-- A text that is run as a line. -/
theorem scanned_line (fuel : Nat) {source : String} (h : c.Orderly P)
    (htokens : ∀ t ∈ scanTokens source, P t) :
    Outcome.Keeps P c (Diagnostic.From P true source)
      (c.scanned source (runLineTokens fuel)) := by
  refine scanned_keeps h fun ts stop hscan hopen hstop => ?_
  rw [hscan] at htokens
  refine (runLineTokens_keeps fuel h hopen hstop fun t ht =>
    htokens t (List.mem_append_left _ ht)).mono fun d hd => ?_
  rw [← hscan] at hd
  cases d with
  | lexical e => exact hd.elim
  | syntactic e => exact hd.imp_right fun hsynthetic => ⟨rfl, hsynthetic⟩
  | scope e => exact hd
  | runtime e => exact hd

/-- Where nothing is done, a session stays in order and nothing is reported. -/
theorem Orderly.stays (h : c.Orderly P) (D : Diagnostic → Prop) :
    Outcome.Keeps P c D (some [], c) := by
  refine ⟨h.drop (Nat.le_refl _), ?_⟩
  rintro _ ⟨⟩ d hd
  cases hd

/-! ## Deeds -/

/-- The session once the text of the deed is there: a prompt has read its line. -/
def listening (c : Chronicle) : Deed → Chronicle
  | .prompt => c.prompted
  | .take _ | .runLeniently _ _ | .evaluateLeniently _ _ _ => c

theorem Orderly.prompted (h : c.Orderly P) : c.prompted.Orderly P := by
  refine ⟨⟨h.machine.store, h.machine.current⟩, h.idle, h.drawn, h.table, fun ev hev => ?_,
    h.order⟩
  have hold := h.log ev hev
  exact ⟨hold.proper, hold.roots, hold.globals, hold.table, hold.grows⟩

/-- A deed keeps a session in order, whatever comes of it. -/
theorem perform_keeps (fuel : Nat) (deed : Deed) (h : c.Orderly P)
    (htext : ∀ source ∈ deed.text? c.session, ∀ t ∈ scanTokens source, P t) :
    Outcome.Keeps P (c.listening deed)
      (fun d => ∃ source ∈ deed.text? c.session, d.From P deed.isTyped source)
      (c.perform fuel deed) := by
  cases deed with
  | take step =>
    cases step with
    | run source =>
      exact (scanned_sourced h (htext source rfl) fun _ ht => runTokens_keeps fuel h ht).mono
        fun _ hd => ⟨source, rfl, hd⟩
    | line source =>
      exact (scanned_line fuel h (htext source rfl)).mono fun _ hd => ⟨source, rfl, hd⟩
    | evaluate source =>
      exact (scanned_sourced h (htext source rfl) fun _ ht => evaluateTokens_keeps fuel h ht).mono
        fun _ hd => ⟨source, rfl, hd⟩
    | reset => exact h.stays _
  | runLeniently resolved source =>
    have hdrawn := Program.parse_drawn (scanTokens source) c.nextSite
    obtain ⟨_, hnames⟩ := Program.parse_sourced (fun t ht _ => htext source rfl t ht) c.nextSite
    unfold perform
    dsimp only
    generalize Program.parse (scanTokens source) c.nextSite = parsed at hdrawn hnames ⊢
    obtain ⟨ss, errors, nextSite⟩ := parsed
    -- errors of parsing and resolving are dropped, so only running can report one
    refine (attempt_keeps (.program ss) h hdrawn (fun r hr => traceProgram_upkeep fuel hr hnames)
      (traceProgram_explained fuel ss) fun r hr => ?_).mono
        fun d hd => ⟨source, rfl, Diagnostic.Ran.anyText hd⟩
    cases resolved with
    | true =>
      cases hr
      rfl
    | false => cases hr
  | evaluateLeniently written resolved source =>
    obtain ⟨hle, hdrawn⟩ := Expr.parse_drawn (scanTokens source) c.nextSite
    obtain ⟨_, hnames⟩ := Expr.parse_sourced (fun t ht _ => htext source rfl t ht) c.nextSite
    unfold perform
    dsimp only
    generalize Expr.parse (scanTokens source) c.nextSite = parsed at hle hdrawn hnames ⊢
    obtain ⟨_ | e, errors, nextSite⟩ := parsed
    · have hdropped := h.drop hle
      exact (hdropped.orderly.stays _).after hdropped
    refine (attempt_keeps (.expression e) h (hdrawn e rfl)
      (fun r hr => evaluator_upkeep fuel written hr hnames)
      (evaluator_explained fuel written e) fun r hr => ?_).mono
        fun d hd => ⟨source, rfl, Diagnostic.Ran.anyText hd⟩
    cases resolved with
    | true =>
      cases hr
      rfl
    | false => cases hr
  | prompt =>
    have htext? : Deed.prompt.text? c.session = (Command.promptedLine c.session).1.text? := rfl
    rw [htext?] at htext ⊢
    unfold perform
    dsimp only
    generalize (Command.promptedLine c.session).1 = line at htext ⊢
    cases line with
    | absent => exact h.prompted.stays _
    | text source =>
      exact (scanned_line fuel h.prompted (htext source rfl)).mono fun _ hd => ⟨source, rfl, hd⟩
    | unreadable => exact h.prompted.stays _

end Chronicle

end Lox
