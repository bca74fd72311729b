import Lox.Proofs.Grammar.Sites
import Lox.Proofs.Grammar.Soundness
import Lox.Proofs.Run.Chronicle
import Lox.Proofs.Run.Statements
import Lox.Proofs.Run.Watched

/-!
# Sessions agree with resolving

Between two texts a session is settled: its run is sound, the globals are current, and neither the
trees that were run nor the table know a site that is still to be given out. A text that gets as far
as being run brings a tree with new sites, so its distances do not touch those that are known, and
the run stays sound with one more root. From this, all that happens in a session agrees with what
resolving found (`Chronicle.log_agrees`), however its texts end; and what the contract of resolved
runs grants to a watch, all moments of a session stand (`Chronicle.takeAll_watched`).
-/

namespace Lox

/-! ## Learning distances -/

/-- Adding the entries of a table one by one. -/
theorem Table.foldl_insert (t known : Table) (i : Site) :
    (t.foldl (fun known site d => known.insert site d) known)[i]? = (t[i]?).or known[i]? := by
  have hmany : ∀ (entries : List (Site × Nat)) (known : Table),
      entries.foldl (fun known e => known.insert e.1 e.2) known = known.insertMany entries := by
    intro entries
    induction entries with
    | nil => exact fun known => (Std.TreeMap.insertMany_nil).symm
    | cons e entries ih =>
      intro known
      rw [List.foldl_cons, ih, ← Std.TreeMap.insertMany_cons]
  rw [Std.TreeMap.foldl_eq_foldl_toList, hmany]
  cases ht : t[i]? with
  | some d =>
    exact Std.TreeMap.getElem?_insertMany_list_of_mem Std.ReflCmp.compare_self
      Std.TreeMap.distinct_keys_toList (Std.TreeMap.mem_toList_iff_getElem?_eq_some.mpr ht)
  | none =>
    refine Std.TreeMap.getElem?_insertMany_list_of_contains_eq_false
      (Bool.eq_false_iff.mpr fun hmem => ?_)
    obtain ⟨⟨site, d⟩, hentry, rfl⟩ := List.mem_map.mp (List.contains_iff_mem.mp hmem)
    rw [Std.TreeMap.mem_toList_iff_getElem?_eq_some.mp hentry] at ht
    cases ht

theorem Machine.learn_table (m : Machine) (t : Table) (i : Site) :
    (m.learn t).table[i]? = (t[i]?).or m.table[i]? :=
  Table.foldl_insert t m.table i

/-- Acceptance depends only on the entries for the references of the tree. -/
theorem Accepted.congr {T T' : Table} {part : Part} (h : Accepted T part)
    (hT : ∀ i ∈ sitesOf part.references, T'[i]? = T[i]?) : Accepted T' part :=
  ⟨h.errors, h.nodup, h.fresh, fun i hi => (hT i hi).trans (h.known i hi), h.tidy⟩

/-- Walking a part enters no site but those of its references. -/
theorem Part.walk_table (part : Part) {i : Site} (hi : i ∉ sitesOf part.references) :
    (part.walk .start).table[i]? = none := by
  have hgrows : Walk.Grows part.references .start (part.walk .start) := by
    cases part with
    | expression e => exact (e.walk_through .start).toGrows
    | expressions es => exact (Expr.walkAll_through es .start).toGrows
    | statement s => exact (s.walk_along .start).toGrows
    | statements ss => exact (Stmt.walkAll_along ss .start).toGrows
    | function d role => exact (d.walk_through role .start).toGrows
  exact (hgrows.table i hi).trans rfl

namespace Eval

/-! ## Settled runs -/

/-- Nothing is being run, and the sites from `nextSite` on are still to be given out. -/
structure Run.Settled (r : Run) (nextSite : Site) : Prop where
  sound : r.Sound
  idle : r.machine.current = r.machine.globals
  sites : ∀ root ∈ r.history.origins.roots, ∀ i ∈ sitesOf root.part.references, i < nextSite
  table : ∀ i, nextSite ≤ i → r.machine.table[i]? = none

variable {r r' : Run} {nextSite nextSite' : Site}

theorem Run.Settled.mono (h : r.Settled nextSite) (hle : nextSite ≤ nextSite') :
    r.Settled nextSite' :=
  ⟨h.sound, h.idle, fun root hroot i hi => Nat.lt_of_lt_of_le (h.sites root hroot i hi) hle,
    fun i hi => h.table i (Nat.le_trans hle hi)⟩

theorem Run.Settled.kept (h : r.Settled nextSite) (hr : Run.Kept r r') : r'.Settled nextSite := by
  refine ⟨hr.sound, ?_, ?_, ?_⟩
  · rw [hr.current, hr.grows.globals, h.idle]
  · rw [hr.roots]
    exact h.sites
  · rw [hr.table]
    exact h.table

theorem grows_begin (table : Table) (root : Root) (r : Run) : r.Grows (r.begin table root) :=
  ⟨.refl _, fun _ _ => rfl, fun _ _ => rfl, fun _ h => List.mem_cons_of_mem _ h, rfl⟩

/-- A tree that resolving has nothing against, with new sites, may be run next. -/
theorem Run.Settled.begin (h : r.Settled nextSite) (root : Root)
    (herrors : (root.part.walk .start).errors = [])
    (hdrawn : Drawn nextSite nextSite' (sitesOf root.part.references)) (htidy : root.part.Tidy) :
    (r.begin (root.part.walk .start).table root).Settled nextSite' := by
  have hgrows := grows_begin (root.part.walk .start).table root r
  refine ⟨⟨fun frame name b hb => ?_, fun o name v hv => ?_, h.sound.superclass, h.sound.globals,
    fun root' hroot' => ?_, h.sound.log⟩, h.idle, fun root' hroot' i hi => ?_, fun i hi => ?_⟩
  · exact (h.sound.bindings frame name b hb).grows hgrows
  · exact (h.sound.fields o name v hv).grows hgrows
  · rcases List.mem_cons.mp hroot' with rfl | hroot'
    · refine ⟨herrors, hdrawn.nodup, fun i _ => rfl, fun i hi => ?_, htidy⟩
      refine (Machine.learn_table _ _ i).trans ?_
      rw [h.table i (hdrawn.range i hi).1, Option.or_none]
    · refine (h.sound.accepted root' hroot').congr fun i hi => ?_
      have hold := h.sites root' hroot' i hi
      have hnew : i ∉ sitesOf root.part.references :=
        fun hmem => Nat.not_le.mpr hold (hdrawn.range i hmem).1
      refine (Machine.learn_table _ _ i).trans ?_
      rw [Part.walk_table _ hnew, Option.none_or]
  · rcases List.mem_cons.mp hroot' with rfl | hroot'
    · exact (hdrawn.range i hi).2
    · exact Nat.lt_of_lt_of_le (h.sites root' hroot' i hi) hdrawn.le
  · have hnew : i ∉ sitesOf root.part.references :=
      fun hmem => Nat.not_le.mpr (hdrawn.range i hmem).2 hi
    refine (Machine.learn_table _ _ i).trans ?_
    rw [Part.walk_table _ hnew, Option.none_or]
    exact h.table i (Nat.le_trans hdrawn.le hi)

/-! ## Programs and expressions -/

theorem Surrounds.top (h : r.Sound) (hidle : r.machine.current = r.machine.globals) :
    Surrounds r r.machine.current [] [] [] :=
  ⟨hidle ▸ h.globals, .nil⟩

/-- Outside of functions and loops. -/
theorem Outermost.top {c : Context} (hfunction : c.function = .none) (hloop : c.loopDepth = 0) :
    Outermost [] c :=
  ⟨fun _ => ⟨hfunction, hloop⟩, fun _ _ _ h => nomatch h⟩

variable {w : Watch}

/-- A task that is ready in a sound run, under a watch. -/
theorem watched_run (hw : lexical.Grants w) (fuel : Nat) {spot : Spot} {t : Task} (h : r.Sound)
    (hready : t.Ready spot .top r) :
    (lexical.watched w).Outcome r (fun result r' => t.Ended spot .top r' result)
      (t.trace fuel .top r) :=
  (lexical.watched w).run_task (Contract.watched_lawful lexical_lawful)
    (Contract.watched_layered lexical_lawful lexical_layered hw) fuel spot t .top r
    ⟨⟨h, hready⟩, fun _ ht => nomatch ht⟩

/-- The statements of a program are run where the walk comes by. -/
theorem traceProgram_watched (hw : lexical.Grants w) (fuel : Nat) {ss : List Stmt} {walk : Walk}
    (h : r.Sound) (hs : Standing ⟨walk, []⟩ [] r (.statements ss))
    (hfunction : walk.context.function = .none) (hloop : walk.context.loopDepth = 0) :
    (lexical.watched w).Outcome r (fun _ _ => True) (traceProgram fuel ss r) := by
  induction ss generalizing r walk with
  | nil => exact ⟨⟨.refl h, id⟩, trivial⟩
  | cons s ss ih =>
    have hready : (Task.statement s).Ready ⟨walk, []⟩ .top r :=
      ⟨hs.next rfl fun _ => .firstStatement, .top hfunction hloop⟩
    refine Contract.Outcome.bind (watched_run hw fuel h hready) fun flow r₁ h₁ hflow => ?_
    obtain rfl : flow = .normal := hflow.allowed.eq_normal hfunction hloop
    have htidy : s.Tidy := (hs.visited.tidy h).1
    have hrest : Standing ⟨s.walk walk, []⟩ [] r₁ (.statements ss) :=
      (hs.kept h₁.1).after (s.walk_adds walk htidy) (hflow.declared rfl) fun _ => .nextStatements
    have hcontext := (s.walk_along walk).context
    exact .of_kept (Contract.watched_lawful lexical_lawful) h₁
      (ih h₁.1.sound hrest (hcontext ▸ hfunction) (hcontext ▸ hloop))

/-- An expression is evaluated and its value written. -/
theorem traceExpression_watched (hw : lexical.Grants w) (fuel : Nat) {e : Expr} {walk : Walk}
    (h : r.Sound) (hs : Standing ⟨walk, []⟩ [] r (.expression e)) :
    (lexical.watched w).Outcome r (fun _ _ => True) (traceExpression fuel e r) := by
  have hready : (Task.expression e).Ready ⟨walk, []⟩ .top r := hs
  refine Contract.Outcome.bind (watched_run hw fuel h hready) fun value r₁ h₁ _ => ?_
  have hwrite : Unchanged r₁.machine
      { r₁.machine with output := (r₁.machine.output.writeLine value.text).2 } :=
    ⟨rfl, rfl, rfl, rfl⟩
  have hstep := (h₁.1.sound.quiet .top .nothing hwrite).took .nothing none
  refine ⟨⟨h₁.1.trans hstep, fun hseen => (h₁.2 hseen).logged rfl ?_⟩, trivial⟩
  exact ⟨hw.store h₁.1, (fun _ ht => nomatch ht), fun _ _ hends => nomatch hends⟩

end Eval

open Eval

namespace Chronicle

/-! ## Texts -/

/-- Between two texts. -/
def Settled (c : Chronicle) : Prop :=
  c.run.Settled c.nextSite

/-- Between two texts, with the watch stood so far. -/
def Watched (w : Watch) (c : Chronicle) : Prop :=
  c.Settled ∧ w.Seen c.run

variable {w : Watch} {c : Chronicle}

/-- A tree with new sites, if resolving has nothing against it. -/
theorem runResolved_watched {α : Type} {lo : Site} (root : Root) {x : Traced α}
    (h : c.run.Settled lo) (hseen : w.Seen c.run)
    (hdrawn : Drawn lo c.nextSite (sitesOf root.part.references)) (htidy : root.part.Tidy)
    (hx : ∀ r : Run, r.Settled c.nextSite → root ∈ r.history.origins.roots →
      (lexical.watched w).Outcome r (fun _ _ => True) (x r)) :
    (c.runResolved ⟨(root.part.walk .start).table, (root.part.walk .start).errors⟩ root
      x).2.Watched w := by
  refine runResolved_leaves _ root ⟨h.mono hdrawn.le, hseen⟩ fun herrors => ?_
  have hbegin := h.begin root herrors hdrawn htidy
  exact (hx _ hbegin List.mem_cons_self).ends (P := fun r => Watched w ⟨r, c.nextSite⟩)
    (fun _ hr => ⟨hbegin.kept hr.1, hr.2 hseen⟩) fun _ hr => ⟨hbegin.kept hr.1, hr.2 hseen⟩

theorem runTokens_watched (hw : lexical.Grants w) (fuel : Nat) {tokens : List Token}
    (hspelled : ∀ t ∈ tokens, t.Spelled) (h : c.Watched w) :
    (c.runTokens fuel tokens).2.Watched w := by
  have hdrawn := Program.parse_drawn tokens c.nextSite
  have hsound := @Grammar.program_derives tokens c.nextSite
  unfold runTokens
  generalize Program.parse tokens c.nextSite = parsed at hdrawn hsound
  obtain ⟨ss, errors, nextSite⟩ := parsed
  cases errors with
  | cons error errors => exact ⟨h.1.mono hdrawn.le, h.2⟩
  | nil =>
    have htidy : Stmt.TidyAll ss :=
      (hsound rfl).tidy fun t ht => hspelled t ((List.takeWhile_prefix _).mem ht)
    refine runResolved_watched (c := ⟨c.run, nextSite⟩) (.program ss) h.1 h.2 hdrawn htidy
      fun r hr hroot => ?_
    exact traceProgram_watched hw fuel hr.sound ⟨⟨_, hroot, .root⟩, .top hr.sound hr.idle⟩ rfl rfl

theorem evaluateTokens_watched (hw : lexical.Grants w) (fuel : Nat) {tokens : List Token}
    (hspelled : ∀ t ∈ tokens, t.Spelled) (h : c.Watched w) :
    (c.evaluateTokens fuel tokens).2.Watched w := by
  obtain ⟨hle, hdrawn⟩ := Expr.parse_drawn tokens c.nextSite
  have hsound := @Grammar.expression_derives tokens c.nextSite
  unfold evaluateTokens
  generalize Expr.parse tokens c.nextSite = parsed at hle hdrawn hsound
  obtain ⟨_ | e, errors, nextSite⟩ := parsed
  · exact ⟨h.1.mono hle, h.2⟩
  cases errors with
  | cons error errors => exact ⟨h.1.mono hle, h.2⟩
  | nil =>
    have htidy : e.Tidy :=
      (hsound rfl rfl).tidy fun t ht => hspelled t ((List.takeWhile_prefix _).mem ht)
    refine runResolved_watched (c := ⟨c.run, nextSite⟩) (.expression e) h.1 h.2 (hdrawn e rfl)
      htidy fun r hr hroot => ?_
    exact traceExpression_watched hw fuel hr.sound ⟨⟨_, hroot, .root⟩, .top hr.sound hr.idle⟩

/-- Every step leaves a session settled, with the watch stood. -/
theorem watched_invariant (hw : lexical.Grants w) : Invariant (Watched w) :=
  ⟨fun fuel _ ht _ h => runTokens_watched hw fuel ht h,
    fun fuel _ ht _ h => evaluateTokens_watched hw fuel ht h⟩

end Chronicle

/-! ## Whole sessions -/

/-- Binding native functions makes no frame and no object, and binds nothing else. -/
theorem Store.defineNatives_facts (ns : List Native) (frame : FrameId) (s s' : Store)
    (hs' : s' = ns.foldl (fun s n =>
      let (serial, s) := s.newSerial
      s.define frame n.name (.native n serial) false) s) :
    s'.frames.size = s.frames.size ∧ (∀ f, s'.parent? f = s.parent? f) ∧ s'.objects = s.objects ∧
      ∀ f name b, s'.binding? f name = some b →
        s.binding? f name = some b ∨ ∃ n serial, b = ⟨.native n serial, false⟩ := by
  induction ns generalizing s with
  | nil =>
    subst hs'
    exact ⟨rfl, fun _ => rfl, rfl, fun _ _ _ hb => .inl hb⟩
  | cons n ns ih =>
    obtain ⟨hsize, hparent, hobjects, hbinding⟩ := ih _ hs'
    refine ⟨hsize.trans (define_size ..), fun f => ?_, hobjects.trans rfl, fun f name b hb => ?_⟩
    · exact (hparent f).trans (define_parent? _ _ _ _ _ _)
    · rcases hbinding f name b hb with hb | hb
      · change (Store.define _ _ _ _ _).binding? f name = some b at hb
        rw [define_binding?] at hb
        split at hb
        next =>
          cases hb
          exact .inr ⟨n, _, rfl⟩
        next => exact .inl hb
      · exact .inr hb

/-- The store of a new session: its one frame binds native functions and nothing else, and there are
no objects. -/
structure Store.Bare (s : Store) : Prop where
  size : s.frames.size = 1
  parent : ∀ f, s.parent? f = none
  binding : ∀ f name b, s.binding? f name = some b → ∃ n serial, b = ⟨.native n serial, false⟩
  field : ∀ o name, s.field? o name = none

theorem Machine.start_bare (input : Input) (output : Output) (host : Host) :
    (Machine.start input output host).store.Bare := by
  let s := (Store.empty.newFrame none).2
  show (s.defineNatives 0).Bare
  obtain ⟨hsize, hparent, hobjects, hbinding⟩ :=
    Store.defineNatives_facts Native.all 0 s (s.defineNatives 0) rfl
  refine ⟨hsize, fun f => ?_, fun f name b hb => ?_, fun o name => ?_⟩
  · rw [hparent, Store.newFrame_parent?_eq]
    split <;> rfl
  · rcases hbinding f name b hb with hold | hnative
    · rw [Store.newFrame_binding?] at hold
      cases hold
    · exact hnative
  · unfold Store.field?
    rw [hobjects]
    rfl

namespace Chronicle

variable (input : Input) (output : Output) (host : Host)

/-- A new session is settled. -/
theorem start_settled : (start input output host).Settled := by
  have hbare := Machine.start_bare input output host
  refine ⟨⟨fun frame name b hb => ?_, fun o name v hv => ?_, fun _ _ _ h => (nomatch h), ?_,
    fun _ h => (nomatch h), fun _ h => (nomatch h)⟩, rfl, fun _ h => (nomatch h), fun i _ => ?_⟩
  · obtain ⟨n, serial, rfl⟩ := hbare.binding frame name b hb
    trivial
  · cases (hbare.field o name).symm.trans hv
  · exact .last (hbare.size ▸ Nat.one_pos) (hbare.parent 0)
  · exact Std.TreeMap.getElem?_emptyc

/-- What the contract of resolved runs grants to a watch, all moments of a session stand, and the
session is settled in the end. -/
theorem takeAll_watched {w : Watch} (hw : lexical.Grants w) (fuel : Nat) (steps : List Step) :
    (takeAll fuel steps (start input output host)).Watched w :=
  (watched_invariant hw).takeAll fuel steps _
    ⟨start_settled input output host, fun _ hev => nomatch hev⟩

/-- Sessions are settled between their steps. -/
theorem takeAll_settled (fuel : Nat) (steps : List Step) :
    (takeAll fuel steps (start input output host)).Settled :=
  (takeAll_watched input output host Contract.grants_nothing fuel steps).1

/-- All that happens in a session agrees with what resolving found. -/
theorem log_agrees (fuel : Nat) (steps : List Step) :
    ∀ ev ∈ (takeAll fuel steps (start input output host)).run.history.log, ev.Agrees :=
  (takeAll_settled input output host fuel steps).sound.log

/-- Resolving and running agree. Whenever a reference is used in a session, the frames around it are
those that were made for the scopes that were open when resolving came by it, its distance leads to
the frame of the scope in which its name was found, and the name is bound there unless the reference
stands in the declaration that introduces it. -/
theorem references_agree (fuel : Nat) (steps : List Step) :
    ∀ ev ∈ (takeAll fuel steps (start input output host)).run.history.log,
      ∀ e halt after, ev.occurrence = .step (.refers e) halt after →
        ∃ site name root w ps, Agreement ev e site name root w ps := by
  intro ev hev e halt after hstep
  have hagrees := log_agrees input output host fuel steps ev hev
  unfold Event.Agrees at hagrees
  rw [hstep] at hagrees
  exact hagrees.refers e rfl

/-- A function called on a later line finds the variable of the block around it. -/
theorem references_agree_escaped_closure :
    ∃ ev ∈ (takeAll 12 [.run "var g; { var a = nil; fun f() { a; } g = f; }", .run "g();"]
        (start ⟨[]⟩ {} ⟨fun _ => 0, fun _ => 0, 0, 0⟩)).run.history.log,
      ∃ site name halt after,
        ev.occurrence = .step (.refers (.variable site name)) halt after ∧
        ev.machine.table[site]? = some 1 ∧
        ∃ site' name' root w ps, Agreement ev (.variable site name) site' name' root w ps := by
  have hany : (takeAll 12 [.run "var g; { var a = nil; fun f() { a; } g = f; }", .run "g();"]
      (start ⟨[]⟩ {} ⟨fun _ => 0, fun _ => 0, 0, 0⟩)).run.history.log.any (fun ev =>
        ev.occurrence.refers?.any fun e => (Part.expression e).isVariable &&
          e.reference?.any fun target => ev.machine.table[target.1]? == some 1) = true := by
    decide +kernel
  obtain ⟨ev, hev, hreference⟩ := List.any_eq_true.mp hany
  obtain ⟨e, he, hvariable⟩ := (Option.any_eq_true _ _).mp hreference
  obtain ⟨halt, after, hstep⟩ := Occurrence.refers?_some he
  rw [Bool.and_eq_true] at hvariable
  cases e with
  | «variable» site name =>
    exact ⟨ev, hev, site, name, halt, after, hstep, eq_of_beq hvariable.2,
      references_agree ⟨[]⟩ {} ⟨fun _ => 0, fun _ => 0, 0, 0⟩ 12 _ ev hev _ halt after hstep⟩
  | _ => exact absurd hvariable.1 Bool.false_ne_true

end Chronicle

end Lox
