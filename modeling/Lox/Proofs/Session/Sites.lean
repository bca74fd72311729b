import Lox.Proofs.Session.History

/-!
# No two references share a site

Parses in a row give out different sites to all references of all trees, also to those of trees that
are left in part because of errors. Resolving finds distances for references of the tree alone. So
what a session learns for one tree never touches what it knows of another one: at every moment the
table holds for each reference what resolving found for its tree (`Chronicle.sites_apart`).
-/

namespace Lox

open Eval

/-! ## Parses in a row -/

/-- A parse of tokens, as a program or as an expression. -/
inductive Parse where
  | program (tokens : List Token)
  | expression (tokens : List Token)

namespace Parse

/-- The tree that the parse gives, if it gives one, where the sites from `first` on are still to be
given out. -/
def tree? (first : Site) : Parse → Option Root
  | .program tokens => some (.program (Program.parse tokens first).tree)
  | .expression tokens => (Expr.parse tokens first).tree.map .expression

/-- The first site not given out after the parse. -/
def nextSite (first : Site) : Parse → Site
  | .program tokens => (Program.parse tokens first).nextSite
  | .expression tokens => (Expr.parse tokens first).nextSite

/-- The trees that parses give one after the other. -/
def trees (first : Site) : List Parse → List Root
  | [] => []
  | parse :: parses => (parse.tree? first).toList ++ trees (parse.nextSite first) parses

/-- The first site not given out after the parses. -/
def lastSite (first : Site) : List Parse → Site
  | [] => first
  | parse :: parses => lastSite (parse.nextSite first) parses

theorem tree?_drawn (first : Site) (parse : Parse) :
    Drawn first (parse.nextSite first) ((parse.tree? first).toList.flatMap Root.sites) := by
  have hsingle : ∀ root : Root, (some root).toList.flatMap Root.sites = root.sites :=
    fun root => List.append_nil _
  cases parse with
  | program tokens =>
    unfold tree?
    rw [hsingle]
    exact Program.parse_drawn tokens first
  | expression tokens =>
    obtain ⟨hle, hdrawn⟩ := Expr.parse_drawn tokens first
    unfold tree?
    dsimp only
    cases htree : (Expr.parse tokens first).tree with
    | none => exact .nil hle
    | some e =>
      rw [Option.map_some, hsingle]
      exact hdrawn e htree

/-- Parses in a row give out sites from the first one on, none of them twice. -/
theorem trees_drawn (first : Site) (parses : List Parse) :
    Drawn first (lastSite first parses) ((trees first parses).flatMap Root.sites) := by
  induction parses generalizing first with
  | nil => exact .nil (Nat.le_refl first)
  | cons parse parses ih =>
    unfold trees
    rw [List.flatMap_append]
    exact (tree?_drawn first parse).append (ih _)

end Parse

/-! ## Distances -/

/-- The distance of a reference is that found for its tree. -/
theorem Eval.distance?_eq {roots : List Root} (h : (roots.flatMap Root.sites).Nodup) {root : Root}
    (hroot : root ∈ roots) {i : Site} (hi : i ∈ root.sites) :
    distance? roots i = root.table[i]? := by
  induction roots with
  | nil => cases hroot
  | cons first roots ih =>
    rw [List.flatMap_cons, List.nodup_append] at h
    obtain ⟨_, hrest, happart⟩ := h
    show List.findSome? _ (first :: roots) = _
    rw [List.findSome?_cons]
    -- either way the other trees do not have the site
    rcases List.mem_cons.mp hroot with rfl | hroot
    · have hnone : distance? roots i = none := distance?_none fun hmem => happart i hi i hmem rfl
      cases htable : root.table[i]? with
      | some d => rfl
      | none => exact hnone
    · have hnot : i ∉ first.sites := fun hmem =>
        happart i hmem i (List.mem_flatMap.mpr ⟨root, hroot, hi⟩) rfl
      rw [Root.table_none hnot]
      exact ih hrest hroot

/-- A site with a distance is one of the tree that the distance was found for. -/
theorem Eval.Root.mem_sites (root : Root) {i : Site} (hi : i ∈ root.table) : i ∈ root.sites := by
  by_contra hnot
  have hnone := Root.table_none hnot
  rw [Std.TreeMap.getElem?_eq_some_getElem hi] at hnone
  cases hnone

/-- A tree that a parse gives has only sites that were still to be given out. -/
theorem Parse.first_le {first : Site} {parse : Parse} {root : Root}
    (hroot : parse.tree? first = some root) {i : Site} (hi : i ∈ root.sites) : first ≤ i := by
  refine ((parse.tree?_drawn first).range i ?_).1
  rw [hroot]
  exact List.mem_flatMap.mpr ⟨root, List.mem_singleton_self root, hi⟩

namespace Chronicle

/-- The trees whose distances were learned have references with different sites, and the table tells
of each reference, now and at every moment of the past, what resolving found for its tree. Learning
overwrites nothing: not when these trees were resolved, nor when one is that is parsed next. -/
structure Apart (c : Chronicle) : Prop where
  once : (c.run.history.origins.roots.flatMap Root.sites).Nodup
  drawn : ∀ root ∈ c.run.history.origins.roots, ∀ i ∈ root.sites, i < c.nextSite
  known : ∀ i : Site, c.run.machine.table[i]? = distance? c.run.history.origins.roots i
  table : ∀ root ∈ c.run.history.origins.roots, ∀ i ∈ root.sites,
    c.run.machine.table[i]? = root.table[i]?
  log : ∀ ev ∈ c.run.history.log, ev.origins.roots <:+ c.run.history.origins.roots ∧
    (∀ i : Site, ev.machine.table[i]? = distance? ev.origins.roots i) ∧
      ∀ root ∈ ev.origins.roots, ∀ i ∈ root.sites, ev.machine.table[i]? = root.table[i]?
  fresh : ∀ later root earlier, c.run.history.origins.roots = later ++ root :: earlier →
    ∀ i ∈ root.table, distance? earlier i = none
  next : ∀ (parse : Parse) (root : Root), parse.tree? c.nextSite = some root →
    ∀ i ∈ root.table, c.run.machine.table[i]? = none

theorem Orderly.apart {P : Token → Prop} {c : Chronicle} (h : c.Orderly P) : c.Apart := by
  have honce := h.drawn.nodup
  refine ⟨honce, fun root hroot i hi => ?_, h.table, fun root hroot i hi => ?_, fun ev hev => ?_,
    fun later root earlier hroots i hi => ?_, fun parse root hroot i hi => ?_⟩
  · exact (h.drawn.range i (List.mem_flatMap.mpr ⟨root, hroot, hi⟩)).2
  · rw [h.table, distance?_eq honce hroot hi]
  · have hold := h.log ev hev
    obtain ⟨later, hroots⟩ := hold.roots
    refine ⟨hold.roots, hold.table, fun root hroot i hi => ?_⟩
    rw [← hroots, List.flatMap_append, List.nodup_append] at honce
    rw [hold.table, distance?_eq honce.2.1 hroot hi]
  · rw [hroots, List.flatMap_append, List.nodup_append] at honce
    obtain ⟨_, honce, _⟩ := honce
    rw [List.flatMap_cons, List.nodup_append] at honce
    obtain ⟨_, _, happart⟩ := honce
    exact distance?_none fun hmem => happart i (root.mem_sites hi) i hmem rfl
  · exact Run.Orderly.unknown h (Parse.first_le hroot (root.mem_sites hi))

/-- Sites never collide. References of all trees that parses in a row give have different sites, and
resolving a tree finds distances only for sites of that tree. So in a session what is learned for
one tree does not touch what is known of the trees before, and whatever is done afterwards, run,
rejected or failed, the distances of all references so far stay as they are. -/
theorem sites_apart (first : Site) (parses : List Parse) (input : Input) (output : Output)
    (host : Host) (deeds deeds' : Deeds) :
    ((Parse.trees first parses).flatMap Root.sites).Nodup ∧
    (∀ ss : List Stmt, ∀ i ∈ (Resolution.ofProgram ss).table,
      i ∈ sitesOf (Stmt.referencesAll ss)) ∧
    (∀ e : Expr, ∀ i ∈ (Resolution.ofExpr e).table, i ∈ sitesOf e.references) ∧
    let c := performAll deeds (start input output host)
    let c' := performAll deeds' c
    c.Apart ∧ c'.Apart ∧
      c.run.history.origins.roots <:+ c'.run.history.origins.roots ∧ c.nextSite ≤ c'.nextSite ∧
      (∀ i : Site, i ∈ c.run.machine.table → i < c.nextSite) ∧
      (∀ i < c.nextSite, c'.run.machine.table[i]? = c.run.machine.table[i]?) ∧
      ∃ evs, c'.run.history.log = c.run.history.log ++ evs ∧
        ∀ ev ∈ evs, ∀ i < c.nextSite, ev.machine.table[i]? = c.run.machine.table[i]? := by
  refine ⟨(Parse.trees_drawn first parses).nodup, fun ss i hi => ?_, fun e i hi => ?_, ?_⟩
  · exact (Root.program ss).mem_sites hi
  · exact (Root.expression e).mem_sites hi
  intro c c'
  have hc : c.Orderly fun _ => True :=
    (performAll_later deeds (start_orderly _ input output host) fun _ _ _ _ => trivial).orderly
  have hc' : c.Later (fun _ => True) c' := performAll_later deeds' hc fun _ _ _ _ => trivial
  refine ⟨hc.apart, hc'.orderly.apart, hc'.roots, hc'.sites, fun i hi => ?_, hc'.known, hc'.added⟩
  -- a site that is not drawn yet is not in the table
  by_contra hle
  have hnone := Run.Orderly.unknown hc (Nat.not_lt.mp hle)
  rw [Std.TreeMap.getElem?_eq_some_getElem hi] at hnone
  cases hnone

end Chronicle

end Lox
