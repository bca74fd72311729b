import Lox.Proofs.Grammar.Sites
import Lox.Proofs.Scope.Records

/-!
# Lexical addressing

Resolving finds for every reference the scope that its name belongs to by the text alone, and says
how many scopes lie inside it (`Resolution.table_lexical`). It reports the rules of scope that the
points of a program break, each once and in the order of the walk, and nothing else
(`Resolution.errors_violations`).
-/

namespace Lox

open Walk

/-! ## The references of a program are those of its points -/

section References

open List (Perm)

/-- The references at points. -/
def Point.references (points : List Point) : List Reference :=
  points.filterMap Point.reference?

/-- The references at points in two rows. -/
theorem Point.references_append (points more : List Point) :
    references (points ++ more) = references points ++ references more :=
  List.filterMap_append

/-- Points in two rows have the references of both parts, in any order. -/
theorem Point.references_perm {points more : List Point} {rs rs' : List Reference}
    (h : (references points).Perm rs) (h' : (references more).Perm rs') :
    (references (points ++ more)).Perm (rs ++ rs') :=
  references_append points more ▸ h.append h'

open Point (references references_perm)

mutual

/-- The points of an expression are for its own references, each once. -/
theorem Expr.points_references : ∀ (e : Expr) (s : Setting),
    (references (e.points s)).Perm e.references
  | .literal _, _ => .nil
  | .variable _ _, _ => .refl _
  | .assign site name value, s => by
    have htarget : (references [⟨s, .refers ⟨.assignment, name, site⟩⟩]).Perm
        [⟨.assignment, name, site⟩] := .refl _
    exact (references_perm (value.points_references s) htarget).trans List.perm_append_comm
  | .receiver _ _, _ => .refl _
  | .inherited _ _ _, _ => .refl _
  | .group inner, s => inner.points_references s
  | .unary _ operand, s => operand.points_references s
  | .binary left _ right, s =>
    references_perm (left.points_references s) (right.points_references s)
  | .logical left _ right, s =>
    references_perm (left.points_references s) (right.points_references s)
  | .conditional condition whenTrue whenFalse, s =>
    references_perm
      (references_perm (condition.points_references s) (whenTrue.points_references s))
      (whenFalse.points_references s)
  | .call callee _ arguments, s =>
    references_perm (callee.points_references s) (Expr.pointsAll_references arguments s)
  | .get object _, s => object.points_references s
  | .set object _ value, s =>
    references_perm (object.points_references s) (value.points_references s)
  | .function declaration, s => declaration.points_references .function s

theorem Expr.pointsAll_references : ∀ (es : List Expr) (s : Setting),
    (references (Expr.pointsAll es s)).Perm (Expr.referencesAll es)
  | [], _ => .nil
  | e :: es, s => references_perm (e.points_references s) (Expr.pointsAll_references es s)

theorem Expr.pointsOption_references : ∀ (e : Option Expr) (s : Setting),
    (references (Expr.pointsOption e s)).Perm (Expr.referencesOption e)
  | none, _ => .nil
  | some e, s => e.points_references s

/-- The points of a statement are for its own references, each once. -/
theorem Stmt.points_references : ∀ (st : Stmt) (s : Setting),
    (references (st.points s)).Perm st.references
  | .block body, _ => Stmt.pointsAll_references body _
  | .breakLoop _, _ => .nil
  | .continueLoop _, _ => .nil
  | .classDecl declaration, _ => declaration.points_references _
  | .empty, _ => .nil
  | .expression value, s => value.points_references s
  | .functionDecl declaration, _ => declaration.points_references .function _
  | .conditional condition whenTrue whenFalse, s =>
    references_perm
      (references_perm (condition.points_references s) (whenTrue.points_references s))
      (Stmt.pointsOption_references whenFalse _)
  | .input _ target, s => target.points_references s
  | .print _ value, s => value.points_references s
  | .returnValue _ value, s => Expr.pointsOption_references value s
  | .constant _ value, _ => value.points_references _
  | .var _ value, _ => Expr.pointsOption_references value _
  | .loop condition body increment, s =>
    references_perm
      (references_perm (condition.points_references s) (body.points_references _))
      (Expr.pointsOption_references increment _)

/-- The points of statements in a row are for their own references, each once. -/
theorem Stmt.pointsAll_references : ∀ (sts : List Stmt) (s : Setting),
    (references (Stmt.pointsAll sts s)).Perm (Stmt.referencesAll sts)
  | [], _ => .nil
  | st :: sts, s => references_perm (st.points_references s) (Stmt.pointsAll_references sts _)

theorem Stmt.pointsOption_references : ∀ (st : Option Stmt) (s : Setting),
    (references (Stmt.pointsOption st s)).Perm (Stmt.referencesOption st)
  | none, _ => .nil
  | some st, s => st.points_references s

/-- The points of a function are for its own references, each once. -/
theorem FunctionDecl.points_references : ∀ (d : FunctionDecl) (role : FunctionContext)
    (s : Setting), (references (d.points role s)).Perm d.references
  | ⟨_, _, _, body⟩, _, _ => Stmt.pointsAll_references body _

/-- The points of methods are for their own references, each once. -/
theorem FunctionDecl.pointsMethods_references : ∀ (ds : List FunctionDecl) (s : Setting),
    (references (FunctionDecl.pointsMethods ds s)).Perm (FunctionDecl.referencesAll ds)
  | [], _ => .nil
  | d :: ds, s =>
    references_perm (d.points_references _ _) (FunctionDecl.pointsMethods_references ds s)

theorem FunctionDecl.pointsMembers_references : ∀ (ds : List FunctionDecl)
    (role : FunctionContext) (inClassMethod : Bool) (s : Setting),
    (references (FunctionDecl.pointsMembers ds role inClassMethod s)).Perm
      (FunctionDecl.referencesAll ds)
  | [], _, _, _ => .nil
  | d :: ds, role, inClassMethod, s =>
    references_perm (d.points_references role _)
      (FunctionDecl.pointsMembers_references ds role inClassMethod s)

/-- The points of a class are for its own references, each once. -/
theorem ClassDecl.points_references : ∀ (d : ClassDecl) (s : Setting),
    (references (d.points s)).Perm d.references
  | ⟨_, superclass, methods, classMethods, getters, setters⟩, _ =>
    references_perm
      (references_perm
        (references_perm
          (references_perm (Expr.pointsOption_references superclass _)
            (FunctionDecl.pointsMethods_references methods _))
          (FunctionDecl.pointsMembers_references getters .method false _))
        (FunctionDecl.pointsMembers_references setters .method false _))
      (FunctionDecl.pointsMembers_references classMethods .classMethod true _)

end

end References

/-! ## Distances -/

/-- The name belongs to the scope that has `d` others inside it: it is the innermost one that
declares the name. -/
def Setting.Addresses (s : Setting) (name : String) (d : Nat) : Prop :=
  ∃ inner names outer, s.scopes = inner ++ names :: outer ∧ inner.length = d ∧ name ∈ names ∧
    ∀ closer ∈ inner, name ∉ closer

namespace Setting

variable {s : Setting} {name : String} {d : Nat}

/-- A distance that is counted leads to the scope that the name belongs to. -/
theorem addresses_of_distance? (h : s.distance? name = some d) : s.Addresses name d := by
  obtain ⟨hd, hname, hcloser⟩ := List.findIdx?_eq_some_iff_getElem.mp h
  refine ⟨s.scopes.take d, s.scopes[d], s.scopes.drop (d + 1), ?_, ?_, ?_, ?_⟩
  · rw [← List.drop_eq_getElem_cons hd, List.take_append_drop]
  · exact List.length_take_of_le (Nat.le_of_lt hd)
  · exact of_decide_eq_true hname
  · intro closer hmem
    obtain ⟨i, hi, rfl⟩ := List.getElem_of_mem hmem
    rw [List.getElem_take]
    have hid : i < d := Nat.lt_of_lt_of_le hi (List.length_take_le d _)
    simpa using hcloser i hid

/-- A name has a distance if some scope around declares it. -/
theorem distance?_exists :
    (∃ d, s.distance? name = some d) ↔ ∃ names ∈ s.scopes, name ∈ names := by
  rw [← Option.isSome_iff_exists, distance?, List.findIdx?_isSome, List.any_eq_true]
  simp

end Setting

/-- The entry of a reference is its site with its distance, if the name has one. -/
theorem Point.address?_of_reference {p : Point} {r : Reference} (h : p.reference? = some r) :
    p.address? = (p.setting.distance? r.token.lexeme).map fun d => (r.site, d) := by
  rw [address?, h]
  rfl

namespace Table

variable {points : List Point} {p : Point} {r : Reference}

/-- Entering what a point is for gives its reference the distance found, and touches no other
site. -/
theorem enter_point (t : Table) (hr : p.reference? = some r) (i : Site) :
    (t.enter p.address?.toList)[i]? =
      if r.site = i then (p.setting.distance? r.token.lexeme).or t[i]? else t[i]? := by
  rw [Point.address?_of_reference hr]
  cases p.setting.distance? r.token.lexeme with
  | none => simp [enter]
  | some d =>
    show (t.insert r.site d)[i]? = _
    rw [Std.TreeMap.getElem?_insert]
    simp

/-- Entries are made in the order of points. -/
theorem enter_cons (t : Table) (p : Point) (points : List Point) :
    t.enter ((p :: points).filterMap Point.address?) =
      (t.enter p.address?.toList).enter (points.filterMap Point.address?) := by
  cases h : p.address? with
  | none =>
    rw [List.filterMap_cons_none h]
    rfl
  | some entry =>
    rw [List.filterMap_cons_some h]
    rfl

/-- Entering what points are for touches no site of another reference. -/
theorem enter_absent (t : Table) {i : Site} (h : i ∉ sitesOf (Point.references points)) :
    (t.enter (points.filterMap Point.address?))[i]? = t[i]? := by
  induction points generalizing t with
  | nil => rfl
  | cons p points ih =>
    rw [enter_cons]
    cases hr : p.reference? with
    | none =>
      rw [Point.references, List.filterMap_cons_none hr] at h
      rw [Point.address?, hr]
      exact ih t h
    | some r =>
      rw [Point.references, List.filterMap_cons_some hr, sitesOf, List.map_cons,
        List.mem_cons, not_or] at h
      rw [ih _ h.2, enter_point t hr, if_neg (Ne.symm h.1)]

/-- Where no two references share a site, each gets the distance that was found for it. -/
theorem enter_present {t : Table} (hnodup : (sitesOf (Point.references points)).Nodup)
    (hp : p ∈ points) (hr : p.reference? = some r) (ht : t[r.site]? = none) :
    (t.enter (points.filterMap Point.address?))[r.site]? = p.setting.distance? r.token.lexeme := by
  induction points generalizing t with
  | nil => cases hp
  | cons q points ih =>
    rw [enter_cons]
    cases hq : q.reference? with
    | none =>
      rw [Point.references, List.filterMap_cons_none hq] at hnodup
      have hne : p ≠ q := by
        rintro rfl
        rw [hq] at hr
        cases hr
      rw [Point.address?, hq]
      exact ih hnodup (List.mem_of_ne_of_mem hne hp) ht
    | some r' =>
      rw [Point.references, List.filterMap_cons_some hq, sitesOf, List.map_cons,
        List.nodup_cons] at hnodup
      rcases List.mem_cons.mp hp with rfl | hp
      -- nothing after the point enters its site again
      · cases hr.symm.trans hq
        rw [enter_absent _ hnodup.1, enter_point t hr, if_pos rfl, ht, Option.or_none]
      -- the site is still free when the other points come
      · refine ih hnodup.2 hp ?_
        have hmem : r.site ∈ sitesOf (Point.references points) :=
          List.mem_map_of_mem (List.mem_filterMap.mpr ⟨p, hp, hr⟩)
        have hne : r'.site ≠ r.site := fun he => hnodup.1 (he ▸ hmem)
        rw [enter_point t hq, if_neg hne, ht]

end Table

/-! ## Resolving -/

/-- Resolving a program records what its points say. -/
theorem Resolution.records (statements : List Stmt) :
    Records (Program.points statements) .start (Stmt.walkAll statements .start) :=
  Stmt.walkAll_records statements (fun _ => rfl) .start

/-- The table of a parsed program is its lexical addressing. Just the references at its points can
have an entry. One has an entry if and only if a scope around it declares its name there, and then
the entry is the number of scopes inside the innermost such scope. The top level is not among the
scopes, so what is declared there gives no entry. -/
theorem Resolution.table_lexical (tokens : List Token) (nextSite : Site) :
    let tree := (Program.parse tokens nextSite).tree
    let table := (Resolution.ofProgram tree).table
    (Point.references (Program.points tree)).Perm (Stmt.referencesAll tree) ∧
      (∀ p ∈ Program.points tree, ∀ r, p.reference? = some r →
        ((∃ d, table[r.site]? = some d) ↔ ∃ names ∈ p.setting.scopes, r.token.lexeme ∈ names) ∧
        ∀ d, table[r.site]? = some d → p.setting.Addresses r.token.lexeme d) ∧
      ∀ i d, table[i]? = some d → ∃ p ∈ Program.points tree, ∃ r, p.reference? = some r ∧
        r.site = i := by
  intro tree table
  have hreferences := Stmt.pointsAll_references tree []
  -- the parser draws every site anew, so no reference overwrites the entry of another one
  have hnodup : (sitesOf (Point.references (Program.points tree))).Nodup :=
    (hreferences.map Reference.site).nodup_iff.mpr (Program.parse_drawn tokens nextSite).nodup
  have htable : table = Table.enter ((Program.points tree).filterMap Point.address?) ∅ :=
    (Resolution.records tree).table
  refine ⟨hreferences, fun p hp r hr => ?_, fun i d hd => ?_⟩
  · have hfound : table[r.site]? = p.setting.distance? r.token.lexeme := by
      rw [htable]
      exact Table.enter_present hnodup hp hr (by simp)
    rw [hfound]
    exact ⟨Setting.distance?_exists, fun d => Setting.addresses_of_distance?⟩
  · by_contra hnone
    have habsent : i ∉ sitesOf (Point.references (Program.points tree)) := by
      intro hi
      obtain ⟨r, hr, hsite⟩ := List.mem_map.mp hi
      obtain ⟨p, hp, hpr⟩ := List.mem_filterMap.mp hr
      exact hnone ⟨p, hp, r, hpr, hsite⟩
    rw [htable, Table.enter_absent _ habsent] at hd
    simp at hd

/-- The errors of resolving are the rules that the points of the program break, in the order of the
walk and one for each point that breaks one. -/
theorem Resolution.errors_violations (statements : List Stmt) :
    (Resolution.ofProgram statements).errors =
        (Program.points statements).filterMap Point.violation? ∧
      ((Resolution.ofProgram statements).errors = [] ↔
        ∀ p ∈ Program.points statements, p.violation? = none) := by
  have herrors : (Resolution.ofProgram statements).errors =
      (Program.points statements).filterMap Point.violation? :=
    (Resolution.records statements).errors
  refine ⟨herrors, ?_⟩
  rw [herrors, List.filterMap_eq_nil_iff]

end Lox
