import Lox.Proofs.Run.Constants
import Lox.Proofs.Twin.Sessions

/-!
# Superclass clauses

Resolving declares the name of a class before it comes to the superclass clause, and running
evaluates the clause before it declares the name. Where the clause has another name than the class,
at the top level, and where the scope of the class declares the name already, this makes no
difference: the clause means what the name means just before the class. A class in a local scope
that names itself as its superclass gets only what its own frame binds already, and not the class of
that name around it (`Session.clause_means`).
-/

namespace Lox

open Walk

/-! ## The distance of a superclass clause -/

/-- Where the superclass clause of a class begins, the name of the class is found in the innermost
scope, and other names are found where they were before. -/
theorem ClassDecl.clauseStart_distance? (d : ClassDecl) (w : Walk) (name : String) :
    (d.clauseStart w).distance? name =
      if name = d.name.lexeme ∧ w.scopes ≠ [] then some 0 else w.distance? name := by
  have hadds := d.clauseStart_adds w
  unfold distance?
  generalize w.scopes = scopes, (d.clauseStart w).scopes = scopes' at hadds
  cases hadds with
  | global => exact (if_neg fun h => h.2 rfl).symm
  | @inner scope scope' outer hcontains =>
    have hscope := hcontains name
    by_cases hname : name = d.name.lexeme
    · rw [if_pos ⟨hname, List.cons_ne_nil _ _⟩, List.findIdx?_cons,
        if_pos (hscope.mpr (.inr (by simp [hname])))]
    · have hsame : scope'.contains name = scope.contains name := by
        rw [Bool.eq_iff_iff, hscope]
        exact or_iff_left (by simp [hname])
      rw [if_neg fun h => hname h.1, List.findIdx?_cons, List.findIdx?_cons, hsame]

variable {T : Table} {root : Part} {w : Walk} {ps : List Place}

/-- The distance of a superclass clause, against the one of the name just before the class. -/
theorem Visits.clause_distance (hroot : Accepted T root) {j : Site} {name : Token} {d : ClassDecl}
    (h : Visits root w ps (.statement (.classDecl d)))
    (hclause : d.superclass = some (.variable j name)) :
    T[j]? = if name.lexeme = d.name.lexeme ∧ ps ≠ [] then some 0
      else w.distance? name.lexeme := by
  have hempty : w.scopes ≠ [] ↔ ps ≠ [] := by
    rw [← List.length_pos_iff, ← List.length_pos_iff, (h.placed hroot).places.length_eq]
  rw [(h.clause hclause).known hroot rfl, ClassDecl.clauseStart_distance?]
  simp only [hempty]

/-- A name evaluated as a statement right before another one has the distance that the walk finds
for the name where the other one begins. -/
theorem Visits.before_distance (hroot : Accepted T root) {i : Site} {before : Token} {s : Stmt}
    {rest : List Stmt}
    (h : Visits root w ps (.statements (.expression (.variable i before) :: s :: rest))) :
    ∃ w', Visits root w' ps (.statement s) ∧ T[i]? = w'.distance? before.lexeme := by
  have hscopes : ((Stmt.expression (.variable i before)).walk w).scopes = w.scopes :=
    (Expr.walk_through (.variable i before) w).scopes
  refine ⟨_, h.nextStatements.firstStatement, ?_⟩
  rw [h.firstStatement.expressionValue.known hroot rfl, distance?, distance?, hscopes]

/-! ## Running -/

namespace Eval

/-- What is left to do of a class when the value of its superclass clause is known. -/
def declareUnder (d : ClassDecl) (clause : Expr) (value : Value) : Exec Flow := do
  let superclass ← superclassOf d clause value
  declareClass d (some superclass)
  return .normal

theorem evaluate_variable (fuel : Nat) (i : Site) (name : Token) (m : Machine) :
    evaluate (fuel + 1) (.variable i name) m =
      match m.lookUp i name.lexeme with
      | some value => .ok value m
      | none => .error (.fault ⟨name, .undefinedVariable⟩) m := by
  show (Exec.lookUp i name) m = _
  show (match m.lookUp i name.lexeme with
    | some value => (pure value : Exec Value)
    | none => Exec.fail name .undefinedVariable) m = _
  cases m.lookUp i name.lexeme <;> rfl

/-- A class is declared under what its superclass clause looks up. -/
theorem execute_class (fuel : Nat) {d : ClassDecl} {j : Site} {name : Token}
    (hclause : d.superclass = some (.variable j name)) (m : Machine) :
    execute (fuel + 3) (.classDecl d) m =
      match m.lookUp j name.lexeme with
      | some value => declareUnder d (.variable j name) value m
      | none => .error (.fault ⟨name, .undefinedVariable⟩) m := by
  have hsuperclass : superclassClause (fuel + 2) d =
      (evaluate (fuel + 1) (.variable j name) >>= fun value =>
        some <$> superclassOf d (.variable j name) value) := by
    unfold superclassClause
    rw [hclause]
    rfl
  have hexecute : execute (fuel + 3) (.classDecl d) =
      evaluate (fuel + 1) (.variable j name) >>= declareUnder d (.variable j name) := by
    show (superclassClause (fuel + 2) d >>= fun superclass => do
      declareClass d superclass
      return .normal : Exec Flow) = _
    rw [hsuperclass]
    simp only [bind_assoc, bind_map_left]
    rfl
  rw [hexecute]
  have hvalue := evaluate_variable fuel j name m
  cases hlook : m.lookUp j name.lexeme with
  | some value =>
    rw [hlook] at hvalue
    exact ok_bind hvalue
  | none =>
    rw [hlook] at hvalue
    exact error_bind hvalue

end Eval

/-! ## Clauses in sessions -/

/-- A lookup in the current frame alone. -/
theorem Machine.lookUp_zero {m : Machine} {site : Site} (h : m.table[site]? = some 0)
    (name : String) :
    m.lookUp site name = (m.store.binding? m.current name).map Binding.value := by
  unfold lookUp
  rw [h]
  show ((if m.current < m.store.frames.size then some m.current else none).bind fun f =>
    (m.store.binding? f name).map Binding.value) = _
  split
  next => rfl
  next hout => rw [Store.binding?_of_size_le (Nat.le_of_not_lt hout)]; rfl

namespace Session

open Eval

/-- The text, with its references numbered from `nextSite` on, is this program, and no error is met
in it before running. -/
structure Accepts (source : String) (nextSite : Site) (program : List Stmt) : Prop where
  tree : (Program.parse (scanTokens source) nextSite).tree = program
  parsed : (Program.parse (scanTokens source) nextSite).errors = []
  resolved : (Resolution.ofProgram program).errors = []

theorem Accepts.accepted {source : String} {nextSite : Site} {program : List Stmt}
    (h : Accepts source nextSite program) :
    Accepted (Resolution.ofProgram program).table (.statements program) := by
  obtain ⟨rfl, hparsed, hresolved⟩ := h
  exact .of_parse (fun t ht => scanTokens_spelled ht) hparsed hresolved

/-- What a superclass clause means. In a program that is accepted, let the name of the clause of a
class be evaluated right before the class, as a reference with the distance that resolving finds for
the name there. At the top level, where the clause has another name than the class, and where the
innermost scope declares the name already, this leaves the machine as it is, and the class is
declared under the value that it gives; if it fails, then the class fails with the same error at the
name in the clause. In every case a class in a local scope that names itself gets only what the
current frame binds, and fails if that is nothing. -/
theorem clause_means {source : String} {nextSite : Site} {program : List Stmt}
    (haccepts : Accepts source nextSite program) {w : Walk} {ps : List Place} {d : ClassDecl}
    (hvisits : Visits (.statements program) w ps (.statement (.classDecl d))) {j : Site}
    {name : Token} (hclause : d.superclass = some (.variable j name)) {m : Machine}
    (hknown : m.table[j]? = (Resolution.ofProgram program).table[j]?) {i : Site} {before : Token}
    (hbefore : m.table[i]? = w.distance? name.lexeme) (hname : before.lexeme = name.lexeme)
    (fuel : Nat) :
    (name.lexeme ≠ d.name.lexeme ∨ ps = [] ∨ m.table[i]? = some 0 →
      match Eval.evaluate (fuel + 1) (.variable i before) m with
      | .ok value m' =>
        m' = m ∧
          Eval.execute (fuel + 3) (.classDecl d) m = declareUnder d (.variable j name) value m
      | .error e m' =>
        m' = m ∧ e = .fault ⟨before, .undefinedVariable⟩ ∧
          Eval.execute (fuel + 3) (.classDecl d) m = .error (.fault ⟨name, .undefinedVariable⟩) m) ∧
    (name.lexeme = d.name.lexeme → ps ≠ [] →
      Eval.execute (fuel + 3) (.classDecl d) m =
        match m.store.binding? m.current name.lexeme with
        | some b => declareUnder d (.variable j name) b.value m
        | none => .error (.fault ⟨name, .undefinedVariable⟩) m) := by
  have hj : m.table[j]? =
      if name.lexeme = d.name.lexeme ∧ ps ≠ [] then some 0 else m.table[i]? := by
    rw [hknown, hbefore, hvisits.clause_distance haccepts.accepted hclause]
  rw [execute_class fuel hclause, evaluate_variable]
  refine ⟨fun hsame => ?_, fun hself hlocal => ?_⟩
  -- the two references have one distance, so both find the same value
  · have htable : m.table[j]? = m.table[i]? := by
      rw [hj]
      split
      next h => exact ((hsame.resolve_left (not_not_intro h.1)).resolve_left h.2).symm
      next => rfl
    have hlook : m.lookUp j name.lexeme = m.lookUp i before.lexeme := by
      unfold Machine.lookUp
      rw [htable, hname]
    rw [hlook]
    cases m.lookUp i before.lexeme with
    | some value => exact ⟨rfl, rfl⟩
    | none => exact ⟨rfl, rfl, rfl⟩
  -- the class has declared the name for the clause, but has bound nothing to it yet
  · have hzero : m.table[j]? = some 0 := by rw [hj, if_pos ⟨hself, hlocal⟩]
    rw [Machine.lookUp_zero hzero]
    cases m.store.binding? m.current name.lexeme <;> rfl

/-- A block of three statements, where the second one evaluates a name and the third one declares a
class: the name with its site, and the class with the site and the name in its superclass clause. -/
def clauseAfterName? : List Stmt → Option (Site × Token × ClassDecl × Site × Token)
  | [.block [_, .expression (.variable i before), .classDecl d]] =>
    match d.superclass with
    | some (.variable j name) => some (i, before, d, j, name)
    | _ => none
  | _ => none

theorem clauseAfterName?_some {program : List Stmt} {i j : Site} {before name : Token}
    {d : ClassDecl} (h : clauseAfterName? program = some (i, before, d, j, name)) :
    d.superclass = some (.variable j name) ∧
      ∃ first, program = [.block [first, .expression (.variable i before), .classDecl d]] := by
  unfold clauseAfterName? at h
  split at h
  next first _ _ _ =>
    split at h
    next hclause =>
      cases h
      exact ⟨hclause, first, rfl⟩
    next => cases h
  next => cases h

/-- A class in a block under another class of the block, on a machine whose current frame binds the
name of that class. -/
theorem clause_means_sibling :
    ∃ s program i before value j name d,
      (start ⟨[]⟩ {} ⟨fun _ => 0, fun _ => 0, 0, 0⟩).run 10 "class A \x7b\x7d" = some ([], s) ∧
      Accepts "\x7b class A \x7b\x7d A; class B < A \x7b\x7d \x7d" s.nextSite program ∧
      d.superclass = some (.variable j name) ∧ name.lexeme ≠ d.name.lexeme ∧
      let m := s.machine.learn (Resolution.ofProgram program).table
      Eval.evaluate 1 (.variable i before) m = .ok value m ∧
        Eval.execute 3 (.classDecl d) m = declareUnder d (.variable j name) value m := by
  have hparsed : (Program.parse (scanTokens
      "\x7b class A \x7b\x7d A; class B < A \x7b\x7d \x7d") 0).errors = [] := by decide +kernel
  have hresolved : (Resolution.ofProgram (Program.parse (scanTokens
      "\x7b class A \x7b\x7d A; class B < A \x7b\x7d \x7d") 0).tree).errors = [] := by
    decide +kernel
  have hruns : ((start ⟨[]⟩ {} ⟨fun _ => 0, fun _ => 0, 0, 0⟩).run 10 "class A \x7b\x7d").any
      (fun r => r.1.isEmpty && r.2.nextSite == 0 && r.2.machine.table.isEmpty &&
        (clauseAfterName? (Program.parse (scanTokens
          "\x7b class A \x7b\x7d A; class B < A \x7b\x7d \x7d") 0).tree).any fun c =>
        c.2.1.lexeme == c.2.2.2.2.lexeme && c.2.2.2.2.lexeme != c.2.2.1.name.lexeme &&
          ((r.2.machine.learn (Resolution.ofProgram (Program.parse (scanTokens
            "\x7b class A \x7b\x7d A; class B < A \x7b\x7d \x7d") 0).tree).table).lookUp
              c.1 c.2.1.lexeme).isSome) = true := by
    decide +kernel
  -- the tree is kept as a variable from here on, so that nothing evaluates it again
  generalize htree : (Program.parse (scanTokens
    "\x7b class A \x7b\x7d A; class B < A \x7b\x7d \x7d") 0).tree = program at hresolved hruns
  obtain ⟨⟨errors, s⟩, hrun, hruns⟩ := (Option.any_eq_true _ _).mp hruns
  simp only [Bool.and_eq_true, beq_iff_eq, List.isEmpty_iff] at hruns
  obtain ⟨⟨⟨rfl, hzero⟩, hempty⟩, hclause⟩ := hruns
  obtain ⟨⟨i, before, d, j, name⟩, hclause, hnames⟩ := (Option.any_eq_true _ _).mp hclause
  simp only [Bool.and_eq_true, beq_iff_eq, bne_iff_ne] at hnames
  obtain ⟨⟨hsame, hother⟩, hvalue⟩ := hnames
  obtain ⟨value, hvalue⟩ := Option.isSome_iff_exists.mp hvalue
  obtain ⟨hsuperclass, first, rfl⟩ := clauseAfterName?_some hclause
  have haccepts : Accepts "\x7b class A \x7b\x7d A; class B < A \x7b\x7d \x7d" s.nextSite _ :=
    ⟨hzero ▸ htree, hzero ▸ hparsed, hresolved⟩
  obtain ⟨w, hvisits, hdistance⟩ := Visits.before_distance haccepts.accepted
    (.nextStatements (.block (.firstStatement .root)))
  have hknown (T : Table) (k : Site) : (s.machine.learn T).table[k]? = T[k]? := by
    rw [Machine.learn_table, Std.TreeMap.getElem?_of_isEmpty hempty, Option.or_none]
  have hmeans := (clause_means haccepts hvisits hsuperclass (hknown _ j)
    ((hknown _ i).trans (hsame ▸ hdistance)) hsame 0).1 (.inl hother)
  rw [evaluate_variable, hvalue] at hmeans
  refine ⟨s, _, i, before, value, j, name, d, hrun, haccepts, hsuperclass, hother, ?_, hmeans.2⟩
  rw [evaluate_variable, hvalue]

/-- A class in a block that names itself as its superclass. The name stands for a class of the block
around, as the statement before shows, but the clause on the second line does not find it. The same
works at the top level. -/
theorem clause_means_shadowed :
    let s := start ⟨[]⟩ {} ⟨fun _ => 0, fun _ => 0, 0, 0⟩
    (s.run 10 "\x7b class A \x7b\x7d \x7b A;\nclass A < A \x7b\x7d \x7d \x7d").map Prod.fst =
        some [.runtime ⟨⟨.identifier, "A", 2⟩, .undefinedVariable⟩] ∧
      (s.run 10 "class A \x7b\x7d A;\nclass A < A \x7b\x7d").map Prod.fst = some [] := by
  decide +kernel

end Session

end Lox
