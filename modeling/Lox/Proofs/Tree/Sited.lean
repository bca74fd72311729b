import Lox.Proofs.Tree.Shifted
import Lox.Proofs.Tree.Unsited
import Lox.Tree.References

/-!
# Sites put into a tree

A tree is what it is up to sites, and its sites in the order of its references. `sited` puts sites
into a tree, one for each reference from a list, and says which are left. So trees that agree up to
sites have as many references, and one of them is the other with its sites put elsewhere
(`Stmt.resited`).
-/

namespace Lox

mutual

/-- The expression with the sites of the list for its references, and the sites left. -/
def Expr.sited : Expr → List Site → Expr × List Site
  | .literal value, sites => (.literal value, sites)
  | .variable _ name, sites => (.variable (sites.headD 0) name, sites.tail)
  | .assign _ name value, sites =>
    let value := value.sited sites.tail
    (.assign (sites.headD 0) name value.1, value.2)
  | .receiver _ keyword, sites => (.receiver (sites.headD 0) keyword, sites.tail)
  | .inherited _ keyword method, sites => (.inherited (sites.headD 0) keyword method, sites.tail)
  | .group inner, sites =>
    let inner := inner.sited sites
    (.group inner.1, inner.2)
  | .unary operator operand, sites =>
    let operand := operand.sited sites
    (.unary operator operand.1, operand.2)
  | .binary left operator right, sites =>
    let left := left.sited sites
    let right := right.sited left.2
    (.binary left.1 operator right.1, right.2)
  | .logical left operator right, sites =>
    let left := left.sited sites
    let right := right.sited left.2
    (.logical left.1 operator right.1, right.2)
  | .conditional condition whenTrue whenFalse, sites =>
    let condition := condition.sited sites
    let whenTrue := whenTrue.sited condition.2
    let whenFalse := whenFalse.sited whenTrue.2
    (.conditional condition.1 whenTrue.1 whenFalse.1, whenFalse.2)
  | .call callee paren arguments, sites =>
    let callee := callee.sited sites
    let arguments := Expr.sitedAll arguments callee.2
    (.call callee.1 paren arguments.1, arguments.2)
  | .get object name, sites =>
    let object := object.sited sites
    (.get object.1 name, object.2)
  | .set object name value, sites =>
    let object := object.sited sites
    let value := value.sited object.2
    (.set object.1 name value.1, value.2)
  | .function declaration, sites =>
    let declaration := declaration.sited sites
    (.function declaration.1, declaration.2)

/-- Expressions in a row with the sites of the list, and the sites left. -/
def Expr.sitedAll : List Expr → List Site → List Expr × List Site
  | [], sites => ([], sites)
  | e :: es, sites =>
    let e := e.sited sites
    let es := Expr.sitedAll es e.2
    (e.1 :: es.1, es.2)

/-- An expression that may be absent with the sites of the list, and the sites left. -/
def Expr.sitedOption : Option Expr → List Site → Option Expr × List Site
  | none, sites => (none, sites)
  | some e, sites =>
    let e := e.sited sites
    (some e.1, e.2)

/-- The statement with the sites of the list for its references, and the sites left. -/
def Stmt.sited : Stmt → List Site → Stmt × List Site
  | .block body, sites =>
    let body := Stmt.sitedAll body sites
    (.block body.1, body.2)
  | .breakLoop keyword, sites => (.breakLoop keyword, sites)
  | .continueLoop keyword, sites => (.continueLoop keyword, sites)
  | .classDecl declaration, sites =>
    let declaration := declaration.sited sites
    (.classDecl declaration.1, declaration.2)
  | .empty, sites => (.empty, sites)
  | .expression value, sites =>
    let value := value.sited sites
    (.expression value.1, value.2)
  | .functionDecl declaration, sites =>
    let declaration := declaration.sited sites
    (.functionDecl declaration.1, declaration.2)
  | .conditional condition whenTrue whenFalse, sites =>
    let condition := condition.sited sites
    let whenTrue := whenTrue.sited condition.2
    let whenFalse := Stmt.sitedOption whenFalse whenTrue.2
    (.conditional condition.1 whenTrue.1 whenFalse.1, whenFalse.2)
  | .input keyword target, sites =>
    let target := target.sited sites
    (.input keyword target.1, target.2)
  | .print keyword value, sites =>
    let value := value.sited sites
    (.print keyword value.1, value.2)
  | .returnValue keyword value, sites =>
    let value := Expr.sitedOption value sites
    (.returnValue keyword value.1, value.2)
  | .constant name value, sites =>
    let value := value.sited sites
    (.constant name value.1, value.2)
  | .var name value, sites =>
    let value := Expr.sitedOption value sites
    (.var name value.1, value.2)
  | .loop condition body increment, sites =>
    let condition := condition.sited sites
    let body := body.sited condition.2
    let increment := Expr.sitedOption increment body.2
    (.loop condition.1 body.1 increment.1, increment.2)

/-- Statements in a row with the sites of the list, and the sites left. -/
def Stmt.sitedAll : List Stmt → List Site → List Stmt × List Site
  | [], sites => ([], sites)
  | s :: ss, sites =>
    let s := s.sited sites
    let ss := Stmt.sitedAll ss s.2
    (s.1 :: ss.1, ss.2)

/-- A statement that may be absent with the sites of the list, and the sites left. -/
def Stmt.sitedOption : Option Stmt → List Site → Option Stmt × List Site
  | none, sites => (none, sites)
  | some s, sites =>
    let s := s.sited sites
    (some s.1, s.2)

/-- The function with the sites of the list for its references, and the sites left. -/
def FunctionDecl.sited : FunctionDecl → List Site → FunctionDecl × List Site
  | ⟨name, keyword, parameters, body⟩, sites =>
    let body := Stmt.sitedAll body sites
    (⟨name, keyword, parameters, body.1⟩, body.2)

/-- Functions in a row with the sites of the list, and the sites left. -/
def FunctionDecl.sitedAll : List FunctionDecl → List Site → List FunctionDecl × List Site
  | [], sites => ([], sites)
  | d :: ds, sites =>
    let d := d.sited sites
    let ds := FunctionDecl.sitedAll ds d.2
    (d.1 :: ds.1, ds.2)

/-- The class with the sites of the list for its references, and the sites left. -/
def ClassDecl.sited : ClassDecl → List Site → ClassDecl × List Site
  | ⟨name, superclass, methods, classMethods, getters, setters⟩, sites =>
    let superclass := Expr.sitedOption superclass sites
    let methods := FunctionDecl.sitedAll methods superclass.2
    let getters := FunctionDecl.sitedAll getters methods.2
    let setters := FunctionDecl.sitedAll setters getters.2
    let classMethods := FunctionDecl.sitedAll classMethods setters.2
    (⟨name, superclass.1, methods.1, classMethods.1, getters.1, setters.1⟩, classMethods.2)

end

/-! ## The former sites do not matter -/

mutual

/-- An expression takes its sites from the list alone. -/
theorem Expr.sited_unsited : ∀ (e : Expr) (sites : List Site), e.unsited.sited sites = e.sited sites
  | .literal _, _ | .variable _ _, _ | .receiver _ _, _ | .inherited _ _ _, _ => rfl
  | .assign _ _ value, sites => by
    simp only [Expr.unsited, Expr.sited, Expr.sited_unsited value]
  | .group inner, sites => by simp only [Expr.unsited, Expr.sited, Expr.sited_unsited inner]
  | .unary _ operand, sites => by
    simp only [Expr.unsited, Expr.sited, Expr.sited_unsited operand]
  | .binary left _ right, sites | .logical left _ right, sites => by
    simp only [Expr.unsited, Expr.sited, Expr.sited_unsited left, Expr.sited_unsited right]
  | .conditional condition whenTrue whenFalse, sites => by
    simp only [Expr.unsited, Expr.sited, Expr.sited_unsited condition,
      Expr.sited_unsited whenTrue, Expr.sited_unsited whenFalse]
  | .call callee _ arguments, sites => by
    simp only [Expr.unsited, Expr.sited, Expr.sited_unsited callee,
      Expr.sitedAll_unsited arguments]
  | .get object _, sites => by simp only [Expr.unsited, Expr.sited, Expr.sited_unsited object]
  | .set object _ value, sites => by
    simp only [Expr.unsited, Expr.sited, Expr.sited_unsited object, Expr.sited_unsited value]
  | .function d, sites => by
    simp only [Expr.unsited, Expr.sited, FunctionDecl.sited_unsited d]

theorem Expr.sitedAll_unsited : ∀ (es : List Expr) (sites : List Site),
    Expr.sitedAll (Expr.unsitedAll es) sites = Expr.sitedAll es sites
  | [], _ => rfl
  | e :: es, sites => by
    simp only [Expr.unsitedAll, Expr.sitedAll, Expr.sited_unsited e, Expr.sitedAll_unsited es]

theorem Expr.sitedOption_unsited : ∀ (e : Option Expr) (sites : List Site),
    Expr.sitedOption (Expr.unsitedOption e) sites = Expr.sitedOption e sites
  | none, _ => rfl
  | some e, sites => by
    simp only [Expr.unsitedOption, Expr.sitedOption, Expr.sited_unsited e]

/-- A statement takes its sites from the list alone. -/
theorem Stmt.sited_unsited : ∀ (s : Stmt) (sites : List Site), s.unsited.sited sites = s.sited sites
  | .breakLoop _, _ | .continueLoop _, _ | .empty, _ => rfl
  | .block body, sites => by simp only [Stmt.unsited, Stmt.sited, Stmt.sitedAll_unsited body]
  | .classDecl d, sites => by simp only [Stmt.unsited, Stmt.sited, ClassDecl.sited_unsited d]
  | .expression value, sites => by
    simp only [Stmt.unsited, Stmt.sited, Expr.sited_unsited value]
  | .functionDecl d, sites => by
    simp only [Stmt.unsited, Stmt.sited, FunctionDecl.sited_unsited d]
  | .conditional condition whenTrue whenFalse, sites => by
    simp only [Stmt.unsited, Stmt.sited, Expr.sited_unsited condition,
      Stmt.sited_unsited whenTrue, Stmt.sitedOption_unsited whenFalse]
  | .input _ value, sites | .print _ value, sites | .constant _ value, sites => by
    simp only [Stmt.unsited, Stmt.sited, Expr.sited_unsited value]
  | .returnValue _ value, sites | .var _ value, sites => by
    simp only [Stmt.unsited, Stmt.sited, Expr.sitedOption_unsited value]
  | .loop condition body increment, sites => by
    simp only [Stmt.unsited, Stmt.sited, Expr.sited_unsited condition, Stmt.sited_unsited body,
      Expr.sitedOption_unsited increment]

/-- Statements in a row take their sites from the list alone. -/
theorem Stmt.sitedAll_unsited : ∀ (ss : List Stmt) (sites : List Site),
    Stmt.sitedAll (Stmt.unsitedAll ss) sites = Stmt.sitedAll ss sites
  | [], _ => rfl
  | s :: ss, sites => by
    simp only [Stmt.unsitedAll, Stmt.sitedAll, Stmt.sited_unsited s, Stmt.sitedAll_unsited ss]

theorem Stmt.sitedOption_unsited : ∀ (s : Option Stmt) (sites : List Site),
    Stmt.sitedOption (Stmt.unsitedOption s) sites = Stmt.sitedOption s sites
  | none, _ => rfl
  | some s, sites => by
    simp only [Stmt.unsitedOption, Stmt.sitedOption, Stmt.sited_unsited s]

/-- A function takes its sites from the list alone. -/
theorem FunctionDecl.sited_unsited : ∀ (d : FunctionDecl) (sites : List Site),
    d.unsited.sited sites = d.sited sites
  | ⟨_, _, _, body⟩, sites => by
    simp only [FunctionDecl.unsited, FunctionDecl.sited, Stmt.sitedAll_unsited body]

theorem FunctionDecl.sitedAll_unsited : ∀ (ds : List FunctionDecl) (sites : List Site),
    FunctionDecl.sitedAll (FunctionDecl.unsitedAll ds) sites = FunctionDecl.sitedAll ds sites
  | [], _ => rfl
  | d :: ds, sites => by
    simp only [FunctionDecl.unsitedAll, FunctionDecl.sitedAll, FunctionDecl.sited_unsited d,
      FunctionDecl.sitedAll_unsited ds]

/-- A class takes its sites from the list alone. -/
theorem ClassDecl.sited_unsited : ∀ (d : ClassDecl) (sites : List Site),
    d.unsited.sited sites = d.sited sites
  | ⟨_, superclass, methods, classMethods, getters, setters⟩, sites => by
    simp only [ClassDecl.unsited, ClassDecl.sited, Expr.sitedOption_unsited superclass,
      FunctionDecl.sitedAll_unsited methods, FunctionDecl.sitedAll_unsited classMethods,
      FunctionDecl.sitedAll_unsited getters, FunctionDecl.sitedAll_unsited setters]

end

/-! ## Sites put elsewhere -/

section Moved

variable (f : Site → Site)

/-- The sites that references have where sites are put elsewhere, and some more. -/
def movedSites (references : List Reference) (more : List Site) : List Site :=
  references.map (fun r => f r.site) ++ more

/-- The sites of two parts stand in the list one after the other. -/
theorem movedSites_append (rs ss : List Reference) (more : List Site) :
    movedSites f (rs ++ ss) more = movedSites f rs (movedSites f ss more) := by
  unfold movedSites
  rw [List.map_append, List.append_assoc]

mutual

/-- An expression with its own sites put elsewhere is the shifted one, and the other sites are
left. -/
theorem Expr.sited_moved : ∀ (e : Expr) (more : List Site),
    e.sited (movedSites f e.references more) = (e.shifted ⟨0, f⟩, more)
  | .literal _, _ | .variable _ _, _ | .receiver _ _, _ | .inherited _ _ _, _ => rfl
  | .assign site name value, more => by
    have hvalue := Expr.sited_moved value more
    show (Expr.assign (f site) name (value.sited (movedSites f value.references more)).1,
      (value.sited (movedSites f value.references more)).2) = _
    rw [hvalue]
    rfl
  | .group inner, more => by
    rw [Expr.references, Expr.sited, Expr.sited_moved inner]
    rfl
  | .unary _ operand, more => by
    rw [Expr.references, Expr.sited, Expr.sited_moved operand]
    rfl
  | .binary left _ right, more | .logical left _ right, more => by
    rw [Expr.references, Expr.sited, movedSites_append, Expr.sited_moved left]
    dsimp only
    rw [Expr.sited_moved right]
    rfl
  | .conditional condition whenTrue whenFalse, more => by
    rw [Expr.references, Expr.sited, movedSites_append, movedSites_append,
      Expr.sited_moved condition]
    dsimp only
    rw [Expr.sited_moved whenTrue]
    dsimp only
    rw [Expr.sited_moved whenFalse]
    rfl
  | .call callee _ arguments, more => by
    rw [Expr.references, Expr.sited, movedSites_append, Expr.sited_moved callee]
    dsimp only
    rw [Expr.sitedAll_moved arguments]
    rfl
  | .get object _, more => by
    rw [Expr.references, Expr.sited, Expr.sited_moved object]
    rfl
  | .set object _ value, more => by
    rw [Expr.references, Expr.sited, movedSites_append, Expr.sited_moved object]
    dsimp only
    rw [Expr.sited_moved value]
    rfl
  | .function d, more => by
    rw [Expr.references, Expr.sited, FunctionDecl.sited_moved d]
    rfl

theorem Expr.sitedAll_moved : ∀ (es : List Expr) (more : List Site),
    Expr.sitedAll es (movedSites f (Expr.referencesAll es) more) =
      (Expr.shiftedAll ⟨0, f⟩ es, more)
  | [], _ => rfl
  | e :: es, more => by
    rw [Expr.referencesAll, Expr.sitedAll, movedSites_append, Expr.sited_moved e]
    dsimp only
    rw [Expr.sitedAll_moved es]
    rfl

theorem Expr.sitedOption_moved : ∀ (e : Option Expr) (more : List Site),
    Expr.sitedOption e (movedSites f (Expr.referencesOption e) more) =
      (Expr.shiftedOption ⟨0, f⟩ e, more)
  | none, _ => rfl
  | some e, more => by
    rw [Expr.referencesOption, Expr.sitedOption, Expr.sited_moved e]
    rfl

/-- A statement with its own sites put elsewhere is the shifted one, and the other sites are left.
-/
theorem Stmt.sited_moved : ∀ (s : Stmt) (more : List Site),
    s.sited (movedSites f s.references more) = (s.shifted ⟨0, f⟩, more)
  | .breakLoop _, _ | .continueLoop _, _ | .empty, _ => rfl
  | .block body, more => by
    rw [Stmt.references, Stmt.sited, Stmt.sitedAll_moved body]
    rfl
  | .classDecl d, more => by
    rw [Stmt.references, Stmt.sited, ClassDecl.sited_moved d]
    rfl
  | .functionDecl d, more => by
    rw [Stmt.references, Stmt.sited, FunctionDecl.sited_moved d]
    rfl
  | .conditional condition whenTrue whenFalse, more => by
    rw [Stmt.references, Stmt.sited, movedSites_append, movedSites_append,
      Expr.sited_moved condition]
    dsimp only
    rw [Stmt.sited_moved whenTrue]
    dsimp only
    rw [Stmt.sitedOption_moved whenFalse]
    rfl
  | .expression value, more | .input _ value, more | .print _ value, more
  | .constant _ value, more => by
    rw [Stmt.references, Stmt.sited, Expr.sited_moved value]
    rfl
  | .returnValue _ value, more | .var _ value, more => by
    rw [Stmt.references, Stmt.sited, Expr.sitedOption_moved value]
    rfl
  | .loop condition body increment, more => by
    rw [Stmt.references, Stmt.sited, movedSites_append, movedSites_append,
      Expr.sited_moved condition]
    dsimp only
    rw [Stmt.sited_moved body]
    dsimp only
    rw [Expr.sitedOption_moved increment]
    rfl

/-- Statements in a row take their sites each where the one before left them. -/
theorem Stmt.sitedAll_moved : ∀ (ss : List Stmt) (more : List Site),
    Stmt.sitedAll ss (movedSites f (Stmt.referencesAll ss) more) =
      (Stmt.shiftedAll ⟨0, f⟩ ss, more)
  | [], _ => rfl
  | s :: ss, more => by
    rw [Stmt.referencesAll, Stmt.sitedAll, movedSites_append, Stmt.sited_moved s]
    dsimp only
    rw [Stmt.sitedAll_moved ss]
    rfl

theorem Stmt.sitedOption_moved : ∀ (s : Option Stmt) (more : List Site),
    Stmt.sitedOption s (movedSites f (Stmt.referencesOption s) more) =
      (Stmt.shiftedOption ⟨0, f⟩ s, more)
  | none, _ => rfl
  | some s, more => by
    rw [Stmt.referencesOption, Stmt.sitedOption, Stmt.sited_moved s]
    rfl

/-- A function with its own sites put elsewhere is the shifted one, and the other sites are left. -/
theorem FunctionDecl.sited_moved : ∀ (d : FunctionDecl) (more : List Site),
    d.sited (movedSites f d.references more) = (d.shifted ⟨0, f⟩, more)
  | ⟨name, keyword, parameters, body⟩, more => by
    rw [FunctionDecl.references, FunctionDecl.sited, Stmt.sitedAll_moved body,
      FunctionDecl.shifted, Token.map_later_zero, Token.later_zero, Option.map_id]
    rfl

/-- Functions in a row take their sites each where the one before left them. -/
theorem FunctionDecl.sitedAll_moved : ∀ (ds : List FunctionDecl) (more : List Site),
    FunctionDecl.sitedAll ds (movedSites f (FunctionDecl.referencesAll ds) more) =
      (FunctionDecl.shiftedAll ⟨0, f⟩ ds, more)
  | [], _ => rfl
  | d :: ds, more => by
    rw [FunctionDecl.referencesAll, FunctionDecl.sitedAll, movedSites_append,
      FunctionDecl.sited_moved d]
    dsimp only
    rw [FunctionDecl.sitedAll_moved ds]
    rfl

/-- A class takes its sites by the kinds of its members. -/
theorem ClassDecl.sited_moved : ∀ (d : ClassDecl) (more : List Site),
    d.sited (movedSites f d.references more) = (d.shifted ⟨0, f⟩, more)
  | ⟨_, superclass, methods, classMethods, getters, setters⟩, more => by
    rw [ClassDecl.references, ClassDecl.sited, movedSites_append, movedSites_append,
      movedSites_append, movedSites_append, Expr.sitedOption_moved superclass]
    dsimp only
    rw [FunctionDecl.sitedAll_moved methods]
    dsimp only
    rw [FunctionDecl.sitedAll_moved getters]
    dsimp only
    rw [FunctionDecl.sitedAll_moved setters]
    dsimp only
    rw [FunctionDecl.sitedAll_moved classMethods]
    rfl

end

end Moved

/-! ## Trees that agree up to sites -/

/-- Statements that agree up to sites have as many references, and where a function maps the sites
of the ones to those of the others, they are the others with their sites put elsewhere. -/
theorem Stmt.resited {ss tt : List Stmt} (h : Stmt.unsitedAll tt = Stmt.unsitedAll ss) :
    (Stmt.referencesAll tt).length = (Stmt.referencesAll ss).length ∧
      ∀ f : Site → Site, (Stmt.referencesAll tt).map Reference.site =
          ((Stmt.referencesAll ss).map Reference.site).map f →
        tt = Stmt.shiftedAll ⟨0, f⟩ ss := by
  have hsited (sites : List Site) : Stmt.sitedAll tt sites = Stmt.sitedAll ss sites := by
    rw [← Stmt.sitedAll_unsited, h, Stmt.sitedAll_unsited]
  constructor
  · -- from a list of zeros both take as many
    let n := (Stmt.referencesAll ss).length
    let m := (Stmt.referencesAll tt).length
    have hzeros (rs : List Reference) (k : Nat) :
        movedSites (fun _ => 0) rs (List.replicate k 0) = List.replicate (rs.length + k) 0 := by
      unfold movedSites
      rw [List.map_const', List.replicate_append_replicate]
    have hss := Stmt.sitedAll_moved (fun _ => 0) ss (List.replicate m 0)
    have htt := Stmt.sitedAll_moved (fun _ => 0) tt (List.replicate n 0)
    rw [hzeros] at hss htt
    rw [hsited, Nat.add_comm, hss] at htt
    have hleft := congrArg (fun result => List.length result.2) htt
    simpa using hleft
  · intro f hsites
    have hss := Stmt.sitedAll_moved f ss []
    have htt := Stmt.sitedAll_moved id tt []
    have hsame : movedSites id (Stmt.referencesAll tt) [] =
        movedSites f (Stmt.referencesAll ss) [] := by
      unfold movedSites
      rw [List.map_map] at hsites
      exact congrArg (· ++ []) hsites
    rw [hsited, hsame, hss, Stmt.shiftedAll_same] at htt
    exact (Prod.mk.inj htt).1.symm

end Lox
