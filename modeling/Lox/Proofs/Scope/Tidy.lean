import Lox.Proofs.Grammar.Induction
import Lox.Proofs.Token.Spelled

/-!
# Tidy trees

What the grammar promises about a tree beyond its shape: branches and loop bodies declare nothing,
a superclass is named by a variable, a getter has no parameters and a setter has one, and the names
of variables are not `this`, `super` or the name of a setter. The trees of derivations over
spelled tokens are tidy (`Derives.tidy`).
-/

namespace Lox

/-- The name that a statement declares in the scope around it. -/
def Stmt.declared? : Stmt → Option Token
  | .classDecl d => some d.name
  | .functionDecl d => d.name
  | .constant name _ | .var name _ => some name
  | _ => none

/-- The name under which a class keeps the member is not the name of a setter. -/
def FunctionDecl.NoSetter (d : FunctionDecl) : Prop :=
  ∀ property, d.memberName ≠ setterName property

mutual

/-- An expression as the grammar makes them. -/
def Expr.Tidy : Expr → Prop
  | .literal _ => True
  | .variable _ name => name.Plain
  | .assign _ name value => name.Plain ∧ value.Tidy
  | .receiver _ keyword => keyword.lexeme = "this"
  | .inherited _ keyword _ => keyword.lexeme = "super"
  | .group inner => inner.Tidy
  | .unary _ operand => operand.Tidy
  | .binary left _ right | .logical left _ right => left.Tidy ∧ right.Tidy
  | .conditional condition whenTrue whenFalse =>
    condition.Tidy ∧ whenTrue.Tidy ∧ whenFalse.Tidy
  | .call callee _ arguments => callee.Tidy ∧ Expr.TidyAll arguments
  | .get object _ => object.Tidy
  | .set object _ value => object.Tidy ∧ value.Tidy
  | .function d => d.Tidy

/-- Expressions as the grammar makes them. -/
def Expr.TidyAll : List Expr → Prop
  | [] => True
  | e :: es => e.Tidy ∧ Expr.TidyAll es

/-- An expression as the grammar makes them, or none. -/
def Expr.TidyOption : Option Expr → Prop
  | none => True
  | some e => e.Tidy

/-- A statement as the grammar makes them. -/
def Stmt.Tidy : Stmt → Prop
  | .block body => Stmt.TidyAll body
  | .breakLoop _ | .continueLoop _ | .empty => True
  | .classDecl d => d.Tidy
  | .expression value => value.Tidy
  | .functionDecl d => (∃ name, d.name = some name ∧ name.Plain) ∧ d.Tidy
  | .conditional condition whenTrue whenFalse =>
    condition.Tidy ∧ whenTrue.Tidy ∧ whenTrue.declared? = none ∧ Stmt.TidyElse whenFalse
  | .input _ target => ∃ site name, target = .variable site name ∧ name.Plain
  | .print _ value => value.Tidy
  | .returnValue _ value => Expr.TidyOption value
  | .constant name value => name.Plain ∧ value.Tidy
  | .var name value => name.Plain ∧ Expr.TidyOption value
  | .loop condition body increment =>
    condition.Tidy ∧ body.Tidy ∧ body.declared? = none ∧ Expr.TidyOption increment

/-- Statements as the grammar makes them. -/
def Stmt.TidyAll : List Stmt → Prop
  | [] => True
  | s :: ss => s.Tidy ∧ Stmt.TidyAll ss

/-- The branch after an `else` as the grammar makes them, or none. -/
def Stmt.TidyElse : Option Stmt → Prop
  | none => True
  | some s => s.Tidy ∧ s.declared? = none

/-- Parameters and body of a function as the grammar makes them. -/
def FunctionDecl.Tidy : FunctionDecl → Prop
  | ⟨_, _, parameters, body⟩ => (∀ name ∈ parameters, name.Plain) ∧ Stmt.TidyAll body

/-- Functions as the grammar makes them. -/
def FunctionDecl.TidyAll : List FunctionDecl → Prop
  | [] => True
  | d :: ds => d.Tidy ∧ FunctionDecl.TidyAll ds

/-- A class as the grammar makes them. -/
def ClassDecl.Tidy : ClassDecl → Prop
  | ⟨name, superclass, methods, classMethods, getters, setters⟩ =>
    name.Plain
      ∧ (∀ clause, superclass = some clause →
        ∃ site parent, clause = .variable site parent ∧ parent.Plain)
      ∧ FunctionDecl.TidyAll methods ∧ FunctionDecl.TidyAll classMethods
      ∧ FunctionDecl.TidyAll getters ∧ FunctionDecl.TidyAll setters
      ∧ (∀ d ∈ methods, d.NoSetter) ∧ (∀ d ∈ classMethods, d.NoSetter)
      ∧ (∀ d ∈ getters, d.NoSetter ∧ d.parameters = []) ∧ (∀ d ∈ setters, d.parameters.length = 1)

end

/-- What is said of functions in a row is said of each. -/
theorem FunctionDecl.tidyAll_iff {ds : List FunctionDecl} :
    FunctionDecl.TidyAll ds ↔ ∀ d ∈ ds, d.Tidy := by
  induction ds with
  | nil => simp [FunctionDecl.TidyAll]
  | cons d ds ih => simp [FunctionDecl.TidyAll, ih]

theorem FunctionDecl.Tidy.plain {d : FunctionDecl} (h : d.Tidy) :
    ∀ name ∈ d.parameters, name.Plain := by
  obtain ⟨_, _, parameters, body⟩ := d
  exact h.1

/-- The body of a tidy function is tidy. -/
theorem FunctionDecl.Tidy.body {d : FunctionDecl} (h : d.Tidy) : Stmt.TidyAll d.body := by
  obtain ⟨_, _, parameters, body⟩ := d
  exact h.2

theorem ClassDecl.Tidy.plain {d : ClassDecl} (h : d.Tidy) : d.name.Plain := by
  obtain ⟨name, superclass, methods, classMethods, getters, setters⟩ := d
  exact h.1

/-- The members of a tidy class take as many arguments as they are called with. -/
theorem ClassDecl.Tidy.arity {d : ClassDecl} (h : d.Tidy) :
    (∀ m ∈ d.methods, m.NoSetter) ∧ (∀ m ∈ d.classMethods, m.NoSetter) ∧
      (∀ m ∈ d.getters, m.NoSetter ∧ m.parameters = []) ∧
      ∀ m ∈ d.setters, m.parameters.length = 1 := by
  obtain ⟨name, superclass, methods, classMethods, getters, setters⟩ := d
  obtain ⟨_, _, _, _, _, _, hm, hc, hg, hs⟩ := h
  exact ⟨hm, hc, hg, hs⟩

/-- The clause of a superclass is a plain name. -/
theorem ClassDecl.Tidy.superclass {d : ClassDecl} (h : d.Tidy) {clause : Expr}
    (hd : d.superclass = some clause) :
    ∃ site parent, clause = .variable site parent ∧ parent.Plain := by
  obtain ⟨name, superclass, methods, classMethods, getters, setters⟩ := d
  exact h.2.1 clause hd

/-- The name that a tidy statement declares can name a variable. -/
theorem Stmt.Tidy.plain {s : Stmt} (h : s.Tidy) : ∀ name ∈ s.declared?.toList, name.Plain := by
  intro name hname
  rw [Option.mem_toList] at hname
  cases s with
  | classDecl d =>
    cases hname
    exact ClassDecl.Tidy.plain h
  | functionDecl d =>
    obtain ⟨⟨name', hname', hplain⟩, _⟩ := h
    rw [show (Stmt.functionDecl d).declared? = some name' from hname'] at hname
    cases hname
    exact hplain
  | constant name' value =>
    cases hname
    exact h.1
  | «var» name' value =>
    cases hname
    exact h.1
  | _ => cases hname

namespace Grammar

/-- The tree of the phrase is as the grammar makes them. -/
def Phrase.Tidy : Phrase → Prop
  | .expression _ e => e.Tidy
  | .optional e => Expr.TidyOption e
  | .arguments es | .argumentRow es => Expr.TidyAll es
  | .parameters names | .parameterRow names => ∀ name ∈ names, name.Plain
  | .block body => Stmt.TidyAll body
  | .function d => (∃ name, d.name = some name ∧ name.Plain) ∧ d.Tidy ∧ d.NoSetter
  | .getter d => d.Tidy ∧ d.NoSetter ∧ d.parameters = []
  | .setter d => d.Tidy ∧ d.parameters.length = 1
  | .members ms =>
    FunctionDecl.TidyAll ms.methods ∧ FunctionDecl.TidyAll ms.classMethods
      ∧ FunctionDecl.TidyAll ms.getters ∧ FunctionDecl.TidyAll ms.setters
      ∧ (∀ d ∈ ms.methods, d.NoSetter) ∧ (∀ d ∈ ms.classMethods, d.NoSetter)
      ∧ (∀ d ∈ ms.getters, d.NoSetter ∧ d.parameters = [])
      ∧ (∀ d ∈ ms.setters, d.parameters.length = 1)
  | .varDecl s => s.Tidy
  | .expressionStatement s => s.Tidy ∧ s.declared? = none
  | .forStart start => ∀ s, start = some s → s.Tidy
  | .statement _ s => s.Tidy ∧ s.declared? = none
  | .declaration s => s.Tidy
  | .declarations ss => Stmt.TidyAll ss

/-- The loop that stands for a `for` is tidy if its clauses and body are, and it declares
nothing. -/
theorem forLoop_tidy {start : Option Stmt} {condition increment : Option Expr} {body : Stmt}
    (hs : ∀ s, start = some s → s.Tidy) (hc : Expr.TidyOption condition)
    (hi : Expr.TidyOption increment) (hb : body.Tidy) (hd : body.declared? = none) :
    (forLoop start condition increment body).Tidy ∧
      (forLoop start condition increment body).declared? = none := by
  have hcondition : (condition.getD (.literal .true)).Tidy := by
    cases condition with
    | none => trivial
    | some e => exact hc
  have hloop : (Stmt.loop (condition.getD (.literal .true)) body increment).Tidy :=
    ⟨hcondition, hb, hd, hi⟩
  cases start with
  | none => exact ⟨hloop, rfl⟩
  | some s => exact ⟨⟨hs s rfl, hloop, trivial⟩, rfl⟩

/-- A name that is an identifier is not the stored name of a setter. -/
theorem noSetter_of_plain {name keyword : Token} {parameters : List Token} {body : List Stmt}
    (h : name.Plain) : (FunctionDecl.mk (some name) keyword parameters body).NoSetter :=
  h.ne_setter

/-- The rules for expressions make tidy trees. -/
theorem tidy_expressions : ExpressionClosed Token.Spelled fun phrase _ => phrase.Tidy where
  tighter _ he := he
  joined := by
    rintro level left right operator ls rs hl _ hr _
    cases level <;> exact ⟨hl, hr⟩
  assign hn _ hv hspelled := ⟨hspelled.plain hn, hv⟩
  set ho _ _ _ hv _ := ⟨ho, hv⟩
  conditional hc _ ht _ hf := ⟨hc, ht, hf⟩
  unary _ he _ := he
  call hc _ ha _ _ := ⟨hc, ha⟩
  get ho _ _ _ := ho
  literal _ := trivial
  name hn hspelled := hspelled.plain hn
  receiver hk hspelled := hspelled.lexeme_this hk
  inherited hk _ _ hspelled _ := hspelled.lexeme_super hk
  group _ he _ := he
  functionLiteral _ _ hp _ hb _ := ⟨hp, hb⟩
  absent := trivial
  present he := he
  noArguments := trivial
  someArguments he _ := he
  lastArgument he := ⟨he, trivial⟩
  nextArgument he _ hes := ⟨he, hes⟩
/-- The rules for functions and members make tidy trees. -/
theorem tidy_members : MemberClosed Token.Spelled fun phrase _ => phrase.Tidy where
  noParameters := fun _ h => nomatch h
  someParameters hn _ := hn
  lastParameter hn hspelled := List.forall_mem_singleton.mpr (hspelled.plain hn)
  nextParameter hn _ hs hspelled := List.forall_mem_cons.mpr ⟨hspelled.plain hn, hs⟩
  block _ hb _ := hb
  function hn _ hp _ hb hspelled := by
    have hplain := hspelled.plain hn
    exact ⟨⟨_, rfl, hplain⟩, ⟨hp, hb⟩, noSetter_of_plain hplain⟩
  getter hn hb hspelled :=
    ⟨⟨(fun _ h => nomatch h), hb⟩, noSetter_of_plain (hspelled.plain hn), rfl⟩
  getterParens hn _ _ hb hspelled :=
    ⟨⟨(fun _ h => nomatch h), hb⟩, noSetter_of_plain (hspelled.plain hn), rfl⟩
  setter _ _ hp _ hb _ hspelled :=
    ⟨⟨List.forall_mem_singleton.mpr (hspelled.plain hp), hb⟩, rfl⟩
  noMembers := ⟨trivial, trivial, trivial, trivial, (fun _ h => nomatch h), (fun _ h => nomatch h),
    (fun _ h => nomatch h), (fun _ h => nomatch h)⟩
  -- a member goes to the others of its kind, which take as many arguments as it does
  nextMethod := by
    rintro d rest ts us ⟨_, hd, hn⟩ ⟨hm, hc, hg, hs, hmn, hcn, hgn, hsn⟩
    exact ⟨⟨hd, hm⟩, hc, hg, hs, List.forall_mem_cons.mpr ⟨hn, hmn⟩, hcn, hgn, hsn⟩
  nextClassMethod := by
    rintro keyword d rest ts us _ ⟨_, hd, hn⟩ ⟨hm, hc, hg, hs, hmn, hcn, hgn, hsn⟩
    exact ⟨hm, ⟨hd, hc⟩, hg, hs, hmn, List.forall_mem_cons.mpr ⟨hn, hcn⟩, hgn, hsn⟩
  nextGetter := by
    rintro marker d rest ts us _ ⟨hd, hn⟩ ⟨hm, hc, hg, hs, hmn, hcn, hgn, hsn⟩
    exact ⟨hm, hc, ⟨hd, hg⟩, hs, hmn, hcn, List.forall_mem_cons.mpr ⟨hn, hgn⟩, hsn⟩
  nextSetter := by
    rintro marker d rest ts us _ ⟨hd, hn⟩ ⟨hm, hc, hg, hs, hmn, hcn, hgn, hsn⟩
    exact ⟨hm, hc, hg, ⟨hd, hs⟩, hmn, hcn, hgn, List.forall_mem_cons.mpr ⟨hn, hsn⟩⟩

/-- The rules for statements and declarations make tidy trees. -/
theorem tidy_statements : StatementClosed Token.Spelled fun phrase _ => phrase.Tidy where
  varDecl _ hn _ hspelled := ⟨hspelled.plain hn, trivial⟩
  varDeclValue _ hn _ hv _ hspelled := ⟨hspelled.plain hn, hv⟩
  expressionStatement h _ := ⟨h, rfl⟩
  continueLoop _ _ _ := ⟨trivial, rfl⟩
  breakLoop _ _ _ := ⟨trivial, rfl⟩
  empty _ := ⟨trivial, rfl⟩
  startNothing _ := fun _ h => nomatch h
  startVar hs := fun _ h => Option.some.inj h ▸ hs
  startExpression hs := fun _ h => Option.some.inj h ▸ hs.1
  forLoop _ _ hs hc _ hi _ hb := forLoop_tidy hs hc hi hb.1 hb.2
  ifThen _ _ hc _ ht := ⟨⟨hc, ht.1, ht.2, trivial⟩, rfl⟩
  ifThenElse _ _ hc _ ht _ hf := ⟨⟨hc, ht.1, ht.2, hf⟩, rfl⟩
  input _ hn _ _ hspelled := ⟨⟨_, _, rfl, hspelled.plain hn⟩, rfl⟩
  print _ hv _ _ := ⟨hv, rfl⟩
  returnValue _ hv _ _ := ⟨hv, rfl⟩
  whileLoop _ _ hc _ hb := ⟨⟨hc, hb.1, hb.2, trivial⟩, rfl⟩
  blockStatement hb := ⟨hb, rfl⟩
  plain hs := hs
  classDecl _ hn _ hm _ hspelled := ⟨hspelled.plain hn, (fun _ h => nomatch h), hm⟩
  derivedClass _ hn _ hp _ hm _ hspelled hparent :=
    ⟨hspelled.plain hn, fun _ h => ⟨_, _, (Option.some.inj h).symm, hparent.plain hp⟩, hm⟩
  functionDecl _ hd := ⟨hd.1, hd.2.1⟩
  constant _ hn _ hv _ hspelled := ⟨hspelled.plain hn, hv⟩
  var hs := hs
  statement hs := hs.1
  noDeclarations := trivial
  nextDeclaration hs hr := ⟨hs, hr⟩

/-- The tree of a derivation over spelled tokens is tidy. -/
theorem Derives.tidy {phrase : Phrase} {ts : List Token} (h : Derives phrase ts)
    (hts : ∀ t ∈ ts, t.Spelled) : phrase.Tidy :=
  h.closed tidy_expressions tidy_members tidy_statements hts

end Grammar

end Lox
