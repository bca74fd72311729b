import Lox.Grammar
import Lox.Tree.References
import Mathlib.Data.List.Count

/-!
# The sites that a parse gives out

Every reference of a tree has a site of its own: the rules draw them one by one from the counter of
the cursor, which never goes back. `Draws before p S` says so of a rule `p` that goes on with parts
whose references have the sites `before`; what it gives has the sites `S`. With a law for each step
that rules are made of, this goes through all rules, and so the references of a program that is
parsed have different sites, none of them given out before (`Program.parse_drawn`).
-/

namespace Lox

/-! ## Sites of trees -/

/-- The sites of references. -/
def sitesOf (references : List Reference) : List Site :=
  references.map Reference.site

/-- No references have no sites. -/
@[simp] theorem sitesOf_nil : sitesOf [] = [] :=
  rfl

@[simp] theorem sitesOf_cons (r : Reference) (rs : List Reference) :
    sitesOf (r :: rs) = r.site :: sitesOf rs :=
  rfl

/-- The sites of references in two rows are those of the first and those of the second. -/
@[simp] theorem sitesOf_append (rs rs' : List Reference) :
    sitesOf (rs ++ rs') = sitesOf rs ++ sitesOf rs' :=
  List.map_append

/-- The sites of the references of members. -/
def Grammar.Members.references (ms : Grammar.Members) : List Reference :=
  FunctionDecl.referencesAll ms.methods ++ FunctionDecl.referencesAll ms.classMethods ++
    FunctionDecl.referencesAll ms.getters ++ FunctionDecl.referencesAll ms.setters

/-- The sites were given out from `lo` on and before `hi`, none of them twice. -/
structure Drawn (lo hi : Site) (sites : List Site) : Prop where
  le : lo ≤ hi
  once : ∀ i, sites.count i ≤ 1
  range : ∀ i ∈ sites, lo ≤ i ∧ i < hi

namespace Drawn

variable {lo mid hi : Site} {sites sites' : List Site}

/-- A row of no sites. -/
theorem nil (h : lo ≤ hi) : Drawn lo hi [] :=
  ⟨h, fun _ => Nat.zero_le 1, fun _ hmem => nomatch hmem⟩

/-- Sites that were given out are different. -/
theorem nodup (h : Drawn lo hi sites) : sites.Nodup :=
  List.nodup_iff_count.mpr h.once

/-- Some of the sites, in any order. -/
theorem of_count (h : Drawn lo hi sites) (hcount : ∀ i, sites'.count i ≤ sites.count i) :
    Drawn lo hi sites' := by
  refine ⟨h.le, fun i => Nat.le_trans (hcount i) (h.once i), fun i hmem => h.range i ?_⟩
  have hpos := List.count_pos_iff.mpr hmem
  exact List.count_pos_iff.mp (Nat.lt_of_lt_of_le hpos (hcount i))

/-- Sites that were given out one row after the other. -/
theorem append (h : Drawn lo mid sites) (h' : Drawn mid hi sites') :
    Drawn lo hi (sites ++ sites') := by
  refine ⟨Nat.le_trans h.le h'.le, fun i => ?_, fun i hmem => ?_⟩
  · rw [List.count_append]
    by_cases hmem : i ∈ sites
    · have hnot : i ∉ sites' := fun hmem' =>
        absurd (h.range i hmem).2 (Nat.not_lt.mpr (h'.range i hmem').1)
      rw [List.count_eq_zero.mpr hnot]
      exact h.once i
    · rw [List.count_eq_zero.mpr hmem, Nat.zero_add]
      exact h'.once i
  · rcases List.mem_append.mp hmem with hmem | hmem
    · exact ⟨(h.range i hmem).1, Nat.lt_of_lt_of_le (h.range i hmem).2 h'.le⟩
    · exact ⟨Nat.le_trans h.le (h'.range i hmem).1, (h'.range i hmem).2⟩

end Drawn

namespace Parser

variable {α β : Type}

/-! ## Rules that draw sites -/

/-- Where the rule goes on with parts that have the sites `before`, it gives something that has the
sites `S`, and the counter does not go back. -/
def Draws (before : List Site) (p : Parser α) (S : α → List Site) : Prop :=
  ∀ lo c, Drawn lo c.nextSite before → match p c with
    | .ok a c' => c.nextSite ≤ c'.nextSite ∧ Drawn lo c'.nextSite (S a)
    | .error _ c' => c.nextSite ≤ c'.nextSite

/-- The rule draws no site. -/
def Silent (p : Parser α) : Prop :=
  ∀ c, match p c with
    | .ok _ c' | .error _ c' => c'.nextSite = c.nextSite

namespace Silent

variable {test : Token → Bool}

/-- Giving back a value draws nothing. -/
theorem pure (a : α) : Silent (pure a : Parser α) :=
  fun _ => rfl

theorem refuse (rule : Rule) (t : Token) (problem : Problem) :
    Silent (refuse rule t problem : Parser α) :=
  fun _ => rfl

theorem outOfFuel : Silent (outOfFuel : Parser α) :=
  fun _ => rfl

/-- Rules that draw nothing do so one after the other. -/
theorem bind {p : Parser α} {f : α → Parser β} (hp : Silent p) (hf : ∀ a, Silent (f a)) :
    Silent (p >>= f) := by
  intro c
  have hc := hp c
  show match EStateM.bind p f c with
    | .ok _ c' | .error _ c' => c'.nextSite = c.nextSite
  unfold EStateM.bind
  cases hpc : p c with
  | error e c' =>
    rw [hpc] at hc
    exact hc
  | ok a c₁ =>
    rw [hpc] at hc
    have hc₁ := hf a c₁
    dsimp only
    cases hfc : f a c₁ with
    | ok b c' =>
      rw [hfc] at hc₁
      exact Eq.trans hc₁ hc
    | error e c' =>
      rw [hfc] at hc₁
      exact Eq.trans hc₁ hc

theorem get : Silent (get : Parser Cursor) :=
  fun _ => rfl

theorem peek : Silent peek :=
  fun _ => rfl

/-- Looking at a token draws nothing. -/
theorem sees : Silent (sees test) :=
  fun _ => rfl

theorem seesSecond : Silent (seesSecond test) :=
  fun _ => rfl

/-- An error that is reported draws nothing. -/
theorem report (rule : Rule) (t : Token) (problem : Problem) : Silent (report rule t problem) :=
  fun _ => rfl

/-- Taking a token draws nothing. -/
theorem take? : Silent (take? test) := by
  intro c
  unfold Parser.take?
  cases c.unread with
  | nil => rfl
  | cons t ts =>
    dsimp only
    by_cases ht : test t = true
    · rw [if_pos ht]
    · rw [if_neg ht]

theorem takes : Silent (takes test) :=
  take?.bind fun _ => .pure _

theorem expect (rule : Rule) (problem : Problem) : Silent (expect test rule problem) := by
  refine take?.bind fun t? => ?_
  cases t? with
  | some t => exact .pure t
  | none => exact peek.bind fun t => .refuse rule t problem

end Silent

namespace Draws

variable {before : List Site} {p : Parser α} {S : α → List Site} {T : β → List Site}

/-- A result whose references are among those before. -/
theorem pure {a : α} (h : ∀ i, (S a).count i ≤ before.count i) :
    Draws before (pure a : Parser α) S :=
  fun _ _ hdrawn => ⟨Nat.le_refl _, hdrawn.of_count h⟩

/-- A rule that is refused gives nothing, so it need not use the sites before it. -/
theorem refuse (rule : Rule) (t : Token) (problem : Problem) :
    Draws before (refuse rule t problem : Parser α) S :=
  fun _ _ _ => Nat.le_refl _

theorem outOfFuel : Draws before (outOfFuel : Parser α) S :=
  fun _ _ _ => Nat.le_refl _

/-- One rule and then another, which goes on with what the first one gave. -/
theorem bind {f : α → Parser β} (hp : Draws [] p S) (hf : ∀ a, Draws (before ++ S a) (f a) T) :
    Draws before (p >>= f) T := by
  intro lo c hdrawn
  have hc := hp c.nextSite c (.nil (Nat.le_refl _))
  show match EStateM.bind p f c with
    | .ok b c' => c.nextSite ≤ c'.nextSite ∧ Drawn lo c'.nextSite (T b)
    | .error _ c' => c.nextSite ≤ c'.nextSite
  unfold EStateM.bind
  cases hpc : p c with
  | error e c' =>
    rw [hpc] at hc
    exact hc
  | ok a c₁ =>
    rw [hpc] at hc
    have hc₁ := hf a lo c₁ (hdrawn.append hc.2)
    dsimp only
    cases hfc : f a c₁ with
    | ok b c' =>
      rw [hfc] at hc₁
      exact ⟨Nat.le_trans hc.1 hc₁.1, hc₁.2⟩
    | error e c' =>
      rw [hfc] at hc₁
      exact Nat.le_trans hc.1 hc₁

/-- A step that draws no site and then a rule. -/
theorem silent {f : α → Parser β} (hp : Silent p) (hf : ∀ a, Draws before (f a) T) :
    Draws before (p >>= f) T := by
  refine bind (S := fun _ => []) (fun lo c hdrawn => ?_) fun a => ?_
  · have hc := hp c
    cases hpc : p c with
    | ok a c' =>
      rw [hpc] at hc
      exact ⟨Nat.le_of_eq hc.symm, .nil (hc ▸ hdrawn.le)⟩
    | error e c' =>
      rw [hpc] at hc
      exact Nat.le_of_eq hc.symm
  · rw [List.append_nil]
    exact hf a

/-- A new site comes after all that were drawn before and is none of them. -/
theorem freshSite {f : Site → Parser β} (hf : ∀ site, Draws (before ++ [site]) (f site) T) :
    Draws before (freshSite >>= f) T := by
  refine bind (S := fun site => [site]) (fun lo c hdrawn => ?_) hf
  refine ⟨Nat.le_succ _, Nat.le_succ_of_le hdrawn.le, fun i => ?_, fun i hi => ?_⟩
  · rw [List.count_singleton]
    split <;> omega
  · rw [List.mem_singleton] at hi
    subst hi
    exact ⟨hdrawn.le, Nat.lt_succ_self _⟩

/-- What is made of a result has its sites, each as often at most. -/
theorem map {f : α → β} (hp : Draws [] p S) (h : ∀ a i, (T (f a)).count i ≤ (S a).count i) :
    Draws [] (f <$> p) T :=
  bind hp fun a => .pure (h a)

/-- A rule that goes one of two ways draws sites if both ways do. -/
theorem ite {b : Bool} {q : Parser α} (hp : Draws before p S) (hq : Draws before q S) :
    Draws before (if b = true then p else q) S := by
  cases b with
  | true => exact hp
  | false => exact hq

/-- A rule that is refused gives nothing, and parsing goes on without touching the counter. -/
theorem recovering (hp : Draws [] p S) :
    Draws [] (recovering p) fun a? => (a?.map S).getD [] := by
  intro lo c hdrawn
  have hc := hp lo c hdrawn
  unfold Parser.recovering
  cases hpc : p c with
  | ok a c' =>
    rw [hpc] at hc
    exact hc
  | error e c' =>
    rw [hpc] at hc
    cases e with
    | outOfFuel => exact hc
    | problem e =>
      have hsite : (c'.report e).resume.nextSite = c'.nextSite := by
        unfold Cursor.resume
        split <;> rfl
      refine ⟨hsite ▸ hc, .nil ?_⟩
      exact Nat.le_trans hdrawn.le (hsite ▸ hc)

end Draws

end Parser

namespace Grammar

open Lox.Parser

attribute [local simp] Expr.references Expr.referencesAll Expr.referencesOption
  FunctionDecl.references FunctionDecl.referencesAll ClassDecl.references Members.references
  Stmt.references Stmt.referencesAll Stmt.referencesOption

/-! ## Expressions -/

/-- A rule for expressions. -/
abbrev DrawsExpr (p : Parser Expr) : Prop :=
  Draws [] p fun e => sitesOf e.references

/-- A rule for statements. -/
abbrev DrawsStmt (p : Parser Stmt) : Prop :=
  Draws [] p fun s => sitesOf s.references

/-- A rule for statements in a row. -/
abbrev DrawsStmts (p : Parser (List Stmt)) : Prop :=
  Draws [] p fun ss => sitesOf (Stmt.referencesAll ss)

/-- A rule for functions. -/
abbrev DrawsFunction (p : Parser FunctionDecl) : Prop :=
  Draws [] p fun d => sitesOf d.references

/-- A rule for members of a class. -/
abbrev DrawsMembers (p : Parser Members) : Prop :=
  Draws [] p fun ms => sitesOf ms.references

section Expressions

variable {conditional assignment or expression unary call : Parser Expr}
variable {arguments : Parser (List Expr)}

/-- An assignment to a variable has a new site before those of its value; an invalid target keeps
its own. -/
theorem assignTo_draws (target : Expr) (equals : Token) (value : Expr) :
    Draws (sitesOf target.references ++ sitesOf value.references) (assignTo target equals value)
      fun e => sitesOf e.references := by
  unfold assignTo
  split
  next site name =>
    refine .freshSite fun site' => .pure fun i => ?_
    simp only [Expr.references, sitesOf_cons, sitesOf_nil, List.count_append, List.count_cons]
    omega
  next object name =>
    refine .pure fun i => ?_
    simp [Expr.references]
  next =>
    refine .silent (.report _ _ _) fun _ => .pure fun i => ?_
    simp

/-- An assignment, or what binds tighter. -/
theorem assignmentRule_draws (hc : DrawsExpr conditional) (ha : DrawsExpr assignment) :
    DrawsExpr (assignmentRule conditional assignment) := by
  refine .bind hc fun target => .silent .take? fun equals? => ?_
  cases equals? with
  | none => exact .pure fun i => by simp
  | some equals => exact .bind ha fun value => assignTo_draws target equals value

/-- A condition and its two branches draw their sites in turn. -/
theorem conditionalRule_draws (ho : DrawsExpr or) (he : DrawsExpr expression)
    (hc : DrawsExpr conditional) : DrawsExpr (conditionalRule or expression conditional) := by
  refine .bind ho fun condition => .silent .takes fun question => .ite ?_ ?_
  · refine .bind he fun whenTrue => .silent (.expect _ _) fun _ => .bind hc fun whenFalse => ?_
    exact .pure fun i => by simp [Expr.references]
  · exact .pure fun i => by simp

/-- An operand keeps the sites that it drew. -/
theorem unaryRule_draws (hu : DrawsExpr unary) (hc : DrawsExpr call) :
    DrawsExpr (unaryRule unary call) := by
  refine .silent .take? fun operator? => ?_
  cases operator? with
  | some operator => exact .bind hu fun operand => .pure fun i => by simp [Expr.references]
  | none => exact hc

/-- Arguments draw their sites from left to right. -/
theorem argumentsRule_draws
    (ha : Draws [] arguments fun es => sitesOf (Expr.referencesAll es)) :
    Draws [] (argumentsRule arguments) fun result => sitesOf (Expr.referencesAll result.1) := by
  have hrest (values : List Expr) : Draws (sitesOf (Expr.referencesAll values)) (do
      let paren ← expect (Token.isMark .rightParen) .call .argumentsClose
      return (values, paren)) fun result => sitesOf (Expr.referencesAll result.1) :=
    .silent (.expect _ _) fun paren => .pure fun i => Nat.le_refl _
  have hnone : Draws [] (pure [] : Parser (List Expr)) fun es => sitesOf (Expr.referencesAll es) :=
    .pure fun i => by simp [Expr.referencesAll]
  exact .silent .sees fun closed => .ite (.bind hnone hrest) (.bind ha hrest)

/-- A `super` draws one site. -/
theorem inheritedRule_draws (keyword : Token) : DrawsExpr (inheritedRule keyword) :=
  .silent (.expect _ _) fun _ => .silent (.expect _ _) fun method => .freshSite fun site =>
    .pure fun i => by simp [Expr.references]

/-- Parentheses draw no site of their own. -/
theorem groupRule_draws (he : DrawsExpr expression) : DrawsExpr (groupRule expression) :=
  .bind he fun inner => .silent (.expect _ _) fun _ => .pure fun i => by simp [Expr.references]

end Expressions

/-! ## Functions -/

section Functions

variable {declarations : Parser (List Stmt)}

/-- Parameters are no references. -/
theorem parameters_silent (fuel count : Nat) : Silent (parameters fuel count) := by
  induction fuel generalizing count with
  | zero => exact .outOfFuel
  | succ fuel ih =>
    have hnames : Silent (do
        let name ← expect Token.isIdentifier .functionDecl .parameterName
        if ← takes (Token.isMark .comma) then
          return name :: (← parameters fuel (count + 1))
        else
          return [name]) := by
      refine (Silent.expect _ _).bind fun name => Silent.takes.bind fun comma => ?_
      cases comma with
      | true => exact (ih (count + 1)).bind fun names => .pure _
      | false => exact .pure _
    unfold parameters
    by_cases hcount : maxArity ≤ count
    · simp only [hcount, if_true]
      exact Silent.peek.bind fun t => (Silent.report _ _ _).bind fun _ => hnames
    · simp only [hcount, if_false]
      exact hnames

/-- Parameters between parentheses draw nothing. -/
theorem parametersRule_silent (fuel : Nat) : Silent (parametersRule fuel) := by
  refine Silent.sees.bind fun none => ?_
  cases none with
  | true => exact .pure _
  | false => exact parameters_silent fuel 0

/-- A block has the sites of its declarations. -/
theorem blockRule_draws (hd : DrawsStmts declarations) : DrawsStmts (blockRule declarations) :=
  .bind hd fun body => .silent (.expect _ _) fun _ => .pure fun i => by simp

/-- A function has the sites of its body. -/
theorem functionRest_draws (fuel : Nat) (hd : DrawsStmts declarations) (rule : Rule)
    (role : FunctionRole) :
    Draws [] (functionRest fuel declarations rule role) fun result =>
      sitesOf (Stmt.referencesAll result.2) := by
  refine .silent (parametersRule_silent fuel) fun names => .silent (.expect _ _) fun _ => ?_
  refine .silent (.expect _ _) fun _ => .bind (blockRule_draws hd) fun body => ?_
  exact .pure fun i => by simp

/-- The name of a function is no reference. -/
theorem functionRule_draws (fuel : Nat) (hd : DrawsStmts declarations) (role : FunctionRole) :
    DrawsFunction (functionRule fuel declarations role) := by
  refine .silent (.expect _ _) fun name => .silent (.expect _ _) fun _ => ?_
  refine .bind (functionRest_draws fuel hd .functionDecl role) fun result => ?_
  exact .pure fun i => by simp [FunctionDecl.references]

/-- A function without a name has the sites of its body. -/
theorem functionLiteralRule_draws (fuel : Nat) (hd : DrawsStmts declarations) (keyword : Token) :
    DrawsExpr (functionLiteralRule fuel declarations keyword) := by
  refine .silent (.expect _ _) fun _ => ?_
  refine .bind (functionRest_draws fuel hd .functionLiteral .function) fun result => ?_
  exact .pure fun i => by simp [Expr.references, FunctionDecl.references]

end Functions

/-! ## Classes -/

section Classes

variable {declarations : Parser (List Stmt)} {others members : Parser Members}

/-- A getter has the sites of its body. -/
theorem getterRule_draws (hd : DrawsStmts declarations) :
    DrawsFunction (getterRule declarations) := by
  have hrest (name : Token) : DrawsFunction (do
      let _ ← expect (Token.isMark .leftBrace) .classDecl .getterBodyOpen
      let body ← blockRule declarations
      return (⟨some name, name, [], body⟩ : FunctionDecl)) := by
    refine .silent (.expect _ _) fun _ => .bind (blockRule_draws hd) fun body => ?_
    exact .pure fun i => by simp [FunctionDecl.references]
  refine .silent (.expect _ _) fun name => .silent .takes fun parens => ?_
  cases parens with
  | true => exact .silent (.expect _ _) fun _ => hrest name
  | false => exact hrest name

/-- A setter has the sites of its body. -/
theorem setterRule_draws (fuel : Nat) (hd : DrawsStmts declarations) :
    DrawsFunction (setterRule fuel declarations) := by
  have hrest (name : Token) (names : List Token) : DrawsFunction (do
      let _ ← expect (Token.isMark .rightParen) .classDecl .setterClose
      let _ ← expect (Token.isMark .leftBrace) .classDecl .setterBodyOpen
      let body ← blockRule declarations
      return (⟨some (name.renamed (setterName name.lexeme)), name, names, body⟩ :
        FunctionDecl)) := by
    refine .silent (.expect _ _) fun _ => .silent (.expect _ _) fun _ => ?_
    refine .bind (blockRule_draws hd) fun body => ?_
    exact .pure fun i => by simp [FunctionDecl.references]
  refine .silent (.expect _ _) fun name => .silent (.expect _ _) fun _ => ?_
  refine .silent (parametersRule_silent fuel) fun names => ?_
  by_cases harity : names.length ≠ 1
  · simp only [harity, ne_eq, not_false_eq_true, if_true]
    exact .silent (.report _ _ _) fun _ => hrest name names
  · simp only [harity, if_false]
    exact hrest name names

theorem seesMarker_silent (marker : String) : Silent (seesMarker marker) :=
  Silent.sees.bind fun _ => Silent.seesSecond.bind fun _ => .pure _

/-- A member in front of others, whatever the kind. -/
theorem member_draws {d : Parser FunctionDecl} (add : FunctionDecl → Members → Members)
    (hd : DrawsFunction d) (ho : DrawsMembers others)
    (hadd : ∀ d rest i, (sitesOf (add d rest).references).count i ≤
      (sitesOf d.references ++ sitesOf rest.references).count i) :
    DrawsMembers (do
      let d ← d
      let rest ← others
      return add d rest) :=
  .bind hd fun d => .bind ho fun rest => .pure fun i => hadd d rest i

/-- A member goes before the others of its kind. The order of the sites changes by that, but not how
often each is there. -/
theorem memberRule_draws (fuel : Nat) (hd : DrawsStmts declarations) (ho : DrawsMembers others) :
    DrawsMembers (memberRule fuel declarations others) := by
  have hmethod := functionRule_draws fuel hd .method
  refine .silent .takes fun classMethod => .ite ?_ ?_
  · refine member_draws (fun d rest => { rest with classMethods := d :: rest.classMethods })
      hmethod ho fun d rest i => ?_
    simp only [Members.references, FunctionDecl.referencesAll, sitesOf_append, List.count_append]
    omega
  refine .silent (seesMarker_silent "get") fun getter => .ite ?_ ?_
  · refine .silent .take? fun _ => member_draws
      (fun d rest => { rest with getters := d :: rest.getters })
      (getterRule_draws hd) ho fun d rest i => ?_
    simp only [Members.references, FunctionDecl.referencesAll, sitesOf_append, List.count_append]
    omega
  refine .silent (seesMarker_silent "set") fun setter => .ite ?_ ?_
  · refine .silent .take? fun _ => member_draws
      (fun d rest => { rest with setters := d :: rest.setters })
      (setterRule_draws fuel hd) ho fun d rest i => ?_
    simp only [Members.references, FunctionDecl.referencesAll, sitesOf_append, List.count_append]
    omega
  · refine member_draws (fun d rest => { rest with methods := d :: rest.methods })
      hmethod ho fun d rest i => ?_
    simp only [Members.references, FunctionDecl.referencesAll, sitesOf_append, List.count_append]
    omega

/-- A superclass draws one site, and no superclass none. -/
theorem superclassRule_draws :
    Draws [] superclassRule fun clause => sitesOf (Expr.referencesOption clause) := by
  refine .silent .takes fun less => .ite ?_ ?_
  · refine .silent (.expect _ _) fun name => .freshSite fun site => .pure fun i => ?_
    simp [Expr.referencesOption, Expr.references]
  · exact .pure fun i => by simp [Expr.referencesOption]

/-- A class has the site of its superclass and those of its members. -/
theorem classRule_draws (hm : DrawsMembers members) : DrawsStmt (classRule members) := by
  refine .silent (.expect _ _) fun name => .bind superclassRule_draws fun superclass => ?_
  refine .silent (.expect _ _) fun _ => .bind hm fun ms => .silent (.expect _ _) fun _ => ?_
  refine .pure fun i => ?_
  simp only [Stmt.references, ClassDecl.references, Members.references, sitesOf_append,
    List.count_append, List.nil_append]
  omega

end Classes

/-! ## Statements -/

section Statements

variable {expression : Parser Expr} {statement : Parser Stmt} {declarations : Parser (List Stmt)}
variable {members : Parser Members}

/-- A constant has the sites of its value. -/
theorem constantRule_draws (he : DrawsExpr expression) : DrawsStmt (constantRule expression) := by
  refine .silent (.expect _ _) fun name => .silent (.expect _ _) fun _ => .bind he fun value => ?_
  exact .silent (.expect _ _) fun _ => .pure fun i => by simp [Stmt.references]

/-- An expression that may be absent. -/
theorem some_draws (he : DrawsExpr expression) :
    Draws [] (some <$> expression) fun e => sitesOf (Expr.referencesOption e) :=
  .map he fun e i => by simp [Expr.referencesOption]

/-- A variable has the sites of its value, if there is one. -/
theorem varRule_draws (he : DrawsExpr expression) : DrawsStmt (varRule expression) := by
  have hrest (name : Token) (value : Option Expr) :
      Draws (sitesOf (Expr.referencesOption value)) (do
        let _ ← expect (Token.isMark .semicolon) .varDecl .varEnd
        return Stmt.var name value) fun s => sitesOf s.references :=
    .silent (.expect _ _) fun _ => .pure fun i => Nat.le_refl _
  have hnone : Draws [] (pure none : Parser (Option Expr)) fun e =>
      sitesOf (Expr.referencesOption e) := .pure fun i => Nat.le_refl _
  exact .silent (.expect _ _) fun name => .silent .takes fun equals =>
    .ite (.bind (some_draws he) (hrest name)) (.bind hnone (hrest name))

/-- An expression as a statement keeps its sites. -/
theorem expressionRule_draws (he : DrawsExpr expression) :
    DrawsStmt (expressionRule expression) :=
  .bind he fun value => .silent (.expect _ _) fun _ => .pure fun i => by simp [Stmt.references]

/-- A clause that may be absent. -/
theorem optionalUntil_draws (mark : Mark) (he : DrawsExpr expression) :
    Draws [] (optionalUntil mark expression) fun e => sitesOf (Expr.referencesOption e) := by
  refine .silent .sees fun ended => .ite ?_ (some_draws he)
  exact .pure fun i => by simp [Expr.referencesOption]

/-- The start of a `for`: a variable, an expression or nothing. -/
theorem forStart_draws (he : DrawsExpr expression) :
    Draws [] (forStart expression) fun s => sitesOf (Stmt.referencesOption s) := by
  refine .silent .takes fun nothing => .ite (.pure fun i => by simp [Stmt.referencesOption]) ?_
  refine .silent .takes fun isVar => .ite ?_ ?_
  · exact .map (varRule_draws he) fun s i => by simp [Stmt.referencesOption]
  · exact .map (expressionRule_draws he) fun s i => by simp [Stmt.referencesOption]

/-- The loop that a `for` stands for has the references of its clauses and its body. -/
theorem forLoop_count (start : Option Stmt) (condition increment : Option Expr) (body : Stmt)
    (i : Site) :
    (sitesOf (forLoop start condition increment body).references).count i ≤
      (sitesOf (Stmt.referencesOption start) ++ sitesOf (Expr.referencesOption condition) ++
        sitesOf (Expr.referencesOption increment) ++ sitesOf body.references).count i := by
  have hcondition : (condition.getD (.literal .true)).references =
      Expr.referencesOption condition := by
    cases condition <;> rfl
  unfold forLoop
  cases start with
  | none =>
    simp only [Stmt.references, hcondition, Stmt.referencesOption, sitesOf_append, sitesOf_nil,
      List.count_append, List.nil_append]
    omega
  | some s =>
    simp only [Stmt.references, Stmt.referencesAll, hcondition, Stmt.referencesOption,
      sitesOf_append, List.count_append, List.append_nil]
    omega

/-- A `for` has the sites of its start, its condition, its increment and its body, each drawn in its
turn, though the tree holds them in another order. -/
theorem forRule_draws (he : DrawsExpr expression) (hs : DrawsStmt statement) :
    DrawsStmt (forRule expression statement) := by
  refine .silent (.expect _ _) fun _ => .bind (forStart_draws he) fun start => ?_
  refine .bind (optionalUntil_draws .semicolon he) fun condition => ?_
  refine .silent (.expect _ _) fun _ => ?_
  refine .bind (optionalUntil_draws .rightParen he) fun increment => ?_
  refine .silent (.expect _ _) fun _ => .bind hs fun body => .pure fun i => ?_
  exact forLoop_count start condition increment body i

/-- An `if` has the sites of its condition and its branches. -/
theorem ifRule_draws (he : DrawsExpr expression) (hs : DrawsStmt statement) :
    DrawsStmt (ifRule expression statement) := by
  refine .silent (.expect _ _) fun _ => .bind he fun condition => .silent (.expect _ _) fun _ => ?_
  have hsome : Draws [] (some <$> statement) fun s => sitesOf (Stmt.referencesOption s) :=
    .map hs fun s i => by simp [Stmt.referencesOption]
  have hnone : Draws [] (pure none : Parser (Option Stmt)) fun s =>
      sitesOf (Stmt.referencesOption s) := .pure fun i => Nat.le_refl _
  refine .bind hs fun whenTrue => .silent .takes fun hasElse => .ite ?_ ?_
  · exact .bind hsome fun whenFalse => .pure fun i => by simp [Stmt.references]
  · exact .bind hnone fun whenFalse => .pure fun i => by simp [Stmt.references]

/-- A `while` has the sites of its condition and its body. -/
theorem whileRule_draws (he : DrawsExpr expression) (hs : DrawsStmt statement) :
    DrawsStmt (whileRule expression statement) := by
  refine .silent (.expect _ _) fun _ => .bind he fun condition => .silent (.expect _ _) fun _ => ?_
  exact .bind hs fun body => .pure fun i => by simp [Stmt.references, Expr.referencesOption]

/-- An `input` draws a site for its variable. -/
theorem inputRule_draws (keyword : Token) : DrawsStmt (inputRule keyword) := by
  refine .silent (.expect _ _) fun name => .silent (.expect _ _) fun _ => .freshSite fun site => ?_
  exact .pure fun i => by simp [Stmt.references, Expr.references]

/-- A `print` has the sites of its value. -/
theorem printRule_draws (he : DrawsExpr expression) (keyword : Token) :
    DrawsStmt (printRule expression keyword) :=
  .bind he fun value => .silent (.expect _ _) fun _ => .pure fun i => by simp [Stmt.references]

/-- A `return` has the sites of its value, if there is one. -/
theorem returnRule_draws (he : DrawsExpr expression) (keyword : Token) :
    DrawsStmt (returnRule expression keyword) := by
  refine .bind (optionalUntil_draws .semicolon he) fun value => .silent (.expect _ _) fun _ => ?_
  exact .pure fun i => by simp [Stmt.references]

/-- Every kind of statement draws its sites. -/
theorem statementRule_draws (he : DrawsExpr expression) (hs : DrawsStmt statement)
    (hd : DrawsStmts declarations) :
    DrawsStmt (statementRule expression statement declarations) := by
  refine .silent .take? fun t? => ?_
  cases t? with
  | none => exact expressionRule_draws he
  | some t =>
    dsimp only
    split
    next => exact .silent (.expect _ _) fun _ => .pure fun i => by simp [Stmt.references]
    next => exact .silent (.expect _ _) fun _ => .pure fun i => by simp [Stmt.references]
    next => exact forRule_draws he hs
    next => exact ifRule_draws he hs
    next => exact inputRule_draws t
    next => exact printRule_draws he t
    next => exact returnRule_draws he t
    next => exact whileRule_draws he hs
    next => exact .pure fun i => by simp [Stmt.references]
    next => exact .map (blockRule_draws hd) fun body i => by simp [Stmt.references]

/-- Every kind of declaration draws its sites. -/
theorem declarationRule_draws (fuel : Nat) (he : DrawsExpr expression) (hs : DrawsStmt statement)
    (hd : DrawsStmts declarations) (hm : DrawsMembers members) :
    DrawsStmt (declarationRule fuel expression statement declarations members) := by
  have hnamed : DrawsStmt (do
      if ← takes (Token.isKeyword .funKw) then
        .functionDecl <$> functionRule fuel declarations .function
      else if ← takes (Token.isKeyword .valKw) then constantRule expression
      else if ← takes (Token.isKeyword .varKw) then varRule expression
      else statement) := by
    refine .silent .takes fun isFun => .ite ?_ ?_
    · exact .map (functionRule_draws fuel hd .function) fun d i => by simp [Stmt.references]
    refine .silent .takes fun isVal => .ite (constantRule_draws he) ?_
    exact .silent .takes fun isVar => .ite (varRule_draws he) hs
  refine .silent .takes fun isClass => .ite (classRule_draws hm) ?_
  refine .silent .sees fun isFun => ?_
  exact .silent .seesSecond fun isParen => .ite hs hnamed

end Statements

/-! ## The rules tied together -/

/-- With this fuel every rule draws the sites of what it gives. -/
structure Drawing (fuel : Nat) : Prop where
  binary (level : Level) : DrawsExpr (binary fuel level)
  binaryRest (level : Level) (left : Expr) :
    Draws (sitesOf left.references) (binaryRest fuel level left) fun e => sitesOf e.references
  operand (level : Level) : DrawsExpr (operand fuel level)
  assignment : DrawsExpr (assignment fuel)
  conditional : DrawsExpr (conditional fuel)
  unary : DrawsExpr (unary fuel)
  call : DrawsExpr (call fuel)
  callRest (callee : Expr) :
    Draws (sitesOf callee.references) (callRest fuel callee) fun e => sitesOf e.references
  arguments (count : Nat) :
    Draws [] (arguments fuel count) fun es => sitesOf (Expr.referencesAll es)
  primary : DrawsExpr (primary fuel)
  declarations (inBlock : Bool) : DrawsStmts (declarations fuel inBlock)
  declaration : DrawsStmt (declaration fuel)
  statement : DrawsStmt (statement fuel)
  members : DrawsMembers (members fuel)

/-- Without fuel no rule gives anything. -/
theorem drawing_zero : Drawing 0 where
  binary _ := .outOfFuel
  binaryRest _ _ := .outOfFuel
  operand _ := .outOfFuel
  assignment := .outOfFuel
  conditional := .outOfFuel
  unary := .outOfFuel
  call := .outOfFuel
  callRest _ := .outOfFuel
  arguments _ := .outOfFuel
  primary := .outOfFuel
  declarations _ := .outOfFuel
  declaration := .outOfFuel
  statement := .outOfFuel
  members := .outOfFuel

section Step

variable {fuel : Nat} (drawing : Drawing fuel)

include drawing

/-- Operators to the right of an operand: the sites of their operands come after its own. -/
theorem Drawing.binaryRest_step (level : Level) (left : Expr) :
    Draws (sitesOf left.references) (Grammar.binaryRest (fuel + 1) level left)
      fun e => sitesOf e.references := by
  refine .silent .take? fun operator? => ?_
  cases operator? with
  | none => exact .pure fun i => Nat.le_refl _
  | some operator =>
    refine .bind (drawing.operand level) fun right => ?_
    have hjoin : sitesOf left.references ++ sitesOf right.references =
        sitesOf (level.join left operator right).references := by
      cases level <;> simp [Level.join, Expr.references]
    rw [hjoin]
    exact drawing.binaryRest level _

/-- The operands of a level are the next tighter level, or unary. -/
theorem Drawing.operand_step (level : Level) : DrawsExpr (Grammar.operand (fuel + 1) level) := by
  cases level with
  | comma => exact drawing.assignment
  | or => exact drawing.binary .and
  | and => exact drawing.binary .equality
  | equality => exact drawing.binary .comparison
  | comparison => exact drawing.binary .term
  | term => exact drawing.binary .factor
  | factor => exact drawing.unary

/-- Calls and properties behind a callee: what they draw comes after its own sites. -/
theorem Drawing.callRest_step (callee : Expr) :
    Draws (sitesOf callee.references) (Grammar.callRest (fuel + 1) callee)
      fun e => sitesOf e.references := by
  refine .silent .takes fun paren => .ite ?_ ?_
  · refine .bind (argumentsRule_draws (drawing.arguments 0)) fun result => ?_
    have hcall := drawing.callRest (.call callee result.2 result.1)
    rwa [Expr.references, sitesOf_append] at hcall
  refine .silent .takes fun dot => .ite ?_ (.pure fun i => Nat.le_refl _)
  exact .silent (.expect _ _) fun name => drawing.callRest (.get callee name)

/-- Arguments go on behind each comma. -/
theorem Drawing.arguments_step (count : Nat) :
    Draws [] (Grammar.arguments (fuel + 1) count) fun es => sitesOf (Expr.referencesAll es) := by
  have hrow : Draws [] (do
      let value ← Grammar.assignment fuel
      if ← takes (Token.isMark .comma) then
        return value :: (← Grammar.arguments fuel (count + 1))
      else return [value]) fun es => sitesOf (Expr.referencesAll es) := by
    refine .bind drawing.assignment fun value => .silent .takes fun comma => .ite ?_ ?_
    · refine .bind (drawing.arguments (count + 1)) fun values => .pure fun i => ?_
      simp [Expr.referencesAll]
    · exact .pure fun i => by simp [Expr.referencesAll]
  unfold Grammar.arguments
  by_cases hcount : maxArity ≤ count
  · simp only [hcount, if_true]
    exact .silent .peek fun t => .silent (.report _ _ _) fun _ => hrow
  · simp only [hcount, if_false]
    exact hrow

/-- What is read by its first token. -/
theorem Drawing.primary_step : DrawsExpr (Grammar.primary (fuel + 1)) := by
  unfold Grammar.primary
  refine .silent .take? fun t? => ?_
  cases t? with
  | none => exact .silent .peek fun t => .refuse _ t _
  | some t =>
    dsimp only
    split
    next => exact .freshSite fun site => .pure fun i => by simp [Expr.references]
    next => exact inheritedRule_draws t
    next => exact functionLiteralRule_draws fuel (drawing.declarations true) t
    next => exact .freshSite fun site => .pure fun i => by simp [Expr.references]
    next => exact groupRule_draws (drawing.binary .comma)
    next =>
      split
      next => exact .pure fun i => by simp [Expr.references]
      next => exact .refuse _ t _

/-- Declarations go on up to the end. One that is refused leaves no sites behind, and the counter
stands further on. -/
theorem Drawing.declarations_step (inBlock : Bool) :
    DrawsStmts (Grammar.declarations (fuel + 1) inBlock) := by
  have hmore : DrawsStmts (do
      let first ← recovering (Grammar.declaration fuel)
      let rest ← Grammar.declarations fuel inBlock
      return first.toList ++ rest) := by
    refine .bind drawing.declaration.recovering fun first => ?_
    refine .bind (drawing.declarations inBlock) fun rest => .pure fun i => ?_
    cases first with
    | none => simp
    | some s => simp [Stmt.referencesAll]
  unfold Grammar.declarations
  refine .silent .get fun c => .silent .sees fun closed => .ite ?_ hmore
  exact .pure fun i => Nat.le_refl _

/-- Members go on up to the closing brace. -/
theorem Drawing.members_step : DrawsMembers (Grammar.members (fuel + 1)) := by
  unfold Grammar.members
  refine .silent .get fun c => .silent .sees fun closed => .ite ?_ ?_
  · exact .pure fun i => Nat.le_refl _
  · exact memberRule_draws fuel (drawing.declarations true) drawing.members

/-- All rules draw their sites with one more unit of fuel. -/
theorem Drawing.step : Drawing (fuel + 1) where
  binary level := .bind (drawing.operand level) fun left => drawing.binaryRest level left
  binaryRest := drawing.binaryRest_step
  operand := drawing.operand_step
  assignment := assignmentRule_draws drawing.conditional drawing.assignment
  conditional :=
    conditionalRule_draws (drawing.binary .or) (drawing.binary .comma) drawing.conditional
  unary := unaryRule_draws drawing.unary drawing.call
  call := .bind drawing.primary fun callee => drawing.callRest callee
  callRest := drawing.callRest_step
  arguments := drawing.arguments_step
  primary := drawing.primary_step
  declarations := drawing.declarations_step
  declaration := declarationRule_draws fuel (drawing.binary .comma) drawing.statement
    (drawing.declarations true) drawing.members
  statement := statementRule_draws (drawing.binary .comma) drawing.statement
    (drawing.declarations true)
  members := drawing.members_step

end Step

theorem drawing (fuel : Nat) : Drawing fuel := by
  induction fuel with
  | zero => exact drawing_zero
  | succ fuel ih => exact ih.step

/-- The expression that a whole text is has the sites that its parse drew. -/
theorem wholeExpression_draws (fuel : Nat) :
    Draws [] (wholeExpression fuel) fun e => sitesOf (Expr.referencesOption e) := by
  refine .bind ((drawing fuel).binary .comma) fun value => .silent .get fun c => .ite ?_ ?_
  · exact .pure fun i => by simp [Expr.referencesOption]
  · refine .silent .peek fun t => .silent (.report _ _ _) fun _ => .pure fun i => ?_
    simp [Expr.referencesOption]

end Grammar

/-- Parsing draws the sites of the tree that it gives. -/
theorem Parser.run_drawn {α : Type} {rule : Nat → Parser α} {S : α → List Site}
    (hrule : ∀ fuel, Parser.Draws [] (rule fuel) S) (tokens : List Token) (nextSite : Site) :
    nextSite ≤ (Parser.run rule tokens nextSite).nextSite ∧
      ∀ a, (Parser.run rule tokens nextSite).tree = some a →
        Drawn nextSite (Parser.run rule tokens nextSite).nextSite (S a) := by
  have hrun := hrule (Grammar.fuelFor (Cursor.start tokens nextSite).unread.length) nextSite
    (Cursor.start tokens nextSite) (.nil (Nat.le_refl _))
  unfold Parser.run
  dsimp only
  split
  next a c heq =>
    rw [heq] at hrun
    refine ⟨hrun.1, fun b hb => ?_⟩
    cases hb
    exact hrun.2
  next e c heq =>
    rw [heq] at hrun
    exact ⟨hrun, fun _ h => nomatch h⟩
  next c heq =>
    rw [heq] at hrun
    exact ⟨hrun, fun _ h => nomatch h⟩

/-- The references of a program that is parsed have sites that no reference has yet, all
different. -/
theorem Program.parse_drawn (tokens : List Token) (nextSite : Site) :
    Drawn nextSite (Program.parse tokens nextSite).nextSite
      (sitesOf (Stmt.referencesAll (Program.parse tokens nextSite).tree)) := by
  obtain ⟨hle, htree⟩ := Parser.run_drawn
    (fun fuel => (Grammar.drawing fuel).declarations false) tokens nextSite
  unfold Program.parse
  dsimp only
  cases hrun : (Parser.run (fun fuel => Grammar.declarations fuel false) tokens nextSite).tree with
  | none => exact .nil hle
  | some ss => exact htree ss hrun

/-- The references of a parsed expression have sites of their own, all drawn in that parse. -/
theorem Expr.parse_drawn (tokens : List Token) (nextSite : Site) :
    nextSite ≤ (Expr.parse tokens nextSite).nextSite ∧
      ∀ e, (Expr.parse tokens nextSite).tree = some e →
        Drawn nextSite (Expr.parse tokens nextSite).nextSite (sitesOf e.references) := by
  obtain ⟨hle, htree⟩ := Parser.run_drawn Grammar.wholeExpression_draws tokens nextSite
  refine ⟨hle, fun e he => ?_⟩
  exact htree (some e) (Option.join_eq_some_iff.mp he)

end Lox
