import Lox.Proofs.Grammar.Induction
import Lox.Proofs.Token.Spelled
import Lox.Proofs.Tree.Renamed
import Lox.Proofs.Twin.Alike

/-!
# Renaming is another writing

A program with renamed variables is the program in another writing, as long as the new name does not
occur in it (`Derives.alike_renamed`), and it is a program again: the grammar derives it from the
tokens with their names changed (`Derives.renamed`).
-/

namespace Lox

open Grammar

/-! ## Names -/

/-- The token can stand in a text in which the new name does not occur. -/
def Renaming.Admits (r : Renaming) (t : Token) : Prop :=
  t.Spelled ∧ t.lexeme ≠ r.new

/-- The variation is for programs with variables renamed so. -/
structure Variation.Renames (v : Variation) (r : Renaming) : Prop where
  change : v.change = some (r.old, r.new)
  table : v.table = r.table
  known : ∀ i, v.known i i

namespace Variation.Renames

variable {v : Variation} {r : Renaming} (hv : v.Renames r)

include hv

/-- A name other than the new one is not the new one. -/
theorem fresh {name : String} (hfresh : name ≠ r.new) : v.Fresh name := by
  intro names hnames
  rw [hv.change] at hnames
  cases hnames
  exact hfresh

/-- A name is renamed in marked scopes only. -/
theorem names {t : Token} (hfresh : t.lexeme ≠ r.new) (mark : Bool) :
    v.Names mark t (r.token mark t) := by
  refine ⟨hv.fresh hfresh, .inl ?_⟩
  unfold Renaming.token Variation.name
  rw [hv.change]
  dsimp only
  split <;> rfl

/-- A reference is renamed where its distance leads to a marked scope. -/
theorem reference {t : Token} (hfresh : t.lexeme ≠ r.new) (marks : List Bool) (site : Site) :
    v.Names (v.marked marks site) t (r.reference marks site t) := by
  have hmarked : v.marked marks site = r.refersTo marks site := by
    unfold Variation.marked
    rw [hv.table]
    rfl
  rw [hmarked]
  exact hv.names hfresh _

/-- The name of a function or a class stays. -/
theorem stays {name : String} {mark : Bool} (hfresh : name ≠ r.new)
    (hfixed : mark = true → name ≠ r.old) : v.Stays mark name := by
  refine ⟨hv.fresh hfresh, ?_⟩
  unfold Variation.name
  rw [hv.change]
  dsimp only
  cases mark with
  | false => rfl
  | true => simp [hfixed rfl]

end Variation.Renames

namespace Grammar

variable {v : Variation} {r : Renaming}

/-! ## Trees -/

/-- No statement declares a function or class of the old name in a marked scope. -/
def Fixes (r : Renaming) (marks : List Bool) (ss : List Stmt) : Prop :=
  marks.headD false = true → ∀ s ∈ ss, s.fixedName? ≠ some r.old

/-- A scope is only marked if none of its functions and classes has the old name. -/
theorem fixes_mark (r : Renaming) (n : Nat) (marks : List Bool) (body : List Stmt) :
    Fixes r (r.mark n body :: marks) body := by
  intro hmark s hs
  unfold Renaming.mark at hmark
  have hall := (Bool.and_eq_true_iff.mp hmark).2
  exact bne_iff_ne.mp (List.all_eq_true.mp hall s hs)

/-- Functions with renamed variables are the functions in another writing. -/
def RowAlikeRenamed (v : Variation) (r : Renaming) (ds : List FunctionDecl) : Prop :=
  ∀ n marks, Alike v marks (.functions ds) (.functions (FunctionDecl.renamedAll r n marks ds))

/-- A function before others in a row. -/
theorem RowAlikeRenamed.cons {d : FunctionDecl} {ds : List FunctionDecl}
    (hd : ∀ n marks, Alike v marks (.function d) (.function (d.renamed r n marks)))
    (hds : RowAlikeRenamed v r ds) : RowAlikeRenamed v r (d :: ds) :=
  fun _ _ => .nextFunction (hd _ _) (hds _ _)

/-- The tree of the phrase with renamed variables is the tree in another writing. -/
def Phrase.AlikeRenamed (v : Variation) (r : Renaming) : Phrase → Prop
  | .expression _ e => ∀ n marks, Alike v marks (.expression e) (.expression (e.renamed r n marks))
  | .optional e =>
    ∀ n marks, Alike v marks (.optional e) (.optional (Expr.renamedOption r n marks e))
  | .arguments es | .argumentRow es =>
    ∀ n marks, Alike v marks (.expressions es) (.expressions (Expr.renamedAll r n marks es))
  | .parameters names | .parameterRow names =>
    ∀ mark, List.Forall₂ (v.Names mark) names (names.map (r.token mark))
  | .block ss | .declarations ss =>
    ∀ n marks, Fixes r marks ss →
      Alike v marks (.statements ss) (.statements (Stmt.renamedAll r n marks ss))
  | .function d =>
    (∃ name, d.name = some name ∧ name.lexeme ≠ r.new) ∧
      ∀ n marks, Alike v marks (.function d) (.function (d.renamed r n marks))
  | .getter d | .setter d =>
    ∀ n marks, Alike v marks (.function d) (.function (d.renamed r n marks))
  | .members ms =>
    RowAlikeRenamed v r ms.methods ∧ RowAlikeRenamed v r ms.classMethods ∧
      RowAlikeRenamed v r ms.getters ∧ RowAlikeRenamed v r ms.setters
  | .forStart s =>
    ∀ n marks, Alike v marks (.otherwise s) (.otherwise (Stmt.renamedOption r n marks s))
  | .varDecl s | .expressionStatement s | .statement _ s =>
    ∀ n marks, Alike v marks (.statement s) (.statement (s.renamed r n marks))
  | .declaration s =>
    ∀ n marks, Fixes r marks [s] →
      Alike v marks (.statement s) (.statement (s.renamed r n marks))

/-- A function with its parameters and its body renamed as one scope. -/
theorem alike_renamed_function {name : Option Token} {keyword : Token}
    {parameters : List Token} {body : List Stmt}
    (hp : ∀ mark, List.Forall₂ (v.Names mark) parameters (parameters.map (r.token mark)))
    (hb : ∀ n marks, Fixes r marks body →
      Alike v marks (.statements body) (.statements (Stmt.renamedAll r n marks body)))
    (n : Nat) (marks : List Bool) :
    Alike v marks (.function ⟨name, keyword, parameters, body⟩)
      (.function (FunctionDecl.renamed r n marks ⟨name, keyword, parameters, body⟩)) := by
  have hname : Option.Rel v.Keeps name name := by
    cases name with
    | none => exact .none
    | some name => exact .some (.inl rfl)
  exact .parts (r.mark n body) hname (.inl rfl) (hp _) (hb _ _ (fixes_mark r n marks body))

/-- A class with its members renamed, each kind behind the one before. -/
theorem alike_renamed_class (hv : v.Renames r) {name : Token} {superclass : Option Expr}
    {ms : Members} (hname : name.lexeme ≠ r.new)
    (hsuperclass : ∀ n marks,
      Alike v marks (.optional superclass) (.optional (Expr.renamedOption r n marks superclass)))
    (hms : (Phrase.members ms).AlikeRenamed v r) {n : Nat} {marks : List Bool}
    (hfixes : Fixes r marks
      [.classDecl ⟨name, superclass, ms.methods, ms.classMethods, ms.getters, ms.setters⟩]) :
    Alike v marks
      (.statement (.classDecl
        ⟨name, superclass, ms.methods, ms.classMethods, ms.getters, ms.setters⟩))
      (.statement (Stmt.renamed r n marks (.classDecl
        ⟨name, superclass, ms.methods, ms.classMethods, ms.getters, ms.setters⟩))) := by
  have hstays : v.Stays (marks.headD false) name.lexeme :=
    hv.stays hname fun hmark heq => hfixes hmark _ (List.mem_singleton_self _) (congrArg some heq)
  obtain ⟨hmethods, hclassMethods, hgetters, hsetters⟩ := hms
  exact .classDecl hstays (.inl rfl) (hsuperclass _ _) (hmethods _ _) (hclassMethods _ _)
    (hgetters _ _) (hsetters _ _)

/-- The loop that stands for a `for`, with its clauses renamed. -/
theorem alike_renamed_forLoop {start : Option Stmt} {condition increment : Option Expr}
    {body : Stmt}
    (hs : (Phrase.forStart start).AlikeRenamed v r)
    (hc : (Phrase.optional condition).AlikeRenamed v r)
    (hi : (Phrase.optional increment).AlikeRenamed v r)
    (hb : ∀ n marks, Alike v marks (.statement body) (.statement (body.renamed r n marks)))
    (n : Nat) (marks : List Bool) :
    Alike v marks (.statement (forLoop start condition increment body))
      (.statement ((forLoop start condition increment body).renamed r n marks)) := by
  have hcondition : ∀ n marks, Alike v marks (.expression (condition.getD (.literal .true)))
      (.expression ((condition.getD (.literal .true)).renamed r n marks)) := by
    intro n marks
    cases condition with
    | none => exact .literal _
    | some e =>
      cases hc n marks with
      | present he => exact he
  have hloop : ∀ n marks, Alike v marks
      (.statement (.loop (condition.getD (.literal .true)) body increment))
      (.statement (Stmt.renamed r n marks
        (.loop (condition.getD (.literal .true)) body increment))) :=
    fun n marks => .loop (hcondition _ _) (hb _ _) (hi _ _)
  cases start with
  | none => exact hloop n marks
  | some s =>
    refine .block _ (.nextStatement ?_ (.nextStatement (hloop _ _) .noStatements))
    cases hs (n + 1)
        (r.mark n [s, .loop (condition.getD (.literal .true)) body increment] :: marks) with
    | someOtherwise hs => exact hs

/-! ## Rules of the grammar -/

/-- The rules for expressions. A keyword `this` or `super` is in both writings what it is. -/
theorem alike_expressions (hv : v.Renames r) :
    ExpressionClosed r.Admits fun phrase _ => phrase.AlikeRenamed v r where
  tighter _ he := he
  joined := by
    intro level left right operator ls rs hl _ hr _ n marks
    cases level with
    | or => exact .logical (hl _ _) (.inl rfl) (hr _ _)
    | and => exact .logical (hl _ _) (.inl rfl) (hr _ _)
    | _ => exact .binary (hl _ _) (.inl rfl) (hr _ _)
  assign _ _ hvalue hadmits := fun _ _ =>
    .assign (hv.known _) (hv.reference hadmits.2 _ _) (hvalue _ _)
  set ho _ _ _ hvalue _ := fun _ _ => .set (ho _ _) (.inl rfl) (hvalue _ _)
  conditional hc _ ht _ hf := fun _ _ => .choice (hc _ _) (ht _ _) (hf _ _)
  unary _ he _ := fun _ _ => .unary (.inl rfl) (he _ _)
  call hc _ ha _ _ := fun _ _ => .call (hc _ _) (.inl rfl) (ha _ _)
  get ho _ _ _ := fun _ _ => .get (ho _ _) (.inl rfl)
  literal _ := fun _ _ => .literal _
  name _ hadmits := fun _ _ => .name (hv.known _) (hv.reference hadmits.2 _ _)
  receiver := by
    intro site keyword hk hadmits n marks
    have hthis := hadmits.1.lexeme_this hk
    exact .receiver (hv.known _) ((hthis ▸ Variation.stays_this _ : v.Stays _ _).names (.inl rfl))
  inherited := by
    intro site keyword dot method hk _ _ hadmits _ n marks
    have hsuper := hadmits.1.lexeme_super hk
    exact .inherited (hv.known _)
      ((hsuper ▸ Variation.stays_super _ : v.Stays _ _).names (.inl rfl)) (.inl rfl)
  group _ he _ := fun _ _ => .group (he _ _)
  functionLiteral _ _ hp _ hb _ := fun n marks =>
    .functionLiteral (alike_renamed_function hp hb n marks)
  absent := fun _ _ => .absent
  present he := fun n marks => .present (he n marks)
  noArguments := fun _ _ => .noExpressions
  someArguments he _ := he
  lastArgument he := fun n marks => .nextExpression (he n marks) .noExpressions
  nextArgument he _ hes := fun _ _ => .nextExpression (he _ _) (hes _ _)

/-- The rules for functions and members. -/
theorem alike_members (hv : v.Renames r) :
    MemberClosed r.Admits fun phrase _ => phrase.AlikeRenamed v r where
  noParameters := fun _ => .nil
  someParameters hn _ := hn
  lastParameter _ hadmits := fun mark => .cons (hv.names hadmits.2 mark) .nil
  nextParameter _ _ hs hadmits := fun mark => .cons (hv.names hadmits.2 mark) (hs mark)
  block _ hb _ := hb
  function _ _ hp _ hb hadmits := ⟨⟨_, rfl, hadmits.2⟩, alike_renamed_function hp hb⟩
  getter _ hb _ := alike_renamed_function (fun _ => .nil) hb
  getterParens _ _ _ hb _ := alike_renamed_function (fun _ => .nil) hb
  setter _ _ _ _ hb _ hadmits :=
    alike_renamed_function (fun mark => .cons (hv.names hadmits.2 mark) .nil) hb
  noMembers := by
    have hnone : RowAlikeRenamed v r [] := fun _ _ => .noFunctions
    exact ⟨hnone, hnone, hnone, hnone⟩
  nextMethod hd hr := ⟨.cons hd.2 hr.1, hr.2⟩
  nextClassMethod _ hd hr := ⟨hr.1, .cons hd.2 hr.2.1, hr.2.2⟩
  nextGetter _ hd hr := ⟨hr.1, hr.2.1, .cons hd hr.2.2.1, hr.2.2.2⟩
  nextSetter _ hd hr := ⟨hr.1, hr.2.1, hr.2.2.1, .cons hd hr.2.2.2⟩

/-- The rules for statements and declarations. A function or a class keeps its name, since it fixes
the old one in the scope that declares it. -/
theorem alike_statements (hv : v.Renames r) :
    StatementClosed r.Admits fun phrase _ => phrase.AlikeRenamed v r where
  varDecl _ _ _ hadmits := fun _ _ => .var (hv.names hadmits.2 _) .absent
  varDeclValue _ _ _ hvalue _ hadmits := fun _ _ =>
    .var (hv.names hadmits.2 _) (.present (hvalue _ _))
  expressionStatement h _ := fun _ _ => .expressionStatement (h _ _)
  continueLoop _ _ _ := fun _ _ => .continueLoop (.inl rfl)
  breakLoop _ _ _ := fun _ _ => .breakLoop (.inl rfl)
  empty _ := fun _ _ => .empty
  startNothing _ := fun _ _ => .noOtherwise
  startVar hs := fun n marks => .someOtherwise (hs n marks)
  startExpression hs := fun n marks => .someOtherwise (hs n marks)
  forLoop _ _ hs hc _ hi _ hb := alike_renamed_forLoop hs hc hi hb
  ifThen _ _ hc _ ht := fun _ _ => .conditional (hc _ _) (ht _ _) .noOtherwise
  ifThenElse _ _ hc _ ht _ hf := fun _ _ =>
    .conditional (hc _ _) (ht _ _) (.someOtherwise (hf _ _))
  input _ _ _ _ hadmits := fun _ _ =>
    .input (.inl rfl) (.name (hv.known _) (hv.reference hadmits.2 _ _))
  print _ hvalue _ _ := fun _ _ => .print (.inl rfl) (hvalue _ _)
  returnValue _ hvalue _ _ := fun _ _ => .returnValue (.inl rfl) (hvalue _ _)
  whileLoop _ _ hc _ hb := fun _ _ => .loop (hc _ _) (hb _ _) .absent
  blockStatement hb := fun _ _ => .block _ (hb _ _ (fixes_mark _ _ _ _))
  plain hs := hs
  classDecl _ _ _ hm _ hadmits := fun _ _ =>
    alike_renamed_class hv hadmits.2 (fun _ _ => .absent) hm
  derivedClass _ _ _ _ _ hm _ hadmits hparent := fun _ _ =>
    alike_renamed_class hv hadmits.2
      (fun _ _ => .present (.name (hv.known _) (hv.reference hparent.2 _ _))) hm
  functionDecl := by
    rintro keyword d ts _ ⟨⟨name, hname, hfresh⟩, halike⟩ n marks hfixes
    -- a scope that declares a function of the old name is not marked, so the name stays
    have hfixed : marks.headD false = true → name.lexeme ≠ r.old := fun hmark heq =>
      hfixes hmark _ (List.mem_singleton_self _) (by simp [Stmt.fixedName?, hname, heq])
    refine .functionDecl ?_ (halike n marks)
    rw [hname]
    exact hv.stays hfresh hfixed
  constant _ _ _ hvalue _ hadmits := fun _ _ _ => .constant (hv.names hadmits.2 _) (hvalue _ _)
  var hs := fun n marks _ => hs n marks
  statement hs := fun n marks _ => hs n marks
  noDeclarations := fun _ _ _ => .noStatements
  nextDeclaration hs hr := fun _ _ hfixes => .nextStatement
    (hs _ _ fun hmark s hs => hfixes hmark s (by simp_all))
    (hr _ _ fun hmark s hs => hfixes hmark s (by simp [hs]))

/-- The tree of a derivation from tokens among which the new name does not occur. -/
theorem Derives.alike_renamed (hv : v.Renames r) {phrase : Phrase} {ts : List Token}
    (h : Derives phrase ts) (hts : ∀ t ∈ ts, t.Spelled ∧ t.lexeme ≠ r.new) :
    phrase.AlikeRenamed v r :=
  h.closed (alike_expressions hv) (alike_members hv) (alike_statements hv) hts

end Grammar

end Lox
