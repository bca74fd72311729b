import Mathlib.Data.List.Forall2
import Lox.Proofs.Grammar.Induction
import Lox.Proofs.Tree.Renamed

/-!
# Renaming in the tokens

A program with renamed variables is a program of the grammar: the grammar derives it from the tokens
of the program with the new name in place of the old one in some of them (`Derives.renamed`). Names
are all alike to the grammar, and so the derivation is the same.
-/

namespace Lox

namespace Renaming

variable (r : Renaming)

/-- The token is the same, or a new name in the place of an old one. -/
def Turns (t t' : Token) : Prop :=
  t' = t ∨ (t.lexeme = r.old ∧ t' = t.renamed r.new)

theorem turns_token (mark : Bool) (t : Token) : r.Turns t (r.token mark t) := by
  unfold token
  split
  next h => exact .inr ⟨of_decide_eq_true (Bool.and_eq_true_iff.mp h).2, rfl⟩
  next => exact .inl rfl

@[simp] theorem token_isIdentifier (mark : Bool) (t : Token) :
    (r.token mark t).isIdentifier = t.isIdentifier := by
  unfold token
  split <;> rfl

@[simp] theorem reference_isIdentifier (marks : List Bool) (site : Site) (t : Token) :
    (r.reference marks site t).isIdentifier = t.isIdentifier :=
  r.token_isIdentifier _ t

theorem turns_refl (ts : List Token) : List.Forall₂ r.Turns ts ts :=
  List.forall₂_same.mpr fun _ _ => .inl rfl

end Renaming

theorem Expr.length_renamedAll (r : Renaming) (n : Nat) (marks : List Bool) (es : List Expr) :
    (Expr.renamedAll r n marks es).length = es.length := by
  induction es generalizing n with
  | nil => rfl
  | cons e es ih => exact congrArg (· + 1) (ih _)

theorem Level.renamed_join (r : Renaming) (n : Nat) (marks : List Bool) (level : Level)
    (left right : Expr) (operator : Token) :
    (level.join left operator right).renamed r n marks =
      level.join (left.renamed r n marks) operator (right.renamed r (n + left.scopes) marks) := by
  cases level <;> rfl

namespace Grammar

variable {r : Renaming}

/-- With other numbers for the scopes in it, a loop with renamed variables is the loop of its parts
with renamed variables. -/
theorem forLoop_renamed (n : Nat) (marks : List Bool) (start : Option Stmt)
    (condition increment : Option Expr) (body : Stmt) :
    ∃ n₁ n₂ n₃ n₄ marks', (forLoop start condition increment body).renamed r n marks =
      forLoop (Stmt.renamedOption r n₁ marks' start) (Expr.renamedOption r n₂ marks' condition)
        (Expr.renamedOption r n₃ marks' increment) (body.renamed r n₄ marks') := by
  let loop := Stmt.loop (condition.getD (.literal .true)) body increment
  have hloop (n : Nat) (marks : List Bool) : loop.renamed r n marks =
      .loop ((Expr.renamedOption r n marks condition).getD (.literal .true))
        (body.renamed r (n + (condition.getD (.literal .true)).scopes) marks)
        (Expr.renamedOption r (n + (condition.getD (.literal .true)).scopes + body.scopes) marks
          increment) := by
    cases condition <;> rfl
  cases start with
  | none => exact ⟨0, n, _, _, marks, hloop n marks⟩
  | some s =>
    let marks' := r.mark n [s, loop] :: marks
    have hblock := congrArg (fun loop => Stmt.block [s.renamed r (n + 1) marks', loop])
      (hloop (n + 1 + s.scopes) marks')
    exact ⟨n + 1, _, _, _, marks', hblock⟩

/-- With changed names the tokens have the property. -/
def Rewritten (r : Renaming) (ts : List Token) (P : List Token → Prop) : Prop :=
  ∃ ts', List.Forall₂ r.Turns ts ts' ∧ P ts'

namespace Rewritten

variable {t : Token} {ts us : List Token} {P Q : List Token → Prop}

/-- Nothing in the tokens is changed. -/
theorem same (h : P ts) : Rewritten r ts P :=
  ⟨ts, r.turns_refl ts, h⟩

/-- The first token may stay, whatever becomes of the rest. -/
theorem keep (h : Rewritten r ts fun ts' => P (t :: ts')) : Rewritten r (t :: ts) P := by
  obtain ⟨ts', hturns, hP⟩ := h
  exact ⟨t :: ts', .cons (.inl rfl) hturns, hP⟩

/-- The name of a variable, in a scope with this mark. -/
theorem name (mark : Bool) (h : Rewritten r ts fun ts' => P (r.token mark t :: ts')) :
    Rewritten r (t :: ts) P := by
  obtain ⟨ts', hturns, hP⟩ := h
  exact ⟨_, .cons (r.turns_token mark t) hturns, hP⟩

/-- The tokens of a part, and those behind it. -/
theorem append (h : Rewritten r ts P)
    (hmore : ∀ ts', P ts' → Rewritten r us fun us' => Q (ts' ++ us')) :
    Rewritten r (ts ++ us) Q := by
  obtain ⟨ts', hts, hP⟩ := h
  obtain ⟨us', hus, hQ⟩ := hmore ts' hP
  exact ⟨ts' ++ us', List.rel_append hts hus, hQ⟩

/-- The last part, or the only one. -/
theorem imp (h : Rewritten r ts P) (hPQ : ∀ ts', P ts' → Q ts') : Rewritten r ts Q := by
  obtain ⟨ts', hturns, hP⟩ := h
  exact ⟨ts', hturns, hPQ ts' hP⟩

end Rewritten

/-- The phrase with renamed variables is derived from the tokens with changed names. -/
def Phrase.Renamable (r : Renaming) (ts : List Token) : Phrase → Prop
  | .expression rank e =>
    ∀ n marks, Rewritten r ts (Derives (.expression rank (e.renamed r n marks)))
  | .optional e => ∀ n marks, Rewritten r ts (Derives (.optional (Expr.renamedOption r n marks e)))
  | .arguments es =>
    ∀ n marks, Rewritten r ts (Derives (.arguments (Expr.renamedAll r n marks es)))
  | .argumentRow es =>
    ∀ n marks, Rewritten r ts (Derives (.argumentRow (Expr.renamedAll r n marks es)))
  | .parameters names => ∀ mark, Rewritten r ts (Derives (.parameters (names.map (r.token mark))))
  | .parameterRow names =>
    ∀ mark, Rewritten r ts (Derives (.parameterRow (names.map (r.token mark))))
  | .block body => ∀ n marks, Rewritten r ts (Derives (.block (Stmt.renamedAll r n marks body)))
  | .function d => ∀ n marks, Rewritten r ts (Derives (.function (d.renamed r n marks)))
  | .getter d => ∀ n marks, Rewritten r ts (Derives (.getter (d.renamed r n marks)))
  | .setter d => ∀ n marks, Rewritten r ts (Derives (.setter (d.renamed r n marks)))
  | .members ms => ∀ n₁ n₂ n₃ n₄ marks, Rewritten r ts (Derives (.members
      ⟨FunctionDecl.renamedAll r n₁ marks ms.methods,
        FunctionDecl.renamedAll r n₂ marks ms.classMethods,
        FunctionDecl.renamedAll r n₃ marks ms.getters,
        FunctionDecl.renamedAll r n₄ marks ms.setters⟩))
  | .varDecl s => ∀ n marks, Rewritten r ts (Derives (.varDecl (s.renamed r n marks)))
  | .expressionStatement s =>
    ∀ n marks, Rewritten r ts (Derives (.expressionStatement (s.renamed r n marks)))
  | .forStart s => ∀ n marks, Rewritten r ts (Derives (.forStart (Stmt.renamedOption r n marks s)))
  | .statement isOpen s =>
    ∀ n marks, Rewritten r ts (Derives (.statement isOpen (s.renamed r n marks)))
  | .declaration s => ∀ n marks, Rewritten r ts (Derives (.declaration (s.renamed r n marks)))
  | .declarations ss =>
    ∀ n marks, Rewritten r ts (Derives (.declarations (Stmt.renamedAll r n marks ss)))

/-! ## Rules of the grammar -/

/-- A rule for expressions leads from renamed parts to a renamed expression. Each part has the
numbers of scopes from where the part before it ended. -/
theorem renamable_expressions :
    ExpressionClosed (fun _ => True) fun phrase ts => phrase.Renamable r ts where
  tighter hnext he := fun n marks => (he n marks).imp fun _ => .tighter hnext
  joined := by
    intro level left right operator ls rs hl ho hr _ n marks
    rw [Level.renamed_join]
    exact (hl n marks).append fun _ hl => .keep <| (hr _ marks).imp fun _ => .joined hl ho
  assign hn he hv _ := fun n marks =>
    .name _ <| .keep <| (hv n marks).imp fun _ => .assign (by simp [hn]) he
  set ho hd hn he hv _ := fun n marks =>
    (ho n marks).append fun _ ho => .keep <| .keep <| .keep <|
      (hv _ marks).imp fun _ => .set ho hd hn he
  conditional hc hq ht hm hf := fun n marks =>
    (hc n marks).append fun _ hc => .keep <| (ht _ marks).append fun _ ht => .keep <|
      (hf _ marks).imp fun _ => .conditional hc hq ht hm
  unary ho he _ := fun n marks => .keep <| (he n marks).imp fun _ => .unary ho
  call hc ho ha hp _ := fun n marks =>
    (hc n marks).append fun _ hc => .keep <| (ha _ marks).append fun _ ha =>
      .same <| .call hc ho ha hp
  get ho hd hn _ := fun n marks => (ho n marks).append fun _ ho => .same <| .get ho hd hn
  literal ht := fun _ _ => .same <| .literal ht
  name hn _ := fun _ _ => .name _ <| .same <| .name (by simp [hn])
  receiver hk _ := fun _ _ => .same <| .receiver hk
  inherited hk hd hm _ _ := fun _ _ => .same <| .inherited hk hd hm
  group ho he hc := fun n marks =>
    .keep <| (he n marks).append fun _ he => .same <| .group ho he hc
  functionLiteral hk ho hp hc hb _ := fun _ _ =>
    .keep <| .keep <| (hp _).append fun _ hp => .keep <|
      (hb _ _).imp fun _ => .functionLiteral hk ho hp hc
  absent := fun _ _ => .same .absent
  present he := fun n marks => (he n marks).imp fun _ => .present
  noArguments := fun _ _ => .same .noArguments
  someArguments he hl := fun n marks =>
    (he n marks).imp fun _ he => .someArguments he (by rwa [Expr.length_renamedAll])
  lastArgument he := fun n marks => (he n marks).imp fun _ => .lastArgument
  nextArgument he hc hes := fun n marks =>
    (he n marks).append fun _ he => .keep <| (hes _ marks).imp fun _ => .nextArgument he hc

/-- The rules for functions and members derive them with renamed variables. Whether the parameters
are renamed is up to the scope of the body. -/
theorem renamable_members :
    MemberClosed (fun _ => True) fun phrase ts => phrase.Renamable r ts where
  noParameters := fun _ => .same .noParameters
  someParameters hn hl := fun mark =>
    (hn mark).imp fun _ hn => .someParameters hn (by rwa [List.length_map])
  lastParameter hn _ := fun mark => .name mark <| .same <| .lastParameter (by simp [hn])
  nextParameter hn hc hs _ := fun mark =>
    .name mark <| .keep <| (hs mark).imp fun _ => .nextParameter (by simp [hn]) hc
  block ho hb hc := fun n marks =>
    .keep <| (hb n marks).append fun _ hb => .same <| .block ho hb hc
  function hn ho hp hc hb _ := fun _ _ =>
    .keep <| .keep <| (hp _).append fun _ hp => .keep <|
      (hb _ _).imp fun _ => .function hn ho hp hc
  getter hn hb _ := fun _ _ => .keep <| (hb _ _).imp fun _ => .getter hn
  getterParens hn ho hc hb _ := fun _ _ =>
    .keep <| .keep <| .keep <| (hb _ _).imp fun _ => .getterParens hn ho hc
  setter hn ho hp hc hb _ _ := fun _ _ =>
    .keep <| .keep <| .name _ <| .keep <| (hb _ _).imp fun _ => .setter hn ho (by simp [hp]) hc
  noMembers := fun _ _ _ _ _ => .same .noMembers
  -- the members of one kind are numbered on; those of the other kinds keep their numbers
  nextMethod hd hr := fun n₁ n₂ n₃ n₄ marks =>
    (hd n₁ marks).append fun _ hd => (hr _ n₂ n₃ n₄ marks).imp fun _ => .nextMethod hd
  nextClassMethod hk hd hr := fun n₁ n₂ n₃ n₄ marks =>
    .keep <| (hd n₂ marks).append fun _ hd =>
      (hr n₁ _ n₃ n₄ marks).imp fun _ => .nextClassMethod hk hd
  nextGetter hk hd hr := fun n₁ n₂ n₃ n₄ marks =>
    .keep <| (hd n₃ marks).append fun _ hd => (hr n₁ n₂ _ n₄ marks).imp fun _ => .nextGetter hk hd
  nextSetter hk hd hr := fun n₁ n₂ n₃ n₄ marks =>
    .keep <| (hd n₄ marks).append fun _ hd => (hr n₁ n₂ n₃ _ marks).imp fun _ => .nextSetter hk hd

/-- The rules for statements and declarations derive them with renamed variables. -/
theorem renamable_statements :
    StatementClosed (fun _ => True) fun phrase ts => phrase.Renamable r ts where
  varDecl hk hn he _ := fun _ _ => .keep <| .name _ <| .same <| .varDecl hk (by simp [hn]) he
  varDeclValue hk hn hq hv he _ := fun n marks =>
    .keep <| .name _ <| .keep <| (hv n marks).append fun _ hv =>
      .same <| .varDeclValue hk (by simp [hn]) hq hv he
  expressionStatement h he := fun n marks =>
    (h n marks).append fun _ h => .same <| .expressionStatement h he
  continueLoop hk he _ := fun _ _ => .same <| .continueLoop hk he
  breakLoop hk he _ := fun _ _ => .same <| .breakLoop hk he
  empty he := fun _ _ => .same <| .empty he
  startNothing he := fun _ _ => .same <| .startNothing he
  startVar hs := fun n marks => (hs n marks).imp fun _ => .startVar
  startExpression hs := fun n marks => (hs n marks).imp fun _ => .startExpression
  forLoop := by
    intro keyword open' end' close start condition increment isOpen body ss cs is bs
      hk ho hs hc he hi hp hb n marks
    obtain ⟨n₁, n₂, n₃, n₄, marks', hloop⟩ := forLoop_renamed (r := r) n marks start condition
      increment body
    rw [hloop]
    refine .keep <| .keep <| (hs n₁ marks').append fun _ hs => ?_
    refine (hc n₂ marks').append fun _ hc => .keep <| (hi n₃ marks').append fun _ hi => ?_
    exact .keep <| (hb n₄ marks').imp fun _ => .forLoop hk ho hs hc he hi hp
  ifThen hk ho hc hp ht := fun n marks =>
    .keep <| .keep <| (hc n marks).append fun _ hc => .keep <|
      (ht _ marks).imp fun _ => .ifThen hk ho hc hp
  ifThenElse hk ho hc hp ht he hf := fun n marks =>
    .keep <| .keep <| (hc n marks).append fun _ hc => .keep <| (ht _ marks).append fun _ ht =>
      .keep <| (hf _ marks).imp fun _ => .ifThenElse hk ho hc hp ht he
  input hk hn he _ _ := fun _ _ => .keep <| .name _ <| .same <| .input hk (by simp [hn]) he
  print hk hv he _ := fun n marks =>
    .keep <| (hv n marks).append fun _ hv => .same <| .print hk hv he
  returnValue hk hv he _ := fun n marks =>
    .keep <| (hv n marks).append fun _ hv => .same <| .returnValue hk hv he
  whileLoop hk ho hc hp hb := fun n marks =>
    .keep <| .keep <| (hc n marks).append fun _ hc => .keep <|
      (hb _ marks).imp fun _ => .whileLoop hk ho hc hp
  blockStatement hb := fun _ _ => (hb _ _).imp fun _ => .blockStatement
  plain hs := fun n marks => (hs n marks).imp fun _ => .plain
  classDecl hk hn ho hm hc _ := fun _ _ =>
    .keep <| .keep <| .keep <| (hm _ _ _ _ _).append fun _ hm => .same <| .classDecl hk hn ho hm hc
  derivedClass hk hn hl hp ho hm hc _ _ := fun _ _ =>
    .keep <| .keep <| .keep <| .name _ <| .keep <| (hm _ _ _ _ _).append fun _ hm =>
      .same <| .derivedClass hk hn hl (by simp [hp]) ho hm hc
  functionDecl hk hd := fun n marks => .keep <| (hd n marks).imp fun _ => .functionDecl hk
  constant hk hn hq hv he _ := fun n marks =>
    .keep <| .name _ <| .keep <| (hv n marks).append fun _ hv =>
      .same <| .constant hk (by simp [hn]) hq hv he
  var hs := fun n marks => (hs n marks).imp fun _ => .var
  statement hs := fun n marks => (hs n marks).imp fun _ => .statement
  noDeclarations := fun _ _ => .same .noDeclarations
  nextDeclaration hs hr := fun n marks =>
    (hs n marks).append fun _ hs => (hr _ marks).imp fun _ => .nextDeclaration hs

/-- The grammar derives what it derived with renamed variables. -/
theorem Derives.renamed {phrase : Phrase} {ts : List Token} (h : Derives phrase ts) :
    phrase.Renamable r ts :=
  h.closed renamable_expressions renamable_members renamable_statements fun _ _ => trivial

end Grammar

end Lox
