import Lox.Proofs.Lowered.Settings

/-!
# Resolving loops written out

If a program keeps the rules of scope, then so does one in which some of its loops are written out,
and of the references in the two programs just that is known which running them asks for: each one
is as much further from its scope as there are scopes before it that the first program does not have
(`Lowers.resolution`).
-/

namespace Lox

/-- The references at the points have the distances in the table that their settings say. -/
def Table.Knows (T : Table) (points : List Point) : Prop :=
  ∀ p ∈ points, ∀ r, p.reference? = some r →
    T[r.site]? = p.setting.distance? r.token.lexeme

theorem Table.Knows.append {T : Table} {points more : List Point}
    (h : T.Knows (points ++ more)) : T.Knows points ∧ T.Knows more :=
  ⟨fun p hp => h p (List.mem_append_left _ hp), fun p hp => h p (List.mem_append_right _ hp)⟩

/-- What is known of references in the two programs when these are the tables. -/
def Links.found (T T' : Table) : Links where
  refers shape i i' := T'[i']? = T[i]?.map shape.far
  inherits shape i i' :=
    T'[i']? = T[i]?.map shape.far ∧ ∀ distance, T[i]? = some distance → shape.Adjacent distance

variable {T T' : Table}

/-! ## Points of the two programs -/

/-- If the first points keep the rules of scope then so do the second ones, and if the tables know
both then `P` holds. -/
structure Settles (T T' : Table) (points points' : List Point) (P : Prop) : Prop where
  clean : (∀ p ∈ points, p.violation? = none) → ∀ p ∈ points', p.violation? = none
  linked : T.Knows points → T'.Knows points' → P

namespace Settles

variable {points points' more more' : List Point} {P Q : Prop}

theorem none (h : P) : Settles T T' [] [] P :=
  ⟨fun _ => nofun, fun _ _ => h⟩

theorem imp (h : Settles T T' points points' P) (hPQ : P → Q) : Settles T T' points points' Q :=
  ⟨h.clean, fun hT hT' => hPQ (h.linked hT hT')⟩

theorem append (h : Settles T T' points points' P) (h' : Settles T T' more more' Q) :
    Settles T T' (points ++ more) (points' ++ more') (P ∧ Q) := by
  refine ⟨fun hnone => ?_, fun hT hT' => ?_⟩
  · rw [List.forall_mem_append] at hnone ⊢
    exact ⟨h.clean hnone.1, h'.clean hnone.2⟩
  · exact ⟨h.linked hT.append.1 hT'.append.1, h'.linked hT.append.2 hT'.append.2⟩

variable {shape : Shape} {s s' : Setting}

/-- One point and the one that it became. -/
theorem point (hs : Setting.Lowers shape s s') {usage usage' : Usage} (h : usage.Same usage')
    (hP : T.Knows [⟨s, usage⟩] → T'.Knows [⟨s', usage'⟩] → P) :
    Settles T T' [⟨s, usage⟩] [⟨s', usage'⟩] P := by
  refine ⟨fun hnone => ?_, hP⟩
  rw [List.forall_mem_singleton] at hnone ⊢
  exact hs.keeps h hnone

theorem check (hs : Setting.Lowers shape s s') {usage usage' : Usage} (h : usage.Same usage') :
    Settles T T' [⟨s, usage⟩] [⟨s', usage'⟩] True :=
  point hs h fun _ _ => trivial

/-- A reference is as much further from its scope as there are new scopes before it. -/
theorem reference (hs : Setting.Lowers shape s s') (kind : ReferenceKind) {t t' : Token}
    (ht : t.Same t') (i i' : Site) :
    Settles T T' [⟨s, .refers ⟨kind, t, i⟩⟩] [⟨s', .refers ⟨kind, t', i'⟩⟩]
      ((Links.found T T').refers shape i i') := by
  refine point hs (.refers rfl ht) fun hT hT' => ?_
  have hfirst := hT _ (List.mem_singleton_self _) _ rfl
  have hsecond := hT' _ (List.mem_singleton_self _) _ rfl
  show T'[i']? = T[i]?.map shape.far
  rw [hfirst, hsecond]
  show s'.distance? t'.lexeme = (s.distance? t.lexeme).map shape.far
  rw [ht.lexeme]
  exact hs.distance?_eq t.lexeme

/-- A reference to the superclass is settled like any other, and the scope just inside is of both
programs. -/
theorem inherited (hs : Setting.Lowers shape s s') {t t' : Token} (ht : t.Same t')
    (hsuper : t.lexeme = "super") (i i' : Site) :
    Settles T T' [⟨s, .refers ⟨.inherited, t, i⟩⟩] [⟨s', .refers ⟨.inherited, t', i'⟩⟩]
      ((Links.found T T').inherits shape i i') := by
  have hreference : Settles T T' [⟨s, .refers ⟨.inherited, t, i⟩⟩]
      [⟨s', .refers ⟨.inherited, t', i'⟩⟩] ((Links.found T T').refers shape i i') :=
    reference hs .inherited ht i i'
  refine ⟨hreference.clean, fun hT hT' => ⟨hreference.linked hT hT', fun distance hd => ?_⟩⟩
  have hfirst := hT _ (List.mem_singleton_self _) _ rfl
  refine hs.adjacent ?_
  rw [← hsuper]
  exact hfirst.symm.trans hd

end Settles

/-! ## Members -/

/-- The points of members, each a function in its role. -/
def FunctionDecl.pointsEach (role : FunctionDecl → FunctionContext) (inClassMethod : Bool) :
    List FunctionDecl → Setting → List Point
  | [], _ => []
  | d :: ds, s =>
    d.points (role d) (.scope (.receiver inClassMethod) ["this"] :: s)
      ++ FunctionDecl.pointsEach role inClassMethod ds s

theorem FunctionDecl.pointsMethods_eq (ds : List FunctionDecl) (s : Setting) :
    FunctionDecl.pointsMethods ds s =
      FunctionDecl.pointsEach FunctionDecl.methodContext false ds s := by
  induction ds with
  | nil => rfl
  | cons d ds ih => rw [FunctionDecl.pointsMethods, FunctionDecl.pointsEach, ih]

theorem FunctionDecl.pointsMembers_eq (ds : List FunctionDecl) (role : FunctionContext)
    (inClassMethod : Bool) (s : Setting) :
    FunctionDecl.pointsMembers ds role inClassMethod s =
      FunctionDecl.pointsEach (fun _ => role) inClassMethod ds s := by
  induction ds with
  | nil => rfl
  | cons d ds ih => rw [FunctionDecl.pointsMembers, FunctionDecl.pointsEach, ih]

theorem Lowers.methodContext {k : Links} {shape : Shape} {d d' : FunctionDecl}
    (h : Lowers k shape (.function d) (.function d')) : d'.methodContext = d.methodContext := by
  have hname := h.declaration.1
  unfold FunctionDecl.methodContext
  cases hd : d.name <;> cases hd' : d'.name <;> simp_all

/-! ## Pieces -/

/-- What is to be shown of a piece and the one it became: wherever they stand, their points settle
that they are so with what the tables say. -/
def Piece.Resolves (T T' : Table) (shape : Shape) (p p' : Piece) : Prop :=
  match p, p' with
  | .expression e, .expression e' => e.Tidy → ∀ s s', Setting.Lowers shape s s' →
    Settles T T' (e.points s) (e'.points s') (Lowers (.found T T') shape p p')
  | .optional e, .optional e' => Expr.TidyOption e → ∀ s s', Setting.Lowers shape s s' →
    Settles T T' (Expr.pointsOption e s) (Expr.pointsOption e' s')
      (Lowers (.found T T') shape p p')
  | .expressions es, .expressions es' => Expr.TidyAll es → ∀ s s', Setting.Lowers shape s s' →
    Settles T T' (Expr.pointsAll es s) (Expr.pointsAll es' s') (Lowers (.found T T') shape p p')
  | .statement st, .statement st' => st.Tidy → ∀ s s', Setting.Lowers shape s s' →
    Settles T T' (st.points s) (st'.points s') (Lowers (.found T T') shape p p')
  | .otherwise st, .otherwise st' => Stmt.TidyElse st → ∀ s s', Setting.Lowers shape s s' →
    Settles T T' (Stmt.pointsOption st s) (Stmt.pointsOption st' s')
      (Lowers (.found T T') shape p p')
  | .statements sts, .statements sts' => Stmt.TidyAll sts → ∀ s s', Setting.Lowers shape s s' →
    Settles T T' (Stmt.pointsAll sts s) (Stmt.pointsAll sts' s')
      (Lowers (.found T T') shape p p')
  | .function d, .function d' => d.Tidy → ∀ role s s', Setting.Lowers shape s s' →
    Settles T T' (d.points role s) (d'.points role s') (Lowers (.found T T') shape p p')
  | .functions ds, .functions ds' => FunctionDecl.TidyAll ds →
    ∀ role : FunctionDecl → FunctionContext,
      (∀ d d', Lowers .any shape (.function d) (.function d') → role d' = role d) →
      ∀ inClassMethod s s', Setting.Lowers shape (.scope (.receiver inClassMethod) ["this"] :: s)
        (.scope (.receiver inClassMethod) ["this"] :: s') →
      Settles T T' (FunctionDecl.pointsEach role inClassMethod ds s)
        (FunctionDecl.pointsEach role inClassMethod ds' s') (Lowers (.found T T') shape p p')
  | _, _ => True

/-- Members of one kind, each a function in the same role. -/
theorem Piece.Resolves.members {shape : Shape} {ds ds' : List FunctionDecl}
    (h : Piece.Resolves T T' shape (.functions ds) (.functions ds'))
    (hds : FunctionDecl.TidyAll ds) (role : FunctionContext) (inClassMethod : Bool)
    {s s' : Setting} (hs : Setting.Lowers shape (.scope (.receiver inClassMethod) ["this"] :: s)
      (.scope (.receiver inClassMethod) ["this"] :: s')) :
    Settles T T' (FunctionDecl.pointsMembers ds role inClassMethod s)
      (FunctionDecl.pointsMembers ds' role inClassMethod s')
      (Lowers (.found T T') shape (.functions ds) (.functions ds')) := by
  rw [FunctionDecl.pointsMembers_eq, FunctionDecl.pointsMembers_eq]
  exact h hds (fun _ => role) (fun _ _ _ => rfl) inClassMethod s s' hs

/-- The points of a loop that is written out. -/
theorem Stmt.round_points (condition : Expr) (body : Stmt) (increment : Option Expr)
    (s : Setting) :
    (Stmt.loop condition (body.round increment) none).points s =
      condition.points s ++ body.points (.scope .block [] :: .loop :: s) ++
        Expr.pointsOption increment
          (Setting.declaring body.declares (.scope .block [] :: .loop :: s)) := by
  have hrow : Stmt.pointsAll (increment.map Stmt.expression).toList =
      Expr.pointsOption increment := by
    funext s
    cases increment with
    | none => rfl
    | some e => exact List.append_nil _
  show _ ++ (body.points _ ++ Stmt.pointsAll _ _) ++ [] = _
  rw [hrow, List.append_nil, List.append_assoc]

namespace Lowers

variable {shape : Shape} {s s' : Setting}

/-- The setting after a declaration. -/
theorem declaring {st st' : Stmt} (h : Lowers .any shape (.statement st) (.statement st'))
    (htidy : st.Tidy) (hs : Setting.Lowers shape s s') :
    Setting.Lowers shape (s.declaring st.declares) (s'.declaring st'.declares) := by
  rw [h.declares.1]
  exact hs.declaring htidy.ne_super h.declares.2

/-- The setting of the initializer of a variable or a constant. -/
theorem initializing (hshared : shape.Shared) {name name' : Token} (hname : name.Same name')
    (hplain : name.Plain) (hs : Setting.Lowers shape s s') :
    Setting.Lowers shape (.initializer name.lexeme :: s.declaring [name.lexeme])
      (.initializer name'.lexeme :: s'.declaring [name'.lexeme]) := by
  rw [hname.lexeme]
  exact .initializer _ hshared
    (hs.declaring (fun h => hplain.ne_super (List.mem_singleton.mp h).symm) (absurd hshared ·))

/-- The points of a class. -/
theorem resolves_class {name name' : Token} {superclass superclass' : Option Expr}
    {methods methods' classMethods classMethods' getters getters' setters setters' :
      List FunctionDecl}
    (hshared : shape.Shared) (hname : name.Same name')
    (hsome : superclass'.isSome = superclass.isSome)
    (hsuperclass : Piece.Resolves T T' shape (.optional superclass) (.optional superclass'))
    (hmethods : Piece.Resolves T T' (shape.members superclass.isSome) (.functions methods)
      (.functions methods'))
    (hclassMethods : Piece.Resolves T T' (shape.members superclass.isSome)
      (.functions classMethods) (.functions classMethods'))
    (hgetters : Piece.Resolves T T' (shape.members superclass.isSome) (.functions getters)
      (.functions getters'))
    (hsetters : Piece.Resolves T T' (shape.members superclass.isSome) (.functions setters)
      (.functions setters')) :
    Piece.Resolves T T' shape
      (.statement (.classDecl ⟨name, superclass, methods, classMethods, getters, setters⟩))
      (.statement (.classDecl ⟨name', superclass', methods', classMethods', getters',
        setters'⟩)) := by
  rintro ⟨hplain, hclause, htidy, htidyc, htidyg, htidys, -⟩ s s' hs
  have hparent : Expr.TidyOption superclass := by
    cases superclass with
    | none => trivial
    | some clause =>
      obtain ⟨site, parent, rfl, hparent⟩ := hclause clause rfl
      exact hparent
  have haround : Setting.Lowers shape (.cls superclass.isSome :: s.declaring [name.lexeme])
      (.cls superclass'.isSome :: s'.declaring [name'.lexeme]) := by
    rw [hsome, hname.lexeme]
    exact .cls _ (hs.declaring (fun h => hplain.ne_super (List.mem_singleton.mp h).symm)
      (absurd hshared ·))
  -- a class with a superclass has one more scope around its members, in both programs
  let around : Setting := .cls superclass.isSome :: s.declaring [name.lexeme]
  let around' : Setting := .cls superclass'.isSome :: s'.declaring [name'.lexeme]
  let members : Setting :=
    if superclass.isSome then .scope .superclass ["super"] :: around else around
  let members' : Setting :=
    if superclass'.isSome then .scope .superclass ["super"] :: around' else around'
  have hmembers (inClassMethod : Bool) : Setting.Lowers (shape.members superclass.isSome)
      (.scope (.receiver inClassMethod) ["this"] :: members)
      (.scope (.receiver inClassMethod) ["this"] :: members') := by
    show Setting.Lowers (true :: if superclass.isSome then true :: shape else shape)
      (_ :: if superclass.isSome then _ else _) (_ :: if superclass'.isSome then _ else _)
    rw [hsome]
    cases superclass.isSome with
    | true => exact .derived inClassMethod (by decide) haround
    | false => exact .scope _ (by decide) haround
  have hmethod : Settles T T' (FunctionDecl.pointsMethods methods members)
      (FunctionDecl.pointsMethods methods' members') (Lowers (.found T T')
        (shape.members superclass.isSome) (.functions methods) (.functions methods')) := by
    rw [FunctionDecl.pointsMethods_eq, FunctionDecl.pointsMethods_eq]
    exact hmethods htidy _ (fun _ _ hd => hd.methodContext) false _ _ (hmembers false)
  have hall := ((((hsuperclass hparent around around' haround).append hmethod).append
    (hgetters.members htidyg .method false (hmembers false))).append
    (hsetters.members htidys .method false (hmembers false))).append
    (hclassMethods.members htidyc .classMethod true (hmembers true))
  exact hall.imp fun ⟨⟨⟨⟨hs, hm⟩, hg⟩, ht⟩, hc⟩ => .classDecl hshared hname hs hm hc hg ht

end Lowers

namespace Piece.Resolves

variable {shape : Shape}

/-! ## Pieces with more than one part -/

theorem assign {site site' : Site} {name name' : Token} {value value' : Expr}
    (hname : name.Same name')
    (hvalue : Piece.Resolves T T' shape (.expression value) (.expression value')) :
    Piece.Resolves T T' shape (.expression (.assign site name value))
      (.expression (.assign site' name' value')) := by
  intro ht s s' hs
  exact ((hvalue ht.2 s s' hs).append (.reference hs .assignment hname _ _)).imp
    fun h => .assign h.2 hname h.1

theorem choice {condition condition' whenTrue whenTrue' whenFalse whenFalse' : Expr}
    (hcondition : Piece.Resolves T T' shape (.expression condition) (.expression condition'))
    (htrue : Piece.Resolves T T' shape (.expression whenTrue) (.expression whenTrue'))
    (hfalse : Piece.Resolves T T' shape (.expression whenFalse) (.expression whenFalse')) :
    Piece.Resolves T T' shape (.expression (.conditional condition whenTrue whenFalse))
      (.expression (.conditional condition' whenTrue' whenFalse')) := by
  intro ht s s' hs
  have hbefore := (hcondition ht.1 s s' hs).append (htrue ht.2.1 s s' hs)
  exact (hbefore.append (hfalse ht.2.2 s s' hs)).imp fun h => .choice h.1.1 h.1.2 h.2

/-- The parameters of a function are the names of the scope of its body. -/
theorem parts {name name' : Option Token} {keyword keyword' : Token}
    {parameters parameters' : List Token} {body body' : List Stmt}
    (hname : Option.Rel Token.Same name name') (hkeyword : keyword.Same keyword')
    (hparameters : List.Forall₂ Token.Same parameters parameters')
    (hbody : Lowers .any (true :: shape) (.statements body) (.statements body'))
    (hresolves : Piece.Resolves T T' (true :: shape) (.statements body) (.statements body')) :
    Piece.Resolves T T' shape (.function ⟨name, keyword, parameters, body⟩)
      (.function ⟨name', keyword', parameters', body'⟩) := by
  intro ht role s s' hs
  have hnames : parameters'.map Token.lexeme = parameters.map Token.lexeme :=
    (Lowers.parts hname hkeyword hparameters hbody).declaration.2.2
  have hplain : "super" ∉ parameters.map Token.lexeme := fun hmem => by
    obtain ⟨t, hmem, hsuper⟩ := List.mem_map.mp hmem
    exact (ht.1 t hmem).ne_super hsuper
  have hinside : Setting.Lowers (true :: shape)
      (.scope (.body role) (parameters.map Token.lexeme) :: s)
      (.scope (.body role) (parameters'.map Token.lexeme) :: s') := by
    rw [hnames]
    exact .scope _ hplain hs
  exact (hresolves ht.2 _ _ hinside).imp (.parts hname hkeyword hparameters)

theorem nextFunction {d d' : FunctionDecl} {ds ds' : List FunctionDecl}
    (hd : Lowers .any shape (.function d) (.function d'))
    (hfirst : Piece.Resolves T T' shape (.function d) (.function d'))
    (hmore : Piece.Resolves T T' shape (.functions ds) (.functions ds')) :
    Piece.Resolves T T' shape (.functions (d :: ds)) (.functions (d' :: ds')) := by
  intro ht role hrole inClassMethod s s' hs
  refine (Settles.append ?_ (hmore ht.2 role hrole inClassMethod s s' hs)).imp
    fun h => .nextFunction h.1 h.2
  rw [hrole _ _ hd]
  exact hfirst ht.1 _ _ _ hs

/-- A function knows its own name. -/
theorem functionDecl {d d' : FunctionDecl} (hshared : shape.Shared)
    (hd : Lowers .any shape (.function d) (.function d'))
    (hresolves : Piece.Resolves T T' shape (.function d) (.function d')) :
    Piece.Resolves T T' shape (.statement (.functionDecl d)) (.statement (.functionDecl d')) := by
  intro ht s s' hs
  have hafter := (Lowers.functionDecl hshared hd).declaring ht hs
  exact (hresolves ht.2 .function _ _ hafter).imp (.functionDecl hshared)

/-- The branch after `else` stands behind the names that the other one would declare. -/
theorem conditional {condition condition' : Expr} {whenTrue whenTrue' : Stmt}
    {whenFalse whenFalse' : Option Stmt}
    (hlowers : Lowers .any shape (.statement whenTrue) (.statement whenTrue'))
    (hcondition : Piece.Resolves T T' shape (.expression condition) (.expression condition'))
    (htrue : Piece.Resolves T T' shape (.statement whenTrue) (.statement whenTrue'))
    (hfalse : Piece.Resolves T T' shape (.otherwise whenFalse) (.otherwise whenFalse')) :
    Piece.Resolves T T' shape (.statement (.conditional condition whenTrue whenFalse))
      (.statement (.conditional condition' whenTrue' whenFalse')) := by
  intro ht s s' hs
  have hbefore := (hcondition ht.1 s s' hs).append (htrue ht.2.1 s s' hs)
  have hafter := hlowers.declaring ht.2.1 hs
  exact (hbefore.append (hfalse ht.2.2.2 _ _ hafter)).imp fun h => .conditional h.1.1 h.1.2 h.2

theorem returnValue {keyword keyword' : Token} {value value' : Option Expr}
    (hkeyword : keyword.Same keyword')
    (hvalue : Lowers .any shape (.optional value) (.optional value'))
    (hresolves : Piece.Resolves T T' shape (.optional value) (.optional value')) :
    Piece.Resolves T T' shape (.statement (.returnValue keyword value))
      (.statement (.returnValue keyword' value')) := by
  intro ht s s' hs
  show Settles T T' ([_] ++ Expr.pointsOption value s) ([_] ++ Expr.pointsOption value' s') _
  rw [hvalue.isSome_eq]
  exact ((Settles.check hs (.returns _)).append (hresolves ht s s' hs)).imp
    fun h => .returnValue hkeyword h.2

theorem loop {condition condition' : Expr} {body body' : Stmt} {increment increment' : Option Expr}
    (hlowers : Lowers .any shape (.statement body) (.statement body'))
    (hcondition : Piece.Resolves T T' shape (.expression condition) (.expression condition'))
    (hbody : Piece.Resolves T T' shape (.statement body) (.statement body'))
    (hincrement : Piece.Resolves T T' shape (.optional increment) (.optional increment')) :
    Piece.Resolves T T' shape (.statement (.loop condition body increment))
      (.statement (.loop condition' body' increment')) := by
  intro ht s s' hs
  have hbefore := (hcondition ht.1 s s' hs).append (hbody ht.2.1 _ _ (.loop hs))
  have hafter := hlowers.declaring ht.2.1 hs
  exact (hbefore.append (hincrement ht.2.2.2 _ _ hafter)).imp fun h => .loop h.1.1 h.1.2 h.2

/-- A loop that is written out: the increment stands where it did, but for the scope of the round
and the loop. -/
theorem rounds {condition condition' : Expr} {body body' : Stmt}
    {increment increment' : Option Expr} (hcontinues : body.continues = false)
    (hlowers : Lowers .any (false :: shape) (.statement body) (.statement body'))
    (hcondition : Piece.Resolves T T' shape (.expression condition) (.expression condition'))
    (hbody : Piece.Resolves T T' (false :: shape) (.statement body) (.statement body'))
    (hincrement : Piece.Resolves T T' (false :: shape) (.optional increment)
      (.optional increment')) :
    Piece.Resolves T T' shape (.statement (.loop condition body increment))
      (.statement (.loop condition' (body'.round increment') none)) := by
  intro ht s s' hs
  have hround := hs.loop.round
  have hafter := hlowers.declaring ht.2.1 hs.again.round
  have hall := ((hcondition ht.1 s s' hs).append (hbody ht.2.1 _ _ hround)).append
    (hincrement ht.2.2.2 _ _ hafter)
  rw [Stmt.points, Stmt.round_points]
  exact hall.imp fun h => .rounds hcontinues h.1.1 h.1.2 h.2

theorem nextStatement {st st' : Stmt} {sts sts' : List Stmt}
    (hlowers : Lowers .any shape (.statement st) (.statement st'))
    (hfirst : Piece.Resolves T T' shape (.statement st) (.statement st'))
    (hmore : Piece.Resolves T T' shape (.statements sts) (.statements sts')) :
    Piece.Resolves T T' shape (.statements (st :: sts)) (.statements (st' :: sts')) := by
  intro ht s s' hs
  have hafter := hlowers.declaring ht.1 hs
  exact ((hfirst ht.1 s s' hs).append (hmore ht.2 _ _ hafter)).imp
    fun h => .nextStatement h.1 h.2

end Piece.Resolves

/-- Wherever a piece stands, the points of the two programs settle what is known of it. -/
theorem Lowers.resolves {shape : Shape} {p p' : Piece} (h : Lowers .any shape p p') :
    Piece.Resolves T T' shape p p' := by
  induction h with
  -- `hs` relates the two walks where the piece begins; each case gives it on to the parts in the
  -- order in which both programs walk them
  | literal value => exact fun _ s s' hs => .none (.literal value)
  | name _ hname =>
    exact fun _ s s' hs => (Settles.reference hs .read hname _ _).imp fun h => .name h hname
  | assign _ hname _ ih => exact .assign hname ih
  | receiver _ hkeyword =>
    exact fun _ s s' hs =>
      (Settles.reference hs .receiver hkeyword _ _).imp fun h => .receiver h hkeyword
  | inherited _ hkeyword hmethod =>
    exact fun ht s s' hs =>
      (Settles.inherited hs hkeyword ht _ _).imp fun h => .inherited h hkeyword hmethod
  | group _ ih => exact fun ht s s' hs => (ih ht s s' hs).imp .group
  | unary hoperator _ ih => exact fun ht s s' hs => (ih ht s s' hs).imp (.unary hoperator)
  | binary _ hoperator _ ihl ihr =>
    exact fun ht s s' hs => ((ihl ht.1 s s' hs).append (ihr ht.2 s s' hs)).imp
      fun h => .binary h.1 hoperator h.2
  | logical _ hoperator _ ihl ihr =>
    exact fun ht s s' hs => ((ihl ht.1 s s' hs).append (ihr ht.2 s s' hs)).imp
      fun h => .logical h.1 hoperator h.2
  | choice _ _ _ ihc iht ihf => exact .choice ihc iht ihf
  | call _ hparen _ ihc iha =>
    exact fun ht s s' hs => ((ihc ht.1 s s' hs).append (iha ht.2 s s' hs)).imp
      fun h => .call h.1 hparen h.2
  | get _ hname ih => exact fun ht s s' hs => (ih ht s s' hs).imp fun h => .get h hname
  | set _ hname _ iho ihv =>
    exact fun ht s s' hs => ((iho ht.1 s s' hs).append (ihv ht.2 s s' hs)).imp
      fun h => .set h.1 hname h.2
  | functionLiteral _ ih =>
    exact fun ht s s' hs => (ih ht .function s s' hs).imp .functionLiteral
  | absent => exact fun _ s s' hs => .none .absent
  | present _ ih => exact fun ht s s' hs => (ih ht s s' hs).imp .present
  | noExpressions => exact fun _ s s' hs => .none .noExpressions
  | nextExpression _ _ ihe ihes =>
    exact fun ht s s' hs => ((ihe ht.1 s s' hs).append (ihes ht.2 s s' hs)).imp
      fun h => .nextExpression h.1 h.2
  | parts hname hkeyword hparameters hbody ih => exact .parts hname hkeyword hparameters hbody ih
  | noFunctions => exact fun _ role _ _ s s' hs => .none .noFunctions
  | nextFunction hd _ ihd ihds => exact .nextFunction hd ihd ihds
  | classDecl hshared hname hsuperclass _ _ _ _ ihs ihm ihc ihg iht =>
    exact resolves_class hshared hname hsuperclass.isSome_eq ihs ihm ihc ihg iht
  -- a block of the program opens a scope in both; the block of a round is the second's own scope
  -- and is not this case but `rounds`
  | block _ ih =>
    exact fun ht s s' hs => (ih ht _ _ (.scope .block (by decide) hs)).imp .block
  | breakLoop hkeyword =>
    exact fun _ s s' hs => (Settles.check hs .breaks).imp fun _ => .breakLoop hkeyword
  | continueLoop hkeyword =>
    exact fun _ s s' hs => (Settles.check hs .continues).imp fun _ => .continueLoop hkeyword
  | empty => exact fun _ s s' hs => .none .empty
  | expressionStatement _ ih => exact fun ht s s' hs => (ih ht s s' hs).imp .expressionStatement
  | functionDecl hshared hd ih => exact .functionDecl hshared hd ih
  | conditional _ htrue _ ihc iht ihf => exact .conditional htrue ihc iht ihf
  | input hkeyword _ ih =>
    rintro ⟨site, name, rfl, hplain⟩ s s' hs
    exact (ih hplain s s' hs).imp (.input hkeyword)
  | print hkeyword _ ih => exact fun ht s s' hs => (ih ht s s' hs).imp (.print hkeyword)
  | returnValue hkeyword hvalue ih => exact .returnValue hkeyword hvalue ih
  | constant hshared hname _ ih =>
    exact fun ht s s' hs =>
      (ih ht.2 _ _ (initializing hshared hname ht.1 hs)).imp (.constant hshared hname)
  | var hshared hname _ ih =>
    exact fun ht s s' hs =>
      (ih ht.2 _ _ (initializing hshared hname ht.1 hs)).imp (.var hshared hname)
  | loop _ hbody _ ihc ihb ihi => exact .loop hbody ihc ihb ihi
  | rounds hcontinues _ hbody _ ihc ihb ihi => exact .rounds hcontinues hbody ihc ihb ihi
  | noOtherwise => exact fun _ s s' hs => .none .noOtherwise
  | someOtherwise _ ih => exact fun ht s s' hs => (ih ht.1 s s' hs).imp .someOtherwise
  | noStatements => exact fun _ s s' hs => .none .noStatements
  | nextStatement hs _ ihs ihss => exact .nextStatement hs ihs ihss

/-! ## Programs -/

/-- Where no two references share a site, the table of a program says of each how far it is from the
scope that its name belongs to. -/
theorem Resolution.knows {tree : List Stmt} (h : (sitesOf (Stmt.referencesAll tree)).Nodup) :
    (Resolution.ofProgram tree).table.Knows (Program.points tree) := by
  intro p hp r hr
  have hnodup : (sitesOf (Point.references (Program.points tree))).Nodup :=
    ((Stmt.pointsAll_references tree []).map Reference.site).nodup_iff.mpr h
  have htable := (Resolution.records tree).table
  show (Stmt.walkAll tree .start).table[r.site]? = _
  rw [htable]
  exact Table.enter_present hnodup hp hr (by simp [Walk.start])

/-- A program keeps the rules of scope with some of its loops written out, and of references just
that is known which running the two asks for. -/
theorem Lowers.resolution {tree tree' : List Stmt}
    (h : Lowers .any [] (.statements tree) (.statements tree')) (htidy : Stmt.TidyAll tree)
    (hsites : (sitesOf (Stmt.referencesAll tree)).Nodup)
    (hsites' : (sitesOf (Stmt.referencesAll tree')).Nodup)
    (herrors : (Resolution.ofProgram tree).errors = []) :
    (Resolution.ofProgram tree').errors = [] ∧
      Lowers (.found (Resolution.ofProgram tree).table (Resolution.ofProgram tree').table) []
        (.statements tree) (.statements tree') := by
  have hsettles : Settles (Resolution.ofProgram tree).table (Resolution.ofProgram tree').table
      (Program.points tree) (Program.points tree') _ := h.resolves htidy [] [] .top
  have hviolations (tree : List Stmt) : (Resolution.ofProgram tree).errors =
      (Program.points tree).filterMap Point.violation? := (Resolution.records tree).errors
  rw [hviolations, List.filterMap_eq_nil_iff] at herrors
  rw [hviolations, List.filterMap_eq_nil_iff]
  exact ⟨hsettles.clean herrors,
    hsettles.linked (Resolution.knows hsites) (Resolution.knows hsites')⟩

end Lox
