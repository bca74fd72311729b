import Lox.Proofs.Library
import Lox.Proofs.Tree.Shifted
import Lox.Resolution
import Lox.Tree.References

/-!
# Programs that differ in names and lines

A program may be written with another name for some of its variables, or further down in a longer
text. `Alike v marks p p'` says that `p'` is the part `p` of a program in such another writing, and
a `Variation` says what may differ. A scope is marked if its variable of the old name has the new
name in the other writing. `marks` are the marks of the scopes around the part, innermost first, and
a reference has the new name just where its distance leads to a marked scope.
-/

namespace Lox

/-- What may differ between two writings of a program. -/
structure Variation where
  /-- The old name and the new name, if one is changed. -/
  change : Option (String × String)
  /-- How many lines later a token may stand. -/
  lines : Nat
  /-- The distances of references. -/
  table : Table
  /-- The sites that a reference may have in the two writings. -/
  known : Site → Site → Prop
  paired : ∀ i i' j j', known i i' → known j j' → (i = j ↔ i' = j')
  spared : ∀ names ∈ change, ∀ name ∈ ["this", "super"], name ≠ names.1 ∧ name ≠ names.2

namespace Variation

variable (v : Variation)

/-- What a name is in the other writing, where it is that of a variable of a scope. -/
def name (marked : Bool) (name : String) : String :=
  match v.change with
  | some (old, new) => if marked && name = old then new else name
  | none => name

/-- The name is not the new one. -/
def Fresh (name : String) : Prop :=
  ∀ names ∈ v.change, name ≠ names.2

/-- The same token, perhaps some lines later. -/
def Keeps (t t' : Token) : Prop :=
  t' = t ∨ t' = t.later v.lines

/-- The name of a variable of a scope. -/
structure Names (marked : Bool) (t t' : Token) : Prop where
  fresh : v.Fresh t.lexeme
  keeps : v.Keeps (t.renamed (v.name marked t.lexeme)) t'

/-- A name that a scope introduces and that is the same in the other writing. -/
structure Stays (marked : Bool) (name : String) : Prop where
  fresh : v.Fresh name
  same : v.name marked name = name

/-- Does the distance of a reference lead to a marked scope? -/
def marked (marks : List Bool) (site : Site) : Bool :=
  match v.table[site]? with
  | some distance => marks[distance]?.getD false
  | none => false

variable {v}

/-- A token keeps its text on another line. -/
theorem Keeps.lexeme {t t' : Token} (h : v.Keeps t t') : t'.lexeme = t.lexeme := by
  rcases h with rfl | rfl <;> rfl

/-- A token keeps its kind on another line. -/
theorem Keeps.kind {t t' : Token} (h : v.Keeps t t') : t'.kind = t.kind := by
  rcases h with rfl | rfl <;> rfl

/-- The text of a name in the other writing. -/
theorem Names.lexeme {marked : Bool} {t t' : Token} (h : v.Names marked t t') :
    t'.lexeme = v.name marked t.lexeme :=
  h.keeps.lexeme

/-- A name that stays is written as it is. -/
theorem Stays.names {marked : Bool} {t t' : Token} (h : v.Stays marked t.lexeme)
    (ht : v.Keeps t t') : v.Names marked t t' :=
  ⟨h.fresh, by rwa [h.same]⟩

/-- Where no scope is marked, no name is changed. -/
theorem name_false (name : String) : v.name false name = name := by
  unfold Variation.name
  split <;> rfl

/-- Names that are not the new one stay different, whether they are changed or not. -/
theorem name_injective {marked marked' : Bool} {j k : String} (hj : v.Fresh j) (hk : v.Fresh k)
    (h : v.name marked j = v.name marked' k) : j = k := by
  unfold Variation.name at h
  cases hchange : v.change with
  | none => simpa [hchange] using h
  | some names =>
    obtain ⟨old, new⟩ := names
    have hj' : j ≠ new := hj _ hchange
    have hk' : k ≠ new := hk _ hchange
    rw [hchange] at h
    dsimp only at h
    by_cases holdj : (marked && decide (j = old)) = true
    · by_cases holdk : (marked' && decide (k = old)) = true
      · simp_all
      · rw [if_pos holdj, if_neg holdk] at h
        exact absurd h.symm hk'
    · by_cases holdk : (marked' && decide (k = old)) = true
      · rw [if_neg holdj, if_pos holdk] at h
        exact absurd h hj'
      · rwa [if_neg holdj, if_neg holdk] at h

/-- `this` and `super` are no names of variables. -/
theorem stays_spared (marked : Bool) {name : String} (h : name ∈ ["this", "super"]) :
    v.Stays marked name := by
  refine ⟨fun names hnames => (v.spared names hnames name h).2, ?_⟩
  unfold Variation.name
  cases hchange : v.change with
  | none => rfl
  | some names =>
    have hold := (v.spared names hchange name h).1
    simp [hold]

/-- `this` is never renamed. -/
theorem stays_this (marked : Bool) : v.Stays marked "this" :=
  stays_spared marked (by simp)

/-- `super` is never renamed. -/
theorem stays_super (marked : Bool) : v.Stays marked "super" :=
  stays_spared marked (by simp)

end Variation

/-- A part of a program. -/
inductive Piece where
  | expression (e : Expr)
  | optional (e : Option Expr)
  | expressions (es : List Expr)
  | statement (s : Stmt)
  | otherwise (s : Option Stmt)
  | statements (ss : List Stmt)
  | function (d : FunctionDecl)
  | functions (ds : List FunctionDecl)

/-- The marks of the scopes around the members of a class: none is marked that holds `this` or
`super`. -/
def memberMarks (derived : Bool) (marks : List Bool) : List Bool :=
  false :: if derived then false :: marks else marks

/-- The second piece is the first one in the other writing. -/
inductive Alike (v : Variation) : List Bool → Piece → Piece → Prop where
  -- expressions
  | literal {marks : List Bool} (value : Literal) :
      Alike v marks (.expression (.literal value)) (.expression (.literal value))
  | name {marks : List Bool} {site site' : Site} {name name' : Token} (hknown : v.known site site')
      (hname : v.Names (v.marked marks site) name name') :
      Alike v marks (.expression (.variable site name)) (.expression (.variable site' name'))
  | assign {marks : List Bool} {site site' : Site} {name name' : Token} {value value' : Expr}
      (hknown : v.known site site') (hname : v.Names (v.marked marks site) name name')
      (hvalue : Alike v marks (.expression value) (.expression value')) :
      Alike v marks (.expression (.assign site name value))
        (.expression (.assign site' name' value'))
  | receiver {marks : List Bool} {site site' : Site} {keyword keyword' : Token}
      (hknown : v.known site site') (hname : v.Names (v.marked marks site) keyword keyword') :
      Alike v marks (.expression (.receiver site keyword)) (.expression (.receiver site' keyword'))
  | inherited {marks : List Bool} {site site' : Site} {keyword keyword' method method' : Token}
      (hknown : v.known site site') (hname : v.Names (v.marked marks site) keyword keyword')
      (hmethod : v.Keeps method method') :
      Alike v marks (.expression (.inherited site keyword method))
        (.expression (.inherited site' keyword' method'))
  | group {marks : List Bool} {inner inner' : Expr}
      (hinner : Alike v marks (.expression inner) (.expression inner')) :
      Alike v marks (.expression (.group inner)) (.expression (.group inner'))
  | unary {marks : List Bool} {operator operator' : Token} {operand operand' : Expr}
      (hoperator : v.Keeps operator operator')
      (hoperand : Alike v marks (.expression operand) (.expression operand')) :
      Alike v marks (.expression (.unary operator operand))
        (.expression (.unary operator' operand'))
  | binary {marks : List Bool} {left left' right right' : Expr} {operator operator' : Token}
      (hleft : Alike v marks (.expression left) (.expression left'))
      (hoperator : v.Keeps operator operator')
      (hright : Alike v marks (.expression right) (.expression right')) :
      Alike v marks (.expression (.binary left operator right))
        (.expression (.binary left' operator' right'))
  | logical {marks : List Bool} {left left' right right' : Expr} {operator operator' : Token}
      (hleft : Alike v marks (.expression left) (.expression left'))
      (hoperator : v.Keeps operator operator')
      (hright : Alike v marks (.expression right) (.expression right')) :
      Alike v marks (.expression (.logical left operator right))
        (.expression (.logical left' operator' right'))
  | choice {marks : List Bool}
      {condition condition' whenTrue whenTrue' whenFalse whenFalse' : Expr}
      (hcondition : Alike v marks (.expression condition) (.expression condition'))
      (htrue : Alike v marks (.expression whenTrue) (.expression whenTrue'))
      (hfalse : Alike v marks (.expression whenFalse) (.expression whenFalse')) :
      Alike v marks (.expression (.conditional condition whenTrue whenFalse))
        (.expression (.conditional condition' whenTrue' whenFalse'))
  | call {marks : List Bool} {callee callee' : Expr} {paren paren' : Token}
      {arguments arguments' : List Expr}
      (hcallee : Alike v marks (.expression callee) (.expression callee'))
      (hparen : v.Keeps paren paren')
      (harguments : Alike v marks (.expressions arguments) (.expressions arguments')) :
      Alike v marks (.expression (.call callee paren arguments))
        (.expression (.call callee' paren' arguments'))
  | get {marks : List Bool} {object object' : Expr} {name name' : Token}
      (hobject : Alike v marks (.expression object) (.expression object'))
      (hname : v.Keeps name name') :
      Alike v marks (.expression (.get object name)) (.expression (.get object' name'))
  | set {marks : List Bool} {object object' value value' : Expr} {name name' : Token}
      (hobject : Alike v marks (.expression object) (.expression object'))
      (hname : v.Keeps name name')
      (hvalue : Alike v marks (.expression value) (.expression value')) :
      Alike v marks (.expression (.set object name value)) (.expression (.set object' name' value'))
  | functionLiteral {marks : List Bool} {d d' : FunctionDecl}
      (hd : Alike v marks (.function d) (.function d')) :
      Alike v marks (.expression (.function d)) (.expression (.function d'))
  -- rows of expressions
  | absent {marks : List Bool} : Alike v marks (.optional none) (.optional none)
  | present {marks : List Bool} {e e' : Expr}
      (he : Alike v marks (.expression e) (.expression e')) :
      Alike v marks (.optional (some e)) (.optional (some e'))
  | noExpressions {marks : List Bool} : Alike v marks (.expressions []) (.expressions [])
  | nextExpression {marks : List Bool} {e e' : Expr} {es es' : List Expr}
      (he : Alike v marks (.expression e) (.expression e'))
      (hes : Alike v marks (.expressions es) (.expressions es')) :
      Alike v marks (.expressions (e :: es)) (.expressions (e' :: es'))
  -- functions and classes
  | parts {marks : List Bool} {name name' : Option Token} {keyword keyword' : Token}
      {parameters parameters' : List Token} {body body' : List Stmt} (mark : Bool)
      (hname : Option.Rel v.Keeps name name') (hkeyword : v.Keeps keyword keyword')
      (hparameters : List.Forall₂ (v.Names mark) parameters parameters')
      (hbody : Alike v (mark :: marks) (.statements body) (.statements body')) :
      Alike v marks (.function ⟨name, keyword, parameters, body⟩)
        (.function ⟨name', keyword', parameters', body'⟩)
  | noFunctions {marks : List Bool} : Alike v marks (.functions []) (.functions [])
  | nextFunction {marks : List Bool} {d d' : FunctionDecl} {ds ds' : List FunctionDecl}
      (hd : Alike v marks (.function d) (.function d'))
      (hds : Alike v marks (.functions ds) (.functions ds')) :
      Alike v marks (.functions (d :: ds)) (.functions (d' :: ds'))
  | classDecl {marks : List Bool} {name name' : Token} {superclass superclass' : Option Expr}
      {methods methods' classMethods classMethods' getters getters' setters setters' :
        List FunctionDecl}
      (hstays : v.Stays (marks.headD false) name.lexeme) (hname : v.Keeps name name')
      (hsuperclass : Alike v marks (.optional superclass) (.optional superclass'))
      (hmethods : Alike v (memberMarks superclass.isSome marks) (.functions methods)
        (.functions methods'))
      (hclassMethods : Alike v (memberMarks superclass.isSome marks) (.functions classMethods)
        (.functions classMethods'))
      (hgetters : Alike v (memberMarks superclass.isSome marks) (.functions getters)
        (.functions getters'))
      (hsetters : Alike v (memberMarks superclass.isSome marks) (.functions setters)
        (.functions setters')) :
      Alike v marks
        (.statement (.classDecl ⟨name, superclass, methods, classMethods, getters, setters⟩))
        (.statement (.classDecl ⟨name', superclass', methods', classMethods', getters', setters'⟩))
  -- statements
  | block {marks : List Bool} {body body' : List Stmt} (mark : Bool)
      (hbody : Alike v (mark :: marks) (.statements body) (.statements body')) :
      Alike v marks (.statement (.block body)) (.statement (.block body'))
  | breakLoop {marks : List Bool} {keyword keyword' : Token} (hkeyword : v.Keeps keyword keyword') :
      Alike v marks (.statement (.breakLoop keyword)) (.statement (.breakLoop keyword'))
  | continueLoop {marks : List Bool} {keyword keyword' : Token}
      (hkeyword : v.Keeps keyword keyword') :
      Alike v marks (.statement (.continueLoop keyword)) (.statement (.continueLoop keyword'))
  | empty {marks : List Bool} : Alike v marks (.statement .empty) (.statement .empty)
  | expressionStatement {marks : List Bool} {value value' : Expr}
      (hvalue : Alike v marks (.expression value) (.expression value')) :
      Alike v marks (.statement (.expression value)) (.statement (.expression value'))
  | functionDecl {marks : List Bool} {d d' : FunctionDecl}
      (hstays : v.Stays (marks.headD false) ((d.name.map Token.lexeme).getD ""))
      (hd : Alike v marks (.function d) (.function d')) :
      Alike v marks (.statement (.functionDecl d)) (.statement (.functionDecl d'))
  | conditional {marks : List Bool} {condition condition' : Expr} {whenTrue whenTrue' : Stmt}
      {whenFalse whenFalse' : Option Stmt}
      (hcondition : Alike v marks (.expression condition) (.expression condition'))
      (htrue : Alike v marks (.statement whenTrue) (.statement whenTrue'))
      (hfalse : Alike v marks (.otherwise whenFalse) (.otherwise whenFalse')) :
      Alike v marks (.statement (.conditional condition whenTrue whenFalse))
        (.statement (.conditional condition' whenTrue' whenFalse'))
  | input {marks : List Bool} {keyword keyword' : Token} {target target' : Expr}
      (hkeyword : v.Keeps keyword keyword')
      (htarget : Alike v marks (.expression target) (.expression target')) :
      Alike v marks (.statement (.input keyword target)) (.statement (.input keyword' target'))
  | print {marks : List Bool} {keyword keyword' : Token} {value value' : Expr}
      (hkeyword : v.Keeps keyword keyword')
      (hvalue : Alike v marks (.expression value) (.expression value')) :
      Alike v marks (.statement (.print keyword value)) (.statement (.print keyword' value'))
  | returnValue {marks : List Bool} {keyword keyword' : Token} {value value' : Option Expr}
      (hkeyword : v.Keeps keyword keyword')
      (hvalue : Alike v marks (.optional value) (.optional value')) :
      Alike v marks (.statement (.returnValue keyword value))
        (.statement (.returnValue keyword' value'))
  | constant {marks : List Bool} {name name' : Token} {value value' : Expr}
      (hname : v.Names (marks.headD false) name name')
      (hvalue : Alike v marks (.expression value) (.expression value')) :
      Alike v marks (.statement (.constant name value)) (.statement (.constant name' value'))
  | var {marks : List Bool} {name name' : Token} {value value' : Option Expr}
      (hname : v.Names (marks.headD false) name name')
      (hvalue : Alike v marks (.optional value) (.optional value')) :
      Alike v marks (.statement (.var name value)) (.statement (.var name' value'))
  | loop {marks : List Bool} {condition condition' : Expr} {body body' : Stmt}
      {increment increment' : Option Expr}
      (hcondition : Alike v marks (.expression condition) (.expression condition'))
      (hbody : Alike v marks (.statement body) (.statement body'))
      (hincrement : Alike v marks (.optional increment) (.optional increment')) :
      Alike v marks (.statement (.loop condition body increment))
        (.statement (.loop condition' body' increment'))
  -- rows of statements
  | noOtherwise {marks : List Bool} : Alike v marks (.otherwise none) (.otherwise none)
  | someOtherwise {marks : List Bool} {s s' : Stmt}
      (hs : Alike v marks (.statement s) (.statement s')) :
      Alike v marks (.otherwise (some s)) (.otherwise (some s'))
  | noStatements {marks : List Bool} : Alike v marks (.statements []) (.statements [])
  | nextStatement {marks : List Bool} {s s' : Stmt} {ss ss' : List Stmt}
      (hs : Alike v marks (.statement s) (.statement s'))
      (hss : Alike v marks (.statements ss) (.statements ss')) :
      Alike v marks (.statements (s :: ss)) (.statements (s' :: ss'))

/-- What is seen of a declaration is the same in the other writing. -/
theorem Alike.declaration {v : Variation} {marks : List Bool} {d d' : FunctionDecl}
    (h : Alike v marks (.function d) (.function d')) :
    d'.name.map Token.lexeme = d.name.map Token.lexeme ∧ d'.memberName = d.memberName ∧
      d'.parameters.length = d.parameters.length := by
  cases h with
  | parts mark hname hkeyword hparameters hbody =>
    refine ⟨?_, ?_, hparameters.length_eq.symm⟩
    · cases hname with
      | none => rfl
      | some hname => exact congrArg some hname.lexeme
    · cases hname with
      | none => exact hkeyword.lexeme
      | some hname => exact hname.lexeme

/-! ## Other variations -/

/-- Neither variation changes a name, and what may differ by the first may differ by the second. -/
structure Variation.Within (v v' : Variation) : Prop where
  change : v.change = none
  change' : v'.change = none
  lines : v.lines = 0 ∨ v.lines = v'.lines
  known : ∀ i i', v.known i i' → v'.known i i'

namespace Variation

/-- Without a change every name stays. -/
theorem stays_of_change {v : Variation} (h : v.change = none) (marked : Bool) (name : String) :
    v.Stays marked name := by
  refine ⟨fun names hnames => ?_, ?_⟩
  · rw [h] at hnames
    cases hnames
  · unfold Variation.name
    rw [h]

namespace Within

variable {v v' : Variation} (h : v.Within v')

include h

/-- A token that may differ by the first variation may do so by the second. -/
theorem keeps {t t' : Token} (ht : v.Keeps t t') : v'.Keeps t t' := by
  rcases ht with rfl | rfl
  · exact .inl rfl
  · rcases h.lines with hlines | hlines
    · rw [hlines]
      exact .inl rfl
    · rw [hlines]
      exact .inr rfl

/-- A name that may differ by the first variation may do so by the second; as no name is changed,
marks do not matter. -/
theorem names {marked marked' : Bool} {t t' : Token} (ht : v.Names marked t t') :
    v'.Names marked' t t' := by
  have hkeeps := ht.keeps
  rw [(stays_of_change h.change marked t.lexeme).same] at hkeeps
  exact (stays_of_change h.change' marked' t.lexeme).names (h.keeps hkeeps)

end Within

end Variation

/-- What is alike by a variation is alike by a wider one. -/
theorem Alike.vary {v v' : Variation} (hv : v.Within v') {marks : List Bool} {p p' : Piece}
    (h : Alike v marks p p') : Alike v' marks p p' := by
  induction h with
  | literal value => exact .literal value
  | name hsite hname => exact .name (hv.known _ _ hsite) (hv.names hname)
  | assign hsite hname _ ihvalue => exact .assign (hv.known _ _ hsite) (hv.names hname) ihvalue
  | receiver hsite hname => exact .receiver (hv.known _ _ hsite) (hv.names hname)
  | inherited hsite hname hmethod =>
    exact .inherited (hv.known _ _ hsite) (hv.names hname) (hv.keeps hmethod)
  | group _ ih => exact .group ih
  | unary hoperator _ ih => exact .unary (hv.keeps hoperator) ih
  | binary _ hoperator _ ihleft ihright => exact .binary ihleft (hv.keeps hoperator) ihright
  | logical _ hoperator _ ihleft ihright => exact .logical ihleft (hv.keeps hoperator) ihright
  | choice _ _ _ ihcondition ihtrue ihfalse => exact .choice ihcondition ihtrue ihfalse
  | call _ hparen _ ihcallee iharguments => exact .call ihcallee (hv.keeps hparen) iharguments
  | get _ hname ih => exact .get ih (hv.keeps hname)
  | set _ hname _ ihobject ihvalue => exact .set ihobject (hv.keeps hname) ihvalue
  | functionLiteral _ ih => exact .functionLiteral ih
  | absent => exact .absent
  | present _ ih => exact .present ih
  | noExpressions => exact .noExpressions
  | nextExpression _ _ ihe ihes => exact .nextExpression ihe ihes
  | parts mark hname hkeyword hparameters _ ih =>
    exact .parts mark (hname.imp fun _ _ h => hv.keeps h) (hv.keeps hkeyword)
      (hparameters.imp fun _ _ h => hv.names h) ih
  | noFunctions => exact .noFunctions
  | nextFunction _ _ ihd ihds => exact .nextFunction ihd ihds
  | classDecl hstays hname _ _ _ _ _ ihs ihm ihc ihg iht =>
    exact .classDecl (Variation.stays_of_change hv.change' _ _) (hv.keeps hname) ihs ihm ihc ihg iht
  | block mark _ ih => exact .block mark ih
  | breakLoop hkeyword => exact .breakLoop (hv.keeps hkeyword)
  | continueLoop hkeyword => exact .continueLoop (hv.keeps hkeyword)
  | empty => exact .empty
  | expressionStatement _ ih => exact .expressionStatement ih
  | functionDecl hstays _ ih => exact .functionDecl (Variation.stays_of_change hv.change' _ _) ih
  | conditional _ _ _ ihcondition ihtrue ihfalse => exact .conditional ihcondition ihtrue ihfalse
  | input hkeyword _ ih => exact .input (hv.keeps hkeyword) ih
  | print hkeyword _ ih => exact .print (hv.keeps hkeyword) ih
  | returnValue hkeyword _ ih => exact .returnValue (hv.keeps hkeyword) ih
  | constant hname _ ih => exact .constant (hv.names hname) ih
  | var hname _ ih => exact .var (hv.names hname) ih
  | loop _ _ _ ihcondition ihbody ihincrement => exact .loop ihcondition ihbody ihincrement
  | noOtherwise => exact .noOtherwise
  | someOtherwise _ ih => exact .someOtherwise ih
  | noStatements => exact .noStatements
  | nextStatement _ _ ihs ihss => exact .nextStatement ihs ihss

/-! ## Later lines -/

/-- The variation allows for the same text so many lines later. -/
structure Variation.Moves (v : Variation) (lines : Nat) : Prop where
  change : v.change = none
  lines : lines = 0 ∨ lines = v.lines

/-- Nothing differs but lines, and references may occur that have these sites in both writings. -/
def Variation.lined (lines : Nat) (table : Table) (sites : Site → Prop) : Variation where
  change := none
  lines := lines
  table := table
  known i i' := i' = i ∧ sites i
  paired := by
    rintro i i' j j' ⟨rfl, -⟩ ⟨rfl, -⟩
    exact Iff.rfl
  spared := fun _ h => nomatch h

/-- Where nothing but lines may differ, the text may stand later. -/
theorem Variation.lined_moves (lines : Nat) (table : Table) (sites : Site → Prop) :
    (Variation.lined lines table sites).Moves lines :=
  ⟨rfl, .inr rfl⟩

namespace Variation.Moves

variable {v : Variation} {lines : Nat} (hv : v.Moves lines)

include hv

/-- A token may stand later. -/
theorem keeps (t : Token) : v.Keeps t (t.later lines) := by
  rcases hv.lines with rfl | rfl
  · exact .inl rfl
  · exact .inr rfl

/-- A variation that changes no name lets every name stay. -/
theorem stays (marked : Bool) (name : String) : v.Stays marked name :=
  stays_of_change hv.change marked name

/-- Every name may stand later as it is. -/
theorem names (marked : Bool) (t : Token) : v.Names marked t (t.later lines) := by
  obtain ⟨hfresh, hsame⟩ := hv.stays marked t.lexeme
  refine ⟨hfresh, ?_⟩
  rw [hsame]
  exact hv.keeps t

/-- Names in a row may stand later as they are. -/
theorem allNames (marked : Bool) (ts : List Token) :
    List.Forall₂ (v.Names marked) ts (ts.map (Token.later lines)) := by
  rw [List.forall₂_map_right_iff]
  exact List.forall₂_same.mpr fun t _ => hv.names marked t

/-- A token that may be absent may stand later. -/
theorem keepsOption (t : Option Token) : Option.Rel v.Keeps t (t.map (Token.later lines)) := by
  cases t with
  | none => exact .none
  | some t => exact .some (hv.keeps t)

end Variation.Moves

/-- The references of a part may occur. -/
def Variation.Knows (v : Variation) (references : List Reference) : Prop :=
  ∀ r ∈ references, v.known r.site r.site

/-- The references of two parts may occur if those of each may. -/
theorem Variation.knows_append {v : Variation} {rs ss : List Reference} :
    v.Knows (rs ++ ss) ↔ v.Knows rs ∧ v.Knows ss :=
  List.forall_mem_append

section Moves

variable {v : Variation} {lines : Nat}

mutual

/-- An expression on later lines is alike, if its references may occur. -/
theorem Expr.alike_later (hv : v.Moves lines) (marks : List Bool) :
    ∀ e : Expr, v.Knows e.references →
    Alike v marks (.expression e) (.expression (e.shifted ⟨lines, id⟩))
  | .literal value, _ => .literal value
  | .variable _ name, h =>
    .name (h _ (List.mem_singleton_self _)) (hv.names _ name)
  | .assign _ name value, h =>
    .assign (h _ List.mem_cons_self) (hv.names _ name)
      (Expr.alike_later hv marks value fun r hr => h r (List.mem_cons_of_mem _ hr))
  | .receiver _ keyword, h =>
    .receiver (h _ (List.mem_singleton_self _)) (hv.names _ keyword)
  | .inherited _ keyword method, h =>
    .inherited (h _ (List.mem_singleton_self _)) (hv.names _ keyword)
      (hv.keeps method)
  | .group inner, h => .group (Expr.alike_later hv marks inner h)
  | .unary operator operand, h =>
    .unary (hv.keeps operator) (Expr.alike_later hv marks operand h)
  | .binary left operator right, h =>
    .binary (Expr.alike_later hv marks left (Variation.knows_append.mp h).1)
      (hv.keeps operator)
      (Expr.alike_later hv marks right (Variation.knows_append.mp h).2)
  | .logical left operator right, h =>
    .logical (Expr.alike_later hv marks left (Variation.knows_append.mp h).1)
      (hv.keeps operator)
      (Expr.alike_later hv marks right (Variation.knows_append.mp h).2)
  | .conditional condition whenTrue whenFalse, h =>
    .choice
      (Expr.alike_later hv marks condition
        (Variation.knows_append.mp (Variation.knows_append.mp h).1).1)
      (Expr.alike_later hv marks whenTrue
        (Variation.knows_append.mp (Variation.knows_append.mp h).1).2)
      (Expr.alike_later hv marks whenFalse (Variation.knows_append.mp h).2)
  | .call callee paren arguments, h =>
    .call (Expr.alike_later hv marks callee (Variation.knows_append.mp h).1)
      (hv.keeps paren)
      (Expr.alikeAll_later hv marks arguments (Variation.knows_append.mp h).2)
  | .get object name, h => .get (Expr.alike_later hv marks object h) (hv.keeps name)
  | .set object name value, h =>
    .set (Expr.alike_later hv marks object (Variation.knows_append.mp h).1)
      (hv.keeps name)
      (Expr.alike_later hv marks value (Variation.knows_append.mp h).2)
  | .function declaration, h => .functionLiteral (FunctionDecl.alike_later hv marks declaration h)

theorem Expr.alikeAll_later (hv : v.Moves lines) (marks : List Bool) : ∀ es : List Expr,
    v.Knows (Expr.referencesAll es) →
    Alike v marks (.expressions es) (.expressions (Expr.shiftedAll ⟨lines, id⟩ es))
  | [], _ => .noExpressions
  | e :: es, h =>
    .nextExpression (Expr.alike_later hv marks e (Variation.knows_append.mp h).1)
      (Expr.alikeAll_later hv marks es (Variation.knows_append.mp h).2)

theorem Expr.alikeOption_later (hv : v.Moves lines) (marks : List Bool) : ∀ e : Option Expr,
    v.Knows (Expr.referencesOption e) →
    Alike v marks (.optional e) (.optional (Expr.shiftedOption ⟨lines, id⟩ e))
  | none, _ => .absent
  | some e, h => .present (Expr.alike_later hv marks e h)

/-- A statement on later lines is alike, if its references may occur. -/
theorem Stmt.alike_later (hv : v.Moves lines) (marks : List Bool) :
    ∀ s : Stmt, v.Knows s.references →
    Alike v marks (.statement s) (.statement (s.shifted ⟨lines, id⟩))
  | .block body, h => .block false (Stmt.alikeAll_later hv (false :: marks) body h)
  | .breakLoop keyword, _ => .breakLoop (hv.keeps keyword)
  | .continueLoop keyword, _ => .continueLoop (hv.keeps keyword)
  | .classDecl declaration, h => ClassDecl.alike_later hv marks declaration h
  | .empty, _ => .empty
  | .expression value, h => .expressionStatement (Expr.alike_later hv marks value h)
  | .functionDecl declaration, h =>
    .functionDecl (hv.stays _ _) (FunctionDecl.alike_later hv marks declaration h)
  | .conditional condition whenTrue whenFalse, h =>
    .conditional
      (Expr.alike_later hv marks condition
        (Variation.knows_append.mp (Variation.knows_append.mp h).1).1)
      (Stmt.alike_later hv marks whenTrue
        (Variation.knows_append.mp (Variation.knows_append.mp h).1).2)
      (Stmt.alikeOption_later hv marks whenFalse (Variation.knows_append.mp h).2)
  | .input keyword target, h =>
    .input (hv.keeps keyword) (Expr.alike_later hv marks target h)
  | .print keyword value, h =>
    .print (hv.keeps keyword) (Expr.alike_later hv marks value h)
  | .returnValue keyword value, h =>
    .returnValue (hv.keeps keyword) (Expr.alikeOption_later hv marks value h)
  | .constant name value, h =>
    .constant (hv.names _ name) (Expr.alike_later hv marks value h)
  | .var name value, h =>
    .var (hv.names _ name) (Expr.alikeOption_later hv marks value h)
  | .loop condition body increment, h =>
    .loop
      (Expr.alike_later hv marks condition
        (Variation.knows_append.mp (Variation.knows_append.mp h).1).1)
      (Stmt.alike_later hv marks body
        (Variation.knows_append.mp (Variation.knows_append.mp h).1).2)
      (Expr.alikeOption_later hv marks increment (Variation.knows_append.mp h).2)

/-- Statements on later lines are alike, if their references may occur. -/
theorem Stmt.alikeAll_later (hv : v.Moves lines) (marks : List Bool) : ∀ ss : List Stmt,
    v.Knows (Stmt.referencesAll ss) →
    Alike v marks (.statements ss) (.statements (Stmt.shiftedAll ⟨lines, id⟩ ss))
  | [], _ => .noStatements
  | s :: ss, h =>
    .nextStatement (Stmt.alike_later hv marks s (Variation.knows_append.mp h).1)
      (Stmt.alikeAll_later hv marks ss (Variation.knows_append.mp h).2)

theorem Stmt.alikeOption_later (hv : v.Moves lines) (marks : List Bool) : ∀ s : Option Stmt,
    v.Knows (Stmt.referencesOption s) →
    Alike v marks (.otherwise s) (.otherwise (Stmt.shiftedOption ⟨lines, id⟩ s))
  | none, _ => .noOtherwise
  | some s, h => .someOtherwise (Stmt.alike_later hv marks s h)

/-- A function on later lines is alike, if its references may occur. -/
theorem FunctionDecl.alike_later (hv : v.Moves lines) (marks : List Bool) : ∀ d : FunctionDecl,
    v.Knows d.references → Alike v marks (.function d) (.function (d.shifted ⟨lines, id⟩))
  | ⟨name, keyword, parameters, body⟩, h =>
    .parts false (hv.keepsOption name) (hv.keeps keyword)
      (hv.allNames false parameters)
      (Stmt.alikeAll_later hv (false :: marks) body h)

theorem FunctionDecl.alikeAll_later (hv : v.Moves lines) (marks : List Bool) :
    ∀ ds : List FunctionDecl,
    v.Knows (FunctionDecl.referencesAll ds) →
    Alike v marks (.functions ds) (.functions (FunctionDecl.shiftedAll ⟨lines, id⟩ ds))
  | [], _ => .noFunctions
  | d :: ds, h =>
    .nextFunction (FunctionDecl.alike_later hv marks d (Variation.knows_append.mp h).1)
      (FunctionDecl.alikeAll_later hv marks ds (Variation.knows_append.mp h).2)

/-- A class on later lines is alike, if its references may occur. -/
theorem ClassDecl.alike_later (hv : v.Moves lines) (marks : List Bool) :
    ∀ d : ClassDecl, v.Knows d.references →
    Alike v marks (.statement (.classDecl d)) (.statement (.classDecl (d.shifted ⟨lines, id⟩)))
  | ⟨name, superclass, methods, classMethods, getters, setters⟩, h => by
    obtain ⟨h, hclassMethods⟩ := Variation.knows_append.mp h
    obtain ⟨h, hsetters⟩ := Variation.knows_append.mp h
    obtain ⟨h, hgetters⟩ := Variation.knows_append.mp h
    obtain ⟨hsuperclass, hmethods⟩ := Variation.knows_append.mp h
    exact .classDecl (hv.stays _ _) (hv.keeps name)
      (Expr.alikeOption_later hv marks superclass hsuperclass)
      (FunctionDecl.alikeAll_later hv _ methods hmethods)
      (FunctionDecl.alikeAll_later hv _ classMethods hclassMethods)
      (FunctionDecl.alikeAll_later hv _ getters hgetters)
      (FunctionDecl.alikeAll_later hv _ setters hsetters)

end

end Moves

end Lox
