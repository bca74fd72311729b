import Lox.Proofs.Twin.Resited

/-!
# Loops written out

A `for` is a `while` whose rounds end with the increment. `Lowers k shape p p'` says that `p'` is
the part `p` of a program with some of its loops written out so: the body and the increment become
the statements of a block. The block is a scope that the program did not have, and so whatever is
bound around the loop lies one scope further out. A `Shape` tells which scopes around a part are
such ones, and `Links` say what is known of the references in the two parts.
-/

namespace Lox

/-! ## Tokens -/

/-- The same token, perhaps on another line. -/
def Token.Same (t t' : Token) : Prop :=
  t' = { t with line := t'.line }

namespace Token.Same

variable {t t' : Token}

theorem kind (h : t.Same t') : t'.kind = t.kind :=
  (congrArg Token.kind h :)

theorem lexeme (h : t.Same t') : t'.lexeme = t.lexeme :=
  (congrArg Token.lexeme h :)

theorem of_eq (hkind : t'.kind = t.kind) (hlexeme : t'.lexeme = t.lexeme) : t.Same t' := by
  obtain ⟨kind, lexeme, line⟩ := t'
  cases hkind
  cases hlexeme
  rfl

end Token.Same

/-! ## Scopes that only the second program has -/

/-- The scopes around a part, innermost first. The marked ones are in both programs, the others only
in the second one. -/
abbrev Shape := List Bool

namespace Shape

/-- The distance in the second program of the scope that is at a distance in the first one. -/
def far : Shape → Nat → Nat
  | [], distance => distance
  | false :: outer, distance => far outer distance + 1
  | true :: _, 0 => 0
  | true :: outer, distance + 1 => far outer distance + 1

/-- The scopes from the one at a distance in the first program on. -/
def beyond : Shape → Nat → Shape
  | [], _ => []
  | false :: outer, distance => beyond outer distance
  | true :: outer, 0 => true :: outer
  | true :: outer, distance + 1 => beyond outer distance

/-- The innermost scope is in both programs. -/
def Shared (shape : Shape) : Prop :=
  shape.head? ≠ some false

theorem shared_nil : Shared [] :=
  nofun

theorem shared_cons (outer : Shape) : Shared (true :: outer) :=
  nofun

theorem beyond_shared (shape : Shape) (distance : Nat) : (shape.beyond distance).Shared := by
  induction shape generalizing distance with
  | nil => exact shared_nil
  | cons shared outer ih =>
    cases shared with
    | false => exact ih distance
    | true =>
      cases distance with
      | zero => exact shared_cons outer
      | succ distance => exact ih distance

/-- The scopes around the members of a class. -/
def members (derived : Bool) (shape : Shape) : Shape :=
  true :: if derived then true :: shape else shape

end Shape

/-- What is known of a reference in the two programs, by its sites in them: of every one, and of
those by `super`. -/
structure Links where
  refers : Shape → Site → Site → Prop
  inherits : Shape → Site → Site → Prop

/-- Nothing is known. -/
def Links.any : Links :=
  ⟨fun _ _ _ => True, fun _ _ _ => True⟩

/-- References have the same sites. -/
def Links.same : Links :=
  ⟨fun _ i i' => i' = i, fun _ i i' => i' = i⟩

/-! ## Loops -/

mutual

/-- Does a `continue` in the statement belong to a loop around it? -/
def Stmt.continues : Stmt → Bool
  | .continueLoop _ => true
  | .block body => Stmt.continuesAny body
  | .conditional _ whenTrue whenFalse =>
    whenTrue.continues || Stmt.continuesOption whenFalse
  | .breakLoop _ | .classDecl _ | .empty | .expression _ | .functionDecl _ | .input _ _
  | .print _ _ | .returnValue _ _ | .constant _ _ | .var _ _ | .loop _ _ _ => false

/-- Does a `continue` in one of the statements belong to a loop around them? -/
def Stmt.continuesAny : List Stmt → Bool
  | [] => false
  | s :: ss => s.continues || Stmt.continuesAny ss

/-- The same of a statement that may be absent. -/
def Stmt.continuesOption : Option Stmt → Bool
  | none => false
  | some s => s.continues

end

/-- One round of a loop as a block: the body, and then the increment. -/
def Stmt.round (body : Stmt) (increment : Option Expr) : Stmt :=
  .block (body :: (increment.map Stmt.expression).toList)

/-- The second piece is the first one with some loops written out. -/
inductive Lowers (k : Links) : Shape → Piece → Piece → Prop where
  -- expressions
  | literal {shape : Shape} (value : Literal) :
      Lowers k shape (.expression (.literal value)) (.expression (.literal value))
  | name {shape : Shape} {site site' : Site} {name name' : Token}
      (hlink : k.refers shape site site') (hname : name.Same name') :
      Lowers k shape (.expression (.variable site name)) (.expression (.variable site' name'))
  | assign {shape : Shape} {site site' : Site} {name name' : Token} {value value' : Expr}
      (hlink : k.refers shape site site') (hname : name.Same name')
      (hvalue : Lowers k shape (.expression value) (.expression value')) :
      Lowers k shape (.expression (.assign site name value))
        (.expression (.assign site' name' value'))
  | receiver {shape : Shape} {site site' : Site} {keyword keyword' : Token}
      (hlink : k.refers shape site site') (hkeyword : keyword.Same keyword') :
      Lowers k shape (.expression (.receiver site keyword)) (.expression (.receiver site' keyword'))
  | inherited {shape : Shape} {site site' : Site} {keyword keyword' method method' : Token}
      (hlink : k.inherits shape site site') (hkeyword : keyword.Same keyword')
      (hmethod : method.Same method') :
      Lowers k shape (.expression (.inherited site keyword method))
        (.expression (.inherited site' keyword' method'))
  | group {shape : Shape} {inner inner' : Expr}
      (hinner : Lowers k shape (.expression inner) (.expression inner')) :
      Lowers k shape (.expression (.group inner)) (.expression (.group inner'))
  | unary {shape : Shape} {operator operator' : Token} {operand operand' : Expr}
      (hoperator : operator.Same operator')
      (hoperand : Lowers k shape (.expression operand) (.expression operand')) :
      Lowers k shape (.expression (.unary operator operand))
        (.expression (.unary operator' operand'))
  | binary {shape : Shape} {left left' right right' : Expr} {operator operator' : Token}
      (hleft : Lowers k shape (.expression left) (.expression left'))
      (hoperator : operator.Same operator')
      (hright : Lowers k shape (.expression right) (.expression right')) :
      Lowers k shape (.expression (.binary left operator right))
        (.expression (.binary left' operator' right'))
  | logical {shape : Shape} {left left' right right' : Expr} {operator operator' : Token}
      (hleft : Lowers k shape (.expression left) (.expression left'))
      (hoperator : operator.Same operator')
      (hright : Lowers k shape (.expression right) (.expression right')) :
      Lowers k shape (.expression (.logical left operator right))
        (.expression (.logical left' operator' right'))
  | choice {shape : Shape}
      {condition condition' whenTrue whenTrue' whenFalse whenFalse' : Expr}
      (hcondition : Lowers k shape (.expression condition) (.expression condition'))
      (htrue : Lowers k shape (.expression whenTrue) (.expression whenTrue'))
      (hfalse : Lowers k shape (.expression whenFalse) (.expression whenFalse')) :
      Lowers k shape (.expression (.conditional condition whenTrue whenFalse))
        (.expression (.conditional condition' whenTrue' whenFalse'))
  | call {shape : Shape} {callee callee' : Expr} {paren paren' : Token}
      {arguments arguments' : List Expr}
      (hcallee : Lowers k shape (.expression callee) (.expression callee'))
      (hparen : paren.Same paren')
      (harguments : Lowers k shape (.expressions arguments) (.expressions arguments')) :
      Lowers k shape (.expression (.call callee paren arguments))
        (.expression (.call callee' paren' arguments'))
  | get {shape : Shape} {object object' : Expr} {name name' : Token}
      (hobject : Lowers k shape (.expression object) (.expression object'))
      (hname : name.Same name') :
      Lowers k shape (.expression (.get object name)) (.expression (.get object' name'))
  | set {shape : Shape} {object object' value value' : Expr} {name name' : Token}
      (hobject : Lowers k shape (.expression object) (.expression object'))
      (hname : name.Same name')
      (hvalue : Lowers k shape (.expression value) (.expression value')) :
      Lowers k shape (.expression (.set object name value))
        (.expression (.set object' name' value'))
  | functionLiteral {shape : Shape} {d d' : FunctionDecl}
      (hd : Lowers k shape (.function d) (.function d')) :
      Lowers k shape (.expression (.function d)) (.expression (.function d'))
  -- rows of expressions
  | absent {shape : Shape} : Lowers k shape (.optional none) (.optional none)
  | present {shape : Shape} {e e' : Expr}
      (he : Lowers k shape (.expression e) (.expression e')) :
      Lowers k shape (.optional (some e)) (.optional (some e'))
  | noExpressions {shape : Shape} : Lowers k shape (.expressions []) (.expressions [])
  | nextExpression {shape : Shape} {e e' : Expr} {es es' : List Expr}
      (he : Lowers k shape (.expression e) (.expression e'))
      (hes : Lowers k shape (.expressions es) (.expressions es')) :
      Lowers k shape (.expressions (e :: es)) (.expressions (e' :: es'))
  -- functions and classes
  | parts {shape : Shape} {name name' : Option Token} {keyword keyword' : Token}
      {parameters parameters' : List Token} {body body' : List Stmt}
      (hname : Option.Rel Token.Same name name') (hkeyword : keyword.Same keyword')
      (hparameters : List.Forall₂ Token.Same parameters parameters')
      (hbody : Lowers k (true :: shape) (.statements body) (.statements body')) :
      Lowers k shape (.function ⟨name, keyword, parameters, body⟩)
        (.function ⟨name', keyword', parameters', body'⟩)
  | noFunctions {shape : Shape} : Lowers k shape (.functions []) (.functions [])
  | nextFunction {shape : Shape} {d d' : FunctionDecl} {ds ds' : List FunctionDecl}
      (hd : Lowers k shape (.function d) (.function d'))
      (hds : Lowers k shape (.functions ds) (.functions ds')) :
      Lowers k shape (.functions (d :: ds)) (.functions (d' :: ds'))
  | classDecl {shape : Shape} {name name' : Token} {superclass superclass' : Option Expr}
      {methods methods' classMethods classMethods' getters getters' setters setters' :
        List FunctionDecl}
      (hshared : shape.Shared) (hname : name.Same name')
      (hsuperclass : Lowers k shape (.optional superclass) (.optional superclass'))
      (hmethods : Lowers k (shape.members superclass.isSome) (.functions methods)
        (.functions methods'))
      (hclassMethods : Lowers k (shape.members superclass.isSome) (.functions classMethods)
        (.functions classMethods'))
      (hgetters : Lowers k (shape.members superclass.isSome) (.functions getters)
        (.functions getters'))
      (hsetters : Lowers k (shape.members superclass.isSome) (.functions setters)
        (.functions setters')) :
      Lowers k shape
        (.statement (.classDecl ⟨name, superclass, methods, classMethods, getters, setters⟩))
        (.statement (.classDecl ⟨name', superclass', methods', classMethods', getters', setters'⟩))
  -- statements
  | block {shape : Shape} {body body' : List Stmt}
      (hbody : Lowers k (true :: shape) (.statements body) (.statements body')) :
      Lowers k shape (.statement (.block body)) (.statement (.block body'))
  | breakLoop {shape : Shape} {keyword keyword' : Token} (hkeyword : keyword.Same keyword') :
      Lowers k shape (.statement (.breakLoop keyword)) (.statement (.breakLoop keyword'))
  | continueLoop {shape : Shape} {keyword keyword' : Token} (hkeyword : keyword.Same keyword') :
      Lowers k shape (.statement (.continueLoop keyword)) (.statement (.continueLoop keyword'))
  | empty {shape : Shape} : Lowers k shape (.statement .empty) (.statement .empty)
  | expressionStatement {shape : Shape} {value value' : Expr}
      (hvalue : Lowers k shape (.expression value) (.expression value')) :
      Lowers k shape (.statement (.expression value)) (.statement (.expression value'))
  | functionDecl {shape : Shape} {d d' : FunctionDecl} (hshared : shape.Shared)
      (hd : Lowers k shape (.function d) (.function d')) :
      Lowers k shape (.statement (.functionDecl d)) (.statement (.functionDecl d'))
  | conditional {shape : Shape} {condition condition' : Expr} {whenTrue whenTrue' : Stmt}
      {whenFalse whenFalse' : Option Stmt}
      (hcondition : Lowers k shape (.expression condition) (.expression condition'))
      (htrue : Lowers k shape (.statement whenTrue) (.statement whenTrue'))
      (hfalse : Lowers k shape (.otherwise whenFalse) (.otherwise whenFalse')) :
      Lowers k shape (.statement (.conditional condition whenTrue whenFalse))
        (.statement (.conditional condition' whenTrue' whenFalse'))
  | input {shape : Shape} {keyword keyword' : Token} {target target' : Expr}
      (hkeyword : keyword.Same keyword')
      (htarget : Lowers k shape (.expression target) (.expression target')) :
      Lowers k shape (.statement (.input keyword target)) (.statement (.input keyword' target'))
  | print {shape : Shape} {keyword keyword' : Token} {value value' : Expr}
      (hkeyword : keyword.Same keyword')
      (hvalue : Lowers k shape (.expression value) (.expression value')) :
      Lowers k shape (.statement (.print keyword value)) (.statement (.print keyword' value'))
  | returnValue {shape : Shape} {keyword keyword' : Token} {value value' : Option Expr}
      (hkeyword : keyword.Same keyword')
      (hvalue : Lowers k shape (.optional value) (.optional value')) :
      Lowers k shape (.statement (.returnValue keyword value))
        (.statement (.returnValue keyword' value'))
  | constant {shape : Shape} {name name' : Token} {value value' : Expr} (hshared : shape.Shared)
      (hname : name.Same name') (hvalue : Lowers k shape (.expression value) (.expression value')) :
      Lowers k shape (.statement (.constant name value)) (.statement (.constant name' value'))
  | var {shape : Shape} {name name' : Token} {value value' : Option Expr} (hshared : shape.Shared)
      (hname : name.Same name') (hvalue : Lowers k shape (.optional value) (.optional value')) :
      Lowers k shape (.statement (.var name value)) (.statement (.var name' value'))
  | loop {shape : Shape} {condition condition' : Expr} {body body' : Stmt}
      {increment increment' : Option Expr}
      (hcondition : Lowers k shape (.expression condition) (.expression condition'))
      (hbody : Lowers k shape (.statement body) (.statement body'))
      (hincrement : Lowers k shape (.optional increment) (.optional increment')) :
      Lowers k shape (.statement (.loop condition body increment))
        (.statement (.loop condition' body' increment'))
  /-- A loop that is written out. -/
  | rounds {shape : Shape} {condition condition' : Expr} {body body' : Stmt}
      {increment increment' : Option Expr} (hcontinues : body.continues = false)
      (hcondition : Lowers k shape (.expression condition) (.expression condition'))
      (hbody : Lowers k (false :: shape) (.statement body) (.statement body'))
      (hincrement : Lowers k (false :: shape) (.optional increment) (.optional increment')) :
      Lowers k shape (.statement (.loop condition body increment))
        (.statement (.loop condition' (body'.round increment') none))
  -- rows of statements
  | noOtherwise {shape : Shape} : Lowers k shape (.otherwise none) (.otherwise none)
  | someOtherwise {shape : Shape} {s s' : Stmt}
      (hs : Lowers k shape (.statement s) (.statement s')) :
      Lowers k shape (.otherwise (some s)) (.otherwise (some s'))
  | noStatements {shape : Shape} : Lowers k shape (.statements []) (.statements [])
  | nextStatement {shape : Shape} {s s' : Stmt} {ss ss' : List Stmt}
      (hs : Lowers k shape (.statement s) (.statement s'))
      (hss : Lowers k shape (.statements ss) (.statements ss')) :
      Lowers k shape (.statements (s :: ss)) (.statements (s' :: ss'))

variable {k : Links} {shape : Shape}

namespace Lowers

/-! ## What stays the same -/

theorem isSome_eq {e e' : Option Expr} (h : Lowers k shape (.optional e) (.optional e')) :
    e'.isSome = e.isSome := by
  cases h <;> rfl

/-- What is seen of a declaration is the same in both programs. -/
theorem declaration {d d' : FunctionDecl} (h : Lowers k shape (.function d) (.function d')) :
    d'.name.map Token.lexeme = d.name.map Token.lexeme ∧ d'.memberName = d.memberName ∧
      d'.parameters.map Token.lexeme = d.parameters.map Token.lexeme := by
  cases h with
  | parts hname hkeyword hparameters hbody =>
    refine ⟨?_, ?_, ?_⟩
    · cases hname with
      | none => rfl
      | some hname => exact congrArg some hname.lexeme
    · cases hname with
      | none => exact hkeyword.lexeme
      | some hname => exact hname.lexeme
    · induction hparameters with
      | nil => rfl
      | cons hparameter _ ih => exact congrArg₂ List.cons hparameter.lexeme ih

/-! ## Sites -/

/-- If references have the same sites, both pieces have the same sites in the same order. -/
theorem sites {p p' : Piece} (h : Lowers .same shape p p') : p'.sites = p.sites := by
  have happend {rs ss rs' ss' : List Reference} (h : sitesOf rs' = sitesOf rs)
      (h' : sitesOf ss' = sitesOf ss) : sitesOf (rs' ++ ss') = sitesOf (rs ++ ss) := by
    rw [sitesOf_append, sitesOf_append, h, h']
  induction h with
  | literal | absent | noExpressions | noFunctions | breakLoop | continueLoop | empty | noOtherwise
  | noStatements => rfl
  | name hlink | receiver hlink | inherited hlink => exact congrArg (fun i => [i]) hlink
  | assign hlink _ _ ih => exact congrArg₂ _ hlink ih
  | group _ ih | unary _ _ ih | get _ _ ih | functionLiteral _ ih | present _ ih
  | parts _ _ _ _ ih | block _ ih | expressionStatement _ ih | functionDecl _ _ ih
  | input _ _ ih | print _ _ ih | returnValue _ _ ih | constant _ _ _ ih | var _ _ _ ih
  | someOtherwise _ ih => exact ih
  | binary _ _ _ ih ih' | logical _ _ _ ih ih' | call _ _ _ ih ih' | set _ _ _ ih ih'
  | nextExpression _ _ ih ih' | nextFunction _ _ ih ih' | nextStatement _ _ ih ih' =>
    exact happend ih ih'
  | choice _ _ _ ih ih' ih'' | conditional _ _ _ ih ih' ih'' | loop _ _ _ ih ih' ih'' =>
    exact happend (happend ih ih') ih''
  | rounds _ _ _ hincrement ih ih' ih'' =>
    cases hincrement with
    | absent =>
      show sitesOf (_ ++ (_ ++ []) ++ []) = sitesOf (_ ++ _ ++ [])
      simpa only [List.append_nil] using happend ih ih'
    | @present _ e e' =>
      show sitesOf (_ ++ (_ ++ (e'.references ++ [])) ++ []) = sitesOf (_ ++ _ ++ e.references)
      rw [List.append_nil, List.append_nil, ← List.append_assoc]
      exact happend (happend ih ih') ih''
  | classDecl _ _ _ _ _ _ _ ihs ihm ihc ihg iht =>
    exact happend (happend (happend (happend ihs ihm) ihg) iht) ihc

/-- With the sites of the second piece put elsewhere nothing is known of references. -/
theorem moved {p p' : Piece} (h : Lowers k shape p p') (f : Site → Site) :
    Lowers .any shape p (p'.moved f) := by
  induction h with
  | literal value => exact .literal value
  | name _ hname => exact .name trivial hname
  | assign _ hname _ ih => exact .assign trivial hname ih
  | receiver _ hkeyword => exact .receiver trivial hkeyword
  | inherited _ hkeyword hmethod => exact .inherited trivial hkeyword hmethod
  | group _ ih => exact .group ih
  | unary hoperator _ ih => exact .unary hoperator ih
  | binary _ hoperator _ ihleft ihright => exact .binary ihleft hoperator ihright
  | logical _ hoperator _ ihleft ihright => exact .logical ihleft hoperator ihright
  | choice _ _ _ ihcondition ihtrue ihfalse => exact .choice ihcondition ihtrue ihfalse
  | call _ hparen _ ihcallee iharguments => exact .call ihcallee hparen iharguments
  | get _ hname ih => exact .get ih hname
  | set _ hname _ ihobject ihvalue => exact .set ihobject hname ihvalue
  | functionLiteral _ ih => exact .functionLiteral ih
  | absent => exact .absent
  | present _ ih => exact .present ih
  | noExpressions => exact .noExpressions
  | nextExpression _ _ ihe ihes => exact .nextExpression ihe ihes
  | @parts _ _ name' _ _ _ parameters' _ _ hname hkeyword hparameters _ ih =>
    have hnames : name'.map (Token.later 0) = name' := by rw [Token.later_zero, Option.map_id_apply]
    have hall := Token.map_later_zero parameters'
    -- names and parameters keep their lines when a piece is moved by none
    refine .parts ?_ hkeyword ?_ ih
    · exact hnames.symm ▸ hname
    · exact hall.symm ▸ hparameters
  | noFunctions => exact .noFunctions
  | nextFunction _ _ ihd ihds => exact .nextFunction ihd ihds
  | classDecl hshared hname _ _ _ _ _ ihs ihm ihc ihg iht =>
    exact .classDecl hshared hname ihs ihm ihc ihg iht
  | block _ ih => exact .block ih
  | breakLoop hkeyword => exact .breakLoop hkeyword
  | continueLoop hkeyword => exact .continueLoop hkeyword
  | empty => exact .empty
  | expressionStatement _ ih => exact .expressionStatement ih
  | functionDecl hshared _ ih => exact .functionDecl hshared ih
  | conditional _ _ _ ihcondition ihtrue ihfalse => exact .conditional ihcondition ihtrue ihfalse
  | input hkeyword _ ih => exact .input hkeyword ih
  | print hkeyword _ ih => exact .print hkeyword ih
  | returnValue hkeyword _ ih => exact .returnValue hkeyword ih
  | constant hshared hname _ ih => exact .constant hshared hname ih
  | var hshared hname _ ih => exact .var hshared hname ih
  | loop _ _ _ ihcondition ihbody ihincrement => exact .loop ihcondition ihbody ihincrement
  -- the increment is written behind the body if there is one; both forms move alike
  | rounds hcontinues _ _ hincrement ihcondition ihbody ihincrement =>
    have hlowered := rounds hcontinues ihcondition ihbody ihincrement
    cases hincrement with
    | absent => exact hlowered
    | present => exact hlowered
  | noOtherwise => exact .noOtherwise
  | someOtherwise _ ih => exact .someOtherwise ih
  | noStatements => exact .noStatements
  | nextStatement _ _ ihs ihss => exact .nextStatement ihs ihss

end Lowers

end Lox
