import Lox.Proofs.Grammar.Derivation

/-!
# Induction on derivations

What every rule of the grammar hands on from the parts of a phrase to the phrase holds of every
phrase (`Derives.closed`). The rules are listed in three structures, those for expressions, those
for functions and the members of classes, and those for statements and declarations, so that what
is to be shown of them can be shown of each sort apart. If the tokens of a phrase all are good, a
rule may use it of the tokens that its tree keeps.
-/

namespace Lox.Grammar

variable (good : Token → Prop) (P : Phrase → List Token → Prop)

/-- The rules for expressions and for arguments hand on the property. -/
structure ExpressionClosed : Prop where
  tighter {rank next : Rank} {e : Expr} {ts : List Token} (hnext : rank.next? = some next)
      (he : P (.expression next e) ts) : P (.expression rank e) ts
  joined {level : Level} {left right : Expr} {operator : Token} {ls rs : List Token}
      (hl : P (.expression level.rank left) ls) (ho : level.joins operator = true)
      (hr : P (.expression level.operandRank right) rs) (go : good operator) :
      P (.expression level.rank (level.join left operator right)) (ls ++ operator :: rs)
  assign {site : Site} {name equals : Token} {value : Expr} {vs : List Token}
      (hn : name.isIdentifier = true) (he : equals.isMark .equal = true)
      (hv : P (.expression .assignment value) vs) (gn : good name) :
      P (.expression .assignment (.assign site name value)) (name :: equals :: vs)
  set {object value : Expr} {dot name equals : Token} {os vs : List Token}
      (ho : P (.expression .call object) os) (hd : dot.isMark .dot = true)
      (hn : name.isIdentifier = true) (he : equals.isMark .equal = true)
      (hv : P (.expression .assignment value) vs) (gn : good name) :
      P (.expression .assignment (.set object name value)) (os ++ dot :: name :: equals :: vs)
  conditional {condition whenTrue whenFalse : Expr} {question colon : Token}
      {cs ts fs : List Token} (hc : P (.expression .or condition) cs)
      (hq : question.isMark .question = true) (ht : P (.expression .comma whenTrue) ts)
      (hm : colon.isMark .colon = true) (hf : P (.expression .conditional whenFalse) fs) :
      P (.expression .conditional (.conditional condition whenTrue whenFalse))
        (cs ++ question :: (ts ++ colon :: fs))
  unary {operator : Token} {operand : Expr} {ts : List Token}
      (ho : isUnaryOperator operator = true) (he : P (.expression .unary operand) ts)
      (go : good operator) : P (.expression .unary (.unary operator operand)) (operator :: ts)
  call {callee : Expr} {es : List Expr} {open' paren : Token} {cs as : List Token}
      (hc : P (.expression .call callee) cs) (ho : open'.isMark .leftParen = true)
      (ha : P (.arguments es) as) (hp : paren.isMark .rightParen = true) (gp : good paren) :
      P (.expression .call (.call callee paren es)) (cs ++ open' :: (as ++ [paren]))
  get {object : Expr} {dot name : Token} {os : List Token} (ho : P (.expression .call object) os)
      (hd : dot.isMark .dot = true) (hn : name.isIdentifier = true) (gn : good name) :
      P (.expression .call (.get object name)) (os ++ [dot, name])
  literal {t : Token} {value : Literal} (ht : t.literal? = some value) :
      P (.expression .primary (.literal value)) [t]
  name {site : Site} {name : Token} (hn : name.isIdentifier = true) (gn : good name) :
      P (.expression .primary (.variable site name)) [name]
  receiver {site : Site} {keyword : Token} (hk : keyword.isKeyword .thisKw = true)
      (gk : good keyword) : P (.expression .primary (.receiver site keyword)) [keyword]
  inherited {site : Site} {keyword dot method : Token} (hk : keyword.isKeyword .superKw = true)
      (hd : dot.isMark .dot = true) (hm : method.isIdentifier = true) (gk : good keyword)
      (gm : good method) :
      P (.expression .primary (.inherited site keyword method)) [keyword, dot, method]
  group {open' close : Token} {inner : Expr} {ts : List Token}
      (ho : open'.isMark .leftParen = true) (he : P (.expression .comma inner) ts)
      (hc : close.isMark .rightParen = true) :
      P (.expression .primary (.group inner)) (open' :: (ts ++ [close]))
  functionLiteral {keyword open' close : Token} {names : List Token} {body : List Stmt}
      {ps bs : List Token} (hk : keyword.isKeyword .funKw = true)
      (ho : open'.isMark .leftParen = true) (hp : P (.parameters names) ps)
      (hc : close.isMark .rightParen = true) (hb : P (.block body) bs) (gk : good keyword) :
      P (.expression .primary (.function ⟨none, keyword, names, body⟩))
        (keyword :: open' :: (ps ++ close :: bs))
  absent : P (.optional none) []
  present {e : Expr} {ts : List Token} (he : P (.expression .comma e) ts) :
      P (.optional (some e)) ts
  noArguments : P (.arguments []) []
  someArguments {es : List Expr} {ts : List Token} (he : P (.argumentRow es) ts)
      (hl : es.length ≤ maxArity) : P (.arguments es) ts
  lastArgument {e : Expr} {ts : List Token} (he : P (.expression .assignment e) ts) :
      P (.argumentRow [e]) ts
  nextArgument {e : Expr} {es : List Expr} {comma : Token} {ts us : List Token}
      (he : P (.expression .assignment e) ts) (hc : comma.isMark .comma = true)
      (hes : P (.argumentRow es) us) : P (.argumentRow (e :: es)) (ts ++ comma :: us)

/-- The rules for functions, their parameters and bodies, and for members hand on the property. -/
structure MemberClosed : Prop where
  noParameters : P (.parameters []) []
  someParameters {names ts : List Token} (hn : P (.parameterRow names) ts)
      (hl : names.length ≤ maxArity) : P (.parameters names) ts
  lastParameter {name : Token} (hn : name.isIdentifier = true) (gn : good name) :
      P (.parameterRow [name]) [name]
  nextParameter {name comma : Token} {names ts : List Token} (hn : name.isIdentifier = true)
      (hc : comma.isMark .comma = true) (hs : P (.parameterRow names) ts) (gn : good name) :
      P (.parameterRow (name :: names)) (name :: comma :: ts)
  block {open' close : Token} {body : List Stmt} {ts : List Token}
      (ho : open'.isMark .leftBrace = true) (hb : P (.declarations body) ts)
      (hc : close.isMark .rightBrace = true) : P (.block body) (open' :: (ts ++ [close]))
  function {name open' close : Token} {names : List Token} {body : List Stmt} {ps bs : List Token}
      (hn : name.isIdentifier = true) (ho : open'.isMark .leftParen = true)
      (hp : P (.parameters names) ps) (hc : close.isMark .rightParen = true)
      (hb : P (.block body) bs) (gn : good name) :
      P (.function ⟨some name, name, names, body⟩) (name :: open' :: (ps ++ close :: bs))
  getter {name : Token} {body : List Stmt} {bs : List Token} (hn : name.isIdentifier = true)
      (hb : P (.block body) bs) (gn : good name) :
      P (.getter ⟨some name, name, [], body⟩) (name :: bs)
  getterParens {name open' close : Token} {body : List Stmt} {bs : List Token}
      (hn : name.isIdentifier = true) (ho : open'.isMark .leftParen = true)
      (hc : close.isMark .rightParen = true) (hb : P (.block body) bs) (gn : good name) :
      P (.getter ⟨some name, name, [], body⟩) (name :: open' :: close :: bs)
  setter {name open' parameter close : Token} {body : List Stmt} {bs : List Token}
      (hn : name.isIdentifier = true) (ho : open'.isMark .leftParen = true)
      (hp : parameter.isIdentifier = true) (hc : close.isMark .rightParen = true)
      (hb : P (.block body) bs) (gn : good name) (gp : good parameter) :
      P (.setter ⟨some (name.renamed (setterName name.lexeme)), name, [parameter], body⟩)
        (name :: open' :: parameter :: close :: bs)
  noMembers : P (.members .none) []
  nextMethod {d : FunctionDecl} {rest : Members} {ts us : List Token} (hd : P (.function d) ts)
      (hr : P (.members rest) us) :
      P (.members { rest with methods := d :: rest.methods }) (ts ++ us)
  nextClassMethod {keyword : Token} {d : FunctionDecl} {rest : Members} {ts us : List Token}
      (hk : keyword.isKeyword .classKw = true) (hd : P (.function d) ts)
      (hr : P (.members rest) us) :
      P (.members { rest with classMethods := d :: rest.classMethods }) (keyword :: (ts ++ us))
  nextGetter {marker : Token} {d : FunctionDecl} {rest : Members} {ts us : List Token}
      (hk : isMarker "get" marker = true) (hd : P (.getter d) ts) (hr : P (.members rest) us) :
      P (.members { rest with getters := d :: rest.getters }) (marker :: (ts ++ us))
  nextSetter {marker : Token} {d : FunctionDecl} {rest : Members} {ts us : List Token}
      (hk : isMarker "set" marker = true) (hd : P (.setter d) ts) (hr : P (.members rest) us) :
      P (.members { rest with setters := d :: rest.setters }) (marker :: (ts ++ us))

/-- The rules for statements and declarations hand on the property. -/
structure StatementClosed : Prop where
  varDecl {keyword name end' : Token} (hk : keyword.isKeyword .varKw = true)
      (hn : name.isIdentifier = true) (he : end'.isMark .semicolon = true) (gn : good name) :
      P (.varDecl (.var name none)) [keyword, name, end']
  varDeclValue {keyword name equals end' : Token} {value : Expr} {vs : List Token}
      (hk : keyword.isKeyword .varKw = true) (hn : name.isIdentifier = true)
      (hq : equals.isMark .equal = true) (hv : P (.expression .comma value) vs)
      (he : end'.isMark .semicolon = true) (gn : good name) :
      P (.varDecl (.var name (some value))) (keyword :: name :: equals :: (vs ++ [end']))
  expressionStatement {e : Expr} {ts : List Token} {end' : Token}
      (h : P (.expression .comma e) ts) (he : end'.isMark .semicolon = true) :
      P (.expressionStatement (.expression e)) (ts ++ [end'])
  continueLoop {keyword end' : Token} (hk : keyword.isKeyword .continueKw = true)
      (he : end'.isMark .semicolon = true) (gk : good keyword) :
      P (.statement false (.continueLoop keyword)) [keyword, end']
  breakLoop {keyword end' : Token} (hk : keyword.isKeyword .breakKw = true)
      (he : end'.isMark .semicolon = true) (gk : good keyword) :
      P (.statement false (.breakLoop keyword)) [keyword, end']
  empty {end' : Token} (he : end'.isMark .semicolon = true) : P (.statement false .empty) [end']
  startNothing {end' : Token} (he : end'.isMark .semicolon = true) : P (.forStart none) [end']
  startVar {s : Stmt} {ts : List Token} (hs : P (.varDecl s) ts) : P (.forStart (some s)) ts
  startExpression {s : Stmt} {ts : List Token} (hs : P (.expressionStatement s) ts) :
      P (.forStart (some s)) ts
  forLoop {keyword open' end' close : Token} {start : Option Stmt}
      {condition increment : Option Expr} {isOpen : Bool} {body : Stmt} {ss cs is bs : List Token}
      (hk : keyword.isKeyword .forKw = true) (ho : open'.isMark .leftParen = true)
      (hs : P (.forStart start) ss) (hc : P (.optional condition) cs)
      (he : end'.isMark .semicolon = true) (hi : P (.optional increment) is)
      (hp : close.isMark .rightParen = true) (hb : P (.statement isOpen body) bs) :
      P (.statement isOpen (Grammar.forLoop start condition increment body))
        (keyword :: open' :: (ss ++ (cs ++ end' :: (is ++ close :: bs))))
  ifThen {keyword open' close : Token} {condition : Expr} {isOpen : Bool} {whenTrue : Stmt}
      {cs ts : List Token} (hk : keyword.isKeyword .ifKw = true)
      (ho : open'.isMark .leftParen = true) (hc : P (.expression .comma condition) cs)
      (hp : close.isMark .rightParen = true) (ht : P (.statement isOpen whenTrue) ts) :
      P (.statement true (.conditional condition whenTrue none))
        (keyword :: open' :: (cs ++ close :: ts))
  ifThenElse {keyword open' close otherwise : Token} {condition : Expr} {isOpen : Bool}
      {whenTrue whenFalse : Stmt} {cs ts fs : List Token} (hk : keyword.isKeyword .ifKw = true)
      (ho : open'.isMark .leftParen = true) (hc : P (.expression .comma condition) cs)
      (hp : close.isMark .rightParen = true) (ht : P (.statement false whenTrue) ts)
      (he : otherwise.isKeyword .elseKw = true) (hf : P (.statement isOpen whenFalse) fs) :
      P (.statement isOpen (.conditional condition whenTrue (some whenFalse)))
        (keyword :: open' :: (cs ++ close :: (ts ++ otherwise :: fs)))
  input {keyword name end' : Token} {site : Site} (hk : keyword.isKeyword .inputKw = true)
      (hn : name.isIdentifier = true) (he : end'.isMark .semicolon = true) (gk : good keyword)
      (gn : good name) :
      P (.statement false (.input keyword (.variable site name))) [keyword, name, end']
  print {keyword end' : Token} {value : Expr} {vs : List Token}
      (hk : keyword.isKeyword .printKw = true) (hv : P (.expression .comma value) vs)
      (he : end'.isMark .semicolon = true) (gk : good keyword) :
      P (.statement false (.print keyword value)) (keyword :: (vs ++ [end']))
  returnValue {keyword end' : Token} {value : Option Expr} {vs : List Token}
      (hk : keyword.isKeyword .returnKw = true) (hv : P (.optional value) vs)
      (he : end'.isMark .semicolon = true) (gk : good keyword) :
      P (.statement false (.returnValue keyword value)) (keyword :: (vs ++ [end']))
  whileLoop {keyword open' close : Token} {condition : Expr} {isOpen : Bool} {body : Stmt}
      {cs bs : List Token} (hk : keyword.isKeyword .whileKw = true)
      (ho : open'.isMark .leftParen = true) (hc : P (.expression .comma condition) cs)
      (hp : close.isMark .rightParen = true) (hb : P (.statement isOpen body) bs) :
      P (.statement isOpen (.loop condition body none)) (keyword :: open' :: (cs ++ close :: bs))
  blockStatement {body : List Stmt} {ts : List Token} (hb : P (.block body) ts) :
      P (.statement false (.block body)) ts
  plain {s : Stmt} {ts : List Token} (hs : P (.expressionStatement s) ts) :
      P (.statement false s) ts
  classDecl {keyword name open' close : Token} {ms : Members} {ts : List Token}
      (hk : keyword.isKeyword .classKw = true) (hn : name.isIdentifier = true)
      (ho : open'.isMark .leftBrace = true) (hm : P (.members ms) ts)
      (hc : close.isMark .rightBrace = true) (gn : good name) :
      P (.declaration
          (.classDecl ⟨name, none, ms.methods, ms.classMethods, ms.getters, ms.setters⟩))
        (keyword :: name :: open' :: (ts ++ [close]))
  derivedClass {keyword name less parent open' close : Token} {site : Site} {ms : Members}
      {ts : List Token} (hk : keyword.isKeyword .classKw = true) (hn : name.isIdentifier = true)
      (hl : less.isMark .less = true) (hp : parent.isIdentifier = true)
      (ho : open'.isMark .leftBrace = true) (hm : P (.members ms) ts)
      (hc : close.isMark .rightBrace = true) (gn : good name) (gp : good parent) :
      P (.declaration (.classDecl ⟨name, some (.variable site parent), ms.methods,
          ms.classMethods, ms.getters, ms.setters⟩))
        (keyword :: name :: less :: parent :: open' :: (ts ++ [close]))
  functionDecl {keyword : Token} {d : FunctionDecl} {ts : List Token}
      (hk : keyword.isKeyword .funKw = true) (hd : P (.function d) ts) :
      P (.declaration (.functionDecl d)) (keyword :: ts)
  constant {keyword name equals end' : Token} {value : Expr} {vs : List Token}
      (hk : keyword.isKeyword .valKw = true) (hn : name.isIdentifier = true)
      (hq : equals.isMark .equal = true) (hv : P (.expression .comma value) vs)
      (he : end'.isMark .semicolon = true) (gn : good name) :
      P (.declaration (.constant name value)) (keyword :: name :: equals :: (vs ++ [end']))
  var {s : Stmt} {ts : List Token} (hs : P (.varDecl s) ts) : P (.declaration s) ts
  statement {isOpen : Bool} {s : Stmt} {ts : List Token} (hs : P (.statement isOpen s) ts) :
      P (.declaration s) ts
  noDeclarations : P (.declarations []) []
  nextDeclaration {s : Stmt} {ss : List Stmt} {ts us : List Token} (hs : P (.declaration s) ts)
      (hr : P (.declarations ss) us) : P (.declarations (s :: ss)) (ts ++ us)

variable {good : Token → Prop} {P : Phrase → List Token → Prop}

/-- A property that every rule hands on holds of every phrase with good tokens. -/
theorem Derives.closed (expressions : ExpressionClosed good P) (members : MemberClosed good P)
    (statements : StatementClosed good P) {phrase : Phrase} {ts : List Token}
    (h : Derives phrase ts) (hts : ∀ t ∈ ts, good t) : P phrase ts := by
  -- the tokens of a part are among those of the phrase, and so they are good as well
  induction h with
  | tighter hnext _ ih => exact expressions.tighter hnext (ih (by grind))
  | joined _ ho _ ihl ihr =>
    exact expressions.joined (ihl (by grind)) ho (ihr (by grind)) (hts _ (by simp))
  | assign hn he _ ih => exact expressions.assign hn he (ih (by grind)) (hts _ (by simp))
  | set _ hd hn he _ iho ihv =>
    exact expressions.set (iho (by grind)) hd hn he (ihv (by grind)) (hts _ (by simp))
  | conditional _ hq _ hm _ ihc iht ihf =>
    exact expressions.conditional (ihc (by grind)) hq (iht (by grind)) hm (ihf (by grind))
  | unary ho _ ih => exact expressions.unary ho (ih (by grind)) (hts _ (by simp))
  | call _ ho _ hp ihc iha =>
    exact expressions.call (ihc (by grind)) ho (iha (by grind)) hp (hts _ (by simp))
  | get _ hd hn ih => exact expressions.get (ih (by grind)) hd hn (hts _ (by simp))
  | literal ht => exact expressions.literal ht
  | name hn => exact expressions.name hn (hts _ (by simp))
  | receiver hk => exact expressions.receiver hk (hts _ (by simp))
  | inherited hk hd hm => exact expressions.inherited hk hd hm (hts _ (by simp)) (hts _ (by simp))
  | group ho _ hc ih => exact expressions.group ho (ih (by grind)) hc
  | functionLiteral hk ho _ hc _ ihp ihb =>
    exact expressions.functionLiteral hk ho (ihp (by grind)) hc (ihb (by grind)) (hts _ (by simp))
  | absent => exact expressions.absent
  | present _ ih => exact expressions.present (ih (by grind))
  | noArguments => exact expressions.noArguments
  | someArguments _ hl ih => exact expressions.someArguments (ih (by grind)) hl
  | lastArgument _ ih => exact expressions.lastArgument (ih (by grind))
  | nextArgument _ hc _ ihe ihes =>
    exact expressions.nextArgument (ihe (by grind)) hc (ihes (by grind))
  | noParameters => exact members.noParameters
  | someParameters _ hl ih => exact members.someParameters (ih (by grind)) hl
  | lastParameter hn => exact members.lastParameter hn (hts _ (by simp))
  | nextParameter hn hc _ ih => exact members.nextParameter hn hc (ih (by grind)) (hts _ (by simp))
  | block ho _ hc ih => exact members.block ho (ih (by grind)) hc
  | function hn ho _ hc _ ihp ihb =>
    exact members.function hn ho (ihp (by grind)) hc (ihb (by grind)) (hts _ (by simp))
  | getter hn _ ih => exact members.getter hn (ih (by grind)) (hts _ (by simp))
  | getterParens hn ho hc _ ih =>
    exact members.getterParens hn ho hc (ih (by grind)) (hts _ (by simp))
  | setter hn ho hp hc _ ih =>
    exact members.setter hn ho hp hc (ih (by grind)) (hts _ (by simp)) (hts _ (by simp))
  | noMembers => exact members.noMembers
  | nextMethod _ _ ihd ihr => exact members.nextMethod (ihd (by grind)) (ihr (by grind))
  | nextClassMethod hk _ _ ihd ihr =>
    exact members.nextClassMethod hk (ihd (by grind)) (ihr (by grind))
  | nextGetter hk _ _ ihd ihr => exact members.nextGetter hk (ihd (by grind)) (ihr (by grind))
  | nextSetter hk _ _ ihd ihr => exact members.nextSetter hk (ihd (by grind)) (ihr (by grind))
  | varDecl hk hn he => exact statements.varDecl hk hn he (hts _ (by simp))
  | varDeclValue hk hn hq _ he ih =>
    exact statements.varDeclValue hk hn hq (ih (by grind)) he (hts _ (by simp))
  | expressionStatement _ he ih => exact statements.expressionStatement (ih (by grind)) he
  | continueLoop hk he => exact statements.continueLoop hk he (hts _ (by simp))
  | breakLoop hk he => exact statements.breakLoop hk he (hts _ (by simp))
  | empty he => exact statements.empty he
  | startNothing he => exact statements.startNothing he
  | startVar _ ih => exact statements.startVar (ih (by grind))
  | startExpression _ ih => exact statements.startExpression (ih (by grind))
  | forLoop hk ho _ _ he _ hp _ ihs ihc ihi ihb =>
    exact statements.forLoop hk ho (ihs (by grind)) (ihc (by grind)) he (ihi (by grind)) hp
      (ihb (by grind))
  | ifThen hk ho _ hp _ ihc iht =>
    exact statements.ifThen hk ho (ihc (by grind)) hp (iht (by grind))
  | ifThenElse hk ho _ hp _ he _ ihc iht ihf =>
    exact statements.ifThenElse hk ho (ihc (by grind)) hp (iht (by grind)) he (ihf (by grind))
  | input hk hn he => exact statements.input hk hn he (hts _ (by simp)) (hts _ (by simp))
  | print hk _ he ih => exact statements.print hk (ih (by grind)) he (hts _ (by simp))
  | returnValue hk _ he ih => exact statements.returnValue hk (ih (by grind)) he (hts _ (by simp))
  | whileLoop hk ho _ hp _ ihc ihb =>
    exact statements.whileLoop hk ho (ihc (by grind)) hp (ihb (by grind))
  | blockStatement _ ih => exact statements.blockStatement (ih (by grind))
  | plain _ ih => exact statements.plain (ih (by grind))
  | classDecl hk hn ho _ hc ih =>
    exact statements.classDecl hk hn ho (ih (by grind)) hc (hts _ (by simp))
  | derivedClass hk hn hl hp ho _ hc ih =>
    exact statements.derivedClass hk hn hl hp ho (ih (by grind)) hc (hts _ (by simp))
      (hts _ (by simp))
  | functionDecl hk _ ih => exact statements.functionDecl hk (ih (by grind))
  | constant hk hn hq _ he ih =>
    exact statements.constant hk hn hq (ih (by grind)) he (hts _ (by simp))
  | var _ ih => exact statements.var (ih (by grind))
  | statement _ ih => exact statements.statement (ih (by grind))
  | noDeclarations => exact statements.noDeclarations
  | nextDeclaration _ _ ihs ihr =>
    exact statements.nextDeclaration (ihs (by grind)) (ihr (by grind))

end Lox.Grammar
