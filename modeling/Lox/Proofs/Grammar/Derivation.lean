import Lox.Grammar.Rules

/-!
# Derivations

The grammar as a relation between rows of tokens and trees, apart from any way to parse.
`Derives phrase tokens` says that the tokens, all of them and in their order, are a phrase of the
grammar, and that the tree in `phrase` is the tree of that derivation. Sites are left open: they
number the references of a tree and no token says anything about them.

What the grammar in EBNF leaves to prose is said here by the rules themselves. The binary levels
recurse on the left, the conditional and the assignment on the right. A then-branch in front of an
`else` may not be open, that is, end in an `if` that lacks one; so an `else` belongs to the nearest
`if`. Only a name and a property can be assigned to. Lists of parameters and arguments hold
at most `maxArity` entries, and a setter has exactly one parameter.
-/

namespace Lox

/-- The levels of the grammar for expressions, from the loosest to the tightest. -/
inductive Rank where
  | comma
  | assignment
  | conditional
  | or
  | and
  | equality
  | comparison
  | term
  | factor
  | unary
  | call
  | primary
  deriving DecidableEq, Repr

/-- The next tighter rank. -/
def Rank.next? : Rank → Option Rank
  | .comma => some .assignment
  | .assignment => some .conditional
  | .conditional => some .or
  | .or => some .and
  | .and => some .equality
  | .equality => some .comparison
  | .comparison => some .term
  | .term => some .factor
  | .factor => some .unary
  | .unary => some .call
  | .call => some .primary
  | .primary => none

/-- How tight a rank is, from the loosest on. -/
def Rank.index : Rank → Nat
  | .comma => 0
  | .assignment => 1
  | .conditional => 2
  | .or => 3
  | .and => 4
  | .equality => 5
  | .comparison => 6
  | .term => 7
  | .factor => 8
  | .unary => 9
  | .call => 10
  | .primary => 11

/-- The rank of the expressions that the operators of a level make, and of their left operands. -/
def Level.rank : Level → Rank
  | .comma => .comma
  | .or => .or
  | .and => .and
  | .equality => .equality
  | .comparison => .comparison
  | .term => .term
  | .factor => .factor

/-- The rank of the right operands of a level. -/
def Level.operandRank : Level → Rank
  | .comma => .assignment
  | .or => .and
  | .and => .equality
  | .equality => .comparison
  | .comparison => .term
  | .term => .factor
  | .factor => .unary

theorem Level.next?_rank (level : Level) : level.rank.next? = some level.operandRank := by
  cases level <;> rfl

namespace Grammar

/-- A phrase of the grammar with its tree. -/
inductive Phrase where
  | expression (rank : Rank) (e : Expr)
  /-- An expression that may be absent. -/
  | optional (e : Option Expr)
  /-- The arguments of a call, of which there may be none. -/
  | arguments (es : List Expr)
  /-- Arguments with commas between them. -/
  | argumentRow (es : List Expr)
  /-- The parameters of a function, of which there may be none. -/
  | parameters (names : List Token)
  /-- Parameters with commas between them. -/
  | parameterRow (names : List Token)
  /-- Declarations in braces. -/
  | block (body : List Stmt)
  | function (d : FunctionDecl)
  | getter (d : FunctionDecl)
  | setter (d : FunctionDecl)
  | members (ms : Members)
  | varDecl (s : Stmt)
  | expressionStatement (s : Stmt)
  | forStart (start : Option Stmt)
  /-- A statement. An open one ends in an `if` that lacks an `else` and would take one. -/
  | statement (isOpen : Bool) (s : Stmt)
  | declaration (s : Stmt)
  | declarations (ss : List Stmt)

/-- The tokens are the phrase, and its tree is the tree of the derivation. -/
inductive Derives : Phrase → List Token → Prop where
  -- expressions
  | tighter {rank next : Rank} {e : Expr} {ts : List Token} (hnext : rank.next? = some next)
      (he : Derives (.expression next e) ts) : Derives (.expression rank e) ts
  | joined {level : Level} {left right : Expr} {operator : Token} {ls rs : List Token}
      (hl : Derives (.expression level.rank left) ls)
      (ho : level.joins operator = true)
      (hr : Derives (.expression level.operandRank right) rs) :
      Derives (.expression level.rank (level.join left operator right))
        (ls ++ operator :: rs)
  | assign {site : Site} {name equals : Token} {value : Expr} {vs : List Token}
      (hn : name.isIdentifier = true) (he : equals.isMark .equal = true)
      (hv : Derives (.expression .assignment value) vs) :
      Derives (.expression .assignment (.assign site name value)) (name :: equals :: vs)
  | set {object value : Expr} {dot name equals : Token} {os vs : List Token}
      (ho : Derives (.expression .call object) os) (hd : dot.isMark .dot = true)
      (hn : name.isIdentifier = true) (he : equals.isMark .equal = true)
      (hv : Derives (.expression .assignment value) vs) :
      Derives (.expression .assignment (.set object name value))
        (os ++ dot :: name :: equals :: vs)
  | conditional {condition whenTrue whenFalse : Expr} {question colon : Token}
      {cs ts fs : List Token}
      (hc : Derives (.expression .or condition) cs) (hq : question.isMark .question = true)
      (ht : Derives (.expression .comma whenTrue) ts) (hm : colon.isMark .colon = true)
      (hf : Derives (.expression .conditional whenFalse) fs) :
      Derives (.expression .conditional (.conditional condition whenTrue whenFalse))
        (cs ++ question :: (ts ++ colon :: fs))
  | unary {operator : Token} {operand : Expr} {ts : List Token}
      (ho : isUnaryOperator operator = true) (he : Derives (.expression .unary operand) ts) :
      Derives (.expression .unary (.unary operator operand)) (operator :: ts)
  | call {callee : Expr} {es : List Expr} {open' paren : Token} {cs as : List Token}
      (hc : Derives (.expression .call callee) cs) (ho : open'.isMark .leftParen = true)
      (ha : Derives (.arguments es) as) (hp : paren.isMark .rightParen = true) :
      Derives (.expression .call (.call callee paren es)) (cs ++ open' :: (as ++ [paren]))
  | get {object : Expr} {dot name : Token} {os : List Token}
      (ho : Derives (.expression .call object) os) (hd : dot.isMark .dot = true)
      (hn : name.isIdentifier = true) :
      Derives (.expression .call (.get object name)) (os ++ [dot, name])
  | literal {t : Token} {value : Literal} (ht : t.literal? = some value) :
      Derives (.expression .primary (.literal value)) [t]
  | name {site : Site} {name : Token} (hn : name.isIdentifier = true) :
      Derives (.expression .primary (.variable site name)) [name]
  | receiver {site : Site} {keyword : Token} (hk : keyword.isKeyword .thisKw = true) :
      Derives (.expression .primary (.receiver site keyword)) [keyword]
  | inherited {site : Site} {keyword dot method : Token}
      (hk : keyword.isKeyword .superKw = true) (hd : dot.isMark .dot = true)
      (hm : method.isIdentifier = true) :
      Derives (.expression .primary (.inherited site keyword method)) [keyword, dot, method]
  | group {open' close : Token} {inner : Expr} {ts : List Token}
      (ho : open'.isMark .leftParen = true) (he : Derives (.expression .comma inner) ts)
      (hc : close.isMark .rightParen = true) :
      Derives (.expression .primary (.group inner)) (open' :: (ts ++ [close]))
  | functionLiteral {keyword open' close : Token} {names : List Token} {body : List Stmt}
      {ps bs : List Token} (hk : keyword.isKeyword .funKw = true)
      (ho : open'.isMark .leftParen = true) (hp : Derives (.parameters names) ps)
      (hc : close.isMark .rightParen = true) (hb : Derives (.block body) bs) :
      Derives (.expression .primary (.function ⟨none, keyword, names, body⟩))
        (keyword :: open' :: (ps ++ close :: bs))
  | absent : Derives (.optional none) []
  | present {e : Expr} {ts : List Token} (he : Derives (.expression .comma e) ts) :
      Derives (.optional (some e)) ts
  | noArguments : Derives (.arguments []) []
  | someArguments {es : List Expr} {ts : List Token} (he : Derives (.argumentRow es) ts)
      (hl : es.length ≤ maxArity) : Derives (.arguments es) ts
  | lastArgument {e : Expr} {ts : List Token} (he : Derives (.expression .assignment e) ts) :
      Derives (.argumentRow [e]) ts
  | nextArgument {e : Expr} {es : List Expr} {comma : Token} {ts us : List Token}
      (he : Derives (.expression .assignment e) ts) (hc : comma.isMark .comma = true)
      (hes : Derives (.argumentRow es) us) :
      Derives (.argumentRow (e :: es)) (ts ++ comma :: us)
  -- functions and classes
  | noParameters : Derives (.parameters []) []
  | someParameters {names ts : List Token} (hn : Derives (.parameterRow names) ts)
      (hl : names.length ≤ maxArity) : Derives (.parameters names) ts
  | lastParameter {name : Token} (hn : name.isIdentifier = true) :
      Derives (.parameterRow [name]) [name]
  | nextParameter {name comma : Token} {names ts : List Token} (hn : name.isIdentifier = true)
      (hc : comma.isMark .comma = true) (hs : Derives (.parameterRow names) ts) :
      Derives (.parameterRow (name :: names)) (name :: comma :: ts)
  | block {open' close : Token} {body : List Stmt} {ts : List Token}
      (ho : open'.isMark .leftBrace = true) (hb : Derives (.declarations body) ts)
      (hc : close.isMark .rightBrace = true) :
      Derives (.block body) (open' :: (ts ++ [close]))
  | function {name open' close : Token} {names : List Token} {body : List Stmt}
      {ps bs : List Token} (hn : name.isIdentifier = true) (ho : open'.isMark .leftParen = true)
      (hp : Derives (.parameters names) ps) (hc : close.isMark .rightParen = true)
      (hb : Derives (.block body) bs) :
      Derives (.function ⟨some name, name, names, body⟩) (name :: open' :: (ps ++ close :: bs))
  | getter {name : Token} {body : List Stmt} {bs : List Token} (hn : name.isIdentifier = true)
      (hb : Derives (.block body) bs) : Derives (.getter ⟨some name, name, [], body⟩) (name :: bs)
  | getterParens {name open' close : Token} {body : List Stmt} {bs : List Token}
      (hn : name.isIdentifier = true) (ho : open'.isMark .leftParen = true)
      (hc : close.isMark .rightParen = true) (hb : Derives (.block body) bs) :
      Derives (.getter ⟨some name, name, [], body⟩) (name :: open' :: close :: bs)
  | setter {name open' parameter close : Token} {body : List Stmt} {bs : List Token}
      (hn : name.isIdentifier = true) (ho : open'.isMark .leftParen = true)
      (hp : parameter.isIdentifier = true) (hc : close.isMark .rightParen = true)
      (hb : Derives (.block body) bs) :
      Derives (.setter ⟨some (name.renamed (setterName name.lexeme)), name, [parameter], body⟩)
        (name :: open' :: parameter :: close :: bs)
  | noMembers : Derives (.members .none) []
  | nextMethod {d : FunctionDecl} {rest : Members} {ts us : List Token}
      (hd : Derives (.function d) ts) (hr : Derives (.members rest) us) :
      Derives (.members { rest with methods := d :: rest.methods }) (ts ++ us)
  | nextClassMethod {keyword : Token} {d : FunctionDecl} {rest : Members} {ts us : List Token}
      (hk : keyword.isKeyword .classKw = true) (hd : Derives (.function d) ts)
      (hr : Derives (.members rest) us) :
      Derives (.members { rest with classMethods := d :: rest.classMethods })
        (keyword :: (ts ++ us))
  | nextGetter {marker : Token} {d : FunctionDecl} {rest : Members} {ts us : List Token}
      (hk : isMarker "get" marker = true) (hd : Derives (.getter d) ts)
      (hr : Derives (.members rest) us) :
      Derives (.members { rest with getters := d :: rest.getters }) (marker :: (ts ++ us))
  | nextSetter {marker : Token} {d : FunctionDecl} {rest : Members} {ts us : List Token}
      (hk : isMarker "set" marker = true) (hd : Derives (.setter d) ts)
      (hr : Derives (.members rest) us) :
      Derives (.members { rest with setters := d :: rest.setters }) (marker :: (ts ++ us))
  -- statements
  | varDecl {keyword name end' : Token} (hk : keyword.isKeyword .varKw = true)
      (hn : name.isIdentifier = true) (he : end'.isMark .semicolon = true) :
      Derives (.varDecl (.var name none)) [keyword, name, end']
  | varDeclValue {keyword name equals end' : Token} {value : Expr} {vs : List Token}
      (hk : keyword.isKeyword .varKw = true) (hn : name.isIdentifier = true)
      (hq : equals.isMark .equal = true) (hv : Derives (.expression .comma value) vs)
      (he : end'.isMark .semicolon = true) :
      Derives (.varDecl (.var name (some value))) (keyword :: name :: equals :: (vs ++ [end']))
  | expressionStatement {e : Expr} {ts : List Token} {end' : Token}
      (h : Derives (.expression .comma e) ts) (he : end'.isMark .semicolon = true) :
      Derives (.expressionStatement (.expression e)) (ts ++ [end'])
  | continueLoop {keyword end' : Token} (hk : keyword.isKeyword .continueKw = true)
      (he : end'.isMark .semicolon = true) :
      Derives (.statement false (.continueLoop keyword)) [keyword, end']
  | breakLoop {keyword end' : Token} (hk : keyword.isKeyword .breakKw = true)
      (he : end'.isMark .semicolon = true) :
      Derives (.statement false (.breakLoop keyword)) [keyword, end']
  | empty {end' : Token} (he : end'.isMark .semicolon = true) :
      Derives (.statement false .empty) [end']
  | startNothing {end' : Token} (he : end'.isMark .semicolon = true) :
      Derives (.forStart none) [end']
  | startVar {s : Stmt} {ts : List Token} (hs : Derives (.varDecl s) ts) :
      Derives (.forStart (some s)) ts
  | startExpression {s : Stmt} {ts : List Token} (hs : Derives (.expressionStatement s) ts) :
      Derives (.forStart (some s)) ts
  | forLoop {keyword open' end' close : Token} {start : Option Stmt}
      {condition increment : Option Expr} {isOpen : Bool} {body : Stmt}
      {ss cs is bs : List Token}
      (hk : keyword.isKeyword .forKw = true) (ho : open'.isMark .leftParen = true)
      (hs : Derives (.forStart start) ss) (hc : Derives (.optional condition) cs)
      (he : end'.isMark .semicolon = true) (hi : Derives (.optional increment) is)
      (hp : close.isMark .rightParen = true) (hb : Derives (.statement isOpen body) bs) :
      Derives (.statement isOpen (Grammar.forLoop start condition increment body))
        (keyword :: open' :: (ss ++ (cs ++ end' :: (is ++ close :: bs))))
  | ifThen {keyword open' close : Token} {condition : Expr} {isOpen : Bool} {whenTrue : Stmt}
      {cs ts : List Token} (hk : keyword.isKeyword .ifKw = true)
      (ho : open'.isMark .leftParen = true) (hc : Derives (.expression .comma condition) cs)
      (hp : close.isMark .rightParen = true) (ht : Derives (.statement isOpen whenTrue) ts) :
      Derives (.statement true (.conditional condition whenTrue none))
        (keyword :: open' :: (cs ++ close :: ts))
  | ifThenElse {keyword open' close otherwise : Token} {condition : Expr}
      {isOpen : Bool} {whenTrue whenFalse : Stmt} {cs ts fs : List Token}
      (hk : keyword.isKeyword .ifKw = true) (ho : open'.isMark .leftParen = true)
      (hc : Derives (.expression .comma condition) cs) (hp : close.isMark .rightParen = true)
      (ht : Derives (.statement false whenTrue) ts) (he : otherwise.isKeyword .elseKw = true)
      (hf : Derives (.statement isOpen whenFalse) fs) :
      Derives (.statement isOpen (.conditional condition whenTrue (some whenFalse)))
        (keyword :: open' :: (cs ++ close :: (ts ++ otherwise :: fs)))
  | input {keyword name end' : Token} {site : Site} (hk : keyword.isKeyword .inputKw = true)
      (hn : name.isIdentifier = true) (he : end'.isMark .semicolon = true) :
      Derives (.statement false (.input keyword (.variable site name))) [keyword, name, end']
  | print {keyword end' : Token} {value : Expr} {vs : List Token}
      (hk : keyword.isKeyword .printKw = true) (hv : Derives (.expression .comma value) vs)
      (he : end'.isMark .semicolon = true) :
      Derives (.statement false (.print keyword value)) (keyword :: (vs ++ [end']))
  | returnValue {keyword end' : Token} {value : Option Expr} {vs : List Token}
      (hk : keyword.isKeyword .returnKw = true) (hv : Derives (.optional value) vs)
      (he : end'.isMark .semicolon = true) :
      Derives (.statement false (.returnValue keyword value)) (keyword :: (vs ++ [end']))
  | whileLoop {keyword open' close : Token} {condition : Expr} {isOpen : Bool} {body : Stmt}
      {cs bs : List Token}
      (hk : keyword.isKeyword .whileKw = true) (ho : open'.isMark .leftParen = true)
      (hc : Derives (.expression .comma condition) cs) (hp : close.isMark .rightParen = true)
      (hb : Derives (.statement isOpen body) bs) :
      Derives (.statement isOpen (.loop condition body none))
        (keyword :: open' :: (cs ++ close :: bs))
  | blockStatement {body : List Stmt} {ts : List Token} (hb : Derives (.block body) ts) :
      Derives (.statement false (.block body)) ts
  | plain {s : Stmt} {ts : List Token} (hs : Derives (.expressionStatement s) ts) :
      Derives (.statement false s) ts
  -- declarations
  | classDecl {keyword name open' close : Token} {ms : Members} {ts : List Token}
      (hk : keyword.isKeyword .classKw = true) (hn : name.isIdentifier = true)
      (ho : open'.isMark .leftBrace = true) (hm : Derives (.members ms) ts)
      (hc : close.isMark .rightBrace = true) :
      Derives
        (.declaration
          (.classDecl ⟨name, none, ms.methods, ms.classMethods, ms.getters, ms.setters⟩))
        (keyword :: name :: open' :: (ts ++ [close]))
  | derivedClass {keyword name less parent open' close : Token} {site : Site} {ms : Members}
      {ts : List Token} (hk : keyword.isKeyword .classKw = true) (hn : name.isIdentifier = true)
      (hl : less.isMark .less = true) (hp : parent.isIdentifier = true)
      (ho : open'.isMark .leftBrace = true) (hm : Derives (.members ms) ts)
      (hc : close.isMark .rightBrace = true) :
      Derives
        (.declaration (.classDecl ⟨name, some (.variable site parent), ms.methods,
          ms.classMethods, ms.getters, ms.setters⟩))
        (keyword :: name :: less :: parent :: open' :: (ts ++ [close]))
  | functionDecl {keyword : Token} {d : FunctionDecl} {ts : List Token}
      (hk : keyword.isKeyword .funKw = true) (hd : Derives (.function d) ts) :
      Derives (.declaration (.functionDecl d)) (keyword :: ts)
  | constant {keyword name equals end' : Token} {value : Expr} {vs : List Token}
      (hk : keyword.isKeyword .valKw = true) (hn : name.isIdentifier = true)
      (hq : equals.isMark .equal = true) (hv : Derives (.expression .comma value) vs)
      (he : end'.isMark .semicolon = true) :
      Derives (.declaration (.constant name value)) (keyword :: name :: equals :: (vs ++ [end']))
  | var {s : Stmt} {ts : List Token} (hs : Derives (.varDecl s) ts) :
      Derives (.declaration s) ts
  | statement {isOpen : Bool} {s : Stmt} {ts : List Token}
      (hs : Derives (.statement isOpen s) ts) :
      Derives (.declaration s) ts
  | noDeclarations : Derives (.declarations []) []
  | nextDeclaration {s : Stmt} {ss : List Stmt} {ts us : List Token}
      (hs : Derives (.declaration s) ts) (hr : Derives (.declarations ss) us) :
      Derives (.declarations (s :: ss)) (ts ++ us)

end Grammar

end Lox
