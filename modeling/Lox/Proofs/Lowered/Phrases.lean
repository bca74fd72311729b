import Lox.Proofs.Grammar.Roundtrip
import Lox.Proofs.Library
import Lox.Proofs.Lowered.Rows

/-!
# Phrases with loops written out

Where loops are written out in the tokens of a program, the tokens are again a program, and its tree
is the tree with these loops written out (`Derives.written`). This goes by induction on the
derivation, with one rule for each rule of the grammar: each phrase becomes a phrase of its own
kind. Of a statement it is used that an `else` does not follow an open one, for else it is not said
by the tokens where a loop ends; and a loop that is written out is never open.
-/

namespace Lox

mutual

/-- Whether a `continue` may leave a statement does not depend on its sites. -/
theorem Stmt.continues_unsited : ∀ s : Stmt, s.unsited.continues = s.continues
  | .block body => Stmt.continuesAny_unsited body
  | .conditional _ whenTrue whenFalse =>
    congrArg₂ _ whenTrue.continues_unsited (Stmt.continuesOption_unsited whenFalse)
  | .continueLoop _ | .breakLoop _ | .classDecl _ | .empty | .expression _ | .functionDecl _
  | .input _ _ | .print _ _ | .returnValue _ _ | .constant _ _ | .var _ _ | .loop _ _ _ => rfl

/-- Whether a `continue` may leave statements in a row does not depend on their sites. -/
theorem Stmt.continuesAny_unsited : ∀ ss : List Stmt,
    Stmt.continuesAny (Stmt.unsitedAll ss) = Stmt.continuesAny ss
  | [] => rfl
  | s :: ss => congrArg₂ _ s.continues_unsited (Stmt.continuesAny_unsited ss)

theorem Stmt.continuesOption_unsited : ∀ s : Option Stmt,
    Stmt.continuesOption (Stmt.unsitedOption s) = Stmt.continuesOption s
  | none => rfl
  | some s => s.continues_unsited

end

namespace Grammar

/-! ## Phrases -/

/-- What may stand behind a phrase: no `else` behind an open statement. -/
def Phrase.Before : Phrase → List Token → Prop
  | .statement isOpen _, rest =>
    isOpen = true → rest.head?.any (Token.isKeyword .elseKw) = false
  | .declaration _, rest | .declarations _, rest =>
    rest.head?.any (Token.isKeyword .elseKw) = false
  | _, _ => True

/-- The members of a class with loops in them written out. -/
structure Members.Lowered (ms ms' : Members) : Prop where
  methods : ∀ shape, Lowers .same shape (.functions ms.methods) (.functions ms'.methods)
  classMethods : ∀ shape,
    Lowers .same shape (.functions ms.classMethods) (.functions ms'.classMethods)
  getters : ∀ shape, Lowers .same shape (.functions ms.getters) (.functions ms'.getters)
  setters : ∀ shape, Lowers .same shape (.functions ms.setters) (.functions ms'.setters)

/-- The tokens are the phrase with loops in it written out. Whatever introduces a name stands in a
scope that both programs have. -/
def Phrase.Lowered : Phrase → List Token → Prop
  | .expression rank e, ts => ∃ e', Derives (.expression rank e') ts ∧
    ∀ shape, Lowers .same shape (.expression e) (.expression e')
  | .optional e, ts => ∃ e', Derives (.optional e') ts ∧
    ∀ shape, Lowers .same shape (.optional e) (.optional e')
  | .arguments es, ts => ∃ es', Derives (.arguments es') ts ∧
    ∀ shape, Lowers .same shape (.expressions es) (.expressions es')
  | .argumentRow es, ts => ∃ es', Derives (.argumentRow es') ts ∧
    ∀ shape, Lowers .same shape (.expressions es) (.expressions es')
  | .parameters names, ts => ∃ names', Derives (.parameters names') ts ∧
    List.Forall₂ Token.Same names names'
  | .parameterRow names, ts => ∃ names', Derives (.parameterRow names') ts ∧
    List.Forall₂ Token.Same names names'
  | .block body, ts => ∃ body', Derives (.block body') ts ∧
    ∀ shape, Lowers .same (true :: shape) (.statements body) (.statements body')
  | .function d, ts => ∃ d', Derives (.function d') ts ∧
    ∀ shape, Lowers .same shape (.function d) (.function d')
  | .getter d, ts => ∃ d', Derives (.getter d') ts ∧
    ∀ shape, Lowers .same shape (.function d) (.function d')
  | .setter d, ts => ∃ d', Derives (.setter d') ts ∧
    ∀ shape, Lowers .same shape (.function d) (.function d')
  | .members ms, ts => ∃ ms', Derives (.members ms') ts ∧ ms.Lowered ms'
  | .varDecl s, ts => ∃ s', Derives (.varDecl s') ts ∧
    ∀ shape : Shape, shape.Shared → Lowers .same shape (.statement s) (.statement s')
  | .expressionStatement s, ts => ∃ s', Derives (.expressionStatement s') ts ∧
    ∀ shape, Lowers .same shape (.statement s) (.statement s')
  | .forStart start, ts => ∃ start', Derives (.forStart start') ts ∧
    ∀ shape : Shape, shape.Shared → Lowers .same shape (.otherwise start) (.otherwise start')
  | .statement isOpen s, ts => ∃ isOpen' s', (isOpen' = true → isOpen = true) ∧
    Derives (.statement isOpen' s') ts ∧ ∀ shape, Lowers .same shape (.statement s) (.statement s')
  | .declaration s, ts => ∃ s', Derives (.declaration s') ts ∧
    ∀ shape : Shape, shape.Shared → Lowers .same shape (.statement s) (.statement s')
  | .declarations ss, ts => ∃ ss', Derives (.declarations ss') ts ∧
    ∀ shape : Shape, shape.Shared → Lowers .same shape (.statements ss) (.statements ss')

/-- What becomes of the tokens of a phrase is the phrase with loops in it written out. -/
def Phrase.Follows (phrase : Phrase) (ts : List Token) : Prop :=
  ∀ ⦃rest⦄, phrase.Before rest → Becomes ts rest phrase.Lowered

/-! ## Loops -/

/-- The tree of a `for` with other clauses and another body. -/
theorem forLoop_lowers {start start' : Option Stmt} {condition condition' : Option Expr}
    {increment increment' : Option Expr} {body body' : Stmt}
    (hs : ∀ shape : Shape, shape.Shared →
      Lowers .same shape (.otherwise start) (.otherwise start'))
    (hc : ∀ shape, Lowers .same shape (.optional condition) (.optional condition'))
    (hi : ∀ shape, Lowers .same shape (.optional increment) (.optional increment'))
    (hb : ∀ shape, Lowers .same shape (.statement body) (.statement body')) (shape : Shape) :
    Lowers .same shape (.statement (forLoop start condition increment body))
      (.statement (forLoop start' condition' increment' body')) := by
  have hcondition (shape : Shape) : Lowers .same shape
      (.expression (condition.getD (.literal .true)))
      (.expression (condition'.getD (.literal .true))) := by
    cases hc shape with
    | absent => exact .literal _
    | present he => exact he
  have hloop (shape : Shape) := Lowers.loop (hcondition shape) (hb shape) (hi shape)
  cases hs _ (Shape.shared_cons shape) with
  | noOtherwise => exact hloop shape
  | someOtherwise hfirst =>
    exact .block (.nextStatement hfirst (.nextStatement (hloop _) .noStatements))

section WrittenOut

variable {loop : ForLoop} {start : Option Stmt} {condition increment : Option Expr} {isOpen : Bool}
  {body : Stmt} {ts : List Token}

/-- The same tokens, where nothing stands behind them, are the phrase with no loop in it written
out. -/
theorem Phrase.Follows.same {phrase : Phrase} {us : List Token} (h : phrase.Follows ts)
    (hbefore : phrase.Before []) (hus : List.Forall₂ Token.Same ts us) : phrase.Lowered us :=
  (h hbefore).whole (.of_same hus)

/-- A clause is absent, or it is an expression and has tokens. -/
theorem Derives.optional_cases {e : Option Expr} (h : Derives (.optional e) ts) :
    e = none ∧ ts = [] ∨
      ∃ e', e = some e' ∧ ts ≠ [] ∧ Derives (.expression .comma e') ts := by
  cases h with
  | absent => exact .inl ⟨rfl, rfl⟩
  | present he =>
    exact .inr ⟨_, rfl, List.ne_nil_of_length_pos he.startsExpression.length_pos, he⟩

/-- What becomes of an expression that is there. -/
theorem Phrase.Follows.of_present {e : Expr} {us : List Token}
    (h : (Phrase.optional (some e)).Follows ts) (hus : List.Forall₂ Token.Same ts us) :
    ∃ e', Derives (.expression .comma e') us ∧
      ∀ shape, Lowers .same shape (.expression e) (.expression e') := by
  obtain ⟨clause, hclause, hlowers⟩ := h.same trivial hus
  cases hclause with
  | absent => cases hlowers []
  | present he =>
    refine ⟨_, he, fun shape => ?_⟩
    cases hlowers shape with
    | present he => exact he

/-- The condition between the parentheses of the written loop: the clause, or `true` where it is
absent. -/
theorem whileCondition_lowered (hd : Derives (.optional condition) loop.condition)
    (hc : (Phrase.optional condition).Follows loop.condition)
    (hts : List.Forall₂ Token.Same loop.whileCondition ts) :
    ∃ e', Derives (.expression .comma e') ts ∧ ∀ shape, Lowers .same shape
      (.expression (condition.getD (.literal .true))) (.expression e') := by
  unfold ForLoop.whileCondition at hts
  rcases hd.optional_cases with ⟨rfl, hempty⟩ | ⟨e, rfl, hsome, -⟩
  · rw [if_pos hempty] at hts
    obtain _ | ⟨ht, _ | _⟩ := hts
    have hliteral := (Blind.literal .true).same _ _ ht rfl
    exact ⟨_, (Derives.literal hliteral).looser (admits_primary _), fun _ => .literal _⟩
  · rw [if_neg hsome] at hts
    exact hc.of_present hts

/-- The increment at the end of the written body: a statement with the clause, or nothing. -/
theorem whileIncrement_lowered (hd : Derives (.optional increment) loop.increment)
    (hi : (Phrase.optional increment).Follows loop.increment)
    (hts : List.Forall₂ Token.Same loop.whileIncrement ts) :
    ∃ increment', Derives (.declarations (increment'.map Stmt.expression).toList) ts ∧
      ∀ shape, Lowers .same shape (.optional increment) (.optional increment') := by
  unfold ForLoop.whileIncrement at hts
  rcases hd.optional_cases with ⟨rfl, hempty⟩ | ⟨e, rfl, hsome, -⟩
  · rw [if_pos hempty] at hts
    cases hts
    exact ⟨none, .noDeclarations, fun _ => .absent⟩
  · rw [if_neg hsome] at hts
    obtain ⟨is, _, rfl, his, hend⟩ := List.forall₂_append_left hts
    obtain _ | ⟨ht, _ | _⟩ := hend
    have hsemicolon := (Blind.mark _).same _ _ ht (loop.spelling.isMark_mark .semicolon)
    obtain ⟨e', he, hlowers⟩ := hi.of_present his
    have hstatement := Derives.statement (.plain (.expressionStatement he hsemicolon))
    have hrow := Derives.nextDeclaration hstatement .noDeclarations
    rw [List.append_nil] at hrow
    exact ⟨some e', hrow, fun shape => .present (hlowers shape)⟩

/-- The `while` of a `for`. -/
theorem whileLoop_lowered (hcontinues : body.continues = false)
    (hdc : Derives (.optional condition) loop.condition)
    (hdi : Derives (.optional increment) loop.increment)
    (hc : (Phrase.optional condition).Follows loop.condition)
    (hi : (Phrase.optional increment).Follows loop.increment)
    (hb : (Phrase.statement isOpen body).Follows loop.body)
    (hts : List.Forall₂ Token.Same loop.whileLoop ts) :
    ∃ s', Derives (.statement false s') ts ∧ ∀ shape, Lowers .same shape
      (.statement (.loop (condition.getD (.literal .true)) body increment)) (.statement s') := by
  have hmark {m : Mark} {t : Token} (ht : (loop.spelling.mark m).Same t) : t.isMark m = true :=
    (Blind.mark m).same _ _ ht (loop.spelling.isMark_mark m)
  unfold ForLoop.whileLoop at hts
  obtain _ | ⟨hkeyword, _ | ⟨hopen, hclauses⟩⟩ := hts
  obtain ⟨cs, _, rfl, hcs, hround⟩ := List.forall₂_append_left hclauses
  obtain _ | ⟨hclose, _ | ⟨hopen', hstatements⟩⟩ := hround
  obtain ⟨bs, _, rfl, hbs, hmore⟩ := List.forall₂_append_left hstatements
  obtain ⟨is, _, rfl, his, _ | ⟨hclose', _ | _⟩⟩ := List.forall₂_append_left hmore
  obtain ⟨condition', hcondition, hlowersCondition⟩ := whileCondition_lowered hdc hc hcs
  obtain ⟨_, body', -, hbody, hlowersBody⟩ := hb.same (fun _ => rfl) hbs
  obtain ⟨increment', hincrement, hlowersIncrement⟩ := whileIncrement_lowered hdi hi his
  have hround := Derives.blockStatement (.block (hmark hopen')
    (.nextDeclaration (.statement hbody) hincrement) (hmark hclose'))
  rw [List.append_assoc] at hround
  have hwhile :=
    (Blind.keyword (by decide)).same _ _ hkeyword (loop.spelling.isKeyword_keyword .whileKw)
  exact ⟨_, .whileLoop hwhile (hmark hopen) hcondition (hmark hclose) hround, fun shape =>
    .rounds hcontinues (hlowersCondition _) (hlowersBody _) (hlowersIncrement _)⟩

/-- A `for` starts with a semicolon only, or it starts with a declaration that has more tokens. -/
theorem Derives.start_cases (h : Derives (.forStart start) ts) :
    start = none ∧ ts.length = 1 ∨
      ∃ s, start = some s ∧ ts.length ≠ 1 ∧ Derives (.declaration s) ts := by
  cases h with
  | startNothing => exact .inl ⟨rfl, rfl⟩
  | startVar hs =>
    refine .inr ⟨_, rfl, ?_, .var hs⟩
    cases hs with
    | varDecl => exact fun hlength => nomatch hlength
    | varDeclValue => exact fun hlength => nomatch hlength
  | startExpression hs =>
    refine .inr ⟨_, rfl, ?_, .statement (.plain hs)⟩
    cases hs with
    | expressionStatement he =>
      have hpos := he.startsExpression.length_pos
      rw [List.length_append, List.length_singleton]
      omega

/-- The `while` that is written for a `for` is a statement, and its tree is that of the loop written
out. -/
theorem asWhile_lowered (hcontinues : body.continues = false)
    (hds : Derives (.forStart start) loop.start)
    (hdc : Derives (.optional condition) loop.condition)
    (hdi : Derives (.optional increment) loop.increment)
    (hs : (Phrase.forStart start).Follows loop.start)
    (hc : (Phrase.optional condition).Follows loop.condition)
    (hi : (Phrase.optional increment).Follows loop.increment)
    (hb : (Phrase.statement isOpen body).Follows loop.body)
    (hts : List.Forall₂ Token.Same loop.asWhile ts) :
    (Phrase.statement isOpen (forLoop start condition increment body)).Lowered ts := by
  have hmark {m : Mark} {t : Token} (ht : (loop.spelling.mark m).Same t) : t.isMark m = true :=
    (Blind.mark m).same _ _ ht (loop.spelling.isMark_mark m)
  unfold ForLoop.asWhile at hts
  -- without an initializer the loop alone is written, with one a block of the two
  rcases hds.start_cases with ⟨rfl, hone⟩ | ⟨s, rfl, hmore, -⟩
  · rw [if_pos hone] at hts
    obtain ⟨s', hs', hlowers⟩ := whileLoop_lowered hcontinues hdc hdi hc hi hb hts
    exact ⟨false, s', nofun, hs', hlowers⟩
  · rw [if_neg hmore] at hts
    obtain _ | ⟨hopen, hclauses⟩ := hts
    obtain ⟨ss, _, rfl, hss, hloop⟩ := List.forall₂_append_left hclauses
    obtain ⟨ws, _, rfl, hws, _ | ⟨hclose, _ | _⟩⟩ := List.forall₂_append_left hloop
    obtain ⟨s', hs', hlowers⟩ := whileLoop_lowered hcontinues hdc hdi hc hi hb hws
    obtain ⟨start', hstart, hlowersStart⟩ := hs.same trivial hss
    rcases hstart.start_cases with ⟨rfl, -⟩ | ⟨first, rfl, -, hfirst⟩
    · cases hlowersStart _ Shape.shared_nil
    have hall := Derives.block (hmark hopen) (.nextDeclaration hfirst
      (.nextDeclaration (.statement hs') .noDeclarations)) (hmark hclose)
    rw [List.append_nil, List.append_assoc] at hall
    refine ⟨false, _, nofun, .blockStatement hall, fun shape => ?_⟩
    cases hlowersStart _ (Shape.shared_cons shape) with
    | someOtherwise hfirst =>
      exact .block (.nextStatement hfirst (.nextStatement (hlowers _) .noStatements))

end WrittenOut

/-- A `for` stays or is written out. -/
theorem Phrase.Follows.forLoop {keyword open' end' close : Token} {start : Option Stmt}
    {condition increment : Option Expr} {isOpen : Bool} {body : Stmt} {ss cs is bs : List Token}
    (hk : keyword.isKeyword .forKw = true) (ho : open'.isMark .leftParen = true)
    (hds : Derives (.forStart start) ss) (hdc : Derives (.optional condition) cs)
    (he : end'.isMark .semicolon = true) (hdi : Derives (.optional increment) is)
    (hp : close.isMark .rightParen = true) (hdb : Derives (.statement isOpen body) bs)
    (hs : (Phrase.forStart start).Follows ss) (hc : (Phrase.optional condition).Follows cs)
    (hi : (Phrase.optional increment).Follows is) (hb : (Phrase.statement isOpen body).Follows bs) :
    (Phrase.statement isOpen (Grammar.forLoop start condition increment body)).Follows
      (keyword :: open' :: (ss ++ (cs ++ end' :: (is ++ close :: bs)))) := by
  intro rest hrest row hrow
  rcases Written.cons_left hrow with ⟨keyword', row', rfl, hsame, hrow'⟩ |
    ⟨loop, body', after, after', ws, hloop, hcontinues, hws, hafter, heq, rfl⟩
  · have hk' := Token.isKeyword_iff.mpr (hsame.kind.trans (Token.isKeyword_iff.mp hk))
    have hmore : Becomes (open' :: (ss ++ (cs ++ end' :: (is ++ close :: bs)))) rest fun us =>
        (Phrase.statement isOpen (Grammar.forLoop start condition increment body)).Lowered
          (keyword' :: us) := by
      refine .next (.mark _) ho fun open' _ ho => (hs trivial).append fun ss hs => ?_
      refine (hc trivial).append fun cs hc => .next (.mark _) he fun end' _ he => ?_
      refine (hi trivial).append fun is hi => .next (.mark _) hp fun close _ hp => ?_
      refine (hb hrest).imp fun bs hb => ?_
      obtain ⟨start', hs, hstart⟩ := hs
      obtain ⟨condition', hc, hcondition⟩ := hc
      obtain ⟨increment', hi, hincrement⟩ := hi
      obtain ⟨isOpen', body', hopen, hb, hbody⟩ := hb
      exact ⟨isOpen', _, hopen, .forLoop hk' ho hs hc he hi hp hb,
        forLoop_lowers hstart hcondition hincrement hbody⟩
    obtain ⟨ts, rest', rfl, hrest', hlowered⟩ := hmore row' hrow'
    exact ⟨keyword' :: ts, rest', rfl, hrest', hlowered⟩
  · have hstands : ForLoop.Stands ⟨keyword, open', ss, cs, end', is, close, bs⟩ body rest :=
      ⟨hk, ho, ⟨_, hds⟩, ⟨_, hdc⟩, he, ⟨_, hdi⟩, hp, isOpen, hdb, hrest⟩
    obtain ⟨rfl, rfl, hbody⟩ := hstands.unique hloop heq.symm
    rw [← Stmt.continues_unsited, hbody, Stmt.continues_unsited] at hcontinues
    exact ⟨ws, after', rfl, hafter, asWhile_lowered hcontinues hds hdc hdi hs hc hi hb hws⟩

/-! ## Rules for expressions -/

/-- Operands that are lowered may be joined by the operator of any level. -/
theorem join_lowers {shape : Shape} {left left' right right' : Expr} {operator operator' : Token}
    (level : Level) (hl : Lowers .same shape (.expression left) (.expression left'))
    (ho : operator.Same operator')
    (hr : Lowers .same shape (.expression right) (.expression right')) :
    Lowers .same shape (.expression (level.join left operator right))
      (.expression (level.join left' operator' right')) := by
  cases level with
  | or | and => exact .logical hl ho hr
  | comma | equality | comparison | term | factor => exact .binary hl ho hr

/-- Writing loops out keeps the number of expressions in a row, so the bound on arguments still
holds. -/
theorem length_eq_of_lowers {shape : Shape} {es es' : List Expr}
    (h : Lowers .same shape (.expressions es) (.expressions es')) : es'.length = es.length := by
  induction es generalizing es' with
  | nil =>
    cases h
    rfl
  | cons e es ih =>
    cases h with
    | nextExpression _ hes => exact congrArg (· + 1) (ih hes)

/-- What binds tighter stands where less is asked for. -/
theorem Phrase.Follows.tighter {rank next : Rank} {e : Expr} {ts : List Token}
    (hnext : rank.next? = some next) (hts : (Phrase.expression next e).Follows ts) :
    (Phrase.expression rank e).Follows ts := by
  intro rest _
  refine (hts trivial).imp fun ts h => ?_
  obtain ⟨e', he, hlowers⟩ := h
  exact ⟨e', .tighter hnext he, hlowers⟩

/-- Two operands and the operator of a level between them. -/
theorem Phrase.Follows.joined {level : Level} {left right : Expr} {operator : Token}
    {ls rs : List Token} (hls : (Phrase.expression level.rank left).Follows ls)
    (ho : level.joins operator = true)
    (hrs : (Phrase.expression level.operandRank right).Follows rs) :
    (Phrase.expression level.rank (level.join left operator right)).Follows
      (ls ++ operator :: rs) := by
  intro rest _
  refine (hls trivial).append fun ls hl => .next (.joins _) ho fun operator hsame ho => ?_
  refine (hrs trivial).imp fun rs hr => ?_
  obtain ⟨left, hl, hleft⟩ := hl
  obtain ⟨right, hr, hright⟩ := hr
  exact ⟨_, .joined hl ho hr, fun shape => join_lowers level (hleft shape) hsame (hright shape)⟩

/-- An assignment to a name; only its value can hold loops. -/
theorem Phrase.Follows.assign {site : Site} {name equals : Token} {value : Expr} {vs : List Token}
    (hn : name.isIdentifier = true) (he : equals.isMark .equal = true)
    (hvs : (Phrase.expression .assignment value).Follows vs) :
    (Phrase.expression .assignment (.assign site name value)).Follows (name :: equals :: vs) := by
  intro rest _
  refine .next .identifier hn fun name hname hn => .next (.mark _) he fun equals _ he => ?_
  refine (hvs trivial).imp fun vs hv => ?_
  obtain ⟨value, hv, hvalue⟩ := hv
  exact ⟨.assign site name value, .assign hn he hv, fun shape => .assign rfl hname (hvalue shape)⟩

/-- An assignment to a property of an object. -/
theorem Phrase.Follows.set {object value : Expr} {dot name equals : Token} {os vs : List Token}
    (hos : (Phrase.expression .call object).Follows os) (hd : dot.isMark .dot = true)
    (hn : name.isIdentifier = true) (he : equals.isMark .equal = true)
    (hvs : (Phrase.expression .assignment value).Follows vs) :
    (Phrase.expression .assignment (.set object name value)).Follows
      (os ++ dot :: name :: equals :: vs) := by
  intro rest _
  refine (hos trivial).append fun os ho => .next (.mark _) hd fun dot _ hd => ?_
  refine .next .identifier hn fun name hname hn => .next (.mark _) he fun equals _ he => ?_
  refine (hvs trivial).imp fun vs hv => ?_
  obtain ⟨object, ho, hobject⟩ := ho
  obtain ⟨value, hv, hvalue⟩ := hv
  exact ⟨_, .set ho hd hn he hv, fun shape => .set (hobject shape) hname (hvalue shape)⟩

/-- A condition with its two branches, between `?` and `:`. -/
theorem Phrase.Follows.conditional {condition whenTrue whenFalse : Expr} {question colon : Token}
    {cs ts fs : List Token} (hcs : (Phrase.expression .or condition).Follows cs)
    (hq : question.isMark .question = true) (hts : (Phrase.expression .comma whenTrue).Follows ts)
    (hm : colon.isMark .colon = true)
    (hfs : (Phrase.expression .conditional whenFalse).Follows fs) :
    (Phrase.expression .conditional (.conditional condition whenTrue whenFalse)).Follows
      (cs ++ question :: (ts ++ colon :: fs)) := by
  intro rest _
  refine (hcs trivial).append fun cs hc => .next (.mark _) hq fun question _ hq => ?_
  refine (hts trivial).append fun ts ht => .next (.mark _) hm fun colon _ hm => ?_
  refine (hfs trivial).imp fun fs hf => ?_
  obtain ⟨condition, hc, hcondition⟩ := hc
  obtain ⟨whenTrue, ht, htrue⟩ := ht
  obtain ⟨whenFalse, hf, hfalse⟩ := hf
  exact ⟨_, .conditional hc hq ht hm hf,
    fun shape => .choice (hcondition shape) (htrue shape) (hfalse shape)⟩

/-- An operator before its operand. -/
theorem Phrase.Follows.unary {operator : Token} {operand : Expr} {ts : List Token}
    (ho : isUnaryOperator operator = true) (hts : (Phrase.expression .unary operand).Follows ts) :
    (Phrase.expression .unary (.unary operator operand)).Follows (operator :: ts) := by
  intro rest _
  refine .next .unaryOperator ho fun operator hsame ho => (hts trivial).imp fun ts he => ?_
  obtain ⟨operand, he, hoperand⟩ := he
  exact ⟨_, .unary ho he, fun shape => .unary hsame (hoperand shape)⟩

/-- A call; the tokens between its parentheses are read as arguments again. -/
theorem Phrase.Follows.call {callee : Expr} {es : List Expr} {open' paren : Token}
    {cs as : List Token} (hcs : (Phrase.expression .call callee).Follows cs)
    (ho : open'.isMark .leftParen = true) (has : (Phrase.arguments es).Follows as)
    (hp : paren.isMark .rightParen = true) :
    (Phrase.expression .call (.call callee paren es)).Follows (cs ++ open' :: (as ++ [paren])) := by
  intro rest _
  refine (hcs trivial).append fun cs hc => .next (.mark _) ho fun open' _ ho => ?_
  refine (has trivial).append fun as ha => .next (.mark _) hp fun paren hsame hp => .done ?_
  obtain ⟨callee, hc, hcallee⟩ := hc
  obtain ⟨es, ha, harguments⟩ := ha
  exact ⟨_, .call hc ho ha hp, fun shape => .call (hcallee shape) hsame (harguments shape)⟩

/-- A property of an object. -/
theorem Phrase.Follows.get {object : Expr} {dot name : Token} {os : List Token}
    (hos : (Phrase.expression .call object).Follows os) (hd : dot.isMark .dot = true)
    (hn : name.isIdentifier = true) :
    (Phrase.expression .call (.get object name)).Follows (os ++ [dot, name]) := by
  intro rest _
  refine (hos trivial).append fun os ho => .next (.mark _) hd fun dot _ hd => ?_
  refine .next .identifier hn fun name hname hn => .done ?_
  obtain ⟨object, ho, hobject⟩ := ho
  exact ⟨_, .get ho hd hn, fun shape => .get (hobject shape) hname⟩

/-- A token that stands for its value holds no loop. -/
theorem Phrase.Follows.literal {t : Token} {value : Literal} (ht : t.literal? = some value) :
    (Phrase.expression .primary (.literal value)).Follows [t] := by
  intro rest _
  exact .next (.literal _) ht fun t _ ht => .done ⟨_, .literal ht, fun _ => .literal _⟩

/-- A name holds no loop. -/
theorem Phrase.Follows.name {site : Site} {name : Token} (hn : name.isIdentifier = true) :
    (Phrase.expression .primary (.variable site name)).Follows [name] := by
  intro rest _
  exact .next .identifier hn fun name hname hn =>
    .done ⟨.variable site name, .name hn, fun _ => .name rfl hname⟩

/-- `this` holds no loop. -/
theorem Phrase.Follows.receiver {site : Site} {keyword : Token}
    (hk : keyword.isKeyword .thisKw = true) :
    (Phrase.expression .primary (.receiver site keyword)).Follows [keyword] := by
  intro rest _
  exact .next (.keyword (by decide)) hk fun keyword hkeyword hk =>
    .done ⟨.receiver site keyword, .receiver hk, fun _ => .receiver rfl hkeyword⟩

/-- A `super` with the name of a method holds no loop. -/
theorem Phrase.Follows.inherited {site : Site} {keyword dot method : Token}
    (hk : keyword.isKeyword .superKw = true) (hd : dot.isMark .dot = true)
    (hm : method.isIdentifier = true) :
    (Phrase.expression .primary (.inherited site keyword method)).Follows
      [keyword, dot, method] := by
  intro rest _
  refine .next (.keyword (by decide)) hk fun keyword hkeyword hk => ?_
  refine .next (.mark _) hd fun dot _ hd => .next .identifier hm fun method hmethod hm => ?_
  exact .done ⟨.inherited site keyword method, .inherited hk hd hm,
    fun _ => .inherited rfl hkeyword hmethod⟩

/-- An expression in parentheses has the loops of what stands inside. -/
theorem Phrase.Follows.group {open' close : Token} {inner : Expr} {ts : List Token}
    (ho : open'.isMark .leftParen = true) (hts : (Phrase.expression .comma inner).Follows ts)
    (hc : close.isMark .rightParen = true) :
    (Phrase.expression .primary (.group inner)).Follows (open' :: (ts ++ [close])) := by
  intro rest _
  refine .next (.mark _) ho fun open' _ ho => (hts trivial).append fun ts he => ?_
  refine .next (.mark _) hc fun close _ hc => .done ?_
  obtain ⟨inner, he, hinner⟩ := he
  exact ⟨_, .group ho he hc, fun shape => .group (hinner shape)⟩

/-- A function without a name: its parameters are the same, and its body has loops written out. -/
theorem Phrase.Follows.functionLiteral {keyword open' close : Token} {names : List Token}
    {body : List Stmt} {ps bs : List Token} (hk : keyword.isKeyword .funKw = true)
    (ho : open'.isMark .leftParen = true) (hps : (Phrase.parameters names).Follows ps)
    (hc : close.isMark .rightParen = true) (hbs : (Phrase.block body).Follows bs) :
    (Phrase.expression .primary (.function ⟨none, keyword, names, body⟩)).Follows
      (keyword :: open' :: (ps ++ close :: bs)) := by
  intro rest _
  refine .next (.keyword (by decide)) hk fun keyword hkeyword hk => ?_
  refine .next (.mark _) ho fun open' _ ho => (hps trivial).append fun ps hp => ?_
  refine .next (.mark _) hc fun close _ hc => (hbs trivial).imp fun bs hb => ?_
  obtain ⟨names, hp, hnames⟩ := hp
  obtain ⟨body, hb, hbody⟩ := hb
  exact ⟨_, .functionLiteral hk ho hp hc hb,
    fun shape => .functionLiteral (.parts .none hkeyword hnames (hbody shape))⟩

theorem Phrase.Follows.absent : (Phrase.optional none).Follows [] := by
  intro rest _
  exact .done ⟨none, .absent, fun _ => .absent⟩

/-- A clause that is there is the expression in it. -/
theorem Phrase.Follows.present {e : Expr} {ts : List Token}
    (hts : (Phrase.expression .comma e).Follows ts) : (Phrase.optional (some e)).Follows ts := by
  intro rest _
  refine (hts trivial).imp fun ts h => ?_
  obtain ⟨e, he, hlowers⟩ := h
  exact ⟨some e, .present he, fun shape => .present (hlowers shape)⟩

theorem Phrase.Follows.noArguments : (Phrase.arguments []).Follows [] := by
  intro rest _
  exact .done ⟨[], .noArguments, fun _ => .noExpressions⟩

/-- Arguments in a row, as long as there are not too many. -/
theorem Phrase.Follows.someArguments {es : List Expr} {ts : List Token}
    (hts : (Phrase.argumentRow es).Follows ts) (hl : es.length ≤ maxArity) :
    (Phrase.arguments es).Follows ts := by
  intro rest _
  refine (hts trivial).imp fun ts h => ?_
  obtain ⟨es, he, hlowers⟩ := h
  exact ⟨es, .someArguments he (length_eq_of_lowers (hlowers []) ▸ hl), hlowers⟩

/-- The last argument of a row. -/
theorem Phrase.Follows.lastArgument {e : Expr} {ts : List Token}
    (hts : (Phrase.expression .assignment e).Follows ts) : (Phrase.argumentRow [e]).Follows ts := by
  intro rest _
  refine (hts trivial).imp fun ts h => ?_
  obtain ⟨e, he, hlowers⟩ := h
  exact ⟨[e], .lastArgument he, fun shape => .nextExpression (hlowers shape) .noExpressions⟩

/-- An argument, a comma and more arguments. -/
theorem Phrase.Follows.nextArgument {e : Expr} {es : List Expr} {comma : Token}
    {ts us : List Token} (hts : (Phrase.expression .assignment e).Follows ts)
    (hc : comma.isMark .comma = true) (hus : (Phrase.argumentRow es).Follows us) :
    (Phrase.argumentRow (e :: es)).Follows (ts ++ comma :: us) := by
  intro rest _
  refine (hts trivial).append fun ts h => .next (.mark _) hc fun comma _ hc => ?_
  refine (hus trivial).imp fun us hs => ?_
  obtain ⟨e, he, hfirst⟩ := h
  obtain ⟨es, hes, hmore⟩ := hs
  exact ⟨e :: es, .nextArgument he hc hes,
    fun shape => .nextExpression (hfirst shape) (hmore shape)⟩

/-! ## Rules for functions and classes -/

theorem Phrase.Follows.noParameters : (Phrase.parameters []).Follows [] := by
  intro rest _
  exact .done ⟨[], .noParameters, .nil⟩

/-- Parameters in a row, as long as there are not too many. -/
theorem Phrase.Follows.someParameters {names ts : List Token}
    (hts : (Phrase.parameterRow names).Follows ts) (hl : names.length ≤ maxArity) :
    (Phrase.parameters names).Follows ts := by
  intro rest _
  refine (hts trivial).imp fun ts h => ?_
  obtain ⟨names, hn, hnames⟩ := h
  exact ⟨names, .someParameters hn (hnames.length_eq ▸ hl), hnames⟩

/-- The last parameter of a row. -/
theorem Phrase.Follows.lastParameter {name : Token} (hn : name.isIdentifier = true) :
    (Phrase.parameterRow [name]).Follows [name] := by
  intro rest _
  exact .next .identifier hn fun name hname hn =>
    .done ⟨[name], .lastParameter hn, .cons hname .nil⟩

/-- A parameter, a comma and more parameters. -/
theorem Phrase.Follows.nextParameter {name comma : Token} {names ts : List Token}
    (hn : name.isIdentifier = true) (hc : comma.isMark .comma = true)
    (hts : (Phrase.parameterRow names).Follows ts) :
    (Phrase.parameterRow (name :: names)).Follows (name :: comma :: ts) := by
  intro rest _
  refine .next .identifier hn fun name hname hn => .next (.mark _) hc fun comma _ hc => ?_
  refine (hts trivial).imp fun ts h => ?_
  obtain ⟨names, hs, hnames⟩ := h
  exact ⟨name :: names, .nextParameter hn hc hs, .cons hname hnames⟩

/-- A block is its declarations between braces. Behind them stands a brace, so no `else` is near. -/
theorem Phrase.Follows.block {open' close : Token} {body : List Stmt} {ts : List Token}
    (ho : open'.isMark .leftBrace = true) (hts : (Phrase.declarations body).Follows ts)
    (hc : close.isMark .rightBrace = true) :
    (Phrase.block body).Follows (open' :: (ts ++ [close])) := by
  intro rest _
  have hbefore : (Phrase.declarations body).Before ([close] ++ rest) := by
    simp [Phrase.Before, Token.isKeyword, Token.isMark_iff.mp hc]
  refine .next (.mark _) ho fun open' _ ho => (hts hbefore).append fun ts hb => ?_
  refine .next (.mark _) hc fun close _ hc => .done ?_
  obtain ⟨body, hb, hbody⟩ := hb
  exact ⟨body, .block ho hb hc, fun shape => hbody _ (Shape.shared_cons shape)⟩

/-- A function with its name, its parameters and its body. -/
theorem Phrase.Follows.function {name open' close : Token} {names : List Token} {body : List Stmt}
    {ps bs : List Token} (hn : name.isIdentifier = true) (ho : open'.isMark .leftParen = true)
    (hps : (Phrase.parameters names).Follows ps) (hc : close.isMark .rightParen = true)
    (hbs : (Phrase.block body).Follows bs) :
    (Phrase.function ⟨some name, name, names, body⟩).Follows
      (name :: open' :: (ps ++ close :: bs)) := by
  intro rest _
  refine .next .identifier hn fun name hname hn => .next (.mark _) ho fun open' _ ho => ?_
  refine (hps trivial).append fun ps hp => .next (.mark _) hc fun close _ hc => ?_
  refine (hbs trivial).imp fun bs hb => ?_
  obtain ⟨names, hp, hnames⟩ := hp
  obtain ⟨body, hb, hbody⟩ := hb
  exact ⟨_, .function hn ho hp hc hb,
    fun shape => .parts (.some hname) hname hnames (hbody shape)⟩

/-- A getter written without parentheses. -/
theorem Phrase.Follows.getter {name : Token} {body : List Stmt} {bs : List Token}
    (hn : name.isIdentifier = true) (hbs : (Phrase.block body).Follows bs) :
    (Phrase.getter ⟨some name, name, [], body⟩).Follows (name :: bs) := by
  intro rest _
  refine .next .identifier hn fun name hname hn => (hbs trivial).imp fun bs hb => ?_
  obtain ⟨body, hb, hbody⟩ := hb
  exact ⟨_, .getter hn hb, fun shape => .parts (.some hname) hname .nil (hbody shape)⟩

/-- A getter written with parentheses. -/
theorem Phrase.Follows.getterParens {name open' close : Token} {body : List Stmt}
    {bs : List Token} (hn : name.isIdentifier = true) (ho : open'.isMark .leftParen = true)
    (hc : close.isMark .rightParen = true) (hbs : (Phrase.block body).Follows bs) :
    (Phrase.getter ⟨some name, name, [], body⟩).Follows (name :: open' :: close :: bs) := by
  intro rest _
  refine .next .identifier hn fun name hname hn => .next (.mark _) ho fun open' _ ho => ?_
  refine .next (.mark _) hc fun close _ hc => (hbs trivial).imp fun bs hb => ?_
  obtain ⟨body, hb, hbody⟩ := hb
  exact ⟨_, .getterParens hn ho hc hb,
    fun shape => .parts (.some hname) hname .nil (hbody shape)⟩

/-- A setter with its one parameter. -/
theorem Phrase.Follows.setter {name open' parameter close : Token} {body : List Stmt}
    {bs : List Token} (hn : name.isIdentifier = true) (ho : open'.isMark .leftParen = true)
    (hp : parameter.isIdentifier = true) (hc : close.isMark .rightParen = true)
    (hbs : (Phrase.block body).Follows bs) :
    (Phrase.setter ⟨some (name.renamed (setterName name.lexeme)), name, [parameter], body⟩).Follows
      (name :: open' :: parameter :: close :: bs) := by
  intro rest _
  refine .next .identifier hn fun name hname hn => .next (.mark _) ho fun open' _ ho => ?_
  refine .next .identifier hp fun parameter hparameter hp => ?_
  refine .next (.mark _) hc fun close _ hc => (hbs trivial).imp fun bs hb => ?_
  obtain ⟨body, hb, hbody⟩ := hb
  exact ⟨_, .setter hn ho hp hc hb, fun shape =>
    .parts (.some (.of_eq hname.kind (congrArg setterName hname.lexeme))) hname
      (.cons hparameter .nil) (hbody shape)⟩

theorem Phrase.Follows.noMembers : (Phrase.members .none).Follows [] := by
  intro rest _
  have hnone (shape : Shape) : Lowers .same shape (.functions []) (.functions []) := .noFunctions
  exact .done ⟨.none, .noMembers, hnone, hnone, hnone, hnone⟩

/-- A method before the other members. -/
theorem Phrase.Follows.nextMethod {d : FunctionDecl} {rest : Members} {ts us : List Token}
    (hts : (Phrase.function d).Follows ts) (hus : (Phrase.members rest).Follows us) :
    (Phrase.members { rest with methods := d :: rest.methods }).Follows (ts ++ us) := by
  intro rest _
  refine (hts trivial).append fun ts hd => (hus trivial).imp fun us hr => ?_
  obtain ⟨d, hd, hlowers⟩ := hd
  obtain ⟨ms, hr, hms⟩ := hr
  exact ⟨_, .nextMethod hd hr, fun shape => .nextFunction (hlowers shape) (hms.methods shape),
    hms.classMethods, hms.getters, hms.setters⟩

/-- A class method, behind its `class`. -/
theorem Phrase.Follows.nextClassMethod {keyword : Token} {d : FunctionDecl} {rest : Members}
    {ts us : List Token} (hk : keyword.isKeyword .classKw = true)
    (hts : (Phrase.function d).Follows ts) (hus : (Phrase.members rest).Follows us) :
    (Phrase.members { rest with classMethods := d :: rest.classMethods }).Follows
      (keyword :: (ts ++ us)) := by
  intro rest _
  refine .next (.keyword (by decide)) hk fun keyword _ hk => ?_
  refine (hts trivial).append fun ts hd => (hus trivial).imp fun us hr => ?_
  obtain ⟨d, hd, hlowers⟩ := hd
  obtain ⟨ms, hr, hms⟩ := hr
  exact ⟨_, .nextClassMethod hk hd hr, hms.methods,
    fun shape => .nextFunction (hlowers shape) (hms.classMethods shape), hms.getters, hms.setters⟩

/-- A getter, behind its `get`. -/
theorem Phrase.Follows.nextGetter {marker : Token} {d : FunctionDecl} {rest : Members}
    {ts us : List Token} (hk : isMarker "get" marker = true) (hts : (Phrase.getter d).Follows ts)
    (hus : (Phrase.members rest).Follows us) :
    (Phrase.members { rest with getters := d :: rest.getters }).Follows (marker :: (ts ++ us)) := by
  intro rest _
  refine .next (.marker _) hk fun marker _ hk => ?_
  refine (hts trivial).append fun ts hd => (hus trivial).imp fun us hr => ?_
  obtain ⟨d, hd, hlowers⟩ := hd
  obtain ⟨ms, hr, hms⟩ := hr
  exact ⟨_, .nextGetter hk hd hr, hms.methods, hms.classMethods,
    fun shape => .nextFunction (hlowers shape) (hms.getters shape), hms.setters⟩

/-- A setter, behind its `set`. -/
theorem Phrase.Follows.nextSetter {marker : Token} {d : FunctionDecl} {rest : Members}
    {ts us : List Token} (hk : isMarker "set" marker = true) (hts : (Phrase.setter d).Follows ts)
    (hus : (Phrase.members rest).Follows us) :
    (Phrase.members { rest with setters := d :: rest.setters }).Follows (marker :: (ts ++ us)) := by
  intro rest _
  refine .next (.marker _) hk fun marker _ hk => ?_
  refine (hts trivial).append fun ts hd => (hus trivial).imp fun us hr => ?_
  obtain ⟨d, hd, hlowers⟩ := hd
  obtain ⟨ms, hr, hms⟩ := hr
  exact ⟨_, .nextSetter hk hd hr, hms.methods, hms.classMethods, hms.getters,
    fun shape => .nextFunction (hlowers shape) (hms.setters shape)⟩

/-! ## Rules for statements -/

/-- A variable without a value. -/
theorem Phrase.Follows.varDecl {keyword name end' : Token} (hk : keyword.isKeyword .varKw = true)
    (hn : name.isIdentifier = true) (he : end'.isMark .semicolon = true) :
    (Phrase.varDecl (.var name none)).Follows [keyword, name, end'] := by
  intro rest _
  refine .next (.keyword (by decide)) hk fun keyword _ hk => ?_
  refine .next .identifier hn fun name hname hn => .next (.mark _) he fun end' _ he => .done ?_
  exact ⟨_, .varDecl hk hn he, fun _ hshared => .var hshared hname .absent⟩

/-- A variable with a value. -/
theorem Phrase.Follows.varDeclValue {keyword name equals end' : Token} {value : Expr}
    {vs : List Token} (hk : keyword.isKeyword .varKw = true) (hn : name.isIdentifier = true)
    (hq : equals.isMark .equal = true) (hvs : (Phrase.expression .comma value).Follows vs)
    (he : end'.isMark .semicolon = true) :
    (Phrase.varDecl (.var name (some value))).Follows
      (keyword :: name :: equals :: (vs ++ [end'])) := by
  intro rest _
  refine .next (.keyword (by decide)) hk fun keyword _ hk => ?_
  refine .next .identifier hn fun name hname hn => .next (.mark _) hq fun equals _ hq => ?_
  refine (hvs trivial).append fun vs hv => .next (.mark _) he fun end' _ he => .done ?_
  obtain ⟨value, hv, hvalue⟩ := hv
  exact ⟨_, .varDeclValue hk hn hq hv he,
    fun shape hshared => .var hshared hname (.present (hvalue shape))⟩

/-- An expression and its semicolon. -/
theorem Phrase.Follows.expressionStatement {e : Expr} {ts : List Token} {end' : Token}
    (hts : (Phrase.expression .comma e).Follows ts) (he : end'.isMark .semicolon = true) :
    (Phrase.expressionStatement (.expression e)).Follows (ts ++ [end']) := by
  intro rest _
  refine (hts trivial).append fun ts h => .next (.mark _) he fun end' _ he => .done ?_
  obtain ⟨e, h, hlowers⟩ := h
  exact ⟨_, .expressionStatement h he, fun shape => .expressionStatement (hlowers shape)⟩

/-- A `continue` alone holds no loop. -/
theorem Phrase.Follows.continueLoop {keyword end' : Token}
    (hk : keyword.isKeyword .continueKw = true) (he : end'.isMark .semicolon = true) :
    (Phrase.statement false (.continueLoop keyword)).Follows [keyword, end'] := by
  intro rest _
  refine .next (.keyword (by decide)) hk fun keyword hkeyword hk => ?_
  refine .next (.mark _) he fun end' _ he => .done ?_
  exact ⟨false, _, id, .continueLoop hk he, fun _ => .continueLoop hkeyword⟩

/-- A `break` alone holds no loop. -/
theorem Phrase.Follows.breakLoop {keyword end' : Token} (hk : keyword.isKeyword .breakKw = true)
    (he : end'.isMark .semicolon = true) :
    (Phrase.statement false (.breakLoop keyword)).Follows [keyword, end'] := by
  intro rest _
  refine .next (.keyword (by decide)) hk fun keyword hkeyword hk => ?_
  refine .next (.mark _) he fun end' _ he => .done ?_
  exact ⟨false, _, id, .breakLoop hk he, fun _ => .breakLoop hkeyword⟩

theorem Phrase.Follows.empty {end' : Token} (he : end'.isMark .semicolon = true) :
    (Phrase.statement false .empty).Follows [end'] := by
  intro rest _
  refine .next (.mark _) he fun end' _ he => .done ?_
  exact ⟨false, _, id, .empty he, fun _ => .empty⟩

/-- A `for` that starts with nothing. -/
theorem Phrase.Follows.startNothing {end' : Token} (he : end'.isMark .semicolon = true) :
    (Phrase.forStart none).Follows [end'] := by
  intro rest _
  refine .next (.mark _) he fun end' _ he => .done ?_
  exact ⟨none, .startNothing he, fun _ _ => .noOtherwise⟩

/-- A `for` that starts with a variable of its own. -/
theorem Phrase.Follows.startVar {s : Stmt} {ts : List Token} (hts : (Phrase.varDecl s).Follows ts) :
    (Phrase.forStart (some s)).Follows ts := by
  intro rest _
  refine (hts trivial).imp fun ts h => ?_
  obtain ⟨s, hs, hlowers⟩ := h
  exact ⟨some s, .startVar hs, fun shape hshared => .someOtherwise (hlowers shape hshared)⟩

/-- A `for` that starts with an expression. -/
theorem Phrase.Follows.startExpression {s : Stmt} {ts : List Token}
    (hts : (Phrase.expressionStatement s).Follows ts) : (Phrase.forStart (some s)).Follows ts := by
  intro rest _
  refine (hts trivial).imp fun ts h => ?_
  obtain ⟨s, hs, hlowers⟩ := h
  exact ⟨some s, .startExpression hs, fun shape _ => .someOtherwise (hlowers shape)⟩

/-- An `if` without `else` is open: what is behind it may not begin with one, also when its branch
has become a block. -/
theorem Phrase.Follows.ifThen {keyword open' close : Token} {condition : Expr} {isOpen : Bool}
    {whenTrue : Stmt} {cs ts : List Token} (hk : keyword.isKeyword .ifKw = true)
    (ho : open'.isMark .leftParen = true) (hcs : (Phrase.expression .comma condition).Follows cs)
    (hp : close.isMark .rightParen = true) (hts : (Phrase.statement isOpen whenTrue).Follows ts) :
    (Phrase.statement true (.conditional condition whenTrue none)).Follows
      (keyword :: open' :: (cs ++ close :: ts)) := by
  intro rest hrest
  refine .next (.keyword (by decide)) hk fun keyword _ hk => ?_
  refine .next (.mark _) ho fun open' _ ho => ?_
  refine (hcs trivial).append fun cs hc => .next (.mark _) hp fun close _ hp => ?_
  refine (hts fun _ => hrest rfl).imp fun ts ht => ?_
  obtain ⟨condition, hc, hcondition⟩ := hc
  obtain ⟨isOpen, whenTrue, -, ht, htrue⟩ := ht
  exact ⟨true, _, id, .ifThen hk ho hc hp ht,
    fun shape => .conditional (hcondition shape) (htrue shape) .noOtherwise⟩

/-- An `if` with `else`. The first branch is closed, and the loops written out in it are blocks, so
the `else` finds the same `if`. -/
theorem Phrase.Follows.ifThenElse {keyword open' close otherwise : Token} {condition : Expr}
    {isOpen : Bool} {whenTrue whenFalse : Stmt} {cs ts fs : List Token}
    (hk : keyword.isKeyword .ifKw = true) (ho : open'.isMark .leftParen = true)
    (hcs : (Phrase.expression .comma condition).Follows cs) (hp : close.isMark .rightParen = true)
    (hts : (Phrase.statement false whenTrue).Follows ts) (he : otherwise.isKeyword .elseKw = true)
    (hfs : (Phrase.statement isOpen whenFalse).Follows fs) :
    (Phrase.statement isOpen (.conditional condition whenTrue (some whenFalse))).Follows
      (keyword :: open' :: (cs ++ close :: (ts ++ otherwise :: fs))) := by
  intro rest hrest
  refine .next (.keyword (by decide)) hk fun keyword _ hk => ?_
  refine .next (.mark _) ho fun open' _ ho => ?_
  refine (hcs trivial).append fun cs hc => .next (.mark _) hp fun close _ hp => ?_
  refine (hts fun h => absurd h Bool.false_ne_true).append fun ts ht => ?_
  refine .next (.keyword (by decide)) he fun otherwise _ he => ?_
  refine (hfs hrest).imp fun fs hf => ?_
  obtain ⟨condition, hc, hcondition⟩ := hc
  obtain ⟨isOpen', whenTrue, hclosed, ht, htrue⟩ := ht
  obtain ⟨isOpen, whenFalse, hopen, hf, hfalse⟩ := hf
  obtain rfl : isOpen' = false := Bool.eq_false_iff.mpr fun h => Bool.false_ne_true (hclosed h)
  exact ⟨isOpen, _, hopen, .ifThenElse hk ho hc hp ht he hf, fun shape =>
    .conditional (hcondition shape) (htrue shape) (.someOtherwise (hfalse shape))⟩

/-- An `input` for a variable. -/
theorem Phrase.Follows.input {keyword name end' : Token} {site : Site}
    (hk : keyword.isKeyword .inputKw = true) (hn : name.isIdentifier = true)
    (he : end'.isMark .semicolon = true) :
    (Phrase.statement false (.input keyword (.variable site name))).Follows
      [keyword, name, end'] := by
  intro rest _
  refine .next (.keyword (by decide)) hk fun keyword hkeyword hk => ?_
  refine .next .identifier hn fun name hname hn => .next (.mark _) he fun end' _ he => .done ?_
  exact ⟨false, .input keyword (.variable site name), id, .input hk hn he,
    fun _ => .input hkeyword (.name rfl hname)⟩

/-- A `print` with its value. -/
theorem Phrase.Follows.print {keyword end' : Token} {value : Expr} {vs : List Token}
    (hk : keyword.isKeyword .printKw = true) (hvs : (Phrase.expression .comma value).Follows vs)
    (he : end'.isMark .semicolon = true) :
    (Phrase.statement false (.print keyword value)).Follows (keyword :: (vs ++ [end'])) := by
  intro rest _
  refine .next (.keyword (by decide)) hk fun keyword hkeyword hk => ?_
  refine (hvs trivial).append fun vs hv => .next (.mark _) he fun end' _ he => .done ?_
  obtain ⟨value, hv, hvalue⟩ := hv
  exact ⟨false, _, id, .print hk hv he, fun shape => .print hkeyword (hvalue shape)⟩

/-- A `return` with or without a value. -/
theorem Phrase.Follows.returnValue {keyword end' : Token} {value : Option Expr} {vs : List Token}
    (hk : keyword.isKeyword .returnKw = true) (hvs : (Phrase.optional value).Follows vs)
    (he : end'.isMark .semicolon = true) :
    (Phrase.statement false (.returnValue keyword value)).Follows (keyword :: (vs ++ [end'])) := by
  intro rest _
  refine .next (.keyword (by decide)) hk fun keyword hkeyword hk => ?_
  refine (hvs trivial).append fun vs hv => .next (.mark _) he fun end' _ he => .done ?_
  obtain ⟨value, hv, hvalue⟩ := hv
  exact ⟨false, _, id, .returnValue hk hv he, fun shape => .returnValue hkeyword (hvalue shape)⟩

/-- A `while` with its condition and body; it stays a `while`. -/
theorem Phrase.Follows.whileLoop {keyword open' close : Token} {condition : Expr} {isOpen : Bool}
    {body : Stmt} {cs bs : List Token} (hk : keyword.isKeyword .whileKw = true)
    (ho : open'.isMark .leftParen = true) (hcs : (Phrase.expression .comma condition).Follows cs)
    (hp : close.isMark .rightParen = true) (hbs : (Phrase.statement isOpen body).Follows bs) :
    (Phrase.statement isOpen (.loop condition body none)).Follows
      (keyword :: open' :: (cs ++ close :: bs)) := by
  intro rest hrest
  refine .next (.keyword (by decide)) hk fun keyword _ hk => ?_
  refine .next (.mark _) ho fun open' _ ho => ?_
  refine (hcs trivial).append fun cs hc => .next (.mark _) hp fun close _ hp => ?_
  refine (hbs hrest).imp fun bs hb => ?_
  obtain ⟨condition, hc, hcondition⟩ := hc
  obtain ⟨isOpen, body, hopen, hb, hbody⟩ := hb
  exact ⟨isOpen, _, hopen, .whileLoop hk ho hc hp hb,
    fun shape => .loop (hcondition shape) (hbody shape) .absent⟩

/-- A block as a statement. -/
theorem Phrase.Follows.blockStatement {body : List Stmt} {ts : List Token}
    (hts : (Phrase.block body).Follows ts) : (Phrase.statement false (.block body)).Follows ts := by
  intro rest _
  refine (hts trivial).imp fun ts h => ?_
  obtain ⟨body, hb, hbody⟩ := h
  exact ⟨false, _, id, .blockStatement hb, fun shape => .block (hbody shape)⟩

/-- An expression as a statement. -/
theorem Phrase.Follows.plain {s : Stmt} {ts : List Token}
    (hts : (Phrase.expressionStatement s).Follows ts) : (Phrase.statement false s).Follows ts := by
  intro rest _
  refine (hts trivial).imp fun ts h => ?_
  obtain ⟨s, hs, hlowers⟩ := h
  exact ⟨false, s, id, .plain hs, hlowers⟩

/-! ## Rules for declarations -/

/-- A class with loops in its members written out. -/
theorem classDecl_lowers {shape : Shape} {name name' : Token} {superclass superclass' : Option Expr}
    {ms ms' : Members} (hshared : shape.Shared) (hname : name.Same name')
    (hsuperclass : Lowers .same shape (.optional superclass) (.optional superclass'))
    (hms : ms.Lowered ms') :
    Lowers .same shape
      (.statement (.classDecl
        ⟨name, superclass, ms.methods, ms.classMethods, ms.getters, ms.setters⟩))
      (.statement (.classDecl
        ⟨name', superclass', ms'.methods, ms'.classMethods, ms'.getters, ms'.setters⟩)) :=
  .classDecl hshared hname hsuperclass (hms.methods _) (hms.classMethods _) (hms.getters _)
    (hms.setters _)

/-- A class without a superclass. -/
theorem Phrase.Follows.classDecl {keyword name open' close : Token} {ms : Members}
    {ts : List Token} (hk : keyword.isKeyword .classKw = true) (hn : name.isIdentifier = true)
    (ho : open'.isMark .leftBrace = true) (hts : (Phrase.members ms).Follows ts)
    (hc : close.isMark .rightBrace = true) :
    (Phrase.declaration (.classDecl
      ⟨name, none, ms.methods, ms.classMethods, ms.getters, ms.setters⟩)).Follows
      (keyword :: name :: open' :: (ts ++ [close])) := by
  intro rest _
  refine .next (.keyword (by decide)) hk fun keyword _ hk => ?_
  refine .next .identifier hn fun name hname hn => .next (.mark _) ho fun open' _ ho => ?_
  refine (hts trivial).append fun ts hm => .next (.mark _) hc fun close _ hc => .done ?_
  obtain ⟨ms, hm, hms⟩ := hm
  exact ⟨_, .classDecl hk hn ho hm hc,
    fun shape hshared => classDecl_lowers hshared hname .absent hms⟩

/-- A class with a superclass, which is a name. -/
theorem Phrase.Follows.derivedClass {keyword name less parent open' close : Token} {site : Site}
    {ms : Members} {ts : List Token} (hk : keyword.isKeyword .classKw = true)
    (hn : name.isIdentifier = true) (hl : less.isMark .less = true)
    (hp : parent.isIdentifier = true) (ho : open'.isMark .leftBrace = true)
    (hts : (Phrase.members ms).Follows ts) (hc : close.isMark .rightBrace = true) :
    (Phrase.declaration (.classDecl ⟨name, some (.variable site parent), ms.methods,
      ms.classMethods, ms.getters, ms.setters⟩)).Follows
      (keyword :: name :: less :: parent :: open' :: (ts ++ [close])) := by
  intro rest _
  refine .next (.keyword (by decide)) hk fun keyword _ hk => ?_
  refine .next .identifier hn fun name hname hn => .next (.mark _) hl fun less _ hl => ?_
  refine .next .identifier hp fun parent hparent hp => .next (.mark _) ho fun open' _ ho => ?_
  refine (hts trivial).append fun ts hm => .next (.mark _) hc fun close _ hc => .done ?_
  obtain ⟨ms, hm, hms⟩ := hm
  have hparent (shape : Shape) : Lowers .same shape
      (.optional (some (.variable site _))) (.optional (some (.variable site parent))) :=
    .present (.name rfl hparent)
  exact ⟨_, .derivedClass hk hn hl hp ho hm hc,
    fun shape hshared => classDecl_lowers hshared hname (hparent shape) hms⟩

/-- A declaration of a function. -/
theorem Phrase.Follows.functionDecl {keyword : Token} {d : FunctionDecl} {ts : List Token}
    (hk : keyword.isKeyword .funKw = true) (hts : (Phrase.function d).Follows ts) :
    (Phrase.declaration (.functionDecl d)).Follows (keyword :: ts) := by
  intro rest _
  refine .next (.keyword (by decide)) hk fun keyword _ hk => (hts trivial).imp fun ts hd => ?_
  obtain ⟨d, hd, hlowers⟩ := hd
  exact ⟨_, .functionDecl hk hd, fun shape hshared => .functionDecl hshared (hlowers shape)⟩

/-- A constant with its value. -/
theorem Phrase.Follows.constant {keyword name equals end' : Token} {value : Expr}
    {vs : List Token} (hk : keyword.isKeyword .valKw = true) (hn : name.isIdentifier = true)
    (hq : equals.isMark .equal = true) (hvs : (Phrase.expression .comma value).Follows vs)
    (he : end'.isMark .semicolon = true) :
    (Phrase.declaration (.constant name value)).Follows
      (keyword :: name :: equals :: (vs ++ [end'])) := by
  intro rest _
  refine .next (.keyword (by decide)) hk fun keyword _ hk => ?_
  refine .next .identifier hn fun name hname hn => .next (.mark _) hq fun equals _ hq => ?_
  refine (hvs trivial).append fun vs hv => .next (.mark _) he fun end' _ he => .done ?_
  obtain ⟨value, hv, hvalue⟩ := hv
  exact ⟨_, .constant hk hn hq hv he,
    fun shape hshared => .constant hshared hname (hvalue shape)⟩

theorem Phrase.Follows.var {s : Stmt} {ts : List Token} (hts : (Phrase.varDecl s).Follows ts) :
    (Phrase.declaration s).Follows ts := by
  intro rest _
  refine (hts trivial).imp fun ts h => ?_
  obtain ⟨s, hs, hlowers⟩ := h
  exact ⟨s, .var hs, hlowers⟩

theorem Phrase.Follows.statement {isOpen : Bool} {s : Stmt} {ts : List Token}
    (hts : (Phrase.statement isOpen s).Follows ts) : (Phrase.declaration s).Follows ts := by
  intro rest hrest
  refine (hts fun _ => hrest).imp fun ts h => ?_
  obtain ⟨isOpen, s, -, hs, hlowers⟩ := h
  exact ⟨s, .statement hs, fun shape _ => hlowers shape⟩

theorem Phrase.Follows.noDeclarations : (Phrase.declarations []).Follows [] := by
  intro rest _
  exact .done ⟨[], .noDeclarations, fun _ _ => .noStatements⟩

/-- A declaration before others. None of them begins with `else`, so the first is read to its own
end. -/
theorem Phrase.Follows.nextDeclaration {s : Stmt} {ss : List Stmt} {ts us : List Token}
    (hts : (Phrase.declaration s).Follows ts) (hr : Derives (.declarations ss) us)
    (hus : (Phrase.declarations ss).Follows us) :
    (Phrase.declarations (s :: ss)).Follows (ts ++ us) := by
  intro rest hrest
  refine (hts (hr.declarations_else hrest)).append fun ts hs => ?_
  refine (hus hrest).imp fun us hss => ?_
  obtain ⟨s, hs, hfirst⟩ := hs
  obtain ⟨ss, hss, hmore⟩ := hss
  exact ⟨s :: ss, .nextDeclaration hs hss,
    fun shape hshared => .nextStatement (hfirst shape hshared) (hmore shape hshared)⟩

/-! ## Every phrase -/

/-- Every phrase of the grammar becomes a phrase again, with loops in its tree written out. -/
theorem Derives.follows {phrase : Phrase} {ts : List Token} (h : Derives phrase ts) :
    phrase.Follows ts := by
  induction h with
  | tighter hnext _ ih => exact .tighter hnext ih
  | joined _ ho _ ihl ihr => exact .joined ihl ho ihr
  | assign hn he _ ih => exact .assign hn he ih
  | set _ hd hn he _ iho ihv => exact .set iho hd hn he ihv
  | conditional _ hq _ hm _ ihc iht ihf => exact .conditional ihc hq iht hm ihf
  | unary ho _ ih => exact .unary ho ih
  | call _ ho _ hp ihc iha => exact .call ihc ho iha hp
  | get _ hd hn ih => exact .get ih hd hn
  | literal ht => exact .literal ht
  | name hn => exact .name hn
  | receiver hk => exact .receiver hk
  | inherited hk hd hm => exact .inherited hk hd hm
  | group ho _ hc ih => exact .group ho ih hc
  | functionLiteral hk ho _ hc _ ihp ihb => exact .functionLiteral hk ho ihp hc ihb
  | absent => exact .absent
  | present _ ih => exact .present ih
  | noArguments => exact .noArguments
  | someArguments _ hl ih => exact .someArguments ih hl
  | lastArgument _ ih => exact .lastArgument ih
  | nextArgument _ hc _ ihe ihes => exact .nextArgument ihe hc ihes
  | noParameters => exact .noParameters
  | someParameters _ hl ih => exact .someParameters ih hl
  | lastParameter hn => exact .lastParameter hn
  | nextParameter hn hc _ ih => exact .nextParameter hn hc ih
  | block ho _ hc ih => exact .block ho ih hc
  | function hn ho _ hc _ ihp ihb => exact .function hn ho ihp hc ihb
  | getter hn _ ihb => exact .getter hn ihb
  | getterParens hn ho hc _ ihb => exact .getterParens hn ho hc ihb
  | setter hn ho hp hc _ ihb => exact .setter hn ho hp hc ihb
  | noMembers => exact .noMembers
  | nextMethod _ _ ihd ihr => exact .nextMethod ihd ihr
  | nextClassMethod hk _ _ ihd ihr => exact .nextClassMethod hk ihd ihr
  | nextGetter hk _ _ ihd ihr => exact .nextGetter hk ihd ihr
  | nextSetter hk _ _ ihd ihr => exact .nextSetter hk ihd ihr
  | varDecl hk hn he => exact .varDecl hk hn he
  | varDeclValue hk hn hq _ he ih => exact .varDeclValue hk hn hq ih he
  | expressionStatement _ he ih => exact .expressionStatement ih he
  | continueLoop hk he => exact .continueLoop hk he
  | breakLoop hk he => exact .breakLoop hk he
  | empty he => exact .empty he
  | startNothing he => exact .startNothing he
  | startVar _ ih => exact .startVar ih
  | startExpression _ ih => exact .startExpression ih
  -- the one rule whose tokens may be replaced: the loop stays a `for` or is written as a `while`
  | forLoop hk ho hs hc he hi hp hb ihs ihc ihi ihb =>
    exact .forLoop hk ho hs hc he hi hp hb ihs ihc ihi ihb
  | ifThen hk ho _ hp _ ihc iht => exact .ifThen hk ho ihc hp iht
  | ifThenElse hk ho _ hp _ he _ ihc iht ihf => exact .ifThenElse hk ho ihc hp iht he ihf
  | input hk hn he => exact .input hk hn he
  | print hk _ he ih => exact .print hk ih he
  | returnValue hk _ he ih => exact .returnValue hk ih he
  | whileLoop hk ho _ hp _ ihc ihb => exact .whileLoop hk ho ihc hp ihb
  | blockStatement _ ih => exact .blockStatement ih
  | plain _ ih => exact .plain ih
  | classDecl hk hn ho _ hc ih => exact .classDecl hk hn ho ih hc
  | derivedClass hk hn hl hp ho _ hc ih => exact .derivedClass hk hn hl hp ho ih hc
  | functionDecl hk _ ih => exact .functionDecl hk ih
  | constant hk hn hq _ he ih => exact .constant hk hn hq ih he
  | var _ ih => exact .var ih
  | statement _ ih => exact .statement ih
  | noDeclarations => exact .noDeclarations
  | nextDeclaration _ hr ihs ihr => exact .nextDeclaration ihs hr ihr

/-- Where loops are written out in the tokens of a program, the tokens are a program with these
loops written out. -/
theorem Derives.written {ss : List Stmt} {ts us : List Token} (h : Derives (.declarations ss) ts)
    (hus : Written ts us) : ∃ ss', Derives (.declarations ss') us ∧
      Lowers .same [] (.statements ss) (.statements ss') := by
  obtain ⟨ss', hss, hlowers⟩ := (h.follows (rfl : (Phrase.declarations ss).Before [])).whole hus
  exact ⟨ss', hss, hlowers [] Shape.shared_nil⟩

end Grammar

end Lox
