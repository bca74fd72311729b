import Lox.Grammar
import Lox.Token.Scan
import Lox.Proofs.Grammar.Derivation
import Lox.Proofs.Grammar.Reads

/-!
# Parsing is sound

What parsing gives without reporting an error is the tree of a derivation of the tokens before the
end: no token is skipped, used twice or invented (`parse_sound`).

Each rule of the grammar is worked through once, for whatever rules it is given (`…_reads`), with
the laws of `Lox.Proofs.Grammar.Reads`. The rules as they call each other are then sound by
induction on the fuel (`sound`): a rule that calls another where it stands calls a cheaper one, and
one that has read a token has `callsPerToken` units to spare, so fuel never runs out.
-/

namespace Lox.Grammar

open Lox.Parser

/-- The rule reads at least one token, and what it reads is the phrase. -/
abbrev ReadsAs {α : Type} (n : Nat) (p : Parser α) (phrase : α → Phrase) : Prop :=
  Reads n 1 p fun ts a _ => Derives (phrase a) ts

/-! ## Expressions -/

/-- A name alone, at whatever rank, is a single token. -/
theorem Derives.name_inv {rank : Rank} {site : Site} {name : Token} {ts : List Token}
    (h : Derives (.expression rank (.variable site name)) ts) :
    ts = [name] ∧ name.isIdentifier = true := by
  generalize hp : Phrase.expression rank (.variable site name) = phrase at h
  induction h generalizing rank with
  | tighter _ _ ih => cases hp; exact ih rfl
  | name hn => cases hp; exact ⟨rfl, hn⟩
  | @joined level => cases level <;> cases hp
  | _ => cases hp

/-- A property, at whatever rank, ends with a dot and its name. -/
theorem Derives.get_inv {rank : Rank} {object : Expr} {name : Token} {ts : List Token}
    (h : Derives (.expression rank (.get object name)) ts) :
    ∃ os dot, ts = os ++ [dot, name] ∧ Derives (.expression .call object) os ∧
      dot.isMark .dot = true ∧ name.isIdentifier = true := by
  generalize hp : Phrase.expression rank (.get object name) = phrase at h
  induction h generalizing rank with
  | tighter _ _ ih => cases hp; exact ih rfl
  | get ho hd hn => cases hp; exact ⟨_, _, rfl, ho, hd, hn⟩
  | @joined level => cases level <;> cases hp
  | _ => cases hp

section Expressions

variable {n : Nat}

/-- An assignment puts the target, the `=` and the value in a row. Any other target is an error, and
then nothing is claimed. -/
theorem assignTo_reads {target : Expr} {equals : Token} {value : Expr}
    (he : equals.isMark .equal = true) :
    Reads n 0 (assignTo target equals value) fun ts e _ => ∀ us vs,
      Derives (.expression .conditional target) us → Derives (.expression .assignment value) vs →
      Derives (.expression .assignment e) (us ++ equals :: (vs ++ ts)) := by
  unfold assignTo
  split
  next site name =>
    refine Reads.freshSite fun site => Reads.pure fun rest us vs hu hv => ?_
    obtain ⟨rfl, hn⟩ := hu.name_inv
    simpa using Derives.assign hn he hv
  next object name =>
    refine Reads.pure fun rest us vs hu hv => ?_
    obtain ⟨os, dot, rfl, ho, hd, hn⟩ := hu.get_inv
    simpa using Derives.set ho hd hn he hv
  next => exact Reads.report (Reads.pure fun _ => trivial)

/-- An assignment is read to the right: its value may be one too. -/
theorem assignmentRule_reads {conditional assignment : Parser Expr}
    (hc : ReadsAs n conditional (.expression .conditional))
    (ha : 0 < n → ReadsAs (n - 1) assignment (.expression .assignment)) :
    ReadsAs n (assignmentRule conditional assignment) (.expression .assignment) := by
  unfold assignmentRule
  refine Reads.bind hc (fun target _ => ?_) (Nat.le_refl _)
  refine Reads.take? (fun equals hn he => ?_) ?_
  · refine Reads.bind ((ha (by omega)).le (by omega)) (fun value _ => ?_) (Nat.zero_le _)
    refine (assignTo_reads he).mono (Nat.le_refl _) (Nat.le_refl _) ?_
    intro ts e rest h vs hv us hu
    simpa using h us vs hu hv
  · refine Reads.pure fun rest _ us hu => ?_
    simpa using Derives.tighter rfl hu

/-- The branches of a conditional lie between tokens of their own, so the first may be any
expression. -/
theorem conditionalRule_reads {or expression conditional : Parser Expr}
    (ho : ReadsAs n or (.expression .or))
    (he : 0 < n → ReadsAs (n - 1) expression (.expression .comma))
    (hc : 0 < n → ReadsAs (n - 1) conditional (.expression .conditional)) :
    ReadsAs n (conditionalRule or expression conditional) (.expression .conditional) := by
  unfold conditionalRule
  refine Reads.bind ho (fun condition _ => ?_) (Nat.le_refl _)
  refine Reads.takes (fun question hn hq => ?_) ?_
  · simp only [if_true]
    refine Reads.bind ((he (by omega)).le (by omega)) (fun whenTrue _ => ?_) (Nat.zero_le _)
    refine Reads.expect fun colon _ hm => ?_
    refine Reads.bind ((hc (by omega)).le (by omega)) (fun whenFalse _ => ?_)
      (Nat.zero_le _)
    refine Reads.pure fun rest fs hf ts ht cs hcs => ?_
    simpa using Derives.conditional hcs hq ht hm hf
  · simp only [Bool.false_eq_true, if_false]
    refine Reads.pure fun rest _ cs hcs => ?_
    simpa using Derives.tighter rfl hcs

/-- An operator leaves one token less to its operand. -/
theorem unaryRule_reads {unary call : Parser Expr}
    (hu : 0 < n → ReadsAs (n - 1) unary (.expression .unary))
    (hc : ReadsAs n call (.expression .call)) :
    ReadsAs n (unaryRule unary call) (.expression .unary) := by
  unfold unaryRule
  refine Reads.take? (fun operator hn ho => ?_) ?_
  · refine Reads.bind (hu hn) (fun operand _ => ?_) (Nat.zero_le _)
    refine Reads.pure fun rest ts ht => ?_
    simpa using Derives.unary ho ht
  · exact hc.mono (Nat.le_refl _) (Nat.le_refl _) fun ts e rest he _ => .tighter rfl he

/-- What is read is the arguments and the parenthesis behind them. -/
theorem argumentsRule_reads {arguments : Parser (List Expr)}
    (ha : ReadsAs n arguments fun es => .arguments es) :
    Reads n 1 (argumentsRule arguments) fun ts result _ => ∃ as, ts = as ++ [result.2] ∧
      Derives (.arguments result.1) as ∧ result.2.isMark .rightParen = true := by
  unfold argumentsRule
  refine Reads.sees ?_ ?_
  · simp only [if_true, pure_bind]
    refine Reads.expect fun paren _ hp => ?_
    exact Reads.pure fun rest _ => ⟨[], rfl, .noArguments, hp⟩
  · simp only [Bool.false_eq_true, if_false]
    refine Reads.bind ha (fun es _ => ?_) (Nat.le_refl _)
    refine Reads.expect fun paren _ hp => ?_
    exact Reads.pure fun rest ts ht => ⟨ts, by simp, ht, hp⟩

/-- Behind `super` come a dot and a name. -/
theorem inheritedRule_reads {keyword : Token} (hk : keyword.isKeyword .superKw = true) :
    Reads n 0 (inheritedRule keyword) fun ts e _ =>
      Derives (.expression .primary e) (keyword :: ts) := by
  unfold inheritedRule
  refine Reads.expect fun dot _ hd => Reads.expect fun method _ hm => ?_
  exact Reads.freshSite fun site => Reads.pure fun rest => Derives.inherited hk hd hm

/-- The parentheses around an expression are read with it. -/
theorem groupRule_reads {expression : Parser Expr} {open' : Token}
    (ho : open'.isMark .leftParen = true)
    (he : ReadsAs n expression (.expression .comma)) :
    Reads n 0 (groupRule expression) fun ts e _ =>
      Derives (.expression .primary e) (open' :: ts) := by
  unfold groupRule
  refine Reads.bind he (fun inner _ => ?_) (Nat.zero_le _)
  refine Reads.expect fun close _ hc => Reads.pure fun rest ts ht => ?_
  simpa using Derives.group ho ht hc

end Expressions

/-! ## Functions -/

section Functions

variable {n : Nat}

/-- Each parameter takes fuel; there are never more than allowed. -/
theorem parameters_reads : ∀ {n : Nat} (fuel count : Nat), n < fuel →
    Reads n 1 (parameters fuel count) fun ts names _ =>
      Derives (.parameterRow names) ts ∧ count + names.length ≤ maxArity
  | n, 0, _, h => absurd h (Nat.not_lt_zero _)
  | n, fuel + 1, count, h => by
    -- a parameter and, behind a comma, the parameters after it
    have row : Reads n 1
        (do let name ← Parser.expect Token.isIdentifier .functionDecl .parameterName
            if ← Parser.takes (Token.isMark .comma) then
              return name :: (← parameters fuel (count + 1))
            else return [name])
        fun ts names _ => count < maxArity →
          Derives (.parameterRow names) ts ∧ count + names.length ≤ maxArity := by
      refine Reads.expect fun name hn hi => ?_
      refine Reads.takes (fun comma hn' hc => ?_) ?_
      · simp only [if_true]
        refine Reads.bind (parameters_reads fuel (count + 1) (by omega))
          (fun names _ => ?_) (Nat.zero_le _)
        refine Reads.pure fun rest ts ⟨ht, hl⟩ hcount => ?_
        refine ⟨by simpa using Derives.nextParameter hi hc ht, ?_⟩
        rw [List.length_cons]
        omega
      · simp only [Bool.false_eq_true, if_false]
        exact Reads.pure fun rest _ hcount => ⟨.lastParameter hi, hcount⟩
    unfold parameters
    by_cases hcount : maxArity ≤ count
    · simp only [hcount, if_true]
      exact Reads.peek fun t => Reads.report
        (row.mono (Nat.le_refl _) (Nat.le_refl _) fun _ _ _ _ => trivial)
    · simp only [hcount, if_false]
      exact row.mono (Nat.le_refl _) (Nat.le_refl _) fun ts names rest h => h (by omega)

/-- No parameters, if the closing parenthesis comes next. -/
theorem parametersRule_reads {fuel : Nat} (hf : n < fuel) :
    Reads n 0 (parametersRule fuel) fun ts names _ => Derives (.parameters names) ts := by
  unfold parametersRule
  refine Reads.sees ?_ ?_
  · simp only [if_true]
    exact Reads.pure fun rest _ => .noParameters
  · simp only [Bool.false_eq_true, if_false]
    refine (parameters_reads fuel 0 hf).mono (Nat.le_refl _) (Nat.zero_le _) ?_
    exact fun ts names rest ⟨ht, hl⟩ => .someParameters ht (by omega)

/-- The braces around declarations are read with them. -/
theorem blockRule_reads {declarations : Parser (List Stmt)} {open' : Token}
    (ho : open'.isMark .leftBrace = true)
    (hd : Reads n 0 declarations fun ts ss _ => Derives (.declarations ss) ts) :
    Reads n 0 (blockRule declarations) fun ts body _ => Derives (.block body) (open' :: ts) := by
  unfold blockRule
  refine Reads.bind hd (fun body _ => ?_) (Nat.zero_le _)
  refine Reads.expect fun close _ hc => Reads.pure fun rest ts ht => ?_
  simpa using Derives.block ho ht hc

/-- Parameters and body of a function, with the tokens between them. -/
theorem functionRest_reads {fuel : Nat} {declarations : Parser (List Stmt)} {rule : Rule}
    {role : FunctionRole} (hf : n < fuel)
    (hd : Reads n 0 declarations fun ts ss _ => Derives (.declarations ss) ts) :
    Reads n 0 (functionRest fuel declarations rule role) fun ts result _ =>
      ∃ ps close bs, ts = ps ++ close :: bs ∧ Derives (.parameters result.1) ps ∧
        close.isMark .rightParen = true ∧ Derives (.block result.2) bs := by
  unfold functionRest
  refine Reads.bind (parametersRule_reads hf) (fun names _ => ?_) (Nat.zero_le _)
  refine Reads.expect fun close _ hc => Reads.expect fun open' _ ho => ?_
  refine Reads.bind (blockRule_reads ho (hd.le (by omega))) (fun body _ => ?_)
    (Nat.zero_le _)
  refine Reads.pure fun rest bs hb ps hp => ⟨ps, close, open' :: bs, ?_, hp, hc, hb⟩
  simp

/-- A function: its name, its parameters in parentheses and its block. -/
theorem functionRule_reads {fuel : Nat} {declarations : Parser (List Stmt)}
    {role : FunctionRole} (hf : n ≤ fuel)
    (hd : 0 < n → Reads (n - 1) 0 declarations fun ts ss _ => Derives (.declarations ss) ts) :
    ReadsAs n (functionRule fuel declarations role) .function := by
  unfold functionRule
  refine Reads.expect fun name hn hi => Reads.expect fun open' _ ho => ?_
  refine Reads.bind (functionRest_reads (by omega) ((hd hn).le (by omega)))
    (fun result _ => ?_) (Nat.zero_le _)
  refine Reads.pure fun rest ts ⟨ps, close, bs, hts, hp, hc, hb⟩ => ?_
  subst hts
  simpa using Derives.function hi ho hp hc hb

/-- A function without a name goes by its keyword. -/
theorem functionLiteralRule_reads {fuel : Nat} {declarations : Parser (List Stmt)}
    {keyword : Token} (hk : keyword.isKeyword .funKw = true) (hf : n < fuel)
    (hd : Reads n 0 declarations fun ts ss _ => Derives (.declarations ss) ts) :
    Reads n 0 (functionLiteralRule fuel declarations keyword) fun ts e _ =>
      Derives (.expression .primary e) (keyword :: ts) := by
  unfold functionLiteralRule
  refine Reads.expect fun open' _ ho => ?_
  refine Reads.bind (functionRest_reads (by omega) (hd.le (by omega)))
    (fun result _ => ?_) (Nat.zero_le _)
  refine Reads.pure fun rest ts ⟨ps, close, bs, hts, hp, hc, hb⟩ => ?_
  subst hts
  simpa using Derives.functionLiteral hk ho hp hc hb

end Functions

/-! ## Classes -/

section Classes

variable {n : Nat}

/-- A getter may have empty parentheses. -/
theorem getterRule_reads {declarations : Parser (List Stmt)}
    (hd : 0 < n → Reads (n - 1) 0 declarations fun ts ss _ => Derives (.declarations ss) ts) :
    ReadsAs n (getterRule declarations) .getter := by
  -- the body, whatever stands before it
  have body (name : Token) {k : Nat} (hk : k < n) : Reads k 0
      (do let _ ← Parser.expect (Token.isMark .leftBrace) .classDecl .getterBodyOpen
          let body ← blockRule declarations
          return (⟨some name, name, [], body⟩ : FunctionDecl))
      fun ts d _ => ∃ ss, d = ⟨some name, name, [], ss⟩ ∧ Derives (.block ss) ts := by
    refine Reads.expect fun open' _ ho => ?_
    refine Reads.bind (blockRule_reads ho ((hd (by omega)).le (by omega)))
      (fun ss _ => ?_) (Nat.zero_le _)
    exact Reads.pure fun rest bs hb => ⟨ss, rfl, by simpa using hb⟩
  unfold getterRule
  refine Reads.expect fun name hn hi => Reads.takes (fun open' hn' ho => ?_) ?_
  · simp only [if_true]
    refine Reads.expect fun close _ hc => ?_
    refine (body name (by omega)).mono (Nat.le_refl _) (Nat.le_refl _) ?_
    rintro ts d rest ⟨ss, rfl, hb⟩
    exact .getterParens hi ho hc hb
  · simp only [Bool.false_eq_true, if_false]
    refine (body name (by omega)).mono (Nat.le_refl _) (Nat.le_refl _) ?_
    rintro ts d rest ⟨ss, rfl, hb⟩ _
    exact .getter hi hb

/-- A list of parameters with exactly one entry is one name. -/
theorem Derives.parameter_inv {names ts : List Token} (h : Derives (.parameters names) ts)
    (hl : names.length = 1) :
    ∃ name, names = [name] ∧ ts = [name] ∧ name.isIdentifier = true := by
  cases h with
  | noParameters => exact absurd hl (by simp)
  | someParameters h =>
    cases h with
    | lastParameter hn => exact ⟨_, rfl, rfl, hn⟩
    | nextParameter _ _ hs =>
      cases hs <;> simp at hl

/-- A setter has one parameter. -/
theorem setterRule_reads {fuel : Nat} {declarations : Parser (List Stmt)} (hf : n ≤ fuel)
    (hd : 0 < n → Reads (n - 1) 0 declarations fun ts ss _ => Derives (.declarations ss) ts) :
    ReadsAs n (setterRule fuel declarations) .setter := by
  unfold setterRule
  refine Reads.expect fun name hn hi => Reads.expect fun open' _ ho => ?_
  refine Reads.bind (parametersRule_reads (by omega)) (fun names _ => ?_) (Nat.zero_le _)
  have rest' : Reads (n - 1 - 1 - 0) 0
      (do let _ ← Parser.expect (Token.isMark .rightParen) .classDecl .setterClose
          let _ ← Parser.expect (Token.isMark .leftBrace) .classDecl .setterBodyOpen
          let body ← blockRule declarations
          return (⟨some (name.renamed (setterName name.lexeme)), name, names, body⟩ :
            FunctionDecl))
      fun ts d _ => names.length = 1 → ∀ ps, Derives (.parameters names) ps →
        Derives (.setter d) (name :: open' :: (ps ++ ts)) := by
    refine Reads.expect fun close _ hc => Reads.expect fun brace _ hb => ?_
    refine Reads.bind (blockRule_reads hb ((hd hn).le (by omega))) (fun body _ => ?_)
      (Nat.zero_le _)
    refine Reads.pure fun rest bs hbs hl ps hps => ?_
    obtain ⟨parameter, rfl, rfl, hp⟩ := hps.parameter_inv hl
    simpa using Derives.setter hi ho hp hc hbs
  by_cases hl : names.length = 1
  · simp only [hl, ne_eq, not_true_eq_false, if_false]
    exact rest'.mono (Nat.le_refl _) (Nat.le_refl _) fun ts d rest h ps hps => h hl ps hps
  · simp only [ne_eq, hl, not_false_eq_true, if_true]
    exact Reads.report (rest'.mono (Nat.le_refl _) (Nat.le_refl _) fun _ _ _ _ => trivial)

/-- A member with a marker, in front of other members. -/
theorem marked_reads (marker : String) {memberOf : Parser FunctionDecl}
    {others : Parser Members} {phrase : FunctionDecl → Phrase}
    (add : FunctionDecl → Members → Members)
    (hm : ∀ {k}, k ≤ n → ReadsAs k memberOf phrase)
    (ho : 0 < n → Reads (n - 1) 0 others fun ts ms _ => Derives (.members ms) ts)
    (hadd : ∀ {t d rest ts us}, isMarker marker t = true → Derives (phrase d) ts →
      Derives (.members rest) us → Derives (.members (add d rest)) (t :: (ts ++ us))) :
    Reads n 1
      (do let _ ← Parser.take? (isMarker marker)
          let d ← memberOf
          let rest ← others
          return add d rest)
      fun ts ms rest => (ts ++ rest).head?.any (isMarker marker) = true →
        Derives (.members ms) ts := by
  refine Reads.take? (fun t hn ht => ?_) ?_
  · refine Reads.bind (hm (by omega)) (fun d _ => ?_) (Nat.zero_le _)
    refine Reads.bind ((ho hn).le (by omega)) (fun rest _ => ?_) (Nat.zero_le _)
    refine Reads.pure fun _ us hus ts hts _ => ?_
    simpa using hadd ht hts hus
  · refine Reads.bind (hm (Nat.le_refl _)) (fun d _ => ?_) (Nat.le_refl _)
    refine Reads.bind (ho (by omega)) (fun rest _ => ?_) (Nat.zero_le _)
    refine Reads.pure fun _ us _ ts _ hfalse htrue => ?_
    rw [hfalse] at htrue
    exact absurd htrue Bool.false_ne_true

/-- A marker makes a getter or a setter only if a name follows; otherwise it is the name of a
method. -/
theorem memberRule_reads {fuel : Nat} {declarations : Parser (List Stmt)}
    {others : Parser Members} (hf : n ≤ fuel)
    (hd : 0 < n → Reads (n - 1) 0 declarations fun ts ss _ => Derives (.declarations ss) ts)
    (ho : 0 < n → Reads (n - 1) 0 others fun ts ms _ => Derives (.members ms) ts) :
    ReadsAs n (memberRule fuel declarations others) .members := by
  have hfun {k : Nat} (hk : k ≤ n) :
      ReadsAs k (functionRule fuel declarations .method) .function :=
    functionRule_reads (by omega) fun hn => (hd (by omega)).le (by omega)
  have hget {k : Nat} (hk : k ≤ n) : ReadsAs k (getterRule declarations) .getter :=
    getterRule_reads fun hn => (hd (by omega)).le (by omega)
  have hset {k : Nat} (hk : k ≤ n) : ReadsAs k (setterRule fuel declarations) .setter :=
    setterRule_reads (by omega) fun hn => (hd (by omega)).le (by omega)
  unfold memberRule seesMarker
  simp only [bind_assoc, pure_bind]
  refine Reads.takes (fun keyword hn hk => ?_) ?_
  · simp only [if_true]
    refine Reads.bind (hfun (by omega)) (fun d _ => ?_) (Nat.zero_le _)
    refine Reads.bind ((ho hn).le (by omega)) (fun rest _ => ?_) (Nat.zero_le _)
    refine Reads.pure fun _ us hus ts hts => ?_
    simpa using Derives.nextClassMethod hk hts hus
  simp only [Bool.false_eq_true, if_false]
  -- the members that neither marker begins
  have plain : ReadsAs n
      (do let d ← functionRule fuel declarations .method
          let rest ← others
          return { rest with methods := d :: rest.methods }) .members := by
    refine Reads.bind (hfun (Nat.le_refl _)) (fun d _ => ?_) (Nat.le_refl _)
    refine Reads.bind (ho (by omega)) (fun rest _ => ?_) (Nat.zero_le _)
    refine Reads.pure fun _ us hus ts hts => ?_
    simpa using Derives.nextMethod hts hus
  have getters := marked_reads "get"
    (fun d rest => { rest with getters := d :: rest.getters }) hget ho
    fun ht hd hr => .nextGetter ht hd hr
  have setters := marked_reads "set"
    (fun d rest => { rest with setters := d :: rest.setters }) hset ho
    fun ht hd hr => .nextSetter ht hd hr
  have afterGet : Reads n 1
      (do let seen ← Parser.sees (isMarker "set")
          let second ← Parser.seesSecond Token.isIdentifier
          if (seen && second) = true then
            let _ ← Parser.take? (isMarker "set")
            let d ← setterRule fuel declarations
            let rest ← others
            return { rest with setters := d :: rest.setters }
          else
            let d ← functionRule fuel declarations .method
            let rest ← others
            return { rest with methods := d :: rest.methods })
      fun ts ms _ => Derives (.members ms) ts := by
    refine Reads.sees ?_ (Reads.seesSecond fun second => ?_)
    · refine Reads.seesSecond fun second => ?_
      cases second with
      | true => exact setters
      | false => exact plain.mono (Nat.le_refl _) (Nat.le_refl _) fun _ _ _ h _ => h
    · exact plain
  refine Reads.mono (D := fun ts ms _ => Derives (.members ms) ts) ?_ (Nat.le_refl _)
    (Nat.le_refl _) fun _ _ _ h _ => h
  refine Reads.sees ?_ (Reads.seesSecond fun second => ?_)
  · refine Reads.seesSecond fun second => ?_
    cases second with
    | true => exact getters
    | false => exact afterGet.mono (Nat.le_refl _) (Nat.le_refl _) fun _ _ _ h _ => h
  · exact afterGet

/-- Either nothing is read, or `<` and a name. -/
theorem superclassRule_reads :
    Reads n 0 superclassRule fun ts parent _ =>
      (parent = none ∧ ts = []) ∨
        ∃ less name site, parent = some (.variable site name) ∧ ts = [less, name] ∧
          less.isMark .less = true ∧ name.isIdentifier = true := by
  unfold superclassRule
  refine Reads.takes (fun less _ hl => ?_) ?_
  · simp only [if_true]
    refine Reads.expect fun name _ hn => Reads.freshSite fun site => ?_
    exact Reads.pure fun rest => .inr ⟨less, name, site, rfl, rfl, hl, hn⟩
  · simp only [Bool.false_eq_true, if_false]
    exact Reads.pure fun rest _ => .inl ⟨rfl, rfl⟩

/-- A class: its name, its superclass if it has one, and its members in braces. -/
theorem classRule_reads {members : Parser Members} {keyword : Token}
    (hk : keyword.isKeyword .classKw = true)
    (hm : 0 < n → Reads (n - 1) 0 members fun ts ms _ => Derives (.members ms) ts) :
    Reads n 0 (classRule members) fun ts s _ => Derives (.declaration s) (keyword :: ts) := by
  unfold classRule
  refine Reads.expect fun name hn hi => ?_
  refine Reads.bind superclassRule_reads (fun parent _ => ?_) (Nat.zero_le _)
  refine Reads.expect fun open' _ ho => ?_
  refine Reads.bind ((hm hn).le (by omega)) (fun ms _ => ?_) (Nat.zero_le _)
  refine Reads.expect fun close _ hc => Reads.pure fun rest ts hts ps hps => ?_
  obtain ⟨rfl, rfl⟩ | ⟨less, parent, site, rfl, rfl, hl, hp⟩ := hps
  · simpa using Derives.classDecl hk hi ho hts hc
  · simpa using Derives.derivedClass hk hi hl hp ho hts hc

end Classes

/-! ## Statements -/

section Statements

variable {n : Nat} {expression : Parser Expr} {keyword : Token}

/-- A constant always has a value. -/
theorem constantRule_reads (hk : keyword.isKeyword .valKw = true)
    (he : 0 < n → ReadsAs (n - 1) expression (.expression .comma)) :
    Reads n 0 (constantRule expression) fun ts s _ =>
      Derives (.declaration s) (keyword :: ts) := by
  unfold constantRule
  refine Reads.expect fun name hn hi => Reads.expect fun equals _ hq => ?_
  refine Reads.bind ((he hn).le (by omega)) (fun value _ => ?_) (Nat.zero_le _)
  refine Reads.expect fun close _ hc => Reads.pure fun rest vs hvs => ?_
  simpa using Derives.constant hk hi hq hvs hc

/-- A variable may do without. -/
theorem varRule_reads (hk : keyword.isKeyword .varKw = true)
    (he : 0 < n → ReadsAs (n - 1) expression (.expression .comma)) :
    Reads n 0 (varRule expression) fun ts s _ => Derives (.varDecl s) (keyword :: ts) := by
  unfold varRule
  refine Reads.expect fun name hn hi => Reads.takes (fun equals _ hq => ?_) ?_
  · simp only [if_true, map_eq_pure_bind, bind_assoc, pure_bind]
    refine Reads.bind ((he hn).le (by omega)) (fun value _ => ?_) (Nat.zero_le _)
    refine Reads.expect fun close _ hc => Reads.pure fun rest vs hvs => ?_
    simpa using Derives.varDeclValue hk hi hq hvs hc
  · simp only [Bool.false_eq_true, if_false, pure_bind]
    exact Reads.expect fun close _ hc => Reads.pure fun rest _ => .varDecl hk hi hc

/-- An expression and its semicolon. -/
theorem expressionRule_reads (he : ReadsAs n expression (.expression .comma)) :
    ReadsAs n (expressionRule expression) .expressionStatement := by
  unfold expressionRule
  refine Reads.bind he (fun value _ => ?_) (Nat.le_refl _)
  refine Reads.expect fun close _ hc => Reads.pure fun rest vs hvs => ?_
  simpa using Derives.expressionStatement hvs hc

/-- A clause, unless the token behind it comes next. -/
theorem optionalUntil_reads {mark : Mark} (he : ReadsAs n expression (.expression .comma)) :
    Reads n 0 (optionalUntil mark expression) fun ts e _ => Derives (.optional e) ts := by
  unfold optionalUntil
  refine Reads.sees ?_ ?_
  · simp only [if_true]
    exact Reads.pure fun rest _ => .absent
  · simp only [Bool.false_eq_true, if_false]
    exact Reads.map (he.mono (Nat.le_refl _) (Nat.zero_le _) fun _ _ _ h => .present h)

/-- The start of a `for` is read with its semicolon. -/
theorem forStart_reads (he : ReadsAs n expression (.expression .comma)) :
    ReadsAs n (forStart expression) .forStart := by
  unfold forStart
  refine Reads.takes (fun close _ hc => ?_) ?_
  · simp only [if_true]
    exact Reads.pure fun rest => .startNothing hc
  simp only [Bool.false_eq_true, if_false]
  refine Reads.takes (fun keyword hn hk => ?_) ?_
  · simp only [if_true]
    refine Reads.map ((varRule_reads hk fun _ => he.le (by omega)).mono (Nat.le_refl _)
      (Nat.zero_le _) fun _ _ _ h _ => .startVar h)
  · simp only [Bool.false_eq_true, if_false]
    exact Reads.map ((expressionRule_reads he).mono (Nat.le_refl _) (Nat.le_refl _)
      fun _ _ _ h _ _ => .startExpression h)

/-- What is read is a statement. If it is open, no `else` follows. -/
def IsStatement (ts : List Token) (s : Stmt) (rest : List Token) : Prop :=
  ∃ isOpen, Derives (.statement isOpen s) ts ∧
    (isOpen = true → rest.head?.any (Token.isKeyword .elseKw) = false)

/-- A statement that takes no `else`. -/
theorem IsStatement.closed {ts : List Token} {s : Stmt} {rest : List Token}
    (h : Derives (.statement false s) ts) : IsStatement ts s rest :=
  ⟨false, h, fun hopen => absurd hopen Bool.false_ne_true⟩

variable {statement : Parser Stmt}

/-- The tree of a `for` is the loop that stands for it; the `for` is open if its body is. -/
theorem forRule_reads (hk : keyword.isKeyword .forKw = true)
    (he : ReadsAs n expression (.expression .comma)) (hs : Reads n 1 statement IsStatement) :
    Reads n 0 (forRule expression statement) fun ts s rest =>
      IsStatement (keyword :: ts) s rest := by
  unfold forRule
  refine Reads.expect fun open' _ ho => ?_
  refine Reads.bind ((forStart_reads he).le (by omega)) (fun start _ => ?_)
    (Nat.zero_le _)
  refine Reads.bind (optionalUntil_reads (he.le (by omega))) (fun condition _ => ?_)
    (Nat.zero_le _)
  refine Reads.expect fun end' _ hend => ?_
  refine Reads.bind (optionalUntil_reads (he.le (by omega))) (fun increment _ => ?_)
    (Nat.zero_le _)
  refine Reads.expect fun close _ hc => ?_
  refine Reads.bind (hs.le (by omega)) (fun body _ => ?_) (Nat.zero_le _)
  refine Reads.pure fun rest bs ⟨isOpen, hbs, helse⟩ is his cs hcs ss hss => ?_
  exact ⟨isOpen, by simpa using Derives.forLoop hk ho hss hcs hend his hc hbs, helse⟩

/-- An `if` with no `else` behind its branch is open: that none follows is known from looking. -/
theorem ifRule_reads (hk : keyword.isKeyword .ifKw = true)
    (he : ReadsAs n expression (.expression .comma)) (hs : Reads n 1 statement IsStatement) :
    Reads n 0 (ifRule expression statement) fun ts s rest =>
      IsStatement (keyword :: ts) s rest := by
  unfold ifRule
  refine Reads.expect fun open' _ ho => ?_
  refine Reads.bind (he.le (by omega)) (fun condition _ => ?_) (Nat.zero_le _)
  refine Reads.expect fun close _ hc => ?_
  refine Reads.bind (hs.le (by omega)) (fun whenTrue _ => ?_) (Nat.zero_le _)
  refine Reads.takes (fun otherwise _ helse => ?_) ?_
  · simp only [if_true, map_eq_pure_bind, bind_assoc, pure_bind]
    refine Reads.bind (hs.le (by omega)) (fun whenFalse _ => ?_) (Nat.zero_le _)
    refine Reads.pure fun rest fs ⟨isOpen, hfs, hnext⟩ ts ⟨isOpen', hts, hno⟩ cs hcs => ?_
    -- had the branch been open, it would have taken the `else`
    have hclosed : isOpen' = false := by
      cases isOpen' with
      | false => rfl
      | true =>
        have hno : otherwise.isKeyword .elseKw = false := by simpa using hno rfl
        exact absurd (helse.symm.trans hno) Bool.noConfusion
    subst hclosed
    exact ⟨isOpen, by simpa using Derives.ifThenElse hk ho hcs hc hts helse hfs, hnext⟩
  · simp only [Bool.false_eq_true, if_false, pure_bind]
    refine Reads.pure fun rest hnone ts ⟨isOpen, hts, _⟩ cs hcs => ?_
    exact ⟨true, by simpa using Derives.ifThen hk ho hcs hc hts, fun _ => hnone⟩

/-- A `while` is open if its body is. -/
theorem whileRule_reads (hk : keyword.isKeyword .whileKw = true)
    (he : ReadsAs n expression (.expression .comma)) (hs : Reads n 1 statement IsStatement) :
    Reads n 0 (whileRule expression statement) fun ts s rest =>
      IsStatement (keyword :: ts) s rest := by
  unfold whileRule
  refine Reads.expect fun open' _ ho => ?_
  refine Reads.bind (he.le (by omega)) (fun condition _ => ?_) (Nat.zero_le _)
  refine Reads.expect fun close _ hc => ?_
  refine Reads.bind (hs.le (by omega)) (fun body _ => ?_) (Nat.zero_le _)
  refine Reads.pure fun rest bs ⟨isOpen, hbs, helse⟩ cs hcs => ?_
  exact ⟨isOpen, by simpa using Derives.whileLoop hk ho hcs hc hbs, helse⟩

/-- A `continue` and its semicolon. -/
theorem continueRule_reads (hk : keyword.isKeyword .continueKw = true) :
    Reads n 0 (continueRule keyword) fun ts s rest => IsStatement (keyword :: ts) s rest := by
  unfold continueRule
  exact Reads.expect fun end' _ he => Reads.pure fun rest => .closed (.continueLoop hk he)

/-- A `break` and its semicolon. -/
theorem breakRule_reads (hk : keyword.isKeyword .breakKw = true) :
    Reads n 0 (breakRule keyword) fun ts s rest => IsStatement (keyword :: ts) s rest := by
  unfold breakRule
  exact Reads.expect fun end' _ he => Reads.pure fun rest => .closed (.breakLoop hk he)

/-- An `input`, a name and a semicolon. -/
theorem inputRule_reads (hk : keyword.isKeyword .inputKw = true) :
    Reads n 0 (inputRule keyword) fun ts s rest => IsStatement (keyword :: ts) s rest := by
  unfold inputRule
  refine Reads.expect fun name _ hn => Reads.expect fun end' _ he => ?_
  exact Reads.freshSite fun site => Reads.pure fun rest => .closed (.input hk hn he)

/-- A `print`, its value and a semicolon. -/
theorem printRule_reads (hk : keyword.isKeyword .printKw = true)
    (he : ReadsAs n expression (.expression .comma)) :
    Reads n 0 (printRule expression keyword) fun ts s rest =>
      IsStatement (keyword :: ts) s rest := by
  unfold printRule
  refine Reads.bind he (fun value _ => ?_) (Nat.zero_le _)
  refine Reads.expect fun end' _ hend => Reads.pure fun rest vs hvs => .closed ?_
  simpa using Derives.print hk hvs hend

/-- A `return`, its value if it has one, and a semicolon. -/
theorem returnRule_reads (hk : keyword.isKeyword .returnKw = true)
    (he : ReadsAs n expression (.expression .comma)) :
    Reads n 0 (returnRule expression keyword) fun ts s rest =>
      IsStatement (keyword :: ts) s rest := by
  unfold returnRule
  refine Reads.bind (optionalUntil_reads he) (fun value _ => ?_) (Nat.zero_le _)
  refine Reads.expect fun end' _ hend => Reads.pure fun rest vs hvs => .closed ?_
  simpa using Derives.returnValue hk hvs hend

/-- Every kind of statement is told by its first token. -/
theorem statementRule_reads {declarations : Parser (List Stmt)}
    (he : ReadsAs n expression (.expression .comma))
    (hs : 0 < n → Reads (n - 1) 1 statement IsStatement)
    (hd : 0 < n → Reads (n - 1) 0 declarations fun ts ss _ => Derives (.declarations ss) ts) :
    Reads n 1 (statementRule expression statement declarations) IsStatement := by
  unfold statementRule
  refine Reads.take? (fun t hn ht => ?_) ?_
  · have he' : ReadsAs (n - 1) expression (.expression .comma) := he.le (by omega)
    dsimp only
    split
    next h => exact continueRule_reads (Token.isKeyword_iff.mpr h)
    next h => exact breakRule_reads (Token.isKeyword_iff.mpr h)
    next h => exact forRule_reads (Token.isKeyword_iff.mpr h) he' (hs hn)
    next h => exact ifRule_reads (Token.isKeyword_iff.mpr h) he' (hs hn)
    next h => exact inputRule_reads (Token.isKeyword_iff.mpr h)
    next h => exact printRule_reads (Token.isKeyword_iff.mpr h) he'
    next h => exact returnRule_reads (Token.isKeyword_iff.mpr h) he'
    next h => exact whileRule_reads (Token.isKeyword_iff.mpr h) he' (hs hn)
    next h => exact Reads.pure fun rest => .closed (.empty (Token.isMark_iff.mpr h))
    next =>
      have hb : t.isMark .leftBrace = true := by
        unfold opensStatement at ht
        split at ht <;> simp_all [Token.isMark_iff]
      exact Reads.map ((blockRule_reads hb (hd hn)).mono (Nat.le_refl _) (Nat.le_refl _)
        fun ts body rest h => .closed (.blockStatement h))
  · exact (expressionRule_reads he).mono (Nat.le_refl _) (Nat.le_refl _)
      fun ts s rest h _ => .closed (.plain h)

/-- A `fun` begins a declaration only if a name follows it; otherwise it begins an expression. -/
theorem declarationRule_reads {fuel : Nat} {declarations : Parser (List Stmt)}
    {members : Parser Members} (hf : n ≤ fuel) (he : ReadsAs n expression (.expression .comma))
    (hs : Reads n 1 statement IsStatement)
    (hd : 0 < n → Reads (n - 1) 0 declarations fun ts ss _ => Derives (.declarations ss) ts)
    (hm : 0 < n → Reads (n - 1) 0 members fun ts ms _ => Derives (.members ms) ts) :
    ReadsAs n (declarationRule fuel expression statement declarations members) .declaration := by
  have he' : ReadsAs (n - 1) expression (.expression .comma) := he.le (by omega)
  have hs' : ReadsAs n statement .declaration :=
    hs.mono (Nat.le_refl _) (Nat.le_refl _) fun _ _ _ ⟨_, h, _⟩ => .statement h
  -- what remains when neither a class nor a function literal comes next
  have named : ReadsAs n
      (do if ← Parser.takes (Token.isKeyword .funKw) then
            Stmt.functionDecl <$> functionRule fuel declarations .function
          else if ← Parser.takes (Token.isKeyword .valKw) then constantRule expression
          else if ← Parser.takes (Token.isKeyword .varKw) then varRule expression
          else statement) .declaration := by
    refine Reads.takes (fun keyword hn hk => ?_) ?_
    · simp only [if_true]
      refine Reads.map ((functionRule_reads (by omega) fun _ => (hd hn).le (by omega)).mono
        (Nat.le_refl _) (Nat.zero_le _) fun ts d rest h => .functionDecl hk h)
    simp only [Bool.false_eq_true, if_false]
    refine Reads.takes (fun keyword hn hk => ?_) ?_
    · simp only [if_true]
      exact (constantRule_reads hk fun _ => he'.le (by omega)).mono (Nat.le_refl _)
        (Nat.le_refl _) fun ts s rest h _ => h
    simp only [Bool.false_eq_true, if_false]
    refine Reads.takes (fun keyword hn hk => ?_) ?_
    · simp only [if_true]
      exact (varRule_reads hk fun _ => he'.le (by omega)).mono (Nat.le_refl _)
        (Nat.le_refl _) fun ts s rest h _ _ => .var h
    simp only [Bool.false_eq_true, if_false]
    exact hs'.mono (Nat.le_refl _) (Nat.le_refl _) fun ts s rest h _ _ _ => h
  unfold declarationRule
  refine Reads.takes (fun keyword hn hk => ?_) ?_
  · simp only [if_true]
    exact classRule_reads hk fun _ => (hm hn).le (by omega)
  simp only [Bool.false_eq_true, if_false]
  refine Reads.mono (D := fun ts s _ => Derives (.declaration s) ts) ?_ (Nat.le_refl _)
    (Nat.le_refl _) fun ts s rest h _ => h
  refine Reads.sees (Reads.seesSecond fun second => ?_) (Reads.seesSecond fun second => named)
  cases second with
  | true => exact hs'.mono (Nat.le_refl _) (Nat.le_refl _) fun ts s rest h _ => h
  | false => exact named.mono (Nat.le_refl _) (Nat.le_refl _) fun ts s rest h _ => h

end Statements

/-! ## The rules tied together -/

/-- The fuel that a rule for expressions of the rank asks for on top of `callsPerToken` for each
unread token: one unit for every rule entered on the way to the first token. -/
def rankCost : Rank → Nat
  | .comma => 19
  | .assignment => 17
  | .conditional => 16
  | .or => 15
  | .and => 13
  | .equality => 11
  | .comparison => 9
  | .term => 7
  | .factor => 5
  | .unary => 3
  | .call => 2
  | .primary => 1

/-- The fuel that the rule for an operand of a level asks for. -/
def operandCost (level : Level) : Nat :=
  rankCost level.operandRank + 1

/-- The fuel covers a rule that asks for `cost` where `n` tokens are unread. -/
def Covers (fuel n cost : Nat) : Prop :=
  callsPerToken * n + cost ≤ fuel

/-- No rule that costs something is covered by no fuel. -/
theorem not_covers_zero {n cost : Nat} : ¬ Covers 0 n (cost + 1) :=
  fun h => absurd (Nat.le_zero.mp h) (by simp)

/-- A rule that calls a cheaper one where it stands leaves it enough. -/
theorem Covers.next {fuel n cost cost' : Nat} (h : Covers (fuel + 1) n cost)
    (hc : cost' < cost) : Covers fuel n cost' := by
  unfold Covers at *
  omega

/-- A rule that has read a token leaves enough for any other. -/
theorem Covers.after {fuel n m cost cost' : Nat} (h : Covers (fuel + 1) n cost) (hm : m < n)
    (hc : cost' < callsPerToken) : Covers fuel m cost' := by
  unfold Covers callsPerToken at *
  omega

/-- Fuel that covers a rule covers as many steps as tokens are unread. -/
theorem Covers.le {fuel n cost : Nat} (h : Covers (fuel + 1) n cost) (hc : 0 < cost) :
    n ≤ fuel := by
  unfold Covers callsPerToken at h
  omega

/-- The operands of a level cost less than the level. -/
theorem operandCost_lt (level : Level) : operandCost level < rankCost level.rank := by
  cases level <;> decide

/-- One token pays for any operand. -/
theorem operandCost_lt_callsPerToken (level : Level) : operandCost level < callsPerToken := by
  cases level <;> decide

/-- With this fuel every rule does what it is for wherever the fuel covers it. -/
structure Sound (fuel : Nat) : Prop where
  binary {n : Nat} (level : Level) : Covers fuel n (rankCost level.rank) →
    ReadsAs n (binary fuel level) (.expression level.rank)
  binaryRest {n : Nat} {level : Level} {left : Expr} : Covers fuel n 1 →
    Reads n 0 (binaryRest fuel level left) fun ts e _ =>
      ∀ ls, Derives (.expression level.rank left) ls → Derives (.expression level.rank e) (ls ++ ts)
  operand {n : Nat} {level : Level} : Covers fuel n (operandCost level) →
    ReadsAs n (operand fuel level) (.expression level.operandRank)
  assignment {n : Nat} : Covers fuel n (rankCost .assignment) →
    ReadsAs n (assignment fuel) (.expression .assignment)
  conditional {n : Nat} : Covers fuel n (rankCost .conditional) →
    ReadsAs n (conditional fuel) (.expression .conditional)
  unary {n : Nat} : Covers fuel n (rankCost .unary) →
    ReadsAs n (unary fuel) (.expression .unary)
  call {n : Nat} : Covers fuel n (rankCost .call) → ReadsAs n (call fuel) (.expression .call)
  callRest {n : Nat} {callee : Expr} : Covers fuel n 1 →
    Reads n 0 (callRest fuel callee) fun ts e _ =>
      ∀ cs, Derives (.expression .call callee) cs → Derives (.expression .call e) (cs ++ ts)
  arguments {n count : Nat} : Covers fuel n 18 →
    Reads n 1 (arguments fuel count) fun ts es _ =>
      Derives (.argumentRow es) ts ∧ count + es.length ≤ maxArity
  primary {n : Nat} : Covers fuel n (rankCost .primary) →
    ReadsAs n (primary fuel) (.expression .primary)
  declarations {n : Nat} (inBlock : Bool) : Covers fuel n 22 →
    Reads n 0 (declarations fuel inBlock) fun ts ss rest =>
      Derives (.declarations ss) ts ∧ (inBlock = false → rest = [])
  declaration {n : Nat} : Covers fuel n 21 → ReadsAs n (declaration fuel) .declaration
  statement {n : Nat} : Covers fuel n 20 → Reads n 1 (statement fuel) IsStatement
  members {n : Nat} : Covers fuel n 1 →
    Reads n 0 (members fuel) fun ts ms _ => Derives (.members ms) ts

/-- Without fuel there is nothing to show, since none is enough for any rule. -/
theorem sound_zero : Sound 0 where
  binary level h := by cases level <;> exact absurd h not_covers_zero
  binaryRest h := absurd h not_covers_zero
  operand h := absurd h not_covers_zero
  assignment h := absurd h not_covers_zero
  conditional h := absurd h not_covers_zero
  unary h := absurd h not_covers_zero
  call h := absurd h not_covers_zero
  callRest h := absurd h not_covers_zero
  arguments h := absurd h not_covers_zero
  primary h := absurd h not_covers_zero
  declarations _ h := absurd h not_covers_zero
  declaration h := absurd h not_covers_zero
  statement h := absurd h not_covers_zero
  members h := absurd h not_covers_zero

section Step

variable {fuel n : Nat} (sound : Sound fuel)

include sound

/-- The declarations in a block are read as a derivation says. -/
theorem Sound.block (h : Covers fuel n 22) :
    Reads n 0 (Grammar.declarations fuel true) fun ts ss _ => Derives (.declarations ss) ts :=
  (sound.declarations true h).mono (Nat.le_refl _) (Nat.le_refl _) fun _ _ _ h => h.1

/-- An operand, and then what the operators of the level join to it. -/
theorem Sound.binary_step (level : Level) (h : Covers (fuel + 1) n (rankCost level.rank)) :
    ReadsAs n (Grammar.binary (fuel + 1) level) (.expression level.rank) := by
  refine Reads.bind (sound.operand (h.next (operandCost_lt level))) (fun left hn => ?_)
    (Nat.le_refl _)
  refine (sound.binaryRest (h.after (by omega) (by decide))).mono (Nat.le_refl _) (Nat.le_refl _)
    fun ts e rest hrest ls hl => ?_
  exact hrest ls (.tighter level.next?_rank hl)

/-- What was read so far is the left operand of what comes. -/
theorem Sound.binaryRest_step {level : Level} {left : Expr} (h : Covers (fuel + 1) n 1) :
    Reads n 0 (Grammar.binaryRest (fuel + 1) level left) fun ts e _ =>
      ∀ ls, Derives (.expression level.rank left) ls →
        Derives (.expression level.rank e) (ls ++ ts) := by
  refine Reads.take? (fun operator hn ho => ?_) ?_
  · have hoperand := h.after (m := n - 1) (by omega) (operandCost_lt_callsPerToken level)
    refine Reads.bind (sound.operand hoperand) (fun right hk => ?_) (Nat.zero_le _)
    refine (sound.binaryRest (h.after (by omega) (by decide))).mono (Nat.le_refl _)
      (Nat.le_refl _) fun ts e rest hrest rs hr ls hl => ?_
    simpa using hrest _ (.joined hl ho hr)
  · exact Reads.pure fun rest _ ls hl => by simpa using hl

/-- The operands of a level are of its next rank. -/
theorem Sound.operand_step {level : Level} (h : Covers (fuel + 1) n (operandCost level)) :
    ReadsAs n (Grammar.operand (fuel + 1) level) (.expression level.operandRank) := by
  have hnext := h.next (Nat.lt_succ_self _)
  cases level with
  | comma => exact sound.assignment hnext
  | or => exact sound.binary .and hnext
  | and => exact sound.binary .equality hnext
  | equality => exact sound.binary .comparison hnext
  | comparison => exact sound.binary .term hnext
  | term => exact sound.binary .factor hnext
  | factor => exact sound.unary hnext

/-- What is read by its first token, and then calls and properties behind it. -/
theorem Sound.call_step (h : Covers (fuel + 1) n (rankCost .call)) :
    ReadsAs n (Grammar.call (fuel + 1)) (.expression .call) := by
  refine Reads.bind (sound.primary (h.next (by decide))) (fun callee hn => ?_)
    (Nat.le_refl _)
  refine (sound.callRest (h.after (by omega) (by decide))).mono (Nat.le_refl _) (Nat.le_refl _)
    fun ts e rest hrest cs hc => ?_
  exact hrest cs (.tighter rfl hc)

/-- What was read so far is the callee or the object of what comes. -/
theorem Sound.callRest_step {callee : Expr} (h : Covers (fuel + 1) n 1) :
    Reads n 0 (Grammar.callRest (fuel + 1) callee) fun ts e _ =>
      ∀ cs, Derives (.expression .call callee) cs → Derives (.expression .call e) (cs ++ ts) := by
  refine Reads.takes (fun open' hn ho => ?_) ?_
  · simp only [if_true]
    have arguments : ReadsAs (n - 1) (Grammar.arguments fuel 0) fun es => .arguments es :=
      (sound.arguments (h.after (by omega) (by decide))).mono (Nat.le_refl _) (Nat.le_refl _)
        fun ts es rest ⟨hts, hl⟩ => .someArguments hts (by omega)
    refine Reads.bind (argumentsRule_reads arguments) (fun result _ => ?_) (Nat.zero_le _)
    refine (sound.callRest (h.after (by omega) (by decide))).mono (Nat.le_refl _) (Nat.le_refl _)
      fun ts e rest hrest us ⟨as, hus, ha, hp⟩ cs hc => ?_
    subst hus
    simpa using hrest _ (.call hc ho ha hp)
  simp only [Bool.false_eq_true, if_false]
  refine Reads.takes (fun dot hn hd => ?_) ?_
  · simp only [if_true]
    refine Reads.expect fun name hn' hi => ?_
    refine (sound.callRest (h.after (by omega) (by decide))).mono (Nat.le_refl _) (Nat.zero_le _)
      fun ts e rest hrest _ cs hc => ?_
    simpa using hrest _ (.get hc hd hi)
  · simp only [Bool.false_eq_true, if_false]
    exact Reads.pure fun rest _ _ cs hc => by simpa using hc

/-- Arguments in a row, at most as many as allowed with those before. -/
theorem Sound.arguments_step {count : Nat} (h : Covers (fuel + 1) n 18) :
    Reads n 1 (Grammar.arguments (fuel + 1) count) fun ts es _ =>
      Derives (.argumentRow es) ts ∧ count + es.length ≤ maxArity := by
  -- an argument and, behind a comma, the arguments after it
  have row : Reads n 1
      (do let value ← Grammar.assignment fuel
          if ← Parser.takes (Token.isMark .comma) then
            return value :: (← Grammar.arguments fuel (count + 1))
          else return [value])
      fun ts es _ => count < maxArity →
        Derives (.argumentRow es) ts ∧ count + es.length ≤ maxArity := by
    refine Reads.bind (sound.assignment (h.next (by decide))) (fun value _ => ?_)
      (Nat.le_refl _)
    refine Reads.takes (fun comma hn hc => ?_) ?_
    · simp only [if_true]
      refine Reads.bind (sound.arguments (h.after (by omega) (by decide)))
        (fun es _ => ?_) (Nat.zero_le _)
      refine Reads.pure fun rest ts ⟨hts, hl⟩ us hus hcount => ?_
      refine ⟨by simpa using Derives.nextArgument hus hc hts, ?_⟩
      rw [List.length_cons]
      omega
    · simp only [Bool.false_eq_true, if_false]
      refine Reads.pure fun rest _ us hus hcount => ⟨?_, hcount⟩
      simpa using Derives.lastArgument hus
  unfold Grammar.arguments
  by_cases hcount : maxArity ≤ count
  · simp only [hcount, if_true]
    exact Reads.peek fun t => Reads.report
      (row.mono (Nat.le_refl _) (Nat.le_refl _) fun _ _ _ _ => trivial)
  · simp only [hcount, if_false]
    exact row.mono (Nat.le_refl _) (Nat.le_refl _) fun ts es rest h => h (by omega)

/-- The first token tells which expression it is. -/
theorem Sound.primary_step (h : Covers (fuel + 1) n (rankCost .primary)) :
    ReadsAs n (Grammar.primary (fuel + 1)) (.expression .primary) := by
  refine Reads.take? (fun t hn ht => ?_) ?_
  · dsimp only
    split
    next hk =>
      exact Reads.freshSite fun site => Reads.pure fun rest =>
        .receiver (Token.isKeyword_iff.mpr hk)
    next hk => exact inheritedRule_reads (Token.isKeyword_iff.mpr hk)
    next hk =>
      exact functionLiteralRule_reads (Token.isKeyword_iff.mpr hk)
        (by have := h.le (by decide); omega) (sound.block (h.after (by omega) (by decide)))
    next hk =>
      exact Reads.freshSite fun site => Reads.pure fun rest =>
        .name (Token.isIdentifier_iff.mpr hk)
    next hk =>
      exact groupRule_reads (Token.isMark_iff.mpr hk)
        (sound.binary .comma (h.after (by omega) (by decide)))
    next =>
      split
      next value hvalue => exact Reads.pure fun rest => .literal hvalue
      next => exact Reads.refuse
  · exact Reads.peek fun t => Reads.refuse

/-- Declarations in a block go up to a brace, those of a program to the end. -/
theorem Sound.declarations_step (inBlock : Bool) (h : Covers (fuel + 1) n 22) :
    Reads n 0 (Grammar.declarations (fuel + 1) inBlock) fun ts ss rest =>
      Derives (.declarations ss) ts ∧ (inBlock = false → rest = []) := by
  intro c hc
  show Done c 0 _ ((if c.unread.isEmpty || (inBlock && c.sees (Token.isMark .rightBrace)) then
    pure [] else _ : Parser (List Stmt)) c)
  split
  next hend =>
    refine ⟨[], [], .refl, Nat.le_refl _, fun _ => ⟨.noDeclarations, fun hb => ?_⟩⟩
    rw [hb, Bool.false_and, Bool.or_false] at hend
    exact List.isEmpty_iff.mp hend
  next hmore =>
    have hne : c.unread ≠ [] := fun hempty => hmore (by rw [hempty]; rfl)
    have hpos := List.length_pos_iff.mpr hne
    have hfirst := Reads.recovering (sound.declaration (h.next (by decide))) hc hne
    refine hfirst.bind (fun first c₁ hsize => ?_) (Nat.zero_le _)
    have hrest := sound.declarations inBlock
      (h.after (m := c₁.unread.length) (by omega) (by decide))
    refine Reads.bind hrest (fun ss _ => ?_) (Nat.le_refl _) c₁ (Nat.le_refl _)
    refine Reads.pure fun rest us ⟨hus, hstop⟩ ts ⟨s, hs, hts⟩ => ?_
    subst hs
    exact ⟨by simpa using Derives.nextDeclaration hts hus, hstop⟩

/-- Members go up to a brace. -/
theorem Sound.members_step (h : Covers (fuel + 1) n 1) :
    Reads n 0 (Grammar.members (fuel + 1)) fun ts ms _ => Derives (.members ms) ts := by
  have hmember := memberRule_reads (h.le (by decide))
    (fun hn => sound.block (h.after (m := n - 1) (by omega) (by decide)))
    (fun hn => sound.members (h.after (m := n - 1) (by omega) (by decide)))
  intro c hc
  show Done c 0 _ ((if c.unread.isEmpty || c.sees (Token.isMark .rightBrace) then
    pure .none else _ : Parser Members) c)
  split
  next => exact ⟨[], [], .refl, Nat.le_refl _, fun _ => .noMembers⟩
  next => exact (hmember.mono (Nat.le_refl _) (Nat.zero_le _) fun _ _ _ h => h) c hc

/-- All rules are sound with one more unit of fuel. -/
theorem Sound.step : Sound (fuel + 1) where
  binary := sound.binary_step
  binaryRest := sound.binaryRest_step
  operand := sound.operand_step
  assignment h := assignmentRule_reads (sound.conditional (h.next (by decide)))
    fun _ => sound.assignment (h.after (by omega) (by decide))
  conditional h := conditionalRule_reads (sound.binary .or (h.next (by decide)))
    (fun _ => sound.binary .comma (h.after (by omega) (by decide)))
    fun _ => sound.conditional (h.after (by omega) (by decide))
  unary h := unaryRule_reads (fun _ => sound.unary (h.after (by omega) (by decide)))
    (sound.call (h.next (by decide)))
  call := sound.call_step
  callRest := sound.callRest_step
  arguments := sound.arguments_step
  primary := sound.primary_step
  declarations := sound.declarations_step
  declaration h := declarationRule_reads (h.le (by decide))
    (sound.binary .comma (h.next (by decide))) (sound.statement (h.next (by decide)))
    (fun _ => sound.block (h.after (by omega) (by decide)))
    fun _ => sound.members (h.after (by omega) (by decide))
  statement h := statementRule_reads (sound.binary .comma (h.next (by decide)))
    (fun _ => sound.statement (h.after (by omega) (by decide)))
    fun _ => sound.block (h.after (by omega) (by decide))
  members := sound.members_step

end Step

theorem sound (fuel : Nat) : Sound fuel := by
  induction fuel with
  | zero => exact sound_zero
  | succ fuel ih => exact ih.step

/-! ## Programs and expressions -/

/-- A parse starts with enough fuel for any of its rules. -/
theorem covers_fuelFor (n cost : Nat) (hc : cost ≤ callsPerToken) :
    Covers (fuelFor n) n cost := by
  unfold Covers fuelFor
  rw [Nat.mul_succ]
  omega

/-- An expression that is given has taken all tokens. -/
theorem wholeExpression_reads (n : Nat) :
    Reads n 0 (wholeExpression (fuelFor n)) fun ts result rest =>
      ∀ e, result = some e → rest = [] ∧ Derives (.expression .comma e) ts := by
  have hcover := covers_fuelFor n (rankCost Level.comma.rank) (by decide)
  unfold wholeExpression
  refine Reads.bind ((sound _).binary .comma hcover) (fun value _ => ?_)
    (Nat.zero_le _)
  intro c hc
  show Done c 0 _ ((if c.unread.isEmpty then pure (some value) else _ : Parser (Option Expr)) c)
  split
  next hend =>
    have hempty := List.isEmpty_iff.mp hend
    refine ⟨[], [], .refl, Nat.le_refl _, fun _ us hus e he => ⟨hempty, ?_⟩⟩
    cases he
    rw [List.append_nil]
    exact hus
  next =>
    refine Reads.peek (n := c.unread.length) (fun t => ?_) c (Nat.le_refl _)
    exact Reads.report (Reads.pure fun _ => trivial)

/-- The tokens before the first end, the only ones that parsing sees. -/
def beforeEnd (tokens : List Token) : List Token :=
  tokens.takeWhile fun t => !t.isEnd

/-- A run that reports nothing gives a tree, and what the rule promises of it holds. -/
theorem run_sound {α : Type} {rule : Nat → Parser α} {D : List Token → α → List Token → Prop}
    (hrule : ∀ n, Reads n 0 (rule (fuelFor n)) D) {tokens : List Token} {nextSite : Site}
    (herrors : (Parser.run rule tokens nextSite).errors = []) :
    ∃ a ts rest, (Parser.run rule tokens nextSite).tree = some a ∧
      beforeEnd tokens = ts ++ rest ∧ D ts a rest := by
  have hdone := hrule _ (Cursor.start tokens nextSite) (Nat.le_refl _)
  unfold Parser.run at herrors ⊢
  dsimp only at herrors ⊢
  generalize rule _ (Cursor.start tokens nextSite) = result at hdone herrors ⊢
  cases result with
  | ok a c =>
    obtain ⟨ts, es, hmove, -, himp⟩ := hdone
    refine ⟨a, ts, c.unread, rfl, hmove.unread, himp ?_⟩
    have hes := hmove.errors
    rw [show c.errors = [] from herrors] at hes
    exact (List.append_eq_nil_iff.mp hes.symm).2
  | error e c =>
    cases e with
    | problem e => exact absurd herrors (by simp)
    | outOfFuel => exact hdone.elim

variable {tokens : List Token} {nextSite : Site}

/-- Tokens that are parsed as a program without errors are one, and the tree is its tree. -/
theorem program_derives (herrors : (Program.parse tokens nextSite).errors = []) :
    Derives (.declarations (Program.parse tokens nextSite).tree) (beforeEnd tokens) := by
  have hrule (n : Nat) := (sound (fuelFor n)).declarations (n := n) false
    (covers_fuelFor n _ (by decide))
  obtain ⟨ss, ts, rest, htree, htokens, hss, hrest⟩ := run_sound hrule herrors
  rw [hrest rfl, List.append_nil] at htokens
  rw [htokens, show (Program.parse tokens nextSite).tree = ss from congrArg (·.getD []) htree]
  exact hss

/-- Tokens that are parsed as an expression without errors are one, and the tree is its tree. -/
theorem expression_derives {e : Expr} (he : (Expr.parse tokens nextSite).tree = some e)
    (herrors : (Expr.parse tokens nextSite).errors = []) :
    Derives (.expression .comma e) (beforeEnd tokens) := by
  obtain ⟨result, ts, rest, htree, htokens, hresult⟩ := run_sound wholeExpression_reads herrors
  have hjoin : (Expr.parse tokens nextSite).tree = result := congrArg Option.join htree
  obtain ⟨hrest, hderives⟩ := hresult e (hjoin.symm.trans he)
  rw [hrest, List.append_nil] at htokens
  rw [htokens]
  exact hderives

/-- If no errors are reported, the tokens before the end are a program of the grammar and the tree
is its tree; likewise for an expression that spans them. -/
theorem parse_sound (tokens : List Token) (nextSite : Site) :
    ((Program.parse tokens nextSite).errors = [] →
      Derives (.declarations (Program.parse tokens nextSite).tree) (beforeEnd tokens)) ∧
    (∀ e, (Expr.parse tokens nextSite).tree = some e →
      (Expr.parse tokens nextSite).errors = [] →
      Derives (.expression .comma e) (beforeEnd tokens)) :=
  ⟨program_derives, fun _ => expression_derives⟩

/-- The premises hold of programs and of expressions: an `else` behind two `if`s, and an
assignment to a property. -/
theorem parse_sound_dangling_else :
    let program := scanTokens "if (a) if (b) print c; else d(e, f);"
    let expression := scanTokens "a.b = c = d ? e : f"
    ((Program.parse program 0).errors = [] ∧
      Derives (.declarations (Program.parse program 0).tree) (beforeEnd program)) ∧
    ∃ e, (Expr.parse expression 0).tree = some e ∧ (Expr.parse expression 0).errors = [] ∧
      Derives (.expression .comma e) (beforeEnd expression) := by
  intro program expression
  have hprogram : (Program.parse program 0).errors = [] := by decide +kernel
  have hexpression : (Expr.parse expression 0).errors = [] := by decide +kernel
  have hsome : (Expr.parse expression 0).tree.isSome = true := by decide +kernel
  obtain ⟨e, he⟩ := Option.isSome_iff_exists.mp hsome
  exact ⟨⟨hprogram, (parse_sound program 0).1 hprogram⟩, e, he, hexpression,
    (parse_sound expression 0).2 e he hexpression⟩

end Lox.Grammar
