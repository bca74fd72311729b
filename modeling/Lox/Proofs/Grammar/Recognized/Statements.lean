import Lox.Proofs.Grammar.Recognized.Expressions

/-!
# Statements and declarations are recognized

One lemma for each way to derive a statement or a declaration: if its parts are recognized, so is
the whole.
-/

namespace Lox.Grammar

open Lox.Parser

/-! ## Statements -/

section Statements

attribute [local simp] Expr.unsitedOption Stmt.unsited Stmt.unsitedAll Stmt.unsitedOption

/-- An absent clause: the token behind it comes next. -/
theorem recognized_absent : Recognized (.optional none) [] := by
  intro mark fuel rest _ hrest _
  refine Reaches.sees ?_
  rw [List.nil_append, hrest]
  exact Reaches.pure rfl

/-- A clause that is there does not begin with the token behind it. -/
theorem recognized_present {e : Expr} {ts : List Token}
    (hd : Derives (.expression .comma e) ts) (he : Completes .comma e ts) :
    Recognized (.optional (some e)) ts := by
  intro mark fuel rest hmark hrest hcover
  have hstart := hd.startsExpression
  have hno : ts.head?.any (Token.isMark mark) = false := by
    refine hstart.head?_isMark ?_
    rcases hmark with rfl | rfl <;> decide
  have hstops : Stops .comma rest := by
    cases rest with
    | nil => intro t r ht; cases ht
    | cons t us =>
      refine stops_mark (m := mark) hrest fun r hr => ?_
      rcases hmark with rfl | rfl <;> cases hr
  refine Reaches.sees ?_
  rw [head?_any_append hstart.length_pos, hno]
  refine Reaches.map ((he hcover hstops).mono fun e' he' => ?_)
  rw [Expr.unsitedOption, Expr.unsitedOption, he']

/-- A variable without a value. -/
theorem recognized_varDecl {keyword name end' : Token} (hk : keyword.isKeyword .varKw = true)
    (hn : name.isIdentifier = true) (he : end'.isMark .semicolon = true) :
    Recognized (.varDecl (.var name none)) [keyword, name, end'] := by
  refine ⟨keyword, _, rfl, hk, fun fuel rest _ => ?_⟩
  have hno : end'.isMark .equal = false := by simp [Token.isMark, Token.isMark_iff.mp he]
  refine Reaches.expect hn (Reaches.takes_false hno ?_)
  simp only [Bool.false_eq_true, if_false, pure_bind]
  exact Reaches.expect he (Reaches.pure rfl)

/-- A variable with a value, which the semicolon ends. -/
theorem recognized_varDeclValue {keyword name equals end' : Token} {value : Expr}
    {vs : List Token} (hk : keyword.isKeyword .varKw = true) (hn : name.isIdentifier = true)
    (hq : equals.isMark .equal = true) (hv : Completes .comma value vs)
    (he : end'.isMark .semicolon = true) :
    Recognized (.varDecl (.var name (some value)))
      (keyword :: name :: equals :: (vs ++ [end'])) := by
  refine ⟨keyword, _, rfl, hk, fun fuel rest hcover => ?_⟩
  simp only [List.length_cons, List.length_append, List.length_nil] at hcover
  have hvalue := @hv fuel ([end'] ++ rest)
    (hcover.after (by simp only [List.length_append, List.length_cons, List.length_nil]; omega)
      (by decide))
    (stops_mark he fun r hr => by cases hr)
  refine Reaches.expect hn (Reaches.takes_true hq ?_)
  simp only [if_true, map_eq_pure_bind, bind_assoc, pure_bind]
  refine Reaches.bind hvalue fun value' hvalue' => Reaches.expect he (Reaches.pure ?_)
  rw [Stmt.unsited, Stmt.unsited, Expr.unsitedOption, Expr.unsitedOption, hvalue']

/-- An expression that its semicolon ends. -/
theorem recognized_expressionStatement {e : Expr} {ts : List Token} {end' : Token}
    (h : Completes .comma e ts) (he : end'.isMark .semicolon = true) :
    Recognized (.expressionStatement (.expression e)) (ts ++ [end']) := by
  intro fuel rest hcover
  simp only [List.length_cons, List.length_append, List.length_nil] at hcover
  have hvalue := @h fuel ([end'] ++ rest)
    (hcover.mono (by simp only [List.length_append, List.length_cons, List.length_nil]; omega)
      (Nat.le_refl _))
    (stops_mark he fun r hr => by cases hr)
  refine Reaches.bind hvalue fun value' hvalue' => Reaches.expect he (Reaches.pure ?_)
  rw [Stmt.unsited, Stmt.unsited, hvalue']

/-- A `for` that starts with its semicolon. -/
theorem recognized_startNothing {end' : Token} (he : end'.isMark .semicolon = true) :
    Recognized (.forStart none) [end'] :=
  fun _ _ _ => Reaches.takes_true he (Reaches.pure rfl)

/-- A `for` that starts with a variable. -/
theorem recognized_startVar {s : Stmt} {ts : List Token} (hs : Recognized (.varDecl s) ts) :
    Recognized (.forStart (some s)) ts := by
  obtain ⟨keyword, us, rfl, hk, hvar⟩ := hs
  intro fuel rest hcover
  have hno : keyword.isMark .semicolon = false := by
    simp [Token.isMark, Token.isKeyword_iff.mp hk]
  refine Reaches.takes_false hno (Reaches.takes_true hk ?_)
  refine Reaches.map ((hvar ?_).mono fun s' hs' => ?_)
  · unfold Covers at *
    omega
  · rw [Stmt.unsitedOption, Stmt.unsitedOption, hs']

/-- An expression begins neither with a semicolon nor with `var`. -/
theorem recognized_startExpression {s : Stmt} {ts : List Token}
    (hd : Derives (.expressionStatement s) ts) (hs : Recognized (.expressionStatement s) ts) :
    Recognized (.forStart (some s)) ts := by
  intro fuel rest hcover
  have hstart : StartsExpression ts := hd.starts
  refine Reaches.takes_false ?_ (Reaches.takes_false ?_ ?_)
  · rw [head?_any_append hstart.length_pos]
    exact hstart.head?_isMark (by decide)
  · rw [head?_any_append hstart.length_pos]
    exact hstart.head?_isKeyword rfl
  · refine Reaches.map ((hs hcover).mono fun s' hs' => ?_)
    rw [Stmt.unsitedOption, Stmt.unsitedOption, hs']

/-- An expression is none of the other statements: it begins with no keyword of theirs. -/
theorem recognized_plain {s : Stmt} {ts : List Token} (hd : Derives (.expressionStatement s) ts)
    (hs : Recognized (.expressionStatement s) ts) : Recognized (.statement false s) ts := by
  intro fuel rest hcover _
  obtain ⟨fuel, rfl⟩ := hcover.exists_succ (by decide)
  have hstart : StartsExpression ts := hd.starts
  refine Reaches.take?_none ?_ (hs (hcover.next (by decide)))
  rw [head?_any_append hstart.length_pos]
  exact hstart.head?_opensStatement

/-- A brace begins a block. -/
theorem recognized_blockStatement {body : List Stmt} {ts : List Token}
    (hb : Recognized (.block body) ts) : Recognized (.statement false (.block body)) ts := by
  obtain ⟨open', us, rfl, ho, hbody⟩ := hb
  intro fuel rest hcover _
  obtain ⟨fuel, rfl⟩ := hcover.exists_succ (by decide)
  rw [Token.isMark_iff] at ho
  refine Reaches.take?_some (by simp [opensStatement, ho]) ?_
  simp only [ho]
  refine Reaches.map ((hbody (hcover.mono (Nat.le_refl _) (by decide))).mono fun body' h => ?_)
  rw [Stmt.unsited, Stmt.unsited, h]

theorem recognized_continueLoop {keyword end' : Token} (hk : keyword.isKeyword .continueKw = true)
    (he : end'.isMark .semicolon = true) :
    Recognized (.statement false (.continueLoop keyword)) [keyword, end'] := by
  intro fuel rest hcover _
  obtain ⟨fuel, rfl⟩ := hcover.exists_succ (by decide)
  rw [Token.isKeyword_iff] at hk
  refine Reaches.take?_some (by simp [opensStatement, hk]) ?_
  simp only [hk]
  exact Reaches.expect he (Reaches.pure rfl)

theorem recognized_breakLoop {keyword end' : Token} (hk : keyword.isKeyword .breakKw = true)
    (he : end'.isMark .semicolon = true) :
    Recognized (.statement false (.breakLoop keyword)) [keyword, end'] := by
  intro fuel rest hcover _
  obtain ⟨fuel, rfl⟩ := hcover.exists_succ (by decide)
  rw [Token.isKeyword_iff] at hk
  refine Reaches.take?_some (by simp [opensStatement, hk]) ?_
  simp only [hk]
  exact Reaches.expect he (Reaches.pure rfl)

theorem recognized_empty {end' : Token} (he : end'.isMark .semicolon = true) :
    Recognized (.statement false .empty) [end'] := by
  intro fuel rest hcover _
  obtain ⟨fuel, rfl⟩ := hcover.exists_succ (by decide)
  rw [Token.isMark_iff] at he
  refine Reaches.take?_some (by simp [opensStatement, he]) ?_
  simp only [he]
  exact Reaches.pure rfl

/-- An `input` and its variable. -/
theorem recognized_input {keyword name end' : Token} {site : Site}
    (hk : keyword.isKeyword .inputKw = true) (hn : name.isIdentifier = true)
    (he : end'.isMark .semicolon = true) :
    Recognized (.statement false (.input keyword (.variable site name))) [keyword, name, end'] := by
  intro fuel rest hcover _
  obtain ⟨fuel, rfl⟩ := hcover.exists_succ (by decide)
  rw [Token.isKeyword_iff] at hk
  refine Reaches.take?_some (by simp [opensStatement, hk]) ?_
  simp only [hk]
  refine Reaches.expect hn (Reaches.expect he ?_)
  exact Reaches.freshSite fun site' => Reaches.pure rfl

/-- A `print` and its value. -/
theorem recognized_print {keyword end' : Token} {value : Expr} {vs : List Token}
    (hk : keyword.isKeyword .printKw = true) (hv : Completes .comma value vs)
    (he : end'.isMark .semicolon = true) :
    Recognized (.statement false (.print keyword value)) (keyword :: (vs ++ [end'])) := by
  intro fuel rest hcover _
  obtain ⟨fuel, rfl⟩ := hcover.exists_succ (by decide)
  rw [Token.isKeyword_iff] at hk
  simp only [List.length_cons, List.length_append, List.length_nil] at hcover
  have hvalue := @hv fuel ([end'] ++ rest)
    (hcover.after (by simp only [List.length_append, List.length_cons, List.length_nil]; omega)
      (by decide))
    (stops_mark he fun r hr => by cases hr)
  refine Reaches.take?_some (by simp [opensStatement, hk]) ?_
  simp only [hk]
  refine Reaches.bind hvalue fun value' hvalue' => Reaches.expect he (Reaches.pure ?_)
  rw [Stmt.unsited, Stmt.unsited, hvalue']

/-- A `return`, with a value if the semicolon does not come next. -/
theorem recognized_returnValue {keyword end' : Token} {value : Option Expr} {vs : List Token}
    (hk : keyword.isKeyword .returnKw = true) (hv : Recognized (.optional value) vs)
    (he : end'.isMark .semicolon = true) :
    Recognized (.statement false (.returnValue keyword value)) (keyword :: (vs ++ [end'])) := by
  intro fuel rest hcover _
  obtain ⟨fuel, rfl⟩ := hcover.exists_succ (by decide)
  rw [Token.isKeyword_iff] at hk
  simp only [List.length_cons, List.length_append, List.length_nil] at hcover
  have hvalue := @hv .semicolon fuel ([end'] ++ rest) (.inl rfl) he
    (hcover.after (by simp only [List.length_append, List.length_cons, List.length_nil]; omega)
      (by decide))
  refine Reaches.take?_some (by simp [opensStatement, hk]) ?_
  simp only [hk]
  refine Reaches.bind hvalue fun value' hvalue' => Reaches.expect he (Reaches.pure ?_)
  rw [Stmt.unsited, Stmt.unsited, hvalue']

/-- A `while` ends where its body does. -/
theorem recognized_whileLoop {keyword open' close : Token} {condition : Expr} {isOpen : Bool}
    {body : Stmt}
    {cs bs : List Token} (hk : keyword.isKeyword .whileKw = true)
    (ho : open'.isMark .leftParen = true) (hc : Completes .comma condition cs)
    (hp : close.isMark .rightParen = true) (hb : Recognized (.statement isOpen body) bs) :
    Recognized (.statement isOpen (.loop condition body none))
      (keyword :: open' :: (cs ++ close :: bs)) := by
  intro fuel rest hcover hopen
  obtain ⟨fuel, rfl⟩ := hcover.exists_succ (by decide)
  rw [Token.isKeyword_iff] at hk
  simp only [List.length_cons, List.length_append] at hcover
  have hcondition := @hc fuel ((close :: bs) ++ rest)
    (hcover.after (by simp only [List.length_append, List.length_cons]; omega) (by decide))
    (stops_mark hp fun r hr => by cases hr)
  have hbody := @hb fuel rest (hcover.after (by omega) (by decide)) hopen
  refine Reaches.take?_some (by simp [opensStatement, hk]) ?_
  simp only [hk]
  refine Reaches.expect ho ?_
  refine Reaches.bind hcondition fun condition' hcondition' => Reaches.expect hp ?_
  refine Reaches.last hbody fun body' hbody' => Reaches.pure ?_
  rw [Stmt.unsited, Stmt.unsited, hcondition', hbody']

/-- What follows an `if` without `else` is no `else`, so the rule does not look further. -/
theorem recognized_ifThen {keyword open' close : Token} {condition : Expr} {isOpen : Bool}
    {whenTrue : Stmt}
    {cs ts : List Token} (hk : keyword.isKeyword .ifKw = true)
    (ho : open'.isMark .leftParen = true) (hc : Completes .comma condition cs)
    (hp : close.isMark .rightParen = true) (ht : Recognized (.statement isOpen whenTrue) ts) :
    Recognized (.statement true (.conditional condition whenTrue none))
      (keyword :: open' :: (cs ++ close :: ts)) := by
  intro fuel rest hcover hopen
  obtain ⟨fuel, rfl⟩ := hcover.exists_succ (by decide)
  rw [Token.isKeyword_iff] at hk
  simp only [List.length_cons, List.length_append] at hcover
  have hno := hopen rfl
  have hcondition := @hc fuel ((close :: ts) ++ rest)
    (hcover.after (by simp only [List.length_append, List.length_cons]; omega) (by decide))
    (stops_mark hp fun r hr => by cases hr)
  have hwhenTrue := @ht fuel rest (hcover.after (by omega) (by decide)) fun _ => hno
  refine Reaches.take?_some (by simp [opensStatement, hk]) ?_
  simp only [hk]
  refine Reaches.expect ho ?_
  refine Reaches.bind hcondition fun condition' hcondition' => Reaches.expect hp ?_
  refine Reaches.last hwhenTrue fun whenTrue' hwhenTrue' => ?_
  refine Reaches.takes_false hno ?_
  simp only [Bool.false_eq_true, if_false, pure_bind]
  refine Reaches.pure ?_
  rw [Stmt.unsited, Stmt.unsited, hcondition', hwhenTrue']

/-- The branch before `else` is closed, so the `else` is not taken by it. -/
theorem recognized_ifThenElse {keyword open' close otherwise : Token} {condition : Expr}
    {isOpen : Bool} {whenTrue whenFalse : Stmt} {cs ts fs : List Token}
    (hk : keyword.isKeyword .ifKw = true)
    (ho : open'.isMark .leftParen = true) (hc : Completes .comma condition cs)
    (hp : close.isMark .rightParen = true) (ht : Recognized (.statement false whenTrue) ts)
    (he : otherwise.isKeyword .elseKw = true)
    (hf : Recognized (.statement isOpen whenFalse) fs) :
    Recognized (.statement isOpen (.conditional condition whenTrue (some whenFalse)))
      (keyword :: open' :: (cs ++ close :: (ts ++ otherwise :: fs))) := by
  intro fuel rest hcover hopen
  obtain ⟨fuel, rfl⟩ := hcover.exists_succ (by decide)
  rw [Token.isKeyword_iff] at hk
  simp only [List.length_cons, List.length_append] at hcover
  have hcondition := @hc fuel ((close :: (ts ++ otherwise :: fs)) ++ rest)
    (hcover.after (by simp only [List.length_append, List.length_cons]; omega) (by decide))
    (stops_mark hp fun r hr => by cases hr)
  -- fs) ++ rest) :: of what follows a closed statement nothing is asked
  have hwhenTrue := @ht fuel ((otherwise :: fs) ++ rest)
    (hcover.after (by simp only [List.length_append, List.length_cons]; omega) (by decide))
    fun h => absurd h Bool.false_ne_true
  have hwhenFalse := @hf fuel rest (hcover.after (by omega) (by decide)) hopen
  refine Reaches.take?_some (by simp [opensStatement, hk]) ?_
  simp only [hk]
  refine Reaches.expect ho ?_
  refine Reaches.bind hcondition fun condition' hcondition' => Reaches.expect hp ?_
  refine Reaches.bind hwhenTrue fun whenTrue' hwhenTrue' => Reaches.takes_true he ?_
  simp only [if_true, map_eq_pure_bind, bind_assoc, pure_bind]
  refine Reaches.last hwhenFalse fun whenFalse' hwhenFalse' => Reaches.pure ?_
  rw [Stmt.unsited, Stmt.unsited, hcondition', hwhenTrue', Stmt.unsitedOption,
    Stmt.unsitedOption, hwhenFalse']

/-- The parts of a `for` decide, up to sites, the loop it stands for. -/
theorem unsited_forLoop {start start' : Option Stmt} {condition condition' : Option Expr}
    {increment increment' : Option Expr} {body body' : Stmt}
    (hs : Stmt.unsitedOption start' = Stmt.unsitedOption start)
    (hc : Expr.unsitedOption condition' = Expr.unsitedOption condition)
    (hi : Expr.unsitedOption increment' = Expr.unsitedOption increment)
    (hb : body'.unsited = body.unsited) :
    (forLoop start' condition' increment' body').unsited =
      (forLoop start condition increment body).unsited := by
  have hcondition : (condition'.getD (.literal .true)).unsited =
      (condition.getD (.literal .true)).unsited := by
    cases condition <;> cases condition' <;> simp_all [Expr.unsitedOption]
  cases start <;> cases start' <;>
    simp_all [forLoop, Stmt.unsited, Stmt.unsitedAll, Stmt.unsitedOption]

/-- A `for` with all its clauses, each there or absent; the rule makes the same loop of them. -/
theorem recognized_forLoop {keyword open' end' close : Token} {start : Option Stmt}
    {condition increment : Option Expr} {isOpen : Bool} {body : Stmt} {ss cs is bs : List Token}
    (hk : keyword.isKeyword .forKw = true) (ho : open'.isMark .leftParen = true)
    (hs : Recognized (.forStart start) ss) (hc : Recognized (.optional condition) cs)
    (he : end'.isMark .semicolon = true) (hi : Recognized (.optional increment) is)
    (hp : close.isMark .rightParen = true) (hb : Recognized (.statement isOpen body) bs) :
    Recognized (.statement isOpen (forLoop start condition increment body))
      (keyword :: open' :: (ss ++ (cs ++ end' :: (is ++ close :: bs)))) := by
  intro fuel rest hcover hopen
  obtain ⟨fuel, rfl⟩ := hcover.exists_succ (by decide)
  rw [Token.isKeyword_iff] at hk
  simp only [List.length_cons, List.length_append] at hcover
  -- (is ++ close :: bs)) ++ rest) :: each part of the header is read up to the token that ends it
  have hstart := @hs fuel ((cs ++ end' :: (is ++ close :: bs)) ++ rest)
    (hcover.after (by simp only [List.length_append, List.length_cons]; omega) (by decide))
  have hcondition := @hc .semicolon fuel ((end' :: (is ++ close :: bs)) ++ rest) (.inl rfl) he
    (hcover.after (by simp only [List.length_append, List.length_cons]; omega) (by decide))
  have hincrement := @hi .rightParen fuel ((close :: bs) ++ rest) (.inr rfl) hp
    (hcover.after (by simp only [List.length_append, List.length_cons]; omega) (by decide))
  have hbody := @hb fuel rest (hcover.after (by omega) (by decide)) hopen
  refine Reaches.take?_some (by simp [opensStatement, hk]) ?_
  simp only [hk]
  refine Reaches.expect ho ?_
  refine Reaches.bind hstart fun start' hstart' => ?_
  refine Reaches.bind hcondition fun condition' hcondition' => Reaches.expect he ?_
  refine Reaches.bind hincrement fun increment' hincrement' => Reaches.expect hp ?_
  refine Reaches.last hbody fun body' hbody' => Reaches.pure ?_
  exact unsited_forLoop hstart' hcondition' hincrement' hbody'

end Statements

/-! ## Declarations -/

section Declarations

/-- A class behind its name and its superclass, if it has one. -/
theorem recognized_classDecl {keyword name open' close : Token} {ms : Members} {ts : List Token}
    (hk : keyword.isKeyword .classKw = true) (hn : name.isIdentifier = true)
    (ho : open'.isMark .leftBrace = true) (hm : Recognized (.members ms) ts)
    (hc : close.isMark .rightBrace = true) :
    Recognized
      (.declaration (.classDecl ⟨name, none, ms.methods, ms.classMethods, ms.getters, ms.setters⟩))
      (keyword :: name :: open' :: (ts ++ [close])) := by
  intro fuel rest hcover _
  obtain ⟨fuel, rfl⟩ := hcover.exists_succ (by decide)
  simp only [List.length_cons, List.length_append, List.length_nil] at hcover
  have hmembers := @hm fuel ([close] ++ rest) hc
    (hcover.after (by simp only [List.length_append, List.length_cons, List.length_nil]; omega)
      (by decide))
  have hno : open'.isMark .less = false := by simp [Token.isMark, Token.isMark_iff.mp ho]
  refine Reaches.takes_true hk (Reaches.expect hn ?_)
  unfold superclassRule
  rw [bind_assoc]
  refine Reaches.takes_false hno ?_
  simp only [Bool.false_eq_true, if_false, pure_bind]
  refine Reaches.expect ho ?_
  refine Reaches.bind hmembers fun ms' hms' => Reaches.expect hc (Reaches.pure ?_)
  unfold Members.unsited at hms'
  simp_all [Stmt.unsited, ClassDecl.unsited]

/-- A class with a superclass: `<` follows its name. -/
theorem recognized_derivedClass {keyword name less parent open' close : Token} {site : Site}
    {ms : Members} {ts : List Token} (hk : keyword.isKeyword .classKw = true)
    (hn : name.isIdentifier = true) (hl : less.isMark .less = true)
    (hp : parent.isIdentifier = true) (ho : open'.isMark .leftBrace = true)
    (hm : Recognized (.members ms) ts) (hc : close.isMark .rightBrace = true) :
    Recognized
      (.declaration (.classDecl ⟨name, some (.variable site parent), ms.methods,
        ms.classMethods, ms.getters, ms.setters⟩))
      (keyword :: name :: less :: parent :: open' :: (ts ++ [close])) := by
  intro fuel rest hcover _
  obtain ⟨fuel, rfl⟩ := hcover.exists_succ (by decide)
  simp only [List.length_cons, List.length_append, List.length_nil] at hcover
  have hmembers := @hm fuel ([close] ++ rest) hc
    (hcover.after (by simp only [List.length_append, List.length_cons, List.length_nil]; omega)
      (by decide))
  refine Reaches.takes_true hk (Reaches.expect hn ?_)
  unfold superclassRule
  simp only [bind_assoc]
  refine Reaches.takes_true hl ?_
  simp only [if_true, bind_assoc, pure_bind]
  refine Reaches.expect hp (Reaches.freshSite fun site' => Reaches.expect ho ?_)
  refine Reaches.bind hmembers fun ms' hms' => Reaches.expect hc (Reaches.pure ?_)
  unfold Members.unsited at hms'
  simp_all [Stmt.unsited, ClassDecl.unsited, Expr.unsitedOption, Expr.unsited]

/-- A declaration that begins neither with `class` nor with `fun` and a parenthesis. -/
theorem declarationRule_named {fuel : Nat} {expression : Parser Expr} {statement : Parser Stmt}
    {declarations : Parser (List Stmt)} {members : Parser Members} {t : Token}
    {ts rest : List Token} {P : Stmt → Prop} (hclass : t.isKeyword .classKw = false)
    (hfun : (t.isKeyword .funKw && (ts ++ rest).head?.any (Token.isMark .leftParen)) = false)
    (h : Reaches
      (do if ← Parser.takes (Token.isKeyword .funKw) then
            Stmt.functionDecl <$> functionRule fuel declarations .function
          else if ← Parser.takes (Token.isKeyword .valKw) then constantRule expression
          else if ← Parser.takes (Token.isKeyword .varKw) then varRule expression
          else statement) (t :: ts) rest P) :
    Reaches (declarationRule fuel expression statement declarations members) (t :: ts) rest P := by
  refine Reaches.takes_false hclass ?_
  simp only [Bool.false_eq_true, if_false]
  refine Reaches.sees (Reaches.seesSecond ?_)
  simp only [List.cons_append, List.head?_cons, Option.any_some, List.tail_cons, hfun,
    Bool.false_eq_true, if_false]
  exact h

/-- A `fun` with a name behind it begins a declaration. -/
theorem recognized_functionDecl {keyword : Token} {d : FunctionDecl} {ts : List Token}
    (hk : keyword.isKeyword .funKw = true) (hd : Derives (.function d) ts)
    (hf : Recognized (.function d) ts) :
    Recognized (.declaration (.functionDecl d)) (keyword :: ts) := by
  intro fuel rest hcover _
  obtain ⟨fuel, rfl⟩ := hcover.exists_succ (by decide)
  obtain ⟨name, open', vs, hts, hname, -⟩ := hd.function_starts
  rw [List.length_cons] at hcover
  have hfunction := @hf fuel rest .function (hcover.mono (by omega) (by decide))
  refine declarationRule_named (by simp [Token.isKeyword, Token.isKeyword_iff.mp hk])
    (by rw [hts]; simp [Token.isMark, hname]) ?_
  refine Reaches.takes_true hk (Reaches.map (hfunction.mono fun d' hd' => ?_))
  rw [Stmt.unsited, Stmt.unsited, hd']

/-- A constant with its value. -/
theorem recognized_constant {keyword name equals end' : Token} {value : Expr} {vs : List Token}
    (hk : keyword.isKeyword .valKw = true) (hn : name.isIdentifier = true)
    (hq : equals.isMark .equal = true) (hv : Completes .comma value vs)
    (he : end'.isMark .semicolon = true) :
    Recognized (.declaration (.constant name value))
      (keyword :: name :: equals :: (vs ++ [end'])) := by
  intro fuel rest hcover _
  obtain ⟨fuel, rfl⟩ := hcover.exists_succ (by decide)
  simp only [List.length_cons, List.length_append, List.length_nil] at hcover
  have hvalue := @hv fuel ([end'] ++ rest)
    (hcover.after (by simp only [List.length_append, List.length_cons, List.length_nil]; omega)
      (by decide))
    (stops_mark he fun r hr => by cases hr)
  have hkind := Token.isKeyword_iff.mp hk
  refine declarationRule_named (by simp [Token.isKeyword, hkind])
    (by simp [Token.isKeyword, hkind]) ?_
  refine Reaches.takes_false (by simp [Token.isKeyword, hkind]) (Reaches.takes_true hk ?_)
  refine Reaches.expect hn (Reaches.expect hq ?_)
  refine Reaches.bind hvalue fun value' hvalue' => Reaches.expect he (Reaches.pure ?_)
  rw [Stmt.unsited, Stmt.unsited, hvalue']

theorem recognized_var {s : Stmt} {ts : List Token} (hs : Recognized (.varDecl s) ts) :
    Recognized (.declaration s) ts := by
  obtain ⟨keyword, us, rfl, hk, hvar⟩ := hs
  intro fuel rest hcover _
  obtain ⟨fuel, rfl⟩ := hcover.exists_succ (by decide)
  have hkind := Token.isKeyword_iff.mp hk
  refine declarationRule_named (by simp [Token.isKeyword, hkind])
    (by simp [Token.isKeyword, hkind]) ?_
  refine Reaches.takes_false (by simp [Token.isKeyword, hkind]) ?_
  refine Reaches.takes_false (by simp [Token.isKeyword, hkind]) (Reaches.takes_true hk ?_)
  exact hvar (hcover.mono (Nat.le_refl _) (by decide))

/-- A declaration that no keyword of a declaration begins; `fun` in front of a parenthesis is
none. -/
theorem declarationRule_statement {fuel : Nat} {expression : Parser Expr}
    {statement : Parser Stmt} {declarations : Parser (List Stmt)} {members : Parser Members}
    {t : Token} {ts rest : List Token} {P : Stmt → Prop} (hclass : t.isKeyword .classKw = false)
    (hval : t.isKeyword .valKw = false) (hvar : t.isKeyword .varKw = false)
    (hfun : t.isKeyword .funKw = true → ts.head?.any (Token.isMark .leftParen) = true)
    (h : Reaches statement (t :: ts) rest P) :
    Reaches (declarationRule fuel expression statement declarations members) (t :: ts) rest P := by
  cases hk : t.isKeyword .funKw with
  | true =>
    have hparen := hfun hk
    cases ts with
    | nil => exact absurd hparen Bool.false_ne_true
    | cons u us =>
      have hu : u.isMark .leftParen = true := hparen
      refine Reaches.takes_false hclass ?_
      simp only [Bool.false_eq_true, if_false]
      refine Reaches.sees (Reaches.seesSecond ?_)
      simp only [List.cons_append, List.head?_cons, Option.any_some, List.tail_cons, hk, hu,
        Bool.and_self, if_true]
      exact h
  | false =>
    refine declarationRule_named hclass (by rw [hk, Bool.false_and]) ?_
    exact Reaches.takes_false hk (Reaches.takes_false hval (Reaches.takes_false hvar h))

/-- A statement begins with no keyword of a declaration. A `fun` in it is followed by a
parenthesis. -/
theorem recognized_statement {isOpen : Bool} {s : Stmt} {ts : List Token}
    (hd : Derives (.statement isOpen s) ts) (hs : Recognized (.statement isOpen s) ts) :
    Recognized (.declaration s) ts := by
  intro fuel rest hcover hno
  obtain ⟨fuel, rfl⟩ := hcover.exists_succ (by decide)
  have hstatement := @hs fuel rest (hcover.next (by decide)) fun _ => hno
  have hstarts : StartsExpression ts ∨ ts.head?.any opensStatement = true := hd.starts
  rcases hstarts with hstart | hstart
  · have hclass := hstart.head?_isKeyword (k := .classKw) rfl
    have hval := hstart.head?_isKeyword (k := .valKw) rfl
    have hvar := hstart.head?_isKeyword (k := .varKw) rfl
    obtain ⟨t, us, rfl, -, hfun⟩ := hstart
    exact declarationRule_statement hclass hval hvar hfun hstatement
  · cases ts with
    | nil => exact absurd hstart Bool.false_ne_true
    | cons t us =>
      have ht : opensStatement t = true := hstart
      have hkeyword {k : Keyword} (hk : opensStatement ⟨.keyword k, "", 0⟩ = false) :
          t.isKeyword k = false := by
        cases hb : t.isKeyword k with
        | false => rfl
        | true =>
          unfold opensStatement at ht hk
          rw [Token.isKeyword_iff.mp hb, hk] at ht
          exact absurd ht Bool.false_ne_true
      refine declarationRule_statement (hkeyword rfl) (hkeyword rfl) (hkeyword rfl) ?_ hstatement
      exact fun hk => absurd ((hkeyword (k := .funKw) rfl).symm.trans hk) Bool.false_ne_true

/-- Declarations end at a brace or at the end. -/
theorem recognized_noDeclarations : Recognized (.declarations []) [] := by
  intro fuel inBlock rest hrest hcover
  obtain ⟨fuel, rfl⟩ := hcover.exists_succ (by decide)
  intro c hc
  rw [List.nil_append] at hc
  subst hc
  refine ⟨[], c.nextSite, ?_, rfl⟩
  show (if c.unread.isEmpty || (inBlock && c.sees (Token.isMark .rightBrace)) then
    pure [] else _ : Parser (List Stmt)) c = _
  rw [Cursor.sees, hrest, if_pos rfl]
  rfl

/-- A declaration begins neither with a closing brace nor with `else`. -/
theorem Derives.declaration_starts {s : Stmt} {ts : List Token}
    (h : Derives (.declaration s) ts) :
    0 < ts.length ∧ ts.head?.any (Token.isMark .rightBrace) = false ∧
      ts.head?.any (Token.isKeyword .elseKw) = false := by
  have hkeyword {k : Keyword} {t : Token} {us : List Token} (hk : t.isKeyword k = true)
      (hne : k ≠ .elseKw) : 0 < (t :: us).length ∧
        (t :: us).head?.any (Token.isMark .rightBrace) = false ∧
        (t :: us).head?.any (Token.isKeyword .elseKw) = false := by
    have hkind := Token.isKeyword_iff.mp hk
    exact ⟨Nat.succ_pos _, by simp [Token.isMark, hkind], by simp [Token.isKeyword, hkind, hne]⟩
  cases h with
  | classDecl hk | derivedClass hk | functionDecl hk | constant hk => exact hkeyword hk (by decide)
  | var hs =>
    cases hs with
    | varDecl hk | varDeclValue hk => exact hkeyword hk (by decide)
  | statement hs =>
    have hstarts : StartsExpression ts ∨ ts.head?.any opensStatement = true := hs.starts
    rcases hstarts with hstart | hstart
    · exact ⟨hstart.length_pos, hstart.head?_isMark (by decide), hstart.head?_isKeyword rfl⟩
    · cases ts with
      | nil => exact absurd hstart Bool.false_ne_true
      | cons t us =>
        have ht : opensStatement t = true := hstart
        refine ⟨Nat.succ_pos _, ?_, ?_⟩
        · unfold opensStatement at ht
          split at ht <;> simp_all [Token.isMark]
        · unfold opensStatement at ht
          split at ht <;> simp_all [Token.isKeyword]

/-- Declarations and what stands behind them begin with `else` only if the latter does. -/
theorem Derives.declarations_else {ss : List Stmt} {ts rest : List Token}
    (h : Derives (.declarations ss) ts)
    (hrest : rest.head?.any (Token.isKeyword .elseKw) = false) :
    (ts ++ rest).head?.any (Token.isKeyword .elseKw) = false := by
  cases h with
  | noDeclarations => exact hrest
  | nextDeclaration hs =>
    obtain ⟨hpos, -, helse⟩ := hs.declaration_starts
    rw [List.append_assoc, head?_any_append hpos, helse]

/-- A declaration does not begin where declarations end, and it is not refused. -/
theorem recognized_nextDeclaration {s : Stmt} {ss : List Stmt} {ts us : List Token}
    (hd : Derives (.declaration s) ts) (hds : Derives (.declarations ss) us)
    (hs : Recognized (.declaration s) ts) (hr : Recognized (.declarations ss) us) :
    Recognized (.declarations (s :: ss)) (ts ++ us) := by
  intro fuel inBlock rest hrest hcover
  obtain ⟨fuel, rfl⟩ := hcover.exists_succ (by decide)
  obtain ⟨hpos, hbrace, -⟩ := hd.declaration_starts
  rw [List.length_append] at hcover
  have hbehind : rest.head?.any (Token.isKeyword .elseKw) = false := by
    cases rest with
    | nil => rfl
    | cons t vs =>
      rw [List.isEmpty_cons, Bool.false_or, Bool.and_eq_true] at hrest
      simp [Token.isKeyword, Token.isMark_iff.mp hrest.2]
  have hfirst := @hs fuel (us ++ rest)
    (hcover.next (by decide) |>.mono (by rw [List.length_append]; omega) (Nat.le_refl _))
    (hds.declarations_else hbehind)
  have hmore := @hr fuel inBlock rest hrest (hcover.after (by omega) (by decide))
  refine Reaches.continues (k := (inBlock && ·)) (Bool.and_false _)
    (by rw [List.length_append]; omega) (by rw [head?_any_append hpos, hbrace]) ?_
  refine Reaches.bind (Reaches.recovering hfirst) fun first hfound => ?_
  obtain ⟨s', hfirst', hs'⟩ := hfound
  refine Reaches.last hmore fun ss' hss' => Reaches.pure ?_
  subst hfirst'
  show Stmt.unsitedAll (s' :: ss') = Stmt.unsitedAll (s :: ss)
  rw [Stmt.unsitedAll, Stmt.unsitedAll, hs', hss']

end Declarations

end Lox.Grammar
