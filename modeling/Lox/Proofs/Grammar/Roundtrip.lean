import Lox.Token.Scan
import Lox.Proofs.Grammar.Completeness
import Lox.Proofs.Grammar.Unparse

/-!
# Writing a tree and reading it again

Writing a canonical program and parsing it gives the program back, up to sites
(`parse_tokensAll`). What is written of a tree is a derivation of it, by induction on the tree, and
parsing is complete.
-/

namespace Lox.Grammar

/-! ## Operators, names and parameters -/

/-- A literal is written as a token that is read as it. -/
theorem literal?_of_kind {value : Literal} {t : Token} (h : t.kind = value.kind) :
    t.literal? = some value := by
  cases value <;> simp [Token.literal?, h, Literal.kind]

/-- Ranks are told apart by their place in the order. -/
theorem eq_of_index {rank rank' : Rank} (h : rank.index = rank'.index) : rank = rank' := by
  cases rank <;> cases rank' <;> first | rfl | exact absurd h (by decide)

/-- Every rank but the tightest has a next one. -/
theorem exists_next {rank own : Rank} (h : rank.index < own.index) :
    ∃ next, rank.next? = some next ∧ next.index = rank.index + 1 := by
  cases rank <;> first | exact ⟨_, rfl, rfl⟩ | (cases own <;> exact absurd h (by decide))

/-- An expression may stand where a looser one is asked for. -/
theorem Derives.looser {rank own : Rank} {e : Expr} {ts : List Token}
    (h : Derives (.expression own e) ts) (hadmits : rank.admits own = true) :
    Derives (.expression rank e) ts := by
  have hle : rank.index ≤ own.index := of_decide_eq_true hadmits
  obtain ⟨n, hn⟩ := Nat.exists_eq_add_of_le hle
  clear hadmits hle
  induction n generalizing rank with
  | zero =>
    rw [eq_of_index hn.symm]
    exact h
  | succ n ih =>
    obtain ⟨next, hnext, hindex⟩ := @exists_next rank own (by omega)
    exact .tighter hnext (ih (by omega))

/-- A primary expression may stand anywhere. -/
theorem admits_primary (rank : Rank) : rank.admits .primary = true := by
  cases rank <;> rfl

/-- An operator of a binary level is joined to a binary expression. -/
theorem binaryLevel?_some {operator : Token} {level : Level}
    (h : binaryLevel? operator = some level) : level.joins operator = true ∧
      ∀ left right, level.join left operator right = .binary left operator right := by
  refine ⟨List.find?_some (p := fun l : Level => l.joins operator) h, fun left right => ?_⟩
  have hmem := List.mem_of_find?_eq_some h
  cases level <;> first | rfl | simp at hmem

/-- An operator of a logical level is joined to a logical expression. -/
theorem logicalLevel?_some {operator : Token} {level : Level}
    (h : logicalLevel? operator = some level) : level.joins operator = true ∧
      ∀ left right, level.join left operator right = .logical left operator right := by
  refine ⟨List.find?_some (p := fun l : Level => l.joins operator) h, fun left right => ?_⟩
  have hmem := List.mem_of_find?_eq_some h
  cases level <;> first | rfl | simp at hmem

variable (w : Spelling)

/-- A parameter with more after it, each behind a comma. -/
theorem derives_moreParameters (name : Token) (names : List Token)
    (h : (name :: names).all Token.isIdentifier = true) :
    Derives (.parameterRow (name :: names)) (name :: moreParameters w names) := by
  induction names generalizing name with
  | nil =>
    rw [List.all_cons, Bool.and_eq_true] at h
    exact .lastParameter h.1
  | cons next names ih =>
    rw [List.all_cons, Bool.and_eq_true] at h
    exact .nextParameter h.1 (w.isMark_mark _) (ih next h.2)

/-- Parameters that are names, and not too many, can be read again. -/
theorem derives_parameters {names : List Token} (h : areParameters names = true) :
    Derives (.parameters names) (parameterTokens w names) := by
  unfold areParameters at h
  rw [Bool.and_eq_true, decide_eq_true_iff] at h
  cases names with
  | nil => exact .noParameters
  | cons name names => exact .someParameters (derives_moreParameters w name names h.1) h.2

/-- A marker that is written is read as one. -/
theorem isMarker_name (marker : String) : isMarker marker (w.name marker) = true := by
  have hkind : (w.name marker).kind = .identifier := w.kind_token .identifier
  exact isMarker_iff.mpr ⟨hkind, rfl⟩

/-! ## What is written is derived -/

/-- What is written of a statement can stand where it may stand: everywhere if it is no
declaration. -/
def Derived (s : Stmt) (ts : List Token) : Prop :=
  if s.isStatement then Derives (.statement s.endsOpen s) ts else Derives (.declaration s) ts

/-- What is written of a statement can stand where a declaration can. -/
theorem Derived.declaration {s : Stmt} {ts : List Token} (h : Derived s ts) :
    Derives (.declaration s) ts := by
  unfold Derived at h
  split at h
  next => exact .statement h
  next => exact h

/-- What is written of a statement that is no declaration can stand after an `if` or in a loop. -/
theorem Derived.statement {s : Stmt} {ts : List Token} (h : Derived s ts)
    (hs : s.isStatement = true) : Derives (.statement s.endsOpen s) ts := by
  unfold Derived at h
  rw [if_pos hs] at h
  exact h

/-- A function with a name, where its body is derived. -/
theorem derives_function {d : FunctionDecl} (h : d.canonical isFunctionHead = true)
    (hbody : Derives (.block d.body)
      (w.mark .leftBrace :: (Stmt.tokensAll w d.body ++ [w.mark .rightBrace]))) :
    Derives (.function d) (d.tokens w) := by
  obtain ⟨name, keyword, parameters, body⟩ := d
  simp only [FunctionDecl.canonical, isFunctionHead, Bool.and_eq_true, decide_eq_true_iff] at h
  obtain ⟨⟨⟨hn, rfl⟩, hp⟩, -⟩ := h
  exact .function hn (w.isMark_mark _) (derives_parameters w hp) (w.isMark_mark _) hbody

/-- A canonical getter has a name and no parameters. -/
theorem derives_getter {d : FunctionDecl} (h : d.canonical isGetterHead = true)
    (hbody : Derives (.block d.body)
      (w.mark .leftBrace :: (Stmt.tokensAll w d.body ++ [w.mark .rightBrace]))) :
    Derives (.getter d) (d.tokens w) := by
  obtain ⟨name, keyword, parameters, body⟩ := d
  simp only [FunctionDecl.canonical, isGetterHead, isFunctionHead, Bool.and_eq_true,
    decide_eq_true_iff, List.isEmpty_iff] at h
  obtain ⟨⟨⟨⟨hn, rfl⟩, rfl⟩, -⟩, -⟩ := h
  exact .getterParens hn (w.isMark_mark _) (w.isMark_mark _) hbody

/-- A canonical setter has one parameter and the stored name of a setter. -/
theorem derives_setter {d : FunctionDecl} (h : d.canonical isSetterHead = true)
    (hbody : Derives (.block d.body)
      (w.mark .leftBrace :: (Stmt.tokensAll w d.body ++ [w.mark .rightBrace]))) :
    Derives (.setter d) (d.tokens w) := by
  obtain ⟨name, keyword, parameters, body⟩ := d
  simp only [FunctionDecl.canonical, isSetterHead, areParameters, Bool.and_eq_true,
    decide_eq_true_iff] at h
  obtain ⟨⟨⟨⟨hn, rfl⟩, hl⟩, hp, -⟩, -⟩ := h
  obtain ⟨parameter, rfl⟩ := List.length_eq_one_iff.mp hl
  rw [List.all_cons, Bool.and_eq_true] at hp
  exact .setter hn (w.isMark_mark _) hp.1 (w.isMark_mark _) hbody

/-- Members of one kind, in front of those that `us` derives. -/
theorem derives_members (before : List Token) (put : List FunctionDecl → Members)
    {us : List Token} {ds : List FunctionDecl} {isMember : FunctionDecl → Prop}
    (hstep : ∀ {d ds us}, isMember d → Derives (.members (put ds)) us →
      Derives (.members (put (d :: ds))) (before ++ (d.tokens w ++ us)))
    (hnone : Derives (.members (put [])) us) (hds : ∀ d ∈ ds, isMember d) :
    Derives (.members (put ds)) (FunctionDecl.tokensAll w before ds ++ us) := by
  induction ds with
  | nil => exact hnone
  | cons d ds ih =>
    have hrest := ih fun d' hd' => hds d' (List.mem_cons_of_mem _ hd')
    have hall := hstep (hds d List.mem_cons_self) hrest
    rw [FunctionDecl.tokensAll, List.append_assoc, List.append_assoc]
    exact hall

/-- All members of a class, where their bodies are derived. -/
theorem derives_allMembers {methods classMethods getters setters : List FunctionDecl}
    (hm : ∀ d ∈ methods, Derives (.function d) (d.tokens w))
    (hc : ∀ d ∈ classMethods, Derives (.function d) (d.tokens w))
    (hg : ∀ d ∈ getters, Derives (.getter d) (d.tokens w))
    (hs : ∀ d ∈ setters, Derives (.setter d) (d.tokens w)) :
    Derives (.members ⟨methods, classMethods, getters, setters⟩)
      (FunctionDecl.tokensAll w [] methods ++
        (FunctionDecl.tokensAll w [w.keyword .classKw] classMethods ++
          (FunctionDecl.tokensAll w [w.name "get"] getters ++
            FunctionDecl.tokensAll w [w.name "set"] setters))) := by
  have hsetters := derives_members w [w.name "set"] (fun ds => ⟨[], [], [], ds⟩)
    (fun hd hr => .nextSetter (isMarker_name w _) hd hr) .noMembers hs
  rw [List.append_nil] at hsetters
  have hgetters := derives_members w [w.name "get"] (fun ds => ⟨[], [], ds, setters⟩)
    (fun hd hr => .nextGetter (isMarker_name w _) hd hr) hsetters hg
  have hclass := derives_members w [w.keyword .classKw] (fun ds => ⟨[], ds, getters, setters⟩)
    (fun hd hr => .nextClassMethod (w.isKeyword_keyword _) hd hr) hgetters hc
  exact derives_members w [] (fun ds => ⟨ds, classMethods, getters, setters⟩)
    (fun hd hr => .nextMethod hd hr) hclass hm

mutual

/-- What is written of an expression that is canonical at a rank derives it at this rank. -/
theorem Expr.derives_tokens (rank : Rank) : ∀ e : Expr, e.canonical rank = true →
    Derives (.expression rank e) (e.tokens w)
  -- atoms are derived as primaries, which every rank admits
  | .literal value, _ =>
    .looser (.literal (literal?_of_kind (w.kind_token _))) (admits_primary rank)
  | .variable _ name, h => .looser (.name h) (admits_primary rank)
  -- the rest is derived at the rank of its own rule, which `h` says the asked rank admits
  | .assign _ name value, h => by
    simp only [Expr.canonical, Bool.and_eq_true] at h
    obtain ⟨⟨hrank, hn⟩, hv⟩ := h
    exact .looser (.assign hn (w.isMark_mark _) (Expr.derives_tokens .assignment value hv)) hrank
  | .receiver _ keyword, h => .looser (.receiver h) (admits_primary rank)
  | .inherited _ keyword method, h => by
    simp only [Expr.canonical, Bool.and_eq_true] at h
    exact .looser (.inherited h.1 (w.isMark_mark _) h.2) (admits_primary rank)
  | .group inner, h =>
    .looser (.group (w.isMark_mark _) (Expr.derives_tokens .comma inner h) (w.isMark_mark _))
      (admits_primary rank)
  | .unary operator operand, h => by
    simp only [Expr.canonical, Bool.and_eq_true] at h
    obtain ⟨⟨hrank, ho⟩, he⟩ := h
    exact .looser (.unary ho (Expr.derives_tokens .unary operand he)) hrank
  | .binary left operator right, h => by
    simp only [Expr.canonical] at h
    split at h
    next level hlevel =>
      simp only [Bool.and_eq_true] at h
      obtain ⟨⟨hrank, hl⟩, hr⟩ := h
      -- the level decides between the two binary nodes; here `join` makes this one
      obtain ⟨ho, hjoin⟩ := binaryLevel?_some hlevel
      have hjoined := Derives.joined (Expr.derives_tokens level.rank left hl) ho
        (Expr.derives_tokens level.operandRank right hr)
      rw [hjoin] at hjoined
      exact .looser hjoined hrank
    next => exact absurd h Bool.false_ne_true
  | .logical left operator right, h => by
    simp only [Expr.canonical] at h
    split at h
    next level hlevel =>
      simp only [Bool.and_eq_true] at h
      obtain ⟨⟨hrank, hl⟩, hr⟩ := h
      obtain ⟨ho, hjoin⟩ := logicalLevel?_some hlevel
      have hjoined := Derives.joined (Expr.derives_tokens level.rank left hl) ho
        (Expr.derives_tokens level.operandRank right hr)
      rw [hjoin] at hjoined
      exact .looser hjoined hrank
    next => exact absurd h Bool.false_ne_true
  | .conditional condition whenTrue whenFalse, h => by
    simp only [Expr.canonical, Bool.and_eq_true] at h
    obtain ⟨⟨⟨hrank, hc⟩, ht⟩, hf⟩ := h
    exact .looser (.conditional (Expr.derives_tokens .or condition hc) (w.isMark_mark _)
      (Expr.derives_tokens .comma whenTrue ht) (w.isMark_mark _)
      (Expr.derives_tokens .conditional whenFalse hf)) hrank
  | .call callee paren arguments, h => by
    simp only [Expr.canonical, Bool.and_eq_true, decide_eq_true_iff] at h
    obtain ⟨⟨⟨⟨hrank, hc⟩, hp⟩, hl⟩, ha⟩ := h
    exact .looser (.call (Expr.derives_tokens .call callee hc) (w.isMark_mark _)
      (Expr.derives_tokensAll arguments hl ha) hp) hrank
  | .get object name, h => by
    simp only [Expr.canonical, Bool.and_eq_true] at h
    obtain ⟨⟨hrank, ho⟩, hn⟩ := h
    exact .looser (.get (Expr.derives_tokens .call object ho) (w.isMark_mark _) hn) hrank
  | .set object name value, h => by
    simp only [Expr.canonical, Bool.and_eq_true] at h
    obtain ⟨⟨⟨hrank, ho⟩, hn⟩, hv⟩ := h
    exact .looser (.set (Expr.derives_tokens .call object ho) (w.isMark_mark _) hn
      (w.isMark_mark _) (Expr.derives_tokens .assignment value hv)) hrank
  -- a function expression has no name, so only its head and its body are left
  | .function declaration, h => by
    have hbody := FunctionDecl.derives_body isLiteralHead declaration h
    obtain ⟨name, keyword, parameters, body⟩ := declaration
    simp only [Expr.canonical, FunctionDecl.canonical, isLiteralHead, Bool.and_eq_true,
      Option.isNone_iff_eq_none] at h
    obtain ⟨⟨⟨hk, rfl⟩, hp⟩, -⟩ := h
    exact .looser (.functionLiteral hk (w.isMark_mark _) (derives_parameters w hp)
      (w.isMark_mark _) hbody) (admits_primary rank)

/-- Arguments, as many as allowed. -/
theorem Expr.derives_tokensAll : ∀ es : List Expr, es.length ≤ maxArity →
    Expr.canonicalAll es = true → Derives (.arguments es) (Expr.tokensAll w es)
  | [], _, _ => .noArguments
  | e :: es, hl, h => by
    simp only [Expr.canonicalAll, Bool.and_eq_true] at h
    exact .someArguments (Expr.derives_tokensMore e es
      (Expr.derives_tokens .assignment e h.1) h.2) hl

theorem Expr.derives_tokensMore (e : Expr) : ∀ es : List Expr,
    Derives (.expression .assignment e) (e.tokens w) → Expr.canonicalAll es = true →
    Derives (.argumentRow (e :: es)) (e.tokens w ++ Expr.tokensMore w es)
  | [], he, _ => by
    rw [Expr.tokensMore, List.append_nil]
    exact .lastArgument he
  | next :: es, he, h => by
    simp only [Expr.canonicalAll, Bool.and_eq_true] at h
    exact .nextArgument he (w.isMark_mark _) (Expr.derives_tokensMore next es
      (Expr.derives_tokens .assignment next h.1) h.2)

theorem Expr.derives_tokensOption : ∀ e : Option Expr, Expr.canonicalOption e = true →
    Derives (.optional e) (Expr.tokensOption w [] e)
  | none, _ => .absent
  | some e, h => .present (Expr.derives_tokens .comma e h)

/-- The body of a canonical function, between braces. -/
theorem FunctionDecl.derives_body (isHead : Option Token → Token → List Token → Bool) :
    ∀ d : FunctionDecl, d.canonical isHead = true → Derives (.block d.body)
      (w.mark .leftBrace :: (Stmt.tokensAll w d.body ++ [w.mark .rightBrace]))
  | ⟨name, keyword, parameters, body⟩, h => by
    simp only [FunctionDecl.canonical, Bool.and_eq_true] at h
    exact .block (w.isMark_mark _) (Stmt.derives_tokensAll body h.2) (w.isMark_mark _)

/-- The bodies of the members of a class. -/
theorem FunctionDecl.derives_bodies (isHead : Option Token → Token → List Token → Bool) :
    ∀ ds : List FunctionDecl, FunctionDecl.canonicalAll isHead ds = true →
      ∀ d ∈ ds, d.canonical isHead = true ∧ Derives (.block d.body)
        (w.mark .leftBrace :: (Stmt.tokensAll w d.body ++ [w.mark .rightBrace]))
  | [], _ => fun _ hd => absurd hd List.not_mem_nil
  | d :: ds, h => by
    simp only [FunctionDecl.canonicalAll, Bool.and_eq_true] at h
    have hfirst := FunctionDecl.derives_body isHead d h.1
    have hmore := FunctionDecl.derives_bodies isHead ds h.2
    intro d' hd'
    rcases List.mem_cons.mp hd' with rfl | hd'
    · exact ⟨h.1, hfirst⟩
    · exact hmore d' hd'

/-- Statements in a row are declarations in a row. -/
theorem Stmt.derives_tokensAll : ∀ ss : List Stmt, Stmt.canonicalAll ss = true →
    Derives (.declarations ss) (Stmt.tokensAll w ss)
  | [], _ => .noDeclarations
  | s :: ss, h => by
    simp only [Stmt.canonicalAll, Bool.and_eq_true] at h
    exact .nextDeclaration (Stmt.derives_tokens s h.1).declaration (Stmt.derives_tokensAll ss h.2)

/-- What is written of a canonical statement derives it, open if it ends so. -/
theorem Stmt.derives_tokens : ∀ s : Stmt, s.canonical = true → Derived s (s.tokens w)
  | .block body, h =>
    .blockStatement (.block (w.isMark_mark _) (Stmt.derives_tokensAll body h) (w.isMark_mark _))
  | .breakLoop keyword, h => .breakLoop h (w.isMark_mark _)
  | .continueLoop keyword, h => .continueLoop h (w.isMark_mark _)
  | .classDecl ⟨name, superclass, methods, classMethods, getters, setters⟩, h => by
    simp only [Stmt.canonical, ClassDecl.canonical, Bool.and_eq_true] at h
    obtain ⟨⟨⟨⟨⟨hsuper, hn⟩, hm⟩, hc⟩, hg⟩, hs⟩ := h
    have hmembers := derives_allMembers w
      (fun d hd => have h := FunctionDecl.derives_bodies isFunctionHead methods hm d hd
        derives_function w h.1 h.2)
      (fun d hd => have h := FunctionDecl.derives_bodies isFunctionHead classMethods hc d hd
        derives_function w h.1 h.2)
      (fun d hd => have h := FunctionDecl.derives_bodies isGetterHead getters hg d hd
        derives_getter w h.1 h.2)
      (fun d hd => have h := FunctionDecl.derives_bodies isSetterHead setters hs d hd
        derives_setter w h.1 h.2)
    -- the superclass clause is absent or one name, and nothing else is canonical
    split at hsuper
    next => exact .classDecl (w.isKeyword_keyword _) hn (w.isMark_mark _) hmembers (w.isMark_mark _)
    next site parent =>
      exact .derivedClass (w.isKeyword_keyword _) hn (w.isMark_mark _) hsuper (w.isMark_mark _)
        hmembers (w.isMark_mark _)
    next => exact absurd hsuper Bool.false_ne_true
  | .empty, _ => .empty (w.isMark_mark _)
  | .expression value, h =>
    .plain (.expressionStatement (Expr.derives_tokens .comma value h) (w.isMark_mark _))
  | .functionDecl declaration, h => by
    have hbody := FunctionDecl.derives_body isFunctionHead declaration h
    exact .functionDecl (w.isKeyword_keyword _) (derives_function w h hbody)
  -- without an `else` the statement ends open, whatever its branch does
  | .conditional condition whenTrue none, h => by
    simp only [Stmt.canonical, Bool.and_eq_true] at h
    obtain ⟨⟨⟨⟨hc, hs⟩, ht⟩, -⟩, -⟩ := h
    show Derives (.statement true _) _
    rw [Stmt.tokens, Stmt.tokensElse, List.append_nil]
    exact .ifThen (w.isKeyword_keyword _) (w.isMark_mark _)
      (Expr.derives_tokens .comma condition hc) (w.isMark_mark _)
      ((Stmt.derives_tokens whenTrue ht).statement hs)
  | .conditional condition whenTrue (some whenFalse), h => by
    simp only [Stmt.canonical, Stmt.canonicalElse, Bool.and_eq_true, Option.isNone_some,
      Bool.false_or, Bool.not_eq_true'] at h
    obtain ⟨⟨⟨⟨hc, hs⟩, ht⟩, hopen⟩, hs', hf⟩ := h
    have hwhenTrue := (Stmt.derives_tokens whenTrue ht).statement hs
    -- the branch before an `else` is closed, or the `else` would belong to it
    rw [hopen] at hwhenTrue
    exact .ifThenElse (w.isKeyword_keyword _) (w.isMark_mark _)
      (Expr.derives_tokens .comma condition hc) (w.isMark_mark _) hwhenTrue
      (w.isKeyword_keyword _) ((Stmt.derives_tokens whenFalse hf).statement hs')
  | .input keyword target, h => by
    simp only [Stmt.canonical] at h
    split at h
    next site name =>
      rw [Bool.and_eq_true] at h
      exact .input h.1 h.2 (w.isMark_mark _)
    next => exact absurd h Bool.false_ne_true
  | .print keyword value, h => by
    simp only [Stmt.canonical, Bool.and_eq_true] at h
    exact .print h.1 (Expr.derives_tokens .comma value h.2) (w.isMark_mark _)
  | .returnValue keyword value, h => by
    simp only [Stmt.canonical, Bool.and_eq_true] at h
    exact .returnValue h.1 (Expr.derives_tokensOption value h.2) (w.isMark_mark _)
  | .constant name value, h => by
    simp only [Stmt.canonical, Bool.and_eq_true] at h
    exact .constant (w.isKeyword_keyword _) h.1 (w.isMark_mark _)
      (Expr.derives_tokens .comma value h.2) (w.isMark_mark _)
  | .var name none, h => by
    simp only [Stmt.canonical, Bool.and_eq_true] at h
    exact .var (.varDecl (w.isKeyword_keyword _) h.1 (w.isMark_mark _))
  | .var name (some value), h => by
    simp only [Stmt.canonical, Expr.canonicalOption, Bool.and_eq_true] at h
    exact .var (.varDeclValue (w.isKeyword_keyword _) h.1 (w.isMark_mark _)
      (Expr.derives_tokens .comma value h.2) (w.isMark_mark _))
  | .loop condition body none, h => by
    simp only [Stmt.canonical, Bool.and_eq_true] at h
    obtain ⟨⟨⟨hc, hs⟩, hb⟩, -⟩ := h
    exact .whileLoop (w.isKeyword_keyword _) (w.isMark_mark _)
      (Expr.derives_tokens .comma condition hc) (w.isMark_mark _)
      ((Stmt.derives_tokens body hb).statement hs)
  | .loop condition body (some increment), h => by
    simp only [Stmt.canonical, Expr.canonicalOption, Bool.and_eq_true] at h
    obtain ⟨⟨⟨hc, hs⟩, hb⟩, hi⟩ := h
    -- a loop with an increment is written as a `for` with an empty start
    exact @Derives.forLoop _ _ _ _ none (some condition) (some increment) _ _ _ _ _ _
      (w.isKeyword_keyword _) (w.isMark_mark _) (.startNothing (w.isMark_mark _))
      (.present (Expr.derives_tokens .comma condition hc)) (w.isMark_mark _)
      (.present (Expr.derives_tokens .comma increment hi)) (w.isMark_mark _)
      ((Stmt.derives_tokens body hb).statement hs)

end

/-- Writing a program and parsing what was written gives the program back, up to sites, without an
error; whatever stands behind the end is not looked at. -/
theorem parse_tokensAll (program : List Stmt) (hcanonical : Stmt.canonicalAll program = true)
    (stop : Token) (hstop : stop.isEnd = true) (after : List Token) (nextSite : Site) :
    (Program.parse (Stmt.tokensAll w program ++ stop :: after) nextSite).errors = [] ∧
      Stmt.unsitedAll (Program.parse (Stmt.tokensAll w program ++ stop :: after) nextSite).tree =
        Stmt.unsitedAll program := by
  have hderives := Stmt.derives_tokensAll w program hcanonical
  have hbefore : beforeEnd (Stmt.tokensAll w program ++ stop :: after) =
      Stmt.tokensAll w program := by
    rw [beforeEnd_append hderives.inner, beforeEnd, List.takeWhile_cons, hstop]
    exact List.append_nil _
  refine parse_complete ?_ nextSite
  rw [hbefore]
  exact hderives

/-- A class with a setter, an assignment to a property, a loop, and an `if` with both branches. -/
def sampleProgram : List Stmt :=
  (Program.parse (scanTokens
    "class A \x7b set x(v) \x7b\x7d \x7d for (; i; i = a) if (i) a.x = -i; else break;") 0).tree

/-- A program that is written on one line and read again with other sites. -/
theorem parse_tokensAll_sampleProgram :
    Stmt.canonicalAll sampleProgram = true ∧ (Token.endOf 9).isEnd = true ∧
      (Program.parse (Stmt.tokensAll (Spelling.plain 9) sampleProgram ++ [Token.endOf 9]) 5).errors
        = [] ∧
      Stmt.unsitedAll (Program.parse
        (Stmt.tokensAll (Spelling.plain 9) sampleProgram ++ [Token.endOf 9]) 5).tree =
        Stmt.unsitedAll sampleProgram := by
  have hcanonical : Stmt.canonicalAll sampleProgram = true := by decide +kernel
  exact ⟨hcanonical, rfl, parse_tokensAll (Spelling.plain 9) sampleProgram hcanonical
    (Token.endOf 9) rfl [] 5⟩

end Lox.Grammar
