import Lox.Proofs.Twin.Steps

/-!
# Evaluation in two runs

Parts of programs that are alike do the same when they are run: from twin machines they give twins,
fail with the same cause or run out of fuel together. The induction is on the fuel, which both runs
have as much of; a step lemma for each function of the evaluator takes it from one amount to the
next.
-/

namespace Lox

open Eval Exec

variable {v : Variation}

/-- With so much fuel, parts that are alike do the same in two runs. -/
structure Follows (v : Variation) (fuel : Nat) : Prop where
  execute : ∀ {l : Layout} {marks : List Bool} {s s' : Stmt},
    Alike v marks (.statement s) (.statement s') →
    Exec.Twin v l marks (Flow.Twin v) (Eval.execute fuel s) (Eval.execute fuel s')
  executeAll : ∀ {l : Layout} {marks : List Bool} {ss ss' : List Stmt},
    Alike v marks (.statements ss) (.statements ss') →
    Exec.Twin v l marks (Flow.Twin v) (Eval.executeAll fuel ss) (Eval.executeAll fuel ss')
  repeatLoop : ∀ {l : Layout} {marks : List Bool} {condition condition' : Expr} {body body' : Stmt}
    {increment increment' : Option Expr},
    Alike v marks (.expression condition) (.expression condition') →
    Alike v marks (.statement body) (.statement body') →
    Alike v marks (.optional increment) (.optional increment') →
    Exec.Twin v l marks (Flow.Twin v) (Eval.repeatLoop fuel condition body increment)
      (Eval.repeatLoop fuel condition' body' increment')
  superclassClause : ∀ {l : Layout} {marks : List Bool} {d d' : ClassDecl},
    Alike v marks (.statement (.classDecl d)) (.statement (.classDecl d')) →
    Exec.Twin v l marks
      (fun l' c c' => Option.Rel (Class.Twin v l') c c' ∧ c.isSome = d.superclass.isSome)
      (Eval.superclassClause fuel d) (Eval.superclassClause fuel d')
  evaluate : ∀ {l : Layout} {marks : List Bool} {e e' : Expr},
    Alike v marks (.expression e) (.expression e') →
    Exec.Twin v l marks (Value.Twin v) (Eval.evaluate fuel e) (Eval.evaluate fuel e')
  evaluateOption : ∀ {l : Layout} {marks : List Bool} {e e' : Option Expr},
    Alike v marks (.optional e) (.optional e') →
    Exec.Twin v l marks (Value.Twin v) (Eval.evaluateOption fuel e) (Eval.evaluateOption fuel e')
  evaluateAll : ∀ {l : Layout} {marks : List Bool} {es es' : List Expr},
    Alike v marks (.expressions es) (.expressions es') →
    Exec.Twin v l marks (fun l' => List.Forall₂ (Value.Twin v l')) (Eval.evaluateAll fuel es)
      (Eval.evaluateAll fuel es')
  asProperty : ∀ {l : Layout} {marks : List Bool} {f f' : Function}, f.Twin v l [] f' →
    Exec.Twin v l marks (Value.Twin v) (Eval.asProperty fuel f) (Eval.asProperty fuel f')
  objectProperty : ∀ {l : Layout} {marks : List Bool} {o o' : Object} {name name' : Token},
    o'.id = o.id → o.cls.Twin v l o'.cls → v.Keeps name name' →
    Exec.Twin v l marks (Value.Twin v) (Eval.objectProperty fuel o name)
      (Eval.objectProperty fuel o' name')
  call : ∀ {l : Layout} {marks : List Bool} {callee callee' : Value} {paren paren' : Token}
    {arguments arguments' : List Value},
    callee.Twin v l callee' → v.Keeps paren paren' →
    List.Forall₂ (Value.Twin v l) arguments arguments' →
    Exec.Twin v l marks (Value.Twin v) (Eval.call fuel callee paren arguments)
      (Eval.call fuel callee' paren' arguments')
  invoke : ∀ {l : Layout} {marks : List Bool} {f f' : Function} {arguments arguments' : List Value},
    f.Twin v l [] f' → List.Forall₂ (Value.Twin v l) arguments arguments' →
    Exec.Twin v l marks (Value.Twin v) (Eval.invoke fuel f arguments)
      (Eval.invoke fuel f' arguments')

/-- Without fuel both runs end at once. -/
theorem Follows.zero : Follows v 0 where
  execute _ := .outOfFuel
  executeAll _ := .outOfFuel
  repeatLoop _ _ _ := .outOfFuel
  superclassClause _ := .outOfFuel
  evaluate _ := .outOfFuel
  evaluateOption _ := .outOfFuel
  evaluateAll _ := .outOfFuel
  asProperty _ := .outOfFuel
  objectProperty _ _ _ := .outOfFuel
  call _ _ _ := .outOfFuel
  invoke _ _ := .outOfFuel

namespace Exec.Twin

variable {l l' : Layout} {marks : List Bool}

/-- A function is made in the current frame. -/
theorem closureHere {d d' : FunctionDecl} (hd : Alike v marks (.function d) (.function d'))
    {α : Type} {Q : Layout → α → α → Prop} {f f' : Function → Exec α}
    (hf : ∀ l', l <+: l' → ∀ g g', Function.Twin v l' [] g g' → g.declaration = d →
      Exec.Twin v l' marks Q (f g) (f' g')) :
    Exec.Twin v l marks Q
      (do
        let m ← MonadState.get
        f (← Exec.fromStore fun s => s.newFunction d m.current false .method))
      (do
        let m ← MonadState.get
        f' (← Exec.fromStore fun s => s.newFunction d' m.current false .method)) := by
  refine get fun l₁ hl₁ m m' hm hmarks => ?_
  rw [hm.current]
  have hmake : Exec.Twin v l₁ marks
      (fun l' g g' => Function.Twin v l' [] g g' ∧ g.declaration = d)
      (Exec.fromStore fun s => s.newFunction d m.current false .method)
      (Exec.fromStore fun s => s.newFunction d' m.current false .method) :=
    fromStore fun l₂ hl₂ s s' hs =>
      ⟨l₂, List.prefix_refl _, hs.newSerial,
        ⟨hs.serial, rfl, rfl, rfl, marks, Layout.grow hl₂ hmarks, hd⟩, rfl⟩
  exact bind hmake fun l₂ hl₂ g g' hg => hf l₂ (hl₁.trans hl₂) g g' hg.1 hg.2

/-- Both runs make an instance under the same number. -/
theorem newObject {c c' : Class} (hc : c.Twin v l c') :
    Exec.Twin v l marks (fun l' o o' => Value.Twin v l' (.object o) (.object o'))
      (Exec.fromStore fun s => s.newObject c) (Exec.fromStore fun s => s.newObject c') := by
  refine fromStore fun l₁ hl₁ s s' hs => ⟨l₁, List.prefix_refl _, hs.newObject c c', ?_⟩
  unfold Store.newObject
  rw [hs.objects]
  exact .object _ (hc.grow hl₁)

/-- What a line typed in stands for. -/
theorem typedValue {keyword keyword' : Token} (hkeyword : v.Keeps keyword keyword') (line : Line) :
    Exec.Twin v l marks (Value.Twin v) (Eval.typedValue keyword line)
      (Eval.typedValue keyword' line) := by
  cases line with
  | absent => exact pure fun _ _ => .nil
  | text s =>
    refine pure fun l' _ => ?_
    show Value.Twin v l' (Value.ofTyped _) (Value.ofTyped _)
    unfold Value.ofTyped
    repeat' split
    all_goals constructor
  | unreadable => exact fail .inputUnreadable hkeyword

/-- Both runs read the same line and assign it to variables that are twins. -/
theorem input {keyword keyword' : Token} (hkeyword : v.Keeps keyword keyword')
    {target target' : Expr} (htarget : Alike v marks (.expression target) (.expression target')) :
    Exec.Twin v l marks (fun _ _ _ => True) (Eval.input keyword target)
      (Eval.input keyword' target') := by
  refine bind takeLine fun l₁ hl₁ line line' hline => ?_
  subst hline
  refine bind (typedValue hkeyword line') fun l₂ hl₂ value value' hvalue => ?_
  cases htarget with
  | name hknown hname => exact assign hknown hname hvalue
  | _ => exact fail .inputTargetInvalid hkeyword

/-- Both runs write the same line, or are refused at tokens that are alike. -/
theorem print {keyword keyword' : Token} (hkeyword : v.Keeps keyword keyword')
    {value value' : Value} (hvalue : value.Twin v l value') :
    Exec.Twin v l marks (fun _ _ _ => True) (Eval.print keyword value)
      (Eval.print keyword' value') := by
  refine bind (writeLine hvalue) fun l₁ hl₁ fits fits' hfits => ?_
  subst hfits
  cases fits' with
  | true => exact pure fun _ _ => trivial
  | false => exact fail .outputRefused hkeyword

end Exec.Twin

namespace Follows

variable {fuel : Nat} {l : Layout} {marks : List Bool} (h : Follows v fuel)

include h

/-! ## Statements -/

/-- A condition is decided in the same way. -/
theorem decided {α : Type} {R : Layout → α → α → Prop} {condition condition' : Expr}
    (hcondition : Alike v marks (.expression condition) (.expression condition'))
    {x x' y y' : Exec α} (hx : Exec.Twin v l marks R x x') (hy : Exec.Twin v l marks R y y') :
    Exec.Twin v l marks R
      (Eval.evaluate fuel condition >>= fun value => if value.isTruthy then x else y)
      (Eval.evaluate fuel condition' >>= fun value => if value.isTruthy then x' else y') := by
  refine .bind (h.evaluate hcondition) fun l₁ hl₁ a a' ha => ?_
  rw [ha.isTruthy]
  split
  next => exact hx.grow hl₁
  next => exact hy.grow hl₁

theorem execute_succ {s s' : Stmt} (hs : Alike v marks (.statement s) (.statement s')) :
    Exec.Twin v l marks (Flow.Twin v) (Eval.execute (fuel + 1) s)
      (Eval.execute (fuel + 1) s') := by
  have hnormal : ∀ l, Exec.Twin v l marks (Flow.Twin v) (pure Flow.normal) (pure Flow.normal) :=
    fun l => .pure fun _ _ => .normal
  cases hs with
  | block mark hbody =>
    refine .bind (.innerFrame mark) fun l₁ hl₁ frame frame' hframe => ?_
    obtain ⟨rfl, hframe⟩ := hframe
    exact .within hframe (h.executeAll hbody)
  | breakLoop => exact .pure fun _ _ => .breakLoop
  | continueLoop => exact .pure fun _ _ => .continueLoop
  | empty => exact hnormal l
  | expressionStatement hvalue =>
    exact .bind (h.evaluate hvalue) fun l₁ _ _ _ _ => hnormal l₁
  | functionDecl hstays hd =>
    refine .closureHere hd fun l₁ hl₁ g g' hg hdeclaration => ?_
    subst hdeclaration
    have hsame : g'.name?.getD "" = v.name (marks.headD false) (g.name?.getD "") := by
      rw [hg.name?]
      exact hstays.same.symm
    exact .bind (.define hstays.fresh hsame (.function hg) false) fun l₂ _ _ _ _ => hnormal l₂
  | conditional hcondition htrue hfalse =>
    refine h.decided hcondition (h.execute htrue) ?_
    cases hfalse with
    | noOtherwise => exact hnormal l
    | someOtherwise hs => exact h.execute hs
  | input hkeyword htarget =>
    exact .bind (.input hkeyword htarget) fun l₁ _ _ _ _ => hnormal l₁
  | print hkeyword hvalue =>
    refine .bind (h.evaluate hvalue) fun l₁ _ a a' ha => ?_
    exact .bind (.print hkeyword ha) fun l₂ _ _ _ _ => hnormal l₂
  | returnValue hkeyword hvalue =>
    exact .bind (h.evaluateOption hvalue) fun l₁ _ a a' ha =>
      .pure fun l₂ hl₂ => .returned (ha.grow hl₂)
  | constant hname hvalue =>
    refine .bind (h.evaluate hvalue) fun l₁ _ a a' ha => ?_
    exact .bind (.define hname.fresh hname.lexeme ha false) fun l₂ _ _ _ _ => hnormal l₂
  | var hname hvalue =>
    refine .bind (h.evaluateOption hvalue) fun l₁ _ a a' ha => ?_
    exact .bind (.define hname.fresh hname.lexeme ha true) fun l₂ _ _ _ _ => hnormal l₂
  | loop hcondition hbody hincrement => exact h.repeatLoop hcondition hbody hincrement
  | classDecl hstays hname hsuperclass hmethods hclassMethods hgetters hsetters =>
    have hd := Alike.classDecl hstays hname hsuperclass hmethods hclassMethods hgetters hsetters
    refine .bind (h.superclassClause hd) fun l₁ _ c c' hc => ?_
    exact .bind (.declareClass hd hc.1 hc.2) fun l₂ _ _ _ _ => hnormal l₂

theorem executeAll_succ {ss ss' : List Stmt}
    (hss : Alike v marks (.statements ss) (.statements ss')) :
    Exec.Twin v l marks (Flow.Twin v) (Eval.executeAll (fuel + 1) ss)
      (Eval.executeAll (fuel + 1) ss') := by
  cases hss with
  | noStatements => exact .pure fun _ _ => .normal
  | nextStatement hs hss =>
    refine .bind (h.execute hs) fun l₁ _ flow flow' hflow => ?_
    cases hflow with
    | normal => exact h.executeAll hss
    | breakLoop => exact .pure fun _ _ => .breakLoop
    | continueLoop => exact .pure fun _ _ => .continueLoop
    | returned ha => exact .pure fun l₂ hl₂ => .returned (ha.grow hl₂)

theorem repeatLoop_succ {condition condition' : Expr} {body body' : Stmt}
    {increment increment' : Option Expr}
    (hcondition : Alike v marks (.expression condition) (.expression condition'))
    (hbody : Alike v marks (.statement body) (.statement body'))
    (hincrement : Alike v marks (.optional increment) (.optional increment')) :
    Exec.Twin v l marks (Flow.Twin v) (Eval.repeatLoop (fuel + 1) condition body increment)
      (Eval.repeatLoop (fuel + 1) condition' body' increment') := by
  have hagain : ∀ l, Exec.Twin v l marks (Flow.Twin v)
      (Eval.evaluateOption fuel increment >>= fun _ =>
        Eval.repeatLoop fuel condition body increment)
      (Eval.evaluateOption fuel increment' >>= fun _ =>
        Eval.repeatLoop fuel condition' body' increment') := fun l =>
    .bind (h.evaluateOption hincrement) fun _ _ _ _ _ =>
      h.repeatLoop hcondition hbody hincrement
  refine h.decided hcondition ?_ (.pure fun _ _ => .normal)
  refine .bind (h.execute hbody) fun l₁ _ flow flow' hflow => ?_
  cases hflow with
  | breakLoop => exact .pure fun _ _ => .normal
  | returned ha => exact .pure fun l₂ hl₂ => .returned (ha.grow hl₂)
  | normal => exact hagain l₁
  | continueLoop => exact hagain l₁

theorem superclassClause_succ {d d' : ClassDecl}
    (hd : Alike v marks (.statement (.classDecl d)) (.statement (.classDecl d'))) :
    Exec.Twin v l marks
      (fun l' c c' => Option.Rel (Class.Twin v l') c c' ∧ c.isSome = d.superclass.isSome)
      (Eval.superclassClause (fuel + 1) d) (Eval.superclassClause (fuel + 1) d') := by
  cases hd with
  | classDecl _ hname hsuperclass =>
    cases hsuperclass with
    | absent => exact .pure fun _ _ => ⟨.none, rfl⟩
    | present hclause =>
      refine .bind (h.evaluate hclause) fun l₁ _ a a' ha => ?_
      exact .bind (.superclassOf hname hclause ha) fun l₂ _ c c' hc =>
        .pure fun l₃ hl₃ => ⟨.some (hc.grow hl₃), rfl⟩

/-! ## Expressions -/

theorem evaluate_succ {e e' : Expr} (he : Alike v marks (.expression e) (.expression e')) :
    Exec.Twin v l marks (Value.Twin v) (Eval.evaluate (fuel + 1) e)
      (Eval.evaluate (fuel + 1) e') := by
  cases he with
  | literal value =>
    refine .pure fun _ _ => ?_
    cases value <;> constructor
  | name hknown hname => exact .lookUp hknown hname
  | assign hknown hname hvalue =>
    refine .bind (h.evaluate hvalue) fun l₁ _ a a' ha => ?_
    exact .bind (.assign hknown hname ha) fun l₂ hl₂ _ _ _ =>
      .pure fun l₃ hl₃ => (ha.grow hl₂).grow hl₃
  | receiver hknown hname => exact .lookUp hknown hname
  | inherited hknown hname hmethod =>
    exact .bind (.inheritedMember hknown hname hmethod) fun l₁ _ f f' hf => h.asProperty hf
  | group hinner => exact h.evaluate hinner
  | unary hoperator hoperand =>
    refine .bind (h.evaluate hoperand) fun l₁ _ a a' ha => ?_
    rw [hoperator.kind]
    exact .ofExcept hoperator (ha.unary _)
  | binary hleft hoperator hright =>
    refine .bind (h.evaluate hleft) fun l₁ _ a a' ha => ?_
    refine .bind (h.evaluate hright) fun l₂ hl₂ b b' hb => ?_
    rw [hoperator.kind]
    exact .ofExcept hoperator ((ha.grow hl₂).binary hb _)
  | logical hleft hoperator hright =>
    refine .bind (h.evaluate hleft) fun l₁ _ a a' ha => ?_
    rw [hoperator.kind, ha.decides]
    split
    next => exact .pure fun l₂ hl₂ => ha.grow hl₂
    next => exact h.evaluate hright
  | choice hcondition htrue hfalse =>
    exact h.decided hcondition (h.evaluate htrue) (h.evaluate hfalse)
  | call hcallee hparen harguments =>
    refine .bind (h.evaluate hcallee) fun l₁ _ a a' ha => ?_
    refine .bind (h.evaluateAll harguments) fun l₂ hl₂ values values' hvalues => ?_
    rw [ha.arity?, ← hvalues.length_eq]
    cases a.arity? with
    | none => exact .fail .notCallable hparen
    | some arity =>
      dsimp only
      split
      next => exact .fail _ hparen
      next => exact h.call (ha.grow hl₂) hparen hvalues
  | get hobject hname =>
    refine .bind (h.evaluate hobject) fun l₁ _ a a' ha => ?_
    cases ha with
    | object id hc => exact h.objectProperty rfl hc hname
    | cls hc => exact .classProperty hc hname
    | _ => exact .fail .noProperties hname
  | @set _ _ _ _ _ name name' hobject hname hvalue =>
    refine .bind (h.evaluate hobject) fun l₁ _ a a' ha => ?_
    cases ha with
    | @object id c c' hc =>
      refine .bind (h.evaluate hvalue) fun l₂ hl₂ b b' hb => ?_
      have hc := hc.grow hl₂
      -- a setter comes before the field, and both classes have it or neither
      have hmember := hc.methods (setterName name.lexeme)
      rw [hname.lexeme]
      dsimp only
      generalize c.findMethod (setterName name.lexeme) = f at hmember ⊢
      generalize c'.findMethod (setterName name.lexeme) = f' at hmember ⊢
      cases hmember with
      | some hf =>
        refine .bind (.bind' hf (.object id hc)) fun l₃ hl₃ g g' hg => ?_
        refine .bind (h.invoke hg (.cons (hb.grow hl₃) .nil)) fun l₄ hl₄ _ _ _ => ?_
        exact .pure fun l₅ hl₅ => ((hb.grow hl₃).grow hl₄).grow hl₅
      | none =>
        refine .bind (.modifyStore fun l₃ hl₃ s s' hs => ?_) fun l₃ hl₃ _ _ _ => ?_
        · exact hs.setField rfl name.lexeme (hb.grow hl₃)
        · exact .pure fun l₄ hl₄ => (hb.grow hl₃).grow hl₄
    | _ => exact .fail .noFields hname
  | functionLiteral hd =>
    exact .closureHere hd fun l₁ _ g g' hg _ => .pure fun l₂ hl₂ => .function (hg.grow hl₂)

theorem evaluateOption_succ {e e' : Option Expr} (he : Alike v marks (.optional e) (.optional e')) :
    Exec.Twin v l marks (Value.Twin v) (Eval.evaluateOption (fuel + 1) e)
      (Eval.evaluateOption (fuel + 1) e') := by
  cases he with
  | absent => exact .pure fun _ _ => .nil
  | present he => exact h.evaluate he

theorem evaluateAll_succ {es es' : List Expr}
    (hes : Alike v marks (.expressions es) (.expressions es')) :
    Exec.Twin v l marks (fun l' => List.Forall₂ (Value.Twin v l')) (Eval.evaluateAll (fuel + 1) es)
      (Eval.evaluateAll (fuel + 1) es') := by
  cases hes with
  | noExpressions => exact .pure fun _ _ => .nil
  | nextExpression he hes =>
    refine .bind (h.evaluate he) fun l₁ _ a a' ha => ?_
    exact .bind (h.evaluateAll hes) fun l₂ hl₂ values values' hvalues =>
      .pure fun l₃ hl₃ =>
        .cons ((ha.grow hl₂).grow hl₃) (hvalues.imp fun _ _ hv => hv.grow hl₃)

/-! ## Members and calls -/

theorem asProperty_succ {f f' : Function} (hf : f.Twin v l [] f') :
    Exec.Twin v l marks (Value.Twin v) (Eval.asProperty (fuel + 1) f)
      (Eval.asProperty (fuel + 1) f') := by
  unfold Eval.asProperty
  rw [hf.kind]
  split
  next => exact h.invoke hf .nil
  next => exact .pure fun l₁ hl₁ => .function (hf.grow hl₁)

theorem objectProperty_succ {o o' : Object} {name name' : Token} (hid : o'.id = o.id)
    (hc : o.cls.Twin v l o'.cls) (hname : v.Keeps name name') :
    Exec.Twin v l marks (Value.Twin v) (Eval.objectProperty (fuel + 1) o name)
      (Eval.objectProperty (fuel + 1) o' name') := by
  obtain ⟨id, c⟩ := o
  obtain ⟨id', c'⟩ := o'
  obtain rfl : id' = id := hid
  refine .get fun l₁ hl₁ m m' hm hmarks => ?_
  replace hc := hc.grow hl₁
  have hfield := hm.store.fields ⟨id', c⟩ ⟨id', c'⟩ rfl name.lexeme
  have hmethod := hc.methods name.lexeme
  have hclassMethod := hc.classMethods name.lexeme
  rw [hname.lexeme]
  dsimp only
  generalize m.store.field? ⟨id', c⟩ name.lexeme = value at hfield ⊢
  generalize m'.store.field? ⟨id', c'⟩ name.lexeme = value' at hfield ⊢
  generalize c.findMethod name.lexeme = f at hmethod ⊢
  generalize c'.findMethod name.lexeme = f' at hmethod ⊢
  generalize c.findClassMethod name.lexeme = k at hclassMethod ⊢
  generalize c'.findClassMethod name.lexeme = k' at hclassMethod ⊢
  -- fields come before methods and those before class methods, in both objects
  cases hfield with
  | some ha => exact .pure fun l₂ hl₂ => ha.grow hl₂
  | none =>
    cases hmethod with
    | some hf => exact .bind (.bind' hf (.object id' hc)) fun l₂ _ g g' hg => h.asProperty hg
    | none =>
      cases hclassMethod with
      | some hf =>
        exact .bind (.bind' hf (.cls hc)) fun l₂ _ g g' hg =>
          .pure fun l₃ hl₃ => .function (hg.grow hl₃)
      | none => exact .fail .undefinedProperty hname

theorem call_succ {callee callee' : Value} {paren paren' : Token}
    {arguments arguments' : List Value} (hcallee : callee.Twin v l callee')
    (hparen : v.Keeps paren paren')
    (harguments : List.Forall₂ (Value.Twin v l) arguments arguments') :
    Exec.Twin v l marks (Value.Twin v) (Eval.call (fuel + 1) callee paren arguments)
      (Eval.call (fuel + 1) callee' paren' arguments') := by
  cases hcallee with
  | native n serial => exact .callNative n hparen harguments
  | function hf => exact h.invoke hf harguments
  | @cls c c' hc =>
    refine .bind (.newObject hc) fun l₁ hl₁ o o' ho => ?_
    have hinitializer := (hc.grow hl₁).methods initializerName
    unfold Class.initializer?
    generalize c.findMethod initializerName = f at hinitializer ⊢
    generalize c'.findMethod initializerName = f' at hinitializer ⊢
    cases hinitializer with
    | none => exact .pure fun l₂ hl₂ => ho.grow hl₂
    | some hf =>
      refine .bind (.bind' hf ho) fun l₂ hl₂ g g' hg => ?_
      refine .bind (h.invoke hg (harguments.imp fun _ _ ha => (ha.grow hl₁).grow hl₂))
        fun l₃ hl₃ _ _ _ => ?_
      exact .pure fun l₄ hl₄ => ((ho.grow hl₂).grow hl₃).grow hl₄
  | _ => exact .fail .notCallable hparen

theorem invoke_succ {f f' : Function} {arguments arguments' : List Value}
    (hf : f.Twin v l [] f') (harguments : List.Forall₂ (Value.Twin v l) arguments arguments') :
    Exec.Twin v l marks (Value.Twin v) (Eval.invoke (fuel + 1) f arguments)
      (Eval.invoke (fuel + 1) f' arguments') := by
  obtain ⟨around, haround, halike⟩ := hf.alike
  -- the frame of the call lies in the one the function was made in, with the mark of its own scope
  have hbody : ∃ mark,
      List.Forall₂ (v.Names mark) f.declaration.parameters f'.declaration.parameters ∧
        Alike v (mark :: around) (.statements f.declaration.body)
          (.statements f'.declaration.body) := by
    generalize f.declaration = d at halike
    generalize f'.declaration = d' at halike
    cases halike with
    | parts mark _ _ hparameters hbody => exact ⟨mark, hparameters, hbody⟩
  obtain ⟨mark, hparameters, hbody⟩ := hbody
  unfold Eval.invoke
  rw [hf.closure]
  refine .bind (.newFrame haround mark) fun l₁ hl₁ frame frame' hframe => ?_
  obtain ⟨rfl, hframe⟩ := hframe
  refine .bind (.bindParameters hframe hf.kind hparameters
    (harguments.imp fun _ _ ha => ha.grow hl₁)) fun l₂ hl₂ _ _ _ => ?_
  refine .bind (.within (Layout.grow hl₂ hframe) (h.executeAll hbody))
    fun l₃ hl₃ flow flow' hflow => ?_
  exact .callResult (((hf.grow hl₁).grow hl₂).grow hl₃) hflow

end Follows

/-- Parts that are alike do the same in two runs, with whatever fuel. -/
theorem follows (v : Variation) (fuel : Nat) : Follows v fuel := by
  induction fuel with
  | zero => exact .zero
  | succ fuel ih =>
    exact ⟨ih.execute_succ, ih.executeAll_succ, ih.repeatLoop_succ, ih.superclassClause_succ,
      ih.evaluate_succ, ih.evaluateOption_succ, ih.evaluateAll_succ, ih.asProperty_succ,
      ih.objectProperty_succ, ih.call_succ, ih.invoke_succ⟩

/-- Programs that are alike do the same in two runs. -/
theorem interpret_twin {l : Layout} {marks : List Bool} (fuel : Nat) {ss ss' : List Stmt}
    (h : Alike v marks (.statements ss) (.statements ss')) :
    Exec.Twin v l marks (fun _ _ _ => True) (Eval.interpret fuel ss) (Eval.interpret fuel ss') := by
  induction ss generalizing l ss' with
  | nil =>
    cases h
    exact .pure fun _ _ => trivial
  | cons s ss ih =>
    cases h with
    | nextStatement hs hss =>
      exact .bind ((follows v fuel).execute hs) fun l₁ _ _ _ _ => ih hss

/-- Expressions that are alike are evaluated and written alike. -/
theorem interpretExpression_twin {l : Layout} {marks : List Bool} (fuel : Nat) {e e' : Expr}
    (h : Alike v marks (.expression e) (.expression e')) :
    Exec.Twin v l marks (Value.Twin v) (Eval.interpretExpression fuel e)
      (Eval.interpretExpression fuel e') := by
  refine .bind ((follows v fuel).evaluate h) fun l₁ _ a a' ha => ?_
  exact .bind (.writeLine ha) fun l₂ hl₂ _ _ _ => .pure fun l₃ hl₃ => (ha.grow hl₂).grow hl₃

end Lox
