import Lox.Proofs.Lowered.Rounds

/-!
# Evaluation with loops written out

Parts of a program and the same with some loops written out do the same when they are run: from
machines that hold the same they give the same, fail with the same cause, or the run that is
followed gives out. The induction is on the fuel of the second run. All steps take one unit from
both, but for a loop that is written out: a round of it goes through a block, a row of statements
and the increment as a statement.
-/

namespace Lox

open Eval Exec

variable {r : Runs} {fuel fuel' : Nat}

namespace Runs

variable {n n' : Nat}

/-- Where the first run is followed, the second has three times the fuel. -/
theorem covered_first (hr : r.followed = .first) : r.Covered n n' ↔ 3 * n ≤ n' := by
  unfold Covered
  rw [hr]

/-- Where the second run is followed, the first has as much fuel at least. -/
theorem covered_second (hr : r.followed = .second) : r.Covered n n' ↔ n' ≤ n := by
  unfold Covered
  rw [hr]

/-- What is left after a step of both runs. -/
theorem Covered.succ (h : r.Covered (n + 1) (n' + 1)) :
    r.followed = .first ∧ 3 * n + 2 ≤ n' ∨ r.followed = .second ∧ n' ≤ n := by
  cases hr : r.followed with
  | first => exact .inl ⟨rfl, by have := (covered_first hr).mp h; omega⟩
  | second => exact .inr ⟨rfl, Nat.le_of_succ_le_succ ((covered_second hr).mp h)⟩

/-- Up to two more steps of the second run leave it enough fuel. -/
theorem Covered.pred (h : r.Covered (n + 1) (n' + 1)) {left : Nat} (hleft : left ≤ n')
    (hsteps : n' ≤ left + 2) : r.Covered n left := by
  rcases h.succ with ⟨hr, hle⟩ | ⟨hr, hle⟩
  · exact (covered_first hr).mpr (by omega)
  · exact (covered_second hr).mpr (Nat.le_trans hleft hle)

end Runs

/-- What the first computation gives has the property. -/
theorem Exec.Lowered.yields {α : Type} {w : FrameMap} {shape : Shape} {R : FrameMap → α → α → Prop}
    {P : α → Prop} {x x' : Exec α} (h : Exec.Lowered r w shape R x x') (hx : x.Yields P) :
    Exec.Lowered r w shape (fun w' a a' => R w' a a' ∧ P a) x x' := by
  intro w₁ hw₁ m m' hm hcurrent
  have hend := h w₁ hw₁ m m' hm hcurrent
  have hgives := hx m
  generalize x m = result at hend hgives ⊢
  generalize x' m' = result' at hend ⊢
  cases hend with
  | ok w₂ hw₂ hm₂ hc hc' ha => exact .ok w₂ hw₂ hm₂ hc hc' ⟨ha, hgives _ _ rfl⟩
  | fault w₂ hw₂ hm₂ hc hc' he => exact .fault w₂ hw₂ hm₂ hc hc' he
  | first hr => exact .first hr
  | second hr => exact .second hr

/-- A row of just one expression. -/
theorem Eval.executeAll_expression (fuel : Nat) (e : Expr) :
    Eval.executeAll (fuel + 2) [.expression e] =
      Eval.evaluate fuel e >>= fun _ => pure Flow.normal := by
  rw [Eval.executeAll, Eval.execute, bind_assoc]
  rfl

/-- With so much fuel, parts do the same in two runs. -/
structure Keeps (r : Runs) (fuel fuel' : Nat) : Prop where
  execute : ∀ {w : FrameMap} {shape : Shape} {s s' : Stmt},
    Lowers r.links shape (.statement s) (.statement s') →
    Exec.Lowered r w shape (Flow.Lowered r) (Eval.execute fuel s) (Eval.execute fuel' s')
  executeAll : ∀ {w : FrameMap} {shape : Shape} {ss ss' : List Stmt},
    Lowers r.links shape (.statements ss) (.statements ss') →
    Exec.Lowered r w shape (Flow.Lowered r) (Eval.executeAll fuel ss) (Eval.executeAll fuel' ss')
  repeatLoop : ∀ {w : FrameMap} {shape : Shape} {condition condition' : Expr} {body body' : Stmt}
    {increment increment' : Option Expr},
    Lowers r.links shape (.expression condition) (.expression condition') →
    Lowers r.links shape (.statement body) (.statement body') →
    Lowers r.links shape (.optional increment) (.optional increment') →
    Exec.Lowered r w shape (Flow.Lowered r) (Eval.repeatLoop fuel condition body increment)
      (Eval.repeatLoop fuel' condition' body' increment')
  repeatRounds : ∀ {w : FrameMap} {shape : Shape} {condition condition' : Expr} {body body' : Stmt}
    {increment increment' : Option Expr}, body.continues = false →
    Lowers r.links shape (.expression condition) (.expression condition') →
    Lowers r.links (false :: shape) (.statement body) (.statement body') →
    Lowers r.links (false :: shape) (.optional increment) (.optional increment') →
    Exec.Lowered r w shape (Flow.Lowered r) (Eval.repeatLoop fuel condition body increment)
      (Eval.repeatLoop fuel' condition' (body'.round increment') none)
  superclassClause : ∀ {w : FrameMap} {shape : Shape} {d d' : ClassDecl},
    Lowers r.links shape (.statement (.classDecl d)) (.statement (.classDecl d')) →
    Exec.Lowered r w shape
      (fun w' c c' => Option.Rel (Class.Lowered r.links w') c c' ∧ c.isSome = d.superclass.isSome)
      (Eval.superclassClause fuel d) (Eval.superclassClause fuel' d')
  evaluate : ∀ {w : FrameMap} {shape : Shape} {e e' : Expr},
    Lowers r.links shape (.expression e) (.expression e') →
    Exec.Lowered r w shape (Value.Lowered r.links) (Eval.evaluate fuel e) (Eval.evaluate fuel' e')
  evaluateOption : ∀ {w : FrameMap} {shape : Shape} {e e' : Option Expr},
    Lowers r.links shape (.optional e) (.optional e') →
    Exec.Lowered r w shape (Value.Lowered r.links) (Eval.evaluateOption fuel e)
      (Eval.evaluateOption fuel' e')
  evaluateAll : ∀ {w : FrameMap} {shape : Shape} {es es' : List Expr},
    Lowers r.links shape (.expressions es) (.expressions es') →
    Exec.Lowered r w shape (fun w' => List.Forall₂ (Value.Lowered r.links w'))
      (Eval.evaluateAll fuel es) (Eval.evaluateAll fuel' es')
  asProperty : ∀ {w : FrameMap} {shape : Shape} {f f' : Function}, f.Lowered r.links w [] f' →
    Exec.Lowered r w shape (Value.Lowered r.links) (Eval.asProperty fuel f)
      (Eval.asProperty fuel' f')
  objectProperty : ∀ {w : FrameMap} {shape : Shape} {o o' : Object} {name name' : Token},
    o'.id = o.id → o.cls.Lowered r.links w o'.cls → name.Same name' →
    Exec.Lowered r w shape (Value.Lowered r.links) (Eval.objectProperty fuel o name)
      (Eval.objectProperty fuel' o' name')
  call : ∀ {w : FrameMap} {shape : Shape} {callee callee' : Value} {paren paren' : Token}
    {arguments arguments' : List Value},
    callee.Lowered r.links w callee' → paren.Same paren' →
    List.Forall₂ (Value.Lowered r.links w) arguments arguments' →
    Exec.Lowered r w shape (Value.Lowered r.links) (Eval.call fuel callee paren arguments)
      (Eval.call fuel' callee' paren' arguments')
  invoke : ∀ {w : FrameMap} {shape : Shape} {f f' : Function} {arguments arguments' : List Value},
    f.Lowered r.links w [] f' → List.Forall₂ (Value.Lowered r.links w) arguments arguments' →
    Exec.Lowered r w shape (Value.Lowered r.links) (Eval.invoke fuel f arguments)
      (Eval.invoke fuel' f' arguments')

/-- Without fuel the run that is followed ends at once. -/
theorem Keeps.spent (h : r.followed = .first ∧ fuel = 0 ∨ r.followed = .second ∧ fuel' = 0) :
    Keeps r fuel fuel' := by
  rcases h with ⟨hr, rfl⟩ | ⟨hr, rfl⟩
  · constructor <;> intros <;> exact .spent (.inl ⟨hr, rfl⟩)
  · constructor <;> intros <;> exact .spent (.inr ⟨hr, rfl⟩)

namespace Keeps

variable {w : FrameMap} {shape : Shape}

/-- A condition is decided in the same way. -/
theorem decided (h : Keeps r fuel fuel') {α : Type} {R : FrameMap → α → α → Prop}
    {condition condition' : Expr}
    (hcondition : Lowers r.links shape (.expression condition) (.expression condition'))
    {x x' y y' : Exec α} (hx : Exec.Lowered r w shape R x x')
    (hy : Exec.Lowered r w shape R y y') :
    Exec.Lowered r w shape R
      (Eval.evaluate fuel condition >>= fun value => if value.isTruthy then x else y)
      (Eval.evaluate fuel' condition' >>= fun value => if value.isTruthy then x' else y') := by
  refine .bind (h.evaluate hcondition) fun w₁ hw₁ a a' ha => ?_
  rw [Value.Like.isTruthy ha]
  split
  next => exact hx.grow hw₁
  next => exact hy.grow hw₁

/-! ## Rounds -/

section Round

variable (h : ∀ n n', n' ≤ fuel' → r.Covered n n' → Keeps r n n')
  (hfuel : r.Covered (fuel + 1) (fuel' + 1))

include h hfuel

/-- The increment of a round, which is the last of a row of statements in the second run. -/
theorem increment_round {n' : Nat} (hn' : n' + 2 = fuel') {increment increment' : Option Expr}
    (hincrement : Lowers r.links shape (.optional increment) (.optional increment')) :
    Exec.Lowered r w shape (Flow.Lowered r)
      (Eval.evaluateOption fuel increment >>= fun _ => pure Flow.normal)
      (Eval.executeAll n' (increment'.map Stmt.expression).toList) := by
  subst hn'
  -- whichever run is followed, it runs out of fuel or the other one has enough for the increment
  rcases hfuel.succ with ⟨hr, hle⟩ | ⟨hr, hle⟩
  · rcases fuel with _ | n
    · exact .spent (.inl ⟨hr, rfl⟩)
    obtain ⟨m, rfl⟩ : ∃ m, n' = m + 2 := ⟨n' - 2, by omega⟩
    cases hincrement with
    | absent => exact .pure fun _ _ => .normal
    | present he =>
      have hkeeps := h n m (by omega) ((Runs.covered_first hr).mpr (by omega))
      exact executeAll_expression m _ ▸
        .bind (hkeeps.evaluate he) fun _ _ _ _ _ => .pure fun _ _ => .normal
  · rcases n' with _ | _ | m
    · exact .spent (.inr ⟨hr, rfl⟩)
    · cases hincrement with
      | absent =>
        obtain ⟨n, rfl⟩ : ∃ n, fuel = n + 1 := ⟨fuel - 1, by omega⟩
        exact .pure fun _ _ => .normal
      | present => exact .spent (.inr ⟨hr, rfl⟩)
    obtain ⟨n, rfl⟩ : ∃ n, fuel = n + 1 := ⟨fuel - 1, by omega⟩
    cases hincrement with
    | absent => exact .pure fun _ _ => .normal
    | present he =>
      have hkeeps := h n m (by omega) ((Runs.covered_second hr).mpr (by omega))
      exact executeAll_expression m _ ▸
        .bind (hkeeps.evaluate he) fun _ _ _ _ _ => .pure fun _ _ => .normal

/-- A round in the first run and the block for it in the second one. -/
theorem oneRound {body body' : Stmt} {increment increment' : Option Expr}
    (hcontinues : body.continues = false)
    (hbody : Lowers r.links (false :: shape) (.statement body) (.statement body'))
    (hincrement : Lowers r.links (false :: shape) (.optional increment) (.optional increment')) :
    Exec.Lowered r w shape (Flow.Lowered r) (Eval.oneRound fuel body increment)
      (Eval.execute fuel' (body'.round increment')) := by
  by_cases hleft : ∃ n', fuel' = n' + 2
  · obtain ⟨n', rfl⟩ := hleft
    have hkeeps : Keeps r fuel n' :=
      h fuel n' (by omega) (hfuel.pred (by omega) (Nat.le_refl _))
    refine .round (.bind ((hkeeps.execute hbody).yields (execute_continues fuel body))
      fun w₁ _ flow flow' ⟨hflow, hcontinue⟩ => ?_)
    rw [hcontinues] at hcontinue
    cases hflow with
    | normal => exact increment_round h hfuel rfl hincrement
    | breakLoop => exact .pure fun _ _ => .breakLoop
    | continueLoop => cases hcontinue rfl
    | returned ha => exact .pure fun w₂ hw₂ => .returned (Value.Lowered.grow ha hw₂)
  · -- the second run has not even the fuel for the block and the row of statements in it
    rcases hfuel.succ with ⟨hr, hle⟩ | ⟨hr, hle⟩
    · exact absurd ⟨fuel' - 2, by omega⟩ hleft
    · rcases fuel' with _ | _ | n'
      · exact .spent (.inr ⟨hr, rfl⟩)
      · exact .round (.spent (.inr ⟨hr, rfl⟩))
      · exact absurd ⟨n', rfl⟩ hleft

/-- One round more of a loop, against the same round in a block. -/
theorem repeatRounds_succ {condition condition' : Expr} {body body' : Stmt}
    {increment increment' : Option Expr} (hcontinues : body.continues = false)
    (hcondition : Lowers r.links shape (.expression condition) (.expression condition'))
    (hbody : Lowers r.links (false :: shape) (.statement body) (.statement body'))
    (hincrement : Lowers r.links (false :: shape) (.optional increment) (.optional increment')) :
    Exec.Lowered r w shape (Flow.Lowered r) (Eval.repeatLoop (fuel + 1) condition body increment)
      (Eval.repeatLoop (fuel' + 1) condition' (body'.round increment') none) := by
  rw [repeatLoop_rounds]
  rcases fuel' with _ | n'
  · rcases hfuel.succ with ⟨hr, hle⟩ | ⟨hr, -⟩
    · exact absurd hle (by omega)
    · exact .spent (.inr ⟨hr, rfl⟩)
  have hkeeps : Keeps r fuel (n' + 1) :=
    h fuel (n' + 1) (Nat.le_refl _) (hfuel.pred (Nat.le_refl _) (by omega))
  have hagain {w : FrameMap} : Exec.Lowered r w shape (Flow.Lowered r)
      (Eval.repeatLoop fuel condition body increment)
      (Eval.repeatLoop (n' + 1) condition' (body'.round increment') none) :=
    hkeeps.repeatRounds hcontinues hcondition hbody hincrement
  refine hkeeps.decided hcondition ?_ (.pure fun _ _ => .normal)
  refine .bind (oneRound h hfuel hcontinues hbody hincrement) fun w₁ _ flow flow' hflow => ?_
  cases hflow with
  | breakLoop => exact .pure fun _ _ => .normal
  | returned ha => exact .pure fun w₂ hw₂ => .returned (Value.Lowered.grow ha hw₂)
  | normal | continueLoop => exact hagain

end Round

section Succ

variable (h : Keeps r fuel fuel')

include h

/-! ## Statements -/

/-- Statements do the same with one more unit of fuel. -/
theorem execute_succ {s s' : Stmt} (hs : Lowers r.links shape (.statement s) (.statement s')) :
    Exec.Lowered r w shape (Flow.Lowered r) (Eval.execute (fuel + 1) s)
      (Eval.execute (fuel' + 1) s') := by
  have hnormal (w : FrameMap) :
      Exec.Lowered r w shape (Flow.Lowered r) (pure Flow.normal) (pure Flow.normal) :=
    .pure fun _ _ => .normal
  cases hs with
  | block hbody =>
    exact .bind .innerFrame fun w₁ hw₁ frame frame' hframe => .within hframe (h.executeAll hbody)
  | breakLoop => exact .pure fun _ _ => .breakLoop
  | continueLoop => exact .pure fun _ _ => .continueLoop
  | empty => exact hnormal w
  | expressionStatement hvalue =>
    exact .bind (h.evaluate hvalue) fun w₁ _ _ _ _ => hnormal w₁
  | functionDecl hshared hd =>
    refine .closureHere hd fun w₁ hw₁ g g' hg _ => ?_
    rw [hg.seen.name?]
    exact .bind (.define hshared _ (.function hg) false) fun w₂ _ _ _ _ => hnormal w₂
  | conditional hcondition htrue hfalse =>
    refine h.decided hcondition (h.execute htrue) ?_
    cases hfalse with
    | noOtherwise => exact hnormal w
    | someOtherwise hs => exact h.execute hs
  | input hkeyword htarget =>
    exact .bind (.input hkeyword htarget) fun w₁ _ _ _ _ => hnormal w₁
  | print hkeyword hvalue =>
    refine .bind (h.evaluate hvalue) fun w₁ _ a a' ha => ?_
    exact .bind (.print hkeyword ha) fun w₂ _ _ _ _ => hnormal w₂
  | returnValue hkeyword hvalue =>
    exact .bind (h.evaluateOption hvalue) fun w₁ _ a a' ha =>
      .pure fun w₂ hw₂ => .returned (Value.Lowered.grow ha hw₂)
  | constant hshared hname hvalue =>
    refine .bind (h.evaluate hvalue) fun w₁ _ a a' ha => ?_
    rw [hname.lexeme]
    exact .bind (.define hshared _ ha false) fun w₂ _ _ _ _ => hnormal w₂
  | var hshared hname hvalue =>
    refine .bind (h.evaluateOption hvalue) fun w₁ _ a a' ha => ?_
    rw [hname.lexeme]
    exact .bind (.define hshared _ ha true) fun w₂ _ _ _ _ => hnormal w₂
  | loop hcondition hbody hincrement => exact h.repeatLoop hcondition hbody hincrement
  | rounds hcontinues hcondition hbody hincrement =>
    exact h.repeatRounds hcontinues hcondition hbody hincrement
  | classDecl hshared hname hsuperclass hmethods hclassMethods hgetters hsetters =>
    have hd := Lowers.classDecl hshared hname hsuperclass hmethods hclassMethods hgetters hsetters
    refine .bind (h.superclassClause hd) fun w₁ _ c c' hc => ?_
    exact .bind (.declareClass hd hc.1 hc.2) fun w₂ _ _ _ _ => hnormal w₂

/-- Statements in a row do the same, and stop at the same one. -/
theorem executeAll_succ {ss ss' : List Stmt}
    (hss : Lowers r.links shape (.statements ss) (.statements ss')) :
    Exec.Lowered r w shape (Flow.Lowered r) (Eval.executeAll (fuel + 1) ss)
      (Eval.executeAll (fuel' + 1) ss') := by
  cases hss with
  | noStatements => exact .pure fun _ _ => .normal
  | nextStatement hs hss =>
    refine .bind (h.execute hs) fun w₁ _ flow flow' hflow => ?_
    cases hflow with
    | normal => exact h.executeAll hss
    | breakLoop => exact .pure fun _ _ => .breakLoop
    | continueLoop => exact .pure fun _ _ => .continueLoop
    | returned ha => exact .pure fun w₂ hw₂ => .returned (Value.Lowered.grow ha hw₂)

/-- A loop that is not written out does the same. -/
theorem repeatLoop_succ {condition condition' : Expr} {body body' : Stmt}
    {increment increment' : Option Expr}
    (hcondition : Lowers r.links shape (.expression condition) (.expression condition'))
    (hbody : Lowers r.links shape (.statement body) (.statement body'))
    (hincrement : Lowers r.links shape (.optional increment) (.optional increment')) :
    Exec.Lowered r w shape (Flow.Lowered r) (Eval.repeatLoop (fuel + 1) condition body increment)
      (Eval.repeatLoop (fuel' + 1) condition' body' increment') := by
  have hagain (w : FrameMap) : Exec.Lowered r w shape (Flow.Lowered r)
      (Eval.evaluateOption fuel increment >>= fun _ =>
        Eval.repeatLoop fuel condition body increment)
      (Eval.evaluateOption fuel' increment' >>= fun _ =>
        Eval.repeatLoop fuel' condition' body' increment') :=
    .bind (h.evaluateOption hincrement) fun _ _ _ _ _ =>
      h.repeatLoop hcondition hbody hincrement
  refine h.decided hcondition ?_ (.pure fun _ _ => .normal)
  refine .bind (h.execute hbody) fun w₁ _ flow flow' hflow => ?_
  cases hflow with
  | breakLoop => exact .pure fun _ _ => .normal
  | returned ha => exact .pure fun w₂ hw₂ => .returned (Value.Lowered.grow ha hw₂)
  | normal => exact hagain w₁
  | continueLoop => exact hagain w₁

/-- The clause of a superclass does the same. -/
theorem superclassClause_succ {d d' : ClassDecl}
    (hd : Lowers r.links shape (.statement (.classDecl d)) (.statement (.classDecl d'))) :
    Exec.Lowered r w shape
      (fun w' c c' => Option.Rel (Class.Lowered r.links w') c c' ∧ c.isSome = d.superclass.isSome)
      (Eval.superclassClause (fuel + 1) d) (Eval.superclassClause (fuel' + 1) d') := by
  cases hd with
  | classDecl _ hname hsuperclass =>
    cases hsuperclass with
    | absent => exact .pure fun _ _ => ⟨.none, rfl⟩
    | present hclause =>
      refine .bind (h.evaluate hclause) fun w₁ _ a a' ha => ?_
      exact .bind (.superclassOf hname hclause ha) fun w₂ _ c c' hc =>
        .pure fun w₃ hw₃ => ⟨.some (Class.Lowered.grow hc hw₃), rfl⟩

/-! ## Expressions -/

/-- Expressions do the same with one more unit of fuel. -/
theorem evaluate_succ {e e' : Expr}
    (he : Lowers r.links shape (.expression e) (.expression e')) :
    Exec.Lowered r w shape (Value.Lowered r.links) (Eval.evaluate (fuel + 1) e)
      (Eval.evaluate (fuel' + 1) e') := by
  cases he with
  | literal value =>
    refine .pure fun _ _ => ?_
    cases value <;> constructor
  | name hlink hname => exact .lookUp hlink hname
  | assign hlink hname hvalue =>
    refine .bind (h.evaluate hvalue) fun w₁ _ a a' ha => ?_
    exact .bind (.assign hlink hname ha) fun w₂ hw₂ _ _ _ =>
      .pure fun w₃ hw₃ => Value.Lowered.grow ha (hw₂.trans hw₃)
  | receiver hlink hname => exact .lookUp hlink hname
  | inherited hlink hkeyword hmethod =>
    exact .bind (.inheritedMember hlink hkeyword hmethod) fun w₁ _ f f' hf => h.asProperty hf
  | group hinner => exact h.evaluate hinner
  | unary hoperator hoperand =>
    refine .bind (h.evaluate hoperand) fun w₁ _ a a' ha => ?_
    rw [hoperator.kind]
    exact .ofExcept hoperator (Value.Like.unary ha _)
  | binary hleft hoperator hright =>
    refine .bind (h.evaluate hleft) fun w₁ _ a a' ha => ?_
    refine .bind (h.evaluate hright) fun w₂ hw₂ b b' hb => ?_
    rw [hoperator.kind]
    exact .ofExcept hoperator
      (Value.Like.binary (fun _ _ hf => hf.seen) (Value.Lowered.grow ha hw₂) hb _)
  | logical hleft hoperator hright =>
    refine .bind (h.evaluate hleft) fun w₁ _ a a' ha => ?_
    rw [hoperator.kind, Value.Like.decides ha]
    split
    next => exact .pure fun w₂ hw₂ => Value.Lowered.grow ha hw₂
    next => exact h.evaluate hright
  | choice hcondition htrue hfalse =>
    exact h.decided hcondition (h.evaluate htrue) (h.evaluate hfalse)
  | call hcallee hparen harguments =>
    refine .bind (h.evaluate hcallee) fun w₁ _ a a' ha => ?_
    refine .bind (h.evaluateAll harguments) fun w₂ hw₂ values values' hvalues => ?_
    rw [Value.Like.arity? (fun _ _ hf => hf.seen) (fun _ _ hf => hf.seen) ha,
      ← hvalues.length_eq]
    cases a.arity? with
    | none => exact .fail .notCallable hparen
    | some arity =>
      dsimp only
      split
      next => exact .fail _ hparen
      next => exact h.call (Value.Lowered.grow ha hw₂) hparen hvalues
  | get hobject hname =>
    refine .bind (h.evaluate hobject) fun w₁ _ a a' ha => ?_
    cases ha with
    | object id hc => exact h.objectProperty rfl hc hname
    | cls hc => exact .classProperty hc hname
    | _ => exact .fail .noProperties hname
  | @set _ _ _ _ _ name name' hobject hname hvalue =>
    refine .bind (h.evaluate hobject) fun w₁ _ a a' ha => ?_
    cases ha with
    | @object id c c' hc =>
      refine .bind (h.evaluate hvalue) fun w₂ hw₂ b b' hb => ?_
      have hc := Class.Lowered.grow hc hw₂
      -- a setter comes before the field, and both classes have it or neither
      have hmember := hc.methods (setterName name.lexeme)
      rw [hname.lexeme]
      dsimp only
      generalize c.findMethod (setterName name.lexeme) = f at hmember ⊢
      generalize c'.findMethod (setterName name.lexeme) = f' at hmember ⊢
      cases hmember with
      | some hf =>
        refine .bind (.bind' hf (.object id hc)) fun w₃ hw₃ g g' hg => ?_
        have hb₃ := Value.Lowered.grow hb hw₃
        refine .bind (h.invoke hg (.cons hb₃ .nil)) fun w₄ hw₄ _ _ _ => ?_
        exact .pure fun w₅ hw₅ => Value.Lowered.grow hb₃ (hw₄.trans hw₅)
      | none =>
        refine .bind (.modifyStore fun w₃ hw₃ s s' hs => ?_) fun w₃ hw₃ _ _ _ => ?_
        · exact hs.setField rfl name.lexeme (Value.Lowered.grow hb hw₃)
        · exact .pure fun w₄ hw₄ => Value.Lowered.grow hb (hw₃.trans hw₄)
    | _ => exact .fail .noFields hname
  | functionLiteral hd =>
    exact .closureHere hd fun w₁ _ g g' hg _ => .pure fun w₂ hw₂ => .function (hg.grow hw₂)

theorem evaluateOption_succ {e e' : Option Expr}
    (he : Lowers r.links shape (.optional e) (.optional e')) :
    Exec.Lowered r w shape (Value.Lowered r.links) (Eval.evaluateOption (fuel + 1) e)
      (Eval.evaluateOption (fuel' + 1) e') := by
  cases he with
  | absent => exact .pure fun _ _ => .nil
  | present he => exact h.evaluate he

/-- Arguments are evaluated alike from left to right. -/
theorem evaluateAll_succ {es es' : List Expr}
    (hes : Lowers r.links shape (.expressions es) (.expressions es')) :
    Exec.Lowered r w shape (fun w' => List.Forall₂ (Value.Lowered r.links w'))
      (Eval.evaluateAll (fuel + 1) es) (Eval.evaluateAll (fuel' + 1) es') := by
  cases hes with
  | noExpressions => exact .pure fun _ _ => .nil
  | nextExpression he hes =>
    refine .bind (h.evaluate he) fun w₁ _ a a' ha => ?_
    exact .bind (h.evaluateAll hes) fun w₂ hw₂ values values' hvalues =>
      .pure fun w₃ hw₃ => .cons (Value.Lowered.grow ha (hw₂.trans hw₃))
        (hvalues.imp fun _ _ hv => Value.Lowered.grow hv hw₃)

/-! ## Members and calls -/

/-- A getter is called in both runs or in neither. -/
theorem asProperty_succ {f f' : Function} (hf : f.Lowered r.links w [] f') :
    Exec.Lowered r w shape (Value.Lowered r.links) (Eval.asProperty (fuel + 1) f)
      (Eval.asProperty (fuel' + 1) f') := by
  unfold Eval.asProperty
  rw [hf.kind]
  split
  next => exact h.invoke hf .nil
  next => exact .pure fun w₁ hw₁ => .function (hf.grow hw₁)

/-- A property of an object is found alike. -/
theorem objectProperty_succ {o o' : Object} {name name' : Token} (hid : o'.id = o.id)
    (hc : o.cls.Lowered r.links w o'.cls) (hname : name.Same name') :
    Exec.Lowered r w shape (Value.Lowered r.links) (Eval.objectProperty (fuel + 1) o name)
      (Eval.objectProperty (fuel' + 1) o' name') := by
  obtain ⟨id, c⟩ := o
  obtain ⟨id', c'⟩ := o'
  obtain rfl : id' = id := hid
  refine .get fun w₁ hw₁ m m' hm hcurrent => ?_
  replace hc := Class.Lowered.grow hc hw₁
  have hfield := hm.store.fields ⟨id', c⟩ ⟨id', c'⟩ rfl name.lexeme
  have hmethod := hc.methods name.lexeme
  have hclassMethod := hc.classMethods name.lexeme
  rw [hname.lexeme]
  dsimp only at hmethod hclassMethod ⊢
  generalize m.store.field? ⟨id', c⟩ name.lexeme = value at hfield ⊢
  generalize m'.store.field? ⟨id', c'⟩ name.lexeme = value' at hfield ⊢
  generalize c.findMethod name.lexeme = f at hmethod ⊢
  generalize c'.findMethod name.lexeme = f' at hmethod ⊢
  generalize c.findClassMethod name.lexeme = k at hclassMethod ⊢
  generalize c'.findClassMethod name.lexeme = k' at hclassMethod ⊢
  -- fields come before methods and those before class methods, in both objects
  cases hfield with
  | some ha => exact .pure fun w₂ hw₂ => Value.Lowered.grow ha hw₂
  | none =>
    cases hmethod with
    | some hf => exact .bind (.bind' hf (.object id' hc)) fun w₂ _ g g' hg => h.asProperty hg
    | none =>
      cases hclassMethod with
      | some hf =>
        exact .bind (.bind' hf (.cls hc)) fun w₂ _ g g' hg =>
          .pure fun w₃ hw₃ => .function (hg.grow hw₃)
      | none => exact .fail .undefinedProperty hname

/-- Calls check their arguments alike and fail alike. -/
theorem call_succ {callee callee' : Value} {paren paren' : Token}
    {arguments arguments' : List Value} (hcallee : callee.Lowered r.links w callee')
    (hparen : paren.Same paren')
    (harguments : List.Forall₂ (Value.Lowered r.links w) arguments arguments') :
    Exec.Lowered r w shape (Value.Lowered r.links) (Eval.call (fuel + 1) callee paren arguments)
      (Eval.call (fuel' + 1) callee' paren' arguments') := by
  cases hcallee with
  | native n serial => exact .callNative n hparen harguments
  | function hf => exact h.invoke hf harguments
  | @cls c c' hc =>
    refine .bind (.newObject hc) fun w₁ hw₁ o o' ho => ?_
    have hinitializer := (Class.Lowered.grow hc hw₁).methods initializerName
    unfold Class.initializer?
    generalize c.findMethod initializerName = f at hinitializer ⊢
    generalize c'.findMethod initializerName = f' at hinitializer ⊢
    cases hinitializer with
    | none => exact .pure fun w₂ hw₂ => Value.Lowered.grow ho hw₂
    | some hf =>
      refine .bind (.bind' hf ho) fun w₂ hw₂ g g' hg => ?_
      refine .bind (h.invoke hg (harguments.imp fun _ _ ha =>
        Value.Lowered.grow ha (hw₁.trans hw₂))) fun w₃ hw₃ _ _ _ => ?_
      exact .pure fun w₄ hw₄ => Value.Lowered.grow ho (hw₂.trans (hw₃.trans hw₄))
  | _ => exact .fail .notCallable hparen

/-- The body of a function runs alike in a frame for its parameters. -/
theorem invoke_succ {f f' : Function} {arguments arguments' : List Value}
    (hf : f.Lowered r.links w [] f')
    (harguments : List.Forall₂ (Value.Lowered r.links w) arguments arguments') :
    Exec.Lowered r w shape (Value.Lowered r.links) (Eval.invoke (fuel + 1) f arguments)
      (Eval.invoke (fuel' + 1) f' arguments') := by
  obtain ⟨around, haround, -, hlowers⟩ := hf.lowers
  -- the frame of the call lies in the one the function was made in, and is one of both runs
  have hbody : List.Forall₂ Token.Same f.declaration.parameters f'.declaration.parameters ∧
      Lowers r.links (true :: around) (.statements f.declaration.body)
        (.statements f'.declaration.body) := by
    generalize f.declaration = d at hlowers
    generalize f'.declaration = d' at hlowers
    cases hlowers with
    | parts _ _ hparameters hbody => exact ⟨hparameters, hbody⟩
  unfold Eval.invoke
  refine .bind (.newFrame haround) fun w₁ hw₁ frame frame' hframe => ?_
  refine .bind (.bindParameters hframe hf.kind hbody.1
    (harguments.imp fun _ _ ha => Value.Lowered.grow ha hw₁)) fun w₂ hw₂ _ _ _ => ?_
  refine .bind (.within (FrameMap.grow hw₂ hframe) (h.executeAll hbody.2))
    fun w₃ hw₃ flow flow' hflow => ?_
  exact .callResult (hf.grow (hw₁.trans (hw₂.trans hw₃))) hflow

end Succ

end Keeps

/-- Parts of a program do the same when loops in them are written out, with enough fuel for the run
that is not followed. -/
theorem keeps (h : r.Covered fuel fuel') : Keeps r fuel fuel' := by
  induction fuel' using Nat.strongRecOn generalizing fuel with
  | ind fuel' ih =>
    rcases fuel with _ | fuel
    · cases hr : r.followed with
      | first => exact .spent (.inl ⟨hr, rfl⟩)
      | second =>
        exact .spent (.inr ⟨hr, Nat.le_zero.mp ((Runs.covered_second hr).mp h)⟩)
    rcases fuel' with _ | fuel'
    · cases hr : r.followed with
      | first =>
        have hle := (Runs.covered_first hr).mp h
        omega
      | second => exact .spent (.inr ⟨hr, rfl⟩)
    have hless (n n' : Nat) (hn : n' ≤ fuel') (hcovered : r.Covered n n') : Keeps r n n' :=
      ih n' (Nat.lt_succ_of_le hn) hcovered
    have hkeeps : Keeps r fuel fuel' :=
      hless fuel fuel' (Nat.le_refl _) (h.pred (Nat.le_refl _) (by omega))
    exact ⟨hkeeps.execute_succ, hkeeps.executeAll_succ, hkeeps.repeatLoop_succ,
      Keeps.repeatRounds_succ hless h, hkeeps.superclassClause_succ, hkeeps.evaluate_succ,
      hkeeps.evaluateOption_succ, hkeeps.evaluateAll_succ, hkeeps.asProperty_succ,
      hkeeps.objectProperty_succ, hkeeps.call_succ, hkeeps.invoke_succ⟩

/-- Programs do the same when loops in them are written out. -/
theorem interpret_lowered {w : FrameMap} {shape : Shape} (h : r.Covered fuel fuel')
    {ss ss' : List Stmt} (hss : Lowers r.links shape (.statements ss) (.statements ss')) :
    Exec.Lowered r w shape (fun _ _ _ => True) (Eval.interpret fuel ss)
      (Eval.interpret fuel' ss') := by
  induction ss generalizing w ss' with
  | nil =>
    cases hss
    exact .pure fun _ _ => trivial
  | cons s ss ih =>
    cases hss with
    | nextStatement hs hss => exact .bind ((keeps h).execute hs) fun w₁ _ _ _ _ => ih hss

end Lox
