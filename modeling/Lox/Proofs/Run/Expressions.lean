import Lox.Proofs.Run.Operators
import Lox.Proofs.Run.Rules

/-!
# Expressions agree with resolving

The layer of every expression meets the contract: the tasks that it starts stand where the walk
comes by next, and what it gives is known.
-/

namespace Lox.Eval

open Exec

variable {around : Surroundings} {r : Run}

/-! ## Steps -/

section Steps

variable {α β : Type} {Q : α → Run → Prop}

/-- What goes on with the machine goes on from it. -/
theorem get_bind (f : Machine → Exec β) (m : Machine) : (get >>= f) m = f m m :=
  rfl

/-- A step that uses a reference and leaves the store alone. -/
theorem refers_meets {x : Exec β} {next : β → Layer α} {spot : Spot} {e : Expr} {site : Site}
    {name : Token} (h : r.Sound) (hs : Standing spot around.frames r (.expression e))
    (he : e.reference? = some (site, name)) (hx : Quiet x)
    (hnext : ∀ b m r', x r.machine = .ok b m → Run.Kept r r' →
      (next b).Meets lexical around Q r') :
    (Layer.step x (.refers e) next).Meets lexical around Q r := by
  exact quiet_meets h hx (hs.mark_agrees h he _) hnext

/-- A lookup gives a known value. -/
theorem lookUp_meets {next : Value → Layer α} {spot : Spot} {e : Expr} {site : Site}
    {name : Token} (h : r.Sound) (hs : Standing spot around.frames r (.expression e))
    (he : e.reference? = some (site, name))
    (hnext : ∀ v r', Run.Kept r r' → r'.KnowsValue v → (next v).Meets lexical around Q r') :
    (Layer.step (lookUp site name) (.refers e) next).Meets lexical around Q r := by
  refine refers_meets h hs he (.lookUp site name) fun v m r' hx hkept => ?_
  rw [lookUp, get_bind] at hx
  cases hvalue : r.machine.lookUp site name.lexeme with
  | none =>
    rw [hvalue] at hx
    cases hx
  | some value =>
    rw [hvalue] at hx
    cases hx
    exact hnext v r' hkept ((h.lookUp_known hvalue).grows hkept.grows)

/-- An assignment of a known value. -/
theorem assign_meets {next : Unit → Layer α} {spot : Spot} {e : Expr} {site : Site} {name : Token}
    {value : Value} (h : r.Sound) (hs : Standing spot around.frames r (.expression e))
    (he : e.reference? = some (site, name)) (hplain : name.Plain) (hvalue : r.KnowsValue value)
    (hnext : ∀ r', Run.Kept r r' → (next ()).Meets lexical around Q r') :
    (Layer.step (assign site name value) (.refers e) next).Meets lexical around Q r := by
  have hmark : (Mark.refers e).Agrees (r.moment around (.refers e)) := hs.mark_agrees h he _
  unfold Layer.Meets observe
  unfold assign
  cases htarget : r.machine.target site name.lexeme with
  | ok frame =>
    have hkept := h.defining around (.refers e) frame true hvalue hplain.ne_super
    exact ⟨hkept.took hmark none, hnext _ (hkept.took hmark none)⟩
  | error fault =>
    exact (h.quiet around (.refers e) (.refl r.machine)).took hmark _

/-- What a line that is typed in stands for is known. -/
theorem knows_typedLine {r' : Run} {keyword : Token} {v : Value} {m m' : Machine}
    (h : (takeLine >>= typedValue keyword) m = .ok v m') : r'.KnowsValue v :=
  .of_bare (typedLine_bare h)

/-- A member is made a method. -/
theorem bind_meets {next : Function → Layer α} (h : r.Sound) {f : Function} {receiver : Value}
    (hf : r.KnowsMember f) (hreceiver : r.KnowsValue receiver)
    (hnext : ∀ f' r', Run.Kept r r' → r'.KnowsFunction f' → f'.declaration = f.declaration →
      (next f').Meets lexical around Q r') :
    (Layer.step (Eval.bind f receiver) (.method f) next).Meets lexical around Q r := by
  obtain ⟨f', m, hx, hkept, hknown, hdeclaration, _⟩ :=
    @bind_kept r around h f hf receiver hreceiver
  refine ok_meets hx (.of_declared (by simp) (by simp [Mark.declared?])) hkept fun h₁ hlogged => ?_
  exact hnext f' _ h₁ (hknown.grows hlogged) hdeclaration

/-- What is found for `super`: a member of the class that is bound to it, and a receiver. -/
theorem inheritedSource_ok {site : Site} {keyword method : Token} {source : Function × Value}
    {m m' : Machine} (h : inheritedSource site keyword method m = .ok source m') :
    ∃ d c, m.store.getAt? m.current d "super" = some (.cls c) ∧
      (c.findMethod method.lexeme = some source.1 ∨
        c.findClassMethod method.lexeme = some source.1) ∧
      source.2 = (m.store.getAt? m.current (d - 1) "this").getD .nil := by
  rw [inheritedSource, get_bind] at h
  cases hd : m.table[site]? with
  | none =>
    rw [hd] at h
    cases h
  | some d =>
    rw [hd] at h
    dsimp only at h
    cases hparent : m.store.getAt? m.current d "super" with
    | none =>
      rw [hparent] at h
      cases h
    | some parent =>
      rw [hparent] at h
      cases parent with
      | cls c =>
        dsimp only at h
        cases hf : (c.findMethod method.lexeme).or (c.findClassMethod method.lexeme) with
        | none =>
          rw [hf] at h
          cases h
        | some f =>
          rw [hf] at h
          cases h
          exact ⟨d, c, hparent, (Option.or_eq_some_iff.mp hf).imp_right And.right, rfl⟩
      | nil | bool b | number n | string t | native n t | function f | object o => cases h

/-- The member that `super` stands for, and its receiver, are known. -/
theorem inherited_meets {next : Function × Value → Layer α} {spot : Spot} {site : Site}
    {keyword method : Token} (h : r.Sound)
    (hs : Standing spot around.frames r (.expression (.inherited site keyword method)))
    (hnext : ∀ source r', Run.Kept r r' → r'.KnowsMember source.1 → r'.KnowsValue source.2 →
      (next source).Meets lexical around Q r') :
    (Layer.step (inheritedSource site keyword method)
      (.refers (.inherited site keyword method)) next).Meets lexical around Q r := by
  refine refers_meets h hs rfl (.inheritedSource site keyword method) fun source m r' hx hkept => ?_
  suffices hknown : r.KnowsMember source.1 ∧ r.KnowsValue source.2 from
    hnext source r' hkept (hknown.1.grows hkept.grows) (hknown.2.grows hkept.grows)
  have hx := inheritedSource_ok hx
  obtain ⟨d, c, hc, hmember, hreceiver⟩ := hx
  have hclass : r.KnowsClass c := h.getAt?_known hc
  refine ⟨?_, hreceiver ▸ h.receiver_known _ _⟩
  rcases hmember with hmember | hmember
  · exact hclass.method _ _ hmember
  · exact hclass.classMethod _ _ hmember

end Steps

variable {Q : Value → Run → Prop}

/-- A member is taken as a method. -/
theorem method_meets (h : r.Sound) {f : Function} {receiver : Value} (hf : r.KnowsMember f)
    (hreceiver : r.KnowsValue receiver)
    (hQ : ∀ v r', Run.Kept r r' → r'.KnowsValue v → Q v r') :
    (Layer.method f receiver).Meets lexical around Q r :=
  bind_meets h hf hreceiver fun f' r' hkept hknown _ => hQ (.function f') r' hkept hknown

/-- A property of a class. -/
theorem classProperty_meets (h : r.Sound) {c : Class} (hc : r.KnowsClass c) (name : Token)
    (hQ : ∀ v r', Run.Kept r r' → r'.KnowsValue v → Q v r') :
    (Layer.classProperty c name).Meets lexical around Q r := by
  unfold Layer.classProperty
  split
  next => exact hQ (.cls c) r (.refl h) hc
  next =>
    split
    next f hf => exact method_meets h (hc.classMethod _ f hf) hc hQ
    next => exact fail_meets h _ _

/-- An assignment to a property: a setter takes the value as its only argument. -/
theorem setProperty_meets (h : r.Sound) {o : Object} (ho : r.KnowsClass o.cls) (name : Token)
    {value : Value} (hvalue : r.KnowsValue value)
    (hQ : ∀ v r', Run.Kept r r' → r'.KnowsValue v → Q v r') :
    (Layer.setProperty o name value).Meets lexical around Q r := by
  unfold Layer.setProperty
  split
  next f hf =>
    refine bind_meets h (ho.method _ f hf) ho fun f' r₁ h₁ hf' hdeclaration => ?_
    have harity : f'.arity = 1 := by
      rw [Function.arity, hdeclaration]
      exact (ho.setter _ f hf).2
    have hknown : r₁.KnowsValue value := hvalue.grows h₁.grows
    refine start_meets ⟨.start, []⟩ h₁.sound ⟨hf', ?_, harity.symm⟩ fun _ r₂ h₂ _ => ?_
    · intro v hv
      rwa [List.mem_singleton.mp hv]
    · exact hQ value r₂ (h₁.trans h₂) (hknown.grows h₂.grows)
  next =>
    have hkept : Run.Kept r (r.stepTo around .nothing
        { r.machine with store := r.machine.store.setField o name.lexeme value }) := by
      have hfirst := h.remembering around .nothing (r.machine.store.setField o name.lexeme value)
      exact hfirst.trans (hfirst.sound.setField (hvalue.grows hfirst.grows))
    refine ok_meets rfl (.of_declared (by simp) (by simp [Mark.declared?])) hkept fun h₁ _ => ?_
    exact hQ value _ h₁ (hvalue.grows h₁.grows)

/-! ## Expressions -/

section Expressions

variable {w : Walk} {ps : List Place}

/-- The layer of an assignment to a variable. -/
theorem assignment_meets {site : Site} {name : Token} {value : Expr} (h : r.Sound)
    (hs : Standing ⟨w, ps⟩ around.frames r (.expression (.assign site name value)))
    (hQ : ∀ v r', Run.Kept r r' → r'.KnowsValue v → Q v r') :
    (Layer.expression (.assign site name value)).Meets lexical around Q r := by
  have htidy : (Expr.assign site name value).Tidy := hs.visited.tidy h
  refine start_meets ⟨w, ps⟩ h (hs.next rfl fun _ => .assignValue) fun v r₁ h₁ hv => ?_
  refine assign_meets h₁.sound (hs.kept h₁) rfl htidy.1 hv fun r₂ h₂ => ?_
  exact hQ v r₂ (h₁.trans h₂) (Run.KnowsValue.grows hv h₂.grows)

/-- The layer of `super`: what is found for it is made a method, and a getter is called. -/
theorem super_meets {site : Site} {keyword method : Token} (h : r.Sound)
    (hs : Standing ⟨w, ps⟩ around.frames r (.expression (.inherited site keyword method)))
    (hQ : ∀ v r', Run.Kept r r' → r'.KnowsValue v → Q v r') :
    (Layer.expression (.inherited site keyword method)).Meets lexical around Q r := by
  refine inherited_meets h hs fun source r₁ h₁ hmember hreceiver => ?_
  refine bind_meets h₁.sound hmember hreceiver fun f r₂ h₂ hf _ => ?_
  refine start_meets ⟨w, ps⟩ h₂.sound hf fun v r₃ h₃ hv => ?_
  exact hQ v r₃ ((h₁.trans h₂).trans h₃) hv

/-- The layer of an operator before its operand. -/
theorem unary_meets {operator : Token} {operand : Expr} (h : r.Sound)
    (hs : Standing ⟨w, ps⟩ around.frames r (.expression (.unary operator operand)))
    (hQ : ∀ v r', Run.Kept r r' → r'.KnowsValue v → Q v r') :
    (Layer.expression (.unary operator operand)).Meets lexical around Q r := by
  refine start_meets ⟨w, ps⟩ h (hs.next rfl fun _ => .unaryOperand) fun v r₁ h₁ hv => ?_
  refine quiet_meets h₁.sound (.ofExcept operator _) .nothing fun b m r₂ hx h₂ => ?_
  refine hQ b r₂ (h₁.trans h₂) ?_
  cases hresult : Value.unary operator.kind v with
  | ok b' =>
    rw [hresult] at hx
    cases hx
    exact knows_unary hresult
  | error cause =>
    rw [hresult] at hx
    cases hx

/-- The layer of an operator between two operands, which are evaluated from the left. -/
theorem binary_meets {left right : Expr} {operator : Token} (h : r.Sound)
    (hs : Standing ⟨w, ps⟩ around.frames r (.expression (.binary left operator right)))
    (hQ : ∀ v r', Run.Kept r r' → r'.KnowsValue v → Q v r') :
    (Layer.expression (.binary left operator right)).Meets lexical around Q r := by
  refine start_meets ⟨w, ps⟩ h (hs.next rfl fun _ => .binaryLeft) fun a r₁ h₁ ha => ?_
  have hright : Standing ⟨left.walk w, ps⟩ around.frames r (.expression right) :=
    hs.next (left.walk_through w).scopes fun _ => .binaryRight
  refine start_meets ⟨left.walk w, ps⟩ h₁.sound (hright.kept h₁) fun b r₂ h₂ hb => ?_
  refine quiet_meets h₂.sound (.ofExcept operator _) .nothing fun v m r₃ hx h₃ => ?_
  refine hQ v r₃ ((h₁.trans h₂).trans h₃) ?_
  cases hresult : Value.binary operator.kind a b with
  | ok v' =>
    rw [hresult] at hx
    cases hx
    exact (knows_binary hb hresult).grows h₃.grows
  | error cause =>
    rw [hresult] at hx
    cases hx

/-- The layer of `and` and `or`: the right operand is evaluated if the left one does not decide. -/
theorem logical_meets {left right : Expr} {operator : Token} (h : r.Sound)
    (hs : Standing ⟨w, ps⟩ around.frames r (.expression (.logical left operator right)))
    (hQ : ∀ v r', Run.Kept r r' → r'.KnowsValue v → Q v r') :
    (Layer.expression (.logical left operator right)).Meets lexical around Q r := by
  refine start_meets ⟨w, ps⟩ h (hs.next rfl fun _ => .logicalLeft) fun a r₁ h₁ ha => ?_
  have hright : Standing ⟨left.walk w, ps⟩ around.frames r (.expression right) :=
    hs.next (left.walk_through w).scopes fun _ => .logicalRight
  split
  next => exact hQ a r₁ h₁ ha
  next =>
    refine start_meets ⟨left.walk w, ps⟩ h₁.sound (hright.kept h₁) fun b r₂ h₂ hb => ?_
    exact hQ b r₂ (h₁.trans h₂) hb

/-- The layer of a conditional expression. Either branch stands where the walk comes by it, the
second one behind the walk over the first. -/
theorem choice_meets {condition whenTrue whenFalse : Expr} (h : r.Sound)
    (hs : Standing ⟨w, ps⟩ around.frames r
      (.expression (.conditional condition whenTrue whenFalse)))
    (hQ : ∀ v r', Run.Kept r r' → r'.KnowsValue v → Q v r') :
    (Layer.expression (.conditional condition whenTrue whenFalse)).Meets lexical around Q r := by
  refine start_meets ⟨w, ps⟩ h (hs.next rfl fun _ => .choiceCondition) fun a r₁ h₁ ha => ?_
  have hcondition := (condition.walk_through w).scopes
  split
  next =>
    have htrue : Standing ⟨condition.walk w, ps⟩ around.frames r (.expression whenTrue) :=
      hs.next hcondition fun _ => .choiceTrue
    refine start_meets ⟨condition.walk w, ps⟩ h₁.sound (htrue.kept h₁) fun b r₂ h₂ hb => ?_
    exact hQ b r₂ (h₁.trans h₂) hb
  next =>
    have hfalse : Standing ⟨whenTrue.walk (condition.walk w), ps⟩ around.frames r
        (.expression whenFalse) :=
      hs.next ((whenTrue.walk_through _).scopes.trans hcondition) fun _ => .choiceFalse
    refine start_meets ⟨whenTrue.walk (condition.walk w), ps⟩ h₁.sound (hfalse.kept h₁)
      fun b r₂ h₂ hb => ?_
    exact hQ b r₂ (h₁.trans h₂) hb

/-- The layer of a call: a callee that takes as many arguments is called with known ones. -/
theorem callExpression_meets {callee : Expr} {paren : Token} {arguments : List Expr} (h : r.Sound)
    (hs : Standing ⟨w, ps⟩ around.frames r (.expression (.call callee paren arguments)))
    (hQ : ∀ v r', Run.Kept r r' → r'.KnowsValue v → Q v r') :
    (Layer.expression (.call callee paren arguments)).Meets lexical around Q r := by
  refine start_meets ⟨w, ps⟩ h (hs.next rfl fun _ => .callee) fun f r₁ h₁ hf => ?_
  have harguments : Standing ⟨callee.walk w, ps⟩ around.frames r (.expressions arguments) :=
    hs.next (callee.walk_through w).scopes fun _ => .callArguments
  refine start_meets ⟨callee.walk w, ps⟩ h₁.sound (harguments.kept h₁) fun vs r₂ h₂ hvs => ?_
  split
  next => exact fail_meets h₂.sound _ _
  next arity harity =>
    split
    next => exact fail_meets h₂.sound _ _
    next hlength =>
      have hready : r₂.KnowsValue f ∧ (∀ v ∈ vs, r₂.KnowsValue v) ∧
          f.arity? = some vs.length :=
        ⟨Run.KnowsValue.grows hf h₂.grows, hvs, by rw [harity, Decidable.not_not.mp hlength]⟩
      refine start_meets ⟨w, ps⟩ h₂.sound hready fun b r₃ h₃ hb => ?_
      exact hQ b r₃ ((h₁.trans h₂).trans h₃) hb

/-- The layer of a property: only instances and classes have some. -/
theorem get_meets {object : Expr} {name : Token} (h : r.Sound)
    (hs : Standing ⟨w, ps⟩ around.frames r (.expression (.get object name)))
    (hQ : ∀ v r', Run.Kept r r' → r'.KnowsValue v → Q v r') :
    (Layer.expression (.get object name)).Meets lexical around Q r := by
  refine start_meets ⟨w, ps⟩ h (hs.next rfl fun _ => .getObject) fun v r₁ h₁ hv => ?_
  have hQ₁ : ∀ b r₂, Run.Kept r₁ r₂ → r₂.KnowsValue b → Q b r₂ :=
    fun b r₂ h₂ hb => hQ b r₂ (h₁.trans h₂) hb
  cases v with
  | object o => exact start_meets ⟨w, ps⟩ h₁.sound hv hQ₁
  | cls c => exact classProperty_meets h₁.sound hv name hQ₁
  | _ => exact fail_meets h₁.sound _ _

/-- The layer of an assignment to a property. If the object is no instance, the value is not
evaluated any more. -/
theorem set_meets {object value : Expr} {name : Token} (h : r.Sound)
    (hs : Standing ⟨w, ps⟩ around.frames r (.expression (.set object name value)))
    (hQ : ∀ v r', Run.Kept r r' → r'.KnowsValue v → Q v r') :
    (Layer.expression (.set object name value)).Meets lexical around Q r := by
  refine start_meets ⟨w, ps⟩ h (hs.next rfl fun _ => .setObject) fun v r₁ h₁ hv => ?_
  have hvalue : Standing ⟨object.walk w, ps⟩ around.frames r (.expression value) :=
    hs.next (object.walk_through w).scopes fun _ => .setValue
  cases v with
  | object o =>
    refine start_meets ⟨object.walk w, ps⟩ h₁.sound (hvalue.kept h₁) fun b r₂ h₂ hb => ?_
    refine setProperty_meets h₂.sound (Run.KnowsClass.grows hv h₂.grows) name hb
      fun b' r₃ h₃ hb' => ?_
    exact hQ b' r₃ ((h₁.trans h₂).trans h₃) hb'
  | _ => exact fail_meets h₁.sound _ _

/-- The layer of a function in an expression, which is made where it stands. -/
theorem literalFunction_meets {d : FunctionDecl} (h : r.Sound)
    (hs : Standing ⟨w, ps⟩ around.frames r (.expression (.function d)))
    (hQ : ∀ v r', Run.Kept r r' → r'.KnowsValue v → Q v r') :
    (Layer.expression (.function d)).Meets lexical around Q r := by
  obtain ⟨root, hroot, hv⟩ := hs.visited
  obtain ⟨f, m, hx, hkept, hf⟩ :=
    makeFunction_kept h ⟨root, hroot, hv.literalFunction⟩ hs.surrounds
  refine ok_meets hx (.of_declared (by simp) (by simp [Mark.declared?])) hkept fun h₁ hlogged => ?_
  exact hQ (.function f) _ h₁ (hf.grows hlogged)

/-- The layer of an expression. -/
theorem expression_meets {e : Expr} (h : r.Sound)
    (hs : Standing ⟨w, ps⟩ around.frames r (.expression e))
    (hQ : ∀ v r', Run.Kept r r' → r'.KnowsValue v → Q v r') :
    (Layer.expression e).Meets lexical around Q r := by
  cases e with
  | literal value => exact hQ _ r (.refl h) (knows_ofLiteral value)
  | «variable» site name => exact lookUp_meets h hs rfl hQ
  | receiver site keyword => exact lookUp_meets h hs rfl hQ
  | assign site name value => exact assignment_meets h hs hQ
  | inherited site keyword method => exact super_meets h hs hQ
  | group inner => exact start_meets ⟨w, ps⟩ h (hs.next rfl fun _ => .groupInner) hQ
  | unary operator operand => exact unary_meets h hs hQ
  | binary left operator right => exact binary_meets h hs hQ
  | logical left operator right => exact logical_meets h hs hQ
  | conditional condition whenTrue whenFalse => exact choice_meets h hs hQ
  | call callee paren arguments => exact callExpression_meets h hs hQ
  | get object name => exact get_meets h hs hQ
  | set object name value => exact set_meets h hs hQ
  | function d => exact literalFunction_meets h hs hQ

end Expressions

/-! ## Properties and calls -/

/-- The layer of a property of an instance. -/
theorem objectProperty_meets (h : r.Sound) {o : Object} (ho : r.KnowsClass o.cls) (name : Token)
    (hQ : ∀ v r', Run.Kept r r' → r'.KnowsValue v → Q v r') :
    (Layer.objectProperty o name).Meets lexical around Q r := by
  refine quiet_meets h (.bind .get fun m => .pure _) .nothing fun field m r₁ hx h₁ => ?_
  cases hx
  split
  next v hv => exact hQ v r₁ h₁ ((h.fields o _ v hv).grows h₁.grows)
  next =>
    have ho₁ := ho.grows h₁.grows
    have hQ₁ : ∀ b r₂, Run.Kept r₁ r₂ → r₂.KnowsValue b → Q b r₂ :=
      fun b r₂ h₂ hb => hQ b r₂ (h₁.trans h₂) hb
    split
    next f hf =>
      refine bind_meets h₁.sound (ho₁.method _ f hf) ho₁ fun f' r₂ h₂ hf' _ => ?_
      refine start_meets ⟨.start, []⟩ h₂.sound hf' fun v r₃ h₃ hv => ?_
      exact hQ₁ v r₃ (h₂.trans h₃) hv
    next =>
      split
      next f hf => exact method_meets h₁.sound (ho₁.classMethod _ f hf) ho₁ hQ₁
      next => exact fail_meets h₁.sound _ _

/-- The layer of a call with as many arguments as the callee takes. -/
theorem call_meets (h : r.Sound) {callee : Value} {paren : Token} {arguments : List Value}
    (hcallee : r.KnowsValue callee) (harguments : ∀ v ∈ arguments, r.KnowsValue v)
    (harity : callee.arity? = some arguments.length)
    (hQ : ∀ v r', Run.Kept r r' → r'.KnowsValue v → Q v r') :
    (Layer.call callee paren arguments).Meets lexical around Q r := by
  cases callee with
  | native n serial =>
    refine quiet_meets h (.callNative n paren arguments) .nothing fun v m r₁ hx h₁ => ?_
    refine hQ v r₁ h₁ ?_
    unfold callNative at hx
    rcases happly : n.apply arguments r.machine.host with ⟨_ | v', host⟩
    · rw [happly] at hx
      cases hx
    · rw [happly] at hx
      cases hx
      exact knows_native happly
  | function f =>
    exact start_meets ⟨.start, []⟩ h ⟨hcallee, harguments, (Option.some.inj harity).symm⟩ hQ
  | cls c =>
    -- a class makes an object; then its initializer is bound to the object and called
    let o : Object := ⟨r.machine.store.objects.size, c⟩
    have hkept : Run.Kept r (r.stepTo around .nothing
        { r.machine with store := (r.machine.store.newObject c).2 }) := by
      have hfirst := h.remembering around .nothing (r.machine.store.newObject c).2
      exact hfirst.trans (hfirst.sound.newObject c)
    refine ok_meets (b := o) rfl (.of_declared (by simp) (by simp [Mark.declared?])) hkept
      fun h₁ _ => ?_
    have hc := Run.KnowsClass.grows hcallee h₁.grows
    split
    next => exact hQ (.object o) _ h₁ hc
    next f hf =>
      refine bind_meets h₁.sound (hc.method _ f hf) hc fun f' r₂ h₂ hf' hdeclaration => ?_
      -- the arity of the class is that of its initializer
      have hlength : arguments.length = f'.arity := by
        rw [Function.arity, hdeclaration]
        have hsome : some c.arity = some arguments.length := harity
        rw [Class.arity, hf] at hsome
        exact (Option.some.inj hsome).symm
      have hknown : ∀ v ∈ arguments, r₂.KnowsValue v :=
        fun v hv => (harguments v hv).grows (h₁.trans h₂).grows
      refine start_meets ⟨.start, []⟩ h₂.sound ⟨hf', hknown, hlength⟩ fun _ r₃ h₃ _ => ?_
      exact hQ (.object o) r₃ ((h₁.trans h₂).trans h₃) (hc.grows (h₂.trans h₃).grows)
  | _ => exact fail_meets h _ _

end Lox.Eval
