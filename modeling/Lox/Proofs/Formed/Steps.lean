import Lox.Proofs.Run.Operators
import Lox.Proofs.Run.Rules
import Lox.Proofs.Tree.Formed

/-!
# Steps on formed functions

A value is formed if the functions in it were declared in well-formed trees, and so is a store that
holds only formed values. `Forms x R E` says of a computation that it keeps stores formed, whatever
the machine is besides, that what it gives has `R`, and that what it stops with has `E`. It is shown
here of each step that a layer of evaluation takes. Where formed trees are run, no step stops for a
reason that is there in case trees are not formed (`Halt.Regular`).
-/

namespace Lox

/-! ## Values -/

/-- The function was declared in a well-formed tree. -/
def Function.Formed (f : Function) : Prop :=
  f.declaration.Formed

/-- All members in the table are formed. -/
def Methods.Formed (table : Methods) : Prop :=
  ∀ (name : String) (f : Function), table[name]? = some f → f.Formed

/-- All members that are found in the class are formed. -/
structure Class.Formed (c : Class) : Prop where
  method : ∀ (name : String) (f : Function), c.findMethod name = some f → f.Formed
  classMethod : ∀ (name : String) (f : Function), c.findClassMethod name = some f → f.Formed

/-- The functions in the value are formed. -/
def Value.Formed : Value → Prop
  | .function f => f.Formed
  | .cls c => c.Formed
  | .object o => o.cls.Formed
  | .nil | .bool _ | .number _ | .string _ | .native _ _ => True

/-- The value that is returned is formed. -/
def Flow.Formed : Flow → Prop
  | .returned value => value.Formed
  | .normal | .breakLoop | .continueLoop => True

/-- A value with no function in it is formed. -/
theorem Value.Formed.of_bare {v : Value} (h : v.Bare) : v.Formed := by
  cases v with
  | function f => exact h.elim
  | cls c => exact h.elim
  | object o => exact h.elim
  | _ => trivial

/-- No members are formed. -/
theorem Methods.Formed.empty : Methods.Formed ∅ := by
  intro name f hf
  simp at hf

/-- A formed member may be added. -/
theorem Methods.Formed.insert {table : Methods} (h : table.Formed) (name : String) {f : Function}
    (hf : f.Formed) : Methods.Formed (table.insert name f) := by
  intro other g hg
  rw [Std.TreeMap.getElem?_insert] at hg
  split at hg
  next =>
    cases hg
    exact hf
  next => exact h other g hg

/-- A class is formed if its own members and those of its superclass are. -/
theorem Class.Formed.of_superclass {serial : Nat} {name : String} {superclass : Option Class}
    {methods classMethods : Methods} (hmethods : methods.Formed)
    (hclassMethods : classMethods.Formed) (hsuper : ∀ c ∈ superclass, c.Formed) :
    Class.Formed ⟨serial, name, superclass, methods, classMethods⟩ := by
  refine ⟨fun n f hf => ?_, fun n f hf => ?_⟩
  · unfold findMethod at hf
    split at hf
    next g hg =>
      cases hf
      exact hmethods n _ hg
    next =>
      split at hf
      next c => exact (hsuper c rfl).method n f hf
      next => cases hf
  · unfold findClassMethod at hf
    split at hf
    next g hg =>
      cases hf
      exact hclassMethods n _ hg
    next =>
      split at hf
      next c => exact (hsuper c rfl).classMethod n f hf
      next => cases hf

/-! ## Stores -/

/-- All values in the store are formed. -/
structure Store.Formed (s : Store) : Prop where
  bindings : ∀ frame name b, s.binding? frame name = some b → b.value.Formed
  fields : ∀ o name v, s.field? o name = some v → v.Formed

namespace Store.Formed

variable {s s' : Store}

/-- A store that gains nothing but formed values. -/
theorem gains (h : s.Formed) (hgains : s.Gains s' Value.Formed) : s'.Formed where
  bindings frame name b hb :=
    (hgains.bindings frame name b hb).elim (h.bindings frame name b) id
  fields o name v hv := (hgains.fields o name v hv).elim (h.fields o name v) id

/-- A frame may bind a formed value. -/
theorem define (h : s.Formed) (frame : FrameId) (name : String) {value : Value} (mutable : Bool)
    (hvalue : value.Formed) : (s.define frame name value mutable).Formed :=
  h.gains (s.gains_define frame name value mutable hvalue)

/-- A new frame binds nothing. -/
theorem newFrame (h : s.Formed) (parent : Option FrameId) : (s.newFrame parent).2.Formed :=
  h.gains (s.gains_newFrame parent)

/-- The counter of serial numbers holds no value. -/
theorem drawn (h : s.Formed) (n : Nat) : Store.Formed { s with nextSerial := n } :=
  h.gains (s.gains_drawn n)

/-- What is found at a distance is formed. -/
theorem getAt? (h : s.Formed) {frame : FrameId} {d : Nat} {name : String} {v : Value}
    (hv : s.getAt? frame d name = some v) : v.Formed := by
  obtain ⟨f, b, hb, rfl⟩ := Store.getAt?_binding hv
  exact h.bindings f name b hb

/-- A variable that may be missing, read as `nil` then. -/
theorem getAt?_getD (h : s.Formed) (frame : FrameId) (d : Nat) (name : String) :
    ((s.getAt? frame d name).getD .nil).Formed := by
  cases hv : s.getAt? frame d name with
  | none => trivial
  | some v => exact h.getAt? hv

end Store.Formed

/-! ## Errors -/

/-- Can a tree of any shape give rise to the error? The other ones are about operators, targets of
`input` and superclasses. -/
def RuntimeCause.isPlain : RuntimeCause → Bool
  | .invalidOperator | .inputTargetInvalid | .superclassNotClass => false
  | _ => true

/-- What stops a computation may stop it whatever the shape of the trees that are run. -/
def Halt.Plain : Halt → Prop
  | .fault e => e.cause.isPlain = true
  | .outOfFuel => True

namespace Eval

open Exec

/-! ## Computations -/

/-- However the computation ends, it leaves a formed store as a formed one. What it gives has `R`,
and what stops it has `E`. -/
def Forms {α : Type} (x : Exec α) (R : α → Prop) (E : Halt → Prop) : Prop :=
  ∀ m : Machine, m.store.Formed →
    match x m with
    | .ok a m' => m'.store.Formed ∧ R a
    | .error halt m' => m'.store.Formed ∧ E halt

namespace Forms

variable {α β : Type} {x : Exec α} {f : α → Exec β} {R R' : α → Prop} {T : β → Prop}
variable {E E' : Halt → Prop}

/-- What is said of a computation may be weakened. -/
theorem mono (hx : Forms x R E) (hR : ∀ a, R a → R' a) (hE : ∀ halt, E halt → E' halt) :
    Forms x R' E' := by
  intro m hm
  have hxm := hx m hm
  cases h : x m with
  | ok a m' =>
    rw [h] at hxm
    exact ⟨hxm.1, hR a hxm.2⟩
  | error halt m' =>
    rw [h] at hxm
    exact ⟨hxm.1, hE halt hxm.2⟩

/-- Giving back a value changes no store. -/
theorem pure {a : α} (h : R a) : Forms (pure a : Exec α) R E :=
  fun _ hm => ⟨hm, h⟩

/-- Failing changes no store. -/
theorem fail {token : Token} {cause : RuntimeCause} (h : E (.fault ⟨token, cause⟩)) :
    Forms (Exec.fail token cause : Exec α) R E :=
  fun _ hm => ⟨hm, h⟩

/-- A computation that goes on from what another gives. -/
theorem bind (hx : Forms x R E) (hf : ∀ a, R a → Forms (f a) T E) : Forms (x >>= f) T E := by
  intro m hm
  have hxm := hx m hm
  show match EStateM.bind x f m with
    | .ok b m' => m'.store.Formed ∧ T b
    | .error halt m' => m'.store.Formed ∧ E halt
  unfold EStateM.bind
  cases h : x m with
  | error halt m' =>
    rw [h] at hxm
    exact hxm
  | ok a m' =>
    rw [h] at hxm
    exact hf a hxm.2 m' hxm.1

/-- A computation that looks at a formed store goes on from it. -/
theorem get {f : Machine → Exec β} (hf : ∀ m : Machine, m.store.Formed → Forms (f m) T E) :
    Forms (get >>= f) T E :=
  fun m hm => hf m hm m hm

/-- Something new made in the store. -/
theorem fromStore {f : Store → α × Store}
    (hf : ∀ s : Store, s.Formed → (f s).2.Formed ∧ R (f s).1) : Forms (fromStore f) R E :=
  fun m hm => hf m.store hm

/-- A result that was worked out without the machine. -/
theorem ofExcept {token : Token} {result : Except RuntimeCause α}
    (hok : ∀ a, result = .ok a → R a)
    (herror : ∀ cause, result = .error cause → E (.fault ⟨token, cause⟩)) :
    Forms (ofExcept token result) R E := by
  cases result with
  | ok a => exact .pure (hok a rfl)
  | error cause => exact .fail (herror cause rfl)

/-- A computation that leaves the store alone. -/
theorem of_quiet (hx : Quiet x) (hok : ∀ a m m', x m = .ok a m' → R a)
    (herror : ∀ halt m m', x m = .error halt m' → E halt) : Forms x R E := by
  intro m hm
  have hquiet := hx m
  cases h : x m with
  | ok a m' =>
    rw [h] at hquiet
    exact ⟨hquiet.store ▸ hm, hok a m m' h⟩
  | error halt m' =>
    rw [h] at hquiet
    exact ⟨hquiet.store ▸ hm, herror halt m m' h⟩

end Forms

/-! ## Variables -/

section Steps

variable {value : Value}

/-- A name may be bound to a formed value. -/
theorem define_forms (name : String) (mutable : Bool) (hvalue : value.Formed) :
    Forms (define name value mutable) (fun _ => True) Halt.Plain :=
  fun m hm => ⟨hm.define m.current name mutable hvalue, trivial⟩

/-- What a reference denotes is formed; that it may not be bound does not depend on the shape of
trees. -/
theorem lookUp_forms (site : Site) (name : Token) :
    Forms (lookUp site name) Value.Formed Halt.Plain := by
  refine .get fun m hm => ?_
  cases hv : m.lookUp site name.lexeme with
  | none => exact .fail rfl
  | some v =>
    obtain ⟨f, b, hb, rfl⟩ := lookUp_binding hv
    exact .pure (hm.bindings f _ b hb)

/-- A formed value may be assigned. -/
theorem assign_forms (site : Site) (name : Token) (hvalue : value.Formed) :
    Forms (assign site name value) (fun _ => True) Halt.Plain := by
  intro m hm
  unfold assign
  cases m.target site name.lexeme with
  | ok frame => exact ⟨hm.define frame name.lexeme true hvalue, trivial⟩
  | error fault => cases fault <;> exact ⟨hm, rfl⟩

/-- The target of a formed `input` statement is a variable. -/
theorem assignInput_forms (keyword : Token) {target : Expr} (htarget : target.IsVariable)
    (hvalue : value.Formed) :
    Forms (assignInput keyword target value) (fun _ => True) Halt.Plain := by
  obtain ⟨site, name, rfl⟩ := htarget
  exact assign_forms site name hvalue

/-! ## Frames -/

/-- A scope is entered with a new frame. -/
theorem innerFrame_forms {E : Halt → Prop} : Forms innerFrame (fun _ => True) E :=
  fun m hm => ⟨hm.newFrame (some m.current), trivial⟩

/-- Parameters are bound to formed arguments. -/
theorem bindAll_formed {s : Store} (hs : s.Formed) (frame : FrameId) (mutable : Bool)
    (pairs : List (Token × Value)) (hpairs : ∀ p ∈ pairs, p.2.Formed) :
    (Eval.bindAll frame mutable pairs s).Formed := by
  induction pairs generalizing s with
  | nil => exact hs
  | cons p pairs ih =>
    exact ih (hs.define frame p.1.lexeme mutable (hpairs p List.mem_cons_self))
      fun q hq => hpairs q (List.mem_cons_of_mem _ hq)

/-- The frame of a call holds its arguments. -/
theorem callFrame_forms (f : Function) {arguments : List Value}
    (harguments : ∀ v ∈ arguments, v.Formed) :
    Forms (callFrame f arguments) (fun _ => True) Halt.Plain := by
  intro m hm
  exact ⟨bindAll_formed (hm.newFrame (some f.closure)) m.store.frames.size (f.kind != .setter)
    (f.declaration.parameters.zip arguments) fun p hp => harguments p.2 (List.of_mem_zip hp).2,
    trivial⟩

/-- The result of a call is what was returned, or the receiver of an initializer. -/
theorem callResult_forms (f : Function) {flow : Flow} (hflow : flow.Formed) :
    Forms (callResult f flow) Value.Formed Halt.Plain := by
  unfold callResult
  split
  next => exact .get fun m hm => .pure (hm.getAt?_getD f.closure 0 "this")
  next =>
    cases flow with
    | returned value => exact .pure hflow
    | _ => exact .pure trivial

/-! ## Functions and methods -/

/-- A function is formed if its declaration is. -/
theorem newFunction_forms {d : FunctionDecl} (hd : d.Formed) (closure : FrameId)
    (isInitializer : Bool) (kind : MemberKind) :
    Forms (fromStore fun s => s.newFunction d closure isInitializer kind) Function.Formed
      Halt.Plain :=
  .fromStore fun s hs => ⟨hs.drawn (s.nextSerial + 1), hd⟩

/-- A function that closes over the current frame is formed if its declaration is. -/
theorem makeFunction_forms {d : FunctionDecl} (hd : d.Formed) :
    Forms (makeFunction d) Function.Formed Halt.Plain :=
  .get fun m _ => newFunction_forms hd m.current false .method

/-- A function may be made and bound to its name. -/
theorem declareFunction_forms {d : FunctionDecl} (hd : d.Formed) :
    Forms (declareFunction d) (fun _ => True) Halt.Plain := by
  refine .get fun m _ => (newFunction_forms hd m.current false .method).bind fun f hf => ?_
  exact define_forms (f.name?.getD "") false (show (Value.function f).Formed from hf)

/-- A member bound to its receiver is the same function in a new frame, and the receiver is
formed. -/
theorem bind_forms {f : Function} {receiver : Value} (hf : f.Formed) (hreceiver : receiver.Formed) :
    Forms (Eval.bind f receiver) Function.Formed Halt.Plain := by
  refine .fromStore fun s hs => ⟨?_, hf⟩
  have hframe := (hs.newFrame (some f.closure)).define s.frames.size "this" false hreceiver
  exact hframe.drawn (s.nextSerial + 1)

/-- What is found for `super` is a member of a class. An error about the superclass names the
keyword. -/
theorem inheritedSource_forms (site : Site) (keyword method : Token) :
    Forms (inheritedSource site keyword method)
      (fun source => source.1.Formed ∧ source.2.Formed)
      (fun halt => halt.Plain ∨ halt = .fault ⟨keyword, .superclassNotClass⟩) := by
  refine .get fun m hm => ?_
  cases m.table[site]? with
  | none => exact .fail (.inl rfl)
  | some d =>
    dsimp only
    cases hparent : m.store.getAt? m.current d "super" with
    | none => exact .fail (.inr rfl)
    | some parent =>
      have hclass := hm.getAt? hparent
      cases parent with
      | cls c =>
        dsimp only
        cases hf : (c.findMethod method.lexeme).or (c.findClassMethod method.lexeme) with
        | none => exact .fail (.inl rfl)
        | some f =>
          refine .pure ⟨?_, hm.getAt?_getD m.current (d - 1) "this"⟩
          rcases Option.or_eq_some_iff.mp hf with hf | ⟨_, hf⟩
          · exact Class.Formed.method hclass _ f hf
          · exact Class.Formed.classMethod hclass _ f hf
      | _ => exact .fail (.inr rfl)

/-! ## Classes and instances -/

/-- Members are added one by one, all of one kind. -/
theorem addMembers_forms (closure : FrameId) (kind : MemberKind)
    (isInitializer : FunctionDecl → Bool) {ds : List FunctionDecl} {table : Methods}
    (hds : ∀ d ∈ ds, d.Formed) (htable : table.Formed) :
    Forms (addMembers closure kind isInitializer ds table) Methods.Formed Halt.Plain := by
  unfold addMembers
  induction ds generalizing table with
  | nil => exact .pure htable
  | cons d ds ih =>
    rw [List.foldlM_cons, bind_assoc]
    refine (newFunction_forms (hds d List.mem_cons_self) closure (isInitializer d) kind).bind
      fun f hf => ?_
    exact ih (fun d' hd' => hds d' (List.mem_cons_of_mem _ hd')) (htable.insert d.memberName hf)

/-- The frame around members holds the superclass, if there is one. -/
theorem memberFrame_forms {superclass : Option Class} (hsuper : ∀ c ∈ superclass, c.Formed) :
    Forms (memberFrame superclass) (fun _ => True) Halt.Plain := by
  cases superclass with
  | none => exact .get fun m _ => .pure trivial
  | some c =>
    refine innerFrame_forms.bind fun frame _ => ?_
    have hc : (Value.cls c).Formed := hsuper c rfl
    exact fun m hm => ⟨hm.define frame "super" false hc, trivial⟩

/-- A class has its own formed members and those of its superclass. -/
theorem declareClass_forms {d : ClassDecl} {superclass : Option Class} (hd : d.Formed)
    (hsuper : ∀ c ∈ superclass, c.Formed) :
    Forms (declareClass d superclass) (fun _ => True) Halt.Plain := by
  obtain ⟨hmethods, hclassMethods, hgetters, hsetters⟩ := hd.members
  refine (define_forms d.name.lexeme false (show Value.nil.Formed from trivial)).bind fun _ _ => ?_
  refine (memberFrame_forms hsuper).bind fun closure _ => ?_
  refine (addMembers_forms closure .method _ hmethods .empty).bind fun table htable => ?_
  refine (addMembers_forms closure .getter _ hgetters htable).bind fun table htable => ?_
  refine (addMembers_forms closure .setter _ hsetters htable).bind fun methods hmethods => ?_
  refine (addMembers_forms closure .method _ hclassMethods .empty).bind
    fun classMethods hclassMethods => ?_
  have hclass : Forms (fromStore fun s => s.newClass d.name.lexeme superclass methods classMethods)
      Class.Formed Halt.Plain :=
    .fromStore fun s hs =>
      ⟨hs.drawn (s.nextSerial + 1), .of_superclass hmethods hclassMethods hsuper⟩
  exact hclass.bind fun c hc => define_forms d.name.lexeme false (show (Value.cls c).Formed from hc)

/-- An error about the superclass of a formed class names the superclass. -/
theorem superclassOf_forms (d : ClassDecl) {clause : Expr} (hclause : clause.IsVariable)
    (hvalue : value.Formed) :
    Forms (superclassOf d clause value) Class.Formed
      (fun halt => ∃ site name, clause = .variable site name ∧
        halt = .fault ⟨name, .superclassNotClass⟩) := by
  obtain ⟨site, name, rfl⟩ := hclause
  cases value with
  | cls c => exact .pure hvalue
  | _ => exact .fail ⟨site, name, rfl, rfl⟩

/-- A new object has no fields. -/
theorem newObject_forms (c : Class) :
    Forms (fromStore fun s => s.newObject c) (fun o => o.cls = c) Halt.Plain :=
  .fromStore fun s hs => ⟨hs.gains (s.gains_newObject c), rfl⟩

/-- A field may be set to a formed value. -/
theorem setField_forms (o : Object) (name : String) (hvalue : value.Formed) :
    Forms (modifyStore fun s => s.setField o name value) (fun _ => True) Halt.Plain :=
  fun m hm => ⟨hm.gains (m.store.gains_setField o name value hvalue), trivial⟩

/-- What a field holds is formed. -/
theorem field_forms (o : Object) (name : String) :
    Forms (return (← get).store.field? o name) (fun v? => ∀ v ∈ v?, v.Formed) Halt.Plain :=
  .get fun _ hm => .pure fun v hv => hm.fields o name v hv

/-! ## Input, output and native functions -/

/-- What is read is a number, a string or another value with no function in it. -/
theorem typedLine_forms (keyword : Token) :
    Forms (takeLine >>= typedValue keyword) Value.Formed Halt.Plain := by
  refine .of_quiet (.typedLine keyword) (fun v m m' h => .of_bare (typedLine_bare h))
    fun halt m m' h => ?_
  change typedValue keyword m.input.takeLine.1 { m with input := m.input.takeLine.2 } = _ at h
  cases hline : m.input.takeLine.1 with
  | absent | text s =>
    rw [hline] at h
    cases h
  | unreadable =>
    rw [hline] at h
    cases h
    rfl

/-- Output holds no values. -/
theorem print_forms (keyword : Token) (value : Value) :
    Forms (print keyword value) (fun _ => True) Halt.Plain := by
  have hwrite : Forms (writeLine value) (fun _ => True) Halt.Plain := fun m hm => ⟨hm, trivial⟩
  refine hwrite.bind fun fits _ => ?_
  cases fits with
  | true => exact .pure trivial
  | false => exact .fail rfl

/-- Native functions give bare values. -/
theorem callNative_forms (n : Native) (paren : Token) (arguments : List Value) :
    Forms (callNative n paren arguments) Value.Formed Halt.Plain := by
  intro m hm
  unfold callNative
  rcases hresult : n.apply arguments m.host with ⟨_ | v, host⟩
  · exact ⟨hm, rfl⟩
  · exact ⟨hm, .of_bare (Native.apply_bare hresult)⟩

end Steps

/-! ## Operators -/

section Operators

/-- If the operation fails, a tree of any shape might have led to it. -/
def FailsPlainly {α : Type} (result : Except RuntimeCause α) : Prop :=
  ∀ cause, result = .error cause → cause.isPlain = true

/-- Operands of the wrong kind may come from any tree. -/
theorem add_failsPlainly (a b : Value) : FailsPlainly (a.add b) := by
  intro cause h
  unfold Value.add at h
  split at h <;> cases h
  rfl

/-- Operands that cannot be compared may come from any tree. -/
theorem compare_failsPlainly (numbers : Float → Float → Bool) (strings : Ordering → Bool)
    (a b : Value) : FailsPlainly (Value.compare numbers strings a b) := by
  intro cause h
  unfold Value.compare at h
  split at h <;> cases h
  rfl

/-- Operands that are no numbers may come from any tree. -/
theorem numbers_failsPlainly {a b : Value} {f : Float × Float → Except RuntimeCause Value}
    (hf : ∀ p, FailsPlainly (f p)) : FailsPlainly (Value.numbers a b >>= f) := by
  intro cause h
  cases hn : Value.numbers a b with
  | ok p =>
    rw [hn] at h
    exact hf p cause h
  | error cause' =>
    rw [hn] at h
    cases h
    unfold Value.numbers at hn
    split at hn <;> cases hn
    rfl

/-- A binary operator is always one that values have. -/
theorem binary_failsPlainly {operator : Token} (hoperator : operator.IsBinary) (a b : Value) :
    FailsPlainly (Value.binary operator.kind a b) := by
  have hok : ∀ v : Value, FailsPlainly (.ok v) := fun _ _ h => nomatch h
  obtain ⟨mark, hmark, hkind⟩ := hoperator
  rw [hkind]
  simp only [binaryMarks, List.mem_cons, List.not_mem_nil, or_false] at hmark
  rcases hmark with rfl | rfl | rfl | rfl | rfl | rfl | rfl | rfl | rfl | rfl | rfl
  · exact hok _
  · exact hok _
  · exact hok _
  · exact add_failsPlainly a b
  · exact numbers_failsPlainly fun p => hok _
  · exact numbers_failsPlainly fun p => hok _
  · refine numbers_failsPlainly fun p cause h => ?_
    dsimp only [Value.divide] at h
    split at h <;> cases h
    rfl
  · exact compare_failsPlainly _ _ a b
  · exact compare_failsPlainly _ _ a b
  · exact compare_failsPlainly _ _ a b
  · exact compare_failsPlainly _ _ a b

/-- A unary operator fails only for an operand that is no number. -/
theorem unary_forms (operator : Token) (value : Value) :
    Forms (ofExcept operator (Value.unary operator.kind value)) Value.Formed Halt.Plain := by
  refine .ofExcept (fun v hv => .of_bare (Value.unary_bare hv)) fun cause h => ?_
  unfold Value.unary at h
  split at h
  next =>
    split at h <;> cases h
    rfl
  next => cases h

/-- The operator is one of those that are known, so it never fails for being another. -/
theorem binary_forms {operator : Token} (hoperator : operator.IsBinary) (a : Value) {b : Value}
    (hb : b.Formed) :
    Forms (ofExcept operator (Value.binary operator.kind a b)) Value.Formed Halt.Plain := by
  refine .ofExcept (fun v hv => ?_) fun cause h => binary_failsPlainly hoperator a b cause h
  rcases Value.binary_bare hv with rfl | hbare
  · exact hb
  · exact .of_bare hbare

end Operators

end Eval

end Lox
