import Lox.Proofs.Proper.Values

/-!
# Steps keep machines proper

`Tends P x m R`: however the computation `x` ends from `m`, it leaves a proper machine with the same
input; what it gives has `R`, and an error names a token of which `P` holds. This is shown here of
each step that a layer of evaluation takes, but for reading a line of input.
-/

namespace Lox

/-- A runtime error that stops a computation names a token of which `P` holds. -/
def Halt.Names (P : Token → Prop) : Halt → Prop
  | .fault e => P e.token
  | .outOfFuel => True

namespace Eval

open Exec

/-- From `m` on, the computation leaves a proper machine and the input as it is. What it gives has
`R`, and an error names a token of which `P` holds. -/
def Tends (P : Token → Prop) {α : Type} (x : Exec α) (m : Machine) (R : α → Machine → Prop) :
    Prop :=
  match x m with
  | .ok a m' => m.Follows P m' ∧ m'.input = m.input ∧ R a m'
  | .error halt m' => m.Follows P m' ∧ m'.input = m.input ∧ halt.Names P

variable {P : Token → Prop} {α β : Type} {m m' : Machine}

namespace Tends

variable {x : Exec α} {R S : α → Machine → Prop} {T : β → Machine → Prop}

/-- Giving back a value leaves the machine alone. -/
theorem pure {a : α} (h : m.Proper P) (hR : R a m) : Tends P (pure a : Exec α) m R :=
  ⟨.refl h, rfl, hR⟩

/-- Failing leaves the machine alone, and names the token that it is given. -/
theorem fail {token : Token} {cause : RuntimeCause} (h : m.Proper P) (ht : P token) :
    Tends P (fail token cause : Exec α) m R :=
  ⟨.refl h, rfl, ht⟩

/-- A computation goes on from where another leaves it, if that tends to what it needs. -/
theorem bind {f : α → Exec β} (hx : Tends P x m R)
    (hf : ∀ a m', m.Follows P m' → R a m' → Tends P (f a) m' T) : Tends P (x >>= f) m T := by
  show match EStateM.bind x f m with
    | .ok b m' => m.Follows P m' ∧ m'.input = m.input ∧ T b m'
    | .error halt m' => m.Follows P m' ∧ m'.input = m.input ∧ halt.Names P
  unfold Tends at hx
  unfold EStateM.bind
  cases hxm : x m with
  | error halt m' =>
    rw [hxm] at hx
    exact hx
  | ok a m' =>
    rw [hxm] at hx
    obtain ⟨hfollows, hinput, hR⟩ := hx
    have hm' := hf a m' hfollows hR
    unfold Tends at hm'
    dsimp only
    cases hfm : f a m' with
    | ok b m'' =>
      rw [hfm] at hm'
      exact ⟨hfollows.trans hm'.1, hm'.2.1.trans hinput, hm'.2.2⟩
    | error halt m'' =>
      rw [hfm] at hm'
      exact ⟨hfollows.trans hm'.1, hm'.2.1.trans hinput, hm'.2.2⟩

/-- A computation that looks at the machine goes on from it. -/
theorem get {f : Machine → Exec β} (h : Tends P (f m) m T) : Tends P (get >>= f) m T :=
  h

/-- A computation that changes the store. -/
theorem of_store {a : α} {s : Store} (hx : x m = .ok a { m with store := s }) (h : m.Proper P)
    (hs : m.store.Grows s) (hproper : s.Proper P m.globals) (hR : R a { m with store := s }) :
    Tends P x m R := by
  unfold Tends
  rw [hx]
  exact ⟨h.withStore hs hproper, rfl, hR⟩

/-- A computation that writes output or asks the host. -/
theorem of_unchanged {a : α} (hx : x m = .ok a m') (h : m.Proper P) (hm : Unchanged m m')
    (hinput : m'.input = m.input) (hR : R a m') : Tends P x m R := by
  unfold Tends
  rw [hx]
  exact ⟨h.unchanged hm, hinput, hR⟩

/-- A result that was worked out without the machine; its fault is at the token. -/
theorem ofExcept {token : Token} {result : Except RuntimeCause α} (h : m.Proper P)
    (ht : P token) (hR : ∀ a, result = .ok a → R a m) :
    Tends P (ofExcept token result) m R := by
  cases result with
  | ok a => exact .pure h (hR a rfl)
  | error cause => exact .fail h ht

end Tends

/-! ## Variables -/

/-- The current frame is there, so a name may be bound in it. -/
theorem define_tends (h : m.Proper P) (name : String) {value : Value} (mutable : Bool)
    (hvalue : value.Proper P m.store) :
    Tends P (define name value mutable) m fun _ _ => True :=
  .of_store rfl h (Store.define_grows ..) (h.store.define _ _ _ hvalue) trivial

/-- What a name denotes stands in the store; an unbound one is named. -/
theorem lookUp_tends (h : m.Proper P) (site : Site) {name : Token} (hname : P name) :
    Tends P (lookUp site name) m fun v m' => v.Proper P m'.store := by
  refine Tends.get ?_
  cases hv : m.lookUp site name.lexeme with
  | none => exact .fail h hname
  | some v => exact .pure h (h.lookUp hv)

/-- An assignment changes a binding that is there; a constant or an unbound name is named. -/
theorem assign_tends (h : m.Proper P) (site : Site) {name : Token} {value : Value}
    (hname : P name) (hvalue : value.Proper P m.store) :
    Tends P (assign site name value) m fun _ _ => True := by
  unfold Tends assign
  cases m.target site name.lexeme with
  | ok frame =>
    exact ⟨h.withStore (Store.define_grows ..) (h.store.define _ _ _ hvalue), rfl, trivial⟩
  | error fault => exact ⟨.refl h, rfl, hname⟩

/-- What was read is assigned to a variable; any other target is named by the keyword. -/
theorem assignInput_tends (h : m.Proper P) {keyword : Token} {target : Expr} {value : Value}
    (hkeyword : P keyword) (htarget : target.Names P) (hvalue : value.Proper P m.store) :
    Tends P (assignInput keyword target value) m fun _ _ => True := by
  cases target with
  | «variable» site name => exact assign_tends h site htarget hvalue
  | _ => exact .fail h hkeyword

/-! ## Frames -/

/-- A frame for a scope is new and lies in the current one. -/
theorem innerFrame_tends (h : m.Proper P) :
    Tends P innerFrame m fun frame m' => frame < m'.store.frames.size :=
  .of_store rfl h (Store.newFrame_grows ..) (h.store.newFrame h.current)
    (by simp)

/-- Binding parameters keeps the store proper, and adds no frame. -/
theorem bindParameters_proper {s : Store} {outer : FrameId} (h : s.Proper P outer)
    (frame : FrameId) (mutable : Bool) (parameters : List (Token × Value))
    (hvalues : ∀ p ∈ parameters, p.2.Proper P s) :
    let s' := parameters.foldl (fun s (name, value) => s.define frame name.lexeme value mutable) s
    s.Grows s' ∧ s'.Proper P outer := by
  induction parameters generalizing s with
  | nil => exact ⟨.refl s, h⟩
  | cons p ps ih =>
    have hgrows := s.define_grows frame p.1.lexeme p.2 mutable
    have hp := h.define frame p.1.lexeme mutable (hvalues p List.mem_cons_self)
    have hrest := ih hp fun q hq => (hvalues q (List.mem_cons_of_mem _ hq)).grows hgrows
    exact ⟨hgrows.trans hrest.1, hrest.2⟩

/-- A call runs in a frame of its own, inside the one that the function closes over. -/
theorem callFrame_tends (h : m.Proper P) {f : Function} {arguments : List Value}
    (hf : f.Proper P m.store) (harguments : ∀ v ∈ arguments, v.Proper P m.store) :
    Tends P (callFrame f arguments) m fun frame m' => frame < m'.store.frames.size := by
  have hgrows := m.store.newFrame_grows (some f.closure)
  have hframe := h.store.newFrame hf.closure
  obtain ⟨hbound, hproper⟩ := bindParameters_proper hframe m.store.frames.size
    (f.kind != .setter) (f.declaration.parameters.zip arguments)
    fun p hp => (harguments p.2 (List.of_mem_zip hp).2).grows hgrows
  refine .of_store rfl h (hgrows.trans hbound) hproper ?_
  exact Nat.lt_of_lt_of_le (by simp) hbound.size

/-- The result of a call was returned, or it is the receiver that the frame around an initializer
holds. -/
theorem callResult_tends (h : m.Proper P) (f : Function) {flow : Flow}
    (hflow : flow.Proper P m.store) :
    Tends P (callResult f flow) m fun v m' => v.Proper P m'.store := by
  unfold callResult
  split
  next => exact Tends.get (.pure h (h.store.getAt?_getD f.closure 0 "this"))
  next =>
    cases flow with
    | returned value => exact .pure h hflow
    | _ => exact .pure h trivial

/-! ## Functions and methods -/

/-- A new function closes over a frame that is there. -/
theorem newFunction_tends (h : m.Proper P) {d : FunctionDecl} {closure : FrameId}
    (isInitializer : Bool) (kind : MemberKind) (hd : d.Names P)
    (hclosure : closure < m.store.frames.size) :
    Tends P (fromStore fun s => s.newFunction d closure isInitializer kind) m
      fun f m' => f.Proper P m'.store :=
  .of_store rfl h (.of_frames rfl (Nat.le_succ _)) (h.store.drawn (Nat.le_succ _)) ⟨hclosure, hd⟩

/-- A function closes over the current frame, which is there. -/
theorem makeFunction_tends (h : m.Proper P) {d : FunctionDecl} (hd : d.Names P) :
    Tends P (makeFunction d) m fun f m' => f.Proper P m'.store :=
  newFunction_tends h false .method hd h.current

/-- A function is made and bound to its name. -/
theorem declareFunction_tends (h : m.Proper P) {d : FunctionDecl} (hd : d.Names P) :
    Tends P (declareFunction d) m fun _ _ => True := by
  refine Tends.get ?_
  refine (newFunction_tends h false .method hd h.current).bind fun f m' hm hf => ?_
  have hvalue : (Value.function f).Proper P m'.store := hf
  exact define_tends hm.proper (f.name?.getD "") false hvalue

/-- A method closes over a frame that holds its receiver. -/
theorem bind_tends (h : m.Proper P) {f : Function} {receiver : Value} (hf : f.Proper P m.store)
    (hreceiver : receiver.Proper P m.store) :
    Tends P (Eval.bind f receiver) m fun g m' => g.Proper P m'.store := by
  let s := (m.store.newFrame (some f.closure)).2
  have hframe : m.store.Grows s := m.store.newFrame_grows _
  have hdefined : s.Grows (s.define m.store.frames.size "this" receiver false) :=
    s.define_grows ..
  have hproper : (s.define m.store.frames.size "this" receiver false).Proper P m.globals :=
    (h.store.newFrame hf.closure).define _ _ _ (hreceiver.grows hframe)
  have hdrawn : (s.define m.store.frames.size "this" receiver false).Grows
      (m.store.bind f receiver).2 := .of_frames rfl (Nat.le_succ _)
  refine .of_store rfl h ((hframe.trans hdefined).trans hdrawn) (hproper.drawn (Nat.le_succ _)) ?_
  exact ⟨Nat.lt_of_lt_of_le (by simp [s]) (hdefined.trans hdrawn).size, hf.names⟩

/-- What is found for `super`: a member of the class that is bound to it, and a receiver. -/
theorem inheritedSource_tends (h : m.Proper P) (site : Site) {keyword method : Token}
    (hkeyword : P keyword) (hmethod : P method) :
    Tends P (inheritedSource site keyword method) m fun source m' =>
      source.1.Proper P m'.store ∧ source.2.Proper P m'.store := by
  refine Tends.get ?_
  cases m.table[site]? with
  | none => exact Tends.fail h hkeyword
  | some d =>
    dsimp only
    cases hparent : m.store.getAt? m.current d "super" with
    | none => exact Tends.fail h hkeyword
    | some parent =>
      have hclass := h.store.getAt? hparent
      cases parent with
      | cls c =>
        dsimp only
        cases hf : (c.findMethod method.lexeme).or (c.findClassMethod method.lexeme) with
        | none => exact Tends.fail h hmethod
        | some f =>
          refine Tends.pure h ⟨?_, h.store.getAt?_getD m.current (d - 1) "this"⟩
          rcases Option.or_eq_some_iff.mp hf with hf | ⟨_, hf⟩
          · exact Class.Proper.findMethod hclass hf
          · exact Class.Proper.findClassMethod hclass hf
      | _ => exact Tends.fail h hkeyword

/-! ## Classes and instances -/

/-- Members are made that close over a frame that is there. -/
theorem addMembers_tends (h : m.Proper P) {closure : FrameId} (kind : MemberKind)
    (isInitializer : FunctionDecl → Bool) {ds : List FunctionDecl} {table : Methods}
    (hclosure : closure < m.store.frames.size) (hds : ∀ d ∈ ds, d.Names P)
    (htable : ∀ (name : String) (f : Function), table[name]? = some f → f.Proper P m.store) :
    Tends P (addMembers closure kind isInitializer ds table) m fun table' m' =>
      ∀ (name : String) (f : Function), table'[name]? = some f → f.Proper P m'.store := by
  unfold addMembers
  induction ds generalizing m table with
  | nil => exact .pure h htable
  | cons d ds ih =>
    rw [List.foldlM_cons, bind_assoc]
    refine (newFunction_tends h _ kind (hds d List.mem_cons_self) hclosure).bind
      fun f m' hm hf => ?_
    refine ih hm.proper (Nat.lt_of_lt_of_le hclosure hm.grows.size)
      (fun d' hd' => hds d' (List.mem_cons_of_mem _ hd')) fun name g hg => ?_
    rw [Std.TreeMap.getElem?_insert] at hg
    split at hg
    next =>
      cases hg
      exact hf
    next => exact (htable name g hg).grows hm.grows

/-- The frame in which the members of a class are made. -/
theorem memberFrame_tends (h : m.Proper P) {superclass : Option Class}
    (hsuper : ∀ c ∈ superclass, c.Proper P m.store) :
    Tends P (memberFrame superclass) m fun frame m' => frame < m'.store.frames.size := by
  cases superclass with
  | none => exact Tends.get (.pure h h.current)
  | some c =>
    refine (innerFrame_tends h).bind fun frame m' hm hframe => ?_
    have hc : (Value.cls c).Proper P m'.store := (hsuper c rfl).grows hm.grows
    exact .of_store rfl hm.proper (Store.define_grows ..) (hm.proper.store.define _ _ _ hc)
      (Nat.lt_of_lt_of_le hframe (Store.define_grows ..).size)

/-- A class is younger than its superclass. -/
theorem newClass_tends (h : m.Proper P) (name : String) {superclass : Option Class}
    {methods classMethods : Methods} (hsuper : ∀ c ∈ superclass, c.Proper P m.store)
    (hmethods : ∀ (name : String) (f : Function), methods[name]? = some f → f.Proper P m.store)
    (hclassMethods : ∀ (name : String) (f : Function),
      classMethods[name]? = some f → f.Proper P m.store) :
    Tends P (fromStore fun s => s.newClass name superclass methods classMethods) m
      fun c m' => c.Proper P m'.store := by
  have hgrows : m.store.Grows { m.store with nextSerial := m.store.nextSerial + 1 } :=
    .of_frames rfl (Nat.le_succ _)
  refine .of_store rfl h hgrows (h.store.drawn (Nat.le_succ _)) ?_
  refine .of_superclass (Nat.lt_succ_self _) (fun n f hf => (hmethods n f hf).grows hgrows)
    (fun n f hf => (hclassMethods n f hf).grows hgrows) fun d hd => ?_
  exact ⟨(hsuper d hd).grows hgrows, (hsuper d hd).drawn⟩

/-- A class is made with frames for its members and bound to its name. -/
theorem declareClass_tends (h : m.Proper P) {d : ClassDecl} {superclass : Option Class}
    (hd : d.Names P) (hsuper : ∀ c ∈ superclass, c.Proper P m.store) :
    Tends P (declareClass d superclass) m fun _ _ => True := by
  obtain ⟨hmethods, hclassMethods, hgetters, hsetters⟩ := hd.members
  have hnil : Value.nil.Proper P m.store := trivial
  refine (define_tends h d.name.lexeme false hnil).bind fun _ m₁ h₁ _ => ?_
  refine (memberFrame_tends h₁.proper fun c hc => (hsuper c hc).grows h₁.grows).bind
    fun closure m₂ h₂ hclosure => ?_
  refine (addMembers_tends h₂.proper .method _ hclosure hmethods fun _ _ hf => ?_).bind
    fun table m₃ h₃ htable => ?_
  · simp at hf
  refine (addMembers_tends h₃.proper .getter _ (Nat.lt_of_lt_of_le hclosure h₃.grows.size)
    hgetters htable).bind fun table m₄ h₄ htable => ?_
  have h₂₄ := h₃.trans h₄
  refine (addMembers_tends h₄.proper .setter _ (Nat.lt_of_lt_of_le hclosure h₂₄.grows.size)
    hsetters htable).bind fun methods m₅ h₅ hmethods => ?_
  have h₂₅ := h₂₄.trans h₅
  refine (addMembers_tends h₅.proper .method _ (Nat.lt_of_lt_of_le hclosure h₂₅.grows.size)
    hclassMethods fun _ _ hf => ?_).bind fun classMethods m₆ h₆ hclassMethods => ?_
  · simp at hf
  have h₀₆ := ((h₁.trans h₂).trans h₂₅).trans h₆
  refine (newClass_tends h₆.proper d.name.lexeme (fun c hc => (hsuper c hc).grows h₀₆.grows)
    (fun n f hf => (hmethods n f hf).grows h₆.grows) hclassMethods).bind fun c m₇ h₇ hc => ?_
  have hvalue : (Value.cls c).Proper P m₇.store := hc
  exact define_tends h₇.proper d.name.lexeme false hvalue

/-- The superclass is a class, or the error names the class that asks for it. -/
theorem superclassOf_tends (h : m.Proper P) {d : ClassDecl} {clause : Expr} {value : Value}
    (hd : d.Names P) (hclause : clause.Names P) (hvalue : value.Proper P m.store) :
    Tends P (superclassOf d clause value) m fun c m' => c.Proper P m'.store := by
  unfold superclassOf
  split
  next => exact .pure h hvalue
  next =>
    split
    next => exact .fail h hclause
    next => exact .fail h hd.name

/-- A new object is of the class. -/
theorem newObject_tends (h : m.Proper P) {c : Class} (hc : c.Proper P m.store) :
    Tends P (fromStore fun s => s.newObject c) m fun o m' => o.cls = c ∧ c.Proper P m'.store :=
  have hgrows : m.store.Grows (m.store.newObject c).2 := .of_frames rfl (Nat.le_refl _)
  .of_store rfl h hgrows (h.store.newObject c) ⟨rfl, hc.grows hgrows⟩

/-- A field is set to a proper value. -/
theorem setField_tends (h : m.Proper P) (o : Object) (name : String) {value : Value}
    (hvalue : value.Proper P m.store) :
    Tends P (modifyStore fun s => s.setField o name value) m fun _ _ => True :=
  .of_store rfl h (.of_frames rfl (Nat.le_refl _)) (h.store.setField o name hvalue) trivial

/-- What a field holds is proper. -/
theorem field_tends (h : m.Proper P) (o : Object) (name : String) :
    Tends P (return (← get).store.field? o name) m fun v? m' => ∀ v ∈ v?, v.Proper P m'.store :=
  Tends.get (.pure h fun v hv => h.store.fields o name v hv)

/-! ## Lines typed in -/

/-- A line that is no text is complained of at the keyword. -/
theorem typedLine_names {keyword : Token} {halt : Halt} (hk : P keyword)
    (h : (takeLine >>= typedValue keyword) m = .error halt m') : halt.Names P := by
  change typedValue keyword m.input.takeLine.1 { m with input := m.input.takeLine.2 } = _ at h
  cases hline : m.input.takeLine.1 with
  | absent =>
    rw [hline] at h
    cases h
  | text s =>
    rw [hline] at h
    cases h
  | unreadable =>
    rw [hline] at h
    cases h
    exact hk

/-! ## Operators, native functions and output -/

/-- A unary operator names itself, and gives a value with no frame in it. -/
theorem unary_tends (h : m.Proper P) {operator : Token} {value : Value} (ht : P operator) :
    Tends P (ofExcept operator (Value.unary operator.kind value)) m
      fun v m' => v.Proper P m'.store :=
  .ofExcept h ht fun _ hv => .of_bare (Value.unary_bare hv)

/-- A binary operator names itself; what it gives is its right operand or has no frame in it. -/
theorem binary_tends (h : m.Proper P) {operator : Token} {a b : Value} (ht : P operator)
    (hb : b.Proper P m.store) :
    Tends P (ofExcept operator (Value.binary operator.kind a b)) m
      fun v m' => v.Proper P m'.store := by
  refine .ofExcept h ht fun v hv => ?_
  rcases Value.binary_bare hv with rfl | hbare
  · exact hb
  · exact .of_bare hbare

/-- A native function names the parenthesis of its call. -/
theorem callNative_tends (h : m.Proper P) (n : Native) {paren : Token} (arguments : List Value)
    (ht : P paren) :
    Tends P (callNative n paren arguments) m fun v m' => v.Proper P m'.store := by
  unfold Tends callNative
  rcases hresult : n.apply arguments m.host with ⟨_ | v, host⟩
  · exact ⟨h.unchanged ⟨rfl, rfl, rfl, rfl⟩, rfl, ht⟩
  · exact ⟨h.unchanged ⟨rfl, rfl, rfl, rfl⟩, rfl, .of_bare (Native.apply_bare hresult)⟩

/-- Writing leaves the store alone, also where it is refused. -/
theorem writeLine_tends (h : m.Proper P) (value : Value) :
    Tends P (writeLine value) m fun _ _ => True :=
  .of_unchanged rfl h ⟨rfl, rfl, rfl, rfl⟩ rfl trivial

/-- A `print` that is refused names its keyword. -/
theorem print_tends (h : m.Proper P) {keyword : Token} (value : Value) (ht : P keyword) :
    Tends P (print keyword value) m fun _ _ => True := by
  refine (writeLine_tends h value).bind fun fits m' hm _ => ?_
  cases fits with
  | true => exact .pure hm.proper trivial
  | false => exact .fail hm.proper ht

end Eval

end Lox
