import Lox.Proofs.Lowered.Machine

/-!
# The parts of evaluation that run no program, with loops written out

Making functions, methods and classes, binding parameters, reading a line and printing do the same
in two runs.
-/

namespace Lox

variable {r : Runs} {w w' : FrameMap} {shape : Shape}

/-- Statements that end in the same way. -/
inductive Flow.Lowered (r : Runs) (w : FrameMap) : Flow → Flow → Prop where
  | normal : Flow.Lowered r w .normal .normal
  | breakLoop : Flow.Lowered r w .breakLoop .breakLoop
  | continueLoop : Flow.Lowered r w .continueLoop .continueLoop
  | returned {value value' : Value} (h : value.Lowered r.links w value') :
      Flow.Lowered r w (.returned value) (.returned value')

/-- The members have the same under their names. -/
abbrev Methods.Lowered (r : Runs) (w : FrameMap) : Methods → Methods → Prop :=
  Methods.Like (Function.Lowered r.links w [true])

theorem Methods.Lowered.grow {t t' : Methods} (h : Methods.Lowered r w t t') (hw : w <+: w') :
    Methods.Lowered r w' t t' :=
  fun name => (h name).imp fun _ _ hf => hf.grow hw

namespace Exec.Lowered

/-! ## Functions -/

/-- A function is made in a frame. -/
theorem newFunction {frame frame' : FrameId} {around inner : Shape}
    (hframe : w[frame']? = some (frame, around)) {d d' : FunctionDecl}
    (hd : Lowers r.links (inner ++ around) (.function d) (.function d')) (isInitializer : Bool)
    (hshared : isInitializer = true → (inner ++ around).Shared) (kind : MemberKind) :
    Exec.Lowered r w shape
      (fun w' f f' => Function.Lowered r.links w' inner f f' ∧ f.declaration = d)
      (Exec.fromStore fun s => s.newFunction d frame isInitializer kind)
      (Exec.fromStore fun s => s.newFunction d' frame' isInitializer kind) :=
  fromStore fun w₁ hw₁ _ _ hs =>
    ⟨w₁, List.prefix_refl _, hs.newSerial,
      ⟨hs.serial, rfl, rfl, around, FrameMap.grow hw₁ hframe, hshared, hd⟩, rfl⟩

/-- A function is made in the current frame. -/
theorem closureHere {d d' : FunctionDecl} (hd : Lowers r.links shape (.function d) (.function d'))
    {α : Type} {Q : FrameMap → α → α → Prop} {f f' : Function → Exec α}
    (hf : ∀ w', w <+: w' → ∀ g g', Function.Lowered r.links w' [] g g' → g.declaration = d →
      Exec.Lowered r w' shape Q (f g) (f' g')) :
    Exec.Lowered r w shape Q
      (do
        let m ← MonadState.get
        f (← Exec.fromStore fun s => s.newFunction d m.current false .method))
      (do
        let m ← MonadState.get
        f' (← Exec.fromStore fun s => s.newFunction d' m.current false .method)) := by
  refine get fun w₁ hw₁ m m' hm hcurrent => ?_
  have hmake : Exec.Lowered r w₁ shape
      (fun w' g g' => Function.Lowered r.links w' [] g g' ∧ g.declaration = d) _ _ :=
    newFunction hcurrent hd false nofun .method
  exact bind hmake fun w₂ hw₂ g g' hg => hf w₂ (hw₁.trans hw₂) g g' hg.1 hg.2

/-- A frame is made inside another. -/
theorem newFrame {frame frame' : FrameId} {around : Shape}
    (hframe : w[frame']? = some (frame, around)) :
    Exec.Lowered r w shape (fun w' f f' => w'[f']? = some (f, true :: around))
      (Exec.fromStore fun s => s.newFrame (some frame))
      (Exec.fromStore fun s => s.newFrame (some frame')) := by
  refine fromStore fun w₁ hw₁ s s' hs => ?_
  refine ⟨w₁ ++ [(s.frames.size, true :: around)], List.prefix_append _ _,
    hs.newFrame (FrameMap.grow hw₁ hframe), ?_⟩
  show (w₁ ++ [(s.frames.size, true :: around)])[s'.frames.size]? = _
  rw [hs.size]
  exact FrameMap.push_new _ _

/-- A frame is made inside the current one. -/
theorem innerFrame :
    Exec.Lowered r w shape (fun w' f f' => w'[f']? = some (f, true :: shape)) Exec.innerFrame
      Exec.innerFrame :=
  fun w₁ _ m m' hm hcurrent => newFrame hcurrent w₁ (List.prefix_refl _) m m' hm hcurrent

/-- A member is taken as a method of a receiver. -/
theorem bind' {f f' : Function} (hf : f.Lowered r.links w [true] f') {receiver receiver' : Value}
    (hreceiver : receiver.Lowered r.links w receiver') :
    Exec.Lowered r w shape (fun w' => Function.Lowered r.links w' []) (Eval.bind f receiver)
      (Eval.bind f' receiver') := by
  obtain ⟨around, haround, -, hlowers⟩ := hf.lowers
  refine fromStore fun w₁ hw₁ s s' hs => ?_
  have hgrow : w₁ <+: w₁ ++ [(s.frames.size, true :: around)] := List.prefix_append _ _
  have hframe := hs.newFrame (FrameMap.grow hw₁ haround)
  have hnew : (w₁ ++ [(s.frames.size, true :: around)])[s'.frames.size]? =
      some (s.frames.size, true :: around) := by
    rw [hs.size]
    exact FrameMap.push_new _ _
  have hbound := hframe.define hnew (Shape.shared_cons around) "this"
    (hreceiver.grow (hw₁.trans hgrow)) false
  exact ⟨_, hgrow, hbound.newSerial, hs.serial, hf.isInitializer, hf.kind, true :: around, hnew,
    fun _ => Shape.shared_cons around, hlowers⟩

/-- Both runs make an instance under the same number. -/
theorem newObject {c c' : Class} (hc : c.Lowered r.links w c') :
    Exec.Lowered r w shape (fun w' o o' => Value.Lowered r.links w' (.object o) (.object o'))
      (Exec.fromStore fun s => s.newObject c) (Exec.fromStore fun s => s.newObject c') := by
  refine fromStore fun w₁ hw₁ s s' hs => ⟨w₁, List.prefix_refl _, hs.newObject c c', ?_⟩
  unfold Store.newObject
  rw [hs.objects]
  exact .object _ (Class.Lowered.grow hc hw₁)

/-! ## Classes -/

/-- Both runs make a class of members and superclass that are related. -/
theorem newClass (name : String) {superclass superclass' : Option Class}
    (hsuperclass : Option.Rel (Class.Lowered r.links w) superclass superclass')
    {methods methods' classMethods classMethods' : Methods}
    (hmethods : Methods.Lowered r w methods methods')
    (hclassMethods : Methods.Lowered r w classMethods classMethods') :
    Exec.Lowered r w shape (fun w' => Class.Lowered r.links w')
      (Exec.fromStore fun s => s.newClass name superclass methods classMethods)
      (Exec.fromStore fun s => s.newClass name superclass' methods' classMethods') :=
  fromStore fun w₁ hw₁ _ _ hs =>
    ⟨w₁, List.prefix_refl _, hs.newSerial,
      .of_parts hs.serial name (hsuperclass.imp fun _ _ hc => Class.Lowered.grow hc hw₁)
        (hmethods.grow hw₁) (hclassMethods.grow hw₁)⟩

/-- Members are made in a frame and added to a table. -/
theorem addMembers {closure closure' : FrameId} {around : Shape}
    (hclosure : w[closure']? = some (closure, around)) (kind : MemberKind)
    {isInitializer : FunctionDecl → Bool}
    (hinitializer : ∀ d d' : FunctionDecl, d'.memberName = d.memberName →
      isInitializer d' = isInitializer d)
    {members members' : List FunctionDecl}
    (hmembers : Lowers r.links (true :: around) (.functions members) (.functions members'))
    {table table' : Methods} (htable : Methods.Lowered r w table table') :
    Exec.Lowered r w shape (fun w' => Methods.Lowered r w')
      (Eval.addMembers closure kind isInitializer members table)
      (Eval.addMembers closure' kind isInitializer members' table') := by
  induction members generalizing w table members' table' with
  | nil =>
    cases hmembers
    exact pure fun w' hw => htable.grow hw
  | cons d ds ih =>
    cases hmembers with
    | nextFunction hd hds =>
      unfold Eval.addMembers
      rw [List.foldlM_cons, List.foldlM_cons, hinitializer _ _ hd.declaration.2.1,
        hd.declaration.2.1]
      have hmake : Exec.Lowered r w shape (fun w' f f' => Function.Lowered r.links w' [true] f f' ∧
          f.declaration = d) _ _ :=
        newFunction hclosure hd (isInitializer d) (fun _ => Shape.shared_cons around) kind
      refine bind (R := fun w' => Methods.Lowered r w') ?_ fun w₁ hw₁ t t' ht =>
        ih (FrameMap.grow hw₁ hclosure) hds ht
      exact bind hmake fun w₁ hw₁ f f' hf =>
        pure fun w₂ hw₂ => Methods.Lowered.grow ((htable.grow hw₁).insert _ hf.1) hw₂

/-- The frame in which the members of a class are made. -/
theorem memberFrame {superclass superclass' : Option Class}
    (h : Option.Rel (Class.Lowered r.links w) superclass superclass') :
    Exec.Lowered r w shape
      (fun w' f f' => w'[f']? = some (f, (shape.members superclass.isSome).tail))
      (Eval.memberFrame superclass) (Eval.memberFrame superclass') := by
  cases h with
  | none => exact get fun w₁ hw₁ m m' hm hcurrent => pure fun w₂ hw₂ => FrameMap.grow hw₂ hcurrent
  | some hc =>
    refine bind innerFrame fun w₁ hw₁ frame frame' hframe => ?_
    refine bind (modifyStore fun w₂ hw₂ s s' hs => ?_) fun w₂ hw₂ _ _ _ => ?_
    · exact hs.define (FrameMap.grow hw₂ hframe) (Shape.shared_cons shape) "super"
        (.cls (Class.Lowered.grow hc (hw₁.trans hw₂))) false
    · exact pure fun w₃ hw₃ => FrameMap.grow (hw₂.trans hw₃) hframe

/-- A class is made and its name bound. -/
theorem declareClass {d d' : ClassDecl}
    (hd : Lowers r.links shape (.statement (.classDecl d)) (.statement (.classDecl d')))
    {superclass superclass' : Option Class}
    (h : Option.Rel (Class.Lowered r.links w) superclass superclass')
    (hsome : superclass.isSome = d.superclass.isSome) :
    Exec.Lowered r w shape (fun _ _ _ => True) (Eval.declareClass d superclass)
      (Eval.declareClass d' superclass') := by
  cases hd with
  | classDecl hshared hname _ hmethods hclassMethods hgetters hsetters =>
    dsimp only at hsome
    -- there is a frame for the superclass exactly if the class has a clause, as its shape says
    rw [← hsome] at hmethods hclassMethods hgetters hsetters
    unfold Eval.declareClass
    dsimp only
    rw [hname.lexeme]
    have hinit : ∀ d d' : FunctionDecl, d'.memberName = d.memberName →
        decide (d'.memberName = initializerName) = decide (d.memberName = initializerName) :=
      fun d d' h => by rw [h]
    refine bind (define hshared _ .nil false) fun w₁ hw₁ _ _ _ => ?_
    refine bind (memberFrame (h.imp fun _ _ hc => Class.Lowered.grow hc hw₁))
      fun w₂ hw₂ frame frame' hframe => ?_
    refine bind (addMembers hframe .method hinit hmethods .empty) fun w₃ hw₃ t t' ht => ?_
    have hframe₃ := FrameMap.grow hw₃ hframe
    refine bind (addMembers hframe₃ .getter (fun _ _ _ => rfl) hgetters ht)
      fun w₄ hw₄ t t' ht => ?_
    have hframe₄ := FrameMap.grow hw₄ hframe₃
    refine bind (addMembers hframe₄ .setter (fun _ _ _ => rfl) hsetters ht)
      fun w₅ hw₅ t t' ht => ?_
    have hframe₅ := FrameMap.grow hw₅ hframe₄
    refine bind (addMembers hframe₅ .method (fun _ _ _ => rfl) hclassMethods .empty)
      fun w₆ hw₆ u u' hu => ?_
    have hsuperclass := h.imp fun _ _ hc =>
      Class.Lowered.grow hc (hw₁.trans (hw₂.trans (hw₃.trans (hw₄.trans (hw₅.trans hw₆)))))
    refine bind (newClass _ hsuperclass (Methods.Lowered.grow ht hw₆) hu) fun w₇ hw₇ c c' hc => ?_
    exact define hshared _ (.cls hc) false

/-- The class that a superclass clause names. -/
theorem superclassOf {d d' : ClassDecl} (hd : d.name.Same d'.name) {clause clause' : Expr}
    (hclause : Lowers r.links shape (.expression clause) (.expression clause'))
    {value value' : Value} (h : value.Lowered r.links w value') :
    Exec.Lowered r w shape (fun w' => Class.Lowered r.links w') (Eval.superclassOf d clause value)
      (Eval.superclassOf d' clause' value') := by
  have hfail : Exec.Lowered r w shape (fun w' => Class.Lowered r.links w')
      (Eval.superclassOf d clause .nil) (Eval.superclassOf d' clause' .nil) := by
    cases hclause with
    | name _ hname => exact fail .superclassNotClass hname
    | _ => exact fail .superclassNotClass hd
  cases h with
  | cls hc => exact pure fun w' hw => Class.Lowered.grow hc hw
  | _ => exact hfail

/-! ## Members -/

/-- What `super` and a name stand for. -/
theorem inheritedMember {site site' : Site} {keyword keyword' method method' : Token}
    (hlink : r.links.inherits shape site site') (hkeyword : keyword.Same keyword')
    (hmethod : method.Same method') :
    Exec.Lowered r w shape (fun w' => Function.Lowered r.links w' [])
      (Eval.inheritedMember site keyword method)
      (Eval.inheritedMember site' keyword' method') := by
  refine get fun w₁ hw₁ m m' hm hcurrent => ?_
  obtain ⟨hdistance, hadjacent⟩ := hlink
  rw [hm.table, hm.table', hdistance, hmethod.lexeme]
  cases hd : r.table[site]? with
  | none => exact fail .superNotHere hkeyword
  | some distance =>
    have hfound := hm.store.getAt? hcurrent distance "super"
    -- the scope of the receiver lies just inside the one of the superclass, in both programs
    have hreceiver := (hm.store.getAt? hcurrent (distance - 1) "this").getD .nil
    rw [(hadjacent distance hd).2] at hreceiver
    dsimp only [Option.map_some]
    generalize m.store.getAt? m.current distance "super" = value at hfound ⊢
    generalize m'.store.getAt? m'.current (shape.far distance) "super" = value' at hfound ⊢
    cases hfound with
    | none => exact fail .superclassNotClass hkeyword
    | some hvalue =>
      cases hvalue with
      | @cls c c' hc =>
        have hmember : Option.Rel (Function.Lowered r.links w₁ [true])
            ((c.findMethod method.lexeme).or (c.findClassMethod method.lexeme))
            ((c'.findMethod method.lexeme).or (c'.findClassMethod method.lexeme)) := by
          have hm := hc.methods method.lexeme
          generalize c.findMethod method.lexeme = f at hm ⊢
          generalize c'.findMethod method.lexeme = f' at hm ⊢
          cases hm with
          | some hf => exact .some hf
          | none => exact hc.classMethods method.lexeme
        dsimp only
        generalize (c.findMethod method.lexeme).or (c.findClassMethod method.lexeme) = f
          at hmember ⊢
        generalize (c'.findMethod method.lexeme).or (c'.findClassMethod method.lexeme) = f'
          at hmember ⊢
        cases hmember with
        | some hf => exact bind' hf hreceiver
        | none => exact fail .undefinedProperty hmethod
      | _ => exact fail .superclassNotClass hkeyword

/-- A class method as a property of a class. -/
theorem classProperty {c c' : Class} (hc : c.Lowered r.links w c') {name name' : Token}
    (hname : name.Same name') :
    Exec.Lowered r w shape (Value.Lowered r.links) (Eval.classProperty c name)
      (Eval.classProperty c' name') := by
  unfold Eval.classProperty
  rw [hc.metaclass, hc.name, hname.lexeme]
  split
  next => exact pure fun w' hw => .cls (Class.Lowered.grow hc hw)
  next =>
    have hfound := hc.classMethods name.lexeme
    generalize c.findClassMethod name.lexeme = f at hfound ⊢
    generalize c'.findClassMethod name.lexeme = f' at hfound ⊢
    cases hfound with
    | none => exact fail .undefinedProperty hname
    | some hf =>
      exact bind (bind' hf (.cls hc)) fun w₁ hw₁ g g' hg =>
        pure fun w₂ hw₂ => .function (hg.grow hw₂)

/-! ## Calls -/

/-- Parameters are bound to arguments in a frame. -/
theorem bindParameters {frame frame' : FrameId} {around : Shape}
    (hframe : w[frame']? = some (frame, true :: around)) {f f' : Function}
    (hkind : f'.kind = f.kind)
    (hparameters : List.Forall₂ Token.Same f.declaration.parameters f'.declaration.parameters)
    {arguments arguments' : List Value}
    (harguments : List.Forall₂ (Value.Lowered r.links w) arguments arguments') :
    Exec.Lowered r w shape (fun _ _ _ => True) (Eval.bindParameters frame f arguments)
      (Eval.bindParameters frame' f' arguments') := by
  refine modifyStore fun w₁ hw₁ s s' hs => ?_
  rw [hkind]
  replace harguments := harguments.imp fun _ _ h => Value.Lowered.grow h hw₁
  replace hframe := FrameMap.grow hw₁ hframe
  generalize f.declaration.parameters = names at hparameters ⊢
  generalize f'.declaration.parameters = names' at hparameters ⊢
  induction hparameters generalizing arguments arguments' s s' with
  | nil => exact hs
  | @cons name name' _ _ hname _ ih =>
    cases harguments with
    | nil => exact hs
    | @cons value value' _ _ hvalue hvalues =>
      have hdefined := hs.define hframe (Shape.shared_cons around) name.lexeme hvalue
        (f.kind != .setter)
      refine ih _ _ ?_ hvalues
      dsimp only
      rw [hname.lexeme]
      exact hdefined

/-- What a call gives when its body has ended. -/
theorem callResult {f f' : Function} (hf : f.Lowered r.links w [] f') {flow flow' : Flow}
    (hflow : flow.Lowered r w flow') :
    Exec.Lowered r w shape (Value.Lowered r.links) (Eval.callResult f flow)
      (Eval.callResult f' flow') := by
  unfold Eval.callResult
  rw [hf.isInitializer]
  split
  next hinitializer =>
    obtain ⟨around, haround, hshared, -⟩ := hf.lowers
    refine get fun w₁ hw₁ m m' hm hcurrent => ?_
    -- the frame that an initializer was made in holds the receiver, and is one of both runs
    have hreceiver := hm.store.getAt? (FrameMap.grow hw₁ haround) 0 "this"
    have hfar : Shape.far around 0 = 0 := Shape.far_zero (hshared hinitializer)
    rw [hfar] at hreceiver
    exact pure fun w₂ hw₂ => Value.Lowered.grow (hreceiver.getD .nil) hw₂
  next =>
    cases hflow with
    | returned h => exact pure fun w' hw => Value.Lowered.grow h hw
    | _ => exact pure fun _ _ => .nil

/-! ## Input and output -/

/-- What a line typed in stands for. -/
theorem typedValue {keyword keyword' : Token} (hkeyword : keyword.Same keyword') (line : Line) :
    Exec.Lowered r w shape (Value.Lowered r.links) (Eval.typedValue keyword line)
      (Eval.typedValue keyword' line) := by
  cases line with
  | absent => exact pure fun _ _ => .nil
  | text s =>
    refine pure fun w' _ => ?_
    show Value.Lowered r.links w' (Value.ofTyped _) (Value.ofTyped _)
    unfold Value.ofTyped
    repeat' split
    all_goals constructor
  | unreadable => exact fail .inputUnreadable hkeyword

/-- Both runs read the same line and assign it to the same variable. -/
theorem input {keyword keyword' : Token} (hkeyword : keyword.Same keyword')
    {target target' : Expr}
    (htarget : Lowers r.links shape (.expression target) (.expression target')) :
    Exec.Lowered r w shape (fun _ _ _ => True) (Eval.input keyword target)
      (Eval.input keyword' target') := by
  refine bind takeLine fun w₁ hw₁ line line' hline => ?_
  subst hline
  refine bind (typedValue hkeyword line') fun w₂ hw₂ value value' hvalue => ?_
  cases htarget with
  | name hlink hname => exact assign hlink hname hvalue
  | _ => exact fail .inputTargetInvalid hkeyword

/-- Both runs write the same line, or are refused at the same token. -/
theorem print {keyword keyword' : Token} (hkeyword : keyword.Same keyword') {value value' : Value}
    (hvalue : value.Lowered r.links w value') :
    Exec.Lowered r w shape (fun _ _ _ => True) (Eval.print keyword value)
      (Eval.print keyword' value') := by
  refine bind (writeLine hvalue) fun w₁ hw₁ fits fits' hfits => ?_
  subst hfits
  cases fits' with
  | true => exact pure fun _ _ => trivial
  | false => exact fail .outputRefused hkeyword

end Exec.Lowered

end Lox
