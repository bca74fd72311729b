import Lox.Proofs.Twin.Machine

/-!
# The parts of evaluation that run no program

Making functions, methods and classes, binding parameters and reading a line do the same in two
runs.
-/

namespace Lox

open Exec

variable {v : Variation} {l l' : Layout} {marks : List Bool}

/-- Statements that end in the same way. -/
inductive Flow.Twin (v : Variation) (l : Layout) : Flow → Flow → Prop where
  | normal : Flow.Twin v l .normal .normal
  | breakLoop : Flow.Twin v l .breakLoop .breakLoop
  | continueLoop : Flow.Twin v l .continueLoop .continueLoop
  | returned {value value' : Value} (h : value.Twin v l value') :
      Flow.Twin v l (.returned value) (.returned value')

/-- The members have twins under their names. -/
def Methods.Twin (v : Variation) (l : Layout) (t t' : Methods) : Prop :=
  ∀ name : String, Option.Rel (Function.Twin v l [false]) t[name]? t'[name]?

theorem Methods.Twin.grow {t t' : Methods} (h : Methods.Twin v l t t') (hl : l <+: l') :
    Methods.Twin v l' t t' :=
  fun name => (h name).imp fun _ _ hf => hf.grow hl

namespace Exec.Twin

/-! ## Functions -/

/-- A function is made in a frame. -/
theorem newFunction {frame : FrameId} {around inner : List Bool} (hframe : l[frame]? = some around)
    {d d' : FunctionDecl} (hd : Alike v (inner ++ around) (.function d) (.function d'))
    (isInitializer : Bool) (kind : MemberKind) :
    Exec.Twin v l marks (fun l' => Function.Twin v l' inner)
      (Exec.fromStore fun s => s.newFunction d frame isInitializer kind)
      (Exec.fromStore fun s => s.newFunction d' frame isInitializer kind) :=
  fromStore fun l₁ hl₁ _ _ hs =>
    ⟨l₁, List.prefix_refl _, hs.newSerial, hs.serial, rfl, rfl, rfl, around,
      Layout.grow hl₁ hframe, hd⟩

/-- A frame is made inside another. -/
theorem newFrame {frame : FrameId} {around : List Bool} (hframe : l[frame]? = some around)
    (mark : Bool) :
    Exec.Twin v l marks (fun l' f f' => f' = f ∧ l'[f]? = some (mark :: around))
      (Exec.fromStore fun s => s.newFrame (some frame))
      (Exec.fromStore fun s => s.newFrame (some frame)) := by
  refine fromStore fun l₁ hl₁ s s' hs => ?_
  refine ⟨l₁ ++ [mark :: around], List.prefix_append _ _,
    hs.newFrame (Layout.grow hl₁ hframe) mark, ?_, ?_⟩
  · show s'.frames.size = s.frames.size
    rw [hs.size, hs.size']
  · show (l₁ ++ [mark :: around])[s.frames.size]? = _
    rw [hs.size]
    simp

/-- A frame is made inside the current one. -/
theorem innerFrame (mark : Bool) :
    Exec.Twin v l marks (fun l' f f' => f' = f ∧ l'[f]? = some (mark :: marks)) Exec.innerFrame
      Exec.innerFrame := by
  intro l₁ hl₁ m m' hm hmarks
  have hsame : Exec.innerFrame m' =
      Exec.fromStore (fun s => s.newFrame (some m.current)) m' := by
    rw [← hm.current]
    rfl
  rw [hsame]
  exact newFrame hmarks mark l₁ (List.prefix_refl _) m m' hm hmarks

/-- A member is taken as a method of a receiver. -/
theorem bind' {f f' : Function} (hf : f.Twin v l [false] f') {receiver receiver' : Value}
    (hreceiver : receiver.Twin v l receiver') :
    Exec.Twin v l marks (fun l' => Function.Twin v l' []) (Eval.bind f receiver)
      (Eval.bind f' receiver') := by
  obtain ⟨around, haround, halike⟩ := hf.alike
  refine fromStore fun l₁ hl₁ s s' hs => ?_
  have hgrow : l₁ <+: l₁ ++ [false :: around] := List.prefix_append _ _
  have hframe := hs.newFrame (Layout.grow hl₁ haround) false
  have hnew : (l₁ ++ [false :: around])[s.frames.size]? = some (false :: around) := by
    rw [hs.size]
    simp
  have hthis := v.stays_this false
  have hbound := hframe.define hnew hthis.fresh hthis.same.symm
    (hreceiver.grow (hl₁.trans hgrow)) false
  have hsize : s'.frames.size = s.frames.size := by rw [hs.size, hs.size']
  refine ⟨_, hgrow, ?_, hs.serial, ?_, hf.isInitializer, hf.kind, false :: around, hnew, halike⟩
  · show Store.Twin v _ _ (((s'.newFrame (some f'.closure)).2.define s'.frames.size "this" receiver'
      false).newSerial).2
    rw [hf.closure, hsize]
    exact hbound.newSerial
  · exact hsize

/-! ## Classes -/

/-- Both runs make a class of members and superclass that are twins. -/
theorem newClass (name : String) {superclass superclass' : Option Class}
    (hsuperclass : Option.Rel (Class.Twin v l) superclass superclass')
    {methods methods' classMethods classMethods' : Methods}
    (hmethods : Methods.Twin v l methods methods')
    (hclassMethods : Methods.Twin v l classMethods classMethods') :
    Exec.Twin v l marks (fun l' => Class.Twin v l')
      (Exec.fromStore fun s => s.newClass name superclass methods classMethods)
      (Exec.fromStore fun s => s.newClass name superclass' methods' classMethods') :=
  fromStore fun l₁ hl₁ _ _ hs =>
    ⟨l₁, List.prefix_refl _, hs.newSerial,
      (Class.Like.of_parts hs.serial name (hsuperclass.imp fun _ _ hc => (hc.grow hl₁).like)
        (hmethods.grow hl₁) (hclassMethods.grow hl₁)).twin⟩

/-- Members are made in a frame and added to a table. -/
theorem addMembers {closure : FrameId} {around : List Bool} (hclosure : l[closure]? = some around)
    (kind : MemberKind) {isInitializer : FunctionDecl → Bool}
    (hinitializer : ∀ d d' : FunctionDecl, d'.memberName = d.memberName →
      isInitializer d' = isInitializer d)
    {members members' : List FunctionDecl}
    (hmembers : Alike v (false :: around) (.functions members) (.functions members'))
    {table table' : Methods} (htable : Methods.Twin v l table table') :
    Exec.Twin v l marks (fun l' => Methods.Twin v l')
      (Eval.addMembers closure kind isInitializer members table)
      (Eval.addMembers closure kind isInitializer members' table') := by
  induction members generalizing l table members' table' with
  | nil =>
    cases hmembers
    exact pure fun l' hl => htable.grow hl
  | cons d ds ih =>
    cases hmembers with
    | nextFunction hd hds =>
      unfold Eval.addMembers
      rw [List.foldlM_cons, List.foldlM_cons, hinitializer _ _ hd.declaration.2.1,
        hd.declaration.2.1]
      have hmake : Exec.Twin v l marks (fun l' => Function.Twin v l' [false]) _ _ :=
        newFunction hclosure hd (isInitializer d) kind
      refine bind (R := fun l' => Methods.Twin v l') ?_ fun l₁ hl₁ t t' ht =>
        ih (Layout.grow hl₁ hclosure) hds ht
      exact bind hmake fun l₁ hl₁ f f' hf =>
        pure fun l₂ hl₂ => Methods.Twin.grow (Methods.Like.insert (htable.grow hl₁) _ hf) hl₂

/-- The frame in which the members of a class are made. -/
theorem memberFrame {superclass superclass' : Option Class}
    (h : Option.Rel (Class.Twin v l) superclass superclass') :
    Exec.Twin v l marks
      (fun l' f f' => f' = f ∧ l'[f]? = some (memberMarks superclass.isSome marks).tail)
      (Eval.memberFrame superclass) (Eval.memberFrame superclass') := by
  cases h with
  | none =>
    refine get fun l₁ hl₁ m m' hm hmarks => ?_
    exact pure fun l₂ hl₂ => ⟨hm.current, Layout.grow hl₂ hmarks⟩
  | some hc =>
    refine bind (innerFrame false) fun l₁ hl₁ frame frame' hframe => ?_
    obtain ⟨rfl, hframe⟩ := hframe
    have hsuper := v.stays_super false
    refine bind (modifyStore fun l₂ hl₂ s s' hs => ?_) fun l₂ hl₂ _ _ _ => ?_
    · exact hs.define (Layout.grow hl₂ hframe) hsuper.fresh hsuper.same.symm
        (.cls ((hc.grow hl₁).grow hl₂)) false
    · exact pure fun l₃ hl₃ => ⟨rfl, Layout.grow hl₃ (Layout.grow hl₂ hframe)⟩

/-- A class is made and its name bound. -/
theorem declareClass {d d' : ClassDecl}
    (hd : Alike v marks (.statement (.classDecl d)) (.statement (.classDecl d')))
    {superclass superclass' : Option Class}
    (h : Option.Rel (Class.Twin v l) superclass superclass')
    (hsome : superclass.isSome = d.superclass.isSome) :
    Exec.Twin v l marks (fun _ _ _ => True) (Eval.declareClass d superclass)
      (Eval.declareClass d' superclass') := by
  cases hd with
  | classDecl hstays hname _ hmethods hclassMethods hgetters hsetters =>
    dsimp only at hsome
    -- there is a frame for the superclass exactly if the class has a clause, as its marks say
    rw [← hsome] at hmethods hclassMethods hgetters hsetters
    have hsame := hname.lexeme
    have hempty : ∀ l, Methods.Twin v l ∅ ∅ := fun _ => Methods.Like.empty
    unfold Eval.declareClass
    dsimp only
    rw [hsame]
    refine bind (define hstays.fresh hstays.same.symm .nil false) fun l₁ hl₁ _ _ _ => ?_
    refine bind (memberFrame (h.imp fun _ _ hc => hc.grow hl₁)) fun l₂ hl₂ frame frame' hframe => ?_
    obtain ⟨rfl, hframe⟩ := hframe
    have hinit : ∀ d d' : FunctionDecl, d'.memberName = d.memberName →
        decide (d'.memberName = initializerName) = decide (d.memberName = initializerName) :=
      fun d d' h => by rw [h]
    refine bind (addMembers hframe .method hinit hmethods (hempty _)) fun l₃ hl₃ t t' ht => ?_
    have hframe₃ := Layout.grow hl₃ hframe
    refine bind (addMembers hframe₃ .getter (fun _ _ _ => rfl) hgetters ht)
      fun l₄ hl₄ t t' ht => ?_
    have hframe₄ := Layout.grow hl₄ hframe₃
    refine bind (addMembers hframe₄ .setter (fun _ _ _ => rfl) hsetters ht)
      fun l₅ hl₅ t t' ht => ?_
    have hframe₅ := Layout.grow hl₅ hframe₄
    refine bind (addMembers hframe₅ .method (fun _ _ _ => rfl) hclassMethods (hempty _))
      fun l₆ hl₆ u u' hu => ?_
    have hsuperclass := h.imp fun _ _ hc =>
      hc.grow (hl₁.trans (hl₂.trans (hl₃.trans (hl₄.trans (hl₅.trans hl₆)))))
    refine bind (newClass _ hsuperclass (ht.grow hl₆) hu) fun l₇ hl₇ c c' hc => ?_
    exact define hstays.fresh hstays.same.symm (.cls hc) false

/-- The class that a superclass clause names. -/
theorem superclassOf {d d' : ClassDecl} (hd : v.Keeps d.name d'.name) {clause clause' : Expr}
    (hclause : Alike v marks (.expression clause) (.expression clause')) {value value' : Value}
    (h : value.Twin v l value') :
    Exec.Twin v l marks (fun l' => Class.Twin v l') (Eval.superclassOf d clause value)
      (Eval.superclassOf d' clause' value') := by
  have hfail : Exec.Twin v l marks (fun l' => Class.Twin v l')
      (Eval.superclassOf d clause .nil) (Eval.superclassOf d' clause' .nil) := by
    cases hclause with
    | name hknown hname => exact failNamed .superclassNotClass hname.keeps
    | _ => exact fail .superclassNotClass hd
  cases h with
  | cls hc => exact pure fun l' hl => hc.grow hl
  | _ => exact hfail

/-! ## Members -/

/-- What `super` and a name stand for. -/
theorem inheritedMember {site site' : Site} {keyword keyword' method method' : Token}
    (hknown : v.known site site') (hkeyword : v.Names (v.marked marks site) keyword keyword')
    (hmethod : v.Keeps method method') :
    Exec.Twin v l marks (fun l' => Function.Twin v l' []) (Eval.inheritedMember site keyword method)
      (Eval.inheritedMember site' keyword' method') := by
  refine get fun l₁ hl₁ m m' hm hmarks => ?_
  rw [hm.table site site' hknown, hm.table' site site' hknown, hm.current, hmethod.lexeme]
  cases v.table[site]? with
  | none => exact failNamed .superNotHere hkeyword.keeps
  | some distance =>
    have hsuper := v.stays_super (marks[distance]?.getD false)
    have hfound := hm.store.getAt? hmarks distance hsuper.fresh
    rw [hsuper.same] at hfound
    dsimp only
    generalize m.store.getAt? m.current distance "super" = value at hfound ⊢
    generalize m'.store.getAt? m.current distance "super" = value' at hfound ⊢
    cases hfound with
    | none => exact failNamed .superclassNotClass hkeyword.keeps
    | some hvalue =>
      cases hvalue with
      | @cls c c' hc =>
        -- a method comes before a class method, in both classes
        have hreceiver := hm.store.receiver hmarks (distance - 1)
        have hmember : Option.Rel (Function.Twin v l₁ [false])
            ((c.findMethod method.lexeme).or (c.findClassMethod method.lexeme))
            ((c'.findMethod method.lexeme).or (c'.findClassMethod method.lexeme)) := by
          have hm := hc.methods method.lexeme
          generalize c.findMethod method.lexeme = f at hm ⊢
          generalize c'.findMethod method.lexeme = f' at hm ⊢
          cases hm with
          | some hf => exact .some hf
          | none => exact hc.classMethods method.lexeme
        dsimp only
        generalize (c.findMethod method.lexeme).or (c.findClassMethod method.lexeme) = f
          at hmember ⊢
        generalize (c'.findMethod method.lexeme).or (c'.findClassMethod method.lexeme) = f'
          at hmember ⊢
        cases hmember with
        | some hf => exact bind' hf hreceiver
        | none => exact fail .undefinedProperty hmethod
      | _ => exact failNamed .superclassNotClass hkeyword.keeps

/-- A class method as a property of a class. -/
theorem classProperty {c c' : Class} (hc : c.Twin v l c') {name name' : Token}
    (hname : v.Keeps name name') :
    Exec.Twin v l marks (Value.Twin v) (Eval.classProperty c name)
      (Eval.classProperty c' name') := by
  unfold Eval.classProperty
  rw [hc.metaclass, hc.name, hname.lexeme]
  split
  next => exact pure fun l' hl => .cls (hc.grow hl)
  next =>
    have hfound := hc.classMethods name.lexeme
    generalize c.findClassMethod name.lexeme = f at hfound ⊢
    generalize c'.findClassMethod name.lexeme = f' at hfound ⊢
    cases hfound with
    | none => exact fail .undefinedProperty hname
    | some hf =>
      exact bind (bind' hf (.cls hc)) fun l₁ hl₁ g g' hg =>
        pure fun l₂ hl₂ => .function (hg.grow hl₂)

/-! ## Calls -/

/-- Parameters are bound to arguments in a frame. -/
theorem bindParameters {frame : FrameId} {mark : Bool} {around : List Bool}
    (hframe : l[frame]? = some (mark :: around)) {f f' : Function} (hkind : f'.kind = f.kind)
    (hparameters :
      List.Forall₂ (v.Names mark) f.declaration.parameters f'.declaration.parameters)
    {arguments arguments' : List Value}
    (harguments : List.Forall₂ (Value.Twin v l) arguments arguments') :
    Exec.Twin v l marks (fun _ _ _ => True) (Eval.bindParameters frame f arguments)
      (Eval.bindParameters frame f' arguments') := by
  refine modifyStore fun l₁ hl₁ s s' hs => ?_
  rw [hkind]
  replace harguments := harguments.imp fun _ _ h => h.grow hl₁
  replace hframe := Layout.grow hl₁ hframe
  generalize f.declaration.parameters = names at hparameters ⊢
  generalize f'.declaration.parameters = names' at hparameters ⊢
  induction hparameters generalizing arguments arguments' s s' with
  | nil => exact hs
  | cons hname _ ih =>
    cases harguments with
    | nil => exact hs
    | cons hvalue hvalues =>
      exact ih _ _ (hs.define hframe hname.fresh hname.lexeme hvalue _) hvalues

/-- What a call gives when its body has ended. -/
theorem callResult {f f' : Function} (hf : f.Twin v l [] f') {flow flow' : Flow}
    (hflow : flow.Twin v l flow') :
    Exec.Twin v l marks (Value.Twin v) (Eval.callResult f flow) (Eval.callResult f' flow') := by
  unfold Eval.callResult
  rw [hf.isInitializer]
  split
  next =>
    obtain ⟨around, haround, -⟩ := hf.alike
    refine get fun l₁ hl₁ m m' hm hmarks => ?_
    rw [hf.closure]
    exact pure fun l₂ hl₂ => (hm.store.receiver (Layout.grow hl₁ haround) 0).grow hl₂
  next =>
    cases hflow with
    | returned h => exact pure fun l' hl => h.grow hl
    | _ => exact pure fun _ _ => .nil

end Exec.Twin

end Lox
