import Lox.Eval
import Lox.Proofs.Twin.Store

/-!
# Computations of two runs

`Exec.Twin v l marks R x x'`: from machines that are twins, running in a frame for scopes with the
marks, the computations `x` and `x'` end alike. Either both give results that `R` relates, or both
fail with the same cause, and the machines are twins again; or both run out of fuel. There is one
law for each way in which computations are put together, and one for each step on the machine.
-/

namespace Lox

open Eval

variable {v : Variation} {l l' : Layout} {marks : List Bool} {α β : Type}

/-- The machines are in the same state but for the writing of their programs, and know the same of
the references that may occur. -/
structure Machine.Twin (v : Variation) (l : Layout) (m m' : Machine) : Prop where
  store : m.store.Twin v l m'.store
  globals : m'.globals = m.globals
  current : m'.current = m.current
  table : ∀ i i', v.known i i' → m.table[i]? = v.table[i]?
  table' : ∀ i i', v.known i i' → m'.table[i']? = v.table[i]?
  input : m'.input = m.input
  output : m'.output = m.output
  host : m'.host = m.host
  global : l[m.globals]? = some []

theorem Machine.Twin.withStore {m m' : Machine} (h : m.Twin v l m') {s s' : Store}
    (hs : s.Twin v l' s') (hl : l <+: l') :
    Machine.Twin v l' { m with store := s } { m' with store := s' } :=
  ⟨hs, h.globals, h.current, h.table, h.table', h.input, h.output, h.host,
    Layout.grow hl h.global⟩

/-- Machines that know more references. -/
theorem Machine.Twin.learn {v' : Variation} (hv : v.Within v') {m m' : Machine}
    (h : m.Twin v l m') {T T' : Table}
    (hT : ∀ i i', v'.known i i' → (m.learn T).table[i]? = v'.table[i]?)
    (hT' : ∀ i i', v'.known i i' → (m'.learn T').table[i']? = v'.table[i]?) :
    (m.learn T).Twin v' l (m'.learn T') :=
  ⟨h.store.vary hv, h.globals, h.current, hT, hT', h.input, h.output, h.host, h.global⟩

/-- Both computations end, and in the same way. -/
def EndTwin (v : Variation) (l : Layout) (frame : FrameId) (R : Layout → α → α → Prop) :
    EStateM.Result Halt Machine α → EStateM.Result Halt Machine α → Prop
  | .ok a m, .ok a' m' => ∃ l', l <+: l' ∧ m.Twin v l' m' ∧ m.current = frame ∧ R l' a a'
  | .error (.fault e) m, .error (.fault e') m' =>
    ∃ l', l <+: l' ∧ m.Twin v l' m' ∧ m.current = frame ∧ e.Twin v e'
  | .error .outOfFuel _, .error .outOfFuel _ => True
  | _, _ => False

/-- Both computations give a value, both fail, or both run out of fuel. -/
theorem EndTwin.cases {frame : FrameId} {R : Layout → α → α → Prop}
    {r r' : EStateM.Result Halt Machine α} (h : EndTwin v l frame R r r') :
    (∃ a m a' m', r = .ok a m ∧ r' = .ok a' m' ∧
      ∃ l', l <+: l' ∧ m.Twin v l' m' ∧ m.current = frame ∧ R l' a a') ∨
    (∃ e m e' m', r = .error (.fault e) m ∧ r' = .error (.fault e') m' ∧
      ∃ l', l <+: l' ∧ m.Twin v l' m' ∧ m.current = frame ∧ e.Twin v e') ∨
    ∃ m m', r = .error .outOfFuel m ∧ r' = .error .outOfFuel m' := by
  unfold EndTwin at h
  split at h
  next => exact .inl ⟨_, _, _, _, rfl, rfl, h⟩
  next => exact .inr (.inl ⟨_, _, _, _, rfl, rfl, h⟩)
  next => exact .inr (.inr ⟨_, _, rfl, rfl⟩)
  next => exact h.elim

theorem EndTwin.grows {frame : FrameId} {R : Layout → α → α → Prop}
    {r r' : EStateM.Result Halt Machine α} (h : EndTwin v l' frame R r r') (hl : l <+: l') :
    EndTwin v l frame R r r' := by
  rcases h.cases with ⟨a, m, a', m', rfl, rfl, l₁, hl₁, hend⟩ |
    ⟨e, m, e', m', rfl, rfl, l₁, hl₁, hend⟩ | ⟨m, m', rfl, rfl⟩
  · exact ⟨l₁, hl.trans hl₁, hend⟩
  · exact ⟨l₁, hl.trans hl₁, hend⟩
  · trivial

/-- Computations that do the same in both runs. -/
def Exec.Twin (v : Variation) (l : Layout) (marks : List Bool) (R : Layout → α → α → Prop)
    (x x' : Exec α) : Prop :=
  ∀ l', l <+: l' → ∀ m m', m.Twin v l' m' → l'[m.current]? = some marks →
    EndTwin v l' m.current R (x m) (x' m')

namespace Exec.Twin

variable {R : Layout → α → α → Prop} {Q : Layout → β → β → Prop} {x x' : Exec α}

/-! ## Laws -/

theorem grow (h : Exec.Twin v l marks R x x') (hl : l <+: l') : Exec.Twin v l' marks R x x' :=
  fun l₁ hl₁ => h l₁ (hl.trans hl₁)

theorem pure {a a' : α} (h : ∀ l', l <+: l' → R l' a a') :
    Exec.Twin v l marks R (pure a) (pure a') :=
  fun l' hl _ _ hm _ => ⟨l', List.prefix_refl _, hm, rfl, h l' hl⟩

theorem outOfFuel : Exec.Twin v l marks R Exec.outOfFuel Exec.outOfFuel :=
  fun _ _ _ _ _ _ => trivial

theorem bind {f f' : α → Exec β} (hx : Exec.Twin v l marks R x x')
    (hf : ∀ l', l <+: l' → ∀ a a', R l' a a' → Exec.Twin v l' marks Q (f a) (f' a')) :
    Exec.Twin v l marks Q (x >>= f) (x' >>= f') := by
  intro l₁ hl₁ m m' hm hmarks
  have hend := hx l₁ hl₁ m m' hm hmarks
  show EndTwin v l₁ m.current Q (EStateM.bind x f m) (EStateM.bind x' f' m')
  unfold EStateM.bind
  rcases hend.cases with ⟨a, m₁, a', m₁', hxm, hxm', l₂, hl₂, hm₁, hcurrent, ha⟩ |
    ⟨e, m₁, e', m₁', hxm, hxm', hfailed⟩ | ⟨m₁, m₁', hxm, hxm'⟩ <;> rw [hxm, hxm']
  -- the second computation starts where the first one ended, in a layout that has only grown
  · have hrest := hf l₂ (hl₁.trans hl₂) a a' ha l₂ (List.prefix_refl _) m₁ m₁' hm₁
      (hcurrent ▸ Layout.grow hl₂ hmarks)
    rw [hcurrent] at hrest
    exact hrest.grows hl₂
  · exact hfailed
  · trivial

/-- Both computations fail for the same cause, each at the name that it has. -/
theorem failNamed {marked : Bool} {t t' : Token} (cause : RuntimeCause)
    (ht : v.Keeps (t.renamed (v.name marked t.lexeme)) t') :
    Exec.Twin v l marks R (Exec.fail t cause) (Exec.fail t' cause) :=
  fun l' _ _ _ hm _ => ⟨l', List.prefix_refl _, hm, rfl, rfl, marked, ht⟩

theorem fail {t t' : Token} (cause : RuntimeCause) (ht : v.Keeps t t') :
    Exec.Twin v l marks R (Exec.fail t cause) (Exec.fail t' cause) :=
  failNamed cause (show v.Keeps (t.renamed (v.name false t.lexeme)) t' by rwa [v.name_false])

theorem ofExcept {t t' : Token} (ht : v.Keeps t t') {r r' : Except RuntimeCause Value}
    (hr : Value.ResultTwin v l r r') :
    Exec.Twin v l marks (Value.Twin v) (Exec.ofExcept t r) (Exec.ofExcept t' r') := by
  cases hr with
  | ok ha => exact pure fun l' hl => ha.grow hl
  | error cause => exact fail cause ht

/-- A computation with another frame as the current one. -/
theorem within {inner : List Bool} {frame : FrameId} (hframe : l[frame]? = some inner)
    (hx : Exec.Twin v l inner R x x') :
    Exec.Twin v l marks R (Exec.within frame x) (Exec.within frame x') := by
  intro l₁ hl₁ m m' hm hmarks
  have hinner : Machine.Twin v l₁ { m with current := frame } { m' with current := frame } :=
    ⟨hm.store, hm.globals, rfl, hm.table, hm.table', hm.input, hm.output, hm.host, hm.global⟩
  have hend := hx l₁ hl₁ _ _ hinner (Layout.grow hl₁ hframe)
  -- whichever way the computation ends, the frame of the caller is put back
  have hback : ∀ {l₂ m₁ m₁'}, Machine.Twin v l₂ m₁ m₁' →
      Machine.Twin v l₂ { m₁ with current := m.current } { m₁' with current := m'.current } :=
    fun h => ⟨h.store, h.globals, hm.current, h.table, h.table', h.input, h.output, h.host,
      h.global⟩
  unfold Exec.within
  rcases hend.cases with ⟨a, m₁, a', m₁', hxm, hxm', l₂, hl₂, hm₁, -, ha⟩ |
    ⟨e, m₁, e', m₁', hxm, hxm', l₂, hl₂, hm₁, -, he⟩ | ⟨m₁, m₁', hxm, hxm'⟩ <;> rw [hxm, hxm']
  · exact ⟨l₂, hl₂, hback hm₁, rfl, ha⟩
  · exact ⟨l₂, hl₂, hback hm₁, rfl, he⟩
  · trivial

/-- What is computed from the state. -/
theorem get {f f' : Machine → Exec β}
    (h : ∀ l', l <+: l' → ∀ m m', m.Twin v l' m' → l'[m.current]? = some marks →
      Exec.Twin v l' marks Q (f m) (f' m')) :
    Exec.Twin v l marks Q (get >>= f) (get >>= f') :=
  fun l' hl m m' hm hmarks => h l' hl m m' hm hmarks l' (List.prefix_refl _) m m' hm hmarks

/-! ## Steps on the store -/

/-- Both computations make something new in the store, and what they give is related there. -/
theorem fromStore {f f' : Store → α × Store}
    (h : ∀ l₁, l <+: l₁ → ∀ s s', s.Twin v l₁ s' →
      ∃ l₂, l₁ <+: l₂ ∧ (f s).2.Twin v l₂ (f' s').2 ∧ R l₂ (f s).1 (f' s').1) :
    Exec.Twin v l marks R (Exec.fromStore f) (Exec.fromStore f') := by
  intro l₁ hl₁ m m' hm hmarks
  obtain ⟨l₂, hl₂, hs, hresult⟩ := h l₁ hl₁ _ _ hm.store
  exact ⟨l₂, hl₂, hm.withStore hs hl₂, rfl, hresult⟩

/-- Both computations change their stores by functions that keep them twins. -/
theorem modifyStore {f f' : Store → Store}
    (h : ∀ l₁, l <+: l₁ → ∀ s s', s.Twin v l₁ s' → (f s).Twin v l₁ (f' s')) :
    Exec.Twin v l marks (fun _ _ _ => True) (Exec.modifyStore f) (Exec.modifyStore f') := by
  intro l₁ hl₁ m m' hm hmarks
  exact ⟨l₁, List.prefix_refl _, hm.withStore (h l₁ hl₁ _ _ hm.store) (List.prefix_refl _), rfl,
    trivial⟩

/-- The current frame binds a name. -/
theorem define {name name' : String} (hfresh : v.Fresh name)
    (hname : name' = v.name (marks.headD false) name) {value value' : Value}
    (hvalue : value.Twin v l value') (mutable : Bool) :
    Exec.Twin v l marks (fun _ _ _ => True) (Exec.define name value mutable)
      (Exec.define name' value' mutable) := by
  intro l₁ hl₁ m m' hm hmarks
  have hs : (m.store.define m.current name value mutable).Twin v l₁
      (m'.store.define m'.current name' value' mutable) := by
    rw [hm.current]
    exact hm.store.define hmarks hfresh hname (hvalue.grow hl₁) mutable
  exact ⟨l₁, List.prefix_refl _, hm.withStore hs (List.prefix_refl _), rfl, trivial⟩

end Exec.Twin

/-! ## References -/

namespace Machine.Twin

variable {m m' : Machine} (h : m.Twin v l m') (hmarks : l[m.current]? = some marks)
  {site site' : Site}
variable (hknown : v.known site site') {name : String} (hfresh : v.Fresh name)

include h hmarks hknown hfresh

/-- The value of a reference is found under its other name. -/
theorem lookUp : Option.Rel (Value.Twin v l) (m.lookUp site name)
    (m'.lookUp site' (v.name (v.marked marks site) name)) := by
  unfold Machine.lookUp Variation.marked
  rw [h.table site site' hknown, h.table' site site' hknown, h.globals, h.current]
  cases v.table[site]? with
  | none =>
    dsimp only
    rw [v.name_false]
    exact h.store.get?_global h.global hfresh
  | some distance => exact h.store.getAt? hmarks distance hfresh

/-- An assignment to a reference is for the same frame. -/
theorem target : m'.target site' (v.name (v.marked marks site) name) = m.target site name := by
  unfold Machine.target Variation.marked
  rw [h.table site site' hknown, h.table' site site' hknown, h.globals, h.current]
  cases v.table[site]? with
  | none =>
    dsimp only
    rw [v.name_false]
    exact h.store.target_global h.global hfresh
  | some distance => exact h.store.targetAt hmarks distance hfresh

/-- The frame that an assignment is for was made for the scope that the distance leads to. -/
theorem target_marks {frame : FrameId} (htarget : m.target site name = .ok frame) :
    ∃ around, l[frame]? = some around ∧ around.headD false = v.marked marks site := by
  unfold Machine.target at htarget
  unfold Variation.marked
  rw [h.table site site' hknown] at htarget
  cases hdistance : v.table[site]? with
  | none =>
    rw [hdistance] at htarget
    dsimp only at htarget
    unfold Store.target at htarget
    split at htarget
    next found hfound =>
      obtain rfl := Store.targetIn_ok htarget
      exact ⟨[], (h.store.search_global hfresh h.global).2 found hfound, rfl⟩
    next => cases htarget
  | some distance =>
    rw [hdistance] at htarget
    dsimp only at htarget
    unfold Store.targetAt at htarget
    split at htarget
    next ancestor hancestor =>
      obtain rfl := Store.targetIn_ok htarget
      refine ⟨_, h.store.marks_ancestor? hmarks hancestor, ?_⟩
      rw [List.headD_eq_head?_getD, List.head?_drop]
    next => cases htarget

end Machine.Twin

namespace Exec.Twin

variable {site site' : Site} {name name' : Token}

theorem lookUp (hknown : v.known site site') (hname : v.Names (v.marked marks site) name name') :
    Exec.Twin v l marks (Value.Twin v) (Exec.lookUp site name) (Exec.lookUp site' name') := by
  refine get fun l₁ hl₁ m m' hm hmarks => ?_
  have hfound := hm.lookUp hmarks hknown hname.fresh
  rw [← hname.lexeme] at hfound
  generalize m.lookUp site name.lexeme = value at hfound
  generalize m'.lookUp site' name'.lexeme = value' at hfound
  cases hfound with
  | some hvalue => exact pure fun l₂ hl₂ => hvalue.grow hl₂
  | none => exact failNamed .undefinedVariable hname.keeps

theorem assign (hknown : v.known site site') (hname : v.Names (v.marked marks site) name name')
    {value value' : Value} (hvalue : value.Twin v l value') :
    Exec.Twin v l marks (fun _ _ _ => True) (Exec.assign site name value)
      (Exec.assign site' name' value') := by
  intro l₁ hl₁ m m' hm hmarks
  have hsame := hm.target hmarks hknown hname.fresh
  rw [← hname.lexeme] at hsame
  unfold Exec.assign
  rw [hsame]
  cases htarget : m.target site name.lexeme with
  | ok frame =>
    obtain ⟨around, haround, hmark⟩ := hm.target_marks hmarks hknown hname.fresh htarget
    have hs := hm.store.define haround hname.fresh (hmark ▸ hname.lexeme) (hvalue.grow hl₁) true
    exact ⟨l₁, List.prefix_refl _, hm.withStore hs (List.prefix_refl _), rfl, trivial⟩
  | error fault => exact ⟨l₁, List.prefix_refl _, hm, rfl, rfl, _, hname.keeps⟩

/-! ## Input, output and native functions -/

theorem takeLine :
    Exec.Twin v l marks (fun _ line line' => line' = line) Exec.takeLine Exec.takeLine := by
  intro l₁ hl₁ m m' hm hmarks
  refine ⟨l₁, List.prefix_refl _, ?_, rfl, ?_⟩
  · exact ⟨hm.store, hm.globals, hm.current, hm.table, hm.table', by rw [hm.input], hm.output,
      hm.host, hm.global⟩
  · show (m'.input.takeLine).1 = (m.input.takeLine).1
    rw [hm.input]

theorem writeLine {value value' : Value} (hvalue : value.Twin v l value') :
    Exec.Twin v l marks (fun _ fits fits' => fits' = fits) (Exec.writeLine value)
      (Exec.writeLine value') := by
  intro l₁ hl₁ m m' hm hmarks
  unfold Exec.writeLine
  rw [hvalue.text]
  refine ⟨l₁, List.prefix_refl _, ?_, rfl, ?_⟩
  · exact ⟨hm.store, hm.globals, hm.current, hm.table, hm.table', hm.input,
      by rw [hm.output], hm.host, hm.global⟩
  · show (m'.output.writeLine value.text).1 = (m.output.writeLine value.text).1
    rw [hm.output]

theorem callNative (n : Native) {paren paren' : Token} (hparen : v.Keeps paren paren')
    {arguments arguments' : List Value} (h : List.Forall₂ (Value.Twin v l) arguments arguments') :
    Exec.Twin v l marks (Value.Twin v) (Eval.callNative n paren arguments)
      (Eval.callNative n paren' arguments') := by
  intro l₁ hl₁ m m' hm hmarks
  have hhost : ∀ host, Machine.Twin v l₁ { m with host } { m' with host } := fun host =>
    ⟨hm.store, hm.globals, hm.current, hm.table, hm.table', hm.input, hm.output, rfl, hm.global⟩
  unfold Eval.callNative
  rw [Native.apply_like (fun _ _ hf => hf.seen) n (h.imp fun _ _ ha => ha.like), hm.host]
  -- what a native function gives is no reference into the store, so it is its own twin everywhere
  have hplain := fun a => @Native.apply_plain n arguments m.host a
  generalize n.apply arguments m.host = result at hplain
  obtain ⟨result, host⟩ := result
  cases result with
  | ok a => exact ⟨l₁, List.prefix_refl _, hhost host, rfl, (hplain a rfl _ _).twin⟩
  | error fault =>
    refine ⟨l₁, List.prefix_refl _, hhost host, rfl, rfl, false, ?_⟩
    show v.Keeps (paren.renamed (v.name false paren.lexeme)) paren'
    rwa [v.name_false]

end Exec.Twin

end Lox
