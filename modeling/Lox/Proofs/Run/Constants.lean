import Lox.Proofs.Run.Log
import Lox.Proofs.Run.Sessions

/-!
# Constants stay constant

A step changes what a frame binds a name to only if it declares the name in that frame, or assigns
to a binding that may be assigned to (`Binds`). So a binding that may not be assigned to stays what
it is up to a declaration of the same name in the same frame, and an assignment to it fails and does
nothing (`Chronicle.constants_stay`). No declaration and no assignment is for `this` or `super`, so
what a frame binds these to never changes.
-/

namespace Lox

/-- A frame that is not there binds nothing. -/
theorem Store.binding?_of_size_le {s : Store} {frame : FrameId} (h : s.frames.size ≤ frame)
    (name : String) : s.binding? frame name = none := by
  unfold binding?
  rw [Array.getElem?_eq_none h]
  rfl

namespace Eval

open Exec

/-! ## What steps bind -/

/-- The name that a step binds in the current frame. -/
def Mark.binds? : Mark → Option String
  | .declares s => some ((s.declared?.map Token.lexeme).getD "")
  | .members d => some d.name.lexeme
  | .nothing | .refers _ | .frame _ | .function | .method _ => none

/-- What a step declares may be assigned to. -/
def Mark.Variable : Mark → Prop
  | .declares s => ∃ name value, s = .var name value
  | .nothing | .refers _ | .frame _ | .function | .members _ | .method _ => False

/-- The reference that a task assigns to. -/
def Task.assignment? : Task → Option (Site × Token)
  | .expression (.assign site name _) => some (site, name)
  | .statement (.input _ (.variable site name)) => some (site, name)
  | _ => none

/-- What a step binds: in frames that were there before, what it declares in the current frame, and
what it assigns to. Only parameters of functions that are no setters may be assigned to in the
frames that it makes. -/
structure Binds (tasks : List Task) (mark : Mark) (m : Machine) (halt : Option Halt)
    (m' : Machine) : Prop where
  size : m.store.frames.size ≤ m'.store.frames.size
  old : ∀ frame < m.store.frames.size, ∀ name,
    m'.store.binding? frame name = m.store.binding? frame name ∨
      (frame = m.current ∧ mark.binds? = some name) ∨
      ((∃ token ∈ mark.assigned?, token.lexeme = name) ∧
        ∃ b, m.store.binding? frame name = some b ∧ b.mutable = true)
  declared : halt = none → ∀ name, mark.binds? = some name → ∀ b,
    m'.store.binding? m.current name = some b → (b.mutable = true ↔ mark.Variable)
  fresh : ∀ frame ≥ m.store.frames.size, ∀ name b, m'.store.binding? frame name = some b →
    b.mutable = true → ∃ f arguments outer, tasks = .invoke f arguments :: outer ∧ f.kind ≠ .setter

/-- A step that should assign to a reference does so if what this leads to may be assigned to, and
otherwise fails and does nothing. -/
def Assigns (site : Site) (name : Token) (m : Machine) (halt : Option Halt) (m' : Machine) : Prop :=
  match m.target site name.lexeme with
  | .ok frame => halt = none ∧
      ∃ value, m' = { m with store := m.store.define frame name.lexeme value true }
  | .error fault => halt = some (.fault ⟨name, fault.cause⟩) ∧ m' = m

/-- What every step does. -/
def StepLaw (tasks : List Task) (mark : Mark) (m : Machine) (halt : Option Halt)
    (m' : Machine) : Prop :=
  Binds tasks mark m halt m' ∧ ∀ t ∈ tasks.head?, ∀ site name, t.assignment? = some (site, name) →
    ∀ e, mark = .refers e → Assigns site name m halt m'

section Binds

variable {tasks : List Task} {mark : Mark} {m m' : Machine} {halt : Option Halt}

/-- A step that at most makes frames. -/
theorem Binds.of_old (hsize : m.store.frames.size ≤ m'.store.frames.size)
    (hmark : mark.binds? = none)
    (hold : ∀ frame < m.store.frames.size, ∀ name,
      m'.store.binding? frame name = m.store.binding? frame name)
    (hfresh : ∀ frame ≥ m.store.frames.size, ∀ name b, m'.store.binding? frame name = some b →
      b.mutable = true →
        ∃ f arguments outer, tasks = .invoke f arguments :: outer ∧ f.kind ≠ .setter) :
    Binds tasks mark m halt m' := by
  refine ⟨hsize, fun frame hframe name => .inl (hold frame hframe name), fun _ name hname => ?_,
    hfresh⟩
  rw [hmark] at hname
  cases hname

/-- A step that does not change the frames. -/
theorem Binds.of_frames (h : m'.store.frames = m.store.frames) (hmark : mark.binds? = none) :
    Binds tasks mark m halt m' := by
  have hbinding : ∀ frame name, m'.store.binding? frame name = m.store.binding? frame name := by
    intro frame name
    unfold Store.binding?
    rw [h]
  refine .of_old (Nat.le_of_eq (by rw [h])) hmark (fun frame _ name => hbinding frame name) ?_
  intro frame hframe name b hb
  rw [hbinding, Store.binding?_of_size_le hframe] at hb
  cases hb

/-- A step that makes frames in which nothing may be assigned to, and then binds in the current
frame the name that it declares. -/
theorem Binds.of_define {s : Store} {name : String} {value : Value} {mutable : Bool}
    (hsize : m.store.frames.size ≤ s.frames.size)
    (hold : ∀ frame < m.store.frames.size, ∀ other, ¬(frame = m.current ∧ other = name) →
      s.binding? frame other = m.store.binding? frame other)
    (hfresh : ∀ frame ≥ m.store.frames.size, ∀ other b, s.binding? frame other = some b →
      b.mutable = false)
    (hmark : mark.binds? = some name) (hvariable : mutable = true ↔ mark.Variable)
    (hmutable : mutable = true → s.frames.size = m.store.frames.size) :
    Binds tasks mark m halt { m with store := s.define m.current name value mutable } := by
  refine ⟨(Store.define_size s ..).symm ▸ hsize, fun frame hframe other => ?_,
    fun _ other hother b hb => ?_, fun frame hframe other b hb hb' => ?_⟩
  · by_cases hname : frame = m.current ∧ other = name
    · obtain ⟨rfl, rfl⟩ := hname
      exact .inr (.inl ⟨rfl, hmark⟩)
    · refine .inl ?_
      rw [Store.define_binding?, if_neg fun h => hname ⟨h.1.symm, h.2.1.symm⟩]
      exact hold frame hframe other hname
  · cases hmark.symm.trans hother
    rw [Store.define_binding?] at hb
    split at hb
    next =>
      cases hb
      exact hvariable
    next hlt =>
      rw [Store.binding?_of_size_le (Nat.not_lt.mp fun h => hlt ⟨rfl, rfl, h⟩)] at hb
      cases hb
  · -- in a new frame nothing may be assigned to
    rw [Store.define_binding?] at hb
    split at hb
    next heq =>
      cases hb
      have hnew := heq.2.2
      rw [hmutable hb', heq.1] at hnew
      exact absurd hnew (Nat.not_lt.mpr hframe)
    next =>
      rw [hfresh frame hframe other b hb] at hb'
      cases hb'

end Binds

/-! ## The steps -/

variable {tasks : List Task} {mark : Mark} {m m' : Machine} {halt : Option Halt}

/-- What may be assigned to is a binding that says so. -/
theorem Machine.target_ok {site : Site} {name : String} {frame : FrameId}
    (h : m.target site name = .ok frame) :
    ∃ b, m.store.binding? frame name = some b ∧ b.mutable = true := by
  have hin : ∀ f, m.store.targetIn name f = .ok frame →
      ∃ b, m.store.binding? frame name = some b ∧ b.mutable = true := by
    intro f hf
    unfold Store.targetIn at hf
    split at hf
    next b hb =>
      split at hf
      next hmutable =>
        cases hf
        exact ⟨b, hb, hmutable⟩
      next => cases hf
    next => cases hf
  unfold Machine.target at h
  split at h
  next =>
    unfold Store.targetAt at h
    split at h
    next f _ => exact hin f h
    next => cases h
  next =>
    unfold Store.target at h
    split at h
    next f _ => exact hin f h
    next => cases h

/-- An assignment does what it should. -/
theorem assign_assigns (site : Site) (name : Token) (value : Value) :
    Does (assign site name value) (Assigns site name) := by
  intro m
  unfold assign Assigns
  cases m.target site name.lexeme with
  | ok frame => exact ⟨rfl, value, rfl⟩
  | error fault => exact ⟨rfl, rfl⟩

/-- An assignment binds nothing but the name, and only if it may be assigned to. -/
theorem Assigns.binds {site : Site} {name : Token} (h : Assigns site name m halt m')
    (hname : name ∈ mark.assigned?) (hmark : mark.binds? = none) : Binds tasks mark m halt m' := by
  unfold Assigns at h
  cases htarget : m.target site name.lexeme with
  | error fault =>
    rw [htarget] at h
    obtain ⟨_, rfl⟩ := h
    exact .of_frames rfl hmark
  | ok frame =>
    rw [htarget] at h
    obtain ⟨_, value, rfl⟩ := h
    obtain ⟨b, hb, hmutable⟩ := Machine.target_ok htarget
    have hlt : frame < m.store.frames.size := by
      refine Nat.lt_of_not_le fun hle => ?_
      rw [Store.binding?_of_size_le hle] at hb
      cases hb
    -- no frame is made, so only the binding of the target can have changed
    refine ⟨Nat.le_of_eq (Store.define_size ..).symm, fun other _ n => ?_, fun _ n hn => ?_,
      fun other hother n b' hb' _ => ?_⟩
    · rw [Store.define_binding?]
      split
      next heq =>
        obtain ⟨rfl, rfl, _⟩ := heq
        exact .inr (.inr ⟨⟨name, hname, rfl⟩, b, hb, hmutable⟩)
      next => exact .inl rfl
    · rw [hmark] at hn
      cases hn
    · have hne : ¬(frame = other ∧ name.lexeme = n ∧ frame < m.store.frames.size) := by
        rintro ⟨rfl, _⟩
        exact Nat.not_lt.mpr hother hlt
      rw [Store.define_binding?, if_neg hne, Store.binding?_of_size_le hother] at hb'
      cases hb'

section Steps

variable {α β : Type}

theorem Does.mono {x : Exec α} {Q Q' : Machine → Option Halt → Machine → Prop} (h : Does x Q)
    (hQ : ∀ m halt m', Q m halt m' → Q' m halt m') : Does x Q' := by
  intro m
  have hm := h m
  cases hx : x m with
  | ok a m' =>
    rw [hx] at hm
    exact hQ _ _ _ hm
  | error e m' =>
    rw [hx] at hm
    exact hQ _ _ _ hm

theorem Quiet.does {x : Exec α} (h : Quiet x) (hmark : mark.binds? = none) :
    Does x (Binds tasks mark) := by
  intro m
  have hm := h m
  cases hx : x m with
  | ok a m' =>
    rw [hx] at hm
    exact .of_frames (by rw [show m'.store = m.store from hm.store]) hmark
  | error e m' =>
    rw [hx] at hm
    exact .of_frames (by rw [show m'.store = m.store from hm.store]) hmark

theorem innerFrame_does {region : Region} : Does innerFrame (Binds tasks (.frame region)) := by
  intro m
  have hbinding := Store.newFrame_binding? m.store (some m.current)
  refine .of_old (Nat.le_trans (Nat.le_succ _) (Nat.le_of_eq (Store.newFrame_size ..).symm)) rfl
    (fun frame _ name => hbinding frame name) fun frame hframe name b hb => ?_
  cases hb.symm.trans ((hbinding frame name).trans (Store.binding?_of_size_le hframe name))

/-- What is bound after names were bound in a frame. -/
theorem bindAll_binding? (frame : FrameId) (mutable : Bool) (pairs : List (Token × Value))
    (s : Store) (other : FrameId) (name : String) :
    (bindAll frame mutable pairs s).binding? other name = s.binding? other name ∨
      (other = frame ∧ ∃ value, (bindAll frame mutable pairs s).binding? other name =
        some ⟨value, mutable⟩) := by
  induction pairs generalizing s with
  | nil => exact .inl rfl
  | cons pair pairs ih =>
    have hstep : bindAll frame mutable (pair :: pairs) s =
        bindAll frame mutable pairs (s.define frame pair.1.lexeme pair.2 mutable) := rfl
    rw [hstep]
    rcases ih (s.define frame pair.1.lexeme pair.2 mutable) with hsame | hbound
    · rw [hsame, Store.define_binding?]
      split
      next heq => exact .inr ⟨heq.1.symm, pair.2, rfl⟩
      next => exact .inl rfl
    · exact .inr hbound

theorem callFrame_does {f : Function} {arguments : List Value} {outer : List Task} :
    Does (callFrame f arguments)
      (Binds (.invoke f arguments :: outer) (.frame (.call f.declaration))) := by
  intro m
  let s : Store := (m.store.newFrame (some f.closure)).2
  let s' : Store := bindAll m.store.frames.size (f.kind != .setter)
    (f.declaration.parameters.zip arguments) s
  show Binds _ _ m none { m with store := s' }
  refine .of_old ?_ rfl (fun frame hframe name => ?_) fun frame hframe name b hb hmutable => ?_
  · show m.store.frames.size ≤ s'.frames.size
    rw [bindAll_size, Store.newFrame_size]
    exact Nat.le_succ _
  · rcases bindAll_binding? m.store.frames.size (f.kind != .setter)
      (f.declaration.parameters.zip arguments) s frame name with hsame | ⟨rfl, _⟩
    · exact hsame.trans (Store.newFrame_binding? ..)
    · exact absurd hframe (Nat.lt_irrefl _)
  · refine ⟨f, arguments, outer, rfl, fun hsetter => ?_⟩
    rcases bindAll_binding? m.store.frames.size (f.kind != .setter)
      (f.declaration.parameters.zip arguments) s frame name with hsame | ⟨_, value, hbound⟩
    · have hnone : s.binding? frame name = none :=
        (Store.newFrame_binding? ..).trans (Store.binding?_of_size_le hframe name)
      cases hb.symm.trans (hsame.trans hnone)
    · cases hbound.symm.trans hb
      rw [hsetter] at hmutable
      cases hmutable

/-- In the frame around a method, the receiver may not be assigned to. -/
theorem bind_does (f : Function) (receiver : Value) :
    Does (Eval.bind f receiver) (Binds tasks (.method f)) := by
  intro m
  let s : Store := (m.store.newFrame (some f.closure)).2.define m.store.frames.size "this" receiver
    false
  show Binds _ _ m none { m with store := { s with nextSerial := s.nextSerial + 1 } }
  have hbinding : ∀ frame name, ({ s with nextSerial := s.nextSerial + 1 } : Store).binding? frame
      name = if m.store.frames.size = frame ∧ "this" = name ∧
        m.store.frames.size < (m.store.newFrame (some f.closure)).2.frames.size then
          some ⟨receiver, false⟩ else m.store.binding? frame name := by
    intro frame name
    refine (Store.define_binding? ..).trans ?_
    rw [Store.newFrame_binding?]
  refine .of_old ?_ rfl (fun frame hframe name => ?_) fun frame hframe name b hb hmutable => ?_
  · show m.store.frames.size ≤ s.frames.size
    rw [Store.define_size, Store.newFrame_size]
    exact Nat.le_succ _
  · refine (hbinding frame name).trans (if_neg ?_)
    rintro ⟨rfl, _⟩
    exact Nat.lt_irrefl _ hframe
  · have hb := (hbinding frame name).symm.trans hb
    split at hb
    next =>
      cases hb
      cases hmutable
    next =>
      rw [Store.binding?_of_size_le hframe] at hb
      cases hb

theorem declareFunction_does (d : FunctionDecl) :
    Does (declareFunction d) (Binds tasks (.declares (.functionDecl d))) := by
  intro m
  refine .of_define (s := { m.store with nextSerial := m.store.nextSerial + 1 }) (Nat.le_refl _)
    (fun _ _ _ _ => rfl) (fun frame hframe name b hb => ?_) rfl ?_ (fun h => nomatch h)
  · cases hb.symm.trans (Store.binding?_of_size_le hframe name)
  · exact ⟨(fun h => nomatch h), fun ⟨_, _, h⟩ => nomatch h⟩

theorem define_does {s : Stmt} {name : Token} (value : Value) {mutable : Bool}
    (hs : s.declared? = some name) (hvariable : mutable = true ↔ (Mark.declares s).Variable) :
    Does (define name.lexeme value mutable) (Binds tasks (.declares s)) := by
  intro m
  refine .of_define (Nat.le_refl _) (fun _ _ _ _ => rfl) (fun frame hframe name b hb => ?_) ?_
    hvariable fun _ => rfl
  · rw [Store.binding?_of_size_le hframe] at hb
    cases hb
  · rw [Mark.binds?, hs]
    rfl

/-! ## Classes -/

/-- The frame of the members holds the superclass, which may not be assigned to. -/
theorem memberStore_binding? (superclass : Option Class) (m : Machine) (frame : FrameId)
    (name : String) :
    (memberStore superclass m).binding? frame name = m.store.binding? frame name ∨
      (frame = m.store.frames.size ∧ ∃ value, (memberStore superclass m).binding? frame name =
        some ⟨value, false⟩) := by
  cases superclass with
  | none => exact .inl rfl
  | some c =>
    unfold memberStore
    rw [Store.define_binding?, Store.newFrame_binding?]
    split
    next heq => exact .inr ⟨heq.1.symm, _, rfl⟩
    next => exact .inl rfl

theorem memberStore_size (superclass : Option Class) (m : Machine) :
    m.store.frames.size ≤ (memberStore superclass m).frames.size := by
  cases superclass with
  | none => exact Nat.le_refl _
  | some c =>
    unfold memberStore
    rw [Store.define_size, Store.newFrame_size]
    exact Nat.le_succ _

theorem declareClass_does (d : ClassDecl) (superclass : Option Class) :
    Does (declareClass d superclass) (Binds tasks (.members d)) := by
  intro m
  obtain ⟨c, n, -, hrun⟩ := declareClass_ok d superclass m
  rw [hrun]
  let m₁ : Machine := { m with store := m.store.define m.current d.name.lexeme .nil false }
  have hsize : m₁.store.frames.size = m.store.frames.size := Store.define_size ..
  refine .of_define (s := (drawn n { m₁ with store := memberStore superclass m₁ }).store)
    (hsize ▸ memberStore_size superclass m₁) (fun frame hframe other hother => ?_)
    (fun frame hframe other b hb => ?_) rfl ⟨(fun h => nomatch h), fun h => h.elim⟩
    fun h => nomatch h
  · rcases memberStore_binding? superclass m₁ frame other with hsame | ⟨rfl, _⟩
    · refine hsame.trans ((Store.define_binding? ..).trans (if_neg ?_))
      exact fun h => hother ⟨h.1.symm, h.2.1.symm⟩
    · rw [hsize] at hframe
      exact absurd hframe (Nat.lt_irrefl _)
  · rcases memberStore_binding? superclass m₁ frame other with hsame | ⟨_, value, hnew⟩
    · rw [← hsize] at hframe
      cases hb.symm.trans (hsame.trans (Store.binding?_of_size_le hframe other))
    · cases hb.symm.trans hnew
      rfl

/-! ## Actions -/

theorem QuietAction.binds? {x : Exec α} (h : QuietAction tasks x mark) : mark.binds? = none := by
  cases h <;> rfl

theorem StoringAction.binds {x : Exec α} (h : StoringAction tasks x mark) :
    Does x (Binds tasks mark) := by
  cases h with
  | newObject c => exact fun m => .of_frames rfl rfl
  | setField o name value => exact fun m => .of_frames rfl rfl
  | block body => exact innerFrame_does
  | call f arguments => exact callFrame_does
  | function d => exact fun m => .of_frames rfl rfl
  | functionDecl d => exact declareFunction_does d
  | constant name initial value =>
    exact define_does value rfl ⟨(fun h => nomatch h), fun ⟨_, _, h⟩ => nomatch h⟩
  | var name initial value =>
    exact define_does value rfl ⟨fun _ => ⟨name, initial, rfl⟩, fun _ => rfl⟩
  | members d superclass => exact declareClass_does d superclass
  | method f receiver => exact bind_does f receiver

/-- An action binds only what it should. -/
theorem Action.binds {x : Exec α} (h : Action tasks x mark) : Does x (Binds tasks mark) := by
  cases h with
  | quiet h => exact h.quiet.does h.binds?
  | storing h => exact h.binds
  | assign site name e value =>
    exact (assign_assigns site name value).mono fun _ _ _ h => h.binds rfl rfl
  | input keyword target value =>
    cases target with
    | «variable» site name =>
      exact (assign_assigns site name value).mono fun _ _ _ h => h.binds rfl rfl
    | _ => exact (Quiet.fail keyword .inputTargetInvalid).does rfl

/-- An assignment of a task that should assign to just this reference. -/
theorem assign_lawful {t : Task} {outer : List Task} {site : Site} {name : Token}
    (ht : t.assignment? = some (site, name)) (hname : name ∈ mark.assigned?)
    (hmark : mark.binds? = none) (value : Value) :
    Does (assign site name value) (StepLaw (t :: outer) mark) := by
  refine (assign_assigns site name value).mono fun m halt m' h => ⟨h.binds hname hmark, ?_⟩
  intro t' ht' site' name' hassignment e _
  cases ht'
  cases ht.symm.trans hassignment
  exact h

/-- A step that uses no reference, or one of a task that assigns to none. -/
theorem Does.lawful {x : Exec α} (hx : Does x (Binds tasks mark))
    (hno : (∀ e, mark ≠ .refers e) ∨ ∀ t ∈ tasks.head?, t.assignment? = none) :
    Does x (StepLaw tasks mark) := by
  refine hx.mono fun m halt m' h => ⟨h, fun t ht site name hassignment e he => ?_⟩
  rcases hno with hmark | htask
  · exact absurd he (hmark e)
  · cases (htask t ht).symm.trans hassignment

/-- Every action does what it should. -/
theorem Action.lawful {x : Exec α} (h : Action tasks x mark) : Does x (StepLaw tasks mark) := by
  have hbinds := h.binds
  cases h with
  | assign site name e value => exact assign_lawful rfl rfl rfl value
  | input keyword target value =>
    cases target with
    | «variable» site name => exact assign_lawful rfl rfl rfl value
    | _ => exact hbinds.lawful (.inr fun t ht => by cases ht; rfl)
  | quiet h =>
    refine hbinds.lawful ?_
    cases h with
    | «variable» | receiver | inherited => exact .inr fun t ht => by cases ht; rfl
    | _ => exact .inl fun e he => nomatch he
  | storing h => exact hbinds.lawful (.inl fun e he => by cases h <;> cases he)

end Steps

/-- The steps of a session lead from store to store. -/
theorem stepLaw_law : LogLaw (Leads StepLaw) :=
  .leads (Task.layer_takes Action.lawful) fun value m fits m' hx => by
    cases hx
    exact ⟨.of_frames rfl rfl, fun t ht => nomatch ht⟩

/-! ## What stays -/

/-- At this moment the name is declared in the frame. -/
def Event.Declares (ev : Event) (frame : FrameId) (name : String) : Prop :=
  ∃ mark halt m, ev.occurrence = .step mark halt m ∧ ev.machine.current = frame ∧
    mark.binds? = some name

/-- At this moment the name may be assigned to. -/
def Event.MayAssign (ev : Event) (name : String) : Prop :=
  ∃ mark halt m, ev.occurrence = .step mark halt m ∧ ∃ token ∈ mark.assigned?, token.lexeme = name

section Leads

variable {s s' s₁ : Store} {evs : List Event}

/-- The stores at the moments lie on the way. -/
theorem Leads.at {Q : List Task → Mark → Machine → Option Halt → Machine → Prop}
    (h : Leads Q s evs s') {i : Nat}
    (hi : (evs.map (fun ev => ev.machine.store) ++ [s'])[i]? = some s₁) :
    Leads Q s (evs.take i) s₁ ∧ Leads Q s₁ (evs.drop i) s' := by
  induction evs generalizing s i with
  | nil =>
    cases i with
    | zero =>
      cases hi
      exact ⟨h, rfl⟩
    | succ i => cases hi
  | cons ev evs ih =>
    cases i with
    | zero =>
      obtain rfl : ev.machine.store = s₁ := Option.some.inj hi
      obtain ⟨rfl, _⟩ := id h
      exact ⟨rfl, h⟩
    | succ i =>
      obtain ⟨hs, h⟩ := h
      rw [List.take_succ_cons, List.drop_succ_cons]
      cases hev : ev.occurrence with
      | step mark halt m =>
        rw [hev] at h
        obtain ⟨htake, hdrop⟩ := ih h.2 hi
        refine ⟨⟨hs, ?_⟩, hdrop⟩
        rw [hev]
        exact ⟨h.1, htake⟩
      | ends t result =>
        rw [hev] at h
        obtain ⟨htake, hdrop⟩ := ih h hi
        refine ⟨⟨hs, ?_⟩, hdrop⟩
        rw [hev]
        exact htake

/-- What a frame binds a name to stays, up to a declaration of the name in the frame, if it may not
be assigned to or nothing is assigned to the name. -/
theorem Leads.stays (h : Leads StepLaw s evs s') {frame : FrameId} {name : String}
    (hframe : frame < s.frames.size)
    (hconstant : (∀ b, s.binding? frame name = some b → b.mutable = false) ∨
      ∀ ev ∈ evs, ¬ev.MayAssign name) :
    s'.binding? frame name = s.binding? frame name ∨ ∃ ev ∈ evs, ev.Declares frame name := by
  induction evs generalizing s with
  | nil =>
    cases h
    exact .inl rfl
  | cons ev evs ih =>
    obtain ⟨rfl, h⟩ := h
    cases hev : ev.occurrence with
    | ends t result =>
      rw [hev] at h
      refine (ih h hframe (hconstant.imp_right fun hno ev' hev' => ?_)).imp_right ?_
      · exact hno ev' (List.mem_cons_of_mem _ hev')
      · exact fun ⟨ev', hmem, hdeclares⟩ => ⟨ev', List.mem_cons_of_mem _ hmem, hdeclares⟩
    | step mark halt m =>
      rw [hev] at h
      obtain ⟨⟨hbinds, _⟩, h⟩ := h
      -- one step leaves the binding, declares the name anew, or assigns to it
      rcases hbinds.old frame hframe name with hsame | ⟨rfl, hname⟩ | ⟨hassigned, b, hb, hmutable⟩
      · rw [← hsame] at hconstant ⊢
        refine (ih h (Nat.lt_of_lt_of_le hframe hbinds.size)
          (hconstant.imp_right fun hno ev' hev' => ?_)).imp_right ?_
        · exact hno ev' (List.mem_cons_of_mem _ hev')
        · exact fun ⟨ev', hmem, hdeclares⟩ => ⟨ev', List.mem_cons_of_mem _ hmem, hdeclares⟩
      · exact .inr ⟨ev, List.mem_cons_self, mark, halt, m, hev, rfl, hname⟩
      · rcases hconstant with himmutable | hno
        · rw [himmutable b hb] at hmutable
          cases hmutable
        · exact absurd ⟨mark, halt, m, hev, hassigned⟩ (hno ev List.mem_cons_self)

end Leads

end Eval

/-- The frame to which a reference leads: by its distance if it was resolved, else the one among the
globals that binds the name. -/
def Machine.frameOf? (m : Machine) (site : Site) (name : String) : Option FrameId :=
  match m.table[site]? with
  | some distance => m.store.ancestor? m.current distance
  | none => m.store.search m.globals name

/-- A binding that may not be assigned to is no target. -/
theorem Machine.target_constant {m : Machine} {site : Site} {name : String} {frame : FrameId}
    {b : Binding} (hframe : m.frameOf? site name = some frame)
    (hb : m.store.binding? frame name = some b) (hconstant : b.mutable = false) :
    m.target site name = .error .constant := by
  have hin : m.store.targetIn name frame = .error .constant := by
    unfold Store.targetIn
    rw [hb]
    exact if_neg (by rw [hconstant]; exact Bool.false_ne_true)
  unfold Machine.frameOf? at hframe
  cases hd : m.table[site]? with
  | some d =>
    have htarget : m.target site name = m.store.targetAt m.current d name := by
      unfold Machine.target
      rw [hd]
    have hfound : m.store.ancestor? m.current d = some frame := by
      rw [hd] at hframe
      exact hframe
    rw [htarget, Store.targetAt, hfound]
    exact hin
  | none =>
    have htarget : m.target site name = m.store.target m.globals name := by
      unfold Machine.target
      rw [hd]
    have hfound : m.store.search m.globals name = some frame := by
      rw [hd] at hframe
      exact hframe
    rw [htarget, Store.target, hfound]
    exact hin

open Eval

namespace Chronicle

/-! ## Sessions -/

/-- The stores that a session goes through: those at its moments and the one that it leaves. -/
def stores (c : Chronicle) : List Store :=
  c.run.history.log.map (fun ev => ev.machine.store) ++ [c.run.machine.store]

/-- Between the moments `i` and `j`, the name is declared in the frame. -/
def DeclaredBetween (c : Chronicle) (i j : Nat) (frame : FrameId) (name : String) : Prop :=
  ∃ k ev, i ≤ k ∧ k < j ∧ c.run.history.log[k]? = some ev ∧ ev.Declares frame name

variable (input : Input) (output : Output) (host : Host) (fuel : Nat) (steps : List Step)

theorem steps_lead :
    Leads StepLaw (start input output host).run.machine.store
      (takeAll fuel steps (start input output host)).run.history.log
      (takeAll fuel steps (start input output host)).run.machine.store := by
  obtain ⟨evs, hlog, hevs⟩ := takeAll_logs stepLaw_law fuel steps (start input output host)
  rw [hlog]
  exact hevs

variable {input output host fuel steps}

/-- What happens between two moments, and the stores at them. -/
theorem stores_lead {c : Chronicle} {s₀ : Store} (h : Leads StepLaw s₀ c.run.history.log
    c.run.machine.store) {i j : Nat} (hij : i ≤ j) {s s' : Store} (hi : c.stores[i]? = some s)
    (hj : c.stores[j]? = some s') :
    ∃ evs, Leads StepLaw s evs s' ∧
      ∀ ev ∈ evs, ∃ k, i ≤ k ∧ k < j ∧ c.run.history.log[k]? = some ev := by
  obtain ⟨_, hdrop⟩ := h.at hi
  have hlt : i < c.run.history.log.length + 1 := by
    have hi' := (List.getElem?_eq_some_iff.mp hi).1
    simpa [stores] using hi'
  have hj' : ((c.run.history.log.drop i).map (fun ev => ev.machine.store) ++
      [c.run.machine.store])[j - i]? = some s' := by
    have hstores : c.stores.drop i = (c.run.history.log.drop i).map (fun ev => ev.machine.store) ++
        [c.run.machine.store] := by
      rw [stores, List.drop_append_of_le_length (by simpa using Nat.le_of_lt_succ hlt),
        List.map_drop]
    rw [← hstores, List.getElem?_drop, Nat.add_sub_cancel' hij]
    exact hj
  refine ⟨_, (hdrop.at hj').1, fun ev hev => ?_⟩
  obtain ⟨n, hn⟩ := List.getElem?_of_mem hev
  rw [List.getElem?_take] at hn
  split at hn
  next hlt =>
    rw [List.getElem?_drop] at hn
    exact ⟨i + n, Nat.le_add_right i n, by omega, hn⟩
  next => cases hn

/-- In a new session, nothing may be assigned to. -/
theorem start_constant {frame : FrameId} {name : String} {b : Binding}
    (hb : (start input output host).run.machine.store.binding? frame name = some b) :
    b.mutable = false := by
  obtain ⟨n, serial, rfl⟩ := (Machine.start_bare input output host).binding frame name b hb
  rfl

variable (input output host fuel steps)

/-- The names of variables are neither `this` nor `super`. -/
theorem log_plain {ev : Event}
    (hev : ev ∈ (takeAll fuel steps (start input output host)).run.history.log) {name : String}
    (hname : name ∈ ["this", "super"]) :
    ¬ev.MayAssign name ∧ ∀ frame, ¬ev.Declares frame name := by
  have hagrees := log_agrees input output host fuel steps ev hev
  have hne : ∀ token : Token, token.Plain → token.lexeme ≠ name := by
    rintro token hplain rfl
    rcases List.mem_pair.mp hname with h | h
    · exact hplain.ne_this h
    · exact hplain.ne_super h
  unfold Event.Agrees at hagrees
  constructor
  · rintro ⟨mark, halt, m, hoccurrence, token, htoken, hlexeme⟩
    rw [hoccurrence] at hagrees
    exact hne token (hagrees.assigned token htoken) hlexeme
  · rintro frame ⟨mark, halt, m, hoccurrence, _, hbinds⟩
    rw [hoccurrence] at hagrees
    have hdeclared := hagrees.declared
    cases mark with
    | declares s =>
      cases hs : s.declared? with
      | none =>
        rw [Mark.binds?, hs] at hbinds
        cases hbinds
        exact absurd hname (by decide)
      | some token =>
        rw [Mark.binds?, hs] at hbinds
        exact hne token (hdeclared token hs) (Option.some.inj hbinds)
    | members d => exact hne d.name (hdeclared d.name rfl) (Option.some.inj hbinds)
    | _ => cases hbinds

/-- Constants stay constant. In every session, what a frame binds to a name and does not let be
assigned to stays bound to it, up to a declaration of that name in that frame; what it binds `this`
and `super` to stays in any case. An assignment or an input to a constant fails at its name and does
nothing. All bindings are constants but those of `var` declarations and of the parameters of
functions that are no setters. -/
theorem constants_stay (input : Input) (output : Output) (host : Host) (fuel : Nat)
    (steps : List Step) :
    let c := takeAll fuel steps (start input output host)
    (∀ i j s s', i ≤ j → c.stores[i]? = some s → c.stores[j]? = some s' →
      (∀ frame name b, s.binding? frame name = some b → b.mutable = false →
        s'.binding? frame name = some b ∨ c.DeclaredBetween i j frame name) ∧
      ∀ frame < s.frames.size, ∀ name ∈ ["this", "super"],
        s'.binding? frame name = s.binding? frame name) ∧
    (∀ ev ∈ c.run.history.log, ∀ e halt m, ev.occurrence = .step (.refers e) halt m →
      ∀ t ∈ ev.around.tasks.head?, ∀ site name, t.assignment? = some (site, name) →
        ∀ frame b, ev.machine.frameOf? site name.lexeme = some frame →
          ev.machine.store.binding? frame name.lexeme = some b → b.mutable = false →
            halt = some (.fault ⟨name, .constantReassigned⟩) ∧ m = ev.machine) ∧
    (∀ s, c.stores[0]? = some s → ∀ frame name b, s.binding? frame name = some b →
      b.mutable = false) ∧
    ∀ ev ∈ c.run.history.log, ∀ mark halt m, ev.occurrence = .step mark halt m →
      Binds ev.around.tasks mark ev.machine halt m := by
  intro c
  have hlead := steps_lead input output host fuel steps
  -- every noted step obeys the law, since the log leads from the start to the end
  have hlaw : ∀ ev ∈ c.run.history.log, ∀ mark halt m, ev.occurrence = .step mark halt m →
      StepLaw ev.around.tasks mark ev.machine halt m := by
    intro ev hev mark halt m hoccurrence
    obtain ⟨before, after, heq⟩ := List.append_of_mem hev
    change Leads StepLaw _ c.run.history.log _ at hlead
    rw [heq] at hlead
    obtain ⟨s, _, hrest⟩ := Leads.append_iff.mp hlead
    have hhead := hrest.2
    rw [hoccurrence] at hhead
    exact hhead.1
  refine ⟨fun i j s s' hij hi hj => ?_, ?_, fun s hs frame name b hb => ?_,
    fun ev hev mark halt m hoccurrence => (hlaw ev hev mark halt m hoccurrence).1⟩
  -- the two stores stand at two moments of the log; `evs` is what happened in between
  · obtain ⟨evs, hevs, hbetween⟩ := stores_lead hlead hij hi hj
    constructor
    · intro frame name b hb hconstant
      have hframe : frame < s.frames.size := by
        refine Nat.lt_of_not_le fun hle => ?_
        rw [Store.binding?_of_size_le hle] at hb
        cases hb
      have hall : ∀ b', s.binding? frame name = some b' → b'.mutable = false := by
        intro b' hb'
        cases hb.symm.trans hb'
        exact hconstant
      -- a constant is not assigned to, so only a declaration can have replaced it
      rcases hevs.stays hframe (.inl hall) with hsame | ⟨ev, hev, hdeclares⟩
      · exact .inl (hsame.trans hb)
      · obtain ⟨k, hik, hkj, hk⟩ := hbetween ev hev
        exact .inr ⟨k, ev, hik, hkj, hk, hdeclares⟩
    · intro frame hframe name hname
      -- no source text names `this` or `super` as a variable
      have hplain : ∀ ev ∈ evs, ¬ev.MayAssign name ∧ ∀ frame, ¬ev.Declares frame name := by
        intro ev hev
        obtain ⟨k, _, _, hk⟩ := hbetween ev hev
        exact log_plain input output host fuel steps (List.mem_of_getElem? hk) hname
      rcases hevs.stays hframe (.inr fun ev hev => (hplain ev hev).1) with
        hsame | ⟨ev, hev, hdeclares⟩
      · exact hsame
      · exact absurd hdeclares ((hplain ev hev).2 frame)
  · intro ev hev e halt m hoccurrence t ht site name hassignment frame b hframe hb hconstant
    have hassigns := (hlaw ev hev _ halt m hoccurrence).2 t ht site name hassignment e rfl
    unfold Assigns at hassigns
    rw [Machine.target_constant hframe hb hconstant] at hassigns
    exact hassigns
  · obtain ⟨hstart, _⟩ := hlead.at hs
    cases hstart
    exact start_constant hb

/-- When an assignment to a constant in a method has failed, a native function and the receiver are
still bound. -/
theorem constants_stay_failed_assignment :
    let c := takeAll 14 [.run "class C { m() { val a = nil; a = true; } } C().m();"]
      (start ⟨[]⟩ {} ⟨fun _ => 0, fun _ => 0, 0, 0⟩)
    (∃ s s' b, c.stores[0]? = some s ∧ c.stores[21]? = some s' ∧
      s.binding? 0 "clock" = some b ∧ b.mutable = false ∧
      (s'.binding? 0 "clock" = some b ∨ c.DeclaredBetween 0 21 0 "clock")) ∧
    (∃ s s' b, c.stores[12]? = some s ∧ c.stores[21]? = some s' ∧
      s.binding? 1 "this" = some b ∧ s'.binding? 1 "this" = some b) ∧
    ∃ ev ∈ c.run.history.log, ∃ e halt m name, ev.occurrence = .step (.refers e) halt m ∧
      halt = some (.fault ⟨name, .constantReassigned⟩) ∧ m = ev.machine := by
  -- the run is given a name, so that it is evaluated in the four checks below only
  obtain ⟨c, hc⟩ : ∃ c, c = takeAll 14 [.run "class C { m() { val a = nil; a = true; } } C().m();"]
      (start ⟨[]⟩ {} ⟨fun _ => 0, fun _ => 0, 0, 0⟩) := ⟨_, rfl⟩
  have hclock : ((c.stores[0]?).bind fun s => s.binding? 0 "clock").isSome = true := by
    rw [hc]
    decide +kernel
  have hthis : ((c.stores[12]?).bind fun s => s.binding? 1 "this").isSome = true := by
    rw [hc]
    decide +kernel
  have hlast : (c.stores[21]?).isSome = true := by
    rw [hc]
    decide +kernel
  have hattempt : c.run.history.log.any (fun ev => ev.occurrence.refers?.isSome &&
      (ev.around.tasks.head?.bind Task.assignment?).any fun target =>
        ((ev.machine.frameOf? target.1 target.2.lexeme).bind fun frame =>
          ev.machine.store.binding? frame target.2.lexeme).any fun b => !b.mutable) = true := by
    rw [hc]
    decide +kernel
  have hconstants := constants_stay ⟨[]⟩ {} ⟨fun _ => 0, fun _ => 0, 0, 0⟩ 14
    [.run "class C { m() { val a = nil; a = true; } } C().m();"]
  rw [← hc] at hconstants ⊢
  obtain ⟨hstays, hfails, hstart, _⟩ := hconstants
  obtain ⟨s', hs'⟩ := Option.isSome_iff_exists.mp hlast
  refine ⟨?_, ?_, ?_⟩
  · obtain ⟨b, hb⟩ := Option.isSome_iff_exists.mp hclock
    obtain ⟨s, hs, hb⟩ := Option.bind_eq_some_iff.mp hb
    have hconstant := hstart s hs 0 "clock" b hb
    exact ⟨s, s', b, hs, hs', hb, hconstant,
      (hstays 0 21 s s' (by decide) hs hs').1 0 "clock" b hb hconstant⟩
  · obtain ⟨b, hb⟩ := Option.isSome_iff_exists.mp hthis
    obtain ⟨s, hs, hb⟩ := Option.bind_eq_some_iff.mp hb
    have hframe : 1 < s.frames.size := by
      refine Nat.lt_of_not_le fun hle => ?_
      rw [Store.binding?_of_size_le hle] at hb
      cases hb
    exact ⟨s, s', b, hs, hs', hb,
      ((hstays 12 21 s s' (by decide) hs hs').2 1 hframe "this" (by decide)).trans hb⟩
  · obtain ⟨ev, hev, hattempt⟩ := List.any_eq_true.mp hattempt
    obtain ⟨hrefers, hassignment⟩ := Bool.and_eq_true_iff.mp hattempt
    obtain ⟨e, he⟩ := Option.isSome_iff_exists.mp hrefers
    obtain ⟨halt, m, hoccurrence⟩ := Occurrence.refers?_some he
    obtain ⟨⟨site, name⟩, hassignment, hconstant⟩ := (Option.any_eq_true _ _).mp hassignment
    obtain ⟨t, ht, hassignment⟩ := Option.bind_eq_some_iff.mp hassignment
    obtain ⟨b, hb, hconstant⟩ := (Option.any_eq_true _ _).mp hconstant
    obtain ⟨frame, hframe, hb⟩ := Option.bind_eq_some_iff.mp hb
    exact ⟨ev, hev, e, halt, m, name, hoccurrence, hfails ev hev e halt m hoccurrence t ht site
      name hassignment frame b hframe hb (by simpa using hconstant)⟩

end Chronicle

end Lox
