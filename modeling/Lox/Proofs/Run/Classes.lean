import Lox.Proofs.Run.Frames

/-!
# Making classes

The members of a class are made one after the other in the frame of the superclass, or in the
current one, and the run knows each of them. The name of the class is bound before its members are
made, so they find it. A class that is made marks its ordinary method `init` as an initializer, and
nothing else (`makeClass_ok`).
-/

namespace Lox.Eval

open Exec

variable {r r' : Run} {around : Surroundings}

/-! ## Tables of members -/

/-- The run knows the members in a table, and those that are called as setters are setters of one
argument. -/
structure Run.KnowsMethods (r : Run) (table : Methods) : Prop where
  member : ∀ (name : String) (f : Function), table[name]? = some f → r.KnowsMember f
  setter : ∀ (property : String) (f : Function), table[setterName property]? = some f →
    f.kind = .setter ∧ f.arity = 1

theorem Run.KnowsMethods.empty (r : Run) : r.KnowsMethods ∅ :=
  ⟨fun _ _ h => by simp at h, fun _ _ h => by simp at h⟩

theorem Run.KnowsMethods.grows {table : Methods} (h : r.KnowsMethods table) (hr : r.Grows r') :
    r'.KnowsMethods table :=
  ⟨fun name f hf => (h.member name f hf).grows hr, h.setter⟩

theorem Run.KnowsMethods.insert {table : Methods} (h : r.KnowsMethods table) {name : String}
    {f : Function} (hf : r.KnowsMember f)
    (hsetter : ∀ property, name = setterName property → f.kind = .setter ∧ f.arity = 1) :
    r.KnowsMethods (table.insert name f) := by
  refine ⟨fun n g hg => ?_, fun property g hg => ?_⟩
  · rw [Std.TreeMap.getElem?_insert] at hg
    split at hg
    next =>
      cases hg
      exact hf
    next => exact h.member n g hg
  · rw [Std.TreeMap.getElem?_insert] at hg
    split at hg
    next heq =>
      cases hg
      exact hsetter property (Std.LawfulEqCmp.compare_eq_iff_eq.mp heq)
    next => exact h.setter property g hg

/-- The walk came by the declaration of a member, which is a setter if its name is that of one, and
it takes as many arguments as it is called with. -/
structure Run.Awaits (r : Run) (closure : FrameId) (frames : List FrameId) (kind : MemberKind)
    (d : FunctionDecl) : Prop where
  getter : kind = .getter → d.parameters.length = 0
  setter : ∀ property, d.memberName = setterName property →
    kind = .setter ∧ d.parameters.length = 1
  place : ∃ (w : Walk) (ps : List Place) (role : FunctionContext),
    r.Visited (w.openedWith "this") (⟨.receiver d, none⟩ :: ps) (.function d role) ∧
      Surrounds r closure frames w.scopes ps

theorem Run.Awaits.grows {closure : FrameId} {frames : List FrameId} {kind : MemberKind}
    {d : FunctionDecl} (h : r.Awaits closure frames kind d) (hr : r.Grows r') :
    r'.Awaits closure frames kind d := by
  obtain ⟨w, ps, role, hvisited, hsurrounds⟩ := h.place
  exact ⟨h.getter, h.setter, w, ps, role, hvisited.grows hr, hsurrounds.grows hr⟩

theorem ok_bind {α β : Type} {x : Exec α} {f : α → Exec β} {m m' : Machine} {a : α}
    (h : x m = .ok a m') : (x >>= f) m = f a m' := by
  show EStateM.bind x f m = f a m'
  unfold EStateM.bind
  rw [h]

theorem error_bind {α β : Type} {x : Exec α} {f : α → Exec β} {m m' : Machine} {e : Halt}
    (h : x m = .error e m') : (x >>= f) m = .error e m' := by
  show EStateM.bind x f m = .error e m'
  unfold EStateM.bind
  rw [h]

/-- The machine with more serial numbers drawn. -/
def drawn (n : Nat) (m : Machine) : Machine :=
  { m with store.nextSerial := n }

/-- Members are made, and the run knows them. The frames around them are those that the history
says of all functions still to come. -/
theorem addMembers_kept (h : r.Sound) {closure : FrameId} {frames : List FrameId}
    {kind : MemberKind} (isInitializer : FunctionDecl → Bool)
    (hhome : ∀ serial, r.machine.store.nextSerial ≤ serial →
      r.history.origins.homes serial = frames)
    {ds : List FunctionDecl} (hds : ∀ d ∈ ds, r.Awaits closure frames kind d) {table : Methods}
    (htable : r.KnowsMethods table) :
    ∃ table' n, addMembers closure kind isInitializer ds table r.machine =
        .ok table' (drawn n r.machine) ∧
      r.machine.store.nextSerial ≤ n ∧
      Run.Kept r { r with machine := drawn n r.machine } ∧
      Run.KnowsMethods { r with machine := drawn n r.machine } table' := by
  -- on the members; the run and the table go from one to the next
  induction ds generalizing r table with
  | nil => exact ⟨table, r.machine.store.nextSerial, rfl, Nat.le_refl _, .refl h, htable⟩
  | cons d ds ih =>
    let f : Function := ⟨r.machine.store.nextSerial, d, closure, isInitializer d, kind⟩
    let r₁ : Run := { r with machine := drawn (r.machine.store.nextSerial + 1) r.machine }
    have h₁ : Run.Kept r r₁ := h.drawn (Nat.le_succ _)
    have hd := hds d List.mem_cons_self
    have hf : r₁.KnowsMember f := by
      obtain ⟨w, ps, role, hvisited, hsurrounds⟩ := hd.place
      refine ⟨⟨Nat.lt_succ_self _, hd.getter⟩, w, ps, role, hvisited.grows h₁.grows, ?_⟩
      show Surrounds r₁ closure (r.history.origins.homes r.machine.store.nextSerial) _ _
      rw [hhome _ (Nat.le_refl _)]
      exact hsurrounds.grows h₁.grows
    have htable₁ : r₁.KnowsMethods (table.insert d.memberName f) :=
      (htable.grows h₁.grows).insert hf hd.setter
    obtain ⟨table', n, hrun, hn, hkept, hknown⟩ := @ih r₁ h₁.sound
      (fun serial hs => hhome serial (Nat.le_of_succ_le hs))
      (fun d' hd' => (hds d' (List.mem_cons_of_mem _ hd')).grows h₁.grows) _ htable₁
    refine ⟨table', n, ?_, Nat.le_of_succ_le hn, h₁.trans hkept, hknown⟩
    exact hrun

/-- All members of a class are made, one kind after the other. -/
theorem members_kept (h : r.Sound) {closure : FrameId} {frames : List FrameId} {d : ClassDecl}
    (hhome : ∀ serial, r.machine.store.nextSerial ≤ serial →
      r.history.origins.homes serial = frames)
    (hmethods : ∀ m ∈ d.methods, r.Awaits closure frames .method m)
    (hgetters : ∀ m ∈ d.getters, r.Awaits closure frames .getter m)
    (hsetters : ∀ m ∈ d.setters, r.Awaits closure frames .setter m)
    (hclassMethods : ∀ m ∈ d.classMethods, r.Awaits closure frames .method m) :
    ∃ methods classMethods n,
      (∀ {α : Type} (next : Methods → Methods → Exec α), (do
        let methods ← addMembers closure .method (fun d => d.memberName = initializerName)
          d.methods ∅
        let methods ← addMembers closure .getter (fun _ => false) d.getters methods
        let methods ← addMembers closure .setter (fun _ => false) d.setters methods
        let classMethods ← addMembers closure .method (fun _ => false) d.classMethods ∅
        next methods classMethods) r.machine = next methods classMethods (drawn n r.machine)) ∧
      Run.Kept r { r with machine := drawn n r.machine } ∧
      Run.KnowsMethods { r with machine := drawn n r.machine } methods ∧
      Run.KnowsMethods { r with machine := drawn n r.machine } classMethods := by
  obtain ⟨methods, n₁, hrun₁, hn₁, h₁, hknown₁⟩ := addMembers_kept h
    (fun d => d.memberName = initializerName) hhome hmethods (.empty r)
  obtain ⟨withGetters, n₂, hrun₂, hn₂, h₂, hknown₂⟩ := addMembers_kept h₁.sound
    (fun _ => false) (fun serial hs => hhome serial (Nat.le_trans hn₁ hs))
    (fun m hm => (hgetters m hm).grows h₁.grows) hknown₁
  have hn₂' : r.machine.store.nextSerial ≤ n₂ := Nat.le_trans hn₁ hn₂
  obtain ⟨withSetters, n₃, hrun₃, hn₃, h₃, hknown₃⟩ := addMembers_kept h₂.sound
    (fun _ => false) (fun serial hs => hhome serial (Nat.le_trans hn₂' hs))
    (fun m hm => (hsetters m hm).grows (h₁.trans h₂).grows) hknown₂
  have hn₃' : r.machine.store.nextSerial ≤ n₃ := Nat.le_trans hn₂' hn₃
  obtain ⟨classMethods, n₄, hrun₄, -, h₄, hknown₄⟩ := addMembers_kept h₃.sound
    (fun _ => false) (fun serial hs => hhome serial (Nat.le_trans hn₃' hs))
    (fun m hm => (hclassMethods m hm).grows ((h₁.trans h₂).trans h₃).grows) (.empty _)
  refine ⟨withSetters, classMethods, n₄, fun next => ?_, ((h₁.trans h₂).trans h₃).trans h₄,
    hknown₃.grows h₄.grows, hknown₄⟩
  refine (ok_bind hrun₁).trans ?_
  refine (ok_bind hrun₂).trans ?_
  refine (ok_bind hrun₃).trans ?_
  exact ok_bind hrun₄

/-! ## Classes -/

/-- A class is known if its own members and its superclass are. -/
theorem Run.KnowsClass.mk' {serial : Nat} {name : String} {superclass : Option Class}
    {methods classMethods : Methods} (hsuper : ∀ c, superclass = some c → r.KnowsClass c)
    (hmethods : r.KnowsMethods methods) (hclassMethods : r.KnowsMethods classMethods) :
    r.KnowsClass ⟨serial, name, superclass, methods, classMethods⟩ := by
  -- a member is found in the class itself, or else in its superclass
  refine ⟨fun n f hf => ?_, fun property f hf => ?_, fun n f hf => ?_⟩
  · unfold Class.findMethod at hf
    split at hf
    next g hg =>
      cases hf
      exact hmethods.member n f hg
    next =>
      cases superclass with
      | none => cases hf
      | some c => exact (hsuper c rfl).method n f hf
  · unfold Class.findMethod at hf
    split at hf
    next g hg =>
      cases hf
      exact hmethods.setter property f hg
    next =>
      cases superclass with
      | none => cases hf
      | some c => exact (hsuper c rfl).setter property f hf
  · unfold Class.findClassMethod at hf
    split at hf
    next g hg =>
      cases hf
      exact hclassMethods.member n f hg
    next =>
      cases superclass with
      | none => cases hf
      | some c => exact (hsuper c rfl).classMethod n f hf

/-- What is remembered of a step depends on the store after it only by how many frames there are. -/
theorem Origins.after_congr {o : Origins} {mark : Mark} {before s s' : Store}
    (h : s.frames.size = s'.frames.size) :
    o.after around mark before s = o.after around mark before s' := by
  have hnew : newFrames before s = newFrames before s' := by
    unfold newFrames
    rw [h]
  unfold Origins.after
  rw [hnew]

/-- The frame in which the members of a class are made. -/
def memberFrameId (superclass : Option Class) (m : Machine) : FrameId :=
  if superclass.isSome then m.store.frames.size else m.current

/-- The store with the frame in which the members of a class are made. -/
def memberStore (superclass : Option Class) (m : Machine) : Store :=
  match superclass with
  | none => m.store
  | some c =>
    (m.store.newFrame (some m.current)).2.define m.store.frames.size "super" (.cls c) false

theorem memberFrame_ok (superclass : Option Class) (m : Machine) :
    memberFrame superclass m =
      .ok (memberFrameId superclass m) { m with store := memberStore superclass m } := by
  cases superclass <;> rfl

theorem memberStore_nextSerial (superclass : Option Class) (m : Machine) :
    (memberStore superclass m).nextSerial = m.store.nextSerial := by
  cases superclass <;> rfl

/-- The scopes in which the members of a class are walked. -/
theorem membersStart_scopes (d : ClassDecl) (w : Walk) :
    (d.membersStart w).scopes =
      if d.superclass.isSome then ((∅ : Scope).insert "super" true) :: (d.named w).scopes
      else (d.named w).scopes := by
  have hclause := (Expr.walkOption_through d.superclass (d.clauseStart w)).scopes
  unfold ClassDecl.membersStart
  split
  next =>
    show _ :: (Expr.walkOption d.superclass (d.clauseStart w)).scopes = _
    rw [hclause]
    rfl
  next => exact hclause

/-- The frame of the members lies where the scope of the members does. -/
theorem memberFrame_kept (h : r.Sound) {d : ClassDecl} {w : Walk} {ps : List Place}
    {frames : List FrameId} {superclass : Option Class}
    (hsuper : ∀ c, superclass = some c → r.KnowsClass c)
    (hsome : superclass.isSome = d.superclass.isSome)
    (hsurrounds : Surrounds r r.machine.current frames (d.named w).scopes ps)
    (hregion : r.history.origins.regions r.machine.store.frames.size = some (.superclass d)) :
    Run.Kept r (r.withStore (memberStore superclass r.machine)) ∧
      Surrounds (r.withStore (memberStore superclass r.machine))
        (memberFrameId superclass r.machine)
        (newFrames r.machine.store (memberStore superclass r.machine) ++ frames)
        (d.membersStart w).scopes (d.places ps) := by
  rw [membersStart_scopes, ClassDecl.places, ← hsome]
  cases superclass with
  -- without a superclass there is neither a frame nor a scope for it
  | none =>
    have hnew : newFrames r.machine.store (memberStore none r.machine) = [] :=
      newFrames_of_size_eq rfl
    rw [hnew]
    exact ⟨.refl h, hsurrounds⟩
  -- the new frame binds `super`, as the scope does
  | some c =>
    have hkept := h.superFrame (some r.machine.current) (hsuper c rfl)
    have hsize : r.machine.store.frames.size < (memberStore (some c) r.machine).frames.size := by
      show _ < Array.size _
      rw [memberStore, Store.define_size, Store.newFrame_size]
      exact Nat.lt_succ_self _
    have hnew : newFrames r.machine.store (memberStore (some c) r.machine) =
        [r.machine.store.frames.size] := newFrames_of_size_lt hsize
    rw [hnew]
    refine ⟨hkept, (hsurrounds.grows hkept.grows).cons hsize ?_ hregion fun name hname => ?_⟩
    · refine (Store.define_parent? _ _ _ _ _ _).trans ?_
      exact Store.newFrame_parent?_new _ _
    · obtain rfl : "super" = name := by
        simpa [Std.TreeMap.contains_insert] using hname
      exact .inl (Store.define_binds _ _ _ _ _ (by
        rw [Store.newFrame_size]
        exact Nat.lt_succ_self _))

/-- The members of a class that is declared wait to be made where its members are walked. -/
theorem Run.Visited.awaits {w : Walk} {ps : List Place} {d : ClassDecl}
    (hvisited : r.Visited w ps (.statement (.classDecl d))) (hgrows : r.Grows r')
    {closure : FrameId} {frames : List FrameId}
    (hmembers : Surrounds r' closure frames (d.membersStart w).scopes (d.places ps))
    {m : FunctionDecl} {role : FunctionContext} {w' : Walk} (hm : d.Member w m role w')
    {kind : MemberKind} (hgetter : kind = .getter → m.parameters.length = 0)
    (hsetter : ∀ property, m.memberName = setterName property →
      kind = .setter ∧ m.parameters.length = 1) :
    r'.Awaits closure frames kind m := by
  obtain ⟨root, hroot, hvisits⟩ := hvisited
  refine ⟨hgetter, hsetter, w', d.places ps, role, ⟨root, ?_, .member hvisits hm⟩, ?_⟩
  · exact hgrows.roots root hroot
  · rw [hm.through.1]
    exact hmembers

/-- A class is made and its name is bound in the current frame. -/
theorem declareClass_kept (h : r.Sound) {w : Walk} {ps : List Place} {d : ClassDecl}
    (hvisited : r.Visited w ps (.statement (.classDecl d)))
    (hsurrounds : Surrounds r r.machine.current around.frames w.scopes ps)
    {superclass : Option Class} (hsuper : ∀ c, superclass = some c → r.KnowsClass c)
    (hsome : superclass.isSome = d.superclass.isSome) :
    ∃ m, declareClass d superclass r.machine = .ok () m ∧
      Run.Kept r (r.stepTo around (.members d) m) ∧
      m.store.Binds r.machine.current d.name.lexeme := by
  have htidy : d.Tidy := hvisited.tidy h
  obtain ⟨hmethods, hclassMethods, hgetters, hsetters⟩ := htidy.arity
  -- the name is bound, and then the frame of the members is made
  let m₁ : Machine :=
    { r.machine with
      store := r.machine.store.define r.machine.current d.name.lexeme .nil false }
  let s₂ : Store := memberStore superclass m₁
  let r₀ := r.remembering around (.members d) s₂
  let r₁ := r₀.withStore m₁.store
  let r₂ := r₁.withStore s₂
  have h₀ : Run.Kept r r₀ := h.remembering around (.members d) s₂
  have h₁ : Run.Kept r₀ r₁ := h₀.sound.define trivial (.inl htidy.plain.ne_super)
  have hnamed : Surrounds r₁ r.machine.current around.frames (d.named w).scopes ps := by
    have hs := hsurrounds.grows (h₀.trans h₁).grows
    refine ⟨hs.chain, hs.aligned.adds (d.named_adds w) fun t ht frame hframe => ?_⟩
    rw [List.mem_singleton.mp ht, hsurrounds.head_eq frame hframe]
    exact Store.define_binds _ _ _ _ _ hsurrounds.chain.lt_size
  have hregion : r₁.history.origins.regions r₁.machine.store.frames.size =
      some (.superclass d) :=
    Origins.after_regions (Nat.le_of_eq (Store.define_size ..).symm)
  obtain ⟨h₂, hmembers⟩ := memberFrame_kept h₁.sound
    (fun c hc => (hsuper c hc).grows (h₀.trans h₁).grows) hsome hnamed hregion
  have hkept₂ : Run.Kept r r₂ := (h₀.trans h₁).trans h₂
  -- the members
  have hhome : ∀ serial, r.machine.store.nextSerial ≤ serial →
      r₂.history.origins.homes serial =
        newFrames r₁.machine.store (memberStore superclass m₁) ++ around.frames := by
    intro serial hserial
    refine (Origins.after_homes hserial).trans ?_
    have hsize : r₁.machine.store.frames.size = r.machine.store.frames.size :=
      Store.define_size ..
    unfold newFrames
    rw [hsize]
    rfl
  have hserial : r₂.machine.store.nextSerial = r.machine.store.nextSerial :=
    memberStore_nextSerial superclass m₁
  obtain ⟨methods, classMethods, n, hrun, h₃, hmethods₃, hclassMethods₃⟩ := members_kept h₂.sound
    (d := d) (fun serial hs => hhome serial (hserial ▸ hs))
    (fun m hm => by
      obtain ⟨before, after, heq⟩ := List.append_of_mem hm
      exact hvisited.awaits hkept₂.grows hmembers (.method heq) (fun hk => nomatch hk)
        fun property he => absurd he (hmethods m hm property))
    (fun m hm => by
      obtain ⟨before, after, heq⟩ := List.append_of_mem hm
      exact hvisited.awaits hkept₂.grows hmembers (.getter heq)
        (fun _ => by rw [(hgetters m hm).2]; rfl)
        fun property he => absurd he ((hgetters m hm).1 property))
    (fun m hm => by
      obtain ⟨before, after, heq⟩ := List.append_of_mem hm
      exact hvisited.awaits hkept₂.grows hmembers (.setter heq) (fun hk => nomatch hk)
        fun _ _ => ⟨rfl, hsetters m hm⟩)
    (fun m hm => by
      obtain ⟨before, after, heq⟩ := List.append_of_mem hm
      exact hvisited.awaits hkept₂.grows hmembers (.classMethod heq) (fun hk => nomatch hk)
        fun property he => absurd he (hclassMethods m hm property))
  -- the class itself
  let c : Class := ⟨n, d.name.lexeme, superclass, methods, classMethods⟩
  let m₄ : Machine := drawn (n + 1) r₂.machine
  let s₅ : Store := m₄.store.define r.machine.current d.name.lexeme (.cls c) false
  let r₄ : Run := { r₂ with machine := m₄ }
  have hdrawn := h₃.sound.drawn (Nat.le_succ n)
  have h₄ : Run.Kept r₂ r₄ := h₃.trans hdrawn
  have hclass : r₄.KnowsClass c :=
    .mk' (fun parent hparent => (hsuper parent hparent).grows (hkept₂.trans h₄).grows)
      (hmethods₃.grows hdrawn.grows) (hclassMethods₃.grows hdrawn.grows)
  have h₅ : Run.Kept r₄ (r₄.withStore s₅) :=
    h₄.sound.define (Run.KnowsClass.grows hclass (Run.grows_withStore (Store.define_grows ..)))
      (.inr ⟨c, rfl⟩)
  have hstep : r.stepTo around (.members d) { m₄ with store := s₅ } = r₄.withStore s₅ := by
    have hsize : s₅.frames.size = s₂.frames.size := Store.define_size m₄.store _ _ _ _
    show Run.mk _ { r.history with origins := _ } = Run.mk _ { r.history with origins := _ }
    rw [Origins.after_congr hsize]
  refine ⟨{ m₄ with store := s₅ }, ?_, ?_, ?_⟩
  · unfold declareClass
    rw [ok_bind (show define d.name.lexeme .nil false r.machine = .ok () m₁ from rfl),
      ok_bind (memberFrame_ok superclass m₁)]
    exact hrun _
  · rw [hstep]
    exact (hkept₂.trans h₄).trans h₅
  · refine Store.define_binds _ _ _ _ _ ?_
    exact Nat.lt_of_lt_of_le hsurrounds.chain.lt_size (hkept₂.trans h₄).grows.store.size

/-! ## The class that is made -/

/-- Makes a class, in the course of its declaration: up to binding its name to it. -/
def makeClass (d : ClassDecl) (superclass : Option Class) : Exec Class := do
  define d.name.lexeme .nil false
  let closure ← memberFrame superclass
  let methods ← addMembers closure .method (fun d => d.memberName = initializerName) d.methods ∅
  let methods ← addMembers closure .getter (fun _ => false) d.getters methods
  let methods ← addMembers closure .setter (fun _ => false) d.setters methods
  let classMethods ← addMembers closure .method (fun _ => false) d.classMethods ∅
  fromStore fun s => s.newClass d.name.lexeme superclass methods classMethods

theorem declareClass_eq (d : ClassDecl) (superclass : Option Class) :
    declareClass d superclass =
      makeClass d superclass >>= fun c => define d.name.lexeme (.cls c) false := by
  simp only [declareClass, makeClass, bind_assoc]

/-- What holds of each member that is made under its name, and of those that a table has already,
holds of the table with the members added. -/
theorem addMembers_ok {P : String → Function → Prop} (closure : FrameId) (kind : MemberKind)
    (isInitializer : FunctionDecl → Bool) (ds : List FunctionDecl) (table : Methods) (m : Machine)
    (htable : ∀ (name : String) (f : Function), table[name]? = some f → P name f)
    (hds : ∀ d serial, P d.memberName ⟨serial, d, closure, isInitializer d, kind⟩) :
    ∃ table' n, addMembers closure kind isInitializer ds table m = .ok table' (drawn n m) ∧
      ∀ (name : String) (f : Function), table'[name]? = some f → P name f := by
  induction ds generalizing table m with
  | nil => exact ⟨table, m.store.nextSerial, rfl, htable⟩
  | cons d ds ih =>
    let f : Function := ⟨m.store.nextSerial, d, closure, isInitializer d, kind⟩
    have hinsert : ∀ (name : String) (g : Function),
        (table.insert d.memberName f)[name]? = some g → P name g := by
      intro name g hg
      rw [Std.TreeMap.getElem?_insert] at hg
      split at hg
      next heq =>
        cases hg
        obtain rfl := Std.LawfulEqCmp.compare_eq_iff_eq.mp heq
        exact hds d m.store.nextSerial
      next => exact htable name g hg
    obtain ⟨table', n, hrun, htable'⟩ := ih _ (drawn (m.store.nextSerial + 1) m) hinsert
    exact ⟨table', n, hrun, htable'⟩

/-- Which members of a class are initializers: its ordinary method `init`, and nothing else. -/
structure Flagged (c : Class) : Prop where
  method : ∀ (name : String) (f : Function), c.methods[name]? = some f →
    (f.isInitializer = true ↔ name = initializerName ∧ f.kind = .method)
  classMethod : ∀ (name : String) (f : Function), c.classMethods[name]? = some f →
    f.isInitializer = false

/-- A class is made with the superclass given, in a frame of its own for its members if there is
one, and its initializers are marked as such. -/
theorem makeClass_ok (d : ClassDecl) (superclass : Option Class) (m : Machine) :
    let m₁ := { m with store := m.store.define m.current d.name.lexeme .nil false }
    ∃ c n, makeClass d superclass m =
        .ok c (drawn n { m₁ with store := memberStore superclass m₁ }) ∧
      c.superclass = superclass ∧ Flagged c := by
  intro m₁
  let m₂ : Machine := { m₁ with store := memberStore superclass m₁ }
  let closure := memberFrameId superclass m₁
  let Marked : String → Function → Prop := fun name f =>
    f.isInitializer = true ↔ name = initializerName ∧ f.kind = .method
  obtain ⟨methods, n₃, h₃, hmethods⟩ := addMembers_ok (P := Marked) closure .method
    (fun d => d.memberName = initializerName) d.methods ∅ m₂ (fun _ _ hf => by simp at hf)
    fun _ _ => by simp [Marked]
  obtain ⟨withGetters, n₄, h₄, hgetters⟩ := addMembers_ok closure .getter
    (fun _ => false) d.getters methods (drawn n₃ m₂) hmethods fun _ _ => by simp [Marked]
  obtain ⟨withSetters, n₅, h₅, hsetters⟩ := addMembers_ok closure .setter
    (fun _ => false) d.setters withGetters (drawn n₄ m₂) hgetters fun _ _ => by simp [Marked]
  obtain ⟨classMethods, n₆, h₆, hclassMethods⟩ :=
    addMembers_ok (P := fun _ f => f.isInitializer = false) closure .method
      (fun _ => false) d.classMethods ∅ (drawn n₅ m₂) (fun _ _ hf => by simp at hf) fun _ _ => rfl
  refine ⟨⟨n₆, d.name.lexeme, superclass, withSetters, classMethods⟩, n₆ + 1, ?_, rfl,
    ⟨hsetters, hclassMethods⟩⟩
  unfold makeClass
  rw [ok_bind (show define d.name.lexeme .nil false m = .ok () m₁ from rfl),
    ok_bind (memberFrame_ok superclass m₁)]
  refine (ok_bind h₃).trans ?_
  refine (ok_bind h₄).trans ?_
  refine (ok_bind h₅).trans ?_
  exact (ok_bind h₆).trans rfl

/-- The name of a class is bound before and after the class is made. -/
theorem declareClass_ok (d : ClassDecl) (superclass : Option Class) (m : Machine) :
    let m₁ := { m with store := m.store.define m.current d.name.lexeme .nil false }
    ∃ c n, c.superclass = superclass ∧ declareClass d superclass m = .ok () { m with
      store := (drawn n { m₁ with store := memberStore superclass m₁ }).store.define m.current
        d.name.lexeme (.cls c) false } := by
  obtain ⟨c, n, hmade, hc, -⟩ := makeClass_ok d superclass m
  refine ⟨c, n, hc, ?_⟩
  rw [declareClass_eq]
  exact ok_bind hmade

end Lox.Eval
