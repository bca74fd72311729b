import Lox.Proofs.Run.Makers
import Lox.Proofs.Session.Deeds

/-!
# Scopes are left as they were entered

Blocks and calls run in frames of their own, and however they end, by themselves, by a flow out of
them or by an error, the frame that was current before is current again. `Restores x`
says this of a computation. It holds of every step (`Task.layer_restores`), so by induction on the
fuel of every statement and every expression from every machine, be its names resolved or not, and
of every deed of a session. So a session is at its globals whenever a text begins, whatever became
of the texts before it.
-/

namespace Lox

/-- The two machines are in the same scope and know the same distances. -/
structure Machine.SameScope (m m' : Machine) : Prop where
  current : m'.current = m.current
  globals : m'.globals = m.globals
  table : m'.table = m.table

theorem Machine.SameScope.refl (m : Machine) : m.SameScope m :=
  ⟨rfl, rfl, rfl⟩

theorem Machine.SameScope.trans {m m' m'' : Machine} (h : m.SameScope m')
    (h' : m'.SameScope m'') : m.SameScope m'' :=
  ⟨h'.current.trans h.current, h'.globals.trans h.globals, h'.table.trans h.table⟩

namespace Eval

open Exec

/-- However the computation ends, it leaves the machine in the scope in which it began. -/
def Restores {α : Type} (x : Exec α) : Prop :=
  Does x fun m _ m' => m.SameScope m'

namespace Restores

variable {α β : Type} {x : Exec α} {f : α → Exec β}

/-- What changes at most input, output and host stays in its scope. -/
theorem of_quiet (h : Quiet x) : Restores x := by
  intro m
  have hm := h m
  cases hx : x m with
  | ok a m' =>
    rw [hx] at hm
    exact ⟨hm.current, hm.globals, hm.table⟩
  | error e m' =>
    rw [hx] at hm
    exact ⟨hm.current, hm.globals, hm.table⟩

/-- What changes nothing but the store stays in its scope. -/
theorem of_storing (h : Storing x) : Restores x := by
  intro m
  obtain ⟨a, s, hx⟩ := h m
  rw [hx m rfl rfl]
  exact ⟨rfl, rfl, rfl⟩

theorem pure (a : α) : Restores (pure a : Exec α) :=
  fun m => .refl m

theorem outOfFuel : Restores (outOfFuel : Exec α) :=
  fun m => .refl m

/-- Computations restore the scope one after the other, however the second one ends. -/
theorem bind (hx : Restores x) (hf : ∀ a, Restores (f a)) : Restores (x >>= f) := by
  intro m
  have hm := hx m
  have hbind : (x >>= f) m = EStateM.bind x f m := rfl
  rw [hbind]
  unfold EStateM.bind
  cases hxm : x m with
  | error e m' =>
    rw [hxm] at hm
    exact hm
  | ok a m' =>
    rw [hxm] at hm
    have hm' := hf a m'
    dsimp only
    cases hfm : f a m' with
    | ok b m'' =>
      rw [hfm] at hm'
      exact hm.trans hm'
    | error e m'' =>
      rw [hfm] at hm'
      exact hm.trans hm'

/-- What a computation does inside a frame, it may do to the current frame as it likes. -/
theorem within {frame : FrameId} (hx : Restores x) : Restores (within frame x) := by
  intro m
  have hm := hx { m with current := frame }
  unfold Exec.within
  cases hxm : x { m with current := frame } with
  | ok a m' =>
    rw [hxm] at hm
    exact ⟨rfl, hm.globals, hm.table⟩
  | error e m' =>
    rw [hxm] at hm
    exact ⟨rfl, hm.globals, hm.table⟩

/-- An assignment stays in its scope, whether it fails or not. -/
theorem assign (site : Site) (name : Token) (value : Value) :
    Restores (assign site name value) := by
  intro m
  unfold Exec.assign
  cases m.target site name.lexeme <;> exact ⟨rfl, rfl, rfl⟩

end Restores

/-! ## Steps -/

/-- Writing stays in its scope. -/
theorem writeLine_restores (value : Value) : Restores (writeLine value) :=
  fun _ => ⟨rfl, rfl, rfl⟩

/-- Assigning what was read stays in its scope. -/
theorem assignInput_restores (keyword : Token) (target : Expr) (value : Value) :
    Restores (assignInput keyword target value) := by
  cases target with
  | «variable» site name => exact .assign site name value
  | _ => exact .of_quiet (.fail _ _)

/-! ## Layers -/

/-- Every step of the layer leaves the machine in its scope. -/
abbrev Layer.Restoring {α : Type} (l : Layer α) : Prop :=
  l.Takes fun _ m _ m' => m.SameScope m'

/-- Every action stays in its scope. -/
theorem Action.restores {tasks : List Task} {α : Type} {x : Exec α} {mark : Mark}
    (h : Action tasks x mark) : Restores x := by
  cases h with
  | quiet h => exact .of_quiet h.quiet
  | storing h => exact .of_storing h.stores
  | assign site name e value => exact .assign site name value
  | input keyword target value => exact assignInput_restores keyword target value

/-- The steps of every task leave the machine in its scope. -/
theorem Task.layer_restores (t : Task) : t.layer.Restoring :=
  t.layer_takes (Q := fun _ _ m _ m' => m.SameScope m') Action.restores []

/-- A layer restores the scope if its steps do and the tasks that it starts. -/
theorem Layer.run_restores {sub : (t : Task) → Exec t.Result} (hsub : ∀ t, Restores (sub t))
    {α : Type} {l : Layer α} (h : l.Restoring) : Restores (l.run sub) := by
  induction l with
  | done a => exact .pure a
  | step x mark next ih => exact .bind h.1 fun b => ih b (h.2 b)
  | start t next ih => exact (hsub t).bind fun a => ih a (h a)
  | enter frame f t next ih => exact (hsub t).within.bind fun a => ih a (h a)

/-- Every task restores the scope, also when it fails or is cut short for want of fuel. -/
theorem Task.run_restores (fuel : Nat) (t : Task) : Restores (t.run fuel) := by
  induction fuel generalizing t with
  | zero =>
    rw [run_zero]
    exact .outOfFuel
  | succ fuel ih =>
    rw [run_succ]
    exact Layer.run_restores ih t.layer_restores

end Eval

end Lox
