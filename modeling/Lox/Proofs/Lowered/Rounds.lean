import Lox.Proofs.Lowered.Steps

/-!
# Rounds of a loop

A round of a loop runs the body and then evaluates the increment. As a statement it ends with the
`continue` of the loop, if it does, before the increment; so a loop can be written out only if its
body has no `continue` of its own, and then a round never ends with one (`execute_continues`).
-/

namespace Lox

/-! ## What computations give -/

/-- If the computation gives a result, it is one with the property. -/
def Exec.Yields {α : Type} (P : α → Prop) (x : Exec α) : Prop :=
  ∀ m a m', x m = .ok a m' → P a

namespace Exec.Yields

variable {α β : Type} {P : α → Prop} {Q : β → Prop} {x : Exec α}

theorem pure {a : α} (h : P a) : Exec.Yields P (pure a) := by
  intro m b m' hb
  cases hb
  exact h

theorem outOfFuel : Exec.Yields P Exec.outOfFuel :=
  nofun

theorem bind {f : α → Exec β} (hx : Exec.Yields P x) (hf : ∀ a, P a → Exec.Yields Q (f a)) :
    Exec.Yields Q (x >>= f) := by
  intro m b m' hb
  have hbind : (x >>= f) m = EStateM.bind x f m := rfl
  rw [hbind] at hb
  unfold EStateM.bind at hb
  split at hb
  next a m₁ ha => exact hf a (hx m a m₁ ha) m₁ b m' hb
  next => cases hb

theorem any (x : Exec α) : Exec.Yields (fun _ => True) x :=
  fun _ _ _ _ => trivial

/-- A computation yields what its last part yields, whatever stands before that. -/
theorem last {f : α → Exec β} (hf : ∀ a, Exec.Yields Q (f a)) : Exec.Yields Q (x >>= f) :=
  (any x).bind fun a _ => hf a

theorem within {frame : FrameId} (hx : Exec.Yields P x) : Exec.Yields P (Exec.within frame x) := by
  intro m a m' ha
  unfold Exec.within at ha
  dsimp only at ha
  split at ha
  next b m₁ hb =>
    cases ha
    exact hx _ _ _ hb
  next => cases ha

end Exec.Yields

namespace Eval

open Exec

/-- The flow comes from a `continue` only if there is one. -/
def FlowsBy (continues : Bool) (flow : Flow) : Prop :=
  flow = .continueLoop → continues = true

/-- Statements end with the `continue` of a loop around them only if they have one, and loops
never. -/
theorem continues_of_fuel (fuel : Nat) :
    (∀ s, Yields (FlowsBy s.continues) (execute fuel s)) ∧
      (∀ ss, Yields (FlowsBy (Stmt.continuesAny ss)) (executeAll fuel ss)) ∧
        ∀ condition body increment,
          Yields (FlowsBy false) (repeatLoop fuel condition body increment) := by
  induction fuel with
  | zero => exact ⟨fun _ => .outOfFuel, fun _ => .outOfFuel, fun _ _ _ => .outOfFuel⟩
  | succ fuel ih =>
    obtain ⟨hexecute, hexecuteAll, hrepeatLoop⟩ := ih
    refine ⟨fun s => ?_, fun ss => ?_, fun condition body increment => ?_⟩
    · cases s with
      | block body => exact .last fun frame => (hexecuteAll body).within
      | breakLoop => exact .pure nofun
      | continueLoop => exact .pure fun _ => rfl
      | empty => exact .pure nofun
      | expression | input | returnValue => exact .last fun _ => .pure nofun
      | classDecl | print | constant | «var» => exact .last fun _ => .last fun _ => .pure nofun
      | functionDecl => exact .last fun _ => .last fun _ => .last fun _ => .pure nofun
      | conditional condition whenTrue whenFalse =>
        refine .last fun value => ?_
        split
        next =>
          intro m flow m' hflow hcontinue
          rw [Stmt.continues, hexecute whenTrue m flow m' hflow hcontinue, Bool.true_or]
        next =>
          cases whenFalse with
          | none => exact .pure nofun
          | some s =>
            intro m flow m' hflow hcontinue
            rw [Stmt.continues, Stmt.continuesOption, hexecute s m flow m' hflow hcontinue,
              Bool.or_true]
      | loop condition body increment => exact hrepeatLoop condition body increment
    · cases ss with
      | nil => exact .pure nofun
      | cons s ss =>
        refine (hexecute s).bind fun flow hflow => ?_
        cases flow with
        | normal =>
          intro m flow m' hflow hcontinue
          rw [Stmt.continuesAny, hexecuteAll ss m flow m' hflow hcontinue, Bool.or_true]
        | breakLoop => exact .pure nofun
        | continueLoop =>
          refine .pure fun _ => ?_
          rw [Stmt.continuesAny, hflow rfl, Bool.true_or]
        | returned value => exact .pure nofun
    · refine .last fun value => ?_
      split
      next =>
        refine .last fun flow => ?_
        cases flow with
        | breakLoop => exact .pure nofun
        | returned value => exact .pure nofun
        -- a `continue` of the body is taken up by the loop and ends the round only
        | normal | continueLoop => exact .last fun _ => hrepeatLoop condition body increment
      next => exact .pure nofun

theorem execute_continues (fuel : Nat) (s : Stmt) :
    Yields (FlowsBy s.continues) (execute fuel s) :=
  (continues_of_fuel fuel).1 s

/-! ## Rounds -/

/-- One round of a loop: how the body ends, and the increment after it if the loop goes on. -/
def oneRound (fuel : Nat) (body : Stmt) (increment : Option Expr) : Exec Flow := do
  match ← execute fuel body with
  | .breakLoop => return .breakLoop
  | .returned value => return .returned value
  | _ =>
    let _ ← evaluateOption fuel increment
    return .normal

/-- A loop goes on after a round unless the round leaves it. -/
theorem repeatLoop_rounds (fuel : Nat) (condition : Expr) (body : Stmt) (increment : Option Expr) :
    repeatLoop (fuel + 1) condition body increment =
      (do
        if (← evaluate fuel condition).isTruthy then
          match ← oneRound fuel body increment with
          | .breakLoop => return .normal
          | .returned value => return .returned value
          | _ => repeatLoop fuel condition body increment
        else
          return .normal) := by
  rw [repeatLoop]
  congr 1
  funext value
  split
  next =>
    rw [oneRound, bind_assoc]
    congr 1
    funext flow
    cases flow with
    | breakLoop | returned value => rfl
    | normal | continueLoop => simp only [bind_assoc, pure_bind]
  next => rfl

end Eval

end Lox
