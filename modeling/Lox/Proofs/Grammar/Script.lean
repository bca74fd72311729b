import Mathlib.Tactic.Choose
import Lox.Grammar
import Lox.Proofs.Grammar.Reads

/-!
# Rules step by step

A `Script` is a rule taken apart: which questions it asks about the tokens, which of them it reads,
which errors it reports, and how it goes on for each answer. `Script.parser` puts the steps
together again as steps of a cursor; the same script can be run on something else that answers.

`Scripted R p` says that the rule `p` is a script, whose results all have `R`. There is one law
for each step that rules are made of, so a rule is worked through once for both.
-/

namespace Lox

/-- A rule as the single steps it takes. -/
inductive Script : Type → Type 1 where
  | done {α : Type} (a : α) : Script α
  | refuse {α : Type} (rule : Rule) (token : Token) (problem : Problem) : Script α
  | outOfFuel {α : Type} : Script α
  /-- The token that comes next. -/
  | peek {α : Type} (k : Token → Script α) : Script α
  /-- Are all tokens read? -/
  | atEnd {α : Type} (k : Bool → Script α) : Script α
  /-- Has the next token `p`? -/
  | sees {α : Type} (p : Token → Bool) (k : Bool → Script α) : Script α
  /-- Has the next token `p`, and if so, has the one after it `q`? No end has `q`. -/
  | seesBoth {α : Type} (p q : Token → Bool) (hq : ∀ t, t.isEnd = true → q t = false)
      (k : Bool → Script α) : Script α
  /-- Read the next token if it has `p`. -/
  | take {α : Type} (p : Token → Bool) (k : Option Token → Script α) : Script α
  | report {α : Type} (rule : Rule) (token : Token) (problem : Problem) (k : Script α) : Script α
  | freshSite {α : Type} (k : Site → Script α) : Script α
  /-- Run a script, and go to the next statement if it is refused. -/
  | recovering {α β : Type} (s : Script β) (k : Option β → Script α) : Script α

namespace Script

variable {α β : Type}

/-- One script and then another. -/
def bind : {α : Type} → Script α → (α → Script β) → Script β
  | _, .done a, f => f a
  | _, .refuse rule token problem, _ => .refuse rule token problem
  | _, .outOfFuel, _ => .outOfFuel
  | _, .peek k, f => .peek fun t => (k t).bind f
  | _, .atEnd k, f => .atEnd fun b => (k b).bind f
  | _, .sees p k, f => .sees p fun b => (k b).bind f
  | _, .seesBoth p q hq k, f => .seesBoth p q hq fun b => (k b).bind f
  | _, .take p k, f => .take p fun t? => (k t?).bind f
  | _, .report rule token problem k, f => .report rule token problem (k.bind f)
  | _, .freshSite k, f => .freshSite fun i => (k i).bind f
  | _, .recovering s k, f => .recovering s fun a? => (k a?).bind f

/-- The script as a rule. -/
def parser : {α : Type} → Script α → Parser α
  | _, .done a => pure a
  | _, .refuse rule token problem => Parser.refuse rule token problem
  | _, .outOfFuel => Parser.outOfFuel
  | _, .peek k => Parser.peek >>= fun t => (k t).parser
  | _, .atEnd k => get >>= fun c => (k c.unread.isEmpty).parser
  | _, .sees p k => Parser.sees p >>= fun b => (k b).parser
  | _, .seesBoth p q _ k =>
    Parser.sees p >>= fun b => Parser.seesSecond q >>= fun b' => (k (b && b')).parser
  | _, .take p k => Parser.take? p >>= fun t? => (k t?).parser
  | _, .report rule token problem k => Parser.report rule token problem >>= fun _ => k.parser
  | _, .freshSite k => Parser.freshSite >>= fun i => (k i).parser
  | _, .recovering s k => Parser.recovering s.parser >>= fun a? => (k a?).parser

/-- All results of the script have `R`. A token that was read passed its test. -/
def Yields : {α : Type} → (α → Prop) → Script α → Prop
  | _, R, .done a => R a
  | _, _, .refuse _ _ _ | _, _, .outOfFuel => True
  | _, R, .peek k => ∀ t, (k t).Yields R
  | _, R, .atEnd k | _, R, .sees _ k | _, R, .seesBoth _ _ _ k => ∀ b, (k b).Yields R
  | _, R, .take p k => (k none).Yields R ∧ ∀ t, p t = true → (k (some t)).Yields R
  | _, R, .report _ _ _ k => k.Yields R
  | _, R, .freshSite k => ∀ i, (k i).Yields R
  | _, R, .recovering (β := β) s k =>
    ∃ Q : β → Prop, s.Yields Q ∧ (k none).Yields R ∧ ∀ b, Q b → (k (some b)).Yields R

/-- What a script does before it goes on is what the rule does before it goes on. -/
theorem parser_bind (s : Script α) (f : α → Script β) :
    (s.bind f).parser = s.parser >>= fun a => (f a).parser := by
  induction s with
  | done a => rfl
  | refuse | outOfFuel => rfl
  | peek k ih | freshSite k ih =>
    simp only [bind, parser, bind_assoc, ih]
  | atEnd k ih => simp only [bind, parser, bind_assoc, ih]
  | sees p k ih | seesBoth p q hq k ih | take p k ih | recovering s k _ ih =>
    simp only [bind, parser, bind_assoc, ih]
  | report rule token problem k ih => simp only [bind, parser, bind_assoc, ih]

variable {R : α → Prop} {Q : β → Prop}

/-- A script that goes on with another yields what the other does. -/
theorem Yields.bind {s : Script α} {f : α → Script β} (hs : s.Yields R)
    (hf : ∀ a, R a → (f a).Yields Q) : (s.bind f).Yields Q := by
  induction s with
  | done a => exact hf a hs
  | refuse | outOfFuel => trivial
  | peek k ih | freshSite k ih => exact fun t => ih t (hs t) hf
  | atEnd k ih | sees p k ih | seesBoth p q hq k ih => exact fun b => ih b (hs b) hf
  | take p k ih => exact ⟨ih none hs.1 hf, fun t ht => ih (some t) (hs.2 t ht) hf⟩
  | report rule token problem k ih => exact ih hs hf
  | recovering s k _ ih =>
    obtain ⟨T, hfirst, hnone, hsome⟩ := hs
    exact ⟨T, hfirst, ih none hnone hf, fun b hb => ih (some b) (hsome b hb) hf⟩

end Script

namespace Parser

variable {α β : Type} {R : α → Prop}

/-- Whatever the rule gives has `R`. -/
def Gives (p : Parser α) (R : α → Prop) : Prop :=
  ∀ c a c', p c = .ok a c' → R a

/-- A token that is taken passed the test. -/
theorem take?_gives (test : Token → Bool) :
    (take? test).Gives fun t? => ∀ t ∈ t?, test t = true := by
  intro c t? c' h t ht
  unfold take? at h
  split at h
  next head tail _ =>
    split at h
    next htest =>
      cases h
      cases ht
      exact htest
    next =>
      cases h
      cases ht
  next =>
    cases h
    cases ht

/-- What two rules in a row give is what the second gives. -/
theorem Gives.bind {p : Parser α} {f : α → Parser β} {Q : β → Prop} (hp : p.Gives R)
    (hf : ∀ a, R a → (f a).Gives Q) : Gives (p >>= f) Q := by
  intro c b c' h
  cases hpc : p c with
  | error e c₁ =>
    rw [bind_error hpc] at h
    cases h
  | ok a c₁ =>
    rw [bind_ok hpc] at h
    exact hf a (hp c a c₁ hpc) c₁ b c' h

/-- If there is a result after recovery, it is one of the rule. -/
theorem Gives.recovering {p : Parser α} (hp : p.Gives R) :
    p.recovering.Gives fun a? => ∀ a ∈ a?, R a := by
  intro c a? c' h a ha
  unfold Parser.recovering at h
  split at h
  next b c₁ hpc =>
    cases h
    cases ha
    exact hp c _ _ hpc
  next =>
    cases h
    cases ha
  next => cases h

/-- What comes after a rule need only be known for what the rule gives. -/
theorem Gives.bind_congr {p : Parser α} {f g : α → Parser β} (hp : p.Gives R)
    (h : ∀ a, R a → f a = g a) : p >>= f = p >>= g := by
  funext c
  cases hpc : p c with
  | error e c₁ => rw [bind_error hpc, bind_error hpc]
  | ok a c₁ => rw [bind_ok hpc, bind_ok hpc, h a (hp c a c₁ hpc)]

end Parser

/-- Whatever a script yields, the rule gives. -/
theorem Script.Yields.gives {α : Type} {s : Script α} {R : α → Prop} (hs : s.Yields R) :
    s.parser.Gives R := by
  have hany : ∀ {β : Type} (p : Parser β), p.Gives (fun _ => True) := fun _ _ _ _ _ => trivial
  induction s with
  | done a =>
    intro c b c' h
    cases h
    exact hs
  | refuse | outOfFuel =>
    intro c b c' h
    cases h
  | peek k ih | freshSite k ih => exact (hany _).bind fun t _ => ih t (hs t)
  | atEnd k ih => exact (hany _).bind fun c _ => ih _ (hs _)
  | sees p k ih => exact (hany _).bind fun b _ => ih b (hs b)
  | seesBoth p q hq k ih => exact (hany _).bind fun b _ => (hany _).bind fun b' _ => ih _ (hs _)
  | take p k ih =>
    refine (Parser.take?_gives p).bind fun t? ht => ?_
    cases t? with
    | none => exact ih none hs.1
    | some t => exact ih (some t) (hs.2 t (ht t rfl))
  | report rule token problem k ih => exact (hany _).bind fun _ _ => ih hs
  | recovering s k ihs ih =>
    obtain ⟨T, hfirst, hnone, hsome⟩ := hs
    refine (ihs hfirst).recovering.bind fun b? hb => ?_
    cases b? with
    | none => exact ih none hnone
    | some b => exact ih (some b) (hsome b (hb b rfl))

/-- The rule is a script, and what it gives has `R`. -/
def Scripted {α : Type} (R : α → Prop) (p : Parser α) : Prop :=
  ∃ s : Script α, s.parser = p ∧ s.Yields R

namespace Scripted

variable {α β : Type} {R : α → Prop} {Q : β → Prop} {p : Parser α} {test : Token → Bool}

/-- A rule that is a script gives what its script yields. -/
theorem gives (hp : Scripted R p) : p.Gives R := by
  obtain ⟨s, rfl, hs⟩ := hp
  exact hs.gives

/-- The script of one result. -/
theorem pure {a : α} (h : R a) : Scripted R (pure a : Parser α) :=
  ⟨.done a, rfl, h⟩

/-- A rule that is refused gives nothing. -/
theorem refuse {rule : Rule} {t : Token} {problem : Problem} :
    Scripted R (Parser.refuse rule t problem : Parser α) :=
  ⟨.refuse rule t problem, rfl, trivial⟩

theorem outOfFuel : Scripted R (Parser.outOfFuel : Parser α) :=
  ⟨.outOfFuel, rfl, trivial⟩

/-- One rule and then another, which goes on with what the first one gave. -/
theorem bind {f : α → Parser β} (hp : Scripted R p) (hf : ∀ a, R a → Scripted Q (f a)) :
    Scripted Q (p >>= f) := by
  classical
  obtain ⟨s, rfl, hs⟩ := hp
  choose k hk using hf
  refine ⟨s.bind fun a => if h : R a then k a h else .outOfFuel, ?_, hs.bind fun a ha => ?_⟩
  · rw [Script.parser_bind]
    refine hs.gives.bind_congr fun a ha => ?_
    rw [dif_pos ha]
    exact (hk a ha).1
  · rw [dif_pos ha]
    exact (hk a ha).2

/-- What is made of the results of a script. -/
theorem map {f : α → β} (hp : Scripted R p) (h : ∀ a, R a → Q (f a)) : Scripted Q (f <$> p) :=
  bind hp fun a ha => pure (h a ha)

/-- A script may go one of two ways. -/
theorem ite {b : Bool} {q : Parser α} (hp : Scripted R p) (hq : Scripted R q) :
    Scripted R (if b = true then p else q) := by
  cases b with
  | true => exact hp
  | false => exact hq

/-- A question may be asked about the next token. -/
theorem peek : Scripted (fun _ => True) Parser.peek :=
  ⟨.peek .done, rfl, fun _ => trivial⟩

/-- A site may be drawn. -/
theorem freshSite : Scripted (fun _ => True) Parser.freshSite :=
  ⟨.freshSite .done, rfl, fun _ => trivial⟩

/-- An error may be reported. -/
theorem report {rule : Rule} {t : Token} {problem : Problem} :
    Scripted (fun _ => True) (Parser.report rule t problem) :=
  ⟨.report rule t problem (.done ()), rfl, trivial⟩

theorem sees : Scripted (fun _ => True) (Parser.sees test) :=
  ⟨.sees test .done, rfl, fun _ => trivial⟩

/-- A token that is taken passed its test. -/
theorem take? : Scripted (fun t? => ∀ t ∈ t?, test t = true) (Parser.take? test) := by
  refine ⟨.take test .done, bind_pure _, ⟨?_, fun t ht t' ht' => ?_⟩⟩
  · intro t ht
    cases ht
  · cases ht'
    exact ht

theorem takes : Scripted (fun _ => True) (Parser.takes test) :=
  take?.bind fun _ _ => .pure trivial

/-- A token that is asked for passed its test; where there is none, the script is refused. -/
theorem expect {rule : Rule} {problem : Problem} :
    Scripted (fun t => test t = true) (Parser.expect test rule problem) := by
  refine take?.bind fun t? ht => ?_
  cases t? with
  | some t => exact .pure (ht t rfl)
  | none => exact peek.bind fun _ _ => .refuse

/-- The token after the next one is looked at where the next one was. -/
theorem seesBoth {test' : Token → Bool} (htest : ∀ t, t.isEnd = true → test' t = false)
    {f : Bool → Parser β} (hf : ∀ b, Scripted Q (f b)) :
    Scripted Q
      (Parser.sees test >>= fun b => Parser.seesSecond test' >>= fun b' => f (b && b')) := by
  have hboth : Scripted (fun _ => True)
      (Parser.sees test >>= fun b => Parser.seesSecond test' >>= fun b' =>
        (Pure.pure (b && b') : Parser Bool)) :=
    ⟨.seesBoth test test' htest .done, rfl, fun _ => trivial⟩
  have h := hboth.bind fun b _ => hf b
  simp only [bind_assoc, pure_bind] at h
  exact h

/-- Whether all tokens are read is asked of the cursor. -/
theorem atEnd {f : Bool → Parser β} (hf : ∀ b, Scripted Q (f b)) :
    Scripted Q (get >>= fun c => f c.unread.isEmpty) := by
  have hend : Scripted (fun _ => True)
      (get >>= fun c => (Pure.pure c.unread.isEmpty : Parser Bool)) :=
    ⟨.atEnd .done, rfl, fun _ => trivial⟩
  have h := hend.bind fun b _ => hf b
  simp only [bind_assoc, pure_bind] at h
  exact h

/-- A rule that is refused gives nothing. -/
theorem recovering (hp : Scripted R p) :
    Scripted (fun a? => ∀ a ∈ a?, R a) (Parser.recovering p) := by
  obtain ⟨s, rfl, hs⟩ := hp
  refine ⟨.recovering s .done, bind_pure _, R, hs, ?_, fun b hb a ha => ?_⟩
  · intro a ha
    cases ha
  · cases ha
    exact hb

end Scripted

end Lox
