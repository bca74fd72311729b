import Mathlib.Data.List.Forall2

/-!
# Options and lists

Facts about options and lists of any kind: of options that a relation holds of, and of the parts of
a list.
-/

namespace Option.Rel

variable {α β : Type} {R : α → β → Prop} {a : Option α} {b : Option β}

/-- Options that are related are so by any weaker relation. -/
theorem imp {S : α → β → Prop} (hR : ∀ a b, R a b → S a b) (h : Rel R a b) : Rel S a b := by
  cases h with
  | some h => exact .some (hR _ _ h)
  | none => exact .none

/-- Functions that take related values to related ones do so with options. -/
theorem map {γ δ : Type} {S : γ → δ → Prop} {f : α → γ} {g : β → δ}
    (hf : ∀ a b, R a b → S (f a) (g b)) (h : Rel R a b) : Rel S (a.map f) (b.map g) := by
  cases h with
  | some h => exact .some (hf _ _ h)
  | none => exact .none

/-- Related defaults for related options give related values. -/
theorem getD (h : Rel R a b) {x : α} {y : β} (hxy : R x y) : R (a.getD x) (b.getD y) := by
  cases h with
  | some h => exact h
  | none => exact hxy

/-- Of related options, both have a value or none. -/
theorem isSome_eq (h : Rel R a b) : b.isSome = a.isSome := by
  cases h <;> rfl

end Option.Rel

namespace List

variable {α β : Type}

/-- A list related to two in a row is itself two in a row, each related to its own. -/
theorem forall₂_append_left {R : α → β → Prop} {as bs : List α} {cs : List β}
    (h : Forall₂ R (as ++ bs) cs) :
    ∃ ds es, cs = ds ++ es ∧ Forall₂ R as ds ∧ Forall₂ R bs es :=
  ⟨cs.take as.length, cs.drop as.length, (take_append_drop ..).symm,
    by simpa using forall₂_take as.length h, by simpa using forall₂_drop as.length h⟩

/-- Where an element of the first part of a list stands. -/
theorem getElem?_of_take_eq {as before during : List α} {a : α} {i : Nat}
    (h : as.take i = before ++ a :: during) :
    before.length < i ∧ as[before.length]? = some a ∧
      (as.take i).drop (before.length + 1) = during := by
  have hlt : before.length < (as.take i).length := by
    rw [h, length_append]
    exact Nat.lt_add_of_pos_right (Nat.succ_pos _)
  have hi : before.length < i := Nat.lt_of_lt_of_le hlt (length_take_le ..)
  refine ⟨hi, ?_, ?_⟩
  · rw [← getElem?_take_of_lt hi, h]
    simp
  · rw [h, append_cons]
    exact drop_left' (by simp)

/-- What is found first is found in the first element in which there is something. -/
theorem findSome?_eq_find? {f : α → Option β} {p : α → Bool} (hp : ∀ a, p a = (f a).isSome)
    (as : List α) : as.findSome? f = (as.find? p).bind f := by
  induction as with
  | nil => rfl
  | cons a as ih =>
    rw [findSome?_cons, find?_cons, hp]
    cases hfa : f a with
    | none => exact ih
    | some b => exact hfa.symm

end List
