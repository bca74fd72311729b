import Lox.Proofs.Run.Known

/-!
# What operators and native functions give

None of them makes a function, a class or an instance: what they give is bare, but for the right
operand of a comma. So a run that knows their operands knows what they give.
-/

namespace Lox

/-- The value is no function made by the program, no class and no instance. -/
def Value.Bare : Value → Prop
  | .function _ | .cls _ | .object _ => False
  | .nil | .bool _ | .number _ | .string _ | .native _ _ => True

namespace Value

theorem ofLiteral_bare (value : Literal) : (ofLiteral value).Bare := by
  cases value <;> trivial

theorem ofTyped_bare (line : String) : (ofTyped line).Bare := by
  unfold ofTyped
  split
  next => trivial
  next =>
    split
    next => trivial
    next =>
      split
      next => trivial
      next =>
        split
        next => trivial
        next => trivial

/-- What a unary operator gives is bare. -/
theorem unary_bare {operator : Kind} {a v : Value} (h : unary operator a = .ok v) : v.Bare := by
  unfold unary at h
  split at h
  next =>
    split at h
    next =>
      cases h
      trivial
    next => cases h
  next =>
    cases h
    trivial

theorem add_bare {a b v : Value} (h : add a b = .ok v) : v.Bare := by
  unfold add at h
  split at h
  next =>
    cases h
    trivial
  next =>
    cases h
    trivial
  next =>
    cases h
    trivial
  next => cases h

theorem divide_bare {x y : Float} {v : Value} (h : divide x y = .ok v) : v.Bare := by
  unfold divide at h
  split at h
  next => cases h
  next =>
    cases h
    trivial

theorem compare_bare {numbers : Float → Float → Bool} {strings : Ordering → Bool} {a b v : Value}
    (h : compare numbers strings a b = .ok v) : v.Bare := by
  unfold compare at h
  split at h
  next =>
    cases h
    trivial
  next =>
    cases h
    trivial
  next => cases h

/-- What is computed from the numbers that two operands are is bare if each outcome is. -/
theorem numbers_bare {a b v : Value} {f : Float × Float → Except RuntimeCause Value}
    (hf : ∀ p, f p = .ok v → v.Bare) (h : (numbers a b >>= f) = .ok v) : v.Bare := by
  cases hn : numbers a b with
  | error cause =>
    rw [hn] at h
    cases h
  | ok p =>
    rw [hn] at h
    exact hf p h

/-- What a binary operator gives is bare, but for a comma, which gives its right operand. -/
theorem binary_bare {operator : Kind} {a b v : Value} (h : binary operator a b = .ok v) :
    v = b ∨ v.Bare := by
  unfold binary at h
  split at h
  next =>
    cases h
    exact .inl rfl
  next =>
    cases h
    exact .inr trivial
  next =>
    cases h
    exact .inr trivial
  next => exact .inr (add_bare h)
  next =>
    refine .inr (numbers_bare (fun p hp => ?_) h)
    cases hp
    trivial
  next =>
    refine .inr (numbers_bare (fun p hp => ?_) h)
    cases hp
    trivial
  next => exact .inr (numbers_bare (fun p hp => divide_bare hp) h)
  next => exact .inr (compare_bare h)
  next => exact .inr (compare_bare h)
  next => exact .inr (compare_bare h)
  next => exact .inr (compare_bare h)
  next => cases h

end Value

/-- What a native function gives is bare. -/
theorem Native.apply_bare {n : Native} {arguments : List Value} {host host' : Host} {v : Value}
    (h : n.apply arguments host = (.ok v, host')) : v.Bare := by
  have hnumber : ∀ f : Float → Float,
      (return .number (f (← n.number arguments)) : Except NativeFault Value) = .ok v →
        v.Bare := by
    intro f hf
    cases hx : n.number arguments with
    | error fault =>
      rw [hx] at hf
      cases hf
    | ok x =>
      rw [hx] at hf
      cases hf
      trivial
  have hstring : ∀ f : String → String,
      (return .string (f (← n.string arguments)) : Except NativeFault Value) = .ok v →
        v.Bare := by
    intro f hf
    cases hx : n.string arguments with
    | error fault =>
      rw [hx] at hf
      cases hf
    | ok x =>
      rw [hx] at hf
      cases hf
      trivial
  cases n with
  | round => exact hnumber (fun x => (x + 0.5).floor) (congrArg Prod.fst h)
  | abs => exact hnumber Float.abs (congrArg Prod.fst h)
  | lowercase => exact hstring Text.lowercase (congrArg Prod.fst h)
  | uppercase => exact hstring Text.uppercase (congrArg Prod.fst h)
  | _ =>
    cases h
    trivial

namespace Eval

/-- What a line typed in stands for is bare. -/
theorem typedLine_bare {keyword : Token} {v : Value} {m m' : Machine}
    (h : (Exec.takeLine >>= typedValue keyword) m = .ok v m') : v.Bare := by
  change typedValue keyword m.input.takeLine.1 { m with input := m.input.takeLine.2 } = _ at h
  cases hline : m.input.takeLine.1 with
  | absent =>
    rw [hline] at h
    cases h
    trivial
  | text s =>
    rw [hline] at h
    cases h
    exact Value.ofTyped_bare _
  | unreadable =>
    rw [hline] at h
    cases h

variable {r : Run}

theorem Run.KnowsValue.of_bare {v : Value} (h : v.Bare) : r.KnowsValue v := by
  cases v with
  | function f => exact h.elim
  | cls c => exact h.elim
  | object o => exact h.elim
  | _ => trivial

theorem knows_ofLiteral (value : Literal) : r.KnowsValue (.ofLiteral value) :=
  .of_bare (Value.ofLiteral_bare value)

/-- What a unary operator gives is known. -/
theorem knows_unary {operator : Kind} {a v : Value} (h : Value.unary operator a = .ok v) :
    r.KnowsValue v :=
  .of_bare (Value.unary_bare h)

/-- What a binary operator gives is known, for only a comma gives one of its operands. -/
theorem knows_binary {operator : Kind} {a b v : Value} (hb : r.KnowsValue b)
    (h : Value.binary operator a b = .ok v) : r.KnowsValue v := by
  rcases Value.binary_bare h with rfl | hbare
  · exact hb
  · exact .of_bare hbare

/-- What a native function gives is known. -/
theorem knows_native {n : Native} {arguments : List Value} {host host' : Host} {v : Value}
    (h : n.apply arguments host = (.ok v, host')) : r.KnowsValue v :=
  .of_bare (Native.apply_bare h)

end Eval

end Lox
