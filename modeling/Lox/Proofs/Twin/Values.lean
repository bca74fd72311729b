import Lox.Proofs.Twin.Likeness

/-!
# Values of two runs

Two writings of a program are run side by side. A value of the one run and its twin in the other are
the same but for the declarations of functions, which are alike. A `Layout` says of each frame for
which scopes it and the frames around it were made, so that a function and its twin are alike under
the marks of the frames around them.
-/

namespace Lox

/-- For each frame, the marks of the scopes for which it and the frames around it were made,
innermost first. -/
abbrev Layout := List (List Bool)

/-! ## Twins -/

section Twin

variable (v : Variation) (l : Layout)

/-- The functions are the same but for their declarations. Scopes with the marks `inner` are to lie
between the body and the frame that the function was made in. -/
structure Function.Twin (inner : List Bool) (f f' : Function) : Prop where
  serial : f'.serial = f.serial
  closure : f'.closure = f.closure
  isInitializer : f'.isInitializer = f.isInitializer
  kind : f'.kind = f.kind
  alike : ∃ marks, l[f.closure]? = some marks ∧
    Alike v (inner ++ marks) (.function f.declaration) (.function f'.declaration)

/-- The classes are the same but for their members' declarations. A scope that holds `this` lies
around each member. -/
structure Class.Twin (c c' : Class) : Prop where
  serial : c'.serial = c.serial
  name : c'.name = c.name
  metaclass : c'.metaclass?.isSome = c.metaclass?.isSome
  methods : ∀ name, Option.Rel (Function.Twin v l [false]) (c.findMethod name) (c'.findMethod name)
  classMethods : ∀ name,
    Option.Rel (Function.Twin v l [false]) (c.findClassMethod name) (c'.findClassMethod name)

/-- The values are the same but for the declarations of functions. -/
inductive Value.Twin : Value → Value → Prop where
  | nil : Value.Twin .nil .nil
  | bool (b : Bool) : Value.Twin (.bool b) (.bool b)
  | number (x : Float) : Value.Twin (.number x) (.number x)
  | string (s : String) : Value.Twin (.string s) (.string s)
  | native (n : Native) (serial : Nat) : Value.Twin (.native n serial) (.native n serial)
  | function {f f' : Function} (h : f.Twin v l [] f') : Value.Twin (.function f) (.function f')
  | cls {c c' : Class} (h : c.Twin v l c') : Value.Twin (.cls c) (.cls c')
  | object (id : ObjectId) {c c' : Class} (h : c.Twin v l c') :
      Value.Twin (.object ⟨id, c⟩) (.object ⟨id, c'⟩)

/-- The runtime errors are the same but for the writing of their tokens. -/
structure RuntimeError.Twin (e e' : RuntimeError) : Prop where
  cause : e'.cause = e.cause
  token : ∃ marked, v.Keeps (e.token.renamed (v.name marked e.token.lexeme)) e'.token

end Twin

variable {v : Variation} {l l' : Layout}

/-! ## Twins look the same -/

/-- Twins of classes look the same up to their members. -/
theorem Class.Twin.like {c c' : Class} (h : c.Twin v l c') :
    c.Like (Function.Twin v l [false]) c' :=
  ⟨h.serial, h.name, h.metaclass, h.methods, h.classMethods⟩

/-- Classes that look the same up to their members are twins. -/
theorem Class.Like.twin {c c' : Class} (h : c.Like (Function.Twin v l [false]) c') :
    c.Twin v l c' :=
  ⟨h.serial, h.name, h.metaclass, h.methods, h.classMethods⟩

/-- Twins of values look the same up to the functions in them. -/
theorem Value.Twin.like {a a' : Value} (h : a.Twin v l a') :
    a.Like (Function.Twin v l []) (Function.Twin v l [false]) a' := by
  cases h with
  | nil => exact .nil
  | bool b => exact .bool b
  | number x => exact .number x
  | string s => exact .string s
  | native n serial => exact .native n serial
  | function h => exact .function h
  | cls h => exact .cls h.like
  | object id h => exact .object id h.like

/-- Values that look the same up to the functions in them are twins. -/
theorem Value.Like.twin {a a' : Value}
    (h : a.Like (Function.Twin v l []) (Function.Twin v l [false]) a') : a.Twin v l a' := by
  cases h with
  | nil => exact .nil
  | bool b => exact .bool b
  | number x => exact .number x
  | string s => exact .string s
  | native n serial => exact .native n serial
  | function h => exact .function h
  | cls h => exact .cls h.twin
  | object id h => exact .object id h.twin

/-- Whatever a program can see of a function, it sees of its twin. -/
theorem Function.Twin.seen {inner : List Bool} {f f' : Function} (h : f.Twin v l inner f') :
    f.Seen f' := by
  obtain ⟨marks, -, halike⟩ := h.alike
  exact ⟨h.serial, halike.declaration.1, halike.declaration.2.2⟩

/-! ## More frames -/

/-- The marks of a frame stay when there are more frames. -/
theorem Layout.grow (hl : l <+: l') {frame : FrameId} {marks : List Bool}
    (h : l[frame]? = some marks) : l'[frame]? = some marks := by
  obtain ⟨ls, rfl⟩ := hl
  rwa [List.getElem?_append_left (List.getElem?_eq_some_iff.mp h).1]

/-- Functions are twins as before when there are more frames. -/
theorem Function.Twin.grow {inner : List Bool} {f f' : Function} (h : f.Twin v l inner f')
    (hl : l <+: l') : f.Twin v l' inner f' := by
  obtain ⟨marks, hmarks, halike⟩ := h.alike
  exact ⟨h.serial, h.closure, h.isInitializer, h.kind, marks, Layout.grow hl hmarks, halike⟩

/-- Classes are twins as before when there are more frames. -/
theorem Class.Twin.grow {c c' : Class} (h : c.Twin v l c') (hl : l <+: l') : c.Twin v l' c' :=
  (h.like.imp fun _ _ hf => hf.grow hl).twin

/-- Values are twins as before when there are more frames. -/
theorem Value.Twin.grow {a a' : Value} (h : a.Twin v l a') (hl : l <+: l') : a.Twin v l' a' :=
  (h.like.imp (fun _ _ hf => hf.grow hl) fun _ _ hf => hf.grow hl).twin

/-! ## Other variations -/

section Vary

variable {v' : Variation} (hv : v.Within v')

include hv

/-- Twins by a variation are twins by a wider one. -/
theorem Function.Twin.vary {inner : List Bool} {f f' : Function} (h : f.Twin v l inner f') :
    f.Twin v' l inner f' := by
  obtain ⟨marks, hmarks, halike⟩ := h.alike
  exact ⟨h.serial, h.closure, h.isInitializer, h.kind, marks, hmarks, halike.vary hv⟩

/-- Values that are twins by a variation are so by a wider one. -/
theorem Value.Twin.vary {a a' : Value} (h : a.Twin v l a') : a.Twin v' l a' :=
  (h.like.imp (fun _ _ hf => hf.vary hv) fun _ _ hf => hf.vary hv).twin

end Vary

/-! ## What is read off a value -/

/-- Names of functions are never changed. -/
theorem Function.Twin.name? {inner : List Bool} {f f' : Function} (h : f.Twin v l inner f') :
    f'.name? = f.name? :=
  h.seen.name?

namespace Value.Twin

variable {a a' b b' : Value}

/-- Twins are printed alike. -/
theorem text (h : a.Twin v l a') : a'.text = a.text :=
  h.like.text fun _ _ hf => hf.seen

/-- Twins decide a condition alike. -/
theorem isTruthy (h : a.Twin v l a') : a'.isTruthy = a.isTruthy :=
  h.like.isTruthy

/-- Twins ask for as many arguments. -/
theorem arity? (h : a.Twin v l a') : a'.arity? = a.arity? :=
  h.like.arity? (fun _ _ hf => hf.seen) fun _ _ hf => hf.seen

/-- A logical operator stops at both twins or at neither. -/
theorem decides (h : a.Twin v l a') (operator : Kind) :
    Value.decides operator a' = Value.decides operator a :=
  h.like.decides operator

end Value.Twin

/-! ## Operators -/

/-- Twins, or the same cause. -/
inductive Value.ResultTwin (v : Variation) (l : Layout) :
    Except RuntimeCause Value → Except RuntimeCause Value → Prop where
  | ok {a a' : Value} (h : a.Twin v l a') : Value.ResultTwin v l (.ok a) (.ok a')
  | error (cause : RuntimeCause) : Value.ResultTwin v l (.error cause) (.error cause)

/-- Results that look the same are twins or have the same cause. -/
theorem Value.ResultLike.twin {r r' : Except RuntimeCause Value}
    (h : Value.ResultLike (Function.Twin v l []) (Function.Twin v l [false]) r r') :
    Value.ResultTwin v l r r' := by
  cases h with
  | ok h => exact .ok h.twin
  | error cause => exact .error cause

namespace Value.Twin

variable {a a' b b' : Value}

/-- An operator gives twins for twins. -/
theorem unary (h : a.Twin v l a') (operator : Kind) :
    Value.ResultTwin v l (Value.unary operator a) (Value.unary operator a') :=
  (h.like.unary operator).twin

/-- An operator with two operands gives twins for twins. -/
theorem binary (ha : a.Twin v l a') (hb : b.Twin v l b') (operator : Kind) :
    Value.ResultTwin v l (Value.binary operator a b) (Value.binary operator a' b') :=
  (Value.Like.binary (fun _ _ hf => hf.seen) ha.like hb.like operator).twin

end Value.Twin

end Lox
