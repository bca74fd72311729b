import Lox.Native.Apply
import Lox.Proofs.Twin.Alike
import Lox.Value.Operator

/-!
# Values that look the same

Two values are like each other if a program cannot tell them apart: they have the same form, and
whatever functions they hold are related, plain ones by `F` and members of classes by `M`. If
related functions show the same of themselves then printing, comparing and computing with such
values come to the same, whatever the relations are.
-/

namespace Lox

/-- The functions show the same of themselves without a call. -/
structure Function.Seen (f f' : Function) : Prop where
  serial : f'.serial = f.serial
  name? : f'.name? = f.name?
  arity : f'.arity = f.arity

/-- A function is printed by its name. -/
theorem Function.Seen.text {f f' : Function} (h : f.Seen f') : f'.text = f.text := by
  unfold Function.text
  rw [h.name?]

/-- The classes have the same names, and related members under the same names. -/
structure Class.Like (M : Function → Function → Prop) (c c' : Class) : Prop where
  serial : c'.serial = c.serial
  name : c'.name = c.name
  metaclass : c'.metaclass?.isSome = c.metaclass?.isSome
  methods : ∀ name, Option.Rel M (c.findMethod name) (c'.findMethod name)
  classMethods : ∀ name, Option.Rel M (c.findClassMethod name) (c'.findClassMethod name)

/-- The values are the same, but for functions that are related. -/
inductive Value.Like (F M : Function → Function → Prop) : Value → Value → Prop where
  | nil : Value.Like F M .nil .nil
  | bool (b : Bool) : Value.Like F M (.bool b) (.bool b)
  | number (x : Float) : Value.Like F M (.number x) (.number x)
  | string (s : String) : Value.Like F M (.string s) (.string s)
  | native (n : Native) (serial : Nat) : Value.Like F M (.native n serial) (.native n serial)
  | function {f f' : Function} (h : F f f') : Value.Like F M (.function f) (.function f')
  | cls {c c' : Class} (h : c.Like M c') : Value.Like F M (.cls c) (.cls c')
  | object (id : ObjectId) {c c' : Class} (h : c.Like M c') :
      Value.Like F M (.object ⟨id, c⟩) (.object ⟨id, c'⟩)

/-- Like values, or the same cause. -/
inductive Value.ResultLike (F M : Function → Function → Prop) :
    Except RuntimeCause Value → Except RuntimeCause Value → Prop where
  | ok {a a' : Value} (h : a.Like F M a') : Value.ResultLike F M (.ok a) (.ok a')
  | error (cause : RuntimeCause) : Value.ResultLike F M (.error cause) (.error cause)

/-! ## Wider relations -/

section Wider

variable {F F' M M' : Function → Function → Prop} (hF : ∀ f f', F f f' → F' f f')
  (hM : ∀ f f', M f f' → M' f f')

include hM

/-- Classes are alike by a wider relation of their members. -/
theorem Class.Like.imp {c c' : Class} (h : c.Like M c') : c.Like M' c' :=
  ⟨h.serial, h.name, h.metaclass, fun name => (h.methods name).imp hM,
    fun name => (h.classMethods name).imp hM⟩

include hF

/-- Values are alike by wider relations of functions. -/
theorem Value.Like.imp {a a' : Value} (h : a.Like F M a') : a.Like F' M' a' := by
  cases h with
  | nil => exact .nil
  | bool b => exact .bool b
  | number x => exact .number x
  | string s => exact .string s
  | native n serial => exact .native n serial
  | function h => exact .function (hF _ _ h)
  | cls h => exact .cls (h.imp hM)
  | object id h => exact .object id (h.imp hM)

end Wider

variable {F M : Function → Function → Prop}

/-! ## What is read off a value -/

/-- Classes that are alike are called with as many arguments: those of their initializers. -/
theorem Class.Like.arity (hM : ∀ f f', M f f' → f.Seen f') {c c' : Class} (h : c.Like M c') :
    c'.arity = c.arity := by
  have hinitializer := h.methods initializerName
  unfold Class.arity Class.initializer?
  generalize c.findMethod initializerName = f at hinitializer
  generalize c'.findMethod initializerName = f' at hinitializer
  cases hinitializer with
  | none => rfl
  | some hf => exact (hM _ _ hf).arity

namespace Value.Like

variable {a a' b b' : Value}

/-- Values that are alike decide a condition alike. -/
theorem isTruthy (h : a.Like F M a') : a'.isTruthy = a.isTruthy := by
  cases h <;> rfl

/-- A logical operator stops at both or at neither. -/
theorem decides (h : a.Like F M a') (operator : Kind) :
    Value.decides operator a' = Value.decides operator a := by
  unfold Value.decides
  rw [h.isTruthy]

section Seen

variable (hF : ∀ f f', F f f' → f.Seen f')

include hF

/-- Values that are alike are printed alike. -/
theorem text (h : a.Like F M a') : a'.text = a.text := by
  cases h with
  | function h => exact (hF _ _ h).text
  | cls h => exact congrArg (fun name => "<cls " ++ name ++ ">") h.name
  | object id h => exact congrArg (fun name => "<inst " ++ name ++ ">") h.name
  | _ => rfl

/-- Values that are alike ask for as many arguments. -/
theorem arity? (hM : ∀ f f', M f f' → f.Seen f') (h : a.Like F M a') : a'.arity? = a.arity? := by
  cases h with
  | function h => exact congrArg some (hF _ _ h).arity
  | cls h => exact congrArg some (h.arity hM)
  | _ => rfl

/-- Comparing goes by form, by serial numbers and by object. -/
theorem equals (ha : a.Like F M a') (hb : b.Like F M b') : a'.equals b' = a.equals b := by
  cases ha with
  | function ha =>
    cases hb with
    | function hb => simp only [Value.equals, (hF _ _ ha).serial, (hF _ _ hb).serial]
    | _ => rfl
  | cls ha =>
    cases hb with
    | cls hb => simp only [Value.equals, ha.serial, hb.serial]
    | _ => rfl
  | _ => cases hb <;> rfl

end Seen

/-! ## Operators -/

/-- A unary operator gives like values for like operands. -/
theorem unary (h : a.Like F M a') (operator : Kind) :
    Value.ResultLike F M (Value.unary operator a) (Value.unary operator a') := by
  unfold Value.unary
  split
  next =>
    cases h with
    | number x => exact .ok (.number (-x))
    | _ => exact .error _
  next =>
    rw [h.isTruthy]
    exact .ok (.bool _)

/-- Two values are numbers or they are not, in both cases the same ones. -/
theorem numbers (ha : a.Like F M a') (hb : b.Like F M b') :
    Value.numbers a' b' = Value.numbers a b := by
  cases ha <;> cases hb <;> rfl

/-- Comparisons give the same for like operands. -/
theorem compare (ha : a.Like F M a') (hb : b.Like F M b') (numbers : Float → Float → Bool)
    (strings : Ordering → Bool) :
    Value.ResultLike F M (Value.compare numbers strings a b)
      (Value.compare numbers strings a' b') := by
  cases ha <;> cases hb
  all_goals first
    | exact .error _
    | exact .ok (.bool _)

/-- An operator that makes a number of two. -/
theorem arithmetic (ha : a.Like F M a') (hb : b.Like F M b')
    {f : Float × Float → Except RuntimeCause Value}
    (hf : ∀ xs, Value.ResultLike F M (f xs) (f xs)) :
    Value.ResultLike F M (Value.numbers a b >>= f) (Value.numbers a' b' >>= f) := by
  rw [numbers ha hb]
  cases Value.numbers a b with
  | ok xs => exact hf xs
  | error cause => exact .error cause

variable (hF : ∀ f f', F f f' → f.Seen f')

include hF

/-- A sum of like operands is alike; a string may take in the text of a function. -/
theorem add (ha : a.Like F M a') (hb : b.Like F M b') :
    Value.ResultLike F M (Value.add a b) (Value.add a' b') := by
  have htext := ha.text hF
  have htext' := hb.text hF
  cases ha <;> cases hb
  all_goals first
    | exact .error _
    | exact .ok (.number _)
    | exact .ok (.string _)
    | (simp only [Value.add, htext, htext']; exact .ok (.string _))

/-- An operator with two operands gives like values for like operands. -/
theorem binary (ha : a.Like F M a') (hb : b.Like F M b') (operator : Kind) :
    Value.ResultLike F M (Value.binary operator a b) (Value.binary operator a' b') := by
  unfold Value.binary
  split
  next => exact .ok hb
  next =>
    rw [equals hF ha hb]
    exact .ok (.bool _)
  next =>
    rw [equals hF ha hb]
    exact .ok (.bool _)
  next => exact add hF ha hb
  next => exact arithmetic ha hb fun xs => .ok (.number _)
  next => exact arithmetic ha hb fun xs => .ok (.number _)
  next =>
    refine arithmetic ha hb fun (x, y) => ?_
    show Value.ResultLike F M (Value.divide x y) (Value.divide x y)
    unfold Value.divide
    split
    next => exact .error _
    next => exact .ok (.number _)
  next => exact compare ha hb _ _
  next => exact compare ha hb _ _
  next => exact compare ha hb _ _
  next => exact compare ha hb _ _
  next => exact .error _

end Value.Like

/-! ## Native functions -/

/-- A native function sees no difference between values that are like each other. -/
theorem Native.apply_like (hF : ∀ f f', F f f' → f.Seen f') (n : Native) {as as' : List Value}
    (h : List.Forall₂ (Value.Like F M) as as') (host : Host) :
    n.apply as' host = n.apply as host := by
  cases h with
  | nil => rfl
  | @cons a a' as as' ha has =>
    have hnumber : n.number (a' :: as') = n.number (a :: as) := by
      cases ha <;> rfl
    have hstring : n.string (a' :: as') = n.string (a :: as) := by
      cases ha <;> rfl
    cases n with
    | clock => rfl
    | rand => rfl
    | isNumber => cases ha <;> rfl
    | isString => cases ha <;> rfl
    | stringify =>
      unfold Native.apply Native.compute
      simp only [List.head?_cons, Option.map_some, ha.text hF]
    | round => simp only [Native.apply, Native.compute, hnumber]
    | abs => simp only [Native.apply, Native.compute, hnumber]
    | lowercase => simp only [Native.apply, Native.compute, hstring]
    | uppercase => simp only [Native.apply, Native.compute, hstring]

/-- What a native function gives has no functions in it. -/
theorem Native.apply_plain (n : Native) {as : List Value} {host : Host} {a : Value}
    (h : (n.apply as host).1 = .ok a) (F M : Function → Function → Prop) : a.Like F M a := by
  have hnumber : ∀ (x : Except NativeFault Float) (f : Float → Float),
      (do return Value.number (f (← x))) = Except.ok a → a.Like F M a := by
    intro x f h
    cases x with
    | error fault => cases h
    | ok x =>
      cases h
      exact .number _
  have hstring : ∀ (x : Except NativeFault String) (f : String → String),
      (do return Value.string (f (← x))) = Except.ok a → a.Like F M a := by
    intro x f h
    cases x with
    | error fault => cases h
    | ok x =>
      cases h
      exact .string _
  cases n with
  | clock =>
    cases h
    exact .number _
  | rand =>
    cases h
    exact .number _
  | isNumber =>
    cases h
    exact .bool _
  | isString =>
    cases h
    exact .bool _
  | stringify =>
    cases h
    exact .string _
  | round => exact hnumber _ (fun x => (x + 0.5).floor) h
  | abs => exact hnumber _ Float.abs h
  | lowercase => exact hstring _ Text.lowercase h
  | uppercase => exact hstring _ Text.uppercase h

/-! ## Classes -/

/-- The members that are found under a name are related, if they are there. -/
def Methods.Like (M : Function → Function → Prop) (t t' : Methods) : Prop :=
  ∀ name : String, Option.Rel M t[name]? t'[name]?

namespace Methods.Like

variable {t t' : Methods}

/-- Tables with no members are alike. -/
theorem empty : Methods.Like M ∅ ∅ := by
  intro name
  rw [Std.TreeMap.getElem?_emptyc]
  exact .none

/-- Related members may be added under one name. -/
theorem insert (h : Methods.Like M t t') (name : String) {f f' : Function} (hf : M f f') :
    Methods.Like M (t.insert name f) (t'.insert name f') := by
  intro other
  rw [Std.TreeMap.getElem?_insert, Std.TreeMap.getElem?_insert]
  split
  next => exact .some hf
  next => exact h other

/-- One table has members if the other has. -/
theorem isEmpty (h : Methods.Like M t t') : t'.isEmpty = t.isEmpty := by
  have hcontains : ∀ name, t'.contains name = t.contains name := by
    intro name
    rw [Std.TreeMap.contains_eq_isSome_getElem?, Std.TreeMap.contains_eq_isSome_getElem?]
    exact (h name).isSome_eq
  have hiff : t'.isEmpty = true ↔ t.isEmpty = true := by
    rw [Std.TreeMap.isEmpty_iff_forall_contains, Std.TreeMap.isEmpty_iff_forall_contains]
    simp only [hcontains]
  exact Bool.eq_iff_iff.mpr hiff

end Methods.Like

/-- Classes are like each other if their members and their superclasses are. -/
theorem Class.Like.of_parts {serial serial' : Nat} (hserial : serial' = serial) (name : String)
    {superclass superclass' : Option Class}
    (hsuperclass : Option.Rel (Class.Like M) superclass superclass')
    {methods methods' classMethods classMethods' : Methods}
    (hmethods : Methods.Like M methods methods')
    (hclassMethods : Methods.Like M classMethods classMethods') :
    Class.Like M ⟨serial, name, superclass, methods, classMethods⟩
      ⟨serial', name, superclass', methods', classMethods'⟩ := by
  refine ⟨hserial, rfl, ?_, fun name => ?_, fun name => ?_⟩
  · unfold Class.metaclass?
    dsimp only
    rw [hclassMethods.isEmpty]
    split <;> rfl
  · have hfound := hmethods name
    unfold Class.findMethod
    generalize methods[name]? = f at hfound ⊢
    generalize methods'[name]? = f' at hfound ⊢
    cases hfound with
    | some hf => exact .some hf
    | none =>
      cases hsuperclass with
      | none => exact .none
      | some hc => exact hc.methods name
  · have hfound := hclassMethods name
    unfold Class.findClassMethod
    generalize classMethods[name]? = f at hfound ⊢
    generalize classMethods'[name]? = f' at hfound ⊢
    cases hfound with
    | some hf => exact .some hf
    | none =>
      cases hsuperclass with
      | none => exact .none
      | some hc => exact hc.classMethods name

end Lox
