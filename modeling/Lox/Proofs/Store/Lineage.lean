import Lox.Value

/-!
# Lines of superclasses

A class, its superclass, the superclass of that one and so on make up its lineage. Finding a member
is going through the lineage to the first class that has one of the name.
-/

namespace Lox.Class

/-- The class and all above it, each followed by its superclass. -/
def lineage : Class → List Class
  | ⟨serial, name, superclass, methods, classMethods⟩ =>
    ⟨serial, name, superclass, methods, classMethods⟩ ::
      match superclass with
      | some c => lineage c
      | none => []

variable {c : Class}

theorem lineage_eq (c : Class) : c.lineage = c :: (c.superclass.map lineage).getD [] := by
  obtain ⟨serial, name, _ | superclass, methods, classMethods⟩ := c <;> rfl

theorem self_mem_lineage (c : Class) : c ∈ c.lineage := by
  rw [lineage_eq]
  exact List.mem_cons_self

/-- The member of a name is that of the first class of the lineage that has one. -/
theorem findMethod_eq (name : String) (c : Class) :
    c.findMethod name = c.lineage.findSome? fun d => d.methods[name]? := by
  fun_induction findMethod name c with
  | case1 serial own superclass methods classMethods f hf =>
    rw [lineage_eq, List.findSome?_cons, hf]
  | case2 serial own methods classMethods hf c ih =>
    rw [lineage_eq, List.findSome?_cons, hf]
    exact ih
  | case3 serial own methods classMethods hf =>
    rw [lineage_eq, List.findSome?_cons, hf]
    rfl

/-- The class method of a name is the first one of this name along the lineage. -/
theorem findClassMethod_eq (name : String) (c : Class) :
    c.findClassMethod name = c.lineage.findSome? fun d => d.classMethods[name]? := by
  fun_induction findClassMethod name c with
  | case1 serial own superclass methods classMethods f hf =>
    rw [lineage_eq, List.findSome?_cons, hf]
  | case2 serial own methods classMethods hf c ih =>
    rw [lineage_eq, List.findSome?_cons, hf]
    exact ih
  | case3 serial own methods classMethods hf =>
    rw [lineage_eq, List.findSome?_cons, hf]
    rfl

end Lox.Class
