/-
Identities of declarations, and types as they appear in signatures and instruction operands.

A type, method or field is known by its place in the type graph, so two declarations of one name stay apart.
A `TypeRef` is a type as it is used: a declared type, a generic type applied to arguments, a generic parameter, an array
or a managed pointer. `MethodRef` and `FieldRef` are members as they are used: through which form of the declaring type,
and with which arguments of their own.
-/
namespace DisposalWeaver

/-- place of a type in the graph -/
structure TypeId where
  index : Nat
  deriving DecidableEq, Repr, Inhabited

/-- place of a method in the graph -/
structure MethodId where
  index : Nat
  deriving DecidableEq, Repr, Inhabited

/-- place of a field in the graph -/
structure FieldId where
  index : Nat
  deriving DecidableEq, Repr, Inhabited

/-- type as it appears in a signature, a field or an operand -/
inductive TypeRef where
  /-- a type without arguments: not generic, or a generic definition left open -/
  | named (definition : TypeId)
  /-- generic definition applied to arguments -/
  | applied (definition : TypeId) (arguments : List TypeRef)
  /-- generic parameter of a type -/
  | typeParameter (owner : TypeId) (index : UInt16)
  /-- generic parameter of the method in whose signature this appears -/
  | methodParameter (index : UInt16)
  | array (element : TypeRef)
  /-- managed pointer to a place of the given type -/
  | byRef (element : TypeRef)
  deriving Repr, Inhabited

namespace TypeRef

mutual

/-- are two type references built alike from the same definitions? -/
def same : TypeRef → TypeRef → Bool
  | .named s, .named t => s == t
  | .applied s xs, .applied t ys => s == t && sameAll xs ys
  | .typeParameter s i, .typeParameter t j => s == t && i == j
  | .methodParameter i, .methodParameter j => i == j
  | .array a, .array b => same a b
  | .byRef a, .byRef b => same a b
  | _, _ => false

/-- `same` for each pair of two lists of one length -/
def sameAll : List TypeRef → List TypeRef → Bool
  | [], [] => true
  | x :: xs, y :: ys => same x y && sameAll xs ys
  | _, _ => false

end

mutual

theorem eq_of_same : ∀ {a b : TypeRef}, same a b = true → a = b
  | .named s, b, h => by cases b <;> simp_all [same]
  | .applied s xs, b, h => by
    cases b with
    | applied t ys =>
      simp only [same, Bool.and_eq_true, beq_iff_eq] at h
      rw [h.1, eq_of_sameAll h.2]
    | _ => simp [same] at h
  | .typeParameter s i, b, h => by cases b <;> simp_all [same]
  | .methodParameter i, b, h => by cases b <;> simp_all [same]
  | .array a, b, h => by
    cases b with
    | array b => simp only [same] at h; rw [eq_of_same h]
    | _ => simp [same] at h
  | .byRef a, b, h => by
    cases b with
    | byRef b => simp only [same] at h; rw [eq_of_same h]
    | _ => simp [same] at h

theorem eq_of_sameAll : ∀ {xs ys : List TypeRef}, sameAll xs ys = true → xs = ys
  | [], ys, h => by cases ys <;> simp_all [sameAll]
  | x :: xs, ys, h => by
    cases ys with
    | nil => simp [sameAll] at h
    | cons y ys =>
      simp only [sameAll, Bool.and_eq_true] at h
      rw [eq_of_same h.1, eq_of_sameAll h.2]

end

mutual

theorem same_refl : ∀ a : TypeRef, same a a = true
  | .named s => by simp [same]
  | .applied s xs => by simp [same, sameAll_refl xs]
  | .typeParameter s i => by simp [same]
  | .methodParameter i => by simp [same]
  | .array a => by simp [same, same_refl a]
  | .byRef a => by simp [same, same_refl a]

theorem sameAll_refl : ∀ xs : List TypeRef, sameAll xs xs = true
  | [] => by simp [sameAll]
  | x :: xs => by simp [sameAll, same_refl x, sameAll_refl xs]

end

theorem same_iff {a b : TypeRef} : same a b = true ↔ a = b :=
  ⟨eq_of_same, fun h => h ▸ same_refl a⟩

instance : DecidableEq TypeRef := fun _ _ => decidable_of_iff _ same_iff

/-- the definition behind a declared or applied type -/
def definition? : TypeRef → Option TypeId
  | .named d => some d
  | .applied d _ => some d
  | _ => none

/-- is this a generic parameter, of a type or of a method? -/
def isGenericParameter : TypeRef → Bool
  | .typeParameter _ _ => true
  | .methodParameter _ => true
  | _ => false

end TypeRef

/-- method operand of a call -/
structure MethodRef where
  method : MethodId
  /-- declaring type as the caller sees it -/
  declaring : TypeRef
  /-- arguments for a generic method -/
  arguments : List TypeRef := []
  deriving DecidableEq, Repr, Inhabited

/-- field operand of a load or a store -/
structure FieldRef where
  field : FieldId
  /-- declaring type as the accessing code sees it -/
  declaring : TypeRef
  deriving DecidableEq, Repr, Inhabited

end DisposalWeaver
