/-
Which types can stand for which.

A class is reached only along the chain of bases. An interface is also reached through the interfaces listed by anything
on that chain, and through the interfaces those list. A type parameter stands for whatever one of its constraints stands
for; arrays, pointers and parameters of methods stand only for themselves.

Bases, listed interfaces and constraints form no cycles, so each walk is bounded by the number of declarations.

- `baseChain`: a type, its base, the base of that, and so on.
- `implements`: reaching an interface through listed interfaces.
- `isSubtype`, `isAssignable`: the relation between declared types and between type references.
-/
import DisposalWeaver.TypeGraph.Basic

namespace DisposalWeaver.TypeGraph

/-- the first `bound` types on the way from a type to its root -/
def chainWithin (g : TypeGraph) : Nat → TypeId → List TypeId
  | 0, _ => []
  | bound + 1, t =>
    t :: match (g.type t).base with
      | some base => chainWithin g bound base
      | none => []

/-- a type and all its bases, nearest first -/
def baseChain (g : TypeGraph) (t : TypeId) : List TypeId :=
  g.chainWithin (g.types.size + 1) t

/-- is `interface` the type itself or reached through at most `bound` listed interfaces? -/
def implementsWithin (g : TypeGraph) (interface : TypeId) : Nat → TypeId → Bool
  | 0, t => t == interface
  | bound + 1, t => t == interface || (g.type t).interfaces.any fun listed => implementsWithin g interface bound listed

/-- is `interface` the type itself or reached through listed interfaces? -/
def implements (g : TypeGraph) (t interface : TypeId) : Bool :=
  g.implementsWithin interface g.types.size t

/-- can a value of type `t` stand for one of type `super`? -/
def isSubtype (g : TypeGraph) (t super : TypeId) : Bool :=
  if g.isInterface super then (g.baseChain t).any fun step => g.implements step super
  else (g.baseChain t).any fun step => step == super

/-- number of generic parameters of all types; no walk through constraints is longer -/
def parameterCount (g : TypeGraph) : Nat :=
  (g.types.toList.flatMap TypeDecl.generics).length

/-- `isAssignable` through at most `bound` constraints -/
def isAssignableWithin (g : TypeGraph) (super : TypeRef) : Nat → TypeRef → Bool
  | 0, r => r == super
  | bound + 1, r =>
    r == super ||
      match super.definition? with
      | none => false
      | some target =>
        match r with
        | .named d => g.isSubtype d target
        | .applied d _ => g.isSubtype d target
        | .typeParameter _ _ => (g.constraints r).any fun constraint => isAssignableWithin g super bound constraint
        | _ => false

/-- can a value of type `r` stand for one of type `super`? Only the definition of `super` counts, not its arguments. -/
def isAssignable (g : TypeGraph) (r super : TypeRef) : Bool :=
  g.isAssignableWithin super (g.parameterCount + 1) r

end DisposalWeaver.TypeGraph
