/-
The type graph: every type that the weaver can see, with its fields and methods.

The graph only grows. A declaration gets the next free place, which stays its identity; members are declared on a type
that is already there and are listed on it in the order of their declaration. When two types have one name, looking the
name up keeps answering the first of them.

- `addType`, `addInterface`, `addMethod`, `addField`: the four ways to grow.
- `lookup?`, `findMethod?`, `findField?`: finding a type by name, and a member of a type by name or signature.
- `isEnum`, `isValueType`, `isInterface`, `isAbstract`: what kind of type a declaration makes.
-/
import DisposalWeaver.Flags
import DisposalWeaver.Name
import DisposalWeaver.Signature

namespace DisposalWeaver

/-! ## Declarations -/

/-- generic parameter of a type or a method -/
structure GenericParameter where
  name : MemberName
  flags : GenericFlags := GenericFlags.none
  constraints : List TypeRef := []
  deriving DecidableEq, Repr, Inhabited

/-- parameter of a method -/
structure Parameter where
  name : MemberName
  type : TypeRef
  deriving DecidableEq, Repr, Inhabited

/-- a type; only the root of all types and interfaces have no base -/
structure TypeDecl where
  name : QualifiedName
  base : Option TypeId
  flags : TypeFlags
  generics : List GenericParameter := []
  /-- enclosing type of a nested type -/
  enclosing : Option TypeId := none
  /-- interfaces that the type itself lists -/
  interfaces : List TypeId := []
  /-- methods, in declaration order -/
  methods : List MethodId := []
  /-- fields, in declaration order -/
  fields : List FieldId := []
  deriving DecidableEq, Repr, Inhabited

/-- a method; without a return type it returns nothing -/
structure MethodDecl where
  declaring : TypeId
  name : MemberName
  flags : MethodFlags
  parameters : List Parameter := []
  returns : Option TypeRef := none
  generics : List GenericParameter := []
  deriving DecidableEq, Repr, Inhabited

/-- a field -/
structure FieldDecl where
  declaring : TypeId
  name : MemberName
  type : TypeRef
  flags : FieldFlags
  deriving DecidableEq, Repr, Inhabited

/-- class or structure with the given base -/
def TypeDecl.ofClass (name : QualifiedName) (base : TypeId) (flags : TypeFlags) : TypeDecl :=
  { name, base := some base, flags }

/-- type without a base -/
def TypeDecl.root (name : QualifiedName) (flags : TypeFlags) : TypeDecl :=
  { name, base := none, flags }

/-- interface: public and abstract, without a base -/
def TypeDecl.ofInterface (name : QualifiedName) : TypeDecl :=
  { name, base := none, flags := TypeFlags.public_ ||| TypeFlags.interface ||| TypeFlags.abstract_ }

/-- all declarations, each at the place that identifies it -/
structure TypeGraph where
  types : Array TypeDecl := #[]
  methods : Array MethodDecl := #[]
  fields : Array FieldDecl := #[]
  deriving DecidableEq, Repr, Inhabited

namespace TypeGraph

/-- graph without declarations -/
def empty : TypeGraph := {}

/-! ## Reading; a place that holds nothing reads as a nameless declaration -/

def type (g : TypeGraph) (t : TypeId) : TypeDecl := g.types.getD t.index default
def method (g : TypeGraph) (m : MethodId) : MethodDecl := g.methods.getD m.index default
def field (g : TypeGraph) (f : FieldId) : FieldDecl := g.fields.getD f.index default

/-- the first type declared under a name -/
def lookup? (g : TypeGraph) (name : QualifiedName) : Option TypeId :=
  (g.types.findIdx? fun decl => decl.name == name).map TypeId.mk

/-! ## Growing -/

/-- declares a type -/
def addType (g : TypeGraph) (decl : TypeDecl) : TypeId × TypeGraph :=
  (⟨g.types.size⟩, { g with types := g.types.push decl })

/-- lists one more interface on a type -/
def addInterface (g : TypeGraph) (t interface : TypeId) : TypeGraph :=
  { g with types := g.types.modify t.index fun decl => { decl with interfaces := decl.interfaces ++ [interface] } }

/-- declares a method, last on its declaring type -/
def addMethod (g : TypeGraph) (decl : MethodDecl) : MethodId × TypeGraph :=
  let id : MethodId := ⟨g.methods.size⟩
  (id, { g with
    methods := g.methods.push decl
    types := g.types.modify decl.declaring.index fun t => { t with methods := t.methods ++ [id] } })

/-- declares a field, last on its declaring type -/
def addField (g : TypeGraph) (decl : FieldDecl) : FieldId × TypeGraph :=
  let id : FieldId := ⟨g.fields.size⟩
  (id, { g with
    fields := g.fields.push decl
    types := g.types.modify decl.declaring.index fun t => { t with fields := t.fields ++ [id] } })

/-! ## Kinds of types -/

def isInterface (g : TypeGraph) (t : TypeId) : Bool := (g.type t).flags.contains TypeFlags.interface
def isAbstract (g : TypeGraph) (t : TypeId) : Bool := (g.type t).flags.contains TypeFlags.abstract_

/-- name of the base type, if there is one -/
def baseName? (g : TypeGraph) (t : TypeId) : Option QualifiedName :=
  (g.type t).base.map fun base => (g.type base).name

/-- enumerations derive from the enumeration base -/
def isEnum (g : TypeGraph) (t : TypeId) : Bool :=
  g.baseName? t == some QualifiedName.enumeration

/-- value types are the enumerations and what derives from the value type base, less the enumeration base itself -/
def isValueType (g : TypeGraph) (t : TypeId) : Bool :=
  g.isEnum t ||
    (g.baseName? t == some QualifiedName.valueType && (g.type t).name != QualifiedName.enumeration)

/-- reference types other than interfaces and the root -/
def isClass (g : TypeGraph) (t : TypeId) : Bool :=
  (g.type t).base.isSome && !g.isEnum t && !g.isInterface t && !g.isValueType t

/-- the type as seen from inside its own code: a generic type is applied to its own parameters -/
def selfReference (g : TypeGraph) (t : TypeId) : TypeRef :=
  match (g.type t).generics with
  | [] => .named t
  | generics => .applied t ((List.range generics.length).map fun i => .typeParameter t (UInt16.ofNat i))

/-! ## Type references -/

/-- the generic parameter that a type parameter stands for -/
def genericParameter? (g : TypeGraph) (owner : TypeId) (index : UInt16) : Option GenericParameter :=
  (g.type owner).generics[index.toNat]?

/-- do values of the type take no null? -/
def isValueTypeRef (g : TypeGraph) : TypeRef → Bool
  | .named d => g.isValueType d
  | .applied d _ => g.isValueType d
  | .typeParameter owner index =>
    match g.genericParameter? owner index with
    | some parameter => parameter.flags.contains GenericFlags.valueType
    | none => false
  | _ => false

/-- constraints of a type parameter; other references have none -/
def constraints (g : TypeGraph) : TypeRef → List TypeRef
  | .typeParameter owner index =>
    match g.genericParameter? owner index with
    | some parameter => parameter.constraints
    | none => []
  | _ => []

mutual

/-- is the type, or one of its parts, a generic definition that was never given arguments? -/
def isOpenGeneric (g : TypeGraph) : TypeRef → Bool
  | .named d => !(g.type d).generics.isEmpty
  | .applied _ arguments => anyOpenGeneric g arguments
  | .array element => isOpenGeneric g element
  | .byRef element => isOpenGeneric g element
  | .typeParameter _ _ => false
  | .methodParameter _ => false

/-- `isOpenGeneric` for some member of a list -/
def anyOpenGeneric (g : TypeGraph) : List TypeRef → Bool
  | [] => false
  | r :: rest => isOpenGeneric g r || anyOpenGeneric g rest

end

/-- how a type is spelled in a signature: simple names, and the names of generic parameters; a parameter of a method is
looked up among the method's `generics` -/
def shortName (g : TypeGraph) (generics : List GenericParameter) : TypeRef → String
  | .named d => (g.type d).name.simple
  | .applied d _ => (g.type d).name.simple
  | .typeParameter owner index =>
    match g.genericParameter? owner index with
    | some parameter => parameter.name.text
    | none => s!"!{index.toNat}"
  | .methodParameter index =>
    match generics[index.toNat]? with
    | some parameter => parameter.name.text
    | none => s!"!!{index.toNat}"
  | .array element => shortName g generics element ++ "[]"
  | .byRef element => shortName g generics element ++ "&"

end TypeGraph

/-! ## Members -/

namespace MethodDecl

def isStatic (m : MethodDecl) : Bool := m.flags.isStatic
def isVirtual (m : MethodDecl) : Bool := m.flags.isVirtual

/-- constructors of instances and of the type itself are known by their names -/
def isConstructor (m : MethodDecl) : Bool :=
  m.name == MemberName.constructor || m.name == MemberName.typeConstructor

/-- values that a call takes, the receiver included -/
def argumentCount (m : MethodDecl) : Nat :=
  m.parameters.length + if m.isStatic then 0 else 1

/-- values that a call leaves -/
def resultCount (m : MethodDecl) : Nat :=
  if m.returns.isSome then 1 else 0

/-- short names of the parameter types -/
def parameterNames (g : TypeGraph) (m : MethodDecl) : List String :=
  m.parameters.map fun parameter => g.shortName m.generics parameter.type

/-- has the method this name and exactly these parameter types, compared by short name? -/
def hasSignature (g : TypeGraph) (m : MethodDecl) (name : String) (parameters : List String) : Bool :=
  m.name.text == name && m.parameterNames g == parameters

/-- finalizers are the instance methods that redefine the root's -/
def isFinalizer (g : TypeGraph) (m : MethodDecl) : Bool :=
  !m.isStatic && m.hasSignature g MemberName.finalize.text []

end MethodDecl

namespace TypeGraph

/-- the first method of a type with the given name and parameter types -/
def findMethod? (g : TypeGraph) (t : TypeId) (name : String) (parameters : List String) : Option MethodId :=
  (g.type t).methods.find? fun m => (g.method m).hasSignature g name parameters

/-- the first field of a type with the given name -/
def findField? (g : TypeGraph) (t : TypeId) (name : String) : Option FieldId :=
  (g.type t).fields.find? fun f => (g.field f).name.text == name

/-- does the type declare a field of this name? -/
def hasField (g : TypeGraph) (t : TypeId) (name : String) : Bool :=
  (g.findField? t name).isSome

/-- does the type declare a method of this name? -/
def hasMethod (g : TypeGraph) (t : TypeId) (name : String) : Bool :=
  (g.type t).methods.any fun m => (g.method m).name.text == name

end TypeGraph

/-- reference to a method through its declaring type as it stands -/
def MethodRef.direct (g : TypeGraph) (m : MethodId) : MethodRef :=
  { method := m, declaring := .named (g.method m).declaring }

/-- reference to a method from inside its own declaring type -/
def MethodRef.onSelf (g : TypeGraph) (m : MethodId) : MethodRef :=
  { method := m, declaring := g.selfReference (g.method m).declaring }

/-- reference to a field through its declaring type as it stands -/
def FieldRef.direct (g : TypeGraph) (f : FieldId) : FieldRef :=
  { field := f, declaring := .named (g.field f).declaring }

/-- reference to a field from inside its own declaring type -/
def FieldRef.onSelf (g : TypeGraph) (f : FieldId) : FieldRef :=
  { field := f, declaring := g.selfReference (g.field f).declaring }

end DisposalWeaver
