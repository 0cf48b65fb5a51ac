/-
A module: the definitions that weaving changes.

Names, signatures and flags are declared in the type graph and never change. What a module holds for a declaration is
what can change: the body of a method, the markers on anything, and which members a type defines.

- `Module.definition?`, `Module.body?`, `Module.methods`, `Module.bodies`: reading a module.
- `TypeDef.addMethod?`, `TypeDef.addField?`: defining declared members on the type that declares them.
- `TypeDef.declareMethod?`, `TypeDef.declareField?`: declaring and defining in one go.
- `MethodRef.applied?`: a generic method with its arguments.
-/
import DisposalWeaver.Body.Basic

namespace DisposalWeaver

/-- why a member cannot be used as asked; a member is given by its label -/
inductive ModelError where
  /-- the member is not defined where it is needed -/
  | missingMember (member : String)
  /-- the member is declared on another type -/
  | foreignMember (member : String)
  /-- a generic method was given the wrong number of arguments -/
  | genericArity (member : String) (expected found : Nat)
  deriving DecidableEq, Repr

/-- a generic method with its arguments; no arguments leave the reference as it is -/
def MethodRef.applied? (g : TypeGraph) (r : MethodRef) (arguments : List TypeRef) : Except ModelError MethodRef :=
  let m := g.method r.method
  if arguments.isEmpty then .ok r
  else if m.generics.length = arguments.length then .ok { r with arguments }
  else .error (.genericArity (g.methodLabel m) m.generics.length arguments.length)

/-! ## Markers -/

/-- constructor argument of a marker -/
inductive Constant where
  | string (value : String)
  | int32 (value : Int32)
  | boolean (value : Bool)
  deriving DecidableEq, Repr

/-- attribute attached to a module, a type, a field or a method -/
structure Marker where
  type : TypeId
  arguments : List Constant := []
  deriving DecidableEq, Repr

namespace Marker

/-- is the marker's type of this name? -/
def isNamed (g : TypeGraph) (marker : Marker) (name : QualifiedName) : Bool :=
  (g.type marker.type).name == name

/-- the first argument that is a text -/
def text? (marker : Marker) : Option String :=
  marker.arguments.findSome? fun
    | .string value => some value
    | _ => none

end Marker

/-! ## Definitions -/

/-- definition of a field -/
structure FieldDef where
  id : FieldId
  markers : List Marker := []
  deriving DecidableEq, Repr

/-- definition of a method; abstract and host-provided methods have no body -/
structure MethodDef where
  id : MethodId
  body : Option Body := none
  markers : List Marker := []
  deriving DecidableEq, Repr

/-- definition of a type, with its members in order -/
structure TypeDef where
  id : TypeId
  markers : List Marker := []
  fields : List FieldDef := []
  methods : List MethodDef := []
  deriving DecidableEq, Repr

namespace TypeDef

/-- defines a method that the type declares -/
def addMethod? (g : TypeGraph) (t : TypeDef) (m : MethodDef) : Except ModelError TypeDef :=
  if (g.method m.id).declaring = t.id then .ok { t with methods := t.methods ++ [m] }
  else .error (.foreignMember (g.methodLabel (g.method m.id)))

/-- defines a field that the type declares -/
def addField? (g : TypeGraph) (t : TypeDef) (f : FieldDef) : Except ModelError TypeDef :=
  if (g.field f.id).declaring = t.id then .ok { t with fields := t.fields ++ [f] }
  else .error (.foreignMember (g.fieldLabel (g.field f.id)))

/-- declares a field of the type and defines it -/
def declareField? (g : TypeGraph) (t : TypeDef) (decl : FieldDecl) :
    Except ModelError (FieldId × TypeGraph × TypeDef) :=
  if decl.declaring = t.id then
    let (id, g) := g.addField decl
    .ok (id, g, { t with fields := t.fields ++ [{ id }] })
  else .error (.foreignMember (g.fieldLabel decl))

/-- declares a method of the type and defines it with a body -/
def declareMethod? (g : TypeGraph) (t : TypeDef) (decl : MethodDecl) (body : Body) :
    Except ModelError (MethodId × TypeGraph × TypeDef) :=
  if decl.declaring = t.id then
    let (id, g) := g.addMethod decl
    .ok (id, g, { t with methods := t.methods ++ [{ id, body := some body }] })
  else .error (.foreignMember (g.methodLabel decl))

/-- the first definition of a method -/
def method? (t : TypeDef) (m : MethodId) : Option MethodDef :=
  t.methods.find? fun definition => definition.id == m

/-- the first definition of a field -/
def field? (t : TypeDef) (f : FieldId) : Option FieldDef :=
  t.fields.find? fun definition => definition.id == f

/-- the first method defined under a name -/
def methodNamed? (g : TypeGraph) (t : TypeDef) (name : String) : Option MethodDef :=
  t.methods.find? fun definition => (g.method definition.id).name.text == name

/-- changes the first definition of a method -/
def updateMethod (t : TypeDef) (m : MethodId) (change : MethodDef → MethodDef) : TypeDef :=
  match t.methods.findIdx? fun definition => definition.id == m with
  | some i => { t with methods := t.methods.modify i change }
  | none => t

end TypeDef

/-- reference from a module to another assembly -/
structure AssemblyReference where
  name : String
  version : String
  deriving DecidableEq, Repr

/-- a compiled module -/
structure Module where
  name : String
  references : List AssemblyReference := []
  /-- markers on the assembly as a whole -/
  markers : List Marker := []
  /-- types in definition order, nested ones included -/
  types : List TypeDef := []
  deriving DecidableEq, Repr

namespace Module

/-- defines one more type -/
def addType (module : Module) (t : TypeDef) : Module :=
  { module with types := module.types ++ [t] }

/-- the first definition of a type -/
def definition? (module : Module) (t : TypeId) : Option TypeDef :=
  module.types.find? fun definition => definition.id == t

/-- changes the first definition of a type to the given one of the same type -/
def replace (module : Module) (t : TypeDef) : Module :=
  match module.types.findIdx? fun definition => definition.id == t.id with
  | some i => { module with types := module.types.set i t }
  | none => module

/-- the body in the definition of a method, if there is one -/
def body? (g : TypeGraph) (module : Module) (m : MethodId) : Option Body :=
  ((module.definition? (g.method m).declaring).bind fun t => t.method? m).bind MethodDef.body

/-- all method definitions, in order -/
def methods (module : Module) : List MethodDef :=
  module.types.flatMap TypeDef.methods

/-- all methods with a body, in order -/
def bodies (module : Module) : List (MethodId × Body) :=
  module.methods.filterMap fun m => m.body.map fun body => (m.id, body)

/-- is another assembly of this name referred to? -/
def hasReference (module : Module) (name : String) : Bool :=
  module.references.any fun reference => reference.name == name

end Module

end DisposalWeaver
