/-
How types and members are written out.

- `typeText`: a type by its full name, with arguments in angle brackets (`Samples.Box<System.Int32>`).
- `methodText`, `fieldText`: an operand as a listing shows it, with return type, declaring type and parameter types.
- `methodLabel`, `fieldLabel`, `fieldPath`: short labels of declarations for messages.
-/
import DisposalWeaver.TypeGraph.Basic

namespace DisposalWeaver.TypeGraph

/-- full name of a declared type -/
def nameOf (g : TypeGraph) (t : TypeId) : String :=
  (g.type t).name.text

mutual

/-- the type by its full name; a type parameter by its own name, a method parameter by number -/
def typeText (g : TypeGraph) : TypeRef → String
  | .named d => g.nameOf d
  | .applied d arguments => g.nameOf d ++ "<" ++ ",".intercalate (typeTexts g arguments) ++ ">"
  | .typeParameter owner index => g.shortName [] (.typeParameter owner index)
  | .methodParameter index => s!"!!{index.toNat}"
  | .array element => typeText g element ++ "[]"
  | .byRef element => typeText g element ++ "&"

/-- `typeText` of each member of a list -/
def typeTexts (g : TypeGraph) : List TypeRef → List String
  | [] => []
  | r :: rest => typeText g r :: typeTexts g rest

end

/-- a method operand: return type, declaring type, name, generic arguments and parameter types -/
def methodText (g : TypeGraph) (r : MethodRef) : String :=
  let m := g.method r.method
  let returns := match m.returns with
    | some type => g.typeText type
    | none => "void"
  let arguments := match r.arguments with
    | [] => ""
    | arguments => "<" ++ ",".intercalate (g.typeTexts arguments) ++ ">"
  let parameters := ",".intercalate (m.parameters.map fun parameter => g.typeText parameter.type)
  s!"{returns} {g.typeText r.declaring}::{m.name.text}{arguments}({parameters})"

/-- a field operand: type of the field, declaring type and name -/
def fieldText (g : TypeGraph) (r : FieldRef) : String :=
  let f := g.field r.field
  s!"{g.typeText f.type} {g.typeText r.declaring}::{f.name.text}"

/-- parameter types after a method's name; none leave no trace, and a single one is followed by a comma -/
def parameterList (g : TypeGraph) : List Parameter → String
  | [] => ""
  | [only] => s!"({g.typeText only.type},)"
  | parameters => "(" ++ ", ".intercalate (parameters.map fun parameter => g.typeText parameter.type) ++ ")"

/-- label of a method declaration -/
def methodLabel (g : TypeGraph) (m : MethodDecl) : String :=
  s!"{g.nameOf m.declaring}::{m.name.text}{g.parameterList m.parameters}"

/-- label of a field declaration -/
def fieldLabel (g : TypeGraph) (f : FieldDecl) : String :=
  s!"{g.nameOf f.declaring}::{f.name.text}:{g.typeText f.type}"

/-- declaring type and name of a field, joined by a dot -/
def fieldPath (g : TypeGraph) (f : FieldDecl) : String :=
  s!"{g.nameOf f.declaring}.{f.name.text}"

end DisposalWeaver.TypeGraph
