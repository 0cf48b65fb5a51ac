/-
Members named from outside the graph.

A path names a field as `Type::name` and a method as `Type::name(A,B)`, with the short names of the parameter types. What
stands for the type is up to whoever resolves the path, so that part is only cut off here.
-/
import DisposalWeaver.TypeGraph.Basic

namespace DisposalWeaver

/-- a path, cut at the first `::` -/
structure MemberPath where
  type : String
  member : String
  deriving DecidableEq, Repr

namespace MemberPath

/-- the text before and after the first `::` -/
def cut : List Char → Option (List Char × List Char)
  | ':' :: ':' :: rest => some ([], rest)
  | [] => none
  | c :: rest => (cut rest).map fun (type, member) => (c :: type, member)

/-- reads a path -/
def ofString? (text : String) : Option MemberPath :=
  (cut text.toList).map fun (type, member) => { type := String.ofList type, member := String.ofList member }

/-- what is between the parentheses, given with the closing one; nothing there stands for no parameters -/
def parameterNames (text : List Char) : List String :=
  match text.dropLast with
  | [] => []
  | inner => (Cut.parts (· == ',') inner).map String.ofList

/-- name and parameter types of the method that the path names, if it has parentheses -/
def signature? (path : MemberPath) : Option (String × List String) :=
  let name := Cut.beforeFirst '(' path.member.toList
  match path.member.toList.drop name.length with
  | _ :: parameters => some (String.ofList name, parameterNames parameters)
  | [] => none

end MemberPath

namespace TypeGraph

/-- the method of a type that a path names -/
def methodAt? (g : TypeGraph) (t : TypeId) (path : MemberPath) : Option MethodId :=
  path.signature?.bind fun (name, parameters) => g.findMethod? t name parameters

/-- the field of a type that a path names -/
def fieldAt? (g : TypeGraph) (t : TypeId) (path : MemberPath) : Option FieldId :=
  g.findField? t path.member

end TypeGraph

end DisposalWeaver
