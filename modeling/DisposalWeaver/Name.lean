/-
Names of types and members.

A qualified name is written `Namespace.Name`, and a nested type follows its enclosing type after a slash
(`Outer.Space.Parent/Child`). A member name may hold dots, because an explicit interface implementation is named after
its interface (`System.IDisposable.Dispose`).

- `MemberName.ofString?`, `QualifiedName.ofString?`: the texts that are names, and why any other text is not.
- `QualifiedName.space`, `QualifiedName.simple`: the namespace and the simple name of a type.
- `QualifiedName.nested`: the name of a type inside another one.
-/
namespace DisposalWeaver

/-! ## Cutting text -/

namespace Cut

/-- the parts of a text between its separators; `n` separators give `n + 1` parts, possibly empty -/
def parts (isSeparator : Char → Bool) : List Char → List (List Char)
  | [] => [[]]
  | c :: rest =>
    if isSeparator c then [] :: parts isSeparator rest
    else match parts isSeparator rest with
      | [] => [[c]]
      | part :: more => (c :: part) :: more

/-- everything before the first `mark`, or the whole text -/
def beforeFirst (mark : Char) (text : List Char) : List Char :=
  text.takeWhile (· != mark)

/-- everything before the last `mark`, or nothing -/
def beforeLast (mark : Char) (text : List Char) : List Char :=
  ((text.reverse.dropWhile (· != mark)).drop 1).reverse

/-- everything after the last `mark`, or the whole text -/
def afterLast (mark : Char) (text : List Char) : List Char :=
  (text.reverse.takeWhile (· != mark)).reverse

end Cut

/-- does the text begin with the given one? -/
def beginsWith (text start : String) : Bool :=
  start.toList.isPrefixOf text.toList

/-! ## Which texts are names -/

/-- why a text is refused as a name -/
inductive NameError where
  | emptyMember
  | illegalMember (text : String)
  | emptyQualified
  | emptySegment (text : String)
  | illegalQualified (text : String)
  deriving DecidableEq, Repr

/-- the sentence that reports a refused name -/
def NameError.message : NameError → String
  | .emptyMember => "Member name is empty"
  | .illegalMember text => s!"Member name '{text}' contains an illegal character"
  | .emptyQualified => "Qualified name is empty"
  | .emptySegment text => s!"Qualified name '{text}' has an empty segment"
  | .illegalQualified text => s!"Qualified name '{text}' contains an illegal character"

/-- name of a method, a field, a parameter or a generic parameter -/
structure MemberName where
  text : String
  deriving DecidableEq, Repr, Inhabited

/-- fully qualified name of a type -/
structure QualifiedName where
  text : String
  deriving DecidableEq, Repr, Inhabited

namespace MemberName

/-- characters that separate or decorate type names, so no member name holds one -/
def isIllegal (c : Char) : Bool :=
  c == '/' || c == ';' || c == '&' || c == '['

/-- the first reason why a text is no member name, if there is one -/
def check (text : String) : Except NameError Unit :=
  if text.toList.isEmpty then .error .emptyMember
  else if text.toList.any isIllegal then .error (.illegalMember text)
  else .ok ()

/-- reads a member name -/
def ofString? (text : String) : Except NameError MemberName :=
  (check text).map fun _ => ⟨text⟩

/-- does the name begin with the given text? -/
def startsWith (name : MemberName) (start : String) : Bool :=
  beginsWith name.text start

/-! Names with a meaning of their own. -/

def constructor : MemberName := ⟨".ctor"⟩
def typeConstructor : MemberName := ⟨".cctor"⟩
def dispose : MemberName := ⟨"Dispose"⟩
def exchange : MemberName := ⟨"Exchange"⟩
def finalize : MemberName := ⟨"Finalize"⟩
def suppressFinalize : MemberName := ⟨"SuppressFinalize"⟩
def getMessage : MemberName := ⟨"get_Message"⟩

end MemberName

namespace QualifiedName

/-- segments of a qualified name end at a dot or a slash -/
def isSeparator (c : Char) : Bool :=
  c == '.' || c == '/'

/-- characters that decorate type names in signatures, so no segment holds one -/
def isIllegal (c : Char) : Bool :=
  c == ';' || c == '&' || c == '[' || c == ']'

/-- looks at the segments of `text` in order; the first one that is empty or holds an illegal character decides -/
def checkSegments (text : String) : List (List Char) → Except NameError Unit
  | [] => .ok ()
  | segment :: rest =>
    if segment.isEmpty then .error (.emptySegment text)
    else if segment.any isIllegal then .error (.illegalQualified text)
    else checkSegments text rest

/-- the first reason why a text is no qualified name, if there is one -/
def check (text : String) : Except NameError Unit :=
  if text.toList.isEmpty then .error .emptyQualified
  else checkSegments text (Cut.parts isSeparator text.toList)

/-- reads a qualified name -/
def ofString? (text : String) : Except NameError QualifiedName :=
  (check text).map fun _ => ⟨text⟩

/-- namespace of the type; a nested type has the namespace of its outermost enclosing type -/
def space (name : QualifiedName) : String :=
  String.ofList (Cut.beforeLast '.' (Cut.beforeFirst '/' name.text.toList))

/-- simple name of the type: without namespace and without enclosing types -/
def simple (name : QualifiedName) : String :=
  let text := name.text.toList
  String.ofList (if text.contains '/' then Cut.afterLast '/' text else Cut.afterLast '.' text)

/-- does the name begin with the given text? -/
def startsWith (name : QualifiedName) (start : String) : Bool :=
  beginsWith name.text start

/-- name of a type nested inside this one -/
def nested (name : QualifiedName) (inner : String) : QualifiedName :=
  ⟨name.text ++ "/" ++ inner⟩

/-! Platform types that the weaver and the machine know by name. -/

def attributeBase : QualifiedName := ⟨"System.Attribute"⟩
def boolean : QualifiedName := ⟨"System.Boolean"⟩
def compilerGenerated : QualifiedName := ⟨"System.Runtime.CompilerServices.CompilerGeneratedAttribute"⟩
def enumeration : QualifiedName := ⟨"System.Enum"⟩
def exception : QualifiedName := ⟨"System.Exception"⟩
def collector : QualifiedName := ⟨"System.GC"⟩
def generatedCode : QualifiedName := ⟨"System.CodeDom.Compiler.GeneratedCodeAttribute"⟩
def disposable : QualifiedName := ⟨"System.IDisposable"⟩
def int32 : QualifiedName := ⟨"System.Int32"⟩
def interlocked : QualifiedName := ⟨"System.Threading.Interlocked"⟩
def invalidOperationException : QualifiedName := ⟨"System.InvalidOperationException"⟩
def memoryStream : QualifiedName := ⟨"System.IO.MemoryStream"⟩
def notImplementedException : QualifiedName := ⟨"System.NotImplementedException"⟩
def object : QualifiedName := ⟨"System.Object"⟩
def objectDisposedException : QualifiedName := ⟨"System.ObjectDisposedException"⟩
def stream : QualifiedName := ⟨"System.IO.Stream"⟩
def string : QualifiedName := ⟨"System.String"⟩
def task : QualifiedName := ⟨"System.Threading.Tasks.Task"⟩
def taskOfResult : QualifiedName := ⟨"System.Threading.Tasks.Task`1"⟩
def taskCompletionSource : QualifiedName := ⟨"System.Threading.Tasks.TaskCompletionSource`1"⟩
def valueType : QualifiedName := ⟨"System.ValueType"⟩

end QualifiedName

end DisposalWeaver
