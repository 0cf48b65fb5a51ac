/-
The members that generated code calls.

They are found by name and signature once, before a session changes anything; without all of them nothing can be woven.
-/
import DisposalWeaver.Module

namespace DisposalWeaver

/-- a type or method that generated code needs and that is not declared -/
inductive MissingReference where
  | type (name : QualifiedName)
  | method (name : MemberName) (declaring : QualifiedName)
  deriving DecidableEq, Repr

def MissingReference.message : MissingReference → String
  | .type name => s!"Could not find type '{name.text}'"
  | .method name declaring => s!"Could not find '{name.text}' on '{declaring.simple}'"

/-- why a session is given up -/
inductive WeaveError where
  | model (cause : ModelError)
  | missingReference (missing : MissingReference)
  deriving DecidableEq, Repr

/-- what generated code refers to -/
structure References where
  /-- finalizer of the root, called at the end of an attached finalizer -/
  objectFinalize : MethodId
  suppressFinalize : MethodId
  /-- disposal through the interface -/
  dispose : MethodId
  exchangeInt32 : MethodId
  exchangeReference : MethodId
  /-- constructor of the exception that a guard throws -/
  disposedConstructor : MethodId
  object : TypeId
  disposable : TypeId
  int32 : TypeId
  boolean : TypeId
  deriving DecidableEq, Repr

namespace References

def findType? (g : TypeGraph) (name : QualifiedName) : Except MissingReference TypeId :=
  match g.lookup? name with
  | some t => .ok t
  | none => .error (.type name)

def findMethod? (g : TypeGraph) (t : TypeId) (name : MemberName) (parameters : List String) :
    Except MissingReference MethodId :=
  match g.findMethod? t name.text parameters with
  | some m => .ok m
  | none => .error (.method name (g.type t).name)

/-- finds all references; the first one that is missing is reported -/
def resolve? (g : TypeGraph) : Except MissingReference References := do
  let object ← findType? g QualifiedName.object
  let collector ← findType? g QualifiedName.collector
  let disposable ← findType? g QualifiedName.disposable
  let interlocked ← findType? g QualifiedName.interlocked
  let disposedException ← findType? g QualifiedName.objectDisposedException
  let objectFinalize ← findMethod? g object MemberName.finalize []
  let suppressFinalize ← findMethod? g collector MemberName.suppressFinalize ["Object"]
  let dispose ← findMethod? g disposable MemberName.dispose []
  let exchangeInt32 ← findMethod? g interlocked MemberName.exchange ["Int32&", "Int32"]
  let exchangeReference ← findMethod? g interlocked MemberName.exchange ["T&", "T"]
  let disposedConstructor ← findMethod? g disposedException MemberName.constructor ["String"]
  let int32 ← findType? g QualifiedName.int32
  let boolean ← findType? g QualifiedName.boolean
  return {
    objectFinalize, suppressFinalize, dispose, exchangeInt32, exchangeReference, disposedConstructor
    object, disposable, int32, boolean }

end References

end DisposalWeaver
