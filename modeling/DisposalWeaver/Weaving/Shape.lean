/-
Shapes of disposal: what the entry point ends up doing, decided by the hooks that the type declares.
-/
import DisposalWeaver.Signature

namespace DisposalWeaver

inductive Shape where
  /-- no hooks: the entry point disposes of the fields itself -/
  | simple
  /-- the entry point calls the managed hook -/
  | managedOnly (managed : MethodId)
  /-- the entry point goes through a shared routine, and a finalizer is attached -/
  | unmanagedOnly (unmanaged : MethodId)
  /-- as before, and the managed hook is called on explicit disposal only -/
  | managedAndUnmanaged (managed unmanaged : MethodId)
  deriving DecidableEq, Repr

namespace Shape

/-- the shape for the hooks that there are -/
def ofHooks : Option MethodId → Option MethodId → Shape
  | none, none => simple
  | some managed, none => managedOnly managed
  | none, some unmanaged => unmanagedOnly unmanaged
  | some managed, some unmanaged => managedAndUnmanaged managed unmanaged

def text : Shape → String
  | simple => "simple"
  | managedOnly _ => "managed only"
  | unmanagedOnly _ => "unmanaged only"
  | managedAndUnmanaged _ _ => "managed and unmanaged"

def managed? : Shape → Option MethodId
  | managedOnly managed => some managed
  | managedAndUnmanaged managed _ => some managed
  | _ => none

def unmanaged? : Shape → Option MethodId
  | unmanagedOnly unmanaged => some unmanaged
  | managedAndUnmanaged _ unmanaged => some unmanaged
  | _ => none

/-- is there unmanaged state to release, and so a finalizer? -/
def hasFinalizer (shape : Shape) : Bool := shape.unmanaged?.isSome

end Shape

end DisposalWeaver
