/-
What the weaver is told: the names it looks for and gives, the markers that opt out, and two choices.
-/
import DisposalWeaver.Name

namespace DisposalWeaver

/-- settings of a weaving session; the defaults are the names of the disposal contract -/
structure Settings where
  /-- names of the disposal entry point: plain, and as an explicit interface implementation -/
  entryNames : List MemberName := [⟨"Dispose"⟩, ⟨"System.IDisposable.Dispose"⟩]
  /-- hook that releases managed state: other disposable objects -/
  managedHook : MemberName := ⟨"DisposeManaged"⟩
  /-- hook that releases unmanaged state: native handles -/
  unmanagedHook : MemberName := ⟨"DisposeUnmanaged"⟩
  /-- integer field that is exchanged on the way into disposal -/
  signaledField : MemberName := ⟨"disposeSignaled"⟩
  /-- boolean field that the guard reads -/
  disposedField : MemberName := ⟨"disposed"⟩
  /-- method that throws on a disposed instance -/
  guardMethod : MemberName := ⟨"ThrowIfDisposed"⟩
  /-- parameter of the routine that both ways of disposal share -/
  disposingParameter : MemberName := ⟨"disposing"⟩
  /-- methods that never get a guard -/
  exemptNames : List MemberName := [⟨"IsDisposed"⟩, ⟨"get_IsDisposed"⟩]
  /-- marker that excludes a type or a field -/
  skipMarker : QualifiedName := ⟨"Janitor.SkipWeaving"⟩
  /-- marker on the assembly that excludes a namespace -/
  skipNamespaceMarker : QualifiedName := ⟨"Janitor.SkipWeavingNamespace"⟩
  /-- assembly that declares the markers -/
  markerAssembly : String := "Janitor"
  /-- namespaces to skip besides those that markers name -/
  skippedNamespaces : List String := []
  /-- guard private methods too; without it private helpers stay callable after disposal -/
  guardPrivate : Bool := true
  /-- weave abstract classes too -/
  weaveAbstract : Bool := false
  deriving DecidableEq, Repr, Inhabited

namespace Settings

/-- skips one more namespace; the global one is written as the empty text -/
def skipNamespace? (settings : Settings) (space : String) : Except NameError Settings :=
  let skipped := { settings with skippedNamespaces := settings.skippedNamespaces ++ [space] }
  if space.isEmpty then .ok skipped
  else (QualifiedName.check space).map fun _ => skipped

end Settings

end DisposalWeaver
