/-
The code that weaving generates, piece by piece.

Pieces are appended to a body under construction. A piece that jumps forward names its target by its distance from the
first instruction of the piece. The pieces are

- `escapeCheck`: swap 1 into the signaling field, and return unless it held 0;
- `referenceDisposal`, `constrainedDisposal`: swap null into a field, and dispose of what it held, if anything;
- `setDisposed`: store 1 to the disposed field;
- `guard`: throw if the disposed field is not 0;
- `entryThroughRoutine`, `finalizer`: the two ways into the shared routine.
-/
import DisposalWeaver.Body.Basic
import DisposalWeaver.Weaving.References

namespace DisposalWeaver

/-- handle of the instruction created `distance` instructions later -/
def Handle.after (handle : Handle) (distance : Nat) : Handle :=
  ⟨handle.number + distance⟩

/-- fields and method that weaving adds to every type -/
structure WovenState where
  /-- integer field that the first one into disposal sets to 1 -/
  signaled : FieldId
  /-- boolean field that is set when disposal is over -/
  disposed : FieldId
  /-- method that throws if the disposed field is set -/
  guard : MethodId
  deriving DecidableEq, Repr

namespace Emission

/-- swaps 1 into the signaling field; whoever finds a 1 there returns at once -/
def escapeCheck (g : TypeGraph) (references : References) (signaled : FieldId) (body : Body) : Body :=
  body.append [
    .ldarg 0,
    .ldflda (.onSelf g signaled),
    .ldc 1,
    .call (.direct g references.exchangeInt32),
    .brfalse (body.nextHandle.after 6),
    .ret,
    .nop]

/-- sets the disposed field -/
def setDisposed (g : TypeGraph) (disposed : FieldId) (body : Body) : Body :=
  body.append [.ldarg 0, .ldc 1, .stfld (.onSelf g disposed)]

/-- calls a method of the type on the instance at hand -/
def callOnThis (g : TypeGraph) (m : MethodId) (body : Body) : Body :=
  body.append [.ldarg 0, .callTo g (.onSelf g m)]

/-- disposes of a field that holds a reference: the old value waits on the stack while it is tested -/
def referenceDisposal (g : TypeGraph) (references : References) (f : FieldId) (exchange : MethodRef) (body : Body) :
    Body :=
  body.append [
    .ldarg 0,
    .ldflda (.onSelf g f),
    .ldnull,
    .call exchange,
    .dup,
    .brtrue (body.nextHandle.after 8),
    .pop,
    .br (body.nextHandle.after 9),
    .callvirt (.direct g references.dispose),
    .nop]

/-- disposes of a field whose type is a generic parameter: the old value waits in a local, so that the disposal can be
called on whatever the parameter ends up being -/
def constrainedDisposal (g : TypeGraph) (references : References) (f : FieldId) (exchange : MethodRef) (body : Body) :
    Body :=
  let type := (g.field f).type
  let (slot, body) := body.addLocal type
  body.append [
    .ldarg 0,
    .ldflda (.onSelf g f),
    .ldnull,
    .call exchange,
    .stloc slot,
    .ldloc slot,
    .box type,
    .brfalse (body.nextHandle.after 11),
    .ldloca slot,
    .constrained type,
    .callvirt (.direct g references.dispose),
    .nop]

/-- disposes of a field; the exchange is applied to the field's own type -/
def fieldDisposal (g : TypeGraph) (references : References) (f : FieldId) (body : Body) : Except ModelError Body := do
  let type := (g.field f).type
  let exchange ← (MethodRef.direct g references.exchangeReference).applied? g [type]
  return if type.isGenericParameter then constrainedDisposal g references f exchange body
    else referenceDisposal g references f exchange body

/-- body of the guard: throws with the simple name of the type, if the disposed field is set -/
def guard (g : TypeGraph) (references : References) (t : TypeId) (disposed : FieldId) : Body :=
  Body.empty.append [
    .ldarg 0,
    .ldfld (.onSelf g disposed),
    .brfalse ⟨6⟩,
    .ldstr (g.type t).name.simple,
    .newobj (.direct g references.disposedConstructor),
    .throw,
    .ret]

/-- body of an entry point that only calls the managed hook -/
def managedEntry (g : TypeGraph) (references : References) (state : WovenState) (managed : MethodId) : Body :=
  (setDisposed g state.disposed
    (callOnThis g managed (escapeCheck g references state.signaled Body.empty))).append [.ret]

/-- calls the managed hook, unless the routine was called by the finalizer -/
def managedUnlessFinalizing (g : TypeGraph) (managed : MethodId) (body : Body) : Body :=
  (callOnThis g managed (body.append [.ldarg 1, .brfalse (body.nextHandle.after 4)])).append [.nop]

/-- body of the routine that both ways of disposal share; its argument tells whether disposal is explicit -/
def routine (g : TypeGraph) (references : References) (state : WovenState) (managed : Option MethodId)
    (unmanaged : MethodId) : Body :=
  let start := escapeCheck g references state.signaled Body.empty
  let body := match managed with
    | some managed => managedUnlessFinalizing g managed start
    | none => start
  (setDisposed g state.disposed (callOnThis g unmanaged body)).append [.ret]

/-- body of an entry point that calls the shared routine and makes the finalizer unnecessary -/
def entryThroughRoutine (g : TypeGraph) (references : References) (routine : MethodId) : Body :=
  Body.empty.append [
    .ldarg 0,
    .ldc 1,
    .call (.onSelf g routine),
    .ldarg 0,
    .call (.direct g references.suppressFinalize),
    .ret]

/-- body of the finalizer: it calls the shared routine, and the root's finalizer whatever happens there -/
def finalizer (g : TypeGraph) (references : References) (routine : MethodId) : Body :=
  let body := Body.empty.append [
    .ldarg 0,
    .ldc 0,
    .call (.onSelf g routine),
    .leave ⟨7⟩,
    .ldarg 0,
    .call (.direct g references.objectFinalize),
    .endfinally,
    .ret]
  body.addHandler { kind := .finally, tryStart := ⟨0⟩, tryEnd := ⟨4⟩, handlerStart := ⟨4⟩, handlerEnd := ⟨7⟩ }

/-- a body with the call of the guard in front; if the body has sequence points, the call gets a hidden one, so that
debuggers step through to the first visible line -/
def guarded (guard : MethodRef) (body : Body) : Body :=
  let (handles, inserted) := body.insertAtStart [.ldarg 0, .call guard]
  match body.points.head?, handles.head? with
  | some point, some first => { inserted with points := .hidden first point.document :: body.points }
  | _, _ => inserted

end Emission

end DisposalWeaver
