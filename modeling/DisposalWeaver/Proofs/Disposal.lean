/-
What disposal is to do.

The disposal of a woven type, told as work of the host and without any code: which values are exchanged, which methods
are called and what is stored, in order. The entry point, the routine behind it, the finalizer and the managed hook that
is made for the fields each have such work. `Program.Performs` says that a method of a program does the work that it is
meant to do, whatever the methods that it calls do.
-/
import DisposalWeaver.Proofs.ShiftedRuns
import DisposalWeaver.Proofs.WovenType

namespace DisposalWeaver

/-- stores a value in a place that has to be there -/
def Host.store (place : Address) (value : Value) : Host Unit := do
  Host.reach place
  Host.change (.store place value)

/-- calls a method and catches an exception -/
def Host.attempt (m : MethodId) (arguments : List Value) : Host (Except ObjectRef (Option Value)) :=
  .call m arguments fun
    | .ok value => pure (.ok value)
    | .error (.exception e) => pure (.error e)
    | .error trap => .fail trap

namespace Disposal

variable (g : TypeGraph) (references : References) (zero : Host Unit)

/-- calls a method of the object's own type on it -/
def hook (m : MethodId) (o : ObjectRef) : Host Unit :=
  discard (if (g.method m).isVirtual then Host.callVirtual g m [.object o] else Host.invoke m [.object o])

/-- the value waits in a local, if there is one for it -/
def keep (value : Value) : Option Address → Host Unit
  | some place => Host.store place value
  | none => pure ()

/-- disposes of a value, unless there is none; `zero` is what is done about the number 0, which is no reference -/
def release (value : Value) : Host Unit :=
  if value = .null then pure ()
  else if value = .int32 0 then zero
  else discard (Host.callVirtual g references.dispose [value])

/-- swaps a field with null and disposes of what it held -/
def field (o : ObjectRef) (f : FieldId) (kept : Option Address) : Host Unit := do
  let value ← Host.swap g (.field o f) .null
  keep value kept
  release g references zero value

/-- does the same for one field after another -/
def fields (o : ObjectRef) : List (FieldId × Option Address) → Host Unit
  | [] => pure ()
  | (f, kept) :: rest => do
    field g references zero o f kept
    fields o rest

/-- the first one to take the signal does the work, and says so at the end -/
def once (state : WovenState) (o : ObjectRef) (work : Host Unit) : Host Unit := do
  let signal ← Host.swap g (.field o state.signaled) (.int32 1)
  if signal.isTrue then pure ()
  else
    work
    Host.store (.field o state.disposed) (.int32 1)

/-- the fields in order, each with the local that its old value waits in: there is one where the type of the field is a
parameter, so that the disposal can be called on whatever the parameter ends up being -/
def places (depth : Nat) (fs : List FieldId) : List (FieldId × Option Address) :=
  (Emission.plan g 0 fs).map fun e => (e.1, e.2.map (Address.variable depth))

/-- the managed hook that is made for the fields -/
def derivedHook (fs : List FieldId) (o : ObjectRef) (depth : Nat) : Host Unit :=
  fields g references zero o (places g depth fs)

/-- calls the managed hook if there is one, and only where disposal is explicit -/
def managed (m? : Option MethodId) (o : ObjectRef) (disposing : Value) : Host Unit :=
  match m? with
  | some m => if disposing.isTrue then hook g m o else pure ()
  | none => pure ()

/-- the routine that the entry point and the finalizer share; it is told whether disposal is explicit -/
def routine (state : WovenState) (m? : Option MethodId) (unmanaged : MethodId) (o : ObjectRef) (disposing : Value) :
    Host Unit :=
  once g state o do
    managed g m? o disposing
    hook g unmanaged o

/-- the entry point; `depth` is that of its frame -/
def entry (state : WovenState) (fs : List FieldId) (o : ObjectRef) (depth : Nat) : Arrangement → Host Unit
  | .direct => once g state o (fields g references zero o (places g depth fs))
  | .managed m => once g state o (hook g m o)
  | .shared r _ _ _ => do
    discard (Host.invoke r [.object o, .int32 1])
    Host.mark o .suppressed

/-- the finalizer: the routine, and then the root's finalizer, also if an exception comes out of the routine -/
def finalizer (r : MethodId) (o : ObjectRef) : Host Unit := do
  let outcome ← Host.attempt r [.object o, .int32 0]
  discard (Host.invoke references.objectFinalize [.object o])
  match outcome with
  | .ok _ => pure ()
  | .error e => .fail (.exception e)

end Disposal

/-- the program has a body for the method, and unless the host provides the method itself, a call on these arguments does
the work in a frame with the locals of the body, and answers nothing: it ends as the work does, on the same machine but for
the count of instructions, if no limit is reached; `work` is told the depth of the frame -/
def Program.Performs (p : Program) (m : MethodId) (arguments : List Value) (work : Nat → Host Unit) : Prop :=
  ∃ body, p.body? m = some body ∧ ∀ nesting M, p.native? m = none → M.frames.size < Program.maxFrames →
    ((p.invoke (nesting + 2) m arguments).final M).steps ≤ p.stepLimit →
    SameEnd (p.invoke (nesting + 2) m arguments M)
      (Exec.withFrame (p.frameFor body arguments)
        (do (work M.frames.size).run (p.invoke (nesting + 1)); return none) M)

end DisposalWeaver
