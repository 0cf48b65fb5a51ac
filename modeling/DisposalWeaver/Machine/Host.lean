/-
Work of the host: what a method provided by the host does, and what the host asks of a program from outside.

A `Host` goes on step by step. It looks at what the machine exposes, makes changes on its own account, and has methods
called; a call answers it a value or the trap that it ended in, and it may go on after either. So which calls are made, in
which order and with what in between can be read off, which a plain function of the machine would hide.

- `Host.run`: the execution, given how to call a method.
- `callVirtual`, `construct`, `collect`: the requests that a host has besides a plain call.
-/
import DisposalWeaver.Machine.State

namespace DisposalWeaver

/-- work that ends with an answer or a trap -/
inductive Host (α : Type) where
  | done (value : α)
  | fail (trap : Trap)
  /-- looks at what the machine exposes -/
  | look (next : Machine → Host α)
  /-- makes a change -/
  | work (change : Change) (next : Host α)
  /-- has exactly the given method called; a receiver is the first argument -/
  | call (m : MethodId) (arguments : List Value) (next : Except Trap (Option Value) → Host α)

/-- what code and host refer to -/
structure Declarations where
  graph : TypeGraph
  /-- the root's finalizer, which a collection calls virtually -/
  rootFinalizer : MethodId

namespace Host

/-- one work after another -/
def bind : Host α → (α → Host β) → Host β
  | done value, f => f value
  | fail trap, _ => fail trap
  | look next, f => look fun machine => (next machine).bind f
  | work change next, f => work change (next.bind f)
  | call m arguments next, f => call m arguments fun outcome => (next outcome).bind f

instance : Monad Host where
  pure := done
  bind := bind

/-- goes on with an answer or stops with a trap -/
def ofExcept : Except Trap α → Host α
  | .ok value => done value
  | .error trap => fail trap

instance : MonadLift (Except Trap) Host := ⟨ofExcept⟩

/-- the execution of some work, given how to call a method -/
def run (invoke : MethodId → List Value → Exec (Option Value)) : Host α → Exec α
  | done value => pure value
  | fail trap => throw trap
  | look next => fun machine => run invoke (next machine.exposed) machine
  | work change next => fun machine => run invoke next (machine.apply change)
  | call m arguments next => fun machine =>
    match invoke m arguments machine with
    | .ok value machine => run invoke (next (.ok value)) machine
    | .error trap machine => run invoke (next (.error trap)) machine

/-! ## On its own account -/

/-- what a question to the machine answers -/
def ask (question : Machine → Except Trap α) : Host α :=
  look fun machine => ofExcept (question machine)

/-- makes a change and does no more -/
def change (c : Change) : Host Unit :=
  work c (done ())

/-- an object that has to exist -/
def object (o : ObjectRef) : Host Object :=
  ask fun machine =>
    match machine.object? o with
    | some found => .ok found
    | none => .error (.invalidReference (.object o))

/-- makes a note about an object that has to exist -/
def mark (o : ObjectRef) (mark : Mark) : Host Unit := do
  let _ ← object o
  change (.mark o mark)

/-- checks that a place is there -/
def reach (place : Address) : Host Unit :=
  ask fun machine =>
    match machine.missing? place with
    | some missing => .error (.invalidReference missing)
    | none => .ok ()

/-- puts a value in a place and answers what was there -/
def swap (g : TypeGraph) (place : Address) (value : Value) : Host Value := do
  reach place
  let previous ← ask fun machine => .ok (machine.content g place)
  change (.store place value)
  return previous

/-! ## Calls -/

/-- calls exactly the given method, and ends as the call ends -/
def invoke (m : MethodId) (arguments : List Value) : Host (Option Value) :=
  call m arguments ofExcept

/-- calls the method that answers for the type of the first argument -/
def callVirtual (g : TypeGraph) (m : MethodId) (arguments : List Value) : Host (Option Value) := do
  invoke (← ask fun machine => machine.implementation g m arguments) arguments

/-- allocates an object of the constructor's type and runs the constructor on it -/
def construct (g : TypeGraph) (m : MethodId) (arguments : List Value) : Host ObjectRef := do
  let o ← ask fun machine => .ok machine.nextObject
  change (.allocate (g.method m).declaring)
  let _ ← invoke m (.object o :: arguments)
  return o

/-- collects an object: runs its finalizer unless that is suppressed or was done; answers whether it ran -/
def collect (declarations : Declarations) (o : ObjectRef) : Host Bool := do
  let found ← object o
  if found.finalizeSuppressed || found.finalized then return false
  mark o .finalized
  let _ ← callVirtual declarations.graph declarations.rootFinalizer [.object o]
  return true

end Host

end DisposalWeaver
