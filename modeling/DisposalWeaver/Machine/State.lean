/-
State of the machine, and the ways in which execution stops abnormally.

Objects are never freed: collecting one only runs its finalizer, at most once. `Exec` is an execution: it answers a
value or a trap, and either way leaves a machine behind, because what was stored before a trap stays stored.

- `Trap`: why execution stops; only `Trap.exception` can be caught by a handler.
- `Machine`: heap, static fields, frames of the active calls, and the count of executed instructions.
- `Machine.missing?`, `Machine.content`: whether a place is there, and what it holds.
- `Change`, `Machine.apply`: the ways in which code and host change more than frames.
- `Machine.exposed`: what the host sees.
- `Exec.load`, `Exec.store`: reading and writing through a managed pointer.
-/
import DisposalWeaver.Body.Instruction
import DisposalWeaver.Machine.Value
import DisposalWeaver.Machine.Dispatch

namespace DisposalWeaver

/-! ## Traps -/

/-- kind of value that an operation needs -/
inductive Expectation where
  | int32
  | object
  | pointer
  deriving DecidableEq, Repr

def Expectation.text : Expectation → String
  | .int32 => "int32"
  | .object => "object reference"
  | .pointer => "managed pointer"

/-- something that was named and does not exist -/
inductive Missing where
  | object (object : ObjectRef)
  | address (address : Address)
  /-- argument of the active call -/
  | argument (index : UInt16)
  /-- argument that a method provided by the host needs -/
  | hostArgument (index : Nat)
  /-- jump target or boundary of a region -/
  | target (handle : Handle)
  | frame (depth : Nat)
  deriving DecidableEq, Repr

def Missing.text (g : TypeGraph) : Missing → String
  | .object o => o.text
  | .address place => place.text g
  | .argument index => s!"arg {index.toNat}"
  | .hostArgument index => s!"argument {index}"
  | .target handle => handle.text
  | .frame depth => s!"frame {depth}"

/-- why execution stops abnormally -/
inductive Trap where
  /-- an exception that no handler caught -/
  | exception (object : ObjectRef)
  | nullReference
  | stackUnderflow
  /-- the method has neither a body nor an implementation by the host -/
  | missingBody (method : MethodId)
  | typeMismatch (expected : Expectation) (found : Value)
  | invalidReference (missing : Missing)
  /-- `endfinally` outside of any handler that is being run -/
  | unexpectedEndFinally
  /-- execution ran past the last instruction -/
  | fellOffEnd (method : MethodId)
  | stackOverflow
  | stepLimit
  deriving DecidableEq, Repr

/-! ## State -/

/-- an object on the heap -/
structure Object where
  /-- the most derived type -/
  type : TypeId
  /-- instance fields that were ever stored to -/
  fields : Cells := {}
  finalizeSuppressed : Bool := false
  /-- has a collection run the finalizer? -/
  finalized : Bool := false
  /-- how often a platform type's own disposal ran on the object -/
  disposeCount : Nat := 0
  /-- message of an exception -/
  message : Option String := none
  deriving DecidableEq, Repr, Inhabited

/-- arguments and locals of an active call -/
structure Frame where
  arguments : List Value
  locals : Array Value
  deriving DecidableEq, Repr, Inhabited

/-- the machine between two instructions -/
structure Machine where
  heap : Array Object := #[]
  statics : Cells := {}
  /-- active calls, outermost first -/
  frames : Array Frame := #[]
  /-- instructions executed so far, over all calls -/
  steps : Nat := 0
  /-- what host implementations have recorded, latest first -/
  events : List (List Value) := []
  deriving DecidableEq, Repr, Inhabited

/-- a note that the host makes about an object -/
inductive Mark where
  | suppressed
  | finalized
  /-- one more run of a platform type's own disposal -/
  | disposed
  | message (text : String)
  deriving DecidableEq, Repr

/-- a change of what outlives a call, or of a local variable -/
inductive Change where
  /-- a value is stored in a place that is there -/
  | store (place : Address) (value : Value)
  | allocate (type : TypeId)
  | mark (object : ObjectRef) (mark : Mark)
  | record (values : List Value)
  deriving DecidableEq, Repr

/-- the object with a note made -/
def Object.note (object : Object) : Mark → Object
  | .suppressed => { object with finalizeSuppressed := true }
  | .finalized => { object with finalized := true }
  | .disposed => { object with disposeCount := object.disposeCount + 1 }
  | .message text => { object with message := some text }

/-- the content of an instance field, or what it holds before any store -/
def Object.fieldOf (g : TypeGraph) (object : Object) (f : FieldId) : Value :=
  (object.fields.get? f).getD (Value.defaultFor g (g.field f).type)

namespace Machine

/-- machine before anything was executed -/
def initial : Machine := {}

def object? (machine : Machine) (o : ObjectRef) : Option Object :=
  machine.heap[o.index]?

/-- is there such an object, and does its type stand for the given one? -/
def isInstance (machine : Machine) (g : TypeGraph) (o : ObjectRef) (t : TypeId) : Bool :=
  match machine.object? o with
  | some object => g.isSubtype object.type t
  | none => false

/-- message of an exception object, if it has one -/
def messageOf (machine : Machine) (o : ObjectRef) : Option String :=
  (machine.object? o).bind Object.message

/-- a local variable of an active call -/
def localAt? (machine : Machine) (depth : Nat) (index : UInt16) : Option Value :=
  machine.frames[depth]?.bind fun frame => frame.locals[index.toNat]?

/-- what keeps a place from being there, if it is not -/
def missing? (machine : Machine) : Address → Option Missing
  | .field o _ => if (machine.object? o).isSome then none else some (.object o)
  | .static _ => none
  | .variable depth index =>
    if (machine.localAt? depth index).isSome then none else some (.address (.variable depth index))

/-- content of a place that is there -/
def content (g : TypeGraph) (machine : Machine) : Address → Value
  | .field o f => (machine.object? o).elim .null fun object => object.fieldOf g f
  | .static f => (machine.statics.get? f).getD (Value.defaultFor g (g.field f).type)
  | .variable depth index => (machine.localAt? depth index).getD .null

/-- the object that is allocated next -/
def nextObject (machine : Machine) : ObjectRef := ⟨machine.heap.size⟩

/-- the machine with a value stored in a place that is there -/
def write (machine : Machine) (value : Value) : Address → Machine
  | .field o f => { machine with
      heap := machine.heap.modify o.index fun object => { object with fields := object.fields.set f value } }
  | .static f => { machine with statics := machine.statics.set f value }
  | .variable depth index => { machine with
      frames := machine.frames.modify depth fun frame =>
        { frame with locals := frame.locals.setIfInBounds index.toNat value } }

/-- the machine after a change -/
def apply (machine : Machine) : Change → Machine
  | .store place value => machine.write value place
  | .allocate type => { machine with heap := machine.heap.push { type } }
  | .mark o mark => { machine with heap := machine.heap.modify o.index fun object => object.note mark }
  | .record values => { machine with events := values :: machine.events }

/-- the machine with one more active call -/
def push (machine : Machine) (frame : Frame) : Machine :=
  { machine with frames := machine.frames.push frame }

/-- the machine without the innermost call -/
def pop (machine : Machine) : Machine :=
  { machine with frames := machine.frames.pop }

/-- what the host sees: everything but the arguments of active calls and the count of instructions -/
def exposed (machine : Machine) : Machine :=
  { machine with steps := 0, frames := machine.frames.map fun frame => { frame with arguments := [] } }

end Machine

/-! ## Kinds of values -/

namespace Value

def toInt32 : Value → Except Trap Int32
  | .int32 value => .ok value
  | other => .error (.typeMismatch .int32 other)

/-- the object behind a reference -/
def toObject : Value → Except Trap ObjectRef
  | .object o => .ok o
  | .null => .error .nullReference
  | other => .error (.typeMismatch .object other)

/-- the place behind a managed pointer -/
def toAddress : Value → Except Trap Address
  | .address place => .ok place
  | .null => .error .nullReference
  | other => .error (.typeMismatch .pointer other)

/-- the given argument of a method provided by the host -/
def argument (arguments : List Value) (index : Nat) : Except Trap Value :=
  match arguments[index]? with
  | some value => .ok value
  | none => .error (.invalidReference (.hostArgument index))

end Value

/-- the method that answers a virtual call on the first argument -/
def Machine.implementation (machine : Machine) (g : TypeGraph) (m : MethodId) (arguments : List Value) :
    Except Trap MethodId := do
  let receiver ← (← Value.argument arguments 0).toObject
  match machine.object? receiver with
  | some object => return g.implementation object.type m
  | none => throw (.invalidReference (.object receiver))

/-! ## Executions -/

/-- an execution that answers a value or a trap, and leaves a machine behind either way -/
abbrev Exec := EStateM Trap Machine

/-- goes on with an answer or stops with a trap -/
def Exec.ofExcept : Except Trap α → Exec α
  | .ok value => pure value
  | .error trap => throw trap

instance : MonadLift (Except Trap) Exec := ⟨Exec.ofExcept⟩

namespace Value

def asInt32 (value : Value) : Exec Int32 := value.toInt32
def asObject (value : Value) : Exec ObjectRef := value.toObject
def asAddress (value : Value) : Exec Address := value.toAddress

end Value

namespace Exec

/-- an object that has to exist -/
def object (o : ObjectRef) : Exec Object := do
  match (← get).object? o with
  | some found => pure found
  | none => throw (.invalidReference (.object o))

/-- makes a change -/
def change (c : Change) : Exec Unit :=
  modify fun machine => machine.apply c

/-- a fresh object of the given type -/
def allocate (t : TypeId) : Exec ObjectRef := do
  let o := (← get).nextObject
  change (.allocate t)
  return o

/-- content of an instance field -/
def field (g : TypeGraph) (o : ObjectRef) (f : FieldId) : Exec Value := do
  return (← object o).fieldOf g f

/-- checks that a place is there -/
def reach (place : Address) : Exec Unit := do
  if let some missing := (← get).missing? place then throw (.invalidReference missing)

/-- reads through a managed pointer -/
def load (g : TypeGraph) (place : Address) : Exec Value := do
  reach place
  return (← get).content g place

/-- writes through a managed pointer -/
def store (place : Address) (value : Value) : Exec Unit := do
  reach place
  change (.store place value)

/-- runs an execution with one more frame, which is gone afterwards however it ended -/
def withFrame (frame : Frame) (action : Exec α) : Exec α := fun machine =>
  match action (machine.push frame) with
  | .ok value machine => .ok value machine.pop
  | .error trap machine => .error trap machine.pop

/-- catches an exception; any other trap stays one -/
def attempt (action : Exec α) : Exec (Except ObjectRef α) := fun machine =>
  match action machine with
  | .ok value machine => .ok (.ok value) machine
  | .error (.exception o) machine => .ok (.error o) machine
  | .error trap machine => .error trap machine

end Exec

end DisposalWeaver
