/-
A program: the bodies of a module together with the methods that the host provides.

A method that the host provides is a `Native`: given the declarations and its arguments, it is work of the host, which
may call back. It is looked for before any body.

A call of a body takes a frame, and at most `maxFrames` frames are active at a time. Calls between the host and the
program that take no frame are bounded by `maxNesting`, which is far above what frames alone can reach.
-/
import DisposalWeaver.Machine.Activation
import DisposalWeaver.Machine.Host
import DisposalWeaver.Module

namespace DisposalWeaver

/-- a method provided by the host -/
abbrev Native := Declarations → List Value → Host (Option Value)

/-- what the machine runs -/
structure Program extends Declarations where
  /-- bodies of methods, latest first -/
  bodies : List (MethodId × Body) := []
  /-- methods provided by the host, latest first -/
  natives : List (MethodId × Native) := []
  /-- instructions that all calls together may execute -/
  stepLimit : Nat := 1000000

namespace Program

/-- frames that can be active at a time -/
def maxFrames : Nat := 256

/-- calls that can be inside each other, with or without a frame -/
def maxNesting : Nat := 4 * maxFrames

/-- provides, or replaces, the implementation of a method -/
def provide (p : Program) (m : MethodId) (native : Native) : Program :=
  { p with natives := (m, native) :: p.natives }

/-- the implementation that the host provides for a method -/
def native? (p : Program) (m : MethodId) : Option Native :=
  p.natives.lookup m

/-- the body of a method; of several definitions the latest counts -/
def body? (p : Program) (m : MethodId) : Option Body :=
  p.bodies.lookup m

/-- a way to call methods of the program, given how to call a single one -/
def invoker (p : Program) (invoke : MethodId → List Value → Exec (Option Value)) : Invoker :=
  { graph := p.graph, invoke }

/-- the frame that a call of a body gets -/
def frameFor (p : Program) (body : Body) (arguments : List Value) : Frame :=
  { arguments, locals := body.locals.map (Value.defaultFor p.graph) }

/-- runs a body in a frame of its own -/
def enter (p : Program) (invoker : Invoker) (m : MethodId) (body : Body) (arguments : List Value) :
    Exec (Option Value) := do
  if maxFrames ≤ (← get).frames.size then throw .stackOverflow
  Exec.withFrame (p.frameFor body arguments) (Routine.run invoker p.stepLimit m body)

/-- calls exactly the given method, with at most `nesting` calls inside each other -/
def invoke (p : Program) : Nat → MethodId → List Value → Exec (Option Value)
  | 0, _, _ => throw .stackOverflow
  | nesting + 1, m, arguments =>
    match p.native? m with
    | some native => (native p.toDeclarations arguments).run (p.invoke nesting)
    | none =>
      match p.body? m with
      | some body => p.enter (p.invoker (p.invoke nesting)) m body arguments
      | none => throw (.missingBody m)

/-! ## Requests by the host -/

/-- does some work of the host from outside -/
def perform (p : Program) (work : Host α) : Exec α :=
  work.run (p.invoke maxNesting)

/-- calls exactly the given method; a receiver is the first argument -/
def call (p : Program) (m : MethodId) (arguments : List Value) : Exec (Option Value) :=
  p.invoke maxNesting m arguments

/-- calls the method that answers for the receiver's type -/
def callVirtual (p : Program) (m : MethodId) (arguments : List Value) : Exec (Option Value) :=
  p.perform (Host.callVirtual p.graph m arguments)

/-- allocates an object and runs a constructor on it -/
def construct (p : Program) (m : MethodId) (arguments : List Value) : Exec ObjectRef :=
  p.perform (Host.construct p.graph m arguments)

/-- collects an object; answers whether its finalizer ran -/
def collect (p : Program) (o : ObjectRef) : Exec Bool :=
  p.perform (Host.collect p.toDeclarations o)

end Program

end DisposalWeaver
