/-
What happens during a run, event by event.

A run answers a value or a trap and leaves a machine behind; what it did on the way cannot be read off that. Its trace
lists every call, every instruction that is executed and every change that the host makes on its own account, in order,
over all calls inside each other. Traces follow the executions that they belong to: each function here goes the way of
the function of the same shape in `Machine.Activation`, `Machine.Host` and `Machine.Program`, and asks that function for
the machine to go on with.

- `Routine.turnEvents`, `Routine.events`, `Routine.runEvents`: one turn, all turns, a body.
- `Host.events`: work of the host, with the calls that it asks for.
- `Program.trace`, `Program.history`: a call, and work that the host does from outside.
-/
import DisposalWeaver.Machine.Program

namespace DisposalWeaver

/-- something that happens during a run, with the machine that it happens on -/
inductive Event where
  /-- a method is called -/
  | call (m : MethodId) (arguments : List Value) (machine : Machine)
  /-- an instruction is executed; the machine has counted it -/
  | step (r : Routine) (a : Activation) (i : Instruction) (machine : Machine)
  /-- the host asks for a call -/
  | request (m : MethodId) (arguments : List Value) (machine : Machine)
  /-- the host makes a change -/
  | work (change : Change) (machine : Machine)

/-- the machine when the event happens -/
def Event.machine : Event → Machine
  | call _ _ machine => machine
  | step _ _ _ machine => machine
  | request _ _ machine => machine
  | work _ machine => machine

variable {α : Type}

namespace Host

/-- what happens during some work, given how to call a method and what happens then -/
def events (invoke : MethodId → List Value → Exec (Option Value)) (calls : MethodId → List Value → Machine → List Event) :
    Host α → Machine → List Event
  | done _, _ => []
  | fail _, _ => []
  | look next, machine => events invoke calls (next machine.exposed) machine
  | work change next, machine => .work change machine :: events invoke calls next (machine.apply change)
  | call m arguments next, machine =>
    .request m arguments machine :: calls m arguments machine ++
      match invoke m arguments machine with
      | .ok value machine => events invoke calls (next (.ok value)) machine
      | .error trap machine => events invoke calls (next (.error trap)) machine

end Host

namespace Routine

/-- what happens in one turn: nothing if the limit is reached or there is no instruction -/
def turnEvents (invoker : Invoker) (calls : MethodId → List Value → Machine → List Event) (r : Routine) (limit : Nat)
    (a : Activation) (machine : Machine) : List Event :=
  match tick limit machine, r.layout.fetch? a.position with
  | .ok _ machine, some i =>
    .step r a i machine ::
      match r.request invoker.graph i a.operands machine with
      | .ok (.call m arguments _) machine => calls m arguments machine
      | _ => []
  | _, _ => []

/-- what happens in the turns of an activation -/
def events (invoker : Invoker) (calls : MethodId → List Value → Machine → List Event) (r : Routine) (limit : Nat) :
    Nat → Activation → Machine → List Event
  | 0, _, _ => []
  | budget + 1, a, machine =>
    r.turnEvents invoker calls limit a machine ++
      match r.turn invoker limit a machine with
      | .ok (.resume a) machine => events invoker calls r limit budget a machine
      | _ => []

/-- what happens while a body runs in the innermost frame -/
def runEvents (invoker : Invoker) (calls : MethodId → List Value → Machine → List Event) (limit : Nat) (m : MethodId)
    (body : Body) (machine : Machine) : List Event :=
  match prepare invoker.graph m body machine with
  | .ok r machine => r.events invoker calls limit (limit - machine.steps + 1) {} machine
  | .error _ _ => []

end Routine

namespace Program

/-- what happens while a body runs in a frame of its own -/
def enterEvents (p : Program) (invoker : Invoker) (calls : MethodId → List Value → Machine → List Event) (m : MethodId)
    (body : Body) (arguments : List Value) (machine : Machine) : List Event :=
  if maxFrames ≤ machine.frames.size then []
  else Routine.runEvents invoker calls p.stepLimit m body (machine.push (p.frameFor body arguments))

/-- what happens during a call, with at most `nesting` calls inside each other -/
def trace (p : Program) : Nat → MethodId → List Value → Machine → List Event
  | 0, _, _, _ => []
  | nesting + 1, m, arguments, machine =>
    .call m arguments machine ::
      match p.native? m with
      | some native => (native p.toDeclarations arguments).events (p.invoke nesting) (p.trace nesting) machine
      | none =>
        match p.body? m with
        | some body => p.enterEvents (p.invoker (p.invoke nesting)) (p.trace nesting) m body arguments machine
        | none => []

/-- what happens while the host does some work from outside -/
def history (p : Program) (work : Host α) (machine : Machine) : List Event :=
  work.events (p.invoke maxNesting) (p.trace maxNesting) machine

end Program

end DisposalWeaver
