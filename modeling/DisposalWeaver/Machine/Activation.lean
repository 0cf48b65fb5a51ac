/-
One active call of a body: executing its instructions, and running its handlers on the way out of protected regions.

A `Routine` is a body laid out for running, with its regions resolved to positions. An `Activation` is how far a run of it
has come: position, evaluation stack, and the `finally` handlers that are being run, each with what it was run for. The
handlers are tried in the order of the region table: a `leave` runs the `finally` handlers of the regions it leaves, an
exception those of the regions that protect its origin, up to the first that catches it.

- `Routine.request`, `Routine.execute`: the effect of a single instruction, up to the call that it makes and with it.
- `Routine.leaveFrom`, `Routine.raiseFrom`: where control goes on a `leave` and on an exception.
- `Routine.turn`: one instruction of an activation, from fetching it to the position that follows.
- `Routine.run`: turns until the call returns or traps.
-/
import DisposalWeaver.Body.Layout
import DisposalWeaver.Machine.State

namespace DisposalWeaver

/-- what code needs to call methods: the declarations, and a way to call exactly the given method -/
structure Invoker where
  graph : TypeGraph
  /-- calls the method; a receiver is the first argument -/
  invoke : MethodId → List Value → Exec (Option Value)

/-! ## Routines -/

/-- protected region with its boundaries as positions -/
structure Region where
  kind : HandlerKind
  tryStart : Nat
  tryEnd : Nat
  handlerStart : Nat
  deriving DecidableEq, Repr

/-- does the region protect the position? -/
def Region.protects (region : Region) (position : Nat) : Bool :=
  decide (region.tryStart ≤ position) && decide (position < region.tryEnd)

/-- a body ready to be run -/
structure Routine where
  method : MethodId
  layout : Layout
  regions : List Region
  /-- depth of the frame that holds the arguments and locals -/
  depth : Nat
  /-- does a return take a value from the stack? -/
  returnsValue : Bool

/-- evaluation stack, top first, and whether a `constrained` prefix is in force -/
structure Operands where
  stack : List Value := []
  constrained : Bool := false
  deriving DecidableEq, Repr

/-- what a `finally` handler is being run for -/
inductive Purpose where
  /-- a jump out of protected regions -/
  | leave (origin target : Nat)
  /-- an exception on its way out -/
  | raise (origin : Nat) (exception : ObjectRef)
  deriving DecidableEq, Repr

/-- a `finally` handler that is being run, by the place of its region in the table -/
structure Pending where
  region : Nat
  purpose : Purpose
  deriving DecidableEq, Repr

/-- how far a run has come -/
structure Activation where
  position : Nat := 0
  operands : Operands := {}
  /-- handlers that are being run, latest first -/
  pending : List Pending := []
  deriving DecidableEq, Repr

/-- what to do after an instruction -/
inductive Flow where
  | next
  | jump (target : Handle)
  | leave (target : Handle)
  | endFinally
  | return (value : Option Value)
  deriving DecidableEq, Repr

/-- what an instruction comes to -/
inductive Request where
  /-- it is over, and control goes on as told -/
  | done (flow : Flow) (operands : Operands)
  /-- it has a method called, and control goes on with the next instruction once that has answered -/
  | call (m : MethodId) (arguments : List Value) (resume : Option Value → Operands)

/-- what one turn leads to -/
inductive Turn where
  | resume (activation : Activation)
  | finish (value : Option Value)
  deriving DecidableEq, Repr

namespace Operands

def push (operands : Operands) (value : Value) : Operands :=
  { operands with stack := value :: operands.stack }

/-- pushes what a call returned, if anything -/
def pushResult (operands : Operands) (result : Option Value) : Operands :=
  { operands with stack := result.toList ++ operands.stack }

/-- takes the top value -/
def pop (operands : Operands) : Exec (Value × Operands) :=
  match operands.stack with
  | value :: stack => pure (value, { operands with stack })
  | [] => throw .stackUnderflow

/-- takes the arguments of a call, in the order in which they were pushed -/
def popArguments (operands : Operands) (count : Nat) : Exec (List Value × Operands) :=
  let taken := operands.stack.take count
  if taken.length < count then throw .stackUnderflow
  else pure (taken.reverse, { operands with stack := operands.stack.drop count })

end Operands

namespace Routine

/-- position of a jump target, which has to be placed -/
def positionOf (layout : Layout) (handle : Handle) : Exec Nat :=
  match layout.position? handle with
  | some position => pure position
  | none => throw (.invalidReference (.target handle))

/-- a protected region with its boundaries resolved -/
def region (layout : Layout) (handler : Handler) : Exec Region := do
  let tryStart ← positionOf layout handler.tryStart
  let tryEnd ← positionOf layout handler.tryEnd
  let handlerStart ← positionOf layout handler.handlerStart
  return { kind := handler.kind, tryStart, tryEnd, handlerStart }

/-! ## Single instructions -/

/-- the argument of the active call -/
def argument (r : Routine) (index : UInt16) : Exec Value := do
  match (← get).frames[r.depth]? with
  | none => throw (.invalidReference (.frame r.depth))
  | some frame =>
    match frame.arguments[index.toNat]? with
    | some value => pure value
    | none => throw (.invalidReference (.argument index))

/-- replaces an argument of the active call -/
def setArgument (r : Routine) (index : UInt16) (value : Value) : Exec Unit := do
  let _ ← r.argument index
  modify fun machine => { machine with
    frames := machine.frames.modify r.depth fun frame =>
      { frame with arguments := frame.arguments.set index.toNat value } }

/-- the receiver under a `constrained` prefix is a pointer to the actual one -/
def readReceiver (g : TypeGraph) : List Value → Exec (List Value)
  | [] => pure []
  | receiver :: rest => do
    let receiver ← Exec.load g (← receiver.toAddress)
    return receiver :: rest

/-- the method that answers for the receiver, or the method itself if it is not virtual; a receiver has to be there -/
def target (g : TypeGraph) (m : MethodId) (arguments : List Value) : Exec MethodId := do
  if (g.method m).isVirtual then (← get).implementation g m arguments
  else do
    let _ ← (← Value.argument arguments 0).toObject
    return m

/-- the effect of an instruction on the operands, up to the call that it makes -/
def request (g : TypeGraph) (r : Routine) (instruction : Instruction) (operands : Operands) : Exec Request := do
  match instruction with
  | .nop => return .done .next operands
  | .ldarg index => return .done .next (operands.push (← r.argument index))
  | .starg index =>
    let (value, operands) ← operands.pop
    r.setArgument index value
    return .done .next operands
  | .ldloc index => return .done .next (operands.push (← Exec.load g (.variable r.depth index)))
  | .ldloca index => return .done .next (operands.push (.address (.variable r.depth index)))
  | .stloc index =>
    let (value, operands) ← operands.pop
    Exec.store (.variable r.depth index) value
    return .done .next operands
  | .ldnull => return .done .next (operands.push .null)
  | .ldc value => return .done .next (operands.push (.int32 value))
  | .ldstr value => return .done .next (operands.push (.string value))
  | .ldfld f =>
    let (receiver, operands) ← operands.pop
    return .done .next (operands.push (← Exec.field g (← receiver.toObject) f.field))
  | .ldflda f =>
    let (receiver, operands) ← operands.pop
    return .done .next (operands.push (.address (.field (← receiver.toObject) f.field)))
  | .stfld f =>
    let (value, operands) ← operands.pop
    let (receiver, operands) ← operands.pop
    Exec.store (.field (← receiver.toObject) f.field) value
    return .done .next operands
  | .ldsfld f => return .done .next (operands.push (← Exec.load g (.static f.field)))
  | .stsfld f =>
    let (value, operands) ← operands.pop
    Exec.store (.static f.field) value
    return .done .next operands
  | .dup =>
    let (value, operands) ← operands.pop
    return .done .next ((operands.push value).push value)
  | .pop =>
    let (_, operands) ← operands.pop
    return .done .next operands
  | .add =>
    let (right, operands) ← operands.pop
    let right ← right.toInt32
    let (left, operands) ← operands.pop
    let left ← left.toInt32
    return .done .next (operands.push (.int32 (left + right)))
  | .ceq =>
    let (right, operands) ← operands.pop
    let (left, operands) ← operands.pop
    return .done .next (operands.push (.ofBool (left == right)))
  | .call m =>
    let (arguments, operands) ← operands.popArguments (g.method m.method).argumentCount
    return .call m.method arguments operands.pushResult
  | .callvirt m =>
    let (arguments, operands) ← operands.popArguments (g.method m.method).argumentCount
    let arguments ← if operands.constrained then readReceiver g arguments else pure arguments
    return .call (← target g m.method arguments) arguments { operands with constrained := false }.pushResult
  | .constrained _ => return .done .next { operands with constrained := true }
  | .newobj m =>
    let (arguments, operands) ← operands.popArguments (g.method m.method).parameters.length
    let o ← Exec.allocate (g.method m.method).declaring
    return .call m.method (.object o :: arguments) fun _ => operands.push (.object o)
  | .box _ => return .done .next operands
  | .br target => return .done (.jump target) operands
  | .brtrue target =>
    let (value, operands) ← operands.pop
    return .done (if value.isTrue then .jump target else .next) operands
  | .brfalse target =>
    let (value, operands) ← operands.pop
    return .done (if value.isTrue then .next else .jump target) operands
  | .leave target => return .done (.leave target) operands
  | .endfinally => return .done .endFinally operands
  | .throw =>
    let (value, _) ← operands.pop
    throw (.exception (← value.toObject))
  | .ret =>
    if r.returnsValue then
      let (value, operands) ← operands.pop
      return .done (.return (some value)) operands
    else return .done (.return none) operands

/-- goes on after what an instruction comes to, making its call if there is one -/
def resolve (invoker : Invoker) : Request → Exec (Flow × Operands)
  | .done flow operands => return (flow, operands)
  | .call m arguments resume => return (.next, resume (← invoker.invoke m arguments))

/-- the effect of an instruction on the operands, and what to do next -/
def execute (invoker : Invoker) (r : Routine) (instruction : Instruction) (operands : Operands) :
    Exec (Flow × Operands) := do
  resolve invoker (← r.request invoker.graph instruction operands)

/-! ## Leaving protected regions -/

/-- the first of some regions with the given property, and its place, if the place of the very first is `first` -/
def findFrom (wanted : Region → Bool) (first : Nat) : List Region → Option (Region × Nat)
  | [] => none
  | region :: rest => if wanted region then some (region, first) else findFrom wanted (first + 1) rest

/-- the first region, from the given place of the table on, with the given property, and its place -/
def findRegion (regions : List Region) (first : Nat) (wanted : Region → Bool) : Option (Region × Nat) :=
  findFrom wanted first (regions.drop first)

theorem findFrom_some {wanted : Region → Bool} {first : Nat} {regions : List Region} {e : Region × Nat}
    (h : findFrom wanted first regions = some e) : e.1 ∈ regions ∧ wanted e.1 = true := by
  induction regions generalizing first with
  | nil => cases h
  | cons region rest ih =>
    unfold findFrom at h
    split at h
    · next hw => cases h; exact ⟨List.mem_cons_self, hw⟩
    · exact ⟨List.mem_cons_of_mem _ (ih h).1, (ih h).2⟩

theorem findRegion_some {wanted : Region → Bool} {first : Nat} {regions : List Region} {e : Region × Nat}
    (h : findRegion regions first wanted = some e) : e.1 ∈ regions ∧ wanted e.1 = true :=
  ⟨List.mem_of_mem_drop (findFrom_some h).1, (findFrom_some h).2⟩

/-- does a jump from `origin` to `target` leave the region through a `finally` handler? -/
def isLeft (origin target : Nat) (region : Region) : Bool :=
  region.kind == .finally && region.protects origin && !region.protects target

/-- goes on with a jump out of protected regions, looking at the table from place `first` on -/
def leaveFrom (r : Routine) (first origin target : Nat) (activation : Activation) : Activation :=
  let operands := { activation.operands with stack := [] }
  match findRegion r.regions first (isLeft origin target) with
  | some (region, place) =>
    { position := region.handlerStart, operands
      pending := { region := place, purpose := .leave origin target } :: activation.pending }
  | none => { activation with position := target, operands }

/-- does the region's handler run for an exception raised at `origin`? -/
def handles (g : TypeGraph) (machine : Machine) (origin : Nat) (exception : ObjectRef) (region : Region) : Bool :=
  region.protects origin &&
    match region.kind with
    | .finally => true
    | .catch t => machine.isInstance g exception t

/-- goes on with an exception, looking at the table from place `first` on; without a handler it leaves the method -/
def raiseFrom (g : TypeGraph) (r : Routine) (first origin : Nat) (exception : ObjectRef) (activation : Activation) :
    Exec Activation := do
  match findRegion r.regions first (handles g (← get) origin exception) with
  | none => throw (.exception exception)
  | some (region, place) =>
    match region.kind with
    | .finally =>
      return { position := region.handlerStart, operands := { activation.operands with stack := [] }
               pending := { region := place, purpose := .raise origin exception } :: activation.pending }
    | .catch _ =>
      return { activation with
        position := region.handlerStart, operands := { activation.operands with stack := [.object exception] } }

/-- ends the latest handler that is being run, and goes on with what it was run for -/
def endHandler (g : TypeGraph) (r : Routine) (activation : Activation) : Exec Activation :=
  match activation.pending with
  | [] => throw .unexpectedEndFinally
  | { region, purpose } :: pending =>
    let activation := { activation with pending }
    match purpose with
    | .leave origin target => pure (r.leaveFrom (region + 1) origin target activation)
    | .raise origin exception => r.raiseFrom g (region + 1) origin exception activation

/-! ## Turns -/

/-- counts an instruction, unless the limit is reached -/
def tick (limit : Nat) : Exec Unit := do
  modify fun machine => { machine with steps := machine.steps + 1 }
  if limit < (← get).steps then throw .stepLimit

/-- where control goes after an instruction -/
def follow (g : TypeGraph) (r : Routine) (activation : Activation) : Flow → Exec Turn
  | .next => return .resume { activation with position := activation.position + 1 }
  | .jump target => return .resume { activation with position := ← positionOf r.layout target }
  | .leave target =>
    return .resume (r.leaveFrom 0 activation.position (← positionOf r.layout target) activation)
  | .endFinally => return .resume (← r.endHandler g activation)
  | .return value => return .finish value

/-- one instruction: it is counted, fetched and executed, and an exception from it looks for a handler -/
def turn (invoker : Invoker) (r : Routine) (limit : Nat) (activation : Activation) : Exec Turn := do
  tick limit
  match r.layout.fetch? activation.position with
  | none => throw (.fellOffEnd r.method)
  | some instruction =>
    match ← Exec.attempt (r.execute invoker instruction activation.operands) with
    | .ok (flow, operands) => r.follow invoker.graph { activation with operands } flow
    | .error exception =>
      return .resume (← r.raiseFrom invoker.graph 0 activation.position exception { activation with operands := {} })

/-- turns until the call returns or traps; since each turn counts a step, `budget` is never used up before the limit -/
def turns (invoker : Invoker) (r : Routine) (limit : Nat) : Nat → Activation → Exec (Option Value)
  | 0, _ => throw .stepLimit
  | budget + 1, activation => fun machine =>
    match r.turn invoker limit activation machine with
    | .ok (.finish value) machine => .ok value machine
    | .ok (.resume activation) machine => turns invoker r limit budget activation machine
    | .error trap machine => .error trap machine

/-- lays out a body for the innermost frame -/
def prepare (g : TypeGraph) (m : MethodId) (body : Body) : Exec Routine := do
  let layout := Layout.ofBody body
  let regions ← body.handlers.mapM (region layout)
  return {
    method := m, layout, regions, depth := (← get).frames.size - 1
    returnsValue := (g.method m).returns.isSome }

/-- runs a body in the innermost frame -/
def run (invoker : Invoker) (limit : Nat) (m : MethodId) (body : Body) : Exec (Option Value) := do
  let routine ← prepare invoker.graph m body
  routine.turns invoker limit (limit - (← get).steps + 1) {}

end Routine

end DisposalWeaver
