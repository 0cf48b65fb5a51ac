/-
Method bodies: a sequence of instructions, and what refers into it.

Instructions live in slots that are never given up before the body is cleared, and a `Handle` is the number of a slot.
Creating an instruction fills a slot; placing it, at most once, gives it a position. Jumps, protected regions and
sequence points name handles, so inserting code in front leaves all of them at the instructions they meant.

- `create`, `place?`, `push`, `append`, `insertAtStart`, `assemble`: the ways to build the sequence.
- `isPlaced`, `instruction?`, `placed?`, `position?`, `fetch?`: reading it by handle and by position.
-/
import DisposalWeaver.Body.Instruction

namespace DisposalWeaver

/-- what a handler is for -/
inductive HandlerKind where
  /-- runs whenever control leaves the region -/
  | «finally»
  /-- takes exceptions of the given type -/
  | «catch» (type : TypeId)
  deriving DecidableEq, Repr

/-- protected region and its handler; each end is the first instruction after the part -/
structure Handler where
  kind : HandlerKind
  tryStart : Handle
  tryEnd : Handle
  handlerStart : Handle
  handlerEnd : Handle
  deriving DecidableEq, Repr

/-- the four places that a handler names -/
def Handler.boundaries (handler : Handler) : List Handle :=
  [handler.tryStart, handler.tryEnd, handler.handlerStart, handler.handlerEnd]

/-- line of the source that an instruction stems from -/
structure SequencePoint where
  instruction : Handle
  document : String
  startLine : Nat
  endLine : Nat
  deriving DecidableEq, Repr

namespace SequencePoint

/-- line number that tells a debugger to step through to the next visible point -/
def hiddenLine : Nat := 0x00feefee

/-- point on a single line -/
def onLine (instruction : Handle) (document : String) (line : Nat) : SequencePoint :=
  { instruction, document, startLine := line, endLine := line }

/-- point that a debugger steps through -/
def hidden (instruction : Handle) (document : String) : SequencePoint :=
  onLine instruction document hiddenLine

def isHidden (point : SequencePoint) : Bool := point.startLine == hiddenLine

end SequencePoint

/-- a created instruction, and whether it has a position -/
structure Slot where
  instruction : Instruction
  placed : Bool
  deriving DecidableEq, Repr, Inhabited

/-- body of a method -/
structure Body where
  /-- every instruction created, by handle -/
  slots : Array Slot := #[]
  /-- the placed ones, in order -/
  order : List Handle := []
  /-- types of the local variables -/
  locals : Array TypeRef := #[]
  handlers : List Handler := []
  points : List SequencePoint := []
  deriving DecidableEq, Repr, Inhabited

/-- why an instruction cannot be placed or found -/
inductive BodyError where
  /-- the handle names no created (or no placed) instruction -/
  | dangling (handle : Handle)
  | alreadyPlaced (handle : Handle)
  deriving DecidableEq, Repr

namespace Body

/-- body without code -/
def empty : Body := {}

/-! ## Building -/

/-- handle that the next created instruction gets -/
def nextHandle (body : Body) : Handle := ⟨body.slots.size⟩

/-- creates an instruction without giving it a position -/
def create (body : Body) (instruction : Instruction) : Handle × Body :=
  (body.nextHandle, { body with slots := body.slots.push ⟨instruction, false⟩ })

/-- places a created instruction at the end -/
def place? (body : Body) (handle : Handle) : Except BodyError Body :=
  match body.slots[handle.number]? with
  | none => .error (.dangling handle)
  | some slot =>
    if slot.placed then .error (.alreadyPlaced handle)
    else .ok { body with
      slots := body.slots.setIfInBounds handle.number { slot with placed := true }
      order := body.order ++ [handle] }

/-- creates an instruction at the end -/
def push (body : Body) (instruction : Instruction) : Handle × Body :=
  (body.nextHandle, { body with
    slots := body.slots.push ⟨instruction, true⟩
    order := body.order ++ [body.nextHandle] })

/-- creates instructions at the end, in order -/
def append (body : Body) (instructions : List Instruction) : Body :=
  instructions.foldl (fun body instruction => (body.push instruction).2) body

/-- the body in which all of `code` is created, so that the numbers of its handles count from 0, and then placed in the
given order -/
def assemble (code : List Instruction) (order : List Handle) : Except BodyError Body :=
  order.foldlM place? (code.foldl (fun body instruction => (body.create instruction).2) empty)

/-- creates instructions before all others; answers their handles, in order -/
def insertAtStart (body : Body) (instructions : List Instruction) : List Handle × Body :=
  let handles := (List.range instructions.length).map fun i => Handle.mk (body.slots.size + i)
  (handles, { body with
    slots := body.slots ++ (instructions.map fun instruction => Slot.mk instruction true).toArray
    order := handles ++ body.order })

/-- declares a local variable; answers its number -/
def addLocal (body : Body) (type : TypeRef) : UInt16 × Body :=
  (UInt16.ofNat body.locals.size, { body with locals := body.locals.push type })

/-- adds a protected region after the others -/
def addHandler (body : Body) (handler : Handler) : Body :=
  { body with handlers := body.handlers ++ [handler] }

/-- adds a sequence point after the others -/
def addPoint (body : Body) (point : SequencePoint) : Body :=
  { body with points := body.points ++ [point] }

/-! ## Reading -/

/-- number of placed instructions -/
def size (body : Body) : Nat := body.order.length

def isPlaced (body : Body) (handle : Handle) : Bool :=
  match body.slots[handle.number]? with
  | some slot => slot.placed
  | none => false

/-- a created instruction -/
def instruction? (body : Body) (handle : Handle) : Option Instruction :=
  body.slots[handle.number]?.map Slot.instruction

/-- a placed instruction -/
def placed? (body : Body) (handle : Handle) : Except BodyError Instruction :=
  match body.slots[handle.number]? with
  | some slot => if slot.placed then .ok slot.instruction else .error (.dangling handle)
  | none => .error (.dangling handle)

/-- position of a placed instruction -/
def position? (body : Body) (handle : Handle) : Option Nat :=
  body.order.idxOf? handle

/-- the instruction at a position -/
def fetch? (body : Body) (position : Nat) : Option Instruction :=
  body.order[position]?.bind body.instruction?

/-- placed instructions with their handles, in order -/
def entries (body : Body) : List (Handle × Instruction) :=
  body.order.filterMap fun handle => (body.instruction? handle).map fun instruction => (handle, instruction)

/-- placed instructions, in order -/
def code (body : Body) : List Instruction :=
  body.entries.map Prod.snd

end Body

end DisposalWeaver
