/-
Which bodies a loader accepts, before it looks at any types.

- every jump target and every boundary of a region is placed in the body;
- every instruction is reached with one stack height along all paths, and nothing pops from an empty stack;
- arguments and locals are in range, and a `constrained` prefix stands before a `callvirt`;
- a return leaves exactly the return value, if any, on the stack;
- protected regions are entered with an empty stack, and control never runs past the last instruction.

`passage` is the rule of a single instruction reached with a given height. `propagate` carries heights along, from the
first instruction and from the entry of every handler, and gives every position the first height it is reached with; it
ends because a position is passed once. `survey` answers what it found, `verify` the greatest height that a run can reach.
-/
import DisposalWeaver.Body.Basic
import DisposalWeaver.Module

namespace DisposalWeaver

/-- what is wrong with a body -/
inductive Fault where
  | emptyStack
  /-- two paths reach an instruction with different heights -/
  | inconsistentHeight (expected found : Nat)
  /-- a jump target or a boundary has no position -/
  | unplacedTarget (handle : Handle)
  | argumentOutOfRange (index : UInt16)
  | localOutOfRange (index : UInt16)
  /-- a return with the wrong number of values -/
  | badReturnDepth (height : Nat)
  | fallsOffEnd
  /-- a `constrained` prefix that no `callvirt` follows -/
  | danglingPrefix
  /-- a protected region entered with values on the stack -/
  | nonEmptyStackAtRegion (height : Nat)
  deriving DecidableEq, Repr

/-- a fault and the position where it shows -/
structure Rejection where
  position : Nat
  fault : Fault
  deriving DecidableEq, Repr

/-- a position to be reached with a stack height -/
structure Arrival where
  position : Nat
  height : Nat
  deriving DecidableEq, Repr

/-- what passing an instruction leads to -/
structure Passage where
  /-- greatest height that the instruction produces -/
  depth : Nat := 0
  /-- arrival at the next instruction -/
  onward : Option Arrival := none
  /-- arrival at the jump target -/
  jump : Option Arrival := none
  deriving DecidableEq, Repr

/-- arrivals that a passage leads to, the nearest first -/
def Passage.arrivals (passage : Passage) : List Arrival :=
  passage.onward.toList ++ passage.jump.toList

/-- what is known of an accepted body -/
structure Survey where
  /-- the height that each position is reached with, if it is reached -/
  heights : List (Option Nat)
  /-- greatest height that a run can reach -/
  depth : Nat
  deriving DecidableEq, Repr

/-- height of the stack on entering a handler: a caught exception is on it -/
def HandlerKind.entryHeight : HandlerKind → Nat
  | .finally => 0
  | .catch _ => 1

namespace Body

/-- position of a handle that has to be placed -/
def resolve (body : Body) (handle : Handle) : Except Fault Nat :=
  match body.position? handle with
  | some position => .ok position
  | none => .error (.unplacedTarget handle)

/-- arrival at the jump target, if there is one; it has to be placed -/
def jumpArrival (body : Body) (instruction : Instruction) (height : Nat) : Except Fault (Option Arrival) :=
  match instruction.target? with
  | some target => (body.resolve target).map fun position => some { position, height }
  | none => .ok none

/-- arrival at the next instruction, unless control never goes on; there has to be one -/
def nextArrival (body : Body) (instruction : Instruction) (position height : Nat) : Except Fault (Option Arrival) :=
  if instruction.isTerminal then .ok none
  else if body.size ≤ position + 1 then .error .fallsOffEnd
  else .ok (some { position := position + 1, height })

/-- the common rule: enough values, a placed target, and something to go on to -/
def flow (g : TypeGraph) (body : Body) (instruction : Instruction) (here : Arrival) : Except Fault Passage :=
  let (pops, pushes) := instruction.stackEffect g
  if here.height < pops then .error .emptyStack
  else do
    let height := here.height - pops + pushes
    let jump ← body.jumpArrival instruction height
    let onward ← body.nextArrival instruction here.position height
    return { depth := height, onward, jump }

/-- the rule of one instruction -/
def passage (g : TypeGraph) (m : MethodDecl) (body : Body) (instruction : Instruction) (here : Arrival) :
    Except Fault Passage :=
  match instruction with
  | .ldarg n | .starg n =>
    if m.argumentCount ≤ n.toNat then .error (.argumentOutOfRange n) else body.flow g instruction here
  | .ldloc n | .ldloca n | .stloc n =>
    if body.locals.size ≤ n.toNat then .error (.localOutOfRange n) else body.flow g instruction here
  | .constrained _ =>
    match body.fetch? (here.position + 1) with
    | some (.callvirt _) => body.flow g instruction here
    | _ => .error .danglingPrefix
  | .ret => if here.height = m.resultCount then .ok {} else .error (.badReturnDepth here.height)
  | .leave target => (body.resolve target).map fun position => { jump := some { position, height := 0 } }
  | .endfinally => .ok {}
  | _ => body.flow g instruction here

/-- the instruction at an arrival, and where passing it leads; a region must be entered with an empty stack -/
def visit (g : TypeGraph) (m : MethodDecl) (body : Body) (regionStarts : List Nat) (here : Arrival) :
    Except Fault Passage :=
  if regionStarts.contains here.position && here.height != 0 then .error (.nonEmptyStackAtRegion here.height)
  else match body.fetch? here.position with
    | some instruction => body.passage g m instruction here
    | none => .error .fallsOffEnd

theorem count_none_set {heights : List (Option Nat)} {i h : Nat} (unvisited : heights[i]? = some none) :
    (heights.set i (some h)).count none + 1 = heights.count none := by
  induction heights generalizing i with
  | nil => simp at unvisited
  | cons x xs ih =>
    cases i with
    | zero => simp only [List.getElem?_cons_zero, Option.some.injEq] at unvisited; simp [unvisited]
    | succ i =>
      simp only [List.getElem?_cons_succ] at unvisited
      simp only [List.set_cons_succ, List.count_cons]
      have := ih unvisited
      omega

theorem arrivals_length (passage : Passage) : passage.arrivals.length ≤ 2 := by
  unfold Passage.arrivals
  cases passage.onward <;> cases passage.jump <;> simp

/-- carries heights along, from the pending arrivals on; answers the heights, and the greatest of `depth` and all
passages -/
def propagate (g : TypeGraph) (m : MethodDecl) (body : Body) (regionStarts : List Nat)
    (heights : List (Option Nat)) (depth : Nat) : List Arrival → Except Rejection Survey
  | [] => .ok { heights, depth }
  | here :: pending =>
    match _ : heights[here.position]? with
    | none => .error ⟨here.position, .fallsOffEnd⟩
    | some (some expected) =>
      if expected = here.height then propagate g m body regionStarts heights depth pending
      else .error ⟨here.position, .inconsistentHeight expected here.height⟩
    | some none =>
      match body.visit g m regionStarts here with
      | .error fault => .error ⟨here.position, fault⟩
      | .ok passage =>
        propagate g m body regionStarts (heights.set here.position (some here.height)) (max depth passage.depth)
          (passage.arrivals ++ pending)
termination_by pending => 2 * heights.count none + pending.length
decreasing_by
  · simp
  · have := count_none_set (h := here.height) ‹heights[here.position]? = some none›
    have := arrivals_length passage
    simp only [List.length_append, List.length_cons]
    omega

/-- start of the protected region, and the arrival at the handler; all boundaries have to be placed -/
def entry (body : Body) (handler : Handler) : Except Fault (Nat × Arrival) := do
  let tryStart ← body.resolve handler.tryStart
  let _ ← body.resolve handler.tryEnd
  let handlerStart ← body.resolve handler.handlerStart
  let _ ← body.resolve handler.handlerEnd
  return (tryStart, { position := handlerStart, height := handler.kind.entryHeight })

/-- the heights in the body, if it is accepted as the body of the method -/
def survey (g : TypeGraph) (m : MethodDecl) (body : Body) : Except Rejection Survey :=
  if body.order.isEmpty then .error ⟨0, .fallsOffEnd⟩
  else match body.handlers.mapM body.entry with
    | .error fault => .error ⟨0, fault⟩
    | .ok entries =>
      let arrivals := entries.map Prod.snd
      let depth := (arrivals.map Arrival.height).foldl max 0
      body.propagate g m (entries.map Prod.fst) (List.replicate body.size none) depth
        (arrivals.reverse ++ [{ position := 0, height := 0 }])

/-- the greatest stack height of the body, if it is accepted as the body of the method -/
def verify (g : TypeGraph) (m : MethodDecl) (body : Body) : Except Rejection Nat :=
  (body.survey g m).map Survey.depth

end Body

/-- verifies every body of a module; the first rejected one is named -/
def Module.verify (g : TypeGraph) (module : Module) : Except (MethodId × Rejection) Unit :=
  module.bodies.forM fun (m, body) =>
    match body.verify g (g.method m) with
    | .ok _ => .ok ()
    | .error rejection => .error (m, rejection)

end DisposalWeaver
