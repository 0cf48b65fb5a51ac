/-
The listing of a body: its locals, its instructions with positions in place of offsets, and its protected regions.

Positions are four hexadecimal digits after `IL_`. A jump shows the position of its target, and a handle that was never
placed is shown as such. The first sequence point of an instruction stands on a line of its own above it.
-/
import DisposalWeaver.Body.Basic

namespace DisposalWeaver.Body

/-- a position as it is shown -/
def positionText (position : Nat) : String :=
  "IL_" ++ Text.hexadecimal 4 position

/-- where a handle is, or that it has no place -/
def label (body : Body) (handle : Handle) : String :=
  match body.position? handle with
  | some position => positionText position
  | none => s!"<unplaced {handle.text}>"

/-- types of the locals, if there are any -/
def localsText (g : TypeGraph) (body : Body) : String :=
  if body.locals.isEmpty then ""
  else ".locals (" ++ ", ".intercalate (body.locals.toList.map g.typeText) ++ ")\n"

/-- line of the source above an instruction -/
def pointText (body : Body) (handle : Handle) : String :=
  match body.points.find? fun point => point.instruction == handle with
  | some point => if point.isHidden then "  // hidden\n" else s!"  // line {point.startLine}\n"
  | none => ""

/-- an instruction with the position of its jump target -/
def instructionText (g : TypeGraph) (body : Body) (instruction : Instruction) : String :=
  match instruction.target? with
  | some target => s!"{instruction.mnemonic} {body.label target}"
  | none => instruction.text g

/-- a placed instruction with its position, and with its line of the source above it -/
def entryText (g : TypeGraph) (body : Body) (position : Nat) : Handle × Instruction → String
  | (handle, instruction) =>
    body.pointText handle ++ positionText position ++ ": " ++ body.instructionText g instruction ++ "\n"

/-- the placed instructions -/
def codeText (g : TypeGraph) (body : Body) : String :=
  String.join (body.entries.mapIdx (body.entryText g))

/-- a protected region and its handler -/
def handlerText (g : TypeGraph) (body : Body) (handler : Handler) : String :=
  let kind := match handler.kind with
    | .finally => "finally"
    | .catch type => s!"catch {g.nameOf type}"
  s!".try {body.label handler.tryStart} to {body.label handler.tryEnd} {kind} " ++
    s!"handler {body.label handler.handlerStart} to {body.label handler.handlerEnd}\n"

/-- the whole listing; every line ends in a line feed -/
def listing (g : TypeGraph) (body : Body) : String :=
  body.localsText g ++ body.codeText g ++ String.join (body.handlers.map (body.handlerText g))

end DisposalWeaver.Body
