/-
Methods provided by the host that follow a fixed script.

A script records its arguments, throws one of them, collects one of them, or answers: the first of these that it asks for
and that ends a call decides. With scripts a host observes and steers what woven code does without any code of its own.
-/
import DisposalWeaver.Machine.Program

namespace DisposalWeaver

/-- what a method provided by the host does, in this order -/
structure Script where
  /-- record the arguments as an event -/
  record : Bool := false
  /-- throw this argument -/
  throwArgument : Option Nat := none
  /-- collect this argument, and answer whether its finalizer ran -/
  collectArgument : Option Nat := none
  /-- answer this argument -/
  returnArgument : Option Nat := none
  /-- answer this value -/
  answer : Option Value := none
  deriving DecidableEq, Repr

/-- the method that follows a script -/
def Script.native (script : Script) : Native := fun declarations arguments => do
  if script.record then
    Host.change (.record arguments)
  if let some index := script.throwArgument then
    let o ← (← Value.argument arguments index).toObject
    Host.fail (.exception o)
  if let some index := script.collectArgument then
    let o ← (← Value.argument arguments index).toObject
    return some (.ofBool (← Host.collect declarations o))
  if let some index := script.returnArgument then
    return some (← Value.argument arguments index)
  return script.answer

end DisposalWeaver
