/-
What the host provides for the platform's methods, none of which has a body.

- Constructors and the root's finalizer do nothing, except that an exception's constructor sets its message.
- The two exchanges swap a value into the place that a pointer names and answer what was there.
- Suppressing finalization marks the object, and disposing a task or a stream counts on it.
-/
import DisposalWeaver.Machine.Program
import DisposalWeaver.TypeGraph.Platform

namespace DisposalWeaver

namespace Native

/-- does nothing -/
def idle : Native := fun _ _ => return none

/-- makes a note about the object that is the first argument -/
def marking (mark : Mark) : Native := fun _ arguments => do
  let o ← (← Value.argument arguments 0).toObject
  Host.mark o mark
  return none

/-- swaps the second argument into the place that the first one points to -/
def exchange : Native := fun declarations arguments => do
  let place ← (← Value.argument arguments 0).toAddress
  let value ← Value.argument arguments 1
  return some (← Host.swap declarations.graph place value)

/-- sets an exception's message, made from the text that is the second argument; anything but a text counts as empty -/
def withMessage (message : String → String) : Native := fun _ arguments => do
  let o ← (← Value.argument arguments 0).toObject
  let text := (← Value.argument arguments 1).text?.getD ""
  Host.mark o (.message (message text))
  return none

/-- answers an exception's message -/
def readMessage : Native := fun _ arguments => do
  let o ← (← Value.argument arguments 0).toObject
  let object ← Host.object o
  return some (match object.message with
    | some message => .string message
    | none => .null)

end Native

namespace Platform

/-- message of the exception thrown on use after disposal -/
def disposedMessage (objectName : String) : String :=
  s!"Cannot access a disposed object.\nObject name: '{objectName}'."

/-- message of the exception that stands for missing code -/
def notImplementedMessage : String := "The method or operation is not implemented."

/-- implementations of the platform's methods -/
def natives (platform : Platform) : List (MethodId × Native) := [
  (platform.objectConstructor, Native.idle),
  (platform.taskConstructor, Native.idle),
  (platform.streamConstructor, Native.idle),
  (platform.memoryStreamConstructor, Native.idle),
  (platform.objectFinalize, Native.idle),
  (platform.suppressFinalize, Native.marking .suppressed),
  (platform.exchangeInt32, Native.exchange),
  (platform.exchangeReference, Native.exchange),
  (platform.taskDispose, Native.marking .disposed),
  (platform.streamDispose, Native.marking .disposed),
  (platform.exceptionConstructor, Native.withMessage id),
  (platform.invalidOperationConstructor, Native.withMessage id),
  (platform.objectDisposedConstructor, Native.withMessage disposedMessage),
  (platform.notImplementedConstructor, Native.marking (.message notImplementedMessage)),
  (platform.exceptionMessage, Native.readMessage)]

end Platform

/-- the program of a module, with the platform's methods provided -/
def Program.ofModule (g : TypeGraph) (platform : Platform) (module : Module) : Program :=
  { graph := g, rootFinalizer := platform.objectFinalize, bodies := module.bodies.reverse, natives := platform.natives }

end DisposalWeaver
