/-
What a weaving session has to say.

A violation is a reason why a type, or one of its fields, cannot be woven; it says what to change. Violations do not stop
the session, but a session that recorded an error has failed.

- `Violation.message`, `Notice.message`: the wording.
- `Diagnostics.record`, `Diagnostics.hasErrors`, `Diagnostics.messages`: collecting notices and asking for them.
-/
namespace DisposalWeaver

inductive Severity where
  | info
  | warning
  | error
  deriving DecidableEq, Repr

def Severity.text : Severity → String
  | .info => "info"
  | .warning => "warning"
  | .error => "error"

inductive MemberKind where
  | field
  | method
  deriving DecidableEq, Repr

def MemberKind.text : MemberKind → String
  | .field => "field"
  | .method => "method"

/-- why a type, or one of its fields, cannot be woven -/
inductive Violation where
  | multipleEntryMethods (type : String)
  | entryMethodHasCode (type : String)
  | unsupportedBaseType (type : String)
  /-- the type declares a member under a name that the weaver needs -/
  | nameCollision (type member : String) (kind : MemberKind)
  | readonlyField (field : String)
  | valueTypeField (field : String)
  /-- the field's type is a generic definition that was never given arguments -/
  | genericField (field : String)
  deriving DecidableEq, Repr

namespace Violation

/-- how to opt out of weaving -/
def skipHint : String := "add a `[Janitor.SkipWeaving]` attribute to the type."

def message : Violation → String
  | multipleEntryMethods type =>
    s!"Type `{type}` contains more than one `Dispose` method. Either remove one or {skipHint}"
  | entryMethodHasCode type =>
    s!"Type `{type}` contains a `Dispose` method with code. Either remove the code or {skipHint}"
  | unsupportedBaseType type =>
    s!"Type `{type}` has a base class which is not currently supported. Either remove the base class or {skipHint}"
  | nameCollision type member kind =>
    s!"Type `{type}` contains a `{member}` {kind.text}. Either remove this {kind.text} or {skipHint}"
  | readonlyField field =>
    s!"Could not add dispose for field '{field}' since it is marked as readonly. " ++
      "Change this field to not be readonly."
  | valueTypeField field => s!"Could not add dispose for field '{field}' since it is a value type."
  | genericField field => s!"Could not add dispose for field '{field}' since it has generic parameters."

end Violation

/-- something that a session reports -/
inductive Notice where
  /-- a remark in the words of whoever makes it -/
  | remark (severity : Severity) (text : String)
  | violation (cause : Violation)
  /-- the type carries the weaver's members from an earlier session -/
  | alreadyWoven (type : String)
  /-- the type has a finalizer of its own, so none was attached and the hook waits for an explicit disposal -/
  | finalizerKept (type hook : String)
  | referenceRemoved (assembly : String)
  | referenceNotFound (assembly : String)
  deriving DecidableEq, Repr

namespace Notice

def severity : Notice → Severity
  | remark severity _ => severity
  | violation _ => .error
  | finalizerKept _ _ => .warning
  | alreadyWoven _ | referenceRemoved _ | referenceNotFound _ => .info

def message : Notice → String
  | remark _ text => text
  | violation cause => cause.message
  | alreadyWoven type => s!"Type `{type}` has already been woven. Skipping it."
  | finalizerKept type hook =>
    s!"Type `{type}` already declares a finalizer. No finalizer was added, " ++
      s!"so `{hook}` will not run when an undisposed instance is collected."
  | referenceRemoved assembly => s!"\tRemoving reference to '{assembly}'."
  | referenceNotFound assembly => s!"\tNo reference to '{assembly}' found. References not modified."

end Notice

/-- notices of a session, in order -/
structure Diagnostics where
  notices : List Notice := []
  deriving DecidableEq, Repr, Inhabited

namespace Diagnostics

def empty : Diagnostics := {}

/-- adds a notice after the others -/
def record (diagnostics : Diagnostics) (notice : Notice) : Diagnostics :=
  ⟨diagnostics.notices ++ [notice]⟩

/-- has an error been recorded? -/
def hasErrors (diagnostics : Diagnostics) : Bool :=
  diagnostics.notices.any fun notice => notice.severity == .error

/-- messages of one severity, in order -/
def messages (diagnostics : Diagnostics) (severity : Severity) : List String :=
  (diagnostics.notices.filter fun notice => notice.severity == severity).map Notice.message

end Diagnostics

end DisposalWeaver
