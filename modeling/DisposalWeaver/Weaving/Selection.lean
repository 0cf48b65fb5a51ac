/-
What the weaver looks at: which types it takes on, and what it does about a field.

- `isEligible`, `entryMethods`, `isAlreadyWoven`: whether a type is woven at all.
- `entryViolations`: what is wrong with its entry point or its base.
- `isReplaceable`: whether a body holds nothing of its author's.
- `fate`: whether a field is left alone, reported, or disposed of.
-/
import DisposalWeaver.Weaving.Diagnostics
import DisposalWeaver.Weaving.References
import DisposalWeaver.Weaving.Settings
import DisposalWeaver.TypeGraph.Subtyping

namespace DisposalWeaver.Selection

/-! ## Types -/

/-- simple names of the markers that code generators leave on their output -/
def generatedCodeMarkers : List String := ["CompilerGeneratedAttribute", "GeneratedCodeAttribute"]

/-- is the definition itself marked as generated? -/
def isMarkedGenerated (g : TypeGraph) (t : TypeDef) : Bool :=
  t.markers.any fun marker => generatedCodeMarkers.contains (g.type marker.type).name.simple

/-- `isGenerated`, looking at no more than `bound` enclosing types -/
def isGeneratedWithin (g : TypeGraph) (module : Module) : Nat → TypeDef → Bool
  | 0, t => isMarkedGenerated g t
  | bound + 1, t =>
    isMarkedGenerated g t ||
      match (g.type t.id).enclosing.bind module.definition? with
      | some outer => isGeneratedWithin g module bound outer
      | none => false

/-- is the type, or one of the types that enclose it, marked as generated? -/
def isGenerated (g : TypeGraph) (module : Module) (t : TypeDef) : Bool :=
  isGeneratedWithin g module g.types.size t

/-- is there a marker that opts out of weaving? -/
def isSkipped (g : TypeGraph) (settings : Settings) (markers : List Marker) : Bool :=
  markers.any fun marker => marker.isNamed g settings.skipMarker

/-- namespaces named by markers on the assembly, and those of the settings -/
def skippedNamespaces (g : TypeGraph) (settings : Settings) (module : Module) : List String :=
  (module.markers.filter fun marker => marker.isNamed g settings.skipNamespaceMarker).filterMap Marker.text? ++
    settings.skippedNamespaces

/-- may the type be woven, if it has an entry point? -/
def isEligible (g : TypeGraph) (settings : Settings) (module : Module) (t : TypeDef) : Bool :=
  g.isClass t.id && (settings.weaveAbstract || !g.isAbstract t.id) && !isGenerated g module t &&
    !isSkipped g settings t.markers && !(skippedNamespaces g settings module).contains (g.type t.id).name.space

/-- instance methods named like an entry point, in order -/
def entryMethods (g : TypeGraph) (settings : Settings) (t : TypeDef) : List MethodId :=
  (t.methods.map MethodDef.id).filter fun m =>
    !(g.method m).isStatic && settings.entryNames.contains (g.method m).name

/-- does the type declare every member that weaving would add? -/
def isAlreadyWoven (g : TypeGraph) (settings : Settings) (t : TypeId) : Bool :=
  g.hasField t settings.signaledField.text && g.hasField t settings.disposedField.text &&
    g.hasMethod t settings.guardMethod.text

/-- can the body be overwritten without losing anything its author wrote? Apart from `nop` and `ret` it holds nothing, or
only throws a fresh exception that stands for missing code. -/
def isReplaceable (g : TypeGraph) : Option Body → Bool
  | none => true
  | some body =>
    match body.code.filter fun instruction => instruction != .nop && instruction != .ret with
    | [] => true
    | [.newobj m, .throw] =>
      (g.type (g.method m.method).declaring).name == QualifiedName.notImplementedException
    | _ => false

/-- what is wrong with the entry points or the base of a type -/
def entryViolations (g : TypeGraph) (references : References) (t : TypeDef) (entries : List MethodId) :
    List Violation :=
  let name := g.nameOf t.id
  let body := (entries.head?.bind t.method?).bind MethodDef.body
  (if 1 < entries.length then [.multipleEntryMethods name] else []) ++
    (if isReplaceable g body then [] else [.entryMethodHasCode name]) ++
    (if (g.type t.id).base = some references.object then [] else [.unsupportedBaseType name])

/-- the first member that weaving would add and that the type declares already -/
def collision? (g : TypeGraph) (settings : Settings) (t : TypeId) : Option Violation :=
  if g.hasField t settings.signaledField.text then
    some (.nameCollision (g.nameOf t) settings.signaledField.text .field)
  else if g.hasField t settings.disposedField.text then
    some (.nameCollision (g.nameOf t) settings.disposedField.text .field)
  else if g.hasMethod t settings.guardMethod.text then
    some (.nameCollision (g.nameOf t) settings.guardMethod.text .method)
  else none

/-- the first instance method of the given name without parameters -/
def hook? (g : TypeGraph) (t : TypeId) (name : MemberName) : Option MethodId :=
  (g.type t).methods.find? fun m =>
    !(g.method m).isStatic && (g.method m).hasSignature g name.text []

/-! ## Fields -/

/-- can a value of the type be disposed of? -/
def isDisposable (g : TypeGraph) (references : References) (type : TypeRef) : Bool :=
  g.isAssignable type (.named references.disposable)

/-- is the type a handle to a pending computation, by its name? -/
def isTask (g : TypeGraph) (type : TypeRef) : Bool :=
  match type.definition? with
  | some t => (g.type t).name.startsWith QualifiedName.task.text
  | none => false

/-- what is done about a field -/
inductive Fate where
  /-- nothing, and nothing is said -/
  | ignored
  /-- it cannot be nulled out, which is reported -/
  | reported (violation : Violation)
  /-- it is swapped with null, and disposed of if it held anything -/
  | disposed
  deriving DecidableEq, Repr

/-- what is done about a declared field, unless a marker or the caller excludes it -/
def fateOf (g : TypeGraph) (references : References) (f : FieldDecl) : Fate :=
  if f.flags.isStatic || !isDisposable g references f.type || isTask g f.type then .ignored
  else if f.flags.isInitOnly then .reported (.readonlyField (g.fieldPath f))
  else if g.isValueTypeRef f.type then .reported (.valueTypeField (g.fieldPath f))
  else if g.isOpenGeneric f.type then .reported (.genericField (g.fieldPath f))
  else .disposed

/-- what is done about a field of the type being woven -/
def fate (g : TypeGraph) (references : References) (settings : Settings) (excluded : List FieldId) (f : FieldDef) :
    Fate :=
  if excluded.contains f.id || isSkipped g settings f.markers then .ignored
  else fateOf g references (g.field f.id)

end DisposalWeaver.Selection
