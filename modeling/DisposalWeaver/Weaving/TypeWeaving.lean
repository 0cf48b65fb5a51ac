/-
Weaving a single type.

The type has been found eligible and its entry point well formed (`Session`). Weaving adds the state fields and the
guard, rewrites the entry point in the shape that the declared hooks ask for, and puts a call of the guard in front of
every other method that must not run on a disposed instance.

A `Loom` holds everything that weaving a type changes: the graph, the type's definition and the diagnostics. When weaving
is given up half-way, what was done so far stays in it.

- `weaveType`: the whole, answering the shape, or nothing if a name is taken.
- `disposeFields`, `deriveManagedHook`: code for the fields that the type owns.
- `createState`, `synthesize`, `injectGuards`: the three parts that every woven type gets.
-/
import DisposalWeaver.TypeGraph.Platform
import DisposalWeaver.Weaving.Emission
import DisposalWeaver.Weaving.Selection
import DisposalWeaver.Weaving.Shape

namespace DisposalWeaver

/-- what weaving a type changes -/
structure Loom where
  graph : TypeGraph
  target : TypeDef
  diagnostics : Diagnostics
  /-- methods added so far; they never get a guard -/
  introduced : List MethodId := []
  deriving DecidableEq, Repr

/-- a piece of weaving: it answers a value or gives up, and leaves a loom behind either way -/
abbrev Weave := EStateM WeaveError Loom

/-- what weaving a type goes by -/
structure Pattern where
  references : References
  settings : Settings
  /-- the entry point, whose body is replaced -/
  entry : MethodId
  deriving DecidableEq, Repr

namespace Weave

/-- gives up weaving if the model does not allow a step -/
def liftModel : Except ModelError α → Weave α
  | .ok value => pure value
  | .error cause => throw (.model cause)

def record (notice : Notice) : Weave Unit :=
  modify fun loom => { loom with diagnostics := loom.diagnostics.record notice }

/-- adds a field to the type -/
def declareField (name : MemberName) (type : TypeId) : Weave FieldId := do
  let loom ← get
  let decl : FieldDecl :=
    { declaring := loom.target.id, name, type := .named type, flags := FieldFlags.private_ }
  let (id, graph, target) ← liftModel (loom.target.declareField? loom.graph decl)
  set { loom with graph, target }
  return id

/-- adds a method with a body to the type -/
def declareMethod (name : MemberName) (flags : MethodFlags) (parameters : List Parameter) (body : Body) :
    Weave MethodId := do
  let loom ← get
  let decl : MethodDecl := { declaring := loom.target.id, name, flags, parameters }
  let (id, graph, target) ← liftModel (loom.target.declareMethod? loom.graph decl body)
  set { loom with graph, target, introduced := loom.introduced ++ [id] }
  return id

/-! ## Fields -/

/-- code that disposes of the given fields, in order, after the code in `body`, and how many got some; a field that
cannot be nulled out is reported instead -/
def disposeEach (pattern : Pattern) (excluded : List FieldId) : List FieldDef → Body → Nat → Weave (Body × Nat)
  | [], body, count => return (body, count)
  | f :: rest, body, count => do
    let g := (← get).graph
    match Selection.fate g pattern.references pattern.settings excluded f with
    | .ignored => disposeEach pattern excluded rest body count
    | .reported violation =>
      record (.violation violation)
      disposeEach pattern excluded rest body count
    | .disposed =>
      let body ← liftModel (Emission.fieldDisposal g pattern.references f.id body)
      disposeEach pattern excluded rest body (count + 1)

/-- code that disposes of the fields of the type, last declared first -/
def disposeFields (pattern : Pattern) (excluded : List FieldId) (body : Body) : Weave (Body × Nat) := do
  disposeEach pattern excluded (← get).target.fields.reverse body 0

/-- adds a managed hook that disposes of the fields, if any needs it -/
def deriveManagedHook (pattern : Pattern) : Weave (Option MethodId) := do
  let (body, count) ← disposeFields pattern [] Body.empty
  if count = 0 then return none
  return some (← declareMethod pattern.settings.managedHook MethodFlags.ofPrivate [] (body.append [.ret]))

/-! ## State -/

/-- adds the signaling field, the disposed field and the guard -/
def createState (pattern : Pattern) : Weave WovenState := do
  let signaled ← declareField pattern.settings.signaledField pattern.references.int32
  let disposed ← declareField pattern.settings.disposedField pattern.references.boolean
  let loom ← get
  let body := Emission.guard loom.graph pattern.references loom.target.id disposed
  let guard ← declareMethod pattern.settings.guardMethod MethodFlags.ofPrivate [] body
  return { signaled, disposed, guard }

/-! ## The entry point -/

/-- replaces the body of the entry point, which has to be defined on the type -/
def replaceEntry (pattern : Pattern) (body : Body) : Weave Unit := do
  let loom ← get
  match loom.target.method? pattern.entry with
  | none => throw (.model (.missingMember (loom.graph.methodLabel (loom.graph.method pattern.entry))))
  | some _ =>
    set { loom with target := loom.target.updateMethod pattern.entry fun m => { m with body := some body } }

/-- the entry point disposes of the fields itself -/
def synthesizeSimple (pattern : Pattern) (state : WovenState) : Weave Unit := do
  let start := Emission.escapeCheck (← get).graph pattern.references state.signaled Body.empty
  let (body, _) ← disposeFields pattern [state.signaled, state.disposed] start
  replaceEntry pattern ((Emission.setDisposed (← get).graph state.disposed body).append [.ret])

/-- the entry point calls the managed hook -/
def synthesizeManaged (pattern : Pattern) (state : WovenState) (managed : MethodId) : Weave Unit := do
  replaceEntry pattern (Emission.managedEntry (← get).graph pattern.references state managed)

/-- attaches a finalizer that calls the routine, unless the type declares a finalizer of its own -/
def attachFinalizer (pattern : Pattern) (routine : MethodId) : Weave Unit := do
  let loom ← get
  let g := loom.graph
  if (g.type loom.target.id).methods.any fun m => (g.method m).isFinalizer g then
    record (.finalizerKept (g.nameOf loom.target.id) pattern.settings.unmanagedHook.text)
  else
    let _ ← declareMethod MemberName.finalize MethodFlags.ofFinalizer []
      (Emission.finalizer g pattern.references routine)

/-- the entry point and a finalizer go through one routine -/
def synthesizeUnmanaged (pattern : Pattern) (state : WovenState) (managed : Option MethodId) (unmanaged : MethodId) :
    Weave Unit := do
  let body := Emission.routine (← get).graph pattern.references state managed unmanaged
  let disposing : Parameter :=
    { name := pattern.settings.disposingParameter, type := .named pattern.references.boolean }
  let routine ← declareMethod MemberName.dispose MethodFlags.ofPrivate [disposing] body
  replaceEntry pattern (Emission.entryThroughRoutine (← get).graph pattern.references routine)
  attachFinalizer pattern routine

/-- rewrites the entry point in the given shape, with what supports it -/
def synthesize (pattern : Pattern) (state : WovenState) : Shape → Weave Unit
  | .simple => synthesizeSimple pattern state
  | .managedOnly managed => synthesizeManaged pattern state managed
  | .unmanagedOnly unmanaged => synthesizeUnmanaged pattern state none unmanaged
  | .managedAndUnmanaged managed unmanaged => synthesizeUnmanaged pattern state (some managed) unmanaged

/-! ## Guards -/

/-- does the name belong to the disposal contract? -/
def isDisposalName (settings : Settings) (name : MemberName) : Bool :=
  name.startsWith MemberName.dispose.text || settings.entryNames.contains name ||
    name == settings.managedHook || name == settings.unmanagedHook

/-- must the method not run on a disposed instance? -/
def needsGuard (pattern : Pattern) (loom : Loom) (m : MethodDef) : Bool :=
  let g := loom.graph
  let decl := g.method m.id
  let settings := pattern.settings
  !decl.isConstructor && !decl.isFinalizer g && !decl.isStatic && m.body.isSome &&
    m.id != pattern.entry && !loom.introduced.contains m.id &&
    !isDisposalName settings decl.name && decl.name != settings.guardMethod &&
    !settings.exemptNames.contains decl.name &&
    (settings.guardPrivate || decl.flags.visibility != .private_)

/-- the definition with a call of the guard in front of its body -/
def addGuard (guard : MethodRef) (m : MethodDef) : MethodDef :=
  { m with body := m.body.map (Emission.guarded guard) }

/-- puts a call of the guard in front of every method that needs one -/
def injectGuards (pattern : Pattern) (state : WovenState) : Weave Unit :=
  modify fun loom =>
    let guard := MethodRef.onSelf loom.graph state.guard
    let targets := (loom.target.methods.filter (needsGuard pattern loom)).map MethodDef.id
    { loom with target := targets.foldl (fun target m => target.updateMethod m (addGuard guard)) loom.target }

/-! ## The whole type -/

/-- weaves the type and answers its shape; if a name that weaving needs is taken, that is reported and nothing is done -/
def weaveType (pattern : Pattern) : Weave (Option Shape) := do
  let loom ← get
  let settings := pattern.settings
  let managed := Selection.hook? loom.graph loom.target.id settings.managedHook
  let unmanaged := Selection.hook? loom.graph loom.target.id settings.unmanagedHook
  match Selection.collision? loom.graph settings loom.target.id with
  | some violation =>
    record (.violation violation)
    return none
  | none =>
    let managed ← match managed, unmanaged with
      | none, some _ => deriveManagedHook pattern
      | managed, _ => pure managed
    let state ← createState pattern
    let shape := Shape.ofHooks managed unmanaged
    synthesize pattern state shape
    injectGuards pattern state
    return some shape

end Weave

end DisposalWeaver
