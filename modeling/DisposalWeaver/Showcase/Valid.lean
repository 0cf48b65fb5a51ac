/-
A showcase of types that weave without errors: every shape of disposal, and the special cases around them.

The classes are written here as a compiler would hand them over. The last few are left alone by the weaver, for one
reason each.
-/
import DisposalWeaver.Showcase.Builder

namespace DisposalWeaver.Showcase

/-- excluded class whose disposal records an event -/
def resource (around : Surroundings) : Build TypeDef := do
  let _ ← startDisposable around "Samples.Resource" around.platform.object [{ type := around.skipMarker }]
  let _ ← defaultConstructor around []
  let _ ← recordingMethod around "Dispose" MethodFlags.ofImplementation "Resource.Dispose"
  finished

/-- class without hooks, with methods of each accessibility -/
def simple (around : Surroundings) : Build TypeDef := do
  let _ ← startDisposable around "Samples.Simple" around.platform.object []
  let stream ← privateField "stream" (.named around.platform.stream)
  let _ ← streamConstructor around stream
  let _ ← recordingMethod around "Method" publicFlags "Simple.Method"
  let _ ← recordingMethod around "Helper" MethodFlags.ofPrivate "Simple.Helper"
  let _ ← recordingMethod around "Reset" (MethodFlags.hideBySignature ||| MethodFlags.family) "Simple.Reset"
  let _ ← recordingMethod around "Flush" (MethodFlags.hideBySignature ||| MethodFlags.assembly) "Simple.Flush"
  let _ ← recordingMethod around "Count" (publicFlags ||| MethodFlags.static) "Simple.Count"
  let _ ← emptyDispose
  finished

/-- class with a managed hook and an exempt property -/
def withManaged (around : Surroundings) : Build TypeDef := do
  let _ ← startDisposable around "Samples.WithManaged" around.platform.object []
  let stream ← privateField "stream" (.named around.platform.stream)
  let _ ← streamConstructor around stream
  let _ ← recordingMethod around "Method" publicFlags "WithManaged.Method"
  let g := (← get).graph
  let _ ← property "get_IsDisposed" (.named around.platform.boolean)
    [.ldarg 0, .ldfld (.direct g stream), .ldnull, .ceq, .ret]
  let g := (← get).graph
  let _ ← method "DisposeManaged" MethodFlags.ofPrivate
    ([.ldarg 0, .ldfld (.direct g stream), .callvirt (.direct g around.platform.disposableDispose),
      .ldarg 0, .ldnull, .stfld (.direct g stream)] ++
      recording g around "WithManaged.DisposeManaged" ++ [.ret])
  let _ ← emptyDispose
  finished

/-- class with an unmanaged hook -/
def withUnmanaged (around : Surroundings) : Build TypeDef := do
  let _ ← startDisposable around "Samples.WithUnmanaged" around.platform.object []
  let _ ← defaultConstructor around []
  let _ ← recordingMethod around "Method" publicFlags "WithUnmanaged.Method"
  let _ ← recordingMethod around "DisposeUnmanaged" MethodFlags.ofPrivate "WithUnmanaged.DisposeUnmanaged"
  let _ ← emptyDispose
  finished

/-- class with both hooks, and a class that overrides one of them and is not woven itself -/
def withBoth (around : Surroundings) : Build (List TypeDef) := do
  let both ← startDisposable around "Samples.WithManagedAndUnmanaged" around.platform.object []
  let constructor ← defaultConstructor around []
  let _ ← recordingMethod around "Method" publicFlags "WithManagedAndUnmanaged.Method"
  let managed ← recordingMethod around "DisposeManaged" virtualHookFlags "WithManagedAndUnmanaged.DisposeManaged"
  let _ ← recordingMethod around "DisposeUnmanaged" virtualHookFlags "WithManagedAndUnmanaged.DisposeUnmanaged"
  let _ ← emptyDispose
  let base ← finished
  let _ ← startClass "Samples.Derived" both []
  let _ ← constructorAfter constructor MethodFlags.ofConstructor []
  let g := (← get).graph
  let _ ← method "DisposeManaged" overrideFlags
    (recording g around "Derived.DisposeManaged" ++ [.ldarg 0, .call (.direct g managed), .ret])
  return [base, ← finished]

/-- class with an unmanaged hook and a field to dispose of -/
def withUnmanagedAndField (around : Surroundings) : Build TypeDef := do
  let _ ← startDisposable around "Samples.WithUnmanagedAndDisposableField" around.platform.object []
  let stream ← privateField "stream" (.named around.platform.stream)
  let _ ← streamConstructor around stream
  let _ ← recordingMethod around "DisposeUnmanaged" MethodFlags.ofPrivate
    "WithUnmanagedAndDisposableField.DisposeUnmanaged"
  let _ ← emptyDispose
  finished

/-- class whose entry point is an explicit implementation -/
def withExplicitDispose (around : Surroundings) : Build TypeDef := do
  let _ ← startDisposable around "Samples.WithExplicitDisposeMethod" around.platform.object []
  let stream ← privateField "stream" (.named around.platform.stream)
  let _ ← streamConstructor around stream
  let _ ← recordingMethod around "Method" publicFlags "WithExplicitDisposeMethod.Method"
  let _ ← method "System.IDisposable.Dispose" explicitDisposeFlags [.nop, .ret]
  finished

/-- class with a pending computation, which is not disposed of -/
def withTask (around : Surroundings) : Build TypeDef := do
  let _ ← startDisposable around "Samples.WithTask" around.platform.object []
  let task ← privateField "task" (.named around.platform.task)
  let stream ← privateField "stream" (.named around.platform.stream)
  let g := (← get).graph
  let _ ← defaultConstructor around
    ([.ldarg 0, .newobj (.direct g around.platform.taskConstructor), .stfld (.direct g task)] ++
      assignStream g around stream)
  let _ ← emptyDispose
  finished

/-- generic class that owns a value of its parameter -/
def genericHolder (around : Surroundings) : Build TypeDef := do
  let disposable : GenericParameter := { name := ⟨"T"⟩, constraints := [.named around.platform.disposable] }
  let holder ← startType
    { TypeDecl.ofClass ⟨"Samples.GenericHolder`1"⟩ around.platform.object classFlags with generics := [disposable] } []
  makeDisposable around
  let parameter := TypeRef.typeParameter holder 0
  let value ← privateField "value" parameter
  let g := (← get).graph
  let _ ← declare
    { declaring := holder, name := MemberName.constructor, flags := MethodFlags.ofConstructor
      parameters := [{ name := ⟨"value"⟩, type := parameter }] }
    [.ldarg 0, .call (.direct g around.platform.objectConstructor),
      .ldarg 0, .ldarg 1, .stfld (.onSelf g value), .ret]
  let _ ← property "get_HasValue" (.named around.platform.boolean)
    [.ldarg 0, .ldfld (.onSelf g value), .box parameter, .ldnull, .ceq, .ldc 0, .ceq, .ret]
  let _ ← emptyDispose
  finished

/-- class whose disposal only says that it is missing -/
def withNotImplementedDispose (around : Surroundings) : Build TypeDef := do
  let _ ← startDisposable around "Samples.WithNotImplementedDispose" around.platform.object []
  let stream ← privateField "stream" (.named around.platform.stream)
  let _ ← streamConstructor around stream
  let _ ← method "Dispose" MethodFlags.ofImplementation
    [.newobj (.direct (← get).graph around.platform.notImplementedConstructor), .throw]
  finished

/-- class with fields that are not disposed of: a static one and an excluded one -/
def withStaticAndSkippedFields (around : Surroundings) : Build TypeDef := do
  let _ ← startDisposable around "Samples.WithStaticAndSkippedFields" around.platform.object []
  let _ ← field "shared" (.named around.platform.stream) (FieldFlags.private_ ||| FieldFlags.static) []
  let kept ← field "kept" (.named around.platform.stream) FieldFlags.private_ [{ type := around.skipMarker }]
  let owned ← privateField "owned" (.named around.platform.stream)
  let g := (← get).graph
  let _ ← defaultConstructor around (assignStream g around kept ++ assignStream g around owned)
  let _ ← emptyDispose
  finished

/-- class with an unmanaged hook and a finalizer of its own -/
def withExistingFinalizer (around : Surroundings) : Build TypeDef := do
  let _ ← startDisposable around "Samples.WithExistingFinalizer" around.platform.object []
  let _ ← defaultConstructor around []
  let _ ← recordingMethod around "DisposeUnmanaged" MethodFlags.ofPrivate "WithExistingFinalizer.DisposeUnmanaged"
  let g := (← get).graph
  let _ ← method "Finalize" MethodFlags.ofFinalizer
    (recording g around "WithExistingFinalizer.Finalize" ++
      [.ldarg 0, .call (.direct g around.platform.objectFinalize), .ret])
  let _ ← emptyDispose
  finished

/-- class that must be left alone: weaving it would be an error -/
def leftAlone (around : Surroundings) (name : String) (markers : List Marker) : Build TypeDef := do
  let _ ← startDisposable around name around.platform.object markers
  let _ ← disposeWithCode around
  finished

/-- abstract class, which is woven on request only -/
def abstractBase (around : Surroundings) : Build TypeDef := do
  let _ ← startType
    (.ofClass ⟨"Samples.AbstractBase"⟩ around.platform.object (classFlags ||| TypeFlags.abstract_)) []
  makeDisposable around
  let stream ← privateField "stream" (.named around.platform.stream)
  let _ ← constructorAfter around.platform.objectConstructor MethodFlags.ofFamilyConstructor
    (assignStream (← get).graph around stream)
  let _ ← emptyDispose
  finished

/-- interface with a disposal of its own -/
def resourceInterface : Build TypeDef := do
  let id ← startType (.ofInterface ⟨"Samples.IResource"⟩) []
  modifyGet fun bench =>
    let (dispose, graph) := bench.graph.addMethod
      { declaring := id, name := MemberName.dispose, flags := MethodFlags.ofInterface }
    let target := { bench.target with methods := [{ id := dispose }] }
    (target, { bench with graph, target })

/-- all types of the showcase, in order -/
def validTypes (around : Surroundings) : Build (List TypeDef) := do
  let first ← [resource, simple, withManaged, withUnmanaged].mapM fun build => build around
  let both ← withBoth around
  let second ← [withUnmanagedAndField, withExplicitDispose, withTask, genericHolder, withNotImplementedDispose,
    withStaticAndSkippedFields, withExistingFinalizer].mapM fun build => build around
  let skipped ← leftAlone around "Samples.SkippedByMarker" [{ type := around.skipMarker }]
  let inNamespace ← leftAlone around "Legacy.InSkippedNamespace" []
  let generated ← leftAlone around "Samples.GeneratedProxy" [{ type := around.platform.compilerGenerated }]
  return first ++ both ++ second ++ [skipped, inNamespace, generated, ← abstractBase around, ← resourceInterface]

end DisposalWeaver.Showcase
