/-
A showcase of types that break a rule of weaving, one rule each.
-/
import DisposalWeaver.Showcase.Builder

namespace DisposalWeaver.Showcase

/-- class with a field that cannot be nulled out -/
def withReadonlyField (around : Surroundings) : Build TypeDef := do
  let _ ← startDisposable around "Invalid.WithReadonlyField" around.platform.object []
  let stream ← field "stream" (.named around.platform.stream)
    (FieldFlags.private_ ||| FieldFlags.initOnly) []
  let _ ← streamConstructor around stream
  let _ ← emptyDispose
  finished

/-- class whose entry point has code -/
def withDisposeCode (around : Surroundings) : Build TypeDef := do
  let _ ← startDisposable around "Invalid.WithDisposeCode" around.platform.object []
  let _ ← disposeWithCode around
  finished

/-- class with two entry points -/
def withTwoDisposeMethods (around : Surroundings) : Build TypeDef := do
  let _ ← startDisposable around "Invalid.WithTwoDisposeMethods" around.platform.object []
  let _ ← emptyDispose
  let _ ← method "System.IDisposable.Dispose" explicitDisposeFlags [.ret]
  finished

/-- class with a base other than the root, after that base -/
def withBaseClass (around : Surroundings) : Build (List TypeDef) := do
  let base ← startClass "Invalid.Base" around.platform.object []
  let constructor ← defaultConstructor around []
  let baseDefinition ← finished
  let _ ← startDisposable around "Invalid.WithBaseClass" base []
  let _ ← constructorAfter constructor MethodFlags.ofConstructor []
  let _ ← emptyDispose
  return [baseDefinition, ← finished]

/-- class that uses a name that weaving needs -/
def withCollision (around : Surroundings) : Build TypeDef := do
  let _ ← startDisposable around "Invalid.WithCollision" around.platform.object []
  let _ ← privateField "disposed" (.named around.platform.boolean)
  let _ ← emptyDispose
  finished

/-- class with a field of a disposable value type, after that type -/
def withValueTypeField (around : Surroundings) : Build (List TypeDef) := do
  let handle ← startType (.ofClass ⟨"Invalid.Handle"⟩ around.platform.valueType sealedFlags) []
  makeDisposable around
  let handleDefinition ← finished
  let _ ← startDisposable around "Invalid.WithValueTypeField" around.platform.object []
  let _ ← privateField "handle" (.named handle)
  let _ ← emptyDispose
  return [handleDefinition, ← finished]

/-- class with a field of a generic type that has no arguments, after that type -/
def withOpenGenericField (around : Surroundings) : Build (List TypeDef) := do
  let pool ← startType
    { TypeDecl.ofClass ⟨"Invalid.Pool`1"⟩ around.platform.object classFlags with generics := [{ name := ⟨"T"⟩ }] }
    [{ type := around.skipMarker }]
  makeDisposable around
  let poolDefinition ← finished
  let _ ← startDisposable around "Invalid.WithOpenGenericField" around.platform.object []
  let _ ← privateField "pool" (.named pool)
  let _ ← emptyDispose
  return [poolDefinition, ← finished]

/-- all types of the showcase, in order -/
def invalidTypes (around : Surroundings) : Build (List TypeDef) := do
  let first ← [withReadonlyField, withDisposeCode, withTwoDisposeMethods].mapM fun build => build around
  let based ← withBaseClass around
  let collision ← withCollision around
  return first ++ based ++ [collision] ++ (← withValueTypeField around) ++ (← withOpenGenericField around)

end DisposalWeaver.Showcase
