/-
Building the definitions of a showcase module, type by type.

A `Workbench` holds the graph, the definition that is being built, and the next free line of the document that all code
is said to stem from. Every authored method gets a sequence point on its first instruction, four lines after the one
before it.
-/
import DisposalWeaver.Module
import DisposalWeaver.TypeGraph.Platform

namespace DisposalWeaver.Showcase

/-- what the showcase types refer to -/
structure Surroundings where
  platform : Platform
  skipMarker : TypeId
  skipNamespaceMarker : TypeId
  /-- method that takes a text; the host provides it, to see what runs -/
  recordEvent : MethodId
  deriving DecidableEq, Repr

/-- the definition being built, and what building it changes -/
structure Workbench where
  graph : TypeGraph
  nextLine : Nat
  target : TypeDef
  deriving DecidableEq, Repr

abbrev Build := StateM Workbench

/-- document that the code is said to stem from -/
def document : String := "Samples.cs"

/-! ## Attributes -/

def classFlags : TypeFlags := TypeFlags.public_ ||| TypeFlags.beforeFieldInit
def sealedFlags : TypeFlags := classFlags ||| TypeFlags.sealed
def publicFlags : MethodFlags := MethodFlags.public_ ||| MethodFlags.hideBySignature
def propertyFlags : MethodFlags := publicFlags ||| MethodFlags.specialName
def overrideFlags : MethodFlags := MethodFlags.family ||| MethodFlags.virtual ||| MethodFlags.hideBySignature
def virtualHookFlags : MethodFlags := overrideFlags ||| MethodFlags.newSlot
def explicitDisposeFlags : MethodFlags :=
  MethodFlags.private_ ||| MethodFlags.final ||| MethodFlags.virtual ||| MethodFlags.hideBySignature |||
    MethodFlags.newSlot

/-! ## Code -/

/-- records an event -/
def recording (g : TypeGraph) (around : Surroundings) (event : String) : List Instruction :=
  [.ldstr event, .call (.direct g around.recordEvent)]

/-- stores a fresh stream to a field of the instance at hand -/
def assignStream (g : TypeGraph) (around : Surroundings) (f : FieldId) : List Instruction :=
  [.ldarg 0, .newobj (.direct g around.platform.memoryStreamConstructor), .stfld (.direct g f)]

/-! ## Steps -/

/-- starts on a freshly declared type -/
def startType (decl : TypeDecl) (markers : List Marker) : Build TypeId :=
  modifyGet fun bench =>
    let (id, graph) := bench.graph.addType decl
    (id, { bench with graph, target := { id, markers } })

/-- lists the disposal interface on the type being built -/
def makeDisposable (around : Surroundings) : Build Unit :=
  modify fun bench => { bench with graph := bench.graph.addInterface bench.target.id around.platform.disposable }

/-- starts on a class -/
def startClass (name : String) (base : TypeId) (markers : List Marker) : Build TypeId :=
  startType (.ofClass ⟨name⟩ base classFlags) markers

/-- starts on a disposable class -/
def startDisposable (around : Surroundings) (name : String) (base : TypeId) (markers : List Marker) :
    Build TypeId := do
  let id ← startClass name base markers
  makeDisposable around
  return id

/-- adds a field -/
def field (name : String) (type : TypeRef) (flags : FieldFlags) (markers : List Marker) : Build FieldId :=
  modifyGet fun bench =>
    let (id, graph) := bench.graph.addField { declaring := bench.target.id, name := ⟨name⟩, type, flags }
    (id, { bench with graph, target := { bench.target with fields := bench.target.fields ++ [{ id, markers }] } })

/-- adds a private field -/
def privateField (name : String) (type : TypeRef) : Build FieldId :=
  field name type FieldFlags.private_ []

/-- adds a method; code gets a sequence point on its first instruction -/
def declare (decl : MethodDecl) (code : List Instruction) : Build MethodId :=
  modifyGet fun bench =>
    let body := Body.empty.append code
    let (body, nextLine) := match body.order with
      | first :: _ => (body.addPoint (.onLine first document bench.nextLine), bench.nextLine + 4)
      | [] => (body, bench.nextLine)
    let (id, graph) := bench.graph.addMethod decl
    (id, { graph, nextLine
           target := { bench.target with methods := bench.target.methods ++ [{ id, body := some body }] } })

/-- adds a method without parameters that returns nothing -/
def method (name : String) (flags : MethodFlags) (code : List Instruction) : Build MethodId := do
  declare { declaring := (← get).target.id, name := ⟨name⟩, flags } code

/-- adds a method without parameters that returns a value -/
def property (name : String) (type : TypeRef) (code : List Instruction) : Build MethodId := do
  declare { declaring := (← get).target.id, name := ⟨name⟩, flags := propertyFlags, returns := some type } code

/-- adds a method that only records an event -/
def recordingMethod (around : Surroundings) (name : String) (flags : MethodFlags) (event : String) :
    Build MethodId := do
  method name flags (recording (← get).graph around event ++ [.ret])

/-- adds a constructor that runs a base constructor and then the given code -/
def constructorAfter (base : MethodId) (flags : MethodFlags) (code : List Instruction) : Build MethodId := do
  method MemberName.constructor.text flags ([.ldarg 0, .call (.direct (← get).graph base)] ++ code ++ [.ret])

/-- adds a public constructor that runs the root's constructor and then the given code -/
def defaultConstructor (around : Surroundings) (code : List Instruction) : Build MethodId :=
  constructorAfter around.platform.objectConstructor MethodFlags.ofConstructor code

/-- adds a public constructor that fills a field with a fresh stream -/
def streamConstructor (around : Surroundings) (f : FieldId) : Build MethodId := do
  defaultConstructor around (assignStream (← get).graph around f)

/-- adds an empty disposal -/
def emptyDispose : Build MethodId :=
  method MemberName.dispose.text MethodFlags.ofImplementation [.nop, .ret]

/-- adds a disposal that records an event named after the type -/
def disposeWithCode (around : Surroundings) : Build MethodId := do
  let bench ← get
  let event := (bench.graph.type bench.target.id).name.simple ++ ".Dispose"
  recordingMethod around MemberName.dispose.text MethodFlags.ofImplementation event

/-- the definition that has been built -/
def finished : Build TypeDef := return (← get).target

end DisposalWeaver.Showcase
