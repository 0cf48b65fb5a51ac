/-
The platform library: the types and members that woven code and the machine rely on.

`insert` declares them in one fixed order and hands back where each of them is. On an empty graph every one of them is
the first type of its name, so it is what the name will mean for as long as the graph lives.
-/
import DisposalWeaver.TypeGraph.Basic

namespace DisposalWeaver

/-- places of the platform's types and members -/
structure Platform where
  object : TypeId
  valueType : TypeId
  enumeration : TypeId
  boolean : TypeId
  int32 : TypeId
  string : TypeId
  attributeBase : TypeId
  exception : TypeId
  invalidOperationException : TypeId
  objectDisposedException : TypeId
  notImplementedException : TypeId
  disposable : TypeId
  collector : TypeId
  interlocked : TypeId
  task : TypeId
  taskOfResult : TypeId
  taskCompletionSource : TypeId
  stream : TypeId
  memoryStream : TypeId
  compilerGenerated : TypeId
  generatedCode : TypeId
  objectConstructor : MethodId
  objectFinalize : MethodId
  disposableDispose : MethodId
  suppressFinalize : MethodId
  /-- exchange of an integer in a place -/
  exchangeInt32 : MethodId
  /-- exchange of a reference of any type in a place -/
  exchangeReference : MethodId
  exceptionConstructor : MethodId
  exceptionMessage : MethodId
  invalidOperationConstructor : MethodId
  objectDisposedConstructor : MethodId
  notImplementedConstructor : MethodId
  taskConstructor : MethodId
  taskDispose : MethodId
  streamConstructor : MethodId
  streamDispose : MethodId
  memoryStreamConstructor : MethodId
  deriving DecidableEq, Repr

namespace TypeGraph

/-- declares a type in the graph at hand -/
def declareType (decl : TypeDecl) : StateM TypeGraph TypeId := modifyGet fun g => g.addType decl

/-- lists an interface on a type of the graph at hand -/
def declareInterface (t interface : TypeId) : StateM TypeGraph Unit := modify fun g => g.addInterface t interface

/-- declares a method in the graph at hand -/
def declareMethod (decl : MethodDecl) : StateM TypeGraph MethodId := modifyGet fun g => g.addMethod decl

/-- declares a field in the graph at hand -/
def declareField (decl : FieldDecl) : StateM TypeGraph FieldId := modifyGet fun g => g.addField decl

end TypeGraph

namespace MethodFlags

/-- public constructor -/
def ofConstructor : MethodFlags := public_ ||| hideBySignature ||| specialName ||| runtimeSpecialName

/-- constructor for derived types only -/
def ofFamilyConstructor : MethodFlags := family ||| hideBySignature ||| specialName ||| runtimeSpecialName

/-- public method that fills an interface's slot and is not overridden -/
def ofImplementation : MethodFlags := public_ ||| final ||| virtual ||| hideBySignature ||| newSlot

/-- method of an interface -/
def ofInterface : MethodFlags := public_ ||| virtual ||| abstract_ ||| newSlot ||| hideBySignature

/-- redefinition of the root's finalizer -/
def ofFinalizer : MethodFlags := family ||| virtual ||| hideBySignature

/-- public static method -/
def ofStatic : MethodFlags := public_ ||| static ||| hideBySignature

/-- private method -/
def ofPrivate : MethodFlags := private_ ||| hideBySignature

end MethodFlags

namespace Platform

open TypeGraph

/-- declares the platform in the graph at hand -/
def declare : StateM TypeGraph Platform := do
  let plain := TypeFlags.public_ ||| TypeFlags.beforeFieldInit
  let «sealed» := plain ||| TypeFlags.sealed
  let static := «sealed» ||| TypeFlags.abstract_
  let object ← declareType (.root QualifiedName.object plain)
  let valueType ← declareType (.ofClass QualifiedName.valueType object (plain ||| TypeFlags.abstract_))
  let enumeration ← declareType (.ofClass QualifiedName.enumeration valueType (plain ||| TypeFlags.abstract_))
  let boolean ← declareType (.ofClass QualifiedName.boolean valueType «sealed»)
  let int32 ← declareType (.ofClass QualifiedName.int32 valueType «sealed»)
  let string ← declareType (.ofClass QualifiedName.string object «sealed»)
  let attributeBase ← declareType (.ofClass QualifiedName.attributeBase object (plain ||| TypeFlags.abstract_))
  let exception ← declareType (.ofClass QualifiedName.exception object plain)
  let invalidOperationException ←
    declareType (.ofClass QualifiedName.invalidOperationException exception plain)
  let objectDisposedException ←
    declareType (.ofClass QualifiedName.objectDisposedException invalidOperationException plain)
  let notImplementedException ← declareType (.ofClass QualifiedName.notImplementedException exception plain)
  let disposable ← declareType (.ofInterface QualifiedName.disposable)
  let collector ← declareType (.ofClass QualifiedName.collector object static)
  let interlocked ← declareType (.ofClass QualifiedName.interlocked object static)
  let task ← declareType (.ofClass QualifiedName.task object plain)
  let result : GenericParameter := { name := ⟨"TResult"⟩ }
  let taskOfResult ←
    declareType { TypeDecl.ofClass QualifiedName.taskOfResult task plain with generics := [result] }
  let taskCompletionSource ←
    declareType { TypeDecl.ofClass QualifiedName.taskCompletionSource object plain with generics := [result] }
  let stream ← declareType (.ofClass QualifiedName.stream object (plain ||| TypeFlags.abstract_))
  let memoryStream ← declareType (.ofClass QualifiedName.memoryStream stream plain)
  let compilerGenerated ← declareType (.ofClass QualifiedName.compilerGenerated attributeBase «sealed»)
  let generatedCode ← declareType (.ofClass QualifiedName.generatedCode attributeBase «sealed»)
  declareInterface task disposable
  declareInterface stream disposable
  let constructorOf (declaring : TypeId) : MethodDecl :=
    { declaring, name := MemberName.constructor, flags := MethodFlags.ofConstructor }
  let disposeOf (declaring : TypeId) (flags : MethodFlags) : MethodDecl :=
    { declaring, name := MemberName.dispose, flags }
  let text (name : String) : Parameter := { name := ⟨name⟩, type := .named string }
  let objectConstructor ← declareMethod (constructorOf object)
  let objectFinalize ←
    declareMethod { declaring := object, name := MemberName.finalize, flags := MethodFlags.ofFinalizer }
  let disposableDispose ← declareMethod (disposeOf disposable MethodFlags.ofInterface)
  let suppressFinalize ← declareMethod {
    declaring := collector, name := MemberName.suppressFinalize, flags := MethodFlags.ofStatic
    parameters := [{ name := ⟨"obj"⟩, type := .named object }] }
  let exchangeInt32 ← declareMethod {
    declaring := interlocked, name := MemberName.exchange, flags := MethodFlags.ofStatic
    parameters :=
      [{ name := ⟨"location1"⟩, type := .byRef (.named int32) }, { name := ⟨"value"⟩, type := .named int32 }]
    returns := some (.named int32) }
  let exchangeReference ← declareMethod {
    declaring := interlocked, name := MemberName.exchange, flags := MethodFlags.ofStatic
    generics := [{ name := ⟨"T"⟩, flags := GenericFlags.referenceType }]
    parameters :=
      [{ name := ⟨"location1"⟩, type := .byRef (.methodParameter 0) }, { name := ⟨"value"⟩, type := .methodParameter 0 }]
    returns := some (.methodParameter 0) }
  let exceptionConstructor ← declareMethod { constructorOf exception with parameters := [text "message"] }
  let exceptionMessage ← declareMethod {
    declaring := exception, name := MemberName.getMessage
    flags := MethodFlags.public_ ||| MethodFlags.virtual ||| MethodFlags.hideBySignature ||| MethodFlags.specialName
    returns := some (.named string) }
  let invalidOperationConstructor ←
    declareMethod { constructorOf invalidOperationException with parameters := [text "message"] }
  let objectDisposedConstructor ←
    declareMethod { constructorOf objectDisposedException with parameters := [text "objectName"] }
  let notImplementedConstructor ← declareMethod (constructorOf notImplementedException)
  let taskConstructor ← declareMethod (constructorOf task)
  let taskDispose ← declareMethod (disposeOf task MethodFlags.ofImplementation)
  let streamConstructor ← declareMethod { constructorOf stream with flags := MethodFlags.ofFamilyConstructor }
  let streamDispose ← declareMethod (disposeOf stream MethodFlags.ofImplementation)
  let memoryStreamConstructor ← declareMethod (constructorOf memoryStream)
  return {
    object, valueType, enumeration, boolean, int32, string, attributeBase, exception, invalidOperationException
    objectDisposedException, notImplementedException, disposable, collector, interlocked, task, taskOfResult
    taskCompletionSource, stream, memoryStream, compilerGenerated, generatedCode, objectConstructor, objectFinalize
    disposableDispose, suppressFinalize, exchangeInt32, exchangeReference, exceptionConstructor, exceptionMessage
    invalidOperationConstructor, objectDisposedConstructor, notImplementedConstructor, taskConstructor, taskDispose
    streamConstructor, streamDispose, memoryStreamConstructor }

end Platform

/-- adds the platform to a graph -/
def TypeGraph.insertPlatform (g : TypeGraph) : Platform × TypeGraph :=
  Platform.declare.run g

end DisposalWeaver
