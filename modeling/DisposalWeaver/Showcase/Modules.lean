/-
The two showcase modules, over one graph: one that weaves without errors, and one in which every woven type breaks a rule.
-/
import DisposalWeaver.Showcase.Invalid
import DisposalWeaver.Showcase.Valid

namespace DisposalWeaver

/-- graph, platform and both modules -/
structure Showcase where
  graph : TypeGraph
  platform : Platform
  valid : Module
  invalid : Module
  deriving DecidableEq, Repr

namespace Showcase

/-- namespace that a marker on the valid module excludes -/
def skippedNamespace : String := "Legacy"

/-- declares the platform, the opt-out markers and the method that the host provides -/
def declareSurroundings : StateM TypeGraph (Surroundings × TypeId) := do
  let platform ← Platform.declare
  let skipMarker ←
    TypeGraph.declareType (.ofClass ⟨"Janitor.SkipWeaving"⟩ platform.attributeBase sealedFlags)
  let skipNamespaceMarker ←
    TypeGraph.declareType (.ofClass ⟨"Janitor.SkipWeavingNamespace"⟩ platform.attributeBase sealedFlags)
  let events ←
    TypeGraph.declareType (.ofClass ⟨"Samples.Events"⟩ platform.object (sealedFlags ||| TypeFlags.abstract_))
  let recordEvent ← TypeGraph.declareMethod
    { declaring := events, name := ⟨"Record"⟩, flags := publicFlags ||| MethodFlags.static
      parameters := [{ name := ⟨"message"⟩, type := .named platform.string }] }
  return ({ platform, skipMarker, skipNamespaceMarker, recordEvent }, events)

/-- builds both modules over an empty graph -/
def build : Showcase :=
  let ((around, events), graph) := declareSurroundings.run TypeGraph.empty
  let eventsDefinition : TypeDef := { id := events, methods := [{ id := around.recordEvent }] }
  let (valid, bench) := (validTypes around).run { graph, nextLine := 1, target := eventsDefinition }
  let (invalid, bench) := (invalidTypes around).run bench
  { graph := bench.graph
    platform := around.platform
    valid := {
      name := "Samples.dll"
      references := [{ name := "System.Runtime", version := "4.2.2.0" }, { name := "Janitor", version := "1.0.0.0" }]
      markers := [{ type := around.skipNamespaceMarker, arguments := [.string skippedNamespace] }]
      types := eventsDefinition :: valid }
    invalid := {
      name := "Invalid.dll"
      references := [{ name := "Janitor", version := "1.0.0.0" }]
      types := invalid } }

end Showcase

end DisposalWeaver
