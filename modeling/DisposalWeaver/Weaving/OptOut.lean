/-
Removing the opt-out vocabulary: markers that only mean something to the weaver, and the reference to their assembly.
-/
import DisposalWeaver.Weaving.Diagnostics
import DisposalWeaver.Weaving.Settings
import DisposalWeaver.Module

namespace DisposalWeaver.OptOut

/-- the markers other than those of the given name -/
def without (g : TypeGraph) (name : QualifiedName) (markers : List Marker) : List Marker :=
  markers.filter fun marker => !marker.isNamed g name

/-- the type without opt-out markers on itself and on its fields -/
def strip (g : TypeGraph) (settings : Settings) (t : TypeDef) : TypeDef :=
  { t with
    markers := without g settings.skipMarker t.markers
    fields := t.fields.map fun f => { f with markers := without g settings.skipMarker f.markers } }

/-- the module without opt-out markers and without the first reference to the assembly that declares them, and whether
there was such a reference -/
def clean (g : TypeGraph) (settings : Settings) (module : Module) : Module × Notice :=
  let stripped := { module with
    markers := without g settings.skipNamespaceMarker module.markers
    types := module.types.map (strip g settings) }
  if module.hasReference settings.markerAssembly then
    ({ stripped with
        references := module.references.eraseP fun reference => reference.name == settings.markerAssembly },
      .referenceRemoved settings.markerAssembly)
  else (stripped, .referenceNotFound settings.markerAssembly)

end DisposalWeaver.OptOut
