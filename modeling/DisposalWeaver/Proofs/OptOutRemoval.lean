/-
How much of the opt-out vocabulary cleaning removes.

Cleaning takes away nothing but the vocabulary, and keeps everything else in order (`OptOut.purge_clean`). It takes away
all of it exactly where the vocabulary is in its place: markers of namespaces on the module, markers of weaving on types
and fields, none on methods, and no more than one reference to the assembly that declares them (`OptOut.clean_free_iff`).
A second reference stays, since each cleaning takes one (`OptOut.countP_references_clean`), and so does a marker in
another place (`OptOut.strays_left`).
-/
import DisposalWeaver.Proofs.WovenModule

namespace DisposalWeaver

namespace OptOut

variable {g : TypeGraph} {settings : Settings} {module : Module}

/-! ## The vocabulary -/

/-- is it a marker that only means something to the weaver? -/
def isVocabulary (g : TypeGraph) (settings : Settings) (marker : Marker) : Bool :=
  marker.isNamed g settings.skipMarker || marker.isNamed g settings.skipNamespaceMarker

/-- the markers that mean something to others, in order -/
def others (g : TypeGraph) (settings : Settings) (markers : List Marker) : List Marker :=
  markers.filter fun marker => !isVocabulary g settings marker

/-- the type with such markers only, on itself and on its members -/
def purgeType (g : TypeGraph) (settings : Settings) (t : TypeDef) : TypeDef :=
  { t with
    markers := others g settings t.markers
    fields := t.fields.map fun f => { f with markers := others g settings f.markers }
    methods := t.methods.map fun m => { m with markers := others g settings m.markers } }

/-- the module without the vocabulary and without any reference to the assembly that declares it -/
def purge (g : TypeGraph) (settings : Settings) (module : Module) : Module :=
  { module with
    references := module.references.filter fun reference => !(reference.name == settings.markerAssembly)
    markers := others g settings module.markers
    types := module.types.map (purgeType g settings) }

/-- nothing of the vocabulary is left, at any level -/
structure Free (g : TypeGraph) (settings : Settings) (module : Module) : Prop where
  markers : ∀ marker ∈ module.markers, isVocabulary g settings marker = false
  types : ∀ t ∈ module.types, ∀ marker ∈ t.markers, isVocabulary g settings marker = false
  fields : ∀ t ∈ module.types, ∀ f ∈ t.fields, ∀ marker ∈ f.markers, isVocabulary g settings marker = false
  methods : ∀ t ∈ module.types, ∀ m ∈ t.methods, ∀ marker ∈ m.markers, isVocabulary g settings marker = false
  references : module.references.countP (fun reference => reference.name == settings.markerAssembly) = 0

/-- the vocabulary is where cleaning looks for it -/
structure InPlace (g : TypeGraph) (settings : Settings) (module : Module) : Prop where
  markers : ∀ marker ∈ module.markers,
    marker.isNamed g settings.skipMarker = true → marker.isNamed g settings.skipNamespaceMarker = true
  types : ∀ t ∈ module.types, ∀ marker ∈ t.markers,
    marker.isNamed g settings.skipNamespaceMarker = true → marker.isNamed g settings.skipMarker = true
  fields : ∀ t ∈ module.types, ∀ f ∈ t.fields, ∀ marker ∈ f.markers,
    marker.isNamed g settings.skipNamespaceMarker = true → marker.isNamed g settings.skipMarker = true
  methods : ∀ t ∈ module.types, ∀ m ∈ t.methods, ∀ marker ∈ m.markers, isVocabulary g settings marker = false
  references : module.references.countP (fun reference => reference.name == settings.markerAssembly) ≤ 1

/-! ## References -/

theorem filter_eraseP {α : Type} (p : α → Bool) (xs : List α) :
    (xs.eraseP p).filter (fun x => !p x) = xs.filter fun x => !p x := by
  induction xs with
  | nil => rfl
  | cons x xs ih =>
    by_cases h : p x = true
    · rw [List.eraseP_cons_of_pos h, List.filter_cons_of_neg (by simp [h])]
    · rw [List.eraseP_cons_of_neg h, List.filter_cons_of_pos (by simp [h]), List.filter_cons_of_pos (by simp [h]), ih]

theorem countP_eraseP {α : Type} (p : α → Bool) (xs : List α) : (xs.eraseP p).countP p = xs.countP p - 1 := by
  induction xs with
  | nil => rfl
  | cons x xs ih =>
    by_cases h : p x = true
    · rw [List.eraseP_cons_of_pos h, List.countP_cons_of_pos h, Nat.add_sub_cancel]
    · rw [List.eraseP_cons_of_neg h, List.countP_cons_of_neg h, List.countP_cons_of_neg h, ih]

/-- the first reference to the assembly is taken away, if there is one -/
theorem references_clean (g : TypeGraph) (settings : Settings) (module : Module) :
    (clean g settings module).1.references =
      module.references.eraseP fun reference => reference.name == settings.markerAssembly := by
  unfold clean
  dsimp only
  split
  · rfl
  · next hnone =>
    refine (List.eraseP_of_forall_not fun reference hreference hname => hnone ?_).symm
    exact List.any_eq_true.2 ⟨reference, hreference, hname⟩

/-- **Each cleaning takes one reference** to the assembly, as long as there is one. -/
theorem countP_references_clean (g : TypeGraph) (settings : Settings) (module : Module) :
    (clean g settings module).1.references.countP (fun reference => reference.name == settings.markerAssembly) =
      module.references.countP (fun reference => reference.name == settings.markerAssembly) - 1 := by
  rw [references_clean]
  exact countP_eraseP _ module.references

/-! ## What is kept -/

theorem name_clean (g : TypeGraph) (settings : Settings) (module : Module) :
    (clean g settings module).1.name = module.name := by
  unfold clean
  dsimp only
  split <;> rfl

/-- markers of either name are not among the others anyway -/
theorem others_without {name : QualifiedName} (hname : name = settings.skipMarker ∨ name = settings.skipNamespaceMarker)
    (markers : List Marker) : others g settings (without g name markers) = others g settings markers := by
  rw [others, without, List.filter_filter]
  refine List.filter_congr fun marker _ => ?_
  rcases hname with rfl | rfl
  · cases h : marker.isNamed g settings.skipMarker <;> simp [isVocabulary, h]
  · cases h : marker.isNamed g settings.skipNamespaceMarker <;> simp [isVocabulary, h]

theorem purgeType_strip (t : TypeDef) : purgeType g settings (strip g settings t) = purgeType g settings t := by
  simp only [purgeType, strip, others_without (.inl rfl), List.map_map, Function.comp_def]

/-- **Cleaning takes away nothing but the vocabulary**: every other marker and reference is kept, in its order. -/
theorem purge_clean (g : TypeGraph) (settings : Settings) (module : Module) :
    purge g settings (clean g settings module).1 = purge g settings module := by
  have hreferences : (clean g settings module).1.references.filter
        (fun reference => !(reference.name == settings.markerAssembly)) =
      module.references.filter fun reference => !(reference.name == settings.markerAssembly) := by
    rw [references_clean]
    exact filter_eraseP _ module.references
  have hmarkers : others g settings (clean g settings module).1.markers = others g settings module.markers := by
    rw [markers_clean]
    exact others_without (.inr rfl) module.markers
  have htypes : (clean g settings module).1.types.map (purgeType g settings) =
      module.types.map (purgeType g settings) := by
    rw [types_clean, List.map_map]
    exact List.map_congr_left fun t _ => purgeType_strip t
  simp only [purge, hreferences, hmarkers, htypes, name_clean]

/-! ## What is removed -/

/-- after the markers of a name are taken away, none of the vocabulary is left if all of it had that name -/
theorem without_free_iff {name : QualifiedName} {markers : List Marker} :
    (∀ marker ∈ without g name markers, isVocabulary g settings marker = false) ↔
      ∀ marker ∈ markers, isVocabulary g settings marker = true → marker.isNamed g name = true := by
  simp only [without, List.mem_filter, Bool.not_eq_true', and_imp]
  constructor
  · intro h marker hmarker hvocabulary
    by_contra hother
    have hfree := h marker hmarker (Bool.not_eq_true _ ▸ hother)
    rw [hvocabulary] at hfree
    cases hfree
  · intro h marker hmarker hother
    by_contra hvocabulary
    rw [h marker hmarker (Bool.not_eq_false _ ▸ hvocabulary)] at hother
    cases hother

theorem skipNamespace_free_iff {markers : List Marker} :
    (∀ marker ∈ without g settings.skipNamespaceMarker markers, isVocabulary g settings marker = false) ↔
      ∀ marker ∈ markers, marker.isNamed g settings.skipMarker = true →
        marker.isNamed g settings.skipNamespaceMarker = true := by
  rw [without_free_iff]
  refine forall₂_congr fun marker _ => ?_
  rw [isVocabulary, Bool.or_eq_true]
  exact ⟨fun h hskip => h (.inl hskip), fun h hany => hany.elim h id⟩

theorem skip_free_iff {markers : List Marker} :
    (∀ marker ∈ without g settings.skipMarker markers, isVocabulary g settings marker = false) ↔
      ∀ marker ∈ markers, marker.isNamed g settings.skipNamespaceMarker = true →
        marker.isNamed g settings.skipMarker = true := by
  rw [without_free_iff]
  refine forall₂_congr fun marker _ => ?_
  rw [isVocabulary, Bool.or_eq_true]
  exact ⟨fun h hskip => h (.inr hskip), fun h hany => hany.elim id h⟩

/-- **Cleaning removes the whole vocabulary if it is in its place**, and only then. -/
theorem clean_free_iff (g : TypeGraph) (settings : Settings) (module : Module) :
    Free g settings (clean g settings module).1 ↔ InPlace g settings module := by
  have hreferences := countP_references_clean g settings module
  constructor
  · intro h
    have htypes := h.types
    have hfields := h.fields
    have hmethods := h.methods
    rw [types_clean] at htypes hfields hmethods
    simp only [List.forall_mem_map, strip] at htypes hfields hmethods
    exact {
      markers := skipNamespace_free_iff.1 (markers_clean g settings module ▸ h.markers)
      types := fun t ht => skip_free_iff.1 (htypes t ht)
      fields := fun t ht f hf => skip_free_iff.1 (hfields t ht f hf)
      methods := hmethods
      references := by
        have hnone := h.references
        omega }
  · intro h
    exact {
      markers := by
        rw [markers_clean]
        exact skipNamespace_free_iff.2 h.markers
      types := by
        rw [types_clean, List.forall_mem_map]
        exact fun t ht => skip_free_iff.2 (h.types t ht)
      fields := by
        rw [types_clean, List.forall_mem_map]
        intro t ht
        simp only [strip, List.forall_mem_map]
        exact fun f hf => skip_free_iff.2 (h.fields t ht f hf)
      methods := by
        rw [types_clean, List.forall_mem_map]
        exact fun t ht => h.methods t ht
      references := by
        have hone := h.references
        omega }

theorem others_eq {markers : List Marker} (h : ∀ marker ∈ markers, isVocabulary g settings marker = false) :
    others g settings markers = markers :=
  List.filter_eq_self.2 fun marker hmarker => by rw [h marker hmarker]; rfl

theorem Free.purgeType_eq (h : Free g settings module) {t : TypeDef} (ht : t ∈ module.types) :
    purgeType g settings t = t := by
  have hfields : t.fields.map (fun f => { f with markers := others g settings f.markers }) = t.fields :=
    calc t.fields.map (fun f => { f with markers := others g settings f.markers })
        = t.fields.map id := List.map_congr_left fun f hf => by rw [others_eq (h.fields t ht f hf)]; rfl
      _ = t.fields := List.map_id t.fields
  have hmethods : t.methods.map (fun m => { m with markers := others g settings m.markers }) = t.methods :=
    calc t.methods.map (fun m => { m with markers := others g settings m.markers })
        = t.methods.map id := List.map_congr_left fun m hm => by rw [others_eq (h.methods t ht m hm)]; rfl
      _ = t.methods := List.map_id t.methods
  rw [purgeType, hfields, hmethods, others_eq (h.types t ht)]

/-- where nothing of the vocabulary is left, there is nothing to purge -/
theorem Free.purge_eq (h : Free g settings module) : purge g settings module = module := by
  have hreferences : module.references.filter (fun reference => !(reference.name == settings.markerAssembly)) =
      module.references := by
    refine List.filter_eq_self.2 fun reference hreference => ?_
    rw [Bool.not_eq_true', ← Bool.not_eq_true]
    exact List.countP_eq_zero.1 h.references reference hreference
  have htypes : module.types.map (purgeType g settings) = module.types :=
    calc module.types.map (purgeType g settings)
        = module.types.map id := List.map_congr_left fun t ht => h.purgeType_eq ht
      _ = module.types := List.map_id module.types
  rw [purge, hreferences, htypes, others_eq h.markers]

/-- a module with the vocabulary in its place comes out of cleaning without it, and otherwise as it was -/
theorem clean_eq_purge (h : InPlace g settings module) : (clean g settings module).1 = purge g settings module :=
  calc (clean g settings module).1
      = purge g settings (clean g settings module).1 := ((clean_free_iff g settings module).2 h).purge_eq.symm
    _ = purge g settings module := purge_clean g settings module

/-! ## Strays -/

/-- the platform, the types of the two markers, and a class with a method -/
def strayGraph : TypeGraph :=
  let (_, g) := Platform.alone.2.addType
    (.ofClass ({} : Settings).skipMarker Platform.alone.1.attributeBase TypeFlags.public_)
  let (_, g) := g.addType
    (.ofClass ({} : Settings).skipNamespaceMarker Platform.alone.1.attributeBase TypeFlags.public_)
  let (plain, g) := g.addType (.ofClass ⟨"Plain"⟩ Platform.alone.1.object TypeFlags.public_)
  (g.addMethod { declaring := plain, name := ⟨"Run"⟩, flags := MethodFlags.public_ }).2

/-- marker of weaving -/
def skip : Marker := { type := ⟨21⟩ }

/-- marker of a namespace -/
def skipLegacy : Marker := { type := ⟨22⟩, arguments := [.string "Legacy"] }

/-- a module with both markers on itself and on a type, one on a method, and two references to their assembly -/
def strays : Module where
  name := "Strays"
  references := [⟨"Janitor", "1.0.0.0"⟩, ⟨"System.Runtime", "8.0.0.0"⟩, ⟨"Janitor", "2.0.0.0"⟩]
  markers := [skipLegacy, skip]
  types := [{ id := ⟨23⟩, markers := [skip, skipLegacy], methods := [{ id := ⟨16⟩, markers := [skip] }] }]

/-- the second reference stays, and so does each marker where it is not looked for -/
theorem strays_left : (clean strayGraph {} strays).1 =
      { name := "Strays"
        references := [⟨"System.Runtime", "8.0.0.0"⟩, ⟨"Janitor", "2.0.0.0"⟩]
        markers := [skip]
        types := [{ id := ⟨23⟩, markers := [skipLegacy], methods := [{ id := ⟨16⟩, markers := [skip] }] }] } ∧
    ¬ Free strayGraph {} (clean strayGraph {} strays).1 := by
  refine ⟨by decide +kernel, fun h => ?_⟩
  have htwice : strays.references.countP (fun reference => reference.name == ({} : Settings).markerAssembly) = 2 := by
    decide
  have hone := ((clean_free_iff strayGraph {} strays).1 h).references
  omega

end OptOut

end DisposalWeaver
