/-
Turns under a renumbering.

A type is woven by looking at what it declares itself and at what no turn changes, so its turn comes to the same wherever
the graph has got to by then, in other places. `Loom.Mirrors` relates a loom to one over a graph where other types have
gained members first; declaring a member, replacing a body and noting something keep to it, and so does each step of
weaving (`supplyHook_mirrors`, `Loom.Mirrors.state`, `synthesize_mirrors`, `injectGuards_mirrors`). Main statement:
`weaveDefinition_mirrors`.
-/
import DisposalWeaver.Proofs.RenumberedCode

namespace DisposalWeaver

/-! ## Declaring a member in both graphs -/

namespace TypeGraph.Mirrors

variable {g G H : TypeGraph} {ρ : Renumbering}

section

variable (hm : g.Mirrors ρ G H)

include hm

theorem types : H.types.size = G.types.size := hm.right.types.trans hm.left.types.symm

theorem next_method : ρ.method ⟨G.methods.size⟩ = ⟨H.methods.size⟩ := hm.nextMethod 0

theorem next_field : ρ.field ⟨G.fields.size⟩ = ⟨H.fields.size⟩ := hm.nextField 0

/-- what is declared in the one graph is declared in the other -/
theorem method_lt {m : MethodId} (hlt : m.index < G.methods.size) : (ρ.method m).index < H.methods.size := by
  by_contra hle
  obtain ⟨k, hk⟩ := Nat.exists_eq_add_of_le (Nat.not_lt.1 hle)
  have hplace : ρ.method m = ρ.method ⟨G.methods.size + k⟩ := (congrArg MethodId.mk hk).trans (hm.nextMethod k).symm
  have hsame : m.index = G.methods.size + k := congrArg MethodId.index (ρ.method_injective hplace)
  omega

theorem field_lt {f : FieldId} (hlt : f.index < G.fields.size) : (ρ.field f).index < H.fields.size := by
  by_contra hle
  obtain ⟨k, hk⟩ := Nat.exists_eq_add_of_le (Nat.not_lt.1 hle)
  have hplace : ρ.field f = ρ.field ⟨G.fields.size + k⟩ := (congrArg FieldId.mk hk).trans (hm.nextField k).symm
  have hsame : f.index = G.fields.size + k := congrArg FieldId.index (ρ.field_injective hplace)
  omega

theorem addField (decl : FieldDecl) : g.Mirrors ρ (G.addField decl).2 (H.addField decl).2 where
  fixes := hm.fixes
  left := hm.left.trans (gains_addField G decl)
  right := hm.right.trans (gains_addField H decl)
  method := hm.method
  field f hlt := by
    rcases Nat.lt_or_ge f.index G.fields.size with hold | hnew
    · rw [field_addField _ _ _ (hm.field_lt hold), field_addField _ _ _ hold, hm.field f hold]
    · have hlast : f = ⟨G.fields.size⟩ := by
        simp only [TypeGraph.addField, Array.size_push] at hlt
        exact congrArg FieldId.mk (by omega)
      rw [hlast, hm.next_field, field_addField_new, field_addField_new]
  nextMethod := hm.nextMethod
  nextField k := by
    have hnext := hm.nextField (1 + k)
    simpa only [TypeGraph.addField, Array.size_push, Nat.add_assoc] using hnext

theorem addMethod {decl : MethodDecl} (hv : decl.isVirtual = true → decl.name = MemberName.finalize) :
    g.Mirrors ρ (G.addMethod decl).2 (H.addMethod decl).2 where
  fixes := hm.fixes
  left := hm.left.trans (gains_addMethod G decl hv)
  right := hm.right.trans (gains_addMethod H decl hv)
  method m hlt := by
    rcases Nat.lt_or_ge m.index G.methods.size with hold | hnew
    · rw [method_addMethod _ _ _ (hm.method_lt hold), method_addMethod _ _ _ hold, hm.method m hold]
    · have hlast : m = ⟨G.methods.size⟩ := by
        simp only [TypeGraph.addMethod, Array.size_push] at hlt
        exact congrArg MethodId.mk (by omega)
      rw [hlast, hm.next_method, method_addMethod_new, method_addMethod_new]
  field := hm.field
  nextMethod k := by
    have hnext := hm.nextMethod (1 + k)
    simpa only [TypeGraph.addMethod, Array.size_push, Nat.add_assoc] using hnext
  nextField := hm.nextField

theorem type_addField {t : TypeId} (ht : H.type t = (G.type t).renumber ρ) (decl : FieldDecl) :
    (H.addField decl).2.type t = ((G.addField decl).2.type t).renumber ρ := by
  rw [TypeGraph.type_addField, TypeGraph.type_addField, ht, hm.types]
  split <;> simp [TypeDecl.withMembers, TypeDecl.renumber, hm.next_field]

theorem type_addMethod {t : TypeId} (ht : H.type t = (G.type t).renumber ρ) (decl : MethodDecl) :
    (H.addMethod decl).2.type t = ((G.addMethod decl).2.type t).renumber ρ := by
  rw [TypeGraph.type_addMethod, TypeGraph.type_addMethod, ht, hm.types]
  split <;> simp [TypeDecl.withMembers, TypeDecl.renumber, hm.next_method]

end

end TypeGraph.Mirrors

theorem TypeDecl.Within.mono {g G : TypeGraph} {t : TypeDecl} (ht : t.Within g) (hmethods : g.methods.size ≤ G.methods.size)
    (hfields : g.fields.size ≤ G.fields.size) : t.Within G where
  methods m hm := Nat.lt_of_lt_of_le (ht.methods m hm) hmethods
  fields f hf := Nat.lt_of_lt_of_le (ht.fields f hf) hfields

/-- a type that gains a member lists declared members still -/
theorem TypeDecl.Within.addField {g : TypeGraph} {t : TypeId} (ht : (g.type t).Within g) (decl : FieldDecl) :
    ((g.addField decl).2.type t).Within (g.addField decl).2 := by
  have hold := ht.mono (G := (g.addField decl).2) (Nat.le_refl _) (by simp [TypeGraph.addField])
  rw [TypeGraph.type_addField]
  split
  · refine ⟨fun m hm => hold.methods m (by simpa [withMembers] using hm), fun f hf => ?_⟩
    rcases List.mem_append.1 hf with hf | hf
    · exact hold.fields f hf
    · rw [List.mem_singleton.1 hf]
      simp [TypeGraph.addField]
  · rwa [withMembers_nil]

theorem TypeDecl.Within.addMethod {g : TypeGraph} {t : TypeId} (ht : (g.type t).Within g) (decl : MethodDecl) :
    ((g.addMethod decl).2.type t).Within (g.addMethod decl).2 := by
  have hold := ht.mono (G := (g.addMethod decl).2) (by simp [TypeGraph.addMethod]) (Nat.le_refl _)
  rw [TypeGraph.type_addMethod]
  split
  · refine ⟨fun m hm => ?_, fun f hf => hold.fields f (by simpa [withMembers] using hf)⟩
    rcases List.mem_append.1 hm with hm | hm
    · exact hold.methods m hm
    · rw [List.mem_singleton.1 hm]
      simp [TypeGraph.addMethod]
  · rwa [withMembers_nil]

/-! ## What weaving looks at -/

namespace TypeGraph.Mirrors

variable {g G H : TypeGraph} {ρ : Renumbering} {references : References} {settings : Settings} {excluded : List FieldId}
  {t : TypeId}

section

variable (hm : g.Mirrors ρ G H)

include hm

theorem fate {f : FieldDef} (hf : f.id.index < G.fields.size) :
    Selection.fate H references settings (excluded.map ρ.field) (f.renumber ρ) =
      Selection.fate G references settings excluded f := by
  have hexcluded : (excluded.map ρ.field).contains (ρ.field f.id) = excluded.contains f.id := by
    simp only [List.contains_eq_mem, List.mem_map_of_injective ρ.field_injective]
  have hskipped : Selection.isSkipped H settings f.markers = Selection.isSkipped G settings f.markers := by
    rw [hm.right.isSkipped, hm.left.isSkipped]
  have hfate : Selection.fateOf H references (G.field f.id) = Selection.fateOf G references (G.field f.id) := by
    rw [hm.right.fateOf, hm.left.fateOf]
  simp only [Selection.fate, FieldDef.renumber, hexcluded, hskipped, hm.field f.id hf, hfate]

theorem disposedFields {fields : List FieldDef} (hf : ∀ f ∈ fields, f.id.index < G.fields.size) :
    Selection.disposedFields H references settings (excluded.map ρ.field) (fields.map (FieldDef.renumber ρ)) =
      (Selection.disposedFields G references settings excluded fields).map ρ.field := by
  unfold Selection.disposedFields
  rw [List.filter_map, List.map_map, List.map_map]
  have hfilter : fields.filter ((fun f => decide (Selection.fate H references settings (excluded.map ρ.field) f = .disposed)) ∘
      FieldDef.renumber ρ) = fields.filter fun f => Selection.fate G references settings excluded f = .disposed :=
    List.filter_congr fun f hmem => by rw [Function.comp_apply, hm.fate (hf f hmem)]
  rw [hfilter]
  rfl

theorem reports {fields : List FieldDef} (hf : ∀ f ∈ fields, f.id.index < G.fields.size) :
    Selection.reports H references settings (excluded.map ρ.field) (fields.map (FieldDef.renumber ρ)) =
      Selection.reports G references settings excluded fields := by
  unfold Selection.reports
  rw [List.filterMap_map]
  exact List.filterMap_congr fun f hmem => by rw [Function.comp_apply, hm.fate (hf f hmem)]

theorem isFinalizer (m : MethodDecl) : m.isFinalizer H = m.isFinalizer G := by
  simp only [MethodDecl.isFinalizer, hm.hasSignature]

theorem hook? (ht : H.type t = (G.type t).renumber ρ) (hl : (G.type t).Within G) (name : MemberName) :
    Selection.hook? H t name = (Selection.hook? G t name).map ρ.method := by
  unfold Selection.hook?
  rw [ht, TypeDecl.renumber, List.find?_map]
  congr 1
  refine List.find?_congr fun m hmem => ?_
  rw [Function.comp_apply, hm.method m (hl.methods m hmem), hm.hasSignature]

theorem declaresFinalizer (ht : H.type t = (G.type t).renumber ρ) (hl : (G.type t).Within G) :
    ((H.type t).methods.any fun m => (H.method m).isFinalizer H) =
      (G.type t).methods.any fun m => (G.method m).isFinalizer G := by
  rw [ht, TypeDecl.renumber, List.any_map, Bool.eq_iff_iff, List.any_eq_true, List.any_eq_true]
  refine exists_congr fun m => and_congr_right fun hmem => ?_
  rw [Function.comp_apply, hm.method m (hl.methods m hmem), hm.isFinalizer]

end

end TypeGraph.Mirrors

/-! ## Changing definitions -/

theorem MethodDef.changeFirst_renumber {ρ : Renumbering} {change change' : MethodDef → MethodDef}
    (h : ∀ d, (change d).renumber ρ = change' (d.renumber ρ)) (m : MethodId) (definitions : List MethodDef) :
    changeFirst (ρ.method m) change' (definitions.map (MethodDef.renumber ρ)) =
      (changeFirst m change definitions).map (MethodDef.renumber ρ) := by
  induction definitions with
  | nil => rfl
  | cons d rest ih =>
    have hsame : (d.renumber ρ).id = ρ.method m ↔ d.id = m := ρ.method_injective.eq_iff
    simp only [List.map_cons, changeFirst, hsame]
    split
    · rw [List.map_cons, h]
    · rw [List.map_cons, ih]

theorem MethodDef.mem_changeFirst {change : MethodDef → MethodDef} {m : MethodId} {d : MethodDef}
    {definitions : List MethodDef} (h : d ∈ changeFirst m change definitions) :
    d ∈ definitions ∨ ∃ d₀ ∈ definitions, d = change d₀ := by
  induction definitions with
  | nil => cases h
  | cons d₀ rest ih =>
    rw [changeFirst] at h
    split at h
    · rcases List.mem_cons.1 h with rfl | h
      · exact .inr ⟨d₀, List.mem_cons_self, rfl⟩
      · exact .inl (List.mem_cons_of_mem _ h)
    · rcases List.mem_cons.1 h with rfl | h
      · exact .inl List.mem_cons_self
      · rcases ih h with h | ⟨d₁, hd₁, rfl⟩
        · exact .inl (List.mem_cons_of_mem _ h)
        · exact .inr ⟨d₁, List.mem_cons_of_mem _ hd₁, rfl⟩

namespace TypeDef

variable {g G : TypeGraph} {ρ : Renumbering} {t : TypeDef} {change change' : MethodDef → MethodDef}

theorem id_updateMethod (t : TypeDef) (m : MethodId) : (t.updateMethod m change).id = t.id := by
  rw [updateMethod_first]

theorem renumber_updateMethod (h : ∀ d, (change d).renumber ρ = change' (d.renumber ρ)) (t : TypeDef) (m : MethodId) :
    (t.updateMethod m change).renumber ρ = (t.renumber ρ).updateMethod (ρ.method m) change' := by
  simp only [updateMethod_first, renumber, MethodDef.changeFirst_renumber h]

theorem Within.mono (ht : t.Within g) (hG : g.Gains G) : t.Within G where
  id := hG.types ▸ ht.id
  methods d hd := Nat.lt_of_lt_of_le (ht.methods d hd) hG.methods
  known d hd body hbody := (ht.known d hd body hbody).mono hG
  fields f hf := Nat.lt_of_lt_of_le (ht.fields f hf) hG.fields

theorem Within.updateMethod (ht : t.Within g) (m : MethodId) (hid : ∀ d, (change d).id = d.id)
    (hknown : ∀ d ∈ t.methods, ∀ body, (change d).body = some body → body.Known g) : (t.updateMethod m change).Within g := by
  rw [updateMethod_first]
  refine { ht with methods := fun d hd => ?_, known := fun d hd body hbody => ?_ }
  · rcases MethodDef.mem_changeFirst hd with hd | ⟨d₀, hd₀, rfl⟩
    · exact ht.methods d hd
    · rw [hid]
      exact ht.methods d₀ hd₀
  · rcases MethodDef.mem_changeFirst hd with hd | ⟨d₀, hd₀, rfl⟩
    · exact ht.known d hd body hbody
    · exact hknown d₀ hd₀ body hbody

end TypeDef

/-! ## Looms -/

/-- what the pattern goes by is declared, and the exchange takes one type -/
structure Pattern.Fits (pattern : Pattern) (g : TypeGraph) : Prop where
  references : pattern.references.Declared g
  exchange : (g.method pattern.references.exchangeReference).generics.length = 1
  entry : pattern.entry.index < g.methods.size

/-- two looms that weave one type over graphs that have come from the first one, differently far: the second holds what
the first holds in other places, and notes what the first notes after what was noted earlier -/
structure Loom.Mirrors (g : TypeGraph) (ρ : Renumbering) (earlier : Diagnostics) (L M : Loom) : Prop where
  graphs : g.Mirrors ρ L.graph M.graph
  own : M.graph.type L.target.id = (L.graph.type L.target.id).renumber ρ
  listed : (L.graph.type L.target.id).Within L.graph
  target : M.target = L.target.renumber ρ
  within : L.target.Within L.graph
  methodOwner : ∀ m, g.NewMethod L.graph m → (L.graph.method m).declaring = L.target.id
  fieldOwner : ∀ f, g.NewField L.graph f → (L.graph.field f).declaring = L.target.id
  introduced : M.introduced = L.introduced.map ρ.method
  diagnostics : M.diagnostics = earlier.recordAll L.diagnostics.notices

namespace Loom.Mirrors

variable {g : TypeGraph} {ρ : Renumbering} {pattern : Pattern} {earlier : Diagnostics} {L M : Loom}

section

variable (hm : L.Mirrors g ρ earlier M)

include hm

theorem id : M.target.id = L.target.id := by rw [hm.target, TypeDef.renumber]

theorem fields : M.target.fields.reverse = L.target.fields.reverse.map (FieldDef.renumber ρ) := by
  rw [hm.target, TypeDef.renumber, List.map_reverse]

theorem reverse_declared : ∀ f ∈ L.target.fields.reverse, f.id.index < L.graph.fields.size := fun f hf =>
  hm.within.fields f (List.mem_reverse.1 hf)

/-- the entry point is in its place -/
theorem entry_fixed (hp : pattern.Fits g) : ρ.method pattern.entry = pattern.entry :=
  hm.graphs.fixes.method pattern.entry hp.entry

theorem entry_mem (hp : pattern.Fits g) (hentry : pattern.entry ∈ L.target.methods.map MethodDef.id) :
    pattern.entry ∈ M.target.methods.map MethodDef.id := by
  obtain ⟨d, hd, hid⟩ := List.mem_map.1 hentry
  rw [hm.target, ← hm.entry_fixed hp, ← hid]
  exact List.mem_map_of_mem (f := MethodDef.id) (List.mem_map_of_mem (f := MethodDef.renumber ρ) hd)

theorem notice (noted : List Notice) :
    Loom.Mirrors g ρ earlier { L with diagnostics := L.diagnostics.recordAll noted }
      { M with diagnostics := M.diagnostics.recordAll noted } :=
  { hm with diagnostics := by rw [hm.diagnostics, Diagnostics.recordAll_recordAll, Diagnostics.notices_recordAll] }

theorem field {decl : FieldDecl} (hd : decl.declaring = L.target.id) :
    Loom.Mirrors g ρ earlier (L.withField decl) (M.withField decl) where
  graphs := hm.graphs.addField decl
  own := hm.graphs.type_addField hm.own decl
  listed := hm.listed.addField decl
  target := by
    simp only [withField, hm.target, TypeDef.renumber, List.map_append, List.map_cons, List.map_nil, FieldDef.renumber,
      hm.graphs.next_field]
  within := by
    have hold := hm.within.mono (TypeGraph.gains_addField L.graph decl)
    refine { hold with fields := fun f hf => ?_ }
    rcases List.mem_append.1 hf with hf | hf
    · exact hold.fields f hf
    · rw [List.mem_singleton.1 hf]
      simp [withField, TypeGraph.addField]
  methodOwner := hm.methodOwner
  fieldOwner f hnew := by
    rcases Nat.lt_or_ge f.index L.graph.fields.size with hold | hlast
    · rw [withField, TypeGraph.field_addField _ _ _ hold]
      exact hm.fieldOwner f ⟨hnew.1, hold⟩
    · have hlt := hnew.2
      simp only [withField, TypeGraph.addField, Array.size_push] at hlt
      have heq : f = ⟨L.graph.fields.size⟩ := congrArg FieldId.mk (by omega)
      rw [heq, withField, TypeGraph.field_addField_new]
      exact hd
  introduced := hm.introduced
  diagnostics := hm.diagnostics

theorem method {decl : MethodDecl} (hi : Introduces pattern L.target.id decl) {body : Body} (hbody : body.Known L.graph) :
    Loom.Mirrors g ρ earlier (L.withMethod decl body) (M.withMethod decl (body.renumber ρ)) where
  graphs := hm.graphs.addMethod hi.virtual
  own := hm.graphs.type_addMethod hm.own decl
  listed := hm.listed.addMethod decl
  target := by
    simp only [withMethod, hm.target, TypeDef.renumber, List.map_append, List.map_cons, List.map_nil, MethodDef.renumber,
      hm.graphs.next_method, Option.map_some]
  within := by
    have hgains := TypeGraph.gains_addMethod L.graph decl hi.virtual
    have hold := hm.within.mono hgains
    refine { hold with methods := fun d hd => ?_, known := fun d hd b hb => ?_ }
    · rcases List.mem_append.1 hd with hd | hd
      · exact hold.methods d hd
      · rw [List.mem_singleton.1 hd]
        simp [withMethod, TypeGraph.addMethod]
    · rcases List.mem_append.1 hd with hd | hd
      · exact hold.known d hd b hb
      · rw [List.mem_singleton.1 hd] at hb
        cases hb
        exact hbody.mono hgains
  methodOwner m hnew := by
    rcases Nat.lt_or_ge m.index L.graph.methods.size with hold | hlast
    · rw [withMethod, TypeGraph.method_addMethod _ _ _ hold]
      exact hm.methodOwner m ⟨hnew.1, hold⟩
    · have hlt := hnew.2
      simp only [withMethod, TypeGraph.addMethod, Array.size_push] at hlt
      have heq : m = ⟨L.graph.methods.size⟩ := congrArg MethodId.mk (by omega)
      rw [heq, withMethod, TypeGraph.method_addMethod_new]
      exact hi.declaring
  fieldOwner := hm.fieldOwner
  introduced := by
    simp only [withMethod, hm.introduced, List.map_append, List.map_cons, List.map_nil, hm.graphs.next_method]
  diagnostics := hm.diagnostics

theorem replaced (hp : pattern.Fits g) {body : Body} (hbody : body.Known L.graph) :
    Loom.Mirrors g ρ earlier (L.withBody pattern.entry body) (M.withBody pattern.entry (body.renumber ρ)) :=
  { hm with
    own := by simpa only [withBody, TypeDef.id_updateMethod] using hm.own
    listed := by simpa only [withBody, TypeDef.id_updateMethod] using hm.listed
    target := by
      have hreplaced : (L.target.updateMethod pattern.entry fun d => { d with body := some body }).renumber ρ =
          (L.target.renumber ρ).updateMethod (ρ.method pattern.entry) fun d => { d with body := some (body.renumber ρ) } :=
        TypeDef.renumber_updateMethod (by intro d; rfl) L.target pattern.entry
      rw [withBody, hm.target, withBody, hreplaced, hm.entry_fixed hp]
    within := by
      refine hm.within.updateMethod pattern.entry (fun d => rfl) fun d _ b hb => ?_
      cases hb
      exact hbody
    methodOwner := by simpa only [withBody, TypeDef.id_updateMethod] using hm.methodOwner
    fieldOwner := by simpa only [withBody, TypeDef.id_updateMethod] using hm.fieldOwner }

/-! ## Fields and state -/

theorem reports (pattern : Pattern) (excluded : List FieldId) : Loom.Mirrors g ρ earlier (Weave.withReports pattern excluded L)
    (Weave.withReports pattern (excluded.map ρ.field) M) := by
  unfold Weave.withReports
  rw [hm.fields, hm.graphs.reports hm.reverse_declared]
  exact hm.notice _

theorem disposedFields (pattern : Pattern) (excluded : List FieldId) :
    Selection.disposedFields M.graph pattern.references pattern.settings (excluded.map ρ.field) M.target.fields.reverse =
      (Selection.disposedFields L.graph pattern.references pattern.settings excluded L.target.fields.reverse).map
        ρ.field := by
  rw [hm.fields, hm.graphs.disposedFields hm.reverse_declared]

theorem disposed_lt (pattern : Pattern) (excluded : List FieldId) : ∀ f ∈ Selection.disposedFields L.graph
    pattern.references pattern.settings excluded L.target.fields.reverse, f.index < L.graph.fields.size :=
  disposedFields_declared hm.within.fields

theorem nextState : Weave.nextState M.graph = (Weave.nextState L.graph).renumber ρ := by
  simp only [Weave.nextState, WovenState.renumber, hm.graphs.next_field, hm.graphs.nextField 1, hm.graphs.next_method]

/-- the state is declared, and the guard with it -/
theorem state (hp : pattern.Fits g) :
    Loom.Mirrors g ρ earlier (Weave.withState pattern L) (Weave.withState pattern M) := by
  have hfields : Loom.Mirrors g ρ earlier (Weave.withFields pattern L) (Weave.withFields pattern M) := by
    unfold Weave.withFields
    rw [hm.id]
    exact (hm.field rfl).field rfl
  have hlast : L.graph.fields.size + 1 < (Weave.withFields pattern L).graph.fields.size := by
    simp [Weave.withFields, withField, TypeGraph.addField]
  have hguard := hfields.graphs.guard hp.references L.target.id hlast
  rw [hm.graphs.nextField 1] at hguard
  unfold Weave.withState
  rw [hm.id, hguard]
  have hknown := Body.Known.guard (hfields.graphs.left.declared hp.references) L.target.id hlast
  exact hfields.method (.guard : Introduces pattern L.target.id _) hknown

end

end Loom.Mirrors

theorem nextState_within (pattern : Pattern) (L : Loom) :
    (Weave.nextState L.graph).Within (Weave.withState pattern L).graph := by
  have hfields : (Weave.withState pattern L).graph.fields.size = L.graph.fields.size + 2 := by
    simp [Weave.withState, Weave.withFields, Loom.withMethod, Loom.withField, TypeGraph.addMethod, TypeGraph.addField]
  have hmethods : (Weave.withState pattern L).graph.methods.size = L.graph.methods.size + 1 := by
    simp [Weave.withState, Weave.withFields, Loom.withMethod, Loom.withField, TypeGraph.addMethod, TypeGraph.addField]
  constructor <;> simp only [Weave.nextState, hfields, hmethods] <;> omega

/-! ## Steps -/

section Steps

variable {g : TypeGraph} {ρ : Renumbering} {pattern : Pattern} {earlier : Diagnostics} {L M : Loom}

/-- the managed hook that a type has or gets -/
theorem supplyHook_mirrors (hm : L.Mirrors g ρ earlier M) (hp : pattern.Fits g) : ∃ hook L' M',
    Weave.supplyHook pattern L L = .ok hook L' ∧ Weave.supplyHook pattern M M = .ok (hook.map ρ.method) M' ∧
    L'.Mirrors g ρ earlier M' ∧ L.graph.Gains L'.graph ∧ (∀ m, hook = some m → m.index < L'.graph.methods.size) ∧
    ∀ m ∈ L.target.methods.map MethodDef.id, m ∈ L'.target.methods.map MethodDef.id := by
  have hmanaged := hm.graphs.hook? hm.own hm.listed pattern.settings.managedHook
  have hunmanaged := hm.graphs.hook? hm.own hm.listed pattern.settings.unmanagedHook
  unfold Weave.supplyHook
  rw [hm.id, hmanaged, hunmanaged]
  cases hhook : Selection.hook? L.graph L.target.id pattern.settings.managedHook with
  | some m =>
    refine ⟨some m, L, M, rfl, rfl, hm, .refl _, fun m' heq => ?_, fun _ h => h⟩
    cases heq
    exact hm.listed.methods m (List.mem_of_find?_eq_some hhook)
  | none =>
    cases Selection.hook? L.graph L.target.id pattern.settings.unmanagedHook with
    | none => exact ⟨none, L, M, rfl, rfl, hm, .refl _, fun m heq => (by cases heq), fun _ h => h⟩
    | some u =>
      have hL := Weave.deriveManagedHook_eq fun _ => exchange_gains hm.graphs.left hp.exchange
      have hM := Weave.deriveManagedHook_eq fun _ => exchange_gains hm.graphs.right hp.exchange
      have hreports := hm.reports pattern []
      have hfields := hm.disposedFields pattern []
      have hdeclared := hm.disposed_lt pattern []
      rw [List.map_nil] at hreports hfields
      rw [hfields] at hM
      split at hL
      · next hnone =>
        rw [if_pos (List.map_eq_nil_iff.2 hnone)] at hM
        exact ⟨none, _, _, hL, hM, hreports, .refl _, fun m heq => (by cases heq), fun _ h => h⟩
      · next hnone =>
        rw [if_neg (mt List.map_eq_nil_iff.1 hnone), hm.id, hm.graphs.derivedHook hp.references hdeclared] at hM
        have hhook : Introduces pattern L.target.id (Weave.privateMethod L.target.id pattern.settings.managedHook []) := .hook
        refine ⟨some ⟨L.graph.methods.size⟩, _, _, hL, ?_, hreports.method hhook
          (Body.Known.derivedHook (hm.graphs.left.declared hp.references) hdeclared),
          TypeGraph.gains_addMethod _ _ hhook.virtual, fun m heq => ?_, fun m h => ?_⟩
        · rw [← hm.graphs.next_method] at hM
          exact hM
        · cases heq
          simp [Loom.withMethod, TypeGraph.addMethod, Weave.withReports]
        · rw [Loom.withMethod, List.map_append]
          exact List.mem_append_left _ h

theorem withRoutine_mirrors (hm : L.Mirrors g ρ earlier M) (hp : pattern.Fits g) {state : WovenState}
    (hs : state.Within L.graph) {managed : Option MethodId} {unmanaged : MethodId}
    (hmanaged : ∀ m, managed = some m → m.index < L.graph.methods.size) (hunmanaged : unmanaged.index < L.graph.methods.size) :
    Loom.Mirrors g ρ earlier (Weave.withRoutine pattern state managed unmanaged L)
      (Weave.withRoutine pattern (state.renumber ρ) (managed.map ρ.method) (ρ.method unmanaged) M) := by
  have hr := hm.graphs.left.declared hp.references
  have hdeclared := hm.method (.routine : Introduces pattern L.target.id _) (Body.Known.routine hr hs hmanaged hunmanaged)
  have hlast : L.graph.methods.size < (L.withMethod (Weave.privateMethod L.target.id MemberName.dispose
      [{ name := pattern.settings.disposingParameter, type := .named pattern.references.boolean }])
        (Emission.routine L.graph pattern.references state managed unmanaged)).graph.methods.size := by
    simp [Loom.withMethod, TypeGraph.addMethod]
  have hentry := hdeclared.graphs.entryThroughRoutine hp.references (m := ⟨L.graph.methods.size⟩) hlast
  rw [hm.graphs.next_method] at hentry
  simp only [Weave.withRoutine, hm.id, hm.graphs.routine hp.references hs hmanaged hunmanaged, hentry]
  exact hdeclared.replaced hp (Body.Known.entryThroughRoutine (hdeclared.graphs.left.declared hp.references) hlast)

theorem withFinalizer_mirrors (hm : L.Mirrors g ρ earlier M) (hp : pattern.Fits g) {r : MethodId}
    (hlt : r.index < L.graph.methods.size) : Loom.Mirrors g ρ earlier (Weave.withFinalizer pattern r L)
      (Weave.withFinalizer pattern (ρ.method r) M) := by
  have hname : M.graph.nameOf L.target.id = L.graph.nameOf L.target.id := by
    rw [TypeGraph.nameOf, hm.graphs.name, TypeGraph.nameOf]
  unfold Weave.withFinalizer
  rw [hm.id, hm.graphs.declaresFinalizer hm.own hm.listed, hname]
  split
  · exact hm.notice _
  · rw [hm.graphs.finalizer hp.references hlt]
    exact hm.method (.finalizer : Introduces pattern L.target.id _)
      (Body.Known.finalizer (hm.graphs.left.declared hp.references) hlt)

theorem withFinalizer_gains (pattern : Pattern) (r : MethodId) (L : Loom) :
    L.graph.Gains (Weave.withFinalizer pattern r L).graph := by
  unfold Weave.withFinalizer
  split
  · exact .refl _
  · exact TypeGraph.gains_addMethod _ _ (Introduces.finalizer : Introduces pattern L.target.id _).virtual

/-- the entry point is rewritten, with what supports it -/
theorem synthesize_mirrors (hm : L.Mirrors g ρ earlier M) (hp : pattern.Fits g) {state : WovenState}
    (hentry : pattern.entry ∈ L.target.methods.map MethodDef.id) (hs : state.Within L.graph)
    {managed unmanaged : Option MethodId}
    (hmanaged : ∀ m, managed = some m → m.index < L.graph.methods.size)
    (hunmanaged : ∀ u, unmanaged = some u → u.index < L.graph.methods.size) : ∃ L' M',
      Weave.synthesize pattern state (Shape.ofHooks managed unmanaged) L = .ok () L' ∧
      Weave.synthesize pattern (state.renumber ρ) (Shape.ofHooks (managed.map ρ.method) (unmanaged.map ρ.method)) M =
        .ok () M' ∧
      L'.Mirrors g ρ earlier M' ∧ L.graph.Gains L'.graph := by
  have hr := hm.graphs.left.declared hp.references
  have hentry' := hm.entry_mem hp hentry
  cases unmanaged with
  | none =>
    cases managed with
    | none =>
      have hreports := hm.reports pattern [state.signaled, state.disposed]
      have hbody := hm.graphs.simpleEntry hp.references hs (hm.disposed_lt pattern [state.signaled, state.disposed])
      rw [← hm.disposedFields] at hbody
      have hM := @Weave.synthesizeSimple_eq M pattern (state.renumber ρ)
        (fun _ => exchange_gains hm.graphs.right hp.exchange) hentry'
      have hL := @Weave.synthesizeSimple_eq L pattern state (fun _ => exchange_gains hm.graphs.left hp.exchange) hentry
      refine ⟨_, _, hL, hM, ?_, .refl _⟩
      have hknown := Body.Known.simpleEntry hr hs (hm.disposed_lt pattern [state.signaled, state.disposed])
      have hlast := hreports.replaced hp hknown
      rw [← hbody] at hlast
      exact hlast
    | some m =>
      refine ⟨_, _, Weave.synthesizeManaged_eq hentry state m, Weave.synthesizeManaged_eq hentry' _ _, ?_, .refl _⟩
      rw [hm.graphs.managedEntry hp.references hs (hmanaged m rfl)]
      exact hm.replaced hp (Body.Known.managedEntry hr hs (hmanaged m rfl))
  | some u =>
    have hroutine := withRoutine_mirrors hm hp hs hmanaged (hunmanaged u rfl)
    have hlast : L.graph.methods.size < (Weave.withRoutine pattern state managed u L).graph.methods.size := by
      simp [Weave.withRoutine, Loom.withMethod, Loom.withBody, TypeGraph.addMethod]
    have hfinalizer := withFinalizer_mirrors hroutine hp (r := ⟨L.graph.methods.size⟩) hlast
    rw [hm.graphs.next_method] at hfinalizer
    have hgains : L.graph.Gains (Weave.withRoutine pattern state managed u L).graph :=
      TypeGraph.gains_addMethod _ _ (Introduces.routine : Introduces pattern L.target.id _).virtual
    exact ⟨_, _, Weave.synthesizeUnmanaged_eq hentry _ _ _, Weave.synthesizeUnmanaged_eq hentry' _ _ _, hfinalizer,
      hgains.trans (withFinalizer_gains pattern _ _)⟩

/-- whether a method needs a guard -/
theorem needsGuard_mirrors (hm : L.Mirrors g ρ earlier M) (hp : pattern.Fits g) {d : MethodDef}
    (hd : d ∈ L.target.methods) : Weave.needsGuard pattern M (d.renumber ρ) = Weave.needsGuard pattern L d := by
  have hmethod : M.graph.method (d.renumber ρ).id = L.graph.method d.id := hm.graphs.method d.id (hm.within.methods d hd)
  have hbody : (d.renumber ρ).body.isSome = d.body.isSome := Option.isSome_map
  have hentry : ((d.renumber ρ).id != pattern.entry) = (d.id != pattern.entry) := by
    have hsame : (d.renumber ρ).id = pattern.entry ↔ d.id = pattern.entry := by
      conv_lhs => rw [← hm.entry_fixed hp]
      exact ρ.method_injective.eq_iff
    simp only [bne, beq_eq_decide, hsame]
  have hintroduced : M.introduced.contains (d.renumber ρ).id = L.introduced.contains d.id := by
    rw [hm.introduced]
    simp only [List.contains_eq_mem, MethodDef.renumber, List.mem_map_of_injective ρ.method_injective]
  simp only [Weave.needsGuard, hmethod, hbody, hentry, hintroduced, hm.graphs.isFinalizer]

theorem guards_id (guard : MethodRef) (targets : List MethodId) (t : TypeDef) :
    (targets.foldl (fun t m => t.updateMethod m (Weave.addGuard guard)) t).id = t.id := by
  induction targets generalizing t with
  | nil => rfl
  | cons m rest ih => rw [List.foldl_cons, ih, TypeDef.id_updateMethod]

theorem guards_renumber (guard : MethodRef) (targets : List MethodId) (t : TypeDef) :
    (targets.foldl (fun t m => t.updateMethod m (Weave.addGuard guard)) t).renumber ρ =
      (targets.map ρ.method).foldl (fun t m => t.updateMethod m (Weave.addGuard (guard.renumber ρ))) (t.renumber ρ) := by
  have hguard : ∀ d, (Weave.addGuard guard d).renumber ρ = Weave.addGuard (guard.renumber ρ) (d.renumber ρ) := by
    intro d
    simp only [Weave.addGuard, MethodDef.renumber, Option.map_map]
    congr 1
    exact congrArg (fun f => d.body.map f) (funext fun body => body.renumber_guarded guard)
  induction targets generalizing t with
  | nil => rfl
  | cons m rest ih =>
    rw [List.foldl_cons, ih, List.map_cons, List.foldl_cons, TypeDef.renumber_updateMethod hguard]

theorem guards_within {G : TypeGraph} {guard : MethodRef} (hguard : guard.method.index < G.methods.size)
    (targets : List MethodId) {t : TypeDef} (ht : t.Within G) :
    (targets.foldl (fun t m => t.updateMethod m (Weave.addGuard guard)) t).Within G := by
  induction targets generalizing t with
  | nil => exact ht
  | cons m rest ih =>
    refine ih (ht.updateMethod m (fun d => rfl) fun d hd body hbody => ?_)
    obtain ⟨before, hbefore, rfl⟩ := Option.map_eq_some_iff.1 hbody
    exact (ht.known d hd before hbefore).guarded hguard

/-- calls of the guard are put in front of bodies -/
theorem injectGuards_mirrors (hm : L.Mirrors g ρ earlier M) (hp : pattern.Fits g) {state : WovenState}
    (hguard : state.guard.index < L.graph.methods.size) : ∃ L' M',
      Weave.injectGuards pattern state L = .ok () L' ∧ Weave.injectGuards pattern (state.renumber ρ) M = .ok () M' ∧
      L'.Mirrors g ρ earlier M' ∧ L'.graph = L.graph := by
  have htargets : (M.target.methods.filter (Weave.needsGuard pattern M)).map MethodDef.id =
      ((L.target.methods.filter (Weave.needsGuard pattern L)).map MethodDef.id).map ρ.method := by
    have hfilter : L.target.methods.filter (Weave.needsGuard pattern M ∘ MethodDef.renumber ρ) =
        L.target.methods.filter (Weave.needsGuard pattern L) :=
      List.filter_congr fun d hd => by rw [Function.comp_apply, needsGuard_mirrors hm hp hd]
    rw [hm.target, TypeDef.renumber, List.filter_map, hfilter, List.map_map, List.map_map]
    rfl
  have hself : MethodRef.onSelf M.graph (state.renumber ρ).guard = (MethodRef.onSelf L.graph state.guard).renumber ρ :=
    hm.graphs.methodOnSelf hguard
  refine ⟨_, _, Weave.injectGuards_eq state, Weave.injectGuards_eq (state.renumber ρ), ?_, rfl⟩
  exact { hm with
    own := by
      rw [guards_id]
      exact hm.own
    listed := by
      rw [guards_id]
      exact hm.listed
    target := by rw [htargets, hself, hm.target, guards_renumber]
    within := guards_within hguard _ hm.within
    methodOwner := by
      rw [guards_id]
      exact hm.methodOwner
    fieldOwner := by
      rw [guards_id]
      exact hm.fieldOwner }

/-! ## The whole type -/

theorem Shape.renumber_ofHooks (managed unmanaged : Option MethodId) : (Shape.ofHooks managed unmanaged).renumber ρ =
    Shape.ofHooks (managed.map ρ.method) (unmanaged.map ρ.method) := by
  cases managed <;> cases unmanaged <;> rfl

theorem Shape.within_ofHooks {G : TypeGraph} {managed unmanaged : Option MethodId}
    (hmanaged : ∀ m, managed = some m → m.index < G.methods.size)
    (hunmanaged : ∀ u, unmanaged = some u → u.index < G.methods.size) : (Shape.ofHooks managed unmanaged).Within G where
  managed m hm := hmanaged m (by cases managed <;> cases unmanaged <;> simp_all [Shape.ofHooks, Shape.managed?])
  unmanaged u hu := hunmanaged u (by cases managed <;> cases unmanaged <;> simp_all [Shape.ofHooks, Shape.unmanaged?])

/-- **Weaving a type comes to the same** wherever the graph has got to, in other places. -/
theorem weaveType_mirrors (hm : L.Mirrors g ρ earlier M) (hp : pattern.Fits g)
    (hentry : pattern.entry ∈ L.target.methods.map MethodDef.id)
    (hL : Selection.collision? L.graph pattern.settings L.target.id = none)
    (hM : Selection.collision? M.graph pattern.settings M.target.id = none) : ∃ shape L' M',
      Weave.weaveType pattern L = .ok (some shape) L' ∧
      Weave.weaveType pattern M = .ok (some (shape.renumber ρ)) M' ∧
      L'.Mirrors g ρ earlier M' ∧ shape.Within L'.graph := by
  have hunmanaged : ∀ u, Selection.hook? L.graph L.target.id pattern.settings.unmanagedHook = some u →
      u.index < L.graph.methods.size := fun u hu => hm.listed.methods u (List.mem_of_find?_eq_some hu)
  obtain ⟨hook, L₁, M₁, hsupplyL, hsupplyM, hm₁, hgains₁, hhook, hkept⟩ := supplyHook_mirrors hm hp
  have hm₂ := hm₁.state hp
  have hgains₂ : L₁.graph.Gains (Weave.withState pattern L₁).graph := (withState_fits pattern L₁).1
  have hentry₂ : pattern.entry ∈ (Weave.withState pattern L₁).target.methods.map MethodDef.id := by
    rw [Weave.withState, Loom.withMethod, List.map_append]
    exact List.mem_append_left _ (hkept _ hentry)
  have hs := nextState_within pattern L₁
  have hhook₂ : ∀ m, hook = some m → m.index < (Weave.withState pattern L₁).graph.methods.size := fun m heq =>
    Nat.lt_of_lt_of_le (hhook m heq) hgains₂.methods
  have hunmanaged₂ : ∀ u, Selection.hook? L.graph L.target.id pattern.settings.unmanagedHook = some u →
      u.index < (Weave.withState pattern L₁).graph.methods.size := fun u hu =>
    Nat.lt_of_lt_of_le (hunmanaged u hu) (hgains₁.trans hgains₂).methods
  obtain ⟨L₃, M₃, hsynthesizeL, hsynthesizeM, hm₃, hgains₃⟩ := synthesize_mirrors hm₂ hp hentry₂ hs hhook₂ hunmanaged₂
  obtain ⟨L₄, M₄, hinjectL, hinjectM, hm₄, hgraph⟩ :=
    injectGuards_mirrors hm₃ hp (Nat.lt_of_lt_of_le hs.guard hgains₃.methods)
  refine ⟨Shape.ofHooks hook (Selection.hook? L.graph L.target.id pattern.settings.unmanagedHook), L₄, M₄, ?_, ?_, hm₄, ?_⟩
  · rw [Weave.weaveType_eq hL]
    simp only [bind, EStateM.bind, hsupplyL, Weave.createState_eq, hsynthesizeL, hinjectL]
    rfl
  · rw [Weave.weaveType_eq hM, hm.id, hm.graphs.hook? hm.own hm.listed, Shape.renumber_ofHooks]
    simp only [bind, EStateM.bind, hsupplyM, Weave.createState_eq, hm₁.nextState, hsynthesizeM, hinjectM]
    rfl
  · rw [hgraph]
    exact Shape.within_ofHooks (fun m heq => Nat.lt_of_lt_of_le (hhook₂ m heq) hgains₃.methods)
      fun u heq => Nat.lt_of_lt_of_le (hunmanaged₂ u heq) hgains₃.methods

end Steps

/-! ## A turn -/

namespace Renumbering

theorem between_mirrors {g h : TypeGraph} (hg : g.Gains h) : g.Mirrors (between g h) g h where
  fixes := between_fixes g h
  left := .refl g
  right := hg
  method m hlt := by rw [(between_fixes g h).method m hlt, method_refl, hg.method m hlt]
  field f hlt := by rw [(between_fixes g h).field f hlt, field_refl, hg.field f hlt]
  nextMethod k := by
    rw [between_method hg.methods (Nat.le_add_right _ k)]
    exact congrArg MethodId.mk (by omega)
  nextField k := by
    rw [between_field hg.fields (Nat.le_add_right _ k)]
    exact congrArg FieldId.mk (by omega)

end Renumbering

/-- the shape of a woven type is one of declared hooks -/
def Outcome.Within (g : TypeGraph) : Outcome → Prop
  | .woven shape => shape.Within g
  | _ => True

namespace Session

variable {context : Context} {g h : TypeGraph} {t : TypeDef}

/-- before its turn, a type looks the same over both graphs -/
theorem start_mirrors (hg : g.Gains h) (ht : t.Within g) (hl : (g.type t.id).Within g) (hsame : h.type t.id = g.type t.id)
    (diagnostics : Diagnostics) : Loom.Mirrors g (.between g h) diagnostics
      { graph := g, target := t, diagnostics := {} } { graph := h, target := t, diagnostics } where
  graphs := Renumbering.between_mirrors hg
  own := hsame.trans (TypeDecl.renumber_self hl (Renumbering.between_fixes g h)).symm
  listed := hl
  target := (TypeDef.renumber_self ht (Renumbering.between_fixes g h)).symm
  within := ht
  methodOwner _ hm := absurd hm.2 (Nat.not_lt.2 hm.1)
  fieldOwner _ hf := absurd hf.2 (Nat.not_lt.2 hf.1)
  introduced := rfl
  diagnostics := (Diagnostics.recordAll_nil).symm

/-- **A turn comes to the same** over a graph where other types have gained members: the same becomes of the type, in
other places, and the same is noted. -/
theorem weaveDefinition_mirrors (hr : context.references.Declared g)
    (hx : (g.method context.references.exchangeReference).generics.length = 1) (hl : g.ListsDeclared)
    (hf : g.FieldsDeclared) (hg : g.Gains h) (ht : t.Within g) (hsame : h.type t.id = g.type t.id)
    (diagnostics : Diagnostics) : ∃ outcome L M,
      weaveDefinition context { graph := g, target := t, diagnostics := {} } = { loom := L, outcome := .ok outcome } ∧
      weaveDefinition context { graph := h, target := t, diagnostics } =
        { loom := M, outcome := .ok (outcome.renumber (.between g h)) } ∧
      L.Mirrors g (.between g h) diagnostics M ∧ outcome.Within L.graph := by
  have hstart := start_mirrors hg ht ⟨hl t.id, hf t.id⟩ hsame diagnostics
  have hverdict := verdict_gains context hg hl hf ht.toDeclared hsame
  have hname : h.nameOf t.id = g.nameOf t.id := congrArg QualifiedName.text (hg.name t.id)
  cases hv : verdict g context t with
  | woven entry =>
    obtain ⟨hentry, hL⟩ := verdict_woven hv
    obtain ⟨-, hM⟩ := verdict_woven (hverdict.trans hv)
    obtain ⟨d, hd, hid⟩ := List.mem_map.1 hentry
    have hp : (context.pattern entry).Fits g := ⟨hr, hx, hid ▸ ht.methods d hd⟩
    obtain ⟨shape, L, M, hokL, hokM, hm, hshape⟩ := weaveType_mirrors hstart hp hentry hL hM
    have hturnL := @weaveDefinition_weaves context { graph := g, target := t, diagnostics := {} } entry hv shape L hokL
    have hturnM := @weaveDefinition_weaves context { graph := h, target := t, diagnostics } entry (hverdict.trans hv) _ M hokM
    exact ⟨.woven shape, L, M, hturnL, hturnM, hm, hshape⟩
  | _ =>
    have hspared : (verdict g context t).isWoven = false := by rw [hv]; rfl
    have hspared' : (verdict h context t).isWoven = false := by rw [hverdict, hspared]
    have hL := @weaveDefinition_spared context { graph := g, target := t, diagnostics := {} } hspared
    have hM := @weaveDefinition_spared context { graph := h, target := t, diagnostics } hspared'
    simp only [hverdict, hname, hv] at hL hM
    exact ⟨_, _, _, hL, hM, hstart.notice _, trivial⟩

end Session

end DisposalWeaver
