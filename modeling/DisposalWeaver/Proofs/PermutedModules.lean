/-
Modules in another order.

A session gives each type the turn that it would have alone (`Seated`), so the order of the types only decides in which
places their new members are declared. Two sessions over one graph that take the types in different orders therefore come
to the same under one renumbering, which moves the new members of each type from where the one session declares them to
where the other does (`reseat`, `Seated.exists_renumbering`): the same becomes of every type, graphs and definitions are
the same, and the same is noted about each type. Main statement: `weave_permuted`.
-/
import DisposalWeaver.Proofs.IndependentTurns
import DisposalWeaver.Proofs.RepeatedWeaving

namespace DisposalWeaver

/-! ## The same in another order -/

/-- the report with hooks in other places -/
def Report.renumber (σ : Renumbering) (report : Report) : Report :=
  { report with woven := report.woven.map fun e => (e.1, e.2.renumber σ) }

/-- the same types in each of the lists, in any order -/
structure Report.Reordered (report report' : Report) : Prop where
  woven : report.woven.Perm report'.woven
  alreadyWoven : report.alreadyWoven.Perm report'.alreadyWoven
  rejected : report.rejected.Perm report'.rejected

/-- the second graph declares what the first does, members in the places that the renumbering gives them -/
structure TypeGraph.Renumbers (σ : Renumbering) (G H : TypeGraph) : Prop where
  types : H.types.size = G.types.size
  type : ∀ T, H.type T = (G.type T).renumber σ
  methodCount : H.methods.size = G.methods.size
  method : ∀ m, m.index < G.methods.size → (σ.method m).index < H.methods.size ∧ H.method (σ.method m) = G.method m
  fieldCount : H.fields.size = G.fields.size
  field : ∀ f, f.index < G.fields.size → (σ.field f).index < H.fields.size ∧ H.field (σ.field f) = G.field f

/-- the second module holds what the first does, types in any order and members in the places that the renumbering gives
them -/
structure Module.Reordered (σ : Renumbering) (module module' : Module) : Prop where
  name : module'.name = module.name
  references : module'.references = module.references
  markers : module'.markers = module.markers
  types : (module.types.map (TypeDef.renumber σ)).Perm module'.types

namespace Report

variable {report report' : Report} {outcome : TypeDef → Outcome} {types types' : List TypeDef}

theorem Reordered.refl (report : Report) : report.Reordered report := ⟨.refl _, .refl _, .refl _⟩

theorem Reordered.trans {report'' : Report} (h : report.Reordered report') (h' : report'.Reordered report'') :
    report.Reordered report'' :=
  ⟨h.woven.trans h'.woven, h.alreadyWoven.trans h'.alreadyWoven, h.rejected.trans h'.rejected⟩

theorem Reordered.prepend (h : report.Reordered report') (T : TypeId) (o : Outcome) :
    (report.prepend T o).Reordered (report'.prepend T o) := by
  cases o with
  | untouched => exact h
  | woven shape => exact { h with woven := h.woven.cons _ }
  | alreadyWoven => exact { h with alreadyWoven := h.alreadyWoven.cons _ }
  | rejected => exact { h with rejected := h.rejected.cons _ }

theorem reordered_swap (report : Report) (T U : TypeId) (o p : Outcome) :
    ((report.prepend T o).prepend U p).Reordered ((report.prepend U p).prepend T o) := by
  cases o <;> cases p <;>
    first
      | exact Reordered.refl _
      | exact { Reordered.refl _ with woven := .swap _ _ _ }
      | exact { Reordered.refl _ with alreadyWoven := .swap _ _ _ }
      | exact { Reordered.refl _ with rejected := .swap _ _ _ }

theorem ofOutcomes_perm (h : types.Perm types') (outcome : TypeDef → Outcome) :
    (ofOutcomes outcome types).Reordered (ofOutcomes outcome types') := by
  induction h with
  | nil => exact .refl _
  | cons t _ ih => exact ih.prepend t.id (outcome t)
  | swap t u rest => exact reordered_swap _ t.id u.id (outcome t) (outcome u)
  | trans _ _ ih ih' => exact ih.trans ih'

theorem renumber_ofOutcomes (σ : Renumbering) (outcome : TypeDef → Outcome) (types : List TypeDef) :
    (ofOutcomes outcome types).renumber σ = ofOutcomes (fun t => (outcome t).renumber σ) types := by
  have hprepend : ∀ (report : Report) T (o : Outcome),
      (report.prepend T o).renumber σ = (report.renumber σ).prepend T (o.renumber σ) := by
    intro report T o
    cases o <;> rfl
  induction types with
  | nil => rfl
  | cons t rest ih =>
    unfold ofOutcomes at ih ⊢
    rw [List.foldr_cons, hprepend, ih, List.foldr_cons]

end Report

/-! ## Moving members with their types -/

/-- the numbers from `first` to `last` are those of blocks: the block of a type starts at its place and has its count, and
what is in it belongs to the type -/
structure Blocks (first last : ℕ) (owner : ℕ → TypeId) (place : TypeId → ℕ) (count : TypeDef → ℕ) (types : List TypeDef) :
    Prop where
  after : ∀ t ∈ types, first ≤ place t.id
  within : ∀ t ∈ types, ∀ i < count t, place t.id + i < last ∧ owner (place t.id + i) = t.id
  cover : ∀ k, first ≤ k → k < last → ∃ t ∈ types, ∃ i < count t, place t.id + i = k

/-- a number between the bounds moves with its owner, from one place to another -/
def reseat (first last : ℕ) (owner : ℕ → TypeId) (place place' : TypeId → ℕ) (k : ℕ) : ℕ :=
  if first ≤ k ∧ k < last then k - place (owner k) + place' (owner k) else k

namespace Blocks

variable {first last : ℕ} {owner owner' : ℕ → TypeId} {place place' : TypeId → ℕ} {count : TypeDef → ℕ}
  {types types' : List TypeDef}

theorem reseat_place (h : Blocks first last owner place count types) (place' : TypeId → ℕ) {t : TypeDef} (ht : t ∈ types)
    {i : ℕ} (hi : i < count t) : reseat first last owner place place' (place t.id + i) = place' t.id + i := by
  obtain ⟨hlt, howner⟩ := h.within t ht i hi
  have hafter := h.after t ht
  rw [reseat, if_pos ⟨by omega, hlt⟩, howner]
  omega

/-- what is in one block stays in one block, and what is in two stays apart -/
theorem reseat_injective (h : Blocks first last owner place count types)
    (h' : Blocks first last owner' place' count types') (hperm : types.Perm types') :
    Function.Injective (reseat first last owner place place') := by
  have hstay : ∀ k, ¬(first ≤ k ∧ k < last) → reseat first last owner place place' k = k := fun k hk => if_neg hk
  have hmoved : ∀ t ∈ types, ∀ i < count t, ∀ l, ¬(first ≤ l ∧ l < last) →
      reseat first last owner place place' (place t.id + i) ≠ reseat first last owner place place' l := by
    intro t ht i hi l hl heq
    have hafter := h'.after t (hperm.mem_iff.1 ht)
    have hwithin := (h'.within t (hperm.mem_iff.1 ht) i hi).1
    rw [h.reseat_place place' ht hi, hstay l hl] at heq
    omega
  intro k l heq
  by_cases hk : first ≤ k ∧ k < last
  · obtain ⟨t, ht, i, hi, rfl⟩ := h.cover k hk.1 hk.2
    by_cases hl : first ≤ l ∧ l < last
    · obtain ⟨u, hu, j, hj, rfl⟩ := h.cover l hl.1 hl.2
      rw [h.reseat_place place' ht hi, h.reseat_place place' hu hj] at heq
      have howner := (h'.within t (hperm.mem_iff.1 ht) i hi).2
      have howner' := (h'.within u (hperm.mem_iff.1 hu) j hj).2
      have hsame : t.id = u.id := by rw [← howner, heq, howner']
      rw [hsame] at heq ⊢
      omega
    · exact absurd heq (hmoved t ht i hi l hl)
  · by_cases hl : first ≤ l ∧ l < last
    · obtain ⟨u, hu, j, hj, rfl⟩ := h.cover l hl.1 hl.2
      exact absurd heq.symm (hmoved u hu j hj k hk)
    · rwa [hstay k hk, hstay l hl] at heq

/-- the blocks of the one session move to where those of the other are -/
theorem exists_embedding (h : Blocks first last owner place count types)
    (h' : Blocks first last owner' place' count types') (hperm : types.Perm types') : ∃ ρ : ℕ ↪ ℕ,
      (∀ k, k < first → ρ k = k) ∧ ∀ t ∈ types, ∀ k < first + count t,
        ρ (Renumbering.shift first (place t.id - first) k) = Renumbering.shift first (place' t.id - first) k := by
  have hstay : ∀ k, k < first → reseat first last owner place place' k = k :=
    fun k hk => if_neg fun hbounds => Nat.not_le.2 hk hbounds.1
  refine ⟨⟨reseat first last owner place place', h.reseat_injective h' hperm⟩, hstay, fun t ht k hk => ?_⟩
  rcases Nat.lt_or_ge k first with hlt | hge
  · rw [Renumbering.shift_below hlt, Renumbering.shift_below hlt]
    exact hstay k hlt
  · obtain ⟨i, rfl⟩ := Nat.exists_eq_add_of_le hge
    have hafter := h.after t ht
    have hafter' := h'.after t (hperm.mem_iff.1 ht)
    have hplace : first + i + (place t.id - first) = place t.id + i := by omega
    have hplace' : first + i + (place' t.id - first) = place' t.id + i := by omega
    rw [Renumbering.shift_above, Renumbering.shift_above, hplace, hplace']
    exact h.reseat_place place' ht (by omega)

end Blocks

namespace Session

section Glue

variable {context : Context} {g G G' : TypeGraph} {types types' : List TypeDef} {found found' : TypeId → TypeGraph}

/-- how many methods and fields the turn of a type adds -/
def newMethods (context : Context) (g : TypeGraph) (t : TypeDef) : ℕ :=
  (loomAlone context g t).graph.methods.size - g.methods.size

def newFields (context : Context) (g : TypeGraph) (t : TypeDef) : ℕ :=
  (loomAlone context g t).graph.fields.size - g.fields.size

theorem Seated.methodBlocks (hs : Seated context g g types found G) (halone : ∀ t ∈ types, SelfContained context g t) :
    Blocks g.methods.size G.methods.size (fun k => (G.method ⟨k⟩).declaring) (fun T => (found T).methods.size)
      (newMethods context g) types where
  after t ht := (hs.seats t ht).gains.methods
  within t ht i hi := by
    have hnew : g.NewMethod (loomAlone context g t).graph ⟨g.methods.size + i⟩ := by
      unfold newMethods at hi
      exact ⟨Nat.le_add_right _ _, by simp only; omega⟩
    have hseat := (hs.seats t ht).method _ hnew.2
    rw [(Renumbering.between_mirrors (hs.seats t ht).gains).nextMethod i] at hseat
    exact ⟨hseat.1, by rw [hseat.2, (halone t ht).methodOwner _ hnew]⟩
  cover k hk hlt := by
    obtain ⟨t, ht, ⟨l⟩, ⟨hge, hbound⟩, heq⟩ := hs.methods ⟨k⟩ ⟨hk, hlt⟩
    obtain ⟨i, rfl⟩ : ∃ i, l = g.methods.size + i := ⟨l - g.methods.size, by simp only at hge; omega⟩
    rw [(Renumbering.between_mirrors (hs.seats t ht).gains).nextMethod i] at heq
    refine ⟨t, ht, i, ?_, congrArg MethodId.index heq⟩
    unfold newMethods
    simp only at hbound
    omega

theorem Seated.fieldBlocks (hs : Seated context g g types found G) (halone : ∀ t ∈ types, SelfContained context g t) :
    Blocks g.fields.size G.fields.size (fun k => (G.field ⟨k⟩).declaring) (fun T => (found T).fields.size)
      (newFields context g) types where
  after t ht := (hs.seats t ht).gains.fields
  within t ht i hi := by
    have hnew : g.NewField (loomAlone context g t).graph ⟨g.fields.size + i⟩ := by
      unfold newFields at hi
      exact ⟨Nat.le_add_right _ _, by simp only; omega⟩
    have hseat := (hs.seats t ht).field _ hnew.2
    rw [(Renumbering.between_mirrors (hs.seats t ht).gains).nextField i] at hseat
    exact ⟨hseat.1, by rw [hseat.2, (halone t ht).fieldOwner _ hnew]⟩
  cover k hk hlt := by
    obtain ⟨t, ht, ⟨l⟩, ⟨hge, hbound⟩, heq⟩ := hs.fields ⟨k⟩ ⟨hk, hlt⟩
    obtain ⟨i, rfl⟩ : ∃ i, l = g.fields.size + i := ⟨l - g.fields.size, by simp only at hge; omega⟩
    rw [(Renumbering.between_mirrors (hs.seats t ht).gains).nextField i] at heq
    refine ⟨t, ht, i, ?_, congrArg FieldId.index heq⟩
    unfold newFields
    simp only at hbound
    omega

/-- the renumbering takes the members of each type from where the one session declares them to where the other does -/
structure Moves (context : Context) (g : TypeGraph) (types : List TypeDef) (found found' : TypeId → TypeGraph)
    (σ : Renumbering) : Prop where
  fixes : σ.Fixes g
  agree : ∀ t ∈ types, ((Renumbering.between g (found t.id)).trans σ).Agree (loomAlone context g t).graph
    (.between g (found' t.id))

/-- **Two sessions over one graph, in two orders, declare the same members**, each type's in other places. -/
theorem Seated.exists_renumbering (hs : Seated context g g types found G) (hs' : Seated context g g types' found' G')
    (hperm : types.Perm types') (halone : ∀ t ∈ types, SelfContained context g t) :
    ∃ σ, Moves context g types found found' σ := by
  have halone' : ∀ t ∈ types', SelfContained context g t := fun t ht => halone t (hperm.mem_iff.2 ht)
  have hmethods : G'.methods.size = G.methods.size := by
    rw [hs'.methodCount, hs.methodCount, (hperm.map _).sum_nat]
  have hfields : G'.fields.size = G.fields.size := by
    rw [hs'.fieldCount, hs.fieldCount, (hperm.map _).sum_nat]
  have hmethodBlocks' := hs'.methodBlocks halone'
  have hfieldBlocks' := hs'.fieldBlocks halone'
  rw [hmethods] at hmethodBlocks'
  rw [hfields] at hfieldBlocks'
  obtain ⟨ρ, hold, hnew⟩ := (hs.methodBlocks halone).exists_embedding hmethodBlocks' hperm
  obtain ⟨τ, hold', hnew'⟩ := (hs.fieldBlocks halone).exists_embedding hfieldBlocks' hperm
  -- a member of the first graph stays, and another moves with the block of its type
  refine ⟨⟨ρ, τ⟩, ⟨fun m hm => congrArg MethodId.mk (hold _ hm), fun f hf => congrArg FieldId.mk (hold' _ hf)⟩,
    fun t ht => ⟨fun m hm => congrArg MethodId.mk (hnew t ht m.index ?_), fun f hf =>
      congrArg FieldId.mk (hnew' t ht f.index ?_)⟩⟩
  · unfold newMethods
    omega
  · unfold newFields
    omega

/-! ## The same, member by member -/

/-- the graphs are the same -/
theorem Moves.renumbers {σ : Renumbering} (h : Moves context g types found found' σ)
    (hs : Seated context g g types found G) (hs' : Seated context g g types' found' G') (hperm : types.Perm types')
    (halone : ∀ t ∈ types, SelfContained context g t) (hl : g.ListsDeclared) (hf : g.FieldsDeclared) :
    G.Renumbers σ G' where
  types := hs'.gains.types.trans hs.gains.types.symm
  type T := by
    by_cases hT : T ∈ types.map TypeDef.id
    · obtain ⟨t, ht, rfl⟩ := List.mem_map.1 hT
      rw [(hs'.seats t (hperm.mem_iff.1 ht)).type, (hs.seats t ht).type, TypeDecl.renumber_renumber,
        TypeDecl.renumber_congr (halone t ht).listed (h.agree t ht)]
    · have hT' : T ∉ types'.map TypeDef.id := fun hmem => hT ((hperm.map _).mem_iff.2 hmem)
      rw [hs'.others T hT', hs.others T hT, TypeDecl.renumber_self ⟨hl T, hf T⟩ h.fixes]
  methodCount := by rw [hs'.methodCount, hs.methodCount, (hperm.map _).sum_nat]
  method m hm := by
    rcases Nat.lt_or_ge m.index g.methods.size with hlt | hge
    · rw [h.fixes.method m hlt, Renumbering.method_refl, hs'.gains.method m hlt, hs.gains.method m hlt]
      exact ⟨Nat.lt_of_lt_of_le hlt hs'.gains.methods, rfl⟩
    · obtain ⟨t, ht, k, hk, rfl⟩ := hs.methods m ⟨hge, hm⟩
      rw [← Renumbering.method_trans, (h.agree t ht).method k hk.2, ((hs.seats t ht).method k hk.2).2]
      exact (hs'.seats t (hperm.mem_iff.1 ht)).method k hk.2
  fieldCount := by rw [hs'.fieldCount, hs.fieldCount, (hperm.map _).sum_nat]
  field f hf := by
    rcases Nat.lt_or_ge f.index g.fields.size with hlt | hge
    · rw [h.fixes.field f hlt, Renumbering.field_refl, hs'.gains.field f hlt, hs.gains.field f hlt]
      exact ⟨Nat.lt_of_lt_of_le hlt hs'.gains.fields, rfl⟩
    · obtain ⟨t, ht, k, hk, rfl⟩ := hs.fields f ⟨hge, hf⟩
      rw [← Renumbering.field_trans, (h.agree t ht).field k hk.2, ((hs.seats t ht).field k hk.2).2]
      exact (hs'.seats t (hperm.mem_iff.1 ht)).field k hk.2

/-- the definitions are the same -/
theorem Moves.definition {σ : Renumbering} (h : Moves context g types found found' σ)
    (halone : ∀ t ∈ types, SelfContained context g t) {t : TypeDef} (ht : t ∈ types) :
    (seatedDefinition context g found t).renumber σ = seatedDefinition context g found' t := by
  rw [seatedDefinition, seatedDefinition, TypeDef.renumber_renumber,
    TypeDef.renumber_congr (halone t ht).within (h.agree t ht)]

/-- the same becomes of each type -/
theorem Moves.outcome {σ : Renumbering} (h : Moves context g types found found' σ)
    (halone : ∀ t ∈ types, SelfContained context g t) {t : TypeDef} (ht : t ∈ types) :
    (seatedOutcome context g found t).renumber σ = seatedOutcome context g found' t := by
  have hwithin := (halone t ht).outcome
  unfold seatedOutcome
  cases houtcome : outcomeAlone context g t with
  | woven shape =>
    rw [houtcome] at hwithin
    simp only [Outcome.renumber, Shape.renumber_renumber, Shape.renumber_congr hwithin (h.agree t ht)]
  | _ => rfl

end Glue

/-! ## Modules whose types change places -/

section Alike

variable {references : References} {settings : Settings} {module module' : Module}

/-- which definition a type has does not depend on the order -/
theorem alike_of_perm {types' : List TypeDef} (hperm : module.types.Perm types')
    (honce : (module.types.map TypeDef.id).Nodup) : module.Alike { module with types := types' } := by
  have hfind : ∀ (types : List TypeDef) (T : TypeId), (types.map TypeDef.id).Nodup → ∀ t,
      types.find? (fun t => t.id == T) = some t ↔ t ∈ types ∧ t.id = T := by
    intro types T honce t
    constructor
    · intro heq
      exact ⟨List.mem_of_find?_eq_some heq, by simpa using List.find?_some heq⟩
    · rintro ⟨ht, rfl⟩
      cases hfound : types.find? (fun u => u.id == t.id) with
      | none => exact absurd (beq_self_eq_true t.id) (List.find?_eq_none.1 hfound t ht)
      | some u =>
        have hid : u.id = t.id := by simpa using List.find?_some hfound
        rw [List.inj_on_of_nodup_map honce (List.mem_of_find?_eq_some hfound) ht hid]
  intro T
  congr 1
  refine Option.ext fun t => ?_
  rw [Module.definition?, Module.definition?, hfind _ T ((hperm.map _).nodup_iff.1 honce), hfind _ T honce,
    hperm.mem_iff]

/-- a turn goes by the module only where it asks whether the type is eligible -/
theorem weaveDefinition_alike (h : module.Alike module') (hmarkers : module'.markers = module.markers) (L : Loom) :
    weaveDefinition { references, settings, module := module' } L =
      weaveDefinition { references, settings, module } L := by
  unfold weaveDefinition
  simp only [isEligible_congr h hmarkers rfl]
  rfl

theorem weaveDefinitions_alike (h : module.Alike module') (hmarkers : module'.markers = module.markers) (g : TypeGraph)
    (diagnostics : Diagnostics) (types : List TypeDef) :
    weaveDefinitions { references, settings, module := module' } g diagnostics types =
      weaveDefinitions { references, settings, module } g diagnostics types := by
  induction types generalizing g diagnostics with
  | nil => rfl
  | cons t rest ih => simp only [weaveDefinitions, weaveDefinition_alike h hmarkers, ih]

end Alike

end Session

/-! ## Sessions -/

/-- a module over a graph: it defines declared types, each of them once, all their members are declared, and its code
names declared members -/
structure Module.Within (g : TypeGraph) (module : Module) : Prop where
  once : (module.types.map TypeDef.id).Nodup
  types : ∀ t ∈ module.types, t.Within g

section Permuted

variable {g G G' : TypeGraph} {settings : Settings} {module : Module} {types' : List TypeDef} {σ : Renumbering}

theorem Session.Context.Fits.ofPlatform (hg : Platform.alone.2.GrownFrom g) (settings : Settings) (module : Module) :
    Context.Fits (.ofPlatform settings module) g where
  references := Underway.declared ⟨hg, .refl g⟩
  exchange := Underway.exchange ⟨hg, .refl g⟩
  lists := hg.listsDeclared Platform.alone_listsDeclared
  fields := hg.fieldsDeclared Platform.alone_fieldsDeclared

/-- which reference is removed, and what is noted about that, does not depend on types -/
theorem OptOut.clean_eq (g : TypeGraph) (settings : Settings) (module : Module) (types : List TypeDef) :
    OptOut.clean g settings { module with types } =
      ({ (OptOut.clean g settings module).1 with types := types.map (OptOut.strip g settings) },
        (OptOut.clean g settings module).2) := by
  unfold OptOut.clean
  have hsame : Module.hasReference { module with types } settings.markerAssembly =
      module.hasReference settings.markerAssembly := rfl
  cases hreference : module.hasReference settings.markerAssembly <;> simp [hsame, hreference]

theorem OptOut.clean_gains (hg : g.Gains G) (settings : Settings) (module : Module) :
    OptOut.clean G settings module = OptOut.clean g settings module := by
  have hstrip : OptOut.strip G settings = OptOut.strip g settings := funext (Session.strip_gains hg settings)
  simp only [OptOut.clean, OptOut.without, Marker.isNamed, hg.name, hstrip]

theorem OptOut.strip_renumber (σ : Renumbering) (t : TypeDef) :
    (OptOut.strip g settings t).renumber σ = OptOut.strip g settings (t.renumber σ) := by
  simp [OptOut.strip, TypeDef.renumber, FieldDef.renumber, Function.comp_def]

/-- what a session over these types of the module comes to, read off turns alone -/
def Session.ofSeats (settings : Settings) (module : Module) (g : TypeGraph) (diagnostics : Diagnostics)
    (types : List TypeDef) (found : TypeId → TypeGraph) (G : TypeGraph) : Session where
  graph := G
  module := { (OptOut.clean g settings module).1 with
    types := types.map fun t =>
      OptOut.strip g settings (Session.seatedDefinition (.ofPlatform settings module) g found t) }
  diagnostics := diagnostics.recordAll (types.flatMap (Session.noticesAlone (.ofPlatform settings module) g) ++
    [(OptOut.clean g settings module).2])

/-- **A session, read off turns alone**, over the types of the module in any order. -/
theorem weave_seated (hg : Platform.alone.2.GrownFrom g) (hm : module.Within g) {types : List TypeDef}
    (hperm : module.types.Perm types) (settings : Settings) (diagnostics : Diagnostics) : ∃ found G,
      Session.weave settings { graph := g, module := { module with types }, diagnostics } =
        .ok (Report.ofOutcomes (Session.seatedOutcome (.ofPlatform settings module) g found) types)
          (.ofSeats settings module g diagnostics types found G) ∧
      Session.Seated (.ofPlatform settings module) g g types found G := by
  have hc := Session.Context.Fits.ofPlatform hg settings module
  have ha : Session.Awaits (.ofPlatform settings module) g g types := {
    exchange := hc.exchange
    lists := hc.lists
    fields := hc.fields
    gains := .refl g
    declared := fun t ht => (hm.types t (hperm.mem_iff.2 ht)).toDeclared
    once := (hperm.map _).nodup_iff.1 hm.once
    same := fun _ _ => rfl }
  obtain ⟨found, G, heq, hs⟩ := Session.weaveDefinitions_seated hc ha
    (fun t ht => (hm.types t (hperm.mem_iff.2 ht)).fields) diagnostics
  refine ⟨found, G, ?_, hs⟩
  have halike := (Session.weaveDefinitions_alike (Session.alike_of_perm hperm hm.once) rfl g diagnostics types).trans heq
  have hclean := (OptOut.clean_gains hs.gains settings _).trans (OptOut.clean_eq g settings module
    (types.map (Session.seatedDefinition (.ofPlatform settings module) g found)))
  simp only [Session.weave, TypeGraph.resolve_grownFrom hg, halike, Session.clean, hclean, Diagnostics.record_eq,
    Diagnostics.recordAll_recordAll, Session.ofSeats, List.map_map]
  rfl

/-- **The order of types does not matter** to a session over a graph that grew from the platform: whichever comes first,
the same becomes of each type, with the same shape; graphs and definitions end up the same, each new member in another
place at most; and what is noted about a type is what is noted about it alone, in its turn. -/
theorem weave_permuted (hg : Platform.alone.2.GrownFrom g) (hm : module.Within g) (hperm : module.types.Perm types')
    (settings : Settings) (diagnostics : Diagnostics) : ∃ σ report session report' session',
      Session.weave settings { graph := g, module, diagnostics } = .ok report session ∧
      Session.weave settings { graph := g, module := { module with types := types' }, diagnostics } =
        .ok report' session' ∧
      σ.Fixes g ∧ (report.renumber σ).Reordered report' ∧ session.graph.Renumbers σ session'.graph ∧
      session.module.Reordered σ session'.module ∧
      session.diagnostics = diagnostics.recordAll
        (module.types.flatMap (Session.noticesAlone (.ofPlatform settings module) g) ++
          [(OptOut.clean g settings module).2]) ∧
      session'.diagnostics = diagnostics.recordAll
        (types'.flatMap (Session.noticesAlone (.ofPlatform settings module) g) ++
          [(OptOut.clean g settings module).2]) := by
  have halone : ∀ t ∈ module.types, Session.SelfContained (.ofPlatform settings module) g t :=
    fun t ht => Session.selfContained (.ofPlatform hg settings module) (hm.types t ht)
  obtain ⟨found, G, heq, hs⟩ := weave_seated hg hm (.refl _) settings diagnostics
  obtain ⟨found', G', heq', hs'⟩ := weave_seated hg hm hperm settings diagnostics
  obtain ⟨σ, hσ⟩ := hs.exists_renumbering hs' hperm halone
  refine ⟨σ, _, _, _, _, heq, heq', hσ.fixes, ?report, ?graph, ?module, rfl, rfl⟩
  case report =>
    rw [Report.renumber_ofOutcomes, Report.ofOutcomes_congr fun t ht => hσ.outcome halone ht]
    exact Report.ofOutcomes_perm hperm _
  case graph =>
    exact hσ.renumbers hs hs' hperm halone (hg.listsDeclared Platform.alone_listsDeclared)
      (hg.fieldsDeclared Platform.alone_fieldsDeclared)
  case module =>
    refine ⟨rfl, rfl, rfl, ?_⟩
    have hsame : ((module.types.map fun t =>
        OptOut.strip g settings (Session.seatedDefinition (.ofPlatform settings module) g found t)).map
          (TypeDef.renumber σ)) = module.types.map fun t =>
        OptOut.strip g settings (Session.seatedDefinition (.ofPlatform settings module) g found' t) := by
      rw [List.map_map]
      exact List.map_congr_left fun t ht => by
        rw [Function.comp_apply, OptOut.strip_renumber, hσ.definition halone ht]
    exact hsame ▸ hperm.map _

end Permuted

namespace Specimen

/-- a second type, that owns nothing -/
def plain : TypeId := ⟨22⟩

def pairGraph : TypeGraph :=
  let (_, g) := graph.addType (.ofClass ⟨"Plain"⟩ Platform.alone.1.object TypeFlags.public_)
  (g.addMethod { declaring := plain, name := MemberName.dispose, flags := MethodFlags.public_ }).2

def pair : Module :=
  { module with
    types := module.types ++ [{ id := plain, methods := [{ id := ⟨19⟩, body := some (Body.empty.append [.ret]) }] }] }

theorem pair_grown : Platform.alone.2.GrownFrom pairGraph :=
  .method (.type grown _ rfl rfl) _

theorem pair_within : pair.Within pairGraph where
  once := by decide
  types t ht := {
    id := by
      revert t
      decide +kernel
    methods := by
      revert t
      decide +kernel
    fields := by
      revert t
      decide +kernel
    known := by
      have hcode : ∀ t ∈ pair.types, ∀ d ∈ t.methods, ∀ body ∈ d.body, ∀ slot ∈ body.slots,
          slot.instruction = .ret ∨ slot.instruction = .ldc 1 := by decide +kernel
      intro d hd body hbody slot hslot
      rcases hcode t ht d hd body hbody slot hslot with h | h <;> rw [h] <;> trivial }

/-- the hook that is made for the stream is declared one place later if the other type comes first -/
example : (Session.weave {} { graph := pairGraph, module := pair }
      matches .ok { woven := [(_, .managedAndUnmanaged ⟨20⟩ _), _], .. } _) = true ∧
    (Session.weave {} { graph := pairGraph, module := { pair with types := pair.types.reverse } }
      matches .ok { woven := [_, (_, .managedAndUnmanaged ⟨21⟩ _)], .. } _) = true := by
  decide +kernel

/-- two types that are woven in either order -/
theorem pair_permuted : ∃ σ report session report' session',
    Session.weave {} { graph := pairGraph, module := pair } = .ok report session ∧
    Session.weave {} { graph := pairGraph, module := { pair with types := pair.types.reverse } } =
      .ok report' session' ∧
    σ.Fixes pairGraph ∧ (report.renumber σ).Reordered report' ∧ session.graph.Renumbers σ session'.graph ∧
    session.module.Reordered σ session'.module ∧
    session.diagnostics = Diagnostics.empty.recordAll
      (pair.types.flatMap (Session.noticesAlone (.ofPlatform {} pair) pairGraph) ++
        [(OptOut.clean pairGraph {} pair).2]) ∧
    session'.diagnostics = Diagnostics.empty.recordAll
      (pair.types.reverse.flatMap (Session.noticesAlone (.ofPlatform {} pair) pairGraph) ++
        [(OptOut.clean pairGraph {} pair).2]) :=
  weave_permuted pair_grown pair_within (List.reverse_perm pair.types).symm {} {}

end Specimen

end DisposalWeaver
