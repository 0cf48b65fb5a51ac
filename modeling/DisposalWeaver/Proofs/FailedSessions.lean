/-
How a session fails.

Whatever graph, module and settings it is started with, a session is given up in one of two ways only (`weave_error`). A
member that generated code needs may be missing: then nothing has changed. Or the exchange that was found, by its name
and the short names of its parameters, takes other than one type argument: then the session stops at the first field that
it would dispose of, in the middle, and what it did before stays. So a session that fails leaves no trace if an exchange
is only found where it fits (`weave_undone`).

Weaving a type needs its entry point to stay defined and can fail nowhere else (`Weave.Proceeds`, `weaveType_proceeds`).
-/
import DisposalWeaver.Proofs.WovenModule

namespace DisposalWeaver

/-- is it that a generic method was given one type argument and takes another number? -/
def WeaveError.IsArity (cause : WeaveError) : Prop :=
  ∃ label expected, cause = .model (.genericArity label expected 1)

/-! ## One type -/

/-- disposing of a field fails over the arity of the exchange only -/
theorem Emission.fieldDisposal_error {g : TypeGraph} {references : References} {f : FieldId} {body : Body}
    {cause : ModelError} (h : fieldDisposal g references f body = .error cause) : (WeaveError.model cause).IsArity := by
  simp only [fieldDisposal, MethodRef.applied?, bind, Except.bind] at h
  split at h
  · next happlied =>
    simp only [List.isEmpty_cons, Bool.false_eq_true, ↓reduceIte, List.length_cons, List.length_nil] at happlied
    split at happlied
    · cases happlied
    · cases happlied
      cases h
      exact ⟨_, _, rfl⟩
  · cases h

namespace Weave

variable {α β : Type} {pattern : Pattern} {L L' : Loom}

/-- run from the loom, weaving leaves the entry point defined, or is given up over the exchange -/
def Proceeds (pattern : Pattern) (x : Weave α) (L : Loom) : Prop :=
  match x L with
  | .ok _ L' => pattern.entry ∈ L'.target.methods.map MethodDef.id
  | .error cause _ => cause.IsArity

theorem Proceeds.of_ok {x : Weave α} {a : α} (hx : x L = .ok a L')
    (hentry : pattern.entry ∈ L'.target.methods.map MethodDef.id) : Proceeds pattern x L := by
  unfold Proceeds
  rw [hx]
  exact hentry

theorem Proceeds.congr {x y : Weave α} (h : x L = y L) (hy : Proceeds pattern y L) : Proceeds pattern x L := by
  unfold Proceeds
  rwa [h]

theorem Proceeds.bind {x : Weave α} {f : α → Weave β} (hx : Proceeds pattern x L)
    (hf : ∀ a L', pattern.entry ∈ L'.target.methods.map MethodDef.id → Proceeds pattern (f a) L') :
    Proceeds pattern (x >>= f) L := by
  unfold Proceeds at hx ⊢
  simp only [Bind.bind, EStateM.bind]
  cases h : x L with
  | ok a L' =>
    rw [h] at hx
    exact hf a L' hx
  | error cause L' =>
    rw [h] at hx
    exact hx

theorem Proceeds.error {x : Weave α} (h : Proceeds pattern x L) {cause : WeaveError} (hx : x L = .error cause L') :
    cause.IsArity := by
  unfold Proceeds at h
  rwa [hx] at h

variable (hentry : pattern.entry ∈ L.target.methods.map MethodDef.id)

include hentry

theorem disposeEach_proceeds (excluded : List FieldId) (fields : List FieldDef) (body : Body) (count : Nat) :
    Proceeds pattern (disposeEach pattern excluded fields body count) L := by
  induction fields generalizing L body count with
  | nil => exact .of_ok rfl hentry
  | cons f rest ih =>
    unfold disposeEach
    apply Proceeds.bind (.of_ok (get_run L) hentry)
    intro loom L' hentry
    simp only
    split
    -- ignored, reported, and the field that is disposed of
    · exact ih hentry body count
    · exact .bind (.of_ok rfl hentry) fun _ _ hentry => ih hentry body count
    · cases hd : Emission.fieldDisposal loom.graph pattern.references f.id body with
      | ok code => exact .bind (.of_ok rfl hentry) fun code _ hentry => ih hentry code (count + 1)
      | error cause => exact .bind (Emission.fieldDisposal_error hd) fun code _ hentry => ih hentry code (count + 1)

theorem disposeFields_proceeds (excluded : List FieldId) (body : Body) :
    Proceeds pattern (disposeFields pattern excluded body) L :=
  .bind (.of_ok (get_run L) hentry) fun loom _ hentry =>
    disposeEach_proceeds hentry excluded loom.target.fields.reverse body 0

theorem declareMethod_proceeds (name : MemberName) (flags : MethodFlags) (parameters : List Parameter) (body : Body) :
    Proceeds pattern (declareMethod name flags parameters body) L := by
  apply Proceeds.of_ok (declareMethod_eq name flags parameters body)
  rw [Loom.withMethod, List.map_append]
  exact List.mem_append_left _ hentry

theorem replaceEntry_proceeds (body : Body) : Proceeds pattern (replaceEntry pattern body) L := by
  have hids : (L.withBody pattern.entry body).target.methods.map MethodDef.id = L.target.methods.map MethodDef.id :=
    TypeDef.ids_updateMethod L.target pattern.entry fun _ => rfl
  exact .of_ok (replaceEntry_eq hentry body) (hids ▸ hentry)

theorem supplyHook_proceeds (M : Loom) : Proceeds pattern (supplyHook pattern M) L := by
  unfold supplyHook
  split
  · apply (disposeFields_proceeds hentry [] Body.empty).bind
    intro disposal L' hentry
    simp only
    split
    · exact .of_ok rfl hentry
    · exact (declareMethod_proceeds hentry _ _ _ _).bind fun _ _ hentry => .of_ok rfl hentry
  · exact .of_ok rfl hentry

theorem createState_proceeds : Proceeds pattern (createState pattern) L := by
  apply Proceeds.of_ok createState_eq
  rw [withState, Loom.withMethod, List.map_append]
  exact List.mem_append_left _ hentry

theorem synthesizeUnmanaged_proceeds (state : WovenState) (managed : Option MethodId) (unmanaged : MethodId) :
    Proceeds pattern (synthesizeUnmanaged pattern state managed unmanaged) L := by
  unfold synthesizeUnmanaged
  apply Proceeds.bind (.of_ok (get_run L) hentry)
  intro loom L1 hentry
  apply (declareMethod_proceeds hentry _ _ _ _).bind
  intro routine L2 hentry
  apply Proceeds.bind (.of_ok (get_run L2) hentry)
  intro loom L3 hentry
  apply (replaceEntry_proceeds hentry _).bind
  intro _ L4 hentry
  unfold attachFinalizer
  apply Proceeds.bind (.of_ok (get_run L4) hentry)
  intro loom L5 hentry
  simp only
  split
  · exact .of_ok rfl hentry
  · exact (declareMethod_proceeds hentry _ _ _ _).bind fun _ _ hentry => .of_ok rfl hentry

theorem synthesize_proceeds (state : WovenState) (shape : Shape) :
    Proceeds pattern (synthesize pattern state shape) L := by
  cases shape with
  | simple =>
    unfold synthesize synthesizeSimple
    apply Proceeds.bind (.of_ok (get_run L) hentry)
    intro loom L1 hentry
    apply (disposeFields_proceeds hentry _ _).bind
    intro disposal L2 hentry
    apply Proceeds.bind (.of_ok (get_run L2) hentry)
    intro loom L3 hentry
    exact replaceEntry_proceeds hentry _
  | managedOnly m =>
    unfold synthesize synthesizeManaged
    apply Proceeds.bind (.of_ok (get_run L) hentry)
    intro loom L1 hentry
    exact replaceEntry_proceeds hentry _
  | unmanagedOnly u => exact synthesizeUnmanaged_proceeds hentry state none u
  | managedAndUnmanaged m u => exact synthesizeUnmanaged_proceeds hentry state (some m) u

theorem injectGuards_proceeds (state : WovenState) : Proceeds pattern (injectGuards pattern state) L := by
  have hids : ∀ (targets : List MethodId) (t : TypeDef),
      (targets.foldl (fun t m => t.updateMethod m (addGuard (MethodRef.onSelf L.graph state.guard))) t).methods.map
        MethodDef.id = t.methods.map MethodDef.id := by
    intro targets
    induction targets with
    | nil => exact fun t => rfl
    | cons m rest ih =>
      intro t
      rw [List.foldl_cons, ih]
      exact TypeDef.ids_updateMethod t m fun _ => rfl
  apply Proceeds.of_ok (injectGuards_eq state)
  rw [hids]
  exact hentry

/-- **Weaving a type** whose entry point is defined can only be given up over the exchange. -/
theorem weaveType_proceeds : Proceeds pattern (weaveType pattern) L := by
  cases hc : Selection.collision? L.graph pattern.settings L.target.id with
  | some violation => exact .of_ok (weaveType_taken hc) hentry
  | none =>
    apply Proceeds.congr (weaveType_eq hc)
    apply (supplyHook_proceeds hentry L).bind
    intro managed L1 hentry
    apply (createState_proceeds hentry).bind
    intro state L2 hentry
    apply (synthesize_proceeds hentry state _).bind
    intro _ L3 hentry
    apply (injectGuards_proceeds hentry state).bind
    intro _ L4 hentry
    exact .of_ok rfl hentry

end Weave

/-! ## Sessions -/

namespace Session

variable {context : Context} {g : TypeGraph} {L : Loom} {cause : WeaveError} {diagnostics : Diagnostics}
  {types : List TypeDef}

/-- a turn fails over the arity of the exchange only -/
theorem weaveDefinition_error (h : (weaveDefinition context L).outcome = .error cause) : cause.IsArity := by
  cases hw : (verdict L.graph context L.target).isWoven with
  | false =>
    rw [weaveDefinition_spared hw] at h
    cases h
  | true =>
    have hj := verdict_judges L.graph context L.target
    generalize verdict L.graph context L.target = v at hj hw
    cases hj with
    | @woven entry others heligible hentries hnew hwell hc =>
      have hmem : entry ∈ Selection.entryMethods L.graph context.settings L.target := hentries ▸ List.mem_cons_self
      have hproceeds := @Weave.weaveType_proceeds (context.pattern entry) L (List.mem_filter.1 hmem).1
      unfold weaveDefinition at h
      simp only [heligible, hentries, hnew, Bool.not_true, Bool.false_eq_true, ↓reduceIte, weaveEntry, hwell] at h
      cases hrun : Weave.weaveType (context.pattern entry) L with
      | ok shape L' =>
        rw [Context.pattern] at hrun
        cases shape <;> simp [hrun] at h
      | error cause' L' =>
        have harity := hproceeds.error hrun
        rw [Context.pattern] at hrun
        simp only [hrun, Except.error.injEq] at h
        rwa [← h]
    | _ => cases hw

theorem weaveDefinitions_error (h : (weaveDefinitions context g diagnostics types).report = .error cause) :
    cause.IsArity := by
  induction types generalizing g diagnostics with
  | nil => cases h
  | cons t rest ih =>
    simp only [weaveDefinitions] at h
    split at h
    · next other hturn =>
      cases h
      exact weaveDefinition_error hturn
    · next outcome hturn =>
      generalize weaveDefinition context { graph := g, target := t, diagnostics } = turned at h hturn
      cases hrest : (weaveDefinitions context turned.loom.graph turned.loom.diagnostics rest).report with
      | error cause' =>
        rw [hrest] at h
        cases h
        exact ih hrest
      | ok report =>
        rw [hrest] at h
        cases h

/-- nothing fails if the exchange takes one type -/
theorem weaveDefinitions_ok (hx : (g.method context.references.exchangeReference).generics.length = 1)
    (diagnostics : Diagnostics) (types : List TypeDef) :
    ∃ report, (weaveDefinitions context g diagnostics types).report = .ok report := by
  induction types generalizing g diagnostics with
  | nil => exact ⟨{}, rfl⟩
  | cons t rest ih =>
    obtain ⟨outcome, hturn, hx'⟩ : ∃ outcome,
        (weaveDefinition context { graph := g, target := t, diagnostics }).outcome = .ok outcome ∧
        ((weaveDefinition context { graph := g, target := t, diagnostics }).loom.graph.method
          context.references.exchangeReference).generics.length = 1 := by
      cases hv : verdict g context t with
      | woven entry =>
        obtain ⟨_, _, _, _, _, _, heq, hweaves⟩ :=
          weaveDefinition_woven (L := { graph := g, target := t, diagnostics }) rfl hx hv
        rw [heq]
        exact ⟨_, rfl, exchange_gains hweaves.adds.gains hx⟩
      | _ =>
        rw [@weaveDefinition_spared context { graph := g, target := t, diagnostics } (by rw [hv]; rfl)]
        exact ⟨_, rfl, hx⟩
    obtain ⟨report, hrest⟩ := ih hx' (weaveDefinition context { graph := g, target := t, diagnostics }).loom.diagnostics
    refine ⟨report.prepend t.id outcome, ?_⟩
    simp only [weaveDefinitions, hturn, hrest]
    rfl

/-- **The ways in which a session fails**, on any graph, module and settings: a reference is missing and nothing has
changed, or the exchange that was found takes other than one type. -/
theorem weave_error {settings : Settings} {session session' : Session}
    (h : weave settings session = .error cause session') :
    (∃ missing, References.resolve? session.graph = .error missing ∧ cause = .missingReference missing ∧
      session' = session) ∨
    ∃ references, References.resolve? session.graph = .ok references ∧
      (session.graph.method references.exchangeReference).generics.length ≠ 1 ∧ cause.IsArity := by
  unfold weave at h
  split at h
  · next missing hmissing =>
    cases h
    exact .inl ⟨missing, hmissing, rfl, rfl⟩
  · next references hreferences =>
    simp only at h
    split at h
    · cases h
    · next other hreport =>
      cases h
      refine .inr ⟨references, hreferences, fun hx => ?_, weaveDefinitions_error hreport⟩
      obtain ⟨report, hok⟩ := @weaveDefinitions_ok { references, settings, module := session.module } session.graph hx
        session.diagnostics session.module.types
      rw [hok] at hreport
      cases hreport

/-- a library whose exchange takes two types makes a session stop behind the first changes -/
example :
    let exchange := Platform.alone.1.references.exchangeReference.index
    let twofold := { Specimen.graph with
      methods := Specimen.graph.methods.modify exchange fun m => { m with generics := m.generics ++ m.generics } }
    (match weave { unmanagedHook := ⟨"Free"⟩ } { graph := twofold, module := Specimen.module } with
      | .error _ session => session.module != Specimen.module
      | .ok _ _ => false) = true := by
  decide +kernel

/-- **A session that fails leaves no trace**, if an exchange that is found takes one type -/
theorem weave_undone {settings : Settings} {session session' : Session}
    (hx : ∀ references, References.resolve? session.graph = .ok references →
      (session.graph.method references.exchangeReference).generics.length = 1)
    (h : weave settings session = .error cause session') :
    ∃ missing, cause = .missingReference missing ∧ session' = session := by
  rcases weave_error h with ⟨missing, -, hcause, hsame⟩ | ⟨references, hreferences, hne, -⟩
  · exact ⟨missing, hcause, hsame⟩
  · exact absurd (hx references hreferences) hne

end Session

end DisposalWeaver
