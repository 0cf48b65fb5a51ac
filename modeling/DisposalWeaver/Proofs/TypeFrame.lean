/-
What weaving a type adds to it, and what it leaves alone.

Weaving adds to a type and to nothing else. `Loom.Adds` follows it step by step, over any definitions at all: members are
declared on the type and defined behind those of its author, in the graph and in the definition alike, and what is noted
on the way is about fields. The steps are read off a run that ends well; that weaving does end well, if the exchange that
was found can be used, is told apart (`weaveType_runs`). Of what its author wrote, only the entry point gets another body,
and calls of the guard may be put in front of other bodies (`Reworked`). Main statement: `weaveType_weaves`.
-/
import Mathlib.Logic.Relation
import DisposalWeaver.Proofs.GuardedCode
import DisposalWeaver.Proofs.WovenType

namespace DisposalWeaver

/-! ## Definitions of the author -/

/-- what becomes of a definition in a type that is woven: only the entry point gets another body. Any other body stays or
moves behind calls of the guard, more than one if its method is defined more than once. -/
structure Reworked (g : TypeGraph) (entry : MethodId) (guard : MethodRef) (d d' : MethodDef) : Prop where
  id : d'.id = d.id
  markers : d'.markers = d.markers
  bodiless : d.id ≠ entry → d.body = none → d'.body = none
  body : d.id ≠ entry → ∀ body, d.body = some body → ∃ body', d'.body = some body' ∧
    Relation.ReflTransGen (Body.BehindGuard guard) body body'
  /-- a method that takes no instance keeps its body -/
  ofType : d.id ≠ entry → (g.method d.id).isStatic = true → d'.body = d.body

section Reworked

variable {g : TypeGraph} {entry m : MethodId} {guard : MethodRef} {definitions definitions' : List MethodDef}
  {d d' : MethodDef} {body : Body}

theorem reworked_ids (h : List.Forall₂ (Reworked g entry guard) definitions definitions') :
    definitions'.map MethodDef.id = definitions.map MethodDef.id := by
  induction h with
  | nil => rfl
  | cons h _ ih => rw [List.map_cons, List.map_cons, h.id, ih]

theorem Reworked.refl (d : MethodDef) : Reworked g entry guard d d where
  id := rfl
  markers := rfl
  bodiless _ h := h
  body _ body h := ⟨body, h, .refl⟩
  ofType _ _ := rfl

theorem Reworked.guarded (h : Reworked g entry guard d d') (hinstance : (g.method d.id).isStatic = false) :
    Reworked g entry guard d (Weave.addGuard guard d') where
  id := h.id
  markers := h.markers
  bodiless hne hnone := by rw [Weave.addGuard, h.bodiless hne hnone, Option.map_none]
  body hne body hbody := by
    obtain ⟨body', hbody', hbehind⟩ := h.body hne body hbody
    exact ⟨Emission.guarded guard body', by rw [Weave.addGuard, hbody', Option.map_some],
      hbehind.tail (guarded_behind guard body')⟩
  ofType _ hstatic := by
    rw [hinstance] at hstatic
    cases hstatic

/-- a body of a method other than the entry point was there before, maybe with less in front -/
theorem Reworked.exists_body (h : Reworked g entry guard d d') (hne : d.id ≠ entry) {body' : Body}
    (hbody' : d'.body = some body') :
    ∃ body, d.body = some body ∧ Relation.ReflTransGen (Body.BehindGuard guard) body body' := by
  cases hbody : d.body with
  | none =>
    rw [h.bodiless hne hbody] at hbody'
    cases hbody'
  | some body =>
    obtain ⟨other, hother, hbehind⟩ := h.body hne body hbody
    cases hother.symm.trans hbody'
    exact ⟨body, rfl, hbehind⟩

theorem reworked_entry (g : TypeGraph) (entry : MethodId) (guard : MethodRef) (body : Body)
    (definitions : List MethodDef) : List.Forall₂ (Reworked g entry guard) definitions
      (MethodDef.changeFirst entry (fun d => { d with body := some body }) definitions) := by
  have hrefl : ∀ definitions, List.Forall₂ (Reworked g entry guard) definitions definitions := fun definitions =>
    List.forall₂_same.2 fun d _ => .refl d
  induction definitions with
  | nil => exact .nil
  | cons d rest ih =>
    rw [MethodDef.changeFirst]
    split
    · next hd => exact .cons ⟨rfl, rfl, fun hne => absurd hd hne, fun hne => absurd hd hne, fun hne => absurd hd hne⟩ (hrefl rest)
    · exact .cons (.refl d) ih

theorem reworked_guard (h : List.Forall₂ (Reworked g entry guard) definitions definitions')
    (hinstance : (g.method m).isStatic = false) : List.Forall₂ (Reworked g entry guard) definitions
      (MethodDef.changeFirst m (Weave.addGuard guard) definitions') := by
  induction h with
  | nil => exact .nil
  | cons h hrest ih =>
    rw [MethodDef.changeFirst]
    split
    · next hd => exact .cons (h.guarded (by rw [← h.id, hd, hinstance])) hrest
    · exact .cons h ih

theorem reworked_guards {targets : List MethodId} (htargets : ∀ m ∈ targets, (g.method m).isStatic = false)
    (h : List.Forall₂ (Reworked g entry guard) definitions definitions') : List.Forall₂ (Reworked g entry guard)
      definitions (MethodDef.changeEach targets (Weave.addGuard guard) definitions') := by
  induction targets generalizing definitions' with
  | nil => exact h
  | cons m rest ih =>
    exact ih (fun m' hm' => htargets m' (List.mem_cons_of_mem _ hm')) (reworked_guard h (htargets m List.mem_cons_self))

end Reworked

/-! ## Adding to a type -/

/-- the methods that weaving declares on a type -/
inductive Introduces (pattern : Pattern) (t : TypeId) : MethodDecl → Prop where
  | hook : Introduces pattern t (Weave.privateMethod t pattern.settings.managedHook [])
  | guard : Introduces pattern t (Weave.privateMethod t pattern.settings.guardMethod [])
  | routine : Introduces pattern t (Weave.privateMethod t MemberName.dispose
      [{ name := pattern.settings.disposingParameter, type := .named pattern.references.boolean }])
  | finalizer : Introduces pattern t
      { declaring := t, name := MemberName.finalize, flags := MethodFlags.ofFinalizer }

section Introduces

variable {pattern : Pattern} {t : TypeId} {decl : MethodDecl}

theorem Introduces.declaring (h : Introduces pattern t decl) : decl.declaring = t := by
  cases h <;> rfl

theorem Introduces.virtual (h : Introduces pattern t decl) (hv : decl.isVirtual = true) :
    decl.name = MemberName.finalize := by
  cases h with
  | finalizer => rfl
  | _ => exact privateMethod_virtual _ _ _ hv

end Introduces

/-- from the first loom on, the type has got fields and methods behind those of its author, whose definitions are
`authored` by now, and nothing else has changed but for notices about fields; `bodies` are those of the new methods -/
structure Loom.Adds (pattern : Pattern) (L : Loom) (authored : List MethodDef) (bodies : List (MethodId × Body))
    (gained : List FieldId) (declared : List FieldDecl) (noted : List Notice) (L' : Loom) : Prop where
  grown : L.graph.GrownFrom L'.graph
  gains : L.graph.Gains L'.graph
  others : ∀ t, t ≠ L.target.id → L'.graph.type t = L.graph.type t
  members : L.target.id.index < L.graph.types.size →
    L'.graph.type L.target.id = (L.graph.type L.target.id).withMembers (bodies.map Prod.fst) gained
  id : L'.target.id = L.target.id
  markers : L'.target.markers = L.target.markers
  fields : L'.target.fields = L.target.fields ++ gained.map fun f => { id := f }
  methods : L'.target.methods = authored ++ bodies.map fun e => { id := e.1, body := some e.2 }
  introduced : L'.introduced = bodies.map Prod.fst
  new : ∀ e ∈ bodies, L.graph.NewMethod L'.graph e.1 ∧ Introduces pattern L.target.id (L'.graph.method e.1)
  once : (bodies.map Prod.fst).Nodup
  newFields : ∀ f ∈ gained, L.graph.NewField L'.graph f
  decls : gained.map L'.graph.field = declared
  diagnostics : L'.diagnostics = L.diagnostics.recordAll noted
  minor : Notice.OfFields noted

namespace Loom.Adds

variable {pattern : Pattern} {L L' : Loom} {authored : List MethodDef} {bodies : List (MethodId × Body)}
  {gained : List FieldId} {declared : List FieldDecl} {noted : List Notice}

theorem start (pattern : Pattern) (h : L.introduced = []) : L.Adds pattern L.target.methods [] [] [] [] L where
  grown := .refl
  gains := .refl _
  others _ _ := rfl
  members _ := by simp
  id := rfl
  markers := rfl
  fields := by simp
  methods := by simp
  introduced := h
  new _ hd := by cases hd
  once := .nil
  newFields _ hf := by cases hf
  decls := rfl
  diagnostics := by simp
  minor _ hv := by cases hv

/-- what the author defined is still defined -/
theorem mem_methods (h : L.Adds pattern authored bodies gained declared noted L') {m : MethodId}
    (hm : m ∈ authored.map MethodDef.id) : m ∈ L'.target.methods.map MethodDef.id := by
  rw [h.methods, List.map_append]
  exact List.mem_append_left _ hm

theorem notice (h : L.Adds pattern authored bodies gained declared noted L') {later : List Notice}
    (hlater : Notice.OfFields later) : L.Adds pattern authored bodies gained declared (noted ++ later)
      { L' with diagnostics := L'.diagnostics.recordAll later } :=
  { h with
    diagnostics := by rw [h.diagnostics, Diagnostics.recordAll_recordAll]
    minor := h.minor.append hlater }

theorem field (h : L.Adds pattern authored bodies gained declared noted L') (decl : FieldDecl)
    (hd : decl.declaring = L.target.id) : L.Adds pattern authored bodies (gained ++ [⟨L'.graph.fields.size⟩])
      (declared ++ [decl]) noted (L'.withField decl) where
  grown := h.grown.trans (.field .refl decl)
  gains := h.gains.trans (TypeGraph.gains_addField _ decl)
  others t ht := by
    rw [← h.others t ht]
    exact TypeGraph.type_addField_other _ fun heq => ht (heq.symm.trans hd)
  members hlt := by
    have htype := TypeGraph.type_addField L'.graph decl L.target.id
    rw [if_pos ⟨hd, h.gains.types ▸ hlt⟩, h.members hlt, TypeDecl.withMembers_withMembers, List.append_nil] at htype
    exact htype
  id := h.id
  markers := h.markers
  fields := by simp [Loom.withField, h.fields]
  methods := h.methods
  introduced := h.introduced
  new := h.new
  once := h.once
  newFields f hf := by
    have hnew := (withField_field L' decl).1
    rcases List.mem_append.1 hf with hf | hf
    · exact ⟨(h.newFields f hf).1, Nat.lt_of_lt_of_le (h.newFields f hf).2 (withField_gains L' decl).fields⟩
    · rw [List.mem_singleton.1 hf]
      exact h.gains.newFieldSince hnew
  decls := by
    rw [List.map_append, List.map_cons, List.map_nil, (withField_field L' decl).2, ← h.decls]
    congr 1
    exact List.map_congr_left fun f hf => (withField_gains L' decl).field f (h.newFields f hf).2
  diagnostics := h.diagnostics
  minor := h.minor

theorem method (h : L.Adds pattern authored bodies gained declared noted L') {decl : MethodDecl}
    (hd : Introduces pattern L.target.id decl) (body : Body) :
    L.Adds pattern authored (bodies ++ [(⟨L'.graph.methods.size⟩, body)]) gained declared noted
      (L'.withMethod decl body) := by
  have hgains : L'.graph.Gains (L'.withMethod decl body).graph := TypeGraph.gains_addMethod _ _ hd.virtual
  have hnew := withMethod_method L' decl body
  exact {
    grown := h.grown.trans (.method .refl decl)
    gains := h.gains.trans hgains
    others := fun t ht => by
      rw [← h.others t ht]
      exact TypeGraph.type_addMethod_other _ fun heq => ht (heq.symm.trans hd.declaring)
    members := fun hlt => by
      have htype := TypeGraph.type_addMethod L'.graph decl L.target.id
      rw [if_pos ⟨hd.declaring, h.gains.types ▸ hlt⟩, h.members hlt, TypeDecl.withMembers_withMembers,
        List.append_nil] at htype
      rw [List.map_append]
      exact htype
    id := h.id
    markers := h.markers
    fields := h.fields
    methods := by simp [Loom.withMethod, h.methods]
    introduced := by
      rw [List.map_append, ← h.introduced]
      rfl
    new := fun e hmem => by
      rcases List.mem_append.1 hmem with hmem | hmem
      · obtain ⟨hsince, hintroduces⟩ := h.new e hmem
        exact ⟨⟨hsince.1, Nat.lt_of_lt_of_le hsince.2 hgains.methods⟩, by rwa [hgains.method _ hsince.2]⟩
      · rw [List.mem_singleton.1 hmem]
        exact ⟨h.gains.newMethodSince hnew.1, by rw [hnew.2]; exact hd⟩
    once := by
      rw [List.map_append, List.nodup_append]
      refine ⟨h.once, by simp, fun m hm m' hm' => ?_⟩
      obtain ⟨e, he, rfl⟩ := List.mem_map.1 hm
      simp only [List.map_cons, List.map_nil, List.mem_singleton] at hm'
      subst hm'
      exact fun heq => absurd (h.new e he).1.2 (by rw [heq]; exact Nat.lt_irrefl _)
    newFields := h.newFields
    decls := h.decls
    diagnostics := h.diagnostics
    minor := h.minor }

/-- the entry point is among the definitions of the author, so it is there that a body is replaced -/
theorem entry (h : L.Adds pattern authored bodies gained declared noted L')
    (hentry : pattern.entry ∈ authored.map MethodDef.id) (body : Body) :
    L.Adds pattern (MethodDef.changeFirst pattern.entry (fun d => { d with body := some body }) authored) bodies gained
      declared noted (L'.withBody pattern.entry body) := by
  have htarget : (L'.withBody pattern.entry body).target = { L'.target with
      methods := MethodDef.changeFirst pattern.entry (fun d => { d with body := some body }) authored ++
        bodies.map fun e => { id := e.1, body := some e.2 } } := by
    simp only [Loom.withBody, TypeDef.updateMethod_first, h.methods, MethodDef.changeFirst_append hentry]
  exact { h with
    id := by rw [htarget]; exact h.id
    markers := by rw [htarget]; exact h.markers
    fields := by rw [htarget]; exact h.fields
    methods := by rw [htarget] }

/-- the state that a type gets -/
theorem state (h : L.Adds pattern authored bodies [] [] noted L') : L.Adds pattern authored
    (bodies ++ [((Weave.nextState L'.graph).guard, Emission.guard (Weave.withFields pattern L').graph pattern.references
      L'.target.id (Weave.nextState L'.graph).disposed)])
    [(Weave.nextState L'.graph).signaled, (Weave.nextState L'.graph).disposed]
    [Weave.stateField L'.target.id pattern.settings.signaledField pattern.references.int32,
      Weave.stateField L'.target.id pattern.settings.disposedField pattern.references.boolean]
    noted (Weave.withState pattern L') := by
  have hfields := (h.field (Weave.stateField L'.target.id pattern.settings.signaledField pattern.references.int32)
    h.id).field (Weave.stateField L'.target.id pattern.settings.disposedField pattern.references.boolean) h.id
  have hsize : ∀ decl, (L'.withField decl).graph.fields.size = L'.graph.fields.size + 1 := by
    simp [Loom.withField, TypeGraph.addField]
  rw [hsize] at hfields
  have hguard : Introduces pattern L.target.id (Weave.privateMethod L'.target.id pattern.settings.guardMethod []) := by
    rw [h.id]
    exact .guard
  have hadds : L.Adds pattern authored bodies _ _ noted (Weave.withFields pattern L') := hfields
  exact hadds.method hguard _

/-- guards are put in front of definitions of the author, one method after another -/
theorem guards (h : L.Adds pattern authored bodies gained declared noted L') (state : WovenState) : ∃ LG,
    Weave.injectGuards pattern state L' = .ok () LG ∧ LG.graph = L'.graph ∧
    L.Adds pattern (MethodDef.changeEach ((authored.filter (Weave.needsGuard pattern L')).map MethodDef.id)
      (Weave.addGuard (MethodRef.onSelf L'.graph state.guard)) authored) bodies gained declared noted LG := by
  have hnew : (bodies.map fun e => ({ id := e.1, body := some e.2 } : MethodDef)).filter
      (Weave.needsGuard pattern L') = [] := by
    apply List.filter_eq_nil_iff.2
    intro d hd
    obtain ⟨e, he, rfl⟩ := List.mem_map.1 hd
    have hintroduced : e.1 ∈ L'.introduced := h.introduced ▸ List.mem_map_of_mem he
    simp [Weave.needsGuard, hintroduced]
  have htargets : L'.target.methods.filter (Weave.needsGuard pattern L') =
      authored.filter (Weave.needsGuard pattern L') := by
    rw [h.methods, List.filter_append, hnew, List.append_nil]
  have hid : ∀ d, (Weave.addGuard (MethodRef.onSelf L'.graph state.guard) d).id = d.id := fun _ => rfl
  refine ⟨_, Weave.injectGuards_eq state, rfl, ?_⟩
  rw [TypeDef.updateMethods_each, htargets, h.methods,
    MethodDef.changeEach_append hid (List.filter_sublist.map _).subset]
  exact { h with methods := rfl }

end Loom.Adds

/-! ## The parts of weaving, read off a run -/

section Parts

variable {pattern : Pattern} {L L' LD LZ : Loom} {bodies : List (MethodId × Body)} {gained : List FieldId}
  {declared : List FieldDecl} {noted : List Notice}

/-- the managed hook that a type has or gets -/
theorem supplyHook_adds (hL : L.introduced = []) {hook : Option MethodId}
    (h : Weave.supplyHook pattern L L = .ok hook LD) {fields : List FieldId} (hfields : fields =
      Selection.disposedFields L.graph pattern.references pattern.settings [] L.target.fields.reverse) :
    ∃ derived noted, hook = (Selection.hook? L.graph L.target.id pattern.settings.managedHook).or derived ∧
      L.Adds pattern L.target.methods
        (derived.toList.map fun m => (m, Emission.derivedHook L.graph pattern.references fields)) [] [] noted LD ∧
      (Notice.errors noted = if Selection.hook? L.graph L.target.id pattern.settings.managedHook = none ∧
          Selection.hook? L.graph L.target.id pattern.settings.unmanagedHook ≠ none then
        Selection.reports L.graph pattern.references pattern.settings [] L.target.fields.reverse else []) ∧
      (∀ m, derived = some m → L.graph.NewMethod LD.graph m ∧
        LD.graph.method m = Weave.privateMethod L.target.id pattern.settings.managedHook []) ∧
      (derived.isSome = true ↔ Selection.hook? L.graph L.target.id pattern.settings.managedHook = none ∧
        Selection.hook? L.graph L.target.id pattern.settings.unmanagedHook ≠ none ∧ fields ≠ []) := by
  have hstart := Loom.Adds.start pattern hL
  unfold Weave.supplyHook at h
  cases hm : Selection.hook? L.graph L.target.id pattern.settings.managedHook with
  | some m =>
    simp only [hm] at h
    cases h
    exact ⟨none, [], rfl, hstart, by simp [Notice.errors], fun _ h => (by cases h), by simp⟩
  | none =>
    cases hu : Selection.hook? L.graph L.target.id pattern.settings.unmanagedHook with
    | none =>
      simp only [hm, hu] at h
      cases h
      exact ⟨none, [], rfl, hstart, by simp [Notice.errors], fun _ h => (by cases h), by simp⟩
    | some u =>
      simp only [hm, hu] at h
      have hnoted := hstart.notice (Selection.reports_ofFields L.graph pattern.references pattern.settings []
        L.target.fields.reverse)
      have hderived := Weave.deriveManagedHook_ok h
      rw [← hfields] at hderived
      rcases hderived with ⟨hnone, rfl, rfl⟩ | ⟨hsome, rfl, rfl⟩
      · exact ⟨none, _, rfl, hnoted, by simp [Selection.errors_reports], fun _ h => (by cases h), by simp [hnone]⟩
      · refine ⟨some _, _, rfl, hnoted.method .hook _, by simp [Selection.errors_reports], ?_, by simp [hsome]⟩
        intro m hm
        cases hm
        exact withMethod_method (Weave.withReports pattern [] L) _ _

/-- the rewritten entry point of a type, with what supports it, over the graph that it was made on: `fields` are disposed
of, and the code is what the last graph has it to be, if that graph declares what the code mentions -/
structure Synthesized (pattern : Pattern) (T : TypeId) (state : WovenState) (fields : List FieldId)
    (managed unmanaged : Option MethodId) (g G : TypeGraph) (arrangement : Arrangement) (entryBody : Body)
    (made : List (MethodId × Body)) : Prop where
  gains : g.Gains G
  fits : Arrangement.Fits pattern.settings pattern.references g G T managed unmanaged arrangement
  code : pattern.references.Declared g →
    state.signaled.index < g.fields.size ∧ state.disposed.index < g.fields.size → HooksKnown g managed unmanaged →
    entryBody = arrangement.entryBody G pattern.references state fields ∧
      made = arrangement.bodies G pattern.references state

/-- the entry point goes through a routine, and there is a finalizer -/
theorem synthesizeUnmanaged_adds (h : L.Adds pattern L.target.methods bodies gained declared noted L')
    (hentry : pattern.entry ∈ L.target.methods.map MethodDef.id) {state : WovenState} (fields : List FieldId)
    {managed : Option MethodId} {u : MethodId}
    (hs : Weave.synthesize pattern state (Shape.ofHooks managed (some u)) L' = .ok () LZ) :
    ∃ arrangement entryBody made later,
      Synthesized pattern L.target.id state fields managed (some u) L'.graph LZ.graph arrangement entryBody made ∧
      L.Adds pattern (MethodDef.changeFirst pattern.entry (fun d => { d with body := some entryBody }) L.target.methods)
        (bodies ++ made) gained declared (noted ++ later) LZ ∧
      Notice.errors later = [] := by
  have hroutine : Introduces pattern L.target.id (Weave.privateMethod L'.target.id MemberName.dispose
      [{ name := pattern.settings.disposingParameter, type := .named pattern.references.boolean }]) := by
    rw [h.id]
    exact .routine
  have hadds := (h.method hroutine (Emission.routine L'.graph pattern.references state managed u)).entry hentry
    (Emission.entryThroughRoutine (Weave.withRoutine pattern state managed u L').graph pattern.references
      ⟨L'.graph.methods.size⟩)
  rw [Weave.synthesizeUnmanaged_eq (h.mem_methods hentry)] at hs
  have hLZ := (EStateM.Result.ok.inj hs).2
  obtain ⟨finalizer, harranged⟩ := @withFinalizer_arranged pattern _ _ h.id state managed u
  rw [hLZ] at harranged
  rcases harranged.last with ⟨rfl, hlast⟩ | ⟨rfl, hlast⟩
  · let kept : List Notice := [.finalizerKept ((Weave.withRoutine pattern state managed u L').graph.nameOf
      (Weave.withRoutine pattern state managed u L').target.id) pattern.settings.unmanagedHook.text]
    have hkept : Notice.OfFields kept := fun v hv => by cases hv
    refine ⟨.shared ⟨L'.graph.methods.size⟩ managed u none, _, _, kept, ⟨harranged.gains, harranged.fits,
      fun hr hstate hhooks => ?_⟩, hlast ▸ hadds.notice hkept, rfl⟩
    obtain ⟨hroutine, hentryBody, -⟩ := harranged.code hr hstate hhooks
    exact ⟨hentryBody.symm, by rw [Arrangement.bodies, hroutine]; rfl⟩
  · have hadds' := hadds.method .finalizer (Emission.finalizer (Weave.withRoutine pattern state managed u L').graph
      pattern.references ⟨L'.graph.methods.size⟩)
    rw [List.append_assoc, ← List.append_nil noted] at hadds'
    refine ⟨.shared ⟨L'.graph.methods.size⟩ managed u (some _), _, _, [], ⟨harranged.gains, harranged.fits,
      fun hr hstate hhooks => ?_⟩, hlast ▸ hadds', rfl⟩
    obtain ⟨hroutine, hentryBody, hfinalizer⟩ := harranged.code hr hstate hhooks
    exact ⟨hentryBody.symm, by rw [Arrangement.bodies, hroutine, hfinalizer]; rfl⟩

/-- the entry point is rewritten, with what supports it -/
theorem synthesize_adds (h : L.Adds pattern L.target.methods bodies gained declared noted L')
    (hentry : pattern.entry ∈ L.target.methods.map MethodDef.id) {state : WovenState} {managed unmanaged : Option MethodId}
    (hs : Weave.synthesize pattern state (Shape.ofHooks managed unmanaged) L' = .ok () LZ) :
    ∃ arrangement entryBody made later,
      Synthesized pattern L.target.id state (Selection.disposedFields L'.graph pattern.references pattern.settings
        [state.signaled, state.disposed] L'.target.fields.reverse) managed unmanaged L'.graph LZ.graph arrangement
        entryBody made ∧
      L.Adds pattern (MethodDef.changeFirst pattern.entry (fun d => { d with body := some entryBody }) L.target.methods)
        (bodies ++ made) gained declared (noted ++ later) LZ ∧
      Notice.errors later = if managed = none ∧ unmanaged = none then Selection.reports L'.graph pattern.references
        pattern.settings [state.signaled, state.disposed] L'.target.fields.reverse else [] := by
  have hentry' := h.mem_methods hentry
  have hrefl := TypeGraph.Gains.refl L'.graph
  cases unmanaged with
  | some u =>
    obtain ⟨arrangement, entryBody, made, later, hsynthesized, hadds, herrors⟩ :=
      synthesizeUnmanaged_adds h hentry _ hs
    exact ⟨arrangement, entryBody, made, later, hsynthesized, hadds, by simpa using herrors⟩
  | none =>
    cases managed with
    | none =>
      have hLZ := Weave.synthesizeSimple_ok hentry' hs
      subst hLZ
      have hnoted := Selection.reports_ofFields L'.graph pattern.references pattern.settings
        [state.signaled, state.disposed] L'.target.fields.reverse
      refine ⟨.direct, _, [], Selection.reports L'.graph pattern.references pattern.settings
        [state.signaled, state.disposed] L'.target.fields.reverse,
        ⟨hrefl, ⟨rfl, rfl, rfl, fun _ h => (by cases h), fun _ h => (by cases h)⟩, fun _ _ _ => ⟨rfl, rfl⟩⟩, ?_,
        by simp [Selection.errors_reports]⟩
      rw [List.append_nil]
      exact (h.notice hnoted).entry hentry _
    | some m =>
      rw [show Weave.synthesize pattern state (Shape.ofHooks (some m) none) L' =
        Weave.synthesizeManaged pattern state m L' from rfl, Weave.synthesizeManaged_eq hentry' state m] at hs
      obtain ⟨-, rfl⟩ := EStateM.Result.ok.inj hs
      refine ⟨.managed m, _, [], [], ⟨hrefl, ⟨rfl, rfl, rfl, fun _ h => (by cases h), fun _ h => (by cases h)⟩,
        fun _ _ _ => ⟨rfl, rfl⟩⟩, ?_, by simp [Notice.errors]⟩
      rw [List.append_nil, List.append_nil]
      exact h.entry hentry _

end Parts

/-! ## The whole type -/

section Whole

variable {pattern : Pattern} {L L' : Loom} {d : MethodDef}

/-- whether a method of the author needs a guard does not depend on what is added meanwhile -/
theorem needsGuard_gains (hg : L.graph.Gains L'.graph) (hL : L.introduced = [])
    (hnew : ∀ m ∈ L'.introduced, L.graph.NewMethod L'.graph m) (hd : d.id.index < L.graph.methods.size) :
    Weave.needsGuard pattern L' d = Weave.needsGuard pattern L d := by
  have hnot : L'.introduced.contains d.id = false := by
    simp only [List.contains_eq_mem, decide_eq_false_iff_not]
    exact fun hmem => absurd hd (Nat.not_lt.2 (hnew d.id hmem).1)
  simp only [Weave.needsGuard, MethodDecl.isFinalizer, hg.method _ hd, hg.hasSignature, hnot, hL, List.contains_nil]

/-- a method that needs a guard is not the entry point, takes an instance and has a body -/
theorem ofInstance_of_needsGuard (h : Weave.needsGuard pattern L d = true) :
    d.id ≠ pattern.entry ∧ (L.graph.method d.id).isStatic = false ∧ d.body.isSome = true := by
  simp only [Weave.needsGuard, Bool.and_eq_true, bne_iff_ne, Bool.not_eq_true'] at h
  exact ⟨h.1.1.1.1.1.2, h.1.1.1.1.1.1.1.2, h.1.1.1.1.1.1.2⟩

theorem of_mem_needsGuard {definitions : List MethodDef} {m : MethodId}
    (hm : m ∈ (definitions.filter (Weave.needsGuard pattern L)).map MethodDef.id) :
    m ≠ pattern.entry ∧ (L.graph.method m).isStatic = false ∧ m ∈ definitions.map MethodDef.id := by
  obtain ⟨d, hd, rfl⟩ := List.mem_map.1 hm
  obtain ⟨hd, hneeds⟩ := List.mem_filter.1 hd
  exact ⟨(ofInstance_of_needsGuard hneeds).1, (ofInstance_of_needsGuard hneeds).2.1, List.mem_map_of_mem hd⟩

/-- the state makes no difference to what is reported about the fields of the author -/
theorem reports_withState (pattern : Pattern) {LD : Loom} (hD : L.graph.Gains LD.graph)
    (hsame : LD.target.fields = L.target.fields) (hfields : ∀ f ∈ L.target.fields, f.id.index < L.graph.fields.size) :
    Selection.reports (Weave.withState pattern LD).graph pattern.references pattern.settings
        [(Weave.nextState LD.graph).signaled, (Weave.nextState LD.graph).disposed]
        (Weave.withState pattern LD).target.fields.reverse =
      Selection.reports L.graph pattern.references pattern.settings [] L.target.fields.reverse := by
  have hknown : ∀ f ∈ L.target.fields.reverse, f.id.index < L.graph.fields.size := fun f hf =>
    hfields f (List.mem_reverse.1 hf)
  rw [fields_withState, hsame, ← (withState_gains pattern hD).reports hknown]
  exact Selection.reports_excluded [{ id := (Weave.nextState LD.graph).signaled },
    { id := (Weave.nextState LD.graph).disposed }] fun f hf => not_mem_nextState hD (hfields f hf)

/-- code that was generated on the way, over graphs that grew, is what the last graph has it to be -/
theorem bodies_since {LD : Loom} {G : TypeGraph} (hD : L.graph.Gains LD.graph) (hid : LD.target.id = L.target.id)
    (hG : (Weave.withState pattern LD).graph.Gains G) (hr : pattern.references.Declared L.graph)
    {fields : List FieldId} (hf : ∀ f ∈ fields, f.index < L.graph.fields.size) (derived : Option MethodId)
    (arrangement : Arrangement) :
    Fabric.bodies G pattern.references fields L.target.id ⟨Weave.nextState LD.graph, derived, arrangement⟩ =
      (derived.toList.map fun m => (m, Emission.derivedHook L.graph pattern.references fields)) ++
      [((Weave.nextState LD.graph).guard, Emission.guard (Weave.withFields pattern LD).graph pattern.references
        LD.target.id (Weave.nextState LD.graph).disposed)] ++
      arrangement.bodies G pattern.references (Weave.nextState LD.graph) := by
  have hF : L.graph.Gains (Weave.withFields pattern LD).graph :=
    (hD.trans (withField_gains LD _)).trans (withField_gains _ _)
  have hFG : (Weave.withFields pattern LD).graph.Gains G :=
    (TypeGraph.gains_addMethod _ _ (privateMethod_virtual _ _ _)).trans hG
  have hdisposed : (Weave.nextState LD.graph).disposed.index < (Weave.withFields pattern LD).graph.fields.size := by
    simp [Weave.withFields, Loom.withField, TypeGraph.addField, Weave.nextState]
  have hhook : Emission.derivedHook G pattern.references fields =
      Emission.derivedHook L.graph pattern.references fields := (hF.trans hFG).derivedHook hr hf
  have hguard : Emission.guard G pattern.references L.target.id (Weave.nextState LD.graph).disposed =
      Emission.guard (Weave.withFields pattern LD).graph pattern.references L.target.id
        (Weave.nextState LD.graph).disposed := hFG.guard (hF.declared hr) L.target.id hdisposed
  rw [Fabric.bodies, hhook, hguard, hid]

/-- the fields of the type that are disposed of, last declared first -/
def Loom.eligible (pattern : Pattern) (L : Loom) : List FieldId :=
  Selection.disposedFields L.graph pattern.references pattern.settings [] L.target.fields.reverse

/-- what can be said of generated code and of notices if fields, hooks and what the code calls are declared -/
structure Loom.Coded (pattern : Pattern) (L : Loom) (fabric : Fabric) (entryBody : Body)
    (bodies : List (MethodId × Body)) (noted : List Notice) (G : TypeGraph) : Prop where
  entry : entryBody = fabric.arrangement.entryBody G pattern.references fabric.state (L.eligible pattern)
  bodies : bodies = fabric.bodies G pattern.references (L.eligible pattern) L.target.id
  errors : Notice.errors noted = if Selection.hook? L.graph L.target.id pattern.settings.managedHook = none then
    Selection.reports L.graph pattern.references pattern.settings [] L.target.fields.reverse else []

/-- weaving a type of the first loom has led to the second: `fabric` is what the type has got, in bodies that were made on
the way, `targets` are the methods that have got a guard, and `noted` was noted -/
structure Loom.Weaves (pattern : Pattern) (L : Loom) (fabric : Fabric) (entryBody : Body)
    (bodies : List (MethodId × Body)) (targets : List MethodId) (noted : List Notice) (L' : Loom) : Prop where
  adds : L.Adds pattern (MethodDef.changeEach targets (Weave.addGuard (MethodRef.onSelf L'.graph fabric.state.guard))
      (MethodDef.changeFirst pattern.entry (fun d => { d with body := some entryBody }) L.target.methods)) bodies
    [fabric.state.signaled, fabric.state.disposed]
    [Weave.stateField L.target.id pattern.settings.signaledField pattern.references.int32,
      Weave.stateField L.target.id pattern.settings.disposedField pattern.references.boolean] noted L'
  fits : fabric.Fits pattern.settings pattern.references L.graph L'.graph L.target.id
  suits : fabric.Suits pattern.settings L.graph L.target.id (L.eligible pattern)
  guard : fabric.state.guard ∈ bodies.map Prod.fst
  targets : (∀ d ∈ L.target.methods, d.id.index < L.graph.methods.size) → targets =
    ((MethodDef.changeFirst pattern.entry (fun d => { d with body := some entryBody }) L.target.methods).filter
      (Weave.needsGuard pattern L)).map MethodDef.id
  coded : (∀ f ∈ L.target.fields, f.id.index < L.graph.fields.size) → L.graph.ListsDeclared →
    pattern.references.Declared L.graph → L.Coded pattern fabric entryBody bodies noted L'.graph

/-- declarations and generated code do not change which of the author's methods need a guard -/
theorem filter_needsGuard (hg : L.graph.Gains LZ.graph) (hL : L.introduced = [])
    (hnew : ∀ m ∈ LZ.introduced, L.graph.NewMethod LZ.graph m)
    (hmethods : ∀ d ∈ L.target.methods, d.id.index < L.graph.methods.size) (entryBody : Body) :
    (MethodDef.changeFirst pattern.entry (fun d => { d with body := some entryBody }) L.target.methods).filter
        (Weave.needsGuard pattern LZ) =
      (MethodDef.changeFirst pattern.entry (fun d => { d with body := some entryBody }) L.target.methods).filter
        (Weave.needsGuard pattern L) := by
  refine List.filter_congr fun d hd => needsGuard_gains hg hL hnew ?_
  have hid : ∀ d : MethodDef, ({ d with body := some entryBody } : MethodDef).id = d.id := fun _ => rfl
  have hmem := List.mem_map_of_mem (f := MethodDef.id) hd
  rw [MethodDef.ids_changeFirst pattern.entry hid] at hmem
  obtain ⟨d', hd', heq⟩ := List.mem_map.1 hmem
  exact heq ▸ hmethods d' hd'

/-- fields are looked at once: for the hook that is made for them, or else for the entry point -/
theorem one_scan {α : Type} {managed unmanaged derived : Option MethodId} (hderived : derived.isSome = true → unmanaged ≠ none)
    (noted : List α) :
    (if managed = none ∧ unmanaged ≠ none then noted else []) ++
      (if managed.or derived = none ∧ unmanaged = none then noted else []) = if managed = none then noted else [] := by
  cases managed with
  | some m => simp
  | none =>
    cases unmanaged with
    | some u => simp
    | none =>
      have hnone : derived = none := by
        cases derived with
        | none => rfl
        | some m => exact absurd rfl (hderived rfl)
      simp [hnone]

/-- **Weaving a type only adds to it**, whatever definitions it holds: it gets the state and methods of the weaver, and
what its author wrote keeps its place and is reworked at most. -/
theorem weaveType_weaves (hL : L.introduced = []) (hentry : pattern.entry ∈ L.target.methods.map MethodDef.id)
    (hc : Selection.collision? L.graph pattern.settings L.target.id = none) {shape : Option Shape}
    (h : Weave.weaveType pattern L = .ok shape L') : ∃ fabric entryBody bodies targets noted,
      shape = some fabric.arrangement.shape ∧ L.Weaves pattern fabric entryBody bodies targets noted L' := by
  rw [Weave.weaveType_eq hc] at h
  -- the four parts, each from the loom that the one before left
  obtain ⟨hook, LD, hsupply, h⟩ := answer_of_bind h
  obtain ⟨state, LS, hstate, h⟩ := answer_of_bind h
  obtain ⟨u, LZ, hsynthesize, h⟩ := answer_of_bind h
  obtain ⟨u', LG, hinject, h⟩ := answer_of_bind h
  obtain ⟨rfl, rfl⟩ := EStateM.Result.ok.inj h
  obtain ⟨rfl, rfl⟩ := EStateM.Result.ok.inj (Weave.createState_eq.symm.trans hstate)
  obtain ⟨derived, noted, rfl, haddsD, herrorsD, hderived, hneeded⟩ := supplyHook_adds hL hsupply rfl
  have haddsS := haddsD.state
  obtain ⟨hgainsS, hfits⟩ := withState_fits pattern LD
  obtain ⟨arrangement, entryBody, made, later, hsynthesized, haddsZ, herrorsZ⟩ := synthesize_adds haddsS hentry hsynthesize
  obtain ⟨LG', hinject', hgraph, hadds⟩ := haddsZ.guards (Weave.nextState LD.graph)
  obtain ⟨-, rfl⟩ := EStateM.Result.ok.inj (hinject'.symm.trans hinject)
  have hsame : LD.target.fields = L.target.fields := haddsD.fields.trans (List.append_nil _)
  rw [← hgraph, haddsD.id] at hadds
  refine ⟨⟨Weave.nextState LD.graph, derived, arrangement⟩, entryBody, _, _, noted ++ later,
    by rw [hsynthesized.fits.shape], hadds,
    fits_assembled pattern haddsD.gains haddsD.id (hgraph ▸ hsynthesized.gains) hderived (hgraph ▸ hsynthesized.fits),
    ⟨hsynthesized.fits.managed, hsynthesized.fits.unmanaged, hneeded⟩, by simp, fun hmethods => ?_,
    fun hfields hlists hr => ?_⟩
  · congr 1
    refine filter_needsGuard haddsZ.gains hL (fun m hm => ?_) hmethods entryBody
    rw [haddsZ.introduced] at hm
    obtain ⟨e, he, rfl⟩ := List.mem_map.1 hm
    exact (haddsZ.new e he).1
  · have hdisposedS := disposedFields_withState pattern haddsD.gains hsame hfields
    have hknown : ∀ f ∈ L.eligible pattern, f.index < L.graph.fields.size := disposedFields_declared hfields
    have hhooks : HooksKnown (Weave.withState pattern LD).graph
        ((Selection.hook? L.graph L.target.id pattern.settings.managedHook).or derived)
        (Selection.hook? L.graph L.target.id pattern.settings.unmanagedHook) :=
      hooksKnown_supplied hlists haddsS.gains fun m hm => Nat.lt_of_lt_of_le (hderived m hm).1.2 hgainsS.methods
    obtain ⟨hentryBody, hmade⟩ := hsynthesized.code (haddsS.gains.declared hr)
      ⟨hfits.signaled.1.2, hfits.disposed.1.2⟩ hhooks
    have hcode := bodies_since haddsD.gains haddsD.id hsynthesized.gains hr hknown derived arrangement
    refine ⟨?_, ?_, ?_⟩
    · rw [hgraph, hentryBody, hdisposedS]
      rfl
    · rw [hgraph, hcode, ← hmade, haddsD.id]
      rfl
    · rw [Notice.errors_append, herrorsD, herrorsZ, reports_withState pattern haddsD.gains hsame hfields]
      exact one_scan (fun h => (hneeded.1 h).2.1) _

/-- a generic method is declared, and so it stays what it is -/
theorem exchange_gains {g g' : TypeGraph} (hg : g.Gains g') {m : MethodId} (hx : (g.method m).generics.length = 1) :
    (g'.method m).generics.length = 1 := by
  have hlt : m.index < g.methods.size := by
    refine Nat.lt_of_not_le fun hle => ?_
    simp only [TypeGraph.method, Array.getD_eq_getD_getElem?, Array.getElem?_eq_none hle] at hx
    cases hx
  rw [hg.method m hlt, hx]

/-- weaving ends well, if the exchange that was found takes one type -/
theorem weaveType_runs (hx : (L.graph.method pattern.references.exchangeReference).generics.length = 1)
    (hL : L.introduced = []) (hentry : pattern.entry ∈ L.target.methods.map MethodDef.id)
    (hc : Selection.collision? L.graph pattern.settings L.target.id = none) :
    ∃ shape L', Weave.weaveType pattern L = .ok (some shape) L' := by
  obtain ⟨hook, LD, hsupply⟩ : ∃ hook LD, Weave.supplyHook pattern L L = .ok hook LD := by
    unfold Weave.supplyHook
    cases Selection.hook? L.graph L.target.id pattern.settings.managedHook with
    | some m => exact ⟨_, _, rfl⟩
    | none =>
      cases Selection.hook? L.graph L.target.id pattern.settings.unmanagedHook with
      | none => exact ⟨_, _, rfl⟩
      | some u =>
        simp only [Weave.deriveManagedHook_eq fun _ => hx]
        split <;> exact ⟨_, _, rfl⟩
  obtain ⟨_, _, -, hadds, -⟩ := supplyHook_adds hL hsupply rfl
  have hentryS := hadds.state.mem_methods hentry
  have hxS := exchange_gains hadds.state.gains hx
  obtain ⟨LZ, hsynthesize⟩ : ∃ LZ, Weave.synthesize pattern (Weave.nextState LD.graph)
      (Shape.ofHooks hook (Selection.hook? L.graph L.target.id pattern.settings.unmanagedHook))
      (Weave.withState pattern LD) = .ok () LZ := by
    cases Selection.hook? L.graph L.target.id pattern.settings.unmanagedHook with
    | some u => exact ⟨_, Weave.synthesizeUnmanaged_eq hentryS _ hook u⟩
    | none =>
      cases hook with
      | none => exact ⟨_, Weave.synthesizeSimple_eq (fun _ => hxS) hentryS⟩
      | some m => exact ⟨_, Weave.synthesizeManaged_eq hentryS _ m⟩
  rw [Weave.weaveType_eq hc]
  simp only [bind, EStateM.bind, hsupply, Weave.createState_eq, hsynthesize, Weave.injectGuards_eq]
  exact ⟨_, _, rfl⟩

end Whole

/-! ## What a type keeps -/

/-- what weaving declares on a type: `state`, and the methods that are `added` -/
structure Declares (pattern : Pattern) (g G : TypeGraph) (T : TypeId) (state : WovenState) (added : List MethodDef) :
    Prop where
  members : T.index < g.types.size →
    G.type T = (g.type T).withMembers (added.map MethodDef.id) [state.signaled, state.disposed]
  signaled : g.NewField G state.signaled ∧
    G.field state.signaled = Weave.stateField T pattern.settings.signaledField pattern.references.int32
  disposed : g.NewField G state.disposed ∧
    G.field state.disposed = Weave.stateField T pattern.settings.disposedField pattern.references.boolean
  guard : state.guard ∈ added.map MethodDef.id ∧
    G.method state.guard = Weave.privateMethod T pattern.settings.guardMethod []
  introduced : ∀ d ∈ added, g.NewMethod G d.id ∧ Introduces pattern T (G.method d.id)

/-- what a type keeps when it is woven, and what it gains: `added` are the methods -/
structure Enriched (pattern : Pattern) (g G : TypeGraph) (t : TypeDef) (state : WovenState) (added : List MethodDef)
    (t' : TypeDef) : Prop where
  id : t'.id = t.id
  markers : t'.markers = t.markers
  fields : t'.fields = t.fields ++ [{ id := state.signaled }, { id := state.disposed }]
  methods : ∃ authored, t'.methods = authored ++ added ∧
    List.Forall₂ (Reworked g pattern.entry (MethodRef.onSelf G state.guard)) t.methods authored
  declares : Declares pattern g G t.id state added

section Enriched

variable {pattern : Pattern} {L L' : Loom} {fabric : Fabric} {entryBody : Body} {bodies : List (MethodId × Body)}
  {targets : List MethodId} {noted : List Notice}

/-- definitions of the author are reworked at most, if they are of declared methods -/
theorem Loom.Weaves.reworked (h : L.Weaves pattern fabric entryBody bodies targets noted L')
    (hmethods : ∀ d ∈ L.target.methods, d.id.index < L.graph.methods.size) :
    List.Forall₂ (Reworked L.graph pattern.entry (MethodRef.onSelf L'.graph fabric.state.guard)) L.target.methods
      (MethodDef.changeEach targets (Weave.addGuard (MethodRef.onSelf L'.graph fabric.state.guard))
        (MethodDef.changeFirst pattern.entry (fun d => { d with body := some entryBody }) L.target.methods)) := by
  refine reworked_guards (fun m hm => ?_) (reworked_entry _ _ _ _ _)
  rw [h.targets hmethods] at hm
  exact (of_mem_needsGuard hm).2.1

theorem Loom.Weaves.enriched (h : L.Weaves pattern fabric entryBody bodies targets noted L')
    (hmethods : ∀ d ∈ L.target.methods, d.id.index < L.graph.methods.size) :
    Enriched pattern L.graph L'.graph L.target fabric.state
      (bodies.map fun e => { id := e.1, body := some e.2 }) L'.target := by
  have hids : (bodies.map fun e => ({ id := e.1, body := some e.2 } : MethodDef)).map MethodDef.id =
      bodies.map Prod.fst := by
    rw [List.map_map]
    rfl
  exact {
    id := h.adds.id
    markers := h.adds.markers
    fields := h.adds.fields
    methods := ⟨_, h.adds.methods, h.reworked hmethods⟩
    declares := {
      members := fun hlt => by rw [hids, h.adds.members hlt]
      signaled := h.fits.state.signaled
      disposed := h.fits.state.disposed
      guard := ⟨hids ▸ h.guard, h.fits.state.guard.2⟩
      introduced := fun d hd => by
        obtain ⟨e, he, rfl⟩ := List.mem_map.1 hd
        exact h.adds.new e he } }

end Enriched

end DisposalWeaver
