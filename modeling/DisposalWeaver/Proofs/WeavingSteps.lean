/-
The steps of weaving a type, in closed form.

Weaving goes step by step over a loom. Each step either declares a member (`Loom.withField`, `Loom.withMethod`), replaces
the body of the entry point (`Loom.withBody`) or puts guards in front of bodies, and answers; the steps that can give up do
not, once the entry point is defined and the exchange takes one type. So each step is an equation here.
-/
import DisposalWeaver.Proofs.ChangedDefinitions
import DisposalWeaver.Proofs.GeneratedCode
import DisposalWeaver.Proofs.Outcomes

namespace DisposalWeaver

/-! ## Steps in closed form -/

namespace Loom

/-- the loom after a field was declared on the type -/
def withField (L : Loom) (decl : FieldDecl) : Loom :=
  { L with
    graph := (L.graph.addField decl).2
    target := { L.target with fields := L.target.fields ++ [{ id := ⟨L.graph.fields.size⟩ }] } }

/-- the loom after a method with a body was declared on the type -/
def withMethod (L : Loom) (decl : MethodDecl) (body : Body) : Loom :=
  { L with
    graph := (L.graph.addMethod decl).2
    target := { L.target with methods := L.target.methods ++ [{ id := ⟨L.graph.methods.size⟩, body := some body }] }
    introduced := L.introduced ++ [⟨L.graph.methods.size⟩] }

/-- the loom after the body of a method was replaced -/
def withBody (L : Loom) (m : MethodId) (body : Body) : Loom :=
  { L with target := L.target.updateMethod m fun d => { d with body := some body } }

end Loom

namespace Weave

variable {L : Loom} {pattern : Pattern}

theorem declareField_eq (name : MemberName) (type : TypeId) : declareField name type L = .ok ⟨L.graph.fields.size⟩
    (L.withField { declaring := L.target.id, name, type := .named type, flags := FieldFlags.private_ }) := by
  simp only [declareField, bind, EStateM.bind, get_run, TypeDef.declareField?,
    ↓reduceIte, liftModel]
  rfl

theorem declareMethod_eq (name : MemberName) (flags : MethodFlags) (parameters : List Parameter) (body : Body) :
    declareMethod name flags parameters body L = .ok ⟨L.graph.methods.size⟩
      (L.withMethod { declaring := L.target.id, name, flags, parameters } body) := by
  simp only [declareMethod, bind, EStateM.bind, get_run, TypeDef.declareMethod?,
    ↓reduceIte, liftModel]
  rfl

theorem replaceEntry_eq (h : pattern.entry ∈ L.target.methods.map MethodDef.id) (body : Body) :
    replaceEntry pattern body L = .ok () (L.withBody pattern.entry body) := by
  obtain ⟨d, hd, hid⟩ := List.mem_map.1 h
  have hfound : ∃ found, L.target.method? pattern.entry = some found := by
    unfold TypeDef.method?
    cases hf : L.target.methods.find? fun definition => definition.id == pattern.entry with
    | some found => exact ⟨found, rfl⟩
    | none =>
      rw [List.find?_eq_none] at hf
      exact absurd (by simpa using hid) (hf d hd)
  obtain ⟨found, hfound⟩ := hfound
  simp only [replaceEntry, bind, EStateM.bind, get_run, hfound]
  rfl

end Weave

/-- the fields that are disposed of, in the order in which they are defined -/
def Selection.disposedFields (g : TypeGraph) (references : References) (settings : Settings) (excluded : List FieldId)
    (fields : List FieldDef) : List FieldId :=
  (fields.filter fun f => fate g references settings excluded f = .disposed).map FieldDef.id

section

variable {g : TypeGraph} {references : References} {settings : Settings} {excluded : List FieldId} {f : FieldDef}
  {rest : List FieldDef}

theorem Selection.disposedFields_kept (h : fate g references settings excluded f ≠ .disposed) :
    disposedFields g references settings excluded (f :: rest) = disposedFields g references settings excluded rest := by
  simp [disposedFields, h]

theorem Selection.disposedFields_disposed (h : fate g references settings excluded f = .disposed) :
    disposedFields g references settings excluded (f :: rest) =
      f.id :: disposedFields g references settings excluded rest := by
  simp [disposedFields, h]

/-- what is done about a field does not depend on members that types gain -/
theorem TypeGraph.Gains.fateOf {g' : TypeGraph} (h : g.Gains g') (f : FieldDecl) :
    Selection.fateOf g' references f = Selection.fateOf g references f := by
  have hdisposable : Selection.isDisposable g' references f.type = Selection.isDisposable g references f.type :=
    h.isAssignable f.type _
  have htask : Selection.isTask g' f.type = Selection.isTask g f.type := by simp only [Selection.isTask, h.name]
  have hpath : g'.fieldPath f = g.fieldPath f := by simp only [TypeGraph.fieldPath, TypeGraph.nameOf, h.name]
  unfold Selection.fateOf
  rw [hdisposable, htask, h.isValueTypeRef, h.isOpenGeneric, hpath]

/-- the hooks of a type do not depend on what other types gain -/
theorem TypeGraph.Gains.hook? {g' : TypeGraph} (h : g.Gains g') (hl : g.ListsDeclared) {t : TypeId}
    (ht : g'.type t = g.type t) (name : MemberName) : Selection.hook? g' t name = Selection.hook? g t name := by
  unfold Selection.hook?
  rw [ht]
  refine List.find?_congr fun m hm => ?_
  rw [h.method m (hl t m hm), h.hasSignature]

theorem TypeGraph.Gains.isSkipped {g' : TypeGraph} (h : g.Gains g') (markers : List Marker) :
    Selection.isSkipped g' settings markers = Selection.isSkipped g settings markers := by
  simp only [Selection.isSkipped, Marker.isNamed, h.name]

theorem TypeGraph.Gains.fate {g' : TypeGraph} (h : g.Gains g') (hf : f.id.index < g.fields.size) :
    Selection.fate g' references settings excluded f = Selection.fate g references settings excluded f := by
  unfold Selection.fate
  rw [h.isSkipped, h.field _ hf, h.fateOf]

theorem TypeGraph.Gains.disposedFields {g' : TypeGraph} (h : g.Gains g') {fields : List FieldDef}
    (hf : ∀ f ∈ fields, f.id.index < g.fields.size) :
    Selection.disposedFields g' references settings excluded fields =
      Selection.disposedFields g references settings excluded fields := by
  unfold Selection.disposedFields
  congr 1
  exact List.filter_congr fun f hm => by rw [h.fate (hf f hm)]

theorem Selection.fate_excluded (h : f.id ∈ excluded) : fate g references settings excluded f = .ignored := by
  simp only [fate, List.contains_iff_mem.2 h, Bool.true_or, ↓reduceIte]

theorem Selection.fate_included (h : f.id ∉ excluded) :
    fate g references settings excluded f = fate g references settings [] f := by
  have hcontains : excluded.contains f.id = false := by simpa using h
  unfold fate
  rw [hcontains, List.contains_nil]

/-- leaving out fields that are not there makes no difference, nor do fields that are left out -/
theorem Selection.disposedFields_excluded {fields : List FieldDef} (new : List FieldDef)
    (hf : ∀ f ∈ fields, f.id ∉ new.map FieldDef.id) :
    disposedFields g references settings (new.map FieldDef.id) (fields ++ new).reverse =
      disposedFields g references settings [] fields.reverse := by
  have hnew : (new.reverse.filter fun f => fate g references settings (new.map FieldDef.id) f = .disposed) = [] := by
    refine List.filter_eq_nil_iff.2 fun f hm => ?_
    rw [fate_excluded (List.mem_map_of_mem (List.mem_reverse.1 hm))]
    decide
  unfold disposedFields
  rw [List.reverse_append, List.filter_append, hnew, List.nil_append]
  congr 1
  exact List.filter_congr fun f hm => by rw [fate_included (hf f (List.mem_reverse.1 hm))]

end

/-! ## Notices -/

/-- the errors among notices, in order -/
def Notice.errors (noted : List Notice) : List Notice :=
  noted.filter fun notice => notice.severity == .error

theorem Notice.errors_append (noted later : List Notice) : errors (noted ++ later) = errors noted ++ errors later :=
  List.filter_append ..

/-- is it a field that cannot be woven, rather than the type? -/
def Violation.isOfField : Violation → Bool
  | .readonlyField _ | .valueTypeField _ | .genericField _ => true
  | _ => false

def Notice.violation? : Notice → Option Violation
  | .violation cause => some cause
  | _ => none

/-- the violations among notices, in order -/
def Notice.violations (notices : List Notice) : List Violation :=
  notices.filterMap Notice.violation?

/-- the diagnostics with more notices after the others -/
def Diagnostics.recordAll (diagnostics : Diagnostics) (noted : List Notice) : Diagnostics :=
  ⟨diagnostics.notices ++ noted⟩

namespace Diagnostics

variable {diagnostics : Diagnostics} {noted later : List Notice}

@[simp] theorem notices_recordAll : (diagnostics.recordAll noted).notices = diagnostics.notices ++ noted := rfl

@[simp] theorem recordAll_nil : diagnostics.recordAll [] = diagnostics := by simp [recordAll]

@[simp] theorem recordAll_recordAll : (diagnostics.recordAll noted).recordAll later = diagnostics.recordAll (noted ++ later) := by
  simp [recordAll]

theorem record_eq (notice : Notice) : diagnostics.record notice = diagnostics.recordAll [notice] := rfl

end Diagnostics

/-- are all violations among the notices of fields? -/
def Notice.OfFields (noted : List Notice) : Prop :=
  ∀ v ∈ Notice.violations noted, v.isOfField = true

theorem Notice.OfFields.append {noted later : List Notice} (h : OfFields noted) (h' : OfFields later) :
    OfFields (noted ++ later) := by
  intro v hv
  rw [violations, List.filterMap_append] at hv
  exact (List.mem_append.1 hv).elim (h v) (h' v)

/-- what is reported about a field is of the field -/
theorem Selection.isOfField_of_fate {g : TypeGraph} {references : References} {settings : Settings}
    {excluded : List FieldId} {f : FieldDef} {violation : Violation}
    (h : fate g references settings excluded f = .reported violation) : violation.isOfField = true := by
  unfold fate at h
  split at h
  · cases h
  unfold fateOf at h
  split at h
  · cases h
  split at h
  · cases h; rfl
  split at h
  · cases h; rfl
  split at h
  · cases h; rfl
  · cases h

/-- what is reported about fields, in the order in which they are looked at -/
def Selection.reports (g : TypeGraph) (references : References) (settings : Settings) (excluded : List FieldId)
    (fields : List FieldDef) : List Notice :=
  fields.filterMap fun f =>
    match fate g references settings excluded f with
    | .reported violation => some (.violation violation)
    | _ => none

theorem Selection.reports_ofFields (g : TypeGraph) (references : References) (settings : Settings)
    (excluded : List FieldId) (fields : List FieldDef) : Notice.OfFields (reports g references settings excluded fields) := by
  intro v hv
  obtain ⟨notice, hnotice, hviolation⟩ := List.mem_filterMap.1 hv
  obtain ⟨f, -, hf⟩ := List.mem_filterMap.1 hnotice
  split at hf
  · next violation hfate =>
    cases hf
    cases hviolation
    exact isOfField_of_fate hfate
  · cases hf

section

variable {g g' : TypeGraph} {references : References} {settings : Settings} {excluded : List FieldId}
  {fields : List FieldDef}

/-- whatever is reported about a field is an error -/
theorem Selection.errors_reports : Notice.errors (reports g references settings excluded fields) =
    reports g references settings excluded fields := by
  apply List.filter_eq_self.2
  intro notice hnotice
  obtain ⟨f, -, hf⟩ := List.mem_filterMap.1 hnotice
  split at hf
  · cases hf
    rfl
  · cases hf

/-- what is reported about fields does not depend on members that types gain -/
theorem TypeGraph.Gains.reports (h : g.Gains g') (hf : ∀ f ∈ fields, f.id.index < g.fields.size) :
    Selection.reports g' references settings excluded fields = Selection.reports g references settings excluded fields :=
  List.filterMap_congr fun f hmem => by rw [h.fate (hf f hmem)]

/-- nothing is reported about fields that are left out, and leaving out others makes no difference -/
theorem Selection.reports_excluded (new : List FieldDef) (hf : ∀ f ∈ fields, f.id ∉ new.map FieldDef.id) :
    reports g references settings (new.map FieldDef.id) (fields ++ new).reverse =
      reports g references settings [] fields.reverse := by
  have hnew : reports g references settings (new.map FieldDef.id) new.reverse = [] := by
    refine List.filterMap_eq_nil_iff.2 fun f hm => ?_
    rw [fate_excluded (List.mem_map_of_mem (List.mem_reverse.1 hm))]
  unfold reports at hnew ⊢
  rw [List.reverse_append, List.filterMap_append, hnew, List.nil_append]
  exact List.filterMap_congr fun f hm => by rw [fate_included (hf f (List.mem_reverse.1 hm))]

end

namespace Weave

variable {L L' : Loom} {pattern : Pattern}

/-- **What is generated for fields** disposes of those that can be disposed of; besides, fields are reported. That ends
well if the exchange can be used wherever it is needed. -/
theorem disposeEach_eq_ok_iff {excluded : List FieldId} {fields : List FieldDef} {body : Body} {count : Nat}
    {r : Body × Nat} : disposeEach pattern excluded fields body count L = .ok r L' ↔
      (Selection.disposedFields L.graph pattern.references pattern.settings excluded fields ≠ [] →
        (L.graph.method pattern.references.exchangeReference).generics.length = 1) ∧
      r = (Emission.disposals L.graph pattern.references
          (Selection.disposedFields L.graph pattern.references pattern.settings excluded fields) body,
        count + (Selection.disposedFields L.graph pattern.references pattern.settings excluded fields).length) ∧
      L' = { L with
        diagnostics := L.diagnostics.recordAll
          (Selection.reports L.graph pattern.references pattern.settings excluded fields) } := by
  induction fields generalizing L body count with
  | nil =>
    simp only [Selection.reports, List.filterMap_nil, Diagnostics.recordAll_nil]
    constructor
    · intro h
      cases h
      exact ⟨fun hne => absurd rfl hne, rfl, rfl⟩
    · rintro ⟨-, rfl, rfl⟩
      rfl
  | cons f rest ih =>
    unfold disposeEach Selection.reports
    simp only [bind, EStateM.bind, get_run, List.filterMap_cons]
    cases hf : Selection.fate L.graph pattern.references pattern.settings excluded f with
    | ignored =>
      rw [Selection.disposedFields_kept (by simp [hf])]
      exact ih
    | reported violation =>
      have hrest := @ih { L with diagnostics := L.diagnostics.record (.violation violation) } body count
      rw [Selection.disposedFields_kept (by simp [hf])]
      rw [Diagnostics.record_eq, Diagnostics.recordAll_recordAll] at hrest
      exact hrest
    | disposed =>
      rw [Selection.disposedFields_disposed hf, List.length_cons, ← Nat.add_assoc, Nat.add_right_comm count]
      cases hcode : Emission.fieldDisposal L.graph pattern.references f.id body with
      | error cause =>
        have hexchange : (L.graph.method pattern.references.exchangeReference).generics.length ≠ 1 := fun h => by
          rw [Emission.fieldDisposal_eq_ok_iff.2 ⟨h, rfl⟩] at hcode
          cases hcode
        exact ⟨fun h => (by cases h), fun h => absurd (h.1 (List.cons_ne_nil _ _)) hexchange⟩
      | ok code =>
        obtain ⟨hexchange, rfl⟩ := Emission.fieldDisposal_eq_ok_iff.1 hcode
        refine ih.trans ?_
        simp only [hexchange, implies_true, true_and]
        exact Iff.rfl

/-- declaration of a private method -/
def privateMethod (t : TypeId) (name : MemberName) (parameters : List Parameter) : MethodDecl :=
  { declaring := t, name, flags := MethodFlags.ofPrivate, parameters }

/-- the loom after the fields of the type were looked at -/
def withReports (pattern : Pattern) (excluded : List FieldId) (L : Loom) : Loom :=
  { L with
    diagnostics := L.diagnostics.recordAll
      (Selection.reports L.graph pattern.references pattern.settings excluded L.target.fields.reverse) }

theorem deriveManagedHook_eq
    (hx : Selection.disposedFields L.graph pattern.references pattern.settings [] L.target.fields.reverse ≠ [] →
      (L.graph.method pattern.references.exchangeReference).generics.length = 1) :
    deriveManagedHook pattern L =
      if Selection.disposedFields L.graph pattern.references pattern.settings [] L.target.fields.reverse = [] then
        .ok none (withReports pattern [] L)
      else .ok (some ⟨L.graph.methods.size⟩) ((withReports pattern [] L).withMethod
        (privateMethod L.target.id pattern.settings.managedHook [])
        (Emission.derivedHook L.graph pattern.references
          (Selection.disposedFields L.graph pattern.references pattern.settings [] L.target.fields.reverse))) := by
  have h : disposeEach pattern [] L.target.fields.reverse Body.empty 0 L = .ok _ _ :=
    disposeEach_eq_ok_iff.2 ⟨hx, rfl, rfl⟩
  simp only [deriveManagedHook, disposeFields, bind, EStateM.bind, get_run, h, Nat.zero_add]
  by_cases hfields : Selection.disposedFields L.graph pattern.references pattern.settings [] L.target.fields.reverse = []
  · simp only [hfields, List.length_nil, ↓reduceIte]
    rfl
  · rw [if_neg hfields, if_neg (by simpa using hfields)]
    simp only [EStateM.bind, declareMethod_eq]
    rfl

theorem deriveManagedHook_ok {hook : Option MethodId} (h : deriveManagedHook pattern L = .ok hook L') :
    (Selection.disposedFields L.graph pattern.references pattern.settings [] L.target.fields.reverse = [] ∧
      hook = none ∧ L' = withReports pattern [] L) ∨
    Selection.disposedFields L.graph pattern.references pattern.settings [] L.target.fields.reverse ≠ [] ∧
      hook = some ⟨L.graph.methods.size⟩ ∧ L' = (withReports pattern [] L).withMethod
        (privateMethod L.target.id pattern.settings.managedHook [])
        (Emission.derivedHook L.graph pattern.references
          (Selection.disposedFields L.graph pattern.references pattern.settings [] L.target.fields.reverse)) := by
  obtain ⟨r, L1, hscan, -⟩ := answer_of_bind h
  have hx := (disposeEach_eq_ok_iff (L := L).1 hscan).1
  rw [deriveManagedHook_eq hx] at h
  split at h
  · next hnone =>
    cases h
    exact .inl ⟨hnone, rfl, rfl⟩
  · next hsome =>
    cases h
    exact .inr ⟨hsome, rfl, rfl⟩

/-- declaration of a field of the state -/
def stateField (t : TypeId) (name : MemberName) (type : TypeId) : FieldDecl :=
  { declaring := t, name, type := .named type, flags := FieldFlags.private_ }

/-- the loom after the fields of the state were declared -/
def withFields (pattern : Pattern) (L : Loom) : Loom :=
  (L.withField (stateField L.target.id pattern.settings.signaledField pattern.references.int32)).withField
    (stateField L.target.id pattern.settings.disposedField pattern.references.boolean)

/-- the loom after the state was declared -/
def withState (pattern : Pattern) (L : Loom) : Loom :=
  (withFields pattern L).withMethod (privateMethod L.target.id pattern.settings.guardMethod [])
    (Emission.guard (withFields pattern L).graph pattern.references L.target.id ⟨L.graph.fields.size + 1⟩)

/-- the state that is declared next -/
def nextState (g : TypeGraph) : WovenState where
  signaled := ⟨g.fields.size⟩
  disposed := ⟨g.fields.size + 1⟩
  guard := ⟨g.methods.size⟩

theorem createState_eq : createState pattern L = .ok (nextState L.graph) (withState pattern L) := by
  have hsize : ∀ decl, (L.withField decl).graph.fields.size = L.graph.fields.size + 1 := by
    simp [Loom.withField, TypeGraph.addField]
  simp only [createState, bind, EStateM.bind, declareField_eq, declareMethod_eq, get_run, hsize]
  rfl

theorem synthesizeSimple_eq {state : WovenState}
    (hx : Selection.disposedFields L.graph pattern.references pattern.settings [state.signaled, state.disposed]
      L.target.fields.reverse ≠ [] → (L.graph.method pattern.references.exchangeReference).generics.length = 1)
    (hentry : pattern.entry ∈ L.target.methods.map MethodDef.id) :
    synthesizeSimple pattern state L = .ok ()
      ((withReports pattern [state.signaled, state.disposed] L).withBody pattern.entry
        (Emission.simpleEntry L.graph pattern.references state (Selection.disposedFields L.graph pattern.references
          pattern.settings [state.signaled, state.disposed] L.target.fields.reverse))) := by
  have h : disposeEach pattern [state.signaled, state.disposed] L.target.fields.reverse
      (Emission.escapeCheck L.graph pattern.references state.signaled Body.empty) 0 L = .ok _ _ :=
    disposeEach_eq_ok_iff.2 ⟨hx, rfl, rfl⟩
  simp only [synthesizeSimple, disposeFields, bind, EStateM.bind, get_run, h]
  exact replaceEntry_eq (L := withReports pattern [state.signaled, state.disposed] L) hentry _

theorem synthesizeSimple_ok (hentry : pattern.entry ∈ L.target.methods.map MethodDef.id) {state : WovenState}
    (h : synthesizeSimple pattern state L = .ok () L') :
    L' = (withReports pattern [state.signaled, state.disposed] L).withBody pattern.entry
      (Emission.simpleEntry L.graph pattern.references state (Selection.disposedFields L.graph pattern.references
        pattern.settings [state.signaled, state.disposed] L.target.fields.reverse)) := by
  obtain ⟨_, _, hget, hrest⟩ := answer_of_bind h
  cases hget
  obtain ⟨r, L1, hscan, -⟩ := answer_of_bind hrest
  have hx := (disposeEach_eq_ok_iff (L := L).1 hscan).1
  exact (EStateM.Result.ok.inj (h.symm.trans (synthesizeSimple_eq hx hentry))).2

theorem synthesizeManaged_eq (hentry : pattern.entry ∈ L.target.methods.map MethodDef.id) (state : WovenState)
    (managed : MethodId) : synthesizeManaged pattern state managed L =
      .ok () (L.withBody pattern.entry (Emission.managedEntry L.graph pattern.references state managed)) := by
  simp only [synthesizeManaged, bind, EStateM.bind, get_run]
  exact replaceEntry_eq hentry _

/-- the loom after the routine was declared and the entry point goes through it -/
def withRoutine (pattern : Pattern) (state : WovenState) (managed : Option MethodId) (unmanaged : MethodId) (L : Loom) :
    Loom :=
  let disposing : Parameter :=
    { name := pattern.settings.disposingParameter, type := .named pattern.references.boolean }
  let declared := L.withMethod (privateMethod L.target.id MemberName.dispose [disposing])
    (Emission.routine L.graph pattern.references state managed unmanaged)
  declared.withBody pattern.entry
    (Emission.entryThroughRoutine declared.graph pattern.references ⟨L.graph.methods.size⟩)

/-- the loom after a finalizer was attached, unless the type declared one by then -/
def withFinalizer (pattern : Pattern) (routine : MethodId) (L : Loom) : Loom :=
  if (L.graph.type L.target.id).methods.any fun m => (L.graph.method m).isFinalizer L.graph then
    { L with
      diagnostics := L.diagnostics.record
        (.finalizerKept (L.graph.nameOf L.target.id) pattern.settings.unmanagedHook.text) }
  else L.withMethod { declaring := L.target.id, name := MemberName.finalize, flags := MethodFlags.ofFinalizer }
    (Emission.finalizer L.graph pattern.references routine)

theorem attachFinalizer_eq (routine : MethodId) :
    attachFinalizer pattern routine L = .ok () (withFinalizer pattern routine L) := by
  simp only [attachFinalizer, bind, EStateM.bind, get_run, withFinalizer]
  split
  · rfl
  · simp only [EStateM.bind, declareMethod_eq]
    rfl

theorem synthesizeUnmanaged_eq (hentry : pattern.entry ∈ L.target.methods.map MethodDef.id) (state : WovenState)
    (managed : Option MethodId) (unmanaged : MethodId) :
    synthesize pattern state (Shape.ofHooks managed (some unmanaged)) L =
      .ok () (withFinalizer pattern ⟨L.graph.methods.size⟩ (withRoutine pattern state managed unmanaged L)) := by
  have hreplace : ∀ decl body body', replaceEntry pattern body' (L.withMethod decl body) =
      .ok () ((L.withMethod decl body).withBody pattern.entry body') := fun decl body body' =>
    replaceEntry_eq (L := L.withMethod decl body) (by simpa [Loom.withMethod] using .inl (by simpa using hentry)) body'
  have hshape : synthesize pattern state (Shape.ofHooks managed (some unmanaged)) =
      synthesizeUnmanaged pattern state managed unmanaged := by
    cases managed <;> rfl
  simp only [hshape, synthesizeUnmanaged, bind, EStateM.bind, get_run, declareMethod_eq, hreplace]
  exact attachFinalizer_eq _

theorem injectGuards_eq (state : WovenState) : injectGuards pattern state L = .ok () { L with
    target := ((L.target.methods.filter (needsGuard pattern L)).map MethodDef.id).foldl
      (fun target m => target.updateMethod m (addGuard (MethodRef.onSelf L.graph state.guard))) L.target } :=
  rfl

/-- the managed hook that the type declares, or else one that is made for it where only an unmanaged one is declared -/
def supplyHook (pattern : Pattern) (L : Loom) : Weave (Option MethodId) :=
  match Selection.hook? L.graph L.target.id pattern.settings.managedHook,
    Selection.hook? L.graph L.target.id pattern.settings.unmanagedHook with
  | none, some _ => deriveManagedHook pattern
  | managed, _ => pure managed

/-- the parts of weaving a type, one after another, when no name is taken -/
theorem weaveType_eq (hc : Selection.collision? L.graph pattern.settings L.target.id = none) :
    weaveType pattern L = (do
      let managed ← supplyHook pattern L
      let state ← createState pattern
      let shape := Shape.ofHooks managed (Selection.hook? L.graph L.target.id pattern.settings.unmanagedHook)
      synthesize pattern state shape
      injectGuards pattern state
      return some shape : Weave (Option Shape)) L := by
  unfold weaveType supplyHook
  simp only [bind, EStateM.bind, get_run, hc]
  cases Selection.hook? L.graph L.target.id pattern.settings.managedHook <;>
    cases Selection.hook? L.graph L.target.id pattern.settings.unmanagedHook <;> rfl

theorem weaveType_taken {violation : Violation}
    (hc : Selection.collision? L.graph pattern.settings L.target.id = some violation) :
    weaveType pattern L = .ok none { L with diagnostics := L.diagnostics.record (.violation violation) } := by
  unfold weaveType
  simp only [bind, EStateM.bind, get_run, hc]
  rfl

end Weave

end DisposalWeaver
