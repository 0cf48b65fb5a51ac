/-
Which fields generated code names.

Code that weaving generates names the state of its type and the fields that are disposed of, and no others
(`WovenModule.provenance`). A field is disposed of if it is an instance field of a disposable type that can be nulled out
and whose type is not called a pending computation (`Selection.Swapped`). So whatever is called so is spared
(`weave_spares_tasks`), and of handles to pending computations nothing else is, as all of them can be disposed of
(`Selection.fateOf_handle`, `Selection.fateOf_parameter`).
-/
import DisposalWeaver.Proofs.VerifiedWeaving

namespace DisposalWeaver

/-! ## Fields that are disposed of -/

/-- what a field is that is disposed of -/
structure Selection.Swapped (g : TypeGraph) (references : References) (f : FieldDecl) : Prop where
  ofInstance : f.flags.isStatic = false
  disposable : isDisposable g references f.type = true
  notTask : isTask g f.type = false
  writable : f.flags.isInitOnly = false
  reference : g.isValueTypeRef f.type = false
  closed : g.isOpenGeneric f.type = false

theorem Selection.fateOf_eq_disposed {g : TypeGraph} {references : References} {f : FieldDecl} :
    fateOf g references f = .disposed ↔ Swapped g references f := by
  constructor
  · intro h
    unfold fateOf at h
    split_ifs at h with hignored hinit hvalue hopen
    simp only [Bool.or_eq_true, Bool.not_eq_true', not_or, Bool.not_eq_true, Bool.not_eq_false] at hignored
    exact ⟨hignored.1.1, hignored.1.2, hignored.2, by simpa using hinit, by simpa using hvalue, by simpa using hopen⟩
  · intro h
    simp [fateOf, h.ofInstance, h.disposable, h.notTask, h.writable, h.reference, h.closed]

theorem Selection.mem_disposedFields {g : TypeGraph} {references : References} {settings : Settings}
    {excluded : List FieldId} {fields : List FieldDef} {f : FieldId}
    (hf : f ∈ disposedFields g references settings excluded fields) :
    (∃ d ∈ fields, d.id = f) ∧ Swapped g references (g.field f) := by
  obtain ⟨d, hd, rfl⟩ := List.mem_map.1 hf
  obtain ⟨hd, hfate⟩ := List.mem_filter.1 hd
  refine ⟨⟨d, hd, rfl⟩, fateOf_eq_disposed.1 ?_⟩
  have hdisposed := of_decide_eq_true hfate
  unfold fate at hdisposed
  split at hdisposed
  · cases hdisposed
  · exact hdisposed

/-! ## Fields that code names -/

/-- the field that the instruction works on -/
def Instruction.field? : Instruction → Option FieldId
  | .ldfld f | .ldflda f | .stfld f | .ldsfld f | .stsfld f => some f.field
  | _ => none

/-- the code works only on fields of which the property holds -/
def Body.Names (body : Body) (property : FieldId → Prop) : Prop :=
  ∀ slot ∈ body.slots, ∀ f ∈ slot.instruction.field?, property f

section Code

variable {g : TypeGraph} {references : References} {state : WovenState} {body : Body} {code : List Instruction}
  {fields : List FieldId} {property property' : FieldId → Prop}

theorem Body.Names.imp (h : body.Names property) (himp : ∀ f, property f → property' f) : body.Names property' :=
  fun slot hslot f hf => himp f (h slot hslot f hf)

theorem Body.Holds.names (h : body.Holds code) (hcode : ∀ i ∈ code, ∀ f ∈ i.field?, property f) : body.Names property := by
  intro slot hslot f hf
  refine hcode slot.instruction ?_ f hf
  rw [← h.slots]
  exact List.mem_map_of_mem (Array.mem_toList_iff.2 hslot)

namespace Emission

/-- the fields of the state that generated code works on, and the fields that are disposed of -/
def Works (state : WovenState) (fields : List FieldId) (f : FieldId) : Prop :=
  f = state.signaled ∨ f = state.disposed ∨ f ∈ fields

theorem field?_callTo (m : MethodRef) : (Instruction.callTo g m).field? = none := by
  unfold Instruction.callTo
  split <;> rfl

theorem field?_disposalCode (start : Nat) (e : FieldId × Option UInt16) :
    ∀ i ∈ disposalCode g references start e, ∀ f ∈ i.field?, f = e.1 := by
  obtain ⟨field, slot⟩ := e
  cases slot <;> simp [disposalCode, Instruction.field?, FieldRef.onSelf]

theorem mem_plan {used : Nat} {e : FieldId × Option UInt16} (he : e ∈ plan g used fields) : e.1 ∈ fields := by
  induction fields generalizing used with
  | nil => cases he
  | cons f rest ih =>
    rw [plan] at he
    split at he
    all_goals
      rcases List.mem_cons.1 he with rfl | he
      · exact List.mem_cons_self
      · exact List.mem_cons_of_mem _ (ih he)

theorem field?_disposalsCode {start : Nat} {plan : List (FieldId × Option UInt16)} :
    ∀ i ∈ disposalsCode g references start plan, ∀ f ∈ i.field?, ∃ e ∈ plan, e.1 = f := by
  induction plan generalizing start with
  | nil => exact fun i hi => by cases hi
  | cons e rest ih =>
    intro i hi f hf
    rcases List.mem_append.1 hi with hi | hi
    · exact ⟨e, List.mem_cons_self, (field?_disposalCode start e i hi f hf).symm⟩
    · obtain ⟨e', he', heq⟩ := ih i hi f hf
      exact ⟨e', List.mem_cons_of_mem _ he', heq⟩

theorem field?_escapeCode (signaled : FieldId) (start : Nat) :
    ∀ i ∈ escapeCode g references signaled start, ∀ f ∈ i.field?, f = signaled := by
  simp [escapeCode, Instruction.field?, FieldRef.onSelf]

theorem field?_setDisposedCode (disposed : FieldId) :
    ∀ i ∈ setDisposedCode g disposed, ∀ f ∈ i.field?, f = disposed := by
  simp [setDisposedCode, Instruction.field?, FieldRef.onSelf]

theorem field?_callCode (m : MethodId) : ∀ i ∈ callCode g m, i.field? = none := by
  intro i hi
  simp only [callCode, List.mem_cons, List.not_mem_nil, or_false] at hi
  rcases hi with rfl | rfl
  · rfl
  · exact field?_callTo _

theorem field?_managedCode (m : MethodId) (start : Nat) : ∀ i ∈ managedCode g m start, i.field? = none := by
  intro i hi
  simp only [managedCode, List.mem_append, List.mem_cons, List.not_mem_nil, or_false] at hi
  rcases hi with ((rfl | rfl) | hi) | rfl
  · rfl
  · rfl
  · exact field?_callCode m i hi
  · rfl

theorem simpleEntry_names (state : WovenState) (fields : List FieldId) :
    (simpleEntry g references state fields).Names (Works state fields) := by
  refine (simpleEntry_holds g references state fields).names fun i hi f hf => ?_
  simp only [simpleEntryCode, List.mem_append, List.mem_singleton] at hi
  rcases hi with ((hi | hi) | hi) | rfl
  · exact .inl (field?_escapeCode _ _ i hi f hf)
  · obtain ⟨e, he, rfl⟩ := field?_disposalsCode i hi f hf
    exact .inr (.inr (mem_plan he))
  · exact .inr (.inl (field?_setDisposedCode _ i hi f hf))
  · cases hf

theorem derivedHook_names (state : WovenState) (fields : List FieldId) :
    (derivedHook g references fields).Names (Works state fields) := by
  refine (derivedHook_holds g references fields).names fun i hi f hf => ?_
  rcases List.mem_append.1 hi with hi | hi
  · obtain ⟨e, he, rfl⟩ := field?_disposalsCode i hi f hf
    exact .inr (.inr (mem_plan he))
  · rw [List.mem_singleton.1 hi] at hf
    cases hf

theorem managedEntry_names (state : WovenState) (managed : MethodId) :
    (managedEntry g references state managed).Names (Works state fields) := by
  refine (managedEntry_holds g references state managed).names fun i hi f hf => ?_
  simp only [managedEntryCode, List.mem_append, List.mem_singleton] at hi
  rcases hi with ((hi | hi) | hi) | rfl
  · exact .inl (field?_escapeCode _ _ i hi f hf)
  · rw [field?_callCode _ i hi] at hf
    cases hf
  · exact .inr (.inl (field?_setDisposedCode _ i hi f hf))
  · cases hf

theorem routine_names (state : WovenState) (managed : Option MethodId) (unmanaged : MethodId) :
    (routine g references state managed unmanaged).Names (Works state fields) := by
  have hmanaged : ∀ i ∈ managed.elim [] (fun m => managedCode g m 7), i.field? = none := by
    cases managed with
    | none => exact fun i hi => by cases hi
    | some m => exact field?_managedCode m 7
  refine (routine_holds g references state managed unmanaged).names fun i hi f hf => ?_
  simp only [routineCode, List.mem_append, List.mem_singleton] at hi
  rcases hi with (((hi | hi) | hi) | hi) | rfl
  · exact .inl (field?_escapeCode _ _ i hi f hf)
  · rw [hmanaged i hi] at hf
    cases hf
  · rw [field?_callCode _ i hi] at hf
    cases hf
  · exact .inr (.inl (field?_setDisposedCode _ i hi f hf))
  · cases hf

theorem guard_names (state : WovenState) (t : TypeId) : (guard g references t state.disposed).Names (Works state fields) :=
  (guard_holds g references t state.disposed).names fun i hi f hf => by
    simp only [guardCode, List.mem_cons, List.not_mem_nil, or_false] at hi
    rcases hi with rfl | rfl | rfl | rfl | rfl | rfl | rfl <;> cases hf
    exact .inr (.inl rfl)

theorem entryThroughRoutine_names (r : MethodId) : (entryThroughRoutine g references r).Names property :=
  (entryThroughRoutine_holds g references r).names (by simp [entryThroughRoutineCode, Instruction.field?])

theorem finalizer_names (r : MethodId) : (finalizer g references r).Names property := by
  have hholds : (Body.empty.append (finalizerCode g references r)).Holds (finalizerCode g references r) :=
    Body.Holds.empty.append _
  have hnames : (Body.empty.append (finalizerCode g references r)).Names property :=
    hholds.names (by simp [finalizerCode, Instruction.field?])
  exact hnames

end Emission

end Code

/-! ## Generated bodies -/

section Woven

variable {settings : Settings} {g G : TypeGraph} {references : References} {module module' : Module}
  {report : List (TypeId × Shape)} {state : WovenState} {fields : List FieldId} {fabric : Fabric} {e : MethodId × Body}

theorem Arrangement.entryBody_names (arrangement : Arrangement) :
    (arrangement.entryBody G references state fields).Names (Emission.Works state fields) := by
  cases arrangement with
  | direct => exact Emission.simpleEntry_names state fields
  | managed m => exact Emission.managedEntry_names state m
  | shared r m u f => exact Emission.entryThroughRoutine_names r

theorem Fabric.bodies_names {t : TypeId} (he : e ∈ fabric.bodies G references fields t) :
    e.2.Names (Emission.Works fabric.state fields) := by
  cases Fabric.mem_bodies.1 he with
  | derived => exact Emission.derivedHook_names fabric.state fields
  | guard => exact Emission.guard_names fabric.state t
  | routine => exact Emission.routine_names fabric.state _ _
  | finalizer => exact Emission.finalizer_names _

/-- what a body of a woven module is: the author's, or the author's behind calls of a guard, or generated for a type, and
then it works on state of the weaver and on fields of the type that are disposed of -/
inductive Provenance (g G : TypeGraph) (module : Module) (e : MethodId × Body) : Prop where
  | authored (h : e ∈ module.bodies)
  | guarded {guard body} (h : (e.1, body) ∈ module.bodies) (hbehind : Relation.TransGen (Body.BehindGuard guard) body e.2)
  | generated {t} (ht : t ∈ module.types) (h : e.2.Names fun f => g.NewField G f ∨
      (∃ d ∈ t.fields, d.id = f) ∧ Selection.Swapped g Platform.alone.1.references (g.field f))

/-- **What the bodies of a woven module name.** -/
theorem WovenModule.provenance (hw : WovenModule settings g module G module' report) (he : e ∈ module'.bodies) :
    Provenance g G module e := by
  obtain ⟨t', ht', d', hd', hid, hbody'⟩ := Module.exists_of_mem_bodies he
  obtain ⟨t, hz, hbecomes⟩ := hw.backward ht'
  have ht := (List.of_mem_zip hz).1
  cases hbecomes with
  | kept _ _ hmethods =>
    exact .authored (Module.mem_bodies_iff.2 ⟨d', List.mem_flatMap.2 ⟨t, ht, hmethods ▸ hd'⟩, hid, hbody'⟩)
  | @woven entry fabric _ _ _ hd =>
    have hworks : ∀ f, Emission.Works fabric.state
        (Selection.disposedFields g Platform.alone.1.references settings [] t.fields.reverse) f → g.NewField G f ∨
        (∃ d ∈ t.fields, d.id = f) ∧ Selection.Swapped g Platform.alone.1.references (g.field f) := by
      rintro f (rfl | rfl | hf)
      · exact .inl hd.fits.state.signaled.1
      · exact .inl hd.fits.state.disposed.1
      · obtain ⟨⟨d, hmem, hid⟩, hswapped⟩ := Selection.mem_disposedFields hf
        exact .inr ⟨⟨d, List.mem_reverse.1 hmem, hid⟩, hswapped⟩
    rcases hd.method rfl hd' with ⟨e', he', hid', hmade⟩ | ⟨d, hd, hne, hreworked⟩
    · obtain rfl : e = e' := Prod.ext (hid.symm.trans hid') (Option.some.inj (hbody'.symm.trans hmade))
      rcases List.mem_cons.1 he' with rfl | hfabric
      · exact .generated ht ((Arrangement.entryBody_names _).imp hworks)
      · exact .generated ht ((Fabric.bodies_names hfabric).imp hworks)
    · obtain ⟨body, hbody, hbehind⟩ := hreworked.exists_body hne hbody'
      have hold : (e.1, body) ∈ module.bodies := by
        rw [← hid, hreworked.id]
        exact Module.mem_bodies ht hd hbody
      rcases Relation.reflTransGen_iff_eq_or_transGen.1 hbehind with rfl | hbehind
      · exact .authored hold
      · exact .guarded hold hbehind

end Woven

/-! ## Pending computations -/

section Tasks

variable {g : TypeGraph} {settings : Settings} {module : Module} {diagnostics : Diagnostics} {report : Report}
  {session : Session}

/-- **What is called a pending computation is spared**: in a session over a graph that grew from the platform, no code is
generated that works on a declared field of such a type. -/
theorem weave_spares_tasks (hg : Platform.alone.2.GrownFrom g) (hm : module.Coherent g)
    (h : Session.weave settings { graph := g, module, diagnostics } = .ok report session) :
    ∀ e ∈ session.module.bodies, e ∈ module.bodies ∨
      (∃ guard body, (e.1, body) ∈ module.bodies ∧ Relation.TransGen (Body.BehindGuard guard) body e.2) ∨
      e.2.Names fun f => f.index < g.fields.size → Selection.isTask g (g.field f).type = false := by
  intro e he
  cases (weave_turns hg hm h).provenance he with
  | authored h => exact .inl h
  | guarded h hbehind => exact .inr (.inl ⟨_, _, h, hbehind⟩)
  | generated ht h =>
    refine .inr (.inr (h.imp fun f hf hlt => ?_))
    rcases hf with hnew | ⟨-, hswapped⟩
    · exact absurd hlt (Nat.not_lt.2 hnew.1)
    · exact hswapped.notTask

/-- whatever stands for a pending computation can be disposed of -/
theorem TypeGraph.isSubtype_disposable (hg : Platform.alone.2.GrownFrom g) {t : TypeId}
    (h : g.isSubtype t Platform.alone.1.task = true) : g.isSubtype t Platform.alone.1.references.disposable = true := by
  have hgrows := hg.grows
  have hinterface : ∀ T : TypeId, T.index < Platform.alone.2.types.size →
      g.isInterface T = Platform.alone.2.isInterface T := by
    intro T hT
    obtain ⟨is, ms, fs, htype⟩ := hgrows.type T hT
    simp only [TypeGraph.isInterface, htype, TypeDecl.withMembers]
  have hclass : g.isInterface Platform.alone.1.task = false := by
    rw [hinterface _ (by decide +kernel)]
    decide +kernel
  have hdisposable : g.isInterface Platform.alone.1.references.disposable = true := by
    rw [hinterface _ (by decide +kernel)]
    decide +kernel
  have hlisted : Platform.alone.1.references.disposable ∈ (g.type Platform.alone.1.task).interfaces := by
    obtain ⟨is, ms, fs, htype⟩ := hgrows.type Platform.alone.1.task (by decide +kernel)
    rw [htype]
    exact List.mem_append_left _ (by decide +kernel)
  have himplements : g.implements Platform.alone.1.task Platform.alone.1.references.disposable = true := by
    obtain ⟨bound, hbound⟩ : ∃ bound, g.types.size = bound + 1 :=
      Nat.exists_eq_add_one.2 (Nat.lt_of_lt_of_le (by decide +kernel) hgrows.types)
    unfold TypeGraph.implements
    rw [hbound, TypeGraph.implementsWithin, Bool.or_eq_true, List.any_eq_true]
    refine .inr ⟨_, hlisted, ?_⟩
    cases bound <;> simp [TypeGraph.implementsWithin]
  unfold TypeGraph.isSubtype at h ⊢
  rw [hclass, if_neg Bool.false_ne_true] at h
  rw [hdisposable, if_pos rfl]
  obtain ⟨step, hstep, heq⟩ := List.any_eq_true.1 h
  rw [List.any_eq_true]
  exact ⟨step, hstep, by rw [beq_iff_eq.1 heq, himplements]⟩

/-- … also in a field or as a constraint, with arguments or without -/
theorem TypeGraph.isAssignable_disposable (hg : Platform.alone.2.GrownFrom g) {type : TypeRef} {t : TypeId}
    (htype : type.definition? = some t) (ht : g.isSubtype t Platform.alone.1.task = true) (bound : ℕ) :
    g.isAssignableWithin (.named Platform.alone.1.references.disposable) (bound + 1) type = true := by
  have hsubtype := g.isSubtype_disposable hg ht
  unfold TypeGraph.isAssignableWithin
  cases type with
  | named d | applied d arguments =>
    obtain rfl : d = t := Option.some.inj htype
    rw [Bool.or_eq_true]
    exact .inr hsubtype
  | _ => cases htype

/-- a type parameter with a constraint is one of the parameters that are counted -/
theorem TypeGraph.parameterCount_pos {type constraint : TypeRef} (h : constraint ∈ g.constraints type) :
    0 < g.parameterCount := by
  unfold TypeGraph.constraints at h
  split at h
  · next owner index =>
    split at h
    · next parameter hparameter =>
      have hmem : parameter ∈ (g.type owner).generics := List.mem_of_getElem? hparameter
      have hdeclared : g.type owner ∈ g.types.toList := by
        unfold TypeGraph.type at hmem ⊢
        rw [Array.getD_eq_getD_getElem?] at hmem ⊢
        cases howner : g.types[owner.index]? with
        | none =>
          rw [howner] at hmem
          cases hmem
        | some decl => exact Array.mem_toList_iff.2 (Array.mem_of_getElem? howner)
      exact List.length_pos_of_mem (List.mem_flatMap.2 ⟨_, hdeclared, hmem⟩)
    · cases h
  · cases h

/-- **Of handles to pending computations, only those that are called so are spared**: a field that holds an instance of a
class derived from `Task` and can be nulled out is disposed of, unless the name of the class begins like that of `Task`. -/
theorem Selection.fateOf_handle (hg : Platform.alone.2.GrownFrom g) {f : FieldDecl} {t : TypeId}
    (htype : f.type.definition? = some t) (ht : g.isSubtype t Platform.alone.1.task = true)
    (hinstance : f.flags.isStatic = false) (hwritable : f.flags.isInitOnly = false)
    (hreference : g.isValueTypeRef f.type = false) (hclosed : g.isOpenGeneric f.type = false) :
    fateOf g Platform.alone.1.references f = .disposed ↔
      (g.type t).name.startsWith QualifiedName.task.text = false := by
  have hdisposable : isDisposable g Platform.alone.1.references f.type = true :=
    g.isAssignable_disposable hg htype ht g.parameterCount
  have hname : isTask g f.type = (g.type t).name.startsWith QualifiedName.task.text := by rw [isTask, htype]
  rw [fateOf_eq_disposed, ← hname]
  exact ⟨fun h => h.notTask, fun h => ⟨hinstance, hdisposable, h, hwritable, hreference, hclosed⟩⟩

/-- a class with a name of its own -/
example :
    let (job, g) := Platform.alone.2.addType (.ofClass ⟨"Job"⟩ Platform.alone.1.task TypeFlags.public_)
    g.isSubtype job Platform.alone.1.task = true ∧ Selection.fateOf g Platform.alone.1.references
      { declaring := job, name := ⟨"next"⟩, type := .named job, flags := FieldFlags.private_ } = .disposed := by
  decide +kernel

/-- **A type parameter is not called anything**, so what is constrained to be a handle is always disposed of. -/
theorem Selection.fateOf_parameter (hg : Platform.alone.2.GrownFrom g) {f : FieldDecl} {owner t : TypeId} {index : UInt16}
    {constraint : TypeRef} (htype : f.type = .typeParameter owner index) (hconstraint : constraint ∈ g.constraints f.type)
    (ht : constraint.definition? = some t) (hsubtype : g.isSubtype t Platform.alone.1.task = true)
    (hinstance : f.flags.isStatic = false) (hwritable : f.flags.isInitOnly = false)
    (hreference : g.isValueTypeRef f.type = false) : fateOf g Platform.alone.1.references f = .disposed := by
  obtain ⟨bound, hbound⟩ := Nat.exists_eq_add_one.2 (g.parameterCount_pos hconstraint)
  have hdisposable : isDisposable g Platform.alone.1.references f.type = true := by
    unfold isDisposable TypeGraph.isAssignable TypeGraph.isAssignableWithin
    rw [htype] at hconstraint ⊢
    rw [Bool.or_eq_true]
    refine .inr (List.any_eq_true.2 ⟨constraint, hconstraint, ?_⟩)
    rw [hbound]
    exact g.isAssignable_disposable hg ht hsubtype bound
  have hnotTask : isTask g f.type = false := by
    rw [htype]
    rfl
  have hclosed : g.isOpenGeneric f.type = false := by rw [htype, TypeGraph.isOpenGeneric]
  exact fateOf_eq_disposed.2 ⟨hinstance, hdisposable, hnotTask, hwritable, hreference, hclosed⟩

end Tasks

end DisposalWeaver
