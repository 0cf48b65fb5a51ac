/-
What weaving makes of a type.

A woven type is described by its `Fabric`: the state it got, the managed hook made for its fields if there is one, and the
arrangement of its disposal. A fabric stands for declarations (`Fabric.Fits`), for hooks that it goes by (`Fabric.Suits`)
and for bodies (`Arrangement.entryBody` and `Fabric.bodies`, which `Fabric.Adds` tells one by one). The bodies are the same
for every graph on which further members are declared (`Fabric.Fits.entryBody`, `Fabric.Fits.bodies`).
-/
import DisposalWeaver.Proofs.WeavingSteps

namespace DisposalWeaver

/-! ## Fabrics -/

/-- how disposal is laid out over the methods of a type -/
inductive Arrangement where
  /-- the entry point disposes of the fields -/
  | direct
  /-- the entry point calls the managed hook -/
  | managed (managed : MethodId)
  /-- the entry point goes through a routine, and so does the finalizer, if one is attached -/
  | shared (routine : MethodId) (managed : Option MethodId) (unmanaged : MethodId) (finalizer : Option MethodId)
  deriving DecidableEq, Repr

namespace Arrangement

def shape : Arrangement → Shape
  | direct => .simple
  | managed m => .managedOnly m
  | shared _ none u _ => .unmanagedOnly u
  | shared _ (some m) u _ => .managedAndUnmanaged m u

def managed? : Arrangement → Option MethodId
  | direct => none
  | managed m => some m
  | shared _ m _ _ => m

def unmanaged? : Arrangement → Option MethodId
  | shared _ _ u _ => some u
  | _ => none

def routine? : Arrangement → Option MethodId
  | shared r _ _ _ => some r
  | _ => none

def finalizer? : Arrangement → Option MethodId
  | shared _ _ _ f => f
  | _ => none

end Arrangement

/-- what weaving adds to a type -/
structure Fabric where
  state : WovenState
  /-- managed hook made for the fields, if the type declares none and needs one -/
  derived : Option MethodId
  arrangement : Arrangement
  deriving DecidableEq, Repr

namespace Arrangement

/-- body of the entry point -/
def entryBody (g : TypeGraph) (references : References) (state : WovenState) (fields : List FieldId) :
    Arrangement → Body
  | direct => Emission.simpleEntry g references state fields
  | managed m => Emission.managedEntry g references state m
  | shared r _ _ _ => Emission.entryThroughRoutine g references r

/-- bodies of the methods that the arrangement itself adds -/
def bodies (g : TypeGraph) (references : References) (state : WovenState) : Arrangement → List (MethodId × Body)
  | shared r m u f => (r, Emission.routine g references state m u) ::
    f.toList.map fun f => (f, Emission.finalizer g references r)
  | _ => []

end Arrangement

/-- bodies of the methods that weaving adds, in the order in which they are added -/
def Fabric.bodies (g : TypeGraph) (references : References) (fields : List FieldId) (t : TypeId) (fabric : Fabric) :
    List (MethodId × Body) :=
  (fabric.derived.toList.map fun m => (m, Emission.derivedHook g references fields)) ++
    [(fabric.state.guard, Emission.guard g references t fabric.state.disposed)] ++
    fabric.arrangement.bodies g references fabric.state

/-- the methods that weaving adds, one by one, each with its body -/
inductive Fabric.Adds (g : TypeGraph) (references : References) (fields : List FieldId) (t : TypeId) (fabric : Fabric) :
    MethodId × Body → Prop where
  | derived {m : MethodId} (made : fabric.derived = some m) :
    Adds g references fields t fabric (m, Emission.derivedHook g references fields)
  | guard : Adds g references fields t fabric (fabric.state.guard, Emission.guard g references t fabric.state.disposed)
  | routine {r u : MethodId} {m f : Option MethodId} (shared : fabric.arrangement = .shared r m u f) :
    Adds g references fields t fabric (r, Emission.routine g references fabric.state m u)
  | finalizer {r u f : MethodId} {m : Option MethodId} (shared : fabric.arrangement = .shared r m u (some f)) :
    Adds g references fields t fabric (f, Emission.finalizer g references r)

theorem Fabric.mem_bodies {g : TypeGraph} {references : References} {fields : List FieldId} {t : TypeId} {fabric : Fabric}
    {e : MethodId × Body} : e ∈ fabric.bodies g references fields t ↔ fabric.Adds g references fields t e := by
  simp only [bodies, List.mem_append, List.mem_map, Option.mem_toList, List.mem_singleton]
  constructor
  · rintro ((⟨m, hm, rfl⟩ | rfl) | he)
    · exact .derived hm
    · exact .guard
    · cases ha : fabric.arrangement with
      | direct | managed m =>
        rw [ha] at he
        cases he
      | shared r m u f =>
        rw [ha] at he
        simp only [Arrangement.bodies, List.mem_cons, List.mem_map, Option.mem_toList] at he
        rcases he with rfl | ⟨f', rfl, rfl⟩
        · exact .routine ha
        · exact .finalizer ha
  · rintro (hm | _ | ha | ha)
    · exact .inl (.inl ⟨_, hm, rfl⟩)
    · exact .inl (.inr rfl)
    · simp [ha, Arrangement.bodies]
    · simp [ha, Arrangement.bodies]

/-- bodies that weaving makes for a type: of its entry point, and of the methods that it adds -/
def Fabric.generated (g : TypeGraph) (references : References) (fields : List FieldId) (t : TypeId) (entry : MethodId)
    (fabric : Fabric) : List (MethodId × Body) :=
  (entry, fabric.arrangement.entryBody g references fabric.state fields) :: fabric.bodies g references fields t

/-- the field was declared between the two graphs -/
def TypeGraph.NewField (g g' : TypeGraph) (f : FieldId) : Prop :=
  g.fields.size ≤ f.index ∧ f.index < g'.fields.size

/-- the state of a type is declared, on the type and since the first of the graphs -/
structure WovenState.Fits (settings : Settings) (references : References) (g g' : TypeGraph) (t : TypeId)
    (state : WovenState) : Prop where
  signaled : g.NewField g' state.signaled ∧
    g'.field state.signaled = Weave.stateField t settings.signaledField references.int32
  disposed : g.NewField g' state.disposed ∧
    g'.field state.disposed = Weave.stateField t settings.disposedField references.boolean
  distinct : state.signaled ≠ state.disposed
  guard : g.NewMethod g' state.guard ∧
    g'.method state.guard = Weave.privateMethod t settings.guardMethod []

/-- the members of a fabric are declared, on the type and since the first of the graphs -/
structure Fabric.Fits (settings : Settings) (references : References) (g g' : TypeGraph) (t : TypeId)
    (fabric : Fabric) : Prop where
  state : fabric.state.Fits settings references g g' t
  derived : ∀ m, fabric.derived = some m → g.NewMethod g' m ∧
    g'.method m = Weave.privateMethod t settings.managedHook []
  routine : ∀ r, fabric.arrangement.routine? = some r → g.NewMethod g' r ∧
    g'.method r = Weave.privateMethod t MemberName.dispose
      [{ name := settings.disposingParameter, type := .named references.boolean }]
  finalizer : ∀ f, fabric.arrangement.finalizer? = some f → g.NewMethod g' f ∧ g'.method f =
    { declaring := t, name := MemberName.finalize, flags := MethodFlags.ofFinalizer }

/-- the fabric goes by the hooks that the type declares -/
structure Fabric.Suits (settings : Settings) (g : TypeGraph) (t : TypeId) (fields : List FieldId) (fabric : Fabric) :
    Prop where
  managed : fabric.arrangement.managed? = (Selection.hook? g t settings.managedHook).or fabric.derived
  unmanaged : fabric.arrangement.unmanaged? = Selection.hook? g t settings.unmanagedHook
  /-- a hook is made where only an unmanaged one is declared and there are fields to dispose of -/
  needed : fabric.derived.isSome = true ↔ Selection.hook? g t settings.managedHook = none ∧
    Selection.hook? g t settings.unmanagedHook ≠ none ∧ fields ≠ []

/-! ## The parts of weaving -/

section Parts

variable {pattern : Pattern} {L L' : Loom}

theorem privateMethod_isVirtual (t : TypeId) (name : MemberName) (parameters : List Parameter) :
    (Weave.privateMethod t name parameters).isVirtual = false := by
  change MethodFlags.ofPrivate.isVirtual = false
  decide +kernel

/-- only a finalizer may be declared virtual, and private methods are not -/
theorem privateMethod_virtual (t : TypeId) (name : MemberName) (parameters : List Parameter)
    (hv : (Weave.privateMethod t name parameters).isVirtual = true) :
    (Weave.privateMethod t name parameters).name = MemberName.finalize := by
  rw [privateMethod_isVirtual] at hv
  cases hv

theorem withMethod_method (L : Loom) (decl : MethodDecl) (body : Body) :
    L.graph.NewMethod (L.withMethod decl body).graph ⟨L.graph.methods.size⟩ ∧
      (L.withMethod decl body).graph.method ⟨L.graph.methods.size⟩ = decl :=
  ⟨⟨Nat.le_refl _, by simp [Loom.withMethod, TypeGraph.addMethod]⟩, TypeGraph.method_addMethod_new _ _⟩

theorem withField_field (L : Loom) (decl : FieldDecl) :
    L.graph.NewField (L.withField decl).graph ⟨L.graph.fields.size⟩ ∧
      (L.withField decl).graph.field ⟨L.graph.fields.size⟩ = decl :=
  ⟨⟨Nat.le_refl _, by simp [Loom.withField, TypeGraph.addField]⟩, TypeGraph.field_addField_new _ _⟩

theorem withField_gains (L : Loom) (decl : FieldDecl) : L.graph.Gains (L.withField decl).graph :=
  TypeGraph.gains_addField _ _

/-- what was declared stays declared while members are added -/
theorem TypeGraph.Gains.newMethod {g g' g'' : TypeGraph} (h : g'.Gains g'') {m : MethodId} {decl : MethodDecl}
    (hm : g.NewMethod g' m ∧ g'.method m = decl) : g.NewMethod g'' m ∧ g''.method m = decl :=
  ⟨⟨hm.1.1, Nat.lt_of_lt_of_le hm.1.2 h.methods⟩, (h.method m hm.1.2).trans hm.2⟩

theorem TypeGraph.Gains.newField {g g' g'' : TypeGraph} (h : g'.Gains g'') {f : FieldId} {decl : FieldDecl}
    (hf : g.NewField g' f ∧ g'.field f = decl) : g.NewField g'' f ∧ g''.field f = decl :=
  ⟨⟨hf.1.1, Nat.lt_of_lt_of_le hf.1.2 h.fields⟩, (h.field f hf.1.2).trans hf.2⟩

/-- fields that are disposed of are fields of the type -/
theorem disposedFields_declared {g : TypeGraph} {references : References} {settings : Settings} {fields : List FieldDef}
    {excluded : List FieldId} {bound : Nat} (h : ∀ f ∈ fields, f.id.index < bound) :
    ∀ f ∈ Selection.disposedFields g references settings excluded fields.reverse, f.index < bound := by
  intro f hf
  obtain ⟨d, hd, rfl⟩ := List.mem_map.1 hf
  exact h d (List.mem_reverse.1 (List.mem_filter.1 hd).1)

/-- what is new since a later graph is new since an earlier one -/
theorem TypeGraph.Gains.newMethodSince {g g' g'' : TypeGraph} (h : g.Gains g') {m : MethodId}
    (hm : g'.NewMethod g'' m) : g.NewMethod g'' m :=
  ⟨Nat.le_trans h.methods hm.1, hm.2⟩

theorem TypeGraph.Gains.newFieldSince {g g' g'' : TypeGraph} (h : g.Gains g') {f : FieldId}
    (hf : g'.NewField g'' f) : g.NewField g'' f :=
  ⟨Nat.le_trans h.fields hf.1, hf.2⟩

theorem WovenState.Fits.mono {settings : Settings} {references : References} {g g1 g2 g' : TypeGraph} {t : TypeId}
    {state : WovenState} (h : state.Fits settings references g1 g2 t) (hg : g.Gains g1) (hg' : g2.Gains g') :
    state.Fits settings references g g' t where
  signaled := hg'.newField ⟨hg.newFieldSince h.signaled.1, h.signaled.2⟩
  disposed := hg'.newField ⟨hg.newFieldSince h.disposed.1, h.disposed.2⟩
  distinct := h.distinct
  guard := hg'.newMethod ⟨hg.newMethodSince h.guard.1, h.guard.2⟩

theorem Fabric.Fits.mono {settings : Settings} {references : References} {g g1 g2 g' : TypeGraph} {t : TypeId}
    {fabric : Fabric} (h : fabric.Fits settings references g1 g2 t) (hg : g.Gains g1) (hg' : g2.Gains g') :
    fabric.Fits settings references g g' t where
  state := h.state.mono hg hg'
  derived m hm := hg'.newMethod ⟨hg.newMethodSince (h.derived m hm).1, (h.derived m hm).2⟩
  routine r hr := hg'.newMethod ⟨hg.newMethodSince (h.routine r hr).1, (h.routine r hr).2⟩
  finalizer r hr := hg'.newMethod ⟨hg.newMethodSince (h.finalizer r hr).1, (h.finalizer r hr).2⟩

theorem withState_fits (pattern : Pattern) (L : Loom) : L.graph.Gains (Weave.withState pattern L).graph ∧
    (Weave.nextState L.graph).Fits pattern.settings pattern.references L.graph (Weave.withState pattern L).graph
      L.target.id := by
  have h1 := withField_gains L (Weave.stateField L.target.id pattern.settings.signaledField pattern.references.int32)
  have h2 := withField_gains (L.withField (Weave.stateField L.target.id pattern.settings.signaledField
    pattern.references.int32)) (Weave.stateField L.target.id pattern.settings.disposedField pattern.references.boolean)
  have h3 : (Weave.withFields pattern L).graph.Gains (Weave.withState pattern L).graph :=
    TypeGraph.gains_addMethod _ _ (privateMethod_virtual _ _ _)
  have hsize : ∀ decl, (L.withField decl).graph.fields.size = L.graph.fields.size + 1 := by
    simp [Loom.withField, TypeGraph.addField]
  refine ⟨(h1.trans h2).trans h3, ?_, ?_, ?_, ?_⟩
  · exact (h2.trans h3).newField (withField_field L _)
  · have hd := withField_field (L.withField (Weave.stateField L.target.id pattern.settings.signaledField
      pattern.references.int32)) (Weave.stateField L.target.id pattern.settings.disposedField pattern.references.boolean)
    rw [hsize] at hd
    exact h3.newField ⟨h1.newFieldSince hd.1, hd.2⟩
  · simp [Weave.nextState]
  · exact ⟨(h1.trans h2).newMethodSince (withMethod_method (Weave.withFields pattern L) _ _).1,
      (withMethod_method (Weave.withFields pattern L) _ _).2⟩

/-- which members of the author's type a shape mentions -/
structure HooksKnown (g : TypeGraph) (managed unmanaged : Option MethodId) : Prop where
  managed : ∀ m, managed = some m → m.index < g.methods.size
  unmanaged : ∀ m, unmanaged = some m → m.index < g.methods.size

/-- what the arrangement adds is declared, and belongs to the type -/
structure Arrangement.Fits (settings : Settings) (references : References) (g g' : TypeGraph) (t : TypeId)
    (hook hook' : Option MethodId) (arrangement : Arrangement) : Prop where
  managed : arrangement.managed? = hook
  unmanaged : arrangement.unmanaged? = hook'
  shape : arrangement.shape = Shape.ofHooks hook hook'
  routine : ∀ r, arrangement.routine? = some r → g.NewMethod g' r ∧
    g'.method r = Weave.privateMethod t MemberName.dispose
      [{ name := settings.disposingParameter, type := .named references.boolean }]
  finalizer : ∀ f, arrangement.finalizer? = some f → g.NewMethod g' f ∧ g'.method f =
    { declaring := t, name := MemberName.finalize, flags := MethodFlags.ofFinalizer }

/-- what an unmanaged hook makes of a loom: a routine, and a finalizer unless the type has one -/
structure Arranged (pattern : Pattern) (t : TypeId) (state : WovenState) (managed : Option MethodId) (u : MethodId)
    (L : Loom) (finalizer : Option MethodId) (LZ : Loom) : Prop where
  gains : L.graph.Gains LZ.graph
  fits : Arrangement.Fits pattern.settings pattern.references L.graph LZ.graph t managed (some u)
    (.shared ⟨L.graph.methods.size⟩ managed u finalizer)
  last : (finalizer = none ∧ LZ = { Weave.withRoutine pattern state managed u L with
      diagnostics := (Weave.withRoutine pattern state managed u L).diagnostics.record
        (.finalizerKept ((Weave.withRoutine pattern state managed u L).graph.nameOf
          (Weave.withRoutine pattern state managed u L).target.id) pattern.settings.unmanagedHook.text) }) ∨
    finalizer = some ⟨(Weave.withRoutine pattern state managed u L).graph.methods.size⟩ ∧
      LZ = (Weave.withRoutine pattern state managed u L).withMethod
        { declaring := t, name := MemberName.finalize, flags := MethodFlags.ofFinalizer }
        (Emission.finalizer (Weave.withRoutine pattern state managed u L).graph pattern.references
          ⟨L.graph.methods.size⟩)

/-- a type with an unmanaged hook is arranged -/
theorem withFinalizer_arranged {t : TypeId} (hid : L'.target.id = t) (state : WovenState) (managed : Option MethodId)
    (u : MethodId) : ∃ finalizer, Arranged pattern t state managed u L' finalizer
      (Weave.withFinalizer pattern ⟨L'.graph.methods.size⟩ (Weave.withRoutine pattern state managed u L')) := by
  have hshape : ∀ r f, (Arrangement.shared r managed u f).shape = Shape.ofHooks managed (some u) := by
    cases managed <;> exact fun _ _ => rfl
  let r : MethodId := ⟨L'.graph.methods.size⟩
  let rdecl := Weave.privateMethod L'.target.id MemberName.dispose
    [{ name := pattern.settings.disposingParameter, type := .named pattern.references.boolean }]
  let woven := Weave.withRoutine pattern state managed u L'
  have hgains : L'.graph.Gains woven.graph := TypeGraph.gains_addMethod _ _ (privateMethod_virtual _ _ _)
  have hroutine := withMethod_method L' rdecl (Emission.routine L'.graph pattern.references state managed u)
  have hdeclares : L'.graph.NewMethod woven.graph r ∧ woven.graph.method r = Weave.privateMethod t MemberName.dispose
      [{ name := pattern.settings.disposingParameter, type := .named pattern.references.boolean }] := hid ▸ hroutine
  unfold Weave.withFinalizer
  split
  · exact ⟨none, hgains, ⟨rfl, rfl, hshape _ _, fun _ h' => (by cases h'; exact hdeclares), fun _ h' => (by cases h')⟩,
      .inl ⟨rfl, rfl⟩⟩
  · let fdecl : MethodDecl :=
      { declaring := woven.target.id, name := MemberName.finalize, flags := MethodFlags.ofFinalizer }
    have hfinal := withMethod_method woven fdecl (Emission.finalizer woven.graph pattern.references r)
    have hlast : woven.graph.Gains (woven.withMethod fdecl (Emission.finalizer woven.graph pattern.references r)).graph :=
      TypeGraph.gains_addMethod _ _ fun _ => rfl
    have htarget : woven.target.id = t := by
      rw [← hid]
      simp only [woven, Weave.withRoutine, Loom.withBody, TypeDef.updateMethod_first]
      rfl
    refine ⟨some ⟨woven.graph.methods.size⟩, hgains.trans hlast,
      ⟨rfl, rfl, hshape _ _, fun _ h' => ?_, fun _ h' => ?_⟩, .inr ⟨rfl, by rw [← htarget]⟩⟩
    · cases h'
      exact hlast.newMethod hdeclares
    · cases h'
      exact ⟨hgains.newMethodSince hfinal.1, by rw [← htarget]; exact hfinal.2⟩

/-- the code that was generated on the way is what the last graph has it to be -/
theorem Arranged.code {t : TypeId} {state : WovenState} {managed finalizer : Option MethodId} {u : MethodId} {LZ : Loom}
    (h : Arranged pattern t state managed u L finalizer LZ) (hr : pattern.references.Declared L.graph)
    (hstate : state.signaled.index < L.graph.fields.size ∧ state.disposed.index < L.graph.fields.size)
    (hhooks : HooksKnown L.graph managed (some u)) :
    Emission.routine LZ.graph pattern.references state managed u =
      Emission.routine L.graph pattern.references state managed u ∧
    Emission.entryThroughRoutine LZ.graph pattern.references ⟨L.graph.methods.size⟩ =
      Emission.entryThroughRoutine (Weave.withRoutine pattern state managed u L).graph pattern.references
        ⟨L.graph.methods.size⟩ ∧
    Emission.finalizer LZ.graph pattern.references ⟨L.graph.methods.size⟩ =
      Emission.finalizer (Weave.withRoutine pattern state managed u L).graph pattern.references
        ⟨L.graph.methods.size⟩ := by
  have hwoven : L.graph.Gains (Weave.withRoutine pattern state managed u L).graph :=
    TypeGraph.gains_addMethod _ _ (privateMethod_virtual _ _ _)
  have hlast : (Weave.withRoutine pattern state managed u L).graph.Gains LZ.graph := by
    rcases h.last with ⟨-, rfl⟩ | ⟨-, rfl⟩
    · exact .refl _
    · exact TypeGraph.gains_addMethod _ _ fun _ => rfl
  have hroutine : (⟨L.graph.methods.size⟩ : MethodId).index < (Weave.withRoutine pattern state managed u L).graph.methods.size :=
    (withMethod_method L (Weave.privateMethod L.target.id MemberName.dispose
      [{ name := pattern.settings.disposingParameter, type := .named pattern.references.boolean }])
      (Emission.routine L.graph pattern.references state managed u)).1.2
  exact ⟨h.gains.routine hr hstate.1 hstate.2 hhooks.managed (hhooks.unmanaged u rfl),
    hlast.entryThroughRoutine (hwoven.declared hr) hroutine, hlast.finalizer (hwoven.declared hr) hroutine⟩

end Parts

/-! ## The whole -/

section Whole

variable {pattern : Pattern} {L : Loom}

theorem hook_declared {g : TypeGraph} (hg : g.ListsDeclared) {t : TypeId} {name : MemberName} {m : MethodId}
    (h : Selection.hook? g t name = some m) : m.index < g.methods.size :=
  hg t m (List.mem_of_find?_eq_some h)

/-- the hooks that a type declares or gets are declared -/
theorem hooksKnown_supplied {g G : TypeGraph} (hlists : g.ListsDeclared) (hg : g.Gains G) {T : TypeId}
    {managed unmanaged : MemberName} {derived : Option MethodId}
    (hderived : ∀ m, derived = some m → m.index < G.methods.size) :
    HooksKnown G ((Selection.hook? g T managed).or derived) (Selection.hook? g T unmanaged) where
  managed m hm := by
    rcases Option.or_eq_some_iff.1 hm with hm | ⟨-, hm⟩
    · exact Nat.lt_of_lt_of_le (hook_declared hlists hm) hg.methods
    · exact hderived m hm
  unmanaged m hm := Nat.lt_of_lt_of_le (hook_declared hlists hm) hg.methods

/-- a field that was declared before is none of those that the next state is going to have -/
theorem not_mem_nextState {g G : TypeGraph} (hg : g.Gains G) {f : FieldId} (hf : f.index < g.fields.size) :
    f ∉ [(Weave.nextState G).signaled, (Weave.nextState G).disposed] := by
  intro hmem
  have hlt := Nat.lt_of_lt_of_le hf hg.fields
  simp only [List.mem_cons, List.not_mem_nil, or_false] at hmem
  rcases hmem with hmem | hmem <;> rw [hmem] at hlt <;> simp only [Weave.nextState] at hlt <;> omega

/-- the state adds its two fields behind those that the type has -/
theorem fields_withState (pattern : Pattern) (L : Loom) : (Weave.withState pattern L).target.fields = L.target.fields ++
    [{ id := (Weave.nextState L.graph).signaled }, { id := (Weave.nextState L.graph).disposed }] := by
  simp [Weave.withState, Weave.withFields, Loom.withMethod, Loom.withField, Weave.nextState, TypeGraph.addField]

section Stated

variable (pattern) {LD : Loom} (hD : L.graph.Gains LD.graph)

include hD

theorem withState_gains : L.graph.Gains (Weave.withState pattern LD).graph :=
  hD.trans (withState_fits pattern LD).1

/-- the state makes no difference to which fields of the author are disposed of -/
theorem disposedFields_withState (hsame : LD.target.fields = L.target.fields)
    (hfields : ∀ f ∈ L.target.fields, f.id.index < L.graph.fields.size) :
    Selection.disposedFields (Weave.withState pattern LD).graph pattern.references pattern.settings
        [(Weave.nextState LD.graph).signaled, (Weave.nextState LD.graph).disposed]
        (Weave.withState pattern LD).target.fields.reverse =
      Selection.disposedFields L.graph pattern.references pattern.settings [] L.target.fields.reverse := by
  have hknown : ∀ f ∈ L.target.fields.reverse, f.id.index < L.graph.fields.size := fun f hf =>
    hfields f (List.mem_reverse.1 hf)
  rw [fields_withState, hsame, ← (withState_gains pattern hD).disposedFields hknown]
  exact Selection.disposedFields_excluded [{ id := (Weave.nextState LD.graph).signaled },
    { id := (Weave.nextState LD.graph).disposed }] fun f hf => not_mem_nextState hD (hfields f hf)

/-- what is declared for the state, for the hook and for the arrangement makes a fabric that fits -/
theorem fits_assembled (hid : LD.target.id = L.target.id) {G : TypeGraph}
    (hG : (Weave.withState pattern LD).graph.Gains G) {derived : Option MethodId}
    (hderived : ∀ m, derived = some m → L.graph.NewMethod LD.graph m ∧
      LD.graph.method m = Weave.privateMethod L.target.id pattern.settings.managedHook [])
    {hook hook' : Option MethodId} {arrangement : Arrangement}
    (harrangement : Arrangement.Fits pattern.settings pattern.references (Weave.withState pattern LD).graph G L.target.id
      hook hook' arrangement) :
    Fabric.Fits pattern.settings pattern.references L.graph G L.target.id
      ⟨Weave.nextState LD.graph, derived, arrangement⟩ where
  state := by
    have hstate := (withState_fits pattern LD).2.mono hD hG
    rwa [hid] at hstate
  derived m hm := ((withState_fits pattern LD).1.trans hG).newMethod (hderived m hm)
  routine r hr := by
    obtain ⟨hnew, hdecl⟩ := harrangement.routine r hr
    exact ⟨(withState_gains pattern hD).newMethodSince hnew, hdecl⟩
  finalizer r hr := by
    obtain ⟨hnew, hdecl⟩ := harrangement.finalizer r hr
    exact ⟨(withState_gains pattern hD).newMethodSince hnew, hdecl⟩

end Stated

end Whole

/-! ## Later graphs -/

section Later

variable {settings : Settings} {references : References} {g g' G : TypeGraph} {t : TypeId} {fields : List FieldId}
  {fabric : Fabric}

/-- the hooks that a fabric goes by are declared -/
theorem Fabric.Suits.known (h : fabric.Suits settings g t fields) (hf : fabric.Fits settings references g g' t)
    (hg : g.ListsDeclared) (hgains : g.Gains g') :
    HooksKnown g' fabric.arrangement.managed? fabric.arrangement.unmanaged? := by
  constructor
  · intro m hm
    rw [h.managed] at hm
    rcases Option.or_eq_some_iff.1 hm with hm | ⟨-, hm⟩
    · exact Nat.lt_of_lt_of_le (hook_declared hg hm) hgains.methods
    · exact (hf.derived m hm).1.2
  · intro m hm
    rw [h.unmanaged] at hm
    exact Nat.lt_of_lt_of_le (hook_declared hg hm) hgains.methods

/-- generated bodies stay what they are while types gain members -/
theorem Fabric.Fits.entryBody (hf : fabric.Fits settings references g g' t)
    (hh : HooksKnown g' fabric.arrangement.managed? fabric.arrangement.unmanaged?) (hr : references.Declared g')
    (hfields : ∀ f ∈ fields, f.index < g'.fields.size) (hG : g'.Gains G) :
    fabric.arrangement.entryBody G references fabric.state fields =
      fabric.arrangement.entryBody g' references fabric.state fields := by
  have hs := hf.state.signaled.1.2
  have hd := hf.state.disposed.1.2
  cases ha : fabric.arrangement with
  | direct => exact hG.simpleEntry hr hs hd hfields
  | managed m => exact hG.managedEntry hr hs hd (hh.managed m (by rw [ha]; rfl))
  | shared r m u f => exact hG.entryThroughRoutine hr (hf.routine r (by rw [ha]; rfl)).1.2

theorem Fabric.Fits.bodies (hf : fabric.Fits settings references g g' t)
    (hh : HooksKnown g' fabric.arrangement.managed? fabric.arrangement.unmanaged?) (hr : references.Declared g')
    (hfields : ∀ f ∈ fields, f.index < g'.fields.size) (hG : g'.Gains G) :
    fabric.bodies G references fields t = fabric.bodies g' references fields t := by
  have hs := hf.state.signaled.1.2
  have hd := hf.state.disposed.1.2
  have harrangement : fabric.arrangement.bodies G references fabric.state =
      fabric.arrangement.bodies g' references fabric.state := by
    cases ha : fabric.arrangement with
    | direct | managed m => rfl
    | shared r m u f =>
      have hrlt := (hf.routine r (by rw [ha]; rfl)).1.2
      rw [ha] at hh
      have hm : ∀ m', m = some m' → m'.index < g'.methods.size := hh.managed
      simp only [Arrangement.bodies, hG.finalizer hr hrlt, hG.routine hr hs hd hm (hh.unmanaged u rfl)]
  rw [Fabric.bodies, Fabric.bodies, hG.derivedHook hr hfields, hG.guard hr t hd, harrangement]

end Later

end DisposalWeaver
