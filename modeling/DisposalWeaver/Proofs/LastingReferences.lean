/-
References that last while a graph grows.

A graph develops by declarations and by whole sessions (`TypeGraph.Develops`). A declaration can only refer to what is
declared, and so can everything after it: each step keeps what was declared (`TypeGraph.Grows`), and keeps the graph
closed (`TypeGraph.Closed`). Both together are what a step is known by (`TypeGraph.Widens`): one lemma for each kind of
declaration, and one for weaving, which is known by it piece by piece (`Weave.Keeps`). What was found once is found ever
after then, and what generated code refers to is the platform's. Main statement: `TypeGraph.references_last`.
-/
import DisposalWeaver.Proofs.BaseChains
import DisposalWeaver.Proofs.PlatformReferences
import DisposalWeaver.Proofs.WovenModule

namespace DisposalWeaver

namespace TypeGraph

variable {g g' g'' : TypeGraph}

/-! ## Closed graphs -/

/-- types list what is declared, and the parameters of declared methods are spelled with declared types -/
structure Closed (g : TypeGraph) : Prop where
  methods : g.ListsDeclared
  fields : g.FieldsDeclared
  spelled : ∀ m, m.index < g.methods.size →
    ∀ parameter ∈ (g.method m).parameters, spelledWithin g.types.size parameter.type = true

/-- nothing declared is changed, and the graph stays closed -/
structure Widens (g g' : TypeGraph) : Prop where
  grows : g.Grows g'
  closed : g.Closed → g'.Closed

theorem Widens.refl (g : TypeGraph) : g.Widens g := ⟨.refl g, id⟩

theorem Widens.trans (h : g.Widens g') (h' : g'.Widens g'') : g.Widens g'' :=
  ⟨h.grows.trans h'.grows, fun hg => h'.closed (h.closed hg)⟩

theorem spelledWithin_mono {bound bound' : Nat} (hle : bound ≤ bound') {type : TypeRef}
    (h : spelledWithin bound type = true) : spelledWithin bound' type = true := by
  induction type using TypeRef.rec (motive_2 := fun _ => True) with
  | named d =>
    simp only [spelledWithin, decide_eq_true_eq] at h ⊢
    exact Nat.lt_of_lt_of_le h hle
  | applied d arguments =>
    simp only [spelledWithin, decide_eq_true_eq] at h ⊢
    exact Nat.lt_of_lt_of_le h hle
  | typeParameter owner index =>
    simp only [spelledWithin, decide_eq_true_eq] at h ⊢
    exact Nat.lt_of_lt_of_le h hle
  | methodParameter index => rfl
  | array element ih => exact ih h
  | byRef element ih => exact ih h
  | nil => trivial
  | cons _ _ _ _ => trivial

/-- methods that were declared stay spelled with declared types -/
theorem Closed.spelled_grown (hg : g.Closed) (h : g.Grows g') {m : MethodId} (hm : m.index < g.methods.size) :
    ∀ parameter ∈ (g'.method m).parameters, spelledWithin g'.types.size parameter.type = true := by
  intro parameter hparameter
  rw [h.method m hm] at hparameter
  exact spelledWithin_mono h.types (hg.spelled m hm parameter hparameter)

/-! ## Declarations -/

/-- a new type may list what is declared already -/
theorem widens_addType (decl : TypeDecl) (hmethods : ∀ m ∈ decl.methods, m.index < g.methods.size)
    (hfields : ∀ f ∈ decl.fields, f.index < g.fields.size) : g.Widens (g.addType decl).2 where
  grows := grows_addType g decl
  closed hg := {
    methods := hg.methods.addType hmethods
    fields := hg.fields.addType hfields
    spelled := fun _ hm => hg.spelled_grown (grows_addType g decl) hm }

theorem widens_addInterface (t interface : TypeId) : g.Widens (g.addInterface t interface) where
  grows := grows_addInterface g t interface
  closed hg := {
    methods := hg.methods.addInterface t interface
    fields := hg.fields.addInterface t interface
    spelled := fun _ hm => hg.spelled_grown (grows_addInterface g t interface) hm }

/-- a new method may be spelled with the types that are declared -/
theorem widens_addMethod {decl : MethodDecl}
    (hspelled : ∀ parameter ∈ decl.parameters, spelledWithin g.types.size parameter.type = true) :
    g.Widens (g.addMethod decl).2 where
  grows := grows_addMethod g decl
  closed hg := {
    methods := hg.methods.addMethod decl
    fields := hg.fields.addMethod decl
    spelled := by
      intro m hm
      -- a method that was there is covered by growth, so the new one is left
      by_cases hold : m.index < g.methods.size
      · exact hg.spelled_grown (grows_addMethod g decl) hold
      · have hnew : m = ⟨g.methods.size⟩ := by
          simp only [addMethod, Array.size_push] at hm
          exact congrArg MethodId.mk (by omega)
        rw [hnew, method_addMethod_new]
        intro parameter hparameter
        exact spelledWithin_mono (grows_addMethod g decl).types (hspelled parameter hparameter) }

theorem widens_addField (decl : FieldDecl) : g.Widens (g.addField decl).2 where
  grows := (gains_addField g decl).grows
  closed hg := {
    methods := hg.methods.gains (gains_addField g decl)
    fields := hg.fields.addField decl
    spelled := fun _ hm => hg.spelled_grown (gains_addField g decl).grows hm }

end TypeGraph

/-! ## Weaving -/

namespace Weave

variable {α β : Type} {pattern : Pattern} {bound : TypeId}

/-- the loom that is left, whether or not weaving was given up -/
def left (x : Weave α) (L : Loom) : Loom :=
  match x L with
  | .ok _ L' | .error _ L' => L'

/-- wherever `bound` is declared, the piece of weaving widens the graph -/
def Keeps (bound : TypeId) (x : Weave α) : Prop :=
  ∀ L : Loom, bound.index < L.graph.types.size → L.graph.Widens (left x L).graph

theorem Keeps.bind {x : Weave α} {f : α → Weave β} (hx : Keeps bound x) (hf : ∀ a, Keeps bound (f a)) :
    Keeps bound (x >>= f) := by
  intro L hbound
  have hfirst := hx L hbound
  unfold left at hfirst ⊢
  simp only [Bind.bind, EStateM.bind]
  cases hrun : x L with
  | error cause L' =>
    rw [hrun] at hfirst
    exact hfirst
  | ok a L' =>
    -- the second piece begins on a wider graph, where `bound` is still declared
    rw [hrun] at hfirst
    exact hfirst.trans (hf a L' (Nat.lt_of_lt_of_le hbound hfirst.grows.types))

theorem Keeps.pure (a : α) : Keeps bound (Pure.pure a : Weave α) := fun L _ => .refl L.graph

theorem Keeps.get : Keeps bound (MonadState.get : Weave Loom) := fun L _ => .refl L.graph

theorem record_keeps (notice : Notice) : Keeps bound (record notice) := fun L _ => .refl L.graph

theorem liftModel_keeps (x : Except ModelError α) : Keeps bound (liftModel x) := by
  intro L hbound
  cases x with
  | ok a => exact .refl L.graph
  | error cause => exact .refl L.graph

theorem declareField_keeps (name : MemberName) (type : TypeId) : Keeps bound (declareField name type) := by
  intro L hbound
  rw [left, declareField_eq]
  exact TypeGraph.widens_addField _

/-- a method may have parameters of the type `bound` -/
theorem declareMethod_keeps (name : MemberName) (flags : MethodFlags) (parameters : List Parameter) (body : Body)
    (hparameters : ∀ parameter ∈ parameters, parameter.type = .named bound) :
    Keeps bound (declareMethod name flags parameters body) := by
  intro L hbound
  rw [left, declareMethod_eq]
  refine TypeGraph.widens_addMethod fun parameter hparameter => ?_
  rw [hparameters parameter hparameter, TypeGraph.spelledWithin]
  exact decide_eq_true hbound

theorem declarePlain_keeps (name : MemberName) (flags : MethodFlags) (body : Body) :
    Keeps bound (declareMethod name flags [] body) :=
  declareMethod_keeps name flags [] body fun _ hparameter => absurd hparameter List.not_mem_nil

theorem disposeEach_keeps (excluded : List FieldId) (fields : List FieldDef) (body : Body) (count : Nat) :
    Keeps bound (disposeEach pattern excluded fields body count) := by
  induction fields generalizing body count with
  | nil => exact .pure _
  | cons f rest ih =>
    unfold disposeEach
    refine Keeps.get.bind fun loom => ?_
    dsimp only
    split
    -- ignored, reported, and the field that is disposed of
    · exact ih body count
    · exact (record_keeps _).bind fun _ => ih body count
    · exact (liftModel_keeps _).bind fun body => ih body (count + 1)

theorem disposeFields_keeps (excluded : List FieldId) (body : Body) : Keeps bound (disposeFields pattern excluded body) :=
  Keeps.get.bind fun loom => disposeEach_keeps excluded loom.target.fields.reverse body 0

theorem deriveManagedHook_keeps : Keeps bound (deriveManagedHook pattern) := by
  unfold deriveManagedHook
  refine (disposeFields_keeps [] Body.empty).bind fun disposal => ?_
  dsimp only
  split
  · exact .pure none
  · exact (declarePlain_keeps _ _ _).bind fun hook => .pure (some hook)

theorem createState_keeps : Keeps bound (createState pattern) := by
  unfold createState
  refine (declareField_keeps _ _).bind fun signaled => ?_
  refine (declareField_keeps _ _).bind fun disposed => ?_
  refine Keeps.get.bind fun loom => ?_
  exact (declarePlain_keeps _ _ _).bind fun guard => .pure _

theorem replaceEntry_keeps (body : Body) : Keeps bound (replaceEntry pattern body) := by
  intro L hbound
  simp only [left, replaceEntry, Bind.bind, EStateM.bind, get_run]
  cases L.target.method? pattern.entry with
  | none => exact .refl L.graph
  | some entry => exact .refl L.graph

theorem synthesizeSimple_keeps (state : WovenState) : Keeps bound (synthesizeSimple pattern state) := by
  unfold synthesizeSimple
  refine Keeps.get.bind fun loom => ?_
  refine (disposeFields_keeps _ _).bind fun disposal => ?_
  exact Keeps.get.bind fun loom => replaceEntry_keeps _

theorem attachFinalizer_keeps (routine : MethodId) : Keeps bound (attachFinalizer pattern routine) := by
  unfold attachFinalizer
  refine Keeps.get.bind fun loom => ?_
  dsimp only
  split
  · exact record_keeps _
  · exact (declarePlain_keeps _ _ _).bind fun _ => .pure _

/-- the routine takes a truth value, which is why the type of these must be declared -/
theorem synthesizeUnmanaged_keeps (state : WovenState) (managed : Option MethodId) (unmanaged : MethodId) :
    Keeps pattern.references.boolean (synthesizeUnmanaged pattern state managed unmanaged) := by
  unfold synthesizeUnmanaged
  refine Keeps.get.bind fun loom => ?_
  refine (declareMethod_keeps _ _ _ _ ?_).bind fun routine => ?_
  · intro parameter hparameter
    rw [List.mem_singleton.1 hparameter]
  refine Keeps.get.bind fun loom => ?_
  exact (replaceEntry_keeps _).bind fun _ => attachFinalizer_keeps routine

theorem synthesize_keeps (state : WovenState) (shape : Shape) :
    Keeps pattern.references.boolean (synthesize pattern state shape) := by
  cases shape with
  | simple => exact synthesizeSimple_keeps state
  | managedOnly managed => exact Keeps.get.bind fun loom => replaceEntry_keeps _
  | unmanagedOnly unmanaged => exact synthesizeUnmanaged_keeps state none unmanaged
  | managedAndUnmanaged managed unmanaged => exact synthesizeUnmanaged_keeps state (some managed) unmanaged

/-- guards are put into bodies -/
theorem injectGuards_keeps (state : WovenState) : Keeps bound (injectGuards pattern state) := by
  intro L hbound
  rw [left, injectGuards_eq]
  exact .refl L.graph

/-- **Weaving a type widens the graph**, however it ends. -/
theorem weaveType_keeps : Keeps pattern.references.boolean (weaveType pattern) := by
  unfold weaveType
  refine Keeps.get.bind fun loom => ?_
  dsimp only
  split
  · exact (record_keeps _).bind fun _ => .pure none
  · have hrest : ∀ shape : Shape, Keeps pattern.references.boolean (do
        let state ← createState pattern
        synthesize pattern state shape
        injectGuards pattern state
        return some shape) := by
      intro shape
      refine createState_keeps.bind fun state => ?_
      refine (synthesize_keeps state shape).bind fun _ => ?_
      exact (injectGuards_keeps state).bind fun _ => .pure (some shape)
    -- a managed hook is derived only for a type that declares an unmanaged one alone
    split
    · exact deriveManagedHook_keeps.bind fun managed => hrest _
    · exact (Keeps.pure _).bind fun managed => hrest _

end Weave

/-! ## Sessions -/

namespace References

/-- the type of truth values that is found is declared -/
theorem resolve?_boolean {g : TypeGraph} {references : References} (h : resolve? g = .ok references) :
    references.boolean.index < g.types.size := by
  have hfound := findType?_eq_ok_iff.1 (resolve?_eq_ok_iff.1 h).boolean
  rw [TypeGraph.lookup?, Option.map_eq_some_iff] at hfound
  obtain ⟨k, hk, hid⟩ := hfound
  rw [← hid]
  exact (Array.findIdx?_eq_some_iff_getElem.1 hk).1

end References

namespace Session

variable {context : Context} {L : Loom}

theorem weaveEntry_widens (hbound : context.references.boolean.index < L.graph.types.size) (entry : MethodId)
    (entries : List MethodId) : L.graph.Widens (weaveEntry context entry entries L).loom.graph := by
  have hkeeps : L.graph.Widens (Weave.left
      (Weave.weaveType { references := context.references, settings := context.settings, entry }) L).graph :=
    Weave.weaveType_keeps L hbound
  unfold weaveEntry
  unfold Weave.left at hkeeps
  split
  · cases hrun : Weave.weaveType { references := context.references, settings := context.settings, entry } L with
    | ok shape L' =>
      rw [hrun] at hkeeps
      cases shape <;> exact hkeeps
    | error cause L' =>
      rw [hrun] at hkeeps
      exact hkeeps
  · exact .refl L.graph

theorem weaveDefinition_widens (hbound : context.references.boolean.index < L.graph.types.size) :
    L.graph.Widens (weaveDefinition context L).loom.graph := by
  unfold weaveDefinition
  dsimp only
  split
  · exact .refl L.graph
  · split
    · exact .refl L.graph
    · split
      · exact .refl L.graph
      · exact weaveEntry_widens hbound _ _

/-- the induction is on the types that wait for their turn; each turn starts on the graph that the one before left -/
theorem weaveDefinitions_widens {g : TypeGraph} (hbound : context.references.boolean.index < g.types.size)
    (diagnostics : Diagnostics) (types : List TypeDef) :
    g.Widens (weaveDefinitions context g diagnostics types).graph := by
  induction types generalizing g diagnostics with
  | nil => exact .refl g
  | cons t rest ih =>
    have hturn := @weaveDefinition_widens context { graph := g, target := t, diagnostics } hbound
    simp only [weaveDefinitions]
    split
    · exact hturn
    · exact hturn.trans (ih (Nat.lt_of_lt_of_le hbound hturn.grows.types) _)

/-- the session after weaving, whether or not that was given up -/
def left (settings : Settings) (session : Session) : Session :=
  match weave settings session with
  | .ok _ session | .error _ session => session

/-- **A session widens the graph**, however it ends. -/
theorem weave_widens (settings : Settings) (session : Session) :
    session.graph.Widens (session.left settings).graph := by
  unfold left weave
  cases hresolve : References.resolve? session.graph with
  | error missing => exact .refl session.graph
  | ok references =>
    have hturns := @weaveDefinitions_widens { references, settings, module := session.module } session.graph
      (References.resolve?_boolean hresolve) session.diagnostics session.module.types
    dsimp only
    cases (weaveDefinitions { references, settings, module := session.module } session.graph session.diagnostics
        session.module.types).report with
    | ok report => exact hturns
    | error cause => exact hturns

end Session

/-! ## Development -/

namespace TypeGraph

/-- the graph develops from another one: types, interfaces and members are declared, and modules are woven. A new type
may list members that are declared already, and a new method is spelled with types that are. -/
inductive Develops (g : TypeGraph) : TypeGraph → Prop where
  | refl : Develops g g
  | type {g'} (h : Develops g g') (decl : TypeDecl) (hmethods : ∀ m ∈ decl.methods, m.index < g'.methods.size)
    (hfields : ∀ f ∈ decl.fields, f.index < g'.fields.size) : Develops g (g'.addType decl).2
  | interface {g'} (h : Develops g g') (t interface : TypeId) : Develops g (g'.addInterface t interface)
  | method {g'} (h : Develops g g') (decl : MethodDecl)
    (hspelled : ∀ parameter ∈ decl.parameters, spelledWithin g'.types.size parameter.type = true) :
    Develops g (g'.addMethod decl).2
  | field {g'} (h : Develops g g') (decl : FieldDecl) : Develops g (g'.addField decl).2
  | session {g'} (h : Develops g g') (settings : Settings) (module : Module) (diagnostics : Diagnostics) :
    Develops g (Session.left settings { graph := g', module, diagnostics }).graph

variable {g g' : TypeGraph}

theorem Develops.widens (h : g.Develops g') : g.Widens g' := by
  induction h with
  | refl => exact .refl g
  | type _ decl hmethods hfields ih => exact ih.trans (widens_addType decl hmethods hfields)
  | interface _ t interface ih => exact ih.trans (widens_addInterface t interface)
  | method _ decl hspelled ih => exact ih.trans (widens_addMethod hspelled)
  | field _ decl ih => exact ih.trans (widens_addField decl)
  | @session g' _ settings module diagnostics ih =>
    exact ih.trans (Session.weave_widens settings { graph := g', module, diagnostics })

/-! ## What is found, and stays found -/

theorem lt_of_mem_methods {t : TypeId} {m : MethodId} (hm : m ∈ (g.type t).methods) : t.index < g.types.size := by
  by_contra hle
  rw [type_of_size_le (Nat.le_of_not_lt hle)] at hm
  cases hm

theorem lt_of_mem_fields {t : TypeId} {f : FieldId} (hf : f ∈ (g.type t).fields) : t.index < g.types.size := by
  by_contra hle
  rw [type_of_size_le (Nat.le_of_not_lt hle)] at hf
  cases hf

/-- a field keeps being found: new ones are listed after it -/
theorem Grows.findField? (h : g.Grows g') (hg : g.Closed) {t : TypeId} {name : String} {f : FieldId}
    (hf : g.findField? t name = some f) : g'.findField? t name = some f := by
  obtain ⟨is, ms, fs, htype⟩ := h.type t (lt_of_mem_fields (List.mem_of_find?_eq_some hf))
  have hsame : ∀ c ∈ (g.type t).fields, ((g'.field c).name.text == name) = ((g.field c).name.text == name) := by
    intro c hc
    rw [h.field c (hg.fields t c hc)]
  simp only [TypeGraph.findField?, htype, TypeDecl.withMembers] at hf ⊢
  rw [List.find?_append, List.find?_congr hsame, hf]
  rfl

/-- a method keeps being found, whatever overloads are listed after it and whatever their parameters are named -/
theorem Grows.findMethod?_closed (h : g.Grows g') (hg : g.Closed) {t : TypeId} {name : String}
    {parameters : List String} {m : MethodId} (hm : g.findMethod? t name parameters = some m) :
    g'.findMethod? t name parameters = some m := by
  refine h.findMethod? (lt_of_mem_methods (List.mem_of_find?_eq_some hm)) (fun c hc => ?_) hm
  have hdeclared := hg.methods t c hc
  exact ⟨hdeclared, hg.spelled c hdeclared⟩

theorem closed_platform : Platform.alone.2.Closed where
  methods := Platform.alone_listsDeclared
  fields := Platform.alone_fieldsDeclared
  spelled := by
    have hall : (List.range Platform.alone.2.methods.size).all (fun m => (Platform.alone.2.method ⟨m⟩).parameters.all
        fun parameter => spelledWithin Platform.alone.2.types.size parameter.type) = true := by decide +kernel
    intro m hm parameter hparameter
    have hmethod := List.all_eq_true.1 hall m.index (List.mem_range.2 hm)
    exact List.all_eq_true.1 hmethod parameter hparameter

/-- **References last.** On a graph that developed from the platform, each type, field and method that is found stays what
is found, however the graph develops: types may have the names of the platform's, overloads may look like its methods,
and modules may be woven. What generated code refers to is found at any time, and is the platform's, declared as it was;
the two exchanges stay two. -/
theorem references_last (h : Platform.alone.2.Develops g) (h' : g.Develops g') :
    (∀ name t, g.lookup? name = some t → g'.lookup? name = some t) ∧
      (∀ t name f, g.findField? t name = some f → g'.findField? t name = some f) ∧
      (∀ t name parameters m, g.findMethod? t name parameters = some m → g'.findMethod? t name parameters = some m) ∧
      References.resolve? g = .ok Platform.alone.1.references ∧
      References.resolve? g' = .ok Platform.alone.1.references ∧
      (∀ m, m.index < Platform.alone.2.methods.size → g'.method m = Platform.alone.2.method m) ∧
      Platform.alone.1.references.exchangeInt32 ≠ Platform.alone.1.references.exchangeReference := by
  have hg : Platform.alone.2.Grows g := h.widens.grows
  have hg' : g.Grows g' := h'.widens.grows
  have hclosed : g.Closed := h.widens.closed closed_platform
  refine ⟨?_, ?_, ?_, resolve_grows hg, resolve_grows (hg.trans hg'), (hg.trans hg').method, by decide +kernel⟩
  · intro name t ht
    exact hg'.lookup? ht
  · intro t name f hf
    exact hg'.findField? hclosed hf
  · intro t name parameters m hm
    exact hg'.findMethod?_closed hclosed hm

end TypeGraph

namespace Specimen

/-- a number type of another namespace, a second type with the name of the platform's, and an exchange on the platform's
that is spelled like the one of numbers -/
def crowded : TypeGraph :=
  let (int32, g) := graph.addType (.ofClass ⟨"Other.Int32"⟩ Platform.alone.1.valueType TypeFlags.public_)
  let (_, g) := g.addType (.ofClass QualifiedName.interlocked Platform.alone.1.object TypeFlags.public_)
  (g.addMethod {
    declaring := Platform.alone.1.interlocked, name := MemberName.exchange, flags := MethodFlags.ofStatic
    parameters :=
      [{ name := ⟨"location1"⟩, type := .byRef (.named int32) }, { name := ⟨"value"⟩, type := .named int32 }]
    returns := some (.named int32) }).2

theorem developed : Platform.alone.2.Develops graph :=
  .method (.method (.method (.field (.type .refl _ (by decide) (by decide)) _) _ (by decide)) _ (by decide)) _ (by decide)

theorem crowded_developed : Platform.alone.2.Develops crowded :=
  .method (.type (.type developed _ (by decide) (by decide)) _ (by decide) (by decide)) _ (by decide +kernel)

/-- the session over the crowded graph, and what is found after it -/
theorem references_crowded : Platform.alone.2.Develops crowded ∧
    crowded.Develops (Session.left {} { graph := crowded, module }).graph ∧
    (Session.left {} { graph := crowded, module }).graph.findMethod? Platform.alone.1.interlocked "Exchange"
      ["Int32&", "Int32"] = some Platform.alone.1.exchangeInt32 ∧
    References.resolve? (Session.left {} { graph := crowded, module }).graph = .ok Platform.alone.1.references := by
  have hdevelops : crowded.Develops (Session.left {} { graph := crowded, module }).graph := .session .refl {} module {}
  have hlast := TypeGraph.references_last crowded_developed hdevelops
  have hfound : crowded.findMethod? Platform.alone.1.interlocked "Exchange" ["Int32&", "Int32"] =
      some Platform.alone.1.exchangeInt32 := by decide +kernel
  exact ⟨crowded_developed, hdevelops, hlast.2.2.1 _ _ _ _ hfound, hlast.2.2.2.2.1⟩

end Specimen

end DisposalWeaver
