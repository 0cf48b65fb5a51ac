/-
The turns of a session.

The types of a module take their turns one after another, over a graph that gains members on the way. Nothing is asked of
graph and module here but that they name declared members (`Module.Grounded`): a definition may be listed twice, and the
exchange that is found need not fit. A turn leaves a definition alone or weaves it, and what it makes then can be read
against the graph that the session began with (`Session.Wove`). `Session.Turns` says what became of all definitions, in
order, and `Anew` that members which they name anew are named once. Main statement: `weave_passed`.
-/
import DisposalWeaver.Proofs.TailoredType
import DisposalWeaver.Proofs.Verdicts

namespace DisposalWeaver

/-! ## Modules over a graph -/

/-- graph and module name no member that is not declared -/
structure Module.Grounded (g : TypeGraph) (module : Module) : Prop where
  lists : g.ListsDeclared
  methods : ∀ t ∈ module.types, ∀ d ∈ t.methods, d.id.index < g.methods.size
  fields : ∀ t ∈ module.types, ∀ f ∈ t.fields, f.id.index < g.fields.size

theorem References.findMethod?_declared {g : TypeGraph} (hg : g.ListsDeclared) {t : TypeId} {name : MemberName}
    {parameters : List String} {m : MethodId} (h : findMethod? g t name parameters = .ok m) :
    m.index < g.methods.size :=
  hg t m (List.mem_of_find?_eq_some (findMethod?_eq_ok_iff.1 h))

/-- the members that are found are declared -/
theorem References.resolve?_declared {g : TypeGraph} (hg : g.ListsDeclared) {references : References}
    (h : resolve? g = .ok references) : references.Declared g := by
  have hfound := resolve?_eq_ok_iff.1 h
  obtain ⟨collector, -, hsuppressFinalize⟩ := hfound.suppressFinalize
  obtain ⟨interlocked, -, hexchangeInt32, hexchangeReference⟩ := hfound.exchanges
  obtain ⟨exception, -, hdisposedConstructor⟩ := hfound.disposedConstructor
  exact {
    objectFinalize := findMethod?_declared hg hfound.objectFinalize
    suppressFinalize := findMethod?_declared hg hsuppressFinalize
    dispose := findMethod?_declared hg hfound.dispose
    exchangeInt32 := findMethod?_declared hg hexchangeInt32
    exchangeReference := findMethod?_declared hg hexchangeReference
    disposedConstructor := findMethod?_declared hg hdisposedConstructor }

/-! ## Members that are named anew -/

/-- places from `known` on are places from `start` on, and are there once -/
structure Anew (known start : Nat) (places : List Nat) : Prop where
  since : ∀ i ∈ places, known ≤ i → start ≤ i
  once : (places.filter fun i => decide (known ≤ i)).Nodup

section Anew

variable {known start next : Nat} {places later : List Nat}

theorem Anew.nil : Anew known start [] where
  since i hi := by cases hi
  once := .nil

/-- places that were known, with new ones behind them -/
theorem Anew.of_append (hknown : ∀ i ∈ places, i < known) (hstart : ∀ i ∈ later, start ≤ i) (hn : later.Nodup) :
    Anew known start (places ++ later) where
  since i hi hnew := by
    rcases List.mem_append.1 hi with hi | hi
    · exact absurd (hknown i hi) (Nat.not_lt.2 hnew)
    · exact hstart i hi
  once := by
    have hnone : places.filter (fun i => decide (known ≤ i)) = [] := by
      refine List.filter_eq_nil_iff.2 fun i hi => ?_
      simpa using hknown i hi
    rw [List.filter_append, hnone, List.nil_append]
    exact hn.filter _

theorem Anew.of_known (hknown : ∀ i ∈ places, i < known) : Anew known start places := by
  rw [← List.append_nil places]
  exact .of_append hknown (fun i hi => by cases hi) .nil

/-- what comes later is new against what came before -/
theorem Anew.append (hp : Anew known start places) (hnext : ∀ i ∈ places, i < next) (hstart : start ≤ next)
    (hl : Anew known next later) : Anew known start (places ++ later) where
  since i hi hnew := by
    rcases List.mem_append.1 hi with hi | hi
    · exact hp.since i hi hnew
    · exact Nat.le_trans hstart (hl.since i hi hnew)
  once := by
    rw [List.filter_append, List.nodup_append]
    refine ⟨hp.once, hl.once, fun i hi j hj heq => ?_⟩
    obtain ⟨hi, -⟩ := List.mem_filter.1 hi
    obtain ⟨hj, hnew⟩ := List.mem_filter.1 hj
    have hbefore := hnext i hi
    have hafter := hl.since j hj (of_decide_eq_true hnew)
    omega

/-- a new place is there once -/
theorem Anew.count (hp : Anew known start places) {i : Nat} (hi : i ∈ places) (hnew : known ≤ i) : places.count i = 1 := by
  have hcount : (places.filter fun i => decide (known ≤ i)).count i = places.count i :=
    List.count_filter (decide_eq_true hnew)
  rw [← hcount]
  exact List.count_eq_one_of_mem hp.once (List.mem_filter.2 ⟨hi, decide_eq_true hnew⟩)

end Anew

/-- the places of the methods that definitions define -/
def methodPlaces (types : List TypeDef) : List Nat :=
  types.flatMap fun t => t.methods.map fun d => d.id.index

/-- the places of the fields that definitions hold -/
def fieldPlaces (types : List TypeDef) : List Nat :=
  types.flatMap fun t => t.fields.map fun f => f.id.index

section Places

variable {settings : Settings} {references : References} {g h G : TypeGraph} {t t' : TypeDef} {entry : MethodId}
  {fabric : Fabric} {noted : List Notice}

/-- what is made of a type defines known methods and, each once, methods that are new since its turn -/
theorem Tailored.methodPlaces (ht : Tailored settings references h G t entry fabric noted t')
    (hmethods : ∀ d ∈ t.methods, d.id.index < g.methods.size) (hg : g.Gains h) :
    Anew g.methods.size h.methods.size (t'.methods.map fun d => d.id.index) ∧
      ∀ i ∈ t'.methods.map (fun d => d.id.index), i < G.methods.size := by
  have hplaces : t'.methods.map (fun d => d.id.index) = t.methods.map (fun d => d.id.index) ++
      (fabric.bodies G references (Selection.disposedFields h references settings [] t.fields.reverse) t.id).map
        fun e => e.1.index := by
    have hids := congrArg (List.map MethodId.index) ht.ids
    simpa only [List.map_append, List.map_map, Function.comp_def, List.map_cons, List.map_nil] using hids
  rw [hplaces]
  refine ⟨.of_append (List.forall_mem_map.2 hmethods) (List.forall_mem_map.2 fun e he => (ht.fits.new he).1) ?_,
    List.forall_mem_append.2 ⟨List.forall_mem_map.2 fun d hd => ?_, List.forall_mem_map.2 fun e he => (ht.fits.new he).2⟩⟩
  · have hinjective : Function.Injective MethodId.index := fun m m' heq => congrArg MethodId.mk heq
    have honce := (List.nodup_map_iff hinjective).2 ht.once
    rwa [List.map_map] at honce
  · exact Nat.lt_of_lt_of_le (hmethods d hd) (Nat.le_trans hg.methods ht.gains.methods)

/-- … and it holds known fields and the two that are new -/
theorem Tailored.fieldPlaces (ht : Tailored settings references h G t entry fabric noted t')
    (hfields : ∀ f ∈ t.fields, f.id.index < g.fields.size) (hg : g.Gains h) :
    Anew g.fields.size h.fields.size (t'.fields.map fun f => f.id.index) ∧
      ∀ i ∈ t'.fields.map (fun f => f.id.index), i < G.fields.size := by
  have hplaces : t'.fields.map (fun f => f.id.index) =
      t.fields.map (fun f => f.id.index) ++ [fabric.state.signaled.index, fabric.state.disposed.index] := by
    have hids := congrArg (List.map FieldId.index) ht.fields
    simpa only [List.map_append, List.map_map, Function.comp_def, List.map_cons, List.map_nil] using hids
  obtain ⟨⟨hsignaled, hslt⟩, -⟩ := ht.fits.state.signaled
  obtain ⟨⟨hdisposed, hdlt⟩, -⟩ := ht.fits.state.disposed
  have hne : fabric.state.signaled.index ≠ fabric.state.disposed.index := fun heq =>
    ht.fits.state.distinct (congrArg FieldId.mk heq)
  rw [hplaces]
  refine ⟨.of_append (List.forall_mem_map.2 hfields) (by simp [hsignaled, hdisposed]) (by simp [hne]),
    List.forall_mem_append.2 ⟨List.forall_mem_map.2 fun f hf => ?_, by simp [hslt, hdlt]⟩⟩
  exact Nat.lt_of_lt_of_le (hfields f hf) (Nat.le_trans hg.fields ht.gains.fields)

end Places

/-! ## Opt-out markers -/

section OptOut

variable {settings : Settings} {references : References} {g G : TypeGraph} {t t' : TypeDef} {entry : MethodId}
  {fabric : Fabric} {noted : List Notice}

theorem OptOut.types_clean (g : TypeGraph) (settings : Settings) (module : Module) :
    (OptOut.clean g settings module).1.types = module.types.map (OptOut.strip g settings) := by
  unfold OptOut.clean
  simp only
  split <;> rfl

theorem OptOut.markers_clean (g : TypeGraph) (settings : Settings) (module : Module) :
    (OptOut.clean g settings module).1.markers = OptOut.without g settings.skipNamespaceMarker module.markers := by
  unfold OptOut.clean
  simp only
  split <;> rfl

/-- removing markers takes no field away -/
theorem OptOut.fieldIds_strip (g : TypeGraph) (settings : Settings) (t : TypeDef) :
    (OptOut.strip g settings t).fields.map FieldDef.id = t.fields.map FieldDef.id := by
  rw [OptOut.strip, List.map_map]
  rfl

theorem OptOut.methodPlaces_strip (g : TypeGraph) (settings : Settings) (types : List TypeDef) :
    methodPlaces (types.map (OptOut.strip g settings)) = methodPlaces types := by
  rw [methodPlaces, List.flatMap_map]
  rfl

theorem OptOut.fieldPlaces_strip (g : TypeGraph) (settings : Settings) (types : List TypeDef) :
    fieldPlaces (types.map (OptOut.strip g settings)) = fieldPlaces types := by
  rw [fieldPlaces, List.flatMap_map]
  refine List.flatMap_congr fun t _ => ?_
  have hids := congrArg (List.map FieldId.index) (OptOut.fieldIds_strip g settings t)
  simpa only [List.map_map, Function.comp_def] using hids

/-- what is made of a type is as well without the markers -/
theorem Tailored.strip (h : Tailored settings references g G t entry fabric noted t') (k : TypeGraph) :
    Tailored settings references g G t entry fabric noted (OptOut.strip k settings t') :=
  { h with fields := by rw [OptOut.fieldIds_strip, h.fields] }

end OptOut

namespace Session

/-! ## One turn -/

/-- the turn in which a session wove a type: weaving led from the one loom to the other, over a graph that had gained
members since the session began and was to gain more before it ended -/
structure Wove (context : Context) (g G : TypeGraph) (first last : Diagnostics) (t : TypeDef) (entry : MethodId)
    (fabric : Fabric) (noted : List Notice) (L L' : Loom) : Prop where
  target : L.target = t
  run : Weave.weaveType (context.pattern entry) L = .ok (some fabric.arrangement.shape) L'
  earlier : g.Gains L.graph
  later : L'.graph.Gains G
  before : ∃ others, L.diagnostics = first.recordAll others
  notes : L'.diagnostics = L.diagnostics.recordAll noted
  after : ∃ others, last = L'.diagnostics.recordAll others
  sole : Selection.entryMethods g context.settings t = [entry]
  tailored : Tailored context.settings context.references g L'.graph t entry fabric noted L'.target

section Turn

variable {context : Context} {g h : TypeGraph} {t : TypeDef} {entry : MethodId} {L : Loom}

/-- a type that is to be woven has one entry point only -/
theorem verdict_sole (hv : verdict g context t = .woven entry) : Selection.entryMethods g context.settings t = [entry] := by
  have hj := verdict_judges g context t
  rw [hv] at hj
  cases hj with
  | @woven _ others _ hentries _ hwell _ =>
    rw [Selection.entryViolations] at hwell
    simp only [List.append_eq_nil_iff, List.length_cons] at hwell
    cases others with
    | nil => exact hentries
    | cons other rest => simp at hwell

/-- … and defines it once -/
theorem verdict_once (hv : verdict g context t = .woven entry) : (t.methods.map MethodDef.id).count entry = 1 := by
  have hsole := verdict_sole hv
  have hmem : entry ∈ Selection.entryMethods g context.settings t := hsole ▸ List.mem_singleton_self entry
  have hcount : (Selection.entryMethods g context.settings t).count entry = (t.methods.map MethodDef.id).count entry := by
    unfold Selection.entryMethods
    exact List.count_filter (List.mem_filter.1 hmem).2
  rw [← hcount, hsole, List.count_singleton_self]

/-- a turn that is to weave and ends well has woven -/
theorem weaveDefinition_ok (hv : verdict L.graph context L.target = .woven entry) {outcome : Outcome}
    (hok : (weaveDefinition context L).outcome = .ok outcome) : ∃ shape L',
      Weave.weaveType (context.pattern entry) L = .ok (some shape) L' ∧
      weaveDefinition context L = { loom := L', outcome := .ok (.woven shape) } := by
  cases hrun : Weave.weaveType (context.pattern entry) L with
  | ok answer L' =>
    cases answer with
    | some shape => exact ⟨shape, L', rfl, weaveDefinition_weaves hv hrun⟩
    | none =>
      rw [Weave.weaveType_eq (verdict_woven hv).2] at hrun
      obtain ⟨_, _, -, hrun⟩ := answer_of_bind hrun
      obtain ⟨_, _, -, hrun⟩ := answer_of_bind hrun
      obtain ⟨_, _, -, hrun⟩ := answer_of_bind hrun
      obtain ⟨_, _, -, hrun⟩ := answer_of_bind hrun
      cases hrun
  | error cause L' =>
    have hj := verdict_judges L.graph context L.target
    rw [hv] at hj
    cases hj with
    | woven heligible hentries hnew hwell hc =>
      unfold weaveDefinition at hok
      simp only [heligible, hentries, hnew, Bool.not_true, Bool.false_eq_true, ↓reduceIte, weaveEntry, hwell] at hok
      rw [Context.pattern] at hrun
      simp only [hrun] at hok
      cases hok

/-- where a session is before the turns of types: each type is as it was, or has its state already -/
structure Pending (context : Context) (g h : TypeGraph) (types : List TypeDef) : Prop where
  lists : g.ListsDeclared
  references : context.references.Declared g
  gains : g.Gains h
  methods : ∀ t ∈ types, ∀ d ∈ t.methods, d.id.index < g.methods.size
  fields : ∀ t ∈ types, ∀ f ∈ t.fields, f.id.index < g.fields.size
  state : ∀ T, h.type T = g.type T ∨ h.Signals context.settings T

variable {h' G : TypeGraph} {types rest : List TypeDef} {first middle last : Diagnostics} {fabric : Fabric}
  {noted : List Notice} {L' : Loom}

theorem Pending.next (hp : Pending context g h (t :: rest)) (hgains : h.Gains h')
    (hstate : ∀ T, h'.type T = h.type T ∨ h'.Signals context.settings T) : Pending context g h' rest where
  lists := hp.lists
  references := hp.references
  gains := hp.gains.trans hgains
  methods u hu := hp.methods u (List.mem_cons_of_mem _ hu)
  fields u hu := hp.fields u (List.mem_cons_of_mem _ hu)
  state T := by
    rcases hp.state T with hsame | hsignals
    · exact (hstate T).imp_left fun h => h.trans hsame
    · exact .inr (hsignals.gains hgains)

/-- **A turn that weaves** makes of the type what it would be made of over the graph that the session began with. -/
theorem weaveDefinition_wove (hp : Pending context g h (t :: rest)) (hv : verdict h context t = .woven entry)
    {shape : Shape} (hrun : Weave.weaveType (context.pattern entry) { graph := h, target := t, diagnostics := first } =
      .ok (some shape) L') : ∃ fabric noted, shape = fabric.arrangement.shape ∧
      (∀ T, L'.graph.type T = h.type T ∨ L'.graph.Signals context.settings T) ∧
      Tailored context.settings context.references h L'.graph t entry fabric noted L'.target ∧
      Wove context g L'.graph first L'.diagnostics t entry fabric noted
        { graph := h, target := t, diagnostics := first } L' := by
  obtain ⟨-, hc⟩ := verdict_woven hv
  have hsame : h.type t.id = g.type t.id :=
    (hp.state t.id).resolve_right fun hsignals => hsignals.collision? hc
  have hmethods := hp.methods t List.mem_cons_self
  have hfields := hp.fields t List.mem_cons_self
  obtain ⟨fabric, noted, hshape, hgains, hothers, hsignals, hnoted, htailored⟩ :=
    weaveType_tailored (L := { graph := h, target := t, diagnostics := first }) rfl (verdict_once hv)
      (fun d hd => Nat.lt_of_lt_of_le (hmethods d hd) hp.gains.methods)
      (fun f hf => Nat.lt_of_lt_of_le (hfields f hf) hp.gains.fields) (hp.lists.gains hp.gains)
      (hp.gains.declared hp.references) hc hrun
  cases hshape
  refine ⟨fabric, noted, rfl, fun T => ?_, htailored, {
    target := rfl
    run := hrun
    earlier := hp.gains
    later := .refl _
    before := ⟨[], Diagnostics.recordAll_nil.symm⟩
    notes := hnoted
    after := ⟨[], Diagnostics.recordAll_nil.symm⟩
    sole := by
      rw [← hp.gains.entryMethods hmethods]
      exact verdict_sole hv
    tailored := htailored.since hp.gains hsame hp.lists hmethods hfields }⟩
  by_cases hT : T = t.id
  · exact hT ▸ hsignals
  · exact .inl (hothers T hT)

/-- a turn is still that turn if the session began earlier and goes on -/
theorem Wove.within {g' : TypeGraph} {first' last' : Diagnostics} {others others' : List Notice}
    (hw : Wove context g G first last t entry fabric noted L L') (hG : G.Gains g')
    (hfirst : first = first'.recordAll others) (hlast : last' = last.recordAll others') :
    Wove context g g' first' last' t entry fabric noted L L' where
  target := hw.target
  run := hw.run
  earlier := hw.earlier
  later := hw.later.trans hG
  before := by
    obtain ⟨before, hbefore⟩ := hw.before
    exact ⟨others ++ before, by rw [hbefore, hfirst, Diagnostics.recordAll_recordAll]⟩
  notes := hw.notes
  after := by
    obtain ⟨after, hafter⟩ := hw.after
    exact ⟨after ++ others', by rw [hlast, hafter, Diagnostics.recordAll_recordAll]⟩
  sole := hw.sole
  tailored := hw.tailored

end Turn

/-! ## All turns -/

/-- what became of definitions, in order, and the report on those that were woven -/
inductive Turns (context : Context) (g G : TypeGraph) (first last : Diagnostics) :
    List TypeDef → List TypeDef → List (TypeId × Shape) → Prop where
  | nil : Turns context g G first last [] [] []
  | kept {t types types' report} (h : Turns context g G first last types types' report) :
      Turns context g G first last (t :: types) (t :: types') report
  | woven {t types types' report entry fabric noted L L'} (h : Turns context g G first last types types' report)
      (hw : Wove context g G first last t entry fabric noted L L') : Turns context g G first last (t :: types)
        (L'.target :: types') ((t.id, fabric.arrangement.shape) :: report)

/-- the turns of types led from the graph that the session over `g` had arrived at to `G` -/
structure Passed (context : Context) (g h G : TypeGraph) (first last : Diagnostics) (types types' : List TypeDef)
    (report : List (TypeId × Shape)) : Prop where
  gains : h.Gains G
  noted : ∃ noted, last = first.recordAll noted
  methods : Anew g.methods.size h.methods.size (methodPlaces types')
  fields : Anew g.fields.size h.fields.size (fieldPlaces types')
  turns : Turns context g G first last types types' report

section Turns

variable {context : Context} {g h G : TypeGraph} {t : TypeDef} {entry : MethodId} {fabric : Fabric}
  {noted : List Notice} {first middle last : Diagnostics} {types types' rest rest' : List TypeDef}
  {report : List (TypeId × Shape)} {L L' : Loom}

/-- turns are still those turns if the session began earlier and something is noted later -/
theorem Turns.within (ht : Turns context g G middle last types types' report) {last' : Diagnostics}
    {others others' : List Notice} (hfirst : middle = first.recordAll others) (hlast : last' = last.recordAll others') :
    Turns context g G first last' types types' report := by
  induction ht with
  | nil => exact .nil
  | kept _ ih => exact .kept ih
  | woven _ hw ih => exact .woven ih (hw.within (.refl G) hfirst hlast)

/-- a type that is reported as woven had its turn -/
theorem Turns.reported (ht : Turns context g G first last types types' report) {e : TypeId × Shape} (he : e ∈ report) :
    ∃ t entry fabric noted L L', (t, L'.target) ∈ types.zip types' ∧ e = (t.id, fabric.arrangement.shape) ∧
      Wove context g G first last t entry fabric noted L L' := by
  induction ht with
  | nil => cases he
  | kept _ ih =>
    obtain ⟨u, entry, fabric, noted, L, L', hmem, hrest⟩ := ih he
    exact ⟨u, entry, fabric, noted, L, L', List.mem_cons_of_mem _ hmem, hrest⟩
  | woven _ hw ih =>
    rcases List.mem_cons.1 he with rfl | he
    · exact ⟨_, _, _, _, _, _, List.mem_cons_self, rfl, hw⟩
    · obtain ⟨u, entry, fabric, noted, L, L', hmem, hrest⟩ := ih he
      exact ⟨u, entry, fabric, noted, L, L', List.mem_cons_of_mem _ hmem, hrest⟩

/-- one more turn, in front, that leaves the definition alone -/
theorem Passed.kept (hr : Passed context g h G middle last rest rest' report) (hp : Pending context g h (t :: rest))
    {others : List Notice} (hmiddle : middle = first.recordAll others) :
    Passed context g h G first last (t :: rest) (t :: rest') report where
  gains := hr.gains
  noted := by
    obtain ⟨noted, hnoted⟩ := hr.noted
    exact ⟨others ++ noted, by rw [hnoted, hmiddle, Diagnostics.recordAll_recordAll]⟩
  methods := by
    have hknown : ∀ i ∈ t.methods.map (fun d => d.id.index), i < g.methods.size :=
      List.forall_mem_map.2 (hp.methods t List.mem_cons_self)
    exact (Anew.of_known hknown).append (fun i hi => Nat.lt_of_lt_of_le (hknown i hi) hp.gains.methods) (Nat.le_refl _)
      hr.methods
  fields := by
    have hknown : ∀ i ∈ t.fields.map (fun f => f.id.index), i < g.fields.size :=
      List.forall_mem_map.2 (hp.fields t List.mem_cons_self)
    exact (Anew.of_known hknown).append (fun i hi => Nat.lt_of_lt_of_le (hknown i hi) hp.gains.fields) (Nat.le_refl _)
      hr.fields
  turns := .kept (hr.turns.within hmiddle Diagnostics.recordAll_nil.symm)

/-- one more turn, in front, that weaves -/
theorem Passed.woven (hr : Passed context g L'.graph G L'.diagnostics last rest rest' report)
    (hp : Pending context g h (t :: rest))
    (ht : Tailored context.settings context.references h L'.graph t entry fabric noted L'.target)
    (hw : Wove context g L'.graph first L'.diagnostics t entry fabric noted
      { graph := h, target := t, diagnostics := first } L') :
    Passed context g h G first last (t :: rest) (L'.target :: rest') ((t.id, fabric.arrangement.shape) :: report) where
  gains := ht.gains.trans hr.gains
  noted := by
    obtain ⟨later, hlater⟩ := hr.noted
    exact ⟨noted ++ later, by rw [hlater, hw.notes, Diagnostics.recordAll_recordAll]⟩
  methods := by
    obtain ⟨hanew, hlt⟩ := ht.methodPlaces (hp.methods t List.mem_cons_self) hp.gains
    exact hanew.append hlt ht.gains.methods hr.methods
  fields := by
    obtain ⟨hanew, hlt⟩ := ht.fieldPlaces (hp.fields t List.mem_cons_self) hp.gains
    exact hanew.append hlt ht.gains.fields hr.fields
  turns := by
    obtain ⟨later, hlater⟩ := hr.noted
    exact .woven (hr.turns.within hw.notes Diagnostics.recordAll_nil.symm) (hw.within hr.gains Diagnostics.recordAll_nil.symm hlater)

/-- **All types have had their turns**, if all turns end well. -/
theorem weaveDefinitions_passed (hp : Pending context g h types) {progress : Progress}
    (hprogress : progress = weaveDefinitions context h first types) {report : Report}
    (hreport : progress.report = .ok report) :
    Passed context g h progress.graph first progress.diagnostics types progress.types report.woven := by
  -- on the types that are left: each turn leaves the other types as they are or with their state
  induction types generalizing h first progress report with
  | nil =>
    subst hprogress
    cases hreport
    exact ⟨.refl h, ⟨[], Diagnostics.recordAll_nil.symm⟩, .nil, .nil, .nil⟩
  | cons t rest ih =>
    subst hprogress
    unfold weaveDefinitions at hreport ⊢
    simp only at hreport ⊢
    cases hturn : (weaveDefinition context { graph := h, target := t, diagnostics := first }).outcome with
    | error cause => simp [hturn] at hreport
    | ok outcome =>
      simp only [hturn] at hreport ⊢
      obtain ⟨later, hlater, rfl⟩ := ok_of_map hreport
      cases hw : (verdict h context t).isWoven with
      | false =>
        have heq := @weaveDefinition_spared context { graph := h, target := t, diagnostics := first } hw
        rw [heq] at hturn hlater ⊢
        cases hturn
        rw [woven_prepend hw (Verdict.spared_meets hw)]
        exact (ih (hp.next (.refl h) fun _ => .inl rfl) rfl hlater).kept hp rfl
      | true =>
        obtain ⟨entry, hv⟩ : ∃ entry, verdict h context t = .woven entry := by
          cases hcase : verdict h context t with
          | woven entry => exact ⟨entry, rfl⟩
          | _ => rw [hcase] at hw; cases hw
        obtain ⟨shape, L', hrun, heq⟩ :=
          @weaveDefinition_ok context entry { graph := h, target := t, diagnostics := first } hv outcome hturn
        rw [heq] at hturn hlater ⊢
        cases hturn
        obtain ⟨fabric, noted, rfl, hstate, htailored, hwove⟩ := weaveDefinition_wove hp hv hrun
        exact (ih (hp.next htailored.gains hstate) rfl hlater).woven hp htailored hwove

/-- what was made of a type, as the last graph has it -/
theorem Wove.woven (hw : Wove context g G first last t entry fabric noted L L') (hl : g.ListsDeclared)
    (hr : context.references.Declared g) (hfields : ∀ f ∈ t.fields, f.id.index < g.fields.size) :
    Tailored context.settings context.references g G t entry fabric noted L'.target :=
  hw.tailored.later hw.later hl hr hfields

end Turns

/-! ## The whole session -/

/-- notices at the end make no difference -/
theorem Passed.notice {context : Context} {g h G : TypeGraph} {first last : Diagnostics} {types types' : List TypeDef}
    {report : List (TypeId × Shape)} (hp : Passed context g h G first last types types' report) (notice : Notice) :
    Passed context g h G first (last.record notice) types types' report where
  gains := hp.gains
  noted := by
    obtain ⟨noted, hnoted⟩ := hp.noted
    exact ⟨noted ++ [notice], by rw [Diagnostics.record_eq, hnoted, Diagnostics.recordAll_recordAll]⟩
  methods := hp.methods
  fields := hp.fields
  turns := hp.turns.within Diagnostics.recordAll_nil.symm (Diagnostics.record_eq notice)

/-- **A session that succeeds** gave the types of the module their turns, and then removed opt-out markers from what the
turns had made. -/
theorem weave_passed {g : TypeGraph} {module : Module} (hm : module.Grounded g) {settings : Settings}
    {diagnostics : Diagnostics} {report : Report} {session : Session}
    (h : weave settings { graph := g, module, diagnostics } = .ok report session) : ∃ references types,
      References.resolve? g = .ok references ∧
      session.module.types = types.map (OptOut.strip session.graph settings) ∧
      Passed { references, settings, module } g g session.graph diagnostics session.diagnostics module.types types
        report.woven := by
  unfold weave at h
  split at h
  · cases h
  · next references hreferences =>
    simp only at h
    split at h
    · next later hlater =>
      cases h
      have hp : Pending { references, settings, module } g g module.types := {
        lists := hm.lists
        references := References.resolve?_declared hm.lists hreferences
        gains := .refl g
        methods := hm.methods
        fields := hm.fields
        state := fun T => .inl rfl }
      exact ⟨references, _, hreferences, OptOut.types_clean .., (weaveDefinitions_passed hp rfl hlater).notice _⟩
    · cases h

end Session

end DisposalWeaver
