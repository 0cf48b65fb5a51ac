/-
Weaving a module again.

A session leaves a module that has nothing left to weave: types that it wove are found woven already, and every other
verdict is what it was (`Verdict.again`, `Ran.verdicts`). A session over such a module leaves the graph and the types
alone, whatever they are (`Settled`, `weave_settled`). Main statement: `weave_again`.
-/
import DisposalWeaver.Proofs.SessionReport

namespace DisposalWeaver

/-! ## What eligibility goes by -/

/-- what a definition has to do with whether types are eligible -/
def TypeDef.header (t : TypeDef) : TypeId × List Marker :=
  (t.id, t.markers)

section Headers

variable {g : TypeGraph} {settings : Settings} {module module' : Module} {t t' : TypeDef}

/-- the two modules define types of the same headers -/
def Module.Alike (module module' : Module) : Prop :=
  ∀ T, (module'.definition? T).map TypeDef.header = (module.definition? T).map TypeDef.header

theorem Module.alike_of_headers (h : module'.types.map TypeDef.header = module.types.map TypeDef.header) :
    module.Alike module' := by
  have hfind : ∀ (module : Module) (T : TypeId), (module.definition? T).map TypeDef.header =
      (module.types.map TypeDef.header).find? fun header => header.1 == T := by
    intro module T
    rw [List.find?_map]
    rfl
  intro T
  rw [hfind, hfind, h]

theorem isGeneratedWithin_congr (hmodule : module.Alike module') (ht : t'.header = t.header) (bound : Nat) :
    Selection.isGeneratedWithin g module' bound t' = Selection.isGeneratedWithin g module bound t := by
  induction bound generalizing t t' with
  | zero =>
    simp only [Selection.isGeneratedWithin, Selection.isMarkedGenerated, (Prod.mk.inj ht).2]
  | succ bound ih =>
    simp only [Selection.isGeneratedWithin, Selection.isMarkedGenerated, (Prod.mk.inj ht).1, (Prod.mk.inj ht).2]
    congr 1
    cases (g.type t.id).enclosing with
    | none => rfl
    | some T =>
      have hT := hmodule T
      cases hu : module.definition? T <;> cases hu' : module'.definition? T <;> rw [hu, hu'] at hT
      · simp only [Option.bind_some, hu, hu']
      · cases hT
      · cases hT
      · simp only [Option.bind_some, hu, hu']
        exact ih (Option.some.inj hT)

theorem isEligible_congr (hmodule : module.Alike module') (hmarkers : module'.markers = module.markers)
    (ht : t'.header = t.header) :
    Selection.isEligible g settings module' t' = Selection.isEligible g settings module t := by
  simp only [Selection.isEligible, Selection.isGenerated, Selection.skippedNamespaces,
    isGeneratedWithin_congr hmodule ht, hmarkers, (Prod.mk.inj ht).1, (Prod.mk.inj ht).2]

/-- the verdict on a type does not go by its fields, nor by members of other definitions -/
theorem verdict_congr {references : References} (hmodule : module.Alike module')
    (hmarkers : module'.markers = module.markers) (ht : t'.header = t.header) (hmethods : t'.methods = t.methods) :
    Session.verdict g { references, settings, module := module' } t' =
      Session.verdict g { references, settings, module } t := by
  have hfind : t'.method? = t.method? := by
    funext m
    rw [TypeDef.method?, TypeDef.method?, hmethods]
  unfold Session.verdict
  simp only [isEligible_congr hmodule hmarkers ht, Selection.entryMethods, Selection.entryViolations, hfind,
    (Prod.mk.inj ht).1, hmethods]

end Headers

namespace Session

/-! ## Settled modules -/

/-- is there nothing left to weave? -/
def Settled (g : TypeGraph) (context : Context) (types : List TypeDef) : Prop :=
  ∀ t ∈ types, (verdict g context t).isWoven = false

theorem weaveDefinitions_settled {g : TypeGraph} {context : Context} {types : List TypeDef}
    (h : Settled g context types) (diagnostics : Diagnostics) : ∃ report noted,
      weaveDefinitions context g diagnostics types =
        { graph := g, diagnostics := diagnostics.recordAll noted, types, report := .ok report } ∧
      Follows (verdict g context) types report ∧
      Notice.violations noted = types.flatMap fun t => (verdict g context t).violations := by
  induction types generalizing diagnostics with
  | nil => exact ⟨{}, [], by rw [Diagnostics.recordAll_nil]; rfl, ⟨rfl, rfl, rfl⟩, rfl⟩
  | cons t rest ih =>
    have hsettled : (verdict g context t).isWoven = false := h t List.mem_cons_self
    have heq := @weaveDefinition_spared context { graph := g, target := t, diagnostics } hsettled
    obtain ⟨report, noted, hrest, hfollows, hnoted⟩ := ih (fun u hu => h u (List.mem_cons_of_mem _ hu))
      (diagnostics.recordAll ((verdict g context t).notices (g.nameOf t.id)))
    refine ⟨report.prepend t.id (verdict g context t).spared, (verdict g context t).notices (g.nameOf t.id) ++ noted, ?_,
      hfollows.prepend (Verdict.spared_meets hsettled), ?_⟩
    · simp only [weaveDefinitions, heq, hrest, Diagnostics.recordAll_recordAll]
      rfl
    · rw [Notice.violations, List.filterMap_append, List.flatMap_cons]
      exact congrArg₂ _ (Verdict.violations_notices _ _) hnoted

/-- **A settled module is left alone**: a session over it changes neither graph nor types, apart from opt-out markers. -/
theorem weave_settled {settings : Settings} {session : Session} {references : References}
    (hr : References.resolve? session.graph = .ok references)
    (h : Settled session.graph { references, settings, module := session.module } session.module.types)
    (hclean : ∀ t ∈ session.module.types, OptOut.strip session.graph settings t = t) : ∃ report session' noted,
      weave settings session = .ok report session' ∧
      session'.graph = session.graph ∧
      session'.module.types = session.module.types ∧
      session'.diagnostics = session.diagnostics.recordAll noted ∧
      Follows (verdict session.graph { references, settings, module := session.module }) session.module.types report ∧
      Notice.violations noted = session.module.types.flatMap fun t =>
        (verdict session.graph { references, settings, module := session.module } t).violations := by
  obtain ⟨report, noted, heq, hfollows, hnoted⟩ := weaveDefinitions_settled h session.diagnostics
  obtain ⟨notice, hnotice, hsilent⟩ := OptOut.clean_notice session.graph settings session.module
  refine ⟨report, clean settings { session with diagnostics := session.diagnostics.recordAll noted }, noted ++ [notice],
    by simp only [weave, hr, heq], rfl, ?_, ?_, hfollows, ?_⟩
  · simp only [clean, OptOut.types_clean]
    exact (List.map_congr_left hclean).trans (List.map_id' _)
  · simp only [clean, hnotice, Diagnostics.record_eq, Diagnostics.recordAll_recordAll]
  · rw [Notice.violations_append_silent hsilent, hnoted]

/-! ## The second session -/

/-- the verdict on a type in the session after -/
def Verdict.again : Verdict → Verdict
  | .woven _ => .alreadyWoven
  | v => v

namespace Verdict

theorem isWoven_again (v : Verdict) : v.again.isWoven = false := by
  cases v <;> rfl

theorem isAlreadyWoven_again (v : Verdict) : v.again.isAlreadyWoven = (v.isWoven || v.isAlreadyWoven) := by
  cases v <;> rfl

theorem isRejected_again (v : Verdict) : v.again.isRejected = v.isRejected := by
  cases v <;> rfl

theorem violations_again (v : Verdict) : v.again.violations = v.violations := by
  cases v <;> rfl

end Verdict

end Session

section Enriched

variable {pattern : Pattern} {g G : TypeGraph} {t t' : TypeDef} {state : WovenState} {added : List MethodDef}

/-- a type that was woven declares what weaving would add -/
theorem Enriched.isAlreadyWoven (h : Enriched pattern g G t state added t') (ht : t.id.index < g.types.size) :
    Selection.isAlreadyWoven G pattern.settings t.id = true := by
  have htype := h.declares.members ht
  have hfield : ∀ f ∈ [state.signaled, state.disposed], ∀ name : MemberName, (G.field f).name = name →
      G.hasField t.id name.text = true := by
    intro f hf name hname
    unfold TypeGraph.hasField TypeGraph.findField?
    rw [List.find?_isSome, htype]
    exact ⟨f, List.mem_append_right _ hf, by rw [hname, beq_self_eq_true]⟩
  have hmethod : G.hasMethod t.id pattern.settings.guardMethod.text = true := by
    unfold TypeGraph.hasMethod
    rw [List.any_eq_true, htype]
    exact ⟨state.guard, List.mem_append_right _ h.declares.guard.1, by rw [h.declares.guard.2, Weave.privateMethod, beq_self_eq_true]⟩
  rw [Selection.isAlreadyWoven, hmethod,
    hfield state.signaled List.mem_cons_self _ (by rw [h.declares.signaled.2, Weave.stateField]),
    hfield state.disposed (List.mem_cons_of_mem _ List.mem_cons_self) _ (by rw [h.declares.disposed.2, Weave.stateField])]
  rfl

/-- … and still has its entry point -/
theorem Enriched.entryMethods (h : Enriched pattern g G t state added t') (hg : g.Gains G)
    (hmethods : ∀ d ∈ t.methods, d.id.index < g.methods.size)
    (hentry : pattern.entry ∈ Selection.entryMethods g pattern.settings t) :
    pattern.entry ∈ Selection.entryMethods G pattern.settings t' := by
  obtain ⟨authored, heq, hr⟩ := h.methods
  obtain ⟨hmem, hname⟩ := List.mem_filter.1 hentry
  obtain ⟨d, hd, hid⟩ := List.mem_map.1 hmem
  apply List.mem_filter.2
  constructor
  · rw [heq, List.map_append, reworked_ids hr]
    exact List.mem_append_left _ hmem
  · rw [hg.method _ (hid ▸ hmethods d hd)]
    exact hname

end Enriched

namespace Session

section Again

variable {settings : Settings} {g G : TypeGraph} {module module' : Module} {types types' : List TypeDef}
  {report : Report} {noted : List Notice} {t t' : TypeDef}

theorem header_leaves {context : Context} (h : Leaves context g G t t') : t'.header = t.header := by
  cases h with
  | spared => rfl
  | woven _ he => rw [TypeDef.header, TypeDef.header, he.id, he.markers]

/-- nothing is removed from a type that does not opt out, but for markers on its fields -/
theorem header_strip (h : Selection.isSkipped g settings t.markers = false) :
    (OptOut.strip g settings t).header = t.header := by
  have hmarkers : OptOut.without g settings.skipMarker t.markers = t.markers := by
    apply List.filter_eq_self.2
    intro marker hmem
    rw [Bool.not_eq_true', Bool.eq_false_iff]
    intro hnamed
    exact Bool.eq_false_iff.1 h (List.any_eq_true.2 ⟨marker, hmem, hnamed⟩)
  rw [TypeDef.header, TypeDef.header, OptOut.strip, hmarkers]

theorem strip_strip (g : TypeGraph) (settings : Settings) (t : TypeDef) :
    OptOut.strip g settings (OptOut.strip g settings t) = OptOut.strip g settings t := by
  simp [OptOut.strip, OptOut.without, Function.comp_def]

/-- a type, and what a session over it left, judged by the next one -/
structure Rejudged (context context' : Context) (g G : TypeGraph) (t t' : TypeDef) : Prop where
  id : t'.id = t.id
  verdict : Session.verdict G context' t' = (Session.verdict g context t).again

/-- the verdict on a type after its session -/
theorem Leaves.verdict_again (h : Leaves (.ofPlatform settings module) g G t t') (hgains : g.Gains G)
    (hl : g.ListsDeclared) (hf : g.FieldsDeclared) (ht : t.Declared g)
    (hskip : Selection.isSkipped g settings t.markers = false) (hmodule : module.Alike module')
    (hmarkers : module'.markers = module.markers) :
    verdict G (.ofPlatform settings module') (OptOut.strip g settings t') =
      (verdict g (.ofPlatform settings module) t).again := by
  cases h with
  | spared hv hsame =>
    have hagain : (verdict g (.ofPlatform settings module) t).again = verdict g (.ofPlatform settings module) t := by
      cases hcase : verdict g (.ofPlatform settings module) t with
      | woven entry => rw [hcase] at hv; cases hv
      | _ => rfl
    calc verdict G (.ofPlatform settings module') (OptOut.strip g settings t)
      _ = verdict G (.ofPlatform settings module) t := verdict_congr hmodule hmarkers (header_strip hskip) rfl
      _ = verdict g (.ofPlatform settings module) t := verdict_gains _ hgains hl hf ht hsame
      _ = (verdict g (.ofPlatform settings module) t).again := hagain.symm
  | @woven entry state added _ hv he =>
    have hj := verdict_judges g (.ofPlatform settings module) t
    rw [hv] at hj ⊢
    cases hj with
    | @woven _ others heligible hentries =>
      have hheader : (OptOut.strip g settings t').header = t.header := by
        rw [header_strip (by rwa [he.markers])]
        exact header_leaves (.woven hv he)
      have heligible' : Selection.isEligible G settings module' (OptOut.strip g settings t') = true := by
        rw [isEligible_congr hmodule hmarkers hheader, hgains.isEligible]
        exact heligible
      have hentry : entry ∈ Selection.entryMethods G settings (OptOut.strip g settings t') :=
        he.entryMethods hgains ht.methods (hentries ▸ List.mem_cons_self)
      have halready : Selection.isAlreadyWoven G settings (OptOut.strip g settings t').id = true := by
        rw [(Prod.mk.inj hheader).1]
        exact he.isAlreadyWoven ht.id
      -- the routine may be an entry point too by now, but what is woven is found before that is looked at
      exact verdict_eq_alreadyWoven heligible' hentry halready

/-- **Verdicts after a session**: what was woven is found woven, and all others stay -/
theorem Ran.verdicts (hr : Ran (.ofPlatform settings module) g g module.types G types report noted)
    (ha : Awaits (.ofPlatform settings module) g g module.types)
    (hskip : ∀ t ∈ module.types, Selection.isSkipped g settings t.markers = false)
    (hmarkers : module'.markers = module.markers) (htypes : module'.types = types.map (OptOut.strip g settings)) :
    List.Forall₂ (Rejudged (.ofPlatform settings module) (.ofPlatform settings module') g G) module.types
      module'.types := by
  have hleaves := (List.forall₂_and_left _ _).2 ⟨fun t ht => ht, hr.leaves⟩
  have hheader : ∀ t t', t ∈ module.types ∧ Leaves (.ofPlatform settings module) g G t t' →
      (OptOut.strip g settings t').header = t.header := by
    rintro t t' ⟨ht, h⟩
    have hsame := header_leaves h
    rw [header_strip, hsame]
    rw [(Prod.mk.inj hsame).2]
    exact hskip t ht
  have hmodule : module'.types.map TypeDef.header = module.types.map TypeDef.header := by
    rw [htypes, ← List.forall₂_eq_eq_eq, List.forall₂_map_left_iff, List.forall₂_map_right_iff,
      List.forall₂_map_left_iff]
    exact (hleaves.imp hheader).flip
  rw [htypes, List.forall₂_map_right_iff]
  apply hleaves.imp
  rintro t t' ⟨ht, h⟩
  exact ⟨(Prod.mk.inj (hheader t t' ⟨ht, h⟩)).1,
    h.verdict_again hr.gains ha.lists ha.fields (ha.declared t ht) (hskip t ht) (Module.alike_of_headers hmodule) hmarkers⟩

end Again

/-! ## Both sessions -/

/-- the lists of types with the same verdicts are the same -/
theorem filter_ids {types types' : List TypeDef} {p p' : TypeDef → Bool}
    (h : List.Forall₂ (fun t t' => t'.id = t.id ∧ p' t' = p t) types types') :
    (types'.filter p').map TypeDef.id = (types.filter p).map TypeDef.id := by
  induction h with
  | nil => rfl
  | @cons t _ _ _ hhead _ ih =>
    cases hp : p t <;> simp [hhead.2, hhead.1, hp, ih]

theorem flatMap_violations {types types' : List TypeDef} {f f' : TypeDef → List Violation}
    (h : List.Forall₂ (fun t t' => f' t' = f t) types types') : types'.flatMap f' = types.flatMap f := by
  induction h with
  | nil => rfl
  | cons hhead _ ih => rw [List.flatMap_cons, List.flatMap_cons, hhead, ih]

/-- what a session reports, notes and leaves that is the second over a module, given those of the first -/
structure Repeats (module : Module) (report : Report) (session : Session) (noted : List Notice) (report' : Report)
    (session' : Session) (noted' : List Notice) : Prop where
  woven : report'.woven = []
  graph : session'.graph = session.graph
  types : session'.module.types = session.module.types
  alreadyWoven : report'.alreadyWoven =
    (module.types.map TypeDef.id).filter fun T => T ∈ report.woven.map Prod.fst ++ report.alreadyWoven
  rejected : report'.rejected = report.rejected
  violations : Notice.violations noted' = (Notice.violations noted).filter fun v => !v.isOfField

section Both

variable {context context' : Context} {g G : TypeGraph} {module : Module} {types types' : List TypeDef}
  {report report' : Report} {session session' : Session} {noted noted' : List Notice}

/-- after a session there is nothing left to weave -/
theorem settled_again (hv : List.Forall₂ (Rejudged context context' g G) types types') : Settled G context' types' := by
  induction hv with
  | nil =>
    intro t ht
    cases ht
  | cons h _ ih =>
    intro t ht
    rcases List.mem_cons.1 ht with rfl | ht
    · rw [h.verdict, Verdict.isWoven_again]
    · exact ih t ht

theorem Ran.repeats (hr : Ran context g g module.types G types report noted) (honce : (module.types.map TypeDef.id).Nodup)
    (hv : List.Forall₂ (Rejudged context context' g G) module.types session.module.types)
    (hgraph : session'.graph = session.graph) (htypes : session'.module.types = session.module.types)
    (hfollows : Follows (verdict G context') session.module.types report')
    (hnoted : Notice.violations noted' = session.module.types.flatMap fun t => (verdict G context' t).violations) :
    Repeats module report session noted report' session' noted' where
  woven := by
    apply List.map_eq_nil_iff.1
    rw [hfollows.woven, filter_ids (hv.imp fun t t' h => ⟨h.id, by rw [h.verdict, Verdict.isWoven_again]⟩),
      List.filter_false, List.map_nil]
  graph := hgraph
  types := htypes
  alreadyWoven := by
    have hlisted : ∀ t ∈ module.types,
        ((verdict g context t).isWoven || (verdict g context t).isAlreadyWoven) =
          decide (t.id ∈ report.woven.map Prod.fst ++ report.alreadyWoven) := by
      intro t ht
      rw [Bool.eq_iff_iff, decide_eq_true_iff, List.mem_append, hr.follows.woven, hr.follows.alreadyWoven,
        mem_map_filter_iff honce ht, mem_map_filter_iff honce ht, Bool.or_eq_true]
    calc report'.alreadyWoven
      _ = (session.module.types.filter fun t => (verdict G context' t).isAlreadyWoven).map TypeDef.id :=
        hfollows.alreadyWoven
      _ = (module.types.filter fun t => (verdict g context t).isWoven || (verdict g context t).isAlreadyWoven).map
          TypeDef.id := filter_ids (hv.imp fun t t' h => ⟨h.id, by rw [h.verdict, Verdict.isAlreadyWoven_again]⟩)
      _ = (module.types.filter fun t => t.id ∈ report.woven.map Prod.fst ++ report.alreadyWoven).map TypeDef.id := by
        rw [List.filter_congr hlisted]
      _ = (module.types.map TypeDef.id).filter fun T => T ∈ report.woven.map Prod.fst ++ report.alreadyWoven := by
        rw [List.filter_map]
        rfl
  rejected := by
    rw [hfollows.rejected, filter_ids (hv.imp fun t t' h => ⟨h.id, by rw [h.verdict, Verdict.isRejected_again]⟩),
      hr.follows.rejected]
  violations := by
    rw [hr.violations, hnoted, flatMap_violations (hv.imp fun t t' h => by rw [h.verdict, Verdict.violations_again])]

end Both

end Session

/-- **Weaving again is a no-op**, unless something opts out: what was not woven is judged as before, what was woven is
found woven, and nothing changes. -/
theorem weave_again {g : TypeGraph} {module : Module} {settings : Settings} (hg : Platform.alone.2.GrownFrom g)
    (hm : module.Declared g) (hskip : ∀ t ∈ module.types, Selection.isSkipped g settings t.markers = false)
    (hspace : ∀ marker ∈ module.markers, marker.isNamed g settings.skipNamespaceMarker = false)
    (diagnostics again : Diagnostics) : ∃ report session noted report' session' noted',
      Session.weave settings { graph := g, module, diagnostics } = .ok report session ∧
      session.diagnostics = diagnostics.recordAll noted ∧
      Session.weave settings { session with diagnostics := again } = .ok report' session' ∧
      session'.diagnostics = again.recordAll noted' ∧
      Session.Repeats module report session noted report' session' noted' := by
  obtain ⟨G, types, report, noted, heq, hran⟩ := Session.weave_ran hg hm settings diagnostics
  have hmarkers : (OptOut.clean G settings { module with types }).1.markers = module.markers := by
    rw [OptOut.markers_clean]
    apply List.filter_eq_self.2
    intro marker hmem
    rw [Marker.isNamed, hran.gains.name, ← Marker.isNamed, hspace marker hmem]
    rfl
  have htypes : (OptOut.clean G settings { module with types }).1.types = types.map (OptOut.strip g settings) := by
    rw [OptOut.types_clean]
    exact List.map_congr_left fun t _ => Session.strip_gains hran.gains settings t
  have hverdicts := hran.verdicts (.ofPlatform hg hm settings) hskip hmarkers htypes
  have hstripped : ∀ t ∈ (OptOut.clean G settings { module with types }).1.types, OptOut.strip G settings t = t := by
    rw [htypes]
    intro t' ht'
    obtain ⟨t, -, rfl⟩ := List.mem_map.1 ht'
    rw [Session.strip_gains hran.gains, Session.strip_strip]
  obtain ⟨report', session', noted', heq', hgraph, htypes', hdiagnostics, hfollows, hnoted⟩ := @Session.weave_settled
    settings { graph := G, module := (OptOut.clean G settings { module with types }).1, diagnostics := again } _
    (TypeGraph.resolve_grownFrom (hg.trans hran.grown)) (Session.settled_again hverdicts) hstripped
  exact ⟨report, _, noted, report', session', noted', heq, rfl, heq', hdiagnostics,
    hran.repeats hm.once hverdicts hgraph htypes' hfollows hnoted⟩

namespace Specimen

/-- the second session over the specimen finds its type woven -/
theorem woven_again : ∃ report session noted report' session' noted',
    Session.weave {} { graph, module } = .ok report session ∧
    session.diagnostics = Diagnostics.empty.recordAll noted ∧
    Session.weave {} { session with diagnostics := {} } = .ok report' session' ∧
    session'.diagnostics = Diagnostics.empty.recordAll noted' ∧
    Session.Repeats module report session noted report' session' noted' :=
  weave_again grown declared (by decide +kernel) (by decide) {} {}

end Specimen

namespace Twins

/-- the two definitions the other way round: the entry point that comes first has code -/
def swapped : Module := { name := "Twins", types := [second, first] }

/-- if a type is listed twice, it may be woven behind its rejection: then the next session does not reject it -/
theorem rejected_once :
    Platform.alone.2.GrownFrom Specimen.graph ∧
    (∀ t ∈ swapped.types, Selection.isSkipped Specimen.graph {} t.markers = false) ∧ swapped.markers = [] ∧
    ∃ report session report' session',
      Session.weave {} { graph := Specimen.graph, module := swapped } = .ok report session ∧
      Session.weave {} session = .ok report' session' ∧
      report.rejected = [Specimen.resource] ∧ report'.rejected = [] :=
  ⟨Specimen.grown, by decide +kernel, rfl, _, _, _, _, Session.weave_reported (by decide +kernel),
    Session.weave_reported (by decide +kernel), by decide +kernel, by decide +kernel⟩

end Twins

end DisposalWeaver
