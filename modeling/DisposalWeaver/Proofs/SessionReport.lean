/-
What a session reports, and what it leaves.

A session gives the types of a module their turns over a graph that grows on the way. Since no turn changes the verdict
on a later type, its report lists the types by their verdicts on the graph that it begins with (`Follows`), and whatever
is not woven stays as it was. `Awaits` is what the remaining types rely on before a turn, `Ran` what their turns come to;
`weaveDefinitions_ran` is the induction, `weave_ran` a whole session, opt-out markers removed. Main statement:
`weave_accounts`.
-/
import DisposalWeaver.Proofs.WovenModule

namespace DisposalWeaver

/-! ## Woven types on other graphs -/

section Mono

variable {pattern : Pattern} {g g' G G' : TypeGraph} {t t' : TypeDef} {state : WovenState} {added : List MethodDef}

/-- the guard is one of the methods that were added -/
theorem Declares.guard_new {T : TypeId} (h : Declares pattern g G T state added) : g.NewMethod G state.guard := by
  obtain ⟨d, hd, hid⟩ := List.mem_map.1 h.guard.1
  exact hid ▸ (h.introduced d hd).1

/-- what was declared on a type stays if other types gain members, before or after -/
theorem Declares.mono {T : TypeId} (h : Declares pattern g' G T state added) (hg : g.Gains g') (hG : G.Gains G')
    (hsame : g'.type T = g.type T) (hSame : G'.type T = G.type T) : Declares pattern g G' T state added where
  members hlt := by rw [hSame, h.members (hg.types ▸ hlt), hsame]
  signaled := hG.newField ⟨hg.newFieldSince h.signaled.1, h.signaled.2⟩
  disposed := hG.newField ⟨hg.newFieldSince h.disposed.1, h.disposed.2⟩
  guard := ⟨h.guard.1, (hG.newMethod ⟨h.guard_new, h.guard.2⟩).2⟩
  introduced d hd := by
    obtain ⟨hnew, hintroduces⟩ := h.introduced d hd
    have hkept := hG.newMethod ⟨hg.newMethodSince hnew, rfl⟩
    exact ⟨hkept.1, hkept.2 ▸ hintroduces⟩

/-- … and so it stays woven -/
theorem Enriched.mono (h : Enriched pattern g' G t state added t') (hg : g.Gains g') (hG : G.Gains G')
    (hmethods : ∀ d ∈ t.methods, d.id.index < g.methods.size) (hsame : g'.type t.id = g.type t.id)
    (hSame : G'.type t.id = G.type t.id) : Enriched pattern g G' t state added t' where
  id := h.id
  markers := h.markers
  fields := h.fields
  methods := by
    obtain ⟨authored, heq, hr⟩ := h.methods
    refine ⟨authored, heq, ?_⟩
    rw [hG.methodOnSelf h.declares.guard_new.2]
    apply ((List.forall₂_and_left _ _).2 ⟨fun d hd => hd, hr⟩).imp
    rintro d d' ⟨hd, hreworked⟩
    exact { hreworked with ofType := fun hne hstatic => hreworked.ofType hne (by rwa [hg.method _ (hmethods d hd)]) }
  declares := h.declares.mono hg hG hsame hSame

end Mono

namespace Session

/-! ## The report -/

/-- the report lists the types by the verdicts on them -/
structure Follows (verdicts : TypeDef → Verdict) (types : List TypeDef) (report : Report) : Prop where
  woven : report.woven.map Prod.fst = (types.filter fun t => (verdicts t).isWoven).map TypeDef.id
  alreadyWoven : report.alreadyWoven = (types.filter fun t => (verdicts t).isAlreadyWoven).map TypeDef.id
  rejected : report.rejected = (types.filter fun t => (verdicts t).isRejected).map TypeDef.id

section Follows

variable {verdicts : TypeDef → Verdict} {types : List TypeDef} {report : Report} {t : TypeDef} {outcome : Outcome}

theorem Follows.prepend (h : Follows verdicts types report) (ho : outcome.Meets (verdicts t)) :
    Follows verdicts (t :: types) (report.prepend t.id outcome) := by
  generalize hv : verdicts t = v at ho
  cases ho <;> constructor <;>
    simp [hv, Report.prepend, Verdict.isWoven, Verdict.isAlreadyWoven, Verdict.isRejected, h.woven,
      h.alreadyWoven, h.rejected]

end Follows

/-! ## Turns -/

/-- what turns leave of a definition: itself, or what it became between the first and the last graph -/
inductive Leaves (context : Context) (g G : TypeGraph) (t : TypeDef) : TypeDef → Prop where
  | spared (hv : (verdict g context t).isWoven = false) (hsame : G.type t.id = g.type t.id) : Leaves context g G t t
  | woven {entry state added t'} (hv : verdict g context t = .woven entry)
    (h : Enriched (context.pattern entry) g G t state added t') : Leaves context g G t t'

/-- what the turns of types come to: over the graph `h` that a session over `g` has arrived at, they leave `G` -/
structure Ran (context : Context) (g h : TypeGraph) (types : List TypeDef) (G : TypeGraph) (types' : List TypeDef)
    (report : Report) (noted : List Notice) : Prop where
  grown : h.GrownFrom G
  gains : h.Gains G
  others : ∀ T, T ∉ report.woven.map Prod.fst → G.type T = h.type T
  follows : Follows (verdict g context) types report
  violations : (Notice.violations noted).filter (fun v => !v.isOfField) =
    types.flatMap fun t => (verdict g context t).violations
  leaves : List.Forall₂ (Leaves context g G) types types'

/-- where a session is before the turns of types: the graph has gained members, but these types have not -/
structure Awaits (context : Context) (g h : TypeGraph) (types : List TypeDef) : Prop where
  exchange : (h.method context.references.exchangeReference).generics.length = 1
  lists : g.ListsDeclared
  fields : g.FieldsDeclared
  gains : g.Gains h
  declared : ∀ t ∈ types, t.Declared g
  once : (types.map TypeDef.id).Nodup
  same : ∀ t ∈ types, h.type t.id = g.type t.id

section Turns

variable {context : Context} {g h h' G : TypeGraph} {t t' : TypeDef} {types rest rest' : List TypeDef} {report : Report}
  {noted later : List Notice} {outcome : Outcome}

/-- the types behind one that takes its turn -/
theorem Awaits.next (ha : Awaits context g h (t :: rest)) (hgains : h.Gains h')
    (hothers : ∀ T, T ≠ t.id → h'.type T = h.type T) : Awaits context g h' rest where
  exchange := exchange_gains hgains ha.exchange
  lists := ha.lists
  fields := ha.fields
  gains := ha.gains.trans hgains
  declared u hu := ha.declared u (List.mem_cons_of_mem _ hu)
  once := (List.nodup_cons.1 ha.once).2
  same u hu := by
    have hne : u.id ≠ t.id := fun heq => (List.nodup_cons.1 ha.once).1 (heq ▸ List.mem_map_of_mem hu)
    rw [hothers u.id hne, ha.same u (List.mem_cons_of_mem _ hu)]

/-- verdicts are those on the graph that the session begins with -/
theorem Awaits.verdict (ha : Awaits context g h types) (ht : t ∈ types) :
    Session.verdict h context t = Session.verdict g context t :=
  verdict_gains context ha.gains ha.lists ha.fields (ha.declared t ht) (ha.same t ht)

/-- a type is not woven in the turns of others -/
theorem Ran.apart (hr : Ran context g h rest G rest' report noted) (honce : ((t :: rest).map TypeDef.id).Nodup) :
    G.type t.id = h.type t.id := by
  apply hr.others
  rw [hr.follows.woven]
  intro hmem
  obtain ⟨u, hu, heq⟩ := List.mem_map.1 hmem
  exact (List.nodup_cons.1 honce).1 (heq ▸ List.mem_map_of_mem (List.mem_filter.1 hu).1)

/-- the violations of a verdict are none of a field -/
theorem filter_violations (g : TypeGraph) (context : Context) (t : TypeDef) :
    (Session.verdict g context t).violations.filter (fun v => !v.isOfField) =
      (Session.verdict g context t).violations := by
  apply List.filter_eq_self.2
  intro v hv
  rw [((verdict_judges g context t).isOf hv).1]
  rfl

/-- one more turn, in front, that changes nothing -/
theorem Ran.spared (hr : Ran context g h rest G rest' report noted) (ha : Awaits context g h (t :: rest))
    (hv : (Session.verdict g context t).isWoven = false) (ho : outcome.Meets (Session.verdict g context t))
    (hnoted : Notice.violations later = (Session.verdict g context t).violations) :
    Ran context g h (t :: rest) G (t :: rest') (report.prepend t.id outcome) (later ++ noted) where
  grown := hr.grown
  gains := hr.gains
  others := by
    rw [woven_prepend hv ho]
    exact hr.others
  follows := hr.follows.prepend ho
  violations := by
    rw [Notice.violations, List.filterMap_append, List.filter_append, List.flatMap_cons]
    exact congrArg₂ _ ((congrArg _ hnoted).trans (filter_violations g context t)) hr.violations
  leaves := .cons (.spared hv (by rw [hr.apart ha.once, ha.same t List.mem_cons_self])) hr.leaves

/-- one more turn, in front, that weaves -/
theorem Ran.woven (hr : Ran context g h' rest G rest' report noted) (ha : Awaits context g h (t :: rest))
    {entry : MethodId} {shape : Shape} {state : WovenState} {added : List MethodDef}
    (hv : Session.verdict g context t = .woven entry) (hgrown : h.GrownFrom h') (hgains : h.Gains h')
    (hothers : ∀ T, T ≠ t.id → h'.type T = h.type T) (hminor : Notice.OfFields later)
    (he : Enriched (context.pattern entry) h h' t state added t') :
    Ran context g h (t :: rest) G (t' :: rest') (report.prepend t.id (.woven shape)) (later ++ noted) where
  grown := hgrown.trans hr.grown
  gains := hgains.trans hr.gains
  others T hT := by
    rw [Report.prepend, List.map_cons, List.mem_cons, not_or] at hT
    rw [hr.others T hT.2, hothers T hT.1]
  follows := hr.follows.prepend (hv ▸ .woven shape entry)
  violations := by
    have hnone : (Notice.violations later).filter (fun v => !v.isOfField) = [] := by
      apply List.filter_eq_nil_iff.2
      intro v hmem
      rw [hminor v hmem]
      decide
    rw [Notice.violations, List.filterMap_append, List.filter_append, List.flatMap_cons, hv]
    exact congrArg₂ _ hnone hr.violations
  leaves := .cons (.woven hv (he.mono ha.gains hr.gains (ha.declared t List.mem_cons_self).methods
    (ha.same t List.mem_cons_self) (hr.apart ha.once))) hr.leaves

/-- **The types that await their turns get them**: nothing gives the session up. -/
theorem weaveDefinitions_ran (ha : Awaits context g h types) (diagnostics : Diagnostics) : ∃ G types' report noted,
    weaveDefinitions context h diagnostics types =
      { graph := G, diagnostics := diagnostics.recordAll noted, types := types', report := .ok report } ∧
    Ran context g h types G types' report noted := by
  -- on the types that are left: they await their turns again behind each turn, which is for another type
  induction types generalizing h diagnostics with
  | nil =>
    refine ⟨h, [], {}, [], by rw [Diagnostics.recordAll_nil]; rfl, ?_⟩
    exact {
      grown := .refl
      gains := .refl h
      others := fun _ _ => rfl
      follows := ⟨rfl, rfl, rfl⟩
      violations := rfl
      leaves := .nil }
  | cons t rest ih =>
    have hverdict := ha.verdict (t := t) List.mem_cons_self
    cases hv : (verdict g context t).isWoven with
    | false =>
      have heq := @weaveDefinition_spared context { graph := h, target := t, diagnostics } (by rw [hverdict, hv])
      simp only [hverdict] at heq
      obtain ⟨G, types', report, noted, hrest, hran⟩ :=
        ih (ha.next (.refl h) fun _ _ => rfl) (diagnostics.recordAll ((verdict g context t).notices (h.nameOf t.id)))
      refine ⟨G, t :: types', report.prepend t.id (verdict g context t).spared, _, ?_,
        hran.spared ha hv (Verdict.spared_meets hv) (Verdict.violations_notices (h.nameOf t.id) _)⟩
      simp only [weaveDefinitions, heq, hrest, Diagnostics.recordAll_recordAll]
      rfl
    | true =>
      obtain ⟨entry, hentry⟩ : ∃ entry, verdict g context t = .woven entry := by
        cases hcase : verdict g context t with
        | woven entry => exact ⟨entry, rfl⟩
        | _ => rw [hcase] at hv; cases hv
      obtain ⟨fabric, entryBody, bodies, targets, later, L, heq, hweaves⟩ := weaveDefinition_woven
        (L := { graph := h, target := t, diagnostics }) rfl ha.exchange (hverdict.trans hentry)
      have he := hweaves.enriched fun d hd =>
        Nat.lt_of_lt_of_le ((ha.declared t List.mem_cons_self).methods d hd) ha.gains.methods
      have hadds := hweaves.adds
      obtain ⟨G, types', report, noted, hrest, hran⟩ := ih (ha.next hadds.gains hadds.others) (diagnostics.recordAll later)
      refine ⟨G, L.target :: types', report.prepend t.id (.woven fabric.arrangement.shape), later ++ noted, ?_,
        hran.woven ha hentry hadds.grown hadds.gains hadds.others hadds.minor he⟩
      simp only [weaveDefinitions, heq, hadds.diagnostics, hrest, Diagnostics.recordAll_recordAll]
      rfl

end Turns

/-! ## Sessions -/

/-- what a session over the platform goes by -/
def Context.ofPlatform (settings : Settings) (module : Module) : Context :=
  { references := Platform.alone.1.references, settings, module }

section Sessions

variable {g : TypeGraph} {module : Module}

theorem Awaits.ofPlatform (hg : Platform.alone.2.GrownFrom g) (hm : module.Declared g) (settings : Settings) :
    Awaits (.ofPlatform settings module) g g module.types where
  exchange := Underway.exchange ⟨hg, .refl g⟩
  lists := hg.listsDeclared Platform.alone_listsDeclared
  fields := hg.fieldsDeclared Platform.alone_fieldsDeclared
  gains := .refl g
  declared := hm.types
  once := hm.once
  same _ _ := rfl

/-- **A whole session** over a graph that grew from the platform: it succeeds, all types get their turns, and opt-out
markers are removed. -/
theorem weave_ran (hg : Platform.alone.2.GrownFrom g) (hm : module.Declared g) (settings : Settings)
    (diagnostics : Diagnostics) : ∃ G types report noted,
      weave settings { graph := g, module, diagnostics } = .ok report {
        graph := G
        module := (OptOut.clean G settings { module with types }).1
        diagnostics := diagnostics.recordAll noted } ∧
      Ran (.ofPlatform settings module) g g module.types G types report noted := by
  obtain ⟨G, types, report, noted, heq, hran⟩ := weaveDefinitions_ran (Awaits.ofPlatform hg hm settings) diagnostics
  obtain ⟨notice, hnotice, hsilent⟩ := OptOut.clean_notice G settings { module with types }
  refine ⟨G, types, report, noted ++ [notice], ?_, { hran with violations := ?_ }⟩
  swap
  · rw [Notice.violations_append_silent hsilent, hran.violations]
  rw [Context.ofPlatform] at heq
  simp only [weave, TypeGraph.resolve_grownFrom hg, heq, clean, hnotice, Diagnostics.record_eq,
    Diagnostics.recordAll_recordAll]

end Sessions

end Session

/-! ## The account -/

/-- the report accounts for the types of the module: its lists follow the order of the module, a type that may be woven
and has an entry point is in exactly one of them, and no other type is in any -/
structure Report.Accounts (g : TypeGraph) (settings : Settings) (module : Module) (report : Report) : Prop where
  woven : (report.woven.map Prod.fst).Sublist (module.types.map TypeDef.id)
  alreadyWoven : report.alreadyWoven.Sublist (module.types.map TypeDef.id)
  rejected : report.rejected.Sublist (module.types.map TypeDef.id)
  wovenOnce : (report.woven.map Prod.fst).Disjoint report.alreadyWoven
  rejectedOnce : report.rejected.Disjoint (report.woven.map Prod.fst ++ report.alreadyWoven)
  complete : ∀ t ∈ module.types,
    t.id ∈ report.woven.map Prod.fst ++ report.alreadyWoven ++ report.rejected ↔
      Selection.isEligible g settings module t = true ∧ Selection.entryMethods g settings t ≠ []

/-- the second definition is of the same type and holds the same fields, with fields that were gained behind them; only
opt-out markers have gone, from the type and from its fields -/
structure TypeDef.Stays (settings : Settings) (g : TypeGraph) (gained : List FieldId) (t t' : TypeDef) : Prop where
  id : t'.id = t.id
  markers : t'.markers = t.markers.filter fun marker => !marker.isNamed g settings.skipMarker
  fields : t'.fields = (t.fields.map fun f =>
      { id := f.id, markers := f.markers.filter fun marker => !marker.isNamed g settings.skipMarker }) ++
    gained.map fun f => { id := f }

/-- what a session leaves of a definition: the methods that it had, or, if the report calls the type woven, those of its
author, reworked at most, and the methods that weaving declared -/
inductive Remains (settings : Settings) (g G : TypeGraph) (report : Report) (t t' : TypeDef) : Prop where
  | spared (h : t.id ∉ report.woven.map Prod.fst) (hstays : t.Stays settings g [] t') (hmethods : t'.methods = t.methods)
  | woven {entry others state authored added} (h : t.id ∈ report.woven.map Prod.fst)
    (hentries : Selection.entryMethods g settings t = entry :: others)
    (hstays : t.Stays settings g [state.signaled, state.disposed] t') (hmethods : t'.methods = authored ++ added)
    (hauthored : List.Forall₂ (Reworked g entry (MethodRef.onSelf G state.guard)) t.methods authored)
    (hdeclares : Declares { references := Platform.alone.1.references, settings, entry } g G t.id state added)

namespace Session

section Account

variable {g G : TypeGraph} {context : Context} {verdicts : TypeDef → Verdict} {types types' : List TypeDef} {t : TypeDef}
  {report : Report} {module : Module}

/-- types are told apart by their identity -/
theorem disjoint_ids_filter (honce : (types.map TypeDef.id).Nodup) {p q : TypeDef → Bool}
    (hpq : ∀ t, p t = true → q t = false) :
    ((types.filter p).map TypeDef.id).Disjoint ((types.filter q).map TypeDef.id) := by
  intro T hp hq
  obtain ⟨t, ht, rfl⟩ := List.mem_map.1 hp
  obtain ⟨ht, hpt⟩ := List.mem_filter.1 ht
  have hqt := (mem_map_filter_iff honce ht q).1 hq
  rw [hpq t hpt] at hqt
  cases hqt

/-- types that may be woven and have an entry point are those that something is said about -/
theorem Judges.isCandidate {v : Verdict} (h : Judges g context t v) :
    (v.isWoven = true ∨ v.isAlreadyWoven = true) ∨ v.isRejected = true ↔
      Selection.isEligible g context.settings context.module t = true ∧
        Selection.entryMethods g context.settings t ≠ [] := by
  cases h with
  | ineligible h => simp [h, Verdict.isWoven, Verdict.isAlreadyWoven, Verdict.isRejected]
  | entryless h => simp [h, Verdict.isWoven, Verdict.isAlreadyWoven, Verdict.isRejected]
  | alreadyWoven heligible hentries => simp [heligible, hentries, Verdict.isAlreadyWoven]
  | malformed heligible hentries => simp [heligible, hentries, Verdict.isRejected]
  | taken heligible hentries => simp [heligible, hentries, Verdict.isRejected]
  | woven heligible hentries => simp [heligible, hentries, Verdict.isWoven]

theorem Follows.accounts {settings : Settings} {references : References} (honce : (module.types.map TypeDef.id).Nodup)
    (h : Follows (verdict g { references, settings, module }) module.types report) :
    report.Accounts g settings module where
  woven := h.woven ▸ List.filter_sublist.map _
  alreadyWoven := h.alreadyWoven ▸ List.filter_sublist.map _
  rejected := h.rejected ▸ List.filter_sublist.map _
  wovenOnce := by
    rw [h.woven, h.alreadyWoven]
    exact disjoint_ids_filter honce fun t hv => (Verdict.apart_of_isWoven hv).1
  rejectedOnce := by
    rw [h.woven, h.alreadyWoven, h.rejected, List.disjoint_append_right]
    exact ⟨disjoint_ids_filter honce fun t hv => (Verdict.apart_of_isRejected hv).1,
      disjoint_ids_filter honce fun t hv => (Verdict.apart_of_isRejected hv).2⟩
  complete t ht := by
    rw [h.woven, h.alreadyWoven, h.rejected, List.mem_append, List.mem_append, mem_map_filter_iff honce ht,
      mem_map_filter_iff honce ht, mem_map_filter_iff honce ht]
    exact (verdict_judges g _ t).isCandidate

/-- a rejected type is named by an error -/
theorem Ran.rejected {noted : List Notice} (hr : Ran context g g types G types' report noted) {T : TypeId}
    (hT : T ∈ report.rejected) :
    ∃ v rest, Notice.violation v ∈ noted ∧ v.message = "Type `" ++ g.nameOf T ++ rest := by
  rw [hr.follows.rejected] at hT
  obtain ⟨t, ht, rfl⟩ := List.mem_map.1 hT
  obtain ⟨ht, hrejected⟩ := List.mem_filter.1 ht
  have hj := verdict_judges g context t
  obtain ⟨v, hv⟩ := hj.exists_violation hrejected
  have hmem : v ∈ (Notice.violations noted).filter fun v => !v.isOfField := by
    rw [hr.violations]
    exact List.mem_flatMap.2 ⟨t, ht, hv⟩
  obtain ⟨notice, hnotice, heq⟩ := List.mem_filterMap.1 (List.mem_filter.1 hmem).1
  have hviolation : notice = .violation v := by
    cases notice with
    | violation cause => cases heq; rfl
    | _ => cases heq
  obtain ⟨rest, hrest⟩ := Violation.message_subject (hj.isOf hv).1
  exact ⟨v, rest, hviolation ▸ hnotice, by rw [hrest, (hj.isOf hv).2]⟩

/-- which markers are removed does not depend on the members that types gained -/
theorem strip_gains (hg : g.Gains G) (settings : Settings) (t : TypeDef) :
    OptOut.strip G settings t = OptOut.strip g settings t := by
  simp only [OptOut.strip, OptOut.without, Marker.isNamed, hg.name]

/-- a definition that got fields at most, markers removed -/
theorem stays_strip {t' : TypeDef} (g : TypeGraph) (settings : Settings) {gained : List FieldId}
    (hfields : t'.fields = t.fields ++ gained.map fun f => { id := f }) (hid : t'.id = t.id)
    (hmarkers : t'.markers = t.markers) : t.Stays settings g gained (OptOut.strip g settings t') where
  id := hid
  markers := by rw [OptOut.strip, hmarkers, OptOut.without]
  fields := by
    rw [OptOut.strip, hfields, List.map_append, List.map_map]
    rfl

theorem Ran.remains {settings : Settings} {noted : List Notice}
    (hr : Ran (.ofPlatform settings module) g g types G types' report noted) (honce : (types.map TypeDef.id).Nodup) :
    List.Forall₂ (Remains settings g G report) types (types'.map (OptOut.strip G settings)) := by
  have hwoven : ∀ t ∈ types, t.id ∈ report.woven.map Prod.fst ↔
      (verdict g (.ofPlatform settings module) t).isWoven = true := by
    intro t ht
    rw [hr.follows.woven, mem_map_filter_iff honce ht]
  apply List.forall₂_map_right_iff.2
  apply ((List.forall₂_and_left _ _).2 ⟨fun t ht => ht, hr.leaves⟩).imp
  rintro t t' ⟨ht, hleaves⟩
  rw [strip_gains hr.gains]
  cases hleaves with
  | spared hv => exact .spared (by rw [hwoven t ht, hv]; decide) (stays_strip g settings (List.append_nil _).symm rfl rfl) rfl
  | @woven entry state added t' hv he =>
    have hj := verdict_judges g (.ofPlatform settings module) t
    rw [hv] at hj
    obtain ⟨authored, hmethods, hauthored⟩ := he.methods
    cases hj with
    | woven heligible hentries =>
      exact .woven ((hwoven t ht).2 (by rw [hv]; rfl)) hentries (stays_strip g settings he.fields he.id he.markers)
        hmethods hauthored he.declares

end Account

end Session

/-- **A session accounts for every type** of a module over a graph that grew from the platform, and changes no more than
it says: it succeeds, each rejected type is named by an error, types that are not woven keep their members in graph and
definition, and woven types only gain. -/
theorem weave_accounts {g : TypeGraph} {module : Module} (hg : Platform.alone.2.GrownFrom g) (hm : module.Declared g)
    (settings : Settings) (diagnostics : Diagnostics) : ∃ report session noted,
      Session.weave settings { graph := g, module, diagnostics } = .ok report session ∧
      session.diagnostics = diagnostics.recordAll noted ∧
      report.Accounts g settings module ∧
      (∀ T ∈ report.rejected, ∃ v rest, Notice.violation v ∈ noted ∧ v.message = "Type `" ++ g.nameOf T ++ rest) ∧
      g.Gains session.graph ∧
      (∀ T, T ∉ report.woven.map Prod.fst → session.graph.type T = g.type T) ∧
      List.Forall₂ (Remains settings g session.graph report) module.types session.module.types := by
  obtain ⟨G, types, report, noted, heq, hran⟩ := Session.weave_ran hg hm settings diagnostics
  refine ⟨report, _, noted, heq, rfl, hran.follows.accounts hm.once, fun T hT => hran.rejected hT, hran.gains,
    hran.others, ?_⟩
  simp only [OptOut.types_clean]
  exact hran.remains hm.once

namespace Specimen

theorem declared : module.Declared graph where
  once := by decide
  types t ht := {
    id := by
      revert t
      decide +kernel
    methods := coherent.methods t ht
    known := fun d hd body hbody => coherent.known (d.id, body) (Module.mem_bodies ht hd hbody) }

/-- the session over the specimen accounts for its type -/
theorem accounted : ∃ report session noted, Session.weave {} { graph, module } = .ok report session ∧
    session.diagnostics = Diagnostics.empty.recordAll noted ∧
    report.Accounts graph {} module ∧
    (∀ T ∈ report.rejected, ∃ v rest, Notice.violation v ∈ noted ∧ v.message = "Type `" ++ graph.nameOf T ++ rest) ∧
    graph.Gains session.graph ∧
    (∀ T, T ∉ report.woven.map Prod.fst → session.graph.type T = graph.type T) ∧
    List.Forall₂ (Remains {} graph session.graph report) module.types session.module.types :=
  weave_accounts grown declared {} {}

end Specimen

end DisposalWeaver
