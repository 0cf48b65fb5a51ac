/-
What a turn of a session comes to.

Whether a type is left alone, found woven already, rejected or woven is decided before anything is changed, and by the
graph as it is then: that is its `Session.verdict`. A turn does what the verdict says and nothing else
(`weaveDefinition_spared`, `weaveDefinition_woven`), and what other types gain in their turns makes no difference to it
(`verdict_gains`), so the verdicts of a whole session can be read off the graph that it begins with.
-/
import DisposalWeaver.Proofs.TypeFrame
import DisposalWeaver.Weaving.Session

namespace DisposalWeaver

/-! ## Definitions over a graph -/

/-- does the instruction name only members that are declared? -/
def Instruction.Known (g : TypeGraph) : Instruction → Prop
  | .ldfld f | .ldflda f | .stfld f | .ldsfld f | .stsfld f => f.field.index < g.fields.size
  | .call m | .callvirt m | .newobj m => m.method.index < g.methods.size
  | _ => True

/-- does the code of the body name only members that are declared? -/
def Body.Known (g : TypeGraph) (body : Body) : Prop :=
  ∀ slot ∈ body.slots, slot.instruction.Known g

/-- the definition is of a declared type, defines declared methods, and its code names declared members -/
structure TypeDef.Declared (g : TypeGraph) (t : TypeDef) : Prop where
  id : t.id.index < g.types.size
  methods : ∀ d ∈ t.methods, d.id.index < g.methods.size
  known : ∀ d ∈ t.methods, ∀ body, d.body = some body → body.Known g

/-- a module over a graph: it defines declared types, each of them once -/
structure Module.Declared (g : TypeGraph) (module : Module) : Prop where
  once : (module.types.map TypeDef.id).Nodup
  types : ∀ t ∈ module.types, t.Declared g

namespace Session

/-! ## Verdicts -/

/-- what a turn comes to -/
inductive Verdict where
  | untouched
  | alreadyWoven
  | rejected (violations : List Violation)
  | woven (entry : MethodId)
  deriving DecidableEq

namespace Verdict

def isWoven : Verdict → Bool
  | woven _ => true
  | _ => false

def isAlreadyWoven : Verdict → Bool
  | alreadyWoven => true
  | _ => false

def isRejected : Verdict → Bool
  | rejected _ => true
  | _ => false

theorem apart_of_isWoven {v : Verdict} (h : v.isWoven = true) : v.isAlreadyWoven = false ∧ v.isRejected = false := by
  cases v with
  | woven => exact ⟨rfl, rfl⟩
  | _ => cases h

theorem apart_of_isRejected {v : Verdict} (h : v.isRejected = true) : v.isWoven = false ∧ v.isAlreadyWoven = false := by
  cases v with
  | rejected => exact ⟨rfl, rfl⟩
  | _ => cases h

/-- why the type is rejected -/
def violations : Verdict → List Violation
  | rejected violations => violations
  | _ => []

/-- what is noted about a type of this name that is not woven -/
def notices (name : String) : Verdict → List Notice
  | alreadyWoven => [.alreadyWoven name]
  | rejected violations => violations.map .violation
  | _ => []

/-- what becomes of a type that is not woven -/
def spared : Verdict → Outcome
  | alreadyWoven => .alreadyWoven
  | rejected _ => .rejected
  | _ => .untouched

end Verdict

/-- the verdict on a type -/
def verdict (g : TypeGraph) (context : Context) (t : TypeDef) : Verdict :=
  if !Selection.isEligible g context.settings context.module t then .untouched
  else match Selection.entryMethods g context.settings t with
    | [] => .untouched
    | entry :: others =>
      if Selection.isAlreadyWoven g context.settings t.id then .alreadyWoven
      else match Selection.entryViolations g context.references t (entry :: others) with
        | [] =>
          match Selection.collision? g context.settings t.id with
          | some violation => .rejected [violation]
          | none => .woven entry
        | violations => .rejected violations

/-- what weaving goes by in the turn of a type with the entry point -/
def Context.pattern (context : Context) (entry : MethodId) : Pattern :=
  { references := context.references, settings := context.settings, entry }

end Session

/-- outcomes that go with verdicts -/
inductive Outcome.Meets : Outcome → Session.Verdict → Prop where
  | untouched : Meets .untouched .untouched
  | alreadyWoven : Meets .alreadyWoven .alreadyWoven
  | rejected (violations) : Meets .rejected (.rejected violations)
  | woven (shape entry) : Meets (.woven shape) (.woven entry)

theorem Session.Verdict.spared_meets {v : Verdict} (h : v.isWoven = false) : v.spared.Meets v := by
  cases v with
  | untouched => exact .untouched
  | alreadyWoven => exact .alreadyWoven
  | rejected violations => exact .rejected violations
  | woven => cases h

/-- a type that is not woven does not become one of the woven types of the report -/
theorem Session.woven_prepend {outcome : Outcome} {v : Verdict} (h : v.isWoven = false) (ho : outcome.Meets v)
    (T : TypeId) (report : Report) : (report.prepend T outcome).woven = report.woven := by
  cases ho with
  | woven => cases h
  | _ => rfl

/-! ## Violations of types -/

/-- what a violation is about: a type, or a field -/
def Violation.subject : Violation → String
  | .multipleEntryMethods type | .entryMethodHasCode type | .unsupportedBaseType type | .nameCollision type _ _ => type
  | .readonlyField field | .valueTypeField field | .genericField field => field

/-- a violation of a type names it in its message -/
theorem Violation.message_subject {violation : Violation} (h : violation.isOfField = false) :
    ∃ rest, violation.message = "Type `" ++ violation.subject ++ rest := by
  unfold Violation.message
  simp only [String.append_assoc]
  cases violation with
  | readonlyField | valueTypeField | genericField => cases h
  | _ => exact ⟨_, rfl⟩

/-- the violation is one of the type of this name -/
def Violation.IsOf (name : String) (violation : Violation) : Prop :=
  violation.isOfField = false ∧ violation.subject = name

namespace Selection

variable {g : TypeGraph} {references : References} {settings : Settings} {violation : Violation}

theorem isOf_of_mem_entryViolations {t : TypeDef} {entries : List MethodId}
    (h : violation ∈ entryViolations g references t entries) : violation.IsOf (g.nameOf t.id) := by
  simp only [entryViolations, List.mem_append] at h
  rcases h with (h | h) | h <;> split at h <;> simp only [List.mem_singleton, List.not_mem_nil] at h <;> subst h <;>
    exact ⟨rfl, rfl⟩

theorem isOf_of_collision {t : TypeId} (h : collision? g settings t = some violation) :
    violation.IsOf (g.nameOf t) := by
  unfold collision? at h
  split at h
  · cases h
    exact ⟨rfl, rfl⟩
  split at h
  · cases h
    exact ⟨rfl, rfl⟩
  split at h
  · cases h
    exact ⟨rfl, rfl⟩
  · cases h

end Selection

/-- what is recorded about a list of violations -/
theorem violations_map (violations : List Violation) : Notice.violations (violations.map .violation) = violations := by
  rw [Notice.violations, List.filterMap_map]
  exact List.filterMap_some

theorem Session.Verdict.violations_notices (name : String) (v : Verdict) :
    Notice.violations (v.notices name) = v.violations := by
  cases v with
  | rejected violations => exact violations_map violations
  | _ => rfl

theorem foldl_record (violations : List Violation) (diagnostics : Diagnostics) :
    violations.foldl (fun diagnostics v => diagnostics.record (.violation v)) diagnostics =
      diagnostics.recordAll (violations.map .violation) := by
  induction violations generalizing diagnostics with
  | nil => simp
  | cons v rest ih => rw [List.foldl_cons, ih, Diagnostics.record_eq, Diagnostics.recordAll_recordAll]; rfl

theorem Notice.violations_append_silent {notice : Notice} (h : notice.violation? = none) (noted : List Notice) :
    Notice.violations (noted ++ [notice]) = Notice.violations noted := by
  rw [violations, List.filterMap_append, List.filterMap_cons_none h, List.filterMap_nil, List.append_nil]
  rfl

/-- removing the opt-out vocabulary is no violation -/
theorem OptOut.clean_notice (g : TypeGraph) (settings : Settings) (module : Module) :
    ∃ notice, (OptOut.clean g settings module).2 = notice ∧ notice.violation? = none := by
  unfold OptOut.clean
  simp only
  split <;> exact ⟨_, rfl, rfl⟩

/-! ## A turn does what the verdict says -/

namespace Session

variable {g : TypeGraph} {context : Context} {t : TypeDef} {L : Loom} {entry : MethodId}

/-- what a verdict rests on -/
inductive Judges (g : TypeGraph) (context : Context) (t : TypeDef) : Verdict → Prop where
  | ineligible (h : Selection.isEligible g context.settings context.module t = false) : Judges g context t .untouched
  | entryless (h : Selection.entryMethods g context.settings t = []) : Judges g context t .untouched
  | alreadyWoven {entry others} (heligible : Selection.isEligible g context.settings context.module t = true)
    (hentries : Selection.entryMethods g context.settings t = entry :: others)
    (h : Selection.isAlreadyWoven g context.settings t.id = true) : Judges g context t .alreadyWoven
  | malformed {entry others v rest} (heligible : Selection.isEligible g context.settings context.module t = true)
    (hentries : Selection.entryMethods g context.settings t = entry :: others)
    (hnew : Selection.isAlreadyWoven g context.settings t.id = false)
    (h : Selection.entryViolations g context.references t (entry :: others) = v :: rest) :
    Judges g context t (.rejected (v :: rest))
  | taken {entry others v} (heligible : Selection.isEligible g context.settings context.module t = true)
    (hentries : Selection.entryMethods g context.settings t = entry :: others)
    (hnew : Selection.isAlreadyWoven g context.settings t.id = false)
    (hwell : Selection.entryViolations g context.references t (entry :: others) = [])
    (h : Selection.collision? g context.settings t.id = some v) : Judges g context t (.rejected [v])
  | woven {entry others} (heligible : Selection.isEligible g context.settings context.module t = true)
    (hentries : Selection.entryMethods g context.settings t = entry :: others)
    (hnew : Selection.isAlreadyWoven g context.settings t.id = false)
    (hwell : Selection.entryViolations g context.references t (entry :: others) = [])
    (h : Selection.collision? g context.settings t.id = none) : Judges g context t (.woven entry)

theorem verdict_judges (g : TypeGraph) (context : Context) (t : TypeDef) : Judges g context t (verdict g context t) := by
  unfold verdict
  cases heligible : Selection.isEligible g context.settings context.module t with
  | false => exact .ineligible heligible
  | true =>
    cases hentries : Selection.entryMethods g context.settings t with
    | nil => exact .entryless hentries
    | cons entry others =>
      cases hnew : Selection.isAlreadyWoven g context.settings t.id with
      | true => exact .alreadyWoven heligible hentries hnew
      | false =>
        cases hviolations : Selection.entryViolations g context.references t (entry :: others) with
        | cons v rest =>
          simp only [Bool.not_true, Bool.false_eq_true, ↓reduceIte, hviolations]
          exact .malformed heligible hentries hnew hviolations
        | nil =>
          simp only [Bool.not_true, Bool.false_eq_true, ↓reduceIte, hviolations]
          cases hc : Selection.collision? g context.settings t.id with
          | some v => exact .taken heligible hentries hnew hviolations hc
          | none => exact .woven heligible hentries hnew hviolations hc

/-- whatever else is the matter with it, a type that declares all that weaving would add is found woven -/
theorem verdict_eq_alreadyWoven (heligible : Selection.isEligible g context.settings context.module t = true)
    (hentry : entry ∈ Selection.entryMethods g context.settings t)
    (h : Selection.isAlreadyWoven g context.settings t.id = true) : verdict g context t = .alreadyWoven := by
  unfold verdict
  cases hentries : Selection.entryMethods g context.settings t with
  | nil => rw [hentries] at hentry; cases hentry
  | cons => simp only [heligible, h, Bool.not_true, Bool.false_eq_true, ↓reduceIte]

/-- violations of a verdict are of the type -/
theorem Judges.isOf {v : Verdict} (h : Judges g context t v) {violation : Violation} (hv : violation ∈ v.violations) :
    violation.IsOf (g.nameOf t.id) := by
  cases h with
  | malformed _ _ _ h => exact Selection.isOf_of_mem_entryViolations (h ▸ hv)
  | taken _ _ _ _ h =>
    rw [List.mem_singleton.1 hv]
    exact Selection.isOf_of_collision h
  | _ => cases hv

/-- a type is only rejected for some violation -/
theorem Judges.exists_violation {v : Verdict} (h : Judges g context t v) (hv : v.isRejected = true) :
    ∃ violation, violation ∈ v.violations := by
  cases h with
  | malformed => exact ⟨_, List.mem_cons_self⟩
  | taken => exact ⟨_, List.mem_cons_self⟩
  | _ => cases hv

/-- **A turn that does not weave changes nothing**: it notes why, and that is all. -/
theorem weaveDefinition_spared (h : (verdict L.graph context L.target).isWoven = false) : weaveDefinition context L =
    { loom := { L with
        diagnostics := L.diagnostics.recordAll
          ((verdict L.graph context L.target).notices (L.graph.nameOf L.target.id)) }
      outcome := .ok (verdict L.graph context L.target).spared } := by
  have hj := verdict_judges L.graph context L.target
  generalize verdict L.graph context L.target = v at h hj ⊢
  unfold weaveDefinition
  cases hj with
  | ineligible heligible => simp [heligible, Verdict.notices, Verdict.spared]
  | entryless hentries => simp [hentries, Verdict.notices, Verdict.spared]
  | alreadyWoven heligible hentries halready =>
    simp [heligible, hentries, halready, Diagnostics.record_eq, Verdict.notices, Verdict.spared]
  | malformed heligible hentries hnew hviolations =>
    simp only [heligible, hentries, hnew, Bool.not_true, Bool.false_eq_true, ↓reduceIte, weaveEntry, hviolations,
      foldl_record]
    rfl
  | taken heligible hentries hnew hwell hc =>
    simp only [heligible, hentries, hnew, Bool.not_true, Bool.false_eq_true, ↓reduceIte, weaveEntry, hwell]
    rw [Weave.weaveType_taken hc]
    rfl
  | woven => cases h

/-- a type that is to be woven defines its entry point, and no name that weaving needs is taken -/
theorem verdict_entry (h : verdict g context t = .woven entry) : entry ∈ Selection.entryMethods g context.settings t := by
  have hj := verdict_judges g context t
  rw [h] at hj
  cases hj with
  | woven _ hentries _ _ _ => exact hentries ▸ List.mem_cons_self

theorem verdict_woven (h : verdict g context t = .woven entry) :
    entry ∈ t.methods.map MethodDef.id ∧ Selection.collision? g context.settings t.id = none := by
  refine ⟨(List.mem_filter.1 (verdict_entry h)).1, ?_⟩
  have hj := verdict_judges g context t
  rw [h] at hj
  cases hj with
  | woven _ _ _ _ hc => exact hc

/-- the turn of a type that is to be woven weaves it -/
theorem weaveDefinition_weaves (h : verdict L.graph context L.target = .woven entry) {shape : Shape} {L' : Loom}
    (hok : Weave.weaveType (context.pattern entry) L = .ok (some shape) L') :
    weaveDefinition context L = { loom := L', outcome := .ok (.woven shape) } := by
  have hj := verdict_judges L.graph context L.target
  rw [h] at hj
  cases hj with
  | woven heligible hentries hnew hwell hc =>
    change Weave.weaveType { references := context.references, settings := context.settings, entry } L = _ at hok
    unfold weaveDefinition
    simp only [heligible, hentries, hnew, Bool.not_true, Bool.false_eq_true, ↓reduceIte, weaveEntry, hwell, hok]

/-- **A turn that weaves** only adds to the type, and it ends well if the exchange that was found takes one type. -/
theorem weaveDefinition_woven (hL : L.introduced = [])
    (hx : (L.graph.method context.references.exchangeReference).generics.length = 1)
    (h : verdict L.graph context L.target = .woven entry) : ∃ fabric entryBody bodies targets noted L',
      weaveDefinition context L = { loom := L', outcome := .ok (.woven fabric.arrangement.shape) } ∧
      L.Weaves (context.pattern entry) fabric entryBody bodies targets noted L' := by
  obtain ⟨hentry, hc⟩ := verdict_woven h
  obtain ⟨shape, L', hok⟩ := @weaveType_runs (context.pattern entry) L hx hL hentry hc
  obtain ⟨fabric, entryBody, bodies, targets, noted, hshape, hweaves⟩ := weaveType_weaves hL hentry hc hok
  cases hshape
  exact ⟨fabric, entryBody, bodies, targets, noted, L', weaveDefinition_weaves h hok, hweaves⟩

/-- what a turn leaves is a definition of the type, over a graph that gained members of it at most -/
structure Frames (L L' : Loom) : Prop where
  id : L'.target.id = L.target.id
  gains : L.graph.Gains L'.graph
  others : ∀ T, T ≠ L.target.id → L'.graph.type T = L.graph.type T

/-- **A turn is for one type.** -/
theorem weaveDefinition_frames (hL : L.introduced = [])
    (hx : (L.graph.method context.references.exchangeReference).generics.length = 1) :
    Frames L (weaveDefinition context L).loom := by
  cases hv : verdict L.graph context L.target with
  | woven entry =>
    obtain ⟨fabric, entryBody, bodies, targets, noted, L', heq, hweaves⟩ := weaveDefinition_woven hL hx hv
    rw [heq]
    exact ⟨hweaves.adds.id, hweaves.adds.gains, hweaves.adds.others⟩
  | _ =>
    rw [weaveDefinition_spared (by rw [hv]; rfl)]
    exact ⟨rfl, .refl _, fun _ _ => rfl⟩

end Session

/-! ## Verdicts on later graphs -/

namespace TypeGraph.Gains

variable {g h : TypeGraph} {settings : Settings} {t : TypeDef}

theorem entryMethods (hg : g.Gains h) (hmethods : ∀ d ∈ t.methods, d.id.index < g.methods.size) :
    Selection.entryMethods h settings t = Selection.entryMethods g settings t := by
  unfold Selection.entryMethods
  refine List.filter_congr fun m hm => ?_
  obtain ⟨d, hd, rfl⟩ := List.mem_map.1 hm
  rw [hg.method _ (hmethods d hd)]

theorem isGeneratedWithin (hg : g.Gains h) (module : Module) (bound : Nat) (t : TypeDef) :
    Selection.isGeneratedWithin h module bound t = Selection.isGeneratedWithin g module bound t := by
  have hmarked : ∀ t, Selection.isMarkedGenerated h t = Selection.isMarkedGenerated g t := fun t => by
    simp only [Selection.isMarkedGenerated, hg.name]
  induction bound generalizing t with
  | zero => exact hmarked t
  | succ bound ih => simp only [Selection.isGeneratedWithin, hmarked, hg.enclosing, ih]

theorem isEligible (hg : g.Gains h) (module : Module) (t : TypeDef) :
    Selection.isEligible h settings module t = Selection.isEligible g settings module t := by
  simp only [Selection.isEligible, hg.isClass, hg.isAbstract, Selection.isGenerated, hg.types, hg.isGeneratedWithin,
    hg.isSkipped, Selection.skippedNamespaces, Marker.isNamed, hg.name]

theorem hasField (hg : g.Gains h) (hf : g.FieldsDeclared) {t : TypeId} (ht : h.type t = g.type t) (name : String) :
    h.hasField t name = g.hasField t name := by
  unfold TypeGraph.hasField TypeGraph.findField?
  rw [ht, List.find?_congr fun f hmem => by rw [hg.field f (hf t f hmem)]]

theorem hasMethod (hg : g.Gains h) (hl : g.ListsDeclared) {t : TypeId} (ht : h.type t = g.type t) (name : String) :
    h.hasMethod t name = g.hasMethod t name := by
  unfold TypeGraph.hasMethod
  rw [ht, Bool.eq_iff_iff, List.any_eq_true, List.any_eq_true]
  exact exists_congr fun m => and_congr_right fun hmem => by rw [hg.method m (hl t m hmem)]

/-- whether a body is replaceable does not change, if its code names declared members -/
theorem isReplaceable (hg : g.Gains h) {body : Option Body} (hb : ∀ b, body = some b → b.Known g) :
    Selection.isReplaceable h body = Selection.isReplaceable g body := by
  cases body with
  | none => rfl
  | some b =>
    have hcode : ∀ i ∈ b.code, i.Known g := by
      intro i hi
      obtain ⟨e, he, rfl⟩ := List.mem_map.1 hi
      obtain ⟨t, -, ht⟩ := List.mem_filterMap.1 he
      obtain ⟨j, hj, rfl⟩ := Option.map_eq_some_iff.1 ht
      obtain ⟨slot, hslot, rfl⟩ := Option.map_eq_some_iff.1 hj
      exact hb b rfl slot (Array.mem_of_getElem? hslot)
    have hfiltered : ∀ i ∈ b.code.filter fun i => i != .nop && i != .ret, i.Known g := fun i hi =>
      hcode i (List.mem_filter.1 hi).1
    simp only [Selection.isReplaceable]
    split
    · rfl
    · next m hm =>
      have hlt : m.method.index < g.methods.size := hfiltered (.newobj m) (by rw [hm]; exact List.mem_cons_self)
      rw [hg.method _ hlt, hg.name]
    · rfl

theorem entryViolations (hg : g.Gains h) (ht : t.Declared g) (references : References) (entries : List MethodId) :
    Selection.entryViolations h references t entries = Selection.entryViolations g references t entries := by
  have hbody : ∀ b, (entries.head?.bind t.method?).bind MethodDef.body = some b → b.Known g := by
    intro b hb
    obtain ⟨d, hd, hb⟩ := Option.bind_eq_some_iff.1 hb
    obtain ⟨m, -, hd⟩ := Option.bind_eq_some_iff.1 hd
    exact ht.known d (List.mem_of_find?_eq_some hd) b hb
  simp only [Selection.entryViolations, nameOf, hg.name, hg.base, hg.isReplaceable hbody]

theorem isAlreadyWoven (hg : g.Gains h) (hl : g.ListsDeclared) (hf : g.FieldsDeclared) {t : TypeId}
    (hsame : h.type t = g.type t) : Selection.isAlreadyWoven h settings t = Selection.isAlreadyWoven g settings t := by
  simp only [Selection.isAlreadyWoven, hg.hasField hf hsame, hg.hasMethod hl hsame]

theorem collision? (hg : g.Gains h) (hl : g.ListsDeclared) (hf : g.FieldsDeclared) {t : TypeId}
    (hsame : h.type t = g.type t) : Selection.collision? h settings t = Selection.collision? g settings t := by
  unfold Selection.collision? nameOf
  rw [hg.hasField hf hsame, hg.hasField hf hsame, hg.hasMethod hl hsame, hg.name]

end TypeGraph.Gains

/-- **What other types gain makes no difference** to the verdict on a type. -/
theorem Session.verdict_gains {g h : TypeGraph} {t : TypeDef} (context : Context) (hg : g.Gains h)
    (hl : g.ListsDeclared) (hf : g.FieldsDeclared) (ht : t.Declared g) (hsame : h.type t.id = g.type t.id) :
    verdict h context t = verdict g context t := by
  unfold verdict
  rw [hg.isEligible, hg.entryMethods ht.methods]
  simp only [hg.entryViolations ht, hg.isAlreadyWoven hl hf hsame, hg.collision? hl hf hsame]

end DisposalWeaver
