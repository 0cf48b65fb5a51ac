/-
What weaving makes of a module.

Over a graph that grew from the platform, each definition of a module keeps its methods in a session or is woven, and what
was woven is read against the first and the last graph (`Becomes`). That is all a module needs to be (`Module.Coherent`):
its code names declared members and created instructions. A type or method may be defined more than once, and then a
program runs the last body (`Program.body?_eq_lastBody?`); members that weaving adds are defined once in any case, so
their code is run (`WovenModule.fabricBody`). Main statement: `weave_turns`.
-/
import Mathlib.Data.List.Count
import DisposalWeaver.Machine.PlatformNatives
import DisposalWeaver.Proofs.VerifiedRuns
import DisposalWeaver.Proofs.WovenTurns

namespace DisposalWeaver

/-! ## Modules -/

/-- graph and module name no member that is not declared, and bodies no instruction that has not been created -/
structure Module.Coherent (g : TypeGraph) (module : Module) : Prop extends Module.Grounded g module where
  known : ∀ e ∈ module.bodies, e.2.Known g
  created : ∀ e ∈ module.bodies, e.2.Created

/-- was the first definition, of a module, woven into the second, of what a session made of the module? It got fields
then. -/
def Module.WovenInto (module module' : Module) (t t' : TypeDef) : Prop :=
  (t, t') ∈ module.types.zip module'.types ∧ t'.fields.length ≠ t.fields.length

/-- what became of a definition: it kept its members, or was woven -/
inductive Becomes (settings : Settings) (references : References) (g G : TypeGraph) (report : List (TypeId × Shape))
    (t t' : TypeDef) : Prop where
  | kept (hid : t'.id = t.id) (hfields : t'.fields.map FieldDef.id = t.fields.map FieldDef.id)
    (hmethods : t'.methods = t.methods)
  | woven {entry fabric noted} (hreport : (t.id, fabric.arrangement.shape) ∈ report)
    (hsole : Selection.entryMethods g settings t = [entry])
    (ht : Tailored settings references g G t entry fabric noted t')

/-- a session over a module, and what it led to -/
structure WovenModule (settings : Settings) (g : TypeGraph) (module : Module) (G : TypeGraph) (module' : Module)
    (report : List (TypeId × Shape)) : Prop where
  grown : Platform.alone.2.GrownFrom g
  coherent : module.Coherent g
  gains : g.Gains G
  becomes : List.Forall₂ (Becomes settings Platform.alone.1.references g G report) module.types module'.types
  methods : Anew g.methods.size g.methods.size (methodPlaces module'.types)
  fields : Anew g.fields.size g.fields.size (fieldPlaces module'.types)
  /-- what is reported as woven is -/
  reported : ∀ e ∈ report, ∃ t t' entry fabric noted, (t, t') ∈ module.types.zip module'.types ∧
    e = (t.id, fabric.arrangement.shape) ∧ Selection.entryMethods g settings t = [entry] ∧
    Tailored settings Platform.alone.1.references g G t entry fabric noted t'

section Underway

variable {g h : TypeGraph}

/-- what every turn relies on: a graph that grew from the platform and has gained members since the session began -/
structure Underway (g h : TypeGraph) : Prop where
  grown : Platform.alone.2.GrownFrom g
  gains : g.Gains h

namespace Underway

theorem declared (hu : Underway g h) : Platform.alone.1.references.Declared h := by
  have hsize := Nat.le_trans hu.grown.grows.methods hu.gains.methods
  have halone : Platform.alone.1.references.Declared Platform.alone.2 := by
    constructor <;> decide +kernel
  exact {
    objectFinalize := Nat.lt_of_lt_of_le halone.objectFinalize hsize
    suppressFinalize := Nat.lt_of_lt_of_le halone.suppressFinalize hsize
    dispose := Nat.lt_of_lt_of_le halone.dispose hsize
    exchangeInt32 := Nat.lt_of_lt_of_le halone.exchangeInt32 hsize
    exchangeReference := Nat.lt_of_lt_of_le halone.exchangeReference hsize
    disposedConstructor := Nat.lt_of_lt_of_le halone.disposedConstructor hsize }

/-- a method of the platform is still what it was -/
theorem method (hu : Underway g h) {m : MethodId} (hm : m.index < Platform.alone.2.methods.size) :
    h.method m = Platform.alone.2.method m := by
  rw [hu.gains.method m (Nat.lt_of_lt_of_le hm hu.grown.grows.methods), hu.grown.grows.method m hm]

theorem exchange (hu : Underway g h) :
    (h.method Platform.alone.1.references.exchangeReference).generics.length = 1 := by
  rw [hu.method (by decide +kernel)]
  decide +kernel

end Underway

end Underway

/-! ## Sessions -/

section Sessions

variable {settings : Settings} {references : References} {g G : TypeGraph} {t t' : TypeDef} {types types' : List TypeDef}
  {entry : MethodId} {fabric : Fabric} {noted : List Notice} {report : List (TypeId × Shape)}
  {module module' : Module}

/-- a longer report says the same -/
theorem Becomes.mono (h : Becomes settings references g G report t t') (e : TypeId × Shape) :
    Becomes settings references g G (e :: report) t t' := by
  cases h with
  | kept hid hfields hmethods => exact .kept hid hfields hmethods
  | woven hreport hsole ht => exact .woven (List.mem_cons_of_mem _ hreport) hsole ht

/-- turns made of definitions what is read against the last graph, markers removed -/
theorem Session.Turns.becomes {context : Session.Context} {first last : Diagnostics} (hl : g.ListsDeclared)
    (hr : context.references.Declared g) (hfields : ∀ t ∈ types, ∀ f ∈ t.fields, f.id.index < g.fields.size)
    (h : Session.Turns context g G first last types types' report) :
    List.Forall₂ (Becomes context.settings context.references g G report) types
      (types'.map (OptOut.strip G context.settings)) := by
  induction h with
  | nil => exact .nil
  | kept _ ih =>
    exact .cons (.kept rfl (OptOut.fieldIds_strip G context.settings _) rfl)
      (ih fun t ht => hfields t (List.mem_cons_of_mem _ ht))
  | woven _ hw ih =>
    refine .cons (.woven List.mem_cons_self hw.sole
      ((hw.woven hl hr (hfields _ List.mem_cons_self)).strip G)) ?_
    exact (ih fun t ht => hfields t (List.mem_cons_of_mem _ ht)).imp fun _ _ hbecomes => hbecomes.mono _

/-- a definition that was woven has more fields than before -/
theorem Tailored.length_fields (h : Tailored settings references g G t entry fabric noted t') :
    t'.fields.length = t.fields.length + 2 := by
  have hlength := congrArg List.length h.fields
  simpa using hlength

namespace WovenModule

/-- what became of definitions, each in its place -/
theorem paired (hw : WovenModule settings g module G module' report) : List.Forall₂ (fun t t' =>
    (t, t') ∈ module.types.zip module'.types ∧ Becomes settings Platform.alone.1.references g G report t t')
      module.types module'.types := by
  obtain ⟨hlength, hpairs⟩ := List.forall₂_iff_zip.1 hw.becomes
  exact List.forall₂_iff_zip.2 ⟨hlength, fun hz => ⟨hz, hpairs hz⟩⟩

/-- a definition of the woven module is what became of one -/
theorem backward (hw : WovenModule settings g module G module' report) (ht' : t' ∈ module'.types) :
    ∃ t, (t, t') ∈ module.types.zip module'.types ∧ Becomes settings Platform.alone.1.references g G report t t' := by
  obtain ⟨t, -, h⟩ := exists_of_forall₂ hw.paired ht'
  exact ⟨t, h⟩

theorem pair (hw : WovenModule settings g module G module' report) (hz : (t, t') ∈ module.types.zip module'.types) :
    Becomes settings Platform.alone.1.references g G report t t' :=
  (List.forall₂_iff_zip.1 hw.becomes).2 hz

/-- a definition that got fields was woven -/
theorem tailored (hw : WovenModule settings g module G module' report) (h : module.WovenInto module' t t') :
    ∃ entry fabric noted, (t.id, fabric.arrangement.shape) ∈ report ∧ Selection.entryMethods g settings t = [entry] ∧
      Tailored settings Platform.alone.1.references g G t entry fabric noted t' := by
  cases hw.pair h.1 with
  | kept hid hfields hmethods => exact absurd (by simpa using congrArg List.length hfields) h.2
  | woven hreport hsole ht => exact ⟨_, _, _, hreport, hsole, ht⟩

/-- what was woven got fields -/
theorem wovenInto (hz : (t, t') ∈ module.types.zip module'.types)
    (h : Tailored settings references g G t entry fabric noted t') : module.WovenInto module' t t' :=
  ⟨hz, by rw [h.length_fields]; omega⟩

end WovenModule

/-- **A session** over a graph that grew from the platform weaves each definition of a module or leaves it alone. -/
theorem weave_turns (hg : Platform.alone.2.GrownFrom g) (hm : module.Coherent g) {diagnostics : Diagnostics}
    {report : Report} {woven : Session}
    (h : Session.weave settings { graph := g, module, diagnostics } = .ok report woven) :
    WovenModule settings g module woven.graph woven.module report.woven := by
  obtain ⟨references, types, hreferences, htypes, hpassed⟩ := Session.weave_passed hm.toGrounded h
  cases (TypeGraph.resolve_grownFrom hg).symm.trans hreferences
  have hdeclared := Underway.declared ⟨hg, .refl g⟩
  exact {
    grown := hg
    coherent := hm
    gains := hpassed.gains
    becomes := by
      rw [htypes]
      exact hpassed.turns.becomes hm.lists hdeclared hm.fields
    methods := by
      rw [htypes, OptOut.methodPlaces_strip]
      exact hpassed.methods
    fields := by
      rw [htypes, OptOut.fieldPlaces_strip]
      exact hpassed.fields
    reported := fun e he => by
      obtain ⟨t, entry, fabric, noted, L, L', hz, heq, hw⟩ := hpassed.turns.reported he
      refine ⟨t, OptOut.strip woven.graph settings L'.target, entry, fabric, noted, ?_, heq, hw.sole,
        (hw.woven hm.lists hdeclared (hm.fields t (List.of_mem_zip hz).1)).strip _⟩
      rw [htypes, List.zip_map_right]
      exact List.mem_map_of_mem (f := Prod.map id (OptOut.strip woven.graph settings)) hz }

end Sessions

/-! ## Bodies of modules -/

/-- the bodies of a module are those of its methods -/
theorem Module.mem_bodies_iff {module : Module} {e : MethodId × Body} :
    e ∈ module.bodies ↔ ∃ d ∈ module.methods, d.id = e.1 ∧ d.body = some e.2 := by
  simp only [Module.bodies, List.mem_filterMap, Option.map_eq_some_iff]
  constructor
  · rintro ⟨d, hd, b, hb, rfl⟩
    exact ⟨d, hd, rfl, hb⟩
  · rintro ⟨d, hd, hid, hb⟩
    exact ⟨d, hd, e.2, hb, by rw [hid]⟩

/-- a body of the module is the body of a method that a type of it defines -/
theorem Module.exists_of_mem_bodies {module : Module} {e : MethodId × Body} (he : e ∈ module.bodies) :
    ∃ t ∈ module.types, ∃ d ∈ t.methods, d.id = e.1 ∧ d.body = some e.2 := by
  obtain ⟨d, hd, hid, hbody⟩ := mem_bodies_iff.1 he
  obtain ⟨t, ht, hdt⟩ := List.mem_flatMap.1 hd
  exact ⟨t, ht, d, hdt, hid, hbody⟩

theorem Module.mem_bodies {module : Module} {t : TypeDef} (ht : t ∈ module.types) {d : MethodDef} (hd : d ∈ t.methods)
    {body : Body} (hbody : d.body = some body) : (d.id, body) ∈ module.bodies :=
  mem_bodies_iff.2 ⟨d, List.mem_flatMap.2 ⟨t, ht, hd⟩, rfl, hbody⟩

/-- a program runs the last body that the module has for a method -/
theorem Program.body?_eq_lastBody? {p : Program} {module : Module} (hp : p.Executes module) (m : MethodId) :
    p.body? m = MethodDef.lastBody? m module.methods := by
  rw [Program.body?, hp]
  rfl

/-- bodies are of declared methods -/
theorem Module.Coherent.declared {g : TypeGraph} {module : Module} (hm : module.Coherent g) {e : MethodId × Body}
    (he : e ∈ module.bodies) : e.1.index < g.methods.size := by
  obtain ⟨t, ht, d, hd, hid, -⟩ := Module.exists_of_mem_bodies he
  rw [← hid]
  exact hm.methods t ht d hd

/-- is it the definition that this type holds whose body the program runs for the method? -/
def Program.Runs (p : Program) (t : TypeDef) (m : MethodId) : Prop :=
  p.body? m = (t.method? m).bind MethodDef.body

section Runs

variable {p : Program} {module : Module} {t : TypeDef} {d : MethodDef}

/-- a method that is defined once in the module is run as defined -/
theorem Program.body?_of_once (hp : p.Executes module) (ht : t ∈ module.types) (hd : d ∈ t.methods)
    (honce : (module.methods.map MethodDef.id).count d.id = 1) : p.body? d.id = d.body := by
  rw [Program.body?_eq_lastBody? hp]
  exact MethodDef.lastBody?_of_once honce (List.mem_flatMap.2 ⟨t, ht, hd⟩)

/-- … so it is the definition of its type that is run -/
theorem Program.runs_of_once (hp : p.Executes module) (ht : t ∈ module.types) (hd : d ∈ t.methods)
    (honce : (module.methods.map MethodDef.id).count d.id = 1) : p.Runs t d.id := by
  cases hfound : t.method? d.id with
  | none =>
    have hne := List.find?_eq_none.1 hfound d hd
    simp at hne
  | some found =>
    have hid : found.id = d.id := by simpa using List.find?_some hfound
    have hbody := Program.body?_of_once hp ht (List.mem_of_find?_eq_some hfound) (hid ▸ honce)
    rw [Program.Runs, hfound, ← hid, hbody]
    rfl

end Runs

/-! ## Bodies of the woven module -/

section Bodies

variable {settings : Settings} {g G : TypeGraph} {module module' : Module} {report : List (TypeId × Shape)} {p : Program}
  {t t' : TypeDef} {entry : MethodId} {fields : List FieldId} {fabric : Fabric} {noted : List Notice}

/-- what is listed once is listed by one only -/
theorem eq_of_count_flatMap {α β : Type} [DecidableEq β] {f : α → List β} {xs : List α} {b : β}
    (honce : (xs.flatMap f).count b = 1) {x y : α} (hx : x ∈ xs) (hy : y ∈ xs) (hbx : b ∈ f x) (hby : b ∈ f y) : x = y := by
  induction xs with
  | nil => cases hx
  | cons z rest ih =>
    have hpos : ∀ {x : α}, x ∈ rest → b ∈ f x → 0 < (rest.flatMap f).count b := fun hmem hb =>
      List.count_pos_iff.2 (List.mem_flatMap.2 ⟨_, hmem, hb⟩)
    rw [List.flatMap_cons, List.count_append] at honce
    rcases List.mem_cons.1 hx with heq | hxr <;> rcases List.mem_cons.1 hy with heq' | hyr
    · exact heq.trans heq'.symm
    · have hfirst := List.count_pos_iff.2 (heq ▸ hbx)
      have hlater := hpos hyr hby
      omega
    · have hfirst := List.count_pos_iff.2 (heq' ▸ hby)
      have hlater := hpos hxr hbx
      omega
    · have hlater := hpos hxr hbx
      exact ih (by omega) hxr hyr

/-- a new field is held by one definition -/
theorem WovenModule.sole_field (hw : WovenModule settings g module G module' report) {z z' : TypeDef × TypeDef}
    (hz : z ∈ module.types.zip module'.types) (hz' : z' ∈ module.types.zip module'.types) {f : FieldId}
    (hf : f ∈ z.2.fields.map FieldDef.id) (hf' : f ∈ z'.2.fields.map FieldDef.id) (hnew : g.fields.size ≤ f.index) :
    z = z' := by
  have hlength : module'.types.length ≤ module.types.length := Nat.le_of_eq hw.becomes.length_eq.symm
  have hplaces : fieldPlaces module'.types =
      (module.types.zip module'.types).flatMap fun z => z.2.fields.map fun f => f.id.index := by
    conv_lhs => rw [← List.map_snd_zip hlength, fieldPlaces, List.flatMap_map]
  have hplace : ∀ {z : TypeDef × TypeDef}, f ∈ z.2.fields.map FieldDef.id →
      f.index ∈ z.2.fields.map fun f => f.id.index := fun hf => by
    obtain ⟨d, hd, rfl⟩ := List.mem_map.1 hf
    exact List.mem_map.2 ⟨d, hd, rfl⟩
  have hmem : f.index ∈ fieldPlaces module'.types := by
    rw [hplaces]
    exact List.mem_flatMap.2 ⟨z, hz, hplace hf⟩
  have honce := hw.fields.count hmem hnew
  rw [hplaces] at honce
  exact eq_of_count_flatMap honce hz hz' (hplace hf) (hplace hf')

/-- a method that is new is defined once -/
theorem WovenModule.once (hw : WovenModule settings g module G module' report) (ht' : t' ∈ module'.types) {d : MethodDef}
    (hd : d ∈ t'.methods) (hnew : g.methods.size ≤ d.id.index) : (module'.methods.map MethodDef.id).count d.id = 1 := by
  have hinjective : Function.Injective MethodId.index := fun m m' heq => congrArg MethodId.mk heq
  have hplaces : methodPlaces module'.types = (module'.methods.map MethodDef.id).map MethodId.index := by
    rw [methodPlaces, Module.methods, List.map_map, List.map_flatMap]
    rfl
  have hmem : d.id.index ∈ methodPlaces module'.types := List.mem_flatMap.2 ⟨t', ht', List.mem_map_of_mem hd⟩
  have hcount := hw.methods.count hmem hnew
  rwa [hplaces, List.count_map_of_injective _ _ hinjective] at hcount

/-- **The code of the fabric is run** for its methods, however often types and methods are defined. -/
theorem WovenModule.fabricBody (hw : WovenModule settings g module G module' report) (hp : p.Executes module')
    (ht' : t' ∈ module'.types) (ht : Tailored settings Platform.alone.1.references g G t entry fabric noted t')
    (hfields : fields = Selection.disposedFields g Platform.alone.1.references settings [] t.fields.reverse) {m : MethodId}
    {body : Body} (he : (m, body) ∈ fabric.bodies G Platform.alone.1.references fields t.id) :
    p.body? m = some body := by
  obtain ⟨d, hd, rfl, hbody⟩ := ht.generated hfields (List.mem_cons_of_mem _ he)
  rw [Program.body?_of_once hp ht' hd (hw.once ht' hd (ht.fits.new he).1), hbody]

/-- a woven type holds its entry point -/
theorem Tailored.holds_entry {references : References} (ht : Tailored settings references g G t entry fabric noted t') :
    entry ∈ t'.methods.map MethodDef.id := by
  rw [ht.ids]
  exact List.mem_append_left _ ht.entry_mem

/-- the definition that a woven type holds of its entry point is the rewritten one -/
theorem Tailored.method?_entry {references : References} (ht : Tailored settings references g G t entry fabric noted t')
    (hfields : fields = Selection.disposedFields g references settings [] t.fields.reverse) :
    (t'.method? entry).bind MethodDef.body = some (fabric.arrangement.entryBody G references fabric.state fields) := by
  subst hfields
  have hdefined := ht.entry_mem
  rw [← reworked_ids (authored_reworked settings references g G entry fabric
    (Selection.disposedFields g references settings [] t.fields.reverse) t)] at hdefined
  obtain ⟨d, hd, hid⟩ := List.mem_map.1 hdefined
  rw [TypeDef.method?, ht.methods, List.find?_append]
  cases hfound : (t.authored settings references g G entry fabric
      (Selection.disposedFields g references settings [] t.fields.reverse)).find? fun d => d.id == entry with
  | none =>
    have hne := List.find?_eq_none.1 hfound d hd
    simp [hid] at hne
  | some found =>
    have hfoundId : found.id = entry := by simpa using List.find?_some hfound
    exact authored_entry ht.defined (List.mem_of_find?_eq_some hfound) hfoundId

/-- … which is run if the definition of this type is -/
theorem Program.Runs.entryBody {references : References} (hr : p.Runs t' entry)
    (ht : Tailored settings references g G t entry fabric noted t')
    (hfields : fields = Selection.disposedFields g references settings [] t.fields.reverse) :
    p.body? entry = some (fabric.arrangement.entryBody G references fabric.state fields) :=
  hr.trans (ht.method?_entry hfields)

end Bodies

/-! ## A woven type -/

namespace Session

/-- what a session changes, as it is in the end -/
def after (settings : Settings) (session : Session) : Session :=
  match weave settings session with
  | .ok _ session | .error _ session => session

/-- the report of a session that succeeds -/
def reported (settings : Settings) (session : Session) : Report :=
  match weave settings session with
  | .ok report _ => report
  | .error _ _ => {}

theorem weave_reported {settings : Settings} {session : Session}
    (h : (match weave settings session with | .ok _ _ => true | .error _ _ => false) = true) :
    weave settings session = .ok (reported settings session) (after settings session) := by
  unfold after reported
  cases hw : weave settings session with
  | ok report later => rfl
  | error cause later => rw [hw] at h; cases h

end Session

namespace Specimen

/-- a type that owns a stream and something unmanaged -/
def resource : TypeId := ⟨21⟩

def inner : FieldId := ⟨0⟩
def dispose : MethodId := ⟨16⟩
def read : MethodId := ⟨17⟩

/-- the unmanaged hook, which the host provides -/
def release : MethodId := ⟨18⟩

def method (name : MemberName) (returns : Option TypeRef) : MethodDecl :=
  { declaring := resource, name, flags := MethodFlags.public_, returns }

def graph : TypeGraph :=
  let (_, g) := Platform.alone.2.addType (.ofClass ⟨"Resource"⟩ Platform.alone.1.object TypeFlags.public_)
  let (_, g) := g.addField
    { declaring := resource, name := ⟨"inner"⟩, type := .named Platform.alone.1.stream, flags := FieldFlags.private_ }
  let (_, g) := g.addMethod (method MemberName.dispose none)
  let (_, g) := g.addMethod (method ⟨"Read"⟩ (some (.named Platform.alone.1.int32)))
  (g.addMethod (method ⟨"DisposeUnmanaged"⟩ none)).2

def module : Module :=
  { name := "Specimen"
    types := [{
      id := resource
      fields := [{ id := inner }]
      methods := [
        { id := dispose, body := some (Body.empty.append [.ret]) },
        { id := read, body := some (Body.empty.append [.ldc 1, .ret]) },
        { id := release }] }] }

theorem grown : Platform.alone.2.GrownFrom graph :=
  .method (.method (.method (.field (.type .refl _ rfl rfl) _) _) _) _

theorem coherent : module.Coherent graph where
  lists := grown.listsDeclared Platform.alone_listsDeclared
  methods := by decide +kernel
  fields := by decide +kernel
  known := by
    have hcode : ∀ e ∈ module.bodies, ∀ slot ∈ e.2.slots,
        slot.instruction = .ret ∨ slot.instruction = .ldc 1 := by decide +kernel
    intro e he slot hslot
    rcases hcode e he slot hslot with h | h <;> rw [h] <;> trivial
  created := by
    have hcreated : ∀ e ∈ module.bodies, ∀ t ∈ e.2.order, t.number < e.2.slots.size := by decide +kernel
    exact hcreated

/-- the session over the module -/
def woven : Session := Session.after {} { graph, module }

def outcome : Report := Session.reported {} { graph, module }

theorem weave_ok : Session.weave {} { graph, module } = .ok outcome woven := Session.weave_reported (by decide +kernel)

/-- the unmanaged hook is followed by a managed one that is made for the stream -/
theorem reported : (resource, .managedAndUnmanaged ⟨19⟩ release) ∈ outcome.woven := by decide +kernel

/-- the program of the woven module -/
def program : Program := Program.ofModule woven.graph Platform.alone.1 woven.module

/-- the woven module defines each method once, so all its definitions are run -/
theorem program_runs {t : TypeDef} (ht : t ∈ woven.module.types) {m : MethodId} (hm : m ∈ t.methods.map MethodDef.id) :
    program.Runs t m := by
  have honce : (woven.module.methods.map MethodDef.id).Nodup := by decide +kernel
  obtain ⟨d, hd, rfl⟩ := List.mem_map.1 hm
  exact Program.runs_of_once rfl ht hd
    (List.count_eq_one_of_mem honce (List.mem_map_of_mem (List.mem_flatMap.2 ⟨t, ht, hd⟩)))

/-- a machine with one object of the type -/
def machine : Machine := Machine.initial.apply (.allocate resource)

end Specimen

/-! ## A type that is listed twice -/

namespace Twins

/-- the type as the specimen has it, apart from its field -/
def first : TypeDef :=
  { id := Specimen.resource
    methods := [
      { id := Specimen.dispose, body := some (Body.empty.append [.ret]) },
      { id := Specimen.read, body := some (Body.empty.append [.ldc 1, .ret]) }] }

/-- the type with other code for the same methods: its entry point throws the object -/
def second : TypeDef :=
  { id := Specimen.resource
    methods := [
      { id := Specimen.dispose, body := some (Body.empty.append [.ldarg 0, .throw]) },
      { id := Specimen.read, body := some (Body.empty.append [.ldc 1, .ret]) }] }

def module : Module := { name := "Twins", types := [first, second] }

/-- the session over both, which weaves the first -/
def woven : Session := Session.after {} { graph := Specimen.graph, module }

def outcome : Report := Session.reported {} { graph := Specimen.graph, module }

theorem weave_ok : Session.weave {} { graph := Specimen.graph, module } = .ok outcome woven :=
  Session.weave_reported (by decide +kernel)

/-- the program of the woven module: the code of the second definition is run -/
def program : Program := Program.ofModule woven.graph Platform.alone.1 woven.module

/-- what the first gets -/
def state : WovenState := { signaled := ⟨1⟩, disposed := ⟨2⟩, guard := ⟨19⟩ }

def arrangement : Arrangement := .shared ⟨20⟩ none Specimen.release (some ⟨21⟩)

theorem reported : (Specimen.resource, arrangement.shape) ∈ outcome.woven := by decide +kernel

/-- a machine with one object of the type that has been disposed of -/
def disposed : Machine :=
  (Specimen.machine.apply (.store (.field ⟨0⟩ state.signaled) (.int32 1))).apply
    (.store (.field ⟨0⟩ state.disposed) (.int32 1))

end Twins

end DisposalWeaver
