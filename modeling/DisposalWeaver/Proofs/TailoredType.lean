/-
What weaving makes of a type, in full.

`Tailored` says what a type is after its turn: which definitions its author's have become, which bodies were added, and
what was noted. It is read against the graph before and the graph after, and holds as well between an earlier and a later
graph of the same session (`Tailored.since`, `Tailored.later`), since members that other types gain make no difference to
it. Nothing is asked of the type but that it names declared members, so a method may be defined more than once; the body
that a program runs for it is kept, or stands behind one guard (`Tailored.lastBody?`). Main statement: `weaveType_tailored`.
-/
import DisposalWeaver.Proofs.TypeFrame

namespace DisposalWeaver

/-- the definitions of the author in a woven type: the entry point gets the body of the fabric, and then a call of the
guard comes in front of one method after another that needs it -/
def TypeDef.authored (settings : Settings) (references : References) (g G : TypeGraph) (entry : MethodId)
    (fabric : Fabric) (fields : List FieldId) (t : TypeDef) : List MethodDef :=
  let replaced := MethodDef.changeFirst entry
    (fun d => { d with body := some (fabric.arrangement.entryBody G references fabric.state fields) }) t.methods
  MethodDef.changeEach
    ((replaced.filter (Weave.needsGuard { references, settings, entry }
      { graph := g, target := t, diagnostics := .empty })).map MethodDef.id)
    (Weave.addGuard (MethodRef.onSelf G fabric.state.guard)) replaced

/-- what weaving made of a type: `fabric` is what was added, and `noted` what was said about it -/
structure Tailored (settings : Settings) (references : References) (g G : TypeGraph) (t : TypeDef) (entry : MethodId)
    (fabric : Fabric) (noted : List Notice) (t' : TypeDef) : Prop where
  id : t'.id = t.id
  gains : g.Gains G
  defined : (t.methods.map MethodDef.id).count entry = 1
  fits : fabric.Fits settings references g G t.id
  suits : fabric.Suits settings g t.id (Selection.disposedFields g references settings [] t.fields.reverse)
  errors : Notice.errors noted = if Selection.hook? g t.id settings.managedHook = none then
    Selection.reports g references settings [] t.fields.reverse else []
  fields : t'.fields.map FieldDef.id = t.fields.map FieldDef.id ++ [fabric.state.signaled, fabric.state.disposed]
  methods : t'.methods = t.authored settings references g G entry fabric
      (Selection.disposedFields g references settings [] t.fields.reverse) ++
    (fabric.bodies G references (Selection.disposedFields g references settings [] t.fields.reverse) t.id).map fun e =>
      { id := e.1, body := some e.2 }
  once : ((fabric.bodies G references (Selection.disposedFields g references settings [] t.fields.reverse) t.id).map
    Prod.fst).Nodup

section Authored

variable {settings : Settings} {references : References} {g G : TypeGraph} {t : TypeDef} {entry : MethodId}
  {fields : List FieldId} {fabric : Fabric} {d : MethodDef}

theorem authored_reworked (settings : Settings) (references : References) (g G : TypeGraph) (entry : MethodId)
    (fabric : Fabric) (fields : List FieldId) (t : TypeDef) :
    List.Forall₂ (Reworked g entry (MethodRef.onSelf G fabric.state.guard)) t.methods
      (t.authored settings references g G entry fabric fields) := by
  exact reworked_guards (fun m hm => (of_mem_needsGuard hm).2.1) (reworked_entry _ _ _ _ _)

/-- an entry point that is defined once has the body of the fabric -/
theorem authored_entry (honce : (t.methods.map MethodDef.id).count entry = 1)
    (hd : d ∈ t.authored settings references g G entry fabric fields) (hid : d.id = entry) :
    d.body = some (fabric.arrangement.entryBody G references fabric.state fields) := by
  have hguard : ∀ d, (Weave.addGuard (MethodRef.onSelf G fabric.state.guard) d).id = d.id := fun _ => rfl
  have hreplaced := MethodDef.mem_of_changeEach hguard hd fun hmem => (of_mem_needsGuard hmem).1 hid
  obtain ⟨first, -, -, rfl⟩ := MethodDef.changeFirst_once (Nat.le_of_eq honce) hreplaced hid
  rfl

end Authored

section Tailored

variable {settings : Settings} {references : References} {g G : TypeGraph} {t t' : TypeDef} {entry m : MethodId}
  {fields : List FieldId} {fabric : Fabric} {noted : List Notice}

theorem exists_of_forall₂ {α β : Type} {R : α → β → Prop} {xs : List α} {ys : List β} (h : List.Forall₂ R xs ys) {y : β}
    (hy : y ∈ ys) : ∃ x ∈ xs, R x y := by
  induction h with
  | nil => cases hy
  | cons hxy _ ih =>
    rcases List.mem_cons.1 hy with rfl | hy
    · exact ⟨_, List.mem_cons_self, hxy⟩
    · obtain ⟨x, hx, h⟩ := ih hy
      exact ⟨x, List.mem_cons_of_mem _ hx, h⟩

/-- a method of a woven type is generated or the author's -/
theorem Tailored.method (h : Tailored settings references g G t entry fabric noted t') (hfields : fields =
    Selection.disposedFields g references settings [] t.fields.reverse) {d : MethodDef} (hd : d ∈ t'.methods) :
    (∃ e ∈ fabric.generated G references fields t.id entry, d.id = e.1 ∧ d.body = some e.2) ∨
      ∃ d' ∈ t.methods, d'.id ≠ entry ∧ Reworked g entry (MethodRef.onSelf G fabric.state.guard) d' d := by
  subst hfields
  rw [h.methods] at hd
  rcases List.mem_append.1 hd with hd | hd
  · by_cases hid : d.id = entry
    · exact .inl ⟨_, List.mem_cons_self, hid, authored_entry h.defined hd hid⟩
    · obtain ⟨d', hd', hrel⟩ := exists_of_forall₂ (authored_reworked _ _ _ _ _ _ _ _) hd
      exact .inr ⟨d', hd', hrel.id ▸ hid, hrel⟩
  · obtain ⟨e, he, rfl⟩ := List.mem_map.1 hd
    exact .inl ⟨e, List.mem_cons_of_mem _ he, rfl, rfl⟩

/-- what the author wrote is still there, reworked at most -/
theorem Tailored.forward (h : Tailored settings references g G t entry fabric noted t') {d : MethodDef}
    (hd : d ∈ t.methods) : ∃ d' ∈ t'.methods, Reworked g entry (MethodRef.onSelf G fabric.state.guard) d d' := by
  obtain ⟨d', hd', hreworked⟩ := exists_of_forall₂ (authored_reworked settings references g G entry fabric
    (Selection.disposedFields g references settings [] t.fields.reverse) t).flip hd
  rw [h.methods]
  exact ⟨d', List.mem_append_left _ hd', hreworked⟩

theorem Tailored.entry_mem (h : Tailored settings references g G t entry fabric noted t') :
    entry ∈ t.methods.map MethodDef.id :=
  List.count_pos_iff.1 (by rw [h.defined]; exact Nat.one_pos)

/-- whatever is generated for a type is defined in it -/
theorem Tailored.generated (h : Tailored settings references g G t entry fabric noted t') (hfields : fields =
    Selection.disposedFields g references settings [] t.fields.reverse) {e : MethodId × Body}
    (he : e ∈ fabric.generated G references fields t.id entry) : ∃ d ∈ t'.methods, d.id = e.1 ∧ d.body = some e.2 := by
  subst hfields
  rw [h.methods]
  rcases List.mem_cons.1 he with rfl | he
  · have hdefined := h.entry_mem
    rw [← reworked_ids (authored_reworked settings references g G entry fabric
      (Selection.disposedFields g references settings [] t.fields.reverse) t)] at hdefined
    obtain ⟨d, hd, hid⟩ := List.mem_map.1 hdefined
    exact ⟨d, List.mem_append_left _ hd, hid, authored_entry h.defined hd hid⟩
  · exact ⟨_, List.mem_append_right _ (List.mem_map_of_mem he), rfl, rfl⟩

/-- the methods of a woven type are those of its author, and those of the fabric behind them -/
theorem Tailored.ids (h : Tailored settings references g G t entry fabric noted t') : t'.methods.map MethodDef.id =
    t.methods.map MethodDef.id ++ (fabric.bodies G references
      (Selection.disposedFields g references settings [] t.fields.reverse) t.id).map Prod.fst := by
  rw [h.methods, List.map_append, reworked_ids (authored_reworked _ _ _ _ _ _ _ _), List.map_map]
  rfl

/-- methods of the fabric are new -/
theorem Fabric.Fits.new (hf : fabric.Fits settings references g G t.id) {e : MethodId × Body}
    (he : e ∈ fabric.bodies G references fields t.id) : g.NewMethod G e.1 := by
  cases Fabric.mem_bodies.1 he with
  | derived hm => exact (hf.derived _ hm).1
  | guard => exact hf.state.guard.1
  | routine ha => exact (hf.routine _ (by rw [ha]; rfl)).1
  | finalizer ha => exact (hf.finalizer _ (by rw [ha]; rfl)).1

/-- **The body that is run** for another method is kept, or stands behind one guard, as far as this type goes. -/
theorem Tailored.lastBody? (h : Tailored settings references g G t entry fabric noted t')
    (hm : m.index < g.methods.size) (hne : m ≠ entry) :
    MethodDef.lastBody? m t'.methods = MethodDef.lastBody? m t.methods ∨
      ∃ body, MethodDef.lastBody? m t.methods = some body ∧ m ∈ t.methods.map MethodDef.id ∧
        (g.method m).isStatic = false ∧ MethodDef.lastBody? m t'.methods =
          some (Emission.guarded (MethodRef.onSelf G fabric.state.guard) body) := by
  have hmade : MethodDef.lastBody? m ((fabric.bodies G references
      (Selection.disposedFields g references settings [] t.fields.reverse) t.id).map fun e =>
        { id := e.1, body := some e.2 }) = none := by
    refine MethodDef.lastBody?_eq_none fun d hd hid => ?_
    obtain ⟨e, he, rfl⟩ := List.mem_map.1 hd
    exact absurd hm (Nat.not_lt.2 (hid ▸ (h.fits.new he).1))
  have hbody : ∀ d : MethodDef, ({ d with body := some (fabric.arrangement.entryBody G references fabric.state
      (Selection.disposedFields g references settings [] t.fields.reverse)) } : MethodDef).id = d.id := fun _ => rfl
  have hguard : ∀ d, (Weave.addGuard (MethodRef.onSelf G fabric.state.guard) d).id = d.id := fun _ => rfl
  rw [h.methods, MethodDef.lastBody?_append, hmade, Option.none_or]
  unfold TypeDef.authored
  simp only
  rcases MethodDef.lastBody?_changeEach hguard (MethodDef.count_ids_le
    (fun d hd => (ofInstance_of_needsGuard hd).2.2) m _) with hkept | ⟨d, -, -, hlast, htarget, hguarded⟩
  · rw [hkept, MethodDef.lastBody?_changeFirst hbody hne]
    exact .inl rfl
  · rw [MethodDef.lastBody?_changeFirst hbody hne] at hlast
    rw [hguarded, ← hlast]
    cases hown : d.body with
    | none => exact .inl (by rw [Weave.addGuard, hown, Option.map_none])
    | some body =>
      obtain ⟨-, hinstance, hmem⟩ := of_mem_needsGuard htarget
      rw [MethodDef.ids_changeFirst entry hbody] at hmem
      exact .inr ⟨body, rfl, hmem, hinstance, by rw [Weave.addGuard, hown, Option.map_some]⟩

end Tailored

/-! ## Weaving a type -/

section Whole

variable {pattern : Pattern} {L L' : Loom}

/-- a type lists a declared field under the name that the signaling field gets -/
def TypeGraph.Signals (g : TypeGraph) (settings : Settings) (t : TypeId) : Prop :=
  ∃ f ∈ (g.type t).fields, f.index < g.fields.size ∧ (g.field f).name = settings.signaledField

theorem TypeGraph.Signals.gains {g g' : TypeGraph} {settings : Settings} {t : TypeId} (h : g.Signals settings t)
    (hg : g.Gains g') : g'.Signals settings t := by
  obtain ⟨f, hf, hlt, hname⟩ := h
  obtain ⟨methods, fields, htype, -⟩ := hg.type t
  refine ⟨f, ?_, Nat.lt_of_lt_of_le hlt hg.fields, by rw [hg.field f hlt, hname]⟩
  rw [htype]
  exact List.mem_append_left _ hf

/-- a type that has the signaling field is not woven again -/
theorem TypeGraph.Signals.collision? {g : TypeGraph} {settings : Settings} {t : TypeId} (h : g.Signals settings t) :
    Selection.collision? g settings t ≠ none := by
  obtain ⟨f, hf, -, hname⟩ := h
  have hfield : g.hasField t settings.signaledField.text = true := by
    unfold hasField findField?
    rw [List.find?_isSome]
    exact ⟨f, hf, by rw [hname]; exact beq_self_eq_true _⟩
  unfold Selection.collision?
  rw [if_pos hfield]
  exact Option.some_ne_none _

/-- a type that got its state lists the signaling field, if it is declared at all -/
theorem Loom.Adds.signals {authored : List MethodDef} {bodies : List (MethodId × Body)} {signaled disposed : FieldId}
    {decls : List FieldDecl} {noted : List Notice} {T : TypeId} {type : TypeId}
    (h : L.Adds pattern authored bodies [signaled, disposed]
      (Weave.stateField T pattern.settings.signaledField type :: decls) noted L') :
    L'.graph.type L.target.id = L.graph.type L.target.id ∨ L'.graph.Signals pattern.settings L.target.id := by
  by_cases hlt : L.target.id.index < L.graph.types.size
  · refine .inr ⟨signaled, ?_, (h.newFields signaled List.mem_cons_self).2, ?_⟩
    · rw [h.members hlt]
      exact List.mem_append_right _ List.mem_cons_self
    · have hdecls := h.decls
      rw [List.map_cons, List.cons.injEq] at hdecls
      rw [hdecls.1]
      rfl
  · have hnone := Nat.le_of_not_lt hlt
    simp only [TypeGraph.type, Array.getD_eq_getD_getElem?]
    rw [Array.getElem?_eq_none hnone, Array.getElem?_eq_none (h.gains.types ▸ hnone)]
    exact .inl rfl

/-- **What weaving makes of a type**, whenever it ends well: a fabric, and errors about the fields if they are looked at. -/
theorem weaveType_tailored (hL : L.introduced = []) (honce : (L.target.methods.map MethodDef.id).count pattern.entry = 1)
    (hmethods : ∀ d ∈ L.target.methods, d.id.index < L.graph.methods.size)
    (hfields : ∀ f ∈ L.target.fields, f.id.index < L.graph.fields.size) (hlists : L.graph.ListsDeclared)
    (hr : pattern.references.Declared L.graph)
    (hc : Selection.collision? L.graph pattern.settings L.target.id = none) {shape : Option Shape}
    (h : Weave.weaveType pattern L = .ok shape L') : ∃ fabric noted, shape = some fabric.arrangement.shape ∧
      L.graph.Gains L'.graph ∧ (∀ T, T ≠ L.target.id → L'.graph.type T = L.graph.type T) ∧
      (L'.graph.type L.target.id = L.graph.type L.target.id ∨ L'.graph.Signals pattern.settings L.target.id) ∧
      L'.diagnostics = L.diagnostics.recordAll noted ∧
      Tailored pattern.settings pattern.references L.graph L'.graph L.target pattern.entry fabric noted L'.target := by
  have hentry : pattern.entry ∈ L.target.methods.map MethodDef.id :=
    List.count_pos_iff.1 (by rw [honce]; exact Nat.one_pos)
  obtain ⟨fabric, entryBody, bodies, targets, noted, hshape, hwoven⟩ := weaveType_weaves hL hentry hc h
  obtain ⟨rfl, rfl, herrors⟩ := hwoven.coded hfields hlists hr
  have hneeds : Weave.needsGuard pattern L = Weave.needsGuard
      { references := pattern.references, settings := pattern.settings, entry := pattern.entry }
      { graph := L.graph, target := L.target, diagnostics := .empty } := by
    funext d
    simp only [Weave.needsGuard, hL]
  refine ⟨fabric, noted, hshape, hwoven.adds.gains, hwoven.adds.others, hwoven.adds.signals, hwoven.adds.diagnostics, {
    id := hwoven.adds.id
    gains := hwoven.adds.gains
    defined := honce
    fits := hwoven.fits
    suits := hwoven.suits
    errors := herrors
    fields := by
      rw [hwoven.adds.fields, List.map_append]
      rfl
    methods := ?_
    once := hwoven.adds.once }⟩
  rw [hwoven.adds.methods, hwoven.targets hmethods, hneeds]
  rfl

end Whole

/-! ## Between other graphs -/

section Other

variable {settings : Settings} {references : References} {g h G G' : TypeGraph} {t t' : TypeDef} {entry : MethodId}
  {fabric : Fabric} {noted : List Notice}

/-- what other types gained before makes no difference to what is made of a type -/
theorem Tailored.since (ht : Tailored settings references h G t entry fabric noted t') (hg : g.Gains h)
    (hsame : h.type t.id = g.type t.id) (hl : g.ListsDeclared) (hmethods : ∀ d ∈ t.methods, d.id.index < g.methods.size)
    (hfields : ∀ f ∈ t.fields, f.id.index < g.fields.size) : Tailored settings references g G t entry fabric noted t' := by
  have hknown : ∀ f ∈ t.fields.reverse, f.id.index < g.fields.size := fun f hf => hfields f (List.mem_reverse.1 hf)
  have hdisposed : Selection.disposedFields h references settings [] t.fields.reverse =
      Selection.disposedFields g references settings [] t.fields.reverse := hg.disposedFields hknown
  have hhook : ∀ name, Selection.hook? h t.id name = Selection.hook? g t.id name := hg.hook? hl hsame
  have hmade := ht.methods
  have hsuits := ht.suits
  have honce := ht.once
  rw [hdisposed] at hmade hsuits honce
  exact {
    id := ht.id
    gains := hg.trans ht.gains
    defined := ht.defined
    fits := ht.fits.mono hg (.refl G)
    suits := ⟨hhook _ ▸ hsuits.managed, hhook _ ▸ hsuits.unmanaged, by rw [← hhook, ← hhook]; exact hsuits.needed⟩
    errors := by rw [ht.errors, hhook, hg.reports hknown]
    fields := ht.fields
    methods := by
      rw [hmade, TypeDef.authored, TypeDef.authored]
      congr 3
      refine List.filter_congr fun d hd => ?_
      have hbody : ∀ d : MethodDef, ({ d with body := some (fabric.arrangement.entryBody G references fabric.state
        (Selection.disposedFields g references settings [] t.fields.reverse)) } : MethodDef).id = d.id := fun _ => rfl
      have hmem := List.mem_map_of_mem (f := MethodDef.id) hd
      rw [MethodDef.ids_changeFirst entry hbody] at hmem
      obtain ⟨d', hd', hid⟩ := List.mem_map.1 hmem
      exact @needsGuard_gains { references, settings, entry } { graph := g, target := t, diagnostics := .empty }
        { graph := h, target := t, diagnostics := .empty } d hg rfl (fun m hm => by cases hm) (hid ▸ hmethods d' hd')
    once := honce }

/-- … nor does what they gain later -/
theorem Tailored.later (ht : Tailored settings references g G t entry fabric noted t') (hG : G.Gains G')
    (hl : g.ListsDeclared) (hr : references.Declared g) (hfields : ∀ f ∈ t.fields, f.id.index < g.fields.size) :
    Tailored settings references g G' t entry fabric noted t' := by
  have hhooks := ht.suits.known ht.fits hl ht.gains
  have hknown : ∀ f ∈ Selection.disposedFields g references settings [] t.fields.reverse, f.index < G.fields.size :=
    fun f hf => Nat.lt_of_lt_of_le (disposedFields_declared hfields f hf) ht.gains.fields
  have hbodies := ht.fits.bodies hhooks (ht.gains.declared hr) hknown hG
  exact {
    id := ht.id
    gains := ht.gains.trans hG
    defined := ht.defined
    fits := ht.fits.mono (.refl g) hG
    suits := ht.suits
    errors := ht.errors
    fields := ht.fields
    methods := by
      rw [ht.methods, hbodies, TypeDef.authored, TypeDef.authored,
        ht.fits.entryBody hhooks (ht.gains.declared hr) hknown hG, hG.methodOnSelf ht.fits.state.guard.1.2]
    once := by
      rw [hbodies]
      exact ht.once }

end Other

end DisposalWeaver
