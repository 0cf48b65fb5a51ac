/-
Which fields the bodies of a woven module store to.

Authors name only fields that were declared before, and generated code stores to one field only, at the end of a gate. So no
body of a woven module stores to a signaled field, and the disposed field of a type is stored to by the type's gate alone
(`WovenModule.stores`).
-/
import DisposalWeaver.Proofs.ConservativeWeaving
import DisposalWeaver.Proofs.OnwardCode

namespace DisposalWeaver

/-- the body stores only to instance fields of which the property holds -/
def Body.StoresTo (body : Body) (property : FieldId → Prop) : Prop :=
  ∀ k f, (Layout.ofBody body).fetch? k = some (.stfld f) → property f.field

section Bodies

variable {g G : TypeGraph} {references : References} {state : WovenState} {body : Body} {work code : List Instruction}
  {property : FieldId → Prop} {fields : List FieldId}

theorem Body.StoresTo.imp {property' : FieldId → Prop} (h : body.StoresTo property) (himp : ∀ f, property f → property' f) :
    body.StoresTo property' := fun k f hi => himp _ (h k f hi)

/-- code without stores stores to nothing -/
theorem Body.Holds.storesTo (h : body.Holds code) (hcode : ∀ i ∈ code, ∀ f, i ≠ .stfld f) : body.StoresTo property := by
  intro k f hi
  rw [h.fetch?] at hi
  exact absurd rfl (hcode _ (List.mem_of_getElem? hi) f)

/-- what a gate stores to is the disposed field -/
theorem Body.Gated.storesTo (h : body.Gated g references state work) : body.StoresTo (· = state.disposed) := by
  intro k f hi
  rcases Nat.lt_or_ge k 7 with hk | hk
  · exfalso
    have hmem : Instruction.stfld f ∈ Emission.escapeCode g references state.signaled 0 := by
      have hget : (Emission.escapeCode g references state.signaled 0)[k]? = some (.stfld f) := by
        rw [← hi, h.holds.fetch?, Emission.gateCode, List.append_assoc, List.append_assoc,
          List.getElem?_append_left (by simpa [Emission.escapeCode] using hk)]
      exact List.mem_of_getElem? hget
    simp [Emission.escapeCode] at hmem
  · rcases h.fetch hi hk with ⟨-, honward⟩ | ⟨-, heq⟩ | ⟨-, heq⟩ | ⟨-, heq⟩ | ⟨-, heq⟩
    · exact honward.elim
    · cases heq
    · cases heq
    · cases heq; rfl
    · cases heq

theorem Emission.derivedHook_storesTo (fields : List FieldId) : (derivedHook g references fields).StoresTo property := by
  refine (derivedHook_holds g references fields).storesTo fun i hi f heq => ?_
  subst heq
  rcases List.mem_append.1 hi with hi | hi
  · obtain ⟨k, hk⟩ := List.mem_iff_getElem?.1 hi
    exact (onward_disposals g references 0 (plan g 0 fields) (Nat.le_refl _)).get hk
  · simp at hi

theorem Emission.guard_storesTo (t : TypeId) (disposed : FieldId) : (guard g references t disposed).StoresTo property :=
  (guard_holds g references t disposed).storesTo fun i hi f heq => by
    subst heq
    simp [guardCode] at hi

theorem Emission.entryThroughRoutine_storesTo (r : MethodId) :
    (entryThroughRoutine g references r).StoresTo property :=
  (entryThroughRoutine_holds g references r).storesTo fun i hi f heq => by
    subst heq
    simp [entryThroughRoutineCode] at hi

theorem Emission.finalizer_storesTo (r : MethodId) : (finalizer g references r).StoresTo property := by
  have hholds : (Body.empty.append (finalizerCode g references r)).Holds (finalizerCode g references r) :=
    Body.Holds.empty.append _
  have hstores : (Body.empty.append (finalizerCode g references r)).StoresTo property :=
    hholds.storesTo fun i hi f heq => by
      subst heq
      simp [finalizerCode] at hi
  exact hstores

/-- an author's body names what was declared -/
theorem Body.Known.storesTo (h : body.Known g) : body.StoresTo fun f => f.index < g.fields.size := by
  intro k f hi
  exact h.fetch (r := Routine.ofCode g ⟨0⟩ body 0) rfl hi

/-- … also behind a guard -/
theorem Emission.guarded_storesTo {guard : MethodRef} (hb : body.Created) (h : body.StoresTo property) :
    (guarded guard body).StoresTo property := by
  intro k f hi
  rw [Layout.fetch?_ofBody] at hi
  match k, hi with
  | 0, hi => cases (fetch?_prelude guard body).1.symm.trans hi
  | 1, hi => cases (fetch?_prelude guard body).2.symm.trans hi
  | k + 2, hi =>
    rw [fetch?_guarded hb] at hi
    exact h k f (by rw [Layout.fetch?_ofBody]; exact hi)

/-- … and behind any number of calls of it -/
theorem Body.StoresTo.behind {guard : MethodRef} {body' : Body} (h : body.StoresTo property) (hb : body.Created)
    (hbehind : Relation.ReflTransGen (Body.BehindGuard guard) body body') : body'.Created ∧ body'.StoresTo property := by
  induction hbehind with
  | refl => exact ⟨hb, h⟩
  | tail _ hnext ih =>
    cases behindGuard_iff.1 hnext
    exact ⟨guarded_created ih.1, Emission.guarded_storesTo ih.1 ih.2⟩

end Bodies

section Woven

variable {settings : Settings} {g G : TypeGraph} {module module' : Module} {report : List (TypeId × Shape)}
  {t t' : TypeDef} {entry : MethodId} {fields : List FieldId} {fabric : Fabric} {noted : List Notice}

/-- the body of an entry point stores to the disposed field, if it is a gate itself -/
theorem Arrangement.entryBody_storesTo {references : References} {state : WovenState} (arrangement : Arrangement)
    (entry : MethodId) : (arrangement.entryBody G references state fields).StoresTo fun f =>
      f = state.disposed ∧ entry = arrangement.gate entry := by
  cases arrangement with
  | direct =>
    obtain ⟨work, hgated⟩ := Emission.simpleEntry_gated G references state fields
    exact hgated.storesTo.imp fun f hf => ⟨hf, rfl⟩
  | managed m =>
    obtain ⟨work, hgated⟩ := Emission.managedEntry_gated G references state m
    exact hgated.storesTo.imp fun f hf => ⟨hf, rfl⟩
  | shared r m u f => exact Emission.entryThroughRoutine_storesTo r

/-- among the bodies of a fabric only the routine stores to a field, which is the disposed field -/
theorem Fabric.bodies_storeTo {references : References} {T : TypeId} {e : MethodId × Body} (entry : MethodId)
    (he : e ∈ fabric.bodies G references fields T) :
    e.2.StoresTo fun f => f = fabric.state.disposed ∧ e.1 = fabric.arrangement.gate entry := by
  cases Fabric.mem_bodies.1 he with
  | derived => exact Emission.derivedHook_storesTo fields
  | guard => exact Emission.guard_storesTo T fabric.state.disposed
  | routine ha =>
    obtain ⟨work, hgated⟩ := Emission.routine_gated G references fabric.state _ _
    exact hgated.storesTo.imp fun f hf => ⟨hf, by rw [ha]; rfl⟩
  | finalizer => exact Emission.finalizer_storesTo _

/-- a method of a woven definition stores to fields that were declared before, or is the gate of the type -/
theorem Tailored.storesTo (hm : module.Coherent g) (ht : t ∈ module.types)
    (hd : Tailored settings Platform.alone.1.references g G t entry fabric noted t') {d : MethodDef}
    (hmem : d ∈ t'.methods) {body : Body} (hbody : d.body = some body) : body.StoresTo fun f =>
      f.index < g.fields.size ∨ f = fabric.state.disposed ∧ d.id = fabric.arrangement.gate entry := by
  rcases hd.method rfl hmem with ⟨e, he, hid, hmade⟩ | ⟨d', hd', hne, hreworked⟩
  · cases hbody.symm.trans hmade
    rw [hid]
    rcases List.mem_cons.1 he with rfl | hfabric
    · exact (Arrangement.entryBody_storesTo fabric.arrangement entry).imp fun f hf => .inr hf
    · exact (Fabric.bodies_storeTo entry hfabric).imp fun f hf => .inr hf
  · obtain ⟨authored, hauthored, hbehind⟩ := hreworked.exists_body hne hbody
    have hold := Module.mem_bodies ht hd' hauthored
    exact ((hm.known _ hold).storesTo.behind (hm.created _ hold) hbehind).2.imp fun f hf => .inl hf

/-- **What the bodies of a woven module store to**: never to the signaled field of a type, and to its disposed field only
in its gate. -/
theorem WovenModule.stores (hw : WovenModule settings g module G module' report)
    (hz : (t, t') ∈ module.types.zip module'.types)
    (hd : Tailored settings Platform.alone.1.references g G t entry fabric noted t') {m : MethodId} {body : Body}
    (he : (m, body) ∈ module'.bodies) : body.StoresTo fun f =>
      f ≠ fabric.state.signaled ∧ (f = fabric.state.disposed → m = fabric.arrangement.gate entry) := by
  have hold : ∀ f : FieldId, f.index < g.fields.size → f ≠ fabric.state.signaled ∧ f ≠ fabric.state.disposed :=
    fun f hf => ⟨fun heq => absurd (heq ▸ hf) (Nat.not_lt.2 hd.fits.state.signaled.1.1),
      fun heq => absurd (heq ▸ hf) (Nat.not_lt.2 hd.fits.state.disposed.1.1)⟩
  have hfields : ∀ {u u' : TypeDef} {entry fabric noted},
      Tailored settings Platform.alone.1.references g G u entry fabric noted u' →
        fabric.state.signaled ∈ u'.fields.map FieldDef.id ∧ fabric.state.disposed ∈ u'.fields.map FieldDef.id :=
    fun h => by simp [h.fields]
  obtain ⟨u', hu', d, hdu, rfl, hbody⟩ := Module.exists_of_mem_bodies he
  obtain ⟨u, hzu, hbecomes⟩ := hw.backward hu'
  have hu := (List.of_mem_zip hzu).1
  -- the definition itself, one that kept its methods, or another that was woven and has fields of its own
  by_cases hsame : (u, u') = (t, t')
  · cases hsame
    refine (hd.storesTo hw.coherent hu hdu hbody).imp fun f hf => ?_
    rcases hf with hf | ⟨rfl, hgate⟩
    · exact ⟨(hold f hf).1, fun heq => absurd heq (hold f hf).2⟩
    · exact ⟨hd.fits.state.distinct.symm, fun _ => hgate⟩
  cases hbecomes with
  | kept _ _ hmethods =>
    have hknown := hw.coherent.known _ (Module.mem_bodies hu (hmethods ▸ hdu) hbody)
    exact hknown.storesTo.imp fun f hf => ⟨(hold f hf).1, fun heq => absurd heq (hold f hf).2⟩
  | woven _ _ hd' =>
    refine (hd'.storesTo hw.coherent hu hdu hbody).imp fun f hf => ?_
    rcases hf with hf | ⟨rfl, -⟩
    · exact ⟨(hold f hf).1, fun heq => absurd heq (hold f hf).2⟩
    · have hnew := hd'.fits.state.disposed.1.1
      exact ⟨fun heq => hsame (hw.sole_field hzu hz (hfields hd').2 (heq ▸ (hfields hd).1) hnew),
        fun heq => absurd (hw.sole_field hzu hz (hfields hd').2 (heq ▸ (hfields hd).2) hnew) hsame⟩

end Woven

end DisposalWeaver
