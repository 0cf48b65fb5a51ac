/-
What the verifier asks of entry points and hooks.

Generated code calls hooks with the instance at hand only, and it has no use for what they return; nor does an entry point
have anything to return. Weaving does not look at what entry points and hooks return, so it is for their author to see to
it: the verifier accepts what is generated for a type only if they return nothing (`weave_returnsNothing`). The heights in
generated code are read off the levels of an accepted body, piece by piece (`Body.Reaches`).
-/
import DisposalWeaver.Proofs.AcceptedBodies
import DisposalWeaver.Proofs.VerifiedWeaving

namespace DisposalWeaver

/-! ## Heights in listed code -/

namespace Body

/-- control may get to the position, and it has this height there -/
structure Reaches (body : Body) (level : Nat → Nat) (k height : Nat) : Prop where
  reachable : body.Reachable k
  level : level k = height

/-- the height behind code that is passed from the first instruction to the last -/
def heightBehind (g : TypeGraph) (code : List Instruction) (height : Nat) : Nat :=
  code.foldl (fun height i => i.heightAfter g height) height

section Levels

variable {g : TypeGraph} {m : MethodDecl} {body : Body} {level : Nat → Nat} {code behind : List Instruction}
  {i : Instruction} {k height depth : Nat}

/-- what is verified has levels -/
theorem leveling_of_verify (h : body.verify g m = .ok depth) : ∃ level, body.Leveling g m level := by
  obtain ⟨level, hl, -⟩ := (verify_iff.1 h).levels
  exact ⟨level, hl⟩

theorem Leveling.reaches_start (hl : body.Leveling g m level) : body.Reaches level 0 0 := ⟨.start, hl.start⟩

theorem Lists.fetch_drop (hb : body.Lists code) (hd : code.drop k = i :: behind) : body.fetch? k = some i := by
  rw [hb.fetch, ← List.head?_drop, hd]
  rfl

/-- a piece that goes on from each instruction to the next is passed, and its instructions tell the height behind it -/
theorem Reaches.through (h : body.Reaches level k height) (hl : body.Leveling g m level) (hb : body.Lists code)
    (piece : List Instruction) (hd : code.drop k = piece ++ behind) (hterminal : piece.all fun i => !i.isTerminal) :
    body.Reaches level (k + piece.length) (heightBehind g piece height) := by
  induction piece generalizing k height with
  | nil => exact h
  | cons i rest ih =>
    rw [List.all_cons, Bool.and_eq_true, Bool.not_eq_true'] at hterminal
    have hfetch := hb.fetch_drop hd
    have hnext : body.Leads i k (k + 1) := .onward hterminal.1
    have hd' : code.drop (k + 1) = rest ++ behind := by
      rw [← List.drop_drop, hd]
      rfl
    have hrest := ih ⟨.step h.reachable hfetch hnext, hl.onward _ _ _ h.reachable hfetch hnext⟩ hd' hterminal.2
    rw [h.level] at hrest
    rw [List.length_cons, Nat.add_comm rest.length, ← Nat.add_assoc]
    exact hrest

/-- a jump within the code leads to its target -/
theorem Reaches.jump (h : body.Reaches level k height) (hl : body.Leveling g m level) (hb : body.Lists code)
    (hd : code.drop k = i :: behind) {t : Nat} (ht : i.target? = some ⟨t⟩) (hlt : t < code.length) :
    body.Reaches level t (i.heightAfter g height) := by
  have hfetch := hb.fetch_drop hd
  have hnext : body.Leads i k t := .jump ht (hb.position t hlt)
  exact ⟨.step h.reachable hfetch hnext, by rw [hl.onward _ _ _ h.reachable hfetch hnext, h.level]⟩

/-- a return is reached with what the method returns -/
theorem Reaches.ret (h : body.Reaches level k height) (hl : body.Leveling g m level) (hb : body.Lists code)
    (hd : code.drop k = .ret :: behind) : height = m.resultCount := by
  obtain ⟨i, hi, hobeys⟩ := hl.obeys _ h.reachable
  rw [hb.fetch_drop hd] at hi
  rw [← h.level]
  exact hobeys.returns (Option.some.inj hi).symm

/-- there is one height only at a position -/
theorem Reaches.unique {height' : Nat} (h : body.Reaches level k height) (h' : body.Reaches level k height') :
    height = height' := h.level.symm.trans h'.level

end Levels

end Body

/-! ## Pieces of generated code -/

namespace Emission

section Pieces

variable {g : TypeGraph} {m : MethodDecl} {references : References} {body : Body} {level : Nat → Nat}
  {code behind : List Instruction} {state : WovenState} {hook : MethodId} {k height depth : Nat}

theorem heightAfter_callTo (r : MethodRef) (height : Nat) :
    (Instruction.callTo g r).heightAfter g height =
      height - (g.method r.method).argumentCount + (g.method r.method).resultCount := by
  unfold Instruction.callTo
  split <;> rfl

theorem isTerminal_callTo (r : MethodRef) : (Instruction.callTo g r).isTerminal = false := by
  unfold Instruction.callTo
  split <;> rfl

/-- a call of a hook that takes the instance at hand only leaves behind what the hook returns -/
theorem reaches_callCode (h : body.Reaches level k height) (hl : body.Leveling g m level) (hb : body.Lists code)
    (hd : code.drop k = callCode g hook ++ behind) (hhook : (g.method hook).argumentCount = 1) :
    body.Reaches level (k + 2) (height + (g.method hook).resultCount) := by
  have hterminal : (callCode g hook).all fun i => !i.isTerminal := by
    simp only [callCode, List.all_cons, List.all_nil, isTerminal_callTo]
    rfl
  have hcall := h.through hl hb _ hd hterminal
  have hheight : Body.heightBehind g (callCode g hook) height = height + (g.method hook).resultCount := by
    change (Instruction.callTo g (.onSelf g hook)).heightAfter g (height + 1) = _
    rw [heightAfter_callTo, MethodRef.onSelf, hhook, Nat.add_sub_cancel]
  rwa [hheight] at hcall

/-- … and the disposed field is set without leaving anything behind -/
theorem reaches_setDisposedCode (h : body.Reaches level k height) (hl : body.Leveling g m level) (hb : body.Lists code)
    {disposed : FieldId} (hd : code.drop k = setDisposedCode g disposed ++ behind) :
    body.Reaches level (k + 3) height :=
  h.through hl hb _ hd rfl

/-- both ways out of the check leave nothing behind: the early return, and the way on -/
theorem reaches_escapeCode (hl : body.Leveling g m level) (hb : body.Lists code) (hr : references.Effects g)
    {signaled : FieldId} (hd : code = escapeCode g references signaled 0 ++ behind) :
    m.resultCount = 0 ∧ body.Reaches level 7 0 := by
  have hexchange : Body.heightBehind g ((escapeCode g references signaled 0).take 4) 0 = 1 := by
    change 2 - (g.method references.exchangeInt32).argumentCount + (g.method references.exchangeInt32).resultCount = 1
    rw [hr.exchangeInt32.1, hr.exchangeInt32.2]
  have htest : body.Reaches level 4 1 := by
    have hstart := hl.reaches_start.through hl hb ((escapeCode g references signaled 0).take 4) hd rfl
    rwa [hexchange] at hstart
  subst hd
  have hreturn : body.Reaches level 5 0 := htest.through hl hb [.brfalse ⟨6⟩] rfl rfl
  have hjump : body.Reaches level 6 0 := htest.jump hl hb rfl rfl (by simp [escapeCode])
  exact ⟨(hreturn.ret hl hb rfl).symm, hjump.through hl hb [.nop] rfl rfl⟩

end Pieces

/-! ## Generated bodies -/

section Bodies

variable {g : TypeGraph} {m : MethodDecl} {references : References} {state : WovenState} {fields : List FieldId}
  {hook managed unmanaged routine : MethodId} {depth : Nat}

theorem simpleEntry_returns (hr : references.Effects g)
    (h : (simpleEntry g references state fields).verify g m = .ok depth) : m.resultCount = 0 := by
  obtain ⟨level, hl⟩ := Body.leveling_of_verify h
  have hb := (simpleEntry_holds g references state fields).lists
  unfold simpleEntryCode at hb
  rw [List.append_assoc, List.append_assoc] at hb
  exact (reaches_escapeCode hl hb hr rfl).1

/-- behind the check, a hook is called, the disposed field is set, and what the hook returned is what is returned -/
theorem reaches_gateCode {body : Body} {level : Nat → Nat} {code : List Instruction} {k height : Nat}
    (h : body.Reaches level k height) (hl : body.Leveling g m level) (hb : body.Lists code)
    (hd : code.drop k = callCode g hook ++ (setDisposedCode g state.disposed ++ [.ret]))
    (hhook : (g.method hook).argumentCount = 1) : height + (g.method hook).resultCount = m.resultCount := by
  have hd' : code.drop (k + 2) = setDisposedCode g state.disposed ++ [.ret] := by
    rw [← List.drop_drop, hd]
    rfl
  have hd'' : code.drop (k + 2 + 3) = [.ret] := by
    rw [← List.drop_drop, hd']
    rfl
  exact (reaches_setDisposedCode (reaches_callCode h hl hb hd hhook) hl hb hd').ret hl hb hd''

theorem managedEntry_returns (hr : references.Effects g) (hhook : (g.method managed).argumentCount = 1)
    (h : (managedEntry g references state managed).verify g m = .ok depth) :
    m.resultCount = 0 ∧ (g.method managed).resultCount = 0 := by
  obtain ⟨level, hl⟩ := Body.leveling_of_verify h
  have hb := (managedEntry_holds g references state managed).lists
  unfold managedEntryCode at hb
  rw [List.append_assoc, List.append_assoc] at hb
  obtain ⟨hreturns, hchecked⟩ := reaches_escapeCode hl hb hr rfl
  have hgate := reaches_gateCode hchecked hl hb rfl hhook
  exact ⟨hreturns, by omega⟩

theorem entryThroughRoutine_returns (hr : references.Effects g)
    (hroutine : (g.method routine).argumentCount = 2 ∧ (g.method routine).resultCount = 0)
    (h : (entryThroughRoutine g references routine).verify g m = .ok depth) : m.resultCount = 0 := by
  obtain ⟨level, hl⟩ := Body.leveling_of_verify h
  have hb := (entryThroughRoutine_holds g references routine).lists
  have hreturn := hl.reaches_start.through hl hb ((entryThroughRoutineCode g references routine).take 5) rfl rfl
  have hheight : Body.heightBehind g ((entryThroughRoutineCode g references routine).take 5) 0 = 0 := by
    change 2 - (g.method routine).argumentCount + (g.method routine).resultCount + 1 -
      (g.method references.suppressFinalize).argumentCount + (g.method references.suppressFinalize).resultCount = 0
    rw [hroutine.1, hroutine.2, hr.suppressFinalize.1, hr.suppressFinalize.2]
  rw [hheight] at hreturn
  exact (hreturn.ret hl hb rfl).symm

/-- the managed hook is on one of two ways that come together, and the unmanaged one is on the only way to the return -/
theorem routine_returns (hr : references.Effects g) {managed : Option MethodId}
    (hmanaged : ∀ hook, managed = some hook → (g.method hook).argumentCount = 1)
    (hunmanaged : (g.method unmanaged).argumentCount = 1)
    (h : (Emission.routine g references state managed unmanaged).verify g m = .ok depth) :
    (∀ hook, managed = some hook → (g.method hook).resultCount = 0) ∧ (g.method unmanaged).resultCount = 0 := by
  obtain ⟨level, hl⟩ := Body.leveling_of_verify h
  have hb := (routine_holds g references state managed unmanaged).lists
  unfold routineCode at hb
  cases managed with
  | none =>
    rw [Option.elim_none, List.append_nil, List.append_assoc, List.append_assoc] at hb
    obtain ⟨hreturns, hchecked⟩ := reaches_escapeCode hl hb hr rfl
    have hgate := reaches_gateCode hchecked hl hb rfl hunmanaged
    exact ⟨fun hook hhook => (by cases hhook), by omega⟩
  | some hook =>
    rw [Option.elim_some, List.append_assoc, List.append_assoc, List.append_assoc] at hb
    obtain ⟨hreturns, hchecked⟩ := reaches_escapeCode hl hb hr rfl
    have htest : Body.Reaches _ level 8 1 := hchecked.through hl hb [.ldarg 1] rfl rfl
    have hskipped : Body.Reaches _ level 11 0 := htest.jump hl hb rfl rfl (by simp [escapeCode, managedCode, callCode])
    have hentered : Body.Reaches _ level 9 0 := htest.through hl hb [.brfalse ⟨11⟩] rfl rfl
    have hcalled := reaches_callCode hentered hl hb rfl (hmanaged hook rfl)
    have hreturned : (g.method hook).resultCount = 0 := by
      have hsame := hskipped.unique hcalled
      omega
    have hjoined : Body.Reaches _ level 12 0 := hskipped.through hl hb [.nop] rfl rfl
    have hgate := reaches_gateCode hjoined hl hb rfl hunmanaged
    refine ⟨fun hook' hhook => ?_, by omega⟩
    cases hhook
    exact hreturned

end Bodies

end Emission

/-! ## Types that are woven -/

section Woven

variable {settings : Settings} {g G : TypeGraph} {module module' : Module} {report : List (TypeId × Shape)}
  {t t' : TypeDef} {entry : MethodId} {fields : List FieldId} {fabric : Fabric} {noted : List Notice}

theorem returns_eq_none {m : MethodDecl} (h : m.resultCount = 0) : m.returns = none := by
  unfold MethodDecl.resultCount at h
  cases hm : m.returns with
  | none => rfl
  | some type => simp [hm] at h

/-- **What is generated for a type is accepted only if** its entry point and the hooks that are called return nothing. -/
theorem Tailored.returns (hu : Underway g G)
    (hd : Tailored settings Platform.alone.1.references g G t entry fabric noted t') {depth : Nat}
    (hentry : (fabric.arrangement.entryBody G Platform.alone.1.references fabric.state fields).verify G (G.method entry) =
      .ok depth)
    (hbodies : ∀ e ∈ fabric.bodies G Platform.alone.1.references fields t.id,
      ∃ depth, e.2.verify G (G.method e.1) = .ok depth) :
    (G.method entry).resultCount = 0 ∧
      (∀ m, fabric.arrangement.managed? = some m → (G.method m).resultCount = 0) ∧
      ∀ m, fabric.arrangement.unmanaged? = some m → (G.method m).resultCount = 0 := by
  obtain ⟨hmanaged, hunmanaged⟩ := hu.hooks_take hd.fits hd.suits
  cases ha : fabric.arrangement with
  | direct =>
    rw [ha] at hentry
    exact ⟨Emission.simpleEntry_returns hu.effects hentry, fun m hm => (by cases hm), fun m hm => (by cases hm)⟩
  | managed m =>
    rw [ha] at hentry hmanaged
    obtain ⟨hreturns, hhook⟩ := Emission.managedEntry_returns hu.effects (hmanaged m rfl) hentry
    refine ⟨hreturns, fun m' hm => ?_, fun m' hm => (by cases hm)⟩
    cases hm
    exact hhook
  | shared r m u f =>
    rw [ha] at hentry hmanaged hunmanaged
    have hcount : (G.method r).argumentCount = 2 ∧ (G.method r).resultCount = 0 := by
      rw [(hd.fits.routine r (by rw [ha]; rfl)).2]
      exact ⟨privateMethod_argumentCount _ _ _, resultCount_eq_zero rfl⟩
    obtain ⟨depth', hroutine⟩ := hbodies _ (Fabric.mem_bodies.2 (.routine ha))
    obtain ⟨hhook, hhook'⟩ := Emission.routine_returns hu.effects hmanaged (hunmanaged u rfl) hroutine
    refine ⟨Emission.entryThroughRoutine_returns hu.effects hcount hentry, hhook, fun u' hu' => ?_⟩
    cases hu'
    exact hhook'

end Woven

/-- **The contract of disposal is needed**: if the verifier accepts every body of a woven module, then the entry points and
hooks of the types that were woven return nothing. -/
theorem weave_returnsNothing {g : TypeGraph} {settings : Settings} {module : Module} {diagnostics : Diagnostics}
    {outcome : Report} {woven : Session} (hg : Platform.alone.2.GrownFrom g) (hm : module.Coherent g)
    (hw : Session.weave settings { graph := g, module, diagnostics } = .ok outcome woven)
    (hv : ∀ e ∈ woven.module.bodies, ∃ depth, e.2.verify woven.graph (woven.graph.method e.1) = .ok depth) :
    ∀ t t', module.WovenInto woven.module t t' → ReturnsNothing settings g t := by
  intro t t' hwoven
  have hturned := weave_turns hg hm hw
  have hu : Underway g woven.graph := ⟨hg, hturned.gains⟩
  obtain ⟨entry, fabric, noted, -, hsole, hd⟩ := hturned.tailored hwoven
  obtain ⟨ht, ht'⟩ := List.of_mem_zip hwoven.1
  have hgenerated : ∀ e ∈ fabric.generated woven.graph Platform.alone.1.references
      (Selection.disposedFields g Platform.alone.1.references settings [] t.fields.reverse) t.id entry,
      ∃ depth, e.2.verify woven.graph (woven.graph.method e.1) = .ok depth := by
    intro e he
    obtain ⟨d, hmem, hid, hbody⟩ := hd.generated rfl he
    exact hid ▸ hv (d.id, e.2) (Module.mem_bodies ht' hmem hbody)
  obtain ⟨depth, hentry⟩ := hgenerated _ List.mem_cons_self
  obtain ⟨hreturns, hmanaged, hunmanaged⟩ := hd.returns hu hentry fun e he => hgenerated e (List.mem_cons_of_mem _ he)
  have hauthored : ∀ m : MethodId, m.index < g.methods.size → (woven.graph.method m).resultCount = 0 →
      (g.method m).returns = none := by
    intro m hlt hcount
    rw [← hturned.gains.method m hlt]
    exact returns_eq_none hcount
  have hdeclaredHook : ∀ {name : MemberName} {m : MethodId}, Selection.hook? g t.id name = some m →
      m.index < g.methods.size := hook_declared hm.lists
  constructor
  case entry =>
    intro m hmem
    obtain rfl : m = entry := by rwa [hsole, List.mem_singleton] at hmem
    obtain ⟨d, hdt, rfl⟩ := List.mem_map.1 hd.entry_mem
    exact hauthored d.id (hm.methods t ht d hdt) hreturns
  case managed =>
    intro m hhook
    exact hauthored m (hdeclaredHook hhook) (hmanaged m (by rw [hd.suits.managed, hhook]; rfl))
  case unmanaged =>
    intro m hhook
    exact hauthored m (hdeclaredHook hhook) (hunmanaged m (by rw [hd.suits.unmanaged, hhook]))

end DisposalWeaver
