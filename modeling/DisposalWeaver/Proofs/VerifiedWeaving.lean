/-
Every woven body verifies.

A body of a woven module is one that the module had before, such a body behind a guard, or a generated one. The first two
pass the verifier as they did, the guarded ones with a stack that is at least 1 high, since a later graph says the same
about the members that they name (`WovenModule.reworked_verify`); generated code passes because entry points and hooks
take the instance at hand and return nothing (`WovenModule.entryBody_verify`, `WovenModule.fabric_verify`).
-/
import DisposalWeaver.Proofs.ConservativeWeaving
import DisposalWeaver.Proofs.LeveledCode
import DisposalWeaver.Proofs.MovedBodies

namespace DisposalWeaver

/-- entry points and hooks of the type return nothing, as the contract of disposal has it -/
structure ReturnsNothing (settings : Settings) (g : TypeGraph) (t : TypeDef) : Prop where
  entry : ∀ m ∈ Selection.entryMethods g settings t, (g.method m).returns = none
  managed : ∀ m, Selection.hook? g t.id settings.managedHook = some m → (g.method m).returns = none
  unmanaged : ∀ m, Selection.hook? g t.id settings.unmanagedHook = some m → (g.method m).returns = none

/-! ## What generated code calls -/

section Calls

variable {settings : Settings} {g h G : TypeGraph} {t : TypeDef} {m : MethodDecl} {fields : List FieldId} {fabric : Fabric}

theorem resultCount_eq_zero (hm : m.returns = none) : m.resultCount = 0 := by
  unfold MethodDecl.resultCount
  rw [hm]
  rfl

theorem argumentCount_pos (hm : m.isStatic = false) : 0 < m.argumentCount := by
  unfold MethodDecl.argumentCount
  rw [hm]
  exact Nat.succ_pos _

/-- the platform's methods take and leave what they did when it was alone -/
theorem Underway.effects (hu : Underway g h) : Platform.alone.1.references.Effects h := by
  constructor <;> rw [hu.method (by decide +kernel)] <;> decide +kernel

/-- a hook that the type declares takes the instance at hand only, also in a graph that has gained members -/
theorem Underway.hook_takes (hu : Underway g h) {name : MemberName} {hook : MethodId}
    (hhook : Selection.hook? g t.id name = some hook) : (h.method hook).argumentCount = 1 := by
  have hdeclared := hook_declared (hu.grown.listsDeclared Platform.alone_listsDeclared) hhook
  have hfound := List.find?_some hhook
  simp only [Bool.and_eq_true, Bool.not_eq_true', MethodDecl.hasSignature, MethodDecl.parameterNames, beq_iff_eq,
    List.map_eq_nil_iff] at hfound
  rw [hu.gains.method hook hdeclared, MethodDecl.argumentCount, hfound.1, hfound.2.2]
  rfl

/-- the hooks that an arrangement calls take the instance at hand only -/
theorem Underway.hooks_take (hu : Underway g G) (hf : fabric.Fits settings Platform.alone.1.references g G t.id)
    (hs : fabric.Suits settings g t.id fields) :
    (∀ m, fabric.arrangement.managed? = some m → (G.method m).argumentCount = 1) ∧
      ∀ m, fabric.arrangement.unmanaged? = some m → (G.method m).argumentCount = 1 := by
  constructor
  · intro m hm
    rw [hs.managed] at hm
    rcases Option.or_eq_some_iff.1 hm with hm | ⟨-, hm⟩
    · exact hu.hook_takes hm
    · rw [(hf.derived m hm).2]
      exact privateMethod_argumentCount _ _ _
  · intro m hm
    rw [hs.unmanaged] at hm
    exact hu.hook_takes hm

/-- … and return nothing, if those do that the type declares -/
theorem Underway.hooks (hu : Underway g G) (hf : fabric.Fits settings Platform.alone.1.references g G t.id)
    (hs : fabric.Suits settings g t.id fields) (hr : ReturnsNothing settings g t) :
    (∀ m, fabric.arrangement.managed? = some m → IsHook G m) ∧
      ∀ m, fabric.arrangement.unmanaged? = some m → IsHook G m := by
  obtain ⟨hmanaged, hunmanaged⟩ := hu.hooks_take hf hs
  have hdeclared : ∀ {name m}, Selection.hook? g t.id name = some m → (g.method m).returns = none →
      (G.method m).resultCount = 0 := fun hhook hreturns => by
    rw [hu.gains.method _ (hook_declared (hu.grown.listsDeclared Platform.alone_listsDeclared) hhook)]
    exact resultCount_eq_zero hreturns
  constructor
  · intro m hm
    refine ⟨hmanaged m hm, ?_⟩
    rw [hs.managed] at hm
    rcases Option.or_eq_some_iff.1 hm with hm | ⟨-, hm⟩
    · exact hdeclared hm (hr.managed m hm)
    · rw [(hf.derived m hm).2]
      exact resultCount_eq_zero rfl
  · intro m hm
    refine ⟨hunmanaged m hm, ?_⟩
    rw [hs.unmanaged] at hm
    exact hdeclared hm (hr.unmanaged m hm)

end Calls

/-! ## Bodies of the woven module -/

section Bodies

variable {settings : Settings} {g G : TypeGraph} {module module' : Module} {report : List (TypeId × Shape)}
  {t t' : TypeDef} {entry : MethodId} {fields : List FieldId} {fabric : Fabric} {noted : List Notice}
  {e : MethodId × Body} {d d' : MethodDef} {body : Body} {depth : Nat}

/-- **The rewritten entry point** is accepted. -/
theorem WovenModule.entryBody_verify (hw : WovenModule settings g module G module' report) (ht : t ∈ module.types)
    (hsole : Selection.entryMethods g settings t = [entry])
    (hd : Tailored settings Platform.alone.1.references g G t entry fabric noted t') (hr : ReturnsNothing settings g t)
    (fields : List FieldId) : ∃ depth,
      (fabric.arrangement.entryBody G Platform.alone.1.references fabric.state fields).verify G (G.method entry) =
        .ok depth := by
  have hu : Underway g G := ⟨hw.grown, hw.gains⟩
  have hisEntry : entry ∈ Selection.entryMethods g settings t := hsole ▸ List.mem_singleton_self entry
  obtain ⟨hentry, hselected⟩ := List.mem_filter.1 hisEntry
  simp only [Bool.and_eq_true, Bool.not_eq_true'] at hselected
  obtain ⟨d, hdef, rfl⟩ := List.mem_map.1 hentry
  have hmethod : G.method d.id = g.method d.id := hw.gains.method _ (hw.coherent.methods t ht d hdef)
  have hthis : 0 < (G.method d.id).argumentCount := hmethod ▸ argumentCount_pos hselected.1
  have hreturns : (G.method d.id).resultCount = 0 := hmethod ▸ resultCount_eq_zero (hr.entry d.id hisEntry)
  obtain ⟨hmanaged, hunmanaged⟩ := hu.hooks hd.fits hd.suits hr
  cases ha : fabric.arrangement with
  | direct => exact Emission.simpleEntry_verify hu.effects hthis hreturns fabric.state fields
  | managed m =>
    exact Emission.managedEntry_verify hu.effects hthis hreturns fabric.state (hmanaged m (by rw [ha]; rfl))
  | shared r m u f =>
    have hroutine := (hd.fits.routine r (by rw [ha]; rfl)).2
    exact Emission.entryThroughRoutine_verify hu.effects hthis hreturns
      (by rw [hroutine]; exact ⟨privateMethod_argumentCount _ _ _, resultCount_eq_zero rfl⟩)

/-- **The bodies of a fabric** are accepted. -/
theorem WovenModule.fabric_verify (hw : WovenModule settings g module G module' report)
    (hd : Tailored settings Platform.alone.1.references g G t entry fabric noted t')
    (hr : ReturnsNothing settings g t) (he : e ∈ fabric.bodies G Platform.alone.1.references fields t.id) :
    ∃ depth, e.2.verify G (G.method e.1) = .ok depth := by
  have hu : Underway g G := ⟨hw.grown, hw.gains⟩
  obtain ⟨hmanaged, hunmanaged⟩ := hu.hooks hd.fits hd.suits hr
  have hplain : ∀ name, 0 < (Weave.privateMethod t.id name []).argumentCount := fun name => by
    rw [privateMethod_argumentCount]
    exact Nat.succ_pos _
  have hshared : ∀ {r u m f}, fabric.arrangement = .shared r m u f →
      (G.method r).argumentCount = 2 ∧ (G.method r).resultCount = 0 := fun ha => by
    rw [(hd.fits.routine _ (by rw [ha]; rfl)).2]
    exact ⟨privateMethod_argumentCount _ _ _, resultCount_eq_zero rfl⟩
  cases Fabric.mem_bodies.1 he with
  | derived hm =>
    rw [(hd.fits.derived _ hm).2]
    exact Emission.derivedHook_verify hu.effects (hplain _) (resultCount_eq_zero rfl) fields
  | guard =>
    rw [hd.fits.state.guard.2]
    exact Emission.guard_verify hu.effects (hplain _) (resultCount_eq_zero rfl) t.id fabric.state.disposed
  | routine ha =>
    obtain ⟨hcount, hreturns⟩ := hshared ha
    rw [ha] at hmanaged hunmanaged
    exact Emission.routine_verify hu.effects (by omega) hreturns fabric.state (by omega) hmanaged (hunmanaged _ rfl)
  | finalizer ha =>
    rw [(hd.fits.finalizer _ (by rw [ha]; rfl)).2]
    refine Emission.finalizer_verify hu.effects (argumentCount_pos ?_) (resultCount_eq_zero rfl) (hshared ha)
    change MethodFlags.ofFinalizer.isStatic = false
    decide +kernel

/-- the stack effects of a body are what they were before its graph gained members -/
theorem TypeGraph.Gains.effects {body : Body} (hG : g.Gains G) (hb : body.Known g) :
    ∀ k i, body.fetch? k = some i → i.stackEffect G = i.stackEffect g := by
  intro k i hi
  unfold Body.fetch? at hi
  obtain ⟨handle, -, hi⟩ := Option.bind_eq_some_iff.1 hi
  unfold Body.instruction? at hi
  obtain ⟨slot, hslot, rfl⟩ := Option.map_eq_some_iff.1 hi
  have hknown := hb slot (Array.mem_of_getElem? hslot)
  cases hinstruction : slot.instruction with
  | call m | callvirt m | newobj m =>
    rw [hinstruction] at hknown
    simp only [Instruction.stackEffect, hG.method _ hknown]
  | _ => rfl

/-- a body without jumps out of what is known stays where it is -/
theorem TypeGraph.Gains.moved {body : Body} (hG : g.Gains G) (hb : body.Known g) : Body.Moved g G 0 body body :=
  ⟨fun _ => rfl, fun _ _ h => h, rfl, rfl, rfl, hG.effects hb⟩

/-- what has become of a body that was accepted with some depth: it stays and is accepted with that depth, or it is behind
calls of a guard and is accepted with a depth of at least 1 -/
inductive Reverified (G : TypeGraph) (m : MethodId) (body : Body) (depth : Nat) (body' : Body) : Prop where
  | kept (hsame : body' = body) (hverified : body'.verify G (G.method m) = .ok depth)
  | guarded {guard} (hbehind : Relation.TransGen (Body.BehindGuard guard) body body')
    (hverified : body'.verify G (G.method m) = .ok (max depth 1))

/-- the verifier accepts it in any case -/
theorem Reverified.verifies {m : MethodId} {body' : Body} (h : Reverified G m body depth body') :
    ∃ depth', body'.verify G (G.method m) = .ok depth' := by
  cases h with
  | kept _ hverified => exact ⟨_, hverified⟩
  | guarded _ hverified => exact ⟨_, hverified⟩

/-- a body that the module keeps is accepted as before -/
theorem WovenModule.kept_verify (hw : WovenModule settings g module G module' report) (he : e ∈ module.bodies)
    (hv : e.2.verify g (g.method e.1) = .ok depth) : e.2.verify G (G.method e.1) = .ok depth := by
  rw [hw.gains.method e.1 (hw.coherent.declared he)]
  exact Body.verify_unmoved (hw.gains.moved (hw.coherent.known _ he)) hv

/-- **A body that was reworked** is accepted: it is what it was, or has the guard of a fabric in front. -/
theorem WovenModule.reworked_verify (hw : WovenModule settings g module G module' report) (he : (d.id, body) ∈ module.bodies)
    (hbody : d.body = some body) {state : WovenState}
    (hstate : state.Fits settings Platform.alone.1.references g G t.id)
    (hr : Reworked g entry (MethodRef.onSelf G state.guard) d d') (hne : d.id ≠ entry)
    (hv : body.verify g (g.method d.id) = .ok depth) :
    ∃ body', d'.body = some body' ∧ Reverified G d.id body depth body' := by
  obtain ⟨body', hbody', hbehind⟩ := hr.body hne body hbody
  refine ⟨body', hbody', ?_⟩
  rcases Relation.reflTransGen_iff_eq_or_transGen.1 hbehind with rfl | hbehind
  · exact .kept rfl (hw.kept_verify he hv)
  cases hstatic : (g.method d.id).isStatic with
  | true =>
    have hsame := hr.ofType hne hstatic
    rw [hbody', hbody] at hsame
    cases hsame
    exact .kept rfl (hw.kept_verify he hv)
  | false =>
    have hguard : G.method (MethodRef.onSelf G state.guard).method = Weave.privateMethod t.id settings.guardMethod [] :=
      hstate.guard.2
    refine .guarded hbehind ?_
    rw [hw.gains.method d.id (hw.coherent.declared he)]
    refine (Body.verify_behind (hw.coherent.created _ he) (hw.gains.effects (hw.coherent.known _ he))
      (argumentCount_pos hstatic) ?_ ?_ hv hbehind).2
    · rw [hguard, privateMethod_argumentCount]
      rfl
    · rw [hguard]
      exact resultCount_eq_zero rfl

end Bodies

section Sessions

variable {settings : Settings} {g : TypeGraph} {module : Module} {diagnostics : Diagnostics} {outcome : Report}
  {woven : Session}

/-- **Every woven body verifies.** Take a module of which the verifier accepts every body, woven over a graph that grew
from the platform, and let the entry points and hooks of the types that are woven return nothing. Then the verifier
accepts every body of the woven module. A body that was not replaced is still that of its method, in its place, and is
accepted with the depth that it had, or it is behind a guard and is accepted with a depth of at least 1. -/
theorem weave_verifies (hg : Platform.alone.2.GrownFrom g) (hm : module.Coherent g)
    (hw : Session.weave settings { graph := g, module, diagnostics } = .ok outcome woven)
    (hv : ∀ e ∈ module.bodies, ∃ depth, e.2.verify g (g.method e.1) = .ok depth)
    (hr : ∀ t t', module.WovenInto woven.module t t' → ReturnsNothing settings g t) :
    (∀ e ∈ woven.module.bodies, ∃ depth, e.2.verify woven.graph (woven.graph.method e.1) = .ok depth) ∧
    ∀ t t', (t, t') ∈ module.types.zip woven.module.types → ∀ d ∈ t.methods, ∀ body, d.body = some body →
      ¬ (module.WovenInto woven.module t t' ∧ d.id ∈ Selection.entryMethods g settings t) →
      ∀ depth, body.verify g (g.method d.id) = .ok depth →
        ∃ d' ∈ t'.methods, d'.id = d.id ∧ ∃ body', d'.body = some body' ∧
          Reverified woven.graph d.id body depth body' := by
  have hturned := weave_turns hg hm hw
  constructor
  · intro e he
    obtain ⟨t', ht', d', hd', hid, hbody'⟩ := Module.exists_of_mem_bodies he
    obtain ⟨t, hz, hbecomes⟩ := hturned.backward ht'
    have ht := (List.of_mem_zip hz).1
    cases hbecomes with
    | kept _ _ hmethods =>
      have hold : e ∈ module.bodies := Module.mem_bodies_iff.2
        ⟨d', List.mem_flatMap.2 ⟨t, ht, hmethods ▸ hd'⟩, hid, hbody'⟩
      obtain ⟨depth, hdepth⟩ := hv e hold
      exact ⟨depth, hturned.kept_verify hold hdepth⟩
    | woven _ hsole htailored =>
      have hreturns := hr t t' (WovenModule.wovenInto hz htailored)
      rcases htailored.method rfl hd' with ⟨e', he', hid', hbody⟩ | ⟨d, hd, hne, hreworked⟩
      · obtain rfl : e = e' := Prod.ext (hid.symm.trans hid') (Option.some.inj (hbody'.symm.trans hbody))
        rcases List.mem_cons.1 he' with rfl | hfabric
        · exact hturned.entryBody_verify ht hsole htailored hreturns _
        · exact hturned.fabric_verify htailored hreturns hfabric
      · obtain ⟨body, hbody, -⟩ := hreworked.exists_body hne hbody'
        have hold := Module.mem_bodies ht hd hbody
        obtain ⟨depth, hdepth⟩ := hv _ hold
        obtain ⟨body', hsame, hverified⟩ :=
          hturned.reworked_verify hold hbody htailored.fits.state hreworked hne hdepth
        cases hbody'.symm.trans hsame
        rw [← hid, hreworked.id]
        exact hverified.verifies
  · intro t t' hz d hd body hbody hentry depth hdepth
    have hold := Module.mem_bodies (List.of_mem_zip hz).1 hd hbody
    cases hturned.pair hz with
    | kept _ _ hmethods =>
      exact ⟨d, hmethods ▸ hd, rfl, body, hbody, .kept rfl (hturned.kept_verify hold hdepth)⟩
    | @woven entry fabric _ _ hsole htailored =>
      have hne : d.id ≠ entry := fun heq => hentry
        ⟨WovenModule.wovenInto hz htailored, by rw [hsole, heq]; exact List.mem_singleton_self _⟩
      obtain ⟨d', hd', hreworked⟩ := htailored.forward hd
      obtain ⟨body', hbody', hverified⟩ :=
        hturned.reworked_verify hold hbody htailored.fits.state hreworked hne hdepth
      exact ⟨d', hd', hreworked.id, body', hbody', hverified⟩

end Sessions

namespace Specimen

theorem returnsNothing : ∀ t t', module.WovenInto woven.module t t' → ReturnsNothing {} graph t := by
  intro t t' hwoven
  have ht := (List.of_mem_zip hwoven.1).1
  have hentry : ∀ t ∈ module.types, ∀ m ∈ Selection.entryMethods graph {} t, (graph.method m).returns = none := by
    decide +kernel
  have hmanaged : Selection.hook? graph resource ({} : Settings).managedHook = none := by decide +kernel
  have hunmanaged : Selection.hook? graph resource ({} : Settings).unmanagedHook = some release := by decide +kernel
  have hrelease : (graph.method release).returns = none := by decide +kernel
  refine ⟨hentry t ht, fun m hm => ?_, fun m hm => ?_⟩ <;> rw [List.mem_singleton.1 ht] at hm
  · cases hmanaged.symm.trans hm
  · cases hunmanaged.symm.trans hm
    exact hrelease

/-- the method that reads is behind the guard in the woven module, and is accepted with a depth of at least 1 -/
theorem woven_verified :
    (∀ e ∈ woven.module.bodies, ∃ depth, e.2.verify woven.graph (woven.graph.method e.1) = .ok depth) ∧
    ∃ depth body', (Body.empty.append [.ldc 1, .ret]).verify graph (graph.method read) = .ok depth ∧
      (read, body') ∈ woven.module.bodies ∧ body'.slots.size = 4 ∧
      Reverified woven.graph read (Body.empty.append [.ldc 1, .ret]) depth body' := by
  obtain ⟨hall, hkept⟩ := weave_verifies grown coherent weave_ok verified returnsNothing
  have hread : (read, Body.empty.append [.ldc 1, .ret]) ∈ module.bodies := by decide
  obtain ⟨t, ht, d, hd, (hid : d.id = read), hbody⟩ := Module.exists_of_mem_bodies hread
  obtain ⟨t', hz⟩ : ∃ t', (t, t') ∈ module.types.zip woven.module.types := by
    have hlength : module.types.length = woven.module.types.length := by decide +kernel
    have hmem := ht
    rw [← List.map_fst_zip (Nat.le_of_eq hlength)] at hmem
    obtain ⟨pair, hpair, rfl⟩ := List.mem_map.1 hmem
    exact ⟨pair.2, hpair⟩
  have hentry : ∀ t ∈ module.types, read ∉ Selection.entryMethods graph {} t := by decide +kernel
  have hlonger : ∀ e ∈ woven.module.bodies, e.1 = read → e.2.slots.size = 4 := by decide +kernel
  obtain ⟨depth, hdepth⟩ := verified _ hread
  obtain ⟨d', hd', hid', body', hbody', hverified⟩ := hkept t t' hz d hd _ hbody
    (fun h => hentry t ht (hid ▸ h.2)) depth (by rw [hid]; exact hdepth)
  have hmem := Module.mem_bodies (List.of_mem_zip hz).2 hd' hbody'
  rw [hid', hid] at hmem
  exact ⟨hall, depth, body', hdepth, hmem, hlonger _ hmem rfl, hid ▸ hverified⟩

end Specimen

end DisposalWeaver
