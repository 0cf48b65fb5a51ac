/-
Generated code under a renumbering.

Two graphs that have grown from one by declarations of the same members in other places are `Mirrors` of each other. Code
that is generated over the one for members in their places is, renumbered, what is generated over the other
(`Mirrors.escapeCheck` and the like), and it names only members that are declared there (`Body.Known.escapeCheck` and the
like).
-/
import DisposalWeaver.Proofs.Renumbering

namespace DisposalWeaver

/-! ## Renumbering and building -/

namespace Body

variable {ρ : Renumbering} {body : Body}

@[simp] theorem renumber_empty : empty.renumber ρ = empty := by simp [renumber, empty]

@[simp] theorem nextHandle_renumber : (body.renumber ρ).nextHandle = body.nextHandle := by
  simp [nextHandle, renumber]

@[simp] theorem locals_renumber : (body.renumber ρ).locals = body.locals := rfl

@[simp] theorem renumber_push (i : Instruction) :
    ((body.renumber ρ).push (i.renumber ρ)).2 = (body.push i).2.renumber ρ := by
  simp [push, renumber, nextHandle]

theorem renumber_append (code : List Instruction) :
    (body.append code).renumber ρ = (body.renumber ρ).append (code.map (Instruction.renumber ρ)) := by
  unfold append
  induction code generalizing body with
  | nil => rfl
  | cons i rest ih => rw [List.foldl_cons, ih, List.map_cons, List.foldl_cons, renumber_push]

theorem addLocal_renumber (type : TypeRef) :
    (body.renumber ρ).addLocal type = ((body.addLocal type).1, (body.addLocal type).2.renumber ρ) :=
  rfl

theorem renumber_addHandler (handler : Handler) :
    (body.addHandler handler).renumber ρ = (body.renumber ρ).addHandler handler :=
  rfl

theorem renumber_guarded (guard : MethodRef) :
    (Emission.guarded guard body).renumber ρ = Emission.guarded (guard.renumber ρ) (body.renumber ρ) := by
  have hinserted : ((body.renumber ρ).insertAtStart [.ldarg 0, .call (guard.renumber ρ)]).2 =
      (body.insertAtStart [.ldarg 0, .call guard]).2.renumber ρ := by
    simp [insertAtStart, renumber, Instruction.renumber]
  have hhandles : ((body.renumber ρ).insertAtStart [.ldarg 0, .call (guard.renumber ρ)]).1 =
      (body.insertAtStart [.ldarg 0, .call guard]).1 := by
    simp [insertAtStart, renumber]
  have hpoints : (body.renumber ρ).points = body.points := rfl
  unfold Emission.guarded
  simp only [hinserted, hhandles, hpoints]
  split <;> rfl

theorem Known.append {g : TypeGraph} (h : body.Known g) {code : List Instruction} (hcode : ∀ i ∈ code, i.Known g) :
    (body.append code).Known g := by
  unfold Body.append
  induction code generalizing body with
  | nil => exact h
  | cons i rest ih =>
    refine ih (fun slot hslot => ?_) fun j hj => hcode j (List.mem_cons_of_mem _ hj)
    rcases Array.mem_push.1 hslot with hslot | rfl
    · exact h slot hslot
    · exact hcode i List.mem_cons_self

theorem Known.empty (g : TypeGraph) : Body.empty.Known g := fun slot hslot => by simp [Body.empty] at hslot

theorem Known.guarded {g : TypeGraph} (h : body.Known g) {guard : MethodRef} (hguard : guard.method.index < g.methods.size) :
    (Emission.guarded guard body).Known g := by
  have hslots : (Emission.guarded guard body).slots =
      body.slots ++ #[⟨.ldarg 0, true⟩, ⟨.call guard, true⟩] := by
    unfold Emission.guarded
    simp only [insertAtStart]
    split <;> rfl
  intro slot hslot
  rw [hslots, Array.mem_append] at hslot
  rcases hslot with hslot | hslot
  · exact h slot hslot
  · simp only [List.mem_toArray, List.mem_cons, List.not_mem_nil, or_false] at hslot
    rcases hslot with rfl | rfl
    · trivial
    · exact hguard

end Body

theorem Instruction.known_callTo {g k : TypeGraph} {r : MethodRef} :
    (Instruction.callTo k r).Known g ↔ r.method.index < g.methods.size := by
  unfold callTo
  split <;> rfl

/-! ## The state of a type -/

def WovenState.renumber (ρ : Renumbering) (state : WovenState) : WovenState where
  signaled := ρ.field state.signaled
  disposed := ρ.field state.disposed
  guard := ρ.method state.guard

/-- the members of the state are declared -/
structure WovenState.Within (g : TypeGraph) (state : WovenState) : Prop where
  signaled : state.signaled.index < g.fields.size
  disposed : state.disposed.index < g.fields.size
  guard : state.guard.index < g.methods.size

/-! ## Graphs that mirror each other -/

/-- two graphs have gained members since the first, and the second declares those of the other in the places that the
renumbering gives them -/
structure TypeGraph.Mirrors (g : TypeGraph) (ρ : Renumbering) (G H : TypeGraph) : Prop where
  fixes : ρ.Fixes g
  left : g.Gains G
  right : g.Gains H
  method : ∀ m, m.index < G.methods.size → H.method (ρ.method m) = G.method m
  field : ∀ f, f.index < G.fields.size → H.field (ρ.field f) = G.field f
  nextMethod : ∀ k, ρ.method ⟨G.methods.size + k⟩ = ⟨H.methods.size + k⟩
  nextField : ∀ k, ρ.field ⟨G.fields.size + k⟩ = ⟨H.fields.size + k⟩

namespace TypeGraph.Mirrors

variable {g G H : TypeGraph} {ρ : Renumbering} {references : References} {state : WovenState} {b : Body}

section

variable (hm : g.Mirrors ρ G H)

include hm

theorem name (t : TypeId) : (H.type t).name = (G.type t).name := by rw [hm.right.name, hm.left.name]

theorem selfReference (t : TypeId) : H.selfReference t = G.selfReference t := by
  rw [hm.right.selfReference, hm.left.selfReference]

theorem hasSignature (m : MethodDecl) (name : String) (parameters : List String) :
    m.hasSignature H name parameters = m.hasSignature G name parameters := by
  rw [hm.right.hasSignature, hm.left.hasSignature]

theorem fieldOnSelf {f : FieldId} (hf : f.index < G.fields.size) :
    FieldRef.onSelf H (ρ.field f) = (FieldRef.onSelf G f).renumber ρ := by
  simp only [FieldRef.onSelf, FieldRef.renumber, hm.field f hf, hm.selfReference]

theorem methodOnSelf {m : MethodId} (hlt : m.index < G.methods.size) :
    MethodRef.onSelf H (ρ.method m) = (MethodRef.onSelf G m).renumber ρ := by
  simp only [MethodRef.onSelf, MethodRef.renumber, hm.method m hlt, hm.selfReference]

/-- what generated code refers to of old is in its place -/
theorem methodDirect {m : MethodId} (hlt : m.index < g.methods.size) :
    MethodRef.direct H m = (MethodRef.direct G m).renumber ρ := by
  have hplace : ρ.method m = m := hm.fixes.method m hlt
  simp only [MethodRef.direct, MethodRef.renumber, hm.right.method m hlt, hm.left.method m hlt, hplace]

theorem callTo {r : MethodRef} (hr : r.method.index < G.methods.size) :
    Instruction.callTo H (r.renumber ρ) = (Instruction.callTo G r).renumber ρ := by
  unfold Instruction.callTo
  rw [show (r.renumber ρ).method = ρ.method r.method from rfl, hm.method r.method hr]
  split <;> rfl

/-! ## Pieces -/

theorem escapeCheck (hr : references.Declared g) {signaled : FieldId} (hf : signaled.index < G.fields.size) :
    Emission.escapeCheck H references (ρ.field signaled) (b.renumber ρ) =
      (Emission.escapeCheck G references signaled b).renumber ρ := by
  simp only [Emission.escapeCheck, Body.renumber_append, Body.nextHandle_renumber, hm.fieldOnSelf hf,
    hm.methodDirect hr.exchangeInt32]
  rfl

theorem setDisposed {disposed : FieldId} (hf : disposed.index < G.fields.size) :
    Emission.setDisposed H (ρ.field disposed) (b.renumber ρ) = (Emission.setDisposed G disposed b).renumber ρ := by
  simp only [Emission.setDisposed, Body.renumber_append, hm.fieldOnSelf hf]
  rfl

theorem callOnThis {m : MethodId} (hlt : m.index < G.methods.size) :
    Emission.callOnThis H (ρ.method m) (b.renumber ρ) = (Emission.callOnThis G m b).renumber ρ := by
  simp only [Emission.callOnThis, Body.renumber_append, hm.methodOnSelf hlt,
    hm.callTo (r := MethodRef.onSelf G m) hlt]
  rfl

theorem managedUnlessFinalizing {m : MethodId} (hlt : m.index < G.methods.size) :
    Emission.managedUnlessFinalizing H (ρ.method m) (b.renumber ρ) =
      (Emission.managedUnlessFinalizing G m b).renumber ρ := by
  have hstart : (b.renumber ρ).append [.ldarg 1, .brfalse ((b.renumber ρ).nextHandle.after 4)] =
      (b.append [.ldarg 1, .brfalse (b.nextHandle.after 4)]).renumber ρ := by
    rw [Body.renumber_append, Body.nextHandle_renumber]
    rfl
  unfold Emission.managedUnlessFinalizing
  rw [hstart, hm.callOnThis hlt, Body.renumber_append]
  rfl

theorem disposal (hr : references.Declared g) {f : FieldId} (hf : f.index < G.fields.size) :
    Emission.disposal H references (ρ.field f) (b.renumber ρ) = (Emission.disposal G references f b).renumber ρ := by
  unfold Emission.disposal
  simp only [hm.field f hf, hm.methodDirect hr.exchangeReference]
  split
  · simp only [Emission.constrainedDisposal, Body.renumber_append, Body.addLocal_renumber, Body.nextHandle_renumber,
      hm.field f hf, hm.fieldOnSelf hf, hm.methodDirect hr.dispose]
    rfl
  · simp only [Emission.referenceDisposal, Body.renumber_append, Body.nextHandle_renumber, hm.fieldOnSelf hf,
      hm.methodDirect hr.dispose]
    rfl

theorem disposals (hr : references.Declared g) {fields : List FieldId} (hf : ∀ f ∈ fields, f.index < G.fields.size) :
    Emission.disposals H references (fields.map ρ.field) (b.renumber ρ) =
      (Emission.disposals G references fields b).renumber ρ := by
  induction fields generalizing b with
  | nil => rfl
  | cons f rest ih =>
    simp only [Emission.disposals, List.map_cons, List.foldl_cons] at ih ⊢
    rw [hm.disposal hr (hf f List.mem_cons_self), ih fun f' hf' => hf f' (List.mem_cons_of_mem _ hf')]

/-! ## Whole bodies -/

theorem simpleEntry (hr : references.Declared g) {fields : List FieldId} (hs : state.Within G)
    (hf : ∀ f ∈ fields, f.index < G.fields.size) :
    Emission.simpleEntry H references (state.renumber ρ) (fields.map ρ.field) =
      (Emission.simpleEntry G references state fields).renumber ρ := by
  have hstart := hm.escapeCheck (b := Body.empty) hr hs.signaled
  rw [Body.renumber_empty] at hstart
  simp only [Emission.simpleEntry, WovenState.renumber, Body.renumber_append, hstart, hm.disposals hr hf,
    hm.setDisposed hs.disposed]
  rfl

theorem derivedHook (hr : references.Declared g) {fields : List FieldId} (hf : ∀ f ∈ fields, f.index < G.fields.size) :
    Emission.derivedHook H references (fields.map ρ.field) = (Emission.derivedHook G references fields).renumber ρ := by
  have hstart := hm.disposals (b := Body.empty) hr hf
  rw [Body.renumber_empty] at hstart
  simp only [Emission.derivedHook, Body.renumber_append, hstart]
  rfl

theorem guard (hr : references.Declared g) (t : TypeId) {disposed : FieldId} (hf : disposed.index < G.fields.size) :
    Emission.guard H references t (ρ.field disposed) = (Emission.guard G references t disposed).renumber ρ := by
  simp only [Emission.guard, Body.renumber_append, Body.renumber_empty, hm.fieldOnSelf hf, hm.name,
    hm.methodDirect hr.disposedConstructor]
  rfl

theorem managedEntry (hr : references.Declared g) (hs : state.Within G) {m : MethodId} (hlt : m.index < G.methods.size) :
    Emission.managedEntry H references (state.renumber ρ) (ρ.method m) =
      (Emission.managedEntry G references state m).renumber ρ := by
  have hstart := hm.escapeCheck (b := Body.empty) hr hs.signaled
  rw [Body.renumber_empty] at hstart
  simp only [Emission.managedEntry, WovenState.renumber, Body.renumber_append, hstart, hm.callOnThis hlt,
    hm.setDisposed hs.disposed]
  rfl

theorem routine (hr : references.Declared g) (hs : state.Within G) {managed : Option MethodId} {unmanaged : MethodId}
    (hmanaged : ∀ m, managed = some m → m.index < G.methods.size) (hunmanaged : unmanaged.index < G.methods.size) :
    Emission.routine H references (state.renumber ρ) (managed.map ρ.method) (ρ.method unmanaged) =
      (Emission.routine G references state managed unmanaged).renumber ρ := by
  have hstart := hm.escapeCheck (b := Body.empty) hr hs.signaled
  rw [Body.renumber_empty] at hstart
  cases managed with
  | none =>
    simp only [Emission.routine, WovenState.renumber, Option.map_none, Body.renumber_append, hstart,
      hm.callOnThis hunmanaged, hm.setDisposed hs.disposed]
    rfl
  | some m =>
    simp only [Emission.routine, WovenState.renumber, Option.map_some, Body.renumber_append, hstart,
      hm.managedUnlessFinalizing (hmanaged m rfl), hm.callOnThis hunmanaged, hm.setDisposed hs.disposed]
    rfl

theorem entryThroughRoutine (hr : references.Declared g) {m : MethodId} (hlt : m.index < G.methods.size) :
    Emission.entryThroughRoutine H references (ρ.method m) = (Emission.entryThroughRoutine G references m).renumber ρ := by
  simp only [Emission.entryThroughRoutine, Body.renumber_append, Body.renumber_empty, hm.methodOnSelf hlt,
    hm.methodDirect hr.suppressFinalize]
  rfl

theorem finalizer (hr : references.Declared g) {m : MethodId} (hlt : m.index < G.methods.size) :
    Emission.finalizer H references (ρ.method m) = (Emission.finalizer G references m).renumber ρ := by
  simp only [Emission.finalizer, Body.renumber_addHandler, Body.renumber_append, Body.renumber_empty,
    hm.methodOnSelf hlt, hm.methodDirect hr.objectFinalize]
  rfl

end

end TypeGraph.Mirrors

/-! ## Generated code names declared members -/

namespace Body.Known

variable {g G : TypeGraph} {references : References} {state : WovenState} {body : Body} {managed unmanaged : MethodId}
  {f : FieldId} {fields : List FieldId}

theorem mono (h : body.Known g) (hG : g.Gains G) : body.Known G := by
  intro slot hslot
  have hknown := h slot hslot
  generalize slot.instruction = i at hknown
  cases i with
  | ldfld | ldflda | stfld | ldsfld | stsfld => exact Nat.lt_of_lt_of_le hknown hG.fields
  | call | callvirt | newobj => exact Nat.lt_of_lt_of_le hknown hG.methods
  | _ => trivial

theorem escapeCheck (h : body.Known g) (hr : references.Declared g) (hf : f.index < g.fields.size) :
    (Emission.escapeCheck g references f body).Known g :=
  h.append (by simp [Instruction.Known, FieldRef.onSelf, MethodRef.direct, hf, hr.exchangeInt32])

theorem setDisposed (h : body.Known g) (hf : f.index < g.fields.size) : (Emission.setDisposed g f body).Known g :=
  h.append (by simp [Instruction.Known, FieldRef.onSelf, hf])

theorem callOnThis (h : body.Known g) (hm : managed.index < g.methods.size) :
    (Emission.callOnThis g managed body).Known g := by
  have hcall : (Instruction.callTo g (.onSelf g managed)).Known g := Instruction.known_callTo.2 hm
  refine h.append fun i hi => ?_
  rcases List.mem_pair.1 hi with rfl | rfl
  · trivial
  · exact hcall

theorem disposal (h : body.Known g) (hr : references.Declared g) (hf : f.index < g.fields.size) :
    (Emission.disposal g references f body).Known g := by
  unfold Emission.disposal
  simp only
  split
  · have hlocal : (body.addLocal (g.field f).type).2.Known g := h
    exact hlocal.append (by simp [Instruction.Known, FieldRef.onSelf, MethodRef.direct, hf, hr.exchangeReference, hr.dispose])
  · exact h.append (by simp [Instruction.Known, FieldRef.onSelf, MethodRef.direct, hf, hr.exchangeReference, hr.dispose])

theorem disposals (h : body.Known g) (hr : references.Declared g) (hf : ∀ f ∈ fields, f.index < g.fields.size) :
    (Emission.disposals g references fields body).Known g := by
  unfold Emission.disposals
  induction fields generalizing body with
  | nil => exact h
  | cons f rest ih =>
    exact ih (h.disposal hr (hf f List.mem_cons_self)) fun f' hf' => hf f' (List.mem_cons_of_mem _ hf')

theorem return_ (h : body.Known g) : (body.append [.ret]).Known g := h.append (by simp [Instruction.Known])

theorem simpleEntry (hr : references.Declared g) (hs : state.Within g) (hf : ∀ f ∈ fields, f.index < g.fields.size) :
    (Emission.simpleEntry g references state fields).Known g :=
  ((((Known.empty g).escapeCheck hr hs.signaled).disposals hr hf).setDisposed hs.disposed).return_

theorem derivedHook (hr : references.Declared g) (hf : ∀ f ∈ fields, f.index < g.fields.size) :
    (Emission.derivedHook g references fields).Known g :=
  ((Known.empty g).disposals hr hf).return_

theorem guard (hr : references.Declared g) (t : TypeId) (hf : f.index < g.fields.size) :
    (Emission.guard g references t f).Known g :=
  (Known.empty g).append (by simp [Instruction.Known, FieldRef.onSelf, MethodRef.direct, hf, hr.disposedConstructor])

theorem managedEntry (hr : references.Declared g) (hs : state.Within g) (hm : managed.index < g.methods.size) :
    (Emission.managedEntry g references state managed).Known g :=
  ((((Known.empty g).escapeCheck hr hs.signaled).callOnThis hm).setDisposed hs.disposed).return_

theorem managedUnlessFinalizing (h : body.Known g) (hm : managed.index < g.methods.size) :
    (Emission.managedUnlessFinalizing g managed body).Known g :=
  ((h.append (by simp [Instruction.Known])).callOnThis hm).append (by simp [Instruction.Known])

theorem routine (hr : references.Declared g) (hs : state.Within g) {hook : Option MethodId}
    (hhook : ∀ m, hook = some m → m.index < g.methods.size) (hu : unmanaged.index < g.methods.size) :
    (Emission.routine g references state hook unmanaged).Known g := by
  have hstart := (Known.empty g).escapeCheck hr hs.signaled
  cases hook with
  | none => exact ((hstart.callOnThis hu).setDisposed hs.disposed).return_
  | some m => exact (((hstart.managedUnlessFinalizing (hhook m rfl)).callOnThis hu).setDisposed hs.disposed).return_

theorem entryThroughRoutine (hr : references.Declared g) (hm : managed.index < g.methods.size) :
    (Emission.entryThroughRoutine g references managed).Known g :=
  (Known.empty g).append (by simp [Instruction.Known, MethodRef.onSelf, MethodRef.direct, hm, hr.suppressFinalize])

theorem finalizer (hr : references.Declared g) (hm : managed.index < g.methods.size) :
    (Emission.finalizer g references managed).Known g :=
  (Known.empty g).append (by simp [Instruction.Known, MethodRef.onSelf, MethodRef.direct, hm, hr.objectFinalize])

end Body.Known

end DisposalWeaver
