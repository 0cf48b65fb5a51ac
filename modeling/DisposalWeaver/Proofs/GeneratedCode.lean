/-
Generated code, apart from the session that generates it.

The pieces of `Weaving.Emission` are put together here to the bodies that a type ends up with. They only look at what the
graph says about the members that they mention, so they come out the same for every graph with more members
(`Gains.escapeCheck` and the like): generated code can be read off the last graph of a session.
-/
import DisposalWeaver.Proofs.PlatformReferences
import DisposalWeaver.Weaving.TypeWeaving

namespace DisposalWeaver

/-! ## Whole bodies -/

namespace Emission

/-- code that disposes of a field that can be disposed of -/
def disposal (g : TypeGraph) (references : References) (f : FieldId) (body : Body) : Body :=
  let type := (g.field f).type
  let exchange : MethodRef := { MethodRef.direct g references.exchangeReference with arguments := [type] }
  if type.isGenericParameter then constrainedDisposal g references f exchange body
  else referenceDisposal g references f exchange body

/-- code that disposes of fields, in order -/
def disposals (g : TypeGraph) (references : References) (fields : List FieldId) (body : Body) : Body :=
  fields.foldl (fun body f => disposal g references f body) body

/-- body of an entry point that disposes of fields itself -/
def simpleEntry (g : TypeGraph) (references : References) (state : WovenState) (fields : List FieldId) : Body :=
  (setDisposed g state.disposed
    (disposals g references fields (escapeCheck g references state.signaled Body.empty))).append [.ret]

/-- body of a managed hook that is made for the fields of a type -/
def derivedHook (g : TypeGraph) (references : References) (fields : List FieldId) : Body :=
  (disposals g references fields Body.empty).append [.ret]

/-- the exchange is only answered applied to the type of the field, and it has to take one type for that -/
theorem fieldDisposal_eq_ok_iff {g : TypeGraph} {references : References} {f : FieldId} {body body' : Body} :
    fieldDisposal g references f body = .ok body' ↔
      (g.method references.exchangeReference).generics.length = 1 ∧ body' = disposal g references f body := by
  simp only [fieldDisposal, MethodRef.applied?, MethodRef.direct, List.isEmpty_cons, List.length_cons, List.length_nil,
    Nat.zero_add, Bool.false_eq_true, ↓reduceIte, disposal]
  by_cases h : (g.method references.exchangeReference).generics.length = 1
  · simp only [h, ↓reduceIte, bind, Except.bind, true_and, eq_comm (a := body')]
    split <;> exact ⟨fun h => Except.ok.inj h, fun h => congrArg Except.ok h⟩
  · simp only [h, ↓reduceIte, bind, Except.bind, false_and, reduceCtorEq]

end Emission

/-- are the methods that generated code calls declared? -/
structure References.Declared (references : References) (g : TypeGraph) : Prop where
  objectFinalize : references.objectFinalize.index < g.methods.size
  suppressFinalize : references.suppressFinalize.index < g.methods.size
  dispose : references.dispose.index < g.methods.size
  exchangeInt32 : references.exchangeInt32.index < g.methods.size
  exchangeReference : references.exchangeReference.index < g.methods.size
  disposedConstructor : references.disposedConstructor.index < g.methods.size

/-! ## More members change nothing -/

namespace TypeGraph.Gains

variable {g g' : TypeGraph} {references : References}

theorem declared (h : g.Gains g') (hr : references.Declared g) : references.Declared g' where
  objectFinalize := Nat.lt_of_lt_of_le hr.objectFinalize h.methods
  suppressFinalize := Nat.lt_of_lt_of_le hr.suppressFinalize h.methods
  dispose := Nat.lt_of_lt_of_le hr.dispose h.methods
  exchangeInt32 := Nat.lt_of_lt_of_le hr.exchangeInt32 h.methods
  exchangeReference := Nat.lt_of_lt_of_le hr.exchangeReference h.methods
  disposedConstructor := Nat.lt_of_lt_of_le hr.disposedConstructor h.methods

theorem fieldOnSelf (h : g.Gains g') {f : FieldId} (hf : f.index < g.fields.size) :
    FieldRef.onSelf g' f = FieldRef.onSelf g f := by
  simp only [FieldRef.onSelf, h.field f hf, h.selfReference]

theorem methodOnSelf (h : g.Gains g') {m : MethodId} (hm : m.index < g.methods.size) :
    MethodRef.onSelf g' m = MethodRef.onSelf g m := by
  simp only [MethodRef.onSelf, h.method m hm, h.selfReference]

theorem methodDirect (h : g.Gains g') {m : MethodId} (hm : m.index < g.methods.size) :
    MethodRef.direct g' m = MethodRef.direct g m := by
  simp only [MethodRef.direct, h.method m hm]

theorem escapeCheck (h : g.Gains g') (hr : references.Declared g) {signaled : FieldId}
    (hf : signaled.index < g.fields.size) (body : Body) :
    Emission.escapeCheck g' references signaled body = Emission.escapeCheck g references signaled body := by
  simp only [Emission.escapeCheck, h.fieldOnSelf hf, h.methodDirect hr.exchangeInt32]

theorem setDisposed (h : g.Gains g') {disposed : FieldId} (hf : disposed.index < g.fields.size) (body : Body) :
    Emission.setDisposed g' disposed body = Emission.setDisposed g disposed body := by
  simp only [Emission.setDisposed, h.fieldOnSelf hf]

theorem callOnThis (h : g.Gains g') {m : MethodId} (hm : m.index < g.methods.size) (body : Body) :
    Emission.callOnThis g' m body = Emission.callOnThis g m body := by
  have hcall : Instruction.callTo g' (MethodRef.onSelf g m) = Instruction.callTo g (MethodRef.onSelf g m) := by
    unfold Instruction.callTo
    rw [show (MethodRef.onSelf g m).method = m from rfl, h.method m hm]
  simp only [Emission.callOnThis, h.methodOnSelf hm, hcall]

theorem disposal (h : g.Gains g') (hr : references.Declared g) {f : FieldId} (hf : f.index < g.fields.size)
    (body : Body) : Emission.disposal g' references f body = Emission.disposal g references f body := by
  simp only [Emission.disposal, Emission.constrainedDisposal, Emission.referenceDisposal, h.field f hf,
    h.methodDirect hr.exchangeReference, h.methodDirect hr.dispose, h.fieldOnSelf hf]

theorem disposals (h : g.Gains g') (hr : references.Declared g) {fields : List FieldId}
    (hf : ∀ f ∈ fields, f.index < g.fields.size) (body : Body) :
    Emission.disposals g' references fields body = Emission.disposals g references fields body := by
  induction fields generalizing body with
  | nil => rfl
  | cons f rest ih =>
    simp only [Emission.disposals, List.foldl_cons] at ih ⊢
    rw [h.disposal hr (hf f List.mem_cons_self), ih fun f' hf' => hf f' (List.mem_cons_of_mem _ hf')]

theorem simpleEntry (h : g.Gains g') (hr : references.Declared g) {state : WovenState} {fields : List FieldId}
    (hsignaled : state.signaled.index < g.fields.size) (hdisposed : state.disposed.index < g.fields.size)
    (hf : ∀ f ∈ fields, f.index < g.fields.size) :
    Emission.simpleEntry g' references state fields = Emission.simpleEntry g references state fields := by
  simp only [Emission.simpleEntry, h.escapeCheck hr hsignaled, h.disposals hr hf, h.setDisposed hdisposed]

theorem derivedHook (h : g.Gains g') (hr : references.Declared g) {fields : List FieldId}
    (hf : ∀ f ∈ fields, f.index < g.fields.size) :
    Emission.derivedHook g' references fields = Emission.derivedHook g references fields := by
  simp only [Emission.derivedHook, h.disposals hr hf]

theorem guard (h : g.Gains g') (hr : references.Declared g) {disposed : FieldId} (t : TypeId)
    (hdisposed : disposed.index < g.fields.size) :
    Emission.guard g' references t disposed = Emission.guard g references t disposed := by
  simp only [Emission.guard, h.fieldOnSelf hdisposed, h.methodDirect hr.disposedConstructor, h.name]

theorem managedEntry (h : g.Gains g') (hr : references.Declared g) {state : WovenState} {managed : MethodId}
    (hsignaled : state.signaled.index < g.fields.size) (hdisposed : state.disposed.index < g.fields.size)
    (hmanaged : managed.index < g.methods.size) :
    Emission.managedEntry g' references state managed = Emission.managedEntry g references state managed := by
  simp only [Emission.managedEntry, h.escapeCheck hr hsignaled, h.callOnThis hmanaged, h.setDisposed hdisposed]

theorem routine (h : g.Gains g') (hr : references.Declared g) {state : WovenState} {managed : Option MethodId}
    {unmanaged : MethodId} (hsignaled : state.signaled.index < g.fields.size)
    (hdisposed : state.disposed.index < g.fields.size) (hmanaged : ∀ m, managed = some m → m.index < g.methods.size)
    (hunmanaged : unmanaged.index < g.methods.size) :
    Emission.routine g' references state managed unmanaged = Emission.routine g references state managed unmanaged := by
  cases managed with
  | none => simp only [Emission.routine, h.escapeCheck hr hsignaled, h.callOnThis hunmanaged, h.setDisposed hdisposed]
  | some m =>
    simp only [Emission.routine, Emission.managedUnlessFinalizing, h.escapeCheck hr hsignaled,
      h.callOnThis (hmanaged m rfl), h.callOnThis hunmanaged, h.setDisposed hdisposed]

theorem entryThroughRoutine (h : g.Gains g') (hr : references.Declared g) {routine : MethodId}
    (hroutine : routine.index < g.methods.size) :
    Emission.entryThroughRoutine g' references routine = Emission.entryThroughRoutine g references routine := by
  simp only [Emission.entryThroughRoutine, h.methodOnSelf hroutine, h.methodDirect hr.suppressFinalize]

theorem finalizer (h : g.Gains g') (hr : references.Declared g) {routine : MethodId}
    (hroutine : routine.index < g.methods.size) :
    Emission.finalizer g' references routine = Emission.finalizer g references routine := by
  simp only [Emission.finalizer, h.methodOnSelf hroutine, h.methodDirect hr.objectFinalize]

end TypeGraph.Gains

end DisposalWeaver
