/-
Where generated code stands.

Weaving only ever appends, so a generated body holds a list of instructions in the order in which they were made, and the
number of a handle is its position (`Body.Holds`). The pieces of generated code are lists then, each of which depends on
the position that it starts from, and a layout has a piece at a position (`Layout.Has`) if it has each of its parts there.
-/
import DisposalWeaver.Body.Layout
import DisposalWeaver.Proofs.GeneratedCode

namespace DisposalWeaver

/-! ## Appended code -/

/-- the body holds this code and nothing else, in order and without protected regions -/
structure Body.Holds (body : Body) (code : List Instruction) : Prop where
  slots : body.slots.toList.map Slot.instruction = code
  order : body.order = (List.range code.length).map Handle.mk
  handlers : body.handlers = []

namespace Body.Holds

variable {body : Body} {code : List Instruction}

theorem empty : Body.empty.Holds [] := ⟨rfl, rfl, rfl⟩

theorem size (h : body.Holds code) : body.slots.size = code.length := by
  rw [← h.slots, List.length_map, Array.length_toList]

theorem push (h : body.Holds code) (i : Instruction) : (body.push i).2.Holds (code ++ [i]) where
  slots := by simp [Body.push, h.slots]
  order := by
    simp only [Body.push, h.order, Body.nextHandle, h.size, List.length_append, List.length_singleton, List.range_succ,
      List.map_append, List.map_singleton]
  handlers := h.handlers

theorem append (h : body.Holds code) (more : List Instruction) : (body.append more).Holds (code ++ more) := by
  unfold Body.append
  induction more generalizing body code with
  | nil => simpa using h
  | cons i rest ih => simpa using ih (h.push i)

theorem addLocal (h : body.Holds code) (type : TypeRef) : (body.addLocal type).2.Holds code :=
  ⟨h.slots, h.order, h.handlers⟩

end Body.Holds

theorem Body.locals_append (body : Body) (more : List Instruction) : (body.append more).locals = body.locals := by
  unfold Body.append
  induction more generalizing body with
  | nil => rfl
  | cons i rest ih => exact ih (body.push i).2

/-! ## Code in a layout -/

/-- the layout has the code from the given position on, and handles there are numbered by position -/
def Layout.Has (layout : Layout) (start : Nat) (code : List Instruction) : Prop :=
  ∀ k i, code[k]? = some i → layout.fetch? (start + k) = some i ∧ layout.position? ⟨start + k⟩ = some (start + k)

namespace Layout

variable {layout : Layout} {start : Nat} {code code' : List Instruction}

theorem Has.fetch (h : layout.Has start code) (k : Nat) {i : Instruction} (hk : code[k]? = some i) :
    layout.fetch? (start + k) = some i := (h k i hk).1

theorem Has.position (h : layout.Has start code) (k : Nat) (hk : k < code.length) :
    layout.position? ⟨start + k⟩ = some (start + k) := (h k code[k] (List.getElem?_eq_getElem hk)).2

theorem Has.left (h : layout.Has start (code ++ code')) : layout.Has start code := fun k i hk =>
  h k i (by rw [List.getElem?_append_left (List.getElem?_eq_some_iff.1 hk).1]; exact hk)

theorem Has.right (h : layout.Has start (code ++ code')) : layout.Has (start + code.length) code' := fun k i hk => by
  have hright := h (code.length + k) i (by
    rw [List.getElem?_append_right (Nat.le_add_right _ _), Nat.add_sub_cancel_left]
    exact hk)
  rwa [← Nat.add_assoc] at hright

/-- the layout of a body has the code that the body holds -/
theorem has_ofBody {body : Body} (h : body.Holds code) : (ofBody body).Has 0 code := by
  intro k i hk
  have hlt : k < code.length := (List.getElem?_eq_some_iff.1 hk).1
  rw [Nat.zero_add, fetch?_ofBody, position?_ofBody]
  have horder : body.order[k]? = some ⟨k⟩ := by
    rw [h.order, List.getElem?_map, List.getElem?_range hlt]
    rfl
  constructor
  · unfold Body.fetch? Body.instruction?
    rw [horder, Option.bind_some, ← Array.getElem?_toList, ← List.getElem?_map, h.slots, hk]
  · unfold Body.position?
    rw [List.idxOf?_eq_some_iff]
    refine ⟨by simpa [h.order] using hlt, by simp [h.order], fun j hj => ?_⟩
    simp only [h.order, List.getElem_map, List.getElem_range, Handle.mk.injEq]
    omega

end Layout

namespace Body.Holds

variable {body : Body} {code : List Instruction}

/-- the layout has nothing but the code -/
theorem fetch? (h : body.Holds code) (k : Nat) : (Layout.ofBody body).fetch? k = code[k]? := by
  cases hk : code[k]? with
  | some i => simpa using (Layout.has_ofBody h).fetch k hk
  | none =>
    have hlength : body.order.length ≤ k := by simpa [h.order] using hk
    rw [Layout.fetch?_ofBody, Body.fetch?, List.getElem?_eq_none hlength]
    rfl

/-- where a handle stands is told by its number -/
theorem position (h : body.Holds code) {t : Handle} {q : Nat} (hq : (Layout.ofBody body).position? t = some q) :
    t.number = q := by
  rw [Layout.position?_ofBody, Body.position?] at hq
  obtain ⟨hlt, heq, -⟩ := List.idxOf?_eq_some_iff.1 hq
  simp only [h.order, List.getElem_map, List.getElem_range] at heq
  rw [← heq]

end Body.Holds

/-! ## The pieces as lists -/

namespace Emission

variable (g : TypeGraph) (references : References)

def escapeCode (signaled : FieldId) (start : Nat) : List Instruction := [
  .ldarg 0,
  .ldflda (.onSelf g signaled),
  .ldc 1,
  .call (.direct g references.exchangeInt32),
  .brfalse ⟨start + 6⟩,
  .ret,
  .nop]

def setDisposedCode (disposed : FieldId) : List Instruction := [.ldarg 0, .ldc 1, .stfld (.onSelf g disposed)]

def callCode (m : MethodId) : List Instruction := [.ldarg 0, .callTo g (.onSelf g m)]

/-- the exchange of references, applied to the type of a field -/
def exchangeOf (f : FieldId) : MethodRef :=
  { MethodRef.direct g references.exchangeReference with arguments := [(g.field f).type] }

/-- code that disposes of a field, with the local that its old value waits in if it does not wait on the stack -/
def disposalCode (start : Nat) : FieldId × Option UInt16 → List Instruction
  | (f, none) => [
    .ldarg 0,
    .ldflda (.onSelf g f),
    .ldnull,
    .call (exchangeOf g references f),
    .dup,
    .brtrue ⟨start + 8⟩,
    .pop,
    .br ⟨start + 9⟩,
    .callvirt (.direct g references.dispose),
    .nop]
  | (f, some slot) => [
    .ldarg 0,
    .ldflda (.onSelf g f),
    .ldnull,
    .call (exchangeOf g references f),
    .stloc slot,
    .ldloc slot,
    .box (g.field f).type,
    .brfalse ⟨start + 11⟩,
    .ldloca slot,
    .constrained (g.field f).type,
    .callvirt (.direct g references.dispose),
    .nop]

/-- the fields with the locals that their old values wait in, if `used` locals are taken -/
def plan (used : Nat) : List FieldId → List (FieldId × Option UInt16)
  | [] => []
  | f :: rest =>
    if (g.field f).type.isGenericParameter then (f, some (UInt16.ofNat used)) :: plan (used + 1) rest
    else (f, none) :: plan used rest

def disposalsCode (start : Nat) : List (FieldId × Option UInt16) → List Instruction
  | [] => []
  | e :: rest =>
    disposalCode g references start e ++ disposalsCode (start + (disposalCode g references start e).length) rest

def managedCode (managed : MethodId) (start : Nat) : List Instruction :=
  [.ldarg 1, .brfalse ⟨start + 4⟩] ++ callCode g managed ++ [.nop]

def guardCode (t : TypeId) (disposed : FieldId) : List Instruction := [
  .ldarg 0,
  .ldfld (.onSelf g disposed),
  .brfalse ⟨6⟩,
  .ldstr (g.type t).name.simple,
  .newobj (.direct g references.disposedConstructor),
  .throw,
  .ret]

def simpleEntryCode (state : WovenState) (fields : List FieldId) : List Instruction :=
  escapeCode g references state.signaled 0 ++ disposalsCode g references 7 (plan g 0 fields) ++
    setDisposedCode g state.disposed ++ [.ret]

def derivedHookCode (fields : List FieldId) : List Instruction :=
  disposalsCode g references 0 (plan g 0 fields) ++ [.ret]

def managedEntryCode (state : WovenState) (managed : MethodId) : List Instruction :=
  escapeCode g references state.signaled 0 ++ callCode g managed ++ setDisposedCode g state.disposed ++ [.ret]

def routineCode (state : WovenState) (managed : Option MethodId) (unmanaged : MethodId) : List Instruction :=
  escapeCode g references state.signaled 0 ++ managed.elim [] (fun m => managedCode g m 7) ++ callCode g unmanaged ++
    setDisposedCode g state.disposed ++ [.ret]

def entryThroughRoutineCode (routine : MethodId) : List Instruction := [
  .ldarg 0,
  .ldc 1,
  .call (.onSelf g routine),
  .ldarg 0,
  .call (.direct g references.suppressFinalize),
  .ret]

def finalizerCode (routine : MethodId) : List Instruction := [
  .ldarg 0,
  .ldc 0,
  .call (.onSelf g routine),
  .leave ⟨7⟩,
  .ldarg 0,
  .call (.direct g references.objectFinalize),
  .endfinally,
  .ret]

end Emission

/-! ## Bodies hold the pieces -/

namespace Emission

variable (g : TypeGraph) (references : References) {body : Body} {code : List Instruction}

theorem escapeCheck_holds (h : body.Holds code) (signaled : FieldId) :
    (escapeCheck g references signaled body).Holds (code ++ escapeCode g references signaled code.length) := by
  rw [← h.size]
  exact h.append _

theorem disposal_holds (h : body.Holds code) (f : FieldId) (rest : List FieldId) : ∃ e,
    plan g body.locals.size (f :: rest) = e :: plan g (disposal g references f body).locals.size rest ∧
      (disposal g references f body).Holds (code ++ disposalCode g references code.length e) := by
  rw [plan]
  unfold disposal
  simp only
  split
  · refine ⟨(f, some (UInt16.ofNat body.locals.size)), ?_, ?_⟩
    · simp only [constrainedDisposal, Body.locals_append, Body.addLocal, Array.size_push]
    · rw [← h.size]
      exact (h.addLocal _).append _
  · refine ⟨(f, none), ?_, ?_⟩
    · simp only [referenceDisposal, Body.locals_append]
    · rw [← h.size]
      exact h.append _

theorem disposals_holds (h : body.Holds code) (fields : List FieldId) :
    (disposals g references fields body).Holds
      (code ++ disposalsCode g references code.length (plan g body.locals.size fields)) := by
  induction fields generalizing body code with
  | nil => simpa [disposals, plan, disposalsCode] using h
  | cons f rest ih =>
    obtain ⟨e, hplan, hholds⟩ := disposal_holds g references h f rest
    have hrest := ih hholds
    rw [hplan, disposalsCode, ← List.append_assoc, ← List.length_append]
    exact hrest

theorem simpleEntry_holds (state : WovenState) (fields : List FieldId) :
    (simpleEntry g references state fields).Holds (simpleEntryCode g references state fields) := by
  have hcheck := escapeCheck_holds g references Body.Holds.empty state.signaled
  have hlocals : (escapeCheck g references state.signaled Body.empty).locals.size = 0 := by
    rw [escapeCheck, Body.locals_append]
    rfl
  have hall := disposals_holds g references hcheck fields
  rw [hlocals] at hall
  exact (hall.append _).append _

theorem derivedHook_holds (fields : List FieldId) :
    (derivedHook g references fields).Holds (derivedHookCode g references fields) :=
  (disposals_holds g references Body.Holds.empty fields).append _

theorem guard_holds (t : TypeId) (disposed : FieldId) :
    (guard g references t disposed).Holds (guardCode g references t disposed) :=
  Body.Holds.empty.append _

theorem managedEntry_holds (state : WovenState) (managed : MethodId) :
    (managedEntry g references state managed).Holds (managedEntryCode g references state managed) :=
  (((escapeCheck_holds g references Body.Holds.empty state.signaled).append _).append _).append _

theorem routine_holds (state : WovenState) (managed : Option MethodId) (unmanaged : MethodId) :
    (routine g references state managed unmanaged).Holds (routineCode g references state managed unmanaged) := by
  have hcheck := escapeCheck_holds g references Body.Holds.empty state.signaled
  cases managed with
  | none =>
    have hall : (routine g references state none unmanaged).Holds ([] ++ escapeCode g references state.signaled 0 ++
        callCode g unmanaged ++ setDisposedCode g state.disposed ++ [.ret]) := ((hcheck.append _).append _).append _
    simpa [routineCode] using hall
  | some m =>
    have hstart : (routine g references state (some m) unmanaged).Holds ([] ++ escapeCode g references state.signaled 0 ++
        [.ldarg 1, .brfalse ⟨11⟩] ++ callCode g m ++ [.nop] ++ callCode g unmanaged ++ setDisposedCode g state.disposed ++
        [.ret]) :=
      (((((hcheck.append _).append _).append _).append _).append _).append _
    simpa [routineCode, managedCode] using hstart

theorem entryThroughRoutine_holds (routine : MethodId) :
    (entryThroughRoutine g references routine).Holds (entryThroughRoutineCode g references routine) :=
  Body.Holds.empty.append _

end Emission

end DisposalWeaver
