/-
Fields that only rise.

An object is never taken from the heap, and an instance field changes only where something is stored to it. If every store
to a field of an object stores 1, then along anything that happens the field keeps what it holds, or holds 1
(`Program.Spares.rises`). A step of a body stores to a field only where its code says so (`Program.history_placed`).
-/
import DisposalWeaver.Proofs.CodeRuns

namespace DisposalWeaver

/-! ## Changes of a field -/

/-- where the change is a store to the place, it stores 1 -/
def Change.Raises (place : Address) (c : Change) : Prop := ∀ v, c = .store place v → v = .int32 1

/-- the object is still there, and its field holds what it held or 1 -/
def Machine.Rises (g : TypeGraph) (o : ObjectRef) (f : FieldId) (M N : Machine) : Prop :=
  ∀ object, M.object? o = some object → ∃ object', N.object? o = some object' ∧
    (object'.fieldOf g f = object.fieldOf g f ∨ object'.fieldOf g f = .int32 1)

section Rising

variable {g : TypeGraph} {o : ObjectRef} {f : FieldId} {M K N : Machine} {c : Change} {object : Object}

theorem Machine.rises_refl (M : Machine) : M.Rises g o f M := fun object ho => ⟨object, ho, .inl rfl⟩

theorem Machine.Rises.trans (h : M.Rises g o f K) (h' : K.Rises g o f N) : M.Rises g o f N := by
  intro object ho
  obtain ⟨object1, ho1, hf1⟩ := h object ho
  obtain ⟨object2, ho2, hf2⟩ := h' object1 ho1
  refine ⟨object2, ho2, ?_⟩
  rcases hf2 with hf2 | hf2
  · rw [hf2]
    exact hf1
  · exact .inr hf2

/-- an allocation leaves the objects that are there alone -/
theorem object?_allocate (ho : M.object? o = some object) (t : TypeId) :
    (M.apply (.allocate t)).object? o = some object := by
  obtain ⟨hlt, -⟩ := Array.getElem?_eq_some_iff.1 ho
  rw [Machine.object?, Machine.apply, Array.getElem?_push, if_neg (Nat.ne_of_lt hlt)]
  exact ho

/-- a store to another field of the object, or to no field of it, leaves the field as it is -/
theorem object?_apply (g : TypeGraph) (ho : M.object? o = some object) (hc : ∀ v, c ≠ .store (.field o f) v) :
    ∃ object', (M.apply c).object? o = some object' ∧ object'.fieldOf g f = object.fieldOf g f := by
  unfold Machine.object? at ho
  have hkept : ∀ heap : Array Object, heap = M.heap → ∃ object', heap[o.index]? = some object' ∧
      object'.fieldOf g f = object.fieldOf g f := fun heap heq => ⟨object, heq ▸ ho, rfl⟩
  cases c with
  | store place v =>
    cases place with
    | field o' f' =>
      simp only [Machine.object?, Machine.apply, Machine.write, Array.getElem?_modify, ho, Option.map_some]
      by_cases hsame : o'.index = o.index
      · have hne : f ≠ f' := fun heq => hc v (by rw [heq, show o' = o from congrArg ObjectRef.mk hsame])
        rw [if_pos hsame]
        refine ⟨_, rfl, ?_⟩
        simp only [Object.fieldOf, Cells.get?_set_other _ _ hne]
      · rw [if_neg hsame]
        exact ⟨object, rfl, rfl⟩
    | _ => exact hkept _ rfl
  | allocate t => exact ⟨object, object?_allocate ho t, rfl⟩
  | mark o' mark =>
    simp only [Machine.object?, Machine.apply, Array.getElem?_modify, ho, Option.map_some]
    split
    · refine ⟨_, rfl, ?_⟩
      cases mark <;> rfl
    · exact ⟨object, rfl, rfl⟩
  | record values => exact hkept _ rfl

/-- what was stored to the field is there -/
theorem object?_store (g : TypeGraph) (ho : M.object? o = some object) (v : Value) :
    ∃ object', (M.apply (.store (.field o f) v)).object? o = some object' ∧ object'.fieldOf g f = v := by
  unfold Machine.object? at ho
  refine ⟨{ object with fields := object.fields.set f v }, ?_, ?_⟩
  · simp only [Machine.object?, Machine.apply, Machine.write, Array.getElem?_modify, ho, Option.map_some, ↓reduceIte]
  · simp only [Object.fieldOf, Cells.get?_set_self, Option.getD_some]

theorem rises_apply (hc : c.Raises (.field o f)) : M.Rises g o f (M.apply c) := by
  intro object ho
  by_cases hstore : ∃ v, c = .store (.field o f) v
  · obtain ⟨v, rfl⟩ := hstore
    obtain ⟨object', ho', hf'⟩ := object?_store g ho v
    exact ⟨object', ho', .inr (hf'.trans (hc v rfl))⟩
  · obtain ⟨object', ho', hf'⟩ := object?_apply g ho fun v heq => hstore ⟨v, heq⟩
    exact ⟨object', ho', .inl hf'⟩

theorem deepDrift_rises (g : TypeGraph) (o : ObjectRef) (f : FieldId) :
    DeepDrift (fun _ => Path (Machine.Rises g o f)) (Change.Raises (.field o f)) :=
  deepDrift_path Machine.rises_refl Machine.Rises.trans (fun M _ => M.rises_refl) (fun M => M.rises_refl)
    fun _ _ hc => rises_apply hc

end Rising

/-! ## What the host stores -/

/-- the host stores nothing but 1 to the place -/
def Event.Signals (place : Address) : Event → Prop
  | .work c _ => c.Raises place
  | _ => True

/-- the event is a step of a body of the program, if it is a step -/
def Event.Placed (p : Program) : Event → Prop
  | .step r a i _ => r.Of p ∧ r.layout.fetch? a.position = some i
  | _ => True

/-- no body of the program names the field in a store -/
def Program.Spares (p : Program) (f : FieldId) : Prop :=
  ∀ r : Routine, r.Of p → ∀ k f', r.layout.fetch? k = some (.stfld f') → f'.field ≠ f

section Histories

variable {p : Program} {o : ObjectRef} {f : FieldId} {M : Machine} {α : Type} {work : Host α}

theorem deepDrift_placed (p : Program) :
    DeepDrift (fun _ _ events _ => ∀ e ∈ events, e.Placed p) fun _ => True where
  drift _ := {
    refl := fun _ _ h => by cases h
    trans := fun h h' e he => (List.mem_append.1 he).elim (h e) (h' e)
    tick := fun _ _ h => by cases h
    frame := fun _ _ _ _ _ _ h => by cases h
    change := fun _ _ _ _ h => by cases h
    note := fun e he e' he' => by
      rw [List.mem_singleton.1 he']
      cases e with
      | step r a i M => cases he
      | _ => trivial }
  outside _ h := h
  push _ _ _ h := by cases h
  pop _ _ _ h := by cases h

/-- **Every step of a history** is one of a body of the program. -/
theorem Program.history_placed (p : Program) (work : Host α) (M : Machine) : ∀ e ∈ p.history work M, e.Placed p :=
  history_drifts (deepDrift_placed p) (trace_drifts (deepDrift_placed p) fun r a i N hr hfetch e he => by
    rw [List.mem_singleton.1 he]
    exact ⟨hr, hfetch⟩) work fun e _ => e.allowed_of_all fun _ => trivial

/-- an instruction that does not name the field does not store to it -/
theorem Instruction.makes_raises {i : Instruction} (hi : ∀ f', i = .stfld f' → f'.field ≠ f) (stack : List Value) (c : Change)
    (hc : i.Makes stack c) : c.Raises (.field o f) := by
  intro v heq
  subst heq
  cases i with
  | stfld f' =>
    cases stack with
    | nil => cases hc
    | cons v' rest =>
      cases rest with
      | nil => cases hc
      | cons receiver rest =>
        cases receiver with
        | object o' => cases hc; exact absurd rfl (hi f' rfl)
        | _ => cases hc
  | stsfld f' =>
    cases stack with
    | nil => cases hc
    | cons v' rest => cases hc
  | newobj m =>
    obtain ⟨t, ht⟩ := hc
    cases ht
  | _ => cases hc

/-- where bodies leave the field alone and the host stores nothing but 1 to it, every change is allowed -/
theorem Program.Spares.allowed (hp : p.Spares f) (hsignals : ∀ e ∈ p.history work M, e.Signals (.field o f)) :
    ∀ e ∈ p.history work M, e.Allowed (Change.Raises (.field o f)) := by
  intro e he
  have hplaced := p.history_placed work M e he
  have hhost := hsignals e he
  cases e with
  | step r a i K =>
    exact Instruction.makes_raises (fun f' hf' => hp r hplaced.1 a.position f' (hf' ▸ hplaced.2)) _
  | work c K => exact hhost
  | _ => trivial

/-- **A field that bodies leave alone rises** along a history in which the host stores nothing but 1 to it. -/
theorem Program.Spares.rises (hp : p.Spares f) (hsignals : ∀ e ∈ p.history work M, e.Signals (.field o f)) :
    Path (Machine.Rises p.graph o f) M (p.history work M) ((p.perform work).final M) :=
  have hS := deepDrift_rises p.graph o f
  history_drifts hS (trace_drifts hS fun _ _ _ N _ _ => ⟨N.rises_refl, N.rises_refl⟩) work (hp.allowed hsignals)

end Histories

end DisposalWeaver
