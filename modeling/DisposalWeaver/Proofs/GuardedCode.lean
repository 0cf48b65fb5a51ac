/-
A body with a call of the guard in front.

What `Emission.guarded` makes of a body is told in full by `Body.BehindGuard`: two new instructions come first, and
whatever refers into the body still finds what it meant (`behindGuard_iff`). So the code of the author stands two
positions further down (`fetch?_guarded`, `position?_guarded`).
-/
import DisposalWeaver.Proofs.GeneratedCode

namespace DisposalWeaver

/-- has every instruction in the order been created? -/
def Body.Created (body : Body) : Prop :=
  ∀ t ∈ body.order, t.number < body.slots.size

/-- the second body is the first one behind a call of the guard -/
structure Body.BehindGuard (guard : MethodRef) (body body' : Body) : Prop where
  /-- the call stands on two instructions that are new; if there are sequence points, it gets a hidden one -/
  prelude : ∃ first second : Handle, first.number < second.number ∧ body.instruction? first = none ∧
    body.instruction? second = none ∧
    body'.placed? first = .ok (.ldarg 0) ∧ body'.placed? second = .ok (.call guard) ∧
    body'.order = first :: second :: body.order ∧
    body'.points = (body.points.head?.map fun point => .hidden first point.document).toList ++ body.points
  /-- handles name what they named, and nothing but the call is new -/
  kept : ∀ (handle : Handle) slot, body.slots[handle.number]? = some slot → body'.slots[handle.number]? = some slot
  size : body'.slots.size = body.slots.size + 2
  locals : body'.locals = body.locals
  handlers : body'.handlers = body.handlers

section Parts

variable (guard : MethodRef) (body : Body)

theorem guarded_slots : (Emission.guarded guard body).slots =
    body.slots ++ #[⟨.ldarg 0, true⟩, ⟨.call guard, true⟩] := by
  unfold Emission.guarded
  simp only
  split <;> rfl

theorem guarded_order : (Emission.guarded guard body).order =
    [⟨body.slots.size⟩, ⟨body.slots.size + 1⟩] ++ body.order := by
  unfold Emission.guarded
  simp only
  split <;> rfl

theorem guarded_handlers : (Emission.guarded guard body).handlers = body.handlers := by
  unfold Emission.guarded
  simp only
  split <;> rfl

theorem guarded_locals : (Emission.guarded guard body).locals = body.locals := by
  unfold Emission.guarded
  simp only
  split <;> rfl

theorem guarded_points : (Emission.guarded guard body).points =
    (body.points.head?.map fun point => .hidden ⟨body.slots.size⟩ point.document).toList ++ body.points := by
  cases hpoints : body.points with
  | nil => simp [Emission.guarded, Body.insertAtStart, hpoints]
  | cons point rest => simp [Emission.guarded, Body.insertAtStart, hpoints, List.range_succ_eq_map]

/-- **A call of the guard comes in front** of a body, and nothing else about it changes. -/
theorem guarded_behind : body.BehindGuard guard (Emission.guarded guard body) where
  prelude := by
    refine ⟨⟨body.slots.size⟩, ⟨body.slots.size + 1⟩, Nat.lt_succ_self _, ?_, ?_, ?_, ?_, guarded_order guard body,
      guarded_points guard body⟩
    · simp [Body.instruction?]
    · simp [Body.instruction?]
    · simp [Body.placed?, guarded_slots]
    · simp [Body.placed?, guarded_slots]
  kept handle slot h := by
    rw [guarded_slots, Array.getElem?_append_left (Array.getElem?_eq_some_iff.1 h).1, h]
  size := by simp [guarded_slots]
  locals := guarded_locals guard body
  handlers := guarded_handlers guard body

end Parts

section Whole

variable {guard : MethodRef} {body body' : Body} {handle : Handle} {i : Instruction}

theorem Body.slot_of_placed (h : body.placed? handle = .ok i) : body.slots[handle.number]? = some ⟨i, true⟩ := by
  unfold placed? at h
  split at h
  · next slot hslot =>
    split at h
    · next hplaced =>
      cases h
      rw [hslot, ← hplaced]
    · cases h
  · cases h

theorem Body.created_of_instruction (h : body.instruction? handle = none) : body.slots.size ≤ handle.number := by
  unfold instruction? at h
  exact Array.getElem?_eq_none_iff.1 (Option.map_eq_none_iff.1 h)

/-- **No other body** is the one behind the call: its two instructions can only be the two that are created next. -/
theorem behindGuard_iff : body.BehindGuard guard body' ↔ body' = Emission.guarded guard body := by
  refine ⟨fun h => ?_, fun h => h ▸ guarded_behind guard body⟩
  obtain ⟨⟨first⟩, ⟨second⟩, hlt, hfirst, hsecond, hfirst', hsecond', horder, hpoints⟩ := h.prelude
  have hslot := Body.slot_of_placed hfirst'
  have hslot' := Body.slot_of_placed hsecond'
  obtain ⟨rfl, rfl⟩ : first = body.slots.size ∧ second = body.slots.size + 1 := by
    have hmin := Body.created_of_instruction hfirst
    have hmax := (Array.getElem?_eq_some_iff.1 hslot').1
    rw [h.size] at hmax
    simp only at hlt hmin hmax
    omega
  have hslots : body'.slots = body.slots ++ #[⟨.ldarg 0, true⟩, ⟨.call guard, true⟩] := by
    refine Array.ext_getElem? fun k => ?_
    rcases Nat.lt_trichotomy k body.slots.size with hk | rfl | hk
    · rw [Array.getElem?_append_left hk, h.kept ⟨k⟩ _ (Array.getElem?_eq_getElem hk), Array.getElem?_eq_getElem hk]
    · rw [hslot]
      simp
    · by_cases hlast : k = body.slots.size + 1
      · rw [hlast, hslot']
        simp
      · rw [Array.getElem?_eq_none (by rw [h.size]; omega), Array.getElem?_eq_none (by simp; omega)]
  calc body'
    _ = ⟨body'.slots, body'.order, body'.locals, body'.handlers, body'.points⟩ := rfl
    _ = ⟨(Emission.guarded guard body).slots, (Emission.guarded guard body).order, (Emission.guarded guard body).locals,
          (Emission.guarded guard body).handlers, (Emission.guarded guard body).points⟩ := by
      rw [hslots, horder, h.locals, h.handlers, hpoints, guarded_slots, guarded_order, guarded_locals, guarded_handlers,
        guarded_points]
      rfl

/-! ## Where the code of the author stands -/

theorem guarded_instruction (hb : body.Created) {t : Handle} (ht : t ∈ body.order) :
    (Emission.guarded guard body).instruction? t = body.instruction? t := by
  unfold Body.instruction?
  rw [guarded_slots, Array.getElem?_append_left (hb t ht)]

theorem fetch?_guarded (hb : body.Created) (k : Nat) :
    (Emission.guarded guard body).fetch? (k + 2) = body.fetch? k := by
  unfold Body.fetch?
  rw [guarded_order]
  simp only [List.cons_append, List.nil_append, List.getElem?_cons_succ]
  cases hk : body.order[k]? with
  | none => rfl
  | some t => exact guarded_instruction hb (List.mem_of_getElem? hk)

theorem fetch?_prelude (guard : MethodRef) (body : Body) : (Emission.guarded guard body).fetch? 0 = some (.ldarg 0) ∧
    (Emission.guarded guard body).fetch? 1 = some (.call guard) := by
  simp [Body.fetch?, Body.instruction?, guarded_order, guarded_slots]

/-- an instruction that was created stands two positions further down, if it stands anywhere -/
theorem position?_created {t : Handle} (ht : t.number < body.slots.size) :
    (Emission.guarded guard body).position? t = (body.position? t).map (· + 2) := by
  have h0 : ((⟨body.slots.size⟩ : Handle) == t) = false := beq_eq_false_iff_ne.2 fun heq => by
    subst heq
    exact Nat.lt_irrefl _ ht
  have h1 : ((⟨body.slots.size + 1⟩ : Handle) == t) = false := beq_eq_false_iff_ne.2 fun heq => by
    subst heq
    exact absurd ht (by simp)
  unfold Body.position?
  rw [guarded_order]
  simp only [List.cons_append, List.nil_append, List.idxOf?_cons, h0, h1, Bool.false_eq_true, ↓reduceIte,
    Option.map_map]
  rfl

theorem position?_guarded (hb : body.Created) {t : Handle} {q : Nat} (h : body.position? t = some q) :
    (Emission.guarded guard body).position? t = some (q + 2) := by
  have hmem : t ∈ body.order := by
    by_contra hnot
    rw [Body.position?, List.idxOf?_eq_none_iff.2 hnot] at h
    cases h
  rw [position?_created (hb t hmem), h, Option.map_some]

/-- behind the guard, all instructions in the order are created again -/
theorem guarded_created (hb : body.Created) : (Emission.guarded guard body).Created := by
  intro t ht
  rw [guarded_order] at ht
  rw [guarded_slots, Array.size_append]
  rcases List.mem_append.1 ht with ht | ht
  · simp only [List.mem_cons, List.not_mem_nil, or_false] at ht
    rcases ht with rfl | rfl <;> simp
  · exact Nat.lt_add_right 2 (hb t ht)

end Whole

end DisposalWeaver
