/-
What every sequence of edits keeps of a body.

A body is written by edits (`Body.Edit`), and next to it stands the ledger of what has been created since it was last
cleared: the handles that the edits answered, with their instructions (`Body.Draft`). Every edit but clearing and placing
fills new slots (`Body.filled`), so that two facts carry the invariant `Body.Draft.Coherent`: filling slots keeps it
(`Coherent.filled`), and placing what has been created keeps it (`Coherent.placed`). Main statement:
`Body.Draft.representation_kept`.
-/
import Mathlib.Data.List.Nodup
import Mathlib.Data.List.Zip
import Mathlib.Logic.Function.Basic
import DisposalWeaver.Body.Basic

namespace DisposalWeaver

namespace Body

variable {body : Body} {instructions : List Instruction} {whether : Bool} {order : List Handle}

/-! ## Filled slots -/

/-- the body with an instruction more in each of the slots that come next, and in this order -/
def filled (body : Body) (instructions : List Instruction) (placed : Bool) (order : List Handle) : Body :=
  { body with
    slots := body.slots ++ (instructions.map fun instruction => Slot.mk instruction placed).toArray
    order }

/-- the handles that the next created instructions get -/
def nextHandles (body : Body) (count : Nat) : List Handle :=
  (List.range count).map fun i => Handle.mk (body.slots.size + i)

@[simp] theorem length_nextHandles (body : Body) (count : Nat) : (body.nextHandles count).length = count := by
  rw [nextHandles, List.length_map, List.length_range]

theorem mem_nextHandles {count : Nat} {h : Handle} :
    h ∈ body.nextHandles count ↔ body.slots.size ≤ h.number ∧ h.number < body.slots.size + count := by
  simp only [nextHandles, List.mem_map, List.mem_range]
  constructor
  · rintro ⟨i, hi, rfl⟩
    exact ⟨Nat.le_add_right _ _, by simpa using hi⟩
  · rintro ⟨hle, hlt⟩
    exact ⟨h.number - body.slots.size, by omega, by rw [Nat.add_sub_cancel' hle]⟩

theorem nodup_nextHandles (body : Body) (count : Nat) : (body.nextHandles count).Nodup := by
  refine List.Nodup.map ?_ List.nodup_range
  intro i j hij
  exact Nat.add_left_cancel (Handle.mk.inj hij)

theorem create_eq (body : Body) (i : Instruction) : body.create i = (body.nextHandle, body.filled [i] false body.order) :=
  rfl

theorem push_eq (body : Body) (i : Instruction) :
    body.push i = (body.nextHandle, body.filled [i] true (body.order ++ [body.nextHandle])) :=
  rfl

theorem insertAtStart_eq (body : Body) (instructions : List Instruction) : body.insertAtStart instructions =
    (body.nextHandles instructions.length,
      body.filled instructions true (body.nextHandles instructions.length ++ body.order)) :=
  rfl

theorem slots_filled (n : Nat) : (body.filled instructions whether order).slots[n]? =
    if n < body.slots.size then body.slots[n]?
    else instructions[n - body.slots.size]?.map fun instruction => Slot.mk instruction whether := by
  simp only [filled, Array.getElem?_append, List.getElem?_toArray, List.getElem?_map]

theorem mem_zip_nextHandles {h : Handle} {i : Instruction} :
    (h, i) ∈ (body.nextHandles instructions.length).zip instructions ↔
      body.slots.size ≤ h.number ∧ instructions[h.number - body.slots.size]? = some i := by
  simp only [List.mem_iff_getElem?, List.getElem?_zip_eq_some, nextHandles, List.getElem?_map, Option.map_eq_some_iff]
  constructor
  · rintro ⟨k, ⟨n, hn, rfl⟩, hk⟩
    obtain ⟨-, rfl⟩ := List.getElem?_eq_some_iff.1 hn
    simpa using hk
  · rintro ⟨hle, hk⟩
    have hlt := (List.getElem?_eq_some_iff.1 hk).1
    exact ⟨_, ⟨h.number - body.slots.size, List.getElem?_range hlt, by rw [Nat.add_sub_cancel' hle]⟩, hk⟩

theorem isPlaced_iff {h : Handle} : body.isPlaced h = true ↔ body.slots[h.number]?.map Slot.placed = some true := by
  rw [isPlaced]
  cases body.slots[h.number]? <;> simp

/-- a handle that names something has been given out -/
theorem lt_of_instruction? {h : Handle} {i : Instruction} (hi : body.instruction? h = some i) :
    h.number < body.slots.size := by
  rw [instruction?, Option.map_eq_some_iff] at hi
  obtain ⟨slot, hslot, -⟩ := hi
  exact (Array.getElem?_eq_some_iff.1 hslot).1

/-- what has been placed has been created -/
theorem exists_of_isPlaced {h : Handle} (hplaced : body.isPlaced h = true) : ∃ i, body.instruction? h = some i := by
  rw [isPlaced_iff, Option.map_eq_some_iff] at hplaced
  obtain ⟨slot, hslot, -⟩ := hplaced
  exact ⟨slot.instruction, by rw [instruction?, hslot, Option.map_some]⟩

/-- an instruction is found among the placed ones if it was created and placed -/
theorem placed?_eq_ok {h : Handle} {i : Instruction} :
    body.placed? h = .ok i ↔ body.isPlaced h = true ∧ body.instruction? h = some i := by
  rw [placed?, isPlaced_iff, instruction?]
  cases body.slots[h.number]? with
  | none => simp
  | some slot => cases hslot : slot.placed <;> simp [hslot]

/-- a handle of a filled body names what it named before, or one of the new instructions -/
theorem instruction?_filled {h : Handle} {i : Instruction} :
    (body.filled instructions whether order).instruction? h = some i ↔
      body.instruction? h = some i ∨ (h, i) ∈ (body.nextHandles instructions.length).zip instructions := by
  rw [mem_zip_nextHandles, instruction?, slots_filled]
  split
  · next hlt =>
    rw [instruction?, or_iff_left]
    exact fun hnew => Nat.not_le_of_lt hlt hnew.1
  · next hle =>
    rw [instruction?, Array.getElem?_eq_none (Nat.le_of_not_lt hle)]
    simp [Nat.le_of_not_lt hle]

/-- of the new instructions, all are placed or none -/
theorem isPlaced_filled {h : Handle} : (body.filled instructions whether order).isPlaced h = true ↔
    body.isPlaced h = true ∨ (whether = true ∧ h ∈ body.nextHandles instructions.length) := by
  rw [mem_nextHandles, isPlaced_iff, isPlaced_iff, slots_filled]
  by_cases hlt : h.number < body.slots.size
  · rw [if_pos hlt, or_iff_left]
    exact fun hnew => Nat.not_le_of_lt hlt hnew.2.1
  · have hle := Nat.le_of_not_lt hlt
    rw [if_neg hlt, Array.getElem?_eq_none hle]
    by_cases hin : h.number - body.slots.size < instructions.length
    · have hnew : h.number < body.slots.size + instructions.length := by omega
      simp [List.getElem?_eq_getElem hin, hle, hnew]
    · have hnot : ¬ h.number < body.slots.size + instructions.length := by omega
      simp [List.getElem?_eq_none (Nat.le_of_not_lt hin), hnot]

/-! ## Placing -/

theorem place?_eq_ok {h : Handle} {body' : Body} (hplace : body.place? h = .ok body') :
    ∃ slot, body.slots[h.number]? = some slot ∧ slot.placed = false ∧
      body' = { body with
        slots := body.slots.setIfInBounds h.number { slot with placed := true }
        order := body.order ++ [h] } := by
  rw [place?] at hplace
  cases hslot : body.slots[h.number]? with
  | none =>
    rw [hslot] at hplace
    cases hplace
  | some slot =>
    simp only [hslot] at hplace
    split at hplace
    · cases hplace
    · next hfree =>
      cases hplace
      exact ⟨slot, rfl, Bool.not_eq_true _ ▸ hfree, rfl⟩

/-- placing changes no instruction -/
theorem instruction?_place {h : Handle} {body' : Body} (hplace : body.place? h = .ok body') (h' : Handle) :
    body'.instruction? h' = body.instruction? h' := by
  obtain ⟨slot, hslot, -, rfl⟩ := place?_eq_ok hplace
  simp only [instruction?, Array.getElem?_setIfInBounds]
  split
  · next heq =>
    rw [← heq, hslot, if_pos (Array.getElem?_eq_some_iff.1 hslot).1]
    rfl
  · rfl

theorem isPlaced_place {h : Handle} {body' : Body} (hplace : body.place? h = .ok body') (h' : Handle) :
    body'.isPlaced h' = true ↔ body.isPlaced h' = true ∨ h' = h := by
  obtain ⟨slot, hslot, -, rfl⟩ := place?_eq_ok hplace
  simp only [isPlaced_iff, Array.getElem?_setIfInBounds]
  by_cases heq : h' = h
  · subst heq
    simp [(Array.getElem?_eq_some_iff.1 hslot).1]
  · have hne : h.number ≠ h'.number := fun hnumber => heq (congrArg Handle.mk hnumber.symm)
    rw [if_neg hne, or_iff_left heq]

theorem not_isPlaced_of_place {h : Handle} {body' : Body} (hplace : body.place? h = .ok body') :
    ¬ body.isPlaced h = true := by
  obtain ⟨slot, hslot, hfree, -⟩ := place?_eq_ok hplace
  rw [isPlaced_iff, hslot, Option.map_some, hfree]
  simp

theorem order_place {h : Handle} {body' : Body} (hplace : body.place? h = .ok body') :
    body'.order = body.order ++ [h] := by
  obtain ⟨slot, -, -, rfl⟩ := place?_eq_ok hplace
  rfl

/-- placing is refused for two reasons -/
theorem place?_eq_error {h : Handle} {e : BodyError} (hplace : body.place? h = .error e) :
    (e = .dangling h ∧ body.instruction? h = none) ∨ (e = .alreadyPlaced h ∧ body.isPlaced h = true) := by
  rw [place?] at hplace
  cases hslot : body.slots[h.number]? with
  | none =>
    rw [hslot] at hplace
    cases hplace
    exact .inl ⟨rfl, by rw [instruction?, hslot, Option.map_none]⟩
  | some slot =>
    simp only [hslot] at hplace
    split at hplace
    · next hplaced =>
      cases hplace
      exact .inr ⟨rfl, by rw [isPlaced_iff, hslot, Option.map_some, hplaced]⟩
    · cases hplace

/-- what has not been created cannot be placed -/
theorem place?_dangling {h : Handle} : body.place? h = .error (.dangling h) ↔ body.instruction? h = none := by
  rw [place?, instruction?]
  cases body.slots[h.number]? with
  | none => simp
  | some slot => cases hslot : slot.placed <;> simp [hslot]

/-- what has been placed cannot be placed again -/
theorem place?_alreadyPlaced {h : Handle} : body.place? h = .error (.alreadyPlaced h) ↔ body.isPlaced h = true := by
  rw [place?, isPlaced_iff]
  cases body.slots[h.number]? with
  | none => simp
  | some slot => cases hslot : slot.placed <;> simp [hslot]

/-! ## Positions -/

/-- a table of positions with one more, over what it had for the handle -/
def enter (found : Handle → Option Nat) (entry : Handle × Nat) : Handle → Option Nat :=
  Function.update found entry.1 (some entry.2)

/-- the positions of the placed instructions, entered one after the other -/
def positions (body : Body) : Handle → Option Nat :=
  body.order.zipIdx.foldl enter fun _ => none

/-- entering positions from `start` on answers them for what is listed, and changes nothing else -/
theorem foldl_enter (hnodup : order.Nodup) (start : Nat) (found : Handle → Option Nat) (h : Handle) :
    (order.zipIdx start).foldl enter found h = ((order.idxOf? h).map (start + ·)).or (found h) := by
  induction order generalizing start found with
  | nil => rfl
  | cons first rest ih =>
    obtain ⟨hfirst, hrest⟩ := List.nodup_cons.1 hnodup
    rw [List.zipIdx_cons, List.foldl_cons, ih hrest, List.idxOf?_cons, enter]
    by_cases heq : first = h
    · -- nothing goes over what is entered for the first handle, which is not listed again
      subst heq
      have hnone : rest.idxOf? first = none := by simpa using hfirst
      simp [hnone]
    · rw [Function.update_of_ne (Ne.symm heq), if_neg (by simpa using heq), Option.map_map]
      congr 2
      funext k
      simp only [Function.comp_apply]
      omega

theorem positions_eq (h : body.order.Nodup) : body.positions = body.position? := by
  funext handle
  rw [positions, foldl_enter h, position?]
  cases body.order.idxOf? handle <;> simp

/-- where nothing is placed twice, positions and order are inverse -/
theorem position?_eq_some (h : body.order.Nodup) {handle : Handle} {k : Nat} :
    body.position? handle = some k ↔ body.order[k]? = some handle := by
  rw [position?, List.idxOf?_eq_some_iff, List.getElem?_eq_some_iff]
  constructor
  · rintro ⟨hlt, hk, -⟩
    exact ⟨hlt, hk⟩
  · rintro ⟨hlt, hk⟩
    refine ⟨hlt, hk, fun j hj heq => ?_⟩
    have hsame : j = k := (h.getElem_inj_iff).1 (heq.trans hk.symm)
    omega

/-! ## Edits -/

/-- the handles that appending answers one after the other, with the instructions -/
def appended (body : Body) : List Instruction → List (Handle × Instruction)
  | [] => []
  | i :: rest => ((body.push i).1, i) :: appended (body.push i).2 rest

/-- a step in the writing of a body -/
inductive Edit where
  | create (instruction : Instruction)
  | place (handle : Handle)
  | push (instruction : Instruction)
  | append (instructions : List Instruction)
  | insertAtStart (instructions : List Instruction)
  | addLocal (type : TypeRef)
  | clear

/-- the body after the edit; placing may be refused -/
def Edit.apply (body : Body) : Edit → Body
  | .create i => (body.create i).2
  | .place h => (body.place? h).toOption.getD body
  | .push i => (body.push i).2
  | .append is => body.append is
  | .insertAtStart is => (body.insertAtStart is).2
  | .addLocal type => (body.addLocal type).2
  | .clear => empty

/-- the handles that the edit answers for new instructions, with these -/
def Edit.created (body : Body) : Edit → List (Handle × Instruction)
  | .create i => [((body.create i).1, i)]
  | .push i => [((body.push i).1, i)]
  | .append is => body.appended is
  | .insertAtStart is => (body.insertAtStart is).1.zip is
  | .place _ | .addLocal _ | .clear => []

/-- a body that is being written -/
structure Draft where
  body : Body := empty
  /-- what has been created since the body was last cleared -/
  made : List (Handle × Instruction) := []

namespace Draft

variable {draft : Draft}

/-- the draft after an edit: the ledger gets what was created, and clearing takes a new one -/
def edit (draft : Draft) : Edit → Draft
  | .clear => { body := Edit.clear.apply draft.body, made := [] }
  | edit => { body := edit.apply draft.body, made := draft.made ++ edit.created draft.body }

/-- the new body after the edits -/
def after (edits : List Edit) : Draft :=
  edits.foldl edit {}

/-! ## What every edit keeps -/

/-- the ledger says what the handles name, and the order lists what has been placed, each handle once -/
structure Coherent (draft : Draft) : Prop where
  named : ∀ h i, (h, i) ∈ draft.made ↔ draft.body.instruction? h = some i
  once : (draft.made.map Prod.fst).Nodup
  nodup : draft.body.order.Nodup
  listed : ∀ h, h ∈ draft.body.order ↔ draft.body.isPlaced h = true

/-- a handle of the ledger has been given out -/
theorem Coherent.lt (h : draft.Coherent) {handle : Handle} (hmade : handle ∈ draft.made.map Prod.fst) :
    handle.number < draft.body.slots.size := by
  obtain ⟨⟨_, i⟩, hentry, rfl⟩ := List.mem_map.1 hmade
  exact lt_of_instruction? ((h.named _ i).1 hentry)

theorem Coherent.listed_made (h : draft.Coherent) {handle : Handle} (hlisted : handle ∈ draft.body.order) :
    handle ∈ draft.made.map Prod.fst := by
  obtain ⟨i, hi⟩ := exists_of_isPlaced ((h.listed handle).1 hlisted)
  exact List.mem_map.2 ⟨(handle, i), (h.named handle i).2 hi, rfl⟩

theorem coherent_empty : Coherent {} where
  named h i := by simp [instruction?, empty]
  once := List.nodup_nil
  nodup := List.nodup_nil
  listed h := by simp [isPlaced, empty]

/-- the handles that come next are new ones -/
theorem Coherent.fresh (h : draft.Coherent) (count : Nat) {handle : Handle}
    (hnext : handle ∈ draft.body.nextHandles count) : handle ∉ draft.made.map Prod.fst :=
  fun hmade => Nat.not_le_of_lt (h.lt hmade) (mem_nextHandles.1 hnext).1

/-- **Filling slots keeps a draft coherent**, wherever the new handles are listed if they are placed. -/
theorem Coherent.filled (h : draft.Coherent) (is : List Instruction) (whether : Bool) {order : List Handle}
    (horder : order.Perm ((if whether then draft.body.nextHandles is.length else []) ++ draft.body.order)) :
    Coherent ⟨draft.body.filled is whether order, draft.made ++ (draft.body.nextHandles is.length).zip is⟩ where
  named handle i := by
    rw [List.mem_append, h.named, instruction?_filled]
  once := by
    -- handles count on from those that have been given out, so a new one is not in the ledger
    rw [List.map_append, List.map_fst_zip (by simp)]
    refine h.once.append (nodup_nextHandles _ _) ?_
    exact fun handle hmade hnext => h.fresh _ hnext hmade
  nodup := by
    rw [Body.filled, horder.nodup_iff]
    split
    · refine (nodup_nextHandles _ _).append h.nodup ?_
      exact fun handle hnext hlisted => h.fresh _ hnext (h.listed_made hlisted)
    · exact h.nodup
  listed handle := by
    rw [isPlaced_filled, ← h.listed]
    show handle ∈ order ↔ _
    rw [horder.mem_iff, List.mem_append, or_comm]
    cases whether <;> simp

/-- **Placing keeps a draft coherent.** -/
theorem Coherent.placed (h : draft.Coherent) {handle : Handle} {body' : Body}
    (hplace : draft.body.place? handle = .ok body') : Coherent ⟨body', draft.made⟩ where
  named handle' i := by rw [instruction?_place hplace, h.named]
  once := h.once
  nodup := by
    have hnew : handle ∉ draft.body.order := by
      rw [h.listed]
      exact not_isPlaced_of_place hplace
    rw [order_place hplace]
    refine h.nodup.append (List.nodup_singleton _) ?_
    rwa [List.disjoint_singleton]
  listed handle' := by
    rw [order_place hplace, List.mem_append, h.listed, List.mem_singleton, isPlaced_place hplace]

theorem Coherent.push (h : draft.Coherent) (i : Instruction) :
    Coherent ⟨(draft.body.push i).2, draft.made ++ [((draft.body.push i).1, i)]⟩ := by
  rw [push_eq]
  exact h.filled [i] true List.perm_append_comm

/-- appending is pushing one after the other -/
theorem Coherent.append (h : draft.Coherent) (is : List Instruction) :
    Coherent ⟨draft.body.append is, draft.made ++ draft.body.appended is⟩ := by
  induction is generalizing draft with
  | nil => simpa [Body.append, appended] using h
  | cons i rest ih =>
    have hrest := ih (h.push i)
    rwa [List.append_assoc, List.singleton_append] at hrest

/-- **Every edit keeps a draft coherent.** -/
theorem edit_coherent (h : draft.Coherent) (edit : Edit) : (draft.edit edit).Coherent := by
  cases edit with
  | create i =>
    simp only [Draft.edit, Edit.apply, Edit.created, create_eq]
    exact h.filled [i] false (List.Perm.refl draft.body.order)
  | place handle =>
    simp only [Draft.edit, Edit.apply, Edit.created, List.append_nil]
    cases hplace : draft.body.place? handle with
    | error _ => exact h
    | ok body' => exact h.placed hplace
  | push i => exact h.push i
  | append is => exact h.append is
  | insertAtStart is =>
    simp only [Draft.edit, Edit.apply, Edit.created, insertAtStart_eq]
    exact h.filled is true (List.Perm.refl _)
  | addLocal type =>
    simp only [Draft.edit, Edit.apply, Edit.created, List.append_nil]
    exact ⟨h.named, h.once, h.nodup, h.listed⟩
  | clear => exact coherent_empty

/-- so does every run of edits -/
theorem foldl_coherent (h : draft.Coherent) (edits : List Edit) : (edits.foldl edit draft).Coherent := by
  induction edits generalizing draft with
  | nil => exact h
  | cons edit edits ih => exact ih (edit_coherent h edit)

theorem after_coherent (edits : List Edit) : (after edits).Coherent := foldl_coherent coherent_empty edits

/-! ## What is read from an edited body -/

theorem made_edit (draft : Draft) {edit : Edit} (h : edit ≠ .clear) :
    (draft.edit edit).made = draft.made ++ edit.created draft.body := by
  cases edit with
  | clear => exact absurd rfl h
  | _ => rfl

/-- the ledger is only added to until the body is cleared -/
theorem made_grows (draft : Draft) {more : List Edit} (h : Edit.clear ∉ more) :
    draft.made <+: (more.foldl edit draft).made := by
  induction more generalizing draft with
  | nil => exact List.prefix_refl draft.made
  | cons edit more ih =>
    have hstep : draft.made <+: (draft.edit edit).made := by
      rw [made_edit draft (List.ne_of_not_mem_cons h).symm]
      exact List.prefix_append _ _
    exact hstep.trans (ih (draft.edit edit) (List.not_mem_of_not_mem_cons h))

/-- a handle names the same instruction until the body is cleared -/
theorem Coherent.lasting (h : draft.Coherent) {more : List Edit} (hmore : Edit.clear ∉ more) {handle : Handle}
    {i : Instruction} (hi : draft.body.instruction? handle = some i) :
    (more.foldl edit draft).body.instruction? handle = some i := by
  have hmade : (handle, i) ∈ draft.made := (h.named handle i).2 hi
  exact ((foldl_coherent h more).named handle i).1 ((made_grows draft hmore).subset hmade)

/-- handles with what they name are what they are paired with -/
theorem filterMap_named {handles : List Handle} {is : List Instruction} (hlength : handles.length = is.length)
    (hnamed : ∀ entry ∈ handles.zip is, body.instruction? entry.1 = some entry.2) :
    handles.filterMap (fun h => (body.instruction? h).map fun i => (h, i)) = handles.zip is := by
  have hentries : (handles.zip is).filterMap some = handles.zip is := List.filterMap_some
  rw [← hentries]
  conv_lhs => rw [← List.map_fst_zip (Nat.le_of_eq hlength), List.filterMap_map]
  refine List.filterMap_congr fun entry hentry => ?_
  rw [Function.comp_apply, hnamed entry hentry, Option.map_some]

/-- **Insertion at the start puts the new instructions first**, and leaves what follows as it was. -/
theorem Coherent.entries_insertAtStart (h : draft.Coherent) (is : List Instruction) :
    (draft.body.insertAtStart is).2.entries = (draft.body.insertAtStart is).1.zip is ++ draft.body.entries := by
  simp only [insertAtStart_eq, entries]
  rw [show (draft.body.filled is true _).order = draft.body.nextHandles is.length ++ draft.body.order from rfl,
    List.filterMap_append]
  congr 1
  · refine filterMap_named (length_nextHandles _ _) fun entry hentry => ?_
    exact instruction?_filled.2 (.inr hentry)
  · refine List.filterMap_congr fun handle hlisted => ?_
    obtain ⟨i, hi⟩ := exists_of_isPlaced ((h.listed handle).1 hlisted)
    rw [hi, instruction?_filled.2 (.inl hi)]

/-- what readers and writers of a body rely on -/
structure Represented (draft : Draft) : Prop where
  /-- no handle is listed twice -/
  nodup : draft.body.order.Nodup
  /-- a handle is listed if and only if it counts as placed -/
  listed : ∀ h, h ∈ draft.body.order ↔ draft.body.isPlaced h = true
  /-- what is found under a handle is what it was created with, and it is found if the handle is listed -/
  found : ∀ h i, draft.body.placed? h = .ok i ↔ h ∈ draft.body.order ∧ (h, i) ∈ draft.made
  /-- what is listed has been created since the body was last cleared -/
  created : ∀ h ∈ draft.body.order, ∃ i, (h, i) ∈ draft.made
  /-- no handle is given out twice, and each names what it was created with -/
  named : (draft.made.map Prod.fst).Nodup ∧ ∀ h i, draft.body.instruction? h = some i ↔ (h, i) ∈ draft.made
  /-- a handle names the same instruction until the body is cleared -/
  lasting : ∀ more : List Edit, Edit.clear ∉ more → ∀ h i, draft.body.instruction? h = some i →
    (more.foldl edit draft).body.instruction? h = some i
  /-- positions and order are inverse -/
  inverse : (∀ h k, draft.body.position? h = some k ↔ draft.body.order[k]? = some h) ∧
    draft.body.positions = draft.body.position?
  /-- insertion puts the new instructions first, in the given order, and the others follow as before -/
  inserted : ∀ is, (draft.body.insertAtStart is).1.length = is.length ∧
    (draft.body.insertAtStart is).2.order = (draft.body.insertAtStart is).1 ++ draft.body.order ∧
    (draft.body.insertAtStart is).2.entries = (draft.body.insertAtStart is).1.zip is ++ draft.body.entries
  /-- what has been created and not placed can be placed, and comes last -/
  placeable : ∀ h i, (h, i) ∈ draft.made → h ∉ draft.body.order →
    ∃ body', draft.body.place? h = .ok body' ∧ body'.order = draft.body.order ++ [h]
  /-- what has not been created, and what has been placed, cannot be placed, and the body stays as it is -/
  refused : ∀ h, ((∀ i, (h, i) ∉ draft.made) → draft.body.place? h = .error (.dangling h)) ∧
    (h ∈ draft.body.order → draft.body.place? h = .error (.alreadyPlaced h)) ∧
    ∀ e, draft.body.place? h = .error e → (Edit.place h).apply draft.body = draft.body

/-- created and not placed: there is nothing else that placing checks -/
theorem Coherent.placeable (h : draft.Coherent) {handle : Handle} {i : Instruction} (hmade : (handle, i) ∈ draft.made)
    (hfree : handle ∉ draft.body.order) :
    ∃ body', draft.body.place? handle = .ok body' ∧ body'.order = draft.body.order ++ [handle] := by
  cases hplace : draft.body.place? handle with
  | ok body' => exact ⟨body', rfl, order_place hplace⟩
  | error e =>
    rcases place?_eq_error hplace with ⟨-, hnone⟩ | ⟨-, hplaced⟩
    · rw [(h.named handle i).1 hmade] at hnone
      cases hnone
    · exact absurd ((h.listed handle).2 hplaced) hfree

theorem Coherent.represented (h : draft.Coherent) : draft.Represented where
  nodup := h.nodup
  listed := h.listed
  found handle i := by rw [placed?_eq_ok, h.listed, h.named]
  created handle hlisted := by
    obtain ⟨i, hi⟩ := exists_of_isPlaced ((h.listed handle).1 hlisted)
    exact ⟨i, (h.named handle i).2 hi⟩
  named := ⟨h.once, fun handle i => (h.named handle i).symm⟩
  lasting more hmore handle i hi := h.lasting hmore hi
  inverse := ⟨fun handle k => position?_eq_some h.nodup, positions_eq h.nodup⟩
  inserted is := ⟨length_nextHandles _ _, rfl, h.entries_insertAtStart is⟩
  placeable handle i hmade hfree := h.placeable hmade hfree
  refused handle := by
    refine ⟨fun hnot => ?_, fun hlisted => ?_, fun e he => ?_⟩
    · rw [place?_dangling, Option.eq_none_iff_forall_ne_some]
      exact fun i hi => hnot i ((h.named handle i).2 hi)
    · rw [place?_alreadyPlaced]
      exact (h.listed handle).1 hlisted
    · rw [Edit.apply, he]
      rfl

/-- **Every sequence of edits keeps the representation of a body**: what is listed, placed, found and created agree,
handles name what they were created with until the body is cleared, and positions are the inverse of the order. -/
theorem representation_kept (edits : List Edit) : (after edits).Represented :=
  (after_coherent edits).represented

/-- a jump to code that is placed later, and code inserted before all of it -/
example :
    let edits : List Edit := [.create .ret, .push (.brfalse ⟨0⟩), .push .nop, .place ⟨0⟩, .insertAtStart [.ldarg 0, .pop]]
    (after edits).body.order = [⟨3⟩, ⟨4⟩, ⟨1⟩, ⟨2⟩, ⟨0⟩] := by decide

end Draft

end Body

end DisposalWeaver
