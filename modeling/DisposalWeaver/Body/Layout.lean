/-
A body laid out for running: the instruction at every position, and the position of every handle, each by its number.

A layout answers the same questions as the body that it was made of (`fetch?_ofBody`, `position?_ofBody`), without going
through the sequence for each.
-/
import DisposalWeaver.Body.Basic

namespace DisposalWeaver

/-- what the positions and the handles of a body lead to -/
structure Layout where
  /-- instructions by position -/
  code : Array (Option Instruction)
  /-- positions by the number of the handle -/
  positions : Array (Option Nat)

namespace Layout

/-- the least number above those of all handles -/
def bound : List Handle → Nat
  | [] => 0
  | handle :: rest => max (handle.number + 1) (bound rest)

/-- a table of `size` positions for handles that stand from position `first` on; of two places of one handle the first
counts -/
def positionsFrom (size : Nat) : Nat → List Handle → Array (Option Nat)
  | _, [] => Array.replicate size none
  | first, handle :: rest => (positionsFrom size (first + 1) rest).setIfInBounds handle.number (some first)

/-- lays out a body -/
def ofBody (body : Body) : Layout :=
  { code := (body.order.map body.instruction?).toArray
    positions := positionsFrom (bound body.order) 0 body.order }

/-- the instruction at a position -/
def fetch? (layout : Layout) (position : Nat) : Option Instruction :=
  layout.code[position]?.join

/-- position of a placed instruction -/
def position? (layout : Layout) (handle : Handle) : Option Nat :=
  layout.positions[handle.number]?.join

theorem number_lt_bound {handle : Handle} {order : List Handle} (placed : handle ∈ order) :
    handle.number < bound order := by
  induction order with
  | nil => simp at placed
  | cons first rest ih =>
    simp only [bound]
    rcases List.mem_cons.1 placed with rfl | later
    · omega
    · have := ih later
      omega

theorem size_positionsFrom (size first : Nat) (order : List Handle) : (positionsFrom size first order).size = size := by
  induction order generalizing first with
  | nil => simp [positionsFrom]
  | cons handle rest ih => simp [positionsFrom, ih]

theorem positionsFrom_getElem? {size : Nat} (first : Nat) (order : List Handle) {handle : Handle}
    (inside : handle.number < size) :
    (positionsFrom size first order)[handle.number]? = some ((order.idxOf? handle).map (· + first)) := by
  induction order generalizing first with
  | nil => simp [positionsFrom, inside]
  | cons other rest ih =>
    rw [positionsFrom, Array.getElem?_setIfInBounds, size_positionsFrom, List.idxOf?_cons]
    by_cases same : other = handle
    · simp [same, inside]
    · have differs : other.number ≠ handle.number := fun h => same (by cases other; cases handle; simp_all)
      simp only [differs, ↓reduceIte, beq_iff_eq, same, ih, Option.map_map]
      congr 2
      funext position
      simp only [Function.comp_apply]
      omega

/-- The layout of a body has the body's instruction at each position. -/
theorem fetch?_ofBody (body : Body) (position : Nat) : (ofBody body).fetch? position = body.fetch? position := by
  simp only [fetch?, ofBody, Body.fetch?, List.getElem?_toArray, List.getElem?_map]
  cases body.order[position]? <;> rfl

/-- The layout of a body has each handle where the body has it. -/
theorem position?_ofBody (body : Body) (handle : Handle) : (ofBody body).position? handle = body.position? handle := by
  simp only [position?, ofBody, Body.position?]
  by_cases inside : handle.number < bound body.order
  · simp [positionsFrom_getElem? 0 body.order inside]
  · have absent : handle ∉ body.order := fun placed => inside (number_lt_bound placed)
    have outside : (positionsFrom (bound body.order) 0 body.order)[handle.number]? = none :=
      Array.getElem?_eq_none (by rw [size_positionsFrom]; omega)
    rw [outside, List.idxOf?_eq_none_iff.2 absent]
    rfl

end Layout

end DisposalWeaver
