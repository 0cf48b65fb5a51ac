/-
Values of the machine, and the places they are kept in.

A boolean is the integer 0 or 1. A place is an instance field, a static field or a local variable; a local is named by
the depth of its frame on the call stack.

- `Value.defaultFor`: what a place holds before anything is stored.
- `Value.isTrue`: what a conditional branch asks.
- `Cells`: contents of the fields that were ever stored to.
-/
import DisposalWeaver.TypeGraph.Spelling
import DisposalWeaver.Text.Quoted

namespace DisposalWeaver

/-- place of an object on the heap -/
structure ObjectRef where
  index : Nat
  deriving DecidableEq, Repr, Inhabited

/-- a place that a managed pointer can point to -/
inductive Address where
  | field (object : ObjectRef) (field : FieldId)
  | static (field : FieldId)
  /-- local variable, by the depth of its frame and its number -/
  | variable (depth : Nat) (index : UInt16)
  deriving DecidableEq, Repr, Inhabited

/-- a value on the evaluation stack or in a place -/
inductive Value where
  | null
  | int32 (value : Int32)
  | string (value : String)
  | object (object : ObjectRef)
  | address (address : Address)
  deriving DecidableEq, Repr, Inhabited

/-- an object as it is shown -/
def ObjectRef.text (object : ObjectRef) : String := s!"ObjectRef({object.index})"

/-- a place as it is shown -/
def Address.text (g : TypeGraph) : Address → String
  | .field object f => s!"Field({object.text}, {g.fieldLabel (g.field f)})"
  | .static f => s!"Static({g.fieldLabel (g.field f)})"
  | .variable depth index => s!"Local({depth}, {index.toNat})"

namespace Value

/-- a value as it is shown -/
def text (g : TypeGraph) : Value → String
  | null => "Null"
  | int32 value => s!"Int32({value.toInt})"
  | string value => s!"String({Text.quoted value})"
  | object o => s!"Object({o.text})"
  | address place => s!"Address({place.text g})"

/-- initial content of a place of the given type -/
def defaultFor (g : TypeGraph) (type : TypeRef) : Value :=
  if g.isValueTypeRef type then .int32 0 else .null

/-- the integer that stands for a truth value -/
def ofBool (b : Bool) : Value := .int32 (if b then 1 else 0)

/-- does a conditional branch take the value for true? -/
def isTrue : Value → Bool
  | null => false
  | int32 value => value != 0
  | _ => true

/-- the text, if the value is one -/
def text? : Value → Option String
  | string value => some value
  | _ => none

end Value

/-! ## Contents of fields -/

/-- what is looked up is listed -/
theorem mem_of_lookup {α β : Type} [BEq α] [LawfulBEq α] {key : α} {value : β} {entries : List (α × β)}
    (h : entries.lookup key = some value) : (key, value) ∈ entries := by
  obtain ⟨before, after, hsplit, -⟩ := List.lookup_eq_some_iff.1 h
  rw [hsplit]
  simp

/-- contents of fields, in the order of the first store to each -/
structure Cells where
  entries : List (FieldId × Value) := []
  deriving DecidableEq, Repr, Inhabited

namespace Cells

/-- what was last stored to a field -/
def get? (cells : Cells) (f : FieldId) : Option Value :=
  cells.entries.lookup f

/-- the entries after a store to a field -/
def store (f : FieldId) (value : Value) : List (FieldId × Value) → List (FieldId × Value)
  | [] => [(f, value)]
  | (key, old) :: rest => if key = f then (f, value) :: rest else (key, old) :: store f value rest

/-- stores a value to a field -/
def set (cells : Cells) (f : FieldId) (value : Value) : Cells :=
  ⟨store f value cells.entries⟩

theorem get?_set_self (cells : Cells) (f : FieldId) (value : Value) : (cells.set f value).get? f = some value := by
  unfold get? set
  induction cells.entries with
  | nil => simp [store]
  | cons entry rest ih =>
    obtain ⟨key, old⟩ := entry
    by_cases same : key = f
    · simp [store, same]
    · have differs : (f == key) = false := beq_eq_false_iff_ne.mpr (Ne.symm same)
      simpa [store, same, List.lookup_cons, differs] using ih

theorem get?_set_other (cells : Cells) {f k : FieldId} (value : Value) (other : k ≠ f) :
    (cells.set f value).get? k = cells.get? k := by
  have differs : (k == f) = false := beq_eq_false_iff_ne.mpr other
  unfold get? set
  induction cells.entries with
  | nil => simp [store, List.lookup_cons, differs]
  | cons entry rest ih =>
    obtain ⟨key, old⟩ := entry
    by_cases same : key = f
    · simp [store, same, List.lookup_cons, differs]
    · simp only [store, same, ↓reduceIte, List.lookup_cons, ih]

end Cells

end DisposalWeaver
