/-
Executions that leave the shape of the frames alone.

The numbers of arguments and locals of active calls never change, and a trap never says that code ran without operands or
without an instruction, unless it was made to. `Exec.Keeps` states both together with what an execution answers. It comes
with rules for chaining, and with one lemma for each operation that instructions are made of.
-/
import DisposalWeaver.Machine.Activation
import DisposalWeaver.Proofs.Outcomes

namespace DisposalWeaver

/-! ## What is kept -/

/-- does the trap say that code ran without operands or without an instruction? -/
def Trap.isStructural : Trap → Bool
  | .stackUnderflow | .fellOffEnd _ => true
  | _ => false

/-- numbers of arguments and locals of the active calls, which never change -/
def Machine.shape (machine : Machine) : Array (Nat × Nat) :=
  machine.frames.map fun frame => (frame.arguments.length, frame.locals.size)

namespace Machine

/-- a change of one frame that keeps its numbers of arguments and locals keeps the shape -/
theorem shape_modify {machine : Machine} (depth : Nat) {change : Frame → Frame}
    (h1 : ∀ frame, (change frame).arguments.length = frame.arguments.length)
    (h2 : ∀ frame, (change frame).locals.size = frame.locals.size) :
    { machine with frames := machine.frames.modify depth change }.shape = machine.shape := by
  unfold shape
  apply Array.ext
  · simp
  · intro k _ _
    simp only [Array.getElem_map, Array.getElem_modify]
    split
    · rw [h1, h2]
    · rfl

theorem shape_write (machine : Machine) (value : Value) (place : Address) :
    (machine.write value place).shape = machine.shape := by
  cases place with
  | field o f => rfl
  | static f => rfl
  | «variable» depth index => exact shape_modify depth (fun _ => rfl) fun _ => Array.size_setIfInBounds

theorem shape_apply (machine : Machine) (change : Change) : (machine.apply change).shape = machine.shape := by
  cases change with
  | store place value => exact machine.shape_write value place
  | _ => rfl

theorem shape_push (machine : Machine) (frame : Frame) : (machine.push frame).shape =
    machine.shape.push (frame.arguments.length, frame.locals.size) :=
  Array.map_push

/-- taking away the frame that was added last gives the frames back as they were -/
theorem shape_pop {machine machine' : Machine} {frame : Frame}
    (h : machine'.shape = (machine.push frame).shape) :
    machine'.pop.shape = machine.shape := by
  rw [shape_push] at h
  simp only [shape, Machine.pop, Array.map_pop] at h ⊢
  rw [h, Array.pop_push]

end Machine

namespace Exec

variable {α β : Type} {x : Exec α} {M : Machine} {ok : α → Prop}

/-- the execution keeps the shape of the frames; it answers as `ok` says, or ends in a trap that is not structural -/
def Keeps (x : Exec α) (M : Machine) (ok : α → Prop) : Prop :=
  x.Ends M (fun a M' => M'.shape = M.shape ∧ ok a) (fun t M' => M'.shape = M.shape ∧ t.isStructural = false)

theorem keeps_pure {a : α} (h : ok a) : (pure a : Exec α).Keeps M ok := ⟨rfl, h⟩

theorem keeps_get : (get : Exec Machine).Keeps M (· = M) := ⟨rfl, rfl⟩

theorem keeps_throw {t : Trap} (h : t.isStructural = false) : (throw t : Exec α).Keeps M ok := ⟨rfl, h⟩

theorem keeps_modify {f : Machine → Machine} {ok : Unit → Prop} (h : (f M).shape = M.shape) (hok : ok ()) :
    (modify f : Exec Unit).Keeps M ok := ⟨h, hok⟩

theorem Keeps.of_ok {a : α} {M' : Machine} (h : x.Keeps M ok) (hx : x M = .ok a M') : M'.shape = M.shape ∧ ok a :=
  Ends.of_ok h hx

theorem Keeps.of_error {t : Trap} {M' : Machine} (h : x.Keeps M ok) (hx : x M = .error t M') :
    M'.shape = M.shape ∧ t.isStructural = false :=
  Ends.of_error h hx

theorem keeps_of_ok {a : α} {M' : Machine} (hx : x M = .ok a M') (h : M'.shape = M.shape ∧ ok a) : x.Keeps M ok := by
  unfold Keeps Ends
  rw [hx]
  exact h

theorem keeps_of_error {t : Trap} {M' : Machine} (hx : x M = .error t M')
    (h : M'.shape = M.shape ∧ t.isStructural = false) : x.Keeps M ok := by
  unfold Keeps Ends
  rw [hx]
  exact h

/-- an execution that has kept the shape so far and goes on as another one -/
theorem Keeps.resume {y : Exec α} {M' : Machine} (h : y.Keeps M' ok) (hs : M'.shape = M.shape) (hx : x M = y M') :
    x.Keeps M ok := by
  unfold Keeps Ends at h ⊢
  rw [hx, ← hs]
  exact h

theorem Keeps.bind {f : α → Exec β} {ok' : β → Prop} (h : x.Keeps M ok)
    (hf : ∀ a M', M'.shape = M.shape → ok a → (f a).Keeps M' ok') : (x >>= f).Keeps M ok' := by
  cases hx : x M with
  | ok a M' =>
    obtain ⟨hs, ha⟩ := h.of_ok hx
    exact (hf a M' hs ha).resume hs (by simp only [Bind.bind, EStateM.bind, hx])
  | error t M' =>
    exact keeps_of_error (by simp only [Bind.bind, EStateM.bind, hx]) (h.of_error hx)

theorem keeps_lift {e : Except Trap α} (h : ∀ t, e = .error t → t.isStructural = false) :
    (liftM e : Exec α).Keeps M fun a => e = .ok a := by
  cases e with
  | ok a => exact ⟨rfl, rfl⟩
  | error t => exact ⟨rfl, h t rfl⟩

end Exec

/-! ## Single operations -/

section Operations

open Exec

variable {g : TypeGraph} {M : Machine} {r : Routine}

theorem toInt32_keeps (v : Value) : (liftM v.toInt32 : Exec Int32).Keeps M fun _ => True := by
  cases v <;> exact ⟨rfl, by trivial⟩

theorem toObject_keeps (v : Value) : (liftM v.toObject : Exec ObjectRef).Keeps M fun _ => True := by
  cases v <;> exact ⟨rfl, by trivial⟩

theorem toAddress_keeps (v : Value) : (liftM v.toAddress : Exec Address).Keeps M fun _ => True := by
  cases v <;> exact ⟨rfl, by trivial⟩

theorem allocate_keeps (t : TypeId) : (Exec.allocate t).Keeps M fun _ => True := ⟨rfl, trivial⟩

theorem object_keeps (o : ObjectRef) : (Exec.object o).Keeps M fun _ => True := by
  unfold Exec.object Exec.Keeps
  simp only [ends_bind, ends_get]
  split <;> exact ⟨rfl, by trivial⟩

theorem field_keeps (o : ObjectRef) (f : FieldId) : (Exec.field g o f).Keeps M fun _ => True :=
  (object_keeps o).bind fun _ _ _ _ => keeps_pure trivial

theorem reach_keeps (place : Address) : (Exec.reach place).Keeps M fun _ => True := by
  unfold Exec.reach Exec.Keeps
  simp only [ends_bind, ends_get]
  split <;> exact ⟨rfl, by trivial⟩

theorem load_keeps (place : Address) : (Exec.load g place).Keeps M fun _ => True :=
  (reach_keeps place).bind fun _ _ _ _ => ⟨rfl, trivial⟩

theorem store_keeps (place : Address) (v : Value) : (Exec.store place v).Keeps M fun _ => True :=
  (reach_keeps place).bind fun _ M' _ _ => keeps_modify (M'.shape_write v place) trivial

theorem argument_keeps (n : UInt16) : (r.argument n).Keeps M fun _ => True := by
  unfold Routine.argument Exec.Keeps
  simp only [ends_bind, ends_get]
  split
  · exact ⟨rfl, rfl⟩
  · split <;> exact ⟨rfl, by trivial⟩

theorem setArgument_keeps (n : UInt16) (v : Value) : (r.setArgument n v).Keeps M fun _ => True :=
  (argument_keeps n).bind fun _ M' _ _ => keeps_modify (M'.shape_modify r.depth (fun _ => List.length_set) fun _ => rfl) trivial

theorem positionOf_keeps (layout : Layout) (t : Handle) :
    (Routine.positionOf layout t).Keeps M fun position => layout.position? t = some position := by
  unfold Routine.positionOf
  split
  · next position hp => exact keeps_pure hp
  · exact keeps_throw rfl

theorem pop_keeps {operands : Operands} (h : 0 < operands.stack.length) :
    operands.pop.Keeps M fun e => e.2.stack.length + 1 = operands.stack.length := by
  unfold Operands.pop
  split
  · next v rest hs => exact keeps_pure (by rw [hs]; rfl)
  · next hs => rw [hs] at h; cases h

theorem popArguments_keeps {operands : Operands} {count : Nat} (h : count ≤ operands.stack.length) :
    (operands.popArguments count).Keeps M fun e =>
      e.1.length = count ∧ e.2.stack.length + count = operands.stack.length := by
  unfold Operands.popArguments
  simp only [List.length_take]
  rw [if_neg (by omega)]
  refine keeps_pure ⟨?_, ?_⟩
  · simp only [List.length_reverse, List.length_take]; omega
  · simp only [List.length_drop]; omega

theorem readReceiver_keeps (arguments : List Value) :
    (Routine.readReceiver g arguments).Keeps M fun args => args.length = arguments.length := by
  cases arguments with
  | nil => exact keeps_pure rfl
  | cons receiver rest =>
    exact (toAddress_keeps receiver).bind fun place M1 _ _ =>
      (load_keeps place).bind fun v M2 _ _ => keeps_pure rfl

theorem keeps_attempt {α : Type} {x : Exec α} {ok : α → Prop} (h : x.Keeps M ok) :
    (Exec.attempt x).Keeps M fun e => ∀ v, e = .ok v → ok v := by
  cases hx : x M with
  | ok v M' =>
    have hok := h.of_ok hx
    exact keeps_of_ok (a := .ok v) (by simp only [Exec.attempt, hx]) ⟨hok.1, fun w hw => by cases hw; exact hok.2⟩
  | error t M' =>
    have herror := h.of_error hx
    cases t with
    | exception o =>
      exact keeps_of_ok (a := .error o) (by simp only [Exec.attempt, hx]) ⟨herror.1, fun w hw => by cases hw⟩
    | _ => exact keeps_of_error (by simp only [Exec.attempt, hx]) herror

theorem tick_keeps (limit : Nat) : (Routine.tick limit).Keeps M fun _ => True := by
  unfold Routine.tick Exec.Keeps
  simp only [ends_bind, ends_modify, ends_get]
  split
  · exact ⟨rfl, rfl⟩
  · exact ⟨rfl, trivial⟩

theorem mapM_keeps {α β : Type} {f : α → Exec β} {ok : α → β → Prop} {xs : List α}
    (h : ∀ x ∈ xs, ∀ M', (f x).Keeps M' (ok x)) : (xs.mapM f).Keeps M fun ys => ∀ y ∈ ys, ∃ x ∈ xs, ok x y := by
  induction xs generalizing M with
  | nil => exact keeps_pure fun y hy => by cases hy
  | cons x xs ih =>
    rw [List.mapM_cons]
    refine (h x List.mem_cons_self M).bind fun y M1 _ hy => ?_
    refine (ih fun x' hx' => h x' (List.mem_cons_of_mem _ hx')).bind fun ys M2 _ hys => keeps_pure fun z hz => ?_
    rcases List.mem_cons.1 hz with rfl | hz
    · exact ⟨x, List.mem_cons_self, hy⟩
    · obtain ⟨x', hx', hz⟩ := hys z hz
      exact ⟨x', List.mem_cons_of_mem _ hx', hz⟩

theorem withFrame_keeps {α : Type} {x : Exec α} {ok : α → Prop} {frame : Frame}
    (h : x.Keeps (M.push frame) ok) : (Exec.withFrame frame x).Keeps M ok := by
  cases hx : x (M.push frame) with
  | ok v M' =>
    have hok := h.of_ok hx
    exact keeps_of_ok (by simp only [Exec.withFrame, hx]) ⟨Machine.shape_pop hok.1, hok.2⟩
  | error t M' =>
    have herror := h.of_error hx
    exact keeps_of_error (by simp only [Exec.withFrame, hx]) ⟨Machine.shape_pop herror.1, herror.2⟩

end Operations

end DisposalWeaver
