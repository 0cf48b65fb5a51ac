/-
How an execution ends, as a predicate that a `do` block is taken apart by.

`Exec.Ends` says of an execution, run from one machine, what holds of its answer or of its trap, and of the machine left
behind. One rule for each way of building an execution turns a claim about a `do` block into claims about its parts; the
rules are for `simp`, so that what remains of an instruction is what its operands and places have to be.
-/
import DisposalWeaver.Machine.State

namespace DisposalWeaver

/-- what a chain of steps answers comes from an answer of the first step -/
theorem ok_of_bind {ε α β : Type} {x : Except ε α} {f : α → Except ε β} {b : β} (h : (x >>= f) = .ok b) :
    ∃ a, x = .ok a ∧ f a = .ok b := by
  cases x with
  | error e => cases h
  | ok a => exact ⟨a, rfl, h⟩

theorem ok_of_map {ε α β : Type} {x : Except ε α} {f : α → β} {b : β} (h : x.map f = .ok b) :
    ∃ a, x = .ok a ∧ f a = b := by
  cases x with
  | error e => cases h
  | ok a => exact ⟨a, rfl, by cases h; rfl⟩

/-- … also where the steps change a state -/
theorem answer_of_bind {ε σ α β : Type} {x : EStateM ε σ α} {f : α → EStateM ε σ β} {s s' : σ} {b : β}
    (h : (x >>= f) s = .ok b s') : ∃ a s1, x s = .ok a s1 ∧ f a s1 = .ok b s' := by
  simp only [bind, EStateM.bind] at h
  cases hx : x s with
  | ok a s1 => exact ⟨a, s1, rfl, by rwa [hx] at h⟩
  | error cause s1 => rw [hx] at h; cases h

/-- asking for the state answers it -/
theorem get_run {ε σ : Type} (s : σ) : (get : EStateM ε σ σ) s = .ok s s := rfl

namespace Exec

variable {α β : Type} {x : Exec α} {M : Machine} {ok ok' : α → Machine → Prop} {err err' : Trap → Machine → Prop}

/-- run from `M`, the execution answers as `ok` says or traps as `err` says -/
def Ends (x : Exec α) (M : Machine) (ok : α → Machine → Prop) (err : Trap → Machine → Prop) : Prop :=
  match x M with
  | .ok a M' => ok a M'
  | .error t M' => err t M'

theorem Ends.weaken (h : x.Ends M ok err) (h1 : ∀ a M', ok a M' → ok' a M') (h2 : ∀ t M', err t M' → err' t M') :
    x.Ends M ok' err' := by
  unfold Ends at h ⊢
  split at h
  · exact h1 _ _ h
  · exact h2 _ _ h

theorem Ends.of_ok {a : α} {M' : Machine} (h : x.Ends M ok err) (hx : x M = .ok a M') : ok a M' := by
  simpa [Ends, hx] using h

theorem Ends.of_error {t : Trap} {M' : Machine} (h : x.Ends M ok err) (hx : x M = .error t M') : err t M' := by
  simpa [Ends, hx] using h

/-! ## One rule for each way of building an execution -/

@[simp] theorem ends_pure (a : α) : (pure a : Exec α).Ends M ok err ↔ ok a M := Iff.rfl

@[simp] theorem ends_throw (t : Trap) : (throw t : Exec α).Ends M ok err ↔ err t M := Iff.rfl

@[simp] theorem ends_get {ok : Machine → Machine → Prop} : (get : Exec Machine).Ends M ok err ↔ ok M M := Iff.rfl

@[simp] theorem ends_modify {ok : Unit → Machine → Prop} (f : Machine → Machine) :
    (modify f : Exec Unit).Ends M ok err ↔ ok () (f M) := Iff.rfl

@[simp] theorem ends_modifyGet (f : Machine → α × Machine) :
    (modifyGet f : Exec α).Ends M ok err ↔ ok (f M).1 (f M).2 := Iff.rfl

@[simp] theorem ends_bind {ok : β → Machine → Prop} (f : α → Exec β) :
    (x >>= f).Ends M ok err ↔ x.Ends M (fun a M' => (f a).Ends M' ok err) err := by
  simp only [Ends, bind, EStateM.bind]
  cases x M <;> rfl

@[simp] theorem ends_ite (c : Prop) [Decidable c] (y : Exec α) :
    (if c then x else y).Ends M ok err ↔ if c then x.Ends M ok err else y.Ends M ok err := by
  split <;> rfl

@[simp] theorem ends_lift_ok (a : α) : (liftM (Except.ok a : Except Trap α) : Exec α).Ends M ok err ↔ ok a M := Iff.rfl

@[simp] theorem ends_lift_error (t : Trap) :
    (liftM (Except.error t : Except Trap α) : Exec α).Ends M ok err ↔ err t M := Iff.rfl

end Exec

end DisposalWeaver
