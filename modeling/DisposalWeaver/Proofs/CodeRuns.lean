/-
Running known code.

Where the code of a routine is known, a run of it can be followed turn by turn. `Routine.go` and `Routine.goEvents` are
the turns of an activation and what happens in them, without the budget, which never runs out before the limit. An
instruction that only reads the arguments and the stack is silent (`Instruction.silent?`), and a chain of silent
instructions is passed in one go (`Glides`, `go_glide`). What is left are calls, stores and returns, one rule each.
-/
import DisposalWeaver.Proofs.DeepDrift
import DisposalWeaver.Proofs.PlacedCode

namespace DisposalWeaver

/-! ## Counts of instructions -/

/-- the machine with another count of instructions -/
def Machine.withSteps (M : Machine) (steps : Nat) : Machine := { M with steps }

namespace Machine

variable (M : Machine) (steps : Nat)

@[simp] theorem withSteps_heap : (M.withSteps steps).heap = M.heap := rfl
@[simp] theorem withSteps_statics : (M.withSteps steps).statics = M.statics := rfl
@[simp] theorem withSteps_frames : (M.withSteps steps).frames = M.frames := rfl
@[simp] theorem withSteps_events : (M.withSteps steps).events = M.events := rfl
@[simp] theorem withSteps_steps : (M.withSteps steps).steps = steps := rfl
@[simp] theorem withSteps_withSteps (steps' : Nat) : (M.withSteps steps).withSteps steps' = M.withSteps steps' := rfl
@[simp] theorem withSteps_self : M.withSteps M.steps = M := rfl
@[simp] theorem withSteps_object? (o : ObjectRef) : (M.withSteps steps).object? o = M.object? o := rfl

theorem pop_push (frame : Frame) : ((M.push frame).withSteps steps).pop = M.withSteps steps := by
  simp [push, pop, withSteps]

theorem withFrame_ok {α : Type} {frame : Frame} {x : Exec α} {a : α}
    (h : x (M.push frame) = .ok a ((M.push frame).withSteps steps)) :
    Exec.withFrame frame x M = .ok a (M.withSteps steps) := by
  simp only [Exec.withFrame, h, pop_push]

end Machine

/-! ## Turns without a budget -/

namespace Routine

/-- the turns of an activation -/
def go (invoker : Invoker) (r : Routine) (limit : Nat) (a : Activation) : Exec (Option Value) := fun M =>
  r.turns invoker limit (limit - M.steps + 1) a M

/-- what happens in them -/
def goEvents (invoker : Invoker) (calls : MethodId → List Value → Machine → List Event) (r : Routine) (limit : Nat)
    (a : Activation) (M : Machine) : List Event :=
  r.events invoker calls limit (limit - M.steps + 1) a M

section Budget

variable {invoker : Invoker} {calls : MethodId → List Value → Machine → List Event} {r : Routine} {limit : Nat}
  {a a' : Activation} {M N : Machine}

/-- a turn that goes on has counted its instruction, within the limit -/
theorem turn_resume (hc : CountsUp invoker.invoke) (h : r.turn invoker limit a M = .ok (.resume a') N) :
    M.steps < limit ∧ M.steps < N.steps := by
  have hsteps := turn_steps (r := r) (a := a) (M := M) hc limit
  unfold Exec.final at hsteps
  rw [h] at hsteps
  refine ⟨Nat.lt_of_not_le fun hle => ?_, hsteps⟩
  simp only [turn, bind, EStateM.bind, tick_error hle] at h
  cases h

/-- what is left of the budget after a turn is still enough -/
theorem budget_left {budget : Nat} (h : M.steps < limit) (hN : M.steps < N.steps)
    (hb : limit - M.steps + 1 ≤ budget + 1) : limit - N.steps + 1 ≤ budget := by
  omega

theorem turns_budget (hc : CountsUp invoker.invoke) {budget budget' : Nat} (hb : limit - M.steps + 1 ≤ budget)
    (hb' : limit - M.steps + 1 ≤ budget') : r.turns invoker limit budget a M = r.turns invoker limit budget' a M := by
  induction budget generalizing a M budget' with
  | zero => exact absurd hb (by omega)
  | succ budget ih =>
    cases budget' with
    | zero => exact absurd hb' (by omega)
    | succ budget' =>
      unfold turns
      cases ht : r.turn invoker limit a M with
      | error t N => rfl
      | ok turn N =>
        cases turn with
        | finish value => rfl
        | resume a' =>
          obtain ⟨hlimit, hsteps⟩ := turn_resume hc ht
          exact ih (budget_left hlimit hsteps hb) (budget_left hlimit hsteps hb')

theorem events_budget (hc : CountsUp invoker.invoke) {budget budget' : Nat} (hb : limit - M.steps + 1 ≤ budget)
    (hb' : limit - M.steps + 1 ≤ budget') :
    r.events invoker calls limit budget a M = r.events invoker calls limit budget' a M := by
  induction budget generalizing a M budget' with
  | zero => exact absurd hb (by omega)
  | succ budget ih =>
    cases budget' with
    | zero => exact absurd hb' (by omega)
    | succ budget' =>
      unfold events
      cases ht : r.turn invoker limit a M with
      | error t N => rfl
      | ok turn N =>
        cases turn with
        | finish value => rfl
        | resume a' =>
          obtain ⟨hlimit, hsteps⟩ := turn_resume hc ht
          simp only
          rw [ih (budget_left hlimit hsteps hb) (budget_left hlimit hsteps hb')]

/-- one turn and what follows it -/
theorem go_turn (hc : CountsUp invoker.invoke) : r.go invoker limit a M =
    match r.turn invoker limit a M with
    | .ok (.finish value) N => .ok value N
    | .ok (.resume a') N => r.go invoker limit a' N
    | .error t N => .error t N := by
  simp only [go, turns]
  cases ht : r.turn invoker limit a M with
  | error t N => rfl
  | ok turn N =>
    cases turn with
    | finish value => rfl
    | resume a' =>
      obtain ⟨hlimit, hsteps⟩ := turn_resume hc ht
      exact turns_budget hc (budget_left hlimit hsteps (Nat.le_refl _)) (Nat.le_refl _)

theorem goEvents_turn (hc : CountsUp invoker.invoke) : r.goEvents invoker calls limit a M =
    r.turnEvents invoker calls limit a M ++ match r.turn invoker limit a M with
      | .ok (.resume a') N => r.goEvents invoker calls limit a' N
      | _ => [] := by
  unfold goEvents
  rw [events]
  congr 1
  cases ht : r.turn invoker limit a M with
  | error t N => rfl
  | ok turn N =>
    cases turn with
    | finish value => rfl
    | resume a' =>
      obtain ⟨hlimit, hsteps⟩ := turn_resume hc ht
      exact events_budget hc (budget_left hlimit hsteps (Nat.le_refl _)) (Nat.le_refl _)

theorem go_steps (hc : CountsUp invoker.invoke) (hsize : KeepsSize invoker.invoke) :
    M.steps ≤ ((r.go invoker limit a).final M).steps :=
  turns_drift (drift_steps 0) (Nat.zero_le _) hsize (callsDrift_untold hc) (fun _ _ _ _ => Nat.le_refl _) limit _ fun e _ =>
    e.allowed_of_all fun _ => trivial

theorem go_final (hc : CountsUp invoker.invoke) : (r.go invoker limit a).final M = match r.turn invoker limit a M with
    | .ok (.finish _) N => N
    | .ok (.resume a') N => (r.go invoker limit a').final N
    | .error _ N => N := by
  unfold Exec.final
  rw [go_turn hc]
  cases r.turn invoker limit a M with
  | ok turn N => cases turn <;> rfl
  | error t N => rfl

/-- turns count at least one instruction -/
theorem go_counts (hc : CountsUp invoker.invoke) (hsize : KeepsSize invoker.invoke) :
    M.steps < ((r.go invoker limit a).final M).steps := by
  have hturn := turn_steps (r := r) (a := a) (M := M) hc limit
  rw [go_final hc]
  unfold Exec.final at hturn
  cases ht : r.turn invoker limit a M with
  | error t N => rw [ht] at hturn; exact hturn
  | ok turn N =>
    rw [ht] at hturn
    cases turn with
    | finish value => exact hturn
    | resume a' => exact Nat.lt_of_lt_of_le hturn (go_steps hc hsize)

end Budget

/-! ## Single turns -/

section Single

variable {invoker : Invoker} {calls : MethodId → List Value → Machine → List Event} {r : Routine} {limit : Nat}
  {a : Activation} {i : Instruction} {M N : Machine}

/-- a turn whose instruction is executed -/
theorem turn_ok (hlimit : M.steps < limit) (hi : r.layout.fetch? a.position = some i) {flow : Flow}
    {operands : Operands} (hx : r.execute invoker i a.operands (M.withSteps (M.steps + 1)) = .ok (flow, operands) N) :
    r.turn invoker limit a M = r.follow invoker.graph { a with operands } flow N := by
  unfold Machine.withSteps at hx
  simp only [turn, bind, EStateM.bind, tick_ok hlimit, hi, Exec.attempt, hx]

/-- a turn whose instruction traps in a way that cannot be caught -/
theorem turn_trap (hlimit : M.steps < limit) (hi : r.layout.fetch? a.position = some i) {t : Trap}
    (ht : ∀ e, t ≠ .exception e) (hx : r.execute invoker i a.operands (M.withSteps (M.steps + 1)) = .error t N) :
    r.turn invoker limit a M = .error t N := by
  unfold Machine.withSteps at hx
  cases t with
  | exception e => exact absurd rfl (ht e)
  | _ => simp only [turn, bind, EStateM.bind, tick_ok hlimit, hi, Exec.attempt, hx]

/-- no region protects the position -/
def Unprotected (r : Routine) (k : Nat) : Prop := ∀ region ∈ r.regions, region.protects k = false

/-- a turn whose instruction traps, where it is not protected -/
theorem turn_error (hlimit : M.steps < limit) (hi : r.layout.fetch? a.position = some i) (hr : r.Unprotected a.position)
    {t : Trap} (hx : r.execute invoker i a.operands (M.withSteps (M.steps + 1)) = .error t N) :
    r.turn invoker limit a M = .error t N := by
  cases t with
  | exception o =>
    unfold Machine.withSteps at hx
    have hnone : findRegion r.regions 0 (handles invoker.graph N a.position o) = none := by
      cases hf : findRegion r.regions 0 (handles invoker.graph N a.position o) with
      | none => rfl
      | some e =>
        obtain ⟨hmem, hhandles⟩ := findRegion_some hf
        rw [handles, hr e.1 hmem] at hhandles
        cases hhandles
    simp only [turn, bind, EStateM.bind, tick_ok hlimit, hi, Exec.attempt, hx, raiseFrom, get_run, hnone]
    rfl
  | _ => exact turn_trap hlimit hi (fun e he => by cases he) hx

/-- a turn whose instruction throws, where a `finally` handler comes first -/
theorem turn_finally (hlimit : M.steps < limit) (hi : r.layout.fetch? a.position = some i) {region : Region}
    {regions : List Region} (hr : r.regions = region :: regions) (hkind : region.kind = .finally)
    (hk : region.protects a.position = true) {e : ObjectRef}
    (hx : r.execute invoker i a.operands (M.withSteps (M.steps + 1)) = .error (.exception e) N) :
    r.turn invoker limit a M = .ok (.resume { position := region.handlerStart, pending :=
      { region := 0, purpose := .raise a.position e } :: a.pending }) N := by
  unfold Machine.withSteps at hx
  have hfound : findRegion r.regions 0 (handles invoker.graph N a.position e) = some (region, 0) := by
    have hhandles : handles invoker.graph N a.position e region = true := by rw [handles, hk, hkind]; rfl
    rw [hr, findRegion, List.drop_zero, findFrom, if_pos hhandles]
  simp only [turn, bind, EStateM.bind, tick_ok hlimit, hi, Exec.attempt, hx, raiseFrom, get_run, hfound, hkind]
  rfl

/-- what happens in a turn whose instruction makes no call -/
theorem turnEvents_done (hlimit : M.steps < limit) (hi : r.layout.fetch? a.position = some i)
    (hx : ∀ c arguments resume K,
      r.request invoker.graph i a.operands (M.withSteps (M.steps + 1)) ≠ .ok (.call c arguments resume) K) :
    r.turnEvents invoker calls limit a M = [.step r a i (M.withSteps (M.steps + 1))] := by
  unfold Machine.withSteps at hx ⊢
  simp only [turnEvents, tick_ok hlimit, hi]

end Single

/-! ## Silent instructions -/

/-- where control goes from a position -/
def landing (layout : Layout) (position : Nat) : Flow → Option Nat
  | .next => some (position + 1)
  | .jump t => layout.position? t
  | _ => none

end Routine

/-- what an instruction comes to that only reads the arguments and the stack -/
def Instruction.silent? (depth : Nat) (arguments : List Value) : Instruction → List Value → Option (Flow × List Value)
  | .nop, stack | .box _, stack => some (.next, stack)
  | .ldarg n, stack => arguments[n.toNat]?.map fun v => (.next, v :: stack)
  | .ldnull, stack => some (.next, .null :: stack)
  | .ldc v, stack => some (.next, .int32 v :: stack)
  | .ldloca n, stack => some (.next, .address (.variable depth n) :: stack)
  | .ldflda f, .object o :: stack => some (.next, .address (.field o f.field) :: stack)
  | .dup, v :: stack => some (.next, v :: v :: stack)
  | .pop, _ :: stack => some (.next, stack)
  | .br t, stack => some (.jump t, stack)
  | .brtrue t, v :: stack => some (if v.isTrue then .jump t else .next, stack)
  | .brfalse t, v :: stack => some (if v.isTrue then .next else .jump t, stack)
  | _, _ => none

/-- the frame at the given depth has these arguments -/
def Machine.Given (depth : Nat) (arguments : List Value) (M : Machine) : Prop :=
  M.frames[depth]?.map Frame.arguments = some arguments

namespace Routine

variable {invoker : Invoker} {calls : MethodId → List Value → Machine → List Event} {r : Routine} {limit : Nat}
  {i : Instruction} {arguments : List Value} {stack stack' : List Value} {M : Machine} {k k' : Nat}
  {pending : List Pending}

theorem argument_given {depth : Nat} (hM : M.Given depth arguments) (hr : r.depth = depth) {n : UInt16} {v : Value}
    (hv : arguments[n.toNat]? = some v) : r.argument n M = .ok v M := by
  unfold Machine.Given at hM
  rw [← hr, Option.map_eq_some_iff] at hM
  obtain ⟨frame, hframe, rfl⟩ := hM
  simp only [argument, bind, EStateM.bind, get_run, hframe, hv]
  rfl

/-- a silent instruction asks for nothing and leaves the machine alone -/
theorem request_silent {g : TypeGraph} (hM : M.Given r.depth arguments) {flow : Flow}
    (h : i.silent? r.depth arguments stack = some (flow, stack')) :
    r.request g i { stack } M = .ok (.done flow { stack := stack' }) M := by
  cases i with
  | nop | box t | ldnull | ldc v | ldloca n | br t => cases h; rfl
  | ldarg n =>
    obtain ⟨v, hv, heq⟩ := Option.map_eq_some_iff.1 (show arguments[n.toNat]?.map _ = _ from h)
    cases heq
    simp only [request, bind, EStateM.bind, argument_given hM rfl hv]
    rfl
  | ldflda f =>
    cases stack with
    | nil => cases h
    | cons v rest =>
      cases v with
      | object o => cases h; rfl
      | _ => cases h
  | dup | pop | brtrue t | brfalse t =>
    cases stack with
    | nil => cases h
    | cons v rest => cases h; rfl
  | _ => cases h

theorem turn_silent (hM : M.Given r.depth arguments) (hlimit : M.steps < limit) (hi : r.layout.fetch? k = some i)
    {flow : Flow} (h : i.silent? r.depth arguments stack = some (flow, stack')) (hk : landing r.layout k flow = some k') :
    r.turn invoker limit { position := k, operands := { stack }, pending } M =
      .ok (.resume { position := k', operands := { stack := stack' }, pending }) (M.withSteps (M.steps + 1)) := by
  have hgiven : (M.withSteps (M.steps + 1)).Given r.depth arguments := hM
  have hx : r.execute invoker i { stack } (M.withSteps (M.steps + 1)) =
      .ok (flow, { stack := stack' }) (M.withSteps (M.steps + 1)) := by
    simp only [execute, bind, EStateM.bind, request_silent hgiven h, resolve]
    rfl
  rw [turn_ok (a := { position := k, operands := { stack }, pending }) hlimit hi hx]
  cases flow with
  | next => cases hk; rfl
  | jump t =>
    simp only [follow, bind, EStateM.bind, positionOf, show r.layout.position? t = some k' from hk]
    rfl
  | _ => cases hk

/-- code that runs on silently from one position and stack to another, over the given positions -/
inductive Glides (r : Routine) (arguments : List Value) : List Nat → Nat × List Value → Nat × List Value → Prop where
  | refl (here) : Glides r arguments [] here here
  | step {k i stack flow stack' k' positions last} (hi : r.layout.fetch? k = some i)
      (hsilent : i.silent? r.depth arguments stack = some (flow, stack')) (hk : landing r.layout k flow = some k')
      (rest : Glides r arguments positions (k', stack') last) : Glides r arguments (k :: positions) (k, stack) last

variable {positions : List Nat} {first last : Nat × List Value}

theorem go_glide (hc : CountsUp invoker.invoke) (h : Glides r arguments positions first last)
    (hM : M.Given r.depth arguments) (hlimit : M.steps + positions.length ≤ limit) :
    r.go invoker limit { position := first.1, operands := { stack := first.2 }, pending } M =
      r.go invoker limit { position := last.1, operands := { stack := last.2 }, pending }
        (M.withSteps (M.steps + positions.length)) := by
  induction h generalizing M with
  | refl here => rfl
  | @step k i stack flow stack' k' positions last hi hsilent hk rest ih =>
    rw [List.length_cons] at hlimit ⊢
    rw [go_turn hc, turn_silent hM (by omega) hi hsilent hk]
    have hrest := ih (M := M.withSteps (M.steps + 1)) hM (by rw [Machine.withSteps_steps]; omega)
    simp only [Machine.withSteps_steps, Machine.withSteps_withSteps] at hrest
    rw [show M.steps + (positions.length + 1) = M.steps + 1 + positions.length by omega]
    exact hrest

/-! ## Calls, stores and returns -/

section Rules

variable (hc : CountsUp invoker.invoke) (hlimit : M.steps < limit) {a : Activation}

theorem popArguments_eq (values stack : List Value) (constrained : Bool) :
    Operands.popArguments { stack := values.reverse ++ stack, constrained } values.length M =
      .ok (values, { stack, constrained }) M := by
  simp only [Operands.popArguments, List.take_left' values.length_reverse, List.drop_left' values.length_reverse,
    List.length_reverse, lt_irrefl, ↓reduceIte, List.reverse_reverse]
  rfl

/-- goes on after a call, or stops with its trap -/
def resumeWith (invoker : Invoker) (r : Routine) (limit : Nat) (k : Nat) (stack : List Value) (pending : List Pending) :
    EStateM.Result Trap Machine (Option Value) → EStateM.Result Trap Machine (Option Value)
  | .ok value N => r.go invoker limit { position := k, operands := { stack := value.toList ++ stack }, pending } N
  | .error t N => .error t N

include hc hlimit

/-- a call that answers -/
theorem go_of_answer (hi : r.layout.fetch? a.position = some i) {c : MethodId} {values : List Value} {K : Machine}
    (hx : r.request invoker.graph i a.operands (M.withSteps (M.steps + 1)) =
      .ok (.call c values ({ stack } : Operands).pushResult) K) {value : Option Value}
    (hv : invoker.invoke c values K = .ok value N) : r.go invoker limit a M =
      r.go invoker limit
        { position := a.position + 1, operands := { stack := value.toList ++ stack }, pending := a.pending } N := by
  have hexecute : r.execute invoker i a.operands (M.withSteps (M.steps + 1)) =
      .ok (.next, ({ stack } : Operands).pushResult value) N := by
    simp only [execute, bind, EStateM.bind, hx, resolve, hv]
    rfl
  rw [go_turn hc, turn_ok hlimit hi hexecute]
  rfl

theorem go_of_call (hi : r.layout.fetch? a.position = some i) (hr : r.Unprotected a.position) {c : MethodId}
    {values : List Value} {K : Machine}
    (hx : r.request invoker.graph i a.operands (M.withSteps (M.steps + 1)) =
      .ok (.call c values ({ stack } : Operands).pushResult) K) : r.go invoker limit a M =
      resumeWith invoker r limit (a.position + 1) stack a.pending (invoker.invoke c values K) := by
  cases hv : invoker.invoke c values K with
  | ok value N => exact go_of_answer hc hlimit hi hx hv
  | error t N =>
    have hexecute : r.execute invoker i a.operands (M.withSteps (M.steps + 1)) = .error t N := by
      simp only [execute, bind, EStateM.bind, hx, resolve, hv]
    rw [go_turn hc, turn_error hlimit hi hr hexecute]
    rfl

/-- a call of exactly the given method -/
theorem go_call {m : MethodRef} (values : List Value) (hi : r.layout.fetch? k = some (.call m)) (hr : r.Unprotected k)
    (hm : (invoker.graph.method m.method).argumentCount = values.length) :
    r.go invoker limit { position := k, operands := { stack := values.reverse ++ stack }, pending } M =
      resumeWith invoker r limit (k + 1) stack pending
        (invoker.invoke m.method values (M.withSteps (M.steps + 1))) := by
  refine go_of_call (a := { position := k, operands := { stack := values.reverse ++ stack }, pending }) hc hlimit hi hr ?_
  simp only [request, bind, EStateM.bind, hm, popArguments_eq]
  rfl

/-- a call of the method that answers for the receiver -/
theorem go_callvirt {m : MethodRef} (values : List Value) (hi : r.layout.fetch? k = some (.callvirt m))
    (hr : r.Unprotected k)
    (hm : (invoker.graph.method m.method).argumentCount = values.length) :
    r.go invoker limit { position := k, operands := { stack := values.reverse ++ stack }, pending } M =
      resumeWith invoker r limit (k + 1) stack pending
        ((do invoker.invoke (← target invoker.graph m.method values) values : Exec (Option Value))
          (M.withSteps (M.steps + 1))) := by
  cases ht : target invoker.graph m.method values (M.withSteps (M.steps + 1)) with
  | ok found K =>
    simp only [bind, EStateM.bind, ht]
    refine go_of_call (a := { position := k, operands := { stack := values.reverse ++ stack }, pending }) hc hlimit hi hr ?_
    simp only [request, bind, EStateM.bind, hm, popArguments_eq, Bool.false_eq_true, ↓reduceIte, pure, EStateM.pure, ht]
  | error t K =>
    have hexecute : r.execute invoker (.callvirt m) { stack := values.reverse ++ stack } (M.withSteps (M.steps + 1)) =
        .error t K := by
      simp only [execute, request, bind, EStateM.bind, hm, popArguments_eq, Bool.false_eq_true, ↓reduceIte, pure,
        EStateM.pure, ht]
    rw [go_turn hc, turn_error (a := { position := k, operands := { stack := values.reverse ++ stack }, pending }) hlimit hi
      hr hexecute]
    simp only [bind, EStateM.bind, ht, resumeWith]

theorem go_of_next (hi : r.layout.fetch? a.position = some i) {operands : Operands} {K : Machine}
    (hx : r.request invoker.graph i a.operands (M.withSteps (M.steps + 1)) = .ok (.done .next operands) K) :
    r.go invoker limit a M = r.go invoker limit { a with position := a.position + 1, operands } K := by
  have hexecute : r.execute invoker i a.operands (M.withSteps (M.steps + 1)) = .ok (.next, operands) K := by
    simp only [execute, bind, EStateM.bind, hx, resolve]
    rfl
  rw [go_turn hc, turn_ok hlimit hi hexecute]
  rfl

theorem go_of_error (hi : r.layout.fetch? a.position = some i) (hr : r.Unprotected a.position) {t : Trap} {K : Machine}
    (hx : r.request invoker.graph i a.operands (M.withSteps (M.steps + 1)) = .error t K) :
    r.go invoker limit a M = .error t K := by
  have hexecute : r.execute invoker i a.operands (M.withSteps (M.steps + 1)) = .error t K := by
    simp only [execute, bind, EStateM.bind, hx]
  rw [go_turn hc, turn_error hlimit hi hr hexecute]

/-- goes on after a change, or stops with its trap -/
def continueWith (invoker : Invoker) (r : Routine) (limit : Nat) (k : Nat) (stack : List Value) (pending : List Pending) :
    EStateM.Result Trap Machine Unit → EStateM.Result Trap Machine (Option Value)
  | .ok _ N => r.go invoker limit { position := k, operands := { stack }, pending } N
  | .error t N => .error t N

/-- a store to an instance field -/
theorem go_stfld {f : FieldRef} (hi : r.layout.fetch? k = some (.stfld f)) (hr : r.Unprotected k) {o : ObjectRef} {v : Value} :
    r.go invoker limit { position := k, operands := { stack := v :: .object o :: stack }, pending } M =
      continueWith invoker r limit (k + 1) stack pending
        (Exec.store (.field o f.field) v (M.withSteps (M.steps + 1))) := by
  cases hs : Exec.store (.field o f.field) v (M.withSteps (M.steps + 1)) with
  | ok u K =>
    refine go_of_next (a := { position := k, operands := { stack := v :: .object o :: stack }, pending }) hc hlimit hi ?_
    simp only [request, bind, EStateM.bind, Operands.pop, pure, EStateM.pure, Value.toObject, liftM, monadLift,
      MonadLift.monadLift, Exec.ofExcept, hs]
  | error t K =>
    refine go_of_error (a := { position := k, operands := { stack := v :: .object o :: stack }, pending }) hc hlimit hi hr ?_
    simp only [request, bind, EStateM.bind, Operands.pop, pure, EStateM.pure, Value.toObject, liftM, monadLift,
      MonadLift.monadLift, Exec.ofExcept, hs]

/-- a store to a local -/
theorem go_stloc {n : UInt16} (hi : r.layout.fetch? k = some (.stloc n)) (hr : r.Unprotected k) {v : Value} :
    r.go invoker limit { position := k, operands := { stack := v :: stack }, pending } M =
      continueWith invoker r limit (k + 1) stack pending
        (Exec.store (.variable r.depth n) v (M.withSteps (M.steps + 1))) := by
  cases hs : Exec.store (.variable r.depth n) v (M.withSteps (M.steps + 1)) with
  | ok u K =>
    refine go_of_next (a := { position := k, operands := { stack := v :: stack }, pending }) hc hlimit hi ?_
    simp only [request, bind, EStateM.bind, Operands.pop, pure, EStateM.pure, hs]
  | error t K =>
    refine go_of_error (a := { position := k, operands := { stack := v :: stack }, pending }) hc hlimit hi hr ?_
    simp only [request, bind, EStateM.bind, Operands.pop, pure, EStateM.pure, hs]

/-- a read of a local that is there -/
theorem go_ldloc {n : UInt16} (hi : r.layout.fetch? k = some (.ldloc n)) {v : Value}
    (hv : M.localAt? r.depth n = some v) :
    r.go invoker limit { position := k, operands := { stack }, pending } M =
      r.go invoker limit { position := k + 1, operands := { stack := v :: stack }, pending }
        (M.withSteps (M.steps + 1)) := by
  refine go_of_next (a := { position := k, operands := { stack }, pending }) hc hlimit hi ?_
  have hlocal : (M.withSteps (M.steps + 1)).localAt? r.depth n = some v := hv
  simp only [request, Exec.load, Exec.reach, bind, EStateM.bind, get_run,
    Machine.missing?, hlocal, Option.isSome_some, ↓reduceIte, pure, EStateM.pure, Machine.content, Option.getD_some,
    Operands.push]

/-- a read of an instance field -/
theorem go_ldfld {f : FieldRef} (hi : r.layout.fetch? k = some (.ldfld f)) {o : ObjectRef} {object : Object}
    (ho : M.object? o = some object) :
    r.go invoker limit { position := k, operands := { stack := .object o :: stack }, pending } M =
      r.go invoker limit
        { position := k + 1, operands := { stack := object.fieldOf invoker.graph f.field :: stack }, pending }
        (M.withSteps (M.steps + 1)) := by
  refine go_of_next (a := { position := k, operands := { stack := .object o :: stack }, pending }) hc hlimit hi ?_
  have hobject : (M.withSteps (M.steps + 1)).object? o = some object := ho
  simp only [request, bind, EStateM.bind, Operands.pop, pure, EStateM.pure, Value.toObject, liftM, monadLift,
    MonadLift.monadLift, Exec.ofExcept, Exec.field, Exec.object, get_run, hobject,
    Operands.push]

/-- a return from a method that returns nothing -/
theorem go_ret (hi : r.layout.fetch? k = some .ret) (hret : r.returnsValue = false) :
    r.go invoker limit { position := k, operands := { stack }, pending } M = .ok none (M.withSteps (M.steps + 1)) := by
  have hexecute : r.execute invoker .ret { stack } (M.withSteps (M.steps + 1)) =
      .ok (.return none, { stack }) (M.withSteps (M.steps + 1)) := by
    simp only [execute, request, bind, EStateM.bind, hret, Bool.false_eq_true, ↓reduceIte, pure, EStateM.pure, resolve]
  rw [go_turn hc, turn_ok (a := { position := k, operands := { stack }, pending }) hlimit hi hexecute]
  rfl

/-- a virtual call on what a pointer points to, after a prefix that says so -/
theorem go_through {m : MethodRef} (hi : r.layout.fetch? k = some (.callvirt m)) (hr : r.Unprotected k)
    (hm : (invoker.graph.method m.method).argumentCount = 1) {place : Address} :
    r.go invoker limit { position := k, operands := { stack := .address place :: stack, constrained := true }, pending } M =
      resumeWith invoker r limit (k + 1) stack pending
        ((do
          let v ← Exec.load invoker.graph place
          invoker.invoke (← target invoker.graph m.method [v]) [v] : Exec (Option Value))
          (M.withSteps (M.steps + 1))) := by
  have hpop : ∀ K : Machine, Operands.popArguments { stack := .address place :: stack, constrained := true } 1 K =
      .ok ([.address place], { stack, constrained := true }) K := fun K =>
    popArguments_eq (M := K) [.address place] stack true
  cases hl : Exec.load invoker.graph place (M.withSteps (M.steps + 1)) with
  | error t K =>
    refine (go_of_error hc hlimit hi hr (t := t) (K := K) ?_).trans ?_
    · simp only [request, bind, EStateM.bind, hm, hpop, ↓reduceIte, readReceiver, Value.toAddress, liftM, monadLift,
        MonadLift.monadLift, Exec.ofExcept, pure, EStateM.pure, hl]
    · simp only [bind, EStateM.bind, hl, resumeWith]
  | ok v K =>
    cases ht : target invoker.graph m.method [v] K with
    | error t K' =>
      refine (go_of_error hc hlimit hi hr (t := t) (K := K') ?_).trans ?_
      · simp only [request, bind, EStateM.bind, hm, hpop, ↓reduceIte, readReceiver, Value.toAddress, liftM,
          monadLift, MonadLift.monadLift, Exec.ofExcept, pure, EStateM.pure, hl, ht]
      · simp only [bind, EStateM.bind, hl, ht, resumeWith]
    | ok found K' =>
      simp only [bind, EStateM.bind, hl, ht]
      refine go_of_call (a := { position := k, operands := { stack := .address place :: stack, constrained := true }, pending })
        hc hlimit hi hr ?_
      simp only [request, bind, EStateM.bind, hm, hpop, ↓reduceIte, readReceiver, Value.toAddress, liftM,
        monadLift, MonadLift.monadLift, Exec.ofExcept, pure, EStateM.pure, hl, ht]

end Rules

/-! ## What happens on the way -/

section Happenings

/-- nothing happens once the limit is reached -/
theorem goEvents_out (hc : CountsUp invoker.invoke) {a : Activation} (hlimit : limit ≤ M.steps) :
    r.goEvents invoker calls limit a M = [] := by
  rw [goEvents_turn hc]
  simp only [turnEvents, turn, bind, EStateM.bind, tick_error hlimit, List.append_nil]

theorem go_out (hc : CountsUp invoker.invoke) {a : Activation} (hlimit : limit ≤ M.steps) :
    (r.go invoker limit a).final M = M.withSteps (M.steps + 1) := by
  rw [go_final hc]
  simp only [turn, bind, EStateM.bind, tick_error hlimit]
  rfl

variable (hc : CountsUp invoker.invoke) (hlimit : M.steps < limit)

include hc hlimit

/-- a silent instruction, in a run -/
theorem go_silent (hM : M.Given r.depth arguments) (hi : r.layout.fetch? k = some i) {flow : Flow}
    (h : i.silent? r.depth arguments stack = some (flow, stack')) (hk : landing r.layout k flow = some k') :
    r.go invoker limit { position := k, operands := { stack }, pending } M =
      r.go invoker limit { position := k', operands := { stack := stack' }, pending } (M.withSteps (M.steps + 1)) := by
  rw [go_turn hc, turn_silent hM hlimit hi h hk]

/-- … is all that happens in its turn -/
theorem goEvents_silent (hM : M.Given r.depth arguments) (hi : r.layout.fetch? k = some i) {flow : Flow}
    (h : i.silent? r.depth arguments stack = some (flow, stack')) (hk : landing r.layout k flow = some k') :
    r.goEvents invoker calls limit { position := k, operands := { stack }, pending } M =
      .step r { position := k, operands := { stack }, pending } i (M.withSteps (M.steps + 1)) ::
        r.goEvents invoker calls limit { position := k', operands := { stack := stack' }, pending }
          (M.withSteps (M.steps + 1)) := by
  have hgiven : (M.withSteps (M.steps + 1)).Given r.depth arguments := hM
  rw [goEvents_turn hc, turn_silent hM hlimit hi h hk, turnEvents_done hlimit hi fun c values resume K hcall => by
    rw [request_silent hgiven h] at hcall
    cases hcall]
  rfl

/-- what happens after a call, unless it traps -/
def resumeEvents (invoker : Invoker) (calls : MethodId → List Value → Machine → List Event) (r : Routine) (limit : Nat)
    (k : Nat) (stack : List Value) (pending : List Pending) :
    EStateM.Result Trap Machine (Option Value) → List Event
  | .ok value N => r.goEvents invoker calls limit
    { position := k, operands := { stack := value.toList ++ stack }, pending } N
  | .error _ _ => []

/-- a call of exactly the given method, and what happens during it and after it -/
theorem goEvents_call {m : MethodRef} (values : List Value) (hi : r.layout.fetch? k = some (.call m)) (hr : r.Unprotected k)
    (hm : (invoker.graph.method m.method).argumentCount = values.length) :
    r.goEvents invoker calls limit { position := k, operands := { stack := values.reverse ++ stack }, pending } M =
      .step r { position := k, operands := { stack := values.reverse ++ stack }, pending } (.call m)
          (M.withSteps (M.steps + 1)) ::
        (calls m.method values (M.withSteps (M.steps + 1)) ++ resumeEvents invoker calls r limit (k + 1) stack pending
          (invoker.invoke m.method values (M.withSteps (M.steps + 1)))) := by
  have hrequest : r.request invoker.graph (.call m) { stack := values.reverse ++ stack } (M.withSteps (M.steps + 1)) =
      .ok (.call m.method values ({ stack } : Operands).pushResult) (M.withSteps (M.steps + 1)) := by
    simp only [request, bind, EStateM.bind, hm, popArguments_eq]
    rfl
  have hturnEvents : r.turnEvents invoker calls limit { position := k, operands := { stack := values.reverse ++ stack }, pending } M =
      .step r { position := k, operands := { stack := values.reverse ++ stack }, pending } (.call m)
        (M.withSteps (M.steps + 1)) :: calls m.method values (M.withSteps (M.steps + 1)) := by
    unfold Machine.withSteps at hrequest ⊢
    simp only [turnEvents, tick_ok hlimit, hi, hrequest]
  rw [goEvents_turn hc, hturnEvents]
  cases hv : invoker.invoke m.method values (M.withSteps (M.steps + 1)) with
  | ok value N =>
    have hexecute : r.execute invoker (.call m) { stack := values.reverse ++ stack } (M.withSteps (M.steps + 1)) =
        .ok (.next, ({ stack } : Operands).pushResult value) N := by
      simp only [execute, bind, EStateM.bind, hrequest, resolve, hv]
      rfl
    rw [turn_ok (a := { position := k, operands := { stack := values.reverse ++ stack }, pending }) hlimit hi hexecute]
    rfl
  | error t N =>
    have hexecute : r.execute invoker (.call m) { stack := values.reverse ++ stack } (M.withSteps (M.steps + 1)) =
        .error t N := by
      simp only [execute, bind, EStateM.bind, hrequest, resolve, hv]
    rw [turn_error (a := { position := k, operands := { stack := values.reverse ++ stack }, pending }) hlimit hi hr hexecute]
    rfl

/-- a return is the last that happens -/
theorem goEvents_ret (hi : r.layout.fetch? k = some .ret) (hret : r.returnsValue = false) :
    r.goEvents invoker calls limit { position := k, operands := { stack }, pending } M =
      [.step r { position := k, operands := { stack }, pending } .ret (M.withSteps (M.steps + 1))] := by
  have hrequest : r.request invoker.graph .ret { stack } (M.withSteps (M.steps + 1)) =
      .ok (.done (.return none) { stack }) (M.withSteps (M.steps + 1)) := by
    simp only [request, hret, Bool.false_eq_true, ↓reduceIte, pure, EStateM.pure]
  have hexecute : r.execute invoker .ret { stack } (M.withSteps (M.steps + 1)) =
      .ok (.return none, { stack }) (M.withSteps (M.steps + 1)) := by
    simp only [execute, bind, EStateM.bind, hrequest, resolve]
    rfl
  have hturn : r.turn invoker limit { position := k, operands := { stack }, pending } M =
      .ok (.finish none) (M.withSteps (M.steps + 1)) :=
    (turn_ok (a := { position := k, operands := { stack }, pending }) hlimit hi hexecute).trans rfl
  have hevents : r.turnEvents invoker calls limit { position := k, operands := { stack }, pending } M =
      [.step r { position := k, operands := { stack }, pending } .ret (M.withSteps (M.steps + 1))] :=
    turnEvents_done hlimit hi fun c values resume K hcall => by
      rw [hrequest] at hcall
      cases hcall
  rw [goEvents_turn hc, hturn, hevents]
  rfl

end Happenings

/-! ## Bodies that hold code -/

/-- the routine of a body that protects nothing, in the frame at the given depth -/
def ofCode (g : TypeGraph) (m : MethodId) (body : Body) (depth : Nat) : Routine where
  method := m
  layout := Layout.ofBody body
  regions := []
  depth := depth
  returnsValue := (g.method m).returns.isSome

theorem given_push (p : Program) (body : Body) (values : List Value) (steps : Nat) :
    ((M.push (p.frameFor body values)).withSteps steps).Given M.frames.size values := by
  simp [Machine.Given, Machine.push, Program.frameFor]

/-- a body that holds code is laid out without regions -/
theorem prepare_code (g : TypeGraph) (m : MethodId) {body : Body} {code : List Instruction} (h : body.Holds code)
    (M : Machine) : prepare g m body M = .ok (ofCode g m body (M.frames.size - 1)) M := by
  simp only [prepare, h.handlers, List.mapM_nil, bind, EStateM.bind, pure, EStateM.pure, get_run, ofCode]

/-- a body that is laid out runs as its routine, in a frame of its own -/
theorem enter_prepared (p : Program) (invoke : MethodId → List Value → Exec (Option Value)) (m : MethodId) {body : Body}
    (values : List Value) {r : Routine} (hroom : M.frames.size < Program.maxFrames)
    (hr : prepare p.graph m body (M.push (p.frameFor body values)) = .ok r (M.push (p.frameFor body values))) :
    p.enter (p.invoker invoke) m body values M = Exec.withFrame (p.frameFor body values)
      (r.go (p.invoker invoke) p.stepLimit {}) M := by
  rw [enter_eq, if_neg (Nat.not_le.2 hroom)]
  simp only [Exec.withFrame]
  rw [(run_of_prepare (p.invoker invoke) p.stepLimit hr).2]
  rfl

/-- a body that holds code runs as a routine without regions, in a frame of its own -/
theorem enter_code (p : Program) (invoke : MethodId → List Value → Exec (Option Value)) (m : MethodId) {body : Body}
    {code : List Instruction} (h : body.Holds code) (values : List Value) (hroom : M.frames.size < Program.maxFrames) :
    p.enter (p.invoker invoke) m body values M = Exec.withFrame (p.frameFor body values)
      ((ofCode p.graph m body M.frames.size).go (p.invoker invoke) p.stepLimit {}) M := by
  refine enter_prepared p invoke m values hroom ((prepare_code p.graph m h _).trans ?_)
  simp only [Machine.push, Array.size_push, Nat.add_sub_cancel]

/-- what such a call leaves behind -/
theorem enter_code_final (p : Program) (invoke : MethodId → List Value → Exec (Option Value)) (m : MethodId) {body : Body}
    {code : List Instruction} (h : body.Holds code) (values : List Value) (hroom : M.frames.size < Program.maxFrames) :
    (p.enter (p.invoker invoke) m body values).final M =
      (((ofCode p.graph m body M.frames.size).go (p.invoker invoke) p.stepLimit {}).final
        (M.push (p.frameFor body values))).pop := by
  unfold Exec.final
  rw [enter_code p invoke m h values hroom, Exec.withFrame]
  cases (ofCode p.graph m body M.frames.size).go (p.invoker invoke) p.stepLimit {} (M.push (p.frameFor body values)) <;> rfl

/-- what happens during it -/
theorem enterEvents_code (p : Program) (invoke : MethodId → List Value → Exec (Option Value))
    (calls : MethodId → List Value → Machine → List Event) (m : MethodId) {body : Body} {code : List Instruction}
    (h : body.Holds code) (values : List Value) (hroom : M.frames.size < Program.maxFrames) :
    p.enterEvents (p.invoker invoke) calls m body values M =
      (ofCode p.graph m body M.frames.size).goEvents (p.invoker invoke) calls p.stepLimit {}
        (M.push (p.frameFor body values)) := by
  have hdepth : (M.push (p.frameFor body values)).frames.size - 1 = M.frames.size := by simp [Machine.push]
  rw [Program.enterEvents, if_neg (Nat.not_le.2 hroom), runEvents, Program.invoker, prepare_code p.graph m h, hdepth]
  rfl

end Routine

end DisposalWeaver
