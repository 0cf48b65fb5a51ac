/-
How the machine may change while things happen.

A `Drift` relates a machine, what happens from there on, and the machine afterwards. Nothing happening is one, one after
another is one, and so is everything that a run is made of: counting an instruction, changing a frame, an allowed change,
and the note of an event. What happens during the turns of a body, or while the host does some work, is then related by it from
the first machine to the last, given that the calls made on the way are (`turns_drift`, `host_drifts`).
-/
import DisposalWeaver.Proofs.FrameShape
import DisposalWeaver.Proofs.Trace

namespace DisposalWeaver

/-! ## Drifts -/

/-- the machine that an execution leaves behind -/
def Exec.final {α : Type} (x : Exec α) (M : Machine) : Machine :=
  match x M with
  | .ok _ N => N
  | .error _ N => N

/-- the instruction itself may make the change, on the given stack -/
def Instruction.Makes : Instruction → List Value → Change → Prop
  | .stfld f, v :: .object o :: _, c => c = .store (.field o f.field) v
  | .stsfld f, v :: _, c => c = .store (.static f.field) v
  | .newobj _, _, c => ∃ t, c = .allocate t
  | _, _, _ => False

/-- does the instruction store to the frame of its routine? -/
def Instruction.setsFrame : Instruction → Bool
  | .starg _ | .stloc _ => true
  | _ => false

/-- what happens makes no changes but allowed ones -/
def Event.Allowed (allowed : Change → Prop) : Event → Prop
  | .work c _ => allowed c
  | .step _ a i _ => ∀ c, i.Makes a.operands.stack c → allowed c
  | _ => True

theorem Event.allowed_of_all {allowed : Change → Prop} (h : ∀ c, allowed c) (e : Event) : e.Allowed allowed := by
  cases e with
  | work c M => exact h c
  | step r a i M => exact fun c _ => h c
  | _ => trivial

/-- is it the execution of an instruction? -/
def Event.isStep : Event → Bool
  | .step _ _ _ _ => true
  | _ => false

/-- a relation between a machine, what happens, and the machine afterwards, that holds of everything that a run is made
of, if frames outside the given depth stay as they are -/
structure Drift (S : Machine → List Event → Machine → Prop) (allowed : Change → Prop) (depth : Nat) : Prop where
  refl : ∀ M, S M [] M
  trans : ∀ {M K N events events'}, S M events K → S K events' N → S M (events ++ events') N
  tick : ∀ M, S M [] { M with steps := M.steps + 1 }
  frame : ∀ M d (f : Frame → Frame), depth ≤ d → (∀ frame, (f frame).locals.size = frame.locals.size) →
    S M [] { M with frames := M.frames.modify d f }
  change : ∀ M c, allowed c → S M [] (M.apply c)
  note : ∀ e : Event, e.isStep = false → S e.machine [e] e.machine

section

variable {S : Machine → List Event → Machine → Prop} {allowed : Change → Prop} {depth : Nat} {M K N : Machine}
  {events : List Event}

theorem Drift.after (hS : Drift S allowed depth) (h : S M [] K) (h' : S K events N) : S M events N :=
  hS.trans h h'

theorem Drift.before (hS : Drift S allowed depth) (h : S M events K) (h' : S K [] N) : S M events N := by
  simpa using hS.trans h h'

end

/-! ## Single instructions -/

namespace Exec

variable {α β : Type} {S : Machine → List Event → Machine → Prop} {allowed : Change → Prop} {depth : Nat} {x : Exec α}
  {M : Machine}

/-- the relation holds between the machine before and the machine after, however the execution ends -/
def Moves (S : Machine → List Event → Machine → Prop) (x : Exec α) (M : Machine) : Prop :=
  x.Ends M (fun _ N => S M [] N) (fun _ N => S M [] N)

theorem Moves.final (h : x.Moves S M) : S M [] (x.final M) := by
  unfold Moves Ends at h
  unfold Exec.final
  cases hx : x M <;> rw [hx] at h <;> exact h

theorem moves_pure (hS : Drift S allowed depth) (a : α) : (pure a : Exec α).Moves S M := hS.refl M

theorem moves_throw (hS : Drift S allowed depth) (t : Trap) : (throw t : Exec α).Moves S M := hS.refl M

theorem moves_lift (hS : Drift S allowed depth) (e : Except Trap α) : (liftM e : Exec α).Moves S M := by
  cases e <;> exact hS.refl M

theorem Moves.bind (hS : Drift S allowed depth) {f : α → Exec β} (h : x.Moves S M) (hf : ∀ a N, (f a).Moves S N) :
    (x >>= f).Moves S M := by
  refine (ends_bind f).2 (h.weaken (fun a N hN => ?_) fun t N hN => hN)
  exact (hf a N).weaken (fun _ _ h' => hS.after hN h') fun _ _ h' => hS.after hN h'

end Exec

section Instructions

open Exec

variable {S : Machine → List Event → Machine → Prop} {allowed : Change → Prop} {depth : Nat} {M : Machine}
  {g : TypeGraph} {r : Routine}

theorem get_moves (hS : Drift S allowed depth) : (get : Exec Machine).Moves S M := hS.refl M

theorem change_moves (hS : Drift S allowed depth) {c : Change} (hc : allowed c) : (Exec.change c).Moves S M :=
  hS.change M c hc

theorem object_moves (hS : Drift S allowed depth) (o : ObjectRef) : (Exec.object o).Moves S M :=
  (get_moves hS).bind hS fun M1 N => by
    split
    · exact moves_pure hS _
    · exact moves_throw hS _

theorem reach_moves (hS : Drift S allowed depth) (place : Address) : (Exec.reach place).Moves S M :=
  (get_moves hS).bind hS fun M1 N => by
    split
    · exact moves_throw hS _
    · exact moves_pure hS _

theorem load_moves (hS : Drift S allowed depth) (place : Address) : (Exec.load g place).Moves S M :=
  (reach_moves hS place).bind hS fun _ _ => (get_moves hS).bind hS fun _ _ => moves_pure hS _

theorem store_moves (hS : Drift S allowed depth) {place : Address} {v : Value} (h : allowed (.store place v)) :
    (Exec.store place v).Moves S M :=
  (reach_moves hS place).bind hS fun _ _ => change_moves hS h

/-- storing to a local is a change of frames -/
theorem storeLocal_moves (hS : Drift S allowed depth) {d : Nat} (hd : depth ≤ d) (index : UInt16) (v : Value) :
    (Exec.store (.variable d index) v).Moves S M :=
  (reach_moves hS _).bind hS fun _ N => hS.frame N d _ hd fun _ => Array.size_setIfInBounds

theorem argument_moves (hS : Drift S allowed depth) (n : UInt16) : (r.argument n).Moves S M :=
  (get_moves hS).bind hS fun M1 N => by
    split
    · exact moves_throw hS _
    · split
      · exact moves_pure hS _
      · exact moves_throw hS _

theorem setArgument_moves (hS : Drift S allowed depth) (hd : depth ≤ r.depth) (n : UInt16) (v : Value) :
    (r.setArgument n v).Moves S M :=
  (argument_moves hS n).bind hS fun _ N => hS.frame N r.depth _ hd fun _ => rfl

theorem pop_moves (hS : Drift S allowed depth) (operands : Operands) : operands.pop.Moves S M := by
  unfold Operands.pop
  split
  · exact moves_pure hS _
  · exact moves_throw hS _

theorem popArguments_moves (hS : Drift S allowed depth) (operands : Operands) (count : Nat) :
    (operands.popArguments count).Moves S M := by
  unfold Operands.popArguments
  simp only
  split
  · exact moves_throw hS _
  · exact moves_pure hS _

theorem readReceiver_moves (hS : Drift S allowed depth) (arguments : List Value) :
    (Routine.readReceiver g arguments).Moves S M := by
  cases arguments with
  | nil => exact moves_pure hS _
  | cons receiver rest =>
    exact (moves_lift hS _).bind hS fun _ _ => (load_moves hS _).bind hS fun _ _ => moves_pure hS _

theorem target_moves (hS : Drift S allowed depth) (m : MethodId) (arguments : List Value) :
    (Routine.target g m arguments).Moves S M := by
  unfold Routine.target
  split
  · exact (get_moves hS).bind hS fun _ _ => moves_lift hS _
  · exact (moves_lift hS _).bind hS fun _ _ => (moves_lift hS _).bind hS fun _ _ => moves_pure hS _

/-- storing to an instance field, once value and receiver are popped -/
theorem storeField_moves (hS : Drift S allowed depth) {f : FieldRef} {operands : Operands}
    (hi : ∀ c, (Instruction.stfld f).Makes operands.stack c → allowed c) :
    (r.request g (.stfld f) operands).Moves S M := by
  obtain ⟨stack, constrained⟩ := operands
  cases stack with
  | nil => exact hS.refl M
  | cons v rest =>
    cases rest with
    | nil => exact hS.refl M
    | cons receiver rest =>
      cases receiver with
      | object o => exact (store_moves hS (hi _ rfl)).bind hS fun _ _ => moves_pure hS _
      | _ => exact hS.refl M

/-- storing to a static field, once the value is popped -/
theorem storeStatic_moves (hS : Drift S allowed depth) {f : FieldRef} {operands : Operands}
    (hi : ∀ c, (Instruction.stsfld f).Makes operands.stack c → allowed c) :
    (r.request g (.stsfld f) operands).Moves S M := by
  obtain ⟨stack, constrained⟩ := operands
  cases stack with
  | nil => exact hS.refl M
  | cons v rest => exact (store_moves hS (hi _ rfl)).bind hS fun _ _ => moves_pure hS _

/-- **One instruction**, up to the call that it makes, respects a drift if its own changes are allowed. -/
theorem request_moves (hS : Drift S allowed depth) {i : Instruction} (hd : i.setsFrame = true → depth ≤ r.depth)
    (operands : Operands)
    (hi : ∀ c, i.Makes operands.stack c → allowed c) : (r.request g i operands).Moves S M := by
  cases i with
  | nop | ldloca n | ldnull | ldc v | ldstr v | constrained t | box t | br t | leave t | endfinally =>
    exact moves_pure hS _
  | ldarg n => exact (argument_moves hS n).bind hS fun _ _ => moves_pure hS _
  | starg n =>
    exact (pop_moves hS _).bind hS fun _ _ => (setArgument_moves hS (hd rfl) n _).bind hS fun _ _ => moves_pure hS _
  | ldloc n => exact (load_moves hS _).bind hS fun _ _ => moves_pure hS _
  | stloc n =>
    exact (pop_moves hS _).bind hS fun _ _ => (storeLocal_moves hS (hd rfl) n _).bind hS fun _ _ => moves_pure hS _
  | ldfld f =>
    exact (pop_moves hS _).bind hS fun _ _ => (moves_lift hS _).bind hS fun o _ =>
      Moves.bind hS ((object_moves hS o).bind hS fun _ _ => moves_pure hS _) fun _ _ => moves_pure hS _
  | ldflda f => exact (pop_moves hS _).bind hS fun _ _ => (moves_lift hS _).bind hS fun _ _ => moves_pure hS _
  | stfld f => exact storeField_moves hS hi
  | ldsfld f => exact (load_moves hS _).bind hS fun _ _ => moves_pure hS _
  | stsfld f => exact storeStatic_moves hS hi
  | dup | pop => exact (pop_moves hS _).bind hS fun _ _ => moves_pure hS _
  | add =>
    exact (pop_moves hS _).bind hS fun _ _ => (moves_lift hS _).bind hS fun _ _ => (pop_moves hS _).bind hS fun _ _ =>
      (moves_lift hS _).bind hS fun _ _ => moves_pure hS _
  | ceq => exact (pop_moves hS _).bind hS fun _ _ => (pop_moves hS _).bind hS fun _ _ => moves_pure hS _
  | call m => exact (popArguments_moves hS _ _).bind hS fun _ _ => moves_pure hS _
  | callvirt m =>
    unfold Routine.request
    refine (popArguments_moves hS _ _).bind hS fun e N => ?_
    simp only
    split
    · exact (readReceiver_moves hS _).bind hS fun _ _ => (target_moves hS _ _).bind hS fun _ _ => moves_pure hS _
    · exact (target_moves hS _ _).bind hS fun _ _ => moves_pure hS _
  | newobj m =>
    have hallocate : ∀ t N, (Exec.allocate t).Moves S N := fun t N =>
      (get_moves hS).bind hS fun _ _ => (change_moves hS (hi _ ⟨t, rfl⟩)).bind hS fun _ _ => moves_pure hS _
    exact (popArguments_moves hS _ _).bind hS fun _ N => (hallocate _ N).bind hS fun _ _ => moves_pure hS _
  | brtrue t | brfalse t => exact (pop_moves hS _).bind hS fun _ _ => moves_pure hS _
  | throw => exact (pop_moves hS _).bind hS fun _ _ => (moves_lift hS _).bind hS fun _ _ => moves_throw hS _
  | ret =>
    unfold Routine.request
    simp only
    split
    · exact (pop_moves hS _).bind hS fun _ _ => moves_pure hS _
    · exact moves_pure hS _

end Instructions

/-! ## The machine after a turn -/

section Final

variable {α β : Type} {x : Exec α} {M N : Machine}

theorem final_bind (f : α → Exec β) : (x >>= f).final M = match x M with
    | .ok a N => (f a).final N
    | .error _ N => N := by
  simp only [Exec.final, bind, EStateM.bind]
  cases x M <;> rfl

theorem final_attempt : (Exec.attempt x).final M = x.final M := by
  simp only [Exec.final, Exec.attempt]
  cases hx : x M with
  | ok a N => rfl
  | error t N => cases t <;> rfl

/-- an execution that only looks leaves the machine as it is -/
theorem final_bind_still (hx : x.final M = M) {f : α → Exec β} (hf : ∀ a, (f a).final M = M) :
    (x >>= f).final M = M := by
  rw [final_bind]
  unfold Exec.final at hx
  cases h : x M with
  | ok a N =>
    rw [h] at hx
    cases hx
    exact hf a
  | error t N => rw [h] at hx; exact hx

theorem positionOf_still (layout : Layout) (t : Handle) : (Routine.positionOf layout t).final M = M := by
  unfold Routine.positionOf
  split <;> rfl

variable {invoker : Invoker} {g : TypeGraph} {r : Routine} {limit : Nat} {a : Activation}

theorem raiseFrom_still (first origin : Nat) (exception : ObjectRef) :
    (r.raiseFrom g first origin exception a).final M = M := by
  unfold Routine.raiseFrom
  refine final_bind_still rfl fun K => ?_
  split
  · rfl
  · split <;> rfl

theorem endHandler_still : (r.endHandler g a).final M = M := by
  unfold Routine.endHandler
  split
  · rfl
  · simp only
    split
    · rfl
    · exact raiseFrom_still _ _ _

theorem follow_still (flow : Flow) : (r.follow g a flow).final M = M := by
  cases flow with
  | next => rfl
  | jump t => exact final_bind_still (positionOf_still _ t) fun _ => rfl
  | leave t => exact final_bind_still (positionOf_still _ t) fun _ => rfl
  | endFinally => exact final_bind_still endHandler_still fun _ => rfl
  | «return» value => rfl

theorem tick_ok (h : M.steps < limit) : Routine.tick limit M = .ok () { M with steps := M.steps + 1 } := by
  change (if limit < M.steps + 1 then (throw .stepLimit : Exec Unit) else pure ()) { M with steps := M.steps + 1 } = _
  rw [if_neg (by omega)]
  rfl

theorem tick_error (h : limit ≤ M.steps) :
    Routine.tick limit M = .error .stepLimit { M with steps := M.steps + 1 } := by
  change (if limit < M.steps + 1 then (throw .stepLimit : Exec Unit) else pure ()) { M with steps := M.steps + 1 } = _
  rw [if_pos (by omega)]
  rfl

/-- what a turn leaves behind is what its instruction leaves behind -/
theorem turn_final (h : M.steps < limit) : (r.turn invoker limit a).final M =
    match r.layout.fetch? a.position with
    | none => { M with steps := M.steps + 1 }
    | some i => (r.execute invoker i a.operands).final { M with steps := M.steps + 1 } := by
  unfold Routine.turn
  rw [final_bind, tick_ok h]
  simp only
  cases r.layout.fetch? a.position with
  | none => rfl
  | some i =>
    simp only
    rw [final_bind, ← final_attempt]
    unfold Exec.final
    cases hx : Exec.attempt (r.execute invoker i a.operands) { M with steps := M.steps + 1 } with
    | error t N => rfl
    | ok e N =>
      cases e with
      | ok e => exact follow_still e.1
      | error exception => exact final_bind_still (raiseFrom_still _ _ _) fun _ => rfl

theorem execute_final (i : Instruction) (operands : Operands) : (r.execute invoker i operands).final M =
    match r.request invoker.graph i operands M with
    | .ok (.call c arguments _) N => (invoker.invoke c arguments).final N
    | .ok (.done _ _) N => N
    | .error _ N => N := by
  unfold Routine.execute
  rw [final_bind]
  cases r.request invoker.graph i operands M with
  | error t N => rfl
  | ok request N =>
    cases request with
    | done flow operands => rfl
    | call c arguments resume =>
      simp only [Routine.resolve]
      rw [final_bind]
      unfold Exec.final
      cases invoker.invoke c arguments N <;> rfl

end Final

/-! ## Laying out a body -/

section Laying

variable {M : Machine}

theorem region_still (layout : Layout) (handler : Handler) : (Routine.region layout handler).final M = M :=
  final_bind_still (positionOf_still _ _) fun _ => final_bind_still (positionOf_still _ _) fun _ =>
    final_bind_still (positionOf_still _ _) fun _ => rfl

theorem mapM_still {α β : Type} {f : α → Exec β} (h : ∀ x M, (f x).final M = M) (xs : List α) :
    (xs.mapM f).final M = M := by
  induction xs with
  | nil => rfl
  | cons x xs ih =>
    rw [List.mapM_cons]
    exact final_bind_still (h x M) fun _ => final_bind_still ih fun _ => rfl

/-- laying out a body only looks at the machine -/
theorem prepare_still (g : TypeGraph) (m : MethodId) (body : Body) : (Routine.prepare g m body).final M = M :=
  final_bind_still (mapM_still (fun handler _ => region_still _ handler) _) fun _ =>
    final_bind_still rfl fun _ => rfl

variable {invoker : Invoker} {r : Routine} {m : MethodId} {body : Body} {limit : Nat} {N : Machine}

/-- a body that is laid out runs on the machine as it was -/
theorem run_of_prepare (invoker : Invoker) (limit : Nat) (h : Routine.prepare invoker.graph m body M = .ok r N) :
    N = M ∧ Routine.run invoker limit m body M = r.turns invoker limit (limit - M.steps + 1) {} M := by
  have hN : N = M := by
    have hstill := prepare_still (M := M) invoker.graph m body
    unfold Exec.final at hstill
    rw [h] at hstill
    exact hstill
  subst hN
  refine ⟨rfl, ?_⟩
  simp only [Routine.run, bind, EStateM.bind, h]
  rfl

/-- what is laid out is the body, in the innermost frame -/
theorem prepare_layout {g : TypeGraph} (h : Routine.prepare g m body M = .ok r N) :
    r.method = m ∧ r.layout = Layout.ofBody body ∧ r.depth = M.frames.size - 1 := by
  have hN : N = M := by
    have hstill := prepare_still (M := M) g m body
    unfold Exec.final at hstill
    rw [h] at hstill
    exact hstill
  subst hN
  simp only [Routine.prepare, bind, EStateM.bind] at h
  cases hr : List.mapM (Routine.region (Layout.ofBody body)) body.handlers N with
  | error t K => rw [hr] at h; cases h
  | ok regions K =>
    rw [hr] at h
    have hK : K = N := by
      have hstill := mapM_still (f := Routine.region (Layout.ofBody body)) (M := N)
        (fun handler _ => region_still _ handler) body.handlers
      unfold Exec.final at hstill
      rw [hr] at hstill
      exact hstill
    subst hK
    cases h
    exact ⟨rfl, rfl, rfl⟩

end Laying

/-! ## Whole runs -/

/-- the routine runs a body of the program -/
def Routine.Of (p : Program) (r : Routine) : Prop :=
  ∃ body, p.native? r.method = none ∧ p.body? r.method = some body ∧ r.layout = Layout.ofBody body

section Runs

variable {S : Machine → List Event → Machine → Prop} {allowed : Change → Prop} {depth : Nat} {p : Program}
  {invoker : Invoker} {calls : MethodId → List Value → Machine → List Event} {r : Routine} {a : Activation} {M : Machine}

/-- calls leave as many frames as they find -/
def KeepsSize (invoke : MethodId → List Value → Exec (Option Value)) : Prop :=
  ∀ c arguments M, ((invoke c arguments).final M).frames.size = M.frames.size

/-- what happens during a call, made with the given number of frames, drifts if all of it is allowed -/
def CallsDrift (S : Machine → List Event → Machine → Prop) (allowed : Change → Prop) (size : Nat)
    (invoke : MethodId → List Value → Exec (Option Value)) (calls : MethodId → List Value → Machine → List Event) :
    Prop :=
  ∀ c arguments M, M.frames.size = size → (∀ e ∈ calls c arguments M, e.Allowed allowed) →
    S M (calls c arguments M) ((invoke c arguments).final M)

/-- calls of which nothing is told drift if their machines do -/
theorem callsDrift_untold {invoke : MethodId → List Value → Exec (Option Value)} {size : Nat}
    (h : ∀ c arguments M, S M [] ((invoke c arguments).final M)) :
    CallsDrift S allowed size invoke fun _ _ _ => [] := fun c arguments M _ _ => h c arguments M

/-- nothing but calls and returns changes the number of frames -/
theorem drift_size : Drift (fun M _ N => N.frames.size = M.frames.size) (fun _ => True) 0 where
  refl _ := rfl
  trans h h' := h'.trans h
  tick _ := rfl
  frame _ _ _ _ _ := Array.size_modify
  change M c _ := by
    have h := M.shape_apply c
    simpa [Machine.shape] using congrArg Array.size h
  note _ _ := rfl

/-- a turn drifts if its instruction does, up to the call that it makes -/
theorem turn_moves (hS : Drift S allowed depth)
    (hcalls : CallsDrift S allowed M.frames.size invoker.invoke calls)
    (hstep : ∀ i N, r.layout.fetch? a.position = some i → N = { M with steps := M.steps + 1 } →
      S N [.step r a i N] N ∧
        ((∀ c, i.Makes a.operands.stack c → allowed c) → (r.request invoker.graph i a.operands).Moves S N))
    (limit : Nat) (he : ∀ e ∈ r.turnEvents invoker calls limit a M, e.Allowed allowed) :
    S M (r.turnEvents invoker calls limit a M) ((r.turn invoker limit a).final M) := by
  by_cases hlimit : M.steps < limit
  · rw [turn_final hlimit]
    unfold Routine.turnEvents at he ⊢
    rw [tick_ok hlimit] at he ⊢
    cases hfetch : r.layout.fetch? a.position with
    | none => exact hS.tick M
    | some i =>
      simp only [hfetch] at he ⊢
      obtain ⟨hnote, hrequest⟩ := hstep i _ hfetch rfl
      refine hS.after (hS.tick M) (hS.trans hnote ?_)
      have hmoves := (hrequest (he _ List.mem_cons_self)).final
      have hsize := (request_moves (M := { M with steps := M.steps + 1 }) (g := invoker.graph) (r := r) drift_size
        (i := i) (fun _ => Nat.zero_le _) a.operands fun _ _ => trivial).final
      rw [execute_final]
      unfold Exec.final at hmoves hsize
      cases hrequest : r.request invoker.graph i a.operands { M with steps := M.steps + 1 } with
      | error t N => rw [hrequest] at hmoves; exact hmoves
      | ok request N =>
        rw [hrequest] at hmoves hsize
        cases request with
        | done flow operands => exact hmoves
        | call c arguments resume =>
          rw [hrequest] at he
          exact hS.after hmoves (hcalls c arguments N hsize fun e h => he e (List.mem_cons_of_mem _ h))
  · have hlimit : limit ≤ M.steps := Nat.le_of_not_lt hlimit
    unfold Routine.turnEvents Routine.turn
    rw [final_bind, tick_error hlimit]
    exact hS.tick M

theorem turn_drifts (hS : Drift S allowed depth) (hd : depth ≤ r.depth)
    (hcalls : CallsDrift S allowed M.frames.size invoker.invoke calls)
    (hstep : ∀ i N, r.layout.fetch? a.position = some i → S N [.step r a i N] N) (limit : Nat)
    (he : ∀ e ∈ r.turnEvents invoker calls limit a M, e.Allowed allowed) :
    S M (r.turnEvents invoker calls limit a M) ((r.turn invoker limit a).final M) :=
  turn_moves hS hcalls (fun i N hfetch _ => ⟨hstep i N hfetch, request_moves hS (fun _ => hd) _⟩) limit he

theorem turn_size (hsize : KeepsSize invoker.invoke) (limit : Nat) :
    ((r.turn invoker limit a).final M).frames.size = M.frames.size :=
  turn_drifts drift_size (Nat.zero_le _) (callsDrift_untold hsize)
    (fun _ _ _ => rfl) limit fun e _ => e.allowed_of_all fun _ => trivial

/-- the machine after the turns of an activation is the one after its last turn -/
theorem turns_final (limit budget : Nat) : (r.turns invoker limit (budget + 1) a).final M =
    match r.turn invoker limit a M with
    | .ok (.finish _) N => N
    | .ok (.resume a') N => (r.turns invoker limit budget a').final N
    | .error _ N => N := by
  simp only [Exec.final, Routine.turns]
  cases r.turn invoker limit a M with
  | ok turn N => cases turn <;> rfl
  | error t N => rfl

/-- **The turns of an activation** drift if each turn does that an invariant allows for. -/
theorem turns_within (hS : Drift S allowed depth) {I : Activation → Machine → Prop} (limit : Nat)
    (hturn : ∀ a M, I a M → (∀ e ∈ r.turnEvents invoker calls limit a M, e.Allowed allowed) →
      S M (r.turnEvents invoker calls limit a M) ((r.turn invoker limit a).final M) ∧
        ∀ a' N, r.turn invoker limit a M = .ok (.resume a') N → I a' N)
    (budget : Nat) (ha : I a M) (he : ∀ e ∈ r.events invoker calls limit budget a M, e.Allowed allowed) :
    S M (r.events invoker calls limit budget a M) ((r.turns invoker limit budget a).final M) := by
  induction budget generalizing a M with
  | zero => exact hS.refl M
  | succ budget ih =>
    unfold Routine.events at he ⊢
    obtain ⟨hfirst, hnext⟩ := hturn a M ha fun e h => he e (List.mem_append_left _ h)
    rw [turns_final]
    unfold Exec.final at hfirst
    cases ht : r.turn invoker limit a M with
    | error t N => rw [ht] at hfirst; simpa using hfirst
    | ok turn N =>
      rw [ht] at hfirst he
      cases turn with
      | finish value => simpa using hfirst
      | resume a' => exact hS.trans hfirst (ih (hnext a' N ht) fun e h => he e (List.mem_append_right _ h))

theorem turns_drift (hS : Drift S allowed depth) (hd : depth ≤ r.depth) (hsize : KeepsSize invoker.invoke)
    (hcalls : CallsDrift S allowed M.frames.size invoker.invoke calls)
    (hstep : ∀ a i N, r.layout.fetch? a.position = some i → S N [.step r a i N] N) (limit budget : Nat)
    (he : ∀ e ∈ r.events invoker calls limit budget a M, e.Allowed allowed) :
    S M (r.events invoker calls limit budget a M) ((r.turns invoker limit budget a).final M) := by
  refine turns_within (I := fun _ K => K.frames.size = M.frames.size) hS limit (fun a K hK he => ?_) budget rfl he
  refine ⟨turn_drifts hS hd (by rw [hK]; exact hcalls) (hstep a) limit he, fun a' N hresume => ?_⟩
  have hsame := turn_size (r := r) (a := a) (M := K) hsize limit
  unfold Exec.final at hsame
  rw [hresume] at hsame
  exact hsame.trans hK

/-- a body gets a frame, if there is room for one -/
theorem enter_eq (p : Program) (invoker : Invoker) (m : MethodId) (body : Body) (arguments : List Value)
    (M : Machine) : p.enter invoker m body arguments M =
      if Program.maxFrames ≤ M.frames.size then .error .stackOverflow M
      else Exec.withFrame (p.frameFor body arguments) (Routine.run invoker p.stepLimit m body) M := by
  simp only [Program.enter, bind, EStateM.bind, get_run]
  split <;> rfl

theorem enter_final (p : Program) (invoker : Invoker) (m : MethodId) (body : Body) (arguments : List Value)
    (hroom : ¬ Program.maxFrames ≤ M.frames.size) : (p.enter invoker m body arguments).final M =
      ((Routine.run invoker p.stepLimit m body).final (M.push (p.frameFor body arguments))).pop := by
  unfold Exec.final
  rw [enter_eq, if_neg hroom]
  simp only [Exec.withFrame]
  cases Routine.run invoker p.stepLimit m body (M.push (p.frameFor body arguments)) <;> rfl

/-- the turns of a body in a frame of its own, with nothing else known about it than its layout and its depth -/
theorem run_drifts (hS : Drift S allowed depth) (hsize : KeepsSize invoker.invoke)
    (hcalls : CallsDrift S allowed M.frames.size invoker.invoke calls) {m : MethodId} {body : Body}
    (hd : depth ≤ M.frames.size - 1)
    (hstep : ∀ r a i N, r.method = m → r.layout = Layout.ofBody body → r.depth = M.frames.size - 1 →
      r.layout.fetch? a.position = some i → S N [.step r a i N] N) (limit : Nat)
    (he : ∀ e ∈ Routine.runEvents invoker calls limit m body M, e.Allowed allowed) :
    S M (Routine.runEvents invoker calls limit m body M) ((Routine.run invoker limit m body).final M) ∧
      ((Routine.run invoker limit m body).final M).frames.size = M.frames.size := by
  unfold Routine.runEvents at he ⊢
  cases hprepare : Routine.prepare invoker.graph m body M with
  | error t N =>
    have hstill := prepare_still (M := M) invoker.graph m body
    unfold Exec.final at hstill ⊢
    simp only [hprepare, Routine.run, bind, EStateM.bind] at hstill ⊢
    rw [hstill]
    exact ⟨hS.refl _, rfl⟩
  | ok r N =>
    obtain ⟨rfl, hrun⟩ := run_of_prepare invoker limit hprepare
    obtain ⟨hm, hlayout, hdepth⟩ := prepare_layout hprepare
    simp only [hprepare] at he
    have hturns := turns_drift hS (hdepth ▸ hd) hsize hcalls (fun a i N h => hstep r a i N hm hlayout hdepth h) limit _ he
    have hturnsSize := turns_drift (a := {}) (M := N) (r := r) drift_size (Nat.zero_le _) hsize
      (callsDrift_untold hsize) (fun _ _ _ _ => rfl) limit (limit - N.steps + 1) fun e _ =>
        e.allowed_of_all fun _ => trivial
    unfold Exec.final at hturns hturnsSize ⊢
    rw [hrun]
    exact ⟨hturns, hturnsSize⟩

theorem host_drifts {α : Type} {invoke : MethodId → List Value → Exec (Option Value)} (hS : Drift S allowed depth)
    (hsize : KeepsSize invoke) (hcalls : CallsDrift S allowed M.frames.size invoke calls) (work : Host α)
    (he : ∀ e ∈ work.events invoke calls M, e.Allowed allowed) :
    S M (work.events invoke calls M) ((work.run invoke).final M) := by
  induction work generalizing M with
  | done value => exact hS.refl M
  | fail t => exact hS.refl M
  | look next ih => exact ih M.exposed hcalls he
  | work change next ih =>
    have hchange := he _ List.mem_cons_self
    have hnote : S M [.work change M] M := hS.note (.work change M) rfl
    refine hS.trans hnote (hS.after (hS.change M change hchange) (ih ?_ ?_))
    · rw [drift_size.change M change trivial]
      exact hcalls
    · exact fun e h => he e (List.mem_cons_of_mem _ h)
  | call c arguments next ih =>
    unfold Host.events at he ⊢
    have hcall := hcalls c arguments M rfl fun e h => he e (List.mem_append_left _ (List.mem_cons_of_mem _ h))
    have hcallSize := hsize c arguments M
    have hrequest : S M [.request c arguments M] M := hS.note (.request c arguments M) rfl
    have hboth := hS.trans hrequest hcall
    unfold Exec.final at hboth hcallSize ⊢
    simp only [Host.run]
    cases hx : invoke c arguments M with
    | ok value N =>
      simp only [hx] at hboth hcallSize he
      exact hS.trans hboth (ih _ (by rw [hcallSize]; exact hcalls) fun e h => he e (List.mem_append_right _ h))
    | error t N =>
      simp only [hx] at hboth hcallSize he
      exact hS.trans hboth (ih _ (by rw [hcallSize]; exact hcalls) fun e h => he e (List.mem_append_right _ h))

/-- every call leaves as many frames as it finds -/
theorem invoke_size (p : Program) (nesting : Nat) : KeepsSize (p.invoke nesting) := by
  induction nesting with
  | zero => exact fun _ _ _ => rfl
  | succ nesting ih =>
    intro c arguments M
    have hquiet : ∀ size, CallsDrift (fun M _ N => N.frames.size = M.frames.size) (fun _ => True) size (p.invoke nesting)
        fun _ _ _ => [] := fun _ => callsDrift_untold ih
    unfold Program.invoke
    cases hn : p.native? c with
    | some native =>
      exact host_drifts drift_size ih (hquiet _) _ fun e _ => e.allowed_of_all fun _ => trivial
    | none =>
      cases hb : p.body? c with
      | none => rfl
      | some body =>
        by_cases hroom : Program.maxFrames ≤ M.frames.size
        · unfold Exec.final
          simp only [enter_eq, if_pos hroom]
        · have hrun : ((Routine.run (p.invoker (p.invoke nesting)) p.stepLimit c body).final
              (M.push (p.frameFor body arguments))).frames.size = (M.push (p.frameFor body arguments)).frames.size :=
            (run_drifts drift_size ih (hquiet _) (Nat.zero_le _) (fun _ _ _ _ _ _ _ _ => rfl) p.stepLimit fun e _ =>
              e.allowed_of_all fun _ => trivial).2
          simp only [enter_final p _ c body arguments hroom, Machine.pop, Array.size_pop, hrun]
          simp [Machine.push]

end Runs

end DisposalWeaver
