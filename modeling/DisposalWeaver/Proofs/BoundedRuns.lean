/-
Runs come to an end by themselves, and the limit only cuts them short.

The machine bounds its recursion: calls inside each other by their nesting, turns by a budget. Here the same runs are
told without any bound (`Program.Takes`): one rule for each way in which a call, a turn or what follows a turn goes on,
and with it the number of turns that are taken, those of all calls inside included. A turn is cut at the call that its
instruction makes (`Routine.cut`), so that the rules can go through the call itself.

What takes so many turns has counted as many instructions (`Takes.steps`); it takes no more than the limit leaves
(`Takes.within`), and where the limit is not what ends it, it goes the same way under any higher limit
(`Takes.limited`). As long as the methods that the host provides have nothing called in turn (`Program.Solitary`), a
call takes some number of turns (`exists_takes`) and ends as the machine says (`Takes.run_eq`). Together this is
`Program.call_ends_in_time`.
-/
import DisposalWeaver.Machine.PlatformNatives
import DisposalWeaver.Proofs.OrderedExits

namespace DisposalWeaver

/-- how an execution has ended -/
abbrev Ending (α : Type) := EStateM.Result Trap Machine α

namespace Ending

/-- the machine that is left behind -/
def machine {α : Type} : Ending α → Machine
  | .ok _ machine => machine
  | .error _ machine => machine

/-- a body has ended, and its frame is gone -/
def left : Ending (Option Value) → Ending (Option Value)
  | .ok value machine => .ok value machine.pop
  | .error trap machine => .error trap machine.pop

/-- an instruction ends as the call that it has made -/
def resumed (resume : Option Value → Operands) : Ending (Option Value) → Ending (Flow × Operands)
  | .ok value machine => .ok (.next, resume value) machine
  | .error trap machine => .error trap machine

/-- the limit did not end it -/
def Unstopped {α : Type} (ending : Ending α) : Prop := ∀ machine, ending ≠ .error .stepLimit machine

variable {e : Ending (Option Value)}

theorem left_steps (e : Ending (Option Value)) : e.left.machine.steps = e.machine.steps := by
  cases e <;> rfl

theorem unstopped_of_left (h : e.left.Unstopped) : e.Unstopped := fun N hN => h N.pop (by rw [hN]; rfl)

theorem resumed_machine (resume : Option Value → Operands) (e : Ending (Option Value)) :
    (e.resumed resume).machine = e.machine := by
  cases e <;> rfl

end Ending

/-! ## The host on its own -/

namespace Host

variable {α β : Type}

/-- no method is called -/
def Solitary : Host α → Prop
  | done _ => True
  | fail _ => True
  | look next => ∀ machine, (next machine).Solitary
  | work _ next => next.Solitary
  | call _ _ _ => False

theorem Solitary.bind {work : Host α} {f : α → Host β} (h : work.Solitary) (hf : ∀ value, (f value).Solitary) :
    (work >>= f).Solitary := by
  induction work with
  | done value => exact hf value
  | fail trap => trivial
  | look next ih => exact fun machine => ih machine (h machine)
  | work change next ih => exact ih h
  | call m arguments next => exact h.elim

theorem solitary_lift (e : Except Trap α) : (liftM e : Host α).Solitary := by
  cases e <;> trivial

theorem solitary_ask (question : Machine → Except Trap α) : (ask question).Solitary := fun machine =>
  solitary_lift (question machine)

theorem solitary_change (c : Change) : (change c).Solitary := trivial

theorem solitary_mark (o : ObjectRef) (note : Mark) : (mark o note).Solitary :=
  (solitary_ask _).bind fun _ => solitary_change _

theorem solitary_swap (g : TypeGraph) (place : Address) (value : Value) : (swap g place value).Solitary :=
  (solitary_ask _).bind fun _ => (solitary_ask _).bind fun _ => (solitary_change _).bind fun _ => trivial

/-- what has no method called does not depend on how methods are called -/
theorem Solitary.run_eq {work : Host α} (h : work.Solitary)
    (invoke invoke' : MethodId → List Value → Exec (Option Value)) (M : Machine) :
    work.run invoke M = work.run invoke' M := by
  induction work generalizing M with
  | done value => rfl
  | fail trap => rfl
  | look next ih => exact ih _ (h _) M
  | work change next ih => exact ih h _
  | call m arguments next => exact h.elim

/-- work counts no instructions of its own -/
theorem run_steps {invoke : MethodId → List Value → Exec (Option Value)}
    (hinvoke : ∀ m arguments M, ((invoke m arguments).final M).steps = M.steps) (work : Host α) (M : Machine) :
    ((work.run invoke).final M).steps = M.steps := by
  induction work generalizing M with
  | done value => rfl
  | fail trap => rfl
  | look next ih => exact ih _ M
  | work c next ih =>
    refine (ih _).trans ?_
    cases c with
    | store place v => cases place <;> rfl
    | _ => rfl
  | call m arguments next ih =>
    have hcall := hinvoke m arguments M
    unfold Exec.final at hcall ih ⊢
    simp only [run]
    cases hx : invoke m arguments M with
    | ok value N => rw [hx] at hcall; exact (ih _ N).trans hcall
    | error t N => rw [hx] at hcall; exact (ih _ N).trans hcall

end Host

/-- no method that the host provides has any called -/
def Program.Solitary (p : Program) : Prop :=
  ∀ m native, p.native? m = some native → ∀ arguments, (native p.toDeclarations arguments).Solitary

section Platform

open Host

variable (declarations : Declarations) (arguments : List Value)

theorem marking_solitary (note : Mark) : (Native.marking note declarations arguments).Solitary :=
  (solitary_lift _).bind fun _ => (solitary_lift _).bind fun _ => (solitary_mark _ _).bind fun _ => trivial

theorem exchange_solitary : (Native.exchange declarations arguments).Solitary :=
  (solitary_lift _).bind fun _ => (solitary_lift _).bind fun _ => (solitary_lift _).bind fun _ =>
    (solitary_swap _ _ _).bind fun _ => trivial

theorem withMessage_solitary (message : String → String) :
    (Native.withMessage message declarations arguments).Solitary :=
  (solitary_lift _).bind fun _ => (solitary_lift _).bind fun _ => (solitary_lift _).bind fun _ =>
    (solitary_mark _ _).bind fun _ => trivial

theorem readMessage_solitary : (Native.readMessage declarations arguments).Solitary :=
  (solitary_lift _).bind fun _ => (solitary_lift _).bind fun _ => (solitary_ask _).bind fun _ => trivial

/-- none of the platform's methods has any called -/
theorem Platform.natives_solitary (platform : Platform) :
    ∀ e ∈ platform.natives, (e.2 declarations arguments).Solitary := by
  have hidle : (Native.idle declarations arguments).Solitary := trivial
  have hmarking := marking_solitary declarations arguments
  have hexchange := exchange_solitary declarations arguments
  have hmessage := withMessage_solitary declarations arguments
  have hread := readMessage_solitary declarations arguments
  simp only [Platform.natives, List.forall_mem_cons, List.not_mem_nil, false_implies, implies_true, and_true]
  exact ⟨hidle, hidle, hidle, hidle, hidle, hmarking _, hexchange, hexchange, hmarking _, hmarking _, hmessage _,
    hmessage _, hmessage _, hmarking _, hread⟩

/-- the program of a module has no methods from the host but the platform's -/
theorem Program.ofModule_solitary (g : TypeGraph) (platform : Platform) (module : Module) :
    (Program.ofModule g platform module).Solitary := fun _ _ h arguments =>
  platform.natives_solitary _ arguments _ (mem_of_lookup h)

end Platform

/-! ## A turn, cut at its call -/

/-- a turn up to the call that its instruction makes -/
inductive Cut where
  /-- it is over, without a call -/
  | ended (turn : Ending Turn)
  /-- it has a method called on this machine -/
  | call (m : MethodId) (arguments : List Value) (resume : Option Value → Operands) (machine : Machine)

/-- the machine so far -/
def Cut.machine : Cut → Machine
  | ended turn => turn.machine
  | call _ _ _ machine => machine

namespace Routine

/-- how a turn ends, by how its instruction has ended -/
def conclude (g : TypeGraph) (r : Routine) (a : Activation) : Ending (Flow × Operands) → Ending Turn
  | .ok (flow, operands) machine => r.follow g { a with operands } flow machine
  | .error (.exception o) machine =>
    (r.raiseFrom g 0 a.position o { a with operands := {} } >>= fun activation => pure (.resume activation)) machine
  | .error trap machine => .error trap machine

/-- what a turn comes to before any call -/
def cut (g : TypeGraph) (r : Routine) (limit : Nat) (a : Activation) (machine : Machine) : Cut :=
  match tick limit machine, r.layout.fetch? a.position with
  | .error trap machine, _ => .ended (.error trap machine)
  | .ok _ machine, none => .ended (.error (.fellOffEnd r.method) machine)
  | .ok _ machine, some i =>
    match r.request g i a.operands machine with
    | .ok (.done flow operands) machine => .ended (r.conclude g a (.ok (flow, operands) machine))
    | .ok (.call m arguments resume) machine => .call m arguments resume machine
    | .error trap machine => .ended (r.conclude g a (.error trap machine))

section Cuts

variable {g : TypeGraph} {invoker : Invoker} {r : Routine} {limit limit' : Nat} {a : Activation} {M K : Machine}
  {m : MethodId} {arguments : List Value} {resume : Option Value → Operands} {turn : Ending Turn}

/-- a turn is what it comes to before its call, and what its call makes of that -/
theorem turn_cut : r.turn invoker limit a M =
    match r.cut invoker.graph limit a M with
    | .ended turn => turn
    | .call m arguments resume K =>
      r.conclude invoker.graph a (Ending.resumed resume (invoker.invoke m arguments K)) := by
  simp only [Routine.turn, cut, bind, EStateM.bind]
  cases tick limit M with
  | error t N => rfl
  | ok u N =>
    simp only
    cases r.layout.fetch? a.position with
    | none => rfl
    | some i =>
      simp only [Exec.attempt, execute, bind, EStateM.bind]
      cases r.request invoker.graph i a.operands N with
      | error t K => cases t <;> rfl
      | ok request K =>
        cases request with
        | done flow operands => rfl
        | call m arguments resume =>
          simp only [resolve, bind, EStateM.bind]
          cases invoker.invoke m arguments K with
          | ok value K' => rfl
          | error t K' => cases t <;> rfl

/-- going on after an instruction leaves the machine alone -/
theorem conclude_machine (e : Ending (Flow × Operands)) : (r.conclude g a e).machine = e.machine := by
  cases e with
  | ok e N => exact follow_still e.1
  | error t N =>
    cases t with
    | exception o => exact final_bind_still (raiseFrom_still _ _ _) fun _ => rfl
    | _ => rfl

/-- a turn whose call is stopped by the limit is stopped by it -/
theorem conclude_stopped (g : TypeGraph) (r : Routine) (a : Activation) (resume : Option Value → Operands)
    {inner : Ending (Option Value)} (h : ¬ inner.Unstopped) :
    ∃ N, r.conclude g a (inner.resumed resume) = .error .stepLimit N := by
  obtain ⟨N, rfl⟩ : ∃ N, inner = .error .stepLimit N := by simpa [Ending.Unstopped] using h
  exact ⟨N, rfl⟩

/-- counting is all that is left of a turn at the limit -/
theorem cut_full (h : limit ≤ M.steps) :
    r.cut g limit a M = .ended (.error .stepLimit (M.withSteps (M.steps + 1))) := by
  simp only [cut, tick_error h]
  rfl

/-- what a turn comes to below the limit is not up to the limit -/
theorem cut_limit (h : M.steps < limit) (h' : M.steps < limit') : r.cut g limit' a M = r.cut g limit a M := by
  simp only [cut, tick_ok h, tick_ok h']

theorem request_steps (g : TypeGraph) (r : Routine) (i : Instruction) (operands : Operands) (M : Machine) :
    ((r.request g i operands).final M).steps = M.steps := by
  have h : (r.request g i operands).Echoes (Accord.all g).field (r.request g i operands) M 0 (Request.Within _) :=
    request_echoes (tidy_all M) rfl rfl (admits_all i) fun v _ => within_all v
  unfold Exec.Echoes Exec.Ends at h
  unfold Exec.final
  cases hx : r.request g i operands M with
  | ok request N => rw [hx] at h; exact h.2.1
  | error t N => rw [hx] at h; exact h.2.1

theorem request_size (g : TypeGraph) (r : Routine) (i : Instruction) (operands : Operands) (M : Machine) :
    ((r.request g i operands).final M).frames.size = M.frames.size :=
  (request_moves drift_size (fun _ => Nat.zero_le _) operands fun _ _ => trivial).final

theorem laid_machine {m : MethodId} {body : Body} {routine : Ending Routine} (h : prepare g m body M = routine) :
    routine.machine = M := by
  rw [← h]
  exact prepare_still g m body

/-- before any call, a turn has counted one instruction and left the frames -/
theorem cut_machine (g : TypeGraph) (r : Routine) (limit : Nat) (a : Activation) (M : Machine) :
    (r.cut g limit a M).machine.steps = M.steps + 1 ∧ (r.cut g limit a M).machine.frames.size = M.frames.size := by
  by_cases hlimit : M.steps < limit
  · simp only [cut, tick_ok hlimit]
    cases r.layout.fetch? a.position with
    | none => exact ⟨rfl, rfl⟩
    | some i =>
      have hsteps := request_steps g r i a.operands { M with steps := M.steps + 1 }
      have hsize := request_size g r i a.operands { M with steps := M.steps + 1 }
      unfold Exec.final at hsteps hsize
      simp only
      cases hx : r.request g i a.operands { M with steps := M.steps + 1 } with
      | error t N =>
        rw [hx] at hsteps hsize
        simp only [Cut.machine, conclude_machine]
        exact ⟨hsteps, hsize⟩
      | ok request N =>
        rw [hx] at hsteps hsize
        cases request with
        | call m arguments resume => exact ⟨hsteps, hsize⟩
        | done flow operands =>
          simp only [Cut.machine, conclude_machine]
          exact ⟨hsteps, hsize⟩
  · rw [cut_full (Nat.le_of_not_lt hlimit)]
    exact ⟨rfl, rfl⟩

theorem cut_ended (h : r.cut g limit a M = .ended turn) :
    turn.machine.steps = M.steps + 1 ∧ turn.machine.frames.size = M.frames.size := by
  have hmachine := cut_machine g r limit a M
  rwa [h] at hmachine

/-- at the limit no method is called -/
theorem cut_call (h : r.cut g limit a M = .call m arguments resume K) :
    M.steps < limit ∧ K.steps = M.steps + 1 ∧ K.frames.size = M.frames.size := by
  have hmachine := cut_machine g r limit a M
  rw [h] at hmachine
  refine ⟨Nat.lt_of_not_le fun hle => ?_, hmachine⟩
  rw [cut_full hle] at h
  cases h

end Cuts

end Routine

/-! ## Runs without a bound -/

/-- what there is to do -/
inductive Task where
  | call (m : MethodId) (arguments : List Value) (machine : Machine)
  /-- the turns of an activation -/
  | turns (r : Routine) (a : Activation) (machine : Machine)
  /-- what follows a turn -/
  | rest (r : Routine) (turn : Ending Turn)

/-- the machine to do it on -/
def Task.machine : Task → Machine
  | call _ _ machine => machine
  | turns _ _ machine => machine
  | rest _ turn => turn.machine

/-- **Doing something takes so many turns**, those of all calls inside included, **and ends so.** No rule bounds how often
or how deep it is used: the limit of the program only ends turns, and the number of frames only ends calls. -/
inductive Program.Takes (p : Program) : Task → Nat → Ending (Option Value) → Prop where
  /-- the host has an end of its own, however methods are called -/
  | host {m : MethodId} {native : Native} {arguments : List Value} {M : Machine} {e : Ending (Option Value)}
      (provided : p.native? m = some native)
      (ends : ∀ invoke, (native p.toDeclarations arguments).run invoke M = e) : Takes p (.call m arguments M) 0 e
  | missing {m : MethodId} {arguments : List Value} {M : Machine} (own : p.native? m = none)
      (bodiless : p.body? m = none) : Takes p (.call m arguments M) 0 (.error (.missingBody m) M)
  | full {m : MethodId} {body : Body} {arguments : List Value} {M : Machine} (own : p.native? m = none)
      (code : p.body? m = some body) (room : maxFrames ≤ M.frames.size) :
      Takes p (.call m arguments M) 0 (.error .stackOverflow M)
  /-- a region of the body names an instruction without a position -/
  | unplaced {m : MethodId} {body : Body} {arguments : List Value} {M N : Machine} {t : Trap} (own : p.native? m = none)
      (code : p.body? m = some body) (room : M.frames.size < maxFrames)
      (laid : Routine.prepare p.graph m body (M.push (p.frameFor body arguments)) = .error t N) :
      Takes p (.call m arguments M) 0 (.error t N.pop)
  | body {m : MethodId} {body : Body} {arguments : List Value} {M N : Machine} {r : Routine} {n : Nat}
      {e : Ending (Option Value)} (own : p.native? m = none) (code : p.body? m = some body)
      (room : M.frames.size < maxFrames)
      (laid : Routine.prepare p.graph m body (M.push (p.frameFor body arguments)) = .ok r N)
      (run : Takes p (.turns r {} N) n e) : Takes p (.call m arguments M) n e.left
  /-- a turn without a call -/
  | plain {r : Routine} {a : Activation} {M : Machine} {turn : Ending Turn} {n : Nat} {e : Ending (Option Value)}
      (cut : r.cut p.graph p.stepLimit a M = .ended turn) (rest : Takes p (.rest r turn) n e) :
      Takes p (.turns r a M) (1 + n) e
  /-- a turn with a call -/
  | calling {r : Routine} {a : Activation} {M K : Machine} {m : MethodId} {arguments : List Value}
      {resume : Option Value → Operands} {k n : Nat} {inner e : Ending (Option Value)}
      (cut : r.cut p.graph p.stepLimit a M = .call m arguments resume K)
      (called : Takes p (.call m arguments K) k inner)
      (rest : Takes p (.rest r (r.conclude p.graph a (inner.resumed resume))) n e) :
      Takes p (.turns r a M) (1 + k + n) e
  | finish {r : Routine} {value : Option Value} {M : Machine} :
      Takes p (.rest r (.ok (.finish value) M)) 0 (.ok value M)
  | trap {r : Routine} {t : Trap} {M : Machine} : Takes p (.rest r (.error t M)) 0 (.error t M)
  | resume {r : Routine} {a : Activation} {M : Machine} {n : Nat} {e : Ending (Option Value)}
      (turns : Takes p (.turns r a M) n e) : Takes p (.rest r (.ok (.resume a) M)) n e

/-- what the machine makes of a task, with at most `nesting` calls inside each other -/
def Task.run (p : Program) (nesting : Nat) : Task → Ending (Option Value)
  | call m arguments machine => p.invoke nesting m arguments machine
  | turns r a machine => r.go (p.invoker (p.invoke nesting)) p.stepLimit a machine
  | rest r turn => Turn.rest (p.invoker (p.invoke nesting)) r p.stepLimit turn

namespace Program.Takes

variable {p : Program} {task : Task} {n : Nat} {e : Ending (Option Value)} {r : Routine} {t : Trap} {M : Machine}

/-- a trap is the end of the turns -/
theorem of_trap (h : p.Takes (.rest r (.error t M)) n e) : n = 0 ∧ e = .error t M := by
  cases h
  exact ⟨rfl, rfl⟩

/-- **Each turn counts one instruction.** -/
theorem steps (h : p.Takes task n e) : e.machine.steps = task.machine.steps + n := by
  induction h with
  | host provided ends =>
    rw [← ends fun _ _ => throw .stackOverflow]
    exact Host.run_steps (fun _ _ _ => rfl) _ _
  | missing own bodiless => rfl
  | full own code room => rfl
  | unplaced own code room laid =>
    have hN := congrArg Machine.steps (Routine.laid_machine laid)
    exact hN
  | body own code room laid run ih =>
    have hN := congrArg Machine.steps (Routine.laid_machine laid)
    rw [Ending.left_steps, ih]
    exact congrArg (· + _) hN
  | plain cut rest ih =>
    have hturn := (Routine.cut_ended cut).1
    simp only [Task.machine] at ih ⊢
    omega
  | calling cut called rest ihcalled ihrest =>
    have hcall := (Routine.cut_call cut).2.1
    simp only [Task.machine, Routine.conclude_machine, Ending.resumed_machine] at ihcalled ihrest ⊢
    omega
  | finish => rfl
  | trap => rfl
  | resume turns ih => exact ih

/-- **No more turns are taken than the limit leaves**, and one to notice. What the limit does not end stays within it. -/
theorem within (h : p.Takes task n e) :
    n ≤ p.stepLimit - task.machine.steps + 1 ∧ (e.Unstopped → n = 0 ∨ task.machine.steps + n ≤ p.stepLimit) := by
  induction h with
  | host provided ends => exact ⟨Nat.zero_le _, fun _ => .inl rfl⟩
  | missing own bodiless => exact ⟨Nat.zero_le _, fun _ => .inl rfl⟩
  | full own code room => exact ⟨Nat.zero_le _, fun _ => .inl rfl⟩
  | unplaced own code room laid => exact ⟨Nat.zero_le _, fun _ => .inl rfl⟩
  | body own code room laid run ih =>
    have hN := congrArg Machine.steps (Routine.laid_machine laid)
    rw [show (Task.turns _ _ _).machine.steps = _ from hN] at ih
    exact ⟨ih.1, fun he => ih.2 (Ending.unstopped_of_left he)⟩
  | @plain r a M turn n e cut rest ih =>
    have hturn := (Routine.cut_ended cut).1
    simp only [Task.machine] at ih ⊢
    by_cases hlimit : M.steps < p.stepLimit
    · refine ⟨by omega, fun he => .inr ?_⟩
      rcases ih.2 he with hn | hn <;> omega
    · rw [Routine.cut_full (Nat.le_of_not_lt hlimit)] at cut
      cases cut
      obtain ⟨rfl, rfl⟩ := of_trap rest
      exact ⟨by omega, fun he => absurd rfl (he _)⟩
  | @calling r a M K m arguments resume k n inner e cut called rest ihcalled ihrest =>
    obtain ⟨hlimit, hcall, -⟩ := Routine.cut_call cut
    have hcalled := called.steps
    simp only [Task.machine, Routine.conclude_machine, Ending.resumed_machine] at hcalled ihcalled ihrest ⊢
    by_cases hinner : inner.Unstopped
    · have hk := ihcalled.2 hinner
      refine ⟨by omega, fun he => .inr ?_⟩
      rcases ihrest.2 he with hn | hn <;> omega
    · obtain ⟨N, hstopped⟩ := Routine.conclude_stopped p.graph r a resume hinner
      rw [hstopped] at rest
      obtain ⟨rfl, rfl⟩ := of_trap rest
      exact ⟨by omega, fun he => absurd rfl (he _)⟩
  | finish => exact ⟨Nat.zero_le _, fun _ => .inl rfl⟩
  | trap => exact ⟨Nat.zero_le _, fun _ => .inl rfl⟩
  | resume turns ih => exact ih

/-- **What the limit does not end goes the same way under any higher limit.** -/
theorem limited (h : p.Takes task n e) (he : e.Unstopped) {limit : Nat} (hlimit : p.stepLimit ≤ limit) :
    (p.limited limit).Takes task n e := by
  induction h with
  | host provided ends => exact .host provided ends
  | missing own bodiless => exact .missing own bodiless
  | full own code room => exact .full own code room
  | unplaced own code room laid => exact .unplaced own code room laid
  | body own code room laid run ih => exact .body own code room laid (ih (Ending.unstopped_of_left he))
  | @plain r a M turn n e cut rest ih =>
    have hM : M.steps < p.stepLimit := by
      refine Nat.lt_of_not_le fun hle => ?_
      rw [Routine.cut_full hle] at cut
      cases cut
      exact he _ (of_trap rest).2
    exact .plain ((Routine.cut_limit hM (Nat.lt_of_lt_of_le hM hlimit)).trans cut) (ih he)
  | @calling r a M K m arguments resume k n inner e cut called rest ihcalled ihrest =>
    have hM := (Routine.cut_call cut).1
    have hinner : inner.Unstopped := by
      refine Classical.byContradiction fun hstopped => ?_
      obtain ⟨N, hN⟩ := Routine.conclude_stopped p.graph r a resume hstopped
      rw [hN] at rest
      exact he _ (of_trap rest).2
    exact .calling ((Routine.cut_limit hM (Nat.lt_of_lt_of_le hM hlimit)).trans cut) (ihcalled hinner) (ihrest he)
  | finish => exact .finish
  | trap => exact .trap
  | resume turns ih => exact .resume (ih he)

end Program.Takes

/-! ## The machine does what is told without a bound -/

section Nesting

variable {p : Program} {task : Task} {n : Nat} {e : Ending (Option Value)} {nesting : Nat}

/-- there is room for the calls inside a task, which take a frame each -/
def Task.Fits (task : Task) (nesting : Nat) : Prop := Program.maxFrames - task.machine.frames.size < nesting

theorem Task.Fits.succ (h : task.Fits nesting) : ∃ k, nesting = k + 1 :=
  Nat.exists_eq_add_one.2 (Nat.lt_of_le_of_lt (Nat.zero_le _) h)

/-- inside a body there is one frame more, and room for one call less -/
theorem Task.Fits.inside {m : MethodId} {arguments : List Value} {M : Machine} {frame : Frame}
    (h : (Task.call m arguments M).Fits (nesting + 1)) (hroom : M.frames.size < Program.maxFrames)
    (hinside : task.machine.frames.size = (M.push frame).frames.size) : task.Fits nesting := by
  have hpush : (M.push frame).frames.size = M.frames.size + 1 := Array.size_push _
  have h : Program.maxFrames - M.frames.size < nesting + 1 := h
  unfold Task.Fits
  omega

/-- one turn, cut at its call, and what follows it -/
theorem go_cut (p : Program) (nesting : Nat) (r : Routine) (a : Activation) (M : Machine) :
    (Task.turns r a M).run p nesting = match r.cut p.graph p.stepLimit a M with
      | .ended turn => (Task.rest r turn).run p nesting
      | .call m arguments resume K =>
        (Task.rest r (r.conclude p.graph a (Ending.resumed resume (p.invoke nesting m arguments K)))).run p nesting := by
  have hgo : (Task.turns r a M).run p nesting = Turn.rest (p.invoker (p.invoke nesting)) r p.stepLimit
      (r.turn (p.invoker (p.invoke nesting)) p.stepLimit a M) := Routine.go_turn (trace_steps p nesting)
  rw [hgo, Routine.turn_cut]
  unfold Program.invoker
  cases r.cut p.graph p.stepLimit a M <;> rfl

section Call

variable {m : MethodId} {body : Body} {arguments : List Value} {M N : Machine}

theorem invoke_native {native : Native} (h : p.native? m = some native) : p.invoke (nesting + 1) m arguments M =
    (native p.toDeclarations arguments).run (p.invoke nesting) M := by
  simp only [Program.invoke, h]

theorem invoke_missing (hn : p.native? m = none) (hb : p.body? m = none) :
    p.invoke (nesting + 1) m arguments M = .error (.missingBody m) M := by
  simp only [Program.invoke, hn, hb]
  rfl

theorem invoke_full (hn : p.native? m = none) (hb : p.body? m = some body) (hroom : Program.maxFrames ≤ M.frames.size) :
    p.invoke (nesting + 1) m arguments M = .error .stackOverflow M := by
  simp only [Program.invoke, hn, hb, enter_eq, if_pos hroom]

theorem withFrame_left (frame : Frame) (x : Exec (Option Value)) (M : Machine) :
    Exec.withFrame frame x M = Ending.left (x (M.push frame)) := by
  unfold Exec.withFrame
  cases x (M.push frame) <;> rfl

/-- a body is laid out, which may trap, and then takes its turns -/
theorem invoke_body (hn : p.native? m = none) (hb : p.body? m = some body) (hroom : M.frames.size < Program.maxFrames) :
    p.invoke (nesting + 1) m arguments M =
      match Routine.prepare p.graph m body (M.push (p.frameFor body arguments)) with
      | .ok r N => ((Task.turns r {} N).run p nesting).left
      | .error t N => .error t N.pop := by
  simp only [Program.invoke, hn, hb, enter_eq, if_neg (Nat.not_le.2 hroom), withFrame_left]
  cases hlaid : Routine.prepare p.graph m body (M.push (p.frameFor body arguments)) with
  | ok r N =>
    obtain ⟨rfl, hrun⟩ := run_of_prepare (p.invoker (p.invoke nesting)) p.stepLimit hlaid
    rw [hrun]
    rfl
  | error t N =>
    simp only [Routine.run, bind, EStateM.bind, Program.invoker, hlaid]
    rfl

end Call

/-- **What takes some number of turns is what the machine does**, if there is room for the calls. -/
theorem Program.Takes.run_eq (h : p.Takes task n e) (hfits : task.Fits nesting) : task.run p nesting = e := by
  induction h generalizing nesting with
  | finish => rfl
  | trap => rfl
  | resume turns ih => exact ih hfits
  | @plain r a M turn n e cut rest ih =>
    rw [go_cut, cut]
    refine ih ?_
    simp only [Task.Fits, Task.machine, (Routine.cut_ended cut).2] at hfits ⊢
    exact hfits
  | @calling r a M K m arguments resume k n inner e cut called rest ihcalled ihrest =>
    have hK := (Routine.cut_call cut).2.2
    have hinner : p.invoke nesting m arguments K = inner := ihcalled (by
      simp only [Task.Fits, Task.machine, hK] at hfits ⊢
      exact hfits)
    have hsize := invoke_size p nesting m arguments K
    unfold Exec.final at hsize
    rw [hinner] at hsize
    rw [go_cut, cut]
    simp only [hinner]
    refine ihrest ?_
    simp only [Task.Fits, Task.machine, Routine.conclude_machine, Ending.resumed_machine] at hfits ⊢
    rw [show inner.machine.frames.size = _ from hsize, hK]
    exact hfits
  | host provided ends =>
    obtain ⟨nesting, rfl⟩ := hfits.succ
    exact (invoke_native provided).trans (ends _)
  | missing own bodiless =>
    obtain ⟨nesting, rfl⟩ := hfits.succ
    exact invoke_missing own bodiless
  | full own code room =>
    obtain ⟨nesting, rfl⟩ := hfits.succ
    exact invoke_full own code room
  | unplaced own code room laid =>
    obtain ⟨nesting, rfl⟩ := hfits.succ
    refine (invoke_body own code room).trans ?_
    rw [laid]
  | @body m body arguments M N r n e own code room laid run ih =>
    obtain ⟨nesting, rfl⟩ := hfits.succ
    refine (invoke_body own code room).trans ?_
    rw [laid]
    exact congrArg Ending.left (ih (hfits.inside room (congrArg (·.frames.size) (Routine.laid_machine laid))))

/-- there are turns to take, if the calls that they make take some; the induction is on what the limit leaves -/
theorem exists_turns (nesting : Nat) (r : Routine) (a : Activation) (M : Machine)
    (hcalls : ∀ m arguments K, K.frames.size = M.frames.size →
      ∃ n, p.Takes (.call m arguments K) n (p.invoke nesting m arguments K)) :
    ∃ n, p.Takes (.turns r a M) n ((Task.turns r a M).run p nesting) := by
  induction hleft : p.stepLimit - M.steps using Nat.strong_induction_on generalizing a M with
  | _ left ih =>
    rw [go_cut]
    by_cases hlimit : M.steps < p.stepLimit
    · have hrest : ∀ turn : Ending Turn, M.steps < turn.machine.steps → turn.machine.frames.size = M.frames.size →
          ∃ n, p.Takes (.rest r turn) n ((Task.rest r turn).run p nesting) := by
        intro turn hsteps hsize
        match turn with
        | .ok (.finish value) N => exact ⟨0, .finish⟩
        | .error t N => exact ⟨0, .trap⟩
        | .ok (.resume a') N =>
          have hless : p.stepLimit - N.steps < left := by
            have hsteps : M.steps < N.steps := hsteps
            omega
          obtain ⟨n, hn⟩ := ih _ hless a' N (fun m arguments K hK => hcalls m arguments K (hK.trans hsize)) rfl
          exact ⟨n, .resume hn⟩
      cases hcut : r.cut p.graph p.stepLimit a M with
      | ended turn =>
        obtain ⟨hsteps, hsize⟩ := Routine.cut_ended hcut
        obtain ⟨n, hn⟩ := hrest turn (by omega) hsize
        exact ⟨1 + n, .plain hcut hn⟩
      | call m arguments resume K =>
        obtain ⟨-, hsteps, hsize⟩ := Routine.cut_call hcut
        obtain ⟨k, hk⟩ := hcalls m arguments K hsize
        have hcalled := hk.steps
        have hcalledSize : (Ending.machine (p.invoke nesting m arguments K)).frames.size = K.frames.size :=
          invoke_size p nesting m arguments K
        obtain ⟨n, hn⟩ := hrest (r.conclude p.graph a (Ending.resumed resume (p.invoke nesting m arguments K)))
          (by rw [Routine.conclude_machine, Ending.resumed_machine, hcalled]; simp only [Task.machine]; omega)
          (by rw [Routine.conclude_machine, Ending.resumed_machine, hcalledSize, hsize])
        exact ⟨1 + k + n, .calling hcut hk hn⟩
    · have hcut := r.cut_full (g := p.graph) (a := a) (Nat.le_of_not_lt hlimit)
      rw [hcut]
      exact ⟨1, .plain hcut .trap⟩

/-- **A call takes some number of turns**, if the host has nothing called in turn. -/
theorem exists_takes (hp : p.Solitary) (nesting : Nat) (m : MethodId) (arguments : List Value) (M : Machine)
    (hfits : (Task.call m arguments M).Fits nesting) :
    ∃ n, p.Takes (.call m arguments M) n (p.invoke nesting m arguments M) := by
  induction nesting generalizing m arguments M with
  | zero => exact absurd hfits (Nat.not_lt_zero _)
  | succ nesting ih =>
    cases hn : p.native? m with
    | some native =>
      rw [invoke_native hn]
      exact ⟨0, .host hn fun invoke => (hp m native hn arguments).run_eq _ _ M⟩
    | none =>
      cases hb : p.body? m with
      | none =>
        rw [invoke_missing hn hb]
        exact ⟨0, .missing hn hb⟩
      | some body =>
        by_cases hroom : M.frames.size < Program.maxFrames
        · rw [invoke_body hn hb hroom]
          cases hlaid : Routine.prepare p.graph m body (M.push (p.frameFor body arguments)) with
          | error t N => exact ⟨0, .unplaced hn hb hroom hlaid⟩
          | ok r N =>
            have hN := congrArg (·.frames.size) (Routine.laid_machine hlaid)
            obtain ⟨n, h⟩ := exists_turns nesting r {} N fun c values K hK =>
              ih c values K (hfits.inside hroom (hK.trans hN))
            exact ⟨n, .body hn hb hroom hlaid h⟩
        · rw [invoke_full hn hb (Nat.le_of_not_lt hroom)]
          exact ⟨0, .full hn hb (Nat.le_of_not_lt hroom)⟩

end Nesting

/-- **Calls end by themselves, and the limit only cuts them short.** If the methods that the host provides have nothing
called in turn, a call takes just one number of turns, those of all calls inside included, and ends in just one way, the
one that the machine answers. It takes as many turns as it counts instructions, and no more than the limit leaves and one
to notice. And if the limit is not what ends it, it ends in the same way, on the same machine, under any higher limit. -/
theorem Program.call_ends_in_time (p : Program) (hp : p.Solitary) (m : MethodId) (arguments : List Value)
    (M : Machine) : ∃ n, (∀ k e, p.Takes (.call m arguments M) k e ↔ k = n ∧ e = p.call m arguments M) ∧
      n ≤ p.stepLimit - M.steps + 1 ∧ (Ending.machine (p.call m arguments M)).steps = M.steps + n ∧
      ((∀ N, p.call m arguments M ≠ .error .stepLimit N) →
        ∀ limit, p.stepLimit ≤ limit → (p.limited limit).call m arguments M = p.call m arguments M) := by
  have hfits : (Task.call m arguments M).Fits maxNesting := by
    have hframes : maxFrames - M.frames.size ≤ maxFrames := Nat.sub_le _ _
    exact Nat.lt_of_le_of_lt hframes (by decide)
  obtain ⟨n, hn⟩ := exists_takes hp maxNesting m arguments M hfits
  have hsteps : (Ending.machine (p.call m arguments M)).steps = M.steps + n := hn.steps
  refine ⟨n, fun k e => ⟨fun h => ?_, ?_⟩, hn.within.1, hsteps, fun hstop limit hlimit => ?_⟩
  · -- both have counted the instructions of the one end
    have he : p.call m arguments M = e := h.run_eq hfits
    have hk : e.machine.steps = M.steps + k := h.steps
    rw [he] at hsteps
    exact ⟨by omega, he.symm⟩
  · rintro ⟨rfl, rfl⟩
    exact hn
  · exact (hn.limited hstop hlimit).run_eq hfits

/-! ## A recursion that fits its limit -/

namespace Countdown

/-- a type with a static method `Count` from integers, over the platform -/
def counter : TypeId := ⟨21⟩

def count : MethodId := ⟨16⟩

def graph : TypeGraph :=
  let (_, g) := Platform.alone.2.addType (.ofClass ⟨"Counter"⟩ Platform.alone.1.object TypeFlags.public_)
  (g.addMethod {
    declaring := counter, name := ⟨"Count"⟩, flags := MethodFlags.static
    parameters := [{ name := ⟨"n"⟩, type := .named Platform.alone.1.int32 }] }).2

/-- calls itself on what is one less, until that is 0, and then the constructor of the root, which does nothing -/
def body : Body :=
  Body.empty.append [.ldarg 0, .brfalse ⟨7⟩, .ldarg 0, .ldc (-1), .add, .call (.direct graph count), .ret,
    .ldarg 0, .call (.direct graph Platform.alone.1.objectConstructor), .ret]

def module : Module := { name := "Countdown", types := [{ id := counter, methods := [{ id := count, body := some body }] }] }

/-- the limit is just what counting down from 2 takes -/
def program : Program := (Program.ofModule graph Platform.alone.1 module).limited 19

theorem solitary : program.Solitary := Program.ofModule_solitary graph Platform.alone.1 module

theorem counts_down : program.call count [.int32 2] {} = .ok none { steps := 19 } := rfl

/-- counting down from 2 takes 19 turns, under this limit and under any higher one -/
theorem counts_down_in_time : program.Solitary ∧
    program.Takes (.call count [.int32 2] {}) 19 (.ok none { steps := 19 }) ∧
    ∀ limit, 19 ≤ limit → (program.limited limit).call count [.int32 2] {} = .ok none { steps := 19 } := by
  obtain ⟨n, htakes, -, hsteps, hlimited⟩ := program.call_ends_in_time solitary count [.int32 2] {}
  rw [counts_down] at htakes hsteps hlimited
  have hn : 19 = n := by simpa [Ending.machine] using hsteps
  exact ⟨solitary, (htakes 19 _).2 ⟨hn, rfl⟩, hlimited nofun⟩

end Countdown

end DisposalWeaver
