/-
How the machine changes over calls inside each other.

A `DeepDrift` is one drift for each number of calls that are outside; only frames deeper than those are changed. What
happens during a call then drifts, however deep calls are inside each other (`calls_drift`). Three are stated here:
instructions are only ever counted up (`trace_steps`), a call leaves the frames outside it alone (`trace_outline`), and a
relation between machines holds from event to event, along a `Path` (`deepDrift_path`).
-/
import DisposalWeaver.Proofs.Drift

namespace DisposalWeaver

/-! ## Calls inside each other -/

/-- a drift for each number of calls outside -/
structure DeepDrift (S : Nat → Machine → List Event → Machine → Prop) (allowed : Change → Prop) : Prop where
  drift : ∀ depth, Drift (S depth) allowed depth
  outside : ∀ {depth depth' M events N}, depth ≤ depth' → S depth' M events N → S depth M events N
  push : ∀ M frame, S M.frames.size M [] (M.push frame)
  pop : ∀ M, 0 < M.frames.size → S (M.frames.size - 1) M [] M.pop

section Deep

variable {S : Nat → Machine → List Event → Machine → Prop} {allowed : Change → Prop} {p : Program} {invoker : Invoker}
  {invoke : MethodId → List Value → Exec (Option Value)} {calls : MethodId → List Value → Machine → List Event}
  {M : Machine}

/-- what happens during a call drifts at the depth that it is made at, if all of it is allowed -/
def DeepCalls (S : Nat → Machine → List Event → Machine → Prop) (allowed : Change → Prop)
    (invoke : MethodId → List Value → Exec (Option Value)) (calls : MethodId → List Value → Machine → List Event) :
    Prop :=
  ∀ c arguments M, (∀ e ∈ calls c arguments M, e.Allowed allowed) →
    S M.frames.size M (calls c arguments M) ((invoke c arguments).final M)

theorem DeepCalls.within (h : DeepCalls S allowed invoke calls) (hS : DeepDrift S allowed) {depth size : Nat}
    (hd : depth ≤ size) : CallsDrift (S depth) allowed size invoke calls :=
  fun c arguments M hM he => hS.outside (hM ▸ hd) (h c arguments M he)

theorem enter_drifts (hS : DeepDrift S allowed) (hsize : KeepsSize invoker.invoke)
    (hcalls : DeepCalls S allowed invoker.invoke calls) {m : MethodId} {body : Body} {arguments : List Value}
    (hstep : ∀ r a i N, r.method = m → r.layout = Layout.ofBody body → r.layout.fetch? a.position = some i →
      S r.depth N [.step r a i N] N)
    (he : ∀ e ∈ p.enterEvents invoker calls m body arguments M, e.Allowed allowed) :
    S M.frames.size M (p.enterEvents invoker calls m body arguments M) ((p.enter invoker m body arguments).final M) := by
  unfold Program.enterEvents at he ⊢
  by_cases hroom : Program.maxFrames ≤ M.frames.size
  · unfold Exec.final
    rw [enter_eq, if_pos hroom, if_pos hroom]
    exact (hS.drift _).refl M
  · rw [enter_final p invoker m body arguments hroom]
    simp only [hroom, ↓reduceIte] at he ⊢
    have hpush : (M.push (p.frameFor body arguments)).frames.size = M.frames.size + 1 := Array.size_push _
    obtain ⟨hrun, hK⟩ := run_drifts (hS.drift M.frames.size) hsize (hcalls.within hS (by omega)) (by omega)
      (fun r a i N hm hlayout hdepth hfetch => by
        have h := hstep r a i N hm hlayout hfetch
        rwa [hdepth, hpush] at h) p.stepLimit he
    have hpop := hS.pop ((Routine.run invoker p.stepLimit m body).final (M.push (p.frameFor body arguments))) (by omega)
    rw [hK, hpush] at hpop
    exact (hS.drift _).before ((hS.drift _).after (hS.push M _) hrun) hpop

/-- what happens while the body of a method runs drifts, given that calls inside it do -/
def BodyDrifts (S : Nat → Machine → List Event → Machine → Prop) (allowed : Change → Prop) (p : Program) (m : MethodId)
    (body : Body) : Prop :=
  ∀ nesting arguments M, DeepCalls S allowed (p.invoke nesting) (p.trace nesting) →
    (∀ e ∈ p.enterEvents (p.invoker (p.invoke nesting)) (p.trace nesting) m body arguments M, e.Allowed allowed) →
    S M.frames.size M (p.enterEvents (p.invoker (p.invoke nesting)) (p.trace nesting) m body arguments M)
      ((p.enter (p.invoker (p.invoke nesting)) m body arguments).final M)

/-- **What happens during a call drifts**, from the machine before it to the machine after it, if every body of the program
does. -/
theorem calls_drift (hS : DeepDrift S allowed)
    (hbody : ∀ m body, p.native? m = none → p.body? m = some body → BodyDrifts S allowed p m body) (nesting : Nat) :
    DeepCalls S allowed (p.invoke nesting) (p.trace nesting) := by
  induction nesting with
  | zero => exact fun c arguments M _ => (hS.drift _).refl M
  | succ nesting ih =>
    intro c arguments M he
    unfold Program.trace at he ⊢
    have hnote : S M.frames.size M [.call c arguments M] M := (hS.drift _).note (.call c arguments M) rfl
    refine (hS.drift _).trans hnote ?_
    have he' := fun e h => he e (List.mem_cons_of_mem _ h)
    unfold Program.invoke
    cases hn : p.native? c with
    | some native =>
      simp only [hn] at he' ⊢
      exact host_drifts (hS.drift _) (invoke_size p nesting) (ih.within hS (Nat.le_refl _)) _ he'
    | none =>
      cases hb : p.body? c with
      | none => exact (hS.drift _).refl M
      | some body =>
        simp only [hn, hb] at he' ⊢
        exact hbody c body hn hb nesting arguments M ih he'

/-- a body drifts if each of its instructions does -/
theorem body_drifts (hS : DeepDrift S allowed) {m : MethodId} {body : Body}
    (hstep : ∀ r a i N, r.method = m → r.layout = Layout.ofBody body → r.layout.fetch? a.position = some i →
      S r.depth N [.step r a i N] N) : BodyDrifts S allowed p m body := fun nesting _ _ hcalls he =>
  enter_drifts hS (invoke_size p nesting) hcalls hstep he

theorem trace_drifts (hS : DeepDrift S allowed)
    (hstep : ∀ r a i N, r.Of p → r.layout.fetch? a.position = some i → S r.depth N [.step r a i N] N)
    (nesting : Nat) : DeepCalls S allowed (p.invoke nesting) (p.trace nesting) :=
  calls_drift hS (fun _ body hn hb => body_drifts hS fun r a i N hm hlayout hfetch =>
    hstep r a i N ⟨body, hm ▸ hn, hm ▸ hb, hlayout⟩ hfetch) nesting

/-- what happens while the host does some work drifts, if what happens during calls does -/
theorem history_drifts {α : Type} (hS : DeepDrift S allowed)
    (hcalls : ∀ nesting, DeepCalls S allowed (p.invoke nesting) (p.trace nesting)) (work : Host α)
    (he : ∀ e ∈ p.history work M, e.Allowed allowed) :
    S M.frames.size M (p.history work M) ((p.perform work).final M) :=
  host_drifts (hS.drift _) (invoke_size p _) ((hcalls _).within hS (Nat.le_refl _)) work he

end Deep

/-! ## Instructions are counted up -/

section Steps

variable {p : Program} {invoker : Invoker} {r : Routine} {a : Activation} {M : Machine}

/-- no count of instructions is ever taken back -/
theorem drift_steps (depth : Nat) : Drift (fun M _ N => M.steps ≤ N.steps) (fun _ => True) depth where
  refl _ := Nat.le_refl _
  trans h h' := Nat.le_trans h h'
  tick _ := Nat.le_succ _
  frame _ _ _ _ _ := Nat.le_refl _
  change M c _ := by
    cases c with
    | store place v => cases place <;> exact Nat.le_refl _
    | _ => exact Nat.le_refl _
  note _ _ := Nat.le_refl _

theorem deepDrift_steps : DeepDrift (fun _ M _ N => M.steps ≤ N.steps) fun _ => True where
  drift := drift_steps
  outside _ h := h
  push _ _ := Nat.le_refl _
  pop _ _ := Nat.le_refl _

/-- calls never take back a count -/
def CountsUp (invoke : MethodId → List Value → Exec (Option Value)) : Prop :=
  ∀ c arguments M, M.steps ≤ ((invoke c arguments).final M).steps

theorem trace_steps (p : Program) (nesting : Nat) : CountsUp (p.invoke nesting) := fun c arguments M =>
  trace_drifts deepDrift_steps (fun _ _ _ _ _ _ => Nat.le_refl _) nesting c arguments M fun e _ =>
    e.allowed_of_all fun _ => trivial

/-- a turn counts at least its own instruction -/
theorem turn_steps (hinvoke : CountsUp invoker.invoke) (limit : Nat) :
    M.steps < ((r.turn invoker limit a).final M).steps := by
  by_cases hlimit : M.steps < limit
  · have hmoves : ∀ i, M.steps + 1 ≤ ((r.execute invoker i a.operands).final { M with steps := M.steps + 1 }).steps := by
      intro i
      have h := (request_moves (M := { M with steps := M.steps + 1 }) (g := invoker.graph) (r := r)
        (drift_steps 0) (i := i) (fun _ => Nat.zero_le _) a.operands fun _ _ => trivial).final
      rw [execute_final]
      unfold Exec.final at h
      cases hrequest : r.request invoker.graph i a.operands { M with steps := M.steps + 1 } with
      | error t N => rw [hrequest] at h; exact h
      | ok request N =>
        rw [hrequest] at h
        cases request with
        | done flow operands => exact h
        | call c arguments resume => exact Nat.le_trans h (hinvoke c arguments N)
    rw [turn_final hlimit]
    split
    · exact Nat.lt_succ_self _
    · exact hmoves _
  · unfold Routine.turn
    rw [final_bind, tick_error (Nat.le_of_not_lt hlimit)]
    exact Nat.lt_succ_self _

end Steps

/-! ## Arguments of the calls outside stay -/

section Outline

variable {p : Program} {M N : Machine} {depth : Nat}

/-- what a call inside may not change about a frame -/
def Frame.outline (frame : Frame) : List Value × Nat := (frame.arguments, frame.locals.size)

/-- the frames outside the given depth have the arguments and the number of locals that they had -/
def Machine.Outlined (depth : Nat) (M N : Machine) : Prop :=
  ∀ d < depth, N.frames[d]?.map Frame.outline = M.frames[d]?.map Frame.outline

theorem outlined_modify (M : Machine) (d : Nat) {f : Frame → Frame}
    (h : ∀ frame, d < depth → (f frame).outline = frame.outline) :
    M.Outlined depth { M with frames := M.frames.modify d f } := by
  intro k hk
  rw [Array.getElem?_modify]
  split
  · next same => cases M.frames[k]? <;> simp [h _ (same ▸ hk)]
  · rfl

theorem drift_outline (depth : Nat) : Drift (fun M _ N => M.Outlined depth N) (fun _ => True) depth where
  refl _ _ _ := rfl
  trans h h' d hd := (h' d hd).trans (h d hd)
  tick _ _ _ := rfl
  frame M d f hd _ := outlined_modify M d fun _ hlt => absurd hlt (Nat.not_lt.2 hd)
  change M c _ := by
    cases c with
    | store place v =>
      cases place with
      | «variable» d index => exact outlined_modify M d fun frame _ => by simp [Frame.outline]
      | _ => exact fun _ _ => rfl
    | _ => exact fun _ _ => rfl
  note _ _ _ _ := rfl

theorem deepDrift_outline : DeepDrift (fun depth M _ N => M.Outlined depth N) fun _ => True where
  drift := drift_outline
  outside hd h d hlt := h d (Nat.lt_of_lt_of_le hlt hd)
  push M frame d hd := by simp [Machine.push, Array.getElem?_push, Nat.ne_of_lt hd]
  pop M _ d hd := by
    simp only [Machine.pop, Array.getElem?_pop]
    rw [if_pos (by omega)]

/-- **A call leaves the frames outside alone**: their arguments, and the numbers of their locals. -/
theorem trace_outline (p : Program) (nesting : Nat) (c : MethodId) (arguments : List Value) (M : Machine) :
    M.Outlined M.frames.size (((p.invoke nesting) c arguments).final M) :=
  trace_drifts deepDrift_outline (fun _ _ _ _ _ _ _ _ => rfl) nesting c arguments M fun e _ =>
    e.allowed_of_all fun _ => trivial

end Outline

/-! ## Paths -/

section Paths

variable {R : Machine → Machine → Prop} {allowed : Change → Prop} {M K N : Machine} {events events' : List Event}

/-- the relation holds from machine to machine along what happens -/
def Path (R : Machine → Machine → Prop) : Machine → List Event → Machine → Prop
  | M, [], N => R M N
  | M, e :: rest, N => R M e.machine ∧ Path R e.machine rest N

theorem Path.trans (hR : ∀ {M K N}, R M K → R K N → R M N) (h : Path R M events K) (h' : Path R K events' N) :
    Path R M (events ++ events') N := by
  induction events generalizing M with
  | nil =>
    cases events' with
    | nil => exact hR h h'
    | cons e rest => exact ⟨hR h h'.1, h'.2⟩
  | cons e rest ih => exact ⟨h.1, ih h.2⟩

theorem Path.ends (hR : ∀ {M K N}, R M K → R K N → R M N) (h : Path R M events N) : R M N := by
  induction events generalizing M with
  | nil => exact h
  | cons e rest ih => exact hR h.1 (ih h.2)

/-- a reflexive and transitive relation that counting, frames and allowed changes respect holds along a path -/
theorem deepDrift_path (refl : ∀ M, R M M) (trans : ∀ {M K N}, R M K → R K N → R M N)
    (frames : ∀ M frames, R M { M with frames }) (tick : ∀ M, R M { M with steps := M.steps + 1 })
    (change : ∀ M c, allowed c → R M (M.apply c)) : DeepDrift (fun _ => Path R) allowed where
  drift _ := {
    refl
    trans := Path.trans trans
    tick
    frame := fun M _ _ _ _ => frames M _
    change
    note := fun _ _ => ⟨refl _, refl _⟩ }
  outside _ h := h
  push M _ := frames M _
  pop M _ := frames M _

end Paths

end DisposalWeaver
