/-
Disposal happens at most once.

The signal of an object pays for the way past the escape check: whoever takes it finds it down and leaves it up, and it is
never put down again. So the entries behind the check, together with the signal before, never come to more than the signal
afterwards (`deepDrift_entries`, `Program.HasGate.drifts`), over any history.
-/
import DisposalWeaver.Proofs.CarriedWork
import DisposalWeaver.Proofs.OnwardCode
import DisposalWeaver.Proofs.RisingFields

namespace DisposalWeaver

/-! ## Entries -/

/-- 1 if the field says so, 0 if not -/
def Machine.signal (g : TypeGraph) (o : ObjectRef) (f : FieldId) (M : Machine) : Nat :=
  if (M.content g (.field o f)).isTrue then 1 else 0

/-- the first argument of the call at the given depth -/
def Machine.receiver? (M : Machine) (depth : Nat) : Option Value := M.frames[depth]?.bind fun frame => frame.arguments.head?

/-- the step enters what the given method has behind its escape check, for the object -/
def Event.enters (gate : MethodId) (o : ObjectRef) : Event → Bool
  | .step r a _ M => r.method = gate && a.position = 6 && M.receiver? r.depth = some (.object o)
  | _ => false

/-- how often that happens -/
def entries (gate : MethodId) (o : ObjectRef) (events : List Event) : Nat := events.countP (Event.enters gate o)

section Entries

variable {g : TypeGraph} {gate : MethodId} {o : ObjectRef} {f : FieldId} {M N : Machine} {events events' : List Event}

theorem entries_append : entries gate o (events ++ events') = entries gate o events + entries gate o events' :=
  List.countP_append

theorem entries_none (h : ∀ e ∈ events, e.enters gate o = false) : entries gate o events = 0 :=
  List.countP_eq_zero.2 fun e he => by simp [h e he]

theorem entries_one {e : Event} (h : e.enters gate o = false) : entries gate o [e] = 0 :=
  entries_none fun e' he => by rw [List.mem_singleton.1 he]; exact h

theorem entries_cons (e : Event) : entries gate o (e :: events) ≤ 1 + entries gate o events := by
  unfold entries
  rw [List.countP_cons]
  split <;> omega

theorem entries_cons_other {e : Event} (h : e.enters gate o = false) :
    entries gate o (e :: events) = entries gate o events := by
  rw [entries, List.countP_cons_of_neg (by simp [h])]
  rfl

theorem Event.enters_quiet {e : Event} (h : e.isStep = false) : e.enters gate o = false := by
  cases e with
  | step r a i M => cases h
  | _ => rfl

theorem signal_of_true (h : (M.content g (.field o f)).isTrue = true) : M.signal g o f = 1 := if_pos h

theorem signal_of_false (h : ¬ (M.content g (.field o f)).isTrue = true) : M.signal g o f = 0 := if_neg h

theorem content_object {object : Object} (ho : M.object? o = some object) :
    M.content g (.field o f) = object.fieldOf g f := by
  simp only [Machine.content, ho, Option.elim_some]

/-- a signal rises with its field -/
theorem Machine.Rises.signal (h : M.Rises g o f N) : M.signal g o f ≤ N.signal g o f := by
  cases ho : M.object? o with
  | none =>
    have hnull : ¬ (M.content g (.field o f)).isTrue = true := by
      simp only [Machine.content, ho, Option.elim_none]
      decide
    rw [signal_of_false hnull]
    exact Nat.zero_le _
  | some object =>
    obtain ⟨object', ho', hf'⟩ := h object ho
    unfold Machine.signal
    rw [content_object ho, content_object ho']
    rcases hf' with hf' | hf' <;> rw [hf']
    split <;> decide

/-- **The signal pays for entries**, if nothing but 1 is stored to it. -/
theorem deepDrift_entries (g : TypeGraph) (gate : MethodId) (o : ObjectRef) (f : FieldId) :
    DeepDrift (fun _ M events N => entries gate o events + M.signal g o f ≤ N.signal g o f)
      (Change.Raises (.field o f)) where
  drift _ := {
    refl := fun _ => Nat.le_of_eq (Nat.zero_add _)
    trans := fun h h' => by rw [entries_append]; omega
    tick := fun _ => Nat.le_of_eq (Nat.zero_add _)
    frame := fun _ _ _ _ _ => Nat.le_of_eq (Nat.zero_add _)
    change := fun M c hc => (Nat.zero_add _).trans_le (Machine.Rises.signal (rises_apply hc))
    note := fun e he => by rw [entries_one (Event.enters_quiet he), Nat.zero_add] }
  outside _ h := h
  push _ _ := Nat.le_of_eq (Nat.zero_add _)
  pop _ _ := Nat.le_of_eq (Nat.zero_add _)

end Entries

/-! ## The exchange -/

section Exchange

variable {p : Program} {x : MethodId} {place : Address} {v : Value} {nesting : Nat} {K N : Machine} {α : Type}

/-- work that has nothing called has nothing executed -/
def Host.Callless : Host α → Prop
  | done _ | fail _ => True
  | look next => ∀ M, (next M).Callless
  | work _ next => next.Callless
  | call _ _ _ => False

theorem Host.Callless.quiet {invoke : MethodId → List Value → Exec (Option Value)}
    {calls : MethodId → List Value → Machine → List Event} {host : Host α} (h : host.Callless) :
    ∀ e ∈ host.events invoke calls K, ∃ c N, e = .work c N := by
  induction host generalizing K with
  | done | fail => exact fun e he => by cases he
  | look next ih => exact ih _ (h _)
  | work c next ih =>
    intro e he
    rcases List.mem_cons.1 he with rfl | he
    · exact ⟨c, K, rfl⟩
    · exact ih h e he
  | call m values next => exact h.elim

theorem Host.callless_exchange (g : TypeGraph) (place : Address) (v : Value) (f : Value → Host α)
    (hf : ∀ w, (f w).Callless) : (Host.swap g place v >>= f).Callless := by
  intro M
  simp only
  cases M.missing? place with
  | some missing => trivial
  | none => exact fun _ => hf _

/-- a native that has nothing called executes no instruction -/
theorem native_quiet {native : Native} {values : List Value} (hn : p.native? x = some native)
    (hcallless : (native p.toDeclarations values).Callless) : ∀ e ∈ p.trace nesting x values K, e.isStep = false := by
  intro e he
  cases nesting with
  | zero => cases he
  | succ nesting =>
    simp only [Program.trace, hn] at he
    rcases List.mem_cons.1 he with rfl | he
    · rfl
    · obtain ⟨c, N, rfl⟩ := hcallless.quiet e he
      rfl

/-- **The exchange** executes no instruction. -/
theorem exchange_quiet (hn : p.native? x = some Native.exchange) :
    ∀ e ∈ p.trace nesting x [.address place, v] K, e.isStep = false :=
  native_quiet hn (Host.callless_exchange p.graph place v _ fun _ => trivial)

theorem exchange_run (hn : p.native? x = some Native.exchange) : p.invoke (nesting + 1) x [.address place, v] = (do
    let previous ← Exec.load p.graph place
    Exec.change (.store place v)
    return some previous : Exec (Option Value)) := by
  have hrun : p.invoke (nesting + 1) x [.address place, v] =
      ((Host.swap p.graph place v).run (p.invoke nesting) >>= fun w => pure (some w)) := by
    refine Eq.trans ?_ (Host.run_bind (Host.swap p.graph place v) fun w => pure (some w))
    simp only [Program.invoke, hn]
    rfl
  rw [hrun, Host.swap_run]
  funext M
  simp only [Exec.load, Exec.reach, bind, EStateM.bind, get_run]
  cases M.missing? place <;> rfl

/-- it answers what was in the place, and leaves the new value there -/
theorem exchange_ok (hn : p.native? x = some Native.exchange) {w : Option Value}
    (h : p.invoke nesting x [.address place, v] K = .ok w N) :
    K.missing? place = none ∧ w = some (K.content p.graph place) ∧ N = K.apply (.store place v) := by
  cases nesting with
  | zero => cases h
  | succ nesting =>
    rw [exchange_run hn] at h
    simp only [Exec.load, Exec.reach, bind, EStateM.bind, get_run] at h
    cases hm : K.missing? place with
    | some missing => rw [hm] at h; cases h
    | none => rw [hm] at h; cases h; exact ⟨rfl, rfl, rfl⟩

/-- … if the place is there -/
theorem exchange_there (hn : p.native? x = some Native.exchange) (hthere : K.missing? place = none) :
    p.invoke (nesting + 1) x [.address place, v] K = .ok (some (K.content p.graph place)) (K.apply (.store place v)) := by
  rw [exchange_run hn]
  simp only [Exec.load, Exec.reach, bind, EStateM.bind, get_run, hthere]
  rfl

end Exchange

/-! ## Runs behind the escape check -/

/-- a gate of a program: what is behind its escape check is entered by whoever takes the signal -/
structure Program.HasGate (p : Program) (references : References) (state : WovenState) (gate : MethodId) (body : Body)
    (work : List Instruction) : Prop where
  code : p.body? gate = some body
  gated : body.Gated p.graph references state work
  exchange : p.native? references.exchangeInt32 = some Native.exchange
  count : (p.graph.method references.exchangeInt32).argumentCount = 2

section Gate

variable {p : Program} {references : References} {state : WovenState} {gate : MethodId} {body : Body}
  {work : List Instruction} {o : ObjectRef} {nesting depth : Nat} {arguments : List Value} {M N : Machine} {a : Activation}

/-- from the activation on, the signal pays for entries, and for a debt besides -/
def Owes (p : Program) (nesting : Nat) (gate : MethodId) (o : ObjectRef) (f : FieldId) (r : Routine) (debt : Nat)
    (a : Activation) (M : Machine) : Prop :=
  (∀ e ∈ r.goEvents (p.invoker (p.invoke nesting)) (p.trace nesting) p.stepLimit a M,
      e.Allowed (Change.Raises (.field o f))) →
    entries gate o (r.goEvents (p.invoker (p.invoke nesting)) (p.trace nesting) p.stepLimit a M) + debt ≤
      ((r.go (p.invoker (p.invoke nesting)) p.stepLimit a).final M).signal p.graph o f

variable {f : FieldId} {r : Routine} {debt k k' : Nat} {stack stack' : List Value} {i : Instruction}

/-- a silent instruction enters nothing, where it is not the first behind the check -/
theorem Owes.silent (hk6 : k ≠ 6) (hdebt : debt ≤ M.signal p.graph o f) (hM : M.Given r.depth arguments)
    (hi : r.layout.fetch? k = some i) {flow : Flow} (h : i.silent? r.depth arguments stack = some (flow, stack'))
    (hk : Routine.landing r.layout k flow = some k')
    (hrest : Owes p nesting gate o f r debt { position := k', operands := { stack := stack' } } (M.withSteps (M.steps + 1))) :
    Owes p nesting gate o f r debt { position := k, operands := { stack } } M := by
  have hc : CountsUp (p.invoker (p.invoke nesting)).invoke := trace_steps p nesting
  intro he
  rcases Nat.lt_or_ge M.steps p.stepLimit with hlimit | hlimit
  · rw [Routine.goEvents_silent hc hlimit hM hi h hk] at he ⊢
    unfold Exec.final
    rw [Routine.go_silent hc hlimit hM hi h hk]
    have hlater := hrest fun e h => he e (List.mem_cons_of_mem _ h)
    have hother : Event.enters gate o (.step r { position := k, operands := { stack } } i (M.withSteps (M.steps + 1))) = false := by
      simp [Event.enters, hk6]
    rw [entries_cons_other hother]
    exact hlater
  · rw [Routine.goEvents_out hc hlimit, Routine.go_out hc hlimit]
    exact (Nat.zero_add _).trans_le hdebt

variable (hg : p.HasGate references state gate body work)
  (hcalls : DeepCalls (fun _ M events N => entries gate o events + M.signal p.graph o state.signaled ≤
    N.signal p.graph o state.signaled) (Change.Raises (.field o state.signaled)) (p.invoke nesting) (p.trace nesting))

include hg hcalls

/-- past the first instruction behind the check, and where the check has failed, nothing is entered but by calls -/
theorem owes_elsewhere (ha : a.position = 5 ∨ 7 ≤ a.position) :
    Owes p nesting gate o state.signaled (Routine.ofCode p.graph gate body depth)
      (M.signal p.graph o state.signaled) a M := by
  have hS := deepDrift_entries p.graph gate o state.signaled
  intro he
  refine turns_within (I := fun a N => (a.position = 5 ∨ 7 ≤ a.position) ∧ N.frames.size = M.frames.size) (hS.drift 0)
    p.stepLimit (fun a N ha he => ⟨?_, fun a' N' hturn => ⟨?_, ?_⟩⟩) _ ⟨ha, rfl⟩ he
  · refine turn_drifts (hS.drift 0) (Nat.zero_le _) (hcalls.within hS (Nat.zero_le _)) (fun i K hi => ?_) p.stepLimit he
    have hother : Event.enters gate o (.step (Routine.ofCode p.graph gate body depth) a i K) = false := by
      have hne : a.position ≠ 6 := by omega
      simp [Event.enters, hne]
    rw [entries_one hother, Nat.zero_add]
  · rcases ha.1 with hfive | hseven
    · obtain ⟨i, hi, hleads⟩ := Routine.turn_leads rfl hturn
      rw [hfive] at hi
      cases (hg.gated.escape.fetch 5 rfl).symm.trans hi
      rcases hleads with heq | ⟨hterminal, -⟩ | ⟨t, ht, -⟩
      · cases heq
      · cases hterminal
      · cases ht
    · have hlater := (hg.gated.later rfl rfl hseven hturn).1
      omega
  · have hsize : (((Routine.ofCode p.graph gate body depth).turn (p.invoker (p.invoke nesting)) p.stepLimit a).final
        N).frames.size = N.frames.size := turn_size (invoke_size p nesting) p.stepLimit
    unfold Exec.final at hsize
    rw [hturn] at hsize
    exact hsize.trans ha.2

/-- whoever comes past the check has taken the signal -/
theorem owes_entered (hM : M.Given depth arguments) (hsignal : M.signal p.graph o state.signaled = 1) :
    Owes p nesting gate o state.signaled (Routine.ofCode p.graph gate body depth) 0
      { position := 6, operands := { stack } } M := by
  have hc : CountsUp (p.invoker (p.invoke nesting)).invoke := trace_steps p nesting
  intro he
  rcases Nat.lt_or_ge M.steps p.stepLimit with hlimit | hlimit
  · rw [Routine.goEvents_silent hc hlimit hM (hg.gated.escape.fetch 6 rfl) rfl rfl] at he ⊢
    unfold Exec.final
    rw [Routine.go_silent hc hlimit hM (hg.gated.escape.fetch 6 rfl) rfl rfl]
    have howes : Owes p nesting gate o state.signaled (Routine.ofCode p.graph gate body depth)
        (M.signal p.graph o state.signaled) { position := 7, operands := { stack } } (M.withSteps (M.steps + 1)) :=
      owes_elsewhere hg hcalls (.inr (Nat.le_refl 7))
    have hlater := howes fun e h => he e (List.mem_cons_of_mem _ h)
    rw [hsignal, Nat.add_comm] at hlater
    exact Nat.le_trans (entries_cons _) hlater
  · rw [Routine.goEvents_out hc hlimit]
    exact Nat.zero_le _

/-- what the check comes to: it lets pass who finds the signal down -/
theorem owes_answered (hM : M.Given depth arguments) (hsignal : M.signal p.graph o state.signaled = 1) (v : Value) :
    Owes p nesting gate o state.signaled (Routine.ofCode p.graph gate body depth) (if v.isTrue then 1 else 0)
      { position := 4, operands := { stack := [v] } } M := by
  have hbranch : (Instruction.brfalse ⟨6⟩).silent? depth arguments [v] =
      some (if v.isTrue then .next else .jump ⟨6⟩, []) := rfl
  have hfour := hg.gated.escape.fetch 4 rfl
  by_cases hv : v.isTrue = true
  · rw [if_pos hv] at hbranch ⊢
    have hfive : Owes p nesting gate o state.signaled (Routine.ofCode p.graph gate body depth)
        (M.signal p.graph o state.signaled) { position := 5 } (M.withSteps (M.steps + 1)) :=
      owes_elsewhere hg hcalls (.inl rfl)
    rw [hsignal] at hfive
    exact .silent (by decide) hsignal.ge hM hfour hbranch rfl hfive
  · rw [if_neg hv] at hbranch ⊢
    refine .silent (by decide) (Nat.zero_le _) hM hfour hbranch ?_ (owes_entered hg hcalls hM hsignal)
    exact hg.gated.escape.position 6 (by simp [Emission.escapeCode])

/-- the exchange takes the signal -/
theorem owes_asked (hM : M.Given depth arguments) :
    Owes p nesting gate o state.signaled (Routine.ofCode p.graph gate body depth) (M.signal p.graph o state.signaled)
      { position := 3, operands := { stack := [.int32 1, .address (.field o state.signaled)] } } M := by
  have hc : CountsUp (p.invoker (p.invoke nesting)).invoke := trace_steps p nesting
  have hfree : (Routine.ofCode p.graph gate body depth).Unprotected 3 := fun region hregion => by cases hregion
  intro he
  rcases Nat.lt_or_ge M.steps p.stepLimit with hlimit | hlimit
  · have hcall : (Routine.ofCode p.graph gate body depth).layout.fetch? 3 =
        some (.call (.direct p.graph references.exchangeInt32)) := hg.gated.escape.fetch 3 rfl
    have hgo : (Routine.ofCode p.graph gate body depth).go (p.invoker (p.invoke nesting)) p.stepLimit
        { position := 3, operands := { stack := [.int32 1, .address (.field o state.signaled)] } } M =
      Routine.resumeWith (p.invoker (p.invoke nesting)) (Routine.ofCode p.graph gate body depth) p.stepLimit 4 [] []
        (p.invoke nesting references.exchangeInt32 [.address (.field o state.signaled), .int32 1]
          (M.withSteps (M.steps + 1))) :=
      Routine.go_call hc hlimit [.address (.field o state.signaled), .int32 1] hcall hfree hg.count
    have hevents : (Routine.ofCode p.graph gate body depth).goEvents (p.invoker (p.invoke nesting)) (p.trace nesting)
        p.stepLimit { position := 3, operands := { stack := [.int32 1, .address (.field o state.signaled)] } } M =
      .step (Routine.ofCode p.graph gate body depth)
          { position := 3, operands := { stack := [.int32 1, .address (.field o state.signaled)] } }
          (.call (.direct p.graph references.exchangeInt32)) (M.withSteps (M.steps + 1)) ::
        (p.trace nesting references.exchangeInt32 [.address (.field o state.signaled), .int32 1]
            (M.withSteps (M.steps + 1)) ++
          Routine.resumeEvents (p.invoker (p.invoke nesting)) (p.trace nesting) (Routine.ofCode p.graph gate body depth)
            p.stepLimit 4 [] [] (p.invoke nesting references.exchangeInt32
              [.address (.field o state.signaled), .int32 1] (M.withSteps (M.steps + 1)))) :=
      Routine.goEvents_call hc hlimit [.address (.field o state.signaled), .int32 1] hcall hfree hg.count
    have hquiet : entries gate o (p.trace nesting references.exchangeInt32
        [.address (.field o state.signaled), .int32 1] (M.withSteps (M.steps + 1))) = 0 :=
      entries_none fun e h => Event.enters_quiet (exchange_quiet hg.exchange e h)
    have hother : Event.enters gate o (.step (Routine.ofCode p.graph gate body depth)
        { position := 3, operands := { stack := [.int32 1, .address (.field o state.signaled)] } }
        (.call (.direct p.graph references.exchangeInt32)) (M.withSteps (M.steps + 1))) = false := by
      simp [Event.enters]
    rw [hevents] at he ⊢
    rw [entries_cons_other hother, entries_append, hquiet, Nat.zero_add]
    unfold Exec.final
    rw [hgo]
    cases hv : p.invoke nesting references.exchangeInt32 [.address (.field o state.signaled), .int32 1]
        (M.withSteps (M.steps + 1)) with
    | error t N =>
      have hdrift := hcalls references.exchangeInt32 [.address (.field o state.signaled), .int32 1]
        (M.withSteps (M.steps + 1)) fun e h => he e (List.mem_cons_of_mem _ (List.mem_append_left _ h))
      unfold Exec.final at hdrift
      rw [hv, hquiet] at hdrift
      exact hdrift
    | ok w N =>
      rw [hv] at he
      obtain ⟨hthere, rfl, rfl⟩ := exchange_ok hg.exchange hv
      have htaken : ((M.withSteps (M.steps + 1)).apply (.store (.field o state.signaled) (.int32 1))).signal p.graph o
          state.signaled = 1 := by
        cases ho : M.object? o with
        | none =>
          simp only [Machine.missing?, Machine.withSteps_object?, ho] at hthere
          cases hthere
        | some object =>
          obtain ⟨object', ho', hf'⟩ := object?_store (M := M.withSteps (M.steps + 1)) p.graph ho (.int32 1)
          refine signal_of_true ?_
          rw [content_object ho', hf']
          rfl
      have hanswered := owes_answered (M := (M.withSteps (M.steps + 1)).apply (.store (.field o state.signaled) (.int32 1)))
        hg hcalls hM htaken (M.content p.graph (.field o state.signaled))
      exact hanswered fun e h => he e (List.mem_cons_of_mem _ (List.mem_append_right _ h))
  · rw [Routine.goEvents_out hc hlimit, Routine.go_out hc hlimit]
    exact Nat.le_of_eq (Nat.zero_add _)

/-- **A run of a gate on the object**: the signal pays for its entry, and for all entries of calls inside it. -/
theorem owes_start (hM : M.Given depth (.object o :: arguments)) :
    Owes p nesting gate o state.signaled (Routine.ofCode p.graph gate body depth) (M.signal p.graph o state.signaled) {} M :=
  have hcode := hg.gated.escape
  .silent (by decide) (Nat.le_refl _) hM (hcode.fetch 0 rfl) rfl rfl <|
    .silent (by decide) (Nat.le_refl _) hM (hcode.fetch 1 rfl) rfl rfl <|
      .silent (by decide) (Nat.le_refl _) hM (hcode.fetch 2 rfl) rfl rfl <| owes_asked hg hcalls hM

/-- a run of a gate on anything else enters nothing for the object but by calls -/
theorem owes_apart (hM : M.Given depth arguments) (ho : arguments.head? ≠ some (.object o)) :
    Owes p nesting gate o state.signaled (Routine.ofCode p.graph gate body depth) (M.signal p.graph o state.signaled) a
      M := by
  have hS := deepDrift_entries p.graph gate o state.signaled
  intro he
  refine turns_within (I := fun _ N => N.Given depth arguments) (hS.drift 0) p.stepLimit
    (fun a N hN he => ⟨?_, fun a' N' hturn => ?_⟩) _ hM he
  · refine turn_moves (hS.drift 0) (hcalls.within hS (Nat.zero_le _)) (fun i K hi hK => ?_) p.stepLimit he
    subst hK
    refine ⟨?_, request_moves (hS.drift 0) (fun _ => Nat.zero_le _) _⟩
    have hreceiver : N.receiver? depth ≠ some (.object o) := by
      obtain ⟨frame, hframe, harguments⟩ := Option.map_eq_some_iff.1 hN
      rw [Machine.receiver?, hframe, Option.bind_some, harguments]
      exact ho
    have hother : Event.enters gate o
        (.step (Routine.ofCode p.graph gate body depth) a i { N with steps := N.steps + 1 }) = false := by
      have hsame : Machine.receiver? { N with steps := N.steps + 1 } depth = N.receiver? depth := rfl
      simp [Event.enters, Routine.ofCode, hsame, hreceiver]
    rw [entries_one hother, Nat.zero_add]
  · have hgiven : (((Routine.ofCode p.graph gate body depth).turn (p.invoker (p.invoke nesting)) p.stepLimit a).final
        N).Given depth arguments :=
      turn_given (fun c values K => trace_outline p nesting c values K) (fun i hi n => hg.gated.noStarg hi n) hN
    unfold Exec.final at hgiven
    rw [hturn] at hgiven
    exact hgiven

omit hcalls in
/-- **The signal pays for what a gate lets pass.** -/
theorem Program.HasGate.drifts (o : ObjectRef) :
    BodyDrifts (fun _ M events N => entries gate o events + M.signal p.graph o state.signaled ≤
      N.signal p.graph o state.signaled) (Change.Raises (.field o state.signaled)) p gate body := by
  intro nesting arguments M hcalls he
  by_cases hroom : Program.maxFrames ≤ M.frames.size
  · unfold Exec.final
    rw [enter_eq, if_pos hroom, Program.enterEvents, if_pos hroom]
    exact Nat.le_of_eq (Nat.zero_add _)
  · have hlt : M.frames.size < Program.maxFrames := Nat.lt_of_not_le hroom
    have hholds := hg.gated.holds
    rw [Routine.enterEvents_code p _ _ gate hholds arguments hlt] at he ⊢
    rw [Routine.enter_code_final p _ gate hholds arguments hlt]
    have hgiven : (M.push (p.frameFor body arguments)).Given M.frames.size arguments :=
      Routine.given_push p body arguments M.steps
    have howes : Owes p nesting gate o state.signaled (Routine.ofCode p.graph gate body M.frames.size)
        (M.signal p.graph o state.signaled) {} (M.push (p.frameFor body arguments)) := by
      cases arguments with
      | nil => exact owes_apart hg hcalls hgiven (by simp)
      | cons receiver rest =>
        by_cases ho : receiver = .object o
        · subst ho
          exact owes_start hg hcalls hgiven
        · exact owes_apart hg hcalls hgiven (by simpa using ho)
    exact howes he

end Gate

end DisposalWeaver
