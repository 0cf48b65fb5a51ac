/-
Code that only goes on.

What weaving generates has no loops: every jump leads further down, and up to the end nothing returns or sets an argument
(`Onward`). A turn of such code leads to a later position (`turn_leads`, `Onward.later`), and leaves the arguments of the
call as they are (`turn_given`). The code behind the escape check is of this kind, in each of its forms (`Emission.gateCode`,
`Program.HasGate`): what it does is told here by position (`Body.Gated.fetch`).
-/
import DisposalWeaver.Proofs.FollowedCalls
import DisposalWeaver.Proofs.WovenType

namespace DisposalWeaver

/-! ## Where a turn leads -/

namespace Routine

variable {invoker : Invoker} {r : Routine} {limit : Nat} {a a' : Activation} {i : Instruction} {M N : Machine}

/-- control goes where the instruction of the turn sends it -/
theorem execute_of (i : Instruction) (operands : Operands) :
    (r.execute invoker i operands).Answers fun e => e.1.Of i := by
  intro M e N hx
  have hof := request_of invoker.graph r i operands M
  simp only [execute, bind, EStateM.bind] at hx
  cases hrequest : r.request invoker.graph i operands M with
  | error t K => rw [hrequest] at hx; cases hx
  | ok request K =>
    have hrequested := hof request K hrequest
    rw [hrequest] at hx
    cases request with
    | done flow operands' => cases hx; exact hrequested
    | call c values resume =>
      simp only [resolve, bind, EStateM.bind] at hx
      cases hv : invoker.invoke c values K with
      | error t K' => rw [hv] at hx; cases hx
      | ok value K' => rw [hv] at hx; cases hx; exact hrequested

/-- a turn within the limit executes an instruction, and follows it; without regions a trap ends the activation -/
theorem turn_follow (hr : r.regions = []) {turn : Turn} (h : r.turn invoker limit a M = .ok turn N) :
    ∃ i flow operands K, r.layout.fetch? a.position = some i ∧
      r.execute invoker i a.operands (M.withSteps (M.steps + 1)) = .ok (flow, operands) K ∧
      r.follow invoker.graph { a with operands } flow K = .ok turn N := by
  have hlimit : M.steps < limit := Nat.lt_of_not_le fun hle => by
    simp only [Routine.turn, bind, EStateM.bind, tick_error hle] at h
    cases h
  cases hi : r.layout.fetch? a.position with
  | none =>
    simp only [Routine.turn, bind, EStateM.bind, tick_ok hlimit, hi] at h
    cases h
  | some i =>
    cases hx : r.execute invoker i a.operands (M.withSteps (M.steps + 1)) with
    | ok e K =>
      obtain ⟨flow, operands⟩ := e
      rw [turn_ok hlimit hi hx] at h
      exact ⟨i, flow, operands, K, rfl, hx, h⟩
    | error t K =>
      have hfree : r.Unprotected a.position := fun region hregion => by rw [hr] at hregion; cases hregion
      rw [turn_error hlimit hi hfree hx] at h
      cases h

/-- **Where a turn leads**: to the next position, or to where the instruction jumps. -/
theorem turn_leads (hr : r.regions = []) (h : r.turn invoker limit a M = .ok (.resume a') N) :
    ∃ i, r.layout.fetch? a.position = some i ∧ (i = .endfinally ∨
      (i.isTerminal = false ∧ a'.position = a.position + 1) ∨
      ∃ t, i.target? = some t ∧ r.layout.position? t = some a'.position) := by
  obtain ⟨i, flow, operands, K, hi, hx, hfollow⟩ := turn_follow hr h
  have hof := execute_of i a.operands _ _ _ hx
  refine ⟨i, hi, ?_⟩
  cases flow with
  | next => cases hfollow; exact .inr (.inl ⟨hof, rfl⟩)
  | endFinally => exact .inl hof
  | «return» value => cases hfollow
  | jump t =>
    simp only [follow, bind, EStateM.bind, positionOf] at hfollow
    cases hq : r.layout.position? t with
    | none => rw [hq] at hfollow; cases hfollow
    | some q => rw [hq] at hfollow; cases hfollow; exact .inr (.inr ⟨t, hof, hq⟩)
  | leave t =>
    simp only [follow, bind, EStateM.bind, positionOf] at hfollow
    cases hq : r.layout.position? t with
    | none => rw [hq] at hfollow; cases hfollow
    | some q =>
      rw [hq] at hfollow
      simp only [leaveFrom, findRegion, hr, List.drop_nil, findFrom] at hfollow
      cases hfollow
      exact .inr (.inr ⟨t, hof, hq⟩)

end Routine

/-! ## Arguments stay -/

section Given

variable {invoker : Invoker} {r : Routine} {limit : Nat} {a : Activation} {depth : Nat} {arguments : List Value}
  {M N : Machine}

theorem Machine.Given.room (h : M.Given depth arguments) : depth < M.frames.size := by
  obtain ⟨frame, hframe, -⟩ := Option.map_eq_some_iff.1 h
  exact (Array.getElem?_eq_some_iff.1 hframe).1

/-- what leaves the frames outside as they are leaves their arguments so -/
theorem Machine.Given.outlined (h : M.Given depth arguments) (hN : M.Outlined M.frames.size N) :
    N.Given depth arguments := by
  have hsame := hN depth h.room
  obtain ⟨frame, hframe, harguments⟩ := Option.map_eq_some_iff.1 h
  rw [hframe] at hsame
  obtain ⟨frame', hframe', houtline⟩ := Option.map_eq_some_iff.1 hsame
  simp only [Frame.outline, Prod.mk.injEq] at houtline
  rw [Machine.Given, hframe', Option.map_some, houtline.1, harguments]

/-- changes never concern arguments -/
theorem drift_given (depth : Nat) (arguments : List Value) :
    Drift (fun M _ N => M.Given depth arguments → N.Given depth arguments) (fun _ => True) (depth + 1) where
  refl _ h := h
  trans h h' hM := h' (h hM)
  tick _ h := h
  frame M d f hd _ h := by
    rw [Machine.Given, Array.getElem?_modify, if_neg (by omega)]
    exact h
  change M c _ h := by
    cases c with
    | store place v =>
      cases place with
      | «variable» d index =>
        rw [Machine.Given, Machine.apply, Machine.write, Array.getElem?_modify]
        split
        · next same =>
          rw [← h, Option.map_map]
          rfl
        · exact h
      | _ => exact h
    | _ => exact h
  note _ _ h := h

/-- no instruction but one that says so changes the arguments of its routine -/
theorem request_given {i : Instruction} (hi : ∀ n, i ≠ .starg n) (g : TypeGraph) (operands : Operands) :
    (r.request g i operands).Moves (fun M _ N => M.Given r.depth arguments → N.Given r.depth arguments) M := by
  have hS := drift_given r.depth arguments
  by_cases hframe : i.setsFrame = true
  · cases i with
    | starg n => exact absurd rfl (hi n)
    | stloc n =>
      exact (pop_moves hS _).bind hS fun _ _ => (store_moves hS trivial).bind hS fun _ _ => Exec.moves_pure hS _
    | _ => cases hframe
  · exact request_moves hS (fun h => absurd h hframe) operands fun _ _ => trivial

/-- **A turn leaves the arguments as they are**, unless its instruction says otherwise. -/
theorem turn_given (hcalls : ∀ c values (K : Machine), K.Outlined K.frames.size ((invoker.invoke c values).final K))
    (hi : ∀ i, r.layout.fetch? a.position = some i → ∀ n, i ≠ .starg n) (hM : M.Given r.depth arguments) :
    ((r.turn invoker limit a).final M).Given r.depth arguments := by
  have hcallsDrift : CallsDrift (fun M _ N => M.Given r.depth arguments → N.Given r.depth arguments) (fun _ => True)
      M.frames.size invoker.invoke fun _ _ _ => [] := callsDrift_untold fun c values K hK => hK.outlined (hcalls c values K)
  exact turn_moves (drift_given r.depth arguments) hcallsDrift
    (fun i N hfetch _ => ⟨fun h => h, fun _ => request_given (hi i hfetch) _ _⟩) limit
    (fun e _ => e.allowed_of_all fun _ => trivial) hM

end Given

/-! ## Code without a way back -/

/-- the instruction goes on, to the next position or further down but not past `stop`: it does not return, and it sets
neither a field nor an argument -/
def Instruction.Onward (k stop : Nat) : Instruction → Prop
  | .ret | .leave _ | .endfinally | .starg _ | .stfld _ | .stsfld _ => False
  | .br t | .brtrue t | .brfalse t => k < t.number ∧ t.number ≤ stop
  | _ => True

/-- code that goes on up to `stop`, from position `k` -/
def Onward (stop : Nat) : Nat → List Instruction → Prop
  | _, [] => True
  | k, i :: rest => i.Onward k stop ∧ Onward stop (k + 1) rest

namespace Onward

variable {stop start : Nat} {code code' : List Instruction}

theorem get (h : Onward stop start code) {k : Nat} {i : Instruction} (hk : code[k]? = some i) :
    i.Onward (start + k) stop := by
  induction code generalizing start k with
  | nil => cases hk
  | cons first rest ih =>
    cases k with
    | zero => cases hk; exact h.1
    | succ k =>
      have hrest := ih h.2 hk
      rwa [Nat.add_right_comm, Nat.add_assoc] at hrest

theorem append (h : Onward stop start code) (h' : Onward stop (start + code.length) code') :
    Onward stop start (code ++ code') := by
  induction code generalizing start with
  | nil => exact h'
  | cons first rest ih =>
    refine ⟨h.1, ih h.2 ?_⟩
    rwa [List.length_cons, Nat.add_comm rest.length, ← Nat.add_assoc] at h'

end Onward

/-- a jump of such an instruction leads further down -/
theorem Instruction.Onward.later {i : Instruction} {k stop : Nat} (h : i.Onward k stop) {t : Handle}
    (ht : i.target? = some t) : k < t.number ∧ t.number ≤ stop := by
  cases i with
  | br u | brtrue u | brfalse u => cases ht; exact h
  | leave u => exact h.elim
  | _ => cases ht

namespace Emission

variable (g : TypeGraph) (references : References) {stop : Nat}

theorem onward_call (m : MethodId) (start : Nat) : Onward stop start (callCode g m) := by
  refine ⟨trivial, ?_, trivial⟩
  unfold Instruction.callTo
  split <;> trivial

theorem onward_managed (m : MethodId) (start : Nat) (hstop : start + 5 ≤ stop) :
    Onward stop start (managedCode g m start) := by
  refine Onward.append (Onward.append ⟨trivial, ⟨?_, ?_⟩, trivial⟩ (onward_call g m _)) ⟨trivial, trivial⟩ <;> simp only <;> omega

theorem onward_disposal (start : Nat) (e : FieldId × Option UInt16)
    (hstop : start + (disposalCode g references start e).length ≤ stop) :
    Onward stop start (disposalCode g references start e) := by
  obtain ⟨f, slot?⟩ := e
  cases slot? <;> simp only [disposalCode, List.length_cons, List.length_nil] at hstop <;>
    simp only [disposalCode, Onward, Instruction.Onward, and_self, and_true, true_and] <;> omega

theorem onward_disposals (start : Nat) (places : List (FieldId × Option UInt16))
    (hstop : start + (disposalsCode g references start places).length ≤ stop) :
    Onward stop start (disposalsCode g references start places) := by
  induction places generalizing start with
  | nil => trivial
  | cons e rest ih =>
    rw [disposalsCode, List.length_append] at hstop
    exact (onward_disposal g references start e (by omega)).append (ih _ (by omega))

/-- the escape check, some work, and the store to the disposed field -/
def gateCode (state : WovenState) (work : List Instruction) : List Instruction :=
  escapeCode g references state.signaled 0 ++ work ++ setDisposedCode g state.disposed ++ [.ret]

end Emission

/-! ## The body behind the escape check -/

/-- the method of an arrangement that takes the signal, where the entry point is known -/
def Arrangement.gate (entry : MethodId) (arrangement : Arrangement) : MethodId := arrangement.routine?.getD entry

/-- the body holds the code of a gate, whose work goes on to its end -/
structure Body.Gated (g : TypeGraph) (references : References) (state : WovenState) (work : List Instruction) (body : Body) :
    Prop where
  holds : body.Holds (Emission.gateCode g references state work)
  onward : Onward (7 + work.length) 7 work

namespace Emission

variable (g : TypeGraph) (references : References) (state : WovenState)

theorem simpleEntry_gated (fields : List FieldId) : ∃ work, (simpleEntry g references state fields).Gated g references state work :=
  ⟨_, simpleEntry_holds g references state fields, onward_disposals g references 7 _ (Nat.le_refl _)⟩

theorem managedEntry_gated (managed : MethodId) :
    ∃ work, (managedEntry g references state managed).Gated g references state work :=
  ⟨_, managedEntry_holds g references state managed, onward_call g managed 7⟩

theorem routine_gated (managed : Option MethodId) (unmanaged : MethodId) :
    ∃ work, (routine g references state managed unmanaged).Gated g references state work := by
  have hholds := routine_holds g references state managed unmanaged
  rw [routineCode, List.append_assoc (escapeCode _ _ _ _)] at hholds
  refine ⟨_, hholds, ?_⟩
  cases managed with
  | none => exact onward_call g unmanaged 7
  | some m =>
    refine Onward.append (onward_managed g m 7 ?_) (onward_call g unmanaged _)
    simp [managedCode, callCode]

end Emission

namespace Body.Gated

variable {g : TypeGraph} {references : References} {state : WovenState} {work : List Instruction} {body : Body}

/-- a body behind the escape check has its work, the store to the disposed field and the return after the check -/
theorem fetch (h : body.Gated g references state work) {k : Nat} {i : Instruction}
    (hi : (Layout.ofBody body).fetch? k = some i) (hk : 7 ≤ k) : (k < 7 + work.length ∧ i.Onward k (7 + work.length)) ∨
      (k = 7 + work.length ∧ i = .ldarg 0) ∨ (k = 7 + work.length + 1 ∧ i = .ldc 1) ∨
      (k = 7 + work.length + 2 ∧ i = .stfld (.onSelf g state.disposed)) ∨ (k = 7 + work.length + 3 ∧ i = .ret) := by
  rw [h.holds.fetch?] at hi
  obtain ⟨j, rfl⟩ := Nat.exists_eq_add_of_le hk
  have hsplit : Emission.gateCode g references state work = Emission.escapeCode g references state.signaled 0 ++
      (work ++ [.ldarg 0, .ldc 1, .stfld (.onSelf g state.disposed), .ret]) := by
    simp only [Emission.gateCode, Emission.setDisposedCode, List.append_assoc, List.cons_append, List.nil_append]
  have hlength : (Emission.escapeCode g references state.signaled 0).length = 7 := rfl
  rw [hsplit, List.getElem?_append_right (by omega), hlength, Nat.add_sub_cancel_left] at hi
  by_cases hj : j < work.length
  · rw [List.getElem?_append_left hj] at hi
    exact .inl ⟨by omega, h.onward.get hi⟩
  · obtain ⟨d, rfl⟩ := Nat.exists_eq_add_of_le (Nat.le_of_not_lt hj)
    rw [List.getElem?_append_right (by omega), Nat.add_sub_cancel_left] at hi
    match d, hi with
    | 0, hi => cases hi; exact .inr (.inl ⟨rfl, rfl⟩)
    | 1, hi => cases hi; exact .inr (.inr (.inl ⟨rfl, rfl⟩))
    | 2, hi => cases hi; exact .inr (.inr (.inr (.inl ⟨rfl, rfl⟩)))
    | 3, hi => cases hi; exact .inr (.inr (.inr (.inr ⟨rfl, rfl⟩)))

/-- the escape check comes first -/
theorem escape (h : body.Gated g references state work) :
    (Layout.ofBody body).Has 0 (Emission.escapeCode g references state.signaled 0) := by
  have hcode := Layout.has_ofBody h.holds
  rw [Emission.gateCode, List.append_assoc, List.append_assoc] at hcode
  exact hcode.left

/-- no instruction of the body sets an argument -/
theorem noStarg (h : body.Gated g references state work) {k : Nat} {i : Instruction}
    (hi : (Layout.ofBody body).fetch? k = some i) (n : UInt16) : i ≠ .starg n := by
  intro heq
  subst heq
  rcases Nat.lt_or_ge k 7 with hk | hk
  · have hcode : (Emission.escapeCode g references state.signaled 0)[k]? = some (.starg n) := by
      rw [← hi, h.holds.fetch?, Emission.gateCode, List.append_assoc, List.append_assoc,
        List.getElem?_append_left (by simpa [Emission.escapeCode] using hk)]
    have hmem := List.mem_of_getElem? hcode
    simp [Emission.escapeCode] at hmem
  · rcases h.fetch hi hk with ⟨-, honward⟩ | ⟨-, heq⟩ | ⟨-, heq⟩ | ⟨-, heq⟩ | ⟨-, heq⟩
    · exact honward
    all_goals cases heq

/-- behind the escape check, a turn leads further down -/
theorem later (h : body.Gated g references state work) {invoker : Invoker} {r : Routine} {limit : Nat} {a a' : Activation}
    {M N : Machine} (hlayout : r.layout = Layout.ofBody body) (hr : r.regions = []) (hk : 7 ≤ a.position)
    (hturn : r.turn invoker limit a M = .ok (.resume a') N) :
    a.position < a'.position ∧ (a'.position ≤ 7 + work.length ∨ a'.position = a.position + 1) := by
  obtain ⟨i, hi, hleads⟩ := Routine.turn_leads hr hturn
  rw [hlayout] at hi hleads
  rcases h.fetch hi hk with ⟨hlt, honward⟩ | ⟨-, rfl⟩ | ⟨-, rfl⟩ | ⟨-, rfl⟩ | ⟨-, rfl⟩
  · rcases hleads with rfl | ⟨-, hnext⟩ | ⟨t, ht, hq⟩
    · exact honward.elim
    · omega
    · have hlater := honward.later ht
      rw [h.holds.position hq] at hlater
      exact ⟨hlater.1, .inl hlater.2⟩
  all_goals
    rcases hleads with heq | ⟨hterminal, hnext⟩ | ⟨t, ht, -⟩
    · cases heq
    · first | cases hterminal; done | omega
    · cases ht

end Body.Gated

end DisposalWeaver
