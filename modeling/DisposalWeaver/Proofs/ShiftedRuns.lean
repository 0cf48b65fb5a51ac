/-
Running the same code further down.

A routine may have the code of another one some positions further down, with its regions moved along (`Routine.Shifted`).
If the calls that they make answer alike, the one run follows the other turn by turn: it ends in the same answer or trap,
on the same machine but for the count of instructions, which it may raise faster (`Pace`). `turn_follows` is the rule of
one turn, and `go_follows` of all turns of an activation.
-/
import DisposalWeaver.Proofs.Echoes

namespace DisposalWeaver

/-! ## Following -/

/-- how far the counts of a second run may run ahead: `rate` instructions for one, and some more -/
structure Pace where
  rate : Nat
  slack : Nat
  positive : 1 ≤ rate

/-- the second machine is the first one but for its count, which keeps the pace -/
structure Machine.Followed (field : FieldId → Prop) (pace : Pace) (M M' : Machine) : Prop where
  same : M' = M.withSteps M'.steps
  steps : M'.steps ≤ pace.rate * M.steps + pace.slack
  tidy : M.Tidy field

/-- two executions ended alike -/
def Follows {α β : Type} (field : FieldId → Prop) (pace : Pace) (related : α → β → Prop) :
    EStateM.Result Trap Machine α → EStateM.Result Trap Machine β → Prop
  | .ok a N, .ok b N' => related a b ∧ N.Followed field pace N'
  | .error t N, .error t' N' => t' = t ∧ N.Followed field pace N'
  | _, _ => False

/-- the same answer or the same trap, and the same machine but for the count of instructions -/
def SameEnd {α : Type} : EStateM.Result Trap Machine α → EStateM.Result Trap Machine α → Prop
  | .ok a N, .ok a' N' => a' = a ∧ N' = N.withSteps N'.steps
  | .error t N, .error t' N' => t' = t ∧ N' = N.withSteps N'.steps
  | _, _ => False

theorem SameEnd.symm {α : Type} {x y : EStateM.Result Trap Machine α} (h : SameEnd x y) : SameEnd y x := by
  cases x with
  | ok a N =>
    cases y with
    | ok b N' => exact ⟨h.1.symm, by rw [h.2]; rfl⟩
    | error t' N' => exact h.elim
  | error t N =>
    cases y with
    | ok b N' => exact h.elim
    | error t' N' => exact ⟨h.1.symm, by rw [h.2]; rfl⟩

theorem SameEnd.trans {α : Type} {x y z : EStateM.Result Trap Machine α} (h : SameEnd x y) (h' : SameEnd y z) :
    SameEnd x z := by
  cases x with
  | ok a N =>
    cases y with
    | error t' N' => exact h.elim
    | ok b N' =>
      cases z with
      | ok c K => exact ⟨h'.1.trans h.1, h'.2.trans (by rw [h.2]; rfl)⟩
      | error t K => exact h'.elim
  | error t N =>
    cases y with
    | ok b N' => exact h.elim
    | error t' N' =>
      cases z with
      | ok c K => exact h'.elim
      | error t K => exact ⟨h'.1.trans h.1, h'.2.trans (by rw [h.2]; rfl)⟩

/-- the same answer, which is within the fields -/
def Agreed (field : FieldId → Prop) (value value' : Option Value) : Prop :=
  value' = value ∧ ∀ v, value = some v → v.Within field

theorem Follows.imp {α β : Type} {field : FieldId → Prop} {pace : Pace} {related related' : α → β → Prop}
    {x : EStateM.Result Trap Machine α} {y : EStateM.Result Trap Machine β} (h : Follows field pace related x y)
    (himp : ∀ a b, related a b → related' a b) : Follows field pace related' x y := by
  cases x with
  | ok a N =>
    cases y with
    | ok b N' => exact ⟨himp a b h.1, h.2⟩
    | error t' N' => exact h.elim
  | error t N =>
    cases y with
    | ok b N' => exact h.elim
    | error t' N' => exact h

theorem Follows.same {α : Type} {field : FieldId → Prop} {pace : Pace} {x y : EStateM.Result Trap Machine α}
    (h : Follows field pace (fun a b => b = a) x y) : SameEnd x y := by
  cases x with
  | ok a N =>
    cases y with
    | ok b N' => exact ⟨h.1, h.2.same⟩
    | error t' N' => exact h.elim
  | error t N =>
    cases y with
    | ok b N' => exact h.elim
    | error t' N' => exact ⟨h.1, h.2.same⟩

/-- what follows goes on following -/
theorem Follows.bind {α β γ δ : Type} {field : FieldId → Prop} {pace : Pace} {M M' : Machine} {x : Exec α} {y : Exec β}
    {f : α → Exec γ} {f' : β → Exec δ} {related : α → β → Prop} {related' : γ → δ → Prop}
    (h : Follows field pace related (x M) (y M'))
    (hf : ∀ a b N N', x M = .ok a N → related a b → N.Followed field pace N' →
      Follows field pace related' (f a N) (f' b N')) :
    Follows field pace related' ((x >>= f) M) ((y >>= f') M') := by
  simp only [Bind.bind, EStateM.bind]
  cases hx : x M with
  | ok a N =>
    rw [hx] at h
    cases hy : y M' with
    | ok b N' => rw [hy] at h; exact hf a b N N' hx h.1 h.2
    | error t' N' => rw [hy] at h; exact h.elim
  | error t N =>
    rw [hx] at h
    cases hy : y M' with
    | ok b N' => rw [hy] at h; exact h.elim
    | error t' N' => rw [hy] at h; exact h

/-- an execution comes to its end before the limits, also if it is followed at the pace -/
structure Exec.InTime {α : Type} (pace : Pace) (limit limit' : Nat) (x : Exec α) (M : Machine) : Prop where
  first : (x.final M).steps ≤ limit
  second : pace.rate * (x.final M).steps + pace.slack ≤ limit'

theorem Exec.InTime.mono {α β : Type} {pace : Pace} {limit limit' : Nat} {x : Exec α} {y : Exec β} {M N : Machine}
    (h : x.InTime pace limit limit' M) (hle : (y.final N).steps ≤ (x.final M).steps) : y.InTime pace limit limit' N :=
  ⟨Nat.le_trans hle h.first,
    Nat.le_trans (Nat.add_le_add_right (Nat.mul_le_mul_left pace.rate hle) pace.slack) h.second⟩

namespace Machine.Followed

variable {field : FieldId → Prop} {pace : Pace} {M M' N : Machine}

theorem frames (h : M.Followed field pace M') : M'.frames = M.frames := by rw [h.same]; rfl

theorem push (h : M.Followed field pace M') {frame : Frame} (hf : frame.Tidy field) :
    (M.push frame).Followed field pace (M'.push frame) :=
  ⟨by rw [h.same]; rfl, h.steps, h.tidy.push hf⟩

theorem pop (h : M.Followed field pace M') : M.pop.Followed field pace M'.pop :=
  ⟨by rw [h.same]; rfl, h.steps, h.tidy.pop⟩

theorem apply (h : M.Followed field pace M') {c : Change} (hc : c.Within field) :
    (M.apply c).Followed field pace (M'.apply c) := by
  have hsteps : ∀ K : Machine, (K.apply c).steps = K.steps := fun K => by
    cases c with
    | store place v => cases place <;> rfl
    | _ => rfl
  refine ⟨?_, by rw [hsteps, hsteps]; exact h.steps, h.tidy.apply hc⟩
  rw [hsteps, h.same]
  cases c with
  | store place v => cases place <;> rfl
  | _ => rfl

/-- counting an instruction on both sides keeps the pace, also where it was ahead by as much as one instruction allows -/
theorem tick (hsame : M' = M.withSteps M'.steps) (hsteps : M'.steps + 1 ≤ pace.rate * (M.steps + 1) + pace.slack)
    (hM : M.Tidy field) :
    (M.withSteps (M.steps + 1)).Followed field pace (M'.withSteps (M'.steps + 1)) :=
  ⟨by rw [hsame]; rfl, hsteps, hM.withSteps _⟩

/-- who keeps the pace may count one more instruction -/
theorem ahead (h : M.Followed field pace M') : M'.steps + 1 ≤ pace.rate * (M.steps + 1) + pace.slack := by
  have := h.steps
  have := pace.positive
  rw [Nat.mul_add]
  omega

/-- what is echoed is followed -/
theorem echo {α : Type} {x x' : Exec α} {ok : α → Prop} (h : M.Followed field pace M')
    (hx : x.Echoes field x' M M'.steps ok) :
    Follows field pace (fun a b => b = a ∧ ok a) (x M) (x' M') := by
  unfold Exec.Echoes Exec.Ends at hx
  have hsteps := h.steps
  rw [h.same, Machine.withSteps_steps] at hsteps
  rw [h.same]
  cases hM : x M with
  | ok a N =>
    rw [hM] at hx
    obtain ⟨hx', hN, htidy, hok⟩ := hx
    rw [hx']
    exact ⟨⟨rfl, hok⟩, rfl, by rw [hN]; exact hsteps, htidy⟩
  | error t N =>
    rw [hM] at hx
    obtain ⟨hx', hN, htidy⟩ := hx
    rw [hx']
    exact ⟨rfl, rfl, by rw [hN]; exact hsteps, htidy⟩

end Machine.Followed

/-! ## Moved code -/

def Region.shift (d : Nat) (region : Region) : Region :=
  { region with
    tryStart := region.tryStart + d
    tryEnd := region.tryEnd + d
    handlerStart := region.handlerStart + d }

def Purpose.shift (d : Nat) : Purpose → Purpose
  | .leave origin target => .leave (origin + d) (target + d)
  | .raise origin exception => .raise (origin + d) exception

def Pending.shift (d : Nat) (e : Pending) : Pending := { e with purpose := e.purpose.shift d }

def Activation.shift (d : Nat) (a : Activation) : Activation :=
  { a with position := a.position + d, pending := a.pending.map (Pending.shift d) }

/-- the second routine has the code of the first one `d` positions further down, as far as a run can reach it -/
structure Routine.Shifted (d : Nat) (reach : Nat → Prop) (r r' : Routine) : Prop where
  method : r'.method = r.method
  depth : r'.depth = r.depth
  returns : r'.returnsValue = r.returnsValue
  regions : r'.regions = r.regions.map (Region.shift d)
  fetch : ∀ k, reach k → r'.layout.fetch? (k + d) = r.layout.fetch? k
  target : ∀ k i t, reach k → r.layout.fetch? k = some i → i.target? = some t →
    r'.layout.position? t = (r.layout.position? t).map (· + d)
  next : ∀ k i, reach k → r.layout.fetch? k = some i → i.isTerminal = false → reach (k + 1)
  jump : ∀ k i t q, reach k → r.layout.fetch? k = some i → i.target? = some t → r.layout.position? t = some q → reach q
  handler : ∀ region ∈ r.regions, reach region.handlerStart

/-- an activation that a run has come to -/
structure Activation.Tidy (field : FieldId → Prop) (reach : Nat → Prop) (a : Activation) : Prop where
  position : reach a.position
  operands : a.operands.Within field
  pending : ∀ e ∈ a.pending, ∀ origin target, e.purpose = .leave origin target → reach target

/-- two turns lead to the same, further down -/
def Turn.Shifted (field : FieldId → Prop) (d : Nat) (reach : Nat → Prop) : Turn → Turn → Prop
  | .resume a, .resume b => b = a.shift d ∧ a.Tidy field reach
  | .finish value, .finish value' => Agreed field value value'
  | _, _ => False

section Regions

variable {field : FieldId → Prop} {d : Nat} {reach : Nat → Prop} {r r' : Routine} {a : Activation} {pace : Pace}
  {M M' : Machine}

theorem findFrom_map (f : Region → Region) (wanted : Region → Bool) (first : Nat) (regions : List Region) :
    Routine.findFrom wanted first (regions.map f) =
      (Routine.findFrom (fun region => wanted (f region)) first regions).map fun e => (f e.1, e.2) := by
  induction regions generalizing first with
  | nil => rfl
  | cons region rest ih =>
    simp only [List.map_cons, Routine.findFrom]
    split
    · rfl
    · exact ih (first + 1)

/-- what is found among moved regions -/
theorem Routine.Shifted.find (h : r.Shifted d reach r') {wanted wanted' : Region → Bool}
    (hw : ∀ region, wanted' (region.shift d) = wanted region) (first : Nat) :
    Routine.findRegion r'.regions first wanted' =
      (Routine.findRegion r.regions first wanted).map fun e => (e.1.shift d, e.2) := by
  unfold Routine.findRegion
  rw [h.regions, ← List.map_drop, findFrom_map]
  simp only [hw]

theorem protects_shift (region : Region) (k : Nat) : (region.shift d).protects (k + d) = region.protects k := by
  simp [Region.protects, Region.shift]

theorem Routine.Shifted.leaveFrom (h : r.Shifted d reach r')
    (hp : ∀ e ∈ a.pending, ∀ origin target, e.purpose = .leave origin target → reach target)
    (first origin : Nat) {target : Nat} (ht : reach target) :
    r'.leaveFrom first (origin + d) (target + d) (a.shift d) = (r.leaveFrom first origin target a).shift d ∧
      (r.leaveFrom first origin target a).Tidy field reach := by
  have hleft : ∀ region : Region, Routine.isLeft (origin + d) (target + d) (region.shift d) =
      Routine.isLeft origin target region := fun region => by
    unfold Routine.isLeft
    rw [protects_shift, protects_shift]
    rfl
  unfold Routine.leaveFrom
  rw [h.find hleft]
  cases hf : Routine.findRegion r.regions first (Routine.isLeft origin target) with
  | none => exact ⟨rfl, ht, fun v hv => (by cases hv), hp⟩
  | some e =>
    refine ⟨rfl, h.handler e.1 (Routine.findRegion_some hf).1, fun v hv => (by cases hv), fun e' he' o t hpurpose => ?_⟩
    rcases List.mem_cons.1 he' with rfl | he'
    · cases hpurpose
      exact ht
    · exact hp e' he' o t hpurpose

theorem Routine.Shifted.raiseFrom {g G : TypeGraph} {A : Accord g G} (h : r.Shifted d reach r')
    (hM : M.Followed A.field pace M')
    (hp : ∀ e ∈ a.pending, ∀ origin target, e.purpose = .leave origin target → reach target)
    (first origin : Nat) (exception : ObjectRef) :
    Follows A.field pace (fun a b => b = a.shift d ∧ a.Tidy A.field reach)
      (r.raiseFrom g first origin exception a M) (r'.raiseFrom G first (origin + d) exception (a.shift d) M') := by
  have hhandles : ∀ region : Region, Routine.handles G M' (origin + d) exception (region.shift d) =
      Routine.handles g M origin exception region := fun region => by
    unfold Routine.handles
    rw [protects_shift]
    congr 1
    cases hk : region.kind with
    | «finally» => simp only [Region.shift, hk]
    | «catch» t =>
      simp only [Region.shift, hk, Machine.isInstance]
      rw [hM.same, Machine.withSteps_object?]
      cases M.object? exception with
      | none => rfl
      | some object => exact A.subtype_eq _ _
  unfold Routine.raiseFrom
  simp only [bind, EStateM.bind, get_run]
  rw [h.find hhandles]
  cases hf : Routine.findRegion r.regions first (Routine.handles g M origin exception) with
  | none => exact ⟨rfl, hM⟩
  | some e =>
    have hstart := h.handler e.1 (Routine.findRegion_some hf).1
    simp only [Option.map_some]
    cases hk : e.1.kind with
    | «finally» =>
      simp only [Region.shift, hk]
      refine ⟨⟨rfl, hstart, fun v hv => (by cases hv), fun e' he' o t hpurpose => ?_⟩, hM⟩
      rcases List.mem_cons.1 he' with rfl | he'
      · cases hpurpose
      · exact hp e' he' o t hpurpose
    | «catch» t =>
      simp only [Region.shift, hk]
      refine ⟨⟨rfl, hstart, fun v hv => ?_, hp⟩, hM⟩
      rw [List.mem_singleton.1 hv]
      trivial

end Regions

/-! ## Single turns -/

namespace Exec

variable {α β : Type} {ok : β → Prop}

/-- whatever the execution answers is as told -/
def Answers (x : Exec α) (ok : α → Prop) : Prop := ∀ M a N, x M = .ok a N → ok a

theorem answers_pure {b : β} (h : ok b) : (pure b : Exec β).Answers ok := fun M a N hx => by
  cases hx
  exact h

theorem answers_throw (t : Trap) : (throw t : Exec β).Answers ok := fun M a N hx => by cases hx

theorem answers_bind {x : Exec α} {f : α → Exec β} (h : ∀ a, (f a).Answers ok) : (x >>= f).Answers ok := by
  intro M b N hx
  simp only [bind, EStateM.bind] at hx
  cases hx' : x M with
  | ok a K =>
    rw [hx'] at hx
    exact h a K b N hx
  | error t K =>
    rw [hx'] at hx
    cases hx

end Exec

/-- control goes where the instruction sends it -/
def Flow.Of (i : Instruction) : Flow → Prop
  | .next => i.isTerminal = false
  | .jump t | .leave t => i.target? = some t
  | .endFinally => i = .endfinally
  | .return _ => i = .ret

/-- an instruction that makes a call goes on after it -/
def Request.Of (i : Instruction) : Request → Prop
  | .done flow _ => flow.Of i
  | .call _ _ _ => i.isTerminal = false

section Single

open Exec Routine

variable {g G : TypeGraph} {A : Accord g G} {r r' : Routine} {d : Nat} {reach : Nat → Prop} {pace : Pace}
  {M M' : Machine} {a : Activation}

theorem request_of (g : TypeGraph) (r : Routine) (i : Instruction) (operands : Operands) :
    (r.request g i operands).Answers (Request.Of i) := by
  cases i with
  | nop | ldnull | ldc v | ldstr v | ldloca n | constrained t | box t | br t | leave t | endfinally =>
    exact answers_pure rfl
  | ldarg n | ldloc n | ldsfld f => exact answers_bind fun _ => answers_pure rfl
  | starg n | stloc n | ceq | stsfld f => exact answers_bind fun _ => answers_bind fun _ => answers_pure rfl
  | ldflda f => exact answers_bind fun _ => answers_bind fun _ => answers_pure rfl
  | ldfld f => exact answers_bind fun _ => answers_bind fun _ => answers_bind fun _ => answers_pure rfl
  | stfld f =>
    exact answers_bind fun _ => answers_bind fun _ => answers_bind fun _ => answers_bind fun _ => answers_pure rfl
  | dup | pop => exact answers_bind fun _ => answers_pure rfl
  | add =>
    exact answers_bind fun _ => answers_bind fun _ => answers_bind fun _ => answers_bind fun _ => answers_pure rfl
  | call m => exact answers_bind fun _ => answers_pure rfl
  | callvirt m =>
    refine answers_bind fun e => ?_
    simp only
    split <;> exact answers_bind fun _ => answers_bind fun _ => answers_pure rfl
  | newobj m => exact answers_bind fun _ => answers_bind fun _ => answers_pure rfl
  | brtrue t | brfalse t =>
    refine answers_bind fun e => answers_pure ?_
    simp only [Request.Of]
    split <;> rfl
  | throw => exact answers_bind fun _ => answers_bind fun _ => answers_throw _
  | ret =>
    unfold Routine.request
    simp only
    split
    · exact answers_bind fun _ => answers_pure rfl
    · exact answers_pure rfl

/-- calls, made with the given number of frames, answer alike: those that are fine and come to their end in time -/
def CallsFollow (A : Accord g G) (pace : Pace) (limit limit' : Nat) (fine : Event → Prop) (size : Nat)
    (invoke invoke' : MethodId → List Value → Exec (Option Value)) (calls : MethodId → List Value → Machine → List Event) :
    Prop :=
  ∀ c values M M', M.Followed A.field pace M' → A.method c → (∀ v ∈ values, v.Within A.field) → M.frames.size = size →
    (∀ e ∈ calls c values M, fine e) → (invoke c values).InTime pace limit limit' M →
    Follows A.field pace (Agreed A.field) (invoke c values M) (invoke' c values M')

variable {invoker invoker' : Invoker} {B : Accord invoker.graph invoker'.graph} {limit limit' : Nat}
  {fine : Event → Prop} {calls : MethodId → List Value → Machine → List Event} {i : Instruction}

theorem execute_follows (hM : M.Followed B.field pace M') (hd : r'.depth = r.depth)
    (hr : r'.returnsValue = r.returnsValue) (hi : B.Admits i) {operands : Operands} (ho : operands.Within B.field)
    (hcalls : CallsFollow B pace limit limit' fine M.frames.size invoker.invoke invoker'.invoke calls)
    (he : ∀ c values resume K, r.request invoker.graph i operands M = .ok (.call c values resume) K →
      ∀ e ∈ calls c values K, fine e)
    (ht : (r.execute invoker i operands).InTime pace limit limit' M) :
    Follows B.field pace (fun e e' => e' = e ∧ e.1.Of i ∧ e.1.Within B.field ∧ e.2.Within B.field)
      (r.execute invoker i operands M)
      (r'.execute invoker' i operands M') := by
  have hof := request_of invoker.graph r i operands M
  have hsize := (request_moves (M := M) (g := invoker.graph) (r := r) drift_size (i := i)
    (fun _ => Nat.zero_le _) operands fun _ _ => trivial).final
  have hfinal : (r.execute invoker i operands).final M = _ := execute_final i operands
  unfold Exec.final at hsize
  refine (hM.echo (request_echoes hM.tidy hd hr hi ho)).bind fun request request' N N' hx hrequest hN => ?_
  obtain ⟨hsame, hwithin⟩ := hrequest
  subst request'
  have hgoes := hof request N hx
  rw [hx] at hsize hfinal
  cases request with
  | done flow operands' => exact ⟨⟨rfl, hgoes, hwithin.1, hwithin.2⟩, hN⟩
  | call c values resume =>
    refine (hcalls c values N N' hN hwithin.1 hwithin.2.1 hsize (he c values resume N hx) (ht.mono (by rw [hfinal]))).bind
      fun value value' K K' _ hanswer hK => ?_
    obtain ⟨hsame, hvalue⟩ := hanswer
    subst value'
    exact ⟨⟨rfl, hgoes, trivial, hwithin.2.2 _ hvalue⟩, hK⟩

theorem attempt_follows {α β : Type} {field : FieldId → Prop} {related : α → β → Prop} {x : Exec α} {y : Exec β}
    (h : Follows field pace related (x M) (y M')) :
    Follows field pace (fun a b => (∃ v w, a = .ok v ∧ b = .ok w ∧ related v w) ∨ ∃ o, a = .error o ∧ b = .error o)
      (Exec.attempt x M) (Exec.attempt y M') := by
  unfold Exec.attempt
  cases hx : x M with
  | ok v N =>
    rw [hx] at h
    cases hy : y M' with
    | ok w N' => rw [hy] at h; exact ⟨.inl ⟨v, w, rfl, rfl, h.1⟩, h.2⟩
    | error t' N' => rw [hy] at h; exact h.elim
  | error t N =>
    rw [hx] at h
    cases hy : y M' with
    | ok w N' => rw [hy] at h; exact h.elim
    | error t' N' =>
      rw [hy] at h
      obtain ⟨rfl, hN⟩ := h
      cases t' with
      | exception o => exact ⟨.inr ⟨o, rfl, rfl⟩, hN⟩
      | _ => exact ⟨rfl, hN⟩

theorem endHandler_follows (hs : r.Shifted d reach r') (hM : M.Followed A.field pace M')
    (hp : ∀ e ∈ a.pending, ∀ origin target, e.purpose = .leave origin target → reach target) :
    Follows A.field pace (fun a b => b = a.shift d ∧ a.Tidy A.field reach) (r.endHandler g a M)
      (r'.endHandler G (a.shift d) M') := by
  obtain ⟨position, operands, pending⟩ := a
  cases pending with
  | nil => exact ⟨rfl, hM⟩
  | cons first rest =>
    obtain ⟨region, purpose⟩ := first
    have hrest : ∀ e ∈ rest, ∀ origin target, e.purpose = .leave origin target → reach target :=
      fun e he => hp e (List.mem_cons_of_mem _ he)
    cases purpose with
    | leave origin target =>
      have ht := hp _ List.mem_cons_self origin target rfl
      exact ⟨hs.leaveFrom (a := { position, operands, pending := rest }) hrest (region + 1) origin ht, hM⟩
    | raise origin exception =>
      exact hs.raiseFrom (a := { position, operands, pending := rest }) hM hrest (region + 1) origin exception

theorem follow_follows (hs : r.Shifted d reach r') (hM : M.Followed A.field pace M') (ha : a.Tidy A.field reach)
    (hi : r.layout.fetch? a.position = some i) {flow : Flow} (hflow : flow.Of i) (hw : flow.Within A.field)
    {operands : Operands} (ho : operands.Within A.field) :
    Follows A.field pace (Turn.Shifted A.field d reach) (r.follow g { a with operands } flow M)
      (r'.follow G ({ a with operands }.shift d) flow M') := by
  have hposition : ∀ t, i.target? = some t → r'.layout.position? t = (r.layout.position? t).map (· + d) :=
    fun t => hs.target _ _ _ ha.position hi
  cases flow with
  | next =>
    refine ⟨⟨?_, hs.next _ _ ha.position hi hflow, ho, ha.pending⟩, hM⟩
    simp only [Activation.shift]
    rw [Nat.add_right_comm]
  | jump t =>
    simp only [Routine.follow, bind, EStateM.bind, Routine.positionOf, hposition t hflow]
    cases hq : r.layout.position? t with
    | none => exact ⟨rfl, hM⟩
    | some q => exact ⟨⟨rfl, hs.jump _ _ _ _ ha.position hi hflow hq, ho, ha.pending⟩, hM⟩
  | leave t =>
    simp only [Routine.follow, bind, EStateM.bind, Routine.positionOf, hposition t hflow]
    cases hq : r.layout.position? t with
    | none => exact ⟨rfl, hM⟩
    | some q =>
      exact ⟨hs.leaveFrom (a := { a with operands }) ha.pending 0 a.position (hs.jump _ _ _ _ ha.position hi hflow hq), hM⟩
  | endFinally =>
    exact (endHandler_follows (a := { a with operands }) hs hM ha.pending).bind fun b b' N N' _ hb hN => ⟨hb, hN⟩
  | «return» value =>
    refine ⟨⟨rfl, fun v hv => ?_⟩, hM⟩
    subst hv
    exact hw

/-- **One turn** of moved code leads to the same, further down. -/
theorem turn_follows (hs : r.Shifted d reach r') (hc : CountsUp invoker.invoke) (hsame : M' = M.withSteps M'.steps)
    (hsteps : M'.steps + 1 ≤ pace.rate * (M.steps + 1) + pace.slack) (hM : M.Tidy B.field) (ha : a.Tidy B.field reach)
    (hadmits : ∀ i K, r.layout.fetch? a.position = some i → fine (.step r a i K) → B.Admits i)
    (hcalls : CallsFollow B pace limit limit' fine M.frames.size invoker.invoke invoker'.invoke calls)
    (he : ∀ e ∈ r.turnEvents invoker calls limit a M, fine e)
    (ht : (r.turn invoker limit a).InTime pace limit limit' M) :
    Follows B.field pace (Turn.Shifted B.field d reach) (r.turn invoker limit a M)
      (r'.turn invoker' limit' (a.shift d) M') := by
  have hcount := turn_steps (r := r) (a := a) (M := M) hc limit
  have hlimit : M.steps < limit := Nat.lt_of_lt_of_le hcount ht.first
  have hlimit' : M'.steps < limit' := Nat.lt_of_lt_of_le (Nat.lt_of_succ_le hsteps)
    (Nat.le_trans (Nat.add_le_add_right (Nat.mul_le_mul_left pace.rate hcount) pace.slack) ht.second)
  have hfinal : (r.turn invoker limit a).final M = _ := turn_final hlimit
  simp only [Routine.turnEvents, tick_ok hlimit] at he
  have hticked : Follows B.field pace (fun _ _ => True) (Routine.tick limit M) (Routine.tick limit' M') := by
    rw [tick_ok hlimit, tick_ok hlimit']
    exact ⟨trivial, Machine.Followed.tick hsame hsteps hM⟩
  refine hticked.bind fun _ _ N N' hx _ hN => ?_
  rw [tick_ok hlimit] at hx
  cases hx
  rw [show (a.shift d).position = a.position + d from rfl, hs.fetch _ ha.position]
  cases hi : r.layout.fetch? a.position with
  | none => exact ⟨by rw [hs.method], hN⟩
  | some i =>
    simp only [hi] at he hfinal
    have hexecute := attempt_follows (execute_follows hN hs.depth hs.returns
      (hadmits i _ hi (he _ List.mem_cons_self)) ha.operands hcalls
      (fun c values resume K hx e h => he e (List.mem_cons_of_mem _ (by rw [hx]; exact h)))
      (ht.mono (by rw [hfinal])))
    refine hexecute.bind fun e e' K K' _ hrelated hK => ?_
    obtain ⟨v, w, rfl, rfl, hsame, hflow, hwithin, ho⟩ | ⟨o, rfl, rfl⟩ := hrelated
    · subst w
      exact follow_follows hs hK ha hi hflow hwithin ho
    · exact (hs.raiseFrom (a := { a with operands := {} }) hK ha.pending 0 a.position o).bind
        fun b b' L L' _ hb hL => ⟨hb, hL⟩

/-! ## All turns -/

/-- **All turns** of an activation of moved code are followed, if the calls that they make are. -/
theorem go_follows (hs : r.Shifted d reach r') (hc : CountsUp invoker.invoke) (hc' : CountsUp invoker'.invoke)
    (hsize : KeepsSize invoker.invoke)
    (hadmits : ∀ a i K, reach a.position → r.layout.fetch? a.position = some i → fine (.step r a i K) → B.Admits i)
    (hcalls : CallsFollow B pace limit limit' fine M.frames.size invoker.invoke invoker'.invoke calls)
    (hsame : M' = M.withSteps M'.steps) (hsteps : M'.steps + 1 ≤ pace.rate * (M.steps + 1) + pace.slack)
    (hM : M.Tidy B.field) (ha : a.Tidy B.field reach) (he : ∀ e ∈ r.goEvents invoker calls limit a M, fine e)
    (ht : (r.go invoker limit a).InTime pace limit limit' M) :
    Follows B.field pace (Agreed B.field) (r.go invoker limit a M) (r'.go invoker' limit' (a.shift d) M') := by
  induction hn : limit - M.steps using Nat.strong_induction_on generalizing a M M' with
  | _ n ih =>
    rw [goEvents_turn hc] at he
    have hsizeTurn := turn_size (r := r) (a := a) (M := M) hsize limit
    have hgoFinal : (r.go invoker limit a).final M = _ := go_final hc
    have htime : (r.turn invoker limit a).InTime pace limit limit' M := ht.mono (by
      rw [hgoFinal]
      unfold Exec.final
      cases r.turn invoker limit a M with
      | ok turn N =>
        cases turn with
        | finish value => exact Nat.le_refl _
        | resume a' => exact go_steps hc hsize
      | error t N => exact Nat.le_refl _)
    have hturn := turn_follows hs hc hsame hsteps hM ha (hadmits a · · ha.position) hcalls
      (fun e h => he e (List.mem_append_left _ h)) htime
    rw [go_turn hc, go_turn hc']
    unfold Exec.final at hsizeTurn
    cases hx : r.turn invoker limit a M with
    | error t N =>
      rw [hx] at hturn
      cases hy : r'.turn invoker' limit' (a.shift d) M' with
      | ok turn' N' => rw [hy] at hturn; exact hturn.elim
      | error t' N' => rw [hy] at hturn; exact hturn
    | ok turn N =>
      rw [hx] at hturn hsizeTurn he
      cases hy : r'.turn invoker' limit' (a.shift d) M' with
      | error t' N' => rw [hy] at hturn; exact hturn.elim
      | ok turn' N' =>
        rw [hy] at hturn
        obtain ⟨hshifted, hN⟩ := hturn
        cases turn with
        | finish value =>
          cases turn' with
          | finish value' => exact ⟨hshifted, hN⟩
          | resume b => exact hshifted.elim
        | resume a' =>
          cases turn' with
          | finish value' => exact hshifted.elim
          | resume b =>
            obtain ⟨rfl, ha'⟩ := hshifted
            obtain ⟨hlimit, hcount⟩ := turn_resume hc hx
            refine ih (limit - N.steps) (by omega) ?_ hN.same hN.ahead hN.tidy ha' ?_ ?_ rfl
            · rw [hsizeTurn]
              exact hcalls
            · exact fun e h => he e (List.mem_append_right _ h)
            · exact ht.mono (by rw [hgoFinal, hx])

end Single

end DisposalWeaver
