/-
The handlers that an exit runs.

An exit is a `leave` that is executed or an exception that is raised, at some position of a routine. Its handlers are
produced one at a time: each `endfinally` searches the table of regions again, from the next place on. The theorem here is
that they are one selection of the table, in its order: of a `leave`, the `finally` regions that protect the position and
not the target; of an exception, the `finally` regions that protect the position, up to the first `catch` region that
protects it and whose type the exception is an instance of (`Purpose.handlers`). As long as handlers run to their
`endfinally` without an exit of their own, they are entered in that order, each once, and after the last of them control is
at the target, or in the `catch`, or the exception leaves the method (`Routine.exit_in_order`).

A handler may do anything else on the way, calls included (`Routine.Calm`). What the search for a `catch` asks of the heap
stays as it was when the exception was raised, because objects stay on the heap and keep their types (`Machine.Retains`).
-/
import DisposalWeaver.Proofs.OnwardCode
import DisposalWeaver.Proofs.RisingFields

namespace DisposalWeaver

/-! ## Objects stay -/

/-- every object is still there, of the same type -/
def Machine.Retains (M N : Machine) : Prop :=
  ∀ o object, M.object? o = some object → ∃ object', N.object? o = some object' ∧ object'.type = object.type

section Retaining

variable {M K N : Machine}

theorem Machine.retains_of_heap (h : N.heap = M.heap) : M.Retains N := fun o object ho =>
  ⟨object, by rw [Machine.object?, h]; exact ho, rfl⟩

theorem Machine.retains_refl (M : Machine) : M.Retains M := Machine.retains_of_heap rfl

theorem Machine.Retains.trans (h : M.Retains K) (h' : K.Retains N) : M.Retains N := by
  intro o object ho
  obtain ⟨object1, ho1, htype1⟩ := h o object ho
  obtain ⟨object2, ho2, htype2⟩ := h' o object1 ho1
  exact ⟨object2, ho2, htype2.trans htype1⟩

/-- objects that are changed in a way that leaves their types alone -/
theorem Machine.retains_modify (M : Machine) (k : Nat) {f : Object → Object} (hf : ∀ object, (f object).type = object.type) :
    M.Retains { M with heap := M.heap.modify k f } := by
  intro o object ho
  have hmodified : ({ M with heap := M.heap.modify k f } : Machine).object? o =
      some (if k = o.index then f object else object) := by
    rw [Machine.object?] at ho ⊢
    rw [Array.getElem?_modify, ho]
    split <;> rfl
  refine ⟨_, hmodified, ?_⟩
  split
  · exact hf object
  · rfl

theorem Machine.retains_apply (M : Machine) (c : Change) : M.Retains (M.apply c) := by
  cases c with
  | store place v =>
    cases place with
    | field o f => exact M.retains_modify o.index fun _ => rfl
    | _ => exact Machine.retains_of_heap rfl
  | allocate t => exact fun o object ho => ⟨object, object?_allocate ho t, rfl⟩
  | mark o mark => exact M.retains_modify o.index fun object => by cases mark <;> rfl
  | record values => exact Machine.retains_of_heap rfl

theorem deepDrift_retains : DeepDrift (fun _ => Path Machine.Retains) fun _ => True :=
  deepDrift_path Machine.retains_refl Machine.Retains.trans (fun _ _ => Machine.retains_of_heap rfl)
    (fun _ => Machine.retains_of_heap rfl) fun M c _ => M.retains_apply c

/-- **A turn keeps every object**, whatever it calls. -/
theorem Routine.turn_retains (p : Program) (nesting limit : Nat) (r : Routine) (a : Activation) (M : Machine) :
    M.Retains ((r.turn (p.invoker (p.invoke nesting)) limit a).final M) := by
  have hcalls : CallsDrift (Path Machine.Retains) (fun _ => True) M.frames.size (p.invoker (p.invoke nesting)).invoke
      (p.trace nesting) := fun c arguments N _ he =>
    trace_drifts deepDrift_retains (fun _ _ _ K _ _ => ⟨K.retains_refl, K.retains_refl⟩) nesting c arguments N he
  exact (turn_drifts (deepDrift_retains.drift 0) (Nat.zero_le _) hcalls (fun _ N _ => ⟨N.retains_refl, N.retains_refl⟩)
    limit fun e _ => e.allowed_of_all fun _ => trivial).ends Machine.Retains.trans

/-- whether an object is an instance of a type does not change -/
theorem Machine.Retains.isInstance (h : M.Retains N) (g : TypeGraph) {o : ObjectRef} (ho : (M.object? o).isSome) (t : TypeId) :
    N.isInstance g o t = M.isInstance g o t := by
  obtain ⟨object, ho⟩ := Option.isSome_iff_exists.1 ho
  obtain ⟨object', ho', htype⟩ := h o object ho
  rw [Machine.isInstance, Machine.isInstance, ho, ho']
  simp only [htype]

end Retaining

/-! ## The selection -/

namespace Purpose

/-- does the region's `finally` handler run on the way? -/
def runs : Purpose → Region → Bool
  | .leave origin target, region => region.kind == .finally && region.protects origin && !region.protects target
  | .raise origin _, region => region.kind == .finally && region.protects origin

/-- does the region catch what is on its way? -/
def stops (g : TypeGraph) (machine : Machine) : Purpose → Region → Bool
  | .leave _ _, _ => false
  | .raise origin exception, region => region.protects origin &&
    match region.kind with
    | .finally => false
    | .catch t => machine.isInstance g exception t

/-- the regions whose handlers run, each with its place in the table: those before the first that catches -/
def handlers (g : TypeGraph) (machine : Machine) (purpose : Purpose) (regions : List Region) : List (Region × Nat) :=
  (regions.zipIdx.takeWhile fun e => !purpose.stops g machine e.1).filter fun e => purpose.runs e.1

/-- the exception, if that is what is on its way, is an object -/
def Present (machine : Machine) : Purpose → Prop
  | .leave _ _ => True
  | .raise _ exception => (machine.object? exception).isSome

end Purpose

/-- what a turn leads to: the handler of the region is entered with an empty stack -/
def Turn.Enters (purpose : Purpose) (pending : List Pending) (e : Region × Nat) :
    EStateM.Result Trap Machine Turn → Prop
  | .ok (.resume a) _ => a.position = e.1.handlerStart ∧ a.operands.stack = [] ∧
    a.pending = { region := e.2, purpose } :: pending
  | _ => False

/-- what a turn leads to: the exit is over -/
def Turn.Concludes (g : TypeGraph) (machine : Machine) (regions : List Region) (pending : List Pending) :
    Purpose → EStateM.Result Trap Machine Turn → Prop
  | .leave _ target, .ok (.resume a) _ => a.position = target ∧ a.operands.stack = [] ∧ a.pending = pending
  | .raise origin exception, .ok (.resume a) _ => ∃ region,
    regions.find? ((Purpose.raise origin exception).stops g machine) = some region ∧
      a.position = region.handlerStart ∧ a.operands.stack = [.object exception] ∧ a.pending = pending
  | .raise origin exception, .error t _ =>
    regions.find? ((Purpose.raise origin exception).stops g machine) = none ∧ t = .exception exception
  | _, _ => False

/-- how the method ends, by what a turn leads to -/
def Turn.rest (invoker : Invoker) (r : Routine) (limit : Nat) :
    EStateM.Result Trap Machine Turn → EStateM.Result Trap Machine (Option Value)
  | .ok (.finish value) M => .ok value M
  | .ok (.resume a) M => r.go invoker limit a M
  | .error t M => .error t M

/-! ## Exits and handlers that run -/

namespace Routine

section

variable (invoker : Invoker) (r : Routine) (limit : Nat)

/-- the next turn of an activation makes an exit; the machine is the one on which the table is searched -/
inductive Exits (a : Activation) (M : Machine) : Purpose → Machine → Prop where
  | leave {t : Handle} {target : Nat} (limited : M.steps < limit) (fetched : r.layout.fetch? a.position = some (.leave t))
      (placed : r.layout.position? t = some target) :
      Exits a M (.leave a.position target) (M.withSteps (M.steps + 1))
  | raise {i : Instruction} {exception : ObjectRef} {N : Machine} (limited : M.steps < limit)
      (fetched : r.layout.fetch? a.position = some i)
      (raised : r.execute invoker i a.operands (M.withSteps (M.steps + 1)) = .error (.exception exception) N) :
      Exits a M (.raise a.position exception) N

/-- turns that neither execute a `leave` or an `endfinally` nor raise an exception -/
inductive Calm : Activation → Machine → Activation → Machine → Prop where
  | none (a : Activation) (M : Machine) : Calm a M a M
  | turn {a a' b : Activation} {i : Instruction} {e : Flow × Operands} {M K N N' : Machine} (limited : M.steps < limit)
      (fetched : r.layout.fetch? a.position = some i) (stays : ∀ t, i ≠ .leave t) (goes : i ≠ .endfinally)
      (executed : r.execute invoker i a.operands (M.withSteps (M.steps + 1)) = .ok e K)
      (resumed : r.turn invoker limit a M = .ok (.resume a') N) (rest : Calm a' N b N') : Calm a M b N'

/-- from what one turn led to, the given number of handlers run to their `endfinally`, one after another; it is told what
the last of these leads to -/
inductive Serves : Nat → EStateM.Result Trap Machine Turn → EStateM.Result Trap Machine Turn → Prop where
  | none (y : EStateM.Result Trap Machine Turn) : Serves 0 y y
  | one {n : Nat} {a b : Activation} {M N : Machine} {y : EStateM.Result Trap Machine Turn} (calm : Calm invoker r limit a M b N)
      (limited : N.steps < limit) (ends : r.layout.fetch? b.position = some .endfinally)
      (rest : Serves n (r.turn invoker limit b N) y) : Serves (n + 1) (.ok (.resume a) M) y

end

/-! ## One search -/

section Picking

variable {runs stops : Region → Bool}

/-- the regions that run before the first that stops, with their places, if the place of the very first is `first` -/
def picked (runs stops : Region → Bool) (first : Nat) (regions : List Region) : List (Region × Nat) :=
  ((regions.zipIdx first).takeWhile fun e => !stops e.1).filter fun e => runs e.1

theorem picked_stop (first : Nat) {region : Region} (h : stops region = true) (rest : List Region) :
    picked runs stops first (region :: rest) = [] := by
  simp [picked, h]

theorem picked_run (first : Nat) {region : Region} (h : stops region = false) (hr : runs region = true)
    (rest : List Region) :
    picked runs stops first (region :: rest) = (region, first) :: picked runs stops (first + 1) rest := by
  simp [picked, h, hr]

theorem picked_skip (first : Nat) {region : Region} (h : stops region = false) (hr : runs region = false)
    (rest : List Region) : picked runs stops first (region :: rest) = picked runs stops (first + 1) rest := by
  simp [picked, h, hr]

/-- the search finds the first of the regions that run, and if there is none, the first that stops -/
theorem findFrom_picked (first : Nat) (regions : List Region) :
    findFrom (fun region => runs region || stops region) first regions =
      (picked runs stops first regions).head?.or ((regions.zipIdx first).find? fun e => stops e.1) := by
  induction regions generalizing first with
  | nil => rfl
  | cons region rest ih =>
    unfold findFrom
    cases hstop : stops region with
    | true => simp [picked_stop first hstop, hstop]
    | false =>
      cases hrun : runs region with
      | true => simp [picked_run first hstop hrun]
      | false =>
        rw [picked_skip first hstop hrun, List.zipIdx_cons, List.find?_cons_of_neg (by simp [hstop])]
        simpa using ih (first + 1)

/-- behind the first of the regions that run, the others run, and the same one stops -/
theorem picked_drop {first : Nat} {regions : List Region} {e : Region × Nat} {others : List (Region × Nat)}
    (h : picked runs stops first regions = e :: others) :
    first ≤ e.2 ∧ picked runs stops (e.2 + 1) (regions.drop (e.2 + 1 - first)) = others ∧
      (regions.drop (e.2 + 1 - first)).find? stops = regions.find? stops := by
  induction regions generalizing first with
  | nil => cases h
  | cons region rest ih =>
    cases hstop : stops region with
    | true =>
      rw [picked_stop first hstop] at h
      cases h
    | false =>
      have hfind : (region :: rest).find? stops = rest.find? stops := List.find?_cons_of_neg (by simp [hstop])
      cases hrun : runs region with
      | true =>
        rw [picked_run first hstop hrun] at h
        cases h
        rw [hfind, show first + 1 - first = 0 + 1 by omega, List.drop_succ_cons, List.drop_zero]
        exact ⟨Nat.le_refl _, rfl, rfl⟩
      | false =>
        rw [picked_skip first hstop hrun] at h
        obtain ⟨hle, hothers, hstops⟩ := ih h
        rw [hfind, show e.2 + 1 - first = (e.2 + 1 - (first + 1)) + 1 by omega, List.drop_succ_cons]
        exact ⟨by omega, hothers, hstops⟩

end Picking

/-- from place `first` of the table on, what is left of the handlers of an exit is as given, and what catches is still
ahead -/
structure Ahead (g : TypeGraph) (M : Machine) (purpose : Purpose) (regions : List Region) (first : Nat)
    (left : List (Region × Nat)) : Prop where
  handlers : picked purpose.runs (purpose.stops g M) first (regions.drop first) = left
  catcher : (regions.drop first).find? (purpose.stops g M) = regions.find? (purpose.stops g M)

section Search

variable {g : TypeGraph} {M N : Machine} {r : Routine} {purpose : Purpose} {first : Nat} {e : Region × Nat}
  {left : List (Region × Nat)}

/-- behind the next handler, the others are left -/
theorem Ahead.next (h : Ahead g M purpose r.regions first (e :: left)) : Ahead g M purpose r.regions (e.2 + 1) left := by
  obtain ⟨hle, hothers, hstops⟩ := picked_drop h.handlers
  rw [List.drop_drop, show first + (e.2 + 1 - first) = e.2 + 1 by omega] at hothers hstops
  exact ⟨hothers, hstops.trans h.catcher⟩

/-- goes on with an exit, looking at the table from place `first` on -/
def goOn (g : TypeGraph) (r : Routine) (first : Nat) (a : Activation) : Purpose → Exec Turn
  | .leave origin target => return .resume (r.leaveFrom first origin target a)
  | .raise origin exception => return .resume (← r.raiseFrom g first origin exception a)

theorem goOn_still (a : Activation) : (goOn g r first a purpose).final N = N := by
  cases purpose with
  | leave origin target => rfl
  | raise origin exception => exact final_bind_still (raiseFrom_still _ _ _) fun _ => rfl

/-- what catches is tested on a later machine, with the same answer -/
theorem stops_later (hN : M.Retains N) (hpresent : purpose.Present M) : purpose.stops g N = purpose.stops g M := by
  cases purpose with
  | leave origin target => rfl
  | raise origin exception =>
    funext region
    simp only [Purpose.stops, hN.isInstance g hpresent]

theorem runs_finally {region : Region} (h : purpose.runs region = true) : region.kind = .finally := by
  cases purpose <;> simp only [Purpose.runs, Bool.and_eq_true, beq_iff_eq] at h <;> tauto

theorem find?_zipIdx (wanted : Region → Bool) (regions : List Region) (first : Nat) :
    ((regions.zipIdx first).find? fun e => wanted e.1).map Prod.fst = regions.find? wanted := by
  induction regions generalizing first with
  | nil => rfl
  | cons region rest ih =>
    rw [List.zipIdx_cons, List.find?_cons, List.find?_cons]
    cases wanted region with
    | true => rfl
    | false => exact ih (first + 1)

/-- the region that an exit is handed to, of those from place `first` on -/
theorem Ahead.find (h : Ahead g M purpose r.regions first left) {wanted : Region → Bool}
    (hw : ∀ region, wanted region = (purpose.runs region || purpose.stops g M region)) :
    findRegion r.regions first wanted =
      left.head?.or (((r.regions.drop first).zipIdx first).find? fun e => purpose.stops g M e.1) := by
  rw [findRegion, funext hw, findFrom_picked, h.handlers]

/-- **One search**, of a `leave`: it enters the next handler that is left, or goes to the target. -/
theorem Ahead.leave {origin target : Nat} (h : Ahead g M (.leave origin target) r.regions first left) (a : Activation) :
    (∀ e, left.head? = some e → Turn.Enters (.leave origin target) a.pending e (goOn g r first a (.leave origin target) N)) ∧
    (left = [] →
      Turn.Concludes g M r.regions a.pending (.leave origin target) (goOn g r first a (.leave origin target) N)) := by
  have hwanted : ∀ region, isLeft origin target region =
      ((Purpose.leave origin target).runs region || (Purpose.leave origin target).stops g M region) := fun region => by
    simp [Purpose.runs, Purpose.stops, isLeft]
  have hfind := h.find hwanted
  have hnone : ∀ l : List (Region × Nat), (l.find? fun e => (Purpose.leave origin target).stops g M e.1) = none := fun l =>
    List.find?_eq_none.2 fun _ _ => Bool.false_ne_true
  rw [hnone, Option.or_none] at hfind
  refine ⟨fun e he => ?_, fun hleft => ?_⟩
  · rw [he] at hfind
    simp only [goOn, leaveFrom, hfind]
    exact ⟨rfl, rfl, rfl⟩
  · rw [hleft] at hfind
    simp only [goOn, leaveFrom, hfind, List.head?_nil]
    exact ⟨rfl, rfl, rfl⟩

/-- **One search**, of an exception: it enters the next handler that is left, or the first `catch` for it, or leaves the
method. -/
theorem Ahead.raise {origin : Nat} {exception : ObjectRef} (h : Ahead g M (.raise origin exception) r.regions first left)
    (hN : M.Retains N) (hpresent : (Purpose.raise origin exception).Present M) (a : Activation) :
    (∀ e, left.head? = some e →
      Turn.Enters (.raise origin exception) a.pending e (goOn g r first a (.raise origin exception) N)) ∧
    (left = [] →
      Turn.Concludes g M r.regions a.pending (.raise origin exception) (goOn g r first a (.raise origin exception) N)) := by
  have hwanted : ∀ region, handles g N origin exception region =
      ((Purpose.raise origin exception).runs region || (Purpose.raise origin exception).stops g M region) :=
    fun region => by
      rw [← stops_later hN hpresent]
      simp only [handles, Purpose.runs, Purpose.stops]
      cases region.kind <;> simp
  have hfind := h.find hwanted
  refine ⟨fun e he => ?_, fun hleft => ?_⟩
  · have hrun : e.1.kind = .finally := by
      have hmem : e ∈ left := List.mem_of_head? he
      rw [← h.handlers] at hmem
      have hruns : (Purpose.raise origin exception).runs e.1 = true := (List.mem_filter.1 hmem).2
      exact runs_finally hruns
    rw [he] at hfind
    simp only [goOn, raiseFrom, bind, EStateM.bind, get_run, hfind, hrun, Option.some_or]
    exact ⟨rfl, rfl, rfl⟩
  · have hcatcher := (find?_zipIdx _ _ first).trans h.catcher
    rw [hleft, List.head?_nil, Option.none_or] at hfind
    cases hc : ((r.regions.drop first).zipIdx first).find?
        (fun e => (Purpose.raise origin exception).stops g M e.1) with
    | none =>
      rw [hc] at hfind hcatcher
      simp only [goOn, raiseFrom, bind, EStateM.bind, get_run, hfind]
      exact ⟨hcatcher.symm, rfl⟩
    | some e =>
      rw [hc] at hfind hcatcher
      have hstops := List.find?_some hc
      simp only [goOn, raiseFrom, bind, EStateM.bind, get_run, hfind]
      cases hkind : e.1.kind with
      | «finally» => simp [Purpose.stops, hkind] at hstops
      | «catch» t => exact ⟨e.1, hcatcher.symm, rfl, rfl, rfl⟩

/-- **One search**, of any exit. -/
theorem Ahead.search (h : Ahead g M purpose r.regions first left) (hN : M.Retains N) (hpresent : purpose.Present M)
    (a : Activation) :
    (∀ e, left.head? = some e → Turn.Enters purpose a.pending e (goOn g r first a purpose N)) ∧
    (left = [] → Turn.Concludes g M r.regions a.pending purpose (goOn g r first a purpose N)) := by
  cases purpose with
  | leave origin target => exact h.leave a
  | raise origin exception => exact h.raise hN hpresent a

end Search

/-! ## One handler after another -/

section Order

variable {p : Program} {nesting limit : Nat} {r : Routine} {purpose : Purpose} {a b : Activation} {M N K : Machine}

/-- only a `leave` leaves protected regions -/
theorem request_leave {g : TypeGraph} {i : Instruction} {operands operands' : Operands} {t : Handle}
    (h : r.request g i operands M = .ok (.done (.leave t) operands') N) : i = .leave t := by
  have htarget : i.target? = some t := request_of g r i operands M _ N h
  cases i with
  | leave t' => cases htarget; rfl
  | br t' => cases h
  | brtrue t' | brfalse t' =>
    obtain ⟨stack, constrained⟩ := operands
    cases stack with
    | nil => cases h
    | cons v rest =>
      simp only [request, bind, EStateM.bind, Operands.pop, pure, EStateM.pure] at h
      cases hv : v.isTrue <;> simp [hv] at h
  | _ => cases htarget

/-- an instruction that is executed and is none of the two goes on inside the handler, or returns -/
theorem execute_calm {invoker : Invoker} {i : Instruction} {operands : Operands} {e : Flow × Operands}
    (stays : ∀ t, i ≠ .leave t) (goes : i ≠ .endfinally) (h : r.execute invoker i operands M = .ok e N) :
    (∀ t, e.1 ≠ .leave t) ∧ e.1 ≠ .endFinally := by
  have hof : e.1.Of i := execute_of i operands M e N h
  refine ⟨fun t ht => ?_, fun hends => ?_⟩
  · simp only [execute, bind, EStateM.bind] at h
    cases hrequest : r.request invoker.graph i operands M with
    | error trap K => rw [hrequest] at h; cases h
    | ok request K =>
      rw [hrequest] at h
      cases request with
      | done flow operands' =>
        cases h
        rw [show flow = .leave t from ht] at hrequest
        exact stays t (request_leave hrequest)
      | call c values resume =>
        simp only [resolve, bind, EStateM.bind] at h
        cases hv : invoker.invoke c values K with
        | error trap K' => rw [hv] at h; cases h
        | ok value K' => rw [hv] at h; cases h; cases ht
  · rw [hends] at hof
    exact goes hof

/-- no handler begins or ends in calm turns -/
theorem Calm.pending_eq {invoker : Invoker} (h : Calm invoker r limit a M b N) : b.pending = a.pending := by
  induction h with
  | none a M => rfl
  | @turn a a' b i e M K N N' limited fetched stays goes executed resumed rest ih =>
    obtain ⟨flow, operands⟩ := e
    obtain ⟨hleave, hends⟩ := execute_calm stays goes executed
    rw [ih]
    rw [turn_ok limited fetched executed] at resumed
    cases flow with
    | next => cases resumed; rfl
    | jump t =>
      simp only [follow, bind, EStateM.bind, positionOf] at resumed
      cases hq : r.layout.position? t with
      | none => rw [hq] at resumed; cases resumed
      | some q => rw [hq] at resumed; cases resumed; rfl
    | leave t => exact absurd rfl (hleave t)
    | endFinally => exact absurd rfl hends
    | «return» value => cases resumed

theorem Calm.retains (h : Calm (p.invoker (p.invoke nesting)) r limit a M b N) : M.Retains N := by
  induction h with
  | none a M => exact M.retains_refl
  | @turn a a' b i e M K N N' limited fetched stays goes executed resumed rest ih =>
    have hturn := turn_retains p nesting limit r a M
    unfold Exec.final at hturn
    rw [resumed] at hturn
    exact hturn.trans ih

/-- the machine of an exit keeps the objects, too -/
theorem Exits.turn_eq {invoker : Invoker} (h : Exits invoker r limit a M purpose N) :
    ∃ a', a'.pending = a.pending ∧ r.turn invoker limit a M = goOn invoker.graph r 0 a' purpose N := by
  cases h with
  | @leave t target limited fetched placed =>
    have hexecute : r.execute invoker (.leave t) a.operands (M.withSteps (M.steps + 1)) =
        .ok (.leave t, a.operands) (M.withSteps (M.steps + 1)) := rfl
    refine ⟨a, rfl, ?_⟩
    rw [turn_ok limited fetched hexecute]
    simp only [follow, bind, EStateM.bind, positionOf, placed]
    rfl
  | @raise i exception N limited fetched raised =>
    refine ⟨{ a with operands := {} }, rfl, ?_⟩
    unfold Machine.withSteps at raised
    simp only [turn, bind, EStateM.bind, tick_ok limited, fetched, Exec.attempt, raised, goOn]

/-- the end of a handler goes on with what it was run for, behind its place in the table -/
theorem turn_endfinally {invoker : Invoker} {place : Nat} {pending : List Pending} (limited : M.steps < limit)
    (ends : r.layout.fetch? a.position = some .endfinally) (hp : a.pending = { region := place, purpose } :: pending) :
    r.turn invoker limit a M = goOn invoker.graph r (place + 1) { a with pending } purpose (M.withSteps (M.steps + 1)) := by
  have hexecute : r.execute invoker .endfinally a.operands (M.withSteps (M.steps + 1)) =
      .ok (.endFinally, a.operands) (M.withSteps (M.steps + 1)) := rfl
  rw [turn_ok limited ends hexecute]
  simp only [follow, bind, EStateM.bind, endHandler, hp]
  cases purpose <;> rfl

/-- the handlers that an exit leaves are served in order, from wherever in the table it goes on -/
theorem Serves.in_order {n : Nat} {x y : EStateM.Result Trap Machine Turn} {first : Nat} {left : List (Region × Nat)}
    {pending : List Pending} (hpresent : purpose.Present M)
    (h : Serves (p.invoker (p.invoke nesting)) r limit n x y) (hahead : Ahead p.graph M purpose r.regions first left)
    (ha : a.pending = pending) (hN : M.Retains N) (hx : goOn p.graph r first a purpose N = x) (hn : n ≤ left.length) :
    (∀ e, left[n]? = some e → Turn.Enters purpose pending e y) ∧
      (left.length = n → Turn.Concludes p.graph M r.regions pending purpose y) := by
  induction h generalizing a N first left with
  | none y =>
    obtain ⟨henters, hconcludes⟩ := hahead.search hN hpresent a
    rw [hx, ha] at henters hconcludes
    exact ⟨fun e he => henters e (by rw [List.head?_eq_getElem?]; exact he),
      fun hlength => hconcludes (List.length_eq_zero_iff.1 hlength)⟩
  | @one n b c K K' y calm limited ends rest ih =>
    cases left with
    | nil => exact absurd hn (Nat.not_succ_le_zero n)
    | cons e left =>
      -- the first handler is entered on the machine of the search, and runs to its end
      obtain ⟨-, -, hpending⟩ : Turn.Enters purpose pending e (.ok (.resume b) K) := by
        rw [← hx, ← ha]
        exact (hahead.search hN hpresent a).1 e rfl
      have hK : K = N := by
        have hstill : Exec.final (goOn p.graph r first a purpose) N = N := goOn_still a
        unfold Exec.final at hstill
        rwa [hx] at hstill
      have hK' : M.Retains (K'.withSteps (K'.steps + 1)) :=
        hN.trans (hK ▸ calm.retains.trans (Machine.retains_of_heap rfl))
      have hturn : r.turn (p.invoker (p.invoke nesting)) limit c K' = _ :=
        turn_endfinally limited ends (calm.pending_eq.trans hpending)
      obtain ⟨henters, hconcludes⟩ := ih hahead.next (a := { c with pending }) rfl hK' hturn.symm
        (Nat.le_of_succ_le_succ hn)
      exact ⟨fun e' he' => henters e' he', fun hlength => hconcludes (Nat.succ.inj hlength)⟩

theorem Calm.go_eq (h : Calm (p.invoker (p.invoke nesting)) r limit a M b N) :
    r.go (p.invoker (p.invoke nesting)) limit a M = r.go (p.invoker (p.invoke nesting)) limit b N := by
  induction h with
  | none a M => rfl
  | @turn a a' b i e M K N N' limited fetched stays goes executed resumed rest ih =>
    rw [go_turn (trace_steps p nesting), resumed]
    exact ih

/-- handlers that are served are part of the run -/
theorem Serves.rest_eq {n : Nat} {x y : EStateM.Result Trap Machine Turn}
    (h : Serves (p.invoker (p.invoke nesting)) r limit n x y) :
    Turn.rest (p.invoker (p.invoke nesting)) r limit x = Turn.rest (p.invoker (p.invoke nesting)) r limit y := by
  induction h with
  | none y => rfl
  | @one n b c K K' y calm limited ends rest ih => exact (calm.go_eq.trans (go_turn (trace_steps p nesting))).trans ih

/-- **Each exit runs the right handlers in the right order.** An exit is a `leave` that is executed or an exception that is
raised; its handlers are those of `Purpose.handlers`. After `n` of them have run to their `endfinally`, without an exit of
their own, the next is entered with an empty stack; after all of them, control is at the target, or in the `catch` with
just the exception, or the exception leaves the method. What was pending before the exit stays pending. All of it is part
of the run of the method. -/
theorem exit_in_order (p : Program) (nesting limit : Nat) (r : Routine)
    (hexit : Exits (p.invoker (p.invoke nesting)) r limit a M purpose N) (hpresent : purpose.Present N) {n : Nat}
    {y : EStateM.Result Trap Machine Turn} (hn : n ≤ (purpose.handlers p.graph N r.regions).length)
    (hserved : Serves (p.invoker (p.invoke nesting)) r limit n (r.turn (p.invoker (p.invoke nesting)) limit a M) y) :
    (∀ e, (purpose.handlers p.graph N r.regions)[n]? = some e → Turn.Enters purpose a.pending e y) ∧
      ((purpose.handlers p.graph N r.regions).length = n →
        Turn.Concludes p.graph N r.regions a.pending purpose y) ∧
      r.go (p.invoker (p.invoke nesting)) limit a M = Turn.rest (p.invoker (p.invoke nesting)) r limit y := by
  have hrest := (go_turn (trace_steps p nesting)).trans hserved.rest_eq
  obtain ⟨a', hpending, hturn⟩ := hexit.turn_eq
  rw [hturn] at hserved
  have hahead : Ahead p.graph N purpose r.regions 0 (purpose.handlers p.graph N r.regions) := ⟨rfl, rfl⟩
  obtain ⟨henters, hconcludes⟩ := hserved.in_order hpresent hahead hpending N.retains_refl rfl hn
  exact ⟨henters, hconcludes, hrest⟩

end Order

end Routine

/-! ## An exception that takes two handlers to a `catch` -/

namespace Detour

/-- two unrelated types -/
def graph : TypeGraph :=
  let (_, g) := TypeGraph.empty.addType (.root ⟨"Failure"⟩ TypeFlags.public_)
  (g.addType (.root ⟨"Timeout"⟩ TypeFlags.public_)).2

def program : Program := { graph, rootFinalizer := ⟨0⟩, bodies := [] }

/-- throws its argument; a `catch` of the other type stands between the two `finally` handlers -/
def routine : Routine where
  method := ⟨0⟩
  layout := Layout.ofBody (Body.empty.append [.ldarg 0, .throw, .endfinally, .nop, .endfinally, .pop, .ret])
  regions := [⟨.finally, 0, 2, 2⟩, ⟨.catch ⟨1⟩, 0, 2, 5⟩, ⟨.finally, 0, 2, 3⟩, ⟨.catch ⟨0⟩, 0, 2, 5⟩]
  depth := 0
  returnsValue := false

/-- a machine with one object of the first type -/
def machine : Machine := { heap := #[{ type := ⟨0⟩ }] }

/-- about to throw -/
def throwing : Activation := { position := 1, operands := { stack := [.object ⟨0⟩] } }

abbrev invoker : Invoker := program.invoker (program.invoke 0)

theorem exits : routine.Exits invoker 9 throwing machine (.raise 1 ⟨0⟩) (machine.withSteps 1) :=
  .raise (i := .throw) (by decide) (by decide) rfl

theorem serves : routine.Serves invoker 9 2 (routine.turn invoker 9 throwing machine)
    (routine.turn invoker 9 { position := 4, pending := [⟨2, .raise 1 ⟨0⟩⟩] } (machine.withSteps 3)) :=
  .one (a := { position := 2, pending := [⟨0, .raise 1 ⟨0⟩⟩] }) (M := machine.withSteps 1) (.none _ _) (by decide) (by decide)
    (.one (a := { position := 3, pending := [⟨2, .raise 1 ⟨0⟩⟩] }) (M := machine.withSteps 2)
      (.turn (i := .nop) (by decide) (by decide) nofun nofun rfl rfl (.none _ _)) (by decide) (by decide) (.none _))

/-- both handlers have run, past the `catch` of the other type, and the exception is caught -/
theorem caught_behind_handlers :
    (Purpose.raise 1 ⟨0⟩).handlers program.graph (machine.withSteps 1) routine.regions =
      [(⟨.finally, 0, 2, 2⟩, 0), (⟨.finally, 0, 2, 3⟩, 2)] ∧
    Turn.Concludes program.graph (machine.withSteps 1) routine.regions [] (.raise 1 ⟨0⟩)
      (routine.turn invoker 9 { position := 4, pending := [⟨2, .raise 1 ⟨0⟩⟩] } (machine.withSteps 3)) :=
  ⟨by decide, (Routine.exit_in_order program 0 9 routine exits rfl (n := 2) (by decide) serves).2.1 (by decide)⟩

end Detour

end DisposalWeaver
