/-
Code that carries out work of the host.

What a piece of code is meant to do can be told as work of the host: exchanges, stores and calls, one after another. Code
carries out some work from an activation on if a run from there ends as the work does, on the same machine but for the
count of instructions (`Workplace.CarriesOut`). A single instruction that does some work and goes on as told
(`Workplace.Does`) carries out what comes first, and silent instructions carry out nothing: so code is read against work
from the last instruction to the first.
-/
import DisposalWeaver.Machine.PlatformNatives
import DisposalWeaver.Proofs.Disposal
import DisposalWeaver.Proofs.FollowedCalls

namespace DisposalWeaver

/-! ## Work -/

namespace Host

variable {α β γ : Type} {invoke : MethodId → List Value → Exec (Option Value)}

theorem bind_assoc (x : Host α) (f : α → Host β) (h : β → Host γ) :
    (x >>= f) >>= h = x >>= fun a => f a >>= h := by
  change (x.bind f).bind h = x.bind fun a => (f a).bind h
  induction x with
  | done | fail => rfl
  | look next ih => exact congrArg look (funext ih)
  | work c next ih => exact congrArg (work c) ih
  | call m values next ih => exact congrArg (call m values) (funext ih)

theorem run_bind (x : Host α) (f : α → Host β) :
    (x >>= f).run invoke = x.run invoke >>= fun a => (f a).run invoke := by
  change (x.bind f).run invoke = _
  funext M
  induction x generalizing M with
  | done | fail => rfl
  | look next ih => exact ih _ M
  | work c next ih => exact ih _
  | call m values next ih =>
    simp only [Host.bind, run, Bind.bind, EStateM.bind]
    cases invoke m values M with
    | ok value N => exact ih (.ok value) N
    | error t N => exact ih (.error t) N

/-- what is done for its effect only -/
theorem discard_bind (x : Host α) (f : Unit → Host β) : discard x >>= f = x >>= fun _ => f () :=
  bind_assoc x _ f

theorem bind_unit (x : Host Unit) : (x >>= fun _ => pure ()) = x := by
  change (x.bind fun _ => done ()) = x
  induction x with
  | done | fail => rfl
  | look next ih => exact congrArg look (funext ih)
  | work c next ih => exact congrArg (work c) ih
  | call m values next ih => exact congrArg (call m values) (funext ih)

/-! ### Single requests -/

theorem exposed_localAt? (M : Machine) (depth : Nat) (index : UInt16) :
    M.exposed.localAt? depth index = M.localAt? depth index := by
  unfold Machine.localAt? Machine.exposed
  rw [Array.getElem?_map]
  cases M.frames[depth]? <;> rfl

theorem exposed_missing? (M : Machine) (place : Address) : M.exposed.missing? place = M.missing? place := by
  cases place with
  | «variable» depth index => simp only [Machine.missing?, exposed_localAt?]
  | _ => rfl

theorem exposed_content (g : TypeGraph) (M : Machine) (place : Address) :
    M.exposed.content g place = M.content g place := by
  cases place with
  | «variable» depth index => simp only [Machine.content, exposed_localAt?]
  | _ => rfl

theorem ask_run (question : Machine → Except Trap α) (M : Machine) :
    (ask question).run invoke M = Exec.ofExcept (question M.exposed) M := by
  change (ofExcept (question M.exposed)).run invoke M = _
  cases question M.exposed <;> rfl

/-- checking a place comes to the same for host and code -/
theorem reach_run (place : Address) : (reach place).run invoke = Exec.reach place := by
  funext M
  rw [reach, ask_run]
  simp only [exposed_missing?, Exec.reach, Bind.bind, EStateM.bind, get_run]
  cases M.missing? place <;> rfl

theorem store_run (place : Address) (v : Value) : (store place v).run invoke = Exec.store place v := by
  rw [store, run_bind, reach_run]
  rfl

theorem swap_run (g : TypeGraph) (place : Address) (v : Value) : (swap g place v).run invoke = (do
    let previous ← Exec.load g place
    Exec.change (.store place v)
    return previous : Exec Value) := by
  funext M
  simp only [swap, run_bind, reach_run]
  simp only [Exec.load, Bind.bind, EStateM.bind]
  cases Exec.reach place M with
  | error t N => rfl
  | ok u N =>
    simp only [ask_run, exposed_content]
    rfl

theorem mark_run (o : ObjectRef) (mark : Mark) : (Host.mark o mark).run invoke = (do
    let _ ← Exec.object o
    Exec.change (.mark o mark) : Exec Unit) := by
  have hobject : (object o).run invoke = Exec.object o := by
    funext M
    have hexposed : M.exposed.object? o = M.object? o := rfl
    rw [object, ask_run]
    simp only [hexposed, Exec.object, Bind.bind, EStateM.bind, get_run]
    cases M.object? o <;> rfl
  rw [Host.mark, run_bind, hobject]
  rfl

theorem callVirtual_run (g : TypeGraph) (m : MethodId) (values : List Value) (M : Machine) :
    (callVirtual g m values).run invoke M =
      (do invoke (← Exec.ofExcept (M.implementation g m values)) values : Exec (Option Value)) M := by
  have hexposed : M.exposed.implementation g m values = M.implementation g m values := rfl
  rw [callVirtual, run_bind]
  simp only [Bind.bind, EStateM.bind, ask_run, hexposed]
  cases M.implementation g m values with
  | error t => rfl
  | ok found =>
    change (Host.invoke found values).run invoke M = invoke found values M
    simp only [Host.invoke, run]
    cases invoke found values M <;> rfl

/-- catching an exception comes to the same for host and code -/
theorem attempt_run (m : MethodId) (values : List Value) :
    (attempt m values).run invoke = Exec.attempt (invoke m values) := by
  funext M
  simp only [attempt, run, Exec.attempt]
  cases invoke m values M with
  | ok value N => rfl
  | error t N => cases t <;> rfl

end Host

section Work

variable {α : Type} {p : Program} {nesting : Nat} {M M' : Machine} {work : Host α}

/-- work leaves the frames as they are, but for the values of locals -/
theorem work_outline (p : Program) (nesting : Nat) (work : Host α) (M : Machine) :
    M.Outlined M.frames.size ((work.run (p.invoke nesting)).final M) :=
  host_drifts (drift_outline _) (invoke_size p _)
    ((trace_drifts deepDrift_outline (fun _ _ _ _ _ _ _ _ => rfl) nesting).within deepDrift_outline (Nat.le_refl _)) work
    fun e _ => e.allowed_of_all fun _ => trivial

/-- work does not notice the count of instructions -/
theorem work_counts (h : M.Followed (fun _ => True) (.ahead 0) M')
    (hlimit : ((work.run (p.invoke nesting)).final M).steps ≤ p.stepLimit) :
    Follows (fun _ => True) (.ahead 0) Eq (work.run (p.invoke nesting) M) (work.run (p.invoke nesting) M') := by
  have halike : work.Alike (fun _ => True) (fun _ => True) (fun _ => True) work := alike_all (fun _ => trivial) work
  have hcalls : ∀ c, True → (Accord.all p.graph).method c ∧ CallsFollow (Accord.all p.graph) (.ahead 0) p.stepLimit
      p.stepLimit (fun _ => True) M.frames.size (p.invoke nesting) (p.invoke nesting) (p.trace nesting) :=
    fun c _ => ⟨trivial, calls_count p p.stepLimit 0 nesting _⟩
  exact (host_follows (A := Accord.all p.graph) (trace_steps p nesting) (invoke_size p nesting) halike hcalls h
    (fun _ _ => trivial) ⟨hlimit, by simpa [Pace.ahead] using hlimit⟩).imp fun _ _ h => h.1.symm

/-- what answers nothing is followed by work that is made to answer so -/
theorem Follows.answering {x : EStateM.Result Trap Machine (Option Value)} {y : Exec Unit} {pace : Pace}
    {field : FieldId → Prop} (h : Follows field pace (fun v _ => v = none) x (y M')) :
    Follows field pace (fun v w => w = v) x ((do y; return none : Exec (Option Value)) M') := by
  simp only [Bind.bind, EStateM.bind]
  cases x with
  | ok v N =>
    cases hy : y M' with
    | ok u N' => rw [hy] at h; exact ⟨h.1.symm, h.2⟩
    | error t N' => rw [hy] at h; exact h.elim
  | error t N =>
    cases hy : y M' with
    | ok u N' => rw [hy] at h; exact h.elim
    | error t' N' => rw [hy] at h; exact h

/-- a count may run further ahead -/
theorem Machine.Followed.later (h : M.Followed (fun _ => True) (.ahead 0) M') {steps : Nat} (hsteps : M.steps ≤ steps) :
    (M.withSteps steps).Followed (fun _ => True) (.ahead 0) M' := by
  refine ⟨h.same, ?_, tidy_all _⟩
  have hbehind := h.steps
  simp only [Pace.ahead, Machine.withSteps_steps] at hbehind ⊢
  omega

end Work

/-! ## Places where code works -/

/-- the frame at the given depth has these arguments and so many locals, one of which may be known -/
structure Machine.Framed (depth : Nat) (arguments : List Value) (count : Nat) (known : Option (UInt16 × Value))
    (M : Machine) : Prop where
  outline : M.frames[depth]?.map Frame.outline = some (arguments, count)
  known : ∀ e, known = some e → M.localAt? depth e.1 = some e.2

namespace Machine.Framed

variable {depth count : Nat} {arguments : List Value} {known : Option (UInt16 × Value)} {M N : Machine}

theorem given (h : M.Framed depth arguments count known) : M.Given depth arguments := by
  obtain ⟨frame, hframe, houtline⟩ := Option.map_eq_some_iff.1 h.outline
  simp only [Frame.outline, Prod.mk.injEq] at houtline
  rw [Machine.Given, hframe, Option.map_some, houtline.1]

theorem withSteps (h : M.Framed depth arguments count known) (steps : Nat) :
    (M.withSteps steps).Framed depth arguments count known := ⟨h.outline, h.known⟩

theorem forget (h : M.Framed depth arguments count known) : M.Framed depth arguments count none :=
  ⟨h.outline, fun _ he => by cases he⟩

theorem room (h : M.Framed depth arguments count known) : depth < M.frames.size := by
  obtain ⟨frame, hframe, -⟩ := Option.map_eq_some_iff.1 h.outline
  exact (Array.getElem?_eq_some_iff.1 hframe).1

/-- what leaves the frames as they are does so with this one -/
theorem outlined (h : M.Framed depth arguments count known) (hN : M.Outlined M.frames.size N) :
    N.Framed depth arguments count none :=
  ⟨(hN depth h.room).trans h.outline, fun _ he => by cases he⟩

/-- a local that the frame has is there -/
theorem local_there (h : M.Framed depth arguments count known) {slot : UInt16} (hslot : slot.toNat < count) :
    (M.localAt? depth slot).isSome = true := by
  obtain ⟨frame, hframe, houtline⟩ := Option.map_eq_some_iff.1 h.outline
  simp only [Frame.outline, Prod.mk.injEq] at houtline
  rw [Machine.localAt?, hframe, Option.bind_some, Array.getElem?_eq_getElem (houtline.2 ▸ hslot)]
  rfl

/-- what was just stored in a local is known -/
theorem stored (h : M.Framed depth arguments count known) {slot : UInt16} (hslot : slot.toNat < count) (v : Value) :
    (M.write v (.variable depth slot)).Framed depth arguments count (some (slot, v)) := by
  obtain ⟨frame, hframe, houtline⟩ := Option.map_eq_some_iff.1 h.outline
  have hwritten : (M.write v (.variable depth slot)).frames[depth]? =
      some { frame with locals := frame.locals.setIfInBounds slot.toNat v } := by
    simp only [Machine.write, Array.getElem?_modify, ↓reduceIte, hframe, Option.map_some]
  simp only [Frame.outline, Prod.mk.injEq] at houtline
  refine ⟨?_, fun e he => ?_⟩
  · rw [hwritten, Option.map_some, Frame.outline, Array.size_setIfInBounds, houtline.1, houtline.2]
  · cases he
    rw [Machine.localAt?, hwritten, Option.bind_some, Array.getElem?_setIfInBounds_self_of_lt (houtline.2 ▸ hslot)]

end Machine.Framed

/-- a routine with its frame, and the program that it calls methods of -/
structure Workplace where
  program : Program
  /-- calls of the routine leave room for so many calls inside each other -/
  nesting : Nat
  routine : Routine
  arguments : List Value
  /-- number of locals -/
  count : Nat

namespace Workplace

variable (s : Workplace) {α : Type} {known known' : Option (UInt16 × Value)} {a b : Activation} {k : Nat}
  {stack : List Value} {pending : List Pending} {work : Host Unit} {M N : Machine}

/-- how the routine calls methods -/
def invoke : MethodId → List Value → Exec (Option Value) := s.program.invoke (s.nesting + 1)

/-- the turns of an activation of the routine -/
def go (a : Activation) : Exec (Option Value) := s.routine.go (s.program.invoker s.invoke) s.program.stepLimit a

/-- the machine has the frame of the routine -/
def Ready (known : Option (UInt16 × Value)) (M : Machine) : Prop :=
  M.Framed s.routine.depth s.arguments s.count known

/-- from the activation on, the code does the work and returns -/
def CarriesOut (known : Option (UInt16 × Value)) (a : Activation) (work : Host Unit) : Prop :=
  ∀ M M', s.Ready known M → M.Followed (fun _ => True) (.ahead 0) M' →
    ((s.go a).final M).steps ≤ s.program.stepLimit →
    Follows (fun _ => True) (.ahead 0) (fun v _ => v = none) (s.go a M) (work.run s.invoke M')

/-- the instruction at the activation does some work and goes on as told -/
def Does (known : Option (UInt16 × Value)) (a : Activation) (work : Host α) (next : α → Activation) : Prop :=
  ∀ M, s.Ready known M → M.steps < s.program.stepLimit →
    s.go a M = (work.run s.invoke >>= fun v => s.go (next v)) (M.withSteps (M.steps + 1))

theorem invoke_counts : CountsUp s.invoke := trace_steps s.program _

/-! ## One instruction after another -/

variable {s}

/-- what the instruction does comes first -/
theorem CarriesOut.after {x : Host α} {next : α → Activation} {f : α → Host Unit} (hx : s.Does known a x next)
    (hready : ∀ M v N, s.Ready known M → x.run s.invoke M = .ok v N → s.Ready known' N)
    (hrest : ∀ v, s.CarriesOut known' (next v) (f v)) : s.CarriesOut known a (x >>= f) := by
  intro M M' hM hF hlimit
  have hcount : M.steps < s.program.stepLimit :=
    Nat.lt_of_lt_of_le (Routine.go_counts s.invoke_counts (invoke_size _ _)) hlimit
  have heq := hx M hM hcount
  have hfinal : (s.go a).final M = (x.run s.invoke >>= fun v => s.go (next v)).final (M.withSteps (M.steps + 1)) := by
    unfold Exec.final
    rw [heq]
  rw [hfinal, final_bind] at hlimit
  have hwork : ((x.run s.invoke).final (M.withSteps (M.steps + 1))).steps ≤ s.program.stepLimit := by
    unfold Exec.final
    cases hy : x.run s.invoke (M.withSteps (M.steps + 1)) with
    | error t N => rw [hy] at hlimit; exact hlimit
    | ok v N =>
      rw [hy] at hlimit
      exact Nat.le_trans (Routine.go_steps s.invoke_counts (invoke_size _ _)) hlimit
  rw [heq, Host.run_bind]
  refine Follows.bind (work_counts (hF.later (Nat.le_succ _)) hwork) fun v w N N' hy hvw hN => ?_
  subst w
  rw [hy] at hlimit
  exact hrest v N N' (hready _ v N (hM.withSteps _) hy) hN hlimit

/-- work of any kind leaves the frame as it is -/
theorem CarriesOut.first {x : Host α} {next : α → Activation} {f : α → Host Unit} (hx : s.Does known a x next)
    (hrest : ∀ v, s.CarriesOut none (next v) (f v)) : s.CarriesOut known a (x >>= f) := by
  refine .after hx (fun M v N hM hN => ?_) hrest
  have houtline := work_outline s.program (s.nesting + 1) x M
  unfold Exec.final at houtline
  rw [show x.run (s.program.invoke (s.nesting + 1)) M = .ok v N from hN] at houtline
  exact hM.outlined houtline

/-- an instruction that does nothing but go on -/
theorem CarriesOut.pass (hx : s.Does known a (pure ()) fun _ => b) (hrest : s.CarriesOut known b work) :
    s.CarriesOut known a work :=
  .after (f := fun _ => work) hx (fun M v N hM hN => by cases hN; exact hM) fun _ => hrest

/-- nothing has to be known -/
theorem CarriesOut.weaken (h : s.CarriesOut none a work) : s.CarriesOut known a work :=
  fun M M' hM hF hlimit => h M M' hM.forget hF hlimit

theorem CarriesOut.glide {positions : List Nat} {first last : Nat × List Value}
    (h : s.routine.Glides s.arguments positions first last)
    (hlast : s.CarriesOut known { position := last.1, operands := { stack := last.2 }, pending } work) :
    s.CarriesOut known { position := first.1, operands := { stack := first.2 }, pending } work := by
  induction h with
  | refl here => exact hlast
  | step hi hsilent hk _ ih =>
    exact .pass (fun M hM hlimit => Routine.go_glide s.invoke_counts (.step hi hsilent hk (.refl _)) hM.given hlimit)
      (ih hlast)

/-- a return ends the work -/
theorem CarriesOut.ret (hi : s.routine.layout.fetch? k = some .ret) (hret : s.routine.returnsValue = false) :
    s.CarriesOut known { position := k, operands := { stack }, pending } (pure ()) := by
  intro M M' hM hF hlimit
  have hcount : M.steps < s.program.stepLimit :=
    Nat.lt_of_lt_of_le (Routine.go_counts s.invoke_counts (invoke_size _ _)) hlimit
  rw [go, Routine.go_ret s.invoke_counts hcount hi hret]
  exact ⟨rfl, hF.later (Nat.le_succ _)⟩

/-! ## Single instructions -/

section Single

variable {m : MethodRef} {o : ObjectRef} {f : FieldRef} {v : Value} {slot : UInt16} {place : Address}

theorem does_call (values : List Value) (hi : s.routine.layout.fetch? k = some (.call m)) (hr : s.routine.Unprotected k)
    (hm : (s.program.graph.method m.method).argumentCount = values.length) :
    s.Does known { position := k, operands := { stack := values.reverse ++ stack }, pending }
      (Host.invoke m.method values)
      fun result => { position := k + 1, operands := { stack := result.toList ++ stack }, pending } := by
  intro M hM hlimit
  rw [go, Routine.go_call s.invoke_counts hlimit values hi hr hm]
  simp only [Host.invoke, Host.run, bind, EStateM.bind]
  change Routine.resumeWith _ _ _ _ _ _ (s.invoke _ _ _) = _
  cases s.invoke m.method values (M.withSteps (M.steps + 1)) <;> rfl

/-- a call of a method of the host that makes no calls itself -/
theorem does_native (values : List Value) (result : α → Option Value)
    (hi : s.routine.layout.fetch? k = some (.call m)) (hr : s.routine.Unprotected k)
    (hm : (s.program.graph.method m.method).argumentCount = values.length) {native : Native}
    (hn : s.program.native? m.method = some native) {x : Host α}
    (hx : native s.program.toDeclarations values = x >>= fun v => pure (result v))
    (hquiet : x.run (s.program.invoke s.nesting) = x.run s.invoke) :
    s.Does known { position := k, operands := { stack := values.reverse ++ stack }, pending } x
      fun v => { position := k + 1, operands := { stack := (result v).toList ++ stack }, pending } := by
  intro M hM hlimit
  have hinvoke : s.invoke m.method values = (x.run s.invoke >>= fun v => pure (result v)) := by
    rw [← hquiet]
    refine Eq.trans ?_ ((congrArg _ hx).trans (Host.run_bind x fun v => pure (result v)))
    simp only [invoke, Program.invoke, hn]
  rw [go, Routine.go_call s.invoke_counts hlimit values hi hr hm]
  change Routine.resumeWith _ _ _ _ _ _ (s.invoke _ _ _) = _
  rw [hinvoke]
  simp only [bind, EStateM.bind]
  cases x.run s.invoke (M.withSteps (M.steps + 1)) <;> rfl

theorem does_exchange (hi : s.routine.layout.fetch? k = some (.call m)) (hr : s.routine.Unprotected k)
    (hm : (s.program.graph.method m.method).argumentCount = 2)
    (hn : s.program.native? m.method = some Native.exchange) :
    s.Does known { position := k, operands := { stack := v :: .address place :: stack }, pending }
      (Host.swap s.program.graph place v)
      fun previous => { position := k + 1, operands := { stack := previous :: stack }, pending } :=
  does_native [.address place, v] some hi hr hm hn rfl
    (by rw [Host.swap_run, Host.swap_run])

theorem does_mark (hi : s.routine.layout.fetch? k = some (.call m)) (hr : s.routine.Unprotected k)
    (hm : (s.program.graph.method m.method).argumentCount = 1) {mark : Mark}
    (hn : s.program.native? m.method = some (Native.marking mark)) :
    s.Does known { position := k, operands := { stack := .object o :: stack }, pending } (Host.mark o mark)
      fun _ => { position := k + 1, operands := { stack }, pending } :=
  does_native [.object o] (fun _ => none) hi hr hm hn rfl
    (by rw [Host.mark_run, Host.mark_run])

theorem target_virtual {g : TypeGraph} {c : MethodId} (hv : (g.method c).isVirtual = true) (values : List Value)
    (K : Machine) : Routine.target g c values K = Exec.ofExcept (K.implementation g c values) K := by
  unfold Routine.target
  rw [if_pos hv]
  rfl

/-- a virtual call, once the arguments are known -/
theorem resume_virtual {values : List Value} (hv : (s.program.graph.method m.method).isVirtual = true) (K : Machine) :
    Routine.resumeWith (s.program.invoker s.invoke) s.routine s.program.stepLimit k stack pending
        ((do s.invoke (← Routine.target s.program.graph m.method values) values : Exec (Option Value)) K) =
      ((Host.callVirtual s.program.graph m.method values).run s.invoke >>= fun result =>
        s.go { position := k, operands := { stack := result.toList ++ stack }, pending }) K := by
  simp only [bind, EStateM.bind, Host.callVirtual_run, target_virtual hv]
  cases Exec.ofExcept (K.implementation s.program.graph m.method values) K with
  | error t N => rfl
  | ok found N =>
    simp only
    cases s.invoke found values N <;> rfl

theorem does_callvirt (hi : s.routine.layout.fetch? k = some (.callvirt m)) (hr : s.routine.Unprotected k)
    (hm : (s.program.graph.method m.method).argumentCount = 1)
    (hv : (s.program.graph.method m.method).isVirtual = true) :
    s.Does known { position := k, operands := { stack := v :: stack }, pending }
      (Host.callVirtual s.program.graph m.method [v])
      fun result => { position := k + 1, operands := { stack := result.toList ++ stack }, pending } := by
  intro M hM hlimit
  refine (Routine.go_callvirt s.invoke_counts hlimit [v] hi hr hm).trans ?_
  exact resume_virtual hv _

theorem does_stfld (hi : s.routine.layout.fetch? k = some (.stfld f)) (hr : s.routine.Unprotected k) :
    s.Does known { position := k, operands := { stack := v :: .object o :: stack }, pending }
      (Host.store (.field o f.field) v) fun _ => { position := k + 1, operands := { stack }, pending } := by
  intro M hM hlimit
  rw [go, Routine.go_stfld s.invoke_counts hlimit hi hr, Host.store_run]
  simp only [bind, EStateM.bind]
  cases Exec.store (.field o f.field) v (M.withSteps (M.steps + 1)) <;> rfl

/-! ### Values that wait in locals -/

/-- a value is put in a local, and known to be there -/
theorem CarriesOut.keep (hi : s.routine.layout.fetch? k = some (.stloc slot)) (hr : s.routine.Unprotected k)
    (hslot : slot.toNat < s.count) {f : Unit → Host Unit}
    (hrest : s.CarriesOut (some (slot, v)) { position := k + 1, operands := { stack }, pending } (f ())) :
    s.CarriesOut known { position := k, operands := { stack := v :: stack }, pending }
      (Host.store (.variable s.routine.depth slot) v >>= f) := by
  have hstore : s.Does known { position := k, operands := { stack := v :: stack }, pending }
      (Host.store (.variable s.routine.depth slot) v) fun _ => { position := k + 1, operands := { stack }, pending } := by
    intro M hM hlimit
    rw [go, Routine.go_stloc s.invoke_counts hlimit hi hr, Host.store_run]
    simp only [bind, EStateM.bind]
    cases Exec.store (.variable s.routine.depth slot) v (M.withSteps (M.steps + 1)) <;> rfl
  refine .after hstore (fun M u N hM hN => ?_) fun _ => hrest
  have hthere := hM.local_there hslot
  rw [Host.store_run] at hN
  simp only [Exec.store, Exec.reach, bind, EStateM.bind, get_run, Machine.missing?, hthere, ↓reduceIte] at hN
  cases hN
  exact hM.stored hslot v

theorem does_ldloc (hi : s.routine.layout.fetch? k = some (.ldloc slot)) :
    s.Does (some (slot, v)) { position := k, operands := { stack }, pending } (pure ())
      fun _ => { position := k + 1, operands := { stack := v :: stack }, pending } :=
  fun _ hM hlimit => Routine.go_ldloc s.invoke_counts hlimit hi (hM.known _ rfl)

theorem does_constrained {type : TypeRef} (hi : s.routine.layout.fetch? k = some (.constrained type)) :
    s.Does known { position := k, operands := { stack }, pending } (pure ())
      fun _ => { position := k + 1, operands := { stack, constrained := true }, pending } :=
  fun _ _ hlimit => Routine.go_of_next (a := { position := k, operands := { stack }, pending }) s.invoke_counts hlimit hi rfl

/-- a virtual call on what a known local holds -/
theorem does_through (hi : s.routine.layout.fetch? k = some (.callvirt m)) (hr : s.routine.Unprotected k)
    (hm : (s.program.graph.method m.method).argumentCount = 1)
    (hv : (s.program.graph.method m.method).isVirtual = true) :
    s.Does (some (slot, v))
      { position := k, pending
        operands := { stack := .address (.variable s.routine.depth slot) :: stack, constrained := true } }
      (Host.callVirtual s.program.graph m.method [v])
      fun result => { position := k + 1, operands := { stack := result.toList ++ stack }, pending } := by
  intro M hM hlimit
  have hlocal : (M.withSteps (M.steps + 1)).localAt? s.routine.depth slot = some v := hM.known _ rfl
  have hload : Exec.load s.program.graph (.variable s.routine.depth slot) (M.withSteps (M.steps + 1)) =
      .ok v (M.withSteps (M.steps + 1)) := by
    simp only [Exec.load, Exec.reach, bind, EStateM.bind, get_run, Machine.missing?, hlocal, Option.isSome_some,
      ↓reduceIte, pure, EStateM.pure, Machine.content, Option.getD_some]
  rw [go, Routine.go_through s.invoke_counts hlimit hi hr hm]
  refine Eq.trans ?_ (resume_virtual hv (M.withSteps (M.steps + 1)))
  simp only [Program.invoker, bind, EStateM.bind, hload]

/-! ### Protected instructions -/

/-- after a call under a `finally` handler: it goes on, or the handler is run for an exception -/
def afterAttempt (k handlerStart : Nat) (stack : List Value) (pending : List Pending) :
    Except ObjectRef (Option Value) → Activation
  | .ok result => { position := k + 1, operands := { stack := result.toList ++ stack }, pending }
  | .error e => { position := handlerStart, pending := { region := 0, purpose := .raise k e } :: pending }

/-- a call under the first region of the table, which has a `finally` handler -/
theorem does_attempt (values : List Value) (hi : s.routine.layout.fetch? k = some (.call m))
    (hm : (s.program.graph.method m.method).argumentCount = values.length) {region : Region} {regions : List Region}
    (hr : s.routine.regions = region :: regions) (hkind : region.kind = .finally) (hk : region.protects k = true) :
    s.Does known { position := k, operands := { stack := values.reverse ++ stack }, pending }
      (Host.attempt m.method values) (afterAttempt k region.handlerStart stack pending) := by
  intro M hM hlimit
  have hc : CountsUp (s.program.invoker s.invoke).invoke := s.invoke_counts
  have hrequest : s.routine.request (s.program.invoker s.invoke).graph (.call m) { stack := values.reverse ++ stack }
      (M.withSteps (M.steps + 1)) = .ok (.call m.method values ({ stack } : Operands).pushResult)
        (M.withSteps (M.steps + 1)) := by
    simp only [Routine.request, Program.invoker, bind, EStateM.bind, hm, Routine.popArguments_eq]
    rfl
  rw [Host.attempt_run]
  simp only [bind, EStateM.bind, Exec.attempt]
  cases hv : s.invoke m.method values (M.withSteps (M.steps + 1)) with
  | ok result N =>
    have hv' : (s.program.invoker s.invoke).invoke m.method values (M.withSteps (M.steps + 1)) = .ok result N := hv
    have hgo := Routine.go_of_answer (a := { position := k, operands := { stack := values.reverse ++ stack }, pending })
      hc hlimit hi hrequest hv'
    exact hgo
  | error t N =>
    have hexecute : s.routine.execute (s.program.invoker s.invoke) (.call m) { stack := values.reverse ++ stack }
        (M.withSteps (M.steps + 1)) = .error t N := by
      have hv' : (s.program.invoker s.invoke).invoke m.method values (M.withSteps (M.steps + 1)) = .error t N := hv
      simp only [Routine.execute, bind, EStateM.bind, hrequest, Routine.resolve, hv']
    rw [go, Routine.go_turn hc]
    cases t with
    | exception e =>
      rw [Routine.turn_finally (a := { position := k, operands := { stack := values.reverse ++ stack }, pending }) hlimit hi
        hr hkind hk hexecute]
      rfl
    | _ =>
      rw [Routine.turn_trap (a := { position := k, operands := { stack := values.reverse ++ stack }, pending }) hlimit hi
        (by simp) hexecute]

/-- a jump out of protected regions -/
theorem does_leave {t : Handle} {q : Nat} (hi : s.routine.layout.fetch? k = some (.leave t))
    (hq : s.routine.layout.position? t = some q) :
    s.Does known { position := k, operands := { stack }, pending } (pure ())
      fun _ => s.routine.leaveFrom 0 k q { position := k, operands := { stack }, pending } := by
  intro M _ hlimit
  have hexecute : s.routine.execute (s.program.invoker s.invoke) (.leave t) { stack } (M.withSteps (M.steps + 1)) =
      .ok (.leave t, { stack }) (M.withSteps (M.steps + 1)) := rfl
  rw [go, Routine.go_turn s.invoke_counts,
    Routine.turn_ok (a := { position := k, operands := { stack }, pending }) hlimit hi hexecute]
  simp only [Routine.follow, Routine.positionOf, hq]
  rfl

/-- the end of a handler that a jump has started -/
theorem does_endfinally {place origin target : Nat} (hi : s.routine.layout.fetch? k = some .endfinally) :
    s.Does known
      { position := k, operands := { stack }, pending := { region := place, purpose := .leave origin target } :: pending }
      (pure ())
      fun _ => s.routine.leaveFrom (place + 1) origin target { position := k, operands := { stack }, pending } := by
  intro M _ hlimit
  have hexecute : s.routine.execute (s.program.invoker s.invoke) .endfinally { stack } (M.withSteps (M.steps + 1)) =
      .ok (.endFinally, { stack }) (M.withSteps (M.steps + 1)) := rfl
  rw [go, Routine.go_turn s.invoke_counts, Routine.turn_ok (a := { position := k, operands := { stack }, pending := _ :: pending })
    hlimit hi hexecute]
  rfl

/-- the end of a handler that an exception has started, where no further one waits -/
theorem CarriesOut.reraise {place origin : Nat} {e : ObjectRef} (hi : s.routine.layout.fetch? k = some .endfinally)
    (hlast : s.routine.regions.length ≤ place + 1) :
    s.CarriesOut known
      { position := k, operands := { stack }, pending := { region := place, purpose := .raise origin e } :: pending }
      (.fail (.exception e)) := by
  intro M M' _ hF hlimit
  have hcount : M.steps < s.program.stepLimit :=
    Nat.lt_of_lt_of_le (Routine.go_counts s.invoke_counts (invoke_size _ _)) hlimit
  have hexecute : s.routine.execute (s.program.invoker s.invoke) .endfinally { stack } (M.withSteps (M.steps + 1)) =
      .ok (.endFinally, { stack }) (M.withSteps (M.steps + 1)) := rfl
  have hnone : ∀ K, Routine.findRegion s.routine.regions (place + 1) (Routine.handles s.program.graph K origin e) = none :=
    fun K => by rw [Routine.findRegion, List.drop_eq_nil_of_le hlast, Routine.findFrom]
  have hgo : s.go { position := k, operands := { stack }
                    pending := { region := place, purpose := .raise origin e } :: pending } M =
      .error (.exception e) (M.withSteps (M.steps + 1)) := by
    rw [go, Routine.go_turn s.invoke_counts, Routine.turn_ok (a := { position := k, operands := { stack }, pending := _ :: pending })
      hcount hi hexecute]
    simp only [Routine.follow, Routine.endHandler, Routine.raiseFrom, Program.invoker, bind, EStateM.bind, get_run, hnone]
    rfl
  rw [hgo]
  exact ⟨rfl, hF.later (Nat.le_succ _)⟩

end Single

end Workplace

end DisposalWeaver
