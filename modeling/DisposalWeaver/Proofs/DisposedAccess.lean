/-
A guarded method on a disposed object throws.

The guard of a type throws a fresh exception that names the type, if the disposed field of the object is set
(`Program.HasGuard.throws`). It is called by the second instruction of a guarded body, where no region protects: the
author's regions have moved two positions down with their code (`Routine.Shifted`). So the exception leaves the method at
once, whatever regions and handlers the author has written, and nothing of the author's is executed (`weave_refuses`).
Where it is another definition that is run, a method may answer (`read_may_answer`).
-/
import DisposalWeaver.Proofs.PlacedGuards
import DisposalWeaver.Proofs.RepeatedDisposal

namespace DisposalWeaver

/-! ## Runs that end in a trap -/

/-- the instruction that is executed, where one is: its method and its position -/
def Event.executed? : Event → Option (MethodId × Nat)
  | .step r a _ _ => some (r.method, a.position)
  | _ => none

/-- the instructions that are executed, one after another -/
def executed (events : List Event) : List (MethodId × Nat) := events.filterMap Event.executed?

theorem executed_quiet {events : List Event} (h : ∀ e ∈ events, e.isStep = false) : executed events = [] := by
  refine List.filterMap_eq_nil_iff.2 fun e he => ?_
  cases e with
  | step r a i M => cases h _ he
  | _ => rfl

section Trapping

variable {p : Program} {nesting : Nat} {r : Routine} {t : Trap} {done done' : List (MethodId × Nat)}
  {M K N : Machine} {k k' : Nat} {stack stack' arguments : List Value} {i : Instruction} {a : Activation}

/-- from the activation on, the routine executes these instructions, the code that it calls included, and ends in the trap
on the machine -/
structure Traps (p : Program) (nesting : Nat) (r : Routine) (t : Trap) (done : List (MethodId × Nat)) (a : Activation)
    (M N : Machine) : Prop where
  ends : r.go (p.invoker (p.invoke nesting)) p.stepLimit a M = .error t N
  events : executed (r.goEvents (p.invoker (p.invoke nesting)) (p.trace nesting) p.stepLimit a M) = done

namespace Traps

theorem silent (hM : M.Given r.depth arguments) (hlimit : M.steps < p.stepLimit) (hi : r.layout.fetch? k = some i)
    {flow : Flow} (h : i.silent? r.depth arguments stack = some (flow, stack'))
    (hk : Routine.landing r.layout k flow = some k')
    (hrest : Traps p nesting r t done { position := k', operands := { stack := stack' } } (M.withSteps (M.steps + 1)) N) :
    Traps p nesting r t ((r.method, k) :: done) { position := k, operands := { stack } } M N := by
  have hc : CountsUp (p.invoker (p.invoke nesting)).invoke := trace_steps p nesting
  refine ⟨(Routine.go_silent hc hlimit hM hi h hk).trans hrest.ends, ?_⟩
  rw [Routine.goEvents_silent hc hlimit hM hi h hk, ← hrest.events]
  rfl

/-- an instruction that makes no call -/
theorem next (hlimit : M.steps < p.stepLimit) (hi : r.layout.fetch? a.position = some i) {operands : Operands}
    (hx : r.request p.graph i a.operands (M.withSteps (M.steps + 1)) = .ok (.done .next operands) K)
    (hrest : Traps p nesting r t done { a with position := a.position + 1, operands } K N) :
    Traps p nesting r t ((r.method, a.position) :: done) a M N := by
  have hc : CountsUp (p.invoker (p.invoke nesting)).invoke := trace_steps p nesting
  have hexecute : r.execute (p.invoker (p.invoke nesting)) i a.operands (M.withSteps (M.steps + 1)) =
      .ok (.next, operands) K := by
    simp only [Routine.execute, bind, EStateM.bind, Program.invoker, hx]
    rfl
  have hturn := Routine.turn_ok hlimit hi hexecute
  have hevents : r.turnEvents (p.invoker (p.invoke nesting)) (p.trace nesting) p.stepLimit a M =
      [.step r a i (M.withSteps (M.steps + 1))] :=
    Routine.turnEvents_done hlimit hi fun c arguments resume K' hcall => by cases hx.symm.trans hcall
  constructor
  · rw [Routine.go_turn hc, hturn]
    exact hrest.ends
  · rw [Routine.goEvents_turn hc, hevents, hturn, ← hrest.events]
    rfl

section Calls

variable {c : MethodId} {values : List Value} {resume : Option Value → Operands}

/-- what happens in a turn that makes a call -/
theorem turnEvents_call {invoker : Invoker} {calls : MethodId → List Value → Machine → List Event} {limit : Nat}
    (hlimit : M.steps < limit) (hi : r.layout.fetch? a.position = some i)
    (hx : r.request invoker.graph i a.operands (M.withSteps (M.steps + 1)) = .ok (.call c values resume) K) :
    r.turnEvents invoker calls limit a M = .step r a i (M.withSteps (M.steps + 1)) :: calls c values K := by
  unfold Machine.withSteps at hx ⊢
  simp only [Routine.turnEvents, tick_ok hlimit, hi, hx]

/-- a call that answers -/
theorem call {K' : Machine} (hlimit : M.steps < p.stepLimit) (hi : r.layout.fetch? a.position = some i)
    (hx : r.request p.graph i a.operands (M.withSteps (M.steps + 1)) = .ok (.call c values resume) K)
    {value : Option Value} (hv : p.invoke nesting c values K = .ok value K')
    (hcalls : executed (p.trace nesting c values K) = done')
    (hrest : Traps p nesting r t done { a with position := a.position + 1, operands := resume value } K' N) :
    Traps p nesting r t ((r.method, a.position) :: done' ++ done) a M N := by
  have hc : CountsUp (p.invoker (p.invoke nesting)).invoke := trace_steps p nesting
  have hexecute : r.execute (p.invoker (p.invoke nesting)) i a.operands (M.withSteps (M.steps + 1)) =
      .ok (.next, resume value) K' := by
    simp only [Routine.execute, bind, EStateM.bind, Program.invoker, hx, Routine.resolve, hv]
    rfl
  have hturn := Routine.turn_ok hlimit hi hexecute
  constructor
  · rw [Routine.go_turn hc, hturn]
    exact hrest.ends
  · have hevents : r.turnEvents (p.invoker (p.invoke nesting)) (p.trace nesting) p.stepLimit a M =
        .step r a i (M.withSteps (M.steps + 1)) :: p.trace nesting c values K := turnEvents_call hlimit hi hx
    rw [Routine.goEvents_turn hc, hevents, hturn, ← hcalls, ← hrest.events]
    exact List.filterMap_append

/-- a call that traps where no region protects -/
theorem callee (hlimit : M.steps < p.stepLimit) (hi : r.layout.fetch? a.position = some i) (hr : r.Unprotected a.position)
    (hx : r.request p.graph i a.operands (M.withSteps (M.steps + 1)) = .ok (.call c values resume) K)
    (hv : p.invoke nesting c values K = .error t N) (hcalls : executed (p.trace nesting c values K) = done) :
    Traps p nesting r t ((r.method, a.position) :: done) a M N := by
  have hc : CountsUp (p.invoker (p.invoke nesting)).invoke := trace_steps p nesting
  have hexecute : r.execute (p.invoker (p.invoke nesting)) i a.operands (M.withSteps (M.steps + 1)) = .error t N := by
    simp only [Routine.execute, bind, EStateM.bind, Program.invoker, hx, Routine.resolve, hv]
  have hturn := Routine.turn_error hlimit hi hr hexecute
  constructor
  · rw [Routine.go_turn hc, hturn]
  · have hevents : r.turnEvents (p.invoker (p.invoke nesting)) (p.trace nesting) p.stepLimit a M =
        .step r a i (M.withSteps (M.steps + 1)) :: p.trace nesting c values K := turnEvents_call hlimit hi hx
    rw [Routine.goEvents_turn hc, hevents, hturn, List.append_nil, ← hcalls]
    rfl

end Calls

/-- an instruction that traps where no region protects -/
theorem here (hlimit : M.steps < p.stepLimit) (hi : r.layout.fetch? a.position = some i) (hr : r.Unprotected a.position)
    (hx : r.request p.graph i a.operands (M.withSteps (M.steps + 1)) = .error t N) :
    Traps p nesting r t [(r.method, a.position)] a M N := by
  have hc : CountsUp (p.invoker (p.invoke nesting)).invoke := trace_steps p nesting
  have hexecute : r.execute (p.invoker (p.invoke nesting)) i a.operands (M.withSteps (M.steps + 1)) = .error t N := by
    simp only [Routine.execute, bind, EStateM.bind, Program.invoker, hx]
  have hturn := Routine.turn_error hlimit hi hr hexecute
  have hevents : r.turnEvents (p.invoker (p.invoke nesting)) (p.trace nesting) p.stepLimit a M =
      [.step r a i (M.withSteps (M.steps + 1))] :=
    Routine.turnEvents_done hlimit hi fun c arguments resume K' hcall => by cases hx.symm.trans hcall
  constructor
  · rw [Routine.go_turn hc, hturn]
  · rw [Routine.goEvents_turn hc, hevents, hturn]
    rfl

/-- a method whose body is laid out as a routine that traps -/
theorem invoke {m : MethodId} {body : Body} (hn : p.native? m = none) (hb : p.body? m = some body)
    (hroom : M.frames.size < Program.maxFrames)
    (hr : Routine.prepare p.graph m body (M.push (p.frameFor body arguments)) =
      .ok r (M.push (p.frameFor body arguments)))
    (h : Traps p nesting r t done {} (M.push (p.frameFor body arguments)) N) :
    p.invoke (nesting + 1) m arguments M = .error t N.pop ∧
      executed (p.trace (nesting + 1) m arguments M) = done := by
  constructor
  · rw [Program.invoke]
    simp only [hn, hb]
    rw [Routine.enter_prepared p _ m arguments hroom hr, Exec.withFrame, h.ends]
  · rw [Program.trace]
    simp only [hn, hb, Program.enterEvents, if_neg (Nat.not_le.2 hroom), Routine.runEvents, Program.invoker, hr]
    exact h.events

end Traps

end Trapping

/-! ## The exception -/

/-- the machine with a fresh exception of the type, and its message -/
def Machine.throwing (M : Machine) (type : TypeId) (message : String) : Machine :=
  { M with heap := M.heap.push { type, message := some message } }

section Constructor

variable {p : Program} {c : MethodId} {message : String → String} {text : String} {type : TypeId} {M : Machine}

theorem mark_allocated (M : Machine) (type : TypeId) (message : String) :
    (M.apply (.allocate type)).apply (.mark M.nextObject (.message message)) = M.throwing type message := by
  have hheap : (M.heap.push { type }).modify M.heap.size (fun object => object.note (.message message)) =
      M.heap.push { type, message := some message } := by
    refine Array.ext_getElem? fun k => ?_
    rw [Array.getElem?_modify, Array.getElem?_push, Array.getElem?_push]
    by_cases hk : k = M.heap.size
    · subst hk
      simp [Object.note]
    · rw [if_neg (Ne.symm hk), if_neg hk, if_neg hk]
  simp only [Machine.apply, Machine.nextObject, Machine.throwing, hheap]

/-- the constructor of an exception sets its message on a fresh object -/
theorem constructor_throwing (hn : p.native? c = some (Native.withMessage message)) (nesting : Nat) :
    p.invoke (nesting + 1) c [.object M.nextObject, .string text] (M.apply (.allocate type)) =
      .ok none (M.throwing type (message text)) := by
  have hrun : p.invoke (nesting + 1) c [.object M.nextObject, .string text] =
      ((Host.mark M.nextObject (.message (message text))).run (p.invoke nesting) >>= fun _ => pure none) := by
    refine Eq.trans ?_ (Host.run_bind (Host.mark M.nextObject (.message (message text))) fun _ => pure none)
    simp only [Program.invoke, hn]
    rfl
  have hobject : (M.apply (.allocate type)).object? M.nextObject = some { type } := by
    simp [Machine.object?, Machine.apply, Machine.nextObject]
  rw [hrun, Host.mark_run]
  simp only [Exec.object, bind, EStateM.bind, get_run, hobject]
  exact congrArg (EStateM.Result.ok none) (mark_allocated M type (message text))

/-- … and executes no instruction -/
theorem constructor_quiet (hn : p.native? c = some (Native.withMessage message)) (nesting : Nat) (o : ObjectRef) :
    executed (p.trace nesting c [.object o, .string text] M) = [] :=
  executed_quiet (native_quiet hn (Host.callless_mark o _ _ fun _ => trivial))

end Constructor

/-! ## The guard -/

section Guard

open Routine

variable {p : Program} {references : References} {m guard : MethodId} {T : TypeId} {disposed : FieldId} {M : Machine}
  {o : ObjectRef} {object : Object} {nesting : Nat}

/-- what the guard throws -/
def Emission.refusal (g : TypeGraph) (references : References) (T : TypeId) (M : Machine) : Machine :=
  M.throwing (g.method references.disposedConstructor).declaring (Platform.disposedMessage (g.type T).name.simple)

theorem traps_guard (nesting : Nat) {r : Routine} (hfree : ∀ k, r.Unprotected k)
    (hcode : r.layout.Has 0 (Emission.guardCode p.graph references T disposed))
    (hconstructor : p.native? references.disposedConstructor = some (Native.withMessage Platform.disposedMessage))
    (hcount : (p.graph.method references.disposedConstructor).parameters.length = 1)
    (hM : M.Given r.depth [.object o]) (ho : M.object? o = some object)
    (hd : (object.fieldOf p.graph disposed).isTrue = true) (hlimit : M.steps + 6 ≤ p.stepLimit) :
    Traps p (nesting + 1) r (.exception M.nextObject) ([0, 1, 2, 3, 4, 5].map fun k => (r.method, k)) {} M
      ((Emission.refusal p.graph references T M).withSteps (M.steps + 6)) := by
  have hgiven : ∀ steps, (M.withSteps steps).Given r.depth [.object o] := fun _ => hM
  have hlast : ∀ k < 6, M.steps + k < p.stepLimit := fun k hk => by omega
  have htest : (Instruction.brfalse ⟨6⟩).silent? r.depth [.object o] [object.fieldOf p.graph disposed] = some (.next, []) := by
    change some (if (object.fieldOf p.graph disposed).isTrue then Flow.next else .jump ⟨6⟩, []) = _
    rw [if_pos hd]
  have hfield : r.request p.graph (.ldfld (.onSelf p.graph disposed)) { stack := [.object o] } (M.withSteps (M.steps + 2)) =
      .ok (.done .next { stack := [object.fieldOf p.graph disposed] }) (M.withSteps (M.steps + 2)) := by
    have hobject : (M.withSteps (M.steps + 2)).object? o = some object := ho
    simp only [request, bind, EStateM.bind, Operands.pop, pure, EStateM.pure, Value.toObject, liftM, monadLift,
      MonadLift.monadLift, Exec.ofExcept, Exec.field, Exec.object, get_run, hobject, Operands.push]
    rfl
  have hnew : r.request p.graph (.newobj (.direct p.graph references.disposedConstructor))
      { stack := [.string (p.graph.type T).name.simple] } (M.withSteps (M.steps + 5)) =
      .ok (.call references.disposedConstructor [.object M.nextObject, .string (p.graph.type T).name.simple] fun _ =>
          { stack := [.object M.nextObject] })
        ((M.withSteps (M.steps + 5)).apply (.allocate (p.graph.method references.disposedConstructor).declaring)) := by
    have hmethod : (MethodRef.direct p.graph references.disposedConstructor).method = references.disposedConstructor := rfl
    simp only [request, hmethod, hcount]
    rfl
  refine .silent (hgiven _) (hlast 0 (by decide)) (hcode.fetch 0 rfl) rfl rfl ?_
  refine .next (M := M.withSteps (M.steps + 1)) (a := { position := 1, operands := { stack := [.object o] } })
    (hlast 1 (by decide)) (hcode.fetch 1 rfl) hfield ?_
  refine .silent (hgiven _) (hlast 2 (by decide)) (hcode.fetch 2 rfl) htest rfl ?_
  refine .next (M := M.withSteps (M.steps + 3)) (a := { position := 3 }) (hlast 3 (by decide)) (hcode.fetch 3 rfl) rfl ?_
  refine .call (M := M.withSteps (M.steps + 4))
    (a := { position := 4, operands := { stack := [.string (p.graph.type T).name.simple] } }) (hlast 4 (by decide))
    (hcode.fetch 4 rfl) hnew (constructor_throwing (M := M.withSteps (M.steps + 5)) hconstructor nesting)
    (constructor_quiet hconstructor (nesting + 1) M.nextObject) ?_
  exact .here (M := (Emission.refusal p.graph references T M).withSteps (M.steps + 5))
    (a := { position := 5, operands := { stack := [.object M.nextObject] } }) (hlast 5 (by decide)) (hcode.fetch 5 rfl)
    (hfree 5) rfl

/-- the host constructs the exception that the guard throws -/
structure Program.RaisesDisposed (p : Program) (references : References) : Prop where
  native : p.native? references.disposedConstructor = some (Native.withMessage Platform.disposedMessage)
  count : (p.graph.method references.disposedConstructor).parameters.length = 1

variable (hp : p.RaisesDisposed references) (hg : p.HasGuard references T disposed guard) (ho : M.object? o = some object)
  (hd : (object.fieldOf p.graph disposed).isTrue = true)

include hp hg ho hd

/-- **The guard throws** if the disposed field is set, and changes nothing else. -/
theorem Program.HasGuard.throws (nesting : Nat) (hroom : M.frames.size < Program.maxFrames)
    (hlimit : M.steps + 6 ≤ p.stepLimit) :
    p.invoke (nesting + 2) guard [.object o] M =
        .error (.exception M.nextObject) ((Emission.refusal p.graph references T M).withSteps (M.steps + 6)) ∧
      executed (p.trace (nesting + 2) guard [.object o] M) = [0, 1, 2, 3, 4, 5].map fun k => (guard, k) := by
  have hholds := Emission.guard_holds p.graph references T disposed
  have hdepth : (M.push (p.frameFor (Emission.guard p.graph references T disposed) [.object o])).frames.size - 1 =
      M.frames.size := by simp [Machine.push]
  have hprepare := prepare_code p.graph guard hholds
    (M.push (p.frameFor (Emission.guard p.graph references T disposed) [.object o]))
  rw [hdepth] at hprepare
  have htraps := traps_guard (M := M.push (p.frameFor (Emission.guard p.graph references T disposed) [.object o])) nesting
    (ofCode_unprotected p.graph guard (Emission.guard p.graph references T disposed) M.frames.size)
    (Layout.has_ofBody hholds) hp.native hp.count (given_push p _ _ M.steps) ho hd hlimit
  obtain ⟨hinvoke, hexecuted⟩ := htraps.invoke hg.native hg.body hroom hprepare
  refine ⟨hinvoke.trans ?_, hexecuted⟩
  exact congrArg (EStateM.Result.error _) (Machine.pop_push (Emission.refusal p.graph references T M) (M.steps + 6) _)

/-- **A guarded body** comes no further than to the call of the guard, if nothing protects that. -/
theorem Program.HasGuard.guarded_throws {body : Body} {call : MethodRef} (hcall : call.method = guard)
    (hown : p.native? m = none) (hfound : p.body? m = some (Emission.guarded call body)) {rest : List Value} {r : Routine}
    (hr : prepare p.graph m (Emission.guarded call body)
        (M.push (p.frameFor (Emission.guarded call body) (.object o :: rest))) =
      .ok r (M.push (p.frameFor (Emission.guarded call body) (.object o :: rest))))
    (hfree : r.Unprotected 1) (nesting : Nat) (hroom : M.frames.size + 1 < Program.maxFrames)
    (hlimit : M.steps + 8 ≤ p.stepLimit) :
    p.invoke (nesting + 3) m (.object o :: rest) M =
        .error (.exception M.nextObject) ((Emission.refusal p.graph references T M).withSteps (M.steps + 8)) ∧
      executed (p.trace (nesting + 3) m (.object o :: rest) M) =
        (m, 0) :: (m, 1) :: [0, 1, 2, 3, 4, 5].map fun k => (guard, k) := by
  obtain ⟨rfl, hlayout, hdepth⟩ := prepare_layout hr
  obtain ⟨hfirst, hsecond⟩ := fetch?_prelude call body
  rw [← Layout.fetch?_ofBody, ← hlayout] at hfirst hsecond
  have hgiven : (M.push (p.frameFor (Emission.guarded call body) (.object o :: rest))).Given r.depth
      (.object o :: rest) := by
    rw [hdepth]
    simp [Machine.Given, Machine.push, Program.frameFor]
  have hsize : (M.push (p.frameFor (Emission.guarded call body) (.object o :: rest))).frames.size < Program.maxFrames := by
    simpa [Machine.push] using hroom
  have hrequest : r.request p.graph (.call call) { stack := [.object o] }
      ((M.push (p.frameFor (Emission.guarded call body) (.object o :: rest))).withSteps (M.steps + 2)) =
      .ok (.call guard [.object o] ({} : Operands).pushResult)
        ((M.push (p.frameFor (Emission.guarded call body) (.object o :: rest))).withSteps (M.steps + 2)) := by
    have hcount : (p.graph.method call.method).argumentCount = 1 := by rw [hcall]; exact hg.count
    simp only [request, bind, EStateM.bind, hcount]
    rw [← hcall]
    exact rfl
  obtain ⟨hthrows, hexecuted⟩ := Program.HasGuard.throws
    (M := (M.push (p.frameFor (Emission.guarded call body) (.object o :: rest))).withSteps (M.steps + 2)) hp hg ho hd nesting
    hsize hlimit
  have htraps : Traps p (nesting + 2) r (.exception M.nextObject)
      ((r.method, 0) :: (r.method, 1) :: [0, 1, 2, 3, 4, 5].map fun k => (guard, k)) {}
      (M.push (p.frameFor (Emission.guarded call body) (.object o :: rest)))
      (((Emission.refusal p.graph references T M).push
        (p.frameFor (Emission.guarded call body) (.object o :: rest))).withSteps (M.steps + 8)) := by
    have hfits : ∀ k < 8, M.steps + k < p.stepLimit := fun k hk => by omega
    refine .silent hgiven (hfits 0 (by decide)) hfirst rfl rfl ?_
    exact .callee (M := (M.push (p.frameFor (Emission.guarded call body) (.object o :: rest))).withSteps (M.steps + 1))
      (a := { position := 1, operands := { stack := [.object o] } }) (hfits 1 (by decide)) hsecond hfree hrequest hthrows
      hexecuted
  obtain ⟨hinvoke, hdone⟩ := htraps.invoke hown hfound (by omega) hr
  rw [Machine.pop_push] at hinvoke
  exact ⟨hinvoke, hdone⟩

end Guard

/-! ## Woven types -/

/-- the message of the exception has the name in it -/
theorem Platform.disposedMessage_names (name : String) : Platform.disposedMessage name =
    "Cannot access a disposed object.\nObject name: '" ++ name ++ "'." := rfl

/-- unless the host provides the method itself or the guard, a call of it on an object whose disposed field is set ends in a
fresh exception whose message names the type, and leaves everything else as it was; of the method, only the call of the
guard is executed -/
def Program.Refuses (p : Program) (T : TypeId) (state : WovenState) (m : MethodId) : Prop :=
  p.native? m = none → p.native? state.guard = none → ∀ o object rest nesting M, M.object? o = some object →
    (object.fieldOf p.graph state.disposed).isTrue = true → M.frames.size + 1 < Program.maxFrames →
    M.steps + 8 ≤ p.stepLimit →
    p.invoke (nesting + 3) m (.object o :: rest) M = .error (.exception M.nextObject)
      ((M.throwing Platform.alone.1.objectDisposedException
        ("Cannot access a disposed object.\nObject name: '" ++ (p.graph.type T).name.simple ++ "'.")).withSteps
          (M.steps + 8)) ∧
    executed (p.trace (nesting + 3) m (.object o :: rest) M) =
      (m, 0) :: (m, 1) :: [0, 1, 2, 3, 4, 5].map fun k => (state.guard, k)

section Woven

open Routine

variable {settings : Settings} {g : TypeGraph} {module module' : Module} {report : List (TypeId × Shape)} {p : Program}
  {t t' : TypeDef} {entry : MethodId} {fabric : Fabric} {noted : List Notice}

theorem Underway.raisesDisposed (hu : Underway g p.graph) (hn : p.Provides Platform.alone.1) :
    p.RaisesDisposed Platform.alone.1.references where
  native := hn (Platform.alone.1.objectDisposedConstructor, Native.withMessage Platform.disposedMessage)
    (by simp [Platform.natives])
  count := hu.effects.disposedConstructor

/-- the exception of the guard is the platform's, and names the type -/
theorem Underway.refusal (hu : Underway g p.graph) (T : TypeId) (M : Machine) :
    Emission.refusal p.graph Platform.alone.1.references T M = M.throwing Platform.alone.1.objectDisposedException
      ("Cannot access a disposed object.\nObject name: '" ++ (p.graph.type T).name.simple ++ "'.") := by
  have hdeclaring : (Platform.alone.2.method Platform.alone.1.references.disposedConstructor).declaring =
      Platform.alone.1.objectDisposedException := by decide +kernel
  rw [Emission.refusal, hu.method (by decide +kernel), hdeclaring, Platform.disposedMessage_names]

/-- the guard of a woven type is a method of the program -/
theorem WovenModule.guard (hw : WovenModule settings g module p.graph module' report) (hp : p.Executes module')
    (ht' : t' ∈ module'.types) (hd : Tailored settings Platform.alone.1.references g p.graph t entry fabric noted t')
    (hown : p.native? fabric.state.guard = none) :
    p.HasGuard Platform.alone.1.references t.id fabric.state.disposed fabric.state.guard where
  native := hown
  body := hw.fabricBody hp ht' hd rfl (Fabric.mem_bodies.2 .guard)
  count := by
    rw [hd.fits.state.guard.2]
    exact privateMethod_argumentCount _ _ _
  returns := by rw [hd.fits.state.guard.2]; rfl

/-- what stands behind a guard is not protected before its own first instruction -/
theorem unprotected_shifted {d : Nat} {reach : Nat → Prop} {r r' : Routine} (h : r.Shifted d reach r') {k : Nat} (hk : k < d) :
    r'.Unprotected k := by
  intro region hregion
  rw [h.regions] at hregion
  obtain ⟨region', -, rfl⟩ := List.mem_map.1 hregion
  have hstart : ¬ region'.tryStart + d ≤ k := by omega
  simp only [Region.protects, Region.shift, hstart, decide_false, Bool.false_and]

/-- an accepted body behind a guard is laid out so that nothing protects the call of the guard -/
theorem prepare_guarded_unprotected {G : TypeGraph} (guard : MethodRef) {m : MethodId} {body : Body} {depth : Nat}
    (hv : body.verify g (g.method m) = .ok depth) (hb : body.Created) (hm : G.method m = g.method m) (M : Machine) :
    ∃ r, prepare G m (Emission.guarded guard body) M = .ok r M ∧ r.Unprotected 1 := by
  obtain ⟨s, hs, -⟩ := ok_of_map hv
  obtain ⟨_, r, _, hr, hshifted, _⟩ := prepare_guarded guard hs hb hm (rfl : M.frames = M.frames)
  exact ⟨r, hr, unprotected_shifted hshifted Nat.one_lt_two⟩

/-- **What an accepted body has become behind guards** is laid out so that nothing protects the call of the first one. -/
theorem WovenModule.prepares (hw : WovenModule settings g module p.graph module' report) {m : MethodId}
    {body body' : Body} (he : (m, body) ∈ module.bodies) (hinstance : (g.method m).isStatic = false) {depth : Nat}
    (hv : body.verify g (g.method m) = .ok depth) {state : WovenState}
    (hstate : state.Fits settings Platform.alone.1.references g p.graph t.id)
    (hbehind : Relation.TransGen (Body.BehindGuard (MethodRef.onSelf p.graph state.guard)) body body') (M : Machine) :
    ∃ inner r, body' = Emission.guarded (MethodRef.onSelf p.graph state.guard) inner ∧
      prepare p.graph m body' M = .ok r M ∧ r.Unprotected 1 := by
  have hsame := hw.gains.method m (hw.coherent.declared he)
  have hcreated := hw.coherent.created _ he
  obtain ⟨inner, hinner, hlast⟩ := Relation.TransGen.tail'_iff.1 hbehind
  cases behindGuard_iff.1 hlast
  rcases Relation.reflTransGen_iff_eq_or_transGen.1 hinner with rfl | hinner
  · obtain ⟨r, hr, hfree⟩ := prepare_guarded_unprotected (MethodRef.onSelf p.graph state.guard) hv hcreated hsame M
    exact ⟨_, r, rfl, hr, hfree⟩
  · have hguard : p.graph.method (MethodRef.onSelf p.graph state.guard).method =
        Weave.privateMethod t.id settings.guardMethod [] := hstate.guard.2
    have hcount : (Weave.privateMethod t.id settings.guardMethod []).argumentCount = 1 := privateMethod_argumentCount _ _ _
    obtain ⟨hagain, hverified⟩ := Body.verify_behind hcreated (hw.gains.effects (hw.coherent.known _ he))
      (argumentCount_pos hinstance) (by rw [hguard, hcount]) (by rw [hguard]; exact resultCount_eq_zero rfl) hv hinner
    rw [← hsame] at hverified
    obtain ⟨r, hr, hfree⟩ := prepare_guarded_unprotected (MethodRef.onSelf p.graph state.guard) hverified hagain rfl M
    exact ⟨_, r, rfl, hr, hfree⟩

/-- what weaving makes of a type refuses to be used after disposal -/
theorem WovenModule.refuses (hw : WovenModule settings g module p.graph module' report) (hp : p.Executes module')
    (hn : p.Provides Platform.alone.1) (hz : (t, t') ∈ module.types.zip module'.types)
    (hd : Tailored settings Platform.alone.1.references g p.graph t entry fabric noted t') {d : MethodDef}
    (hheld : t.method? d.id = some d) (hne : d.id ≠ entry) (hrequires : RequiresGuard g settings d)
    (hverified : ∀ body, d.body = some body → ∃ depth, body.verify g (g.method d.id) = .ok depth)
    (hruns : p.Runs t' d.id) : p.Refuses t.id fabric.state d.id := by
  intro hown hguardown o object rest nesting M ho hset hroom hlimit
  obtain ⟨ht, ht'⟩ := List.of_mem_zip hz
  obtain ⟨body, hbody⟩ := Option.ne_none_iff_exists'.1 hrequires.body
  obtain ⟨depth, hv⟩ := hverified body hbody
  obtain ⟨body', hbody', hbehind⟩ := hd.guarded hheld hne hrequires hbody
  have hfound : p.body? d.id = some body' := hruns.trans hbody'
  have hu : Underway g p.graph := ⟨hw.grown, hw.gains⟩
  have hguard := hw.guard hp ht' hd hguardown
  obtain ⟨inner, r, rfl, hr, hfree⟩ := hw.prepares (Module.mem_bodies ht (List.mem_of_find?_eq_some hheld) hbody)
    hrequires.ofInstance hv hd.fits.state hbehind (M.push (p.frameFor body' (.object o :: rest)))
  rw [← hu.refusal]
  exact Program.HasGuard.guarded_throws (hu.raisesDisposed hn) hguard ho hset rfl hown hfound hr hfree nesting hroom hlimit

/-- **A guarded method on a disposed object always throws.** Take a program that runs a woven module, over a graph that
grew from the platform, where the host provides the platform's methods. For every type that was woven and every method that
it holds and that requires a guard, if the verifier accepts its body and it is the definition of this type that is run,
whatever its regions and handlers: on an object whose disposed field is set, a call ends in a fresh exception whose message
names the type. Nothing but the call of the guard and the guard is executed, and every object and every static field stays
as it was. -/
theorem weave_refuses (hg : Platform.alone.2.GrownFrom g) (hm : module.Coherent g) {diagnostics : Diagnostics}
    {outcome : Report} {woven : Session}
    (hw : Session.weave settings { graph := g, module, diagnostics } = .ok outcome woven)
    (hgraph : p.graph = woven.graph) (hp : p.Executes woven.module) (hn : p.Provides Platform.alone.1) {T : TypeId}
    {shape : Shape} (hT : (T, shape) ∈ outcome.woven) :
    ∃ t t', (t, t') ∈ module.types.zip woven.module.types ∧ t.id = T ∧ ∃ entry fabric noted,
      shape = fabric.arrangement.shape ∧ Selection.entryMethods g settings t = [entry] ∧
      Tailored settings Platform.alone.1.references g p.graph t entry fabric noted t' ∧
      ∀ d, t.method? d.id = some d → d.id ≠ entry → RequiresGuard g settings d →
        (∀ body, d.body = some body → ∃ depth, body.verify g (g.method d.id) = .ok depth) → p.Runs t' d.id →
        p.Refuses T fabric.state d.id := by
  have hturned := weave_turns hg hm hw
  rw [← hgraph] at hturned
  obtain ⟨t, t', entry, fabric, noted, hz, heq, hsole, hd⟩ := hturned.reported _ hT
  cases heq
  exact ⟨t, t', hz, rfl, entry, fabric, noted, rfl, hsole, hd, fun d hheld hne hrequires hverified hruns =>
    hturned.refuses hp hn hz hd hheld hne hrequires hverified hruns⟩

end Woven

namespace Specimen

/-- a machine with one object of the type, whose given field is set -/
def closed (disposed : FieldId) : Machine := machine.apply (.store (.field ⟨0⟩ disposed) (.int32 1))

/-- what the specimen defines for reads -/
def readDef : MethodDef := { id := read, body := some (Body.empty.append [.ldc 1, .ret]) }

theorem read_requiresGuard : RequiresGuard graph {} readDef := by
  constructor <;> decide +kernel

/-- a read of the specimen, closed, is refused -/
theorem read_refused : ∃ fabric : Fabric, program.call read [.object ⟨0⟩] (closed fabric.state.disposed) =
    .error (.exception ⟨1⟩) (((closed fabric.state.disposed).throwing Platform.alone.1.objectDisposedException
      "Cannot access a disposed object.\nObject name: 'Resource'.").withSteps 8) := by
  have hentries : ∀ t ∈ module.types, Selection.entryMethods graph {} t = [dispose] := by decide +kernel
  have hholds : ∀ t ∈ module.types, t.method? read = some readDef := by decide +kernel
  obtain ⟨t, t', hz, -, entry, fabric, noted, -, hsole, hd, hrefuses⟩ :=
    weave_refuses (p := program) grown coherent weave_ok rfl rfl (Program.ofModule_provides _ _) reported
  obtain ⟨ht, ht'⟩ := List.of_mem_zip hz
  rw [hentries t ht] at hsole
  cases hsole
  have hmem := List.mem_of_find?_eq_some (hholds t ht)
  have hverified : ∀ body, readDef.body = some body → ∃ depth, body.verify graph (graph.method read) = .ok depth :=
    fun body hbody => verified (read, body) (Module.mem_bodies ht hmem hbody)
  have hread : read ∈ t'.methods.map MethodDef.id := by
    rw [hd.ids]
    exact List.mem_append_left _ (List.mem_map_of_mem hmem)
  have hown : program.native? read = none := Option.isNone_iff_eq_none.1 (by decide +kernel)
  have hguardown : program.native? fabric.state.guard = none := by
    -- the host provides the methods of the platform only, which were there before the guard
    have hprovided : ∀ e ∈ program.natives, e.1.index < graph.methods.size := by decide +kernel
    cases hfound : program.native? fabric.state.guard with
    | none => rfl
    | some native => exact absurd (hprovided _ (mem_of_lookup hfound)) (Nat.not_lt.2 hd.fits.state.guard.1.1)
  obtain ⟨object, ho, hset⟩ := object?_store program.graph (M := machine) (o := ⟨0⟩) (f := fabric.state.disposed) rfl (.int32 1)
  have hrefused := (hrefuses readDef (hholds t ht) (by decide) read_requiresGuard hverified (program_runs ht' hread) hown
    hguardown ⟨0⟩ object [] 1021 _ ho (by rw [hset]; rfl) (show 0 + 1 < 256 by decide)
    (show 0 + 8 ≤ 1000000 by decide)).1
  have hname : (program.graph.type resource).name.simple = "Resource" := by decide +kernel
  rw [hname] at hrefused
  exact ⟨fabric, hrefused⟩

/-- a host that provides reads itself, and answers -/
def answering : Program := hosting read fun _ _ => pure (some (.int32 1))

end Specimen

/-- what a call has answered -/
def answer? : EStateM.Result Trap Machine (Option Value) → Option Value
  | .ok value _ => value
  | _ => none

/-- **A guarded method may answer** on a disposed object: where it is another definition of it that is run, and where the
host provides it. -/
theorem read_may_answer :
    Platform.alone.2.GrownFrom Specimen.graph ∧
    (Session.weave {} { graph := Specimen.graph, module := Twins.module } = .ok Twins.outcome Twins.woven ∧
      (Specimen.resource, Twins.arrangement.shape) ∈ Twins.outcome.woven ∧
      (Twins.first.method? Specimen.read = some Specimen.readDef ∧ RequiresGuard Specimen.graph {} Specimen.readDef ∧
        ∀ body, Specimen.readDef.body = some body →
          body.verify Specimen.graph (Specimen.graph.method Specimen.read) = .ok 1) ∧
      (Twins.disposed.content Twins.program.graph (.field ⟨0⟩ Twins.state.disposed)).isTrue = true ∧
      answer? (Twins.program.call Specimen.read [.object ⟨0⟩] Twins.disposed) = some (.int32 1)) ∧
    Specimen.answering.Executes Specimen.woven.module ∧ Specimen.answering.Provides Platform.alone.1 ∧
      answer? (Specimen.answering.call Specimen.read [.object ⟨0⟩] (Specimen.closed ⟨2⟩)) = some (.int32 1) :=
  ⟨Specimen.grown, ⟨Twins.weave_ok, Twins.reported, ⟨by decide +kernel, Specimen.read_requiresGuard,
    fun _ hbody => by cases hbody; decide +kernel⟩, by decide +kernel, by decide +kernel⟩, rfl,
    Specimen.hosting_provides (by decide +kernel) _, by decide +kernel⟩

end DisposalWeaver
