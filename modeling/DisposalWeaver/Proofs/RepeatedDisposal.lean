/-
Disposal that was done before.

Once the signal of an object is up, whoever disposes of it is turned away by the escape check: the call returns, it calls no
hook and disposes of nothing, and all that it leaves behind is the mark that the object needs no finalizer
(`HasGate.refuses`, `refuses_through`). With what is known of signals and entries, `weave_disposes_once` says so of every type
of a woven module whose own entry point is run; another one may throw (`second_disposal_throws`).
-/
import DisposalWeaver.Proofs.RefinedDisposal
import DisposalWeaver.Proofs.SingleDisposal
import DisposalWeaver.Proofs.StoredFields

namespace DisposalWeaver

/-! ## Storing what is there -/

theorem Cells.store_same {f : FieldId} {v : Value} {entries : List (FieldId × Value)} (h : entries.lookup f = some v) :
    Cells.store f v entries = entries := by
  induction entries with
  | nil => cases h
  | cons entry rest ih =>
    obtain ⟨key, old⟩ := entry
    by_cases hsame : key = f
    · subst hsame
      rw [List.lookup_cons_self, Option.some.injEq] at h
      rw [Cells.store, if_pos rfl, h]
    · have hne : (f == key) = false := beq_eq_false_iff_ne.2 (Ne.symm hsame)
      rw [List.lookup_cons, hne] at h
      rw [Cells.store, if_neg hsame, ih h]

/-- taking a signal that is up changes nothing -/
theorem apply_same {g : TypeGraph} {M : Machine} {o : ObjectRef} {f : FieldId} (h : M.content g (.field o f) = .int32 1) :
    M.apply (.store (.field o f) (.int32 1)) = M := by
  cases ho : M.object? o with
  | none =>
    simp only [Machine.content, ho, Option.elim_none] at h
    cases h
  | some object =>
    rw [content_object ho, Object.fieldOf] at h
    have hget : object.fields.get? f = some (.int32 1) := by
      cases hget : object.fields.get? f with
      | some v => rw [hget] at h; exact congrArg some h
      | none =>
        rw [hget, Option.getD_none, Value.defaultFor] at h
        split at h <;> cases h
    have hset : object.fields.set f (.int32 1) = object.fields := congrArg Cells.mk (Cells.store_same hget)
    have hheap : M.heap.modify o.index (fun object => { object with fields := object.fields.set f (.int32 1) }) = M.heap := by
      refine Array.ext_getElem? fun k => ?_
      rw [Array.getElem?_modify]
      split
      · next hk =>
        subst hk
        rw [show M.heap[o.index]? = some object from ho, Option.map_some, hset]
      · rfl
    simp only [Machine.apply, Machine.write, hheap]

/-! ## Calls on the way -/

/-- the method that is called, where one is -/
def Event.callee? : Event → Option MethodId
  | .call m _ _ => some m
  | _ => none

/-- the methods that are called, one after another -/
def callees (events : List Event) : List MethodId := events.filterMap Event.callee?

section Natives

variable {p : Program} {x : MethodId} {nesting : Nat} {K : Machine} {values : List Value}

/-- a native that has nothing called is called itself, and that is all -/
theorem native_calls {native : Native} (hn : p.native? x = some native)
    (hcallless : (native p.toDeclarations values).Callless) : callees (p.trace (nesting + 1) x values K) = [x] := by
  simp only [Program.trace, hn]
  refine congrArg (x :: ·) (List.filterMap_eq_nil_iff.2 fun e he => ?_)
  obtain ⟨c, N, rfl⟩ := hcallless.quiet e he
  rfl

theorem Host.callless_mark (o : ObjectRef) (mark : Mark) (f : Unit → Host (Option Value)) (hf : ∀ w, (f w).Callless) :
    (Host.mark o mark >>= f).Callless := by
  intro M
  simp only
  cases M.object? o with
  | some object => exact hf ()
  | none => trivial

/-- a note about an object that exists -/
theorem mark_there {mark : Mark} {o : ObjectRef} {object : Object} (hn : p.native? x = some (Native.marking mark))
    (ho : K.object? o = some object) : p.invoke (nesting + 1) x [.object o] K = .ok none (K.apply (.mark o mark)) := by
  have hrun : p.invoke (nesting + 1) x [.object o] =
      ((Host.mark o mark).run (p.invoke nesting) >>= fun _ => pure none) := by
    refine Eq.trans ?_ (Host.run_bind (Host.mark o mark) fun _ => pure none)
    simp only [Program.invoke, hn]
    rfl
  rw [hrun, Host.mark_run]
  simp only [Exec.object, bind, EStateM.bind, get_run, ho]
  rfl

end Natives

/-! ## Runs that return nothing -/

section Quiet

variable {p : Program} {nesting : Nat} {r : Routine} {called called' : List MethodId} {M K N : Machine} {k k' : Nat}
  {stack stack' arguments : List Value} {i : Instruction}

/-- from the activation on, the routine calls these methods, returns nothing and leaves the machine -/
structure Quietly (p : Program) (nesting : Nat) (r : Routine) (called : List MethodId) (a : Activation) (M N : Machine) :
    Prop where
  ends : r.go (p.invoker (p.invoke nesting)) p.stepLimit a M = .ok none N
  calls : callees (r.goEvents (p.invoker (p.invoke nesting)) (p.trace nesting) p.stepLimit a M) = called

namespace Quietly

theorem silent (hM : M.Given r.depth arguments) (hlimit : M.steps < p.stepLimit) (hi : r.layout.fetch? k = some i)
    {flow : Flow} (h : i.silent? r.depth arguments stack = some (flow, stack'))
    (hk : Routine.landing r.layout k flow = some k')
    (hrest : Quietly p nesting r called { position := k', operands := { stack := stack' } } (M.withSteps (M.steps + 1)) N) :
    Quietly p nesting r called { position := k, operands := { stack } } M N := by
  have hc : CountsUp (p.invoker (p.invoke nesting)).invoke := trace_steps p nesting
  refine ⟨(Routine.go_silent hc hlimit hM hi h hk).trans hrest.ends, ?_⟩
  rw [Routine.goEvents_silent hc hlimit hM hi h hk]
  exact hrest.calls

theorem call {m : MethodRef} (values : List Value) (hlimit : M.steps < p.stepLimit)
    (hi : r.layout.fetch? k = some (.call m)) (hr : r.Unprotected k)
    (hm : (p.graph.method m.method).argumentCount = values.length) {v : Option Value}
    (hv : p.invoke nesting m.method values (M.withSteps (M.steps + 1)) = .ok v K)
    (hcalls : callees (p.trace nesting m.method values (M.withSteps (M.steps + 1))) = called')
    (hrest : Quietly p nesting r called { position := k + 1, operands := { stack := v.toList ++ stack } } K N) :
    Quietly p nesting r (called' ++ called) { position := k, operands := { stack := values.reverse ++ stack } } M N := by
  have hc : CountsUp (p.invoker (p.invoke nesting)).invoke := trace_steps p nesting
  have hv' : (p.invoker (p.invoke nesting)).invoke m.method values (M.withSteps (M.steps + 1)) = .ok v K := hv
  constructor
  · rw [Routine.go_call hc hlimit values hi hr hm, hv']
    exact hrest.ends
  · rw [Routine.goEvents_call hc hlimit values hi hr hm, hv', ← hcalls, ← hrest.calls]
    exact List.filterMap_append

theorem ret (hlimit : M.steps < p.stepLimit) (hi : r.layout.fetch? k = some .ret) (hret : r.returnsValue = false) :
    Quietly p nesting r [] { position := k, operands := { stack } } M (M.withSteps (M.steps + 1)) := by
  have hc : CountsUp (p.invoker (p.invoke nesting)).invoke := trace_steps p nesting
  refine ⟨Routine.go_ret hc hlimit hi hret, ?_⟩
  rw [Routine.goEvents_ret hc hlimit hi hret]
  rfl

/-- a method without regions that returns quietly -/
theorem invoke {m : MethodId} {body : Body} {code : List Instruction} (hn : p.native? m = none) (hb : p.body? m = some body)
    (hholds : body.Holds code) (hroom : M.frames.size < Program.maxFrames)
    (h : Quietly p nesting (Routine.ofCode p.graph m body M.frames.size) called {} (M.push (p.frameFor body arguments)) N) :
    p.invoke (nesting + 1) m arguments M = .ok none N.pop ∧
      callees (p.trace (nesting + 1) m arguments M) = m :: called := by
  constructor
  · rw [Program.invoke]
    simp only [hn, hb]
    rw [Routine.enter_code p _ m hholds arguments hroom, Exec.withFrame, h.ends]
  · rw [Program.trace]
    simp only [hn, hb]
    rw [Routine.enterEvents_code p _ _ m hholds arguments hroom, ← h.calls]
    rfl

end Quietly

end Quiet

/-! ## Turned away -/

section Refused

variable {p : Program} {references : References} {state : WovenState} {gate : MethodId} {body : Body}
  {work : List Instruction} {o : ObjectRef} {rest : List Value} {nesting : Nat} {M : Machine}

theorem there_of_one {g : TypeGraph} {f : FieldId} (h : M.content g (.field o f) = .int32 1) :
    ∃ object, M.object? o = some object := by
  cases ho : M.object? o with
  | some object => exact ⟨object, rfl⟩
  | none =>
    simp only [Machine.content, ho, Option.elim_none] at h
    cases h

/-- **The escape check turns away** whoever finds the signal up: the call returns and leaves everything as it was. -/
theorem Program.HasGate.refuses (nesting : Nat) (rest : List Value) (hg : p.HasGate references state gate body work)
    (hn : p.native? gate = none)
    (hreturns : (p.graph.method gate).returns = none) (hup : M.content p.graph (.field o state.signaled) = .int32 1)
    (hroom : M.frames.size < Program.maxFrames) (hsteps : M.steps + 6 ≤ p.stepLimit) :
    p.invoke (nesting + 2) gate (.object o :: rest) M = .ok none (M.withSteps (M.steps + 6)) ∧
      callees (p.trace (nesting + 2) gate (.object o :: rest) M) = [gate, references.exchangeInt32] := by
  have hcode := hg.gated.escape
  have hgiven : ∀ steps, ((M.push (p.frameFor body (.object o :: rest))).withSteps steps).Given M.frames.size
      (.object o :: rest) := Routine.given_push p body (.object o :: rest)
  obtain ⟨object, hobject⟩ := there_of_one hup
  have hexchange : ∀ steps, p.invoke (nesting + 1) references.exchangeInt32
      [.address (.field o state.signaled), .int32 1] ((M.push (p.frameFor body (.object o :: rest))).withSteps steps) =
        .ok (some (.int32 1)) ((M.push (p.frameFor body (.object o :: rest))).withSteps steps) := fun steps => by
    have hthere : ((M.push (p.frameFor body (.object o :: rest))).withSteps steps).missing?
        (.field o state.signaled) = none := by
      have hsame : ((M.push (p.frameFor body (.object o :: rest))).withSteps steps).object? o = M.object? o := rfl
      simp only [Machine.missing?, hsame, hobject, Option.isSome_some, ↓reduceIte]
    have hcontent : ((M.push (p.frameFor body (.object o :: rest))).withSteps steps).content p.graph
        (.field o state.signaled) = .int32 1 := hup
    rw [exchange_there hg.exchange hthere, hcontent, apply_same hcontent]
  have hcalls : ∀ K, callees (p.trace (nesting + 1) references.exchangeInt32
      [.address (.field o state.signaled), .int32 1] K) = [references.exchangeInt32] := fun K =>
    native_calls hg.exchange (Host.callless_exchange p.graph _ _ _ fun _ => trivial)
  have hquiet : Quietly p (nesting + 1) (Routine.ofCode p.graph gate body M.frames.size)
      ([references.exchangeInt32] ++ []) {}
      (M.push (p.frameFor body (.object o :: rest)))
      ((M.push (p.frameFor body (.object o :: rest))).withSteps (M.steps + 6)) := by
    have hlimit : ∀ k < 6, M.steps + k < p.stepLimit := fun k hk => by omega
    refine .silent (hgiven _) (hlimit 0 (by decide)) (hcode.fetch 0 rfl) rfl rfl ?_
    refine .silent (hgiven _) (hlimit 1 (by decide)) (hcode.fetch 1 rfl) rfl rfl ?_
    refine .silent (hgiven _) (hlimit 2 (by decide)) (hcode.fetch 2 rfl) rfl rfl ?_
    refine .call [.address (.field o state.signaled), .int32 1] (hlimit 3 (by decide)) (hcode.fetch 3 rfl)
      (ofCode_unprotected p.graph gate body _ 3) hg.count (hexchange _) (hcalls _) ?_
    refine .silent (hgiven _) (hlimit 4 (by decide)) (hcode.fetch 4 rfl) rfl rfl ?_
    exact .ret (hlimit 5 (by decide)) (hcode.fetch 5 rfl) (ofCode_returns hreturns body _)
  have hpop := Machine.pop_push M (M.steps + 6) (p.frameFor body (.object o :: rest))
  rw [← hpop]
  exact hquiet.invoke hn hg.code hg.gated.holds hroom

/-- **So does an entry point that goes through the routine**, but it marks the object as one that needs no finalizer. -/
theorem Program.HasGate.refuses_through {entry r : MethodId} (nesting : Nat) (rest : List Value)
    (hg : p.HasGate references state r body work)
    (hp : p.Serves references) (hn : p.native? r = none) (hreturns : (p.graph.method r).returns = none)
    (hcount : (p.graph.method r).argumentCount = 2) (hnentry : p.native? entry = none)
    (hentry : p.body? entry = some (Emission.entryThroughRoutine p.graph references r))
    (hvoid : (p.graph.method entry).returns = none) (hup : M.content p.graph (.field o state.signaled) = .int32 1)
    (hroom : M.frames.size + 1 < Program.maxFrames) (hsteps : M.steps + 12 ≤ p.stepLimit) :
    p.invoke (nesting + 3) entry (.object o :: rest) M =
        .ok none ((M.apply (.mark o .suppressed)).withSteps (M.steps + 12)) ∧
      callees (p.trace (nesting + 3) entry (.object o :: rest) M) =
        [entry, r, references.exchangeInt32, references.suppressFinalize] := by
  have hholds := Emission.entryThroughRoutine_holds p.graph references r
  have hcode := Layout.has_ofBody hholds
  have hfree := ofCode_unprotected p.graph entry (Emission.entryThroughRoutine p.graph references r) M.frames.size
  have hret := ofCode_returns hvoid (Emission.entryThroughRoutine p.graph references r) M.frames.size
  have hgiven : ∀ steps, ((M.push (p.frameFor (Emission.entryThroughRoutine p.graph references r)
      (.object o :: rest))).withSteps steps).Given M.frames.size (.object o :: rest) :=
    Routine.given_push p _ (.object o :: rest)
  obtain ⟨object, hobject⟩ := there_of_one hup
  have hrefused := Program.HasGate.refuses (M := (M.push (p.frameFor (Emission.entryThroughRoutine p.graph references r)
    (.object o :: rest))).withSteps (M.steps + 3)) nesting [.int32 1] hg hn hreturns hup
    (by simpa [Machine.push] using hroom) (by simp only [Machine.withSteps_steps]; omega)
  have hmarked : p.invoke (nesting + 2) references.suppressFinalize [.object o]
      ((M.push (p.frameFor (Emission.entryThroughRoutine p.graph references r) (.object o :: rest))).withSteps
        (M.steps + 11)) = .ok none (((M.push (p.frameFor (Emission.entryThroughRoutine p.graph references r)
          (.object o :: rest))).withSteps (M.steps + 11)).apply (.mark o .suppressed)) :=
    mark_there hp.suppressFinalize hobject
  have hquiet : Quietly p (nesting + 2) (Routine.ofCode p.graph entry (Emission.entryThroughRoutine p.graph references r)
      M.frames.size) ([r, references.exchangeInt32] ++ ([references.suppressFinalize] ++ [])) {}
      (M.push (p.frameFor (Emission.entryThroughRoutine p.graph references r) (.object o :: rest)))
      (((M.push (p.frameFor (Emission.entryThroughRoutine p.graph references r) (.object o :: rest))).apply
        (.mark o .suppressed)).withSteps (M.steps + 12)) := by
    have hlimit : ∀ k < 12, M.steps + k < p.stepLimit := fun k hk => by omega
    refine .silent (hgiven _) (hlimit 0 (by decide)) (hcode.fetch 0 rfl) rfl rfl ?_
    refine .silent (hgiven _) (hlimit 1 (by decide)) (hcode.fetch 1 rfl) rfl rfl ?_
    refine .call [.object o, .int32 1] (hlimit 2 (by decide)) (hcode.fetch 2 rfl) (hfree 2) hcount hrefused.1 hrefused.2 ?_
    refine .silent (hgiven _) (hlimit 9 (by decide)) (hcode.fetch 3 rfl) rfl rfl ?_
    refine .call [.object o] (hlimit 10 (by decide)) (hcode.fetch 4 rfl) (hfree 4) hp.effects.suppressFinalize.1 hmarked
      (native_calls hp.suppressFinalize (Host.callless_mark o .suppressed _ fun _ => trivial)) ?_
    exact .ret (hlimit 11 (by decide)) (hcode.fetch 5 rfl) hret
  have hpop : (((M.push (p.frameFor (Emission.entryThroughRoutine p.graph references r) (.object o :: rest))).apply
      (.mark o .suppressed)).withSteps (M.steps + 12)).pop = (M.apply (.mark o .suppressed)).withSteps (M.steps + 12) :=
    Machine.pop_push (M.apply (.mark o .suppressed)) (M.steps + 12) _
  rw [← hpop]
  exact hquiet.invoke hnentry hentry hholds (by omega)

end Refused

/-! ## Signals -/

/-- the signal is down or up, if the object is there -/
def Machine.Signs (g : TypeGraph) (o : ObjectRef) (f : FieldId) (M : Machine) : Prop :=
  ∀ object, M.object? o = some object → object.fieldOf g f = .int32 0 ∨ object.fieldOf g f = .int32 1

section Signs

variable {g : TypeGraph} {o : ObjectRef} {f : FieldId} {M N : Machine} {c : Change}

/-- signals are down on new objects, and raising a signal leaves it up -/
theorem Machine.Signs.apply (hdown : Value.defaultFor g (g.field f).type = .int32 0) (hM : M.Signs g o f)
    (hc : c.Raises (.field o f)) : (M.apply c).Signs g o f := by
  intro object' ho'
  cases ho : M.object? o with
  | some object =>
    obtain ⟨object'', ho'', hf''⟩ := rises_apply (g := g) hc object ho
    cases ho'.symm.trans ho''
    rcases hf'' with hf'' | hf''
    · rw [hf'']
      exact hM object ho
    · exact .inr hf''
  | none =>
    have habsent : M.heap.size ≤ o.index := Array.getElem?_eq_none_iff.1 ho
    have hsame : ∀ (k : Nat) (change : Object → Object), (M.heap.modify k change)[o.index]? = none := fun k change =>
      Array.getElem?_eq_none_iff.2 (by rw [Array.size_modify]; exact habsent)
    cases c with
    | store place v =>
      cases place with
      | field o1 f1 => exact absurd ho' (by simp [Machine.object?, Machine.apply, Machine.write, hsame])
      | static f1 => exact absurd (show M.object? o = _ from ho') (by simp [ho])
      | «variable» depth index => exact absurd (show M.object? o = _ from ho') (by simp [ho])
    | allocate t =>
      rw [Machine.object?, Machine.apply, Array.getElem?_push] at ho'
      split at ho'
      · cases ho'
        exact .inl hdown
      · exact absurd (show M.object? o = _ from ho') (by simp [ho])
    | mark o1 mark => exact absurd ho' (by simp [Machine.object?, Machine.apply, hsame])
    | record values => exact absurd (show M.object? o = _ from ho') (by simp [ho])

theorem deepDrift_signs (hdown : Value.defaultFor g (g.field f).type = .int32 0) (o : ObjectRef) :
    DeepDrift (fun _ => Path fun M N => M.Rises g o f N ∧ (M.Signs g o f → N.Signs g o f))
      (Change.Raises (.field o f)) :=
  deepDrift_path (fun M => ⟨M.rises_refl, id⟩) (fun h h' => ⟨h.1.trans h'.1, h'.2 ∘ h.2⟩) (fun M _ => ⟨M.rises_refl, id⟩)
    (fun M => ⟨M.rises_refl, id⟩) fun _ _ hc => ⟨rises_apply hc, fun hM => hM.apply hdown hc⟩

end Signs

/-! ## Woven types -/

/-- what the entry point leaves behind when it is turned away -/
def Arrangement.dismissed (o : ObjectRef) (M : Machine) : Arrangement → Machine
  | .shared _ _ _ _ => M.apply (.mark o .suppressed)
  | _ => M

/-- the methods that are called then, one after another -/
def Arrangement.dismissal (references : References) (entry : MethodId) : Arrangement → List MethodId
  | .shared r _ _ _ => [entry, r, references.exchangeInt32, references.suppressFinalize]
  | _ => [entry, references.exchangeInt32]

/-- objects of a type are disposed of at most once, as long as the host stores nothing but 1 to their signals. Where the
entry point has the escape check itself, or is called, it has to be the definition of this type that is run. -/
structure Program.DisposesOnce (p : Program) (references : References) (t' : TypeDef) (entry : MethodId)
    (fabric : Fabric) : Prop where
  /-- from event to event, the signal of an object stays as it is or goes from 0 to 1 -/
  signal : ∀ {α : Type} (work : Host α) (M : Machine) (o : ObjectRef),
    (∀ e ∈ p.history work M, e.Signals (.field o fabric.state.signaled)) →
    Path (fun M N => M.Rises p.graph o fabric.state.signaled N ∧
        (M.Signs p.graph o fabric.state.signaled → N.Signs p.graph o fabric.state.signaled))
      M (p.history work M) ((p.perform work).final M)
  /-- what is behind the escape check is entered once, or not at all if the signal is up -/
  once : (fabric.arrangement.gate entry = entry → p.Runs t' entry) → ∀ {α : Type} (work : Host α) (M : Machine)
    (o : ObjectRef), (∀ e ∈ p.history work M, e.Signals (.field o fabric.state.signaled)) →
    entries (fabric.arrangement.gate entry) o (p.history work M) + M.signal p.graph o fabric.state.signaled ≤ 1
  /-- while the signal is up, the entry point returns without calling a hook or disposing of anything, unless the host
  provides the code itself -/
  refused : (p.graph.method entry).returns = none → p.Runs t' entry → p.native? entry = none →
    p.native? (fabric.arrangement.gate entry) = none → ∀ o rest nesting M,
    M.content p.graph (.field o fabric.state.signaled) = .int32 1 → M.frames.size + 1 < Program.maxFrames →
    M.steps + 12 ≤ p.stepLimit →
    (∃ steps, p.invoke (nesting + 3) entry (.object o :: rest) M =
      .ok none ((fabric.arrangement.dismissed o M).withSteps steps)) ∧
    callees (p.trace (nesting + 3) entry (.object o :: rest) M) = fabric.arrangement.dismissal references entry

section Woven

variable {settings : Settings} {g h : TypeGraph} {module module' : Module} {report : List (TypeId × Shape)} {p : Program}
  {t t' : TypeDef} {entry : MethodId} {fields : List FieldId} {fabric : Fabric} {noted : List Notice}

/-- integers are 0 before anything is stored -/
theorem Underway.int32_default (hu : Underway g h) :
    Value.defaultFor h (.named Platform.alone.1.references.int32) = .int32 0 := by
  have halone : Platform.alone.2.isValueType Platform.alone.1.references.int32 = true := by decide +kernel
  have hbase : ∀ base, (Platform.alone.2.type Platform.alone.1.references.int32).base = some base →
      base.index < Platform.alone.2.types.size := by decide +kernel
  have hvalue : h.isValueType Platform.alone.1.references.int32 = true := by
    rw [hu.gains.isValueType, hu.grown.grows.isValueType _ (by decide +kernel) hbase, halone]
  rw [Value.defaultFor, TypeGraph.isValueTypeRef, hvalue]
  rfl

/-- **The method that takes the signal is a gate.** -/
theorem WovenModule.hasGate (hw : WovenModule settings g module p.graph module' report) (hp : p.Executes module')
    (hn : p.Provides Platform.alone.1) (ht' : t' ∈ module'.types)
    (hd : Tailored settings Platform.alone.1.references g p.graph t entry fabric noted t')
    (hruns : fabric.arrangement.gate entry = entry → p.Runs t' entry) :
    ∃ body work, p.HasGate Platform.alone.1.references fabric.state (fabric.arrangement.gate entry) body work := by
  have hserves := Underway.serves ⟨hw.grown, hw.gains⟩ hn
  have hgate : ∃ body work, p.body? (fabric.arrangement.gate entry) = some body ∧
      body.Gated p.graph Platform.alone.1.references fabric.state work := by
    cases ha : fabric.arrangement with
    | direct =>
      have hentry := (hruns (by rw [ha]; rfl)).entryBody hd rfl
      rw [ha] at hentry
      obtain ⟨work, hgated⟩ := Emission.simpleEntry_gated p.graph Platform.alone.1.references fabric.state _
      exact ⟨_, work, hentry, hgated⟩
    | managed m =>
      have hentry := (hruns (by rw [ha]; rfl)).entryBody hd rfl
      rw [ha] at hentry
      obtain ⟨work, hgated⟩ := Emission.managedEntry_gated p.graph Platform.alone.1.references fabric.state m
      exact ⟨_, work, hentry, hgated⟩
    | shared r m u f =>
      obtain ⟨work, hgated⟩ := Emission.routine_gated p.graph Platform.alone.1.references fabric.state m u
      have hroutine : p.body? r = some (Emission.routine p.graph Platform.alone.1.references fabric.state m u) :=
        hw.fabricBody hp ht' hd rfl (Fabric.mem_bodies.2 (.routine ha))
      exact ⟨_, work, hroutine, hgated⟩
  obtain ⟨body, work, hbody, hgated⟩ := hgate
  exact ⟨body, work, hbody, hgated, hserves.exchangeInt32, hserves.effects.exchangeInt32.1⟩

/-- no body of a woven module names the signal of a type in a store -/
theorem WovenModule.spares (hw : WovenModule settings g module p.graph module' report) (hp : p.Executes module')
    (hz : (t, t') ∈ module.types.zip module'.types)
    (hd : Tailored settings Platform.alone.1.references g p.graph t entry fabric noted t') :
    p.Spares fabric.state.signaled := by
  rintro r ⟨body, -, hbody, hlayout⟩ k f hk heq
  rw [hlayout] at hk
  exact (hw.stores hz hd (hp.mem hbody) k f hk).1 heq

/-- what happens during calls is paid for by the signal -/
theorem Program.HasGate.calls {references : References} {state : WovenState} {gate : MethodId} {body : Body}
    {work : List Instruction} (hg : p.HasGate references state gate body work) (o : ObjectRef) (nesting : Nat) :
    DeepCalls (fun _ M events N => entries gate o events + M.signal p.graph o state.signaled ≤
      N.signal p.graph o state.signaled) (Change.Raises (.field o state.signaled)) (p.invoke nesting)
      (p.trace nesting) := by
  have hS := deepDrift_entries p.graph gate o state.signaled
  refine calls_drift hS (fun m body' _ hbody => ?_) nesting
  by_cases hm : m = gate
  · subst hm
    cases hbody.symm.trans hg.code
    exact hg.drifts o
  · refine body_drifts hS fun r a i N hr _ _ => ?_
    have hother : Event.enters gate o (.step r a i N) = false := by simp [Event.enters, hr, hm]
    rw [entries_one hother]
    exact Nat.le_of_eq (Nat.zero_add _)

theorem Machine.signal_le_one (g : TypeGraph) (o : ObjectRef) (f : FieldId) (M : Machine) : M.signal g o f ≤ 1 := by
  unfold Machine.signal
  split <;> omega

/-- what weaving makes of a type disposes of its objects once -/
theorem WovenModule.disposesOnce (hw : WovenModule settings g module p.graph module' report) (hp : p.Executes module')
    (hn : p.Provides Platform.alone.1) (hz : (t, t') ∈ module.types.zip module'.types)
    (hd : Tailored settings Platform.alone.1.references g p.graph t entry fabric noted t') :
    p.DisposesOnce Platform.alone.1.references t' entry fabric := by
  have hu : Underway g p.graph := ⟨hw.grown, hw.gains⟩
  have ht' := (List.of_mem_zip hz).2
  have hspares := hw.spares hp hz hd
  have hdown : Value.defaultFor p.graph (p.graph.field fabric.state.signaled).type = .int32 0 := by
    rw [hd.fits.state.signaled.2]
    exact hu.int32_default
  constructor
  case signal =>
    intro α work M o hsignals
    exact history_drifts (deepDrift_signs hdown o)
      (trace_drifts (deepDrift_signs hdown o) fun _ _ _ N _ _ => ⟨⟨N.rises_refl, id⟩, N.rises_refl, id⟩) work
      (hspares.allowed hsignals)
  case once =>
    intro hruns α work M o hsignals
    obtain ⟨body, code, hg⟩ := hw.hasGate hp hn ht' hd hruns
    have hdrift := history_drifts (deepDrift_entries p.graph (fabric.arrangement.gate entry) o fabric.state.signaled)
      (hg.calls o) work (hspares.allowed hsignals)
    exact hdrift.trans (Machine.signal_le_one ..)
  case refused =>
    intro hvoid hruns hentry hgate o rest nesting M hup hroom hsteps
    obtain ⟨body, code, hg⟩ := hw.hasGate hp hn ht' hd fun _ => hruns
    have hbody := hruns.entryBody hd rfl
    cases ha : fabric.arrangement with
    | shared r m u f =>
      rw [ha] at hg hgate hbody
      have hr := (hd.fits.routine r (by rw [ha]; rfl)).2
      have hreturns : (p.graph.method r).returns = none := by rw [hr]; rfl
      have hcount : (p.graph.method r).argumentCount = 2 := by
        rw [hr]
        exact privateMethod_argumentCount _ _ _
      have hthrough := Program.HasGate.refuses_through nesting rest hg (hu.serves hn) hgate hreturns hcount hentry
        hbody hvoid hup hroom hsteps
      exact ⟨⟨_, hthrough.1⟩, hthrough.2⟩
    | direct | managed m =>
      rw [ha] at hg hgate
      have hrefused := Program.HasGate.refuses (nesting + 1) rest hg hgate hvoid hup (by omega) (by omega)
      exact ⟨⟨_, hrefused.1⟩, hrefused.2⟩

/-- **Disposal happens at most once.** Take a program that runs a woven module, over a graph that grew from the platform,
where the host provides the platform's methods. For every type that was woven and every object, over any history in which
the host stores nothing but 1 to the signal of the object: the signal only goes from 0 to 1, and what is behind the escape
check is entered at most once, and not at all if the signal was up before. And whoever calls the entry point while the
signal is up, at any point, is turned away: the call returns, only the check itself is called, and nothing changes but the
count of instructions, and for a type with a routine the mark that the object needs no finalizer. Where it is the entry
point that is run, it is the one that this type holds, and the host does not provide it. -/
theorem weave_disposes_once (hg : Platform.alone.2.GrownFrom g) (hm : module.Coherent g) {diagnostics : Diagnostics}
    {outcome : Report} {woven : Session}
    (hw : Session.weave settings { graph := g, module, diagnostics } = .ok outcome woven)
    (hgraph : p.graph = woven.graph) (hp : p.Executes woven.module) (hn : p.Provides Platform.alone.1)
    {T : TypeId} {shape : Shape} (hT : (T, shape) ∈ outcome.woven) :
    ∃ t t', (t, t') ∈ module.types.zip woven.module.types ∧ t.id = T ∧ ∃ entry fabric noted,
      shape = fabric.arrangement.shape ∧ Selection.entryMethods g settings t = [entry] ∧
      Tailored settings Platform.alone.1.references g p.graph t entry fabric noted t' ∧
      p.DisposesOnce Platform.alone.1.references t' entry fabric := by
  have hturned := weave_turns hg hm hw
  rw [← hgraph] at hturned
  obtain ⟨t, t', entry, fabric, noted, hz, heq, hsole, hd⟩ := hturned.reported _ hT
  cases heq
  exact ⟨t, t', hz, rfl, entry, fabric, noted, rfl, hsole, hd, hturned.disposesOnce hp hn hz hd⟩

end Woven

namespace Specimen

/-- an object of the specimen is disposed of once, and its entry point, which is run as the type holds it, turns away whoever
comes later -/
theorem disposed_once : ∃ fabric t', fabric.arrangement.shape = .managedAndUnmanaged ⟨19⟩ release ∧
    program.Runs t' dispose ∧ program.DisposesOnce Platform.alone.1.references t' dispose fabric := by
  have hentries : ∀ t ∈ module.types, Selection.entryMethods graph {} t = [dispose] := by decide +kernel
  obtain ⟨t, t', hz, -, entry, fabric, noted, hshape, hsole, hd, honce⟩ :=
    weave_disposes_once (p := program) grown coherent weave_ok rfl rfl (Program.ofModule_provides _ _) reported
  rw [hentries t (List.of_mem_zip hz).1] at hsole
  cases hsole
  exact ⟨fabric, t', hshape.symm, program_runs (List.of_mem_zip hz).2 hd.holds_entry, honce⟩

/-! ### Where a second disposal is not turned away -/

/-- the program of the specimen with a host that provides one more method -/
def hosting (m : MethodId) (native : Native) : Program := { program with natives := (m, native) :: program.natives }

theorem hosting_provides {m : MethodId} (hm : m ∉ program.natives.map Prod.fst) (native : Native) :
    (hosting m native).Provides Platform.alone.1 := by
  have hplatform : (program.natives.map Prod.fst).Nodup := by decide +kernel
  have hkeys : ((hosting m native).natives.map Prod.fst).Nodup := List.nodup_cons.2 ⟨hm, hplatform⟩
  exact fun e he => lookup_of_mem hkeys (List.mem_cons_of_mem _ he)

/-- a host that provides the entry point itself, and throws the object -/
def overridden : Program := hosting dispose fun _ _ => .fail (.exception ⟨0⟩)

/-- a machine with one object whose signal is up -/
def signaled : Machine := machine.apply (.store (.field ⟨0⟩ ⟨1⟩) (.int32 1))

end Specimen

/-- the exception that a call has ended in -/
def thrown? : EStateM.Result Trap Machine (Option Value) → Option ObjectRef
  | .error (.exception e) _ => some e
  | _ => none

/-- **A second disposal may throw**, though the signal is up: where it is another definition of the entry point that is
run, and where the host provides it. -/
theorem second_disposal_throws :
    Platform.alone.2.GrownFrom Specimen.graph ∧
    (Session.weave {} { graph := Specimen.graph, module := Twins.module } = .ok Twins.outcome Twins.woven ∧
      (Specimen.resource, Twins.arrangement.shape) ∈ Twins.outcome.woven ∧
      Twins.disposed.content Twins.program.graph (.field ⟨0⟩ Twins.state.signaled) = .int32 1 ∧
      thrown? (Twins.program.call Specimen.dispose [.object ⟨0⟩] Twins.disposed) = some ⟨0⟩) ∧
    Specimen.overridden.Executes Specimen.woven.module ∧ Specimen.overridden.Provides Platform.alone.1 ∧
      Specimen.signaled.content Specimen.overridden.graph (.field ⟨0⟩ ⟨1⟩) = .int32 1 ∧
      thrown? (Specimen.overridden.call Specimen.dispose [.object ⟨0⟩] Specimen.signaled) = some ⟨0⟩ :=
  ⟨Specimen.grown, ⟨Twins.weave_ok, Twins.reported, by decide +kernel, by decide +kernel⟩, rfl,
    Specimen.hosting_provides (by decide +kernel) _, by decide +kernel, by decide +kernel⟩

end DisposalWeaver
