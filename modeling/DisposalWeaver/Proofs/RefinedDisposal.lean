/-
Generated code does what disposal is to do.

Each piece of generated code carries out its part of the work that `Disposal` tells of: the check that takes the signal,
the disposal of a field in both of its forms, the calls of hooks and the store to the disposed field. The bodies are put
together from the pieces, and `weave_refines` says of a program that runs a woven module what its generated methods do.
Where a field holds the number 0, or it is another definition of the entry point that is run, an entry point may do
something else (`entries_differ`).
-/
import DisposalWeaver.Proofs.CarriedWork
import DisposalWeaver.Proofs.VerifiedWeaving

namespace DisposalWeaver

/-! ## The pieces -/

/-- the program has what generated code relies on: the methods of the platform are declared as they should be, and provided
by the host -/
structure Program.Serves (p : Program) (references : References) : Prop where
  effects : references.Effects p.graph
  dispose : (p.graph.method references.dispose).isVirtual = true
  exchangeInt32 : p.native? references.exchangeInt32 = some Native.exchange
  exchangeReference : p.native? references.exchangeReference = some Native.exchange
  suppressFinalize : p.native? references.suppressFinalize = some (Native.marking .suppressed)

/-- the method takes nothing but the instance at hand -/
def TypeGraph.TakesNothing (g : TypeGraph) (m : MethodId) : Prop := (g.method m).argumentCount = 1

theorem silent_ldarg {depth : Nat} {arguments stack : List Value} {n : UInt16} {v : Value}
    (h : arguments[n.toNat]? = some v) : (Instruction.ldarg n).silent? depth arguments stack = some (.next, v :: stack) := by
  change arguments[n.toNat]?.map _ = _
  rw [h]
  rfl

/-- a value is tested like a condition, so nothing is done about 0 -/
theorem Disposal.release_bind {g : TypeGraph} {references : References} (v : Value) (next : Unit → Host Unit) :
    release g references (pure ()) v >>= next =
      if v.isTrue then Host.callVirtual g references.dispose [v] >>= fun _ => next () else next () := by
  have htest : v.isTrue = true ↔ v ≠ .null ∧ v ≠ .int32 0 := by
    cases v <;> simp [Value.isTrue]
  unfold release
  by_cases hnull : v = .null
  · rw [if_pos hnull, if_neg fun h => (htest.1 h).1 hnull]
    rfl
  · rw [if_neg hnull]
    by_cases hzero : v = .int32 0
    · rw [if_pos hzero, if_neg fun h => (htest.1 h).2 hzero]
      rfl
    · rw [if_neg hzero, if_pos (htest.2 ⟨hnull, hzero⟩)]
      exact Host.discard_bind _ _

theorem Disposal.managed_bind {g : TypeGraph} {m : MethodId} {o : ObjectRef} {disposing : Value}
    (next : Unit → Host Unit) : managed g (some m) o disposing >>= next =
      if disposing.isTrue then hook g m o >>= next else next () := by
  simp only [managed]
  split <;> rfl

namespace Workplace.CarriesOut

open Emission

section Pieces

variable {s : Workplace} {references : References} {o : ObjectRef} {start : Nat} {stack : List Value}
  {pending : List Pending} {known : Option (UInt16 × Value)}

variable (hp : s.program.Serves references) (hfree : ∀ k, s.routine.Unprotected k) (hthis : s.arguments[0]? = some (.object o))

/-- a silent instruction at a position -/
theorem silent {k k' : Nat} {i : Instruction} {flow : Flow} {stack' : List Value} {work : Host Unit}
    (hi : s.routine.layout.fetch? k = some i)
    (hsilent : i.silent? s.routine.depth s.arguments stack = some (flow, stack'))
    (hk : Routine.landing s.routine.layout k flow = some k')
    (hrest : s.CarriesOut known { position := k', operands := { stack := stack' }, pending } work) :
    s.CarriesOut known { position := k, operands := { stack }, pending } work := by
  have hglide : s.routine.Glides s.arguments [k] (k, stack) (k', stack') := .step hi hsilent hk (.refl _)
  exact .glide hglide hrest

theorem branchTrue {k q : Nat} {t : Handle} {v : Value} {yes no : Host Unit}
    (hi : s.routine.layout.fetch? k = some (.brtrue t)) (hq : s.routine.layout.position? t = some q)
    (hyes : s.CarriesOut known { position := q, operands := { stack }, pending } yes)
    (hno : s.CarriesOut known { position := k + 1, operands := { stack }, pending } no) :
    s.CarriesOut known { position := k, operands := { stack := v :: stack }, pending }
      (if v.isTrue then yes else no) := by
  have hsilent : (Instruction.brtrue t).silent? s.routine.depth s.arguments (v :: stack) =
      some (if v.isTrue then .jump t else .next, stack) := rfl
  by_cases hv : v.isTrue = true
  · rw [if_pos hv] at hsilent ⊢
    exact silent hi hsilent hq hyes
  · rw [if_neg hv] at hsilent ⊢
    exact silent hi hsilent rfl hno

theorem branchFalse {k q : Nat} {t : Handle} {v : Value} {yes no : Host Unit}
    (hi : s.routine.layout.fetch? k = some (.brfalse t)) (hq : s.routine.layout.position? t = some q)
    (hyes : s.CarriesOut known { position := k + 1, operands := { stack }, pending } yes)
    (hno : s.CarriesOut known { position := q, operands := { stack }, pending } no) :
    s.CarriesOut known { position := k, operands := { stack := v :: stack }, pending }
      (if v.isTrue then yes else no) := by
  have hsilent : (Instruction.brfalse t).silent? s.routine.depth s.arguments (v :: stack) =
      some (if v.isTrue then .next else .jump t, stack) := rfl
  by_cases hv : v.isTrue = true
  · rw [if_pos hv] at hsilent ⊢
    exact silent hi hsilent rfl hyes
  · rw [if_neg hv] at hsilent ⊢
    exact silent hi hsilent hq hno

include hthis

/-- a swap of an instance field of the object at hand with a constant -/
theorem exchange {f : FieldId} {v : Value} {i : Instruction} {exchange : MethodRef} {next : Value → Host Unit}
    (hcode : s.routine.layout.Has start [.ldarg 0, .ldflda (.onSelf s.program.graph f), i, .call exchange])
    (hi : ∀ stack, i.silent? s.routine.depth s.arguments stack = some (.next, v :: stack)) (hfree : ∀ k, s.routine.Unprotected k)
    (hcount : (s.program.graph.method exchange.method).argumentCount = 2)
    (hnative : s.program.native? exchange.method = some Native.exchange)
    (hrest : ∀ previous,
      s.CarriesOut none { position := start + 4, operands := { stack := previous :: stack }, pending } (next previous)) :
    s.CarriesOut known { position := start, operands := { stack }, pending }
      (Host.swap s.program.graph (.field o f) v >>= next) := by
  refine silent (hcode.fetch 0 rfl) (silent_ldarg hthis) rfl ?_
  refine silent (hcode.fetch 1 rfl) rfl rfl ?_
  refine silent (hcode.fetch 2 rfl) (hi _) rfl ?_
  exact .first (does_exchange (hcode.fetch 3 rfl) (hfree _) hcount hnative) hrest

include hp hfree

/-- **The escape check** takes the signal, and returns where it was taken before. -/
theorem escape {signaled : FieldId} {work : Host Unit}
    (hcode : s.routine.layout.Has start (escapeCode s.program.graph references signaled start))
    (hret : s.routine.returnsValue = false)
    (hrest : s.CarriesOut none { position := start + 7, operands := { stack }, pending } work) :
    s.CarriesOut known { position := start, operands := { stack }, pending }
      (Host.swap s.program.graph (.field o signaled) (.int32 1) >>= fun signal =>
        if signal.isTrue then pure () else work) := by
  have hsplit : s.routine.layout.Has start ([.ldarg 0, .ldflda (.onSelf s.program.graph signaled), .ldc 1,
      .call (.direct s.program.graph references.exchangeInt32)] ++ [.brfalse ⟨start + 6⟩, .ret, .nop]) := hcode
  refine exchange hthis hsplit.left (fun _ => rfl) hfree hp.effects.exchangeInt32.1 hp.exchangeInt32 fun signal => ?_
  refine branchFalse (hcode.fetch 4 rfl) (hcode.position 6 (by simp [escapeCode])) ?_ ?_
  · exact .ret (hcode.fetch 5 rfl) hret
  · exact silent (hcode.fetch 6 rfl) rfl rfl hrest

/-- the disposal of a field whose old value waits on the stack -/
theorem referenceField {f : FieldId}
    {next : Unit → Host Unit}
    (hcode : s.routine.layout.Has start (disposalCode s.program.graph references start (f, none)))
    (hrest : ∀ stack, s.CarriesOut none { position := start + 10, operands := { stack }, pending } (next ())) :
    s.CarriesOut known { position := start, operands := { stack }, pending }
      (Disposal.field s.program.graph references (pure ()) o f none >>= next) := by
  have hwork : Disposal.field s.program.graph references (pure ()) o f none >>= next =
      Host.swap s.program.graph (.field o f) .null >>= fun v => Disposal.release s.program.graph references (pure ()) v >>= next := by
    simp only [Disposal.field, Disposal.keep, Host.bind_assoc]
    rfl
  have hsplit : s.routine.layout.Has start ([.ldarg 0, .ldflda (.onSelf s.program.graph f), .ldnull,
      .call (exchangeOf s.program.graph references f)] ++ [.dup, .brtrue ⟨start + 8⟩, .pop, .br ⟨start + 9⟩,
      .callvirt (.direct s.program.graph references.dispose), .nop]) := hcode
  have hend : ∀ known stack, s.CarriesOut known { position := start + 9, operands := { stack }, pending } (next ()) :=
    fun known stack => silent (hcode.fetch 9 rfl) rfl rfl (.weaken (hrest stack))
  rw [hwork]
  refine exchange hthis hsplit.left (fun _ => rfl) hfree hp.effects.exchangeReference.1 hp.exchangeReference fun v => ?_
  refine silent (hcode.fetch 4 rfl) rfl rfl ?_
  rw [Disposal.release_bind]
  refine branchTrue (hcode.fetch 5 rfl) (hcode.position 8 (by simp [disposalCode])) ?_ ?_
  · exact .first (does_callvirt (m := .direct s.program.graph references.dispose) (hcode.fetch 8 rfl) (hfree _)
      hp.effects.dispose.1 hp.dispose) fun _ => hend _ _
  · refine silent (hcode.fetch 6 rfl) rfl rfl (silent (hcode.fetch 7 rfl) rfl ?_ (hend _ _))
    exact hcode.position 9 (by simp [disposalCode])

/-- the disposal of a field whose old value waits in a local -/
theorem constrainedField {f : FieldId}
    {slot : UInt16} (hslot : slot.toNat < s.count) {next : Unit → Host Unit}
    (hcode : s.routine.layout.Has start (disposalCode s.program.graph references start (f, some slot)))
    (hrest : ∀ stack, s.CarriesOut none { position := start + 12, operands := { stack }, pending } (next ())) :
    s.CarriesOut known { position := start, operands := { stack }, pending }
      (Disposal.field s.program.graph references (pure ()) o f (some (.variable s.routine.depth slot)) >>= next) := by
  have hwork : Disposal.field s.program.graph references (pure ()) o f (some (.variable s.routine.depth slot)) >>= next =
      Host.swap s.program.graph (.field o f) .null >>= fun v => Host.store (.variable s.routine.depth slot) v >>= fun _ =>
        Disposal.release s.program.graph references (pure ()) v >>= next := by
    simp only [Disposal.field, Disposal.keep, Host.bind_assoc]
  have hsplit : s.routine.layout.Has start ([.ldarg 0, .ldflda (.onSelf s.program.graph f), .ldnull,
      .call (exchangeOf s.program.graph references f)] ++ [.stloc slot, .ldloc slot, .box (s.program.graph.field f).type,
      .brfalse ⟨start + 11⟩, .ldloca slot, .constrained (s.program.graph.field f).type,
      .callvirt (.direct s.program.graph references.dispose), .nop]) := hcode
  have hend : ∀ known stack, s.CarriesOut known { position := start + 11, operands := { stack }, pending } (next ()) :=
    fun known stack => silent (hcode.fetch 11 rfl) rfl rfl (.weaken (hrest stack))
  rw [hwork]
  refine exchange hthis hsplit.left (fun _ => rfl) hfree hp.effects.exchangeReference.1 hp.exchangeReference fun v => ?_
  refine .keep (hcode.fetch 4 rfl) (hfree _) hslot (.pass (does_ldloc (hcode.fetch 5 rfl)) ?_)
  refine silent (hcode.fetch 6 rfl) rfl rfl ?_
  rw [Disposal.release_bind]
  refine branchFalse (hcode.fetch 7 rfl) (hcode.position 11 (by simp [disposalCode])) ?_ (hend _ _)
  refine silent (hcode.fetch 8 rfl) rfl rfl (.pass (does_constrained (hcode.fetch 9 rfl)) ?_)
  exact .first (does_through (m := .direct s.program.graph references.dispose) (hcode.fetch 10 rfl) (hfree _)
    hp.effects.dispose.1 hp.dispose) fun _ => hend _ _

/-- **The disposal of fields**, one after another. -/
theorem disposals
    {places : List (FieldId × Option UInt16)} (hslots : ∀ e ∈ places, ∀ slot, e.2 = some slot → slot.toNat < s.count)
    {next : Unit → Host Unit} (hcode : s.routine.layout.Has start (disposalsCode s.program.graph references start places))
    (hrest : ∀ stack, s.CarriesOut none
      { position := start + (disposalsCode s.program.graph references start places).length, operands := { stack }, pending }
      (next ())) :
    s.CarriesOut none { position := start, operands := { stack }, pending }
      (Disposal.fields s.program.graph references (pure ()) o
        (places.map fun e => (e.1, e.2.map (Address.variable s.routine.depth))) >>= next) := by
  induction places generalizing start stack with
  | nil => exact hrest stack
  | cons e rest ih =>
    obtain ⟨f, slot?⟩ := e
    have hwork : Disposal.fields s.program.graph references (pure ()) o
        (((f, slot?) :: rest).map fun e => (e.1, e.2.map (Address.variable s.routine.depth))) >>= next =
      Disposal.field s.program.graph references (pure ()) o f (slot?.map (Address.variable s.routine.depth)) >>= fun _ =>
        Disposal.fields s.program.graph references (pure ()) o
          (rest.map fun e => (e.1, e.2.map (Address.variable s.routine.depth))) >>= next := by
      simp only [List.map_cons, Disposal.fields, Host.bind_assoc]
    rw [disposalsCode] at hcode hrest
    rw [List.length_append, ← Nat.add_assoc] at hrest
    have hlater : ∀ stack, s.CarriesOut none
        { position := start + (disposalCode s.program.graph references start (f, slot?)).length, operands := { stack }, pending }
        (Disposal.fields s.program.graph references (pure ()) o
          (rest.map fun e => (e.1, e.2.map (Address.variable s.routine.depth))) >>= next) :=
      fun stack => ih (fun e he => hslots e (List.mem_cons_of_mem _ he)) hcode.right hrest
    rw [hwork]
    cases slot? with
    | none => exact referenceField hp hfree hthis hcode.left hlater
    | some slot => exact constrainedField hp hfree hthis (hslots _ List.mem_cons_self slot rfl) hcode.left hlater

/-- the fields of a type, each with the place that is planned for it -/
theorem plannedFields {fs : List FieldId}
    (hslots : s.count = slotCount s.program.graph fs) {next : Unit → Host Unit}
    (hcode : s.routine.layout.Has start (disposalsCode s.program.graph references start (plan s.program.graph 0 fs)))
    (hrest : ∀ stack, s.CarriesOut none
      { position := start + (disposalsCode s.program.graph references start (plan s.program.graph 0 fs)).length
        operands := { stack }, pending } (next ())) :
    s.CarriesOut none { position := start, operands := { stack }, pending }
      (Disposal.fields s.program.graph references (pure ()) o (Disposal.places s.program.graph s.routine.depth fs) >>= next) :=
  disposals hp hfree hthis (hslots ▸ plan_fits fs) hcode hrest

omit hp

/-- a call of a method of the object's own type -/
theorem callHook {m : MethodId} (hm : s.program.graph.TakesNothing m) {next : Unit → Host Unit}
    (hcode : s.routine.layout.Has start (callCode s.program.graph m))
    (hrest : ∀ stack, s.CarriesOut none { position := start + 2, operands := { stack }, pending } (next ())) :
    s.CarriesOut known { position := start, operands := { stack }, pending }
      (Disposal.hook s.program.graph m o >>= next) := by
  have hcall : Instruction.callTo s.program.graph (.onSelf s.program.graph m) =
      if (s.program.graph.method m).isVirtual then .callvirt (.onSelf s.program.graph m)
      else .call (.onSelf s.program.graph m) := rfl
  have hfetch := hcode.fetch 1 rfl
  rw [hcall] at hfetch
  rw [Disposal.hook, Host.discard_bind]
  refine silent (hcode.fetch 0 rfl) (silent_ldarg hthis) rfl ?_
  by_cases hv : (s.program.graph.method m).isVirtual = true
  · rw [if_pos hv] at hfetch ⊢
    exact .first (does_callvirt (m := .onSelf s.program.graph m) hfetch (hfree _) hm hv) fun _ => hrest _
  · rw [if_neg hv] at hfetch ⊢
    exact .first (does_call (m := .onSelf s.program.graph m) [.object o] hfetch (hfree _) hm) fun _ => hrest _

/-- a call of the managed hook, where disposal is explicit -/
theorem callManaged {m : MethodId} (hm : s.program.graph.TakesNothing m) {disposing : Value}
    (htold : s.arguments[1]? = some disposing) {next : Unit → Host Unit}
    (hcode : s.routine.layout.Has start (managedCode s.program.graph m start))
    (hrest : ∀ stack, s.CarriesOut none { position := start + 5, operands := { stack }, pending } (next ())) :
    s.CarriesOut known { position := start, operands := { stack }, pending }
      (Disposal.managed s.program.graph (some m) o disposing >>= next) := by
  have hcall : s.routine.layout.Has (start + 2) (callCode s.program.graph m) := hcode.left.right
  have hend : ∀ known stack, s.CarriesOut known { position := start + 4, operands := { stack }, pending } (next ()) :=
    fun known stack => silent (hcode.fetch 4 rfl) rfl rfl (.weaken (hrest stack))
  refine silent (hcode.fetch 0 rfl) (silent_ldarg htold) rfl ?_
  rw [Disposal.managed_bind]
  refine branchFalse (hcode.fetch 1 rfl) (hcode.position 4 (by simp [managedCode, callCode])) ?_ (hend _ _)
  exact callHook hfree hthis hm hcall fun stack => hend none stack

/-- the store to the disposed field ends the work -/
theorem finish {disposed : FieldId} (hcode : s.routine.layout.Has start (setDisposedCode s.program.graph disposed ++ [.ret]))
    (hret : s.routine.returnsValue = false) :
    s.CarriesOut known { position := start, operands := { stack }, pending }
      (Host.store (.field o disposed) (.int32 1)) := by
  rw [← Host.bind_unit (Host.store (.field o disposed) (.int32 1))]
  refine silent (hcode.fetch 0 rfl) (silent_ldarg hthis) rfl (silent (hcode.fetch 1 rfl) rfl rfl ?_)
  exact .first (does_stfld (hcode.fetch 2 rfl) (hfree _)) fun _ => .ret (hcode.fetch 3 rfl) hret

end Pieces

end Workplace.CarriesOut

/-! ## The bodies -/

/-- a body performs what its routine carries out -/
theorem Program.performs_of {p : Program} {m : MethodId} {body : Body} {arguments : List Value} {work : Nat → Host Unit}
    (hbody : p.body? m = some body)
    (h : ∀ nesting (M : Machine), ∃ r,
      Routine.prepare p.graph m body (M.push (p.frameFor body arguments)) =
        .ok r (M.push (p.frameFor body arguments)) ∧ r.depth = M.frames.size ∧
      Workplace.CarriesOut ⟨p, nesting, r, arguments, body.locals.size⟩ none {} (work M.frames.size)) :
    p.Performs m arguments work := by
  refine ⟨body, hbody, fun nesting M hn hroom hlimit => ?_⟩
  obtain ⟨r, hr, hdepth, hcarries⟩ := h nesting M
  have hinvoke : p.invoke (nesting + 2) m arguments M = Exec.withFrame (p.frameFor body arguments)
      (r.go (p.invoker (p.invoke (nesting + 1))) p.stepLimit {}) M := by
    rw [Program.invoke]
    simp only [hn, hbody]
    exact Routine.enter_prepared p _ m arguments hroom hr
  have hframed : (M.push (p.frameFor body arguments)).Framed r.depth arguments body.locals.size none := by
    refine ⟨?_, fun e he => by cases he⟩
    rw [hdepth]
    simp [Machine.push, Program.frameFor, Frame.outline]
  have hfinal : ((r.go (p.invoker (p.invoke (nesting + 1))) p.stepLimit {}).final
      (M.push (p.frameFor body arguments))).steps ≤ p.stepLimit := by
    unfold Exec.final at hlimit ⊢
    rw [hinvoke, Exec.withFrame] at hlimit
    cases hgo : r.go (p.invoker (p.invoke (nesting + 1))) p.stepLimit {} (M.push (p.frameFor body arguments)) <;>
      rw [hgo] at hlimit <;> exact hlimit
  have hsame : (M.push (p.frameFor body arguments)).Followed (fun _ => True) (.ahead 0)
      (M.push (p.frameFor body arguments)) :=
    ⟨rfl, by simp [Pace.ahead], tidy_all _⟩
  rw [hinvoke]
  exact (withFrame_follows (Follows.answering (hcarries _ _ hframed hsame hfinal))).same

theorem Program.performs_code {p : Program} {m : MethodId} {body : Body} {code : List Instruction}
    {arguments : List Value} {work : Nat → Host Unit} (hbody : p.body? m = some body) (hcode : body.Holds code)
    (h : ∀ nesting depth, Workplace.CarriesOut
      ⟨p, nesting, Routine.ofCode p.graph m body depth, arguments, body.locals.size⟩ none {} (work depth)) :
    p.Performs m arguments work :=
  Program.performs_of hbody fun nesting M => ⟨_, Routine.prepare_code p.graph m hcode _, by
    simp only [Routine.ofCode, Machine.push, Array.size_push, Nat.add_sub_cancel], by
    have hdepth : (M.push (p.frameFor body arguments)).frames.size - 1 = M.frames.size := by simp [Machine.push]
    rw [hdepth]
    exact h nesting M.frames.size⟩

section Bodies

open Emission Workplace

variable {p : Program} {references : References} {m : MethodId} {o : ObjectRef} {rest : List Value}
  {state : WovenState} {fields : List FieldId}

theorem ofCode_unprotected (g : TypeGraph) (m : MethodId) (body : Body) (depth k : Nat) :
    (Routine.ofCode g m body depth).Unprotected k := fun region hregion => by cases hregion

theorem ofCode_returns {g : TypeGraph} (hm : (g.method m).returns = none) (body : Body) (depth : Nat) :
    (Routine.ofCode g m body depth).returnsValue = false := by
  rw [Routine.ofCode, hm]
  rfl

variable (hp : p.Serves references) (hreturns : (p.graph.method m).returns = none)

include hp hreturns

/-- **An entry point that disposes of fields itself.** -/
theorem performs_simpleEntry (hbody : p.body? m = some (simpleEntry p.graph references state fields)) :
    p.Performs m (.object o :: rest) fun depth => Disposal.entry p.graph references (pure ()) state fields o depth .direct := by
  have hholds := simpleEntry_holds p.graph references state fields
  refine Program.performs_code hbody hholds fun nesting depth => ?_
  have hcode := Layout.has_ofBody hholds
  have hret := ofCode_returns hreturns (simpleEntry p.graph references state fields) depth
  have hfree := ofCode_unprotected p.graph m (simpleEntry p.graph references state fields) depth
  have hslots : (simpleEntry p.graph references state fields).locals.size = slotCount p.graph fields :=
    simpleEntry_locals state fields
  rw [simpleEntryCode, List.append_assoc, List.append_assoc] at hcode
  have hfields : (Layout.ofBody (simpleEntry p.graph references state fields)).Has 7
      (disposalsCode p.graph references 7 (plan p.graph 0 fields)) := hcode.right.left
  have hend : (Layout.ofBody (simpleEntry p.graph references state fields)).Has
      (7 + (disposalsCode p.graph references 7 (plan p.graph 0 fields)).length)
      (setDisposedCode p.graph state.disposed ++ [.ret]) := hcode.right.right
  refine CarriesOut.escape hp hfree rfl hcode.left hret ?_
  exact CarriesOut.plannedFields hp hfree rfl hslots hfields fun stack => CarriesOut.finish hfree rfl hend hret

/-- **A managed hook that is made for fields.** -/
theorem performs_derivedHook (hbody : p.body? m = some (derivedHook p.graph references fields)) :
    p.Performs m (.object o :: rest) (Disposal.derivedHook p.graph references (pure ()) fields o) := by
  have hholds := derivedHook_holds p.graph references fields
  refine Program.performs_code hbody hholds fun nesting depth => ?_
  have hcode := Layout.has_ofBody hholds
  have hret := ofCode_returns hreturns (derivedHook p.graph references fields) depth
  have hfree := ofCode_unprotected p.graph m (derivedHook p.graph references fields) depth
  have hslots : (derivedHook p.graph references fields).locals.size = slotCount p.graph fields :=
    derivedHook_locals fields
  have hfields : (Layout.ofBody (derivedHook p.graph references fields)).Has 0
      (disposalsCode p.graph references 0 (plan p.graph 0 fields)) := hcode.left
  rw [Disposal.derivedHook, ← Host.bind_unit (Disposal.fields p.graph references (pure ()) o _)]
  exact CarriesOut.plannedFields hp hfree rfl hslots hfields fun stack => .ret (hcode.right.fetch 0 rfl) hret

/-- **An entry point that calls the managed hook.** -/
theorem performs_managedEntry {managed : MethodId} (hm : p.graph.TakesNothing managed)
    (hbody : p.body? m = some (managedEntry p.graph references state managed)) :
    p.Performs m (.object o :: rest)
      fun depth => Disposal.entry p.graph references (pure ()) state fields o depth (.managed managed) := by
  have hholds := managedEntry_holds p.graph references state managed
  refine Program.performs_code hbody hholds fun nesting depth => ?_
  have hcode := Layout.has_ofBody hholds
  have hret := ofCode_returns hreturns (managedEntry p.graph references state managed) depth
  have hfree := ofCode_unprotected p.graph m (managedEntry p.graph references state managed) depth
  rw [managedEntryCode, List.append_assoc, List.append_assoc] at hcode
  refine CarriesOut.escape hp hfree rfl hcode.left hret ?_
  exact CarriesOut.callHook hfree rfl hm hcode.right.left fun stack => CarriesOut.finish hfree rfl hcode.right.right hret

/-- **The routine that entry point and finalizer share.** -/
theorem performs_routine {managed : Option MethodId} {unmanaged : MethodId} {disposing : Value}
    (hm : ∀ hook, managed = some hook → p.graph.TakesNothing hook)
    (hu : p.graph.TakesNothing unmanaged)
    (hbody : p.body? m = some (routine p.graph references state managed unmanaged)) :
    p.Performs m (.object o :: disposing :: rest)
      fun _ => Disposal.routine p.graph state managed unmanaged o disposing := by
  have hholds := routine_holds p.graph references state managed unmanaged
  refine Program.performs_code hbody hholds fun nesting depth => ?_
  have hcode := Layout.has_ofBody hholds
  have hret := ofCode_returns hreturns (routine p.graph references state managed unmanaged) depth
  have hfree := ofCode_unprotected p.graph m (routine p.graph references state managed unmanaged) depth
  rw [routineCode, List.append_assoc, List.append_assoc, List.append_assoc] at hcode
  refine CarriesOut.escape hp hfree rfl hcode.left hret ?_
  rw [Host.bind_assoc]
  cases managed with
  | none =>
    exact CarriesOut.callHook hfree rfl hu hcode.right.right.left fun stack =>
      CarriesOut.finish hfree rfl hcode.right.right.right hret
  | some hook =>
    refine CarriesOut.callManaged hfree rfl (hm hook rfl) rfl hcode.right.left fun stack => ?_
    exact CarriesOut.callHook hfree rfl hu hcode.right.right.left fun stack =>
      CarriesOut.finish hfree rfl hcode.right.right.right hret

/-- **An entry point that goes through the routine.** -/
theorem performs_sharedEntry {r : MethodId} {managed finalizer : Option MethodId} {unmanaged : MethodId}
    (hr : (p.graph.method r).argumentCount = 2)
    (hbody : p.body? m = some (entryThroughRoutine p.graph references r)) :
    p.Performs m (.object o :: rest)
      fun depth => Disposal.entry p.graph references (pure ()) state fields o depth (.shared r managed unmanaged finalizer) := by
  have hholds := entryThroughRoutine_holds p.graph references r
  refine Program.performs_code hbody hholds fun nesting depth => ?_
  have hcode := Layout.has_ofBody hholds
  have hret := ofCode_returns hreturns (entryThroughRoutine p.graph references r) depth
  have hfree := ofCode_unprotected p.graph m (entryThroughRoutine p.graph references r) depth
  have hmark := hp.effects.suppressFinalize.1
  rw [Disposal.entry, Host.discard_bind, ← Host.bind_unit (Host.mark o .suppressed)]
  refine .silent (hcode.fetch 0 rfl) rfl rfl (.silent (hcode.fetch 1 rfl) rfl rfl ?_)
  refine .first (does_call (m := .onSelf p.graph r) [.object o, .int32 1] (hcode.fetch 2 rfl) (hfree _) hr) fun _ => ?_
  refine .silent (hcode.fetch 3 rfl) rfl rfl ?_
  exact .first (does_mark (m := .direct p.graph references.suppressFinalize) (hcode.fetch 4 rfl) (hfree _) hmark
    hp.suppressFinalize) fun _ => .ret (hcode.fetch 5 rfl) hret

/-- the instructions of a finalizer under its handler -/
def finalizerRegion : Region := { kind := .finally, tryStart := 0, tryEnd := 4, handlerStart := 4 }

/-- a finalizer, ready to run -/
def finalizerRoutine (p : Program) (references : References) (m r : MethodId) (depth : Nat) : Routine :=
  { Routine.ofCode p.graph m (finalizer p.graph references r) depth with regions := [finalizerRegion] }

omit hp hreturns in
theorem finalizer_placed (p : Program) (references : References) (r : MethodId) :
    (Layout.ofBody (finalizer p.graph references r)).Has 0 (finalizerCode p.graph references r) := by
  have hholds : (Body.empty.append (finalizerCode p.graph references r)).Holds (finalizerCode p.graph references r) :=
    Body.Holds.empty.append _
  have hsame : Layout.ofBody (finalizer p.graph references r) =
      Layout.ofBody (Body.empty.append (finalizerCode p.graph references r)) := rfl
  rw [hsame]
  exact Layout.has_ofBody hholds

omit hp hreturns in
theorem prepare_finalizer (r : MethodId) (M : Machine) :
    Routine.prepare p.graph m (finalizer p.graph references r) M =
      .ok (finalizerRoutine p references m r (M.frames.size - 1)) M := by
  have hcode := finalizer_placed p references r
  have hhandlers : (finalizer p.graph references r).handlers =
      [{ kind := .finally, tryStart := ⟨0⟩, tryEnd := ⟨4⟩, handlerStart := ⟨4⟩, handlerEnd := ⟨7⟩ }] := rfl
  have hstart := hcode.position 0 (by simp [finalizerCode])
  have hend := hcode.position 4 (by simp [finalizerCode])
  simp only [Nat.zero_add] at hstart hend
  simp only [Routine.prepare, hhandlers, List.mapM_cons, List.mapM_nil, Routine.region, bind, EStateM.bind,
    positionOf_ok hstart, positionOf_ok hend, pure, EStateM.pure, get_run]
  rfl

/-- **An attached finalizer.** -/
theorem performs_finalizer {r : MethodId} (hr : (p.graph.method r).argumentCount = 2)
    (hbody : p.body? m = some (finalizer p.graph references r)) :
    p.Performs m (.object o :: rest) fun _ => Disposal.finalizer references r o := by
  refine Program.performs_of hbody fun nesting M => ⟨finalizerRoutine p references m r M.frames.size, ?_, rfl, ?_⟩
  · rw [prepare_finalizer]
    simp only [Machine.push, Array.size_push, Nat.add_sub_cancel]
  have hcode := finalizer_placed p references r
  have hcount := hp.effects.objectFinalize.1
  have hret : (finalizerRoutine p references m r M.frames.size).returnsValue = false :=
    ofCode_returns hreturns (finalizer p.graph references r) M.frames.size
  have hfree : (finalizerRoutine p references m r M.frames.size).Unprotected 5 := fun region hregion => by
    rw [List.mem_singleton.1 hregion]
    rfl
  refine .silent (hcode.fetch 0 rfl) rfl rfl (.silent (hcode.fetch 1 rfl) rfl rfl ?_)
  refine .first (does_attempt (m := .onSelf p.graph r) [.object o, .int32 0] (hcode.fetch 2 rfl) hr rfl rfl rfl)
    fun outcome => ?_
  rw [Host.discard_bind]
  cases outcome with
  | ok result =>
    refine .pass (does_leave (hcode.fetch 3 rfl) (hcode.position 7 (by simp [finalizerCode]))) ?_
    refine .silent (hcode.fetch 4 rfl) rfl rfl ?_
    refine .first (does_call (m := .direct p.graph references.objectFinalize) [.object o] (hcode.fetch 5 rfl) hfree
      hcount) fun _ => ?_
    exact .pass (does_endfinally (hcode.fetch 6 rfl)) (.ret (hcode.fetch 7 rfl) hret)
  | error e =>
    refine .silent (hcode.fetch 4 rfl) rfl rfl ?_
    refine .first (does_call (m := .direct p.graph references.objectFinalize) [.object o] (hcode.fetch 5 rfl) hfree
      hcount) fun _ => ?_
    exact .reraise (hcode.fetch 6 rfl) (Nat.le_refl 1)

end Bodies

/-! ## Woven types -/

/-- the generated methods of a woven type do what disposal is to do: those that weaving adds, and the entry point where the
program runs the definition that this type holds of it; `zero` is what is done about the number 0 in a field -/
structure Program.Disposes (p : Program) (references : References) (zero : Host Unit) (t' : TypeDef) (entry : MethodId)
    (fields : List FieldId) (fabric : Fabric) : Prop where
  entry : (p.graph.method entry).returns = none → p.Runs t' entry → ∀ o rest,
    p.Performs entry (.object o :: rest) fun depth =>
      Disposal.entry p.graph references zero fabric.state fields o depth fabric.arrangement
  derived : ∀ m, fabric.derived = some m → ∀ o rest,
    p.Performs m (.object o :: rest) (Disposal.derivedHook p.graph references zero fields o)
  routine : ∀ r managed unmanaged finalizer, fabric.arrangement = .shared r managed unmanaged finalizer →
    ∀ o disposing rest, p.Performs r (.object o :: disposing :: rest) fun _ =>
      Disposal.routine p.graph fabric.state managed unmanaged o disposing
  finalizer : ∀ r managed unmanaged f, fabric.arrangement = .shared r managed unmanaged (some f) → ∀ o rest,
    p.Performs f (.object o :: rest) fun _ => Disposal.finalizer references r o

section Woven

variable {settings : Settings} {g : TypeGraph} {module : Module} {p : Program}

/-- the host provides the platform's methods -/
def Program.Provides (p : Program) (platform : Platform) : Prop :=
  ∀ e ∈ platform.natives, p.native? e.1 = some e.2

/-- a program over a graph that grew from the platform has what generated code relies on -/
theorem Underway.serves (hu : Underway g p.graph) (hn : p.Provides Platform.alone.1) :
    p.Serves Platform.alone.1.references where
  effects := hu.effects
  dispose := by
    rw [hu.method (by decide +kernel)]
    decide +kernel
  exchangeInt32 := hn (Platform.alone.1.exchangeInt32, Native.exchange) (by simp [Platform.natives])
  exchangeReference := hn (Platform.alone.1.exchangeReference, Native.exchange) (by simp [Platform.natives])
  suppressFinalize := hn (Platform.alone.1.suppressFinalize, Native.marking .suppressed) (by simp [Platform.natives])

/-- what weaving makes of a type disposes of its objects; about a 0, nothing is done -/
theorem WovenModule.disposes {module' : Module} {report : List (TypeId × Shape)}
    (hw : WovenModule settings g module p.graph module' report) (hp : p.Executes module')
    (hn : p.Provides Platform.alone.1) {t t' : TypeDef} (ht' : t' ∈ module'.types) {entry : MethodId}
    {fields : List FieldId} {fabric : Fabric} {noted : List Notice}
    (hd : Tailored settings Platform.alone.1.references g p.graph t entry fabric noted t')
    (hfields : fields = Selection.disposedFields g Platform.alone.1.references settings [] t.fields.reverse) :
    p.Disposes Platform.alone.1.references (pure ()) t' entry fields fabric := by
  have hu : Underway g p.graph := ⟨hw.grown, hw.gains⟩
  have hserves := hu.serves hn
  obtain ⟨hmanaged, hunmanaged⟩ := hu.hooks_take hd.fits hd.suits
  have hroutine : ∀ r m u f, fabric.arrangement = .shared r m u f → (p.graph.method r).argumentCount = 2 ∧
      (p.graph.method r).returns = none := fun r m u f ha => by
    rw [(hd.fits.routine r (by rw [ha]; rfl)).2]
    exact ⟨privateMethod_argumentCount _ _ _, rfl⟩
  constructor
  case entry =>
    intro hreturns hruns o rest
    have hentry := hruns.entryBody hd hfields
    cases ha : fabric.arrangement with
    | direct => exact performs_simpleEntry hserves hreturns (by rw [hentry, ha]; rfl)
    | managed m =>
      exact performs_managedEntry hserves hreturns (hmanaged m (by rw [ha]; rfl)) (by rw [hentry, ha]; rfl)
    | shared r m u f =>
      exact performs_sharedEntry hserves hreturns (hroutine r m u f ha).1 (by rw [hentry, ha]; rfl)
  case derived =>
    intro m hm o rest
    have hreturns : (p.graph.method m).returns = none := by
      rw [(hd.fits.derived m hm).2]
      rfl
    exact performs_derivedHook hserves hreturns (hw.fabricBody hp ht' hd hfields (Fabric.mem_bodies.2 (.derived hm)))
  case routine =>
    intro r managed unmanaged finalizer ha o disposing rest
    refine performs_routine hserves (hroutine r _ _ _ ha).2 (fun hook hhook => ?_) ?_
      (hw.fabricBody hp ht' hd hfields (Fabric.mem_bodies.2 (.routine ha)))
    · exact hmanaged hook (by rw [ha]; exact hhook)
    · exact hunmanaged unmanaged (by rw [ha]; rfl)
  case finalizer =>
    intro r managed unmanaged f ha o rest
    have hreturns : (p.graph.method f).returns = none := by
      rw [(hd.fits.finalizer f (by rw [ha]; rfl)).2]
    exact performs_finalizer hserves hreturns (hroutine r _ _ _ ha).1
      (hw.fabricBody hp ht' hd hfields (Fabric.mem_bodies.2 (.finalizer ha)))

/-- **Generated code refines disposal.** Take a program that runs a woven module, over a graph that grew from the platform,
where the host provides the platform's methods. For every type that was woven, the routine, the finalizer and the hook that
was made for fields do, on every object and every machine, what `Disposal` tells for the arrangement of the type, and so does
the entry point, if it returns nothing and it is the definition of this type that is run: they end in the same way, on the
same machine but for the count of instructions, whatever the hooks and the methods of the fields do, as long as no limit is
reached. The fields are those that are disposed of, from the last that is declared to the first; what is done about one that
holds the number 0 is left open. -/
theorem weave_refines (hg : Platform.alone.2.GrownFrom g) (hm : module.Coherent g) {diagnostics : Diagnostics}
    {outcome : Report} {woven : Session}
    (hw : Session.weave settings { graph := g, module, diagnostics } = .ok outcome woven)
    (hgraph : p.graph = woven.graph) (hp : p.Executes woven.module) (hn : p.Provides Platform.alone.1)
    {T : TypeId} {shape : Shape} (hT : (T, shape) ∈ outcome.woven) :
    ∃ t t', (t, t') ∈ module.types.zip woven.module.types ∧ t.id = T ∧ ∃ entry fabric noted,
      shape = fabric.arrangement.shape ∧ Selection.entryMethods g settings t = [entry] ∧
      Tailored settings Platform.alone.1.references g p.graph t entry fabric noted t' ∧
      ∃ zero, p.Disposes Platform.alone.1.references zero t' entry
        (Selection.disposedFields g Platform.alone.1.references settings [] t.fields.reverse) fabric := by
  have hturned := weave_turns hg hm hw
  rw [← hgraph] at hturned
  obtain ⟨t, t', entry, fabric, noted, hz, heq, hsole, hd⟩ := hturned.reported _ hT
  cases heq
  exact ⟨t, t', hz, rfl, entry, fabric, noted, rfl, hsole, hd, _,
    hturned.disposes hp hn (List.of_mem_zip hz).2 hd rfl⟩

end Woven

/-- a list of entries with distinct keys is looked up entry by entry -/
theorem lookup_of_mem {α β : Type} [BEq α] [LawfulBEq α] {entries : List (α × β)} (hkeys : (entries.map Prod.fst).Nodup)
    {e : α × β} (he : e ∈ entries) : entries.lookup e.1 = some e.2 := by
  induction entries with
  | nil => cases he
  | cons first rest ih =>
    rw [List.map_cons, List.nodup_cons] at hkeys
    rcases List.mem_cons.1 he with rfl | he
    · exact List.lookup_cons_self
    · have hne : (e.1 == first.1) = false := by
        rw [beq_eq_false_iff_ne]
        intro heq
        exact hkeys.1 (heq ▸ List.mem_map_of_mem he)
      rw [List.lookup_cons, hne]
      exact ih hkeys.2 he

/-- the program of a module has the platform's methods provided -/
theorem Program.ofModule_provides (g : TypeGraph) (module : Module) :
    (Program.ofModule g Platform.alone.1 module).Provides Platform.alone.1 := by
  have hkeys : (Platform.alone.1.natives.map Prod.fst).Nodup := by decide +kernel
  exact fun e he => lookup_of_mem hkeys he

namespace Specimen

/-- the specimen is disposed of as told: by its routine, by its finalizer, and by its entry point, which is run as it holds
it -/
theorem disposal_refined : ∃ fabric t' zero, fabric.arrangement.shape = .managedAndUnmanaged ⟨19⟩ release ∧
    program.Runs t' dispose ∧ program.Disposes Platform.alone.1.references zero t' dispose [inner] fabric := by
  have hentries : ∀ t ∈ module.types, Selection.entryMethods graph {} t = [dispose] := by decide +kernel
  have hfields : ∀ t ∈ module.types,
      Selection.disposedFields graph Platform.alone.1.references {} [] t.fields.reverse = [inner] := by decide +kernel
  obtain ⟨t, t', hz, -, entry, fabric, noted, hshape, hsole, hd, zero, hdisposes⟩ :=
    weave_refines (p := program) grown coherent weave_ok rfl rfl (Program.ofModule_provides _ _) reported
  obtain ⟨ht, ht'⟩ := List.of_mem_zip hz
  rw [hentries t ht] at hsole
  cases hsole
  rw [hfields t ht] at hdisposes
  exact ⟨fabric, t', zero, hshape.symm, program_runs ht' hd.holds_entry, hdisposes⟩

end Specimen

/-! ### Where an entry point does something else -/

namespace Holder

/-- a type that owns a stream, and has no hooks -/
def holder : TypeId := ⟨21⟩

def inner : FieldId := ⟨0⟩
def dispose : MethodId := ⟨16⟩

def graph : TypeGraph :=
  let (_, g) := Platform.alone.2.addType (.ofClass ⟨"Holder"⟩ Platform.alone.1.object TypeFlags.public_)
  let (_, g) := g.addField
    { declaring := holder, name := ⟨"inner"⟩, type := .named Platform.alone.1.stream, flags := FieldFlags.private_ }
  (g.addMethod { declaring := holder, name := MemberName.dispose, flags := MethodFlags.public_, returns := none }).2

def module : Module :=
  { name := "Holder"
    types := [{
      id := holder
      fields := [{ id := inner }]
      methods := [{ id := dispose, body := some (Body.empty.append [.ret]) }] }] }

theorem grown : Platform.alone.2.GrownFrom graph := .method (.field (.type .refl _ rfl rfl) _) _

def woven : Session := Session.after {} { graph, module }

def outcome : Report := Session.reported {} { graph, module }

def program : Program := Program.ofModule woven.graph Platform.alone.1 woven.module

/-- fields that weaving adds -/
def state : WovenState := { signaled := ⟨1⟩, disposed := ⟨2⟩, guard := ⟨17⟩ }

/-- a machine with one object of the type, whose field holds the number 0 -/
def zeroed : Machine := (Machine.initial.apply (.allocate holder)).apply (.store (.field ⟨0⟩ inner) (.int32 0))

end Holder

/-- has a call returned? -/
def returned (result : EStateM.Result Trap Machine (Option Value)) : Bool :=
  match result with
  | .ok _ _ => true
  | .error _ _ => false

theorem returned_of_sameEnd {x y : EStateM.Result Trap Machine (Option Value)} (h : SameEnd x y) :
    returned x = returned y := by
  cases x <;> cases y <;> first | rfl | exact h.elim

/-- a method does not do the work if its call returns where the work does not end, or the other way round -/
theorem Program.Performs.returned {p : Program} {m : MethodId} {arguments : List Value} {work : Nat → Host Unit}
    (h : p.Performs m arguments work) {body : Body} (hbody : p.body? m = some body) {M : Machine}
    (hn : p.native? m = none) (hroom : M.frames.size < Program.maxFrames) {nesting : Nat}
    (hlimit : ((p.invoke (nesting + 2) m arguments).final M).steps ≤ p.stepLimit) :
    DisposalWeaver.returned (p.invoke (nesting + 2) m arguments M) =
      DisposalWeaver.returned (Exec.withFrame (p.frameFor body arguments)
        (do (work M.frames.size).run (p.invoke (nesting + 1)); return none) M) := by
  obtain ⟨body', hbody', hsame⟩ := h
  cases hbody.symm.trans hbody'
  exact returned_of_sameEnd (hsame nesting M hn hroom hlimit)

/-- the disposal of the number 0, taken for a value -/
def Disposal.ofZero (g : TypeGraph) (references : References) : Host Unit :=
  discard (Host.callVirtual g references.dispose [.int32 0])

/-- a field that holds 0 is left at that, where a call on 0 would trap -/
theorem Holder.zero_is_spared : Session.weave {} { graph, module } = .ok outcome woven ∧
    program.body? dispose = some (Emission.simpleEntry program.graph Platform.alone.1.references state [inner]) ∧
    ¬ program.Performs dispose [.object ⟨0⟩] fun depth =>
      Disposal.entry program.graph Platform.alone.1.references (Disposal.ofZero program.graph Platform.alone.1.references)
        state [inner] ⟨0⟩ depth .direct := by
  have hbody : program.body? dispose =
      some (Emission.simpleEntry program.graph Platform.alone.1.references state [inner]) := by decide +kernel
  refine ⟨Session.weave_reported (by decide +kernel), hbody, fun h => ?_⟩
  have hsame := @Program.Performs.returned _ _ _ _ h _ hbody zeroed (by decide +kernel) (by decide) 0 (by decide +kernel)
  revert hsame
  decide +kernel

/-- where a type is listed twice, it is the second definition of the entry point that is run, and it throws -/
theorem Twins.second_is_run : Session.weave {} { graph := Specimen.graph, module } = .ok outcome woven ∧
    (Specimen.resource, arrangement.shape) ∈ outcome.woven ∧
    ¬ program.Performs Specimen.dispose [.object ⟨0⟩] fun depth =>
      Disposal.entry program.graph Platform.alone.1.references (Disposal.ofZero program.graph Platform.alone.1.references)
        state [] ⟨0⟩ depth arrangement := by
  have hbody : program.body? Specimen.dispose = some (Body.empty.append [.ldarg 0, .throw]) := by decide +kernel
  refine ⟨weave_ok, reported, fun h => ?_⟩
  have hsame := @Program.Performs.returned _ _ _ _ h _ hbody disposed (by decide +kernel) (by decide) 1 (by decide +kernel)
  revert hsame
  decide +kernel

/-- **Not every entry point does the disposal** that is told of: not where a field holds 0, and not where it is another
definition that is run. -/
theorem entries_differ : Platform.alone.2.GrownFrom Holder.graph ∧ Platform.alone.2.GrownFrom Specimen.graph ∧
    (Session.weave {} { graph := Holder.graph, module := Holder.module } = .ok Holder.outcome Holder.woven ∧
    Holder.program.body? Holder.dispose = some (Emission.simpleEntry Holder.program.graph Platform.alone.1.references
      Holder.state [Holder.inner]) ∧
    ¬ Holder.program.Performs Holder.dispose [.object ⟨0⟩] fun depth =>
      Disposal.entry Holder.program.graph Platform.alone.1.references
        (Disposal.ofZero Holder.program.graph Platform.alone.1.references) Holder.state [Holder.inner] ⟨0⟩ depth .direct) ∧
    Session.weave {} { graph := Specimen.graph, module := Twins.module } = .ok Twins.outcome Twins.woven ∧
    (Specimen.resource, Twins.arrangement.shape) ∈ Twins.outcome.woven ∧
    ¬ Twins.program.Performs Specimen.dispose [.object ⟨0⟩] fun depth =>
      Disposal.entry Twins.program.graph Platform.alone.1.references
        (Disposal.ofZero Twins.program.graph Platform.alone.1.references) Twins.state [] ⟨0⟩ depth Twins.arrangement :=
  ⟨Holder.grown, Specimen.grown, Holder.zero_is_spared, Twins.second_is_run⟩

end DisposalWeaver
