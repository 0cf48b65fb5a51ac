/-
Instructions of verified bodies.

A survey assigns heights by the static effect of each instruction; executing the instruction takes and leaves values of
its own accord. `request_fits` says that the two agree: whatever an instruction comes to, control goes on at a position
that the survey has recorded with the height that the stack then has. A virtual call reaches a method with as many
arguments, and is assumed to reach one that agrees on having a return value (`TypeGraph.DispatchAgrees`).
-/
import DisposalWeaver.Proofs.FrameShape
import DisposalWeaver.Proofs.Survey

namespace DisposalWeaver

/-- the argument that an instruction reads or replaces -/
def Instruction.argumentNumber? : Instruction → Option UInt16
  | .ldarg n | .starg n => some n
  | _ => none

/-- the local that an instruction reads, replaces or points to -/
def Instruction.localNumber? : Instruction → Option UInt16
  | .ldloc n | .ldloca n | .stloc n => some n
  | _ => none

/-- does every virtual call reach a method that agrees with the called one on having a return value? -/
def TypeGraph.DispatchAgrees (g : TypeGraph) : Prop :=
  ∀ t m, (g.method (g.implementation t m)).returns.isSome = (g.method m).returns.isSome

/-! ## Virtual calls -/

section VirtualCalls

open Exec

variable {g : TypeGraph} {M : Machine}

/-- a walk along bases that finds an answer other than the method itself finds one with as many arguments -/
theorem answerAlong_argumentCount (m : MethodId) (explicit : Option String) (chain : List TypeId) :
    (g.method (g.answerAlong m explicit chain)).argumentCount = (g.method m).argumentCount := by
  induction chain with
  | nil => rfl
  | cons t rest ih =>
    unfold TypeGraph.answerAlong
    split
    · rfl
    · split
      · next found hf =>
        have ha := List.find?_some hf
        simp only [TypeGraph.answers, Bool.and_eq_true, beq_iff_eq] at ha
        exact ha.1.2
      · exact ih

theorem implementation_argumentCount (t : TypeId) (m : MethodId) :
    (g.method (g.implementation t m)).argumentCount = (g.method m).argumentCount := by
  unfold TypeGraph.implementation
  split
  · exact answerAlong_argumentCount m _ _
  · rfl

theorem hostArgument_keeps (arguments : List Value) (n : Nat) :
    (liftM (Value.argument arguments n) : Exec Value).Keeps M fun _ => True := by
  unfold Value.argument
  split <;> exact ⟨rfl, by trivial⟩

/-- what answers a virtual call is what dispatch finds for the type of some object -/
theorem implementation_ends (g : TypeGraph) (M : Machine) (m : MethodId) (arguments : List Value) :
    (∀ found, M.implementation g m arguments = .ok found → ∃ t, found = g.implementation t m) ∧
      ∀ t, M.implementation g m arguments = .error t → t.isStructural = false := by
  unfold Machine.implementation Value.argument
  cases arguments[0]? with
  | none => exact ⟨fun _ h => (by cases h), fun _ h => by cases h; rfl⟩
  | some v =>
    cases v with
    | object o =>
      simp only [Value.toObject, bind, Except.bind]
      cases M.object? o with
      | none => exact ⟨fun _ h => (by cases h), fun _ h => by cases h; rfl⟩
      | some object => exact ⟨fun _ h => ⟨object.type, by cases h; rfl⟩, fun _ h => by cases h⟩
    | _ => exact ⟨fun _ h => (by cases h), fun _ h => by cases h; rfl⟩

/-- the method that answers for the first argument takes as many arguments, and returns something if the other does -/
theorem target_keeps (hd : g.DispatchAgrees) (m : MethodId) (arguments : List Value) :
    (Routine.target g m arguments).Keeps M fun found =>
      (g.method found).argumentCount = (g.method m).argumentCount ∧
        (g.method found).returns.isSome = (g.method m).returns.isSome := by
  unfold Routine.target
  split
  · have hk := keeps_lift (M := M) (implementation_ends g M m arguments).2
    refine Exec.Ends.weaken hk (fun found M' h => ⟨h.1, ?_⟩) fun t M' h => h
    obtain ⟨t, rfl⟩ := (implementation_ends g M m arguments).1 found h.2
    exact ⟨implementation_argumentCount t m, hd t m⟩
  · exact (hostArgument_keeps arguments 0).bind fun v M1 _ _ =>
      (toObject_keeps v).bind fun _ M2 _ _ => keeps_pure ⟨rfl, rfl⟩

end VirtualCalls

/-! ## Single instructions -/

/-- what passes reads and replaces only arguments that the method counts -/
theorem Body.passage_argument {g : TypeGraph} {m : MethodDecl} {body : Body} {i : Instruction} {here : Arrival}
    {p : Passage} (h : body.passage g m i here = .ok p) {n : UInt16} (hn : i.argumentNumber? = some n) :
    n.toNat < m.argumentCount := by
  cases i with
  | ldarg k | starg k =>
    cases hn
    simp only [passage.eq_def] at h
    split at h
    · cases h
    · omega
  | _ => cases hn

/-- what passes names only locals that the body has -/
theorem Body.passage_local {g : TypeGraph} {m : MethodDecl} {body : Body} {i : Instruction} {here : Arrival}
    {p : Passage} (h : body.passage g m i here = .ok p) {n : UInt16} (hn : i.localNumber? = some n) :
    n.toNat < body.locals.size := by
  cases i with
  | ldloc k | ldloca k | stloc k =>
    cases hn
    simp only [passage.eq_def] at h
    split at h
    · cases h
    · omega
  | _ => cases hn

/-- the routine runs a body with a sound survey -/
structure Routine.Verified (g : TypeGraph) (r : Routine) (body : Body) (s : Survey) : Prop where
  layout : r.layout = Layout.ofBody body
  sound : body.Sound g (g.method r.method) s
  returns : r.returnsValue = (g.method r.method).returns.isSome
  handlers : ∀ region ∈ r.regions, s.Records ⟨region.handlerStart, region.kind.entryHeight⟩

/-- control goes where the survey says -/
def Flow.Fits (m : MethodDecl) (body : Body) (s : Survey) (position : Nat) (operands : Operands) : Flow → Prop
  | .next => s.Records ⟨position + 1, operands.stack.length⟩
  | .jump t => ∃ q, body.position? t = some q ∧ s.Records ⟨q, operands.stack.length⟩
  | .leave t => ∃ q, body.position? t = some q ∧ s.Records ⟨q, 0⟩
  | .endFinally => True
  | .return value => value.isSome = m.returns.isSome

/-- what an instruction comes to agrees with the survey; a call passes enough arguments, and may be resumed with whatever
it may answer -/
def Request.Fits (g : TypeGraph) (m : MethodDecl) (body : Body) (s : Survey) (position : Nat) : Request → Prop
  | .done flow operands => flow.Fits m body s position operands
  | .call c arguments resume => (g.method c).argumentCount ≤ arguments.length ∧
    ∀ value, value.isSome = (g.method c).returns.isSome → s.Records ⟨position + 1, (resume value).stack.length⟩

section Instructions

open Exec

variable {g : TypeGraph} {M : Machine} {r : Routine} {body : Body} {s : Survey} {i : Instruction} {position : Nat}
  {operands : Operands}

theorem pushResult_length {m : MethodDecl} (operands : Operands) {value : Option Value}
    (h : value.isSome = m.returns.isSome) :
    (operands.pushResult value).stack.length = operands.stack.length + m.resultCount := by
  simp only [Operands.pushResult, MethodDecl.resultCount, ← h, List.length_append]
  cases value with
  | none => exact Nat.zero_add _
  | some v => exact Nat.add_comm _ _

/-- what the survey says about an instruction that follows the common rule -/
theorem ordinary (hr : r.Verified g body s) (hi : body.fetch? position = some i)
    (hs : s.Records ⟨position, operands.stack.length⟩) (h1 : i ≠ .ret) (h2 : ∀ t, i ≠ .leave t)
    (h3 : i ≠ .endfinally) :
    (i.stackEffect g).1 ≤ operands.stack.length ∧
    (i.isTerminal = false → ∀ k, k + (i.stackEffect g).1 = operands.stack.length + (i.stackEffect g).2 →
      s.Records ⟨position + 1, k⟩) ∧
    ∀ t, i.target? = some t → ∀ k, k + (i.stackEffect g).1 = operands.stack.length + (i.stackEffect g).2 →
      ∃ q, body.position? t = some q ∧ s.Records ⟨q, k⟩ := by
  obtain ⟨j, p, hj, hp, -, hb⟩ := hr.sound.passes _ hs
  cases hi.symm.trans hj
  have hf := Body.passage_flows hp h1 h2 h3
  have henough := hf.enough
  have hdepth := hf.depth
  simp only at henough hdepth
  refine ⟨henough, fun ht k hk => ?_, fun t ht k hk => ?_⟩
  · have hk : k = p.depth := by omega
    rw [hk]
    exact hb _ (List.mem_append_left _ (by rw [hf.onward ht]; exact List.mem_singleton.2 rfl))
  · have hk : k = p.depth := by omega
    rw [hk]
    obtain ⟨q, hq, hjump⟩ := hf.jump t ht
    exact ⟨q, hq, hb _ (List.mem_append_right _ (by rw [hjump]; exact List.mem_singleton.2 rfl))⟩

/-- **One instruction.** Executed with the height that the survey has for its position, an instruction leads where the
survey says, or ends in a trap that is not structural. -/
theorem request_fits (hd : g.DispatchAgrees) (hr : r.Verified g body s) (hi : body.fetch? position = some i)
    (hs : s.Records ⟨position, operands.stack.length⟩) :
    (r.request g i operands).Keeps M (Request.Fits g (g.method r.method) body s position) := by
  have rule := ordinary hr hi hs
  cases i with
  | nop =>
    obtain ⟨-, onward, -⟩ := rule nofun nofun nofun
    exact keeps_pure (onward rfl _ rfl)
  | ldarg n =>
    obtain ⟨-, onward, -⟩ := rule nofun nofun nofun
    exact (argument_keeps n).bind fun v M1 _ _ => keeps_pure (onward rfl _ rfl)
  | starg n =>
    obtain ⟨enough, onward, -⟩ := rule nofun nofun nofun
    exact (pop_keeps enough).bind fun e M1 _ he =>
      (setArgument_keeps n e.1).bind fun _ M2 _ _ => keeps_pure (onward rfl _ he)
  | ldloc n =>
    obtain ⟨-, onward, -⟩ := rule nofun nofun nofun
    exact (load_keeps _).bind fun v M1 _ _ => keeps_pure (onward rfl _ rfl)
  | ldloca n =>
    obtain ⟨-, onward, -⟩ := rule nofun nofun nofun
    exact keeps_pure (onward rfl _ rfl)
  | stloc n =>
    obtain ⟨enough, onward, -⟩ := rule nofun nofun nofun
    exact (pop_keeps enough).bind fun e M1 _ he =>
      (store_keeps _ e.1).bind fun _ M2 _ _ => keeps_pure (onward rfl _ he)
  | ldnull | ldc v | ldstr v =>
    obtain ⟨-, onward, -⟩ := rule nofun nofun nofun
    exact keeps_pure (onward rfl _ rfl)
  | ldfld f =>
    obtain ⟨enough, onward, -⟩ := rule nofun nofun nofun
    exact (pop_keeps enough).bind fun e M1 _ he => (toObject_keeps e.1).bind fun o M2 _ _ =>
      (field_keeps o f.field).bind fun v M3 _ _ => keeps_pure (onward rfl _ (congrArg (· + 1) he))
  | ldflda f =>
    obtain ⟨enough, onward, -⟩ := rule nofun nofun nofun
    exact (pop_keeps enough).bind fun e M1 _ he => (toObject_keeps e.1).bind fun o M2 _ _ =>
      keeps_pure (onward rfl _ (congrArg (· + 1) he))
  | stfld f =>
    obtain ⟨enough, onward, -⟩ := rule nofun nofun nofun
    have h1 : 2 ≤ operands.stack.length := enough
    exact (pop_keeps (Nat.lt_of_lt_of_le Nat.zero_lt_two h1)).bind fun e M1 _ he =>
      (pop_keeps (by omega)).bind fun e2 M2 _ he2 => (toObject_keeps e2.1).bind fun o M3 _ _ =>
        (store_keeps _ e.1).bind fun _ M4 _ _ => keeps_pure (onward rfl _ (by simp only [Instruction.stackEffect]; omega))
  | ldsfld f =>
    obtain ⟨-, onward, -⟩ := rule nofun nofun nofun
    exact (load_keeps _).bind fun v M1 _ _ => keeps_pure (onward rfl _ rfl)
  | stsfld f =>
    obtain ⟨enough, onward, -⟩ := rule nofun nofun nofun
    exact (pop_keeps enough).bind fun e M1 _ he =>
      (store_keeps _ e.1).bind fun _ M2 _ _ => keeps_pure (onward rfl _ he)
  | dup =>
    obtain ⟨enough, onward, -⟩ := rule nofun nofun nofun
    exact (pop_keeps enough).bind fun e M1 _ he => keeps_pure (onward rfl _ (congrArg (· + 2) he))
  | pop =>
    obtain ⟨enough, onward, -⟩ := rule nofun nofun nofun
    exact (pop_keeps enough).bind fun e M1 _ he => keeps_pure (onward rfl _ he)
  | add =>
    obtain ⟨enough, onward, -⟩ := rule nofun nofun nofun
    have h1 : 2 ≤ operands.stack.length := enough
    exact (pop_keeps (Nat.lt_of_lt_of_le Nat.zero_lt_two h1)).bind fun e M1 _ he =>
      (toInt32_keeps e.1).bind fun n M2 _ _ => (pop_keeps (by omega)).bind fun e2 M3 _ he2 =>
        (toInt32_keeps e2.1).bind fun k M4 _ _ =>
          keeps_pure (onward rfl _ (by simp only [Instruction.stackEffect, Operands.push, List.length_cons]; omega))
  | ceq =>
    obtain ⟨enough, onward, -⟩ := rule nofun nofun nofun
    have h1 : 2 ≤ operands.stack.length := enough
    exact (pop_keeps (Nat.lt_of_lt_of_le Nat.zero_lt_two h1)).bind fun e M1 _ he =>
      (pop_keeps (by omega)).bind fun e2 M2 _ he2 =>
        keeps_pure (onward rfl _ (by simp only [Instruction.stackEffect, Operands.push, List.length_cons]; omega))
  | call c =>
    obtain ⟨enough, onward, -⟩ := rule nofun nofun nofun
    refine (popArguments_keeps enough).bind fun e M1 _ he => keeps_pure ⟨Nat.le_of_eq he.1.symm, fun value hv => ?_⟩
    refine onward rfl _ ?_
    have hcount := pushResult_length e.2 hv
    have hpopped : e.2.stack.length + (g.method c.method).argumentCount = operands.stack.length := he.2
    simp only [Instruction.stackEffect]
    omega
  | callvirt c =>
    obtain ⟨enough, onward, -⟩ := rule nofun nofun nofun
    -- what is left to do once the receiver is settled, with or without a prefix
    have rest : ∀ (arguments : List Value) (rest : Operands) (M1 : Machine),
        arguments.length = (g.method c.method).argumentCount →
        rest.stack.length + (g.method c.method).argumentCount = operands.stack.length →
        (do
          let found ← Routine.target g c.method arguments
          return .call found arguments { rest with constrained := false }.pushResult : Exec Request).Keeps M1
            (Request.Fits g (g.method r.method) body s position) := by
      intro arguments rest M1 hlength hpopped
      refine (target_keeps hd c.method arguments).bind fun found M2 _ hfound => keeps_pure ⟨by omega, fun value hv => ?_⟩
      refine onward rfl _ ?_
      have hcount := pushResult_length { rest with constrained := false } (hv.trans hfound.2)
      simp only at hcount
      simp only [Instruction.stackEffect]
      omega
    unfold Routine.request
    refine (popArguments_keeps enough).bind fun e M1 _ he => ?_
    simp only
    split
    · exact (readReceiver_keeps e.1).bind fun arguments M2 _ ha => rest arguments e.2 M2 (ha.trans he.1) he.2
    · exact rest e.1 e.2 M1 he.1 he.2
  | constrained t =>
    obtain ⟨-, onward, -⟩ := rule nofun nofun nofun
    exact keeps_pure (onward rfl _ rfl)
  | newobj c =>
    obtain ⟨enough, onward, -⟩ := rule nofun nofun nofun
    refine (popArguments_keeps enough).bind fun e M1 _ he => ?_
    refine (allocate_keeps _).bind fun o M2 _ _ => keeps_pure ⟨?_, fun value hv => ?_⟩
    · have hlength : e.1.length = (g.method c.method).parameters.length := he.1
      rw [List.length_cons, hlength]
      unfold MethodDecl.argumentCount
      split <;> omega
    · have hpopped : e.2.stack.length + (g.method c.method).parameters.length = operands.stack.length := he.2
      exact onward rfl _ (by simp only [Instruction.stackEffect, Operands.push, List.length_cons]; omega)
  | box t =>
    obtain ⟨-, onward, -⟩ := rule nofun nofun nofun
    exact keeps_pure (onward rfl _ rfl)
  | br t =>
    obtain ⟨-, -, jump⟩ := rule nofun nofun nofun
    exact keeps_pure (jump t rfl _ rfl)
  | brtrue t =>
    obtain ⟨enough, onward, jump⟩ := rule nofun nofun nofun
    refine (pop_keeps enough).bind fun e M1 _ he => keeps_pure ?_
    cases e.1.isTrue with
    | true => exact jump t rfl _ he
    | false => exact onward rfl _ he
  | brfalse t =>
    obtain ⟨enough, onward, jump⟩ := rule nofun nofun nofun
    refine (pop_keeps enough).bind fun e M1 _ he => keeps_pure ?_
    cases e.1.isTrue with
    | true => exact onward rfl _ he
    | false => exact jump t rfl _ he
  | leave t =>
    obtain ⟨j, p, hj, hp, -, hb⟩ := hr.sound.passes _ hs
    cases hi.symm.trans hj
    obtain ⟨q, hq, rfl⟩ := Body.passage_leave hp
    exact keeps_pure ⟨q, hq, hb _ (List.mem_singleton.2 rfl)⟩
  | endfinally => exact keeps_pure trivial
  | throw =>
    obtain ⟨enough, -, -⟩ := rule nofun nofun nofun
    exact (pop_keeps enough).bind fun e M1 _ he => (toObject_keeps e.1).bind fun o M2 _ _ => keeps_throw rfl
  | ret =>
    obtain ⟨j, p, hj, hp, -, -⟩ := hr.sound.passes _ hs
    cases hi.symm.trans hj
    have hheight := (Body.passage_ret hp).1
    simp only [MethodDecl.resultCount, ← hr.returns] at hheight
    unfold Routine.request
    cases hv : r.returnsValue with
    | true =>
      simp only [hv, ↓reduceIte] at hheight ⊢
      exact (pop_keeps (by omega)).bind fun e M1 _ _ => keeps_pure (hv.symm.trans hr.returns)
    | false => exact keeps_pure (hv.symm.trans hr.returns)

end Instructions

end DisposalWeaver
