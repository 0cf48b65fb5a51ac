/-
Pointers to local variables.

A pointer to a local names the depth of a frame and the number of the local, and no more. While a body runs, its frame
is the one at its depth, with all of its locals, so such a pointer reads and writes that local and nothing else. Once the
body has returned, nothing is at that depth, and the pointer leads nowhere (`Program.pointer_within_frame`). From inside
a call a local of a frame outside changes only through a pointer that names it (`Program.outer_local_stays`).

What a pointer does not name is the call that it was made in. The next call at the same depth has its frame in the same
place, and a pointer that was kept leads to the local of the same number there (`Leak.later_local_overwritten`).
-/
import DisposalWeaver.Proofs.CarriedWork

namespace DisposalWeaver

/-! ## Reading and writing locals -/

/-- a store changes no local but the one that it names -/
theorem write_localAt? (M : Machine) (v : Value) (place : Address) (depth : Nat) (index : UInt16) :
    (M.write v place).localAt? depth index =
      if place = .variable depth index then (M.localAt? depth index).map fun _ => v else M.localAt? depth index := by
  cases place with
  | field o f => rfl
  | static f => rfl
  | «variable» depth' index' =>
    simp only [Machine.localAt?, Machine.write, Array.getElem?_modify, Address.variable.injEq]
    by_cases hdepth : depth' = depth
    · cases hframe : M.frames[depth]? with
      | none => simp
      | some frame =>
        by_cases hindex : index' = index
        · by_cases hlt : index.toNat < frame.locals.size <;> simp [hdepth, hindex, hlt]
        · have hnumber : index'.toNat ≠ index.toNat := fun h => hindex (UInt16.toNat_inj.1 h)
          simp [hdepth, hindex, hnumber]
    · simp [hdepth]

theorem missing?_variable (M : Machine) (depth : Nat) (index : UInt16) : M.missing? (.variable depth index) =
    if (M.localAt? depth index).isSome then none else some (.address (.variable depth index)) := rfl

/-- reading through a pointer to a local -/
theorem load_variable (g : TypeGraph) (M : Machine) (depth : Nat) (index : UInt16) :
    Exec.load g (.variable depth index) M = match M.localAt? depth index with
      | some v => .ok v M
      | none => .error (.invalidReference (.address (.variable depth index))) M := by
  simp only [Exec.load, Exec.reach, bind, EStateM.bind, get_run, missing?_variable]
  cases hlocal : M.localAt? depth index with
  | none => rfl
  | some v =>
    change (pure ((M.localAt? depth index).getD .null) : Exec Value) M = _
    rw [hlocal]
    rfl

/-- writing through a pointer to a local -/
theorem store_variable (M : Machine) (v : Value) (depth : Nat) (index : UInt16) :
    Exec.store (.variable depth index) v M = match M.localAt? depth index with
      | some _ => .ok () (M.write v (.variable depth index))
      | none => .error (.invalidReference (.address (.variable depth index))) M := by
  simp only [Exec.store, Exec.reach, bind, EStateM.bind, get_run, missing?_variable]
  cases M.localAt? depth index <;> rfl

/-- exchanging through a pointer to a local -/
theorem exchange_variable (declarations : Declarations) (invoke : MethodId → List Value → Exec (Option Value))
    (M : Machine) (v : Value) (depth : Nat) (index : UInt16) :
    (Native.exchange declarations [.address (.variable depth index), v]).run invoke M =
      match M.localAt? depth index with
      | some old => .ok (some old) (M.write v (.variable depth index))
      | none => .error (.invalidReference (.address (.variable depth index))) M := by
  have hexchange : Native.exchange declarations [.address (.variable depth index), v] =
      Host.swap declarations.graph (.variable depth index) v >>= fun old => pure (some old) := rfl
  rw [hexchange, Host.run_bind, Host.swap_run]
  simp only [bind, EStateM.bind, load_variable]
  cases M.localAt? depth index <;> rfl

/-- nothing is at the depth that the next frame gets -/
theorem localAt?_outside (M : Machine) (index : UInt16) : M.localAt? M.frames.size index = none := by
  simp [Machine.localAt?]

/-! ## From the first machine to every other -/

section Along

variable {allowed : Change → Prop} {depth : Nat}

/-- the relation holds between the first machine and each on the way, and the last -/
def Along (R : Machine → Machine → Prop) (M : Machine) (events : List Event) (N : Machine) : Prop :=
  (∀ e ∈ events, R M e.machine) ∧ R M N

theorem Drift.along {R : Machine → Machine → Prop} (h : Drift (fun M _ N => R M N) allowed depth) :
    Drift (Along R) allowed depth where
  refl M := ⟨nofun, h.refl M⟩
  trans {M K N events events'} hK hN := by
    have hR : ∀ {L}, R K L → R M L := fun hL => @Drift.trans _ _ _ h M K _ [] [] hK.2 hL
    refine ⟨fun e he => ?_, hR hN.2⟩
    rcases List.mem_append.1 he with he | he
    · exact hK.1 e he
    · exact hR (hN.1 e he)
  tick M := ⟨nofun, h.tick M⟩
  frame M d f hd hf := ⟨nofun, h.frame M d f hd hf⟩
  change M c hc := ⟨nofun, h.change M c hc⟩
  note e _ := ⟨fun e' he => (List.mem_singleton.1 he) ▸ h.refl _, h.refl _⟩

theorem DeepDrift.along {R : Nat → Machine → Machine → Prop} (h : DeepDrift (fun depth M _ N => R depth M N) allowed) :
    DeepDrift (fun depth => Along (R depth)) allowed where
  drift depth := (h.drift depth).along
  outside {depth depth' M events N} hd hN := by
    have hR : ∀ {L}, R depth' M L → R depth M L := fun hL => @DeepDrift.outside _ _ h _ _ M [] _ hd hL
    exact ⟨fun e he => hR (hN.1 e he), hR hN.2⟩
  push M frame := ⟨nofun, h.push M frame⟩
  pop M hM := ⟨nofun, h.pop M hM⟩

theorem along_step {R : Machine → Machine → Prop} {N : Machine} (hR : R N N) (r : Routine) (a : Activation)
    (i : Instruction) : Along R N [.step r a i N] N :=
  ⟨fun _ he => List.mem_singleton.1 he ▸ hR, hR⟩

end Along

/-! ## The frame of a body -/

/-- the frames outside the given depth are there still, with as many locals -/
def Machine.Roomy (depth : Nat) (M N : Machine) : Prop :=
  ∀ d < depth, N.frames[d]?.map (·.locals.size) = M.frames[d]?.map (·.locals.size)

/-- the number of locals stays, whoever changes the frame -/
theorem drift_roomy (depth depth' : Nat) : Drift (fun M _ N => M.Roomy depth N) (fun _ => True) depth' where
  refl _ _ _ := rfl
  trans h h' d hd := (h' d hd).trans (h d hd)
  tick _ _ _ := rfl
  frame M d' f _ hf d _ := by
    rw [Array.getElem?_modify]
    split
    · cases M.frames[d]? <;> simp [hf]
    · rfl
  change M c _ d hd := by
    have h := drift_outline (d + 1) |>.change M c trivial d (Nat.lt_succ_self d)
    simpa [Frame.outline, Option.map_map, Function.comp_def] using congrArg (Option.map Prod.snd) h
  note _ _ _ _ := rfl

theorem deepDrift_roomy : DeepDrift (fun depth M _ N => M.Roomy depth N) fun _ => True where
  drift depth := drift_roomy depth depth
  outside hd h d hlt := h d (Nat.lt_of_lt_of_le hlt hd)
  push M frame d hd := by simp [Machine.push, Array.getElem?_push, Nat.ne_of_lt hd]
  pop M _ d hd := by
    simp only [Machine.pop, Array.getElem?_pop]
    rw [if_pos (by omega)]

section Frames

variable {p : Program} {nesting : Nat} {m : MethodId} {body : Body} {arguments : List Value} {M : Machine}

/-- **While a body runs its frame stays** at its depth, with all of its locals. -/
theorem frame_stays {e : Event}
    (he : e ∈ p.enterEvents (p.invoker (p.invoke nesting)) (p.trace nesting) m body arguments M) :
    e.machine.frames[M.frames.size]?.map (·.locals.size) = some body.locals.size := by
  by_cases hroom : Program.maxFrames ≤ M.frames.size
  · rw [Program.enterEvents, if_pos hroom] at he
    cases he
  have hpush : (M.push (p.frameFor body arguments)).frames.size = M.frames.size + 1 := Array.size_push _
  -- calls inside are made above the frame, and the body itself keeps the numbers of locals of all frames
  have hcalls : CallsDrift (Along (Machine.Roomy (M.frames.size + 1))) (fun _ => True)
      (M.push (p.frameFor body arguments)).frames.size (p.invoke nesting) (p.trace nesting) :=
    (trace_drifts deepDrift_roomy.along (fun r a i N _ _ => along_step (fun _ _ => rfl) r a i) nesting).within
      deepDrift_roomy.along (Nat.le_of_eq hpush.symm)
  rw [Program.enterEvents, if_neg hroom] at he
  have hrun : Along (Machine.Roomy (M.frames.size + 1)) (M.push (p.frameFor body arguments))
      (Routine.runEvents (p.invoker (p.invoke nesting)) (p.trace nesting) p.stepLimit m body
        (M.push (p.frameFor body arguments)))
      ((Routine.run (p.invoker (p.invoke nesting)) p.stepLimit m body).final (M.push (p.frameFor body arguments))) :=
    (run_drifts (drift_roomy (M.frames.size + 1) 0).along (invoke_size p nesting) hcalls (Nat.zero_le _)
      (fun r a i N _ _ _ _ => along_step (fun _ _ => rfl) r a i) p.stepLimit
      fun e _ => e.allowed_of_all fun _ => trivial).1
  rw [hrun.1 e he M.frames.size (Nat.lt_succ_self _)]
  simp [Machine.push, Program.frameFor]

/-- a body leaves as many frames as it finds -/
theorem enter_size (p : Program) (nesting : Nat) (m : MethodId) (body : Body) (arguments : List Value) (M : Machine) :
    ((p.enter (p.invoker (p.invoke nesting)) m body arguments).final M).frames.size = M.frames.size := by
  by_cases hroom : Program.maxFrames ≤ M.frames.size
  · unfold Exec.final
    rw [enter_eq, if_pos hroom]
  · have hpush : (M.push (p.frameFor body arguments)).frames.size = M.frames.size + 1 := Array.size_push _
    have hsize : KeepsSize (p.invoker (p.invoke nesting)).invoke := invoke_size p nesting
    have hrun : ((Routine.run (p.invoker (p.invoke nesting)) p.stepLimit m body).final
        (M.push (p.frameFor body arguments))).frames.size = (M.push (p.frameFor body arguments)).frames.size :=
      (run_drifts drift_size hsize (callsDrift_untold hsize) (Nat.zero_le _) (fun _ _ _ _ _ _ _ _ => rfl)
        p.stepLimit fun e _ => e.allowed_of_all fun _ => trivial).2
    rw [enter_final p _ m body arguments hroom, Machine.pop, Array.size_pop, hrun, hpush]
    rfl

end Frames

/-- **A pointer to a local leads to it while its frame is active, and nowhere once the frame is gone.** Through the
whole run of a body, the depth and the number of a local are those of a place that is there: reading it answers what it
holds, and writing it changes it and no other local. After the run, reading and writing it trap. -/
theorem Program.pointer_within_frame (p : Program) (nesting : Nat) (m : MethodId) (body : Body) (arguments : List Value)
    (M : Machine) (i : UInt16) (hi : i.toNat < body.locals.size) :
    (∀ e ∈ p.enterEvents (p.invoker (p.invoke nesting)) (p.trace nesting) m body arguments M,
      ∃ v, e.machine.localAt? M.frames.size i = some v ∧
        Exec.load p.graph (.variable M.frames.size i) e.machine = .ok v e.machine ∧
        ∀ w, ∃ N, Exec.store (.variable M.frames.size i) w e.machine = .ok () N ∧
          N.localAt? M.frames.size i = some w ∧
          ∀ d k, (d, k) ≠ (M.frames.size, i) → N.localAt? d k = e.machine.localAt? d k) ∧
      ∀ N, N = (p.enter (p.invoker (p.invoke nesting)) m body arguments).final M →
        Exec.load p.graph (.variable M.frames.size i) N =
          .error (.invalidReference (.address (.variable M.frames.size i))) N ∧
        ∀ w, Exec.store (.variable M.frames.size i) w N =
          .error (.invalidReference (.address (.variable M.frames.size i))) N := by
  refine ⟨fun e he => ?_, fun N hN => ?_⟩
  · obtain ⟨frame, hframe, hsize⟩ := Option.map_eq_some_iff.1 (frame_stays he)
    obtain ⟨v, hv⟩ : ∃ v, frame.locals[i.toNat]? = some v := ⟨_, Array.getElem?_eq_getElem (hsize ▸ hi)⟩
    have hlocal : e.machine.localAt? M.frames.size i = some v := by
      rw [Machine.localAt?, hframe, Option.bind_some, hv]
    refine ⟨v, hlocal, by rw [load_variable, hlocal], fun w => ⟨e.machine.write w (.variable M.frames.size i), ?_⟩⟩
    refine ⟨?_, ?_, ?_⟩
    · rw [store_variable, hlocal]
    · rw [write_localAt?, if_pos rfl, hlocal, Option.map_some]
    · intro d k hother
      rw [write_localAt?, if_neg fun h => hother (by cases h; rfl)]
  · have hnone : N.localAt? M.frames.size i = none := by
      rw [← enter_size p nesting m body arguments M, ← hN]
      exact localAt?_outside N i
    exact ⟨by rw [load_variable, hnone], fun w => by rw [store_variable, hnone]⟩

/-! ## Locals of the frames outside -/

section Outside

variable {d : Nat} {i : UInt16}

/-- a local deeper outside than the given depth is as it was -/
def Machine.Holds (d : Nat) (i : UInt16) (depth : Nat) (M N : Machine) : Prop :=
  d < depth → N.localAt? d i = M.localAt? d i

/-- a change that does not store to the local -/
def Change.Spares (d : Nat) (i : UInt16) (c : Change) : Prop := ∀ v, c ≠ .store (.variable d i) v

/-- no instruction makes such a store: its own are to fields and statics, and otherwise to its own frame -/
theorem makes_spares {instruction : Instruction} {stack : List Value} {c : Change} (h : instruction.Makes stack c) :
    c.Spares d i := by
  intro v
  unfold Instruction.Makes at h
  split at h
  · rw [h]; simp
  · rw [h]; simp
  · obtain ⟨t, rfl⟩ := h
    simp
  · exact h.elim

theorem deepDrift_holds (d : Nat) (i : UInt16) :
    DeepDrift (fun depth M _ N => M.Holds d i depth N) (Change.Spares d i) where
  drift depth := {
    refl := fun _ _ => rfl
    trans := fun h h' hd => (h' hd).trans (h hd)
    tick := fun _ _ => rfl
    frame := fun M d' f hle _ hd => by
      simp only [Machine.localAt?, Array.getElem?_modify]
      rw [if_neg (by omega)]
    change := fun M c hc _ => by
      cases c with
      | store place v =>
        change (M.write v place).localAt? d i = _
        rw [write_localAt?, if_neg fun h => hc v (by rw [h])]
      | _ => rfl
    note := fun _ _ _ => rfl }
  outside hle h hd := h (Nat.lt_of_lt_of_le hd hle)
  push M frame hd := by simp [Machine.localAt?, Machine.push, Array.getElem?_push, Nat.ne_of_lt hd]
  pop M _ hd := by
    simp only [Machine.localAt?, Machine.pop, Array.getElem?_pop]
    rw [if_pos (by omega)]

/-- **From inside a call a local outside changes only through a pointer that names it.** If no change that the host
makes during the call is a store to the local, it is at any time what it was. -/
theorem Program.outer_local_stays (p : Program) (nesting : Nat) (c : MethodId) (arguments : List Value) (M : Machine)
    (hd : d < M.frames.size)
    (hspared : ∀ e ∈ p.trace nesting c arguments M, ∀ change K, e = .work change K → change.Spares d i) :
    (∀ e ∈ p.trace nesting c arguments M, e.machine.localAt? d i = M.localAt? d i) ∧
      ((p.invoke nesting c arguments).final M).localAt? d i = M.localAt? d i := by
  have hallowed : ∀ e ∈ p.trace nesting c arguments M, e.Allowed (Change.Spares d i) := by
    intro e he
    cases e with
    | work change K => exact hspared _ he change K rfl
    | step r a instruction K => exact fun change hmakes => makes_spares hmakes
    | _ => trivial
  obtain ⟨hevents, hend⟩ := trace_drifts (deepDrift_holds d i).along
    (fun r a i N _ _ => along_step (fun _ => rfl) r a i) nesting c arguments M hallowed
  exact ⟨fun e he => hevents e he hd, hend hd⟩

end Outside

/-! ## A pointer that is kept -/

namespace Leak

/-- a type with four static methods: `Leak`, `Use`, `Main` and, provided by the host, `Exchange` -/
def graph : TypeGraph :=
  let (t, g) := TypeGraph.empty.addType (.root ⟨"Locals"⟩ TypeFlags.public_)
  let place : Parameter := { name := ⟨"place"⟩, type := .byRef (.named t) }
  let value : Parameter := { name := ⟨"value"⟩, type := .named t }
  let method (name : MemberName) (parameters : List Parameter) (returns : TypeRef) : MethodDecl :=
    { declaring := t, name, flags := MethodFlags.static, parameters, returns := some returns }
  let (_, g) := g.addMethod (method ⟨"Leak"⟩ [] place.type)
  let (_, g) := g.addMethod (method ⟨"Use"⟩ [place] value.type)
  let (_, g) := g.addMethod (method ⟨"Main"⟩ [] value.type)
  (g.addMethod (method ⟨"Exchange"⟩ [place, value] value.type)).2

/-- answers a pointer to its local -/
def leak : Body := { Body.empty.append [.ldloca 0, .ret] with locals := #[.named ⟨0⟩] }

/-- has 7 exchanged through its argument, and answers its own local, which it never stores to -/
def use : Body :=
  { Body.empty.append [.ldarg 0, .ldc 7, .call (.direct graph ⟨3⟩), .pop, .ldloc 0, .ret] with locals := #[.named ⟨0⟩] }

def main : Body := Body.empty.append [.call (.direct graph ⟨0⟩), .call (.direct graph ⟨1⟩), .ret]

def program : Program where
  graph := graph
  rootFinalizer := ⟨0⟩
  bodies := [(⟨0⟩, leak), (⟨1⟩, use), (⟨2⟩, main)]
  natives := [(⟨3⟩, Native.exchange)]

/-- the pointer outlives the call that it was made in, and the exchange changes a local of the call that came after -/
theorem later_local_overwritten : program.call ⟨2⟩ [] {} = .ok (some (.int32 7)) { steps := 11 } := by
  with_unfolding_all rfl

end Leak

end DisposalWeaver
