/-
Bodies behind a guard.

A guarded body has the code that it had before, two positions further down, and its regions and jumps have moved along
(`prepare_guarded`). What stands in front of it calls the guard, which does nothing but count as long as the type's
disposed field does not say otherwise (`guard_returns`), so a run of a guarded body comes to the code of its author
(`prelude_passes`).
-/
import DisposalWeaver.Proofs.FollowedCalls
import DisposalWeaver.Proofs.GuardedCode

namespace DisposalWeaver

/-! ## Guarded routines -/

section Routines

open Routine

variable {g G : TypeGraph} {m : MethodId} {guard : MethodRef} {body : Body} {s : Survey} {M M' : Machine}

theorem positionOf_ok {layout : Layout} {t : Handle} {q : Nat} (h : layout.position? t = some q) :
    positionOf layout t M = .ok q M := by
  unfold positionOf
  rw [h]
  rfl

/-- regions whose boundaries are placed move along with them -/
theorem regions_shift (M M' : Machine) (layout layout' : Layout) (d : Nat) {handlers : List Handler}
    (h : ∀ handler ∈ handlers, ∀ b ∈ handler.boundaries, ∃ q, layout.position? b = some q ∧
      layout'.position? b = some (q + d)) : ∃ regions, handlers.mapM (region layout) M = .ok regions M ∧
        handlers.mapM (region layout') M' = .ok (regions.map (Region.shift d)) M' ∧
        ∀ r ∈ regions, ∃ handler ∈ handlers, layout.position? handler.handlerStart = some r.handlerStart := by
  induction handlers with
  | nil => exact ⟨[], rfl, rfl, fun r hr => by cases hr⟩
  | cons handler rest ih =>
    obtain ⟨regions, h1, h2, h3⟩ := ih fun handler' h' => h handler' (List.mem_cons_of_mem _ h')
    have hb := h handler List.mem_cons_self
    obtain ⟨q1, hq1, hq1'⟩ := hb handler.tryStart (by simp [Handler.boundaries])
    obtain ⟨q2, hq2, hq2'⟩ := hb handler.tryEnd (by simp [Handler.boundaries])
    obtain ⟨q3, hq3, hq3'⟩ := hb handler.handlerStart (by simp [Handler.boundaries])
    refine ⟨{ kind := handler.kind, tryStart := q1, tryEnd := q2, handlerStart := q3 } :: regions, ?_, ?_, fun r hr => ?_⟩
    · rw [List.mapM_cons]
      simp only [region, bind, EStateM.bind, positionOf_ok hq1, positionOf_ok hq2, positionOf_ok hq3, pure, EStateM.pure, h1]
    · rw [List.mapM_cons]
      simp only [region, bind, EStateM.bind, positionOf_ok hq1', positionOf_ok hq2', positionOf_ok hq3', pure, EStateM.pure,
        h2, List.map_cons, Region.shift]
    · rcases List.mem_cons.1 hr with rfl | hr
      · exact ⟨handler, List.mem_cons_self, hq3⟩
      · obtain ⟨handler', hmem, hstart⟩ := h3 r hr
        exact ⟨handler', List.mem_cons_of_mem _ hmem, hstart⟩

/-- **An accepted body behind a guard** is laid out two positions further down, as far as a run can reach it. -/
theorem prepare_guarded (guard : MethodRef) (hs : body.survey g (g.method m) = .ok s) (hb : body.Created)
    (hm : G.method m = g.method m) (hframes : M'.frames = M.frames) : ∃ r r', prepare g m body M = .ok r M ∧
      prepare G m (Emission.guarded guard body) M' = .ok r' M' ∧
      r.Shifted 2 (fun k => ∃ height, s.Records ⟨k, height⟩) r' ∧ r'.layout = Layout.ofBody (Emission.guarded guard body) ∧
      r'.depth = M'.frames.size - 1 := by
  have hsound := Body.survey_sound hs
  have hplaced : ∀ {t : Handle} {q : Nat}, (Layout.ofBody body).position? t = some q →
      (Layout.ofBody (Emission.guarded guard body)).position? t = some (q + 2) := fun h => by
    rw [Layout.position?_ofBody] at h ⊢
    exact position?_guarded hb h
  obtain ⟨regions, h1, h2, h3⟩ := regions_shift M M' (Layout.ofBody body)
    (Layout.ofBody (Emission.guarded guard body)) 2 fun handler (hh : handler ∈ body.handlers) b hb' => by
      obtain ⟨q, hq⟩ := Option.isSome_iff_exists.1 ((hsound.handler handler hh).1 b hb')
      rw [← Layout.position?_ofBody] at hq
      exact ⟨q, hq, hplaced hq⟩
  refine ⟨{ method := m, layout := Layout.ofBody body, regions, depth := M.frames.size - 1,
            returnsValue := (g.method m).returns.isSome },
    { method := m, layout := Layout.ofBody (Emission.guarded guard body), regions := regions.map (Region.shift 2),
      depth := M'.frames.size - 1, returnsValue := (G.method m).returns.isSome }, ?_, ?_, ?_, rfl, rfl⟩
  · simp only [prepare, bind, EStateM.bind, h1, get_run, pure, EStateM.pure]
  · simp only [prepare, guarded_handlers, bind, EStateM.bind, h2, get_run, pure,
      EStateM.pure]
  have hpasses : ∀ k i, (∃ height, s.Records ⟨k, height⟩) → (Layout.ofBody body).fetch? k = some i →
      ∃ height p, body.passage g (g.method m) i ⟨k, height⟩ = .ok p ∧ ∀ b ∈ p.arrivals, s.Records b := by
    rintro k i ⟨height, hrecords⟩ hi
    obtain ⟨j, p, hj, hp, -, hb⟩ := hsound.passes _ hrecords
    rw [Layout.fetch?_ofBody] at hi
    cases hi.symm.trans hj
    exact ⟨height, p, hp, hb⟩
  refine { method := rfl, depth := by simp only [hframes], returns := by simp only [hm], regions := rfl, fetch := ?_,
           target := ?_, next := ?_, jump := ?_, handler := ?_ }
  · exact fun k _ => by rw [Layout.fetch?_ofBody, Layout.fetch?_ofBody, fetch?_guarded hb]
  · intro k i t hk hi ht
    obtain ⟨height, p, hp, -⟩ := hpasses k i hk hi
    obtain ⟨q, -, hq, -⟩ := Body.passage_jump hp ht
    rw [← Layout.position?_ofBody] at hq
    simp only [hplaced hq, hq, Option.map_some]
  · intro k i hk hi hterminal
    obtain ⟨height, p, hp, hrecords⟩ := hpasses k i hk hi
    obtain ⟨height', hmem⟩ := Body.passage_onward hp hterminal
    exact ⟨height', hrecords _ hmem⟩
  · intro k i t q hk hi ht hq
    obtain ⟨height, p, hp, hrecords⟩ := hpasses k i hk hi
    obtain ⟨q', height', hq', hmem⟩ := Body.passage_jump hp ht
    rw [Layout.position?_ofBody] at hq
    cases hq.symm.trans hq'
    exact ⟨height', hrecords _ hmem⟩
  · intro region hregion
    obtain ⟨handler, hmem, hstart⟩ := h3 region hregion
    obtain ⟨-, q, hq, hrecords⟩ := hsound.handler handler hmem
    rw [Layout.position?_ofBody] at hstart
    cases hstart.symm.trans hq
    exact ⟨_, hrecords⟩

end Routines

/-! ## The guard -/

section Guard

open Routine

variable {p : Program} {references : References} {m guard : MethodId} {t : TypeId} {disposed : FieldId} {M : Machine}
  {o : ObjectRef} {object : Object} {nesting : Nat}

/-- the guard of a type is a method of the program, without a result -/
structure Program.HasGuard (p : Program) (references : References) (t : TypeId) (disposed : FieldId) (guard : MethodId) :
    Prop where
  native : p.native? guard = none
  body : p.body? guard = some (Emission.guard p.graph references t disposed)
  count : (p.graph.method guard).argumentCount = 1
  returns : (p.graph.method guard).returns = none

theorem go_guard {invoker : Invoker} (hc : CountsUp invoker.invoke) {r : Routine} {limit : Nat}
    (hcode : r.layout.Has 0 (Emission.guardCode invoker.graph references t disposed)) (hret : r.returnsValue = false)
    (hM : M.Given r.depth [.object o]) (ho : M.object? o = some object)
    (hd : (object.fieldOf invoker.graph disposed).isTrue = false) (hlimit : M.steps + 4 ≤ limit) :
    r.go invoker limit {} M = .ok none (M.withSteps (M.steps + 4)) := by
  have hfirst : r.Glides [.object o] [0] (0, []) (1, [.object o]) := .step (hcode.fetch 0 rfl) rfl rfl (.refl _)
  have hlast : r.Glides [.object o] [2] (2, [object.fieldOf invoker.graph disposed]) (6, []) := by
    have hsilent : (Instruction.brfalse ⟨6⟩).silent? r.depth [.object o] [object.fieldOf invoker.graph disposed] =
        some (.jump ⟨6⟩, []) := by
      change some (if (object.fieldOf invoker.graph disposed).isTrue then Flow.next else .jump ⟨6⟩, []) = _
      rw [hd]
      rfl
    exact .step (hcode.fetch 2 rfl) hsilent (hcode.position 6 (by simp [Emission.guardCode])) (.refl _)
  refine (go_glide hc hfirst hM (by simp only [List.length_cons, List.length_nil]; omega)).trans ?_
  refine (go_ldfld (M := M.withSteps (M.steps + 1)) hc (by simp; omega) (hcode.fetch 1 rfl) ho).trans ?_
  refine (go_glide (M := M.withSteps (M.steps + 2)) hc hlast hM (by simp; omega)).trans ?_
  exact go_ret (M := M.withSteps (M.steps + 3)) hc (by simp; omega) (hcode.fetch 6 rfl) hret

/-- **The guard** does nothing but count, as long as the disposed field is not set. -/
theorem guard_returns (hg : p.HasGuard references t disposed guard) (ho : M.object? o = some object)
    (hd : (object.fieldOf p.graph disposed).isTrue = false) (hroom : M.frames.size < Program.maxFrames)
    (hlimit : M.steps + 4 ≤ p.stepLimit) :
    p.invoke (nesting + 1) guard [.object o] M = .ok none (M.withSteps (M.steps + 4)) := by
  have hholds := Emission.guard_holds p.graph references t disposed
  unfold Program.invoke
  simp only [hg.native, hg.body]
  rw [enter_code p _ guard hholds [.object o] hroom]
  have hret : (ofCode p.graph guard (Emission.guard p.graph references t disposed) M.frames.size).returnsValue = false := by
    simp only [ofCode, hg.returns, Option.isSome_none]
  have hcount : CountsUp (p.invoker (p.invoke nesting)).invoke := trace_steps p nesting
  exact Machine.withFrame_ok M _
    (go_guard hcount (Layout.has_ofBody hholds) hret (given_push p _ _ M.steps) ho hd hlimit)

/-- **A guarded body** comes to the code of its author, if its type's disposed field is not set. -/
theorem prelude_passes (hg : p.HasGuard references t disposed guard) {r : Routine} {body : Body} {call : MethodRef}
    (hcall : call.method = guard) (hlayout : r.layout = Layout.ofBody (Emission.guarded call body)) {values : List Value}
    (hM : M.Given r.depth (.object o :: values)) (ho : M.object? o = some object)
    (hd : (object.fieldOf p.graph disposed).isTrue = false) (hroom : M.frames.size < Program.maxFrames)
    (hlimit : M.steps + 6 ≤ p.stepLimit) :
    r.go (p.invoker (p.invoke (nesting + 1))) p.stepLimit {} M =
      r.go (p.invoker (p.invoke (nesting + 1))) p.stepLimit { position := 2 } (M.withSteps (M.steps + 6)) := by
  have hc : CountsUp (p.invoker (p.invoke (nesting + 1))).invoke := trace_steps p (nesting + 1)
  obtain ⟨hfirst, hsecond⟩ := fetch?_prelude call body
  rw [← Layout.fetch?_ofBody, ← hlayout] at hfirst hsecond
  have hglide : r.Glides (.object o :: values) [0] (0, []) (1, [.object o]) := .step hfirst rfl rfl (.refl _)
  have hguard : p.invoke (nesting + 1) guard [.object o] (M.withSteps (M.steps + 2)) =
      .ok none (M.withSteps (M.steps + 6)) := guard_returns hg ho hd hroom (by simp; omega)
  have hrequest : r.request (p.invoker (p.invoke (nesting + 1))).graph (.call call) { stack := [.object o] }
      (M.withSteps (M.steps + 2)) = .ok (.call guard [.object o] ({} : Operands).pushResult) (M.withSteps (M.steps + 2)) := by
    have hcount : (p.graph.method call.method).argumentCount = 1 := by rw [hcall]; exact hg.count
    simp only [request, bind, EStateM.bind, Program.invoker, hcount]
    rw [← hcall]
    exact rfl
  refine (go_glide hc hglide hM (by simp only [List.length_cons, List.length_nil]; omega)).trans ?_
  exact go_of_answer (M := M.withSteps (M.steps + 1)) (a := { position := 1, operands := { stack := [.object o] } }) hc
    (by simp; omega) hsecond hrequest hguard

end Guard

end DisposalWeaver
