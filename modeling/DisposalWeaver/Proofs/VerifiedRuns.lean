/-
Running verified bodies.

The verifier follows static stack effects along a worklist; the machine executes instructions, handlers and nested calls.
They agree: in a program whose bodies are all accepted, a run meets every instruction with the height that the survey of
its body has for that position, whatever way it took to get there.

- `Activation.Fits`: the invariant of an activation. The stack is as high as the survey says, and every jump that a
  pending `finally` handler will go on with has been recorded.
- `turn_fits`: one instruction, with handlers and exceptions, keeps the invariant; `turns_fit`, `run_keeps`,
  `invoke_keeps` go on from there to an activation, a body, and a tree of calls.
- `turnEvents_sound`, `events_sound`, `trace_sound`: the same for what happens on the way.
- `verified_run_sound`: no call ends in an empty stack or past the last instruction, and every instruction is executed
  under the conditions that the verifier has promised for it.
-/
import DisposalWeaver.Proofs.Trace
import DisposalWeaver.Proofs.VerifiedInstructions

namespace DisposalWeaver

/-! ## What is promised -/

/-- a call of the method may end like this: with a value exactly if the method returns one, and in no structural trap -/
def MethodDecl.Admits (m : MethodDecl) : Except Trap (Option Value) → Prop
  | .ok value => value.isSome = m.returns.isSome
  | .error trap => trap.isStructural = false

/-- work that ends as a call of the method may end, as long as the calls that it asks for do -/
def Host.Polite (g : TypeGraph) (m : MethodDecl) : Host (Option Value) → Prop
  | done value => m.Admits (.ok value)
  | fail trap => m.Admits (.error trap)
  | look next => ∀ machine, Polite g m (next machine)
  | work _ next => Polite g m next
  | call c _ next => ∀ outcome, (g.method c).Admits outcome → Polite g m (next outcome)

/-- does the host call every method with as many arguments as it counts? -/
def Program.Generous (p : Program) (events : List Event) : Prop :=
  ∀ m arguments machine, Event.request m arguments machine ∈ events →
    (p.graph.method m).argumentCount ≤ arguments.length

/-- the conditions under which an instruction of a verified body is executed -/
structure Routine.Safe (p : Program) (generous : Prop) (r : Routine) (a : Activation) (i : Instruction)
    (machine : Machine) (body : Body) (s : Survey) : Prop where
  /-- the routine runs the method's body, which has been accepted -/
  runs : p.body? r.method = some body
  surveyed : body.survey p.graph (p.graph.method r.method) = .ok s
  verified : body.verify p.graph (p.graph.method r.method) = .ok s.depth
  placed : body.fetch? a.position = some i
  /-- the stack is exactly as high as the survey says, and no higher than the verifier has answered -/
  height : s.heights[a.position]? = some (some a.operands.stack.length)
  depth : a.operands.stack.length ≤ s.depth
  /-- the jump target has a position -/
  target : ∀ t, i.target? = some t → (body.position? t).isSome
  /-- locals are in range, and so are arguments unless the host has left some out -/
  inRange : ∃ frame, machine.frames[r.depth]? = some frame ∧
    (∀ n, i.localNumber? = some n → n.toNat < frame.locals.size) ∧
    (generous → ∀ n, i.argumentNumber? = some n → n.toNat < frame.arguments.length)

/-- what is promised of an event: the boundaries of the regions of a called body have positions, and an instruction is
executed under its conditions -/
def Event.Sound (p : Program) (generous : Prop) : Event → Prop
  | .call m _ _ => ∀ body, p.body? m = some body →
    ∀ handler ∈ body.handlers, ∀ b ∈ handler.boundaries, (body.position? b).isSome
  | .step r a i machine => ∃ body s, r.Safe p generous a i machine body s
  | _ => True

/-! ## Handlers -/

/-- the invariant of an activation -/
structure Activation.Fits (s : Survey) (a : Activation) : Prop where
  /-- the stack is as high as the survey says -/
  height : s.Records ⟨a.position, a.operands.stack.length⟩
  /-- a jump that goes on after a handler has been recorded -/
  pending : ∀ e ∈ a.pending, ∀ origin target, e.purpose = .leave origin target → s.Records ⟨target, 0⟩

section Handlers

open Exec

variable {g : TypeGraph} {M : Machine} {r : Routine} {body : Body} {s : Survey} {a : Activation}

theorem leaveFrom_fits (hr : r.Verified g body s) (ha : ∀ e ∈ a.pending, ∀ origin target,
    e.purpose = .leave origin target → s.Records ⟨target, 0⟩) (first origin : Nat) {target : Nat}
    (ht : s.Records ⟨target, 0⟩) : (r.leaveFrom first origin target a).Fits s := by
  unfold Routine.leaveFrom
  simp only
  split
  · next region place hf =>
    obtain ⟨hmem, hw⟩ := Routine.findRegion_some hf
    have hkind : region.kind = .finally := by
      simp only [Routine.isLeft, Bool.and_eq_true, beq_iff_eq] at hw
      exact hw.1.1
    have hentry := hr.handlers region hmem
    rw [hkind] at hentry
    refine ⟨hentry, fun e he o t hp => ?_⟩
    rcases List.mem_cons.1 he with rfl | he
    · cases hp; exact ht
    · exact ha e he o t hp
  · exact ⟨ht, ha⟩

theorem raiseFrom_keeps (hr : r.Verified g body s) (ha : ∀ e ∈ a.pending, ∀ origin target,
    e.purpose = .leave origin target → s.Records ⟨target, 0⟩) (first origin : Nat) (exception : ObjectRef) :
    (r.raiseFrom g first origin exception a).Keeps M (Activation.Fits s) := by
  unfold Routine.raiseFrom
  refine keeps_get.bind fun machine M1 _ _ => ?_
  split
  · exact keeps_throw rfl
  · next region place hf =>
    obtain ⟨hmem, -⟩ := Routine.findRegion_some hf
    have hentry := hr.handlers region hmem
    split
    · next hkind =>
      rw [hkind] at hentry
      refine keeps_pure ⟨hentry, fun e he o t hp => ?_⟩
      rcases List.mem_cons.1 he with rfl | he
      · cases hp
      · exact ha e he o t hp
    · next t hkind =>
      rw [hkind] at hentry
      exact keeps_pure ⟨hentry, ha⟩

theorem endHandler_keeps (hr : r.Verified g body s) (ha : ∀ e ∈ a.pending, ∀ origin target,
    e.purpose = .leave origin target → s.Records ⟨target, 0⟩) :
    (r.endHandler g a).Keeps M (Activation.Fits s) := by
  unfold Routine.endHandler
  split
  · exact keeps_throw rfl
  · next region purpose pending hp =>
    have hrest : ∀ e ∈ pending, ∀ origin target, e.purpose = .leave origin target → s.Records ⟨target, 0⟩ :=
      fun e he => ha e (by rw [hp]; exact List.mem_cons_of_mem _ he)
    simp only
    split
    · next origin target =>
      have ht := ha ⟨region, .leave origin target⟩ (by rw [hp]; exact List.mem_cons_self) origin target rfl
      exact keeps_pure (leaveFrom_fits hr hrest _ _ ht)
    · next origin exception => exact raiseFrom_keeps hr hrest _ _ _

/-! ## One turn -/

/-- what a turn leads to keeps the invariant, or is an end that the method may have -/
def Turn.Fits (m : MethodDecl) (s : Survey) : Turn → Prop
  | .resume a => a.Fits s
  | .finish value => value.isSome = m.returns.isSome

/-- what can be said of every call -/
def Invoker.Keeps (invoker : Invoker) : Prop :=
  ∀ c arguments M, (invoker.invoke c arguments).Keeps M fun value =>
    value.isSome = (invoker.graph.method c).returns.isSome

theorem resolve_keeps {invoker : Invoker} (hv : invoker.Keeps) {m : MethodDecl} {position : Nat} {request : Request}
    (h : request.Fits invoker.graph m body s position) :
    (Routine.resolve invoker request).Keeps M fun e => e.1.Fits m body s position e.2 := by
  cases request with
  | done flow operands => exact keeps_pure h
  | call c arguments resume => exact (hv c arguments M).bind fun value M1 _ hvalue => keeps_pure (h.2 value hvalue)

theorem follow_keeps (hr : r.Verified g body s) (ha : a.Fits s) {operands : Operands} {flow : Flow}
    (h : flow.Fits (g.method r.method) body s a.position operands) :
    (r.follow g { a with operands } flow).Keeps M (Turn.Fits (g.method r.method) s) := by
  have placed : ∀ t q, (Layout.ofBody body).position? t = some q → body.position? t = some q := fun t q hq => by
    rw [← Layout.position?_ofBody]; exact hq
  cases flow with
  | next => exact keeps_pure ⟨h, ha.pending⟩
  | jump t =>
    obtain ⟨q, hq, hs⟩ := h
    refine (positionOf_keeps r.layout t).bind fun q' M1 _ hq' => keeps_pure ⟨?_, ha.pending⟩
    rw [hr.layout] at hq'
    cases hq.symm.trans (placed t q' hq')
    exact hs
  | leave t =>
    obtain ⟨q, hq, hs⟩ := h
    refine (positionOf_keeps r.layout t).bind fun q' M1 _ hq' => keeps_pure ?_
    rw [hr.layout] at hq'
    cases hq.symm.trans (placed t q' hq')
    exact leaveFrom_fits (a := { a with operands }) hr ha.pending 0 a.position hs
  | endFinally =>
    have hend : (r.endHandler g { a with operands }).Keeps M (Activation.Fits s) := endHandler_keeps hr ha.pending
    exact hend.bind fun a' M1 _ h' => keeps_pure (show Turn.Fits _ s (.resume a') from h')
  | «return» value => exact keeps_pure h

/-- the instruction that an activation has come to -/
theorem fetch_of_fits (hr : r.Verified g body s) (ha : a.Fits s) :
    ∃ i, body.fetch? a.position = some i ∧ r.layout.fetch? a.position = some i := by
  obtain ⟨i, -, hi, -⟩ := hr.sound.passes _ ha.height
  exact ⟨i, hi, by rw [hr.layout, Layout.fetch?_ofBody]; exact hi⟩

/-- **One turn keeps the invariant**, or ends the call as the method may end. -/
theorem turn_fits {invoker : Invoker} (hd : invoker.graph.DispatchAgrees) (hv : invoker.Keeps)
    (hr : r.Verified invoker.graph body s) (ha : a.Fits s) (limit : Nat) :
    (r.turn invoker limit a).Keeps M (Turn.Fits (invoker.graph.method r.method) s) := by
  obtain ⟨i, hi, hfetch⟩ := fetch_of_fits hr ha
  unfold Routine.turn
  refine (tick_keeps limit).bind fun _ M1 _ _ => ?_
  rw [hfetch]
  have hexecute : (r.execute invoker i a.operands).Keeps M1 fun e =>
      e.1.Fits (invoker.graph.method r.method) body s a.position e.2 :=
    (request_fits hd hr hi ha.height).bind fun request M2 _ hrequest => resolve_keeps hv hrequest
  refine (keeps_attempt hexecute).bind fun e M2 _ he => ?_
  cases e with
  | ok e => exact follow_keeps hr ha (he e rfl)
  | error exception =>
    have hraise : (r.raiseFrom invoker.graph 0 a.position exception { a with operands := {} }).Keeps M2
        (Activation.Fits s) := raiseFrom_keeps (a := { a with operands := {} }) hr ha.pending 0 a.position exception
    exact hraise.bind fun a' M3 _ h' => keeps_pure (show Turn.Fits _ s (.resume a') from h')

/-- **All turns of an activation.** A call that starts within the invariant ends as the method may end. -/
theorem turns_fit {invoker : Invoker} (hd : invoker.graph.DispatchAgrees) (hv : invoker.Keeps)
    (hr : r.Verified invoker.graph body s) (limit budget : Nat) (ha : a.Fits s) :
    (r.turns invoker limit budget a).Keeps M fun value =>
      value.isSome = (invoker.graph.method r.method).returns.isSome := by
  induction budget generalizing a M with
  | zero => exact keeps_throw rfl
  | succ budget ih =>
    have hturn := turn_fits (M := M) hd hv hr ha limit
    cases ht : r.turn invoker limit a M with
    | error t M1 =>
      have h := hturn.of_error ht
      exact keeps_of_error (by simp only [Routine.turns, ht]) h
    | ok turn M1 =>
      have h := hturn.of_ok ht
      cases turn with
      | finish value => exact keeps_of_ok (by simp only [Routine.turns, ht]) h
      | resume a' => exact (ih h.2).resume h.1 (by simp only [Routine.turns, ht])

end Handlers

/-! ## Calls -/

/-- a program of which the verifier accepts every body, and whose methods provided by the host end as they may -/
structure Program.Verified (p : Program) : Prop where
  accepted : ∀ m body, p.body? m = some body → ∃ s, body.survey p.graph (p.graph.method m) = .ok s
  polite : ∀ m native, p.native? m = some native → ∀ arguments,
    (native p.toDeclarations arguments).Polite p.graph (p.graph.method m)
  dispatch : p.graph.DispatchAgrees

section Calls

open Exec

variable {p : Program} {g : TypeGraph} {m : MethodId} {body : Body} {s : Survey} {M : Machine}

theorem region_keeps (layout : Layout) (handler : Handler) : (Routine.region layout handler).Keeps M fun region =>
    region.kind = handler.kind ∧ layout.position? handler.handlerStart = some region.handlerStart :=
  (positionOf_keeps layout handler.tryStart).bind fun _ _ _ _ =>
    (positionOf_keeps layout handler.tryEnd).bind fun _ _ _ _ =>
      (positionOf_keeps layout handler.handlerStart).bind fun _ _ _ h => keeps_pure ⟨rfl, h⟩

/-- an accepted body is laid out as a routine that runs it in the innermost frame -/
theorem prepare_keeps (hs : body.survey g (g.method m) = .ok s) : (Routine.prepare g m body).Keeps M fun r =>
    r.Verified g body s ∧ r.method = m ∧ r.depth = M.shape.size - 1 := by
  have hsound := Body.survey_sound hs
  refine (mapM_keeps fun handler _ M' => region_keeps (Layout.ofBody body) handler).bind fun regions M1 h1 hregions => ?_
  refine keeps_get.bind fun M2 M3 _ h2 => keeps_pure ⟨⟨rfl, hsound, rfl, fun region hr => ?_⟩, rfl, ?_⟩
  · obtain ⟨handler, hmem, hkind, hstart⟩ := hregions region hr
    obtain ⟨-, position, hp, hrecords⟩ := hsound.handler handler hmem
    rw [Layout.position?_ofBody, hp] at hstart
    cases hstart
    rw [hkind]
    exact hrecords
  · rw [h2, ← h1]
    simp only [Machine.shape, Array.size_map]

theorem start_fits (hs : body.Sound g (g.method m) s) : Activation.Fits s {} := ⟨hs.start, fun e he => by cases he⟩

/-- **A body** runs to an end that its method may have. -/
theorem run_keeps (invoker : Invoker) (hd : invoker.graph.DispatchAgrees) (hv : invoker.Keeps) (limit : Nat)
    (hs : body.survey invoker.graph (invoker.graph.method m) = .ok s) :
    (Routine.run invoker limit m body).Keeps M fun value =>
      value.isSome = (invoker.graph.method m).returns.isSome := by
  refine (prepare_keeps hs).bind fun r M1 _ hr => keeps_get.bind fun M2 M3 _ _ => ?_
  obtain ⟨hverified, hmethod, -⟩ := hr
  have hturns := turns_fit (M := M3) hd hv hverified limit (limit - M2.steps + 1) (start_fits hverified.sound)
  rw [hmethod] at hturns
  exact hturns

/-- work of the host ends as a call of its method may end, if every call does -/
theorem host_keeps {invoke : MethodId → List Value → Exec (Option Value)}
    (hv : Invoker.Keeps { graph := g, invoke }) {decl : MethodDecl} {work : Host (Option Value)}
    (hw : work.Polite g decl) : (work.run invoke).Keeps M fun value => value.isSome = decl.returns.isSome := by
  induction work generalizing M with
  | done value => exact keeps_pure hw
  | fail t => exact keeps_throw hw
  | look next ih => exact (ih M.exposed (hw M.exposed)).resume rfl rfl
  | work change next ih => exact (ih hw).resume (M.shape_apply change) rfl
  | call c arguments next ih =>
    have hcall : (invoke c arguments).Keeps M fun value => value.isSome = (g.method c).returns.isSome :=
      hv c arguments M
    cases hx : invoke c arguments M with
    | ok value M' =>
      have h := hcall.of_ok hx
      exact (ih (.ok value) (hw _ h.2)).resume h.1 (by simp only [Host.run, hx])
    | error t M' =>
      have h := hcall.of_error hx
      exact (ih (.error t) (hw _ h.2)).resume h.1 (by simp only [Host.run, hx])

/-- **Every call** ends as its method may end, whatever calls it makes. -/
theorem invoke_keeps (hp : p.Verified) (nesting : Nat) : (p.invoker (p.invoke nesting)).Keeps := by
  induction nesting with
  | zero => exact fun c arguments M => keeps_throw rfl
  | succ nesting ih =>
    intro c arguments M
    show (p.invoke (nesting + 1) c arguments).Keeps M _
    unfold Program.invoke
    split
    · next native hn => exact host_keeps ih (hp.polite c native hn arguments)
    · split
      · next body hb =>
        obtain ⟨s, hs⟩ := hp.accepted c body hb
        refine keeps_get.bind fun M1 M2 _ _ => ?_
        split
        · exact keeps_throw rfl
        · exact withFrame_keeps (run_keeps (p.invoker (p.invoke nesting)) hp.dispatch ih p.stepLimit hs)
      · exact keeps_throw rfl

end Calls

/-! ## What happens on the way -/

/-- the routine runs an accepted body, with a frame that has room for it -/
structure Routine.Framed (p : Program) (generous : Prop) (r : Routine) (body : Body) (s : Survey)
    (shape : Array (Nat × Nat)) : Prop where
  verified : r.Verified p.graph body s
  runs : p.body? r.method = some body
  surveyed : body.survey p.graph (p.graph.method r.method) = .ok s
  frame : ∃ n, shape[r.depth]? = some (n, body.locals.size) ∧
    (generous → (p.graph.method r.method).argumentCount ≤ n)

/-- what can be said of what happens during every call, if the host leaves out no argument that it should not -/
def CallsSound (p : Program) (generous : Prop) (calls : MethodId → List Value → Machine → List Event) : Prop :=
  ∀ c arguments M, (generous → (p.graph.method c).argumentCount ≤ arguments.length) →
    (generous → p.Generous (calls c arguments M)) → ∀ e ∈ calls c arguments M, e.Sound p generous

section Events

variable {p : Program} {generous : Prop} {calls : MethodId → List Value → Machine → List Event} {r : Routine}
  {body : Body} {s : Survey} {a : Activation} {M : Machine}

theorem Program.Generous.of_subset {events events' : List Event} (h : p.Generous events') (hs : events ⊆ events') :
    p.Generous events :=
  fun m arguments machine he => h m arguments machine (hs he)

/-- an activation within the invariant executes its instruction under the promised conditions -/
theorem step_sound (hr : r.Framed p generous body s M.shape) (ha : a.Fits s) {i : Instruction}
    (hi : body.fetch? a.position = some i) : r.Safe p generous a i M body s := by
  have hsound := hr.verified.sound
  obtain ⟨j, passage, hj, hp, -, -⟩ := hsound.passes _ ha.height
  cases hi.symm.trans hj
  obtain ⟨n, hshape, hn⟩ := hr.frame
  simp only [Machine.shape, Array.getElem?_map, Option.map_eq_some_iff, Prod.mk.injEq] at hshape
  obtain ⟨frame, hframe, hlength, hsize⟩ := hshape
  refine ⟨hr.runs, hr.surveyed, by rw [Body.verify, hr.surveyed]; rfl, hi, ha.height, hsound.bounded _ ha.height,
    fun t ht => Body.passage_target hp ht, frame, hframe, fun k hk => ?_, fun hg k hk => ?_⟩
  · rw [hsize]
    exact Body.passage_local hp hk
  · rw [hlength]
    exact Nat.lt_of_lt_of_le (Body.passage_argument hp hk) (hn hg)

/-- **What happens in one turn** is sound. -/
theorem turnEvents_sound {invoker : Invoker} (hgraph : invoker.graph = p.graph) (hd : p.graph.DispatchAgrees)
    (hcalls : CallsSound p generous calls) (hr : r.Framed p generous body s M.shape) (ha : a.Fits s) (limit : Nat)
    (hg : generous → p.Generous (r.turnEvents invoker calls limit a M)) :
    ∀ e ∈ r.turnEvents invoker calls limit a M, e.Sound p generous := by
  obtain ⟨i, hi, hfetch⟩ := fetch_of_fits hr.verified ha
  unfold Routine.turnEvents at hg ⊢
  rw [hfetch] at hg ⊢
  cases htick : Routine.tick limit M with
  | error t M1 => exact fun e he => by cases he
  | ok u M1 =>
    rw [htick] at hg
    have hshape := ((tick_keeps limit).of_ok htick).1
    have hr1 : r.Framed p generous body s M1.shape := by rw [hshape]; exact hr
    intro e he
    rcases List.mem_cons.1 he with rfl | he
    · exact ⟨body, s, step_sound hr1 ha hi⟩
    · rw [hgraph] at hg he
      cases hrequest : r.request p.graph i a.operands M1 with
      | error t M2 => rw [hrequest] at he; cases he
      | ok request M2 =>
        have hfits := (request_fits hd hr.verified hi ha.height).of_ok hrequest
        simp only [hrequest] at hg he
        cases request with
        | done flow operands => cases he
        | call c arguments resume =>
          exact hcalls c arguments M2 (fun _ => hfits.2.1)
            (fun h => (hg h).of_subset fun e => List.mem_cons_of_mem _) e he

/-- **What happens in the turns of an activation** is sound. -/
theorem events_sound {invoker : Invoker} (hgraph : invoker.graph = p.graph) (hd : p.graph.DispatchAgrees)
    (hv : invoker.Keeps) (hcalls : CallsSound p generous calls) (limit budget : Nat)
    (hr : r.Framed p generous body s M.shape) (ha : a.Fits s)
    (hg : generous → p.Generous (r.events invoker calls limit budget a M)) :
    ∀ e ∈ r.events invoker calls limit budget a M, e.Sound p generous := by
  induction budget generalizing a M with
  | zero => exact fun e he => by cases he
  | succ budget ih =>
    unfold Routine.events at hg ⊢
    intro e he
    rcases List.mem_append.1 he with he | he
    · exact turnEvents_sound hgraph hd hcalls hr ha limit
        (fun h => (hg h).of_subset fun e => List.mem_append_left _) e he
    · cases ht : r.turn invoker limit a M with
      | error t M1 => rw [ht] at he; cases he
      | ok turn M1 =>
        rw [ht] at he hg
        have hverified : r.Verified invoker.graph body s := by rw [hgraph]; exact hr.verified
        have hturn := (turn_fits (M := M) (by rw [hgraph]; exact hd) hv hverified ha limit).of_ok ht
        cases turn with
        | finish value => cases he
        | resume a' =>
          exact ih (by rw [hturn.1]; exact hr) hturn.2 (fun h => (hg h).of_subset fun e => List.mem_append_right _) e he

/-- **What happens while a body runs** in a frame of its own is sound. -/
theorem enterEvents_sound {invoker : Invoker} (hgraph : invoker.graph = p.graph) (hd : p.graph.DispatchAgrees)
    (hv : invoker.Keeps) (hcalls : CallsSound p generous calls) {m : MethodId} {arguments : List Value}
    (hb : p.body? m = some body) (hs : body.survey p.graph (p.graph.method m) = .ok s)
    (ha : generous → (p.graph.method m).argumentCount ≤ arguments.length)
    (hg : generous → p.Generous (p.enterEvents invoker calls m body arguments M)) :
    ∀ e ∈ p.enterEvents invoker calls m body arguments M, e.Sound p generous := by
  unfold Program.enterEvents Routine.runEvents at hg ⊢
  by_cases hroom : Program.maxFrames ≤ M.frames.size
  · rw [if_pos hroom]
    exact fun e he => by cases he
  · simp only [hroom, ↓reduceIte, hgraph] at hg ⊢
    cases hprepare : Routine.prepare p.graph m body (M.push (p.frameFor body arguments)) with
    | error t M1 => exact fun e he => by cases he
    | ok r M1 =>
      simp only [hprepare] at hg
      obtain ⟨hshape, hverified, hmethod, hdepth⟩ := (prepare_keeps hs).of_ok hprepare
      have hr : r.Framed p generous body s M1.shape := by
        refine ⟨hverified, by rw [hmethod]; exact hb, by rw [hmethod]; exact hs, arguments.length, ?_, ?_⟩
        · rw [hshape, hdepth, Machine.shape_push]
          simp [Program.frameFor]
        · rw [hmethod]
          exact ha
      exact events_sound hgraph hd hv hcalls p.stepLimit _ hr (start_fits (m := m) (hmethod ▸ hverified.sound)) hg

/-- **What happens during work of the host** is sound. -/
theorem hostEvents_sound {α : Type} {invoke : MethodId → List Value → Exec (Option Value)}
    (hcalls : CallsSound p generous calls) (work : Host α)
    (hg : generous → p.Generous (work.events invoke calls M)) :
    ∀ e ∈ work.events invoke calls M, e.Sound p generous := by
  induction work generalizing M with
  | done value => exact fun e he => by cases he
  | fail t => exact fun e he => by cases he
  | look next ih => exact ih M.exposed hg
  | work change next ih =>
    intro e he
    rcases List.mem_cons.1 he with rfl | he
    · trivial
    · exact ih (fun h => (hg h).of_subset fun e => List.mem_cons_of_mem _) e he
  | call c arguments next ih =>
    unfold Host.events at hg ⊢
    intro e he
    rcases List.mem_append.1 he with he | he
    · rcases List.mem_cons.1 he with rfl | he
      · trivial
      · exact hcalls c arguments M
          (fun h => hg h c arguments M (List.mem_append_left _ List.mem_cons_self))
          (fun h => (hg h).of_subset fun e h1 => List.mem_append_left _ (List.mem_cons_of_mem _ h1)) e he
    · cases hx : invoke c arguments M with
      | ok value M' =>
        simp only [hx] at hg he
        exact ih _ (fun h => (hg h).of_subset fun e => List.mem_append_right _) e he
      | error t M' =>
        simp only [hx] at hg he
        exact ih _ (fun h => (hg h).of_subset fun e => List.mem_append_right _) e he

/-- **What happens during a tree of calls** is sound. -/
theorem trace_sound (hp : p.Verified) (nesting : Nat) : CallsSound p generous (p.trace nesting) := by
  induction nesting with
  | zero => exact fun c arguments M _ _ e he => by cases he
  | succ nesting ih =>
    intro c arguments M ha hg e he
    unfold Program.trace at hg he
    rcases List.mem_cons.1 he with rfl | he
    · intro body hb handler hh
      obtain ⟨s, hs⟩ := hp.accepted c body hb
      exact ((Body.survey_sound hs).handler handler hh).1
    · have hg' := fun h => (hg h).of_subset fun e => List.mem_cons_of_mem _
      split at he
      · next native hn =>
        simp only [hn] at hg'
        exact hostEvents_sound ih _ hg' e he
      · next hn =>
        split at he
        · next body hb =>
          simp only [hn, hb] at hg'
          obtain ⟨s, hs⟩ := hp.accepted c body hb
          exact enterEvents_sound rfl hp.dispatch (invoke_keeps hp nesting) ih hb hs ha hg' e he
        · cases he

end Events

/-- the program runs the bodies of the module -/
def Program.Executes (p : Program) (module : Module) : Prop := p.bodies = module.bodies.reverse

/-- a body that is run is a body of the module -/
theorem Program.Executes.mem {p : Program} {module : Module} (hp : p.Executes module) {m : MethodId} {body : Body}
    (hb : p.body? m = some body) : (m, body) ∈ module.bodies := by
  unfold Program.body? at hb
  rw [hp] at hb
  exact List.mem_reverse.1 (mem_of_lookup hb)

/-- **Verified bodies run as verified.** Take a module of which the verifier accepts every body, and a program that runs it
with natives that end as their methods may. Then no call ends in an empty stack or past the last instruction, and whatever
happens on the way, in calls inside each other and in handlers, happens under the promised conditions. -/
theorem verified_run_sound (p : Program) (module : Module) (hm : p.Executes module)
    (hv : ∀ e ∈ module.bodies, ∃ depth, e.2.verify p.graph (p.graph.method e.1) = .ok depth)
    (hn : ∀ m native, p.native? m = some native → ∀ arguments,
      (native p.toDeclarations arguments).Polite p.graph (p.graph.method m))
    (hd : p.graph.DispatchAgrees) (nesting : Nat) (m : MethodId) (arguments : List Value)
    (ha : (p.graph.method m).argumentCount ≤ arguments.length) (machine : Machine) :
    (p.invoke nesting m arguments).Ends machine
      (fun value _ => value.isSome = (p.graph.method m).returns.isSome)
      (fun t _ => t ≠ .stackUnderflow ∧ ∀ c, t ≠ .fellOffEnd c) ∧
    ∀ e ∈ p.trace nesting m arguments machine, e.Sound p (p.Generous (p.trace nesting m arguments machine)) := by
  have hp : p.Verified := by
    refine ⟨fun c body hb => ?_, hn, hd⟩
    obtain ⟨depth, hdepth⟩ := hv _ (hm.mem hb)
    obtain ⟨s, hs, -⟩ := ok_of_map hdepth
    exact ⟨s, hs⟩
  refine ⟨?_, trace_sound hp nesting m arguments machine (fun _ => ha) id⟩
  have hkeeps : (p.invoke nesting m arguments).Keeps machine _ := invoke_keeps hp nesting m arguments machine
  refine hkeeps.weaken (fun value _ h => h.2) fun t _ h => ?_
  refine ⟨?_, fun c => ?_⟩
  · rintro rfl
    cases h.2
  · rintro rfl
    cases h.2

/-! ## A program with a handler -/

/-- a type with one static method from integers to integers -/
def incrementGraph : TypeGraph :=
  let (t, g) := TypeGraph.empty.addType (.root ⟨"Counter"⟩ TypeFlags.public_)
  (g.addMethod {
    declaring := t, name := ⟨"Increment"⟩, flags := MethodFlags.static
    parameters := [{ name := ⟨"n"⟩, type := .named t }], returns := some (.named t) }).2

/-- adds 1 to the argument, which waits in a local while a `finally` handler runs -/
def incrementBody : Body :=
  let code := Body.empty.append
    [.ldarg 0, .stloc 0, .leave ⟨5⟩, .nop, .endfinally, .ldloc 0, .ldc 1, .add, .ret]
  { code with
    locals := #[.named ⟨0⟩]
    handlers := [{ kind := .finally, tryStart := ⟨0⟩, tryEnd := ⟨3⟩, handlerStart := ⟨3⟩, handlerEnd := ⟨5⟩ }] }

/-- the module of that method -/
def incrementModule : Module :=
  { name := "Counter", types := [{ id := ⟨0⟩, methods := [{ id := ⟨0⟩, body := some incrementBody }] }] }

def incrementProgram : Program :=
  { graph := incrementGraph, rootFinalizer := ⟨0⟩, bodies := incrementModule.bodies.reverse }

theorem increment_dispatch : incrementGraph.DispatchAgrees := by
  intro t m
  have hvirtual : (incrementGraph.method m).isVirtual = false := by
    obtain ⟨_ | k⟩ := m
    · rfl
    · simp [incrementGraph, TypeGraph.method, TypeGraph.addMethod, TypeGraph.addType, TypeGraph.empty]
      rfl
  simp [TypeGraph.implementation, hvirtual]

theorem increment_run_sound :
    (incrementProgram.call ⟨0⟩ [.int32 41]).Ends Machine.initial
      (fun value _ => value.isSome = (incrementGraph.method ⟨0⟩).returns.isSome)
      (fun t _ => t ≠ .stackUnderflow ∧ ∀ c, t ≠ .fellOffEnd c) ∧
    ∀ e ∈ incrementProgram.trace Program.maxNesting ⟨0⟩ [.int32 41] Machine.initial,
      e.Sound incrementProgram
        (incrementProgram.Generous (incrementProgram.trace Program.maxNesting ⟨0⟩ [.int32 41] Machine.initial)) :=
  verified_run_sound incrementProgram incrementModule rfl
    (fun e he => by
      cases List.mem_singleton.1 he
      exact Body.verify_of_certified [some 0, some 1, some 0, some 0, some 0, some 0, some 1, some 2, some 1] (by decide +kernel))
    (fun m native h => by cases h) increment_dispatch Program.maxNesting ⟨0⟩ [.int32 41] (by decide) Machine.initial

end DisposalWeaver
