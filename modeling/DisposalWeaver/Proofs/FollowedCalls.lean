/-
Following whole calls.

What goes for the turns of an activation goes for a call: a body in a frame of its own is followed if its routine is
(`enter_follows`), and work of the host if it looks the same to both sides (`Host.Alike`, `host_follows`). `invoke_follows`
puts the two together for calls that are one level deeper. Its first use is that a program does not notice its own count
of instructions: from a machine that has counted more, a call does the same, up to the limit (`invoke_counts`).
-/
import DisposalWeaver.Proofs.ShiftedRuns

namespace DisposalWeaver

/-! ## Bodies -/

section Bodies

open Exec Routine

variable {p q : Program} {A : Accord p.graph q.graph} {pace : Pace} {M M' : Machine} {m : MethodId} {body body' : Body}
  {calls : MethodId → List Value → Machine → List Event} {fine : Event → Prop} {values : List Value}
  {invoke invoke' : MethodId → List Value → Exec (Option Value)}

theorem positionOf_echoes {field : FieldId → Prop} {steps : Nat} (hM : M.Tidy field) (layout : Layout) (t : Handle) :
    (positionOf layout t).Echoes field (positionOf layout t) M steps fun _ => True := by
  unfold positionOf
  split
  · exact echoes_pure hM trivial
  · exact echoes_throw hM _

theorem regions_echoes {field : FieldId → Prop} {steps : Nat} (hM : M.Tidy field) (layout : Layout)
    (handlers : List Handler) : (handlers.mapM (region layout)).Echoes field (handlers.mapM (region layout)) M steps
      fun _ => True := by
  induction handlers generalizing M with
  | nil => exact echoes_pure hM trivial
  | cons handler rest ih =>
    have hregion : (region layout handler).Echoes field (region layout handler) M steps fun _ => True :=
      (positionOf_echoes hM layout _).bind fun _ _ hN _ => (positionOf_echoes hN layout _).bind fun _ _ hN' _ =>
        (positionOf_echoes hN' layout _).bind fun _ _ hK _ => echoes_pure hK trivial
    rw [List.mapM_cons]
    exact hregion.bind fun _ _ hN _ => (ih hN).bind fun _ _ hN' _ => echoes_pure hN' trivial

/-- the same body is laid out in the same way -/
theorem prepare_echoes {g G : TypeGraph} {A : Accord g G} {steps : Nat} (hM : M.Tidy A.field) (hm : A.method m)
    (body : Body) : (prepare g m body).Echoes A.field (prepare G m body) M steps fun _ => True := by
  unfold prepare
  rw [A.method_eq m hm]
  exact (regions_echoes hM _ _).bind fun regions N hN _ => echoes_get (echoes_pure hN trivial)

/-- a routine has its own code, no position further down -/
theorem shifted_self (r : Routine) : r.Shifted 0 (fun _ => True) r where
  method := rfl
  depth := rfl
  returns := rfl
  regions := by
    have hid : Region.shift 0 = id := rfl
    rw [hid, List.map_id]
  fetch _ _ := rfl
  target _ _ t _ _ _ := by simp
  next _ _ _ _ _ := trivial
  jump _ _ _ _ _ _ _ _ := trivial
  handler _ _ := trivial

theorem withFrame_follows {α β : Type} {field : FieldId → Prop} {related : α → β → Prop} {x : Exec α} {y : Exec β}
    {frame : Frame} (h : Follows field pace related (x (M.push frame)) (y (M'.push frame))) :
    Follows field pace related (Exec.withFrame frame x M) (Exec.withFrame frame y M') := by
  unfold Exec.withFrame
  cases hx : x (M.push frame) with
  | ok a N =>
    rw [hx] at h
    cases hy : y (M'.push frame) with
    | ok b N' => rw [hy] at h; exact ⟨h.1, h.2.pop⟩
    | error t' N' => rw [hy] at h; exact h.elim
  | error t N =>
    rw [hx] at h
    cases hy : y (M'.push frame) with
    | ok b N' => rw [hy] at h; exact h.elim
    | error t' N' => rw [hy] at h; exact ⟨h.1, h.2.pop⟩

theorem frameFor_tidy {field : FieldId → Prop} (p : Program) (body : Body) (h : ∀ v ∈ values, v.Within field) :
    (p.frameFor body values).Tidy field := by
  refine ⟨h, fun v hv => ?_⟩
  simp only [Program.frameFor, Array.mem_map] at hv
  obtain ⟨type, -, rfl⟩ := hv
  exact defaultFor_within _ _

theorem frameFor_eq (A : Accord p.graph q.graph) (body : Body) (values : List Value) :
    q.frameFor body values = p.frameFor body values := by
  unfold Program.frameFor
  rw [show Value.defaultFor q.graph = Value.defaultFor p.graph from funext A.default_eq]

/-- **A body** in a frame of its own is followed by a body whose run in such a frame follows. -/
theorem enter_follows (hM : M.Followed A.field pace M') (hv : ∀ v ∈ values, v.Within A.field)
    (hlocals : body'.locals = body.locals)
    (he : ∀ e ∈ p.enterEvents (p.invoker invoke) calls m body values M, fine e)
    (ht : (p.enter (p.invoker invoke) m body values).InTime pace p.stepLimit q.stepLimit M)
    (hrun : ¬ Program.maxFrames ≤ M.frames.size →
      (M.push (p.frameFor body values)).Followed A.field pace (M'.push (p.frameFor body values)) →
      (∀ e ∈ Routine.runEvents (p.invoker invoke) calls p.stepLimit m body (M.push (p.frameFor body values)), fine e) →
      (Routine.run (p.invoker invoke) p.stepLimit m body).InTime pace p.stepLimit q.stepLimit
        (M.push (p.frameFor body values)) →
      Follows A.field pace (Agreed A.field)
        (Routine.run (p.invoker invoke) p.stepLimit m body (M.push (p.frameFor body values)))
        (Routine.run (q.invoker invoke') q.stepLimit m body' (M'.push (p.frameFor body values)))) :
    Follows A.field pace (Agreed A.field) (p.enter (p.invoker invoke) m body values M)
      (q.enter (q.invoker invoke') m body' values M') := by
  rw [enter_eq, enter_eq, hM.frames]
  by_cases hroom : Program.maxFrames ≤ M.frames.size
  · rw [if_pos hroom, if_pos hroom]
    exact ⟨rfl, hM⟩
  · have hframe : q.frameFor body' values = p.frameFor body values := by
      rw [← frameFor_eq A body values]
      unfold Program.frameFor
      rw [hlocals]
    unfold Program.enterEvents at he
    rw [if_neg hroom] at he
    rw [if_neg hroom, if_neg hroom, hframe]
    refine withFrame_follows (hrun hroom (hM.push (frameFor_tidy p body hv)) he (ht.mono ?_))
    rw [enter_final p _ m body values hroom]
    exact Nat.le_refl _

/-- the same body is followed, with the same calls -/
theorem run_follows (hc : CountsUp invoke) (hc' : CountsUp invoke') (hsize : KeepsSize invoke) (hm : A.method m)
    (hadmits : ∀ r a i K, r.method = m → r.layout = Layout.ofBody body → r.layout.fetch? a.position = some i →
      fine (.step r a i K) → A.Admits i)
    (hcalls : CallsFollow A pace p.stepLimit q.stepLimit fine M.frames.size invoke invoke' calls)
    (hM : M.Followed A.field pace M')
    (he : ∀ e ∈ Routine.runEvents (p.invoker invoke) calls p.stepLimit m body M, fine e)
    (ht : (Routine.run (p.invoker invoke) p.stepLimit m body).InTime pace p.stepLimit q.stepLimit M) :
    Follows A.field pace (Agreed A.field) (Routine.run (p.invoker invoke) p.stepLimit m body M)
      (Routine.run (q.invoker invoke') q.stepLimit m body M') := by
  have hprepare := hM.echo (prepare_echoes hM.tidy hm body)
  cases hr : prepare p.graph m body M with
  | error t N =>
    rw [hr] at hprepare
    cases hr' : prepare q.graph m body M' with
    | ok r' N' => rw [hr'] at hprepare; exact hprepare.elim
    | error t' N' =>
      rw [hr'] at hprepare
      simp only [Routine.run, bind, EStateM.bind, Program.invoker, hr, hr']
      exact hprepare
  | ok r N =>
    rw [hr] at hprepare
    cases hr' : prepare q.graph m body M' with
    | error t' N' => rw [hr'] at hprepare; exact hprepare.elim
    | ok r' N' =>
      rw [hr'] at hprepare
      obtain ⟨⟨hsame, -⟩, -⟩ := hprepare
      subst r'
      obtain ⟨rfl, hrun⟩ := run_of_prepare (p.invoker invoke) p.stepLimit hr
      obtain ⟨rfl, hrun'⟩ := run_of_prepare (q.invoker invoke') q.stepLimit hr'
      obtain ⟨hmethod, hlayout, -⟩ := prepare_layout hr
      simp only [Routine.runEvents, Program.invoker, hr] at he
      have htime : (r.go (p.invoker invoke) p.stepLimit {}).InTime pace p.stepLimit q.stepLimit N :=
        ht.mono (by unfold Exec.final; rw [hrun]; exact Nat.le_refl _)
      have hc : CountsUp (p.invoker invoke).invoke := hc
      have hc' : CountsUp (q.invoker invoke').invoke := hc'
      rw [hrun, hrun']
      exact go_follows (B := A) (a := {}) (shifted_self r) hc hc' hsize (fun a i K _ => hadmits r a i K hmethod hlayout)
        hcalls hM.same hM.ahead hM.tidy ⟨trivial, fun v hv => (by cases hv), fun e he => (by cases he)⟩ he htime

end Bodies

/-! ## The host -/

/-- work that goes the same way as other work: it looks at nothing but tidy machines, stays within the fields, and calls
no methods but the given ones -/
inductive Host.Alike (field : FieldId → Prop) (callable : MethodId → Prop) {α : Type} (ok : α → Prop) :
    Host α → Host α → Prop where
  | done {value : α} (h : ok value) : Alike field callable ok (.done value) (.done value)
  | fail (t : Trap) : Alike field callable ok (.fail t) (.fail t)
  | look {next next' : Machine → Host α}
    (h : ∀ M : Machine, M.Tidy field → Alike field callable ok (next M.exposed) (next' M.exposed)) :
    Alike field callable ok (.look next) (.look next')
  | work {c : Change} {next next' : Host α} (hc : c.Within field) (h : Alike field callable ok next next') :
    Alike field callable ok (.work c next) (.work c next')
  | call {c : MethodId} {values : List Value} {next next' : Except Trap (Option Value) → Host α} (hm : callable c)
    (hv : ∀ v ∈ values, v.Within field)
    (h : ∀ outcome, (∀ v, outcome = .ok (some v) → v.Within field) →
      Alike field callable ok (next outcome) (next' outcome)) :
    Alike field callable ok (.call c values next) (.call c values next')

section Hosts

variable {g G : TypeGraph} {A : Accord g G} {callable : MethodId → Prop} {pace : Pace} {limit limit' : Nat} {M M' : Machine}
  {calls : MethodId → List Value → Machine → List Event} {fine : Event → Prop} {α : Type} {ok : α → Prop}
  {invoke invoke' : MethodId → List Value → Exec (Option Value)} {work work' : Host α}

theorem host_steps (hc : CountsUp invoke) (hsize : KeepsSize invoke) (work : Host α) :
    M.steps ≤ ((work.run invoke).final M).steps :=
  host_drifts (drift_steps 0) hsize (callsDrift_untold hc) work fun e _ => e.allowed_of_all fun _ => trivial

/-- **Work of the host** is followed by work that goes the same way. -/
theorem host_follows (hc : CountsUp invoke) (hsize : KeepsSize invoke) (hw : Host.Alike A.field callable ok work work')
    (hcalls : ∀ c, callable c →
      A.method c ∧ CallsFollow A pace limit limit' fine M.frames.size invoke invoke' calls)
    (hM : M.Followed A.field pace M') (he : ∀ e ∈ work.events invoke calls M, fine e)
    (ht : (work.run invoke).InTime pace limit limit' M) :
    Follows A.field pace (fun a b => b = a ∧ ok a) (work.run invoke M) (work'.run invoke' M') := by
  induction hw generalizing M M' with
  | done h => exact ⟨⟨rfl, h⟩, hM⟩
  | fail t => exact ⟨rfl, hM⟩
  | @look next next' h ih =>
    have hexposed : M'.exposed = M.exposed := by rw [hM.same]; rfl
    simp only [Host.run, hexposed]
    exact ih M hM.tidy hcalls hM he (ht.mono (Nat.le_refl _))
  | @work c next next' hc h ih =>
    refine ih (fun k hk => ⟨(hcalls k hk).1, ?_⟩) (hM.apply hc) (fun e h => he e (List.mem_cons_of_mem _ h))
      (ht.mono (Nat.le_refl _))
    rw [drift_size.change M c trivial]
    exact (hcalls k hk).2
  | @call c values next next' hm hv h ih =>
    have hcallSize := hsize c values M
    unfold Host.events at he
    have hcall := (hcalls c hm).2 c values M M' hM (hcalls c hm).1 hv rfl
      (fun e h => he e (List.mem_append_left _ (List.mem_cons_of_mem _ h))) (ht.mono (by
        unfold Exec.final
        simp only [Host.run]
        cases invoke c values M <;> exact host_steps hc hsize _))
    unfold Exec.final at hcallSize
    simp only [Host.run]
    cases hx : invoke c values M with
    | ok value N =>
      have hfinal : ((Host.call c values next).run invoke).final M = ((next (.ok value)).run invoke).final N := by
        simp only [Exec.final, Host.run, hx]
      rw [hx] at hcall hcallSize
      cases hy : invoke' c values M' with
      | error t' N' => rw [hy] at hcall; exact hcall.elim
      | ok value' N' =>
        rw [hy] at hcall
        obtain ⟨⟨hsame, hvalue⟩, hN⟩ := hcall
        subst value'
        refine ih (.ok value) (fun v hv => hvalue v (by cases hv; rfl)) ?_ hN (fun e h => ?_) (ht.mono (by rw [hfinal]))
        · rw [hcallSize]
          exact hcalls
        · refine he e (List.mem_append_right _ ?_)
          rw [hx]
          exact h
    | error t N =>
      have hfinal : ((Host.call c values next).run invoke).final M = ((next (.error t)).run invoke).final N := by
        simp only [Exec.final, Host.run, hx]
      rw [hx] at hcall hcallSize
      cases hy : invoke' c values M' with
      | ok value' N' => rw [hy] at hcall; exact hcall.elim
      | error t' N' =>
        rw [hy] at hcall
        obtain ⟨rfl, hN⟩ := hcall
        refine ih (.error t') (fun v hv => (by cases hv)) ?_ hN (fun e h => ?_) (ht.mono (by rw [hfinal]))
        · rw [hcallSize]
          exact hcalls
        · refine he e (List.mem_append_right _ ?_)
          rw [hx]
          exact h

end Hosts

/-! ## Calls -/

section Calls

variable {p q : Program} {A : Accord p.graph q.graph} {pace : Pace} {fine : Event → Prop} {nesting : Nat}
  {c : MethodId} {values : List Value} {M M' : Machine} {calls : MethodId → List Value → Machine → List Event}

/-- what happens inside a call, given what happens during the calls that it makes -/
def Program.inside (p : Program) (nesting : Nat) (calls : MethodId → List Value → Machine → List Event) (m : MethodId)
    (arguments : List Value) (machine : Machine) : List Event :=
  match p.native? m with
  | some native => (native p.toDeclarations arguments).events (p.invoke nesting) calls machine
  | none =>
    match p.body? m with
    | some body => p.enterEvents (p.invoker (p.invoke nesting)) calls m body arguments machine
    | none => []

/-- **A call** that is one level deeper is followed, if the work of the host that it may come to goes the same way, and
the body that it may come to is followed. -/
theorem invoke_follows (callable : MethodId → Prop) (hM : M.Followed A.field pace M')
    (hnative : ∀ native, p.native? c = some native → ∃ native', q.native? c = some native' ∧
      Host.Alike A.field callable (fun value => ∀ v, value = some v → v.Within A.field) (native p.toDeclarations values)
        (native' q.toDeclarations values))
    (hcalls : ∀ c, callable c → A.method c ∧ CallsFollow A pace p.stepLimit q.stepLimit fine M.frames.size
      (p.invoke nesting) (q.invoke nesting) calls)
    (hmissing : p.native? c = none → p.body? c = none → q.native? c = none ∧ q.body? c = none)
    (hbody : ∀ body, p.native? c = none → p.body? c = some body →
      (∀ e ∈ p.enterEvents (p.invoker (p.invoke nesting)) calls c body values M, fine e) →
      (p.enter (p.invoker (p.invoke nesting)) c body values).InTime pace p.stepLimit q.stepLimit M →
      ∃ body', q.native? c = none ∧ q.body? c = some body' ∧
        Follows A.field pace (Agreed A.field) (p.enter (p.invoker (p.invoke nesting)) c body values M)
          (q.enter (q.invoker (q.invoke nesting)) c body' values M'))
    (he : ∀ e ∈ p.inside nesting calls c values M, fine e)
    (ht : (p.invoke (nesting + 1) c values).InTime pace p.stepLimit q.stepLimit M) :
    Follows A.field pace (Agreed A.field) (p.invoke (nesting + 1) c values M) (q.invoke (nesting + 1) c values M') := by
  unfold Program.inside at he
  unfold Program.invoke at ht ⊢
  cases hn : p.native? c with
  | some native =>
    obtain ⟨native', hn', halike⟩ := hnative native hn
    simp only [hn, hn'] at he ht ⊢
    exact host_follows (trace_steps p nesting) (invoke_size p nesting) halike hcalls hM he ht
  | none =>
    cases hb : p.body? c with
    | none =>
      obtain ⟨hn', hb'⟩ := hmissing hn hb
      simp only [hn', hb']
      exact ⟨rfl, hM⟩
    | some body =>
      simp only [hn, hb] at he ht
      obtain ⟨body', hn', hb', hfollows⟩ := hbody body hn hb he ht
      simp only [hn', hb']
      exact hfollows

end Calls

/-! ## A program does not notice its count -/

/-- every graph agrees with itself on everything -/
def Accord.all (g : TypeGraph) : Accord g g where
  field _ := True
  method _ := True
  plain _ := True
  field_eq _ _ := rfl
  method_eq _ _ := rfl
  answer _ _ _ := trivial
  answer_eq _ _ _ _ := rfl
  default_eq _ := rfl
  subtype_eq _ _ := rfl

theorem within_all (v : Value) : v.Within fun _ => True := by
  cases v with
  | address place => cases place <;> trivial
  | _ => trivial

theorem alike_all {α : Type} {ok : α → Prop} (h : ∀ value, ok value) (work : Host α) :
    work.Alike (fun _ => True) (fun _ => True) ok work := by
  induction work with
  | done value => exact .done (h value)
  | fail t => exact .fail t
  | look next ih => exact .look fun M _ => ih M.exposed
  | work c next ih =>
    refine .work ?_ ih
    cases c with
    | store place v => exact ⟨by cases place <;> trivial, within_all v⟩
    | record values => exact fun v _ => within_all v
    | _ => trivial
  | call c values next ih => exact .call trivial (fun v _ => within_all v) fun outcome _ => ih outcome

theorem admits_all {g : TypeGraph} (i : Instruction) : (Accord.all g).Admits i := by
  cases i <;> first | exact ⟨trivial, trivial⟩ | exact trivial

/-- a second count may be ahead by so much -/
def Pace.ahead (slack : Nat) : Pace := ⟨1, slack, Nat.le_refl 1⟩

section Counts

variable (p : Program) (limit slack : Nat)

/-- the program with another limit -/
def Program.limited : Program := { p with stepLimit := limit }

theorem calls_count (nesting size : Nat) :
    CallsFollow (Accord.all p.graph) (.ahead slack) p.stepLimit limit (fun _ => True) size (p.invoke nesting)
      ((p.limited limit).invoke nesting) (p.trace nesting) := by
  induction nesting generalizing size with
  | zero => exact fun c values M M' hM _ _ _ _ _ => ⟨rfl, hM⟩
  | succ nesting ih =>
    intro c values M M' hM _ hv _ _ ht
    refine invoke_follows (p := p) (q := p.limited limit) (fun _ => True) hM (fun native hn => ⟨native, hn, ?_⟩)
      (fun _ _ => ⟨trivial, ih _⟩) (fun hn hb => ⟨hn, hb⟩) (fun body hn hb he ht => ⟨body, hn, hb, ?_⟩)
      (fun _ _ => trivial) ht
    · exact alike_all (fun value v _ => within_all v) _
    · refine enter_follows (p := p) (q := p.limited limit) hM hv rfl he ht fun _ hpush he ht => ?_
      exact run_follows (p := p) (q := p.limited limit) (trace_steps p nesting) (trace_steps (p.limited limit) nesting)
        (invoke_size p nesting) trivial (fun _ _ i _ _ _ _ _ => admits_all i) (ih _) hpush he ht

/-- **A program does not notice its own count**, nor its limit: from a machine that has counted some more instructions, a
call answers or traps alike, and leaves the same machine behind but for the count, if no limit stops it. -/
theorem invoke_counts (nesting : Nat) (c : MethodId) (values : List Value) {M M' : Machine}
    (hsame : M' = M.withSteps M'.steps) (hsteps : M'.steps ≤ M.steps + slack)
    (hlimit : ((p.invoke nesting c values).final M).steps ≤ p.stepLimit)
    (hlimit' : ((p.invoke nesting c values).final M).steps + slack ≤ limit) :
    Follows (fun _ => True) (.ahead slack) Eq (p.invoke nesting c values M) ((p.limited limit).invoke nesting c values M') :=
  (calls_count p limit slack nesting _ c values M M' ⟨hsame, by simpa [Pace.ahead] using hsteps, tidy_all M⟩ trivial
    (fun v _ => within_all v) rfl (fun _ _ => trivial) ⟨hlimit, by simpa [Pace.ahead] using hlimit'⟩).imp
    fun _ _ h => h.1.symm

end Counts

end DisposalWeaver
