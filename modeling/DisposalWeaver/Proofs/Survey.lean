/-
What the verifier has found out about a body that it accepts.

A survey assigns a height to every position that it reached. While it is under way (`Survey.Fits`), every assigned
position passes its own rule with its height, and each arrival that passing it leads to either has been recorded or is
still pending; no height is greater than the depth. Results:
- `propagate_fits`: a worklist that empties without a rejection leaves nothing pending, and has recorded every arrival
  that was ever pending;
- `survey_sound`: so the heights of an accepted body start at 0, start a handler at the height of its kind, and agree
  along every way on;
- `survey_ok`: the other way round, a body with such heights is accepted.
-/
import DisposalWeaver.Body.Verification
import DisposalWeaver.Proofs.Outcomes

namespace DisposalWeaver

/-- the arrival has been recorded -/
def Survey.Records (s : Survey) (a : Arrival) : Prop := s.heights[a.position]? = some (some a.height)

namespace Body

variable {g : TypeGraph} {m : MethodDecl} {body : Body} {i : Instruction} {here : Arrival} {p : Passage}

/-! ## The rule of one instruction -/

/-- where the common rule leads -/
def flowPassage (g : TypeGraph) (body : Body) (i : Instruction) (here : Arrival) : Passage :=
  let height := here.height - (i.stackEffect g).1 + (i.stackEffect g).2
  { depth := height
    onward := if i.isTerminal then none else some ⟨here.position + 1, height⟩
    jump := (i.target?.bind body.position?).map fun q => ⟨q, height⟩ }

theorem resolve_eq_ok {t : Handle} {q : Nat} : body.resolve t = .ok q ↔ body.position? t = some q := by
  unfold resolve
  cases body.position? t <;> simp

theorem jumpArrival_eq_ok {height : Nat} {jump : Option Arrival} : body.jumpArrival i height = .ok jump ↔
    (∀ t, i.target? = some t → (body.position? t).isSome = true) ∧
      jump = (i.target?.bind body.position?).map fun q => ⟨q, height⟩ := by
  unfold jumpArrival
  cases ht : i.target? with
  | none =>
    simp only [Except.ok.injEq, reduceCtorEq, false_implies, implies_true, Option.bind_none, Option.map_none, true_and]
    exact eq_comm
  | some t =>
    simp only [Option.some.injEq, forall_eq', Option.bind_some]
    unfold resolve
    cases body.position? t with
    | none => simp [Except.map]
    | some q =>
      simp only [Except.map, Except.ok.injEq, Option.isSome_some, Option.map_some, true_and]
      exact eq_comm

theorem nextArrival_eq_ok {k height : Nat} {onward : Option Arrival} : body.nextArrival i k height = .ok onward ↔
    (i.isTerminal = false → k + 1 < body.size) ∧
      onward = if i.isTerminal then none else some ⟨k + 1, height⟩ := by
  unfold nextArrival
  cases i.isTerminal with
  | true =>
    simp only [↓reduceIte, Except.ok.injEq, reduceCtorEq, false_implies, true_and]
    exact eq_comm
  | false =>
    by_cases hk : body.size ≤ k + 1
    · simp [hk, Nat.not_lt.2 hk]
    · simp only [Bool.false_eq_true, ↓reduceIte, hk, Except.ok.injEq, Nat.lt_of_not_le hk, implies_true, true_and]
      exact eq_comm

theorem flow_eq_ok : body.flow g i here = .ok p ↔ ((i.stackEffect g).1 ≤ here.height ∧
    (∀ t, i.target? = some t → (body.position? t).isSome = true) ∧ (i.isTerminal = false → here.position + 1 < body.size)) ∧
      p = body.flowPassage g i here := by
  constructor
  · intro h
    unfold flow at h
    simp only at h
    split at h
    · cases h
    · next henough =>
      obtain ⟨jump, hjump, h⟩ := ok_of_bind h
      obtain ⟨onward, honward, h⟩ := ok_of_bind h
      cases h
      obtain ⟨htarget, rfl⟩ := jumpArrival_eq_ok.1 hjump
      obtain ⟨hnext, rfl⟩ := nextArrival_eq_ok.1 honward
      exact ⟨⟨Nat.le_of_not_lt henough, htarget, hnext⟩, rfl⟩
  · rintro ⟨⟨henough, htarget, hnext⟩, rfl⟩
    unfold flow
    simp only [Nat.not_lt.2 henough, ↓reduceIte, jumpArrival_eq_ok.2 ⟨htarget, rfl⟩, nextArrival_eq_ok.2 ⟨hnext, rfl⟩]
    rfl

/-- what an instruction needs under the common rule, and where it leads -/
structure Flows (g : TypeGraph) (body : Body) (i : Instruction) (here : Arrival) (p : Passage) : Prop where
  enough : (i.stackEffect g).1 ≤ here.height
  depth : p.depth = here.height - (i.stackEffect g).1 + (i.stackEffect g).2
  jump : ∀ t, i.target? = some t → ∃ position, body.position? t = some position ∧ p.jump = some ⟨position, p.depth⟩
  onward : i.isTerminal = false → p.onward = some ⟨here.position + 1, p.depth⟩
  level : ∀ a ∈ p.arrivals, a.height = p.depth

theorem flow_ok (h : body.flow g i here = .ok p) : Flows g body i here p := by
  obtain ⟨⟨henough, htarget, -⟩, rfl⟩ := flow_eq_ok.1 h
  refine ⟨henough, rfl, fun t ht => ?_, fun hi => by simp [flowPassage, hi], fun a ha => ?_⟩
  · obtain ⟨q, hq⟩ := Option.isSome_iff_exists.1 (htarget t ht)
    exact ⟨q, hq, by simp [flowPassage, ht, hq]⟩
  · simp only [Passage.arrivals, flowPassage, List.mem_append, Option.mem_toList, Option.map_eq_some_iff] at ha
    rcases ha with ha | ⟨q, -, rfl⟩
    · split at ha
      · cases ha
      · cases ha
        rfl
    · rfl

/-- every instruction passes by the common rule, except the three that a return, a `leave` or the end of a handler is -/
theorem passage_flow (h : body.passage g m i here = .ok p) (h1 : i ≠ .ret) (h2 : ∀ t, i ≠ .leave t)
    (h3 : i ≠ .endfinally) : body.flow g i here = .ok p := by
  cases i with
  | ldarg n | starg n | ldloc n | ldloca n | stloc n =>
    simp only [passage.eq_def] at h
    split at h
    · cases h
    · exact h
  | constrained t =>
    simp only [passage.eq_def] at h
    split at h
    · exact h
    · cases h
  | ret => exact absurd rfl h1
  | leave t => exact absurd rfl (h2 t)
  | endfinally => exact absurd rfl h3
  | _ => exact h

theorem passage_flows (h : body.passage g m i here = .ok p) (h1 : i ≠ .ret) (h2 : ∀ t, i ≠ .leave t)
    (h3 : i ≠ .endfinally) : Flows g body i here p :=
  flow_ok (passage_flow h h1 h2 h3)

theorem passage_ret (h : body.passage g m .ret here = .ok p) : here.height = m.resultCount ∧ p = {} := by
  simp only [passage.eq_def] at h
  split at h
  · next hr => cases h; exact ⟨hr, rfl⟩
  · cases h

theorem passage_leave {t : Handle} (h : body.passage g m (.leave t) here = .ok p) :
    ∃ position, body.position? t = some position ∧ p = { jump := some ⟨position, 0⟩ } := by
  simp only [passage.eq_def] at h
  cases hr : body.resolve t with
  | error e => rw [hr] at h; cases h
  | ok position =>
    rw [hr] at h
    cases h
    exact ⟨position, resolve_eq_ok.1 hr, rfl⟩

theorem passage_endfinally (h : body.passage g m .endfinally here = .ok p) : p = {} := by
  cases h; rfl

/-- no arrival that a passage leads to is higher than the passage -/
theorem passage_level (h : body.passage g m i here = .ok p) {a : Arrival} (ha : a ∈ p.arrivals) :
    a.height ≤ p.depth := by
  by_cases h1 : i = .ret
  · subst h1
    rw [(passage_ret h).2] at ha
    cases ha
  by_cases h2 : ∃ t, i = .leave t
  · obtain ⟨t, rfl⟩ := h2
    obtain ⟨position, -, rfl⟩ := passage_leave h
    cases List.mem_singleton.1 ha
    exact Nat.le_refl 0
  by_cases h3 : i = .endfinally
  · subst h3
    rw [passage_endfinally h] at ha
    cases ha
  exact Nat.le_of_eq ((passage_flows h h1 (fun t ht => h2 ⟨t, ht⟩) h3).level a ha)

/-- passing a jump leads to its target, which is placed -/
theorem passage_jump (h : body.passage g m i here = .ok p) {t : Handle} (ht : i.target? = some t) :
    ∃ position height, body.position? t = some position ∧ ⟨position, height⟩ ∈ p.arrivals := by
  by_cases h2 : ∃ t, i = .leave t
  · obtain ⟨u, rfl⟩ := h2
    obtain ⟨position, hp, rfl⟩ := passage_leave h
    cases ht
    exact ⟨position, 0, hp, List.mem_singleton.2 rfl⟩
  · have hf := passage_flows h (by rintro rfl; cases ht) (fun u hu => h2 ⟨u, hu⟩) (by rintro rfl; cases ht)
    obtain ⟨position, hp, hjump⟩ := hf.jump t ht
    exact ⟨position, p.depth, hp, List.mem_append_right _ (by rw [hjump]; exact List.mem_singleton.2 rfl)⟩

theorem passage_target (h : body.passage g m i here = .ok p) {t : Handle} (ht : i.target? = some t) :
    (body.position? t).isSome := by
  obtain ⟨position, -, hp, -⟩ := passage_jump h ht
  rw [hp]
  rfl

/-- passing an instruction leads to the next one, if control goes on there -/
theorem passage_onward (h : body.passage g m i here = .ok p) (hi : i.isTerminal = false) :
    ∃ height, ⟨here.position + 1, height⟩ ∈ p.arrivals := by
  have hf := passage_flows h (by rintro rfl; cases hi) (by rintro t rfl; cases hi) (by rintro rfl; cases hi)
  exact ⟨p.depth, List.mem_append_left _ (by rw [hf.onward hi]; exact List.mem_singleton.2 rfl)⟩

/-! ## The worklist -/

/-- what holds while heights are carried along: recorded positions pass, and lead to nothing that is lost sight of -/
structure Fits (g : TypeGraph) (m : MethodDecl) (body : Body) (s : Survey) (pending : List Arrival) : Prop where
  passes : ∀ a, s.Records a → ∃ i p, body.fetch? a.position = some i ∧ body.passage g m i a = .ok p ∧
    p.depth ≤ s.depth ∧ ∀ b ∈ p.arrivals, s.Records b ∨ b ∈ pending
  bounded : ∀ a, s.Records a → a.height ≤ s.depth
  waiting : ∀ a ∈ pending, a.height ≤ s.depth

/-- what is added by recording one arrival -/
theorem records_set {s : Survey} {depth : Nat} (hs : s.heights[here.position]? = some none) (a : Arrival) :
    Survey.Records ⟨s.heights.set here.position (some here.height), depth⟩ a ↔ a = here ∨ s.Records a := by
  have hlt : here.position < s.heights.length := (List.getElem?_eq_some_iff.1 hs).1
  unfold Survey.Records
  simp only [List.getElem?_set]
  by_cases h : here.position = a.position
  · simp only [h, ↓reduceIte, h ▸ hlt, Option.some.injEq]
    constructor
    · rintro ha
      exact Or.inl (by cases a; cases here; simp_all)
    · rintro (rfl | ha)
      · rfl
      · rw [h, ha] at hs; cases hs
  · simp only [h, ↓reduceIte]
    exact ⟨Or.inr, fun h1 => h1.resolve_left fun h2 => h (h2 ▸ rfl)⟩

theorem visit_ok {starts : List Nat} (h : body.visit g m starts here = .ok p) :
    ∃ i, body.fetch? here.position = some i ∧ body.passage g m i here = .ok p := by
  unfold visit at h
  split at h
  · cases h
  · split at h
    · next i hi => exact ⟨i, hi, h⟩
    · cases h

/-- one step of the worklist: the arrival is recorded, and what it leads to waits -/
theorem fits_visit {s : Survey} {starts : List Nat} {pending : List Arrival} (hf : Fits g m body s (here :: pending))
    (hs : s.heights[here.position]? = some none) (h : body.visit g m starts here = .ok p) :
    Fits g m body ⟨s.heights.set here.position (some here.height), max s.depth p.depth⟩ (p.arrivals ++ pending) := by
  obtain ⟨i, hi, hp⟩ := visit_ok h
  refine ⟨fun a ha => ?_, fun a ha => ?_, fun a ha => ?_⟩
  · rcases (records_set hs a).1 ha with rfl | ha
    · exact ⟨i, p, hi, hp, Nat.le_max_right _ _, fun b hb => Or.inr (List.mem_append_left _ hb)⟩
    · obtain ⟨j, q, hj, hq, hd, hb⟩ := hf.passes a ha
      refine ⟨j, q, hj, hq, Nat.le_trans hd (Nat.le_max_left _ _), fun b h1 => ?_⟩
      rcases hb b h1 with h2 | h2
      · exact Or.inl ((records_set hs b).2 (Or.inr h2))
      · rcases List.mem_cons.1 h2 with h2 | h2
        · exact Or.inl ((records_set hs b).2 (Or.inl h2))
        · exact Or.inr (List.mem_append_right _ h2)
  · rcases (records_set hs a).1 ha with rfl | ha
    · exact Nat.le_trans (hf.waiting _ List.mem_cons_self) (Nat.le_max_left _ _)
    · exact Nat.le_trans (hf.bounded a ha) (Nat.le_max_left _ _)
  · rcases List.mem_append.1 ha with h1 | h1
    · exact Nat.le_trans (passage_level hp h1) (Nat.le_max_right _ _)
    · exact Nat.le_trans (hf.waiting a (List.mem_cons_of_mem _ h1)) (Nat.le_max_left _ _)

/-- an arrival that has been recorded need not wait -/
theorem fits_again {s : Survey} {pending : List Arrival} (hf : Fits g m body s (here :: pending)) (hs : s.Records here) :
    Fits g m body s pending := by
  refine ⟨fun a ha => ?_, hf.bounded, fun a ha => hf.waiting a (List.mem_cons_of_mem _ ha)⟩
  obtain ⟨i, p, hi, hp, hd, hb⟩ := hf.passes a ha
  refine ⟨i, p, hi, hp, hd, fun b h1 => ?_⟩
  rcases hb b h1 with h2 | h2
  · exact Or.inl h2
  · rcases List.mem_cons.1 h2 with rfl | h2
    · exact Or.inl hs
    · exact Or.inr h2

/-- **A worklist that empties has recorded everything.** Nothing is pending any more, and every arrival that was recorded
or pending is recorded. -/
theorem propagate_fits {starts : List Nat} {heights : List (Option Nat)} {depth : Nat} {pending : List Arrival}
    {s : Survey} (hf : Fits g m body ⟨heights, depth⟩ pending)
    (h : body.propagate g m starts heights depth pending = .ok s) :
    Fits g m body s [] ∧ (∀ a, Survey.Records ⟨heights, depth⟩ a → s.Records a) ∧ ∀ a ∈ pending, s.Records a := by
  fun_induction propagate g m body starts heights depth pending with
  | case1 heights depth =>
    cases h
    exact ⟨hf, fun a ha => ha, fun a ha => by cases ha⟩
  | case3 heights depth here pending hs ih =>
    obtain ⟨h1, h2, h3⟩ := ih (fits_again hf hs) h
    refine ⟨h1, h2, fun a ha => ?_⟩
    rcases List.mem_cons.1 ha with rfl | ha
    · exact h2 _ hs
    · exact h3 a ha
  | case6 heights depth here pending hs p hv ih =>
    obtain ⟨h1, h2, h3⟩ := ih (fits_visit hf hs hv) h
    refine ⟨h1, fun a ha => h2 a ((records_set hs a).2 (Or.inr ha)), fun a ha => ?_⟩
    rcases List.mem_cons.1 ha with rfl | ha
    · exact h2 _ ((records_set (s := ⟨heights, depth⟩) hs _).2 (Or.inl rfl))
    · exact h3 a (List.mem_append_right _ ha)
  | _ => cases h

/-! ## Accepted bodies -/

/-- what a survey of an accepted body says -/
structure Sound (g : TypeGraph) (m : MethodDecl) (body : Body) (s : Survey) : Prop where
  /-- the first instruction is reached with an empty stack -/
  start : s.Records ⟨0, 0⟩
  /-- the boundaries of a region are placed, and its handler is reached with the height of its kind -/
  handler : ∀ h ∈ body.handlers, (∀ b ∈ h.boundaries, (body.position? b).isSome) ∧
    ∃ position, body.position? h.handlerStart = some position ∧ s.Records ⟨position, h.kind.entryHeight⟩
  /-- what is reached passes, and what passing it leads to is reached -/
  passes : ∀ a, s.Records a → ∃ i p, body.fetch? a.position = some i ∧ body.passage g m i a = .ok p ∧
    p.depth ≤ s.depth ∧ ∀ b ∈ p.arrivals, s.Records b
  bounded : ∀ a, s.Records a → a.height ≤ s.depth

/-- a handler is entered at its start with the height of its kind, if its boundaries are placed -/
theorem entry_eq_ok {handler : Handler} {e : Nat × Arrival} : body.entry handler = .ok e ↔
    (∀ b ∈ handler.boundaries, (body.position? b).isSome) ∧ body.position? handler.tryStart = some e.1 ∧
      body.position? handler.handlerStart = some e.2.position ∧ e.2.height = handler.kind.entryHeight := by
  unfold entry
  constructor
  · intro h
    obtain ⟨tryStart, h1, h⟩ := ok_of_bind h
    obtain ⟨tryEnd, h2, h⟩ := ok_of_bind h
    obtain ⟨handlerStart, h3, h⟩ := ok_of_bind h
    obtain ⟨handlerEnd, h4, h⟩ := ok_of_bind h
    cases h
    refine ⟨?_, resolve_eq_ok.1 h1, resolve_eq_ok.1 h3, rfl⟩
    simp [Handler.boundaries, resolve_eq_ok.1 h1, resolve_eq_ok.1 h2, resolve_eq_ok.1 h3, resolve_eq_ok.1 h4]
  · obtain ⟨start, position, height⟩ := e
    rintro ⟨hplaced, hstart, hhandler, rfl⟩
    obtain ⟨tryEnd, htryEnd⟩ := Option.isSome_iff_exists.1 (hplaced handler.tryEnd (by simp [Handler.boundaries]))
    obtain ⟨handlerEnd, hhandlerEnd⟩ :=
      Option.isSome_iff_exists.1 (hplaced handler.handlerEnd (by simp [Handler.boundaries]))
    rw [resolve_eq_ok.2 hstart, resolve_eq_ok.2 htryEnd, resolve_eq_ok.2 hhandler, resolve_eq_ok.2 hhandlerEnd]
    rfl

theorem le_foldl_max (heights : List Nat) (start : Nat) :
    start ≤ heights.foldl max start ∧ ∀ h ∈ heights, h ≤ heights.foldl max start := by
  induction heights generalizing start with
  | nil => simp
  | cons first rest ih =>
    obtain ⟨h1, h2⟩ := ih (max start first)
    rw [List.foldl_cons]
    refine ⟨by omega, fun h hh => ?_⟩
    rcases List.mem_cons.1 hh with rfl | hh
    · omega
    · exact h2 h hh

/-- a list of steps answers what its steps answer -/
theorem mapM_ok {α β ε : Type} {f : α → Except ε β} {xs : List α} {ys : List β} (h : xs.mapM f = .ok ys) :
    (∀ x ∈ xs, ∃ y ∈ ys, f x = .ok y) ∧ ∀ y ∈ ys, ∃ x ∈ xs, f x = .ok y := by
  induction xs generalizing ys with
  | nil =>
    cases h
    exact ⟨fun x hx => absurd hx List.not_mem_nil, fun y hy => absurd hy List.not_mem_nil⟩
  | cons first xs ih =>
    rw [List.mapM_cons] at h
    obtain ⟨y, hy, h⟩ := ok_of_bind h
    obtain ⟨rest, hr, h⟩ := ok_of_bind h
    cases h
    obtain ⟨hforth, hback⟩ := ih hr
    constructor
    · intro x hx
      rcases List.mem_cons.1 hx with rfl | hx
      · exact ⟨y, List.mem_cons_self, hy⟩
      · obtain ⟨z, hz, h1⟩ := hforth x hx
        exact ⟨z, List.mem_cons_of_mem _ hz, h1⟩
    · intro z hz
      rcases List.mem_cons.1 hz with rfl | hz
      · exact ⟨first, List.mem_cons_self, hy⟩
      · obtain ⟨x, hx, h1⟩ := hback z hz
        exact ⟨x, List.mem_cons_of_mem _ hx, h1⟩

theorem exists_mapM {α β ε : Type} {f : α → Except ε β} {xs : List α} (h : ∀ x ∈ xs, ∃ y, f x = .ok y) :
    ∃ ys, xs.mapM f = .ok ys := by
  induction xs with
  | nil => exact ⟨[], rfl⟩
  | cons first xs ih =>
    obtain ⟨y, hy⟩ := h first List.mem_cons_self
    obtain ⟨ys, hys⟩ := ih fun x hx => h x (List.mem_cons_of_mem _ hx)
    exact ⟨y :: ys, by rw [List.mapM_cons, hy, hys]; rfl⟩

/-- **An accepted body has a sound survey.** -/
theorem survey_sound {s : Survey} (h : body.survey g m = .ok s) : Sound g m body s := by
  unfold survey at h
  split at h
  · cases h
  split at h
  · cases h
  next entries he =>
  have hf : Fits g m body ⟨List.replicate body.size none, ((entries.map Prod.snd).map Arrival.height).foldl max 0⟩
      ((entries.map Prod.snd).reverse ++ [⟨0, 0⟩]) := by
    have hnone : ∀ a, ¬ Survey.Records ⟨List.replicate body.size none,
        ((entries.map Prod.snd).map Arrival.height).foldl max 0⟩ a := fun a ha => by
      simp [Survey.Records, List.getElem?_replicate] at ha
    refine ⟨fun a ha => absurd ha (hnone a), fun a ha => absurd ha (hnone a), fun a ha => ?_⟩
    rcases List.mem_append.1 ha with h1 | h1
    · exact (le_foldl_max _ 0).2 _ (List.mem_map_of_mem (List.mem_reverse.1 h1))
    · rw [List.mem_singleton.1 h1]
      exact Nat.zero_le _
  obtain ⟨h1, -, h3⟩ := propagate_fits hf h
  refine ⟨h3 _ (by simp), fun handler hh => ?_, fun a ha => ?_, h1.bounded⟩
  · obtain ⟨e, hmem, hok⟩ := (mapM_ok he).1 _ hh
    obtain ⟨hb, -, hp, hheight⟩ := entry_eq_ok.1 hok
    refine ⟨hb, e.2.position, hp, ?_⟩
    rw [← hheight]
    exact h3 _ (List.mem_append_left _ (List.mem_reverse.2 (List.mem_map_of_mem hmem)))
  · obtain ⟨i, p, hi, hp, hd, hb⟩ := h1.passes a ha
    exact ⟨i, p, hi, hp, hd, fun b h2 => (hb b h2).resolve_right (List.not_mem_nil)⟩

/-! ## Bodies that are accepted -/

/-- where the body may be reached, with one height for each position: it passes there, and what passing it leads to is
among them -/
structure Leveled (g : TypeGraph) (m : MethodDecl) (body : Body) (starts : List Nat) (R : Arrival → Prop) : Prop where
  unique : ∀ a b, R a → R b → a.position = b.position → a.height = b.height
  passes : ∀ a, R a → ∃ p, body.visit g m starts a = .ok p ∧ ∀ b ∈ p.arrivals, R b

variable {starts : List Nat} {R : Arrival → Prop}

/-- only what the body has is visited -/
theorem visit_position (h : body.visit g m starts here = .ok p) : here.position < body.size := by
  obtain ⟨i, hi, -⟩ := visit_ok h
  unfold fetch? at hi
  obtain ⟨t, ht, -⟩ := Option.bind_eq_some_iff.1 hi
  exact (List.getElem?_eq_some_iff.1 ht).1

/-- a worklist of such arrivals empties -/
theorem propagate_ok (hl : Leveled g m body starts R) {heights : List (Option Nat)} {depth : Nat}
    {pending : List Arrival} (hlength : heights.length = body.size)
    (hrecorded : ∀ a, Survey.Records ⟨heights, depth⟩ a → R a) (hpending : ∀ a ∈ pending, R a) :
    ∃ s, body.propagate g m starts heights depth pending = .ok s := by
  fun_induction propagate g m body starts heights depth pending with
  | case1 heights depth => exact ⟨_, rfl⟩
  | case2 heights depth here pending hs =>
    obtain ⟨p, hp, -⟩ := hl.passes here (hpending _ List.mem_cons_self)
    exact absurd (visit_position hp) (Nat.not_lt.2 (hlength ▸ List.getElem?_eq_none_iff.1 hs))
  | case3 heights depth here pending hs ih =>
    exact ih hlength hrecorded fun a ha => hpending a (List.mem_cons_of_mem _ ha)
  | case4 heights depth here pending expected hs hne =>
    exact absurd (hl.unique ⟨here.position, expected⟩ here (hrecorded _ hs) (hpending _ List.mem_cons_self) rfl) hne
  | case5 heights depth here pending hs fault hv =>
    obtain ⟨p, hp, -⟩ := hl.passes here (hpending _ List.mem_cons_self)
    rw [hp] at hv
    cases hv
  | case6 heights depth here pending hs passage hv ih =>
    obtain ⟨p, hp, harrivals⟩ := hl.passes here (hpending _ List.mem_cons_self)
    cases hp.symm.trans hv
    refine ih (by rw [List.length_set, hlength]) (fun a ha => ?_) fun a ha => ?_
    · rcases (records_set (s := ⟨heights, depth⟩) hs a).1 ha with rfl | ha
      · exact hpending _ List.mem_cons_self
      · exact hrecorded a ha
    · rcases List.mem_append.1 ha with ha | ha
      · exact harrivals a ha
      · exact hpending a (List.mem_cons_of_mem _ ha)

/-- **A body with a height for each position that it reaches is accepted.** -/
theorem survey_ok {entries : List (Nat × Arrival)} (he : body.handlers.mapM body.entry = .ok entries)
    (hl : Leveled g m body (entries.map Prod.fst) R) (hstart : R ⟨0, 0⟩) (hhandlers : ∀ e ∈ entries, R e.2) :
    ∃ s, body.survey g m = .ok s := by
  have hnonempty : body.order.isEmpty = false := by
    obtain ⟨p, hp, -⟩ := hl.passes _ hstart
    have hsize := visit_position hp
    unfold size at hsize
    cases ho : body.order with
    | nil => rw [ho] at hsize; cases hsize
    | cons t rest => rfl
  have hnone : ∀ depth a, ¬ Survey.Records ⟨List.replicate body.size none, depth⟩ a := fun depth a ha => by
    simp [Survey.Records, List.getElem?_replicate] at ha
  unfold survey
  simp only [hnonempty, Bool.false_eq_true, ↓reduceIte, he]
  refine propagate_ok hl List.length_replicate (fun a ha => absurd ha (hnone _ a)) fun a ha => ?_
  rcases List.mem_append.1 ha with ha | ha
  · obtain ⟨e, he, rfl⟩ := List.mem_map.1 (List.mem_reverse.1 ha)
    exact hhandlers e he
  · rw [List.mem_singleton.1 ha]
    exact hstart

/-- do the given heights show that the body is accepted? -/
def certified (g : TypeGraph) (m : MethodDecl) (body : Body) (heights : List (Option Nat)) : Bool :=
  match body.handlers.mapM body.entry with
  | .error _ => false
  | .ok entries =>
    let isReached (a : Arrival) : Bool := heights[a.position]? == some (some a.height)
    isReached ⟨0, 0⟩ && entries.all (fun e => isReached e.2) &&
      (List.range heights.length).all fun k =>
        match heights[k]? with
        | some (some height) =>
          match body.visit g m (entries.map Prod.fst) ⟨k, height⟩ with
          | .ok p => p.arrivals.all isReached
          | .error _ => false
        | _ => true

theorem verify_of_certified (heights : List (Option Nat)) (h : body.certified g m heights = true) :
    ∃ depth, body.verify g m = .ok depth := by
  unfold certified at h
  split at h
  · cases h
  next entries he =>
  simp only [Bool.and_eq_true, List.all_eq_true, beq_iff_eq, List.mem_range] at h
  obtain ⟨⟨hstart, hhandlers⟩, hall⟩ := h
  have hl : Leveled g m body (entries.map Prod.fst) (Survey.Records ⟨heights, 0⟩) := by
    refine ⟨fun a b ha hb hsame => ?_, fun a ha => ?_⟩
    · unfold Survey.Records at ha hb
      rw [hsame, hb] at ha
      exact (Option.some.inj (Option.some.inj ha)).symm
    · have hpass := hall a.position (List.getElem?_eq_some_iff.1 ha).1
      unfold Survey.Records at ha
      rw [ha] at hpass
      simp only at hpass
      split at hpass
      · next p hp => exact ⟨p, hp, fun b hb => beq_iff_eq.1 (List.all_eq_true.1 hpass b hb)⟩
      · cases hpass
  obtain ⟨s, hs⟩ := survey_ok he hl hstart hhandlers
  exact ⟨s.depth, by rw [verify, hs]; rfl⟩

end Body

end DisposalWeaver
