/-
Which bodies the verifier accepts.

The verifier is a worklist, and what it decides can be said without one. Control goes from position to position
(`Body.Leads`, `Body.Reachable`), and a body is accepted if its reachable positions can be given heights such that every
instruction keeps its own rule (`Body.Obeys`) and hands on the height that it leaves behind (`Body.Leveling`). There is only
one way to do so, and the depth that is answered is the greatest height in it (`Body.Accepts`).

- `Body.Explores`: the worklist, with any pending arrival taken next. `Pursued` is its invariant.
- `explores_accepts`: a worklist that empties has found the levels, in whatever order it was worked through.
- `verify_decides`: acceptance and depth are those of the levels, so no order matters, of handlers or of arrivals.
-/
import Mathlib.Logic.Relation
import Mathlib.Order.Bounds.Basic
import DisposalWeaver.Proofs.Survey

namespace DisposalWeaver

/-- the height that an instruction leaves behind, on every way that it leads to -/
def Instruction.heightAfter (g : TypeGraph) (i : Instruction) (height : Nat) : Nat :=
  match i with
  | .leave _ => 0
  | _ => height - (i.stackEffect g).1 + (i.stackEffect g).2

/-- the height that has been recorded for a position -/
def Survey.level (s : Survey) (k : Nat) : Nat := (s.heights[k]?.join).getD 0

theorem Survey.Records.level {s : Survey} {a : Arrival} (h : s.Records a) : s.level a.position = a.height := by
  unfold Survey.Records at h
  simp [Survey.level, h]

namespace Body

/-! ## Levels -/

/-- control goes from the instruction at the position to another position -/
inductive Leads (body : Body) (i : Instruction) (k : Nat) : Nat → Prop where
  | onward (h : i.isTerminal = false) : body.Leads i k (k + 1)
  | jump {t q} (ht : i.target? = some t) (hq : body.position? t = some q) : body.Leads i k q

/-- control may get to the position, from the first instruction or from the entry of a handler -/
inductive Reachable (body : Body) : Nat → Prop where
  | start : body.Reachable 0
  | handler {h k} (hh : h ∈ body.handlers) (hk : body.position? h.handlerStart = some k) : body.Reachable k
  | step {k i q} (hk : body.Reachable k) (hi : body.fetch? k = some i) (hq : body.Leads i k q) : body.Reachable q

/-- the rule of one instruction that is reached with a height -/
structure Obeys (g : TypeGraph) (m : MethodDecl) (body : Body) (i : Instruction) (here : Arrival) : Prop where
  argumentInRange : ∀ n, i = .ldarg n ∨ i = .starg n → n.toNat < m.argumentCount
  localInRange : ∀ n, i = .ldloc n ∨ i = .ldloca n ∨ i = .stloc n → n.toNat < body.locals.size
  constrained : ∀ t, i = .constrained t → ∃ c, body.fetch? (here.position + 1) = some (.callvirt c)
  returns : i = .ret → here.height = m.resultCount
  enough : (i.stackEffect g).1 ≤ here.height
  target : ∀ t, i.target? = some t → (body.position? t).isSome = true
  onward : i.isTerminal = false → here.position + 1 < body.size

/-- heights for all reachable positions: handlers and regions are entered as they have to be, every instruction keeps its
rule, and where it leads the height is the one that it leaves behind -/
structure Leveling (g : TypeGraph) (m : MethodDecl) (body : Body) (level : Nat → Nat) : Prop where
  start : level 0 = 0
  handler : ∀ h ∈ body.handlers, ∀ k, body.position? h.handlerStart = some k → level k = h.kind.entryHeight
  region : ∀ h ∈ body.handlers, ∀ k, body.position? h.tryStart = some k → body.Reachable k → level k = 0
  obeys : ∀ k, body.Reachable k → ∃ i, body.fetch? k = some i ∧ body.Obeys g m i ⟨k, level k⟩
  onward : ∀ k i q, body.Reachable k → body.fetch? k = some i → body.Leads i k q → level q = i.heightAfter g (level k)

/-- the levels give the height, at the entry of a handler or behind a reachable instruction -/
inductive Attains (g : TypeGraph) (body : Body) (level : Nat → Nat) : Nat → Prop where
  | handler {h} (hh : h ∈ body.handlers) : body.Attains g level h.kind.entryHeight
  | after {k i} (hk : body.Reachable k) (hi : body.fetch? k = some i) : body.Attains g level (i.heightAfter g (level k))

/-- the body has code, its boundaries are placed, and it has levels, which are the only ones and give no greater height
than the depth -/
structure Accepts (g : TypeGraph) (m : MethodDecl) (body : Body) (depth : Nat) : Prop where
  nonempty : body.order ≠ []
  boundaries : ∀ h ∈ body.handlers, ∀ b ∈ h.boundaries, (body.position? b).isSome = true
  levels : ∃ level, body.Leveling g m level ∧
    (∀ level', body.Leveling g m level' → ∀ k, body.Reachable k → level' k = level k) ∧
    IsGreatest {height | body.Attains g level height} depth

section Unique

variable {g : TypeGraph} {m : MethodDecl} {body : Body} {level level' : Nat → Nat} {depth depth' : Nat}

/-- **There is only one way to give heights** to what can be reached. -/
theorem Leveling.unique (h : body.Leveling g m level) (h' : body.Leveling g m level') {k : Nat} (hk : body.Reachable k) :
    level' k = level k := by
  induction hk with
  | start => rw [h.start, h'.start]
  | handler hh hk => rw [h.handler _ hh _ hk, h'.handler _ hh _ hk]
  | step hk hi hq ih => rw [h.onward _ _ _ hk hi hq, h'.onward _ _ _ hk hi hq, ih]

theorem Attains.congr (hsame : ∀ k, body.Reachable k → level' k = level k) {height : Nat}
    (h : body.Attains g level' height) : body.Attains g level height := by
  cases h with
  | handler hh => exact .handler hh
  | after hk hi =>
    rw [hsame _ hk]
    exact .after hk hi

/-- so there is only one depth -/
theorem Accepts.depth_unique (h : body.Accepts g m depth) (h' : body.Accepts g m depth') : depth' = depth := by
  obtain ⟨level, hlevel, -, hdepth⟩ := h.levels
  obtain ⟨level', hlevel', -, hdepth'⟩ := h'.levels
  have hsame : ∀ k, body.Reachable k → level' k = level k := fun k hk => hlevel.unique hlevel' hk
  have hattains : {height | body.Attains g level' height} = {height | body.Attains g level height} :=
    Set.ext fun height => ⟨Attains.congr hsame, Attains.congr fun k hk => (hsame k hk).symm⟩
  exact (hattains ▸ hdepth').unique hdepth

end Unique

/-! ## The rule of one instruction -/

section Rules

variable {g : TypeGraph} {m : MethodDecl} {body : Body} {i : Instruction} {here : Arrival} {p : Passage}

theorem leads_iff {k q : Nat} : body.Leads i k q ↔
    (i.isTerminal = false ∧ q = k + 1) ∨ ∃ t, i.target? = some t ∧ body.position? t = some q := by
  constructor
  · intro h
    cases h with
    | onward h => exact .inl ⟨h, rfl⟩
    | jump ht hq => exact .inr ⟨_, ht, hq⟩
  · rintro (⟨h, rfl⟩ | ⟨t, ht, hq⟩)
    · exact .onward h
    · exact .jump ht hq

theorem heightAfter_of_ne_leave (h : ∀ t, i ≠ .leave t) (height : Nat) :
    i.heightAfter g height = height - (i.stackEffect g).1 + (i.stackEffect g).2 := by
  cases i with
  | leave t => exact absurd rfl (h t)
  | _ => rfl

/-- under the common rule, control arrives where the instruction leads, with the height that it leaves behind -/
theorem mem_flowPassage (h : ∀ t, i ≠ .leave t) {b : Arrival} : b ∈ (body.flowPassage g i here).arrivals ↔
    body.Leads i here.position b.position ∧ b.height = i.heightAfter g here.height := by
  rw [leads_iff, heightAfter_of_ne_leave h]
  obtain ⟨q, height⟩ := b
  simp only [flowPassage, Passage.arrivals, List.mem_append, Option.mem_toList, Option.map_eq_some_iff,
    Option.bind_eq_some_iff, Arrival.mk.injEq]
  constructor
  · rintro (honward | ⟨q', ⟨t, ht, hq⟩, rfl, rfl⟩)
    · split at honward
      · cases honward
      · next hterminal =>
        cases honward
        exact ⟨.inl ⟨by simpa using hterminal, rfl⟩, rfl⟩
    · exact ⟨.inr ⟨t, ht, hq⟩, rfl⟩
  · rintro ⟨⟨hterminal, rfl⟩ | ⟨t, ht, hq⟩, rfl⟩
    · exact .inl (by rw [hterminal]; rfl)
    · exact .inr ⟨q, ⟨t, ht, hq⟩, rfl, rfl⟩

/-- what passing an instruction comes to: it keeps its rule, and control arrives where it leads -/
structure Passed (g : TypeGraph) (m : MethodDecl) (body : Body) (i : Instruction) (here : Arrival) (p : Passage) : Prop where
  obeys : body.Obeys g m i here
  arrivals : ∀ b, b ∈ p.arrivals ↔ body.Leads i here.position b.position ∧ b.height = i.heightAfter g here.height
  depth : p.depth ≤ i.heightAfter g here.height
  /-- where a passage does not count the height that is left behind, that is the height that there was -/
  uncounted : i.heightAfter g here.height = p.depth ∨ i.heightAfter g here.height = here.height

theorem passage_passed (h : body.passage g m i here = .ok p) : Passed g m body i here p := by
  by_cases h1 : i = .ret
  · subst h1
    obtain ⟨hheight, rfl⟩ := passage_ret h
    have hobeys : body.Obeys g m .ret here :=
      ⟨by simp, by simp, by simp, fun _ => hheight, Nat.zero_le _, by simp [Instruction.target?],
        by simp [Instruction.isTerminal]⟩
    exact ⟨hobeys, by simp [Passage.arrivals, leads_iff, Instruction.isTerminal, Instruction.target?], Nat.zero_le _,
      .inr rfl⟩
  by_cases h2 : ∃ t, i = .leave t
  · obtain ⟨t, rfl⟩ := h2
    obtain ⟨q, hq, rfl⟩ := passage_leave h
    have hobeys : body.Obeys g m (.leave t) here :=
      ⟨by simp, by simp, by simp, by simp, Nat.zero_le _, by simp [Instruction.target?, hq],
        by simp [Instruction.isTerminal]⟩
    refine ⟨hobeys, fun b => ?_, Nat.zero_le _, .inl rfl⟩
    obtain ⟨q', height⟩ := b
    simp [Passage.arrivals, leads_iff, Instruction.isTerminal, Instruction.target?, Instruction.heightAfter, hq, eq_comm]
  by_cases h3 : i = .endfinally
  · subst h3
    cases passage_endfinally h
    have hobeys : body.Obeys g m .endfinally here :=
      ⟨by simp, by simp, by simp, by simp, Nat.zero_le _, by simp [Instruction.target?],
        by simp [Instruction.isTerminal]⟩
    exact ⟨hobeys, by simp [Passage.arrivals, leads_iff, Instruction.isTerminal, Instruction.target?], Nat.zero_le _,
      .inr rfl⟩
  have h2 : ∀ t, i ≠ .leave t := fun t ht => h2 ⟨t, ht⟩
  obtain ⟨⟨henough, htarget, hnext⟩, rfl⟩ := flow_eq_ok.1 (passage_flow h h1 h2 h3)
  refine ⟨⟨?_, ?_, ?_, fun hret => absurd hret h1, henough, htarget, hnext⟩, fun b => mem_flowPassage h2,
    (heightAfter_of_ne_leave h2 _).ge, .inl (heightAfter_of_ne_leave h2 _)⟩
  · rintro n (rfl | rfl) <;>
    · simp only [passage.eq_def] at h
      split at h
      · cases h
      · omega
  · rintro n (rfl | rfl | rfl) <;>
    · simp only [passage.eq_def] at h
      split at h
      · cases h
      · omega
  · rintro t rfl
    simp only [passage.eq_def] at h
    split at h
    · next c hc => exact ⟨c, hc⟩
    · cases h

/-- an instruction that keeps its rule passes -/
theorem Obeys.passage (h : body.Obeys g m i here) : ∃ p, body.passage g m i here = .ok p := by
  have hflow : body.flow g i here = .ok (body.flowPassage g i here) := flow_eq_ok.2 ⟨⟨h.enough, h.target, h.onward⟩, rfl⟩
  cases i with
  | ldarg n =>
    exact ⟨_, by simpa only [passage.eq_def, Nat.not_le.2 (h.argumentInRange n (.inl rfl)), ↓reduceIte] using hflow⟩
  | starg n =>
    exact ⟨_, by simpa only [passage.eq_def, Nat.not_le.2 (h.argumentInRange n (.inr rfl)), ↓reduceIte] using hflow⟩
  | ldloc n =>
    exact ⟨_, by simpa only [passage.eq_def, Nat.not_le.2 (h.localInRange n (.inl rfl)), ↓reduceIte] using hflow⟩
  | ldloca n =>
    exact ⟨_, by simpa only [passage.eq_def, Nat.not_le.2 (h.localInRange n (.inr (.inl rfl))), ↓reduceIte] using hflow⟩
  | stloc n =>
    exact ⟨_, by simpa only [passage.eq_def, Nat.not_le.2 (h.localInRange n (.inr (.inr rfl))), ↓reduceIte] using hflow⟩
  | constrained t =>
    obtain ⟨c, hc⟩ := h.constrained t rfl
    exact ⟨_, by simpa only [passage.eq_def, hc] using hflow⟩
  | ret => exact ⟨{}, by simp only [passage.eq_def, h.returns rfl, ↓reduceIte]⟩
  | leave t =>
    obtain ⟨q, hq⟩ := Option.isSome_iff_exists.1 (h.target t rfl)
    exact ⟨_, by simp only [passage.eq_def, resolve_eq_ok.2 hq]; rfl⟩
  | endfinally => exact ⟨{}, rfl⟩
  | _ => exact ⟨_, hflow⟩

end Rules

/-! ## The worklist, in any order -/

/-- a worklist under way: what is known, and the arrivals that wait -/
structure Worklist where
  survey : Survey
  pending : List Arrival

/-- the arrival is known or waits -/
def Worklist.Meets (w : Worklist) (a : Arrival) : Prop := w.survey.Records a ∨ a ∈ w.pending

/-- one step with any of the arrivals that wait: either it says what is known, or it comes to a new position and passes -/
inductive Takes (g : TypeGraph) (m : MethodDecl) (body : Body) (starts : List Nat) : Worklist → Worklist → Prop where
  | again {s pending here rest} (hp : pending.Perm (here :: rest)) (hs : s.Records here) :
      Takes g m body starts ⟨s, pending⟩ ⟨s, rest⟩
  | first {s pending here rest p} (hp : pending.Perm (here :: rest)) (hs : s.heights[here.position]? = some none)
      (hv : body.visit g m starts here = .ok p) :
      Takes g m body starts ⟨s, pending⟩
        ⟨⟨s.heights.set here.position (some here.height), max s.depth p.depth⟩, p.arrivals ++ rest⟩

/-- the worklist takes arrivals, again and again -/
def Explores (g : TypeGraph) (m : MethodDecl) (body : Body) (starts : List Nat) : Worklist → Worklist → Prop :=
  Relation.ReflTransGen (Takes g m body starts)

/-- the worklist that starts at the first instruction and at the handlers with these entries -/
def outset (body : Body) (entries : List (Nat × Arrival)) : Worklist where
  survey := ⟨List.replicate body.size none, ((entries.map Prod.snd).map Arrival.height).foldl max 0⟩
  pending := (entries.map Prod.snd).reverse ++ [⟨0, 0⟩]

section Exploration

variable {g : TypeGraph} {m : MethodDecl} {body : Body} {starts : List Nat} {entries : List (Nat × Arrival)}
  {w w' : Worklist} {s : Survey} {depth : Nat}

/-- the verifier is one such worklist: it takes the last arrival first -/
theorem propagate_explores {heights : List (Option Nat)} {pending : List Arrival}
    (h : body.propagate g m starts heights depth pending = .ok s) :
    Explores g m body starts ⟨⟨heights, depth⟩, pending⟩ ⟨s, []⟩ := by
  fun_induction propagate g m body starts heights depth pending with
  | case1 heights depth =>
    cases h
    exact .refl
  | case3 heights depth here pending hs ih => exact .head (.again (.refl _) hs) (ih h)
  | case6 heights depth here pending hs p hv ih => exact .head (.first (s := ⟨heights, depth⟩) (.refl _) hs hv) (ih h)
  | _ => cases h

/-- how much a worklist may still do -/
def Worklist.weight (w : Worklist) : Nat := 2 * w.survey.heights.count none + w.pending.length

theorem Takes.weight_lt (h : Takes g m body starts w w') : w'.weight < w.weight := by
  cases h with
  | again hp hs =>
    have hlength := hp.length_eq
    simp only [List.length_cons] at hlength
    simp only [Worklist.weight]
    omega
  | @first s pending here rest p hp hs hv =>
    have hlength := hp.length_eq
    have hcount := count_none_set (h := here.height) hs
    have harrivals := arrivals_length p
    simp only [List.length_cons] at hlength
    simp only [Worklist.weight, List.length_append]
    omega

/-- **No order goes on for ever**: a position is passed once, and passing it leads to two arrivals at most. -/
theorem takes_wellFounded (g : TypeGraph) (m : MethodDecl) (body : Body) (starts : List Nat) :
    WellFounded fun w' w => Takes g m body starts w w' :=
  Subrelation.wf (fun h => Takes.weight_lt h) (measure Worklist.weight).wf

/-- what waits may be put in any order -/
theorem Fits.perm {pending pending' : List Arrival} (h : Fits g m body s pending) (hp : pending.Perm pending') :
    Fits g m body s pending' where
  passes a ha := by
    obtain ⟨i, p, hi, hpass, hdepth, hb⟩ := h.passes a ha
    exact ⟨i, p, hi, hpass, hdepth, fun b h1 => (hb b h1).imp_right hp.mem_iff.1⟩
  bounded := h.bounded
  waiting a ha := h.waiting a (hp.mem_iff.2 ha)

/-- what a step meets, it has met before or passing the arrival has led to it -/
theorem Takes.meets (h : Takes g m body starts w w') {a : Arrival} (ha : w'.Meets a) :
    w.Meets a ∨ ∃ here i p, w.Meets here ∧ body.fetch? here.position = some i ∧ body.passage g m i here = .ok p ∧
      a ∈ p.arrivals := by
  cases h with
  | again hp hs => exact .inl (ha.imp_right fun h1 => hp.mem_iff.2 (List.mem_cons_of_mem _ h1))
  | @first s pending here rest p hp hs hv =>
    have hhere : here ∈ pending := hp.mem_iff.2 List.mem_cons_self
    rcases ha with ha | ha
    · rcases (records_set hs a).1 ha with rfl | ha
      · exact .inl (.inr hhere)
      · exact .inl (.inl ha)
    · rcases List.mem_append.1 ha with ha | ha
      · obtain ⟨i, hi, hpass⟩ := visit_ok hv
        exact .inr ⟨here, i, p, .inr hhere, hi, hpass, ha⟩
      · exact .inl (.inr (hp.mem_iff.2 (List.mem_cons_of_mem _ ha)))

/-- nothing that has been met is lost sight of -/
theorem Takes.still_meets (h : Takes g m body starts w w') {a : Arrival} (ha : w.Meets a) : w'.Meets a := by
  cases h with
  | again hp hs =>
    rcases ha with ha | ha
    · exact .inl ha
    · rcases List.mem_cons.1 (hp.mem_iff.1 ha) with rfl | ha
      · exact .inl hs
      · exact .inr ha
  | first hp hs hv =>
    rcases ha with ha | ha
    · exact .inl ((records_set hs a).2 (.inr ha))
    · rcases List.mem_cons.1 (hp.mem_iff.1 ha) with rfl | ha
      · exact .inl ((records_set hs _).2 (.inl rfl))
      · exact .inr (List.mem_append_right _ ha)

/-- what holds while a body is explored: beside `Fits`, only what can be reached is met, regions start with an empty
stack, and the depth is the height of some way -/
structure Pursued (g : TypeGraph) (m : MethodDecl) (body : Body) (entries : List (Nat × Arrival)) (w : Worklist) : Prop where
  fits : Fits g m body w.survey w.pending
  regions : ∀ a, w.survey.Records a → a.position ∈ entries.map Prod.fst → a.height = 0
  start : w.Meets ⟨0, 0⟩
  entered : ∀ e ∈ entries, w.Meets e.2
  reached : ∀ a, w.Meets a → body.Reachable a.position
  attained : w.survey.depth = 0 ∨ (∃ e ∈ entries, w.survey.depth = e.2.height) ∨ ∃ a i p, w.survey.Records a ∧
    body.fetch? a.position = some i ∧ body.passage g m i a = .ok p ∧ w.survey.depth = p.depth

theorem foldl_max_mem (heights : List Nat) (start : Nat) :
    heights.foldl max start = start ∨ heights.foldl max start ∈ heights := by
  induction heights generalizing start with
  | nil => exact .inl rfl
  | cons first rest ih =>
    rw [List.foldl_cons]
    rcases ih (max start first) with h | h
    · rcases Nat.le_total start first with hle | hle
      · rw [h, Nat.max_eq_right hle]
        exact .inr List.mem_cons_self
      · rw [h, Nat.max_eq_left hle]
        exact .inl rfl
    · exact .inr (List.mem_cons_of_mem _ h)

theorem not_records_none {n : Nat} {a : Arrival} : ¬ Survey.Records ⟨List.replicate n none, depth⟩ a := fun ha => by
  simp [Survey.Records, List.getElem?_replicate] at ha

theorem meets_outset {a : Arrival} : (body.outset entries).Meets a ↔ a = ⟨0, 0⟩ ∨ ∃ e ∈ entries, e.2 = a := by
  simp [Worklist.Meets, outset, not_records_none, or_comm]

theorem outset_pursued (he : body.handlers.mapM body.entry = .ok entries) : Pursued g m body entries (body.outset entries) where
  fits := by
    refine ⟨fun a ha => absurd ha not_records_none, fun a ha => absurd ha not_records_none, fun a ha => ?_⟩
    rcases meets_outset.1 (.inr ha) with rfl | ⟨e, hmem, rfl⟩
    · exact Nat.zero_le _
    · exact (le_foldl_max _ 0).2 _ (List.mem_map_of_mem (List.mem_map_of_mem hmem))
  regions a ha := absurd ha not_records_none
  start := meets_outset.2 (.inl rfl)
  entered e hmem := meets_outset.2 (.inr ⟨e, hmem, rfl⟩)
  reached a ha := by
    rcases meets_outset.1 ha with rfl | ⟨e, hmem, rfl⟩
    · exact .start
    · obtain ⟨handler, hh, hok⟩ := (mapM_ok he).2 e hmem
      exact .handler hh (entry_eq_ok.1 hok).2.2.1
  attained := by
    rcases foldl_max_mem ((entries.map Prod.snd).map Arrival.height) 0 with h | h
    · exact .inl h
    · obtain ⟨a, ha, hheight⟩ := List.mem_map.1 h
      obtain ⟨e, hmem, rfl⟩ := List.mem_map.1 ha
      exact .inr (.inl ⟨e, hmem, hheight.symm⟩)

/-- the region rule, where a visit passes -/
theorem visit_region {here : Arrival} {p : Passage} (h : body.visit g m starts here = .ok p)
    (hstart : here.position ∈ starts) : here.height = 0 := by
  unfold visit at h
  split at h
  · cases h
  · next hrule => simpa [hstart] using hrule

/-- **One step keeps the exploration sound**, whichever arrival is taken. -/
theorem Takes.pursued (h : Takes g m body (entries.map Prod.fst) w w') (hw : Pursued g m body entries w) :
    Pursued g m body entries w' := by
  have hreached : ∀ a, w'.Meets a → body.Reachable a.position := fun a ha => by
    rcases h.meets ha with ha | ⟨here, i, p, hhere, hi, hpass, ha⟩
    · exact hw.reached a ha
    · exact .step (hw.reached _ hhere) hi (((passage_passed hpass).arrivals a).1 ha).1
  have hstart := h.still_meets hw.start
  have hentered := fun e hmem => h.still_meets (hw.entered e hmem)
  cases h with
  | again hp hs => exact ⟨fits_again (hw.fits.perm hp) hs, hw.regions, hstart, hentered, hreached, hw.attained⟩
  | @first s pending here rest p hp hs hv =>
    have hfits := fits_visit (hw.fits.perm hp) hs hv
    refine ⟨hfits, fun a ha hregion => ?_, hstart, hentered, hreached, ?_⟩
    · rcases (records_set hs a).1 ha with rfl | ha
      · exact visit_region hv hregion
      · exact hw.regions a ha hregion
    · obtain ⟨i, hi, hpass⟩ := visit_ok hv
      rcases Nat.le_total p.depth s.depth with hle | hle
      · rw [Nat.max_eq_left hle]
        refine hw.attained.imp_right (Or.imp_right ?_)
        rintro ⟨a, j, q, ha, hj, hq, hdepth⟩
        exact ⟨a, j, q, (records_set hs a).2 (.inr ha), hj, hq, hdepth⟩
      · rw [Nat.max_eq_right hle]
        exact .inr (.inr ⟨here, i, p, (records_set hs here).2 (.inl rfl), hi, hpass, rfl⟩)

theorem Explores.pursued (h : Explores g m body (entries.map Prod.fst) w w') (hw : Pursued g m body entries w) :
    Pursued g m body entries w' := by
  induction h with
  | refl => exact hw
  | tail _ hstep ih => exact hstep.pursued ih

/-- once nothing waits, whatever can be reached has been recorded, with the level of its position -/
theorem Pursued.records (he : body.handlers.mapM body.entry = .ok entries) (h : Pursued g m body entries ⟨s, []⟩) {k : Nat}
    (hk : body.Reachable k) : s.Records ⟨k, s.level k⟩ := by
  have hmet : ∀ a, Worklist.Meets ⟨s, []⟩ a → s.Records ⟨a.position, s.level a.position⟩ := fun a ha => by
    have hrecords : s.Records a := ha.resolve_right List.not_mem_nil
    rwa [hrecords.level]
  induction hk with
  | start => exact hmet _ h.start
  | handler hh hk =>
    obtain ⟨e, hmem, hok⟩ := (mapM_ok he).1 _ hh
    cases hk.symm.trans (entry_eq_ok.1 hok).2.2.1
    exact hmet _ (h.entered e hmem)
  | step hk hi hq ih =>
    obtain ⟨j, p, hj, hpass, -, hb⟩ := h.fits.passes _ ih
    cases hi.symm.trans hj
    exact hmet _ (hb ⟨_, _⟩ (((passage_passed hpass).arrivals ⟨_, _⟩).2 ⟨hq, rfl⟩))

/-- what has been recorded once nothing waits are levels -/
theorem Pursued.leveling (he : body.handlers.mapM body.entry = .ok entries) (h : Pursued g m body entries ⟨s, []⟩) :
    body.Leveling g m s.level where
  start := (h.start.resolve_right List.not_mem_nil).level
  handler handler hh k hk := by
    obtain ⟨e, hmem, hok⟩ := (mapM_ok he).1 _ hh
    obtain ⟨-, -, hposition, hheight⟩ := entry_eq_ok.1 hok
    cases hk.symm.trans hposition
    rw [← hheight]
    exact ((h.entered e hmem).resolve_right List.not_mem_nil).level
  region handler hh k hk hreachable := by
    obtain ⟨e, hmem, hok⟩ := (mapM_ok he).1 _ hh
    cases hk.symm.trans (entry_eq_ok.1 hok).2.1
    exact h.regions _ (h.records he hreachable) (List.mem_map_of_mem hmem)
  obeys k hk := by
    obtain ⟨i, p, hi, hpass, -⟩ := h.fits.passes _ (h.records he hk)
    exact ⟨i, hi, (passage_passed hpass).obeys⟩
  onward k i q hk hi hq := by
    obtain ⟨j, p, hj, hpass, -, hb⟩ := h.fits.passes _ (h.records he hk)
    cases hi.symm.trans hj
    have hrecords := (hb ⟨q, _⟩ (((passage_passed hpass).arrivals ⟨_, _⟩).2 ⟨hq, rfl⟩)).resolve_right List.not_mem_nil
    exact hrecords.level

/-- and the depth is the greatest height that they give -/
theorem Pursued.greatest (he : body.handlers.mapM body.entry = .ok entries) (h : Pursued g m body entries ⟨s, []⟩) :
    IsGreatest {height | body.Attains g s.level height} s.depth := by
  have hbound : ∀ height, body.Attains g s.level height → height ≤ s.depth := fun height hheight => by
    cases hheight with
    | @handler handler hh =>
      obtain ⟨e, hmem, hok⟩ := (mapM_ok he).1 _ hh
      rw [← (entry_eq_ok.1 hok).2.2.2]
      exact h.fits.bounded _ ((h.entered e hmem).resolve_right List.not_mem_nil)
    | after hk hi =>
      obtain ⟨j, p, hj, hpass, hdepth, -⟩ := h.fits.passes _ (h.records he hk)
      cases hi.symm.trans hj
      rcases (passage_passed hpass).uncounted with heq | heq
      · exact heq.trans_le hdepth
      · exact heq.trans_le (h.fits.bounded _ (h.records he hk))
  refine ⟨?_, hbound⟩
  rcases h.attained with hzero | ⟨e, hmem, hdepth⟩ | ⟨a, i, p, ha, hi, hpass, hdepth⟩
  · obtain ⟨i, p, hi, -⟩ := h.fits.passes _ (h.records he .start)
    have hafter : body.Attains g s.level (i.heightAfter g (s.level 0)) := .after .start hi
    have hnone : i.heightAfter g (s.level 0) = s.depth := by
      have hle := hbound _ hafter
      have hdepth : s.depth = 0 := hzero
      omega
    exact hnone ▸ hafter
  · obtain ⟨handler, hh, hok⟩ := (mapM_ok he).2 e hmem
    rw [hdepth, (entry_eq_ok.1 hok).2.2.2]
    exact .handler hh
  · have hafter : body.Attains g s.level (i.heightAfter g (s.level a.position)) := .after (h.reached a (.inl ha)) hi
    rw [ha.level] at hafter
    have hheight : i.heightAfter g a.height = s.depth :=
      Nat.le_antisymm (hbound _ hafter) (hdepth.trans_le (passage_passed hpass).depth)
    exact hheight ▸ hafter

/-- **A worklist that empties has found the levels**, in whatever order it was worked through. -/
theorem explores_accepts (he : body.handlers.mapM body.entry = .ok entries)
    (h : Explores g m body (entries.map Prod.fst) (body.outset entries) ⟨s, []⟩) : body.Accepts g m s.depth := by
  have hpursued := h.pursued (outset_pursued he)
  refine ⟨fun hempty => ?_, fun handler hh => ?_, s.level, hpursued.leveling he, fun level' hlevel' k hk =>
    (hpursued.leveling he).unique hlevel' hk, hpursued.greatest he⟩
  · obtain ⟨i, hi, -⟩ := (hpursued.leveling he).obeys 0 .start
    simp [fetch?, hempty] at hi
  · obtain ⟨e, -, hok⟩ := (mapM_ok he).1 handler hh
    exact (entry_eq_ok.1 hok).1

/-! ## Accepted bodies -/

/-- where there are levels, every arrival at the level of its position passes, and leads to others like it -/
theorem Leveling.leveled (he : body.handlers.mapM body.entry = .ok entries) {level : Nat → Nat}
    (h : body.Leveling g m level) : Leveled g m body (entries.map Prod.fst) fun a =>
      body.Reachable a.position ∧ a.height = level a.position where
  unique a b ha hb hsame := by rw [ha.2, hb.2, hsame]
  passes a ha := by
    obtain ⟨k, height⟩ := a
    obtain ⟨hk, hheight⟩ : body.Reachable k ∧ height = level k := ha
    subst hheight
    obtain ⟨i, hi, hobeys⟩ := h.obeys k hk
    obtain ⟨p, hp⟩ := hobeys.passage
    have hregion : k ∈ entries.map Prod.fst → level k = 0 := fun hstart => by
      obtain ⟨e, hmem, rfl⟩ := List.mem_map.1 hstart
      obtain ⟨handler, hh, hok⟩ := (mapM_ok he).2 e hmem
      exact h.region handler hh _ (entry_eq_ok.1 hok).2.1 hk
    refine ⟨p, ?_, fun b hb => ?_⟩
    · have hrule : ((entries.map Prod.fst).contains k && level k != 0) = false := by
        by_cases hstart : k ∈ entries.map Prod.fst
        · simp [hregion hstart]
        · simp [hstart]
      simp only [visit, hrule, Bool.false_eq_true, ↓reduceIte, hi]
      exact hp
    · obtain ⟨hleads, hafter⟩ := ((passage_passed hp).arrivals b).1 hb
      exact ⟨.step hk hi hleads, by rw [hafter, h.onward k i _ hk hi hleads]⟩

/-- where the worklist sets out, every arrival is at its level -/
theorem Leveling.outset (he : body.handlers.mapM body.entry = .ok entries) {level : Nat → Nat}
    (h : body.Leveling g m level) {a : Arrival} (ha : (body.outset entries).Meets a) :
    body.Reachable a.position ∧ a.height = level a.position := by
  rcases meets_outset.1 ha with rfl | ⟨e, hmem, rfl⟩
  · exact ⟨.start, h.start.symm⟩
  · obtain ⟨handler, hh, hok⟩ := (mapM_ok he).2 e hmem
    obtain ⟨-, -, hposition, hheight⟩ := entry_eq_ok.1 hok
    exact ⟨.handler hh hposition, by rw [hheight, h.handler handler hh _ hposition]⟩

/-- placed boundaries make an entry of every handler -/
theorem exists_entries (h : ∀ handler ∈ body.handlers, ∀ b ∈ handler.boundaries, (body.position? b).isSome = true) :
    ∃ entries, body.handlers.mapM body.entry = .ok entries := by
  refine exists_mapM fun handler hh => ?_
  obtain ⟨start, hstart⟩ := Option.isSome_iff_exists.1 (h handler hh handler.tryStart (by simp [Handler.boundaries]))
  obtain ⟨k, hk⟩ := Option.isSome_iff_exists.1 (h handler hh handler.handlerStart (by simp [Handler.boundaries]))
  exact ⟨(start, ⟨k, handler.kind.entryHeight⟩), entry_eq_ok.2 ⟨h handler hh, hstart, hk, rfl⟩⟩

theorem verify_explores (h : body.verify g m = .ok depth) : ∃ entries s, body.handlers.mapM body.entry = .ok entries ∧
    Explores g m body (entries.map Prod.fst) (body.outset entries) ⟨s, []⟩ ∧ s.depth = depth := by
  obtain ⟨s, hs, rfl⟩ := ok_of_map h
  unfold survey at hs
  split at hs
  · cases hs
  split at hs
  · cases hs
  next entries he => exact ⟨entries, s, he, propagate_explores hs, rfl⟩

/-- **The verifier accepts the bodies that have levels**, and answers the greatest height in them. -/
theorem verify_iff : body.verify g m = .ok depth ↔ body.Accepts g m depth := by
  have hsound : ∀ depth, body.verify g m = .ok depth → body.Accepts g m depth := fun depth h => by
    obtain ⟨entries, s, he, hexplores, rfl⟩ := verify_explores h
    exact explores_accepts he hexplores
  refine ⟨hsound depth, fun h => ?_⟩
  obtain ⟨level, hlevel, -⟩ := h.levels
  obtain ⟨entries, he⟩ := exists_entries h.boundaries
  obtain ⟨s, hs⟩ := survey_ok he (hlevel.leveled he) (hlevel.outset he (meets_outset.2 (.inl rfl))) fun e hmem =>
    hlevel.outset he (meets_outset.2 (.inr ⟨e, hmem, rfl⟩))
  have hverify : body.verify g m = .ok s.depth := by rw [verify, hs]; rfl
  rw [hverify, h.depth_unique (hsound _ hverify)]

/-- an exploration of a body that has levels keeps to them -/
theorem Explores.meets {R : Arrival → Prop} (hl : Leveled g m body starts R) (h : Explores g m body starts w w')
    (hw : ∀ a, w.Meets a → R a) : ∀ a, w'.Meets a → R a := by
  induction h with
  | refl => exact hw
  | tail _ hstep ih =>
    intro a ha
    rcases hstep.meets ha with ha | ⟨here, i, p, hhere, hi, hpass, ha⟩
    · exact ih a ha
    · obtain ⟨q, hq, harrivals⟩ := hl.passes here (ih here hhere)
      obtain ⟨j, hj, hvisit⟩ := visit_ok hq
      cases hi.symm.trans hj
      cases hpass.symm.trans hvisit
      exact harrivals a ha

theorem Explores.length (h : Explores g m body starts w w') : w'.survey.heights.length = w.survey.heights.length := by
  induction h with
  | refl => rfl
  | tail _ hstep ih =>
    rw [← ih]
    cases hstep with
    | again => rfl
    | first => exact List.length_set

/-- **Whatever waits can be taken**, if the body has levels. -/
theorem Leveled.takes {R : Arrival → Prop} (hl : Leveled g m body starts R) (hlength : w.survey.heights.length = body.size)
    (hw : ∀ a, w.Meets a → R a) {here : Arrival} (hhere : here ∈ w.pending) : ∃ w', Takes g m body starts w w' := by
  have hp : w.pending.Perm (here :: w.pending.erase here) := List.perm_cons_erase hhere
  obtain ⟨p, hvisit, -⟩ := hl.passes here (hw here (.inr hhere))
  cases hs : w.survey.heights[here.position]? with
  | none => exact absurd (visit_position hvisit) (Nat.not_lt.2 (hlength ▸ List.getElem?_eq_none_iff.1 hs))
  | some known =>
    cases known with
    | none => exact ⟨_, .first hp hs hvisit⟩
    | some expected =>
      have hsame := hl.unique ⟨here.position, expected⟩ here (hw _ (.inl hs)) (hw here (.inr hhere)) rfl
      exact ⟨_, .again hp (by rw [Survey.Records, ← hsame]; exact hs)⟩

/-- the verdict can be read off any worklist that cannot go on -/
theorem explores_decides (he : body.handlers.mapM body.entry = .ok entries)
    (h : Explores g m body (entries.map Prod.fst) (body.outset entries) w)
    (hstuck : ∀ w', ¬ Takes g m body (entries.map Prod.fst) w w') :
    body.verify g m = .ok depth ↔ w.pending = [] ∧ w.survey.depth = depth := by
  obtain ⟨s, pending⟩ := w
  constructor
  · intro hverify
    have haccepts := verify_iff.1 hverify
    obtain ⟨level, hlevel, -⟩ := haccepts.levels
    have hmeets := h.meets (hlevel.leveled he) fun a ha => hlevel.outset he ha
    have hlength : s.heights.length = body.size := h.length.trans List.length_replicate
    cases pending with
    | nil => exact ⟨rfl, haccepts.depth_unique (explores_accepts he h)⟩
    | cons here rest =>
      obtain ⟨w', hw'⟩ := (hlevel.leveled he).takes hlength hmeets List.mem_cons_self
      exact absurd hw' (hstuck w')
  · rintro ⟨rfl, rfl⟩
    exact verify_iff.2 (explores_accepts he h)

end Exploration

/-! ## Handlers in another order -/

/-- the same code with the same handlers, in any order and any number -/
structure Reordered (body body' : Body) : Prop where
  slots : body'.slots = body.slots
  order : body'.order = body.order
  locals : body'.locals = body.locals
  handlers : ∀ h, h ∈ body'.handlers ↔ h ∈ body.handlers

section Handlers

variable {g : TypeGraph} {m : MethodDecl} {body body' : Body} {level : Nat → Nat} {depth : Nat}

namespace Reordered

theorem symm (h : Reordered body body') : Reordered body' body :=
  ⟨h.slots.symm, h.order.symm, h.locals.symm, fun handler => (h.handlers handler).symm⟩

theorem position? (h : Reordered body body') (t : Handle) : body'.position? t = body.position? t := by
  simp only [Body.position?, h.order]

theorem fetch? (h : Reordered body body') (k : Nat) : body'.fetch? k = body.fetch? k := by
  have hinstruction : body'.instruction? = body.instruction? := funext fun t => by simp only [instruction?, h.slots]
  simp only [Body.fetch?, h.order, hinstruction]

theorem leads (h : Reordered body body') {i : Instruction} {k q : Nat} (hq : body.Leads i k q) : body'.Leads i k q := by
  cases hq with
  | onward hi => exact .onward hi
  | jump ht hq => exact .jump ht (by rw [h.position?, hq])

theorem reachable (h : Reordered body body') {k : Nat} (hk : body.Reachable k) : body'.Reachable k := by
  induction hk with
  | start => exact .start
  | handler hh hk => exact .handler ((h.handlers _).2 hh) (by rw [h.position?, hk])
  | step _ hi hq ih => exact .step ih (by rw [h.fetch?, hi]) (h.leads hq)

theorem obeys (h : Reordered body body') {i : Instruction} {here : Arrival} (ho : body.Obeys g m i here) :
    body'.Obeys g m i here where
  argumentInRange := ho.argumentInRange
  localInRange n hn := by
    rw [h.locals]
    exact ho.localInRange n hn
  constrained t ht := by
    rw [h.fetch?]
    exact ho.constrained t ht
  returns := ho.returns
  enough := ho.enough
  target t ht := by
    rw [h.position?]
    exact ho.target t ht
  onward hi := by
    rw [size, h.order]
    exact ho.onward hi

theorem leveling (h : Reordered body body') (hl : body.Leveling g m level) : body'.Leveling g m level where
  start := hl.start
  handler handler hh k hk := by
    rw [h.position?] at hk
    exact hl.handler handler ((h.handlers handler).1 hh) k hk
  region handler hh k hk hreachable := by
    rw [h.position?] at hk
    exact hl.region handler ((h.handlers handler).1 hh) k hk (h.symm.reachable hreachable)
  obeys k hk := by
    obtain ⟨i, hi, ho⟩ := hl.obeys k (h.symm.reachable hk)
    exact ⟨i, by rw [h.fetch?, hi], h.obeys ho⟩
  onward k i q hk hi hq := by
    rw [h.fetch?] at hi
    exact hl.onward k i q (h.symm.reachable hk) hi (h.symm.leads hq)

theorem attains (h : Reordered body body') {height : Nat} (ha : body.Attains g level height) :
    body'.Attains g level height := by
  cases ha with
  | handler hh => exact .handler ((h.handlers _).2 hh)
  | after hk hi => exact .after (h.reachable hk) (by rw [h.fetch?, hi])

/-- **The order of the handlers makes no difference**, nor does a handler that stands twice. -/
theorem accepts (h : Reordered body body') (ha : body.Accepts g m depth) : body'.Accepts g m depth := by
  obtain ⟨level, hlevel, hunique, hdepth⟩ := ha.levels
  have hattains : {height | body'.Attains g level height} = {height | body.Attains g level height} :=
    Set.ext fun height => ⟨h.symm.attains, h.attains⟩
  refine ⟨h.order ▸ ha.nonempty, fun handler hh b hb => ?_, level, h.leveling hlevel, fun level' hlevel' k hk => ?_,
    hattains ▸ hdepth⟩
  · rw [h.position?]
    exact ha.boundaries handler ((h.handlers handler).1 hh) b hb
  · exact hunique level' (h.symm.leveling hlevel') k (h.symm.reachable hk)

end Reordered

end Handlers

/-- **What the verifier decides.** It answers a depth exactly if the body has levels with that depth. The order of the
handlers makes no difference, nor does the order in which arrivals are taken: no worklist goes on for ever, and one that
cannot go on has emptied exactly if the body is accepted, with the depth that is answered. -/
theorem verify_decides (g : TypeGraph) (m : MethodDecl) (body : Body) (depth : Nat) :
    (body.verify g m = .ok depth ↔ body.Accepts g m depth) ∧
    (∀ body', Reordered body body' → (body'.verify g m = .ok depth ↔ body.verify g m = .ok depth)) ∧
    ∀ entries, body.handlers.mapM body.entry = .ok entries →
      (WellFounded fun w' w => Takes g m body (entries.map Prod.fst) w w') ∧
      ∀ w, Explores g m body (entries.map Prod.fst) (body.outset entries) w →
        (∀ w', ¬ Takes g m body (entries.map Prod.fst) w w') →
        (body.verify g m = .ok depth ↔ w.pending = [] ∧ w.survey.depth = depth) := by
  refine ⟨verify_iff, fun body' h => ?_, fun entries he => ⟨takes_wellFounded _ _ _ _, fun w h hstuck =>
    explores_decides he h hstuck⟩⟩
  rw [verify_iff, verify_iff]
  exact ⟨h.symm.accepts, h.accepts⟩

end Body

end DisposalWeaver
