/-
The verifier on the same code further down.

A body may have the code of another one some positions further down (`Body.Moved`), under a graph that says the same about
it. The verifier then goes the same way, position by position: its worklist on the one body is that of the other with
every arrival moved (`Body.propagate_moved`). With nothing in front a moved body is accepted as before
(`Body.verify_unmoved`), and behind the call of a guard it is accepted with a stack that is at least 1 high
(`Body.verify_guarded`).
-/
import Mathlib.Logic.Relation
import DisposalWeaver.Proofs.GuardedBodies

namespace DisposalWeaver

def Arrival.shift (d : Nat) (a : Arrival) : Arrival := { a with position := a.position + d }

def Passage.shift (d : Nat) (p : Passage) : Passage :=
  { p with onward := p.onward.map (Arrival.shift d), jump := p.jump.map (Arrival.shift d) }

theorem Passage.arrivals_shift (d : Nat) (p : Passage) : (p.shift d).arrivals = p.arrivals.map (Arrival.shift d) := by
  simp only [arrivals, shift, List.map_append]
  cases p.onward <;> cases p.jump <;> rfl

namespace Body

/-! ## Parts of a worklist -/

section Worklist

variable {g : TypeGraph} {m : MethodDecl} {body : Body} {starts : List Nat} {heights : List (Option Nat)} {depth : Nat}
  {here : Arrival} {pending : List Arrival}

theorem propagate_seen (h : heights[here.position]? = some (some here.height)) :
    body.propagate g m starts heights depth (here :: pending) = body.propagate g m starts heights depth pending := by
  rw [propagate]
  split
  · next hnone => rw [h] at hnone; cases hnone
  · next expected hsome =>
    rw [h] at hsome
    cases hsome
    rw [if_pos rfl]
  · next hnone => rw [h] at hnone; cases hnone

theorem propagate_new (h : heights[here.position]? = some none) {p : Passage} (hv : body.visit g m starts here = .ok p) :
    body.propagate g m starts heights depth (here :: pending) =
      body.propagate g m starts (heights.set here.position (some here.height)) (max depth p.depth)
        (p.arrivals ++ pending) := by
  rw [propagate]
  split
  · next hnone => rw [h] at hnone; cases hnone
  · next expected hsome => rw [h] at hsome; cases hsome
  · simp only [hv]

/-- a worklist is worked off part by part -/
theorem propagate_append (heights : List (Option Nat)) (depth : Nat) (pending later : List Arrival) :
    body.propagate g m starts heights depth (pending ++ later) =
      (body.propagate g m starts heights depth pending).bind fun s =>
        body.propagate g m starts s.heights s.depth later := by
  fun_induction propagate g m body starts heights depth pending with
  | case1 heights depth => rfl
  | case2 heights depth here pending hs =>
    rw [List.cons_append, propagate]
    split
    · rfl
    · next hsome => rw [hs] at hsome; cases hsome
    · next hsome => rw [hs] at hsome; cases hsome
  | case3 heights depth here pending hs ih =>
    rw [List.cons_append, propagate_seen hs]
    exact ih
  | case4 heights depth here pending expected hs hne =>
    rw [List.cons_append, propagate]
    split
    · next hnone => rw [hs] at hnone; cases hnone
    · next found hsome =>
      rw [hs] at hsome
      cases hsome
      rw [if_neg hne]
      rfl
    · next hnone => rw [hs] at hnone; cases hnone
  | case5 heights depth here pending hs fault hv =>
    rw [List.cons_append, propagate]
    split
    · next hnone => rw [hs] at hnone; cases hnone
    · next found hsome => rw [hs] at hsome; cases hsome
    · simp only [hv]
      rfl
  | case6 heights depth here pending hs p hv ih =>
    rw [List.cons_append, propagate_new hs hv, ← List.append_assoc]
    exact ih

end Worklist

/-! ## Moved code -/

/-- the second body has the code of the first one `d` positions further down, and a second graph knows the same about
it -/
structure Moved (g G : TypeGraph) (d : Nat) (body body' : Body) : Prop where
  fetch : ∀ k, body'.fetch? (k + d) = body.fetch? k
  position : ∀ t q, body.position? t = some q → body'.position? t = some (q + d)
  size : body'.size = body.size + d
  locals : body'.locals = body.locals
  handlers : body'.handlers = body.handlers
  effect : ∀ k i, body.fetch? k = some i → i.stackEffect G = i.stackEffect g

section Moved

variable {g G : TypeGraph} {m : MethodDecl} {d : Nat} {body body' : Body} {i : Instruction} {here : Arrival} {p : Passage}

theorem resolve_moved (h : Moved g G d body body') {t : Handle} {q : Nat} (ht : body.resolve t = .ok q) :
    body'.resolve t = .ok (q + d) := by
  have hposition := h.position t q (resolve_eq_ok.1 ht)
  unfold resolve
  rw [hposition]

theorem jumpArrival_moved (h : Moved g G d body body') {height : Nat} {jump : Option Arrival}
    (hj : body.jumpArrival i height = .ok jump) : body'.jumpArrival i height = .ok (jump.map (Arrival.shift d)) := by
  unfold jumpArrival at hj ⊢
  cases ht : i.target? with
  | none =>
    simp only [ht] at hj
    cases hj
    rfl
  | some t =>
    simp only [ht] at hj
    cases hr : body.resolve t with
    | error e => rw [hr] at hj; cases hj
    | ok q =>
      rw [hr] at hj
      cases hj
      simp only [resolve_moved h hr]
      rfl

theorem nextArrival_moved (h : Moved g G d body body') {position height : Nat} {onward : Option Arrival}
    (hn : body.nextArrival i position height = .ok onward) :
    body'.nextArrival i (position + d) height = .ok (onward.map (Arrival.shift d)) := by
  unfold nextArrival at hn ⊢
  cases ht : i.isTerminal with
  | true =>
    rw [ht, if_pos rfl] at hn
    cases hn
    rfl
  | false =>
    rw [ht, if_neg Bool.false_ne_true] at hn
    rw [if_neg Bool.false_ne_true]
    split at hn
    · cases hn
    · next hsize =>
      cases hn
      rw [if_neg (by rw [h.size]; omega)]
      simp only [Option.map_some, Arrival.shift, Nat.add_right_comm]

theorem flow_moved (h : Moved g G d body body') (hi : body.fetch? here.position = some i)
    (hp : body.flow g i here = .ok p) : body'.flow G i (here.shift d) = .ok (p.shift d) := by
  unfold flow at hp ⊢
  rw [h.effect _ _ hi]
  simp only at hp ⊢
  split at hp
  · cases hp
  · next henough =>
    obtain ⟨jump, hj, hp⟩ := ok_of_bind hp
    obtain ⟨onward, hn, hp⟩ := ok_of_bind hp
    cases hp
    rw [if_neg (show ¬ (here.shift d).height < _ from henough)]
    simp only [Arrival.shift, jumpArrival_moved h hj, nextArrival_moved h hn, bind, Except.bind, pure, Except.pure]
    rfl

theorem passage_moved (h : Moved g G d body body') (hi : body.fetch? here.position = some i)
    (hp : body.passage g m i here = .ok p) : body'.passage G m i (here.shift d) = .ok (p.shift d) := by
  cases i with
  | ldarg n | starg n =>
    simp only [passage.eq_def] at hp ⊢
    split at hp
    · cases hp
    · next hn =>
      rw [if_neg hn]
      exact flow_moved h hi hp
  | ldloc n | ldloca n | stloc n =>
    simp only [passage.eq_def] at hp ⊢
    split at hp
    · cases hp
    · next hn =>
      rw [h.locals, if_neg hn]
      exact flow_moved h hi hp
  | constrained t =>
    simp only [passage.eq_def] at hp ⊢
    have hnext : body'.fetch? ((here.shift d).position + 1) = body.fetch? (here.position + 1) := by
      rw [← h.fetch, Nat.add_right_comm]
      rfl
    rw [hnext]
    split at hp
    · exact flow_moved h hi hp
    · cases hp
  | ret =>
    obtain ⟨hheight, rfl⟩ := passage_ret hp
    simp only [passage.eq_def]
    rw [if_pos (show (here.shift d).height = m.resultCount from hheight)]
    rfl
  | leave t =>
    obtain ⟨q, hq, rfl⟩ := passage_leave hp
    simp only [passage.eq_def, resolve, h.position t q hq]
    rfl
  | endfinally =>
    cases passage_endfinally hp
    rfl
  | _ => exact flow_moved h hi hp

theorem visit_moved (h : Moved g G d body body') {starts : List Nat} (hv : body.visit g m starts here = .ok p) :
    body'.visit G m (starts.map (· + d)) (here.shift d) = .ok (p.shift d) := by
  obtain ⟨i, hi, hp⟩ := visit_ok hv
  have hstarts : (starts.map (· + d)).contains (here.position + d) = starts.contains here.position := by
    rw [Bool.eq_iff_iff, List.contains_iff_mem, List.contains_iff_mem]
    simp
  unfold visit at hv ⊢
  simp only [Arrival.shift, hstarts] at hv ⊢
  split at hv
  · cases hv
  · next hempty =>
    rw [if_neg hempty, h.fetch, hi]
    exact passage_moved h hi hp

/-- the worklist on moved code, with some positions in front of it and a depth that is `least` at least -/
theorem propagate_moved (h : Moved g G d body body') (front : List (Option Nat)) (hfront : front.length = d)
    (least : Nat) {starts : List Nat} {heights : List (Option Nat)} {depth : Nat} {pending : List Arrival} {s : Survey}
    (hs : body.propagate g m starts heights depth pending = .ok s) :
    body'.propagate G m (starts.map (· + d)) (front ++ heights) (max depth least) (pending.map (Arrival.shift d)) =
      .ok ⟨front ++ s.heights, max s.depth least⟩ := by
  have hget : ∀ (heights : List (Option Nat)) (a : Arrival),
      (front ++ heights)[(a.shift d).position]? = heights[a.position]? := fun heights a => by
    rw [List.getElem?_append_right (by simp [Arrival.shift, hfront])]
    simp [Arrival.shift, hfront]
  fun_induction propagate g m body starts heights depth pending with
  | case1 heights depth =>
    cases hs
    rw [List.map_nil, propagate]
  | case3 heights depth here pending hseen ih =>
    rw [List.map_cons, propagate_seen (by rw [hget]; exact hseen)]
    exact ih hs
  | case6 heights depth here pending hnew p hv ih =>
    have hset : (front ++ heights).set (here.shift d).position (some (here.shift d).height) =
        front ++ heights.set here.position (some here.height) := by
      rw [List.set_append, if_neg (by simp [Arrival.shift, hfront])]
      simp [Arrival.shift, hfront]
    have hdepth : max (max depth least) (p.shift d).depth = max (max depth p.depth) least := Nat.max_right_comm _ _ _
    rw [List.map_cons, propagate_new (by rw [hget]; exact hnew) (visit_moved h hv), hset, hdepth, Passage.arrivals_shift,
      ← List.map_append]
    exact ih hs
  | _ => cases hs

theorem entries_moved (h : Moved g G d body body') {handlers : List Handler} {entries : List (Nat × Arrival)}
    (he : handlers.mapM body.entry = .ok entries) :
    handlers.mapM body'.entry = .ok (entries.map fun e => (e.1 + d, e.2.shift d)) := by
  induction handlers generalizing entries with
  | nil =>
    cases he
    rfl
  | cons handler rest ih =>
    rw [List.mapM_cons] at he ⊢
    obtain ⟨e, hentry, he⟩ := ok_of_bind he
    obtain ⟨later, hlater, he⟩ := ok_of_bind he
    cases he
    have hmoved : body'.entry handler = .ok (e.1 + d, e.2.shift d) := by
      unfold entry at hentry ⊢
      obtain ⟨tryStart, h1, hentry⟩ := ok_of_bind hentry
      obtain ⟨tryEnd, h2, hentry⟩ := ok_of_bind hentry
      obtain ⟨handlerStart, h3, hentry⟩ := ok_of_bind hentry
      obtain ⟨handlerEnd, h4, hentry⟩ := ok_of_bind hentry
      cases hentry
      simp only [resolve_moved h h1, resolve_moved h h2, resolve_moved h h3, resolve_moved h h4, bind, Except.bind, pure,
        Except.pure]
      rfl
    simp only [hmoved, ih hlater, bind, Except.bind, pure, Except.pure, List.map_cons]

/-- what an accepted body consists of: its entries, and a worklist that empties -/
theorem survey_parts {s : Survey} (hs : body.survey g m = .ok s) : ∃ entries, body.handlers.mapM body.entry = .ok entries ∧
    body.order.isEmpty = false ∧ body.propagate g m (entries.map Prod.fst) (List.replicate body.size none)
      (((entries.map Prod.snd).map Arrival.height).foldl max 0) ((entries.map Prod.snd).reverse ++ [⟨0, 0⟩]) = .ok s := by
  unfold survey at hs
  split at hs
  · cases hs
  next hnonempty =>
  split at hs
  · cases hs
  next entries he => exact ⟨entries, he, by simpa using hnonempty, hs⟩

theorem heights_moved (d : Nat) (entries : List (Nat × Arrival)) :
    ((entries.map fun e => (e.1 + d, e.2.shift d)).map Prod.snd).map Arrival.height =
      (entries.map Prod.snd).map Arrival.height := by
  simp [Function.comp_def, Arrival.shift]

/-- **A body under a graph that knows the same about it** is accepted as before. -/
theorem verify_unmoved (h : Moved g G 0 body body) {depth : Nat} (hv : body.verify g m = .ok depth) :
    body.verify G m = .ok depth := by
  obtain ⟨s, hs, rfl⟩ := ok_of_map hv
  obtain ⟨entries, he, hnonempty, hpropagate⟩ := survey_parts hs
  have hmoved := propagate_moved h [] rfl 0 hpropagate
  have hshift : Arrival.shift 0 = id := rfl
  have hstarts : (fun k : Nat => k + 0) = id := rfl
  simp only [hshift, hstarts, List.map_id, List.nil_append, Nat.max_zero] at hmoved
  unfold verify survey
  rw [hnonempty, if_neg Bool.false_ne_true]
  simp only [he, hmoved]
  rfl

end Moved

/-! ## Behind a guard -/

section Guarded

variable {g G : TypeGraph} {m : MethodDecl} {guard : MethodRef} {body : Body}

theorem guarded_moved (guard : MethodRef) (hb : body.Created)
    (heffect : ∀ k i, body.fetch? k = some i → i.stackEffect G = i.stackEffect g) :
    Moved g G 2 body (Emission.guarded guard body) where
  fetch := fetch?_guarded hb
  position _ _ := position?_guarded hb
  size := by
    unfold size
    rw [guarded_order]
    simp
  locals := guarded_locals guard body
  handlers := guarded_handlers guard body
  effect := heffect

/-! The two instructions in front of a body are reached once, at the start: no region starts there. -/

section Prelude

variable {starts : List Nat} (hbody : body.order.isEmpty = false) (hstarts : ∀ k ∈ starts, 2 ≤ k)
  (hm : 0 < m.argumentCount) (hguard : (G.method guard.method).argumentCount = 1)
  (hreturns : (G.method guard.method).resultCount = 0)

include hbody hstarts hm hguard hreturns

/-- the instance at hand is put on the stack, and the guard takes it -/
theorem visit_prelude :
    (Emission.guarded guard body).visit G m starts ⟨0, 0⟩ = .ok { depth := 1, onward := some ⟨1, 1⟩ } ∧
      (Emission.guarded guard body).visit G m starts ⟨1, 1⟩ = .ok { depth := 0, onward := some ⟨2, 0⟩ } := by
  obtain ⟨hldarg, hcall⟩ := fetch?_prelude guard body
  have hsize : (Emission.guarded guard body).size = body.size + 2 := by
    unfold size
    rw [guarded_order]
    simp
  have hpositive : ¬ body.size + 2 ≤ 2 := by
    unfold size
    cases ho : body.order with
    | nil => rw [ho] at hbody; cases hbody
    | cons t rest => simp
  have hfront : ∀ k, k < 2 → starts.contains k = false := fun k hk => by
    rw [List.contains_eq_mem, decide_eq_false_iff_not]
    exact fun hmem => Nat.not_lt.2 (hstarts k hmem) hk
  unfold visit
  rw [hfront 0 (by omega), hfront 1 (by omega)]
  simp only [Bool.false_and, Bool.false_eq_true, ↓reduceIte, hldarg, hcall, passage.eq_def]
  rw [if_neg (show ¬ m.argumentCount ≤ (0 : UInt16).toNat from Nat.not_le.2 hm)]
  simp [flow, jumpArrival, nextArrival, Instruction.stackEffect, Instruction.target?, Instruction.isTerminal, hsize, bind,
    Except.bind, pure, Except.pure, hguard, hreturns, hpositive]

/-- what is left to look at behind them is the body, with an empty stack -/
theorem propagate_prelude (heights : List (Option Nat)) (depth : Nat) :
    (Emission.guarded guard body).propagate G m starts ([none, none] ++ heights) depth [⟨0, 0⟩] =
      (Emission.guarded guard body).propagate G m starts ([some 0, some 1] ++ heights) (max depth 1) [⟨2, 0⟩] := by
  obtain ⟨hfirst, hsecond⟩ := visit_prelude hbody hstarts hm hguard hreturns
  rw [propagate_new rfl hfirst, Passage.arrivals, Option.toList_some, Option.toList_none, List.append_nil,
    List.append_nil, propagate_new rfl hsecond]
  simp [Passage.arrivals]

end Prelude

/-- **A guarded body** is accepted, and its stack is at least 1 high: the instance at hand waits there for the guard. -/
theorem verify_guarded (hb : body.Created)
    (heffect : ∀ k i, body.fetch? k = some i → i.stackEffect G = i.stackEffect g) (hm : 0 < m.argumentCount)
    (hguard : (G.method guard.method).argumentCount = 1) (hreturns : (G.method guard.method).resultCount = 0) {depth : Nat}
    (hv : body.verify g m = .ok depth) : (Emission.guarded guard body).verify G m = .ok (max depth 1) := by
  obtain ⟨s, hs, rfl⟩ := ok_of_map hv
  obtain ⟨entries, he, hnonempty, hpropagate⟩ := survey_parts hs
  have hmoved := guarded_moved guard hb heffect
  have hentries := entries_moved hmoved he
  rw [← guarded_handlers guard body] at hentries
  -- the handlers come first, over positions of which the two in front are not reached yet
  rw [propagate_append] at hpropagate
  obtain ⟨s', hhandlers, hrest⟩ := ok_of_bind hpropagate
  have hfirst := propagate_moved hmoved [none, none] rfl 0 hhandlers
  have hlast := propagate_moved hmoved [some 0, some 1] rfl 1 hrest
  simp only [Nat.max_zero] at hfirst
  have hbehind : ∀ k ∈ (entries.map Prod.fst).map (· + 2), 2 ≤ k := fun k hk => by
    obtain ⟨start, -, rfl⟩ := List.mem_map.1 hk
    exact Nat.le_add_left _ _
  have hprelude := propagate_prelude hnonempty hbehind hm hguard hreturns s'.heights s'.depth
  have hsize : (Emission.guarded guard body).size = body.size + 2 := hmoved.size
  have hnonempty' : (Emission.guarded guard body).order.isEmpty = false := by
    rw [guarded_order]
    rfl
  have hreplicate : List.replicate (body.size + 2) (none : Option Nat) =
      [none, none] ++ List.replicate body.size none := by
    rw [Nat.add_comm, ← List.replicate_append_replicate]
    rfl
  have hstarts : (entries.map fun e => (e.1 + 2, e.2.shift 2)).map Prod.fst = (entries.map Prod.fst).map (· + 2) := by
    simp [Function.comp_def]
  have harrivals : ((entries.map fun e => (e.1 + 2, e.2.shift 2)).map Prod.snd).reverse =
      (entries.map Prod.snd).reverse.map (Arrival.shift 2) := by
    simp [Function.comp_def]
  unfold verify survey
  rw [hnonempty', if_neg Bool.false_ne_true]
  simp only [hentries, hsize, heights_moved, hreplicate]
  rw [propagate_append, harrivals, hstarts, hfirst]
  simp only [Except.bind]
  rw [hprelude]
  simp only [List.map_singleton, Arrival.shift] at hlast
  rw [hlast]
  rfl

/-- a second call of a guard in front makes no further difference -/
theorem verify_behind (hb : body.Created)
    (heffect : ∀ k i, body.fetch? k = some i → i.stackEffect G = i.stackEffect g) (hm : 0 < m.argumentCount)
    (hguard : (G.method guard.method).argumentCount = 1) (hreturns : (G.method guard.method).resultCount = 0) {depth : Nat}
    (hv : body.verify g m = .ok depth) {body' : Body} (h : Relation.TransGen (Body.BehindGuard guard) body body') :
    body'.Created ∧ body'.verify G m = .ok (max depth 1) := by
  induction h with
  | single h =>
    cases behindGuard_iff.1 h
    exact ⟨guarded_created hb, verify_guarded hb heffect hm hguard hreturns hv⟩
  | tail _ h ih =>
    obtain ⟨hcreated, hverified⟩ := ih
    cases behindGuard_iff.1 h
    have hagain := verify_guarded (g := G) hcreated (fun _ _ _ => rfl) hm hguard hreturns hverified
    rw [Nat.max_assoc, Nat.max_self] at hagain
    exact ⟨guarded_created hcreated, hagain⟩

end Guarded

end Body

end DisposalWeaver
