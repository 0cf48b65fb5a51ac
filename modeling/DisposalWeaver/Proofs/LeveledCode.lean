/-
Stack heights in generated code.

A piece of generated code is entered and left with an empty stack, and its jumps go no further than the instruction behind
it (`Carries`). Pieces that do so can be put one behind the other (`Carries.append`), so the heights of a body are those
of its pieces, for any number of fields. A body that lists such code up to a return is accepted (`Body.verify_holds`).
-/
import DisposalWeaver.Proofs.PlacedCode
import DisposalWeaver.Proofs.Survey

namespace DisposalWeaver

/-! ## Bodies that list code -/

/-- the code of the body, in order: the number of a handle is its position -/
structure Body.Lists (body : Body) (code : List Instruction) : Prop where
  fetch : ∀ k, body.fetch? k = code[k]?
  position : ∀ k, k < code.length → body.position? ⟨k⟩ = some k
  size : body.size = code.length

theorem Body.Holds.lists {body : Body} {code : List Instruction} (h : body.Holds code) : body.Lists code where
  fetch k := by
    unfold Body.fetch? Body.instruction?
    rw [h.order, List.getElem?_map]
    by_cases hk : k < code.length
    · rw [List.getElem?_range hk, Option.map_some, Option.bind_some, ← Array.getElem?_toList, ← List.getElem?_map, h.slots]
    · have hlength : code.length ≤ k := Nat.not_lt.1 hk
      rw [List.getElem?_eq_none (by simpa using hlength), List.getElem?_eq_none hlength]
      rfl
  position k hk := by
    have hplaced := (Layout.has_ofBody h).position k hk
    rwa [Nat.zero_add, Layout.position?_ofBody] at hplaced
  size := by
    unfold Body.size
    simp [h.order]

/-! ## The rule of one instruction -/

section Rules

variable (g : TypeGraph) (m : MethodDecl) (locals : Nat) (level : Nat → Option Nat)

/-- the heights from a position on -/
def Levels : Nat → List Nat → Prop
  | _, [] => True
  | k, height :: rest => level k = some height ∧ Levels (k + 1) rest

/-- the instruction at a position passes with a height, and every way on from there has the height that it leads to;
`next` stands behind it -/
structure Passes (k height : Nat) (next : Option Instruction) (i : Instruction) : Prop where
  enough : (i.stackEffect g).1 ≤ height
  jump : ∀ t, i.target? = some t → level t.number = some (height - (i.stackEffect g).1 + (i.stackEffect g).2)
  onward : i.isTerminal = false → level (k + 1) = some (height - (i.stackEffect g).1 + (i.stackEffect g).2)
  argument : ∀ n, i = .ldarg n ∨ i = .starg n → n.toNat < m.argumentCount
  variable_ : ∀ n, i = .ldloc n ∨ i = .ldloca n ∨ i = .stloc n → n.toNat < locals
  announced : ∀ t, i = .constrained t → ∃ r, next = some (.callvirt r)
  ret : i = .ret → height = m.resultCount
  leave : ∀ t, i = .leave t → height = 0

/-- every instruction of the code passes with its height -/
def Walks : Nat → List Instruction → List Nat → Prop
  | _, [], [] => True
  | k, i :: code, height :: heights => Passes g m locals level k height code.head? i ∧ Walks (k + 1) code heights
  | _, _, _ => False

/-- code from a position on is passed with these heights, from an empty stack to an empty stack behind it -/
def Carries (start : Nat) (code : List Instruction) (heights : List Nat) : Prop :=
  ∀ level, Levels level start (heights ++ [0]) → Walks g m locals level start code heights ∧ level start = some 0

end Rules

variable {g : TypeGraph} {m : MethodDecl} {locals : Nat} {level : Nat → Option Nat} {start k : Nat}
  {code code' : List Instruction} {heights heights' : List Nat}

/-! ## Pieces one behind the other -/

theorem levels_append : Levels level start (heights ++ heights') ↔
    Levels level start heights ∧ Levels level (start + heights.length) heights' := by
  induction heights generalizing start with
  | nil => simp [Levels]
  | cons height rest ih =>
    simp only [List.cons_append, Levels, ih, List.length_cons, and_assoc, Nat.add_right_comm start 1, ← Nat.add_assoc]

theorem levels_of_get (h : ∀ j height, heights[j]? = some height → level (start + j) = some height) :
    Levels level start heights := by
  induction heights generalizing start with
  | nil => trivial
  | cons first rest ih =>
    refine ⟨h 0 first rfl, ih fun j height hj => ?_⟩
    rw [Nat.add_assoc, Nat.add_comm 1 j]
    exact h (j + 1) height hj

/-- what stands behind the last instruction makes no difference to it, unless it is a prefix -/
theorem Passes.before {height : Nat} {i : Instruction} (h : Passes g m locals level k height none i)
    (next : Option Instruction) : Passes g m locals level k height next i where
  enough := h.enough
  jump := h.jump
  onward := h.onward
  argument := h.argument
  variable_ := h.variable_
  announced t ht := by
    obtain ⟨r, hr⟩ := h.announced t ht
    cases hr
  ret := h.ret
  leave := h.leave

theorem Walks.length (h : Walks g m locals level start code heights) : code.length = heights.length := by
  induction code generalizing start heights with
  | nil =>
    cases heights with
    | nil => rfl
    | cons _ _ => exact h.elim
  | cons i rest ih =>
    cases heights with
    | nil => exact h.elim
    | cons _ _ => exact congrArg (· + 1) (ih h.2)

theorem Walks.append (h : Walks g m locals level start code heights)
    (h' : Walks g m locals level (start + code.length) code' heights') :
    Walks g m locals level start (code ++ code') (heights ++ heights') := by
  induction code generalizing start heights with
  | nil =>
    cases heights with
    | nil => exact h'
    | cons _ _ => exact h.elim
  | cons i rest ih =>
    cases heights with
    | nil => exact h.elim
    | cons height later =>
      rw [List.length_cons, ← Nat.add_assoc, Nat.add_right_comm] at h'
      refine ⟨?_, ih h.2 h'⟩
      cases rest with
      | nil => exact h.1.before _
      | cons _ _ => exact h.1

theorem Walks.get (h : Walks g m locals level start code heights) {i : Instruction} (hi : code[k]? = some i) :
    ∃ height, heights[k]? = some height ∧ Passes g m locals level (start + k) height code[k + 1]? i := by
  induction code generalizing start heights k with
  | nil => cases hi
  | cons first rest ih =>
    cases heights with
    | nil => exact h.elim
    | cons height later =>
      cases k with
      | zero =>
        cases hi
        exact ⟨height, rfl, by simpa [List.head?_eq_getElem?] using h.1⟩
      | succ k =>
        obtain ⟨found, hfound, hpasses⟩ := ih h.2 hi
        exact ⟨found, hfound, by rwa [Nat.add_right_comm, Nat.add_assoc] at hpasses⟩

namespace Carries

theorem nil : Carries g m locals start [] [] := fun _ h => ⟨trivial, h.1⟩

/-- there is a height for each instruction -/
theorem length (h : Carries g m locals start code heights) : code.length = heights.length := by
  have hlevels : Levels (fun j => (heights ++ [0])[j - start]?) start (heights ++ [0]) :=
    levels_of_get fun j height hj => by rwa [Nat.add_sub_cancel_left]
  exact (h _ hlevels).1.length

/-- **Pieces one behind the other** are a piece. -/
theorem append (h : Carries g m locals start code heights)
    (h' : Carries g m locals (start + code.length) code' heights') :
    Carries g m locals start (code ++ code') (heights ++ heights') := by
  have hlength := h.length
  intro level hlevel
  rw [List.append_assoc, levels_append] at hlevel
  obtain ⟨hfirst, hsecond⟩ := hlevel
  rw [hlength] at h'
  obtain ⟨hwalks', hentry⟩ := h' level hsecond
  obtain ⟨hwalks, hstart⟩ := h level (levels_append.2 ⟨hfirst, hentry, trivial⟩)
  exact ⟨hwalks.append (hlength ▸ hwalks'), hstart⟩

end Carries

/-! ## The pieces -/

theorem passes_iff {height : Nat} {next : Option Instruction} {i : Instruction} :
    Passes g m locals level k height next i ↔ (i.stackEffect g).1 ≤ height ∧
      (∀ t, i.target? = some t → level t.number = some (height - (i.stackEffect g).1 + (i.stackEffect g).2)) ∧
      (i.isTerminal = false → level (k + 1) = some (height - (i.stackEffect g).1 + (i.stackEffect g).2)) ∧
      (∀ n, i = .ldarg n ∨ i = .starg n → n.toNat < m.argumentCount) ∧
      (∀ n, i = .ldloc n ∨ i = .ldloca n ∨ i = .stloc n → n.toNat < locals) ∧
      (∀ t, i = .constrained t → ∃ r, next = some (.callvirt r)) ∧ (i = .ret → height = m.resultCount) ∧
      (∀ t, i = .leave t → height = 0) :=
  ⟨fun ⟨h1, h2, h3, h4, h5, h6, h7, h8⟩ => ⟨h1, h2, h3, h4, h5, h6, h7, h8⟩,
    fun ⟨h1, h2, h3, h4, h5, h6, h7, h8⟩ => ⟨h1, h2, h3, h4, h5, h6, h7, h8⟩⟩

/-- what calls of the platform take and leave -/
structure References.Effects (g : TypeGraph) (references : References) : Prop where
  exchangeInt32 : (g.method references.exchangeInt32).argumentCount = 2 ∧
    (g.method references.exchangeInt32).resultCount = 1
  exchangeReference : (g.method references.exchangeReference).argumentCount = 2 ∧
    (g.method references.exchangeReference).resultCount = 1
  dispose : (g.method references.dispose).argumentCount = 1 ∧ (g.method references.dispose).resultCount = 0
  suppressFinalize : (g.method references.suppressFinalize).argumentCount = 1 ∧
    (g.method references.suppressFinalize).resultCount = 0
  objectFinalize : (g.method references.objectFinalize).argumentCount = 1 ∧
    (g.method references.objectFinalize).resultCount = 0
  disposedConstructor : (g.method references.disposedConstructor).parameters.length = 1

section Pieces

open Emission

variable {references : References}

theorem carries_escape (hr : references.Effects g) (hthis : 0 < m.argumentCount) (hreturns : m.resultCount = 0)
    (signaled : FieldId) :
    Carries g m locals start (escapeCode g references signaled start) [0, 1, 1, 2, 1, 0, 0] := by
  intro level h
  simp only [List.cons_append, List.nil_append, Levels, Nat.add_assoc, Nat.reduceAdd, and_true] at h
  obtain ⟨h0, h1, h2, h3, h4, h5, h6, h7⟩ := h
  simp [escapeCode, Walks, passes_iff, Instruction.stackEffect, Instruction.target?, Instruction.isTerminal,
    MethodRef.direct, hr.exchangeInt32, Nat.add_assoc, *]

theorem carries_setDisposed (hthis : 0 < m.argumentCount) (disposed : FieldId) :
    Carries g m locals start (setDisposedCode g disposed) [0, 1, 2] := by
  intro level h
  simp only [List.cons_append, List.nil_append, Levels, Nat.add_assoc, Nat.reduceAdd, and_true] at h
  obtain ⟨h0, h1, h2, h3⟩ := h
  simp [setDisposedCode, Walks, passes_iff, Instruction.stackEffect, Instruction.target?, Instruction.isTerminal,
    Nat.add_assoc, *]

/-- a hook takes the instance at hand and leaves nothing -/
def IsHook (g : TypeGraph) (hook : MethodId) : Prop :=
  (g.method hook).argumentCount = 1 ∧ (g.method hook).resultCount = 0

theorem carries_call (hthis : 0 < m.argumentCount) {hook : MethodId} (hh : IsHook g hook) :
    Carries g m locals start (callCode g hook) [0, 1] := by
  intro level h
  simp only [List.cons_append, List.nil_append, Levels, Nat.add_assoc, Nat.reduceAdd, and_true] at h
  obtain ⟨h0, h1, h2⟩ := h
  have hcall : callCode g hook = [.ldarg 0, .call (.onSelf g hook)] ∨
      callCode g hook = [.ldarg 0, .callvirt (.onSelf g hook)] := by
    unfold callCode Instruction.callTo
    split
    · exact .inr rfl
    · exact .inl rfl
  rcases hcall with hcall | hcall <;>
    simp [Walks, passes_iff, Instruction.stackEffect, Instruction.target?, Instruction.isTerminal,
      MethodRef.onSelf, hh.1, hh.2, Nat.add_assoc, *]

theorem carries_managed (hargument : 1 < m.argumentCount) {managed : MethodId} (hh : IsHook g managed) :
    Carries g m locals start (managedCode g managed start) ([0, 1] ++ [0, 1] ++ [0]) := by
  have hcall : Carries g m locals (start + 2) (callCode g managed) [0, 1] :=
    carries_call (Nat.lt_trans Nat.zero_lt_one hargument) hh
  intro level h
  simp only [List.cons_append, List.nil_append, Levels, Nat.add_assoc, Nat.reduceAdd, and_true] at h
  obtain ⟨h0, h1, h2, h3, h4, h5⟩ := h
  have hhook := (hcall level ⟨h2, h3, h4, trivial⟩).1
  have htest : Walks g m locals level start [.ldarg 1, .brfalse ⟨start + 4⟩] [0, 1] := by
    simp [Walks, passes_iff, Instruction.stackEffect, Instruction.target?, Instruction.isTerminal, Nat.add_assoc, *]
  have hnop : Walks g m locals level (start + 4) [.nop] [0] := by
    simp [Walks, passes_iff, Instruction.stackEffect, Instruction.target?, Instruction.isTerminal, Nat.add_assoc, *]
  exact ⟨(htest.append hhook).append hnop, h0⟩

/-- **The disposal of a field** starts and ends with an empty stack, however its old value waits. -/
theorem carries_disposal (start : Nat) (hr : references.Effects g) (hthis : 0 < m.argumentCount) (e : FieldId × Option UInt16)
    (hslot : ∀ slot, e.2 = some slot → slot.toNat < locals) :
    ∃ heights, Carries g m locals start (disposalCode g references start e) heights := by
  obtain ⟨f, slot⟩ := e
  cases slot with
  | none =>
    refine ⟨[0, 1, 1, 2, 1, 2, 1, 0, 1, 0], fun level h => ?_⟩
    simp only [List.cons_append, List.nil_append, Levels, Nat.add_assoc, Nat.reduceAdd, and_true] at h
    obtain ⟨h0, h1, h2, h3, h4, h5, h6, h7, h8, h9, h10⟩ := h
    simp [disposalCode, exchangeOf, Walks, passes_iff, Instruction.stackEffect, Instruction.target?,
      Instruction.isTerminal, MethodRef.direct, hr.exchangeReference, hr.dispose, Nat.add_assoc, *]
  | some slot =>
    have hin := hslot slot rfl
    refine ⟨[0, 1, 1, 2, 1, 0, 1, 1, 0, 1, 1, 0], fun level h => ?_⟩
    simp only [List.cons_append, List.nil_append, Levels, Nat.add_assoc, Nat.reduceAdd, and_true] at h
    obtain ⟨h0, h1, h2, h3, h4, h5, h6, h7, h8, h9, h10, h11, h12⟩ := h
    simp [disposalCode, exchangeOf, Walks, passes_iff, Instruction.stackEffect, Instruction.target?,
      Instruction.isTerminal, MethodRef.direct, hr.exchangeReference, hr.dispose, Nat.add_assoc, *]

theorem carries_disposals (start : Nat) (hr : references.Effects g) (hthis : 0 < m.argumentCount)
    (fields : List (FieldId × Option UInt16)) (hslots : ∀ e ∈ fields, ∀ slot, e.2 = some slot → slot.toNat < locals) :
    ∃ heights, Carries g m locals start (disposalsCode g references start fields) heights := by
  induction fields generalizing start with
  | nil => exact ⟨[], .nil⟩
  | cons e rest ih =>
    obtain ⟨first, hfirst⟩ := carries_disposal start hr hthis e (hslots e List.mem_cons_self)
    obtain ⟨later, hlater⟩ := ih (start + (disposalCode g references start e).length)
      fun e' he' => hslots e' (List.mem_cons_of_mem _ he')
    exact ⟨first ++ later, hfirst.append hlater⟩

end Pieces

/-! ## Accepted code -/

namespace Body

variable {body : Body}

/-- what the rule of an instruction asks of a body -/
theorem Passes.flow {i : Instruction} {height : Nat} {next : Option Instruction} (h : Passes g m locals level k height next i)
    (hl : body.Lists code) (hlevel : ∀ j height, level j = some height → j < code.length) :
    ∃ p, body.flow g i ⟨k, height⟩ = .ok p ∧ ∀ b ∈ p.arrivals, level b.position = some b.height := by
  obtain ⟨after, hafter⟩ : ∃ after, after = height - (i.stackEffect g).1 + (i.stackEffect g).2 := ⟨_, rfl⟩
  have hjump : ∃ jump, body.jumpArrival i after = .ok jump ∧ ∀ b ∈ jump, level b.position = some b.height := by
    unfold jumpArrival
    cases ht : i.target? with
    | none => exact ⟨none, rfl, fun b hb => by cases hb⟩
    | some t =>
      have hlands := h.jump t ht
      rw [← hafter] at hlands
      have hplaced : body.position? t = some t.number := hl.position t.number (hlevel _ _ hlands)
      refine ⟨some ⟨t.number, after⟩, ?_, fun b hb => ?_⟩
      · simp only [resolve, hplaced]
        rfl
      · cases hb
        exact hlands
  have honward : ∃ onward, body.nextArrival i k after = .ok onward ∧ ∀ b ∈ onward, level b.position = some b.height := by
    unfold nextArrival
    cases ht : i.isTerminal with
    | true => exact ⟨none, rfl, fun b hb => by cases hb⟩
    | false =>
      have hgoes := h.onward ht
      rw [← hafter] at hgoes
      have hroom := hlevel _ _ hgoes
      refine ⟨some ⟨k + 1, after⟩, ?_, fun b hb => ?_⟩
      · rw [if_neg Bool.false_ne_true, if_neg (by rw [hl.size]; omega)]
      · cases hb
        exact hgoes
  obtain ⟨jump, hj, hjump⟩ := hjump
  obtain ⟨onward, hn, honward⟩ := honward
  refine ⟨{ depth := after, onward, jump }, ?_, fun b hb => ?_⟩
  · unfold Body.flow
    simp only
    rw [if_neg (Nat.not_lt.2 h.enough), ← hafter, hj]
    simp only [bind, Except.bind, hn]
    rfl
  · rcases List.mem_append.1 hb with hb | hb
    · exact honward b (by simpa using hb)
    · exact hjump b (by simpa using hb)

theorem Passes.passage {i : Instruction} {height : Nat}
    (h : Passes g m body.locals.size level k height code[k + 1]? i) (hl : body.Lists code)
    (hlevel : ∀ j height, level j = some height → j < code.length) :
    ∃ p, body.passage g m i ⟨k, height⟩ = .ok p ∧ ∀ b ∈ p.arrivals, level b.position = some b.height := by
  have hflow := Passes.flow h hl hlevel
  cases i with
  | ldarg n =>
    simp only [passage.eq_def]
    rw [if_neg (Nat.not_le.2 (h.argument n (.inl rfl)))]
    exact hflow
  | starg n =>
    simp only [passage.eq_def]
    rw [if_neg (Nat.not_le.2 (h.argument n (.inr rfl)))]
    exact hflow
  | ldloc n =>
    simp only [passage.eq_def]
    rw [if_neg (Nat.not_le.2 (h.variable_ n (.inl rfl)))]
    exact hflow
  | ldloca n =>
    simp only [passage.eq_def]
    rw [if_neg (Nat.not_le.2 (h.variable_ n (.inr (.inl rfl))))]
    exact hflow
  | stloc n =>
    simp only [passage.eq_def]
    rw [if_neg (Nat.not_le.2 (h.variable_ n (.inr (.inr rfl))))]
    exact hflow
  | constrained t =>
    obtain ⟨r, hr⟩ := h.announced t rfl
    simp only [passage.eq_def, hl.fetch, hr]
    exact hflow
  | ret =>
    refine ⟨{}, ?_, fun b hb => by cases hb⟩
    simp only [passage.eq_def]
    rw [if_pos (h.ret rfl)]
  | leave t =>
    have hlands := h.jump t rfl
    have hplaced : body.position? t = some t.number := hl.position t.number (hlevel _ _ hlands)
    refine ⟨{ jump := some ⟨t.number, 0⟩ }, ?_, fun b hb => ?_⟩
    · simp only [passage.eq_def, resolve, hplaced]
      rfl
    · rw [List.mem_singleton.1 hb]
      cases h.leave t rfl
      exact hlands
  | endfinally => exact ⟨{}, rfl, fun b hb => by cases hb⟩
  | _ => exact hflow

/-- **Listed code that passes everywhere is accepted**, if its regions start with an empty stack and its handlers with the
height of their kind. -/
theorem verify_walks (hl : body.Lists code) {entries : List (Nat × Arrival)}
    (he : body.handlers.mapM body.entry = .ok entries)
    (hw : Walks g m body.locals.size (heights[·]?) 0 code heights) (hstart : heights[0]? = some 0)
    (hentries : ∀ e ∈ entries, heights[e.1]? = some 0 ∧ heights[e.2.position]? = some e.2.height) :
    ∃ depth, body.verify g m = .ok depth := by
  have hlevel : ∀ j height, heights[j]? = some height → j < code.length := fun j height hj =>
    hw.length ▸ (List.getElem?_eq_some_iff.1 hj).1
  have hleveled : Leveled g m body (entries.map Prod.fst) fun a => heights[a.position]? = some a.height := by
    refine ⟨fun a b ha hb hsame => ?_, fun a ha => ?_⟩
    · rw [hsame, hb] at ha
      exact (Option.some.inj ha).symm
    · obtain ⟨i, hi⟩ : ∃ i, code[a.position]? = some i :=
        ⟨_, List.getElem?_eq_getElem (hlevel _ _ ha)⟩
      obtain ⟨height, hheight, hpasses⟩ := hw.get hi
      cases ha.symm.trans hheight
      rw [Nat.zero_add] at hpasses
      have hempty : ((entries.map Prod.fst).contains a.position && a.height != 0) = false := by
        rw [Bool.and_eq_false_iff, bne_eq_false_iff_eq]
        by_cases hmem : a.position ∈ entries.map Prod.fst
        · obtain ⟨e, he, hposition⟩ := List.mem_map.1 hmem
          have hzero := (hentries e he).1
          rw [hposition, ha] at hzero
          exact .inr (Option.some.inj hzero)
        · exact .inl (by simpa using hmem)
      unfold visit
      rw [hempty, if_neg Bool.false_ne_true, hl.fetch, hi]
      exact Passes.passage hpasses hl hlevel
  obtain ⟨s, hs⟩ := survey_ok he hleveled hstart fun e he => (hentries e he).2
  exact ⟨s.depth, by rw [verify, hs]; rfl⟩

/-- a body that holds a piece and a return -/
theorem verify_holds (hc : Carries g m locals 0 code heights) (hb : body.Holds (code ++ [.ret]))
    (hlocals : body.locals.size = locals) (hreturns : m.resultCount = 0) : ∃ depth, body.verify g m = .ok depth := by
  obtain ⟨hwalks, hstart⟩ := hc ((heights ++ [0])[·]?) (levels_of_get fun j height hj => by rwa [Nat.zero_add])
  have hret : Passes g m body.locals.size ((heights ++ [0])[·]?) (0 + code.length) 0 none .ret := by
    simp [passes_iff, Instruction.stackEffect, Instruction.target?, Instruction.isTerminal, hreturns]
  rw [← hlocals] at hwalks
  have hnone : body.handlers.mapM body.entry = .ok [] := by
    rw [hb.handlers]
    rfl
  exact verify_walks hb.lists hnone (hwalks.append ⟨hret, trivial⟩) hstart fun e he => by cases he

end Body

/-! ## Generated bodies are accepted -/

namespace Emission

variable {references : References}

/-- fields that wait in locals -/
def slotCount (g : TypeGraph) (fields : List FieldId) : Nat :=
  fields.countP fun f => (g.field f).type.isGenericParameter

theorem plan_slots (used : Nat) (fields : List FieldId) : ∀ e ∈ plan g used fields, ∀ slot, e.2 = some slot →
    slot.toNat < used + slotCount g fields := by
  induction fields generalizing used with
  | nil => exact fun e he => by cases he
  | cons f rest ih =>
    intro e he slot hslot
    rw [plan] at he
    split at he
    · next hgeneric =>
      have hcount : slotCount g (f :: rest) = slotCount g rest + 1 := List.countP_cons_of_pos hgeneric
      rcases List.mem_cons.1 he with rfl | he
      · cases hslot
        have hle : (UInt16.ofNat used).toNat ≤ used := Nat.mod_le _ _
        omega
      · have hlt := ih (used + 1) e he slot hslot
        omega
    · next hplain =>
      have hcount : slotCount g (f :: rest) = slotCount g rest := List.countP_cons_of_neg hplain
      rcases List.mem_cons.1 he with rfl | he
      · cases hslot
      · rw [hcount]
        exact ih used e he slot hslot

theorem disposals_locals (fields : List FieldId) (body : Body) :
    (disposals g references fields body).locals.size = body.locals.size + slotCount g fields := by
  induction fields generalizing body with
  | nil => rfl
  | cons f rest ih =>
    have hrest := ih (disposal g references f body)
    have hlocals : (disposal g references f body).locals.size + slotCount g rest =
        body.locals.size + slotCount g (f :: rest) := by
      unfold disposal
      simp only
      split
      · next hgeneric =>
        have hcount : slotCount g (f :: rest) = slotCount g rest + 1 := List.countP_cons_of_pos hgeneric
        simp only [constrainedDisposal, Body.locals_append, Body.addLocal, Array.size_push]
        omega
      · next hplain =>
        have hcount : slotCount g (f :: rest) = slotCount g rest := List.countP_cons_of_neg hplain
        simp only [referenceDisposal, Body.locals_append, hcount]
    rw [← hlocals]
    exact hrest

theorem plan_fits (fields : List FieldId) : ∀ e ∈ plan g 0 fields, ∀ slot, e.2 = some slot →
    slot.toNat < slotCount g fields := by
  have hslots := plan_slots (g := g) 0 fields
  rwa [Nat.zero_add] at hslots

/-- the disposals of fields fit the locals that they are given -/
theorem carries_fields (hr : references.Effects g) (hthis : 0 < m.argumentCount) (start : Nat) (fields : List FieldId) :
    ∃ heights, Carries g m (slotCount g fields) start (disposalsCode g references start (plan g 0 fields)) heights :=
  carries_disposals start hr hthis _ (plan_fits fields)

theorem simpleEntry_locals (state : WovenState) (fields : List FieldId) :
    (simpleEntry g references state fields).locals.size = slotCount g fields := by
  unfold simpleEntry setDisposed escapeCheck
  rw [Body.locals_append, Body.locals_append, disposals_locals, Body.locals_append]
  exact Nat.zero_add _

theorem derivedHook_locals (fields : List FieldId) :
    (derivedHook g references fields).locals.size = slotCount g fields := by
  unfold derivedHook
  rw [Body.locals_append, disposals_locals]
  exact Nat.zero_add _

variable (hr : references.Effects g) (hthis : 0 < m.argumentCount) (hreturns : m.resultCount = 0)

include hr hthis hreturns

theorem simpleEntry_verify (state : WovenState) (fields : List FieldId) :
    ∃ depth, (simpleEntry g references state fields).verify g m = .ok depth := by
  obtain ⟨heights, hfields⟩ := carries_fields hr hthis (0 + 7) fields
  exact Body.verify_holds (((carries_escape hr hthis hreturns state.signaled).append hfields).append
    (carries_setDisposed hthis state.disposed)) (simpleEntry_holds g references state fields)
    (simpleEntry_locals state fields) hreturns

theorem derivedHook_verify (fields : List FieldId) :
    ∃ depth, (derivedHook g references fields).verify g m = .ok depth := by
  obtain ⟨heights, hfields⟩ := carries_fields hr hthis 0 fields
  exact Body.verify_holds hfields (derivedHook_holds g references fields) (derivedHook_locals fields) hreturns

theorem managedEntry_verify (state : WovenState) {managed : MethodId} (hh : IsHook g managed) :
    ∃ depth, (managedEntry g references state managed).verify g m = .ok depth :=
  Body.verify_holds (((carries_escape hr hthis hreturns state.signaled).append (carries_call hthis hh)).append
    (carries_setDisposed hthis state.disposed)) (managedEntry_holds g references state managed) rfl hreturns

theorem guard_verify (t : TypeId) (disposed : FieldId) :
    ∃ depth, (guard g references t disposed).verify g m = .ok depth := by
  have hcode : Carries g m 0 0 (guardCode g references t disposed).dropLast [0, 1, 1, 0, 1, 1] := by
    intro level h
    simp only [List.cons_append, List.nil_append, Levels, Nat.reduceAdd, and_true] at h
    obtain ⟨h0, h1, h2, h3, h4, h5, h6⟩ := h
    simp [guardCode, Walks, passes_iff, Instruction.stackEffect, Instruction.target?, Instruction.isTerminal, MethodRef.direct,
      hr.disposedConstructor, *]
  exact Body.verify_holds hcode (guard_holds g references t disposed) rfl hreturns

theorem entryThroughRoutine_verify {routine : MethodId} (hroutine : (g.method routine).argumentCount = 2 ∧
    (g.method routine).resultCount = 0) : ∃ depth, (entryThroughRoutine g references routine).verify g m = .ok depth := by
  have hcode : Carries g m 0 0 (entryThroughRoutineCode g references routine).dropLast [0, 1, 2, 0, 1] := by
    intro level h
    simp only [List.cons_append, List.nil_append, Levels, Nat.reduceAdd, and_true] at h
    obtain ⟨h0, h1, h2, h3, h4, h5⟩ := h
    simp [entryThroughRoutineCode, Walks, passes_iff, Instruction.stackEffect, Instruction.target?,
      Instruction.isTerminal, MethodRef.direct, MethodRef.onSelf, hr.suppressFinalize, *]
  exact Body.verify_holds hcode (entryThroughRoutine_holds g references routine) rfl hreturns

theorem routine_verify (state : WovenState) {managed : Option MethodId} {unmanaged : MethodId}
    (hargument : 1 < m.argumentCount) (hm : ∀ hook, managed = some hook → IsHook g hook) (hu : IsHook g unmanaged) :
    ∃ depth, (routine g references state managed unmanaged).verify g m = .ok depth := by
  have hmanaged : ∃ heights, Carries g m (routine g references state managed unmanaged).locals.size (0 + 7)
      (managed.elim [] fun hook => managedCode g hook 7) heights := by
    cases managed with
    | none => exact ⟨[], .nil⟩
    | some hook => exact ⟨_, carries_managed hargument (hm hook rfl)⟩
  obtain ⟨heights, hmanaged⟩ := hmanaged
  exact Body.verify_holds
    ((((carries_escape hr hthis hreturns state.signaled).append hmanaged).append (carries_call hthis hu)).append
      (carries_setDisposed hthis state.disposed)) (routine_holds g references state managed unmanaged) rfl hreturns

theorem finalizer_verify {routine : MethodId} (hroutine : (g.method routine).argumentCount = 2 ∧
    (g.method routine).resultCount = 0) : ∃ depth, (finalizer g references routine).verify g m = .ok depth := by
  have hholds : (Body.empty.append (finalizerCode g references routine)).Holds (finalizerCode g references routine) :=
    Body.Holds.empty.append _
  have hlists : (finalizer g references routine).Lists (finalizerCode g references routine) :=
    ⟨hholds.lists.fetch, hholds.lists.position, hholds.lists.size⟩
  have hentries : (finalizer g references routine).handlers.mapM (finalizer g references routine).entry =
      .ok [(0, ⟨4, 0⟩)] := by
    have hplaced : ∀ k, k < 8 → (finalizer g references routine).resolve ⟨k⟩ = .ok k := fun k hk => by
      unfold Body.resolve
      rw [hlists.position k hk]
    have hhandlers : (finalizer g references routine).handlers =
        [{ kind := .finally, tryStart := ⟨0⟩, tryEnd := ⟨4⟩, handlerStart := ⟨4⟩, handlerEnd := ⟨7⟩ }] := rfl
    rw [hhandlers]
    simp only [List.mapM_cons, List.mapM_nil, Body.entry, hplaced 0 (by omega), hplaced 4 (by omega),
      hplaced 7 (by omega)]
    rfl
  have hwalks : Walks g m (finalizer g references routine).locals.size ([0, 1, 2, 0, 0, 1, 0, 0][·]?) 0
      (finalizerCode g references routine) [0, 1, 2, 0, 0, 1, 0, 0] := by
    simp [finalizerCode, Walks, passes_iff, Instruction.stackEffect, Instruction.target?, Instruction.isTerminal,
      MethodRef.direct, MethodRef.onSelf, hr.objectFinalize, *]
  refine Body.verify_walks hlists hentries hwalks rfl fun e he => ?_
  rw [List.mem_singleton.1 he]
  exact ⟨rfl, rfl⟩

end Emission

end DisposalWeaver
