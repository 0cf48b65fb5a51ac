/-
Definitions that are changed where they stand.

A method may be defined more than once. Weaving changes the first definition of it (`MethodDef.changeFirst`), and guards
are put in front of one method after another (`MethodDef.changeEach`); a program runs the body of the last definition that
has one (`MethodDef.lastBody?`). So a body that is run is behind no more than one guard of a type, however often its method
is defined (`lastBody?_changeEach`).
-/
import Mathlib.Data.List.Nodup
import Mathlib.Logic.Function.Iterate
import DisposalWeaver.Weaving.TypeWeaving

namespace DisposalWeaver

/-- of things that a key tells apart, those that a filter keeps are told by their keys -/
theorem mem_map_filter_iff {α β : Type} {key : α → β} {xs : List α} (hn : (xs.map key).Nodup) {x : α} (hx : x ∈ xs)
    (p : α → Bool) : key x ∈ (xs.filter p).map key ↔ p x = true := by
  constructor
  · intro hmem
    obtain ⟨y, hy, heq⟩ := List.mem_map.1 hmem
    obtain ⟨hy, hp⟩ := List.mem_filter.1 hy
    rwa [← List.inj_on_of_nodup_map hn hy hx heq]
  · intro hp
    exact List.mem_map_of_mem (List.mem_filter.2 ⟨hx, hp⟩)

namespace MethodDef

/-- the definitions with the first one of a method changed -/
def changeFirst (m : MethodId) (change : MethodDef → MethodDef) : List MethodDef → List MethodDef
  | [] => []
  | d :: rest => if d.id = m then change d :: rest else d :: changeFirst m change rest

/-- the definitions with the first one of each given method changed, again for each time that the method is given -/
def changeEach (targets : List MethodId) (change : MethodDef → MethodDef) (definitions : List MethodDef) :
    List MethodDef :=
  targets.foldl (fun definitions m => changeFirst m change definitions) definitions

/-- the body in the last definition of a method that has one -/
def lastBody? (m : MethodId) (definitions : List MethodDef) : Option Body :=
  (definitions.filterMap fun d => d.body.map fun body => (d.id, body)).reverse.lookup m

section Change

variable {m : MethodId} {change : MethodDef → MethodDef} {definitions : List MethodDef} {targets : List MethodId}
  {d : MethodDef}

/-! ## Changing one method -/

/-- the first definition is found before anything that is added behind -/
theorem changeFirst_append (hm : m ∈ definitions.map MethodDef.id) (added : List MethodDef) :
    changeFirst m change (definitions ++ added) = changeFirst m change definitions ++ added := by
  induction definitions with
  | nil => cases hm
  | cons d rest ih =>
    simp only [List.cons_append, changeFirst]
    split
    · rfl
    · next hd =>
      rw [List.map_cons, List.mem_cons] at hm
      rw [ih (hm.resolve_left fun h => hd h.symm), List.cons_append]

theorem ids_changeFirst (m : MethodId) (hchange : ∀ d, (change d).id = d.id) (definitions : List MethodDef) :
    (changeFirst m change definitions).map MethodDef.id = definitions.map MethodDef.id := by
  induction definitions with
  | nil => rfl
  | cons d rest ih =>
    rw [changeFirst]
    split
    · rw [List.map_cons, List.map_cons, hchange]
    · rw [List.map_cons, List.map_cons, ih]

theorem changeFirst_kept (hchange : ∀ d, (change d).id = d.id) (hd : d ∈ changeFirst m change definitions)
    (hne : d.id ≠ m) : d ∈ definitions := by
  induction definitions with
  | nil => cases hd
  | cons first rest ih =>
    rw [changeFirst] at hd
    split at hd
    · next hfirst =>
      rcases List.mem_cons.1 hd with rfl | hd
      · exact absurd ((hchange first).trans hfirst) hne
      · exact List.mem_cons_of_mem _ hd
    · rcases List.mem_cons.1 hd with rfl | hd
      · exact List.mem_cons_self
      · exact List.mem_cons_of_mem _ (ih hd)

/-- a method that is defined once has the definition that the first one was changed to -/
theorem changeFirst_once (honce : (definitions.map MethodDef.id).count m ≤ 1)
    (hd : d ∈ changeFirst m change definitions) (hid : d.id = m) :
    ∃ first ∈ definitions, first.id = m ∧ d = change first := by
  induction definitions with
  | nil => cases hd
  | cons first rest ih =>
    rw [changeFirst] at hd
    rw [List.map_cons, List.count_cons] at honce
    split at hd
    · next hfirst =>
      rcases List.mem_cons.1 hd with rfl | hd
      · exact ⟨first, List.mem_cons_self, hfirst, rfl⟩
      · have hmem : m ∈ rest.map MethodDef.id := hid ▸ List.mem_map_of_mem hd
        have hpos := List.count_pos_iff.2 hmem
        rw [if_pos (beq_iff_eq.2 hfirst)] at honce
        omega
    · next hfirst =>
      rcases List.mem_cons.1 hd with rfl | hd
      · exact absurd hid hfirst
      · obtain ⟨found, hmem, hfound⟩ := ih (Nat.le_trans (Nat.le_add_right _ _) honce) hd
        exact ⟨found, List.mem_cons_of_mem _ hmem, hfound⟩

/-! ## Changing one method after another -/

theorem changeEach_append (hchange : ∀ d, (change d).id = d.id)
    (htargets : ∀ m ∈ targets, m ∈ definitions.map MethodDef.id) (added : List MethodDef) :
    changeEach targets change (definitions ++ added) = changeEach targets change definitions ++ added := by
  induction targets generalizing definitions with
  | nil => rfl
  | cons m rest ih =>
    unfold changeEach
    rw [List.foldl_cons, List.foldl_cons, changeFirst_append (htargets m List.mem_cons_self)]
    refine ih fun m' hm' => ?_
    rw [ids_changeFirst m hchange]
    exact htargets m' (List.mem_cons_of_mem _ hm')

theorem id_iterate (hchange : ∀ d, (change d).id = d.id) (n : Nat) (d : MethodDef) : (change^[n] d).id = d.id := by
  induction n with
  | zero => rfl
  | succ n ih => rw [Function.iterate_succ_apply', hchange, ih]

/-- a definition is changed as often as its method is given, and then stands in the way of the later ones -/
theorem changeEach_cons (hchange : ∀ d, (change d).id = d.id) (targets : List MethodId) (d : MethodDef)
    (rest : List MethodDef) : changeEach targets change (d :: rest) =
      (change^[targets.count d.id] d) :: changeEach (targets.filter (· ≠ d.id)) change rest := by
  induction targets generalizing d rest with
  | nil => rfl
  | cons m more ih =>
    have hstep : changeEach (m :: more) change (d :: rest) =
        changeEach more change (changeFirst m change (d :: rest)) := rfl
    rw [hstep, changeFirst]
    by_cases hd : d.id = m
    · rw [if_pos hd, ih, hchange, hd, List.count_cons_self, Function.iterate_succ_apply,
        List.filter_cons_of_neg (by simp)]
    · rw [if_neg hd, ih, List.count_cons_of_ne (Ne.symm hd), List.filter_cons_of_pos (by simpa using Ne.symm hd)]
      rfl

/-- the first definition of another method is found as before -/
theorem find?_changeFirst (hchange : ∀ d, (change d).id = d.id) {m' : MethodId} (hm : m' ≠ m)
    (definitions : List MethodDef) : ((changeFirst m' change definitions).find? fun d => d.id == m) =
      definitions.find? fun d => d.id == m := by
  induction definitions with
  | nil => rfl
  | cons d rest ih =>
    rw [changeFirst]
    split
    · next hd =>
      have hother : (d.id == m) = false := beq_eq_false_iff_ne.2 (hd ▸ hm)
      rw [List.find?_cons, List.find?_cons, hchange, hother]
    · rw [List.find?_cons, List.find?_cons, ih]

/-- the first definition of a method has all the changes that the method is given for -/
theorem find?_changeEach (hchange : ∀ d, (change d).id = d.id) (m : MethodId) (targets : List MethodId)
    (definitions : List MethodDef) : ((changeEach targets change definitions).find? fun d => d.id == m) =
      (definitions.find? fun d => d.id == m).map change^[targets.count m] := by
  induction definitions generalizing targets with
  | nil =>
    induction targets with
    | nil => rfl
    | cons _ _ ih => exact ih
  | cons d rest ih =>
    rw [changeEach_cons hchange, List.find?_cons, List.find?_cons, id_iterate hchange]
    by_cases hd : d.id = m
    · simp only [hd, beq_self_eq_true, Option.map_some]
    · have hsame : (targets.filter (· ≠ d.id)).count m = targets.count m :=
        List.count_filter (by simpa using Ne.symm hd)
      simp only [beq_eq_false_iff_ne.2 hd, ih, hsame]

/-- what is not of a given method was there before -/
theorem mem_of_changeEach (hchange : ∀ d, (change d).id = d.id) (hd : d ∈ changeEach targets change definitions)
    (hne : d.id ∉ targets) : d ∈ definitions := by
  induction targets generalizing definitions with
  | nil => exact hd
  | cons m rest ih =>
    rw [List.mem_cons, not_or] at hne
    exact changeFirst_kept hchange (ih hd hne.2) hne.1

theorem lastBody?_append (m : MethodId) (definitions added : List MethodDef) :
    lastBody? m (definitions ++ added) = (lastBody? m added).or (lastBody? m definitions) := by
  rw [lastBody?, List.filterMap_append, List.reverse_append, List.lookup_append]
  rfl

theorem lastBody?_cons (m : MethodId) (d : MethodDef) (rest : List MethodDef) :
    lastBody? m (d :: rest) = (lastBody? m rest).or (if d.id = m then d.body else none) := by
  rw [← List.singleton_append, lastBody?_append]
  congr 1
  unfold lastBody?
  cases hbody : d.body with
  | none => simp [hbody]
  | some body =>
    by_cases hd : d.id = m
    · simp [hbody, hd]
    · have hne : (m == d.id) = false := beq_eq_false_iff_ne.2 (Ne.symm hd)
      simp [hbody, hd, List.lookup_cons, hne]

/-- the body is one of those that definitions of the method have -/
theorem exists_of_lastBody? {body : Body} (h : lastBody? m definitions = some body) :
    ∃ d ∈ definitions, d.id = m ∧ d.body = some body := by
  induction definitions with
  | nil => cases h
  | cons d rest ih =>
    rw [lastBody?_cons] at h
    rcases Option.or_eq_some_iff.1 h with h | ⟨-, h⟩
    · obtain ⟨d', hd', hrest⟩ := ih h
      exact ⟨d', List.mem_cons_of_mem _ hd', hrest⟩
    · split at h
      · next hd => exact ⟨d, List.mem_cons_self, hd, h⟩
      · cases h

/-- a method that no definition with a body is of has none -/
theorem lastBody?_eq_none (h : ∀ d ∈ definitions, d.id = m → d.body = none) : lastBody? m definitions = none := by
  cases hlast : lastBody? m definitions with
  | none => rfl
  | some body =>
    obtain ⟨d, hd, hid, hbody⟩ := exists_of_lastBody? hlast
    cases (h d hd hid).symm.trans hbody

/-- if a method is defined once, the body of that definition is run -/
theorem lastBody?_of_once (honce : (definitions.map MethodDef.id).count d.id = 1) (hd : d ∈ definitions) :
    lastBody? d.id definitions = d.body := by
  induction definitions with
  | nil => cases hd
  | cons d' rest ih =>
    rw [List.map_cons] at honce
    rw [lastBody?_cons]
    by_cases hid : d'.id = d.id
    · rw [hid, List.count_cons_self, Nat.add_eq_right, List.count_eq_zero] at honce
      have hrest : d ∉ rest := fun hmem => honce (List.mem_map_of_mem hmem)
      have hnone : lastBody? d.id rest = none := lastBody?_eq_none fun other hother hsame =>
        absurd (hsame ▸ List.mem_map_of_mem hother) honce
      rw [hnone, if_pos hid, (List.mem_cons.1 hd).resolve_right hrest]
      rfl
    · rw [List.count_cons_of_ne hid] at honce
      have hmem := (List.mem_cons.1 hd).resolve_left fun heq => hid (by rw [heq])
      rw [ih honce hmem, if_neg hid, Option.or_none]

/-- other methods keep the bodies that are run -/
theorem lastBody?_changeFirst (hchange : ∀ d, (change d).id = d.id) {m' : MethodId} (hm : m' ≠ m) :
    lastBody? m' (changeFirst m change definitions) = lastBody? m' definitions := by
  induction definitions with
  | nil => rfl
  | cons d rest ih =>
    rw [changeFirst]
    split
    · next hd => rw [lastBody?_cons, lastBody?_cons, hchange, hd, if_neg hm.symm, if_neg hm.symm]
    · rw [lastBody?_cons, lastBody?_cons, ih]

theorem lastBody?_untouched (hchange : ∀ d, (change d).id = d.id) (hm : m ∉ targets) :
    lastBody? m (changeEach targets change definitions) = lastBody? m definitions := by
  induction targets generalizing definitions with
  | nil => rfl
  | cons m' rest ih =>
    rw [List.mem_cons, not_or] at hm
    exact (ih hm.2).trans (lastBody?_changeFirst hchange hm.1)

/-- how many definitions give the method a body -/
def bodyCount (m : MethodId) (definitions : List MethodDef) : Nat :=
  definitions.countP fun d => d.id = m && d.body.isSome

theorem bodyCount_eq_zero (h : lastBody? m definitions = none) : bodyCount m definitions = 0 := by
  induction definitions with
  | nil => rfl
  | cons d rest ih =>
    rw [lastBody?_cons, Option.or_eq_none_iff] at h
    rw [bodyCount, List.countP_cons_of_neg, ← bodyCount, ih h.1]
    by_cases hd : d.id = m
    · rw [if_pos hd] at h
      simp [h.2]
    · simp [hd]

/-- a method is given as often as its definitions with a body are chosen, so no more often than it has bodies -/
theorem count_ids_le {p : MethodDef → Bool} (hp : ∀ d, p d = true → d.body.isSome = true) (m : MethodId)
    (definitions : List MethodDef) : ((definitions.filter p).map MethodDef.id).count m ≤ bodyCount m definitions := by
  rw [List.count, List.countP_map, List.countP_filter, bodyCount]
  refine List.countP_mono_left fun d _ hd => ?_
  simp only [Function.comp_apply, Bool.and_eq_true, beq_iff_eq] at hd
  simp [hd.1, hp d hd.2]

/-- **The body that is run** stays what it was or is changed once: if a later definition has a body too, that one is run,
and only the first definition is ever changed. -/
theorem lastBody?_changeEach (hchange : ∀ d, (change d).id = d.id)
    (hcount : targets.count m ≤ bodyCount m definitions) :
    lastBody? m (changeEach targets change definitions) = lastBody? m definitions ∨
      ∃ d ∈ definitions, d.id = m ∧ d.body = lastBody? m definitions ∧ m ∈ targets ∧
        lastBody? m (changeEach targets change definitions) = (change d).body := by
  -- on the definitions: the first one of the method takes all the changes that the method is given for
  induction definitions generalizing targets with
  | nil =>
    rw [bodyCount, List.countP_nil, Nat.le_zero] at hcount
    exact .inl (lastBody?_untouched hchange (List.count_eq_zero.1 hcount))
  | cons d rest ih =>
    rw [changeEach_cons hchange, lastBody?_cons, lastBody?_cons, id_iterate hchange]
    by_cases hd : d.id = m
    · have hrest : lastBody? m (changeEach (targets.filter (· ≠ d.id)) change rest) = lastBody? m rest :=
        lastBody?_untouched hchange (by simp [hd])
      rw [hrest, if_pos hd, if_pos hd, hd]
      cases hlast : lastBody? m rest with
      | some body => exact .inl rfl
      | none =>
        have hone : targets.count m ≤ 1 := by
          rw [bodyCount, List.countP_cons, ← bodyCount, bodyCount_eq_zero hlast] at hcount
          split at hcount <;> omega
        rcases Nat.le_one_iff_eq_zero_or_eq_one.1 hone with hzero | hone
        · rw [hzero]
          exact .inl rfl
        · rw [hone]
          exact .inr ⟨d, List.mem_cons_self, hd, rfl, List.count_pos_iff.1 (by omega), rfl⟩
    · rw [if_neg hd, if_neg hd, Option.or_none, Option.or_none]
      have hsame : (targets.filter (· ≠ d.id)).count m = targets.count m :=
        List.count_filter (by simpa using Ne.symm hd)
      have hless : (targets.filter (· ≠ d.id)).count m ≤ bodyCount m rest := by
        rw [hsame]
        rwa [bodyCount, List.countP_cons_of_neg (by simp [hd])] at hcount
      refine (ih hless).imp_right ?_
      rintro ⟨d', hd', hid', hbody, hmem, heq⟩
      exact ⟨d', List.mem_cons_of_mem _ hd', hid', hbody, (List.mem_filter.1 hmem).1, heq⟩

end Change

end MethodDef

namespace TypeDef

theorem updateMethod_first (t : TypeDef) (m : MethodId) (change : MethodDef → MethodDef) :
    t.updateMethod m change = { t with methods := MethodDef.changeFirst m change t.methods } := by
  have hfirst : ∀ definitions : List MethodDef, (definitions.findIdx? fun d => d.id == m).elim definitions
      (fun i => definitions.modify i change) = MethodDef.changeFirst m change definitions := by
    intro definitions
    induction definitions with
    | nil => rfl
    | cons d rest ih =>
      by_cases hd : d.id = m
      · simp [List.findIdx?_cons, MethodDef.changeFirst, hd]
      · simp only [List.findIdx?_cons, hd, beq_iff_eq, ↓reduceIte, MethodDef.changeFirst]
        rw [← ih]
        cases rest.findIdx? fun d => d.id == m <;> rfl
  rw [← hfirst t.methods]
  unfold updateMethod
  split
  · next hfound => rw [hfound, Option.elim_some]
  · next hfound => rw [hfound, Option.elim_none]

theorem ids_updateMethod (t : TypeDef) (m : MethodId) {change : MethodDef → MethodDef}
    (hchange : ∀ d, (change d).id = d.id) :
    (t.updateMethod m change).methods.map MethodDef.id = t.methods.map MethodDef.id := by
  rw [updateMethod_first]
  exact MethodDef.ids_changeFirst m hchange t.methods

theorem updateMethods_each (t : TypeDef) (targets : List MethodId) (change : MethodDef → MethodDef) :
    targets.foldl (fun t m => t.updateMethod m change) t =
      { t with methods := MethodDef.changeEach targets change t.methods } := by
  induction targets generalizing t with
  | nil => rfl
  | cons m rest ih =>
    rw [List.foldl_cons, ih, updateMethod_first]
    rfl

end TypeDef

end DisposalWeaver
