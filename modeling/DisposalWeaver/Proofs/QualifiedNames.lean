/-
How qualified names are put together and taken apart.

A text is a qualified name if each of its segments is a good one (`QualifiedName.check_iff`). The segments of a text are
those on either side of any of its separators (`Cut.parts_append`), so a name may be cut at a separator, and two names may
be joined by one (`Spells.append_iff`). Nested names, namespaces and simple names are such cuts and joins. Main statement:
`QualifiedName.names_closed`.
-/
import Mathlib.Data.List.TakeWhile
import DisposalWeaver.Weaving.Settings

namespace DisposalWeaver

/-! ## Cutting text -/

namespace Cut

variable {isSeparator : Char → Bool} {mark : Char} {s t text rest : List Char}

theorem parts_eq_splitOnP (isSeparator : Char → Bool) (text : List Char) :
    parts isSeparator text = text.splitOnP isSeparator := by
  induction text with
  | nil => rw [parts, List.splitOnP_nil]
  | cons c text ih =>
    rw [parts, List.splitOnP_cons_eq_if_modifyHead, ih]
    split
    · rfl
    · cases hparts : text.splitOnP isSeparator with
      | nil => exact absurd hparts (List.splitOnP_ne_nil isSeparator text)
      | cons part more => rfl

/-- the parts of a text are those on either side of any of its separators -/
theorem parts_append (h : isSeparator mark = true) (s t : List Char) :
    parts isSeparator (s ++ mark :: t) = parts isSeparator s ++ parts isSeparator t := by
  simp only [parts_eq_splitOnP, List.splitOnP_append_cons s t h]

/-- a character that separates nothing is in one of the parts -/
theorem exists_part {c : Char} (hc : c ∈ text) (hplain : isSeparator c = false) :
    ∃ part ∈ parts isSeparator text, c ∈ part := by
  induction text with
  | nil => cases hc
  | cons d text ih =>
    rw [parts]
    rcases List.mem_cons.1 hc with rfl | hc
    · rw [if_neg (by simp [hplain])]
      cases parts isSeparator text with
      | nil => exact ⟨[c], List.mem_cons_self, List.mem_cons_self⟩
      | cons part more => exact ⟨c :: part, List.mem_cons_self, List.mem_cons_self⟩
    · obtain ⟨part, hpart, hmem⟩ := ih hc
      split
      · exact ⟨part, List.mem_cons_of_mem _ hpart, hmem⟩
      · cases hparts : parts isSeparator text with
        | nil => rw [hparts] at hpart; cases hpart
        | cons first more =>
          rw [hparts] at hpart
          rcases List.mem_cons.1 hpart with rfl | hpart
          · exact ⟨d :: part, List.mem_cons_self, List.mem_cons_of_mem d hmem⟩
          · exact ⟨part, List.mem_cons_of_mem _ hpart, hmem⟩

/-- a text has a first `mark`, or none -/
theorem first_or_none (mark : Char) (text : List Char) :
    (∃ s t, text = s ++ mark :: t ∧ mark ∉ s) ∨ mark ∉ text := by
  by_cases h : mark ∈ text
  · exact .inl (List.eq_append_cons_of_mem h)
  · exact .inr h

/-- a text has a last `mark`, or none -/
theorem last_or_none (mark : Char) (text : List Char) :
    (∃ s t, text = s ++ mark :: t ∧ mark ∉ t) ∨ mark ∉ text := by
  rcases first_or_none mark text.reverse with ⟨s, t, heq, hs⟩ | h
  · refine .inl ⟨t.reverse, s.reverse, ?_, by simpa using hs⟩
    simpa using congrArg List.reverse heq
  · exact .inr (by simpa using h)

theorem beforeFirst_whole (h : mark ∉ text) : beforeFirst mark text = text := by
  refine List.takeWhile_eq_self_iff.2 fun c hc => ?_
  simp only [bne_iff_ne, ne_eq]
  rintro rfl
  exact h hc

theorem beforeFirst_cut (h : mark ∉ s) (t : List Char) : beforeFirst mark (s ++ mark :: t) = s := by
  have hs : ∀ c ∈ s, (c != mark) = true := by
    intro c hc
    simp only [bne_iff_ne, ne_eq]
    rintro rfl
    exact h hc
  rw [beforeFirst, List.takeWhile_append_of_pos hs, List.takeWhile_cons_of_neg (by simp), List.append_nil]

/-- what comes behind a `mark` has no part in what is before the first one -/
theorem beforeFirst_append (mark : Char) (s t : List Char) :
    beforeFirst mark (s ++ mark :: t) = beforeFirst mark s := by
  rcases first_or_none mark s with ⟨s, s', rfl, hs⟩ | h
  · rw [List.append_assoc, List.cons_append, beforeFirst_cut hs, beforeFirst_cut hs]
  · rw [beforeFirst_cut h, beforeFirst_whole h]

/-- cutting at the last `mark` is cutting the reversed text at the first one -/
theorem afterLast_eq (mark : Char) (text : List Char) : afterLast mark text = (beforeFirst mark text.reverse).reverse :=
  rfl

theorem afterLast_whole (h : mark ∉ text) : afterLast mark text = text := by
  rw [afterLast_eq, beforeFirst_whole (by simpa using h), List.reverse_reverse]

theorem afterLast_cut (s : List Char) (h : mark ∉ t) : afterLast mark (s ++ mark :: t) = t := by
  have hreverse : (s ++ mark :: t).reverse = t.reverse ++ mark :: s.reverse := by simp
  rw [afterLast_eq, hreverse, beforeFirst_cut (by simpa using h), List.reverse_reverse]

theorem beforeLast_none (h : mark ∉ text) : beforeLast mark text = [] := by
  have hnothing : text.reverse.dropWhile (· != mark) = [] := by
    refine List.dropWhile_eq_nil_iff.2 fun c hc => ?_
    simp only [bne_iff_ne, ne_eq]
    rintro rfl
    exact h (List.mem_reverse.1 hc)
  rw [beforeLast, hnothing]
  rfl

theorem beforeLast_cut (s : List Char) (h : mark ∉ t) : beforeLast mark (s ++ mark :: t) = s := by
  have hreverse : (s ++ mark :: t).reverse = t.reverse ++ mark :: s.reverse := by simp
  have ht : ∀ c ∈ t.reverse, (c != mark) = true := by
    intro c hc
    simp only [bne_iff_ne, ne_eq]
    rintro rfl
    exact h (List.mem_reverse.1 hc)
  rw [beforeLast, hreverse, List.dropWhile_append_of_pos ht, List.dropWhile_cons_of_neg (by simp), List.drop_one,
    List.tail_cons, List.reverse_reverse]

/-- `rest` is what follows the last `mark` of the text, or the whole text if there is none -/
def EndsIn (mark : Char) (text rest : List Char) : Prop :=
  mark ∉ rest ∧ (rest = text ∨ ∃ before, text = before ++ mark :: rest)

/-- every text ends in one way -/
theorem endsIn_iff : EndsIn mark text rest ↔ rest = afterLast mark text := by
  constructor
  · rintro ⟨hrest, rfl | ⟨before, rfl⟩⟩
    · rw [afterLast_whole hrest]
    · rw [afterLast_cut before hrest]
  · rintro rfl
    rcases last_or_none mark text with ⟨s, t, rfl, ht⟩ | h
    · rw [afterLast_cut s ht]
      exact ⟨ht, .inr ⟨s, rfl⟩⟩
    · rw [afterLast_whole h]
      exact ⟨h, .inl rfl⟩

/-- what comes before a `mark` has no part in how the text ends -/
theorem EndsIn.behind (h : EndsIn mark t rest) (s : List Char) : EndsIn mark (s ++ mark :: t) rest := by
  obtain ⟨hrest, rfl | ⟨before, rfl⟩⟩ := h
  · exact ⟨hrest, .inr ⟨s, rfl⟩⟩
  · exact ⟨hrest, .inr ⟨s ++ mark :: before, by rw [List.append_assoc, List.cons_append]⟩⟩

end Cut

/-! ## Which texts are qualified names -/

namespace QualifiedName

open Cut

variable {s t text : List Char} {mark : Char}

theorem isSeparator_slash : isSeparator '/' = true := rfl

theorem isSeparator_dot : isSeparator '.' = true := rfl

/-- a segment of a name: there is something in it, and nothing that decorates names -/
def IsSegment (segment : List Char) : Prop :=
  segment ≠ [] ∧ ∀ c ∈ segment, isIllegal c = false

/-- do the characters make a qualified name? -/
def Spells (text : List Char) : Prop :=
  ∀ segment ∈ parts isSeparator text, IsSegment segment

theorem checkSegments_iff (text : String) (segments : List (List Char)) :
    checkSegments text segments = .ok () ↔ ∀ segment ∈ segments, IsSegment segment := by
  induction segments with
  | nil => simp [checkSegments]
  | cons segment rest ih =>
    rw [List.forall_mem_cons, ← ih, checkSegments]
    split
    · next hempty =>
      refine ⟨nofun, fun h => ?_⟩
      exact absurd (List.isEmpty_iff.1 hempty) h.1.1
    · next hfull =>
      split
      · next hillegal =>
        refine ⟨nofun, fun h => ?_⟩
        obtain ⟨c, hc, hbad⟩ := List.any_eq_true.1 hillegal
        rw [h.1.2 c hc] at hbad
        cases hbad
      · next hlegal =>
        have hsegment : IsSegment segment := by
          refine ⟨fun h => hfull (List.isEmpty_iff.2 h), fun c hc => ?_⟩
          rw [Bool.not_eq_true, List.any_eq_false] at hlegal
          exact Bool.not_eq_true _ ▸ hlegal c hc
        exact ⟨fun h => ⟨hsegment, h⟩, fun h => h.2⟩

/-- names have no empty segment, so the empty text is none -/
theorem Spells.ne_nil (h : Spells text) : text ≠ [] := by
  rintro rfl
  exact (h [] List.mem_cons_self).1 rfl

theorem check_iff (text : String) : check text = .ok () ↔ Spells text.toList := by
  rw [check]
  split
  · next hempty => exact ⟨nofun, fun h => absurd (List.isEmpty_iff.1 hempty) h.ne_nil⟩
  · exact checkSegments_iff text _

/-- **A separator joins two names to one**, and cuts a name into two. -/
theorem Spells.append_iff (h : isSeparator mark = true) : Spells (s ++ mark :: t) ↔ Spells s ∧ Spells t := by
  unfold Spells
  rw [parts_append h, List.forall_mem_append]

/-- no name holds a character that decorates names -/
theorem Spells.legal (h : Spells text) : ∀ c ∈ text, isIllegal c = false := by
  intro c hc
  by_cases hmark : isSeparator c = true
  · simp only [isSeparator, Bool.or_eq_true, beq_iff_eq] at hmark
    rcases hmark with rfl | rfl <;> rfl
  · obtain ⟨segment, hsegment, hmem⟩ := exists_part hc (Bool.not_eq_true _ ▸ hmark)
    exact (h segment hsegment).2 c hmem

theorem Spells.beforeFirst (h : Spells text) (hmark : isSeparator mark = true) : Spells (beforeFirst mark text) := by
  rcases first_or_none mark text with ⟨s, t, rfl, hs⟩ | hnone
  · rw [beforeFirst_cut hs]
    exact ((append_iff hmark).1 h).1
  · rwa [beforeFirst_whole hnone]

theorem Spells.afterLast (h : Spells text) (hmark : isSeparator mark = true) : Spells (afterLast mark text) := by
  rcases last_or_none mark text with ⟨s, t, rfl, ht⟩ | hnone
  · rw [afterLast_cut s ht]
    exact ((append_iff hmark).1 h).2
  · rwa [afterLast_whole hnone]

theorem Spells.beforeLast (h : Spells text) (hmark : isSeparator mark = true) :
    beforeLast mark text = [] ∨ Spells (beforeLast mark text) := by
  rcases last_or_none mark text with ⟨s, t, rfl, ht⟩ | hnone
  · rw [beforeLast_cut s ht]
    exact .inr ((append_iff hmark).1 h).1
  · exact .inl (beforeLast_none hnone)

/-- a name is what is before its last separator of a kind, and what is behind it -/
theorem Spells.eq_join (h : Spells text) (hmark : isSeparator mark = true) :
    text = if Cut.beforeLast mark text = [] then Cut.afterLast mark text
      else Cut.beforeLast mark text ++ mark :: Cut.afterLast mark text := by
  rcases last_or_none mark text with ⟨s, t, rfl, ht⟩ | hnone
  · rw [beforeLast_cut s ht, afterLast_cut s ht, if_neg ((append_iff hmark).1 h).1.ne_nil]
  · rw [if_pos (beforeLast_none hnone), afterLast_whole hnone]

/-! ## Nested names, namespaces and simple names -/

variable {q : QualifiedName}

theorem toList_nested (q : QualifiedName) (inner : String) :
    (q.nested inner).text.toList = q.text.toList ++ '/' :: inner.toList := by
  simp [nested]

theorem toList_space (q : QualifiedName) : q.space.toList = beforeLast '.' (beforeFirst '/' q.text.toList) := by
  rw [space, String.toList_ofList]

theorem toList_simple (q : QualifiedName) : q.simple.toList =
    if '/' ∈ q.text.toList then afterLast '/' q.text.toList else afterLast '.' q.text.toList := by
  simp only [simple, String.toList_ofList, List.contains_iff_mem]

/-- a type nested in a named one is named if it has a name of its own -/
theorem check_nested (h : check q.text = .ok ()) (inner : String) :
    check (q.nested inner).text = .ok () ↔ check inner = .ok () := by
  rw [check_iff, check_iff, toList_nested, Spells.append_iff isSeparator_slash]
  exact and_iff_right ((check_iff q.text).1 h)

/-- nested types have the namespace of the enclosing one -/
theorem space_nested (q : QualifiedName) (inner : String) : (q.nested inner).space = q.space := by
  rw [← String.toList_inj, toList_space, toList_space, toList_nested, beforeFirst_append]

theorem simple_nested (q : QualifiedName) (inner : String) :
    EndsIn '/' inner.toList (q.nested inner).simple.toList := by
  have hnested : '/' ∈ (q.nested inner).text.toList := by
    rw [toList_nested]
    exact List.mem_append_right _ List.mem_cons_self
  have hends : EndsIn '/' (q.nested inner).text.toList (afterLast '/' inner.toList) := by
    rw [toList_nested]
    exact (endsIn_iff.2 rfl).behind q.text.toList
  rw [toList_simple, if_pos hnested, ← endsIn_iff.1 hends]
  exact endsIn_iff.2 rfl

/-- a type that is not nested is named by its namespace, if it has one, and its simple name -/
theorem text_eq (h : check q.text = .ok ()) (houter : '/' ∉ q.text.toList) :
    q.text = if q.space = "" then q.simple else q.space ++ "." ++ q.simple := by
  have hjoin := ((check_iff q.text).1 h).eq_join isSeparator_dot
  have hspace : q.space.toList = beforeLast '.' q.text.toList := by rw [toList_space, beforeFirst_whole houter]
  have hsimple : q.simple.toList = afterLast '.' q.text.toList := by rw [toList_simple, if_neg houter]
  rw [← hspace, ← hsimple] at hjoin
  rw [← String.toList_inj, hjoin]
  by_cases hglobal : q.space = ""
  · simp [hglobal]
  · simp [hglobal]

theorem check_simple (h : check q.text = .ok ()) : check q.simple = .ok () := by
  rw [check_iff] at h ⊢
  rw [toList_simple]
  split
  · exact h.afterLast isSeparator_slash
  · exact h.afterLast isSeparator_dot

/-- simple names may name members too -/
theorem check_simple_member (h : check q.text = .ok ()) : MemberName.check q.simple = .ok () := by
  have hspells := (check_iff q.simple).1 (check_simple h)
  have hslash : '/' ∉ q.simple.toList := by
    rw [toList_simple]
    split
    · exact (endsIn_iff.2 rfl).1
    · next houter =>
      rcases last_or_none '.' q.text.toList with ⟨s, t, heq, ht⟩ | hnone
      · rw [heq, afterLast_cut s ht]
        exact fun hmem => houter (heq ▸ List.mem_append_right s (List.mem_cons_of_mem _ hmem))
      · rwa [afterLast_whole hnone]
  have hlegal : q.simple.toList.any MemberName.isIllegal = false := by
    rw [List.any_eq_false]
    intro c hc
    have hc' := hspells.legal c hc
    simp only [isIllegal, Bool.or_eq_false_iff, beq_eq_false_iff_ne] at hc'
    simp only [MemberName.isIllegal, Bool.not_eq_true, Bool.or_eq_false_iff, beq_eq_false_iff_ne]
    exact ⟨⟨⟨fun heq => hslash (heq ▸ hc), hc'.1.1.1⟩, hc'.1.1.2⟩, hc'.1.2⟩
  rw [MemberName.check, if_neg (by simpa using hspells.ne_nil), hlegal]
  rfl

theorem check_space (h : check q.text = .ok ()) : q.space = "" ∨ check q.space = .ok () := by
  rcases (((check_iff q.text).1 h).beforeFirst isSeparator_slash).beforeLast isSeparator_dot with hnone | hspells
  · left
    rw [← String.toList_inj, toList_space, hnone]
    rfl
  · right
    rwa [check_iff, toList_space]

/-- the namespace of a named type can be skipped -/
theorem skipNamespace?_space (h : check q.text = .ok ()) (settings : Settings) : settings.skipNamespace? q.space =
    .ok { settings with skippedNamespaces := settings.skippedNamespaces ++ [q.space] } := by
  rw [Settings.skipNamespace?]
  rcases check_space h with hglobal | hnamed
  · rw [hglobal]
    rfl
  · simp only [hnamed]
    split <;> rfl

/-- **Names are closed under nesting, namespaces and simple names.** Of a text that is a name: a type nested in it is named
if and only if the inner text is a name; nested types have its namespace, and their simple name is how the inner text
ends; a name that is not nested is its namespace and its simple name; the simple name is a name, of a type and of a member;
and the namespace is empty or a name, so that it can be skipped. -/
theorem names_closed (q : QualifiedName) (h : check q.text = .ok ()) (inner : String) (settings : Settings) :
    (check (q.nested inner).text = .ok () ↔ check inner = .ok ()) ∧
      (q.nested inner).space = q.space ∧
      EndsIn '/' inner.toList (q.nested inner).simple.toList ∧
      ('/' ∉ q.text.toList → q.text = if q.space = "" then q.simple else q.space ++ "." ++ q.simple) ∧
      (check q.simple = .ok () ∧ MemberName.check q.simple = .ok ()) ∧
      (q.space = "" ∨ check q.space = .ok ()) ∧
      settings.skipNamespace? q.space =
        .ok { settings with skippedNamespaces := settings.skippedNamespaces ++ [q.space] } :=
  ⟨check_nested h inner, space_nested q inner, simple_nested q inner, text_eq h, ⟨check_simple h, check_simple_member h⟩,
    check_space h, skipNamespace?_space h settings⟩

/-- a name with a namespace and an enclosing type, and a nested one with a dot in it -/
theorem nested_names_closed :
    check "Outer.Space.Parent/Child" = .ok () ∧
      check "Outer.Space.Parent/Child/Inner.Part/Leaf.Last" = .ok () ∧
      (nested ⟨"Outer.Space.Parent/Child"⟩ "Inner.Part/Leaf.Last").space = "Outer.Space" ∧
      (nested ⟨"Outer.Space.Parent/Child"⟩ "Inner.Part/Leaf.Last").simple = "Leaf.Last" ∧
      ({} : Settings).skipNamespace? "Outer.Space" = .ok { skippedNamespaces := ["Outer.Space"] } := by
  have hq : check "Outer.Space.Parent/Child" = .ok () := by decide +kernel
  have hclosed := names_closed ⟨"Outer.Space.Parent/Child"⟩ hq "Inner.Part/Leaf.Last" {}
  refine ⟨hq, ?_, ?_, ?_, ?_⟩
  · exact hclosed.1.2 (by decide +kernel)
  · exact hclosed.2.1
  · rw [← String.toList_inj, endsIn_iff.1 hclosed.2.2.1]
    decide +kernel
  · exact hclosed.2.2.2.2.2.2

end QualifiedName

end DisposalWeaver
