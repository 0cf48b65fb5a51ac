/-
Assignability is reachability.

Which type stands for which is decided in two ways, one for classes and one for interfaces, and for type references by
what constraints lead to. Where neither bases nor listed interfaces nor constraints have cycles, interfaces have no base and
only interfaces are listed (`TypeGraph.Layered`), all of it is reachability: a type stands for whatever bases and listed
interfaces lead to (`isSubtype_iff`), and a reference for itself and for whatever a definition stands for that constraints
lead to (`isAssignable_iff`). Main statement: `isAssignable_order`.
-/
import DisposalWeaver.Proofs.BaseChains
import DisposalWeaver.Proofs.PlatformReferences

namespace DisposalWeaver

open Relation

namespace TypeGraph

variable {g : TypeGraph}

/-! ## Edges between types, and between references -/

/-- the type itself lists the interface -/
def Lists (g : TypeGraph) (t interface : TypeId) : Prop := interface ∈ (g.type t).interfaces

/-- a base or a listed interface of the type -/
def Above (g : TypeGraph) (t super : TypeId) : Prop := g.Extends t super ∨ g.Lists t super

/-- the reference is a type parameter with the given constraint -/
def ConstrainedTo (g : TypeGraph) (r constraint : TypeRef) : Prop := constraint ∈ g.constraints r

/-- no cycles of bases, of listed interfaces or of constraints; interfaces have no base, and only interfaces are listed -/
structure Layered (g : TypeGraph) : Prop where
  bases : Acyclic g.Extends
  lists : Acyclic g.Lists
  constraints : Acyclic g.ConstrainedTo
  baseless : ∀ t, g.isInterface t = true → (g.type t).base = none
  listed : ∀ t u, g.Lists t u → g.isInterface u = true

theorem Lists.declared {t interface : TypeId} (h : g.Lists t interface) : t.index < g.types.size := by
  by_contra hle
  rw [Lists, type_of_size_le (Nat.le_of_not_lt hle)] at h
  cases h

/-! ## Types -/

/-- the bound of the walk through listed interfaces never shows -/
theorem implements_iff (hlists : Acyclic g.Lists) {t interface : TypeId} :
    g.implements t interface = true ↔ ReflTransGen g.Lists t interface := by
  obtain ⟨height, hbound, hfall⟩ := exists_typeHeight hlists fun _ _ h => h.declared
  have hwithin : ∀ bound t, height t ≤ bound →
      (g.implementsWithin interface bound t = true ↔ ReflTransGen g.Lists t interface) := by
    intro bound
    induction bound with
    | zero =>
      intro t ht
      have hnone : ∀ u, ¬ g.Lists t u := fun u hu => by
        have := hfall t u hu
        omega
      rw [implementsWithin, beq_iff_eq, ReflTransGen.cases_head_iff]
      simp [hnone]
    | succ bound ih =>
      intro t ht
      rw [implementsWithin, Bool.or_eq_true, beq_iff_eq, List.any_eq_true, ReflTransGen.cases_head_iff]
      refine or_congr_right (exists_congr fun u => and_congr_right fun hu => ih u ?_)
      have := hfall t u hu
      omega
  exact hwithin _ t (hbound t)

namespace Layered

variable (hg : g.Layered)

include hg

/-- what has a base is no interface -/
theorem class_of_extends {t base : TypeId} (h : g.Extends t base) : g.isInterface t = false := by
  by_contra hi
  rw [Extends, hg.baseless t (by simpa using hi)] at h
  cases h

/-- from an interface only listed interfaces lead on -/
theorem lists_of_above {t u : TypeId} (ht : g.isInterface t = true) (h : g.Above t u) : g.Lists t u := by
  rcases h with h | h
  · rw [hg.class_of_extends h] at ht
    cases ht
  · exact h

/-- to a class only bases lead -/
theorem extends_of_above {t u : TypeId} (hu : g.isInterface u = false) (h : g.Above t u) : g.Extends t u := by
  rcases h with h | h
  · exact h
  · rw [hg.listed t u h] at hu
    cases hu

theorem interface_of_above {t u : TypeId} (ht : g.isInterface t = true) (h : g.Above t u) : g.isInterface u = true :=
  hg.listed t u (hg.lists_of_above ht h)

/-- what leads to a class are bases, step by step -/
theorem extends_of_reaches {t u : TypeId} (hu : g.isInterface u = false) (h : ReflTransGen g.Above t u) :
    ReflTransGen g.Extends t u := by
  induction h with
  | refl => exact .refl
  | tail _ hstep ih =>
    have hbase := hg.extends_of_above hu hstep
    exact (ih (hg.class_of_extends hbase)).tail hbase

/-- what leads to an interface are bases, and then listed interfaces -/
theorem lists_of_reaches {t u : TypeId} (h : ReflTransGen g.Above t u) :
    ∃ step, ReflTransGen g.Extends t step ∧ ReflTransGen g.Lists step u := by
  induction h using ReflTransGen.head_induction_on with
  | refl => exact ⟨u, .refl, .refl⟩
  | @head t middle habove _ ih =>
    obtain ⟨step, hbases, hlists⟩ := ih
    rcases habove with hbase | hlisted
    · exact ⟨step, hbases.head hbase, hlists⟩
    · -- an interface has no base, so the way from there has no bases in it
      have hstep : middle = step := by
        rcases ReflTransGen.cases_head hbases with hsame | ⟨base, hbase, -⟩
        · exact hsame
        · rw [Extends, hg.baseless middle (hg.listed t middle hlisted)] at hbase
          cases hbase
      exact ⟨t, .refl, hlists.head (hstep ▸ hlisted)⟩

/-- no type is above itself -/
theorem acyclic_above : Acyclic g.Above := by
  intro t ht
  by_cases hi : g.isInterface t = true
  · have hall : ∀ u, TransGen g.Above t u → TransGen g.Lists t u ∧ g.isInterface u = true := by
      intro u hu
      induction hu with
      | single h => exact ⟨.single (hg.lists_of_above hi h), hg.interface_of_above hi h⟩
      | tail _ h ih => exact ⟨ih.1.tail (hg.lists_of_above ih.2 h), hg.interface_of_above ih.2 h⟩
    exact hg.lists t (hall t ht).1
  · obtain ⟨u, hreach, hlast⟩ := TransGen.tail'_iff.1 ht
    have hbase := hg.extends_of_above (by simpa using hi) hlast
    exact hg.bases t (.tail' (hg.extends_of_reaches (hg.class_of_extends hbase) hreach) hbase)

/-- **A type stands for what is reached from it**, along bases and listed interfaces. -/
theorem isSubtype_iff {t super : TypeId} : g.isSubtype t super = true ↔ ReflTransGen g.Above t super := by
  unfold isSubtype
  split
  · next hi =>
    simp only [List.any_eq_true, mem_baseChain_iff hg.bases, implements_iff hg.lists]
    refine ⟨fun ⟨step, hbases, hlists⟩ => ?_, hg.lists_of_reaches⟩
    exact (ReflTransGen.mono (fun _ _ => .inl) _ _ hbases).trans (ReflTransGen.mono (fun _ _ => .inr) _ _ hlists)
  · next hi =>
    have hclass : g.isInterface super = false := by simpa using hi
    simp only [List.any_eq_true, mem_baseChain_iff hg.bases, beq_iff_eq, exists_eq_right]
    exact ⟨ReflTransGen.mono (fun _ _ => .inl) _ _, hg.extends_of_reaches hclass⟩

end Layered

/-! ## References -/

/-- all type parameters that are declared -/
def parameterRefs (g : TypeGraph) : List TypeRef :=
  (List.range g.types.size).flatMap fun t =>
    (List.range (g.type ⟨t⟩).generics.length).map fun index => .typeParameter ⟨t⟩ (UInt16.ofNat index)

theorem length_parameterRefs (g : TypeGraph) : g.parameterRefs.length = g.parameterCount := by
  have htypes : g.types.toList = (List.range g.types.size).map fun t => g.type ⟨t⟩ := by
    apply List.ext_getElem
    · simp
    · intro k hk _
      have hk : k < g.types.size := by simpa using hk
      simp [type, Array.getD_eq_getD_getElem?, hk]
  simp only [parameterRefs, parameterCount, htypes, List.length_flatMap, List.map_map]
  congr 1
  simp [Function.comp_def]

theorem ConstrainedTo.mem_parameterRefs {r constraint : TypeRef} (h : g.ConstrainedTo r constraint) :
    r ∈ g.parameterRefs := by
  cases r with
  | typeParameter owner index =>
    simp only [ConstrainedTo, constraints] at h
    cases hp : g.genericParameter? owner index with
    | none => simp [hp] at h
    | some parameter =>
      have hindex : index.toNat < (g.type owner).generics.length := (List.getElem?_eq_some_iff.1 hp).1
      have howner : owner.index < g.types.size := by
        by_contra hle
        rw [type_of_size_le (Nat.le_of_not_lt hle)] at hindex
        cases hindex
      refine List.mem_flatMap.2 ⟨owner.index, List.mem_range.2 howner, List.mem_map.2 ⟨index.toNat, ?_, ?_⟩⟩
      · exact List.mem_range.2 hindex
      · rw [UInt16.ofNat_toNat]
  | _ => cases h

/-- a definition has no constraints -/
theorem eq_of_constrained {r c : TypeRef} {t : TypeId} (hr : r.definition? = some t)
    (h : ReflTransGen g.ConstrainedTo r c) : c = r := by
  rcases ReflTransGen.cases_head h with hsame | ⟨d, hd, -⟩
  · exact hsame.symm
  · cases r with
    | named | applied => cases hd
    | _ => cases hr

/-- constraints of the reference lead to a definition that stands for the given type -/
def Upholds (g : TypeGraph) (r : TypeRef) (target : TypeId) : Prop :=
  ∃ c d, ReflTransGen g.ConstrainedTo r c ∧ c.definition? = some d ∧ g.isSubtype d target = true

/-- a definition upholds what it stands for -/
theorem upholds_of_definition {r : TypeRef} {d target : TypeId} (hr : r.definition? = some d) :
    g.Upholds r target ↔ g.isSubtype d target = true := by
  refine ⟨fun ⟨c, d', hc, hd', h⟩ => ?_, fun h => ⟨r, d, .refl, hr, h⟩⟩
  rw [eq_of_constrained hr hc, hr] at hd'
  exact Option.some.inj hd' ▸ h

/-- a reference that is no definition upholds what one of its constraints does -/
theorem upholds_of_constraint {r : TypeRef} {target : TypeId} (hr : r.definition? = none) :
    g.Upholds r target ↔ ∃ c ∈ g.constraints r, g.Upholds c target := by
  constructor
  · rintro ⟨c, d, hc, hd, h⟩
    rcases ReflTransGen.cases_head hc with rfl | ⟨first, hfirst, hrest⟩
    · rw [hr] at hd
      cases hd
    · exact ⟨first, hfirst, c, d, hrest, hd, h⟩
  · rintro ⟨first, hfirst, c, d, hrest, hd, h⟩
    exact ⟨c, d, hrest.head hfirst, hd, h⟩

namespace Layered

variable (hg : g.Layered)

include hg

theorem isSubtype_refl (t : TypeId) : g.isSubtype t t = true := hg.isSubtype_iff.2 .refl

theorem isSubtype_trans {s t u : TypeId} (h : g.isSubtype s t = true) (h' : g.isSubtype t u = true) :
    g.isSubtype s u = true :=
  hg.isSubtype_iff.2 ((hg.isSubtype_iff.1 h).trans (hg.isSubtype_iff.1 h'))

theorem isSubtype_antisymm {s t : TypeId} (h : g.isSubtype s t = true) (h' : g.isSubtype t s = true) : s = t := by
  rcases reflTransGen_iff_eq_or_transGen.1 (hg.isSubtype_iff.1 h) with hsame | hup
  · exact hsame.symm
  · exact absurd (hup.trans_left (hg.isSubtype_iff.1 h')) (hg.acyclic_above s)

/-- of a definition it makes no difference that a reference always stands for itself -/
theorem upholds_iff {r super : TypeRef} {target : TypeId} (hsuper : super.definition? = some target) :
    (r = super ∨ ∃ t, super.definition? = some t ∧ g.Upholds r t) ↔ g.Upholds r target := by
  simp only [hsuper, Option.some.injEq, exists_eq_left', or_iff_right_iff_imp]
  rintro rfl
  exact (upholds_of_definition hsuper).2 (hg.isSubtype_refl target)

/-- **A reference stands for itself**, and for the definitions that constraints lead to. -/
theorem isAssignable_iff {r super : TypeRef} : g.isAssignable r super = true ↔
    r = super ∨ ∃ target, super.definition? = some target ∧ g.Upholds r target := by
  obtain ⟨height, hbound, hfall⟩ := exists_height hg.constraints g.parameterRefs.toFinset fun r c h =>
    List.mem_toFinset.2 h.mem_parameterRefs
  have hwithin : ∀ bound r, height r < bound → (g.isAssignableWithin super bound r = true ↔
      r = super ∨ ∃ target, super.definition? = some target ∧ g.Upholds r target) := by
    intro bound
    induction bound with
    | zero => exact fun _ h => absurd h (Nat.not_lt_zero _)
    | succ bound ih =>
      intro r hr
      rw [isAssignableWithin, Bool.or_eq_true, beq_iff_eq]
      refine or_congr_right ?_
      cases hsuper : super.definition? with
      | none => simp
      | some target =>
        simp only [Option.some.injEq, exists_eq_left']
        cases r with
        | named d | applied d _ => exact (upholds_of_definition rfl).symm
        | typeParameter owner index =>
          rw [List.any_eq_true, upholds_of_constraint rfl]
          refine exists_congr fun c => and_congr_right fun hc => ?_
          have hlt := hfall _ c hc
          rw [ih c (by omega), hg.upholds_iff hsuper]
        | _ => rw [upholds_of_constraint rfl]; simp [TypeGraph.constraints]
  refine hwithin _ r (Nat.lt_succ_of_le ((hbound r).trans ?_))
  exact g.length_parameterRefs ▸ List.toFinset_card_le _

theorem isAssignable_trans {r s u : TypeRef} (h : g.isAssignable r s = true) (h' : g.isAssignable s u = true) :
    g.isAssignable r u = true := by
  rcases hg.isAssignable_iff.1 h with rfl | ⟨t, ht, c, d, hc, hd, hdt⟩
  · exact h'
  rcases hg.isAssignable_iff.1 h' with rfl | ⟨target, htarget, hupholds⟩
  · exact h
  have hup := (upholds_of_definition ht).1 hupholds
  exact hg.isAssignable_iff.2 (.inr ⟨target, htarget, c, d, hc, hd, hg.isSubtype_trans hdt hup⟩)

end Layered

/-- **Assignability is reachability.** Of types it is an order, and of references it is reflexive and transitive. -/
theorem isAssignable_order (g : TypeGraph) (hg : g.Layered) :
    (∀ s t, g.isSubtype s t = true ↔ ReflTransGen g.Above s t) ∧
    (∀ t, g.isSubtype t t = true) ∧
    (∀ s t u, g.isSubtype s t = true → g.isSubtype t u = true → g.isSubtype s u = true) ∧
    (∀ s t, g.isSubtype s t = true → g.isSubtype t s = true → s = t) ∧
    (∀ r super, g.isAssignable r super = true ↔
      r = super ∨ ∃ target, super.definition? = some target ∧ g.Upholds r target) ∧
    (∀ r, g.isAssignable r r = true) ∧
    (∀ r s u, g.isAssignable r s = true → g.isAssignable s u = true → g.isAssignable r u = true) ∧
    ∀ owner index super target, super.definition? = some target →
      (g.isAssignable (.typeParameter owner index) super = true ↔
        ∃ c ∈ g.constraints (.typeParameter owner index), g.isAssignable c super = true) := by
  refine ⟨fun s t => hg.isSubtype_iff, hg.isSubtype_refl, fun s t u => hg.isSubtype_trans,
    fun s t => hg.isSubtype_antisymm, fun r super => hg.isAssignable_iff, fun r => hg.isAssignable_iff.2 (.inl rfl),
    fun r s u => hg.isAssignable_trans, ?_⟩
  intro owner index super target hsuper
  simp only [hg.isAssignable_iff, hg.upholds_iff hsuper]
  exact upholds_of_constraint rfl

/-! ## Graphs that are declared in order -/

/-- place of a type parameter in the order of declarations; other references come before all of them -/
def parameterPlace : TypeRef → ℕ
  | .typeParameter owner index => owner.index * UInt16.size + index.toNat + 1
  | _ => 0

/-- where types and parameters only name what was declared before them, nothing has a cycle -/
theorem layered_of_backward
    (hbases : ∀ i < g.types.size, ∀ base ∈ (g.type ⟨i⟩).base, base.index < i ∧ g.isInterface ⟨i⟩ = false)
    (hlists : ∀ i < g.types.size, ∀ u ∈ (g.type ⟨i⟩).interfaces, u.index < i ∧ g.isInterface u = true)
    (hconstraints : ∀ r ∈ g.parameterRefs, ∀ c ∈ g.constraints r, parameterPlace c < parameterPlace r) : g.Layered where
  bases := acyclic_of_height TypeId.index fun _ _ h => (hbases _ h.declared _ h).1
  lists := acyclic_of_height TypeId.index fun _ _ h => (hlists _ h.declared _ h).1
  constraints := acyclic_of_height parameterPlace fun _ _ h => hconstraints _ h.mem_parameterRefs _ h
  baseless t ht := by
    by_contra hbase
    obtain ⟨base, hbase⟩ := Option.ne_none_iff_exists'.1 hbase
    rw [(hbases _ (Extends.declared hbase) base hbase).2] at ht
    cases ht
  listed _ _ h := (hlists _ h.declared _ h).2

end TypeGraph

namespace Keeper

open TypeGraph

/-- a generic type whose second parameter is constrained to the first, and that one to streams -/
def keeper : TypeId := ⟨21⟩

def graph : TypeGraph :=
  (Platform.alone.2.addType { TypeDecl.ofClass ⟨"Keeper"⟩ Platform.alone.1.object TypeFlags.public_ with
    generics := [
      { name := ⟨"T"⟩, constraints := [.named Platform.alone.1.stream] },
      { name := ⟨"U"⟩, constraints := [.typeParameter keeper 0] }] }).2

theorem layered : graph.Layered :=
  layered_of_backward (by decide +kernel) (by decide +kernel) (by decide +kernel)

/-- the second parameter can be disposed of, by way of the first and of streams; streams stay out of reach of the root -/
theorem parameter_disposable :
    graph.isAssignable (.typeParameter keeper 1) (.named Platform.alone.1.disposable) = true ∧
      ¬ ReflTransGen graph.Above Platform.alone.1.object Platform.alone.1.stream := by
  obtain ⟨hreach, -, -, -, -, hrefl, htrans, hparameter⟩ := isAssignable_order graph layered
  have hfirst : graph.isAssignable (.typeParameter keeper 0) (.named Platform.alone.1.stream) = true :=
    (hparameter _ _ _ _ rfl).2 ⟨.named Platform.alone.1.stream, by decide +kernel, hrefl _⟩
  have hsecond : graph.isAssignable (.typeParameter keeper 1) (.named Platform.alone.1.stream) = true :=
    (hparameter _ _ _ _ rfl).2 ⟨.typeParameter keeper 0, by decide +kernel, hfirst⟩
  refine ⟨htrans _ _ _ hsecond (by decide +kernel), fun h => ?_⟩
  have hnot : graph.isSubtype Platform.alone.1.object Platform.alone.1.stream = false := by decide +kernel
  rw [(hreach _ _).2 h] at hnot
  cases hnot

end Keeper

end DisposalWeaver
