/-
Chains of bases.

A type extends its base. Where no type is among its own bases, every type has a height, which is no greater than the number
of declarations and falls from a type to its base (`exists_height`). So the bound of the walk along the bases never shows:
the chain of a type is the type and the chain of its base (`baseChain_eq`), and it has on it whatever bases lead to
(`mem_baseChain_iff`).
-/
import Mathlib.Data.Finset.Card
import Mathlib.Data.Finset.Image
import Mathlib.Logic.Relation
import DisposalWeaver.TypeGraph.Subtyping

namespace DisposalWeaver

open Relation

/-! ## Relations without cycles -/

/-- no walk along the relation comes back to where it began -/
def Acyclic {α : Type} (R : α → α → Prop) : Prop := ∀ a, ¬ TransGen R a a

/-- a relation that a height falls along has no cycles -/
theorem acyclic_of_height {α : Type} {R : α → α → Prop} (height : α → ℕ) (h : ∀ a b, R a b → height b < height a) :
    Acyclic R := by
  have hfall : ∀ a b, TransGen R a b → height b < height a := by
    intro a b hab
    induction hab with
    | single hab => exact h _ _ hab
    | tail _ hbc ih => exact Nat.lt_trans (h _ _ hbc) ih
  exact fun a haa => Nat.lt_irrefl _ (hfall a a haa)

/-- where finitely many places lead on and no walk comes back, the number of places ahead falls with each step -/
theorem exists_height {α : Type} {R : α → α → Prop} (hacyclic : Acyclic R) (places : Finset α)
    (hsource : ∀ a b, R a b → a ∈ places) :
    ∃ height : α → ℕ, (∀ a, height a ≤ places.card) ∧ ∀ a b, R a b → height b < height a := by
  classical
  refine ⟨fun a => (places.filter (ReflTransGen R a)).card, fun a => Finset.card_filter_le _ _, fun a b hab => ?_⟩
  refine Finset.card_lt_card ((Finset.ssubset_iff_of_subset fun c hc => ?_).2 ⟨a, ?_, ?_⟩)
  · rw [Finset.mem_filter] at hc ⊢
    exact ⟨hc.1, .head hab hc.2⟩
  · exact Finset.mem_filter.2 ⟨hsource a b hab, .refl⟩
  · exact fun hba => hacyclic a (.head' hab (Finset.mem_filter.1 hba).2)

namespace TypeGraph

variable {g : TypeGraph}

/-- a place without a declaration reads as one that has no base and lists nothing -/
theorem type_of_size_le {t : TypeId} (h : g.types.size ≤ t.index) : g.type t = default := by
  simp [type, Array.getD_eq_getD_getElem?, Array.getElem?_eq_none h]

/-- heights of types, along a relation that only leads on from declared types -/
theorem exists_typeHeight {R : TypeId → TypeId → Prop} (hacyclic : Acyclic R)
    (hdeclared : ∀ t u, R t u → t.index < g.types.size) :
    ∃ height : TypeId → ℕ, (∀ t, height t ≤ g.types.size) ∧ ∀ t u, R t u → height u < height t := by
  obtain ⟨height, hbound, hfall⟩ := exists_height hacyclic ((Finset.range g.types.size).image TypeId.mk) fun t u h =>
    Finset.mem_image.2 ⟨t.index, Finset.mem_range.2 (hdeclared t u h), rfl⟩
  refine ⟨height, fun t => (hbound t).trans ?_, hfall⟩
  exact Finset.card_image_le.trans (Nat.le_of_eq (Finset.card_range _))

/-! ## Bases -/

/-- the type has the given base -/
def Extends (g : TypeGraph) (t base : TypeId) : Prop := (g.type t).base = some base

theorem Extends.declared {t base : TypeId} (h : g.Extends t base) : t.index < g.types.size := by
  by_contra hle
  rw [Extends, type_of_size_le (Nat.le_of_not_lt hle)] at h
  cases h

/-- a type has at most one base -/
theorem Extends.unique {t base base' : TypeId} (h : g.Extends t base) (h' : g.Extends t base') : base = base' :=
  Option.some.inj (h.symm.trans h')

section

variable (hbases : Acyclic g.Extends)

include hbases

/-- what holds of a type if it holds of its base holds of every type -/
theorem base_induction {P : TypeId → Prop} (h : ∀ t, (∀ base, g.Extends t base → P base) → P t) (t : TypeId) : P t := by
  obtain ⟨height, -, hfall⟩ := exists_typeHeight hbases fun _ _ h => h.declared
  induction hheight : height t using Nat.strongRecOn generalizing t with
  | ind n ih => exact h t fun base hbase => ih (height base) (hheight ▸ hfall t base hbase) base rfl

/-- the chain of a type is the type and the chain of its base -/
theorem baseChain_eq (t : TypeId) : g.baseChain t = t :: match (g.type t).base with
    | some base => g.baseChain base
    | none => [] := by
  obtain ⟨height, hbound, hfall⟩ := exists_typeHeight hbases fun _ _ h => h.declared
  have henough : ∀ bound bound' t, height t < bound → height t < bound' →
      g.chainWithin bound t = g.chainWithin bound' t := by
    intro bound
    induction bound with
    | zero => exact fun _ _ h _ => absurd h (Nat.not_lt_zero _)
    | succ bound ih =>
      intro bound' t h h'
      obtain ⟨bound', rfl⟩ : ∃ k, bound' = k + 1 := ⟨bound' - 1, by omega⟩
      unfold chainWithin
      cases hbase : (g.type t).base with
      | none => rfl
      | some base =>
        have hlt := hfall t base hbase
        exact congrArg (t :: ·) (ih bound' base (by omega) (by omega))
  conv_lhs => unfold baseChain chainWithin
  cases hbase : (g.type t).base with
  | none => rfl
  | some base =>
    have hlt := hfall t base hbase
    have ht := hbound t
    exact congrArg (t :: ·) (henough _ _ base (by omega) (by omega))

/-- the chain has on it whatever bases lead to -/
theorem mem_baseChain_iff {t u : TypeId} : u ∈ g.baseChain t ↔ ReflTransGen g.Extends t u := by
  induction t using base_induction hbases with
  | h t ih =>
    rw [baseChain_eq hbases, List.mem_cons, ReflTransGen.cases_head_iff, eq_comm]
    cases hbase : (g.type t).base with
    | none => simp [Extends, hbase]
    | some base => simp [Extends, hbase, ih base hbase]

end

end TypeGraph

end DisposalWeaver
