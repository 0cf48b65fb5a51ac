/-
Virtual dispatch finds the nearest answer.

A virtual call is answered by the first method that can answer it on the nearest type that has one, on the way from the
receiver's type along its bases up to where the called method is declared; if there is none, by the called method itself
(`implementation_cases`). What answers is declared where it is listed (`ListsOwn`), so a call of it is answered by itself,
and a type that adds nothing to the way answers as its base does (`implementation_base`). Main statement:
`implementation_nearest`.
-/
import DisposalWeaver.Machine.Dispatch
import DisposalWeaver.Proofs.BaseChains
import DisposalWeaver.Proofs.PlatformReferences

namespace DisposalWeaver

open Relation

namespace TypeGraph

variable {g g' : TypeGraph}

/-! ## Methods are listed where they are declared -/

/-- every method that a type lists is declared on that type -/
def ListsOwn (g : TypeGraph) : Prop :=
  ∀ t, ∀ m ∈ (g.type t).methods, (g.method m).declaring = t

theorem empty_listsOwn : empty.ListsOwn := fun t m hm => by
  rw [type_of_size_le (Nat.zero_le _)] at hm
  cases hm

theorem empty_listsDeclared : empty.ListsDeclared := fun t m hm => by
  rw [type_of_size_le (Nat.zero_le _)] at hm
  cases hm

theorem GrownFrom.listsOwn (h : GrownFrom g g') (hdeclared : g.ListsDeclared) (hg : g.ListsOwn) : g'.ListsOwn := by
  induction h with
  | refl => exact hg
  | type _ decl hmethods _ ih =>
    intro t m hm
    rw [type_addType] at hm
    split at hm
    · rw [hmethods] at hm
      cases hm
    · exact ih t m hm
  | @interface g' _ t' interface ih =>
    intro t m hm
    rw [(members_addInterface g' t' interface t).1] at hm
    exact ih t m hm
  | @method g' hgrown decl ih =>
    intro t m hm
    rw [type_addMethod] at hm
    rcases List.mem_append.1 hm with hm | hm
    · rw [method_addMethod g' decl m (hgrown.listsDeclared hdeclared t m hm)]
      exact ih t m hm
    · split at hm
      · next hc =>
        rw [List.mem_singleton.1 hm, method_addMethod_new]
        exact hc.1
      · cases hm
  | @field g' _ decl ih =>
    intro t m hm
    rw [type_addField] at hm
    exact ih t m (by simpa [TypeDecl.withMembers] using hm)

/-! ## What can answer -/

/-- can the method answer a virtual call of `m`? It has the name of `m`, or the name that an explicit implementation of a
method of an interface has. -/
def CanAnswer (g : TypeGraph) (m c : MethodId) : Prop :=
  (g.method c).isStatic = false ∧ (g.method c).isVirtual = true ∧
    (g.method c).argumentCount = (g.method m).argumentCount ∧
    ((g.method c).name = (g.method m).name ∨ g.isInterface (g.method m).declaring = true ∧
      (g.method c).name.text = (g.type (g.method m).declaring).name.text ++ "." ++ (g.method m).name.text)

/-- the type declares a method that can answer a virtual call of `m` -/
def HasAnswer (g : TypeGraph) (m : MethodId) (t : TypeId) : Prop :=
  ∃ c ∈ (g.type t).methods, g.CanAnswer m c

/-- the type is met on the way from `r` along its bases, and the declaring type of `m` is not met so far -/
def InFront (g : TypeGraph) (r : TypeId) (m : MethodId) (t : TypeId) : Prop :=
  ReflTransGen g.Extends r t ∧
    ¬ (ReflTransGen g.Extends r (g.method m).declaring ∧ ReflTransGen g.Extends (g.method m).declaring t)

/-- the first method that can answer on the nearest type that has one, in front of the declaring type of `m` -/
def NearestAnswer (g : TypeGraph) (r : TypeId) (m c : MethodId) : Prop :=
  ∃ t before after, g.InFront r m t ∧ (g.type t).methods = before ++ c :: after ∧ g.CanAnswer m c ∧
    (∀ other ∈ before, ¬ g.CanAnswer m other) ∧
    ∀ u, ReflTransGen g.Extends r u → TransGen g.Extends u t → ¬ g.HasAnswer m u

theorem answers_iff {m c : MethodId} :
    answers (g.method m) (g.explicitName? (g.method m)) (g.method c) = true ↔ g.CanAnswer m c := by
  have hexplicit : ∀ name : MemberName, g.explicitName? (g.method m) = some name.text ↔
      g.isInterface (g.method m).declaring = true ∧
        name.text = (g.type (g.method m).declaring).name.text ++ "." ++ (g.method m).name.text := by
    intro name
    unfold explicitName?
    split
    · next hi => simp [hi, eq_comm, toString, String.append_assoc]
    · next hi => simp [hi]
  simp only [answers, Bool.and_eq_true, Bool.or_eq_true, Bool.not_eq_true', beq_iff_eq, hexplicit, CanAnswer, and_assoc]

theorem answerOn?_eq_none {m : MethodId} {t : TypeId} :
    g.answerOn? (g.method m) (g.explicitName? (g.method m)) t = none ↔ ¬ g.HasAnswer m t := by
  simp only [answerOn?, List.find?_eq_none, answers_iff, HasAnswer, not_exists, not_and]

theorem answerOn?_eq_some {m c : MethodId} {t : TypeId} :
    g.answerOn? (g.method m) (g.explicitName? (g.method m)) t = some c ↔ g.CanAnswer m c ∧ ∃ before after,
      (g.type t).methods = before ++ c :: after ∧ ∀ other ∈ before, ¬ g.CanAnswer m other := by
  simp only [answerOn?, List.find?_eq_some_iff_append, answers_iff, Bool.not_eq_true', ← Bool.not_eq_true]

/-- the nearest answer is not the method itself, which is declared further on -/
theorem NearestAnswer.ne {m c : MethodId} {r : TypeId} (hown : g.ListsOwn) (h : g.NearestAnswer r m c) : c ≠ m := by
  rintro rfl
  obtain ⟨t, before, after, hfront, hmethods, -⟩ := h
  have ht := hown t c (by simp [hmethods])
  exact hfront.2 ⟨ht ▸ hfront.1, ht ▸ .refl⟩

/-! ## The way along the bases -/

section

variable (hbases : Acyclic g.Extends)

include hbases

/-- one step of the search: the receiver's own type, and then its base -/
theorem implementation_step {m : MethodId} (hm : (g.method m).isVirtual = true) (r : TypeId) :
    g.implementation r m =
      if r = (g.method m).declaring then m
      else match g.answerOn? (g.method m) (g.explicitName? (g.method m)) r with
        | some found => found
        | none =>
          match (g.type r).base with
          | some base => g.implementation base m
          | none => m := by
  simp only [implementation, hm, ↓reduceIte]
  conv_lhs => rw [baseChain_eq hbases r, answerAlong]
  cases (g.type r).base <;> rfl

/-- a type that neither declares the method nor an answer leaves the call to its base -/
theorem implementation_base {m : MethodId} (hm : (g.method m).isVirtual = true) {r base : TypeId}
    (hbase : g.Extends r base) (hr : r ≠ (g.method m).declaring) (hnone : ¬ g.HasAnswer m r) :
    g.implementation r m = g.implementation base m := by
  rw [implementation_step hbases hm r, if_neg hr, answerOn?_eq_none.2 hnone, show (g.type r).base = some base from hbase]

theorem no_way_back {r t : TypeId} (h : TransGen g.Extends r t) : ¬ ReflTransGen g.Extends t r :=
  fun h' => hbases r (h.trans_left h')

/-- **What answers a virtual call**: the nearest answer, or the method itself if there is none in front of it -/
theorem implementation_cases {m : MethodId} (hm : (g.method m).isVirtual = true) (r : TypeId) :
    g.NearestAnswer r m (g.implementation r m) ∨
      g.implementation r m = m ∧ ∀ t, g.InFront r m t → ¬ g.HasAnswer m t := by
  induction r using base_induction hbases with
  | h r ih =>
    rw [implementation_step hbases hm r]
    by_cases hr : r = (g.method m).declaring
    · -- nothing is in front of the declaring type if the way begins there
      exact .inr ⟨if_pos hr, fun t ht => absurd ⟨hr ▸ .refl, hr ▸ ht.1⟩ ht.2⟩
    rw [if_neg hr]
    cases hanswer : g.answerOn? (g.method m) (g.explicitName? (g.method m)) r with
    | some c =>
      obtain ⟨hc, before, after, hmethods, hbefore⟩ := answerOn?_eq_some.1 hanswer
      refine .inl ⟨r, before, after, ⟨.refl, fun hback => ?_⟩, hmethods, hc, hbefore, fun u hu hur => ?_⟩
      · rcases reflTransGen_iff_eq_or_transGen.1 hback.1 with hsame | hup
        · exact hr hsame.symm
        · exact no_way_back hbases hup hback.2
      · exact absurd hu (no_way_back hbases hur)
    | none =>
      have hnone := answerOn?_eq_none.1 hanswer
      cases hbase : (g.type r).base with
      | none =>
        refine .inr ⟨rfl, fun t ht => ?_⟩
        rcases ReflTransGen.cases_head ht.1 with rfl | ⟨base, hstep, -⟩
        · exact hnone
        · rw [Extends, hbase] at hstep
          cases hstep
      | some base =>
        have hextends : g.Extends r base := hbase
        -- past the receiver's own type, the way goes on from the base
        have hahead : ∀ u, ReflTransGen g.Extends r u → u = r ∨ ReflTransGen g.Extends base u := by
          intro u hu
          rcases ReflTransGen.cases_head hu with rfl | ⟨b, hb, hbu⟩
          · exact .inl rfl
          · exact .inr (hextends.unique hb ▸ hbu)
        rcases ih base hextends with ⟨t, before, after, hfront, hmethods, hc, hbefore, hnearer⟩ | ⟨hself, hnothing⟩
        · refine .inl ⟨t, before, after, ⟨.head hextends hfront.1, fun hback => ?_⟩, hmethods, hc, hbefore, ?_⟩
          · exact hfront.2 ⟨(hahead _ hback.1).resolve_left fun h => hr h.symm, hback.2⟩
          · intro u hu hut
            rcases hahead u hu with rfl | hu
            · exact hnone
            · exact hnearer u hu hut
        · refine .inr ⟨hself, fun t ht => ?_⟩
          rcases hahead t ht.1 with rfl | hbt
          · exact hnone
          · exact hnothing t ⟨hbt, fun hback => ht.2 ⟨.head hextends hback.1, hback.2⟩⟩

/-- types that neither declare the method nor an answer leave the call to the type that they derive from -/
theorem implementation_derived {m : MethodId} (hm : (g.method m).isVirtual = true) {r' r : TypeId}
    (hderives : ReflTransGen g.Extends r' r) (hnone : ∀ t, ReflTransGen g.Extends r' t → TransGen g.Extends t r →
      t ≠ (g.method m).declaring ∧ ¬ g.HasAnswer m t) : g.implementation r' m = g.implementation r m := by
  induction hderives using ReflTransGen.head_induction_on with
  | refl => rfl
  | @head r' base hbase hderives ih =>
    obtain ⟨hdeclaring, hanswer⟩ := hnone r' .refl (.head' hbase hderives)
    rw [implementation_base hbases hm hbase hdeclaring hanswer]
    exact ih fun t ht htr => hnone t (.head hbase ht) htr

/-- a call of the nearest answer is answered by itself -/
theorem NearestAnswer.stable {m c : MethodId} {r : TypeId} (hown : g.ListsOwn)
    (hclass : ∀ t base, g.Extends t base → g.isInterface base = false) (h : g.NearestAnswer r m c) :
    g.implementation r c = c := by
  obtain ⟨t, before, after, hfront, hmethods, hc, -, hnearer⟩ := h
  have ht : (g.method c).declaring = t := hown t c (by simp [hmethods])
  rcases implementation_cases hbases hc.2.1 r with ⟨t', before', after', hfront', hmethods', hc', -⟩ | ⟨hself, -⟩
  · -- an answer to the answer would be nearer, and an answer to the call itself
    have hup : TransGen g.Extends t' t := by
      have hnot : ¬ ReflTransGen g.Extends t t' := fun h => hfront'.2 ⟨ht ▸ hfront.1, ht ▸ h⟩
      rcases ReflTransGen.total_of_right_unique (fun _ _ _ h h' => h.unique h') hfront.1 hfront'.1 with hto | hfro
      · exact absurd hto hnot
      · rcases reflTransGen_iff_eq_or_transGen.1 hfro with rfl | hup
        · exact absurd .refl hnot
        · exact hup
    have hinterface : g.isInterface (g.method c).declaring = false := by
      obtain ⟨last, -, hlast⟩ := TransGen.tail'_iff.1 hup
      exact ht ▸ hclass last t hlast
    have hname : (g.method (g.implementation r c)).name = (g.method c).name := by
      rcases hc'.2.2.2 with hname | ⟨hi, -⟩
      · exact hname
      · rw [hinterface] at hi
        cases hi
    refine absurd ⟨g.implementation r c, by simp [hmethods'], hc'.1, hc'.2.1, hc'.2.2.1.trans hc.2.2.1, ?_⟩
      (hnearer t' hfront'.1 hup)
    rw [hname]
    exact hc.2.2.2
  · exact hself

end

/-- **Virtual dispatch finds the nearest answer, and keeps to it.** A call of `m` on a receiver of type `r` is answered by
`m` or by the nearest answer in front of it, by `m` exactly if there is none; a call of what answers is answered by itself;
and types that have nothing to say about `m` answer as the type that they derive from. -/
theorem implementation_nearest (g : TypeGraph) (hgrown : empty.GrownFrom g) (hbases : Acyclic g.Extends)
    (hclass : ∀ t base, g.Extends t base → g.isInterface base = false) (r : TypeId) (m : MethodId)
    (hm : (g.method m).isVirtual = true) :
    (g.implementation r m = m ∨ g.NearestAnswer r m (g.implementation r m)) ∧
    (g.implementation r m = m ↔ ∀ t, g.InFront r m t → ¬ g.HasAnswer m t) ∧
    g.implementation r (g.implementation r m) = g.implementation r m ∧
    ∀ r', ReflTransGen g.Extends r' r →
      (∀ t, ReflTransGen g.Extends r' t → TransGen g.Extends t r →
        t ≠ (g.method m).declaring ∧ ¬ g.HasAnswer m t) →
      g.implementation r' m = g.implementation r m := by
  have hown : g.ListsOwn := hgrown.listsOwn empty_listsDeclared empty_listsOwn
  refine ⟨?_, ?_, ?_, fun r' hderives hnone => implementation_derived hbases hm hderives hnone⟩
  · exact (implementation_cases hbases hm r).symm.imp_left And.left
  · rcases implementation_cases hbases hm r with hnearest | ⟨hself, hnothing⟩
    · refine iff_of_false (hnearest.ne hown) fun hnothing => ?_
      obtain ⟨t, before, after, hfront, hmethods, hc, -⟩ := hnearest
      exact hnothing t hfront ⟨_, by simp [hmethods], hc⟩
    · exact iff_of_true hself hnothing
  · rcases implementation_cases hbases hm r with hnearest | ⟨hself, -⟩
    · exact hnearest.stable hbases hown hclass
    · rw [hself, hself]

end TypeGraph

namespace Gates

open TypeGraph

/-- a root, an interface with one method, a type that implements it twice, and a type that derives from that -/
def graph : TypeGraph :=
  let (_, g) := empty.addType (.root ⟨"Root"⟩ TypeFlags.public_)
  let (_, g) := g.addType (.ofInterface ⟨"Door"⟩)
  let (_, g) := g.addType (.ofClass ⟨"Gate"⟩ ⟨0⟩ TypeFlags.public_)
  let (_, g) := g.addType (.ofClass ⟨"Wicket"⟩ ⟨2⟩ TypeFlags.public_)
  let (_, g) := (g.addInterface ⟨2⟩ ⟨1⟩).addMethod
    { declaring := ⟨1⟩, name := ⟨"Close"⟩, flags := MethodFlags.ofInterface }
  let (_, g) := g.addMethod { declaring := ⟨2⟩, name := ⟨"Door.Close"⟩, flags := MethodFlags.ofImplementation }
  (g.addMethod { declaring := ⟨2⟩, name := ⟨"Close"⟩, flags := MethodFlags.ofImplementation }).2

theorem grown : empty.GrownFrom graph :=
  .method (.method (.method (.interface (.type (.type (.type (.type .refl _ rfl rfl) _ rfl rfl) _ rfl rfl) _ rfl rfl)
    _ _) _) _) _

theorem backward : ∀ i < graph.types.size, ∀ base ∈ (graph.type ⟨i⟩).base,
    base.index < i ∧ graph.isInterface base = false := by
  decide +kernel

/-- the derived type answers by the explicit implementation of its base, and goes on to do so -/
theorem close_explicitly : graph.implementation ⟨3⟩ ⟨0⟩ = ⟨1⟩ ∧ graph.implementation ⟨3⟩ ⟨1⟩ = ⟨1⟩ := by
  have hbases : Acyclic graph.Extends :=
    acyclic_of_height TypeId.index fun _ _ h => (backward _ h.declared _ h).1
  have hclass : ∀ t base, graph.Extends t base → graph.isInterface base = false :=
    fun _ _ h => (backward _ h.declared _ h).2
  have hclose : (graph.method ⟨0⟩).isVirtual = true := by decide +kernel
  have hderived : graph.implementation ⟨3⟩ ⟨0⟩ = ⟨1⟩ := by decide +kernel
  refine ⟨hderived, ?_⟩
  have hstable := (implementation_nearest graph grown hbases hclass ⟨3⟩ ⟨0⟩ hclose).2.2.1
  rwa [hderived] at hstable

end Gates

end DisposalWeaver
