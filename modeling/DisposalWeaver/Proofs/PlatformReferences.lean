/-
Graphs that grow from the platform.

Everything that a program declares comes after the platform, and nothing declared is ever changed, so the platform stays
what it is. What generated code refers to is found under its name (`References.resolve?_eq_ok_iff`), and it is the
platform's (`resolve_grows`).
-/
import Mathlib.Data.List.Find
import DisposalWeaver.Proofs.GraphGrowth
import DisposalWeaver.Proofs.Outcomes
import DisposalWeaver.Weaving.References

namespace DisposalWeaver

namespace TypeGraph

/-! ## Growing -/

/-- the graph grows from another one by any number of declarations -/
inductive GrownFrom (g : TypeGraph) : TypeGraph → Prop where
  | refl : GrownFrom g g
  | type {g'} (h : GrownFrom g g') (decl : TypeDecl) (hmethods : decl.methods = []) (hfields : decl.fields = []) :
    GrownFrom g (g'.addType decl).2
  | interface {g'} (h : GrownFrom g g') (t interface : TypeId) : GrownFrom g (g'.addInterface t interface)
  | method {g'} (h : GrownFrom g g') (decl : MethodDecl) : GrownFrom g (g'.addMethod decl).2
  | field {g'} (h : GrownFrom g g') (decl : FieldDecl) : GrownFrom g (g'.addField decl).2

/-- declarations stay, apart from what types gain -/
structure Grows (g g' : TypeGraph) : Prop where
  types : g.types.size ≤ g'.types.size
  type : ∀ t, t.index < g.types.size → ∃ interfaces methods fields, g'.type t =
    { (g.type t).withMembers methods fields with interfaces := (g.type t).interfaces ++ interfaces }
  methods : g.methods.size ≤ g'.methods.size
  method : ∀ m, m.index < g.methods.size → g'.method m = g.method m
  fields : g.fields.size ≤ g'.fields.size
  field : ∀ f, f.index < g.fields.size → g'.field f = g.field f

/-- every method that a type lists is declared -/
def ListsDeclared (g : TypeGraph) : Prop :=
  ∀ t, ∀ m ∈ (g.type t).methods, m.index < g.methods.size

/-- every field that a type lists is declared -/
def FieldsDeclared (g : TypeGraph) : Prop :=
  ∀ t, ∀ f ∈ (g.type t).fields, f.index < g.fields.size

variable {g g' g'' : TypeGraph}

theorem Grows.refl (g : TypeGraph) : g.Grows g where
  types := Nat.le_refl _
  type t _ := ⟨[], [], [], by simp [TypeDecl.withMembers]⟩
  methods := Nat.le_refl _
  method _ _ := rfl
  fields := Nat.le_refl _
  field _ _ := rfl

theorem Grows.trans (h : g.Grows g') (h' : g'.Grows g'') : g.Grows g'' where
  types := Nat.le_trans h.types h'.types
  type t ht := by
    obtain ⟨is, ms, fs, hg⟩ := h.type t ht
    obtain ⟨is', ms', fs', hg'⟩ := h'.type t (Nat.lt_of_lt_of_le ht h.types)
    exact ⟨is ++ is', ms ++ ms', fs ++ fs', by rw [hg', hg]; simp [TypeDecl.withMembers]⟩
  methods := Nat.le_trans h.methods h'.methods
  method m hm := (h'.method m (Nat.lt_of_lt_of_le hm h.methods)).trans (h.method m hm)
  fields := Nat.le_trans h.fields h'.fields
  field f hf := (h'.field f (Nat.lt_of_lt_of_le hf h.fields)).trans (h.field f hf)

theorem Gains.grows (h : g.Gains g') : g.Grows g' where
  types := Nat.le_of_eq h.types.symm
  type t _ := by
    obtain ⟨ms, fs, hg, _⟩ := h.type t
    exact ⟨[], ms, fs, by rw [List.append_nil]; exact hg⟩
  methods := h.methods
  method := h.method
  fields := h.fields
  field := h.field

theorem grows_addType (g : TypeGraph) (decl : TypeDecl) : g.Grows (g.addType decl).2 where
  types := by simp [addType]
  type t ht := ⟨[], [], [], by
    simp only [addType, TypeGraph.type, Array.getD_eq_getD_getElem?]
    rw [Array.getElem?_push_lt ht, Array.getElem?_eq_getElem ht]
    simp [TypeDecl.withMembers]⟩
  methods := Nat.le_refl _
  method _ _ := rfl
  fields := Nat.le_refl _
  field _ _ := rfl

theorem grows_addInterface (g : TypeGraph) (t interface : TypeId) : g.Grows (g.addInterface t interface) where
  types := by simp [addInterface]
  type t' _ := by
    have h := type_modify g g.methods g.fields t' t fun decl => { decl with interfaces := decl.interfaces ++ [interface] }
    by_cases hc : t = t' ∧ t'.index < g.types.size
    · rw [if_pos hc] at h
      exact ⟨[interface], [], [], by simpa [addInterface, TypeDecl.withMembers] using h⟩
    · rw [if_neg hc] at h
      exact ⟨[], [], [], by simpa [addInterface, TypeDecl.withMembers] using h⟩
  methods := Nat.le_refl _
  method _ _ := rfl
  fields := Nat.le_refl _
  field _ _ := rfl

theorem grows_addMethod (g : TypeGraph) (decl : MethodDecl) : g.Grows (g.addMethod decl).2 where
  types := by simp [addMethod]
  type t _ := ⟨[], _, _, by rw [List.append_nil]; exact type_addMethod g decl t⟩
  methods := by simp [addMethod]
  method := method_addMethod g decl
  fields := Nat.le_refl _
  field _ _ := rfl

theorem GrownFrom.grows (h : GrownFrom g g') : g.Grows g' := by
  induction h with
  | refl => exact Grows.refl g
  | type _ decl _ _ ih => exact ih.trans (grows_addType _ decl)
  | interface _ t interface ih => exact ih.trans (grows_addInterface _ t interface)
  | method _ decl ih => exact ih.trans (grows_addMethod _ decl)
  | field _ decl ih => exact ih.trans (gains_addField _ decl).grows

theorem GrownFrom.trans (h : GrownFrom g g') (h' : GrownFrom g' g'') : GrownFrom g g'' := by
  induction h' with
  | refl => exact h
  | type _ decl hmethods hfields ih => exact .type ih decl hmethods hfields
  | interface _ t interface ih => exact .interface ih t interface
  | method _ decl ih => exact .method ih decl
  | field _ decl ih => exact .field ih decl

/-! ## What is listed on types -/

/-- only the new type reads otherwise -/
theorem type_addType (g : TypeGraph) (decl : TypeDecl) (t : TypeId) :
    (g.addType decl).2.type t = if t.index = g.types.size then decl else g.type t := by
  simp only [addType, TypeGraph.type, Array.getD_eq_getD_getElem?, Array.getElem?_push]
  split <;> rfl

/-- one more interface on a type leaves the members of all types as they were -/
theorem members_addInterface (g : TypeGraph) (t interface t' : TypeId) :
    ((g.addInterface t interface).type t').methods = (g.type t').methods ∧
      ((g.addInterface t interface).type t').fields = (g.type t').fields := by
  have h := type_modify g g.methods g.fields t' t fun decl => { decl with interfaces := decl.interfaces ++ [interface] }
  change (g.addInterface t interface).type t' = _ at h
  rw [h]
  split <;> exact ⟨rfl, rfl⟩

theorem ListsDeclared.gains (hg : g.ListsDeclared) (h : g.Gains g') : g'.ListsDeclared := by
  intro t m hm
  obtain ⟨ms, fs, ht, hms⟩ := h.type t
  rw [ht] at hm
  rcases List.mem_append.1 hm with hm | hm
  · exact Nat.lt_of_lt_of_le (hg t m hm) h.methods
  · exact (hms m hm).2

/-- a new type may list methods that are declared already -/
theorem ListsDeclared.addType (hg : g.ListsDeclared) {decl : TypeDecl}
    (hmethods : ∀ m ∈ decl.methods, m.index < g.methods.size) : (g.addType decl).2.ListsDeclared := by
  intro t m hm
  rw [type_addType] at hm
  split at hm
  · exact hmethods m hm
  · exact hg t m hm

theorem ListsDeclared.addInterface (hg : g.ListsDeclared) (t interface : TypeId) :
    (g.addInterface t interface).ListsDeclared := by
  intro t' m hm
  rw [(members_addInterface g t interface t').1] at hm
  exact hg t' m hm

theorem ListsDeclared.addMethod (hg : g.ListsDeclared) (decl : MethodDecl) : (g.addMethod decl).2.ListsDeclared := by
  intro t m hm
  have hsize : (g.addMethod decl).2.methods.size = g.methods.size + 1 := by simp [TypeGraph.addMethod]
  rw [type_addMethod] at hm
  rcases List.mem_append.1 hm with hm | hm
  · exact hsize ▸ Nat.lt_succ_of_lt (hg t m hm)
  · split at hm
    · rw [List.mem_singleton] at hm
      subst hm
      exact hsize ▸ Nat.lt_succ_self _
    · cases hm

theorem FieldsDeclared.addType (hg : g.FieldsDeclared) {decl : TypeDecl}
    (hfields : ∀ f ∈ decl.fields, f.index < g.fields.size) : (g.addType decl).2.FieldsDeclared := by
  intro t f hf
  rw [type_addType] at hf
  split at hf
  · exact hfields f hf
  · exact hg t f hf

theorem FieldsDeclared.addInterface (hg : g.FieldsDeclared) (t interface : TypeId) :
    (g.addInterface t interface).FieldsDeclared := by
  intro t' f hf
  rw [(members_addInterface g t interface t').2] at hf
  exact hg t' f hf

theorem FieldsDeclared.addMethod (hg : g.FieldsDeclared) (decl : MethodDecl) : (g.addMethod decl).2.FieldsDeclared := by
  intro t f hf
  rw [type_addMethod, TypeDecl.withMembers, List.append_nil] at hf
  exact hg t f hf

theorem FieldsDeclared.addField (hg : g.FieldsDeclared) (decl : FieldDecl) : (g.addField decl).2.FieldsDeclared := by
  intro t f hf
  have hsize : (g.addField decl).2.fields.size = g.fields.size + 1 := by simp [TypeGraph.addField]
  rw [type_addField] at hf
  rw [hsize]
  rcases List.mem_append.1 hf with hf | hf
  · exact Nat.lt_succ_of_lt (hg t f hf)
  · split at hf
    · rw [List.mem_singleton.1 hf]
      exact Nat.lt_succ_self _
    · cases hf

theorem GrownFrom.listsDeclared (h : GrownFrom g g') (hg : g.ListsDeclared) : g'.ListsDeclared := by
  induction h with
  | refl => exact hg
  | type _ decl hmethods _ ih => exact ih.addType (by simp [hmethods])
  | interface _ t interface ih => exact ih.addInterface t interface
  | method _ decl ih => exact ih.addMethod decl
  | field _ decl ih => exact ih.gains (gains_addField _ decl)

theorem GrownFrom.fieldsDeclared (h : GrownFrom g g') (hg : g.FieldsDeclared) : g'.FieldsDeclared := by
  induction h with
  | refl => exact hg
  | type _ decl _ hfields ih => exact ih.addType (by simp [hfields])
  | interface _ t interface ih => exact ih.addInterface t interface
  | method _ decl ih => exact ih.addMethod decl
  | field _ decl ih => exact ih.addField decl

/-! ## Finding what is there -/

/-- is the type that decides how the reference is spelled among the first `bound`? -/
def spelledWithin (bound : Nat) : TypeRef → Bool
  | .named d => d.index < bound
  | .applied d _ => d.index < bound
  | .typeParameter owner _ => owner.index < bound
  | .methodParameter _ => true
  | .array element => spelledWithin bound element
  | .byRef element => spelledWithin bound element

namespace Grows

variable (h : g.Grows g')

include h

theorem name (t : TypeId) (ht : t.index < g.types.size) : (g'.type t).name = (g.type t).name := by
  obtain ⟨is, ms, fs, hg⟩ := h.type t ht
  rw [hg]
  rfl

theorem base (t : TypeId) (ht : t.index < g.types.size) : (g'.type t).base = (g.type t).base := by
  obtain ⟨is, ms, fs, hg⟩ := h.type t ht
  rw [hg]
  rfl

theorem generics (t : TypeId) (ht : t.index < g.types.size) : (g'.type t).generics = (g.type t).generics := by
  obtain ⟨is, ms, fs, hg⟩ := h.type t ht
  rw [hg]
  rfl

/-- a type whose base was there stays a value type, or none -/
theorem isValueType (t : TypeId) (ht : t.index < g.types.size)
    (hbase : ∀ base, (g.type t).base = some base → base.index < g.types.size) : g'.isValueType t = g.isValueType t := by
  have hname : g'.baseName? t = g.baseName? t := by
    simp only [TypeGraph.baseName?, h.base t ht]
    cases hb : (g.type t).base with
    | none => rfl
    | some base => simp only [Option.map_some, h.name base (hbase base hb)]
  simp only [TypeGraph.isValueType, TypeGraph.isEnum, hname, h.name t ht]

theorem shortName (generics : List GenericParameter) (type : TypeRef) (ht : spelledWithin g.types.size type = true) :
    g'.shortName generics type = g.shortName generics type := by
  induction type using TypeRef.rec (motive_2 := fun _ => True) with
  | named d => simp only [TypeGraph.shortName, h.name d (by simpa [spelledWithin] using ht)]
  | applied d arguments => simp only [TypeGraph.shortName, h.name d (by simpa [spelledWithin] using ht)]
  | typeParameter owner index =>
    simp only [TypeGraph.shortName, TypeGraph.genericParameter?, h.generics owner (by simpa [spelledWithin] using ht)]
  | methodParameter index => simp only [TypeGraph.shortName]
  | array element ih => simp only [TypeGraph.shortName, ih (by simpa [spelledWithin] using ht)]
  | byRef element ih => simp only [TypeGraph.shortName, ih (by simpa [spelledWithin] using ht)]
  | nil => trivial
  | cons _ _ _ _ => trivial

/-- a name keeps meaning what it meant -/
theorem lookup? {name : QualifiedName} {t : TypeId} (ht : g.lookup? name = some t) : g'.lookup? name = some t := by
  simp only [TypeGraph.lookup?, Option.map_eq_some_iff] at ht ⊢
  obtain ⟨k, hk, rfl⟩ := ht
  refine ⟨k, ?_, rfl⟩
  rw [Array.findIdx?_eq_some_iff_getElem] at hk ⊢
  obtain ⟨hlt, hname, hbefore⟩ := hk
  have hsame : ∀ (j : Nat) (hj : j < g.types.size) (hj' : j < g'.types.size), g'.types[j].name = g.types[j].name := by
    intro j hj _
    have hn := h.name ⟨j⟩ hj
    simpa [TypeGraph.type, Array.getD_eq_getD_getElem?, hj, Nat.lt_of_lt_of_le hj h.types] using hn
  refine ⟨Nat.lt_of_lt_of_le hlt h.types, by rw [hsame k hlt]; exact hname, fun j hj => ?_⟩
  rw [hsame j (Nat.lt_trans hj hlt)]
  exact hbefore j hj

/-- a method keeps being found, if the methods of its type are spelled with types that were there -/
theorem findMethod? {t : TypeId} {name : String} {parameters : List String} {m : MethodId}
    (ht : t.index < g.types.size)
    (hspelled : ∀ m ∈ (g.type t).methods, m.index < g.methods.size ∧
      ∀ parameter ∈ (g.method m).parameters, spelledWithin g.types.size parameter.type = true)
    (hm : g.findMethod? t name parameters = some m) : g'.findMethod? t name parameters = some m := by
  obtain ⟨is, ms, fs, hg⟩ := h.type t ht
  have hsame : ∀ c ∈ (g.type t).methods, (g'.method c).hasSignature g' name parameters =
      (g.method c).hasSignature g name parameters := by
    intro c hc
    obtain ⟨hlt, hparameters⟩ := hspelled c hc
    have hnames : (g.method c).parameterNames g' = (g.method c).parameterNames g :=
      List.map_congr_left fun parameter hp => h.shortName _ _ (hparameters parameter hp)
    simp only [MethodDecl.hasSignature, h.method c hlt, hnames]
  simp only [TypeGraph.findMethod?, hg, TypeDecl.withMembers] at hm ⊢
  rw [List.find?_append, List.find?_congr hsame, hm]
  rfl

end Grows

end TypeGraph

/-! ## What the references are found by -/

namespace References

variable {g : TypeGraph} {references : References}

theorem findType?_eq_ok_iff {name : QualifiedName} {t : TypeId} : findType? g name = .ok t ↔ g.lookup? name = some t := by
  unfold findType?
  cases g.lookup? name <;> simp

theorem findMethod?_eq_ok_iff {t : TypeId} {name : MemberName} {parameters : List String} {m : MethodId} :
    findMethod? g t name parameters = .ok m ↔ g.findMethod? t name.text parameters = some m := by
  unfold findMethod?
  cases g.findMethod? t name.text parameters <;> simp

/-- each reference is what is found under its name -/
structure Found (g : TypeGraph) (references : References) : Prop where
  object : findType? g QualifiedName.object = .ok references.object
  disposable : findType? g QualifiedName.disposable = .ok references.disposable
  int32 : findType? g QualifiedName.int32 = .ok references.int32
  boolean : findType? g QualifiedName.boolean = .ok references.boolean
  objectFinalize : findMethod? g references.object MemberName.finalize [] = .ok references.objectFinalize
  suppressFinalize : ∃ collector, findType? g QualifiedName.collector = .ok collector ∧
    findMethod? g collector MemberName.suppressFinalize ["Object"] = .ok references.suppressFinalize
  dispose : findMethod? g references.disposable MemberName.dispose [] = .ok references.dispose
  exchanges : ∃ interlocked, findType? g QualifiedName.interlocked = .ok interlocked ∧
    findMethod? g interlocked MemberName.exchange ["Int32&", "Int32"] = .ok references.exchangeInt32 ∧
    findMethod? g interlocked MemberName.exchange ["T&", "T"] = .ok references.exchangeReference
  disposedConstructor : ∃ exception, findType? g QualifiedName.objectDisposedException = .ok exception ∧
    findMethod? g exception MemberName.constructor ["String"] = .ok references.disposedConstructor

theorem resolve?_eq_ok_iff : resolve? g = .ok references ↔ Found g references := by
  constructor
  · intro h
    unfold resolve? at h
    obtain ⟨object, hobject, h⟩ := ok_of_bind h
    obtain ⟨collector, hcollector, h⟩ := ok_of_bind h
    obtain ⟨disposable, hdisposable, h⟩ := ok_of_bind h
    obtain ⟨interlocked, hinterlocked, h⟩ := ok_of_bind h
    obtain ⟨exception, hexception, h⟩ := ok_of_bind h
    obtain ⟨objectFinalize, hobjectFinalize, h⟩ := ok_of_bind h
    obtain ⟨suppressFinalize, hsuppressFinalize, h⟩ := ok_of_bind h
    obtain ⟨dispose, hdispose, h⟩ := ok_of_bind h
    obtain ⟨exchangeInt32, hexchangeInt32, h⟩ := ok_of_bind h
    obtain ⟨exchangeReference, hexchangeReference, h⟩ := ok_of_bind h
    obtain ⟨disposedConstructor, hdisposedConstructor, h⟩ := ok_of_bind h
    obtain ⟨int32, hint32, h⟩ := ok_of_bind h
    obtain ⟨boolean, hboolean, h⟩ := ok_of_bind h
    cases h
    exact {
      object := hobject
      disposable := hdisposable
      int32 := hint32
      boolean := hboolean
      objectFinalize := hobjectFinalize
      suppressFinalize := ⟨collector, hcollector, hsuppressFinalize⟩
      dispose := hdispose
      exchanges := ⟨interlocked, hinterlocked, hexchangeInt32, hexchangeReference⟩
      disposedConstructor := ⟨exception, hexception, hdisposedConstructor⟩ }
  · intro h
    obtain ⟨collector, hcollector, hsuppressFinalize⟩ := h.suppressFinalize
    obtain ⟨interlocked, hinterlocked, hexchangeInt32, hexchangeReference⟩ := h.exchanges
    obtain ⟨exception, hexception, hdisposedConstructor⟩ := h.disposedConstructor
    simp only [resolve?, bind, Except.bind, h.object, hcollector, h.disposable, hinterlocked, hexception,
      h.objectFinalize, hsuppressFinalize, h.dispose, hexchangeInt32, hexchangeReference, hdisposedConstructor, h.int32,
      h.boolean]
    rfl

end References

/-! ## The platform -/

/-- the platform on a graph of its own -/
def Platform.alone : Platform × TypeGraph := TypeGraph.insertPlatform TypeGraph.empty

/-- what generated code refers to, on the platform -/
def Platform.references (platform : Platform) : References where
  objectFinalize := platform.objectFinalize
  suppressFinalize := platform.suppressFinalize
  dispose := platform.disposableDispose
  exchangeInt32 := platform.exchangeInt32
  exchangeReference := platform.exchangeReference
  disposedConstructor := platform.objectDisposedConstructor
  object := platform.object
  disposable := platform.disposable
  int32 := platform.int32
  boolean := platform.boolean

namespace Platform

/-- every method of the platform's types is declared there, and is spelled with types from there -/
def isClosed (g : TypeGraph) : Bool :=
  (List.range g.types.size).all fun t => (g.type ⟨t⟩).methods.all fun m =>
    m.index < g.methods.size &&
      (g.method m).parameters.all fun parameter => TypeGraph.spelledWithin g.types.size parameter.type

theorem alone_isClosed : isClosed alone.2 = true := by decide +kernel

theorem alone_closed {t : TypeId} (ht : t.index < alone.2.types.size) : ∀ m ∈ (alone.2.type t).methods,
    m.index < alone.2.methods.size ∧
      ∀ parameter ∈ (alone.2.method m).parameters, TypeGraph.spelledWithin alone.2.types.size parameter.type = true := by
  intro m hm
  have h := List.all_eq_true.1 alone_isClosed t.index (List.mem_range.2 ht)
  have hmethod := List.all_eq_true.1 h m hm
  simp only [Bool.and_eq_true, decide_eq_true_eq, List.all_eq_true] at hmethod
  exact hmethod

theorem alone_listsDeclared : alone.2.ListsDeclared := by
  intro t m hm
  by_cases ht : t.index < alone.2.types.size
  · exact (alone_closed ht m hm).1
  · simp only [TypeGraph.type, Array.getD_eq_getD_getElem?] at hm
    rw [Array.getElem?_eq_none (Nat.le_of_not_lt ht)] at hm
    cases hm

theorem alone_fieldsDeclared : alone.2.FieldsDeclared := by
  have hnone : (List.range alone.2.types.size).all (fun t => (alone.2.type ⟨t⟩).fields.isEmpty) = true := by decide +kernel
  intro t f hf
  by_cases ht : t.index < alone.2.types.size
  · have h := List.all_eq_true.1 hnone t.index (List.mem_range.2 ht)
    rw [List.isEmpty_iff.1 h] at hf
    cases hf
  · simp only [TypeGraph.type, Array.getD_eq_getD_getElem?] at hf
    rw [Array.getElem?_eq_none (Nat.le_of_not_lt ht)] at hf
    cases hf

end Platform

namespace TypeGraph

variable {g : TypeGraph}

/-- a type of the platform is found by its name in every graph in which the platform stays -/
theorem Grows.findType?_platform (h : Platform.alone.2.Grows g) {name : QualifiedName} {t : TypeId}
    (ht : Platform.alone.2.lookup? name = some t) : References.findType? g name = .ok t :=
  References.findType?_eq_ok_iff.2 (h.lookup? ht)

/-- a method of the platform is found on its type in every graph in which the platform stays -/
theorem Grows.findMethod?_platform (h : Platform.alone.2.Grows g) {t : TypeId} {name : MemberName}
    {parameters : List String} {m : MethodId} (ht : t.index < Platform.alone.2.types.size)
    (hm : Platform.alone.2.findMethod? t name.text parameters = some m) :
    References.findMethod? g t name parameters = .ok m :=
  References.findMethod?_eq_ok_iff.2 (h.findMethod? ht (Platform.alone_closed ht) hm)

/-- **What generated code needs is the platform's**, in every graph in which the platform stays. -/
theorem resolve_grows (h : Platform.alone.2.Grows g) : References.resolve? g = .ok Platform.alone.1.references :=
  References.resolve?_eq_ok_iff.2 {
    object := h.findType?_platform (by decide +kernel)
    disposable := h.findType?_platform (by decide +kernel)
    int32 := h.findType?_platform (by decide +kernel)
    boolean := h.findType?_platform (by decide +kernel)
    objectFinalize := h.findMethod?_platform (by decide +kernel) (by decide +kernel)
    suppressFinalize := ⟨Platform.alone.1.collector, h.findType?_platform (by decide +kernel),
      h.findMethod?_platform (by decide +kernel) (by decide +kernel)⟩
    dispose := h.findMethod?_platform (by decide +kernel) (by decide +kernel)
    exchanges := ⟨Platform.alone.1.interlocked, h.findType?_platform (by decide +kernel),
      h.findMethod?_platform (by decide +kernel) (by decide +kernel),
      h.findMethod?_platform (by decide +kernel) (by decide +kernel)⟩
    disposedConstructor := ⟨Platform.alone.1.objectDisposedException, h.findType?_platform (by decide +kernel),
      h.findMethod?_platform (by decide +kernel) (by decide +kernel)⟩ }

/-- so it is in every graph that grew from the platform -/
theorem resolve_grownFrom (h : Platform.alone.2.GrownFrom g) :
    References.resolve? g = .ok Platform.alone.1.references := resolve_grows h.grows

end TypeGraph

end DisposalWeaver
