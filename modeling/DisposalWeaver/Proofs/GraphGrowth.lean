/-
What stays when a type graph grows.

`TypeGraph.Gains` says that types gain members and nothing else changes: that is all that weaving does to a graph. Which
type stands for which, what a place holds at first and what a declaration says do not depend on members, so they stay
(`Gains.isSubtype`, `Gains.isAssignable`, `Gains.defaultFor`). `TypeGraph.Grows` also allows new types and interfaces,
which is how a graph grows from the platform before it is woven (`GrownFrom`).
-/
import DisposalWeaver.TypeGraph.Platform
import DisposalWeaver.TypeGraph.Subtyping
import DisposalWeaver.Machine.Dispatch
import DisposalWeaver.Machine.Value

namespace DisposalWeaver

/-- the type with more members -/
def TypeDecl.withMembers (t : TypeDecl) (methods : List MethodId) (fields : List FieldId) : TypeDecl :=
  { t with methods := t.methods ++ methods, fields := t.fields ++ fields }

@[simp] theorem TypeDecl.withMembers_nil (t : TypeDecl) : t.withMembers [] [] = t := by simp [withMembers]

@[simp] theorem TypeDecl.withMembers_withMembers (t : TypeDecl) (methods methods' : List MethodId)
    (fields fields' : List FieldId) : (t.withMembers methods fields).withMembers methods' fields' =
      t.withMembers (methods ++ methods') (fields ++ fields') := by
  simp [withMembers]

namespace TypeGraph

variable {g g' g'' : TypeGraph}

/-! ## Members are gained -/

/-- the method was declared between the two graphs -/
def NewMethod (g g' : TypeGraph) (m : MethodId) : Prop :=
  g.methods.size ≤ m.index ∧ m.index < g'.methods.size

/-- types gain members, of which only finalizers are virtual -/
structure Gains (g g' : TypeGraph) : Prop where
  types : g'.types.size = g.types.size
  type : ∀ t, ∃ methods fields, g'.type t = (g.type t).withMembers methods fields ∧ ∀ m ∈ methods, g.NewMethod g' m
  methods : g.methods.size ≤ g'.methods.size
  method : ∀ m, m.index < g.methods.size → g'.method m = g.method m
  fields : g.fields.size ≤ g'.fields.size
  field : ∀ f, f.index < g.fields.size → g'.field f = g.field f
  virtual : ∀ m, g.NewMethod g' m → (g'.method m).isVirtual = true → (g'.method m).name = MemberName.finalize

theorem Gains.refl (g : TypeGraph) : g.Gains g where
  types := rfl
  type t := ⟨[], [], by simp [TypeDecl.withMembers], fun m hm => by cases hm⟩
  methods := Nat.le_refl _
  method _ _ := rfl
  fields := Nat.le_refl _
  field _ _ := rfl
  virtual _ h := absurd h.2 (Nat.not_lt.2 h.1)

theorem Gains.trans (h : g.Gains g') (h' : g'.Gains g'') : g.Gains g'' where
  types := h'.types.trans h.types
  type t := by
    obtain ⟨ms, fs, hg, hms⟩ := h.type t
    obtain ⟨ms', fs', hg', hms'⟩ := h'.type t
    refine ⟨ms ++ ms', fs ++ fs', by rw [hg', hg]; simp [TypeDecl.withMembers], fun m hm => ?_⟩
    rcases List.mem_append.1 hm with hm | hm
    · exact ⟨(hms m hm).1, Nat.lt_of_lt_of_le (hms m hm).2 h'.methods⟩
    · exact ⟨Nat.le_trans h.methods (hms' m hm).1, (hms' m hm).2⟩
  methods := Nat.le_trans h.methods h'.methods
  method m hm := (h'.method m (Nat.lt_of_lt_of_le hm h.methods)).trans (h.method m hm)
  fields := Nat.le_trans h.fields h'.fields
  field f hf := (h'.field f (Nat.lt_of_lt_of_le hf h.fields)).trans (h.field f hf)
  virtual m hm hv := by
    by_cases hlt : m.index < g'.methods.size
    · rw [h'.method m hlt] at hv ⊢
      exact h.virtual m ⟨hm.1, hlt⟩ hv
    · exact h'.virtual m ⟨Nat.le_of_not_lt hlt, hm.2⟩ hv

theorem type_modify (g : TypeGraph) (methods : Array MethodDecl) (fields : Array FieldDecl) (t d : TypeId)
    (f : TypeDecl → TypeDecl) : ({ types := g.types.modify d.index f, methods, fields } : TypeGraph).type t =
      if d = t ∧ t.index < g.types.size then f (g.type t) else g.type t := by
  simp only [type, Array.getD_eq_getD_getElem?, Array.getElem?_modify]
  by_cases hsame : d = t
  · subst hsame
    by_cases hlt : d.index < g.types.size
    · simp [hlt]
    · simp [hlt]
  · have hne : d.index ≠ t.index := fun h => hsame (by cases d; cases t; simp_all)
    simp [hsame, hne]

/-- only the declaring type lists a new method -/
theorem type_addMethod (g : TypeGraph) (decl : MethodDecl) (t : TypeId) : (g.addMethod decl).2.type t =
    (g.type t).withMembers (if decl.declaring = t ∧ t.index < g.types.size then [⟨g.methods.size⟩] else []) [] := by
  have h := type_modify g (g.methods.push decl) g.fields t decl.declaring fun t =>
    { t with methods := t.methods ++ [⟨g.methods.size⟩] }
  by_cases hc : decl.declaring = t ∧ t.index < g.types.size
  · rw [if_pos hc] at h ⊢
    simpa [addMethod, TypeDecl.withMembers] using h
  · rw [if_neg hc] at h ⊢
    simpa [addMethod, TypeDecl.withMembers] using h

theorem type_addField (g : TypeGraph) (decl : FieldDecl) (t : TypeId) : (g.addField decl).2.type t =
    (g.type t).withMembers [] (if decl.declaring = t ∧ t.index < g.types.size then [⟨g.fields.size⟩] else []) := by
  have h := type_modify g g.methods (g.fields.push decl) t decl.declaring fun t =>
    { t with fields := t.fields ++ [⟨g.fields.size⟩] }
  by_cases hc : decl.declaring = t ∧ t.index < g.types.size
  · rw [if_pos hc] at h ⊢
    simpa [addField, TypeDecl.withMembers] using h
  · rw [if_neg hc] at h ⊢
    simpa [addField, TypeDecl.withMembers] using h

/-- a new member leaves every other type alone -/
theorem type_addMethod_other (g : TypeGraph) {decl : MethodDecl} {t : TypeId} (h : decl.declaring ≠ t) :
    (g.addMethod decl).2.type t = g.type t := by
  rw [type_addMethod, if_neg fun hc => h hc.1]
  simp [TypeDecl.withMembers]

theorem type_addField_other (g : TypeGraph) {decl : FieldDecl} {t : TypeId} (h : decl.declaring ≠ t) :
    (g.addField decl).2.type t = g.type t := by
  rw [type_addField, if_neg fun hc => h hc.1]
  simp [TypeDecl.withMembers]

theorem method_addMethod (g : TypeGraph) (decl : MethodDecl) (m : MethodId) (hm : m.index < g.methods.size) :
    (g.addMethod decl).2.method m = g.method m := by
  simp only [addMethod, method, Array.getD_eq_getD_getElem?]
  rw [Array.getElem?_push_lt hm, Array.getElem?_eq_getElem hm]

@[simp] theorem method_addMethod_new (g : TypeGraph) (decl : MethodDecl) :
    (g.addMethod decl).2.method ⟨g.methods.size⟩ = decl := by
  simp [addMethod, method, Array.getD_eq_getD_getElem?]

theorem field_addField (g : TypeGraph) (decl : FieldDecl) (f : FieldId) (hf : f.index < g.fields.size) :
    (g.addField decl).2.field f = g.field f := by
  simp only [addField, field, Array.getD_eq_getD_getElem?]
  rw [Array.getElem?_push_lt hf, Array.getElem?_eq_getElem hf]

@[simp] theorem field_addField_new (g : TypeGraph) (decl : FieldDecl) :
    (g.addField decl).2.field ⟨g.fields.size⟩ = decl := by
  simp [addField, field, Array.getD_eq_getD_getElem?]

theorem gains_addMethod (g : TypeGraph) (decl : MethodDecl)
    (hv : decl.isVirtual = true → decl.name = MemberName.finalize) : g.Gains (g.addMethod decl).2 where
  types := by simp [addMethod]
  type t := by
    refine ⟨_, _, type_addMethod g decl t, fun m hm => ?_⟩
    split at hm
    · rw [List.mem_singleton] at hm
      subst hm
      simp [NewMethod, addMethod]
    · cases hm
  methods := by simp [addMethod]
  method := method_addMethod g decl
  fields := Nat.le_refl _
  field _ _ := rfl
  virtual m hm hvirtual := by
    have hm' : m = ⟨g.methods.size⟩ := by
      obtain ⟨index⟩ := m
      have h1 := hm.1
      have h2 := hm.2
      simp only [addMethod, Array.size_push] at h1 h2
      congr 1
      omega
    subst hm'
    rw [method_addMethod_new] at hvirtual ⊢
    exact hv hvirtual

theorem gains_addField (g : TypeGraph) (decl : FieldDecl) : g.Gains (g.addField decl).2 where
  types := by simp [addField]
  type t := ⟨_, _, type_addField g decl t, fun m hm => by cases hm⟩
  methods := Nat.le_refl _
  method _ _ := rfl
  fields := by simp [addField]
  field := field_addField g decl
  virtual m hm := absurd hm.2 (Nat.not_lt.2 hm.1)

/-! ## What does not depend on members -/

namespace Gains

section

variable (h : g.Gains g')

include h

theorem name (t : TypeId) : (g'.type t).name = (g.type t).name := by
  obtain ⟨ms, fs, hg, _⟩ := h.type t
  rw [hg]
  rfl

theorem base (t : TypeId) : (g'.type t).base = (g.type t).base := by
  obtain ⟨ms, fs, hg, _⟩ := h.type t
  rw [hg]
  rfl

theorem flags (t : TypeId) : (g'.type t).flags = (g.type t).flags := by
  obtain ⟨ms, fs, hg, _⟩ := h.type t
  rw [hg]
  rfl

theorem generics (t : TypeId) : (g'.type t).generics = (g.type t).generics := by
  obtain ⟨ms, fs, hg, _⟩ := h.type t
  rw [hg]
  rfl

theorem interfaces (t : TypeId) : (g'.type t).interfaces = (g.type t).interfaces := by
  obtain ⟨ms, fs, hg, _⟩ := h.type t
  rw [hg]
  rfl

theorem enclosing (t : TypeId) : (g'.type t).enclosing = (g.type t).enclosing := by
  obtain ⟨ms, fs, hg, _⟩ := h.type t
  rw [hg]
  rfl

theorem isInterface (t : TypeId) : g'.isInterface t = g.isInterface t := by
  simp only [TypeGraph.isInterface, h.flags]

theorem isAbstract (t : TypeId) : g'.isAbstract t = g.isAbstract t := by
  simp only [TypeGraph.isAbstract, h.flags]

theorem baseName? (t : TypeId) : g'.baseName? t = g.baseName? t := by
  simp only [TypeGraph.baseName?, h.base, h.name]

theorem isValueType (t : TypeId) : g'.isValueType t = g.isValueType t := by
  simp only [TypeGraph.isValueType, TypeGraph.isEnum, h.baseName?, h.name]

theorem isClass (t : TypeId) : g'.isClass t = g.isClass t := by
  simp only [TypeGraph.isClass, h.base, TypeGraph.isEnum, h.baseName?, h.isInterface, h.isValueType]

theorem selfReference (t : TypeId) : g'.selfReference t = g.selfReference t := by
  simp only [TypeGraph.selfReference, h.generics]

theorem genericParameter? (owner : TypeId) (index : UInt16) :
    g'.genericParameter? owner index = g.genericParameter? owner index := by
  simp only [TypeGraph.genericParameter?, h.generics]

theorem isValueTypeRef (type : TypeRef) : g'.isValueTypeRef type = g.isValueTypeRef type := by
  cases type <;> simp only [TypeGraph.isValueTypeRef, h.isValueType, h.genericParameter?]

theorem defaultFor (type : TypeRef) : Value.defaultFor g' type = Value.defaultFor g type := by
  simp only [Value.defaultFor, h.isValueTypeRef]

theorem constraints (type : TypeRef) : g'.constraints type = g.constraints type := by
  cases type <;> simp only [TypeGraph.constraints, h.genericParameter?]

theorem chainWithin (bound : Nat) (t : TypeId) : g'.chainWithin bound t = g.chainWithin bound t := by
  induction bound generalizing t with
  | zero => rfl
  | succ bound ih =>
    simp only [TypeGraph.chainWithin, h.base]
    cases (g.type t).base <;> simp [ih]

theorem baseChain (t : TypeId) : g'.baseChain t = g.baseChain t := by
  simp only [TypeGraph.baseChain, h.types, h.chainWithin]

theorem implementsWithin (interface : TypeId) (bound : Nat) (t : TypeId) :
    g'.implementsWithin interface bound t = g.implementsWithin interface bound t := by
  induction bound generalizing t with
  | zero => rfl
  | succ bound ih => simp only [TypeGraph.implementsWithin, h.interfaces, ih]

theorem isSubtype (t super : TypeId) : g'.isSubtype t super = g.isSubtype t super := by
  simp only [TypeGraph.isSubtype, h.isInterface, h.baseChain, TypeGraph.implements, h.types, h.implementsWithin]

theorem parameterCount : g'.parameterCount = g.parameterCount := by
  have hlists : g'.types.toList.map TypeDecl.generics = g.types.toList.map TypeDecl.generics := by
    apply List.ext_getElem?
    intro k
    simp only [List.getElem?_map, Array.getElem?_toList]
    by_cases hk : k < g.types.size
    · have hg := h.generics ⟨k⟩
      simp only [TypeGraph.type, Array.getD_eq_getD_getElem?] at hg
      rw [Array.getElem?_eq_getElem hk, Array.getElem?_eq_getElem (h.types ▸ hk)] at hg ⊢
      simpa using hg
    · rw [Array.getElem?_eq_none (Nat.le_of_not_lt hk), Array.getElem?_eq_none (by rw [h.types]; omega)]
  simp only [TypeGraph.parameterCount, List.flatMap, hlists]

theorem isAssignableWithin (super : TypeRef) (bound : Nat) (type : TypeRef) :
    g'.isAssignableWithin super bound type = g.isAssignableWithin super bound type := by
  induction bound generalizing type with
  | zero => rfl
  | succ bound ih =>
    simp only [TypeGraph.isAssignableWithin, h.isSubtype, h.constraints, ih]

theorem isAssignable (type super : TypeRef) : g'.isAssignable type super = g.isAssignable type super := by
  simp only [TypeGraph.isAssignable, h.parameterCount, h.isAssignableWithin]

theorem shortName (generics : List GenericParameter) (type : TypeRef) :
    g'.shortName generics type = g.shortName generics type := by
  induction type using TypeRef.rec (motive_2 := fun _ => True) with
  | array element ih => simp only [TypeGraph.shortName, ih]
  | byRef element ih => simp only [TypeGraph.shortName, ih]
  | nil => trivial
  | cons _ _ _ _ => trivial
  | _ => simp only [TypeGraph.shortName, h.name, h.genericParameter?]

theorem hasSignature (m : MethodDecl) (name : String) (parameters : List String) :
    m.hasSignature g' name parameters = m.hasSignature g name parameters := by
  simp only [MethodDecl.hasSignature, MethodDecl.parameterNames, h.shortName]

end

mutual

theorem isOpenGeneric (h : g.Gains g') : ∀ type : TypeRef, g'.isOpenGeneric type = g.isOpenGeneric type
  | .named d => by simp only [TypeGraph.isOpenGeneric, h.generics]
  | .applied _ arguments => by simp only [TypeGraph.isOpenGeneric, anyOpenGeneric h arguments]
  | .array element => by simp only [TypeGraph.isOpenGeneric, isOpenGeneric h element]
  | .byRef element => by simp only [TypeGraph.isOpenGeneric, isOpenGeneric h element]
  | .typeParameter _ _ => by simp only [TypeGraph.isOpenGeneric]
  | .methodParameter _ => by simp only [TypeGraph.isOpenGeneric]

theorem anyOpenGeneric (h : g.Gains g') : ∀ types : List TypeRef, g'.anyOpenGeneric types = g.anyOpenGeneric types
  | [] => by simp only [TypeGraph.anyOpenGeneric]
  | type :: rest => by simp only [TypeGraph.anyOpenGeneric, isOpenGeneric h type, anyOpenGeneric h rest]

end

end Gains

end TypeGraph

end DisposalWeaver
