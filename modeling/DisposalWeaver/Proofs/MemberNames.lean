/-
Names of the members of a woven type.

Weaving adds two fields and up to four methods to a type (`Selection.addedHeadings`), behind those that it declares and in
this order (`weave_members`). The fields and the guard are looked for before a type is woven, so they never repeat a name
(`weave_fieldNames_nodup`). The others are not looked for, or not in all forms: a derived hook repeats the signature of a
static method, and so does a finalizer; the routine repeats whatever is declared with its signature. These are all the
ways in which methods of a woven type come to share a signature (`weave_signatures_nodup`).
-/
import DisposalWeaver.Proofs.PermutedModules

namespace DisposalWeaver

/-! ## Headings -/

/-- what a method is declared as, as far as selection looks at it -/
structure Heading where
  isStatic : Bool
  name : String
  /-- short names of the parameter types -/
  parameters : List String
  deriving DecidableEq, Repr

namespace Heading

/-- what methods of a type are told apart by -/
def signature (h : Heading) : String × List String := (h.name, h.parameters)

/-- heading of an instance method without parameters -/
def plain (name : MemberName) : Heading := ⟨false, name.text, []⟩

end Heading

def MethodDecl.heading (g : TypeGraph) (m : MethodDecl) : Heading := ⟨m.isStatic, m.name.text, m.parameterNames g⟩

namespace TypeGraph

/-- headings of the methods that a type lists -/
def headings (g : TypeGraph) (t : TypeId) : List Heading := (g.type t).methods.map fun m => (g.method m).heading g

/-- signatures of the methods that a type lists -/
def signatures (g : TypeGraph) (t : TypeId) : List (String × List String) := (g.headings t).map Heading.signature

/-- names of the fields that a type lists -/
def fieldNames (g : TypeGraph) (t : TypeId) : List String := (g.type t).fields.map fun f => (g.field f).name.text

section

variable {g G : TypeGraph} {t : TypeId}

theorem Gains.heading (h : g.Gains G) (m : MethodDecl) : m.heading G = m.heading g := by
  simp only [MethodDecl.heading, MethodDecl.parameterNames, h.shortName]

theorem Gains.headings (h : g.Gains G) (hl : g.ListsDeclared) (ht : G.type t = g.type t) : G.headings t = g.headings t := by
  rw [TypeGraph.headings, ht]
  exact List.map_congr_left fun m hm => by rw [h.method m (hl t m hm), h.heading]

theorem Gains.fieldNames (h : g.Gains G) (hf : g.FieldsDeclared) (ht : G.type t = g.type t) :
    G.fieldNames t = g.fieldNames t := by
  rw [TypeGraph.fieldNames, ht]
  exact List.map_congr_left fun f hmem => by rw [h.field f (hf t f hmem)]

theorem hasField_iff {name : String} : g.hasField t name = true ↔ name ∈ g.fieldNames t := by
  simp [hasField, findField?, List.find?_isSome, fieldNames]

theorem hasMethod_iff {name : String} : g.hasMethod t name = true ↔ ∃ h ∈ g.headings t, h.name = name := by
  simp [hasMethod, headings, MethodDecl.heading]

/-- a type may be woven if it declares neither the fields nor a method by the name of the guard -/
theorem collision?_eq_none_iff {settings : Settings} : Selection.collision? g settings t = none ↔
    settings.signaledField.text ∉ g.fieldNames t ∧ settings.disposedField.text ∉ g.fieldNames t ∧
      ∀ h ∈ g.headings t, h.name ≠ settings.guardMethod.text := by
  have hmethod : g.hasMethod t settings.guardMethod.text = false ↔
      ∀ h ∈ g.headings t, h.name ≠ settings.guardMethod.text := by
    rw [← Bool.not_eq_true, hasMethod_iff]
    simp
  unfold Selection.collision?
  rw [← hmethod, ← hasField_iff, ← hasField_iff]
  split_ifs <;> simp_all

theorem declaresFinalizer_iff : ((g.type t).methods.any fun m => (g.method m).isFinalizer g) = true ↔
    .plain MemberName.finalize ∈ g.headings t := by
  simp [headings, MethodDecl.isFinalizer, MethodDecl.hasSignature, MethodDecl.heading, Heading.plain]

/-- a type has a hook if it declares an instance method with its name and without parameters -/
theorem hook?_eq_none_iff {name : MemberName} : Selection.hook? g t name = none ↔ Heading.plain name ∉ g.headings t := by
  simp [Selection.hook?, headings, Heading.plain, MethodDecl.heading, MethodDecl.hasSignature]

theorem fieldNames_addField (g : TypeGraph) (hf : g.FieldsDeclared) (hlt : t.index < g.types.size) {decl : FieldDecl}
    (hd : decl.declaring = t) : (g.addField decl).2.fieldNames t = g.fieldNames t ++ [decl.name.text] := by
  have htype := type_addField g decl t
  rw [if_pos ⟨hd, hlt⟩] at htype
  rw [fieldNames, htype, TypeDecl.withMembers, List.map_append, List.map_singleton, field_addField_new]
  congr 1
  exact List.map_congr_left fun f hmem => by rw [field_addField g decl f (hf t f hmem)]

theorem headings_addField (g : TypeGraph) (decl : FieldDecl) : (g.addField decl).2.headings t = g.headings t := by
  have htype := type_addField g decl t
  rw [headings, htype, TypeDecl.withMembers, List.append_nil]
  exact List.map_congr_left fun m _ => (gains_addField g decl).heading _

theorem headings_addMethod (g : TypeGraph) (hl : g.ListsDeclared) (hlt : t.index < g.types.size) {decl : MethodDecl}
    (hd : decl.declaring = t) (hv : decl.isVirtual = true → decl.name = MemberName.finalize) :
    (g.addMethod decl).2.headings t = g.headings t ++ [decl.heading g] := by
  have htype := type_addMethod g decl t
  have hgains := gains_addMethod g decl hv
  rw [if_pos ⟨hd, hlt⟩] at htype
  rw [headings, htype, TypeDecl.withMembers, List.map_append, List.map_singleton, method_addMethod_new, hgains.heading]
  congr 1
  exact List.map_congr_left fun m hmem => by rw [method_addMethod g decl m (hl t m hmem), hgains.heading]

theorem fieldNames_addMethod (g : TypeGraph) (decl : MethodDecl) : (g.addMethod decl).2.fieldNames t = g.fieldNames t := by
  have htype := type_addMethod g decl t
  rw [fieldNames, htype, TypeDecl.withMembers, List.append_nil]
  rfl

end

end TypeGraph

/-! ## What weaving adds -/

namespace Selection

/-- heading of the hook that is made for the fields of a type -/
def derivedHeadings (g : TypeGraph) (references : References) (settings : Settings) (t : TypeDef) : List Heading :=
  if hook? g t.id settings.managedHook = none ∧ disposedFields g references settings [] t.fields.reverse ≠ [] then
    [.plain settings.managedHook]
  else []

/-- heading of the routine that both ways of disposal share -/
def routineHeading (g : TypeGraph) (references : References) : Heading :=
  ⟨false, MemberName.dispose.text, [(g.type references.boolean).name.simple]⟩

/-- headings of the methods that weaving adds to a type, in order -/
def addedHeadings (g : TypeGraph) (references : References) (settings : Settings) (t : TypeDef) : List Heading :=
  match hook? g t.id settings.unmanagedHook with
  | none => [.plain settings.guardMethod]
  | some _ =>
    let early := derivedHeadings g references settings t ++ [.plain settings.guardMethod] ++ [routineHeading g references]
    if .plain MemberName.finalize ∈ g.headings t.id ++ early then early else early ++ [.plain MemberName.finalize]

end Selection

namespace Selection

/-- headings of all methods that weaving may add to a type -/
def possibleHeadings (g : TypeGraph) (references : References) (settings : Settings) : List Heading :=
  [.plain settings.managedHook, .plain settings.guardMethod, routineHeading g references, .plain MemberName.finalize]

/-- the type declares a signature that weaving adds to it: nothing looks for static methods, nor for the routine -/
inductive Repeats (g : TypeGraph) (references : References) (settings : Settings) (t : TypeDef) : Prop where
  | hook (hunmanaged : hook? g t.id settings.unmanagedHook ≠ none)
    (hfields : disposedFields g references settings [] t.fields.reverse ≠ [])
    (h : ⟨true, settings.managedHook.text, []⟩ ∈ g.headings t.id)
  | routine (hunmanaged : hook? g t.id settings.unmanagedHook ≠ none)
    (h : (routineHeading g references).signature ∈ g.signatures t.id)
  | finalizer (hunmanaged : hook? g t.id settings.unmanagedHook ≠ none)
    (h : ⟨true, MemberName.finalize.text, []⟩ ∈ g.headings t.id)

section

variable {g : TypeGraph} {references : References} {settings : Settings} {t : TypeDef}

theorem derivedHeadings_sublist : (derivedHeadings g references settings t).Sublist [Heading.plain settings.managedHook] := by
  unfold derivedHeadings
  split
  · exact .refl _
  · exact List.nil_sublist _

theorem mem_derivedHeadings_iff {h : Heading} : h ∈ derivedHeadings g references settings t ↔
    h = .plain settings.managedHook ∧ hook? g t.id settings.managedHook = none ∧
      disposedFields g references settings [] t.fields.reverse ≠ [] := by
  unfold derivedHeadings
  split
  · next hneeded => simp [hneeded]
  · next hneeded => simpa using fun _ hnone hfields => hneeded ⟨hnone, hfields⟩

/-- what is added before a finalizer -/
theorem early_sublist : (derivedHeadings g references settings t ++ [Heading.plain settings.guardMethod] ++
    [routineHeading g references]).Sublist
      [Heading.plain settings.managedHook, .plain settings.guardMethod, routineHeading g references] :=
  (derivedHeadings_sublist.append (.refl _)).append (.refl _)

theorem addedHeadings_sublist :
    (addedHeadings g references settings t).Sublist (possibleHeadings g references settings) := by
  unfold addedHeadings
  split
  · exact .cons _ (.cons_cons _ (List.nil_sublist _))
  · simp only
    split
    · exact early_sublist.trans (List.sublist_append_left _ [Heading.plain MemberName.finalize])
    · exact early_sublist.append (.refl [Heading.plain MemberName.finalize])

/-- where there is an unmanaged hook, a routine is added, and a finalizer, unless an instance method is declared as one -/
theorem mem_addedHeadings_iff (hu : hook? g t.id settings.unmanagedHook ≠ none)
    (happart : ((possibleHeadings g references settings).map Heading.signature).Nodup) {h : Heading} :
    h ∈ addedHeadings g references settings t ↔ h ∈ derivedHeadings g references settings t ∨
      h = .plain settings.guardMethod ∨ h = routineHeading g references ∨
      (h = .plain MemberName.finalize ∧ Heading.plain MemberName.finalize ∉ g.headings t.id) := by
  have hearly : Heading.plain MemberName.finalize ∉ derivedHeadings g references settings t ++
      [Heading.plain settings.guardMethod] ++ [routineHeading g references] := by
    intro hmem
    have hsplit : possibleHeadings g references settings = [Heading.plain settings.managedHook,
      .plain settings.guardMethod, routineHeading g references] ++ [.plain MemberName.finalize] := rfl
    rw [hsplit, List.map_append, List.nodup_append] at happart
    exact happart.2.2 _ (List.mem_map_of_mem (early_sublist.subset hmem)) _ List.mem_cons_self rfl
  obtain ⟨u, hu⟩ := Option.ne_none_iff_exists'.1 hu
  unfold addedHeadings
  rw [hu]
  simp only [List.mem_append (t := derivedHeadings g references settings t ++ [Heading.plain settings.guardMethod] ++
      [routineHeading g references]), hearly, or_false]
  split
  · next hdeclared =>
    simp [hdeclared]
  · next hdeclared =>
    simp [hdeclared]

/-- of a signature that is declared once, either the static form is declared or the other -/
theorem static_iff (hn : (g.signatures t.id).Nodup) {name : MemberName} :
    (⟨true, name.text, []⟩ : Heading) ∈ g.headings t.id ↔
      (Heading.plain name).signature ∈ g.signatures t.id ∧ Heading.plain name ∉ g.headings t.id := by
  constructor
  · intro h
    refine ⟨List.mem_map.2 ⟨_, h, rfl⟩, fun hplain => ?_⟩
    have hsame := List.inj_on_of_nodup_map hn h hplain rfl
    cases hsame
  · rintro ⟨hmem, hplain⟩
    obtain ⟨⟨isStatic, name', parameters⟩, h, heq⟩ := List.mem_map.1 hmem
    cases heq
    cases isStatic with
    | true => exact h
    | false => exact absurd h hplain

/-- signatures that are added are apart from those that are declared, unless one is repeated -/
theorem apart_iff (hn : (g.signatures t.id).Nodup) (hc : collision? g settings t.id = none)
    (happart : ((possibleHeadings g references settings).map Heading.signature).Nodup) :
    (∀ h ∈ addedHeadings g references settings t, h.signature ∉ g.signatures t.id) ↔
      ¬ Repeats g references settings t := by
  obtain ⟨-, -, hguard⟩ := TypeGraph.collision?_eq_none_iff.1 hc
  have hguardApart : (Heading.plain settings.guardMethod).signature ∉ g.signatures t.id := by
    intro hmem
    obtain ⟨h, hh, heq⟩ := List.mem_map.1 hmem
    exact hguard h hh (congrArg Prod.fst heq)
  cases hu : hook? g t.id settings.unmanagedHook with
  | none =>
    have hadded : addedHeadings g references settings t = [.plain settings.guardMethod] := by rw [addedHeadings, hu]
    rw [hadded]
    refine ⟨fun _ hrepeats => ?_, fun _ h hh => by rwa [List.mem_singleton.1 hh]⟩
    cases hrepeats with
    | hook hunmanaged | routine hunmanaged | finalizer hunmanaged => exact hunmanaged hu
  | some u =>
    have hne : hook? g t.id settings.unmanagedHook ≠ none := by
      rw [hu]
      exact Option.some_ne_none u
    constructor
    · intro happarts hrepeats
      cases hrepeats with
      | hook _ hfields h =>
        obtain ⟨hmem, hplain⟩ := (static_iff hn).1 h
        have hderived := mem_derivedHeadings_iff.2 ⟨rfl, TypeGraph.hook?_eq_none_iff.2 hplain, hfields⟩
        exact happarts _ ((mem_addedHeadings_iff hne happart).2 (.inl hderived)) hmem
      | routine _ h => exact happarts _ ((mem_addedHeadings_iff hne happart).2 (.inr (.inr (.inl rfl)))) h
      | finalizer _ h =>
        obtain ⟨hmem, hplain⟩ := (static_iff hn).1 h
        exact happarts _ ((mem_addedHeadings_iff hne happart).2 (.inr (.inr (.inr ⟨rfl, hplain⟩)))) hmem
    · intro hrepeats h hadded hmem
      rcases (mem_addedHeadings_iff hne happart).1 hadded with hderived | rfl | rfl | ⟨rfl, hplain⟩
      · obtain ⟨rfl, hnone, hfields⟩ := mem_derivedHeadings_iff.1 hderived
        exact hrepeats (.hook hne hfields ((static_iff hn).2 ⟨hmem, TypeGraph.hook?_eq_none_iff.1 hnone⟩))
      · exact hguardApart hmem
      · exact hrepeats (.routine hne hmem)
      · exact hrepeats (.finalizer hne ((static_iff hn).2 ⟨hmem, hplain⟩))

end

end Selection

/-! ## Step by step -/

/-- from the first loom on, the type has got fields of these names and methods with these headings -/
structure Loom.Names (L : Loom) (names : List String) (headings : List Heading) (L' : Loom) : Prop where
  id : L'.target.id = L.target.id
  methods : ∀ m ∈ L.target.methods.map MethodDef.id, m ∈ L'.target.methods.map MethodDef.id
  grown : L.graph.GrownFrom L'.graph
  gains : L.graph.Gains L'.graph
  fieldNames : L'.graph.fieldNames L.target.id = L.graph.fieldNames L.target.id ++ names
  headings : L'.graph.headings L.target.id = L.graph.headings L.target.id ++ headings

namespace Loom.Names

variable {pattern : Pattern} {L L' : Loom} {names : List String} {headings : List Heading}

theorem start (L : Loom) : L.Names [] [] L := ⟨rfl, fun _ h => h, .refl, .refl _, by simp, by simp⟩

theorem notice (h : L.Names names headings L') (diagnostics : Diagnostics) :
    L.Names names headings { L' with diagnostics } :=
  ⟨h.id, h.methods, h.grown, h.gains, h.fieldNames, h.headings⟩

theorem reports (h : L.Names names headings L') (pattern : Pattern) (excluded : List FieldId) :
    L.Names names headings (Weave.withReports pattern excluded L') := h.notice _

theorem update (h : L.Names names headings L') (m : MethodId) {change : MethodDef → MethodDef}
    (hchange : ∀ d, (change d).id = d.id) :
    L.Names names headings { L' with target := L'.target.updateMethod m change } where
  id := (TypeDef.id_updateMethod _ _).trans h.id
  methods m' hm' := by
    rw [TypeDef.ids_updateMethod L'.target m hchange]
    exact h.methods m' hm'
  grown := h.grown
  gains := h.gains
  fieldNames := h.fieldNames
  headings := h.headings

theorem body (h : L.Names names headings L') (m : MethodId) (body : Body) : L.Names names headings (L'.withBody m body) :=
  h.update m fun _ => rfl

theorem guards (h : L.Names names headings L') (guard : MethodRef) (targets : List MethodId) :
    L.Names names headings
      { L' with target := targets.foldl (fun t m => t.updateMethod m (Weave.addGuard guard)) L'.target } := by
  induction targets generalizing L' with
  | nil => exact h
  | cons m rest ih =>
    have hfirst : L.Names names headings { L' with target := L'.target.updateMethod m (Weave.addGuard guard) } :=
      h.update m fun _ => rfl
    exact ih hfirst

section Members

variable (hlt : L.target.id.index < L.graph.types.size)

include hlt

theorem field (h : L.Names names headings L') (hf : L.graph.FieldsDeclared) (decl : FieldDecl)
    (hd : decl.declaring = L.target.id) : L.Names (names ++ [decl.name.text]) headings (L'.withField decl) where
  id := h.id
  methods := h.methods
  grown := h.grown.trans (.field .refl decl)
  gains := h.gains.trans (TypeGraph.gains_addField _ decl)
  fieldNames := by
    have hnames := TypeGraph.fieldNames_addField L'.graph (h.grown.fieldsDeclared hf) (h.gains.types ▸ hlt) hd
    rw [h.fieldNames, List.append_assoc] at hnames
    exact hnames
  headings := (TypeGraph.headings_addField L'.graph decl).trans h.headings

theorem method (h : L.Names names headings L') (hl : L.graph.ListsDeclared) {decl : MethodDecl}
    (hd : Introduces pattern L.target.id decl) (body : Body) :
    L.Names names (headings ++ [decl.heading L.graph]) (L'.withMethod decl body) where
  id := h.id
  methods m hm := by
    rw [Loom.withMethod, List.map_append]
    exact List.mem_append_left _ (h.methods m hm)
  grown := h.grown.trans (.method .refl decl)
  gains := h.gains.trans (TypeGraph.gains_addMethod _ decl hd.virtual)
  fieldNames := (TypeGraph.fieldNames_addMethod L'.graph decl).trans h.fieldNames
  headings := by
    have hheadings := TypeGraph.headings_addMethod L'.graph (h.grown.listsDeclared hl) (h.gains.types ▸ hlt) hd.declaring
      hd.virtual
    rw [h.headings, List.append_assoc, h.gains.heading] at hheadings
    exact hheadings

end Members

end Loom.Names

section Weaving

variable {pattern : Pattern} {L L' : Loom} {names : List String} {headings : List Heading}

theorem heading_privateMethod (g : TypeGraph) (t : TypeId) (name : MemberName) :
    (Weave.privateMethod t name []).heading g = .plain name := by
  have hstatic : (Weave.privateMethod t name []).isStatic = false := by
    change MethodFlags.ofPrivate.isStatic = false
    decide +kernel
  rw [MethodDecl.heading, hstatic]
  rfl

theorem heading_routine (g : TypeGraph) (t : TypeId) (references : References) (disposing : MemberName) :
    (Weave.privateMethod t MemberName.dispose [{ name := disposing, type := .named references.boolean }]).heading g =
      Selection.routineHeading g references := by
  have hstatic : (Weave.privateMethod t MemberName.dispose
      [{ name := disposing, type := .named references.boolean }]).isStatic = false := by
    change MethodFlags.ofPrivate.isStatic = false
    decide +kernel
  rw [MethodDecl.heading, hstatic]
  rfl

theorem heading_finalizer (g : TypeGraph) (t : TypeId) :
    ({ declaring := t, name := MemberName.finalize, flags := MethodFlags.ofFinalizer } : MethodDecl).heading g =
      .plain MemberName.finalize := by
  have hstatic : MethodFlags.ofFinalizer.isStatic = false := by decide +kernel
  rw [MethodDecl.heading, MethodDecl.isStatic, hstatic]
  rfl

/-- what the lemmas about steps rely on -/
structure Loom.Placed (pattern : Pattern) (L : Loom) : Prop where
  type : L.target.id.index < L.graph.types.size
  lists : L.graph.ListsDeclared
  fields : L.graph.FieldsDeclared
  exchange : (L.graph.method pattern.references.exchangeReference).generics.length = 1

variable (hL : L.Placed pattern)

include hL

/-- the managed hook that a type has or gets -/
theorem supplyHook_names : ∃ hook LD, Weave.supplyHook pattern L L = .ok hook LD ∧
    L.Names [] (if Selection.hook? L.graph L.target.id pattern.settings.unmanagedHook = none then []
      else Selection.derivedHeadings L.graph pattern.references pattern.settings L.target) LD := by
  have hstart := Loom.Names.start L
  unfold Weave.supplyHook Selection.derivedHeadings
  cases hm : Selection.hook? L.graph L.target.id pattern.settings.managedHook with
  | some m => exact ⟨some m, L, rfl, by simpa using hstart⟩
  | none =>
    cases hu : Selection.hook? L.graph L.target.id pattern.settings.unmanagedHook with
    | none => exact ⟨none, L, rfl, by simpa using hstart⟩
    | some u =>
      have h := Weave.deriveManagedHook_eq (L := L) fun _ => hL.exchange
      split at h
      · next hfields => exact ⟨_, _, h, by simpa [hfields] using hstart.reports pattern []⟩
      · next hfields =>
        have hhook := (hstart.reports pattern []).method hL.type hL.lists
          (.hook : Introduces pattern L.target.id _) (Emission.derivedHook L.graph pattern.references
            (Selection.disposedFields L.graph pattern.references pattern.settings [] L.target.fields.reverse))
        rw [heading_privateMethod] at hhook
        exact ⟨_, _, h, by simpa [hfields] using hhook⟩

/-- the state that a type gets -/
theorem withState_names (h : L.Names [] headings L') :
    L.Names [pattern.settings.signaledField.text, pattern.settings.disposedField.text]
      (headings ++ [.plain pattern.settings.guardMethod]) (Weave.withState pattern L') := by
  have hsignaled := h.field hL.type hL.fields
    (Weave.stateField L'.target.id pattern.settings.signaledField pattern.references.int32) h.id
  have hfields := hsignaled.field hL.type hL.fields
    (Weave.stateField L'.target.id pattern.settings.disposedField pattern.references.boolean) h.id
  have hguard : Introduces pattern L.target.id (Weave.privateMethod L'.target.id pattern.settings.guardMethod []) := by
    rw [h.id]
    exact .guard
  have hstate := hfields.method hL.type hL.lists hguard (Emission.guard (Weave.withFields pattern L').graph
    pattern.references L'.target.id ⟨L'.graph.fields.size + 1⟩)
  rw [heading_privateMethod] at hstate
  exact hstate

/-- the routine that both ways of disposal share, and a finalizer, if none is declared -/
theorem synthesizeUnmanaged_names (h : L.Names names headings L') (hentry : pattern.entry ∈ L.target.methods.map MethodDef.id)
    (state : WovenState) (managed : Option MethodId) (unmanaged : MethodId) : ∃ LZ,
      Weave.synthesize pattern state (Shape.ofHooks managed (some unmanaged)) L' = .ok () LZ ∧
      L.Names names (headings ++ [Selection.routineHeading L.graph pattern.references] ++
        if .plain MemberName.finalize ∈ L.graph.headings L.target.id ++ (headings ++
          [Selection.routineHeading L.graph pattern.references]) then [] else [.plain MemberName.finalize]) LZ := by
  have hsynthesize := Weave.synthesizeUnmanaged_eq (h.methods _ hentry) state managed unmanaged
  have hintroduces : Introduces pattern L.target.id (Weave.privateMethod L'.target.id MemberName.dispose
      [{ name := pattern.settings.disposingParameter, type := .named pattern.references.boolean }]) := by
    rw [h.id]
    exact .routine
  have hroutine := (h.method hL.type hL.lists hintroduces (Emission.routine L'.graph pattern.references state managed
    unmanaged)).body pattern.entry (Emission.entryThroughRoutine (L'.withMethod (Weave.privateMethod L'.target.id
      MemberName.dispose [{ name := pattern.settings.disposingParameter, type := .named pattern.references.boolean }])
        (Emission.routine L'.graph pattern.references state managed unmanaged)).graph pattern.references
          ⟨L'.graph.methods.size⟩)
  rw [heading_routine] at hroutine
  refine ⟨_, hsynthesize, ?_⟩
  change L.Names names _ (Weave.withRoutine pattern state managed unmanaged L') at hroutine
  have hdeclares := @TypeGraph.declaresFinalizer_iff (Weave.withRoutine pattern state managed unmanaged L').graph
    (Weave.withRoutine pattern state managed unmanaged L').target.id
  rw [hroutine.id, hroutine.headings] at hdeclares
  unfold Weave.withFinalizer
  by_cases hfinalizer : Heading.plain MemberName.finalize ∈ L.graph.headings L.target.id ++
      (headings ++ [Selection.routineHeading L.graph pattern.references])
  · rw [hroutine.id, if_pos (hdeclares.2 hfinalizer), if_pos hfinalizer, List.append_nil]
    exact hroutine.notice _
  · rw [hroutine.id, if_neg (mt hdeclares.1 hfinalizer), if_neg hfinalizer]
    have hlast := hroutine.method hL.type hL.lists (.finalizer : Introduces pattern L.target.id _) (Emission.finalizer
      (Weave.withRoutine pattern state managed unmanaged L').graph pattern.references ⟨L'.graph.methods.size⟩)
    rw [heading_finalizer] at hlast
    exact hlast

/-- the entry point is rewritten without new methods -/
theorem synthesize_names (h : L.Names names headings L') (hentry : pattern.entry ∈ L.target.methods.map MethodDef.id)
    (state : WovenState) (managed : Option MethodId) : ∃ LZ,
      Weave.synthesize pattern state (Shape.ofHooks managed none) L' = .ok () LZ ∧ L.Names names headings LZ := by
  cases managed with
  | none =>
    exact ⟨_, Weave.synthesizeSimple_eq (fun _ => exchange_gains h.gains hL.exchange) (h.methods _ hentry),
      (h.reports pattern [state.signaled, state.disposed]).body _ _⟩
  | some m => exact ⟨_, Weave.synthesizeManaged_eq (h.methods _ hentry) state m, h.body _ _⟩

/-- **Weaving a type adds members of these names**, and no others. -/
theorem weaveType_names (hentry : pattern.entry ∈ L.target.methods.map MethodDef.id)
    (hc : Selection.collision? L.graph pattern.settings L.target.id = none) : ∃ shape L',
      Weave.weaveType pattern L = .ok (some shape) L' ∧
      L.Names [pattern.settings.signaledField.text, pattern.settings.disposedField.text]
        (Selection.addedHeadings L.graph pattern.references pattern.settings L.target) L' := by
  obtain ⟨hook, LD, hsupply, hnames⟩ := supplyHook_names hL
  have hstate := withState_names hL hnames
  have hrun : ∀ {LZ names headings}, Weave.synthesize pattern (Weave.nextState LD.graph) (Shape.ofHooks hook
      (Selection.hook? L.graph L.target.id pattern.settings.unmanagedHook)) (Weave.withState pattern LD) = .ok () LZ →
      L.Names names headings LZ → ∃ shape L', Weave.weaveType pattern L = .ok (some shape) L' ∧
        L.Names names headings L' := by
    intro LZ names headings hsynthesize hwoven
    refine ⟨Shape.ofHooks hook (Selection.hook? L.graph L.target.id pattern.settings.unmanagedHook), _, ?_,
      hwoven.guards (MethodRef.onSelf LZ.graph (Weave.nextState LD.graph).guard)
        ((LZ.target.methods.filter (Weave.needsGuard pattern LZ)).map MethodDef.id)⟩
    rw [Weave.weaveType_eq hc]
    simp only [bind, EStateM.bind, hsupply, Weave.createState_eq, hsynthesize, Weave.injectGuards_eq]
    rfl
  unfold Selection.addedHeadings
  cases hu : Selection.hook? L.graph L.target.id pattern.settings.unmanagedHook with
  | none =>
    rw [hu, if_pos rfl, List.nil_append] at hstate
    obtain ⟨LZ, hsynthesize, hwoven⟩ := synthesize_names hL hstate hentry (Weave.nextState LD.graph) hook
    exact hrun (hu ▸ hsynthesize) hwoven
  | some u =>
    rw [hu, if_neg (Option.some_ne_none u)] at hstate
    obtain ⟨LZ, hsynthesize, hwoven⟩ :=
      synthesizeUnmanaged_names hL hstate hentry (Weave.nextState LD.graph) hook u
    refine hrun (hu ▸ hsynthesize) ?_
    simp only
    split
    · next hdeclared =>
      rw [if_pos hdeclared, List.append_nil] at hwoven
      exact hwoven
    · next hdeclared =>
      rw [if_neg hdeclared] at hwoven
      exact hwoven

end Weaving

/-! ## Sessions -/

namespace Session

variable {context : Context} {g h G : TypeGraph} {t : TypeDef} {entry : MethodId}

/-- names in the turn of a type that is alone -/
theorem loomAlone_names (hc : context.Fits g) (ht : t.id.index < g.types.size) (hv : verdict g context t = .woven entry) :
    (loomAlone context g t).graph.fieldNames t.id =
        g.fieldNames t.id ++ [context.settings.signaledField.text, context.settings.disposedField.text] ∧
      (loomAlone context g t).graph.headings t.id =
        g.headings t.id ++ Selection.addedHeadings g context.references context.settings t := by
  obtain ⟨hentry, hcollision⟩ := verdict_woven hv
  have hplaced : Loom.Placed (context.pattern entry) { graph := g, target := t, diagnostics := {} } :=
    ⟨ht, hc.lists, hc.fields, hc.exchange⟩
  obtain ⟨shape, L', hok, hnames⟩ := weaveType_names hplaced hentry hcollision
  have hturn := @weaveDefinition_weaves context { graph := g, target := t, diagnostics := {} } entry hv shape L' hok
  unfold loomAlone
  rw [hturn]
  exact ⟨hnames.fieldNames, hnames.headings⟩

/-- a type keeps the names that its members had in its turn -/
theorem Seat.names (hs : Seat context g h G t) (hG : g.Gains G) (halone : SelfContained context g t) :
    G.fieldNames t.id = (loomAlone context g t).graph.fieldNames t.id ∧
      G.headings t.id = (loomAlone context g t).graph.headings t.id := by
  rw [TypeGraph.fieldNames, TypeGraph.headings, hs.type, TypeDecl.renumber, List.map_map, List.map_map]
  constructor
  · exact List.map_congr_left fun f hf => by rw [Function.comp_apply, (hs.field f (halone.listed.fields f hf)).2]
  · refine List.map_congr_left fun m hm => ?_
    rw [Function.comp_apply, (hs.method m (halone.listed.methods m hm)).2, hG.heading, halone.gains.heading]

end Session

section Sessions

variable {g : TypeGraph} {settings : Settings} {module : Module} {diagnostics : Diagnostics} {report : Report}
  {session : Session}

/-- **What a session adds to a type**: two fields and the methods that were foretold, behind what the type declares. -/
theorem weave_members (hg : Platform.alone.2.GrownFrom g) (hm : module.Within g)
    (hw : Session.weave settings { graph := g, module, diagnostics } = .ok report session) :
    (∀ T ∈ report.woven.map Prod.fst, ∃ t ∈ module.types, t.id = T ∧
      Selection.collision? g settings t.id = none ∧
      session.graph.fieldNames t.id =
        g.fieldNames t.id ++ [settings.signaledField.text, settings.disposedField.text] ∧
      session.graph.headings t.id =
        g.headings t.id ++ Selection.addedHeadings g Platform.alone.1.references settings t) ∧
    ∀ T, T ∉ report.woven.map Prod.fst → session.graph.fieldNames T = g.fieldNames T ∧
      session.graph.headings T = g.headings T := by
  have hdeclared : module.Declared g := ⟨hm.once, fun t ht => (hm.types t ht).toDeclared⟩
  obtain ⟨found, G, hseated, hs⟩ := weave_seated hg hm (.refl _) settings diagnostics
  obtain ⟨G', types, report', noted, hran', hran⟩ := Session.weave_ran hg hdeclared settings diagnostics
  obtain ⟨-, hsession⟩ := EStateM.Result.ok.inj (hw.symm.trans hseated)
  obtain ⟨rfl, rfl⟩ := EStateM.Result.ok.inj (hw.symm.trans hran')
  obtain rfl : G' = G := congrArg Session.graph hsession
  have hc := Session.Context.Fits.ofPlatform hg settings module
  constructor
  · intro T hT
    rw [hran.follows.woven] at hT
    obtain ⟨t, hmem, rfl⟩ := List.mem_map.1 hT
    obtain ⟨ht, hreport⟩ := List.mem_filter.1 hmem
    refine ⟨t, ht, rfl, ?_⟩
    cases hv : Session.verdict g (.ofPlatform settings module) t with
    | woven entry =>
      obtain ⟨hfields, hheadings⟩ := (hs.seats t ht).names hs.gains (Session.selfContained hc (hm.types t ht))
      obtain ⟨hfields', hheadings'⟩ := Session.loomAlone_names hc (hm.types t ht).id hv
      exact ⟨(Session.verdict_woven hv).2, hfields.trans hfields', hheadings.trans hheadings'⟩
    | _ => rw [hv] at hreport; cases hreport
  · intro T hT
    have hsame := hran.others T hT
    exact ⟨hs.gains.fieldNames hc.fields hsame, hs.gains.headings hc.lists hsame⟩

/-- **Fields of a type never come to share a name**, whatever is woven. -/
theorem weave_fieldNames_nodup (hg : Platform.alone.2.GrownFrom g) (hm : module.Within g)
    (hw : Session.weave settings { graph := g, module, diagnostics } = .ok report session)
    (happart : settings.signaledField.text ≠ settings.disposedField.text) {T : TypeId} (hn : (g.fieldNames T).Nodup) :
    (session.graph.fieldNames T).Nodup := by
  obtain ⟨hwoven, hothers⟩ := weave_members hg hm hw
  by_cases hT : T ∈ report.woven.map Prod.fst
  · obtain ⟨t, -, rfl, hcollision, hnames, -⟩ := hwoven T hT
    obtain ⟨hsignaled, hdisposed, -⟩ := TypeGraph.collision?_eq_none_iff.1 hcollision
    rw [hnames, List.nodup_append]
    refine ⟨hn, by simp [happart], fun name hname added hadded heq => ?_⟩
    subst heq
    simp only [List.mem_cons, List.not_mem_nil, or_false] at hadded
    rcases hadded with rfl | rfl
    · exact hsignaled hname
    · exact hdisposed hname
  · rw [(hothers T hT).1]
    exact hn

/-- **When methods of a type come to share a signature**: a type whose methods had different signatures has so after the
session, unless it is woven and declares a signature that weaving adds. -/
theorem weave_signatures_nodup (hg : Platform.alone.2.GrownFrom g) (hm : module.Within g)
    (hw : Session.weave settings { graph := g, module, diagnostics } = .ok report session)
    (happart : ((Selection.possibleHeadings g Platform.alone.1.references settings).map Heading.signature).Nodup)
    {T : TypeId} (hn : (g.signatures T).Nodup) :
    (session.graph.signatures T).Nodup ↔ ∀ t ∈ module.types, t.id = T → T ∈ report.woven.map Prod.fst →
      ¬ Selection.Repeats g Platform.alone.1.references settings t := by
  obtain ⟨hwoven, hothers⟩ := weave_members hg hm hw
  by_cases hT : T ∈ report.woven.map Prod.fst
  · obtain ⟨t, ht, rfl, hcollision, -, hheadings⟩ := hwoven T hT
    have hadded : ((Selection.addedHeadings g Platform.alone.1.references settings t).map Heading.signature).Nodup :=
      happart.sublist (Selection.addedHeadings_sublist.map _)
    rw [TypeGraph.signatures, hheadings, List.map_append, List.nodup_append]
    have honly : (∀ u ∈ module.types, u.id = t.id → t.id ∈ report.woven.map Prod.fst →
        ¬ Selection.Repeats g Platform.alone.1.references settings u) ↔
          ¬ Selection.Repeats g Platform.alone.1.references settings t := by
      refine ⟨fun h => h t ht rfl hT, fun h u hu hid _ => ?_⟩
      rwa [List.inj_on_of_nodup_map hm.once hu ht hid]
    rw [honly, ← Selection.apart_iff hn hcollision happart]
    constructor
    · intro hnodup h hh hmem
      exact hnodup.2.2 _ hmem _ (List.mem_map_of_mem hh) rfl
    · intro h
      refine ⟨hn, hadded, fun signature hmem added hadded heq => ?_⟩
      obtain ⟨heading, hh, rfl⟩ := List.mem_map.1 hadded
      exact h heading hh (heq ▸ hmem)
  · rw [TypeGraph.signatures, (hothers T hT).2]
    exact ⟨fun _ t _ _ hmem => absurd hmem hT, fun _ => hn⟩

/-- a static method is not taken for the hook, so the hook that is made for the stream repeats its signature -/
example :
    let g := (Specimen.graph.addMethod
      { declaring := Specimen.resource, name := ⟨"DisposeManaged"⟩, flags := MethodFlags.static }).2
    (g.signatures Specimen.resource).Nodup ∧
      (match Session.weave {} { graph := g, module := Specimen.module } with
        | .ok _ session => decide (session.graph.signatures Specimen.resource).Nodup
        | .error _ _ => true) = false := by
  decide +kernel

end Sessions

/-- names of the disposal contract are apart, so sessions with the default settings come under both theorems -/
theorem possibleHeadings_apart {g : TypeGraph} (hg : Platform.alone.2.GrownFrom g) :
    ((Selection.possibleHeadings g Platform.alone.1.references {}).map Heading.signature).Nodup := by
  have hname : (g.type Platform.alone.1.references.boolean).name =
      (Platform.alone.2.type Platform.alone.1.references.boolean).name :=
    hg.grows.name _ (by decide +kernel)
  unfold Selection.possibleHeadings Selection.routineHeading
  rw [hname]
  decide +kernel

end DisposalWeaver
