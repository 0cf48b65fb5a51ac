/-
Members in other places.

A member is known by its place in the graph, so what is declared in another order has other places. A `Renumbering` gives
every method and every field another place, and so acts on all that refers to members: operands, code, definitions and
shapes. Only the places of members that are referred to matter: renumberings that agree on the members of a graph act
alike on whatever names members of that graph only (`TypeDef.renumber_congr`, `Shape.renumber_congr`), and one that
leaves those members in place changes nothing (`TypeDef.renumber_self`).
-/
import Mathlib.Logic.Embedding.Basic
import DisposalWeaver.Proofs.SessionReport

namespace DisposalWeaver

/-! ## Renumberings -/

/-- other places for methods and fields; what is apart stays apart -/
structure Renumbering where
  methods : ℕ ↪ ℕ
  fields : ℕ ↪ ℕ

namespace Renumbering

variable {ρ σ : Renumbering} {g h : TypeGraph}

def method (ρ : Renumbering) (m : MethodId) : MethodId := ⟨ρ.methods m.index⟩
def field (ρ : Renumbering) (f : FieldId) : FieldId := ⟨ρ.fields f.index⟩

theorem method_injective (ρ : Renumbering) : Function.Injective ρ.method := by
  rintro ⟨k⟩ ⟨l⟩ heq
  exact congrArg MethodId.mk (ρ.methods.injective (congrArg MethodId.index heq))

theorem field_injective (ρ : Renumbering) : Function.Injective ρ.field := by
  rintro ⟨k⟩ ⟨l⟩ heq
  exact congrArg FieldId.mk (ρ.fields.injective (congrArg FieldId.index heq))

/-- everything in its place -/
def refl : Renumbering := ⟨.refl ℕ, .refl ℕ⟩

/-- one renumbering after another -/
def trans (ρ σ : Renumbering) : Renumbering := ⟨ρ.methods.trans σ.methods, ρ.fields.trans σ.fields⟩

@[simp] theorem method_refl (m : MethodId) : refl.method m = m := rfl
@[simp] theorem field_refl (f : FieldId) : refl.field f = f := rfl
@[simp] theorem method_trans (m : MethodId) : (ρ.trans σ).method m = σ.method (ρ.method m) := rfl
@[simp] theorem field_trans (f : FieldId) : (ρ.trans σ).field f = σ.field (ρ.field f) := rfl

/-- the two give the members of the graph the same places -/
structure Agree (g : TypeGraph) (ρ σ : Renumbering) : Prop where
  method : ∀ m : MethodId, m.index < g.methods.size → ρ.method m = σ.method m
  field : ∀ f : FieldId, f.index < g.fields.size → ρ.field f = σ.field f

/-- the members of the graph stay in their places -/
def Fixes (ρ : Renumbering) (g : TypeGraph) : Prop := Agree g ρ .refl

/-- numbers from `first` on are moved up -/
def shift (first offset : ℕ) : ℕ ↪ ℕ where
  toFun k := if k < first then k else k + offset
  inj' := by
    intro k l heq
    simp only at heq
    split_ifs at heq <;> omega

theorem shift_below {first offset k : ℕ} (hk : k < first) : shift first offset k = k := if_pos hk

theorem shift_above (first offset k : ℕ) : shift first offset (first + k) = first + k + offset :=
  if_neg (Nat.not_lt.2 (Nat.le_add_right first k))

/-- the members that the first graph would declare next become those that the second would declare next -/
def between (g h : TypeGraph) : Renumbering where
  methods := shift g.methods.size (h.methods.size - g.methods.size)
  fields := shift g.fields.size (h.fields.size - g.fields.size)

theorem between_fixes (g h : TypeGraph) : (between g h).Fixes g where
  method _ hm := congrArg MethodId.mk (shift_below hm)
  field _ hf := congrArg FieldId.mk (shift_below hf)

theorem between_method (hle : g.methods.size ≤ h.methods.size) {k : ℕ} (hk : g.methods.size ≤ k) :
    (between g h).method ⟨k⟩ = ⟨k - g.methods.size + h.methods.size⟩ := by
  refine congrArg MethodId.mk ((if_neg (Nat.not_lt.2 hk)).trans ?_)
  change k + (h.methods.size - g.methods.size) = _
  omega

theorem between_field (hle : g.fields.size ≤ h.fields.size) {k : ℕ} (hk : g.fields.size ≤ k) :
    (between g h).field ⟨k⟩ = ⟨k - g.fields.size + h.fields.size⟩ := by
  refine congrArg FieldId.mk ((if_neg (Nat.not_lt.2 hk)).trans ?_)
  change k + (h.fields.size - g.fields.size) = _
  omega

end Renumbering

/-! ## What refers to members -/

def MethodRef.renumber (ρ : Renumbering) (r : MethodRef) : MethodRef := { r with method := ρ.method r.method }

def FieldRef.renumber (ρ : Renumbering) (r : FieldRef) : FieldRef := { r with field := ρ.field r.field }

def Instruction.renumber (ρ : Renumbering) : Instruction → Instruction
  | .ldfld f => .ldfld (f.renumber ρ)
  | .ldflda f => .ldflda (f.renumber ρ)
  | .stfld f => .stfld (f.renumber ρ)
  | .ldsfld f => .ldsfld (f.renumber ρ)
  | .stsfld f => .stsfld (f.renumber ρ)
  | .call m => .call (m.renumber ρ)
  | .callvirt m => .callvirt (m.renumber ρ)
  | .newobj m => .newobj (m.renumber ρ)
  | i => i

/-- the body with other operands; handles, locals, handlers and sequence points stay -/
def Body.renumber (ρ : Renumbering) (body : Body) : Body :=
  { body with slots := body.slots.map fun slot => { slot with instruction := slot.instruction.renumber ρ } }

def FieldDef.renumber (ρ : Renumbering) (f : FieldDef) : FieldDef := { f with id := ρ.field f.id }

def MethodDef.renumber (ρ : Renumbering) (m : MethodDef) : MethodDef :=
  { m with id := ρ.method m.id, body := m.body.map (Body.renumber ρ) }

def TypeDef.renumber (ρ : Renumbering) (t : TypeDef) : TypeDef :=
  { t with fields := t.fields.map (FieldDef.renumber ρ), methods := t.methods.map (MethodDef.renumber ρ) }

def TypeDecl.renumber (ρ : Renumbering) (t : TypeDecl) : TypeDecl :=
  { t with methods := t.methods.map ρ.method, fields := t.fields.map ρ.field }

def Shape.renumber (ρ : Renumbering) : Shape → Shape
  | simple => simple
  | managedOnly m => managedOnly (ρ.method m)
  | unmanagedOnly u => unmanagedOnly (ρ.method u)
  | managedAndUnmanaged m u => managedAndUnmanaged (ρ.method m) (ρ.method u)

def Outcome.renumber (ρ : Renumbering) : Outcome → Outcome
  | woven shape => woven (shape.renumber ρ)
  | outcome => outcome

/-! ## Two renumberings, one after the other -/

section Trans

variable {ρ σ : Renumbering}

@[simp] theorem Instruction.renumber_renumber (i : Instruction) :
    (i.renumber ρ).renumber σ = i.renumber (ρ.trans σ) := by
  cases i <;> rfl

@[simp] theorem Body.renumber_renumber (body : Body) : (body.renumber ρ).renumber σ = body.renumber (ρ.trans σ) := by
  simp [Body.renumber, Function.comp_def]

@[simp] theorem MethodDef.renumber_renumber (d : MethodDef) :
    (d.renumber ρ).renumber σ = d.renumber (ρ.trans σ) := by
  simp [MethodDef.renumber, Function.comp_def]

@[simp] theorem TypeDef.renumber_renumber (t : TypeDef) : (t.renumber ρ).renumber σ = t.renumber (ρ.trans σ) := by
  simp [TypeDef.renumber, FieldDef.renumber, Function.comp_def]

@[simp] theorem TypeDecl.renumber_renumber (t : TypeDecl) : (t.renumber ρ).renumber σ = t.renumber (ρ.trans σ) := by
  simp [TypeDecl.renumber, Function.comp_def]

@[simp] theorem Shape.renumber_renumber (shape : Shape) :
    (shape.renumber ρ).renumber σ = shape.renumber (ρ.trans σ) := by
  cases shape <;> rfl

end Trans

/-! ## What names declared members only -/

/-- the members that the definition defines and those that its code names are declared -/
structure TypeDef.Within (g : TypeGraph) (t : TypeDef) : Prop extends TypeDef.Declared g t where
  fields : ∀ f ∈ t.fields, f.id.index < g.fields.size

/-- the hooks of the shape are declared -/
structure Shape.Within (g : TypeGraph) (shape : Shape) : Prop where
  managed : ∀ m, shape.managed? = some m → m.index < g.methods.size
  unmanaged : ∀ u, shape.unmanaged? = some u → u.index < g.methods.size

/-- the members that the type lists are declared -/
structure TypeDecl.Within (g : TypeGraph) (t : TypeDecl) : Prop where
  methods : ∀ m ∈ t.methods, m.index < g.methods.size
  fields : ∀ f ∈ t.fields, f.index < g.fields.size

section Congr

variable {g : TypeGraph} {ρ σ : Renumbering}

theorem Instruction.renumber_congr {i : Instruction} (hi : i.Known g) (h : ρ.Agree g σ) :
    i.renumber ρ = i.renumber σ := by
  cases i with
  | ldfld f | ldflda f | stfld f | ldsfld f | stsfld f =>
    simp only [Instruction.renumber, FieldRef.renumber, h.field f.field hi]
  | call m | callvirt m | newobj m => simp only [Instruction.renumber, MethodRef.renumber, h.method m.method hi]
  | _ => rfl

theorem Body.renumber_congr {body : Body} (hb : body.Known g) (h : ρ.Agree g σ) :
    body.renumber ρ = body.renumber σ := by
  unfold Body.renumber
  congr 1
  refine Array.map_congr_left fun slot hslot => ?_
  rw [Instruction.renumber_congr (hb slot hslot) h]

theorem TypeDef.renumber_congr {t : TypeDef} (ht : t.Within g) (h : ρ.Agree g σ) :
    t.renumber ρ = t.renumber σ := by
  have hfields : t.fields.map (FieldDef.renumber ρ) = t.fields.map (FieldDef.renumber σ) :=
    List.map_congr_left fun f hf => by rw [FieldDef.renumber, h.field f.id (ht.fields f hf), FieldDef.renumber]
  have hmethods : t.methods.map (MethodDef.renumber ρ) = t.methods.map (MethodDef.renumber σ) := by
    refine List.map_congr_left fun d hd => ?_
    have hbody : d.body.map (Body.renumber ρ) = d.body.map (Body.renumber σ) :=
      Option.map_congr fun body hbody => Body.renumber_congr (ht.known d hd body hbody) h
    rw [MethodDef.renumber, h.method d.id (ht.methods d hd), hbody, MethodDef.renumber]
  rw [TypeDef.renumber, hfields, hmethods, TypeDef.renumber]

theorem TypeDecl.renumber_congr {t : TypeDecl} (ht : t.Within g) (h : ρ.Agree g σ) :
    t.renumber ρ = t.renumber σ := by
  have hmethods : t.methods.map ρ.method = t.methods.map σ.method :=
    List.map_congr_left fun m hm => h.method m (ht.methods m hm)
  have hfields : t.fields.map ρ.field = t.fields.map σ.field :=
    List.map_congr_left fun f hf => h.field f (ht.fields f hf)
  rw [TypeDecl.renumber, hmethods, hfields, TypeDecl.renumber]

theorem Shape.renumber_congr {shape : Shape} (hs : shape.Within g) (h : ρ.Agree g σ) :
    shape.renumber ρ = shape.renumber σ := by
  cases shape with
  | simple => rfl
  | managedOnly m => rw [Shape.renumber, h.method m (hs.managed m rfl), Shape.renumber]
  | unmanagedOnly u => rw [Shape.renumber, h.method u (hs.unmanaged u rfl), Shape.renumber]
  | managedAndUnmanaged m u =>
    rw [Shape.renumber, h.method m (hs.managed m rfl), h.method u (hs.unmanaged u rfl), Shape.renumber]

end Congr

/-! ## What stays -/

section Self

variable {g : TypeGraph} {ρ : Renumbering}

@[simp] theorem Instruction.renumber_refl (i : Instruction) : i.renumber .refl = i := by
  cases i <;> rfl

@[simp] theorem Body.renumber_refl (body : Body) : body.renumber .refl = body := by
  simp [Body.renumber]

@[simp] theorem MethodDef.renumber_refl (d : MethodDef) : d.renumber .refl = d := by
  have hbody : d.body.map (Body.renumber .refl) = d.body := by
    cases d.body with
    | none => rfl
    | some body => rw [Option.map_some, Body.renumber_refl]
  rw [MethodDef.renumber, hbody, Renumbering.method_refl]

@[simp] theorem TypeDef.renumber_refl (t : TypeDef) : t.renumber .refl = t := by
  have hmethods : t.methods.map (MethodDef.renumber .refl) = t.methods :=
    (List.map_congr_left fun d _ => MethodDef.renumber_refl d).trans (List.map_id' _)
  have hfields : t.fields.map (FieldDef.renumber .refl) = t.fields := List.map_id' _
  rw [TypeDef.renumber, hmethods, hfields]

@[simp] theorem TypeDecl.renumber_refl (t : TypeDecl) : t.renumber .refl = t := by
  have hmethod : Renumbering.refl.method = id := rfl
  have hfield : Renumbering.refl.field = id := rfl
  simp [TypeDecl.renumber, hmethod, hfield]

@[simp] theorem Shape.renumber_refl (shape : Shape) : shape.renumber .refl = shape := by
  cases shape <;> rfl

theorem TypeDef.renumber_self {t : TypeDef} (ht : t.Within g) (h : ρ.Fixes g) : t.renumber ρ = t :=
  (renumber_congr ht h).trans (renumber_refl t)

theorem TypeDecl.renumber_self {t : TypeDecl} (ht : t.Within g) (h : ρ.Fixes g) : t.renumber ρ = t :=
  (renumber_congr ht h).trans (renumber_refl t)

end Self

end DisposalWeaver
