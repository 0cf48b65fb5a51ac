/-
The same instruction on two graphs and two machines.

Two graphs may agree on part of what they declare (`Accord`): on some fields and methods, and on who answers the virtual
calls of some methods. An instruction that goes no further than that does on one graph what it does on the other, also
from machines that differ in their counts of instructions: the second execution echoes the first (`Exec.Echoes`). It is
enough that the machine holds no pointers to fields outside of the accord, and nothing but 0 in them (`Machine.Tidy`).
`request_echoes` is the rule of every instruction.
-/
import DisposalWeaver.Proofs.CodeRuns
import DisposalWeaver.Proofs.VerifiedRuns

namespace DisposalWeaver

/-! ## What two graphs agree on -/

/-- the fields and methods that two graphs agree on, and the methods whose virtual calls they answer alike -/
structure Accord (g G : TypeGraph) where
  field : FieldId → Prop
  method : MethodId → Prop
  plain : MethodId → Prop
  field_eq : ∀ f, field f → G.field f = g.field f
  method_eq : ∀ m, method m → G.method m = g.method m
  answer : ∀ t m, method m → method (g.implementation t m)
  answer_eq : ∀ t m, method m → plain m → G.implementation t m = g.implementation t m
  default_eq : ∀ type, Value.defaultFor G type = Value.defaultFor g type
  subtype_eq : ∀ t super, G.isSubtype t super = g.isSubtype t super

/-- a pointer to a field points to one of these -/
def Address.Within (field : FieldId → Prop) : Address → Prop
  | .field _ f | .static f => field f
  | .variable _ _ => True

def Value.Within (field : FieldId → Prop) : Value → Prop
  | .address place => place.Within field
  | _ => True

def Change.Within (field : FieldId → Prop) : Change → Prop
  | .store place v => place.Within field ∧ v.Within field
  | .record values => ∀ v ∈ values, v.Within field
  | _ => True

/-- the instruction goes no further than the accord -/
def Accord.Admits {g G : TypeGraph} (A : Accord g G) : Instruction → Prop
  | .ldfld f | .ldflda f | .stfld f | .ldsfld f | .stsfld f => A.field f.field
  | .call m | .newobj m => A.method m.method
  | .callvirt m => A.method m.method ∧ A.plain m.method
  | _ => True

/-! ## Tidy machines -/

/-- contents are within these fields, and other fields hold nothing but 0 -/
structure Object.Tidy (field : FieldId → Prop) (object : Object) : Prop where
  values : ∀ e ∈ object.fields.entries, e.2.Within field
  others : ∀ e ∈ object.fields.entries, ¬ field e.1 → e.2 = .int32 0

structure Frame.Tidy (field : FieldId → Prop) (frame : Frame) : Prop where
  arguments : ∀ v ∈ frame.arguments, v.Within field
  locals : ∀ v ∈ frame.locals, v.Within field

structure Machine.Tidy (field : FieldId → Prop) (M : Machine) : Prop where
  heap : ∀ object ∈ M.heap, object.Tidy field
  statics : ∀ e ∈ M.statics.entries, e.2.Within field
  frames : ∀ frame ∈ M.frames, frame.Tidy field
  events : ∀ values ∈ M.events, ∀ v ∈ values, v.Within field

section Tidy

variable {field : FieldId → Prop} {M : Machine}

theorem mem_store {f : FieldId} {v : Value} {entries : List (FieldId × Value)} {e : FieldId × Value}
    (he : e ∈ Cells.store f v entries) : e = (f, v) ∨ e ∈ entries := by
  induction entries with
  | nil => exact .inl (List.mem_singleton.1 he)
  | cons first rest ih =>
    unfold Cells.store at he
    split at he
    · rcases List.mem_cons.1 he with rfl | he
      · exact .inl rfl
      · exact .inr (List.mem_cons_of_mem _ he)
    · rcases List.mem_cons.1 he with rfl | he
      · exact .inr List.mem_cons_self
      · rcases ih he with h | h
        · exact .inl h
        · exact .inr (List.mem_cons_of_mem _ h)

/-- everything is tidy if every field counts -/
theorem tidy_all (M : Machine) : M.Tidy fun _ => True := by
  have hvalue : ∀ v : Value, v.Within fun _ => True := fun v => by
    cases v with
    | address place => cases place <;> trivial
    | _ => trivial
  exact ⟨fun object _ => ⟨fun e _ => hvalue e.2, fun e _ h => absurd trivial h⟩, fun e _ => hvalue e.2,
    fun frame _ => ⟨fun v _ => hvalue v, fun v _ => hvalue v⟩, fun values _ v _ => hvalue v⟩

namespace Machine.Tidy

theorem withSteps (h : M.Tidy field) (steps : Nat) : (M.withSteps steps).Tidy field := ⟨h.heap, h.statics, h.frames, h.events⟩

theorem exposed (h : M.Tidy field) : M.exposed.Tidy field where
  heap := h.heap
  statics := h.statics
  frames frame hf := by
    obtain ⟨other, ho, rfl⟩ := Array.mem_map.1 hf
    exact ⟨fun v hv => (by cases hv), (h.frames other ho).locals⟩
  events := h.events

theorem push (h : M.Tidy field) {frame : Frame} (hf : frame.Tidy field) : (M.push frame).Tidy field where
  heap := h.heap
  statics := h.statics
  frames other ho := by
    rcases Array.mem_push.1 ho with ho | rfl
    · exact h.frames other ho
    · exact hf
  events := h.events

theorem pop (h : M.Tidy field) : M.pop.Tidy field where
  heap := h.heap
  statics := h.statics
  frames other ho := by
    obtain ⟨i, hi, rfl⟩ := Array.mem_iff_getElem.1 ho
    have hi' : i < M.frames.size := by simp [Machine.pop] at hi; omega
    have hpop : M.pop.frames[i] = M.frames[i] := Array.getElem_pop ..
    rw [hpop]
    exact h.frames _ (Array.getElem_mem _)
  events := h.events

/-- a change of one object that keeps it tidy -/
theorem modifyObject (h : M.Tidy field) (k : Nat) {f : Object → Object}
    (hf : ∀ object, object.Tidy field → (f object).Tidy field) : { M with heap := M.heap.modify k f }.Tidy field where
  heap object ho := by
    obtain ⟨i, hi, rfl⟩ := Array.mem_iff_getElem.1 ho
    rw [Array.getElem_modify]
    have hi' : i < M.heap.size := by simpa using hi
    split
    · exact hf _ (h.heap _ (Array.getElem_mem hi'))
    · exact h.heap _ (Array.getElem_mem hi')
  statics := h.statics
  frames := h.frames
  events := h.events

theorem modifyFrame (h : M.Tidy field) (k : Nat) {f : Frame → Frame}
    (hf : ∀ frame, frame.Tidy field → (f frame).Tidy field) : { M with frames := M.frames.modify k f }.Tidy field where
  heap := h.heap
  statics := h.statics
  frames frame ho := by
    obtain ⟨i, hi, rfl⟩ := Array.mem_iff_getElem.1 ho
    rw [Array.getElem_modify]
    have hi' : i < M.frames.size := by simpa using hi
    split
    · exact hf _ (h.frames _ (Array.getElem_mem hi'))
    · exact h.frames _ (Array.getElem_mem hi')
  events := h.events

/-- a change within the fields keeps a machine tidy -/
theorem apply (h : M.Tidy field) {c : Change} (hc : c.Within field) : (M.apply c).Tidy field := by
  cases c with
  | store place v =>
    obtain ⟨hplace, hv⟩ := hc
    cases place with
    | field o f =>
      refine h.modifyObject o.index fun object ho => ⟨fun e he => ?_, fun e he hne => ?_⟩
      · rcases mem_store he with rfl | he
        · exact hv
        · exact ho.values e he
      · rcases mem_store he with rfl | he
        · exact absurd hplace hne
        · exact ho.others e he hne
    | static f =>
      refine ⟨h.heap, fun e he => ?_, h.frames, h.events⟩
      rcases mem_store he with rfl | he
      · exact hv
      · exact h.statics e he
    | «variable» d n =>
      refine h.modifyFrame d fun frame ho => ⟨ho.arguments, fun w hw => ?_⟩
      rcases Array.mem_or_eq_of_mem_setIfInBounds hw with hw | rfl
      · exact ho.locals w hw
      · exact hv
  | allocate t =>
    refine ⟨fun object ho => ?_, h.statics, h.frames, h.events⟩
    rcases Array.mem_push.1 ho with ho | rfl
    · exact h.heap object ho
    · exact ⟨fun e he => (by cases he), fun e he => (by cases he)⟩
  | mark o mark =>
    refine h.modifyObject o.index fun object ho => ?_
    cases mark <;> exact ⟨ho.values, ho.others⟩
  | record values =>
    refine ⟨h.heap, h.statics, h.frames, fun vs hvs => ?_⟩
    rcases List.mem_cons.1 hvs with rfl | hvs
    · exact hc
    · exact h.events vs hvs

theorem object (h : M.Tidy field) {o : ObjectRef} {object : Object} (ho : M.object? o = some object) :
    object.Tidy field := h.heap object (Array.mem_of_getElem? ho)

end Machine.Tidy

theorem defaultFor_within (g : TypeGraph) (type : TypeRef) : (Value.defaultFor g type).Within field := by
  unfold Value.defaultFor
  split <;> trivial

/-- what a field of a tidy object holds is within the fields -/
theorem Object.Tidy.fieldOf {object : Object} (h : object.Tidy field) (g : TypeGraph) (f : FieldId) :
    (object.fieldOf g f).Within field := by
  unfold Object.fieldOf Cells.get?
  cases hl : object.fields.entries.lookup f with
  | none => exact defaultFor_within _ _
  | some v => exact h.values _ (mem_of_lookup hl)

theorem Machine.Tidy.content (h : M.Tidy field) (g : TypeGraph) (place : Address) :
    (M.content g place).Within field := by
  cases place with
  | field o f =>
    simp only [Machine.content]
    cases ho : M.object? o with
    | none => trivial
    | some object => exact (h.object ho).fieldOf g f
  | static f =>
    simp only [Machine.content, Cells.get?]
    cases hl : M.statics.entries.lookup f with
    | none => exact defaultFor_within _ _
    | some v => exact h.statics _ (mem_of_lookup hl)
  | «variable» d n =>
    simp only [Machine.content, Machine.localAt?]
    cases hf : M.frames[d]? with
    | none => trivial
    | some frame =>
      rw [Option.bind_some]
      cases hl : frame.locals[n.toNat]? with
      | none => trivial
      | some v => exact (h.frames frame (Array.mem_of_getElem? hf)).locals v (Array.mem_of_getElem? hl)

end Tidy

/-! ## Echoes -/

/-- from a machine with another count, the second execution does what the first one does -/
def Exec.Echoes {α : Type} (field : FieldId → Prop) (x x' : Exec α) (M : Machine) (steps : Nat) (ok : α → Prop) : Prop :=
  x.Ends M
    (fun a N => x' (M.withSteps steps) = .ok a (N.withSteps steps) ∧ N.steps = M.steps ∧ N.Tidy field ∧ ok a)
    (fun t N => x' (M.withSteps steps) = .error t (N.withSteps steps) ∧ N.steps = M.steps ∧ N.Tidy field)

namespace Exec

variable {α β : Type} {field : FieldId → Prop} {x x' : Exec α} {M : Machine} {steps : Nat} {ok : α → Prop}

theorem echoes_pure (hM : M.Tidy field) {a : α} (h : ok a) : (pure a : Exec α).Echoes field (pure a) M steps ok :=
  ⟨rfl, rfl, hM, h⟩

theorem echoes_throw (hM : M.Tidy field) (t : Trap) : (throw t : Exec α).Echoes field (throw t) M steps ok :=
  ⟨rfl, rfl, hM⟩

theorem echoes_lift (hM : M.Tidy field) (e : Except Trap α) (h : ∀ a, e = .ok a → ok a) :
    (liftM e : Exec α).Echoes field (liftM e) M steps ok := by
  cases e with
  | ok a => exact ⟨rfl, rfl, hM, h a rfl⟩
  | error t => exact ⟨rfl, rfl, hM⟩

theorem Echoes.bind {f f' : α → Exec β} {ok' : β → Prop} (h : x.Echoes field x' M steps ok)
    (hf : ∀ a N, N.Tidy field → ok a → (f a).Echoes field (f' a) N steps ok') :
    (x >>= f).Echoes field (x' >>= f') M steps ok' := by
  unfold Echoes Ends at h ⊢
  simp only [Bind.bind, EStateM.bind]
  cases hx : x M with
  | error t N =>
    rw [hx] at h
    rw [h.1]
    exact ⟨rfl, h.2⟩
  | ok a N =>
    rw [hx] at h
    obtain ⟨hx', hsteps, hN, ha⟩ := h
    have hrest := hf a N hN ha
    unfold Echoes Ends at hrest
    rw [hx', ← hsteps]
    exact hrest

theorem echoes_get {f f' : Machine → Exec β} {ok' : β → Prop}
    (h : (f M).Echoes field (f' (M.withSteps steps)) M steps ok') :
    ((get : Exec Machine) >>= f).Echoes field ((get : Exec Machine) >>= f') M steps ok' := h

end Exec

section Operations

open Exec

variable {g G : TypeGraph} {A : Accord g G} {M : Machine} {steps : Nat} {r r' : Routine}

theorem change_echoes (hM : M.Tidy A.field) {c : Change} (hc : c.Within A.field) :
    (Exec.change c).Echoes A.field (Exec.change c) M steps fun _ => True := by
  have hsame : (M.withSteps steps).apply c = (M.apply c).withSteps steps ∧ (M.apply c).steps = M.steps := by
    cases c with
    | store place v => cases place <;> exact ⟨rfl, rfl⟩
    | _ => exact ⟨rfl, rfl⟩
  exact ⟨congrArg (EStateM.Result.ok ()) hsame.1, hsame.2, hM.apply hc, trivial⟩

theorem object_echoes (hM : M.Tidy A.field) (o : ObjectRef) :
    (Exec.object o).Echoes A.field (Exec.object o) M steps (Object.Tidy A.field) := by
  unfold Exec.object
  refine echoes_get ?_
  rw [Machine.withSteps_object?]
  cases ho : M.object? o with
  | none => exact echoes_throw hM _
  | some object => exact echoes_pure hM (hM.object ho)

theorem fieldOf_eq (A : Accord g G) (object : Object) {f : FieldId} (hf : A.field f) :
    object.fieldOf G f = object.fieldOf g f := by
  unfold Object.fieldOf
  rw [A.field_eq f hf, A.default_eq]

theorem field_echoes (hM : M.Tidy A.field) (o : ObjectRef) {f : FieldId} (hf : A.field f) :
    (Exec.field g o f).Echoes A.field (Exec.field G o f) M steps fun v => v.Within A.field :=
  (object_echoes hM o).bind fun object N hN ho => by
    rw [fieldOf_eq A object hf]
    exact echoes_pure hN (ho.fieldOf g f)

theorem reach_echoes (hM : M.Tidy A.field) (place : Address) :
    (Exec.reach place).Echoes A.field (Exec.reach place) M steps fun _ => True := by
  unfold Exec.reach
  refine echoes_get ?_
  have hmissing : (M.withSteps steps).missing? place = M.missing? place := by cases place <;> rfl
  rw [hmissing]
  cases M.missing? place with
  | none => exact echoes_pure hM trivial
  | some missing => exact echoes_throw hM _

theorem content_eq (A : Accord g G) (M : Machine) {place : Address} (hplace : place.Within A.field) :
    (M.withSteps steps).content G place = M.content g place := by
  cases place with
  | field o f =>
    simp only [Machine.content, Machine.withSteps_object?]
    cases M.object? o with
    | none => rfl
    | some object => exact fieldOf_eq A object hplace
  | static f => simp only [Machine.content, Machine.withSteps_statics, A.field_eq f hplace, A.default_eq]
  | «variable» d n => rfl

theorem load_echoes (hM : M.Tidy A.field) {place : Address} (hplace : place.Within A.field) :
    (Exec.load g place).Echoes A.field (Exec.load G place) M steps fun v => v.Within A.field :=
  (reach_echoes hM place).bind fun _ N hN _ => echoes_get (by
    rw [content_eq A N hplace]
    exact echoes_pure hN (hN.content g place))

theorem store_echoes (hM : M.Tidy A.field) {place : Address} (hplace : place.Within A.field) {v : Value}
    (hv : v.Within A.field) : (Exec.store place v).Echoes A.field (Exec.store place v) M steps fun _ => True :=
  (reach_echoes hM place).bind fun _ _ hN _ => change_echoes hN ⟨hplace, hv⟩

theorem allocate_echoes (hM : M.Tidy A.field) (t : TypeId) :
    (Exec.allocate t).Echoes A.field (Exec.allocate t) M steps fun _ => True :=
  echoes_get ((change_echoes hM (show (Change.allocate t).Within A.field from trivial)).bind fun _ _ hN _ =>
    echoes_pure hN trivial)

theorem argument_echoes (hM : M.Tidy A.field) (hd : r'.depth = r.depth) (n : UInt16) :
    (r.argument n).Echoes A.field (r'.argument n) M steps fun v => v.Within A.field := by
  unfold Routine.argument
  refine echoes_get ?_
  rw [Machine.withSteps_frames, hd]
  cases hf : M.frames[r.depth]? with
  | none => exact echoes_throw hM _
  | some frame =>
    simp only
    cases hv : frame.arguments[n.toNat]? with
    | none => exact echoes_throw hM _
    | some v => exact echoes_pure hM ((hM.frames frame (Array.mem_of_getElem? hf)).arguments v (List.mem_of_getElem? hv))

theorem setArgument_echoes (hM : M.Tidy A.field) (hd : r'.depth = r.depth) (n : UInt16) {v : Value}
    (hv : v.Within A.field) : (r.setArgument n v).Echoes A.field (r'.setArgument n v) M steps fun _ => True := by
  refine (argument_echoes hM hd n).bind fun _ N hN _ => ?_
  refine ⟨?_, rfl, hN.modifyFrame r.depth fun frame hf => ⟨fun w hw => ?_, hf.locals⟩, trivial⟩
  · rw [hd]
    rfl
  · rcases List.mem_or_eq_of_mem_set hw with hw | rfl
    · exact hf.arguments w hw
    · exact hv

/-- the operands are within the fields -/
def Operands.Within (field : FieldId → Prop) (operands : Operands) : Prop :=
  ∀ v ∈ operands.stack, v.Within field

theorem Operands.Within.push {field : FieldId → Prop} {operands : Operands} (h : operands.Within field) {v : Value}
    (hv : v.Within field) : (operands.push v).Within field := fun w hw => by
  rcases List.mem_cons.1 hw with rfl | hw
  · exact hv
  · exact h w hw

theorem Operands.Within.pushResult {field : FieldId → Prop} {operands : Operands} (h : operands.Within field)
    {result : Option Value} (hv : ∀ v, result = some v → v.Within field) : (operands.pushResult result).Within field :=
  fun w hw => by
    rcases List.mem_append.1 hw with hw | hw
    · exact hv w (by cases result <;> simp_all)
    · exact h w hw

theorem pop_echoes (hM : M.Tidy A.field) {operands : Operands} (h : operands.Within A.field) :
    operands.pop.Echoes A.field operands.pop M steps fun e => e.1.Within A.field ∧ e.2.Within A.field := by
  unfold Operands.pop
  split
  · next v stack hs =>
    exact echoes_pure hM ⟨h v (by rw [hs]; exact List.mem_cons_self), fun w hw =>
      h w (by rw [hs]; exact List.mem_cons_of_mem _ hw)⟩
  · exact echoes_throw hM _

theorem popArguments_echoes (hM : M.Tidy A.field) {operands : Operands} (h : operands.Within A.field) (count : Nat) :
    (operands.popArguments count).Echoes A.field (operands.popArguments count) M steps fun e =>
      (∀ v ∈ e.1, v.Within A.field) ∧ e.2.Within A.field := by
  unfold Operands.popArguments
  simp only
  split
  · exact echoes_throw hM _
  · exact echoes_pure hM ⟨fun v hv => h v (List.mem_of_mem_take (List.mem_reverse.1 hv)),
      fun v hv => h v (List.mem_of_mem_drop hv)⟩

theorem readReceiver_echoes (hM : M.Tidy A.field) {values : List Value} (h : ∀ v ∈ values, v.Within A.field) :
    (Routine.readReceiver g values).Echoes A.field (Routine.readReceiver G values) M steps fun values =>
      ∀ v ∈ values, v.Within A.field := by
  cases values with
  | nil => exact echoes_pure hM h
  | cons receiver rest =>
    refine (echoes_lift hM _ fun (place : Address) hplace => (?_ : place.Within A.field)).bind fun place N hN hp =>
      (load_echoes hN hp).bind fun v N' hN' hv => echoes_pure hN' fun w hw => ?_
    · cases receiver with
      | address a => cases hplace; exact h _ List.mem_cons_self
      | _ => cases hplace
    · rcases List.mem_cons.1 hw with rfl | hw
      · exact hv
      · exact h w (List.mem_cons_of_mem _ hw)

theorem target_echoes (hM : M.Tidy A.field) {m : MethodId} (hm : A.method m) (hplain : A.plain m) (values : List Value) :
    (Routine.target g m values).Echoes A.field (Routine.target G m values) M steps A.method := by
  unfold Routine.target
  rw [A.method_eq m hm]
  split
  · refine echoes_get ?_
    have hsame : (M.withSteps steps).implementation G m values = M.implementation g m values := by
      unfold Machine.implementation
      refine congrArg _ (funext fun v => congrArg _ (funext fun o => ?_))
      rw [Machine.withSteps_object?]
      cases M.object? o with
      | none => rfl
      | some object => simp only [A.answer_eq object.type m hm hplain]
    rw [hsame]
    refine echoes_lift hM _ fun found hfound => ?_
    obtain ⟨t, rfl⟩ := (implementation_ends g M m values).1 found hfound
    exact A.answer t m hm
  · exact (echoes_lift hM _ fun _ _ => trivial).bind fun v N hN _ =>
      (echoes_lift hN _ fun _ _ => trivial).bind fun _ N' hN' _ => echoes_pure hN' hm

/-- a value that is returned is within the fields -/
def Flow.Within (field : FieldId → Prop) : Flow → Prop
  | .return (some v) => v.Within field
  | _ => True

/-- what an instruction comes to stays within the accord -/
def Request.Within (A : Accord g G) : Request → Prop
  | .done flow operands => flow.Within A.field ∧ operands.Within A.field
  | .call c values resume => A.method c ∧ (∀ v ∈ values, v.Within A.field) ∧
      ∀ result : Option Value, (∀ v, result = some v → v.Within A.field) → (resume result).Within A.field

/-- **One instruction**, up to the call that it makes, is echoed on the other graph if the accord admits it. -/
theorem request_echoes (hM : M.Tidy A.field) (hd : r'.depth = r.depth) (hr : r'.returnsValue = r.returnsValue)
    {i : Instruction} (hi : A.Admits i) {operands : Operands} (h : operands.Within A.field) :
    (r.request g i operands).Echoes A.field (r'.request G i operands) M steps (Request.Within A) := by
  have hdone : ∀ {N : Machine} {flow : Flow} {operands : Operands}, N.Tidy A.field → flow.Within A.field →
      operands.Within A.field → (pure (Request.done flow operands) : Exec Request).Echoes A.field
        (pure (Request.done flow operands)) N steps (Request.Within A) :=
    fun hN hflow ho => echoes_pure hN ⟨hflow, ho⟩
  have hobject : ∀ {N : Machine} (v : Value), N.Tidy A.field →
      (liftM v.toObject : Exec ObjectRef).Echoes A.field (liftM v.toObject) N steps fun _ => True := fun v hN =>
    echoes_lift hN _ fun _ _ => trivial
  cases i with
  | nop | box t | br t | leave t | endfinally => exact hdone hM trivial h
  | constrained t => exact hdone hM trivial h
  | ldnull | ldc v | ldstr v => exact hdone hM trivial (h.push trivial)
  | ldloca n =>
    simp only [Routine.request, hd]
    exact hdone hM trivial (h.push trivial)
  | ldarg n => exact (argument_echoes hM hd n).bind fun v N hN hv => hdone hN trivial (h.push hv)
  | starg n =>
    exact (pop_echoes hM h).bind fun e N hN he => (setArgument_echoes hN hd n he.1).bind fun _ N' hN' _ =>
      hdone hN' trivial he.2
  | ldloc n =>
    simp only [Routine.request, hd]
    exact (load_echoes hM (show (Address.variable r.depth n).Within A.field from trivial)).bind fun v N hN hv =>
      hdone hN trivial (h.push hv)
  | stloc n =>
    simp only [Routine.request, hd]
    exact (pop_echoes hM h).bind fun e N hN he =>
      (store_echoes hN (show (Address.variable r.depth n).Within A.field from trivial) he.1).bind fun _ N' hN' _ =>
        hdone hN' trivial he.2
  | ldfld f =>
    exact (pop_echoes hM h).bind fun e N hN he => (hobject e.1 hN).bind fun o N' hN' _ =>
      (field_echoes hN' o hi).bind fun v N'' hN'' hv => hdone hN'' trivial (he.2.push hv)
  | ldflda f =>
    exact (pop_echoes hM h).bind fun e N hN he => (hobject e.1 hN).bind fun o N' hN' _ => hdone hN' trivial (he.2.push hi)
  | stfld f =>
    exact (pop_echoes hM h).bind fun e N hN he => (pop_echoes hN he.2).bind fun e' N' hN' he' =>
      (hobject e'.1 hN').bind fun o K hK _ =>
        (store_echoes hK (show (Address.field o f.field).Within A.field from hi) he.1).bind fun _ K' hK' _ =>
          hdone hK' trivial he'.2
  | ldsfld f =>
    exact (load_echoes hM (show (Address.static f.field).Within A.field from hi)).bind fun v N hN hv =>
      hdone hN trivial (h.push hv)
  | stsfld f =>
    exact (pop_echoes hM h).bind fun e N hN he =>
      (store_echoes hN (show (Address.static f.field).Within A.field from hi) he.1).bind fun _ N' hN' _ =>
        hdone hN' trivial he.2
  | dup => exact (pop_echoes hM h).bind fun e N hN he => hdone hN trivial ((he.2.push he.1).push he.1)
  | pop => exact (pop_echoes hM h).bind fun e N hN he => hdone hN trivial he.2
  | add =>
    exact (pop_echoes hM h).bind fun e N hN he => (echoes_lift hN _ fun _ _ => trivial).bind fun right N' hN' _ =>
      (pop_echoes hN' he.2).bind fun e' K hK he' => (echoes_lift hK _ fun _ _ => trivial).bind fun left K' hK' _ =>
        hdone hK' trivial (he'.2.push trivial)
  | ceq =>
    exact (pop_echoes hM h).bind fun e N hN he => (pop_echoes hN he.2).bind fun e' N' hN' he' =>
      hdone hN' trivial (he'.2.push trivial)
  | call m =>
    simp only [Routine.request, A.method_eq m.method hi]
    exact (popArguments_echoes hM h _).bind fun e N hN he =>
      echoes_pure hN ⟨hi, he.1, fun result hresult => he.2.pushResult hresult⟩
  | callvirt m =>
    simp only [Routine.request, A.method_eq m.method hi.1]
    refine (popArguments_echoes hM h _).bind fun e N hN he => ?_
    have hrest : ∀ {N : Machine} {values : List Value}, N.Tidy A.field → (∀ v ∈ values, v.Within A.field) →
        (do return Request.call (← Routine.target g m.method values) values
              { e.2 with constrained := false }.pushResult : Exec Request).Echoes A.field
          (do return Request.call (← Routine.target G m.method values) values
                { e.2 with constrained := false }.pushResult) N steps (Request.Within A) := fun hN hvalues =>
      (target_echoes hN hi.1 hi.2 _).bind fun found N' hN' hfound =>
        echoes_pure hN' ⟨hfound, hvalues, fun result hresult => Operands.Within.pushResult he.2 hresult⟩
    split
    · exact (readReceiver_echoes hN he.1).bind fun values N' hN' hvalues => hrest hN' hvalues
    · exact hrest hN he.1
  | newobj m =>
    simp only [Routine.request, A.method_eq m.method hi]
    refine (popArguments_echoes hM h _).bind fun e N hN he => (allocate_echoes hN _).bind fun o N' hN' _ =>
      echoes_pure hN' ⟨hi, fun v hv => ?_, fun result _ => he.2.push trivial⟩
    rcases List.mem_cons.1 hv with rfl | hv
    · trivial
    · exact he.1 v hv
  | brtrue t | brfalse t =>
    exact (pop_echoes hM h).bind fun e N hN he => hdone hN (by split <;> trivial) he.2
  | throw =>
    exact (pop_echoes hM h).bind fun e N hN he => (hobject e.1 hN).bind fun o N' hN' _ => echoes_throw hN' _
  | ret =>
    simp only [Routine.request, hr]
    split
    · exact (pop_echoes hM h).bind fun e N hN he => hdone hN he.1 he.2
    · exact hdone hM trivial h

end Operations

end DisposalWeaver
