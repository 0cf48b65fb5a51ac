/-
Weaving is conservative until disposal.

A call in the original module that keeps clear of disposal (`Program.KeepsClear`) has its like in the woven module: the
same call on the same machine ends in the same answer or trap, and leaves the same machine behind but for the count of
instructions. Dispatch does not notice the members that types have gained (`TypeGraph.Gains.accord`), nor does a method of
the host that goes by declared members (`Native.Plain`), and the body that is run is what it was or has a guard in front
that passes (`WovenModule.lastBody?`), however often the method is defined. `calls_conserved` is the simulation of calls
inside each other, `weave_conserves` the result.
-/
import DisposalWeaver.Proofs.GuardedBodies
import DisposalWeaver.Proofs.WovenModule

namespace DisposalWeaver

/-! ## Dispatch over types that gained members -/

namespace TypeGraph

variable {g G : TypeGraph}

/-- the name of an explicit implementation holds a dot, unlike the finalizer's -/
theorem explicitName_ne {m : MethodDecl} : g.explicitName? m ≠ some MemberName.finalize.text := by
  unfold explicitName?
  split
  · intro h
    have hdot : '.' ∈ MemberName.finalize.text.toList := by
      rw [← Option.some.inj h]
      simp only [String.toList_append, List.mem_append]
      exact .inl (.inr (by decide))
    revert hdot
    decide
  · simp

namespace Gains

/-- a new method answers no virtual call but one of a finalizer -/
theorem answerOn? (h : g.Gains G) (hl : g.ListsDeclared) {m : MethodDecl} (hm : m.name ≠ MemberName.finalize) (t : TypeId) :
    G.answerOn? m (g.explicitName? m) t = g.answerOn? m (g.explicitName? m) t := by
  obtain ⟨methods, fields, ht, hnew⟩ := h.type t
  unfold TypeGraph.answerOn?
  rw [ht]
  simp only [TypeDecl.withMembers, List.find?_append]
  have hnone : methods.find? (fun candidate => answers m (g.explicitName? m) (G.method candidate)) = none := by
    refine List.find?_eq_none.2 fun candidate hmem hanswers => ?_
    simp only [answers, Bool.and_eq_true, Bool.or_eq_true, beq_iff_eq] at hanswers
    obtain ⟨⟨⟨-, hvirtual⟩, -⟩, hname⟩ := hanswers
    have hfinalize := h.virtual candidate (hnew candidate hmem) hvirtual
    rw [hfinalize] at hname
    rcases hname with hname | hname
    · exact hm hname.symm
    · exact explicitName_ne hname
  rw [hnone, Option.or_none]
  exact List.find?_congr fun candidate hmem => by rw [h.method candidate (hl t candidate hmem)]

theorem implementation (h : g.Gains G) (hl : g.ListsDeclared) {m : MethodId} (hm : m.index < g.methods.size)
    (hname : (g.method m).name ≠ MemberName.finalize) (t : TypeId) : G.implementation t m = g.implementation t m := by
  have hexplicit : G.explicitName? (g.method m) = g.explicitName? (g.method m) := by
    unfold explicitName?
    rw [h.isInterface, h.name]
  have halong : ∀ chain, G.answerAlong m (g.explicitName? (g.method m)) chain =
      g.answerAlong m (g.explicitName? (g.method m)) chain := by
    intro chain
    induction chain with
    | nil => rfl
    | cons t rest ih => simp only [answerAlong, h.method m hm, h.answerOn? hl hname, ih]
  unfold TypeGraph.implementation
  rw [h.method m hm, h.baseChain, hexplicit, halong]

end Gains

theorem answerAlong_declared (hl : g.ListsDeclared) {m : MethodId} (hm : m.index < g.methods.size)
    (explicit : Option String) (chain : List TypeId) : (g.answerAlong m explicit chain).index < g.methods.size := by
  induction chain with
  | nil => exact hm
  | cons t rest ih =>
    unfold answerAlong
    split
    · exact hm
    · split
      · next found hfound => exact hl t found (List.mem_of_find?_eq_some hfound)
      · exact ih

/-- a graph and the one that it has become in a session agree on what was declared before -/
def Gains.accord (h : g.Gains G) (hl : g.ListsDeclared) : Accord g G where
  field f := f.index < g.fields.size
  method m := m.index < g.methods.size
  plain m := (g.method m).name ≠ MemberName.finalize
  field_eq := h.field
  method_eq := h.method
  answer t m hm := by
    unfold TypeGraph.implementation
    split
    · exact answerAlong_declared hl hm _ _
    · exact hm
  answer_eq t m hm hname := h.implementation hl hm hname t
  default_eq := h.defaultFor
  subtype_eq := h.isSubtype

end TypeGraph

/-! ## Calls that keep clear of disposal -/

/-- is the method the entry point of a definition that was woven? -/
def Rewritten (settings : Settings) (g : TypeGraph) (module module' : Module) (m : MethodId) : Prop :=
  ∃ t t', module.WovenInto module' t t' ∧ m ∈ Selection.entryMethods g settings t

/-- on these arguments, a method of the host goes by what is declared and does the same if more is -/
def Native.Plain (g : TypeGraph) (native : Native) (arguments : List Value) : Prop :=
  ∀ G root, g.Gains G → Host.Alike (fun f => f.index < g.fields.size) (fun m => m.index < g.methods.size)
    (fun value => ∀ v, value = some v → v.Within fun f => f.index < g.fields.size)
    (native { graph := g, rootFinalizer := root } arguments) (native { graph := G, rootFinalizer := root } arguments)

/-! ## The platform's methods are plain -/

section Plain

variable {field : FieldId → Prop} {callable : MethodId → Prop} {α β : Type} {ok : α → Prop} {ok' : β → Prop}

theorem Host.Alike.bind {x x' : Host α} {f f' : α → Host β} (h : Host.Alike field callable ok x x')
    (hf : ∀ a, ok a → Host.Alike field callable ok' (f a) (f' a)) :
    Host.Alike field callable ok' (x >>= f) (x' >>= f') := by
  induction h with
  | done h => exact hf _ h
  | fail t => exact .fail t
  | look _ ih => exact .look ih
  | work hc _ ih => exact .work hc ih
  | call hm hv _ ih => exact .call hm hv ih

theorem alike_ofExcept (e : Except Trap α) (h : ∀ a, e = .ok a → ok a) :
    Host.Alike field callable ok (Host.ofExcept e) (Host.ofExcept e) := by
  cases e with
  | ok a => exact .done (h a rfl)
  | error t => exact .fail t

/-- a question that both sides answer alike -/
theorem alike_ask {question question' : Machine → Except Trap α}
    (h : ∀ M : Machine, M.Tidy field → question' M = question M ∧ ∀ a, question M = .ok a → ok a) :
    Host.Alike field callable ok (Host.ask question) (Host.ask question') :=
  .look fun M hM => by
    obtain ⟨heq, hok⟩ := h M.exposed hM.exposed
    rw [heq]
    exact alike_ofExcept _ hok

theorem alike_change {c : Change} (hc : c.Within field) :
    Host.Alike field callable (fun _ => True) (Host.change c) (Host.change c) :=
  .work hc (.done trivial)

theorem alike_object (o : ObjectRef) :
    Host.Alike field callable (fun _ => True) (Host.object o) (Host.object o) :=
  alike_ask fun _ _ => ⟨rfl, fun _ _ => trivial⟩

theorem alike_mark (o : ObjectRef) (mark : Mark) :
    Host.Alike field callable (fun _ => True) (Host.mark o mark) (Host.mark o mark) :=
  (alike_object o).bind fun _ _ => alike_change trivial

/-- an exchange of what a pointer points to looks at no more than that -/
theorem alike_swap {g G : TypeGraph} (A : Accord g G) {place : Address} (hplace : place.Within A.field) {v : Value}
    (hv : v.Within A.field) :
    Host.Alike A.field callable (fun v => v.Within A.field) (Host.swap g place v) (Host.swap G place v) := by
  have hreach : Host.Alike A.field callable (fun _ => True) (Host.reach place) (Host.reach place) :=
    alike_ask fun _ _ => ⟨rfl, fun _ _ => trivial⟩
  have hcontent : Host.Alike A.field callable (fun v => v.Within A.field)
      (Host.ask fun machine => .ok (machine.content g place)) (Host.ask fun machine => .ok (machine.content G place)) :=
    alike_ask fun M hM => by
      have hsame : (M.withSteps M.steps).content G place = M.content g place := content_eq A M hplace
      refine ⟨congrArg _ hsame, fun v hv => ?_⟩
      cases hv
      exact hM.content g place
  have hstore : (Change.store place v).Within A.field := ⟨hplace, hv⟩
  exact hreach.bind fun _ _ => hcontent.bind fun previous hprevious =>
    (alike_change hstore).bind fun _ _ => .done hprevious

/-- an argument that the host takes -/
theorem alike_argument {arguments : List Value} (ha : ∀ v ∈ arguments, v.Within field) (index : Nat) :
    Host.Alike field callable (fun v => v.Within field) (Host.ofExcept (Value.argument arguments index))
      (Host.ofExcept (Value.argument arguments index)) :=
  alike_ofExcept _ fun v hv => by
    unfold Value.argument at hv
    split at hv
    · next found hfound =>
      cases hv
      exact ha _ (List.mem_of_getElem? hfound)
    · cases hv

theorem alike_toAddress {v : Value} (hv : v.Within field) :
    Host.Alike field callable (fun place => place.Within field) (Host.ofExcept v.toAddress) (Host.ofExcept v.toAddress) :=
  alike_ofExcept _ fun place hplace => by
    cases v with
    | address a => cases hplace; exact hv
    | _ => cases hplace

theorem alike_toObject (v : Value) : Host.Alike field callable (fun _ => True) (Host.ofExcept v.toObject)
    (Host.ofExcept v.toObject) :=
  alike_ofExcept _ fun _ _ => trivial

/-- **The platform's methods** go by what is declared. -/
theorem Platform.natives_plain {g : TypeGraph} (hl : g.ListsDeclared) (platform : Platform) {arguments : List Value}
    (ha : ∀ v ∈ arguments, v.Within fun f => f.index < g.fields.size) :
    ∀ e ∈ platform.natives, e.2.Plain g arguments := by
  have hidle : Native.idle.Plain g arguments := fun G root hG => .done fun v hv => by cases hv
  have hmarking : ∀ mark, (Native.marking mark).Plain g arguments := fun mark G root hG =>
    (alike_argument ha 0).bind fun v _ => (alike_toObject v).bind fun o _ => (alike_mark o mark).bind fun _ _ =>
      .done fun v hv => by cases hv
  have hmessage : ∀ message, (Native.withMessage message).Plain g arguments := fun message G root hG =>
    (alike_argument ha 0).bind fun v _ => (alike_toObject v).bind fun o _ => (alike_argument ha 1).bind fun w _ =>
      (alike_mark o _).bind fun _ _ => .done fun v hv => by cases hv
  have hexchange : Native.exchange.Plain g arguments := fun G root hG =>
    (alike_argument ha 0).bind fun v hv => (alike_toAddress hv).bind fun place hplace =>
      (alike_argument ha 1).bind fun w hw => (alike_swap (hG.accord hl) hplace hw).bind fun previous hprevious =>
        .done fun v hv => by
          cases hv
          exact hprevious
  have hread : Native.readMessage.Plain g arguments := fun G root hG =>
    (alike_argument ha 0).bind fun v _ => (alike_toObject v).bind fun o _ => (alike_object o).bind fun object _ =>
      .done fun v hv => by
        cases hv
        split <;> trivial
  intro e he
  simp only [natives, List.mem_cons, List.not_mem_nil, or_false] at he
  rcases he with rfl | rfl | rfl | rfl | rfl | rfl | rfl | rfl | rfl | rfl | rfl | rfl | rfl | rfl | rfl
  · exact hidle
  · exact hidle
  · exact hidle
  · exact hidle
  · exact hidle
  · exact hmarking _
  · exact hexchange
  · exact hexchange
  · exact hmarking _
  · exact hmarking _
  · exact hmessage _
  · exact hmessage _
  · exact hmessage _
  · exact hmarking _
  · exact hread

end Plain

section Clear

variable (p : Program) (settings : Settings) (module module' : Module)

/-- the call is not of a rewritten entry point, an instance method of a type that was woven gets an object, the host goes
by what is declared, and there is a frame to spare -/
structure Program.ClearCall (m : MethodId) (arguments : List Value) (M : Machine) : Prop where
  entry : ¬ Rewritten settings p.graph module module' m
  receiver : (p.graph.method m).isStatic = false → ∀ t t', module.WovenInto module' t t' →
    m ∈ t.methods.map MethodDef.id → ∃ o, arguments.head? = some (.object o) ∧ (M.object? o).isSome = true
  host : ∀ native, p.native? m = some native → native.Plain p.graph arguments
  room : p.native? m = none → M.frames.size + 1 < Program.maxFrames

/-- a call is as told, and no finalizer is called virtually -/
def Program.ClearEvent (clear : MethodId → List Value → Machine → Prop) : Event → Prop
  | .call m arguments M => clear m arguments M
  | .step _ _ (.callvirt m) _ => (p.graph.method m.method).name ≠ MemberName.finalize
  | _ => True

/-- a call of a method, which is what happens then as far as its caller is concerned -/
def noteCall (m : MethodId) (arguments : List Value) (M : Machine) : List Event := [.call m arguments M]

/-- a call keeps clear of disposal, and so do the calls inside of it, at most so many inside each other, with one call to
spare -/
def Program.KeepsClear : Nat → MethodId → List Value → Machine → Prop
  | 0, _, _, _ => False
  | nesting + 1, m, arguments, M => p.ClearCall settings module module' m arguments M ∧
    ∀ e ∈ p.inside (nesting + 1) noteCall m arguments M, p.ClearEvent (Program.KeepsClear nesting) e

end Clear

/-! ## Bodies of the woven module -/

section Bodies

variable {settings : Settings} {g G : TypeGraph} {module module' : Module} {report : List (TypeId × Shape)}
  {p q : Program} {c : MethodId} {body : Body}

/-- the method is of a definition that was woven, takes an instance, and its body is behind the guard of the type -/
inductive Guarding (settings : Settings) (g G : TypeGraph) (module module' : Module) (m : MethodId) (body : Body) :
    Body → Prop where
  | intro {t t' entry fabric noted} (hwoven : module.WovenInto module' t t') (hlisted : m ∈ t.methods.map MethodDef.id)
    (hinstance : (g.method m).isStatic = false)
    (ht : Tailored settings Platform.alone.1.references g G t entry fabric noted t') :
    Guarding settings g G module module' m body (Emission.guarded (MethodRef.onSelf G fabric.state.guard) body)

/-- the bodies that are run for a method after lists of definitions, given how they compare one by one -/
theorem lastBody?_flatMap {m : MethodId} {R : Body → Body → Prop} {types types' : List TypeDef}
    (h : List.Forall₂ (fun t t' => MethodDef.lastBody? m t'.methods = MethodDef.lastBody? m t.methods ∨
      ∃ body body', MethodDef.lastBody? m t.methods = some body ∧ R body body' ∧
        MethodDef.lastBody? m t'.methods = some body') types types') :
    MethodDef.lastBody? m (types'.flatMap TypeDef.methods) = MethodDef.lastBody? m (types.flatMap TypeDef.methods) ∨
      ∃ body body', MethodDef.lastBody? m (types.flatMap TypeDef.methods) = some body ∧ R body body' ∧
        MethodDef.lastBody? m (types'.flatMap TypeDef.methods) = some body' := by
  induction h with
  | nil => exact .inl rfl
  | @cons t t' rest rest' hhead hrest ih =>
    rw [List.flatMap_cons, List.flatMap_cons, MethodDef.lastBody?_append, MethodDef.lastBody?_append]
    rcases ih with hkept | ⟨body, body', hbody, hrel, hbody'⟩
    · rw [hkept]
      cases MethodDef.lastBody? m (rest.flatMap TypeDef.methods) with
      | some later => exact .inl rfl
      | none => simpa only [Option.none_or] using hhead
    · exact .inr ⟨body, body', by rw [hbody]; rfl, hrel, by rw [hbody']; rfl⟩

/-- **What became of the body that is run** for a declared method: unless the method is a rewritten entry point, its body
is what it was, or behind the guard of a type that was woven. -/
theorem WovenModule.lastBody? (hw : WovenModule settings g module G module' report) (hc : c.index < g.methods.size)
    (hentry : ¬ Rewritten settings g module module' c) :
    MethodDef.lastBody? c module'.methods = MethodDef.lastBody? c module.methods ∨
      ∃ body body', MethodDef.lastBody? c module.methods = some body ∧
        Guarding settings g G module module' c body body' ∧ MethodDef.lastBody? c module'.methods = some body' := by
  refine lastBody?_flatMap (hw.paired.imp ?_)
  rintro t t' ⟨hz, hbecomes⟩
  cases hbecomes with
  | kept _ _ hmethods => exact .inl (by rw [hmethods])
  | woven _ hsole ht =>
    have hinto := WovenModule.wovenInto hz ht
    rcases ht.lastBody? hc fun heq => hentry ⟨t, t', hinto, by rw [hsole, heq]; exact List.mem_singleton_self _⟩ with
      hkept | ⟨body, hbody, hlisted, hinstance, hguarded⟩
    · exact .inl hkept
    · exact .inr ⟨body, _, hbody, .intro hinto hlisted hinstance ht, hguarded⟩

/-- … so it is with a program of the module -/
theorem WovenModule.body_cases (hw : WovenModule settings p.graph module q.graph module' report) (hp : p.Executes module)
    (hq : q.Executes module') (hc : c.index < p.graph.methods.size)
    (hentry : ¬ Rewritten settings p.graph module module' c) : q.body? c = p.body? c ∨
      ∃ body body', p.body? c = some body ∧ Guarding settings p.graph q.graph module module' c body body' ∧
        q.body? c = some body' := by
  rw [Program.body?_eq_lastBody? hp, Program.body?_eq_lastBody? hq]
  exact hw.lastBody? hc hentry

/-- an instruction of a body that names only declared members -/
theorem Body.Known.fetch {g : TypeGraph} (hk : body.Known g) {r : Routine} (hr : r.layout = Layout.ofBody body) {k : Nat}
    {i : Instruction} (hi : r.layout.fetch? k = some i) : i.Known g := by
  rw [hr, Layout.fetch?_ofBody] at hi
  unfold Body.fetch? at hi
  obtain ⟨t, -, ht⟩ := Option.bind_eq_some_iff.1 hi
  unfold Body.instruction? at ht
  obtain ⟨slot, hslot, rfl⟩ := Option.map_eq_some_iff.1 ht
  exact hk slot (Array.mem_of_getElem? hslot)

end Bodies

/-! ## The simulation -/

theorem privateMethod_argumentCount (t : TypeId) (name : MemberName) (parameters : List Parameter) :
    (Weave.privateMethod t name parameters).argumentCount = parameters.length + 1 := by
  have hstatic : (Weave.privateMethod t name parameters).isStatic = false := by
    change MethodFlags.ofPrivate.isStatic = false
    decide +kernel
  unfold MethodDecl.argumentCount
  rw [hstatic]
  rfl

section Simulation

open Routine

variable {settings : Settings} {module module' : Module} {report : List (TypeId × Shape)} {p q : Program}

/-- the guard of a type that was woven runs the code of its fabric -/
structure Guards (settings : Settings) (g : TypeGraph) (q : Program) (t : TypeId) (state : WovenState) : Prop where
  body : q.body? state.guard = some (Emission.guard q.graph Platform.alone.1.references t state.disposed)
  fits : state.Fits settings Platform.alone.1.references g q.graph t

/-- a program of a module and one of what the module was woven into, with the same methods of the host -/
structure Counterparts (settings : Settings) (module module' : Module) (report : List (TypeId × Shape)) (p q : Program) :
    Prop where
  woven : WovenModule settings p.graph module q.graph module' report
  executes : p.Executes module
  executes' : q.Executes module'
  natives : q.natives = p.natives
  root : q.rootFinalizer = p.rootFinalizer
  provided : ∀ e ∈ p.natives, e.1.index < p.graph.methods.size
  verified : ∀ e ∈ module.bodies, ∃ depth, e.2.verify p.graph (p.graph.method e.1) = .ok depth

/-- a guarded call counts six instructions more, and at least one anyway -/
def wovenPace : Pace := ⟨7, 0, by decide⟩

namespace Counterparts

variable (h : Counterparts settings module module' report p q) {c : MethodId} {body : Body} {values : List Value}
  {M M' : Machine} {nesting : Nat}

include h

theorem listsDeclared : p.graph.ListsDeclared :=
  h.woven.grown.listsDeclared Platform.alone_listsDeclared

/-- what the two programs agree on: everything that was declared before -/
def accord : Accord p.graph q.graph := h.woven.gains.accord h.listsDeclared

theorem native? (m : MethodId) : q.native? m = p.native? m := by
  unfold Program.native?
  rw [h.natives]

theorem native?_new {m : MethodId} (hm : p.graph.NewMethod q.graph m) : q.native? m = none := by
  rw [h.native?]
  cases hl : p.native? m with
  | none => rfl
  | some native =>
    exact absurd (h.provided (m, native) (mem_of_lookup hl)) (Nat.not_lt.2 hm.1)

theorem survey (hb : p.body? c = some body) : ∃ s, body.survey p.graph (p.graph.method c) = .ok s := by
  obtain ⟨depth, hdepth⟩ := h.verified _ (h.executes.mem hb)
  obtain ⟨s, hs, -⟩ := ok_of_map hdepth
  exact ⟨s, hs⟩

/-- an instruction of a body goes no further than the accord, if the execution of it keeps clear of finalizers -/
theorem admits (hb : p.body? c = some body) {r : Routine} {a : Activation} {i : Instruction} {K : Machine}
    {clear : MethodId → List Value → Machine → Prop} (hr : r.layout = Layout.ofBody body)
    (hi : r.layout.fetch? a.position = some i) (he : p.ClearEvent clear (.step r a i K)) : h.accord.Admits i := by
  have hknown := (h.woven.coherent.known _ (h.executes.mem hb)).fetch hr hi
  cases i with
  | callvirt m => exact ⟨hknown, he⟩
  | ldfld f | ldflda f | stfld f | ldsfld f | stsfld f | call m | newobj m => exact hknown
  | _ => trivial

theorem hasGuard {t : TypeId} {state : WovenState} (hg : Guards settings p.graph q t state) :
    q.HasGuard Platform.alone.1.references t state.disposed state.guard where
  native := h.native?_new hg.fits.guard.1
  body := hg.body
  count := by
    rw [hg.fits.guard.2]
    exact privateMethod_argumentCount _ _ _
  returns := by rw [hg.fits.guard.2]; rfl

/-- a definition that was woven has its guard -/
theorem guards {t t' : TypeDef} {entry : MethodId} {fabric : Fabric} {noted : List Notice}
    (hwoven : module.WovenInto module' t t')
    (ht : Tailored settings Platform.alone.1.references p.graph q.graph t entry fabric noted t') :
    Guards settings p.graph q t.id fabric.state where
  body := h.woven.fabricBody h.executes' (List.of_mem_zip hwoven.1).2 ht rfl (Fabric.mem_bodies.2 .guard)
  fits := ht.fits.state

omit h in
/-- the disposed field of a tidy object is not set -/
theorem not_disposed {t : TypeId} {state : WovenState} {object : Object}
    (hs : state.Fits settings Platform.alone.1.references p.graph q.graph t)
    (ho : object.Tidy fun f => f.index < p.graph.fields.size) :
    (object.fieldOf q.graph state.disposed).isTrue = false := by
  have hdefault : (Value.defaultFor q.graph (q.graph.field state.disposed).type).isTrue = false := by
    unfold Value.defaultFor
    split <;> rfl
  unfold Object.fieldOf Cells.get?
  cases hl : object.fields.entries.lookup state.disposed with
  | none => exact hdefault
  | some v =>
    have hzero : v = .int32 0 := ho.others _ (mem_of_lookup hl) (Nat.not_lt.2 hs.disposed.1.1)
    rw [hzero]
    rfl

/-- **A body behind a guard** is followed: the guard passes, and what is left is the body of the author further down. -/
theorem guarded_run {t : TypeId} {state : WovenState} (hg : Guards settings p.graph q t state)
    (hb : p.body? c = some body)
    {fine : Event → Prop} {clear : MethodId → List Value → Machine → Prop} (hfine : ∀ e, fine e → p.ClearEvent clear e)
    {calls : MethodId → List Value → Machine → List Event} {o : ObjectRef} (rest : List Value)
    (hcalls : CallsFollow h.accord wovenPace p.stepLimit q.stepLimit fine M.frames.size (p.invoke (nesting + 1))
      (q.invoke (nesting + 1)) calls)
    (hM : M.Followed h.accord.field wovenPace M') (hgiven : M.Given (M.frames.size - 1) (.object o :: rest))
    (ho : (M.object? o).isSome = true) (hroom : M.frames.size < Program.maxFrames)
    (he : ∀ e ∈ Routine.runEvents (p.invoker (p.invoke (nesting + 1))) calls p.stepLimit c body M, fine e)
    (ht : (Routine.run (p.invoker (p.invoke (nesting + 1))) p.stepLimit c body).InTime wovenPace p.stepLimit q.stepLimit M) :
    Follows h.accord.field wovenPace (Agreed h.accord.field)
      (Routine.run (p.invoker (p.invoke (nesting + 1))) p.stepLimit c body M)
      (Routine.run (q.invoker (q.invoke (nesting + 1))) q.stepLimit c
        (Emission.guarded (MethodRef.onSelf q.graph state.guard) body) M') := by
  obtain ⟨s, hs⟩ := h.survey hb
  have hmem := h.executes.mem hb
  have hdeclared : c.index < p.graph.methods.size := h.woven.coherent.declared hmem
  obtain ⟨object, hobject⟩ := Option.isSome_iff_exists.1 ho
  obtain ⟨r, r', hr, hr', hshifted, hlayout', hdepth'⟩ := prepare_guarded
    (MethodRef.onSelf q.graph state.guard) hs (h.woven.coherent.created _ hmem)
    (h.woven.gains.method c hdeclared) hM.frames
  obtain ⟨-, hrun⟩ := run_of_prepare (p.invoker (p.invoke (nesting + 1))) p.stepLimit hr
  obtain ⟨-, hrun'⟩ := run_of_prepare (q.invoker (q.invoke (nesting + 1))) q.stepLimit hr'
  obtain ⟨-, hlayout, -⟩ := prepare_layout hr
  simp only [Routine.runEvents, Program.invoker, hr] at he
  have htime : (r.go (p.invoker (p.invoke (nesting + 1))) p.stepLimit {}).InTime wovenPace p.stepLimit q.stepLimit M :=
    ht.mono (by unfold Exec.final; rw [hrun]; exact Nat.le_refl _)
  have hc : CountsUp (p.invoker (p.invoke (nesting + 1))).invoke := trace_steps p (nesting + 1)
  have hc' : CountsUp (q.invoker (q.invoke (nesting + 1))).invoke := trace_steps q (nesting + 1)
  have hcounts : M.steps < ((r.go (p.invoker (p.invoke (nesting + 1))) p.stepLimit {}).final M).steps :=
    go_counts hc (invoke_size p (nesting + 1))
  have hpace := hM.steps
  have hsecond := htime.second
  simp only [wovenPace, Nat.add_zero] at hpace hsecond
  have hdisposed := not_disposed hg.fits (hM.tidy.object hobject)
  have hgiven' : M'.Given r'.depth (.object o :: rest) := by
    unfold Machine.Given
    rw [hdepth', hM.frames]
    exact hgiven
  have hobject' : M'.object? o = some object := by rw [hM.same]; exact hobject
  have hpassed : r'.go (q.invoker (q.invoke (nesting + 1))) q.stepLimit {} M' =
      r'.go (q.invoker (q.invoke (nesting + 1))) q.stepLimit (Activation.shift 2 {}) (M'.withSteps (M'.steps + 6)) :=
    prelude_passes (h.hasGuard hg) rfl hlayout' hgiven' hobject' hdisposed (by rw [hM.frames]; exact hroom) (by omega)
  have hsame : M'.withSteps (M'.steps + 6) = M.withSteps (M'.withSteps (M'.steps + 6)).steps := by rw [hM.same]; rfl
  rw [hrun, hrun'.trans hpassed]
  exact go_follows hshifted hc hc' (invoke_size p (nesting + 1))
    (fun a i K _ hi hfi => h.admits hb hlayout hi (hfine _ hfi)) hcalls hsame
    (by simp only [Machine.withSteps_steps, wovenPace, Nat.add_zero]; omega) hM.tidy
    ⟨⟨0, (Body.survey_sound hs).start⟩, fun v hv => (by cases hv), fun e he => (by cases he)⟩ he htime

/-- **Calls inside each other** are followed as long as they keep clear of disposal. -/
theorem calls_conserved (nesting size : Nat) :
    CallsFollow h.accord wovenPace p.stepLimit q.stepLimit (p.ClearEvent (p.KeepsClear settings module module' nesting))
      size (p.invoke (nesting + 1)) (q.invoke (nesting + 1)) noteCall := by
  induction nesting generalizing size with
  | zero => exact fun c values M M' _ _ _ _ he _ => (he _ List.mem_cons_self).elim
  | succ nesting ih =>
    intro c values M M' hM hc hv _ he ht
    obtain ⟨hcall, hinside⟩ : p.KeepsClear settings module module' (nesting + 1) c values M := he _ List.mem_cons_self
    refine invoke_follows (A := h.accord) (fun m => m.index < p.graph.methods.size) hM
      (fun native hn => ?_) (fun m hm => ⟨hm, ih _⟩) (fun hn hb => ?_) (fun body hn hb he ht => ?_) hinside ht
    · refine ⟨native, by rw [h.native?, hn], ?_⟩
      have hplain := hcall.host native hn q.graph p.rootFinalizer h.woven.gains
      have hdeclarations : q.toDeclarations = { graph := q.graph, rootFinalizer := p.rootFinalizer } := by rw [← h.root]
      rw [← hdeclarations] at hplain
      exact hplain
    · refine ⟨by rw [h.native?, hn], ?_⟩
      rcases h.woven.body_cases h.executes h.executes' hc hcall.entry with hb' | ⟨_, _, hbody, -⟩
      · rw [hb', hb]
      · cases hb.symm.trans hbody
    · have hn' : q.native? c = none := by rw [h.native?, hn]
      have hroom := hcall.room hn
      rcases h.woven.body_cases h.executes h.executes' hc hcall.entry with hb' | ⟨_, _, hbody, hguarding, hbody'⟩
      · refine ⟨body, hn', hb'.trans hb, enter_follows hM hv rfl he ht fun _ hpush he ht => ?_⟩
        exact run_follows (trace_steps p _) (trace_steps q _) (invoke_size p _) hc
          (fun r a i K _ hlayout hi hfine => h.admits hb hlayout hi hfine) (ih _) hpush he ht
      · cases hb.symm.trans hbody
        obtain @⟨t, t', entry, fabric, noted, hwoven, hlisted, hinstance, ht⟩ := hguarding
        obtain ⟨o, ho, hobject⟩ := hcall.receiver hinstance t t' hwoven hlisted
        have hg := h.guards hwoven ht
        obtain ⟨rest, rfl⟩ : ∃ rest, values = .object o :: rest := by
          cases values with
          | nil => cases ho
          | cons v rest => exact ⟨rest, by cases ho; rfl⟩
        refine ⟨_, hn', hbody', enter_follows hM hv (guarded_locals _ _) he ht fun _ hpush he ht => ?_⟩
        have hsize : (M.push (p.frameFor body (.object o :: rest))).frames.size = M.frames.size + 1 := Array.size_push _
        refine h.guarded_run hg hb (fun e he => he) rest (ih _) hpush ?_ hobject (by omega) he ht
        rw [hsize, Nat.add_sub_cancel]
        exact given_push p body (.object o :: rest) M.steps

end Counterparts

/-- **Weaving is conservative until disposal.** Take a module of which the verifier accepts every body, woven over a graph
that grew from the platform, and a call in it that keeps clear of disposal, from a machine without pointers to undeclared
fields, on which fields that are not declared before weaving hold 0 at most. If neither run reaches the limit of
instructions, the same call in the woven module ends with the same answer or trap, and leaves the same machine behind but
for the count of instructions. -/
theorem weave_conserves {g : TypeGraph} {diagnostics : Diagnostics} {outcome : Report} {woven : Session}
    (hg : Platform.alone.2.GrownFrom g) (hm : module.Coherent g)
    (hw : Session.weave settings { graph := g, module, diagnostics } = .ok outcome woven)
    (hv : ∀ e ∈ module.bodies, ∃ depth, e.2.verify g (g.method e.1) = .ok depth)
    (hpg : p.graph = g) (hp : p.Executes module) (hqg : q.graph = woven.graph) (hq : q.Executes woven.module)
    (hroot : q.rootFinalizer = p.rootFinalizer) (hn : q.natives = p.natives)
    (hprovided : ∀ e ∈ p.natives, e.1.index < g.methods.size) {c : MethodId} (hc : c.index < g.methods.size)
    {values : List Value} (hvalues : ∀ v ∈ values, v.Within fun f => f.index < g.fields.size) {M : Machine}
    (hM : M.Tidy fun f => f.index < g.fields.size)
    (hclear : p.KeepsClear settings module woven.module (Program.maxNesting - 1) c values M)
    (hlimit : ((p.call c values).final M).steps ≤ p.stepLimit)
    (hlimit' : ((q.call c values).final M).steps ≤ q.stepLimit) :
    SameEnd (p.call c values M) (q.call c values M) := by
  subst hpg
  have h : Counterparts settings module woven.module outcome.woven p
      (q.limited (7 * ((p.call c values).final M).steps + ((q.call c values).final M).steps)) :=
    ⟨by have := weave_turns hg hm hw; rwa [← hqg] at this, hp, hq, hn, hroot, hprovided, hv⟩
  have hfollows := h.calls_conserved (Program.maxNesting - 1) M.frames.size c values M M
    ⟨rfl, by simp only [wovenPace]; omega, hM⟩ hc hvalues rfl
    (fun e he => by rw [List.mem_singleton.1 he]; exact hclear)
    ⟨hlimit, Nat.le_add_right _ _⟩
  have hsame : M = M.withSteps M.steps := rfl
  have hcounts := invoke_counts q (7 * ((p.call c values).final M).steps + ((q.call c values).final M).steps) 0
    Program.maxNesting c values hsame (Nat.le_refl _) hlimit' (by simp only [Program.call]; omega)
  exact SameEnd.trans (hfollows.imp fun _ _ hab => hab.1).same (hcounts.imp fun _ _ hab => hab.symm).same.symm

end Simulation

namespace Specimen

/-- the program of the module as it was -/
def original : Program := Program.ofModule graph Platform.alone.1 module

theorem verified : ∀ e ∈ module.bodies, ∃ depth, e.2.verify graph (graph.method e.1) = .ok depth := by
  intro e he
  have hbodies : module.bodies = [(dispose, Body.empty.append [.ret]), (read, Body.empty.append [.ldc 1, .ret])] := rfl
  simp only [hbodies, List.mem_cons, List.not_mem_nil, or_false] at he
  rcases he with rfl | rfl
  · exact Body.verify_of_certified [some 0] (by decide +kernel)
  · exact Body.verify_of_certified [some 0, some 1] (by decide +kernel)

/-- is the event neither a call nor an instruction that asks for a virtual one? -/
def isQuiet : Event → Bool
  | .step _ _ (.callvirt _) _ => false
  | .call _ _ _ => false
  | _ => true

theorem clear_of_isQuiet {clear : MethodId → List Value → Machine → Prop} {e : Event} (h : isQuiet e = true) :
    original.ClearEvent clear e := by
  cases e with
  | call m arguments M => cases h
  | step r a i M =>
    cases i with
    | callvirt m => cases h
    | _ => trivial
  | _ => trivial

/-- the host provides the methods of the platform and no others -/
theorem original_plain {m : MethodId} {native : Native} (hn : original.native? m = some native) {arguments : List Value}
    (ha : ∀ v ∈ arguments, v.Within fun f => f.index < graph.fields.size) : native.Plain graph arguments :=
  Platform.natives_plain coherent.lists Platform.alone.1 ha (m, native) (mem_of_lookup hn)

/-- a read makes no calls and has nothing to do with disposal -/
theorem read_keepsClear :
    original.KeepsClear {} module woven.module (Program.maxNesting - 1) read [.object ⟨0⟩] machine := by
  have hinside : (original.inside (Program.maxNesting - 1) noteCall read [.object ⟨0⟩] machine).all isQuiet = true := by
    decide +kernel
  change original.KeepsClear {} module woven.module (1022 + 1) read [.object ⟨0⟩] machine
  refine ⟨{
    entry := ?_
    receiver := fun _ _ _ _ _ => ⟨⟨0⟩, rfl, by decide⟩
    host := fun native hn => original_plain hn fun v hv => by rw [List.mem_singleton.1 hv]; trivial
    room := fun _ => by decide }, fun e he => clear_of_isQuiet (List.all_eq_true.1 hinside e he)⟩
  rintro ⟨t, t', hwoven, hentry⟩
  rw [List.mem_singleton.1 (List.of_mem_zip hwoven.1).1] at hentry
  revert hentry
  decide +kernel

theorem read_conserved :
    SameEnd (original.call read [.object ⟨0⟩] machine) (program.call read [.object ⟨0⟩] machine) := by
  have hprovided : ∀ e ∈ original.natives, e.1.index < graph.methods.size := by decide +kernel
  have hread : read.index < graph.methods.size := by decide +kernel
  have htidy : machine.Tidy fun f => f.index < graph.fields.size := by
    refine ⟨fun object ho => ?_, fun e he => (by cases he),
      fun frame hf => absurd hf (by simp [machine, Machine.initial, Machine.apply]), fun values hv => (by cases hv)⟩
    rw [Array.mem_singleton.1 ho]
    exact ⟨fun e he => (by cases he), fun e he => (by cases he)⟩
  have hlimit : ((original.call read [.object ⟨0⟩]).final machine).steps ≤ original.stepLimit := by decide +kernel
  have hlimit' : ((program.call read [.object ⟨0⟩]).final machine).steps ≤ program.stepLimit := by decide +kernel
  have hroot : ∀ g m, (Program.ofModule g Platform.alone.1 m).rootFinalizer = Platform.alone.1.objectFinalize :=
    fun _ _ => rfl
  have hnatives : ∀ g m, (Program.ofModule g Platform.alone.1 m).natives = Platform.alone.1.natives := fun _ _ => rfl
  exact weave_conserves (p := original) (q := program) grown coherent weave_ok verified rfl rfl rfl rfl
    ((hroot _ _).trans (hroot _ _).symm) ((hnatives _ _).trans (hnatives _ _).symm) hprovided hread
    (fun v hv => by rw [List.mem_singleton.1 hv]; trivial) htidy read_keepsClear hlimit hlimit'

end Specimen

end DisposalWeaver
