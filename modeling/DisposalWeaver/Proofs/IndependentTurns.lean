/-
What a session makes of its types, one by one.

What becomes of a type does not depend on the types before it: its turn, wherever it comes, is the turn that it would
have if it had the first graph to itself (`loomAlone`, `outcomeAlone`), with new members in the places that come next by
then (`Seat`). `Seated` reads a whole session off turns alone: its graph, definitions, report and notices.
`weaveDefinitions_seated` is the induction over the types.
-/
import Mathlib.Algebra.GroupWithZero.Nat
import DisposalWeaver.Proofs.RenumberedTurns

namespace DisposalWeaver

/-- the report on types of which this has become -/
def Report.ofOutcomes (outcome : TypeDef → Outcome) (types : List TypeDef) : Report :=
  types.foldr (fun t report => report.prepend t.id (outcome t)) {}

theorem Report.ofOutcomes_congr {outcome outcome' : TypeDef → Outcome} {types : List TypeDef}
    (h : ∀ t ∈ types, outcome t = outcome' t) : ofOutcomes outcome types = ofOutcomes outcome' types := by
  induction types with
  | nil => rfl
  | cons t rest ih =>
    have hrest := ih fun u hu => h u (List.mem_cons_of_mem _ hu)
    unfold ofOutcomes at hrest ⊢
    rw [List.foldr_cons, List.foldr_cons, hrest, h t List.mem_cons_self]

namespace Session

/-! ## Turns alone -/

/-- the loom after the turn of a type that has the graph to itself -/
def loomAlone (context : Context) (g : TypeGraph) (t : TypeDef) : Loom :=
  (weaveDefinition context { graph := g, target := t, diagnostics := {} }).loom

/-- what becomes of a type that has the graph to itself -/
def outcomeAlone (context : Context) (g : TypeGraph) (t : TypeDef) : Outcome :=
  match (weaveDefinition context { graph := g, target := t, diagnostics := {} }).outcome with
  | .ok outcome => outcome
  | .error _ => .untouched

/-- what is noted about a type that has the graph to itself -/
def noticesAlone (context : Context) (g : TypeGraph) (t : TypeDef) : List Notice :=
  (loomAlone context g t).diagnostics.notices

/-- what a session over the graph relies on -/
structure Context.Fits (context : Context) (g : TypeGraph) : Prop where
  references : context.references.Declared g
  exchange : (g.method context.references.exchangeReference).generics.length = 1
  lists : g.ListsDeclared
  fields : g.FieldsDeclared

section Turns

variable {context : Context} {g h : TypeGraph} {t : TypeDef}

/-- **A turn, wherever it comes**, is the turn alone in other places. -/
theorem turn_alone (hc : context.Fits g) (hg : g.Gains h) (ht : t.Within g) (hsame : h.type t.id = g.type t.id)
    (diagnostics : Diagnostics) : ∃ M,
      weaveDefinition context { graph := h, target := t, diagnostics } =
        { loom := M, outcome := .ok ((outcomeAlone context g t).renumber (.between g h)) } ∧
      (loomAlone context g t).Mirrors g (.between g h) diagnostics M ∧
      (outcomeAlone context g t).Within (loomAlone context g t).graph := by
  obtain ⟨outcome, L, M, hL, hM, hm, houtcome⟩ :=
    weaveDefinition_mirrors hc.references hc.exchange hc.lists hc.fields hg ht hsame diagnostics
  unfold outcomeAlone loomAlone
  rw [hL]
  exact ⟨M, hM, hm, houtcome⟩

theorem id_loomAlone (hc : context.Fits g) (t : TypeDef) : (loomAlone context g t).target.id = t.id :=
  (@weaveDefinition_frames context { graph := g, target := t, diagnostics := {} } rfl hc.exchange).id

/-- what the turn of a type that is alone comes to names only what is declared by then, and what it declares is members of
the type -/
structure SelfContained (context : Context) (g : TypeGraph) (t : TypeDef) : Prop where
  gains : g.Gains (loomAlone context g t).graph
  within : (loomAlone context g t).target.Within (loomAlone context g t).graph
  listed : ((loomAlone context g t).graph.type t.id).Within (loomAlone context g t).graph
  outcome : (outcomeAlone context g t).Within (loomAlone context g t).graph
  methodOwner : ∀ m, g.NewMethod (loomAlone context g t).graph m →
    ((loomAlone context g t).graph.method m).declaring = t.id
  fieldOwner : ∀ f, g.NewField (loomAlone context g t).graph f →
    ((loomAlone context g t).graph.field f).declaring = t.id

theorem selfContained (hc : context.Fits g) (ht : t.Within g) : SelfContained context g t := by
  obtain ⟨M, -, hm, houtcome⟩ := turn_alone hc (.refl g) ht rfl {}
  have hid := id_loomAlone hc t
  exact {
    gains := hm.graphs.left
    within := hm.within
    listed := by
      rw [← hid]
      exact hm.listed
    outcome := houtcome
    methodOwner := by
      rw [← hid]
      exact hm.methodOwner
    fieldOwner := by
      rw [← hid]
      exact hm.fieldOwner }

end Turns

/-! ## Seats -/

/-- a type that took its turn over `h` has its members in `G` -/
structure Seat (context : Context) (g h G : TypeGraph) (t : TypeDef) : Prop where
  gains : g.Gains h
  type : G.type t.id = ((loomAlone context g t).graph.type t.id).renumber (.between g h)
  method : ∀ m, m.index < (loomAlone context g t).graph.methods.size →
    ((Renumbering.between g h).method m).index < G.methods.size ∧
      G.method ((Renumbering.between g h).method m) = (loomAlone context g t).graph.method m
  field : ∀ f, f.index < (loomAlone context g t).graph.fields.size →
    ((Renumbering.between g h).field f).index < G.fields.size ∧
      G.field ((Renumbering.between g h).field f) = (loomAlone context g t).graph.field f

/-- what the turns of types come to that lead from `h` to `G`, read off turns alone; `found` tells over which graph a
type took its turn -/
structure Seated (context : Context) (g h : TypeGraph) (types : List TypeDef) (found : TypeId → TypeGraph) (G : TypeGraph) :
    Prop where
  gains : h.Gains G
  others : ∀ T, T ∉ types.map TypeDef.id → G.type T = h.type T
  seats : ∀ t ∈ types, Seat context g (found t.id) G t
  /-- new members are those of some type -/
  methods : ∀ m, h.NewMethod G m → ∃ t ∈ types, ∃ k, g.NewMethod (loomAlone context g t).graph k ∧
    (Renumbering.between g (found t.id)).method k = m
  fields : ∀ f, h.NewField G f → ∃ t ∈ types, ∃ k, g.NewField (loomAlone context g t).graph k ∧
    (Renumbering.between g (found t.id)).field k = f
  methodCount : G.methods.size =
    h.methods.size + (types.map fun t => (loomAlone context g t).graph.methods.size - g.methods.size).sum
  fieldCount : G.fields.size =
    h.fields.size + (types.map fun t => (loomAlone context g t).graph.fields.size - g.fields.size).sum

/-- the definition that a type ends up with -/
def seatedDefinition (context : Context) (g : TypeGraph) (found : TypeId → TypeGraph) (t : TypeDef) : TypeDef :=
  (loomAlone context g t).target.renumber (.between g (found t.id))

/-- what becomes of a type, its hooks in their places -/
def seatedOutcome (context : Context) (g : TypeGraph) (found : TypeId → TypeGraph) (t : TypeDef) : Outcome :=
  (outcomeAlone context g t).renumber (.between g (found t.id))

section Seated

variable {context : Context} {g h G : TypeGraph} {t : TypeDef} {types rest : List TypeDef} {found : TypeId → TypeGraph}
  {L M : Loom} {earlier : Diagnostics}

theorem methods_size (hm : L.Mirrors g (.between g h) earlier M) (hg : g.Gains h) :
    M.graph.methods.size = h.methods.size + (L.graph.methods.size - g.methods.size) := by
  have hnext := hm.graphs.next_method
  rw [Renumbering.between_method hg.methods hm.graphs.left.methods] at hnext
  have hindex : L.graph.methods.size - g.methods.size + h.methods.size = M.graph.methods.size :=
    congrArg MethodId.index hnext
  rw [← hindex, Nat.add_comm]

theorem fields_size (hm : L.Mirrors g (.between g h) earlier M) (hg : g.Gains h) :
    M.graph.fields.size = h.fields.size + (L.graph.fields.size - g.fields.size) := by
  have hnext := hm.graphs.next_field
  rw [Renumbering.between_field hg.fields hm.graphs.left.fields] at hnext
  have hindex : L.graph.fields.size - g.fields.size + h.fields.size = M.graph.fields.size :=
    congrArg FieldId.index hnext
  rw [← hindex, Nat.add_comm]

/-- what the turn adds stays where it is -/
theorem seat_of_mirrors (hm : (loomAlone context g t).Mirrors g (.between g h) earlier M)
    (hid : (loomAlone context g t).target.id = t.id) (hg : g.Gains h) (hG : M.graph.Gains G)
    (hsame : G.type t.id = M.graph.type t.id) : Seat context g h G t where
  gains := hg
  type := by
    have hown := hm.own
    rw [hid] at hown
    rw [hsame, hown]
  method m hlt := by
    have hbound := hm.graphs.method_lt hlt
    exact ⟨Nat.lt_of_lt_of_le hbound hG.methods, (hG.method _ hbound).trans (hm.graphs.method m hlt)⟩
  field f hlt := by
    have hbound := hm.graphs.field_lt hlt
    exact ⟨Nat.lt_of_lt_of_le hbound hG.fields, (hG.field _ hbound).trans (hm.graphs.field f hlt)⟩

/-- where other types are found does not change -/
theorem update_apart (hnew : t.id ∉ rest.map TypeDef.id) (found : TypeId → TypeGraph) :
    ∀ u ∈ rest, Function.update found t.id h u.id = found u.id := by
  intro u hu
  have hne : u.id ≠ t.id := fun heq => hnew (heq ▸ List.mem_map_of_mem hu)
  exact Function.update_of_ne hne h found

/-- one more turn, in front -/
theorem Seated.cons (hr : Seated context g M.graph rest found G)
    (hm : (loomAlone context g t).Mirrors g (.between g h) earlier M) (hid : (loomAlone context g t).target.id = t.id)
    (hg : g.Gains h) (hgains : h.Gains M.graph) (hothers : ∀ T, T ≠ t.id → M.graph.type T = h.type T)
    (hnew : t.id ∉ rest.map TypeDef.id) : Seated context g h (t :: rest) (Function.update found t.id h) G := by
  have hself : Function.update found t.id h t.id = h := Function.update_self t.id h found
  have hrest := update_apart (h := h) hnew found
  have hmethods := methods_size hm hg
  have hfields := fields_size hm hg
  exact {
    gains := hgains.trans hr.gains
    others := fun T hT => by
      rw [List.map_cons, List.mem_cons, not_or] at hT
      rw [hr.others T hT.2, hothers T hT.1]
    seats := fun u hu => by
      rcases List.mem_cons.1 hu with rfl | hu
      · rw [hself]
        exact seat_of_mirrors hm hid hg hr.gains (hr.others u.id hnew)
      · rw [hrest u hu]
        exact hr.seats u hu
    methods := fun m hm' => by
      rcases Nat.lt_or_ge m.index M.graph.methods.size with hfirst | hlater
      · have hold := hm'.1
        refine ⟨t, List.mem_cons_self, ⟨m.index - h.methods.size + g.methods.size⟩, ⟨Nat.le_add_left _ _, ?_⟩, ?_⟩
        · simp only
          omega
        · rw [hself, Renumbering.between_method hg.methods (Nat.le_add_left _ _)]
          exact congrArg MethodId.mk (by omega)
      · obtain ⟨u, hu, k, hk, heq⟩ := hr.methods m ⟨hlater, hm'.2⟩
        exact ⟨u, List.mem_cons_of_mem _ hu, k, hk, by rw [hrest u hu, heq]⟩
    fields := fun f hf' => by
      rcases Nat.lt_or_ge f.index M.graph.fields.size with hfirst | hlater
      · have hold := hf'.1
        refine ⟨t, List.mem_cons_self, ⟨f.index - h.fields.size + g.fields.size⟩, ⟨Nat.le_add_left _ _, ?_⟩, ?_⟩
        · simp only
          omega
        · rw [hself, Renumbering.between_field hg.fields (Nat.le_add_left _ _)]
          exact congrArg FieldId.mk (by omega)
      · obtain ⟨u, hu, k, hk, heq⟩ := hr.fields f ⟨hlater, hf'.2⟩
        exact ⟨u, List.mem_cons_of_mem _ hu, k, hk, by rw [hrest u hu, heq]⟩
    methodCount := by rw [hr.methodCount, hmethods, List.map_cons, List.sum_cons, Nat.add_assoc]
    fieldCount := by rw [hr.fieldCount, hfields, List.map_cons, List.sum_cons, Nat.add_assoc] }

/-- **The types that await their turns get them, each as if it were alone.** -/
theorem weaveDefinitions_seated (hc : context.Fits g) (ha : Awaits context g h types)
    (hfields : ∀ t ∈ types, ∀ f ∈ t.fields, f.id.index < g.fields.size) (diagnostics : Diagnostics) : ∃ found G,
      weaveDefinitions context h diagnostics types = {
        graph := G
        diagnostics := diagnostics.recordAll (types.flatMap (noticesAlone context g))
        types := types.map (seatedDefinition context g found)
        report := .ok (Report.ofOutcomes (seatedOutcome context g found) types) } ∧
      Seated context g h types found G := by
  -- on the types that are left; where a type is found is settled when its turn comes
  induction types generalizing h diagnostics with
  | nil =>
    refine ⟨fun _ => g, h, ?_, ?_⟩
    · simp only [List.flatMap_nil, Diagnostics.recordAll_nil]
      rfl
    · exact {
        gains := .refl h
        others := fun _ _ => rfl
        seats := fun _ ht => (by cases ht)
        methods := fun m hm => absurd hm.2 (Nat.not_lt.2 hm.1)
        fields := fun f hf => absurd hf.2 (Nat.not_lt.2 hf.1)
        methodCount := rfl
        fieldCount := rfl }
  | cons t rest ih =>
    have hwithin : t.Within g := ⟨ha.declared t List.mem_cons_self, hfields t List.mem_cons_self⟩
    obtain ⟨M, hturn, hm, -⟩ := turn_alone hc ha.gains hwithin (ha.same t List.mem_cons_self) diagnostics
    have hframes : Frames { graph := h, target := t, diagnostics } M := by
      have hleft := @weaveDefinition_frames context { graph := h, target := t, diagnostics } rfl ha.exchange
      rwa [hturn] at hleft
    obtain ⟨found, G, hrest, hseated⟩ := ih (ha.next hframes.gains hframes.others)
      (fun u hu => hfields u (List.mem_cons_of_mem _ hu)) M.diagnostics
    have hnew : t.id ∉ rest.map TypeDef.id := (List.nodup_cons.1 ha.once).1
    refine ⟨Function.update found t.id h, G, ?_,
      hseated.cons hm (id_loomAlone hc t) ha.gains hframes.gains hframes.others hnew⟩
    have hself : Function.update found t.id h t.id = h := Function.update_self t.id h found
    have hfound := update_apart (h := h) hnew found
    have htarget : M.target = seatedDefinition context g (Function.update found t.id h) t := by
      rw [seatedDefinition, hself, hm.target]
    have houtcome : (outcomeAlone context g t).renumber (.between g h) =
        seatedOutcome context g (Function.update found t.id h) t := by
      rw [seatedOutcome, hself]
    have htypes : rest.map (seatedDefinition context g found) =
        rest.map (seatedDefinition context g (Function.update found t.id h)) :=
      List.map_congr_left fun u hu => by rw [seatedDefinition, seatedDefinition, hfound u hu]
    have hreport : Report.ofOutcomes (seatedOutcome context g found) rest =
        Report.ofOutcomes (seatedOutcome context g (Function.update found t.id h)) rest :=
      Report.ofOutcomes_congr fun u hu => by rw [seatedOutcome, seatedOutcome, hfound u hu]
    have hnotices : M.diagnostics = diagnostics.recordAll (noticesAlone context g t) := hm.diagnostics
    simp only [weaveDefinitions, hturn, hrest, htarget, houtcome, htypes, hreport]
    rw [hnotices, Diagnostics.recordAll_recordAll]
    rfl

end Seated

end Session

end DisposalWeaver
