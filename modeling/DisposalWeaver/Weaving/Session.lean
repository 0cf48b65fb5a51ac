/-
A weaving session over a whole module.

The types are taken in order. Each one is left alone, found woven already, rejected with its violations, or woven; that
is its `Outcome`, and the report lists the types of the last three kinds. Finally the opt-out vocabulary is removed.

- `Session.weave`: the session. It is given up, with nothing changed, if a member that generated code needs is missing.
- `weaveDefinition`, `weaveDefinitions`: one type, and all types of a module.
-/
import DisposalWeaver.Weaving.OptOut
import DisposalWeaver.Weaving.TypeWeaving

namespace DisposalWeaver

/-- what became of a type -/
inductive Outcome where
  /-- not eligible, or without an entry point -/
  | untouched
  | woven (shape : Shape)
  | alreadyWoven
  /-- with an entry point, but not woven; the diagnostics say why -/
  | rejected
  deriving DecidableEq, Repr

/-- types by what became of them, in module order -/
structure Report where
  woven : List (TypeId × Shape) := []
  alreadyWoven : List TypeId := []
  rejected : List TypeId := []
  deriving DecidableEq, Repr, Inhabited

namespace Report

/-- the report with one more type in front -/
def prepend (t : TypeId) (report : Report) : Outcome → Report
  | .untouched => report
  | .woven shape => { report with woven := (t, shape) :: report.woven }
  | .alreadyWoven => { report with alreadyWoven := t :: report.alreadyWoven }
  | .rejected => { report with rejected := t :: report.rejected }

end Report

/-- what a session changes -/
structure Session where
  graph : TypeGraph
  module : Module
  diagnostics : Diagnostics := {}
  deriving DecidableEq, Repr

namespace Session

/-- what the session goes by: where generated code finds its members, the settings, and the module as it was -/
structure Context where
  references : References
  settings : Settings
  module : Module
  deriving DecidableEq, Repr

/-- a type after its turn: the loom, and what became of it or why the session is given up -/
structure Turned where
  loom : Loom
  outcome : Except WeaveError Outcome

/-- weaves a type that has an entry point and is not woven yet, unless something is wrong with it -/
def weaveEntry (context : Context) (entry : MethodId) (entries : List MethodId) (loom : Loom) : Turned :=
  match Selection.entryViolations loom.graph context.references loom.target entries with
  | [] =>
    match Weave.weaveType { references := context.references, settings := context.settings, entry } loom with
    | .ok (some shape) loom => { loom, outcome := .ok (.woven shape) }
    | .ok none loom => { loom, outcome := .ok .rejected }
    | .error cause loom => { loom, outcome := .error cause }
  | violations =>
    { loom := { loom with
        diagnostics := violations.foldl (fun diagnostics v => diagnostics.record (.violation v)) loom.diagnostics }
      outcome := .ok .rejected }

/-- the turn of one type -/
def weaveDefinition (context : Context) (loom : Loom) : Turned :=
  let t := loom.target
  let g := loom.graph
  if !Selection.isEligible g context.settings context.module t then { loom, outcome := .ok .untouched }
  else match Selection.entryMethods g context.settings t with
    | [] => { loom, outcome := .ok .untouched }
    | entry :: others =>
      if Selection.isAlreadyWoven g context.settings t.id then
        { loom := { loom with diagnostics := loom.diagnostics.record (.alreadyWoven (g.nameOf t.id)) }
          outcome := .ok .alreadyWoven }
      else weaveEntry context entry (entry :: others) loom

/-- all types after their turns -/
structure Progress where
  graph : TypeGraph
  diagnostics : Diagnostics
  types : List TypeDef
  /-- the report, or why the session was given up before the last type -/
  report : Except WeaveError Report

/-- gives each type its turn, in order, until one makes the session give up -/
def weaveDefinitions (context : Context) (graph : TypeGraph) (diagnostics : Diagnostics) : List TypeDef → Progress
  | [] => { graph, diagnostics, types := [], report := .ok {} }
  | t :: rest =>
    let turned := weaveDefinition context { graph, target := t, diagnostics }
    match turned.outcome with
    | .error cause =>
      { graph := turned.loom.graph, diagnostics := turned.loom.diagnostics
        types := turned.loom.target :: rest, report := .error cause }
    | .ok outcome =>
      let progress := weaveDefinitions context turned.loom.graph turned.loom.diagnostics rest
      { progress with
        types := turned.loom.target :: progress.types
        report := progress.report.map fun report => report.prepend t.id outcome }

/-- removes the opt-out vocabulary from the module -/
def clean (settings : Settings) (session : Session) : Session :=
  let (module, notice) := OptOut.clean session.graph settings session.module
  { session with module, diagnostics := session.diagnostics.record notice }

/-- weaves every eligible type of the module -/
def weave (settings : Settings) : EStateM WeaveError Session Report := fun session =>
  match References.resolve? session.graph with
  | .error missing => .error (.missingReference missing) session
  | .ok references =>
    let context : Context := { references, settings, module := session.module }
    let progress := weaveDefinitions context session.graph session.diagnostics session.module.types
    let woven : Session :=
      { graph := progress.graph, module := { session.module with types := progress.types }
        diagnostics := progress.diagnostics }
    match progress.report with
    | .ok report => .ok report (woven.clean settings)
    | .error cause => .error cause woven

end Session

end DisposalWeaver
