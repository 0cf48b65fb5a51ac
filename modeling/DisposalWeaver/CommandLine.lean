/-
The command line: weaves a showcase module and prints what came of it.

- `Options.parse?`: what the arguments ask for. Every option but `--skip-namespace` is given at most once, and nothing but
  options is accepted.
- `run`: the lines to print and the exit code: 0 on success, 1 if weaving failed, 2 if the arguments are not understood.
-/
import DisposalWeaver.Body.Listing
import DisposalWeaver.Body.Verification
import DisposalWeaver.Showcase.Modules
import DisposalWeaver.Weaving.Session

namespace DisposalWeaver.CommandLine

/-- what the arguments ask for -/
structure Options where
  /-- leave private methods without guards -/
  historicalGuards : Bool := false
  weaveAbstract : Bool := false
  skippedNamespaces : List String := []
  /-- weave the module whose types break the rules -/
  invalid : Bool := false
  /-- print no bodies -/
  noListing : Bool := false
  deriving DecidableEq, Repr, Inhabited

/-- why there is nothing to weave -/
inductive Stop where
  | usage
  | help
  | version
  deriving DecidableEq, Repr

/-- the part of an argument after `start`, if it begins so -/
def after? (start argument : String) : Option String :=
  if beginsWith argument start then some (String.ofList (argument.toList.drop start.toList.length)) else none

/-- does the argument look like an option? A lone dash does not. -/
def looksLikeOption (argument : String) : Bool :=
  beginsWith argument "-" && argument != "-"

namespace Options

/-- sets a switch that must not be set yet -/
def switch (isSet : Bool) (options : Options) : Except Stop Options :=
  if isSet then .error .usage else .ok options

/-- skips one more namespace -/
def skip (options : Options) (space : String) : Options :=
  { options with skippedNamespaces := options.skippedNamespaces ++ [space] }

/-- an argument that stands for itself -/
def single (options : Options) (argument : String) : Except Stop Options :=
  if argument = "--historical-private-guards" then
    switch options.historicalGuards { options with historicalGuards := true }
  else if argument = "--weave-abstract" then switch options.weaveAbstract { options with weaveAbstract := true }
  else if argument = "--invalid" then switch options.invalid { options with invalid := true }
  else if argument = "--no-listing" then switch options.noListing { options with noListing := true }
  else if argument = "--help" || beginsWith argument "-h" then .error .help
  else if argument = "--version" || beginsWith argument "-V" then .error .version
  else match after? "--skip-namespace=" argument with
    | some space => .ok (options.skip space)
    | none => .error .usage

/-- reads the arguments on top of the options read so far -/
def read (options : Options) : List String → Except Stop Options
  | [] => .ok options
  | "--" :: rest => if rest.isEmpty then .ok options else .error .usage
  | "--skip-namespace" :: space :: rest =>
    if looksLikeOption space then .error .usage else read (options.skip space) rest
  | argument :: rest =>
    match options.single argument with
    | .ok options => read options rest
    | .error stop => .error stop

/-- what the arguments ask for, or why there is nothing to weave -/
def parse? (arguments : List String) : Except Stop Options :=
  read {} arguments

/-- the settings that the options stand for -/
def settings? (options : Options) : Except NameError Settings :=
  options.skippedNamespaces.foldlM Settings.skipNamespace?
    { guardPrivate := !options.historicalGuards, weaveAbstract := options.weaveAbstract }

end Options

/-- what a run prints, and how it ends -/
structure Result where
  exitCode : Nat
  lines : List String := []
  deriving DecidableEq, Repr

/-- a method and the listing of its body -/
def methodLines (g : TypeGraph) (m : MethodDef) : List String :=
  match m.body with
  | some body =>
    ("  " ++ g.methodText (.direct g m.id)) :: (Text.lines (body.listing g)).map fun line => "    " ++ line
  | none => []

/-- a woven type with the listings of its methods -/
def typeLines (g : TypeGraph) (module : Module) (t : TypeId) (shape : Shape) : List String :=
  s!"{g.nameOf t} ({shape.text})" ::
    match module.definition? t with
    | some definition => definition.methods.flatMap (methodLines g) ++ [""]
    | none => []

/-- the number of types of each kind in the report -/
def summary (report : Report) : String :=
  s!"{report.woven.length} woven, {report.alreadyWoven.length} already woven, {report.rejected.length} rejected"

/-- weaves one of the showcase modules as asked -/
def weaveShowcase (options : Options) (settings : Settings) : Result :=
  let showcase := Showcase.build
  let module := if options.invalid then showcase.invalid else showcase.valid
  match Session.weave settings { graph := showcase.graph, module } with
  | .error _ _ => { exitCode := 1 }
  | .ok report session =>
    match session.module.verify session.graph with
    | .error _ => { exitCode := 1 }
    | .ok _ =>
      let listings := if options.noListing then []
        else report.woven.flatMap fun (t, shape) => typeLines session.graph session.module t shape
      let notices := session.diagnostics.notices.map fun notice =>
        s!"{notice.severity.text}: {notice.message}"
      { exitCode := if session.diagnostics.hasErrors then 1 else 0
        lines := listings ++ notices ++ [summary report] }

/-- how the program is used -/
def usage : List String := [
  "Weave a thread-safe disposal state machine into types with an empty `Dispose`",
  "",
  "      --historical-private-guards   Leave private methods unguarded, as older releases did",
  "      --weave-abstract              Also weave abstract classes",
  "      --skip-namespace <NAMESPACE>  Skip every type in this namespace (may be repeated)",
  "      --invalid                     Weave the sample module whose types all break a weaving rule",
  "      --no-listing                  Only print diagnostics, not the woven method bodies"]

/-- what the program prints for its arguments, and how it ends -/
def run (arguments : List String) : Result :=
  match Options.parse? arguments with
  | .error .usage => { exitCode := 2 }
  | .error .help => { exitCode := 0, lines := usage }
  | .error .version => { exitCode := 0, lines := ["Janitor 0.1.0"] }
  | .ok options =>
    match options.settings? with
    | .error _ => { exitCode := 1 }
    | .ok settings => weaveShowcase options settings

end DisposalWeaver.CommandLine
