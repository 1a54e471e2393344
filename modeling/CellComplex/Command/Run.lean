import CellComplex.Command.Files
import CellComplex.Command.Options
import CellComplex.Knowledge.Layout

/-!
# Running commands

A command reads its configuration, then its knowledge, and answers with a report in the form that
was asked for. What is given on the command line goes before the configuration.

* `Options.run`: the output of a command.
-/

namespace CellComplex

namespace Options

/-- The settings that hold. -/
def loadSettings (o : Options) (find : String → FileState) : Except KnowledgeError Settings :=
  match o.config with
  | none => .ok .standard
  | some path => do Settings.read (← (find path).text path configurationLimit)

/-- The knowledge that is asked. -/
def loadKnowledge (o : Options) (find : String → FileState) : Except KnowledgeError Knowledge :=
  match o.knowledge with
  | none => .ok .empty
  | some path => do Knowledge.read (← (find path).text path knowledgeLimit)

/-- A report in one of its forms. -/
def layOut (o : Options) (text : String) (json : JsonValue) : String :=
  if o.json then json.pretty ++ "\n" else text

/-- The answer to a command. -/
def answer (o : Options) (settings : Settings) (k : Knowledge) : Except KnowledgeError String :=
  match o.command with
  | .status =>
    let r := k.status settings o.knowledge
    .ok (o.layOut r.text r.json)
  | .infer subject predicate horizon => do
    let r ← k.infer subject predicate (horizon.getD settings.horizon)
    return o.layOut (r.text o.verbose) r.json
  | .resolve label source target policy seed => do
    let task := Knowledge.resolveEvidence label source target (policy.getD settings.policy)
      (seed.or settings.seed)
    let r ← (task.apply k).1
    return o.layOut r.text r.json
  | .rewrite label points => do
    let r ← ((Knowledge.applyTransitive label points).apply k).1
    return o.layOut r.text r.json

/-- The output of a command. -/
def run (o : Options) (find : String → FileState) : Except KnowledgeError String := do
  let settings ← o.loadSettings find
  let k ← o.loadKnowledge find
  o.answer settings k

end Options

end CellComplex
