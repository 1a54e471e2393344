import CellComplex.Decimal.Reader
import CellComplex.Evidence.Resolution

/-!
# Command lines

A command line is a list of arguments: a verb with its options and points, and options that hold
for every verb, before or after it. It is read in two steps: first every argument gets its role,
then the roles become a command.

* `Scan.step`: the role of one argument.
* `Options.read?`: the command of a command line, or nothing if there is none.
-/

namespace CellComplex

/-! ## 1. Words -/

/-- What a command does. -/
inductive Verb where
  | status
  | infer
  | resolve
  | rewrite
  deriving DecidableEq, Repr

/-- An option without a value. -/
inductive Switch where
  | verbose
  | quiet
  | json
  deriving DecidableEq, Repr

/-- An option with a value. -/
inductive Setting where
  | knowledge
  | config
  | subject
  | predicate
  | horizon
  | label
  | source
  | target
  | policy
  | seed
  deriving DecidableEq, Repr

/-- An option of either kind. -/
inductive Flag where
  | switch (s : Switch)
  | setting (s : Setting)
  deriving DecidableEq, Repr

/-- The name of a verb. -/
def Verb.name : Verb → String
  | .status => "status"
  | .infer => "infer"
  | .resolve => "resolve"
  | .rewrite => "rewrite"

/-- The verb with a name. -/
def Verb.ofName? (name : String) : Option Verb :=
  [Verb.status, .infer, .resolve, .rewrite].find? (·.name = name)

namespace Flag

/-- The long name of an option. -/
def long : Flag → String
  | switch .verbose => "verbose"
  | switch .quiet => "quiet"
  | switch .json => "json"
  | setting .knowledge => "knowledge"
  | setting .config => "config"
  | setting .subject => "subject"
  | setting .predicate => "predicate"
  | setting .horizon => "horizon"
  | setting .label => "label"
  | setting .source => "from"
  | setting .target => "to"
  | setting .policy => "policy"
  | setting .seed => "seed"

/-- The letter of an option, if it has one. -/
def short? : Flag → Option Char
  | switch .verbose => some 'v'
  | switch .quiet => some 'q'
  | switch .json => none
  | setting .knowledge => some 'k'
  | setting .config => some 'c'
  | setting .subject => some 's'
  | setting .predicate => some 'p'
  | setting .horizon => some 'H'
  | setting .label => some 'l'
  | setting .source => some 'x'
  | setting .target => some 'y'
  | setting .policy => some 'P'
  | setting .seed => none

/-- The options that hold for every verb. -/
def everywhere : List Flag :=
  [switch .verbose, switch .quiet, switch .json, setting .knowledge, setting .config]

/-- The options of one verb. -/
def ofVerb : Verb → List Flag
  | .status => []
  | .infer => [setting .subject, setting .predicate, setting .horizon]
  | .resolve =>
    [setting .label, setting .source, setting .target, setting .policy, setting .seed]
  | .rewrite => [setting .label]

/-- The options that can be given here: before the verb, or after it. -/
def known (verb : Option Verb) : List Flag :=
  match verb with
  | none => everywhere
  | some v => everywhere ++ ofVerb v

end Flag

/-! ## 2. Roles -/

/-- What an argument, or a run of arguments, says. -/
inductive Occurrence where
  | switch (s : Switch)
  | setting (s : Setting) (value : String)
  /-- Points that stand next to each other, last one first. -/
  | points (labels : List String)
  deriving DecidableEq, Repr

/-- The roles of the arguments so far. -/
structure Scan where
  verb : Option Verb
  /-- What was said before the verb, latest first. -/
  outer : List Occurrence
  /-- What was said since, latest first. -/
  found : List Occurrence
  /-- An option whose value comes next. -/
  awaiting : Option Setting
  /-- Whether all that follows is points. -/
  literal : Bool

namespace Scan

/-- Nothing said yet. -/
def start : Scan := ⟨none, [], [], none, false⟩

/-- Notes what was said. -/
def say (s : Scan) (o : Occurrence) : Scan := { s with found := o :: s.found, awaiting := none }

/-- Goes on after the verb. -/
def enter (s : Scan) (verb : Verb) : Scan :=
  { s with verb := some verb, outer := s.found, found := [] }

/-- A point; only one verb has points. -/
def point (s : Scan) (label : String) : Option Scan :=
  if s.verb ≠ some .rewrite then none
  else
    match s.found with
    | .points labels :: rest => some { s with found := .points (label :: labels) :: rest }
    | found => some { s with found := .points [label] :: found }

/-- An option and the value that is attached to it, if any. -/
def flag (s : Scan) (f : Flag) (attached : Option String) : Option Scan :=
  match f, attached with
  | .switch w, none => some (s.say (.switch w))
  | .switch _, some _ => none
  | .setting w, some value => some (s.say (.setting w value))
  | .setting w, none => some { s with awaiting := some w }

/-- An option by its long name; a value is attached by an equals sign. -/
def longFlag (s : Scan) (body : List Char) : Option Scan := do
  let name := String.ofList (body.takeWhile (· ≠ '='))
  let attached := (body.dropWhile (· ≠ '=')).tail?
  let f ← (Flag.known s.verb).find? (·.long = name)
  s.flag f (attached.map String.ofList)

/-- Options by their letters. What follows the letter of an option with a value is the value; an
equals sign between the two is left out. -/
def shortFlags (s : Scan) : List Char → Option Scan
  | [] => some s
  | letter :: rest => do
    let f ← (Flag.known s.verb).find? (·.short? = some letter)
    match f, rest with
    | .switch _, rest => (← s.flag f none).shortFlags rest
    | .setting _, [] => s.flag f none
    | .setting _, '=' :: value => s.flag f (some (String.ofList value))
    | .setting _, value => s.flag f (some (String.ofList value))

/-- An argument that is no option. -/
def word (s : Scan) (arg : String) : Option Scan :=
  match s.awaiting, s.verb with
  | some setting, _ => some (s.say (.setting setting arg))
  | none, none => (Verb.ofName? arg).map s.enter
  | none, some _ => s.point arg

/-- The role of one argument. An option never stands where a value is awaited. -/
def step (s : Scan) (arg : String) : Option Scan :=
  if s.literal then s.point arg
  else
    match arg.toList with
    | '-' :: body =>
      if body.isEmpty then s.word arg
      else if s.awaiting.isSome then none
      else
        match body with
        | ['-'] => some { s with literal := true }
        | '-' :: body => s.longFlag body
        | body => s.shortFlags body
    | _ => s.word arg

end Scan

/-! ## 3. What was said -/

/-- The switches among some roles. -/
def switchesOf (said : List Occurrence) : List Switch :=
  said.filterMap fun
    | .switch s => some s
    | _ => none

/-- The settings among some roles. -/
def settingsOf (said : List Occurrence) : List (Setting × String) :=
  said.filterMap fun
    | .setting s value => some (s, value)
    | _ => none

/-- The runs of points among some roles, in order. -/
def runsOf (said : List Occurrence) : List (List String) :=
  (said.filterMap fun
    | .points labels => some labels.reverse
    | _ => none).reverse

/-- Whether nothing stands twice in a list. -/
def allDistinct {α : Type} [DecidableEq α] (l : List α) : Bool := decide l.Nodup

/-- The number of points that a row has. -/
def rowLength : Nat := 3

/-- Whether no option was given twice and every run of points is a full row. -/
def isWellSaid (said : List Occurrence) : Bool :=
  allDistinct (switchesOf said) && allDistinct ((settingsOf said).map Prod.fst) &&
    (runsOf said).all (·.length = rowLength)

/-- The value of a setting. -/
def valueOf? (said : List Occurrence) (s : Setting) : Option String := (settingsOf said).lookup s

/-! ## 4. Commands -/

/-- What to do. -/
inductive Command where
  | status
  | infer (subject predicate : String) (horizon : Option Float)
  | resolve (label source target : String) (policy : Option PolicyKind) (seed : Option Nat)
  | rewrite (label : String) (points : List String)

/-- A command and the options that hold for every verb. -/
structure Options where
  verbose : Bool
  quiet : Bool
  json : Bool
  knowledge : Option String
  config : Option String
  command : Command

/-- Reads a value that may be missing; one that is there must be readable. -/
def readOptional? {α : Type} (read : String → Option α) : Option String → Option (Option α)
  | none => some none
  | some value => (read value).map some

/-- A path is any text but the empty one. -/
def readPath? (value : String) : Option String := if value.isEmpty then none else some value

namespace Command

/-- The label of edges, unless one was given. -/
def labelOf (said : List Occurrence) : String := (valueOf? said .label).getD Label.defaultLink

/-- The command of a verb. -/
def read? (said : List Occurrence) : Verb → Option Command
  | .status => some .status
  | .infer => do
    let subject ← valueOf? said .subject
    let predicate ← valueOf? said .predicate
    let horizon ← readOptional? readFloat? (valueOf? said .horizon)
    return .infer subject predicate horizon
  | .resolve => do
    let source ← valueOf? said .source
    let target ← valueOf? said .target
    let policy ← readOptional? PolicyKind.ofName? (valueOf? said .policy)
    let seed ← readOptional? (readNat? (twoTo 64)) (valueOf? said .seed)
    return .resolve (labelOf said) source target policy seed
  | .rewrite =>
    let points := (runsOf said).flatten
    if points.isEmpty then none else some (.rewrite (labelOf said) points)

end Command

namespace Options

/-- A path that holds for every verb: what was said after the verb counts first. -/
def pathOf? (s : Scan) (setting : Setting) : Option (Option String) := do
  let outer ← readOptional? readPath? (valueOf? s.outer setting)
  let inner ← readOptional? readPath? (valueOf? s.found setting)
  return inner.or outer

/-- What the roles say together. -/
def ofScan? (s : Scan) : Option Options := do
  guard (s.awaiting.isNone && isWellSaid s.outer && isWellSaid s.found)
  let switches := switchesOf (s.outer ++ s.found)
  return {
    verbose := switches.contains .verbose
    quiet := switches.contains .quiet
    json := switches.contains .json
    knowledge := ← pathOf? s .knowledge
    config := ← pathOf? s .config
    command := ← Command.read? s.found (s.verb.getD .status) }

/-- The command of a command line. Without a verb it is the status. -/
def read? (args : List String) : Option Options := do
  ofScan? (← args.foldlM Scan.step .start)

end Options

end CellComplex
