import CellComplex.Json
import CellComplex.Knowledge.Report

/-!
# Layout of reports

Every report has two forms: lines for readers, and JSON for programs. Lines show truth values with
four places and horizons in full; JSON gives every number so that it reads back.
-/

namespace CellComplex

/-- Lines, each with its end. -/
def unlines (lines : List String) : String := String.join (lines.map (· ++ "\n"))

/-- A number of a truth value as lines show it. -/
def shownTruth (x : Float) : String := fixedFloat 4 x

/-- A text that may be missing. -/
def optionalText : Option String → JsonValue
  | some s => .text s
  | none => .null

/-- A list of texts. -/
def textArray (texts : List String) : JsonValue := .array (texts.map .text)

/-! ## 1. Status -/

/-- Settings for programs. -/
def Settings.json (s : Settings) : JsonValue :=
  .object [("horizon", .float s.horizon), ("policy", .text s.policy.name),
    ("seed", match s.seed with | some n => .natural n | none => .null)]

namespace StatusReport

/-- The lines of a status. -/
def text (r : StatusReport) : String :=
  unlines [
    "cwstore Status",
    "==============",
    "Knowledge:  " ++ r.source.getD "(none)",
    "",
    s!"Points:     {r.points}",
    s!"Links:      {r.links}",
    s!"Cells:      {r.cells} ({r.liveCells} live)",
    s!"Atom Links: {r.atomLinks}",
    s!"Dimensions: {r.dimensions}",
    "",
    s!"Horizon:    {messageFloat r.settings.horizon}",
    s!"Policy:     {r.settings.policy.name}"]

/-- A status for programs. -/
def json (r : StatusReport) : JsonValue :=
  .object [("knowledge", optionalText r.source), ("points", .natural r.points),
    ("links", .natural r.links), ("cells", .natural r.cells),
    ("live_cells", .natural r.liveCells), ("atom_links", .natural r.atomLinks),
    ("dimensions", .natural r.dimensions), ("coboundary_stale", .bool r.stale),
    ("config", r.settings.json)]

end StatusReport

/-! ## 2. Inference -/

namespace InferReport

/-- The lines of an inference; the long form lists what the subject is and what is the subject. -/
def text (r : InferReport) (long : Bool) : String :=
  let e := r.evidence
  let lines := [
    s!"{r.subject} is {r.predicate}",
    s!"  truth: [{shownTruth e.truth.frequency}, {shownTruth e.truth.confidence}] " ++
      s!"({e.positive} of {e.total} evidence, k = {messageFloat r.horizon})"]
  let terms := [
    "  extension: " ++ ", ".intercalate r.extension,
    "  intension: " ++ ", ".intercalate r.intension]
  unlines (if long then lines ++ terms else lines)

/-- An inference for programs. -/
def json (r : InferReport) : JsonValue :=
  .object [("subject", .text r.subject), ("predicate", .text r.predicate),
    ("horizon", .float r.horizon), ("frequency", .float r.evidence.truth.frequency),
    ("confidence", .float r.evidence.truth.confidence),
    ("positive", .natural r.evidence.positive), ("total", .natural r.evidence.total),
    ("extension", textArray r.extension), ("intension", textArray r.intension)]

end InferReport

/-! ## 3. Evidence -/

namespace ResolveReport

/-- The lines of an answer. -/
def text (r : ResolveReport) : String :=
  unlines [
    s!"{r.source} {r.label} {r.target}",
    "  truth:  [" ++ ", ".intercalate (r.truth.map shownTruth) ++ "]",
    s!"  policy: {r.policy.name} ({r.resolved} duplicates removed)"]

/-- An answer for programs. -/
def json (r : ResolveReport) : JsonValue :=
  .object [("label", .text r.label), ("from", .text r.source), ("to", .text r.target),
    ("policy", .text r.policy.name), ("truth", .array (r.truth.map .float)),
    ("resolved", .natural r.resolved)]

end ResolveReport

/-! ## 4. Rewrites -/

namespace CellSummary

/-- The line of a cell, after a mark that says what became of it. -/
def line (mark : String) (c : CellSummary) : String :=
  s!"  {mark} {c.label} [" ++ ", ".intercalate c.boundary ++ "]"

/-- A cell for programs. -/
def json (c : CellSummary) : JsonValue :=
  .object [
    ("id", .object [("complex", .natural c.id.store), ("index", .natural c.id.index)]),
    ("label", .text c.label), ("dimension", .natural c.dimension),
    ("boundary", textArray c.boundary)]

end CellSummary

namespace RewriteReport

/-- The lines of a rewrite. -/
def text (r : RewriteReport) : String :=
  unlines (s!"Applied {r.rule}" ::
    (r.created.map (·.line "+") ++ r.deleted.map (·.line "-")))

/-- A rewrite for programs. -/
def json (r : RewriteReport) : JsonValue :=
  .object [("rule", .text r.rule), ("created", .array (r.created.map CellSummary.json)),
    ("deleted", .array (r.deleted.map CellSummary.json))]

end RewriteReport

end CellComplex
