import CellComplex.Evidence.Inference
import CellComplex.Evidence.Resolution
import CellComplex.Knowledge.Error
import CellComplex.Toml.Decode

/-!
# Settings

Settings come from a configuration document. Every one of them has a default, so an empty document
and none at all mean the same.

* `Settings.read`: the settings of a document. A document that cannot be read fails before a
  horizon that cannot be used.
-/

namespace CellComplex

/-- What a configuration document sets. -/
structure Settings where
  /-- The evidence horizon of inferences that name none. -/
  horizon : Float
  /-- How duplicate evidence is resolved. -/
  policy : PolicyKind
  /-- What the random policy starts from. -/
  seed : Option Nat

namespace Settings

/-- What holds without a document. -/
def standard : Settings := { horizon := defaultHorizon, policy := .revision, seed := none }

/-- A policy: its name, or a table whose one key is the name and holds nothing. -/
def readPolicy? : Toml.Value → Option PolicyKind
  | .text name => PolicyKind.ofName? name
  | .table _ [(name, v)] => if v.isEmpty then PolicyKind.ofName? name else none
  | _ => none

/-- The settings in a table. -/
def ofEntries? (entries : Toml.Entries) : Option Settings := do
  let known ← (Toml.Value.table .header entries).record? ["horizon", "policy", "seed"]
  return {
    horizon := ← known.optional "horizon" Toml.Value.float? standard.horizon
    policy := ← known.optional "policy" readPolicy? standard.policy
    seed := ← known.optional "seed" (fun v => (v.natural? (twoTo 64)).map some) none }

/-- The settings of a document. -/
def read (source : String) : Except KnowledgeError Settings :=
  match (Toml.readDocument? source).bind ofEntries? with
  | none => .error (.malformed .configuration)
  | some s => if isHorizon s.horizon then .ok s else .error (.invalidHorizon s.horizon)

end Settings

end CellComplex
