import CellComplex.Evidence.Inference

/-!
# Evaluating cells

A cell may carry the key of a handler. A handler reads the space and the cell and yields numbers or
a message; a registry knows the handlers by their keys.

* `HandlerRegistry.evaluate`: runs the handler of a cell.
* `truthHandler`: evaluates an edge to the inferred truth of "source is target".
-/

namespace CellComplex

/-- Evaluates a cell, or says why it cannot. -/
abbrev Handler := Space → Cell → Except String Embedding

/-- Evaluates an edge to its inferred truth value. -/
def truthHandler (horizon : Float) : Handler := fun sp c =>
  match c.boundary with
  | [subject, predicate] =>
    match sp.inferTruth subject predicate horizon with
    | .ok summary => .ok (.ofTruth summary.truth)
    | .error e => .error e.message
  | _ => .error s!"{c.id.text} is not an edge"

/-- Handlers by their keys. -/
structure HandlerRegistry where
  handlers : Std.TreeMap String Handler

namespace HandlerRegistry

/-- No handlers. -/
def empty : HandlerRegistry := ⟨∅⟩

/-- The handler of a key. -/
def get? (r : HandlerRegistry) (key : String) : Option Handler := r.handlers[key]?

/-- Whether a key has a handler. -/
def contains (r : HandlerRegistry) (key : String) : Bool := r.handlers.contains key

/-- The number of handlers. -/
def size (r : HandlerRegistry) : Nat := r.handlers.size

/-- Gives a key a handler; tells whether it had one before. -/
def register (r : HandlerRegistry) (key : String) (handler : Handler) :
    Bool × HandlerRegistry :=
  (r.contains key, ⟨r.handlers.insert key handler⟩)

/-- The keys, in ascending order, as logs show them. -/
def text (r : HandlerRegistry) : String :=
  let keys := r.handlers.keys.map fun key => "HandlerKey(" ++ quoted key ++ ")"
  "HandlerRegistry \x7b keys: [" ++ ", ".intercalate keys ++ "] \x7d"

/-- Runs the handler of a cell. -/
def evaluate (r : HandlerRegistry) (sp : Space) (cell : CellId) : Except StoreError Embedding := do
  let c ← sp.resolve cell
  match c.handler with
  | none => throw (.noHandler cell)
  | some key =>
    match r.get? key with
    | none => throw (.unknownHandler key)
    | some handler => (handler sp c).mapError (.handler key)

end HandlerRegistry

end CellComplex
