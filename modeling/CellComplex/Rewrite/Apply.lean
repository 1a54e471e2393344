import CellComplex.Rewrite.Match
import CellComplex.Rewrite.Plan
import CellComplex.Rule.Compile
import CellComplex.Space.Edit

/-!
# Applying a rule

A rule is applied to a selection in three steps: match, stage, commit. All cells of the product are
made on the side first, under the ids that they will get, so that every law is checked before the
store changes.

* `stage`: the cells to add, or the first law that one of them breaks.
* `commit`: adds them, and deletes the matched cells that stand for nothing.
-/

namespace CellComplex

/-- What the application of a rule changed. -/
structure Rewrite where
  created : List CellId
  deleted : List CellId
  deriving DecidableEq, Repr

/-- Whether nothing changed. -/
def Rewrite.isEmpty (r : Rewrite) : Bool := r.created.isEmpty && r.deleted.isEmpty

/-! ## 1. Staging -/

/-- Cells made on the side, and what every product cell stands for by now. -/
structure Staging where
  cells : Std.TreeMap CellId Cell
  bindings : Std.TreeMap CellId CellId
  /-- The ids of the cells, latest first. -/
  created : List CellId

namespace Staging

/-- Nothing made yet. -/
def start (bindings : Std.TreeMap CellId CellId) : Staging := ⟨∅, bindings, []⟩

/-- The cells on the side, over those of a space. -/
def lookup (st : Staging) (sp : Space) : Lookup := (Lookup.ofMap st.cells).orElse sp.lookup

/-- What a cell of the product side stands for. -/
def standIn (st : Staging) (rule : Rule) (id : CellId) : Except StoreError CellId :=
  match st.bindings[id]? with
  | some bound => .ok bound
  | none => .error (rule.noTemplate id)

/-- Makes the cell of a template, `st.created.length` places from now. -/
def make (st : Staging) (sp : Space) (rule : Rule) (template : CellId) :
    Except StoreError Staging := do
  match rule.template? template with
  | none => throw (rule.noTemplate template)
  | some t =>
    let boundary ← t.boundary.mapM (st.standIn rule)
    let id := sp.top.nextId st.created.length
    let c ← Cell.make (st.lookup sp) id t.label boundary .full
    return { cells := st.cells.insert id c, bindings := st.bindings.insert template id,
             created := id :: st.created }

/-- The cells on the side, in the order of their ids. -/
def entering (st : Staging) : List Cell := st.cells.toList.map Prod.snd

end Staging

/-- Makes the cells of a plan on the side. -/
def stage (sp : Space) (rule : Rule) (bindings : Std.TreeMap CellId CellId)
    (plan : List CellId) : Except StoreError Staging :=
  plan.foldlM (fun st template => st.make sp rule template) (.start bindings)

/-! ## 2. Committing -/

/-- Adds cells, and deletes others. -/
def commit (made : List Cell) (unbound : List CellId) : Edit Unit := do
  made.forM fun c => discard (Space.insert c)
  unbound.forM Space.delete

namespace Space

/-- Matches a selection, and makes the product on the side. -/
def prepare (sp : Space) (rule : Rule) (selection : List CellId) :
    Except StoreError (Staging × List CellId) := do
  let m ← sp.matchRule rule selection
  let plan ← rule.plan m.bindings.contains
  let st ← stage sp rule m.bindings plan
  return (st, m.unbound)

/-- Applies a rule to a selection. -/
def rewrite (rule : Rule) (selection : List CellId) : Edit Rewrite := do
  let (st, unbound) ← Edit.look fun sp => sp.prepare rule selection
  commit st.entering unbound
  return { created := st.created.reverse, deleted := unbound }

/-- Reads the rule that hangs on a cell, and applies it. -/
def rewriteBy (rule : CellId) (selection : List CellId) : Edit Rewrite := do
  let compiled ← Edit.look (Rule.compile · rule)
  rewrite compiled selection

end Space

end CellComplex
