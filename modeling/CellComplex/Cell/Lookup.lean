import CellComplex.Cell.Basic
import CellComplex.Error
import Std.Data.TreeMap

/-!
# Looking cells up

Boundaries hold ids. What turns an id into a cell is a `Lookup`, a finite partial map: that it is
finite is part of the type, and is why every search through boundaries ends, even one through a map
whose cells refer to each other in circles.

* `Lookup.resolve`: the cell of an id, or the failure that names the id.
* `Lookup.ofMap`: a plain map as a lookup.
-/

namespace CellComplex

/-- A finite partial map from ids to cells. -/
structure Lookup where
  find : CellId → Option Cell
  finite : ∃ ids : List CellId, ∀ id c, find id = some c → id ∈ ids

namespace Lookup

/-- The cell of an id. -/
def resolve (look : Lookup) (id : CellId) : Except StoreError Cell :=
  match look.find id with
  | some c => .ok c
  | none => .error (.unknownCell id)

theorem resolve_eq_ok {look : Lookup} {id : CellId} {c : Cell} :
    look.resolve id = .ok c ↔ look.find id = some c := by
  unfold resolve
  cases look.find id <;> simp

theorem resolve_eq_error {look : Lookup} {id : CellId} {e : StoreError} :
    look.resolve id = .error e ↔ look.find id = none ∧ e = .unknownCell id := by
  unfold resolve
  cases look.find id <;> simp [eq_comm]

/-- The first of two lookups that knows the id answers. -/
def orElse (a b : Lookup) : Lookup where
  find id := (a.find id).or (b.find id)
  finite := by
    obtain ⟨as, ha⟩ := a.finite
    obtain ⟨bs, hb⟩ := b.finite
    refine ⟨as ++ bs, fun id c h => ?_⟩
    rcases Option.or_eq_some_iff.mp h with h | ⟨_, h⟩
    · exact List.mem_append_left _ (ha id c h)
    · exact List.mem_append_right _ (hb id c h)

/-- The lookup that knows nothing. -/
def empty : Lookup := ⟨fun _ => none, [], fun _ _ h => nomatch h⟩

/-- A map of cells as a lookup. -/
def ofMap (cells : Std.TreeMap CellId Cell) : Lookup where
  find id := cells[id]?
  finite := by
    refine ⟨cells.keys, fun id c h => ?_⟩
    rw [Std.TreeMap.mem_keys]
    exact Std.TreeMap.mem_iff_isSome_getElem?.mpr (by simp [h])

end Lookup

end CellComplex
