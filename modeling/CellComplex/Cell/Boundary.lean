import CellComplex.Cell.Lookup
import CellComplex.DisjointSets
import CellComplex.Search

/-!
# Making a cell of a boundary

A list of cells is a boundary if it obeys four laws, which are checked before there is a cell:

* it is not empty, and every id in it is known;
* a boundary of points alone has at most two of them (`Cell.build`);
* otherwise its faces hang together: a chain of faces with common points leads from the first to
  every other (`firstApart`);
* and it is minimal: no face is listed twice, and none lies below another (`checkMinimal`).

A listing keeps an order of cells and may break the last law only.
-/

namespace CellComplex

/-- Which laws a boundary is held to. -/
inductive BoundaryCheck where
  | full
  | connectivity
  deriving DecidableEq, Repr

/-! ## 1. Hanging together -/

/-- What hangs together in a boundary: its faces, by position, and the points below them. -/
inductive Vertex where
  | point (id : CellId)
  | face (position : Nat)
  deriving DecidableEq, Repr

namespace Vertex

/-- Whether the vertex is a face. -/
def kind : Vertex → Nat
  | .point _ => 0
  | .face _ => 1

/-- The store of a point, the position of a face. -/
def major : Vertex → Nat
  | .point id => id.store
  | .face k => k

/-- The index of a point. -/
def minor : Vertex → Nat
  | .point id => id.index
  | .face _ => 0

instance : Ord Vertex :=
  ⟨compareLex (compareOn kind) (compareLex (compareOn major) (compareOn minor))⟩

instance : Std.TransOrd Vertex :=
  inferInstanceAs
    (Std.TransCmp (compareLex (compareOn kind) (compareLex (compareOn major) (compareOn minor))))

instance : Std.LawfulEqOrd Vertex where
  eq_of_compare {a b} h := by
    have h' : (compareOn kind a b).then
        ((compareOn major a b).then (compareOn minor a b)) = .eq := h
    simp only [Ordering.then_eq_eq, compareOn, Nat.compare_eq_eq] at h'
    obtain ⟨hk, hmaj, hmin⟩ := h'
    match a, b with
    | .point ⟨s, i⟩, .point ⟨t, j⟩ => simp_all [major, minor]
    | .face _, .face _ => simp_all [major]
    | .point _, .face _ => cases hk
    | .face _, .point _ => cases hk

end Vertex

/-- Puts a face and its points into one class. -/
def joinFace (d : DisjointSets Vertex) (position : Nat) (points : List CellId) :
    DisjointSets Vertex :=
  points.foldl
    (fun d p => ((d.insert (.point p)).union (.face position) (.point p)).2)
    (d.insert (.face position))

/-- The classes of faces and points that hang together. -/
def joinFaces (faces : List (Cell × Nat)) : DisjointSets Vertex :=
  faces.foldl (fun d f => joinFace d f.2 f.1.closure.toList) .empty

/-- The first of some faces that is not in the class of the face at position zero. -/
def firstOutside (d : DisjointSets Vertex) : List (Cell × Nat) → Option CellId
  | [] => none
  | (face, position) :: rest =>
    match d.connected (.face 0) (.face position) with
    | (true, d) => firstOutside d rest
    | (false, _) => some face.id

/-- The first face that no chain of faces with common points ties to the first one. -/
def firstApart (faces : List Cell) : Option CellId :=
  let placed := faces.zipIdx
  firstOutside (joinFaces placed) placed.tail

/-! ## 2. Minimality -/

/-- The first id of a list that was seen before. -/
def firstRepeat (seen : CellSet) : List CellId → Option CellId
  | [] => none
  | id :: rest => if seen.contains id then some id else firstRepeat (seen.insert id) rest

/-- Searches what lies below a face. Meeting a listed cell is a conflict; cells no higher than the
lowest face (`floor`) are not entered, since no listed cell lies below them. -/
def partsOf (look : Lookup) (label : String) (listed : CellSet) (floor : Nat)
    (container : CellId) : Branching StoreError where
  next id :=
    if listed.contains id then .error (.nonMinimalBoundary label id container)
    else
      match look.find id with
      | none => .error (.unknownCell id)
      | some c => .ok (if floor < c.dimension then c.boundary.reverse else [])
  finite := by
    obtain ⟨ids, h⟩ := look.finite
    refine ⟨ids, fun id parts hnext _ => ?_⟩
    split at hnext
    · cases hnext
    · split at hnext
      · cases hnext
      · next c hc => exact h id c hc

/-- The smallest dimension among some cells. -/
def lowest (faces : List Cell) : Nat := (faces.map Cell.dimension).min?.getD 0

/-- The largest dimension among some cells. -/
def highest (faces : List Cell) : Nat := (faces.map Cell.dimension).max?.getD 0

/-- Fails on the first face that is listed twice or lies below another face. What lies below a face
is painted with the place of the face, over the paint of earlier faces. -/
def checkMinimal (look : Lookup) (label : String) (faces : List Cell) : Except StoreError Unit :=
  let ids := faces.map Cell.id
  match firstRepeat ∅ ids with
  | some id => .error (.nonMinimalBoundary label id id)
  | none => do
    let listed := Std.TreeSet.ofList ids
    let floor := lowest faces
    let _ ← faces.zipIdx.foldlM (fun paint placed =>
      (partsOf look label listed floor placed.1.id).paintFrom placed.2 paint
        placed.1.boundary.reverse) ∅

/-- Fails on the first face that is apart from the others. -/
def checkConnected (label : String) (faces : List Cell) : Except StoreError Unit :=
  match firstApart faces with
  | some offender => .error (.disconnectedBoundary label offender)
  | none => .ok ()

/-! ## 3. The cell -/

/-- The points below some cells. -/
def closureOf (faces : List Cell) : CellSet :=
  faces.foldl (fun points face => points ∪ face.closure) ∅

namespace Cell

/-- The cell that given faces make, if they obey the laws. -/
def ofFaces (look : Lookup) (id : CellId) (label : String) (boundary : List CellId)
    (check : BoundaryCheck) (faces : List Cell) : Except StoreError Cell := do
  let dimension := highest faces + 1
  if dimension = 1 then
    if edgeEnds < boundary.length then
      throw (.tooManyEndpoints label boundary.length)
  else
    checkConnected label faces
    if check = .full then
      checkMinimal look label faces
  return { id, dimension, label, boundary, closure := closureOf faces,
           deleted := false, embedding := [], handler := none }

/-- The cell with a given boundary, if the boundary obeys the laws. -/
def build (look : Lookup) (id : CellId) (label : String) (boundary : List CellId)
    (check : BoundaryCheck) : Except StoreError Cell := do
  if boundary.isEmpty then
    throw (.emptyBoundary label)
  let faces ← boundary.mapM look.resolve
  ofFaces look id label boundary check faces

/-- A new cell: a point if there is no boundary, except that a listing must list something. -/
def make (look : Lookup) (id : CellId) (label : String) (boundary : List CellId)
    (check : BoundaryCheck) : Except StoreError Cell :=
  if boundary.isEmpty && check = .full then .ok (point id label)
  else build look id label boundary check

end Cell

end CellComplex
