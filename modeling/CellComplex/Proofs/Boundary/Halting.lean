import CellComplex.Proofs.Boundary.Make
import CellComplex.Proofs.DisjointSets.Calls
import Mathlib.Algebra.Order.BigOperators.Group.List
import Mathlib.Algebra.Order.Ring.Nat

/-!
# Making a cell, step by step

A lookup need not be sound: cells may be missing, boundaries may lead back to where they came from,
and recorded dimensions and closures may be anything. Making a cell comes to an end all the same. To
say so, the loops are taken apart into single steps of a machine that may as well go on forever: it
works on the bare arrays of the forest, and the search below a face pushes what it likes.

* `Stage`, `Making.Step`: where the making of a cell stands, and one step on; a step tells the
  position and the id that it expands, if any, and a call on the forest is one step, in which the
  turns of its walks are taken by `Executes`; `Making.Run`: so many steps, and all that they expand;
* `Step.unique`, `Run.continues`: there is one way to go on;
* `Making.left`, **`Step.left_lt`**: what is left to do, which every step makes less -- the entries
  of the stack, and the boundaries of all ids that do not have the color of the face yet;
* `resolves`, `joins`, `compares`, `repeats`, `searches`: each loop runs to its end, and gives what
  the definition gives; `paints`: the search below one face expands an id once at most;
* **`make_halts`**: making a cell ends, with what `Cell.build` says, in a number of steps that is
  bounded by the lookup.
-/

namespace CellComplex

open DisjointSets (Arrays Call Executes)

/-- What a cell is to be made of. -/
structure Making where
  look : Lookup
  id : CellId
  label : String
  boundary : List CellId
  check : BoundaryCheck

/-- Where the making of a cell stands: what is still to do, and what was computed so far. -/
inductive Stage where
  | start
  | resolving (faces : List Cell) (todo : List CellId)
  | joining (faces : List Cell) (calls : List (Call Vertex)) (forest : Arrays Vertex)
  | comparing (faces : List Cell) (todo : List (Cell × Nat)) (forest : Arrays Vertex)
  | repeating (faces : List Cell) (todo : List CellId) (seen : CellSet)
  | searching (faces : List Cell) (todo : List (Cell × Nat)) (paint : Std.TreeMap CellId Nat)
  | painting (faces : List Cell) (face : Cell × Nat) (stack : List CellId)
      (todo : List (Cell × Nat)) (paint : Std.TreeMap CellId Nat)
  | finished (result : Except StoreError Cell)

/-- The stage after a computation that may fail. -/
def Stage.after {α : Type} (r : Except StoreError α) (next : α → Stage) : Stage :=
  match r with
  | .ok a => next a
  | .error e => .finished (.error e)

theorem Stage.after_bind {α β : Type} (r : Except StoreError α) (f : α → Except StoreError β)
    (next : β → Stage) : after (r >>= f) next = after r fun a => after (f a) next := by
  cases r <;> rfl

theorem Stage.after_finished (r : Except StoreError Cell) :
    after r (fun c => .finished (.ok c)) = .finished r := by
  cases r <;> rfl

/-- The stage after the search for a culprit. -/
def Stage.unless (culprit : Option CellId) (error : CellId → StoreError) (next : Stage) : Stage :=
  match culprit with
  | none => next
  | some x => .finished (.error (error x))

/-! ## 1. Steps -/

/-- The calls that join a face with the points below it. -/
def joinCalls (face : Cell × Nat) : List (Call Vertex) :=
  .insert (.face face.2) :: face.1.closure.toList.flatMap fun p =>
    [.insert (.point p), .union (.face face.2) (.point p)]

/-- The ids of some faces. -/
def listedIds (faces : List Cell) : CellSet := Std.TreeSet.ofList (faces.map Cell.id)

namespace Making

variable (m : Making)

/-- The cell over some faces. -/
def made (faces : List Cell) : Cell := .over m.id m.label m.boundary faces

/-- **One step**, with the position and the id that it expands. -/
inductive Step : Stage → Option (Nat × CellId) → Stage → Prop where
  | empty (h : m.boundary = []) : Step .start none (.finished (.error (.emptyBoundary m.label)))
  | begin (h : m.boundary ≠ []) : Step .start none (.resolving [] m.boundary)
  -- the ids of the boundary are looked up, and points are only counted
  | resolve {faces : List Cell} {b : CellId} {todo : List CellId} {c : Cell}
      (h : m.look.find b = some c) :
      Step (.resolving faces (b :: todo)) none (.resolving (faces ++ [c]) todo)
  | unknown {faces : List Cell} {b : CellId} {todo : List CellId} (h : m.look.find b = none) :
      Step (.resolving faces (b :: todo)) none (.finished (.error (.unknownCell b)))
  | edge {faces : List Cell} (h : highest faces = 0) (hfew : m.boundary.length ≤ edgeEnds) :
      Step (.resolving faces []) none (.finished (.ok (m.made faces)))
  | crowd {faces : List Cell} (h : highest faces = 0) (hmany : edgeEnds < m.boundary.length) :
      Step (.resolving faces []) none
        (.finished (.error (.tooManyEndpoints m.label m.boundary.length)))
  | resolved {faces : List Cell} (h : highest faces ≠ 0) :
      Step (.resolving faces []) none
        (.joining faces (faces.zipIdx.flatMap joinCalls) ⟨∅, #[], #[]⟩)
  -- the calls on the forest, on its bare arrays
  | join {faces : List Cell} {call : Call Vertex} {calls : List (Call Vertex)}
      {forest forest' : Arrays Vertex} {answer : DisjointSets.Answer}
      (h : Executes forest call answer forest') :
      Step (.joining faces (call :: calls) forest) none (.joining faces calls forest')
  | joined {faces : List Cell} {forest : Arrays Vertex} :
      Step (.joining faces [] forest) none (.comparing faces faces.zipIdx.tail forest)
  | tied {faces : List Cell} {face : Cell × Nat} {todo : List (Cell × Nat)}
      {forest forest' : Arrays Vertex}
      (h : Executes forest (.connected (.face 0) (.face face.2)) (.truth true) forest') :
      Step (.comparing faces (face :: todo) forest) none (.comparing faces todo forest')
  | apart {faces : List Cell} {face : Cell × Nat} {todo : List (Cell × Nat)}
      {forest forest' : Arrays Vertex}
      (h : Executes forest (.connected (.face 0) (.face face.2)) (.truth false) forest') :
      Step (.comparing faces (face :: todo) forest) none
        (.finished (.error (.disconnectedBoundary m.label face.1.id)))
  | listing {faces : List Cell} {forest : Arrays Vertex} (h : m.check ≠ .full) :
      Step (.comparing faces [] forest) none (.finished (.ok (m.made faces)))
  | compared {faces : List Cell} {forest : Arrays Vertex} (h : m.check = .full) :
      Step (.comparing faces [] forest) none (.repeating faces (faces.map Cell.id) ∅)
  -- minimality: first the repetitions, then the search below each face
  | again {faces : List Cell} {x : CellId} {todo : List CellId} {seen : CellSet} (h : x ∈ seen) :
      Step (.repeating faces (x :: todo) seen) none
        (.finished (.error (.nonMinimalBoundary m.label x x)))
  | first {faces : List Cell} {x : CellId} {todo : List CellId} {seen : CellSet} (h : x ∉ seen) :
      Step (.repeating faces (x :: todo) seen) none (.repeating faces todo (seen.insert x))
  | distinct {faces : List Cell} {seen : CellSet} :
      Step (.repeating faces [] seen) none (.searching faces faces.zipIdx ∅)
  | enter {faces : List Cell} {face : Cell × Nat} {todo : List (Cell × Nat)}
      {paint : Std.TreeMap CellId Nat} :
      Step (.searching faces (face :: todo) paint) none
        (.painting faces face face.1.boundary.reverse todo paint)
  | minimal {faces : List Cell} {paint : Std.TreeMap CellId Nat} :
      Step (.searching faces [] paint) none (.finished (.ok (m.made faces)))
  -- an id that has the color of the face is skipped; any other one conflicts, is missing or is
  -- expanded, and then has the color
  | skip {faces : List Cell} {face : Cell × Nat} {x : CellId} {stack : List CellId}
      {todo : List (Cell × Nat)} {paint : Std.TreeMap CellId Nat} (h : paint[x]? = some face.2) :
      Step (.painting faces face (x :: stack) todo paint) none
        (.painting faces face stack todo paint)
  | conflict {faces : List Cell} {face : Cell × Nat} {x : CellId} {stack : List CellId}
      {todo : List (Cell × Nat)} {paint : Std.TreeMap CellId Nat} (hnew : paint[x]? ≠ some face.2)
      (h : x ∈ listedIds faces) :
      Step (.painting faces face (x :: stack) todo paint) none
        (.finished (.error (.nonMinimalBoundary m.label x face.1.id)))
  | missing {faces : List Cell} {face : Cell × Nat} {x : CellId} {stack : List CellId}
      {todo : List (Cell × Nat)} {paint : Std.TreeMap CellId Nat} (hnew : paint[x]? ≠ some face.2)
      (hother : x ∉ listedIds faces) (h : m.look.find x = none) :
      Step (.painting faces face (x :: stack) todo paint) none
        (.finished (.error (.unknownCell x)))
  | expand {faces : List Cell} {face : Cell × Nat} {x : CellId} {stack : List CellId}
      {todo : List (Cell × Nat)} {paint : Std.TreeMap CellId Nat} {c : Cell}
      (hnew : paint[x]? ≠ some face.2) (hother : x ∉ listedIds faces) (h : m.look.find x = some c) :
      Step (.painting faces face (x :: stack) todo paint) (some (face.2, x))
        (.painting faces face
          ((if lowest faces < c.dimension then c.boundary.reverse else []) ++ stack) todo
          (paint.insert x face.2))
  | painted {faces : List Cell} {face : Cell × Nat} {todo : List (Cell × Nat)}
      {paint : Std.TreeMap CellId Nat} :
      Step (.painting faces face [] todo paint) none (.searching faces todo paint)

/-- So many steps, and all that they expand. -/
inductive Run : Nat → Stage → List (Nat × CellId) → Stage → Prop where
  | nil (s : Stage) : Run 0 s [] s
  | cons {n : Nat} {s t u : Stage} {visit : Option (Nat × CellId)} {visits : List (Nat × CellId)}
      (h : m.Step s visit t) (rest : Run n t visits u) : Run (n + 1) s (visit.toList ++ visits) u

variable {m} {s t u : Stage} {visit visit' : Option (Nat × CellId)} {n k : Nat}
variable {visits visits' : List (Nat × CellId)}

/-- There is one step on, at most. -/
theorem Step.unique (h : m.Step s visit t) (h' : m.Step s visit' u) : visit = visit' ∧ t = u := by
  cases h with
  | join h =>
    cases h' with
    | join h' =>
      obtain ⟨_, rfl⟩ := h.unique h'
      exact ⟨rfl, rfl⟩
  | tied h =>
    cases h' with
    | tied h' =>
      obtain ⟨_, rfl⟩ := h.unique h'
      exact ⟨rfl, rfl⟩
    | apart h' => cases (h.unique h').1
  | apart h =>
    cases h' with
    | tied h' => cases (h.unique h').1
    | apart h' => exact ⟨rfl, rfl⟩
  -- elsewhere the tests of two steps from one stage exclude each other
  | _ => cases h' <;> grind

theorem Run.append (h : m.Run n s visits t) (h' : m.Run k t visits' u) :
    m.Run (n + k) s (visits ++ visits') u := by
  induction h with
  | nil s =>
    rw [Nat.zero_add]
    exact h'
  | cons hstep _ ih =>
    rw [Nat.add_right_comm, List.append_assoc]
    exact .cons hstep (ih h')

/-- **There is one way to go on**: a run is the beginning of every run to the end. -/
theorem Run.continues {r : Except StoreError Cell} (h : m.Run k s visits t)
    (hend : m.Run n s visits' (.finished r)) :
    ∃ j rest, n = k + j ∧ visits' = visits ++ rest ∧ m.Run j t rest (.finished r) := by
  induction h generalizing n visits' with
  | nil s => exact ⟨n, visits', (Nat.zero_add n).symm, rfl, hend⟩
  | cons hstep _ ih =>
    cases hend with
    | nil => cases hstep
    | cons hstep' hend =>
      obtain ⟨rfl, rfl⟩ := hstep.unique hstep'
      obtain ⟨j, rest, rfl, rfl, hrest⟩ := ih hend
      exact ⟨j, rest, Nat.add_right_comm _ _ _, (List.append_assoc _ _ _).symm, hrest⟩

/-! ## 2. What is left to do -/

section Left

variable (m) (ids : List CellId)

/-- How many entries the expansion of an id can push. -/
def degree (x : CellId) : Nat := ((m.look.find x).map fun c => c.boundary.length).getD 0

/-- What the ids that do not have a color can push. -/
def unpainted (paint : Std.TreeMap CellId Nat) (color : Nat) : Nat :=
  (ids.map fun x => if paint[x]? = some color then 0 else m.degree x).sum

/-- What all ids can push. -/
def degrees : Nat := (ids.map m.degree).sum

/-- What the searches below some faces can take. -/
def searchLeft (todo : List (Cell × Nat)) : Nat :=
  (todo.map fun q => 2 + q.1.boundary.length + m.degrees ids).sum

/-- What a face can take: a call for itself and two for each point below it, a question to the
forest, a look whether it is listed again, and the search below it. -/
def faceLeft (c : Cell) : Nat := 5 + 2 * c.closure.size + c.boundary.length + m.degrees ids

/-- What a listed id can take. -/
def listedLeft (b : CellId) : Nat := 1 + ((m.look.find b).map (m.faceLeft ids)).getD 0

/-- **What is left to do**, at most. -/
def left : Stage → Nat
  | .start => 6 + (m.boundary.map (m.listedLeft ids)).sum
  | .resolving faces todo =>
    5 + (faces.map (m.faceLeft ids)).sum + (todo.map (m.listedLeft ids)).sum
  | .joining faces calls _ => 4 + calls.length + 2 * faces.length + m.searchLeft ids faces.zipIdx
  | .comparing faces todo _ => 3 + todo.length + faces.length + m.searchLeft ids faces.zipIdx
  | .repeating faces todo _ => 2 + todo.length + m.searchLeft ids faces.zipIdx
  | .searching _ todo _ => 1 + m.searchLeft ids todo
  | .painting _ face stack todo paint =>
    2 + stack.length + m.unpainted ids paint face.2 + m.searchLeft ids todo
  | .finished _ => 0

theorem unpainted_le (paint : Std.TreeMap CellId Nat) (color : Nat) :
    m.unpainted ids paint color ≤ m.degrees ids := by
  refine List.sum_le_sum fun x _ => ?_
  split
  · exact Nat.zero_le _
  · exact Nat.le_refl _

/-- The calls, the questions and the searches of some faces. -/
theorem joinCalls_left (faces : List Cell) (k : Nat) :
    ((faces.zipIdx k).flatMap joinCalls).length + 2 * faces.length +
      m.searchLeft ids (faces.zipIdx k) = (faces.map (m.faceLeft ids)).sum := by
  induction faces generalizing k with
  | nil => rfl
  | cons f rest ih =>
    have hcalls : (joinCalls (f, k)).length = 1 + 2 * f.closure.size := by
      simp only [joinCalls, List.length_cons, List.length_flatMap, List.length_nil,
        List.map_const', List.sum_replicate_nat, Std.TreeSet.length_toList]
      omega
    have hrest := ih (k + 1)
    have hsearch : m.searchLeft ids ((f, k) :: rest.zipIdx (k + 1)) =
        2 + f.boundary.length + m.degrees ids + m.searchLeft ids (rest.zipIdx (k + 1)) := rfl
    rw [List.zipIdx_cons, List.flatMap_cons, List.length_append, hcalls, hsearch, List.length_cons,
      List.map_cons, List.sum_cons, ← hrest, faceLeft]
    omega

variable {ids}

/-- An id that gets the color has nothing to push any more. -/
theorem unpainted_insert {paint : Std.TreeMap CellId Nat} {color : Nat} {x : CellId}
    (hx : x ∈ ids) (hnew : paint[x]? ≠ some color) :
    m.unpainted ids (paint.insert x color) color + m.degree x ≤ m.unpainted ids paint color := by
  -- every other id pushes no more than before
  have hle : ∀ y, (if (paint.insert x color)[y]? = some color then 0 else m.degree y) ≤
      if paint[y]? = some color then 0 else m.degree y := by
    intro y
    rw [Std.TreeMap.getElem?_insert]
    by_cases hxy : compare x y = .eq
    · rw [if_pos hxy, if_pos rfl]
      exact Nat.zero_le _
    · rw [if_neg hxy]
  unfold unpainted
  induction ids with
  | nil => cases hx
  | cons y ids ih =>
    rw [List.map_cons, List.map_cons, List.sum_cons, List.sum_cons]
    rcases List.mem_cons.mp hx with rfl | hx
    · rw [Std.TreeMap.getElem?_insert_self, if_pos rfl, if_neg hnew]
      have hrest := List.sum_le_sum (l := ids) fun y _ => hle y
      omega
    · have hrest := ih hx
      have hy := hle y
      omega

variable {m}

/-- **Every step leaves less to do**, whatever the cells record. -/
theorem Step.left_lt (hids : ∀ x c, m.look.find x = some c → x ∈ ids) (h : m.Step s visit t) :
    m.left ids t < m.left ids s := by
  cases h with
  | begin h =>
    simp only [left, List.map_nil, List.sum_nil]
    omega
  | @resolve faces b todo c h =>
    have hb : m.listedLeft ids b = 1 + m.faceLeft ids c := by rw [listedLeft, h]; rfl
    simp only [left, List.map_append, List.map_cons, List.map_nil, List.sum_append, List.sum_cons,
      List.sum_nil, hb]
    omega
  | @resolved faces h =>
    have hcalls := m.joinCalls_left ids faces 0
    simp only [left, List.map_nil, List.sum_nil]
    omega
  | @joined faces forest =>
    have htail : faces.zipIdx.tail.length ≤ faces.length := by
      rw [List.length_tail, List.length_zipIdx]
      exact Nat.sub_le _ _
    simp only [left, List.length_nil]
    omega
  | @enter faces face todo paint =>
    have hle := m.unpainted_le ids paint face.2
    simp only [left, List.length_reverse, searchLeft, List.map_cons, List.sum_cons]
    omega
  | @expand faces face x stack todo paint c hnew hother h =>
    have hpushed : (if lowest faces < c.dimension then c.boundary.reverse else []).length ≤
        m.degree x := by
      rw [degree, h]
      split
      · rw [List.length_reverse]
        exact Nat.le_refl _
      · exact Nat.zero_le _
    have hless := m.unpainted_insert (hids x c h) hnew
    simp only [left, List.length_append, List.length_cons]
    omega
  | _ =>
    simp only [left, List.length_cons, List.length_map, List.length_nil]
    omega

/-- A run is no longer than what there was to do. -/
theorem Run.length_le (hids : ∀ x c, m.look.find x = some c → x ∈ ids)
    (h : m.Run n s visits t) : n + m.left ids t ≤ m.left ids s := by
  induction h with
  | nil s => exact Nat.le_of_eq (Nat.zero_add _)
  | cons hstep _ ih =>
    have := hstep.left_lt hids
    omega

end Left

/-! ## 3. The loops -/

variable (m) in
/-- Some steps lead from one stage to the other, and expand these. -/
def Leads (s : Stage) (visits : List (Nat × CellId)) (t : Stage) : Prop := ∃ n, m.Run n s visits t

theorem Leads.refl (s : Stage) : m.Leads s [] s := ⟨0, .nil s⟩

theorem Leads.trans (h : m.Leads s visits t) (h' : m.Leads t visits' u) :
    m.Leads s (visits ++ visits') u := by
  obtain ⟨n, hrun⟩ := h
  obtain ⟨k, hrun'⟩ := h'
  exact ⟨n + k, hrun.append hrun'⟩

theorem Leads.cons (h : m.Step s visit t) (h' : m.Leads t visits u) :
    m.Leads s (visit.toList ++ visits) u := by
  obtain ⟨n, hrun⟩ := h'
  exact ⟨n + 1, .cons h hrun⟩

/-- A step that expands nothing. -/
theorem Leads.step (h : m.Step s none t) (h' : m.Leads t visits u) : m.Leads s visits u := h'.cons h

theorem Leads.last (h : m.Step s none t) : m.Leads s [] t := .step h (.refl t)

theorem resolves (faces : List Cell) (todo : List CellId) :
    m.Leads (.resolving faces todo) []
      (.after (todo.mapM m.look.resolve) fun rest => .resolving (faces ++ rest) []) := by
  induction todo generalizing faces with
  | nil =>
    rw [List.mapM_nil]
    show m.Leads _ [] (.resolving (faces ++ []) [])
    rw [List.append_nil]
    exact .refl _
  | cons b todo ih =>
    rw [List.mapM_cons, Stage.after_bind]
    cases hb : m.look.find b with
    | none =>
      rw [Lookup.resolve_eq_error.mpr ⟨hb, rfl⟩]
      exact .last (.unknown hb)
    | some c =>
      rw [Lookup.resolve_eq_ok.mpr hb]
      refine .step (.resolve hb) ?_
      show m.Leads _ [] (.after (todo.mapM m.look.resolve >>= fun cs => pure (c :: cs)) _)
      rw [Stage.after_bind]
      have hrest := ih (faces ++ [c])
      simp only [List.append_assoc, List.singleton_append] at hrest
      exact hrest

/-- The arrays of a forest take every call. -/
theorem joins (faces : List Cell) (calls : List (Call Vertex)) (d : DisjointSets Vertex) :
    m.Leads (.joining faces calls d.arrays) [] (.joining faces [] (d.after calls).arrays) := by
  induction calls generalizing d with
  | nil => exact .refl _
  | cons call calls ih => exact .step (.join (d.executes_perform call)) (ih _)

theorem compares (faces : List Cell) (todo : List (Cell × Nat)) (d : DisjointSets Vertex) :
    ∃ d' : DisjointSets Vertex, m.Leads (.comparing faces todo d.arrays) []
      (.unless (firstOutside d todo) (.disconnectedBoundary m.label)
        (.comparing faces [] d'.arrays)) := by
  induction todo generalizing d with
  | nil => exact ⟨d, .refl _⟩
  | cons face todo ih =>
    obtain ⟨f, k⟩ := face
    have hcall := d.executes_perform (.connected (.face 0) (.face k))
    rw [firstOutside_cons]
    cases hc : (d.connected (.face 0) (.face k)).1 with
    | true =>
      simp only [DisjointSets.perform, hc] at hcall
      obtain ⟨d', h⟩ := ih (d.connected (.face 0) (.face k)).2
      exact ⟨d', .step (.tied hcall) h⟩
    | false =>
      simp only [DisjointSets.perform, hc] at hcall
      exact ⟨d, .last (.apart hcall)⟩

theorem repeats (faces : List Cell) (todo : List CellId) (seen : CellSet) :
    m.Leads (.repeating faces todo seen) []
      (.unless (firstRepeat seen todo) (fun x => .nonMinimalBoundary m.label x x)
        (.searching faces faces.zipIdx ∅)) := by
  induction todo generalizing seen with
  | nil => exact .last .distinct
  | cons x todo ih =>
    rw [firstRepeat]
    by_cases hx : seen.contains x = true
    · rw [if_pos hx]
      exact .last (.again hx)
    · rw [if_neg hx]
      exact .step (.first hx) (ih _)

/-! ## 4. The searches -/

/-- What may be expanded between two positions: each id once at each position, and only known
ones. -/
structure Once (look : Lookup) (low high : Nat) (visits : List (Nat × CellId)) : Prop where
  nodup : visits.Nodup
  within : ∀ v ∈ visits, low ≤ v.1 ∧ v.1 < high
  known : ∀ v ∈ visits, ∃ c, look.find v.2 = some c

theorem once_nil (look : Lookup) (low high : Nat) : Once look low high [] where
  nodup := .nil
  within _ hv := absurd hv List.not_mem_nil
  known _ hv := absurd hv List.not_mem_nil

/-- What earlier positions expand is not expanded there again. -/
theorem Once.append {look : Lookup} {low mid high : Nat} (h : Once look low mid visits)
    (h' : Once look mid high visits') (hlow : low ≤ mid) (hhigh : mid ≤ high) :
    Once look low high (visits ++ visits') where
  nodup := by
    refine List.nodup_append.mpr ⟨h.nodup, h'.nodup, fun v hv w hw => ?_⟩
    rintro rfl
    exact Nat.not_lt_of_le (h'.within v hw).1 (h.within v hv).2
  within v hv := by
    rcases List.mem_append.mp hv with hv | hv
    · exact ⟨(h.within v hv).1, (h.within v hv).2.trans_le hhigh⟩
    · exact ⟨hlow.trans (h'.within v hv).1, (h'.within v hv).2⟩
  known v hv := (List.mem_append.mp hv).elim (h.known v) (h'.known v)

/-- **The search below a face** expands an id once at most: it gets the color of the face, and what
has this color is skipped. The colors of earlier faces do not matter. -/
theorem paints (faces : List Cell) (face : Cell × Nat) (todo : List (Cell × Nat))
    (stack : List CellId) (paint : Std.TreeMap CellId Nat) :
    ∃ visits, m.Leads (.painting faces face stack todo paint) visits
      (.after ((partsOf m.look m.label (listedIds faces) (lowest faces) face.1.id).paintFrom face.2
        paint stack) fun paint' => .searching faces todo paint') ∧
      Once m.look face.2 (face.2 + 1) visits ∧ ∀ v ∈ visits, paint[v.2]? ≠ some face.2 := by
  fun_induction Branching.paintFrom
    (partsOf m.look m.label (listedIds faces) (lowest faces) face.1.id) face.2 paint stack with
  | case1 paint =>
    exact ⟨[], .last .painted, once_nil _ _ _, fun v hv => absurd hv List.not_mem_nil⟩
  | case2 paint x rest hseen ih =>
    obtain ⟨visits, hleads, hfresh⟩ := ih
    exact ⟨visits, .step (.skip (beq_iff_eq.mp hseen)) hleads, hfresh⟩
  | case3 paint x rest hseen e hnext =>
    have hnew : paint[x]? ≠ some face.2 := fun h => hseen (beq_iff_eq.mpr h)
    refine ⟨[], ?_, once_nil _ _ _, fun v hv => absurd hv List.not_mem_nil⟩
    rcases partsOf_next_eq_error.mp hnext with ⟨hlisted, rfl⟩ | ⟨hother, hnone, rfl⟩
    · exact .last (.conflict hnew hlisted)
    · exact .last (.missing hnew hother hnone)
  | case4 paint x rest hseen ids hnext ih =>
    have hnew : paint[x]? ≠ some face.2 := fun h => hseen (beq_iff_eq.mpr h)
    obtain ⟨hother, c, hc, rfl⟩ := partsOf_next_eq_ok.mp hnext
    obtain ⟨visits, hleads, honce, hfresh⟩ := ih
    -- what comes later does not have the color, so it is another id
    have hlater : ∀ v ∈ visits, v.2 ≠ x ∧ paint[v.2]? ≠ some face.2 := by
      intro v hv
      have hv' := hfresh v hv
      rw [Std.TreeMap.getElem?_insert] at hv'
      split at hv'
      · exact absurd rfl hv'
      · next hne =>
        exact ⟨fun h => hne (Std.LawfulEqCmp.compare_eq_iff_eq.mpr h.symm), hv'⟩
    refine ⟨(face.2, x) :: visits, .cons (.expand hnew hother hc) hleads, ⟨?_, ?_, ?_⟩, ?_⟩
    · exact List.nodup_cons.mpr ⟨fun hv => (hlater _ hv).1 rfl, honce.nodup⟩
    · exact List.forall_mem_cons.mpr ⟨⟨Nat.le_refl _, Nat.lt_succ_self _⟩, honce.within⟩
    · exact List.forall_mem_cons.mpr ⟨⟨c, hc⟩, honce.known⟩
    · exact List.forall_mem_cons.mpr ⟨hnew, fun v hv => (hlater v hv).2⟩

/-- The searches below some faces, one after the other. -/
theorem searches (faces rest : List Cell) (k : Nat) (paint : Std.TreeMap CellId Nat) :
    ∃ visits, m.Leads (.searching faces (rest.zipIdx k) paint) visits
      (.after ((rest.zipIdx k).foldlM (fun paint placed =>
        (partsOf m.look m.label (listedIds faces) (lowest faces) placed.1.id).paintFrom placed.2
          paint placed.1.boundary.reverse) paint) fun _ => .finished (.ok (m.made faces))) ∧
      Once m.look k (k + rest.length) visits := by
  induction rest generalizing k paint with
  | nil => exact ⟨[], .last .minimal, once_nil _ _ _⟩
  | cons f rest ih =>
    rw [List.zipIdx_cons, List.foldlM_cons, Stage.after_bind]
    obtain ⟨visits, hleads, honce, _⟩ :=
      m.paints faces (f, k) (rest.zipIdx (k + 1)) f.boundary.reverse paint
    have hend : k + 1 + rest.length = k + (f :: rest).length := by
      rw [List.length_cons]
      omega
    cases hpaint : (partsOf m.look m.label (listedIds faces) (lowest faces) f.id).paintFrom k paint
        f.boundary.reverse with
    | error e =>
      rw [hpaint] at hleads
      have hnone := once_nil m.look (k + 1) (k + (f :: rest).length)
      refine ⟨visits ++ [], .step .enter (hleads.trans (.refl _)), ?_⟩
      exact honce.append hnone (Nat.le_succ k) (by omega)
    | ok paint' =>
      rw [hpaint] at hleads
      obtain ⟨visits', hleads', honce'⟩ := ih (k + 1) paint'
      exact ⟨visits ++ visits', .step .enter (hleads.trans hleads'),
        honce.append (hend ▸ honce') (Nat.le_succ k) (by omega)⟩

/-- The check for minimality. -/
theorem minimizes (faces : List Cell) :
    ∃ visits, m.Leads (.repeating faces (faces.map Cell.id) ∅) visits
      (.after (checkMinimal m.look m.label faces) fun _ => .finished (.ok (m.made faces))) ∧
      Once m.look 0 faces.length visits := by
  have hrepeats := m.repeats faces (faces.map Cell.id) ∅
  unfold checkMinimal
  dsimp only
  cases hrepeat : firstRepeat ∅ (faces.map Cell.id) with
  | some x =>
    rw [hrepeat] at hrepeats
    exact ⟨[], hrepeats, once_nil _ _ _⟩
  | none =>
    rw [hrepeat] at hrepeats
    obtain ⟨visits, hleads, honce⟩ := m.searches faces faces 0 ∅
    rw [Stage.after_bind]
    exact ⟨visits, hrepeats.trans hleads, Nat.zero_add faces.length ▸ honce⟩

/-! ## 5. The whole making -/

/-- A forest that takes the calls of the faces joins the faces. -/
theorem joinFaces_eq_after (faces : List (Cell × Nat)) :
    joinFaces faces =
      (DisjointSets.empty : DisjointSets Vertex).after (faces.flatMap joinCalls) := by
  have hface : ∀ (f : Cell × Nat) (d : DisjointSets Vertex),
      joinFace d f.2 f.1.closure.toList = d.after (joinCalls f) := by
    intro f d
    unfold joinFace joinCalls
    show _ = (d.insert (.face f.2)).after _
    generalize d.insert (.face f.2) = e
    induction f.1.closure.toList generalizing e with
    | nil => rfl
    | cons p points ih => exact ih _
  unfold joinFaces
  generalize (DisjointSets.empty : DisjointSets Vertex) = d
  induction faces generalizing d with
  | nil => rfl
  | cons f faces ih =>
    rw [List.foldl_cons, hface, ih, List.flatMap_cons]
    exact List.foldl_append.symm

/-- The checks of a boundary whose faces are not all points. -/
theorem checks {faces : List Cell} (hpos : highest faces ≠ 0) :
    ∃ visits, m.Leads (.resolving faces []) visits
      (.finished (Cell.ofFaces m.look m.id m.label m.boundary m.check faces)) ∧
      Once m.look 0 faces.length visits := by
  have hjoins : m.Leads (.resolving faces []) []
      (.comparing faces faces.zipIdx.tail (joinFaces faces.zipIdx).arrays) := by
    rw [joinFaces_eq_after]
    exact .step (.resolved hpos) ((m.joins faces _ .empty).trans (.last .joined))
  obtain ⟨d, hcompares⟩ := m.compares faces faces.zipIdx.tail (joinFaces faces.zipIdx)
  rw [ofFaces_of_compound hpos, ← Stage.after_finished, Stage.after_bind]
  unfold checkConnected firstApart
  dsimp only
  cases hfirst : firstOutside (joinFaces faces.zipIdx) faces.zipIdx.tail with
  | some o =>
    rw [hfirst] at hcompares
    exact ⟨[], hjoins.trans hcompares, once_nil _ _ _⟩
  | none =>
    rw [hfirst] at hcompares
    have hconnected := hjoins.trans hcompares
    by_cases hfull : m.check = .full
    · obtain ⟨visits, hleads, honce⟩ := m.minimizes faces
      refine ⟨visits, hconnected.trans (.step (.compared hfull) ?_), honce⟩
      show m.Leads _ visits (.after (if m.check = .full then _ else _) _)
      rw [if_pos hfull, Stage.after_bind]
      exact hleads
    · refine ⟨[], hconnected.trans (.last ?_), once_nil _ _ _⟩
      show m.Step _ none (.after (if m.check = .full then _ else _) _)
      rw [if_neg hfull]
      exact .listing hfull

/-- **The machine gives what the definition gives.** -/
theorem makes (m : Making) :
    ∃ visits, m.Leads .start visits
      (.finished (Cell.build m.look m.id m.label m.boundary m.check)) ∧
      Once m.look 0 m.boundary.length visits := by
  by_cases hne : m.boundary = []
  · refine ⟨[], ?_, once_nil _ _ _⟩
    rw [hne]
    exact .last (.empty hne)
  · have hresolves := m.resolves [] m.boundary
    rw [build_of_ne hne, ← Stage.after_finished, Stage.after_bind]
    cases hfaces : m.boundary.mapM m.look.resolve with
    | error e =>
      rw [hfaces] at hresolves
      exact ⟨[], .step (.begin hne) hresolves, once_nil _ _ _⟩
    | ok faces =>
      rw [hfaces] at hresolves
      have hbegin : m.Leads .start [] (.resolving faces []) := .step (.begin hne) hresolves
      rw [← Outcome.mapM_length hfaces]
      show ∃ visits, m.Leads .start visits (.after (Cell.ofFaces _ _ _ _ _ faces) _) ∧ _
      rw [Stage.after_finished]
      by_cases hzero : highest faces = 0
      · refine ⟨[], hbegin.trans (.last ?_), once_nil _ _ _⟩
        rw [ofFaces_of_points hzero]
        by_cases hmany : edgeEnds < m.boundary.length
        · rw [if_pos hmany]
          exact .crowd hzero hmany
        · rw [if_neg hmany]
          exact .edge hzero (Nat.le_of_not_lt hmany)
      · obtain ⟨visits, hleads, honce⟩ := m.checks hzero
        exact ⟨visits, hbegin.trans hleads, honce⟩

end Making

/-- **Making a cell ends, whatever the lookup holds**: boundaries may form cycles, lead to cells
that are missing, and disagree with what is recorded. From the start the machine has one way to go,
which ends with the cell or the error of `Cell.build`; on the way it expands an id once at most for
each position of the boundary, and what the lookup knows bounds the number of its steps. -/
theorem make_halts (m : Making) :
    ∃ n visits, m.Run n .start visits
      (.finished (Cell.build m.look m.id m.label m.boundary m.check)) ∧
      visits.Nodup ∧
      (∀ v ∈ visits, v.1 < m.boundary.length ∧ ∃ c, m.look.find v.2 = some c) ∧
      (∀ ids : List CellId, (∀ x c, m.look.find x = some c → x ∈ ids) → n ≤ m.left ids .start) ∧
      ∀ k earlier s, m.Run k .start earlier s →
        ∃ j later, n = k + j ∧ visits = earlier ++ later ∧
          m.Run j s later (.finished (Cell.build m.look m.id m.label m.boundary m.check)) := by
  obtain ⟨visits, ⟨n, hrun⟩, honce⟩ := m.makes
  refine ⟨n, visits, hrun, honce.nodup, fun v hv => ⟨(honce.within v hv).2, honce.known v hv⟩,
    fun ids hids => ?_, fun k earlier s hearlier => hearlier.continues hrun⟩
  have hlength := hrun.length_le hids
  exact Nat.le_trans (Nat.le_add_right _ _) hlength

/-- A cell over another one, which is its own face twice. Of the point that they record below them,
nothing is known. -/
def circularCells : Std.TreeMap CellId Cell :=
  let above := { Cell.point ⟨0, 0⟩ "above" with
    dimension := 1, boundary := [⟨0, 1⟩], closure := {⟨0, 9⟩} }
  let loop := { Cell.point ⟨0, 1⟩ "loop" with
    dimension := 2, boundary := [⟨0, 1⟩, ⟨0, 1⟩], closure := {⟨0, 9⟩} }
  (∅ : Std.TreeMap CellId Cell).insert ⟨0, 0⟩ above |>.insert ⟨0, 1⟩ loop

/-- The making of a cell that leads into the loop. -/
def circularMaking : Making := ⟨.ofMap circularCells, ⟨0, 2⟩, "top", [⟨0, 0⟩], .full⟩

/-- The loop is left in eighteen steps at most, and from the first step on there is one way. -/
theorem make_halts_circular :
    ∃ n visits, circularMaking.Run n .start visits (.finished (Cell.build circularMaking.look
        ⟨0, 2⟩ "top" [⟨0, 0⟩] .full)) ∧ n ≤ 18 ∧ visits.Nodup ∧
      ∃ j, n = 1 + j ∧ circularMaking.Run j (.resolving [] [⟨0, 0⟩]) visits
        (.finished (Cell.build circularMaking.look ⟨0, 2⟩ "top" [⟨0, 0⟩] .full)) := by
  obtain ⟨n, visits, hrun, hnodup, _, hleft, hcontinues⟩ := make_halts circularMaking
  have hids : ∀ x c, circularMaking.look.find x = some c → x ∈ circularCells.keys := by
    intro x c hx
    exact Std.TreeMap.mem_keys.mpr (Std.TreeMap.mem_iff_isSome_getElem?.mpr (by
      rw [show circularCells[x]? = some c from hx]
      rfl))
  have hfirst : circularMaking.Run 1 .start [] (.resolving [] [⟨0, 0⟩]) :=
    .cons (.begin (List.cons_ne_nil _ _)) (.nil _)
  obtain ⟨j, later, hn, hvisits, hlater⟩ := hcontinues 1 [] _ hfirst
  rw [List.nil_append] at hvisits
  subst hvisits
  have hbound : circularMaking.left circularCells.keys .start = 18 := by decide
  exact ⟨n, visits, hrun, hbound ▸ hleft _ hids, hnodup, j, hn, hlater⟩

end CellComplex
