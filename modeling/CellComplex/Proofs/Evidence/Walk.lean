import CellComplex.Evidence.Walk
import CellComplex.Proofs.Search.Recursion
import CellComplex.Proofs.Store.Freshness

/-!
# What a walk reaches

A walk goes depth first through the coface index. Here index and order are taken away: a walk from a
point reaches exactly what live edges tie to it, whatever the graph of the edges looks like.

* `Store.Follows`: one step along a live edge, away from a live cell;
* `Store.Traverses`: a list is a walk from a point -- it begins there, repeats nothing and holds
  what any number of steps reach;
* `walk_eq_preorder`: a walk is a search; `walk_of_within`: by its steps, to evaluate it;
* `Reachable.leads_iff`: in a store with a fresh index the steps of the search are these steps;
* `follows_back`: between live ends a chain of steps can be gone backwards;
* **`walk_traverses`**: extension and intension are walks, and mirror each other.
-/

namespace CellComplex

open Relation (ReflTransGen)

/-! ## 1. Steps -/

namespace Direction

/-- The boundary of an edge that leads from `u` to `v`. -/
def ends : Direction → CellId → CellId → List CellId
  | .intension, u, v => [u, v]
  | .extension, u, v => [v, u]

/-- The other direction. -/
def opposite : Direction → Direction
  | .intension => .extension
  | .extension => .intension

theorem ends_opposite (direction : Direction) (u v : CellId) :
    direction.opposite.ends v u = direction.ends u v := by
  cases direction <;> rfl

theorem mem_ends (direction : Direction) (u v : CellId) : u ∈ direction.ends u v := by
  cases direction <;> simp [ends]

theorem mem_ends_far (direction : Direction) (u v : CellId) : v ∈ direction.ends u v := by
  cases direction <;> simp [ends]

theorem length_ends (direction : Direction) (u v : CellId) :
    (direction.ends u v).length = edgeEnds := by
  cases direction <;> rfl

end Direction

namespace Store

variable {s : Store} {direction : Direction} {u v x y : CellId}

/-- A live point of the store. -/
def IsLivePoint (s : Store) (x : CellId) : Prop :=
  ∃ c, s.find? x = some c ∧ c.dimension = 0 ∧ c.isLive = true

instance (s : Store) (x : CellId) : Decidable (s.IsLivePoint x) :=
  decidable_of_iff ((s.find? x).any fun c => c.dimension == 0 && c.isLive) (by
    simp [IsLivePoint, Option.any_eq_true])

/-- **One step**: `u` is live, and a live edge leads from `u` to `v`. -/
def Follows (s : Store) (direction : Direction) (u v : CellId) : Prop :=
  (∃ c, s.find? u = some c ∧ c.isLive = true) ∧
    ∃ e o, s.find? e = some o ∧ o.isLive = true ∧ o.dimension = 1 ∧
      o.boundary = direction.ends u v

/-- **A walk from a point**: it begins there, repeats nothing, and holds exactly what any number of
steps reach. -/
structure Traverses (s : Store) (direction : Direction) (start : CellId) (order : List CellId) :
    Prop where
  head : order.head? = some start
  nodup : order.Nodup
  mem_iff : ∀ x, x ∈ order ↔ ReflTransGen (s.Follows direction) start x

theorem Traverses.start_mem {start : CellId} {order : List CellId}
    (h : s.Traverses direction start order) : start ∈ order := (h.mem_iff start).mpr .refl

/-- A step leads to a point. -/
theorem Follows.isPoint (hs : s.lookup.Sound) (h : s.Follows direction x y) :
    s.lookup.IsPoint y := by
  obtain ⟨_, e, o, ho, _, hdim, hends⟩ := h
  obtain ⟨f, hf, hlt⟩ := hs.lower e o ho y (hends ▸ direction.mem_ends_far x y)
  exact ⟨f, hf, by omega⟩

/-- A chain that begins at a point leads to points. -/
theorem isPoint_of_follows (hs : s.lookup.Sound) (hx : s.lookup.IsPoint x)
    (h : ReflTransGen (s.Follows direction) x y) : s.lookup.IsPoint y := by
  rcases ReflTransGen.cases_tail h with rfl | ⟨z, _, hstep⟩
  · exact hx
  · exact hstep.isPoint hs

/-- Where a chain of steps begins is alive, if its end is. -/
theorem isLive_of_follows (h : ReflTransGen (s.Follows direction) x y)
    (hy : ∃ c, s.find? y = some c ∧ c.isLive = true) :
    ∃ c, s.find? x = some c ∧ c.isLive = true := by
  rcases ReflTransGen.cases_head h with rfl | ⟨z, hstep, _⟩
  · exact hy
  · exact hstep.1

/-- **Between live ends a chain of steps can be gone backwards.** -/
theorem follows_back (h : ReflTransGen (s.Follows direction) x y)
    (hy : ∃ c, s.find? y = some c ∧ c.isLive = true) :
    ReflTransGen (s.Follows direction.opposite) y x := by
  induction h using ReflTransGen.head_induction_on with
  | refl => exact .refl
  | @head u v hstep hrest ih =>
    obtain ⟨_, e, o, ho, hlive, hdim, hends⟩ := hstep
    have hback : s.Follows direction.opposite v u :=
      ⟨isLive_of_follows hrest hy, e, o, ho, hlive, hdim,
        hends.trans (direction.ends_opposite u v).symm⟩
    exact ih.tail hback

end Store

/-! ## 2. Steps of the search -/

namespace Space

variable {sp : Space} {direction : Direction} {u v : CellId}

theorem farEnd_eq_some {boundary : List CellId} :
    farEnd direction u boundary = some v ↔ boundary = direction.ends u v := by
  match boundary, direction with
  | [a, b], .intension =>
    show (if a = u then some b else none) = some v ↔ [a, b] = [u, v]
    by_cases h : a = u <;> simp [h]
  | [a, b], .extension =>
    show (if b = u then some a else none) = some v ↔ [a, b] = [v, u]
    by_cases h : b = u <;> simp [h]
  | [], direction => cases direction <;> simp [farEnd, Direction.ends]
  | [a], direction => cases direction <;> simp [farEnd, Direction.ends]
  | a :: b :: c :: rest, direction => cases direction <;> simp [farEnd, Direction.ends]

theorem isEdge_iff {c : Cell} :
    c.isEdge = true ↔ c.dimension = 1 ∧ c.boundary.length = edgeEnds ∧ c.isLive = true := by
  unfold Cell.isEdge Cell.isLive
  rw [Bool.and_eq_true, Bool.and_eq_true, beq_iff_eq, beq_iff_eq, and_assoc]

/-- Where an edge leads to from `u`, if it leads anywhere. -/
def leadsTo? (sp : Space) (direction : Direction) (u edge : CellId) : Option CellId :=
  (sp.find? edge).bind fun c => if c.isEdge then farEnd direction u c.boundary else none

theorem leadsTo?_eq_some {e : CellId} :
    sp.leadsTo? direction u e = some v ↔
      ∃ o, sp.find? e = some o ∧ o.isLive = true ∧ o.dimension = 1 ∧
        o.boundary = direction.ends u v := by
  unfold leadsTo?
  rw [Option.bind_eq_some_iff]
  refine exists_congr fun o => and_congr_right fun _ => ?_
  by_cases hedge : o.isEdge = true
  · rw [if_pos hedge, farEnd_eq_some]
    obtain ⟨hdim, _, hlive⟩ := isEdge_iff.mp hedge
    exact ⟨fun h => ⟨hlive, hdim, h⟩, fun h => h.2.2⟩
  · rw [if_neg hedge]
    refine iff_of_false (fun h => by cases h) fun h => hedge ?_
    obtain ⟨hlive, hdim, hends⟩ := h
    exact isEdge_iff.mpr ⟨hdim, hends ▸ direction.length_ends u v, hlive⟩

/-- A neighbour is the far end of an edge that the index knows. -/
theorem mem_neighbours :
    v ∈ sp.neighbours direction u ↔
      ∃ e ∈ sp.cofacesOf u, ∃ o, sp.find? e = some o ∧ o.isLive = true ∧ o.dimension = 1 ∧
        o.boundary = direction.ends u v := by
  unfold neighbours
  rw [List.mem_filterMap]
  exact exists_congr fun e => and_congr Std.TreeSet.mem_toList leadsTo?_eq_some

theorem leads_iff_mem_neighbours :
    (sp.steps direction).Leads u v ↔ v ∈ sp.neighbours direction u := by
  refine ⟨fun h => ?_, fun h => ⟨_, rfl, h⟩⟩
  obtain ⟨ids, hnext, hv⟩ := h
  cases hnext
  exact hv

/-- **A walk from a known point is a search**, though it leaves out on the way what was visited. -/
theorem walk_eq_preorder (direction : Direction) {start : CellId} {c : Cell}
    (hc : sp.find? start = some c) (hpoint : c.dimension = 0) :
    sp.walk direction start = (sp.steps direction).preorder [start] := by
  have hstart : sp.resolve start = .ok c := Lookup.resolve_eq_ok.mpr hc
  have hpass : requirePoint c = .ok () := if_pos hpoint
  unfold walk
  rw [hstart]
  show (requirePoint c >>= fun _ => (sp.steps direction).pruned [start]) = _
  rw [hpass, ← Branching.pruned_eq_preorder]
  rfl

/-- A walk from a point, by its steps. -/
theorem walk_of_within {start : CellId} {order : List CellId} (hstart : sp.lookup.IsPoint start)
    (n : Nat) (h : (sp.steps direction).within n [] [start] = some order) :
    sp.walk direction start = .ok order := by
  obtain ⟨c, hc, hpoint⟩ := hstart
  exact (walk_eq_preorder direction hc hpoint).trans (Branching.preorder_of_within h)

/-- A walk from a known point ends, and holds what its steps reach. -/
theorem walk_eq_ok (direction : Direction) {start : CellId} {c : Cell}
    (hc : sp.find? start = some c) (hpoint : c.dimension = 0) :
    ∃ order, sp.walk direction start = .ok order ∧ order.head? = some start ∧ order.Nodup ∧
      ∀ x, x ∈ order ↔ ReflTransGen (sp.steps direction).Leads start x := by
  have hends : ∀ x, (sp.steps direction).Reached [start] x →
      ∃ ids, (sp.steps direction).next x = .ok ids := fun x _ => ⟨_, rfl⟩
  obtain ⟨order, horder⟩ := Branching.preorder_isOk_iff.mpr hends
  refine ⟨order, (walk_eq_preorder direction hc hpoint).trans horder,
    Branching.head?_preorder horder, Branching.preorder_nodup horder, fun x => ?_⟩
  rw [Branching.mem_preorder horder]
  unfold Branching.Reached
  simp

end Space

/-! ## 3. Stores with a fresh index -/

namespace Store

variable {s : Store} {direction : Direction} {u v x y start : CellId}

/-- **The steps of the search are the steps along live edges.** -/
theorem Reachable.leads_iff (h : s.Reachable) (hfresh : s.isStale = false) :
    ((Space.ofStore s).steps direction).Leads u v ↔ s.Follows direction u v := by
  rw [Space.leads_iff_mem_neighbours, Space.mem_neighbours]
  refine ⟨fun h' => ?_, fun h' => ?_⟩
  · obtain ⟨e, he, o, ho, hlive, hdim, hends⟩ := h'
    obtain ⟨hu, _⟩ := (h.mem_cofacesOf hfresh).mp he
    exact ⟨hu, e, o, (find?_ofStore s e).symm.trans ho, hlive, hdim, hends⟩
  · obtain ⟨hu, e, o, ho, hlive, hdim, hends⟩ := h'
    have hcoface : s.Coface u e :=
      ⟨hu, o, ho, hlive, Nat.le_of_eq hdim.symm, hends ▸ direction.mem_ends u v⟩
    refine ⟨e, (h.mem_cofacesOf hfresh).mpr hcoface, o, ?_, hlive, hdim, hends⟩
    exact (find?_ofStore s e).trans ho

/-- A walk from a point of the store. -/
theorem Reachable.walk_eq_ok (h : s.Reachable) (hfresh : s.isStale = false) (direction : Direction)
    (hstart : s.lookup.IsPoint start) :
    ∃ order, (Space.ofStore s).walk direction start = .ok order ∧
      s.Traverses direction start order := by
  obtain ⟨c, hc, hpoint⟩ := hstart
  have hc' : (Space.ofStore s).find? start = some c := (find?_ofStore s start).trans hc
  obtain ⟨order, horder, hhead, hnodup, hmem⟩ := Space.walk_eq_ok direction hc' hpoint
  have hsteps : ((Space.ofStore s).steps direction).Leads = s.Follows direction :=
    funext fun u => funext fun v => propext (h.leads_iff hfresh)
  exact ⟨order, horder, hhead, hnodup, hsteps ▸ hmem⟩

theorem IsLivePoint.mono {t : Store} (h : s.IsLivePoint x)
    (hkept : ∀ id c, s.find? id = some c → t.find? id = some c) : t.IsLivePoint x := by
  obtain ⟨c, hc, hpoint, hlive⟩ := h
  exact ⟨c, hkept x c hc, hpoint, hlive⟩

theorem IsLivePoint.isPoint (h : s.IsLivePoint x) : s.lookup.IsPoint x := by
  obtain ⟨c, hc, hpoint, _⟩ := h
  exact ⟨c, hc, hpoint⟩

theorem IsLivePoint.isLive (h : s.IsLivePoint x) : ∃ c, s.find? x = some c ∧ c.isLive = true := by
  obtain ⟨c, hc, _, hlive⟩ := h
  exact ⟨c, hc, hlive⟩

/-- What a point is, is that point's other end: the two walks mirror each other. -/
theorem Traverses.mirror {ahead behind : List CellId} (hx : s.IsLivePoint x) (hy : s.IsLivePoint y)
    (hahead : s.Traverses .intension x ahead) (hbehind : s.Traverses .extension y behind) :
    y ∈ ahead ↔ x ∈ behind := by
  rw [hahead.mem_iff, hbehind.mem_iff]
  exact ⟨fun h => follows_back h hy.isLive, fun h => follows_back h hx.isLive⟩

end Store

/-- **Walks are exact.** In a reachable store with a fresh index, every point has an extension and
an intension, and these are walks against and along the live edges; between live points, `y` is in
the intension of `x` exactly if `x` is in the extension of `y`. -/
theorem walk_traverses {s : Store} (hs : s.Reachable) (hfresh : s.isStale = false) :
    (∀ start, s.lookup.IsPoint start →
      ∃ ahead behind, (Space.ofStore s).intension start = .ok ahead ∧
        (Space.ofStore s).extension start = .ok behind ∧
        s.Traverses .intension start ahead ∧ s.Traverses .extension start behind) ∧
    ∀ x y, s.IsLivePoint x → s.IsLivePoint y →
      ∃ ahead behind, (Space.ofStore s).intension x = .ok ahead ∧
        (Space.ofStore s).extension y = .ok behind ∧ (y ∈ ahead ↔ x ∈ behind) := by
  refine ⟨fun start hstart => ?_, fun x y hx hy => ?_⟩
  · obtain ⟨ahead, hahead, htrav⟩ := hs.walk_eq_ok hfresh .intension hstart
    obtain ⟨behind, hbehind, htrav'⟩ := hs.walk_eq_ok hfresh .extension hstart
    exact ⟨ahead, behind, hahead, hbehind, htrav, htrav'⟩
  · obtain ⟨ahead, hahead, htrav⟩ := hs.walk_eq_ok hfresh .intension hx.isPoint
    obtain ⟨behind, hbehind, htrav'⟩ := hs.walk_eq_ok hfresh .extension hy.isPoint
    exact ⟨ahead, behind, hahead, hbehind, htrav.mirror hx hy htrav'⟩

/-- Two points on a circle of edges, one edge twice and a loop, beside a cell with one end. -/
def ring : Store :=
  runAll (.empty 0) [.create "a" [], .create "b" [], .create "ab" [⟨0, 0⟩, ⟨0, 1⟩],
    .create "ab" [⟨0, 0⟩, ⟨0, 1⟩], .create "ba" [⟨0, 1⟩, ⟨0, 0⟩], .create "bb" [⟨0, 1⟩, ⟨0, 1⟩],
    .create "end" [⟨0, 0⟩], .buildIndex]

/-- On the circle each point is reached from the other, both ways. -/
theorem walk_traverses_ring :
    ring.isStale = false ∧ ∃ ahead behind, (Space.ofStore ring).intension ⟨0, 0⟩ = .ok ahead ∧
      (Space.ofStore ring).extension ⟨0, 1⟩ = .ok behind ∧ ⟨0, 1⟩ ∈ ahead ∧ ⟨0, 0⟩ ∈ behind := by
  have hreach : ring.Reachable := (Store.Reachable.empty 0).runAll _
  have hfresh : ring.isStale = false := by decide +kernel
  obtain ⟨hwalks, hmirror⟩ := walk_traverses hreach hfresh
  have ha : ring.IsLivePoint ⟨0, 0⟩ := ⟨_, rfl, rfl, rfl⟩
  have hb : ring.IsLivePoint ⟨0, 1⟩ := ⟨_, rfl, rfl, rfl⟩
  obtain ⟨ahead, behind, hahead, hbehind, hiff⟩ := hmirror _ _ ha hb
  obtain ⟨ahead', _, hahead', _, htrav, _⟩ := hwalks ⟨0, 0⟩ ha.isPoint
  cases hahead.symm.trans hahead'
  have hstep : ring.Follows .intension ⟨0, 0⟩ ⟨0, 1⟩ :=
    ⟨ha.isLive, ⟨0, 2⟩, _, rfl, rfl, rfl, rfl⟩
  have hmem : ⟨0, 1⟩ ∈ ahead := (htrav.mem_iff _).mpr (.single hstep)
  exact ⟨hfresh, ahead, behind, hahead, hbehind, hmem, hiff.mp hmem⟩

end CellComplex
