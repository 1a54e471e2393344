import CellComplex.Proofs.Knowledge.Building
import CellComplex.Proofs.Space.Link

/-!
# What knowledge holds

While a document is taken in, the store holds a point for every label that was mentioned, an edge
for every link that differs, an edge for every piece of evidence, and nothing else.

* `Knowledge.IsPointOf`: the point of a label, which carries the label;
* `Knowledge.Within`: knowledge that only grows; what was said of it stays true;
* `Knowledge.Knows`, `Knowledge.Contains`: the points and the names; with the edges, all there is;
* **`Contains.ensurePoint`**, **`Contains.link`**, **`Contains.createEvidence`**,
  **`Contains.nameEdge`**: the steps of taking in an entry.
-/

namespace CellComplex

namespace Knowledge

variable {k k' k'' : Knowledge} {label : String} {id a b edge : CellId} {oriented : Bool}
variable {labels : List String} {links evidence : List CellId} {names : Nat}
variable {atom : Option String} {c : Cell}

/-! ## 1. Points and names -/

/-- **The point of a label**: the label finds it, and it carries the label. -/
def IsPointOf (k : Knowledge) (label : String) (id : CellId) : Prop :=
  k.point label = .ok id ∧ ∃ c, k.store.find? id = some c ∧ c.dimension = 0 ∧ c.label = label

/-- **The atomic name that an entry gives an edge**, if it gives one. -/
def IsNamed (k : Knowledge) (edge : CellId) (atom : Option String) : Prop :=
  ∀ label, atom = some label → ∃ p, k.IsPointOf label p ∧ p ∈ k.store.atomsOf edge

theorem IsPointOf.isPoint (h : k.IsPointOf label id) : k.store.lookup.IsPoint id := by
  obtain ⟨_, c, hc, hzero, _⟩ := h
  exact ⟨c, hc, hzero⟩

/-! ## 2. Growing -/

/-- **Knowledge that only grew**: points are found as before, cells are as they were, and no atom
link is gone. -/
structure Within (k k' : Knowledge) : Prop where
  point : ∀ label id, k.point label = .ok id → k'.point label = .ok id
  find : ∀ x c, k.store.find? x = some c → k'.store.find? x = some c
  atoms : ∀ e p, p ∈ k.store.atomsOf e → p ∈ k'.store.atomsOf e

namespace Within

theorem refl (k : Knowledge) : k.Within k := ⟨fun _ _ h => h, fun _ _ h => h, fun _ _ h => h⟩

theorem trans (h : k.Within k') (h' : k'.Within k'') : k.Within k'' where
  point label id hid := h'.point label id (h.point label id hid)
  find x c hc := h'.find x c (h.find x c hc)
  atoms e p hp := h'.atoms e p (h.atoms e p hp)

variable (h : k.Within k')
include h

theorem isPointOf (hid : k.IsPointOf label id) : k'.IsPointOf label id := by
  obtain ⟨hfound, c, hc, hrest⟩ := hid
  exact ⟨h.point label id hfound, c, h.find id c hc, hrest⟩

theorem isNamed (hnamed : k.IsNamed edge atom) : k'.IsNamed edge atom := by
  intro label hlabel
  obtain ⟨p, hp, hrelated⟩ := hnamed label hlabel
  exact ⟨p, h.isPointOf hp, h.atoms edge p hrelated⟩

theorem isLink (hlink : k.space.IsLink a b label oriented edge) :
    k'.space.IsLink a b label oriented edge := by
  obtain ⟨c, hc, hrest⟩ := hlink
  rw [find?_space] at hc
  exact ⟨c, (k'.find?_space edge).trans (h.find edge c hc), hrest⟩

end Within

/-- A new cell takes nothing away. -/
theorem within_push (hid : c.id = k.store.nextId 0) : k.Within ⟨k.store.push c, k.points⟩ where
  point _ _ h := h
  find _ _ h := (Store.adds_push hid).find h
  atoms _ _ h := h

theorem within_withPoint (hnew : k.points[label]? = none) : k.Within (k.withPoint label) where
  point other id hid := by
    rw [point_eq_ok] at hid ⊢
    show (k.points.insert label (k.store.nextId 0))[other]? = some id
    rw [Std.TreeMap.getElem?_insert, if_neg, hid]
    intro hsame
    rw [Std.LawfulEqCmp.compare_eq_iff_eq.mp hsame, hid] at hnew
    cases hnew
  find _ _ h := (Store.adds_push rfl).find h
  atoms _ _ h := h

theorem within_linkAtom : k.Within ⟨k.store.linkAtom edge a, k.points⟩ where
  point _ _ h := h
  find _ _ h := h
  atoms _ _ h := Store.mem_atomsOf_linkAtom.mpr (Or.inl h)

/-! ## 3. All there is -/

/-- **The points and the names of knowledge that has seen some labels**: a point for each of them,
in the order in which they were first seen, and as many names given. -/
structure Knows (k : Knowledge) (labels : List String) (names : Nat) : Prop extends Grounded k where
  /-- Nothing is deleted, and nothing stands above edges. -/
  low : ∀ id c, k.store.find? id = some c → c.isLive = true ∧ c.dimension ≤ 1
  points : List.Forall₂ k.IsPointOf labels.eraseDups (k.store.layer 0)
  known : ∀ label id, k.point label = .ok id → label ∈ labels
  names_eq : k.store.atomLinkCount = names

/-- **No two of some edges share a label and an ordered boundary.** -/
def Single (s : Store) (edges : List CellId) : Prop :=
  ∀ x ∈ edges, ∀ y ∈ edges, ∀ c d, s.find? x = some c → s.find? y = some d → c.label = d.label →
    c.boundary = d.boundary → x = y

/-- **All that knowledge holds**: its points, the edges for links, each once however many links it
stands for, and the edges for evidence. -/
structure Contains (k : Knowledge) (labels : List String) (links evidence : List CellId)
    (names : Nat) : Prop extends Knows k labels names where
  edges : k.store.layer 1 = links.eraseDups ++ evidence
  single : Single k.store links

theorem contains_empty : empty.Contains [] [] [] 0 where
  toGrounded := grounded_empty
  low id c h := by
    rw [show empty.store = Store.empty 0 from rfl, Store.find?_empty] at h
    cases h
  points := .nil
  known label id h := by
    have hnone : empty.points[label]? = none := Std.TreeMap.getElem?_emptyc
    rw [point_eq_ok, hnone] at h
    cases h
  names_eq := rfl
  edges := rfl
  single x hx := absurd hx List.not_mem_nil

/-- A point that is found carries its label. -/
theorem Knows.isPointOf (h : k.Knows labels names) (hid : k.point label = .ok id) :
    k.IsPointOf label id := by
  have hseen : label ∈ labels.eraseDups := List.mem_eraseDups.mpr (h.known label id hid)
  obtain ⟨id', _, hpoint⟩ := Outcome.forall₂_mem h.points hseen
  cases hid.symm.trans hpoint.1
  exact hpoint

/-- A cell with two ends is an edge. -/
theorem Knows.isEdge_of_boundary {x : CellId} (h : k.Knows labels names)
    (hc : k.store.find? x = some c) (hboundary : c.boundary = [a, b]) : c.isEdge = true := by
  obtain ⟨hlive, hlow⟩ := h.low x c hc
  have hpos : c.dimension ≠ 0 := by
    rw [Ne, h.reachable.consistent.sound.point_iff x c hc, hboundary]
    exact List.cons_ne_nil _ _
  exact Space.isEdge_iff.mpr ⟨by omega, by rw [hboundary]; rfl, hlive⟩

/-- A label that was seen has its point. -/
theorem Knows.exists_point (h : k.Knows labels names) (hlabel : label ∈ labels) :
    ∃ id, k.point label = .ok id := by
  obtain ⟨id, _, hid, _⟩ := Outcome.forall₂_mem h.points (List.mem_eraseDups.mpr hlabel)
  exact ⟨id, hid⟩

/-- The edges for links are cells. -/
theorem Contains.find?_link {x : CellId} (h : k.Contains labels links evidence names)
    (hx : x ∈ links) : ∃ c, k.store.find? x = some c := by
  have hlayer : x ∈ k.store.layer 1 := by
    rw [h.edges]
    exact List.mem_append_left _ (List.mem_eraseDups.mpr hx)
  obtain ⟨c, hc, _⟩ := (h.reachable.consistent.mem_layer 1 x).mp hlayer
  exact ⟨c, hc⟩

/-- The edges for links stay single while knowledge only grows. -/
theorem Contains.single_within (h : k.Contains labels links evidence names) (hw : k.Within k') :
    Single k'.store links := by
  intro x hx y hy c d hc hd
  obtain ⟨c', hc'⟩ := h.find?_link hx
  obtain ⟨d', hd'⟩ := h.find?_link hy
  cases (hw.find x c' hc').symm.trans hc
  cases (hw.find y d' hd').symm.trans hd
  exact h.single x hx y hy _ _ hc' hd'

/-! ## 4. Points -/

section EraseDups

variable {α : Type} [BEq α] [LawfulBEq α] {xs : List α} {x : α}

theorem eraseDups_snoc_of_mem (h : x ∈ xs) : (xs ++ [x]).eraseDups = xs.eraseDups := by
  simp [List.eraseDups_append, List.removeAll, h]

theorem eraseDups_snoc_of_not_mem (h : x ∉ xs) :
    (xs ++ [x]).eraseDups = xs.eraseDups ++ [x] := by
  simp [List.eraseDups_append, List.removeAll, h, List.eraseDups_cons]

end EraseDups

theorem Knows.withPoint (h : k.Knows labels names) (hnew : k.points[label]? = none) :
    (k.withPoint label).Knows (labels ++ [label]) names where
  toGrounded := h.toGrounded.withPoint label
  low id c hc := by
    rcases (Store.adds_push (c := .point (k.store.nextId 0) label) rfl).find_cases hc with
      ⟨rfl, rfl⟩ | hold
    · exact ⟨rfl, Nat.zero_le _⟩
    · exact h.low id c hold
  points := by
    have hunseen : label ∉ labels := by
      intro hlabel
      obtain ⟨id, hid⟩ := h.exists_point hlabel
      rw [point_eq_ok, hnew] at hid
      cases hid
    have hlayer : (k.withPoint label).store.layer 0 = k.store.layer 0 ++ [k.store.nextId 0] :=
      Store.layer_push
    have hthere : (k.withPoint label).IsPointOf label (k.store.nextId 0) :=
      ⟨point_eq_ok.mpr Std.TreeMap.getElem?_insert_self,
        .point (k.store.nextId 0) label, Store.find?_push_new rfl, rfl, rfl⟩
    rw [eraseDups_snoc_of_not_mem hunseen, hlayer]
    exact List.rel_append (h.points.imp fun _ _ hp => (within_withPoint hnew).isPointOf hp)
      (.cons hthere .nil)
  known other id hid := by
    rw [point_eq_ok] at hid
    have hget : (k.points.insert label (k.store.nextId 0))[other]? = some id := hid
    rw [Std.TreeMap.getElem?_insert] at hget
    rw [List.mem_append, List.mem_singleton]
    split at hget
    · next hsame => exact Or.inr (Std.LawfulEqCmp.compare_eq_iff_eq.mp hsame).symm
    · exact Or.inl (h.known other id (point_eq_ok.mpr hget))
  names_eq := h.names_eq

/-- **A label is looked up, or gets its point.** -/
theorem Contains.ensurePoint (h : k.Contains labels links evidence names)
    (happly : (ensurePoint label).apply k = (.ok id, k')) :
    k'.Contains (labels ++ [label]) links evidence names ∧ k.Within k' ∧
      k'.point label = .ok id := by
  rcases ensurePoint_eq_ok happly with ⟨hfound, rfl⟩ | ⟨hnew, rfl, rfl⟩
  · have hid : k'.point label = .ok id := point_eq_ok.mpr hfound
    have hseen : label ∈ labels := h.known label id hid
    refine ⟨⟨⟨h.toGrounded, h.low, ?_, fun other x hx => ?_, h.names_eq⟩, h.edges, h.single⟩,
      .refl _, hid⟩
    · rw [eraseDups_snoc_of_mem hseen]
      exact h.points
    · exact List.mem_append_left _ (h.known other x hx)
  · have hwithin := within_withPoint hnew
    have hlayer : (k.withPoint label).store.layer 1 = k.store.layer 1 := Store.layer_push
    exact ⟨⟨h.toKnows.withPoint hnew, hlayer.trans h.edges, h.single_within hwithin⟩, hwithin,
      point_eq_ok.mpr Std.TreeMap.getElem?_insert_self⟩

/-! ## 5. Edges -/

theorem Knows.pushEdge (h : k.Knows labels names)
    (hground : Grounded ⟨k.store.push c, k.points⟩) (hid : c.id = k.store.nextId 0)
    (hedge : c.isEdge = true) : Knows ⟨k.store.push c, k.points⟩ labels names where
  toGrounded := hground
  low x d hd := by
    rcases (Store.adds_push hid).find_cases hd with ⟨rfl, rfl⟩ | hold
    · obtain ⟨hdim, _, hlive⟩ := Space.isEdge_iff.mp hedge
      exact ⟨hlive, Nat.le_of_eq hdim⟩
    · exact h.low x d hold
  points := by
    have hlayer : (k.store.push c).layer 0 = k.store.layer 0 := by
      rw [Store.layer_push, if_neg]
      rw [(Space.isEdge_iff.mp hedge).1]
      exact Nat.one_ne_zero
    show List.Forall₂ _ _ ((k.store.push c).layer 0)
    rw [hlayer]
    exact h.points.imp fun _ _ hp => (within_push hid).isPointOf hp
  known := h.known
  names_eq := h.names_eq

theorem layer_pushEdge (hedge : c.isEdge = true) :
    (k.store.push c).layer 1 = k.store.layer 1 ++ [c.id] := by
  rw [Store.layer_push, if_pos (Space.isEdge_iff.mp hedge).1]

/-- The edges for links stay single with one more that is like none of them. -/
theorem Single.push {s : Store} {edges : List CellId} (h : Single s edges)
    (hid : c.id = s.nextId 0)
    (hnew : ∀ x d, s.find? x = some d → d.label = c.label → d.boundary ≠ c.boundary) :
    Single (s.push c) (edges ++ [c.id]) := by
  have hadds := Store.adds_push hid
  have hold : ∀ {x d}, x ∈ edges ++ [c.id] → s.find? x = some d → x ∈ edges := by
    intro x d hx hd
    refine (List.mem_append.mp hx).resolve_right fun hlast => ?_
    rw [List.mem_singleton.mp hlast, hid, Store.find?_nextId] at hd
    cases hd
  intro x hx y hy d e hd he hlabel hboundary
  rcases hadds.find_cases hd with ⟨rfl, rfl⟩ | hd'
  · rcases hadds.find_cases he with ⟨rfl, rfl⟩ | he'
    · rfl
    · exact absurd hboundary.symm (hnew y e he' hlabel.symm)
  · rcases hadds.find_cases he with ⟨rfl, rfl⟩ | he'
    · exact absurd hboundary (hnew x d hd' hlabel)
    · exact h x (hold hx hd') y (hold hy he') d e hd' he' hlabel hboundary

/-- The edges for links as they are, and one of them named once more. -/
theorem Contains.linkAgain (h : k.Contains labels links [] names)
    (hthere : k.space.IsLink a b label oriented edge) :
    k.Contains labels (links ++ [edge]) [] names := by
  obtain ⟨c, hc, hedge, _⟩ := hthere
  rw [find?_space] at hc
  have hmem : edge ∈ links := by
    have hlayer : edge ∈ k.store.layer 1 :=
      (h.reachable.consistent.mem_layer 1 edge).mpr ⟨c, hc, (Space.isEdge_iff.mp hedge).1⟩
    rw [h.edges, List.append_nil] at hlayer
    exact List.mem_eraseDups.mp hlayer
  have hsame : ∀ z ∈ links ++ [edge], z ∈ links := fun z hz =>
    (List.mem_append.mp hz).elim id fun hz => List.mem_singleton.mp hz ▸ hmem
  refine ⟨h.toKnows, ?_, fun x hx y hy => h.single x (hsame x hx) y (hsame y hy)⟩
  rw [eraseDups_snoc_of_mem hmem]
  exact h.edges

/-- The edges for links, and a new one like none of them. -/
theorem Contains.pushLink (h : k.Contains labels links [] names)
    (hground : Grounded ⟨k.store.push c, k.points⟩) (hid : c.id = k.store.nextId 0)
    (hedge : c.isEdge = true) (hboundary : c.boundary = [a, b])
    (hnone : ∀ x, ¬ k.space.IsLink a b c.label oriented x) :
    Contains ⟨k.store.push c, k.points⟩ labels (links ++ [c.id]) [] names := by
  have hunlike : ∀ x d, k.store.find? x = some d → d.label = c.label →
      d.boundary ≠ c.boundary := by
    intro x d hd hlabel hsame
    rw [hboundary] at hsame
    exact hnone x ⟨d, (k.find?_space x).trans hd, h.isEdge_of_boundary hd hsame, hlabel,
      Or.inl hsame⟩
  have hfresh : c.id ∉ links := by
    intro hmem
    obtain ⟨d, hd⟩ := h.find?_link hmem
    rw [hid, Store.find?_nextId] at hd
    cases hd
  refine ⟨h.toKnows.pushEdge hground hid hedge, ?_, h.single.push hid hunlike⟩
  rw [eraseDups_snoc_of_not_mem hfresh, List.append_nil]
  exact (layer_pushEdge hedge).trans (by rw [h.edges, List.append_nil])

/-- **A link is an edge that is there, or a new one.** -/
theorem Contains.link (h : k.Contains labels links [] names)
    (happly : (Task.edit (Space.link a b label oriented)).apply k = (.ok edge, k')) :
    k'.Contains labels (links ++ [edge]) [] names ∧ k.Within k' ∧
      k'.space.IsLink a b label oriented edge := by
  have hground : k'.Grounded := (keeps_link a b label oriented).apply h.toGrounded happly
  obtain ⟨sp, hlink, rfl⟩ := Task.apply_edit_eq_ok.mp happly
  obtain ⟨ha, hb, ⟨hfound, rfl⟩ | ⟨hnone, c, hmake, rfl, rfl⟩⟩ := Space.apply_link_eq_ok.mp hlink
  · have hthere : k.space.IsLink a b label oriented edge := Space.isLink_of_findLink? hfound
    exact ⟨h.linkAgain hthere, .refl _, hthere⟩
  · obtain ⟨hid, rfl, hboundary, _⟩ := make_fields hmake
    have hedge : c.isEdge = true := Space.isEdge_make ha hb hmake
    exact ⟨h.pushLink hground hid hedge hboundary
        ((Space.findLink?_eq_none_iff h.filed).mp hnone), within_push hid,
      c, (find?_space _ _).trans (Store.find?_push_new hid), hedge, rfl, Or.inl hboundary⟩

theorem create_eq_ok {boundary : List CellId}
    (h : (Task.edit (Space.create label boundary)).apply k = (.ok edge, k')) :
    ∃ c, Cell.make k.store.lookup (k.store.nextId 0) label boundary .full = .ok c ∧
      c.id = edge ∧ k' = ⟨k.store.push c, k.points⟩ := by
  obtain ⟨sp, hmade, rfl⟩ := Task.apply_edit_eq_ok.mp h
  obtain ⟨c, hmake, hid, rfl⟩ := Space.apply_createChecked_eq_ok hmade
  rw [Space.lookup_ofStore] at hmake
  exact ⟨c, hmake, hid, rfl⟩

theorem apply_setEmbedding {embedding : Embedding} (h : k.store.owns edge = true) :
    (Task.edit (Space.setEmbedding edge embedding)).apply k =
      (.ok (), ⟨k.store.modifyAt edge.index ({ · with embedding }), k.points⟩) := by
  have hown : (Space.ofStore k.store).top.owns edge = true := h
  exact Task.apply_edit_eq_ok.mpr ⟨_, Space.apply_modifyCell hown, rfl⟩

/-- Evidence might as well have entered with its payload. -/
theorem createEvidence_eq_ok {mid : Knowledge} {embedding : Embedding}
    (hcreate : (Task.edit (Space.create label [a, b])).apply k = (.ok edge, mid))
    (hset : (Task.edit (Space.setEmbedding edge embedding)).apply mid = (.ok (), k')) :
    ∃ c, Cell.make k.store.lookup (k.store.nextId 0) label [a, b] .full = .ok c ∧ c.id = edge ∧
      k' = ⟨k.store.push { c with embedding }, k.points⟩ := by
  obtain ⟨c, hmake, rfl, rfl⟩ := create_eq_ok hcreate
  have hid : c.id = k.store.nextId 0 := (make_fields hmake).1
  have hown : (k.store.push c).owns c.id = true :=
    Store.owns_iff.mpr ⟨c, Store.find?_push_new hid⟩
  have hpush : (k.store.push c).modifyAt c.id.index ({ · with embedding }) =
      k.store.push { c with embedding } := Store.push_modifyAt hid rfl
  rw [apply_setEmbedding hown, hpush] at hset
  cases hset
  exact ⟨c, hmake, rfl, rfl⟩

/-- **Evidence is an edge of its own**, and its payload is a truth value. -/
theorem Contains.createEvidence {mid : Knowledge} {embedding : Embedding}
    (h : k.Contains labels links evidence names) (ha : k.store.lookup.IsPoint a)
    (hb : k.store.lookup.IsPoint b)
    (hcreate : (Task.edit (Space.create label [a, b])).apply k = (.ok edge, mid))
    (hset : (Task.edit (Space.setEmbedding edge embedding)).apply mid = (.ok (), k')) :
    k'.Contains labels links (evidence ++ [edge]) names ∧ k.Within k' ∧
      ∃ c, k'.store.find? edge = some c ∧ c.isEdge = true ∧ c.label = label ∧
        c.boundary = [a, b] ∧ c.embedding = embedding := by
  have hground : k'.Grounded := (keeps_setEmbedding edge embedding).apply
    ((keeps_create label [a, b]).apply h.toGrounded hcreate) hset
  obtain ⟨c, hmake, rfl, rfl⟩ := createEvidence_eq_ok hcreate hset
  obtain ⟨hid, hlabel, hboundary, _⟩ := make_fields hmake
  let d : Cell := { c with embedding }
  have hdid : d.id = k.store.nextId 0 := hid
  have hedge : d.isEdge = true := Space.isEdge_make (c := c) ha hb hmake
  have hwithin : k.Within ⟨k.store.push d, k.points⟩ := within_push hdid
  refine ⟨⟨h.toKnows.pushEdge hground hdid hedge, ?_, h.single_within hwithin⟩, hwithin,
    d, Store.find?_push_new hdid, hedge, hlabel, hboundary, rfl⟩
  exact (layer_pushEdge hedge).trans (by rw [h.edges, List.append_assoc])

/-! ## 6. Names -/

/-- An atom link that was made is new. -/
theorem linkAtom_eq_ok (h : (Task.edit (Space.linkAtom edge a)).apply k = (.ok (), k')) :
    a ∉ k.store.atomsOf edge ∧ k' = ⟨k.store.linkAtom edge a, k.points⟩ := by
  obtain ⟨sp, hlink, rfl⟩ := Task.apply_edit_eq_ok.mp h
  obtain ⟨change, hchoose, rfl⟩ := Edit.apply_decide_eq_ok.mp hlink
  obtain ⟨_, _, hchoose⟩ := Outcome.bind_eq_ok.mp hchoose
  obtain ⟨_, _, hchoose⟩ := Outcome.bind_eq_ok.mp hchoose
  obtain ⟨_, _, hchoose⟩ := Outcome.bind_eq_ok.mp hchoose
  split at hchoose
  · cases hchoose
  · next hnew =>
    cases hchoose
    exact ⟨fun hmem => hnew (Std.TreeSet.contains_iff_mem.mpr hmem), rfl⟩

/-- **The name of an entry counts once**, and its edge is related to it. -/
theorem Contains.nameEdge (h : k.Contains labels links evidence names)
    (happly : (nameEdge edge atom).apply k = (.ok (), k')) :
    k'.Contains (labels ++ atom.toList) links evidence (names + if atom.isSome then 1 else 0) ∧
      k.Within k' ∧ k'.IsNamed edge atom := by
  cases atom with
  | none =>
    cases happly
    refine ⟨?_, .refl _, fun label hlabel => by cases hlabel⟩
    simpa using h
  | some label =>
    obtain ⟨p, mid, hpoint, hlink⟩ := Task.apply_bind_eq_ok.mp happly
    obtain ⟨hmid, hwithin, hp⟩ := h.ensurePoint hpoint
    have hground : k'.Grounded := (keeps_linkAtom edge p).apply hmid.toGrounded hlink
    obtain ⟨hnew, rfl⟩ := linkAtom_eq_ok hlink
    have hgrown : mid.Within ⟨mid.store.linkAtom edge p, mid.points⟩ := within_linkAtom
    refine ⟨⟨⟨hground, hmid.low, ?_, hmid.known, ?_⟩, hmid.edges, hmid.single⟩,
      hwithin.trans hgrown, fun other hother => ?_⟩
    · exact hmid.points.imp fun _ _ hpoint => hgrown.isPointOf hpoint
    · exact (Store.atomLinkCount_linkAtom hnew).trans (by rw [hmid.names_eq]; rfl)
    · cases hother
      exact ⟨p, hgrown.isPointOf (hmid.isPointOf hp),
        Store.mem_atomsOf_linkAtom.mpr (Or.inr ⟨rfl, rfl⟩)⟩

end Knowledge

end CellComplex
