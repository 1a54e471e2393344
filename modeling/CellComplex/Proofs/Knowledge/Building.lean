import CellComplex.Proofs.Knowledge.Task

/-!
# The knowledge of a document

Knowledge that is read from a document is in good order: its index is fresh, and what it remembers
as points are live points of its store. Nothing is ever deleted while a document is taken in.

* `Edit.KeepsPoints`: an edit after which every live point is still one;
* `Knowledge.Grounded`: the points of the knowledge are live, in a store that operations made;
* `Knowledge.ensurePoint_eq_ok`: the point of a label was there, or is new;
* **`Knowledge.keeps_entries`**: taking in a document keeps that, entry by entry, failing or not;
* `Knowledge.InOrder`: grounded, with a fresh index;
* **`Knowledge.inOrder_of_build`**: the knowledge of every document is in order;
* `Knowledge.read_eq_ok`: a text is read if the document that it lists can be taken in.
-/

namespace CellComplex

/-! ## 1. Edits that keep points -/

namespace Edit

variable {α β : Type} {e : Edit α} {f : α → Edit β}

/-- **Every live point is one afterwards**, whether the edit fails or not. -/
def KeepsPoints (e : Edit α) : Prop :=
  ∀ sp x, sp.top.IsLivePoint x → (e.apply sp).2.top.IsLivePoint x

theorem KeepsPoints.bind (he : e.KeepsPoints) (hf : ∀ a, (f a).KeepsPoints) :
    (e >>= f).KeepsPoints := by
  intro sp x hx
  have hmid := he sp x hx
  cases h : e.apply sp with
  | mk result mid =>
    rw [h] at hmid
    cases result with
    | error err => rwa [apply_bind_error h]
    | ok a =>
      rw [apply_bind_ok h]
      exact hf a mid x hmid

theorem keepsPoints_pure (a : α) : (pure a : Edit α).KeepsPoints := fun _ _ hx => hx

theorem keepsPoints_decide {choose : Space → Except StoreError (α × (Store → Store))}
    (h : ∀ sp a change, choose sp = .ok (a, change) →
      ∀ x, sp.top.IsLivePoint x → (change sp.top).IsLivePoint x) : (decide choose).KeepsPoints := by
  intro sp x hx
  cases hc : choose sp with
  | error err => rwa [apply_decide_error hc]
  | ok r =>
    rw [apply_decide_ok hc]
    exact h sp r.1 r.2 hc x hx

theorem keepsPoints_look {read : Space → Except StoreError α} : (look read).KeepsPoints := by
  refine keepsPoints_decide fun sp a change h x hx => ?_
  obtain ⟨_, _, hpair⟩ := Outcome.map_eq_ok.mp h
  cases hpair
  exact hx

end Edit

namespace Space

open Edit

variable {a b id : CellId} {label : String} {boundary : List CellId}

theorem keepsPoints_create : (create label boundary).KeepsPoints := by
  intro sp x hx
  unfold create
  rw [apply_createChecked]
  cases hmake : Cell.make sp.lookup (sp.top.nextId 0) label boundary .full with
  | error err => exact hx
  | ok c => exact hx.mono fun _ _ => (Store.adds_push (make_fields hmake).1).find

theorem keepsPoints_link {oriented : Bool} : (link a b label oriented).KeepsPoints := by
  refine keepsPoints_look.bind fun found => ?_
  cases found with
  | none => exact keepsPoints_create
  | some edge => exact keepsPoints_pure edge

theorem keepsPoints_linkAtom : (linkAtom a b).KeepsPoints := by
  refine keepsPoints_decide fun sp u change h x hx => ?_
  obtain ⟨_, _, h⟩ := Outcome.bind_eq_ok.mp h
  obtain ⟨_, _, h⟩ := Outcome.bind_eq_ok.mp h
  obtain ⟨_, _, h⟩ := Outcome.bind_eq_ok.mp h
  split at h
  · cases h
  · cases h
    exact hx

theorem keepsPoints_setEmbedding {embedding : Embedding} :
    (setEmbedding id embedding).KeepsPoints := by
  refine keepsPoints_decide fun sp u change h x hx => ?_
  obtain ⟨_, _, h⟩ := Outcome.bind_eq_ok.mp h
  cases h
  obtain ⟨c, hc, hpoint, hlive⟩ := hx
  show ∃ d, (sp.top.modifyAt id.index ({ · with embedding })).find? x = some d ∧ _
  rw [Store.find?_modifyAt, hc]
  split
  · exact ⟨_, rfl, hpoint, hlive⟩
  · exact ⟨c, rfl, hpoint, hlive⟩

end Space

/-! ## 2. Taking in a document -/

namespace Knowledge

variable {k : Knowledge}

/-- **What the knowledge remembers as points are live points**, in a store that operations made. -/
structure Grounded (k : Knowledge) : Prop where
  reachable : k.store.Reachable
  isLivePoint : ∀ (label : String) (id : CellId), k.points[label]? = some id →
    k.store.IsLivePoint id

theorem grounded_empty : empty.Grounded where
  reachable := .empty 0
  isLivePoint label id h := by
    have hnone : empty.points[label]? = none := Std.TreeMap.getElem?_emptyc
    rw [hnone] at h
    cases h

theorem point_eq_ok {label : String} {id : CellId} :
    k.point label = .ok id ↔ k.points[label]? = some id := by
  unfold point
  cases k.points[label]? with
  | none => exact iff_of_false (fun h => by cases h) fun h => by cases h
  | some x => exact ⟨fun h => congrArg _ (Except.ok.inj h), fun h => congrArg _ (Option.some.inj h)⟩

theorem find?_space (k : Knowledge) (id : CellId) : k.space.find? id = k.store.find? id :=
  Store.find?_ofStore k.store id

theorem Grounded.isLivePoint_of_point (h : k.Grounded) {label : String} {id : CellId}
    (hid : k.point label = .ok id) : k.store.IsLivePoint id :=
  h.isLivePoint label id (point_eq_ok.mp hid)

/-- The one store of the knowledge has its cells in their places. -/
theorem Grounded.filed (h : k.Grounded) : ∀ s ∈ k.space.stores, s.Filed := by
  intro s hs
  cases List.mem_singleton.mp hs
  exact h.reachable.consistent.filed

theorem keeps_edit {α : Type} {e : Edit α}
    (hreach : ∀ s, s.Reachable → (e.applyTo s).2.Reachable) (hpoints : e.KeepsPoints) :
    (Task.edit e).Keeps Grounded := by
  intro k hk
  rw [Task.apply_edit]
  exact ⟨hreach k.store hk.reachable, fun label id hid =>
    hpoints (.ofStore k.store) id (hk.isLivePoint label id hid)⟩

/-- The knowledge with a new point for a label. -/
def withPoint (k : Knowledge) (label : String) : Knowledge :=
  ⟨k.store.push (.point (k.store.nextId 0) label), k.points.insert label (k.store.nextId 0)⟩

/-- A new point is remembered. -/
theorem apply_newPoint (label : String) :
    Task.apply (do
      let id ← Task.edit (Space.create label [])
      Task.remember label id
      return id) k = (.ok (k.store.nextId 0), k.withPoint label) := by
  let c : Cell := .point (k.store.nextId 0) label
  have hmake : Cell.make k.store.lookup (k.store.nextId 0) label [] .full = .ok c := rfl
  have hedit : (Task.edit (Space.create label [])).apply k =
      (.ok c.id, ⟨k.store.push c, k.points⟩) :=
    Task.apply_edit_eq_ok.mpr ⟨_, Space.apply_createChecked_ofStore hmake, rfl⟩
  rw [Task.apply_bind_ok hedit, Task.apply_bind_ok Task.apply_remember]
  rfl

theorem Grounded.withPoint (hk : k.Grounded) (label : String) : (k.withPoint label).Grounded where
  reachable := by
    have hmake : Cell.make k.store.lookup (k.store.nextId 0) label [] .full =
        .ok (.point (k.store.nextId 0) label) := rfl
    exact hk.reachable.of_edit (.create label []) rfl (Space.apply_createChecked_ofStore hmake)
  isLivePoint other id hid := by
    have hget : (k.points.insert label (k.store.nextId 0))[other]? = some id := hid
    rw [Std.TreeMap.getElem?_insert] at hget
    split at hget
    · cases hget
      exact ⟨_, Store.find?_push_new (c := .point (k.store.nextId 0) label) rfl, rfl, rfl⟩
    · exact (hk.isLivePoint other id hget).mono fun _ _ => (Store.adds_push rfl).find

theorem keeps_newPoint {label : String} : Task.Keeps Grounded (do
    let id ← Task.edit (Space.create label [])
    Task.remember label id
    return id) := by
  intro k hk
  rw [apply_newPoint]
  exact hk.withPoint label

theorem keeps_ensurePoint (label : String) : (ensurePoint label).Keeps Grounded := by
  refine Task.keeps_ask.bind fun found => ?_
  cases found with
  | some id => exact Task.keeps_pure id
  | none =>
    show Task.Keeps Grounded (if label.isEmpty = true then _ else _)
    split
    · exact (Task.keeps_throw _).bind fun _ => keeps_newPoint
    · exact keeps_newPoint

/-- The point of a label was there, or is new. -/
theorem ensurePoint_eq_ok {label : String} {id : CellId} {k' : Knowledge}
    (h : (ensurePoint label).apply k = (.ok id, k')) :
    (k.points[label]? = some id ∧ k' = k) ∨
      (k.points[label]? = none ∧ id = k.store.nextId 0 ∧ k' = k.withPoint label) := by
  unfold ensurePoint at h
  rw [Task.ask_bind_ok (a := k.points[label]?) rfl] at h
  cases hfound : k.points[label]? with
  | some found =>
    rw [hfound] at h
    cases h
    exact Or.inl ⟨rfl, rfl⟩
  | none =>
    rw [hfound] at h
    refine Or.inr ⟨rfl, ?_⟩
    cases hempty : label.isEmpty with
    | true =>
      simp only [hempty, if_true] at h
      cases h
    | false =>
      simp only [hempty, Bool.false_eq_true, if_false] at h
      have hnew := (apply_newPoint label).symm.trans h
      cases hnew
      exact ⟨rfl, rfl⟩

theorem keeps_linkAtom (edge point : CellId) :
    (Task.edit (Space.linkAtom edge point)).Keeps Grounded :=
  keeps_edit (fun _ hs => hs.step (.linkAtom edge point)) Space.keepsPoints_linkAtom

theorem keeps_link (a b : CellId) (label : String) (oriented : Bool) :
    (Task.edit (Space.link a b label oriented)).Keeps Grounded :=
  keeps_edit (fun _ hs => hs.applyTo (.link a b label oriented) rfl) Space.keepsPoints_link

theorem keeps_create (label : String) (boundary : List CellId) :
    (Task.edit (Space.create label boundary)).Keeps Grounded :=
  keeps_edit (fun _ hs => hs.applyTo (.create label boundary) rfl) Space.keepsPoints_create

theorem keeps_setEmbedding (edge : CellId) (embedding : Embedding) :
    (Task.edit (Space.setEmbedding edge embedding)).Keeps Grounded :=
  keeps_edit (fun _ hs => hs.step (.setEmbedding edge embedding)) Space.keepsPoints_setEmbedding

theorem keeps_nameEdge (edge : CellId) (atom : Option String) :
    (nameEdge edge atom).Keeps Grounded := by
  cases atom with
  | none => exact Task.keeps_pure ()
  | some label => exact (keeps_ensurePoint label).bind fun point => keeps_linkAtom edge point

theorem keeps_addLink (entry : LinkEntry) : (addLink entry).Keeps Grounded := by
  refine (keeps_ensurePoint entry.subject).bind fun subject => ?_
  refine (keeps_ensurePoint entry.predicate).bind fun predicate => ?_
  refine (keeps_link subject predicate entry.label entry.oriented).bind fun edge => ?_
  exact keeps_nameEdge edge entry.atom

theorem keeps_addEvidence (entry : EvidenceEntry) : (addEvidence entry).Keeps Grounded := by
  have hadd : Task.Keeps Grounded (do
      let subject ← ensurePoint entry.subject
      let predicate ← ensurePoint entry.predicate
      let edge ← Task.edit (Space.create entry.label [subject, predicate])
      Task.edit (Space.setEmbedding edge (.ofTruth entry.truth))
      nameEdge edge entry.atom) := by
    refine (keeps_ensurePoint entry.subject).bind fun subject => ?_
    refine (keeps_ensurePoint entry.predicate).bind fun predicate => ?_
    refine (keeps_create entry.label [subject, predicate]).bind fun edge => ?_
    refine (keeps_setEmbedding edge (.ofTruth entry.truth)).bind fun _ => ?_
    exact keeps_nameEdge edge entry.atom
  unfold addEvidence
  cases isEvidence entry.truth with
  | true => exact hadd
  | false => exact (Task.keeps_throw _).bind fun _ => hadd

/-- **What a document lists keeps the knowledge grounded**, taken in entry by entry. -/
theorem keeps_entries (document : KnowledgeDocument) : Task.Keeps Grounded (do
    document.points.forM fun label => discard (ensurePoint label)
    document.links.forM addLink
    document.evidence.forM addEvidence) := by
  refine (Task.Keeps.forM fun label => (keeps_ensurePoint label).discard).bind fun _ => ?_
  exact (Task.Keeps.forM keeps_addLink).bind fun _ => Task.Keeps.forM keeps_addEvidence

/-! ## 3. Knowledge in order -/

/-- **Knowledge in good order**: its points are live, and its index is fresh. -/
structure InOrder (k : Knowledge) : Prop extends Grounded k where
  fresh : k.store.isStale = false

/-- Building the index puts knowledge in order. -/
theorem Grounded.indexed (h : k.Grounded) :
    InOrder ⟨k.store.buildIndex k.store.lookup, k.points⟩ where
  reachable := h.reachable.buildIndex
  isLivePoint label id hid := h.isLivePoint label id hid
  fresh := Store.isStale_buildIndex

/-- **The knowledge of a document is in order.** -/
theorem inOrder_of_build {document : KnowledgeDocument}
    (h : (build document).apply empty = (.ok (), k)) : k.InOrder := by
  have hsplit : build document = (do
      document.points.forM fun label => discard (ensurePoint label)
      document.links.forM addLink
      document.evidence.forM addEvidence) >>= fun _ => Task.edit Space.buildIndex := by
    simp [build]
  rw [hsplit] at h
  obtain ⟨_, mid, hentries, hindex⟩ := Task.apply_bind_eq_ok.mp h
  have hmid := keeps_entries document empty grounded_empty
  rw [hentries] at hmid
  rw [Task.apply_edit, Space.applyTo_buildIndex] at hindex
  cases hindex
  exact hmid.indexed

/-- **A text is read exactly if it lists a document and the document can be taken in**, so what
holds for the knowledge of every document holds for that of every text. -/
theorem read_eq_ok {source : String} :
    read source = .ok k ↔ ∃ document, KnowledgeDocument.read? source = some document ∧
      (build document).apply empty = (.ok (), k) := by
  unfold read
  cases KnowledgeDocument.read? source with
  | none => simp
  | some document =>
    simp only [Option.some.injEq, exists_eq_left']
    rcases (build document).apply empty with ⟨err | built, k'⟩
    · exact iff_of_false (fun h => by cases h) fun h => by cases h
    · simp

end Knowledge

end CellComplex
