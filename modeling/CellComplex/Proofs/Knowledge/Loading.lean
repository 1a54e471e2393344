import CellComplex.Proofs.Knowledge.Contents

/-!
# A document is taken in as it is written

The knowledge of a document holds what the document lists, and nothing else: a point for every label
that it mentions, in the order of first mention; an edge for every link, one for links that are
equal; an edge for every piece of evidence; and the names.

* `KnowledgeDocument.mentions`, `KnowledgeDocument.nameCount`: what a document mentions and names;
* `Knowledge.Meets`, `Knowledge.Attests`: an edge is what an entry asks for;
* **`Knowledge.Shows`**: the knowledge holds a document, and nothing else;
* **`Knowledge.Shows.addLink`**, **`Knowledge.Shows.addEvidence`**: one entry more;
* `Knowledge.shows_of_build`: all of them;
* **`build_describes`**: for every document that can be taken in.
-/

namespace CellComplex

/-! ## 1. What a document mentions -/

/-- The labels that a link mentions. -/
def LinkEntry.mentions (entry : LinkEntry) : List String :=
  [entry.subject, entry.predicate] ++ entry.atom.toList

/-- The labels that a piece of evidence mentions. -/
def EvidenceEntry.mentions (entry : EvidenceEntry) : List String :=
  [entry.subject, entry.predicate] ++ entry.atom.toList

/-- **The labels that a document mentions**, as often as it does. -/
def KnowledgeDocument.mentions (document : KnowledgeDocument) : List String :=
  document.points ++ document.links.flatMap LinkEntry.mentions ++
    document.evidence.flatMap EvidenceEntry.mentions

/-- **The number of entries that give a name.** -/
def KnowledgeDocument.nameCount (document : KnowledgeDocument) : Nat :=
  (document.links.countP fun entry => entry.atom.isSome) +
    document.evidence.countP fun entry => entry.atom.isSome

namespace Knowledge

variable {k k' : Knowledge} {document : KnowledgeDocument} {links evidence : List CellId}
variable {edge : CellId}

/-! ## 2. What an entry asks for -/

/-- **The edge is what a link asks for**: it has the label, it runs between the points in their
order (in either order where orientation does not count), and it has the name. -/
def Meets (k : Knowledge) (entry : LinkEntry) (edge : CellId) : Prop :=
  ∃ a b, k.IsPointOf entry.subject a ∧ k.IsPointOf entry.predicate b ∧
    k.space.IsLink a b entry.label entry.oriented edge ∧ k.IsNamed edge entry.atom

/-- **The edge is what a piece of evidence asks for**: it has the label, the points in their order,
the truth value and the name. -/
def Attests (k : Knowledge) (entry : EvidenceEntry) (edge : CellId) : Prop :=
  ∃ a b c, k.IsPointOf entry.subject a ∧ k.IsPointOf entry.predicate b ∧
    k.store.find? edge = some c ∧ c.isEdge = true ∧ c.label = entry.label ∧ c.boundary = [a, b] ∧
    c.embedding = .ofTruth entry.truth ∧ k.IsNamed edge entry.atom

theorem Within.meets {entry : LinkEntry} (h : k.Within k') (hmeets : k.Meets entry edge) :
    k'.Meets entry edge := by
  obtain ⟨a, b, ha, hb, hlink, hnamed⟩ := hmeets
  exact ⟨a, b, h.isPointOf ha, h.isPointOf hb, h.isLink hlink, h.isNamed hnamed⟩

theorem Within.attests {entry : EvidenceEntry} (h : k.Within k') (hattests : k.Attests entry edge) :
    k'.Attests entry edge := by
  obtain ⟨a, b, c, ha, hb, hc, hedge, hlabel, hboundary, hpayload, hnamed⟩ := hattests
  exact ⟨a, b, c, h.isPointOf ha, h.isPointOf hb, h.find edge c hc, hedge, hlabel, hboundary,
    hpayload, h.isNamed hnamed⟩

/-- **The knowledge holds a document**: `links` are the edges that its links ask for, and `evidence`
those that its evidence asks for, entry by entry; and these, with the points of the labels that the
document mentions, are all there is. -/
structure Shows (k : Knowledge) (document : KnowledgeDocument) (links evidence : List CellId) :
    Prop extends Contains k document.mentions links evidence document.nameCount where
  meets : List.Forall₂ k.Meets document.links links
  attests : List.Forall₂ k.Attests document.evidence evidence

/-! ## 3. One entry -/

/-- **One point more.** -/
theorem Shows.addPoint {points : List String} {label : String} {id : CellId}
    (h : k.Shows ⟨points, [], []⟩ [] [])
    (happly : (ensurePoint label).apply k = (.ok id, k')) :
    k'.Shows ⟨points ++ [label], [], []⟩ [] [] := by
  obtain ⟨hall, _, _⟩ := h.toContains.ensurePoint happly
  refine ⟨?_, .nil, .nil⟩
  simpa [KnowledgeDocument.mentions, KnowledgeDocument.nameCount] using hall

/-- **One link more**, while there is no evidence yet. -/
theorem Shows.addLink {points : List String} {entries : List LinkEntry} {entry : LinkEntry}
    (h : k.Shows ⟨points, entries, []⟩ links [])
    (happly : (addLink entry).apply k = (.ok (), k')) :
    ∃ edge, k'.Shows ⟨points, entries ++ [entry], []⟩ (links ++ [edge]) [] := by
  obtain ⟨a, k₁, ha, happly⟩ := Task.apply_bind_eq_ok.mp happly
  obtain ⟨b, k₂, hb, happly⟩ := Task.apply_bind_eq_ok.mp happly
  obtain ⟨edge, k₃, hedge, hname⟩ := Task.apply_bind_eq_ok.mp happly
  obtain ⟨h₁, hw₁, hpa⟩ := h.toContains.ensurePoint ha
  obtain ⟨h₂, hw₂, hpb⟩ := h₁.ensurePoint hb
  obtain ⟨h₃, hw₃, hlink⟩ := h₂.link hedge
  obtain ⟨h₄, hw₄, hnamed⟩ := h₃.nameEdge hname
  have hwithin : k.Within k' := ((hw₁.trans hw₂).trans hw₃).trans hw₄
  have hmeets : k'.Meets entry edge := by
    refine ⟨a, b, h₄.isPointOf ?_, h₄.isPointOf ?_, hw₄.isLink hlink, hnamed⟩
    · exact ((hw₂.trans hw₃).trans hw₄).point _ _ hpa
    · exact (hw₃.trans hw₄).point _ _ hpb
  refine ⟨edge, ?_, ?_, .nil⟩
  · simpa [KnowledgeDocument.mentions, KnowledgeDocument.nameCount, LinkEntry.mentions,
      List.countP_append, List.countP_cons] using h₄
  · exact List.rel_append (h.meets.imp fun _ _ => hwithin.meets) (.cons hmeets .nil)

/-- Evidence that was taken in passed the test of its truth value, and then did this. -/
theorem addEvidence_eq_ok {entry : EvidenceEntry}
    (h : (addEvidence entry).apply k = (.ok (), k')) :
    Task.apply (do
      let subject ← ensurePoint entry.subject
      let predicate ← ensurePoint entry.predicate
      let edge ← Task.edit (Space.create entry.label [subject, predicate])
      Task.edit (Space.setEmbedding edge (.ofTruth entry.truth))
      nameEdge edge entry.atom) k = (.ok (), k') := by
  unfold addEvidence at h
  cases hrange : isEvidence entry.truth with
  | true => simpa [hrange] using h
  | false =>
    simp only [hrange, Bool.not_false, if_true] at h
    cases h

/-- **One piece of evidence more.** -/
theorem Shows.addEvidence {points : List String} {linkEntries : List LinkEntry}
    {entries : List EvidenceEntry} {entry : EvidenceEntry}
    (h : k.Shows ⟨points, linkEntries, entries⟩ links evidence)
    (happly : (addEvidence entry).apply k = (.ok (), k')) :
    ∃ edge, k'.Shows ⟨points, linkEntries, entries ++ [entry]⟩ links (evidence ++ [edge]) := by
  have happly := addEvidence_eq_ok happly
  obtain ⟨a, k₁, ha, happly⟩ := Task.apply_bind_eq_ok.mp happly
  obtain ⟨b, k₂, hb, happly⟩ := Task.apply_bind_eq_ok.mp happly
  obtain ⟨edge, k₃, hcreate, happly⟩ := Task.apply_bind_eq_ok.mp happly
  obtain ⟨_, k₄, hset, hname⟩ := Task.apply_bind_eq_ok.mp happly
  obtain ⟨h₁, hw₁, hpa⟩ := h.toContains.ensurePoint ha
  obtain ⟨h₂, hw₂, hpb⟩ := h₁.ensurePoint hb
  obtain ⟨h₄, hw₄, c, hc, hedge, hlabel, hboundary, hpayload⟩ := h₂.createEvidence
    (h₂.isPointOf (hw₂.point _ _ hpa)).isPoint (h₂.isPointOf hpb).isPoint hcreate hset
  obtain ⟨h₅, hw₅, hnamed⟩ := h₄.nameEdge hname
  have hwithin : k.Within k' := ((hw₁.trans hw₂).trans hw₄).trans hw₅
  have hattests : k'.Attests entry edge := by
    refine ⟨a, b, c, h₅.isPointOf ?_, h₅.isPointOf ?_, hw₅.find _ _ hc, hedge, hlabel, hboundary,
      hpayload, hnamed⟩
    · exact ((hw₂.trans hw₄).trans hw₅).point _ _ hpa
    · exact (hw₄.trans hw₅).point _ _ hpb
  refine ⟨edge, ?_, h.meets.imp fun _ _ => hwithin.meets, ?_⟩
  · simpa [KnowledgeDocument.mentions, KnowledgeDocument.nameCount, EvidenceEntry.mentions,
      List.countP_append, List.countP_cons, Nat.add_assoc] using h₅
  · exact List.rel_append (h.attests.imp fun _ _ => hwithin.attests) (.cons hattests .nil)

/-! ## 4. All entries -/

/-- Building the index changes nothing that a document lists. -/
theorem Shows.indexed (h : k.Shows document links evidence) :
    Shows ⟨k.store.buildIndex k.store.lookup, k.points⟩ document links evidence := by
  have hwithin : k.Within ⟨k.store.buildIndex k.store.lookup, k.points⟩ :=
    ⟨fun _ _ h => h, fun _ _ h => h, fun _ _ h => h⟩
  exact ⟨⟨⟨h.toGrounded.indexed.toGrounded, h.low, h.points.imp fun _ _ => hwithin.isPointOf,
    h.known, h.names_eq⟩, h.edges, h.single⟩, h.meets.imp fun _ _ => hwithin.meets,
    h.attests.imp fun _ _ => hwithin.attests⟩

/-- **What is taken in is held**, loop by loop. -/
theorem shows_of_build (h : (build document).apply empty = (.ok (), k)) :
    ∃ links evidence, k.Shows document links evidence := by
  obtain ⟨points, linkEntries, evidenceEntries⟩ := document
  obtain ⟨_, k₁, hpoints, h⟩ := Task.apply_bind_eq_ok.mp h
  obtain ⟨_, k₂, hlinks, h⟩ := Task.apply_bind_eq_ok.mp h
  obtain ⟨_, k₃, hevidence, hindex⟩ := Task.apply_bind_eq_ok.mp h
  rw [Task.apply_edit, Space.applyTo_buildIndex] at hindex
  cases hindex
  have h₁ : k₁.Shows ⟨points, [], []⟩ [] [] := by
    refine Task.forM_induction (P := fun done k => k.Shows ⟨done, [], []⟩ [] []) hpoints
      ⟨contains_empty, .nil, .nil⟩ fun done label k k' hk happly => ?_
    obtain ⟨_, _, hensure, hpure⟩ := Task.apply_bind_eq_ok.mp happly
    cases hpure
    exact hk.addPoint hensure
  have h₂ : ∃ links, k₂.Shows ⟨points, linkEntries, []⟩ links [] := by
    refine Task.forM_induction (P := fun done k => ∃ links, k.Shows ⟨points, done, []⟩ links [])
      hlinks ⟨[], h₁⟩ fun done entry k k' hk happly => ?_
    obtain ⟨links, hk⟩ := hk
    obtain ⟨edge, hk'⟩ := hk.addLink happly
    exact ⟨_, hk'⟩
  obtain ⟨links, h₂⟩ := h₂
  have h₃ : ∃ evidence, k₃.Shows ⟨points, linkEntries, evidenceEntries⟩ links evidence := by
    refine Task.forM_induction
      (P := fun done k => ∃ evidence, k.Shows ⟨points, linkEntries, done⟩ links evidence)
      hevidence ⟨[], h₂⟩ fun done entry k k' hk happly => ?_
    obtain ⟨evidence, hk⟩ := hk
    obtain ⟨edge, hk'⟩ := hk.addEvidence happly
    exact ⟨_, hk'⟩
  obtain ⟨evidence, h₃⟩ := h₃
  exact ⟨links, evidence, h₃.indexed⟩

end Knowledge

/-- **Loading builds exactly the store that a document describes.** For every document that can be
taken in there are edges for its links and edges for its evidence, entry by entry, such that the
knowledge holds them, the points of the labels that the document mentions, in the order of first
mention, and nothing else; the layers list the cells of each dimension, oldest first; and the index
is fresh. -/
theorem build_describes {document : KnowledgeDocument} {k : Knowledge}
    (h : (Knowledge.build document).apply Knowledge.empty = (.ok (), k)) :
    ∃ links evidence, k.Shows document links evidence ∧
      (∀ n id, id ∈ k.store.layer n ↔ ∃ c, k.store.find? id = some c ∧ c.dimension = n) ∧
      (∀ n, (k.store.layer n).Pairwise fun a b => a.index < b.index) ∧
      k.store.isStale = false := by
  have horder : k.InOrder := Knowledge.inOrder_of_build h
  have hconsistent := horder.reachable.consistent
  obtain ⟨links, evidence, hshows⟩ := Knowledge.shows_of_build h
  exact ⟨links, evidence, hshows, hconsistent.mem_layer, hconsistent.layer_ascending, horder.fresh⟩

/-- Two links that are one edge, of which the second gives a name; the same evidence twice; and a
point that is listed before it is the name. -/
def pondDocument : KnowledgeDocument where
  points := ["pond", "frog"]
  links := [⟨"frog", "animal", "is", true, none⟩, ⟨"animal", "frog", "is", false, some "pond"⟩]
  evidence := [⟨"frog", "animal", "is", ⟨1, 0.5⟩, none⟩, ⟨"frog", "animal", "is", ⟨1, 0.5⟩, none⟩]

/-- Three points and three edges are made, and one name is given. -/
theorem build_describes_pond :
    ∃ k links evidence, (Knowledge.build pondDocument).apply Knowledge.empty = (.ok (), k) ∧
      k.Shows pondDocument links evidence ∧ k.store.layer 0 = [⟨0, 0⟩, ⟨0, 1⟩, ⟨0, 2⟩] ∧
      links.eraseDups ++ evidence = [⟨0, 3⟩, ⟨0, 4⟩, ⟨0, 5⟩] ∧ links.length = 2 ∧
      evidence.length = 2 ∧ k.store.atomLinkCount = 1 := by
  have hbuild : ((Knowledge.build pondDocument).apply Knowledge.empty).1.toOption = some () ∧
      ((Knowledge.build pondDocument).apply Knowledge.empty).2.store.layer 0 =
        [⟨0, 0⟩, ⟨0, 1⟩, ⟨0, 2⟩] ∧
      ((Knowledge.build pondDocument).apply Knowledge.empty).2.store.layer 1 =
        [⟨0, 3⟩, ⟨0, 4⟩, ⟨0, 5⟩] := by decide +kernel
  obtain ⟨hok, hpoints, hedges⟩ := hbuild
  have hrun := Prod.ext (Outcome.toOption_eq_some.mp hok) rfl
  obtain ⟨links, evidence, hshows, _⟩ := build_describes hrun
  exact ⟨_, links, evidence, hrun, hshows, hpoints, hshows.edges.symm.trans hedges,
    hshows.meets.length_eq.symm, hshows.attests.length_eq.symm, hshows.names_eq⟩

end CellComplex
