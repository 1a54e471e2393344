import Mathlib.Data.List.Find
import CellComplex.Proofs.Knowledge.Loading

/-!
# Links that are listed again

A link that a document lists twice is one edge: the second entry finds the points and the edge of
the first, whatever was listed in between. A name is different. It is given to the edge once, and an
entry that gives it again is refused, and the document with it.

* `Knowledge.Grows`: knowledge that only grew, the new edges behind those that were there;
* `Knowledge.Settles`: the edge that an entry finds from now on;
* **`Grows.settles`**: growth moves no entry to another edge;
* **`settles_addLinks`**: every entry that was taken in has settled;
* **`Settles.addLink_unnamed`**, **`Settles.addLink_named`**: taking it in again;
* **`build_repeats`**: a document with a copy of one of its links;
* `build_repeats_birds`: a name that is given twice.
-/

namespace CellComplex

namespace Knowledge

variable {k k' k'' mid : Knowledge} {label : String} {id a b p edge : CellId} {oriented : Bool}
variable {entry other : LinkEntry} {entries : List LinkEntry} {atom : Option String} {c : Cell}

/-! ## 1. Growing at the end -/

/-- **Knowledge that only grew, edge after edge**: the edges that were there come first. -/
structure Grows (k k' : Knowledge) : Prop extends Within k k' where
  layer : k.store.layer 1 <+: k'.store.layer 1

namespace Grows

theorem refl (k : Knowledge) : k.Grows k := ⟨.refl k, List.prefix_rfl⟩

theorem trans (h : k.Grows k') (h' : k'.Grows k'') : k.Grows k'' :=
  ⟨h.toWithin.trans h'.toWithin, h.layer.trans h'.layer⟩

/-- **The first edge of its kind stays the first.** -/
theorem findLink? (h : k.Grows k') (hk : k.Grounded)
    (hfound : k.space.findLink? a b label oriented = some edge) :
    k'.space.findLink? a b label oriented = some edge := by
  obtain ⟨later, hlater⟩ := h.layer
  have hlayer : k'.space.layer 1 = k.space.layer 1 ++ later := by
    rw [space, Space.ofStore, Space.layer_mk, space, Space.ofStore, Space.layer_mk]
    exact hlater.symm
  have hsame : ∀ x ∈ k.space.layer 1, ∀ test : Cell → Bool,
      k'.space.satisfies x test = k.space.satisfies x test := by
    intro x hx test
    obtain ⟨s, hs, hx⟩ := Space.mem_layer.mp hx
    obtain ⟨c, hc, _⟩ := ((hk.filed s hs).mem_layer 1 x).mp hx
    obtain rfl : s = k.store := List.mem_singleton.mp hs
    unfold Space.satisfies
    rw [find?_space, find?_space, hc, h.find x c hc]
  unfold Space.findLink? at hfound ⊢
  rw [hlayer, List.find?_append, List.find?_congr fun x hx => hsame x hx _, hfound]
  rfl

end Grows

theorem grows_push (hid : c.id = k.store.nextId 0) : k.Grows ⟨k.store.push c, k.points⟩ := by
  refine ⟨within_push hid, ?_⟩
  rw [Store.layer_push]
  split
  · exact List.prefix_append _ _
  · exact List.prefix_rfl

theorem grows_ensurePoint (happly : (ensurePoint label).apply k = (.ok id, k')) :
    k.Grows k' ∧ k'.point label = .ok id := by
  rcases ensurePoint_eq_ok happly with ⟨hfound, rfl⟩ | ⟨hnew, rfl, rfl⟩
  · exact ⟨.refl _, point_eq_ok.mpr hfound⟩
  · have hlayer : (k.withPoint label).store.layer 1 = k.store.layer 1 := Store.layer_push
    exact ⟨⟨within_withPoint hnew, hlayer ▸ List.prefix_rfl⟩,
      point_eq_ok.mpr Std.TreeMap.getElem?_insert_self⟩

theorem grows_link
    (happly : (Task.edit (Space.link a b label oriented)).apply k = (.ok edge, k')) :
    k.Grows k' ∧ k'.space.findLink? a b label oriented = some edge := by
  obtain ⟨sp, hlink, rfl⟩ := Task.apply_edit_eq_ok.mp happly
  have hown : ∀ s ∈ (Space.ofStore k.store).below, s.id ≠ k.store.id :=
    fun s hs => absurd hs List.not_mem_nil
  obtain ⟨_, _, hfound⟩ := Space.findLink?_of_apply_link hown hlink
  obtain ⟨_, _, ⟨_, rfl⟩ | ⟨_, c, hmake, _, rfl⟩⟩ := Space.apply_link_eq_ok.mp hlink
  · exact ⟨.refl _, hfound⟩
  · exact ⟨grows_push (make_fields hmake).1, hfound⟩

/-- A name that was given is found. -/
theorem grows_nameEdge (happly : (nameEdge edge atom).apply k = (.ok (), k')) :
    k.Grows k' ∧ ∀ label, atom = some label →
      ∃ p, k'.point label = .ok p ∧ p ∈ k'.store.atomsOf edge := by
  cases atom with
  | none =>
    cases happly
    exact ⟨.refl _, fun label hlabel => by cases hlabel⟩
  | some label =>
    obtain ⟨p, mid, hpoint, hlink⟩ := Task.apply_bind_eq_ok.mp happly
    obtain ⟨hgrows, hp⟩ := grows_ensurePoint hpoint
    obtain ⟨_, rfl⟩ := linkAtom_eq_ok hlink
    refine ⟨hgrows.trans ⟨within_linkAtom, List.prefix_rfl⟩, fun other hother => ?_⟩
    cases hother
    exact ⟨p, hp, Store.mem_atomsOf_linkAtom.mpr (Or.inr ⟨rfl, rfl⟩)⟩

/-! ## 2. Entries that have settled -/

/-- **The edge that an entry finds**: the points of its ends are there, the edge is the first that
it may be, and it has the name. -/
def Settles (k : Knowledge) (entry : LinkEntry) (edge : CellId) : Prop :=
  (∃ a b, k.point entry.subject = .ok a ∧ k.point entry.predicate = .ok b ∧
    k.space.findLink? a b entry.label entry.oriented = some edge) ∧
  ∀ label, entry.atom = some label → ∃ p, k.point label = .ok p ∧ p ∈ k.store.atomsOf edge

/-- **Growth moves no entry to another edge.** -/
theorem Grows.settles (h : k.Grows k') (hk : k.Grounded) (hsettles : k.Settles entry edge) :
    k'.Settles entry edge := by
  obtain ⟨⟨a, b, ha, hb, hfound⟩, hnamed⟩ := hsettles
  refine ⟨⟨a, b, h.point _ _ ha, h.point _ _ hb, h.findLink? hk hfound⟩, fun label hlabel => ?_⟩
  obtain ⟨p, hp, hrelated⟩ := hnamed label hlabel
  exact ⟨p, h.point _ _ hp, h.atoms _ _ hrelated⟩

/-- **An entry that is taken in settles.** -/
theorem grows_addLink (hk : k.Grounded) (happly : (addLink entry).apply k = (.ok (), k')) :
    k.Grows k' ∧ ∃ edge, k'.Settles entry edge := by
  obtain ⟨a, k₁, ha, happly⟩ := Task.apply_bind_eq_ok.mp happly
  obtain ⟨b, k₂, hb, happly⟩ := Task.apply_bind_eq_ok.mp happly
  obtain ⟨edge, k₃, hedge, hname⟩ := Task.apply_bind_eq_ok.mp happly
  obtain ⟨hg₁, hpa⟩ := grows_ensurePoint ha
  obtain ⟨hg₂, hpb⟩ := grows_ensurePoint hb
  obtain ⟨hg₃, hfound⟩ := grows_link hedge
  obtain ⟨hg₄, hnamed⟩ := grows_nameEdge hname
  have hk₂ : k₂.Grounded := (keeps_ensurePoint _).apply ((keeps_ensurePoint _).apply hk ha) hb
  have hk₃ : k₃.Grounded := (keeps_link a b entry.label entry.oriented).apply hk₂ hedge
  refine ⟨((hg₁.trans hg₂).trans hg₃).trans hg₄, edge, ⟨a, b, ?_, ?_, hg₄.findLink? hk₃ hfound⟩,
    hnamed⟩
  · exact ((hg₂.trans hg₃).trans hg₄).point _ _ hpa
  · exact (hg₃.trans hg₄).point _ _ hpb

/-- **Every entry that was taken in has settled.** -/
theorem settles_addLinks (h : (entries.forM addLink).apply k = (.ok (), k')) (hk : k.Grounded) :
    k'.Grounded ∧ k.Grows k' ∧ ∀ entry ∈ entries, ∃ edge, k'.Settles entry edge := by
  refine Task.forM_induction
    (P := fun done mid => mid.Grounded ∧ k.Grows mid ∧
      ∀ entry ∈ done, ∃ edge, mid.Settles entry edge) h
    ⟨hk, .refl k, fun entry hentry => absurd hentry List.not_mem_nil⟩ ?_
  intro done last mid next hmid happly
  obtain ⟨hground, hgrown, hsettled⟩ := hmid
  obtain ⟨hgrows, hlast⟩ := grows_addLink hground happly
  refine ⟨(keeps_addLink last).apply hground happly, hgrown.trans hgrows, fun entry hentry => ?_⟩
  rcases List.mem_append.mp hentry with hold | hnew
  · obtain ⟨edge, hedge⟩ := hsettled entry hold
    exact ⟨edge, hgrows.settles hground hedge⟩
  · cases List.mem_singleton.mp hnew
    exact hlast

/-! ## 3. An entry once more -/

theorem apply_ensurePoint_found (hid : k.point label = .ok id) :
    (ensurePoint label).apply k = (.ok id, k) := by
  unfold ensurePoint
  rw [Task.ask_bind_ok (a := k.points[label]?) rfl, point_eq_ok.mp hid]
  rfl

section Settled

variable (hk : k.Grounded) (h : k.Settles entry edge)
include hk h

/-- An entry that has settled makes no point and no edge. -/
theorem Settles.apply_addLink :
    (addLink entry).apply k = (nameEdge edge entry.atom).apply k := by
  obtain ⟨⟨a, b, ha, hb, hfound⟩, _⟩ := h
  have hlink : (Task.edit (Space.link a b entry.label entry.oriented)).apply k = (.ok edge, k) := by
    refine Task.apply_edit_eq_ok.mpr ⟨.ofStore k.store, ?_, rfl⟩
    have hpoint : ∀ {x label}, k.point label = .ok x → k.space.lookup.IsPoint x := fun hx => by
      obtain ⟨c, hc, hzero⟩ := (hk.isLivePoint_of_point hx).isPoint
      exact ⟨c, (k.find?_space _).trans hc, hzero⟩
    exact Space.apply_link_eq_ok.mpr ⟨hpoint ha, hpoint hb, Or.inl ⟨hfound, rfl⟩⟩
  unfold addLink
  rw [Task.apply_bind_ok (apply_ensurePoint_found ha),
    Task.apply_bind_ok (apply_ensurePoint_found hb), Task.apply_bind_ok hlink]

/-- **Without a name it changes nothing.** -/
theorem Settles.addLink_unnamed (hatom : entry.atom = none) :
    (addLink entry).apply k = (.ok (), k) := by
  rw [h.apply_addLink hk, hatom]
  rfl

/-- **A name is not given twice.** -/
theorem Settles.addLink_named (hatom : entry.atom = some label) :
    ∃ p, k.point label = .ok p ∧ p ∈ k.store.atomsOf edge ∧
      (addLink entry).apply k = (.error (.store (.duplicateAtomLink edge p)), k) := by
  have happly := h.apply_addLink hk
  obtain ⟨⟨a, b, _, _, hfound⟩, hnamed⟩ := h
  obtain ⟨p, hp, hrelated⟩ := hnamed label hatom
  obtain ⟨c, hc, hedge, _⟩ := Space.isLink_of_findLink? hfound
  obtain ⟨d, hd, hzero⟩ := (hk.isLivePoint_of_point hp).isPoint
  have hname : Space.requireNameable c d = .ok () := by
    have hdim : c.dimension ≠ 0 := by
      rw [(Space.isEdge_iff.mp hedge).1]
      exact Nat.one_ne_zero
    exact (if_neg hdim).trans (Space.requirePoint_eq_ok.mpr hzero)
  have hagain : (Space.linkAtom edge p).apply (.ofStore k.store) =
      (.error (.duplicateAtomLink edge p), .ofStore k.store) := by
    refine Edit.apply_decide_error ?_
    have hresolve : (Space.ofStore k.store).resolve edge = .ok c := Space.resolve_eq_ok.mpr hc
    have hthere : ((Space.ofStore k.store).atomsOf edge).contains p = true :=
      Std.TreeSet.contains_iff_mem.mpr hrelated
    rw [hresolve, Store.resolve_ofStore hd, if_pos hthere]
    show (Space.requireNameable c d >>= fun _ => _) = _
    rw [hname]
    rfl
  refine ⟨p, hp, hrelated, happly.trans ?_⟩
  rw [hatom]
  show (ensurePoint label >>= fun point => Task.edit (Space.linkAtom edge point)).apply k = _
  rw [Task.apply_bind_ok (apply_ensurePoint_found hp), Task.apply_edit, Edit.applyTo, hagain]
  rfl

end Settled

/-! ## 4. What follows the links -/

/-- Evidence takes nothing away. -/
theorem within_addEvidence {entry : EvidenceEntry}
    (happly : (addEvidence entry).apply k = (.ok (), k')) : k.Within k' := by
  have happly := addEvidence_eq_ok happly
  obtain ⟨a, k₁, ha, happly⟩ := Task.apply_bind_eq_ok.mp happly
  obtain ⟨b, k₂, hb, happly⟩ := Task.apply_bind_eq_ok.mp happly
  obtain ⟨edge, k₃, hcreate, happly⟩ := Task.apply_bind_eq_ok.mp happly
  obtain ⟨_, k₄, hset, hname⟩ := Task.apply_bind_eq_ok.mp happly
  obtain ⟨hg₁, _⟩ := grows_ensurePoint ha
  obtain ⟨hg₂, _⟩ := grows_ensurePoint hb
  obtain ⟨c, hmake, _, rfl⟩ := createEvidence_eq_ok hcreate hset
  have hw₃ : k₂.Within _ := within_push (c := { c with embedding := .ofTruth entry.truth })
    (make_fields hmake).1
  obtain ⟨hg₄, _⟩ := grows_nameEdge hname
  exact ((hg₁.trans hg₂).toWithin.trans hw₃).trans hg₄.toWithin

/-- What is there after the links is there in the end. -/
theorem within_rest {evidence : List EvidenceEntry}
    (h : Task.apply (do evidence.forM addEvidence; Task.edit Space.buildIndex) k = (.ok (), k')) :
    k.Within k' := by
  obtain ⟨_, mid, hevidence, hindex⟩ := Task.apply_bind_eq_ok.mp h
  rw [Task.apply_edit, Space.applyTo_buildIndex] at hindex
  cases hindex
  have hmid : k.Within mid := Task.forM_induction (P := fun _ mid => k.Within mid) hevidence
    (.refl k) fun _ _ _ _ hw happly => hw.trans (within_addEvidence happly)
  exact hmid.trans ⟨fun _ _ h => h, fun _ _ h => h, fun _ _ h => h⟩

/-- An entry that settled before the evidence asks for an edge that the knowledge shows. -/
theorem Shows.meets_of_settles {document : KnowledgeDocument} {links evidence : List CellId}
    (h : k'.Shows document links evidence) (hw : k.Within k') (hsettles : k.Settles entry edge) :
    k'.Meets entry edge := by
  obtain ⟨⟨a, b, ha, hb, hfound⟩, hnamed⟩ := hsettles
  refine ⟨a, b, h.isPointOf (hw.point _ _ ha), h.isPointOf (hw.point _ _ hb),
    hw.isLink (Space.isLink_of_findLink? hfound), fun label hlabel => ?_⟩
  obtain ⟨p, hp, hrelated⟩ := hnamed label hlabel
  exact ⟨p, h.isPointOf (hw.point _ _ hp), hw.atoms _ _ hrelated⟩

end Knowledge

/-! ## 5. Documents -/

/-- **A document with a copy of one of its links**, anywhere behind that link. -/
def KnowledgeDocument.Repeats (document copied : KnowledgeDocument) (entry : LinkEntry) : Prop :=
  ∃ before after, entry ∈ before ∧ document.links = before ++ after ∧
    copied = { document with links := before ++ entry :: after }

/-- **A link that is listed again is harmless exactly if it has no name.** For every document that
can be taken in and every copy of one of its links, anywhere behind it: if the link has no name, the
document with the copy can be taken in, and yields the same knowledge. If it has a name, the
document with the copy is refused: the point of the name is already an atom of the edge that the
link asks for. -/
theorem build_repeats {document copied : KnowledgeDocument} {entry : LinkEntry} {k : Knowledge}
    (hrepeats : document.Repeats copied entry)
    (h : (Knowledge.build document).apply Knowledge.empty = (.ok (), k)) :
    (entry.atom = none → (Knowledge.build copied).apply Knowledge.empty = (.ok (), k)) ∧
    ∀ label, entry.atom = some label →
      ∃ edge p, k.Meets entry edge ∧ k.IsPointOf label p ∧ p ∈ k.store.atomsOf edge ∧
        ((Knowledge.build copied).apply Knowledge.empty).1 =
          .error (.store (.duplicateAtomLink edge p)) := by
  obtain ⟨links, evidence, hshows⟩ := Knowledge.shows_of_build h
  obtain ⟨before, after, hentry, hlinks, rfl⟩ := hrepeats
  obtain ⟨_, k₁, hpoints, h⟩ := Task.apply_bind_eq_ok.mp h
  obtain ⟨_, k₂, hboth, hrest⟩ := Task.apply_bind_eq_ok.mp h
  rw [hlinks] at hboth
  obtain ⟨mid, hbefore, hafter⟩ := Task.apply_forM_append_eq_ok.mp hboth
  have hk₁ : k₁.Grounded := (Task.Keeps.forM fun label =>
    (Knowledge.keeps_ensurePoint label).discard).apply Knowledge.grounded_empty hpoints
  obtain ⟨hmid, _, hsettled⟩ := Knowledge.settles_addLinks hbefore hk₁
  obtain ⟨edge, hedge⟩ := hsettled entry hentry
  refine ⟨fun hatom => ?_, fun label hatom => ?_⟩
  · have hcopy : ((before ++ entry :: after).forM Knowledge.addLink).apply k₁ = (.ok (), k₂) := by
      rw [Task.apply_forM_append hbefore]
      exact Task.apply_bind_eq_ok.mpr ⟨(), mid, hedge.addLink_unnamed hmid hatom, hafter⟩
    exact Task.apply_bind_eq_ok.mpr ⟨(), k₁, hpoints,
      Task.apply_bind_eq_ok.mpr ⟨(), k₂, hcopy, hrest⟩⟩
  · obtain ⟨p, hp, hrelated, hrefused⟩ := hedge.addLink_named hmid hatom
    have hcopy : ((before ++ entry :: after).forM Knowledge.addLink).apply k₁ =
        (.error (.store (.duplicateAtomLink edge p)), mid) := by
      rw [Task.apply_forM_append hbefore]
      exact Task.apply_bind_error hrefused
    obtain ⟨_, hgrows, _⟩ := Knowledge.settles_addLinks hafter hmid
    have hwithin : mid.Within k := hgrows.toWithin.trans (Knowledge.within_rest hrest)
    refine ⟨edge, p, hshows.meets_of_settles hwithin hedge, hshows.isPointOf (hwithin.point _ _ hp),
      hwithin.atoms _ _ hrelated, ?_⟩
    unfold Knowledge.build
    rw [Task.apply_bind_ok hpoints, Task.apply_bind_error hcopy]

/-- A link with a name, and a link without one. -/
def robinDocument : KnowledgeDocument where
  points := []
  links := [⟨"bird", "animal", "is", true, some "birds"⟩, ⟨"robin", "bird", "is", true, none⟩]
  evidence := []

/-- The document with a copy of its first link at the end. -/
def birdsAgain : KnowledgeDocument where
  points := []
  links := robinDocument.links ++ [⟨"bird", "animal", "is", true, some "birds"⟩]
  evidence := []

/-- The document with a copy of its second link at the end. -/
def robinsAgain : KnowledgeDocument where
  points := []
  links := robinDocument.links ++ [⟨"robin", "bird", "is", true, none⟩]
  evidence := []

/-- The link without a name may be listed twice; with its name the other one may not. -/
theorem build_repeats_birds :
    (∃ k, (Knowledge.build robinDocument).apply Knowledge.empty = (.ok (), k) ∧
      (Knowledge.build robinsAgain).apply Knowledge.empty = (.ok (), k)) ∧
    ∃ edge p, ((Knowledge.build birdsAgain).apply Knowledge.empty).1 =
      .error (.store (.duplicateAtomLink edge p)) := by
  have hok : ((Knowledge.build robinDocument).apply Knowledge.empty).1.toOption = some () := by
    decide +kernel
  have hrun := Prod.ext (Outcome.toOption_eq_some.mp hok) rfl
  have hbirds : robinDocument.Repeats birdsAgain ⟨"bird", "animal", "is", true, some "birds"⟩ :=
    ⟨robinDocument.links, [], List.mem_cons_self, rfl, rfl⟩
  have hrobins : robinDocument.Repeats robinsAgain ⟨"robin", "bird", "is", true, none⟩ :=
    ⟨robinDocument.links, [], List.mem_cons_of_mem _ List.mem_cons_self, rfl, rfl⟩
  obtain ⟨edge, p, _, _, _, hrefused⟩ := (build_repeats hbirds hrun).2 "birds" rfl
  exact ⟨⟨_, hrun, (build_repeats hrobins hrun).1 rfl⟩, edge, p, hrefused⟩

/-- **A copy of a link can be refused**, where the document without it is taken in. -/
theorem build_copy_refused :
    robinDocument.Repeats birdsAgain ⟨"bird", "animal", "is", true, some "birds"⟩ ∧
      (∃ k, (Knowledge.build robinDocument).apply Knowledge.empty = (.ok (), k)) ∧
      ∀ k, (Knowledge.build birdsAgain).apply Knowledge.empty ≠ (.ok (), k) := by
  have hok : ((Knowledge.build robinDocument).apply Knowledge.empty).1.toOption = some () := by
    decide +kernel
  have hrefused : ((Knowledge.build birdsAgain).apply Knowledge.empty).1.toOption = none := by
    decide +kernel
  refine ⟨⟨robinDocument.links, [], List.mem_cons_self, rfl, rfl⟩,
    ⟨_, Prod.ext (Outcome.toOption_eq_some.mp hok) rfl⟩, fun k h => ?_⟩
  rw [h] at hrefused
  cases hrefused

end CellComplex
