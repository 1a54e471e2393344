import CellComplex.Proofs.Rule.Draft

/-!
# Which rules can be told

A clause is said if its boundary obeys the laws, and a rule can be finished if what it lists lies
above its points.

* `Lookup.hangsTogether_of_hub`: faces around a common point hang together;
* `Lookup.Arc`, `Lookup.lawful_square`: two arcs and the two arcs between their ends;
* `Tells`: a clause is said; `Drafted.tells_point`, `Drafted.tells_arc`, `Drafted.tells_bind_arc`:
  points, arcs, and binds of arcs whose ends are bound always are;
* `RuleDraft.scaffold_ok`, `RuleDraft.list_ok`: scaffolds are made, and listings;
* **`Drafted.finish_ok`**: a rule whose listed cells lie above its points is finished.
-/

namespace CellComplex

/-! ## 1. Boundaries around a point -/

namespace Lookup

variable {look look' : Lookup} {boundary : List CellId} {a b p r x y x' y' hub : CellId} {c : Cell}

theorem pointBelow_of_mem (hc : look.find a = some c) (hb : b ∈ c.boundary)
    (hp : look.IsPoint b) : look.PointBelow a b :=
  ⟨.single ((lists_iff hc).mpr hb), hp⟩

theorem known_of_pointBelow (h : look.PointBelow a p) : ∃ c, look.find a = some c := by
  obtain ⟨hreach, c, hc, _⟩ := h
  rcases Relation.ReflTransGen.cases_head hreach with rfl | ⟨_, ⟨c, hc, _⟩, _⟩
  · exact ⟨c, hc⟩
  · exact ⟨c, hc⟩

/-- What a larger lookup knows of the points below a cell. -/
theorem PointBelow.mono (h : ∀ x c, look.find x = some c → look'.find x = some c)
    (hap : look.PointBelow a p) : look'.PointBelow a p := by
  obtain ⟨hreach, c, hc, hzero⟩ := hap
  refine ⟨hreach.mono ?_, c, h p c hc, hzero⟩
  rintro a b ⟨c, hc, hb⟩
  exact ⟨c, h a c hc, hb⟩

/-- **Faces around a common point hang together**: the first lies above it, and each other face has
a point in common with one that does. -/
theorem hangsTogether_of_hub (hhead : ∃ a, boundary[0]? = some a ∧ look.PointBelow a hub)
    (h : ∀ b ∈ boundary, ∃ a ∈ boundary, look.PointBelow a hub ∧
      ∃ p, look.PointBelow a p ∧ look.PointBelow b p) : look.HangsTogether boundary := by
  intro j hj
  obtain ⟨first, hfirst, hbelow⟩ := hhead
  obtain ⟨a, ha, hhub, p, hap, hbp⟩ := h boundary[j] (List.getElem_mem hj)
  obtain ⟨i, hi⟩ := List.mem_iff_getElem?.mp ha
  have hstart : look.Meets boundary 0 i := ⟨first, a, hub, hfirst, hi, hbelow, hhub⟩
  have hstop : look.Meets boundary i j :=
    ⟨a, boundary[j], p, hi, List.getElem?_eq_getElem hj, hap, hbp⟩
  exact .tail (.single hstart) hstop

/-- A cell of dimension one over two points. -/
structure Arc (look : Lookup) (a x y : CellId) : Prop where
  find : ∃ c, look.find a = some c ∧ c.dimension = 1 ∧ c.boundary = [x, y]
  start : look.IsPoint x
  stop : look.IsPoint y

namespace Arc

variable (h : look.Arc a x y)
include h

theorem start_below : look.PointBelow a x := by
  obtain ⟨c, hc, _, hboundary⟩ := h.find
  exact pointBelow_of_mem hc (by simp [hboundary]) h.start

theorem stop_below : look.PointBelow a y := by
  obtain ⟨c, hc, _, hboundary⟩ := h.find
  exact pointBelow_of_mem hc (by simp [hboundary]) h.stop

end Arc

/-- **Two arcs and the arcs between their ends** make a cell. -/
theorem lawful_square (hs : look.Sound) (hp : look.Arc p x y) (hr : look.Arc r x' y')
    (ha : look.Arc a x x') (hb : look.Arc b y y') (hnodup : [p, r, a, b].Nodup) :
    look.Lawful [p, r, a, b] .full := by
  have hdim : ∀ z ∈ [p, r, a, b], ∃ c, look.find z = some c ∧ c.dimension = 1 := by
    have harc : ∀ {z u v}, look.Arc z u v → ∃ c, look.find z = some c ∧ c.dimension = 1 := by
      rintro z u v ⟨⟨c, hc, hone, _⟩, _, _⟩
      exact ⟨c, hc, hone⟩
    simp only [List.forall_mem_cons]
    exact ⟨harc hp, harc hr, harc ha, harc hb, by simp⟩
  have hhub : look.HangsTogether [p, r, a, b] := by
    refine hangsTogether_of_hub ⟨p, rfl, hp.start_below⟩ ?_
    simp only [List.forall_mem_cons]
    exact ⟨⟨p, by simp, hp.start_below, x, hp.start_below, hp.start_below⟩,
      ⟨a, by simp, ha.start_below, x', ha.stop_below, hr.start_below⟩,
      ⟨a, by simp, ha.start_below, x, ha.start_below, ha.start_below⟩,
      ⟨p, by simp, hp.start_below, y, hp.stop_below, hb.start_below⟩, by simp⟩
  refine lawful_full.mpr ⟨fun z hz => ?_, Or.inr ⟨⟨p, by simp, ?_⟩, hhub, ?_⟩⟩
  · obtain ⟨c, hc, _⟩ := hdim z hz
    exact ⟨c, hc⟩
  · obtain ⟨c, hc, hone⟩ := hdim p (by simp)
    exact ⟨c, hc, Nat.le_of_eq hone.symm⟩
  · exact hs.minimal_of_dimension hnodup hdim

end Lookup

/-! ## 2. Boundaries of binds -/

namespace RuleDraft

variable {draft : RuleDraft} {sp : Space} {p r x y a b : CellId} {c : Cell}

theorem boundaryIn_bind_ok (hc : sp.find? p = some c) :
    draft.boundaryIn sp (.bind p r) = .ok (draft.bindBoundary p r c.boundary) := by
  have hresolve : sp.resolve p = .ok c := Lookup.resolve_eq_ok.mpr hc
  show (sp.resolve p >>= fun cell => _) = _
  rw [hresolve]
  rfl

/-- The bind of an arc lists the two cells and the binds of its ends. -/
theorem bindBoundary_arc (ha : draft.binds[x]? = some a) (hb : draft.binds[y]? = some b)
    (hnodup : [p, r, a, b].Nodup) : draft.bindBoundary p r [x, y] = [p, r, a, b] := by
  simp only [List.nodup_cons, List.mem_cons, List.not_mem_nil, or_false, not_or] at hnodup
  obtain ⟨⟨_, hpa, hpb⟩, ⟨hra, hrb⟩, hab, _⟩ := hnodup
  have ha' : a ∉ [p, r] := by simp [Ne.symm hpa, Ne.symm hra]
  have hb' : b ∉ [p, r, a] := by simp [Ne.symm hpb, Ne.symm hrb, Ne.symm hab]
  unfold bindBoundary
  rw [List.filterMap_cons_some ha, List.filterMap_cons_some hb]
  simp [appendNew, ha', hb']

end RuleDraft

/-! ## 3. Clauses that are said -/

/-- **A clause is said**, and `c` is the cell that is made of it. -/
structure Tells (s : Store) (root : Cell) (entries : List (Clause × Cell)) (draft : RuleDraft)
    (clause : Clause) (c : Cell) : Prop where
  drafted : Drafted s root (entries ++ [(clause, c)]) (draft.record c.id clause)
  id_eq : c.id = s.nextId (entries.length + 1)
  apply : (draft.add clause).apply (.ofStore (draftStore s root entries)) =
    (.ok (c.id, draft.record c.id clause),
      .ofStore (draftStore s root (entries ++ [(clause, c)])))

/-- The draft that a rule starts with. -/
def RuleDraft.empty (rule : CellId) : RuleDraft := ⟨rule, [], [], [], [], ∅⟩

theorem apply_start (s : Store) (name : String) :
    (RuleDraft.start name).apply (.ofStore s) =
      (.ok (.empty (s.nextId 0)), .ofStore (s.push (.point (s.nextId 0) name))) := by
  have hmake : Cell.make s.lookup (s.nextId 0) name [] .full =
      .ok (.point (s.nextId 0) name) := rfl
  exact Edit.apply_bind_ok (Space.apply_createChecked_ofStore hmake)

/-- **A rule is always started.** -/
theorem start_ok (s : Store) (name : String) :
    ∃ root, Drafted s root [] (.empty root.id) ∧ root.id = s.nextId 0 ∧
      (RuleDraft.start name).apply (.ofStore s) =
        (.ok (.empty root.id), .ofStore (draftStore s root [])) := by
  have hstart := apply_start s name
  obtain ⟨root, hdrafted, hsp⟩ := drafted_start hstart
  have hid : root.id = s.nextId 0 := hdrafted.lines.id_eq (k := 0) rfl
  exact ⟨root, hid ▸ hdrafted, hid, by rw [hstart, hsp, hid]⟩

/-- The rule cell carries the name of the rule. -/
theorem start_label {s : Store} {name : String} {root : Cell} {draft : RuleDraft}
    (hid : root.id = s.nextId 0)
    (hstart : (RuleDraft.start name).apply (.ofStore s) =
      (.ok draft, .ofStore (draftStore s root []))) : root.label = name := by
  have hsame : s.push root = s.push (.point (s.nextId 0) name) :=
    congrArg (fun run => run.2.top) (hstart.symm.trans (apply_start s name))
  have hroot : (s.push root).find? root.id = some root := Store.find?_push_new hid
  have hpoint := Store.find?_push_new (s := s) (c := .point (s.nextId 0) name) rfl
  rw [hsame, hid] at hroot
  rw [Option.some.inj (hroot.symm.trans hpoint)]
  rfl

/-- A cell of a clause that lies over two points of clauses. -/
structure Spans (entries : List (Clause × Cell)) (a x y : Cell) : Prop where
  mem : a ∈ entries.map Prod.snd
  dimension : a.dimension = 1
  boundary : a.boundary = [x.id, y.id]
  start : x ∈ entries.map Prod.snd ∧ x.dimension = 0
  stop : y ∈ entries.map Prod.snd ∧ y.dimension = 0

theorem Spans.mono {entries entries' : List (Clause × Cell)} {a x y : Cell}
    (h : Spans entries a x y) (hpre : entries <+: entries') : Spans entries' a x y where
  mem := List.map_subset _ hpre.subset h.mem
  dimension := h.dimension
  boundary := h.boundary
  start := ⟨List.map_subset _ hpre.subset h.start.1, h.start.2⟩
  stop := ⟨List.map_subset _ hpre.subset h.stop.1, h.stop.2⟩

theorem Tells.apply_sayAll {s : Store} {root c : Cell} {entries : List (Clause × Cell)}
    {draft draft' : RuleDraft} {clause : Clause} {clauses : List Clause} {ids : List CellId}
    {sp : Space} (h : Tells s root entries draft clause c)
    (hrest : (sayAll clauses (draft.record c.id clause)).apply
      (.ofStore (draftStore s root (entries ++ [(clause, c)]))) = (.ok (ids, draft'), sp)) :
    (sayAll (clause :: clauses) draft).apply (.ofStore (draftStore s root entries)) =
      (.ok (c.id :: ids, draft'), sp) := by
  rw [sayAll_cons, Edit.apply_bind_ok h.apply, Edit.apply_bind_ok hrest]
  rfl

namespace Drafted

open Edit

variable {s : Store} {root c : Cell} {entries : List (Clause × Cell)} {draft : RuleDraft}
variable {clause : Clause} {boundary : List CellId} {p r x y x' y' a b : Cell}

section Known

variable (h : Drafted s root entries draft)
include h

theorem find?_cell (hc : c ∈ entries.map Prod.snd) :
    (draftStore s root entries).find? c.id = some c :=
  h.lines.find?_mem (List.mem_cons_of_mem _ hc)

theorem isPoint (hc : c ∈ entries.map Prod.snd) (hzero : c.dimension = 0) :
    (draftStore s root entries).lookup.IsPoint c.id := ⟨c, h.find?_cell hc, hzero⟩

theorem arc (ha : Spans entries a x y) :
    (draftStore s root entries).lookup.Arc a.id x.id y.id :=
  ⟨⟨a, h.find?_cell ha.mem, ha.dimension, ha.boundary⟩, h.isPoint ha.start.1 ha.start.2,
    h.isPoint ha.stop.1 ha.stop.2⟩

theorem sound (hs : s.Consistent) : (draftStore s root entries).lookup.Sound :=
  (h.lines.consistent hs).sound

/-- A clause whose boundary makes a cell is said. -/
theorem tells
    (hboundary : draft.boundaryIn (.ofStore (draftStore s root entries)) clause = .ok boundary)
    (hmake : Cell.make (draftStore s root entries).lookup ((draftStore s root entries).nextId 0)
      clause.label boundary .full = .ok c) : Tells s root entries draft clause c := by
  have hid : c.id = s.nextId (entries.length + 1) := by
    rw [(make_fields hmake).1]
    unfold draftStore
    rw [Store.nextId_pushAll, List.length_cons, List.length_map]
  refine ⟨h.add hboundary hmake, hid, ?_⟩
  rw [draftStore_snoc]
  have hmake' : Cell.make (Space.ofStore (draftStore s root entries)).lookup
      ((draftStore s root entries).nextId 0) clause.label boundary .full = .ok c := by
    rwa [Space.lookup_ofStore]
  exact RuleDraft.apply_add_eq_ok.mpr ⟨boundary, c, hboundary, hmake', rfl, rfl, rfl⟩

/-- **A point is always said.** -/
theorem tells_point (clause : Clause)
    (hboundary : draft.boundaryIn (.ofStore (draftStore s root entries)) clause = .ok []) :
    ∃ c, Tells s root entries draft clause c ∧ c.dimension = 0 :=
  ⟨_, h.tells hboundary rfl, rfl⟩

variable (hs : s.Consistent)
include hs

theorem boundary_of_point (hc : c ∈ entries.map Prod.snd) (hzero : c.dimension = 0) :
    c.boundary = [] := ((h.sound hs).point_iff _ _ (h.find?_cell hc)).mp hzero

/-- **So is an arc.** -/
theorem tells_arc (clause : Clause) (hx : x ∈ entries.map Prod.snd) (hx0 : x.dimension = 0)
    (hy : y ∈ entries.map Prod.snd) (hy0 : y.dimension = 0)
    (hboundary : draft.boundaryIn (.ofStore (draftStore s root entries)) clause =
      .ok [x.id, y.id]) :
    ∃ c, Tells s root entries draft clause c ∧ Spans (entries ++ [(clause, c)]) c x y := by
  obtain ⟨c, hmake, hone⟩ :=
    make_edge _ clause.label (h.sound hs) (h.isPoint hx hx0) (h.isPoint hy hy0)
  obtain ⟨_, _, hboundary', _⟩ := make_fields hmake
  have hmem : ∀ z ∈ entries.map Prod.snd, z ∈ (entries ++ [(clause, c)]).map Prod.snd :=
    fun z hz => List.map_subset _ (List.subset_append_left _ _) hz
  exact ⟨c, h.tells hboundary hmake, by simp, hone, hboundary', ⟨hmem x hx, hx0⟩, hmem y hy, hy0⟩

/-- **So is the bind of a point.** -/
theorem tells_bind_point (hp : p ∈ entries.map Prod.snd) (hp0 : p.dimension = 0)
    (hr : r ∈ entries.map Prod.snd) (hr0 : r.dimension = 0) :
    ∃ c, Tells s root entries draft (.bind p.id r.id) c ∧
      Spans (entries ++ [(.bind p.id r.id, c)]) c p r := by
  refine h.tells_arc hs _ hp hp0 hr hr0 ?_
  rw [RuleDraft.boundaryIn_bind_ok ((Store.find?_ofStore _ _).trans (h.find?_cell hp)),
    h.boundary_of_point hs hp hp0]
  rfl

/-- **And the bind of an arc whose ends are bound.** -/
theorem tells_bind_arc (hp : Spans entries p x y) (hr : Spans entries r x' y')
    (ha : Spans entries a x x') (hb : Spans entries b y y')
    (hax : draft.binds[x.id]? = some a.id) (hby : draft.binds[y.id]? = some b.id)
    (hnodup : [p.id, r.id, a.id, b.id].Nodup) :
    ∃ c, Tells s root entries draft (.bind p.id r.id) c ∧ c.dimension = 2 := by
  have hsound := h.sound hs
  have hboundary : draft.boundaryIn (.ofStore (draftStore s root entries)) (.bind p.id r.id) =
      .ok [p.id, r.id, a.id, b.id] := by
    rw [RuleDraft.boundaryIn_bind_ok ((Store.find?_ofStore _ _).trans (h.find?_cell hp.mem)),
      hp.boundary, RuleDraft.bindBoundary_arc hax hby hnodup]
  obtain ⟨c, hmake⟩ := (make_isOk_iff hsound (List.cons_ne_nil _ _)).mpr
    (Lookup.lawful_square hsound (h.arc hp) (h.arc hr) (h.arc ha) (h.arc hb) hnodup)
  obtain ⟨_, _, hboundary', _⟩ := make_fields hmake
  have hone : ∀ {d u v}, Spans entries d u v → ∀ f,
      (draftStore s root entries).lookup.find d.id = some f → f.dimension = 1 := by
    intro d u v hd f hf
    cases (h.find?_cell hd.mem).symm.trans hf
    exact hd.dimension
  have hall : ∀ z ∈ [p.id, r.id, a.id, b.id], ∀ f,
      (draftStore s root entries).lookup.find z = some f → f.dimension = 1 := by
    simp only [List.forall_mem_cons]
    exact ⟨hone hp, hone hr, hone ha, hone hb, by simp⟩
  obtain ⟨z, hz, f, hf, hdim⟩ := (make_records hsound hmake).attained
    (hboundary' ▸ List.cons_ne_nil _ _)
  exact ⟨c, h.tells hboundary hmake, by rw [hdim, hall z (hboundary' ▸ hz) f hf]⟩

end Known

end Drafted

/-! ## 4. Listings that are made -/

namespace RuleDraft

open Edit

variable {s : Store} {rule : CellId} {points cells : List CellId} {label : String}

/-- **Scaffolds are made** to points. -/
theorem scaffold_ok (hs : s.Consistent) (label : String) (hrule : s.lookup.IsPoint rule)
    (hpoints : ∀ p ∈ points, s.lookup.IsPoint p) :
    ∃ ids sp, (scaffold rule label points).apply (.ofStore s) = (.ok ids, sp) := by
  unfold scaffold
  induction points generalizing s with
  | nil => exact ⟨[], _, rfl⟩
  | cons p points ih =>
    obtain ⟨c, hmake, _⟩ :=
      make_edge (s.nextId 0) label hs.sound hrule (hpoints p List.mem_cons_self)
    have hline : Lines [] s [c] := Lines.nil.push hmake
    have hkept : ∀ z, s.lookup.IsPoint z → (s.push c).lookup.IsPoint z := by
      rintro z ⟨d, hd, hzero⟩
      exact ⟨d, hline.find?_kept hd, hzero⟩
    have hconsistent : (s.push c).Consistent := hline.consistent hs
    obtain ⟨ids, sp, hrest⟩ := ih hconsistent (hkept rule hrule)
      fun z hz => hkept z (hpoints z (List.mem_cons_of_mem _ hz))
    have hcreate : (Space.create label [rule, p]).apply (.ofStore s) =
        (.ok c.id, .ofStore (s.push c)) := Space.apply_createChecked_ofStore hmake
    refine ⟨c.id :: ids, sp, ?_⟩
    rw [List.mapM_cons, apply_bind_ok hcreate, apply_bind_ok hrest]
    rfl

/-- Scaffolds with other cells above their points hang together around the rule cell. -/
theorem lawful_listing {cs : List Cell} (hs : s.Consistent) (hlines : Lines [] s cs)
    (hties : List.Forall₂ (fun point c => c.label = label ∧ c.boundary = [rule, point]) points cs)
    (hrule : s.lookup.IsPoint rule) (hpoints : ∀ p ∈ points, s.lookup.IsPoint p)
    (hne : points ≠ []) (hcells : ∀ x ∈ cells, ∃ p ∈ points, s.lookup.PointBelow x p) :
    (s.pushAll cs).lookup.Lawful (cs.map Cell.id ++ cells) .connectivity := by
  have hkept : ∀ x c, s.lookup.find x = some c → (s.pushAll cs).lookup.find x = some c :=
    fun x c hc => hlines.find?_kept hc
  have hpoint : ∀ z, s.lookup.IsPoint z → (s.pushAll cs).lookup.IsPoint z := by
    rintro z ⟨c, hc, hzero⟩
    exact ⟨c, hkept z c hc, hzero⟩
  -- every scaffold lies above the rule cell and a point, and every point has one
  have hbelow : ∀ {p c}, p ∈ points → c ∈ cs → c.label = label ∧ c.boundary = [rule, p] →
      (s.pushAll cs).lookup.PointBelow c.id rule ∧ (s.pushAll cs).lookup.PointBelow c.id p := by
    intro p c hp hc hboundary
    have hfind : (s.pushAll cs).lookup.find c.id = some c := hlines.find?_mem hc
    exact ⟨Lookup.pointBelow_of_mem hfind (by simp [hboundary.2]) (hpoint rule hrule),
      Lookup.pointBelow_of_mem hfind (by simp [hboundary.2]) (hpoint p (hpoints p hp))⟩
  have hhub : ∀ c ∈ cs, (s.pushAll cs).lookup.PointBelow c.id rule := by
    intro c hc
    obtain ⟨p, hp, hboundary⟩ := Outcome.forall₂_mem_right hties hc
    exact (hbelow hp hc hboundary).1
  have hover : ∀ x ∈ cells, ∃ c ∈ cs, ∃ p, (s.pushAll cs).lookup.PointBelow c.id p ∧
      (s.pushAll cs).lookup.PointBelow x p := by
    intro x hx
    obtain ⟨p, hp, hxp⟩ := hcells x hx
    obtain ⟨c, hc, hboundary⟩ := Outcome.forall₂_mem hties hp
    exact ⟨c, hc, p, (hbelow hp hc hboundary).2, hxp.mono hkept⟩
  obtain ⟨p, points, rfl⟩ := List.exists_cons_of_ne_nil hne
  obtain ⟨first, rest, hfirst, _, rfl⟩ := List.forall₂_cons_left_iff.mp hties
  have hfind : (s.pushAll (first :: rest)).lookup.find first.id = some first :=
    hlines.find?_mem List.mem_cons_self
  refine Lookup.lawful_connectivity.mpr ⟨fun x hx => ?_, Or.inr ⟨⟨first.id, by simp, ?_⟩, ?_⟩⟩
  · rcases List.mem_append.mp hx with hx | hx
    · obtain ⟨c, hc, rfl⟩ := List.mem_map.mp hx
      exact ⟨c, hlines.find?_mem hc⟩
    · obtain ⟨_, _, _, _, hbelow⟩ := hover x hx
      exact Lookup.known_of_pointBelow hbelow
  · refine ⟨first, hfind, Nat.one_le_iff_ne_zero.mpr fun hzero => ?_⟩
    have hnil := ((hlines.consistent hs).sound.point_iff _ _ hfind).mp hzero
    rw [hfirst.2] at hnil
    cases hnil
  · refine Lookup.hangsTogether_of_hub ⟨first.id, rfl, hhub first List.mem_cons_self⟩ ?_
    intro x hx
    rcases List.mem_append.mp hx with hx | hx
    · obtain ⟨c, hc, rfl⟩ := List.mem_map.mp hx
      exact ⟨c.id, List.mem_append_left _ (List.mem_map_of_mem hc), hhub c hc, rule, hhub c hc,
        hhub c hc⟩
    · obtain ⟨c, hc, p, hcp, hxp⟩ := hover x hx
      exact ⟨c.id, List.mem_append_left _ (List.mem_map_of_mem hc), hhub c hc, p, hcp, hxp⟩

/-- **A listing is made** of cells that lie above its points. -/
theorem list_ok (hs : s.Consistent) {side : Side} (hrule : s.lookup.IsPoint rule)
    (hpoints : ∀ p ∈ points, s.lookup.IsPoint p) (hne : points ≠ [])
    (hcells : ∀ x ∈ cells, ∃ p ∈ points, s.lookup.PointBelow x p) :
    ∃ id sp, (list rule side.scaffoldLabel side.listingLabel points cells).apply (.ofStore s) =
      (.ok id, sp) := by
  obtain ⟨ids, sp, hscaffold⟩ := scaffold_ok hs side.scaffoldLabel hrule hpoints
  obtain ⟨cs, hlines, rfl, rfl, hties⟩ := apply_scaffold_eq_ok hscaffold
  have hlawful := lawful_listing hs hlines hties hrule hpoints hne hcells
  have hsome : cs.map Cell.id ++ cells ≠ [] := by
    have hlength := hties.length_eq
    intro hnil
    have hcs : cs = [] := List.map_eq_nil_iff.mp (List.append_eq_nil_iff.mp hnil).1
    rw [hcs, List.length_nil] at hlength
    exact hne (List.length_eq_zero_iff.mp hlength)
  have hmake : ∃ c, Cell.make (s.pushAll cs).lookup ((s.pushAll cs).nextId 0) side.listingLabel
      (cs.map Cell.id ++ cells) .connectivity = .ok c :=
    (make_isOk_iff (hlines.consistent hs).sound hsome).mpr hlawful
  obtain ⟨c, hmake⟩ := hmake
  exact ⟨_, _, (apply_bind_ok hscaffold).trans (Space.apply_createChecked_ofStore hmake)⟩

end RuleDraft

/-! ## 5. Rules that are finished -/

/-- Every cell that is listed is a point, or has a point in its boundary. -/
def RuleDraft.Flat (draft : RuleDraft) (said : List (Clause × CellId)) : Prop :=
  ∀ side, ∀ e ∈ said, e.1.isListedOn side = true →
    e.2 ∈ draft.pointsOf side ∨ ∃ b ∈ e.1.boundary, b ∈ draft.pointsOf side

namespace Drafted

open Edit

variable {s : Store} {root : Cell} {entries : List (Clause × Cell)} {draft : RuleDraft}

theorem isPoint_root (hs : s.Consistent) (h : Drafted s root entries draft) :
    (draftStore s root entries).lookup.IsPoint draft.rule := by
  rw [h.rule]
  have hroot : (draftStore s root entries).lookup.find root.id = some root :=
    h.lines.find?_mem List.mem_cons_self
  exact ⟨root, hroot, ((h.sound hs).point_iff _ _ hroot).mpr h.root_boundary⟩

/-- The points of a draft are points. -/
theorem isPoint_of_pointsOf (hs : s.Consistent) (h : Drafted s root entries draft) (side : Side)
    {p : CellId} (hp : p ∈ draft.pointsOf side) :
    (draftStore s root entries).lookup.IsPoint p := by
  rw [h.points] at hp
  obtain ⟨e, he, hside, rfl⟩ := exists_entry hp
  have hfind : (draftStore s root entries).lookup.find e.2.id = some e.2 :=
    h.find?_cell (List.mem_map_of_mem he)
  have hnil : e.2.boundary = [] := by
    rw [h.said.boundary e he (by simp [Clause.side?_of_isPointOf hside])]
    exact Clause.boundary_of_isPointOf hside
  exact ⟨e.2, hfind, ((h.sound hs).point_iff _ _ hfind).mpr hnil⟩

/-- What a draft knows is known after any listings. -/
theorem find?_tied (h : Drafted s root entries draft) {listings : List Listing}
    (htied : Tied s root entries listings) {x : CellId} {c : Cell}
    (hc : (draftStore s root entries).find? x = some c) :
    (ruleStore s root entries listings).find? x = some c := by
  rcases h.lines.find_cases hc with hold | ⟨hmem, rfl⟩
  · exact htied.lines.find?_kept hold
  · exact htied.lines.find?_mem (List.mem_append_left _ hmem)

/-- **A rule whose listed cells lie above its points is finished.** -/
theorem finish_ok (hs : s.Consistent) (h : Drafted s root entries draft)
    (hsome : draft.patternPoints ≠ [])
    (hover : ∀ side, ∀ x ∈ draft.listedOn side, ∃ p ∈ draft.pointsOf side,
      (draftStore s root entries).lookup.PointBelow x p) :
    ∃ listings, Written s root entries listings ∧
      draft.finish.apply (.ofStore (draftStore s root entries)) =
        (.ok root.id, .ofStore (ruleStore s root entries listings)) := by
  have hlist : ∀ side listings, Tied s root entries listings → draft.pointsOf side ≠ [] →
      ∃ id sp, (RuleDraft.list draft.rule side.scaffoldLabel side.listingLabel
        (draft.pointsOf side) (draft.listedOn side)).apply
          (.ofStore (ruleStore s root entries listings)) = (.ok id, sp) := by
    intro side listings htied hne
    have hpoint : ∀ z, (draftStore s root entries).lookup.IsPoint z →
        (ruleStore s root entries listings).lookup.IsPoint z := by
      rintro z ⟨c, hc, hzero⟩
      exact ⟨c, h.find?_tied htied hc, hzero⟩
    refine RuleDraft.list_ok (htied.lines.consistent hs) (hpoint _ (h.isPoint_root hs))
      (fun p hp => hpoint p (h.isPoint_of_pointsOf hs side hp)) hne fun x hx => ?_
    obtain ⟨p, hp, hbelow⟩ := hover side x hx
    exact ⟨p, hp, hbelow.mono fun x c hc => h.find?_tied htied hc⟩
  have hstore : draftStore s root entries = ruleStore s root entries [] := by
    rw [draftStore, ruleStore, ruleCells_nil]
  obtain ⟨_, mid, hpattern⟩ := hlist .pattern [] h.tied hsome
  obtain ⟨l, _, htied, rfl⟩ := h.tied.list h hpattern
  have hfinish : ∃ sp, draft.finish.apply (.ofStore (draftStore s root entries)) =
      (.ok draft.rule, sp) := by
    rw [RuleDraft.finish_eq hsome, hstore, apply_bind_ok hpattern]
    by_cases hproduct : draft.productPoints = []
    · rw [if_pos hproduct]
      exact ⟨_, rfl⟩
    · obtain ⟨_, mid, hproduct'⟩ := hlist .product _ htied hproduct
      rw [if_neg hproduct, apply_bind_ok hproduct']
      exact ⟨_, rfl⟩
  obtain ⟨sp, hfinish⟩ := hfinish
  obtain ⟨listings, hwritten, hrule, rfl⟩ := h.finish hfinish
  exact ⟨listings, hwritten, hrule ▸ hfinish⟩

/-- **A rule of points and of cells over them is finished.** -/
theorem finish_flat (hs : s.Consistent) (h : Drafted s root entries draft)
    (hsome : draft.patternPoints ≠ []) (hflat : draft.Flat (named entries)) :
    ∃ listings, Written s root entries listings ∧
      draft.finish.apply (.ofStore (draftStore s root entries)) =
        (.ok root.id, .ofStore (ruleStore s root entries listings)) := by
  refine h.finish_ok hs hsome fun side x hx => ?_
  rw [h.listed] at hx
  obtain ⟨e, he, hlisted, rfl⟩ := exists_entry hx
  rcases hflat side _ (mem_named.mpr ⟨e.2, he, rfl⟩) hlisted with hp | ⟨b, hb, hp⟩
  · exact ⟨e.2.id, hp, .refl, h.isPoint_of_pointsOf hs side hp⟩
  · have hboundary := h.said.boundary e he (by simp [Clause.side?_of_isListedOn hlisted])
    exact ⟨b, hp, Lookup.pointBelow_of_mem (h.find?_cell (List.mem_map_of_mem he))
      (hboundary ▸ hb) (h.isPoint_of_pointsOf hs side hp)⟩

end Drafted

end CellComplex
