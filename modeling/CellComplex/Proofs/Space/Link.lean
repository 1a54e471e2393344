import CellComplex.Proofs.Evidence.Walk
import CellComplex.Proofs.Space.Failing

/-!
# Links are not made twice

`link` looks for an edge before it makes one. It finds what is in sight because cells are in their
layers, whatever else happened to the stores; and where only points and links were made, no edge is
there twice.

* `Store.Grown`: a store that operations made, each over whatever stores; its cells are filed;
* `Space.IsLink`: what `link` asks for; **`findLink?_eq_none_iff`**: it is found if it is in sight;
* **`apply_link_eq_ok`**: what `link` does; **`link_settles`**: asking again changes nothing;
* `Space.NoDuplicates`: no two live edges share a label and an ordered pair of ends;
* `Operation.Links`, `Linking`: making points and links, deleting and indexing, and what that does
  to the store on top;
* `Space.Linked`, `Space.Tidy`: spaces whose stores were filled so, and the invariant;
* **`link_without_duplicates`**: all of it together.
-/

namespace CellComplex

/-! ## 1. Stores that grew over others -/

/-- **A store that operations make of an empty one**, each over whatever stores. -/
inductive Store.Grown : Store → Prop where
  | empty (id : Nat) : Grown (.empty id)
  | step {sp : Space} (op : Operation) (h : sp.top.Grown) : Grown (op.edit.apply sp).2.top

/-- With nothing below, these are the reachable stores. -/
theorem Store.Reachable.grown {s : Store} (h : s.Reachable) : s.Grown := by
  induction h with
  | empty id => exact .empty id
  | step op _ ih => exact Grown.step op (show (Space.ofStore _).top.Grown from ih)

/-- Every operation leaves the cells in their places and their layers. -/
theorem Operation.filed {sp : Space} (op : Operation) (h : sp.top.Filed) :
    (op.edit.apply sp).2.top.Filed := by
  by_cases hop : op = .buildIndex
  · subst hop
    exact ⟨h.slot, h.mem_layer⟩
  · exact (Operation.stepwise hop sp).2.grows.filed h

theorem Store.Grown.filed {s : Store} (h : s.Grown) : s.Filed := by
  induction h with
  | empty id => exact filed_empty id
  | step op _ ih => exact op.filed ih

namespace Space

open Edit

variable {sp sp' : Space} {a b e x : CellId} {label : String} {oriented : Bool} {c d : Cell}

/-! ## 2. What is in sight -/

/-- **A cell in sight is in its layer.** -/
theorem mem_layer_of_find? (hfiled : ∀ s ∈ sp.stores, s.Filed) (h : sp.find? x = some c) :
    x ∈ sp.layer c.dimension := by
  obtain ⟨s, hs, hc⟩ := exists_store h
  exact mem_layer.mpr ⟨s, hs, ((hfiled s hs).mem_layer _ x).mpr ⟨c, hc, rfl⟩⟩

/-! ## 3. Finding a link -/

/-- **A live edge with a label from `a` to `b`**, or from `b` to `a` where orientation does not
count. -/
def IsLink (sp : Space) (a b : CellId) (label : String) (oriented : Bool) (x : CellId) : Prop :=
  ∃ c, sp.find? x = some c ∧ c.isEdge = true ∧ c.label = label ∧
    (c.boundary = [a, b] ∨ (oriented = false ∧ c.boundary = [b, a]))

theorem joins_iff : joins c a b oriented = true ↔
    c.boundary = [a, b] ∨ (oriented = false ∧ c.boundary = [b, a]) := by
  unfold joins
  cases oriented <;> simp

/-- The test of the search is passed by links. -/
theorem satisfies_isLink :
    sp.satisfies x (fun c => c.isEdge && c.label == label && joins c a b oriented) = true ↔
      sp.IsLink a b label oriented x := by
  unfold satisfies IsLink
  rw [Option.any_eq_true]
  refine exists_congr fun c => and_congr_right fun _ => ?_
  rw [Bool.and_eq_true, Bool.and_eq_true, beq_iff_eq, joins_iff, and_assoc]

theorem isLink_of_findLink? (h : sp.findLink? a b label oriented = some e) :
    sp.IsLink a b label oriented e := by
  unfold findLink? at h
  have htest := List.find?_some h
  exact satisfies_isLink.mp htest

/-- **The search finds nothing exactly if no link is in sight.** -/
theorem findLink?_eq_none_iff (hfiled : ∀ s ∈ sp.stores, s.Filed) :
    sp.findLink? a b label oriented = none ↔ ∀ x, ¬ sp.IsLink a b label oriented x := by
  unfold findLink?
  rw [List.find?_eq_none]
  simp only [satisfies_isLink]
  refine ⟨fun h x hx => ?_, fun h x _ => h x⟩
  obtain ⟨c, hc, hedge, _⟩ := id hx
  have hlayer : x ∈ sp.layer 1 := (isEdge_iff.mp hedge).1 ▸ mem_layer_of_find? hfiled hc
  exact h x hlayer hx

/-- Without orientation both orders of the ends ask for the same. -/
theorem findLink?_swap : sp.findLink? b a label false = sp.findLink? a b label false := by
  have hjoins : ∀ c : Cell, joins c b a false = joins c a b false := by
    intro c
    unfold joins
    simp only [Bool.not_false, Bool.true_and]
    exact Bool.or_comm _ _
  unfold findLink?
  simp only [hjoins]

/-! ## 4. What linking does -/

theorem requirePoint_eq_ok {u : Unit} : requirePoint c = .ok u ↔ c.dimension = 0 := by
  unfold requirePoint
  split
  · next h => exact iff_of_true rfl h
  · next h => exact iff_of_false (fun h' => by cases h') h

/-- What `link` looks at first: the two points, and the edge that is there. -/
theorem look_link_eq_ok {found : Option CellId} :
    (do
      requirePoint (← sp.resolve a)
      requirePoint (← sp.resolve b)
      return sp.findLink? a b label oriented) = .ok found ↔
      sp.lookup.IsPoint a ∧ sp.lookup.IsPoint b ∧ sp.findLink? a b label oriented = found := by
  simp only [Outcome.bind_eq_ok, resolve_eq_ok, requirePoint_eq_ok, pure, Except.pure,
    Except.ok.injEq]
  constructor
  · intro h
    obtain ⟨c, hc, _, hzero, d, hd, _, hzero', hfound⟩ := h
    exact ⟨⟨c, hc, hzero⟩, ⟨d, hd, hzero'⟩, hfound⟩
  · intro h
    obtain ⟨⟨c, hc, hzero⟩, ⟨d, hd, hzero'⟩, hfound⟩ := h
    exact ⟨c, hc, (), hzero, d, hd, (), hzero', hfound⟩

/-- **`link` yields the edge that is found, or else makes one**; both ends are points. -/
theorem apply_link_eq_ok :
    (link a b label oriented).apply sp = (.ok e, sp') ↔
      sp.lookup.IsPoint a ∧ sp.lookup.IsPoint b ∧
        ((sp.findLink? a b label oriented = some e ∧ sp' = sp) ∨
          (sp.findLink? a b label oriented = none ∧
            ∃ c, Cell.make sp.lookup (sp.top.nextId 0) label [a, b] .full = .ok c ∧ c.id = e ∧
              sp' = { sp with top := sp.top.push c })) := by
  unfold link
  rw [apply_bind_eq_ok]
  simp only [apply_look_eq_ok, look_link_eq_ok]
  constructor
  · intro h
    obtain ⟨found, _, ⟨⟨ha, hb, hfound⟩, rfl⟩, hrest⟩ := h
    refine ⟨ha, hb, ?_⟩
    cases found with
    | some edge =>
      obtain ⟨rfl, rfl⟩ := apply_pure_eq_ok.mp hrest
      exact Or.inl ⟨hfound, rfl⟩
    | none => exact Or.inr ⟨hfound, apply_createChecked_eq_ok hrest⟩
  · intro h
    obtain ⟨ha, hb, ⟨hfound, rfl⟩ | ⟨hnone, c, hmake, rfl, rfl⟩⟩ := h
    · exact ⟨some e, sp', ⟨⟨ha, hb, hfound⟩, rfl⟩, rfl⟩
    · exact ⟨none, sp, ⟨⟨ha, hb, hnone⟩, rfl⟩, apply_createChecked_ok hmake⟩

/-- Where the store on top has an id of its own, no cell in sight has the name of the next. -/
theorem adds_push {boundary : List CellId} {check : BoundaryCheck}
    (hown : ∀ s ∈ sp.below, s.id ≠ sp.top.id)
    (hmake : Cell.make sp.lookup (sp.top.nextId 0) label boundary check = .ok c) :
    Lookup.Adds sp.lookup (Space.mk (sp.top.push c) sp.below).lookup c where
  fresh := by
    rw [(make_fields hmake).1]
    exact find?_nextId hown 0
  new := by
    show (Space.mk (sp.top.push c) sp.below).find? c.id = some c
    rw [find?_push (make_fields hmake).1, if_pos rfl]
  old x hne := by
    show (Space.mk (sp.top.push c) sp.below).find? x = sp.find? x
    rw [find?_push (make_fields hmake).1, if_neg hne]

/-- A cell that was made over two points is an edge. -/
theorem isEdge_make {look : Lookup} {id : CellId} (ha : look.IsPoint a) (hb : look.IsPoint b)
    (hmake : Cell.make look id label [a, b] .full = .ok c) : c.isEdge = true := by
  have hpoints : ∀ x ∈ [a, b], look.IsPoint x := by
    simp only [List.forall_mem_cons]
    exact ⟨ha, hb, by simp⟩
  obtain ⟨_, _, hboundary, hdeleted⟩ := make_fields hmake
  rw [isEdge_iff, hboundary, Store.isLive_iff]
  exact ⟨make_dimension_points (List.cons_ne_nil _ _) hpoints hmake, rfl, hdeleted⟩

/-- Where no link was found, the edge that was made is found from now on. -/
theorem findLink?_push (hmake : Cell.make sp.lookup (sp.top.nextId 0) label [a, b] .full = .ok c)
    (hedge : c.isEdge = true) (hnone : sp.findLink? a b label oriented = none) :
    (Space.mk (sp.top.push c) sp.below).findLink? a b label oriented = some c.id := by
  obtain ⟨hid, hlabel, hboundary, _⟩ := make_fields hmake
  have hlink : (Space.mk (sp.top.push c) sp.below).IsLink a b label oriented c.id := by
    refine ⟨c, ?_, hedge, hlabel, Or.inl hboundary⟩
    rw [find?_push hid, if_pos rfl]
  have hlayer : (Space.mk (sp.top.push c) sp.below).layer 1 = sp.layer 1 ++ [c.id] := by
    rw [layer_push, if_pos (isEdge_iff.mp hedge).1]
  unfold findLink? at hnone ⊢
  rw [List.find?_eq_none] at hnone
  rw [hlayer, List.find?_append]
  cases hold : (sp.layer 1).find? fun id => (Space.mk (sp.top.push c) sp.below).satisfies id
      fun c => c.isEdge && c.label == label && joins c a b oriented with
  | none =>
    rw [Option.none_or, List.find?_cons_of_pos]
    exact satisfies_isLink.mpr hlink
  | some x =>
    -- the only cell in sight that was not in sight before is the new edge
    have htest := List.find?_some hold
    obtain ⟨d, hd, hrest⟩ := satisfies_isLink.mp htest
    rw [find?_push hid] at hd
    split at hd
    · next hx => exact congrArg some hx
    · exact absurd (satisfies_isLink.mpr ⟨d, hd, hrest⟩) (hnone x (List.mem_of_find?_eq_some hold))

/-- What `link` yielded is found from then on. -/
theorem findLink?_of_apply_link (hown : ∀ s ∈ sp.below, s.id ≠ sp.top.id)
    (h : (link a b label oriented).apply sp = (.ok e, sp')) :
    sp'.lookup.IsPoint a ∧ sp'.lookup.IsPoint b ∧ sp'.findLink? a b label oriented = some e := by
  obtain ⟨ha, hb, ⟨hfound, rfl⟩ | ⟨hnone, c, hmake, rfl, rfl⟩⟩ := apply_link_eq_ok.mp h
  · exact ⟨ha, hb, hfound⟩
  · have hadds := adds_push hown hmake
    exact ⟨hadds.isPoint ha, hadds.isPoint hb,
      findLink?_push hmake (isEdge_make ha hb hmake) hnone⟩

/-- **What `link` yields is there, and asking again finds it**: a cell is made only where no such
link is in sight, and then it is one cell; the same request, and without orientation the request
with the ends exchanged, yields the same edge from then on and changes nothing. -/
theorem link_settles (hfiled : ∀ s ∈ sp.stores, s.Filed) (hown : ∀ s ∈ sp.below, s.id ≠ sp.top.id)
    (h : (link a b label oriented).apply sp = (.ok e, sp')) :
    sp'.IsLink a b label oriented e ∧
      (sp' = sp ∨ ∃ c, c.id = e ∧ sp' = { sp with top := sp.top.push c }) ∧
      ((∃ x, sp.IsLink a b label oriented x) → sp' = sp) ∧
      (link a b label oriented).apply sp' = (.ok e, sp') ∧
      (oriented = false → (link b a label oriented).apply sp' = (.ok e, sp')) := by
  obtain ⟨_, _, hdid⟩ := apply_link_eq_ok.mp h
  obtain ⟨ha', hb', hfound'⟩ := findLink?_of_apply_link hown h
  refine ⟨isLink_of_findLink? hfound', ?_, fun hlink => ?_,
    apply_link_eq_ok.mpr ⟨ha', hb', Or.inl ⟨hfound', rfl⟩⟩, fun hfree => ?_⟩
  · rcases hdid with ⟨_, hsame⟩ | ⟨_, c, _, hid, hmade⟩
    · exact Or.inl hsame
    · exact Or.inr ⟨c, hid, hmade⟩
  · obtain ⟨x, hx⟩ := hlink
    rcases hdid with ⟨_, hsame⟩ | ⟨hnone, _⟩
    · exact hsame
    · exact absurd hx ((findLink?_eq_none_iff hfiled).mp hnone x)
  · subst hfree
    rw [← findLink?_swap] at hfound'
    exact apply_link_eq_ok.mpr ⟨hb', ha', Or.inl ⟨hfound', rfl⟩⟩

/-! ## 5. Spaces without duplicates -/

/-- **No two live edges share a label and an ordered pair of ends.** -/
def NoDuplicates (sp : Space) : Prop :=
  ∀ x y c d, sp.find? x = some c → sp.find? y = some d → areDuplicates c d = true → x = y

/-- Where every live edge was there before, nothing is twice that was not. -/
theorem NoDuplicates.of_find (h : sp.NoDuplicates)
    (hold : ∀ x c, sp'.find? x = some c → c.isEdge = true → sp.find? x = some c) :
    sp'.NoDuplicates := by
  intro x y c d hc hd hdup
  obtain ⟨hedge, hedge', _⟩ := areDuplicates_iff.mp hdup
  exact h x y c d (hold x c hc hedge) (hold y d hd hedge') hdup

/-- A new cell that duplicates none is no duplicate. -/
theorem NoDuplicates.push (h : sp.NoDuplicates) (hid : c.id = sp.top.nextId 0)
    (hnew : ∀ x d, sp.find? x = some d → areDuplicates d c = false) :
    (Space.mk (sp.top.push c) sp.below).NoDuplicates := by
  intro x y d e hd he hdup
  rw [find?_push hid] at hd he
  have hsymm : areDuplicates e d = true := by
    obtain ⟨h₁, h₂, h₃, h₄⟩ := areDuplicates_iff.mp hdup
    exact areDuplicates_iff.mpr ⟨h₂, h₁, h₃.symm, h₄.symm⟩
  split at hd
  · next hx =>
    split at he
    · next hy => exact hx.trans hy.symm
    · cases hd
      exact absurd hsymm (by rw [hnew y e he]; exact Bool.false_ne_true)
  · split at he
    · cases he
      exact absurd hdup (by rw [hnew x d hd]; exact Bool.false_ne_true)
    · exact h x y d e hd he hdup

end Space

/-! ## 6. Making points and links -/

/-- **An operation that makes a point or a link, deletes, or builds the index.** -/
def Operation.Links : Operation → Prop
  | .create _ boundary => boundary = []
  | .link _ _ _ _ | .delete _ | .buildIndex => True
  | _ => False

/-- **What such an operation does to the store on top.** -/
inductive Linking (sp : Space) : Store → Prop where
  | same : Linking sp sp.top
  | index : Linking sp (sp.top.buildIndex sp.lookup)
  | delete {id : CellId} {c : Cell} (hc : sp.top.find? id = some c) (hlive : c.isLive = true) :
      Linking sp (sp.top.deleteAt id.index)
  | point {c : Cell} {label : String}
      (hmake : Cell.make sp.lookup (sp.top.nextId 0) label [] .full = .ok c) :
      Linking sp (sp.top.push c)
  /-- No edge was found between the points. -/
  | edge {c : Cell} {a b : CellId} {label : String} {oriented : Bool}
      (hmake : Cell.make sp.lookup (sp.top.nextId 0) label [a, b] .full = .ok c)
      (hnone : sp.findLink? a b label oriented = none) : Linking sp (sp.top.push c)

theorem Operation.Links.linking {op : Operation} (hop : op.Links) (sp : Space) :
    Linking sp (op.edit.apply sp).2.top := by
  cases op with
  | create label boundary =>
    obtain rfl : boundary = [] := hop
    show Linking sp ((discard (Space.create label [])).apply sp).2.top
    rw [Edit.apply_discard, Space.create, Space.apply_createChecked]
    cases hmake : Cell.make sp.lookup (sp.top.nextId 0) label [] .full with
    | error err => exact .same
    | ok c => exact .point hmake
  | link a b label oriented =>
    show Linking sp ((discard (Space.link a b label oriented)).apply sp).2.top
    rw [Edit.apply_discard]
    cases h : (Space.link a b label oriented).apply sp with
    | mk result sp' =>
      cases result with
      | error err =>
        rw [Space.leavesNoTrace_link err sp' h]
        exact .same
      | ok e =>
        obtain ⟨_, _, ⟨_, rfl⟩ | ⟨hnone, c, hmake, _, rfl⟩⟩ := Space.apply_link_eq_ok.mp h
        · exact .same
        · exact .edge hmake hnone
  | delete id =>
    show Linking sp ((Space.delete id).apply sp).2.top
    cases h : (Space.delete id).apply sp with
    | mk result sp' =>
      cases result with
      | error err =>
        rw [Edit.leavesNoTrace_decide err sp' h]
        exact .same
      | ok u =>
        obtain ⟨c, hc, ⟨hlive, rfl⟩ | ⟨_, rfl⟩⟩ := Space.apply_delete_eq_ok h
        · exact .delete hc hlive
        · exact .same
  | buildIndex => exact .index
  | createListing | linkAtom | unlinkAtom | setLabel | setEmbedding | attach | revision | choice
  | randomResolution | writeRule | transitiveRule | rewriteBy | rewrite => exact hop.elim

/-- A cell of the store had its form before, or its faces were in sight. -/
theorem Linking.find_cases {sp : Space} {t : Store} (h : Linking sp t) {x : CellId} {d : Cell}
    (hd : t.find? x = some d) :
    (∃ c, sp.top.find? x = some c ∧ d.form = c.form) ∨
      ∀ b ∈ d.boundary, ∃ f, sp.find? b = some f ∧ f.dimension < d.dimension := by
  cases h with
  | same | index => exact Or.inl ⟨d, hd, rfl⟩
  | delete hc hlive =>
    have hchange : Change sp.below sp.top _ := .delete hc hlive
    exact hchange.find_cases hd
  | point hmake => exact (Change.push hmake).find_cases hd
  | edge hmake hnone => exact (Change.push hmake).find_cases hd

theorem Linking.id_eq {sp : Space} {t : Store} (h : Linking sp t) : t.id = sp.top.id := by
  cases h <;> rfl

/-! ## 7. Spaces of points and links -/

namespace Space

/-- **A space whose stores were filled with points and links only.** Each store is filled alone, or
over the stores below it as they stay from then on. -/
inductive Linked : Space → Prop where
  | empty (id : Nat) : Linked (.ofStore (.empty id))
  | stack {sp : Space} (id : Nat) (hnew : ∀ s ∈ sp.stores, s.id ≠ id) (h : Linked sp) :
      Linked ⟨.empty id, sp.stores⟩
  | alone {sp : Space} {op : Operation} (hop : op.Links) (h : Linked sp) :
      Linked ⟨op.run sp.top, sp.below⟩
  | through {sp : Space} {op : Operation} (hop : op.Links) (h : Linked sp) :
      Linked (op.edit.apply sp).2

/-- **What filling keeps.** -/
structure Tidy (sp : Space) : Prop where
  filed : ∀ s ∈ sp.stores, s.Filed
  /-- The faces of cells are cells of the stores, ... -/
  listed : ∀ s ∈ sp.stores, ∀ x c, s.find? x = some c → ∀ b ∈ c.boundary,
    ∃ t ∈ sp.stores, b.store = t.id
  /-- ... and those of lower cells are not of the store on top. -/
  apart : ∀ s ∈ sp.below, ∀ x c, s.find? x = some c → ∀ b ∈ c.boundary, b.store ≠ sp.top.id
  noDuplicates : sp.NoDuplicates

variable {s t : Store} {lower below : List Store}

/-- A new link duplicates nothing, whether the stores below were looked at or not: an edge of a
store below does not run over cells of the store on top. -/
theorem Tidy.not_areDuplicates {a b : CellId} {label : String} {oriented : Bool} {c : Cell}
    (h : (Space.mk s lower).Tidy) (hbelow : below = lower ∨ below = [])
    (hmake : Cell.make (Space.mk s below).lookup (s.nextId 0) label [a, b] .full = .ok c)
    (hnone : (Space.mk s below).findLink? a b label oriented = none) {x : CellId} {d : Cell}
    (hd : (Space.mk s lower).find? x = some d) : areDuplicates d c = false := by
  obtain ⟨_, hlabel, hboundary, _⟩ := make_fields hmake
  have hfiled : ∀ t ∈ (Space.mk s below).stores, t.Filed := by
    rcases hbelow with rfl | rfl
    · exact h.filed
    · exact fun t ht => h.filed t (List.mem_singleton.mp ht ▸ List.mem_cons_self)
  refine Bool.eq_false_iff.mpr fun hdup => ?_
  obtain ⟨hedge, _, hsame, hends⟩ := areDuplicates_iff.mp hdup
  rw [hlabel] at hsame
  rw [hboundary] at hends
  have hunseen : (Space.mk s below).find? x ≠ some d := fun hx =>
    (findLink?_eq_none_iff hfiled).mp hnone x ⟨d, hx, hedge, hsame, Or.inl hends⟩
  rcases hbelow with rfl | rfl
  · exact hunseen hd
  · rcases Option.or_eq_some_iff.mp hd with hx | ⟨_, hx⟩
    · exact hunseen ((Store.find?_ofStore s x).trans hx)
    · obtain ⟨u, hu, hx⟩ : ∃ u ∈ lower, u.find? x = some d := by
        cases lower with
        | nil => cases hx
        | cons u rest => exact exists_store (show (Space.mk u rest).find? x = some d from hx)
      obtain ⟨f, hf, _⟩ := make_lower hmake a (hboundary ▸ List.mem_cons_self)
      have hstore : a.store = s.id :=
        (Store.find?_eq_some_iff.mp ((Store.find?_ofStore s a).symm.trans hf)).1
      exact h.apart u hu x d hx a (hends ▸ List.mem_cons_self) hstore

theorem Tidy.step (h : (Space.mk s lower).Tidy) (hbelow : below = lower ∨ below = [])
    (hdid : Linking ⟨s, below⟩ t) (hfiled : t.Filed) : (Space.mk t lower).Tidy where
  filed u hu := by
    rcases List.mem_cons.mp hu with rfl | hu
    · exact hfiled
    · exact h.filed u (List.mem_cons_of_mem s hu)
  listed u hu x d hd b hb := by
    have hkeep : (∃ v ∈ (Space.mk s lower).stores, b.store = v.id) →
        ∃ v ∈ (Space.mk t lower).stores, b.store = v.id := by
      intro h'
      obtain ⟨v, hv, hstore⟩ := h'
      rcases List.mem_cons.mp hv with rfl | hv
      · exact ⟨t, List.mem_cons_self, hstore.trans hdid.id_eq.symm⟩
      · exact ⟨v, List.mem_cons_of_mem t hv, hstore⟩
    refine hkeep ?_
    rcases List.mem_cons.mp hu with rfl | hu
    · rcases hdid.find_cases hd with ⟨c, hc, hform⟩ | hseen
      · have hboundary : d.boundary = c.boundary := congrArg Form.boundary hform
        exact h.listed s List.mem_cons_self x c hc b (hboundary ▸ hb)
      · obtain ⟨f, hf, _⟩ := hseen b hb
        obtain ⟨v, hv, hf⟩ := exists_store hf
        refine ⟨v, ?_, (Store.find?_eq_some_iff.mp hf).1⟩
        rcases hbelow with rfl | rfl
        · exact hv
        · exact List.mem_singleton.mp hv ▸ List.mem_cons_self
    · exact h.listed u (List.mem_cons_of_mem s hu) x d hd b hb
  apart u hu x d hd b hb := by
    show b.store ≠ t.id
    rw [hdid.id_eq]
    exact h.apart u hu x d hd b hb
  noDuplicates := by
    cases hdid with
    | same | index => exact h.noDuplicates
    | @delete id c hc hlive =>
      refine h.noDuplicates.of_find fun x d hd hedge => ?_
      have hmark : (Space.mk (s.modifyAt id.index ({ · with deleted := true })) lower).find? x =
          some d := hd
      rw [find?_modifyAt (Store.owns_iff.mpr ⟨c, hc⟩)] at hmark
      split at hmark
      · obtain ⟨d', _, rfl⟩ := Option.map_eq_some_iff.mp hmark
        cases Store.isLive_iff.mp (isEdge_iff.mp hedge).2.2
      · exact hmark
    | @point c label hmake =>
      refine h.noDuplicates.push (make_fields hmake).1 fun x d hd => ?_
      refine Bool.eq_false_iff.mpr fun hdup => ?_
      have hlen : c.boundary.length = edgeEnds :=
        (isEdge_iff.mp (areDuplicates_iff.mp hdup).2.1).2.1
      rw [(make_fields hmake).2.2.1] at hlen
      cases hlen
    | edge hmake hnone =>
      exact h.noDuplicates.push (make_fields hmake).1 fun x d hd =>
        h.not_areDuplicates hbelow hmake hnone hd

/-- **Filling keeps the invariant.** -/
theorem Linked.tidy {sp : Space} (h : sp.Linked) : sp.Tidy := by
  induction h with
  | empty id =>
    refine ⟨fun s hs => ?_, fun s hs x c hc => ?_, fun s hs => absurd hs List.not_mem_nil,
      fun x y c d hc => ?_⟩
    · exact List.mem_singleton.mp hs ▸ Store.filed_empty id
    · obtain rfl : s = .empty id := List.mem_singleton.mp hs
      cases (Store.find?_empty id x).symm.trans hc
    · cases (Store.find?_empty id x).symm.trans ((Store.find?_ofStore _ x).symm.trans hc)
  | @stack sp id hnew h ih =>
    have hsame : ∀ x, (Space.mk (.empty id) sp.stores).find? x = sp.find? x := by
      intro x
      show ((Store.empty id).find? x).or (sp.find? x) = sp.find? x
      rw [Store.find?_empty, Option.none_or]
    refine ⟨fun s hs => ?_, fun s hs x c hc b hb => ?_, fun s hs x c hc b hb => ?_,
      ih.noDuplicates.of_find fun x c hc _ => (hsame x).symm.trans hc⟩
    · rcases List.mem_cons.mp hs with rfl | hs
      · exact Store.filed_empty id
      · exact ih.filed s hs
    · rcases List.mem_cons.mp hs with rfl | hs
      · cases (Store.find?_empty id x).symm.trans hc
      · obtain ⟨t, ht, hstore⟩ := ih.listed s hs x c hc b hb
        exact ⟨t, List.mem_cons_of_mem _ ht, hstore⟩
    · obtain ⟨t, ht, hstore⟩ := ih.listed s hs x c hc b hb
      exact hstore ▸ hnew t ht
  | @alone sp op hop h ih =>
    have hfiled : (op.run sp.top).Filed :=
      op.filed (show (Space.ofStore sp.top).top.Filed from ih.filed sp.top List.mem_cons_self)
    exact ih.step (Or.inr rfl) (hop.linking (.ofStore sp.top)) hfiled
  | @through sp op hop h ih =>
    have hfiled : (op.edit.apply sp).2.top.Filed := op.filed (ih.filed sp.top List.mem_cons_self)
    have hstep := ih.step (Or.inl rfl) (hop.linking sp) hfiled
    rw [← op.below_eq sp] at hstep
    exact hstep

/-- One store, filled alone. -/
theorem linked_runAll (id : Nat) (ops : List Operation) (hops : ∀ op ∈ ops, op.Links) :
    (Space.ofStore (runAll (.empty id) ops)).Linked := by
  have run : ∀ s : Store, (Space.ofStore s).Linked → (Space.ofStore (runAll s ops)).Linked := by
    induction ops with
    | nil => exact fun s h => h
    | cons op ops ih =>
      intro s h
      have hstep : (Space.ofStore (op.run s)).Linked := h.alone (hops op List.mem_cons_self)
      exact ih (fun op hop => hops op (List.mem_cons_of_mem _ hop)) _ hstep
  exact run _ (.empty id)

end Space

/-- **`link` makes no duplicates, and asking twice is asking once.** In a store that was filled by
making points and links, deleting and indexing in any order, no two live edges share a label and an
ordered pair of ends, and neither do two that are in sight of a store filled so over others that were
filled so. In every space of stores with any history, what `link` yields is a live edge with the label
over the two points; at most one cell is made, and none where such an edge is in sight; and asking
again, without orientation also with the ends exchanged, yields the same edge and changes nothing. -/
theorem link_without_duplicates :
    (∀ (id : Nat) (ops : List Operation), (∀ op ∈ ops, op.Links) →
        (Space.ofStore (runAll (.empty id) ops)).NoDuplicates) ∧
      (∀ (sp sp' : Space) (a b e : CellId) (label : String) (oriented : Bool),
        (∀ s ∈ sp.stores, s.Grown) → (∀ s ∈ sp.below, s.id ≠ sp.top.id) →
        (Space.link a b label oriented).apply sp = (.ok e, sp') →
          sp'.IsLink a b label oriented e ∧
            (sp' = sp ∨ ∃ c, c.id = e ∧ sp' = { sp with top := sp.top.push c }) ∧
            ((∃ x, sp.IsLink a b label oriented x) → sp' = sp) ∧
            (Space.link a b label oriented).apply sp' = (.ok e, sp') ∧
            (oriented = false → (Space.link b a label oriented).apply sp' = (.ok e, sp'))) ∧
      ∀ sp : Space, sp.Linked → sp.NoDuplicates :=
  ⟨fun id ops hops => (Space.linked_runAll id ops hops).tidy.noDuplicates,
    fun _ _ _ _ _ _ _ hgrown hown h =>
      Space.link_settles (fun s hs => (hgrown s hs).filed) hown h,
    fun _ h => h.tidy.noDuplicates⟩

/-- Two points and an edge in a store, and a point in a store over it. -/
def linkedPond : Space :=
  ⟨(Operation.create "toad" []).run (.empty 1),
    [runAll (.empty 0)
      [.create "frog" [], .create "animal" [], .link ⟨0, 0⟩ ⟨0, 1⟩ "is" true]]⟩

/-- An edge between the stores is made; with its ends exchanged it is found. -/
theorem link_without_duplicates_pond :
    ∃ sp', (Space.link ⟨1, 0⟩ ⟨0, 1⟩ "is" false).apply linkedPond = (.ok ⟨1, 1⟩, sp') ∧
      sp'.NoDuplicates ∧
      (Space.link ⟨0, 1⟩ ⟨1, 0⟩ "is" false).apply sp' = (.ok ⟨1, 1⟩, sp') := by
  obtain ⟨_, hsettles, hspaces⟩ := link_without_duplicates
  have hlinked : linkedPond.Linked := by
    have hbase : (Space.ofStore (runAll (.empty 0) [.create "frog" [], .create "animal" [],
        .link ⟨0, 0⟩ ⟨0, 1⟩ "is" true])).Linked :=
      Space.linked_runAll 0 _ (by simp [Operation.Links])
    have hcreate : (Operation.create "toad" []).Links := rfl
    exact (hbase.stack 1 (by decide)).alone hcreate
  have hgrown : ∀ s ∈ linkedPond.stores, s.Grown := by
    intro s hs
    rcases List.mem_pair.mp hs with rfl | rfl
    · exact ((Store.Reachable.empty 1).step _).grown
    · exact ((Store.Reachable.empty 0).runAll _).grown
  have hmade : ((Space.link ⟨1, 0⟩ ⟨0, 1⟩ "is" false).apply linkedPond).1 = .ok ⟨1, 1⟩ :=
    Outcome.toOption_eq_some.mp (by decide +kernel)
  refine ⟨_, Prod.ext hmade rfl, ?_, ?_⟩
  · have hlink : (Operation.link ⟨1, 0⟩ ⟨0, 1⟩ "is" false).Links := trivial
    have hthrough := hlinked.through hlink
    rw [show (Operation.link ⟨1, 0⟩ ⟨0, 1⟩ "is" false).edit =
      discard (Space.link ⟨1, 0⟩ ⟨0, 1⟩ "is" false) from rfl, Edit.apply_discard] at hthrough
    exact hspaces _ hthrough
  · exact (hsettles _ _ _ _ _ _ _ hgrown (by decide) (Prod.ext hmade rfl)).2.2.2.2 rfl

end CellComplex
