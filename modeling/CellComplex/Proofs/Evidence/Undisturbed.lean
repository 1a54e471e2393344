import CellComplex.Proofs.Evidence.Inference
import CellComplex.Proofs.Evidence.Resolution
import CellComplex.Proofs.Store.Lines

/-!
# What inference does not notice

Inference follows chains of live edges from point to point, whatever the edges are called and
however many lie side by side. A change that keeps the points, and after which the same points are
tied by chains, goes unnoticed.

* `Store.Undisturbed`: points stay as they are, and lead where they led;
* **`undisturbed_of_steps`**: single steps decide, by induction on chains;
* **`Settles.undisturbed`**: duplicates come and go unnoticed, as long as one is left;
* **`Lines.undisturbed`**: so do new cells that no old point is tied by, or only as before;
* **`queryResolving_undisturbed`**: a query that resolves duplicates, failing or not;
* `Undisturbed.summary_eq`: the terms of points give the same evidence.
-/

namespace CellComplex

open Relation (ReflTransGen)

namespace Store

variable {s t u : Store} {direction : Direction} {x y : CellId}

/-! ## 1. Points and chains -/

/-- **Nothing is disturbed between points**: every point stays as it is, and live edges lead from it
exactly where they led. -/
structure Undisturbed (s t : Store) : Prop where
  kept : ∀ x c, s.find? x = some c → c.dimension = 0 → t.find? x = some c
  leads_iff : ∀ direction x y, s.lookup.IsPoint x →
    (ReflTransGen (t.Follows direction) x y ↔ ReflTransGen (s.Follows direction) x y)

theorem Undisturbed.isPoint (h : s.Undisturbed t) (hx : s.lookup.IsPoint x) :
    t.lookup.IsPoint x := by
  obtain ⟨c, hc, hpoint⟩ := hx
  exact ⟨c, h.kept x c hc hpoint, hpoint⟩

theorem Undisturbed.isLivePoint (h : s.Undisturbed t) (hx : s.IsLivePoint x) :
    t.IsLivePoint x := by
  obtain ⟨c, hc, hpoint, hlive⟩ := hx
  exact ⟨c, h.kept x c hc hpoint, hpoint, hlive⟩

theorem Undisturbed.refl (s : Store) : s.Undisturbed s where
  kept _ _ hc _ := hc
  leads_iff _ _ _ _ := Iff.rfl

theorem Undisturbed.trans (h : s.Undisturbed t) (h' : t.Undisturbed u) : s.Undisturbed u where
  kept x c hc hpoint := h'.kept x c (h.kept x c hc hpoint) hpoint
  leads_iff direction x y hx :=
    (h'.leads_iff direction x y (h.isPoint hx)).trans (h.leads_iff direction x y hx)

/-- Only the cells matter, and not the index. -/
theorem undisturbed_of_find (h : ∀ x, t.find? x = s.find? x) : s.Undisturbed t where
  kept x c hc _ := (h x).trans hc
  leads_iff direction x y _ := by
    have hfind : t.find? = s.find? := funext h
    have hsteps : t.Follows direction = s.Follows direction := by
      unfold Follows
      rw [hfind]
    rw [hsteps]

theorem undisturbed_buildIndex {look : Lookup} : s.Undisturbed (s.buildIndex look) :=
  undisturbed_of_find fun _ => rfl

/-- **Single steps decide**: every step of one store is a chain of the other. -/
theorem undisturbed_of_steps (hs : s.lookup.Sound)
    (hkept : ∀ x c, s.find? x = some c → c.dimension = 0 → t.find? x = some c)
    (hahead : ∀ direction x y, s.lookup.IsPoint x → s.Follows direction x y →
      ReflTransGen (t.Follows direction) x y)
    (hback : ∀ direction x y, s.lookup.IsPoint x → t.Follows direction x y →
      ReflTransGen (s.Follows direction) x y) : s.Undisturbed t where
  kept := hkept
  leads_iff direction x y hx := by
    -- by induction on the chain; all that a point leads to are points
    constructor
    · intro h
      induction h with
      | refl => exact .refl
      | tail _ hstep ih => exact ih.trans (hback _ _ _ (isPoint_of_follows hs hx ih) hstep)
    · intro h
      induction h with
      | refl => exact .refl
      | tail hchain hstep ih =>
        exact ih.trans (hahead _ _ _ (isPoint_of_follows hs hx hchain) hstep)

/-! ## 2. Duplicates -/

section Settles

variable {label : String} {a b e : CellId} {before after edges : List CellId}

/-- A live cell follows an answer. -/
theorem Answers.follows (h : s.Answers label a b e) (hends : [a, b] = direction.ends x y)
    (hlive : ∃ c, s.find? x = some c ∧ c.isLive = true) : s.Follows direction x y := by
  obtain ⟨c, hc, hsay⟩ := h
  exact ⟨hlive, e, c, hc, hsay.isLive, hsay.dimension, hsay.boundary.trans hends⟩

/-- **Duplicates come and go unnoticed**, as long as one is left. -/
theorem Settles.undisturbed (hs : s.lookup.Sound) (h : Settles label a b s before t after)
    (hbefore : before ≠ []) (hafter : after ≠ []) : s.Undisturbed t := by
  obtain ⟨first, hfirst⟩ := List.exists_mem_of_ne_nil _ hbefore
  obtain ⟨left, hleft⟩ := List.exists_mem_of_ne_nil _ hafter
  have hfirst : s.Answers label a b first := (h.start.mem_iff first).mp hfirst
  have hleft : t.Answers label a b left := (h.stop.mem_iff left).mp hleft
  refine undisturbed_of_steps hs (fun x c => h.find?_point) (fun direction x y hx hstep => ?_)
    fun direction x y hx hstep => ?_
  · obtain ⟨⟨c, hc, hlive⟩, e, o, ho, holive, hdim, hends⟩ := hstep
    obtain ⟨c', hc', hpoint⟩ := hx
    cases hc.symm.trans hc'
    have hlive' : ∃ c, t.find? x = some c ∧ c.isLive = true := ⟨c, h.find?_point hc hpoint, hlive⟩
    by_cases he : e ∈ before
    · obtain ⟨o', ho', hsay⟩ := (h.start.mem_iff e).mp he
      cases ho.symm.trans ho'
      exact .single (hleft.follows (hsay.boundary.symm.trans hends) hlive')
    · exact .single ⟨hlive', e, o, h.kept e o ho he, holive, hdim, hends⟩
  · obtain ⟨⟨c, hc, hlive⟩, e, o, ho, holive, hdim, hends⟩ := hstep
    obtain ⟨c', hc', hpoint⟩ := hx
    cases hc.symm.trans (h.find?_point hc' hpoint)
    have hlive' : ∃ c, s.find? x = some c ∧ c.isLive = true := ⟨c, hc', hlive⟩
    by_cases he : e ∈ after
    · obtain ⟨o', ho', hsay⟩ := (h.stop.mem_iff e).mp he
      cases ho.symm.trans ho'
      exact .single (hfirst.follows (hsay.boundary.symm.trans hends) hlive')
    · exact .single ⟨hlive', e, o, h.back e o ho holive he, holive, hdim, hends⟩

end Settles

end Store

/-! ## 3. New cells -/

section Lines

variable {s : Store} {cs : List Cell}

/-- **New cells go unnoticed** whose edges lead from old points only where these led before. -/
theorem Lines.undisturbed (hs : s.Consistent) (h : Lines [] s cs)
    (hnew : ∀ c ∈ cs, ∀ direction x y, s.IsLivePoint x → c.boundary = direction.ends x y →
      ReflTransGen (s.Follows direction) x y) : s.Undisturbed (s.pushAll cs) := by
  refine Store.undisturbed_of_steps hs.sound (fun x c hc _ => h.find?_kept hc)
    (fun direction x y _ hstep => ?_) fun direction x y hx hstep => ?_
  · obtain ⟨⟨c, hc, hlive⟩, e, o, ho, hedge⟩ := hstep
    exact .single ⟨⟨c, h.find?_kept hc, hlive⟩, e, o, h.find?_kept ho, hedge⟩
  · obtain ⟨⟨c, hc, hlive⟩, e, o, ho, holive, hdim, hends⟩ := hstep
    obtain ⟨c', hc', hpoint⟩ := hx
    cases hc.symm.trans (h.find?_kept hc')
    rcases h.find_cases ho with hold | ⟨hmem, _⟩
    · exact .single ⟨⟨c, hc', hlive⟩, e, o, hold, holive, hdim, hends⟩
    · exact hnew o hmem direction x y ⟨c, hc', hpoint, hlive⟩ hends

/-- Cells that list new cells only tie nothing that was there. -/
theorem Lines.undisturbed_of_closed (hs : s.Consistent) (h : Lines [] s cs)
    (hclosed : ∀ c ∈ cs, ∀ b ∈ c.boundary, ∃ d ∈ cs, d.id = b) : s.Undisturbed (s.pushAll cs) := by
  refine h.undisturbed hs fun c hc direction x y hx hends => ?_
  obtain ⟨d, hd, rfl⟩ := hclosed c hc x (hends ▸ direction.mem_ends x y)
  obtain ⟨_, hold, _⟩ := hx
  rw [h.fresh hd] at hold
  cases hold

/-- An edge from one point to another goes unnoticed if live edges lead there by way of a third. -/
theorem Lines.undisturbed_of_shortcut {x y z u v : CellId} {c : Cell} {label : String}
    (hs : s.Consistent) (h : Lines [] s [c]) (hx : s.IsLivePoint x) (hy : s.IsLivePoint y)
    (hz : s.IsLivePoint z) (hu : s.Answers label x y u) (hv : s.Answers label y z v)
    (hends : c.boundary = [x, z]) : s.Undisturbed (s.pushAll [c]) := by
  refine h.undisturbed hs fun d hd direction p q _ hpq => ?_
  rw [List.mem_singleton.mp hd, hends] at hpq
  cases direction with
  | intension =>
    cases hpq
    exact .tail (.single (hu.follows rfl hx.isLive)) (hv.follows rfl hy.isLive)
  | extension =>
    cases hpq
    exact .tail (.single (hv.follows rfl hz.isLive)) (hu.follows rfl hy.isLive)

end Lines

/-! ## 4. Queries that resolve duplicates -/

/-- **A query that resolves duplicates goes unnoticed**, whether it succeeds or fails on the way. -/
theorem queryResolving_undisturbed {s : Store} (hs : s.Reachable) (hfresh : s.isStale = false)
    (label : String) {x y : CellId} (hx : s.IsLivePoint x) (hy : s.IsLivePoint y)
    (kind : PolicyKind) (dice : Dice) :
    ∃ result t dice', Space.queryResolving kind.policy label x y (.ofStore s, dice) =
        (result, .ofStore t, dice') ∧ t.Reachable ∧ t.isStale = false ∧ s.Undisturbed t := by
  have hedges : s.AnsweredBy label x y ((Space.ofStore s).candidates label x y) :=
    hs.answeredBy_candidates hfresh hx.isLive
  unfold Space.queryResolving
  by_cases hnone : (Space.ofStore s).candidates label x y = []
  · obtain ⟨cx, hcx, _⟩ := hx
    obtain ⟨cy, hcy, _⟩ := hy
    have hquery := Space.query_of_none ((Store.find?_ofStore s x).trans hcx)
      ((Store.find?_ofStore s y).trans hcy) hnone
    exact ⟨_, s, dice, Space.resolveFrom_answer _ hquery, hs, hfresh, .refl s⟩
  · have hlen : ((Space.ofStore s).candidates label x y).length =
        ((Space.ofStore s).candidates label x y).length - 1 + 1 := by
      have hpos := List.length_pos_of_ne_nil hnone
      omega
    obtain ⟨result, t, after, dice', rounds, hrun, hresolved⟩ :=
      Space.resolveFrom_settles kind s _ none dice 0 hs hfresh hx hy hedges hlen
        fun m hm => by cases hm
    have hplain : Space.resolveFrom kind.policy label x y none (.ofStore s, dice) =
        (result, .ofStore t, dice') := by
      rw [← Space.resolveFrom_counted none (.ofStore s, dice) 0, hrun]
    exact ⟨result, t, dice', hplain, hresolved.reachable, hresolved.fresh,
      hresolved.settles.undisturbed hs.consistent.sound hnone hresolved.nonempty⟩

/-! ## 5. Evidence -/

section Terms

variable {s t : Store} {direction : Direction} {x subject predicate : CellId}
variable {ids ids' listed listed' : List CellId} {terms terms' : TermSets}

/-- A walk from a point holds the same, in some order. -/
theorem Store.Undisturbed.perm (h : s.Undisturbed t) (hx : s.lookup.IsPoint x)
    (hs : s.Traverses direction x ids) (ht : t.Traverses direction x ids') : ids'.Perm ids := by
  rw [List.perm_ext_iff_of_nodup ht.nodup hs.nodup]
  intro y
  rw [ht.mem_iff, hs.mem_iff, h.leads_iff direction x y hx]

theorem countIn_perm (hids : ids'.Perm ids) (hlisted : listed'.Perm listed) :
    countIn ids' (Std.TreeSet.ofList listed') = countIn ids (Std.TreeSet.ofList listed) := by
  have hsame : (Std.TreeSet.ofList listed' : CellSet).contains =
      (Std.TreeSet.ofList listed : CellSet).contains := by
    funext y
    rw [Bool.eq_iff_iff]
    exact mem_ofList.trans (hlisted.mem_iff.trans mem_ofList.symm)
  unfold countIn
  rw [hsame]
  exact hids.countP_eq _

/-- **The same terms give the same evidence**, in whatever order they are found. -/
theorem Store.Undisturbed.summary_eq (h : s.Undisturbed t) (hsubject : s.lookup.IsPoint subject)
    (hpredicate : s.lookup.IsPoint predicate) (hs : s.Terms subject predicate terms)
    (ht : t.Terms subject predicate terms') (horizon : Float) :
    terms'.summary horizon = terms.summary horizon := by
  have hse := h.perm hsubject hs.subjectExtension ht.subjectExtension
  have hsi := h.perm hsubject hs.subjectIntension ht.subjectIntension
  have hpe := h.perm hpredicate hs.predicateExtension ht.predicateExtension
  have hpi := h.perm hpredicate hs.predicateIntension ht.predicateIntension
  have hpositive : terms'.positive = terms.positive :=
    congrArg₂ (· + ·) (countIn_perm hse hpe) (countIn_perm hpi hsi)
  have htotal : terms'.total = terms.total :=
    congrArg₂ (· + ·) hse.length_eq hpi.length_eq
  have hrelated : terms'.related = terms.related := by
    rw [Bool.eq_iff_iff, TermSets.related_iff, TermSets.related_iff]
    refine exists_congr fun y => ?_
    unfold TermSets.Share
    rw [hse.mem_iff, hsi.mem_iff, hpe.mem_iff, hpi.mem_iff]
  unfold TermSets.summary
  rw [hpositive, htotal, hrelated]

end Terms

end CellComplex
