import CellComplex.Proofs.Knowledge.Building

/-!
# Questions that change the store change no inference

Two of the questions that can be put to knowledge change its store: resolving evidence takes
duplicates away, and rewriting brings the cells of a rule and an edge. What is inferred stays the
same, whatever was asked before and whether it succeeded.

* `Knowledge.Continues`: the later knowledge has the same points, undisturbed, and a fresh index;
* `Knowledge.apply_written`: a rewrite from where its rule is written;
* **`Knowledge.resolveWith_continues`**, **`Knowledge.applyTransitive_continues`**: one question;
* `Ask`, `Knowledge.after`: any sequence of them;
* `Knowledge.Continues.infer`: what is inferred later is what is inferred now;
* **`infer_after`**: for the knowledge of every document.
-/

namespace CellComplex

namespace Knowledge

variable {k k' k'' : Knowledge} {label source target : String} {x y z : CellId}

/-! ## 1. Undisturbed knowledge -/

/-- **The later knowledge**: in order as ever, with the same points, between which nothing is
disturbed. -/
structure Continues (k k' : Knowledge) : Prop where
  reachable : k'.store.Reachable
  fresh : k'.store.isStale = false
  points_eq : k'.points = k.points
  undisturbed : k.store.Undisturbed k'.store

theorem Continues.inOrder (h : k.Continues k') (hk : k.InOrder) : k'.InOrder where
  reachable := h.reachable
  fresh := h.fresh
  isLivePoint label id hid :=
    h.undisturbed.isLivePoint (hk.isLivePoint label id (h.points_eq ▸ hid))

/-- Labels find the points that they found. -/
theorem Continues.point_eq (h : k.Continues k') (label : String) :
    k'.point label = k.point label := by
  unfold point
  rw [h.points_eq]

theorem InOrder.continues (hk : k.InOrder) : k.Continues k := ⟨hk.reachable, hk.fresh, rfl, .refl _⟩

theorem Continues.trans (h : k.Continues k') (h' : k'.Continues k'') : k.Continues k'' where
  reachable := h'.reachable
  fresh := h'.fresh
  points_eq := h'.points_eq.trans h.points_eq
  undisturbed := h.undisturbed.trans h'.undisturbed

/-- A change that disturbs nothing, and the index built anew. -/
theorem continues_buildIndex {t : Store} (ht : t.Reachable) (h : k.store.Undisturbed t) :
    k.Continues ⟨t.buildIndex t.lookup, k.points⟩ where
  reachable := ht.buildIndex
  fresh := Store.isStale_buildIndex
  points_eq := rfl
  undisturbed := h.trans Store.undisturbed_buildIndex

/-! ## 2. One question -/

/-- **Resolving evidence disturbs nothing**, whatever the policy is and however the dice fall. -/
theorem queryResolving_continues (hk : k.InOrder) (hx : k.store.IsLivePoint x)
    (hy : k.store.IsLivePoint y) (policy : PolicyKind) (dice : Dice) (label : String) :
    k.Continues ((queryResolving policy dice label x y).apply k).2 := by
  obtain ⟨result, t, dice', hrun, hreach, hfresh, hundisturbed⟩ :=
    queryResolving_undisturbed hk.reachable hk.fresh label hx hy policy dice
  have hleft : ((queryResolving policy dice label x y).apply k).2 = ⟨t, k.points⟩ := by
    show (Knowledge.mk ((Space.queryResolving policy.policy label x y) _).2.1.top k.points) = _
    rw [hrun]
    rfl
  rw [hleft]
  exact ⟨hreach, hfresh, rfl, hundisturbed⟩

theorem resolveWith_continues (hk : k.InOrder) (label source target : String) (policy : PolicyKind)
    (dice : Dice) : k.Continues ((resolveWith label source target policy dice).apply k).2 := by
  unfold resolveWith
  cases hx : k.point source with
  | error err =>
    rw [Task.ask_bind_error hx]
    exact hk.continues
  | ok x =>
    rw [Task.ask_bind_ok hx]
    cases hy : k.point target with
    | error err =>
      rw [Task.ask_bind_error hy]
      exact hk.continues
    | ok y =>
      rw [Task.ask_bind_ok hy, Task.ask_bind_ok (a := k.store.liveCount) rfl,
        Task.leaves_still fun truth => Task.still_ask.bind fun after => Task.still_pure _]
      exact queryResolving_continues hk (hk.isLivePoint_of_point hx) (hk.isLivePoint_of_point hy)
        policy dice label

theorem requireLink_eq_ok (h : k.requireLink label source target x y = .ok z) :
    k.store.Answers label x y z := by
  unfold requireLink at h
  split at h
  · next hfound =>
    cases h
    exact Store.answers_of_findLink? hfound
  · cases h

/-- Three points in a row, as a question names them. -/
theorem chainOf_eq_ok {points : List String} {chain : List CellId} (hk : k.InOrder)
    (h : k.chainOf label points = .ok chain) :
    ∃ x y z u v, chain = [x, y, z, u, v] ∧ k.store.IsLivePoint x ∧ k.store.IsLivePoint y ∧
      k.store.IsLivePoint z ∧ k.store.Answers label x y u ∧ k.store.Answers label y z v := by
  unfold chainOf at h
  split at h
  · obtain ⟨x, hx, h⟩ := Outcome.bind_eq_ok.mp h
    obtain ⟨y, hy, h⟩ := Outcome.bind_eq_ok.mp h
    obtain ⟨z, hz, h⟩ := Outcome.bind_eq_ok.mp h
    obtain ⟨u, hu, h⟩ := Outcome.bind_eq_ok.mp h
    obtain ⟨v, hv, h⟩ := Outcome.bind_eq_ok.mp h
    cases h
    exact ⟨x, y, z, u, v, rfl, hk.isLivePoint_of_point hx, hk.isLivePoint_of_point hy,
      hk.isLivePoint_of_point hz, requireLink_eq_ok hu, requireLink_eq_ok hv⟩
  · cases h

/-- The store of the knowledge, indexed anew. -/
theorem apply_buildIndex (s : Store) (points : Std.TreeMap String CellId) :
    (Task.edit Space.buildIndex).apply ⟨s, points⟩ =
      (.ok (), ⟨s.buildIndex s.lookup, points⟩) := by
  rw [Task.apply_edit, Space.applyTo_buildIndex]
  rfl

/-- **A rewrite, from where the rule is written and the index built**, once the chain is found. -/
theorem apply_written {points : List String} {chain : List CellId} {rule : CellId} {t : Store}
    (hchain : k.chainOf label points = .ok chain)
    (hwrite : (transitiveRule label).applyTo k.store = (.ok rule, t)) :
    (applyTransitive label points).apply k =
      Task.apply (do
        let rewrite ← Task.edit (Space.rewriteBy rule chain)
        Task.edit Space.buildIndex
        let name ← Task.ask (·.resolve rule)
        let created ← Task.ask fun k => rewrite.created.mapM k.summarize
        let deleted ← Task.ask fun k => rewrite.deleted.mapM k.summarize
        return { rule := name.label, created, deleted : RewriteReport })
        ⟨t.buildIndex t.lookup, k.points⟩ := by
  have hrule : (Task.edit (transitiveRule label)).apply k = (.ok rule, ⟨t, k.points⟩) := by
    rw [Task.apply_edit, hwrite]
    rfl
  unfold applyTransitive
  rw [Task.ask_bind_ok hchain, Task.apply_bind_ok hrule,
    Task.apply_bind_ok (apply_buildIndex t k.points)]

/-- **Rewriting disturbs nothing**, however far it gets. -/
theorem applyTransitive_continues (hk : k.InOrder) (label : String) (points : List String) :
    k.Continues ((applyTransitive label points).apply k).2 := by
  cases hchain : k.chainOf label points with
  | error err =>
    unfold applyTransitive
    rw [Task.ask_bind_error hchain]
    exact hk.continues
  | ok chain =>
    obtain ⟨x, y, z, u, v, rfl, hx, hy, hz, hu, hv⟩ := chainOf_eq_ok hk hchain
    obtain ⟨rule, t, hwrite, ht, hundisturbed, happly⟩ :=
      transitiveRule_undisturbed hk.reachable label
    rw [apply_written hchain hwrite]
    have hwritten : k.Continues ⟨t.buildIndex t.lookup, k.points⟩ :=
      continues_buildIndex ht hundisturbed
    have hreach : ((Space.rewriteBy rule [x, y, z, u, v]).applyTo
        (t.buildIndex t.lookup)).2.Reachable :=
      ht.buildIndex.applyTo (.rewriteBy rule [x, y, z, u, v]) rfl
    have hrewritten := happly x y z u v hx hy hz hu hv
    cases hrun : (Space.rewriteBy rule [x, y, z, u, v]).applyTo (t.buildIndex t.lookup) with
    | mk result w =>
      rw [hrun] at hreach hrewritten
      have hedit : (Task.edit (Space.rewriteBy rule [x, y, z, u, v])).apply
          ⟨t.buildIndex t.lookup, k.points⟩ = (result.mapError .store, ⟨w, k.points⟩) := by
        rw [Task.apply_edit, hrun]
      cases result with
      | error err =>
        -- a rewrite that fails leaves the rule, and an index that is fresh
        obtain rfl : w = t.buildIndex t.lookup :=
          Space.rewriteBy_error ht.buildIndex.consistent hrun
        rw [Task.apply_bind_error hedit]
        exact hwritten
      | ok rewrite =>
        rw [Task.apply_bind_ok hedit, Task.apply_bind_ok (apply_buildIndex w k.points),
          Task.Still.leaves (Task.still_ask.bind fun name => Task.still_ask.bind fun created =>
            Task.still_ask.bind fun deleted => Task.still_pure _)]
        exact hwritten.trans (continues_buildIndex hreach hrewritten)

/-! ## 3. Any questions -/

/-- **A question that may change the store.** -/
inductive Ask where
  | resolve (label source target : String) (policy : PolicyKind) (dice : Dice)
  | rewrite (label : String) (points : List String)

/-- The knowledge that a question leaves behind, failing or not. -/
def leave (k : Knowledge) : Ask → Knowledge
  | .resolve label source target policy dice =>
    ((resolveWith label source target policy dice).apply k).2
  | .rewrite label points => ((applyTransitive label points).apply k).2

/-- The knowledge that some questions leave behind, one after the other. -/
def after (k : Knowledge) (asks : List Ask) : Knowledge := asks.foldl leave k

theorem leave_continues (hk : k.InOrder) (ask : Ask) : k.Continues (k.leave ask) := by
  cases ask with
  | resolve label source target policy dice =>
    exact resolveWith_continues hk label source target policy dice
  | rewrite label points => exact applyTransitive_continues hk label points

/-- **Any questions disturb nothing**, by induction on the questions. -/
theorem after_continues (hk : k.InOrder) (asks : List Ask) : k.Continues (k.after asks) := by
  induction asks generalizing k with
  | nil => exact hk.continues
  | cons ask asks ih =>
    have hstep := leave_continues hk ask
    exact hstep.trans (ih (hstep.inOrder hk))

/-! ## 4. Inference -/

variable {subject predicate : String} {s p : CellId} {horizon : Float} {t : TermSets}

theorem resolve_eq {id : CellId} {c : Cell} (hc : k.store.find? id = some c) :
    k.resolve id = .ok c := by
  have hresolve : k.space.resolve id = .ok c := Store.resolve_ofStore hc
  unfold resolve
  rw [hresolve]
  rfl

/-- A point shows in later knowledge as it does in this one. -/
theorem Continues.describe (h : k.Continues k') (hx : k.store.lookup.IsPoint x) :
    k'.describe x = k.describe x := by
  obtain ⟨c, hc, hpoint⟩ := hx
  unfold Knowledge.describe
  rw [resolve_eq hc, resolve_eq (h.undisturbed.kept x c hc hpoint)]

/-- What is found from a point is described. -/
theorem describeAll_isOk {direction : Direction} {ids : List CellId} (hk : k.InOrder)
    (hx : k.store.lookup.IsPoint x) (hids : k.store.Traverses direction x ids) :
    ∃ names, k.describeAll ids = .ok names := by
  refine Outcome.mapM_isOk fun y hy => ?_
  obtain ⟨c, hc, _⟩ :=
    Store.isPoint_of_follows hk.reachable.consistent.sound hx ((hids.mem_iff y).mp hy)
  unfold describe
  rw [resolve_eq hc]
  exact ⟨c.shownLabel, rfl⟩

/-- A walk from a point is described alike, in some order. -/
theorem Continues.describeAll (h : k.Continues k') (hk : k.InOrder) {direction : Direction}
    {ids ids' : List CellId} {names : List String} (hx : k.store.lookup.IsPoint x)
    (hids : k.store.Traverses direction x ids) (hids' : k'.store.Traverses direction x ids')
    (hnames : k.describeAll ids = .ok names) :
    ∃ names', k'.describeAll ids' = .ok names' ∧ names'.Perm names :=
  Outcome.mapM_perm hnames (h.undisturbed.perm hx hids hids') fun y hy =>
    h.describe (Store.isPoint_of_follows hk.reachable.consistent.sound hx ((hids.mem_iff y).mp hy))

/-- Inference succeeds as soon as its parts do. -/
theorem infer_eq_ok {extension intension : List String}
    (hs : k.point subject = .ok s) (hp : k.point predicate = .ok p)
    (hevidence : k.space.inferTruth s p horizon = .ok (t.summary horizon))
    (hextension : k.space.extension s = .ok t.subjectExtension)
    (hintension : k.space.intension s = .ok t.subjectIntension)
    (hextended : k.describeAll t.subjectExtension = .ok extension)
    (hintended : k.describeAll t.subjectIntension = .ok intension) :
    k.infer subject predicate horizon =
      .ok ⟨subject, predicate, horizon, t.summary horizon, extension, intension⟩ := by
  have hevidence' : (k.space.inferTruth s p horizon).mapError KnowledgeError.store =
      .ok (t.summary horizon) := by rw [hevidence]; rfl
  have hextension' : (k.space.extension s).mapError KnowledgeError.store =
      .ok t.subjectExtension := by rw [hextension]; rfl
  have hintension' : (k.space.intension s).mapError KnowledgeError.store =
      .ok t.subjectIntension := by rw [hintension]; rfl
  refine Outcome.bind_eq_ok.mpr ⟨s, hs, Outcome.bind_eq_ok.mpr ⟨p, hp, ?_⟩⟩
  refine Outcome.bind_eq_ok.mpr ⟨_, hevidence', Outcome.bind_eq_ok.mpr ⟨_, hextension', ?_⟩⟩
  refine Outcome.bind_eq_ok.mpr ⟨_, hintension', Outcome.bind_eq_ok.mpr ⟨_, hextended, ?_⟩⟩
  exact Outcome.bind_eq_ok.mpr ⟨_, hintended, rfl⟩

/-- Every label that the knowledge knows names a point. -/
theorem exists_point (h : label ∈ k.points) :
    ∃ id, k.points[label]? = some id ∧ k.point label = .ok id := by
  have hid : k.points[label]? = some k.points[label] := Std.TreeMap.getElem?_eq_some_getElem h
  exact ⟨_, hid, point_eq_ok.mpr hid⟩

/-- **What is inferred later is what is inferred now**: the same evidence, and the same extension
and intension in some order. -/
theorem Continues.infer (h : k.Continues k') (hk : k.InOrder) (hsubject : subject ∈ k.points)
    (hpredicate : predicate ∈ k.points) (hhorizon : isHorizon horizon = true) :
    ∃ now later, k.infer subject predicate horizon = .ok now ∧
      k'.infer subject predicate horizon = .ok later ∧ later.evidence = now.evidence ∧
      later.extension.Perm now.extension ∧ later.intension.Perm now.intension := by
  have hk' : k'.InOrder := h.inOrder hk
  obtain ⟨s, hs, hsok⟩ := exists_point hsubject
  obtain ⟨p, hp, hpok⟩ := exists_point hpredicate
  have hspoint := (hk.isLivePoint subject s hs).isPoint
  have hppoint := (hk.isLivePoint predicate p hp).isPoint
  obtain ⟨t, hse, hsi, _, _, hterms, ht⟩ :=
    hk.reachable.exists_terms hk.fresh hspoint hppoint
  obtain ⟨t', hse', hsi', _, _, hterms', ht'⟩ :=
    hk'.reachable.exists_terms hk'.fresh (h.undisturbed.isPoint hspoint)
      (h.undisturbed.isPoint hppoint)
  obtain ⟨extension, hextended⟩ := describeAll_isOk hk hspoint ht.subjectExtension
  obtain ⟨intension, hintended⟩ := describeAll_isOk hk hspoint ht.subjectIntension
  obtain ⟨extension', hextended', hextension⟩ :=
    h.describeAll hk hspoint ht.subjectExtension ht'.subjectExtension hextended
  obtain ⟨intension', hintended', hintension⟩ :=
    h.describeAll hk hspoint ht.subjectIntension ht'.subjectIntension hintended
  have hsok' : k'.point subject = .ok s := (h.point_eq subject).trans hsok
  have hpok' : k'.point predicate = .ok p := (h.point_eq predicate).trans hpok
  refine ⟨_, _, infer_eq_ok hsok hpok (Store.inferTruth_eq_ok hhorizon hterms) hse hsi hextended
    hintended, infer_eq_ok hsok' hpok' (Store.inferTruth_eq_ok hhorizon hterms') hse' hsi'
    hextended' hintended', ?_, hextension, hintension⟩
  exact h.undisturbed.summary_eq hspoint hppoint ht ht' horizon

end Knowledge

/-- **Resolving and rewriting never change what is inferred.** For the knowledge of a document and
any questions that may change its store, whatever they name and whether they fail, for any two of
its points and a horizon that is finite and positive: before and after the questions inference
succeeds, with as many cases for the statement and as many cases in all, and with the same extension
and intension of the subject, in some order. -/
theorem infer_after {document : KnowledgeDocument} {k : Knowledge}
    (h : (Knowledge.build document).apply Knowledge.empty = (.ok (), k))
    (asks : List Knowledge.Ask) {subject predicate : String} (hsubject : subject ∈ k.points)
    (hpredicate : predicate ∈ k.points) {horizon : Float} (hfinite : horizon.isFinite = true)
    (hpositive : 0 < horizon) :
    ∃ now later, k.infer subject predicate horizon = .ok now ∧
      (k.after asks).infer subject predicate horizon = .ok later ∧
      later.evidence.positive = now.evidence.positive ∧
      later.evidence.total = now.evidence.total ∧
      later.extension.Perm now.extension ∧ later.intension.Perm now.intension := by
  have hk : k.InOrder := Knowledge.inOrder_of_build h
  have hhorizon : isHorizon horizon = true := by simp [isHorizon, hfinite, hpositive]
  obtain ⟨now, later, hnow, hlater, hevidence, hextension, hintension⟩ :=
    (Knowledge.after_continues hk asks).infer hk hsubject hpredicate hhorizon
  exact ⟨now, later, hnow, hlater, by rw [hevidence], by rw [hevidence], hextension, hintension⟩

/-- Three points in a row; for the first step there is evidence twice. -/
def birdsDocument : KnowledgeDocument where
  points := []
  links := [⟨"bird", "animal", "is", true, none⟩]
  evidence := [⟨"robin", "bird", "is", ⟨1, 0.9⟩, none⟩, ⟨"robin", "bird", "is", ⟨0.5, 0.5⟩, none⟩]

/-- The evidence that is there twice is resolved, one rewrite succeeds, and one fails at a link that
is not there. -/
theorem infer_after_birds :
    ∃ k now later, (Knowledge.build birdsDocument).apply Knowledge.empty = (.ok (), k) ∧
      k.infer "robin" "animal" 1 = .ok now ∧
      (k.after [.resolve "is" "robin" "bird" .revision ⟨fun _ => 0, 0⟩,
        .rewrite "is" ["robin", "bird", "animal"],
        .rewrite "is" ["animal", "bird", "robin"]]).infer "robin" "animal" 1 = .ok later ∧
      later.evidence.total = now.evidence.total ∧ later.intension.Perm now.intension := by
  have hbuild : ((Knowledge.build birdsDocument).apply Knowledge.empty).1.toOption = some () ∧
      "robin" ∈ ((Knowledge.build birdsDocument).apply Knowledge.empty).2.points ∧
      "animal" ∈ ((Knowledge.build birdsDocument).apply Knowledge.empty).2.points := by
    decide +kernel
  obtain ⟨hok, hsubject, hpredicate⟩ := hbuild
  have hrun := Prod.ext (Outcome.toOption_eq_some.mp hok) rfl
  have hfinite : (1 : Float).isFinite = true := by decide
  have hpositive : (0 : Float) < 1 := by decide
  obtain ⟨now, later, hnow, hlater, _, htotal, _, hintension⟩ :=
    infer_after hrun [.resolve "is" "robin" "bird" .revision ⟨fun _ => 0, 0⟩,
      .rewrite "is" ["robin", "bird", "animal"],
      .rewrite "is" ["animal", "bird", "robin"]] hsubject hpredicate hfinite hpositive
  exact ⟨_, now, later, hrun, hnow, hlater, htotal, hintension⟩

end CellComplex
