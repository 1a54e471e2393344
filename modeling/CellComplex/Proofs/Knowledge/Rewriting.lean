import CellComplex.Proofs.Knowledge.Asking
import CellComplex.Proofs.Knowledge.Loading

/-!
# When a rewrite succeeds

A rewrite asks for two edges in a row. If one is not there, the first that is not is named, and
nothing changes. If both are, the transitive rule is written, read back and applied, next to all
that earlier rewrites left behind, and one edge is made; unless the label is one of the two words
that binds are told by, because then the rule cannot be read back.

* `Knowledge.requireLink_isOk`, `Knowledge.requireLink_missing`: an edge is found if it is there;
* `Knowledge.applyTransitive_first`, `Knowledge.applyTransitive_second`: what is not there is named;
* `Knowledge.exists_rewrite`: the rule is written, read back and applied;
* **`Knowledge.applyTransitive_ok`**: what is made, and how it is shown;
* `Knowledge.applyTransitive_of_word`: the two words;
* **`rewrite_after`**: after any questions to the knowledge of any document.
-/

namespace CellComplex

namespace Knowledge

variable {k k' : Knowledge} {label source target A B C : String} {x y z u v id : CellId}

/-! ## 1. Points and edges that are asked for -/

/-- A point carries its label as long as points stay as they are. -/
theorem IsPointOf.kept (h : k.IsPointOf label x) (hpoint : k'.point label = k.point label)
    (hkept : ∀ id c, k.store.find? id = some c → c.dimension = 0 → k'.store.find? id = some c) :
    k'.IsPointOf label x := by
  obtain ⟨hx, c, hc, hzero, hlabel⟩ := h
  exact ⟨hpoint.trans hx, c, hkept x c hc hzero, hzero, hlabel⟩

theorem Continues.isPointOf (h : k.Continues k') (hx : k.IsPointOf label x) :
    k'.IsPointOf label x := hx.kept (h.point_eq label) h.undisturbed.kept

theorem shownLabel_of_live {c : Cell} (hlive : c.isLive = true) : c.shownLabel = c.label :=
  if_neg (by rw [Store.isLive_iff.mp hlive]; exact Bool.false_ne_true)

/-- A live point shows its label. -/
theorem IsPointOf.describe (h : k.IsPointOf label x) (hlive : k.store.IsLivePoint x) :
    k.describe x = .ok label := by
  obtain ⟨_, c, hc, _, rfl⟩ := h
  obtain ⟨c', hc', _, hlive⟩ := hlive
  cases hc.symm.trans hc'
  unfold Knowledge.describe
  rw [resolve_eq hc, ← shownLabel_of_live hlive]
  rfl

/-- An edge that is there is found, ... -/
theorem requireLink_isOk (hk : k.InOrder) (h : k.store.Answers label x y z)
    (source target : String) : ∃ e, k.requireLink label source target x y = .ok e := by
  unfold requireLink
  cases hfound : k.space.findLink? x y label true with
  | some e => exact ⟨e, rfl⟩
  | none =>
    obtain ⟨c, hc, hsay⟩ := h
    have hlink : k.space.IsLink x y label true z :=
      ⟨c, (k.find?_space z).trans hc, hsay.isEdge, hsay.label_eq, Or.inl hsay.boundary⟩
    exact absurd hlink ((Space.findLink?_eq_none_iff hk.filed).mp hfound z)

/-- ... and one that is not is named. -/
theorem requireLink_missing (h : ∀ e, ¬ k.store.Answers label x y e) :
    k.requireLink label source target x y = .error (.missingLink label source target) := by
  unfold requireLink
  cases hfound : k.space.findLink? x y label true with
  | some e => exact absurd (Store.answers_of_findLink? hfound) (h e)
  | none => rfl

/-- Of known points, only the edges are left to ask for. -/
theorem chainOf_eq (hx : k.point A = .ok x) (hy : k.point B = .ok y) (hz : k.point C = .ok z) :
    k.chainOf label [A, B, C] = (do
      let xy ← k.requireLink label A B x y
      let yz ← k.requireLink label B C y z
      return [x, y, z, xy, yz]) := by
  show (k.point A >>= _) = _
  rw [hx]
  show (k.point B >>= _) = _
  rw [hy]
  show (k.point C >>= _) = _
  rw [hz]
  rfl

/-- Where both edges are there, a chain is found. -/
theorem chainOf_isOk (hk : k.InOrder) (hx : k.point A = .ok x) (hy : k.point B = .ok y)
    (hz : k.point C = .ok z) (hu : k.store.Answers label x y u) (hv : k.store.Answers label y z v) :
    ∃ e f, k.chainOf label [A, B, C] = .ok [x, y, z, e, f] ∧ k.store.Answers label x y e ∧
      k.store.Answers label y z f := by
  obtain ⟨e, he⟩ := requireLink_isOk hk hu A B
  obtain ⟨f, hf⟩ := requireLink_isOk hk hv B C
  refine ⟨e, f, ?_, requireLink_eq_ok he, requireLink_eq_ok hf⟩
  rw [chainOf_eq hx hy hz, he, hf]
  rfl

/-- **Where the first edge is not there, it is named**, and nothing changes, ... -/
theorem applyTransitive_first (hx : k.point A = .ok x) (hy : k.point B = .ok y)
    (hz : k.point C = .ok z) (hnone : ∀ e, ¬ k.store.Answers label x y e) :
    (applyTransitive label [A, B, C]).apply k = (.error (.missingLink label A B), k) := by
  refine Task.ask_bind_error ?_
  rw [chainOf_eq hx hy hz, requireLink_missing hnone]
  rfl

/-- ... and where only the second is not, that is. -/
theorem applyTransitive_second (hk : k.InOrder) (hx : k.point A = .ok x) (hy : k.point B = .ok y)
    (hz : k.point C = .ok z) (hu : k.store.Answers label x y u)
    (hnone : ∀ e, ¬ k.store.Answers label y z e) :
    (applyTransitive label [A, B, C]).apply k = (.error (.missingLink label B C), k) := by
  obtain ⟨e, he⟩ := requireLink_isOk hk hu A B
  refine Task.ask_bind_error ?_
  rw [chainOf_eq hx hy hz, he, requireLink_missing hnone]
  rfl

/-! ## 2. The edge that is made -/

/-- **The rule is written, read back and applied**: the cell that is made says what it should, the
rule cell carries the name of the rule, and all that was there is there. -/
theorem exists_rewrite (hk : k.InOrder) (hx : k.store.IsLivePoint x) (hy : k.store.IsLivePoint y)
    (hz : k.store.IsLivePoint z) (hu : k.store.Answers label x y u)
    (hv : k.store.Answers label y z v) (hbind : label ≠ Label.bind)
    (hnobind : label ≠ Label.nobind) :
    ∃ root t c w, (transitiveRule label).applyTo k.store = (.ok root, t) ∧
      (Space.rewriteBy root [x, y, z, u, v]).applyTo (t.buildIndex t.lookup) =
        (.ok ⟨[c.id], []⟩, w) ∧
      (∀ id d, k.store.find? id = some d → w.find? id = some d) ∧
      (∃ r, w.find? root = some r ∧ r.label = s!"transitive_{label}") ∧
      w.find? c.id = some c ∧ c.Says label x z := by
  obtain ⟨root, entries, listings, hwritten, hrun, hnamed, hdims, hname⟩ :=
    transitiveRule_written hk.reachable.consistent label
  obtain ⟨rule, hcompile, htransitive⟩ :=
    hwritten.compile_transitive hk.reachable.consistent hnamed hdims hbind hnobind
  have hreach : (ruleStore k.store root entries listings).Reachable :=
    hk.reachable.of_edit (.transitiveRule label) rfl hrun
  have hkept : ∀ id d, k.store.find? id = some d →
      (ruleStore k.store root entries listings).find? id = some d :=
    fun _ _ hd => hwritten.lines.find?_kept hd
  obtain ⟨w, c, hrewrite, hlines, hmarks, hsay⟩ := htransitive.rewrite_ok
    hreach.buildIndex.consistent (hx.mono hkept) (hy.mono hkept) (hz.mono hkept) (hu.mono hkept)
    (hv.mono hkept)
  have hfind := hlines.find?_single hmarks
  -- the new cell is none of those that were there
  have hkept' : ∀ id d, (ruleStore k.store root entries listings).find? id = some d →
      w.find? id = some d := by
    intro id d hd
    have hfresh : (ruleStore k.store root entries listings).find? c.id = none :=
      hlines.fresh List.mem_cons_self
    rw [hfind, if_neg, ← hd]
    · rfl
    · rintro rfl
      cases hfresh.symm.trans hd
  refine ⟨root.id, _, c, w, Edit.applyTo_eq hrun, ?_, fun id d hd => hkept' id d (hkept id d hd),
    ⟨root, hkept' _ _ (hwritten.lines.find?_mem List.mem_cons_self), hname⟩, ?_, hsay⟩
  · exact (Space.applyTo_rewriteBy_ok hcompile).trans (Edit.applyTo_eq hrewrite)
  · rw [hfind, if_pos rfl]

/-- **Of three points in a row one edge is made**, from the first to the last, and it is shown so;
all that was there stays as it was. -/
theorem applyTransitive_ok (hk : k.InOrder) (hA : k.IsPointOf A x) (hB : k.IsPointOf B y)
    (hC : k.IsPointOf C z) (hu : k.store.Answers label x y u) (hv : k.store.Answers label y z v)
    (hbind : label ≠ Label.bind) (hnobind : label ≠ Label.nobind) :
    ∃ id later, (applyTransitive label [A, B, C]).apply k =
        (.ok ⟨s!"transitive_{label}", [⟨id, label, 1, [A, C]⟩], []⟩, later) ∧
      later.store.Answers label x z id ∧
      ∀ id c, k.store.find? id = some c → later.store.find? id = some c := by
  have hx := hk.isLivePoint_of_point hA.1
  have hz := hk.isLivePoint_of_point hC.1
  obtain ⟨e, f, hchain, hu, hv⟩ := chainOf_isOk hk hA.1 hB.1 hC.1 hu hv
  obtain ⟨root, t, c, w, hwrite, hrewrite, hkept, ⟨r, hr, hname⟩, hc, hsay⟩ :=
    exists_rewrite hk hx (hk.isLivePoint_of_point hB.1) hz hu hv hbind hnobind
  let later : Knowledge := ⟨w.buildIndex w.lookup, k.points⟩
  have hpoint : ∀ {l p}, k.IsPointOf l p → later.IsPointOf l p :=
    fun hp => hp.kept rfl fun id d hd _ => hkept id d hd
  have hA' : later.describe x = .ok A := (hpoint hA).describe (hx.mono hkept)
  have hC' : later.describe z = .ok C := (hpoint hC).describe (hz.mono hkept)
  have hsummary : later.summarize c.id = .ok ⟨c.id, label, 1, [A, C]⟩ := by
    have hends : later.describeAll c.boundary = .ok [A, C] := by
      rw [hsay.boundary]
      exact Outcome.mapM_eq_ok.mpr (.cons hA' (.cons hC' .nil))
    refine Outcome.bind_eq_ok.mpr ⟨c, resolve_eq hc, Outcome.bind_eq_ok.mpr ⟨_, hends, ?_⟩⟩
    rw [shownLabel_of_live hsay.isLive, hsay.label_eq, hsay.dimension]
    rfl
  have hedit : (Task.edit (Space.rewriteBy root [x, y, z, e, f])).apply
      ⟨t.buildIndex t.lookup, k.points⟩ = (.ok ⟨[c.id], []⟩, ⟨w, k.points⟩) := by
    rw [Task.apply_edit, hrewrite]
    rfl
  refine ⟨c.id, later, ?_, ⟨c, hc, hsay⟩, hkept⟩
  rw [apply_written hchain hwrite, Task.apply_bind_ok hedit,
    Task.apply_bind_ok (apply_buildIndex w k.points), Task.ask_bind_ok (resolve_eq hr),
    Task.ask_bind_ok (Outcome.mapM_eq_ok.mpr (.cons hsummary .nil)),
    Task.ask_bind_ok (Outcome.mapM_eq_ok.mpr .nil), hname]
  rfl

/-- **With a word of binds as label the rule is written, and cannot be read back.** -/
theorem applyTransitive_of_word (hk : k.InOrder) (hx : k.point A = .ok x) (hy : k.point B = .ok y)
    (hz : k.point C = .ok z) (hu : k.store.Answers label x y u) (hv : k.store.Answers label y z v)
    (hword : label = Label.bind ∨ label = Label.nobind) :
    ∃ cause later, (applyTransitive label [A, B, C]).apply k = (.error (.store cause), later) := by
  obtain ⟨e, f, hchain, _, _⟩ := chainOf_isOk hk hx hy hz hu hv
  obtain ⟨root, entries, listings, hwritten, hrun, hnamed, _⟩ :=
    transitiveRule_written hk.reachable.consistent label
  have hunread : ∃ cause,
      Rule.compile (.indexed (ruleStore k.store root entries listings)) root.id = .error cause := by
    cases hcompile : Rule.compile (.indexed (ruleStore k.store root entries listings)) root.id with
    | error cause => exact ⟨cause, rfl⟩
    | ok rule =>
      rcases hword with hword | hword
      · exact absurd hcompile (hwritten.compile_ne_of_bind hnamed hk.reachable.consistent
          k.store.nextId_succ_injective hword)
      · exact absurd hcompile
          (hwritten.compile_ne_of_nobind hnamed hk.reachable.consistent hword)
  obtain ⟨cause, hcompile⟩ := hunread
  let indexed := (ruleStore k.store root entries listings).buildIndex
    (ruleStore k.store root entries listings).lookup
  have hedit : (Task.edit (Space.rewriteBy root.id [x, y, z, e, f])).apply ⟨indexed, k.points⟩ =
      (.error (.store cause), ⟨indexed, k.points⟩) := by
    rw [Task.apply_edit, Space.applyTo_rewriteBy_error hcompile]
    rfl
  refine ⟨cause, ⟨indexed, k.points⟩, ?_⟩
  rw [apply_written hchain (Edit.applyTo_eq hrun), Task.apply_bind_error hedit]

end Knowledge

/-- **A rewrite succeeds whenever its premises are there**, unless its label is one of the two words
that binds are told by. For the knowledge of a document, any questions that came before, any label
and any three known points: the first edge that is not there is named, and then nothing changes; if
both are there, exactly one cell is made, an edge with the label from the first point to the last,
and none is deleted. -/
theorem rewrite_after {document : KnowledgeDocument} {k : Knowledge}
    (h : (Knowledge.build document).apply Knowledge.empty = (.ok (), k))
    (asks : List Knowledge.Ask) (label : String) {A B C : String} (hA : A ∈ k.points)
    (hB : B ∈ k.points) (hC : C ∈ k.points) :
    ∃ x y z, (k.after asks).point A = .ok x ∧ (k.after asks).point B = .ok y ∧
      (k.after asks).point C = .ok z ∧
      ((∀ e, ¬ (k.after asks).store.Answers label x y e) →
        (Knowledge.applyTransitive label [A, B, C]).apply (k.after asks) =
          (.error (.missingLink label A B), k.after asks)) ∧
      (∀ u, (k.after asks).store.Answers label x y u →
        (∀ e, ¬ (k.after asks).store.Answers label y z e) →
          (Knowledge.applyTransitive label [A, B, C]).apply (k.after asks) =
            (.error (.missingLink label B C), k.after asks)) ∧
      (∀ u v, (k.after asks).store.Answers label x y u → (k.after asks).store.Answers label y z v →
        label ≠ Label.bind → label ≠ Label.nobind →
          ∃ id later, (Knowledge.applyTransitive label [A, B, C]).apply (k.after asks) =
              (.ok ⟨s!"transitive_{label}", [⟨id, label, 1, [A, C]⟩], []⟩, later) ∧
            later.store.Answers label x z id ∧
            ∀ id c, (k.after asks).store.find? id = some c → later.store.find? id = some c) ∧
      ∀ u v, (k.after asks).store.Answers label x y u → (k.after asks).store.Answers label y z v →
        label = Label.bind ∨ label = Label.nobind →
          ∃ cause later, (Knowledge.applyTransitive label [A, B, C]).apply (k.after asks) =
            (.error (.store cause), later) := by
  have hk : k.InOrder := Knowledge.inOrder_of_build h
  have hlater := Knowledge.after_continues hk asks
  obtain ⟨_, _, hshows⟩ := Knowledge.shows_of_build h
  have hpoint : ∀ {l}, l ∈ k.points → ∃ id, (k.after asks).IsPointOf l id := by
    intro l hl
    obtain ⟨id, _, hid⟩ := Knowledge.exists_point hl
    exact ⟨id, hlater.isPointOf (hshows.isPointOf hid)⟩
  obtain ⟨x, hx⟩ := hpoint hA
  obtain ⟨y, hy⟩ := hpoint hB
  obtain ⟨z, hz⟩ := hpoint hC
  have horder := hlater.inOrder hk
  exact ⟨x, y, z, hx.1, hy.1, hz.1, Knowledge.applyTransitive_first hx.1 hy.1 hz.1,
    fun _ hu => Knowledge.applyTransitive_second horder hx.1 hy.1 hz.1 hu,
    fun _ _ hu hv => Knowledge.applyTransitive_ok horder hx hy hz hu hv,
    fun _ _ hu hv => Knowledge.applyTransitive_of_word horder hx.1 hy.1 hz.1 hu hv⟩

/-- Three links in a row, ... -/
def rowDocument : KnowledgeDocument where
  points := []
  links := [⟨"robin", "bird", "is", true, none⟩, ⟨"bird", "animal", "is", true, none⟩,
    ⟨"animal", "thing", "is", true, none⟩]
  evidence := []

/-- ... and what is known of them. -/
def rowKnowledge : Knowledge := ((Knowledge.build rowDocument).apply Knowledge.empty).2

/-- The edge that one rewrite made is a premise of the next. -/
theorem rewrite_after_row :
    ∃ k id later, (Knowledge.build rowDocument).apply Knowledge.empty = (.ok (), k) ∧
      (Knowledge.applyTransitive "is" ["robin", "animal", "thing"]).apply
          (k.after [.rewrite "is" ["robin", "bird", "animal"]]) =
        (.ok ⟨"transitive_is", [⟨id, "is", 1, ["robin", "thing"]⟩], []⟩, later) := by
  have hok : ((Knowledge.build rowDocument).apply Knowledge.empty).1.toOption = some () := by
    decide +kernel
  have hknown : ∀ l ∈ ["robin", "bird", "animal", "thing"], l ∈ rowKnowledge.points := by
    decide +kernel
  have hpoints : (rowKnowledge.point "robin").toOption = some ⟨0, 0⟩ ∧
      (rowKnowledge.point "bird").toOption = some ⟨0, 1⟩ ∧
      (rowKnowledge.point "animal").toOption = some ⟨0, 3⟩ ∧
      (rowKnowledge.point "thing").toOption = some ⟨0, 5⟩ := by decide +kernel
  have hlinks : (rowKnowledge.requireLink "is" "robin" "bird" ⟨0, 0⟩ ⟨0, 1⟩).toOption =
        some ⟨0, 2⟩ ∧
      (rowKnowledge.requireLink "is" "bird" "animal" ⟨0, 1⟩ ⟨0, 3⟩).toOption = some ⟨0, 4⟩ ∧
      (rowKnowledge.requireLink "is" "animal" "thing" ⟨0, 3⟩ ⟨0, 5⟩).toOption = some ⟨0, 6⟩ := by
    decide +kernel
  have hrun : (Knowledge.build rowDocument).apply Knowledge.empty = (.ok (), rowKnowledge) :=
    Prod.ext (Outcome.toOption_eq_some.mp hok) rfl
  simp only [List.forall_mem_cons] at hknown
  simp only [Outcome.toOption_eq_some] at hpoints hlinks
  obtain ⟨krobin, kbird, kanimal, kthing, _⟩ := hknown
  obtain ⟨hrobin, hbird, hanimal, hthing⟩ := hpoints
  obtain ⟨hrb, hba, hat⟩ := hlinks
  have hfirst := rewrite_after hrun [] "is" krobin kbird kanimal
  obtain ⟨x, y, z, hx, hy, hz, _, _, hmade, _⟩ := hfirst
  cases hx.symm.trans hrobin
  cases hy.symm.trans hbird
  cases hz.symm.trans hanimal
  have hplain : "is" ≠ Label.bind ∧ "is" ≠ Label.nobind := by decide
  obtain ⟨_, mid, hrewrite, hshortcut, hkept⟩ := hmade _ _ (Knowledge.requireLink_eq_ok hrb)
    (Knowledge.requireLink_eq_ok hba) hplain.1 hplain.2
  have hmid : rowKnowledge.after [.rewrite "is" ["robin", "bird", "animal"]] = mid := by
    show ((Knowledge.applyTransitive "is" ["robin", "bird", "animal"]).apply rowKnowledge).2 = mid
    exact congrArg Prod.snd hrewrite
  have hsecond := rewrite_after hrun [.rewrite "is" ["robin", "bird", "animal"]] "is" krobin
    kanimal kthing
  have hsame := (Knowledge.after_continues (Knowledge.inOrder_of_build hrun)
    [.rewrite "is" ["robin", "bird", "animal"]]).point_eq
  obtain ⟨x, y, z, hx, hy, hz, _, _, hmade, _⟩ := hsecond
  rw [hsame] at hx hy hz
  cases hx.symm.trans hrobin
  cases hy.symm.trans hanimal
  cases hz.symm.trans hthing
  obtain ⟨id, later, hagain, _⟩ := hmade _ _ (hmid ▸ hshortcut)
    (hmid ▸ (Knowledge.requireLink_eq_ok hat).mono hkept) hplain.1 hplain.2
  exact ⟨rowKnowledge, id, later, hrun, hagain⟩

/-- Two links in a row, with the word of binds as label, ... -/
def bindDocument : KnowledgeDocument where
  points := []
  links := [⟨"a", "b", Label.bind, true, none⟩, ⟨"b", "c", Label.bind, true, none⟩]
  evidence := []

/-- ... and what is known of them. -/
def bindKnowledge : Knowledge := ((Knowledge.build bindDocument).apply Knowledge.empty).2

/-- **Both premises are there, and the rewrite fails.** -/
theorem rewrite_after_bind :
    ∃ k x y z u v cause later, (Knowledge.build bindDocument).apply Knowledge.empty = (.ok (), k) ∧
      k.point "a" = .ok x ∧ k.point "b" = .ok y ∧ k.point "c" = .ok z ∧
      k.store.Answers Label.bind x y u ∧ k.store.Answers Label.bind y z v ∧
      (Knowledge.applyTransitive Label.bind ["a", "b", "c"]).apply k =
        (.error (.store cause), later) := by
  have hok : ((Knowledge.build bindDocument).apply Knowledge.empty).1.toOption = some () := by
    decide +kernel
  have hfacts : (bindKnowledge.point "a").toOption = some ⟨0, 0⟩ ∧
      (bindKnowledge.point "b").toOption = some ⟨0, 1⟩ ∧
      (bindKnowledge.point "c").toOption = some ⟨0, 3⟩ ∧
      (bindKnowledge.requireLink Label.bind "a" "b" ⟨0, 0⟩ ⟨0, 1⟩).toOption = some ⟨0, 2⟩ ∧
      (bindKnowledge.requireLink Label.bind "b" "c" ⟨0, 1⟩ ⟨0, 3⟩).toOption = some ⟨0, 4⟩ := by
    decide +kernel
  have hrun : (Knowledge.build bindDocument).apply Knowledge.empty = (.ok (), bindKnowledge) :=
    Prod.ext (Outcome.toOption_eq_some.mp hok) rfl
  simp only [Outcome.toOption_eq_some] at hfacts
  obtain ⟨hx, hy, hz, hab, hbc⟩ := hfacts
  have hu := Knowledge.requireLink_eq_ok hab
  have hv := Knowledge.requireLink_eq_ok hbc
  obtain ⟨cause, later, hfails⟩ := Knowledge.applyTransitive_of_word
    (Knowledge.inOrder_of_build hrun) hx hy hz hu hv (Or.inl rfl)
  exact ⟨bindKnowledge, _, _, _, _, _, cause, later, hrun, hx, hy, hz, hu, hv, hfails⟩

end CellComplex
