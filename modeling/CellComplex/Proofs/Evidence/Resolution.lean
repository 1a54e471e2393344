import CellComplex.Proofs.Evidence.Settling

/-!
# What resolving duplicates leaves

A query with several answers lets a policy work round by round until one answer is left. A round
makes an edge and deletes two, or deletes one; which of the two it does may change with every round.

* `Policy.counted`: a policy that counts its rounds, and does nothing else than before;
* **`policy_round`**: a round of any policy leaves one answer less, or changes nothing because a
  truth value is missing;
* `Resolved`: what the rounds leave; `resolved_one`, `resolved_error`, `resolved_round`: how they
  end and go on;
* **`resolveFrom_settles`**: the rounds together, by induction on the number of answers;
* **`queryResolving_survivor`**: where every answer has a truth value one answer is left.
-/

namespace CellComplex

/-! ## 1. Policies -/

/-- The policy, and how often it was asked. -/
def Policy.counted {ρ : Type} (policy : Policy ρ) : Policy (ρ × Nat) :=
  fun first second (sp, own, used) =>
    let r := policy first second (sp, own)
    (r.1, r.2.1, r.2.2, used + 1)

namespace Space

open Edit Store

variable {ρ : Type} {policy : Policy ρ} {label : String} {x y first second : CellId}
variable {before : Option Nat}

theorem resolveFrom_answer (state : Space × ρ) {e : Embedding}
    (h : state.1.query label x y = .ok e) :
    resolveFrom policy label x y before state = (.ok e, state) := by
  unfold resolveFrom
  rw [h]

theorem resolveFrom_stalled (state : Space × ρ) {l : String}
    (h : state.1.query label x y = .error (.ambiguous l first second))
    (hstalled : stalled before (state.1.candidates label x y).length = true) :
    resolveFrom policy label x y before state =
      (.error (.resolutionStalled label (state.1.candidates label x y).length), state) := by
  rw [resolveFrom, h]
  simp only [hstalled]
  rfl

theorem resolveFrom_ambiguous (state : Space × ρ) {l : String}
    (h : state.1.query label x y = .error (.ambiguous l first second))
    (hgoes : stalled before (state.1.candidates label x y).length = false) :
    resolveFrom policy label x y before state =
      match policy first second state with
      | (.error e, state') => (.error e, state')
      | (.ok _, sp, own) =>
        resolveFrom policy label x y (some (state.1.candidates label x y).length)
          ((buildIndex.apply sp).2, own) := by
  rw [resolveFrom, h]
  simp only [hgoes]
  rfl

/-- Any other answer, a failure too, ends the rounds. -/
theorem resolveFrom_other (state : Space × ρ)
    (h : ∀ l first second, state.1.query label x y ≠ .error (.ambiguous l first second)) :
    resolveFrom policy label x y before state = (state.1.query label x y, state) := by
  rw [resolveFrom]
  split
  · next l first second hquery => exact absurd hquery (h l first second)
  · rfl

/-- Counting does not change what is counted. -/
theorem resolveFrom_counted (before : Option Nat) (state : Space × ρ) (used : Nat) :
    (let r := resolveFrom policy.counted label x y before (state.1, state.2, used)
     (r.1, r.2.1, r.2.2.1)) = resolveFrom policy label x y before state := by
  fun_induction resolveFrom policy label x y before state generalizing used with
  | case1 before state _ first second hquery count hstalled =>
    rw [resolveFrom_stalled (state.1, state.2, used) hquery hstalled]
  | case2 before state _ first second hquery count hgoes err state' hpolicy =>
    have hgoes' : stalled before (state.1.candidates label x y).length = false := by
      simpa using hgoes
    have hcounted : policy.counted first second (state.1, state.2, used) =
        (.error err, state'.1, state'.2, used + 1) := by simp [Policy.counted, hpolicy]
    rw [resolveFrom_ambiguous (state.1, state.2, used) hquery hgoes', hcounted]
  | case3 before state _ first second hquery count hgoes made sp own hpolicy ih =>
    have hgoes' : stalled before (state.1.candidates label x y).length = false := by
      simpa using hgoes
    have hcounted : policy.counted first second (state.1, state.2, used) =
        (.ok made, sp, own, used + 1) := by simp [Policy.counted, hpolicy]
    rw [resolveFrom_ambiguous (state.1, state.2, used) hquery hgoes', hcounted]
    exact ih (used + 1)
  | case4 before state hanswer =>
    rw [resolveFrom_other (state.1, state.2, used) hanswer]

/-- A policy that has a name revises or chooses. -/
theorem policy_cases (kind : PolicyKind) (first second : CellId) (sp : Space) (dice : Dice) :
    ∃ (e : Edit CellId) (dice' : Dice), (e = revision first second ∨ e = choice first second) ∧
      kind.policy first second (sp, dice) = ((e.apply sp).1, (e.apply sp).2, dice') := by
  cases kind with
  | revision => exact ⟨_, dice, Or.inl rfl, rfl⟩
  | choice => exact ⟨_, dice, Or.inr rfl, rfl⟩
  | random => exact ⟨_, dice.next.2, randomResolution_cases (dice.roll dice.used) _ _, rfl⟩

section Loop

variable {s : Store} {edges : List CellId}

/-- **A round of any policy** leaves one answer less, or changes nothing and fails because a truth
value is missing. -/
theorem policy_round (hs : s.Reachable) (hx : s.lookup.IsPoint x) (hy : s.lookup.IsPoint y)
    (hedges : s.AnsweredBy label x y edges) (hfirst : first ∈ edges) (hsecond : second ∈ edges)
    (hne : first ≠ second) (kind : PolicyKind) (dice : Dice) :
    ∃ dice', (∃ made t after, kind.policy first second (ofStore s, dice) =
          (.ok made, ofStore t, dice') ∧ t.Reachable ∧ Round label x y s edges t after) ∨
      ((∃ err, kind.policy first second (ofStore s, dice) = (.error err, ofStore s, dice')) ∧
        ∃ z ∈ edges, ¬ s.HasTruth z) := by
  obtain ⟨e, dice', he, hpolicy⟩ := policy_cases kind first second (ofStore s) dice
  refine ⟨dice', ?_⟩
  rw [hpolicy]
  by_cases htruth : s.HasTruth first ∧ s.HasTruth second
  · left
    obtain ⟨made, t, after, happly, hround⟩ : ∃ made t after,
        e.apply (ofStore s) = (.ok made, ofStore t) ∧ Round label x y s edges t after := by
      rcases he with rfl | rfl
      · exact revision_round hs.consistent hx hy hedges hfirst hsecond hne htruth
      · exact choice_round hedges hfirst hsecond hne htruth
    have hreach : t.Reachable := by
      rcases he with rfl | rfl
      · exact hs.of_edit (.revision first second) rfl happly
      · exact hs.of_edit (.choice first second) rfl happly
    exact ⟨made, t, after, by rw [happly], hreach, hround⟩
  · right
    obtain ⟨err, hpair⟩ := duplicatePair_untrue htruth
    have happly : e.apply (ofStore s) = (.error err, ofStore s) := by
      rcases he with rfl | rfl <;> exact apply_bind_error (apply_look_error hpair)
    refine ⟨⟨err, by rw [happly]⟩, ?_⟩
    by_cases hz : s.HasTruth first
    · exact ⟨second, hsecond, fun hz' => htruth ⟨hz, hz'⟩⟩
    · exact ⟨first, hfirst, hz⟩

/-! ## 2. All rounds -/

/-- **What the rounds leave** of a store with some answers. -/
structure Resolved (label : String) (x y : CellId) (s : Store) (before : List CellId) (t : Store)
    (after : List CellId) (rounds : Nat) (result : Except StoreError Embedding) : Prop where
  reachable : t.Reachable
  fresh : t.isStale = false
  settles : Settles label x y s before t after
  /-- The last answer is never taken away. -/
  nonempty : after ≠ []
  /-- One answer is left by as many rounds as there were other answers, ... -/
  rounds_eq : ∀ e, after = [e] → rounds + 1 = before.length
  /-- ... and it is the answer. -/
  answer : ∀ e c, after = [e] → t.find? e = some c → result = .ok c.embedding
  /-- With truth values everywhere one answer is left. -/
  single : (2 ≤ before.length → ∀ z ∈ before, s.HasTruth z) → ∃ e, after = [e]

/-- One answer is the end. -/
theorem resolved_one (hs : s.Reachable) (hfresh : s.isStale = false)
    (hedges : s.AnsweredBy label x y edges) {e : CellId} {c : Cell} (hone : edges = [e])
    (hc : s.find? e = some c) : Resolved label x y s edges s edges 0 (.ok c.embedding) where
  reachable := hs
  fresh := hfresh
  settles := .refl hedges
  nonempty := by simp [hone]
  rounds_eq _ _ := by simp [hone]
  answer e' c' he hc' := by
    obtain rfl : e = e' := by simpa [hone] using he
    cases hc.symm.trans hc'
    rfl
  single _ := ⟨e, hone⟩

/-- A missing truth value is the end too. -/
theorem resolved_error (hs : s.Reachable) (hfresh : s.isStale = false)
    (hedges : s.AnsweredBy label x y edges) (hmany : 2 ≤ edges.length)
    (huntrue : ∃ z ∈ edges, ¬ s.HasTruth z) (err : StoreError) :
    Resolved label x y s edges s edges 1 (.error err) where
  reachable := hs
  fresh := hfresh
  settles := .refl hedges
  nonempty := fun h => by simp [h] at hmany
  rounds_eq e he := by simp [he] at hmany
  answer e c he := by simp [he] at hmany
  single htrue := by
    obtain ⟨z, hz, hno⟩ := huntrue
    exact absurd (htrue hmany z hz) hno

/-- A round before the others. -/
theorem resolved_round {t u : Store} {mid after : List CellId} {rounds : Nat}
    {result : Except StoreError Embedding} (h : Round label x y s edges t mid)
    (h' : Resolved label x y (t.buildIndex t.lookup) mid u after rounds result)
    (hmany : 2 ≤ edges.length) : Resolved label x y s edges u after (1 + rounds) result where
  reachable := h'.reachable
  fresh := h'.fresh
  settles := by
    have hindexed : Settles label x y s edges (t.buildIndex t.lookup) mid :=
      ⟨h.settles.start, h'.settles.start, h.settles.liveCount, h.settles.kept, h.settles.back⟩
    exact hindexed.trans h'.settles
  nonempty := h'.nonempty
  rounds_eq e he := by
    have hlen := h.length
    have hrounds := h'.rounds_eq e he
    omega
  answer := h'.answer
  single htrue := h'.single fun _ => h.hasTruth (htrue hmany)

section Known

variable (hs : s.Reachable) (hfresh : s.isStale = false) (hx : s.IsLivePoint x)
  (hedges : s.AnsweredBy label x y edges)
include hs hfresh hx hedges

theorem length_candidates : ((ofStore s).candidates label x y).length = edges.length :=
  ((hs.answeredBy_candidates hfresh hx.isLive).perm hedges).length_eq

variable (hy : s.IsLivePoint y)
include hy

/-- The one answer is found. -/
theorem exists_answer (hone : edges.length = 1) :
    ∃ e c, edges = [e] ∧ s.find? e = some c ∧
      (ofStore s).query label x y = .ok c.embedding := by
  obtain ⟨cx, hcx, _⟩ := hx.isLive
  obtain ⟨cy, hcy, _⟩ := hy.isLive
  obtain ⟨e, rfl⟩ := List.length_eq_one_iff.mp hone
  have hcands : (ofStore s).candidates label x y = [e] :=
    List.perm_singleton.mp ((hs.answeredBy_candidates hfresh hx.isLive).perm hedges)
  obtain ⟨c, hc, _⟩ := (hedges.mem_iff e).mp List.mem_cons_self
  refine ⟨e, c, rfl, hc, ?_⟩
  exact query_of_one ((find?_ofStore s x).trans hcx) ((find?_ofStore s y).trans hcy) hcands
    ((find?_ofStore s e).trans hc)

/-- Of several answers two are named. -/
theorem exists_ambiguity (hmany : 2 ≤ edges.length) :
    ∃ first ∈ edges, ∃ second ∈ edges, first ≠ second ∧
      (ofStore s).query label x y = .error (.ambiguous label first second) := by
  have hperm : ((ofStore s).candidates label x y).Perm edges :=
    (hs.answeredBy_candidates hfresh hx.isLive).perm hedges
  have hknown : ∀ {z}, s.IsLivePoint z → (ofStore s).contains z = true := fun hz => by
    obtain ⟨c, hc, _⟩ := hz.isLive
    simp [contains, find?_ofStore, hc]
  obtain ⟨first, second, hquery⟩ :=
    exists_ambiguous (hknown hx) (hknown hy) (hperm.length_eq ▸ hmany)
  obtain ⟨_, _, _, rest, hcands⟩ := query_eq_ambiguous.mp hquery
  have hne : first ≠ second := by
    have hnodup : (first :: second :: rest).Nodup := hcands ▸ candidates_nodup
    rintro rfl
    simp at hnodup
  have hmem : ∀ z ∈ [first, second], z ∈ edges := fun z hz =>
    hperm.mem_iff.mp (hcands ▸ List.mem_append_left rest hz)
  exact ⟨first, hmem first (by simp), second, hmem second (by simp), hne, hquery⟩

end Known

end Loop

/-- **The rounds together**, by induction on the number of answers. They never stall, since every
round before left more answers than there are now. -/
theorem resolveFrom_settles (kind : PolicyKind) {n : Nat} :
    ∀ (s : Store) (edges : List CellId) (before : Option Nat) (dice : Dice) (used : Nat),
      s.Reachable → s.isStale = false → s.IsLivePoint x → s.IsLivePoint y →
      s.AnsweredBy label x y edges → edges.length = n + 1 → (∀ m, before = some m → n + 1 < m) →
      ∃ result t after dice' rounds,
        resolveFrom kind.policy.counted label x y before (ofStore s, dice, used) =
          (result, ofStore t, dice', used + rounds) ∧
        Resolved label x y s edges t after rounds result := by
  induction n with
  | zero =>
    intro s edges before dice used hs hfresh hx hy hedges hlen hbefore
    obtain ⟨e, c, hone, hc, hquery⟩ := exists_answer hs hfresh hx hedges hy hlen
    exact ⟨_, s, edges, dice, 0, resolveFrom_answer _ hquery,
      resolved_one hs hfresh hedges hone hc⟩
  | succ n ih =>
    intro s edges before dice used hs hfresh hx hy hedges hlen hbefore
    have hmany : 2 ≤ edges.length := by omega
    obtain ⟨first, hfirst, second, hsecond, hne, hquery⟩ :=
      exists_ambiguity hs hfresh hx hedges hy hmany
    have hcount : ((ofStore s).candidates label x y).length = n + 2 :=
      (length_candidates hs hfresh hx hedges).trans hlen
    have hgoes : stalled before ((ofStore s).candidates label x y).length = false := by
      rw [hcount]
      cases before with
      | none => rfl
      | some m =>
        have hlt : n + 2 < m := hbefore m rfl
        simpa [stalled] using hlt
    rw [resolveFrom_ambiguous (ofStore s, dice, used) hquery hgoes]
    obtain ⟨dice', hround | ⟨⟨err, hpolicy⟩, huntrue⟩⟩ :=
      policy_round hs hx.isPoint hy.isPoint hedges hfirst hsecond hne kind dice
    · obtain ⟨made, t, mid, hpolicy, ht, hround⟩ := hround
      have hcounted : kind.policy.counted first second (ofStore s, dice, used) =
          (.ok made, ofStore t, dice', used + 1) := by simp [Policy.counted, hpolicy]
      have hmid : mid.length = n + 1 := by
        have hless := hround.length
        omega
      have hx' : t.IsLivePoint x := hround.settles.isLivePoint hx
      have hy' : t.IsLivePoint y := hround.settles.isLivePoint hy
      have hstop : (t.buildIndex t.lookup).AnsweredBy label x y mid :=
        ⟨hround.settles.stop.nodup, hround.settles.stop.mem_iff⟩
      obtain ⟨result, u, after, dice'', rounds, hrun, hresolved⟩ :=
        ih _ mid (some (n + 2)) dice' (used + 1) ht.buildIndex isStale_buildIndex hx' hy' hstop hmid
          fun m hm => by cases hm; omega
      refine ⟨result, u, after, dice'', 1 + rounds, ?_, resolved_round hround hresolved hmany⟩
      rw [hcounted, hcount]
      simp only [apply_buildIndex]
      rw [hrun, Nat.add_assoc]
    · have hcounted : kind.policy.counted first second (ofStore s, dice, used) =
          (.error err, ofStore s, dice', used + 1) := by simp [Policy.counted, hpolicy]
      rw [hcounted]
      exact ⟨_, s, edges, dice', 1, rfl, resolved_error hs hfresh hedges hmany huntrue err⟩

end Space

/-- **A query that resolves duplicates leaves one answer.** In a reachable store with a fresh index,
let the live edges that say "x label y" be `edges`, at least one, and all with truth values if they
are several. Then the query succeeds under every policy and however the dice fall; a single edge
says "x label y" afterwards, and the evidence is its payload. There are as many live cells less as
there were edges but one, the policy was asked just as often, all cells but the edges are as they
were, and the index is fresh. -/
theorem queryResolving_survivor {s : Store} (hs : s.Reachable) (hfresh : s.isStale = false)
    {label : String} {x y : CellId} (hx : s.IsLivePoint x) (hy : s.IsLivePoint y)
    {edges : List CellId} (hnodup : edges.Nodup)
    (hedges : ∀ id, id ∈ edges ↔ s.Answers label x y id) (hne : edges ≠ [])
    (htruth : 2 ≤ edges.length → ∀ id ∈ edges, s.HasTruth id) (kind : PolicyKind) (dice : Dice) :
    ∃ (t : Store) (e : CellId) (c : Cell) (dice' : Dice),
      Space.queryResolving kind.policy label x y (.ofStore s, dice) =
        (.ok c.embedding, .ofStore t, dice') ∧
      Space.queryResolving kind.policy.counted label x y (.ofStore s, dice, 0) =
        (.ok c.embedding, .ofStore t, dice', edges.length - 1) ∧
      t.find? e = some c ∧ (∀ id, t.Answers label x y id ↔ id = e) ∧
      t.liveCount + (edges.length - 1) = s.liveCount ∧
      (∀ id c, s.find? id = some c → id ∉ edges → t.find? id = some c) ∧
      t.isStale = false := by
  have hlen : edges.length = (edges.length - 1) + 1 := by
    have hpos := List.length_pos_of_ne_nil hne
    omega
  obtain ⟨result, t, after, dice', rounds, hrun, hresolved⟩ :=
    Space.resolveFrom_settles kind s edges none dice 0 hs hfresh hx hy ⟨hnodup, hedges⟩ hlen
      fun m hm => by cases hm
  obtain ⟨e, rfl⟩ := hresolved.single htruth
  have hmem : ∀ id, t.Answers label x y id ↔ id = e := fun id =>
    (hresolved.settles.stop.mem_iff id).symm.trans List.mem_singleton
  obtain ⟨c, hc, _⟩ := (hmem e).mpr rfl
  obtain rfl : result = .ok c.embedding := hresolved.answer e c rfl hc
  have hrounds : rounds = edges.length - 1 := by
    have hcount := hresolved.rounds_eq e rfl
    omega
  have hplain : Space.queryResolving kind.policy label x y (.ofStore s, dice) =
      (.ok c.embedding, .ofStore t, dice') := by
    unfold Space.queryResolving
    rw [← Space.resolveFrom_counted none (.ofStore s, dice) 0, hrun]
  refine ⟨t, e, c, dice', hplain, ?_, hc, hmem, ?_, hresolved.settles.kept, hresolved.fresh⟩
  · unfold Space.queryResolving
    rw [hrun, hrounds, Nat.zero_add]
  · have hcount := hresolved.settles.liveCount
    rw [List.length_singleton] at hcount
    omega

/-- Three edges from one point to another, with one label and each with a truth value. -/
def threeEdges : Store :=
  runAll (.empty 0) [.create "a" [], .create "b" [], .create "is" [⟨0, 0⟩, ⟨0, 1⟩],
    .create "is" [⟨0, 0⟩, ⟨0, 1⟩], .create "is" [⟨0, 0⟩, ⟨0, 1⟩], .setEmbedding ⟨0, 2⟩ [1, 0.9],
    .setEmbedding ⟨0, 3⟩ [0.5, 0.8], .setEmbedding ⟨0, 4⟩ [0, 0.4], .buildIndex]

/-- Dice that fall low once and high ever after: the first round revises, the second chooses. -/
theorem queryResolving_survivor_threeEdges :
    ∃ t e dice', (Space.queryResolving PolicyKind.random.policy.counted "is" ⟨0, 0⟩ ⟨0, 1⟩
        (.ofStore threeEdges, ⟨fun k => if k = 0 then 0 else 9223372036854775808, 0⟩, 0)).2 =
          (.ofStore t, dice', 2) ∧
      t.liveCount = 3 ∧ ∀ id, t.Answers "is" ⟨0, 0⟩ ⟨0, 1⟩ id ↔ id = e := by
  have hreach : threeEdges.Reachable := (Store.Reachable.empty 0).runAll _
  have hfresh : threeEdges.isStale = false := by decide +kernel
  have hx : threeEdges.IsLivePoint ⟨0, 0⟩ := ⟨_, rfl, rfl, rfl⟩
  have hy : threeEdges.IsLivePoint ⟨0, 1⟩ := ⟨_, rfl, rfl, rfl⟩
  have hcands : (Space.ofStore threeEdges).candidates "is" ⟨0, 0⟩ ⟨0, 1⟩ =
      [⟨0, 2⟩, ⟨0, 3⟩, ⟨0, 4⟩] := by decide +kernel
  have hedges : threeEdges.AnsweredBy "is" ⟨0, 0⟩ ⟨0, 1⟩ [⟨0, 2⟩, ⟨0, 3⟩, ⟨0, 4⟩] :=
    hcands ▸ hreach.answeredBy_candidates hfresh hx.isLive
  have htruth : ∀ id ∈ [⟨0, 2⟩, ⟨0, 3⟩, ⟨0, 4⟩], threeEdges.HasTruth id := by
    simp only [List.forall_mem_cons]
    exact ⟨⟨_, _, rfl, rfl⟩, ⟨_, _, rfl, rfl⟩, ⟨_, _, rfl, rfl⟩, by simp⟩
  obtain ⟨t, e, c, dice', _, hrun, _, hmem, hcount, _⟩ :=
    queryResolving_survivor hreach hfresh hx hy hedges.nodup hedges.mem_iff (List.cons_ne_nil _ _)
      (fun _ => htruth) .random ⟨fun k => if k = 0 then 0 else 9223372036854775808, 0⟩
  have hlive : threeEdges.liveCount = 5 := by decide +kernel
  refine ⟨t, e, dice', by rw [hrun]; rfl, ?_, hmem⟩
  have hlen : [(⟨0, 2⟩ : CellId), ⟨0, 3⟩, ⟨0, 4⟩].length - 1 = 2 := rfl
  omega

end CellComplex
