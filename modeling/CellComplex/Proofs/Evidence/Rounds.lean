import CellComplex.Proofs.Evidence.Resolution

/-!
# Resolving ends under every policy

A policy may do to the space whatever it likes. The rounds of a query end nonetheless, because a
round is followed by another one only if it left fewer candidates; and they end with a complaint
exactly if a round did not.

* `Policy.Call`, `Policy.logged`: one call of a policy, and the policy that keeps a record of them;
* `Space.Rounds`: the rounds of a query, one after another, and the calls that are made in them;
* `resolveFrom_rounds`: what the loop does, and what a record of it holds;
* **`Rounds.length_le`**: there are fewer calls than candidates;
* **`Rounds.stalled_iff`**: the rounds stall exactly after a call that left no fewer candidates;
* `Policy.KeepsSight`, `Policy.Operates`: what policies do that work through operations;
* `Call.Stalls.shows`, `Rounds.shows`: when the ends of the question are in sight;
* **`queryResolving_terminates`**: for every space and every policy.
-/

namespace CellComplex

variable {ρ : Type}

/-! ## 1. Calls -/

/-- **A call of a policy**: the two duplicates, what was there before, the answer, and what was there
after. -/
structure Policy.Call (ρ : Type) where
  first : CellId
  second : CellId
  before : Space × ρ
  result : Except StoreError CellId
  after : Space × ρ

namespace Policy.Call

/-- The space when the index is built again after the call. -/
def space (call : Call ρ) : Space := (Space.buildIndex.apply call.after.1).2

/-- **The call left several candidates, and no fewer than there were.** -/
def Stalls (call : Call ρ) (label : String) (x y : CellId) : Prop :=
  2 ≤ (call.space.candidates label x y).length ∧
    (call.before.1.candidates label x y).length ≤ (call.space.candidates label x y).length

/-- The two ends of the question are in sight after the call. -/
def Shows (call : Call ρ) (x y : CellId) : Prop :=
  call.space.contains x = true ∧ call.space.contains y = true

end Policy.Call

/-- The policy, and a record of its calls. -/
def Policy.logged (policy : Policy ρ) : Policy (ρ × List (Policy.Call ρ)) :=
  fun first second (sp, own, calls) =>
    let r := policy first second (sp, own)
    (r.1, r.2.1, r.2.2, calls ++ [⟨first, second, (sp, own), r.1, r.2⟩])

namespace Space

open Edit Policy

variable {sp : Space} {policy : Policy ρ} {label l : String} {x y first second : CellId}
variable {before : Option Nat} {state : Space × ρ} {calls : List (Call ρ)} {call : Call ρ}
variable {out : Except StoreError Embedding × Space × ρ}

/-! ## 2. Rounds -/

/-- **A round that stalls**: the ends are in sight, and there are several candidates, `n` of them, and
no fewer than before the last round. -/
structure StallsAt (label : String) (x y : CellId) (before : Option Nat) (sp : Space) (n : Nat) :
    Prop where
  left : sp.contains x = true
  right : sp.contains y = true
  several : 2 ≤ (sp.candidates label x y).length
  stalled : stalled before (sp.candidates label x y).length = true
  count : (sp.candidates label x y).length = n

/-- **The rounds of a query**, with the calls that they make and what they come to; `before` is the
number of candidates before the last round. -/
inductive Rounds (policy : Policy ρ) (label : String) (x y : CellId) :
    Option Nat → Space × ρ → List (Call ρ) → Except StoreError Embedding × Space × ρ → Prop where
  /-- The question is not ambiguous. -/
  | answer {before : Option Nat} {state : Space × ρ}
      (hclear : ∀ l first second, state.1.query label x y ≠ .error (.ambiguous l first second)) :
      Rounds policy label x y before state [] (state.1.query label x y, state)
  /-- The last round left no fewer candidates. -/
  | stalled {before : Option Nat} {state : Space × ρ} {l : String} {first second : CellId}
      (hquery : state.1.query label x y = .error (.ambiguous l first second))
      (hstalled : stalled before (state.1.candidates label x y).length = true) :
      Rounds policy label x y before state []
        (.error (.resolutionStalled label (state.1.candidates label x y).length), state)
  /-- The policy fails. -/
  | failed {before : Option Nat} {state after : Space × ρ} {l : String} {first second : CellId}
      {err : StoreError} (hquery : state.1.query label x y = .error (.ambiguous l first second))
      (hgoes : stalled before (state.1.candidates label x y).length = false)
      (hpolicy : policy first second state = (.error err, after)) :
      Rounds policy label x y before state [⟨first, second, state, .error err, after⟩]
        (.error err, after)
  /-- The policy makes one of two, and another round follows. -/
  | again {before : Option Nat} {state after : Space × ρ} {l : String} {first second made : CellId}
      {calls : List (Call ρ)} {out : Except StoreError Embedding × Space × ρ}
      (hquery : state.1.query label x y = .error (.ambiguous l first second))
      (hgoes : stalled before (state.1.candidates label x y).length = false)
      (hpolicy : policy first second state = (.ok made, after))
      (hrest : Rounds policy label x y (some (state.1.candidates label x y).length)
        ((buildIndex.apply after.1).2, after.2) calls out) :
      Rounds policy label x y before state (⟨first, second, state, .ok made, after⟩ :: calls) out

/-- **The loop goes through the rounds, and a record of the policy holds their calls.** -/
theorem resolveFrom_rounds (policy : Policy ρ) (label : String) (x y : CellId)
    (before : Option Nat) (state : Space × ρ) (log : List (Call ρ)) :
    ∃ calls, Rounds policy label x y before state calls
        (resolveFrom policy label x y before state) ∧
      resolveFrom policy.logged label x y before (state.1, state.2, log) =
        ((resolveFrom policy label x y before state).1,
          (resolveFrom policy label x y before state).2.1,
          (resolveFrom policy label x y before state).2.2, log ++ calls) := by
  fun_induction resolveFrom policy label x y before state generalizing log with
  | case1 before state l first second hquery count hstalled =>
    refine ⟨[], .stalled hquery hstalled, ?_⟩
    rw [resolveFrom_stalled (state.1, state.2, log) hquery hstalled, List.append_nil]
  | case2 before state l first second hquery count hgoes err after hpolicy =>
    have hgoes : stalled before count = false := by simpa using hgoes
    refine ⟨_, .failed hquery hgoes hpolicy, ?_⟩
    rw [resolveFrom_ambiguous (state.1, state.2, log) hquery hgoes]
    simp [logged, hpolicy]
  | case3 before state l first second hquery count hgoes made sp own hpolicy ih =>
    have hgoes : stalled before count = false := by simpa using hgoes
    obtain ⟨calls, hrest, hlogged⟩ := ih (log ++ [⟨first, second, state, .ok made, (sp, own)⟩])
    refine ⟨_, .again hquery hgoes hpolicy hrest, ?_⟩
    rw [resolveFrom_ambiguous (state.1, state.2, log) hquery hgoes]
    have hcall : policy.logged first second (state.1, state.2, log) = (.ok made, sp, own,
        log ++ [⟨first, second, state, .ok made, (sp, own)⟩]) := by simp [logged, hpolicy]
    rw [hcall]
    refine hlogged.trans ?_
    rw [List.append_assoc]
    rfl
  | case4 before state hanswer =>
    refine ⟨[], .answer hanswer, ?_⟩
    rw [resolveFrom_other (state.1, state.2, log) hanswer, List.append_nil]

namespace Rounds

variable (h : Rounds policy label x y before state calls out)
include h

/-- A call is made only where the question is ambiguous, and about the first two answers. -/
theorem call_spec (hcall : call ∈ calls) :
    policy call.first call.second call.before = (call.result, call.after) ∧
      call.before.1.query label x y = .error (.ambiguous label call.first call.second) := by
  induction h with
  | answer => cases hcall
  | stalled => cases hcall
  | failed hquery _ hpolicy =>
    cases List.mem_singleton.mp hcall
    obtain ⟨_, _, rfl, _⟩ := query_eq_ambiguous.mp hquery
    exact ⟨hpolicy, hquery⟩
  | again hquery _ hpolicy _ ih =>
    rcases List.mem_cons.mp hcall with rfl | hlater
    · obtain ⟨_, _, rfl, _⟩ := query_eq_ambiguous.mp hquery
      exact ⟨hpolicy, hquery⟩
    · exact ih hlater

/-- A round that calls the policy has fewer candidates than the round before. -/
theorem lt_before {n : Nat} (hbefore : before = some n) (hcalls : calls ≠ []) :
    (state.1.candidates label x y).length < n := by
  subst hbefore
  have hfewer : ∀ {count}, Space.stalled (some n) count = false → count < n := by
    intro count hgoes
    simpa [Space.stalled] using hgoes
  cases h with
  | answer => exact absurd rfl hcalls
  | stalled => exact absurd rfl hcalls
  | failed _ hgoes => exact hfewer hgoes
  | again _ hgoes => exact hfewer hgoes

/-- **There are fewer calls than candidates.** -/
theorem length_le : calls.length ≤ (state.1.candidates label x y).length - 1 := by
  induction h with
  | answer => exact Nat.zero_le _
  | stalled => exact Nat.zero_le _
  | failed hquery =>
    have hmany := two_le_candidates hquery
    rw [List.length_singleton]
    omega
  | @again _ state after _ _ _ _ calls _ hquery _ _ hrest ih =>
    have hmany := two_le_candidates hquery
    rw [List.length_cons]
    by_cases hlast : calls = []
    · rw [hlast, List.length_nil]
      omega
    · -- the next round calls the policy again, so it has lost a candidate
      have hless := hrest.lt_before rfl hlast
      omega

/-- **A call that fails is the last one**, and the rounds come to its failure. -/
theorem failed_last {err : StoreError} (hcall : call ∈ calls) (hfails : call.result = .error err) :
    calls.getLast? = some call ∧ out = (.error err, call.after) := by
  induction h with
  | answer => cases hcall
  | stalled => cases hcall
  | failed =>
    cases List.mem_singleton.mp hcall
    cases hfails
    exact ⟨rfl, rfl⟩
  | @again _ state after _ _ _ _ calls _ _ _ _ _ ih =>
    rcases List.mem_cons.mp hcall with rfl | hlater
    · cases hfails
    · obtain ⟨hlast, hout⟩ := ih hlater
      refine ⟨?_, hout⟩
      rw [List.getLast?_cons_of_ne_nil (List.ne_nil_of_mem hlater)]
      exact hlast

/-- **The rounds stall exactly if the first one does, or one after a call**, where no call fails. -/
theorem stalled_iff_stallsAt (hmade : ∀ call ∈ calls, ∃ made, call.result = .ok made) (n : Nat) :
    out.1 = .error (.resolutionStalled l n) ↔ l = label ∧
      (StallsAt label x y before state.1 n ∨
        ∃ call ∈ calls, StallsAt label x y (some (call.before.1.candidates label x y).length)
          call.space n) := by
  induction h with
  | answer hclear =>
    refine iff_of_false query_ne_stalled fun h => ?_
    obtain ⟨_, hstalls | ⟨_, hnone, _⟩⟩ := h
    · obtain ⟨_, _, hquery⟩ := exists_ambiguous hstalls.left hstalls.right hstalls.several
      exact hclear _ _ _ hquery
    · cases hnone
  | stalled hquery hstalled =>
    obtain ⟨hx, hy, _⟩ := query_eq_ambiguous.mp hquery
    refine ⟨fun h => ?_, fun h => ?_⟩
    · cases h
      exact ⟨rfl, Or.inl ⟨hx, hy, two_le_candidates hquery, hstalled, rfl⟩⟩
    · obtain ⟨rfl, hstalls | ⟨_, hnone, _⟩⟩ := h
      · rw [hstalls.count]
      · cases hnone
  | failed =>
    obtain ⟨_, hok⟩ := hmade _ List.mem_cons_self
    cases hok
  | @again before state _ _ _ _ _ _ _ _ hgoes _ _ ih =>
    -- this round does not stall; whether the next one does is told by the call
    have hnot : ¬ StallsAt label x y before state.1 n := fun hstalls => by
      rw [hstalls.stalled] at hgoes
      cases hgoes
    rw [ih fun call hcall => hmade call (List.mem_cons_of_mem _ hcall), or_iff_right hnot,
      List.exists_mem_cons_iff]
    rfl

/-- **The rounds stall exactly after a call that left no fewer candidates**, where no call fails. -/
theorem stalled_iff (hstart : before = none)
    (hmade : ∀ call ∈ calls, ∃ made, call.result = .ok made) (n : Nat) :
    out.1 = .error (.resolutionStalled l n) ↔ l = label ∧
      ∃ call ∈ calls, call.Stalls label x y ∧ call.Shows x y ∧
        (call.space.candidates label x y).length = n := by
  have hfirst : ¬ StallsAt label x y before state.1 n := fun hstalls => by
    have hstalled := hstalls.stalled
    rw [hstart] at hstalled
    cases hstalled
  rw [h.stalled_iff_stallsAt hmade n, or_iff_right hfirst]
  refine and_congr_right fun _ => exists_congr fun call => and_congr_right fun _ => ?_
  refine ⟨fun hstalls => ?_, fun hstalls => ?_⟩
  · have hfewer := hstalls.stalled
    exact ⟨⟨hstalls.several, by simpa [Space.stalled] using hfewer⟩, ⟨hstalls.left, hstalls.right⟩,
      hstalls.count⟩
  · obtain ⟨⟨hseveral, hfewer⟩, ⟨hleft, hright⟩, hcount⟩ := hstalls
    exact ⟨hleft, hright, hseveral, by simpa [Space.stalled] using hfewer, hcount⟩

end Rounds

end Space

/-! ## 3. Ends in sight -/

/-- **A policy that takes no cell out of sight.** Deleted cells stay in sight. -/
def Policy.KeepsSight (policy : Policy ρ) : Prop :=
  ∀ first second state id, state.1.contains id = true →
    (policy first second state).2.1.contains id = true

/-- **A policy that works through operations**, whichever they are, however many, and whatever it
makes them depend on. -/
def Policy.Operates (policy : Policy ρ) : Prop :=
  ∀ first second state, ∃ ops : List Operation,
    (policy first second state).2.1 = ops.foldl (fun sp op => (op.edit.apply sp).2) state.1

/-- No operation takes a cell out of sight. -/
theorem Operation.keeps_contains (op : Operation) {sp : Space} {id : CellId}
    (h : sp.contains id = true) : (op.edit.apply sp).2.contains id = true := by
  have hlayers : ∀ sp : Space, sp.contains id =
      ((sp.top.find? id).isSome || ((Space.lookupIn sp.below).find id).isSome) :=
    fun sp => Option.isSome_or
  have htop : (sp.top.find? id).isSome = true →
      ((op.edit.apply sp).2.top.find? id).isSome = true := by
    by_cases hop : op = .buildIndex
    · subst hop
      exact fun hid => hid
    · intro hid
      obtain ⟨c, hc⟩ := Option.isSome_iff_exists.mp hid
      obtain ⟨d, hd, _⟩ := (Operation.stepwise hop sp).2.extends.find id c hc
      exact Option.isSome_iff_exists.mpr ⟨d, hd⟩
  rw [hlayers, Bool.or_eq_true] at h ⊢
  rw [op.below_eq sp]
  exact h.imp_left htop

/-- **Operations take nothing out of sight.** -/
theorem Policy.Operates.keepsSight {policy : Policy ρ} (h : policy.Operates) :
    policy.KeepsSight := by
  intro first second state id hid
  obtain ⟨ops, hops⟩ := h first second state
  have hrun : ∀ sp : Space, sp.contains id = true →
      (ops.foldl (fun sp op => (op.edit.apply sp).2) sp).contains id = true := by
    clear hops
    induction ops with
    | nil => exact fun _ hsp => hsp
    | cons op ops ih => exact fun sp hsp => ih _ (op.keeps_contains hsp)
  rw [hops]
  exact hrun state.1 hid

/-- In a sound space the ends of several candidates are in sight. -/
theorem Policy.Call.Stalls.shows {call : Policy.Call ρ} {label : String} {x y : CellId}
    (h : call.Stalls label x y) (hs : call.space.lookup.Sound) : call.Shows x y := by
  obtain ⟨id, hid⟩ := List.exists_mem_of_length_pos (Nat.lt_of_lt_of_le Nat.zero_lt_two h.1)
  obtain ⟨_, c, hc, hsay⟩ := Space.mem_candidates.mp hid
  have hface : ∀ z ∈ c.boundary, call.space.contains z = true := fun z hz => by
    obtain ⟨f, hf, _⟩ := hs.lower id c hc z hz
    exact Option.isSome_iff_exists.mpr ⟨f, hf⟩
  rw [hsay.boundary] at hface
  exact ⟨hface x (by simp), hface y (by simp)⟩

/-- The ends of a question stay in sight of a policy that takes nothing away. -/
theorem Space.Rounds.shows {policy : Policy ρ} {label : String} {x y : CellId}
    {before : Option Nat} {state : Space × ρ} {calls : List (Policy.Call ρ)}
    {out : Except StoreError Embedding × Space × ρ} (h : Rounds policy label x y before state calls out)
    (hkeeps : policy.KeepsSight) {call : Policy.Call ρ} (hcall : call ∈ calls) :
    call.Shows x y := by
  obtain ⟨hpolicy, hquery⟩ := h.call_spec hcall
  obtain ⟨hx, hy, _⟩ := query_eq_ambiguous.mp hquery
  have hafter : ∀ id, call.before.1.contains id = true → call.space.contains id = true := by
    intro id hid
    have hleft := hkeeps call.first call.second call.before id hid
    rw [hpolicy] at hleft
    exact Operation.keeps_contains .buildIndex hleft
  exact ⟨hafter x hx, hafter y hy⟩

/-! ## 4. Queries -/

/-- **Resolving ends under every policy, and is never silent about a round that got nowhere.** For
every space, whatever its index is like, and every policy, whatever it does to the space, a query
that resolves duplicates comes to an end, and makes fewer calls of the policy than there were
candidates; `calls` are these calls, each where the question was ambiguous and about the first two
candidates. A call that fails is the last one, and the query yields its failure. Otherwise the query
stalls exactly if some call left both ends in sight and at least two candidates, and no fewer than
there were before it; what it says is the number that was left. If the calls leave sound spaces, or
if the policy takes no cell out of sight, the ends are in sight, so that only the numbers count. -/
theorem queryResolving_terminates (policy : Policy ρ) (label : String) (x y : CellId)
    (state : Space × ρ) :
    ∃ (calls : List (Policy.Call ρ)) (result : Except StoreError Embedding) (after : Space × ρ),
      Space.queryResolving policy label x y state = (result, after) ∧
      Space.queryResolving policy.logged label x y (state.1, state.2, []) =
        (result, after.1, after.2, calls) ∧
      calls.length ≤ (state.1.candidates label x y).length - 1 ∧
      (∀ call ∈ calls, policy call.first call.second call.before = (call.result, call.after) ∧
        call.before.1.query label x y = .error (.ambiguous label call.first call.second)) ∧
      (∀ call ∈ calls, ∀ err, call.result = .error err →
        calls.getLast? = some call ∧ (result, after) = (.error err, call.after)) ∧
      ((∀ call ∈ calls, ∃ made, call.result = .ok made) →
        (∀ l n, result = .error (.resolutionStalled l n) ↔ l = label ∧
          ∃ call ∈ calls, call.Stalls label x y ∧ call.Shows x y ∧
            (call.space.candidates label x y).length = n) ∧
        ((policy.KeepsSight ∨ ∀ call ∈ calls, call.space.lookup.Sound) →
          ∀ l n, result = .error (.resolutionStalled l n) ↔ l = label ∧
            ∃ call ∈ calls, call.Stalls label x y ∧
              (call.space.candidates label x y).length = n)) := by
  obtain ⟨calls, hrounds, hlogged⟩ := Space.resolveFrom_rounds policy label x y none state []
  have hstalls := fun hmade (l : String) (n : Nat) => hrounds.stalled_iff (l := l) rfl hmade n
  refine ⟨calls, _, _, rfl, hlogged, hrounds.length_le, fun call hcall => hrounds.call_spec hcall,
    fun call hcall err => hrounds.failed_last hcall, fun hmade => ⟨hstalls hmade, ?_⟩⟩
  intro hsight l n
  rw [hstalls hmade l n]
  refine and_congr_right fun _ => exists_congr fun call => and_congr_right fun hcall => ?_
  refine and_congr_right fun hmany => and_iff_right ?_
  rcases hsight with hkeeps | hsound
  · exact hrounds.shows hkeeps hcall
  · exact hmany.shows (hsound call hcall)

/-- A policy that keeps both duplicates. -/
def stubborn : Policy Unit := Policy.ofEdit fun first _ => pure first

theorem stubborn_keepsSight : stubborn.KeepsSight :=
  Policy.Operates.keepsSight fun _ _ _ => ⟨[], rfl⟩

/-- Of three edges the policy leaves three, and the query says so. -/
theorem queryResolving_terminates_stubborn :
    ∃ (calls : List (Policy.Call Unit)) (after : Space × Unit),
      Space.queryResolving stubborn.logged "is" ⟨0, 0⟩ ⟨0, 1⟩ (.ofStore threeEdges, (), []) =
        (.error (.resolutionStalled "is" 3), after.1, after.2, calls) ∧ calls.length ≤ 2 ∧
      ∃ call ∈ calls, call.Stalls "is" ⟨0, 0⟩ ⟨0, 1⟩ := by
  have hcands : (Space.ofStore threeEdges).candidates "is" ⟨0, 0⟩ ⟨0, 1⟩ =
      [⟨0, 2⟩, ⟨0, 3⟩, ⟨0, 4⟩] := by decide +kernel
  have hquery := Space.query_eq_ambiguous.mpr ⟨rfl, rfl, rfl, _, hcands⟩
  obtain ⟨rebuilt, hrebuilt⟩ : ∃ sp, sp = (Space.buildIndex.apply (.ofStore threeEdges)).2 :=
    ⟨_, rfl⟩
  have hagain : rebuilt.candidates "is" ⟨0, 0⟩ ⟨0, 1⟩ = [⟨0, 2⟩, ⟨0, 3⟩, ⟨0, 4⟩] := by
    rw [hrebuilt]
    decide +kernel
  have hquery' := Space.query_eq_ambiguous.mpr
    ⟨by rw [hrebuilt]; rfl, by rw [hrebuilt]; rfl, rfl, _, hagain⟩
  have hfirst : Space.resolveFrom stubborn "is" ⟨0, 0⟩ ⟨0, 1⟩ none (.ofStore threeEdges, ()) =
      Space.resolveFrom stubborn "is" ⟨0, 0⟩ ⟨0, 1⟩ (some 3) (rebuilt, ()) := by
    rw [Space.resolveFrom_ambiguous (.ofStore threeEdges, ()) hquery rfl, hcands, hrebuilt]
    rfl
  have hsecond : Space.resolveFrom stubborn "is" ⟨0, 0⟩ ⟨0, 1⟩ (some 3) (rebuilt, ()) =
      (.error (.resolutionStalled "is" 3), rebuilt, ()) := by
    rw [Space.resolveFrom_stalled (rebuilt, ()) hquery' (by rw [hagain]; rfl), hagain]
    rfl
  obtain ⟨calls, result, after, hrun, hlogged, hlength, hspec, _, hends⟩ :=
    queryResolving_terminates stubborn "is" ⟨0, 0⟩ ⟨0, 1⟩ (.ofStore threeEdges, ())
  rw [hcands] at hlength
  obtain ⟨rfl, rfl⟩ := Prod.mk.inj (hrun.symm.trans (hfirst.trans hsecond))
  have hmade : ∀ call ∈ calls, ∃ made, call.result = .ok made := fun call hcall =>
    ⟨call.first, (congrArg Prod.fst (hspec call hcall).1).symm⟩
  obtain ⟨_, call, hcall, hstalls, _⟩ :=
    ((hends hmade).2 (Or.inl stubborn_keepsSight) "is" 3).mp rfl
  exact ⟨calls, _, hlogged, hlength, call, hcall, hstalls⟩

end CellComplex
