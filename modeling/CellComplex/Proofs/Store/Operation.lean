import CellComplex.Proofs.Rewrite.Staging
import CellComplex.Proofs.Store.Consistent

/-!
# Runs of a store

Everything that can be asked of a store, and the stores that come of asking.

* `Operation`: one thing to ask, with all that is given to it; `Operation.edit` is the edit that
  answers, and `Operation.run` the store it leaves behind, failing or not;
* `runAll`, `Store.Reachable`: any sequence of operations, from an empty store;
* **`Operation.changes`**: every operation but index building is made of changes;
* **`Store.Reachable.consistent`**: every reachable store is consistent;
* **`runAll_consistent`**: what a store keeps agrees after every run.
-/

namespace CellComplex

/-! ## 1. Operations -/

/-- **What can be asked of a store.** -/
inductive Operation where
  | create (label : String) (boundary : List CellId)
  | createListing (label : String) (boundary : List CellId)
  | link (a b : CellId) (label : String) (oriented : Bool)
  | linkAtom (expansion atom : CellId)
  | unlinkAtom (expansion atom : CellId)
  | delete (id : CellId)
  | setLabel (id : CellId) (label : String)
  | setEmbedding (id : CellId) (embedding : Embedding)
  | attach (id : CellId) (handler : Option String)
  | revision (first second : CellId)
  | choice (first second : CellId)
  | randomResolution (roll : UInt64) (first second : CellId)
  /-- A rule is started, clauses are said, and the rule is finished or left. -/
  | writeRule (name : String) (clauses : List Clause) (finished : Bool)
  | transitiveRule (label : String)
  | rewriteBy (rule : CellId) (selection : List CellId)
  /-- The rule may have been read from any store, at any time. -/
  | rewrite (rule : Rule) (selection : List CellId)
  | buildIndex

/-- Says a clause; one that fails leaves the draft as it was. -/
def RuleDraft.attempt (draft : RuleDraft) (clause : Clause) : Edit RuleDraft := fun sp =>
  match (draft.add clause).apply sp with
  | (.ok said, sp) => (.ok said.2, sp)
  | (.error _, sp) => (.ok draft, sp)

/-- Writes a rule clause by clause, whichever of them fail. -/
def writeRule (name : String) (clauses : List Clause) (finished : Bool) : Edit Unit := do
  let draft ← RuleDraft.start name
  let draft ← clauses.foldlM RuleDraft.attempt draft
  if finished then
    discard draft.finish

namespace Operation

/-- The edit that answers. -/
def edit : Operation → Edit Unit
  | .create label boundary => discard (Space.create label boundary)
  | .createListing label boundary => discard (Space.createListing label boundary)
  | .link a b label oriented => discard (Space.link a b label oriented)
  | .linkAtom expansion atom => Space.linkAtom expansion atom
  | .unlinkAtom expansion atom => Space.unlinkAtom expansion atom
  | .delete id => Space.delete id
  | .setLabel id label => Space.setLabel id label
  | .setEmbedding id embedding => Space.setEmbedding id embedding
  | .attach id handler => Space.attach id handler
  | .revision first second => discard (Space.revision first second)
  | .choice first second => discard (Space.choice first second)
  | .randomResolution roll first second => discard (Space.randomResolution roll first second)
  | .writeRule name clauses finished => CellComplex.writeRule name clauses finished
  | .transitiveRule label => discard (CellComplex.transitiveRule label)
  | .rewriteBy rule selection => discard (Space.rewriteBy rule selection)
  | .rewrite rule selection => discard (Space.rewrite rule selection)
  | .buildIndex => Space.buildIndex

/-- The store that an operation leaves behind, failing or not. -/
def run (op : Operation) (s : Store) : Store := (op.edit.applyTo s).2

end Operation

/-- The store that some operations leave behind, one after the other. -/
def runAll (s : Store) (ops : List Operation) : Store := ops.foldl (fun s op => op.run s) s

/-- **A store that operations make of an empty one.** -/
inductive Store.Reachable : Store → Prop where
  | empty (id : Nat) : Reachable (.empty id)
  | step {s : Store} (op : Operation) (h : Reachable s) : Reachable (op.run s)

theorem runAll_append (s : Store) (ops ops' : List Operation) :
    runAll s (ops ++ ops') = runAll (runAll s ops) ops' := List.foldl_append

theorem Store.Reachable.runAll {s : Store} (h : s.Reachable) (ops : List Operation) :
    (CellComplex.runAll s ops).Reachable := by
  induction ops generalizing s with
  | nil => exact h
  | cons op ops ih => exact ih (h.step op)

/-! ## 2. Operations are made of changes -/

theorem RuleDraft.stepwise_attempt {draft : RuleDraft} {clause : Clause} :
    (draft.attempt clause).Stepwise := by
  intro sp
  have hadd : (draft.add clause).StepsAt sp := RuleDraft.stepwise_add sp
  unfold Edit.StepsAt at hadd ⊢
  have happly : (draft.attempt clause).apply sp = match (draft.add clause).apply sp with
    | (.ok said, sp) => (.ok said.2, sp)
    | (.error _, sp) => (.ok draft, sp) := rfl
  rw [happly]
  cases h : (draft.add clause).apply sp with
  | mk result sp' =>
    rw [h] at hadd
    cases result with
    | ok said => exact hadd
    | error err => exact hadd

theorem stepwise_writeRule {name : String} {clauses : List Clause} {finished : Bool} :
    (writeRule name clauses finished).Stepwise := by
  refine RuleDraft.stepwise_start.bind fun draft => ?_
  refine (Edit.Stepwise.foldlM (fun _ _ => RuleDraft.stepwise_attempt) draft).bind fun draft => ?_
  cases finished with
  | false => exact Edit.stepwise_pure ()
  | true => exact RuleDraft.stepwise_finish.discard

theorem Operation.stepwise {op : Operation} (hop : op ≠ .buildIndex) : op.edit.Stepwise := by
  cases op with
  | create label boundary => exact Space.stepwise_create.discard
  | createListing label boundary => exact Space.stepwise_createListing.discard
  | link a b label oriented => exact Space.stepwise_link.discard
  | linkAtom expansion atom => exact Space.stepwise_linkAtom
  | unlinkAtom expansion atom => exact Space.stepwise_unlinkAtom
  | delete id => exact Space.stepwise_delete
  | setLabel id label => exact Space.stepwise_setLabel
  | setEmbedding id embedding => exact Space.stepwise_setEmbedding
  | attach id handler => exact Space.stepwise_attach
  | revision first second => exact Space.stepwise_revision.discard
  | choice first second => exact Space.stepwise_choice.discard
  | randomResolution roll first second => exact Space.stepwise_randomResolution.discard
  | writeRule name clauses finished => exact stepwise_writeRule
  | transitiveRule label => exact stepwise_transitiveRule.discard
  | rewriteBy rule selection => exact Space.stepwise_rewriteBy.discard
  | rewrite rule selection => exact Space.stepwise_rewrite.discard
  | buildIndex => exact absurd rfl hop

/-- **Every operation but index building is made of changes.** -/
theorem Operation.changes {op : Operation} (hop : op ≠ .buildIndex) (s : Store) :
    Changes [] s (op.run s) := (Operation.stepwise hop (.ofStore s)).2

/-- No operation touches the stores below. -/
theorem Operation.below_eq (op : Operation) (sp : Space) :
    (op.edit.apply sp).2.below = sp.below := by
  by_cases hop : op = .buildIndex
  · subst hop
    rfl
  · exact (Operation.stepwise hop sp).1

theorem Operation.run_buildIndex (s : Store) :
    Operation.buildIndex.run s = s.buildIndex s.lookup :=
  congrArg s.buildIndex (Space.lookup_ofStore s)

/-! ## 3. Reachable stores are consistent -/

/-- A change leaves a consistent store consistent. -/
theorem Change.consistent {s t : Store} (hs : s.Consistent) (h : Change [] s t) : t.Consistent := by
  cases h with
  | push hmake =>
    have hmake' := hmake
    rw [show (Space.mk s []).lookup = s.lookup from Space.lookup_ofStore s] at hmake'
    exact hs.push hmake'
  | delete hc hlive => exact hs.deleteAt
  | modify hc hform hmark => exact hs.modifyAt hform
  | @link expansion atom x y hx hy hname hnew =>
    have hfind : ∀ id, (Space.mk s []).find? id = s.find? id := fun id => Option.or_none
    rw [hfind] at hx hy
    unfold Space.requireNameable Space.requirePoint at hname
    split at hname
    · cases hname
    · next hpos =>
      split at hname
      · next hzero => exact hs.linkAtom ⟨x, hx, Nat.one_le_iff_ne_zero.mpr hpos⟩ ⟨y, hy, hzero⟩
      · cases hname

theorem Changes.consistent {s t : Store} (hs : s.Consistent) (h : Changes [] s t) :
    t.Consistent := by
  induction h with
  | refl => exact hs
  | tail _ hstep ih => exact hstep.consistent ih

theorem Operation.consistent {s : Store} (hs : s.Consistent) (op : Operation) :
    (op.run s).Consistent := by
  by_cases hop : op = .buildIndex
  · rw [hop, Operation.run_buildIndex]
    exact hs.restamp _ _
  · exact (Operation.changes hop s).consistent hs

/-- **Every reachable store is consistent.** -/
theorem Store.Reachable.consistent {s : Store} (h : s.Reachable) : s.Consistent := by
  induction h with
  | empty id => exact consistent_empty id
  | step op _ ih => exact op.consistent ih

/-- **What a store keeps agrees after every run**, failing operations among them: the fields of
`Store.Consistent`, and beside them no closure is empty and the links are counted right. -/
theorem runAll_consistent (id : Nat) (ops : List Operation) :
    (runAll (.empty id) ops).Consistent ∧
      (∀ x c, (runAll (.empty id) ops).find? x = some c → ∃ p, p ∈ c.closure) ∧
      ∃ links : List (CellId × CellId), links.Nodup ∧
        (∀ e a, (e, a) ∈ links ↔ a ∈ (runAll (.empty id) ops).atomsOf e) ∧
        (runAll (.empty id) ops).atomLinkCount = links.length := by
  have hs : (runAll (.empty id) ops).Consistent :=
    ((Store.Reachable.empty id).runAll ops).consistent
  refine ⟨hs, fun x c hc => hs.closure_ne_empty hc, (runAll (.empty id) ops).links,
    Store.links_nodup, fun e a => Store.mem_links, Store.length_links.symm⟩

end CellComplex
