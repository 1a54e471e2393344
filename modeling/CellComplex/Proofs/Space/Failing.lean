import CellComplex.Proofs.Rewrite.Transaction
import CellComplex.Proofs.Space.Apply
import CellComplex.Proofs.Space.Request

/-!
# An edit that fails leaves no trace

A store has no way to take a change back. An edit that fails leaves the space as it was because
what can fail comes first: once the store on top has changed, nothing that follows can fail. This
holds of every space, whatever its stores are and whatever their cells refer to.

* `Edit.Succeeds`, `Edit.LeavesNoTrace`: at one space;
* `LeavesNoTrace.of_look`: looking first; `LeavesNoTrace.commit`: changing, and then only what
  cannot fail;
* **`leavesNoTrace_revision`**: an edge is made, gets its payload, and two others are deleted, all
  of it or nothing;
* **`Operation.fails_unchanged`**: every operation on single cells leaves the stores below alone,
  and the store on top too where it fails.
-/

namespace CellComplex

/-! ## 1. Failing and succeeding -/

namespace Edit

variable {α β : Type} {e : Edit α} {f : α → Edit β} {sp : Space}

/-- The edit does not fail. -/
def Succeeds (e : Edit α) (sp : Space) : Prop := ∃ a sp', e.apply sp = (.ok a, sp')

/-- **An edit that fails leaves the space as it was.** -/
def LeavesNoTrace (e : Edit α) (sp : Space) : Prop :=
  ∀ err sp', e.apply sp = (.error err, sp') → sp' = sp

theorem Succeeds.leavesNoTrace (h : e.Succeeds sp) : e.LeavesNoTrace sp := by
  obtain ⟨a, t, ht⟩ := h
  intro err sp' hfail
  rw [ht] at hfail
  cases hfail

theorem succeeds_pure (a : α) : (pure a : Edit α).Succeeds sp := ⟨a, sp, rfl⟩

/-- After a part that succeeded, success is that of the rest. -/
theorem Succeeds.after {a : α} {sp' : Space} (he : e.apply sp = (.ok a, sp'))
    (hf : (f a).Succeeds sp') : (e >>= f).Succeeds sp := by
  obtain ⟨b, t, ht⟩ := hf
  exact ⟨b, t, (apply_bind_ok he).trans ht⟩

/-- An edit that decides does so before it changes anything. -/
theorem leavesNoTrace_decide {choose : Space → Except StoreError (α × (Store → Store))} :
    (decide choose).LeavesNoTrace sp := by
  intro err sp' hfail
  cases hchoose : choose sp with
  | error err' =>
    rw [apply_decide_error hchoose] at hfail
    exact (congrArg Prod.snd hfail).symm
  | ok chosen =>
    rw [apply_decide_ok hchoose] at hfail
    cases hfail

/-- What is only looked at first leaves no trace, ... -/
theorem LeavesNoTrace.of_look {read : Space → Except StoreError α}
    (hf : ∀ a, read sp = .ok a → (f a).LeavesNoTrace sp) : (look read >>= f).LeavesNoTrace sp := by
  intro err sp' hfail
  cases hread : read sp with
  | error err' =>
    rw [apply_bind_error (apply_look_error hread)] at hfail
    exact (congrArg Prod.snd hfail).symm
  | ok a =>
    rw [apply_bind_ok (apply_look_ok hread)] at hfail
    exact hf a hread err sp' hfail

/-- ... and neither does a change that only what cannot fail comes after. -/
theorem LeavesNoTrace.commit (he : e.LeavesNoTrace sp)
    (hf : ∀ a sp', e.apply sp = (.ok a, sp') → (f a).Succeeds sp') :
    (e >>= f).LeavesNoTrace sp := by
  intro err sp' hfail
  cases happly : e.apply sp with
  | mk result mid =>
    cases result with
    | error err' =>
      rw [apply_bind_error happly] at hfail
      have hsame : mid = sp' := congrArg Prod.snd hfail
      exact hsame ▸ he err' mid happly
    | ok a =>
      obtain ⟨b, t, ht⟩ := hf a mid happly
      rw [apply_bind_ok happly, ht] at hfail
      cases hfail

theorem LeavesNoTrace.discard (he : e.LeavesNoTrace sp) : (discard e).LeavesNoTrace sp :=
  he.commit fun _ _ _ => succeeds_pure ()

end Edit

/-! ## 2. Cells and links -/

namespace Space

open Edit

variable {sp sp' : Space} {a b first second merged : CellId} {label : String}
variable {boundary : List CellId} {check : BoundaryCheck}

theorem leavesNoTrace_createChecked : (createChecked label boundary check).LeavesNoTrace sp := by
  intro err t hfail
  rw [apply_createChecked] at hfail
  cases hmake : Cell.make sp.lookup (sp.top.nextId 0) label boundary check with
  | error err' =>
    rw [hmake] at hfail
    exact (congrArg Prod.snd hfail).symm
  | ok c =>
    rw [hmake] at hfail
    cases hfail

theorem leavesNoTrace_link {oriented : Bool} : (link a b label oriented).LeavesNoTrace sp := by
  refine LeavesNoTrace.of_look fun found _ => ?_
  cases found with
  | none => exact leavesNoTrace_createChecked
  | some edge => exact (succeeds_pure edge).leavesNoTrace

/-! ## 3. Resolving duplicates -/

/-- Once the merged edge is made, a payload and two deletions are left, of cells that the store on
top owns. -/
theorem succeeds_replace {embedding : Embedding} (hmerged : sp.top.owns merged = true)
    (hfirst : sp.top.owns first = true) (hsecond : sp.top.owns second = true) :
    Edit.Succeeds (do
      setEmbedding merged embedding
      delete first
      delete second
      return merged) sp := by
  have hext : sp.top.Extends (sp.top.modifyAt merged.index ({ · with embedding })) :=
    Store.extends_modifyAt (fun _ => rfl) fun _ h => h
  refine Succeeds.after (apply_modifyCell hmerged) ?_
  have hfirst' : ({ sp with top := sp.top.modifyAt merged.index ({ · with embedding }) } :
      Space).top.owns first = true := hext.owns hfirst
  obtain ⟨t, ht, hmarks⟩ := apply_delete_owned hfirst'
  refine Succeeds.after ht ?_
  have hsecond' : ({ sp with top := t } : Space).top.owns second = true :=
    hmarks.owns (hext.owns hsecond)
  obtain ⟨u, hu, _⟩ := apply_delete_owned hsecond'
  exact Succeeds.after hu (succeeds_pure merged)

/-- **A revision that fails leaves no trace**, wherever the two duplicates come from: that both can
be deleted is known before the merged edge is made. -/
theorem leavesNoTrace_revision : (revision first second).LeavesNoTrace sp := by
  refine LeavesNoTrace.of_look fun pair _ => ?_
  refine LeavesNoTrace.of_look fun _ hfirst => ?_
  refine LeavesNoTrace.of_look fun _ hsecond => ?_
  refine leavesNoTrace_createChecked.commit fun made sp' hmade => ?_
  obtain ⟨c, hmake, rfl, rfl⟩ := apply_createChecked_eq_ok hmade
  have hext : sp.top.Extends (sp.top.push c) := (Change.push hmake).extends
  exact succeeds_replace
    (Store.owns_iff.mpr ⟨c, Store.find?_push_new (make_fields hmake).1⟩)
    (hext.owns (requireOwned_eq_ok.mp hfirst)) (hext.owns (requireOwned_eq_ok.mp hsecond))

theorem leavesNoTrace_choice : (choice first second).LeavesNoTrace sp := by
  refine LeavesNoTrace.of_look fun pair _ => ?_
  obtain ⟨_, x, y⟩ := pair
  show Edit.LeavesNoTrace (if x.confidence < y.confidence then _ else _) sp
  split
  · exact leavesNoTrace_decide.commit fun _ _ _ => succeeds_pure second
  · exact leavesNoTrace_decide.commit fun _ _ _ => succeeds_pure first

theorem leavesNoTrace_randomResolution {roll : UInt64} :
    (randomResolution roll first second).LeavesNoTrace sp := by
  rcases randomResolution_cases roll first second with h | h
  · exact h ▸ leavesNoTrace_revision
  · exact h ▸ leavesNoTrace_choice

end Space

/-! ## 4. Operations -/

/-- **An operation on single cells**: one that makes, links, changes, deletes or resolves cells, and
neither writes a rule, nor rewrites, nor builds the index. -/
def Operation.OnCells : Operation → Prop
  | .writeRule _ _ _ | .transitiveRule _ | .rewriteBy _ _ | .rewrite _ _ | .buildIndex => False
  | _ => True

/-- **An operation on single cells that fails changes nothing.** In every space, over whatever
stores and whatever their cells refer to, the operation leaves the stores below alone, and where it
fails the store on top is left as it was too, in all that it keeps. -/
theorem Operation.fails_unchanged (op : Operation) (hop : op.OnCells) (sp : Space) :
    (op.edit.apply sp).2.below = sp.below ∧
      ∀ err, (op.edit.apply sp).1 = .error err → (op.edit.apply sp).2 = sp := by
  refine ⟨op.below_eq sp, fun err herr => ?_⟩
  suffices htrace : op.edit.LeavesNoTrace sp from htrace err _ (Prod.ext herr rfl)
  cases op with
  | create label boundary => exact Space.leavesNoTrace_createChecked.discard
  | createListing label boundary => exact Space.leavesNoTrace_createChecked.discard
  | link a b label oriented => exact Space.leavesNoTrace_link.discard
  | linkAtom expansion atom => exact Edit.leavesNoTrace_decide
  | unlinkAtom expansion atom => exact Edit.leavesNoTrace_decide
  | delete id => exact Edit.leavesNoTrace_decide
  | setLabel id label => exact Edit.leavesNoTrace_decide
  | setEmbedding id embedding => exact Edit.leavesNoTrace_decide
  | attach id handler => exact Edit.leavesNoTrace_decide
  | revision first second => exact Space.leavesNoTrace_revision.discard
  | choice first second => exact Space.leavesNoTrace_choice.discard
  | randomResolution roll first second => exact Space.leavesNoTrace_randomResolution.discard
  | writeRule | transitiveRule | rewriteBy | rewrite | buildIndex => exact hop.elim

/-- Two points and an edge with a truth value. -/
def litPond : Store :=
  runAll (.empty 0) [.create "frog" [], .create "animal" [], .create "is" [⟨0, 0⟩, ⟨0, 1⟩],
    .setEmbedding ⟨0, 2⟩ [1, 1]]

/-- A store over it, with the same edge once more. -/
def litOverlay : Space :=
  Space.after ⟨.empty 1, [litPond]⟩
    [.create "is" [⟨0, 0⟩, ⟨0, 1⟩], .setEmbedding ⟨1, 0⟩ [1, 1]]

/-- Of the two duplicates one is in the store on top and the other only below, and the revision
fails at the second of them. -/
theorem fails_unchanged_litOverlay :
    ((Operation.revision ⟨1, 0⟩ ⟨0, 2⟩).edit.apply litOverlay).2 = litOverlay ∧
      ((Operation.revision ⟨1, 0⟩ ⟨0, 2⟩).edit.apply litOverlay).1 =
        .error (.shadowingUnsupported .cell ⟨0, 2⟩) := by
  have hfails : ((Operation.revision ⟨1, 0⟩ ⟨0, 2⟩).edit.apply litOverlay).1 =
      .error (.shadowingUnsupported .cell ⟨0, 2⟩) := rfl
  have hkeeps := (Operation.fails_unchanged (.revision ⟨1, 0⟩ ⟨0, 2⟩) trivial litOverlay).2
  exact ⟨hkeeps _ hfails, hfails⟩

end CellComplex
