import CellComplex.Evidence.Resolution
import CellComplex.Proofs.Space.Edit
import CellComplex.Proofs.Store.Frame
import CellComplex.Rule.Draft

/-!
# The changes that edits are made of

Whatever an edit does to the store on top of a space, index building apart, it does by four kinds of
change. What holds of each kind holds of every edit, failing ones among them.

* `Change`: the four kinds, with what is checked before each; `Changes`: any number of changes;
* `Edit.Stepwise`: an edit that changes the store on top by changes only, and the stores below not
  at all; closed under sequences, loops and branches;
* **`stepwise_createChecked`** … **`stepwise_transitiveRule`**: the edits of the library, except
  rewriting, whose cells are made before the store changes.
-/

namespace CellComplex

/-! ## 1. Changes -/

/-- **One change of the store on top of `below`.** -/
inductive Change (below : List Store) : Store → Store → Prop where
  /-- A cell that was made for the next place enters. -/
  | push {s : Store} {c : Cell} {label : String} {boundary : List CellId} {check : BoundaryCheck}
      (hmake : Cell.make (Space.mk s below).lookup (s.nextId 0) label boundary check = .ok c) :
      Change below s (s.push c)
  /-- A live cell is marked. -/
  | delete {s : Store} {id : CellId} {c : Cell} (hc : s.find? id = some c)
      (hlive : c.isLive = true) : Change below s (s.deleteAt id.index)
  /-- A cell gets another label, payload or handler. -/
  | modify {s : Store} {id : CellId} {c : Cell} {f : Cell → Cell} (hc : s.find? id = some c)
      (hform : ∀ c, (f c).form = c.form) (hmark : ∀ c, (f c).deleted = c.deleted) :
      Change below s (s.modifyAt id.index f)
  /-- A point becomes the name of a cell that it does not name. -/
  | link {s : Store} {expansion atom : CellId} {x y : Cell}
      (hx : (Space.mk s below).find? expansion = some x)
      (hy : (Space.mk s below).find? atom = some y) (hname : Space.requireNameable x y = .ok ())
      (hnew : atom ∉ (Space.mk s below).atomsOf expansion) :
      Change below s (s.linkAtom expansion atom)

/-- Any number of changes. -/
def Changes (below : List Store) : Store → Store → Prop := Relation.ReflTransGen (Change below)

/-! ## 2. Edits -/

namespace Edit

variable {α β : Type} {e : Edit α} {f : α → Edit β} {sp sp' : Space}

/-- At one space: the edit leaves the stores below alone and changes the one on top by changes. -/
def StepsAt (e : Edit α) (sp : Space) : Prop :=
  (e.apply sp).2.below = sp.below ∧ Changes sp.below sp.top (e.apply sp).2.top

/-- **The edit changes the store on top by changes, and the stores below not at all.** -/
def Stepwise (e : Edit α) : Prop := ∀ sp, e.StepsAt sp

theorem StepsAt.bind (he : e.StepsAt sp)
    (hf : ∀ a sp', e.apply sp = (.ok a, sp') → (f a).StepsAt sp') : (e >>= f).StepsAt sp := by
  unfold StepsAt at he ⊢
  cases h : e.apply sp with
  | mk result sp' =>
    rw [h] at he
    cases result with
    | error err =>
      rw [apply_bind_error h]
      exact he
    | ok a =>
      rw [apply_bind_ok h]
      obtain ⟨hbelow, hsteps⟩ := hf a sp' h
      obtain ⟨hbelow', hsteps'⟩ := he
      rw [hbelow'] at hbelow hsteps
      exact ⟨hbelow, hsteps'.trans hsteps⟩

theorem Stepwise.bind (he : e.Stepwise) (hf : ∀ a, (f a).Stepwise) : (e >>= f).Stepwise :=
  fun sp => (he sp).bind fun a sp' _ => hf a sp'

theorem stepwise_pure (a : α) : (pure a : Edit α).Stepwise := fun _ => ⟨rfl, .refl⟩

theorem stepwise_throw (err : StoreError) : (throw err : Edit α).Stepwise := fun _ => ⟨rfl, .refl⟩

/-- An edit that decides is stepwise if what it decides on is. -/
theorem stepwise_decide {choose : Space → Except StoreError (α × (Store → Store))}
    (h : ∀ sp a change, choose sp = .ok (a, change) → Changes sp.below sp.top (change sp.top)) :
    (decide choose).Stepwise := by
  intro sp
  unfold StepsAt
  cases hc : choose sp with
  | error err =>
    rw [apply_decide_error hc]
    exact ⟨rfl, .refl⟩
  | ok r =>
    rw [apply_decide_ok hc]
    exact ⟨rfl, h sp r.1 r.2 hc⟩

theorem stepwise_look {read : Space → Except StoreError α} : (look read).Stepwise := by
  intro sp
  unfold StepsAt
  cases h : read sp with
  | error err =>
    rw [apply_look_error h]
    exact ⟨rfl, .refl⟩
  | ok a =>
    rw [apply_look_ok h]
    exact ⟨rfl, .refl⟩

theorem Stepwise.mapM {xs : List α} (hf : ∀ a, (f a).Stepwise) : (xs.mapM f).Stepwise := by
  induction xs with
  | nil => exact stepwise_pure []
  | cons x xs ih =>
    rw [List.mapM_cons]
    exact (hf x).bind fun y => ih.bind fun ys => stepwise_pure (y :: ys)

theorem Stepwise.forM {xs : List α} {f : α → Edit Unit} (hf : ∀ a, (f a).Stepwise) :
    (xs.forM f).Stepwise := by
  induction xs with
  | nil => exact stepwise_pure ()
  | cons x xs ih => exact (hf x).bind fun _ => ih

theorem Stepwise.foldlM {xs : List α} {f : β → α → Edit β} (hf : ∀ b a, (f b a).Stepwise) (b : β) :
    (xs.foldlM f b).Stepwise := by
  induction xs generalizing b with
  | nil => exact stepwise_pure b
  | cons x xs ih =>
    rw [List.foldlM_cons]
    exact (hf b x).bind ih

theorem Stepwise.discard (he : e.Stepwise) : (discard e).Stepwise :=
  he.bind fun _ => stepwise_pure ()

end Edit

/-! ## 3. Cells, links and marks -/

namespace Space

open Edit

variable {a b id : CellId} {label : String} {boundary : List CellId} {check : BoundaryCheck}

theorem stepwise_createChecked : (createChecked label boundary check).Stepwise := by
  intro sp
  unfold StepsAt
  rw [apply_createChecked]
  cases hmake : Cell.make sp.lookup (sp.top.nextId 0) label boundary check with
  | error err => exact ⟨rfl, .refl⟩
  | ok c => exact ⟨rfl, .single (.push hmake)⟩

theorem stepwise_create : (create label boundary).Stepwise := stepwise_createChecked

theorem stepwise_createListing : (createListing label boundary).Stepwise := stepwise_createChecked

theorem stepwise_link {oriented : Bool} : (link a b label oriented).Stepwise := by
  refine stepwise_look.bind fun found => ?_
  cases found with
  | none => exact stepwise_create
  | some edge => exact stepwise_pure edge

theorem resolve_eq_ok {sp : Space} {c : Cell} : sp.resolve id = .ok c ↔ sp.find? id = some c :=
  Lookup.resolve_eq_ok

theorem stepwise_linkAtom : (linkAtom a b).Stepwise := by
  refine stepwise_decide fun sp u change h => ?_
  obtain ⟨x, hx, h⟩ := Outcome.bind_eq_ok.mp h
  obtain ⟨y, hy, h⟩ := Outcome.bind_eq_ok.mp h
  obtain ⟨_, hname, h⟩ := Outcome.bind_eq_ok.mp h
  split at h
  · cases h
  · next hnew =>
    cases h
    exact .single (.link (resolve_eq_ok.mp hx) (resolve_eq_ok.mp hy) hname hnew)

theorem stepwise_unlinkAtom : (unlinkAtom a b).Stepwise := stepwise_look

theorem requireOwned_eq_ok {sp : Space} : sp.requireOwned id = .ok () ↔ sp.top.owns id = true := by
  unfold requireOwned
  split
  · next h => exact iff_of_true rfl h
  · next h =>
    refine iff_of_false (fun h' => ?_) h
    split at h' <;> cases h'

theorem stepwise_delete : (delete id).Stepwise := by
  refine stepwise_decide fun sp u change h => ?_
  obtain ⟨_, hown, h⟩ := Outcome.bind_eq_ok.mp h
  obtain ⟨c, hc⟩ := Store.owns_iff.mp (requireOwned_eq_ok.mp hown)
  rw [hc] at h
  split at h
  · next hlive =>
    cases h
    exact .single (.delete hc hlive)
  · cases h
    exact .refl

/-- A change of an owned cell that keeps its form and its mark. -/
theorem stepwise_modifyCell {f : Cell → Cell} (hform : ∀ c, (f c).form = c.form)
    (hmark : ∀ c, (f c).deleted = c.deleted) : (modifyCell id f).Stepwise := by
  refine stepwise_decide fun sp u change h => ?_
  obtain ⟨_, hown, h⟩ := Outcome.bind_eq_ok.mp h
  obtain ⟨c, hc⟩ := Store.owns_iff.mp (requireOwned_eq_ok.mp hown)
  cases h
  exact .single (.modify hc hform hmark)

theorem stepwise_setLabel : (setLabel id label).Stepwise :=
  stepwise_modifyCell (fun _ => rfl) fun _ => rfl

theorem stepwise_setEmbedding {embedding : Embedding} : (setEmbedding id embedding).Stepwise :=
  stepwise_modifyCell (fun _ => rfl) fun _ => rfl

theorem stepwise_attach {handler : Option String} : (attach id handler).Stepwise := by
  refine stepwise_decide fun sp u change h => ?_
  split at h
  · next hown =>
    obtain ⟨c, hc⟩ := Store.owns_iff.mp hown
    cases h
    exact .single (.modify hc (fun _ => rfl) fun _ => rfl)
  · cases h

/-! ## 4. Resolving duplicates -/

theorem areDuplicates_iff {c d : Cell} : areDuplicates c d = true ↔
    c.isEdge = true ∧ d.isEdge = true ∧ c.label = d.label ∧ c.boundary = d.boundary := by
  unfold areDuplicates
  rw [Bool.and_eq_true, Bool.and_eq_true, Bool.and_eq_true, beq_iff_eq, beq_iff_eq, and_assoc,
    and_assoc]

theorem stepwise_revision : (revision a b).Stepwise := by
  refine stepwise_look.bind fun pair => ?_
  refine stepwise_look.bind fun _ => ?_
  refine stepwise_look.bind fun _ => ?_
  refine stepwise_create.bind fun merged => ?_
  refine stepwise_setEmbedding.bind fun _ => ?_
  refine stepwise_delete.bind fun _ => ?_
  exact stepwise_delete.bind fun _ => stepwise_pure merged

theorem stepwise_choice : (choice a b).Stepwise := by
  refine stepwise_look.bind fun pair => ?_
  obtain ⟨_, x, y⟩ := pair
  show Edit.Stepwise (if x.confidence < y.confidence then _ else _)
  split
  · exact stepwise_delete.bind fun _ => stepwise_pure b
  · exact stepwise_delete.bind fun _ => stepwise_pure a

/-- Chance revises or chooses. -/
theorem randomResolution_cases (roll : UInt64) (a b : CellId) :
    randomResolution roll a b = revision a b ∨ randomResolution roll a b = choice a b := by
  unfold randomResolution
  split
  · exact Or.inl rfl
  · exact Or.inr rfl

theorem stepwise_randomResolution {roll : UInt64} : (randomResolution roll a b).Stepwise := by
  rcases randomResolution_cases roll a b with h | h
  · exact h ▸ stepwise_revision
  · exact h ▸ stepwise_choice

end Space

/-! ## 5. Writing rules -/

namespace RuleDraft

open Edit

variable {draft : RuleDraft}

theorem stepwise_start {name : String} : (start name).Stepwise :=
  Space.stepwise_create.bind fun _ => stepwise_pure _

theorem stepwise_add {clause : Clause} : (draft.add clause).Stepwise := by
  cases clause with
  | bind pattern replacement =>
    refine stepwise_look.bind fun cell => ?_
    exact Space.stepwise_create.bind fun _ => stepwise_pure _
  | _ => exact Space.stepwise_create.bind fun _ => stepwise_pure _

theorem stepwise_list {rule : CellId} {scaffoldLabel listingLabel : String}
    {points cells : List CellId} :
    (list rule scaffoldLabel listingLabel points cells).Stepwise :=
  (Stepwise.mapM fun _ => Space.stepwise_create).bind fun _ => Space.stepwise_createListing

theorem stepwise_finish : draft.finish.Stepwise := by
  have hproduct : Stepwise (do
      if !draft.productPoints.isEmpty then
        let _ ← list draft.rule Label.productScaffold Label.product draft.productPoints
          draft.product
      return draft.rule) := by
    cases draft.productPoints.isEmpty with
    | true => exact stepwise_pure draft.rule
    | false => exact stepwise_list.bind fun _ => stepwise_pure draft.rule
  unfold finish
  cases draft.patternPoints.isEmpty with
  | true => exact (stepwise_throw _).bind fun _ => stepwise_list.bind fun _ => hproduct
  | false => exact stepwise_list.bind fun _ => hproduct

end RuleDraft

/-- What is said of a rule, with the draft at hand. -/
def Says {α : Type} (m : StateT RuleDraft (ExceptT StoreError (StateM Space)) α) : Prop :=
  ∀ draft, Edit.Stepwise (m draft)

theorem says_say (clause : Clause) : Says (say clause) := fun _ => RuleDraft.stepwise_add

theorem Says.bind {α β : Type} {m : StateT RuleDraft (ExceptT StoreError (StateM Space)) α}
    {f : α → StateT RuleDraft (ExceptT StoreError (StateM Space)) β} (hm : Says m)
    (hf : ∀ a, Says (f a)) : Says (m >>= f) :=
  fun draft => (hm draft).bind fun r => hf r.1 r.2

theorem says_transitiveClauses (label : String) : Says (transitiveClauses label) := by
  unfold transitiveClauses
  repeat' refine (says_say _).bind fun _ => ?_
  exact fun draft => Edit.stepwise_pure _

theorem stepwise_transitiveRule {label : String} : (transitiveRule label).Stepwise := by
  refine RuleDraft.stepwise_start.bind fun draft => ?_
  exact (says_transitiveClauses label draft).bind fun r => RuleDraft.stepwise_finish

end CellComplex
