import CellComplex.Proofs.Evidence.Rounds
import CellComplex.Proofs.Space.Link

/-!
# History is append-only

Cells enter behind all other cells and at the end of their layer. Marks of deletion and atom links
are made, and nothing takes them back. The generation has counted every cell once, and a second time
when it was deleted. Four kinds of change are all there is to show it for; every operation and every
question whose duplicates a policy resolves is made of them.

* `Store.Appends`: the later store is the earlier one with something added behind;
* `Store.Counted`: what the generation counts;
* `Change.appends`, `Change.counted`: one change; `Operation.appends`, `Operation.counted`: one
  operation, in a store over whatever others;
* `Deed`: all that can be asked of a store; **`Deed.exists_operations`**: it comes down to
  operations; `Store.through`: a history;
* **`history_appends`**: every history of every store that grew.
-/

namespace CellComplex

namespace Store

/-! ## 1. What is added, and what is counted -/

/-- What all cells are made of, oldest first. -/
def forms (s : Store) : List Form := s.cells.toList.map Cell.form

/-- The number of cells that are deleted. -/
def deletedCount (s : Store) : Nat := s.cells.countP Cell.deleted

/-- **The later store is the earlier one with something added behind**: the cells that were there
keep their places and what they are made of, and the layers begin as they were. -/
structure Appends (s t : Store) : Prop extends s.Extends t where
  forms : s.forms <+: t.forms
  layer : ∀ n, s.layer n <+: t.layer n
  layerCount_le : s.layerCount ≤ t.layerCount
  expansions : ∀ e a, e ∈ s.expansionsOf a → e ∈ t.expansionsOf a

/-- **The generation has counted every cell, and the deleted ones twice.** -/
def Counted (s : Store) : Prop := s.generation = s.size + s.deletedCount

variable {s t u : Store} {c : Cell}

theorem Appends.refl (s : Store) : s.Appends s where
  toExtends := .refl s
  forms := List.prefix_rfl
  layer _ := List.prefix_rfl
  layerCount_le := Nat.le_refl _
  expansions _ _ h := h

theorem Appends.trans (h : s.Appends t) (h' : t.Appends u) : s.Appends u where
  toExtends := h.toExtends.trans h'.toExtends
  forms := h.forms.trans h'.forms
  layer n := (h.layer n).trans (h'.layer n)
  layerCount_le := Nat.le_trans h.layerCount_le h'.layerCount_le
  expansions e a ha := h'.expansions e a (h.expansions e a ha)

theorem forms_push : (s.push c).forms = s.forms ++ [c.form] := by
  show (s.cells.push c).toList.map Cell.form = s.cells.toList.map Cell.form ++ [c.form]
  rw [Array.toList_push, List.map_append, List.map_singleton]

theorem forms_modifyAt {i : Nat} {f : Cell → Cell} (hf : ∀ c, (f c).form = c.form) :
    (s.modifyAt i f).forms = s.forms := by
  show (s.cells.modify i f).toList.map Cell.form = s.cells.toList.map Cell.form
  refine List.ext_getElem? fun j => ?_
  rw [List.getElem?_map, List.getElem?_map, Array.getElem?_toList, Array.getElem?_toList,
    Array.getElem?_modify]
  split
  · rw [Option.map_map]
    exact congrArg (fun g => s.cells[j]?.map g) (funext hf)
  · rfl

/-- Every cell is alive or deleted. -/
theorem liveCount_add_deletedCount (s : Store) : s.liveCount + s.deletedCount = s.size := by
  have hnot : s.deletedCount = s.cells.countP fun c => ¬ c.isLive = true := by
    refine congrArg (s.cells.countP ·) (funext fun c => ?_)
    unfold Cell.isLive
    cases c.deleted <;> rfl
  rw [hnot]
  exact (Array.size_eq_countP_add_countP (p := Cell.isLive)).symm

end Store

/-! ## 2. Changes and operations -/

section Changes

variable {below : List Store} {s t : Store}

/-- **A change only adds.** -/
theorem Change.appends (h : Change below s t) : s.Appends t := by
  have hextends := h.extends
  cases h with
  | @push c label boundary check hmake =>
    refine ⟨hextends, ?_, fun n => ?_, ?_, fun _ _ he => he⟩
    · exact Store.forms_push ▸ List.prefix_append _ _
    · rw [Store.layer_push]
      split
      · exact List.prefix_append _ _
      · exact List.prefix_rfl
    · exact Store.layerCount_push ▸ Nat.le_max_left _ _
  | @delete id c hc hlive =>
    have hforms : (s.deleteAt id.index).forms = s.forms := Store.forms_modifyAt fun _ => rfl
    exact ⟨hextends, hforms ▸ List.prefix_rfl, fun _ => List.prefix_rfl, Nat.le_refl _,
      fun _ _ he => he⟩
  | modify hc hform hmark =>
    exact ⟨hextends, Store.forms_modifyAt hform ▸ List.prefix_rfl, fun _ => List.prefix_rfl,
      Nat.le_refl _, fun _ _ he => he⟩
  | link hx hy hname hnew =>
    refine ⟨hextends, List.prefix_rfl, fun _ => List.prefix_rfl, Nat.le_refl _, fun e a he => ?_⟩
    exact Store.mem_expansionsOf_linkAtom.mpr (Or.inl he)

theorem Changes.appends (h : Changes below s t) : s.Appends t := by
  induction h with
  | refl => exact .refl s
  | tail _ hstep ih => exact ih.trans hstep.appends

/-- **A change counts what it makes and what it deletes**, and nothing else. -/
theorem Change.counted (hs : s.Counted) (h : Change below s t) : t.Counted := by
  have hcount : s.generation = s.size + s.deletedCount := hs
  have hsum := s.liveCount_add_deletedCount
  have hsum' := t.liveCount_add_deletedCount
  show t.generation = t.size + t.deletedCount
  cases h with
  | @push c label boundary check hmake =>
    have hlive := Store.liveCount_push (s := s) (c := c)
    have hsize := Store.size_push (s := s) (c := c)
    have hnew : c.isLive = true := Store.isLive_iff.mpr (make_fields hmake).2.2.2
    have hgeneration : (s.push c).generation = s.generation + 1 := rfl
    rw [if_pos hnew] at hlive
    omega
  | @delete id c hc hlive =>
    have hless := Store.liveCount_deleteAt hc hlive
    have hsize : (s.deleteAt id.index).size = s.size := Store.size_modifyAt
    have hgeneration : (s.deleteAt id.index).generation = s.generation + 1 := rfl
    omega
  | @modify id c f hc hform hmark =>
    have hsame := Store.liveCount_modifyAt (f := f) hc
    have hsize := Store.size_modifyAt (s := s) (i := id.index) (f := f)
    have hgeneration : (s.modifyAt id.index f).generation = s.generation := rfl
    have hmark' : (f c).isLive = c.isLive := congrArg not (hmark c)
    rw [hmark'] at hsame
    omega
  | link hx hy hname hnew => exact hcount

theorem Changes.counted (hs : s.Counted) (h : Changes below s t) : t.Counted := by
  induction h with
  | refl => exact hs
  | tail _ hstep ih => exact hstep.counted ih

end Changes

/-- **An operation only adds**, in a store over whatever others. -/
theorem Operation.appends (op : Operation) (sp : Space) :
    sp.top.Appends (op.edit.apply sp).2.top := by
  by_cases hop : op = .buildIndex
  · -- the index is all that is built
    subst hop
    have hsame := Store.Appends.refl sp.top
    exact ⟨⟨hsame.id_eq, hsame.size_le, hsame.find, hsame.links⟩, hsame.forms, hsame.layer,
      hsame.layerCount_le, hsame.expansions⟩
  · exact (Operation.stepwise hop sp).2.appends

theorem Operation.counted (op : Operation) {sp : Space} (h : sp.top.Counted) :
    (op.edit.apply sp).2.top.Counted := by
  by_cases hop : op = .buildIndex
  · subst hop
    exact h
  · exact (Operation.stepwise hop sp).2.counted h

theorem Store.Grown.counted {s : Store} (h : s.Grown) : s.Counted := by
  induction h with
  | empty id => rfl
  | step op _ ih => exact op.counted ih

/-! ## 3. Questions that are settled by a policy -/

/-- The space that some operations leave behind, failing or not, one after the other. -/
def Space.perform (sp : Space) (ops : List Operation) : Space :=
  ops.foldl (fun sp op => (op.edit.apply sp).2) sp

/-- The policies that have a name work through operations. -/
theorem PolicyKind.operates (kind : PolicyKind) : kind.policy.Operates := by
  intro first second state
  cases kind with
  | revision => exact ⟨[.revision first second], Edit.apply_discard.symm⟩
  | choice => exact ⟨[.choice first second], Edit.apply_discard.symm⟩
  | random =>
    exact ⟨[.randomResolution (state.2.roll state.2.used) first second], Edit.apply_discard.symm⟩

/-- **The rounds of a question come down to operations**, if those of the policy do: the index is
built in between. -/
theorem Policy.Operates.resolveFrom {ρ : Type} {policy : Policy ρ} (h : policy.Operates)
    (label : String) (x y : CellId) (before : Option Nat) (state : Space × ρ) :
    ∃ ops, (Space.resolveFrom policy label x y before state).2.1 = state.1.perform ops := by
  fun_induction Space.resolveFrom policy label x y before state with
  | case1 before state => exact ⟨[], rfl⟩
  | case2 before state _ first second _ count _ err after hpolicy =>
    obtain ⟨ops, hops⟩ := h first second state
    rw [hpolicy] at hops
    exact ⟨ops, hops⟩
  | case3 before state _ first second _ count _ made sp own hpolicy ih =>
    obtain ⟨ops, hops⟩ := h first second state
    obtain ⟨rest, hrest⟩ := ih
    rw [hpolicy] at hops
    refine ⟨ops ++ .buildIndex :: rest, hrest.trans ?_⟩
    have hsp : sp = state.1.perform ops := hops
    rw [hsp, Space.perform, Space.perform, Space.perform, List.foldl_append]
    rfl
  | case4 before state => exact ⟨[], rfl⟩

/-! ## 4. Histories -/

/-- **All that can be asked of a store, alone or over others**: an operation, or a question whose
duplicates are resolved by a policy that works through operations. -/
inductive Deed where
  | operation (op : Operation)
  | settle {ρ : Type} (policy : Policy ρ) (operates : policy.Operates) (own : ρ) (label : String)
      (x y : CellId)

namespace Deed

/-- The space that is left behind, whatever the answer is. -/
def run : Deed → Space → Space
  | .operation op, sp => (op.edit.apply sp).2
  | .settle policy _ own label x y, sp => (Space.queryResolving policy label x y (sp, own)).2.1

/-- **It all comes down to operations.** -/
theorem exists_operations (deed : Deed) (sp : Space) : ∃ ops, deed.run sp = sp.perform ops := by
  cases deed with
  | operation op => exact ⟨[op], rfl⟩
  | settle policy operates own label x y => exact operates.resolveFrom label x y none (sp, own)

end Deed

/-- What some operations do to a store over others, and to the others. -/
theorem Space.perform_appends (sp : Space) (ops : List Operation) :
    (sp.perform ops).below = sp.below ∧ sp.top.Appends (sp.perform ops).top ∧
      (sp.top.Grown → (sp.perform ops).top.Grown) := by
  induction ops generalizing sp with
  | nil => exact ⟨rfl, .refl sp.top, fun h => h⟩
  | cons op ops ih =>
    obtain ⟨hbelow, happends, hgrown⟩ := ih (op.edit.apply sp).2
    exact ⟨hbelow.trans (op.below_eq sp), (op.appends sp).trans happends,
      fun h => hgrown (.step op h)⟩

/-- The store that a history leaves behind; each deed is done over stores of its own. -/
def Store.through (s : Store) (history : List (List Store × Deed)) : Store :=
  history.foldl (fun s step => (step.2.run ⟨s, step.1⟩).top) s

/-- **History is append-only.** Take any store that operations made of an empty one, each over
whatever stores, and let it live on, alone or over others, with operations and questions that are
settled, failing or not. Every cell that was there is there, under its id and in its place, of the
same dimension, boundary and closure, and is still deleted if it was; the atom links are there in
both directions; and the cells and all layers begin as they were. The generation is at any time the
number of cells and of deleted cells together, and no deed touches a store below. -/
theorem history_appends {s : Store} (h : s.Grown) (history : List (List Store × Deed)) :
    (s.through history).Grown ∧ s.Appends (s.through history) ∧
      (s.through history).generation =
        (s.through history).size + (s.through history).deletedCount ∧
      ∀ (below : List Store) (deed : Deed),
        (deed.run ⟨s.through history, below⟩).below = below := by
  have hlives : (s.through history).Grown ∧ s.Appends (s.through history) := by
    induction history generalizing s with
    | nil => exact ⟨h, .refl s⟩
    | cons step history ih =>
      obtain ⟨below, deed⟩ := step
      obtain ⟨ops, hops⟩ := deed.exists_operations ⟨s, below⟩
      obtain ⟨_, happends, hgrown⟩ := Space.perform_appends ⟨s, below⟩ ops
      rw [← hops] at happends hgrown
      obtain ⟨hrest, hrest'⟩ := ih (hgrown h)
      exact ⟨hrest, happends.trans hrest'⟩
  refine ⟨hlives.1, hlives.2, hlives.1.counted, fun below deed => ?_⟩
  obtain ⟨ops, hops⟩ := deed.exists_operations ⟨s.through history, below⟩
  rw [hops]
  exact (Space.perform_appends _ ops).1

/-- An edge is made over a store and deleted twice, and a question is settled that it was about. -/
def twiceDeleted : List (List Store × Deed) :=
  [([threeEdges], .operation (.create "is" [⟨0, 0⟩, ⟨0, 1⟩])),
    ([threeEdges], .operation (.delete ⟨1, 0⟩)), ([threeEdges], .operation (.delete ⟨1, 0⟩)),
    ([threeEdges], .settle PolicyKind.revision.policy (PolicyKind.operates _) ⟨fun _ => 0, 0⟩ "is"
      ⟨0, 0⟩ ⟨0, 1⟩)]

/-- The second deletion does not count, and afterwards the edge is still there and deleted. -/
theorem history_appends_twiceDeleted :
    ((Store.empty 1).through (twiceDeleted.take 3)).generation = 2 ∧
      ∃ c, ((Store.empty 1).through twiceDeleted).find? ⟨1, 0⟩ = some c ∧ c.deleted = true ∧
        c.boundary = [⟨0, 0⟩, ⟨0, 1⟩] := by
  obtain ⟨hgrown, _, hcount, _⟩ := history_appends (.empty 1) (twiceDeleted.take 3)
  obtain ⟨_, happends, _⟩ := history_appends hgrown (twiceDeleted.drop 3)
  have hnumbers : ((Store.empty 1).through (twiceDeleted.take 3)).size = 1 ∧
      ((Store.empty 1).through (twiceDeleted.take 3)).deletedCount = 1 := by decide +kernel
  have hthere : (((Store.empty 1).through (twiceDeleted.take 3)).find? ⟨1, 0⟩).any
      (fun c => c.deleted && c.boundary == [⟨0, 0⟩, ⟨0, 1⟩]) = true := by decide +kernel
  obtain ⟨c, hc, htest⟩ := (Option.any_eq_true _ _).mp hthere
  obtain ⟨hdeleted, hboundary⟩ := Bool.and_eq_true_iff.mp htest
  obtain ⟨d, hd, hform, hmark⟩ := happends.find _ c hc
  rw [Store.through, Store.through, ← List.foldl_append, List.take_append_drop] at hd
  refine ⟨by rw [hcount, hnumbers.1, hnumbers.2], d, hd, hmark hdeleted, ?_⟩
  exact (congrArg Form.boundary hform).trans (beq_iff_eq.mp hboundary)

end CellComplex
