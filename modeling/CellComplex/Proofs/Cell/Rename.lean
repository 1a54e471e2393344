import CellComplex.Cell.Lookup
import CellComplex.Proofs.Outcome
import CellComplex.Search

/-!
# Renaming cells

Two stores may hold the same cells under different ids. A renaming is a map of ids, and everything
that mentions ids is carried over by it.

* `StoreError.rename`: a failure, with the cells that it names renamed;
* `Outcome.Agrees`: two computations yield related values, or fail with the same failure up to
  renaming; it passes through `bind`, `mapM` and `foldlM`;
* `CellSet.Renamed`, `Cell.Renamed`, `Lookup.Renamed`: a set, a cell, a lookup and what it is called
  on the other side;
* **`paintFrom_renamed`**: a search through renamed cells visits the same cells.
-/

namespace CellComplex

variable {ρ : CellId → CellId}

/-! ## 1. Failures -/

/-- A mismatch, with its cells renamed. -/
def Mismatch.rename (ρ : CellId → CellId) : Mismatch → Mismatch
  | .deleted cell => .deleted (ρ cell)
  | .dimension template wanted name found => .dimension (ρ template) wanted name found
  | reason => reason

/-- A fault of a rule, with its cells renamed. -/
def RuleFault.rename (ρ : CellId → CellId) : RuleFault → RuleFault
  | .scaffoldListings scaffold label count => .scaffoldListings (ρ scaffold) label count
  | .unknownPattern template => .unknownPattern (ρ template)
  | .manyBinds template count => .manyBinds (ρ template) count
  | .unknownBind bind => .unknownBind (ρ bind)
  | .bindDimension bind found wanted => .bindDimension (ρ bind) found wanted
  | .bindTargets bind count => .bindTargets (ρ bind) count
  | .noTemplate cell => .noTemplate (ρ cell)
  | reason => reason

/-- **A failure, with its cells renamed.** -/
def StoreError.rename (ρ : CellId → CellId) : StoreError → StoreError
  | .unknownCell cell => .unknownCell (ρ cell)
  | .disconnectedBoundary label offender => .disconnectedBoundary label (ρ offender)
  | .nonMinimalBoundary label contained container =>
    .nonMinimalBoundary label (ρ contained) (ρ container)
  | .cellNotFound cell => .cellNotFound (ρ cell)
  | .dimensionMismatch cell wanted found => .dimensionMismatch (ρ cell) wanted found
  | .cardinality cell relation count => .cardinality (ρ cell) relation count
  | .duplicateAtomLink expansion atom => .duplicateAtomLink (ρ expansion) (ρ atom)
  | .patternMismatch reason => .patternMismatch (reason.rename ρ)
  | .malformedRule rule reason => .malformedRule (ρ rule) (reason.rename ρ)
  | .ambiguous label first second => .ambiguous label (ρ first) (ρ second)
  | .notDuplicates first second => .notDuplicates (ρ first) (ρ second)
  | .missingTruthValue cell => .missingTruthValue (ρ cell)
  | .shadowingUnsupported what cell => .shadowingUnsupported what (ρ cell)
  | .noHandler cell => .noHandler (ρ cell)
  | err => err

/-! ## 2. Computations -/

namespace Outcome

variable {α β γ δ : Type}

/-- **Related values, or the same failure up to renaming.** -/
inductive Agrees (ρ : CellId → CellId) (R : α → β → Prop) :
    Except StoreError α → Except StoreError β → Prop where
  | ok {a : α} {b : β} (h : R a b) : Agrees ρ R (.ok a) (.ok b)
  | error (err : StoreError) : Agrees ρ R (.error err) (.error (err.rename ρ))

variable {R : α → β → Prop} {S : γ → δ → Prop}
variable {x : Except StoreError α} {y : Except StoreError β}

theorem Agrees.of_ok {a : α} (h : Agrees ρ R (.ok a) y) : ∃ b, y = .ok b ∧ R a b := by
  cases h with
  | ok h => exact ⟨_, rfl, h⟩

theorem Agrees.of_error {err : StoreError} (h : Agrees ρ R (.error err) y) :
    y = .error (err.rename ρ) := by
  cases h with
  | error => rfl

/-- One computation after another, where the second may rely on the success of the first. -/
theorem Agrees.bind_ok {f : α → Except StoreError γ} {g : β → Except StoreError δ}
    (h : Agrees ρ R x y)
    (hfg : ∀ a b, R a b → x = .ok a → y = .ok b → Agrees ρ S (f a) (g b)) :
    Agrees ρ S (x >>= f) (y >>= g) := by
  cases h with
  | ok h => exact hfg _ _ h rfl rfl
  | error err => exact .error err

theorem Agrees.bind {f : α → Except StoreError γ} {g : β → Except StoreError δ}
    (h : Agrees ρ R x y) (hfg : ∀ a b, R a b → Agrees ρ S (f a) (g b)) :
    Agrees ρ S (x >>= f) (y >>= g) := h.bind_ok fun a b hab _ _ => hfg a b hab

theorem Agrees.mapM {f : α → Except StoreError γ} {g : β → Except StoreError δ} {xs : List α}
    {ys : List β} (h : List.Forall₂ R xs ys) (hfg : ∀ a b, R a b → Agrees ρ S (f a) (g b)) :
    Agrees ρ (List.Forall₂ S) (xs.mapM f) (ys.mapM g) := by
  induction h with
  | nil => exact .ok .nil
  | cons hab _ ih =>
    rw [List.mapM_cons, List.mapM_cons]
    exact (hfg _ _ hab).bind fun _ _ hcd => ih.bind fun _ _ hrest => .ok (.cons hcd hrest)

theorem Agrees.foldlM {f : γ → α → Except StoreError γ} {g : δ → β → Except StoreError δ}
    {xs : List α} {ys : List β} {c : γ} {d : δ} (h : List.Forall₂ R xs ys) (hcd : S c d)
    (hfg : ∀ c d a b, S c d → R a b → Agrees ρ S (f c a) (g d b)) :
    Agrees ρ S (xs.foldlM f c) (ys.foldlM g d) := by
  induction h generalizing c d with
  | nil => exact .ok hcd
  | cons hab _ ih =>
    rw [List.foldlM_cons, List.foldlM_cons]
    exact (hfg _ _ _ _ hcd hab).bind fun _ _ hcd => ih hcd

end Outcome

/-! ## 3. Sets -/

/-- **The second set is the first one renamed.** This says so if every id is the name of another. -/
def CellSet.Renamed (ρ : CellId → CellId) (s t : CellSet) : Prop := ∀ x, ρ x ∈ t ↔ x ∈ s

namespace CellSet

variable {s t : CellSet}

theorem Renamed.contains_eq (h : CellSet.Renamed ρ s t) (x : CellId) :
    t.contains (ρ x) = s.contains x := Bool.eq_iff_iff.mpr (h x)

theorem Renamed.insert (hρ : ρ.Injective) (h : CellSet.Renamed ρ s t) (x : CellId) :
    CellSet.Renamed ρ (s.insert x) (t.insert (ρ x)) := fun y => by
  rw [Std.TreeSet.mem_insert, Std.TreeSet.mem_insert, Std.LawfulEqCmp.compare_eq_iff_eq,
    Std.LawfulEqCmp.compare_eq_iff_eq, hρ.eq_iff, h y]

theorem renamed_empty : CellSet.Renamed ρ ∅ ∅ :=
  fun _ => iff_of_false Std.TreeSet.not_mem_emptyc Std.TreeSet.not_mem_emptyc

theorem renamed_ofList (hρ : ρ.Injective) (ids : List CellId) :
    CellSet.Renamed ρ (Std.TreeSet.ofList ids) (Std.TreeSet.ofList (ids.map ρ)) := fun x => by
  rw [Std.TreeSet.mem_ofList, Std.TreeSet.mem_ofList, List.contains_iff_mem, List.contains_iff_mem,
    List.mem_map_of_injective hρ]

end CellSet

/-! ## 4. Cells and lookups -/

/-- **The same cell by another name**, in the same places of cells renamed likewise. -/
structure Cell.Renamed (ρ : CellId → CellId) (c d : Cell) : Prop where
  id : d.id = ρ c.id
  dimension : d.dimension = c.dimension
  label : d.label = c.label
  boundary : d.boundary = c.boundary.map ρ
  closure : CellSet.Renamed ρ c.closure d.closure
  deleted : d.deleted = c.deleted
  embedding : d.embedding = c.embedding
  handler : d.handler = c.handler

/-- **The same cells by other names.** -/
def Lookup.Renamed (ρ : CellId → CellId) (look look' : Lookup) : Prop :=
  ∀ id, Option.Rel (Cell.Renamed ρ) (look.find id) (look'.find (ρ id))

namespace Cell.Renamed

variable {c d : Cell}

theorem isLive_eq (h : c.Renamed ρ d) : d.isLive = c.isLive := by
  rw [isLive, isLive, h.deleted]

theorem isEdge_eq (h : c.Renamed ρ d) : d.isEdge = c.isEdge := by
  rw [isEdge, isEdge, h.dimension, h.boundary, List.length_map, h.deleted]

end Cell.Renamed

/-- Related changes of what is found, if anything is. -/
theorem rel_map {α β : Type} {R : α → β → Prop} {x : Option α} {y : Option β} {f : α → α}
    {g : β → β} (h : Option.Rel R x y) (hfg : ∀ a b, R a b → R (f a) (g b)) :
    Option.Rel R (x.map f) (y.map g) := by
  cases h with
  | some h => exact .some (hfg _ _ h)
  | none => exact .none

namespace Lookup

variable {look look' : Lookup}

/-- An id is known on both sides or on neither. -/
theorem Renamed.find_cases (h : look.Renamed ρ look') (id : CellId) :
    (look.find id = none ∧ look'.find (ρ id) = none) ∨
      ∃ c d, look.find id = some c ∧ look'.find (ρ id) = some d ∧ c.Renamed ρ d := by
  have hid := h id
  revert hid
  cases look.find id <;> cases look'.find (ρ id) <;> intro hid <;> cases hid
  · exact Or.inl ⟨rfl, rfl⟩
  · exact Or.inr ⟨_, _, rfl, rfl, ‹_›⟩

theorem Renamed.resolve (h : look.Renamed ρ look') (id : CellId) :
    Outcome.Agrees ρ (Cell.Renamed ρ) (look.resolve id) (look'.resolve (ρ id)) := by
  unfold Lookup.resolve
  rcases h.find_cases id with ⟨hc, hd⟩ | ⟨c, d, hc, hd, hcd⟩
  · rw [hc, hd]
    exact .error (.unknownCell id)
  · rw [hc, hd]
    exact .ok hcd

/-- A known cell with some property is known by the other name, with the same property. -/
theorem Renamed.exists_iff (h : look.Renamed ρ look') {id : CellId} {P Q : Cell → Prop}
    (hPQ : ∀ c d, c.Renamed ρ d → (Q d ↔ P c)) :
    (∃ d, look'.find (ρ id) = some d ∧ Q d) ↔ ∃ c, look.find id = some c ∧ P c := by
  rcases h.find_cases id with ⟨hc, hd⟩ | ⟨c, d, hc, hd, hcd⟩
  · simp [hc, hd]
  · simpa [hc, hd] using hPQ c d hcd

/-- A test that does not look at ids is passed on both sides or on neither. -/
theorem Renamed.any_eq (h : look.Renamed ρ look') {test test' : Cell → Bool}
    (htest : ∀ c d, c.Renamed ρ d → test' d = test c) (id : CellId) :
    (look'.find (ρ id)).any test' = (look.find id).any test := by
  rcases h.find_cases id with ⟨hc, hd⟩ | ⟨c, d, hc, hd, hcd⟩
  · rw [hc, hd]
    rfl
  · rw [hc, hd]
    exact htest c d hcd

end Lookup

/-! ## 5. Searches -/

/-- **The same search by other names.** -/
def Branching.Renamed (ρ : CellId → CellId) (b b' : Branching StoreError) : Prop :=
  ∀ id, Outcome.Agrees ρ (fun ids ids' => ids' = ids.map ρ) (b.next id) (b'.next (ρ id))

/-- A cell has the same color by both names. -/
def PaintedAlike (ρ : CellId → CellId) (paint paint' : Std.TreeMap CellId Nat) : Prop :=
  ∀ x : CellId, paint'[ρ x]? = paint[x]?

theorem PaintedAlike.insert {paint paint' : Std.TreeMap CellId Nat} (hρ : ρ.Injective)
    (h : PaintedAlike ρ paint paint') (id : CellId) (color : Nat) :
    PaintedAlike ρ (paint.insert id color) (paint'.insert (ρ id) color) := fun x => by
  rw [Std.TreeMap.getElem?_insert, Std.TreeMap.getElem?_insert, h x]
  simp only [Std.LawfulEqCmp.compare_eq_iff_eq, hρ.eq_iff]

/-- **A search by other names paints the same cells.** -/
theorem Branching.paintFrom_renamed {b b' : Branching StoreError} (hρ : ρ.Injective)
    (hb : b.Renamed ρ b') {color : Nat} {paint paint' : Std.TreeMap CellId Nat}
    {stack : List CellId} (hpaint : PaintedAlike ρ paint paint') :
    Outcome.Agrees ρ (PaintedAlike ρ) (b.paintFrom color paint stack)
      (b'.paintFrom color paint' (stack.map ρ)) := by
  fun_induction b.paintFrom color paint stack generalizing paint' with
  | case1 paint =>
    rw [List.map_nil, paintFrom]
    exact .ok hpaint
  | case2 paint id rest hseen ih =>
    rw [List.map_cons, paintFrom, dif_pos (by rw [hpaint]; exact hseen)]
    exact ih hpaint
  | case3 paint id rest hseen err hnext =>
    have hnext' : b'.next (ρ id) = .error (err.rename ρ) := (hnext ▸ hb id).of_error
    rw [List.map_cons, paintFrom, dif_neg (by rw [hpaint]; exact hseen)]
    split
    · next h =>
      cases hnext'.symm.trans h
      exact .error err
    · next h => cases hnext'.symm.trans h
  | case4 paint id rest hseen ids hnext ih =>
    obtain ⟨_, hnext', rfl⟩ := (hnext ▸ hb id).of_ok
    rw [List.map_cons, paintFrom, dif_neg (by rw [hpaint]; exact hseen)]
    split
    · next h => cases hnext'.symm.trans h
    · next h =>
      cases hnext'.symm.trans h
      rw [← List.map_append]
      exact ih (hpaint.insert hρ id color)

end CellComplex
