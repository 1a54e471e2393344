import CellComplex.Proofs.Boundary.Rename
import CellComplex.Proofs.Space.Edit
import CellComplex.Proofs.Store.Frame

/-!
# Spaces that show the same

Two spaces may be built quite differently and still show the same cells, layers and links by other
names. Whatever is read off a space is then the same on both sides.

* `Space.Renamed`: the two spaces show the same;
* **`Renamed.byLabel`**, **`Renamed.findLink?_eq`**: searches through the layers find the same cell;
* `Edit.AgreesAt`: two edits yield the same and leave related spaces behind; one rule for each way
  to build an edit.
-/

namespace CellComplex

variable {ρ : CellId → CellId}

/-! ## 1. What a space shows -/

/-- **Two spaces show the same by other names**: the same cells, the same layers in the same order,
and the same relations between cells. -/
structure Space.Renamed (ρ : CellId → CellId) (sp sp' : Space) : Prop where
  find : sp.lookup.Renamed ρ sp'.lookup
  layerCount : sp'.layerCount = sp.layerCount
  layer : ∀ n, sp'.layer n = (sp.layer n).map ρ
  atomsOf : ∀ e, CellSet.Renamed ρ (sp.atomsOf e) (sp'.atomsOf (ρ e))
  expansionsOf : ∀ a, CellSet.Renamed ρ (sp.expansionsOf a) (sp'.expansionsOf (ρ a))
  cofacesOf : ∀ c, CellSet.Renamed ρ (sp.cofacesOf c) (sp'.cofacesOf (ρ c))

namespace Space.Renamed

variable {sp sp' : Space} {test test' : Cell → Bool}

theorem resolve (h : sp.Renamed ρ sp') (id : CellId) :
    Outcome.Agrees ρ (Cell.Renamed ρ) (sp.resolve id) (sp'.resolve (ρ id)) := h.find.resolve id

theorem contains_eq (h : sp.Renamed ρ sp') (id : CellId) :
    sp'.contains (ρ id) = sp.contains id := by
  have hany : (sp'.find? (ρ id)).any (fun _ => true) = (sp.find? id).any fun _ => true :=
    h.find.any_eq (fun _ _ _ => rfl) id
  rw [Option.any_true, Option.any_true] at hany
  exact hany

/-- Other stores on top with the same layers show the same layers. -/
theorem layer_of_top (h : sp.Renamed ρ sp') {t t' : Store}
    (ht : ∀ n, t.layer n = sp.top.layer n) (ht' : ∀ n, t'.layer n = sp'.top.layer n) (n : Nat) :
    ({ sp' with top := t' } : Space).layer n = (({ sp with top := t } : Space).layer n).map ρ :=
  (Space.layer_congr ht' n).trans ((h.layer n).trans
    (congrArg (List.map ρ) (Space.layer_congr ht n).symm))

/-- The first cell of a layer that passes a test is the same. -/
theorem find?_layer (h : sp.Renamed ρ sp') (htest : ∀ c d, c.Renamed ρ d → test' d = test c)
    (n : Nat) :
    (sp'.layer n).find? (fun id => sp'.satisfies id test') =
      ((sp.layer n).find? fun id => sp.satisfies id test).map ρ := by
  have hpass : (fun id => sp'.satisfies id test') ∘ ρ = fun id => sp.satisfies id test :=
    funext fun id => h.find.any_eq htest id
  rw [h.layer, List.find?_map, hpass]

/-- So is the first cell of all layers. -/
theorem findSome?_layer (h : sp.Renamed ρ sp') (htest : ∀ c d, c.Renamed ρ d → test d = test c) :
    ((List.range sp'.layerCount).findSome? fun n =>
        (sp'.layer n).find? fun id => sp'.satisfies id test) =
      ((List.range sp.layerCount).findSome? fun n =>
        (sp.layer n).find? fun id => sp.satisfies id test).map ρ := by
  rw [List.map_findSome?, h.layerCount]
  exact congrArg (List.findSome? · _) (funext (h.find?_layer htest))

/-- **A label leads to the same cell.** -/
theorem byLabel (h : sp.Renamed ρ sp') (label : String) :
    Outcome.Agrees ρ (fun x y => y = ρ x) (sp.byLabel label) (sp'.byLabel label) := by
  unfold Space.byLabel
  dsimp only
  rw [h.findSome?_layer fun c d hcd => by rw [hcd.isLive_eq, hcd.label]]
  cases (List.range sp.layerCount).findSome? fun n => (sp.layer n).find? fun id =>
    sp.satisfies id fun c => c.isLive && c.label == label with
  | none => exact .error (.labelNotFound label)
  | some id => exact .ok rfl

theorem joins_eq (hρ : ρ.Injective) {c d : Cell} (h : c.Renamed ρ d) (a b : CellId)
    (oriented : Bool) : joins d (ρ a) (ρ b) oriented = joins c a b oriented := by
  have hends : ∀ x y, (d.boundary == [ρ x, ρ y]) = (c.boundary == [x, y]) := fun x y => by
    rw [h.boundary, Bool.eq_iff_iff, beq_iff_eq, beq_iff_eq]
    exact (List.map_injective_iff.mpr hρ).eq_iff (b := [x, y])
  rw [joins, joins, hends, hends]

/-- **The first edge over two points is the same.** -/
theorem findLink?_eq (hρ : ρ.Injective) (h : sp.Renamed ρ sp') (a b : CellId) (label : String)
    (oriented : Bool) :
    sp'.findLink? (ρ a) (ρ b) label oriented = (sp.findLink? a b label oriented).map ρ :=
  h.find?_layer (fun c d hcd => by rw [hcd.isEdge_eq, hcd.label, joins_eq hρ hcd]) 1

/-! ## 2. Conditions -/

theorem requirePoint {c d : Cell} (h : c.Renamed ρ d) :
    Outcome.Agrees ρ Eq (Space.requirePoint c) (Space.requirePoint d) := by
  unfold Space.requirePoint
  rw [h.dimension, h.id]
  split
  · exact .ok rfl
  · exact .error (.dimensionMismatch c.id .point c.dimension)

theorem requireNameable {c d x y : Cell} (h : c.Renamed ρ d) (h' : x.Renamed ρ y) :
    Outcome.Agrees ρ Eq (Space.requireNameable c x) (Space.requireNameable d y) := by
  unfold Space.requireNameable
  rw [h.dimension, h.id]
  split
  · exact .error (.dimensionMismatch c.id .compound 0)
  · exact requirePoint h'

end Space.Renamed

/-! ## 3. Edits on both sides -/

namespace Edit

variable {α β γ δ : Type} {Sim : Space → Space → Prop} {R : α → β → Prop} {S : γ → δ → Prop}
variable {sp sp' : Space}

/-- **Two edits yield the same up to renaming, and leave related spaces behind**, failing or not. -/
structure AgreesAt (ρ : CellId → CellId) (Sim : Space → Space → Prop) (R : α → β → Prop)
    (e : Edit α) (e' : Edit β) (sp sp' : Space) : Prop where
  result : Outcome.Agrees ρ R (e.apply sp).1 (e'.apply sp').1
  after : Sim (e.apply sp).2 (e'.apply sp').2

theorem agreesAt_pure {a : α} {b : β} (hsim : Sim sp sp') (h : R a b) :
    AgreesAt ρ Sim R (pure a) (pure b) sp sp' := ⟨.ok h, hsim⟩

theorem AgreesAt.bind {e : Edit α} {e' : Edit β} {f : α → Edit γ} {g : β → Edit δ}
    (h : AgreesAt ρ Sim R e e' sp sp')
    (hfg : ∀ a b sp sp', R a b → Sim sp sp' → AgreesAt ρ Sim S (f a) (g b) sp sp') :
    AgreesAt ρ Sim S (e >>= f) (e' >>= g) sp sp' := by
  obtain ⟨hresult, hafter⟩ := h
  cases he : e.apply sp with
  | mk r mid =>
    cases he' : e'.apply sp' with
    | mk r' mid' =>
      rw [he, he'] at hresult hafter
      cases hresult with
      | ok hab =>
        obtain ⟨hresult, hafter⟩ := hfg _ _ mid mid' hab hafter
        exact ⟨by rwa [apply_bind_ok he, apply_bind_ok he'],
          by rwa [apply_bind_ok he, apply_bind_ok he']⟩
      | error err =>
        exact ⟨by rw [apply_bind_error he, apply_bind_error he']; exact .error err,
          by rwa [apply_bind_error he, apply_bind_error he']⟩

/-- Edits that decide agree if they decide alike and change related spaces alike. -/
theorem agreesAt_decide {choose : Space → Except StoreError (α × (Store → Store))}
    {choose' : Space → Except StoreError (β × (Store → Store))} (hsim : Sim sp sp')
    (h : Outcome.Agrees ρ (fun r r' => R r.1 r'.1 ∧
      Sim { sp with top := r.2 sp.top } { sp' with top := r'.2 sp'.top }) (choose sp)
      (choose' sp')) :
    AgreesAt ρ Sim R (decide choose) (decide choose') sp sp' := by
  generalize hc : choose sp = r at h
  generalize hc' : choose' sp' = r' at h
  cases h with
  | ok h =>
    exact ⟨by rw [apply_decide_ok hc, apply_decide_ok hc']; exact .ok h.1,
      by rw [apply_decide_ok hc, apply_decide_ok hc']; exact h.2⟩
  | error err =>
    exact ⟨by rw [apply_decide_error hc, apply_decide_error hc']; exact .error err,
      by rwa [apply_decide_error hc, apply_decide_error hc']⟩

theorem agreesAt_look {read : Space → Except StoreError α} {read' : Space → Except StoreError β}
    (hsim : Sim sp sp') (h : Outcome.Agrees ρ R (read sp) (read' sp')) :
    AgreesAt ρ Sim R (look read) (look read') sp sp' := by
  refine agreesAt_decide hsim ?_
  generalize read sp = r at h
  generalize read' sp' = r' at h
  cases h with
  | ok h => exact .ok ⟨h, hsim⟩
  | error err => exact .error err

end Edit

end CellComplex
