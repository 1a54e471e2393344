import CellComplex.Evidence.Truth
import Mathlib.Algebra.BigOperators.Group.List.Basic
import Mathlib.Algebra.Order.Field.Basic
import Mathlib.Data.Rat.Lemmas
import Mathlib.Tactic.FieldSimp
import Mathlib.Tactic.Linarith
import Mathlib.Tactic.NormNum
import Mathlib.Tactic.Ring

/-!
# Revision adds evidence

The formula of a revision has two quotients, each with a guard of its own. Read over the rational
numbers, it hides a sum: if `c / (1 - c)` counts the evidence of a confidence `c`, a revision adds
the evidence of both sides, and the evidence in favor with it.

* `Truth.Proper`: frequencies up to one, confidences below one;
* `revise_comm`, `revise_frequency_between`: the sides may be exchanged, and the merged frequency
  lies between theirs;
* `Checked`: rational numbers with a division that may be undefined;
  **`revise_checked`**: over them a revision does what it does over the rationals, so the guards
  catch every zero that it could divide by;
* **`odds_revise`**, **`support_revise`**: the evidence adds, and so does the evidence in favor;
* `Merging`: an order and a grouping in which truth values are merged, as a tree;
  `Merging.odds_value`: a merging has the evidence of its leaves;
* **`revise_adds_evidence`**: all of this for the threshold of floats, and that the order and the
  grouping do not matter while no merge falls under it.
-/

namespace CellComplex

namespace Truth

/-! ## 1. The formula -/

/-- The threshold of floats, as a rational number. -/
def exactThreshold : ℚ := 1 / 2 ^ 52

/-- A frequency and a confidence as evidence gives them: nothing is certain. -/
structure Proper (a : Truth ℚ) : Prop where
  frequency_nonneg : 0 ≤ a.frequency
  frequency_le_one : a.frequency ≤ 1
  confidence_nonneg : 0 ≤ a.confidence
  confidence_lt_one : a.confidence < 1

/-- What two confidences weigh together. -/
def joint (c d : ℚ) : ℚ := c * (1 - d) + d * (1 - c)

variable {t : ℚ} {a b : Truth ℚ} {c d : ℚ}

theorem joint_comm (c d : ℚ) : joint c d = joint d c := add_comm _ _

theorem joint_add_rest (c d : ℚ) : joint c d + (1 - c) * (1 - d) = 1 - c * d := by
  unfold joint
  ring

theorem magnitude_eq_abs (x : ℚ) : magnitude x = |x| := by
  unfold magnitude
  split
  · next h => rw [abs_of_neg h]
  · next h => rw [abs_of_nonneg (not_lt.mp h)]

theorem larger_eq_max (x y : ℚ) : larger x y = max x y := by
  unfold larger
  split
  · next h => rw [max_eq_right h.le]
  · next h => rw [max_eq_left (not_lt.mp h)]

theorem revise_frequency (t : ℚ) (a b : Truth ℚ) :
    (revise t a b).frequency =
      if |joint a.confidence b.confidence| < t then (a.frequency + b.frequency) / 2
      else (a.frequency * (a.confidence * (1 - b.confidence)) +
        b.frequency * (b.confidence * (1 - a.confidence))) / joint a.confidence b.confidence := by
  rw [← magnitude_eq_abs]
  rfl

theorem revise_confidence (t : ℚ) (a b : Truth ℚ) :
    (revise t a b).confidence =
      if |1 - a.confidence * b.confidence| < t then max a.confidence b.confidence
      else joint a.confidence b.confidence / (1 - a.confidence * b.confidence) := by
  rw [← magnitude_eq_abs, ← larger_eq_max, ← joint_add_rest]
  rfl

/-- **The sides of a revision may be exchanged.** -/
theorem revise_comm (t : ℚ) (a b : Truth ℚ) : revise t a b = revise t b a := by
  have hf : (revise t a b).frequency = (revise t b a).frequency := by
    rw [revise_frequency, revise_frequency, joint_comm, add_comm a.frequency,
      add_comm (a.frequency * _)]
  have hc : (revise t a b).confidence = (revise t b a).confidence := by
    rw [revise_confidence, revise_confidence, joint_comm, max_comm, mul_comm a.confidence]
  cases h : revise t a b
  cases h' : revise t b a
  rw [h, h'] at hf hc
  exact congrArg₂ Truth.mk hf hc

section Proper

variable (ha : a.Proper) (hb : b.Proper)
include ha hb

theorem joint_nonneg : 0 ≤ joint a.confidence b.confidence :=
  add_nonneg (mul_nonneg ha.confidence_nonneg (sub_nonneg.mpr hb.confidence_lt_one.le))
    (mul_nonneg hb.confidence_nonneg (sub_nonneg.mpr ha.confidence_lt_one.le))

theorem rest_pos : 0 < (1 - a.confidence) * (1 - b.confidence) :=
  mul_pos (sub_pos.mpr ha.confidence_lt_one) (sub_pos.mpr hb.confidence_lt_one)

theorem joint_lt : joint a.confidence b.confidence < 1 - a.confidence * b.confidence := by
  rw [← joint_add_rest]
  exact lt_add_of_pos_right _ (rest_pos ha hb)

theorem scale_pos : 0 < 1 - a.confidence * b.confidence :=
  (joint_nonneg ha hb).trans_lt (joint_lt ha hb)

/-- Above the threshold each frequency counts with its weight. -/
theorem revise_frequency_of_le (ht : t ≤ joint a.confidence b.confidence) :
    (revise t a b).frequency =
      (a.frequency * (a.confidence * (1 - b.confidence)) +
        b.frequency * (b.confidence * (1 - a.confidence))) / joint a.confidence b.confidence := by
  rw [revise_frequency, abs_of_nonneg (joint_nonneg ha hb), if_neg (not_lt.mpr ht)]

theorem revise_confidence_of_le (ht : t ≤ 1 - a.confidence * b.confidence) :
    (revise t a b).confidence =
      joint a.confidence b.confidence / (1 - a.confidence * b.confidence) := by
  rw [revise_confidence, abs_of_pos (scale_pos ha hb), if_neg (not_lt.mpr ht)]

/-- **The merged frequency lies between the two.** -/
theorem revise_frequency_between (ht : 0 < t) :
    min a.frequency b.frequency ≤ (revise t a b).frequency ∧
      (revise t a b).frequency ≤ max a.frequency b.frequency := by
  have hla := min_le_left a.frequency b.frequency
  have hlb := min_le_right a.frequency b.frequency
  have hua := le_max_left a.frequency b.frequency
  have hub := le_max_right a.frequency b.frequency
  by_cases hlow : joint a.confidence b.confidence < t
  · -- the mean
    rw [revise_frequency, abs_of_nonneg (joint_nonneg ha hb), if_pos hlow]
    constructor <;> linarith
  · -- a mean with weights that are not negative
    have hpos : 0 < joint a.confidence b.confidence := ht.trans_le (not_lt.mp hlow)
    have hwa : 0 ≤ a.confidence * (1 - b.confidence) :=
      mul_nonneg ha.confidence_nonneg (sub_nonneg.mpr hb.confidence_lt_one.le)
    have hwb : 0 ≤ b.confidence * (1 - a.confidence) :=
      mul_nonneg hb.confidence_nonneg (sub_nonneg.mpr ha.confidence_lt_one.le)
    rw [revise_frequency_of_le ha hb (not_lt.mp hlow), le_div_iff₀ hpos, div_le_iff₀ hpos]
    unfold joint
    constructor
    · rw [mul_add]
      exact add_le_add (mul_le_mul_of_nonneg_right hla hwa) (mul_le_mul_of_nonneg_right hlb hwb)
    · rw [mul_add]
      exact add_le_add (mul_le_mul_of_nonneg_right hua hwa) (mul_le_mul_of_nonneg_right hub hwb)

/-- **No confidence is lost.** -/
theorem le_revise_confidence (ht : t ≤ 1 - a.confidence * b.confidence) :
    max a.confidence b.confidence ≤ (revise t a b).confidence := by
  have hpos := scale_pos ha hb
  rw [revise_confidence_of_le ha hb ht, max_le_iff, le_div_iff₀ hpos, le_div_iff₀ hpos]
  -- what is missing is the other confidence, times a square
  have hfirst : 0 ≤ b.confidence * (1 - a.confidence) ^ 2 :=
    mul_nonneg hb.confidence_nonneg (sq_nonneg _)
  have hsecond : 0 ≤ a.confidence * (1 - b.confidence) ^ 2 :=
    mul_nonneg ha.confidence_nonneg (sq_nonneg _)
  unfold joint
  constructor <;> linarith

theorem revise_confidence_lt (ht : t ≤ 1 - a.confidence * b.confidence) :
    (revise t a b).confidence < 1 := by
  rw [revise_confidence_of_le ha hb ht, div_lt_one (scale_pos ha hb)]
  exact joint_lt ha hb

theorem Proper.revise (hpos : 0 < t) (ht : t ≤ 1 - a.confidence * b.confidence) :
    (revise t a b).Proper := by
  obtain ⟨hmin, hmax⟩ := revise_frequency_between ha hb hpos
  refine ⟨?_, ?_, ?_, revise_confidence_lt ha hb ht⟩
  · exact (le_min ha.frequency_nonneg hb.frequency_nonneg).trans hmin
  · exact hmax.trans (max_le ha.frequency_le_one hb.frequency_le_one)
  · exact (ha.confidence_nonneg.trans (le_max_left _ _)).trans (le_revise_confidence ha hb ht)

end Proper

end Truth

/-! ## 2. No division by zero -/

/-- A rational number, or none: what a division by zero gives, and all that is computed from it. -/
structure Checked where
  value : Option ℚ
  deriving DecidableEq

namespace Checked

/-- A number that is there. -/
def defined (x : ℚ) : Checked := ⟨some x⟩

instance : OfNat Checked 0 := ⟨defined 0⟩

instance : OfNat Checked 1 := ⟨defined 1⟩

instance : OfNat Checked 2 := ⟨defined 2⟩

instance : Add Checked := ⟨fun x y => ⟨Option.map₂ (· + ·) x.value y.value⟩⟩

instance : Sub Checked := ⟨fun x y => ⟨Option.map₂ (· - ·) x.value y.value⟩⟩

instance : Mul Checked := ⟨fun x y => ⟨Option.map₂ (· * ·) x.value y.value⟩⟩

instance : Neg Checked := ⟨fun x => ⟨x.value.map (- ·)⟩⟩

/-- There is no quotient by zero. -/
instance : Div Checked :=
  ⟨fun x y => ⟨x.value.bind fun a => y.value.bind fun b => if b = 0 then none else some (a / b)⟩⟩

instance : LT Checked :=
  ⟨fun x y => Option.map₂ (fun a b => decide (a < b)) x.value y.value = some true⟩

instance : DecidableLT Checked := fun _ _ => inferInstanceAs (Decidable (_ = some true))

theorem defined_div {x y : ℚ} (hy : y ≠ 0) : defined x / defined y = defined (x / y) := by
  show (⟨if y = 0 then none else some (x / y)⟩ : Checked) = _
  rw [if_neg hy]
  rfl

theorem defined_lt {x y : ℚ} : defined x < defined y ↔ x < y := by
  show some (decide (x < y)) = some true ↔ _
  rw [Option.some.injEq, decide_eq_true_iff]

theorem magnitude_defined (x : ℚ) :
    Truth.magnitude (defined x) = defined (Truth.magnitude x) := by
  unfold Truth.magnitude
  have hzero : defined x < 0 ↔ x < 0 := defined_lt
  by_cases hx : x < 0
  · rw [if_pos (hzero.mpr hx), if_pos hx]
    rfl
  · rw [if_neg (mt hzero.mp hx), if_neg hx]

theorem larger_defined (x y : ℚ) :
    Truth.larger (defined x) (defined y) = defined (Truth.larger x y) := by
  unfold Truth.larger
  by_cases hxy : x < y
  · rw [if_pos (defined_lt.mpr hxy), if_pos hxy]
  · rw [if_neg (mt defined_lt.mp hxy), if_neg hxy]

end Checked

namespace Truth

open Checked (defined)

/-- A truth value of numbers that are there. -/
def checked (a : Truth ℚ) : Truth Checked := ⟨defined a.frequency, defined a.confidence⟩

/-- A quotient that is guarded is never a quotient by zero. -/
theorem guarded_div {t : ℚ} (ht : 0 < t) (x y z : ℚ) :
    (if magnitude (defined y) < defined t then defined z else defined x / defined y) =
      defined (if magnitude y < t then z else x / y) := by
  rw [Checked.magnitude_defined]
  by_cases hy : magnitude y < t
  · rw [if_pos (Checked.defined_lt.mpr hy), if_pos hy]
  · rw [if_neg (mt Checked.defined_lt.mp hy), if_neg hy, Checked.defined_div]
    rintro rfl
    exact hy ht

/-- **A revision never divides by zero**: with a division that may be undefined it gives what it
gives over the rational numbers. -/
theorem revise_checked {t : ℚ} (ht : 0 < t) (a b : Truth ℚ) :
    revise (defined t) a.checked b.checked = (revise t a b).checked := by
  refine congrArg₂ Truth.mk ?_ ?_
  · have hmean : defined (a.frequency + b.frequency) / defined 2 =
        defined ((a.frequency + b.frequency) / 2) := Checked.defined_div two_ne_zero
    have hguard := guarded_div ht
      (a.frequency * (a.confidence * (1 - b.confidence)) +
        b.frequency * (b.confidence * (1 - a.confidence)))
      (joint a.confidence b.confidence) ((a.frequency + b.frequency) / 2)
    rw [← hmean] at hguard
    exact hguard
  · have hguard := guarded_div ht (joint a.confidence b.confidence)
      (joint a.confidence b.confidence + (1 - a.confidence) * (1 - b.confidence))
      (larger a.confidence b.confidence)
    rw [← Checked.larger_defined] at hguard
    exact hguard

/-! ## 3. Evidence adds -/

/-- The evidence of a confidence, counted by what is still to come. -/
def odds (c : ℚ) : ℚ := c / (1 - c)

/-- The evidence in favor. -/
def support (a : Truth ℚ) : ℚ := a.frequency * odds a.confidence

theorem odds_pos {c : ℚ} (hc : 0 < c) (hc' : c < 1) : 0 < odds c := div_pos hc (sub_pos.mpr hc')

/-- Confidences of the same evidence are the same. -/
theorem odds_inj {c d : ℚ} (hc : c < 1) (hd : d < 1) (h : odds c = odds d) : c = d := by
  unfold odds at h
  rw [div_eq_div_iff (sub_pos.mpr hc).ne' (sub_pos.mpr hd).ne'] at h
  linarith

section Evidence

variable {t : ℚ} {a b : Truth ℚ} (ha : a.Proper) (hb : b.Proper)
  (ht : t ≤ 1 - a.confidence * b.confidence)
include ha hb ht

theorem odds_revise_eq :
    odds (revise t a b).confidence =
      joint a.confidence b.confidence / ((1 - a.confidence) * (1 - b.confidence)) := by
  have hscale := (scale_pos ha hb).ne'
  have hrest : 1 - (revise t a b).confidence =
      (1 - a.confidence) * (1 - b.confidence) / (1 - a.confidence * b.confidence) := by
    rw [revise_confidence_of_le ha hb ht, eq_div_iff hscale, sub_mul, div_mul_cancel₀ _ hscale,
      ← joint_add_rest]
    ring
  unfold odds
  rw [hrest, revise_confidence_of_le ha hb ht, div_div_div_cancel_right₀ hscale]

/-- **The evidence adds.** -/
theorem odds_revise :
    odds (revise t a b).confidence = odds a.confidence + odds b.confidence := by
  have hoa : 1 - a.confidence ≠ 0 := (sub_pos.mpr ha.confidence_lt_one).ne'
  have hob : 1 - b.confidence ≠ 0 := (sub_pos.mpr hb.confidence_lt_one).ne'
  rw [odds_revise_eq ha hb ht]
  unfold odds joint
  rw [div_add_div _ _ hoa hob]
  congr 1
  ring

/-- **The evidence in favor adds**, if there is any evidence to speak of. -/
theorem support_revise (hpos : 0 < t) (hjoint : t ≤ joint a.confidence b.confidence) :
    support (revise t a b) = support a + support b := by
  have hoa : 1 - a.confidence ≠ 0 := (sub_pos.mpr ha.confidence_lt_one).ne'
  have hob : 1 - b.confidence ≠ 0 := (sub_pos.mpr hb.confidence_lt_one).ne'
  have hne : joint a.confidence b.confidence ≠ 0 := (hpos.trans_le hjoint).ne'
  unfold support
  rw [odds_revise_eq ha hb ht, revise_frequency_of_le ha hb hjoint, div_mul_div_cancel₀ hne]
  unfold odds
  field_simp

end Evidence

/-! ## 4. Orders and groupings -/

/-- An order and a grouping in which truth values are merged, two at a time. -/
inductive Merging where
  | one (a : Truth ℚ)
  | both (left right : Merging)

namespace Merging

/-- What is merged. -/
def leaves : Merging → List (Truth ℚ)
  | one a => [a]
  | both l r => l.leaves ++ r.leaves

/-- What the merging ends with. -/
def value (t : ℚ) : Merging → Truth ℚ
  | one a => a
  | both l r => revise t (l.value t) (r.value t)

/-- No merge falls under a threshold. -/
def Clear (t : ℚ) : Merging → Prop
  | one _ => True
  | both l r => l.Clear t ∧ r.Clear t ∧
      t ≤ 1 - (l.value t).confidence * (r.value t).confidence ∧
      t ≤ joint (l.value t).confidence (r.value t).confidence

theorem leaves_length_pos (m : Merging) : 0 < m.leaves.length := by
  cases m with
  | one a => exact Nat.one_pos
  | both l r =>
    rw [leaves, List.length_append]
    exact Nat.add_pos_left l.leaves_length_pos _

variable {t : ℚ} {m n : Merging}

instance decidableClear (t : ℚ) : (m : Merging) → Decidable (m.Clear t)
  | one _ => .isTrue trivial
  | both l r =>
    haveI := decidableClear t l
    haveI := decidableClear t r
    inferInstanceAs (Decidable (_ ∧ _ ∧ _ ∧ _))

/-- Only one truth value is merged without a merge. -/
theorem eq_one {a : Truth ℚ} (h : m.leaves = [a]) : m = one a := by
  cases m with
  | one b => exact congrArg one (List.singleton_inj.mp h)
  | both l r =>
    have hlen := congrArg List.length h
    have hl := l.leaves_length_pos
    have hr := r.leaves_length_pos
    simp only [leaves, List.length_append, List.length_singleton] at hlen
    omega

/-- Evidence stays evidence. -/
theorem proper_value (ht : 0 < t) (hm : ∀ a ∈ m.leaves, a.Proper) (hclear : m.Clear t) :
    (m.value t).Proper := by
  induction m with
  | one a => exact hm a (List.mem_singleton_self a)
  | both l r ihl ihr =>
    obtain ⟨hl, hr, hscale, _⟩ := hclear
    exact (ihl (fun a ha => hm a (List.mem_append_left _ ha)) hl).revise
      (ihr (fun a ha => hm a (List.mem_append_right _ ha)) hr) ht hscale

/-- **A merging has the evidence of its leaves**, and the evidence in favor. -/
theorem odds_value (ht : 0 < t) (hm : ∀ a ∈ m.leaves, a.Proper) (hclear : m.Clear t) :
    odds (m.value t).confidence = (m.leaves.map fun a => odds a.confidence).sum ∧
      support (m.value t) = (m.leaves.map support).sum := by
  induction m with
  | one a => exact ⟨(List.sum_singleton).symm, (List.sum_singleton).symm⟩
  | both l r ihl ihr =>
    obtain ⟨hl, hr, hscale, hjoint⟩ := hclear
    have hml : ∀ a ∈ l.leaves, a.Proper := fun a ha => hm a (List.mem_append_left _ ha)
    have hmr : ∀ a ∈ r.leaves, a.Proper := fun a ha => hm a (List.mem_append_right _ ha)
    obtain ⟨hlo, hls⟩ := ihl hml hl
    obtain ⟨hro, hrs⟩ := ihr hmr hr
    have hpl := proper_value ht hml hl
    have hpr := proper_value ht hmr hr
    rw [leaves, List.map_append, List.map_append, List.sum_append, List.sum_append, ← hlo, ← hro,
      ← hls, ← hrs]
    exact ⟨odds_revise hpl hpr hscale, support_revise hpl hpr hscale ht hjoint⟩

/-- A merge that does not fall under the threshold has some evidence. -/
theorem odds_both_pos {l r : Merging} (ht : 0 < t) (hm : ∀ a ∈ (both l r).leaves, a.Proper)
    (hclear : (both l r).Clear t) : 0 < odds ((both l r).value t).confidence := by
  have hproper := proper_value ht hm hclear
  obtain ⟨hl, hr, hscale, hjoint⟩ := hclear
  have hpl := proper_value ht (fun a ha => hm a (List.mem_append_left _ ha)) hl
  have hpr := proper_value ht (fun a ha => hm a (List.mem_append_right _ ha)) hr
  refine odds_pos ?_ hproper.confidence_lt_one
  show 0 < (revise t (l.value t) (r.value t)).confidence
  rw [revise_confidence_of_le hpl hpr hscale]
  exact div_pos (ht.trans_le hjoint) (scale_pos hpl hpr)

/-- **The order and the grouping do not matter.** -/
theorem value_perm (ht : 0 < t) (hperm : m.leaves.Perm n.leaves)
    (hm : ∀ a ∈ m.leaves, a.Proper) (hmc : m.Clear t) (hnc : n.Clear t) :
    m.value t = n.value t := by
  have hn : ∀ a ∈ n.leaves, a.Proper := fun a ha => hm a (hperm.mem_iff.mpr ha)
  cases m with
  | one a => rw [eq_one (List.singleton_perm.mp hperm).symm]
  | both l r =>
    cases n with
    | one b => cases eq_one (List.perm_singleton.mp hperm)
    | both l' r' =>
      have hpos := odds_both_pos ht hm hmc
      obtain ⟨hmo, hms⟩ := odds_value ht hm hmc
      obtain ⟨hno, hns⟩ := odds_value ht hn hnc
      have hodds : odds ((both l r).value t).confidence =
          odds ((both l' r').value t).confidence := by
        rw [hmo, hno]
        exact (hperm.map _).sum_eq
      have hsupport : support ((both l r).value t) = support ((both l' r').value t) := by
        rw [hms, hns]
        exact (hperm.map _).sum_eq
      have hconfidence := odds_inj (proper_value ht hm hmc).confidence_lt_one
        (proper_value ht hn hnc).confidence_lt_one hodds
      unfold support at hsupport
      rw [← hodds] at hsupport
      exact congrArg₂ Truth.mk (mul_right_cancel₀ hpos.ne' hsupport) hconfidence

end Merging

/-! ## 5. The threshold of floats -/

theorem exactThreshold_pos : 0 < exactThreshold := by
  unfold exactThreshold
  norm_num

/-- **Revision adds evidence.** The sides may be exchanged, the merged frequency lies between
theirs, and nothing is divided by zero. Above the threshold no confidence is lost, none becomes
certain, and the evidence adds; where there is evidence to speak of, so does the evidence in favor.
Hence the order and the grouping in which truth values are merged do not matter, while no merge
falls under the threshold. -/
theorem revise_adds_evidence :
    (∀ a b : Truth ℚ, a.Proper → b.Proper →
      let r := revise exactThreshold a b
      r = revise exactThreshold b a ∧
      min a.frequency b.frequency ≤ r.frequency ∧ r.frequency ≤ max a.frequency b.frequency ∧
      revise (defined exactThreshold) a.checked b.checked = r.checked ∧
      (exactThreshold ≤ 1 - a.confidence * b.confidence →
        max a.confidence b.confidence ≤ r.confidence ∧ r.confidence < 1 ∧
        r.confidence / (1 - r.confidence) =
          a.confidence / (1 - a.confidence) + b.confidence / (1 - b.confidence) ∧
        (exactThreshold ≤ a.confidence * (1 - b.confidence) + b.confidence * (1 - a.confidence) →
          r.frequency * (r.confidence / (1 - r.confidence)) =
            a.frequency * (a.confidence / (1 - a.confidence)) +
              b.frequency * (b.confidence / (1 - b.confidence))))) ∧
    ∀ m n : Merging, m.leaves.Perm n.leaves → (∀ a ∈ m.leaves, a.Proper) →
      m.Clear exactThreshold → n.Clear exactThreshold →
        m.value exactThreshold = n.value exactThreshold := by
  refine ⟨fun a b ha hb => ?_, fun m n hperm hm hmc hnc =>
    Merging.value_perm exactThreshold_pos hperm hm hmc hnc⟩
  obtain ⟨hmin, hmax⟩ := revise_frequency_between ha hb exactThreshold_pos
  refine ⟨revise_comm _ a b, hmin, hmax, revise_checked exactThreshold_pos a b, fun hscale => ?_⟩
  exact ⟨le_revise_confidence ha hb hscale, revise_confidence_lt ha hb hscale,
    odds_revise ha hb hscale, fun hjoint => support_revise ha hb hscale exactThreshold_pos hjoint⟩

/-- One case for and one case against are two cases; with two more for, three of four are for, in
whatever order they come in. -/
theorem revise_adds_evidence_cases :
    let pro : Truth ℚ := ⟨1, 1 / 2⟩
    let con : Truth ℚ := ⟨0, 1 / 2⟩
    let pros : Truth ℚ := ⟨1, 2 / 3⟩
    ((revise exactThreshold pro con).confidence / (1 - (revise exactThreshold pro con).confidence) =
      1 / 2 / (1 - 1 / 2) + 1 / 2 / (1 - 1 / 2)) ∧
    (Merging.both (.both (.one pro) (.one con)) (.one pros)).value exactThreshold =
      (Merging.both (.one con) (.both (.one pros) (.one pro))).value exactThreshold := by
  intro pro con pros
  have hpro : pro.Proper := by constructor <;> norm_num [pro]
  have hcon : con.Proper := by constructor <;> norm_num [con]
  have hpros : pros.Proper := by constructor <;> norm_num [pros]
  obtain ⟨hrevise, hmerging⟩ := revise_adds_evidence
  refine ⟨((hrevise pro con hpro hcon).2.2.2.2 (by decide +kernel)).2.2.1,
    hmerging _ _ (by decide +kernel) ?_ (by decide +kernel) (by decide +kernel)⟩
  intro a ha
  simp only [Merging.leaves, List.cons_append, List.nil_append, List.mem_cons,
    List.not_mem_nil, or_false] at ha
  rcases ha with rfl | rfl | rfl
  · exact hpro
  · exact hcon
  · exact hpros

end Truth

end CellComplex
