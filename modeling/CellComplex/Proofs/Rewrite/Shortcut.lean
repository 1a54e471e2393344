import CellComplex.Proofs.Evidence.Undisturbed
import CellComplex.Proofs.Rewrite.Transitive

/-!
# What the transitive rule adds was known

The transitive rule brings some thirty cells of its own and, applied to three points in a row, an
edge from the first to the last. The cells of the rule list each other only, and the edge leads
where two edges led before: inference notices neither.

* `Written.undisturbed`: the cells of a rule;
* `Rule.IsTransitive.undisturbed`: the edge that the rule makes;
* **`transitiveRule_undisturbed`**: writing the transitive rule and applying it, whatever its label
  is and whether applying it succeeds or fails.
-/

namespace CellComplex

open Edit

section Shortcut

variable {s : Store} {label : String} {x y z u v : CellId}
variable {root : Cell} {entries : List (Clause × Cell)} {listings : List Listing}

/-- **The cells of a rule go unnoticed**, if its clauses name no others. -/
theorem Written.undisturbed (hs : s.Consistent) (h : Written s root entries listings)
    (hclosed : ∀ e ∈ entries, ∀ b ∈ e.2.boundary, ∃ e' ∈ entries, e'.2.id = b) :
    s.Undisturbed (ruleStore s root entries listings) :=
  h.lines.undisturbed_of_closed hs (h.ruleCells_closed hclosed)

/-- **Applying the transitive rule goes unnoticed**, whether it succeeds or fails. -/
theorem Rule.IsTransitive.undisturbed {rule : Rule} {n : Nat → CellId}
    (h : rule.IsTransitive label n) (hs : s.Consistent) (hx : s.IsLivePoint x)
    (hy : s.IsLivePoint y) (hz : s.IsLivePoint z) (hu : s.Answers label x y u)
    (hv : s.Answers label y z v) :
    s.Undisturbed ((Space.rewrite rule [x, y, z, u, v]).applyTo s).2 := by
  obtain ⟨t, c, hrewrite, hlines, hmarks, hsay⟩ := h.rewrite_ok hs hx hy hz hu hv
  rw [applyTo_eq hrewrite]
  have hpushed := hlines.undisturbed_of_shortcut hs hx hy hz hu hv hsay.boundary
  exact hpushed.trans (Store.undisturbed_of_find fun id =>
    (hmarks.find id).trans (if_neg List.not_mem_nil))

/-- **The transitive rule is written and applied unnoticed**, whatever its label is and whether
applying it succeeds or fails. -/
theorem transitiveRule_undisturbed (hs : s.Reachable) (label : String) :
    ∃ rule t, (transitiveRule label).applyTo s = (.ok rule, t) ∧ t.Reachable ∧ s.Undisturbed t ∧
      ∀ x y z u v, s.IsLivePoint x → s.IsLivePoint y → s.IsLivePoint z →
        s.Answers label x y u → s.Answers label y z v →
          (t.buildIndex t.lookup).Undisturbed
            ((Space.rewriteBy rule [x, y, z, u, v]).applyTo (t.buildIndex t.lookup)).2 := by
  obtain ⟨root, entries, listings, hwritten, hwrite, hnamed, hdims, hreach⟩ :=
    transitiveRule_reachable hs label
  have hkept : ∀ id c, s.find? id = some c →
      (ruleStore s root entries listings).find? id = some c :=
    fun _ _ hc => hwritten.lines.find?_kept hc
  refine ⟨root.id, _, hwrite, hreach,
    hwritten.undisturbed hs.consistent (hwritten.closed_transitive hnamed), ?_⟩
  intro x y z u v hx hy hz hu hv
  by_cases hword : label = Label.bind ∨ label = Label.nobind
  · cases hcompile : Rule.compile (.indexed (ruleStore s root entries listings)) root.id with
    | error err =>
      rw [Space.applyTo_rewriteBy_error hcompile]
      exact .refl _
    | ok rule =>
      rcases hword with hword | hword
      · exact absurd hcompile
          (hwritten.compile_ne_of_bind hnamed hs.consistent s.nextId_succ_injective hword)
      · exact absurd hcompile (hwritten.compile_ne_of_nobind hnamed hs.consistent hword)
  · obtain ⟨hbind, hnobind⟩ := not_or.mp hword
    obtain ⟨rule, hcompile, htransitive⟩ :=
      hwritten.compile_transitive hs.consistent hnamed hdims hbind hnobind
    rw [Space.applyTo_rewriteBy_ok hcompile]
    exact htransitive.undisturbed hreach.buildIndex.consistent (hx.mono hkept) (hy.mono hkept)
      (hz.mono hkept) (hu.mono hkept) (hv.mono hkept)

end Shortcut

end CellComplex
