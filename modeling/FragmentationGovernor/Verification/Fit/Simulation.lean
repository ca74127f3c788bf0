import FragmentationGovernor.Verification.Fit.Metrics
import FragmentationGovernor.Verification.Layout.Registry

/-! # The meaning of the reclaim simulation

The fit analysis and the metrics remove allocations from a copy of a layout to learn what
reclaiming could free. What the copy shows is the gaps between the allocations that stay. -/

namespace FragmentationGovernor.ResourceLayout

/-! ## Gaps -/

/-- Some span of `len` bytes within the capacity has no byte in common with an allocation that
cannot be reclaimed. -/
def SpanFree (l : ResourceLayout) (len : ℕ) : Prop :=
  ∃ off, off + len ≤ l.capacity.toNat ∧
    ∀ id b, l.allocations.find? id = some b → Fit.reclaimable b = false →
      off + len ≤ b.offset.toNat ∨ b.offset.toNat + b.length.toNat ≤ off

section Simulation

variable {l sim : ResourceLayout}
  (h : Cleared (selectIds Fit.reclaimable l.allocations.entries) l sim)

include h

theorem Cleared.le_largestFreeBlock_iff (len : ℕ) :
    len ≤ sim.largestFreeBlock.toNat ↔ l.SpanFree len := by
  rw [h.valid.le_toNat_largestFreeBlock_iff, h.capacity_eq, SpanFree]
  simp only [h.find?_eq_some_iff, and_imp]

/-- The largest block of the copy is the longest gap. -/
theorem Cleared.isGreatest_largestFreeBlock :
    IsGreatest {len | l.SpanFree len} sim.largestFreeBlock.toNat := by
  constructor
  · exact (h.le_largestFreeBlock_iff _).mp (le_refl _)
  · intro len hlen
    exact (h.le_largestFreeBlock_iff len).mpr hlen

theorem Cleared.free_add_kept :
    sim.freeCapacity.toNat + l.lengthWhere (fun a => !Fit.reclaimable a) = l.capacity.toNat := by
  rw [← h.allocatedLength_eq, ← h.capacity_eq]
  exact h.valid.free_add_allocated

end Simulation

/-! ## The simulation -/

/-- On a layout a program can hold the simulation goes through. It shows what the allocations
that cannot be reclaimed leave free, and the opportunity in the metrics is what the longest gap
between these exceeds the largest free block by. -/
theorem reclaim_simulation {l : ResourceLayout} (h : l.Reachable) :
    ∃ sim, Removes (selectIds Fit.reclaimable l.allocations.entries) l sim ∧
      Fit.reclaimAll l = .ok sim ∧
      FragmentationMetrics.reclaimEligible l.allocations.entries l = .ok (some sim) ∧
      sim.freeCapacity.toNat + l.lengthWhere (fun a => !Fit.reclaimable a) = l.capacity.toNat ∧
      (∀ len, len ≤ sim.largestFreeBlock.toNat ↔ l.SpanFree len) ∧
      ∀ d, ∃ m n, computeMetrics l (some d) = .ok m ∧ IsGreatest {len | l.SpanFree len} n ∧
        m.reclaimableOpportunity.toNat + l.largestFreeBlock.toNat = n := by
  have hvalid := h.valid
  obtain ⟨sim, hremoves, hcleared⟩ := hvalid.removes Fit.reclaimable
  have heligible : FragmentationMetrics.reclaimEligible l.allocations.entries l =
      .ok (some sim) := by
    apply Removes.reclaimEligible
    rw [eligibleForReclaim_eq_reclaimable]
    exact hremoves
  refine ⟨sim, hremoves, hremoves.foldlM_reclaim, heligible, hcleared.free_add_kept,
    hcleared.le_largestFreeBlock_iff, ?_⟩
  intro d
  obtain ⟨m, hm, hmeasures, hserves⟩ := hvalid.computeMetrics (some d)
  refine ⟨m, _, hm, hcleared.isGreatest_largestFreeBlock, ?_⟩
  obtain ⟨sim', hsim', hopportunity⟩ := (hserves d rfl).opportunity_eq
  rw [heligible] at hsim'
  cases hsim'
  have hgrows := Quantity.le_iff.mp (hvalid.largestFreeBlock_le hcleared.valid
    hcleared.capacity_eq (fun _ _ => hcleared.find?_of_some))
  rw [hopportunity, hmeasures.largestFreeBlock_eq]
  omega

/-- An allocation that stays and one that can be reclaimed. -/
theorem reclaim_simulation_divided :
    ∃ l, (ofCapacity ⟨100⟩).calls
        [.insert { id := ⟨1⟩, offset := ⟨0⟩, length := ⟨30⟩, movability := .immovable },
          .insert { id := ⟨2⟩, offset := ⟨50⟩, length := ⟨20⟩, movability := .releaseable }] =
        .ok l ∧
      ∃ sim, Fit.reclaimAll l = .ok sim ∧
        ∀ len, len ≤ sim.largestFreeBlock.toNat ↔ l.SpanFree len := by
  obtain ⟨l, hl, -⟩ := (valid_ofCapacity ⟨100⟩).calls
    [.insert { id := ⟨1⟩, offset := ⟨0⟩, length := ⟨30⟩, movability := .immovable },
      .insert { id := ⟨2⟩, offset := ⟨50⟩, length := ⟨20⟩, movability := .releaseable }]
  obtain ⟨sim, -, hsim, -, -, hblock, -⟩ := reclaim_simulation ⟨⟨100⟩, _, hl⟩
  exact ⟨l, hl, sim, hsim, hblock⟩

end FragmentationGovernor.ResourceLayout
