import FragmentationGovernor.Verification.Fit.Correctness

/-! # Conservation of the metrics

The capacities that `compute_metrics` reports add up: every byte is used or free, every used
byte protected or reclaimable, every free byte in the largest block or stranded. -/

namespace FragmentationGovernor

/-! ## Allocations are protected or reclaimable -/

/-- The two tests of the metrics are each other's negation. -/
theorem eligibleForReclaim_eq_not_isProtected (a : Allocation) :
    eligibleForReclaim a = !isProtected a := by
  unfold eligibleForReclaim isProtected
  cases a.policyProtected with
  | true => rfl
  | false =>
      cases a.reservation with
      | some r => rfl
      | none => cases a.movability <;> rfl

namespace ResourceLayout

theorem lengthWhere_protected_add_reclaimable (l : ResourceLayout) :
    l.lengthWhere isProtected + l.lengthWhere eligibleForReclaim = l.allocatedLength := by
  have hnot : eligibleForReclaim = fun a => !isProtected a :=
    funext eligibleForReclaim_eq_not_isProtected
  rw [hnot, lengthWhere_add_not]

/-! ## The free blocks -/

namespace Valid

variable {l : ResourceLayout}

theorem pos_of_mem_freeLengths (h : l.Valid) {x : Bytes} (hx : x ∈ l.freeLengths) :
    0 < x.toNat := by
  rw [h.freeLengths_eq] at hx
  obtain ⟨e, he, hlen⟩ := List.mem_filterMap.mp hx
  have hpos := (h.tiles.bounds he).2.1
  unfold freeLength? at hlen
  split_ifs at hlen
  cases hlen
  exact hpos

/-- The number of free blocks is a 64-bit value. -/
theorem toNat_freeBlockCount (h : l.Valid) :
    l.freeBlockCount.toNat = Multiset.card l.freeLengths := by
  have hcard := card_le_sum (fun _ => h.pos_of_mem_freeLengths)
  have hlt := l.freeCapacity.toNat_lt
  rw [← h.freeCapacity_eq] at hcard
  exact Quantity.toNat_ofNat (by omega)

theorem largestFreeBlock_lt_iff (h : l.Valid) :
    l.largestFreeBlock < l.freeCapacity ↔ 1 < l.freeBlockCount.toNat := by
  rw [Quantity.lt_iff, h.freeCapacity_eq, h.toNat_freeBlockCount]
  exact fold_max_lt_sum_iff (fun _ => h.pos_of_mem_freeLengths)

end Valid

end ResourceLayout

/-! ## The metrics -/

/-- The metrics of a layout a program can hold are computed without an error; they are those of
its regions and allocations, and of the demand, and they conserve capacity. -/
theorem computeMetrics_conserves {l : ResourceLayout} (h : l.Reachable)
    (demand : Option WorkloadDemand) :
    ∃ m, computeMetrics l demand = .ok m ∧ m.Measures l ∧
      (∀ d, demand = some d → m.Serves l d) ∧
      m.usedCapacity.toNat + m.freeCapacity.toNat = m.totalCapacity.toNat ∧
      m.protectedCapacity.toNat + m.reclaimableCapacity.toNat = m.usedCapacity.toNat ∧
      m.largestFreeBlock.toNat + m.strandedCapacity.toNat = m.freeCapacity.toNat ∧
      (0 < m.strandedCapacity.toNat ↔ 1 < m.blockCount.toNat) ∧
      (demand.isSome = true →
        m.workloadUsableCapacity.toNat + m.workloadStrandedCapacity.toNat =
          m.freeCapacity.toNat) := by
  have hvalid := h.valid
  have htotal := hvalid.free_add_allocated
  have hkinds := l.lengthWhere_protected_add_reclaimable
  have hblock := Quantity.le_iff.mp (largestFreeBlock_le_freeCapacity hvalid)
  have hseveral := hvalid.largestFreeBlock_lt_iff
  rw [Quantity.lt_iff] at hseveral
  obtain ⟨m, hm, hmeasures, hserves⟩ := hvalid.computeMetrics demand
  have hstranded := hmeasures.strandedCapacity_eq
  refine ⟨m, hm, hmeasures, hserves, ?_, ?_, ?_, ?_, ?_⟩
  · rw [hmeasures.usedCapacity_eq, hmeasures.freeCapacity_eq, hmeasures.totalCapacity_eq]
    omega
  · rw [hmeasures.protectedCapacity_eq, hmeasures.reclaimableCapacity_eq, hkinds,
      hmeasures.usedCapacity_eq]
  · rw [hmeasures.largestFreeBlock_eq, hmeasures.freeCapacity_eq]
    omega
  · rw [hmeasures.blockCount_eq, ← hseveral]
    omega
  · intro hdemand
    obtain ⟨d, rfl⟩ := Option.isSome_iff_exists.mp hdemand
    have hs := hserves d rfl
    have hsum := hs.stranded_eq
    have husable : m.workloadUsableCapacity.toNat ≤ m.freeCapacity.toNat := by
      rw [hs.usable_eq, hmeasures.freeCapacity_eq]
      by_cases hfits : m.workloadFits = true
      · rw [if_pos hfits]
        exact ((computeMetrics_workloadFits_iff hm).mp hfits).1
      · rw [if_neg hfits, hmeasures.largestFreeBlock_eq]
        exact hblock
    omega

/-- A device of 100 bytes with an immovable and a releasable allocation. -/
def dividedLayout : ResourceLayout :=
  match (ResourceLayout.ofCapacity ⟨100⟩).calls
    [.insert { id := ⟨1⟩, offset := ⟨0⟩, length := ⟨30⟩, movability := .immovable },
      .insert { id := ⟨2⟩, offset := ⟨50⟩, length := ⟨20⟩, movability := .releaseable }] with
  | .ok l => l
  | .error _ => .ofCapacity ⟨100⟩

theorem reachable_dividedLayout : dividedLayout.Reachable := by
  rw [dividedLayout]
  split
  · exact ⟨_, _, by assumption⟩
  · exact .ofCapacity _

/-- For 40 bytes the smaller of the two blocks is stranded. -/
theorem computeMetrics_conserves_dividedLayout :
    ∃ m, computeMetrics dividedLayout
          (some { aggregateMemory := ⟨40⟩, contiguousMemory := ⟨40⟩ }) = .ok m ∧
      m.Measures dividedLayout ∧ dividedLayout.largestFreeBlock = ⟨30⟩ ∧
      m.usedCapacity.toNat + m.freeCapacity.toNat = m.totalCapacity.toNat ∧
      m.protectedCapacity.toNat + m.reclaimableCapacity.toNat = m.usedCapacity.toNat ∧
      m.largestFreeBlock.toNat + m.strandedCapacity.toNat = m.freeCapacity.toNat ∧
      0 < m.strandedCapacity.toNat ∧
      m.workloadUsableCapacity.toNat + m.workloadStrandedCapacity.toNat =
        m.freeCapacity.toNat := by
  obtain ⟨m, hm, hmeasures, -, hused, hkinds, hstranded, hseveral, husable⟩ :=
    computeMetrics_conserves reachable_dividedLayout
      (some { aggregateMemory := ⟨40⟩, contiguousMemory := ⟨40⟩ })
  have hblocks : 1 < m.blockCount.toNat := by
    rw [hmeasures.blockCount_eq]
    decide
  exact ⟨m, hm, hmeasures, by decide, hused, hkinds, hstranded, hseveral.mpr hblocks,
    husable rfl⟩

end FragmentationGovernor
