import FragmentationGovernor.Verification.Layout.Reclaim

/-! # The metrics of a valid layout

No checked operation of `compute_metrics` raises on a valid layout, and every figure is the one
of the layout it stands for. -/

namespace FragmentationGovernor

/-! ## Checked sums and differences -/

theorem exists_excess_ok (a b : Bytes) : ∃ c, excess a b = .ok c ∧ c.toNat = a.toNat - b.toNat := by
  by_cases h : a > b
  · have hlt : b.toNat < a.toNat := h
    obtain ⟨c, hc, hsum⟩ := Quantity.exists_sub_ok hlt.le
    refine ⟨c, ?_, by omega⟩
    rw [excess, if_pos h]
    exact hc
  · have hle : a.toNat ≤ b.toNat := not_lt.mp h
    refine ⟨0, ?_, by rw [Quantity.toNat_zero]; omega⟩
    rw [excess, if_neg h]

namespace ResourceLayout.Valid

variable {l : ResourceLayout}

theorem free_le_capacity (h : l.Valid) : l.freeCapacity.toNat ≤ l.capacity.toNat := by
  have := h.free_add_allocated
  omega

theorem exists_usedCapacity (h : l.Valid) :
    ∃ used, l.usedCapacity = .ok used ∧
      l.freeCapacity.toNat + used.toNat = l.capacity.toNat :=
  Quantity.exists_sub_ok h.free_le_capacity

/-- The used capacity is what the registered allocations take. -/
theorem exists_usedCapacity_eq (h : l.Valid) :
    ∃ used, l.usedCapacity = .ok used ∧ used.toNat = l.allocatedLength := by
  obtain ⟨used, hused, hsum⟩ := h.exists_usedCapacity
  have hcap := h.free_add_allocated
  exact ⟨used, hused, by omega⟩

/-- The lengths of the allocations of any kind add up without overflow. -/
theorem exists_sumLengths (h : l.Valid) (p : Allocation → Bool) :
    ∃ total, FragmentationMetrics.sumLengths p l = .ok total ∧ total.toNat = l.lengthWhere p := by
  have hstep : ∀ e ∈ l.allocations.entries, ∀ t c : Bytes,
      (if p e.2 then t.add e.2.length else .ok t) = .ok c ↔
        t.toNat + (if p e.2 then e.2.length.toNat else 0) = c.toNat := by
    intro e _ t c
    by_cases hp : p e.2 = true
    · rw [if_pos hp, if_pos hp]
      exact Quantity.add_eq_ok_iff
    · rw [if_neg hp, if_neg hp, Except.ok.injEq, add_zero]
      exact Quantity.eq_iff
  have hsplit := lengthWhere_add_not p l
  have hcap := h.free_add_allocated
  have hlt := l.capacity.toNat_lt
  unfold lengthWhere at hsplit ⊢
  obtain ⟨total, htotal, hsum⟩ := Quantity.exists_foldlM_ok (a := 0) hstep (by
    rw [Quantity.toNat_zero]
    omega)
  refine ⟨total, htotal, ?_⟩
  rw [hsum, Quantity.toNat_zero, zero_add]

end ResourceLayout.Valid

/-! ## The metrics -/

namespace FragmentationMetrics

/-- The metrics are those of the layout. -/
structure Measures (l : ResourceLayout) (m : FragmentationMetrics) : Prop where
  totalCapacity_eq : m.totalCapacity = l.capacity
  usedCapacity_eq : m.usedCapacity.toNat = l.allocatedLength
  freeCapacity_eq : m.freeCapacity = l.freeCapacity
  blockCount_eq : m.blockCount = l.freeBlockCount
  largestFreeBlock_eq : m.largestFreeBlock = l.largestFreeBlock
  protectedCapacity_eq : m.protectedCapacity.toNat = l.lengthWhere isProtected
  movableCapacity_eq : m.movableCapacity.toNat = l.lengthWhere isMovableClass
  reclaimableCapacity_eq : m.reclaimableCapacity.toNat = l.lengthWhere eligibleForReclaim
  strandedCapacity_eq :
    m.strandedCapacity.toNat = l.freeCapacity.toNat - l.largestFreeBlock.toNat

/-- The part of the metrics on a demand is that of the demand. -/
structure Serves (l : ResourceLayout) (d : WorkloadDemand) (m : FragmentationMetrics) : Prop where
  usable_eq :
    m.workloadUsableCapacity = if m.workloadFits then d.aggregateMemory else m.largestFreeBlock
  stranded_eq :
    m.workloadStrandedCapacity.toNat = m.freeCapacity.toNat - m.workloadUsableCapacity.toNat
  opportunity_eq : ∃ sim, reclaimEligible l.allocations.entries l = .ok (some sim) ∧
    m.reclaimableOpportunity.toNat = sim.largestFreeBlock.toNat - m.largestFreeBlock.toNat

end FragmentationMetrics

namespace ResourceLayout.Valid

variable {l : ResourceLayout}

theorem ofLayout (h : l.Valid) :
    ∃ m, FragmentationMetrics.ofLayout l = .ok m ∧ m.Measures l := by
  obtain ⟨used, hused, husedEq⟩ := h.exists_usedCapacity_eq
  obtain ⟨p, hp, hpEq⟩ := h.exists_sumLengths isProtected
  obtain ⟨mv, hmv, hmvEq⟩ := h.exists_sumLengths isMovableClass
  obtain ⟨rc, hrc, hrcEq⟩ := h.exists_sumLengths eligibleForReclaim
  obtain ⟨stranded, hstranded, hstrandedEq⟩ := exists_excess_ok l.freeCapacity l.largestFreeBlock
  simp only [FragmentationMetrics.ofLayout]
  rw [hused, ok_bind, hp, ok_bind, hmv, ok_bind, hrc, ok_bind, hstranded, ok_bind]
  exact ⟨_, rfl, rfl, husedEq, rfl, rfl, rfl, hpEq, hmvEq, hrcEq, hstrandedEq⟩

theorem withDemand (h : l.Valid) {m : FragmentationMetrics} (hm : m.Measures l)
    (d : WorkloadDemand) :
    ∃ m', m.withDemand l d = .ok m' ∧ m'.Measures l ∧ m'.Serves l d := by
  obtain ⟨sim, hsim, -⟩ := h.reclaimEligible
  obtain ⟨stranded, hstranded, hstrandedEq⟩ := exists_excess_ok m.freeCapacity
    (if (decide (m.freeCapacity ≥ d.aggregateMemory) &&
      (!decide (d.contiguousMemory.value > 0) ||
        decide (m.largestFreeBlock ≥ d.contiguousMemory))) = true
      then d.aggregateMemory else m.largestFreeBlock)
  obtain ⟨opportunity, hopp, hoppEq⟩ := exists_excess_ok sim.largestFreeBlock m.largestFreeBlock
  simp only [FragmentationMetrics.withDemand]
  rw [hstranded, ok_bind, hsim, ok_bind]
  dsimp only
  rw [hopp, ok_bind]
  refine ⟨_, rfl, ?_, rfl, hstrandedEq, sim, hsim, hoppEq⟩
  exact ⟨hm.totalCapacity_eq, hm.usedCapacity_eq, hm.freeCapacity_eq, hm.blockCount_eq,
    hm.largestFreeBlock_eq, hm.protectedCapacity_eq, hm.movableCapacity_eq,
    hm.reclaimableCapacity_eq, hm.strandedCapacity_eq⟩

/-- The metrics of a valid layout can always be computed, and measure it. -/
theorem computeMetrics (h : l.Valid) (demand : Option WorkloadDemand) :
    ∃ m, computeMetrics l demand = .ok m ∧ m.Measures l ∧
      ∀ d, demand = some d → m.Serves l d := by
  obtain ⟨m, hm, hmeasures⟩ := h.ofLayout
  rw [FragmentationGovernor.computeMetrics, hm, ok_bind]
  cases demand with
  | none =>
      refine ⟨m, rfl, hmeasures, ?_⟩
      intro d hd
      cases hd
  | some d =>
      obtain ⟨m', hm', hmeasures', hserves⟩ := h.withDemand hmeasures d
      refine ⟨m', hm', hmeasures', ?_⟩
      intro d' hd'
      cases hd'
      exact hserves

theorem exists_computeMetrics (h : l.Valid) (demand : Option WorkloadDemand) :
    ∃ m, FragmentationGovernor.computeMetrics l demand = .ok m := by
  obtain ⟨m, hm, -⟩ := h.computeMetrics demand
  exact ⟨m, hm⟩

end ResourceLayout.Valid

/-- The metrics call a demand fitting by the aggregate and the contiguous memory. -/
theorem computeMetrics_workloadFits_iff {l : ResourceLayout} {d : WorkloadDemand}
    {m : FragmentationMetrics} (h : computeMetrics l (some d) = .ok m) :
    m.workloadFits = true ↔
      d.aggregateMemory ≤ l.freeCapacity ∧ d.contiguousMemory ≤ l.largestFreeBlock := by
  rw [computeMetrics, bind_eq_ok] at h
  obtain ⟨m₀, hm₀, h⟩ := h
  have hbase : m₀.freeCapacity = l.freeCapacity ∧ m₀.largestFreeBlock = l.largestFreeBlock := by
    simp only [FragmentationMetrics.ofLayout, bind_eq_ok] at hm₀
    obtain ⟨used, -, p, -, mv, -, rc, -, stranded, -, hm₀⟩ := hm₀
    cases hm₀
    exact ⟨rfl, rfl⟩
  simp only [FragmentationMetrics.withDemand, bind_eq_ok] at h
  obtain ⟨stranded, -, sim, -, h⟩ := h
  have hfits : m.workloadFits = (decide (m₀.freeCapacity ≥ d.aggregateMemory) &&
      (!decide (d.contiguousMemory.value > 0) ||
        decide (m₀.largestFreeBlock ≥ d.contiguousMemory))) := by
    cases sim with
    | none =>
        cases h
        rfl
    | some sim =>
        rw [bind_eq_ok] at h
        obtain ⟨opportunity, -, h⟩ := h
        cases h
        rfl
  -- a requirement of zero bytes is met by any block
  have hcontiguous : (¬ d.contiguousMemory.value > 0 ∨
      l.largestFreeBlock ≥ d.contiguousMemory) ↔ d.contiguousMemory ≤ l.largestFreeBlock := by
    constructor
    · rintro (hzero | hle)
      · have hle : d.contiguousMemory ≤ 0 := not_lt.mp hzero
        exact hle.trans (Nat.zero_le _)
      · exact hle
    · exact Or.inr
  rw [hfits, hbase.1, hbase.2, Bool.and_eq_true, Bool.or_eq_true, Bool.not_eq_true',
    decide_eq_false_iff_not, decide_eq_true_eq, decide_eq_true_eq, hcontiguous]

end FragmentationGovernor
