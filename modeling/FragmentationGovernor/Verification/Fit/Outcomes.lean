import FragmentationGovernor.Verification.Verify.Correctness

/-! # What the outcomes promise

FIT_NOW is an answer the layouts can honour: enough of the selected devices accept a new
allocation of the per-device length. The other requirements of a demand, and the other
outcomes, are met only under the conditions given here. -/

namespace FragmentationGovernor

open Fit

/-! ## Accepted allocations -/

/-- An allocation of this length with a new id can be inserted at some offset. -/
def Accepts (l : ResourceLayout) (len : Bytes) : Prop :=
  ∃ a l', a.length = len ∧ l.allocations.find? a.id = none ∧
    l.insertAllocation a = .ok (l', .ok ())

/-- A layout has fewer allocations than there are ids. -/
theorem ResourceLayout.Valid.exists_new_id {l : ResourceLayout} (h : l.Valid) :
    ∃ id, l.allocations.find? id = none := by
  have hsize : l.allocations.entries.length < 2 ^ 64 := by
    have hle := h.size_le_allocatedLength
    have hsum := h.free_add_allocated
    have hlt := l.capacity.toNat_lt
    rw [OrdMap.size] at hle
    omega
  have hcard : (l.allocations.entries.map (fun e => e.1.toNat)).toFinset.card <
      (Finset.range (2 ^ 64)).card := by
    rw [Finset.card_range]
    refine lt_of_le_of_lt (List.toFinset_card_le _) ?_
    rw [List.length_map]
    exact hsize
  obtain ⟨n, hn, hnew⟩ := Finset.exists_mem_notMem_of_card_lt_card hcard
  refine ⟨⟨UInt64.ofNat n⟩, ?_⟩
  by_contra hfind
  obtain ⟨a, ha⟩ := Option.ne_none_iff_exists'.mp hfind
  apply hnew
  rw [List.mem_toFinset, List.mem_map]
  refine ⟨_, OrdMap.find?_eq_some_iff.mp ha, ?_⟩
  exact UInt64.toNat_ofNat_of_lt' (Finset.mem_range.mp hn)

theorem ResourceLayout.Valid.accepts_iff {l : ResourceLayout} (h : l.Valid) {len : Bytes}
    (hpos : 0 < len.toNat) : Accepts l len ↔ len ≤ l.largestFreeBlock := by
  constructor
  · rintro ⟨a, l', rfl, hnew, hins⟩
    rw [← h.exists_grants_iff hpos hnew]
    refine ⟨a.offset, ?_⟩
    rcases h.answer_cases (.insert a) with ⟨hgrant, -⟩ | ⟨-, e, heq⟩
    · exact hgrant
    · rw [ResourceLayout.answer, hins] at heq
      cases heq
  · intro hle
    obtain ⟨id, hnew⟩ := h.exists_new_id
    obtain ⟨off, hgrant⟩ :=
      (h.exists_grants_iff (a := { id := id, length := len }) hpos hnew).mpr hle
    rcases h.answer_cases (.insert { id := id, length := len, offset := off }) with
      ⟨-, l', heq, -⟩ | ⟨hnot, -⟩
    · exact ⟨_, l', rfl, hnew, heq⟩
    · exact (hnot hgrant).elim

/-! ## The positive answer -/

theorem le_countP_iff_exists_sublist {α : Type} {p : α → Bool} {xs : List α} {n : ℕ} :
    n ≤ xs.countP p ↔ ∃ ys : List α, ys.Sublist xs ∧ n ≤ ys.length ∧ ∀ y ∈ ys, p y = true := by
  rw [List.countP_eq_length_filter]
  constructor
  · intro hle
    exact ⟨xs.filter p, List.filter_sublist, hle, fun y hy => (List.mem_filter.mp hy).2⟩
  · rintro ⟨ys, hsub, hle, hall⟩
    have hfilter := (hsub.filter p).length_le
    rw [List.filter_eq_self.mpr hall] at hfilter
    omega

/-- Enough devices satisfy the requirement exactly when enough of them accept an allocation of
that length. -/
theorem needed_le_satisfying_iff {d : WorkloadDemand} {ds : List DeviceState}
    (h : ∀ s ∈ ds, s.layout.Valid) (hpos : 0 < d.perDeviceMemory.toNat) :
    (neededCount d).toNat ≤ satisfying d (ds.map (fun s => s.layout)) ↔
      ∃ hosts : List DeviceState, hosts.Sublist ds ∧ max 1 d.acceleratorCount.toNat ≤ hosts.length ∧
        ∀ s ∈ hosts, Accepts s.layout d.perDeviceMemory := by
  rw [toNat_neededCount, satisfying_eq_countP (valid_layouts h), List.countP_map,
    le_countP_iff_exists_sublist]
  apply exists_congr
  intro hosts
  refine and_congr_right (fun hsub => and_congr_right (fun _ => forall₂_congr ?_))
  intro s hs
  rw [(h s (hsub.subset hs)).accepts_iff hpos]
  exact decide_eq_true_iff

/-- FIT_NOW can be realised, and is the answer whenever something can be: the devices admitted
by the topology constraint have the aggregate free, and as many of them as needed accept a new
allocation of the per-device length at some offset. -/
theorem analyzeFit_fitNow_realisable (sn : FragmentationSnapshot) (d : WorkloadDemand)
    (hreach : ∀ s ∈ sn.devices, s.layout.Reachable) (hne : sn.devices ≠ [])
    (hgen : sn.generations.complete = true) (hprov : sn.provenance ≠ .unknown)
    (hcap : capacityTotal (sn.devices.map (fun s => s.layout)) < 2 ^ 64)
    (hpos : 0 < d.perDeviceMemory.toNat) (hdur : d.reservationDuration = none) :
    (∃ r, analyzeFit sn d = .ok r ∧ r.outcome = .fitNow) ↔
      d.aggregateMemory.toNat ≤ freeTotal ((select sn.devices d).map (fun s => s.layout)) ∧
        ∃ hosts : List DeviceState, hosts.Sublist (select sn.devices d) ∧
          max 1 d.acceleratorCount.toNat ≤ hosts.length ∧
          ∀ s ∈ hosts, Accepts s.layout d.perDeviceMemory := by
  have hvalid : ∀ s ∈ sn.devices, s.layout.Valid := fun s hs => (hreach s hs).valid
  have hcountable : Countable d sn.devices := ⟨hvalid, hcap, Or.inr hpos⟩
  have hrep := hcountable.representable.select
  rw [analyzeFit_eq_fitNow_iff hrep.valid, ← needed_le_satisfying_iff hrep.valid hpos]
  constructor
  · exact fun hfits => ⟨hfits.sufficient.2, hfits.sufficient.1⟩
  · rintro ⟨hagg, hneeded⟩
    refine ⟨⟨hgen, hprov, hne⟩, ?_, hrep.freeTotal_lt, ⟨hneeded, hagg⟩, ?_⟩
    · exact satisfying_lt hrep.freeTotal_lt (Or.inr hpos)
    · intro duration hduration
      rw [hdur] at hduration
      cases hduration

/-- A block of 60 bytes, and the one device of the group that accepts it. -/
theorem analyzeFit_fitNow_realisable_groupedSnapshot :
    (∃ r, analyzeFit groupedSnapshot groupDemand = .ok r ∧ r.outcome = .fitNow) ∧
      ∃ hosts : List DeviceState, hosts.Sublist (select groupedSnapshot.devices groupDemand) ∧
        max 1 groupDemand.acceleratorCount.toNat ≤ hosts.length ∧
        ∀ s ∈ hosts, Accepts s.layout groupDemand.perDeviceMemory := by
  have hfits : ∃ r, analyzeFit groupedSnapshot groupDemand = .ok r ∧ r.outcome = .fitNow :=
    exists_of_toOption_outcome (by decide)
  exact ⟨hfits, ((analyzeFit_fitNow_realisable groupedSnapshot groupDemand
    reachable_groupedSnapshot (by simp [groupedSnapshot]) (by decide) (by decide)
    (by decide) (by decide) rfl).mp hfits).2⟩

/-! ## The contiguous requirement -/

/-- FIT_NOW implies a block for the contiguous memory unless the demand passes every test and
no selected device has such a block: the analysis reads the per-device and the aggregate
memory only. -/
theorem analyzeFit_contiguous_iff (sn : FragmentationSnapshot) (d : WorkloadDemand)
    (hreach : ∀ s ∈ sn.devices, s.layout.Reachable) :
    (∀ r, analyzeFit sn d = .ok r → r.outcome = .fitNow →
        ∃ s ∈ select sn.devices d, d.contiguousMemory ≤ s.layout.largestFreeBlock) ↔
      ¬ (FitsNow sn d ∧
        ∀ s ∈ select sn.devices d, s.layout.largestFreeBlock < d.contiguousMemory) := by
  have hvalid : ∀ s ∈ select sn.devices d, s.layout.Valid :=
    fun s hs => (hreach s ((select_sublist _ d).subset hs)).valid
  constructor
  · rintro hclaim ⟨hfits, hsmall⟩
    obtain ⟨r, hr, hout⟩ := (analyzeFit_eq_fitNow_iff hvalid).mpr hfits
    obtain ⟨s, hs, hle⟩ := hclaim r hr hout
    exact absurd hle (not_le.mpr (hsmall s hs))
  · intro hnot r hr hout
    by_contra hnone
    push Not at hnone
    exact hnot ⟨(analyzeFit_eq_fitNow_iff hvalid).mp ⟨r, hr, hout⟩, hnone⟩

/-- Blocks of 200 bytes, where no device has more than 100. -/
def contiguousDemand : WorkloadDemand :=
  { perDeviceMemory := ⟨60⟩, aggregateMemory := ⟨60⟩, contiguousMemory := ⟨200⟩ }

/-- Blocks of 60 bytes, wherever they are. -/
def spanDemand : WorkloadDemand :=
  { perDeviceMemory := ⟨40⟩, aggregateMemory := ⟨60⟩, contiguousMemory := ⟨60⟩ }

theorem analyzeFit_ignores_contiguous :
    (∀ s ∈ groupedSnapshot.devices, s.layout.Reachable) ∧
      (analyzeFit groupedSnapshot contiguousDemand).toOption.map (fun r => r.outcome) =
        some .fitNow ∧
      ¬ ∀ r, analyzeFit groupedSnapshot contiguousDemand = .ok r → r.outcome = .fitNow →
        ∃ s ∈ select groupedSnapshot.devices contiguousDemand,
          contiguousDemand.contiguousMemory ≤ s.layout.largestFreeBlock := by
  have hfits : (analyzeFit groupedSnapshot contiguousDemand).toOption.map
      (fun r => r.outcome) = some .fitNow := by
    decide
  refine ⟨reachable_groupedSnapshot, hfits, ?_⟩
  intro hclaim
  obtain ⟨r, hr, hout⟩ := exists_of_toOption_outcome hfits
  exact absurd (hclaim r hr hout) (by decide)

/-- A contiguous requirement of 60 is met by the device of 100 bytes and not by that of 50. -/
theorem analyzeFit_contiguous_iff_spanDemand :
    (analyzeFit groupedSnapshot spanDemand).toOption.map (fun r => r.outcome) = some .fitNow ∧
      (∀ r, analyzeFit groupedSnapshot spanDemand = .ok r → r.outcome = .fitNow →
        ∃ s ∈ select groupedSnapshot.devices spanDemand,
          spanDemand.contiguousMemory ≤ s.layout.largestFreeBlock) ∧
      ∃ s ∈ select groupedSnapshot.devices spanDemand,
        s.layout.largestFreeBlock < spanDemand.contiguousMemory := by
  refine ⟨by decide, ?_, by decide⟩
  refine (analyzeFit_contiguous_iff groupedSnapshot spanDemand reachable_groupedSnapshot).mpr ?_
  rintro ⟨-, hsmall⟩
  exact absurd hsmall (by decide)

/-! ## The governing device -/

theorem find?_ne_none_of_satisfying {d : WorkloadDemand} {ds : List DeviceState}
    (h : 0 < satisfying d (ds.map (fun s => s.layout))) :
    ds.find? (fun s => deviceSatisfies s.layout d) ≠ none := by
  intro hnone
  rw [List.find?_eq_none] at hnone
  have hzero : satisfying d (ds.map (fun s => s.layout)) = 0 := by
    rw [satisfying, List.map_map]
    apply List.sum_eq_zero
    intro n hn
    obtain ⟨s, hs, rfl⟩ := List.mem_map.mp hn
    exact if_neg (hnone s hs)
  omega

/-- FIT_NOW of a single-resource demand comes with metrics that say the same unless the first
device that satisfies the per-device requirement lacks the aggregate or the contiguous memory:
the analysis adds up all selected devices, the metrics are those of the first. -/
theorem analyzeFit_workloadFits_iff (sn : FragmentationSnapshot) (d : WorkloadDemand)
    (hreach : ∀ s ∈ sn.devices, s.layout.Reachable) (hsingle : d.acceleratorCount = 0) :
    (∀ r, analyzeFit sn d = .ok r → r.outcome = .fitNow →
        r.aggregateMetrics.workloadFits = true) ↔
      (FitsNow sn d → ∀ s, (select sn.devices d).find? (fun s => deviceSatisfies s.layout d) =
        some s → d.aggregateMemory ≤ s.layout.freeCapacity ∧
          d.contiguousMemory ≤ s.layout.largestFreeBlock) := by
  have hvalid : ∀ s ∈ select sn.devices d, s.layout.Valid :=
    fun s hs => (hreach s ((select_sublist _ d).subset hs)).valid
  have hzero : d.acceleratorCount.value = 0 := by rw [hsingle]; rfl
  -- where it fits, the answer is the metrics of the first satisfying device
  have hresult : ∀ r, FitsNow sn d → analyzeFit sn d = .ok r → ∃ s m,
      (select sn.devices d).find? (fun s => deviceSatisfies s.layout d) = some s ∧
        computeMetrics s.layout (some d) = .ok m ∧ r.aggregateMetrics = m := by
    intro r hfits hr
    obtain ⟨r₀, heq⟩ := hfits.analyzeFit_eq
    rw [hr] at heq
    simp only [fitNow] at heq
    rw [if_pos hzero] at heq
    cases hfind : (select sn.devices d).find? (fun s => deviceSatisfies s.layout d) with
    | none =>
        have hpos := (one_le_neededCount d).trans hfits.sufficient.1
        exact (find?_ne_none_of_satisfying hpos hfind).elim
    | some s =>
        rw [hfind] at heq
        obtain ⟨m, hm, heq⟩ := bind_eq_ok.mp heq.symm
        cases heq
        exact ⟨s, m, rfl, hm, rfl⟩
  constructor
  · intro hclaim hfits s hfind
    obtain ⟨r, hr, hout⟩ := (analyzeFit_eq_fitNow_iff hvalid).mpr hfits
    obtain ⟨s', m, hfind', hm, hmetrics⟩ := hresult r hfits hr
    rw [hfind] at hfind'
    cases hfind'
    rw [← computeMetrics_workloadFits_iff hm, ← hmetrics]
    exact hclaim r hr hout
  · intro hgov r hr hout
    have hfits := (analyzeFit_eq_fitNow_iff hvalid).mp ⟨r, hr, hout⟩
    obtain ⟨s, m, hfind, hm, hmetrics⟩ := hresult r hfits hr
    rw [hmetrics, computeMetrics_workloadFits_iff hm]
    exact hgov hfits s hfind

/-- An aggregate of 120 bytes, which the two devices have together and neither alone. -/
def splitDemand : WorkloadDemand := { perDeviceMemory := ⟨40⟩, aggregateMemory := ⟨120⟩ }

theorem analyzeFit_verdicts_disagree :
    (∀ s ∈ groupedSnapshot.devices, s.layout.Reachable) ∧ splitDemand.acceleratorCount = 0 ∧
      (analyzeFit groupedSnapshot splitDemand).toOption.map
        (fun r => (r.outcome, r.aggregateMetrics.workloadFits)) = some (.fitNow, false) ∧
      ¬ ∀ r, analyzeFit groupedSnapshot splitDemand = .ok r → r.outcome = .fitNow →
        r.aggregateMetrics.workloadFits = true := by
  have hboth : (analyzeFit groupedSnapshot splitDemand).toOption.map
      (fun r => (r.outcome, r.aggregateMetrics.workloadFits)) = some (.fitNow, false) := by
    decide
  refine ⟨reachable_groupedSnapshot, rfl, hboth, ?_⟩
  intro hclaim
  obtain ⟨r, hr, hpair⟩ := Option.map_eq_some_iff.mp hboth
  rw [Prod.mk.injEq] at hpair
  have hfalse := hclaim r (eq_ok_of_toOption hr) hpair.1
  rw [hpair.2] at hfalse
  cases hfalse

/-- The first device has all 60 bytes of the aggregate. -/
theorem analyzeFit_workloadFits_iff_groupDemand :
    (analyzeFit groupedSnapshot groupDemand).toOption.map (fun r => r.outcome) = some .fitNow ∧
      ∀ r, analyzeFit groupedSnapshot groupDemand = .ok r → r.outcome = .fitNow →
        r.aggregateMetrics.workloadFits = true := by
  refine ⟨by decide, ?_⟩
  refine (analyzeFit_workloadFits_iff groupedSnapshot groupDemand reachable_groupedSnapshot
    rfl).mpr ?_
  intro hfits s hfind
  have hgov : ∀ s ∈ (select groupedSnapshot.devices groupDemand).find?
      (fun s => deviceSatisfies s.layout groupDemand),
      groupDemand.aggregateMemory ≤ s.layout.freeCapacity ∧
        groupDemand.contiguousMemory ≤ s.layout.largestFreeBlock := by
    decide
  exact hgov s hfind

/-! ## The promise of FIT_AFTER_RECLAIM -/

/-- The snapshot in which every reclaimable allocation is gone from every device. -/
def reclaimedSnapshot (sn : FragmentationSnapshot) : FragmentationSnapshot :=
  { sn with devices := sn.devices.map (fun s => { s with layout := reclaimed s.layout }) }

theorem select_reclaimedSnapshot (sn : FragmentationSnapshot) (d : WorkloadDemand) :
    select (reclaimedSnapshot sn).devices d =
      (select sn.devices d).map (fun s => { s with layout := reclaimed s.layout }) := by
  cases htopo : d.topologyGroup with
  | none => rw [Fit.select, Fit.select, htopo, reclaimedSnapshot]
  | some g =>
      rw [Fit.select, Fit.select, htopo, reclaimedSnapshot]
      exact List.filter_map

theorem selected_reclaimedSnapshot (sn : FragmentationSnapshot) (d : WorkloadDemand) :
    selected (reclaimedSnapshot sn) d = selectedAfter sn d := by
  rw [selected, select_reclaimedSnapshot, List.map_map]
  rfl

/-- Where FIT_AFTER_RECLAIM is the answer, reclaiming leads to FIT_NOW exactly when the
reservations leave a window: that is the one test the branch skips. -/
theorem analyzeFit_afterReclaim_iff (sn : FragmentationSnapshot) (d : WorkloadDemand)
    (hreach : ∀ s ∈ sn.devices, s.layout.Reachable) :
    (∀ r, analyzeFit sn d = .ok r → r.outcome = .fitAfterReclaim →
        ∃ r', analyzeFit (reclaimedSnapshot sn) d = .ok r' ∧ r'.outcome = .fitNow) ↔
      (FitsAfterReclaim sn d → WindowOpen sn.reservations d) := by
  have hvalid : ∀ s ∈ select sn.devices d, s.layout.Valid :=
    fun s hs => (hreach s ((select_sublist _ d).subset hs)).valid
  have hvalid' : ∀ s ∈ select (reclaimedSnapshot sn).devices d, s.layout.Valid := by
    intro s hs
    rw [select_reclaimedSnapshot] at hs
    obtain ⟨t, ht, rfl⟩ := List.mem_map.mp hs
    exact (reclaimAll_eq (hvalid t ht)).2.valid
  rw [analyzeFit_eq_fitNow_iff hvalid']
  constructor
  · intro hclaim hfits
    obtain ⟨r, hr, hout⟩ := (analyzeFit_eq_fitAfterReclaim_iff hvalid).mpr hfits
    exact (hclaim r hr hout).window
  · intro hwindow r hr hout
    have hfits := (analyzeFit_eq_fitAfterReclaim_iff hvalid).mp ⟨r, hr, hout⟩
    have hcurrent := hfits.assessable
    refine ⟨⟨hcurrent.complete, hcurrent.known, ?_⟩, ?_, ?_, ?_, hwindow hfits⟩
    · simpa [reclaimedSnapshot] using hcurrent.devices
    · rw [selected_reclaimedSnapshot]
      exact hfits.count
    · rw [selected_reclaimedSnapshot]
      exact hfits.free
    · rw [selected_reclaimedSnapshot]
      exact hfits.sufficient

/-- The divided device, reserved for the whole horizon. -/
def reservedSnapshot : FragmentationSnapshot :=
  { dividedSnapshot with
    reservations := [{ id := ⟨1⟩, start := 0, stop := ⟨0x7FFFFFFFFFFFFFFF⟩, hard := true }] }

/-- The block of 60 bytes for 10 nanoseconds. -/
def timedDemand : WorkloadDemand := { blockDemand with reservationDuration := some ⟨10⟩ }

theorem analyzeFit_breaks_promise :
    (∀ s ∈ reservedSnapshot.devices, s.layout.Reachable) ∧
      (analyzeFit reservedSnapshot timedDemand).toOption.map (fun r => r.outcome) =
        some .fitAfterReclaim ∧
      (analyzeFit (reclaimedSnapshot reservedSnapshot) timedDemand).toOption.map
        (fun r => r.outcome) = some .noFitReservation ∧
      ¬ ∀ r, analyzeFit reservedSnapshot timedDemand = .ok r → r.outcome = .fitAfterReclaim →
        ∃ r', analyzeFit (reclaimedSnapshot reservedSnapshot) timedDemand = .ok r' ∧
          r'.outcome = .fitNow := by
  have hbefore : (analyzeFit reservedSnapshot timedDemand).toOption.map (fun r => r.outcome) =
      some .fitAfterReclaim := by
    decide
  have hafter : (analyzeFit (reclaimedSnapshot reservedSnapshot) timedDemand).toOption.map
      (fun r => r.outcome) = some .noFitReservation := by
    decide
  refine ⟨reachable_dividedSnapshot, hbefore, hafter, ?_⟩
  intro hclaim
  obtain ⟨r, hr, hout⟩ := exists_of_toOption_outcome hbefore
  obtain ⟨r', hr', hout'⟩ := hclaim r hr hout
  rw [hr'] at hafter
  simp [Except.toOption, hout'] at hafter

/-- Without a duration there is no window to find. -/
theorem analyzeFit_afterReclaim_iff_blockDemand :
    (analyzeFit dividedSnapshot blockDemand).toOption.map (fun r => r.outcome) =
        some .fitAfterReclaim ∧
      ∀ r, analyzeFit dividedSnapshot blockDemand = .ok r → r.outcome = .fitAfterReclaim →
        ∃ r', analyzeFit (reclaimedSnapshot dividedSnapshot) blockDemand = .ok r' ∧
          r'.outcome = .fitNow := by
  refine ⟨by decide, ?_⟩
  refine (analyzeFit_afterReclaim_iff dividedSnapshot blockDemand
    reachable_dividedSnapshot).mpr ?_
  rintro - duration ⟨⟩

/-! ## The cause NO_FIT_PROTECTED_STATE names -/

/-- The layout after all its allocations are removed. -/
def emptied (l : ResourceLayout) : ResourceLayout :=
  match l.calls ((l.allocations.entries.map Prod.fst).map .remove) with
  | .ok l' => l'
  | .error _ => l

theorem ResourceLayout.Cleared.calls_remove {ids : List AllocationId} {l l' : ResourceLayout}
    (h : Cleared ids l l') (removed : List AllocationId) :
    ∃ l'', l'.calls (removed.map .remove) = .ok l'' ∧ Cleared (ids ++ removed) l l'' := by
  induction removed generalizing ids l' with
  | nil => exact ⟨l', rfl, by simpa using h⟩
  | cons id rest ih =>
      obtain ⟨l₁, reply, hrem, hcleared⟩ := h.remove_any id
      obtain ⟨l₂, hcalls, hcleared₂⟩ := ih hcleared
      refine ⟨l₂, ?_, by simpa using hcleared₂⟩
      rw [List.map_cons, ResourceLayout.calls, ResourceLayout.call_eq_answer,
        ResourceLayout.answer, hrem]
      exact hcalls

/-- A layout that holds nothing is a fresh one. -/
theorem ResourceLayout.Valid.eq_ofCapacity {l : ResourceLayout} (h : l.Valid)
    (hnone : ∀ id, l.allocations.find? id = none) : l = ofCapacity l.capacity := by
  refine h.eq_of_allocations (valid_ofCapacity _) (capacity_ofCapacity _).symm ?_
  apply OrdMap.ext_find?
  intro id
  rw [hnone, ofCapacity]
  split
  · rfl
  · rfl

theorem ResourceLayout.Valid.emptied_eq {l : ResourceLayout} (h : l.Valid) :
    emptied l = ofCapacity l.capacity := by
  obtain ⟨l', hcalls, hcleared⟩ := h.cleared.calls_remove (l.allocations.entries.map Prod.fst)
  rw [emptied, hcalls, ← hcleared.capacity_eq]
  apply hcleared.valid.eq_ofCapacity
  intro id
  rw [List.nil_append] at hcleared
  by_cases hid : id ∈ l.allocations.entries.map Prod.fst
  · exact hcleared.find?_of_mem hid
  · rw [hcleared.find?_of_notMem hid, OrdMap.find?_eq_none_iff]
    intro e he hk
    exact hid (List.mem_map.mpr ⟨e, he, hk⟩)

theorem largestFreeBlock_ofCapacity (capacity : Bytes) :
    (ResourceLayout.ofCapacity capacity).largestFreeBlock = capacity := by
  by_cases hzero : capacity = 0
  · rw [ResourceLayout.ofCapacity, if_pos hzero, hzero]
    rfl
  · rw [ResourceLayout.ofCapacity, if_neg hzero, ResourceLayout.largestFreeBlock,
      Multiset.fold_singleton]
    exact max_eq_left (Nat.zero_le _)

/-- NO_FIT_PROTECTED_STATE names a real cause exactly when enough of the selected devices are
large enough: then some of them holds an allocation that cannot be reclaimed, and with nothing
on them the demand's blocks fit. Devices that are too small or too few are blamed on protected
allocations as well. -/
theorem analyzeFit_protectedState_iff (sn : FragmentationSnapshot) (d : WorkloadDemand)
    (hreach : ∀ s ∈ sn.devices, s.layout.Reachable) :
    (∀ r, analyzeFit sn d = .ok r → r.outcome = .noFitProtectedState →
        (∃ s ∈ select sn.devices d, ∃ id a, s.layout.allocations.find? id = some a ∧
            Fit.reclaimable a = false) ∧
          max 1 d.acceleratorCount.toNat ≤ (select sn.devices d).countP
            (fun s => d.perDeviceMemory ≤ (emptied s.layout).largestFreeBlock)) ↔
      (ProtectedState sn d → max 1 d.acceleratorCount.toNat ≤
        (select sn.devices d).countP (fun s => d.perDeviceMemory ≤ s.layout.capacity)) := by
  have hvalid : ∀ s ∈ select sn.devices d, s.layout.Valid :=
    fun s hs => (hreach s ((select_sublist _ d).subset hs)).valid
  have hcapacity : (select sn.devices d).countP
      (fun s => d.perDeviceMemory ≤ (emptied s.layout).largestFreeBlock) =
        (select sn.devices d).countP (fun s => d.perDeviceMemory ≤ s.layout.capacity) := by
    apply List.countP_congr
    intro s hs
    rw [(hvalid s hs).emptied_eq, largestFreeBlock_ofCapacity]
  rw [hcapacity]
  constructor
  · intro hclaim hstate
    obtain ⟨r, hr, hout⟩ := (analyzeFit_eq_noFitProtectedState_iff hvalid).mpr hstate
    exact (hclaim r hr hout).2
  · intro hlarge r hr hout
    have hstate := (analyzeFit_eq_noFitProtectedState_iff hvalid).mp ⟨r, hr, hout⟩
    refine ⟨?_, hlarge hstate⟩
    by_contra hempty
    -- empty devices that are large enough would satisfy the requirement
    have hlargest : ∀ s ∈ select sn.devices d, s.layout.largestFreeBlock = s.layout.capacity := by
      intro s hs
      have hnone : ∀ id, s.layout.allocations.find? id = none := by
        intro id
        by_contra hsome
        obtain ⟨a, ha⟩ := Option.ne_none_iff_exists'.mp hsome
        have hheld := hstate.held s hs
        rw [holdsReclaimable, List.any_eq_false] at hheld
        exact hempty ⟨s, hs, id, a, ha,
          by simpa using hheld (id, a) (OrdMap.find?_eq_some_iff.mp ha)⟩
      rw [(hvalid s hs).eq_ofCapacity hnone, largestFreeBlock_ofCapacity,
        ResourceLayout.capacity_ofCapacity]
    have hcount : satisfying d (selected sn d) =
        (select sn.devices d).countP (fun s => d.perDeviceMemory ≤ s.layout.capacity) := by
      rw [selected, satisfying_eq_countP (valid_layouts hvalid), List.countP_map]
      apply List.countP_congr
      intro s hs
      rw [Function.comp_apply, hlargest s hs]
    have hshort := hstate.short
    have hneeded := hlarge hstate
    rw [toNat_neededCount, hcount] at hshort
    omega

/-- One device of 10 bytes that holds nothing. -/
def smallSnapshot : FragmentationSnapshot :=
  { dividedSnapshot with devices := [⟨{ id := ⟨1⟩, capacity := ⟨10⟩ }, .ofCapacity ⟨10⟩⟩] }

theorem reachable_smallSnapshot : ∀ s ∈ smallSnapshot.devices, s.layout.Reachable := by
  intro s hs
  rw [List.mem_singleton.mp hs]
  exact .ofCapacity ⟨10⟩

/-- No protected allocation is in the way: the device is too small. -/
theorem analyzeFit_blames_protected_state :
    (∀ s ∈ smallSnapshot.devices, s.layout.Reachable) ∧
      (analyzeFit smallSnapshot blockDemand).toOption.map (fun r => r.outcome) =
        some .noFitProtectedState ∧
      ¬ ∀ r, analyzeFit smallSnapshot blockDemand = .ok r → r.outcome = .noFitProtectedState →
        (∃ s ∈ select smallSnapshot.devices blockDemand, ∃ id a,
            s.layout.allocations.find? id = some a ∧ Fit.reclaimable a = false) ∧
          max 1 blockDemand.acceleratorCount.toNat ≤
            (select smallSnapshot.devices blockDemand).countP
              (fun s => blockDemand.perDeviceMemory ≤ (emptied s.layout).largestFreeBlock) := by
  have hstate : (analyzeFit smallSnapshot blockDemand).toOption.map (fun r => r.outcome) =
      some .noFitProtectedState := by
    decide
  refine ⟨reachable_smallSnapshot, hstate, ?_⟩
  intro hclaim
  obtain ⟨r, hr, hout⟩ := exists_of_toOption_outcome hstate
  exact absurd (hclaim r hr hout).2 (by decide)

/-- A device of 100 bytes with one allocation in the middle. -/
def middleLayout (length : Bytes) (movability : Movability) : ResourceLayout :=
  match (ResourceLayout.ofCapacity ⟨100⟩).calls
    [.insert { id := ⟨1⟩, offset := ⟨45⟩, length := length, movability := movability }] with
  | .ok l => l
  | .error _ => .ofCapacity ⟨100⟩

theorem reachable_middleLayout (length : Bytes) (movability : Movability) :
    (middleLayout length movability).Reachable := by
  rw [middleLayout]
  split
  · exact ⟨_, _, by assumption⟩
  · exact .ofCapacity _

/-- An immovable allocation in the middle of the device. -/
def guardedSnapshot : FragmentationSnapshot :=
  { dividedSnapshot with
    devices := [⟨{ id := ⟨1⟩, capacity := ⟨100⟩ }, middleLayout ⟨10⟩ .immovable⟩] }

theorem reachable_guardedSnapshot : ∀ s ∈ guardedSnapshot.devices, s.layout.Reachable := by
  intro s hs
  rw [List.mem_singleton.mp hs]
  exact reachable_middleLayout ⟨10⟩ .immovable

/-- The allocation splits the 90 bytes that are free, and the device would do without it. -/
theorem analyzeFit_protectedState_iff_guardedSnapshot :
    (analyzeFit guardedSnapshot blockDemand).toOption.map (fun r => r.outcome) =
        some .noFitProtectedState ∧
      ∀ r, analyzeFit guardedSnapshot blockDemand = .ok r → r.outcome = .noFitProtectedState →
        (∃ s ∈ select guardedSnapshot.devices blockDemand, ∃ id a,
            s.layout.allocations.find? id = some a ∧ Fit.reclaimable a = false) ∧
          max 1 blockDemand.acceleratorCount.toNat ≤
            (select guardedSnapshot.devices blockDemand).countP
              (fun s => blockDemand.perDeviceMemory ≤ (emptied s.layout).largestFreeBlock) := by
  refine ⟨by decide, ?_⟩
  refine (analyzeFit_protectedState_iff guardedSnapshot blockDemand
    reachable_guardedSnapshot).mpr ?_
  intro _
  decide

/-! ## Capacity split across topology groups -/

/-- Capacity that is there, but not in the demanded topology group, is never reported as a
matter of topology: the free capacity of the group is compared with the aggregate first. -/
theorem analyzeFit_split_ne_noFitTopology (sn : FragmentationSnapshot) (d : WorkloadDemand)
    (g : Int64) (hgen : sn.generations.complete = true) (hprov : sn.provenance ≠ .unknown)
    (htopo : d.topologyGroup = some g)
    (hall : d.aggregateMemory.toNat ≤ freeTotal (sn.devices.map (fun s => s.layout)))
    (hgroup : freeTotal ((sn.devices.filter (fun s => s.resource.topologyGroup = some g)).map
      (fun s => s.layout)) < d.aggregateMemory.toNat) :
    (¬ ∃ r, analyzeFit sn d = .ok r ∧ r.outcome = .noFitTopology) ∧
      ∀ r, analyzeFit sn d = .ok r → r.outcome = .noFitRawCapacity := by
  have hselect : select sn.devices d =
      sn.devices.filter (fun s => s.resource.topologyGroup = some g) := by
    rw [Fit.select, htopo]
  have hne : sn.devices ≠ [] := by
    intro hnil
    rw [hnil] at hall hgroup
    exact absurd hall (not_le.mpr hgroup)
  have hraw : ∀ r, analyzeFit sn d = .ok r → r.outcome = .noFitRawCapacity := by
    intro r hr
    obtain ⟨texts, htexts⟩ := analyzeFit_eq_analyzeSelected ⟨hgen, hprov, hne⟩ d
    rw [hr, analyzeSelected] at htexts
    obtain ⟨counts, hcounts, hrest⟩ := bind_eq_ok.mp htexts.symm
    rw [countNow_eq, bind_eq_ok] at hcounts
    obtain ⟨st, hst, hpair⟩ := hcounts
    cases hpair
    have hfree := (eval_eq_ok_iff.mp hst).2
    rw [hselect] at hfree
    have hlt : st.aggregateFree < d.aggregateMemory := Quantity.lt_iff.mpr (by omega)
    dsimp only at hrest
    rw [if_pos hlt] at hrest
    cases hrest
    rfl
  refine ⟨?_, hraw⟩
  rintro ⟨r, hr, hout⟩
  rw [hraw r hr] at hout
  cases hout

/-- 120 bytes in the group that has 100 of the 150 that are free. -/
def groupSplitDemand : WorkloadDemand :=
  { perDeviceMemory := ⟨60⟩, aggregateMemory := ⟨120⟩, topologyGroup := some 0 }

theorem analyzeFit_split_ne_noFitTopology_groupedSnapshot :
    ¬ ∃ r, analyzeFit groupedSnapshot groupSplitDemand = .ok r ∧ r.outcome = .noFitTopology :=
  (analyzeFit_split_ne_noFitTopology groupedSnapshot groupSplitDemand 0 (by decide) (by decide)
    rfl (by decide) (by decide)).1

theorem analyzeFit_hides_topology :
    groupedSnapshot.generations.complete = true ∧ groupedSnapshot.provenance ≠ .unknown ∧
      capacityTotal (groupedSnapshot.devices.map (fun s => s.layout)) < 2 ^ 64 ∧
      groupSplitDemand.aggregateMemory.toNat ≤
        freeTotal (groupedSnapshot.devices.map (fun s => s.layout)) ∧
      freeTotal ((groupedSnapshot.devices.filter
        (fun s => s.resource.topologyGroup = some 0)).map (fun s => s.layout)) <
          groupSplitDemand.aggregateMemory.toNat ∧
      (analyzeFit groupedSnapshot groupSplitDemand).toOption.map (fun r => r.outcome) =
        some .noFitRawCapacity ∧
      ¬ ∃ r, analyzeFit groupedSnapshot groupSplitDemand = .ok r ∧
        r.outcome = .noFitTopology := by
  have hraw : (analyzeFit groupedSnapshot groupSplitDemand).toOption.map (fun r => r.outcome) =
      some .noFitRawCapacity := by
    decide
  refine ⟨by decide, by decide, by decide, by decide, by decide, hraw, ?_⟩
  rintro ⟨r, hr, hout⟩
  rw [hr] at hraw
  simp [Except.toOption, hout] at hraw

end FragmentationGovernor
