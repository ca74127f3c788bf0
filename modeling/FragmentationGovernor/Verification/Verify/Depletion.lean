import FragmentationGovernor.Verification.Verify.Judgement

/-! # Capacity that is consumed

Insertions and lost devices reduce the free capacity and the largest free block. Stranded
capacity is the difference of the two, so it may shrink as well. -/

namespace FragmentationGovernor

open Fit Verify

/-! ## Runs that only consume -/

/-- One further insertion on a device, or the loss of a device. -/
inductive Depletes : List DeviceState → List DeviceState → Prop
  | insert {ds : List DeviceState} {i : ℕ} {s : DeviceState} {a : Allocation}
      {l' : ResourceLayout} (hi : ds[i]? = some s)
      (h : s.layout.insertAllocation a = .ok (l', .ok ())) :
      Depletes ds (ds.set i { s with layout := l' })
  | vanish (ds : List DeviceState) (i : ℕ) : Depletes ds (ds.eraseIdx i)

/-- The devices are valid and have no more free capacity and no larger block. -/
structure Depleted (ds ds' : List DeviceState) : Prop where
  valid : ∀ s ∈ ds', s.layout.Valid
  free : freeTotal (ds'.map (fun s => s.layout)) ≤ freeTotal (ds.map (fun s => s.layout))
  largest : Verify.largest ds' ≤ Verify.largest ds

theorem foldl_largest_le_iff {ds : List DeviceState} {b : Bytes} {n : ℕ} :
    (ds.foldl (fun best s =>
        if s.layout.largestFreeBlock > best then s.layout.largestFreeBlock else best) b).toNat ≤ n ↔
      b.toNat ≤ n ∧ ∀ s ∈ ds, s.layout.largestFreeBlock.toNat ≤ n := by
  induction ds generalizing b with
  | nil => simp
  | cons s rest ih =>
      rw [List.foldl_cons, ih, List.forall_mem_cons, ← and_assoc]
      apply and_congr_left'
      split
      · next hgt =>
          rw [gt_iff_lt, Quantity.lt_iff] at hgt
          omega
      · next hle =>
          rw [gt_iff_lt, Quantity.lt_iff] at hle
          omega

/-- A bound on the largest free block bounds that of every device. -/
theorem largest_le_iff {ds : List DeviceState} {n : ℕ} :
    (largest ds).toNat ≤ n ↔ ∀ s ∈ ds, s.layout.largestFreeBlock.toNat ≤ n := by
  rw [largest, foldl_largest_le_iff, Quantity.toNat_zero]
  simp

theorem largestFreeBlock_le_largest {ds : List DeviceState} {s : DeviceState} (hs : s ∈ ds) :
    s.layout.largestFreeBlock.toNat ≤ (largest ds).toNat :=
  largest_le_iff.mp (le_refl _) s hs

theorem largest_le_freeTotal {ds : List DeviceState} (h : ∀ s ∈ ds, s.layout.Valid) :
    (largest ds).toNat ≤ freeTotal (ds.map (fun s => s.layout)) := by
  rw [largest_le_iff]
  intro s hs
  have hblock := Quantity.le_iff.mp (largestFreeBlock_le_freeCapacity (h s hs))
  refine hblock.trans ?_
  apply List.le_sum_of_mem
  rw [List.map_map]
  exact List.mem_map_of_mem hs

theorem ResourceLayout.Valid.roomier_insertAllocation {l l' : ResourceLayout} (h : l.Valid)
    {a : Allocation} (hins : l.insertAllocation a = .ok (l', .ok ())) :
    l'.Valid ∧ Roomier l' l := by
  obtain ⟨hinsertable, halloc, hvalid, hcap⟩ := h.of_insertAllocation_ok hins
  have hsub : ∀ id b, l.allocations.find? id = some b → l'.allocations.find? id = some b := by
    intro id b hb
    have hne : id ≠ a.id := by
      rintro rfl
      rw [hinsertable.new] at hb
      cases hb
    rw [halloc, OrdMap.find?_insert_of_ne _ _ hne, hb]
  exact ⟨hvalid, hvalid.largestFreeBlock_le h hcap.symm hsub,
    hvalid.freeCapacity_le h hcap.symm hsub⟩

/-- A step leaves no more free capacity and no larger block. -/
theorem Depletes.depleted {ds ds' : List DeviceState} (h : Depletes ds ds')
    (hvalid : ∀ s ∈ ds, s.layout.Valid) : Depleted ds ds' := by
  cases h with
  | @insert i s a l' hi hins =>
      have hs := List.mem_of_getElem? hi
      obtain ⟨hvalid', hroom⟩ := (hvalid s hs).roomier_insertAllocation hins
      have hset : ∀ t ∈ ds.set i { s with layout := l' }, t ∈ ds ∨ t = { s with layout := l' } :=
        fun t ht => List.mem_or_eq_of_mem_set ht
      refine ⟨?_, ?_, ?_⟩
      · intro t ht
        rcases hset t ht with ht | rfl
        · exact hvalid t ht
        · exact hvalid'
      · apply freeTotal_le_of_roomier
        rw [List.forall₂_map_left_iff, List.forall₂_map_right_iff]
        exact (forall₂_set (r := fun s t => Roomier t.layout s.layout)
          (fun s => ⟨le_refl _, le_refl _⟩) hi hroom).flip
      · rw [Quantity.le_iff, largest_le_iff]
        intro t ht
        rcases hset t ht with ht | rfl
        · exact largestFreeBlock_le_largest ht
        · exact (Quantity.le_iff.mp hroom.1).trans (largestFreeBlock_le_largest hs)
  | vanish i =>
      have hsub := List.eraseIdx_sublist ds i
      refine ⟨fun t ht => hvalid t (hsub.subset ht), ?_, ?_⟩
      · exact ((hsub.map _).map _).sum_le_sum (fun _ _ => Nat.zero_le _)
      · rw [Quantity.le_iff, largest_le_iff]
        exact fun t ht => largestFreeBlock_le_largest (hsub.subset ht)

/-- So does every run. -/
theorem depleted_of_run {ds ds' : List DeviceState} (hvalid : ∀ s ∈ ds, s.layout.Valid)
    (h : Relation.ReflTransGen Depletes ds ds') : Depleted ds ds' := by
  induction h with
  | refl => exact ⟨hvalid, le_refl _, le_refl _⟩
  | tail _ hstep ih =>
      have hlast := hstep.depleted ih.valid
      exact ⟨hlast.valid, hlast.free.trans ih.free, hlast.largest.trans ih.largest⟩

/-! ## What is called an improvement -/

/-- After insertions and losses alone the outcome is PARTIAL_IMPROVEMENT exactly where the
demand does not fit and more free capacity went than the largest free block lost. -/
theorem verifyRemediation_consumed_iff (before after : FragmentationSnapshot)
    (d : WorkloadDemand) (plan : RemediationPlan)
    (hreach : ∀ s ∈ before.devices, s.layout.Reachable)
    (hrun : Relation.ReflTransGen Depletes before.devices after.devices) :
    (∀ v, verifyRemediation before after d plan = .ok v → v.outcome ≠ .partialImprovement) ↔
      (Passes before after d → ¬ Fits after d →
        freeTotal (before.devices.map (fun s => s.layout)) -
            freeTotal (after.devices.map (fun s => s.layout)) ≤
          (largest before.devices).toNat - (largest after.devices).toNat) := by
  have hvalid : ∀ s ∈ before.devices, s.layout.Valid := fun s hs => (hreach s hs).valid
  have hdepleted := depleted_of_run hvalid hrun
  have hfree := hdepleted.free
  have hlargest := Quantity.le_iff.mp hdepleted.largest
  have hbefore := largest_le_freeTotal hvalid
  have hafter := largest_le_freeTotal hdepleted.valid
  -- both differences shrink, so less is stranded when the free capacity shrinks by more
  have hless : stranded after.devices < stranded before.devices ↔
      ¬ freeTotal (before.devices.map (fun s => s.layout)) -
            freeTotal (after.devices.map (fun s => s.layout)) ≤
          (largest before.devices).toNat - (largest after.devices).toNat := by
    rw [stranded, stranded]
    omega
  constructor
  · intro hclaim hp hnot
    by_contra hmore
    obtain ⟨v, hv, hj⟩ := hp.exists_judged plan
    exact hclaim v hv (hj.partialImprovement_iff.mpr ⟨hp, hnot, hless.mpr hmore⟩)
  · intro hkept v hv hpartial
    obtain ⟨hp, hnot, hshrunk⟩ :=
      (judged_of_verifyRemediation hv).partialImprovement_iff.mp hpartial
    exact hless.mp hshrunk (hkept hp hnot)

theorem depletes_snapshotAfter (calls : List ResourceLayout.Call) (a : Allocation)
    (h : (layoutAfter calls).insertAllocation a =
      .ok (layoutAfter (calls ++ [.insert a]), .ok ())) :
    Depletes (snapshotAfter calls).devices (snapshotAfter (calls ++ [.insert a])).devices := by
  have hi : (snapshotAfter calls).devices[0]? =
      some ⟨{ id := ⟨1⟩, capacity := ⟨100⟩ }, layoutAfter calls⟩ := rfl
  exact .insert hi h

/-- An allocation of 10 bytes with 60 free bytes before it and 30 after it. -/
def dividing : Allocation :=
  { id := ⟨3⟩, offset := ⟨60⟩, length := ⟨10⟩, movability := .immovable }

/-- The half of an empty device is taken, from its only block. -/
theorem verifyRemediation_consumed_iff_lowerHalf :
    (∀ s ∈ (snapshotAfter []).devices, s.layout.Reachable) ∧
      Relation.ReflTransGen Depletes (snapshotAfter []).devices
        (snapshotAfter [.insert lowerHalf]).devices ∧
      ∀ v, verifyRemediation (snapshotAfter []) (snapshotAfter [.insert lowerHalf])
        oversizedDemand {} = .ok v → v.outcome ≠ .partialImprovement := by
  have hrun : Relation.ReflTransGen Depletes (snapshotAfter []).devices
      (snapshotAfter [.insert lowerHalf]).devices :=
    .single (depletes_snapshotAfter [] lowerHalf (by decide))
  refine ⟨reachable_snapshotAfter _, hrun, ?_⟩
  exact (verifyRemediation_consumed_iff _ _ oversizedDemand {} (reachable_snapshotAfter _)
    hrun).mpr (fun _ _ => by decide)

/-- The smaller of two free blocks is used up, and the outcome is PARTIAL_IMPROVEMENT. -/
theorem verifyRemediation_consumed_smallBlock :
    (∀ s ∈ (snapshotAfter [.insert dividing]).devices, s.layout.Reachable) ∧
      Relation.ReflTransGen Depletes (snapshotAfter [.insert dividing]).devices
        (snapshotAfter [.insert dividing, .insert (pinnedAt ⟨70⟩)]).devices ∧
      ∃ v, verifyRemediation (snapshotAfter [.insert dividing])
          (snapshotAfter [.insert dividing, .insert (pinnedAt ⟨70⟩)]) oversizedDemand {} = .ok v ∧
        v.outcome = .partialImprovement := by
  refine ⟨reachable_snapshotAfter _, ?_, exists_of_toOption_verified (by decide)⟩
  exact .single (depletes_snapshotAfter [.insert dividing] (pinnedAt ⟨70⟩) (by decide))

end FragmentationGovernor
