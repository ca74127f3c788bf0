import FragmentationGovernor.Verification.Fit.Temporal
import FragmentationGovernor.Verification.Verify.Correctness

/-! # Fit is monotone

A demand that fits still fits when an allocation is removed, and so does every smaller
demand. -/

namespace FragmentationGovernor

open Fit

/-! ## Shorter windows -/

/-- Where the search finds a window of some length it finds one of every shorter length. -/
theorem exists_window_of_le {rs : List Reservation}
    {horizonStart horizonEnd required required' : Duration} (hle : required' ≤ required)
    (h : ∃ t, temporalContinuousFit rs horizonStart horizonEnd required = .ok (some t)) :
    ∃ t, temporalContinuousFit rs horizonStart horizonEnd required' = .ok (some t) := by
  rcases Nat.eq_zero_or_pos required'.toNat with hzero | hpos
  · exact ⟨_, searchReservations_of_zero hzero⟩
  obtain ⟨t, ht⟩ := h
  rw [Quantity.le_iff] at hle
  rw [temporalContinuousFit_eq_some_iff (hpos.trans_le hle)] at ht
  obtain ⟨hearliest, hwindow⟩ := ht
  have hearliest' := earliest_sweepFrom (startOrder_byStart rs) horizonStart required'
  have hbefore := hearliest'.2 ⟨hearliest.1.1, hearliest.1.2.mono hle⟩
  have hstart := hearliest'.1.1
  have hlt := t.toNat_lt
  generalize sweepFrom required' (byStart rs) horizonStart = s at hearliest' hbefore hstart
  have hnat : (Quantity.ofNat s : Duration).toNat = s := Quantity.toNat_ofNat (by omega)
  refine ⟨.ofNat s, ?_⟩
  rw [temporalContinuousFit_eq_some_iff hpos, Quantity.eq_iff, Quantity.lt_iff, hnat]
  refine ⟨hearliest', ?_⟩
  rcases hwindow with hwithin | ⟨hreached, r, hr, hopen, hgap⟩
  · exact Or.inl (by omega)
  · rw [Quantity.eq_iff, Quantity.lt_iff] at hreached
    exact Or.inr ⟨by omega, r, hr, by omega, by omega⟩

/-- The duration of the second demand, if any, is at most that of the first. -/
def NoLonger (d d' : WorkloadDemand) : Prop :=
  ∀ t', d'.reservationDuration = some t' → ∃ t, d.reservationDuration = some t ∧ t' ≤ t

theorem WindowOpen.mono {rs : List Reservation} {d d' : WorkloadDemand} (h : WindowOpen rs d)
    (hle : NoLonger d d') : WindowOpen rs d' := by
  intro t' ht' hne
  obtain ⟨t, ht, hshorter⟩ := hle t' ht'
  exact exists_window_of_le hshorter (h t ht hne)

/-! ## Roomier devices -/

/-- The same resource with a layout of the same capacity that has at least as much room. -/
structure Eased (s s' : DeviceState) : Prop where
  resource : s'.resource = s.resource
  capacity : s'.layout.capacity = s.layout.capacity
  room : Roomier s.layout s'.layout

theorem Eased.refl (s : DeviceState) : Eased s s := ⟨rfl, rfl, le_refl _, le_refl _⟩

theorem eased_select {ds ds' : List DeviceState} (h : List.Forall₂ Eased ds ds')
    (d : WorkloadDemand) : List.Forall₂ Eased (select ds d) (select ds' d) := by
  unfold Fit.select
  split
  · exact h
  · refine List.rel_filter ?_ h
    intro s s' hs
    dsimp only
    rw [hs.resource]

theorem roomier_of_eased {ds ds' : List DeviceState} (h : List.Forall₂ Eased ds ds') :
    List.Forall₂ Roomier (ds.map (fun s => s.layout)) (ds'.map (fun s => s.layout)) := by
  rw [List.forall₂_map_left_iff, List.forall₂_map_right_iff]
  exact h.imp (fun _ _ hs => hs.room)

theorem capacityTotal_of_eased {ds ds' : List DeviceState} (h : List.Forall₂ Eased ds ds') :
    capacityTotal (ds'.map (fun s => s.layout)) = capacityTotal (ds.map (fun s => s.layout)) := by
  induction h with
  | nil => rfl
  | cons hs _ ih =>
      rw [capacityTotal, capacityTotal] at ih ⊢
      simp only [List.map_cons, List.sum_cons]
      rw [ih, hs.capacity]

/-- Replacing one device relates the devices pointwise. -/
theorem forall₂_set {r : DeviceState → DeviceState → Prop} (hrefl : ∀ s, r s s)
    {ds : List DeviceState} {i : ℕ} {s t : DeviceState} (hi : ds[i]? = some s) (h : r s t) :
    List.Forall₂ r ds (ds.set i t) := by
  rw [List.forall₂_iff_get]
  refine ⟨(List.length_set).symm, ?_⟩
  intro j hj hj'
  rw [List.get_eq_getElem, List.get_eq_getElem, List.getElem_set]
  split
  · next hij =>
      subst hij
      obtain ⟨_, hs⟩ := List.getElem?_eq_some_iff.mp hi
      rw [hs]
      exact h
  · exact hrefl _

theorem ResourceLayout.Valid.roomier_removeAllocation {l : ResourceLayout} (h : l.Valid)
    {id : AllocationId} {a : Allocation} (ha : l.allocations.find? id = some a) :
    ∃ l', l.removeAllocation id = .ok (l', .ok ()) ∧ l'.Valid ∧ l'.capacity = l.capacity ∧
      Roomier l l' := by
  obtain ⟨l', hrem, hcleared⟩ := h.cleared.remove ha
  have hsub : ∀ id a, l'.allocations.find? id = some a → l.allocations.find? id = some a :=
    fun _ _ => hcleared.find?_of_some
  exact ⟨l', hrem, hcleared.valid, hcleared.capacity_eq,
    h.largestFreeBlock_le hcleared.valid hcleared.capacity_eq hsub,
    h.freeCapacity_le hcleared.valid hcleared.capacity_eq hsub⟩

/-! ## Fit is kept -/

/-- A demand that fits also fits devices with more room. -/
theorem FitsNow.of_eased {sn : FragmentationSnapshot} {d : WorkloadDemand} (h : FitsNow sn d)
    {ds : List DeviceState} (heased : List.Forall₂ Eased sn.devices ds)
    (hvalid : ∀ s ∈ sn.devices, s.layout.Valid) (hvalid' : ∀ s ∈ ds, s.layout.Valid)
    (hcap : capacityTotal (sn.devices.map (fun s => s.layout)) < 2 ^ 64) :
    FitsNow { sn with devices := ds } d := by
  have hsel : ∀ {ds : List DeviceState}, (∀ s ∈ ds, s.layout.Valid) →
      ∀ l ∈ (select ds d).map (fun s => s.layout), l.Valid :=
    fun h => valid_layouts (fun s hs => h s ((select_sublist _ d).subset hs))
  have hroom := roomier_of_eased (eased_select heased d)
  have hfree : freeTotal ((select ds d).map (fun s => s.layout)) < 2 ^ 64 := by
    rw [← capacityTotal_of_eased heased] at hcap
    refine lt_of_le_of_lt (freeTotal_le_capacityTotal (hsel hvalid')) (lt_of_le_of_lt ?_ hcap)
    exact (((select_sublist ds d).map _).map _).sum_le_sum (fun _ _ => Nat.zero_le _)
  have hlength : ((select ds d).map (fun s => s.layout)).length < 2 ^ 64 ∨
      0 < d.perDeviceMemory.toNat := by
    rcases Nat.eq_zero_or_pos d.perDeviceMemory.toNat with hzero | hpos
    · have hcount := h.count
      rw [selected, satisfying_of_zero hzero, hroom.length_eq] at hcount
      exact Or.inl hcount
    · exact Or.inr hpos
  have henough : Enough d ((select ds d).map (fun s => s.layout)) :=
    ((enough_iff (hsel hvalid) d).mpr h.sufficient).mono hroom
  refine ⟨⟨h.assessable.complete, h.assessable.known, ?_⟩, satisfying_lt hfree hlength, hfree,
    (enough_iff (hsel hvalid') d).mp henough, h.window⟩
  rintro rfl
  exact h.assessable.devices (List.forall₂_nil_right_iff.mp heased)

/-- The second demand asks for no more of the same devices. -/
structure AsksLess (d d' : WorkloadDemand) : Prop where
  group : d'.topologyGroup = d.topologyGroup
  count : max 1 d'.acceleratorCount.toNat ≤ max 1 d.acceleratorCount.toNat
  perDevice : d'.perDeviceMemory ≤ d.perDeviceMemory
  aggregate : d'.aggregateMemory ≤ d.aggregateMemory
  duration : NoLonger d d'

/-- A demand that asks for less fits where there are no more devices than a vector holds. -/
theorem FitsNow.of_asksLess {sn : FragmentationSnapshot} {d d' : WorkloadDemand}
    (h : FitsNow sn d) (hless : AsksLess d d') (hvalid : ∀ s ∈ sn.devices, s.layout.Valid)
    (hlen : sn.devices.length < 2 ^ 64) : FitsNow sn d' := by
  have hselect : selected sn d' = selected sn d := by
    rw [selected, selected, Fit.select, Fit.select, hless.group]
  have hsel : ∀ l ∈ selected sn d, l.Valid :=
    valid_layouts (fun s hs => hvalid s ((select_sublist _ d).subset hs))
  have hlength : (selected sn d).length < 2 ^ 64 := by
    rw [selected, List.length_map]
    exact lt_of_le_of_lt (select_sublist _ d).length_le hlen
  obtain ⟨hcount, hagg⟩ := (enough_iff hsel d).mpr h.sufficient
  have hmore : (selected sn d).countP (fun l => decide (d.perDeviceMemory ≤ l.largestFreeBlock)) ≤
      (selected sn d).countP (fun l => decide (d'.perDeviceMemory ≤ l.largestFreeBlock)) := by
    apply List.countP_mono_left
    intro l _ hl
    exact decide_eq_true (hless.perDevice.trans (of_decide_eq_true hl))
  have henough : Enough d' (selected sn d) :=
    ⟨hless.count.trans (hcount.trans hmore), (Quantity.le_iff.mp hless.aggregate).trans hagg⟩
  refine ⟨h.assessable, ?_, ?_, ?_, h.window.mono hless.duration⟩
  · rw [hselect]
    exact satisfying_lt h.free (Or.inl hlength)
  · rw [hselect]
    exact h.free
  · rw [hselect]
    exact (enough_iff hsel d').mp henough

/-- FIT_NOW stays the answer when any allocation is removed from any device, and for every
demand that asks for less of the same devices. -/
theorem analyzeFit_fitNow_mono (sn : FragmentationSnapshot) (d : WorkloadDemand)
    (hreach : ∀ s ∈ sn.devices, s.layout.Reachable) (hlen : sn.devices.length < 2 ^ 64)
    (hcap : capacityTotal (sn.devices.map (fun s => s.layout)) < 2 ^ 64)
    (hfits : ∃ r, analyzeFit sn d = .ok r ∧ r.outcome = .fitNow) :
    (∀ i s id a, sn.devices[i]? = some s → s.layout.allocations.find? id = some a →
      ∃ l', s.layout.removeAllocation id = .ok (l', .ok ()) ∧
        ∃ r, analyzeFit { sn with devices := sn.devices.set i { s with layout := l' } } d = .ok r ∧
          r.outcome = .fitNow) ∧
      ∀ d', AsksLess d d' → ∃ r, analyzeFit sn d' = .ok r ∧ r.outcome = .fitNow := by
  have hvalid : ∀ s ∈ sn.devices, s.layout.Valid := fun s hs => (hreach s hs).valid
  have hselected : ∀ d, ∀ s ∈ select sn.devices d, s.layout.Valid :=
    fun d s hs => hvalid s ((select_sublist _ d).subset hs)
  rw [analyzeFit_eq_fitNow_iff (hselected d)] at hfits
  constructor
  · intro i s id a hi ha
    obtain ⟨l', hrem, hvalid', hcapacity, hroom⟩ :=
      (hvalid s (List.mem_of_getElem? hi)).roomier_removeAllocation ha
    refine ⟨l', hrem, ?_⟩
    have hset : ∀ t ∈ sn.devices.set i { s with layout := l' }, t.layout.Valid := by
      intro t ht
      rcases List.mem_or_eq_of_mem_set ht with ht | rfl
      · exact hvalid t ht
      · exact hvalid'
    rw [analyzeFit_eq_fitNow_iff (fun t ht => hset t ((select_sublist _ d).subset ht))]
    exact hfits.of_eased (forall₂_set Eased.refl hi ⟨rfl, hcapacity, hroom⟩) hvalid hset hcap
  · intro d' hless
    rw [analyzeFit_eq_fitNow_iff (hselected d')]
    exact hfits.of_asksLess hless hvalid hlen

/-- A block of 20 bytes, for which nothing on the divided device need be touched. -/
def gapDemand : WorkloadDemand := { perDeviceMemory := ⟨20⟩, aggregateMemory := ⟨20⟩ }

/-- It fits without the second allocation, and half of it fits as well. -/
theorem analyzeFit_fitNow_mono_dividedSnapshot :
    (∃ l', dividedLayout.removeAllocation ⟨2⟩ = .ok (l', .ok ()) ∧
        ∃ r, analyzeFit
            { dividedSnapshot with
              devices := [⟨{ id := ⟨1⟩, capacity := ⟨100⟩ }, l'⟩] } gapDemand = .ok r ∧
          r.outcome = .fitNow) ∧
      ∃ r, analyzeFit dividedSnapshot { perDeviceMemory := ⟨10⟩ } = .ok r ∧
        r.outcome = .fitNow := by
  have hfits : ∃ r, analyzeFit dividedSnapshot gapDemand = .ok r ∧ r.outcome = .fitNow :=
    exists_of_toOption_outcome (by decide)
  obtain ⟨hremove, hless⟩ := analyzeFit_fitNow_mono dividedSnapshot gapDemand
    reachable_dividedSnapshot (by decide) (by decide) hfits
  obtain ⟨a, ha⟩ := Option.isSome_iff_exists.mp (show
    (dividedLayout.allocations.find? ⟨2⟩).isSome = true by decide)
  refine ⟨hremove 0 _ ⟨2⟩ a rfl ha, hless _ ⟨rfl, ?_, ?_, ?_, ?_⟩⟩
  · decide
  · decide
  · decide
  · rintro t ⟨⟩

end FragmentationGovernor
