import FragmentationGovernor.Model.Planner
import FragmentationGovernor.Verification.Fit.Metrics
import FragmentationGovernor.Verification.Layout.Registry

/-! # Correctness of the fit analysis

The fit analyser and the planner count the same thing: the devices that satisfy the
per-device requirement, and the free capacity of all of them. Over valid layouts that can
have no more free than a 64-bit value holds none of the counts raises. -/

namespace FragmentationGovernor

open Fit Planner

/-! ## Sufficient layouts -/

/-- The number of layouts that satisfy the per-device requirement. -/
def satisfying (d : WorkloadDemand) (ls : List ResourceLayout) : ℕ :=
  (ls.map (fun l => if deviceSatisfies l d then 1 else 0)).sum

def freeTotal (ls : List ResourceLayout) : ℕ := (ls.map (fun l => l.freeCapacity.toNat)).sum

def capacityTotal (ls : List ResourceLayout) : ℕ := (ls.map (fun l => l.capacity.toNat)).sum

/-- Enough layouts satisfy the per-device requirement, and all together hold the aggregate. -/
def Suffices (d : WorkloadDemand) (ls : List ResourceLayout) : Prop :=
  (neededCount d).toNat ≤ satisfying d ls ∧ d.aggregateMemory.toNat ≤ freeTotal ls

theorem one_le_neededCount (d : WorkloadDemand) : 1 ≤ (neededCount d).toNat := by
  by_cases h : d.acceleratorCount.value = 0
  · rw [neededCount, if_pos h, Quantity.toNat_one]
  · rw [neededCount, if_neg h]
    have hne : d.acceleratorCount.toNat ≠ 0 :=
      fun hz => h (UInt64.toNat_inj.mp hz)
    omega

theorem toNat_neededCount (d : WorkloadDemand) :
    (neededCount d).toNat = max 1 d.acceleratorCount.toNat := by
  by_cases h : d.acceleratorCount.value = 0
  · rw [neededCount, if_pos h, Quantity.toNat_one, Quantity.toNat, h]
    rfl
  · have hle := one_le_neededCount d
    rw [neededCount, if_neg h] at hle ⊢
    omega

/-- A demand needs at least one device. -/
theorem Suffices.ne_nil {d : WorkloadDemand} {ls : List ResourceLayout} (h : Suffices d ls) :
    ls ≠ [] := by
  intro hnil
  have hone := one_le_neededCount d
  have hcount : (neededCount d).toNat ≤ 0 := by
    rw [hnil] at h
    exact h.1
  omega

theorem freeTotal_le_capacityTotal {ls : List ResourceLayout} (h : ∀ l ∈ ls, l.Valid) :
    freeTotal ls ≤ capacityTotal ls :=
  List.sum_le_sum (fun l hl => (h l hl).free_le_capacity)

theorem satisfying_le_length (d : WorkloadDemand) (ls : List ResourceLayout) :
    satisfying d ls ≤ ls.length := by
  induction ls with
  | nil => exact le_refl 0
  | cons l rest ih =>
      simp only [satisfying, List.map_cons, List.sum_cons, List.length_cons] at ih ⊢
      split <;> omega

/-- Every satisfying device has the requirement free. -/
theorem satisfying_mul_le (d : WorkloadDemand) (ls : List ResourceLayout) :
    satisfying d ls * d.perDeviceMemory.toNat ≤ freeTotal ls := by
  rw [satisfying, ← List.sum_map_mul_right]
  apply List.sum_le_sum
  intro l _
  by_cases hs : deviceSatisfies l d = true
  · rw [if_pos hs, one_mul]
    rw [deviceSatisfies, Bool.and_eq_true, decide_eq_true_eq] at hs
    exact hs.1
  · rw [if_neg hs, zero_mul]
    exact Nat.zero_le _

/-- The count of satisfying devices is a 64-bit value unless there are too many devices to
count. -/
theorem satisfying_lt {d : WorkloadDemand} {ls : List ResourceLayout}
    (hfree : freeTotal ls < 2 ^ 64) (hlen : ls.length < 2 ^ 64 ∨ 0 < d.perDeviceMemory.toNat) :
    satisfying d ls < 2 ^ 64 := by
  rcases hlen with hlen | hpos
  · exact lt_of_le_of_lt (satisfying_le_length d ls) hlen
  · have hle := (Nat.le_mul_of_pos_right _ hpos).trans (satisfying_mul_le d ls)
    exact lt_of_le_of_lt hle hfree

/-- Without a per-device requirement every device satisfies it. -/
theorem satisfying_of_zero {d : WorkloadDemand} (hzero : d.perDeviceMemory.toNat = 0)
    (ls : List ResourceLayout) : satisfying d ls = ls.length := by
  induction ls with
  | nil => rfl
  | cons l rest ih =>
      have hs : deviceSatisfies l d = true := by
        rw [deviceSatisfies, Bool.and_eq_true, decide_eq_true_eq, decide_eq_true_eq]
        exact ⟨Quantity.le_iff.mpr (by omega), Quantity.le_iff.mpr (by omega)⟩
      rw [satisfying] at ih ⊢
      rw [List.map_cons, List.sum_cons, if_pos hs, ih, List.length_cons, add_comm]

theorem largestFreeBlock_le_freeCapacity {l : ResourceLayout} (h : l.Valid) :
    l.largestFreeBlock ≤ l.freeCapacity := by
  rw [Quantity.le_iff, h.freeCapacity_eq]
  exact ResourceLayout.fold_max_le_sum _

/-- A free block is free capacity: the test asks for no more. -/
theorem deviceSatisfies_iff {l : ResourceLayout} (h : l.Valid) (d : WorkloadDemand) :
    deviceSatisfies l d = true ↔ d.perDeviceMemory ≤ l.largestFreeBlock := by
  rw [deviceSatisfies, Bool.and_eq_true, decide_eq_true_eq, decide_eq_true_eq]
  constructor
  · exact fun hs => hs.2
  · exact fun hle => ⟨hle.trans (largestFreeBlock_le_freeCapacity h), hle⟩

theorem satisfying_eq_countP {ls : List ResourceLayout} (h : ∀ l ∈ ls, l.Valid)
    (d : WorkloadDemand) :
    satisfying d ls = ls.countP (fun l => decide (d.perDeviceMemory ≤ l.largestFreeBlock)) := by
  induction ls with
  | nil => rfl
  | cons l rest ih =>
      have hrest := ih (fun t ht => h t (by simp [ht]))
      have hiff := deviceSatisfies_iff (h l (by simp)) d
      rw [satisfying] at hrest ⊢
      rw [List.map_cons, List.sum_cons, List.countP_cons, hrest, add_comm]
      simp only [hiff, decide_eq_true_eq]

theorem valid_layouts {ds : List DeviceState} (h : ∀ s ∈ ds, s.layout.Valid) :
    ∀ l ∈ ds.map (fun s => s.layout), l.Valid := by
  intro l hl
  obtain ⟨s, hs, rfl⟩ := List.mem_map.mp hl
  exact h s hs

/-! ## The counts of the planner and of the analyser -/

theorem tally_eq_ok_iff {d : WorkloadDemand} {n m : Count} {l : ResourceLayout} :
    tally d n l = .ok m ↔ n.toNat + (if deviceSatisfies l d then 1 else 0) = m.toNat := by
  by_cases hs : deviceSatisfies l d = true
  · rw [tally, if_pos hs, if_pos hs, ← @Quantity.toNat_one .count]
    exact Quantity.add_eq_ok_iff
  · rw [tally, if_neg hs, if_neg hs, Except.ok.injEq, add_zero]
    exact Quantity.eq_iff

/-- One round of the count: the device and its free capacity. -/
def countDevice (d : WorkloadDemand) (s : FitState) (l : ResourceLayout) :
    Except ValueError FitState := do
  let n ← tally d s.satisfying l
  let free ← s.aggregateFree.add l.freeCapacity
  .ok ⟨n, free⟩

theorem countDevice_eq_ok_iff {d : WorkloadDemand} {s s' : FitState} {l : ResourceLayout} :
    countDevice d s l = .ok s' ↔
      s.satisfying.toNat + (if deviceSatisfies l d then 1 else 0) = s'.satisfying.toNat ∧
        s.aggregateFree.toNat + l.freeCapacity.toNat = s'.aggregateFree.toNat := by
  simp only [countDevice, bind_eq_ok, tally_eq_ok_iff, Quantity.add_eq_ok_iff, Except.ok.injEq]
  constructor
  · rintro ⟨n, hn, free, hfree, rfl⟩
    exact ⟨hn, hfree⟩
  · intro h
    exact ⟨_, h.1, _, h.2, rfl⟩

theorem foldlM_countDevice_eq_ok_iff {d : WorkloadDemand} {ls : List ResourceLayout}
    {s s' : FitState} :
    ls.foldlM (countDevice d) s = .ok s' ↔
      s.satisfying.toNat + satisfying d ls = s'.satisfying.toNat ∧
        s.aggregateFree.toNat + freeTotal ls = s'.aggregateFree.toNat := by
  induction ls generalizing s with
  | nil =>
      obtain ⟨n, free⟩ := s
      obtain ⟨n', free'⟩ := s'
      rw [List.foldlM_nil, pure_eq_ok, Except.ok.injEq, FitState.mk.injEq]
      exact and_congr Quantity.eq_iff Quantity.eq_iff
  | cons l rest ih =>
      have hcount : satisfying d (l :: rest) =
          (if deviceSatisfies l d then 1 else 0) + satisfying d rest := by
        simp [satisfying]
      have hfree : freeTotal (l :: rest) = l.freeCapacity.toNat + freeTotal rest := by
        simp [freeTotal]
      rw [List.foldlM_cons, bind_eq_ok, hcount, hfree]
      simp only [ih, countDevice_eq_ok_iff]
      constructor
      · rintro ⟨mid, ⟨hn, hf⟩, hn', hf'⟩
        omega
      · rintro ⟨hn, hf⟩
        -- the state in between is below the final one, so it is a pair of 64-bit values
        have hn' := s'.satisfying.toNat_lt
        have hf' := s'.aggregateFree.toNat_lt
        refine ⟨⟨.ofNat (s.satisfying.toNat + if deviceSatisfies l d then 1 else 0),
          .ofNat (s.aggregateFree.toNat + l.freeCapacity.toNat)⟩, ?_⟩
        dsimp only
        rw [Quantity.toNat_ofNat (by omega), Quantity.toNat_ofNat (by omega)]
        omega

theorem eval_eq_foldlM (ls : List ResourceLayout) (d : WorkloadDemand) :
    eval ls d = ls.foldlM (countDevice d) {} := by
  have htest : ∀ l : ResourceLayout,
      (l.freeCapacity ≥ d.perDeviceMemory ∧ l.largestFreeBlock ≥ d.perDeviceMemory) =
        (deviceSatisfies l d = true) := by
    intro l
    rw [deviceSatisfies, Bool.and_eq_true, decide_eq_true_eq, decide_eq_true_eq]
  simp only [eval, htest]
  congr 1
  funext s l
  by_cases hs : deviceSatisfies l d = true
  · rw [countDevice, tally, if_pos hs, if_pos hs]
  · rw [countDevice, tally, if_neg hs, if_neg hs]

/-- The planner's count returns the two totals, exactly when both are 64-bit values. -/
theorem eval_eq_ok_iff {d : WorkloadDemand} {ls : List ResourceLayout} {st : FitState} :
    eval ls d = .ok st ↔
      st.satisfying.toNat = satisfying d ls ∧ st.aggregateFree.toNat = freeTotal ls := by
  rw [eval_eq_foldlM, foldlM_countDevice_eq_ok_iff]
  simp only [Quantity.toNat_zero, zero_add]
  exact and_congr eq_comm eq_comm

/-- The planner's test on a count it computed. -/
theorem suffices_iff {d : WorkloadDemand} {ls : List ResourceLayout} {st : FitState}
    (h : eval ls d = .ok st) : st.suffices d = true ↔ Suffices d ls := by
  obtain ⟨hn, hf⟩ := eval_eq_ok_iff.mp h
  rw [FitState.suffices, Bool.and_eq_true, decide_eq_true_eq, decide_eq_true_eq, Suffices,
    ← hn, ← hf]
  exact Iff.rfl

/-- The analyser's count is the planner's. -/
theorem countNow_eq (d : WorkloadDemand) (ds : List DeviceState) :
    countNow d ds = (do
      let st ← eval (ds.map (fun s => s.layout)) d
      .ok (st.satisfying, st.aggregateFree)) := by
  have hgen : ∀ s : FitState, ds.foldlM (fun acc s => do
      let n ← tally d acc.1 s.layout
      let free ← acc.2.add s.layout.freeCapacity
      .ok (n, free)) (s.satisfying, s.aggregateFree) = (do
        let st ← (ds.map (fun s => s.layout)).foldlM (countDevice d) s
        Except.ok (st.satisfying, st.aggregateFree)) := by
    induction ds with
    | nil =>
        intro s
        rfl
    | cons dev rest ih =>
        intro s
        rw [List.map_cons, List.foldlM_cons, List.foldlM_cons]
        simp only [countDevice]
        cases tally d s.satisfying dev.layout with
        | error e => rfl
        | ok n =>
            cases s.aggregateFree.add dev.layout.freeCapacity with
            | error e =>
                simp only [ok_bind, error_bind]
            | ok free =>
                simp only [ok_bind]
                exact ih ⟨n, free⟩
  rw [eval_eq_foldlM]
  exact hgen {}

/-! ## The counts after reclaiming -/

/-- The layout without its reclaimable allocations. -/
def reclaimed (l : ResourceLayout) : ResourceLayout :=
  match reclaimAll l with
  | .ok sim => sim
  | .error _ => l

theorem reclaimAll_eq {l : ResourceLayout} (h : l.Valid) :
    reclaimAll l = .ok (reclaimed l) ∧
      ResourceLayout.Cleared
        (ResourceLayout.selectIds Fit.reclaimable l.allocations.entries) l (reclaimed l) := by
  obtain ⟨sim, heq, hcleared⟩ := h.reclaimAll
  rw [reclaimed, heq]
  exact ⟨rfl, hcleared⟩

section Reclaim

variable {d : WorkloadDemand} {ds : List DeviceState} (h : ∀ s ∈ ds, s.layout.Valid)

include h

theorem valid_reclaimed : ∀ l ∈ ds.map (fun s => reclaimed s.layout), l.Valid := by
  intro l hl
  obtain ⟨s, hs, rfl⟩ := List.mem_map.mp hl
  exact (reclaimAll_eq (h s hs)).2.valid

theorem capacityTotal_reclaimed :
    capacityTotal (ds.map (fun s => reclaimed s.layout)) =
      capacityTotal (ds.map (fun s => s.layout)) := by
  rw [capacityTotal, capacityTotal, List.map_map, List.map_map]
  congr 1
  apply List.map_congr_left
  intro s hs
  exact congrArg Quantity.toNat (reclaimAll_eq (h s hs)).2.capacity_eq

/-- Reclaiming frees capacity. -/
theorem freeTotal_le_reclaimed :
    freeTotal (ds.map (fun s => s.layout)) ≤ freeTotal (ds.map (fun s => reclaimed s.layout)) := by
  rw [freeTotal, freeTotal, List.map_map, List.map_map]
  apply List.sum_le_sum
  intro s hs
  have hcleared := (reclaimAll_eq (h s hs)).2
  exact (h s hs).freeCapacity_le hcleared.valid hcleared.capacity_eq
    (fun _ _ => hcleared.find?_of_some)

theorem countSatisfyingAfterReclaim_eq_ok_iff {n : Count} :
    countSatisfyingAfterReclaim ds d = .ok n ↔
      satisfying d (ds.map (fun s => reclaimed s.layout)) = n.toNat := by
  have hstep : ∀ s ∈ ds, ∀ t c : Count, (do
      let sim ← reclaimAll s.layout
      tally d t sim) = .ok c ↔
        t.toNat + (if deviceSatisfies (reclaimed s.layout) d then 1 else 0) = c.toNat := by
    intro s hs t c
    rw [(reclaimAll_eq (h s hs)).1, ok_bind]
    exact tally_eq_ok_iff
  rw [countSatisfyingAfterReclaim, Quantity.foldlM_eq_ok_iff hstep, Quantity.toNat_zero, zero_add,
    satisfying, List.map_map]
  rfl

theorem aggregateAfterReclaim_eq_ok_iff {total : Bytes} :
    aggregateAfterReclaim ds = .ok total ↔
      freeTotal (ds.map (fun s => reclaimed s.layout)) = total.toNat := by
  have hstep : ∀ s ∈ ds, ∀ t c : Bytes, (do
      let sim ← reclaimAll s.layout
      t.add sim.freeCapacity) = .ok c ↔
        t.toNat + (reclaimed s.layout).freeCapacity.toNat = c.toNat := by
    intro s hs t c
    rw [(reclaimAll_eq (h s hs)).1, ok_bind]
    exact Quantity.add_eq_ok_iff
  rw [aggregateAfterReclaim, Quantity.foldlM_eq_ok_iff hstep, Quantity.toNat_zero, zero_add,
    freeTotal, List.map_map]
  rfl

end Reclaim

/-! ## Enough room -/

/-- At least as many layouts as needed have a block for the per-device memory, and the free
capacities add up to the aggregate. -/
def Enough (d : WorkloadDemand) (ls : List ResourceLayout) : Prop :=
  max 1 d.acceleratorCount.toNat ≤
      ls.countP (fun l => decide (d.perDeviceMemory ≤ l.largestFreeBlock)) ∧
    d.aggregateMemory.toNat ≤ freeTotal ls

theorem enough_iff {ls : List ResourceLayout} (h : ∀ l ∈ ls, l.Valid) (d : WorkloadDemand) :
    Enough d ls ↔ Suffices d ls := by
  rw [Enough, Suffices, toNat_neededCount, satisfying_eq_countP h]

/-- The second layout has at least as much room as the first. -/
def Roomier (l l' : ResourceLayout) : Prop :=
  l.largestFreeBlock ≤ l'.largestFreeBlock ∧ l.freeCapacity.toNat ≤ l'.freeCapacity.toNat

theorem countP_le_of_roomier {ls ls' : List ResourceLayout} (h : List.Forall₂ Roomier ls ls')
    (len : Bytes) :
    ls.countP (fun l => decide (len ≤ l.largestFreeBlock)) ≤
      ls'.countP (fun l => decide (len ≤ l.largestFreeBlock)) := by
  induction h with
  | nil => exact le_refl 0
  | @cons l l' ls ls' hroom _ ih =>
      rw [List.countP_cons, List.countP_cons]
      refine Nat.add_le_add ih ?_
      by_cases hle : len ≤ l.largestFreeBlock
      · rw [if_pos (decide_eq_true hle), if_pos (decide_eq_true (hle.trans hroom.1))]
      · rw [if_neg (by simpa using hle)]
        exact Nat.zero_le _

theorem freeTotal_le_of_roomier {ls ls' : List ResourceLayout} (h : List.Forall₂ Roomier ls ls') :
    freeTotal ls ≤ freeTotal ls' := by
  rw [freeTotal, freeTotal]
  apply List.Forall₂.sum_le_sum
  rw [List.forall₂_map_left_iff, List.forall₂_map_right_iff]
  exact h.imp (fun _ _ hle => hle.2)

theorem Enough.mono {d : WorkloadDemand} {ls ls' : List ResourceLayout} (h : Enough d ls)
    (hroom : List.Forall₂ Roomier ls ls') : Enough d ls' :=
  ⟨h.1.trans (countP_le_of_roomier hroom _), h.2.trans (freeTotal_le_of_roomier hroom)⟩

/-! ## What can be counted -/

/-- The devices are valid, and what they can have free and their number can be counted. -/
structure Representable (d : WorkloadDemand) (ds : List DeviceState) : Prop where
  valid : ∀ s ∈ ds, s.layout.Valid
  free : freeTotal (ds.map (fun s => reclaimed s.layout)) < 2 ^ 64
  length : ds.length < 2 ^ 64 ∨ 0 < d.perDeviceMemory.toNat

/-- The devices are valid, and their capacities and their number can be counted. -/
structure Countable (d : WorkloadDemand) (ds : List DeviceState) : Prop where
  valid : ∀ s ∈ ds, s.layout.Valid
  capacity : capacityTotal (ds.map (fun s => s.layout)) < 2 ^ 64
  length : ds.length < 2 ^ 64 ∨ 0 < d.perDeviceMemory.toNat

/-- What is free is at most the capacity. -/
theorem Countable.representable {d : WorkloadDemand} {ds : List DeviceState}
    (h : Countable d ds) : Representable d ds := by
  refine ⟨h.valid, ?_, h.length⟩
  refine lt_of_le_of_lt (freeTotal_le_capacityTotal (valid_reclaimed h.valid)) ?_
  rw [capacityTotal_reclaimed h.valid]
  exact h.capacity

namespace Representable

variable {d : WorkloadDemand} {ds : List DeviceState}

theorem freeTotal_lt (h : Representable d ds) : freeTotal (ds.map (fun s => s.layout)) < 2 ^ 64 :=
  lt_of_le_of_lt (freeTotal_le_reclaimed h.valid) h.free

/-- The planner's count never raises. -/
theorem exists_eval (h : Representable d ds) :
    ∃ st, eval (ds.map (fun s => s.layout)) d = .ok st := by
  have hn : satisfying d (ds.map (fun s => s.layout)) < 2 ^ 64 :=
    satisfying_lt h.freeTotal_lt (by simpa using h.length)
  exact ⟨⟨.ofNat _, .ofNat _⟩,
    eval_eq_ok_iff.mpr ⟨Quantity.toNat_ofNat hn, Quantity.toNat_ofNat h.freeTotal_lt⟩⟩

end Representable

theorem select_sublist (ds : List DeviceState) (d : WorkloadDemand) :
    (select ds d).Sublist ds := by
  unfold Fit.select
  split
  · exact List.Sublist.refl ds
  · exact List.filter_sublist

/-- The devices a demand selects can be counted when all can. -/
theorem Representable.select {d : WorkloadDemand} {ds : List DeviceState}
    (h : Representable d ds) : Representable d (select ds d) := by
  have hsub := select_sublist ds d
  refine ⟨fun s hs => h.valid s (hsub.subset hs), ?_, ?_⟩
  · refine lt_of_le_of_lt ?_ h.free
    exact ((hsub.map _).map _).sum_le_sum (fun _ _ => Nat.zero_le _)
  · rcases h.length with hlen | hpos
    · exact Or.inl (lt_of_le_of_lt hsub.length_le hlen)
    · exact Or.inr hpos

/-! ## The evidence gate -/

theorem shortfallFit_outcome {r r' : FitResult} {ds : List DeviceState} {d : WorkloadDemand}
    (h : shortfallFit r ds d = .ok r') : r'.outcome ≠ .revalidationRequired := by
  simp only [shortfallFit] at h
  split at h
  · cases h
    simp
  · rw [bind_eq_ok] at h
    obtain ⟨n, -, h⟩ := h
    split at h
    on_goal 1 =>
      rw [bind_eq_ok] at h
      obtain ⟨total, -, h⟩ := h
    all_goals
      rw [ok_bind] at h
      split at h
      · cases h
        simp
      · split at h
        · cases h
          simp
        · cases h
          simp

theorem reservationFit_outcome {r r' : FitResult} {rs : List Reservation} {t : Duration}
    (h : reservationFit r rs t = .ok (some r')) : r'.outcome ≠ .revalidationRequired := by
  simp only [reservationFit, reservationGate, bind_eq_ok] at h
  obtain ⟨window, -, h⟩ := h
  cases window with
  | some _ => cases h
  | none =>
      dsimp only at h
      split at h
      · cases h
        simp
      · cases h
        simp

theorem fitNow_outcome {r r' : FitResult} {ds : List DeviceState} {d : WorkloadDemand}
    (h : fitNow r ds d = .ok r') : r'.outcome = .fitNow := by
  simp only [fitNow] at h
  split at h
  · split at h
    · cases h
      rfl
    · rw [bind_eq_ok] at h
      obtain ⟨m, -, h⟩ := h
      cases h
      rfl
  · cases h
    rfl

/-- With current evidence the analysis never asks for a revalidation. -/
theorem analyzeFit_ne_revalidationRequired {sn : FragmentationSnapshot} {d : WorkloadDemand} {r : FitResult}
    (hgen : sn.generations.complete = true) (hprov : sn.provenance ≠ .unknown)
    (h : analyzeFit sn d = .ok r) : r.outcome ≠ .revalidationRequired := by
  have hstale : ¬ ((!sn.generations.complete) = true ∨ sn.provenance = .unknown) := by
    simp [hgen, hprov]
  simp only [analyzeFit] at h
  rw [if_neg hstale] at h
  split at h
  · cases h
    simp
  · rw [bind_eq_ok] at h
    obtain ⟨n, -, h⟩ := h
    split at h
    · cases h
      simp
    · split at h
      · exact shortfallFit_outcome h
      · have hnow : ∀ {r₀ : FitResult}, fitNow r₀ (select sn.devices d) d = .ok r →
            r.outcome ≠ .revalidationRequired := by
          intro r₀ hfit
          rw [fitNow_outcome hfit]
          decide
        cases hdur : d.reservationDuration with
        | none =>
            rw [hdur] at h
            exact hnow h
        | some duration =>
            rw [hdur] at h
            dsimp only at h
            split at h
            · exact hnow h
            · rw [bind_eq_ok] at h
              obtain ⟨blocked, hblocked, h⟩ := h
              cases blocked with
              | none => exact hnow h
              | some r' =>
                  cases h
                  exact reservationFit_outcome hblocked

end FragmentationGovernor
