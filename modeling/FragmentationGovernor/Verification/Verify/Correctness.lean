import FragmentationGovernor.Model.Verify
import FragmentationGovernor.Verification.Planner.Displacement
import FragmentationGovernor.Verification.Fit.Verdict
import FragmentationGovernor.Verification.Fit.Conservation

/-! # Correctness of the verification of a plan

The verifier, the fit analyser and the planner test fit and protection separately. A plan
that is carried out as it was planned passes all three. -/

namespace FragmentationGovernor

open Fit Verify

/-! ## The clauses of the verification -/

theorem totalFree_eq_ok_iff {ds : List DeviceState} {total : Bytes} :
    totalFree ds = .ok total ↔ freeTotal (ds.map (fun s => s.layout)) = total.toNat := by
  have hstep : ∀ s ∈ ds, ∀ t c : Bytes,
      t.add s.layout.freeCapacity = .ok c ↔ t.toNat + s.layout.freeCapacity.toNat = c.toNat :=
    fun s _ t c => Quantity.add_eq_ok_iff
  rw [totalFree, Quantity.foldlM_eq_ok_iff hstep, Quantity.toNat_zero, zero_add, freeTotal,
    List.map_map]
  rfl

theorem exists_totalFree {ds : List DeviceState}
    (h : freeTotal (ds.map (fun s => s.layout)) < 2 ^ 64) : ∃ total, totalFree ds = .ok total :=
  ⟨.ofNat _, totalFree_eq_ok_iff.mpr (Quantity.toNat_ofNat h).symm⟩

/-- The accounting of valid layouts is closed. -/
theorem accountingClosed_of_valid {ds : List DeviceState} (h : ∀ s ∈ ds, s.layout.Valid) :
    accountingClosed ds = .ok true := by
  induction ds with
  | nil => rfl
  | cons s rest ih =>
      obtain ⟨used, hused, hsum⟩ := (h s (by simp)).exists_usedCapacity
      have hadd : used.add s.layout.freeCapacity = .ok s.layout.totalCapacity := by
        rw [Quantity.add_eq_ok_iff, add_comm]
        exact hsum
      have hraw : used.value + s.layout.freeCapacity.value = s.layout.totalCapacity.value := by
        rw [Quantity.add] at hadd
        split at hadd
        · cases hadd
        · exact congrArg Quantity.value (Except.ok.inj hadd)
      rw [accountingClosed, hused, ok_bind, hadd, ok_bind, if_neg (by simp), if_neg (by simp [hraw])]
      exact ih (fun x hx => h x (by simp [hx]))

/-- An allocation that must survive is none the planner may displace. -/
theorem not_reclaimable_of_mustSurvive {a : Allocation} (h : mustSurvive a = true) :
    Planner.reclaimable a = false := by
  cases hr : Planner.reclaimable a with
  | false => rfl
  | true =>
      simp only [Planner.reclaimable] at hr
      by_cases hp : (a.policyProtected || a.reservation.isSome) = true
      · rw [if_pos hp] at hr
        cases hr
      · rw [Bool.or_eq_true, not_or] at hp
        rw [mustSurvive] at h
        cases hm : a.movability with
        | immovable => simp [hm, mayMove] at hr
        | reservationProtected => simp [hm, mayMove] at hr
        | policyProtected => simp [hm, mayMove] at hr
        | _ => simp [hm, hp] at h

/-- What must survive is still on its device after the planned displacements. -/
theorem Displaced.protectedIntact {ds : List DeviceState} {ls : List ResourceLayout}
    {actions : List PlanAction} (h : Displaced ds ls actions) :
    protectedIntact ds (withLayouts ds ls) = true := by
  rw [Verify.protectedIntact, List.all_eq_true]
  intro s hs
  rw [List.all_eq_true]
  intro e he
  cases hm : mustSurvive e.2 with
  | false => rfl
  | true =>
      obtain ⟨i, hi⟩ := List.mem_iff_getElem?.mp hs
      have hlt : i < ls.length := by
        rw [h.length_eq]
        exact (List.getElem?_eq_some_iff.mp hi).1
      have hl := List.getElem?_eq_getElem hlt
      obtain ⟨ids, hcleared, hall⟩ := h.cleared hi hl
      have hfind := OrdMap.find?_eq_some_iff.mpr he
      have hkept : e.1 ∉ ids := by
        intro hmem
        obtain ⟨a, ha, hr⟩ := hall e.1 hmem
        rw [hfind] at ha
        cases ha
        rw [not_reclaimable_of_mustSurvive hm] at hr
        cases hr
      have hpresent : present (withLayouts ds ls) e.1 = true := by
        rw [present, List.any_eq_true]
        refine ⟨_, List.mem_of_getElem? (getElem?_withLayouts hi hl), ?_⟩
        rw [ResourceLayout.findAllocation, hcleared.find?_of_notMem hkept, hfind]
        rfl
      rw [hpresent]
      rfl

/-- What a verification compares, before an outcome is decided. -/
def comparison (before after : FragmentationSnapshot) (plan : RemediationPlan) (sb sa : Bytes)
    (beforeFit afterFit closed : Bool) : VerificationResult where
  beforeLargest := largest before.devices
  afterLargest := largest after.devices
  beforeStranded := sb
  afterStranded := sa
  beforeFit := beforeFit
  afterFit := afterFit
  exactAccountingClosed := closed
  currentGenerations := after.generations.complete && decide (after.epoch = before.epoch) &&
    decide (after.policyGeneration = before.policyGeneration)
  noProtectedViolation := protectedIntact before.devices after.devices
  failedStaleRemoved := staleRemoved after.devices plan

/-- Where nothing raises and the accounting is closed the verification returns what its clauses
decide. -/
theorem verifyRemediation_eq_ok {before after : FragmentationSnapshot} {d : WorkloadDemand}
    {rb ra : FitResult} (hb : freeTotal (before.devices.map (fun s => s.layout)) < 2 ^ 64)
    (ha : freeTotal (after.devices.map (fun s => s.layout)) < 2 ^ 64)
    (hclosed : accountingClosed before.devices = .ok true)
    (hclosed' : accountingClosed after.devices = .ok true)
    (hbefore : analyzeFit before d = .ok rb) (hafter : analyzeFit after d = .ok ra)
    (plan : RemediationPlan) :
    ∃ sb sa, verifyRemediation before after d plan =
      .ok (decideOutcome (comparison before after plan sb sa (decide (rb.outcome = .fitNow))
        (decide (ra.outcome = .fitNow)) true)) := by
  obtain ⟨fb, hfb⟩ := exists_totalFree hb
  obtain ⟨fa, hfa⟩ := exists_totalFree ha
  obtain ⟨sb, hsb, -⟩ := exists_excess_ok fb (largest before.devices)
  obtain ⟨sa, hsa, -⟩ := exists_excess_ok fa (largest after.devices)
  refine ⟨sb, sa, ?_⟩
  simp only [verifyRemediation]
  rw [hfb, ok_bind, hfa, ok_bind, hsb, ok_bind, hsa, ok_bind, hbefore, ok_bind, hafter, ok_bind,
    hclosed, ok_bind, if_pos rfl, hclosed', ok_bind, comparison]

/-- Over devices that can be counted it always is. -/
theorem verifyRemediation_of_representable {before after : FragmentationSnapshot}
    {d : WorkloadDemand} {rb ra : FitResult} (hb : Representable d before.devices)
    (ha : Representable d after.devices) (hbefore : analyzeFit before d = .ok rb)
    (hafter : analyzeFit after d = .ok ra) (plan : RemediationPlan) :
    ∃ sb sa, verifyRemediation before after d plan =
      .ok (decideOutcome (comparison before after plan sb sa (decide (rb.outcome = .fitNow))
        (decide (ra.outcome = .fitNow)) true)) :=
  verifyRemediation_eq_ok hb.freeTotal_lt ha.freeTotal_lt (accountingClosed_of_valid hb.valid)
    (accountingClosed_of_valid ha.valid) hbefore hafter plan

/-- With current generations and everything protected in place, a fit that is gained is
reported as such. -/
theorem verifyRemediation_of_gained {before after : FragmentationSnapshot} {d : WorkloadDemand}
    {plan : RemediationPlan} {rb ra : FitResult} (hb : Representable d before.devices)
    (ha : Representable d after.devices) (hgen : after.generations.complete = true)
    (hepoch : after.epoch = before.epoch) (hpolicy : after.policyGeneration = before.policyGeneration)
    (hprotected : protectedIntact before.devices after.devices = true)
    (hbefore : analyzeFit before d = .ok rb) (hnot : rb.outcome ≠ .fitNow)
    (hafter : analyzeFit after d = .ok ra) (hfit : ra.outcome = .fitNow) :
    ∃ v, verifyRemediation before after d plan = .ok v ∧ v.outcome = .targetFitAchieved := by
  obtain ⟨sb, sa, hv⟩ := verifyRemediation_of_representable hb ha hbefore hafter plan
  refine ⟨_, hv, ?_⟩
  simp [decideOutcome, comparison, hgen, hepoch, hpolicy, hprotected, hnot, hfit]

/-- Between snapshots without reservations the verification returns. -/
theorem exists_verifyRemediation {before after : FragmentationSnapshot} {d : WorkloadDemand}
    (hb : Representable d before.devices) (ha : Representable d after.devices)
    (hbefore : before.reservations = []) (hafter : after.reservations = [])
    (plan : RemediationPlan) : ∃ v, verifyRemediation before after d plan = .ok v := by
  obtain ⟨rb, hrb⟩ := hb.select.exists_analyzeFit (hbefore ▸ windowOpen_nil d)
  obtain ⟨ra, hra⟩ := ha.select.exists_analyzeFit (hafter ▸ windowOpen_nil d)
  obtain ⟨sb, sa, hv⟩ := verifyRemediation_of_representable hb ha hrb hra plan
  exact ⟨_, hv⟩

/-! ## Plan, apply, verify -/

/-- A plan the planner returns can be carried out step by step; the demand does not fit
before and fits after, and the verification reports the target fit as achieved. -/
theorem plan_apply_verify (snap : FragmentationSnapshot) (d : WorkloadDemand) (policy : Policy)
    (weights : PlanningWeights) (pid : FragmentationPlanId) (pg : FragmentationPlanGeneration)
    (plan : RemediationPlan) (hreach : ∀ s ∈ snap.devices, s.layout.Reachable)
    (hids : (snap.devices.map (fun s => s.resource.id)).Nodup)
    (hcap : (snap.devices.map (fun s => s.layout.totalCapacity.toNat)).sum < 2 ^ 64)
    (hgen : snap.generations.complete = true) (hprov : snap.provenance ≠ .unknown)
    (htopology : d.topologyGroup = none) (hduration : d.reservationDuration = none)
    (hplan : planRemediation snap d policy weights pid pg = .ok (some plan)) :
    ∃ devices, applyActions plan.actions snap.devices = .ok (some devices) ∧
      (∃ r, analyzeFit { snap with devices := devices } d = .ok r ∧ r.outcome = .fitNow) ∧
      (∃ r, analyzeFit snap d = .ok r ∧ r.outcome ≠ .fitNow) ∧
      ∃ v, verifyRemediation snap { snap with devices := devices } d plan = .ok v ∧
        v.outcome = .targetFitAchieved := by
  have hvalid : ∀ s ∈ snap.devices, s.layout.Valid := fun s hs => (hreach s hs).valid
  obtain ⟨ls, hdisplaced, henough, hshort, hcount⟩ := planRemediation_applied hvalid hids hplan
  have hlayouts := map_layout_withLayouts hdisplaced.length_eq
  have hselect : ∀ ds, select ds d = ds := by
    intro ds
    rw [select, htopology]
  have hlength : snap.devices.length < 2 ^ 64 ∨ 0 < d.perDeviceMemory.toNat := by
    rcases Nat.eq_zero_or_pos d.perDeviceMemory.toNat with hzero | hpos
    · rw [satisfying_of_zero hzero, List.length_map] at hcount
      exact Or.inl hcount
    · exact Or.inr hpos
  have hb : Countable d snap.devices := by
    refine ⟨hvalid, ?_, hlength⟩
    rw [capacityTotal, List.map_map]
    exact hcap
  have ha : Countable d (withLayouts snap.devices ls) := by
    refine ⟨hdisplaced.valid, ?_, ?_⟩
    · rw [hlayouts, hdisplaced.capacityTotal_eq]
      exact hb.capacity
    · rw [withLayouts, List.length_zipWith, hdisplaced.length_eq, min_self]
      exact hlength
  have hneBefore : snap.devices ≠ [] := by
    intro hnil
    have hlen := hdisplaced.length_eq
    rw [hnil, List.length_nil, List.length_eq_zero_iff] at hlen
    exact henough.ne_nil hlen
  have hneAfter : withLayouts snap.devices ls ≠ [] := by
    intro hnil
    rw [hnil] at hlayouts
    exact henough.ne_nil hlayouts.symm
  obtain ⟨rb, hrb, hiffBefore⟩ := hb.representable.select.analyzeFit_fitNow_iff
    ⟨hgen, hprov, hneBefore⟩ (windowOpen_of_no_duration hduration)
  obtain ⟨ra, hra, hiffAfter⟩ :=
    @Representable.analyzeFit_fitNow_iff { snap with devices := withLayouts snap.devices ls } d
      ha.representable.select ⟨hgen, hprov, hneAfter⟩ (windowOpen_of_no_duration hduration)
  rw [selected, hselect] at hiffBefore hiffAfter
  have hnot : rb.outcome ≠ .fitNow := fun hfit => hshort (hiffBefore.mp hfit)
  have hfit : ra.outcome = .fitNow := hiffAfter.mpr (by rw [hlayouts]; exact henough)
  exact ⟨_, hdisplaced.applied, ⟨ra, hra, hfit⟩, ⟨rb, hrb, hnot⟩,
    verifyRemediation_of_gained hb.representable ha.representable hgen rfl rfl
      hdisplaced.protectedIntact hrb hnot hra hfit⟩

/-- The device in a snapshot with current evidence. -/
def dividedSnapshot : FragmentationSnapshot where
  generations := ⟨⟨1⟩, ⟨1⟩, ⟨1⟩, ⟨1⟩, ⟨1⟩, ⟨1⟩, ⟨1⟩, ⟨1⟩, ⟨1⟩⟩
  provenance := .measured
  devices := [⟨{ id := ⟨1⟩, capacity := ⟨100⟩ }, dividedLayout⟩]

/-- A demand for a block of 60 bytes, which none of the two free blocks can hold. -/
def blockDemand : WorkloadDemand := { perDeviceMemory := ⟨60⟩ }

theorem eq_ok_some_of_isSome {α : Type} {x : Except ValueError (Option α)}
    (h : (x.toOption.bind id).isSome = true) : ∃ a, x = .ok (some a) := by
  cases x with
  | error e => cases h
  | ok p =>
      cases p with
      | none => cases h
      | some a => exact ⟨a, rfl⟩

theorem reachable_dividedSnapshot : ∀ s ∈ dividedSnapshot.devices, s.layout.Reachable := by
  intro s hs
  rw [List.mem_singleton.mp hs]
  exact reachable_dividedLayout

theorem exists_plan_dividedSnapshot :
    ∃ plan, planRemediation dividedSnapshot blockDemand {} defaultWeights ⟨1⟩ ⟨1⟩ =
      .ok (some plan) :=
  eq_ok_some_of_isSome (by decide +kernel)

/-- The plan that releases the second allocation. -/
theorem plan_apply_verify_dividedSnapshot :
    ∃ plan, planRemediation dividedSnapshot blockDemand {} defaultWeights ⟨1⟩ ⟨1⟩ =
        .ok (some plan) ∧
      ∃ devices, applyActions plan.actions dividedSnapshot.devices = .ok (some devices) ∧
        ∃ v, verifyRemediation dividedSnapshot { dividedSnapshot with devices := devices }
            blockDemand plan = .ok v ∧ v.outcome = .targetFitAchieved := by
  obtain ⟨plan, hplan⟩ := exists_plan_dividedSnapshot
  obtain ⟨devices, happly, -, -, hverify⟩ := plan_apply_verify dividedSnapshot blockDemand
    {} defaultWeights ⟨1⟩ ⟨1⟩ plan reachable_dividedSnapshot (by simp [dividedSnapshot])
    (by decide +kernel) (by decide) (by decide) rfl rfl hplan
  exact ⟨plan, hplan, devices, happly, hverify⟩

end FragmentationGovernor
