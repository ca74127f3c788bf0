import FragmentationGovernor.Verification.Fit.Monotone

/-! # What the verification judges

The outcome of a verification depends on three of its four integrity clauses, on whether the
demand fits before and after, and on the stranded capacity and the largest free block of both
snapshots. What each outcome promises holds under the conditions given here. -/

namespace FragmentationGovernor

open Fit Verify

/-! ## What is compared -/

/-- The demand fits the snapshot now. -/
def Fits (sn : FragmentationSnapshot) (d : WorkloadDemand) : Prop :=
  ∃ r, analyzeFit sn d = .ok r ∧ r.outcome = .fitNow

/-- The free capacity outside the largest free block of any device. -/
def stranded (ds : List DeviceState) : ℕ :=
  freeTotal (ds.map (fun s => s.layout)) - (largest ds).toNat

/-- Nothing raises, the accounting is closed, the generations are current, and every
allocation that must survive still has its id on some device. -/
structure Passes (before after : FragmentationSnapshot) (d : WorkloadDemand) : Prop where
  countedBefore : freeTotal (before.devices.map (fun s => s.layout)) < 2 ^ 64
  countedAfter : freeTotal (after.devices.map (fun s => s.layout)) < 2 ^ 64
  analyzedBefore : ∃ r, analyzeFit before d = .ok r
  analyzedAfter : ∃ r, analyzeFit after d = .ok r
  closedBefore : accountingClosed before.devices = .ok true
  closedAfter : accountingClosed after.devices = .ok true
  complete : after.generations.complete = true
  epoch : after.epoch = before.epoch
  policy : after.policyGeneration = before.policyGeneration
  intact : protectedIntact before.devices after.devices = true

/-- The integrity clauses the outcome depends on. -/
def VerificationResult.Clauses (v : VerificationResult) : Prop :=
  v.exactAccountingClosed = true ∧ v.currentGenerations = true ∧ v.noProtectedViolation = true

/-- The outcomes that complete a plan. -/
def Succeeded (o : VerificationOutcome) : Prop :=
  o = .improved ∨ o = .targetFitAchieved ∨ o = .partialImprovement

/-- The outcome of a comparison whose clauses hold. -/
def judge (v : VerificationResult) : VerificationOutcome :=
  if v.afterFit = true then
    if v.beforeFit = true then .improved else .targetFitAchieved
  else if v.afterStranded < v.beforeStranded then .partialImprovement
  else if v.beforeStranded < v.afterStranded then .regression
  else if v.afterLargest = v.beforeLargest then .noChange
  else .revalidationRequired

/-- What a verification that returns says of the snapshots it compares. -/
structure Judged (before after : FragmentationSnapshot) (d : WorkloadDemand)
    (plan : RemediationPlan) (v : VerificationResult) : Prop where
  beforeStranded : v.beforeStranded.toNat = stranded before.devices
  afterStranded : v.afterStranded.toNat = stranded after.devices
  beforeLargest : v.beforeLargest = largest before.devices
  afterLargest : v.afterLargest = largest after.devices
  beforeFit : v.beforeFit = true ↔ Fits before d
  afterFit : v.afterFit = true ↔ Fits after d
  stale : v.failedStaleRemoved = staleRemoved after.devices plan
  clauses : v.Clauses ↔ Passes before after d
  failed : ¬ v.Clauses → v.outcome = .verificationFailed
  outcome : v.Clauses → v.outcome = judge v

/-! ## The verification returns a judgement -/

/-- Where the clauses hold, the outcome is decided by the comparison. -/
theorem decideOutcome_of_clauses {v : VerificationResult} (h : v.Clauses)
    (hdefault : v.outcome = .revalidationRequired) :
    decideOutcome v = { v with outcome := judge v } := by
  obtain ⟨hclosed, hcurrent, hintact⟩ := h
  rw [decideOutcome, if_neg (by simp [hclosed, hcurrent, hintact]), judge]
  by_cases hafter : v.afterFit = true
  · by_cases hbefore : v.beforeFit = true
    · simp [hafter, hbefore]
    · simp [hafter, hbefore]
  · rcases lt_trichotomy v.afterStranded v.beforeStranded with hlt | heq | hgt
    · simp [hafter, hlt]
    · by_cases hlargest : v.afterLargest = v.beforeLargest
      · simp [hafter, heq, hlargest]
      · have hsame : { v with outcome := .revalidationRequired } = v := by
          rw [← hdefault]
        rw [if_neg (by simp [hafter]), if_neg (by simp [hafter]), if_neg heq.not_lt,
          if_neg (by simp [hlargest]), if_neg heq.not_gt, if_neg hafter, if_neg heq.not_lt,
          if_neg heq.not_gt, if_neg hlargest, hsame]
    · simp [hafter, hgt, hgt.not_gt, hgt.ne']

theorem decideOutcome_of_not_clauses {v : VerificationResult} (h : ¬ v.Clauses) :
    ∃ texts, decideOutcome v =
      { v with outcome := .verificationFailed, diagnostics := texts } := by
  have hfailed : !v.exactAccountingClosed ∨ !v.currentGenerations ∨ !v.noProtectedViolation := by
    rw [VerificationResult.Clauses, not_and_or, not_and_or] at h
    simpa using h
  rw [decideOutcome, if_pos hfailed]
  exact ⟨_, rfl⟩

/-- A verification that returns has counted and analysed both snapshots, and is the decided
comparison of them. -/
theorem exists_of_verifyRemediation {before after : FragmentationSnapshot} {d : WorkloadDemand}
    {plan : RemediationPlan} {v : VerificationResult}
    (h : verifyRemediation before after d plan = .ok v) :
    ∃ fb fa sb sa rb ra closed,
      totalFree before.devices = .ok fb ∧ totalFree after.devices = .ok fa ∧
      excess fb (largest before.devices) = .ok sb ∧ excess fa (largest after.devices) = .ok sa ∧
      analyzeFit before d = .ok rb ∧ analyzeFit after d = .ok ra ∧
      (closed = true ↔
        accountingClosed before.devices = .ok true ∧ accountingClosed after.devices = .ok true) ∧
      decideOutcome (comparison before after plan sb sa (decide (rb.outcome = .fitNow))
        (decide (ra.outcome = .fitNow)) closed) = v := by
  simp only [verifyRemediation, bind_eq_ok] at h
  obtain ⟨fb, hfb, fa, hfa, sb, hsb, sa, hsa, rb, hrb, ra, hra, closedBefore, hbefore, h⟩ := h
  by_cases hclosed : closedBefore = true
  · rw [if_pos hclosed, bind_eq_ok] at h
    obtain ⟨closed, hafter, h⟩ := h
    refine ⟨fb, fa, sb, sa, rb, ra, closed, hfb, hfa, hsb, hsa, hrb, hra, ?_, Except.ok.inj h⟩
    simp [hbefore, hclosed, hafter]
  · rw [if_neg hclosed, ok_bind] at h
    refine ⟨fb, fa, sb, sa, rb, ra, false, hfb, hfa, hsb, hsa, hrb, hra, ?_, Except.ok.inj h⟩
    simp [hbefore, hclosed]

theorem excess_eq_ok_iff {a b c : Bytes} : excess a b = .ok c ↔ c.toNat = a.toNat - b.toNat := by
  obtain ⟨e, he, hdiff⟩ := exists_excess_ok a b
  rw [he, Except.ok.injEq, Quantity.eq_iff, ← hdiff]
  exact eq_comm

/-- A verification that returns is a judgement on the snapshots it compares. -/
theorem judged_of_verifyRemediation {before after : FragmentationSnapshot} {d : WorkloadDemand}
    {plan : RemediationPlan} {v : VerificationResult}
    (h : verifyRemediation before after d plan = .ok v) : Judged before after d plan v := by
  obtain ⟨fb, fa, sb, sa, rb, ra, closed, hfb, hfa, hsb, hsa, hrb, hra, hclosed, hv⟩ :=
    exists_of_verifyRemediation h
  rw [totalFree_eq_ok_iff] at hfb hfa
  rw [excess_eq_ok_iff, ← hfb] at hsb
  rw [excess_eq_ok_iff, ← hfa] at hsa
  have hfit : ∀ {sn : FragmentationSnapshot} {r : FitResult}, analyzeFit sn d = .ok r →
      (decide (r.outcome = .fitNow) = true ↔ Fits sn d) := by
    intro sn r hr
    rw [decide_eq_true_iff, Fits, hr]
    simp
  generalize hc : comparison before after plan sb sa (decide (rb.outcome = .fitNow))
    (decide (ra.outcome = .fitNow)) closed = c at hv
  have hclauses : c.Clauses ↔ Passes before after d := by
    rw [← hc, VerificationResult.Clauses, comparison]
    simp only [hclosed, Bool.and_eq_true, decide_eq_true_iff]
    constructor
    · rintro ⟨⟨hbefore, hafter⟩, ⟨⟨hcomplete, hepoch⟩, hpolicy⟩, hintact⟩
      exact ⟨hfb ▸ fb.toNat_lt, hfa ▸ fa.toNat_lt, ⟨rb, hrb⟩, ⟨ra, hra⟩, hbefore, hafter,
        hcomplete, hepoch, hpolicy, hintact⟩
    · intro hp
      exact ⟨⟨hp.closedBefore, hp.closedAfter⟩, ⟨⟨hp.complete, hp.epoch⟩, hp.policy⟩, hp.intact⟩
  by_cases hpass : c.Clauses
  · rw [decideOutcome_of_clauses hpass (by rw [← hc]; rfl)] at hv
    subst hv hc
    exact ⟨hsb, hsa, rfl, rfl, hfit hrb, hfit hra, rfl, hclauses, fun hn => absurd hpass hn,
      fun _ => rfl⟩
  · obtain ⟨texts, hfailed⟩ := decideOutcome_of_not_clauses hpass
    rw [hfailed] at hv
    subst hv hc
    exact ⟨hsb, hsa, rfl, rfl, hfit hrb, hfit hra, rfl, hclauses, fun _ => rfl,
      fun hp => absurd hp hpass⟩

/-- A verification whose clauses hold returns its judgement. -/
theorem Passes.exists_judged {before after : FragmentationSnapshot} {d : WorkloadDemand}
    (h : Passes before after d) (plan : RemediationPlan) :
    ∃ v, verifyRemediation before after d plan = .ok v ∧ Judged before after d plan v := by
  obtain ⟨rb, hrb⟩ := h.analyzedBefore
  obtain ⟨ra, hra⟩ := h.analyzedAfter
  obtain ⟨sb, sa, hv⟩ := verifyRemediation_eq_ok h.countedBefore h.countedAfter h.closedBefore
    h.closedAfter hrb hra plan
  exact ⟨_, hv, judged_of_verifyRemediation hv⟩

/-! ## The outcomes -/

namespace Judged

variable {before after : FragmentationSnapshot} {d : WorkloadDemand} {plan : RemediationPlan}
  {v : VerificationResult}

theorem verificationFailed_iff (h : Judged before after d plan v) :
    v.outcome = .verificationFailed ↔ ¬ Passes before after d := by
  rw [← h.clauses]
  constructor
  · intro hfailed hclauses
    rw [h.outcome hclauses, judge] at hfailed
    split_ifs at hfailed
  · exact h.failed

/-- The outcome over what is compared. -/
theorem outcome_eq (h : Judged before after d plan v) (hp : Passes before after d)
    [Decidable (Fits before d)] [Decidable (Fits after d)] :
    v.outcome =
      if Fits after d then
        if Fits before d then .improved else .targetFitAchieved
      else if stranded after.devices < stranded before.devices then .partialImprovement
      else if stranded before.devices < stranded after.devices then .regression
      else if largest after.devices = largest before.devices then .noChange
      else .revalidationRequired := by
  rw [h.outcome (h.clauses.mpr hp), judge]
  simp only [Quantity.lt_iff, h.beforeStranded, h.afterStranded, h.beforeLargest, h.afterLargest,
    h.beforeFit, h.afterFit]

/-- A plan completes with a fit or with less stranded capacity. -/
theorem succeeded_iff (h : Judged before after d plan v) :
    Succeeded v.outcome ↔ Passes before after d ∧
      (Fits after d ∨ stranded after.devices < stranded before.devices) := by
  classical
  by_cases hp : Passes before after d
  · rw [h.outcome_eq hp, Succeeded]
    split_ifs <;> simp [*]
  · rw [h.verificationFailed_iff.mpr hp]
    simp [Succeeded, hp]

theorem partialImprovement_iff (h : Judged before after d plan v) :
    v.outcome = .partialImprovement ↔ Passes before after d ∧
      ¬ Fits after d ∧ stranded after.devices < stranded before.devices := by
  classical
  by_cases hp : Passes before after d
  · rw [h.outcome_eq hp]
    split_ifs <;> simp [*]
  · rw [h.verificationFailed_iff.mpr hp]
    simp [hp]

/-- The default outcome is left when nothing but the largest free block differs. -/
theorem revalidationRequired_iff (h : Judged before after d plan v) :
    v.outcome = .revalidationRequired ↔ Passes before after d ∧ ¬ Fits after d ∧
      stranded after.devices = stranded before.devices ∧
      largest after.devices ≠ largest before.devices := by
  classical
  by_cases hp : Passes before after d
  · rw [h.outcome_eq hp]
    rcases lt_trichotomy (stranded after.devices) (stranded before.devices) with hlt | heq | hgt
    · split_ifs <;> simp [*, hlt.ne]
    · simp only [heq, lt_irrefl, if_false]
      split_ifs <;> simp [*]
    · split_ifs <;> simp [*, hgt.ne']
  · rw [h.verificationFailed_iff.mpr hp]
    simp [hp]

end Judged

/-! ## What a completed plan promises -/

/-- A plan completes without a gain exactly where a demand that fitted before still fits, with
no less capacity stranded. -/
theorem verifyRemediation_improves_iff (before after : FragmentationSnapshot)
    (d : WorkloadDemand) (plan : RemediationPlan) :
    (∀ v, verifyRemediation before after d plan = .ok v → Succeeded v.outcome →
        (Fits after d ∧ ¬ Fits before d) ∨ v.afterStranded < v.beforeStranded) ↔
      (Passes before after d → Fits before d → Fits after d →
        stranded after.devices < stranded before.devices) := by
  constructor
  · intro hclaim hp hbefore hafter
    obtain ⟨v, hv, hj⟩ := hp.exists_judged plan
    rcases hclaim v hv (hj.succeeded_iff.mpr ⟨hp, Or.inl hafter⟩) with hgained | hless
    · exact absurd hbefore hgained.2
    · rw [Quantity.lt_iff, hj.afterStranded, hj.beforeStranded] at hless
      exact hless
  · intro hkept v hv hdone
    have hj := judged_of_verifyRemediation hv
    rw [Quantity.lt_iff, hj.afterStranded, hj.beforeStranded]
    obtain ⟨hp, hafter | hless⟩ := hj.succeeded_iff.mp hdone
    · by_cases hbefore : Fits before d
      · exact Or.inr (hkept hp hbefore hafter)
      · exact Or.inl ⟨hafter, hbefore⟩
    · exact Or.inr hless

theorem exists_of_toOption_verified {x : Except ValueError VerificationResult}
    {o : VerificationOutcome} (h : x.toOption.map (fun v => v.outcome) = some o) :
    ∃ v, x = .ok v ∧ v.outcome = o := by
  obtain ⟨v, hv, hout⟩ := Option.map_eq_some_iff.mp h
  exact ⟨v, eq_ok_of_toOption hv, hout⟩

/-- Nothing has changed, and the outcome is IMPROVED. -/
theorem verifyRemediation_improves_unchanged :
    (∀ s ∈ dividedSnapshot.devices, s.layout.Reachable) ∧
      ∃ v, verifyRemediation dividedSnapshot dividedSnapshot gapDemand {} = .ok v ∧
        v.outcome = .improved ∧
        ¬ ((Fits dividedSnapshot gapDemand ∧ ¬ Fits dividedSnapshot gapDemand) ∨
          v.afterStranded < v.beforeStranded) := by
  obtain ⟨v, hv, hout⟩ := exists_of_toOption_verified (show
    (verifyRemediation dividedSnapshot dividedSnapshot gapDemand {}).toOption.map
      (fun v => v.outcome) = some .improved by decide)
  have hj := judged_of_verifyRemediation hv
  refine ⟨reachable_dividedSnapshot, v, hv, hout, ?_⟩
  rintro (⟨hfits, hnot⟩ | hless)
  · exact hnot hfits
  · rw [Quantity.lt_iff, hj.afterStranded, hj.beforeStranded] at hless
    exact lt_irrefl _ hless

theorem present_eq_false_iff {ds : List DeviceState} {id : AllocationId} :
    present ds id = false ↔ ∀ s ∈ ds, s.layout.findAllocation id = none := by
  simp [present]

theorem staleRemoved_eq_true_iff {after : List DeviceState} {plan : RemediationPlan} :
    staleRemoved after plan = true ↔
      ∀ act ∈ plan.actions, ∀ id, act.sourceAllocation = some id →
        ∀ s ∈ after, s.layout.findAllocation id = none := by
  rw [staleRemoved, List.all_eq_true]
  refine forall₂_congr (fun act _ => ?_)
  cases act.sourceAllocation with
  | none => simp
  | some id =>
      rw [Bool.not_eq_true', present_eq_false_iff]
      simp

/-- A completed plan satisfies all four clauses exactly where every comparison that completes
one finds none of the sources left. -/
theorem verifyRemediation_gated_iff (before after : FragmentationSnapshot)
    (d : WorkloadDemand) (plan : RemediationPlan) :
    (∀ v, verifyRemediation before after d plan = .ok v → Succeeded v.outcome →
        v.exactAccountingClosed = true ∧ v.currentGenerations = true ∧
          v.noProtectedViolation = true ∧ v.failedStaleRemoved = true) ↔
      (Passes before after d →
        (Fits after d ∨ stranded after.devices < stranded before.devices) →
        ∀ act ∈ plan.actions, ∀ id, act.sourceAllocation = some id →
          ∀ s ∈ after.devices, s.layout.findAllocation id = none) := by
  rw [← staleRemoved_eq_true_iff]
  constructor
  · intro hclaim hp hgain
    obtain ⟨v, hv, hj⟩ := hp.exists_judged plan
    rw [← hj.stale]
    exact (hclaim v hv (hj.succeeded_iff.mpr ⟨hp, hgain⟩)).2.2.2
  · intro hgone v hv hdone
    have hj := judged_of_verifyRemediation hv
    obtain ⟨hp, hgain⟩ := hj.succeeded_iff.mp hdone
    obtain ⟨hclosed, hcurrent, hintact⟩ := hj.clauses.mpr hp
    exact ⟨hclosed, hcurrent, hintact, hj.stale.trans (hgone hp hgain)⟩

/-- A plan to release the second allocation, completed while it is still there. -/
theorem verifyRemediation_gated_stillPresent :
    (∀ s ∈ dividedSnapshot.devices, s.layout.Reachable) ∧
      ∃ v, verifyRemediation dividedSnapshot dividedSnapshot gapDemand
          { actions := [{ kind := .releaseUnused, sourceAllocation := some ⟨2⟩ }] } = .ok v ∧
        v.outcome = .improved ∧ v.failedStaleRemoved = false := by
  obtain ⟨v, hv, hout⟩ := exists_of_toOption_verified (show
    (verifyRemediation dividedSnapshot dividedSnapshot gapDemand
      { actions := [{ kind := .releaseUnused, sourceAllocation := some ⟨2⟩ }] }).toOption.map
      (fun v => v.outcome) = some .improved by decide)
  refine ⟨reachable_dividedSnapshot, v, hv, hout, ?_⟩
  rw [(judged_of_verifyRemediation hv).stale]
  decide

/-! ## What is recognised -/

/-- A gain goes unrecognised, and the default outcome is left, exactly where the largest free
block differs while the stranded capacity does not and the demand does not fit. -/
theorem verifyRemediation_recognises_iff (before after : FragmentationSnapshot)
    (d : WorkloadDemand) (plan : RemediationPlan) :
    (∀ v, verifyRemediation before after d plan = .ok v → v.Clauses →
        (v.beforeLargest < v.afterLargest → v.afterStranded ≤ v.beforeStranded →
          Succeeded v.outcome) ∧ v.outcome ≠ .revalidationRequired) ↔
      (Passes before after d → ¬ Fits after d →
        stranded after.devices = stranded before.devices →
        largest after.devices = largest before.devices) := by
  constructor
  · intro hclaim hp hnot hsame
    by_contra hlargest
    obtain ⟨v, hv, hj⟩ := hp.exists_judged plan
    exact (hclaim v hv (hj.clauses.mpr hp)).2
      (hj.revalidationRequired_iff.mpr ⟨hp, hnot, hsame, hlargest⟩)
  · intro hkept v hv hclauses
    have hj := judged_of_verifyRemediation hv
    have hp := hj.clauses.mp hclauses
    constructor
    · intro hgrown hless
      rw [hj.beforeLargest, hj.afterLargest] at hgrown
      rw [Quantity.le_iff, hj.afterStranded, hj.beforeStranded] at hless
      rw [hj.succeeded_iff]
      by_contra hfailed
      rw [not_and, not_or, not_lt] at hfailed
      obtain ⟨hnot, hmore⟩ := hfailed hp
      exact hgrown.ne' (hkept hp hnot (le_antisymm hless hmore))
    · intro hdefault
      obtain ⟨-, hnot, hsame, hlargest⟩ := hj.revalidationRequired_iff.mp hdefault
      exact hlargest (hkept hp hnot hsame)

/-- The layout of 100 bytes that the calls leave. -/
def layoutAfter (calls : List ResourceLayout.Call) : ResourceLayout :=
  match (ResourceLayout.ofCapacity ⟨100⟩).calls calls with
  | .ok l => l
  | .error _ => .ofCapacity ⟨100⟩

theorem reachable_layoutAfter (calls : List ResourceLayout.Call) :
    (layoutAfter calls).Reachable := by
  rw [layoutAfter]
  split
  · exact ⟨_, _, by assumption⟩
  · exact .ofCapacity _

/-- One device with that layout in a snapshot with current evidence. -/
def snapshotAfter (calls : List ResourceLayout.Call) : FragmentationSnapshot :=
  { dividedSnapshot with devices := [⟨{ id := ⟨1⟩, capacity := ⟨100⟩ }, layoutAfter calls⟩] }

theorem reachable_snapshotAfter (calls : List ResourceLayout.Call) :
    ∀ s ∈ (snapshotAfter calls).devices, s.layout.Reachable := by
  intro s hs
  rw [List.mem_singleton.mp hs]
  exact reachable_layoutAfter calls

/-- More than the device has. -/
def oversizedDemand : WorkloadDemand := { perDeviceMemory := ⟨200⟩ }

def lowerHalf : Allocation := { id := ⟨1⟩, length := ⟨50⟩, movability := .releaseable }

/-- The half of the device that is in use is freed. -/
theorem verifyRemediation_recognises_freedHalf :
    (∀ s ∈ (snapshotAfter [.insert lowerHalf]).devices, s.layout.Reachable) ∧
      ∃ v, verifyRemediation (snapshotAfter [.insert lowerHalf]) (snapshotAfter [])
          oversizedDemand {} = .ok v ∧ v.Clauses ∧ v.beforeLargest < v.afterLargest ∧
        v.afterStranded ≤ v.beforeStranded ∧ v.outcome = .revalidationRequired := by
  obtain ⟨v, hv, hout⟩ := exists_of_toOption_verified (show
    (verifyRemediation (snapshotAfter [.insert lowerHalf]) (snapshotAfter [])
      oversizedDemand {}).toOption.map (fun v => v.outcome) = some .revalidationRequired by decide)
  have hj := judged_of_verifyRemediation hv
  obtain ⟨hp, -, hsame, -⟩ := hj.revalidationRequired_iff.mp hout
  refine ⟨reachable_snapshotAfter _, v, hv, hj.clauses.mpr hp, ?_, ?_, hout⟩
  · rw [hj.beforeLargest, hj.afterLargest]
    decide
  · rw [Quantity.le_iff, hj.afterStranded, hj.beforeStranded]
    exact hsame.le

/-! ## What is detected -/

/-- The resource holds the allocation at its offset and of its length. -/
def InPlace (ds : List DeviceState) (rid : ResourceId) (id : AllocationId) (a : Allocation) :
    Prop :=
  ∃ s ∈ ds, s.resource.id = rid ∧
    ∃ b ∈ s.layout.findAllocation id, b.offset = a.offset ∧ b.length = a.length

instance (ds : List DeviceState) (rid : ResourceId) (id : AllocationId) (a : Allocation) :
    Decidable (InPlace ds rid id a) :=
  inferInstanceAs (Decidable (∃ s ∈ ds, s.resource.id = rid ∧
    ∃ b ∈ s.layout.findAllocation id, b.offset = a.offset ∧ b.length = a.length))

/-- Of what may not be displaced, the verification leaves out unknown movability. -/
theorem not_reclaimable_iff {a : Allocation} :
    Fit.reclaimable a = false ↔ mustSurvive a = true ∨
      a.policyProtected = false ∧ a.reservation = none ∧ a.movability = .unknown := by
  cases hprotected : a.policyProtected <;> cases hreservation : a.reservation <;>
    cases hmovability : a.movability <;>
    simp [Fit.reclaimable, mustSurvive, mayMove, hprotected, hreservation, hmovability]

/-- What must survive is still somewhere when the clause on protection holds. -/
theorem present_of_protectedIntact {before after : List DeviceState} {s : DeviceState}
    {id : AllocationId} {a : Allocation} (h : protectedIntact before after = true)
    (hs : s ∈ before) (ha : s.layout.findAllocation id = some a) (hmust : mustSurvive a = true) :
    present after id = true := by
  rw [protectedIntact, List.all_eq_true] at h
  have hall := List.all_eq_true.mp (h s hs) (id, a) (OrdMap.find?_eq_some_iff.mp ha)
  simpa [hmust] using hall

/-- Displaced allocations go undetected exactly where a protected id is found elsewhere, or
where an allocation of unknown movability is no longer in place. -/
theorem verifyRemediation_detects_iff (before after : FragmentationSnapshot)
    (d : WorkloadDemand) (plan : RemediationPlan) :
    (∀ v, verifyRemediation before after d plan = .ok v → v.outcome ≠ .verificationFailed →
        ∀ s ∈ before.devices, ∀ id a, s.layout.findAllocation id = some a →
          Fit.reclaimable a = false → InPlace after.devices s.resource.id id a) ↔
      (Passes before after d →
        ∀ s ∈ before.devices, ∀ id a, s.layout.findAllocation id = some a →
          (mustSurvive a = true →
            ¬ (present after.devices id = true ∧ ¬ InPlace after.devices s.resource.id id a)) ∧
          (a.policyProtected = false → a.reservation = none → a.movability = .unknown →
            InPlace after.devices s.resource.id id a)) := by
  constructor
  · intro hclaim hp s hs id a ha
    obtain ⟨v, hv, hj⟩ := hp.exists_judged plan
    have hplace := hclaim v hv (fun hfailed => hj.verificationFailed_iff.mp hfailed hp) s hs id a ha
    constructor
    · rintro hmust ⟨-, hmoved⟩
      exact hmoved (hplace (not_reclaimable_iff.mpr (Or.inl hmust)))
    · intro hprotected hreservation hunknown
      exact hplace (not_reclaimable_iff.mpr (Or.inr ⟨hprotected, hreservation, hunknown⟩))
  · intro hkept v hv hpassed s hs id a ha hreclaimable
    have hj := judged_of_verifyRemediation hv
    have hp : Passes before after d := by
      by_contra hnot
      exact hpassed (hj.verificationFailed_iff.mpr hnot)
    obtain ⟨hmoved, hunknown⟩ := hkept hp s hs id a ha
    rcases not_reclaimable_iff.mp hreclaimable with hmust | ⟨hp, hr, hm⟩
    · by_contra hplace
      exact hmoved hmust ⟨present_of_protectedIntact hp.intact hs ha hmust, hplace⟩
    · exact hunknown hp hr hm

/-- An immovable allocation at the given offset. -/
def pinnedAt (offset : Bytes) : Allocation :=
  { id := ⟨1⟩, offset := offset, length := ⟨30⟩, movability := .immovable }

def unknownBlock : Allocation := { id := ⟨2⟩, offset := ⟨50⟩, length := ⟨20⟩ }

/-- The immovable allocation is moved, the one of unknown movability is gone, and the target
fit is reported as achieved. -/
theorem verifyRemediation_detects_movedAndGone :
    (∀ s ∈ (snapshotAfter [.insert (pinnedAt 0), .insert unknownBlock]).devices,
        s.layout.Reachable) ∧
      (∀ s ∈ (snapshotAfter [.insert (pinnedAt ⟨70⟩)]).devices, s.layout.Reachable) ∧
      (∃ v, verifyRemediation (snapshotAfter [.insert (pinnedAt 0), .insert unknownBlock])
          (snapshotAfter [.insert (pinnedAt ⟨70⟩)]) blockDemand {} = .ok v ∧
        v.outcome = .targetFitAchieved) ∧
      ∀ a ∈ [pinnedAt 0, unknownBlock],
        (layoutAfter [.insert (pinnedAt 0), .insert unknownBlock]).findAllocation a.id = some a ∧
          Fit.reclaimable a = false ∧
          ¬ InPlace (snapshotAfter [.insert (pinnedAt ⟨70⟩)]).devices ⟨1⟩ a.id a := by
  refine ⟨reachable_snapshotAfter _, reachable_snapshotAfter _, ?_, by decide⟩
  exact exists_of_toOption_verified (by decide)

end FragmentationGovernor
