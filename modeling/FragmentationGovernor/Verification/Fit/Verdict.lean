import FragmentationGovernor.Verification.Fit.Correctness

/-! # The verdict of the fit analysis

The analysis reads five totals of the devices it selects and whether anything on them can be
reclaimed. Its outcome, its category and the number of matching devices are a function of
these, so each outcome has an exact condition on the demand and the devices, and neither the
order of the devices nor the devices that are not selected matter. Over devices that can be
counted there always is a verdict. -/

namespace FragmentationGovernor

open Fit

/-! ## Tallies -/

/-- What the analysis reads of the selected devices. -/
structure Tallies where
  devices : ℕ
  satisfying : ℕ
  free : ℕ
  satisfyingAfter : ℕ
  freeAfter : ℕ
  reclaimable : Bool

/-- Some allocation of the layout can be reclaimed. -/
def holdsReclaimable (l : ResourceLayout) : Bool :=
  l.allocations.entries.any (fun e => Fit.reclaimable e.2)

def tallies (d : WorkloadDemand) (ds : List DeviceState) : Tallies where
  devices := ds.length
  satisfying := satisfying d (ds.map (fun s => s.layout))
  free := freeTotal (ds.map (fun s => s.layout))
  satisfyingAfter := satisfying d (ds.map (fun s => reclaimed s.layout))
  freeAfter := freeTotal (ds.map (fun s => reclaimed s.layout))
  reclaimable := ds.any (fun s => holdsReclaimable s.layout)

theorem tallies_perm {d : WorkloadDemand} {ds ds' : List DeviceState} (h : ds.Perm ds') :
    tallies d ds = tallies d ds' := by
  have hsat : ∀ f : DeviceState → ResourceLayout,
      satisfying d (ds.map f) = satisfying d (ds'.map f) :=
    fun f => ((h.map f).map _).sum_eq
  have hfree : ∀ f : DeviceState → ResourceLayout,
      freeTotal (ds.map f) = freeTotal (ds'.map f) :=
    fun f => ((h.map f).map _).sum_eq
  rw [tallies, tallies, h.length_eq, hsat, hfree, hsat, hfree, h.any_eq]

theorem select_perm {d : WorkloadDemand} {ds ds' : List DeviceState} (h : ds.Perm ds') :
    (select ds d).Perm (select ds' d) := by
  unfold Fit.select
  split
  · exact h
  · exact h.filter _

/-! ## Verdicts -/

/-- What the reservations say to a demand: `none` where the scan raises, and the verdict
where no window is long enough. -/
def reservationVerdict (rs : List Reservation) (d : WorkloadDemand) :
    Option (Option (FitOutcome × FragmentationCategory)) :=
  match d.reservationDuration with
  | none => some none
  | some duration =>
      if rs.isEmpty then some none
      else
        (temporalContinuousFit rs 0 ⟨0xFFFFFFFFFFFFFFFF / 2⟩ duration).toOption.map (fun window =>
          match window with
          | some _ => none
          | none =>
              if rs.any (fun res => res.hard) then some (.noFitReservation, .reservation)
              else some (.noFitTemporal, .temporal))

/-- The verdict when too few of the selected devices satisfy the requirement. -/
def shortfallVerdict (d : WorkloadDemand) (t : Tallies) :
    Option (FitOutcome × FragmentationCategory) :=
  let needed := (neededCount d).toNat
  if d.topologyGroup.isSome ∧ t.devices < needed then some (.noFitTopology, .topology)
  else if 2 ^ 64 ≤ t.satisfyingAfter ∨ needed ≤ t.satisfyingAfter ∧ 2 ^ 64 ≤ t.freeAfter then none
  else if needed ≤ t.satisfyingAfter ∧ d.aggregateMemory.toNat ≤ t.freeAfter then
    some (.fitAfterReclaim, .external)
  else if t.reclaimable then some (.noFitFragmentation, .contiguity)
  else some (.noFitProtectedState, .ownership)

/-- The outcome and the category for the tallied devices, `none` where the analysis raises. -/
def verdict (d : WorkloadDemand) (rs : List Reservation) (t : Tallies) :
    Option (FitOutcome × FragmentationCategory) :=
  if 2 ^ 64 ≤ t.satisfying ∨ 2 ^ 64 ≤ t.free then none
  else if t.free < d.aggregateMemory.toNat then some (.noFitRawCapacity, .spatial)
  else if t.satisfying < (neededCount d).toNat then shortfallVerdict d t
  else (reservationVerdict rs d).map (fun blocked => blocked.getD (.fitNow, .unknown))

/-! ## The analysis gives the verdict -/

theorem toOption_bind {ε α β : Type} (x : Except ε α) (f : α → Except ε β) :
    (x >>= f).toOption = x.toOption.bind (fun a => (f a).toOption) := by
  cases x with
  | error e => rfl
  | ok a => rfl

theorem eq_ok_of_toOption {α : Type} {x : Except ValueError α} {a : α}
    (h : x.toOption = some a) : x = .ok a := by
  cases x with
  | error e => cases h
  | ok b =>
      cases h
      rfl

theorem exists_of_toOption_outcome {x : Except ValueError FitResult} {o : FitOutcome}
    (h : x.toOption.map (fun r => r.outcome) = some o) : ∃ r, x = .ok r ∧ r.outcome = o := by
  obtain ⟨r, hr, hout⟩ := Option.map_eq_some_iff.mp h
  exact ⟨r, eq_ok_of_toOption hr, hout⟩

/-- A checked total is known once it is known when the check passes. -/
theorem toOption_eq_of_iff {kind : QuantityKind} {x : Except ValueError (Quantity kind)} {n : ℕ}
    (h : ∀ q, x = .ok q ↔ n = q.toNat) :
    x.toOption = if 2 ^ 64 ≤ n then none else some (.ofNat n) := by
  by_cases hn : 2 ^ 64 ≤ n
  · rw [if_pos hn]
    cases hx : x with
    | error e => rfl
    | ok q =>
        have hlt := q.toNat_lt
        have := (h q).mp hx
        omega
  · rw [if_neg hn, (h (.ofNat n)).mpr (Quantity.toNat_ofNat (by omega)).symm]
    rfl

theorem le_ofNat_iff {kind : QuantityKind} {n : ℕ} (h : n < 2 ^ 64) (q : Quantity kind) :
    q ≤ .ofNat n ↔ q.toNat ≤ n := by
  rw [Quantity.le_iff, Quantity.toNat_ofNat h]

theorem countNow_eq_ok {d : WorkloadDemand} {ds : List DeviceState}
    (hcount : satisfying d (ds.map (fun s => s.layout)) < 2 ^ 64)
    (hfree : freeTotal (ds.map (fun s => s.layout)) < 2 ^ 64) :
    countNow d ds = .ok (.ofNat (satisfying d (ds.map (fun s => s.layout))),
      .ofNat (freeTotal (ds.map (fun s => s.layout)))) := by
  have hst : Planner.eval (ds.map (fun s => s.layout)) d =
      .ok ⟨.ofNat (satisfying d (ds.map (fun s => s.layout))),
        .ofNat (freeTotal (ds.map (fun s => s.layout)))⟩ :=
    eval_eq_ok_iff.mpr ⟨Quantity.toNat_ofNat hcount, Quantity.toNat_ofNat hfree⟩
  rw [countNow_eq, hst, ok_bind]

theorem toOption_countNow (d : WorkloadDemand) (ds : List DeviceState) :
    (countNow d ds).toOption =
      if 2 ^ 64 ≤ (tallies d ds).satisfying ∨ 2 ^ 64 ≤ (tallies d ds).free then none
      else some (.ofNat (tallies d ds).satisfying, .ofNat (tallies d ds).free) := by
  by_cases hlarge : 2 ^ 64 ≤ (tallies d ds).satisfying ∨ 2 ^ 64 ≤ (tallies d ds).free
  · rw [if_pos hlarge, countNow_eq]
    cases hst : Planner.eval (ds.map (fun s => s.layout)) d with
    | error e => rfl
    | ok st =>
        obtain ⟨hn, hf⟩ := eval_eq_ok_iff.mp hst
        have hn' := st.satisfying.toNat_lt
        have hf' := st.aggregateFree.toNat_lt
        simp only [tallies] at hlarge
        omega
  · rw [if_neg hlarge]
    rw [not_or, not_le, not_le] at hlarge
    rw [countNow_eq_ok hlarge.1 hlarge.2]
    rfl

/-- The scan for an allocation that could be reclaimed. -/
theorem all_not_reclaimable (ds : List DeviceState) :
    ds.all (fun s => s.layout.allocations.entries.all (fun e =>
        !(mayMove e.2.movability && !e.2.policyProtected && !e.2.reservation.isSome))) =
      !ds.any (fun s => holdsReclaimable s.layout) := by
  have htest : ∀ a : Allocation,
      (mayMove a.movability && !a.policyProtected && !a.reservation.isSome) =
        Fit.reclaimable a := by
    intro a
    rw [Fit.reclaimable]
    cases a.policyProtected <;> cases a.reservation.isSome <;> simp
  simp only [htest, holdsReclaimable, List.not_any_eq_all_not]

/-- The part of a result that the verdict decides. -/
def FitResult.summary (r : FitResult) : FitOutcome × FragmentationCategory × Count :=
  (r.outcome, r.category, r.matchingDevices)

section Stages

variable {d : WorkloadDemand} {ds : List DeviceState} (h : ∀ s ∈ ds, s.layout.Valid)

include h

theorem shortfallFit_verdict (r : FitResult) :
    (shortfallFit r ds d).toOption.map FitResult.summary =
      (shortfallVerdict d (tallies d ds)).map (fun v => (v.1, v.2, r.matchingDevices)) := by
  have hcount : (countSatisfyingAfterReclaim ds d).toOption =
      if 2 ^ 64 ≤ (tallies d ds).satisfyingAfter then none
      else some (.ofNat (tallies d ds).satisfyingAfter) :=
    toOption_eq_of_iff (fun _ => countSatisfyingAfterReclaim_eq_ok_iff h)
  have htotal : (aggregateAfterReclaim ds).toOption =
      if 2 ^ 64 ≤ (tallies d ds).freeAfter then none
      else some (.ofNat (tallies d ds).freeAfter) :=
    toOption_eq_of_iff (fun _ => aggregateAfterReclaim_eq_ok_iff h)
  have hdevices : ds.length = (tallies d ds).devices := rfl
  have hheld := all_not_reclaimable ds
  rw [show ds.any _ = (tallies d ds).reclaimable from rfl] at hheld
  simp only [shortfallFit, hdevices, hheld]
  generalize tallies d ds = t at hcount htotal ⊢
  simp only [shortfallVerdict]
  by_cases htopo : d.topologyGroup.isSome ∧ t.devices < (neededCount d).toNat
  · rw [if_pos htopo, if_pos htopo]
    rfl
  · rw [if_neg htopo, if_neg htopo, toOption_bind, hcount]
    by_cases hn : 2 ^ 64 ≤ t.satisfyingAfter
    · rw [if_pos hn, if_pos (Or.inl hn)]
      rfl
    · have hcmp := le_ofNat_iff (not_le.mp hn) (neededCount d)
      rw [if_neg hn, Option.bind_some]
      by_cases hge : (neededCount d).toNat ≤ t.satisfyingAfter
      · rw [if_pos (hcmp.mpr hge), toOption_bind, htotal]
        by_cases hf : 2 ^ 64 ≤ t.freeAfter
        · rw [if_pos hf, if_pos (Or.inr ⟨hge, hf⟩)]
          rfl
        · have hcmp' := le_ofNat_iff (not_le.mp hf) d.aggregateMemory
          have hsmall : ¬ (2 ^ 64 ≤ t.satisfyingAfter ∨
              (neededCount d).toNat ≤ t.satisfyingAfter ∧ 2 ^ 64 ≤ t.freeAfter) := by omega
          rw [if_neg hf, if_neg hsmall, Option.bind_some, ok_bind]
          by_cases hagg : d.aggregateMemory.toNat ≤ t.freeAfter
          · rw [if_pos (decide_eq_true (hcmp'.mpr hagg)), if_pos ⟨hge, hagg⟩]
            rfl
          · have hnot : ¬ ((neededCount d).toNat ≤ t.satisfyingAfter ∧
                d.aggregateMemory.toNat ≤ t.freeAfter) := fun hboth => hagg hboth.2
            rw [if_neg (by simpa using fun hle => hagg (hcmp'.mp hle)), if_neg hnot]
            cases t.reclaimable <;> simp [FitResult.summary, Except.toOption]
      · have hsmall : ¬ (2 ^ 64 ≤ t.satisfyingAfter ∨
            (neededCount d).toNat ≤ t.satisfyingAfter ∧ 2 ^ 64 ≤ t.freeAfter) := by omega
        have hnot : ¬ ((neededCount d).toNat ≤ t.satisfyingAfter ∧
            d.aggregateMemory.toNat ≤ t.freeAfter) := fun hboth => hge hboth.1
        rw [if_neg (fun hle => hge (hcmp.mp hle)), if_neg hsmall, if_neg hnot, ok_bind,
          if_neg Bool.false_ne_true]
        cases t.reclaimable <;> simp [FitResult.summary, Except.toOption]

theorem fitNow_verdict (r : FitResult) :
    (fitNow r ds d).toOption.map FitResult.summary =
      some (.fitNow, .unknown, r.matchingDevices) := by
  simp only [fitNow]
  split
  · cases hfind : ds.find? (fun s => deviceSatisfies s.layout d) with
    | none => rfl
    | some s =>
        obtain ⟨m, hm⟩ :=
          (h s (List.mem_of_find?_eq_some hfind)).exists_computeMetrics (some d)
        dsimp only
        rw [hm]
        rfl
  · rfl

end Stages

/-- The reservations decide as their verdict says. -/
theorem reservationFit_verdict (r : FitResult) (rs : List Reservation) (d : WorkloadDemand)
    (next : Except ValueError FitResult)
    (hnext : next.toOption.map FitResult.summary =
      some (.fitNow, .unknown, r.matchingDevices)) :
    (do
      let blocked ← match d.reservationDuration with
        | some duration => if rs.isEmpty then .ok none else reservationFit r rs duration
        | none => .ok none
      match blocked with
      | some r => .ok r
      | none => next : Except ValueError FitResult).toOption.map FitResult.summary =
      ((reservationVerdict rs d).map (fun blocked => blocked.getD (.fitNow, .unknown))).map
        (fun v => (v.1, v.2, r.matchingDevices)) := by
  rw [reservationVerdict]
  cases d.reservationDuration with
  | none => exact hnext
  | some duration =>
      dsimp only
      by_cases hrs : rs.isEmpty = true
      · rw [if_pos hrs, if_pos hrs]
        exact hnext
      · rw [if_neg hrs, if_neg hrs, reservationFit, reservationGate]
        cases temporalContinuousFit rs 0 ⟨0xFFFFFFFFFFFFFFFF / 2⟩ duration with
        | error e => rfl
        | ok window =>
            cases window with
            | some start => exact hnext
            | none =>
                simp only [ok_bind]
                by_cases hhard : rs.any (fun res => res.hard) = true
                · rw [if_pos hhard]
                  simp [Except.toOption, hhard, FitResult.summary]
                · rw [if_neg hhard]
                  simp [Except.toOption, hhard, FitResult.summary]

/-- On current evidence the analysis answers with the verdict on the tallies of the devices it
selects, and raises where there is none. -/
theorem analyzeFit_verdict {sn : FragmentationSnapshot} {d : WorkloadDemand}
    (hgen : sn.generations.complete = true) (hprov : sn.provenance ≠ .unknown)
    (hne : sn.devices ≠ []) (h : ∀ s ∈ select sn.devices d, s.layout.Valid) :
    (analyzeFit sn d).toOption.map FitResult.summary =
      (verdict d sn.reservations (tallies d (select sn.devices d))).map
        (fun v => (v.1, v.2, .ofNat (tallies d (select sn.devices d)).satisfying)) := by
  have hstale : ¬ ((!sn.generations.complete) = true ∨ sn.provenance = .unknown) := by
    simp [hgen, hprov]
  have hempty : ¬ sn.devices.isEmpty = true := by simpa using hne
  simp only [analyzeFit, verdict]
  rw [if_neg hstale, if_neg hempty, toOption_bind, toOption_countNow]
  generalize htally : tallies d (select sn.devices d) = t
  by_cases hlarge : 2 ^ 64 ≤ t.satisfying ∨ 2 ^ 64 ≤ t.free
  · rw [if_pos hlarge, if_pos hlarge]
    rfl
  · rw [if_neg hlarge, if_neg hlarge, Option.bind_some]
    rw [not_or, not_le, not_le] at hlarge
    have hfree := le_ofNat_iff hlarge.2 d.aggregateMemory
    have hcount := le_ofNat_iff hlarge.1 (neededCount d)
    by_cases hraw : t.free < d.aggregateMemory.toNat
    · rw [if_pos hraw, if_pos (not_le.mp (fun hle => absurd (hfree.mp hle) (not_le.mpr hraw)))]
      rfl
    · rw [if_neg hraw, if_neg (not_lt.mpr (hfree.mpr (not_lt.mp hraw)))]
      by_cases hshort : t.satisfying < (neededCount d).toNat
      · rw [if_pos hshort,
          if_pos (not_le.mp (fun hle => absurd (hcount.mp hle) (not_le.mpr hshort))),
          shortfallFit_verdict h, htally]
      · rw [if_neg hshort, if_neg (not_lt.mpr (hcount.mpr (not_lt.mp hshort)))]
        exact reservationFit_verdict _ sn.reservations d _ (fitNow_verdict h _)

/-! ## Each outcome -/

/-- The evidence is current and names some device. -/
structure Assessable (sn : FragmentationSnapshot) : Prop where
  complete : sn.generations.complete = true
  known : sn.provenance ≠ .unknown
  devices : sn.devices ≠ []

/-- A demand with a duration finds a window among the reservations. -/
def WindowOpen (rs : List Reservation) (d : WorkloadDemand) : Prop :=
  ∀ duration, d.reservationDuration = some duration → rs ≠ [] →
    ∃ start, temporalContinuousFit rs 0 ⟨0xFFFFFFFFFFFFFFFF / 2⟩ duration = .ok (some start)

/-- The layouts of the devices a demand selects. -/
def selected (sn : FragmentationSnapshot) (d : WorkloadDemand) : List ResourceLayout :=
  (select sn.devices d).map (fun s => s.layout)

/-- The same layouts without their reclaimable allocations. -/
def selectedAfter (sn : FragmentationSnapshot) (d : WorkloadDemand) : List ResourceLayout :=
  (select sn.devices d).map (fun s => reclaimed s.layout)

/-- The selected devices can be counted and suffice, and the reservations leave a window. -/
structure FitsNow (sn : FragmentationSnapshot) (d : WorkloadDemand) : Prop where
  assessable : Assessable sn
  count : satisfying d (selected sn d) < 2 ^ 64
  free : freeTotal (selected sn d) < 2 ^ 64
  sufficient : Suffices d (selected sn d)
  window : WindowOpen sn.reservations d

/-- There is enough free, too few devices satisfy the requirement, and without their
reclaimable allocations they suffice. -/
structure FitsAfterReclaim (sn : FragmentationSnapshot) (d : WorkloadDemand) : Prop where
  assessable : Assessable sn
  count : satisfying d (selectedAfter sn d) < 2 ^ 64
  free : freeTotal (selectedAfter sn d) < 2 ^ 64
  aggregate : d.aggregateMemory.toNat ≤ freeTotal (selected sn d)
  short : satisfying d (selected sn d) < (neededCount d).toNat
  sufficient : Suffices d (selectedAfter sn d)

/-- There is enough free, too few devices satisfy the requirement, a demanded topology group
has the devices, and none of them holds anything to reclaim. -/
structure ProtectedState (sn : FragmentationSnapshot) (d : WorkloadDemand) : Prop where
  assessable : Assessable sn
  free : freeTotal (selected sn d) < 2 ^ 64
  aggregate : d.aggregateMemory.toNat ≤ freeTotal (selected sn d)
  short : satisfying d (selected sn d) < (neededCount d).toNat
  group : d.topologyGroup.isSome = true → (neededCount d).toNat ≤ (select sn.devices d).length
  held : ∀ s ∈ select sn.devices d, holdsReclaimable s.layout = false

theorem reservationVerdict_eq_none_iff {rs : List Reservation} {d : WorkloadDemand} :
    reservationVerdict rs d = some none ↔ WindowOpen rs d := by
  unfold WindowOpen reservationVerdict
  cases d.reservationDuration with
  | none => simp
  | some duration =>
      simp only [Option.some.injEq, forall_eq']
      by_cases hrs : rs = []
      · simp [hrs]
      · rw [if_neg (by simpa using hrs)]
        simp only [ne_eq, hrs, not_false_eq_true, forall_const]
        cases temporalContinuousFit rs 0 ⟨0xFFFFFFFFFFFFFFFF / 2⟩ duration with
        | error e => simp [Except.toOption]
        | ok window =>
            cases window with
            | some start => simp [Except.toOption]
            | none =>
                by_cases hhard : rs.any (fun res => res.hard) = true
                · simp [Except.toOption, hhard]
                · simp [Except.toOption, hhard]

/-- What the verdict can be when the reservations decide. -/
theorem reservationVerdict_cases {rs : List Reservation} {d : WorkloadDemand}
    {blocked : Option (FitOutcome × FragmentationCategory)}
    (h : reservationVerdict rs d = some blocked) :
    blocked = none ∨ blocked = some (.noFitReservation, .reservation) ∨
      blocked = some (.noFitTemporal, .temporal) := by
  unfold reservationVerdict at h
  split at h
  · exact Or.inl (by simpa using h.symm)
  · split at h
    · exact Or.inl (by simpa using h.symm)
    · obtain ⟨window, -, rfl⟩ := Option.map_eq_some_iff.mp h
      cases window with
      | some start => exact Or.inl rfl
      | none =>
          dsimp only
          split
          · exact Or.inr (Or.inl rfl)
          · exact Or.inr (Or.inr rfl)

/-- The verdicts that are reached from a shortfall of satisfying devices. -/
theorem shortfallVerdict_cases {d : WorkloadDemand} {t : Tallies}
    {v : FitOutcome × FragmentationCategory} (h : shortfallVerdict d t = some v) :
    v.1 = .noFitTopology ∧ (d.topologyGroup.isSome = true ∧ t.devices < (neededCount d).toNat) ∨
      ¬ (d.topologyGroup.isSome = true ∧ t.devices < (neededCount d).toNat) ∧
        t.satisfyingAfter < 2 ^ 64 ∧
        (v.1 = .fitAfterReclaim ∧ (neededCount d).toNat ≤ t.satisfyingAfter ∧
            t.freeAfter < 2 ^ 64 ∧ d.aggregateMemory.toNat ≤ t.freeAfter ∨
          v.1 = .noFitFragmentation ∧ t.reclaimable = true ∨
          v.1 = .noFitProtectedState ∧ t.reclaimable = false) := by
  simp only [shortfallVerdict] at h
  split_ifs at h with htopo hlarge hfits hheld
  all_goals cases h
  · exact Or.inl ⟨rfl, htopo⟩
  · exact Or.inr ⟨htopo, by omega, Or.inl ⟨rfl, hfits.1, by omega, hfits.2⟩⟩
  · exact Or.inr ⟨htopo, by omega, Or.inr (Or.inl ⟨rfl, hheld⟩)⟩
  · exact Or.inr ⟨htopo, by omega, Or.inr (Or.inr ⟨rfl, by simpa using hheld⟩)⟩

/-- The stage of the analysis at which a verdict is reached. -/
theorem verdict_cases {d : WorkloadDemand} {rs : List Reservation} {t : Tallies}
    {v : FitOutcome × FragmentationCategory} (h : verdict d rs t = some v) :
    t.satisfying < 2 ^ 64 ∧ t.free < 2 ^ 64 ∧
      (v.1 = .noFitRawCapacity ∧ t.free < d.aggregateMemory.toNat ∨
        d.aggregateMemory.toNat ≤ t.free ∧
          (t.satisfying < (neededCount d).toNat ∧ shortfallVerdict d t = some v ∨
            (neededCount d).toNat ≤ t.satisfying ∧ ∃ blocked,
              reservationVerdict rs d = some blocked ∧ blocked.getD (.fitNow, .unknown) = v)) := by
  simp only [verdict] at h
  split_ifs at h with hlarge hraw hshort
  · cases h
    exact ⟨by omega, by omega, Or.inl ⟨rfl, hraw⟩⟩
  · exact ⟨by omega, by omega, Or.inr ⟨by omega, Or.inl ⟨hshort, h⟩⟩⟩
  · exact ⟨by omega, by omega,
      Or.inr ⟨by omega, Or.inr ⟨by omega, Option.map_eq_some_iff.mp h⟩⟩⟩

section Tallied

variable {d : WorkloadDemand} {rs : List Reservation} {t : Tallies}

/-- The other outcomes come from a shortfall of satisfying devices. -/
theorem shortfall_of_verdict {o : FitOutcome} {c : FragmentationCategory}
    (h : verdict d rs t = some (o, c)) (hraw : o ≠ .noFitRawCapacity) (hnow : o ≠ .fitNow)
    (hhard : o ≠ .noFitReservation) (htemporal : o ≠ .noFitTemporal) :
    t.free < 2 ^ 64 ∧ d.aggregateMemory.toNat ≤ t.free ∧
      t.satisfying < (neededCount d).toNat ∧ shortfallVerdict d t = some (o, c) := by
  obtain ⟨-, hfree, ⟨hout, -⟩ | ⟨hagg, ⟨hless, hshort⟩ | ⟨-, blocked, hblocked, hgetD⟩⟩⟩ :=
    verdict_cases h
  · exact (hraw hout).elim
  · exact ⟨hfree, hagg, hless, hshort⟩
  · rcases reservationVerdict_cases hblocked with rfl | rfl | rfl
    · exact (hnow (congrArg Prod.fst hgetD).symm).elim
    · exact (hhard (congrArg Prod.fst hgetD).symm).elim
    · exact (htemporal (congrArg Prod.fst hgetD).symm).elim

theorem verdict_eq_fitNow (hcount : t.satisfying < 2 ^ 64) (hfree : t.free < 2 ^ 64)
    (hneeded : (neededCount d).toNat ≤ t.satisfying) (hagg : d.aggregateMemory.toNat ≤ t.free)
    (hwindow : WindowOpen rs d) : verdict d rs t = some (.fitNow, .unknown) := by
  rw [verdict, if_neg (by omega), if_neg (by omega), if_neg (by omega),
    reservationVerdict_eq_none_iff.mpr hwindow]
  rfl

theorem verdict_eq_shortfallVerdict (hfree : t.free < 2 ^ 64)
    (hagg : d.aggregateMemory.toNat ≤ t.free) (hshort : t.satisfying < (neededCount d).toNat) :
    verdict d rs t = shortfallVerdict d t := by
  have hneeded := (neededCount d).toNat_lt
  rw [verdict, if_neg (by omega), if_neg (by omega), if_pos hshort]

theorem shortfallVerdict_eq_fitAfterReclaim (hcount : t.satisfyingAfter < 2 ^ 64)
    (hfree : t.freeAfter < 2 ^ 64) (hdevices : t.satisfyingAfter ≤ t.devices)
    (hneeded : (neededCount d).toNat ≤ t.satisfyingAfter)
    (hagg : d.aggregateMemory.toNat ≤ t.freeAfter) :
    shortfallVerdict d t = some (.fitAfterReclaim, .external) := by
  simp only [shortfallVerdict]
  rw [if_neg (by omega), if_neg (by omega), if_pos ⟨hneeded, hagg⟩]

theorem shortfallVerdict_eq_noFitProtectedState
    (hgroup : d.topologyGroup.isSome = true → (neededCount d).toNat ≤ t.devices)
    (hshort : t.satisfyingAfter < (neededCount d).toNat) (hheld : t.reclaimable = false) :
    shortfallVerdict d t = some (.noFitProtectedState, .ownership) := by
  have hneeded := (neededCount d).toNat_lt
  simp only [shortfallVerdict]
  rw [if_neg (fun hboth => absurd (hgroup hboth.1) (not_le.mpr hboth.2)), if_neg (by omega),
    if_neg (by omega), if_neg (by simp [hheld])]

end Tallied

/-- An outcome that is not about the evidence is the verdict's. -/
theorem analyzeFit_outcome_iff {sn : FragmentationSnapshot} {d : WorkloadDemand} {o : FitOutcome}
    (h : ∀ s ∈ select sn.devices d, s.layout.Valid) (hstale : o ≠ .revalidationRequired)
    (hnone : o ≠ .insufficientEvidence) :
    (∃ r, analyzeFit sn d = .ok r ∧ r.outcome = o) ↔
      Assessable sn ∧
        ∃ c, verdict d sn.reservations (tallies d (select sn.devices d)) = some (o, c) := by
  by_cases hcurrent : Assessable sn
  · have hverdict := analyzeFit_verdict hcurrent.complete hcurrent.known hcurrent.devices h
    simp only [hcurrent, true_and]
    constructor
    · rintro ⟨r, hr, rfl⟩
      rw [hr] at hverdict
      obtain ⟨v, hv, hsum⟩ := Option.map_eq_some_iff.mp hverdict.symm
      have hout : v.1 = r.outcome := congrArg Prod.fst hsum
      refine ⟨v.2, ?_⟩
      rw [hv, ← hout]
    · rintro ⟨c, hc⟩
      rw [hc] at hverdict
      obtain ⟨r, hr, hsum⟩ := Option.map_eq_some_iff.mp hverdict
      exact ⟨r, eq_ok_of_toOption hr, congrArg Prod.fst hsum⟩
  · refine iff_of_false ?_ (fun hboth => hcurrent hboth.1)
    rintro ⟨r, hr, rfl⟩
    by_cases hgate : (!sn.generations.complete) = true ∨ sn.provenance = .unknown
    · rw [analyzeFit, if_pos hgate] at hr
      cases hr
      exact hstale rfl
    · by_cases hempty : sn.devices.isEmpty = true
      · simp only [analyzeFit] at hr
        rw [if_neg hgate, if_pos hempty] at hr
        cases hr
        exact hnone rfl
      · rw [not_or] at hgate
        exact hcurrent ⟨by simpa using hgate.1, hgate.2, by simpa using hempty⟩

/-- A loop whose rounds all return the state they start with. -/
theorem foldlM_eq_ok_of_fixed {ε α β : Type} {f : β → α → Except ε β} {b : β} {xs : List α}
    (h : ∀ x ∈ xs, f b x = .ok b) : xs.foldlM f b = .ok b := by
  induction xs with
  | nil => rfl
  | cons x rest ih =>
      rw [List.foldlM_cons, h x (by simp), ok_bind]
      exact ih (fun y hy => h y (by simp [hy]))

/-- Nothing to reclaim, nothing to change. -/
theorem reclaimed_eq_self {l : ResourceLayout} (h : holdsReclaimable l = false) :
    reclaimed l = l := by
  have hnone : ∀ e ∈ l.allocations.entries, Fit.reclaimable e.2 = false := by
    simpa [holdsReclaimable] using h
  have hloop : reclaimAll l = .ok l := by
    apply foldlM_eq_ok_of_fixed
    intro e he
    exact if_neg (by simp [hnone e he])
  rw [reclaimed, hloop]

section Outcomes

variable {sn : FragmentationSnapshot} {d : WorkloadDemand}
  (h : ∀ s ∈ select sn.devices d, s.layout.Valid)

include h

theorem analyzeFit_eq_fitNow_iff :
    (∃ r, analyzeFit sn d = .ok r ∧ r.outcome = .fitNow) ↔ FitsNow sn d := by
  rw [analyzeFit_outcome_iff h (by decide) (by decide)]
  constructor
  · rintro ⟨hcurrent, c, hv⟩
    obtain ⟨hcount, hfree, ⟨⟨⟩, -⟩ | ⟨hagg, ⟨-, hshort⟩ | ⟨hneeded, blocked, hblocked, hgetD⟩⟩⟩ :=
      verdict_cases hv
    · rcases shortfallVerdict_cases hshort with ⟨⟨⟩, -⟩ | ⟨-, -, ⟨⟨⟩, -⟩ | ⟨⟨⟩, -⟩ | ⟨⟨⟩, -⟩⟩
    · refine ⟨hcurrent, hcount, hfree, ⟨hneeded, hagg⟩, reservationVerdict_eq_none_iff.mp ?_⟩
      rcases reservationVerdict_cases hblocked with rfl | rfl | rfl
      · exact hblocked
      · cases hgetD
      · cases hgetD
  · intro hfits
    exact ⟨hfits.assessable, _, verdict_eq_fitNow hfits.count hfits.free hfits.sufficient.1
      hfits.sufficient.2 hfits.window⟩

theorem analyzeFit_eq_fitAfterReclaim_iff :
    (∃ r, analyzeFit sn d = .ok r ∧ r.outcome = .fitAfterReclaim) ↔ FitsAfterReclaim sn d := by
  rw [analyzeFit_outcome_iff h (by decide) (by decide)]
  constructor
  · rintro ⟨hcurrent, c, hv⟩
    obtain ⟨-, hagg, hless, hshort⟩ :=
      shortfall_of_verdict hv (by decide) (by decide) (by decide) (by decide)
    rcases shortfallVerdict_cases hshort with
      ⟨⟨⟩, -⟩ | ⟨-, hafter, ⟨-, hneeded, hfree', hagg'⟩ | ⟨⟨⟩, -⟩ | ⟨⟨⟩, -⟩⟩
    exact ⟨hcurrent, hafter, hfree', hagg, hless, hneeded, hagg'⟩
  · intro hfits
    have hlen := satisfying_le_length d (selectedAfter sn d)
    rw [selectedAfter, List.length_map] at hlen
    refine ⟨hfits.assessable, .external, ?_⟩
    rw [verdict_eq_shortfallVerdict (lt_of_le_of_lt (freeTotal_le_reclaimed h) hfits.free)
      hfits.aggregate hfits.short]
    exact shortfallVerdict_eq_fitAfterReclaim hfits.count hfits.free hlen hfits.sufficient.1
      hfits.sufficient.2

theorem analyzeFit_eq_noFitProtectedState_iff :
    (∃ r, analyzeFit sn d = .ok r ∧ r.outcome = .noFitProtectedState) ↔ ProtectedState sn d := by
  have hheld : (tallies d (select sn.devices d)).reclaimable = false ↔
      ∀ s ∈ select sn.devices d, holdsReclaimable s.layout = false := by
    simp [tallies]
  rw [analyzeFit_outcome_iff h (by decide) (by decide)]
  constructor
  · rintro ⟨hcurrent, c, hv⟩
    obtain ⟨hfree, hagg, hless, hshort⟩ :=
      shortfall_of_verdict hv (by decide) (by decide) (by decide) (by decide)
    rcases shortfallVerdict_cases hshort with
      ⟨⟨⟩, -⟩ | ⟨htopo, -, ⟨⟨⟩, -⟩ | ⟨⟨⟩, -⟩ | ⟨-, hnone⟩⟩
    exact ⟨hcurrent, hfree, hagg, hless,
      fun hsome => not_lt.mp (fun hlt => htopo ⟨hsome, hlt⟩), hheld.mp hnone⟩
  · intro hstate
    -- reclaiming changes none of the counts
    have hsame : (select sn.devices d).map (fun s => reclaimed s.layout) =
        (select sn.devices d).map (fun s => s.layout) :=
      List.map_congr_left (fun s hs => reclaimed_eq_self (hstate.held s hs))
    have hless : (tallies d (select sn.devices d)).satisfyingAfter < (neededCount d).toNat := by
      simp only [tallies, hsame]
      exact hstate.short
    refine ⟨hstate.assessable, .ownership, ?_⟩
    rw [verdict_eq_shortfallVerdict hstate.free hstate.aggregate hstate.short]
    exact shortfallVerdict_eq_noFitProtectedState hstate.group hless (hheld.mpr hstate.held)

end Outcomes

/-! ## Devices that can be counted -/

theorem windowOpen_of_no_duration {rs : List Reservation} {d : WorkloadDemand}
    (h : d.reservationDuration = none) : WindowOpen rs d := by
  intro duration hdur
  rw [h] at hdur
  cases hdur

theorem windowOpen_nil (d : WorkloadDemand) : WindowOpen [] d :=
  fun _ _ hne => absurd rfl hne

namespace Representable

variable {sn : FragmentationSnapshot} {d : WorkloadDemand} {ds : List DeviceState}

theorem count_lt (h : Representable d ds) :
    satisfying d (ds.map (fun s => s.layout)) < 2 ^ 64 :=
  satisfying_lt h.freeTotal_lt (by simpa using h.length)

theorem countAfter_lt (h : Representable d ds) :
    satisfying d (ds.map (fun s => reclaimed s.layout)) < 2 ^ 64 :=
  satisfying_lt h.free (by simpa using h.length)

/-- A shortfall has a verdict. -/
theorem exists_shortfallVerdict (h : Representable d ds) :
    ∃ v, shortfallVerdict d (tallies d ds) = some v := by
  have hsmall : ¬ (2 ^ 64 ≤ (tallies d ds).satisfyingAfter ∨
      (neededCount d).toNat ≤ (tallies d ds).satisfyingAfter ∧
        2 ^ 64 ≤ (tallies d ds).freeAfter) := by
    have hcount : (tallies d ds).satisfyingAfter < 2 ^ 64 := h.countAfter_lt
    have hfree : (tallies d ds).freeAfter < 2 ^ 64 := h.free
    omega
  rw [← Option.isSome_iff_exists, shortfallVerdict, if_neg hsmall]
  split_ifs
  all_goals rfl

theorem exists_verdict {rs : List Reservation} (h : Representable d ds) (hwindow : WindowOpen rs d) :
    ∃ v, verdict d rs (tallies d ds) = some v := by
  have hsmall : ¬ (2 ^ 64 ≤ (tallies d ds).satisfying ∨ 2 ^ 64 ≤ (tallies d ds).free) := by
    have hcount : (tallies d ds).satisfying < 2 ^ 64 := h.count_lt
    have hfree : (tallies d ds).free < 2 ^ 64 := h.freeTotal_lt
    omega
  rw [← Option.isSome_iff_exists, verdict, if_neg hsmall,
    reservationVerdict_eq_none_iff.mpr hwindow]
  split_ifs
  · rfl
  · exact Option.isSome_iff_exists.mpr h.exists_shortfallVerdict
  · rfl

/-- The analysis returns, whatever the evidence. -/
theorem exists_analyzeFit (h : Representable d (Fit.select sn.devices d))
    (hwindow : WindowOpen sn.reservations d) : ∃ r, analyzeFit sn d = .ok r := by
  by_cases hstale : (!sn.generations.complete) = true ∨ sn.provenance = .unknown
  · rw [analyzeFit, if_pos hstale]
    exact ⟨_, rfl⟩
  · by_cases hempty : sn.devices.isEmpty = true
    · simp only [analyzeFit]
      rw [if_neg hstale, if_pos hempty]
      exact ⟨_, rfl⟩
    · rw [not_or] at hstale
      have hverdict := analyzeFit_verdict (by simpa using hstale.1) hstale.2
        (by simpa using hempty) h.valid
      obtain ⟨v, hv⟩ := h.exists_verdict hwindow
      rw [hv] at hverdict
      obtain ⟨r, hr, -⟩ := Option.map_eq_some_iff.mp hverdict
      exact ⟨r, eq_ok_of_toOption hr⟩

/-- It answers FIT_NOW exactly when the selected devices suffice. -/
theorem analyzeFit_fitNow_iff (h : Representable d (Fit.select sn.devices d))
    (hcurrent : Assessable sn) (hwindow : WindowOpen sn.reservations d) :
    ∃ r, analyzeFit sn d = .ok r ∧ (r.outcome = .fitNow ↔ Suffices d (selected sn d)) := by
  obtain ⟨r, hr⟩ := h.exists_analyzeFit hwindow
  have hiff := @analyzeFit_eq_fitNow_iff sn d h.valid
  simp only [hr, Except.ok.injEq, exists_eq_left'] at hiff
  refine ⟨r, hr, hiff.trans ⟨fun hfits => hfits.sufficient, fun hs => ?_⟩⟩
  exact ⟨hcurrent, h.count_lt, h.freeTotal_lt, hs, hwindow⟩

/-- It answers FIT_AFTER_RECLAIM exactly when the free capacity is enough already, the devices
do not suffice, and reclaiming would help. -/
theorem analyzeFit_fitAfterReclaim_iff (h : Representable d (Fit.select sn.devices d))
    (hcurrent : Assessable sn) (hwindow : WindowOpen sn.reservations d) :
    ∃ r, analyzeFit sn d = .ok r ∧
      (r.outcome = .fitAfterReclaim ↔ d.aggregateMemory.toNat ≤ freeTotal (selected sn d) ∧
        ¬ Suffices d (selected sn d) ∧ Suffices d (selectedAfter sn d)) := by
  obtain ⟨r, hr⟩ := h.exists_analyzeFit hwindow
  have hiff := @analyzeFit_eq_fitAfterReclaim_iff sn d h.valid
  simp only [hr, Except.ok.injEq, exists_eq_left'] at hiff
  refine ⟨r, hr, hiff.trans ⟨fun hfits => ?_, fun ⟨hagg, hshort, hs⟩ => ?_⟩⟩
  · exact ⟨hfits.aggregate, fun hnow => absurd hnow.1 (not_le.mpr hfits.short), hfits.sufficient⟩
  · exact ⟨hcurrent, h.countAfter_lt, h.free, hagg,
      not_le.mp (fun hneeded => hshort ⟨hneeded, hagg⟩), hs⟩

end Representable

/-! ## Order and excluded devices -/

/-- A result without the texts that explain it. -/
def FitResult.undiagnosed (r : FitResult) : FitResult := { r with blockDiagnostics := [] }

theorem shortfallFit_undiagnosed (r : FitResult) (texts : List String) (ds : List DeviceState)
    (d : WorkloadDemand) :
    (shortfallFit { r with blockDiagnostics := texts } ds d).map FitResult.undiagnosed =
      (shortfallFit r ds d).map FitResult.undiagnosed := by
  simp only [shortfallFit]
  by_cases htopo : d.topologyGroup.isSome ∧ ds.length < (neededCount d).toNat
  · rw [if_pos htopo, if_pos htopo]
    rfl
  · rw [if_neg htopo, if_neg htopo]
    cases countSatisfyingAfterReclaim ds d with
    | error e => rfl
    | ok n =>
        simp only [ok_bind]
        by_cases hn : n ≥ neededCount d
        · rw [if_pos hn, if_pos hn]
          cases aggregateAfterReclaim ds with
          | error e => rfl
          | ok total =>
              simp only [ok_bind]
              split_ifs <;> rfl
        · rw [if_neg hn, if_neg hn]
          split_ifs <;> rfl

theorem fitNow_undiagnosed (r : FitResult) (texts : List String) (ds : List DeviceState)
    (d : WorkloadDemand) :
    (fitNow { r with blockDiagnostics := texts } ds d).map FitResult.undiagnosed =
      (fitNow r ds d).map FitResult.undiagnosed := by
  simp only [fitNow]
  split_ifs
  · cases ds.find? (fun s => deviceSatisfies s.layout d) with
    | none => rfl
    | some s =>
        dsimp only
        cases computeMetrics s.layout (some d) <;> rfl
  · rfl

theorem reservationFit_undiagnosed (r : FitResult) (texts : List String) (rs : List Reservation)
    (t : Duration) {next next' : Except ValueError FitResult}
    (h : next.map FitResult.undiagnosed = next'.map FitResult.undiagnosed) :
    (reservationFit { r with blockDiagnostics := texts } rs t >>= fun blocked =>
        match blocked with
        | some r => .ok r
        | none => next).map FitResult.undiagnosed =
      (reservationFit r rs t >>= fun blocked =>
        match blocked with
        | some r => .ok r
        | none => next').map FitResult.undiagnosed := by
  simp only [reservationFit, reservationGate]
  cases temporalContinuousFit rs 0 ⟨0xFFFFFFFFFFFFFFFF / 2⟩ t with
  | error e => rfl
  | ok window =>
      cases window with
      | some start => exact h
      | none =>
          simp only [ok_bind]
          split_ifs <;> rfl

/-- The analysis from the counts of the selected devices on. -/
def analyzeSelected (r : FitResult) (rs : List Reservation) (ds : List DeviceState)
    (d : WorkloadDemand) : Except ValueError FitResult := do
  let (now, aggregateFree) ← countNow d ds
  let r := { r with matchingDevices := now }
  if aggregateFree < d.aggregateMemory then
    .ok { r with
      outcome := .noFitRawCapacity
      category := .spatial
      blockDiagnostics := r.blockDiagnostics ++ ["aggregate free capacity below demand"] }
  else if now < neededCount d then shortfallFit r ds d
  else do
    let blocked ← match d.reservationDuration with
      | some duration => if rs.isEmpty then .ok none else reservationFit r rs duration
      | none => .ok none
    match blocked with
    | some r => .ok r
    | none => fitNow r ds d

theorem analyzeFit_eq_analyzeSelected {sn : FragmentationSnapshot} (h : Assessable sn)
    (d : WorkloadDemand) :
    ∃ texts, analyzeFit sn d = analyzeSelected
      { requiredDevices := d.acceleratorCount, evidence := evidenceOf sn.provenance,
        blockDiagnostics := texts } sn.reservations (select sn.devices d) d := by
  have hstale : ¬ ((!sn.generations.complete) = true ∨ sn.provenance = .unknown) := by
    simp [h.complete, h.known]
  have hempty : ¬ sn.devices.isEmpty = true := by simpa using h.devices
  simp only [analyzeFit]
  rw [if_neg hstale, if_neg hempty]
  by_cases hless : (select sn.devices d).length < sn.devices.length
  · rw [if_pos hless]
    exact ⟨_, rfl⟩
  · rw [if_neg hless]
    exact ⟨_, rfl⟩

/-- The stage that gives the positive answer. -/
theorem FitsNow.analyzeFit_eq {sn : FragmentationSnapshot} {d : WorkloadDemand}
    (h : FitsNow sn d) : ∃ r, analyzeFit sn d = fitNow r (select sn.devices d) d := by
  obtain ⟨texts, htexts⟩ := analyzeFit_eq_analyzeSelected h.assessable d
  have hneeded := (le_ofNat_iff h.count (neededCount d)).mpr h.sufficient.1
  have hagg := (le_ofNat_iff h.free d.aggregateMemory).mpr h.sufficient.2
  rw [selected] at hneeded hagg
  rw [htexts, analyzeSelected, countNow_eq_ok h.count h.free, ok_bind]
  dsimp only
  rw [if_neg (not_lt.mpr hagg), if_neg (not_lt.mpr hneeded)]
  cases hdur : d.reservationDuration with
  | none => exact ⟨_, rfl⟩
  | some duration =>
      dsimp only
      by_cases hrs : sn.reservations.isEmpty = true
      · rw [if_pos hrs]
        exact ⟨_, rfl⟩
      · obtain ⟨start, hstart⟩ := h.window duration hdur (by simpa using hrs)
        rw [if_neg hrs, reservationFit, reservationGate, hstart]
        exact ⟨_, rfl⟩

theorem analyzeSelected_undiagnosed (r : FitResult) (texts : List String) (rs : List Reservation)
    (ds : List DeviceState) (d : WorkloadDemand) :
    (analyzeSelected { r with blockDiagnostics := texts } rs ds d).map FitResult.undiagnosed =
      (analyzeSelected r rs ds d).map FitResult.undiagnosed := by
  simp only [analyzeSelected]
  cases countNow d ds with
  | error e => rfl
  | ok counts =>
      simp only [ok_bind]
      by_cases hraw : counts.2 < d.aggregateMemory
      · rw [if_pos hraw, if_pos hraw]
        rfl
      · rw [if_neg hraw, if_neg hraw]
        by_cases hshort : counts.1 < neededCount d
        · rw [if_pos hshort, if_pos hshort]
          exact shortfallFit_undiagnosed { r with matchingDevices := counts.1 } texts ds d
        · rw [if_neg hshort, if_neg hshort]
          have hnow := fitNow_undiagnosed { r with matchingDevices := counts.1 } texts ds d
          cases d.reservationDuration with
          | none => exact hnow
          | some duration =>
              dsimp only
              by_cases hrs : rs.isEmpty = true
              · rw [if_pos hrs, if_pos hrs]
                exact hnow
              · rw [if_neg hrs, if_neg hrs]
                exact reservationFit_undiagnosed { r with matchingDevices := counts.1 } texts rs
                  duration hnow

/-- What the analysis says, its diagnostics apart, is decided by the evidence, the
reservations and the selected devices. -/
theorem analyzeFit_undiagnosed {sn sn' : FragmentationSnapshot} {d : WorkloadDemand}
    (h : Assessable sn) (h' : Assessable sn') (hprov : sn.provenance = sn'.provenance)
    (hres : sn.reservations = sn'.reservations)
    (hselect : select sn.devices d = select sn'.devices d) :
    (analyzeFit sn d).map FitResult.undiagnosed = (analyzeFit sn' d).map FitResult.undiagnosed := by
  obtain ⟨texts, htexts⟩ := analyzeFit_eq_analyzeSelected h d
  obtain ⟨texts', htexts'⟩ := analyzeFit_eq_analyzeSelected h' d
  have hsame := fun texts => analyzeSelected_undiagnosed
    { requiredDevices := d.acceleratorCount, evidence := evidenceOf sn'.provenance } texts
    sn'.reservations (select sn'.devices d) d
  rw [htexts, htexts', hprov, hres, hselect]
  exact (hsame texts).trans (hsame texts').symm

/-- Results that differ in their texts agree on everything else. -/
theorem toOption_map_eq_of_undiagnosed {α : Type} {x y : Except ValueError FitResult}
    {f : FitResult → α} (h : x.map FitResult.undiagnosed = y.map FitResult.undiagnosed)
    (hf : ∀ r : FitResult, f r.undiagnosed = f r) : x.toOption.map f = y.toOption.map f := by
  have hmap : ∀ x : Except ValueError FitResult,
      x.toOption.map f = (x.map FitResult.undiagnosed).toOption.map f := by
    intro x
    cases x with
    | error e => rfl
    | ok r => exact congrArg some (hf r).symm
  rw [hmap x, h, ← hmap y]

/-- Fit answers depend on neither the order of the devices nor on those outside the demanded
topology group: the same evidence and reservations give the same outcome, category and number
of matching devices for a permutation of the devices, and the same metrics too when the group
has the same devices. -/
theorem analyzeFit_devices_irrelevant (sn sn' : FragmentationSnapshot) (d : WorkloadDemand)
    (hgen : sn.generations = sn'.generations) (hprov : sn.provenance = sn'.provenance)
    (hres : sn.reservations = sn'.reservations) (hne : sn.devices ≠ []) (hne' : sn'.devices ≠ []) :
    ((∀ s ∈ sn.devices, s.layout.Reachable) → sn.devices.Perm sn'.devices →
        (analyzeFit sn d).toOption.map (fun r => (r.outcome, r.category, r.matchingDevices)) =
          (analyzeFit sn' d).toOption.map
            (fun r => (r.outcome, r.category, r.matchingDevices))) ∧
      ∀ g, d.topologyGroup = some g →
        sn.devices.filter (fun s => s.resource.topologyGroup = some g) =
            sn'.devices.filter (fun s => s.resource.topologyGroup = some g) →
          (analyzeFit sn d).toOption.map
              (fun r => (r.outcome, r.category, r.matchingDevices, r.aggregateMetrics)) =
            (analyzeFit sn' d).toOption.map
              (fun r => (r.outcome, r.category, r.matchingDevices, r.aggregateMetrics)) := by
  by_cases hcurrent : sn.generations.complete = true ∧ sn.provenance ≠ .unknown
  · have hassess : Assessable sn := ⟨hcurrent.1, hcurrent.2, hne⟩
    have hassess' : Assessable sn' := ⟨hgen ▸ hcurrent.1, hprov ▸ hcurrent.2, hne'⟩
    constructor
    · intro hreach hperm
      have hvalid : ∀ s ∈ select sn.devices d, s.layout.Valid :=
        fun s hs => (hreach s ((select_sublist _ d).subset hs)).valid
      have hvalid' : ∀ s ∈ select sn'.devices d, s.layout.Valid :=
        fun s hs => hvalid s ((select_perm hperm).mem_iff.mpr hs)
      have hverdict := analyzeFit_verdict hassess.complete hassess.known hne hvalid
      have hverdict' := analyzeFit_verdict hassess'.complete hassess'.known hne' hvalid'
      rw [tallies_perm (select_perm hperm), hres, ← hverdict'] at hverdict
      exact hverdict
    · intro g hg hgroup
      have hselect : select sn.devices d = select sn'.devices d := by
        rw [Fit.select, Fit.select, hg]
        exact hgroup
      exact toOption_map_eq_of_undiagnosed
        (analyzeFit_undiagnosed hassess hassess' hprov hres hselect) (fun _ => rfl)
  · -- neither snapshot gets past the evidence gate
    have hstale : (!sn'.generations.complete) = true ∨ sn'.provenance = .unknown := by
      rw [hgen, hprov, not_and_or, not_not] at hcurrent
      simpa using hcurrent
    have hsame : analyzeFit sn d = analyzeFit sn' d := by
      rw [analyzeFit, analyzeFit, hgen, hprov, if_pos hstale, if_pos hstale]
    rw [hsame]
    exact ⟨fun _ _ => rfl, fun _ _ _ => rfl⟩

/-- Two free devices of different topology groups, with current evidence. -/
def groupedSnapshot : FragmentationSnapshot where
  generations := ⟨⟨1⟩, ⟨1⟩, ⟨1⟩, ⟨1⟩, ⟨1⟩, ⟨1⟩, ⟨1⟩, ⟨1⟩, ⟨1⟩⟩
  provenance := .measured
  devices :=
    [⟨{ id := ⟨1⟩, topologyGroup := some 0, capacity := ⟨100⟩ }, .ofCapacity ⟨100⟩⟩,
      ⟨{ id := ⟨2⟩, topologyGroup := some 1, capacity := ⟨50⟩ }, .ofCapacity ⟨50⟩⟩]

theorem reachable_groupedSnapshot : ∀ s ∈ groupedSnapshot.devices, s.layout.Reachable := by
  intro s hs
  simp only [groupedSnapshot, List.mem_cons, List.not_mem_nil, or_false] at hs
  rcases hs with rfl | rfl
  · exact .ofCapacity ⟨100⟩
  · exact .ofCapacity ⟨50⟩

/-- A block of 60 bytes on a device of the first group. -/
def groupDemand : WorkloadDemand :=
  { perDeviceMemory := ⟨60⟩, aggregateMemory := ⟨60⟩, topologyGroup := some 0 }

theorem analyzeFit_devices_irrelevant_groupedSnapshot :
    (analyzeFit groupedSnapshot groupDemand).toOption.map (fun r => r.outcome) = some .fitNow ∧
      (analyzeFit groupedSnapshot groupDemand).toOption.map
          (fun r => (r.outcome, r.category, r.matchingDevices)) =
        (analyzeFit { groupedSnapshot with devices := groupedSnapshot.devices.reverse }
          groupDemand).toOption.map (fun r => (r.outcome, r.category, r.matchingDevices)) ∧
      (analyzeFit groupedSnapshot groupDemand).toOption.map
          (fun r => (r.outcome, r.category, r.matchingDevices, r.aggregateMetrics)) =
        (analyzeFit { groupedSnapshot with devices := groupedSnapshot.devices.take 1 }
          groupDemand).toOption.map
            (fun r => (r.outcome, r.category, r.matchingDevices, r.aggregateMetrics)) := by
  refine ⟨by decide, ?_, ?_⟩
  · exact (analyzeFit_devices_irrelevant groupedSnapshot
      { groupedSnapshot with devices := groupedSnapshot.devices.reverse } groupDemand rfl rfl rfl
      (by simp [groupedSnapshot]) (by simp [groupedSnapshot])).1 reachable_groupedSnapshot
      (List.reverse_perm _).symm
  · exact (analyzeFit_devices_irrelevant groupedSnapshot
      { groupedSnapshot with devices := groupedSnapshot.devices.take 1 } groupDemand rfl rfl rfl
      (by simp [groupedSnapshot]) (by simp [groupedSnapshot])).2 0 rfl (by decide)

end FragmentationGovernor
