import FragmentationGovernor.Verification.Coordinator.Effect
import FragmentationGovernor.Verification.Persistence.Reload

/-! # Recovered coordinators

When a coordinator recovers from a loaded state, which plans it then holds, and what the
next save writes. -/

namespace FragmentationGovernor

namespace Coordinator

/-! ## One plan -/

/-- The scores of the plan lie in the range of a score. -/
structure UnitScores (p : PersistedPlan) : Prop where
  benefit : p.benefit.inUnit = true
  cost : p.cost.inUnit = true
  risk : p.risk.inUnit = true
  disruption : p.disruption.inUnit = true

theorem restorePlan_returns_iff {pp : PersistedPlan} :
    (∃ p, restorePlan pp = .ok p) ↔ UnitScores pp := by
  simp only [restorePlan, bind_eq_ok, Except.ok.injEq]
  constructor
  · rintro ⟨p, benefit, hb, cost, hc, risk, hr, disruption, hd, -⟩
    exact ⟨HealthyScore.exists_ofDouble_iff.mp ⟨_, hb⟩,
      HealthyScore.exists_ofDouble_iff.mp ⟨_, hc⟩, HealthyScore.exists_ofDouble_iff.mp ⟨_, hr⟩,
      HealthyScore.exists_ofDouble_iff.mp ⟨_, hd⟩⟩
  · intro h
    obtain ⟨benefit, hb⟩ := HealthyScore.exists_ofDouble_iff.mpr h.benefit
    obtain ⟨cost, hc⟩ := HealthyScore.exists_ofDouble_iff.mpr h.cost
    obtain ⟨risk, hr⟩ := HealthyScore.exists_ofDouble_iff.mpr h.risk
    obtain ⟨disruption, hd⟩ := HealthyScore.exists_ofDouble_iff.mpr h.disruption
    exact ⟨_, benefit, hb, cost, hc, risk, hr, disruption, hd, rfl⟩

theorem inFlight_iff {s : PlanState} : inFlight s = true ↔ s ∈ Codec.inFlightStates := by
  cases s <;> decide

/-- The plan with its actions counted afresh. -/
def recount (p : PersistedPlan) : PersistedPlan :=
  { p with actionCount := Quantity.ofNat p.actionKinds.length }

/-- Saving a restored plan writes what was read, with the plans in flight degraded and the
actions counted afresh. -/
theorem persistPlan_restorePlan {pp : PersistedPlan} {p : RemediationPlan}
    (h : restorePlan pp = .ok p) :
    persistPlan p = recount (Codec.degradePlan pp) := by
  simp only [restorePlan, bind_eq_ok, Except.ok.injEq, HealthyScore.ofDouble_eq_ok_iff] at h
  obtain ⟨benefit, hb, cost, hc, risk, hr, disruption, hd, rfl⟩ := h
  have hkinds : (pp.actionKinds.map (fun k => ({ kind := k } : PlanAction))).map
      (fun act => act.kind) = pp.actionKinds := by
    rw [List.map_map]
    exact List.map_id _
  rw [Codec.degradePlan_eq, persistPlan]
  simp only [hkinds, List.length_map, hb, hc, hr, hd, inFlight_iff]
  by_cases hf : pp.state ∈ Codec.inFlightStates
  · rw [if_pos hf, if_pos hf]
    rfl
  · rw [if_neg hf, if_neg hf]
    rfl

/-! ## All plans -/

theorem restorePlans_returns_iff {pps : List PersistedPlan} {c : Coordinator} :
    (restorePlans pps c).2 = .ok () ↔ ∀ pp ∈ pps, UnitScores pp := by
  induction pps generalizing c with
  | nil => exact iff_of_true rfl (by simp)
  | cons pp rest ih =>
      simp only [restorePlans, List.forall_mem_cons, ← restorePlan_returns_iff]
      cases hpp : restorePlan pp with
      | error e => simp
      | ok p =>
          dsimp only
          rw [ih]
          simp [restorePlan_returns_iff]

/-- Plans of distinct new ids are stored one by one. -/
theorem restorePlans_perm {pps : List PersistedPlan} {c : Coordinator}
    (hret : (restorePlans pps c).2 = .ok ()) (hnew : ∀ pp ∈ pps, c.plans.find? pp.id = none)
    (hnodup : (pps.map (fun pp => pp.id)).Nodup) :
    ∃ ps, List.Forall₂ (fun pp p => restorePlan pp = .ok p) pps ps ∧
      (restorePlans pps c).1.plans.entries.Perm
        (c.plans.entries ++ ps.map (fun p => (p.id, p))) := by
  induction pps generalizing c with
  | nil => exact ⟨[], .nil, by simp [restorePlans]⟩
  | cons pp rest ih =>
      simp only [restorePlans] at hret ⊢
      rw [List.map_cons, List.nodup_cons] at hnodup
      cases hpp : restorePlan pp with
      | error e =>
          rw [hpp] at hret
          cases hret
      | ok p =>
          rw [hpp] at hret
          have hid := restorePlan_id hpp
          have hfresh : c.plans.find? p.id = none := by
            rw [hid]
            exact hnew pp (by simp)
          have hrest : ∀ x ∈ rest, (c.plans.insert p.id p).find? x.id = none := by
            intro x hx
            have hne : x.id ≠ p.id := by
              rw [hid]
              intro heq
              exact hnodup.1 (List.mem_map.mpr ⟨x, hx, heq⟩)
            rw [OrdMap.find?_insert_of_ne _ _ hne]
            exact hnew x (by simp [hx])
          obtain ⟨ps, hall, hperm⟩ := ih hret hrest hnodup.2
          refine ⟨p :: ps, .cons hpp hall, hperm.trans ?_⟩
          have hins := (OrdMap.entries_insert_perm p hfresh).append_right
            (ps.map (fun p => (p.id, p)))
          exact hins.trans List.perm_middle.symm

theorem recover_eq_of_returns {c : Coordinator} {st : PersistedState}
    (h : (c.recover st).2 = .ok ()) :
    (restorePlans st.plans (c.restoreGenerations st)).2 = .ok () ∧
      (c.recover st).1 = { c.restoreGenerations st with
        plans := (restorePlans st.plans (c.restoreGenerations st)).1.plans
        resources := ∅, workerAlive := ∅, workerBoot := ∅ } := by
  obtain ⟨plans, -, heq⟩ := restorePlans_cases st.plans (c.restoreGenerations st)
  unfold recover at h ⊢
  cases hres : restorePlans st.plans (c.restoreGenerations st) with
  | mk c' r =>
      rw [hres] at heq h
      cases heq
      cases r with
      | error e => cases h
      | ok u => exact ⟨rfl, rfl⟩

theorem recover_returns_of_unit {c : Coordinator} {st : PersistedState} :
    (c.recover st).2 = .ok () ↔ ∀ pp ∈ st.plans, UnitScores pp := by
  rw [← restorePlans_returns_iff (c := c.restoreGenerations st)]
  unfold recover
  cases hres : restorePlans st.plans (c.restoreGenerations st) with
  | mk c' r =>
      cases r with
      | error e => rfl
      | ok u => rfl

theorem map_eq_map_of_forall₂ {α β γ : Type} {f : α → γ} {g : β → γ} {as : List α} {bs : List β}
    (h : List.Forall₂ (fun a b => f a = g b) as bs) : as.map f = bs.map g := by
  rw [← List.forall₂_eq_eq_eq, List.forall₂_map_left_iff, List.forall₂_map_right_iff]
  exact h

/-- A fresh coordinator that recovers from plans of distinct ids holds just these. -/
theorem recover_perm {epoch : CoordinatorEpoch} {st : PersistedState}
    (hret : ((new epoch).recover st).2 = .ok ())
    (hnodup : (st.plans.map (fun pp => pp.id)).Nodup) :
    ∃ ps, List.Forall₂ (fun pp p => restorePlan pp = .ok p) st.plans ps ∧
      ((new epoch).recover st).1.plans.entries.Perm (ps.map (fun p => (p.id, p))) := by
  obtain ⟨hplans, heq⟩ := recover_eq_of_returns hret
  obtain ⟨ps, hall, hperm⟩ := restorePlans_perm hplans (fun _ _ => rfl) hnodup
  refine ⟨ps, hall, ?_⟩
  rw [heq]
  exact hperm

theorem find?_recover_iff {epoch : CoordinatorEpoch} {st : PersistedState}
    (hret : ((new epoch).recover st).2 = .ok ())
    (hnodup : (st.plans.map (fun pp => pp.id)).Nodup) {k : FragmentationPlanId}
    {p : RemediationPlan} :
    ((new epoch).recover st).1.plans.find? k = some p ↔
      ∃ pp ∈ st.plans, pp.id = k ∧ restorePlan pp = .ok p := by
  obtain ⟨ps, hall, hperm⟩ := recover_perm hret hnodup
  have hmap : st.plans.map restorePlan = ps.map .ok := map_eq_map_of_forall₂ hall
  rw [OrdMap.find?_eq_some_iff, hperm.mem_iff]
  constructor
  · intro hmem
    obtain ⟨q, hq, heq⟩ := List.mem_map.mp hmem
    cases heq
    have hok : Except.ok p ∈ st.plans.map restorePlan := hmap ▸ List.mem_map_of_mem hq
    obtain ⟨pp, hpp, hrestore⟩ := List.mem_map.mp hok
    exact ⟨pp, hpp, (restorePlan_id hrestore).symm, hrestore⟩
  · rintro ⟨pp, hpp, rfl, hrestore⟩
    have hok : restorePlan pp ∈ ps.map .ok := hmap ▸ List.mem_map_of_mem hpp
    rw [hrestore] at hok
    obtain ⟨q, hq, heq⟩ := List.mem_map.mp hok
    cases heq
    rw [← restorePlan_id hrestore]
    exact List.mem_map_of_mem (f := fun p => (p.id, p)) hq

/-! ## Recovery from an accepted file -/

/-- The coordinator holds exactly one plan for each of the persisted ones. -/
structure HoldsEach (c : Coordinator) (pps : List PersistedPlan) : Prop where
  size : c.plans.size = pps.length
  stored : ∀ pp ∈ pps, ∃ p, c.plans.find? pp.id = some p ∧ restorePlan pp = .ok p

theorem holdsEach_recover {epoch : CoordinatorEpoch} {st : PersistedState}
    (hret : ((new epoch).recover st).2 = .ok ())
    (hnodup : (st.plans.map (fun pp => pp.id)).Nodup) :
    HoldsEach ((new epoch).recover st).1 st.plans := by
  obtain ⟨ps, hall, hperm⟩ := recover_perm hret hnodup
  refine ⟨?_, ?_⟩
  · rw [OrdMap.size, hperm.length_eq, List.length_map, hall.length_eq]
  · intro pp hpp
    obtain ⟨p, hp⟩ := restorePlan_returns_iff.mpr (recover_returns_of_unit.mp hret pp hpp)
    exact ⟨p, (find?_recover_iff hret hnodup).mpr ⟨pp, hpp, rfl, hp⟩, hp⟩

/-- A fresh coordinator recovers from an accepted file, and then holds exactly one plan for
each of the file's, exactly when the scores in the file are those of a score. -/
theorem recover_returns_iff {bytes : List UInt8} {s : PersistedState}
    (h : Codec.decodeState bytes = .ok s) (epoch : CoordinatorEpoch) :
    (((new epoch).recover s).2 = .ok () ∧ HoldsEach ((new epoch).recover s).1 s.plans) ↔
      ∀ p ∈ s.plans, UnitScores p := by
  rw [← recover_returns_of_unit (c := new epoch)]
  constructor
  · exact fun hret => hret.1
  · intro hret
    exact ⟨hret, holdsEach_recover hret (Codec.wellread_of_decodeState h).1.readable.distinct⟩

/-- The scores of given plans are tested one by one. -/
theorem unitScores_of_all {ps : List PersistedPlan}
    (h : ps.all (fun p => p.benefit.inUnit && p.cost.inUnit && p.risk.inUnit &&
      p.disruption.inUnit) = true) :
    ∀ p ∈ ps, UnitScores p := by
  intro p hp
  have hscores := List.all_eq_true.mp h p hp
  simp only [Bool.and_eq_true] at hscores
  exact ⟨hscores.1.1.1, hscores.1.1.2, hscores.1.2, hscores.2⟩

theorem unitScores_sampleState : ∀ p ∈ (Codec.recovered Codec.sampleState).plans, UnitScores p :=
  unitScores_of_all (by decide +kernel)

theorem unitScores_verifiedState :
    ∀ p ∈ (Codec.recovered Codec.verifiedState).plans, UnitScores p :=
  unitScores_of_all (by decide +kernel)

/-- Scores of `0.5`, `0.25`, `0.125` and `1.0` are those of a score; both plans are there. -/
theorem recover_returns_iff_verifiedBytes :
    ((new ⟨2⟩).recover (Codec.recovered Codec.verifiedState)).2 = .ok () ∧
      HoldsEach ((new ⟨2⟩).recover (Codec.recovered Codec.verifiedState)).1
        (Codec.recovered Codec.verifiedState).plans ∧
      (Codec.recovered Codec.verifiedState).plans.map (fun p => p.benefit) =
        [⟨0x3FE0000000000000⟩, ⟨0x3FD0000000000000⟩] := by
  obtain ⟨hret, heach⟩ :=
    (recover_returns_iff Codec.decodeState_verifiedBytes ⟨2⟩).mpr unitScores_verifiedState
  exact ⟨hret, heach, rfl⟩

/-- A plan of benefit `2.0`. -/
def excessiveState : PersistedState where
  plans := [{ id := ⟨7⟩, benefit := ⟨0x4000000000000000⟩ }]

theorem recover_raises :
    ¬ ∀ (bytes : List UInt8) (s : PersistedState) (epoch : CoordinatorEpoch),
      Codec.decodeState bytes = .ok s →
      ((new epoch).recover s).2 = .ok () ∧ HoldsEach ((new epoch).recover s).1 s.plans := by
  intro h
  have hplan : ∀ p ∈ excessiveState.plans, p = { id := ⟨7⟩, benefit := ⟨0x4000000000000000⟩ } :=
    fun p hp => List.mem_singleton.mp hp
  have hsound : Codec.Sound excessiveState := by
    refine ⟨?_, by simp [excessiveState]⟩
    intro p hp
    rw [hplan p hp]
    exact ⟨by decide, by decide, by decide, by decide⟩
  have hread : Codec.Readable excessiveState := by
    refine ⟨by decide, ?_, by decide, by decide, by decide⟩
    intro p hp
    rw [hplan p hp]
    decide
  have hcount : ∀ p ∈ excessiveState.plans, p.actionCount.toNat < 2 ^ 32 := by
    intro p hp
    rw [hplan p hp]
    decide
  have hret := (h _ _ ⟨2⟩ (Codec.decodeState_body hsound hread hcount)).1
  have hunit := recover_returns_of_unit.mp hret _ (List.mem_singleton.mpr rfl)
  have hbenefit : (⟨0x4000000000000000⟩ : Double).inUnit = true := hunit.benefit
  rw [Double.inUnit_two] at hbenefit
  cases hbenefit

/-! ## Saving after a recovery -/

/-- The two states hold the same durable records. -/
structure SameRecords (t s : PersistedState) : Prop where
  plans : t.plans.Perm s.plans
  reservations : t.reservations = s.reservations
  history : t.verificationHistory = s.verificationHistory

/-- The state holds nothing that a recovered coordinator does not write again: there are
only plans, and each counts the actions it lists. -/
structure Recurring (s : PersistedState) : Prop where
  counts : ∀ p ∈ s.plans, p.actionCount = Quantity.ofNat p.actionKinds.length
  reservations : s.reservations = []
  history : s.verificationHistory = []

theorem persist_recover {epoch : CoordinatorEpoch} {s : PersistedState}
    (hret : ((new epoch).recover s).2 = .ok ())
    (hnodup : (s.plans.map (fun p => p.id)).Nodup)
    (hstates : ∀ p ∈ s.plans, p.state ∉ Codec.inFlightStates) :
    ((new epoch).recover s).1.persist.plans.Perm (s.plans.map recount) ∧
      ((new epoch).recover s).1.persist.reservations = [] := by
  obtain ⟨ps, hall, hperm⟩ := recover_perm hret hnodup
  obtain ⟨-, heq⟩ := recover_eq_of_returns hret
  refine ⟨?_, ?_⟩
  · have hback : s.plans.map (fun pp => recount (Codec.degradePlan pp)) = ps.map persistPlan := by
      refine map_eq_map_of_forall₂ (hall.imp ?_)
      intro pp p hp
      exact (persistPlan_restorePlan hp).symm
    have hsame : s.plans.map (fun pp => recount (Codec.degradePlan pp)) = s.plans.map recount := by
      refine List.map_congr_left ?_
      intro pp hpp
      rw [Codec.degradePlan_eq, if_neg (hstates pp hpp)]
    have hwritten := hperm.map (fun e => persistPlan e.2)
    rw [List.map_map] at hwritten
    rw [← hsame, hback]
    exact hwritten
  · change List.flatMap _ ((new epoch).recover s).1.resources.entries = []
    rw [heq]
    rfl

theorem recount_eq_self_iff {p : PersistedPlan} :
    recount p = p ↔ p.actionCount = Quantity.ofNat p.actionKinds.length := by
  constructor
  · intro h
    exact (congrArg PersistedPlan.actionCount h).symm
  · intro h
    rw [recount, ← h]

theorem perm_map_recount_iff {ps : List PersistedPlan} :
    (ps.map recount).Perm ps ↔ ∀ p ∈ ps, p.actionCount = Quantity.ofNat p.actionKinds.length := by
  constructor
  · intro h p hp
    obtain ⟨q, -, rfl⟩ := List.mem_map.mp (h.mem_iff.mpr hp)
    rfl
  · intro h
    have hsame : ps.map recount = ps.map id :=
      List.map_congr_left (fun p hp => recount_eq_self_iff.mpr (h p hp))
    rw [hsame, List.map_id]

/-- What a coordinator saves right after it has recovered from a file holds the records of
the file exactly when there are only plans in it and their actions are counted right; and
that state is written unless the file has a COMPLETED plan without a verification. -/
theorem resaved_iff {bytes : List UInt8} {s : PersistedState} {epoch : CoordinatorEpoch}
    (h : Codec.decodeState bytes = .ok s) (hret : ((new epoch).recover s).2 = .ok ()) :
    (SameRecords ((new epoch).recover s).1.persist s ↔ Recurring s) ∧
      ((∃ bytes', Codec.encodeState ((new epoch).recover s).1.persist = .ok bytes') ↔
        ∀ p ∈ s.plans, p.state = .completed → p.verification ≠ none) := by
  obtain ⟨hwell, hstates⟩ := Codec.wellread_of_decodeState h
  obtain ⟨hplans, hres⟩ := persist_recover hret hwell.readable.distinct hstates
  refine ⟨⟨?_, ?_⟩, ?_⟩
  · intro hsame
    refine ⟨?_, hsame.reservations ▸ hres, hsame.history ▸ rfl⟩
    exact perm_map_recount_iff.mp (hplans.symm.trans hsame.plans)
  · intro hrec
    refine ⟨?_, hres.trans hrec.reservations.symm, hrec.history.symm⟩
    exact hplans.trans (perm_map_recount_iff.mpr hrec.counts)
  · constructor
    · rintro ⟨bytes', henc⟩ p hp
      have hsave := (Codec.encodeState_eq_ok_iff.mp henc).1
      exact hsave.verified (recount p) (hplans.mem_iff.mpr (List.mem_map_of_mem hp))
    · intro hverified
      refine ⟨_, Codec.encodeState_eq_ok_iff.mpr ⟨⟨⟨?_, ?_⟩, ?_⟩, rfl⟩⟩
      · intro q hq
        obtain ⟨p, hp, rfl⟩ := List.mem_map.mp (hplans.mem_iff.mp hq)
        have hfin := hwell.finite p hp
        exact ⟨hfin.benefit, hfin.cost, hfin.risk, hfin.disruption⟩
      · intro r hr
        rw [hres] at hr
        cases hr
      · intro q hq
        obtain ⟨p, hp, rfl⟩ := List.mem_map.mp (hplans.mem_iff.mp hq)
        exact hverified p hp

/-- A plan in flight and nothing else. -/
def plansOnly : PersistedState where
  plans := Codec.sampleState.plans

theorem decodeState_plansOnly :
    Codec.decodeState (Codec.encodeBody plansOnly ++
      Codec.u32 (Codec.crc32 (Codec.encodeBody plansOnly)).toNat) =
      .ok (Codec.recovered plansOnly) := by
  refine Codec.decodeState_body ⟨Codec.savable_sampleState.finite, by simp [plansOnly]⟩ ?_
    Codec.counts_sampleState
  have hread := Codec.readable_sampleState
  exact ⟨hread.plans, hread.kinds, Nat.zero_le _, hread.history, hread.distinct⟩

theorem resaved_iff_plansOnly :
    SameRecords ((new ⟨2⟩).recover (Codec.recovered plansOnly)).1.persist
      (Codec.recovered plansOnly) := by
  have hret : ((new ⟨2⟩).recover (Codec.recovered plansOnly)).2 = .ok () :=
    recover_returns_of_unit.mpr unitScores_sampleState
  refine (resaved_iff decodeState_plansOnly hret).1.mpr ⟨?_, rfl, rfl⟩
  intro p hp
  rw [List.mem_singleton.mp hp]
  rfl

/-- The reservation of the file is lost. -/
theorem resaved_differs :
    ¬ ∀ (bytes : List UInt8) (s : PersistedState) (epoch : CoordinatorEpoch),
      Codec.decodeState bytes = .ok s → ((new epoch).recover s).2 = .ok () →
      SameRecords ((new epoch).recover s).1.persist s := by
  intro h
  have hret : ((new ⟨2⟩).recover (Codec.recovered Codec.sampleState)).2 = .ok () :=
    recover_returns_of_unit.mpr unitScores_sampleState
  have hsame := h _ _ ⟨2⟩ Codec.decodeState_sampleBytes hret
  have hstates := (Codec.wellread_of_decodeState Codec.decodeState_sampleBytes).2
  have hnone := (persist_recover hret (by decide) hstates).2
  rw [hsame.reservations] at hnone
  cases hnone

end Coordinator

end FragmentationGovernor
