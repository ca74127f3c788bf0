import FragmentationGovernor.Verification.Coordinator.Capture
import FragmentationGovernor.Verification.Persistence.Overlong
import FragmentationGovernor.Verification.Persistence.Recovery

/-! # Restarts

A coordinator saves its durable state and goes on as a fresh one recovered from the bytes.
What is carried over, and what holds over any number of restarts. -/

namespace FragmentationGovernor.Coordinator

/-! ## Runs over restarts -/

/-- What can happen to a coordinator: an event, or a SAVE followed by the recovery of a
fresh coordinator from the state read back. -/
inductive Move
  | event (e : Event)
  | restart (epoch : CoordinatorEpoch) (st : PersistedState)

def move (c : Coordinator) : Move → Coordinator
  | .event e => c.step e
  | .restart epoch st => ((new epoch).recover st).1

/-- Messages, liveness events and policy changes, and restarts from the coordinator's own
bytes. -/
def Permitted (c : Coordinator) : Move → Prop
  | .event (.recover _) => False
  | .event _ => True
  | .restart _ st =>
      ∃ bytes, Codec.encodeState c.persist = .ok bytes ∧ Codec.decodeState bytes = .ok st

/-! ## What is true of every stored plan -/

/-- Plans are stored under their own id, completed ones have been verified, and their actions
are in the order of the planner. -/
structure Kept (c : Coordinator) : Prop where
  keyed : ∀ {k p}, c.plans.find? k = some p → p.id = k
  verified : ∀ {k p}, c.plans.find? k = some p → p.state = .completed → p.verification ≠ none
  ordered : ∀ {k p}, c.plans.find? k = some p →
    Planner.Ordered (p.actions.map (fun act => act.kind))

theorem kept_new (epoch : CoordinatorEpoch) : (new epoch).Kept := by
  refine ⟨?_, ?_, ?_⟩
  all_goals
    intro k p hp
    cases hp

theorem PlanStep.verified_of_completed {c : Coordinator} {k : FragmentationPlanId}
    {p q : RemediationPlan} {e : Event} (h : PlanStep c k p e q)
    (hp : p.state = .completed → p.verification ≠ none) (hq : q.state = .completed) :
    q.verification ≠ none := by
  cases h with
  | kept _ => exact hp hq
  | verified outcome _ _ _ => simp
  | _ => cases hq

theorem Kept.step {c : Coordinator} (h : c.Kept) (hcons : c.Consistent) {e : Event}
    (he : ∀ st, e ≠ .recover st) : (c.step e).Kept := by
  refine ⟨?_, ?_, ?_⟩
  · intro k q hq
    rcases hcons.plan_origin hq with ⟨p, hp, hstep⟩ | hnew
    · have hkey := h.keyed hp
      rw [hstep.same]
      exact hkey
    · cases hnew with
      | planned _ _ hkey => exact hkey
      | restored _ _ => exact (he _ rfl).elim
  · intro k q hq hstate
    rcases hcons.plan_origin hq with ⟨p, hp, hstep⟩ | hnew
    · exact hstep.verified_of_completed (h.verified hp) hstate
    · cases hnew with
      | planned _ _ _ => cases hstate
      | restored _ _ => exact (he _ rfl).elim
  · intro k q hq
    rcases hcons.plan_origin hq with ⟨p, hp, hstep⟩ | hnew
    · have hordered := h.ordered hp
      rw [hstep.same]
      exact hordered
    · cases hnew with
      | planned _ hplan _ =>
          have hordered := Planner.planRemediation_ordered hplan
          exact hordered
      | restored _ _ => exact (he _ rfl).elim

/-! ## What a restart carries over -/

/-- The plan after a restart. -/
structure CarriedOver (p q : RemediationPlan) : Prop where
  id : q.id = p.id
  generation : q.generation = p.generation
  domainId : q.domainId = p.domainId
  policyGeneration : q.policyGeneration = p.policyGeneration
  epoch : q.epoch = p.epoch
  basedOnSnapshot : q.basedOnSnapshot = p.basedOnSnapshot
  expectedCapacityRecovered : q.expectedCapacityRecovered = p.expectedCapacityRecovered
  benefit : q.benefit = p.benefit
  cost : q.cost = p.cost
  risk : q.risk = p.risk
  disruption : q.disruption = p.disruption
  verification : q.verification = p.verification
  kinds : q.actions.map (fun act => act.kind) = p.actions.map (fun act => act.kind)
  state : q.state =
    if p.state ∈ Codec.inFlightStates then .revalidationRequired else p.state

theorem carriedOver_of_restorePlan {p q : RemediationPlan}
    (h : restorePlan (Codec.degradePlan (persistPlan p)) = .ok q) : CarriedOver p q := by
  simp only [restorePlan, bind_eq_ok, Except.ok.injEq, HealthyScore.ofDouble_eq_ok_iff] at h
  obtain ⟨benefit, hb, cost, hc, risk, hr, disruption, hd, rfl⟩ := h
  have hkinds : ((persistPlan p).actionKinds.map (fun k => ({ kind := k } : PlanAction))).map
      (fun act => act.kind) = p.actions.map (fun act => act.kind) := by
    rw [List.map_map]
    exact List.map_id _
  have hstate := Codec.degradePlan_state (persistPlan p)
  rw [Codec.degradePlan_eq] at hb hc hr hd hstate ⊢
  by_cases hf : (persistPlan p).state ∈ Codec.inFlightStates
  · rw [if_pos hf] at hb hc hr hd ⊢
    exact ⟨rfl, rfl, rfl, rfl, rfl, rfl, rfl, HealthyScore.ext hb, HealthyScore.ext hc,
      HealthyScore.ext hr, HealthyScore.ext hd, rfl, hkinds, (if_pos hf).symm⟩
  · rw [if_neg hf] at hb hc hr hd ⊢
    have hlive : ¬ inFlight (persistPlan p).state = true := by
      rw [inFlight_iff]
      exact hf
    refine ⟨rfl, rfl, rfl, rfl, rfl, rfl, rfl, HealthyScore.ext hb, HealthyScore.ext hc,
      HealthyScore.ext hr, HealthyScore.ext hd, rfl, hkinds, ?_⟩
    exact (if_neg hlive).trans (if_neg hf).symm

/-- What a coordinator resumes after a restart. -/
structure Resumed (c c' : Coordinator) : Prop where
  ids : ∀ k, c'.plans.find? k = none ↔ c.plans.find? k = none
  carried : ∀ {k p}, c.plans.find? k = some p → ∃ q, c'.plans.find? k = some q ∧ CarriedOver p q
  nextPlanId : c'.nextPlanId = c.nextPlanId
  resourceGeneration : c'.generations.resourceGeneration = c.generations.resourceGeneration
  allocationGeneration : c'.generations.allocationGeneration = c.generations.allocationGeneration
  reservationGeneration :
    c'.generations.reservationGeneration = c.generations.reservationGeneration
  policyGeneration : c'.policyGeneration = c.policyGeneration ∧
    c'.generations.policyGeneration = c.policyGeneration
  resources : c'.resources = ∅
  workerAlive : c'.workerAlive = ∅
  workerBoot : c'.workerBoot = ∅
  beforeSnapshots : c'.beforeSnapshots = ∅

section Saved

variable {c : Coordinator}

theorem mem_persist_plans {pp : PersistedPlan} :
    pp ∈ c.persist.plans ↔ ∃ k p, c.plans.find? k = some p ∧ persistPlan p = pp := by
  change pp ∈ c.plans.entries.map (fun e => persistPlan e.2) ↔ _
  rw [List.mem_map]
  constructor
  · rintro ⟨⟨k, p⟩, he, rfl⟩
    exact ⟨k, p, OrdMap.find?_eq_some_iff.mpr he, rfl⟩
  · rintro ⟨k, p, hp, rfl⟩
    exact ⟨(k, p), OrdMap.find?_eq_some_iff.mp hp, rfl⟩

/-- Every coordinator with kept plans can save. -/
theorem Kept.savable (h : c.Kept) : Codec.Savable c.persist := by
  refine ⟨⟨?_, ?_⟩, ?_⟩
  · intro pp hpp
    obtain ⟨k, p, hp, rfl⟩ := mem_persist_plans.mp hpp
    exact ⟨p.benefit.isFinite, p.cost.isFinite, p.risk.isFinite, p.disruption.isFinite⟩
  · intro r hr
    obtain ⟨e, he, hr⟩ := List.mem_flatMap.mp hr
    obtain ⟨a, ha, hr⟩ := List.mem_filterMap.mp hr
    obtain ⟨id, hid, rfl⟩ := Option.map_eq_some_iff.mp hr
    exact (by decide : (0 : Duration) < 1)
  · intro pp hpp
    obtain ⟨k, p, hp, rfl⟩ := mem_persist_plans.mp hpp
    exact h.verified hp

theorem Kept.nodup_ids (h : c.Kept) : (c.persist.plans.map (fun pp => pp.id)).Nodup := by
  have hkeys : c.persist.plans.map (fun pp => pp.id) = c.plans.entries.map (fun e => e.1) := by
    change (c.plans.entries.map (fun e => persistPlan e.2)).map (fun pp => pp.id) = _
    rw [List.map_map]
    refine List.map_congr_left ?_
    intro e he
    exact h.keyed (OrdMap.find?_eq_some_iff.mpr he)
  rw [hkeys]
  exact OrdMap.nodup_keys c.plans

/-- A saved state within the bounds of the decoder is read back. -/
theorem Kept.decodeState (h : c.Kept) (hread : Codec.Readable c.persist) :
    ∃ bytes, Codec.encodeState c.persist = .ok bytes ∧
      Codec.decodeState bytes = .ok (Codec.recovered c.persist) := by
  refine ⟨_, Codec.encodeState_eq_ok_iff.mpr ⟨h.savable, rfl⟩, ?_⟩
  refine Codec.decodeState_body h.savable.toSound hread ?_
  intro pp hpp
  have hkinds := hread.kinds pp hpp
  obtain ⟨k, p, hp, rfl⟩ := mem_persist_plans.mp hpp
  change (p.actions.map (fun act => act.kind)).length ≤ Codec.maxCount at hkinds
  change (Quantity.ofNat p.actions.length : Count).toNat < 2 ^ 32
  rw [List.length_map] at hkinds
  unfold Codec.maxCount at hkinds
  rw [Quantity.toNat_ofNat (by omega)]
  omega

/-- What was saved is read back as it was saved, if it is read back at all. -/
theorem Kept.decoded (h : c.Kept) {bytes : List UInt8} {st : PersistedState}
    (henc : Codec.encodeState c.persist = .ok bytes) (hdec : Codec.decodeState bytes = .ok st) :
    st = Codec.recovered c.persist := by
  have hread : Codec.Readable c.persist := by
    obtain ⟨hsave, rfl⟩ := Codec.encodeState_eq_ok_iff.mp henc
    refine Codec.readable_of_accepted hsave.toSound ?_ rfl hdec
    intro pp hpp
    obtain ⟨k, p, hp, rfl⟩ := mem_persist_plans.mp hpp
    exact h.ordered hp
  obtain ⟨bytes', henc', hdec'⟩ := h.decodeState hread
  rw [henc] at henc'
  cases henc'
  rw [hdec] at hdec'
  cases hdec'
  rfl

theorem recovered_plans (s : PersistedState) :
    (Codec.recovered s).plans = s.plans.map Codec.degradePlan :=
  List.map_congr_left (fun p _ => (Codec.degradePlan_eq p).symm)

/-- The plans read back are those of the coordinator, degraded. -/
theorem mem_recovered_plans {pp : PersistedPlan} :
    pp ∈ (Codec.recovered c.persist).plans ↔
      ∃ k p, c.plans.find? k = some p ∧ Codec.degradePlan (persistPlan p) = pp := by
  rw [recovered_plans, List.mem_map]
  constructor
  · rintro ⟨pp', hpp', rfl⟩
    obtain ⟨k, p, hp, rfl⟩ := mem_persist_plans.mp hpp'
    exact ⟨k, p, hp, rfl⟩
  · rintro ⟨k, p, hp, rfl⟩
    exact ⟨persistPlan p, mem_persist_plans.mpr ⟨k, p, hp, rfl⟩, rfl⟩

theorem unitScores_degradePlan (p : RemediationPlan) :
    UnitScores (Codec.degradePlan (persistPlan p)) := by
  rw [Codec.degradePlan_eq]
  split_ifs
  · exact ⟨p.benefit.inUnit, p.cost.inUnit, p.risk.inUnit, p.disruption.inUnit⟩
  · exact ⟨p.benefit.inUnit, p.cost.inUnit, p.risk.inUnit, p.disruption.inUnit⟩

theorem recover_recovered (c : Coordinator) (epoch : CoordinatorEpoch) :
    ((new epoch).recover (Codec.recovered c.persist)).2 = .ok () := by
  rw [recover_returns_of_unit]
  intro pp hpp
  obtain ⟨k, p, -, rfl⟩ := mem_recovered_plans.mp hpp
  exact unitScores_degradePlan p

/-- The plans of the fresh coordinator are the degraded ones, restored. -/
theorem Kept.find?_recovered_iff (h : c.Kept) {epoch : CoordinatorEpoch}
    {k : FragmentationPlanId} {q : RemediationPlan} :
    ((new epoch).recover (Codec.recovered c.persist)).1.plans.find? k = some q ↔
      ∃ p, c.plans.find? k = some p ∧
        restorePlan (Codec.degradePlan (persistPlan p)) = .ok q := by
  have hnodup : ((Codec.recovered c.persist).plans.map (fun pp => pp.id)).Nodup := by
    rw [recovered_plans, List.map_map, show (fun pp : PersistedPlan => pp.id) ∘ Codec.degradePlan =
      fun pp => pp.id from funext Codec.degradePlan_id]
    exact h.nodup_ids
  rw [find?_recover_iff (recover_recovered c epoch) hnodup]
  constructor
  · rintro ⟨pp, hpp, hk, hrestore⟩
    obtain ⟨k', p, hp, rfl⟩ := mem_recovered_plans.mp hpp
    rw [Codec.degradePlan_id] at hk
    have hkey : k' = k := (h.keyed hp).symm.trans hk
    rw [hkey] at hp
    exact ⟨p, hp, hrestore⟩
  · rintro ⟨p, hp, hrestore⟩
    refine ⟨_, mem_recovered_plans.mpr ⟨k, p, hp, rfl⟩, ?_, hrestore⟩
    rw [Codec.degradePlan_id]
    exact h.keyed hp

theorem Kept.carried (h : c.Kept) (epoch : CoordinatorEpoch) {k : FragmentationPlanId}
    {p : RemediationPlan} (hp : c.plans.find? k = some p) :
    ∃ q, ((new epoch).recover (Codec.recovered c.persist)).1.plans.find? k = some q ∧
      CarriedOver p q := by
  obtain ⟨q, hq⟩ := restorePlan_returns_iff.mpr (unitScores_degradePlan p)
  exact ⟨q, h.find?_recovered_iff.mpr ⟨p, hp, hq⟩, carriedOver_of_restorePlan hq⟩

/-- A fresh coordinator recovers from the state read back and resumes the plans. -/
theorem Kept.resumed (h : c.Kept) (epoch : CoordinatorEpoch) :
    ((new epoch).recover (Codec.recovered c.persist)).2 = .ok () ∧
      Resumed c ((new epoch).recover (Codec.recovered c.persist)).1 := by
  have hret := recover_recovered c epoch
  obtain ⟨-, heq⟩ := recover_eq_of_returns hret
  refine ⟨hret, ?_, fun hp => h.carried epoch hp, ?_, ?_, ?_, ?_, ?_, ?_, ?_, ?_, ?_⟩
  · intro k
    rw [Option.eq_none_iff_forall_ne_some, Option.eq_none_iff_forall_ne_some]
    constructor
    · intro hnone p hp
      obtain ⟨q, hq, -⟩ := h.carried epoch hp
      exact hnone q hq
    · intro hnone q hq
      obtain ⟨p, hp, -⟩ := h.find?_recovered_iff.mp hq
      exact hnone p hp
  all_goals
    rw [heq]
  · rfl
  · rfl
  · rfl
  · rfl
  · exact ⟨rfl, rfl⟩
  all_goals rfl

end Saved

/-- A permitted restart resumes what was saved. -/
theorem Kept.restart {c : Coordinator} (h : c.Kept) {epoch : CoordinatorEpoch}
    {st : PersistedState} (hperm : c.Permitted (.restart epoch st)) :
    Resumed c (c.move (.restart epoch st)) := by
  obtain ⟨bytes, henc, hdec⟩ := hperm
  change Resumed c ((new epoch).recover st).1
  rw [h.decoded henc hdec]
  exact (h.resumed epoch).2

/-- A plan found after a restart was there before it. -/
theorem Resumed.origin {c c' : Coordinator} (h : Resumed c c') {k : FragmentationPlanId}
    {q : RemediationPlan} (hq : c'.plans.find? k = some q) :
    ∃ p, c.plans.find? k = some p ∧ CarriedOver p q := by
  cases hp : c.plans.find? k with
  | none =>
      rw [(h.ids k).mpr hp] at hq
      cases hq
  | some p =>
      obtain ⟨q', hq', hcarried⟩ := h.carried hp
      rw [hq] at hq'
      cases hq'
      exact ⟨p, rfl, hcarried⟩

theorem Kept.of_resumed {c c' : Coordinator} (h : c.Kept) (hres : Resumed c c') : c'.Kept := by
  refine ⟨?_, ?_, ?_⟩
  · intro k q hq
    obtain ⟨p, hp, hcarried⟩ := hres.origin hq
    exact hcarried.id.trans (h.keyed hp)
  · intro k q hq hstate
    obtain ⟨p, hp, hcarried⟩ := hres.origin hq
    rw [hcarried.verification]
    refine h.verified hp ?_
    rw [hcarried.state] at hstate
    split_ifs at hstate
    exact hstate
  · intro k q hq
    obtain ⟨p, hp, hcarried⟩ := hres.origin hq
    rw [hcarried.kinds]
    exact h.ordered hp

/-! ## Every run keeps the plans -/

theorem Consistent.move {c : Coordinator} (h : c.Consistent) (x : Move) :
    (c.move x).Consistent := by
  cases x with
  | event e => exact h.step e
  | restart epoch st => exact (consistent_new epoch).recover st

theorem Permitted.ne_recover {c : Coordinator} {e : Event} (h : c.Permitted (.event e)) :
    ∀ st, e ≠ .recover st := by
  rintro st rfl
  exact h

theorem Kept.move {c : Coordinator} (h : c.Kept) (hcons : c.Consistent) {x : Move}
    (hperm : c.Permitted x) : (c.move x).Kept := by
  cases x with
  | event e => exact h.step hcons hperm.ne_recover
  | restart epoch st => exact h.of_resumed (h.restart hperm)

theorem kept_run {epoch : CoordinatorEpoch} {moves : List Move}
    (hall : AllSteps move Permitted (new epoch) moves) :
    (runFrom move (new epoch) moves).Consistent ∧ (runFrom move (new epoch) moves).Kept := by
  refine @runFrom_induction _ _ _ _ _ (fun c : Coordinator => c.Consistent ∧ c.Kept)
    ⟨consistent_new epoch, kept_new epoch⟩ ?_ _ hall
  intro c x hc hperm
  exact ⟨hc.1.move x, hc.2.move hc.1 hperm⟩

/-! ## Saving and restoring -/

/-- The number of allocations under a reservation. -/
def reservedCount (c : Coordinator) : ℕ :=
  (c.resources.entries.map (fun e =>
    e.2.layout.allocations.entries.countP (fun a => a.2.reservation.isSome))).sum

theorem length_persist_reservations (c : Coordinator) :
    c.persist.reservations.length = c.reservedCount := by
  change (c.resources.entries.flatMap (fun e => c.persistReservations e.2)).length = _
  rw [List.length_flatMap, reservedCount]
  congr 1
  refine List.map_congr_left ?_
  intro e he
  rw [persistReservations, List.length_filterMap_eq_countP]
  congr 1
  funext a
  rw [Option.isSome_map]

/-- A coordinator within the bounds of the decoder. -/
theorem Kept.readable {c : Coordinator} (h : c.Kept) (hplans : c.plans.size ≤ 1000000)
    (hactions : ∀ k p, c.plans.find? k = some p → p.actions.length ≤ 1000000)
    (hreserved : c.reservedCount ≤ 1000000) : Codec.Readable c.persist := by
  refine ⟨?_, ?_, ?_, Nat.zero_le _, h.nodup_ids⟩
  · change (List.map _ _).length ≤ _
    rw [List.length_map]
    exact hplans
  · intro pp hpp
    obtain ⟨k, p, hp, rfl⟩ := mem_persist_plans.mp hpp
    change (List.map _ _).length ≤ _
    rw [List.length_map]
    exact hactions k p hp
  · rw [length_persist_reservations]
    exact hreserved

/-- Every state that can be reached within the bounds of the decoder is saved, read back and
resumed by a fresh coordinator. -/
theorem restart_preserves (epoch : CoordinatorEpoch) (moves : List Move)
    (hall : AllSteps move Permitted (new epoch) moves)
    (hplans : (runFrom move (new epoch) moves).plans.size ≤ 1000000)
    (hactions : ∀ k p, (runFrom move (new epoch) moves).plans.find? k = some p →
      p.actions.length ≤ 1000000)
    (hreserved : (runFrom move (new epoch) moves).reservedCount ≤ 1000000) :
    ∃ bytes st, Codec.encodeState (runFrom move (new epoch) moves).persist = .ok bytes ∧
      Codec.decodeState bytes = .ok st ∧ ∀ epoch', ((new epoch').recover st).2 = .ok () ∧
        Resumed (runFrom move (new epoch) moves) ((new epoch').recover st).1 := by
  have hkept := (kept_run hall).2
  obtain ⟨bytes, henc, hdec⟩ := hkept.decodeState (hkept.readable hplans hactions hreserved)
  exact ⟨bytes, _, henc, hdec, fun epoch' => hkept.resumed epoch'⟩

/-- Worker 1 has published and plan 1 is created. -/
def plannedMoves : List Move :=
  (publishedRun ++ [Event.message disk (.createPlan wholeResource)]).map .event

theorem permitted_plannedMoves : AllSteps move Permitted (new ⟨1⟩) plannedMoves :=
  ⟨trivial, trivial, trivial, trivial, trivial⟩

theorem actions_plannedMoves (k : FragmentationPlanId) (p : RemediationPlan)
    (hp : (runFrom move (new ⟨1⟩) plannedMoves).plans.find? k = some p) :
    p.actions.length ≤ 1000000 := by
  have hall : ∀ e ∈ (runFrom move (new ⟨1⟩) plannedMoves).plans.entries,
      e.2.actions.length ≤ 1000000 := by
    decide +kernel
  exact hall (k, p) (OrdMap.find?_eq_some_iff.mp hp)

theorem restart_preserves_plannedMoves :
    (runFrom move (new ⟨1⟩) plannedMoves).plans.size = 1 ∧
      ∃ bytes st, Codec.encodeState (runFrom move (new ⟨1⟩) plannedMoves).persist = .ok bytes ∧
        Codec.decodeState bytes = .ok st ∧
        Resumed (runFrom move (new ⟨1⟩) plannedMoves) ((new ⟨2⟩).recover st).1 := by
  obtain ⟨bytes, st, henc, hdec, hresumed⟩ := restart_preserves ⟨1⟩ plannedMoves
    permitted_plannedMoves (by decide +kernel) actions_plannedMoves (by decide +kernel)
  exact ⟨by decide +kernel, bytes, st, henc, hdec, (hresumed ⟨2⟩).2⟩

/-! ## Plan ids -/

/-- The move creates a plan. -/
def creates (c : Coordinator) : Move → Bool
  | .event (.message _ m) => decide (m.type = .createPlan) &&
      match c.proposePlan m.demand with
      | .ok (some _) => true
      | _ => false
  | _ => false

/-- The number of plans created along the moves. -/
def plansCreated (c : Coordinator) : List Move → ℕ
  | [] => 0
  | x :: rest => (if c.creates x then 1 else 0) + plansCreated (c.move x) rest

/-- Ids and generations of plans agree and lie below the next id to be given. -/
structure Numbered (c : Coordinator) : Prop where
  generation : ∀ {k p}, c.plans.find? k = some p → p.generation.value = p.id.value
  below : ∀ {k p}, c.plans.find? k = some p → p.id.value < c.nextPlanId
  captured : ∀ {k s}, c.beforeSnapshots.find? k = some s → k.value < c.nextPlanId

theorem numbered_new (epoch : CoordinatorEpoch) : (new epoch).Numbered := by
  refine ⟨?_, ?_, ?_⟩
  all_goals
    intro k p hp
    cases hp

theorem Numbered.of_resumed {c c' : Coordinator} (h : c.Numbered) (hres : Resumed c c') :
    c'.Numbered := by
  refine ⟨?_, ?_, ?_⟩
  · intro k q hq
    obtain ⟨p, hp, hcarried⟩ := hres.origin hq
    rw [hcarried.generation, hcarried.id]
    exact h.generation hp
  · intro k q hq
    obtain ⟨p, hp, hcarried⟩ := hres.origin hq
    rw [hcarried.id, hres.nextPlanId]
    exact h.below hp
  · intro k s hs
    rw [hres.beforeSnapshots] at hs
    cases hs

theorem creates_eq_true_iff {c : Coordinator} {fs : Codec.SaveOutcome} {m : Message} :
    c.creates (.event (.message fs m)) = true ↔
      m.type = .createPlan ∧ ∃ plan, c.proposePlan m.demand = .ok (some plan) := by
  simp only [creates, Bool.and_eq_true, decide_eq_true_eq]
  refine and_congr_right (fun _ => ?_)
  cases c.proposePlan m.demand with
  | error e => simp
  | ok r =>
      cases r with
      | none => simp
      | some plan => simp

/-- A message gives out the next id or leaves it. -/
theorem Consistent.nextPlanId_handle {c : Coordinator} (h : c.Consistent)
    (fs : Codec.SaveOutcome) (m : Message) :
    (handle fs c m).1.nextPlanId =
      if c.creates (.event (.message fs m)) then c.nextPlanId + 1 else c.nextPlanId := by
  have he := h.handle_effect fs m
  by_cases hcreate : c.creates (.event (.message fs m)) = true
  · rw [if_pos hcreate]
    obtain ⟨htype, plan, hplan⟩ := creates_eq_true_iff.mp hcreate
    rw [handle_createPlan htype, handleCreatePlan, hplan]
    change plan.id.value + 1 = _
    rw [proposePlan_id hplan]
  · rw [if_neg hcreate]
    generalize handle fs c m = o at he
    cases he with
    | planned htype hplan => exact (hcreate (creates_eq_true_iff.mpr ⟨htype, _, hplan⟩)).elim
    | registered _ _ =>
        change (c.dropStale m).nextPlanId = c.nextPlanId
        exact dropStale_induction (P := fun c' => c'.nextPlanId = c.nextPlanId) c m rfl rfl
    | advanced _ _ =>
        change (c.advance _).nextPlanId = c.nextPlanId
        unfold advance
        split <;> rfl
    | _ => rfl

theorem Consistent.nextPlanId_step {c : Coordinator} (h : c.Consistent) {e : Event}
    (he : ∀ st, e ≠ .recover st) :
    (c.step e).nextPlanId = if c.creates (.event e) then c.nextPlanId + 1 else c.nextPlanId := by
  cases e with
  | message fs m => exact h.nextPlanId_handle fs m
  | workerDead w => rfl
  | recover st => exact (he st rfl).elim
  | advancePolicy => rfl

/-- An id that can be given out is followed by another one. -/
theorem toNat_succ {v : UInt64} (h : v.toNat + 1 < 2 ^ 64) : (v + 1).toNat = v.toNat + 1 := by
  rw [UInt64.toNat_add]
  exact Nat.mod_eq_of_lt h

/-- The next id after a move, as long as ids are left. -/
theorem Consistent.nextPlanId_move {c : Coordinator} (h : c.Consistent) (hkept : c.Kept)
    {x : Move} (hperm : c.Permitted x)
    (hroom : c.nextPlanId.toNat + (if c.creates x then 1 else 0) < 2 ^ 64) :
    (c.move x).nextPlanId.toNat = c.nextPlanId.toNat + (if c.creates x then 1 else 0) := by
  cases x with
  | event e =>
      change (c.step e).nextPlanId.toNat = _
      rw [h.nextPlanId_step hperm.ne_recover]
      by_cases hcreate : c.creates (.event e) = true
      · rw [if_pos hcreate] at hroom ⊢
        rw [if_pos hcreate]
        exact toNat_succ hroom
      · rw [if_neg hcreate, if_neg hcreate]
        rfl
  | restart epoch st =>
      rw [(hkept.restart hperm).nextPlanId]
      rfl

theorem proposePlan_generation {c : Coordinator} {d : WorkloadDemand} {plan : RemediationPlan}
    (h : c.proposePlan d = .ok (some plan)) : plan.generation = ⟨c.nextPlanId⟩ := by
  obtain ⟨now, freeBefore, devs, final, -, -, -, -, -, hscore⟩ :=
    Planner.planRemediation_eq_some h
  exact (Planner.score_eq_ok hscore).2.1

theorem creates_of_replaces {c : Coordinator} {k : FragmentationPlanId} {e : Event}
    (he : ∀ st, e ≠ .recover st) (h : Replaces k c e) :
    c.creates (.event e) = true ∧ k = ⟨c.nextPlanId⟩ := by
  cases e with
  | message fs m =>
      obtain ⟨htype, ⟨reply, hreply, hok⟩, hk⟩ := h
      have hcreated : Created fs c m reply := ⟨htype, hreply, hok⟩
      obtain ⟨plan, hplan, -, -⟩ := hcreated.adopted
      exact ⟨creates_eq_true_iff.mpr ⟨htype, plan, hplan⟩, hk⟩
  | recover st => exact (he st rfl).elim
  | workerDead w => exact h.elim
  | advancePolicy => exact h.elim

theorem Numbered.step {c : Coordinator} (h : c.Numbered) (hcons : c.Consistent) {e : Event}
    (he : ∀ st, e ≠ .recover st) (hnext : (c.step e).nextPlanId.toNat =
      c.nextPlanId.toNat + (if c.creates (.event e) then 1 else 0)) : (c.step e).Numbered := by
  have hmono : ∀ {v : UInt64}, v < c.nextPlanId → v < (c.step e).nextPlanId := by
    intro v hv
    rw [UInt64.lt_iff_toNat_lt] at hv ⊢
    omega
  have hgiven : c.creates (.event e) = true → c.nextPlanId < (c.step e).nextPlanId := by
    intro hcreate
    rw [if_pos hcreate] at hnext
    rw [UInt64.lt_iff_toNat_lt]
    omega
  refine ⟨?_, ?_, ?_⟩
  · intro k q hq
    rcases hcons.plan_origin hq with ⟨p, hp, hstep⟩ | hnew
    · have hgen := h.generation hp
      rw [hstep.same]
      exact hgen
    · cases hnew with
      | planned _ hplan _ =>
          rw [proposePlan_id hplan, proposePlan_generation hplan]
      | restored _ _ => exact (he _ rfl).elim
  · intro k q hq
    rcases hcons.plan_origin hq with ⟨p, hp, hstep⟩ | hnew
    · have hbelow := hmono (h.below hp)
      rw [hstep.same]
      exact hbelow
    · cases hnew with
      | planned htype hplan _ =>
          rw [proposePlan_id hplan]
          exact hgiven (creates_eq_true_iff.mpr ⟨htype, _, hplan⟩)
      | restored _ _ => exact (he _ rfl).elim
  · intro k s hs
    by_cases hnew : Replaces k c e
    · obtain ⟨hcreate, rfl⟩ := creates_of_replaces he hnew
      exact hgiven hcreate
    · rw [hcons.beforeSnapshot_step hnew] at hs
      exact hmono (h.captured hs)

theorem Numbered.move {c : Coordinator} (h : c.Numbered) (hcons : c.Consistent) (hkept : c.Kept)
    {x : Move} (hperm : c.Permitted x) (hnext : (c.move x).nextPlanId.toNat =
      c.nextPlanId.toNat + (if c.creates x then 1 else 0)) : (c.move x).Numbered := by
  cases x with
  | event e => exact h.step hcons hperm.ne_recover hnext
  | restart epoch st => exact h.of_resumed (hkept.restart hperm)

/-- Over a run that does not use up the ids. -/
theorem numbered_run {c : Coordinator} (h : c.Numbered) (hcons : c.Consistent) (hkept : c.Kept)
    {moves : List Move} (hall : AllSteps Coordinator.move Permitted c moves)
    (hroom : c.nextPlanId.toNat + plansCreated c moves < 2 ^ 64) :
    (runFrom Coordinator.move c moves).Numbered := by
  induction moves generalizing c with
  | nil => exact h
  | cons x rest ih =>
      rw [plansCreated] at hroom
      have hnext := hcons.nextPlanId_move hkept hall.1 (by omega)
      refine ih (h.move hcons hkept hall.1 hnext) (hcons.move x) (hkept.move hcons hall.1) hall.2 ?_
      rw [hnext]
      omega

theorem plansCreated_append (c : Coordinator) (front back : List Move) :
    plansCreated c (front ++ back) =
      plansCreated c front + plansCreated (runFrom move c front) back := by
  induction front generalizing c with
  | nil => rw [List.nil_append, plansCreated, Nat.zero_add, runFrom_nil]
  | cons x rest ih =>
      rw [List.cons_append, plansCreated, plansCreated, ih, runFrom_cons]
      omega

/-- A CREATE_PLAN leaves the plans and the snapshots of all other ids. -/
theorem Numbered.createPlan_keeps {c : Coordinator} (h : c.Numbered) (hkept : c.Kept)
    {fs : Codec.SaveOutcome} {m : Message} (htype : m.type = .createPlan) :
    (∀ k p, c.plans.find? k = some p → (handle fs c m).1.plans.find? k = some p) ∧
      ∀ k s, c.beforeSnapshots.find? k = some s →
        (handle fs c m).1.beforeSnapshots.find? k = some s := by
  rw [handle_createPlan htype, handleCreatePlan]
  cases hplan : c.proposePlan m.demand with
  | error e => exact ⟨fun _ _ hp => hp, fun _ _ hs => hs⟩
  | ok r =>
      cases r with
      | none => exact ⟨fun _ _ hp => hp, fun _ _ hs => hs⟩
      | some plan =>
          have hfresh : ∀ {k : FragmentationPlanId}, k.value < c.nextPlanId → k ≠ plan.id := by
            rintro k hk rfl
            rw [proposePlan_id hplan] at hk
            exact UInt64.lt_irrefl _ hk
          refine ⟨?_, ?_⟩
          · intro k p hp
            have hk : k ≠ plan.id := hfresh (hkept.keyed hp ▸ h.below hp)
            exact (OrdMap.find?_insert_of_ne _ _ hk).trans hp
          · intro k s hs
            exact (OrdMap.find?_insert_of_ne _ _ (hfresh (h.captured hs))).trans hs

/-- Over any number of restarts, plans are stored under their own id with the generation of
that number, below the next id to be given, and CREATE_PLAN overwrites no plan and no
snapshot, as long as the ids are not used up. -/
theorem planIds_unique (epoch : CoordinatorEpoch) (moves : List Move)
    (hall : AllSteps move Permitted (new epoch) moves)
    (hcount : plansCreated (new epoch) moves < 2 ^ 64 - 1) :
    (∀ k p, (runFrom move (new epoch) moves).plans.find? k = some p →
      k = p.id ∧ p.generation.value = p.id.value ∧
        p.id.value < (runFrom move (new epoch) moves).nextPlanId) ∧
    ∀ front fs m back, moves = front ++ .event (.message fs m) :: back → m.type = .createPlan →
      (∀ k p, (runFrom move (new epoch) front).plans.find? k = some p →
        (handle fs (runFrom move (new epoch) front) m).1.plans.find? k = some p) ∧
      ∀ k s, (runFrom move (new epoch) front).beforeSnapshots.find? k = some s →
        (handle fs (runFrom move (new epoch) front) m).1.beforeSnapshots.find? k = some s := by
  have hstart : (new epoch).nextPlanId.toNat = 1 := rfl
  refine ⟨?_, ?_⟩
  · have hnumbered := numbered_run (numbered_new epoch) (consistent_new epoch) (kept_new epoch) hall
      (by omega)
    intro k p hp
    exact ⟨((kept_run hall).2.keyed hp).symm, hnumbered.generation hp, hnumbered.below hp⟩
  · rintro front fs m back rfl htype
    rw [plansCreated_append] at hcount
    have hfront := (allSteps_append.mp hall).1
    have hnumbered := numbered_run (numbered_new epoch) (consistent_new epoch) (kept_new epoch)
      hfront (by omega)
    exact hnumbered.createPlan_keeps (kept_run hfront).2 htype

/-- The restart of the coordinator with one plan. -/
def plannedRestart : Move :=
  .restart ⟨2⟩ (Codec.recovered (runFrom move (new ⟨1⟩) plannedMoves).persist)

theorem permitted_plannedRestart :
    AllSteps move Permitted (new ⟨1⟩) (plannedMoves ++ [plannedRestart]) := by
  have hkept := (kept_run permitted_plannedMoves).2
  refine allSteps_append.mpr ⟨permitted_plannedMoves, ?_, allSteps_nil⟩
  exact hkept.decodeState
    (hkept.readable (by decide +kernel) actions_plannedMoves (by decide +kernel))

theorem planIds_unique_plannedRestart :
    AllSteps move Permitted (new ⟨1⟩) (plannedMoves ++ [plannedRestart]) ∧
      plansCreated (new ⟨1⟩) (plannedMoves ++ [plannedRestart]) < 2 ^ 64 - 1 ∧
      ∀ k p, (runFrom move (new ⟨1⟩) (plannedMoves ++ [plannedRestart])).plans.find? k = some p →
        k = p.id ∧ p.generation.value = p.id.value ∧
          p.id.value < (runFrom move (new ⟨1⟩) (plannedMoves ++ [plannedRestart])).nextPlanId := by
  have hcount : plansCreated (new ⟨1⟩) (plannedMoves ++ [plannedRestart]) < 2 ^ 64 - 1 := by
    have hfront : plansCreated (new ⟨1⟩) plannedMoves = 1 := by
      decide +kernel
    rw [plansCreated_append, hfront]
    exact (by decide : 1 + ((if false then 1 else 0) + 0) < 2 ^ 64 - 1)
  exact ⟨permitted_plannedRestart, hcount,
    (planIds_unique ⟨1⟩ (plannedMoves ++ [plannedRestart]) permitted_plannedRestart hcount).1⟩

end FragmentationGovernor.Coordinator
