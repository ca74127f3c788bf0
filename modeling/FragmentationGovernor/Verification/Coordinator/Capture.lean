import FragmentationGovernor.Verification.Coordinator.Lifecycle

/-! # What a plan captures at its creation

A plan is created from a demand, a snapshot and the generations of a moment. Here they are
followed to the moment it is begun and verified. -/

namespace FragmentationGovernor.Coordinator

/-! ## The moment of creation -/

/-- The CREATE_PLAN `m` was answered positively, with `reply`. -/
structure Created (fs : Codec.SaveOutcome) (c : Coordinator) (m reply : Message) : Prop where
  type : m.type = .createPlan
  answer : (handle fs c m).2 = .ok [reply]
  positive : reply.ok = true

/-- What an accepted CREATE_PLAN leaves behind. -/
theorem Created.adopted {fs : Codec.SaveOutcome} {c : Coordinator} {m reply : Message}
    (h : Created fs c m reply) :
    ∃ plan, c.proposePlan m.demand = .ok (some plan) ∧
      (handle fs c m).1 = (c.recordDemand m).adopt plan c.assembleSnapshot ∧
      reply.plan = { plan with state := .planReady } := by
  obtain ⟨htype, hreply, hok⟩ := h
  rw [handle_createPlan htype, handleCreatePlan] at hreply ⊢
  cases hplan : c.proposePlan m.demand with
  | error e =>
      rw [hplan] at hreply
      cases hreply
  | ok r =>
      rw [hplan] at hreply
      cases r with
      | none =>
          cases hreply
          cases hok
      | some plan =>
          cases hreply
          exact ⟨plan, rfl, rfl, rfl⟩

theorem Created.stored {fs : Codec.SaveOutcome} {c : Coordinator} {m reply : Message}
    (h : Created fs c m reply) :
    (handle fs c m).1.plans.find? reply.plan.id = some reply.plan ∧
      (handle fs c m).1.beforeSnapshots.find? reply.plan.id = some c.assembleSnapshot ∧
      (handle fs c m).1.lastDemand = m.demand ∧
      (handle fs c m).1.generations = c.generations := by
  obtain ⟨plan, -, hstate, hplan⟩ := h.adopted
  rw [hstate, hplan]
  exact ⟨OrdMap.find?_insert_self _ _ _, OrdMap.find?_insert_self _ _ _, rfl, rfl⟩

/-- Every action of a new plan captures the generations of the coordinator. -/
theorem Created.generations {fs : Codec.SaveOutcome} {c : Coordinator} {m reply : Message}
    (h : Created fs c m reply) : ∀ act ∈ reply.plan.actions, act.generations = c.generations := by
  obtain ⟨plan, hpropose, -, hplan⟩ := h.adopted
  rw [hplan]
  intro act hact
  exact (Planner.planRemediation_actions hpropose act hact).2

/-! ## The plan and its snapshot afterwards -/

/-- The two records describe one plan at different points of its lifecycle. -/
def SamePlan (p q : RemediationPlan) : Prop :=
  q = { p with
    state := q.state
    verification := q.verification
    preconditionFailures := q.preconditionFailures }

theorem SamePlan.trans {p q r : RemediationPlan} (h : SamePlan p q) (h' : SamePlan q r) :
    SamePlan p r := by
  have hr : r = { q with
      state := r.state
      verification := r.verification
      preconditionFailures := r.preconditionFailures } := h'
  rw [h] at hr
  exact hr

theorem SamePlan.actions {p q : RemediationPlan} (h : SamePlan p q) : q.actions = p.actions := by
  rw [h]

/-- A plan that is not replaced along a run is found at its end. -/
theorem Consistent.plan_run {c : Coordinator} (h : c.Consistent) {k : FragmentationPlanId}
    {p : RemediationPlan} (hp : c.plans.find? k = some p) {events : List Event}
    (hsame : AllSteps Coordinator.step (fun c e => ¬ Replaces k c e) c events) :
    ∃ q, (runFrom Coordinator.step c events).plans.find? k = some q ∧ SamePlan p q := by
  induction events generalizing c p with
  | nil => exact ⟨p, hp, rfl⟩
  | cons e rest ih =>
      obtain ⟨p', hp', hstep⟩ := h.plan_step hp hsame.1
      obtain ⟨q, hq, hsame'⟩ := ih (h.step e) hp' hsame.2
      exact ⟨q, hq, SamePlan.trans hstep.same hsame'⟩

/-- The two coordinators hold the same snapshots and the same demand for verification. -/
structure SameCapture (c c' : Coordinator) : Prop where
  beforeSnapshots : c'.beforeSnapshots = c.beforeSnapshots
  lastDemand : c'.lastDemand = c.lastDemand

theorem sameCapture_recover (c : Coordinator) (st : PersistedState) :
    SameCapture c (c.recover st).1 := by
  obtain ⟨plans, -, heq | heq⟩ := recover_cases c st
  · rw [heq]
    exact ⟨rfl, rfl⟩
  · rw [heq]
    exact ⟨rfl, rfl⟩

theorem sameCapture_register (c : Coordinator) (m : Message) :
    SameCapture c (c.register m) := by
  have hdrop : SameCapture c (c.dropStale m) := by
    refine dropStale_induction c m ?_ ?_
    · exact ⟨rfl, rfl⟩
    · exact ⟨rfl, rfl⟩
  exact ⟨hdrop.beforeSnapshots, hdrop.lastDemand⟩

theorem sameCapture_advance (c : Coordinator) (kind : ℕ) : SameCapture c (c.advance kind) := by
  unfold advance
  split <;> exact ⟨rfl, rfl⟩

/-- Only the creation of a plan under the same id replaces its snapshot. -/
theorem Consistent.beforeSnapshot_step {c : Coordinator} (h : c.Consistent)
    {k : FragmentationPlanId} {e : Event} (hnew : ¬ Replaces k c e) :
    (c.step e).beforeSnapshots.find? k = c.beforeSnapshots.find? k := by
  cases e with
  | message fs m =>
      change (handle fs c m).1.beforeSnapshots.find? k = _
      have he := h.handle_effect fs m
      generalize ho : handle fs c m = o at he
      cases he with
      | planned htype hplan =>
          rename_i plan
          have hne : k ≠ plan.id := by
            intro hk
            refine hnew ⟨htype, ?_, ?_⟩
            · rw [ho]
              exact ⟨_, rfl, rfl⟩
            · rw [hk, proposePlan_id hplan]
          exact OrdMap.find?_insert_of_ne _ _ hne
      | registered _ _ => exact congrArg (·.find? k) (sameCapture_register c m).beforeSnapshots
      | advanced _ _ => exact congrArg (·.find? k) (sameCapture_advance c _).beforeSnapshots
      | _ => rfl
  | workerDead w => rfl
  | recover st => exact congrArg (·.find? k) (sameCapture_recover c st).beforeSnapshots
  | advancePolicy => rfl

theorem Consistent.beforeSnapshot_run {c : Coordinator} (h : c.Consistent)
    {k : FragmentationPlanId} {events : List Event}
    (hsame : AllSteps Coordinator.step (fun c e => ¬ Replaces k c e) c events) :
    (runFrom Coordinator.step c events).beforeSnapshots.find? k = c.beforeSnapshots.find? k := by
  induction events generalizing c with
  | nil => rfl
  | cons e rest ih =>
      rw [runFrom_cons, ih (h.step e) hsame.2]
      exact h.beforeSnapshot_step hsame.1

/-! ## The recorded demand -/

/-- The demand of the last CREATE_PLAN among the events, `d` when there is none. -/
def latestDemand (d : WorkloadDemand) : List Event → WorkloadDemand
  | [] => d
  | .message _ m :: rest => latestDemand (if m.type = .createPlan then m.demand else d) rest
  | _ :: rest => latestDemand d rest

theorem Consistent.lastDemand_handle {c : Coordinator} (h : c.Consistent)
    (fs : Codec.SaveOutcome) (m : Message) :
    (handle fs c m).1.lastDemand = if m.type = .createPlan then m.demand else c.lastDemand := by
  by_cases htype : m.type = .createPlan
  · rw [if_pos htype, handle_createPlan htype, handleCreatePlan]
    cases c.proposePlan m.demand with
    | error e => rfl
    | ok r =>
        cases r with
        | none => rfl
        | some plan => rfl
  · rw [if_neg htype]
    have he := h.handle_effect fs m
    generalize handle fs c m = o at he
    cases he with
    | planRaised hplan _ => exact (htype hplan).elim
    | planRefused hplan _ => exact (htype hplan).elim
    | planned hplan _ => exact (htype hplan).elim
    | registered _ _ => exact (sameCapture_register c m).lastDemand
    | advanced _ _ => exact (sameCapture_advance c _).lastDemand
    | _ => rfl

/-- The coordinator keeps one demand for all plans: that of the last CREATE_PLAN. -/
theorem Consistent.lastDemand_run {c : Coordinator} (h : c.Consistent) (events : List Event) :
    (runFrom Coordinator.step c events).lastDemand = latestDemand c.lastDemand events := by
  induction events generalizing c with
  | nil => rfl
  | cons e rest ih =>
      rw [runFrom_cons, ih (h.step e)]
      cases e with
      | message fs m => exact congrArg (latestDemand · rest) (h.lastDemand_handle fs m)
      | workerDead w => rfl
      | recover st => exact congrArg (latestDemand · rest) (sameCapture_recover c st).lastDemand
      | advancePolicy => rfl

/-! ## Verification -/

/-- A VERIFY whose comparison returns stores and answers the outcome. -/
theorem handle_verifiable {fs : Codec.SaveOutcome} {c : Coordinator} {m : Message}
    {p : RemediationPlan} {before : FragmentationSnapshot} {v : VerificationResult}
    (htype : m.type = .verify) (hp : c.plans.find? m.planKey = some p)
    (hstate : p.state = .verifying) (hbefore : c.beforeSnapshots.find? m.planKey = some before)
    (hv : verifyRemediation before c.assembleSnapshot c.lastDemand p = .ok v) :
    handle fs c m =
      (c.setState { p with verification := some v.outcome } m.planKey (stateAfter v.outcome),
        .ok [{ type := .verify, ok := true, verificationOutcome := v.outcome,
               detail := v.diagnostics.headD "" }]) := by
  rw [handle_verify htype, handleVerify, withPlan, hp]
  dsimp only
  rw [if_neg (not_not.mpr hstate), hbefore]
  dsimp only
  rw [hv]

theorem accepted_verify_iff {fs : Codec.SaveOutcome} {c : Coordinator} {m : Message}
    (htype : m.type = .verify) :
    Accepted (handle fs c m) ↔ ∃ p before v, c.plans.find? m.planKey = some p ∧
      p.state = .verifying ∧ c.beforeSnapshots.find? m.planKey = some before ∧
      verifyRemediation before c.assembleSnapshot c.lastDemand p = .ok v := by
  rw [handle_verify htype, handleVerify, withPlan]
  cases hp : c.plans.find? m.planKey with
  | none => simp [not_accepted_reject]
  | some p =>
      dsimp only
      by_cases hstate : p.state ≠ .verifying
      · rw [if_pos hstate]
        simp [not_accepted_reject, hstate]
      · rw [if_neg hstate]
        rw [not_not] at hstate
        cases hb : c.beforeSnapshots.find? m.planKey with
        | none => simp [not_accepted_reject]
        | some before =>
            dsimp only
            cases hv : verifyRemediation before c.assembleSnapshot c.lastDemand p with
            | error e =>
                refine iff_of_false ?_ ?_
                · rintro ⟨reply, hreply, -⟩
                  cases hreply
                · rintro ⟨p', before', v, hp', -, hb', hv'⟩
                  cases hp'
                  cases hb'
                  rw [hv] at hv'
                  cases hv'
            | ok v => exact iff_of_true ⟨_, rfl, rfl⟩ ⟨p, before, v, rfl, hstate, rfl, hv⟩

/-- What an accepted VERIFY computes, answers and stores. -/
theorem verify_accepted {fs : Codec.SaveOutcome} {c : Coordinator} {m reply : Message}
    (htype : m.type = .verify) (hreply : (handle fs c m).2 = .ok [reply])
    (hok : reply.ok = true) :
    ∃ p before v, c.plans.find? m.planKey = some p ∧
      c.beforeSnapshots.find? m.planKey = some before ∧
      verifyRemediation before c.assembleSnapshot c.lastDemand p = .ok v ∧
      reply.verificationOutcome = v.outcome ∧
      ((handle fs c m).1.plans.find? m.planKey).map (fun q => q.verification) =
        some (some v.outcome) := by
  obtain ⟨p, before, v, hp, hstate, hbefore, hv⟩ :=
    (accepted_verify_iff htype).mp ⟨reply, hreply, hok⟩
  rw [handle_verifiable htype hp hstate hbefore hv] at hreply ⊢
  cases hreply
  refine ⟨p, before, v, hp, hbefore, hv, rfl, ?_⟩
  change ((c.plans.insert m.planKey _).find? m.planKey).map _ = _
  rw [OrdMap.find?_insert_self]
  rfl

/-- In every run: a VERIFY accepted for a plan of the run compares the snapshot of its
creation with the present one under the plan's own demand, provided that the last
CREATE_PLAN before it, accepted or not, carried that demand. -/
theorem verify_uses_own_demand (epoch : CoordinatorEpoch) (front mid : List Event)
    (fs fs' : Codec.SaveOutcome) (m reply m' reply' : Message)
    (hcreate : Created fs (runFrom step (new epoch) front) m reply)
    (hsame : AllSteps step (fun c e => ¬ Replaces reply.plan.id c e)
      (runFrom step (new epoch) (front ++ [.message fs m])) mid)
    (hdemand : latestDemand m.demand mid = m.demand)
    (htype : m'.type = .verify) (hkey : m'.planKey = reply.plan.id)
    (hreply : (handle fs' (runFrom step (new epoch) (front ++ [.message fs m] ++ mid)) m').2 =
      .ok [reply']) (hok : reply'.ok = true) :
    ∃ p v, (runFrom step (new epoch) (front ++ [.message fs m] ++ mid)).plans.find?
        reply.plan.id = some p ∧
      verifyRemediation (runFrom step (new epoch) front).assembleSnapshot
        (runFrom step (new epoch) (front ++ [.message fs m] ++ mid)).assembleSnapshot
        m.demand p = .ok v ∧
      reply'.verificationOutcome = v.outcome ∧
      ((handle fs' (runFrom step (new epoch) (front ++ [.message fs m] ++ mid)) m').1.plans.find?
        reply.plan.id).map (fun q => q.verification) = some (some v.outcome) := by
  obtain ⟨-, hbefore, hlast, -⟩ := hcreate.stored
  have hcons := consistent_run epoch (front ++ [.message fs m])
  have hsnap := hcons.beforeSnapshot_run hsame
  have hdem := hcons.lastDemand_run mid
  rw [← runFrom_append] at hsnap hdem
  generalize hc : runFrom step (new epoch) (front ++ [.message fs m] ++ mid) = c at *
  rw [runFrom_snoc] at hsnap hdem
  change c.beforeSnapshots.find? _ = (handle fs _ m).1.beforeSnapshots.find? _ at hsnap
  change c.lastDemand = latestDemand (handle fs _ m).1.lastDemand mid at hdem
  rw [hbefore] at hsnap
  rw [hlast, hdemand] at hdem
  obtain ⟨p, before, v, hp, hb, hv, houtcome, hstored⟩ := verify_accepted htype hreply hok
  rw [hkey] at hp hb hstored
  rw [hsnap] at hb
  cases hb
  rw [hdem] at hv
  exact ⟨p, v, hp, hv, houtcome, hstored⟩

/-- Worker 1 has published; plan 1 is about to be created. -/
def publishedRun : List Event :=
  [.register 1 1, .publishResource 1 1 smallResource,
    .publishAllocation 1 1 smallResource scratch].map (.message disk)

/-- Plan 1 is approved, begun and completed. -/
def executed : List Event :=
  [.approvePlan 1, .beginAction 1 0, .actionComplete 1 0].map (.message disk)

/-- A demand beyond any device. -/
def hugeDemand : WorkloadDemand := { perDeviceMemory := ⟨1000⟩ }

theorem created_publishedRun :
    ∃ reply, Created disk (runFrom step (new ⟨1⟩) publishedRun) (.createPlan wholeResource) reply ∧
      reply.plan.id = ⟨1⟩ := by
  have heval : ((reply? (handle disk (runFrom step (new ⟨1⟩) publishedRun)
      (.createPlan wholeResource))).map (fun r => (r.ok, r.plan.id))) = some (true, ⟨1⟩) := by
    decide +kernel
  obtain ⟨reply, hreply, hfields⟩ := Option.map_eq_some_iff.mp heval
  simp only [Prod.mk.injEq] at hfields
  exact ⟨reply, ⟨rfl, reply?_eq_some hreply, hfields.1⟩, hfields.2⟩

/-- The lifecycle of plan 1 up to its verification, with no other CREATE_PLAN. -/
theorem verify_uses_own_demand_executed :
    ∃ reply reply' : Message, Created disk (runFrom step (new ⟨1⟩) publishedRun)
        (.createPlan wholeResource) reply ∧ reply'.ok = true ∧
      ∃ p v, (runFrom step (new ⟨1⟩) (publishedRun ++
          [.message disk (.createPlan wholeResource)] ++ executed)).plans.find?
            reply.plan.id = some p ∧
        verifyRemediation (runFrom step (new ⟨1⟩) publishedRun).assembleSnapshot
          (runFrom step (new ⟨1⟩) (publishedRun ++
            [.message disk (.createPlan wholeResource)] ++ executed)).assembleSnapshot
          wholeResource p = .ok v ∧
        reply'.verificationOutcome = v.outcome := by
  obtain ⟨reply, hcreate, hid⟩ := created_publishedRun
  have heval : ((reply? (handle disk (runFrom step (new ⟨1⟩) (publishedRun ++
      [.message disk (.createPlan wholeResource)] ++ executed)) (.verify 1))).map
        (fun r => r.ok)) = some true := by
    decide +kernel
  obtain ⟨reply', hreply', hok⟩ := Option.map_eq_some_iff.mp heval
  have hsame : AllSteps step (fun c e => ¬ Replaces reply.plan.id c e)
      (runFrom step (new ⟨1⟩) (publishedRun ++ [.message disk (.createPlan wholeResource)]))
      executed := by
    refine ⟨?_, ?_, ?_, allSteps_nil⟩
    all_goals
      intro hrep
      cases hrep.1
  obtain ⟨p, v, hp, hv, houtcome, -⟩ := verify_uses_own_demand ⟨1⟩ publishedRun executed disk disk
    (.createPlan wholeResource) reply (.verify 1) reply' hcreate hsame (by decide) rfl
    (by rw [hid]; rfl) (reply?_eq_some hreply') hok
  exact ⟨reply, reply', hcreate, hok, p, v, hp, hv, houtcome⟩

/-- A refused CREATE_PLAN between the completion and the verification of plan 1. -/
def interleaved : List Event := executed ++ [.message disk (.createPlan hugeDemand)]

/-- Under its own demand plan 1 has achieved its target, but the VERIFY says otherwise. -/
theorem verify_uses_foreign_demand :
    ¬ ∀ (epoch : CoordinatorEpoch) (front mid : List Event) (fs fs' : Codec.SaveOutcome)
      (m reply m' reply' : Message),
      Created fs (runFrom step (new epoch) front) m reply →
      AllSteps step (fun c e => ¬ Replaces reply.plan.id c e)
        (runFrom step (new epoch) (front ++ [.message fs m])) mid →
      m'.type = .verify → m'.planKey = reply.plan.id →
      (handle fs' (runFrom step (new epoch) (front ++ [.message fs m] ++ mid)) m').2 =
        .ok [reply'] → reply'.ok = true →
      ∃ p v, (runFrom step (new epoch) (front ++ [.message fs m] ++ mid)).plans.find?
          reply.plan.id = some p ∧
        verifyRemediation (runFrom step (new epoch) front).assembleSnapshot
          (runFrom step (new epoch) (front ++ [.message fs m] ++ mid)).assembleSnapshot
          m.demand p = .ok v ∧
        reply'.verificationOutcome = v.outcome := by
  intro h
  obtain ⟨reply, hcreate, hid⟩ := created_publishedRun
  have heval : ((reply? (handle disk (runFrom step (new ⟨1⟩) (publishedRun ++
      [.message disk (.createPlan wholeResource)] ++ interleaved)) (.verify 1))).map
        (fun r => (r.ok, r.verificationOutcome))) = some (true, .revalidationRequired) := by
    decide +kernel
  obtain ⟨reply', hreply', hfields⟩ := Option.map_eq_some_iff.mp heval
  simp only [Prod.mk.injEq] at hfields
  have hsame : AllSteps step (fun c e => ¬ Replaces reply.plan.id c e)
      (runFrom step (new ⟨1⟩) (publishedRun ++ [.message disk (.createPlan wholeResource)]))
      interleaved := by
    refine ⟨?_, ?_, ?_, ?_, allSteps_nil⟩
    · intro hrep
      cases hrep.1
    · intro hrep
      cases hrep.1
    · intro hrep
      cases hrep.1
    · intro hrep
      have hnext := hrep.2.2
      rw [hid] at hnext
      revert hnext
      decide +kernel
  obtain ⟨p, v, hp, hv, houtcome⟩ := h ⟨1⟩ publishedRun interleaved disk disk
    (.createPlan wholeResource) reply (.verify 1) reply' hcreate hsame rfl
    (by rw [hid]; rfl) (reply?_eq_some hreply') hfields.1
  rw [hid] at hp
  have htrue : (((runFrom step (new ⟨1⟩) (publishedRun ++
      [.message disk (.createPlan wholeResource)] ++ interleaved)).plans.find? ⟨1⟩).bind (fun p =>
        (verifyRemediation (runFrom step (new ⟨1⟩) publishedRun).assembleSnapshot
          (runFrom step (new ⟨1⟩) (publishedRun ++
            [.message disk (.createPlan wholeResource)] ++ interleaved)).assembleSnapshot
          wholeResource p).toOption.map (fun v => v.outcome))) = some .targetFitAchieved := by
    decide +kernel
  rw [hp, Option.bind_some] at htrue
  change verifyRemediation _ _ wholeResource p = .ok v at hv
  rw [hv] at htrue
  simp only [Except.toOption, Option.map_some, Option.some.injEq] at htrue
  rw [← houtcome, hfields.2] at htrue
  cases htrue

end FragmentationGovernor.Coordinator
