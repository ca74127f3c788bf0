import FragmentationGovernor.Verification.Coordinator.Evidence
import FragmentationGovernor.Verification.Planner.Actions

/-! # The lifecycle of a stored plan

What one event can do to the plan stored under a given id, and from it what a run can. -/

namespace FragmentationGovernor.Coordinator

/-! ## Plans after an event -/

/-- The event stores another plan under the id: an accepted CREATE_PLAN whose turn it is,
or a recovery from a state that holds it. -/
def Replaces (k : FragmentationPlanId) (c : Coordinator) : Event → Prop
  | .message fs m => m.type = .createPlan ∧ Accepted (handle fs c m) ∧ k = ⟨c.nextPlanId⟩
  | .recover st => ∃ pp ∈ st.plans, pp.id = k
  | _ => False

/-- The changes one event can make to the plan `p` stored under `k`, with their guards. -/
inductive PlanStep (c : Coordinator) (k : FragmentationPlanId) (p : RemediationPlan) :
    Event → RemediationPlan → Prop
  | kept (e : Event) : PlanStep c k p e p
  | approved {fs : Codec.SaveOutcome} {m : Message} (htype : m.type = .approvePlan)
      (hkey : m.planKey = k) (hstate : p.state ≠ .superseded)
      (hpolicy : p.policyGeneration = c.policyGeneration) :
      PlanStep c k p (.message fs m) { p with state := .approved }
  | began {fs : Codec.SaveOutcome} {m : Message} (htype : m.type = .beginAction)
      (hkey : m.planKey = k) (hstate : p.state = .approved) (hexec : c.canExecute p m = true)
      (hindex : m.actionIndex.toNat < p.actions.length) :
      PlanStep c k p (.message fs m) { p with state := .executing }
  | completed {fs : Codec.SaveOutcome} {m : Message} (htype : m.type = .actionComplete)
      (hkey : m.planKey = k) (hstate : p.state = .executing) :
      PlanStep c k p (.message fs m) { p with state := .verifying }
  | verified {fs : Codec.SaveOutcome} {m : Message} (outcome : VerificationOutcome)
      (htype : m.type = .verify) (hkey : m.planKey = k) (hstate : p.state = .verifying) :
      PlanStep c k p (.message fs m)
        { p with verification := some outcome, state := stateAfter outcome }
  | cancelled {fs : Codec.SaveOutcome} {m : Message} (htype : m.type = .cancelPlan)
      (hkey : m.planKey = k) : PlanStep c k p (.message fs m) { p with state := .cancelled }
  | revalidated {fs : Codec.SaveOutcome} {m : Message} (htype : m.type = .revalidate)
      (hkey : m.planKey = k) :
      PlanStep c k p (.message fs m) { p with state := .revalidationRequired }
  | died (e : Event) :
      PlanStep c k p e
        { p with
          state := .revalidationRequired
          preconditionFailures := p.preconditionFailures ++ [.ofString "evidence source died"] }

theorem markWorkerDead_plan {c : Coordinator} {k : FragmentationPlanId} {p : RemediationPlan}
    (hp : c.plans.find? k = some p) (w : WorkerId) (e : Event) :
    ∃ p', (c.markWorkerDead w).plans.find? k = some p' ∧ PlanStep c k p e p' := by
  change ∃ p', (OrdMap.mapVals _ _).find? k = some p' ∧ _
  rw [OrdMap.find?_mapVals, hp]
  refine ⟨_, rfl, ?_⟩
  dsimp only
  split
  · exact .died e
  · exact .kept e

theorem register_plan {c : Coordinator} {k : FragmentationPlanId} {p : RemediationPlan}
    (hp : c.plans.find? k = some p) (m : Message) (e : Event) :
    ∃ p', (c.register m).plans.find? k = some p' ∧ PlanStep c k p e p' := by
  change ∃ p', (c.dropStale m).plans.find? k = some p' ∧ _
  refine dropStale_induction c m ?_ ?_
  · exact ⟨p, hp, .kept e⟩
  · exact markWorkerDead_plan hp m.worker e

/-- A write to the plan under one id is a step of the plan under any id. -/
theorem setState_plan {c c' : Coordinator} {k key : FragmentationPlanId}
    {p q q' : RemediationPlan} {e : Event} (hp : c.plans.find? k = some p)
    (hq : c.plans.find? key = some q) (hplans : c'.plans = c.plans.insert key q')
    (hstep : key = k → PlanStep c k q e q') :
    ∃ p', c'.plans.find? k = some p' ∧ PlanStep c k p e p' := by
  rw [hplans, OrdMap.find?_insert]
  by_cases hk : k = key
  · rw [if_pos hk]
    rw [hk, hq] at hp
    cases hp
    exact ⟨q', rfl, hstep hk.symm⟩
  · rw [if_neg hk]
    exact ⟨p, hp, .kept e⟩

/-- A new plan takes the next free id. -/
theorem proposePlan_id {c : Coordinator} {d : WorkloadDemand} {plan : RemediationPlan}
    (h : c.proposePlan d = .ok (some plan)) : plan.id = ⟨c.nextPlanId⟩ := by
  obtain ⟨now, freeBefore, devs, final, -, -, -, -, -, hscore⟩ :=
    Planner.planRemediation_eq_some h
  exact (Planner.score_eq_ok hscore).1

theorem advance_plans (c : Coordinator) (kind : ℕ) : (c.advance kind).plans = c.plans := by
  unfold advance
  split <;> rfl

/-- The plan under an id after a message that does not replace it. -/
theorem Consistent.plan_handle {c : Coordinator} (h : c.Consistent) {k : FragmentationPlanId}
    {p : RemediationPlan} (hp : c.plans.find? k = some p) (fs : Codec.SaveOutcome) (m : Message)
    (hnew : ¬ Replaces k c (.message fs m)) :
    ∃ p', (handle fs c m).1.plans.find? k = some p' ∧ PlanStep c k p (.message fs m) p' := by
  have he := h.handle_effect fs m
  generalize ho : handle fs c m = o at he
  cases he with
  | registered _ _ => exact register_plan hp m _
  | planned htype hplan =>
      rename_i plan
      have hne : k ≠ plan.id := by
        intro hk
        refine hnew ⟨htype, ?_, ?_⟩
        · rw [ho]
          exact ⟨_, rfl, rfl⟩
        · rw [hk, proposePlan_id hplan]
      change ∃ p', (c.plans.insert plan.id _).find? k = some p' ∧ _
      rw [OrdMap.find?_insert_of_ne _ _ hne]
      exact ⟨p, hp, .kept _⟩
  | approved htype hq hstate hpolicy =>
      exact setState_plan hp hq rfl (fun hk => .approved htype hk hstate hpolicy)
  | began htype hq hstate hexec hindex =>
      exact setState_plan hp hq rfl (fun hk => .began htype hk hstate hexec hindex)
  | skipped htype hq hstate _ _ =>
      exact setState_plan hp hq rfl (fun hk => .completed htype hk hstate)
  | completed htype hq hstate _ _ _ _ _ =>
      exact setState_plan hp hq rfl (fun hk => .completed htype hk hstate)
  | verified htype hq hstate _ _ =>
      exact setState_plan hp hq rfl (fun hk => .verified _ htype hk hstate)
  | cancelled htype hq => exact setState_plan hp hq rfl (fun hk => .cancelled htype hk)
  | revalidated htype hq => exact setState_plan hp hq rfl (fun hk => .revalidated htype hk)
  | advanced _ _ =>
      change ∃ p', (c.advance _).plans.find? k = some p' ∧ _
      rw [advance_plans]
      exact ⟨p, hp, .kept _⟩
  | _ => exact ⟨p, hp, .kept _⟩

/-- A recovery touches only the ids it restores. -/
theorem recover_find? {k : FragmentationPlanId} {st : PersistedState}
    (hnew : ∀ pp ∈ st.plans, pp.id ≠ k) (c : Coordinator) :
    (c.recover st).1.plans.find? k = c.plans.find? k :=
  (restored_recover c st).kept hnew

/-- The plan under an id after an event that does not replace it. -/
theorem Consistent.plan_step {c : Coordinator} (h : c.Consistent) {k : FragmentationPlanId}
    {p : RemediationPlan} (hp : c.plans.find? k = some p) {e : Event}
    (hnew : ¬ Replaces k c e) :
    ∃ p', (c.step e).plans.find? k = some p' ∧ PlanStep c k p e p' := by
  cases e with
  | message fs m => exact h.plan_handle hp fs m hnew
  | workerDead w => exact markWorkerDead_plan hp w _
  | recover st =>
      have hne : ∀ pp ∈ st.plans, pp.id ≠ k := fun pp hpp hid => hnew ⟨pp, hpp, hid⟩
      refine ⟨p, ?_, .kept _⟩
      exact (recover_find? hne c).trans hp
  | advancePolicy => exact ⟨p, hp, .kept _⟩

/-- No step changes anything of a plan but its state, its verification and the list of its
failed preconditions. -/
theorem PlanStep.same {c : Coordinator} {k : FragmentationPlanId} {p p' : RemediationPlan}
    {e : Event} (h : PlanStep c k p e p') :
    p' = { p with
      state := p'.state
      verification := p'.verification
      preconditionFailures := p'.preconditionFailures } := by
  cases h <;> rfl

theorem stateAfter_not_acting (outcome : VerificationOutcome) :
    stateAfter outcome ≠ .executing ∧ stateAfter outcome ≠ .verifying := by
  cases outcome <;> simp [stateAfter]

/-- A plan found executing was so before the step, or the step is its beginning. -/
theorem PlanStep.executing {c : Coordinator} {k : FragmentationPlanId} {p q : RemediationPlan}
    {e : Event} (h : PlanStep c k p e q) (hq : q.state = .executing) :
    q = p ∨ ∃ fs m, e = .message fs m ∧ m.type = .beginAction ∧ m.planKey = k ∧
      p.state = .approved ∧ c.canExecute p m = true ∧
      m.actionIndex.toNat < p.actions.length := by
  cases h with
  | kept _ => exact Or.inl rfl
  | began htype hkey hstate hexec hindex =>
      exact Or.inr ⟨_, _, rfl, htype, hkey, hstate, hexec, hindex⟩
  | verified outcome _ _ _ => exact ((stateAfter_not_acting outcome).1 hq).elim
  | _ => cases hq

/-- A plan found verifying was so before the step, or the step is the completion of an
action of the plan executing. -/
theorem PlanStep.verifying {c : Coordinator} {k : FragmentationPlanId} {p q : RemediationPlan}
    {e : Event} (h : PlanStep c k p e q) (hq : q.state = .verifying) :
    q = p ∨ ∃ fs m, e = .message fs m ∧ m.type = .actionComplete ∧ m.planKey = k ∧
      p.state = .executing := by
  cases h with
  | kept _ => exact Or.inl rfl
  | completed htype hkey hstate => exact Or.inr ⟨_, _, rfl, htype, hkey, hstate⟩
  | verified outcome _ _ _ => exact ((stateAfter_not_acting outcome).2 hq).elim
  | _ => cases hq

/-! ## Where a stored plan comes from -/

/-- The event itself puts the plan under the id: the planner proposed it, or it is restored. -/
inductive Introduced (c : Coordinator) (k : FragmentationPlanId) : Event → RemediationPlan → Prop
  | planned {fs : Codec.SaveOutcome} {m : Message} {plan : RemediationPlan}
      (htype : m.type = .createPlan) (hplan : c.proposePlan m.demand = .ok (some plan))
      (hkey : plan.id = k) : Introduced c k (.message fs m) { plan with state := .planReady }
  | restored {st : PersistedState} {pp : PersistedPlan} {p : RemediationPlan}
      (hmem : pp ∈ st.plans) (hpp : restorePlan pp = .ok p) : Introduced c k (.recover st) p

theorem markWorkerDead_origin {c : Coordinator} {w : WorkerId} {k : FragmentationPlanId}
    {q : RemediationPlan} (hq : (c.markWorkerDead w).plans.find? k = some q) (e : Event) :
    ∃ p, c.plans.find? k = some p ∧ PlanStep c k p e q := by
  cases hp : c.plans.find? k with
  | none =>
      change (OrdMap.mapVals _ _).find? k = some q at hq
      rw [OrdMap.find?_mapVals, hp] at hq
      cases hq
  | some p =>
      obtain ⟨p', hp', hstep⟩ := markWorkerDead_plan hp w e
      rw [hq] at hp'
      cases hp'
      exact ⟨p, rfl, hstep⟩

theorem register_origin {c : Coordinator} {m : Message} {k : FragmentationPlanId}
    {q : RemediationPlan} (hq : (c.register m).plans.find? k = some q) (e : Event) :
    ∃ p, c.plans.find? k = some p ∧ PlanStep c k p e q := by
  change (c.dropStale m).plans.find? k = some q at hq
  rcases dropStale_cases c m with ⟨heq, -⟩ | ⟨heq, -⟩
  · rw [heq] at hq
    exact ⟨q, hq, .kept e⟩
  · rw [heq] at hq
    exact markWorkerDead_origin hq e

theorem setState_origin {c c' : Coordinator} {k key : FragmentationPlanId}
    {p p' q : RemediationPlan} {e : Event} (hp : c.plans.find? key = some p)
    (hplans : c'.plans = c.plans.insert key p') (hstep : key = k → PlanStep c k p e p')
    (hq : c'.plans.find? k = some q) :
    ∃ p, c.plans.find? k = some p ∧ PlanStep c k p e q := by
  rw [hplans, OrdMap.find?_insert] at hq
  by_cases hk : k = key
  · rw [if_pos hk] at hq
    cases hq
    exact ⟨p, hk ▸ hp, hstep hk.symm⟩
  · rw [if_neg hk] at hq
    exact ⟨q, hq, .kept e⟩

theorem Consistent.plan_origin_handle {c : Coordinator} (h : c.Consistent)
    {k : FragmentationPlanId} {q : RemediationPlan} {fs : Codec.SaveOutcome} {m : Message}
    (hq : (handle fs c m).1.plans.find? k = some q) :
    (∃ p, c.plans.find? k = some p ∧ PlanStep c k p (.message fs m) q) ∨
      Introduced c k (.message fs m) q := by
  have he := h.handle_effect fs m
  generalize handle fs c m = o at he hq
  cases he with
  | registered _ _ => exact Or.inl (register_origin hq _)
  | planned htype hplan =>
      rename_i plan
      change (c.plans.insert plan.id _).find? k = some q at hq
      rw [OrdMap.find?_insert] at hq
      by_cases hk : k = plan.id
      · rw [if_pos hk] at hq
        cases hq
        exact Or.inr (.planned htype hplan hk.symm)
      · rw [if_neg hk] at hq
        exact Or.inl ⟨q, hq, .kept _⟩
  | approved htype hp hstate hpolicy =>
      exact Or.inl (setState_origin hp rfl (fun hk => .approved htype hk hstate hpolicy) hq)
  | began htype hp hstate hexec hindex =>
      exact Or.inl (setState_origin hp rfl (fun hk => .began htype hk hstate hexec hindex) hq)
  | skipped htype hp hstate _ _ =>
      exact Or.inl (setState_origin hp rfl (fun hk => .completed htype hk hstate) hq)
  | completed htype hp hstate _ _ _ _ _ =>
      exact Or.inl (setState_origin hp rfl (fun hk => .completed htype hk hstate) hq)
  | verified htype hp hstate _ _ =>
      exact Or.inl (setState_origin hp rfl (fun hk => .verified _ htype hk hstate) hq)
  | cancelled htype hp => exact Or.inl (setState_origin hp rfl (fun hk => .cancelled htype hk) hq)
  | revalidated htype hp =>
      exact Or.inl (setState_origin hp rfl (fun hk => .revalidated htype hk) hq)
  | advanced _ _ =>
      change (c.advance _).plans.find? k = some q at hq
      rw [advance_plans] at hq
      exact Or.inl ⟨q, hq, .kept _⟩
  | _ => exact Or.inl ⟨q, hq, .kept _⟩

/-- A plan found after an event is one found before it, after one of its steps, or was
introduced by the event. -/
theorem Consistent.plan_origin {c : Coordinator} (h : c.Consistent) {e : Event}
    {k : FragmentationPlanId} {q : RemediationPlan} (hq : (c.step e).plans.find? k = some q) :
    (∃ p, c.plans.find? k = some p ∧ PlanStep c k p e q) ∨ Introduced c k e q := by
  cases e with
  | message fs m => exact h.plan_origin_handle hq
  | workerDead w => exact Or.inl (markWorkerDead_origin hq _)
  | recover st =>
      rcases (restored_recover c st).origin hq with hold | ⟨pp, hmem, hpp⟩
      · exact Or.inl ⟨q, hold, .kept _⟩
      · exact Or.inr (.restored hmem hpp)
  | advancePolicy => exact Or.inl ⟨q, hq, .kept _⟩

/-- The same at the end of a run. -/
theorem plan_origin_snoc {epoch : CoordinatorEpoch} {events : List Event} {e : Event}
    {k : FragmentationPlanId} {q : RemediationPlan}
    (hq : (runFrom step (new epoch) (events ++ [e])).plans.find? k = some q) :
    (∃ p, (runFrom step (new epoch) events).plans.find? k = some p ∧
        PlanStep (runFrom step (new epoch) events) k p e q) ∨
      Introduced (runFrom step (new epoch) events) k e q := by
  rw [runFrom_snoc] at hq
  exact (consistent_run epoch events).plan_origin hq

/-- A state in which the coordinator acts on behalf of a plan. -/
def Acting (s : PlanState) : Prop := s = .executing ∨ s = .verifying

/-- A restored plan is in none of the states that depended on live evidence. -/
theorem inFlight_of_restorePlan {pp : PersistedPlan} {p : RemediationPlan}
    (h : restorePlan pp = .ok p) : inFlight p.state = false := by
  simp only [restorePlan, bind_eq_ok, Except.ok.injEq] at h
  obtain ⟨benefit, -, cost, -, risk, -, disruption, -, rfl⟩ := h
  dsimp only
  by_cases hf : inFlight pp.state = true
  · rw [if_pos hf]
    rfl
  · rw [if_neg hf]
    simpa using hf

/-- A plan just introduced is not acted for. -/
theorem Introduced.not_acting {c : Coordinator} {k : FragmentationPlanId} {e : Event}
    {q : RemediationPlan} (h : Introduced c k e q) : ¬ Acting q.state := by
  cases h with
  | planned _ _ _ => simp [Acting]
  | restored _ hpp =>
      have hf := inFlight_of_restorePlan hpp
      rintro (hact | hact)
      · rw [hact] at hf
        cases hf
      · rw [hact] at hf
        cases hf

/-! ## Withdrawn plans -/

/-- The states `can_execute` refuses. -/
def Withdrawn (s : PlanState) : Prop :=
  s = .cancelled ∨ s = .aborted ∨ s = .retired ∨ s = .superseded ∨ s = .blocked ∨
    s = .revalidationRequired

theorem canExecute_eq_true_iff {c : Coordinator} {p : RemediationPlan} {m : Message} :
    c.canExecute p m = true ↔ p.generation.value = m.planGen ∧
      p.policyGeneration = c.policyGeneration ∧ p.epoch = c.epoch ∧ ¬ Withdrawn p.state := by
  unfold canExecute
  by_cases hgen : p.generation.value ≠ m.planGen
  · rw [if_pos hgen]
    simp [hgen]
  · rw [if_neg hgen]
    by_cases hpolicy : p.policyGeneration ≠ c.policyGeneration
    · rw [if_pos hpolicy]
      simp [hpolicy]
    · rw [if_neg hpolicy]
      by_cases hepoch : p.epoch ≠ c.epoch
      · rw [if_pos hepoch]
        simp [hepoch]
      · rw [if_neg hepoch]
        rw [not_not] at hgen hpolicy hepoch
        cases hstate : p.state <;> simp [Withdrawn, hgen, hpolicy, hepoch]

/-- The tests BEGIN_ACTION makes: they read the plan, its state and its own copies of the
policy generation and the epoch, but of the request only the plan generation and the index. -/
def Startable (c : Coordinator) (m : Message) : Prop :=
  ∃ p, c.plans.find? m.planKey = some p ∧ p.state = .approved ∧ c.canExecute p m = true ∧
    m.actionIndex.toNat < p.actions.length

theorem accepted_beginAction_iff {fs : Codec.SaveOutcome} {c : Coordinator} {m : Message}
    (htype : m.type = .beginAction) : Accepted (handle fs c m) ↔ Startable c m := by
  rw [handle_beginAction htype, handleBeginAction, withPlan]
  cases hp : c.plans.find? m.planKey with
  | none => simp [Startable, hp, not_accepted_reject]
  | some p =>
      dsimp only
      by_cases hstate : p.state ≠ .approved
      · rw [if_pos hstate]
        simp [Startable, hp, not_accepted_reject, hstate]
      · rw [if_neg hstate]
        cases hexec : c.canExecute p m with
        | false => simp [Startable, hp, not_accepted_reject, hexec]
        | true =>
            rw [if_neg (by decide)]
            by_cases hindex : m.actionIndex.toNat ≥ p.actions.length
            · rw [if_pos hindex]
              simp [Startable, hp, not_accepted_reject, hindex]
            · rw [if_neg hindex]
              rw [not_not] at hstate
              simp [Startable, hp, accepted_accept, hstate, hexec, not_le.mp hindex]

/-- The event approves the plan under the id although it has been withdrawn. -/
def Reapproves (k : FragmentationPlanId) (c : Coordinator) : Event → Prop
  | .message _ m => m.type = .approvePlan ∧ m.planKey = k ∧
      ∃ p, c.plans.find? k = some p ∧ Withdrawn p.state ∧ p.state ≠ .superseded ∧
        p.policyGeneration = c.policyGeneration
  | _ => False

/-- A withdrawn plan stays withdrawn over every step that neither approves it again nor
replaces it. -/
theorem PlanStep.withdrawn {c : Coordinator} {k : FragmentationPlanId} {p p' : RemediationPlan}
    {e : Event} (hstep : PlanStep c k p e p') (hp : c.plans.find? k = some p)
    (hw : Withdrawn p.state) (hno : ¬ Reapproves k c e) : Withdrawn p'.state := by
  cases hstep with
  | kept _ => exact hw
  | approved htype hkey hstate hpolicy =>
      exact (hno ⟨htype, hkey, p, hp, hw, hstate, hpolicy⟩).elim
  | began _ _ hstate _ _ =>
      rw [hstate] at hw
      simp [Withdrawn] at hw
  | completed _ _ hstate =>
      rw [hstate] at hw
      simp [Withdrawn] at hw
  | verified _ _ _ hstate =>
      rw [hstate] at hw
      simp [Withdrawn] at hw
  | cancelled _ _ => exact Or.inl rfl
  | revalidated _ _ => simp [Withdrawn]
  | died _ => simp [Withdrawn]

/-- In every run: a plan found withdrawn is not executing at any later point up to which it
is neither replaced nor approved while withdrawn. -/
theorem withdrawn_never_executing (epoch : CoordinatorEpoch) (front back : List Event)
    (k : FragmentationPlanId) (p : RemediationPlan)
    (hp : (runFrom step (new epoch) front).plans.find? k = some p) (hw : Withdrawn p.state)
    (hsame : AllSteps step (fun c e => ¬ Replaces k c e) (runFrom step (new epoch) front) back)
    (hno : AllSteps step (fun c e => ¬ Reapproves k c e) (runFrom step (new epoch) front) back) :
    ∃ q, (runFrom step (new epoch) (front ++ back)).plans.find? k = some q ∧
      Withdrawn q.state ∧ q.state ≠ .executing := by
  have hrun : ∃ q, (runFrom step (new epoch) (front ++ back)).plans.find? k = some q ∧
      Withdrawn q.state := by
    rw [runFrom_append]
    have hcons := consistent_run epoch front
    generalize runFrom step (new epoch) front = c at hp hsame hno hcons
    induction back generalizing c p with
    | nil => exact ⟨p, hp, hw⟩
    | cons e rest ih =>
        obtain ⟨p', hp', hstep⟩ := hcons.plan_step hp hsame.1
        exact ih p' (hstep.withdrawn hp hw hno.1) (c.step e) hp' hsame.2 hno.2 (hcons.step e)
  obtain ⟨q, hq, hwq⟩ := hrun
  refine ⟨q, hq, hwq, ?_⟩
  intro hexec
  rw [hexec] at hwq
  simp [Withdrawn] at hwq

/-! ### One plan over one resource -/

/-- The file system of the runs below; they save nothing. -/
def disk : Codec.SaveOutcome := ⟨true, 0, 0, true⟩

def smallResource : Resource := { id := ⟨1⟩, generation := ⟨1⟩, capacity := ⟨100⟩ }

/-- A releasable allocation of half the resource. -/
def scratch : Allocation := { id := ⟨1⟩, length := ⟨50⟩, movability := .releaseable }

/-- The demand for the whole resource, which fits once `scratch` is released. -/
def wholeResource : WorkloadDemand := { perDeviceMemory := ⟨100⟩ }

/-- Worker 1 publishes its resource and allocation, and plan 1 is created. -/
def plannedRun : List Event :=
  [.register 1 1, .publishResource 1 1 smallResource,
    .publishAllocation 1 1 smallResource scratch, .createPlan wholeResource].map (.message disk)

/-- Plan 1 is then cancelled. -/
def cancelledRun : List Event := plannedRun ++ [.message disk (.cancelPlan 1)]

/-- A beginning of the cancelled plan, without a new approval, is refused. -/
theorem withdrawn_never_executing_cancelledRun :
    ∃ p, (runFrom step (new ⟨1⟩) cancelledRun).plans.find? ⟨1⟩ = some p ∧ Withdrawn p.state ∧
      ∃ q, (runFrom step (new ⟨1⟩)
          (cancelledRun ++ [.message disk (.beginAction 1 0)])).plans.find? ⟨1⟩ = some q ∧
        Withdrawn q.state ∧ q.state ≠ .executing := by
  have hstate : (((runFrom step (new ⟨1⟩) cancelledRun).plans.find? ⟨1⟩).map
      (fun p => p.state)) = some .cancelled := by decide +kernel
  obtain ⟨p, hp, hs⟩ := Option.map_eq_some_iff.mp hstate
  have hw : Withdrawn p.state := Or.inl hs
  refine ⟨p, hp, hw, ?_⟩
  refine withdrawn_never_executing ⟨1⟩ cancelledRun _ ⟨1⟩ p hp hw ⟨?_, allSteps_nil⟩
    ⟨?_, allSteps_nil⟩
  · intro hrep
    cases hrep.1
  · intro hre
    cases hre.1

/-- Plan 1 is approved and begun after all. -/
def revived : List Event := [.message disk (.approvePlan 1), .message disk (.beginAction 1 0)]

/-- A cancelled plan is approved and begun again. -/
theorem cancelled_plan_executes :
    ¬ ∀ (epoch : CoordinatorEpoch) (front back : List Event) (k : FragmentationPlanId)
      (p q : RemediationPlan), (runFrom step (new epoch) front).plans.find? k = some p →
      Withdrawn p.state →
      AllSteps step (fun c e => ¬ Replaces k c e) (runFrom step (new epoch) front) back →
      (runFrom step (new epoch) (front ++ back)).plans.find? k = some q →
      q.state ≠ .executing := by
  intro h
  have hstate : (((runFrom step (new ⟨1⟩) cancelledRun).plans.find? ⟨1⟩).map
      (fun p => p.state)) = some .cancelled := by decide +kernel
  have hlater : (((runFrom step (new ⟨1⟩) (cancelledRun ++ revived)).plans.find? ⟨1⟩).map
      (fun p => p.state)) = some .executing := by decide +kernel
  obtain ⟨p, hp, hs⟩ := Option.map_eq_some_iff.mp hstate
  obtain ⟨q, hq, hexec⟩ := Option.map_eq_some_iff.mp hlater
  refine h ⟨1⟩ cancelledRun revived ⟨1⟩ p q hp (Or.inl hs) ⟨?_, ?_, allSteps_nil⟩ hq hexec
  · intro hrep
    cases hrep.1
  · intro hrep
    cases hrep.1

end FragmentationGovernor.Coordinator
