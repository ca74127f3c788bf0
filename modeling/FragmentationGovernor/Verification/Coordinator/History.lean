import FragmentationGovernor.Verification.Coordinator.Execution

/-! # The history of a verdict

A plan that is completed, partially completed or failed was approved, begun, completed and
verified, in this order and with nothing done to it in between. -/

namespace FragmentationGovernor.Coordinator

/-- The states a verification ends in, other than a revalidation. -/
def Judged (s : PlanState) : Prop :=
  s = .completed ∨ s = .partiallyCompleted ∨ s = .failed

/-- The events start with an accepted message of the type for the plan stored under `k`, and
from then on the plan is `p`. -/
def Settles (t : MsgType) (k : FragmentationPlanId) (p : RemediationPlan) (c : Coordinator)
    (events : List Event) : Prop :=
  ∃ fs m rest, events = .message fs m :: rest ∧ m.type = t ∧ m.planKey = k ∧
    Accepted (handle fs c m) ∧
    AllSteps step (fun c e => (c.step e).plans.find? k = some p) c events

section History

variable {epoch : CoordinatorEpoch} {events : List Event} {k : FragmentationPlanId}
  {p q : RemediationPlan} {c : Coordinator}

/-- Only an accepted message changes a plan. -/
theorem Consistent.accepted_of_changed (h : c.Consistent) {fs : Codec.SaveOutcome} {m : Message}
    (hne : (handle fs c m).1.plans.find? k ≠ c.plans.find? k) : Accepted (handle fs c m) := by
  have he := h.handle_effect fs m
  generalize handle fs c m = o at he hne ⊢
  cases he with
  | silent _ => exact absurd rfl hne
  | rejected _ => exact absurd rfl hne
  | raised _ => exact absurd rfl hne
  | planRaised _ _ => exact absurd rfl hne
  | planRefused _ _ => exact absurd rfl hne
  | answered _ hok => exact ⟨_, rfl, hok⟩
  | _ => exact ⟨_, rfl, rfl⟩

/-- The last change of a stored plan, by a step of the plan or its introduction. -/
theorem exists_last_step (hp : (runFrom step (new epoch) events).plans.find? k = some p) :
    ∃ front e back, events = front ++ e :: back ∧
      AllSteps step (fun c e => (c.step e).plans.find? k = some p)
        (runFrom step (new epoch) front) (e :: back) ∧
      ((∃ q, (runFrom step (new epoch) front).plans.find? k = some q ∧ q ≠ p ∧
          PlanStep (runFrom step (new epoch) front) k q e p) ∨
        Introduced (runFrom step (new epoch) front) k e p) := by
  have hnew : (new epoch).plans.find? k ≠ some p := by
    intro h
    cases h
  obtain ⟨front, e, back, hsplit, hne, hall⟩ :=
    exists_last_change (f := fun c : Coordinator => c.plans.find? k) hnew hp
  refine ⟨front, e, back, hsplit, hall, ?_⟩
  rcases (consistent_run epoch front).plan_origin hall.1 with ⟨q, hq, hstep⟩ | hintro
  · refine Or.inl ⟨q, hq, ?_, hstep⟩
    rintro rfl
    exact hne hq
  · exact Or.inr hintro

/-- A step of the plan by a message is the start of its next state. -/
theorem settles_of_step {front rest : List Event} {fs : Codec.SaveOutcome} {m : Message}
    (hq : (runFrom step (new epoch) front).plans.find? k = some q) (hne : q ≠ p)
    (hkey : m.planKey = k)
    (hall : AllSteps step (fun c e => (c.step e).plans.find? k = some p)
      (runFrom step (new epoch) front) (.message fs m :: rest)) :
    Settles m.type k p (runFrom step (new epoch) front) (.message fs m :: rest) := by
  refine ⟨fs, m, rest, rfl, rfl, hkey, ?_, hall⟩
  refine (consistent_run epoch front).accepted_of_changed (k := k) ?_
  have hafter : (handle fs (runFrom step (new epoch) front) m).1.plans.find? k = some p := hall.1
  rw [hafter, hq]
  exact fun heq => hne (Option.some.inj heq).symm

/-- An approved plan was approved by a message. -/
theorem approved_history (hp : (runFrom step (new epoch) events).plans.find? k = some p)
    (hstate : p.state = .approved) :
    ∃ front back, events = front ++ back ∧
      Settles .approvePlan k p (runFrom step (new epoch) front) back := by
  obtain ⟨front, e, back, hsplit, hall, hlast⟩ := exists_last_step hp
  refine ⟨front, e :: back, hsplit, ?_⟩
  rcases hlast with ⟨q, hq, hne, hstep⟩ | hintro
  · cases hstep with
    | kept _ => exact absurd rfl hne
    | approved htype hkey _ _ => exact htype ▸ settles_of_step hq hne hkey hall
    | verified outcome _ _ _ => cases outcome <;> cases hstate
    | _ => cases hstate
  · cases hintro with
    | planned _ _ _ => cases hstate
    | restored _ hpp =>
        have hf := inFlight_of_restorePlan hpp
        rw [hstate] at hf
        cases hf

/-- An executing plan was approved and begun. -/
theorem executing_history (hp : (runFrom step (new epoch) events).plans.find? k = some p)
    (hstate : p.state = .executing) :
    ∃ front back, events = front ++ back ∧
      Settles .beginAction k p (runFrom step (new epoch) front) back ∧
      ∃ q, (runFrom step (new epoch) front).plans.find? k = some q ∧ q.state = .approved ∧
        p = { q with state := .executing } := by
  obtain ⟨front, e, back, hsplit, hall, hlast⟩ := exists_last_step hp
  refine ⟨front, e :: back, hsplit, ?_⟩
  rcases hlast with ⟨q, hq, hne, hstep⟩ | hintro
  · cases hstep with
    | kept _ => exact absurd rfl hne
    | began htype hkey hbefore _ _ =>
        exact ⟨htype ▸ settles_of_step hq hne hkey hall, q, hq, hbefore, rfl⟩
    | verified outcome _ _ _ => exact absurd hstate (stateAfter_not_acting outcome).1
    | _ => cases hstate
  · exact absurd (Or.inl hstate) hintro.not_acting

/-- A plan to be verified was executing and completed. -/
theorem verifying_history (hp : (runFrom step (new epoch) events).plans.find? k = some p)
    (hstate : p.state = .verifying) :
    ∃ front back, events = front ++ back ∧
      Settles .actionComplete k p (runFrom step (new epoch) front) back ∧
      ∃ q, (runFrom step (new epoch) front).plans.find? k = some q ∧ q.state = .executing ∧
        p = { q with state := .verifying } := by
  obtain ⟨front, e, back, hsplit, hall, hlast⟩ := exists_last_step hp
  refine ⟨front, e :: back, hsplit, ?_⟩
  rcases hlast with ⟨q, hq, hne, hstep⟩ | hintro
  · cases hstep with
    | kept _ => exact absurd rfl hne
    | completed htype hkey hbefore =>
        exact ⟨htype ▸ settles_of_step hq hne hkey hall, q, hq, hbefore, rfl⟩
    | verified outcome _ _ _ => exact absurd hstate (stateAfter_not_acting outcome).2
    | _ => cases hstate
  · exact absurd (Or.inr hstate) hintro.not_acting

/-- The verdict on a plan comes from a verification, or the plan was restored with it. -/
theorem judged_history (hp : (runFrom step (new epoch) events).plans.find? k = some p)
    (hstate : Judged p.state) :
    (∃ front st back pp, events = front ++ .recover st :: back ∧ pp ∈ st.plans ∧
        restorePlan pp = .ok p ∧
        AllSteps step (fun c e => (c.step e).plans.find? k = some p)
          (runFrom step (new epoch) front) (.recover st :: back)) ∨
      ∃ front back, events = front ++ back ∧
        Settles .verify k p (runFrom step (new epoch) front) back ∧
        ∃ q outcome, (runFrom step (new epoch) front).plans.find? k = some q ∧
          q.state = .verifying ∧
          p = { q with verification := some outcome, state := stateAfter outcome } := by
  obtain ⟨front, e, back, hsplit, hall, hlast⟩ := exists_last_step hp
  rcases hlast with ⟨q, hq, hne, hstep⟩ | hintro
  · refine Or.inr ⟨front, e :: back, hsplit, ?_⟩
    cases hstep with
    | kept _ => exact absurd rfl hne
    | verified outcome htype hkey hbefore =>
        exact ⟨htype ▸ settles_of_step hq hne hkey hall, q, outcome, hq, hbefore, rfl⟩
    | _ => exact absurd hstate (by simp [Judged])
  · cases hintro with
    | planned _ _ _ => exact absurd hstate (by simp [Judged])
    | restored hmem hpp => exact Or.inl ⟨front, _, back, _, hsplit, hmem, hpp, hall⟩

/-- What an accepted VERIFY stores is what the verification found. -/
theorem Settles.verified (h : Settles .verify k p c events) (hq : c.plans.find? k = some q) :
    ∃ before v, c.beforeSnapshots.find? k = some before ∧
      verifyRemediation before c.assembleSnapshot c.lastDemand q = .ok v ∧
      p.verification = some v.outcome := by
  obtain ⟨fs, m, rest, rfl, htype, rfl, ⟨reply, hreply, hok⟩, hall⟩ := h
  obtain ⟨q', before, v, hq', hbefore, hv, -, hstored⟩ := verify_accepted htype hreply hok
  rw [hq] at hq'
  cases hq'
  have hafter : (handle fs c m).1.plans.find? m.planKey = some p := hall.1
  rw [hafter, Option.map_some, Option.some.injEq] at hstored
  exact ⟨before, v, hbefore, hv, hstored⟩

/-! ## The snapshot a plan was created from -/

/-- The event is a CREATE_PLAN that is accepted and stores its plan under `k`. -/
def Creates (k : FragmentationPlanId) (c : Coordinator) (e : Event) : Prop :=
  ∃ fs m reply, e = .message fs m ∧ Created fs c m reply ∧ reply.plan.id = k

theorem Creates.of_replaces {fs : Codec.SaveOutcome} {m : Message}
    (h : Replaces k c (.message fs m)) : Creates k c (.message fs m) := by
  obtain ⟨htype, ⟨reply, hreply, hok⟩, hk⟩ := h
  have hcreated : Created fs c m reply := ⟨htype, hreply, hok⟩
  obtain ⟨plan, hplan, -, heq⟩ := hcreated.adopted
  refine ⟨fs, m, reply, rfl, hcreated, ?_⟩
  rw [heq, hk, ← proposePlan_id hplan]

theorem Consistent.beforeSnapshot_of_not_creates (h : c.Consistent) {e : Event}
    (hnew : ¬ Creates k c e) :
    (c.step e).beforeSnapshots.find? k = c.beforeSnapshots.find? k := by
  cases e with
  | message fs m => exact h.beforeSnapshot_step (fun hrep => hnew (.of_replaces hrep))
  | recover st => exact congrArg (·.find? k) (sameCapture_recover c st).beforeSnapshots
  | workerDead w => rfl
  | advancePolicy => rfl

/-- A stored snapshot is the one the last CREATE_PLAN under its id was answered from. -/
theorem snapshot_history {before : FragmentationSnapshot}
    (hb : (runFrom step (new epoch) events).beforeSnapshots.find? k = some before) :
    ∃ front e back, events = front ++ e :: back ∧ Creates k (runFrom step (new epoch) front) e ∧
      before = (runFrom step (new epoch) front).assembleSnapshot ∧
      AllSteps step (fun c e => ¬ Creates k c e) (runFrom step (new epoch) (front ++ [e]))
        back := by
  induction events using List.reverseRecOn with
  | nil => cases hb
  | append_singleton events e ih =>
      rw [runFrom_snoc] at hb
      by_cases hnew : Creates k (runFrom step (new epoch) events) e
      · refine ⟨events, e, [], rfl, hnew, ?_, trivial⟩
        obtain ⟨fs, m, reply, rfl, hcreated, hid⟩ := hnew
        have hstored := hcreated.stored.2.1
        rw [hid] at hstored
        exact Option.some.inj (hb.symm.trans hstored)
      · rw [(consistent_run epoch events).beforeSnapshot_of_not_creates hnew] at hb
        obtain ⟨front, e', back, rfl, hcreates, hbefore, hsince⟩ := ih hb
        refine ⟨front, e', back ++ [e], by simp, hcreates, hbefore, ?_⟩
        rw [allSteps_append, ← runFrom_append]
        refine ⟨hsince, ?_, trivial⟩
        rwa [List.append_assoc, List.singleton_append]

/-- While a plan is not ready, its snapshot is not replaced. -/
theorem Settles.beforeSnapshot {t : MsgType} (h : Settles t k p c events) (hc : c.Consistent)
    (hstate : p.state ≠ .planReady) :
    (runFrom step c events).beforeSnapshots.find? k = c.beforeSnapshots.find? k := by
  obtain ⟨-, -, -, -, -, -, -, hall⟩ := h
  induction events generalizing c with
  | nil => rfl
  | cons e rest ih =>
      rw [runFrom_cons, ih (hc.step e) hall.2]
      refine hc.beforeSnapshot_of_not_creates ?_
      rintro ⟨fs, m, reply, rfl, hcreated, rfl⟩
      obtain ⟨plan, -, -, hplan⟩ := hcreated.adopted
      have hafter : (handle fs c m).1.plans.find? reply.plan.id = some p := hall.1
      rw [hcreated.stored.1] at hafter
      cases hafter
      exact hstate (congrArg (fun q => q.state) hplan)

end History

/-- After every run: a plan that is completed, partially completed or failed was restored so
from a state file and not touched since, or it was approved, begun, completed and verified by
messages in this order, nothing was done to it in between or since, and its state is the one
that belongs to the outcome of comparing the snapshot at that VERIFY with the snapshot that the
last CREATE_PLAN under its id, before the approval, was answered from. -/
theorem verdict_history (epoch : CoordinatorEpoch) (events : List Event)
    (k : FragmentationPlanId) (p : RemediationPlan)
    (hp : (runFrom step (new epoch) events).plans.find? k = some p) (hstate : Judged p.state) :
    let run := runFrom step (new epoch)
    (∃ front st back pp, events = front ++ .recover st :: back ∧ pp ∈ st.plans ∧
        restorePlan pp = .ok p ∧
        AllSteps step (fun c e => (c.step e).plans.find? k = some p) (run front)
          (.recover st :: back)) ∨
      ∃ (q : RemediationPlan) (e₀ e₁ e₂ e₃ e₄ : List Event) (before : FragmentationSnapshot)
        (v : VerificationResult), events = e₀ ++ e₁ ++ e₂ ++ e₃ ++ e₄ ∧
        Settles .approvePlan k { q with state := .approved } (run e₀) e₁ ∧
        Settles .beginAction k { q with state := .executing } (run (e₀ ++ e₁)) e₂ ∧
        Settles .actionComplete k { q with state := .verifying } (run (e₀ ++ e₁ ++ e₂)) e₃ ∧
        Settles .verify k p (run (e₀ ++ e₁ ++ e₂ ++ e₃)) e₄ ∧
        (run (e₀ ++ e₁ ++ e₂ ++ e₃)).beforeSnapshots.find? k = some before ∧
        (∃ front e back, e₀ = front ++ e :: back ∧ Creates k (run front) e ∧
          before = (run front).assembleSnapshot ∧
          AllSteps step (fun c e => ¬ Creates k c e) (run (front ++ [e])) back) ∧
        verifyRemediation before (run (e₀ ++ e₁ ++ e₂ ++ e₃)).assembleSnapshot
          (run (e₀ ++ e₁ ++ e₂ ++ e₃)).lastDemand { q with state := .verifying } = .ok v ∧
        p = { q with verification := some v.outcome, state := stateAfter v.outcome } := by
  intro run
  rcases judged_history hp hstate with
    hrestored | ⟨e₀₃, e₄, h₄, hverify, p₃, outcome, hp₃, hs₃, rfl⟩
  · exact Or.inl hrestored
  · right
    obtain ⟨e₀₂, e₃, rfl, hcomplete, p₂, hp₂, hs₂, rfl⟩ := verifying_history hp₃ hs₃
    obtain ⟨e₀₁, e₂, rfl, hbegin, p₁, hp₁, hs₁, rfl⟩ := executing_history hp₂ hs₂
    obtain ⟨e₀, e₁, rfl, happrove⟩ := approved_history hp₁ hs₁
    obtain ⟨before, v, hbefore, hv, houtcome⟩ := hverify.verified hp₃
    obtain rfl := Option.some.inj houtcome
    have hq : { p₁ with state := .approved } = p₁ := by
      rw [← hs₁]
    rw [← hq] at happrove
    -- the snapshot found at VERIFY was there before the approval
    have hcaptured : (run e₀).beforeSnapshots.find? k = some before := by
      have hcons : ∀ es, (run es).Consistent := consistent_run epoch
      have hkept₁ := happrove.beforeSnapshot (hcons e₀) (by simp)
      have hkept₂ := hbegin.beforeSnapshot (hcons (e₀ ++ e₁)) (by simp)
      have hkept₃ := hcomplete.beforeSnapshot (hcons (e₀ ++ e₁ ++ e₂)) (by simp)
      rw [← runFrom_append] at hkept₁ hkept₂ hkept₃
      exact (hkept₁.symm.trans (hkept₂.symm.trans hkept₃.symm)).trans hbefore
    exact ⟨p₁, e₀, e₁, e₂, e₃, e₄, before, v, h₄, happrove, hbegin, hcomplete, hverify,
      hbefore, snapshot_history hcaptured, hv, rfl⟩

/-- The history of plan 1 completed. -/
theorem verdict_history_finishedRun :
    ∃ p e₀ e₁ e₂ e₃ e₄, finishedRun ++ [.message disk (.verify 1)] = e₀ ++ e₁ ++ e₂ ++ e₃ ++ e₄ ∧
      Settles .verify ⟨1⟩ p (runFrom step (new ⟨1⟩) (e₀ ++ e₁ ++ e₂ ++ e₃)) e₄ ∧
      p.state = .completed := by
  have hafter : ((runFrom step (new ⟨1⟩) (finishedRun ++ [.message disk (.verify 1)])).plans.find?
      ⟨1⟩).map (fun p => p.state) = some .completed := by decide +kernel
  obtain ⟨p, hp, hstate⟩ := Option.map_eq_some_iff.mp hafter
  rcases verdict_history ⟨1⟩ _ ⟨1⟩ p hp (Or.inl hstate) with
    ⟨front, st, back, pp, hsplit, -⟩ | ⟨q, e₀, e₁, e₂, e₃, e₄, -, -, hsplit, -, -, -, hverify, -⟩
  · have hmem : Event.recover st ∈ finishedRun ++ [.message disk (.verify 1)] := by
      rw [hsplit]
      simp
    simp [finishedRun, begunRun, plannedRun] at hmem
  · exact ⟨p, e₀, e₁, e₂, e₃, e₄, hsplit, hverify, hstate⟩

end FragmentationGovernor.Coordinator
