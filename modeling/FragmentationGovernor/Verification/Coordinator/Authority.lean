import FragmentationGovernor.Verification.Coordinator.Protection

/-! # Authority to execute

Plans carry the epoch and the policy generation they were made under, and requests carry
their own copies. Here is what each of them is worth at the moment it is used. -/

namespace FragmentationGovernor.Coordinator

/-! ## The authority a request carries -/

/-- The tokens of the request are those of the stored plan and of the coordinator. -/
def CarriesCurrent (c : Coordinator) (m : Message) : Prop :=
  (∃ p, c.plans.find? m.planKey = some p ∧ p.generation.value = m.planGen) ∧
    m.policyGen = c.policyGeneration.value ∧ m.epoch = c.epoch.value

/-- After every run: an accepted BEGIN_ACTION carries current authority exactly when its
own policy generation and epoch are current or some test of the plan refuses it. -/
theorem beginAction_authority_iff (epoch : CoordinatorEpoch) (events : List Event)
    (fs : Codec.SaveOutcome) (m : Message) (htype : m.type = .beginAction) :
    (Accepted (handle fs (runFrom step (new epoch) events) m) →
      CarriesCurrent (runFrom step (new epoch) events) m) ↔
      (m.policyGen = (runFrom step (new epoch) events).policyGeneration.value ∧
        m.epoch = (runFrom step (new epoch) events).epoch.value) ∨
      ¬ Startable (runFrom step (new epoch) events) m := by
  generalize runFrom step (new epoch) events = c
  rw [accepted_beginAction_iff htype]
  constructor
  · intro h
    by_cases hstart : Startable c m
    · exact Or.inl (h hstart).2
    · exact Or.inr hstart
  · rintro (hcur | hno) hstart
    · obtain ⟨p, hp, -, hexec, -⟩ := hstart
      exact ⟨⟨p, hp, (canExecute_eq_true_iff.mp hexec).1⟩, hcur⟩
    · exact (hno hstart).elim

/-- Plan 1 of one action waits for its beginning. -/
def approvedRun : List Event := plannedRun ++ [.message disk (.approvePlan 1)]

/-- The beginning of plan 1 with the policy generation and the epoch of the coordinator. -/
def currentBegin : Message := { Message.beginAction 1 0 with policyGen := 1, epoch := 1 }

/-- The condition is met by `currentBegin`. -/
theorem beginAction_authority_iff_currentBegin :
    Startable (runFrom step (new ⟨1⟩) approvedRun) currentBegin ∧
      (Accepted (handle disk (runFrom step (new ⟨1⟩) approvedRun) currentBegin) →
        CarriesCurrent (runFrom step (new ⟨1⟩) approvedRun) currentBegin) := by
  have hacc : Accepted (handle disk (runFrom step (new ⟨1⟩) approvedRun) currentBegin) :=
    accepted_iff.mpr (by decide +kernel)
  refine ⟨(accepted_beginAction_iff rfl).mp hacc, ?_⟩
  exact (beginAction_authority_iff ⟨1⟩ approvedRun disk currentBegin rfl).mpr
    (Or.inl (by decide +kernel))

/-- A beginning under policy generation 7 and epoch 9 is accepted by a coordinator of
policy generation 1 and epoch 1. -/
theorem beginAction_stale_authority :
    ¬ ∀ (epoch : CoordinatorEpoch) (events : List Event) (fs : Codec.SaveOutcome) (m : Message),
      m.type = .beginAction → Accepted (handle fs (runFrom step (new epoch) events) m) →
      CarriesCurrent (runFrom step (new epoch) events) m := by
  intro h
  have hacc : Accepted (handle disk (runFrom step (new ⟨1⟩) approvedRun)
      { Message.beginAction 1 0 with policyGen := 7, epoch := 9 }) :=
    accepted_iff.mpr (by decide +kernel)
  obtain ⟨-, -, hepoch⟩ := h ⟨1⟩ approvedRun disk
    { Message.beginAction 1 0 with policyGen := 7, epoch := 9 } rfl hacc
  revert hepoch
  decide +kernel

/-! ## The epoch fence -/

theorem advance_epoch (c : Coordinator) (kind : ℕ) : (c.advance kind).epoch = c.epoch := by
  unfold advance
  split <;> rfl

theorem dropStale_epoch (c : Coordinator) (m : Message) : (c.dropStale m).epoch = c.epoch := by
  refine dropStale_induction c m ?_ ?_
  · rfl
  · rfl

/-- Nothing changes the epoch of a coordinator. -/
theorem Consistent.epoch_step {c : Coordinator} (h : c.Consistent) (e : Event) :
    (c.step e).epoch = c.epoch := by
  cases e with
  | message fs m =>
      change (handle fs c m).1.epoch = c.epoch
      have he := h.handle_effect fs m
      generalize handle fs c m = o at he
      cases he with
      | registered _ _ => exact dropStale_epoch c m
      | advanced _ _ => exact advance_epoch c _
      | _ => rfl
  | workerDead w => rfl
  | recover st =>
      change (c.recover st).1.epoch = c.epoch
      obtain ⟨plans, -, heq | heq⟩ := recover_cases c st
      · rw [heq]
        rfl
      · rw [heq]
        rfl
  | advancePolicy => rfl

theorem epoch_run (epoch : CoordinatorEpoch) (events : List Event) :
    (runFrom step (new epoch) events).epoch = epoch :=
  @run_invariant (fun c => c.epoch = epoch) epoch rfl
    (fun e hcons h => (hcons.epoch_step e).trans h) events

/-- No plan of another epoch is acted for. -/
def Fenced (c : Coordinator) : Prop :=
  ∀ k p, c.plans.find? k = some p → p.epoch ≠ c.epoch → ¬ Acting p.state

/-- A step into an acting state starts from one, or is a beginning that compared epochs. -/
theorem PlanStep.acting {c : Coordinator} {k : FragmentationPlanId} {p q : RemediationPlan}
    {e : Event} (h : PlanStep c k p e q) (hq : Acting q.state) :
    Acting p.state ∨ p.epoch = c.epoch := by
  rcases hq with hq | hq
  · rcases h.executing hq with rfl | ⟨fs, m, -, -, -, -, hexec, -⟩
    · exact Or.inl (Or.inl hq)
    · exact Or.inr (canExecute_eq_true_iff.mp hexec).2.2.1
  · rcases h.verifying hq with rfl | ⟨fs, m, -, -, -, hstate⟩
    · exact Or.inl (Or.inr hq)
    · exact Or.inl (Or.inl hstate)

theorem Fenced.step {c : Coordinator} (hcons : c.Consistent) (h : c.Fenced) (e : Event) :
    (c.step e).Fenced := by
  intro k q hq hepoch hact
  rw [hcons.epoch_step e] at hepoch
  rcases hcons.plan_origin hq with ⟨p, hp, hstep⟩ | hnew
  · have hsame : q.epoch = p.epoch := by rw [hstep.same]
    rw [hsame] at hepoch
    rcases hstep.acting hact with hp' | hcur
    · exact h k p hp hepoch hp'
    · exact hepoch hcur
  · exact hnew.not_acting hact

theorem fenced_run (epoch : CoordinatorEpoch) (events : List Event) :
    (runFrom step (new epoch) events).Fenced := by
  refine run_invariant ?_ (fun e hcons h => h.step hcons e) events
  intro k p hp
  cases hp

/-- BEGIN_ACTION, ACTION_COMPLETE and VERIFY for a plan of another epoch are refused. -/
theorem Fenced.rejected {c : Coordinator} (h : c.Fenced) {p : RemediationPlan} {m : Message}
    (hp : c.plans.find? m.planKey = some p) (hepoch : p.epoch ≠ c.epoch)
    (htype : m.type = .beginAction ∨ m.type = .actionComplete ∨ m.type = .verify)
    (fs : Codec.SaveOutcome) : ∃ why, handle fs c m = c.reject why := by
  have hno := h m.planKey p hp hepoch
  rcases htype with htype | htype | htype
  · have hexec : c.canExecute p m = false := by
      rw [← Bool.not_eq_true, canExecute_eq_true_iff]
      exact fun hcan => hepoch hcan.2.2.1
    rw [handle_beginAction htype, handleBeginAction, withPlan, hp]
    dsimp only
    by_cases hstate : p.state ≠ .approved
    · rw [if_pos hstate]
      exact ⟨_, rfl⟩
    · rw [if_neg hstate, hexec]
      exact ⟨_, rfl⟩
  · rw [handle_actionComplete htype, handleActionComplete, withPlan, hp]
    dsimp only
    rw [if_pos (fun hstate => hno (Or.inl hstate))]
    exact ⟨_, rfl⟩
  · rw [handle_verify htype, handleVerify, withPlan, hp]
    dsimp only
    rw [if_pos (fun hstate => hno (Or.inr hstate))]
    exact ⟨_, rfl⟩

/-- The messages that name a stored plan. -/
def NamesPlan (m : Message) : Prop :=
  m.type ∈ [MsgType.approvePlan, .beginAction, .actionComplete, .verify, .cancelPlan, .revalidate]

/-- Of the messages that name a plan only an ACTION_COMPLETE touches a layout. -/
theorem Consistent.resources_namesPlan {c : Coordinator} (h : c.Consistent) {m : Message}
    (hnames : NamesPlan m) (htype : m.type ≠ .actionComplete) (fs : Codec.SaveOutcome) :
    (handle fs c m).1.resources = c.resources := by
  have he := h.handle_effect fs m
  generalize handle fs c m = o at he
  cases he with
  | registered hbad _ => simp [NamesPlan, hbad] at hnames
  | publishedResource hbad _ _ => simp [NamesPlan, hbad] at hnames
  | publishedLayout hbad _ _ _ _ _ => simp [NamesPlan, hbad] at hnames
  | publishedAllocation hbad _ _ _ => simp [NamesPlan, hbad] at hnames
  | invalidated hbad _ _ _ _ => simp [NamesPlan, hbad] at hnames
  | completed hbad _ _ _ _ _ _ _ => exact (htype hbad).elim
  | advanced _ _ => exact (sameEvidence_advance c _).resources
  | _ => rfl

/-- After a recovery and any further events, a plan of another epoch is neither executing
nor verifying, its beginning, completion and verification are refused, and no message that
names it changes a layout. -/
theorem foreign_epoch_fenced (epoch : CoordinatorEpoch) (st : PersistedState)
    (events : List Event) (k : FragmentationPlanId) (p : RemediationPlan)
    (hp : (runFrom step (new epoch) (.recover st :: events)).plans.find? k = some p)
    (hepoch : p.epoch ≠ epoch) :
    p.state ≠ .executing ∧ p.state ≠ .verifying ∧
      (∀ fs m, m.planKey = k →
        m.type = .beginAction ∨ m.type = .actionComplete ∨ m.type = .verify →
        ∃ why, handle fs (runFrom step (new epoch) (.recover st :: events)) m =
          (runFrom step (new epoch) (.recover st :: events)).reject why) ∧
      ∀ fs m, m.planKey = k → NamesPlan m →
        (handle fs (runFrom step (new epoch) (.recover st :: events)) m).1.resources =
          (runFrom step (new epoch) (.recover st :: events)).resources := by
  have hcons := consistent_run epoch (.recover st :: events)
  have hfenced := fenced_run epoch (.recover st :: events)
  rw [← epoch_run epoch (.recover st :: events)] at hepoch
  generalize runFrom step (new epoch) (.recover st :: events) = c at hp hepoch hcons hfenced ⊢
  have hno := hfenced k p hp hepoch
  refine ⟨fun hs => hno (Or.inl hs), fun hs => hno (Or.inr hs), ?_, ?_⟩
  · intro fs m hkey htype
    exact hfenced.rejected (hkey ▸ hp) hepoch htype fs
  · intro fs m hkey hnames
    by_cases htype : m.type = .actionComplete
    · obtain ⟨why, heq⟩ := hfenced.rejected (hkey ▸ hp) hepoch (Or.inr (Or.inl htype)) fs
      rw [heq]
      rfl
    · exact hcons.resources_namesPlan hnames htype fs

/-- A plan that was executing under epoch 1 when it was saved. -/
def savedState : PersistedState where
  plans := [{ id := ⟨4⟩, generation := ⟨4⟩, state := .executing, policyGeneration := ⟨1⟩,
              epoch := ⟨1⟩, actionKinds := [.releaseUnused] }]
  resourceGeneration := ⟨3⟩
  allocationGeneration := ⟨3⟩
  reservationGeneration := ⟨1⟩
  policyGeneration := ⟨1⟩
  epoch := ⟨1⟩
  nextPlanId := 5

/-- The coordinator restarts under epoch 2 and the recovered plan is approved again. -/
theorem foreign_epoch_fenced_savedState :
    ((new ⟨2⟩).recover savedState).2.isOk = true ∧
    ∃ p, (runFrom step (new ⟨2⟩)
        (.recover savedState :: [.message disk (.approvePlan 4)])).plans.find? ⟨4⟩ = some p ∧
      p.state = .approved ∧ p.epoch ≠ ⟨2⟩ ∧ p.state ≠ .executing ∧
      ∃ why, handle disk (runFrom step (new ⟨2⟩)
          (.recover savedState :: [.message disk (.approvePlan 4)])) (.beginAction 4 0) =
        (runFrom step (new ⟨2⟩)
          (.recover savedState :: [.message disk (.approvePlan 4)])).reject why := by
  have heval : ((runFrom step (new ⟨2⟩) (.recover savedState ::
      [.message disk (.approvePlan 4)])).plans.find? ⟨4⟩).map (fun p => (p.state, p.epoch)) =
      some (.approved, ⟨1⟩) := by decide +kernel
  obtain ⟨p, hp, hfields⟩ := Option.map_eq_some_iff.mp heval
  simp only [Prod.mk.injEq] at hfields
  have hepoch : p.epoch ≠ ⟨2⟩ := by
    rw [hfields.2]
    decide
  obtain ⟨hexec, -, hrejected, -⟩ := foreign_epoch_fenced ⟨2⟩ savedState
    [.message disk (.approvePlan 4)] ⟨4⟩ p hp hepoch
  exact ⟨by decide +kernel, p, hp, hfields.1, hepoch, hexec,
    hrejected disk (.beginAction 4 0) rfl (Or.inl rfl)⟩

end FragmentationGovernor.Coordinator
