import FragmentationGovernor.Verification.Coordinator.Authority

/-! # The policy generation

The coordinator keeps its policy generation twice and advances it through two entry points.
Plans are compared with it at their approval and beginning only. -/

namespace FragmentationGovernor.Coordinator

/-! ## What moves it -/

/-- The event gives the coordinator another policy generation. -/
def MovesPolicy (c : Coordinator) : Event → Prop
  | .message _ m => m.type = .advanceGeneration ∧ m.generationKind.toNat = 2 ∧
      c.generations.policyGeneration.next ≠ c.policyGeneration
  | .workerDead _ => False
  | .recover st => st.policyGeneration ≠ c.policyGeneration
  | .advancePolicy => c.policyGeneration.next ≠ c.policyGeneration

/-- Both copies of the policy generation are the same in the two coordinators. -/
structure SamePolicy (c c' : Coordinator) : Prop where
  own : c'.policyGeneration = c.policyGeneration
  known : c'.generations.policyGeneration = c.generations.policyGeneration

theorem samePolicy_dropStale (c : Coordinator) (m : Message) :
    SamePolicy c (c.dropStale m) := by
  refine dropStale_induction c m ?_ ?_
  · exact ⟨rfl, rfl⟩
  · exact ⟨rfl, rfl⟩

/-- A message leaves both copies alone, or is an ADVANCE_GENERATION that sets both to the
successor of the second. -/
theorem Consistent.policy_handle {c : Coordinator} (h : c.Consistent) (fs : Codec.SaveOutcome)
    (m : Message) :
    SamePolicy c (handle fs c m).1 ∨
      (m.type = .advanceGeneration ∧ m.generationKind.toNat = 2 ∧
        (handle fs c m).1.policyGeneration = c.generations.policyGeneration.next ∧
        (handle fs c m).1.generations.policyGeneration = c.generations.policyGeneration.next) := by
  have he := h.handle_effect fs m
  generalize handle fs c m = o at he
  cases he with
  | registered _ _ =>
      have hdrop := samePolicy_dropStale c m
      exact Or.inl ⟨hdrop.own, hdrop.known⟩
  | advanced htype hkind =>
      change SamePolicy c (c.advance _) ∨ _ ∧ _ ∧ (c.advance _).policyGeneration = _ ∧
        (c.advance _).generations.policyGeneration = _
      interval_cases hk : m.generationKind.toNat
      · exact Or.inl ⟨rfl, rfl⟩
      · exact Or.inl ⟨rfl, rfl⟩
      · exact Or.inr ⟨htype, rfl, rfl, rfl⟩
  | _ => exact Or.inl ⟨rfl, rfl⟩

theorem recover_policy (c : Coordinator) (st : PersistedState) :
    (c.recover st).1.policyGeneration = st.policyGeneration ∧
      (c.recover st).1.generations.policyGeneration = st.policyGeneration := by
  obtain ⟨plans, -, heq | heq⟩ := recover_cases c st
  · rw [heq]
    exact ⟨rfl, rfl⟩
  · rw [heq]
    exact ⟨rfl, rfl⟩

theorem Consistent.policy_step {c : Coordinator} (h : c.Consistent) {e : Event}
    (hno : ¬ MovesPolicy c e) : (c.step e).policyGeneration = c.policyGeneration := by
  cases e with
  | message fs m =>
      rcases h.policy_handle fs m with hsame | ⟨htype, hkind, hnext, -⟩
      · exact hsame.own
      · by_contra hne
        refine hno ⟨htype, hkind, ?_⟩
        rw [← hnext]
        exact hne
  | workerDead w => rfl
  | recover st => exact (recover_policy c st).1.trans (not_not.mp hno)
  | advancePolicy => exact not_not.mp hno

/-! ## Policy and completion -/

/-- The event moves the policy generation while the plan is executing. -/
def Overtakes (k : FragmentationPlanId) (c : Coordinator) (e : Event) : Prop :=
  MovesPolicy c e ∧ ∃ p, c.plans.find? k = some p ∧ p.state = .executing

/-- While the plan is executing, its policy generation is the coordinator's. -/
def PolicyBound (k : FragmentationPlanId) (c : Coordinator) : Prop :=
  ∀ p, c.plans.find? k = some p → p.state = .executing → p.policyGeneration = c.policyGeneration

theorem PolicyBound.step {k : FragmentationPlanId} {c : Coordinator} (hcons : c.Consistent)
    (h : PolicyBound k c) {e : Event} (hno : ¬ Overtakes k c e) : PolicyBound k (c.step e) := by
  intro q hq hexec
  rcases hcons.plan_origin hq with ⟨p, hp, hstep⟩ | hnew
  · rcases hstep.executing hexec with rfl | ⟨fs, m, rfl, htype, -, -, hcan, -⟩
    · have hmoves : ¬ MovesPolicy c e := fun hm => hno ⟨hm, q, hp, hexec⟩
      rw [hcons.policy_step hmoves]
      exact h q hp hexec
    · have hmoves : ¬ MovesPolicy c (.message fs m) := by
        intro hm
        have hadvance := hm.1
        rw [htype] at hadvance
        cases hadvance
      have hsame : q.policyGeneration = p.policyGeneration := by rw [hstep.same]
      rw [hcons.policy_step hmoves, hsame]
      exact (canExecute_eq_true_iff.mp hcan).2.1
  · exact (hnew.not_acting (Or.inl hexec)).elim

/-- Handling the message changes the layout of some resource. -/
def ChangesLayout (fs : Codec.SaveOutcome) (c : Coordinator) (m : Message) : Prop :=
  ∃ rid, ((handle fs c m).1.resources.find? rid).map (fun rec => rec.layout) ≠
    (c.resources.find? rid).map (fun rec => rec.layout)

theorem executing_of_changesLayout {fs : Codec.SaveOutcome} {c : Coordinator} {m : Message}
    (htype : m.type = .actionComplete) (h : ChangesLayout fs c m) :
    ∃ p, c.plans.find? m.planKey = some p ∧ p.state = .executing := by
  obtain ⟨rid, hne⟩ := h
  rw [handle_actionComplete htype, handleActionComplete, withPlan] at hne
  cases hp : c.plans.find? m.planKey with
  | none =>
      rw [hp] at hne
      exact (hne rfl).elim
  | some p =>
      rw [hp] at hne
      dsimp only at hne
      by_cases hstate : p.state ≠ .executing
      · rw [if_pos hstate] at hne
        exact (hne rfl).elim
      · exact ⟨p, rfl, not_not.mp hstate⟩

/-- In every run in which the policy generation does not move while plan `k` is executing:
an ACTION_COMPLETE for it that changes a layout finds its policy generation current. -/
theorem completion_policy_current (epoch : CoordinatorEpoch) (events : List Event)
    (k : FragmentationPlanId)
    (hno : AllSteps step (fun c e => ¬ Overtakes k c e) (new epoch) events)
    (fs : Codec.SaveOutcome) (m : Message) (htype : m.type = .actionComplete)
    (hkey : m.planKey = k) (hchange : ChangesLayout fs (runFrom step (new epoch) events) m) :
    ∃ p, (runFrom step (new epoch) events).plans.find? k = some p ∧
      p.policyGeneration = (runFrom step (new epoch) events).policyGeneration := by
  have hbound : PolicyBound k (runFrom step (new epoch) events) := by
    refine run_induction ?_ (fun hcons h hstep => h.step hcons hstep) hno
    intro p hp
    cases hp
  obtain ⟨p, hp, hexec⟩ := executing_of_changesLayout htype hchange
  rw [hkey] at hp
  exact ⟨p, hp, hbound p hp hexec⟩

theorem changesLayout_of_removes {fs : Codec.SaveOutcome} {c : Coordinator} {m : Message}
    {rid : ResourceId} {a : Allocation} (h : Removes fs c m rid a) : ChangesLayout fs c m := by
  obtain ⟨rec, rec', id, hrec, ha, hrec', hnone⟩ := h
  refine ⟨rid, ?_⟩
  rw [hrec, hrec', Option.map_some, Option.map_some]
  intro hsame
  rw [Option.some.inj hsame, ha] at hnone
  cases hnone

/-- The completion of plan 1 in a run that leaves the policy alone. -/
theorem completion_policy_current_begunRun :
    ChangesLayout disk (runFrom step (new ⟨1⟩) begunRun) (.actionComplete 1 0) ∧
      ∃ p, (runFrom step (new ⟨1⟩) begunRun).plans.find? ⟨1⟩ = some p ∧
        p.policyGeneration = (runFrom step (new ⟨1⟩) begunRun).policyGeneration := by
  have hrem : Removes disk (runFrom step (new ⟨1⟩) begunRun) (.actionComplete 1 0) ⟨1⟩ scratch :=
    @removes_of_eval _ _ _ _ ⟨1⟩ _ (by decide +kernel) (by decide +kernel)
  have hchange := changesLayout_of_removes hrem
  refine ⟨hchange, completion_policy_current ⟨1⟩ begunRun ⟨1⟩ ?_ disk (.actionComplete 1 0) rfl rfl
    hchange⟩
  refine ⟨?_, ?_, ?_, ?_, ?_, ?_, allSteps_nil⟩
  all_goals
    intro hover
    cases hover.1.1

/-- An ADVANCE_GENERATION of the policy. -/
def advancePolicyMessage : Message := { type := .advanceGeneration, generationKind := 2 }

/-- The policy is advanced between the beginning and the completion of plan 1. -/
def overtakenRun : List Event := begunRun ++ [.message disk advancePolicyMessage]

/-- The completion of plan 1 still removes `scratch`, under a policy generation that is no
longer the coordinator's. -/
theorem completion_policy_stale :
    ¬ ∀ (epoch : CoordinatorEpoch) (events : List Event) (fs : Codec.SaveOutcome) (m : Message),
      m.type = .actionComplete → ChangesLayout fs (runFrom step (new epoch) events) m →
      ∃ p, (runFrom step (new epoch) events).plans.find? m.planKey = some p ∧
        p.policyGeneration = (runFrom step (new epoch) events).policyGeneration := by
  intro h
  have hrem : Removes disk (runFrom step (new ⟨1⟩) overtakenRun) (.actionComplete 1 0) ⟨1⟩
      scratch :=
    @removes_of_eval _ _ _ _ ⟨1⟩ _ (by decide +kernel) (by decide +kernel)
  obtain ⟨p, hp, hpolicy⟩ := h ⟨1⟩ overtakenRun disk (.actionComplete 1 0) rfl
    (changesLayout_of_removes hrem)
  have heval : ((runFrom step (new ⟨1⟩) overtakenRun).plans.find? ⟨1⟩).map
      (fun p => decide (p.policyGeneration =
        (runFrom step (new ⟨1⟩) overtakenRun).policyGeneration)) = some false := by
    decide +kernel
  change (runFrom step (new ⟨1⟩) overtakenRun).plans.find? ⟨1⟩ = some p at hp
  rw [hp, Option.map_some, decide_eq_true hpolicy] at heval
  cases heval

/-! ## The two copies -/

/-- The policy generation the coordinator compares with is the one its snapshots carry. -/
def PolicyAgrees (c : Coordinator) : Prop :=
  c.policyGeneration = c.generations.policyGeneration

/-- A call of `advance_policy_generation` finds the last generation, and a recovery brings
none older than the present one. -/
def PolicyKept (c : Coordinator) : Event → Prop
  | .message _ _ => True
  | .workerDead _ => True
  | .recover st => c.policyGeneration.value ≤ st.policyGeneration.value
  | .advancePolicy => c.policyGeneration.value = 0xFFFFFFFFFFFFFFFF

theorem Consistent.policyKept_iff {c : Coordinator} (h : c.Consistent) (hagree : c.PolicyAgrees)
    (e : Event) :
    ((c.step e).PolicyAgrees ∧ c.policyGeneration.value ≤ (c.step e).policyGeneration.value) ↔
      PolicyKept c e := by
  cases e with
  | message fs m =>
      refine iff_of_true ?_ trivial
      change (handle fs c m).1.policyGeneration = _ ∧ _ ≤ (handle fs c m).1.policyGeneration.value
      rcases h.policy_handle fs m with hsame | ⟨-, -, hown, hknown⟩
      · rw [hsame.own]
        exact ⟨hagree.trans hsame.known.symm, UInt64.le_refl _⟩
      · rw [hown, hagree]
        exact ⟨hknown.symm, Generation.le_next _⟩
  | workerDead w => exact iff_of_true ⟨hagree, UInt64.le_refl _⟩ trivial
  | recover st =>
      change ((c.recover st).1.policyGeneration = (c.recover st).1.generations.policyGeneration ∧
        _ ≤ (c.recover st).1.policyGeneration.value) ↔ _
      obtain ⟨hown, hknown⟩ := recover_policy c st
      rw [hown, hknown]
      exact ⟨fun hkept => hkept.2, fun hle => ⟨rfl, hle⟩⟩
  | advancePolicy =>
      change (c.policyGeneration.next = c.generations.policyGeneration ∧
        _ ≤ c.policyGeneration.next.value) ↔ _
      rw [← hagree, Generation.next_eq_self_iff]
      exact ⟨fun hkept => hkept.1, fun hmax => ⟨hmax, Generation.le_next _⟩⟩

/-- Over every run: the two copies of the policy generation agree at each point and no step
lowers it, if and only if every step keeps it. -/
theorem policy_single_monotone_iff (epoch : CoordinatorEpoch) (events : List Event) :
    ((∀ front back, events = front ++ back → (runFrom step (new epoch) front).PolicyAgrees) ∧
      ∀ front e back, events = front ++ e :: back →
        (runFrom step (new epoch) front).policyGeneration.value ≤
          ((runFrom step (new epoch) front).step e).policyGeneration.value) ↔
      AllSteps step PolicyKept (new epoch) events := by
  constructor
  · rintro ⟨hagree, hmono⟩
    rw [allSteps_iff]
    intro front e back hsplit
    have hcons := consistent_run epoch front
    refine (hcons.policyKept_iff (hagree front _ hsplit) e).mp ⟨?_, hmono front e back hsplit⟩
    have hnext := hagree (front ++ [e]) back (by rw [hsplit]; simp)
    rw [runFrom_snoc] at hnext
    exact hnext
  · intro hall
    have hagree : ∀ front back, events = front ++ back →
        (runFrom step (new epoch) front).PolicyAgrees := by
      intro front back hsplit
      rw [hsplit, allSteps_append] at hall
      refine run_induction rfl ?_ hall.1
      intro c e hcons h hkept
      exact ((hcons.policyKept_iff h e).mpr hkept).1
    refine ⟨hagree, ?_⟩
    intro front e back hsplit
    have hkept := allSteps_iff.mp hall front e back hsplit
    have hcons := consistent_run epoch front
    exact ((hcons.policyKept_iff (hagree front _ hsplit) e).mpr hkept).2

/-- The policy is advanced twice by the direct call and once by a message. -/
def rolledBackRun : List Event := [.advancePolicy, .advancePolicy, .message disk advancePolicyMessage]

/-- The message sets the policy generation back from 3 to 2, and before it the two copies
were 3 and 1. -/
theorem policy_rolls_back :
    ¬ ∀ (epoch : CoordinatorEpoch) (events : List Event), (∀ st, Event.recover st ∉ events) →
      (∀ front back, events = front ++ back → (runFrom step (new epoch) front).PolicyAgrees) ∧
        ∀ front e back, events = front ++ e :: back →
          (runFrom step (new epoch) front).policyGeneration.value ≤
            ((runFrom step (new epoch) front).step e).policyGeneration.value := by
  intro h
  obtain ⟨-, hmono⟩ := h ⟨1⟩ rolledBackRun (by simp [rolledBackRun])
  have hle := hmono [.advancePolicy, .advancePolicy] (.message disk advancePolicyMessage) [] rfl
  revert hle
  decide +kernel

end FragmentationGovernor.Coordinator
