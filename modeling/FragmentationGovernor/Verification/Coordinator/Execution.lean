import FragmentationGovernor.Verification.Coordinator.Policy

/-! # Carrying out a plan

A plan moves on to its verification at the first completion, whichever of its actions that
was. Here are the orders of messages in which every action is carried out. -/

namespace FragmentationGovernor.Coordinator

/-! ## Completions -/

/-- The tests ACTION_COMPLETE makes: `act` is the action it names, of the executing `p`. -/
structure Completable (c : Coordinator) (m : Message) (p : RemediationPlan) (act : PlanAction) :
    Prop where
  plan : c.plans.find? m.planKey = some p
  state : p.state = .executing
  action : p.actions[m.actionIndex.toNat]? = some act

/-- The displacement of a completed action never raises on consistent maps. -/
theorem Consistent.exists_completeAction {c : Coordinator} (h : c.Consistent)
    (act : PlanAction) : ∃ c', c.completeAction act = .ok c' := by
  unfold completeAction
  cases act.sourceAllocation with
  | none => exact ⟨c, rfl⟩
  | some source =>
      cases hrec : c.resources.find? act.targetResource with
      | none => exact ⟨c, rfl⟩
      | some rec =>
          obtain ⟨layout, reply, hrem, -, -⟩ := (h.reachable hrec).removeAllocation source
          dsimp only
          rw [hrem, ok_bind]
          exact ⟨_, rfl⟩

/-- It touches nothing but the resources and the generations. -/
theorem completeAction_eq {c c' : Coordinator} {act : PlanAction}
    (h : c.completeAction act = .ok c') :
    c' = { c with resources := c'.resources, generations := c'.generations } := by
  unfold completeAction at h
  cases hsource : act.sourceAllocation with
  | none =>
      rw [hsource] at h
      cases h
      rfl
  | some source =>
      rw [hsource] at h
      dsimp only at h
      cases hrec : c.resources.find? act.targetResource with
      | none =>
          rw [hrec] at h
          cases h
          rfl
      | some rec =>
          rw [hrec] at h
          dsimp only at h
          rw [bind_eq_ok] at h
          obtain ⟨r, -, h⟩ := h
          cases h
          rfl

/-- A completion that passes its tests is carried out and moves the plan on. -/
theorem Consistent.handle_completable {c : Coordinator} (h : c.Consistent) {m : Message}
    {p : RemediationPlan} {act : PlanAction} (htype : m.type = .actionComplete)
    (hc : Completable c m p act) (fs : Codec.SaveOutcome) :
    ∃ c', (if m.actionOk then c.completeAction act else .ok c) = .ok c' ∧
      handle fs c m = (c'.setState p m.planKey .verifying).accept := by
  have hret : ∃ c', (if m.actionOk then c.completeAction act else .ok c) = .ok c' := by
    cases m.actionOk with
    | false => exact ⟨c, rfl⟩
    | true => exact h.exists_completeAction act
  obtain ⟨c', hc'⟩ := hret
  refine ⟨c', hc', ?_⟩
  rw [handle_actionComplete htype, handleActionComplete, withPlan, hc.plan]
  dsimp only
  rw [if_neg (not_not.mpr hc.state), hc.action]
  dsimp only
  rw [hc']

/-- A completion that passes none is refused. -/
theorem handle_not_completable {c : Coordinator} {m : Message} (htype : m.type = .actionComplete)
    (hno : ∀ p act, ¬ Completable c m p act) (fs : Codec.SaveOutcome) :
    ∃ why, handle fs c m = c.reject why := by
  rw [handle_actionComplete htype, handleActionComplete, withPlan]
  cases hp : c.plans.find? m.planKey with
  | none => exact ⟨_, rfl⟩
  | some p =>
      dsimp only
      by_cases hstate : p.state ≠ .executing
      · rw [if_pos hstate]
        exact ⟨_, rfl⟩
      · rw [if_neg hstate]
        cases hact : p.actions[m.actionIndex.toNat]? with
        | none => exact ⟨_, rfl⟩
        | some act => exact (hno p act ⟨hp, not_not.mp hstate, hact⟩).elim

theorem Consistent.accepted_completion_iff {c : Coordinator} (h : c.Consistent) {m : Message}
    (htype : m.type = .actionComplete) (fs : Codec.SaveOutcome) :
    Accepted (handle fs c m) ↔ ∃ p act, Completable c m p act := by
  constructor
  · intro hacc
    by_contra hno
    obtain ⟨why, heq⟩ := handle_not_completable htype
      (fun p act hc => hno ⟨p, act, hc⟩) fs
    rw [heq] at hacc
    exact not_accepted_reject c why hacc
  · rintro ⟨p, act, hc⟩
    obtain ⟨c', -, heq⟩ := h.handle_completable htype hc fs
    rw [heq]
    exact accepted_accept _

/-! ## The history of an action -/

/-- An accepted BEGIN_ACTION for action `i` of the plan `p`, stored under `k`. -/
def Begins (k : FragmentationPlanId) (i : ℕ) (p : RemediationPlan) (c : Coordinator) :
    Event → Prop
  | .message fs m => m.type = .beginAction ∧ m.planKey = k ∧ m.actionIndex.toNat = i ∧
      Accepted (handle fs c m) ∧ ∃ q, c.plans.find? k = some q ∧ SamePlan q p
  | _ => False

/-- An accepted ACTION_COMPLETE that reports the success of action `i` of the plan `p`. -/
def Finishes (k : FragmentationPlanId) (i : ℕ) (p : RemediationPlan) (c : Coordinator) :
    Event → Prop
  | .message fs m => m.type = .actionComplete ∧ m.planKey = k ∧ m.actionIndex.toNat = i ∧
      m.actionOk = true ∧ Accepted (handle fs c m) ∧ ∃ q, c.plans.find? k = some q ∧ SamePlan q p
  | _ => False

/-- Action `i` of the plan was begun in the run. -/
def Begun (epoch : CoordinatorEpoch) (events : List Event) (k : FragmentationPlanId) (i : ℕ)
    (p : RemediationPlan) : Prop :=
  ∃ front e back, events = front ++ e :: back ∧ Begins k i p (runFrom step (new epoch) front) e

/-- Action `i` of the plan was begun and later finished in the run. -/
def Carried (epoch : CoordinatorEpoch) (events : List Event) (k : FragmentationPlanId) (i : ℕ)
    (p : RemediationPlan) : Prop :=
  ∃ front e back, events = front ++ e :: back ∧ Begun epoch front k i p ∧
    Finishes k i p (runFrom step (new epoch) front) e

theorem Begins.of_same {k : FragmentationPlanId} {i : ℕ} {p q : RemediationPlan}
    {c : Coordinator} {e : Event} (h : Begins k i p c e) (hsame : SamePlan p q) :
    Begins k i q c e := by
  cases e with
  | message fs m =>
      obtain ⟨htype, hkey, hindex, hacc, r, hr, hrp⟩ := h
      exact ⟨htype, hkey, hindex, hacc, r, hr, hrp.trans hsame⟩
  | workerDead w => exact h
  | recover st => exact h
  | advancePolicy => exact h

theorem Finishes.of_same {k : FragmentationPlanId} {i : ℕ} {p q : RemediationPlan}
    {c : Coordinator} {e : Event} (h : Finishes k i p c e) (hsame : SamePlan p q) :
    Finishes k i q c e := by
  cases e with
  | message fs m =>
      obtain ⟨htype, hkey, hindex, hok, hacc, r, hr, hrp⟩ := h
      exact ⟨htype, hkey, hindex, hok, hacc, r, hr, hrp.trans hsame⟩
  | workerDead w => exact h
  | recover st => exact h
  | advancePolicy => exact h

section History

variable {epoch : CoordinatorEpoch} {events : List Event} {k : FragmentationPlanId} {i : ℕ}
  {p q : RemediationPlan}

theorem Begun.of_same (h : Begun epoch events k i p) (hsame : SamePlan p q) :
    Begun epoch events k i q := by
  obtain ⟨front, e, back, hsplit, hbegins⟩ := h
  exact ⟨front, e, back, hsplit, hbegins.of_same hsame⟩

theorem Carried.of_same (h : Carried epoch events k i p) (hsame : SamePlan p q) :
    Carried epoch events k i q := by
  obtain ⟨front, e, back, hsplit, hbegun, hfinishes⟩ := h
  exact ⟨front, e, back, hsplit, hbegun.of_same hsame, hfinishes.of_same hsame⟩

theorem Begun.snoc (h : Begun epoch events k i p) (e : Event) :
    Begun epoch (events ++ [e]) k i p := by
  obtain ⟨front, b, back, hsplit, hbegins⟩ := h
  exact ⟨front, b, back ++ [e], by rw [hsplit]; simp, hbegins⟩

theorem Carried.snoc (h : Carried epoch events k i p) (e : Event) :
    Carried epoch (events ++ [e]) k i p := by
  obtain ⟨front, f, back, hsplit, hbegun, hfinishes⟩ := h
  exact ⟨front, f, back ++ [e], by rw [hsplit]; simp, hbegun, hfinishes⟩

/-! ## Progress of a plan -/

/-- The completion moves the plan on although it reports a failure or the plan has other
actions. -/
def Unfinished (k : FragmentationPlanId) (c : Coordinator) : Event → Prop
  | .message _ m => m.type = .actionComplete ∧ m.planKey = k ∧
      ∃ p act, Completable c m p act ∧ (m.actionOk = false ∨ p.actions.length ≠ 1)
  | _ => False

/-- What the state of the plan tells about the run behind it. -/
structure Progress (epoch : CoordinatorEpoch) (events : List Event) (k : FragmentationPlanId) :
    Prop where
  executing : ∀ p, (runFrom step (new epoch) events).plans.find? k = some p →
    p.state = .executing → ∃ i < p.actions.length, Begun epoch events k i p
  verifying : ∀ p, (runFrom step (new epoch) events).plans.find? k = some p →
    p.state = .verifying → ∀ i < p.actions.length, Carried epoch events k i p

/-- A completion that leaves the plan verifying passed its tests. -/
theorem completable_of_verifying {c : Coordinator} {fs : Codec.SaveOutcome} {m : Message}
    (htype : m.type = .actionComplete) (hp : c.plans.find? m.planKey = some p)
    (hexec : p.state = .executing) (hq : (handle fs c m).1.plans.find? m.planKey = some q)
    (hver : q.state = .verifying) : ∃ act, Completable c m p act := by
  by_contra hno
  have hnone : ∀ p' act, ¬ Completable c m p' act := by
    intro p' act hc
    have hsame := hc.plan
    rw [hp] at hsame
    cases hsame
    exact hno ⟨act, hc⟩
  obtain ⟨why, heq⟩ := handle_not_completable htype hnone fs
  rw [heq] at hq
  change c.plans.find? m.planKey = some q at hq
  rw [hp] at hq
  cases hq
  rw [hexec] at hver
  cases hver

theorem Progress.snoc_executing (h : Progress epoch events k) {e : Event}
    (hq : (runFrom step (new epoch) (events ++ [e])).plans.find? k = some q)
    (hexec : q.state = .executing) :
    ∃ i < q.actions.length, Begun epoch (events ++ [e]) k i q := by
  rcases plan_origin_snoc hq with ⟨p, hp, hstep⟩ | hnew
  · have hsame : SamePlan p q := hstep.same
    rcases hstep.executing hexec with rfl | ⟨fs, m, rfl, htype, hkey, hstate, hcan, hindex⟩
    · obtain ⟨i, hi, hbegun⟩ := h.executing q hp hexec
      exact ⟨i, hi, hbegun.snoc e⟩
    · have hacc : Accepted (handle fs (runFrom step (new epoch) events) m) :=
        (accepted_beginAction_iff htype).mpr ⟨p, hkey ▸ hp, hstate, hcan, hindex⟩
      refine ⟨m.actionIndex.toNat, by rw [hsame.actions]; exact hindex, events, _, [], rfl, ?_⟩
      exact ⟨htype, hkey, rfl, hacc, p, hp, hsame⟩
  · exact (hnew.not_acting (Or.inl hexec)).elim

theorem Progress.snoc_verifying (h : Progress epoch events k) {e : Event}
    (hno : ¬ Unfinished k (runFrom step (new epoch) events) e)
    (hq : (runFrom step (new epoch) (events ++ [e])).plans.find? k = some q)
    (hver : q.state = .verifying) :
    ∀ i < q.actions.length, Carried epoch (events ++ [e]) k i q := by
  rcases plan_origin_snoc hq with ⟨p, hp, hstep⟩ | hnew
  · have hsame : SamePlan p q := hstep.same
    rcases hstep.verifying hver with rfl | ⟨fs, m, rfl, htype, hkey, hexec⟩
    · intro i hi
      exact (h.verifying q hp hver i hi).snoc e
    · rw [runFrom_snoc] at hq
      obtain ⟨act, hc⟩ := completable_of_verifying htype (hkey ▸ hp) hexec (hkey ▸ hq) hver
      have hone : m.actionOk = true ∧ p.actions.length = 1 := by
        by_contra hbad
        refine hno ⟨htype, hkey, p, act, hc, ?_⟩
        rw [not_and_or, Bool.not_eq_true] at hbad
        exact hbad
      have hindex : m.actionIndex.toNat < p.actions.length :=
        (List.getElem?_eq_some_iff.mp hc.action).1
      obtain ⟨j, hj, hbegun⟩ := h.executing p hp hexec
      intro i hi
      rw [hsame.actions] at hi
      -- the plan has a single action, so the one begun is the one finished
      have hij : j = i := by omega
      have hmi : m.actionIndex.toNat = i := by omega
      refine ⟨events, _, [], rfl, (hij ▸ hbegun).of_same hsame, ?_⟩
      exact ⟨htype, hkey, hmi, hone.1,
        ((consistent_run epoch events).accepted_completion_iff htype fs).mpr ⟨p, act, hc⟩, p, hp,
        hsame⟩
  · exact (hnew.not_acting (Or.inr hver)).elim

theorem progress_run
    (hno : AllSteps step (fun c e => ¬ Unfinished k c e) (new epoch) events) :
    Progress epoch events k := by
  induction events using List.reverseRecOn with
  | nil =>
      refine ⟨?_, ?_⟩
      all_goals
        intro p hp
        cases hp
  | append_singleton events e ih =>
      rw [allSteps_append] at hno
      have h := ih hno.1
      exact ⟨fun q hq hexec => h.snoc_executing hq hexec,
        fun q hq hver => h.snoc_verifying hno.2.1 hq hver⟩

end History

/-- In every run whose completions of plan `k` report success and finish a plan of a single
action: when an event other than a recovery makes the plan COMPLETED, each of its actions
was begun and then finished earlier in the run. -/
theorem completed_carried_out (epoch : CoordinatorEpoch) (events : List Event)
    (k : FragmentationPlanId)
    (hno : AllSteps step (fun c e => ¬ Unfinished k c e) (new epoch) events)
    (e : Event) (he : ∀ st, e ≠ .recover st) (q : RemediationPlan)
    (hbefore : ∀ p, (runFrom step (new epoch) events).plans.find? k = some p →
      p.state ≠ .completed)
    (hq : (runFrom step (new epoch) (events ++ [e])).plans.find? k = some q)
    (hdone : q.state = .completed) :
    ∀ i < q.actions.length, Carried epoch events k i q := by
  have hprogress := progress_run hno
  rcases plan_origin_snoc hq with ⟨p, hp, hstep⟩ | hnew
  · have hsame : SamePlan p q := hstep.same
    have hver : p.state = .verifying := by
      cases hstep with
      | kept _ => exact (hbefore q hp hdone).elim
      | verified _ _ _ hstate => exact hstate
      | _ => cases hdone
    intro i hi
    rw [hsame.actions] at hi
    exact (hprogress.verifying p hp hver i hi).of_same hsame
  · cases hnew with
    | planned _ _ _ => cases hdone
    | restored _ _ => exact (he _ rfl).elim

/-- The only action of plan 1 is begun and finished. -/
def finishedRun : List Event := begunRun ++ [.message disk (.actionComplete 1 0)]

/-- A run up to a completion leaves nothing unfinished when the plan has one action. -/
theorem allSteps_finishedRun :
    AllSteps step (fun c e => ¬ Unfinished ⟨1⟩ c e) (new ⟨1⟩) finishedRun := by
  rw [finishedRun, allSteps_append]
  refine ⟨⟨?_, ?_, ?_, ?_, ?_, ?_, allSteps_nil⟩, ?_, allSteps_nil⟩
  · exact fun h => by cases h.1
  · exact fun h => by cases h.1
  · exact fun h => by cases h.1
  · exact fun h => by cases h.1
  · exact fun h => by cases h.1
  · exact fun h => by cases h.1
  · rintro ⟨-, -, p, act, hc, hbad⟩
    have hlen : ((runFrom step (new ⟨1⟩) begunRun).plans.find? ⟨1⟩).map
        (fun p => p.actions.length) = some 1 := by decide +kernel
    have hp : (runFrom step (new ⟨1⟩) begunRun).plans.find? ⟨1⟩ = some p := hc.plan
    rw [hp, Option.map_some, Option.some.injEq] at hlen
    rcases hbad with hbad | hbad
    · cases hbad
    · exact hbad hlen

/-- Plan 1 is verified after its only action. -/
theorem completed_carried_out_finishedRun :
    ∃ q, (runFrom step (new ⟨1⟩) (finishedRun ++ [.message disk (.verify 1)])).plans.find? ⟨1⟩ =
        some q ∧ q.state = .completed ∧ q.actions.length = 1 ∧
      Carried ⟨1⟩ finishedRun ⟨1⟩ 0 q := by
  have hbefore : ((runFrom step (new ⟨1⟩) finishedRun).plans.find? ⟨1⟩).map
      (fun p => p.state) = some .verifying := by decide +kernel
  have hafter : ((runFrom step (new ⟨1⟩) (finishedRun ++ [.message disk (.verify 1)])).plans.find?
      ⟨1⟩).map (fun p => (p.state, p.actions.length)) = some (.completed, 1) := by decide +kernel
  obtain ⟨q, hq, hfields⟩ := Option.map_eq_some_iff.mp hafter
  simp only [Prod.mk.injEq] at hfields
  refine ⟨q, hq, hfields.1, hfields.2, ?_⟩
  refine completed_carried_out ⟨1⟩ finishedRun ⟨1⟩ allSteps_finishedRun (.message disk (.verify 1))
    (fun st heq => by cases heq) q ?_ hq hfields.1 0 (by rw [hfields.2]; decide)
  intro p hp hdone
  rw [hp, Option.map_some, Option.some.injEq, hdone] at hbefore
  cases hbefore

/-- Two releasable allocations in the way of the demand for the whole resource. -/
def obstacles : List Allocation :=
  [{ id := ⟨1⟩, offset := ⟨20⟩, length := ⟨20⟩, movability := .releaseable },
    { id := ⟨2⟩, offset := ⟨60⟩, length := ⟨20⟩, movability := .releaseable }]

/-- Plan 1 has an action for each obstacle and waits for its beginning. -/
def twoActionRun : List Event :=
  [.register 1 1, .publishResource 1 1 smallResource, .publishLayout 1 1 smallResource obstacles,
    .createPlan wholeResource, .approvePlan 1].map (.message disk)

/-- Only its first action is carried out. -/
def halfDone : List Event := [.beginAction 1 0, .actionComplete 1 0].map (.message disk)

/-- Plan 1 becomes COMPLETED although its second action was neither begun nor finished. -/
theorem completed_half_done :
    ¬ ∀ (epoch : CoordinatorEpoch) (events : List Event) (k : FragmentationPlanId) (e : Event)
      (q : RemediationPlan), (∀ st, e ≠ .recover st) →
      (∀ p, (runFrom step (new epoch) events).plans.find? k = some p → p.state ≠ .completed) →
      (runFrom step (new epoch) (events ++ [e])).plans.find? k = some q →
      q.state = .completed → ∀ i < q.actions.length, Carried epoch events k i q := by
  intro h
  have hbefore : ((runFrom step (new ⟨1⟩) (twoActionRun ++ halfDone)).plans.find? ⟨1⟩).map
      (fun p => p.state) = some .verifying := by decide +kernel
  have hafter : ((runFrom step (new ⟨1⟩) (twoActionRun ++ halfDone ++
      [.message disk (.verify 1)])).plans.find? ⟨1⟩).map (fun p => (p.state, p.actions.length)) =
      some (.completed, 2) := by decide +kernel
  obtain ⟨q, hq, hfields⟩ := Option.map_eq_some_iff.mp hafter
  simp only [Prod.mk.injEq] at hfields
  have hno : ∀ p, (runFrom step (new ⟨1⟩) (twoActionRun ++ halfDone)).plans.find? ⟨1⟩ = some p →
      p.state ≠ .completed := by
    intro p hp hdone
    rw [hp, Option.map_some, Option.some.injEq, hdone] at hbefore
    cases hbefore
  obtain ⟨front, e, back, hsplit, -, hfinishes⟩ := h ⟨1⟩ (twoActionRun ++ halfDone) ⟨1⟩
    (.message disk (.verify 1)) q (fun st heq => by cases heq) hno hq hfields.1 1
    (by rw [hfields.2]; decide)
  have hmem : e ∈ twoActionRun ++ halfDone := by
    rw [hsplit]
    simp
  cases e with
  | message fs m =>
      obtain ⟨htype, -, hindex, -⟩ := hfinishes
      simp only [twoActionRun, halfDone, List.map_cons, List.map_nil, List.cons_append,
        List.nil_append, List.mem_cons, Event.message.injEq, List.not_mem_nil, or_false] at hmem
      rcases hmem with ⟨-, rfl⟩ | ⟨-, rfl⟩ | ⟨-, rfl⟩ | ⟨-, rfl⟩ | ⟨-, rfl⟩ | ⟨-, rfl⟩ | ⟨-, rfl⟩
      · cases htype
      · cases htype
      · cases htype
      · cases htype
      · cases htype
      · cases htype
      · cases hindex
  | workerDead w => exact hfinishes
  | recover st => exact hfinishes
  | advancePolicy => exact hfinishes

/-! ## Driving a plan to its end -/

/-- BEGIN_ACTION as the driver sends it. -/
def driverBegin (plan planGen epoch policyGen : UInt64) (i : ℕ) : Message :=
  { type := .beginAction, planId := plan, planGen := planGen, actionIndex := UInt32.ofNat i,
    epoch := epoch, policyGen := policyGen }

/-- ACTION_COMPLETE as the driver sends it. -/
def driverComplete (plan : UInt64) (i : ℕ) : Message :=
  { type := .actionComplete, planId := plan, actionIndex := UInt32.ofNat i, actionOk := true,
    newGeneration := 2 }

/-- VERIFY as the driver sends it. -/
def driverVerify (plan planGen : UInt64) : Message :=
  { type := .verify, planId := plan, planGen := planGen }

/-- The loop over the `n` actions of an approved plan, and the verification after it. -/
def driver (plan planGen epoch policyGen : UInt64) (n : ℕ) : List Message :=
  ((List.range n).flatMap (fun i =>
    [driverBegin plan planGen epoch policyGen i, driverComplete plan i])) ++
    [driverVerify plan planGen]

/-- The message of the event is accepted. -/
def Granted (c : Coordinator) : Event → Prop
  | .message fs m => Accepted (handle fs c m)
  | _ => True

/-- The comparison of VERIFY, made right after the action, has a snapshot to start from and
returns. -/
def Verifiable (c : Coordinator) (k : FragmentationPlanId) (p : RemediationPlan)
    (act : PlanAction) : Prop :=
  ∃ before c' v, c.beforeSnapshots.find? k = some before ∧ c.completeAction act = .ok c' ∧
    verifyRemediation before c'.assembleSnapshot c.lastDemand p = .ok v

theorem handle_startable {c : Coordinator} {m : Message} {p : RemediationPlan}
    (htype : m.type = .beginAction) (hp : c.plans.find? m.planKey = some p)
    (hstate : p.state = .approved) (hexec : c.canExecute p m = true)
    (hindex : m.actionIndex.toNat < p.actions.length) (fs : Codec.SaveOutcome) :
    handle fs c m = (c.setState p m.planKey .executing).accept := by
  rw [handle_beginAction htype, handleBeginAction, withPlan, hp]
  dsimp only
  rw [if_neg (not_not.mpr hstate), hexec, if_neg (by decide), if_neg (not_le.mpr hindex)]

theorem completeAction_setState {c c' : Coordinator} {act : PlanAction}
    (h : c.completeAction act = .ok c') (p : RemediationPlan) (key : FragmentationPlanId)
    (state : PlanState) :
    (c.setState p key state).completeAction act = .ok (c'.setState p key state) := by
  have hres : (c.setState p key state).resources = c.resources := rfl
  unfold completeAction at h ⊢
  rw [hres]
  cases hsource : act.sourceAllocation with
  | none =>
      rw [hsource] at h
      cases h
      rfl
  | some source =>
      rw [hsource] at h
      dsimp only at h ⊢
      cases hrec : c.resources.find? act.targetResource with
      | none =>
          rw [hrec] at h
          cases h
          rfl
      | some rec =>
          rw [hrec] at h
          dsimp only at h ⊢
          rw [bind_eq_ok] at h
          obtain ⟨r, hrem, h⟩ := h
          cases h
          rw [hrem, ok_bind]
          rfl

/-- An approved plan under current generations. -/
structure Ready (c : Coordinator) (k : FragmentationPlanId) (p : RemediationPlan) : Prop where
  plan : c.plans.find? k = some p
  state : p.state = .approved
  policy : p.policyGeneration = c.policyGeneration
  epoch : p.epoch = c.epoch

/-- The state after the first action of the plan, whose effects left `c'`. -/
def afterFirst (c' : Coordinator) (k : FragmentationPlanId) (p : RemediationPlan) : Coordinator :=
  (c'.setState p k .executing).setState { p with state := .executing } k .verifying

theorem find?_afterFirst (c' : Coordinator) (k : FragmentationPlanId) (p : RemediationPlan) :
    (afterFirst c' k p).plans.find? k = some { p with state := .verifying } :=
  OrdMap.find?_insert_self _ _ _

/-- The first action is begun and completed, and only then can anything go wrong. -/
theorem Ready.driver_first {c : Coordinator} {k : FragmentationPlanId} {p : RemediationPlan}
    (h : Ready c k p) (hcons : c.Consistent) {act : PlanAction} {acts : List PlanAction}
    (hacts : p.actions = act :: acts) (fs : Codec.SaveOutcome) (epoch policyGen : UInt64)
    (rest : List Event) :
    ∃ c', c.completeAction act = .ok c' ∧
      (AllSteps step Granted c
        (.message fs (driverBegin k.value p.generation.value epoch policyGen 0) ::
          .message fs (driverComplete k.value 0) :: rest) ↔
        AllSteps step Granted (afterFirst c' k p) rest) := by
  obtain ⟨c', hc'⟩ := hcons.exists_completeAction act
  refine ⟨c', hc', ?_⟩
  have hexec : c.canExecute p (driverBegin k.value p.generation.value epoch policyGen 0) = true := by
    rw [canExecute_eq_true_iff]
    refine ⟨rfl, h.policy, h.epoch, ?_⟩
    rw [h.state]
    simp [Withdrawn]
  have hbegin : handle fs c (driverBegin k.value p.generation.value epoch policyGen 0) =
      (c.setState p k .executing).accept :=
    handle_startable rfl h.plan h.state hexec (by rw [hacts]; exact Nat.succ_pos _) fs
  have hcons' : (c.setState p k .executing).Consistent :=
    hcons.of_same (sameEvidence_setState c p k _)
  have hcompletable : Completable (c.setState p k .executing) (driverComplete k.value 0)
      { p with state := .executing } act :=
    ⟨OrdMap.find?_insert_self _ _ _, rfl, by dsimp only; rw [hacts]; rfl⟩
  obtain ⟨c₂, hc₂, hcomplete⟩ := hcons'.handle_completable rfl hcompletable fs
  rw [show (driverComplete k.value 0).actionOk = true from rfl, if_pos rfl,
    completeAction_setState hc', Except.ok.injEq] at hc₂
  have hfirst : (c.step (.message fs (driverBegin k.value p.generation.value epoch policyGen 0))) =
      c.setState p k .executing := congrArg Prod.fst hbegin
  have hsecond : ((c.setState p k .executing).step (.message fs (driverComplete k.value 0))) =
      afterFirst c' k p := by
    refine (congrArg Prod.fst hcomplete).trans ?_
    rw [← hc₂]
    rfl
  rw [allSteps_cons, allSteps_cons, hfirst, hsecond]
  have hgranted : Granted c
      (.message fs (driverBegin k.value p.generation.value epoch policyGen 0)) := by
    change Accepted (handle fs c _)
    rw [hbegin]
    exact accepted_accept _
  have hgranted' : Granted (c.setState p k .executing)
      (.message fs (driverComplete k.value 0)) := by
    change Accepted (handle fs _ _)
    rw [hcomplete]
    exact accepted_accept _
  simp only [hgranted, hgranted', true_and]

/-- The verification after the first action is accepted exactly when it can be made. -/
theorem accepted_verify_afterFirst {c c' : Coordinator} {k : FragmentationPlanId}
    {p : RemediationPlan} {act : PlanAction} (hc' : c.completeAction act = .ok c')
    (fs : Codec.SaveOutcome) (planGen : UInt64) :
    Accepted (handle fs (afterFirst c' k p) (driverVerify k.value planGen)) ↔
      Verifiable c k p act := by
  have hsame := completeAction_eq hc'
  have hbefore : (afterFirst c' k p).beforeSnapshots = c.beforeSnapshots := by
    change c'.beforeSnapshots = _
    rw [hsame]
  have hdemand : (afterFirst c' k p).lastDemand = c.lastDemand := by
    change c'.lastDemand = _
    rw [hsame]
  rw [accepted_verify_iff rfl, hbefore, hdemand]
  change (∃ q before v, (afterFirst c' k p).plans.find? k = some q ∧ _ ∧
    c.beforeSnapshots.find? k = some before ∧
    verifyRemediation before c'.assembleSnapshot c.lastDemand q = .ok v) ↔ _
  rw [find?_afterFirst]
  constructor
  · rintro ⟨q, before, v, hq, -, hb, hv⟩
    cases hq
    exact ⟨before, c', v, hb, hc', hv⟩
  · rintro ⟨before, c₂, v, hb, hc₂, hv⟩
    rw [hc'] at hc₂
    cases hc₂
    exact ⟨_, before, v, rfl, rfl, hb, hv⟩

/-- The second action cannot be begun: the first completion has moved the plan on. -/
theorem not_accepted_afterFirst (c' : Coordinator) (k : FragmentationPlanId)
    (p : RemediationPlan) (fs : Codec.SaveOutcome) (planGen epoch policyGen : UInt64) (i : ℕ) :
    ¬ Accepted (handle fs (afterFirst c' k p) (driverBegin k.value planGen epoch policyGen i)) := by
  rw [accepted_beginAction_iff rfl]
  rintro ⟨q, hq, hstate, -⟩
  change (afterFirst c' k p).plans.find? k = some q at hq
  rw [find?_afterFirst] at hq
  cases hq
  cases hstate

/-- After every run, with an approved plan of at least one action under current generations:
the driver has every message accepted if and only if the plan has a single action and the
comparison after it can be made. -/
theorem driver_accepted_iff (epoch : CoordinatorEpoch) (events : List Event)
    (k : FragmentationPlanId) (p : RemediationPlan)
    (hready : Ready (runFrom step (new epoch) events) k p) (hn : 1 ≤ p.actions.length)
    (fs : Codec.SaveOutcome) :
    AllSteps step Granted (runFrom step (new epoch) events)
      ((driver k.value p.generation.value (runFrom step (new epoch) events).epoch.value
        (runFrom step (new epoch) events).policyGeneration.value p.actions.length).map
          (.message fs)) ↔
      ∃ act, p.actions = [act] ∧ Verifiable (runFrom step (new epoch) events) k p act := by
  have hcons := consistent_run epoch events
  generalize runFrom step (new epoch) events = c at hready hcons ⊢
  cases hacts : p.actions with
  | nil =>
      rw [hacts] at hn
      cases hn
  | cons act acts =>
      cases acts with
      | nil =>
          obtain ⟨c', hc', hiff⟩ := hready.driver_first hcons hacts fs c.epoch.value
            c.policyGeneration.value [.message fs (driverVerify k.value p.generation.value)]
          refine hiff.trans ?_
          rw [allSteps_cons, and_iff_left allSteps_nil]
          refine (accepted_verify_afterFirst hc' fs _).trans ?_
          constructor
          · intro hv
            exact ⟨act, rfl, hv⟩
          · rintro ⟨act', heq, hv⟩
            cases heq
            exact hv
      | cons act' acts =>
          refine iff_of_false ?_ (fun ⟨a, heq, _⟩ => by cases heq)
          intro hall
          simp only [driver, List.length_cons, List.range_succ_eq_map, List.flatMap_cons,
            List.map_cons, List.cons_append, List.nil_append] at hall
          obtain ⟨c', hc', hiff⟩ := hready.driver_first hcons hacts fs c.epoch.value
            c.policyGeneration.value _
          exact not_accepted_afterFirst c' k p fs _ _ _ _ (hiff.mp hall).1

/-- Plan 1 of a state, read off the state. -/
theorem ready_of_eval {c : Coordinator} {n : ℕ}
    (h : (c.plans.find? ⟨1⟩).map (fun p =>
      (p.state, p.policyGeneration, p.epoch, p.generation, p.actions.length)) =
        some (.approved, c.policyGeneration, c.epoch, ⟨1⟩, n)) :
    ∃ p, Ready c ⟨1⟩ p ∧ p.generation = ⟨1⟩ ∧ p.actions.length = n := by
  obtain ⟨p, hp, hfields⟩ := Option.map_eq_some_iff.mp h
  simp only [Prod.mk.injEq] at hfields
  obtain ⟨hstate, hpolicy, hepoch, hgen, hlen⟩ := hfields
  exact ⟨p, ⟨hp, hstate, hpolicy, hepoch⟩, hgen, hlen⟩

/-- The driver runs plan 1 of one action to its end. -/
theorem driver_accepted_iff_approvedRun :
    ∃ p, Ready (runFrom step (new ⟨1⟩) approvedRun) ⟨1⟩ p ∧ p.actions.length = 1 ∧
      AllSteps step Granted (runFrom step (new ⟨1⟩) approvedRun)
        ((driver 1 1 1 1 1).map (.message disk)) ∧
      ∃ act, p.actions = [act] ∧ Verifiable (runFrom step (new ⟨1⟩) approvedRun) ⟨1⟩ p act := by
  obtain ⟨p, hready, hgen, hlen⟩ :=
    @ready_of_eval (runFrom step (new ⟨1⟩) approvedRun) 1 (by decide +kernel)
  have hall : AllSteps step Granted (runFrom step (new ⟨1⟩) approvedRun)
      ((driver 1 1 1 1 1).map (.message disk)) :=
    ⟨accepted_iff.mpr (by decide +kernel), accepted_iff.mpr (by decide +kernel),
      accepted_iff.mpr (by decide +kernel), allSteps_nil⟩
  have hiff := driver_accepted_iff ⟨1⟩ approvedRun ⟨1⟩ p hready (by rw [hlen]) disk
  have hepoch : (runFrom step (new ⟨1⟩) approvedRun).epoch = ⟨1⟩ := by decide +kernel
  have hpolicy : (runFrom step (new ⟨1⟩) approvedRun).policyGeneration = ⟨1⟩ := by decide +kernel
  rw [hgen, hlen, hepoch, hpolicy] at hiff
  exact ⟨p, hready, hlen, hall, hiff.mp hall⟩

/-- With two actions the driver is refused at its third message. -/
theorem driver_refused :
    ¬ ∀ (epoch : CoordinatorEpoch) (events : List Event) (k : FragmentationPlanId)
      (p : RemediationPlan) (fs : Codec.SaveOutcome),
      Ready (runFrom step (new epoch) events) k p → 1 ≤ p.actions.length →
      AllSteps step Granted (runFrom step (new epoch) events)
        ((driver k.value p.generation.value (runFrom step (new epoch) events).epoch.value
          (runFrom step (new epoch) events).policyGeneration.value p.actions.length).map
            (.message fs)) := by
  intro h
  obtain ⟨p, hready, hgen, hlen⟩ :=
    @ready_of_eval (runFrom step (new ⟨1⟩) twoActionRun) 2 (by decide +kernel)
  have hall := h ⟨1⟩ twoActionRun ⟨1⟩ p disk hready (by rw [hlen]; decide)
  rw [hgen, hlen] at hall
  have hthird := accepted_iff.mp hall.2.2.1
  revert hthird
  decide +kernel

end FragmentationGovernor.Coordinator
