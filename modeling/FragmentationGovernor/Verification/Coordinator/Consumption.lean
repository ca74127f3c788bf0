import FragmentationGovernor.Verification.Coordinator.Execution

/-! # Allocations consumed by completions

A completion credits its plan with the release of an allocation. Which events may take the
allocation away first is said here, for any number of plans over the same resources. -/

namespace FragmentationGovernor.Coordinator

/-! ## Allocations in their place -/

/-- The layout stored for the resource holds the allocation. -/
def Holds (c : Coordinator) (rid : ResourceId) (id : AllocationId) : Prop :=
  ∃ rec a, c.resources.find? rid = some rec ∧ rec.layout.allocations.find? id = some a

/-- The resource is stored and its layout does not hold the allocation. -/
def Lacks (c : Coordinator) (rid : ResourceId) (id : AllocationId) : Prop :=
  ∃ rec, c.resources.find? rid = some rec ∧ rec.layout.allocations.find? id = none

/-- The event takes the allocation out of the layout of the resource: the resource is
published afresh, its layout is published without the allocation, its owner invalidates it,
an action that displaces it is completed, or the evidence is dropped by a recovery. -/
inductive Takes (rid : ResourceId) (id : AllocationId) (c : Coordinator) : Event → Prop
  | resource {fs : Codec.SaveOutcome} {m : Message} (htype : m.type = .publishResource)
      (hauth : c.Authentic m) (hfresh : c.staleResource m = false) (hrid : m.resource.id = rid) :
      Takes rid id c (.message fs m)
  | layout {fs : Codec.SaveOutcome} {m : Message} (htype : m.type = .publishLayout)
      (hgranted : c.AdvancesBy m) (hrid : m.resource.id = rid)
      (hgone : ∀ a ∈ m.allocations, a.id ≠ id) : Takes rid id c (.message fs m)
  | invalidation {fs : Codec.SaveOutcome} {m : Message} {rec : WorkerResourceRecord}
      (htype : m.type = .invalidateAllocation) (hauth : c.Authentic m)
      (hrec : c.resources.find? rid = some rec) (howner : rec.worker = m.worker)
      (hid : (⟨m.allocationId⟩ : AllocationId) = id) : Takes rid id c (.message fs m)
  | completion {fs : Codec.SaveOutcome} {m : Message} {p : RemediationPlan} {act : PlanAction}
      (htype : m.type = .actionComplete) (hact : Completable c m p act) (hok : m.actionOk = true)
      (htarget : act.targetResource = rid) (hsource : act.sourceAllocation = some id) :
      Takes rid id c (.message fs m)
  | recovery (st : PersistedState) : Takes rid id c (.recover st)

/-- The messages that may do so. -/
theorem Takes.type {rid : ResourceId} {id : AllocationId} {c : Coordinator}
    {fs : Codec.SaveOutcome} {m : Message} (h : Takes rid id c (.message fs m)) :
    m.type ∈ [MsgType.publishResource, .publishLayout, .invalidateAllocation,
      .actionComplete] := by
  cases h with
  | resource htype _ _ _ => simp [htype]
  | layout htype _ _ _ => simp [htype]
  | invalidation htype _ _ _ _ => simp [htype]
  | completion htype _ _ _ _ => simp [htype]

section Holding

variable {c c' : Coordinator} {rid : ResourceId} {id : AllocationId}

theorem Holds.of_resources (h : c.Holds rid id) (hres : c'.resources = c.resources) :
    c'.Holds rid id := by
  obtain ⟨rec, a, hrec, ha⟩ := h
  exact ⟨rec, a, by rw [hres]; exact hrec, ha⟩

/-- Storing a record matters only at its own place. -/
theorem Holds.of_insert (h : c.Holds rid id) {rid' : ResourceId} {new : WorkerResourceRecord}
    (hres : c'.resources = c.resources.insert rid' new)
    (hnew : rid = rid' → ∃ a, new.layout.allocations.find? id = some a) : c'.Holds rid id := by
  obtain ⟨rec, a, hrec, ha⟩ := h
  unfold Holds
  rw [hres, OrdMap.find?_insert]
  by_cases hr : rid = rid'
  · obtain ⟨b, hb⟩ := hnew hr
    exact ⟨new, b, by rw [if_pos hr], hb⟩
  · exact ⟨rec, a, by rw [if_neg hr]; exact hrec, ha⟩

theorem Holds.markWorkerDead (h : c.Holds rid id) (w : WorkerId) :
    (c.markWorkerDead w).Holds rid id := by
  obtain ⟨rec, a, hrec, ha⟩ := h
  refine ⟨if rec.worker = w then { rec with alive := false } else rec, a, ?_, ?_⟩
  · rw [find?_markWorkerDead_resources, hrec, Option.map_some]
  · split <;> exact ha

theorem Holds.register (h : c.Holds rid id) (m : Message) : (c.register m).Holds rid id := by
  have hdrop : (c.dropStale m).Holds rid id := by
    refine dropStale_induction c m ?_ ?_
    · exact h
    · exact h.markWorkerDead m.worker
  exact hdrop

/-- A removal of another allocation keeps this one. -/
theorem Consistent.find?_removeAllocation_of_ne (hcons : c.Consistent)
    {rec : WorkerResourceRecord} {id' : AllocationId} {layout : ResourceLayout}
    {reply : LayoutReply} (hrec : c.resources.find? rid = some rec)
    (hrem : rec.layout.removeAllocation id' = .ok (layout, reply)) (hne : id ≠ id') :
    layout.allocations.find? id = rec.layout.allocations.find? id :=
  ((hcons.reachable hrec).valid.cleared.of_removeAllocation hrem).find?_of_notMem
    (by simpa using hne)

theorem Consistent.holds_handle (hcons : c.Consistent) (h : c.Holds rid id)
    {fs : Codec.SaveOutcome} {m : Message} (hno : ¬ Takes rid id c (.message fs m)) :
    (handle fs c m).1.Holds rid id := by
  obtain ⟨rec₀, a₀, hrec₀, ha₀⟩ := h
  have hholds : c.Holds rid id := ⟨rec₀, a₀, hrec₀, ha₀⟩
  have he := hcons.handle_effect fs m
  generalize handle fs c m = o at he
  cases he with
  | registered _ _ => exact hholds.register m
  | publishedResource htype hauth hfresh =>
      refine hholds.of_insert rfl ?_
      intro hr
      exact (hno (.resource htype hauth hfresh hr.symm)).elim
  | publishedLayout htype hauth hrec howner hgen hins =>
      refine hholds.of_insert rfl ?_
      intro hr
      by_contra hnone
      refine hno (.layout htype (.layout _ _ htype hauth hrec howner hgen hins) hr.symm ?_)
      intro a ha hid
      exact hnone ⟨a, (find?_insertAll_iff hins).mpr ⟨ha, hid⟩⟩
  | publishedAllocation _ _ hrec hins =>
      refine hholds.of_insert rfl ?_
      intro hr
      rw [hr, hrec] at hrec₀
      cases hrec₀
      dsimp only
      rw [((hcons.reachable hrec).valid.of_insertAllocation_ok hins).2.1, OrdMap.find?_insert]
      by_cases hid : id = m.allocation.id
      · rw [if_pos hid]
        exact ⟨_, rfl⟩
      · rw [if_neg hid]
        exact ⟨a₀, ha₀⟩
  | invalidated htype hauth hrec howner hrem =>
      refine hholds.of_insert rfl ?_
      intro hr
      rw [hr] at hno hrec₀
      rw [hrec] at hrec₀
      cases hrec₀
      have hne : id ≠ ⟨m.allocationId⟩ :=
        fun hid => hno (.invalidation htype hauth hrec howner hid.symm)
      exact ⟨a₀, (hcons.find?_removeAllocation_of_ne hrec hrem hne).trans ha₀⟩
  | @completed p act source _ _ _ htype hp hstate hact hok hsource hrec hrem =>
      refine hholds.of_insert rfl ?_
      intro hr
      rw [hr, hrec] at hrec₀
      cases hrec₀
      have hne : id ≠ source := by
        intro hid
        rw [← hid] at hsource
        exact hno (.completion htype ⟨hp, hstate, hact⟩ hok hr.symm hsource)
      exact ⟨a₀, (hcons.find?_removeAllocation_of_ne hrec hrem hne).trans ha₀⟩
  | advanced _ _ => exact hholds.of_resources (sameEvidence_advance c _).resources
  | _ => exact hholds.of_resources rfl

theorem Consistent.holds_step (hcons : c.Consistent) (h : c.Holds rid id) {e : Event}
    (hno : ¬ Takes rid id c e) : (c.step e).Holds rid id := by
  cases e with
  | message fs m => exact hcons.holds_handle h hno
  | workerDead w => exact h.markWorkerDead w
  | recover st => exact (hno (.recovery st)).elim
  | advancePolicy => exact h.of_resources rfl

end Holding

/-! ## The targets of one plan -/

/-- Some action of the plan stored under `k` displaces the allocation. -/
def TargetedBy (k : FragmentationPlanId) (c : Coordinator) (rid : ResourceId)
    (id : AllocationId) : Prop :=
  ∃ p, c.plans.find? k = some p ∧
    ∃ act ∈ p.actions, act.targetResource = rid ∧ act.sourceAllocation = some id

/-- The event takes an allocation away that the plan is going to displace. -/
def Preempts (k : FragmentationPlanId) (rid : ResourceId) (id : AllocationId) (c : Coordinator)
    (e : Event) : Prop :=
  TargetedBy k c rid id ∧ Takes rid id c e

/-- The allocations a new plan displaces are in their place. -/
theorem Consistent.holds_of_proposed {c : Coordinator} (h : c.Consistent) {d : WorkloadDemand}
    {plan : RemediationPlan} (hplan : c.proposePlan d = .ok (some plan)) {act : PlanAction}
    (hact : act ∈ plan.actions) {id : AllocationId} (hsource : act.sourceAllocation = some id) :
    c.Holds act.targetResource id := by
  obtain ⟨s, hs, htarget, id', a, hsource', ha, -⟩ :=
    (Planner.planRemediation_actions hplan act hact).1
  obtain ⟨rid, rec, hrec, -, rfl⟩ := mem_aliveDevices hs
  have hkey := h.keyed hrec
  rw [hsource] at hsource'
  cases hsource'
  rw [htarget, hkey]
  exact ⟨rec, a, hrec, ha⟩

/-- Over a step that preempts nothing, the targets of the plan stay in their place. -/
theorem Consistent.targets_step {c : Coordinator} (hcons : c.Consistent) {e : Event}
    {k : FragmentationPlanId} {rid : ResourceId} {id : AllocationId}
    (h : TargetedBy k c rid id → c.Holds rid id) (hno : ¬ Preempts k rid id c e) :
    TargetedBy k (c.step e) rid id → (c.step e).Holds rid id := by
  rintro ⟨q, hq, act, hact, htarget, hsource⟩
  rcases hcons.plan_origin hq with ⟨p, hp, hstep⟩ | hnew
  · have hsame : SamePlan p q := hstep.same
    have ht : TargetedBy k c rid id := ⟨p, hp, act, hsame.actions ▸ hact, htarget, hsource⟩
    exact hcons.holds_step (h ht) (fun htakes => hno ⟨ht, htakes⟩)
  · cases hnew with
    | @planned fs m plan htype hplan _ =>
        have hheld := hcons.holds_of_proposed hplan hact hsource
        rw [htarget] at hheld
        -- CREATE_PLAN leaves the resources alone
        refine hcons.holds_step hheld ?_
        intro htakes
        have hbad := htakes.type
        rw [htype] at hbad
        simp at hbad
    | restored _ hpp =>
        rw [sourceAllocation_of_restorePlan hpp act hact] at hsource
        cases hsource

/-! ## Completions -/

/-- A successful completion leaves its target without the allocation it displaced. -/
theorem Consistent.lacks_of_completion {c : Coordinator} (hcons : c.Consistent)
    {fs : Codec.SaveOutcome} {m : Message} {p : RemediationPlan} {act : PlanAction}
    (htype : m.type = .actionComplete) (hc : Completable c m p act) (hok : m.actionOk = true)
    {id : AllocationId} (hsource : act.sourceAllocation = some id)
    (hholds : c.Holds act.targetResource id) : (handle fs c m).1.Lacks act.targetResource id := by
  obtain ⟨rec, a, hrec, ha⟩ := hholds
  obtain ⟨c', hc', heq⟩ := hcons.handle_completable htype hc fs
  obtain ⟨layout, hrem, -⟩ := (hcons.reachable hrec).valid.removeAllocation_of_some ha
  rw [hok, if_pos rfl, completeAction, hsource] at hc'
  dsimp only at hc'
  rw [hrec] at hc'
  dsimp only at hc'
  rw [hrem, ok_bind] at hc'
  cases hc'
  rw [heq]
  refine ⟨{ rec with layout := layout }, OrdMap.find?_insert_self _ _ _, ?_⟩
  exact ((hcons.reachable hrec).valid.cleared.of_removeAllocation hrem).find?_of_mem (by simp)

/-- In every run in which nothing takes an allocation away while the plan `k` that is going
to displace it is stored: an accepted successful completion of the action finds the
allocation in its place and leaves the layout without it. -/
theorem completion_consumes (epoch : CoordinatorEpoch) (events : List Event)
    (k : FragmentationPlanId) (rid : ResourceId) (id : AllocationId)
    (hno : AllSteps step (fun c e => ¬ Preempts k rid id c e) (new epoch) events)
    (fs : Codec.SaveOutcome) (m : Message) (htype : m.type = .actionComplete)
    (hkey : m.planKey = k) (hok : m.actionOk = true)
    (hacc : Accepted (handle fs (runFrom step (new epoch) events) m))
    (p : RemediationPlan) (act : PlanAction)
    (hp : (runFrom step (new epoch) events).plans.find? k = some p)
    (hact : p.actions[m.actionIndex.toNat]? = some act) (htarget : act.targetResource = rid)
    (hsource : act.sourceAllocation = some id) :
    (runFrom step (new epoch) events).Holds rid id ∧
      (handle fs (runFrom step (new epoch) events) m).1.Lacks rid id := by
  have hcons := consistent_run epoch events
  have htargets : TargetedBy k (runFrom step (new epoch) events) rid id →
      (runFrom step (new epoch) events).Holds rid id := by
    refine @run_induction (fun c => TargetedBy k c rid id → c.Holds rid id) _ _ _ ?_
      (fun hcons h hstep => hcons.targets_step h hstep) hno
    rintro ⟨p, hp, -⟩
    cases hp
  have hholds := htargets ⟨p, hp, act, List.mem_of_getElem? hact, htarget, hsource⟩
  refine ⟨hholds, ?_⟩
  obtain ⟨q, act', hc⟩ := (hcons.accepted_completion_iff htype fs).mp hacc
  have hq := hc.plan
  rw [hkey, hp] at hq
  cases hq
  have hact' := hc.action
  rw [hact] at hact'
  cases hact'
  rw [← htarget] at hholds ⊢
  exact hcons.lacks_of_completion htype hc hok hsource hholds

/-- The action of a stored plan, read off a state. -/
theorem action_of_eval {c : Coordinator} {k : FragmentationPlanId} {i : ℕ} {rid : ResourceId}
    {id : AllocationId}
    (h : ((c.plans.find? k).bind (fun p => p.actions[i]?)).map
      (fun act => (act.targetResource, act.sourceAllocation)) = some (rid, some id)) :
    ∃ p act, c.plans.find? k = some p ∧ p.actions[i]? = some act ∧ act.targetResource = rid ∧
      act.sourceAllocation = some id := by
  obtain ⟨act, hbind, hfields⟩ := Option.map_eq_some_iff.mp h
  obtain ⟨p, hp, hact⟩ := Option.bind_eq_some_iff.mp hbind
  simp only [Prod.mk.injEq] at hfields
  exact ⟨p, act, hp, hact, hfields.1, hfields.2⟩

/-- Nothing takes `scratch` away before the completion of plan 1. -/
theorem allSteps_begunRun :
    AllSteps step (fun c e => ¬ Preempts ⟨1⟩ ⟨1⟩ ⟨1⟩ c e) (new ⟨1⟩) begunRun := by
  have hother : ∀ {c : Coordinator} {m : Message},
      m.type ∉ [MsgType.publishResource, .publishLayout, .invalidateAllocation,
        .actionComplete] → ¬ Preempts ⟨1⟩ ⟨1⟩ ⟨1⟩ c (.message disk m) :=
    fun hm hpre => hm hpre.2.type
  refine ⟨hother (by decide), ?_, hother (by decide), hother (by decide), hother (by decide),
    hother (by decide), allSteps_nil⟩
  -- the resource is published before there is a plan
  rintro ⟨⟨p, hp, -⟩, -⟩
  have hnone : ((step (new ⟨1⟩) (.message disk (.register 1 1))).plans.find? ⟨1⟩).isNone = true := by
    decide +kernel
  rw [hp] at hnone
  cases hnone

/-- The completion of plan 1 consumes `scratch`. -/
theorem completion_consumes_begunRun :
    Accepted (handle disk (runFrom step (new ⟨1⟩) begunRun) (.actionComplete 1 0)) ∧
      (runFrom step (new ⟨1⟩) begunRun).Holds ⟨1⟩ ⟨1⟩ ∧
      (handle disk (runFrom step (new ⟨1⟩) begunRun) (.actionComplete 1 0)).1.Lacks ⟨1⟩ ⟨1⟩ := by
  have hacc : Accepted (handle disk (runFrom step (new ⟨1⟩) begunRun) (.actionComplete 1 0)) :=
    accepted_iff.mpr (by decide +kernel)
  obtain ⟨p, act, hp, hact, htarget, hsource⟩ :=
    @action_of_eval (runFrom step (new ⟨1⟩) begunRun) ⟨1⟩ 0 ⟨1⟩ ⟨1⟩ (by decide +kernel)
  exact ⟨hacc, completion_consumes ⟨1⟩ begunRun ⟨1⟩ ⟨1⟩ ⟨1⟩ allSteps_begunRun disk
    (.actionComplete 1 0) rfl rfl rfl hacc p act hp hact htarget hsource⟩

/-- Two plans are made for the same allocation, both are begun, and the first is completed. -/
def contendedRun : List Event :=
  publishedRun ++ [.createPlan wholeResource, .createPlan wholeResource, .approvePlan 1,
    .approvePlan 2, .beginAction 1 0, .beginAction 2 0, .actionComplete 1 0].map (.message disk)

/-- The completion of the second plan is accepted although `scratch` is gone. -/
theorem completion_consumes_nothing :
    ¬ ∀ (epoch : CoordinatorEpoch) (events : List Event) (fs : Codec.SaveOutcome) (m : Message)
      (p : RemediationPlan) (act : PlanAction) (id : AllocationId),
      m.type = .actionComplete → m.actionOk = true →
      Accepted (handle fs (runFrom step (new epoch) events) m) →
      (runFrom step (new epoch) events).plans.find? m.planKey = some p →
      p.actions[m.actionIndex.toNat]? = some act → act.sourceAllocation = some id →
      (runFrom step (new epoch) events).Holds act.targetResource id ∧
        (handle fs (runFrom step (new epoch) events) m).1.Lacks act.targetResource id := by
  intro h
  obtain ⟨p, act, hp, hact, htarget, hsource⟩ :=
    @action_of_eval (runFrom step (new ⟨1⟩) contendedRun) ⟨2⟩ 0 ⟨1⟩ ⟨1⟩ (by decide +kernel)
  obtain ⟨⟨rec, a, hrec, ha⟩, -⟩ := h ⟨1⟩ contendedRun disk (.actionComplete 2 0) p act ⟨1⟩ rfl rfl
    (accepted_iff.mpr (by decide +kernel)) hp hact hsource
  have hgone : ((runFrom step (new ⟨1⟩) contendedRun).resources.find? ⟨1⟩).map
      (fun rec => rec.layout.allocations.find? ⟨1⟩) = some none := by decide +kernel
  rw [htarget] at hrec
  rw [hrec, Option.map_some, ha] at hgone
  cases hgone

end FragmentationGovernor.Coordinator
