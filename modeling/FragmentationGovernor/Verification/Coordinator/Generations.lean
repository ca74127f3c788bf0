import FragmentationGovernor.Verification.Coordinator.Capture

/-! # Generations between planning and execution

Which events advance the generations of a coordinator, and what a BEGIN_ACTION can rely on
when none of them has happened since its plan was created. -/

namespace FragmentationGovernor.Coordinator

/-! ## The events that advance a generation -/

/-- The message changes the evidence or asks for a new generation: a publication, an
invalidation or a completion that is granted, or an ADVANCE_GENERATION of a known kind. -/
inductive AdvancesBy (c : Coordinator) (m : Message) : Prop
  | resource (htype : m.type = .publishResource) (hauth : c.Authentic m)
      (hfresh : c.staleResource m = false)
  | layout (rec : WorkerResourceRecord) (layout : ResourceLayout)
      (htype : m.type = .publishLayout) (hauth : c.Authentic m)
      (hrec : c.resources.find? m.resource.id = some rec) (howner : rec.worker = m.worker)
      (hgen : ¬ m.resourceGen < rec.resource.generation.value)
      (hins : insertAll m.allocations (.ofCapacity rec.resource.capacity) = .ok (.ok layout))
  | allocation (rec : WorkerResourceRecord) (htype : m.type = .publishAllocation)
      (hauth : c.Authentic m) (hrec : c.resources.find? m.resource.id = some rec)
      (hins : rec.layout.Insertable m.allocation)
  | invalidation (rid : ResourceId) (rec : WorkerResourceRecord) (a : Allocation)
      (htype : m.type = .invalidateAllocation) (hauth : c.Authentic m)
      (hrec : c.resources.find? rid = some rec) (howner : rec.worker = m.worker)
      (ha : rec.layout.allocations.find? ⟨m.allocationId⟩ = some a)
  | completion (p : RemediationPlan) (act : PlanAction) (source : AllocationId)
      (rec : WorkerResourceRecord) (htype : m.type = .actionComplete)
      (hp : c.plans.find? m.planKey = some p) (hstate : p.state = .executing)
      (hact : p.actions[m.actionIndex.toNat]? = some act) (hok : m.actionOk = true)
      (hsource : act.sourceAllocation = some source)
      (hrec : c.resources.find? act.targetResource = some rec)
  | generation (htype : m.type = .advanceGeneration) (hkind : m.generationKind.toNat ≤ 2)

/-- The messages that may do so. -/
theorem AdvancesBy.type {c : Coordinator} {m : Message} (h : c.AdvancesBy m) :
    m.type ∈ [MsgType.publishResource, .publishLayout, .publishAllocation,
      .invalidateAllocation, .actionComplete, .advanceGeneration] := by
  cases h with
  | resource htype _ _ => simp [htype]
  | layout _ _ htype _ _ _ _ _ => simp [htype]
  | allocation _ htype _ _ _ => simp [htype]
  | invalidation _ _ _ htype _ _ _ _ => simp [htype]
  | completion _ _ _ _ htype _ _ _ _ _ _ => simp [htype]
  | generation htype _ => simp [htype]

def Advances (c : Coordinator) : Event → Prop
  | .message _ m => c.AdvancesBy m
  | .recover _ => True
  | _ => False

theorem dropStale_generations (c : Coordinator) (m : Message) :
    (c.dropStale m).generations = c.generations := by
  refine dropStale_induction c m ?_ ?_
  · rfl
  · rfl

/-- Every other message leaves the generations alone. -/
theorem Effect.generations_eq {c : Coordinator} (h : c.Consistent) {m : Message} {o : Outcome}
    (he : Effect c m o) (hno : ¬ c.AdvancesBy m) : o.1.generations = c.generations := by
  cases he with
  | registered _ _ => exact dropStale_generations c m
  | publishedResource htype hauth hfresh => exact (hno (.resource htype hauth hfresh)).elim
  | publishedLayout htype hauth hrec howner hgen hins =>
      exact (hno (.layout _ _ htype hauth hrec howner hgen hins)).elim
  | publishedAllocation htype hauth hrec hins =>
      have hinsertable := ((h.reachable hrec).valid.of_insertAllocation_ok hins).1
      exact (hno (.allocation _ htype hauth hrec hinsertable)).elim
  | invalidated htype hauth hrec howner hrem =>
      obtain ⟨a, ha⟩ := ResourceLayout.exists_of_removeAllocation_ok hrem
      exact (hno (.invalidation _ _ a htype hauth hrec howner ha)).elim
  | completed htype hp hstate hact hok hsource hrec _ =>
      exact (hno (.completion _ _ _ _ htype hp hstate hact hok hsource hrec)).elim
  | advanced htype hkind => exact (hno (.generation htype hkind)).elim
  | _ => rfl

theorem Consistent.generations_step {c : Coordinator} (h : c.Consistent) {e : Event}
    (hno : ¬ Advances c e) : (c.step e).generations = c.generations := by
  cases e with
  | message fs m => exact (h.handle_effect fs m).generations_eq h hno
  | workerDead w => rfl
  | recover st => exact (hno trivial).elim
  | advancePolicy => rfl

theorem Consistent.generations_run {c : Coordinator} (h : c.Consistent) {events : List Event}
    (hno : AllSteps Coordinator.step (fun c e => ¬ Advances c e) c events) :
    (runFrom Coordinator.step c events).generations = c.generations := by
  induction events generalizing c with
  | nil => rfl
  | cons e rest ih =>
      rw [runFrom_cons, ih (h.step e) hno.2]
      exact h.generations_step hno.1

/-! ## BEGIN_ACTION -/

/-- In every run: when BEGIN_ACTION is accepted for an action of a plan of the run, and no
generation was advanced since its creation, the generations the action captured are those
of the coordinator. -/
theorem began_generations_current (epoch : CoordinatorEpoch) (front mid : List Event)
    (fs fs' : Codec.SaveOutcome) (m reply m' : Message)
    (hcreate : Created fs (runFrom step (new epoch) front) m reply)
    (hsame : AllSteps step (fun c e => ¬ Replaces reply.plan.id c e)
      (runFrom step (new epoch) (front ++ [.message fs m])) mid)
    (hno : AllSteps step (fun c e => ¬ Advances c e)
      (runFrom step (new epoch) (front ++ [.message fs m])) mid)
    (htype : m'.type = .beginAction) (hkey : m'.planKey = reply.plan.id)
    (hacc : Accepted (handle fs' (runFrom step (new epoch) (front ++ [.message fs m] ++ mid)) m')) :
    ∃ act, reply.plan.actions[m'.actionIndex.toNat]? = some act ∧
      act.generations =
        (runFrom step (new epoch) (front ++ [.message fs m] ++ mid)).generations := by
  obtain ⟨hplan, -, -, hgen⟩ := hcreate.stored
  have hcons := consistent_run epoch (front ++ [.message fs m])
  have hstored : (runFrom step (new epoch) (front ++ [.message fs m])).plans.find?
      reply.plan.id = some reply.plan := by
    rw [runFrom_snoc]
    exact hplan
  obtain ⟨q, hq, hsamePlan⟩ := hcons.plan_run hstored hsame
  have hrun := hcons.generations_run hno
  rw [← runFrom_append] at hq hrun
  obtain ⟨p, hp, -, -, hindex⟩ := (accepted_beginAction_iff htype).mp hacc
  rw [hkey, hq] at hp
  cases hp
  rw [hsamePlan.actions] at hindex
  refine ⟨reply.plan.actions[m'.actionIndex.toNat], List.getElem?_eq_getElem hindex, ?_⟩
  rw [hcreate.generations _ (List.getElem_mem hindex), hrun, runFrom_snoc]
  exact hgen.symm

/-- Plan 1 is approved and at once begun. -/
theorem began_generations_current_approved :
    ∃ reply, Created disk (runFrom step (new ⟨1⟩) publishedRun)
        (.createPlan wholeResource) reply ∧
      ∃ act, reply.plan.actions[(Message.beginAction 1 0).actionIndex.toNat]? = some act ∧
        act.generations = (runFrom step (new ⟨1⟩) (publishedRun ++
          [.message disk (.createPlan wholeResource)] ++
          [.message disk (.approvePlan 1)])).generations := by
  obtain ⟨reply, hcreate, hid⟩ := created_publishedRun
  refine ⟨reply, hcreate, ?_⟩
  have hacc : Accepted (handle disk (runFrom step (new ⟨1⟩) (publishedRun ++
      [.message disk (.createPlan wholeResource)] ++ [.message disk (.approvePlan 1)]))
        (.beginAction 1 0)) :=
    accepted_iff.mpr (by decide +kernel)
  refine began_generations_current ⟨1⟩ publishedRun [.message disk (.approvePlan 1)] disk disk
    (.createPlan wholeResource) reply (.beginAction 1 0) hcreate ⟨?_, allSteps_nil⟩
    ⟨?_, allSteps_nil⟩ rfl (by rw [hid]; rfl) hacc
  · intro hrep
    cases hrep.1
  · intro hadv
    exact absurd (AdvancesBy.type hadv) (by decide)

/-- The layout of the resource is published again while plan 1 waits for its beginning. -/
def republished : List Event :=
  [.approvePlan 1, .publishLayout 1 1 smallResource [scratch]].map (.message disk)

/-- BEGIN_ACTION is accepted although the generations have moved on since the plan. -/
theorem began_generations_stale :
    ¬ ∀ (epoch : CoordinatorEpoch) (front mid : List Event) (fs fs' : Codec.SaveOutcome)
      (m reply m' : Message),
      Created fs (runFrom step (new epoch) front) m reply →
      AllSteps step (fun c e => ¬ Replaces reply.plan.id c e)
        (runFrom step (new epoch) (front ++ [.message fs m])) mid →
      m'.type = .beginAction → m'.planKey = reply.plan.id →
      Accepted (handle fs' (runFrom step (new epoch) (front ++ [.message fs m] ++ mid)) m') →
      ∃ act, reply.plan.actions[m'.actionIndex.toNat]? = some act ∧
        act.generations =
          (runFrom step (new epoch) (front ++ [.message fs m] ++ mid)).generations := by
  intro h
  obtain ⟨reply, hcreate, hid⟩ := created_publishedRun
  have hacc : Accepted (handle disk (runFrom step (new ⟨1⟩) (publishedRun ++
      [.message disk (.createPlan wholeResource)] ++ republished)) (.beginAction 1 0)) :=
    accepted_iff.mpr (by decide +kernel)
  have hsame : AllSteps step (fun c e => ¬ Replaces reply.plan.id c e)
      (runFrom step (new ⟨1⟩) (publishedRun ++ [.message disk (.createPlan wholeResource)]))
      republished := by
    refine ⟨?_, ?_, allSteps_nil⟩
    all_goals
      intro hrep
      cases hrep.1
  obtain ⟨act, hact, hgen⟩ := h ⟨1⟩ publishedRun republished disk disk (.createPlan wholeResource)
    reply (.beginAction 1 0) hcreate hsame rfl (by rw [hid]; rfl) hacc
  rw [hcreate.generations act (List.mem_of_getElem? hact)] at hgen
  revert hgen
  decide +kernel

end FragmentationGovernor.Coordinator
