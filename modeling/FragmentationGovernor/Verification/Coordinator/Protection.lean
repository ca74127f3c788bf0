import FragmentationGovernor.Verification.Coordinator.Generations
import FragmentationGovernor.Verification.Layout.Reclaim

/-! # Displacement of protected allocations

The allocations a stored plan is going to displace are reclaimable in the present layout as
long as no publication puts a protected one in their place. -/

namespace FragmentationGovernor.Coordinator

/-! ## Targets of stored plans -/

/-- Some action of a stored plan displaces allocation `id` of resource `rid`. -/
def Targeted (c : Coordinator) (rid : ResourceId) (id : AllocationId) : Prop :=
  ∃ k p, c.plans.find? k = some p ∧
    ∃ act ∈ p.actions, act.targetResource = rid ∧ act.sourceAllocation = some id

/-- Whatever a stored plan is going to displace is reclaimable in its present layout. -/
def Guarded (c : Coordinator) : Prop :=
  ∀ rid id rec a, c.Targeted rid id → c.resources.find? rid = some rec →
    rec.layout.allocations.find? id = some a → Planner.reclaimable a = true

/-- A granted publication puts an allocation that may not be displaced where a stored plan
is going to displace one of its id. -/
def Reprotects (c : Coordinator) : Event → Prop
  | .message _ m => c.AdvancesBy m ∧ ∃ a, Planner.reclaimable a = false ∧
      c.Targeted m.resource.id a.id ∧
      ((m.type = .publishLayout ∧ a ∈ m.allocations) ∨
        (m.type = .publishAllocation ∧ a = m.allocation))
  | _ => False

/-- Every plan of `c'` has the actions of a plan of `c`, or none that displaces anything. -/
def NoNewTargets (c c' : Coordinator) : Prop :=
  ∀ k q, c'.plans.find? k = some q →
    (∃ k' p, c.plans.find? k' = some p ∧ q.actions = p.actions) ∨
      ∀ act ∈ q.actions, act.sourceAllocation = none

theorem NoNewTargets.targeted {c c' : Coordinator} (h : NoNewTargets c c') {rid : ResourceId}
    {id : AllocationId} (ht : c'.Targeted rid id) : c.Targeted rid id := by
  obtain ⟨k, q, hq, act, hact, hrid, hid⟩ := ht
  rcases h k q hq with ⟨k', p, hp, hactions⟩ | hnone
  · exact ⟨k', p, hp, act, hactions ▸ hact, hrid, hid⟩
  · rw [hnone act hact] at hid
    cases hid

theorem noNewTargets_of_plans {c c' : Coordinator} (h : c'.plans = c.plans) :
    NoNewTargets c c' := by
  intro k q hq
  rw [h] at hq
  exact Or.inl ⟨k, q, hq, rfl⟩

theorem noNewTargets_insert {c c' : Coordinator} {key : FragmentationPlanId}
    {p q : RemediationPlan} (hp : c.plans.find? key = some p)
    (hplans : c'.plans = c.plans.insert key q) (hactions : q.actions = p.actions) :
    NoNewTargets c c' := by
  intro k q' hq'
  rw [hplans, OrdMap.find?_insert] at hq'
  by_cases hk : k = key
  · rw [if_pos hk] at hq'
    cases hq'
    exact Or.inl ⟨key, p, hp, hactions⟩
  · rw [if_neg hk] at hq'
    exact Or.inl ⟨k, q', hq', rfl⟩

theorem noNewTargets_markWorkerDead (c : Coordinator) (w : WorkerId) :
    NoNewTargets c (c.markWorkerDead w) := by
  intro k q hq
  change (OrdMap.mapVals _ _).find? k = some q at hq
  rw [OrdMap.find?_mapVals, Option.map_eq_some_iff] at hq
  obtain ⟨p, hp, rfl⟩ := hq
  refine Or.inl ⟨k, p, hp, ?_⟩
  split <;> rfl

theorem noNewTargets_register (c : Coordinator) (m : Message) :
    NoNewTargets c (c.register m) := by
  have hdrop : NoNewTargets c (c.dropStale m) := by
    refine dropStale_induction c m ?_ ?_
    · exact noNewTargets_of_plans rfl
    · exact noNewTargets_markWorkerDead c m.worker
  exact hdrop

/-- A restored plan has lost the allocations it displaced. -/
theorem sourceAllocation_of_restorePlan {pp : PersistedPlan} {p : RemediationPlan}
    (h : restorePlan pp = .ok p) : ∀ act ∈ p.actions, act.sourceAllocation = none := by
  simp only [restorePlan, bind_eq_ok, Except.ok.injEq] at h
  obtain ⟨benefit, -, cost, -, risk, -, disruption, -, rfl⟩ := h
  intro act hact
  obtain ⟨kind, -, rfl⟩ := List.mem_map.mp hact
  rfl

theorem noNewTargets_recover (c : Coordinator) (st : PersistedState) :
    NoNewTargets c (c.recover st).1 := by
  intro k q hq
  rcases (restored_recover c st).origin hq with hold | ⟨pp, -, hpp⟩
  · exact Or.inl ⟨k, q, hold, rfl⟩
  · exact Or.inr (sourceAllocation_of_restorePlan hpp)

/-! ## The invariant -/

/-- With no new targets, only allocations that are new at their place can matter. -/
theorem Guarded.of_noNewTargets {c c' : Coordinator} (h : c.Guarded) (hplans : NoNewTargets c c')
    (hnew : ∀ {rid id rec' a}, c.Targeted rid id → c'.resources.find? rid = some rec' →
      rec'.layout.allocations.find? id = some a →
      (∃ rec, c.resources.find? rid = some rec ∧ rec.layout.allocations.find? id = some a) ∨
        Planner.reclaimable a = true) : c'.Guarded := by
  intro rid id rec' a ht hrec' ha
  have ht' := hplans.targeted ht
  rcases hnew ht' hrec' ha with ⟨rec, hrec, hold⟩ | hr
  · exact h rid id rec a ht' hrec hold
  · exact hr

theorem Guarded.of_resources {c c' : Coordinator} (h : c.Guarded) (hplans : NoNewTargets c c')
    (hres : c'.resources = c.resources) : c'.Guarded := by
  refine h.of_noNewTargets hplans ?_
  intro rid id rec' a _ hrec' ha
  rw [hres] at hrec'
  exact Or.inl ⟨rec', hrec', ha⟩

/-- Storing a record matters only at its own place. -/
theorem Guarded.of_insert {c c' : Coordinator} (h : c.Guarded) (hplans : NoNewTargets c c')
    {rid : ResourceId} {new : WorkerResourceRecord}
    (hres : c'.resources = c.resources.insert rid new)
    (hnew : ∀ {id a}, c.Targeted rid id → new.layout.allocations.find? id = some a →
      (∃ rec, c.resources.find? rid = some rec ∧ rec.layout.allocations.find? id = some a) ∨
        Planner.reclaimable a = true) : c'.Guarded := by
  refine h.of_noNewTargets hplans ?_
  intro rid' id rec' a ht hrec' ha
  rw [hres, OrdMap.find?_insert] at hrec'
  by_cases hr : rid' = rid
  · rw [if_pos hr] at hrec'
    cases hrec'
    rw [hr] at ht ⊢
    exact hnew ht ha
  · rw [if_neg hr] at hrec'
    exact Or.inl ⟨rec', hrec', ha⟩

theorem Guarded.markWorkerDead {c : Coordinator} (h : c.Guarded) (w : WorkerId) :
    (c.markWorkerDead w).Guarded := by
  refine h.of_noNewTargets (noNewTargets_markWorkerDead c w) ?_
  intro rid id rec' a _ hrec' ha
  obtain ⟨old, hold, rfl⟩ := markWorkerDead_record hrec'
  exact Or.inl ⟨old, hold, ha⟩

theorem Guarded.register {c : Coordinator} (h : c.Guarded) (m : Message) :
    (c.register m).Guarded := by
  refine h.of_noNewTargets (noNewTargets_register c m) ?_
  intro rid id rec' a _ hrec' ha
  change (c.dropStale m).resources.find? rid = some rec' at hrec'
  rcases dropStale_cases c m with ⟨heq, -⟩ | ⟨heq, -⟩
  · rw [heq] at hrec'
    exact Or.inl ⟨rec', hrec', ha⟩
  · rw [heq] at hrec'
    obtain ⟨old, hold, rfl⟩ := markWorkerDead_record hrec'
    exact Or.inl ⟨old, hold, ha⟩

/-- The targets of a new plan are reclaimable in the snapshot it was made from, and so in
the layouts the snapshot was taken of. -/
theorem Guarded.adopt {c : Coordinator} (hcons : c.Consistent) (h : c.Guarded) {m : Message}
    {plan : RemediationPlan} (hplan : c.proposePlan m.demand = .ok (some plan)) :
    ((c.recordDemand m).adopt plan c.assembleSnapshot).Guarded := by
  intro rid id rec a ht hrec ha
  change c.resources.find? rid = some rec at hrec
  obtain ⟨k, q, hq, act, hact, hrid, hid⟩ := ht
  change (c.plans.insert plan.id { plan with state := .planReady }).find? k = some q at hq
  rw [OrdMap.find?_insert] at hq
  by_cases hk : k = plan.id
  · rw [if_pos hk] at hq
    cases hq
    obtain ⟨s, hs, htarget, id', b, hsource, hb, hr⟩ :=
      (Planner.planRemediation_actions hplan act hact).1
    obtain ⟨rid', rec', hrec', -, rfl⟩ := mem_aliveDevices hs
    have hkey := hcons.keyed hrec'
    rw [htarget, hkey] at hrid
    rw [hrid, hrec] at hrec'
    cases hrec'
    rw [hid] at hsource
    cases hsource
    rw [ha] at hb
    cases hb
    exact hr
  · rw [if_neg hk] at hq
    exact h rid id rec a ⟨k, q, hq, act, hact, hrid, hid⟩ hrec ha

/-- Every message that does not put a protected allocation in the place of a target keeps
the targets reclaimable. -/
theorem Guarded.of_effect {c : Coordinator} (hcons : c.Consistent) (h : c.Guarded)
    {fs : Codec.SaveOutcome} {m : Message} {o : Outcome} (he : Effect c m o)
    (hno : ¬ c.Reprotects (.message fs m)) : o.1.Guarded := by
  cases he with
  | registered _ _ => exact h.register m
  | publishedResource _ _ _ =>
      refine h.of_insert (noNewTargets_of_plans rfl) rfl ?_
      intro id a _ ha
      change (ResourceLayout.ofCapacity _).allocations.find? id = some a at ha
      rw [allocations_ofCapacity] at ha
      cases ha
  | publishedLayout htype hauth hrec howner hgen hins =>
      refine h.of_insert (noNewTargets_of_plans rfl) rfl ?_
      intro id a ht ha
      obtain ⟨hmem, hid⟩ := (find?_insertAll_iff hins).mp ha
      cases hr : Planner.reclaimable a with
      | true => exact Or.inr rfl
      | false =>
          exact (hno ⟨.layout _ _ htype hauth hrec howner hgen hins, a, hr, hid ▸ ht,
            Or.inl ⟨htype, hmem⟩⟩).elim
  | publishedAllocation htype hauth hrec hins =>
      obtain ⟨hinsertable, halloc, -⟩ := (hcons.reachable hrec).valid.of_insertAllocation_ok hins
      refine h.of_insert (noNewTargets_of_plans rfl) rfl ?_
      intro id a ht ha
      rw [halloc, OrdMap.find?_insert] at ha
      by_cases hid : id = m.allocation.id
      · rw [if_pos hid] at ha
        cases ha
        cases hr : Planner.reclaimable m.allocation with
        | true => exact Or.inr rfl
        | false =>
            exact (hno ⟨.allocation _ htype hauth hrec hinsertable, m.allocation, hr,
              hid ▸ ht, Or.inr ⟨htype, rfl⟩⟩).elim
      · rw [if_neg hid] at ha
        exact Or.inl ⟨_, hrec, ha⟩
  | invalidated _ _ hrec _ hrem =>
      refine h.of_insert (noNewTargets_of_plans rfl) rfl ?_
      intro id a _ ha
      have hcleared := (hcons.reachable hrec).valid.cleared.of_removeAllocation hrem
      exact Or.inl ⟨_, hrec, hcleared.find?_of_some ha⟩
  | completed _ hp _ _ _ _ hrec hrem =>
      refine h.of_insert (noNewTargets_insert hp rfl rfl) rfl ?_
      intro id a _ ha
      have hcleared := (hcons.reachable hrec).valid.cleared.of_removeAllocation hrem
      exact Or.inl ⟨_, hrec, hcleared.find?_of_some ha⟩
  | planned _ hplan => exact h.adopt hcons hplan
  | approved _ hp _ _ => exact h.of_resources (noNewTargets_insert hp rfl rfl) rfl
  | began _ hp _ _ _ => exact h.of_resources (noNewTargets_insert hp rfl rfl) rfl
  | skipped _ hp _ _ _ => exact h.of_resources (noNewTargets_insert hp rfl rfl) rfl
  | verified _ hp _ _ _ => exact h.of_resources (noNewTargets_insert hp rfl rfl) rfl
  | cancelled _ hp => exact h.of_resources (noNewTargets_insert hp rfl rfl) rfl
  | revalidated _ hp => exact h.of_resources (noNewTargets_insert hp rfl rfl) rfl
  | advanced _ _ =>
      exact h.of_resources (noNewTargets_of_plans (advance_plans c _))
        (sameEvidence_advance c _).resources
  | _ => exact h.of_resources (noNewTargets_of_plans rfl) rfl

theorem Guarded.step {c : Coordinator} (hcons : c.Consistent) (h : c.Guarded) {e : Event}
    (hno : ¬ c.Reprotects e) : (c.step e).Guarded := by
  cases e with
  | message fs m => exact h.of_effect hcons (hcons.handle_effect fs m) hno
  | workerDead w => exact h.markWorkerDead w
  | recover st =>
      rcases recover_evidence c st with hsame | ⟨hempty, -, -⟩
      · exact h.of_resources (noNewTargets_recover c st) hsame.resources
      · refine h.of_noNewTargets (noNewTargets_recover c st) ?_
        intro rid id rec' a _ hrec' _
        change (c.recover st).1.resources.find? rid = some rec' at hrec'
        rw [hempty] at hrec'
        cases hrec'
  | advancePolicy => exact h.of_resources (noNewTargets_of_plans rfl) rfl

/-! ## Completions -/

/-- Handling the message takes allocation `a` out of the layout of resource `rid`. -/
def Removes (fs : Codec.SaveOutcome) (c : Coordinator) (m : Message) (rid : ResourceId)
    (a : Allocation) : Prop :=
  ∃ rec rec' id, c.resources.find? rid = some rec ∧
    rec.layout.allocations.find? id = some a ∧
    (handle fs c m).1.resources.find? rid = some rec' ∧
    rec'.layout.allocations.find? id = none

/-- What an ACTION_COMPLETE removes is a target of the plan it completes. -/
theorem Consistent.targeted_of_removes {c : Coordinator} (h : c.Consistent)
    {fs : Codec.SaveOutcome} {m : Message} (htype : m.type = .actionComplete)
    {rid : ResourceId} {a : Allocation} (hrem : Removes fs c m rid a) :
    ∃ rec id, c.Targeted rid id ∧ c.resources.find? rid = some rec ∧
      rec.layout.allocations.find? id = some a := by
  obtain ⟨rec, rec', id, hrec, ha, hrec', hnone⟩ := hrem
  have hkept : c.resources.find? rid = some rec' → False := by
    intro hsame
    rw [hrec] at hsame
    cases hsame
    rw [ha] at hnone
    cases hnone
  have he := h.handle_effect fs m
  generalize handle fs c m = o at he hrec'
  cases he with
  | @completed p act source old layout reply _ hp _ hact _ hsource hold hremove =>
      change (c.resources.insert act.targetResource { old with layout := layout }).find? rid =
        some rec' at hrec'
      rw [OrdMap.find?_insert] at hrec'
      by_cases hr : rid = act.targetResource
      · rw [if_pos hr] at hrec'
        cases hrec'
        rw [hr, hold] at hrec
        cases hrec
        by_cases hid : id = source
        · refine ⟨rec, id, ⟨m.planKey, p, hp, act, List.mem_of_getElem? hact, hr.symm, ?_⟩,
            hr ▸ hold, ha⟩
          rw [hid]
          exact hsource
        · -- the removal touched another id, so the allocation is still there
          have hcleared := (h.reachable hold).valid.cleared.of_removeAllocation hremove
          rw [hcleared.find?_of_notMem (by simpa using hid), ha] at hnone
          cases hnone
      · rw [if_neg hr] at hrec'
        exact (hkept hrec').elim
  | registered hbad _ => simp [htype] at hbad
  | publishedResource hbad _ _ => simp [htype] at hbad
  | publishedLayout hbad _ _ _ _ _ => simp [htype] at hbad
  | publishedAllocation hbad _ _ _ => simp [htype] at hbad
  | invalidated hbad _ _ _ _ => simp [htype] at hbad
  | advanced hbad _ => simp [htype] at hbad
  | _ => exact (hkept hrec').elim

/-- In every run whose publications put no protected allocation in the place of a target of
a stored plan: whatever an ACTION_COMPLETE removes from a layout is reclaimable there. -/
theorem completion_removes_reclaimable (epoch : CoordinatorEpoch) (events : List Event)
    (hno : AllSteps step (fun c e => ¬ c.Reprotects e) (new epoch) events)
    (fs : Codec.SaveOutcome) (m : Message) (htype : m.type = .actionComplete)
    (rid : ResourceId) (a : Allocation)
    (hrem : Removes fs (runFrom step (new epoch) events) m rid a) :
    Planner.reclaimable a = true := by
  have hguarded : (runFrom step (new epoch) events).Guarded := by
    refine run_induction ?_ (fun hcons h hstep => Guarded.step hcons h hstep) hno
    intro rid id rec a _ hrec _
    cases hrec
  obtain ⟨rec, id, ht, hrec, ha⟩ := (consistent_run epoch events).targeted_of_removes htype hrem
  exact hguarded rid id rec a ht hrec ha

/-- Plan 1 has begun to release `scratch`. -/
def begunRun : List Event :=
  plannedRun ++ [.approvePlan 1, .beginAction 1 0].map (.message disk)

/-- Both states of the layout, read off a completion. -/
theorem removes_of_eval {fs : Codec.SaveOutcome} {c : Coordinator} {m : Message}
    {rid : ResourceId} {id : AllocationId} {a : Allocation}
    (hbefore : (c.resources.find? rid).bind (fun rec => rec.layout.allocations.find? id) = some a)
    (hafter : ((handle fs c m).1.resources.find? rid).map
      (fun rec => rec.layout.allocations.find? id) = some none) : Removes fs c m rid a := by
  obtain ⟨rec, hrec, ha⟩ := Option.bind_eq_some_iff.mp hbefore
  obtain ⟨rec', hrec', hnone⟩ := Option.map_eq_some_iff.mp hafter
  exact ⟨rec, rec', id, hrec, ha, hrec', hnone⟩

/-- The completion of plan 1 removes `scratch`. -/
theorem completion_removes_reclaimable_begunRun :
    Removes disk (runFrom step (new ⟨1⟩) begunRun) (.actionComplete 1 0) ⟨1⟩ scratch ∧
      Planner.reclaimable scratch = true := by
  have hrem : Removes disk (runFrom step (new ⟨1⟩) begunRun) (.actionComplete 1 0) ⟨1⟩ scratch :=
    @removes_of_eval _ _ _ _ ⟨1⟩ _ (by decide +kernel) (by decide +kernel)
  refine ⟨hrem, completion_removes_reclaimable ⟨1⟩ begunRun ?_ disk (.actionComplete 1 0) rfl ⟨1⟩
    scratch hrem⟩
  refine ⟨?_, ?_, ?_, ?_, ?_, ?_, allSteps_nil⟩
  all_goals
    intro hre
    obtain ⟨-, a, hr, -, hplace⟩ := hre
    rcases hplace with ⟨htype, -⟩ | ⟨htype, ha⟩
    · cases htype
    · first
        | exact absurd htype (by decide)
        | rw [ha] at hr
          cases hr

/-- The allocation is published again, now as protected by policy. -/
def pinned : Allocation := { scratch with policyProtected := true }

/-- The layout of the resource is published with `pinned` in the place of `scratch`. -/
def pinnedRun : List Event :=
  begunRun ++ [.message disk (.publishLayout 1 1 smallResource [pinned])]

/-- The completion of plan 1 removes the protected allocation. -/
theorem completion_removes_protected :
    ¬ ∀ (epoch : CoordinatorEpoch) (events : List Event) (fs : Codec.SaveOutcome) (m : Message)
      (rid : ResourceId) (a : Allocation), m.type = .actionComplete →
      Removes fs (runFrom step (new epoch) events) m rid a → Planner.reclaimable a = true := by
  intro h
  have hrem : Removes disk (runFrom step (new ⟨1⟩) pinnedRun) (.actionComplete 1 0) ⟨1⟩ pinned :=
    @removes_of_eval _ _ _ _ ⟨1⟩ _ (by decide +kernel) (by decide +kernel)
  have hr := h ⟨1⟩ pinnedRun disk (.actionComplete 1 0) ⟨1⟩ pinned rfl hrem
  revert hr
  decide

end FragmentationGovernor.Coordinator
