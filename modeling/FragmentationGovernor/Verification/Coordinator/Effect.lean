import FragmentationGovernor.Model.Coordinator
import FragmentationGovernor.Verification.Layout.Correctness

/-! # What a message can do

The worker and resource maps of a coordinator agree with each other, and under that
agreement every message has one of the effects listed here. -/

namespace FragmentationGovernor.Coordinator

/-! ## Agreement of the maps -/

/-- Live evidence belongs to the current incarnation of a live worker, records are stored
under their own id, and layouts are reachable and of the capacity of their resource. -/
structure Consistent (c : Coordinator) : Prop where
  bootKnown : ∀ {w b}, c.workerAlive.find? w = some b → ∃ boot, c.workerBoot.find? w = some boot
  keyed : ∀ {rid rec}, c.resources.find? rid = some rec → rec.resource.id = rid
  reachable : ∀ {rid rec}, c.resources.find? rid = some rec → rec.layout.Reachable
  capacity : ∀ {rid rec}, c.resources.find? rid = some rec →
    rec.layout.capacity = rec.resource.capacity
  current : ∀ {rid rec}, c.resources.find? rid = some rec → rec.alive = true →
    c.workerAlive.find? rec.worker = some true ∧ c.workerBoot.find? rec.worker = some rec.boot

/-- The message comes from the registered incarnation of a live worker. -/
def Authentic (c : Coordinator) (m : Message) : Prop :=
  c.workerAlive.find? m.worker = some true ∧ c.workerBoot.find? m.worker = some ⟨m.workerBoot⟩

/-- A registration starts from the coordinator as it is or, when it brings a new boot id,
from the one with its worker marked dead. -/
theorem dropStale_cases (c : Coordinator) (m : Message) :
    (c.dropStale m = c ∧ ∀ boot, c.workerBoot.find? m.worker = some boot →
      boot.value = m.workerBoot) ∨
    (c.dropStale m = c.markWorkerDead m.worker ∧
      ∃ boot, c.workerBoot.find? m.worker = some boot ∧ boot.value ≠ m.workerBoot) := by
  unfold dropStale
  cases c.workerBoot.find? m.worker with
  | none => exact Or.inl ⟨rfl, fun _ hb => by cases hb⟩
  | some boot =>
      dsimp only
      by_cases hb : boot.value ≠ m.workerBoot
      · rw [if_pos hb]
        exact Or.inr ⟨rfl, boot, rfl, hb⟩
      · rw [if_neg hb]
        refine Or.inl ⟨rfl, ?_⟩
        intro boot' hboot'
        cases hboot'
        exact not_not.mp hb

/-- What holds of the coordinator with and without the registering worker marked dead holds
once its stale incarnation is dropped. -/
@[elab_as_elim]
theorem dropStale_induction {P : Coordinator → Prop} (c : Coordinator) (m : Message)
    (same : P c) (dead : P (c.markWorkerDead m.worker)) : P (c.dropStale m) := by
  rcases dropStale_cases c m with ⟨heq, -⟩ | ⟨heq, -⟩
  · rw [heq]
    exact same
  · rw [heq]
    exact dead

/-! ## The effects -/

/-- The outcomes of handling `m`, with what each of them presupposes. -/
inductive Effect (c : Coordinator) (m : Message) : Outcome → Prop
  | silent (htype : m.type = .hello ∨ m.type = .shutdown ∨ m.type = .error) :
      Effect c m (c, .ok [])
  | rejected (why : String) : Effect c m (c.reject why)
  | raised (e : ValueError) : Effect c m (c, .error e)
  | answered {reply : Message} (htype : m.type = .queryFragmentation ∨ m.type = .queryFit)
      (hok : reply.ok = true) : Effect c m (c, .ok [reply])
  | saved (htype : m.type = .save) : Effect c m c.accept
  | registered (htype : m.type = .register) (hboot : m.workerBoot ≠ 0) :
      Effect c m (c.register m).accept
  | publishedResource (htype : m.type = .publishResource) (hauth : c.Authentic m)
      (hfresh : c.staleResource m = false) :
      Effect c m (c.store m.resource.id (freshRecord m)).accept
  | publishedLayout {rec : WorkerResourceRecord} {layout : ResourceLayout}
      (htype : m.type = .publishLayout) (hauth : c.Authentic m)
      (hrec : c.resources.find? m.resource.id = some rec) (howner : rec.worker = m.worker)
      (hgen : ¬ m.resourceGen < rec.resource.generation.value)
      (hins : insertAll m.allocations (.ofCapacity rec.resource.capacity) = .ok (.ok layout)) :
      Effect c m (c.store m.resource.id { rec with layout := layout }).accept
  | publishedAllocation {rec : WorkerResourceRecord} {layout : ResourceLayout}
      (htype : m.type = .publishAllocation) (hauth : c.Authentic m)
      (hrec : c.resources.find? m.resource.id = some rec)
      (hins : rec.layout.insertAllocation m.allocation = .ok (layout, .ok ())) :
      Effect c m (c.store m.resource.id { rec with layout := layout }).accept
  | invalidated {rid : ResourceId} {rec : WorkerResourceRecord} {layout : ResourceLayout}
      (htype : m.type = .invalidateAllocation) (hauth : c.Authentic m)
      (hrec : c.resources.find? rid = some rec) (howner : rec.worker = m.worker)
      (hrem : rec.layout.removeAllocation ⟨m.allocationId⟩ = .ok (layout, .ok ())) :
      Effect c m (c.store rid { rec with layout := layout }).accept
  | planRaised {e : ValueError} (htype : m.type = .createPlan)
      (hplan : c.proposePlan m.demand = .error e) : Effect c m (c.recordDemand m, .error e)
  | planRefused (htype : m.type = .createPlan) (hplan : c.proposePlan m.demand = .ok none) :
      Effect c m (c.recordDemand m,
        .ok [{ type := .error, ok := false, detail := "no beneficial action" }])
  | planned {plan : RemediationPlan} (htype : m.type = .createPlan)
      (hplan : c.proposePlan m.demand = .ok (some plan)) :
      Effect c m ((c.recordDemand m).adopt plan c.assembleSnapshot,
        .ok [{ type := .planResult, ok := true, plan := { plan with state := .planReady } }])
  | approved {p : RemediationPlan} (htype : m.type = .approvePlan)
      (hp : c.plans.find? m.planKey = some p) (hstate : p.state ≠ .superseded)
      (hpolicy : p.policyGeneration = c.policyGeneration) :
      Effect c m (c.setState p m.planKey .approved).accept
  | began {p : RemediationPlan} (htype : m.type = .beginAction)
      (hp : c.plans.find? m.planKey = some p) (hstate : p.state = .approved)
      (hexec : c.canExecute p m = true) (hindex : m.actionIndex.toNat < p.actions.length) :
      Effect c m (c.setState p m.planKey .executing).accept
  | skipped {p : RemediationPlan} {act : PlanAction} (htype : m.type = .actionComplete)
      (hp : c.plans.find? m.planKey = some p) (hstate : p.state = .executing)
      (hact : p.actions[m.actionIndex.toNat]? = some act)
      (hnone : m.actionOk = false ∨ act.sourceAllocation = none ∨
        c.resources.find? act.targetResource = none) :
      Effect c m (c.setState p m.planKey .verifying).accept
  | completed {p : RemediationPlan} {act : PlanAction} {source : AllocationId}
      {rec : WorkerResourceRecord} {layout : ResourceLayout} {reply : LayoutReply}
      (htype : m.type = .actionComplete) (hp : c.plans.find? m.planKey = some p)
      (hstate : p.state = .executing) (hact : p.actions[m.actionIndex.toNat]? = some act)
      (hok : m.actionOk = true) (hsource : act.sourceAllocation = some source)
      (hrec : c.resources.find? act.targetResource = some rec)
      (hrem : rec.layout.removeAllocation source = .ok (layout, reply)) :
      Effect c m ((c.store act.targetResource { rec with layout := layout }).setState p
        m.planKey .verifying).accept
  | verified {p : RemediationPlan} {before : FragmentationSnapshot} {v : VerificationResult}
      (htype : m.type = .verify) (hp : c.plans.find? m.planKey = some p)
      (hstate : p.state = .verifying) (hbefore : c.beforeSnapshots.find? m.planKey = some before)
      (hverify : verifyRemediation before c.assembleSnapshot c.lastDemand p = .ok v) :
      Effect c m (c.setState { p with verification := some v.outcome } m.planKey
          (stateAfter v.outcome),
        .ok [{ type := .verify, ok := true, verificationOutcome := v.outcome,
               detail := v.diagnostics.headD "" }])
  | cancelled {p : RemediationPlan} (htype : m.type = .cancelPlan)
      (hp : c.plans.find? m.planKey = some p) :
      Effect c m (c.setState p m.planKey .cancelled).accept
  | revalidated {p : RemediationPlan} (htype : m.type = .revalidate)
      (hp : c.plans.find? m.planKey = some p) :
      Effect c m (c.setState p m.planKey .revalidationRequired).accept
  | advanced (htype : m.type = .advanceGeneration) (hkind : m.generationKind.toNat ≤ 2) :
      Effect c m (c.advance m.generationKind.toNat).accept

/-! ## Every message has an effect -/

section Dispatch

variable {fs : Codec.SaveOutcome} {c : Coordinator} {m : Message}

theorem handle_register (h : m.type = .register) : handle fs c m = c.handleRegister m := by
  simp only [handle, h]

theorem handle_createPlan (h : m.type = .createPlan) : handle fs c m = c.handleCreatePlan m := by
  simp only [handle, h]

theorem handle_beginAction (h : m.type = .beginAction) :
    handle fs c m = c.handleBeginAction m := by
  simp only [handle, h]

theorem handle_actionComplete (h : m.type = .actionComplete) :
    handle fs c m = c.handleActionComplete m := by
  simp only [handle, h]

theorem handle_verify (h : m.type = .verify) : handle fs c m = c.handleVerify m := by
  simp only [handle, h]

end Dispatch

section Handlers

variable {c : Coordinator} {m : Message}

/-- The common tests of the publications, once the boot id of the worker is known. -/
theorem fromWorker_eq {boot : WorkerBootId} (halive : c.workerAlive.find? m.worker = some true)
    (hboot : c.workerBoot.find? m.worker = some boot) (k : Coordinator → Outcome) :
    c.fromWorker m k =
      if boot.value ≠ m.workerBoot then c.reject "stale WorkerBootId" else k c := by
  have hemplace : c.workerBoot.emplace m.worker default = c.workerBoot :=
    if_pos (OrdMap.contains_iff.mpr ⟨boot, hboot⟩)
  unfold fromWorker
  rw [halive]
  dsimp only
  rw [hemplace, hboot]

theorem Authentic.fromWorker_eq (h : c.Authentic m) (k : Coordinator → Outcome) :
    c.fromWorker m k = k c := by
  rw [Coordinator.fromWorker_eq h.1 h.2, if_neg (by simp)]

/-- The common tests of the publications pass or reject, and change nothing. -/
theorem Consistent.fromWorker_cases (h : c.Consistent) (m : Message)
    (k : Coordinator → Outcome) :
    (c.Authentic m ∧ c.fromWorker m k = k c) ∨ ∃ why, c.fromWorker m k = c.reject why := by
  cases halive : c.workerAlive.find? m.worker with
  | none =>
      refine Or.inr ⟨"unregistered/dead worker", ?_⟩
      rw [fromWorker, halive]
  | some b =>
      cases b with
      | false =>
          refine Or.inr ⟨"unregistered/dead worker", ?_⟩
          rw [fromWorker, halive]
      | true =>
          obtain ⟨boot, hboot⟩ := h.bootKnown halive
          rw [fromWorker_eq halive hboot]
          by_cases hb : boot.value ≠ m.workerBoot
          · rw [if_pos hb]
            exact Or.inr ⟨_, rfl⟩
          · rw [if_neg hb]
            rw [not_not] at hb
            refine Or.inl ⟨⟨halive, ?_⟩, rfl⟩
            rw [hboot, ← hb]

theorem Consistent.fromWorker_effect (h : c.Consistent) {k : Coordinator → Outcome}
    (hk : c.Authentic m → Effect c m (k c)) : Effect c m (c.fromWorker m k) := by
  rcases h.fromWorker_cases m k with ⟨hauth, heq⟩ | ⟨why, heq⟩
  · rw [heq]
    exact hk hauth
  · rw [heq]
    exact .rejected why

theorem handlePublishResource_effect (h : c.Consistent) (htype : m.type = .publishResource) :
    Effect c m (c.handlePublishResource m) := by
  apply h.fromWorker_effect
  intro hauth
  by_cases hstale : c.staleResource m = true
  · rw [if_pos hstale]
    exact .rejected _
  · rw [if_neg hstale]
    exact .publishedResource htype hauth (by simpa using hstale)

theorem handlePublishLayout_effect (h : c.Consistent) (htype : m.type = .publishLayout) :
    Effect c m (c.handlePublishLayout m) := by
  apply h.fromWorker_effect
  intro hauth
  cases hrec : c.resources.find? m.resource.id with
  | none => exact .rejected _
  | some rec =>
      dsimp only
      by_cases howner : rec.worker ≠ m.worker
      · rw [if_pos howner]
        exact .rejected _
      · rw [if_neg howner]
        by_cases hgen : m.resourceGen < rec.resource.generation.value
        · rw [if_pos hgen]
          exact .rejected _
        · rw [if_neg hgen]
          cases hins : insertAll m.allocations (.ofCapacity rec.resource.capacity) with
          | error e => exact .raised e
          | ok r =>
              cases r with
              | error e => exact .rejected _
              | ok layout =>
                  exact .publishedLayout htype hauth hrec (not_not.mp howner) hgen hins

theorem handlePublishAllocation_effect (h : c.Consistent) (htype : m.type = .publishAllocation) :
    Effect c m (c.handlePublishAllocation m) := by
  apply h.fromWorker_effect
  intro hauth
  cases hrec : c.resources.find? m.resource.id with
  | none => exact .rejected _
  | some rec =>
      dsimp only
      cases hins : rec.layout.insertAllocation m.allocation with
      | error e => exact .raised e
      | ok r =>
          obtain ⟨layout, reply⟩ := r
          cases reply with
          | error e => exact .rejected _
          | ok u => exact .publishedAllocation htype hauth hrec hins

/-- The record belongs to the worker and its layout holds the allocation. -/
def HoldsFor (rec : WorkerResourceRecord) (w : WorkerId) (id : AllocationId) : Prop :=
  rec.worker = w ∧ ∃ a, rec.layout.findAllocation id = some a

/-- The search passes over a record that does not hold the allocation. -/
theorem removeFirst_cons_of_not_holds {w : WorkerId} {id : AllocationId} {rid : ResourceId}
    {rec : WorkerResourceRecord} (hrec : c.resources.find? rid = some rec)
    (hnot : ¬ HoldsFor rec w id) (rest : List (ResourceId × WorkerResourceRecord)) :
    removeFirst w id ((rid, rec) :: rest) c.resources = removeFirst w id rest c.resources := by
  simp only [removeFirst]
  by_cases howner : rec.worker ≠ w
  · rw [if_pos howner]
  · have hnone : rec.layout.allocations.find? id = none := by
      cases ha : rec.layout.allocations.find? id with
      | none => rfl
      | some a => exact absurd ⟨not_not.mp howner, a, ha⟩ hnot
    rw [if_neg howner, ResourceLayout.removeAllocation_of_none hnone, ok_bind]
    dsimp only
    rw [OrdMap.insert_of_find?_eq_some hrec]

/-- It ends at a record that holds the allocation, which is edited. -/
theorem removeFirst_cons_of_holds {w : WorkerId} {id : AllocationId} {rid : ResourceId}
    {rec : WorkerResourceRecord} (hvalid : rec.layout.Valid) (hholds : HoldsFor rec w id)
    (rest : List (ResourceId × WorkerResourceRecord)) :
    ∃ layout, rec.layout.removeAllocation id = .ok (layout, .ok ()) ∧
      removeFirst w id ((rid, rec) :: rest) c.resources =
        .ok (c.resources.insert rid { rec with layout := layout }, true) := by
  obtain ⟨howner, a, ha⟩ := hholds
  obtain ⟨layout, hrem, -⟩ := hvalid.removeAllocation_of_some ha
  refine ⟨layout, hrem, ?_⟩
  simp only [removeFirst]
  rw [if_neg (not_not.mpr howner), hrem, ok_bind]

/-- The search for an allocation to invalidate leaves the resources alone when no record holds
it, and otherwise edits the first one that does. -/
theorem Consistent.removeFirst_cases (h : c.Consistent) (w : WorkerId) (id : AllocationId)
    (es : List (ResourceId × WorkerResourceRecord))
    (hes : ∀ e ∈ es, c.resources.find? e.1 = some e.2) :
    (removeFirst w id es c.resources = .ok (c.resources, false) ∧ ∀ e ∈ es, ¬ HoldsFor e.2 w id) ∨
      ∃ front rid rec back layout, es = front ++ (rid, rec) :: back ∧
        (∀ e ∈ front, ¬ HoldsFor e.2 w id) ∧ HoldsFor rec w id ∧
        rec.layout.removeAllocation id = .ok (layout, .ok ()) ∧
        removeFirst w id es c.resources =
          .ok (c.resources.insert rid { rec with layout := layout }, true) := by
  induction es with
  | nil => exact Or.inl ⟨rfl, by simp⟩
  | cons e rest ih =>
      obtain ⟨rid, rec⟩ := e
      have hrec : c.resources.find? rid = some rec := hes (rid, rec) (by simp)
      by_cases hholds : HoldsFor rec w id
      · obtain ⟨layout, hrem, hsome⟩ :=
          removeFirst_cons_of_holds (h.reachable hrec).valid hholds rest
        exact Or.inr ⟨[], rid, rec, rest, layout, rfl, by simp, hholds, hrem, hsome⟩
      · have hpassed := removeFirst_cons_of_not_holds hrec hholds rest
        rcases ih (fun x hx => hes x (by simp [hx])) with
          ⟨hnone, hall⟩ | ⟨front, rid', rec', back, layout, hsplit, hfront, hfirst, hrem, hsome⟩
        · exact Or.inl ⟨hpassed.trans hnone, List.forall_mem_cons.mpr ⟨hholds, hall⟩⟩
        · exact Or.inr ⟨(rid, rec) :: front, rid', rec', back, layout, by rw [hsplit]; rfl,
            List.forall_mem_cons.mpr ⟨hholds, hfront⟩, hfirst, hrem, hpassed.trans hsome⟩

theorem handleInvalidateAllocation_effect (h : c.Consistent)
    (htype : m.type = .invalidateAllocation) : Effect c m (c.handleInvalidateAllocation m) := by
  apply h.fromWorker_effect
  intro hauth
  rcases h.removeFirst_cases m.worker ⟨m.allocationId⟩ c.resources.entries
      (fun e he => OrdMap.find?_eq_some_iff.mpr he) with
    ⟨hnone, -⟩ | ⟨front, rid, rec, back, layout, hsplit, -, hholds, hrem, hsome⟩
  · rw [hnone]
    exact .rejected _
  · rw [hsome]
    exact .invalidated htype hauth (OrdMap.find?_of_split hsplit) hholds.1 hrem

theorem withPlan_effect {k : RemediationPlan → Outcome}
    (hk : ∀ p, c.plans.find? m.planKey = some p → Effect c m (k p)) :
    Effect c m (c.withPlan m k) := by
  unfold withPlan
  cases hp : c.plans.find? m.planKey with
  | none => exact .rejected _
  | some p => exact hk p hp

theorem handleApprovePlan_effect (htype : m.type = .approvePlan) :
    Effect c m (c.handleApprovePlan m) := by
  apply withPlan_effect
  intro p hp
  by_cases hs : p.state = .superseded
  · rw [if_pos hs]
    exact .rejected _
  · rw [if_neg hs]
    by_cases hg : p.policyGeneration ≠ c.policyGeneration
    · rw [if_pos hg]
      exact .rejected _
    · rw [if_neg hg]
      exact .approved htype hp hs (not_not.mp hg)

theorem handleBeginAction_effect (htype : m.type = .beginAction) :
    Effect c m (c.handleBeginAction m) := by
  apply withPlan_effect
  intro p hp
  by_cases hs : p.state ≠ .approved
  · rw [if_pos hs]
    exact .rejected _
  · rw [if_neg hs]
    cases he : c.canExecute p m with
    | false => exact .rejected _
    | true =>
        rw [if_neg (by decide)]
        by_cases hi : m.actionIndex.toNat ≥ p.actions.length
        · rw [if_pos hi]
          exact .rejected _
        · rw [if_neg hi]
          exact .began htype hp (not_not.mp hs) he (not_le.mp hi)

theorem handleActionComplete_effect (htype : m.type = .actionComplete) :
    Effect c m (c.handleActionComplete m) := by
  apply withPlan_effect
  intro p hp
  by_cases hs : p.state ≠ .executing
  · rw [if_pos hs]
    exact .rejected _
  · rw [if_neg hs]
    rw [not_not] at hs
    cases hact : p.actions[m.actionIndex.toNat]? with
    | none => exact .rejected _
    | some act =>
        cases hok : m.actionOk with
        | false => exact .skipped htype hp hs hact (Or.inl hok)
        | true =>
            dsimp only
            rw [if_pos rfl, completeAction]
            cases hsource : act.sourceAllocation with
            | none => exact .skipped htype hp hs hact (Or.inr (Or.inl hsource))
            | some source =>
                cases hrec : c.resources.find? act.targetResource with
                | none => exact .skipped htype hp hs hact (Or.inr (Or.inr hrec))
                | some rec =>
                    dsimp only
                    cases hrem : rec.layout.removeAllocation source with
                    | error e => exact .raised e
                    | ok r => exact .completed htype hp hs hact hok hsource hrec hrem

theorem handleVerify_effect (htype : m.type = .verify) : Effect c m (c.handleVerify m) := by
  apply withPlan_effect
  intro p hp
  by_cases hs : p.state ≠ .verifying
  · rw [if_pos hs]
    exact .rejected _
  · rw [if_neg hs]
    cases hb : c.beforeSnapshots.find? m.planKey with
    | none => exact .rejected _
    | some before =>
        dsimp only
        cases hv : verifyRemediation before c.assembleSnapshot c.lastDemand p with
        | error e => exact .raised e
        | ok v => exact .verified htype hp (not_not.mp hs) hb hv

theorem handleCreatePlan_effect (htype : m.type = .createPlan) :
    Effect c m (c.handleCreatePlan m) := by
  unfold handleCreatePlan
  cases hplan : c.proposePlan m.demand with
  | error e => exact .planRaised htype hplan
  | ok r =>
      cases r with
      | none => exact .planRefused htype hplan
      | some plan => exact .planned htype hplan

theorem handleAdvanceGeneration_effect (htype : m.type = .advanceGeneration) :
    Effect c m (c.handleAdvanceGeneration m) := by
  unfold handleAdvanceGeneration
  by_cases hk : m.generationKind.toNat ≤ 2
  · rw [if_pos hk]
    exact .advanced htype hk
  · rw [if_neg hk]
    exact .rejected _

end Handlers

/-- Handling a message on consistent maps has one of the listed effects. -/
theorem Consistent.handle_effect {c : Coordinator} (h : c.Consistent) (fs : Codec.SaveOutcome)
    (m : Message) : Effect c m (handle fs c m) := by
  unfold handle
  cases htype : m.type with
  | hello => exact .silent (Or.inl htype)
  | shutdown => exact .silent (Or.inr (Or.inl htype))
  | error => exact .silent (Or.inr (Or.inr htype))
  | register =>
      dsimp only [handleRegister]
      by_cases hboot : m.workerBoot = 0
      · rw [if_pos hboot]
        exact .rejected _
      · rw [if_neg hboot]
        exact .registered htype hboot
  | publishResource => exact handlePublishResource_effect h htype
  | publishLayout => exact handlePublishLayout_effect h htype
  | publishAllocation => exact handlePublishAllocation_effect h htype
  | invalidateAllocation => exact handleInvalidateAllocation_effect h htype
  | queryFragmentation =>
      dsimp only [handleQueryFragmentation]
      cases describeDevices 0 c.assembleSnapshot.devices with
      | error e => exact .raised e
      | ok detail => exact .answered (Or.inl htype) rfl
  | queryFit =>
      dsimp only [handleQueryFit]
      cases analyzeFit c.assembleSnapshot m.demand with
      | error e => exact .raised e
      | ok r => exact .answered (Or.inr htype) rfl
  | createPlan => exact handleCreatePlan_effect htype
  | planResult => exact .rejected _
  | approvePlan => exact handleApprovePlan_effect htype
  | beginAction => exact handleBeginAction_effect htype
  | actionComplete => exact handleActionComplete_effect htype
  | verify => exact handleVerify_effect htype
  | cancelPlan => exact withPlan_effect (fun p hp => .cancelled htype hp)
  | advanceGeneration => exact handleAdvanceGeneration_effect htype
  | revalidate => exact withPlan_effect (fun p hp => .revalidated htype hp)
  | save =>
      dsimp only [handleSave]
      cases Codec.saveState fs c.persist with
      | error e => exact .rejected _
      | ok u => exact .saved htype

/-! ## Recovery -/

/-- The plans after some persisted ones were restored over the old ones. -/
structure Restored (pps : List PersistedPlan)
    (old new : OrdMap FragmentationPlanId RemediationPlan) : Prop where
  kept : ∀ {k}, (∀ pp ∈ pps, pp.id ≠ k) → new.find? k = old.find? k
  origin : ∀ {k p}, new.find? k = some p →
    old.find? k = some p ∨ ∃ pp ∈ pps, restorePlan pp = .ok p

theorem restorePlan_id {pp : PersistedPlan} {p : RemediationPlan} (h : restorePlan pp = .ok p) :
    p.id = pp.id := by
  simp only [restorePlan, bind_eq_ok, Except.ok.injEq] at h
  obtain ⟨benefit, -, cost, -, risk, -, disruption, -, rfl⟩ := h
  rfl

theorem restorePlans_cases (pps : List PersistedPlan) (c : Coordinator) :
    ∃ plans, Restored pps c.plans plans ∧ (restorePlans pps c).1 = { c with plans := plans } := by
  induction pps generalizing c with
  | nil => exact ⟨c.plans, ⟨fun _ => rfl, Or.inl⟩, rfl⟩
  | cons pp rest ih =>
      simp only [restorePlans]
      cases hpp : restorePlan pp with
      | error e => exact ⟨c.plans, ⟨fun _ => rfl, Or.inl⟩, rfl⟩
      | ok p =>
          obtain ⟨plans, hrestored, heq⟩ := ih { c with plans := c.plans.insert p.id p }
          refine ⟨plans, ⟨?_, ?_⟩, heq⟩
          · intro k hk
            have hne : k ≠ p.id := by
              rw [restorePlan_id hpp]
              exact (hk pp (by simp)).symm
            rw [hrestored.kept (fun x hx => hk x (by simp [hx]))]
            exact OrdMap.find?_insert_of_ne _ _ hne
          · intro k q hq
            rcases hrestored.origin hq with hold | ⟨x, hx, hxq⟩
            · change (c.plans.insert p.id p).find? k = some q at hold
              rw [OrdMap.find?_insert] at hold
              by_cases hk : k = p.id
              · rw [if_pos hk] at hold
                cases hold
                exact Or.inr ⟨pp, by simp, hpp⟩
              · rw [if_neg hk] at hold
                exact Or.inl hold
            · exact Or.inr ⟨x, by simp [hx], hxq⟩

/-- A recovery restores counters and plans; one that returns also drops all evidence. -/
theorem recover_cases (c : Coordinator) (st : PersistedState) :
    ∃ plans, Restored st.plans c.plans plans ∧
      ((c.recover st).1 = { c.restoreGenerations st with plans := plans } ∨
        (c.recover st).1 = { c.restoreGenerations st with
          plans := plans, resources := ∅, workerAlive := ∅, workerBoot := ∅ }) := by
  obtain ⟨plans, hrestored, heq⟩ := restorePlans_cases st.plans (c.restoreGenerations st)
  refine ⟨plans, hrestored, ?_⟩
  unfold recover
  cases hres : restorePlans st.plans (c.restoreGenerations st) with
  | mk c' r =>
      rw [hres] at heq
      cases heq
      cases r with
      | error e => exact Or.inl rfl
      | ok u => exact Or.inr rfl

/-- The plans after a recovery, whether it returns or not. -/
theorem restored_recover (c : Coordinator) (st : PersistedState) :
    Restored st.plans c.plans (c.recover st).1.plans := by
  obtain ⟨plans, hrestored, heq | heq⟩ := recover_cases c st
  · rw [heq]
    exact hrestored
  · rw [heq]
    exact hrestored

end FragmentationGovernor.Coordinator
