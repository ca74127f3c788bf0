import FragmentationGovernor.Verification.Coordinator.Execution
import FragmentationGovernor.Verification.Coordinator.Publication
import FragmentationGovernor.Verification.Planner.Comparison

/-! # The remediation loop closes

A controller that approves a plan before each of its actions has every message accepted. The
demand the plan was made for fits after its last action, and after no action before that; the
verification says so. -/

namespace FragmentationGovernor.Coordinator

/-! ## Actions on records and on devices -/

section Devices

/-- The device of a record that is alive. -/
def deviceOf (e : ResourceId × WorkerResourceRecord) : Option DeviceState :=
  if e.2.alive then some ⟨e.2.resource, e.2.layout⟩ else none

/-- A removal on the devices of some records is one on a record. -/
theorem releaseFrom_devices {rid : ResourceId} {id : AllocationId}
    {entries : List (ResourceId × WorkerResourceRecord)} {ds : List DeviceState}
    (hkeyed : ∀ e ∈ entries, e.2.resource.id = e.1)
    (h : releaseFrom rid id (entries.filterMap deviceOf) = .ok (some ds)) :
    ∃ front rec back layout, entries = front ++ (rid, rec) :: back ∧
      rec.layout.removeAllocation id = .ok (layout, .ok ()) ∧
      ds = (front ++ (rid, { rec with layout := layout }) :: back).filterMap deviceOf := by
  induction entries generalizing ds with
  | nil => cases h
  | cons e rest ih =>
      obtain ⟨key, rec⟩ := e
      have hkey : rec.resource.id = key := hkeyed (key, rec) (by simp)
      have hrest : ∀ x ∈ rest, x.2.resource.id = x.1 := fun x hx => hkeyed x (by simp [hx])
      cases halive : rec.alive with
      | false =>
          have hnone : deviceOf (key, rec) = none := by simp [deviceOf, halive]
          rw [List.filterMap_cons_none hnone] at h
          obtain ⟨front, rec', back, layout, rfl, hrem, rfl⟩ := ih hrest h
          refine ⟨(key, rec) :: front, rec', back, layout, rfl, hrem, ?_⟩
          rw [List.cons_append, List.filterMap_cons_none hnone]
      | true =>
          have hsome : deviceOf (key, rec) = some ⟨rec.resource, rec.layout⟩ := by
            simp [deviceOf, halive]
          rw [List.filterMap_cons_some hsome, releaseFrom] at h
          by_cases hrid : rec.resource.id = rid
          · rw [if_pos hrid, bind_eq_ok] at h
            obtain ⟨⟨layout, reply⟩, hrem, h⟩ := h
            cases reply with
            | error e => cases h
            | ok u =>
                cases h
                obtain rfl : key = rid := hkey.symm.trans hrid
                refine ⟨[], rec, rest, layout, rfl, hrem, ?_⟩
                simp [deviceOf, halive]
          · rw [if_neg hrid, bind_eq_ok] at h
            obtain ⟨released, hreleased, h⟩ := h
            cases released with
            | none => cases h
            | some ds' =>
                cases h
                obtain ⟨front, rec', back, layout, rfl, hrem, rfl⟩ := ih hrest hreleased
                refine ⟨(key, rec) :: front, rec', back, layout, rfl, hrem, ?_⟩
                rw [List.cons_append, List.filterMap_cons_some hsome]

variable {c : Coordinator}

/-- An action that can be applied to the devices of the snapshot does the same to the records. -/
theorem Consistent.completeAction_devices (h : c.Consistent) {act : PlanAction}
    {acts : List PlanAction} {ds : List DeviceState}
    (happly : applyActions (act :: acts) c.aliveDevices = .ok (some ds)) :
    ∃ rid rec, c.completeAction act = .ok (c.store rid rec) ∧
      applyActions acts (c.store rid rec).aliveDevices = .ok (some ds) := by
  rw [applyActions] at happly
  cases hsource : act.sourceAllocation with
  | none =>
      rw [hsource] at happly
      cases happly
  | some id =>
      rw [hsource] at happly
      dsimp only at happly
      rw [bind_eq_ok] at happly
      obtain ⟨released, hreleased, happly⟩ := happly
      cases released with
      | none => cases happly
      | some mid =>
          obtain ⟨front, rec, back, layout, hsplit, hrem, rfl⟩ :=
            @releaseFrom_devices _ _ c.resources.entries _
              (fun e he => h.keyed (OrdMap.find?_eq_some_iff.mpr he)) hreleased
          refine ⟨act.targetResource, { rec with layout := layout }, ?_, ?_⟩
          · rw [completeAction, hsource]
            dsimp only
            rw [OrdMap.find?_of_split hsplit]
            dsimp only
            rw [hrem, ok_bind]
          · let rec' := { rec with layout := layout }
            have hdevices : (c.store act.targetResource rec').aliveDevices =
                (front ++ (act.targetResource, rec') :: back).filterMap deviceOf := by
              change List.filterMap deviceOf (c.resources.insert _ _).entries = _
              rw [OrdMap.entries_insert_of_mem _ hsplit]
            rw [hdevices]
            exact happly

end Devices

/-! ## The controller -/

/-- The plan is approved, its action begun and completed. -/
def controlAction (p : RemediationPlan) (i : ℕ) : List Message :=
  [.approvePlan p.id.value,
    driverBegin p.id.value p.generation.value p.epoch.value p.policyGeneration.value i,
    driverComplete p.id.value i]

/-- `n` actions from the index `i` on. -/
def controlActions (p : RemediationPlan) (i n : ℕ) : List Message :=
  (List.range' i n).flatMap (controlAction p)

/-- The plan `p`, made for the demand from the snapshot, can be acted on. -/
structure Underway (s : FragmentationSnapshot) (d : WorkloadDemand) (p : RemediationPlan)
    (c : Coordinator) : Prop where
  consistent : c.Consistent
  plan : ∃ state, c.plans.find? p.id = some { p with state := state } ∧ state ≠ .superseded
  policy : p.policyGeneration = c.policyGeneration
  epoch : p.epoch = c.epoch
  before : c.beforeSnapshots.find? p.id = some s
  demand : c.lastDemand = d
  complete : c.generations.complete = true

section Control

variable {s : FragmentationSnapshot} {d : WorkloadDemand} {p : RemediationPlan} {c : Coordinator}

theorem isValid_next {tag : GenerationTag} {g : Generation tag} (h : g.isValid = true) :
    g.next.isValid = true := by
  by_cases hmax : g.value = 0xFFFFFFFFFFFFFFFF
  · rw [Generation.next_of_max hmax]
    exact h
  · have hnext := Generation.toNat_next hmax
    rw [Generation.isValid, bne_iff_ne]
    intro hzero
    rw [hzero] at hnext
    exact absurd hnext (by simp)

theorem complete_advance (h : c.generations.complete = true) :
    c.advanceResourceGeneration.generations.complete = true := by
  unfold KnownResourceGenerations.complete advanceResourceGeneration at *
  simp only [Bool.and_eq_true] at h ⊢
  obtain ⟨⟨⟨⟨hr, ha⟩, hres⟩, ht⟩, hc⟩ := h
  exact ⟨⟨⟨⟨isValid_next hr, isValid_next ha⟩, hres⟩, ht⟩, hc⟩

theorem handle_approvable {fs : Codec.SaveOutcome} {m : Message} {q : RemediationPlan}
    (htype : m.type = .approvePlan) (hq : c.plans.find? m.planKey = some q)
    (hstate : q.state ≠ .superseded) (hpolicy : q.policyGeneration = c.policyGeneration) :
    handle fs c m = (c.setState q m.planKey .approved).accept := by
  simp only [handle, htype]
  rw [handleApprovePlan, withPlan, hq]
  dsimp only
  rw [if_neg hstate, if_neg (not_not.mpr hpolicy)]

/-- One action of the plan: its messages are accepted and take its source from the devices. -/
theorem Underway.action (h : Underway s d p c) {i : ℕ} (hi : i < 2 ^ 32) {act : PlanAction}
    {acts : List PlanAction} {ds : List DeviceState} (hact : p.actions[i]? = some act)
    (happly : applyActions (act :: acts) c.aliveDevices = .ok (some ds)) (fs : Codec.SaveOutcome) :
    let events := (controlAction p i).map (.message fs)
    AllSteps step Granted c events ∧ Underway s d p (runFrom step c events) ∧
      (runFrom step c events).plans.find? p.id = some { p with state := .verifying } ∧
      applyActions acts (runFrom step c events).aliveDevices = .ok (some ds) := by
  obtain ⟨state, hq, hstate⟩ := h.plan
  have happrove : handle fs c (.approvePlan p.id.value) =
      (c.setState { p with state := state } p.id .approved).accept :=
    handle_approvable rfl hq hstate h.policy
  let c₁ := c.setState { p with state := state } p.id .approved
  have hq₁ : c₁.plans.find? p.id = some { p with state := .approved } :=
    OrdMap.find?_insert_self _ _ _
  have hindex : (UInt32.ofNat i).toNat = i := by
    rw [UInt32.toNat_ofNat']
    exact Nat.mod_eq_of_lt hi
  have hlt : (UInt32.ofNat i).toNat < p.actions.length := by
    rw [hindex]
    exact (List.getElem?_eq_some_iff.mp hact).1
  have hexec : c₁.canExecute { p with state := .approved } (driverBegin p.id.value
      p.generation.value p.epoch.value p.policyGeneration.value i) = true := by
    rw [canExecute_eq_true_iff]
    exact ⟨rfl, h.policy, h.epoch, by simp [Withdrawn]⟩
  have hbegin : handle fs c₁ (driverBegin p.id.value p.generation.value p.epoch.value
      p.policyGeneration.value i) =
      (c₁.setState { p with state := .approved } p.id .executing).accept :=
    handle_startable rfl hq₁ rfl hexec hlt fs
  let c₂ := c₁.setState { p with state := .approved } p.id .executing
  have hcons₂ : c₂.Consistent :=
    (h.consistent.of_same (sameEvidence_setState c _ _ _)).of_same (sameEvidence_setState c₁ _ _ _)
  have hcompletable : Completable c₂ (driverComplete p.id.value i) { p with state := .executing }
      act := by
    refine ⟨OrdMap.find?_insert_self _ _ _, rfl, ?_⟩
    change p.actions[(UInt32.ofNat i).toNat]? = some act
    rw [hindex, hact]
  obtain ⟨c₃, hc₃, hcomplete⟩ := hcons₂.handle_completable rfl hcompletable fs
  obtain ⟨rid, rec, hstore, hrest⟩ := @Consistent.completeAction_devices c₂ hcons₂ _ _ _ happly
  rw [show (driverComplete p.id.value i).actionOk = true from rfl, if_pos rfl, hstore] at hc₃
  cases hc₃
  have hfirst : c.step (.message fs (.approvePlan p.id.value)) = c₁ := congrArg Prod.fst happrove
  have hsecond : c₁.step (.message fs (driverBegin p.id.value p.generation.value p.epoch.value
      p.policyGeneration.value i)) = c₂ := congrArg Prod.fst hbegin
  have hthird : c₂.step (.message fs (driverComplete p.id.value i)) =
      (c₂.store rid rec).setState { p with state := .executing } p.id .verifying :=
    congrArg Prod.fst hcomplete
  have hrun : runFrom step c ((controlAction p i).map (.message fs)) =
      (c₂.store rid rec).setState { p with state := .executing } p.id .verifying := by
    simp only [controlAction, List.map_cons, List.map_nil, runFrom_cons, runFrom_nil]
    rw [hfirst, hsecond, hthird]
  have hplan : (runFrom step c ((controlAction p i).map (.message fs))).plans.find? p.id =
      some { p with state := .verifying } := by
    rw [hrun]
    exact OrdMap.find?_insert_self _ _ _
  refine ⟨?_, ?_, hplan, ?_⟩
  · refine ⟨?_, ?_, ?_, trivial⟩
    · change Accepted (handle fs c _)
      rw [happrove]
      exact accepted_accept _
    · rw [hfirst]
      change Accepted (handle fs c₁ _)
      rw [hbegin]
      exact accepted_accept _
    · rw [hfirst, hsecond]
      change Accepted (handle fs c₂ _)
      rw [hcomplete]
      exact accepted_accept _
  · have hcons := hcons₂.step (.message fs (driverComplete p.id.value i))
    rw [hthird] at hcons
    refine ⟨?_, ⟨_, hplan, by simp⟩, ?_, ?_, ?_, ?_, ?_⟩
    all_goals rw [hrun]
    · exact hcons
    · exact h.policy
    · exact h.epoch
    · exact h.before
    · exact h.demand
    · exact complete_advance h.complete
  · rw [hrun]
    exact hrest

/-- Some actions from an index on. -/
theorem Underway.actions (h : Underway s d p c) {i : ℕ} {acts rest : List PlanAction}
    {ds : List DeviceState} (hacts : p.actions.drop i = acts ++ rest)
    (hlen : p.actions.length ≤ 2 ^ 32)
    (happly : applyActions acts c.aliveDevices = .ok (some ds)) (fs : Codec.SaveOutcome) :
    let events := (controlActions p i acts.length).map (.message fs)
    AllSteps step Granted c events ∧ Underway s d p (runFrom step c events) ∧
      (acts ≠ [] → (runFrom step c events).plans.find? p.id =
        some { p with state := .verifying }) ∧
      (runFrom step c events).aliveDevices = ds := by
  induction acts generalizing c i with
  | nil =>
      cases happly
      exact ⟨trivial, h, fun hne => absurd rfl hne, rfl⟩
  | cons act acts ih =>
      have hact : p.actions[i]? = some act := by
        rw [← List.head?_drop, hacts]
        rfl
      have hi : i < p.actions.length := (List.getElem?_eq_some_iff.mp hact).1
      have hnext : p.actions.drop (i + 1) = acts ++ rest := by
        rw [← List.drop_drop, hacts]
        rfl
      obtain ⟨hgranted, hunder, hplan, hrest⟩ := h.action (by omega) hact happly fs
      obtain ⟨hgranted', hunder', hplan', hds⟩ := ih hunder hnext hrest
      have hevents : (controlActions p i (act :: acts).length).map (Event.message fs) =
          (controlAction p i).map (.message fs) ++
            (controlActions p (i + 1) acts.length).map (.message fs) := by
        rw [controlActions, List.length_cons, List.range'_succ, List.flatMap_cons, List.map_append]
        rfl
      dsimp only
      rw [hevents, allSteps_append, runFrom_append]
      refine ⟨⟨hgranted, hgranted'⟩, hunder', fun _ => ?_, hds⟩
      cases acts with
      | nil => exact hplan
      | cons act' acts => exact hplan' (by simp)

/-- The verification of a plan that is being verified. -/
theorem Underway.verified (h : Underway s d p c) {v : VerificationResult}
    (hplan : c.plans.find? p.id = some { p with state := .verifying })
    (hv : verifyRemediation s c.assembleSnapshot d { p with state := .verifying } = .ok v)
    (fs : Codec.SaveOutcome) :
    handle fs c (driverVerify p.id.value p.generation.value) =
      (c.setState { p with state := .verifying, verification := some v.outcome } p.id
          (stateAfter v.outcome),
        .ok [{ type := .verify, ok := true, verificationOutcome := v.outcome,
               detail := v.diagnostics.headD "" }]) := by
  have hlast : verifyRemediation s c.assembleSnapshot c.lastDemand
      { p with state := .verifying } = .ok v := by
    rw [h.demand]
    exact hv
  exact @handle_verifiable fs c (driverVerify p.id.value p.generation.value)
    { p with state := .verifying } s v rfl hplan rfl h.before hlast

end Control

/-! ## The verification -/

end FragmentationGovernor.Coordinator
