import FragmentationGovernor.Verification.Coordinator.Capture
import FragmentationGovernor.Verification.Coordinator.Evidence
import FragmentationGovernor.Verification.Coordinator.Execution
import FragmentationGovernor.Verification.Planner.Totals
import FragmentationGovernor.Verification.Protocol.RoundTrip
import FragmentationGovernor.Verification.Verify.Correctness

/-! # Where a message raises

The checked additions of the coordinator run over the alive devices, now or when a plan was
made. They raise for some message exactly when the devices can have more free, or are more,
than a 64-bit value can count. -/

namespace FragmentationGovernor.Coordinator

/-- The call returned instead of raising. -/
def Returns (o : Outcome) : Prop := ∃ replies, o.2 = .ok replies

theorem returns_reject (c : Coordinator) (why : String) : Returns (c.reject why) := ⟨_, rfl⟩

theorem returns_accept (c : Coordinator) : Returns c.accept := ⟨_, rfl⟩

/-- What the devices can have free, and their number, are 64-bit values. -/
structure WithinWord (ds : List DeviceState) : Prop where
  free : freeTotal (ds.map (fun s => reclaimed s.layout)) < 2 ^ 64
  count : ds.length < 2 ^ 64

theorem WithinWord.representable {ds : List DeviceState} (h : WithinWord ds)
    (hvalid : ∀ s ∈ ds, s.layout.Valid) (d : WorkloadDemand) : Representable d ds :=
  ⟨hvalid, h.free, Or.inl h.count⟩

theorem Consistent.valid_aliveDevices {c : Coordinator} (h : c.Consistent) :
    ∀ s ∈ c.aliveDevices, s.layout.Valid := by
  intro s hs
  obtain ⟨rid, rec, hrec, -, rfl⟩ := mem_aliveDevices hs
  exact (h.reachable hrec).valid

/-! ## Handlers that add nothing up -/

section Handlers

variable {c : Coordinator} {m : Message}

theorem Consistent.fromWorker_returns (h : c.Consistent) {k : Coordinator → Outcome}
    (hk : Returns (k c)) : Returns (c.fromWorker m k) := by
  rcases h.fromWorker_cases m k with ⟨-, heq⟩ | ⟨why, heq⟩
  · rw [heq]
    exact hk
  · rw [heq]
    exact returns_reject c why

theorem withPlan_returns {k : RemediationPlan → Outcome}
    (hk : ∀ p, c.plans.find? m.planKey = some p → Returns (k p)) : Returns (c.withPlan m k) := by
  unfold withPlan
  cases hp : c.plans.find? m.planKey with
  | none => exact returns_reject c _
  | some p => exact hk p hp

theorem handleRegister_returns : Returns (c.handleRegister m) := by
  unfold handleRegister
  split
  · exact returns_reject c _
  · exact returns_accept _

theorem Consistent.handlePublishResource_returns (h : c.Consistent) :
    Returns (c.handlePublishResource m) := by
  apply h.fromWorker_returns
  split
  · exact returns_reject c _
  · exact returns_accept _

theorem exists_insertAll {l : ResourceLayout} (hl : l.Reachable) (as : List Allocation) :
    ∃ r, insertAll as l = .ok r := by
  induction as generalizing l with
  | nil => exact ⟨_, rfl⟩
  | cons a rest ih =>
      obtain ⟨l', reply, hins, hl', -⟩ := hl.insertAllocation a
      rw [insertAll, hins, ok_bind]
      cases reply with
      | error e => exact ⟨_, rfl⟩
      | ok u => exact ih hl'

theorem Consistent.handlePublishLayout_returns (h : c.Consistent) :
    Returns (c.handlePublishLayout m) := by
  apply h.fromWorker_returns
  cases c.resources.find? m.resource.id with
  | none => exact returns_reject c _
  | some rec =>
      dsimp only
      obtain ⟨r, hr⟩ := exists_insertAll (.ofCapacity rec.resource.capacity) m.allocations
      split
      · exact returns_reject c _
      · split
        · exact returns_reject c _
        · rw [hr]
          cases r with
          | error e => exact returns_reject c _
          | ok layout => exact returns_accept _

theorem Consistent.handlePublishAllocation_returns (h : c.Consistent) :
    Returns (c.handlePublishAllocation m) := by
  apply h.fromWorker_returns
  cases hrec : c.resources.find? m.resource.id with
  | none => exact returns_reject c _
  | some rec =>
      obtain ⟨layout, reply, hins, -⟩ := (h.reachable hrec).insertAllocation m.allocation
      dsimp only
      rw [hins]
      cases reply with
      | error e => exact returns_reject c _
      | ok u => exact returns_accept _

theorem Consistent.handleInvalidateAllocation_returns (h : c.Consistent) :
    Returns (c.handleInvalidateAllocation m) := by
  apply h.fromWorker_returns
  rcases h.removeFirst_cases m.worker ⟨m.allocationId⟩ c.resources.entries
      (fun e he => OrdMap.find?_eq_some_iff.mpr he) with
    ⟨hnone, -⟩ | ⟨front, rid, rec, back, layout, -, -, -, -, hsome⟩
  · rw [hnone]
    exact returns_reject _ _
  · rw [hsome]
    exact returns_accept _

theorem exists_describeDevices {ds : List DeviceState} (h : ∀ s ∈ ds, s.layout.Valid) (i : ℕ) :
    ∃ text, describeDevices i ds = .ok text := by
  induction ds generalizing i with
  | nil => exact ⟨_, rfl⟩
  | cons s rest ih =>
      obtain ⟨met, hmet⟩ := (h s (by simp)).exists_computeMetrics none
      obtain ⟨tail, htail⟩ := ih (fun x hx => h x (by simp [hx])) (i + 1)
      rw [describeDevices, hmet, ok_bind, htail, ok_bind]
      exact ⟨_, rfl⟩

theorem Consistent.handleQueryFragmentation_returns (h : c.Consistent) :
    Returns c.handleQueryFragmentation := by
  obtain ⟨text, htext⟩ := exists_describeDevices h.valid_aliveDevices 0
  unfold handleQueryFragmentation
  rw [show c.assembleSnapshot.devices = c.aliveDevices from rfl, htext]
  exact ⟨_, rfl⟩

theorem handleApprovePlan_returns : Returns (c.handleApprovePlan m) := by
  apply withPlan_returns
  intro p _
  split
  · exact returns_reject c _
  · split
    · exact returns_reject c _
    · exact returns_accept _

theorem handleBeginAction_returns : Returns (c.handleBeginAction m) := by
  apply withPlan_returns
  intro p _
  split
  · exact returns_reject c _
  · split
    · exact returns_reject c _
    · split
      · exact returns_reject c _
      · exact returns_accept _

theorem Consistent.handleActionComplete_returns (h : c.Consistent) :
    Returns (c.handleActionComplete m) := by
  apply withPlan_returns
  intro p _
  split
  · exact returns_reject c _
  · cases p.actions[m.actionIndex.toNat]? with
    | none => exact returns_reject c _
    | some act =>
        obtain ⟨c', hc'⟩ := h.exists_completeAction act
        dsimp only
        rw [hc']
        cases m.actionOk <;> exact returns_accept _

theorem handleAdvanceGeneration_returns : Returns (c.handleAdvanceGeneration m) := by
  unfold handleAdvanceGeneration
  split
  · exact returns_accept _
  · exact returns_reject c _

theorem handleSave_returns (fs : Codec.SaveOutcome) : Returns (handleSave fs c) := by
  unfold handleSave
  split
  · exact returns_reject c _
  · exact returns_accept c

/-! ## Handlers that add up over the devices -/

theorem Consistent.handleQueryFit_returns (h : c.Consistent) (hw : WithinWord c.aliveDevices) :
    Returns (c.handleQueryFit m) := by
  have hrep := hw.representable h.valid_aliveDevices m.demand
  obtain ⟨r, hr⟩ : ∃ r, analyzeFit c.assembleSnapshot m.demand = .ok r :=
    hrep.select.exists_analyzeFit (windowOpen_nil m.demand)
  unfold handleQueryFit
  rw [hr]
  exact ⟨_, rfl⟩

theorem Consistent.exists_proposePlan (h : c.Consistent) (hw : WithinWord c.aliveDevices)
    (d : WorkloadDemand) : ∃ r, c.proposePlan d = .ok r :=
  exists_planRemediation (hw.representable h.valid_aliveDevices d)

theorem handleCreatePlan_returns_iff :
    Returns (c.handleCreatePlan m) ↔ ∃ r, c.proposePlan m.demand = .ok r := by
  unfold handleCreatePlan
  cases c.proposePlan m.demand with
  | error e =>
      constructor
      · rintro ⟨replies, h⟩
        cases h
      · rintro ⟨r, h⟩
        cases h
  | ok r =>
      refine iff_of_true ?_ ⟨r, rfl⟩
      cases r with
      | none => exact ⟨_, rfl⟩
      | some plan => exact ⟨_, rfl⟩

/-- The snapshots plans were made on hold no reservations, and their devices can be counted. -/
def SnapshotsWithin (c : Coordinator) : Prop :=
  ∀ k s, c.beforeSnapshots.find? k = some s →
    s.reservations = [] ∧ (∀ x ∈ s.devices, x.layout.Valid) ∧ WithinWord s.devices

theorem Consistent.handleVerify_returns (h : c.Consistent) (hw : WithinWord c.aliveDevices)
    (hsnap : c.SnapshotsWithin) : Returns (c.handleVerify m) := by
  apply withPlan_returns
  intro p _
  split
  · exact returns_reject c _
  · cases hb : c.beforeSnapshots.find? m.planKey with
    | none => exact returns_reject c _
    | some before =>
        obtain ⟨hres, hvalid, hbefore⟩ := hsnap _ _ hb
        have hafter := hw.representable h.valid_aliveDevices c.lastDemand
        obtain ⟨v, hv⟩ : ∃ v, verifyRemediation before c.assembleSnapshot c.lastDemand p = .ok v :=
          exists_verifyRemediation (hbefore.representable hvalid _) hafter hres rfl p
        dsimp only
        rw [hv]
        exact ⟨_, rfl⟩

/-- Every message is answered while the devices can be counted. -/
theorem Consistent.handle_returns (h : c.Consistent) (hw : WithinWord c.aliveDevices)
    (hsnap : c.SnapshotsWithin) (fs : Codec.SaveOutcome) (m : Message) :
    Returns (handle fs c m) := by
  unfold handle
  cases m.type with
  | hello => exact ⟨_, rfl⟩
  | register => exact handleRegister_returns
  | publishResource => exact h.handlePublishResource_returns
  | publishLayout => exact h.handlePublishLayout_returns
  | publishAllocation => exact h.handlePublishAllocation_returns
  | invalidateAllocation => exact h.handleInvalidateAllocation_returns
  | queryFragmentation => exact h.handleQueryFragmentation_returns
  | queryFit => exact h.handleQueryFit_returns hw
  | createPlan => exact handleCreatePlan_returns_iff.mpr (h.exists_proposePlan hw m.demand)
  | planResult => exact returns_reject c _
  | approvePlan => exact handleApprovePlan_returns
  | beginAction => exact handleBeginAction_returns
  | actionComplete => exact h.handleActionComplete_returns
  | verify => exact h.handleVerify_returns hw hsnap
  | cancelPlan => exact withPlan_returns fun p _ => returns_accept _
  | advanceGeneration => exact handleAdvanceGeneration_returns
  | revalidate => exact withPlan_returns fun p _ => returns_accept _
  | save => exact handleSave_returns fs
  | shutdown => exact ⟨_, rfl⟩
  | error => exact ⟨_, rfl⟩

end Handlers

/-! ## Runs -/

/-- A message that arrived: the payload decoder returned it. -/
structure Delivery where
  fs : Codec.SaveOutcome
  message : Message
  decoded : ∃ bytes, Protocol.decodePayload bytes = .ok (some message)

def Delivery.event (d : Delivery) : Event := .message d.fs d.message

/-- The coordinator after the messages have been handled. -/
def delivered (epoch : CoordinatorEpoch) (ds : List Delivery) : Coordinator :=
  runFrom step (new epoch) (ds.map Delivery.event)

/-- A snapshot kept after an effect was kept before it or is the one a plan was just made on. -/
theorem Effect.beforeSnapshot {c : Coordinator} {m : Message} {o : Outcome} (he : Effect c m o)
    {k : FragmentationPlanId} {s : FragmentationSnapshot}
    (hs : o.1.beforeSnapshots.find? k = some s) :
    c.beforeSnapshots.find? k = some s ∨ s = c.assembleSnapshot := by
  cases he with
  | planned htype hplan =>
      rename_i plan
      change (c.beforeSnapshots.insert plan.id c.assembleSnapshot).find? k = some s at hs
      rw [OrdMap.find?_insert] at hs
      split_ifs at hs
      · cases hs
        exact Or.inr rfl
      · exact Or.inl hs
  | registered _ _ =>
      change (c.register m).beforeSnapshots.find? k = some s at hs
      rw [(sameCapture_register c m).beforeSnapshots] at hs
      exact Or.inl hs
  | advanced _ _ =>
      change (c.advance _).beforeSnapshots.find? k = some s at hs
      rw [(sameCapture_advance c _).beforeSnapshots] at hs
      exact Or.inl hs
  | _ => exact Or.inl hs

theorem SnapshotsWithin.handle {c : Coordinator} (h : c.SnapshotsWithin) (hcons : c.Consistent)
    (hw : WithinWord c.aliveDevices) (fs : Codec.SaveOutcome) (m : Message) :
    (handle fs c m).1.SnapshotsWithin := by
  intro k s hs
  rcases (hcons.handle_effect fs m).beforeSnapshot hs with hold | rfl
  · exact h k s hold
  · exact ⟨rfl, hcons.valid_aliveDevices, hw⟩

/-- The snapshots stay within bounds as long as the devices do. -/
theorem snapshotsWithin_delivered {epoch : CoordinatorEpoch} {ds : List Delivery}
    (h : ∀ front, front <+: ds → WithinWord (delivered epoch front).aliveDevices) :
    (delivered epoch ds).SnapshotsWithin := by
  induction ds using List.reverseRecOn with
  | nil =>
      intro k s hs
      cases hs
  | append_singleton ds d ih =>
      have hfront : ∀ front, front <+: ds → WithinWord (delivered epoch front).aliveDevices :=
        fun front hfront => h front (hfront.trans (List.prefix_append ds [d]))
      unfold delivered
      rw [List.map_append, List.map_singleton, runFrom_snoc]
      exact (ih hfront).handle (consistent_run epoch _) (hfront ds (List.prefix_refl ds)) d.fs
        d.message

theorem decoded_createPlan {d : WorkloadDemand} (h : d.elasticMin = none) :
    ∃ bytes, Protocol.decodePayload bytes = .ok (some (.createPlan d)) :=
  ⟨_, Protocol.decodePayload_of_transmitted (Protocol.sendable_plain rfl rfl h rfl rfl) rfl⟩

/-- Two requests for plans that are answered only while the devices can be counted. -/
theorem Consistent.withinWord_of_returns {c : Coordinator} (h : c.Consistent)
    {fs : Codec.SaveOutcome} (hfree : Returns (handle fs c (.createPlan unmeetable)))
    (hcount : Returns (handle fs c (.createPlan {}))) : WithinWord c.aliveDevices := by
  rw [handle_createPlan rfl, handleCreatePlan_returns_iff] at hfree hcount
  obtain ⟨r, hr⟩ := hfree
  obtain ⟨r', hr'⟩ := hcount
  exact ⟨free_lt_of_unmeetable h.valid_aliveDevices hr, length_lt_of_default hr'⟩

/-- In every state a run of decoded messages passes through every decoded message is
answered, exactly when in every one of them the alive devices can be counted. -/
theorem handle_returns_iff (epoch : CoordinatorEpoch) (ds : List Delivery) :
    (∀ front, front <+: ds → ∀ d : Delivery,
      Returns (handle d.fs (delivered epoch front) d.message)) ↔
    ∀ front, front <+: ds → WithinWord (delivered epoch front).aliveDevices := by
  constructor
  · intro h front hfront
    have hcons : (delivered epoch front).Consistent := consistent_run epoch _
    exact hcons.withinWord_of_returns
      (h front hfront ⟨⟨true, 0, 0, true⟩, _, decoded_createPlan rfl⟩)
      (h front hfront ⟨⟨true, 0, 0, true⟩, _, decoded_createPlan rfl⟩)
  · intro h front hfront d
    have hcons : (delivered epoch front).Consistent := consistent_run epoch _
    refine hcons.handle_returns (h front hfront) ?_ d.fs d.message
    exact snapshotsWithin_delivered fun f hf => h f (hf.trans hfront)

/-- A device of half of what a 64-bit value can count. -/
def halfDevice (id : UInt64) : Resource :=
  { id := ⟨id⟩, generation := ⟨1⟩, capacity := ⟨0x8000000000000000⟩ }

/-- A worker publishes two such devices. -/
def twoHalves : List Delivery :=
  [⟨⟨true, 0, 0, true⟩, .register 1 1,
      _, Protocol.decodePayload_of_transmitted (Protocol.sendable_plain rfl rfl rfl rfl rfl) rfl⟩,
    ⟨⟨true, 0, 0, true⟩, .publishResource 1 1 (halfDevice 1),
      _, Protocol.decodePayload_of_transmitted (Protocol.sendable_plain rfl rfl rfl rfl rfl) rfl⟩,
    ⟨⟨true, 0, 0, true⟩, .publishResource 1 1 (halfDevice 2),
      _, Protocol.decodePayload_of_transmitted (Protocol.sendable_plain rfl rfl rfl rfl rfl) rfl⟩]

/-- The free capacity of the two is no 64-bit value, which even a query for nothing asks for. -/
theorem twoHalves_raises :
    ¬ ∀ (epoch : CoordinatorEpoch) (ds : List Delivery) (d : Delivery),
      Returns (handle d.fs (delivered epoch ds) d.message) := by
  intro h
  obtain ⟨replies, hreplies⟩ := h ⟨1⟩ twoHalves ⟨⟨true, 0, 0, true⟩, { type := .queryFit },
    _, Protocol.decodePayload_of_transmitted (Protocol.sendable_plain rfl rfl rfl rfl rfl) rfl⟩
  have hraised : (handle ⟨true, 0, 0, true⟩ (delivered ⟨1⟩ twoHalves) { type := .queryFit }).2 =
      .error ⟨"Bytes add overflow"⟩ := by rfl
  rw [hraised] at hreplies
  cases hreplies

end FragmentationGovernor.Coordinator
