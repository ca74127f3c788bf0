import FragmentationGovernor.Model.Persistence
import FragmentationGovernor.Model.Protocol
import FragmentationGovernor.Model.Verify

/-! # The coordinator

`coordinator/coordinator.cpp`: the state, the handler of each message type and the
liveness and recovery calls. A handler returns the state it leaves together with its
replies, or with the `ValueError` it raises. -/

namespace FragmentationGovernor

structure WorkerResourceRecord where
  resource : Resource := {}
  layout : ResourceLayout := {}
  worker : WorkerId := default
  boot : WorkerBootId := default
  alive : Bool := true
  provenance : Provenance := .unknown
deriving DecidableEq

structure Coordinator where
  epoch : CoordinatorEpoch
  policyGeneration : PolicyGeneration
  resources : OrdMap ResourceId WorkerResourceRecord := ∅
  plans : OrdMap FragmentationPlanId RemediationPlan := ∅
  workerBoot : OrdMap WorkerId WorkerBootId := ∅
  workerAlive : OrdMap WorkerId Bool := ∅
  persisted : PersistedState := {}
  nextPlanId : UInt64 := 1
  snapshotGeneration : FragmentationSnapshotGeneration
  generations : KnownResourceGenerations
  beforeSnapshots : OrdMap FragmentationPlanId FragmentationSnapshot := ∅
  lastDemand : WorkloadDemand := {}

namespace Coordinator

/-- The constructor. -/
def new (epoch : CoordinatorEpoch) : Coordinator where
  epoch := epoch
  snapshotGeneration := ⟨1⟩
  generations := ⟨⟨1⟩, ⟨1⟩, ⟨1⟩, ⟨1⟩, ⟨1⟩, ⟨1⟩, ⟨1⟩, ⟨1⟩, ⟨1⟩⟩
  policyGeneration := ⟨1⟩

/-! ## Helpers -/

/-- The state a call leaves and what it answers. -/
abbrev Outcome := Coordinator × Except ValueError (List Message)

def fail (why : String) : Message := { type := .error, ok := false, error := why }

/-- The positive acknowledgement. -/
def done : Message := { type := .error, ok := true }

def reject (c : Coordinator) (why : String) : Outcome := (c, .ok [fail why])

def accept (c : Coordinator) : Outcome := (c, .ok [done])

def advanceResourceGeneration (c : Coordinator) : Coordinator :=
  { c with
    generations :=
      { c.generations with
        resourceGeneration := c.generations.resourceGeneration.next
        allocationGeneration := c.generations.allocationGeneration.next } }

/-- Stores a record and advances the generations, as every change of evidence does. -/
def store (c : Coordinator) (rid : ResourceId) (rec : WorkerResourceRecord) : Coordinator :=
  ({ c with resources := c.resources.insert rid rec }).advanceResourceGeneration

/-- Some action of the plan targets a resource of the worker. -/
def targetsWorker (resources : OrdMap ResourceId WorkerResourceRecord) (worker : WorkerId)
    (plan : RemediationPlan) : Bool :=
  plan.actions.any (fun act =>
    match resources.find? act.targetResource with
    | some rec => decide (rec.worker = worker)
    | none => false)

def markWorkerDead (c : Coordinator) (worker : WorkerId) : Coordinator :=
  let resources := c.resources.mapVals (fun _ rec =>
    if rec.worker = worker then { rec with alive := false } else rec)
  { c with
    workerAlive :=
      if c.workerAlive.contains worker then c.workerAlive.insert worker false else c.workerAlive
    resources := resources
    plans := c.plans.mapVals (fun _ plan =>
      if targetsWorker resources worker plan then
        { plan with
          state := .revalidationRequired
          preconditionFailures := plan.preconditionFailures ++ [.ofString "evidence source died"] }
      else plan) }

def canExecute (c : Coordinator) (p : RemediationPlan) (m : Message) : Bool :=
  if p.generation.value ≠ m.planGen then false
  else if p.policyGeneration ≠ c.policyGeneration then false
  else if p.epoch ≠ c.epoch then false
  else
    match p.state with
    | .superseded | .cancelled | .aborted | .retired | .revalidationRequired | .blocked => false
    | _ => true

/-- The devices of the resources presently alive, in the order of their ids. -/
def aliveDevices (c : Coordinator) : List DeviceState :=
  c.resources.entries.filterMap (fun e =>
    if e.2.alive then some ⟨e.2.resource, e.2.layout⟩ else none)

def assembleSnapshot (c : Coordinator) : FragmentationSnapshot where
  id := ⟨1⟩
  generation := c.snapshotGeneration
  domainId := ⟨1⟩
  domainGeneration := ⟨1⟩
  pool := ⟨1⟩
  poolGeneration := ⟨1⟩
  domain := .compositeResource
  generations := c.generations
  sourceWorker := ⟨1⟩
  epoch := c.epoch
  policyGeneration := c.policyGeneration
  capacityGeneration := c.generations.capacityGeneration
  topologyGeneration := c.generations.topologyGeneration
  provenance :=
    if c.resources.entries.any (fun e => e.2.alive && decide (e.2.provenance = .synthetic)) then
      .synthetic
    else .measured
  devices := c.aliveDevices

/-! ## Registration -/

/-- A different boot id on a known worker makes its previous evidence stale. -/
def dropStale (c : Coordinator) (m : Message) : Coordinator :=
  match c.workerBoot.find? m.worker with
  | some boot => if boot.value ≠ m.workerBoot then c.markWorkerDead m.worker else c
  | none => c

/-- The state after an accepted registration. -/
def register (c : Coordinator) (m : Message) : Coordinator :=
  let c := c.dropStale m
  { c with
    workerBoot := c.workerBoot.insert m.worker ⟨m.workerBoot⟩
    workerAlive := c.workerAlive.insert m.worker true }

def handleRegister (c : Coordinator) (m : Message) : Outcome :=
  if m.workerBoot = 0 then c.reject "REGISTER requires fresh WorkerBootId"
  else accept (c.register m)

/-! ## Publications -/

/-- The tests every publication starts with: the worker is alive and its boot id is the
registered one. The lookup of the boot id creates a zero entry when there is none. -/
def fromWorker (c : Coordinator) (m : Message) (k : Coordinator → Outcome) : Outcome :=
  match c.workerAlive.find? m.worker with
  | some true =>
      let c := { c with workerBoot := c.workerBoot.emplace m.worker default }
      match c.workerBoot.find? m.worker with
      | some boot => if boot.value ≠ m.workerBoot then c.reject "stale WorkerBootId" else k c
      | none => c.reject "stale WorkerBootId"
  | _ => c.reject "unregistered/dead worker"

/-- The resource as stored, with its device defaulting to the worker. -/
def publishedResource (m : Message) : Resource :=
  { m.resource with
    device := if m.resource.device.isNull then ⟨m.worker.value⟩ else m.resource.device }

/-- The record a publication of a resource stores. -/
def freshRecord (m : Message) : WorkerResourceRecord where
  resource := publishedResource m
  layout := ResourceLayout.ofCapacity m.resource.capacity
  worker := m.worker
  boot := ⟨m.workerBoot⟩
  alive := true
  provenance := m.resource.provenance

/-- The stored generation of the resource is not older than the published one. -/
def staleResource (c : Coordinator) (m : Message) : Bool :=
  match c.resources.find? m.resource.id with
  | some rec => decide (rec.resource.generation.value ≥ m.resource.generation.value)
  | none => false

def handlePublishResource (c : Coordinator) (m : Message) : Outcome :=
  c.fromWorker m fun c =>
    if c.staleResource m then c.reject "stale ResourceGeneration"
    else accept (c.store m.resource.id (freshRecord m))

/-- Inserts the published allocations in order, up to the first one rejected. -/
def insertAll : List Allocation → ResourceLayout →
    Except ValueError (Except String ResourceLayout)
  | [], layout => .ok (.ok layout)
  | a :: rest, layout => do
      match ← layout.insertAllocation a with
      | (_, .error e) => .ok (.error e)
      | (layout, .ok ()) => insertAll rest layout

def handlePublishLayout (c : Coordinator) (m : Message) : Outcome :=
  c.fromWorker m fun c =>
    match c.resources.find? m.resource.id with
    | none => c.reject "unknown resource"
    | some rec =>
        if rec.worker ≠ m.worker then c.reject "cross-worker resource claim"
        else if m.resourceGen < rec.resource.generation.value then
          c.reject "stale ResourceGeneration"
        else
          match insertAll m.allocations (ResourceLayout.ofCapacity rec.resource.capacity) with
          | .error e => (c, .error e)
          | .ok (.error e) => c.reject ("layout insert rejected: " ++ e)
          | .ok (.ok layout) => accept (c.store m.resource.id { rec with layout := layout })

def handlePublishAllocation (c : Coordinator) (m : Message) : Outcome :=
  c.fromWorker m fun c =>
    match c.resources.find? m.resource.id with
    | none => c.reject "unknown resource"
    | some rec =>
        match rec.layout.insertAllocation m.allocation with
        | .error e => (c, .error e)
        | .ok (_, .error e) => c.reject ("allocation rejected: " ++ e)
        | .ok (layout, .ok ()) => accept (c.store m.resource.id { rec with layout := layout })

/-- Tries the removal on each resource of the worker in turn, up to the first success. -/
def removeFirst (worker : WorkerId) (id : AllocationId) :
    List (ResourceId × WorkerResourceRecord) → OrdMap ResourceId WorkerResourceRecord →
      Except ValueError (OrdMap ResourceId WorkerResourceRecord × Bool)
  | [], resources => .ok (resources, false)
  | (rid, rec) :: rest, resources =>
      if rec.worker ≠ worker then removeFirst worker id rest resources
      else do
        let (layout, reply) ← rec.layout.removeAllocation id
        let resources := resources.insert rid { rec with layout := layout }
        match reply with
        | .ok () => .ok (resources, true)
        | .error _ => removeFirst worker id rest resources

def handleInvalidateAllocation (c : Coordinator) (m : Message) : Outcome :=
  c.fromWorker m fun c =>
    match removeFirst m.worker ⟨m.allocationId⟩ c.resources.entries c.resources with
    | .error e => (c, .error e)
    | .ok (resources, false) => reject { c with resources := resources } "allocation not found"
    | .ok (resources, true) =>
        accept ({ c with resources := resources }).advanceResourceGeneration

/-! ## Queries -/

/-- The text for the devices from index `i` on. -/
def describeDevices : ℕ → List DeviceState → Except ValueError String
  | _, [] => .ok ""
  | i, s :: rest => do
      let met ← computeMetrics s.layout none
      let tail ← describeDevices (i + 1) rest
      .ok ("device[" ++ toString i ++ "] free=" ++ toString met.freeCapacity.toNat ++
        " largest=" ++ toString met.largestFreeBlock.toNat ++
        " stranded=" ++ toString met.strandedCapacity.toNat ++ "; " ++ tail)

def handleQueryFragmentation (c : Coordinator) : Outcome :=
  match describeDevices 0 c.assembleSnapshot.devices with
  | .error e => (c, .error e)
  | .ok detail => (c, .ok [{ type := .queryFragmentation, ok := true, detail := detail }])

def handleQueryFit (c : Coordinator) (m : Message) : Outcome :=
  match analyzeFit c.assembleSnapshot m.demand with
  | .error e => (c, .error e)
  | .ok r =>
      (c, .ok [{ type := .queryFit, ok := true, fitOutcome := r.outcome,
                 detail := r.blockDiagnostics.headD "" }])

/-! ## The plan lifecycle -/

/-- The plan CREATE_PLAN asks the planner for. -/
def proposePlan (c : Coordinator) (d : WorkloadDemand) :
    Except ValueError (Option RemediationPlan) :=
  planRemediation c.assembleSnapshot d { generation := c.policyGeneration } defaultWeights
    ⟨c.nextPlanId⟩ ⟨c.nextPlanId⟩

/-- The demand is recorded before the planner is asked. -/
def recordDemand (c : Coordinator) (m : Message) : Coordinator := { c with lastDemand := m.demand }

/-- Stores a proposed plan, ready for approval, with the snapshot it is based on. -/
def adopt (c : Coordinator) (plan : RemediationPlan) (s : FragmentationSnapshot) : Coordinator :=
  { c with
    plans := c.plans.insert plan.id { plan with state := .planReady }
    beforeSnapshots := c.beforeSnapshots.insert plan.id s
    nextPlanId := plan.id.value + 1 }

def handleCreatePlan (c : Coordinator) (m : Message) : Outcome :=
  let s := c.assembleSnapshot
  match c.proposePlan m.demand with
  | .error e => (c.recordDemand m, .error e)
  | .ok none =>
      (c.recordDemand m,
        .ok [{ type := .error, ok := false, detail := "no beneficial action" }])
  | .ok (some plan) =>
      ((c.recordDemand m).adopt plan s,
        .ok [{ type := .planResult, ok := true, plan := { plan with state := .planReady } }])

/-- Stores the plan back in another state. -/
def setState (c : Coordinator) (p : RemediationPlan) (key : FragmentationPlanId)
    (state : PlanState) : Coordinator :=
  { c with plans := c.plans.insert key { p with state := state } }

def withPlan (c : Coordinator) (m : Message) (k : RemediationPlan → Outcome) : Outcome :=
  match c.plans.find? m.planKey with
  | none => c.reject "unknown plan"
  | some p => k p

def handleApprovePlan (c : Coordinator) (m : Message) : Outcome :=
  c.withPlan m fun p =>
    if p.state = .superseded then c.reject "plan superseded"
    else if p.policyGeneration ≠ c.policyGeneration then c.reject "stale PolicyGeneration"
    else accept (c.setState p m.planKey .approved)

def handleBeginAction (c : Coordinator) (m : Message) : Outcome :=
  c.withPlan m fun p =>
    if p.state ≠ .approved then c.reject "plan not approved"
    else if !c.canExecute p m then c.reject "execution authority stale"
    else if m.actionIndex.toNat ≥ p.actions.length then c.reject "bad action index"
    else accept (c.setState p m.planKey .executing)

/-- The effect of a completed action: its source leaves the layout of its target. -/
def completeAction (c : Coordinator) (act : PlanAction) : Except ValueError Coordinator :=
  match act.sourceAllocation with
  | none => .ok c
  | some source =>
      match c.resources.find? act.targetResource with
      | none => .ok c
      | some rec => do
          let (layout, _) ← rec.layout.removeAllocation source
          .ok (c.store act.targetResource { rec with layout := layout })

def handleActionComplete (c : Coordinator) (m : Message) : Outcome :=
  c.withPlan m fun p =>
    if p.state ≠ .executing then c.reject "plan not executing"
    else
      match p.actions[m.actionIndex.toNat]? with
      | none => c.reject "bad action index"
      | some act =>
          match if m.actionOk then c.completeAction act else .ok c with
          | .error e => (c, .error e)
          | .ok c => accept (c.setState p m.planKey .verifying)

/-- The state a verified plan moves to. -/
def stateAfter : VerificationOutcome → PlanState
  | .targetFitAchieved | .improved | .partialImprovement => .completed
  | .noChange => .partiallyCompleted
  | .regression | .verificationFailed => .failed
  | .revalidationRequired => .revalidationRequired

def handleVerify (c : Coordinator) (m : Message) : Outcome :=
  c.withPlan m fun p =>
    if p.state ≠ .verifying then c.reject "plan not ready to verify"
    else
      match c.beforeSnapshots.find? m.planKey with
      | none => c.reject "no before snapshot"
      | some before =>
          match verifyRemediation before c.assembleSnapshot c.lastDemand p with
          | .error e => (c, .error e)
          | .ok v =>
              (c.setState { p with verification := some v.outcome } m.planKey
                  (stateAfter v.outcome),
                .ok [{ type := .verify, ok := true, verificationOutcome := v.outcome,
                       detail := v.diagnostics.headD "" }])

def handleCancelPlan (c : Coordinator) (m : Message) : Outcome :=
  c.withPlan m fun p => accept (c.setState p m.planKey .cancelled)

def handleRevalidate (c : Coordinator) (m : Message) : Outcome :=
  c.withPlan m fun p => accept (c.setState p m.planKey .revalidationRequired)

/-! ## Generations and persistence -/

/-- The three kinds of generation a message can advance. -/
def advance (c : Coordinator) (kind : ℕ) : Coordinator :=
  let g := c.generations
  match kind with
  | 0 => { c with generations := { g with resourceGeneration := g.resourceGeneration.next } }
  | 1 => { c with generations := { g with allocationGeneration := g.allocationGeneration.next } }
  | _ =>
      { c with
        generations := { g with policyGeneration := g.policyGeneration.next }
        policyGeneration := g.policyGeneration.next }

def handleAdvanceGeneration (c : Coordinator) (m : Message) : Outcome :=
  if m.generationKind.toNat ≤ 2 then accept (c.advance m.generationKind.toNat)
  else c.reject "bad generation kind"

def persistPlan (p : RemediationPlan) : PersistedPlan where
  id := p.id
  generation := p.generation
  domain := p.domainId
  state := p.state
  verification := p.verification
  policyGeneration := p.policyGeneration
  epoch := p.epoch
  basedOnSnapshot := p.basedOnSnapshot
  expectedCapacityRecovered := p.expectedCapacityRecovered
  benefit := p.benefit.value
  cost := p.cost.value
  risk := p.risk.value
  disruption := p.disruption.value
  actionCount := Quantity.ofNat p.actions.length
  actionKinds := p.actions.map (fun act => act.kind)

/-- The reservations guarding the allocations of one resource. -/
def persistReservations (c : Coordinator) (rec : WorkerResourceRecord) : List Reservation :=
  rec.layout.allocations.entries.filterMap (fun e =>
    e.2.reservation.map (fun id =>
      { id := id
        resource := rec.resource.id
        generation := c.generations.reservationGeneration
        start := 0
        stop := 1
        amount := e.2.length
        hard := true }))

/-- The durable state SAVE writes. -/
def persist (c : Coordinator) : PersistedState where
  resourceGeneration := c.generations.resourceGeneration
  allocationGeneration := c.generations.allocationGeneration
  reservationGeneration := c.generations.reservationGeneration
  policyGeneration := c.policyGeneration
  epoch := c.epoch
  nextPlanId := c.nextPlanId
  carriedLiveDynamicState := true
  plans := c.plans.entries.map (fun e => persistPlan e.2)
  reservations := c.resources.entries.flatMap (fun e => c.persistReservations e.2)

def handleSave (fs : Codec.SaveOutcome) (c : Coordinator) : Outcome :=
  match Codec.saveState fs c.persist with
  | .error e => c.reject e
  | .ok () => c.accept

/-! ## Dispatch -/

def handle (fs : Codec.SaveOutcome) (c : Coordinator) (m : Message) : Outcome :=
  match m.type with
  | .hello | .shutdown | .error => (c, .ok [])
  | .register => c.handleRegister m
  | .publishResource => c.handlePublishResource m
  | .publishLayout => c.handlePublishLayout m
  | .publishAllocation => c.handlePublishAllocation m
  | .invalidateAllocation => c.handleInvalidateAllocation m
  | .queryFragmentation => c.handleQueryFragmentation
  | .queryFit => c.handleQueryFit m
  | .createPlan => c.handleCreatePlan m
  | .approvePlan => c.handleApprovePlan m
  | .beginAction => c.handleBeginAction m
  | .actionComplete => c.handleActionComplete m
  | .verify => c.handleVerify m
  | .cancelPlan => c.handleCancelPlan m
  | .advanceGeneration => c.handleAdvanceGeneration m
  | .revalidate => c.handleRevalidate m
  | .save => handleSave fs c
  | .planResult => c.reject "unhandled"

/-! ## Recovery -/

/-- The states that depended on live dynamic evidence. -/
def inFlight : PlanState → Bool
  | .executing | .approved | .moving | .quiescing | .preservingState | .rebinding
  | .verifying => true
  | _ => false

def restorePlan (pp : PersistedPlan) : Except ValueError RemediationPlan := do
  let benefit ← HealthyScore.ofDouble pp.benefit
  let cost ← HealthyScore.ofDouble pp.cost
  let risk ← HealthyScore.ofDouble pp.risk
  let disruption ← HealthyScore.ofDouble pp.disruption
  .ok
    { id := pp.id
      generation := pp.generation
      domainId := pp.domain
      policyGeneration := pp.policyGeneration
      epoch := pp.epoch
      basedOnSnapshot := pp.basedOnSnapshot
      expectedCapacityRecovered := pp.expectedCapacityRecovered
      benefit := benefit
      cost := cost
      risk := risk
      disruption := disruption
      state := if inFlight pp.state then .revalidationRequired else pp.state
      verification := pp.verification
      actions := pp.actionKinds.map (fun k => { kind := k })
      preconditionFailures :=
        if inFlight pp.state then ["dynamic evidence not authoritative after restart"] else [] }

/-- Restores the plans in order; a raise keeps those restored before it. -/
def restorePlans : List PersistedPlan → Coordinator → Coordinator × Except ValueError Unit
  | [], c => (c, .ok ())
  | pp :: rest, c =>
      match restorePlan pp with
      | .error e => (c, .error e)
      | .ok p => restorePlans rest { c with plans := c.plans.insert p.id p }

/-- The counters a recovery takes over. -/
def restoreGenerations (c : Coordinator) (st : PersistedState) : Coordinator :=
  { c with
    persisted := st
    generations :=
      { c.generations with
        resourceGeneration := st.resourceGeneration
        allocationGeneration := st.allocationGeneration
        reservationGeneration := st.reservationGeneration
        policyGeneration := st.policyGeneration }
    policyGeneration := st.policyGeneration
    nextPlanId := st.nextPlanId }

/-- Dynamic evidence is not restored as current. -/
def recover (c : Coordinator) (st : PersistedState) : Coordinator × Except ValueError Unit :=
  match restorePlans st.plans (c.restoreGenerations st) with
  | (c, .error e) => (c, .error e)
  | (c, .ok ()) => ({ c with resources := ∅, workerAlive := ∅, workerBoot := ∅ }, .ok ())

def advancePolicyGeneration (c : Coordinator) : Coordinator :=
  { c with policyGeneration := c.policyGeneration.next }

/-! ## Runs -/

/-- Anything that can be done to a coordinator. -/
inductive Event
  | message (fs : Codec.SaveOutcome) (m : Message)
  | workerDead (w : WorkerId)
  | recover (st : PersistedState)
  | advancePolicy

/-- The state after an event; a raise leaves what was written before it. -/
def step (c : Coordinator) : Event → Coordinator
  | .message fs m => (handle fs c m).1
  | .workerDead w => c.markWorkerDead w
  | .recover st => (c.recover st).1
  | .advancePolicy => c.advancePolicyGeneration

end Coordinator

end FragmentationGovernor
