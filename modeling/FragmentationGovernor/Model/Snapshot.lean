import FragmentationGovernor.Model.Layout

/-! # Resources, demands, snapshots and policy

The records of `resource/resource.hpp`, `snapshot/reservation.hpp`,
`domain/generations.hpp`, `fit/demand.hpp`, `snapshot/snapshot.hpp` and
`policy/policy.hpp`. -/

namespace FragmentationGovernor

/-! ## Resources and their evidence -/

structure Resource where
  id : ResourceId := default
  generation : ResourceGeneration := default
  pool : ResourcePoolId := default
  device : DeviceId := default
  node : NodeId := default
  memoryDomain : MemoryDomainId := default
  topologyGroup : Option Int64 := none
  domain : Domain := .unknown
  capacity : Bytes := 0
  provenance : Provenance := .unknown
deriving DecidableEq

/-- A temporal reservation over the interval `[start, stop)`. -/
structure Reservation where
  id : ReservationId := default
  generation : ReservationGeneration := default
  resource : ResourceId := default
  start : Duration := 0
  stop : Duration := 0
  amount : Bytes := 0
  hard : Bool := false
  policyProtected : Bool := false
  provenance : Provenance := .reported
deriving DecidableEq

structure KnownResourceGenerations where
  resourceGeneration : ResourceGeneration := default
  allocationGeneration : AllocationGeneration := default
  reservationGeneration : ReservationGeneration := default
  topologyGeneration : TopologyGeneration := default
  capacityGeneration : CapacityModelGeneration := default
  capabilityGeneration : CapabilityGeneration := default
  placementGeneration : PlacementGeneration := default
  healthGeneration : HealthGeneration := default
  policyGeneration : PolicyGeneration := default
deriving DecidableEq

/-- All generations required for current evidence were issued. -/
def KnownResourceGenerations.complete (g : KnownResourceGenerations) : Bool :=
  g.resourceGeneration.isValid && g.allocationGeneration.isValid &&
    g.reservationGeneration.isValid && g.topologyGeneration.isValid &&
    g.capacityGeneration.isValid

/-! ## Demands -/

structure WorkloadDemand where
  id : WorkloadDemandId := default
  generation : WorkloadDemandGeneration := default
  acceleratorCount : Count := 0
  perDeviceMemory : Bytes := 0
  aggregateMemory : Bytes := 0
  contiguousMemory : Bytes := 0
  pinnedMemory : Bytes := 0
  topologyGroup : Option Int64 := none
  localityGroup : Option Int64 := none
  requiresHighspeedCommPath : Bool := false
  reservationDuration : Option Duration := none
  requiresModelResidency : Bool := false
  requiresAdapterResidency : Bool := false
  elasticMin : Option Bytes := none
  elasticMax : Option Bytes := none
deriving DecidableEq

/-! ## Snapshots -/

/-- A resource with its authoritative layout. -/
structure DeviceState where
  resource : Resource
  layout : ResourceLayout
deriving DecidableEq

structure FragmentationSnapshot where
  id : FragmentationSnapshotId := default
  generation : FragmentationSnapshotGeneration := default
  domainId : FragmentationDomainId := default
  domainGeneration : FragmentationDomainGeneration := default
  pool : ResourcePoolId := default
  poolGeneration : ResourcePoolGeneration := default
  domain : Domain := .unknown
  generations : KnownResourceGenerations := {}
  sourceWorker : WorkerBootId := default
  epoch : CoordinatorEpoch := default
  policyGeneration : PolicyGeneration := default
  capacityGeneration : CapacityModelGeneration := default
  topologyGeneration : TopologyGeneration := default
  provenance : Provenance := .unknown
  devices : List DeviceState := []
  reservations : List Reservation := []
deriving DecidableEq

/-! ## Policy -/

structure Policy where
  generation : PolicyGeneration := default
  allowRelease : Bool := true
  allowEviction : Bool := false
  allowPreemption : Bool := false
  allowReservationShift : Bool := false
  requireVerification : Bool := true
  /-- maximum acceptable disruption for any generated plan -/
  maxDisruption : HealthyScore := 1

structure PlanningWeights where
  workloadPriority : HealthyScore
  urgency : HealthyScore
  reclaimValue : HealthyScore
  displacementCostWeight : HealthyScore
  migrationCostWeight : HealthyScore
  disruptionLimit : HealthyScore

def defaultWeights : PlanningWeights :=
  ⟨.ofPercent 50, .ofPercent 50, .ofPercent 60, .ofPercent 50, .ofPercent 50, 1⟩

end FragmentationGovernor
