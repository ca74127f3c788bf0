import FragmentationGovernor.Model.Units

/-! # Enumerations

The enumerations of `core/enums.hpp`, `resource/movability.hpp`, `fit/outcome.hpp`,
`planner/action.hpp`, `planner/plan_state.hpp`, `planner/plan.hpp`,
`verification/outcome.hpp` and `protocol/protocol.hpp`, in declaration order. -/

namespace FragmentationGovernor

inductive Domain
  | cudaDeviceMemory | acceleratorMemoryPool | pinnedHostMemory | hostMemory | numaNodeMemory
  | sharedMemoryPool | storageCapacity | storageBandwidth | pcieBandwidth | networkBandwidth
  | acceleratorSlot | modelResidency | adapterResidency | kvOrTensorResidency
  | reservationTimeline | placementTopology | compositeResource | unknown
deriving DecidableEq, Repr

inductive FragmentationCategory
  | spatial | contiguity | sizeClass | allocator | internal | external | topology | locality
  | reservation | temporal | placement | capability | ownership | pinning | immobility
  | residency | bandwidth | composite | policy | unknown
deriving DecidableEq, Repr

inductive Provenance
  | measured | reported | derived | estimated | reconstructed | synthetic | unknown
deriving DecidableEq, Repr

inductive EvidenceKind
  | real | derived | estimated | synthetic | unknown | unsupported
deriving DecidableEq, Repr

inductive Movability
  | immovable | movableLive | movableAfterQuiesce | movableAfterCheckpoint | recomputable
  | evictable | releaseable | reservationProtected | policyProtected | unknown
deriving DecidableEq, Repr

/-- Whether a consumer with this movability may be displaced to recover capacity. -/
def mayMove : Movability → Bool
  | .movableLive | .movableAfterQuiesce | .movableAfterCheckpoint | .recomputable
  | .evictable | .releaseable => true
  | .immovable | .reservationProtected | .policyProtected | .unknown => false

inductive FitOutcome
  | fitNow | noFitRawCapacity | noFitFragmentation | noFitContiguity | noFitTopology
  | noFitLocality | noFitReservation | noFitTemporal | noFitProtectedState | fitAfterReclaim
  | fitAfterRelocation | fitAfterReservationChange | fitAfterPreemption
  | fitAfterRevalidation | revalidationRequired | insufficientEvidence | unknown
deriving DecidableEq, Repr

inductive ActionKind
  | moveAllocation | compactPool | releaseUnused | evictRecomputable | migrateState
  | rebindReservation | shiftReservationWindow | replacePlacement | preemptForReclaim
  | reloadModelElsewhere | moveAdapter | rebalanceResidency | repackSizeClasses
  | splitWorkload | shrinkElasticWorkload | waitForRelease | revalidate
  | manualIntervention | noBeneficialAction
deriving DecidableEq, Repr

inductive PlanState
  | detected | assessing | planReady | blocked | approved | executing | quiescing
  | preservingState | moving | rebinding | verifying | completed | partiallyCompleted
  | failed | aborted | cancelled | superseded | revalidationRequired | retired
deriving DecidableEq, Repr

inductive ReservationImpact
  | none | shiftEligible | wouldViolate | unknown
deriving DecidableEq, Repr

inductive VerificationOutcome
  | improved | targetFitAchieved | partialImprovement | noChange | regression
  | verificationFailed | revalidationRequired
deriving DecidableEq, Repr

inductive MsgType
  | hello | register | publishResource | publishLayout | publishAllocation
  | invalidateAllocation | queryFragmentation | queryFit | createPlan | planResult
  | approvePlan | beginAction | actionComplete | verify | cancelPlan | advanceGeneration
  | revalidate | save | shutdown | error
deriving DecidableEq, Repr

inductive RegionKind
  | free | allocated
deriving DecidableEq, Repr

end FragmentationGovernor
