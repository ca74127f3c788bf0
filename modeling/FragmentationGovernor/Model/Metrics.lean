import FragmentationGovernor.Model.Snapshot

/-! # Metrics of one layout

`metrics/metrics.cpp`. -/

namespace FragmentationGovernor

structure FragmentationMetrics where
  totalCapacity : Bytes := 0
  usedCapacity : Bytes := 0
  freeCapacity : Bytes := 0
  allocationCount : Count := 0
  blockCount : Count := 0
  largestFreeBlock : Bytes := 0
  externalFragmentationRatio : ℚ := 0
  usableFraction : ℚ := 1
  protectedCapacity : Bytes := 0
  movableCapacity : Bytes := 0
  reclaimableCapacity : Bytes := 0
  strandedCapacity : Bytes := 0
  hasWorkload : Bool := false
  workloadUsableCapacity : Bytes := 0
  workloadStrandedCapacity : Bytes := 0
  reclaimableOpportunity : Bytes := 0
  workloadFits : Bool := false
  dominantCategories : List FragmentationCategory := []
deriving DecidableEq

def eligibleForReclaim (a : Allocation) : Bool :=
  !a.policyProtected && a.reservation.isNone && mayMove a.movability

def isProtected (a : Allocation) : Bool :=
  a.policyProtected || a.reservation.isSome ||
    match a.movability with
    | .immovable | .reservationProtected | .policyProtected | .unknown => true
    | .movableLive | .movableAfterQuiesce | .movableAfterCheckpoint | .recomputable
    | .evictable | .releaseable => false

def isMovableClass (a : Allocation) : Bool :=
  match a.movability with
  | .movableLive | .movableAfterQuiesce | .movableAfterCheckpoint => true
  | _ => false

/-- The capacity that `a` exceeds `b` by, or zero. -/
def excess (a b : Bytes) : Except ValueError Bytes :=
  if a > b then a.sub b else .ok 0

namespace FragmentationMetrics

/-- The sum of the lengths of the allocations that satisfy `p`. -/
def sumLengths (p : Allocation → Bool) (l : ResourceLayout) : Except ValueError Bytes :=
  l.allocations.entries.foldlM
    (fun total e => if p e.2 then total.add e.2.length else .ok total) 0

/-- Removes the eligible allocations one after another, up to the first failure. -/
def reclaimEligible : List (AllocationId × Allocation) → ResourceLayout →
    Except ValueError (Option ResourceLayout)
  | [], sim => .ok (some sim)
  | (id, a) :: rest, sim =>
      if eligibleForReclaim a then do
        match ← sim.removeAllocation id with
        | (_, .error _) => .ok none
        | (sim, .ok ()) => reclaimEligible rest sim
      else reclaimEligible rest sim

/-- The part of the metrics that does not depend on a demand. -/
def ofLayout (l : ResourceLayout) : Except ValueError FragmentationMetrics := do
  let used ← l.usedCapacity
  let free := l.freeCapacity
  let largest := l.largestFreeBlock
  let ratio := if free.value > 0 then
      Double.round (Double.round largest.toNat / Double.round free.toNat)
    else 0
  let protectedCapacity ← sumLengths isProtected l
  let movable ← sumLengths isMovableClass l
  let reclaimable ← sumLengths eligibleForReclaim l
  let stranded ← excess free largest
  .ok
    { totalCapacity := l.totalCapacity
      usedCapacity := used
      freeCapacity := free
      allocationCount := l.allocationCount
      blockCount := l.freeBlockCount
      largestFreeBlock := largest
      externalFragmentationRatio := if free.value > 0 then Double.round (1 - ratio) else 0
      usableFraction := ratio
      protectedCapacity := protectedCapacity
      movableCapacity := movable
      reclaimableCapacity := reclaimable
      strandedCapacity := stranded
      dominantCategories :=
        (if l.freeBlockCount.value > 1 then [.external, .contiguity] else []) ++
          (if protectedCapacity.value > 0 ∧ stranded.value > 0 then [.ownership] else []) }

/-- The part that is populated only when a demand is supplied. -/
def withDemand (m : FragmentationMetrics) (l : ResourceLayout) (d : WorkloadDemand) :
    Except ValueError FragmentationMetrics := do
  let fitNow := decide (m.freeCapacity ≥ d.aggregateMemory) &&
    (!decide (d.contiguousMemory.value > 0) || decide (m.largestFreeBlock ≥ d.contiguousMemory))
  let usable := if fitNow then d.aggregateMemory else m.largestFreeBlock
  let stranded ← excess m.freeCapacity usable
  let opportunity ← match ← reclaimEligible l.allocations.entries l with
    | none => .ok 0
    | some sim => excess sim.largestFreeBlock m.largestFreeBlock
  .ok
    { m with
      hasWorkload := true
      workloadFits := fitNow
      workloadUsableCapacity := usable
      workloadStrandedCapacity := stranded
      reclaimableOpportunity := opportunity }

end FragmentationMetrics

def computeMetrics (l : ResourceLayout) (demand : Option WorkloadDemand) :
    Except ValueError FragmentationMetrics := do
  let m ← FragmentationMetrics.ofLayout l
  match demand with
  | none => .ok m
  | some d => m.withDemand l d

end FragmentationGovernor
