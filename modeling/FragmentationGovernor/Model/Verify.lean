import FragmentationGovernor.Model.Planner

/-! # Post-action verification

`verification/verification.cpp`: the comparison of a snapshot from before a plan with one
from after it. -/

namespace FragmentationGovernor

structure VerificationResult where
  generation : VerificationGeneration := default
  outcome : VerificationOutcome := .revalidationRequired
  beforeStranded : Bytes := 0
  afterStranded : Bytes := 0
  beforeFit : Bool := false
  afterFit : Bool := false
  beforeLargest : Bytes := 0
  afterLargest : Bytes := 0
  exactAccountingClosed : Bool := false
  failedStaleRemoved : Bool := false
  currentGenerations : Bool := false
  noProtectedViolation : Bool := false
  diagnostics : List String := []
deriving DecidableEq

namespace Verify

/-- Used and free capacity add up to the total on every device. -/
def accountingClosed : List DeviceState → Except ValueError Bool
  | [] => .ok true
  | s :: rest => do
      let used ← s.layout.usedCapacity
      let sum ← used.add s.layout.freeCapacity
      if sum ≠ s.layout.totalCapacity then .ok false
      else if used.value + s.layout.freeCapacity.value ≠ s.layout.totalCapacity.value then
        .ok false
      else accountingClosed rest

def totalFree (ds : List DeviceState) : Except ValueError Bytes :=
  ds.foldlM (fun total s => total.add s.layout.freeCapacity) 0

/-- The largest free block of any device. -/
def largest (ds : List DeviceState) : Bytes :=
  ds.foldl (fun best s =>
    if s.layout.largestFreeBlock > best then s.layout.largestFreeBlock else best) 0

/-- The allocations that must survive every plan. -/
def mustSurvive (a : Allocation) : Bool :=
  a.reservation.isSome || a.policyProtected || decide (a.movability = .immovable) ||
    decide (a.movability = .reservationProtected) || decide (a.movability = .policyProtected)

/-- Some device of the list holds an allocation with this id. -/
def present (ds : List DeviceState) (id : AllocationId) : Bool :=
  ds.any (fun s => (s.layout.findAllocation id).isSome)

/-- Every allocation that must survive is still there. -/
def protectedIntact (before after : List DeviceState) : Bool :=
  before.all (fun s => s.layout.allocations.entries.all (fun e =>
    !mustSurvive e.2 || present after e.1))

/-- No source of an action is still there. -/
def staleRemoved (after : List DeviceState) (plan : RemediationPlan) : Bool :=
  plan.actions.all (fun act =>
    match act.sourceAllocation with
    | some id => !present after id
    | none => true)

/-- The outcome once the integrity clauses are known, with its diagnostics. -/
def decideOutcome (r : VerificationResult) : VerificationResult :=
  if !r.exactAccountingClosed ∨ !r.currentGenerations ∨ !r.noProtectedViolation then
    { r with
      outcome := .verificationFailed
      diagnostics :=
        (if !r.exactAccountingClosed then ["accounting not closed"] else []) ++
          (if !r.currentGenerations then ["generations not current"] else []) ++
          (if !r.noProtectedViolation then ["protected violation"] else []) }
  else if r.afterFit && !r.beforeFit then { r with outcome := .targetFitAchieved }
  else if r.afterFit && r.beforeFit then { r with outcome := .improved }
  else if r.afterStranded < r.beforeStranded then { r with outcome := .partialImprovement }
  else if r.afterStranded = r.beforeStranded ∧ r.afterLargest = r.beforeLargest then
    { r with outcome := .noChange }
  else if r.afterStranded > r.beforeStranded then { r with outcome := .regression }
  else r

end Verify

open Verify

def verifyRemediation (before after : FragmentationSnapshot) (d : WorkloadDemand)
    (plan : RemediationPlan) : Except ValueError VerificationResult := do
  let beforeFree ← totalFree before.devices
  let afterFree ← totalFree after.devices
  let beforeLargest := largest before.devices
  let afterLargest := largest after.devices
  let beforeStranded ← excess beforeFree beforeLargest
  let afterStranded ← excess afterFree afterLargest
  let beforeFit ← analyzeFit before d
  let afterFit ← analyzeFit after d
  let closedBefore ← accountingClosed before.devices
  let closed ← if closedBefore then accountingClosed after.devices else .ok false
  .ok (decideOutcome
    { beforeLargest := beforeLargest
      afterLargest := afterLargest
      beforeStranded := beforeStranded
      afterStranded := afterStranded
      beforeFit := decide (beforeFit.outcome = .fitNow)
      afterFit := decide (afterFit.outcome = .fitNow)
      exactAccountingClosed := closed
      currentGenerations := after.generations.complete && decide (after.epoch = before.epoch) &&
        decide (after.policyGeneration = before.policyGeneration)
      noProtectedViolation := protectedIntact before.devices after.devices
      failedStaleRemoved := staleRemoved after.devices plan })

end FragmentationGovernor
