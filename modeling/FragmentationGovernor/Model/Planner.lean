import FragmentationGovernor.Model.Fit

/-! # Remediation planning

`planner/plan.hpp` and `planner/planner.cpp`. Scores are computed in doubles: every operation is
rounded, in the order of the source. -/

namespace FragmentationGovernor

structure PlanAction where
  kind : ActionKind := .noBeneficialAction
  targetResource : ResourceId := default
  affectedOwner : AllocationOwnerId := default
  sourceAllocation : Option AllocationId := none
  destination : Option ResourceId := none
  affectedAllocations : List AllocationId := []
  requiredAuthority : AuthorityGeneration := default
  requiredPreconditions : List Text := []
  proofObligations : List Text := []
  expectedCapacityRecovered : Bytes := 0
  expectedFitImprovement : HealthyScore := 0
  cost : HealthyScore := 0
  risk : HealthyScore := 0
  disruption : HealthyScore := 0
  reversible : Bool := false
  statePreservationRequired : Bool := false
  preemptionRequired : Bool := false
  reservationImpact : ReservationImpact := .none
  /-- generations captured at plan creation -/
  generations : KnownResourceGenerations := {}
deriving DecidableEq

structure RemediationPlan where
  id : FragmentationPlanId := default
  generation : FragmentationPlanGeneration := default
  domainId : FragmentationDomainId := default
  basedOnSnapshot : FragmentationSnapshotGeneration := default
  policyGeneration : PolicyGeneration := default
  epoch : CoordinatorEpoch := default
  actions : List PlanAction := []
  expectedCapacityRecovered : Bytes := 0
  expectedFitImprovement : HealthyScore := 0
  benefit : HealthyScore := 0
  cost : HealthyScore := 0
  risk : HealthyScore := 0
  disruption : HealthyScore := 0
  factorExplanation : List Text := []
  state : PlanState := .detected
  verification : Option VerificationOutcome := none
  preconditionFailures : List Text := []
deriving DecidableEq

namespace Planner

/-! ## Candidates -/

def disruptionOf : Movability → ℚ
  | .releaseable => Double.percent 10
  | .recomputable => Double.percent 25
  | .evictable => Double.percent 40
  | .movableAfterCheckpoint => Double.percent 60
  | .movableAfterQuiesce => Double.percent 80
  | .movableLive => Double.percent 95
  | .immovable | .reservationProtected | .policyProtected | .unknown => 1

def kindFor : Movability → ActionKind
  | .releaseable => .releaseUnused
  | .recomputable | .evictable => .evictRecomputable
  | .movableLive | .movableAfterQuiesce | .movableAfterCheckpoint => .moveAllocation
  | _ => .noBeneficialAction

def reclaimable (a : Allocation) : Bool :=
  if a.policyProtected || a.reservation.isSome then false
  else if !mayMove a.movability then false
  else true

structure ReclaimCandidate where
  deviceIndex : ℕ
  id : AllocationId
  length : Bytes
  disruption : ℚ
  movability : Movability
  owner : AllocationOwnerId
deriving DecidableEq

/-- The comparison the candidates are sorted by. -/
def before (a b : ReclaimCandidate) : Bool :=
  if a.disruption ≠ b.disruption then decide (a.disruption < b.disruption)
  else if a.length ≠ b.length then decide (a.length < b.length)
  else decide (a.id.value < b.id.value)

/-- What the weights leave of a disruption. -/
def mitigation (weights : PlanningWeights) : ℚ :=
  max (Double.percent 5) (Double.round (1 - weights.displacementCostWeight.value.toRat))

def candidateOf (weights : PlanningWeights) (i : ℕ) (id : AllocationId) (a : Allocation) :
    ReclaimCandidate where
  deviceIndex := i
  id := id
  length := a.length
  disruption := Double.round (disruptionOf a.movability * mitigation weights)
  movability := a.movability
  owner := a.owner

/-- The candidates of one device, in the order of its registry. -/
def candidatesOn (weights : PlanningWeights) (i : ℕ) (l : ResourceLayout) :
    List ReclaimCandidate :=
  l.allocations.entries.filterMap (fun e =>
    if reclaimable e.2 then some (candidateOf weights i e.1 e.2) else none)

/-- All candidates, device by device from index `i` on. -/
def candidates (weights : PlanningWeights) : ℕ → List DeviceState → List ReclaimCandidate
  | _, [] => []
  | i, s :: rest => candidatesOn weights i s.layout ++ candidates weights (i + 1) rest

/-- The stable sort of the candidates. -/
def sortCandidates (cs : List ReclaimCandidate) : List ReclaimCandidate :=
  cs.insertionSort (fun a b => before b a = false)

/-! ## The loop over candidates -/

structure FitState where
  satisfying : Count := 0
  aggregateFree : Bytes := 0

def eval (devs : List ResourceLayout) (d : WorkloadDemand) : Except ValueError FitState :=
  devs.foldlM (fun s l => do
    let n ← if l.freeCapacity ≥ d.perDeviceMemory ∧ l.largestFreeBlock ≥ d.perDeviceMemory then
        s.satisfying.add 1
      else .ok s.satisfying
    let free ← s.aggregateFree.add l.freeCapacity
    .ok ⟨n, free⟩) {}

def needed (d : WorkloadDemand) : Count :=
  if d.acceleratorCount.value = 0 then 1 else d.acceleratorCount

def FitState.suffices (s : FitState) (d : WorkloadDemand) : Bool :=
  decide (s.satisfying ≥ needed d) && decide (s.aggregateFree ≥ d.aggregateMemory)

/-- The action that displaces a candidate. -/
def actionFor (snap : FragmentationSnapshot) (weights : PlanningWeights) (target : ResourceId)
    (c : ReclaimCandidate) : Except ValueError PlanAction := do
  let cost ← HealthyScore.ofRat
    (min 1 (Double.round (weights.displacementCostWeight.value.toRat * c.disruption)))
  let risk ← HealthyScore.ofRat (min 1 (Double.round (Double.percent 60 * c.disruption)))
  let disruption ← HealthyScore.ofRat c.disruption
  .ok
    { kind := kindFor c.movability
      targetResource := target
      affectedOwner := c.owner
      sourceAllocation := some c.id
      affectedAllocations := [c.id]
      requiredAuthority := ⟨snap.epoch.value⟩
      requiredPreconditions :=
        ["source generation current", "owning workload allows displacement",
          "state checkpointable/recomputable where required", "policy allows action",
          "no protected reservation violated"]
      proofObligations := ["accounting closed after action", "no double-free / double-consume"]
      expectedCapacityRecovered := c.length
      expectedFitImprovement := 1
      cost := cost
      risk := risk
      disruption := disruption
      reversible := decide (c.movability ≠ .evictable ∧ c.movability ≠ .recomputable)
      statePreservationRequired :=
        decide (c.movability = .movableAfterCheckpoint ∨ c.movability = .movableLive)
      preemptionRequired := decide (c.movability = .movableLive)
      reservationImpact := .none
      generations := snap.generations }

/-- Displaces candidates in order until the demand fits, collecting the actions. -/
def displace (snap : FragmentationSnapshot) (d : WorkloadDemand) (weights : PlanningWeights) :
    List ReclaimCandidate → List ResourceLayout → List PlanAction →
      Except ValueError (List ResourceLayout × List PlanAction)
  | [], devs, actions => .ok (devs, actions)
  | c :: rest, devs, actions => do
      let st ← eval devs d
      if st.suffices d then .ok (devs, actions)
      else
        -- the index of a candidate is always that of a device of the snapshot
        match devs[c.deviceIndex]?, snap.devices[c.deviceIndex]? with
        | some l, some s => do
            let (l, reply) ← l.removeAllocation c.id
            let devs := devs.set c.deviceIndex l
            match reply with
            | .error _ => displace snap d weights rest devs actions
            | .ok () => do
                let act ← actionFor snap weights s.resource.id c
                displace snap d weights rest devs (actions ++ [act])
        | _, _ => displace snap d weights rest devs actions

/-! ## The plan -/

/-- Six decimals, as `std::to_string` prints a double. -/
def formatScore (q : ℚ) : String :=
  let n := (roundEven (q * 10 ^ 6)).toNat
  let digits := toString (n % 10 ^ 6)
  toString (n / 10 ^ 6) ++ "." ++ String.ofList (List.replicate (6 - digits.length) '0') ++ digits

def sumBytes (bs : List Bytes) : Except ValueError Bytes :=
  bs.foldlM (fun total b => total.add b) 0

/-- More actions than any memory holds. The lists of the model may be longer, and rounding at
every step could take their means out of range; those means are left exact. -/
def maxActions : ℕ := 2 ^ 40

/-- The mean of a score over the actions, zero without actions. -/
def exactMean (f : PlanAction → HealthyScore) (actions : List PlanAction) : ℚ :=
  (actions.map (fun a => (f a).value.toRat)).sum / actions.length

/-- The mean that divides the sum by the number of actions. -/
def mean (f : PlanAction → HealthyScore) (actions : List PlanAction) : ℚ :=
  if actions.length ≤ maxActions then
    Double.round (roundedSum Double.round (actions.map (fun a => (f a).value.toRat)) /
      Double.round actions.length)
  else exactMean f actions

/-- The mean that adds up the quotients. -/
def disruptionMean (actions : List PlanAction) : ℚ :=
  if actions.length ≤ maxActions then
    roundedSum Double.round (actions.map (fun a =>
      Double.round (a.disruption.value.toRat / Double.round actions.length)))
  else exactMean PlanAction.disruption actions

/-- The share of what is free afterwards that is recovered. -/
def usableGain (freeBefore recovered : Bytes) : ℚ :=
  Double.round (Double.round recovered.toNat /
    max 1 (Double.round (Double.round freeBefore.toNat + Double.round recovered.toNat)))

/-- The scored plan over the collected actions. -/
def score (snap : FragmentationSnapshot) (policy : Policy) (weights : PlanningWeights)
    (pid : FragmentationPlanId) (pg : FragmentationPlanGeneration) (freeBefore : Bytes)
    (actions : List PlanAction) : Except ValueError RemediationPlan := do
  let recovered ← sumBytes (actions.map (fun a => a.expectedCapacityRecovered))
  let benefitV := min 1 (Double.round
    (Double.round (Double.percent 60 * weights.reclaimValue.value.toRat) +
      Double.round (Double.percent 40 * usableGain freeBefore recovered)))
  let disruptionAvg := disruptionMean actions
  let costV := mean PlanAction.cost actions
  let riskV := mean PlanAction.risk actions
  let benefit ← HealthyScore.ofRat benefitV
  let cost ← HealthyScore.ofRat costV
  let risk ← HealthyScore.ofRat riskV
  let disruption ← HealthyScore.ofRat disruptionAvg
  let blocked := decide (disruptionAvg > policy.maxDisruption.value.toRat)
  .ok
    { id := pid
      generation := pg
      domainId := snap.domainId
      basedOnSnapshot := snap.generation
      policyGeneration := snap.policyGeneration
      epoch := snap.epoch
      actions := actions
      expectedCapacityRecovered := recovered
      expectedFitImprovement := 1
      benefit := benefit
      cost := cost
      risk := risk
      disruption := disruption
      factorExplanation :=
        ["benefit=" ++ formatScore benefitV ++ " cost=" ++ formatScore costV ++
          " risk=" ++ formatScore riskV ++ " disruption=" ++ formatScore disruptionAvg]
      state :=
        if blocked then .blocked else if policy.requireVerification then .planReady else .detected
      preconditionFailures := if blocked then ["plan disruption exceeds policy limit"] else [] }

end Planner

open Planner

/-- A plan that would make the demand fit the snapshot, if there is one. The plans the
source fills in before it gives up are never returned. -/
def planRemediation (snap : FragmentationSnapshot) (d : WorkloadDemand) (policy : Policy)
    (weights : PlanningWeights) (pid : FragmentationPlanId) (pg : FragmentationPlanGeneration) :
    Except ValueError (Option RemediationPlan) := do
  let devs := snap.devices.map (fun s => s.layout)
  let now ← eval devs d
  if now.suffices d then .ok none
  else do
    let cands := sortCandidates (candidates weights 0 snap.devices)
    let freeBefore ← sumBytes (devs.map (fun l => l.freeCapacity))
    let (devs, actions) ← displace snap d weights cands devs []
    let final ← eval devs d
    if final.satisfying < needed d ∨ final.aggregateFree < d.aggregateMemory then .ok none
    else do
      let plan ← score snap policy weights pid pg freeBefore actions
      .ok (some plan)

end FragmentationGovernor
