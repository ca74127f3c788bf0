import FragmentationGovernor.Model.Metrics
import Mathlib.Data.List.Sort

/-! # Fit analysis

`fit/fit.cpp`: whether a demand fits a snapshot now, after reclaiming, or why not. -/

namespace FragmentationGovernor

structure FitResult where
  outcome : FitOutcome := .unknown
  category : FragmentationCategory := .unknown
  blockDiagnostics : List String := []
  aggregateMetrics : FragmentationMetrics := {}
  matchingDevices : Count := 0
  requiredDevices : Count := 0
  evidence : EvidenceKind := .unknown
deriving DecidableEq

/-! ## Temporal windows -/

/-- The scan over reservations sorted by start: `inl` is the start of a window that is
long enough, `inr` the cursor at which the scan stopped without one. -/
def scanReservations (horizonEnd required : Duration) :
    List Reservation → Duration → Except ValueError (Duration ⊕ Duration)
  | [], cursor => .ok (.inr cursor)
  | r :: rest, cursor =>
      if r.stop ≤ cursor then scanReservations horizonEnd required rest cursor
      else do
        let found ← if r.start ≥ cursor then do
            let gap ← r.start.sub cursor
            .ok (decide (gap ≥ required))
          else .ok false
        if found then .ok (.inl cursor)
        else
          let cursor := if r.stop > cursor then r.stop else cursor
          if cursor ≥ horizonEnd then .ok (.inr cursor)
          else scanReservations horizonEnd required rest cursor

/-- The search over the reservations in the order the sort has left them in. -/
def searchReservations (order : List Reservation) (horizonStart horizonEnd required : Duration) :
    Except ValueError (Option Duration) :=
  if required.value = 0 then .ok (some horizonStart)
  else do
    match ← scanReservations horizonEnd required order horizonStart with
    | .inl t => .ok (some t)
    | .inr cursor => do
        let tail ← horizonEnd.sub cursor
        .ok (if tail ≥ required then some cursor else none)

/-- The reservations by start. `std::sort` promises no order among equal starts; here they
keep the one they come in, and `StartOrder` names all orders it may leave. -/
def byStart (rs : List Reservation) : List Reservation :=
  rs.insertionSort (fun a b => a.start ≤ b.start)

/-- An order in which `std::sort` by start may leave the reservations. -/
structure StartOrder (order rs : List Reservation) : Prop where
  perm : order.Perm rs
  sorted : order.Pairwise (fun a b => a.start ≤ b.start)

/-- The earliest start of a window of the required length, if there is one. -/
def temporalContinuousFit (reservations : List Reservation)
    (horizonStart horizonEnd required : Duration) : Except ValueError (Option Duration) :=
  searchReservations (byStart reservations) horizonStart horizonEnd required

/-! ## Devices -/

namespace Fit

def deviceSatisfies (l : ResourceLayout) (d : WorkloadDemand) : Bool :=
  decide (l.freeCapacity ≥ d.perDeviceMemory) && decide (l.largestFreeBlock ≥ d.perDeviceMemory)

def reclaimable (a : Allocation) : Bool :=
  if a.policyProtected || a.reservation.isSome then false else mayMove a.movability

/-- A copy of the layout without its reclaimable allocations. -/
def reclaimAll (l : ResourceLayout) : Except ValueError ResourceLayout :=
  l.allocations.entries.foldlM
    (fun sim e =>
      if reclaimable e.2 then do
        let (sim, _) ← sim.removeAllocation e.1
        .ok sim
      else .ok sim) l

/-- One more when the layout satisfies the per-device requirement. -/
def tally (d : WorkloadDemand) (n : Count) (l : ResourceLayout) : Except ValueError Count :=
  if deviceSatisfies l d then n.add 1 else .ok n

def countSatisfyingAfterReclaim (ds : List DeviceState) (d : WorkloadDemand) :
    Except ValueError Count :=
  ds.foldlM (fun n s => do
    let sim ← reclaimAll s.layout
    tally d n sim) 0

def aggregateAfterReclaim (ds : List DeviceState) : Except ValueError Bytes :=
  ds.foldlM (fun total s => do
    let sim ← reclaimAll s.layout
    total.add sim.freeCapacity) 0

/-- The devices satisfying the requirement now and the free capacity of all. -/
def countNow (d : WorkloadDemand) (ds : List DeviceState) : Except ValueError (Count × Bytes) :=
  ds.foldlM (fun acc s => do
    let n ← tally d acc.1 s.layout
    let free ← acc.2.add s.layout.freeCapacity
    .ok (n, free)) (0, 0)

/-- The devices admitted by the topology constraint. -/
def select (ds : List DeviceState) (d : WorkloadDemand) : List DeviceState :=
  match d.topologyGroup with
  | none => ds
  | some g => ds.filter (fun s => decide (s.resource.topologyGroup = some g))

/-- `accelerator_count`, or one for a single-resource demand. -/
def neededCount (d : WorkloadDemand) : Count :=
  if d.acceleratorCount.value = 0 then 1 else d.acceleratorCount

end Fit

/-! ## The analysis -/

open Fit

/-- The verdict when too few of the selected devices satisfy the requirement. -/
def shortfallFit (r : FitResult) (ds : List DeviceState) (d : WorkloadDemand) :
    Except ValueError FitResult :=
  if d.topologyGroup.isSome ∧ ds.length < (neededCount d).toNat then
    .ok { r with
      outcome := .noFitTopology
      category := .topology
      blockDiagnostics := r.blockDiagnostics ++ ["insufficient devices in required topology group"] }
  else do
    let afterReclaim ← countSatisfyingAfterReclaim ds d
    let reclaimFits ← if afterReclaim ≥ neededCount d then do
        let total ← aggregateAfterReclaim ds
        .ok (decide (total ≥ d.aggregateMemory))
      else .ok false
    if reclaimFits then
      .ok { r with
        outcome := .fitAfterReclaim
        category := .external
        blockDiagnostics :=
          r.blockDiagnostics ++ ["fits after reclaiming movable/releasable allocations"] }
    else if ds.all (fun s => s.layout.allocations.entries.all (fun e =>
        !(mayMove e.2.movability && !e.2.policyProtected && !e.2.reservation.isSome))) then
      .ok { r with
        outcome := .noFitProtectedState
        category := .ownership
        blockDiagnostics :=
          r.blockDiagnostics ++ ["only protected/immovable capacity blocks the fit"] }
    else
      .ok { r with
        outcome := .noFitFragmentation
        category := .contiguity
        blockDiagnostics := r.blockDiagnostics ++
          ["aggregate capacity sufficient but no contiguous span large enough"] }

/-- The verdict on what the search for a window has answered; no verdict when it found one. -/
def reservationGate (r : FitResult) (reservations : List Reservation)
    (search : Except ValueError (Option Duration)) : Except ValueError (Option FitResult) := do
  let window ← search
  match window with
  | some _ => .ok none
  | none =>
      if reservations.any (fun res => res.hard) then
        .ok (some { r with
          outcome := .noFitReservation
          category := .reservation
          blockDiagnostics :=
            r.blockDiagnostics ++ ["hard reservation fragments the requested window"] })
      else
        .ok (some { r with
          outcome := .noFitTemporal
          category := .temporal
          blockDiagnostics :=
            r.blockDiagnostics ++ ["no continuous interval satisfies required duration"] })

/-- The verdict when enough devices satisfy the requirement and none remain but the
reservations to consider. -/
def reservationFit (r : FitResult) (reservations : List Reservation) (duration : Duration) :
    Except ValueError (Option FitResult) :=
  reservationGate r reservations
    (temporalContinuousFit reservations 0 ⟨0xFFFFFFFFFFFFFFFF / 2⟩ duration)

/-- The positive verdict; a single-resource demand also reports its governing device. -/
def fitNow (r : FitResult) (ds : List DeviceState) (d : WorkloadDemand) :
    Except ValueError FitResult := do
  let r := { r with outcome := .fitNow, category := .unknown }
  if d.acceleratorCount.value = 0 then
    match ds.find? (fun s => deviceSatisfies s.layout d) with
    | none => .ok r
    | some s => do
        let m ← computeMetrics s.layout (some d)
        .ok { r with aggregateMetrics := m }
  else .ok r

def evidenceOf : Provenance → EvidenceKind
  | .measured => .real
  | .synthetic => .synthetic
  | _ => .derived

def analyzeFit (sn : FragmentationSnapshot) (d : WorkloadDemand) :
    Except ValueError FitResult :=
  let r : FitResult := { requiredDevices := d.acceleratorCount }
  if !sn.generations.complete ∨ sn.provenance = .unknown then
    .ok { r with
      outcome := .revalidationRequired
      evidence := .unknown
      blockDiagnostics := ["insufficient current evidence (stale/unknown generations)"] }
  else
    let r := { r with evidence := evidenceOf sn.provenance }
    if sn.devices.isEmpty then
      .ok { r with
        outcome := .insufficientEvidence
        blockDiagnostics := ["no devices in snapshot"] }
    else do
      let ds := select sn.devices d
      let r := if ds.length < sn.devices.length then
          { r with blockDiagnostics := ["topology group restricts available devices"] }
        else r
      let (now, aggregateFree) ← countNow d ds
      let r := { r with matchingDevices := now }
      if aggregateFree < d.aggregateMemory then
        .ok { r with
          outcome := .noFitRawCapacity
          category := .spatial
          blockDiagnostics := r.blockDiagnostics ++ ["aggregate free capacity below demand"] }
      else if now < neededCount d then shortfallFit r ds d
      else do
        let blocked ← match d.reservationDuration with
          | some duration =>
              if sn.reservations.isEmpty then .ok none
              else reservationFit r sn.reservations duration
          | none => .ok none
        match blocked with
        | some r => .ok r
        | none => fitNow r ds d

end FragmentationGovernor
