import FragmentationGovernor.Model.Persistence

/-! # Messages

The protocol messages of `protocol/protocol.hpp`, and their payload codec and framing,
`protocol/protocol.cpp`. -/

namespace FragmentationGovernor

structure Message where
  type : MsgType := .error
  workerId : UInt64 := 0
  workerBoot : UInt64 := 0
  epoch : UInt64 := 0
  policyGen : UInt64 := 0
  resourceGen : UInt64 := 0
  resource : Resource := {}
  allocations : List Allocation := []
  allocation : Allocation := {}
  allocationId : UInt64 := 0
  demand : WorkloadDemand := {}
  plan : RemediationPlan := {}
  planId : UInt64 := 0
  planGen : UInt64 := 0
  actionIndex : UInt32 := 0
  actionOk : Bool := false
  newGeneration : UInt64 := 0
  generationKind : UInt8 := 0
  genValue : UInt64 := 0
  ok : Bool := false
  fitOutcome : FitOutcome := .unknown
  verificationOutcome : VerificationOutcome := .revalidationRequired
  error : Text := {}
  detail : Text := {}

/-- The worker a message names. -/
def Message.worker (m : Message) : WorkerId := ⟨m.workerId⟩

/-- The plan a message names. -/
def Message.planKey (m : Message) : FragmentationPlanId := ⟨m.planId⟩

/-! ## Requests

The messages workers and controllers send, with the fields their handlers read. -/

namespace Message

def register (worker boot : UInt64) : Message :=
  { type := .register, workerId := worker, workerBoot := boot }

def publishResource (worker boot : UInt64) (r : Resource) : Message :=
  { type := .publishResource, workerId := worker, workerBoot := boot, resource := r }

def publishLayout (worker boot : UInt64) (r : Resource) (as : List Allocation) : Message :=
  { type := .publishLayout, workerId := worker, workerBoot := boot, resource := r,
    resourceGen := r.generation.value, allocations := as }

def publishAllocation (worker boot : UInt64) (r : Resource) (a : Allocation) : Message :=
  { type := .publishAllocation, workerId := worker, workerBoot := boot, resource := r,
    allocation := a }

def invalidateAllocation (worker boot allocation : UInt64) : Message :=
  { type := .invalidateAllocation, workerId := worker, workerBoot := boot,
    allocationId := allocation }

def createPlan (d : WorkloadDemand) : Message := { type := .createPlan, demand := d }

def approvePlan (plan : UInt64) : Message := { type := .approvePlan, planId := plan }

def cancelPlan (plan : UInt64) : Message := { type := .cancelPlan, planId := plan }

def beginAction (plan : UInt64) (i : UInt32) : Message :=
  { type := .beginAction, planId := plan, planGen := plan, actionIndex := i }

def actionComplete (plan : UInt64) (i : UInt32) : Message :=
  { type := .actionComplete, planId := plan, actionIndex := i, actionOk := true }

def verify (plan : UInt64) : Message := { type := .verify, planId := plan }

end Message

namespace Protocol

open Codec Decoder

def protocolMagic : UInt32 := 0x464247

def protocolVersion : UInt32 := 0x00010000

/-- 16 MiB. -/
def protocolMaxPayload : ℕ := 16 * 1024 * 1024

/-! ## Writing records -/

def putText (s : Text) : List UInt8 := u32 s.bytes.length ++ s.bytes

/-- A value behind the flag that says whether there is one. -/
def putOption {α : Type} (put : α → List UInt8) : Option α → List UInt8
  | none => bool false
  | some a => bool true ++ put a

def putScore (s : HealthyScore) : List UInt8 := u64 s.value.bits

def putGroup (g : Int64) : List UInt8 := u64 g.toUInt64

def putAlloc (a : Allocation) : List UInt8 :=
  u64 a.id.value ++ u64 a.generation.value ++ u64 a.owner.value ++
    u64 a.offset.value ++ u64 a.length.value ++ u8 a.movability.ctorIdx ++
    putOption (fun id => u64 id.value) a.reservation ++ bool a.policyProtected ++
    putOption (fun id => u64 id.value) a.workload ++ u8 a.provenance.ctorIdx

def putDemand (d : WorkloadDemand) : List UInt8 :=
  u64 d.id.value ++ u64 d.generation.value ++ u64 d.acceleratorCount.value ++
    u64 d.perDeviceMemory.value ++ u64 d.aggregateMemory.value ++
    u64 d.contiguousMemory.value ++ u64 d.pinnedMemory.value ++
    putOption putGroup d.topologyGroup ++ putOption putGroup d.localityGroup ++
    bool d.requiresHighspeedCommPath ++
    putOption (fun t => u64 t.value) d.reservationDuration ++
    bool d.requiresModelResidency ++ bool d.requiresAdapterResidency ++
    putOption (fun b => u64 b.value) d.elasticMin ++ putOption (fun b => u64 b.value) d.elasticMax

def putResource (r : Resource) : List UInt8 :=
  u64 r.id.value ++ u64 r.generation.value ++ u64 r.pool.value ++ u64 r.device.value ++
    u64 r.node.value ++ u64 r.memoryDomain.value ++ putOption putGroup r.topologyGroup ++
    u8 r.domain.ctorIdx ++ u64 r.capacity.value ++ u8 r.provenance.ctorIdx

def putAction (a : PlanAction) : List UInt8 :=
  u8 a.kind.ctorIdx ++ u64 a.targetResource.value ++ u64 a.affectedOwner.value ++
    putOption (fun id => u64 id.value) a.sourceAllocation ++
    putOption (fun id => u64 id.value) a.destination ++
    encodeList (fun id => u64 id.value) a.affectedAllocations ++ u64 a.requiredAuthority.value ++
    encodeList putText a.requiredPreconditions ++ encodeList putText a.proofObligations ++
    u64 a.expectedCapacityRecovered.value ++ putScore a.expectedFitImprovement ++
    putScore a.cost ++ putScore a.risk ++ putScore a.disruption ++
    bool a.reversible ++ bool a.statePreservationRequired ++ bool a.preemptionRequired ++
    u8 a.reservationImpact.ctorIdx

def putPlan (p : RemediationPlan) : List UInt8 :=
  u64 p.id.value ++ u64 p.generation.value ++ u64 p.domainId.value ++
    u64 p.basedOnSnapshot.value ++ u64 p.policyGeneration.value ++ u64 p.epoch.value ++
    encodeList putAction p.actions ++
    u64 p.expectedCapacityRecovered.value ++ putScore p.expectedFitImprovement ++
    putScore p.benefit ++ putScore p.cost ++ putScore p.risk ++ putScore p.disruption ++
    encodeList putText p.factorExplanation ++ u8 p.state.ctorIdx ++
    putOption (fun v => u8 v.ctorIdx) p.verification ++ encodeList putText p.preconditionFailures

/-! ## Writing messages -/

/-- The authority a worker speaks with. -/
def putSender (m : Message) : List UInt8 := u64 m.workerId ++ u64 m.workerBoot ++ u64 m.epoch

/-- The fields a message of its type transmits. -/
def putBody (m : Message) : List UInt8 :=
  match m.type with
  | .register => putSender m
  | .publishResource => putSender m ++ putResource m.resource
  | .publishLayout =>
      putSender m ++ u64 m.resource.id.value ++ u64 m.resourceGen ++
        encodeList putAlloc m.allocations
  | .publishAllocation => putSender m ++ u64 m.resource.id.value ++ putAlloc m.allocation
  | .invalidateAllocation => putSender m ++ u64 m.allocationId ++ u64 m.newGeneration
  | .queryFragmentation => u64 m.epoch
  | .queryFit => u64 m.epoch ++ putDemand m.demand
  | .createPlan => u64 m.epoch ++ u64 m.policyGen ++ putDemand m.demand
  | .planResult => putPlan m.plan
  | .approvePlan => u64 m.planId ++ u64 m.planGen ++ u64 m.policyGen
  | .beginAction =>
      u64 m.planId ++ u64 m.planGen ++ u32 m.actionIndex.toNat ++ u64 m.epoch ++ u64 m.policyGen
  | .actionComplete =>
      u64 m.planId ++ u32 m.actionIndex.toNat ++ bool m.actionOk ++ u64 m.newGeneration
  | .verify | .cancelPlan | .revalidate => u64 m.planId ++ u64 m.planGen
  | .advanceGeneration => u8 m.generationKind.toNat ++ u64 m.genValue
  | .error => putText m.error
  | .hello | .save | .shutdown => []

/-- The uniform result footer. -/
def putFooter (m : Message) : List UInt8 :=
  bool m.ok ++ u8 m.fitOutcome.ctorIdx ++ u8 m.verificationOutcome.ctorIdx ++ putText m.detail

def encodePayload (m : Message) : List UInt8 := u8 m.type.ctorIdx ++ putBody m ++ putFooter m

/-! ## Reading fields -/

/-- Why decoding stops: there is no message, or a value type raises. -/
inductive Abort
  | rejected
  | raised (e : ValueError)
deriving DecidableEq

def truncated : String := "truncated"

def readU8 : Decoder Abort ℕ := word truncated 1

def readU32 : Decoder Abort ℕ := word truncated 4

def readU64 : Decoder Abort UInt64 := UInt64.ofNat <$> word truncated 8

def readFlag : Decoder Abort Bool := (fun v => decide (v ≠ 0)) <$> readU8

/-- A failed reader ends the decoding. -/
def checkOk : Decoder Abort Unit := check (fun _ => .rejected)

/-- The bytes of a text are not asked for once the reader has failed. -/
def readText : Decoder Abort Text := do
  let n ← readU32
  fun r => if !r.ok then .ok ({}, r) else (Text.mk <$> take truncated n) r

/-- A score is checked where it is read. -/
def readScore : Decoder Abort HealthyScore := do
  let bits ← readU64
  fun r =>
    match HealthyScore.ofDouble ⟨bits⟩ with
    | .ok s => .ok (s, r)
    | .error e => .error (.raised e)

def readEnum {α : Type} (ofNat : ℕ → α) (last : ℕ) : Decoder Abort α := do
  enum ofNat last .rejected (← readU8)

/-- The length of a list, up to its bound. -/
def readCount (bound : ℕ) : Decoder Abort ℕ := do
  let n ← readU32
  checkOk
  demand (n ≤ bound) .rejected
  pure n

def readList {α : Type} (bound : ℕ) (p : Decoder Abort α) : Decoder Abort (List α) := do
  times p (← readCount bound)

/-! ## Reading records -/

/-- The bounds on the lists of a message. -/
def maxEntries : ℕ := 100000

def maxTexts : ℕ := 1000

def getAlloc : Decoder Abort Allocation := do
  let id ← readU64
  let generation ← readU64
  let owner ← readU64
  let offset ← readU64
  let length ← readU64
  let movability ← readEnum Movability.ofNat 9
  let reservation ← optional readFlag (TypedId.mk <$> readU64)
  let policyProtected ← readFlag
  let workload ← optional readFlag (TypedId.mk <$> readU64)
  let provenance ← readEnum Provenance.ofNat 6
  checkOk
  pure
    { id := ⟨id⟩
      generation := ⟨generation⟩
      owner := ⟨owner⟩
      offset := ⟨offset⟩
      length := ⟨length⟩
      movability := movability
      reservation := reservation
      policyProtected := policyProtected
      workload := workload
      provenance := provenance }

/-- The elastic shape of a demand is well-formed. -/
def elasticShape (d : WorkloadDemand) : Bool :=
  match d.elasticMin, d.elasticMax with
  | some lo, some hi => !decide (lo.value > hi.value)
  | _, _ => true

def getDemand : Decoder Abort WorkloadDemand := do
  let id ← readU64
  let generation ← readU64
  let acceleratorCount ← readU64
  let perDeviceMemory ← readU64
  let aggregateMemory ← readU64
  let contiguousMemory ← readU64
  let pinnedMemory ← readU64
  let topologyGroup ← optional readFlag (UInt64.toInt64 <$> readU64)
  let localityGroup ← optional readFlag (UInt64.toInt64 <$> readU64)
  let requiresHighspeedCommPath ← readFlag
  let reservationDuration ← optional readFlag (Quantity.mk <$> readU64)
  let requiresModelResidency ← readFlag
  let requiresAdapterResidency ← readFlag
  let elasticMin ← optional readFlag (Quantity.mk <$> readU64)
  let elasticMax ← optional readFlag (Quantity.mk <$> readU64)
  let d : WorkloadDemand :=
    { id := ⟨id⟩
      generation := ⟨generation⟩
      acceleratorCount := ⟨acceleratorCount⟩
      perDeviceMemory := ⟨perDeviceMemory⟩
      aggregateMemory := ⟨aggregateMemory⟩
      contiguousMemory := ⟨contiguousMemory⟩
      pinnedMemory := ⟨pinnedMemory⟩
      topologyGroup := topologyGroup
      localityGroup := localityGroup
      requiresHighspeedCommPath := requiresHighspeedCommPath
      reservationDuration := reservationDuration
      requiresModelResidency := requiresModelResidency
      requiresAdapterResidency := requiresAdapterResidency
      elasticMin := elasticMin
      elasticMax := elasticMax }
  demand (elasticShape d = true) .rejected
  checkOk
  pure d

def getResource : Decoder Abort Resource := do
  let id ← readU64
  let generation ← readU64
  let pool ← readU64
  let device ← readU64
  let node ← readU64
  let memoryDomain ← readU64
  let topologyGroup ← optional readFlag (UInt64.toInt64 <$> readU64)
  let domain ← readEnum Domain.ofNat 17
  let capacity ← readU64
  let provenance ← readEnum Provenance.ofNat 6
  checkOk
  pure
    { id := ⟨id⟩
      generation := ⟨generation⟩
      pool := ⟨pool⟩
      device := ⟨device⟩
      node := ⟨node⟩
      memoryDomain := ⟨memoryDomain⟩
      topologyGroup := topologyGroup
      domain := domain
      capacity := ⟨capacity⟩
      provenance := provenance }

/-- An action up to its scores. -/
def getActionHead : Decoder Abort PlanAction := do
  let kind ← readEnum ActionKind.ofNat 18
  let targetResource ← readU64
  let affectedOwner ← readU64
  let sourceAllocation ← optional readFlag (TypedId.mk <$> readU64)
  let destination ← optional readFlag (TypedId.mk <$> readU64)
  let affectedAllocations ← readList maxEntries (TypedId.mk <$> readU64)
  let requiredAuthority ← readU64
  let requiredPreconditions ← readList maxTexts readText
  let proofObligations ← readList maxTexts readText
  let expectedCapacityRecovered ← readU64
  pure
    { kind := kind
      targetResource := ⟨targetResource⟩
      affectedOwner := ⟨affectedOwner⟩
      sourceAllocation := sourceAllocation
      destination := destination
      affectedAllocations := affectedAllocations
      requiredAuthority := ⟨requiredAuthority⟩
      requiredPreconditions := requiredPreconditions
      proofObligations := proofObligations
      expectedCapacityRecovered := ⟨expectedCapacityRecovered⟩ }

/-- An action behind its scores. -/
def getActionTail (a : PlanAction) : Decoder Abort PlanAction := do
  let reversible ← readFlag
  let statePreservationRequired ← readFlag
  let preemptionRequired ← readFlag
  let reservationImpact ← readEnum ReservationImpact.ofNat 3
  pure
    { a with
      reversible := reversible
      statePreservationRequired := statePreservationRequired
      preemptionRequired := preemptionRequired
      reservationImpact := reservationImpact }

def getAction : Decoder Abort PlanAction := do
  let a ← getActionHead
  let expectedFitImprovement ← readScore
  let cost ← readScore
  let risk ← readScore
  let disruption ← readScore
  getActionTail
    { a with
      expectedFitImprovement := expectedFitImprovement
      cost := cost
      risk := risk
      disruption := disruption }

/-- A plan up to its actions. -/
def getPlanHead : Decoder Abort RemediationPlan := do
  let id ← readU64
  let generation ← readU64
  let domainId ← readU64
  let basedOnSnapshot ← readU64
  let policyGeneration ← readU64
  let epoch ← readU64
  pure
    { id := ⟨id⟩
      generation := ⟨generation⟩
      domainId := ⟨domainId⟩
      basedOnSnapshot := ⟨basedOnSnapshot⟩
      policyGeneration := ⟨policyGeneration⟩
      epoch := ⟨epoch⟩ }

/-- A plan behind its scores. -/
def getPlanTail (p : RemediationPlan) : Decoder Abort RemediationPlan := do
  let factorExplanation ← readList maxTexts readText
  let state ← readEnum PlanState.ofNat 18
  let verification ← optional readFlag (readEnum VerificationOutcome.ofNat 6)
  let preconditionFailures ← readList maxTexts readText
  checkOk
  pure
    { p with
      factorExplanation := factorExplanation
      state := state
      verification := verification
      preconditionFailures := preconditionFailures }

def getPlan : Decoder Abort RemediationPlan := do
  let p ← getPlanHead
  let actions ← readList maxEntries getAction
  let expectedCapacityRecovered ← readU64
  let expectedFitImprovement ← readScore
  let benefit ← readScore
  let cost ← readScore
  let risk ← readScore
  let disruption ← readScore
  getPlanTail
    { p with
      actions := actions
      expectedCapacityRecovered := ⟨expectedCapacityRecovered⟩
      expectedFitImprovement := expectedFitImprovement
      benefit := benefit
      cost := cost
      risk := risk
      disruption := disruption }

/-! ## Reading messages -/

def getSender (t : MsgType) : Decoder Abort Message := do
  let workerId ← readU64
  let workerBoot ← readU64
  let epoch ← readU64
  pure { type := t, workerId := workerId, workerBoot := workerBoot, epoch := epoch }

def getPlanRef (t : MsgType) : Decoder Abort Message := do
  let planId ← readU64
  let planGen ← readU64
  pure { type := t, planId := planId, planGen := planGen }

def getBody (t : MsgType) : Decoder Abort Message :=
  match t with
  | .register => getSender t
  | .publishResource => do
      let m ← getSender t
      let resource ← getResource
      pure { m with resource := resource }
  | .publishLayout => do
      let m ← getSender t
      let id ← readU64
      let resourceGen ← readU64
      let allocations ← readList maxEntries getAlloc
      pure { m with
        resource := { id := ⟨id⟩ }, resourceGen := resourceGen, allocations := allocations }
  | .publishAllocation => do
      let m ← getSender t
      let id ← readU64
      let allocation ← getAlloc
      pure { m with resource := { id := ⟨id⟩ }, allocation := allocation }
  | .invalidateAllocation => do
      let m ← getSender t
      let allocationId ← readU64
      let newGeneration ← readU64
      pure { m with allocationId := allocationId, newGeneration := newGeneration }
  | .queryFragmentation => do
      let epoch ← readU64
      pure { type := t, epoch := epoch }
  | .queryFit => do
      let epoch ← readU64
      let demand ← getDemand
      pure { type := t, epoch := epoch, demand := demand }
  | .createPlan => do
      let epoch ← readU64
      let policyGen ← readU64
      let demand ← getDemand
      pure { type := t, epoch := epoch, policyGen := policyGen, demand := demand }
  | .planResult => do
      let plan ← getPlan
      pure { type := t, plan := plan }
  | .approvePlan => do
      let m ← getPlanRef t
      let policyGen ← readU64
      pure { m with policyGen := policyGen }
  | .beginAction => do
      let m ← getPlanRef t
      let actionIndex ← readU32
      let epoch ← readU64
      let policyGen ← readU64
      pure { m with actionIndex := .ofNat actionIndex, epoch := epoch, policyGen := policyGen }
  | .actionComplete => do
      let planId ← readU64
      let actionIndex ← readU32
      let actionOk ← readFlag
      let newGeneration ← readU64
      pure
        { type := t, planId := planId, actionIndex := .ofNat actionIndex, actionOk := actionOk
          newGeneration := newGeneration }
  | .verify | .cancelPlan | .revalidate => getPlanRef t
  | .advanceGeneration => do
      let generationKind ← readU8
      let genValue ← readU64
      pure { type := t, generationKind := .ofNat generationKind, genValue := genValue }
  | .error => do
      let error ← readText
      pure { type := t, error := error }
  | .hello | .save | .shutdown => pure { type := t }

def getFooter (m : Message) : Decoder Abort Message := do
  let ok ← readFlag
  let fitOutcome ← readEnum FitOutcome.ofNat 16
  let verificationOutcome ← readEnum VerificationOutcome.ofNat 6
  let detail ← readText
  checkOk
  pure
    { m with
      ok := ok
      fitOutcome := fitOutcome
      verificationOutcome := verificationOutcome
      detail := detail }

def getMessage : Decoder Abort Message := do
  let t ← readU8
  checkOk
  let t ← enum MsgType.ofNat 19 .rejected t
  let m ← getBody t
  checkOk
  getFooter m

/-- No message when the bytes are malformed or go on behind it. -/
def decodePayload (bytes : List UInt8) : Except ValueError (Option Message) :=
  match getMessage ⟨bytes, true, ""⟩ with
  | .ok (m, r) => if r.rest ≠ [] then .ok none else .ok (some m)
  | .error .rejected => .ok none
  | .error (.raised e) => .error e

/-! ## Frames -/

/-- Everything in front of the checksum. -/
def framed (payload : List UInt8) : List UInt8 :=
  u32 protocolMagic.toNat ++ u32 protocolVersion.toNat ++ u32 payload.length ++ payload

def frameEncode (m : Message) : List UInt8 :=
  let out := framed (encodePayload m)
  out ++ u32 (crc32 out).toNat

/-- The length the header announces for the payload. -/
def payloadLength (bytes : List UInt8) : ℕ := number ((bytes.drop 8).take 4)

/-- The reads stay within the frame once its length is known to be right. -/
def frameDecode (bytes : List UInt8) : Except ValueError (Option Message) :=
  let plen := payloadLength bytes
  if bytes.length < 16 then .ok none
  else if number (bytes.take 4) ≠ protocolMagic.toNat then .ok none
  else if number ((bytes.drop 4).take 4) ≠ protocolVersion.toNat then .ok none
  else if plen > protocolMaxPayload then .ok none
  else if bytes.length ≠ 12 + plen + 4 then .ok none
  else if number ((bytes.drop (12 + plen)).take 4) ≠ (crc32 (bytes.take (12 + plen))).toNat then
    .ok none
  else decodePayload ((bytes.drop 12).take plen)

/-- The streaming decoder. -/
structure FrameDecoder where
  buf : List UInt8 := []

/-- Takes in the bytes and decodes the frame in front once it is complete. -/
def FrameDecoder.feed (d : FrameDecoder) (data : List UInt8) :
    FrameDecoder × Except ValueError (Option Message) :=
  let buf := d.buf ++ data
  let plen := payloadLength buf
  if buf.length < 16 then (⟨buf⟩, .ok none)
  else if plen > protocolMaxPayload then ({}, .ok none)
  else if buf.length < 12 + plen + 4 then (⟨buf⟩, .ok none)
  else
    match frameDecode (buf.take (12 + plen + 4)) with
    | .error e => (⟨buf⟩, .error e)
    | .ok m => (⟨buf.drop (12 + plen + 4)⟩, .ok m)

end Protocol

end FragmentationGovernor
