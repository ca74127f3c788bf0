import FragmentationGovernor.Library.Wire
import FragmentationGovernor.Model.Planner

/-! # The durable state and its codec

`persistence/state.hpp` and `persistence/codec.cpp`. Integers are little-endian; a checksum
over everything before it closes the buffer. -/

namespace FragmentationGovernor

structure VerificationResultStub where
  plan : FragmentationPlanId := default
  outcome : VerificationOutcome := .revalidationRequired
  generation : VerificationGeneration := default
deriving DecidableEq

structure PersistedPlan where
  id : FragmentationPlanId := default
  generation : FragmentationPlanGeneration := default
  domain : FragmentationDomainId := default
  state : PlanState := .detected
  verification : Option VerificationOutcome := none
  policyGeneration : PolicyGeneration := default
  epoch : CoordinatorEpoch := default
  basedOnSnapshot : FragmentationSnapshotGeneration := default
  expectedCapacityRecovered : Bytes := 0
  benefit : Double := ⟨0⟩
  cost : Double := ⟨0⟩
  risk : Double := ⟨0⟩
  disruption : Double := ⟨0⟩
  actionCount : Count := 0
  actionKinds : List ActionKind := []
deriving DecidableEq

structure PersistedState where
  plans : List PersistedPlan := []
  reservations : List Reservation := []
  verificationHistory : List VerificationResultStub := []
  resourceGeneration : ResourceGeneration := default
  allocationGeneration : AllocationGeneration := default
  reservationGeneration : ReservationGeneration := default
  policyGeneration : PolicyGeneration := default
  epoch : CoordinatorEpoch := default
  nextPlanId : UInt64 := 1
  carriedLiveDynamicState : Bool := false
  needsRevalidation : Bool := true
deriving DecidableEq

namespace Codec

def persistenceMagic : UInt32 := 0x464747

def persistenceVersion : UInt32 := 0x00010000

/-! ## The checksum -/

/-- One bit of the reflected polynomial division. -/
def crcBit (c : UInt32) : UInt32 :=
  if c &&& 1 = 1 then (0xEDB88320 : UInt32) ^^^ (c >>> 1) else c >>> 1

/-- The entry of the checksum table at `i`. -/
def crcTable (i : UInt32) : UInt32 := crcBit^[8] i

def crcByte (crc : UInt32) (b : UInt8) : UInt32 :=
  crcTable ((crc ^^^ b.toUInt32) &&& 0xFF) ^^^ (crc >>> 8)

def crc32 (bytes : List UInt8) : UInt32 := bytes.foldl crcByte 0xFFFFFFFF ^^^ 0xFFFFFFFF

/-! ## The encoder -/

/-- The scores follow as the bit patterns of their doubles. -/
def encodePlan (p : PersistedPlan) : List UInt8 :=
  u64 p.id.value ++ u64 p.generation.value ++ u64 p.domain.value ++
    u8 p.state.ctorIdx ++
    (match p.verification with
      | none => u8 0
      | some v => u8 1 ++ u8 v.ctorIdx) ++
    u64 p.policyGeneration.value ++ u64 p.epoch.value ++ u64 p.basedOnSnapshot.value ++
    u64 p.expectedCapacityRecovered.value ++
    u64 p.benefit.bits ++ u64 p.cost.bits ++ u64 p.risk.bits ++ u64 p.disruption.bits ++
    u32 p.actionCount.toNat ++ u32 p.actionKinds.length ++
    p.actionKinds.flatMap (fun k => u8 k.ctorIdx)

def encodeReservation (r : Reservation) : List UInt8 :=
  u64 r.id.value ++ u64 r.generation.value ++ u64 r.resource.value ++
    u64 r.start.value ++ u64 r.stop.value ++ u64 r.amount.value ++
    bool r.hard ++ bool r.policyProtected

def encodeVerification (v : VerificationResultStub) : List UInt8 :=
  u64 v.plan.value ++ u8 v.outcome.ctorIdx ++ u64 v.generation.value

/-- A list with its length in front. -/
def encodeList {α : Type} (f : α → List UInt8) (xs : List α) : List UInt8 :=
  u32 xs.length ++ xs.flatMap f

def encodeBody (s : PersistedState) : List UInt8 :=
  u32 persistenceMagic.toNat ++ u32 persistenceVersion.toNat ++
    encodeList encodePlan s.plans ++ encodeList encodeReservation s.reservations ++
    encodeList encodeVerification s.verificationHistory ++
    u64 s.resourceGeneration.value ++ u64 s.allocationGeneration.value ++
    u64 s.reservationGeneration.value ++ u64 s.policyGeneration.value ++
    u64 s.epoch.value ++ u64 s.nextPlanId ++ bool s.carriedLiveDynamicState

/-- The error of a plan that must not be written, if any. -/
def checkPlan (p : PersistedPlan) : Except String Unit :=
  if p.state = .completed ∧ p.verification = none then
    .error "persisting COMPLETED plan without verification"
  else if !p.benefit.isFinite ∨ !p.cost.isFinite ∨ !p.risk.isFinite ∨ !p.disruption.isFinite then
    .error "plan has non-finite score"
  else .ok ()

def checkReservation (r : Reservation) : Except String Unit :=
  if r.stop ≤ r.start then .error "reservation has invalid interval" else .ok ()

def encodeState (s : PersistedState) : Except String (List UInt8) := do
  s.plans.forM checkPlan
  s.reservations.forM checkReservation
  let body := encodeBody s
  .ok (body ++ u32 (crc32 body).toNat)

/-- What the file system does with a save. -/
structure SaveOutcome where
  opened : Bool
  /-- what `fwrite` returns -/
  written : ℕ
  /-- how many of these bytes are in the file once `fclose` has returned -/
  flushed : ℕ
  renamed : Bool

/-- Writes to a temporary file and renames it; the error text on failure. The result of `fclose`
is not looked at. -/
def saveState (fs : SaveOutcome) (s : PersistedState) : Except String Unit := do
  let buf ← encodeState s
  if !fs.opened then .error "cannot open temp file"
  else if fs.written ≠ buf.length then .error "short write"
  else if !fs.renamed then .error "rename failed"
  else .ok ()

/-! ## Reading -/

open Decoder

/-- The text of a read beyond the end. -/
def truncated : String := "truncated/oversized length"

def readU8 : Decoder String ℕ := word truncated 1

def readU32 : Decoder String ℕ := word truncated 4

def readU64 : Decoder String UInt64 := UInt64.ofNat <$> word truncated 8

def readFlag : Decoder String Bool := (fun v => decide (v ≠ 0)) <$> readU8

/-- A failed reader ends the decoding with the text of its failure. -/
def checkReader : Decoder String Unit := check (fun r => r.err)

def checkFinite (v : Double) (which : String) : Decoder String Double := do
  if !v.isFinite then
    mark (which ++ " non-finite")
    pure ⟨0⟩
  else pure v

/-! ## The decoder -/

/-- The longest list the decoder accepts. -/
def maxCount : ℕ := 1000000

/-- The identity of a plan, its state and its verification. -/
def decodePlanHead : Decoder String PersistedPlan := do
  let id ← readU64
  let generation ← readU64
  let domain ← readU64
  let state ← enum PlanState.ofNat 18 "invalid plan state enum" (← readU8)
  let verification ← optional readFlag do
    enum VerificationOutcome.ofNat 6 "invalid verification outcome enum" (← readU8)
  pure
    { id := ⟨id⟩
      generation := ⟨generation⟩
      domain := ⟨domain⟩
      state := state
      verification := verification }

/-- The other fields of a plan in front of its list of action kinds. -/
def decodePlanFields (p : PersistedPlan) : Decoder String PersistedPlan := do
  let policyGeneration ← readU64
  let epoch ← readU64
  let basedOnSnapshot ← readU64
  let expectedCapacityRecovered ← readU64
  let benefit ← readU64
  let cost ← readU64
  let risk ← readU64
  let disruption ← readU64
  let benefit ← checkFinite ⟨benefit⟩ "benefit"
  let cost ← checkFinite ⟨cost⟩ "cost"
  let risk ← checkFinite ⟨risk⟩ "risk"
  let disruption ← checkFinite ⟨disruption⟩ "disruption"
  checkReader
  let actionCount ← readU32
  pure
    { p with
      policyGeneration := ⟨policyGeneration⟩
      epoch := ⟨epoch⟩
      basedOnSnapshot := ⟨basedOnSnapshot⟩
      expectedCapacityRecovered := ⟨expectedCapacityRecovered⟩
      benefit := benefit
      cost := cost
      risk := risk
      disruption := disruption
      actionCount := Quantity.ofNat actionCount }

def decodeKind : Decoder String ActionKind := do
  enum ActionKind.ofNat 18 "invalid action kind enum" (← readU8)

def decodePlan : Decoder String PersistedPlan := do
  let p ← decodePlanHead
  let p ← decodePlanFields p
  let nkinds ← readU32
  demand (nkinds ≤ maxCount) "action kind list exceeds bound"
  let actionKinds ← times decodeKind nkinds
  checkReader
  pure { p with actionKinds := actionKinds }

def decodeReservation : Decoder String Reservation := do
  let id ← readU64
  let generation ← readU64
  let resource ← readU64
  let start ← readU64
  let stop ← readU64
  let amount ← readU64
  let hard ← readFlag
  let policyProtected ← readFlag
  checkReader
  demand (¬ (⟨stop⟩ : Duration) ≤ ⟨start⟩) "reservation malformed interval"
  pure
    { id := ⟨id⟩
      generation := ⟨generation⟩
      resource := ⟨resource⟩
      start := ⟨start⟩
      stop := ⟨stop⟩
      amount := ⟨amount⟩
      hard := hard
      policyProtected := policyProtected }

def decodeVerification : Decoder String VerificationResultStub := do
  let plan ← readU64
  let outcome ← enum VerificationOutcome.ofNat 6 "invalid verification outcome enum" (← readU8)
  let generation ← readU64
  pure ⟨⟨plan⟩, outcome, ⟨generation⟩⟩

/-- A list with its length in front, under the texts for a missing and a too large length. -/
def decodeList {α : Type} (p : Decoder String α) (missing tooLong : String) :
    Decoder String (List α) := do
  let n ← readU32
  check (fun _ => missing)
  demand (n ≤ maxCount) tooLong
  times p n

/-- What follows the plans, up to the checksum. -/
def decodeTail (plans : List PersistedPlan) : Decoder String PersistedState := do
  let reservations ← decodeList decodeReservation "truncated reservation count"
    "reservation count exceeds bound"
  let history ← decodeList decodeVerification "truncated verification count"
    "verification count exceeds bound"
  let resourceGeneration ← readU64
  let allocationGeneration ← readU64
  let reservationGeneration ← readU64
  let policyGeneration ← readU64
  let epoch ← readU64
  let nextPlanId ← readU64
  let carried ← readFlag
  check (fun _ => "truncated generations trailer")
  demand ((plans.map (fun p => p.id)).Nodup) "duplicate plan id"
  pure
    { plans := plans
      reservations := reservations
      verificationHistory := history
      resourceGeneration := ⟨resourceGeneration⟩
      allocationGeneration := ⟨allocationGeneration⟩
      reservationGeneration := ⟨reservationGeneration⟩
      policyGeneration := ⟨policyGeneration⟩
      epoch := ⟨epoch⟩
      nextPlanId := nextPlanId
      carriedLiveDynamicState := carried }

/-- Everything in front of the checksum. -/
def decodeBody : Decoder String PersistedState := do
  let magic ← readU32
  let version ← readU32
  check (fun _ => "truncated header")
  demand (magic = persistenceMagic.toNat) "bad magic"
  demand (version = persistenceVersion.toNat) "bad version"
  let plans ← decodeList decodePlan "truncated plan count" "plan count exceeds bound"
  decodeTail plans

/-- The states that depended on live dynamic evidence, as the decoder lists them. -/
def degrades : PlanState → Bool
  | .executing | .quiescing | .preservingState | .moving | .rebinding | .verifying
  | .approved => true
  | _ => false

/-- Conservative recovery of one plan. -/
def degradePlan (p : PersistedPlan) : PersistedPlan :=
  if degrades p.state then { p with state := .revalidationRequired } else p

def degrade (s : PersistedState) : PersistedState :=
  { s with plans := s.plans.map degradePlan, needsRevalidation := true }

/-- The tests of the checksum and of the end of the input; the reader has not failed
before them and never stands behind the end of its input. -/
def decodeState (bytes : List UInt8) : Except String PersistedState := do
  let (s, r) ← decodeBody ⟨bytes, true, ""⟩
  let payload := bytes.take (bytes.length - r.rest.length)
  let (stored, r) ← readU32 r
  if !r.ok then .error "missing checksum"
  else if stored ≠ (crc32 payload).toNat then .error "checksum mismatch"
  else if r.rest ≠ [] then .error "trailing garbage"
  else .ok (degrade s)

end Codec

end FragmentationGovernor
