import FragmentationGovernor.Model.Protocol

/-! # Messages read back

Every message within the bounds of the decoder is read back as what its type transmits of
it, and whatever the decoder returns is such a message. -/

namespace FragmentationGovernor.Protocol

open Codec Decoder

/-! ## Fields -/

theorem reads_u8 {v : ℕ} (h : v < 256) : Reads readU8 (u8 v) v := reads_word_u8 truncated h

theorem reads_u32 {v : ℕ} (h : v < 2 ^ 32) : Reads readU32 (u32 v) v := by
  have hr : Reads readU32 (u32 v) (v % 2 ^ 32) := reads_word_u32 truncated v
  rwa [Nat.mod_eq_of_lt h] at hr

theorem reads_u64 (v : UInt64) : Reads readU64 (u64 v) v := reads_word_u64 truncated v

theorem reads_flag (b : Bool) : Reads readFlag (bool b) b := reads_word_bool truncated b

theorem reads_checkOk : Reads checkOk [] () := reads_check _

theorem reads_text {s : Text} (h : s.bytes.length < 2 ^ 32) : Reads readText (putText s) s := by
  refine (reads_u32 h).bind ?_
  intro rest err
  exact (reads_take truncated s.bytes).map Text.mk rest err

theorem reads_score (s : HealthyScore) : Reads readScore (putScore s) s := by
  refine (reads_u64 _).bind_last ?_
  intro rest err
  have hs : HealthyScore.ofDouble ⟨s.value.bits⟩ = .ok s :=
    HealthyScore.ofDouble_eq_ok_iff.mpr rfl
  dsimp only
  rw [hs]
  rfl

/-- An optional value is read back through its flag. -/
theorem reads_option {α : Type} {p : Decoder Abort α} {put : α → List UInt8} {o : Option α}
    (hp : ∀ a, Reads p (put a) a) : Reads (optional readFlag p) (putOption put o) o := by
  cases o with
  | none => exact reads_optional_none (reads_flag false)
  | some a => exact reads_optional_some (reads_flag true) (hp a)

theorem reads_id {tag : IdTag} (i : TypedId tag) :
    Reads (TypedId.mk <$> readU64) (u64 i.value) i := (reads_u64 i.value).map TypedId.mk

theorem reads_quantity {kind : QuantityKind} (q : Quantity kind) :
    Reads (Quantity.mk <$> readU64) (u64 q.value) q := (reads_u64 q.value).map Quantity.mk

theorem reads_group (g : Int64) : Reads (UInt64.toInt64 <$> readU64) (putGroup g) g :=
  (reads_u64 g.toUInt64).map UInt64.toInt64

/-- An enumeration is read back from the ordinal of its value. -/
theorem reads_readEnum {α : Type} {ofNat : ℕ → α} {last v : ℕ} {a : α} (hlast : last < 256)
    (hv : v ≤ last) (ha : ofNat v = a) : Reads (readEnum ofNat last) (u8 v) a := by
  have h := reads_ordinal truncated ofNat Abort.rejected hlast hv
  rwa [ha] at h

theorem reads_movability (m : Movability) :
    Reads (readEnum Movability.ofNat 9) (u8 m.ctorIdx) m :=
  reads_readEnum (by decide) (by cases m <;> decide) (Movability.ofNat_ctorIdx m)

theorem reads_provenance (p : Provenance) :
    Reads (readEnum Provenance.ofNat 6) (u8 p.ctorIdx) p :=
  reads_readEnum (by decide) (by cases p <;> decide) (Provenance.ofNat_ctorIdx p)

theorem reads_domain (d : Domain) : Reads (readEnum Domain.ofNat 17) (u8 d.ctorIdx) d :=
  reads_readEnum (by decide) (by cases d <;> decide) (Domain.ofNat_ctorIdx d)

theorem reads_kind (k : ActionKind) : Reads (readEnum ActionKind.ofNat 18) (u8 k.ctorIdx) k :=
  reads_readEnum (by decide) (by cases k <;> decide) (ActionKind.ofNat_ctorIdx k)

theorem reads_impact (i : ReservationImpact) :
    Reads (readEnum ReservationImpact.ofNat 3) (u8 i.ctorIdx) i :=
  reads_readEnum (by decide) (by cases i <;> decide) (ReservationImpact.ofNat_ctorIdx i)

theorem reads_planState (s : PlanState) : Reads (readEnum PlanState.ofNat 18) (u8 s.ctorIdx) s :=
  reads_readEnum (by decide) (by cases s <;> decide) (PlanState.ofNat_ctorIdx s)

theorem reads_outcome (v : VerificationOutcome) :
    Reads (readEnum VerificationOutcome.ofNat 6) (u8 v.ctorIdx) v :=
  reads_readEnum (by decide) (by cases v <;> decide) (VerificationOutcome.ofNat_ctorIdx v)

theorem reads_fitOutcome (f : FitOutcome) :
    Reads (readEnum FitOutcome.ofNat 16) (u8 f.ctorIdx) f :=
  reads_readEnum (by decide) (by cases f <;> decide) (FitOutcome.ofNat_ctorIdx f)

/-- A list within its bound is read back entry by entry. -/
theorem reads_list {α : Type} {p : Decoder Abort α} {put : α → List UInt8} {g : α → α}
    {bound : ℕ} {as : List α} (hbound : bound < 2 ^ 32) (hlen : as.length ≤ bound)
    (hp : ∀ a ∈ as, Reads p (put a) (g a)) :
    Reads (readList bound p) (encodeList put as) (as.map g) := by
  have hcount : Reads (readCount bound) (u32 as.length) as.length := by
    refine (reads_u32 (hlen.trans_lt hbound)).bind_last ?_
    exact reads_checkOk.bind_nil ((reads_demand hlen).bind_nil (reads_pure _))
  exact hcount.bind (.times hp)

/-- The texts of a list are as many and as long as a message can hold. -/
structure Holds (ts : List Text) : Prop where
  count : ts.length ≤ maxTexts
  short : ∀ t ∈ ts, t.bytes.length < 2 ^ 32

theorem reads_texts {ts : List Text} (h : Holds ts) :
    Reads (readList maxTexts readText) (encodeList putText ts) ts := by
  have hr := reads_list (g := id) (show maxTexts < 2 ^ 32 by decide) h.count
    (fun t ht => reads_text (h.short t ht))
  rwa [List.map_id] at hr

/-! ## Records -/

theorem reads_alloc (a : Allocation) : Reads getAlloc (putAlloc a) a := by
  unfold getAlloc putAlloc
  simp only [List.append_assoc]
  refine (reads_u64 _).bind ?_
  refine (reads_u64 _).bind ?_
  refine (reads_u64 _).bind ?_
  refine (reads_u64 _).bind ?_
  refine (reads_u64 _).bind ?_
  refine (reads_movability _).bind ?_
  refine (reads_option reads_id).bind ?_
  refine (reads_flag _).bind ?_
  refine (reads_option reads_id).bind ?_
  refine (reads_provenance _).bind_last ?_
  exact reads_checkOk.bind_nil (reads_pure _)

theorem elasticShape_iff {d : WorkloadDemand} :
    elasticShape d = true ↔
      ∀ lo hi, d.elasticMin = some lo → d.elasticMax = some hi → lo ≤ hi := by
  unfold elasticShape
  cases hlo : d.elasticMin with
  | none => simp
  | some lo =>
      cases hhi : d.elasticMax with
      | none => simp
      | some hi =>
          simp only [Bool.not_eq_true', decide_eq_false_iff_not, Option.some.injEq]
          constructor
          · rintro h lo' hi' rfl rfl
            exact not_lt.mp h
          · intro h
            exact not_lt.mpr (h lo hi rfl rfl)

theorem reads_workloadDemand {d : WorkloadDemand}
    (h : ∀ lo hi, d.elasticMin = some lo → d.elasticMax = some hi → lo ≤ hi) :
    Reads getDemand (putDemand d) d := by
  unfold getDemand putDemand
  simp only [List.append_assoc]
  refine (reads_u64 _).bind ?_
  refine (reads_u64 _).bind ?_
  refine (reads_u64 _).bind ?_
  refine (reads_u64 _).bind ?_
  refine (reads_u64 _).bind ?_
  refine (reads_u64 _).bind ?_
  refine (reads_u64 _).bind ?_
  refine (reads_option reads_group).bind ?_
  refine (reads_option reads_group).bind ?_
  refine (reads_flag _).bind ?_
  refine (reads_option reads_quantity).bind ?_
  refine (reads_flag _).bind ?_
  refine (reads_flag _).bind ?_
  refine (reads_option reads_quantity).bind ?_
  refine (reads_option reads_quantity).bind_last ?_
  refine (reads_demand (elasticShape_iff.mpr h)).bind_nil ?_
  exact reads_checkOk.bind_nil (reads_pure _)

theorem reads_resource (r : Resource) : Reads getResource (putResource r) r := by
  unfold getResource putResource
  simp only [List.append_assoc]
  refine (reads_u64 _).bind ?_
  refine (reads_u64 _).bind ?_
  refine (reads_u64 _).bind ?_
  refine (reads_u64 _).bind ?_
  refine (reads_u64 _).bind ?_
  refine (reads_u64 _).bind ?_
  refine (reads_option reads_group).bind ?_
  refine (reads_domain _).bind ?_
  refine (reads_u64 _).bind ?_
  refine (reads_provenance _).bind_last ?_
  exact reads_checkOk.bind_nil (reads_pure _)

/-- The lists of an action are within the bounds of a message. -/
structure SendableAction (a : PlanAction) : Prop where
  affected : a.affectedAllocations.length ≤ maxEntries
  preconditions : Holds a.requiredPreconditions
  obligations : Holds a.proofObligations

/-- An action without the generations it was planned under, which are not transmitted. -/
def transmittedAction (a : PlanAction) : PlanAction := { a with generations := {} }

theorem reads_action {a : PlanAction} (h : SendableAction a) :
    Reads getAction (putAction a) (transmittedAction a) := by
  have haffected : Reads (readList maxEntries (TypedId.mk <$> readU64))
      (encodeList (fun id => u64 id.value) a.affectedAllocations) a.affectedAllocations := by
    have hr := reads_list (g := id) (show maxEntries < 2 ^ 32 by decide) h.affected
      (fun id _ => reads_id id)
    rwa [List.map_id] at hr
  unfold getAction getActionHead getActionTail putAction
  simp only [List.append_assoc, bind_assoc, pure_bind]
  refine (reads_kind _).bind ?_
  refine (reads_u64 _).bind ?_
  refine (reads_u64 _).bind ?_
  refine (reads_option reads_id).bind ?_
  refine (reads_option reads_id).bind ?_
  refine haffected.bind ?_
  refine (reads_u64 _).bind ?_
  refine (reads_texts h.preconditions).bind ?_
  refine (reads_texts h.obligations).bind ?_
  refine (reads_u64 _).bind ?_
  refine (reads_score _).bind ?_
  refine (reads_score _).bind ?_
  refine (reads_score _).bind ?_
  refine (reads_score _).bind ?_
  refine (reads_flag _).bind ?_
  refine (reads_flag _).bind ?_
  refine (reads_flag _).bind ?_
  exact (reads_impact _).bind_pure

/-- The lists of a plan are within the bounds of a message. -/
structure SendablePlan (p : RemediationPlan) : Prop where
  count : p.actions.length ≤ maxEntries
  actions : ∀ a ∈ p.actions, SendableAction a
  explanation : Holds p.factorExplanation
  failures : Holds p.preconditionFailures

def transmittedPlan (p : RemediationPlan) : RemediationPlan :=
  { p with actions := p.actions.map transmittedAction }

theorem reads_remediationPlan {p : RemediationPlan} (h : SendablePlan p) :
    Reads getPlan (putPlan p) (transmittedPlan p) := by
  have hactions : Reads (readList maxEntries getAction) (encodeList putAction p.actions)
      (p.actions.map transmittedAction) :=
    reads_list (by decide) h.count (fun a ha => reads_action (h.actions a ha))
  unfold getPlan getPlanHead getPlanTail putPlan
  simp only [List.append_assoc, bind_assoc, pure_bind]
  refine (reads_u64 _).bind ?_
  refine (reads_u64 _).bind ?_
  refine (reads_u64 _).bind ?_
  refine (reads_u64 _).bind ?_
  refine (reads_u64 _).bind ?_
  refine (reads_u64 _).bind ?_
  refine hactions.bind ?_
  refine (reads_u64 _).bind ?_
  refine (reads_score _).bind ?_
  refine (reads_score _).bind ?_
  refine (reads_score _).bind ?_
  refine (reads_score _).bind ?_
  refine (reads_score _).bind ?_
  refine (reads_texts h.explanation).bind ?_
  refine (reads_planState _).bind ?_
  refine (reads_option reads_outcome).bind ?_
  refine (reads_texts h.failures).bind_last ?_
  exact reads_checkOk.bind_nil (reads_pure _)

/-! ## Messages -/

/-- The lists, texts and demand of a message are such as the decoder accepts. -/
structure Sendable (m : Message) : Prop where
  allocations : m.allocations.length ≤ maxEntries
  plan : SendablePlan m.plan
  elastic : ∀ lo hi, m.demand.elasticMin = some lo → m.demand.elasticMax = some hi → lo ≤ hi
  error : m.error.bytes.length < 2 ^ 32
  detail : m.detail.bytes.length < 2 ^ 32

/-- The fields a message of its type transmits in front of the footer. -/
def transmittedBody (m : Message) : Message :=
  match m.type with
  | .register =>
      { type := m.type, workerId := m.workerId, workerBoot := m.workerBoot, epoch := m.epoch }
  | .publishResource =>
      { type := m.type, workerId := m.workerId, workerBoot := m.workerBoot, epoch := m.epoch
        resource := m.resource }
  | .publishLayout =>
      { type := m.type, workerId := m.workerId, workerBoot := m.workerBoot, epoch := m.epoch
        resource := { id := m.resource.id }, resourceGen := m.resourceGen
        allocations := m.allocations }
  | .publishAllocation =>
      { type := m.type, workerId := m.workerId, workerBoot := m.workerBoot, epoch := m.epoch
        resource := { id := m.resource.id }, allocation := m.allocation }
  | .invalidateAllocation =>
      { type := m.type, workerId := m.workerId, workerBoot := m.workerBoot, epoch := m.epoch
        allocationId := m.allocationId, newGeneration := m.newGeneration }
  | .queryFragmentation => { type := m.type, epoch := m.epoch }
  | .queryFit => { type := m.type, epoch := m.epoch, demand := m.demand }
  | .createPlan =>
      { type := m.type, epoch := m.epoch, policyGen := m.policyGen, demand := m.demand }
  | .planResult => { type := m.type, plan := transmittedPlan m.plan }
  | .approvePlan =>
      { type := m.type, planId := m.planId, planGen := m.planGen, policyGen := m.policyGen }
  | .beginAction =>
      { type := m.type, planId := m.planId, planGen := m.planGen, actionIndex := m.actionIndex
        epoch := m.epoch, policyGen := m.policyGen }
  | .actionComplete =>
      { type := m.type, planId := m.planId, actionIndex := m.actionIndex, actionOk := m.actionOk
        newGeneration := m.newGeneration }
  | .verify | .cancelPlan | .revalidate =>
      { type := m.type, planId := m.planId, planGen := m.planGen }
  | .advanceGeneration =>
      { type := m.type, generationKind := m.generationKind, genValue := m.genValue }
  | .error => { type := m.type, error := m.error }
  | .hello | .save | .shutdown => { type := m.type }

/-- The message as it arrives: what its type transmits and the footer. -/
def transmitted (m : Message) : Message :=
  { transmittedBody m with
    ok := m.ok
    fitOutcome := m.fitOutcome
    verificationOutcome := m.verificationOutcome
    detail := m.detail }

theorem reads_sender (m : Message) (t : MsgType) :
    Reads (getSender t) (putSender m)
      { type := t, workerId := m.workerId, workerBoot := m.workerBoot, epoch := m.epoch } := by
  unfold getSender putSender
  simp only [List.append_assoc]
  refine (reads_u64 _).bind ?_
  refine (reads_u64 _).bind ?_
  exact (reads_u64 _).bind_pure

theorem reads_planRef (m : Message) (t : MsgType) :
    Reads (getPlanRef t) (u64 m.planId ++ u64 m.planGen)
      { type := t, planId := m.planId, planGen := m.planGen } := by
  unfold getPlanRef
  refine (reads_u64 _).bind ?_
  exact (reads_u64 _).bind_pure

/-- The body of each type of message is read back. -/
theorem reads_messageBody {m : Message} (h : Sendable m) :
    Reads (getBody m.type) (putBody m) (transmittedBody m) := by
  unfold putBody transmittedBody getBody
  cases htype : m.type with
  | hello => exact reads_pure _
  | register => exact reads_sender m _
  | publishResource => exact (reads_sender m _).bind (reads_resource _).bind_pure
  | publishLayout =>
      have hallocs := reads_list (g := id) (show maxEntries < 2 ^ 32 by decide) h.allocations
        (fun a _ => reads_alloc a)
      rw [List.map_id] at hallocs
      simp only [List.append_assoc]
      refine (reads_sender m _).bind ?_
      refine (reads_u64 _).bind ?_
      refine (reads_u64 _).bind ?_
      exact hallocs.bind_pure
  | publishAllocation =>
      simp only [List.append_assoc]
      refine (reads_sender m _).bind ?_
      refine (reads_u64 _).bind ?_
      exact (reads_alloc _).bind_pure
  | invalidateAllocation =>
      simp only [List.append_assoc]
      refine (reads_sender m _).bind ?_
      refine (reads_u64 _).bind ?_
      exact (reads_u64 _).bind_pure
  | queryFragmentation => exact (reads_u64 _).bind_pure
  | queryFit => exact (reads_u64 _).bind (reads_workloadDemand h.elastic).bind_pure
  | createPlan =>
      simp only [List.append_assoc]
      refine (reads_u64 _).bind ?_
      refine (reads_u64 _).bind ?_
      exact (reads_workloadDemand h.elastic).bind_pure
  | planResult => exact (reads_remediationPlan h.plan).bind_pure
  | approvePlan => exact (reads_planRef m _).bind (reads_u64 _).bind_pure
  | beginAction =>
      have hall : Reads (getBody .beginAction) ((u64 m.planId ++ u64 m.planGen) ++
          (u32 m.actionIndex.toNat ++ (u64 m.epoch ++ u64 m.policyGen)))
          { type := .beginAction, planId := m.planId, planGen := m.planGen
            actionIndex := .ofNat m.actionIndex.toNat, epoch := m.epoch
            policyGen := m.policyGen } := by
        refine (reads_planRef m _).bind ?_
        refine (reads_u32 m.actionIndex.toNat_lt).bind ?_
        refine (reads_u64 _).bind ?_
        exact (reads_u64 _).bind_pure
      rw [UInt32.ofNat_toNat] at hall
      simp only [List.append_assoc] at hall ⊢
      exact hall
  | actionComplete =>
      have hall : Reads (getBody .actionComplete) (u64 m.planId ++ (u32 m.actionIndex.toNat ++
          (Codec.bool m.actionOk ++ u64 m.newGeneration)))
          { type := .actionComplete, planId := m.planId
            actionIndex := .ofNat m.actionIndex.toNat, actionOk := m.actionOk
            newGeneration := m.newGeneration } := by
        refine (reads_u64 _).bind ?_
        refine (reads_u32 m.actionIndex.toNat_lt).bind ?_
        refine (reads_flag _).bind ?_
        exact (reads_u64 _).bind_pure
      rw [UInt32.ofNat_toNat] at hall
      simp only [List.append_assoc]
      exact hall
  | verify => exact reads_planRef m _
  | cancelPlan => exact reads_planRef m _
  | advanceGeneration =>
      have hall : Reads (getBody .advanceGeneration) (u8 m.generationKind.toNat ++
          u64 m.genValue)
          { type := .advanceGeneration, generationKind := .ofNat m.generationKind.toNat
            genValue := m.genValue } := by
        refine (reads_u8 m.generationKind.toNat_lt).bind ?_
        exact (reads_u64 _).bind_pure
      rw [UInt8.ofNat_toNat] at hall
      exact hall
  | revalidate => exact reads_planRef m _
  | save => exact reads_pure _
  | shutdown => exact reads_pure _
  | error => exact (reads_text h.error).bind_pure

theorem reads_footer {m b : Message} (h : m.detail.bytes.length < 2 ^ 32) :
    Reads (getFooter b) (putFooter m)
      { b with
        ok := m.ok
        fitOutcome := m.fitOutcome
        verificationOutcome := m.verificationOutcome
        detail := m.detail } := by
  unfold getFooter putFooter
  simp only [List.append_assoc]
  refine (reads_flag _).bind ?_
  refine (reads_fitOutcome _).bind ?_
  refine (reads_outcome _).bind ?_
  refine (reads_text h).bind_last ?_
  exact reads_checkOk.bind_nil (reads_pure _)

theorem reads_message {m : Message} (h : Sendable m) :
    Reads getMessage (encodePayload m) (transmitted m) := by
  have htype : m.type.ctorIdx ≤ 19 := by
    cases m.type <;> decide
  unfold getMessage encodePayload
  rw [List.append_assoc]
  refine (reads_u8 (htype.trans_lt (by decide))).bind ?_
  refine reads_checkOk.bind_nil ?_
  refine (reads_enum htype).bind_nil ?_
  rw [MsgType.ofNat_ctorIdx]
  refine (reads_messageBody h).bind ?_
  exact reads_checkOk.bind_nil (reads_footer h.detail)

theorem decodePayload_encodePayload {m : Message} (h : Sendable m) :
    decodePayload (encodePayload m) = .ok (some (transmitted m)) := by
  have hread := reads_message h [] ""
  rw [List.append_nil] at hread
  rw [decodePayload, hread]
  rfl

/-- A message that holds nothing its type does not transmit is read back as it is. -/
theorem decodePayload_of_transmitted {m : Message} (h : Sendable m) (ht : transmitted m = m) :
    decodePayload (encodePayload m) = .ok (some m) := by
  have hread := decodePayload_encodePayload h
  rwa [ht] at hread

/-! ## Frames -/

/-- The header of a frame. -/
def header (n : ℕ) : List UInt8 :=
  u32 protocolMagic.toNat ++ u32 protocolVersion.toNat ++ u32 n

theorem length_header (n : ℕ) : (header n).length = 12 := by simp [header]

theorem length_framed (payload : List UInt8) : (framed payload).length = 12 + payload.length := by
  rw [show framed payload = header payload.length ++ payload from rfl, List.length_append,
    length_header]

/-- The frame around a payload. -/
def frame (payload : List UInt8) : List UInt8 :=
  framed payload ++ u32 (crc32 (framed payload)).toNat

theorem length_frame (payload : List UInt8) :
    (frame payload).length = 12 + payload.length + 4 := by
  rw [frame, List.length_append, length_framed, length_u32]

theorem number_u32 {v : ℕ} (h : v < 2 ^ 32) : number (u32 v) = v := by
  rw [show number (u32 v) = v % 2 ^ 32 from number_littleEndian 4 v]
  exact Nat.mod_eq_of_lt h

/-- The length is announced in front of whatever follows the header. -/
theorem payloadLength_header {n : ℕ} (h : n < 2 ^ 32) (rest : List UInt8) :
    payloadLength (header n ++ rest) = n := by
  have hdrop : (header n ++ rest).drop 8 = u32 n ++ rest := by
    rw [header, List.append_assoc]
    exact List.drop_left' (by simp)
  rw [payloadLength, hdrop, List.take_left' (length_u32 n), number_u32 h]

/-- A frame around a payload that fits is decoded as the payload is. -/
theorem frameDecode_frame {payload : List UInt8} (h : payload.length ≤ protocolMaxPayload) :
    frameDecode (frame payload) = decodePayload payload := by
  have hlt : payload.length < 2 ^ 32 := h.trans_lt (by decide)
  set crc : ℕ := (crc32 (framed payload)).toNat with hcrc
  have hbytes : framed payload ++ u32 crc = header payload.length ++ (payload ++ u32 crc) := by
    rw [show framed payload = header payload.length ++ payload from rfl, List.append_assoc]
  have hplen : payloadLength (framed payload ++ u32 crc) = payload.length := by
    rw [hbytes, payloadLength_header hlt]
  have hlen : (framed payload ++ u32 crc).length = 12 + payload.length + 4 := by
    rw [List.length_append, length_framed, length_u32]
  have hmagic : number ((framed payload ++ u32 crc).take 4) = protocolMagic.toNat := by
    rw [hbytes, header, List.append_assoc, List.append_assoc, List.take_left' (length_u32 _),
      number_u32 (by decide)]
  have hversion :
      number (((framed payload ++ u32 crc).drop 4).take 4) = protocolVersion.toNat := by
    rw [hbytes, header, List.append_assoc, List.append_assoc, List.drop_left' (length_u32 _),
      List.take_left' (length_u32 _), number_u32 (by decide)]
  have hstored :
      number (((framed payload ++ u32 crc).drop (12 + payload.length)).take 4) = crc := by
    rw [List.drop_left' (length_framed payload), ← length_u32 crc, List.take_length,
      number_u32 (UInt32.toNat_lt _)]
  have hfront : (framed payload ++ u32 crc).take (12 + payload.length) = framed payload :=
    List.take_left' (length_framed payload)
  have hpayload :
      ((framed payload ++ u32 crc).drop 12).take payload.length = payload := by
    rw [hbytes, List.drop_left' (length_header _), List.take_left' rfl]
  unfold frameDecode frame
  rw [← hcrc]
  simp only [hplen]
  rw [if_neg (by omega), if_neg (not_not.mpr hmagic), if_neg (not_not.mpr hversion),
    if_neg (by omega), if_neg (not_not.mpr hlen), hstored, hfront,
    if_neg (not_not.mpr hcrc), hpayload]

/-! ## What the decoder returns -/

theorem yields_u32 : Yields readU32 (fun v => v < 2 ^ 32) := yields_word truncated 4

theorem yields_readText : Yields readText (fun s => s.bytes.length < 2 ^ 32) := by
  refine yields_u32.bind ?_
  intro n hn r s r' h
  dsimp only at h
  split_ifs at h
  · cases h
    decide
  · obtain ⟨bs, hbs, rfl⟩ := map_eq_ok.mp h
    exact (yields_take truncated n r bs r' hbs).trans_lt hn

theorem yields_readList {α : Type} {p : Decoder Abort α} {Q : α → Prop} (hp : Yields p Q)
    (bound : ℕ) : Yields (readList bound p) (fun as => as.length ≤ bound ∧ ∀ a ∈ as, Q a) := by
  have hcount : Yields (readCount bound) (fun n => n ≤ bound) :=
    yields_bind fun n => yields_bind fun _ => yields_demand.bind fun _ hn => yields_pure hn
  refine hcount.bind fun n hn r as r' h => ?_
  obtain ⟨hlen, hall⟩ := hp.times n r as r' h
  exact ⟨hlen.trans_le hn, hall⟩

theorem yields_texts : Yields (readList maxTexts readText) Holds := by
  intro r ts r' h
  obtain ⟨hcount, hshort⟩ := yields_readList yields_readText maxTexts r ts r' h
  exact ⟨hcount, hshort⟩

theorem yields_readAction :
    Yields getAction (fun a => SendableAction a ∧ transmittedAction a = a) := by
  unfold getAction getActionHead getActionTail
  simp only [bind_assoc, pure_bind]
  refine yields_bind fun _ => yields_bind fun _ => yields_bind fun _ => yields_bind fun _ => ?_
  refine yields_bind fun _ => ?_
  refine (yields_readList (Q := fun _ => True) (fun _ _ _ _ => trivial) _).bind fun as has => ?_
  refine yields_bind fun _ => yields_texts.bind fun pre hpre => ?_
  refine yields_texts.bind fun proof hproof => ?_
  refine yields_bind fun _ => yields_bind fun _ => yields_bind fun _ => yields_bind fun _ => ?_
  refine yields_bind fun _ => yields_bind fun _ => yields_bind fun _ => yields_bind fun _ => ?_
  exact yields_bind fun _ => yields_pure ⟨⟨has.1, hpre, hproof⟩, rfl⟩

theorem yields_getPlan : Yields getPlan (fun p => SendablePlan p ∧ transmittedPlan p = p) := by
  unfold getPlan getPlanHead getPlanTail
  simp only [bind_assoc, pure_bind]
  refine yields_bind fun _ => yields_bind fun _ => yields_bind fun _ => yields_bind fun _ => ?_
  refine yields_bind fun _ => yields_bind fun _ => ?_
  refine (yields_readList yields_readAction _).bind fun as has => ?_
  refine yields_bind fun _ => yields_bind fun _ => yields_bind fun _ => yields_bind fun _ => ?_
  refine yields_bind fun _ => yields_bind fun _ => yields_texts.bind fun explanation hexpl => ?_
  refine yields_bind fun _ => yields_bind fun _ => yields_texts.bind fun failures hfail => ?_
  refine yields_bind fun _ => yields_pure ⟨⟨has.1, fun a ha => (has.2 a ha).1, hexpl, hfail⟩, ?_⟩
  have hmap : as.map transmittedAction = as := by
    rw [List.map_congr_left (fun a ha => (has.2 a ha).2), List.map_id']
  simp only [transmittedPlan, hmap]

theorem yields_getDemand : Yields getDemand (fun d =>
    ∀ lo hi, d.elasticMin = some lo → d.elasticMax = some hi → lo ≤ hi) := by
  unfold getDemand
  refine yields_bind fun _ => yields_bind fun _ => yields_bind fun _ => yields_bind fun _ => ?_
  refine yields_bind fun _ => yields_bind fun _ => yields_bind fun _ => yields_bind fun _ => ?_
  refine yields_bind fun _ => yields_bind fun _ => yields_bind fun _ => yields_bind fun _ => ?_
  refine yields_bind fun _ => yields_bind fun _ => yields_bind fun _ => ?_
  refine yields_demand.bind fun _ h => yields_bind fun _ => yields_pure ?_
  exact elasticShape_iff.mp h

/-- A message of the type, within the bounds and with nothing its type does not transmit. -/
structure Received (t : MsgType) (m : Message) : Prop where
  type_eq : m.type = t
  sendable : Sendable m
  body : transmittedBody m = m

theorem sendablePlan_default : SendablePlan {} := by
  refine ⟨by decide, by simp, ⟨by decide, by simp⟩, ⟨by decide, by simp⟩⟩

/-- A message without a list, text or demand of its own. -/
theorem sendable_plain {m : Message} (hallocs : m.allocations = []) (hplan : m.plan = {})
    (hdemand : m.demand.elasticMin = none) (herror : m.error = {}) (hdetail : m.detail = {}) :
    Sendable m := by
  refine ⟨?_, ?_, ?_, ?_, ?_⟩
  · rw [hallocs]
    decide
  · rw [hplan]
    exact sendablePlan_default
  · intro lo hi hlo
    rw [hdemand] at hlo
    cases hlo
  · rw [herror]
    decide
  · rw [hdetail]
    decide

theorem yields_getBody (t : MsgType) : Yields (getBody t) (Received t) := by
  unfold getBody
  cases t with
  | hello => exact yields_pure ⟨rfl, sendable_plain rfl rfl rfl rfl rfl, rfl⟩
  | register =>
      refine yields_bind fun _ => yields_bind fun _ => yields_bind fun _ => ?_
      exact yields_pure ⟨rfl, sendable_plain rfl rfl rfl rfl rfl, rfl⟩
  | publishResource =>
      simp only [getSender, bind_assoc, pure_bind]
      refine yields_bind fun _ => yields_bind fun _ => yields_bind fun _ => ?_
      refine yields_bind fun _ => ?_
      exact yields_pure ⟨rfl, sendable_plain rfl rfl rfl rfl rfl, rfl⟩
  | publishLayout =>
      simp only [getSender, bind_assoc, pure_bind]
      refine yields_bind fun _ => yields_bind fun _ => yields_bind fun _ => ?_
      refine yields_bind fun _ => yields_bind fun _ => ?_
      refine (yields_readList (Q := fun _ => True) (fun _ _ _ _ => trivial) _).bind ?_
      intro as has
      exact yields_pure
        ⟨rfl, { sendable_plain (m := {}) rfl rfl rfl rfl rfl with allocations := has.1 }, rfl⟩
  | publishAllocation =>
      simp only [getSender, bind_assoc, pure_bind]
      refine yields_bind fun _ => yields_bind fun _ => yields_bind fun _ => ?_
      refine yields_bind fun _ => yields_bind fun _ => ?_
      exact yields_pure ⟨rfl, sendable_plain rfl rfl rfl rfl rfl, rfl⟩
  | invalidateAllocation =>
      simp only [getSender, bind_assoc, pure_bind]
      refine yields_bind fun _ => yields_bind fun _ => yields_bind fun _ => ?_
      refine yields_bind fun _ => yields_bind fun _ => ?_
      exact yields_pure ⟨rfl, sendable_plain rfl rfl rfl rfl rfl, rfl⟩
  | queryFragmentation =>
      refine yields_bind fun _ => ?_
      exact yields_pure ⟨rfl, sendable_plain rfl rfl rfl rfl rfl, rfl⟩
  | queryFit =>
      refine yields_bind fun _ => yields_getDemand.bind fun d hd => ?_
      exact yields_pure
        ⟨rfl, { sendable_plain (m := {}) rfl rfl rfl rfl rfl with elastic := hd }, rfl⟩
  | createPlan =>
      refine yields_bind fun _ => yields_bind fun _ => yields_getDemand.bind fun d hd => ?_
      exact yields_pure
        ⟨rfl, { sendable_plain (m := {}) rfl rfl rfl rfl rfl with elastic := hd }, rfl⟩
  | planResult =>
      refine yields_getPlan.bind fun p hp => yields_pure ⟨rfl, ?_, ?_⟩
      · exact { sendable_plain (m := {}) rfl rfl rfl rfl rfl with plan := hp.1 }
      · simp only [transmittedBody, hp.2]
  | approvePlan =>
      simp only [getPlanRef, bind_assoc, pure_bind]
      refine yields_bind fun _ => yields_bind fun _ => yields_bind fun _ => ?_
      exact yields_pure ⟨rfl, sendable_plain rfl rfl rfl rfl rfl, rfl⟩
  | beginAction =>
      simp only [getPlanRef, bind_assoc, pure_bind]
      refine yields_bind fun _ => yields_bind fun _ => yields_bind fun _ => ?_
      refine yields_bind fun _ => yields_bind fun _ => ?_
      exact yields_pure ⟨rfl, sendable_plain rfl rfl rfl rfl rfl, rfl⟩
  | actionComplete =>
      refine yields_bind fun _ => yields_bind fun _ => yields_bind fun _ => ?_
      refine yields_bind fun _ => ?_
      exact yields_pure ⟨rfl, sendable_plain rfl rfl rfl rfl rfl, rfl⟩
  | verify =>
      refine yields_bind fun _ => yields_bind fun _ => ?_
      exact yields_pure ⟨rfl, sendable_plain rfl rfl rfl rfl rfl, rfl⟩
  | cancelPlan =>
      refine yields_bind fun _ => yields_bind fun _ => ?_
      exact yields_pure ⟨rfl, sendable_plain rfl rfl rfl rfl rfl, rfl⟩
  | advanceGeneration =>
      refine yields_bind fun _ => yields_bind fun _ => ?_
      exact yields_pure ⟨rfl, sendable_plain rfl rfl rfl rfl rfl, rfl⟩
  | revalidate =>
      refine yields_bind fun _ => yields_bind fun _ => ?_
      exact yields_pure ⟨rfl, sendable_plain rfl rfl rfl rfl rfl, rfl⟩
  | save => exact yields_pure ⟨rfl, sendable_plain rfl rfl rfl rfl rfl, rfl⟩
  | shutdown => exact yields_pure ⟨rfl, sendable_plain rfl rfl rfl rfl rfl, rfl⟩
  | error =>
      refine yields_readText.bind fun e he => ?_
      exact yields_pure
        ⟨rfl, { sendable_plain (m := {}) rfl rfl rfl rfl rfl with error := he }, rfl⟩

/-- The footer keeps the body. -/
theorem yields_getFooter {t : MsgType} {b : Message} (h : Received t b) :
    Yields (getFooter b) (fun m => Sendable m ∧ transmitted m = m) := by
  unfold getFooter
  refine yields_bind fun ok => yields_bind fun fit => yields_bind fun outcome => ?_
  refine yields_readText.bind fun detail hdetail => yields_bind fun _ => yields_pure ⟨?_, ?_⟩
  · exact { h.sendable with detail := hdetail }
  · exact congrArg (fun b : Message =>
      { b with
        ok := ok
        fitOutcome := fit
        verificationOutcome := outcome
        detail := detail }) h.body

theorem yields_getMessage : Yields getMessage (fun m => Sendable m ∧ transmitted m = m) := by
  refine yields_bind fun _ => yields_bind fun _ => yields_bind fun t => ?_
  refine (yields_getBody t).bind fun b hb => yields_bind fun _ => ?_
  exact yields_getFooter hb

theorem decodePayload_eq_some {bytes : List UInt8} {m : Message}
    (h : decodePayload bytes = .ok (some m)) : Sendable m ∧ transmitted m = m := by
  unfold decodePayload at h
  split at h
  next a r hget =>
    split_ifs at h with hrest
    · cases h
    · cases h
      exact yields_getMessage _ _ _ hget
  next => cases h
  next => cases h

/-- Every message within the bounds is read back, from its payload and from a frame that
fits, as what its type transmits; and every message read is within the bounds and is read
back from its own payload. -/
theorem message_roundTrip :
    (∀ m, Sendable m →
      decodePayload (encodePayload m) = .ok (some (transmitted m)) ∧
      ((encodePayload m).length ≤ protocolMaxPayload →
        frameDecode (frameEncode m) = .ok (some (transmitted m)))) ∧
    (∀ bytes m, decodePayload bytes = .ok (some m) →
      Sendable m ∧ decodePayload (encodePayload m) = .ok (some m)) := by
  constructor
  · intro m h
    refine ⟨decodePayload_encodePayload h, ?_⟩
    intro hfits
    rw [← decodePayload_encodePayload h]
    exact frameDecode_frame hfits
  · intro bytes m h
    obtain ⟨hsend, heq⟩ := decodePayload_eq_some h
    exact ⟨hsend, decodePayload_of_transmitted hsend heq⟩

/-- A plan that moves one allocation, as the coordinator reports it. -/
def relocationResult : Message :=
  { type := .planResult
    plan :=
      { id := ⟨1⟩
        generation := ⟨1⟩
        actions :=
          [{ kind := .moveAllocation
             targetResource := ⟨10⟩
             sourceAllocation := some ⟨102⟩
             destination := some ⟨11⟩
             affectedAllocations := [⟨102⟩]
             requiredPreconditions := [⟨[111, 107]⟩]
             cost := .ofPercent ⟨20, by decide⟩ }]
        state := .completed
        verification := some .improved }
    ok := true }

theorem sendable_relocationResult : Sendable relocationResult := by
  have hholds : Holds [] := ⟨by decide, by simp⟩
  refine ⟨by decide, ⟨by decide, ?_, hholds, hholds⟩, ?_, by decide, by decide⟩
  · intro a ha
    cases List.mem_singleton.mp ha
    exact ⟨by decide, ⟨by decide, by simp⟩, hholds⟩
  · intro lo hi hlo
    cases hlo

theorem message_roundTrip_relocationResult :
    decodePayload (encodePayload relocationResult) = .ok (some (transmitted relocationResult)) ∧
      frameDecode (frameEncode relocationResult) = .ok (some (transmitted relocationResult)) := by
  have hsent := message_roundTrip.1 relocationResult sendable_relocationResult
  exact ⟨hsent.1, hsent.2 (by decide +kernel)⟩

end FragmentationGovernor.Protocol
