import FragmentationGovernor.Verification.Protocol.RoundTrip

/-! # What decoding raises on

The decoder rejects malformed bytes, except that a score outside `[0, 1]` raises where it
is read. A scan collects the patterns the decoder reads as scores; it returns exactly when
they all are scores. -/

namespace FragmentationGovernor.Protocol

open Codec Decoder

/-! ## Where nothing raises -/

/-- The decoder gives up only by rejecting. -/
abbrev Rejects {α : Type} (p : Decoder Abort α) : Prop := Errs p (fun e => e = .rejected)

theorem rejects_readU8 : Rejects readU8 := errs_word truncated 1

theorem rejects_readU32 : Rejects readU32 := errs_word truncated 4

theorem rejects_readU64 : Rejects readU64 := (errs_word truncated 8).map UInt64.ofNat

theorem rejects_readFlag : Rejects readFlag := rejects_readU8.map _

theorem rejects_checkOk : Rejects checkOk := errs_check (fun _ => rfl)

theorem rejects_demand (p : Prop) [Decidable p] : Rejects (demand p .rejected) := errs_demand rfl

theorem rejects_readText : Rejects readText := by
  refine rejects_readU32.bind ?_
  intro n r e h
  dsimp only at h
  split_ifs at h
  have htake : Rejects (take truncated n) := errs_take truncated n
  exact htake.map Text.mk r e h

theorem rejects_readEnum {α : Type} (ofNat : ℕ → α) (last : ℕ) : Rejects (readEnum ofNat last) :=
  rejects_readU8.bind fun _ => errs_enum rfl

theorem rejects_readCount (bound : ℕ) : Rejects (readCount bound) := by
  refine rejects_readU32.bind fun n => rejects_checkOk.bind fun _ => ?_
  exact (rejects_demand _).bind fun _ => errs_pure n

theorem rejects_readList {α : Type} {p : Decoder Abort α} (bound : ℕ) (hp : Rejects p) :
    Rejects (readList bound p) := (rejects_readCount bound).bind fun n => hp.times n

theorem rejects_id {tag : IdTag} : Rejects (TypedId.mk <$> readU64 : Decoder Abort (TypedId tag)) :=
  rejects_readU64.map _

theorem rejects_optional {α : Type} (g : UInt64 → α) :
    Rejects (optional readFlag (g <$> readU64)) :=
  rejects_readFlag.optional (rejects_readU64.map g)

theorem rejects_texts : Rejects (readList maxTexts readText) :=
  rejects_readList maxTexts rejects_readText

theorem rejects_getAlloc : Rejects getAlloc := by
  unfold getAlloc
  refine rejects_readU64.bind fun _ => rejects_readU64.bind fun _ => ?_
  refine rejects_readU64.bind fun _ => rejects_readU64.bind fun _ => ?_
  refine rejects_readU64.bind fun _ => (rejects_readEnum _ _).bind fun _ => ?_
  refine (rejects_optional _).bind fun _ => rejects_readFlag.bind fun _ => ?_
  refine (rejects_optional _).bind fun _ => (rejects_readEnum _ _).bind fun _ => ?_
  exact rejects_checkOk.bind fun _ => errs_pure _

theorem rejects_getDemand : Rejects getDemand := by
  unfold getDemand
  refine rejects_readU64.bind fun _ => rejects_readU64.bind fun _ => ?_
  refine rejects_readU64.bind fun _ => rejects_readU64.bind fun _ => ?_
  refine rejects_readU64.bind fun _ => rejects_readU64.bind fun _ => ?_
  refine rejects_readU64.bind fun _ => (rejects_optional _).bind fun _ => ?_
  refine (rejects_optional _).bind fun _ => rejects_readFlag.bind fun _ => ?_
  refine (rejects_optional _).bind fun _ => rejects_readFlag.bind fun _ => ?_
  refine rejects_readFlag.bind fun _ => (rejects_optional _).bind fun _ => ?_
  refine (rejects_optional _).bind fun _ => (rejects_demand _).bind fun _ => ?_
  exact rejects_checkOk.bind fun _ => errs_pure _

theorem rejects_getResource : Rejects getResource := by
  unfold getResource
  refine rejects_readU64.bind fun _ => rejects_readU64.bind fun _ => ?_
  refine rejects_readU64.bind fun _ => rejects_readU64.bind fun _ => ?_
  refine rejects_readU64.bind fun _ => rejects_readU64.bind fun _ => ?_
  refine (rejects_optional _).bind fun _ => (rejects_readEnum _ _).bind fun _ => ?_
  refine rejects_readU64.bind fun _ => (rejects_readEnum _ _).bind fun _ => ?_
  exact rejects_checkOk.bind fun _ => errs_pure _

theorem rejects_getActionHead : Rejects getActionHead := by
  unfold getActionHead
  refine (rejects_readEnum _ _).bind fun _ => rejects_readU64.bind fun _ => ?_
  refine rejects_readU64.bind fun _ => (rejects_optional _).bind fun _ => ?_
  refine (rejects_optional _).bind fun _ => ?_
  refine (rejects_readList _ rejects_id).bind fun _ => rejects_readU64.bind fun _ => ?_
  refine rejects_texts.bind fun _ => rejects_texts.bind fun _ => ?_
  exact rejects_readU64.bind fun _ => errs_pure _

theorem rejects_getPlanHead : Rejects getPlanHead := by
  unfold getPlanHead
  refine rejects_readU64.bind fun _ => rejects_readU64.bind fun _ => ?_
  refine rejects_readU64.bind fun _ => rejects_readU64.bind fun _ => ?_
  refine rejects_readU64.bind fun _ => rejects_readU64.bind fun _ => ?_
  exact errs_pure _

theorem rejects_getPlanTail (p : RemediationPlan) : Rejects (getPlanTail p) := by
  unfold getPlanTail
  refine rejects_texts.bind fun _ => (rejects_readEnum _ _).bind fun _ => ?_
  refine (rejects_readFlag.optional (rejects_readEnum _ _)).bind fun _ => ?_
  exact rejects_texts.bind fun _ => rejects_checkOk.bind fun _ => errs_pure _

theorem rejects_getSender (t : MsgType) : Rejects (getSender t) := by
  unfold getSender
  refine rejects_readU64.bind fun _ => rejects_readU64.bind fun _ => ?_
  exact rejects_readU64.bind fun _ => errs_pure _

theorem rejects_getPlanRef (t : MsgType) : Rejects (getPlanRef t) := by
  unfold getPlanRef
  exact rejects_readU64.bind fun _ => rejects_readU64.bind fun _ => errs_pure _

/-- Only a plan holds scores. -/
theorem rejects_getBody {t : MsgType} (h : t ≠ .planResult) : Rejects (getBody t) := by
  unfold getBody
  cases t with
  | hello => exact errs_pure _
  | register => exact rejects_getSender _
  | publishResource =>
      exact (rejects_getSender _).bind fun _ => rejects_getResource.bind fun _ => errs_pure _
  | publishLayout =>
      refine (rejects_getSender _).bind fun _ => rejects_readU64.bind fun _ => ?_
      refine rejects_readU64.bind fun _ => (rejects_readList _ rejects_getAlloc).bind fun _ => ?_
      exact errs_pure _
  | publishAllocation =>
      refine (rejects_getSender _).bind fun _ => rejects_readU64.bind fun _ => ?_
      exact rejects_getAlloc.bind fun _ => errs_pure _
  | invalidateAllocation =>
      refine (rejects_getSender _).bind fun _ => rejects_readU64.bind fun _ => ?_
      exact rejects_readU64.bind fun _ => errs_pure _
  | queryFragmentation => exact rejects_readU64.bind fun _ => errs_pure _
  | queryFit => exact rejects_readU64.bind fun _ => rejects_getDemand.bind fun _ => errs_pure _
  | createPlan =>
      refine rejects_readU64.bind fun _ => rejects_readU64.bind fun _ => ?_
      exact rejects_getDemand.bind fun _ => errs_pure _
  | planResult => exact (h rfl).elim
  | approvePlan =>
      exact (rejects_getPlanRef _).bind fun _ => rejects_readU64.bind fun _ => errs_pure _
  | beginAction =>
      refine (rejects_getPlanRef _).bind fun _ => rejects_readU32.bind fun _ => ?_
      exact rejects_readU64.bind fun _ => rejects_readU64.bind fun _ => errs_pure _
  | actionComplete =>
      refine rejects_readU64.bind fun _ => rejects_readU32.bind fun _ => ?_
      exact rejects_readFlag.bind fun _ => rejects_readU64.bind fun _ => errs_pure _
  | verify => exact rejects_getPlanRef _
  | cancelPlan => exact rejects_getPlanRef _
  | advanceGeneration =>
      exact rejects_readU8.bind fun _ => rejects_readU64.bind fun _ => errs_pure _
  | revalidate => exact rejects_getPlanRef _
  | save => exact errs_pure _
  | shutdown => exact errs_pure _
  | error => exact rejects_readText.bind fun _ => errs_pure _

theorem rejects_getFooter (m : Message) : Rejects (getFooter m) := by
  unfold getFooter
  refine rejects_readFlag.bind fun _ => (rejects_readEnum _ _).bind fun _ => ?_
  refine (rejects_readEnum _ _).bind fun _ => rejects_readText.bind fun _ => ?_
  exact rejects_checkOk.bind fun _ => errs_pure _

/-! ## Scans -/

/-- The patterns read as scores from a reader on. -/
abbrev Scan := Reader → List Double

def stop : Scan := fun _ => []

/-- Goes past what holds no score, and no further than where decoding gives up. -/
def past {α : Type} (p : Decoder Abort α) (next : α → Scan) : Scan := fun r =>
  match p r with
  | .error _ => []
  | .ok (a, r) => next a r

/-- Notes the pattern of one score. -/
def note (next : Scan) : Scan := past readU64 (fun bits r => ⟨bits⟩ :: next r)

/-- An action holds four scores. -/
def actionScores (next : Scan) : Scan :=
  past getActionHead fun _ => note <| note <| note <| note <|
    past readFlag fun _ => past readFlag fun _ => past readFlag fun _ =>
      past (readEnum ReservationImpact.ofNat 3) fun _ => next

/-- A plan holds the scores of its actions and five of its own. -/
def planScores : Scan :=
  past getPlanHead fun _ => past (readCount maxEntries) fun n => actionScores^[n] <|
    past readU64 fun _ => note <| note <| note <| note <| note stop

/-- Of the messages only a plan result holds a plan. -/
def messageScores : Scan :=
  past readU8 fun t => past checkOk fun _ => past (enum MsgType.ofNat 19 .rejected t) fun t =>
    if t = .planResult then planScores else stop

/-- The patterns decoding a payload reads as scores. -/
def reachedScores (bytes : List UInt8) : List Double := messageScores ⟨bytes, true, ""⟩

/-- The decoder raises exactly where the scan finds a pattern that is no score. -/
def Marks {α : Type} (p : Decoder Abort α) (s : Scan) : Prop :=
  ∀ r, (∃ e, p r = .error (.raised e)) ↔ ∃ d ∈ s r, d.inUnit = false

section Marks

variable {α β : Type}

theorem marks_stop {p : Decoder Abort α} (hp : Rejects p) : Marks p stop := by
  intro r
  constructor
  · rintro ⟨e, h⟩
    cases hp r _ h
  · rintro ⟨d, hd, -⟩
    cases hd

theorem marks_past {p : Decoder Abort α} {f : α → Decoder Abort β} {next : α → Scan}
    (hp : Rejects p) (hf : ∀ a, Marks (f a) (next a)) : Marks (p >>= f) (past p next) := by
  intro r
  unfold past
  rw [bind_apply]
  cases h : p r with
  | error e =>
      rw [hp r e h]
      simp [Except.bind]
  | ok x => exact hf x.1 x.2

theorem marks_note {f : HealthyScore → Decoder Abort β} {next : Scan}
    (hf : ∀ s, Marks (f s) next) : Marks (readScore >>= f) (note next) := by
  unfold readScore note
  rw [bind_assoc]
  refine marks_past rejects_readU64 ?_
  intro bits r
  rw [bind_apply]
  dsimp only
  cases hs : HealthyScore.ofDouble ⟨bits⟩ with
  | error e =>
      have hunit : (⟨bits⟩ : Double).inUnit = false := by
        by_contra hne
        obtain ⟨s, h⟩ := HealthyScore.exists_ofDouble_iff.mpr (Bool.not_eq_false _ ▸ hne)
        rw [hs] at h
        cases h
      exact iff_of_true ⟨e, rfl⟩ ⟨⟨bits⟩, by simp, hunit⟩
  | ok s =>
      have hunit : (⟨bits⟩ : Double).inUnit = true :=
        HealthyScore.exists_ofDouble_iff.mp ⟨s, hs⟩
      rw [show Except.bind (.ok (s, r)) (fun x => f x.1 x.2) = f s r from rfl, hf s r]
      simp [hunit]

theorem marks_action {f : PlanAction → Decoder Abort β} {next : Scan}
    (hf : ∀ a, Marks (f a) next) : Marks (getAction >>= f) (actionScores next) := by
  unfold getAction getActionTail actionScores
  simp only [bind_assoc, pure_bind]
  refine marks_past rejects_getActionHead fun a => ?_
  refine marks_note fun _ => marks_note fun _ => marks_note fun _ => marks_note fun _ => ?_
  refine marks_past rejects_readFlag fun _ => marks_past rejects_readFlag fun _ => ?_
  refine marks_past rejects_readFlag fun _ => marks_past (rejects_readEnum _ _) fun _ => ?_
  exact hf _

theorem marks_actions {f : List PlanAction → Decoder Abort β} {next : Scan}
    (hf : ∀ as, Marks (f as) next) (n : ℕ) :
    Marks (times getAction n >>= f) (actionScores^[n] next) := by
  induction n generalizing f with
  | zero => exact hf []
  | succ n ih =>
      rw [Function.iterate_succ_apply', times]
      simp only [bind_assoc, pure_bind]
      exact marks_action fun a => ih fun as => hf (a :: as)

end Marks

theorem marks_plan {β : Type} {f : RemediationPlan → Decoder Abort β}
    (hf : ∀ p, Rejects (f p)) : Marks (getPlan >>= f) planScores := by
  unfold getPlan planScores readList
  simp only [bind_assoc]
  refine marks_past rejects_getPlanHead fun p => marks_past (rejects_readCount _) fun n => ?_
  refine marks_actions (fun as => ?_) n
  refine marks_past rejects_readU64 fun _ => marks_note fun _ => marks_note fun _ => ?_
  refine marks_note fun _ => marks_note fun _ => marks_note fun _ => ?_
  exact marks_stop ((rejects_getPlanTail _).bind hf)

theorem marks_message : Marks getMessage messageScores := by
  unfold getMessage messageScores
  refine marks_past rejects_readU8 fun t => marks_past rejects_checkOk fun _ => ?_
  refine marks_past (errs_enum rfl) fun t => ?_
  have hrest : ∀ m, Rejects (do checkOk; getFooter m) :=
    fun m => rejects_checkOk.bind fun _ => rejects_getFooter m
  by_cases ht : t = .planResult
  · rw [if_pos ht, ht]
    unfold getBody
    simp only [bind_assoc, pure_bind]
    exact marks_plan fun p => hrest _
  · rw [if_neg ht]
    exact marks_stop ((rejects_getBody ht).bind hrest)

/-! ## Payloads -/

theorem decodePayload_returns_iff (bytes : List UInt8) :
    (∃ m, decodePayload bytes = .ok m) ↔ ∀ d ∈ reachedScores bytes, d.inUnit = true := by
  have hmarks := marks_message ⟨bytes, true, ""⟩
  have hraised : (∃ m, decodePayload bytes = .ok m) ↔
      ¬ ∃ e, getMessage ⟨bytes, true, ""⟩ = .error (.raised e) := by
    unfold decodePayload
    split
    next m r h =>
      rw [h]
      split_ifs <;> simp
    next h =>
      rw [h]
      simp
    next e h =>
      rw [h]
      simp
  rw [hraised, hmarks]
  simp [reachedScores]

/-! ## Frames -/

/-- Only a frame reaches the payload decoder. -/
theorem frameDecode_cases (bytes : List UInt8) :
    frameDecode bytes = .ok none ∨
      ∃ payload, payload.length ≤ protocolMaxPayload ∧ bytes = frame payload := by
  unfold frameDecode
  dsimp only
  set n := payloadLength bytes with hn
  split_ifs with hshort hmagic hversion hmax hlen hcrc
  · exact Or.inl rfl
  · exact Or.inl rfl
  · exact Or.inl rfl
  · exact Or.inl rfl
  · exact Or.inl rfl
  · exact Or.inl rfl
  · right
    push Not at hmagic hversion hmax hlen hcrc
    have hplen : u32 n = (bytes.drop 8).take 4 := by
      rw [hn, payloadLength]
      apply u32_number
      rw [List.length_take, List.length_drop]
      omega
    have hmagic' : u32 protocolMagic.toNat = bytes.take 4 := by
      rw [← hmagic]
      apply u32_number
      rw [List.length_take]
      omega
    have hversion' : u32 protocolVersion.toNat = (bytes.drop 4).take 4 := by
      rw [← hversion]
      apply u32_number
      rw [List.length_take, List.length_drop]
      omega
    have hstored : u32 (crc32 (bytes.take (12 + n))).toNat = (bytes.drop (12 + n)).take 4 := by
      rw [← hcrc]
      apply u32_number
      rw [List.length_take, List.length_drop]
      omega
    have hpayload : ((bytes.drop 12).take n).length = n := by
      rw [List.length_take, List.length_drop]
      omega
    have hfront : framed ((bytes.drop 12).take n) = bytes.take (12 + n) := by
      rw [framed, hpayload, hmagic', hversion', hplen, ← List.take_add, ← List.take_add,
        ← List.take_add]
    refine ⟨(bytes.drop 12).take n, by omega, ?_⟩
    rw [frame, hfront, hstored, ← List.take_add, ← hlen, List.take_length]

theorem frameDecode_returns_iff (bytes : List UInt8) :
    (∃ m, frameDecode bytes = .ok m) ↔
      ∀ payload, payload.length ≤ protocolMaxPayload → bytes = frame payload →
        ∀ d ∈ reachedScores payload, d.inUnit = true := by
  constructor
  · rintro ⟨m, hm⟩ payload hmax rfl
    rw [frameDecode_frame hmax] at hm
    exact (decodePayload_returns_iff payload).mp ⟨m, hm⟩
  · intro h
    rcases frameDecode_cases bytes with hnone | ⟨payload, hmax, rfl⟩
    · exact ⟨none, hnone⟩
    · rw [frameDecode_frame hmax]
      exact (decodePayload_returns_iff payload).mpr (h payload hmax rfl)

/-! ## Streams -/

/-- A complete frame in front of the buffer is decoded. -/
theorem feed_frame {d : FrameDecoder} {data payload rest : List UInt8}
    (hmax : payload.length ≤ protocolMaxPayload) (hbuf : d.buf ++ data = frame payload ++ rest) :
    (d.feed data).2 = frameDecode (frame payload) := by
  have hlen := length_frame payload
  have hplen : payloadLength (frame payload ++ rest) = payload.length := by
    have hlt : payload.length < 2 ^ 32 := hmax.trans_lt (by decide)
    have hheader : frame payload ++ rest = header payload.length ++
        (payload ++ (u32 (crc32 (framed payload)).toNat ++ rest)) := by
      rw [frame, show framed payload = header payload.length ++ payload from rfl]
      simp only [List.append_assoc]
    rw [hheader, payloadLength_header hlt]
  have htake : (frame payload ++ rest).take (12 + payload.length + 4) = frame payload :=
    List.take_left' hlen
  unfold FrameDecoder.feed
  simp only [hbuf, hplen, htake]
  rw [if_neg (by rw [List.length_append]; omega), if_neg (by omega),
    if_neg (by rw [List.length_append]; omega)]
  cases frameDecode (frame payload) <;> rfl

theorem feed_returns_iff (d : FrameDecoder) (data : List UInt8) :
    (∃ m, (d.feed data).2 = .ok m) ↔
      ∀ payload rest, payload.length ≤ protocolMaxPayload →
        d.buf ++ data = frame payload ++ rest →
        ∀ s ∈ reachedScores payload, s.inUnit = true := by
  constructor
  · rintro ⟨m, hm⟩ payload rest hmax hbuf
    rw [feed_frame hmax hbuf] at hm
    exact (frameDecode_returns_iff _).mp ⟨m, hm⟩ payload hmax rfl
  · intro h
    unfold FrameDecoder.feed
    dsimp only
    set n := payloadLength (d.buf ++ data) with hn
    split_ifs with hshort hmax hpart
    · exact ⟨none, rfl⟩
    · exact ⟨none, rfl⟩
    · exact ⟨none, rfl⟩
    · have hreturns : ∃ m, frameDecode ((d.buf ++ data).take (12 + n + 4)) = .ok m := by
        refine (frameDecode_returns_iff _).mpr ?_
        intro payload hpayload htake
        refine h payload ((d.buf ++ data).drop (12 + n + 4)) hpayload ?_
        rw [← htake, List.take_append_drop]
      obtain ⟨m, hm⟩ := hreturns
      exact ⟨m, by rw [hm]⟩

/-- Decoding the bytes as a payload, as a frame or behind what a stream has buffered returns
exactly when every pattern it reads as a score is one. -/
theorem decoding_returns_iff (bytes : List UInt8) (s : FrameDecoder) :
    ((∃ m, decodePayload bytes = .ok m) ↔ ∀ d ∈ reachedScores bytes, d.inUnit = true) ∧
    ((∃ m, frameDecode bytes = .ok m) ↔
      ∀ payload, payload.length ≤ protocolMaxPayload → bytes = frame payload →
        ∀ d ∈ reachedScores payload, d.inUnit = true) ∧
    ((∃ m, (s.feed bytes).2 = .ok m) ↔
      ∀ payload rest, payload.length ≤ protocolMaxPayload →
        s.buf ++ bytes = frame payload ++ rest →
        ∀ d ∈ reachedScores payload, d.inUnit = true) :=
  ⟨decodePayload_returns_iff bytes, frameDecode_returns_iff bytes, feed_returns_iff s bytes⟩

/-- A plan without actions whose expected improvement is written as `2.0`. -/
def unscoredPlan : List UInt8 :=
  u8 9 ++ List.replicate 60 0 ++ u64 0x4000000000000000 ++ List.replicate 32 0 ++
    List.replicate 17 0

theorem two_mem_reachedScores : ⟨0x4000000000000000⟩ ∈ reachedScores unscoredPlan := by
  decide +kernel

/-- The payload, its frame and the frame arriving at a fresh stream decoder all raise. -/
theorem unscoredPlan_raises :
    (¬ ∃ m, decodePayload unscoredPlan = .ok m) ∧
      (¬ ∃ m, frameDecode (frame unscoredPlan) = .ok m) ∧
      ¬ ∃ m, (FrameDecoder.feed {} (frame unscoredPlan)).2 = .ok m := by
  have hmax : unscoredPlan.length ≤ protocolMaxPayload := by
    simp [unscoredPlan, protocolMaxPayload]
  have hbad : ¬ ∃ m, decodePayload unscoredPlan = .ok m := by
    rw [decodePayload_returns_iff]
    intro h
    have htwo := h _ two_mem_reachedScores
    rw [Double.inUnit_two] at htwo
    cases htwo
  have hframe : frameDecode (frame unscoredPlan) = decodePayload unscoredPlan :=
    frameDecode_frame hmax
  have hbuf : ({} : FrameDecoder).buf ++ frame unscoredPlan = frame unscoredPlan ++ [] := by
    rw [List.append_nil, List.nil_append]
  have hfeed := feed_frame hmax hbuf
  rw [hfeed, hframe]
  exact ⟨hbad, hbad, hbad⟩

end FragmentationGovernor.Protocol
