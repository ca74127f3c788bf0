import FragmentationGovernor.Verification.Persistence.Extent
import FragmentationGovernor.Verification.Protocol.RoundTrip

/-! # The extent of a message

A message that is read takes as many bytes as it would be written in, whatever follows it.
So no accepted input continues another one. -/

namespace FragmentationGovernor.Protocol

open Codec Decoder

/-! ## Fields -/

/-- The value takes as many bytes as it is written in. -/
abbrev Extent {α : Type} (p : Decoder Abort α) (put : α → List UInt8) : Prop :=
  Spans p (fun a n => n = (put a).length)

theorem spans_u8 : Spans readU8 (fun _ n => n = 1) := spans_word truncated 1

theorem spans_u32 : Spans readU32 (fun _ n => n = 4) := spans_word truncated 4

theorem spans_u64 : Spans readU64 (fun _ n => n = 8) := (spans_word truncated 8).map_fixed _

theorem spans_flag : Spans readFlag (fun _ n => n = 1) := spans_u8.map_fixed _

theorem spans_checkOk : Spans checkOk (fun _ n => n = 0) := spans_check _

theorem spans_readEnum {α : Type} (ofNat : ℕ → α) (last : ℕ) :
    Spans (readEnum ofNat last) (fun _ n => n = 1) :=
  spans_u8.sized fun _ => spans_enum.mono fun _ n hn => by rw [hn]

theorem extent_text : Extent readText putText := by
  refine spans_u32.sized fun n => ?_
  intro r s r' h hok
  dsimp only at h
  split_ifs at h with hr
  · -- the reader had failed before
    cases h
    rw [hok] at hr
    cases hr
  · obtain ⟨bs, hbs, rfl⟩ := map_eq_ok.mp h
    obtain ⟨hr', cs, ⟨hlen, hcs⟩, hrest, hreads⟩ := spans_take truncated n r bs r' hbs hok
    refine ⟨hr', cs, ?_, hrest, ?_⟩
    · simp [putText, hlen, hcs]
    · exact fun rest err => hreads.map Text.mk rest err

theorem extent_score : Extent readScore putScore := by
  refine spans_u64.sized fun bits => ?_
  intro r s r' h hok
  dsimp only at h
  cases hs : HealthyScore.ofDouble ⟨bits⟩ with
  | error e =>
      rw [hs] at h
      cases h
  | ok s₁ =>
      rw [hs] at h
      cases h
      refine ⟨hok, [], by simp [putScore], rfl, ?_⟩
      exact fun rest err => rfl

theorem extent_option {α : Type} {p : Decoder Abort α} {put : α → List UInt8} (hp : Extent p put) :
    Extent (optional readFlag p) (putOption put) := by
  refine (spans_flag.optional hp).mono ?_
  rintro o n rfl
  cases o with
  | none => rfl
  | some a => simp [putOption]

/-- The values a 64-bit field is read as. -/
theorem extent_word {α : Type} (g : UInt64 → α) (put : α → UInt64) :
    Extent (g <$> readU64) (fun a => u64 (put a)) :=
  (spans_u64.map_fixed g).mono fun _ n hn => by rw [hn, length_u64]

theorem extent_list {α : Type} {p : Decoder Abort α} {put : α → List UInt8} (hp : Extent p put)
    (bound : ℕ) : Extent (readList bound p) (encodeList put) := by
  unfold readList readCount
  simp only [bind_assoc, pure_bind]
  refine spans_u32.sized fun k => spans_checkOk.sized fun _ => spans_demand.sized fun _ => ?_
  refine (hp.times k).mono ?_
  rintro as n ⟨-, ns, hns, rfl⟩
  have hsum : (as.flatMap put).length = ns.sum := by
    induction hns with
    | nil => rfl
    | cons hn _ ih => rw [List.flatMap_cons, List.length_append, List.sum_cons, ih, hn]
  rw [encodeList, List.length_append, length_u32, hsum, Nat.zero_add, Nat.zero_add]

/-! ## Records -/

theorem extent_alloc : Extent getAlloc putAlloc := by
  unfold getAlloc
  refine spans_u64.sized fun _ => spans_u64.sized fun _ => spans_u64.sized fun _ => ?_
  refine spans_u64.sized fun _ => spans_u64.sized fun _ => (spans_readEnum _ _).sized fun _ => ?_
  refine (extent_option (extent_word TypedId.mk TypedId.value)).sized fun _ => ?_
  refine spans_flag.sized fun _ => ?_
  refine (extent_option (extent_word TypedId.mk TypedId.value)).sized fun _ => ?_
  refine (spans_readEnum _ _).sized fun _ => spans_checkOk.sized fun _ => spans_pure ?_
  simp only [putAlloc, List.length_append, length_u64, length_u8, length_bool, Nat.add_assoc,
    Nat.add_zero]

theorem extent_group : Extent (UInt64.toInt64 <$> readU64) putGroup :=
  extent_word UInt64.toInt64 Int64.toUInt64

theorem extent_demand : Extent getDemand putDemand := by
  unfold getDemand
  have hgroup := extent_option extent_group
  refine spans_u64.sized fun _ => spans_u64.sized fun _ => spans_u64.sized fun _ => ?_
  refine spans_u64.sized fun _ => spans_u64.sized fun _ => spans_u64.sized fun _ => ?_
  refine spans_u64.sized fun _ => hgroup.sized fun _ => hgroup.sized fun _ => ?_
  refine spans_flag.sized fun _ => ?_
  refine (extent_option (extent_word Quantity.mk Quantity.value)).sized fun _ => ?_
  refine spans_flag.sized fun _ => spans_flag.sized fun _ => ?_
  refine (extent_option (extent_word Quantity.mk Quantity.value)).sized fun _ => ?_
  refine (extent_option (extent_word Quantity.mk Quantity.value)).sized fun _ => ?_
  refine spans_demand.sized fun _ => spans_checkOk.sized fun _ => spans_pure ?_
  dsimp only [putDemand]
  simp only [List.length_append, length_u64, length_bool, Nat.add_assoc, Nat.add_zero]

theorem extent_resource : Extent getResource putResource := by
  unfold getResource
  refine spans_u64.sized fun _ => spans_u64.sized fun _ => spans_u64.sized fun _ => ?_
  refine spans_u64.sized fun _ => spans_u64.sized fun _ => spans_u64.sized fun _ => ?_
  refine (extent_option extent_group).sized fun _ => (spans_readEnum _ _).sized fun _ => ?_
  refine spans_u64.sized fun _ => (spans_readEnum _ _).sized fun _ => ?_
  refine spans_checkOk.sized fun _ => spans_pure ?_
  simp only [putResource, List.length_append, length_u64, length_u8, Nat.add_assoc, Nat.add_zero]

theorem extent_texts : Extent (readList maxTexts readText) (encodeList putText) :=
  extent_list extent_text maxTexts

theorem extent_action : Extent getAction putAction := by
  unfold getAction getActionHead getActionTail
  simp only [bind_assoc, pure_bind]
  refine (spans_readEnum _ _).sized fun _ => spans_u64.sized fun _ => spans_u64.sized fun _ => ?_
  refine (extent_option (extent_word TypedId.mk TypedId.value)).sized fun _ => ?_
  refine (extent_option (extent_word TypedId.mk TypedId.value)).sized fun _ => ?_
  refine (extent_list (extent_word TypedId.mk TypedId.value) _).sized fun _ => ?_
  refine spans_u64.sized fun _ => extent_texts.sized fun _ => extent_texts.sized fun _ => ?_
  refine spans_u64.sized fun _ => extent_score.sized fun _ => extent_score.sized fun _ => ?_
  refine extent_score.sized fun _ => extent_score.sized fun _ => spans_flag.sized fun _ => ?_
  refine spans_flag.sized fun _ => spans_flag.sized fun _ => (spans_readEnum _ _).sized fun _ => ?_
  refine spans_pure ?_
  dsimp only [putAction]
  simp only [List.length_append, length_u64, length_u8, length_bool, Nat.add_assoc, Nat.add_zero]

theorem extent_plan : Extent getPlan putPlan := by
  unfold getPlan getPlanHead getPlanTail
  simp only [bind_assoc, pure_bind]
  refine spans_u64.sized fun _ => spans_u64.sized fun _ => spans_u64.sized fun _ => ?_
  refine spans_u64.sized fun _ => spans_u64.sized fun _ => spans_u64.sized fun _ => ?_
  refine (extent_list extent_action _).sized fun _ => spans_u64.sized fun _ => ?_
  refine extent_score.sized fun _ => extent_score.sized fun _ => extent_score.sized fun _ => ?_
  refine extent_score.sized fun _ => extent_score.sized fun _ => extent_texts.sized fun _ => ?_
  have houtcome : Extent (readEnum VerificationOutcome.ofNat 6) (fun v => u8 v.ctorIdx) :=
    (spans_readEnum _ _).mono fun _ n hn => by rw [hn, length_u8]
  refine (spans_readEnum _ _).sized fun _ => (extent_option houtcome).sized fun _ => ?_
  refine extent_texts.sized fun _ => spans_checkOk.sized fun _ => spans_pure ?_
  dsimp only [putPlan]
  simp only [List.length_append, length_u64, length_u8, Nat.add_assoc, Nat.add_zero]

/-! ## Messages -/

theorem extent_body (t : MsgType) :
    Spans (getBody t) (fun m n => m.type = t ∧ n = (putBody m).length) := by
  unfold getBody
  cases t with
  | hello => exact spans_pure ⟨rfl, rfl⟩
  | register =>
      refine spans_u64.sized fun _ => spans_u64.sized fun _ => spans_u64.sized fun _ => ?_
      refine spans_pure ⟨rfl, ?_⟩
      simp only [putBody, putSender, List.length_append, length_u64]
  | publishResource =>
      simp only [getSender, bind_assoc, pure_bind]
      refine spans_u64.sized fun _ => spans_u64.sized fun _ => spans_u64.sized fun _ => ?_
      refine extent_resource.sized fun _ => spans_pure ⟨rfl, ?_⟩
      simp only [putBody, putSender, List.length_append, length_u64, Nat.add_assoc, Nat.add_zero]
  | publishLayout =>
      simp only [getSender, bind_assoc, pure_bind]
      refine spans_u64.sized fun _ => spans_u64.sized fun _ => spans_u64.sized fun _ => ?_
      refine spans_u64.sized fun _ => spans_u64.sized fun _ => ?_
      refine (extent_list extent_alloc _).sized fun _ => spans_pure ⟨rfl, ?_⟩
      simp only [putBody, putSender, List.length_append, length_u64, Nat.add_assoc, Nat.add_zero]
  | publishAllocation =>
      simp only [getSender, bind_assoc, pure_bind]
      refine spans_u64.sized fun _ => spans_u64.sized fun _ => spans_u64.sized fun _ => ?_
      refine spans_u64.sized fun _ => extent_alloc.sized fun _ => spans_pure ⟨rfl, ?_⟩
      simp only [putBody, putSender, List.length_append, length_u64, Nat.add_assoc, Nat.add_zero]
  | invalidateAllocation =>
      simp only [getSender, bind_assoc, pure_bind]
      refine spans_u64.sized fun _ => spans_u64.sized fun _ => spans_u64.sized fun _ => ?_
      refine spans_u64.sized fun _ => spans_u64.sized fun _ => spans_pure ⟨rfl, ?_⟩
      simp only [putBody, putSender, List.length_append, length_u64]
  | queryFragmentation => exact spans_u64.sized fun _ => spans_pure ⟨rfl, rfl⟩
  | queryFit =>
      refine spans_u64.sized fun _ => extent_demand.sized fun _ => spans_pure ⟨rfl, ?_⟩
      simp only [putBody, List.length_append, length_u64, Nat.add_zero]
  | createPlan =>
      refine spans_u64.sized fun _ => spans_u64.sized fun _ => ?_
      refine extent_demand.sized fun _ => spans_pure ⟨rfl, ?_⟩
      simp only [putBody, List.length_append, length_u64, Nat.add_assoc, Nat.add_zero]
  | planResult =>
      refine extent_plan.sized fun _ => spans_pure ⟨rfl, ?_⟩
      simp only [putBody, Nat.add_zero]
  | approvePlan =>
      simp only [getPlanRef, bind_assoc, pure_bind]
      refine spans_u64.sized fun _ => spans_u64.sized fun _ => spans_u64.sized fun _ => ?_
      refine spans_pure ⟨rfl, ?_⟩
      simp only [putBody, List.length_append, length_u64]
  | beginAction =>
      simp only [getPlanRef, bind_assoc, pure_bind]
      refine spans_u64.sized fun _ => spans_u64.sized fun _ => spans_u32.sized fun _ => ?_
      refine spans_u64.sized fun _ => spans_u64.sized fun _ => spans_pure ⟨rfl, ?_⟩
      simp only [putBody, List.length_append, length_u64, length_u32]
  | actionComplete =>
      refine spans_u64.sized fun _ => spans_u32.sized fun _ => spans_flag.sized fun _ => ?_
      refine spans_u64.sized fun _ => spans_pure ⟨rfl, ?_⟩
      simp only [putBody, List.length_append, length_u64, length_u32, length_bool]
  | verify => exact spans_u64.sized fun _ => spans_u64.sized fun _ => spans_pure ⟨rfl, rfl⟩
  | cancelPlan => exact spans_u64.sized fun _ => spans_u64.sized fun _ => spans_pure ⟨rfl, rfl⟩
  | advanceGeneration =>
      exact spans_u8.sized fun _ => spans_u64.sized fun _ => spans_pure ⟨rfl, rfl⟩
  | revalidate => exact spans_u64.sized fun _ => spans_u64.sized fun _ => spans_pure ⟨rfl, rfl⟩
  | save => exact spans_pure ⟨rfl, rfl⟩
  | shutdown => exact spans_pure ⟨rfl, rfl⟩
  | error =>
      refine extent_text.sized fun _ => spans_pure ⟨rfl, ?_⟩
      simp only [putBody, Nat.add_zero]

theorem extent_footer (b : Message) :
    Spans (getFooter b) (fun m n => putBody m = putBody b ∧ n = (putFooter m).length) := by
  unfold getFooter
  refine spans_flag.sized fun _ => (spans_readEnum _ _).sized fun _ => ?_
  refine (spans_readEnum _ _).sized fun _ => extent_text.sized fun _ => ?_
  refine spans_checkOk.sized fun _ => spans_pure ⟨rfl, ?_⟩
  simp only [putFooter, List.length_append, length_u8, length_bool, Nat.add_assoc, Nat.add_zero]

/-- A message takes as many bytes as it is written in. -/
theorem extent_message : Extent getMessage encodePayload := by
  refine spans_u8.sized fun _ => spans_checkOk.sized fun _ => spans_enum.sized fun t => ?_
  refine (extent_body t).bind fun b => spans_checkOk.sized fun _ => ?_
  refine (extent_footer b).mono ?_
  rintro m n ⟨hbody, rfl⟩ k ⟨-, rfl⟩
  rw [encodePayload, hbody]
  simp only [List.length_append, length_u8, Nat.add_assoc, Nat.zero_add]

theorem settles_message : Settles getMessage := by
  unfold getMessage getFooter
  refine settles_bind fun _ => settles_bind fun _ => settles_bind fun _ => ?_
  refine settles_bind fun _ => settles_bind fun _ => settles_bind fun _ => ?_
  refine settles_bind fun _ => settles_bind fun _ => settles_bind fun _ => ?_
  refine (settles_check _).bind ?_
  intro u r m r' h
  cases h
  rfl

/-! ## Payloads -/

/-- An accepted payload is as long as its message is written, and it is read from these bytes
whatever follows. -/
theorem decodePayload_extent {bytes : List UInt8} {m : Message}
    (h : decodePayload bytes = .ok (some m)) :
    bytes.length = (encodePayload m).length ∧ Reads getMessage bytes m := by
  unfold decodePayload at h
  split at h
  next m' r hget =>
    split_ifs at h with hrest
    · cases h
    · cases h
      obtain ⟨bs, hlen, hbytes, hreads⟩ := extent_message.eq_of_settles settles_message hget
      rw [not_not] at hrest
      rw [hrest, List.append_nil] at hbytes
      rw [hbytes]
      exact ⟨hlen, hreads⟩
  next => cases h
  next => cases h

theorem decodePayload_append {bytes extra : List UInt8} {m m' : Message}
    (h : decodePayload bytes = .ok (some m)) (h' : decodePayload (bytes ++ extra) = .ok (some m')) :
    extra = [] := by
  have hread := (decodePayload_extent h).2 extra ""
  unfold decodePayload at h'
  rw [hread] at h'
  dsimp only at h'
  split_ifs at h' with hrest
  · cases h'
  · exact not_not.mp hrest

/-! ## Accepted inputs -/

/-- None of the inputs continues another one. -/
def PrefixFree (accepted : Set (List UInt8)) : Prop :=
  ∀ b ∈ accepted, ∀ b' ∈ accepted, b <+: b' → b' = b

/-- The decoders of states and of messages accept no proper prefix and no proper extension of
what they accept. -/
theorem accepted_prefixFree :
    PrefixFree {b | ∃ s, decodeState b = .ok s} ∧
      PrefixFree {b | ∃ m, decodePayload b = .ok (some m)} := by
  constructor
  · rintro b ⟨s, hs⟩ b' ⟨s', hs'⟩ ⟨extra, rfl⟩
    rw [decodeState_append hs hs', List.append_nil]
  · rintro b ⟨m, hm⟩ b' ⟨m', hm'⟩ ⟨extra, rfl⟩
    rw [decodePayload_append hm hm', List.append_nil]

end FragmentationGovernor.Protocol
