import FragmentationGovernor.Verification.Persistence.RoundTrip

/-! # The extent of a saved state

What the decoder accepts it has read to the end: the fields in front of the checksum take the
same bytes whatever follows them. -/

namespace FragmentationGovernor.Codec

open Decoder

/-! ## Fields -/

theorem spans_u8 : Spans readU8 (fun _ n => n = 1) := spans_word truncated 1

theorem spans_u32 : Spans readU32 (fun _ n => n = 4) := spans_word truncated 4

theorem spans_u64 : Spans readU64 (fun _ n => n = 8) := (spans_word truncated 8).map_fixed _

theorem spans_flag : Spans readFlag (fun _ n => n = 1) := spans_u8.map_fixed _

/-- A score that is not finite leaves a failed reader. -/
theorem spans_checkFinite (v : Double) (which : String) :
    Spans (checkFinite v which) (fun _ n => n = 0) := by
  unfold checkFinite
  split_ifs
  · exact (spans_mark _).sized fun _ => spans_pure rfl
  · exact spans_pure rfl

theorem spans_ordinal {α : Type} (ofNat : ℕ → α) (last : ℕ) (e : String) :
    Spans (do enum ofNat last e (← readU8)) (fun _ n => n = 1) :=
  spans_u8.sized fun _ => spans_enum.mono fun _ n hn => by rw [hn]

/-! ## Records -/

theorem spans_planHead : Spans decodePlanHead (fun _ _ => True) := by
  unfold decodePlanHead
  refine spans_u64.seq fun _ => spans_u64.seq fun _ => spans_u64.seq fun _ => ?_
  refine spans_u8.seq fun _ => spans_enum.seq fun _ => ?_
  refine (spans_flag.optional (spans_ordinal _ _ _)).seq fun _ => ?_
  exact spans_pure trivial

theorem spans_planFields (p : PersistedPlan) : Spans (decodePlanFields p) (fun _ _ => True) := by
  unfold decodePlanFields
  refine spans_u64.seq fun _ => spans_u64.seq fun _ => spans_u64.seq fun _ => ?_
  refine spans_u64.seq fun _ => spans_u64.seq fun _ => spans_u64.seq fun _ => ?_
  refine spans_u64.seq fun _ => spans_u64.seq fun _ => ?_
  refine (spans_checkFinite _ _).seq fun _ => (spans_checkFinite _ _).seq fun _ => ?_
  refine (spans_checkFinite _ _).seq fun _ => (spans_checkFinite _ _).seq fun _ => ?_
  exact (spans_check _).seq fun _ => spans_u32.seq fun _ => spans_pure trivial

theorem spans_plan : Spans decodePlan (fun _ _ => True) := by
  unfold decodePlan
  refine spans_planHead.seq fun _ => (spans_planFields _).seq fun _ => ?_
  refine spans_u32.seq fun n => spans_demand.seq fun _ => ?_
  refine ((spans_ordinal _ _ _).times n).seq fun _ => ?_
  exact (spans_check _).seq fun _ => spans_pure trivial

theorem spans_reservation : Spans decodeReservation (fun _ _ => True) := by
  unfold decodeReservation
  refine spans_u64.seq fun _ => spans_u64.seq fun _ => spans_u64.seq fun _ => ?_
  refine spans_u64.seq fun _ => spans_u64.seq fun _ => spans_u64.seq fun _ => ?_
  refine spans_flag.seq fun _ => spans_flag.seq fun _ => ?_
  exact (spans_check _).seq fun _ => spans_demand.seq fun _ => spans_pure trivial

theorem spans_verification : Spans decodeVerification (fun _ _ => True) := by
  unfold decodeVerification
  refine spans_u64.seq fun _ => spans_u8.seq fun _ => spans_enum.seq fun _ => ?_
  exact spans_u64.seq fun _ => spans_pure trivial

theorem spans_list {α : Type} {p : Decoder String α} {P : α → ℕ → Prop} (hp : Spans p P)
    (missing tooLong : String) : Spans (decodeList p missing tooLong) (fun _ _ => True) := by
  unfold decodeList
  refine spans_u32.seq fun n => (spans_check _).seq fun _ => spans_demand.seq fun _ => ?_
  exact (hp.times n).mono fun _ _ _ => trivial

/-! ## States -/

theorem spans_tail (plans : List PersistedPlan) : Spans (decodeTail plans) (fun _ _ => True) := by
  unfold decodeTail
  refine (spans_list spans_reservation _ _).seq fun _ => ?_
  refine (spans_list spans_verification _ _).seq fun _ => ?_
  refine spans_u64.seq fun _ => spans_u64.seq fun _ => spans_u64.seq fun _ => ?_
  refine spans_u64.seq fun _ => spans_u64.seq fun _ => spans_u64.seq fun _ => ?_
  refine spans_flag.seq fun _ => (spans_check _).seq fun _ => ?_
  exact spans_demand.seq fun _ => spans_pure trivial

theorem spans_body : Spans decodeBody (fun _ _ => True) := by
  unfold decodeBody
  refine spans_u32.seq fun _ => spans_u32.seq fun _ => (spans_check _).seq fun _ => ?_
  refine spans_demand.seq fun _ => spans_demand.seq fun _ => ?_
  exact (spans_list spans_plan _ _).seq fun plans => spans_tail plans

/-- The reader is asked after the last field. -/
theorem settles_tail (plans : List PersistedPlan) : Settles (decodeTail plans) := by
  unfold decodeTail
  refine settles_bind fun _ => settles_bind fun _ => settles_bind fun _ => ?_
  refine settles_bind fun _ => settles_bind fun _ => settles_bind fun _ => ?_
  refine settles_bind fun _ => settles_bind fun _ => settles_bind fun _ => ?_
  refine (settles_check _).bind ?_
  intro u r b r' h
  obtain ⟨u', r₁, hdemand, hpure⟩ := bind_ok_iff.mp h
  obtain ⟨-, rfl⟩ := demand_eq_ok.mp hdemand
  cases hpure
  rfl

theorem settles_body : Settles decodeBody := by
  unfold decodeBody
  refine settles_bind fun _ => settles_bind fun _ => settles_bind fun _ => ?_
  refine settles_bind fun _ => settles_bind fun _ => settles_bind fun plans => ?_
  exact settles_tail plans

/-- An accepted state is the fields it was read from and their checksum. -/
theorem decodeState_eq_append {bytes : List UInt8} {s : PersistedState}
    (h : decodeState bytes = .ok s) :
    ∃ body stored s', bytes = body ++ stored ∧ Reads decodeBody body s' ∧ stored.length = 4 ∧
      number stored = (crc32 body).toNat := by
  unfold decodeState at h
  rw [bind_eq_ok] at h
  obtain ⟨⟨s', r⟩, hbody, h⟩ := h
  obtain ⟨body, -, rfl, hreads⟩ := spans_body.eq_of_settles settles_body hbody
  have htake : (body ++ r.rest).take ((body ++ r.rest).length - r.rest.length) = body := by
    rw [List.length_append, Nat.add_sub_cancel]
    exact List.take_left
  dsimp only at h
  rw [htake, bind_eq_ok] at h
  obtain ⟨⟨v, r'⟩, hword, h⟩ := h
  dsimp only at h
  split_ifs at h with hok hcrc hrest
  rw [Bool.not_eq_true, Bool.not_eq_false'] at hok
  obtain ⟨-, stored, hlen, hsplit, rfl⟩ := word_eq_ok hword hok
  rw [not_not] at hcrc hrest
  rw [hrest, List.append_nil] at hsplit
  exact ⟨body, stored, s', by rw [hsplit], hreads, hlen, hcrc⟩

/-- What follows an accepted state is refused. -/
theorem decodeState_append {bytes extra : List UInt8} {s s' : PersistedState}
    (h : decodeState bytes = .ok s) (h' : decodeState (bytes ++ extra) = .ok s') : extra = [] := by
  obtain ⟨body, stored, t, rfl, hreads, hlen, -⟩ := decodeState_eq_append h
  obtain ⟨body', stored', t', hsplit, hreads', hlen', -⟩ := decodeState_eq_append h'
  have hfirst := hreads (stored ++ extra) ""
  have hsecond := hreads' stored' ""
  rw [← List.append_assoc, hsplit, hsecond] at hfirst
  have hrest : stored' = stored ++ extra := by
    simp only [Except.ok.injEq, Prod.mk.injEq, Reader.mk.injEq] at hfirst
    exact hfirst.2.1
  have hlength := congrArg List.length hrest
  rw [List.length_append, hlen, hlen'] at hlength
  exact List.eq_nil_of_length_eq_zero (by omega)

end FragmentationGovernor.Codec
