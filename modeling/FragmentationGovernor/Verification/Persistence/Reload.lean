import FragmentationGovernor.Verification.Persistence.RoundTrip

/-! # Loaded states

What the bytes of an accepted file say about the state loaded from them, whether that state
can be saved again and whether a coordinator can be recovered from it. -/

namespace FragmentationGovernor.Codec

open Decoder

/-! ## Records of plans

A plan takes 98 bytes, one more for the outcome of a verification, and one for each of its
action kinds. Its state is the byte at offset 24 and the flag of its verification the next. -/

/-- The bytes of the outcome in the record in front. -/
def outcomeBytes (bs : List UInt8) : ℕ := if bs[25]? = some 0 then 0 else 1

/-- The number of action kinds the record in front announces. -/
def kindCount (bs : List UInt8) : ℕ := number ((bs.drop (94 + outcomeBytes bs)).take 4)

def recordLength (bs : List UInt8) : ℕ := 98 + outcomeBytes bs + kindCount bs

/-- The input from each of the next `n` records on. -/
def planRecords : ℕ → List UInt8 → List (List UInt8)
  | 0, _ => []
  | n + 1, bs => bs :: planRecords n (bs.drop (recordLength bs))

/-- The record in front is of a COMPLETED plan with the flag of its verification cleared. -/
def Unverified (bs : List UInt8) : Prop := bs[24]? = some 11 ∧ bs[25]? = some 0

/-! ## Reading one record -/

theorem consumes_u64 : Consumes readU64 8 (fun _ => True) := by
  intro r v r' h hok
  obtain ⟨hr, -, hbytes⟩ := (consumes_word truncated 8).map UInt64.ofNat r v r' h hok
  exact ⟨hr, trivial, hbytes⟩

theorem consumes_u32 : Consumes readU32 4 (fun _ => True) := consumes_word truncated 4

theorem consumes_checkReader : Consumes checkReader 0 (fun _ => True) := consumes_check _

theorem readU8_eq_ok {r r' : Reader} {v : ℕ} (h : readU8 r = .ok (v, r')) (hok : r'.ok = true) :
    r.ok = true ∧ ∃ b, r.rest = b :: r'.rest ∧ v = b.toNat := by
  obtain ⟨hr, bs, hlen, hrest, rfl⟩ := word_eq_ok h hok
  obtain ⟨b, rfl⟩ := List.length_eq_one_iff.mp hlen
  exact ⟨hr, b, hrest, by simp [number_cons]⟩

theorem consumes_checkFinite (v : Double) (which : String) :
    Consumes (checkFinite v which) 0 (fun _ => True) := by
  intro r d r' h hok
  unfold checkFinite at h
  cases hfin : v.isFinite with
  | false =>
      rw [hfin] at h
      cases h
      cases hok
  | true =>
      rw [hfin] at h
      cases h
      exact ⟨hok, trivial, [], rfl, rfl⟩

/-- The fields behind the head take 68 bytes and leave what the head said. -/
theorem consumes_planFields (p : PersistedPlan) : Consumes (decodePlanFields p) 68
    (fun q => q.state = p.state ∧ q.verification = p.verification) := by
  unfold decodePlanFields
  refine consumes_bind (n := 8) (k := 60) consumes_u64 fun _ => ?_
  refine consumes_bind (n := 8) (k := 52) consumes_u64 fun _ => ?_
  refine consumes_bind (n := 8) (k := 44) consumes_u64 fun _ => ?_
  refine consumes_bind (n := 8) (k := 36) consumes_u64 fun _ => ?_
  refine consumes_bind (n := 8) (k := 28) consumes_u64 fun _ => ?_
  refine consumes_bind (n := 8) (k := 20) consumes_u64 fun _ => ?_
  refine consumes_bind (n := 8) (k := 12) consumes_u64 fun _ => ?_
  refine consumes_bind (n := 8) (k := 4) consumes_u64 fun _ => ?_
  refine consumes_bind (n := 0) (k := 4) (consumes_checkFinite _ _) fun _ => ?_
  refine consumes_bind (n := 0) (k := 4) (consumes_checkFinite _ _) fun _ => ?_
  refine consumes_bind (n := 0) (k := 4) (consumes_checkFinite _ _) fun _ => ?_
  refine consumes_bind (n := 0) (k := 4) (consumes_checkFinite _ _) fun _ => ?_
  refine consumes_bind (n := 0) (k := 4) consumes_checkReader fun _ => ?_
  exact consumes_bind (n := 4) (k := 0) consumes_u32 fun _ => consumes_pure ⟨rfl, rfl⟩

theorem readFlag_eq_ok {r r' : Reader} {b : Bool} (h : readFlag r = .ok (b, r'))
    (hok : r'.ok = true) :
    r.ok = true ∧ ∃ f, r.rest = f :: r'.rest ∧ (b = false ↔ f = 0) := by
  obtain ⟨v, hv, rfl⟩ := map_eq_ok.mp h
  obtain ⟨hr, f, hrest, rfl⟩ := readU8_eq_ok hv hok
  refine ⟨hr, f, hrest, ?_⟩
  rw [decide_eq_false_iff_not, not_not]
  exact UInt8.toNat_inj (b := 0)

theorem planState_ofNat_eq_completed {v : ℕ} (h : v ≤ 18) :
    PlanState.ofNat v = .completed ↔ v = 11 := by
  interval_cases v <;> decide

/-- A verification takes its flag and, when that is set, one more byte. -/
theorem verification_eq_ok {r r' : Reader} {o : Option VerificationOutcome} {e : String}
    (h : optional readFlag (do enum VerificationOutcome.ofNat 6 e (← readU8)) r = .ok (o, r'))
    (hok : r'.ok = true) :
    r.ok = true ∧ ∃ f out, r.rest = f :: (out ++ r'.rest) ∧
      out.length = (if f = 0 then 0 else 1) ∧ (o = none ↔ f = 0) := by
  rcases optional_eq_ok h with ⟨r₁, v, hflag, hv, rfl⟩ | ⟨hflag, rfl⟩
  · obtain ⟨n, r₂, hn, hv⟩ := bind_ok_iff.mp hv
    obtain ⟨-, -, rfl⟩ := enum_eq_ok.mp hv
    obtain ⟨hr₁, b, hb, -⟩ := readU8_eq_ok hn hok
    obtain ⟨hr, f, hf, hzero⟩ := readFlag_eq_ok hflag hr₁
    have hne : ¬ f = 0 := fun h0 => by
      cases hzero.mpr h0
    refine ⟨hr, f, [b], ?_, ?_, ?_⟩
    · rw [hf, hb]
      rfl
    · rw [if_neg hne]
      rfl
    · exact iff_of_false (by simp) hne
  · obtain ⟨hr, f, hf, hzero⟩ := readFlag_eq_ok hflag hok
    have h0 : f = 0 := hzero.mp rfl
    exact ⟨hr, f, [], hf, by rw [if_pos h0]; rfl, iff_of_true rfl h0⟩

/-- The head takes 26 bytes, and one more behind a flag that is set. -/
theorem planHead_eq_ok {r r' : Reader} {p : PersistedPlan}
    (h : decodePlanHead r = .ok (p, r')) (hok : r'.ok = true) :
    r.ok = true ∧ ∃ head s f out, head.length = 24 ∧
      r.rest = head ++ (s :: f :: (out ++ r'.rest)) ∧
      out.length = (if f = 0 then 0 else 1) ∧
      (p.state = .completed ↔ s = 11) ∧ (p.verification = none ↔ f = 0) := by
  unfold decodePlanHead at h
  obtain ⟨id, r₁, h₁, h⟩ := bind_ok_iff.mp h
  obtain ⟨generation, r₂, h₂, h⟩ := bind_ok_iff.mp h
  obtain ⟨domain, r₃, h₃, h⟩ := bind_ok_iff.mp h
  obtain ⟨ordinal, r₄, h₄, h⟩ := bind_ok_iff.mp h
  obtain ⟨state, r₅, h₅, h⟩ := bind_ok_iff.mp h
  obtain ⟨verification, r₆, h₆, h⟩ := bind_ok_iff.mp h
  cases h
  obtain ⟨hr₅, f, out, hf, hout, hver⟩ := verification_eq_ok h₆ hok
  obtain ⟨hordinal, rfl, rfl⟩ := enum_eq_ok.mp h₅
  obtain ⟨hr₃, s, hs, rfl⟩ := readU8_eq_ok h₄ hr₅
  obtain ⟨hr₂, -, ds, hds, hrest₃⟩ := consumes_u64 _ _ _ h₃ hr₃
  obtain ⟨hr₁, -, gs, hgs, hrest₂⟩ := consumes_u64 _ _ _ h₂ hr₂
  obtain ⟨hr, -, is, his, hrest₁⟩ := consumes_u64 _ _ _ h₁ hr₁
  refine ⟨hr, is ++ (gs ++ ds), s, f, out, ?_, ?_, hout, ?_, hver⟩
  · simp [his, hgs, hds]
  · rw [hrest₁, hrest₂, hrest₃, hs, hf]
    simp
  · change PlanState.ofNat s.toNat = .completed ↔ _
    rw [planState_ofNat_eq_completed hordinal]
    exact UInt8.toNat_inj (b := 11)

theorem consumes_kind : Consumes decodeKind 1 (fun _ => True) := by
  intro r k r' h hok
  obtain ⟨v, r₁, hv, hk⟩ := bind_ok_iff.mp h
  obtain ⟨-, -, rfl⟩ := enum_eq_ok.mp hk
  obtain ⟨hr, b, hb, -⟩ := readU8_eq_ok hv hok
  exact ⟨hr, trivial, [b], rfl, hb⟩

/-- Reading a plan leaves an unfailed reader behind the record in front. -/
theorem decodePlan_eq_ok {r r' : Reader} {p : PersistedPlan} (h : decodePlan r = .ok (p, r')) :
    r'.ok = true ∧ r.ok = true ∧ recordLength r.rest ≤ r.rest.length ∧
      r'.rest = r.rest.drop (recordLength r.rest) ∧ kindCount r.rest ≤ maxCount ∧
      ((p.state = .completed ∧ p.verification = none) ↔ Unverified r.rest) := by
  unfold decodePlan at h
  obtain ⟨p₀, r₁, h₁, h⟩ := bind_ok_iff.mp h
  obtain ⟨p₁, r₂, h₂, h⟩ := bind_ok_iff.mp h
  obtain ⟨n, r₃, h₃, h⟩ := bind_ok_iff.mp h
  obtain ⟨_, r₄, h₄, h⟩ := bind_ok_iff.mp h
  obtain ⟨ks, r₅, h₅, h⟩ := bind_ok_iff.mp h
  obtain ⟨_, r₆, h₆, h⟩ := bind_ok_iff.mp h
  cases h
  obtain ⟨hok, rfl⟩ := check_eq_ok.mp h₆
  obtain ⟨hn, rfl⟩ := demand_eq_ok.mp h₄
  obtain ⟨hr₃, -, kinds, hkinds, hrest₃⟩ := consumes_kind.times n _ _ _ h₅ hok
  obtain ⟨hr₂, count, hcount, hrest₂, rfl⟩ := word_eq_ok h₃ hr₃
  obtain ⟨hr₁, hsame, fields, hfields, hrest₁⟩ := consumes_planFields p₀ _ _ _ h₂ hr₂
  obtain ⟨hr, head, s, f, out, hhead, hrest, hout, hstate, hver⟩ := planHead_eq_ok h₁ hr₁
  -- the record is its head, the fields, the length of its list and the kinds
  have hwhole : r.rest =
      (head ++ (s :: f :: (out ++ fields)) ++ (count ++ kinds)) ++ r'.rest := by
    rw [hrest, hrest₁, hrest₂, hrest₃]
    simp
  have hprefix : (head ++ (s :: f :: (out ++ fields))).length = 94 + out.length := by
    simp only [List.length_append, List.length_cons, hhead, hfields]
    omega
  have hs : r.rest[24]? = some s := by
    rw [hrest, List.getElem?_append_right (by omega), hhead]
    rfl
  have hf : r.rest[25]? = some f := by
    rw [hrest, List.getElem?_append_right (by omega), hhead]
    rfl
  have hbytes : outcomeBytes r.rest = out.length := by
    rw [outcomeBytes, hf, hout]
    simp only [Option.some.injEq]
  have hnumber : kindCount r.rest = number count := by
    rw [kindCount, hbytes, hwhole, List.append_assoc, List.drop_left' hprefix,
      List.append_assoc, List.take_left' hcount]
  have hlength : (head ++ (s :: f :: (out ++ fields)) ++ (count ++ kinds)).length =
      recordLength r.rest := by
    rw [recordLength, hbytes, hnumber, List.length_append, hprefix, List.length_append, hcount,
      hkinds]
    omega
  refine ⟨hok, hr, ?_, ?_, hnumber.trans_le hn, ?_⟩
  · have htotal := congrArg List.length hwhole
    rw [List.length_append, hlength] at htotal
    omega
  · conv_rhs => rw [hwhole]
    exact (List.drop_left' (hlength.trans (by rw [← hwhole]))).symm
  · rw [Unverified, hs, hf, Option.some.injEq, Option.some.injEq, ← hstate, ← hver, ← hsame.1,
      ← hsame.2]

/-! ## Reading all of them -/

theorem decodePlans_eq_ok {n : ℕ} {r r' : Reader} {ps : List PersistedPlan}
    (h : times decodePlan n r = .ok (ps, r')) :
    (∃ p ∈ ps, p.state = .completed ∧ p.verification = none) ↔
      ∃ bs ∈ planRecords n r.rest, Unverified bs := by
  induction n generalizing r ps with
  | zero =>
      cases h
      simp [planRecords]
  | succ n ih =>
      obtain ⟨p, r₁, hp, h⟩ := bind_ok_iff.mp h
      obtain ⟨qs, r₂, hqs, h⟩ := bind_ok_iff.mp h
      cases h
      obtain ⟨-, -, -, hrest, -, hunverified⟩ := decodePlan_eq_ok hp
      have hall := ih hqs
      rw [hrest] at hall
      simp only [List.mem_cons, exists_eq_or_imp, planRecords, hall, hunverified]

theorem yields_tail (plans : List PersistedPlan) :
    Yields (decodeTail plans) (fun s => s.plans = plans) := by
  unfold decodeTail
  refine yields_bind fun _ => yields_bind fun _ => yields_bind fun _ => yields_bind fun _ => ?_
  refine yields_bind fun _ => yields_bind fun _ => yields_bind fun _ => yields_bind fun _ => ?_
  exact yields_bind fun _ => yields_bind fun _ => yields_bind fun _ => yields_pure rfl

/-- The plans follow a header of eight bytes and their number. -/
theorem decodeBody_eq_ok {bytes : List UInt8} {err : String} {s : PersistedState} {r : Reader}
    (h : decodeBody ⟨bytes, true, err⟩ = .ok (s, r)) :
    ∃ r₁ r₂, r₁.ok = true ∧ r₁.rest = bytes.drop 12 ∧
      times decodePlan (number ((bytes.drop 8).take 4)) r₁ = .ok (s.plans, r₂) ∧
      decodeTail s.plans r₂ = .ok (s, r) := by
  unfold decodeBody at h
  obtain ⟨magic, ra, ha, h⟩ := bind_ok_iff.mp h
  obtain ⟨version, rb, hb, h⟩ := bind_ok_iff.mp h
  obtain ⟨_, rc, hc, h⟩ := bind_ok_iff.mp h
  obtain ⟨_, rd, hd, h⟩ := bind_ok_iff.mp h
  obtain ⟨_, re, he, h⟩ := bind_ok_iff.mp h
  obtain ⟨plans, r₂, hlist, htail⟩ := bind_ok_iff.mp h
  unfold decodeList at hlist
  obtain ⟨n, rf, hf, hlist⟩ := bind_ok_iff.mp hlist
  obtain ⟨_, rg, hg, hlist⟩ := bind_ok_iff.mp hlist
  obtain ⟨_, r₁, hh, hrecords⟩ := bind_ok_iff.mp hlist
  obtain ⟨-, rfl⟩ := demand_eq_ok.mp hh
  obtain ⟨hok, rfl⟩ := check_eq_ok.mp hg
  obtain ⟨-, rfl⟩ := demand_eq_ok.mp he
  obtain ⟨-, rfl⟩ := demand_eq_ok.mp hd
  obtain ⟨hrb, rfl⟩ := check_eq_ok.mp hc
  obtain ⟨-, count, hcount, hrest₃, rfl⟩ := word_eq_ok hf hok
  obtain ⟨hra, -, vs, hvs, hrest₂⟩ := consumes_u32 _ _ _ hb hrb
  obtain ⟨-, -, ms, hms, hrest₁⟩ := consumes_u32 _ _ _ ha hra
  have hplans : s.plans = plans := yields_tail plans _ _ _ htail
  have hbytes : bytes = (ms ++ vs) ++ (count ++ r₁.rest) := by
    rw [show bytes = ms ++ _ from hrest₁, hrest₂, hrest₃]
    simp
  have hheader : (ms ++ vs).length = 8 := by
    rw [List.length_append, hms, hvs]
  refine ⟨r₁, r₂, hok, ?_, ?_, ?_⟩
  · have hall : ((ms ++ vs) ++ count).length = 12 := by
      rw [List.length_append, hheader, hcount]
    rw [hbytes, ← List.append_assoc, List.drop_left' hall]
  · rw [hplans, hbytes, List.drop_left' hheader, List.take_left' hcount]
    exact hrecords
  · rw [hplans]
    exact htail

/-- The file holds the record of a COMPLETED plan without a verification. -/
def HoldsUnverified (bytes : List UInt8) : Prop :=
  ∃ bs ∈ planRecords (number ((bytes.drop 8).take 4)) (bytes.drop 12), Unverified bs

/-! ## Saving what was loaded -/

theorem degradePlan_unverified (p : PersistedPlan) :
    ((degradePlan p).state = .completed ∧ (degradePlan p).verification = none) ↔
      (p.state = .completed ∧ p.verification = none) := by
  rw [degradePlan_eq]
  split_ifs with h
  · refine iff_of_false (by simp) ?_
    rintro ⟨hstate, -⟩
    rw [hstate] at h
    revert h
    decide
  · rfl

theorem unverified_iff {bytes : List UInt8} {s : PersistedState} (h : decodeState bytes = .ok s) :
    (∃ p ∈ s.plans, p.state = .completed ∧ p.verification = none) ↔ HoldsUnverified bytes := by
  obtain ⟨s₀, r, stored, r', hbody, -, -, -, rfl⟩ := decodeState_eq_ok h
  obtain ⟨r₁, r₂, -, hrest, hplans, -⟩ := decodeBody_eq_ok hbody
  rw [HoldsUnverified, ← hrest, ← decodePlans_eq_ok hplans]
  constructor
  · rintro ⟨p, hp, hbad⟩
    obtain ⟨q, hq, rfl⟩ := List.mem_map.mp hp
    exact ⟨q, hq, (degradePlan_unverified q).mp hbad⟩
  · rintro ⟨q, hq, hbad⟩
    exact ⟨degradePlan q, List.mem_map_of_mem hq, (degradePlan_unverified q).mpr hbad⟩

/-- A well read state without plans in flight comes back from a restart unchanged. -/
theorem Wellread.recovered_eq {s : PersistedState} (h : Wellread s)
    (hstates : ∀ p ∈ s.plans, p.state ∉ inFlightStates) : recovered s = s := by
  have hplans : s.plans.map (fun p =>
      if p.state ∈ inFlightStates then { p with state := .revalidationRequired } else p) =
      s.plans := by
    conv_rhs => rw [← List.map_id s.plans]
    exact List.map_congr_left (fun p hp => if_neg (hstates p hp))
  have hres : s.reservations.map (fun r => { r with provenance := .reported }) =
      s.reservations := by
    conv_rhs => rw [← List.map_id s.reservations]
    refine List.map_congr_left ?_
    intro r hr
    rw [← h.reported r hr]
    rfl
  unfold recovered
  rw [hplans, hres, ← h.revalidation]

/-- A loaded state is well-formed and can be saved and loaded again exactly when the file
does not hold the record of a COMPLETED plan without a verification. -/
theorem loaded_savable_iff {bytes : List UInt8} {s : PersistedState}
    (h : decodeState bytes = .ok s) :
    ((∀ p ∈ s.plans, ¬ (p.state = .completed ∧ p.verification = none)) ∧
      ∃ bytes', encodeState s = .ok bytes' ∧ decodeState bytes' = .ok s) ↔
      ¬ HoldsUnverified bytes := by
  rw [← unverified_iff h]
  constructor
  · rintro ⟨hverified, -⟩ ⟨p, hp, hbad⟩
    exact hverified p hp hbad
  · intro hno
    have hverified : ∀ p ∈ s.plans, ¬ (p.state = .completed ∧ p.verification = none) :=
      fun p hp hbad => hno ⟨p, hp, hbad⟩
    obtain ⟨hwell, hstates⟩ := wellread_of_decodeState h
    have hsave : Savable s :=
      ⟨⟨hwell.finite, hwell.intervals⟩, fun p hp hstate hnone => hverified p hp ⟨hstate, hnone⟩⟩
    refine ⟨hverified, _, encodeState_eq_ok_iff.mpr ⟨hsave, rfl⟩, ?_⟩
    rw [decodeState_body hsave.toSound hwell.readable hwell.counts, hwell.recovered_eq hstates]

/-- The bytes of the state with one plan in flight. -/
def sampleBytes : List UInt8 :=
  encodeBody sampleState ++ u32 (crc32 (encodeBody sampleState)).toNat

theorem decodeState_sampleBytes : decodeState sampleBytes = .ok (recovered sampleState) :=
  decodeState_body savable_sampleState.toSound readable_sampleState counts_sampleState

/-- A COMPLETED plan with its verification, of benefit `0.5`, and a plan of benefit `0.25` that
is executing. -/
def verifiedState : PersistedState where
  plans :=
    [{ id := ⟨7⟩, state := .completed, verification := some .targetFitAchieved,
       benefit := ⟨0x3FE0000000000000⟩, cost := ⟨0x3FC0000000000000⟩ },
      { id := ⟨8⟩, state := .executing, actionCount := 1, actionKinds := [.releaseUnused],
        benefit := ⟨0x3FD0000000000000⟩, disruption := ⟨0x3FF0000000000000⟩ }]

theorem savable_verifiedState : Savable verifiedState := by
  refine ⟨⟨?_, by simp [verifiedState]⟩, by decide⟩
  intro p hp
  simp only [verifiedState, List.mem_cons, List.not_mem_nil, or_false] at hp
  rcases hp with rfl | rfl
  · exact ⟨by decide, by decide, by decide, by decide⟩
  · exact ⟨by decide, by decide, by decide, by decide⟩

theorem readable_verifiedState : Readable verifiedState :=
  ⟨by decide, by decide, by decide, by decide, by decide⟩

def verifiedBytes : List UInt8 :=
  encodeBody verifiedState ++ u32 (crc32 (encodeBody verifiedState)).toNat

theorem decodeState_verifiedBytes : decodeState verifiedBytes = .ok (recovered verifiedState) :=
  decodeState_body savable_verifiedState.toSound readable_verifiedState (by decide)

/-- The COMPLETED plan comes with its verification, so the state is saved again. -/
theorem loaded_savable_iff_verifiedBytes :
    (∃ p ∈ (recovered verifiedState).plans,
        p.state = .completed ∧ p.verification = some .targetFitAchieved) ∧
      (∀ p ∈ (recovered verifiedState).plans,
        ¬ (p.state = .completed ∧ p.verification = none)) ∧
      ∃ bytes', encodeState (recovered verifiedState) = .ok bytes' ∧
        decodeState bytes' = .ok (recovered verifiedState) := by
  have hno : ¬ HoldsUnverified verifiedBytes := by
    rw [← unverified_iff decodeState_verifiedBytes]
    decide
  exact ⟨by decide, (loaded_savable_iff decodeState_verifiedBytes).mpr hno⟩

/-- A COMPLETED plan that was never verified. -/
def unverifiedState : PersistedState where
  plans := [{ id := ⟨7⟩, state := .completed }]

theorem loaded_unverified :
    ¬ ∀ (bytes : List UInt8) (s : PersistedState), decodeState bytes = .ok s →
      (∀ p ∈ s.plans, ¬ (p.state = .completed ∧ p.verification = none)) ∧
        ∃ bytes', encodeState s = .ok bytes' ∧ decodeState bytes' = .ok s := by
  intro h
  have hplan : ∀ p ∈ unverifiedState.plans, p = { id := ⟨7⟩, state := .completed } :=
    fun p hp => List.mem_singleton.mp hp
  have hsound : Sound unverifiedState := by
    refine ⟨?_, by simp [unverifiedState]⟩
    intro p hp
    rw [hplan p hp]
    exact ⟨by decide, by decide, by decide, by decide⟩
  have hread : Readable unverifiedState := by
    refine ⟨by decide, ?_, by decide, by decide, by decide⟩
    intro p hp
    rw [hplan p hp]
    decide
  have hcount : ∀ p ∈ unverifiedState.plans, p.actionCount.toNat < 2 ^ 32 := by
    intro p hp
    rw [hplan p hp]
    decide
  have hverified := (h _ _ (decodeState_body hsound hread hcount)).1
  revert hverified
  decide

end FragmentationGovernor.Codec
