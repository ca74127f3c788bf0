import FragmentationGovernor.Model.Persistence

/-! # Saved states read back

What the decoder makes of the bytes the encoder writes: the state itself, with the plans in
flight degraded, as long as the state respects the bounds that only the decoder checks. -/

namespace FragmentationGovernor.Codec

open Decoder

/-! ## Fields -/

theorem reads_u8 {v : ℕ} (h : v < 256) : Reads readU8 (u8 v) v := reads_word_u8 truncated h

theorem reads_u32 (v : ℕ) : Reads readU32 (u32 v) (v % 2 ^ 32) := reads_word_u32 truncated v

theorem reads_u32_of_lt {v : ℕ} (h : v < 2 ^ 32) : Reads readU32 (u32 v) v := by
  have hr := reads_u32 v
  rwa [Nat.mod_eq_of_lt h] at hr

theorem reads_u64 (v : UInt64) : Reads readU64 (u64 v) v := reads_word_u64 truncated v

theorem reads_flag (b : Bool) : Reads readFlag (bool b) b := reads_word_bool truncated b

theorem reads_checkReader : Reads checkReader [] () := reads_check _

theorem reads_checkFinite {v : Double} (h : v.isFinite = true) (which : String) :
    Reads (checkFinite v which) [] v := by
  unfold checkFinite
  rw [h]
  exact reads_pure v

theorem reads_outcome (v : VerificationOutcome) (e : String) :
    Reads (do enum VerificationOutcome.ofNat 6 e (← readU8)) (u8 v.ctorIdx) v := by
  have h := reads_ordinal truncated VerificationOutcome.ofNat e (show 6 < 256 by decide)
    (show v.ctorIdx ≤ 6 by cases v <;> decide)
  rwa [VerificationOutcome.ofNat_ctorIdx] at h

theorem reads_kind (k : ActionKind) : Reads decodeKind (u8 k.ctorIdx) k := by
  have h := reads_ordinal truncated ActionKind.ofNat "invalid action kind enum"
    (show 18 < 256 by decide) (show k.ctorIdx ≤ 18 by cases k <;> decide)
  rwa [ActionKind.ofNat_ctorIdx] at h

/-- The flag of a verification and the outcome behind it. -/
def encodeOutcome : Option VerificationOutcome → List UInt8
  | none => u8 0
  | some v => u8 1 ++ u8 v.ctorIdx

theorem reads_verification (v : Option VerificationOutcome) (e : String) :
    Reads (optional readFlag do enum VerificationOutcome.ofNat 6 e (← readU8))
      (encodeOutcome v) v := by
  cases v with
  | none => exact reads_optional_none (reads_flag false)
  | some v => exact reads_optional_some (reads_flag true) (reads_outcome v e)

/-! ## Plans -/

/-- The scores of the plan are finite. -/
structure FiniteScores (p : PersistedPlan) : Prop where
  benefit : p.benefit.isFinite = true
  cost : p.cost.isFinite = true
  risk : p.risk.isFinite = true
  disruption : p.disruption.isFinite = true

def encodeHead (p : PersistedPlan) : List UInt8 :=
  u64 p.id.value ++ (u64 p.generation.value ++ (u64 p.domain.value ++
    (u8 p.state.ctorIdx ++ encodeOutcome p.verification)))

def encodeFields (p : PersistedPlan) : List UInt8 :=
  u64 p.policyGeneration.value ++ (u64 p.epoch.value ++ (u64 p.basedOnSnapshot.value ++
    (u64 p.expectedCapacityRecovered.value ++ (u64 p.benefit.bits ++ (u64 p.cost.bits ++
    (u64 p.risk.bits ++ (u64 p.disruption.bits ++ u32 p.actionCount.toNat)))))))

def encodeKinds (ks : List ActionKind) : List UInt8 := ks.flatMap (fun k => u8 k.ctorIdx)

/-- A plan with any number written for the length of its list. -/
def encodeRecord (p : PersistedPlan) (n : ℕ) (ks : List ActionKind) : List UInt8 :=
  encodeHead p ++ (encodeFields p ++ (u32 n ++ encodeKinds ks))

theorem encodePlan_eq (p : PersistedPlan) :
    encodePlan p = encodeRecord p p.actionKinds.length p.actionKinds := by
  cases hv : p.verification with
  | none =>
      simp only [encodePlan, encodeRecord, encodeHead, encodeFields, encodeOutcome, encodeKinds, hv,
        List.append_assoc]
  | some v =>
      simp only [encodePlan, encodeRecord, encodeHead, encodeFields, encodeOutcome, encodeKinds, hv,
        List.append_assoc]

/-- The part of a plan that its head says. -/
def headOf (p : PersistedPlan) : PersistedPlan :=
  { id := p.id, generation := p.generation, domain := p.domain, state := p.state,
    verification := p.verification }

theorem reads_planHead (p : PersistedPlan) :
    Reads decodePlanHead (encodeHead p) (headOf p) := by
  unfold decodePlanHead encodeHead
  refine (reads_u64 _).bind ?_
  refine (reads_u64 _).bind ?_
  refine (reads_u64 _).bind ?_
  refine (reads_u8 (show p.state.ctorIdx < 256 by cases p.state <;> decide)).bind ?_
  refine (reads_enum (show p.state.ctorIdx ≤ 18 by cases p.state <;> decide)).bind_nil ?_
  rw [PlanState.ofNat_ctorIdx]
  exact (reads_verification _ _).bind_pure

/-- A plan as it is read: its action count keeps what its field can hold. -/
def wrapped (p : PersistedPlan) : PersistedPlan :=
  { p with actionCount := Quantity.ofNat (p.actionCount.toNat % 2 ^ 32) }

theorem wrapped_eq {p : PersistedPlan} (h : p.actionCount.toNat < 2 ^ 32) : wrapped p = p := by
  have hcount : (Quantity.ofNat (p.actionCount.toNat % 2 ^ 32) : Count) = p.actionCount := by
    rw [Nat.mod_eq_of_lt h]
    exact Quantity.eq_iff.mpr (Quantity.toNat_ofNat p.actionCount.toNat_lt)
  rw [wrapped, hcount]

theorem reads_planFields {p : PersistedPlan} (h : FiniteScores p) :
    Reads (decodePlanFields (headOf p)) (encodeFields p) { wrapped p with actionKinds := [] } := by
  unfold decodePlanFields encodeFields
  refine (reads_u64 _).bind ?_
  refine (reads_u64 _).bind ?_
  refine (reads_u64 _).bind ?_
  refine (reads_u64 _).bind ?_
  refine (reads_u64 _).bind ?_
  refine (reads_u64 _).bind ?_
  refine (reads_u64 _).bind ?_
  refine (reads_u64 _).bind ?_
  refine (reads_checkFinite h.benefit _).bind_nil ?_
  refine (reads_checkFinite h.cost _).bind_nil ?_
  refine (reads_checkFinite h.risk _).bind_nil ?_
  refine (reads_checkFinite h.disruption _).bind_nil ?_
  refine reads_checkReader.bind_nil ?_
  exact (reads_u32 p.actionCount.toNat).bind_pure

/-- A plan is read with the kinds its length field announces. -/
theorem reads_record {p : PersistedPlan} (h : FiniteScores p) {n : ℕ} {ks : List ActionKind}
    (hn : n % 2 ^ 32 = ks.length) (hk : ks.length ≤ maxCount) :
    Reads decodePlan (encodeRecord p n ks) { wrapped p with actionKinds := ks } := by
  have hkinds : Reads (times decodeKind ks.length) (encodeKinds ks) ks := by
    have hr := Reads.times (g := id) (fun k (_ : k ∈ ks) => reads_kind k)
    rwa [List.map_id] at hr
  have hlen := reads_u32 n
  rw [hn] at hlen
  refine (reads_planHead p).bind ((reads_planFields h).bind (hlen.bind ?_))
  refine (reads_demand hk).bind_nil ?_
  have hdone : Reads (do checkReader; pure { wrapped p with actionKinds := ks } :
      Decoder String PersistedPlan) [] { wrapped p with actionKinds := ks } :=
    reads_checkReader.bind_nil (reads_pure _)
  have hall := hkinds.bind (f := fun ks => do
    checkReader
    pure { wrapped p with actionKinds := ks }) hdone
  rwa [List.append_nil] at hall

theorem fails_record {p : PersistedPlan} (h : FiniteScores p) {n : ℕ}
    (hn : maxCount < n % 2 ^ 32) (ks : List ActionKind) :
    Fails decodePlan (encodeRecord p n ks) := by
  refine (reads_planHead p).bind_fails ((reads_planFields h).bind_fails ?_)
  exact (reads_u32 n).bind_fails (((fails_demand (by omega)).bind _).append _)

theorem reads_plan {p : PersistedPlan} (h : FiniteScores p)
    (hk : p.actionKinds.length ≤ maxCount) : Reads decodePlan (encodePlan p) (wrapped p) := by
  have hlt : p.actionKinds.length < 2 ^ 32 := by
    unfold maxCount at hk
    omega
  have hr := reads_record h (Nat.mod_eq_of_lt hlt) hk
  rwa [← encodePlan_eq] at hr

theorem fails_plan {p : PersistedPlan} (h : FiniteScores p)
    (hlt : p.actionKinds.length < 2 ^ 32) (hk : maxCount < p.actionKinds.length) :
    Fails decodePlan (encodePlan p) := by
  rw [encodePlan_eq]
  exact fails_record h (by rwa [Nat.mod_eq_of_lt hlt]) _

/-! ## Reservations and verifications -/

/-- A reservation is read as reported, whatever its provenance was. -/
def asReported (r : Reservation) : Reservation := { r with provenance := .reported }

theorem reads_reservation {r : Reservation} (h : r.start < r.stop) :
    Reads decodeReservation (encodeReservation r) (asReported r) := by
  unfold decodeReservation encodeReservation
  simp only [List.append_assoc]
  refine (reads_u64 _).bind ?_
  refine (reads_u64 _).bind ?_
  refine (reads_u64 _).bind ?_
  refine (reads_u64 _).bind ?_
  refine (reads_u64 _).bind ?_
  refine (reads_u64 _).bind ?_
  refine (reads_flag _).bind ?_
  have hdone : Reads (do
      checkReader
      demand (¬ r.stop ≤ r.start) "reservation malformed interval"
      pure (asReported r)) [] (asReported r) :=
    reads_checkReader.bind_nil ((reads_demand (not_le.mpr h)).bind_nil (reads_pure _))
  have hall := (reads_flag r.policyProtected).bind (f := fun b => do
    checkReader
    demand (¬ r.stop ≤ r.start) "reservation malformed interval"
    pure { asReported r with policyProtected := b }) hdone
  rwa [List.append_nil] at hall

theorem reads_history (v : VerificationResultStub) :
    Reads decodeVerification (encodeVerification v) v := by
  unfold decodeVerification encodeVerification
  simp only [List.append_assoc]
  refine (reads_u64 _).bind ?_
  refine (reads_u8 (show v.outcome.ctorIdx < 256 by cases v.outcome <;> decide)).bind ?_
  refine (reads_enum (show v.outcome.ctorIdx ≤ 6 by cases v.outcome <;> decide)).bind_nil ?_
  rw [VerificationOutcome.ofNat_ctorIdx]
  exact (reads_u64 _).bind_pure

/-! ## Lists -/

theorem reads_list {α : Type} {p : Decoder String α} {enc : α → List UInt8} {g : α → α}
    {as : List α} (hlen : as.length ≤ maxCount) (hp : ∀ a ∈ as, Reads p (enc a) (g a))
    (missing tooLong : String) :
    Reads (decodeList p missing tooLong) (encodeList enc as) (as.map g) := by
  have hlt : as.length < 2 ^ 32 := by
    unfold maxCount at hlen
    omega
  refine (reads_u32_of_lt hlt).bind ?_
  exact (reads_check _).bind_nil ((reads_demand hlen).bind_nil (.times hp))

/-- A list is given up on when it is too long or one of its entries is given up on. -/
theorem fails_list {α : Type} {p : Decoder String α} {enc : α → List UInt8} {g : α → α}
    {as : List α} (hlt : as.length < 2 ^ 32)
    (hall : ∀ a ∈ as, Reads p (enc a) (g a) ∨ Fails p (enc a))
    (hbad : maxCount < as.length ∨ ∃ a ∈ as, Fails p (enc a)) (missing tooLong : String) :
    Fails (decodeList p missing tooLong) (encodeList enc as) := by
  refine (reads_u32_of_lt hlt).bind_fails ?_
  by_cases hlen : as.length ≤ maxCount
  · have hsome := hbad.resolve_left (not_lt.mpr hlen)
    exact (reads_check _).bind_nil_fails
      ((reads_demand hlen).bind_nil_fails (.times hall hsome))
  · exact (reads_check _).bind_nil_fails (((fails_demand hlen).bind _).append _)

/-! ## The whole state -/

/-- What both the encoder and the decoder ask of a state. -/
structure Sound (s : PersistedState) : Prop where
  finite : ∀ p ∈ s.plans, FiniteScores p
  intervals : ∀ r ∈ s.reservations, r.start < r.stop

/-- What the encoder asks of a state. -/
structure Savable (s : PersistedState) : Prop extends Sound s where
  verified : ∀ p ∈ s.plans, p.state = .completed → p.verification ≠ none

/-- What only the decoder asks of a state. -/
structure Readable (s : PersistedState) : Prop where
  plans : s.plans.length ≤ maxCount
  kinds : ∀ p ∈ s.plans, p.actionKinds.length ≤ maxCount
  reservations : s.reservations.length ≤ maxCount
  history : s.verificationHistory.length ≤ maxCount
  distinct : (s.plans.map (fun p => p.id)).Nodup

theorem forM_eq_ok_iff {α ε : Type} {f : α → Except ε Unit} {xs : List α} {u : Unit} :
    xs.forM f = .ok u ↔ ∀ x ∈ xs, f x = .ok () := by
  induction xs with
  | nil => exact iff_of_true rfl (by simp)
  | cons x xs ih =>
      change (f x >>= fun _ => xs.forM f) = .ok u ↔ _
      rw [bind_eq_ok, ih, List.forall_mem_cons]
      exact ⟨fun ⟨_, hx, hxs⟩ => ⟨hx, hxs⟩, fun ⟨hx, hxs⟩ => ⟨(), hx, hxs⟩⟩

theorem checkPlan_eq_ok_iff {p : PersistedPlan} :
    checkPlan p = .ok () ↔ (p.state = .completed → p.verification ≠ none) ∧ FiniteScores p := by
  unfold checkPlan
  by_cases hstate : p.state = .completed ∧ p.verification = none
  · rw [if_pos hstate]
    simp [hstate.1, hstate.2]
  · rw [if_neg hstate]
    have hver : p.state = .completed → p.verification ≠ none :=
      fun hs hn => hstate ⟨hs, hn⟩
    by_cases hfin : !p.benefit.isFinite ∨ !p.cost.isFinite ∨ !p.risk.isFinite ∨
        !p.disruption.isFinite
    · rw [if_pos hfin]
      refine iff_of_false (by simp) ?_
      rintro ⟨-, h⟩
      simp [h.benefit, h.cost, h.risk, h.disruption] at hfin
    · rw [if_neg hfin]
      simp only [not_or, Bool.not_eq_true', Bool.not_eq_false] at hfin
      exact iff_of_true rfl ⟨hver, hfin.1, hfin.2.1, hfin.2.2.1, hfin.2.2.2⟩

theorem checkReservation_eq_ok_iff {r : Reservation} :
    checkReservation r = .ok () ↔ r.start < r.stop := by
  unfold checkReservation
  by_cases h : r.stop ≤ r.start
  · rw [if_pos h]
    exact iff_of_false (by simp) (not_lt.mpr h)
  · rw [if_neg h]
    exact iff_of_true rfl (not_le.mp h)

theorem encodeState_eq_ok_iff {s : PersistedState} {bytes : List UInt8} :
    encodeState s = .ok bytes ↔
      Savable s ∧ bytes = encodeBody s ++ u32 (crc32 (encodeBody s)).toNat := by
  unfold encodeState
  simp only [bind_eq_ok, forM_eq_ok_iff, checkPlan_eq_ok_iff, checkReservation_eq_ok_iff,
    Except.ok.injEq]
  constructor
  · rintro ⟨-, hplans, -, hres, rfl⟩
    exact ⟨⟨⟨fun p hp => (hplans p hp).2, hres⟩, fun p hp => (hplans p hp).1⟩, rfl⟩
  · rintro ⟨h, rfl⟩
    exact ⟨(), fun p hp => ⟨h.verified p hp, h.finite p hp⟩, (), h.intervals, rfl⟩

/-- The state as it is read, before the plans in flight are degraded. -/
def asRead (s : PersistedState) : PersistedState :=
  { s with
    plans := s.plans.map wrapped
    reservations := s.reservations.map asReported
    needsRevalidation := true }

section Body

variable {s : PersistedState}

theorem reads_plans (hsound : Sound s) (hlen : s.plans.length ≤ maxCount)
    (hkinds : ∀ p ∈ s.plans, p.actionKinds.length ≤ maxCount) :
    Reads (decodeList decodePlan "truncated plan count" "plan count exceeds bound")
      (encodeList encodePlan s.plans) (s.plans.map wrapped) :=
  reads_list hlen (fun p hp => reads_plan (hsound.finite p hp) (hkinds p hp)) _ _

theorem reads_reservations (hsound : Sound s) (hlen : s.reservations.length ≤ maxCount) :
    Reads (decodeList decodeReservation "truncated reservation count"
        "reservation count exceeds bound")
      (encodeList encodeReservation s.reservations) (s.reservations.map asReported) :=
  reads_list hlen (fun r hr => reads_reservation (hsound.intervals r hr)) _ _

theorem reads_verifications (hlen : s.verificationHistory.length ≤ maxCount) :
    Reads (decodeList decodeVerification "truncated verification count"
        "verification count exceeds bound")
      (encodeList encodeVerification s.verificationHistory) s.verificationHistory := by
  have h := reads_list (g := id) hlen (fun v _ => reads_history v)
    "truncated verification count" "verification count exceeds bound"
  rwa [List.map_id] at h

theorem map_id_wrapped (ps : List PersistedPlan) :
    (ps.map wrapped).map (fun p => p.id) = ps.map (fun p => p.id) := by
  rw [List.map_map]
  rfl

/-- The decoder after its header, as the state goes through it list by list. -/
theorem reads_body (hsound : Sound s) (hread : Readable s) :
    Reads decodeBody (encodeBody s) (asRead s) := by
  have hdistinct : ((s.plans.map wrapped).map (fun p => p.id)).Nodup := by
    rw [map_id_wrapped]
    exact hread.distinct
  unfold decodeBody decodeTail encodeBody
  simp only [List.append_assoc]
  refine (reads_u32_of_lt (by decide)).bind ?_
  refine (reads_u32_of_lt (by decide)).bind ?_
  refine (reads_check _).bind_nil ?_
  refine (reads_demand rfl).bind_nil ?_
  refine (reads_demand rfl).bind_nil ?_
  refine (reads_plans hsound hread.plans hread.kinds).bind ?_
  refine (reads_reservations hsound hread.reservations).bind ?_
  refine (reads_verifications hread.history).bind ?_
  refine (reads_u64 _).bind ?_
  refine (reads_u64 _).bind ?_
  refine (reads_u64 _).bind ?_
  refine (reads_u64 _).bind ?_
  refine (reads_u64 _).bind ?_
  refine (reads_u64 _).bind ?_
  have hdone : Reads (do
      check (fun _ => "truncated generations trailer")
      demand (((s.plans.map wrapped).map (fun p => p.id)).Nodup) "duplicate plan id"
      pure (asRead s)) [] (asRead s) :=
    (reads_check _).bind_nil ((reads_demand hdistinct).bind_nil (reads_pure _))
  have hall := (reads_flag s.carriedLiveDynamicState).bind (f := fun b => do
    check (fun _ => "truncated generations trailer")
    demand (((s.plans.map wrapped).map (fun p => p.id)).Nodup) "duplicate plan id"
    pure { asRead s with carriedLiveDynamicState := b }) hdone
  rwa [List.append_nil] at hall

/-- Every list of the state is shorter than a length field can count. -/
structure Narrow (s : PersistedState) : Prop where
  plans : s.plans.length < 2 ^ 32
  kinds : ∀ p ∈ s.plans, p.actionKinds.length < 2 ^ 32
  reservations : s.reservations.length < 2 ^ 32
  history : s.verificationHistory.length < 2 ^ 32

theorem fails_plans (hsound : Sound s) (hnarrow : Narrow s)
    (hbad : maxCount < s.plans.length ∨ ∃ p ∈ s.plans, maxCount < p.actionKinds.length) :
    Fails (decodeList decodePlan "truncated plan count" "plan count exceeds bound")
      (encodeList encodePlan s.plans) := by
  refine fails_list hnarrow.plans (g := wrapped) ?_ ?_ _ _
  · intro p hp
    rcases le_or_gt p.actionKinds.length maxCount with hk | hk
    · exact Or.inl (reads_plan (hsound.finite p hp) hk)
    · exact Or.inr (fails_plan (hsound.finite p hp) (hnarrow.kinds p hp) hk)
  · refine hbad.imp_right ?_
    rintro ⟨p, hp, hk⟩
    exact ⟨p, hp, fails_plan (hsound.finite p hp) (hnarrow.kinds p hp) hk⟩

/-- A state beyond the bounds of the decoder is given up on, as long as its lengths are
written truthfully. -/
theorem fails_body (hsound : Sound s) (hnarrow : Narrow s) (hread : ¬ Readable s) :
    Fails decodeBody (encodeBody s) := by
  unfold decodeBody decodeTail encodeBody
  simp only [List.append_assoc]
  refine (reads_u32_of_lt (by decide)).bind_fails ?_
  refine (reads_u32_of_lt (by decide)).bind_fails ?_
  refine (reads_check _).bind_nil_fails ?_
  refine (reads_demand rfl).bind_nil_fails ?_
  refine (reads_demand rfl).bind_nil_fails ?_
  by_cases hplans : maxCount < s.plans.length ∨ ∃ p ∈ s.plans, maxCount < p.actionKinds.length
  · exact ((fails_plans hsound hnarrow hplans).bind _).append _
  simp only [not_or, not_lt, not_exists, not_and] at hplans
  refine (reads_plans hsound hplans.1 hplans.2).bind_fails ?_
  by_cases hres : maxCount < s.reservations.length
  · exact ((fails_list hnarrow.reservations
      (fun r hr => Or.inl (reads_reservation (hsound.intervals r hr))) (Or.inl hres) _ _).bind
        _).append _
  refine (reads_reservations hsound (not_lt.mp hres)).bind_fails ?_
  by_cases hhist : maxCount < s.verificationHistory.length
  · exact ((fails_list (g := id) hnarrow.history (fun v _ => Or.inl (reads_history v))
      (Or.inl hhist) _ _).bind _).append _
  refine (reads_verifications (not_lt.mp hhist)).bind_fails ?_
  have hdup : ¬ ((s.plans.map wrapped).map (fun p => p.id)).Nodup := by
    rw [map_id_wrapped]
    intro hnodup
    exact hread ⟨hplans.1, hplans.2, not_lt.mp hres, not_lt.mp hhist, hnodup⟩
  refine (reads_u64 _).bind_fails ?_
  refine (reads_u64 _).bind_fails ?_
  refine (reads_u64 _).bind_fails ?_
  refine (reads_u64 _).bind_fails ?_
  refine (reads_u64 _).bind_fails ?_
  refine (reads_u64 _).bind_fails ?_
  have hend := (reads_flag s.carriedLiveDynamicState).bind_fails (f := fun b => do
    check (fun _ => "truncated generations trailer")
    demand (((s.plans.map wrapped).map (fun p => p.id)).Nodup) "duplicate plan id"
    pure { asRead s with carriedLiveDynamicState := b })
    ((reads_check _).bind_nil_fails ((fails_demand hdup).bind _))
  rwa [List.append_nil] at hend

end Body

/-- A body closed by its checksum is accepted. -/
theorem decodeState_of_reads {body : List UInt8} {s : PersistedState}
    (h : Reads decodeBody body s) :
    decodeState (body ++ u32 (crc32 body).toNat) = .ok (degrade s) := by
  have hcrc := reads_u32_of_lt (crc32 body).toNat_lt [] ""
  rw [List.append_nil] at hcrc
  unfold decodeState
  rw [h, ok_bind]
  dsimp only
  rw [hcrc, ok_bind]
  simp

theorem decodeState_of_fails {body : List UInt8} (h : Fails decodeBody body) (tail : List UInt8) :
    ∃ e, decodeState (body ++ tail) = .error e := by
  obtain ⟨e, he⟩ := h tail ""
  refine ⟨e, ?_⟩
  unfold decodeState
  rw [he, error_bind]

/-! ## The round trip -/

/-- The states a restart does not trust. -/
def inFlightStates : List PlanState :=
  [.executing, .quiescing, .preservingState, .moving, .rebinding, .verifying, .approved]

/-- The state a restart goes on with. -/
def recovered (s : PersistedState) : PersistedState :=
  { s with
    plans := s.plans.map (fun p =>
      if p.state ∈ inFlightStates then { p with state := .revalidationRequired } else p)
    reservations := s.reservations.map (fun r => { r with provenance := .reported })
    needsRevalidation := true }

theorem degrades_iff {s : PlanState} : degrades s = true ↔ s ∈ inFlightStates := by
  cases s <;> decide

theorem degradePlan_eq (p : PersistedPlan) :
    degradePlan p =
      if p.state ∈ inFlightStates then { p with state := .revalidationRequired } else p := by
  unfold degradePlan
  simp only [degrades_iff]

theorem degrade_asRead {s : PersistedState}
    (hcount : ∀ p ∈ s.plans, p.actionCount.toNat < 2 ^ 32) : degrade (asRead s) = recovered s := by
  have hplans : (s.plans.map wrapped).map degradePlan = s.plans.map (fun p =>
      if p.state ∈ inFlightStates then { p with state := .revalidationRequired } else p) := by
    rw [List.map_map]
    refine List.map_congr_left ?_
    intro p hp
    rw [Function.comp_apply, wrapped_eq (hcount p hp), degradePlan_eq]
  unfold degrade asRead recovered
  rw [hplans]
  rfl

theorem decodeState_body {s : PersistedState} (hsound : Sound s) (hread : Readable s)
    (hcount : ∀ p ∈ s.plans, p.actionCount.toNat < 2 ^ 32) :
    decodeState (encodeBody s ++ u32 (crc32 (encodeBody s)).toNat) = .ok (recovered s) := by
  rw [decodeState_of_reads (reads_body hsound hread), degrade_asRead hcount]

/-- What the encoder writes for a state within the bounds of the decoder is read back as the
same state, up to what a restart does not trust. -/
theorem decodeState_encodeState {s : PersistedState} {bytes : List UInt8}
    (henc : encodeState s = .ok bytes) (hread : Readable s)
    (hcount : ∀ p ∈ s.plans, p.actionCount.toNat < 2 ^ 32) :
    decodeState bytes = .ok (recovered s) := by
  obtain ⟨hsave, rfl⟩ := encodeState_eq_ok_iff.mp henc
  exact decodeState_body hsave.toSound hread hcount

/-- A plan in flight with one action, and a reservation of measured provenance. -/
def sampleState : PersistedState where
  plans := [{ id := ⟨7⟩, state := .executing, actionCount := 1, actionKinds := [.releaseUnused] }]
  reservations := [{ id := ⟨3⟩, stop := 1, provenance := .measured }]

theorem savable_sampleState : Savable sampleState := by
  refine ⟨⟨?_, ?_⟩, ?_⟩
  · intro p hp
    rw [List.mem_singleton.mp hp]
    exact ⟨by decide, by decide, by decide, by decide⟩
  · intro r hr
    rw [List.mem_singleton.mp hr]
    decide
  · intro p hp
    rw [List.mem_singleton.mp hp]
    intro hstate
    cases hstate

theorem readable_sampleState : Readable sampleState := by
  refine ⟨by decide, ?_, by decide, by decide, by decide⟩
  intro p hp
  rw [List.mem_singleton.mp hp]
  decide

theorem counts_sampleState : ∀ p ∈ sampleState.plans, p.actionCount.toNat < 2 ^ 32 := by
  intro p hp
  rw [List.mem_singleton.mp hp]
  decide

theorem decodeState_encodeState_sampleState :
    ∃ bytes, encodeState sampleState = .ok bytes ∧
      decodeState bytes = .ok (recovered sampleState) := by
  have henc := encodeState_eq_ok_iff.mpr ⟨savable_sampleState, rfl⟩
  exact ⟨_, henc, decodeState_encodeState henc readable_sampleState counts_sampleState⟩

/-! ## What the decoder returns -/

theorem yields_u32 : Yields readU32 (fun v => v < 2 ^ 32) := yields_word truncated 4

theorem yields_checkFinite (v : Double) (which : String) :
    Yields (checkFinite v which) (fun d => d.isFinite = true) := by
  unfold checkFinite
  cases h : v.isFinite with
  | false => exact yields_bind (fun _ => yields_pure (by decide))
  | true => exact yields_pure h

theorem yields_planFields (p : PersistedPlan) : Yields (decodePlanFields p)
    (fun p => FiniteScores p ∧ p.actionCount.toNat < 2 ^ 32) := by
  unfold decodePlanFields
  refine yields_bind fun _ => yields_bind fun _ => yields_bind fun _ => yields_bind fun _ => ?_
  refine yields_bind fun _ => yields_bind fun _ => yields_bind fun _ => yields_bind fun _ => ?_
  refine (yields_checkFinite _ _).bind fun benefit hbenefit => ?_
  refine (yields_checkFinite _ _).bind fun cost hcost => ?_
  refine (yields_checkFinite _ _).bind fun risk hrisk => ?_
  refine (yields_checkFinite _ _).bind fun disruption hdisruption => ?_
  refine yields_bind fun _ => yields_u32.bind fun n hn => yields_pure ?_
  refine ⟨⟨hbenefit, hcost, hrisk, hdisruption⟩, ?_⟩
  rw [Quantity.toNat_ofNat (by omega)]
  exact hn

theorem yields_plan : Yields decodePlan (fun p =>
    FiniteScores p ∧ p.actionCount.toNat < 2 ^ 32 ∧ p.actionKinds.length ≤ maxCount) := by
  refine yields_bind fun p => (yields_planFields p).bind fun p hp => ?_
  refine yields_bind fun n => yields_demand.bind fun _ hn => ?_
  refine (Yields.times (Q := fun _ => True) (fun _ _ _ _ => trivial) n).bind fun ks hks => ?_
  obtain ⟨hfin, hcount⟩ := hp
  refine yields_bind fun _ => yields_pure ⟨?_, hcount, ?_⟩
  · exact ⟨hfin.benefit, hfin.cost, hfin.risk, hfin.disruption⟩
  · rw [hks.1]
    exact hn

theorem yields_reservation : Yields decodeReservation
    (fun r => r.start < r.stop ∧ r.provenance = .reported) := by
  unfold decodeReservation
  refine yields_bind fun _ => yields_bind fun _ => yields_bind fun _ => yields_bind fun _ => ?_
  refine yields_bind fun _ => yields_bind fun _ => yields_bind fun _ => yields_bind fun _ => ?_
  refine yields_bind fun _ => yields_demand.bind fun _ h => yields_pure ⟨not_le.mp h, rfl⟩

theorem yields_list {α : Type} {p : Decoder String α} {Q : α → Prop} (hp : Yields p Q)
    (missing tooLong : String) :
    Yields (decodeList p missing tooLong) (fun as => as.length ≤ maxCount ∧ ∀ a ∈ as, Q a) := by
  refine yields_bind fun n => yields_bind fun _ => yields_demand.bind fun _ hn => ?_
  intro r as r' h
  obtain ⟨hlen, hall⟩ := hp.times n r as r' h
  exact ⟨hlen.trans_le hn, hall⟩

/-- What the decoder checks or brings about by itself. -/
structure Wellread (s : PersistedState) : Prop where
  readable : Readable s
  finite : ∀ p ∈ s.plans, FiniteScores p
  counts : ∀ p ∈ s.plans, p.actionCount.toNat < 2 ^ 32
  intervals : ∀ r ∈ s.reservations, r.start < r.stop
  reported : ∀ r ∈ s.reservations, r.provenance = .reported
  revalidation : s.needsRevalidation = true

theorem yields_body : Yields decodeBody Wellread := by
  unfold decodeBody decodeTail
  refine yields_bind fun _ => yields_bind fun _ => yields_bind fun _ => yields_bind fun _ => ?_
  refine yields_bind fun _ => (yields_list yields_plan _ _).bind fun plans hplans => ?_
  refine (yields_list yields_reservation _ _).bind fun reservations hres => ?_
  refine (yields_list (Q := fun _ => True) (fun _ _ _ _ => trivial) _ _).bind fun history hh => ?_
  refine yields_bind fun _ => yields_bind fun _ => yields_bind fun _ => yields_bind fun _ => ?_
  refine yields_bind fun _ => yields_bind fun _ => yields_bind fun _ => yields_bind fun _ => ?_
  refine yields_demand.bind fun _ hdistinct => yields_pure ?_
  exact
    { readable := ⟨hplans.1, fun p hp => (hplans.2 p hp).2.2, hres.1, hh.1, hdistinct⟩
      finite := fun p hp => (hplans.2 p hp).1
      counts := fun p hp => (hplans.2 p hp).2.1
      intervals := fun r hr => (hres.2 r hr).1
      reported := fun r hr => (hres.2 r hr).2
      revalidation := rfl }

/-- An accepted input is a body and its checksum, and nothing else. -/
theorem decodeState_eq_ok {bytes : List UInt8} {s : PersistedState}
    (h : decodeState bytes = .ok s) :
    ∃ s₀ r stored r', decodeBody ⟨bytes, true, ""⟩ = .ok (s₀, r) ∧ readU32 r = .ok (stored, r') ∧
      r'.ok = true ∧ r'.rest = [] ∧ s = degrade s₀ := by
  unfold decodeState at h
  obtain ⟨⟨s₀, r⟩, hbody, h⟩ := bind_eq_ok.mp h
  obtain ⟨⟨stored, r'⟩, hcrc, h⟩ := bind_eq_ok.mp h
  dsimp only at h
  split_ifs at h with hok hstored hrest
  cases h
  exact ⟨s₀, r, stored, r', hbody, hcrc, by simpa using hok, not_not.mp hrest, rfl⟩

theorem degradePlan_id (p : PersistedPlan) : (degradePlan p).id = p.id := by
  unfold degradePlan
  split <;> rfl

theorem degradePlan_actionKinds (p : PersistedPlan) :
    (degradePlan p).actionKinds = p.actionKinds := by
  unfold degradePlan
  split <;> rfl

theorem degradePlan_actionCount (p : PersistedPlan) :
    (degradePlan p).actionCount = p.actionCount := by
  unfold degradePlan
  split <;> rfl

theorem degradePlan_state (p : PersistedPlan) : (degradePlan p).state ∉ inFlightStates := by
  rw [degradePlan_eq]
  split_ifs with h
  · change PlanState.revalidationRequired ∉ inFlightStates
    decide
  · exact h

theorem FiniteScores.degradePlan {p : PersistedPlan} (h : FiniteScores p) :
    FiniteScores (degradePlan p) := by
  unfold Codec.degradePlan
  split
  · exact ⟨h.benefit, h.cost, h.risk, h.disruption⟩
  · exact h

theorem Wellread.degrade {s : PersistedState} (h : Wellread s) : Wellread (degrade s) := by
  have hplan : ∀ p ∈ (Codec.degrade s).plans, ∃ q ∈ s.plans, degradePlan q = p :=
    fun p hp => List.mem_map.mp hp
  refine ⟨⟨?_, ?_, h.readable.reservations, h.readable.history, ?_⟩, ?_, ?_, h.intervals,
    h.reported, rfl⟩
  · exact (List.length_map _).trans_le h.readable.plans
  · intro p hp
    obtain ⟨q, hq, rfl⟩ := hplan p hp
    rw [degradePlan_actionKinds]
    exact h.readable.kinds q hq
  · change ((s.plans.map degradePlan).map (fun p => p.id)).Nodup
    rw [List.map_map, show (fun p : PersistedPlan => p.id) ∘ degradePlan = fun p => p.id from
      funext degradePlan_id]
    exact h.readable.distinct
  · intro p hp
    obtain ⟨q, hq, rfl⟩ := hplan p hp
    exact (h.finite q hq).degradePlan
  · intro p hp
    obtain ⟨q, hq, rfl⟩ := hplan p hp
    rw [degradePlan_actionCount]
    exact h.counts q hq

/-- Whatever bytes are accepted, the state they yield is well read and has no plan in
flight. -/
theorem wellread_of_decodeState {bytes : List UInt8} {s : PersistedState}
    (h : decodeState bytes = .ok s) :
    Wellread s ∧ ∀ p ∈ s.plans, p.state ∉ inFlightStates := by
  obtain ⟨s₀, r, stored, r', hbody, -, -, -, rfl⟩ := decodeState_eq_ok h
  refine ⟨(yields_body _ s₀ r hbody).degrade, ?_⟩
  intro p hp
  obtain ⟨q, -, rfl⟩ := List.mem_map.mp hp
  exact degradePlan_state q

/-! ## Which saved states are read back -/

/-- A saved state is read back as what was written exactly when it respects the bounds of the
decoder; and with lists that the length fields can count, those are the states the decoder
accepts at all. -/
theorem encoded_accepted_iff {s : PersistedState} {bytes : List UInt8}
    (henc : encodeState s = .ok bytes) :
    (decodeState bytes = .ok (degrade (asRead s)) ↔ Readable s) ∧
      (Narrow s → ((∃ st, decodeState bytes = .ok st) ↔ Readable s)) := by
  obtain ⟨hsave, rfl⟩ := encodeState_eq_ok_iff.mp henc
  have hback : Readable s → decodeState (encodeBody s ++ u32 (crc32 (encodeBody s)).toNat) =
      .ok (degrade (asRead s)) := fun h => decodeState_of_reads (reads_body hsave.toSound h)
  refine ⟨⟨?_, hback⟩, ?_⟩
  · intro h
    have hread := (wellread_of_decodeState h).1.readable
    refine ⟨?_, ?_, ?_, hread.history, ?_⟩
    · have hlen := hread.plans
      rwa [degrade, asRead, List.length_map, List.length_map] at hlen
    · intro p hp
      have hk := hread.kinds (degradePlan (wrapped p))
        (List.mem_map_of_mem (List.mem_map_of_mem hp))
      rwa [degradePlan_actionKinds] at hk
    · have hlen := hread.reservations
      rwa [degrade, asRead, List.length_map] at hlen
    · have hdistinct := hread.distinct
      rw [degrade, asRead, List.map_map, show (fun p : PersistedPlan => p.id) ∘ degradePlan =
        fun p => p.id from funext degradePlan_id, map_id_wrapped] at hdistinct
      exact hdistinct
  · intro hnarrow
    refine ⟨?_, fun h => ⟨_, hback h⟩⟩
    rintro ⟨st, hst⟩
    by_contra hread
    obtain ⟨e, he⟩ := decodeState_of_fails (fails_body hsave.toSound hnarrow hread)
      (u32 (crc32 (encodeBody s)).toNat)
    rw [he] at hst
    cases hst

/-- The condition is met by the state with one plan. -/
theorem encoded_accepted_iff_sampleState :
    Readable sampleState ∧ ∃ bytes, encodeState sampleState = .ok bytes ∧
      decodeState bytes = .ok (degrade (asRead sampleState)) := by
  have henc := encodeState_eq_ok_iff.mpr ⟨savable_sampleState, rfl⟩
  exact ⟨readable_sampleState, _, henc,
    (encoded_accepted_iff henc).1.mpr readable_sampleState⟩

/-- Two plans of one id are saved without complaint. -/
def twinState : PersistedState where
  plans := [{}, {}]

theorem encoded_rejected :
    ¬ ∀ (s : PersistedState) (bytes : List UInt8), encodeState s = .ok bytes →
      ∃ st, decodeState bytes = .ok st := by
  intro h
  have hplan : ∀ p ∈ twinState.plans, p = {} := by
    intro p hp
    simpa [twinState] using hp
  have hsave : Savable twinState := by
    refine ⟨⟨?_, by simp [twinState]⟩, ?_⟩
    · intro p hp
      rw [hplan p hp]
      exact ⟨by decide, by decide, by decide, by decide⟩
    · intro p hp hstate
      rw [hplan p hp] at hstate
      cases hstate
  have hnarrow : Narrow twinState := by
    refine ⟨by decide, ?_, by decide, by decide⟩
    intro p hp
    rw [hplan p hp]
    decide
  have hread : ¬ Readable twinState := fun hr => absurd hr.distinct (by decide)
  obtain ⟨st, hst⟩ := h twinState _ (encodeState_eq_ok_iff.mpr ⟨hsave, rfl⟩)
  obtain ⟨e, he⟩ := decodeState_of_fails (fails_body hsave.toSound hnarrow hread)
    (u32 (crc32 (encodeBody twinState)).toNat)
  rw [he] at hst
  cases hst

end FragmentationGovernor.Codec
