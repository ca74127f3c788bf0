import FragmentationGovernor.Verification.Persistence.Reload
import FragmentationGovernor.Verification.Planner.Order

/-! # Lists too long for their length field

The length of a list is written into four bytes. When a list is longer, the decoder reads
the wrong number of entries and goes on in the middle of the list. For the states of a
coordinator this is always noticed: the kinds of a plan are written in an order that leaves
nothing to misread but a stretch of zeros, which is too long to be passed over. -/

namespace FragmentationGovernor.Codec

open Decoder Planner

/-! ## What the decoder can pass over -/

theorem consumes_flag : Consumes readFlag 1 (fun _ => True) := by
  intro r b r' h hok
  obtain ⟨hr, f, hrest, -⟩ := readFlag_eq_ok h hok
  exact ⟨hr, trivial, [f], rfl, hrest⟩

theorem consumes_reservation : Consumes decodeReservation 50 (fun _ => True) := by
  unfold decodeReservation
  refine consumes_bind (n := 8) (k := 42) consumes_u64 fun _ => ?_
  refine consumes_bind (n := 8) (k := 34) consumes_u64 fun _ => ?_
  refine consumes_bind (n := 8) (k := 26) consumes_u64 fun _ => ?_
  refine consumes_bind (n := 8) (k := 18) consumes_u64 fun _ => ?_
  refine consumes_bind (n := 8) (k := 10) consumes_u64 fun _ => ?_
  refine consumes_bind (n := 8) (k := 2) consumes_u64 fun _ => ?_
  refine consumes_bind (n := 1) (k := 1) consumes_flag fun _ => ?_
  refine consumes_bind (n := 1) (k := 0) consumes_flag fun _ => ?_
  refine consumes_bind (n := 0) (k := 0) consumes_checkReader fun _ => ?_
  exact consumes_demand.bind (n := 0) (k := 0) fun _ => consumes_pure fun _ => trivial

theorem consumes_verification : Consumes decodeVerification 17 (fun _ => True) := by
  unfold decodeVerification
  refine consumes_bind (n := 8) (k := 9) consumes_u64 fun _ => ?_
  refine consumes_bind (n := 1) (k := 8) (consumes_word truncated 1) fun v => ?_
  have henum : Consumes (enum VerificationOutcome.ofNat 6 "invalid verification outcome enum" v :
      Decoder String VerificationOutcome) 0 (fun _ => True) :=
    consumes_demand.bind (n := 0) (k := 0) fun _ => consumes_pure fun _ => trivial
  refine consumes_bind (n := 0) (k := 8) henum fun _ => ?_
  exact consumes_bind (n := 8) (k := 0) consumes_u64 fun _ => consumes_pure trivial

theorem decodeList_length {α : Type} {p : Decoder String α} {k : ℕ}
    (hp : Consumes p k (fun _ => True)) {missing tooLong : String} {r r' : Reader} {as : List α}
    (h : decodeList p missing tooLong r = .ok (as, r')) (hok : r'.ok = true) :
    r.ok = true ∧ r.rest.length ≤ r'.rest.length + 4 + maxCount * k := by
  unfold decodeList at h
  obtain ⟨n, r₁, h₁, h⟩ := bind_ok_iff.mp h
  obtain ⟨_, r₂, h₂, h⟩ := bind_ok_iff.mp h
  obtain ⟨_, r₃, h₃, htimes⟩ := bind_ok_iff.mp h
  obtain ⟨hn, rfl⟩ := demand_eq_ok.mp h₃
  obtain ⟨hr₁, rfl⟩ := check_eq_ok.mp h₂
  obtain ⟨-, -, bs, hbs, hrest₁⟩ := hp.times n _ _ _ htimes hok
  obtain ⟨hr, -, cs, hcs, hrest⟩ := consumes_u32 _ _ _ h₁ hr₁
  refine ⟨hr, ?_⟩
  have hmul : n * k ≤ maxCount * k := Nat.mul_le_mul_right k hn
  rw [hrest, hrest₁, List.length_append, List.length_append, hbs, hcs]
  omega

/-- What follows the plans is at most so long. -/
theorem decodeTail_length {plans : List PersistedPlan} {r r' : Reader} {s : PersistedState}
    (h : decodeTail plans r = .ok (s, r')) :
    r'.ok = true ∧ r.rest.length ≤ r'.rest.length + 57 + 67 * maxCount := by
  unfold decodeTail at h
  obtain ⟨reservations, r₁, h₁, h⟩ := bind_ok_iff.mp h
  obtain ⟨history, r₂, h₂, h⟩ := bind_ok_iff.mp h
  obtain ⟨_, r₃, h₃, h⟩ := bind_ok_iff.mp h
  obtain ⟨_, r₄, h₄, h⟩ := bind_ok_iff.mp h
  obtain ⟨_, r₅, h₅, h⟩ := bind_ok_iff.mp h
  obtain ⟨_, r₆, h₆, h⟩ := bind_ok_iff.mp h
  obtain ⟨_, r₇, h₇, h⟩ := bind_ok_iff.mp h
  obtain ⟨_, r₈, h₈, h⟩ := bind_ok_iff.mp h
  obtain ⟨_, r₉, h₉, h⟩ := bind_ok_iff.mp h
  obtain ⟨_, ra, ha, h⟩ := bind_ok_iff.mp h
  obtain ⟨_, rb, hb, h⟩ := bind_ok_iff.mp h
  cases h
  obtain ⟨-, rfl⟩ := demand_eq_ok.mp hb
  obtain ⟨hok, rfl⟩ := check_eq_ok.mp ha
  obtain ⟨hr₈, -, f, hf, hrest₈⟩ := consumes_flag _ _ _ h₉ hok
  obtain ⟨hr₇, -, b₇, hb₇, hrest₇⟩ := consumes_u64 _ _ _ h₈ hr₈
  obtain ⟨hr₆, -, b₆, hb₆, hrest₆⟩ := consumes_u64 _ _ _ h₇ hr₇
  obtain ⟨hr₅, -, b₅, hb₅, hrest₅⟩ := consumes_u64 _ _ _ h₆ hr₆
  obtain ⟨hr₄, -, b₄, hb₄, hrest₄⟩ := consumes_u64 _ _ _ h₅ hr₅
  obtain ⟨hr₃, -, b₃, hb₃, hrest₃⟩ := consumes_u64 _ _ _ h₄ hr₄
  obtain ⟨hr₂, -, b₂, hb₂, hrest₂⟩ := consumes_u64 _ _ _ h₃ hr₃
  obtain ⟨hr₁, hlen₂⟩ := decodeList_length consumes_verification h₂ hr₂
  obtain ⟨-, hlen₁⟩ := decodeList_length consumes_reservation h₁ hr₁
  have htrailer : r₂.rest.length = r'.rest.length + 49 := by
    rw [hrest₂, hrest₃, hrest₄, hrest₅, hrest₆, hrest₇, hrest₈]
    simp only [List.length_append, hb₂, hb₃, hb₄, hb₅, hb₆, hb₇, hf]
    omega
  exact ⟨hok, by omega⟩

/-- Behind the plans of an accepted input there is not much left. -/
theorem plans_of_decodeState {bytes : List UInt8} {s : PersistedState}
    (h : decodeState bytes = .ok s) :
    ∃ r₁ r₂ ps, r₁.ok = true ∧ r₁.rest = bytes.drop 12 ∧
      number ((bytes.drop 8).take 4) ≤ maxCount ∧
      times decodePlan (number ((bytes.drop 8).take 4)) r₁ = .ok (ps, r₂) ∧
      r₂.rest.length ≤ 61 + 67 * maxCount := by
  obtain ⟨s₀, r, stored, r', hbody, hcrc, hok, hend, -⟩ := decodeState_eq_ok h
  obtain ⟨r₁, r₂, hr₁, hrest, hplans, htail⟩ := decodeBody_eq_ok hbody
  have hcount : number ((bytes.drop 8).take 4) ≤ maxCount := by
    have hlen := (Yields.times (Q := fun _ => True) (fun _ _ _ _ => trivial) _ _ _ _ hplans).1
    rw [← hlen]
    exact (yields_body _ _ _ hbody).readable.plans
  obtain ⟨-, -, cs, hcs, hrest'⟩ := consumes_u32 _ _ _ hcrc hok
  obtain ⟨-, hlen⟩ := decodeTail_length htail
  refine ⟨r₁, r₂, s₀.plans, hr₁, hrest, hcount, hplans, ?_⟩
  have hr : r.rest.length = 4 := by
    rw [hrest', hend, List.append_nil, hcs]
  omega

/-! ## Reading on inside a list of kinds -/

theorem outcomeBytes_le (bs : List UInt8) : outcomeBytes bs ≤ 1 := by
  unfold outcomeBytes
  split_ifs
  · exact Nat.zero_le 1
  · exact Nat.le_refl 1

/-- In a stretch of zeros a record takes 98 bytes. -/
theorem recordLength_zeros {z : ℕ} (h : 98 ≤ z) (tail : List UInt8) :
    recordLength (List.replicate z 0 ++ tail) = 98 := by
  have hbyte : (List.replicate z 0 ++ tail)[25]? = some (0 : UInt8) := by
    rw [List.getElem?_append_left (by rw [List.length_replicate]; omega), List.getElem?_replicate,
      if_pos (show 25 < z by omega)]
  have hflag : outcomeBytes (List.replicate z 0 ++ tail) = 0 := by
    rw [outcomeBytes, hbyte, if_pos rfl]
  have hcount : ((List.replicate z 0 ++ tail).drop 94).take 4 = List.replicate 4 (0 : UInt8) := by
    rw [List.drop_append_of_le_length (by rw [List.length_replicate]; omega), List.drop_replicate,
      List.take_append_of_le_length (by rw [List.length_replicate]; omega), List.take_replicate,
      Nat.min_eq_left (by omega)]
  rw [recordLength, kindCount, hflag, Nat.add_zero, hcount]
  rfl

theorem drop_zeros {k z : ℕ} (h : k ≤ z) (tail : List UInt8) :
    (List.replicate z 0 ++ tail).drop k = List.replicate (z - k) 0 ++ tail := by
  rw [List.drop_append_of_le_length (by rw [List.length_replicate]; exact h), List.drop_replicate]

/-- Plans read from a stretch of zeros use up 98 of them each. -/
theorem zeros_left {n z : ℕ} {tail : List UInt8} {r r' : Reader} {ps : List PersistedPlan}
    (hr : r.rest = List.replicate z 0 ++ tail) (hz : 98 * n ≤ z)
    (h : times decodePlan n r = .ok (ps, r')) : z ≤ r'.rest.length + 98 * n := by
  induction n generalizing z r ps with
  | zero =>
      cases h
      rw [hr, List.length_append, List.length_replicate]
      omega
  | succ n ih =>
      obtain ⟨p, r₁, hp, h⟩ := bind_ok_iff.mp h
      obtain ⟨qs, r₂, hqs, h⟩ := bind_ok_iff.mp h
      cases h
      obtain ⟨-, -, -, hrest, -, -⟩ := decodePlan_eq_ok hp
      rw [hr, recordLength_zeros (by omega), drop_zeros (by omega)] at hrest
      have hleft := ih hrest (by omega) hqs
      omega

theorem length_encodeKinds (ks : List ActionKind) : (encodeKinds ks).length = ks.length := by
  induction ks with
  | nil => rfl
  | cons k ks ih =>
      rw [encodeKinds, List.flatMap_cons, List.length_append, length_u8, List.length_cons,
        ← encodeKinds, ih, Nat.add_comm]

theorem encodeKinds_append (ks ls : List ActionKind) :
    encodeKinds (ks ++ ls) = encodeKinds ks ++ encodeKinds ls := List.flatMap_append

/-- Moves are written as zeros and the kinds before them are not. -/
theorem bytes_of_ordered {ks : List ActionKind} (h : Ordered ks) :
    ∃ front z, encodeKinds ks = front ++ List.replicate z 0 ∧ ∀ b ∈ front, 2 ≤ b.toNat := by
  obtain ⟨front, n, rfl, hfront⟩ := h
  refine ⟨encodeKinds front, n, ?_, ?_⟩
  · rw [encodeKinds_append]
    congr 1
    induction n with
    | zero => rfl
    | succ n ih =>
        rw [List.replicate_succ, List.replicate_succ, encodeKinds, List.flatMap_cons, ← encodeKinds,
          ih]
        rfl
  · intro b hb
    obtain ⟨k, hk, hb⟩ := List.mem_flatMap.mp hb
    rcases hfront k hk with rfl | rfl
    · rw [List.mem_singleton.mp hb]
      decide
    · rw [List.mem_singleton.mp hb]
      decide

/-- A length made of such bytes is beyond the bound. -/
theorem maxCount_lt_number {bs : List UInt8} (hlen : bs.length = 4) (h : ∀ b ∈ bs, 2 ≤ b.toNat) :
    maxCount < number bs := by
  obtain ⟨a, b, c, d, rfl⟩ := List.length_eq_four.mp hlen
  simp only [List.forall_mem_cons] at h
  obtain ⟨ha, hb, hc, hd, -⟩ := h
  simp only [number_cons, number_nil, maxCount]
  omega

/-- Reading plans from the middle of a list of kinds leaves most of it unread. -/
theorem kinds_left {n : ℕ} {ks : List ActionKind} {tail : List UInt8} {r r' : Reader}
    {ps : List PersistedPlan} (hks : Ordered ks) (hlen : 2 ^ 32 ≤ ks.length) (hn : n ≤ maxCount)
    (hr : r.rest = encodeKinds ks ++ tail) (h : times decodePlan n r = .ok (ps, r')) :
    2 ^ 32 ≤ r'.rest.length + 99 + 99 * maxCount := by
  obtain ⟨front, z, hbytes, hfront⟩ := bytes_of_ordered hks
  have hsum : 2 ^ 32 ≤ front.length + z := by
    have hall := congrArg List.length hbytes
    rw [length_encodeKinds, List.length_append, List.length_replicate] at hall
    omega
  rw [hbytes, List.append_assoc] at hr
  cases n with
  | zero =>
      cases h
      rw [hr, List.length_append, List.length_append, List.length_replicate]
      omega
  | succ n =>
      obtain ⟨p, r₁, hp, h⟩ := bind_ok_iff.mp h
      obtain ⟨qs, r₂, hqs, h⟩ := bind_ok_iff.mp h
      cases h
      obtain ⟨-, -, -, hrest, hcount, -⟩ := decodePlan_eq_ok hp
      have houtcome := outcomeBytes_le r.rest
      have hrecord : recordLength r.rest = 98 + outcomeBytes r.rest + kindCount r.rest := rfl
      -- the number of kinds of the misread plan cannot lie in front of the zeros
      have hshort : front.length < 98 + outcomeBytes r.rest := by
        by_contra hlong
        rw [not_lt] at hlong
        have hfield : (r.rest.drop (94 + outcomeBytes r.rest)).take 4 =
            (front.drop (94 + outcomeBytes r.rest)).take 4 := by
          rw [hr, List.drop_append_of_le_length (by rw [← hr]; omega),
            List.take_append_of_le_length (by rw [List.length_drop, ← hr]; omega)]
        have hbig : maxCount < kindCount r.rest := by
          rw [kindCount, hfield]
          refine maxCount_lt_number ?_ ?_
          · rw [List.length_take, List.length_drop]
            omega
          · intro b hb
            exact hfront b (List.mem_of_mem_drop (List.mem_of_mem_take hb))
        omega
      have hzeros : r₁.rest = List.replicate (z - (recordLength r.rest - front.length)) 0 ++ tail := by
        rw [hrest, hr, List.drop_append, ← hr, List.drop_eq_nil_of_le (by omega), List.nil_append]
        exact drop_zeros (by unfold maxCount at *; omega) tail
      have hleft := zeros_left hzeros (by unfold maxCount at *; omega) hqs
      unfold maxCount at *
      omega

/-! ## Reading the plans that were written -/

theorem length_encodePlan_ge (p : PersistedPlan) :
    98 + p.actionKinds.length ≤ (encodePlan p).length := by
  have hout : 1 ≤ (encodeOutcome p.verification).length := by
    cases p.verification with
    | none => exact Nat.le_refl 1
    | some v => exact Nat.le_succ 1
  rw [encodePlan_eq, encodeRecord, encodeHead, encodeFields]
  simp only [List.length_append, length_u64, length_u32, length_u8, length_encodeKinds]
  omega

theorem length_encodeReservation (r : Reservation) : (encodeReservation r).length = 50 := by
  simp [encodeReservation]

/-- Entries of at least `k` bytes take at least so many in a row. -/
theorem le_length_flatMap {α : Type} {f : α → List UInt8} {k : ℕ} (hf : ∀ a, k ≤ (f a).length)
    (as : List α) : k * as.length ≤ (as.flatMap f).length := by
  induction as with
  | nil => simp
  | cons a as ih =>
      have ha := hf a
      rw [List.flatMap_cons, List.length_append, List.length_cons, Nat.mul_succ]
      omega

/-- Either a plan is read as it was written, or reading stops in the middle of its kinds, with
`2 ^ 32` of them or more to go. -/
theorem plan_left {p q : PersistedPlan} {tail : List UInt8} {err : String} {r' : Reader}
    (hp : FiniteScores p) (hord : Ordered p.actionKinds)
    (h : decodePlan ⟨encodePlan p ++ tail, true, err⟩ = .ok (q, r')) :
    (p.actionKinds.length ≤ maxCount ∧ r'.ok = true ∧ r'.rest = tail) ∨
      ∃ ks, Ordered ks ∧ 2 ^ 32 ≤ ks.length ∧ r'.rest = encodeKinds ks ++ tail := by
  by_cases hlt : p.actionKinds.length < 2 ^ 32
  · by_cases hk : p.actionKinds.length ≤ maxCount
    · rw [reads_plan hp hk] at h
      cases h
      exact Or.inl ⟨hk, rfl, rfl⟩
    · obtain ⟨e, he⟩ := fails_plan hp hlt (not_le.mp hk) tail err
      rw [he] at h
      cases h
  · -- the length field holds a remainder
    rw [encodePlan_eq] at h
    by_cases hk : p.actionKinds.length % 2 ^ 32 ≤ maxCount
    · have htake : (p.actionKinds.take (p.actionKinds.length % 2 ^ 32)).length =
          p.actionKinds.length % 2 ^ 32 := by
        rw [List.length_take, Nat.min_eq_left (Nat.mod_le _ _)]
      have hread := reads_record hp htake.symm (htake.trans_le hk)
        (encodeKinds (p.actionKinds.drop (p.actionKinds.length % 2 ^ 32)) ++ tail) err
      have hsplit : encodeRecord p p.actionKinds.length p.actionKinds ++ tail =
          encodeRecord p p.actionKinds.length
            (p.actionKinds.take (p.actionKinds.length % 2 ^ 32)) ++
            (encodeKinds (p.actionKinds.drop (p.actionKinds.length % 2 ^ 32)) ++ tail) := by
        have hkinds := encodeKinds_append (p.actionKinds.take (p.actionKinds.length % 2 ^ 32))
          (p.actionKinds.drop (p.actionKinds.length % 2 ^ 32))
        rw [List.take_append_drop] at hkinds
        simp only [encodeRecord, hkinds, List.append_assoc]
      rw [hsplit, hread] at h
      cases h
      refine Or.inr ⟨_, hord.drop _, ?_, rfl⟩
      rw [List.length_drop]
      omega
    · obtain ⟨e, he⟩ := fails_record hp (not_le.mp hk) p.actionKinds tail err
      rw [he] at h
      cases h

/-- Either the plans in front are read as they were written, or most of a list of kinds is
left. -/
theorem plans_left {n : ℕ} {ps : List PersistedPlan} {tail : List UInt8} {r r' : Reader}
    {out : List PersistedPlan} (hfin : ∀ p ∈ ps, FiniteScores p)
    (hord : ∀ p ∈ ps, Ordered p.actionKinds) (hn : n ≤ maxCount) (hlen : n ≤ ps.length)
    (hok : r.ok = true) (hr : r.rest = ps.flatMap encodePlan ++ tail)
    (h : times decodePlan n r = .ok (out, r')) :
    2 ^ 32 ≤ r'.rest.length + 99 + 99 * maxCount ∨
      ((∀ p ∈ ps.take n, p.actionKinds.length ≤ maxCount) ∧
        r'.rest = (ps.drop n).flatMap encodePlan ++ tail) := by
  induction n generalizing ps r out with
  | zero =>
      cases h
      exact Or.inr ⟨by simp, hr⟩
  | succ n ih =>
      obtain ⟨q, r₁, hq, h⟩ := bind_ok_iff.mp h
      obtain ⟨qs, r₂, hqs, h⟩ := bind_ok_iff.mp h
      cases h
      obtain ⟨p, ps, rfl⟩ := List.exists_cons_of_length_pos (l := ps) (by omega)
      obtain ⟨bs, ok, err⟩ := r
      change bs = _ at hr
      change ok = true at hok
      rw [hok, hr, List.flatMap_cons, List.append_assoc] at hq
      rcases plan_left (hfin p (by simp)) (hord p (by simp)) hq with
        ⟨hk, hok₁, hrest₁⟩ | ⟨ks, hks, hmany, hrest₁⟩
      · have hrest := ih (fun x hx => hfin x (by simp [hx])) (fun x hx => hord x (by simp [hx]))
          (by omega) (by simpa using hlen) hok₁ hrest₁ hqs
        simpa [hk] using hrest
      · exact Or.inl (kinds_left hks hmany (by omega) hrest₁ hqs)

/-- The plans stand behind a header and their number, and in front of the reservations. -/
theorem encodeBody_append (s : PersistedState) (back : List UInt8) :
    ∃ trailer, encodeBody s ++ back =
      (u32 persistenceMagic.toNat ++ u32 persistenceVersion.toNat) ++ (u32 s.plans.length ++
        (s.plans.flatMap encodePlan ++ (u32 s.reservations.length ++
          (s.reservations.flatMap encodeReservation ++ trailer)))) := by
  unfold encodeBody encodeList
  simp only [List.append_assoc]
  exact ⟨_, rfl⟩

/-- No list of a state with plans of the planner that is read back at all is longer than its
length field can say. -/
theorem narrow_of_accepted {s st : PersistedState} (hsound : Sound s)
    (hord : ∀ p ∈ s.plans, Ordered p.actionKinds) (hhist : s.verificationHistory = [])
    (h : decodeState (encodeBody s ++ u32 (crc32 (encodeBody s)).toNat) = .ok st) :
    Narrow s := by
  obtain ⟨r₁, r₂, out, hok, hrest, hcount, hplans, hleft⟩ := plans_of_decodeState h
  obtain ⟨trailer, hbytes⟩ := encodeBody_append s (u32 (crc32 (encodeBody s)).toNat)
  have hheader : (u32 persistenceMagic.toNat ++ u32 persistenceVersion.toNat).length = 8 := rfl
  have hnumber : number (((encodeBody s ++ u32 (crc32 (encodeBody s)).toNat).drop 8).take 4) =
      s.plans.length % 2 ^ 32 := by
    rw [hbytes, List.drop_left' hheader, List.take_left' (length_u32 _)]
    exact number_littleEndian 4 s.plans.length
  have hfront : ((u32 persistenceMagic.toNat ++ u32 persistenceVersion.toNat) ++
      u32 s.plans.length).length = 12 := by
    rw [List.length_append, hheader, length_u32]
  rw [hbytes, ← List.append_assoc, List.drop_left' hfront] at hrest
  rw [hnumber] at hcount hplans
  rcases plans_left hsound.finite hord hcount (Nat.mod_le _ _) hok hrest hplans with
    hmost | ⟨hkinds, hrest₂⟩
  · unfold maxCount at hmost hleft
    omega
  -- a longer list would leave more of it unread
  have hlong : (r₂.rest).length =
      ((s.plans.drop (s.plans.length % 2 ^ 32)).flatMap encodePlan).length + (4 +
        ((s.reservations.flatMap encodeReservation).length + trailer.length)) := by
    rw [hrest₂]
    simp only [List.length_append, length_u32]
  have hres : 50 * s.reservations.length ≤ (s.reservations.flatMap encodeReservation).length :=
    le_length_flatMap (fun r => (length_encodeReservation r).ge) _
  have hmore : 98 * (s.plans.drop (s.plans.length % 2 ^ 32)).length ≤
      ((s.plans.drop (s.plans.length % 2 ^ 32)).flatMap encodePlan).length :=
    le_length_flatMap (fun p => (Nat.le_add_right 98 _).trans (length_encodePlan_ge p)) _
  rw [List.length_drop] at hmore
  unfold maxCount at hleft
  have hfew : s.plans.length < 2 ^ 32 := by omega
  refine ⟨hfew, ?_, by omega, ?_⟩
  · rw [Nat.mod_eq_of_lt hfew, List.take_length] at hkinds
    intro p hp
    exact (hkinds p hp).trans_lt (by decide)
  · rw [hhist]
    decide

/-- Such a state is within the bounds of the decoder, whatever the lengths of its lists. -/
theorem readable_of_accepted {s st : PersistedState} (hsound : Sound s)
    (hord : ∀ p ∈ s.plans, Ordered p.actionKinds) (hhist : s.verificationHistory = [])
    (h : decodeState (encodeBody s ++ u32 (crc32 (encodeBody s)).toNat) = .ok st) :
    Readable s := by
  have hnarrow := narrow_of_accepted hsound hord hhist h
  by_contra hread
  obtain ⟨e, he⟩ := decodeState_of_fails (fails_body hsound hnarrow hread)
    (u32 (crc32 (encodeBody s)).toNat)
  rw [he] at h
  cases h

end FragmentationGovernor.Codec
