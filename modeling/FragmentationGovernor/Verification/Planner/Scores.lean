import FragmentationGovernor.Verification.Planner.Actions

/-! # Scores stay in range

The planner computes its scores in doubles. What can be displaced is never the most disruptive,
and this leaves the means enough room for their roundings, however many actions fit into memory. -/

namespace FragmentationGovernor

/-! ## Doubles -/

namespace Double

/-- The number a pattern without a sign stands for, in units of the smallest double. -/
def units (p : ℕ) : ℕ :=
  if p / 2 ^ 52 = 0 then p % 2 ^ 52 else (2 ^ 52 + p % 2 ^ 52) * 2 ^ (p / 2 ^ 52 - 1)

theorem toRat_eq_units {p : ℕ} (h : p ≤ oneBits) :
    (mk (UInt64.ofNat p)).toRat = units p / 2 ^ scale := by
  unfold oneBits at h
  have hbits : (UInt64.ofNat p).toNat = p :=
    UInt64.toNat_ofNat_of_lt' (show p < 2 ^ 64 by omega)
  have hexp : (mk (UInt64.ofNat p)).exponent = p / 2 ^ 52 := by
    simp only [exponent, hbits]
    omega
  have hsign : (mk (UInt64.ofNat p)).sign = false := by
    simp only [sign, hbits]
    exact decide_eq_false (by omega)
  have hman : (mk (UInt64.ofNat p)).mantissa = p % 2 ^ 52 := by
    simp only [mantissa, hbits]
  rw [toRat, hsign, if_neg (by decide), magnitude, hexp, hman, units]
  split_ifs <;> rfl

theorem units_mono : Monotone units := by
  apply monotone_nat_of_le_succ
  intro p
  unfold units
  rcases Nat.lt_or_ge (p % 2 ^ 52 + 1) (2 ^ 52) with hlt | hge
  · -- the exponent is the same
    have hexp : (p + 1) / 2 ^ 52 = p / 2 ^ 52 := by omega
    have hman : (p + 1) % 2 ^ 52 = p % 2 ^ 52 + 1 := by omega
    rw [hexp, hman]
    split_ifs
    · omega
    · exact Nat.mul_le_mul_right _ (by omega)
  · have hexp : (p + 1) / 2 ^ 52 = p / 2 ^ 52 + 1 := by omega
    have hman : (p + 1) % 2 ^ 52 = 0 := by omega
    rw [hexp, hman, if_neg (Nat.succ_ne_zero _), Nat.add_sub_cancel, Nat.add_zero]
    split_ifs with hzero
    · rw [hzero, pow_zero]
      omega
    · calc
        (2 ^ 52 + p % 2 ^ 52) * 2 ^ (p / 2 ^ 52 - 1) ≤ 2 ^ 53 * 2 ^ (p / 2 ^ 52 - 1) :=
          Nat.mul_le_mul_right _ (by omega)
        _ = 2 ^ 52 * 2 ^ (p / 2 ^ 52) := by
          rw [← pow_add, ← pow_add]
          congr 1
          omega

theorem toRat_mono {p p' : ℕ} (hle : p ≤ p') (h : p' ≤ oneBits) :
    (mk (UInt64.ofNat p)).toRat ≤ (mk (UInt64.ofNat p')).toRat := by
  rw [toRat_eq_units (hle.trans h), toRat_eq_units h]
  have hunits : (units p : ℚ) ≤ units p' := Nat.cast_le.mpr (units_mono hle)
  exact div_le_div_of_nonneg_right hunits (by positivity)

/-- The search never goes beyond the number. -/
theorem toRat_floorBits_le {q : ℚ} (i : ℕ) {p : ℕ} (h : (mk (UInt64.ofNat p)).toRat ≤ q) :
    (mk (UInt64.ofNat (floorBits q i p))).toRat ≤ q := by
  induction i generalizing p with
  | zero => exact h
  | succ i ih =>
      apply ih
      split_ifs with hp
      · exact hp.2
      · exact h

/-- What is below a double is stored as at most that double. -/
theorem toRat_nearestBits_le {q : ℚ} (hq : 0 ≤ q) {p : ℕ} (hp : p ≤ oneBits)
    (h : q < (mk (UInt64.ofNat p)).toRat) :
    (mk (UInt64.ofNat (nearestBits q))).toRat ≤ (mk (UInt64.ofNat p)).toRat := by
  have hzero : (mk (UInt64.ofNat 0)).toRat ≤ q := by
    rw [toRat_eq_units (Nat.zero_le _)]
    simpa [units] using hq
  have hfloor := toRat_floorBits_le 62 hzero
  have hlt : floorBits q 62 0 < p := by
    by_contra hge
    have hle := toRat_mono (not_lt.mp hge) (floorBits_le q 62 0 (Nat.zero_le _))
    linarith
  refine toRat_mono ?_ hp
  unfold nearestBits
  dsimp only
  split_ifs <;> omega

/-- In the range of the scores an operation is off by less than `2 ^ (-50)`. -/
theorem abs_round_sub_le {q : ℚ} (hq : 0 ≤ q) (h : q ≤ 4) : |round q - q| ≤ 1 / 2 ^ 50 := by
  have herror := roundsWithin_round.error hq
  have hrange : q * (1 / 2 ^ 53) ≤ 4 * (1 / 2 ^ 53) := mul_le_mul_of_nonneg_right h (by norm_num)
  have hsmall : (4 : ℚ) * (1 / 2 ^ 53) + 1 / 2 ^ 60 ≤ 1 / 2 ^ 50 := by norm_num
  linarith

theorem round_nonneg {q : ℚ} (hq : 0 ≤ q) : 0 ≤ round q := roundsWithin_round.nonneg hq

theorem round_le {q b : ℚ} (hq : 0 ≤ q) (hb : b ≤ 4) (h : q ≤ b) : round q ≤ b + 1 / 2 ^ 50 := by
  have herror := (abs_le.mp (abs_round_sub_le hq (h.trans hb))).2
  linarith

theorem le_round {q b : ℚ} (hq : 0 ≤ q) (hb : q ≤ 4) (h : b ≤ q) : b - 1 / 2 ^ 50 ≤ round q := by
  have herror := (abs_le.mp (abs_round_sub_le hq hb)).1
  linarith

theorem percent_mem {n : ℕ} (hn : n ≤ 100) :
    (n : ℚ) / 100 - 1 / 2 ^ 50 ≤ percent n ∧ percent n ≤ n / 100 + 1 / 2 ^ 50 := by
  have hle : (n : ℚ) ≤ 100 := by exact_mod_cast hn
  have h0 : (0 : ℚ) ≤ n / 100 := by positivity
  have h1 : (n : ℚ) / 100 ≤ 1 := by linarith
  exact ⟨le_round h0 (by linarith) (le_refl _), round_le h0 (by linarith) (le_refl _)⟩

end Double

/-- The pattern of `0.96875`. -/
def belowOne : ℕ := 0x3FEF000000000000

theorem toRat_belowOne : (⟨UInt64.ofNat belowOne⟩ : Double).toRat = 31 / 32 := by decide +kernel

theorem HealthyScore.exists_ofRat_le {q : ℚ} (hlo : 0 ≤ q) (hhi : q < 31 / 32) :
    ∃ s, HealthyScore.ofRat q = .ok s ∧ s.value.toRat ≤ 31 / 32 := by
  have hrange : ¬ (q < 0 ∨ 1 < q) := by
    rw [not_or, not_lt, not_lt]
    exact ⟨hlo, by linarith⟩
  rw [HealthyScore.ofRat, if_neg hrange]
  refine ⟨_, rfl, ?_⟩
  rw [← toRat_belowOne] at hhi ⊢
  exact Double.toRat_nearestBits_le hlo (by decide) hhi

namespace Planner

/-! ## Disruptions -/

/-- A disruption in hundredths. -/
def hundredths : Movability → ℕ
  | .releaseable => 10
  | .recomputable => 25
  | .evictable => 40
  | .movableAfterCheckpoint => 60
  | .movableAfterQuiesce => 80
  | .movableLive => 95
  | _ => 100

theorem disruptionOf_eq (m : Movability) : disruptionOf m = Double.percent (hundredths m) := by
  have hone : Double.percent 100 = 1 := by decide +kernel
  cases m <;> first | rfl | exact hone.symm

theorem hundredths_le (m : Movability) : hundredths m ≤ 100 := by cases m <;> decide

theorem hundredths_spaced {m m' : Movability} (h : hundredths m < hundredths m') :
    hundredths m + 5 ≤ hundredths m' := by
  revert h
  cases m <;> cases m' <;> decide

/-- Different disruptions are far apart. -/
theorem disruptionOf_spaced {m m' : Movability} (h : hundredths m < hundredths m') :
    disruptionOf m + 49 / 1000 ≤ disruptionOf m' := by
  have hspaced : ((hundredths m + 5 : ℕ) : ℚ) ≤ hundredths m' :=
    Nat.cast_le.mpr (hundredths_spaced h)
  have hhigh := (Double.percent_mem (hundredths_le m)).2
  have hlow := (Double.percent_mem (hundredths_le m')).1
  rw [disruptionOf_eq, disruptionOf_eq]
  push_cast at hspaced
  norm_num at hhigh hlow
  linarith

theorem disruptionOf_lt_iff {m m' : Movability} :
    disruptionOf m < disruptionOf m' ↔ hundredths m < hundredths m' := by
  constructor
  · intro h
    by_contra hge
    rcases lt_or_eq_of_le (not_lt.mp hge) with hlt | heq
    · have hspaced := disruptionOf_spaced hlt
      linarith
    · rw [disruptionOf_eq, disruptionOf_eq, heq] at h
      exact lt_irrefl _ h
  · intro h
    have hspaced := disruptionOf_spaced h
    linarith

theorem disruptionOf_mem (m : Movability) : 0 ≤ disruptionOf m ∧ disruptionOf m ≤ 1001 / 1000 := by
  have hle : (hundredths m : ℚ) ≤ 100 := by exact_mod_cast hundredths_le m
  have hhigh := (Double.percent_mem (hundredths_le m)).2
  rw [disruptionOf_eq]
  norm_num at hhigh
  exact ⟨Double.round_nonneg (by positivity), by linarith⟩

/-- What may be displaced disrupts least. -/
theorem disruptionOf_le_of_mayMove {m : Movability} (h : mayMove m = true) :
    disruptionOf m ≤ 951 / 1000 := by
  have hlt : hundredths m ≤ 95 := by
    revert h
    cases m <;> decide
  have hle : (hundredths m : ℚ) ≤ 95 := by exact_mod_cast hlt
  have hhigh := (Double.percent_mem (hundredths_le m)).2
  rw [disruptionOf_eq]
  norm_num at hhigh
  linarith

theorem mitigation_mem (weights : PlanningWeights) :
    4 / 100 ≤ mitigation weights ∧ mitigation weights ≤ 1001 / 1000 := by
  obtain ⟨hw0, hw1⟩ := weights.displacementCostWeight.toRat_mem
  obtain ⟨h0, h1⟩ := @Double.percent_mem 5 (by decide)
  have hround := @Double.round_le (1 - weights.displacementCostWeight.value.toRat) 1
    (by linarith) (by norm_num) (by linarith)
  norm_num at h0 h1 hround
  exact ⟨le_max_of_le_left (by linarith), max_le (by linarith) (by linarith)⟩

theorem mitigated_mem (m : Movability) (weights : PlanningWeights) :
    0 ≤ disruptionOf m * mitigation weights ∧ disruptionOf m * mitigation weights ≤ 2 := by
  obtain ⟨hd0, hd1⟩ := disruptionOf_mem m
  obtain ⟨hm0, hm1⟩ := mitigation_mem weights
  have hprod : disruptionOf m * mitigation weights ≤ 1001 / 1000 * (1001 / 1000) :=
    mul_le_mul hd1 hm1 (by linarith) (by norm_num)
  exact ⟨mul_nonneg hd0 (by linarith), hprod.trans (by norm_num)⟩

/-- The roundings do not make up for the distance of two disruptions. -/
theorem round_disruption_lt_iff (weights : PlanningWeights) {m m' : Movability} :
    Double.round (disruptionOf m * mitigation weights) <
        Double.round (disruptionOf m' * mitigation weights) ↔
      disruptionOf m < disruptionOf m' := by
  have hstrict : ∀ {m m' : Movability}, disruptionOf m < disruptionOf m' →
      Double.round (disruptionOf m * mitigation weights) <
        Double.round (disruptionOf m' * mitigation weights) := by
    intro m m' h
    obtain ⟨hm0, -⟩ := mitigation_mem weights
    obtain ⟨h0, h2⟩ := mitigated_mem m weights
    obtain ⟨h0', h2'⟩ := mitigated_mem m' weights
    have hspaced := disruptionOf_spaced (disruptionOf_lt_iff.mp h)
    have hfar : (disruptionOf m + 49 / 1000) * mitigation weights ≤
        disruptionOf m' * mitigation weights :=
      mul_le_mul_of_nonneg_right hspaced (by linarith)
    have hlow := Double.round_le h0 (by linarith) (le_refl _)
    have hhigh := Double.le_round h0' (by linarith) (le_refl _)
    norm_num at hlow hhigh
    linarith
  constructor
  · intro h
    by_contra hge
    rcases lt_or_eq_of_le (not_lt.mp hge) with hlt | heq
    · exact lt_asymm h (hstrict hlt)
    · rw [heq] at h
      exact lt_irrefl _ h
  · exact hstrict

theorem round_disruption_inj (weights : PlanningWeights) {m m' : Movability} :
    Double.round (disruptionOf m * mitigation weights) =
        Double.round (disruptionOf m' * mitigation weights) ↔
      disruptionOf m = disruptionOf m' := by
  constructor
  · intro h
    refine le_antisymm ?_ ?_
    · exact not_lt.mp (fun hlt => h.not_gt ((round_disruption_lt_iff weights).mpr hlt))
    · exact not_lt.mp (fun hlt => h.not_lt ((round_disruption_lt_iff weights).mpr hlt))
  · exact fun h => by rw [h]

theorem candidateOf_disruption_mem (weights : PlanningWeights) (i : ℕ) (id : AllocationId)
    {a : Allocation} (h : mayMove a.movability = true) :
    0 ≤ (candidateOf weights i id a).disruption ∧
      (candidateOf weights i id a).disruption ≤ 953 / 1000 := by
  obtain ⟨hm0, hm1⟩ := mitigation_mem weights
  have hprod0 := (mitigated_mem a.movability weights).1
  have hprod : disruptionOf a.movability * mitigation weights ≤ 951 / 1000 * (1001 / 1000) :=
    mul_le_mul (disruptionOf_le_of_mayMove h) hm1 (by linarith) (by norm_num)
  have hround := Double.round_le hprod0 (by norm_num) hprod
  norm_num at hround
  exact ⟨Double.round_nonneg hprod0, hround.trans (by norm_num)⟩

/-! ## Actions -/

/-- The scores of the action leave room below 1. -/
structure Tempered (act : PlanAction) : Prop where
  cost : act.cost.value.toRat ≤ 31 / 32
  risk : act.risk.value.toRat ≤ 31 / 32
  disruption : act.disruption.value.toRat ≤ 31 / 32

/-- A factor up to 1 keeps a candidate's score in its range. -/
theorem exists_scaled {w d : ℚ} (hw0 : 0 ≤ w) (hw1 : w ≤ 1) (hd0 : 0 ≤ d) (hd1 : d ≤ 953 / 1000) :
    ∃ s, HealthyScore.ofRat (min 1 (Double.round (w * d))) = .ok s ∧ s.value.toRat ≤ 31 / 32 := by
  have hprod0 := mul_nonneg hw0 hd0
  have hprod : w * d ≤ 953 / 1000 := (mul_le_of_le_one_left hd0 hw1).trans hd1
  have hround := Double.round_le hprod0 (by norm_num) hprod
  norm_num at hround
  exact HealthyScore.exists_ofRat_le (le_min zero_le_one (Double.round_nonneg hprod0))
    (lt_of_le_of_lt (min_le_right _ _) (by linarith))

theorem Stands.mayMove {weights : PlanningWeights} {devices : List DeviceState}
    {c : ReclaimCandidate} (h : Stands weights devices c) :
    FragmentationGovernor.mayMove c.movability = true := by
  obtain ⟨s, a, -, -, hr, hc⟩ := h
  rw [hc]
  change FragmentationGovernor.mayMove a.movability = true
  unfold reclaimable at hr
  split_ifs at hr with hprot hmove
  simpa using hmove

/-- The scores of an action are in range, and it recovers the length of its candidate. -/
theorem exists_actionFor {weights : PlanningWeights} {devices : List DeviceState}
    {c : ReclaimCandidate} (h : Stands weights devices c) (snap : FragmentationSnapshot)
    (target : ResourceId) :
    ∃ act, actionFor snap weights target c = .ok act ∧ act.expectedCapacityRecovered = c.length ∧
      Tempered act := by
  have hmay := h.mayMove
  obtain ⟨s, a, -, -, -, hc⟩ := h
  rw [hc] at hmay
  obtain ⟨hd0, hd1⟩ := candidateOf_disruption_mem weights c.deviceIndex c.id hmay
  rw [← hc] at hd0 hd1
  obtain ⟨hw0, hw1⟩ := weights.displacementCostWeight.toRat_mem
  obtain ⟨hp0, hp1⟩ := @Double.percent_mem 60 (by decide)
  norm_num at hp0 hp1
  obtain ⟨cost, hcost, hcost1⟩ := exists_scaled hw0 hw1 hd0 hd1
  obtain ⟨risk, hrisk, hrisk1⟩ :=
    @exists_scaled (Double.percent 60) _ (by linarith) (by linarith) hd0 hd1
  obtain ⟨disruption, hdisruption, hdisruption1⟩ :=
    HealthyScore.exists_ofRat_le hd0 (lt_of_le_of_lt hd1 (by norm_num))
  unfold actionFor
  rw [hcost, ok_bind, hrisk, ok_bind, hdisruption, ok_bind]
  exact ⟨_, rfl, rfl, hcost1, hrisk1, hdisruption1⟩

/-- The actions the loop collects are of that kind. -/
theorem displace_tempered {snap : FragmentationSnapshot} {d : WorkloadDemand}
    {weights : PlanningWeights} {cands : List ReclaimCandidate} {devs devs' : List ResourceLayout}
    {actions' : List PlanAction} (hcands : ∀ c ∈ cands, Stands weights snap.devices c)
    (h : displace snap d weights cands devs [] = .ok (devs', actions')) :
    ∀ act ∈ actions', Tempered act := by
  have hstep : ∀ {c rest devs actions l' act},
      ((∀ c' ∈ c :: rest, Stands weights snap.devices c') ∧ ∀ act' ∈ actions, Tempered act') →
        Grant snap d weights devs c l' act →
      (∀ c' ∈ rest, Stands weights snap.devices c') ∧ ∀ act' ∈ actions ++ [act], Tempered act' := by
    intro c rest devs actions l' act hinv hgrant
    obtain ⟨s, a, l, -, -, -, -, -, hact⟩ := hgrant.removal
    obtain ⟨act', hact', -, htempered⟩ :=
      exists_actionFor (hinv.1 c (by simp)) snap s.resource.id
    rw [hact] at hact'
    cases hact'
    refine ⟨fun x hx => hinv.1 x (by simp [hx]), ?_⟩
    intro x hx
    rcases List.mem_append.mp hx with hx | hx
    · exact hinv.2 x hx
    · rw [List.mem_singleton.mp hx]
      exact htempered
  obtain ⟨-, -, htempered⟩ := @displace_loop snap d weights
    (fun rest _ actions => (∀ c ∈ rest, Stands weights snap.devices c) ∧
      ∀ act ∈ actions, Tempered act)
    hstep (fun hinv _ _ => ⟨fun x hx => hinv.1 x (by simp [hx]), hinv.2⟩)
    (fun hinv => ⟨fun x hx => hinv.1 x (by simp [hx]), hinv.2⟩)
    _ hcands _ _ _ _ ⟨hcands, by simp⟩ h
  exact htempered

/-! ## Means -/

theorem exactMean_mem (f : PlanAction → HealthyScore) (actions : List PlanAction) :
    0 ≤ exactMean f actions ∧ exactMean f actions ≤ 1 := by
  have hsum : 0 ≤ (actions.map (fun a => (f a).value.toRat)).sum ∧
      (actions.map (fun a => (f a).value.toRat)).sum ≤ actions.length := by
    induction actions with
    | nil => simp
    | cons a rest ih =>
        obtain ⟨h0, h1⟩ := (f a).toRat_mem
        simp only [List.map_cons, List.sum_cons, List.length_cons, Nat.cast_add, Nat.cast_one]
        constructor <;> linarith
  have hlen : (0 : ℚ) ≤ actions.length := Nat.cast_nonneg _
  exact ⟨div_nonneg hsum.1 hlen, div_le_one_of_le₀ hsum.2 hlen⟩

section Means

variable {actions : List PlanAction}

/-- The number of actions as a double. -/
theorem le_round_length (hne : actions ≠ []) (hlen : actions.length ≤ maxActions) :
    (1 : ℚ) ≤ actions.length ∧ (actions.length : ℚ) ≤ 2 ^ 40 ∧
      99 / 100 * (actions.length : ℚ) ≤ Double.round actions.length := by
  have hpos : (1 : ℚ) ≤ actions.length := by
    exact_mod_cast List.length_pos_of_ne_nil hne
  have hmax : (actions.length : ℚ) ≤ 2 ^ 40 := by
    exact_mod_cast hlen
  refine ⟨hpos, hmax, ?_⟩
  have hround := Double.roundsWithin_round.ge (zero_le_one.trans hpos)
  linarith

/-- The sum of the scores of tempered actions, divided by their number. -/
theorem mean_mem {f : PlanAction → HealthyScore}
    (h : ∀ a ∈ actions, (f a).value.toRat ≤ 31 / 32) :
    0 ≤ mean f actions ∧ mean f actions ≤ 1 := by
  unfold mean
  split_ifs with hlen
  · by_cases hne : actions = []
    · have hzero := @Double.round_le 0 0 (le_refl 0) (by norm_num) (le_refl 0)
      simp only [hne, List.map_nil, roundedSum, List.foldl_nil, zero_div]
      exact ⟨Double.round_nonneg (le_refl 0), hzero.trans (by norm_num)⟩
    · obtain ⟨hpos, hmax, hcount⟩ := le_round_length hne hlen
      have hbound : (actions.length : ℚ) *
          (31 / 32 + ((actions.length : ℚ) * (1 / 2 ^ 53) + 1 / 2 ^ 60)) ≤
            97 / 100 * actions.length := by
        rw [mul_comm]
        exact mul_le_mul_of_nonneg_right (by linarith) (by linarith)
      have hscores : ∀ x ∈ actions.map (fun a => (f a).value.toRat), 0 ≤ x ∧ x ≤ 31 / 32 := by
        intro x hx
        obtain ⟨a, ha, rfl⟩ := List.mem_map.mp hx
        exact ⟨(f a).toRat_mem.1, h a ha⟩
      have hsum := Double.roundsWithin_round.roundedSum_mem (by norm_num) (by norm_num)
        (by norm_num) (by linarith) hscores (m := actions.length)
        (by rw [List.length_map]; linarith)
      obtain ⟨hsum0, hsum1⟩ := hsum
      rw [List.length_map] at hsum1
      have hround0 : 0 < Double.round actions.length := by linarith
      have hquot : roundedSum Double.round (actions.map (fun a => (f a).value.toRat)) /
          Double.round actions.length ≤ 98 / 100 := by
        rw [div_le_iff₀ hround0]
        linarith
      have hquot0 := div_nonneg hsum0 hround0.le
      have hround := Double.round_le hquot0 (by norm_num) hquot
      norm_num at hround
      exact ⟨Double.round_nonneg hquot0, by linarith⟩
  · exact exactMean_mem f actions

/-- The sum of the quotients of their disruptions. -/
theorem disruptionMean_mem (h : ∀ a ∈ actions, a.disruption.value.toRat ≤ 31 / 32) :
    0 ≤ disruptionMean actions ∧ disruptionMean actions ≤ 1 := by
  unfold disruptionMean
  split_ifs with hlen
  · by_cases hne : actions = []
    · simp [hne, roundedSum]
    · obtain ⟨hpos, hmax, hcount⟩ := le_round_length hne hlen
      have hround0 : 0 < Double.round actions.length := by linarith
      have hn0 : (0 : ℚ) < actions.length := by linarith
      have hterm : ∀ a ∈ actions,
          0 ≤ Double.round (a.disruption.value.toRat / Double.round actions.length) ∧
            Double.round (a.disruption.value.toRat / Double.round actions.length) ≤
              99 / 100 / actions.length := by
        intro a ha
        have hquot0 := div_nonneg a.disruption.toRat_mem.1 hround0.le
        have hquot : a.disruption.value.toRat / Double.round actions.length ≤
            98 / 100 / actions.length := by
          rw [div_le_div_iff₀ hround0 hn0]
          have := h a ha
          nlinarith
        -- both errors of the quotient are small against a share of the mean
        have hshare : (1 : ℚ) / 2 ^ 40 ≤ 1 / actions.length :=
          one_div_le_one_div_of_le hn0 hmax
        have hround := Double.roundsWithin_round.le hquot0
        have hsplit : ∀ x : ℚ, x / actions.length = x * (1 / actions.length) := fun x => by ring
        rw [hsplit] at hquot ⊢
        exact ⟨Double.round_nonneg hquot0, by linarith⟩
      have hbound : (actions.length : ℚ) *
          (99 / 100 / actions.length + (1 * (1 / 2 ^ 53) + 1 / 2 ^ 60)) ≤ 1 := by
        rw [mul_add, mul_div_cancel₀ _ hn0.ne']
        linarith
      have hquotients : ∀ x ∈ actions.map (fun a =>
          Double.round (a.disruption.value.toRat / Double.round actions.length)),
          0 ≤ x ∧ x ≤ 99 / 100 / actions.length := by
        intro x hx
        obtain ⟨a, ha, rfl⟩ := List.mem_map.mp hx
        exact hterm a ha
      obtain ⟨hsum0, hsum1⟩ := Double.roundsWithin_round.roundedSum_mem (by norm_num) (by norm_num)
        (by positivity) zero_le_one hquotients (by rw [List.length_map]; exact hbound)
      rw [List.length_map] at hsum1
      exact ⟨hsum0, hsum1.trans hbound⟩
  · exact exactMean_mem PlanAction.disruption actions

end Means

/-! ## Plans -/

theorem sumBytes_eq_ok_iff {bs : List Bytes} {total : Bytes} :
    sumBytes bs = .ok total ↔ (bs.map Quantity.toNat).sum = total.toNat := by
  have hstep : ∀ b ∈ bs, ∀ t c : Bytes, t.add b = .ok c ↔ t.toNat + b.toNat = c.toNat :=
    fun b _ t c => Quantity.add_eq_ok_iff
  rw [sumBytes, Quantity.foldlM_eq_ok_iff hstep, Quantity.toNat_zero, zero_add]

theorem exists_sumBytes {bs : List Bytes} (h : (bs.map Quantity.toNat).sum < 2 ^ 64) :
    ∃ total, sumBytes bs = .ok total :=
  ⟨.ofNat _, sumBytes_eq_ok_iff.mpr (Quantity.toNat_ofNat h).symm⟩

theorem usableGain_nonneg (freeBefore recovered : Bytes) : 0 ≤ usableGain freeBefore recovered :=
  Double.round_nonneg (div_nonneg (Double.round_nonneg (Nat.cast_nonneg _))
    (le_max_of_le_left zero_le_one))

/-- A plan is scored whenever what it recovers can be added up. -/
theorem exists_score (snap : FragmentationSnapshot) (policy : Policy) (weights : PlanningWeights)
    (pid : FragmentationPlanId) (pg : FragmentationPlanGeneration) (freeBefore : Bytes)
    {actions : List PlanAction}
    (h : (actions.map (fun a => a.expectedCapacityRecovered.toNat)).sum < 2 ^ 64)
    (htempered : ∀ a ∈ actions, Tempered a) :
    ∃ plan, score snap policy weights pid pg freeBefore actions = .ok plan := by
  obtain ⟨recovered, hrecovered⟩ : ∃ total,
      sumBytes (actions.map (fun a => a.expectedCapacityRecovered)) = .ok total :=
    exists_sumBytes (by rwa [List.map_map])
  have hpercent : ∀ n : ℕ, 0 ≤ Double.percent n := fun n => Double.round_nonneg (by positivity)
  have hbenefit0 := add_nonneg
    (Double.round_nonneg (mul_nonneg (hpercent 60) weights.reclaimValue.toRat_mem.1))
    (Double.round_nonneg (mul_nonneg (hpercent 40) (usableGain_nonneg freeBefore recovered)))
  obtain ⟨benefit, hbenefit⟩ := HealthyScore.exists_ofRat
    (le_min zero_le_one (Double.round_nonneg hbenefit0)) (min_le_left _ _)
  obtain ⟨hcost0, hcost1⟩ := mean_mem fun a ha => (htempered a ha).cost
  obtain ⟨hrisk0, hrisk1⟩ := mean_mem fun a ha => (htempered a ha).risk
  obtain ⟨hdisruption0, hdisruption1⟩ := disruptionMean_mem fun a ha => (htempered a ha).disruption
  obtain ⟨cost, hcost⟩ := HealthyScore.exists_ofRat hcost0 hcost1
  obtain ⟨risk, hrisk⟩ := HealthyScore.exists_ofRat hrisk0 hrisk1
  obtain ⟨disruption, hdisruption⟩ := HealthyScore.exists_ofRat hdisruption0 hdisruption1
  unfold score
  rw [hrecovered, ok_bind]
  dsimp only
  rw [hbenefit, ok_bind, hcost, ok_bind, hrisk, ok_bind, hdisruption, ok_bind]
  exact ⟨_, rfl⟩

end Planner

end FragmentationGovernor
