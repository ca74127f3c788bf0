import FragmentationGovernor.Library.Rounding
import Mathlib.Tactic

/-! # Identities, generations and checked quantities

The 64-bit wrappers of `core/types.hpp` and `core/units.hpp`. Identities and
generations of different domains are different types; quantities have checked
arithmetic that raises instead of wrapping. -/

namespace FragmentationGovernor

/-! ## Identities and generations -/

inductive IdTag
  | fragmentationDomain | fragmentationSnapshot | fragmentationPlan | resource | resourcePool
  | allocation | allocationOwner | reservation | workloadDemand | workload | device | node
  | memoryDomain | worker
deriving DecidableEq

/-- A strongly typed identity; the null identity is 0. -/
structure TypedId (tag : IdTag) where
  value : UInt64
deriving DecidableEq

inductive GenerationTag
  | fragmentationDomain | fragmentationSnapshot | fragmentationPlan | resource | resourcePool
  | allocation | reservation | capacityModel | workloadDemand | topology | capability
  | placement | policy | health | coordinatorEpoch | workerBoot | authority | verification
deriving DecidableEq

/-- A strongly typed version counter; generation 0 is the never-issued one. -/
structure Generation (tag : GenerationTag) where
  value : UInt64
deriving DecidableEq

namespace TypedId

variable {tag : IdTag}

def toNat (i : TypedId tag) : ℕ := i.value.toNat

theorem toNat_injective : Function.Injective (@toNat tag) := by
  rintro ⟨a⟩ ⟨b⟩ h
  exact congrArg TypedId.mk (UInt64.toNat_inj.mp h)

instance : LinearOrder (TypedId tag) := LinearOrder.lift' toNat toNat_injective

instance : Inhabited (TypedId tag) := ⟨⟨0⟩⟩

def isNull (i : TypedId tag) : Bool := i.value == 0

end TypedId

namespace Generation

variable {tag : GenerationTag}

instance : Inhabited (Generation tag) := ⟨⟨0⟩⟩

def isValid (g : Generation tag) : Bool := g.value != 0

/-- The next generation; the last one is its own successor. -/
def next (g : Generation tag) : Generation tag :=
  if g.value = 0xFFFFFFFFFFFFFFFF then g else ⟨g.value + 1⟩

theorem next_of_max {g : Generation tag} (h : g.value = 0xFFFFFFFFFFFFFFFF) : g.next = g :=
  if_pos h

/-- Below the last generation the next one is greater by one. -/
theorem toNat_next {g : Generation tag} (h : g.value ≠ 0xFFFFFFFFFFFFFFFF) :
    g.next.value.toNat = g.value.toNat + 1 := by
  have hlt := g.value.toNat_lt
  have hmax : g.value.toNat ≠ 18446744073709551615 := fun hv => h (UInt64.toNat_inj.mp hv)
  rw [next, if_neg h]
  change (g.value + 1).toNat = _
  rw [UInt64.toNat_add]
  exact Nat.mod_eq_of_lt (by change g.value.toNat + 1 < 2 ^ 64; omega)

theorem next_eq_self_iff {g : Generation tag} : g.next = g ↔ g.value = 0xFFFFFFFFFFFFFFFF := by
  constructor
  · intro h
    by_contra hne
    have hsucc := toNat_next hne
    rw [h] at hsucc
    omega
  · exact next_of_max

theorem le_next (g : Generation tag) : g.value ≤ g.next.value := by
  by_cases h : g.value = 0xFFFFFFFFFFFFFFFF
  · rw [next_of_max h]
    exact UInt64.le_refl _
  · rw [UInt64.le_iff_toNat_le, toNat_next h]
    omega

end Generation

abbrev FragmentationDomainId := TypedId .fragmentationDomain
abbrev FragmentationSnapshotId := TypedId .fragmentationSnapshot
abbrev FragmentationPlanId := TypedId .fragmentationPlan
abbrev ResourceId := TypedId .resource
abbrev ResourcePoolId := TypedId .resourcePool
abbrev AllocationId := TypedId .allocation
abbrev AllocationOwnerId := TypedId .allocationOwner
abbrev ReservationId := TypedId .reservation
abbrev WorkloadDemandId := TypedId .workloadDemand
abbrev WorkloadId := TypedId .workload
abbrev DeviceId := TypedId .device
abbrev NodeId := TypedId .node
abbrev MemoryDomainId := TypedId .memoryDomain
abbrev WorkerId := TypedId .worker

abbrev FragmentationDomainGeneration := Generation .fragmentationDomain
abbrev FragmentationSnapshotGeneration := Generation .fragmentationSnapshot
abbrev FragmentationPlanGeneration := Generation .fragmentationPlan
abbrev ResourceGeneration := Generation .resource
abbrev ResourcePoolGeneration := Generation .resourcePool
abbrev AllocationGeneration := Generation .allocation
abbrev ReservationGeneration := Generation .reservation
abbrev CapacityModelGeneration := Generation .capacityModel
abbrev WorkloadDemandGeneration := Generation .workloadDemand
abbrev TopologyGeneration := Generation .topology
abbrev CapabilityGeneration := Generation .capability
abbrev PlacementGeneration := Generation .placement
abbrev PolicyGeneration := Generation .policy
abbrev HealthGeneration := Generation .health
abbrev CoordinatorEpoch := Generation .coordinatorEpoch
abbrev WorkerBootId := Generation .workerBoot
abbrev AuthorityGeneration := Generation .authority
abbrev VerificationGeneration := Generation .verification

/-! ## Checked quantities -/

/-- The exception thrown for impossible values. -/
structure ValueError where
  message : String
deriving DecidableEq

@[simp] theorem ok_bind {ε α β : Type} (a : α) (f : α → Except ε β) :
    (Except.ok a >>= f) = f a := rfl

@[simp] theorem error_bind {ε α β : Type} (e : ε) (f : α → Except ε β) :
    (Except.error e >>= f) = Except.error e := rfl

theorem pure_eq_ok {ε α : Type} (a : α) : (pure a : Except ε α) = Except.ok a := rfl

/-- A sequence returns exactly when both of its parts do. -/
theorem bind_eq_ok {ε α β : Type} {x : Except ε α} {f : α → Except ε β} {b : β} :
    (x >>= f) = .ok b ↔ ∃ a, x = .ok a ∧ f a = .ok b := by
  cases x with
  | error e => simp
  | ok a => simp

/-- The three checked 64-bit quantities, which differ only in the name they put in
their error texts. -/
inductive QuantityKind
  | bytes | count | duration
deriving DecidableEq

def QuantityKind.name : QuantityKind → String
  | .bytes => "Bytes"
  | .count => "Count"
  | .duration => "Duration"

structure Quantity (kind : QuantityKind) where
  value : UInt64
deriving DecidableEq

abbrev Bytes := Quantity .bytes
abbrev Count := Quantity .count
abbrev Duration := Quantity .duration

namespace Quantity

variable {kind : QuantityKind}

def toNat (q : Quantity kind) : ℕ := q.value.toNat

theorem toNat_injective : Function.Injective (@toNat kind) := by
  rintro ⟨a⟩ ⟨b⟩ h
  exact congrArg Quantity.mk (UInt64.toNat_inj.mp h)

instance : LinearOrder (Quantity kind) := LinearOrder.lift' toNat toNat_injective

instance : Zero (Quantity kind) := ⟨⟨0⟩⟩

instance : One (Quantity kind) := ⟨⟨1⟩⟩

instance : Inhabited (Quantity kind) := ⟨0⟩

/-- The quantity nearest below `2 ^ 64` that agrees with `n` modulo `2 ^ 64`. -/
def ofNat (n : ℕ) : Quantity kind := ⟨UInt64.ofNat n⟩

/-- Addition that raises on overflow. -/
def add (a o : Quantity kind) : Except ValueError (Quantity kind) :=
  if o.value > 0xFFFFFFFFFFFFFFFF - a.value then
    .error ⟨kind.name ++ " add overflow"⟩
  else .ok ⟨a.value + o.value⟩

/-- Subtraction that raises on underflow. -/
def sub (a o : Quantity kind) : Except ValueError (Quantity kind) :=
  if o.value > a.value then .error ⟨kind.name ++ " subtract underflow"⟩
  else .ok ⟨a.value - o.value⟩

/-! Quantities are compared, added and subtracted through their natural values. -/

theorem toNat_lt (q : Quantity kind) : q.toNat < 2 ^ 64 := q.value.toNat_lt

theorem lt_iff {a b : Quantity kind} : a < b ↔ a.toNat < b.toNat := Iff.rfl

theorem le_iff {a b : Quantity kind} : a ≤ b ↔ a.toNat ≤ b.toNat := Iff.rfl

theorem eq_iff {a b : Quantity kind} : a = b ↔ a.toNat = b.toNat :=
  toNat_injective.eq_iff.symm

@[simp] theorem toNat_zero : (0 : Quantity kind).toNat = 0 := rfl

@[simp] theorem toNat_one : (1 : Quantity kind).toNat = 1 := rfl

theorem toNat_ofNat {n : ℕ} (h : n < 2 ^ 64) : (ofNat n : Quantity kind).toNat = n :=
  UInt64.toNat_ofNat_of_lt' h

/-- `a.add b` returns `c` exactly when `c` is the sum as unbounded integers. -/
theorem add_eq_ok_iff {a b c : Quantity kind} :
    a.add b = .ok c ↔ a.toNat + b.toNat = c.toNat := by
  have ha := a.toNat_lt
  have hb := b.toNat_lt
  have hc := c.toNat_lt
  have hmax : (0xFFFFFFFFFFFFFFFF - a.value).toNat = 2 ^ 64 - 1 - a.toNat := by
    have hle : a.value ≤ 0xFFFFFFFFFFFFFFFF := by
      rw [UInt64.le_iff_toNat_le]
      change a.toNat ≤ 18446744073709551615
      omega
    rw [UInt64.toNat_sub_of_le _ _ hle]
    rfl
  have hgt : b.value > 0xFFFFFFFFFFFFFFFF - a.value ↔ 2 ^ 64 ≤ a.toNat + b.toNat := by
    rw [gt_iff_lt, UInt64.lt_iff_toNat_lt, hmax]
    change _ < b.toNat ↔ _
    omega
  unfold add
  split_ifs with h
  · have := hgt.mp h
    simp only [false_iff]
    omega
  · have hlt : a.toNat + b.toNat < 2 ^ 64 := by
      rw [hgt] at h
      omega
    have hsum : (⟨a.value + b.value⟩ : Quantity kind).toNat = a.toNat + b.toNat := by
      change (a.value + b.value).toNat = _
      rw [UInt64.toNat_add]
      exact Nat.mod_eq_of_lt hlt
    rw [Except.ok.injEq, eq_iff, hsum]

/-- `a.sub b` returns `c` exactly when `a` is `b` and `c` together. -/
theorem sub_eq_ok_iff {a b c : Quantity kind} :
    a.sub b = .ok c ↔ b.toNat + c.toNat = a.toNat := by
  unfold sub
  split_ifs with h
  · have hlt : a.toNat < b.toNat := h
    simp only [false_iff]
    omega
  · have hle : b.toNat ≤ a.toNat := Nat.le_of_not_lt h
    have hdiff : (⟨a.value - b.value⟩ : Quantity kind).toNat = a.toNat - b.toNat :=
      UInt64.toNat_sub_of_le _ _ hle
    rw [Except.ok.injEq, eq_iff, hdiff]
    omega

theorem exists_add_ok {a b : Quantity kind} (h : a.toNat + b.toNat < 2 ^ 64) :
    ∃ c, a.add b = .ok c ∧ c.toNat = a.toNat + b.toNat :=
  ⟨ofNat (a.toNat + b.toNat), add_eq_ok_iff.mpr (toNat_ofNat h).symm, toNat_ofNat h⟩

theorem exists_sub_ok {a b : Quantity kind} (h : b.toNat ≤ a.toNat) :
    ∃ c, a.sub b = .ok c ∧ b.toNat + c.toNat = a.toNat := by
  have hlt : a.toNat - b.toNat < 2 ^ 64 := lt_of_le_of_lt (Nat.sub_le _ _) a.toNat_lt
  refine ⟨ofNat (a.toNat - b.toNat), sub_eq_ok_iff.mpr ?_, ?_⟩ <;>
    rw [toNat_ofNat hlt] <;> omega

/-- A loop whose every step adds some weight returns the sum of the weights, and returns
exactly when that sum is a 64-bit value. -/
theorem foldlM_eq_ok_iff {α : Type} {g : Quantity kind → α → Except ValueError (Quantity kind)}
    {weight : α → ℕ} {xs : List α} {a b : Quantity kind}
    (hg : ∀ x ∈ xs, ∀ t c, g t x = .ok c ↔ t.toNat + weight x = c.toNat) :
    xs.foldlM g a = .ok b ↔ a.toNat + (xs.map weight).sum = b.toNat := by
  induction xs generalizing a with
  | nil =>
      rw [List.foldlM_nil, pure_eq_ok, Except.ok.injEq, List.map_nil, List.sum_nil, add_zero]
      exact eq_iff
  | cons x rest ih =>
      have hrest : ∀ c : Quantity kind, rest.foldlM g c = .ok b ↔ _ :=
        fun c => ih (a := c) (fun y hy => hg y (by simp [hy]))
      rw [List.foldlM_cons, bind_eq_ok, List.map_cons, List.sum_cons]
      simp only [hg x (by simp), hrest]
      constructor
      · rintro ⟨c, hc, hb⟩
        omega
      · intro hb
        have hlt : a.toNat + weight x < 2 ^ 64 := by
          have := b.toNat_lt
          omega
        refine ⟨ofNat (a.toNat + weight x), (toNat_ofNat hlt).symm, ?_⟩
        rw [toNat_ofNat hlt]
        omega

theorem exists_foldlM_ok {α : Type} {g : Quantity kind → α → Except ValueError (Quantity kind)}
    {weight : α → ℕ} {xs : List α} {a : Quantity kind}
    (hg : ∀ x ∈ xs, ∀ t c, g t x = .ok c ↔ t.toNat + weight x = c.toNat)
    (hlt : a.toNat + (xs.map weight).sum < 2 ^ 64) :
    ∃ b, xs.foldlM g a = .ok b ∧ b.toNat = a.toNat + (xs.map weight).sum :=
  ⟨ofNat (a.toNat + (xs.map weight).sum),
    (foldlM_eq_ok_iff hg).mpr (toNat_ofNat hlt).symm, toNat_ofNat hlt⟩

end Quantity

/-! ## Doubles and bounded scores

A stored double is its IEEE bit pattern, a computed one the rational number it stands for; every
operation rounds its exact result. -/

structure Double where
  bits : UInt64
deriving DecidableEq

namespace Double

def sign (d : Double) : Bool := decide (2 ^ 63 ≤ d.bits.toNat)

def exponent (d : Double) : ℕ := d.bits.toNat / 2 ^ 52 % 2 ^ 11

def mantissa (d : Double) : ℕ := d.bits.toNat % 2 ^ 52

def isFinite (d : Double) : Bool := decide (d.exponent ≠ 2047)

/-- Finite doubles are multiples of `2 ^ (- scale)`. -/
def scale : ℕ := 1074

/-- The value of a finite pattern without its sign. -/
def magnitude (d : Double) : ℚ :=
  if d.exponent = 0 then d.mantissa / 2 ^ scale
  else ((2 ^ 52 + d.mantissa) * 2 ^ (d.exponent - 1) : ℕ) / 2 ^ scale

def toRat (d : Double) : ℚ := if d.sign then - d.magnitude else d.magnitude

/-- The double that an operation with this exact result returns; no result here is negative or
near the largest double. -/
def round (q : ℚ) : ℚ := roundBinary 53 scale q

/-- A literal of the source, in hundredths. -/
def percent (n : ℕ) : ℚ := round (n / 100)

theorem roundsWithin_round : RoundsWithin (1 / 2 ^ 53) (1 / 2 ^ 60) round where
  nonneg h := roundBinary_nonneg h
  error h := by
    have hunit : (1 : ℚ) / 2 ^ (scale + 1) ≤ 1 / 2 ^ 60 :=
      one_div_le_one_div_of_le (by positivity) (pow_le_pow_right₀ (by norm_num) (by decide))
    exact (abs_roundBinary_sub_le (by decide) h).trans (by linarith)

/-- The bit pattern of `1.0`. -/
def oneBits : ℕ := 0x3FF0000000000000

/-- Binary search for the largest pattern up to `1.0` whose value is at most `q`. -/
def floorBits (q : ℚ) : ℕ → ℕ → ℕ
  | 0, p => p
  | i + 1, p =>
      let p' := p + 2 ^ i
      floorBits q i (if p' ≤ oneBits ∧ (mk (UInt64.ofNat p')).toRat ≤ q then p' else p)

theorem floorBits_le (q : ℚ) (i p : ℕ) (h : p ≤ oneBits) : floorBits q i p ≤ oneBits := by
  induction i generalizing p with
  | zero => exact h
  | succ i ih =>
      apply ih
      split_ifs with hp
      · exact hp.1
      · exact h

/-- The pattern of the double nearest to `q` in `[0, 1]`, ties to even. -/
def nearestBits (q : ℚ) : ℕ :=
  let p := floorBits q 62 0
  let below := q - (mk (UInt64.ofNat p)).toRat
  let above := (mk (UInt64.ofNat (p + 1))).toRat - q
  if p < oneBits ∧ (above < below ∨ (above = below ∧ p % 2 = 1)) then p + 1 else p

theorem nearestBits_le (q : ℚ) : nearestBits q ≤ oneBits := by
  have h := floorBits_le q 62 0 (Nat.zero_le _)
  unfold nearestBits
  simp only
  split_ifs with hp
  · exact hp.1
  · exact h

/-- A pattern up to that of `1.0` denotes a number in `[0, 1]`. -/
theorem toRat_mem_unit {p : ℕ} (h : p ≤ oneBits) :
    (mk (UInt64.ofNat p)).isFinite = true ∧ 0 ≤ (mk (UInt64.ofNat p)).toRat ∧
      (mk (UInt64.ofNat p)).toRat ≤ 1 := by
  unfold oneBits at h
  have hbits : (UInt64.ofNat p).toNat = p :=
    UInt64.toNat_ofNat_of_lt' (show p < 2 ^ 64 by omega)
  have hexp : (mk (UInt64.ofNat p)).exponent = p / 2 ^ 52 := by
    simp only [exponent, hbits]
    omega
  have hsign : (mk (UInt64.ofNat p)).sign = false := by
    simp only [sign, hbits]
    exact decide_eq_false (by omega)
  have hman : (mk (UInt64.ofNat p)).mantissa = p % 2 ^ 52 := by
    simp only [mantissa, hbits]
  refine ⟨?_, ?_⟩
  · simp only [isFinite, hexp]
    exact decide_eq_true (by omega)
  · rw [toRat, hsign, if_neg (by decide), magnitude, hexp, hman]
    have hpos : (0 : ℚ) < 2 ^ scale := pow_pos (by norm_num) scale
    split_ifs with he
    · refine ⟨div_nonneg (Nat.cast_nonneg _) hpos.le, (div_le_one hpos).mpr ?_⟩
      have hm : p % 2 ^ 52 ≤ 2 ^ scale :=
        (Nat.mod_lt p (by positivity)).le.trans (Nat.pow_le_pow_right (by decide) (by decide))
      exact_mod_cast hm
    · refine ⟨div_nonneg (Nat.cast_nonneg _) hpos.le, (div_le_one hpos).mpr ?_⟩
      have hm : (2 ^ 52 + p % 2 ^ 52) * 2 ^ (p / 2 ^ 52 - 1) ≤ 2 ^ scale := by
        rcases Nat.lt_or_ge (p / 2 ^ 52) 1023 with hlt | hge
        · calc
            (2 ^ 52 + p % 2 ^ 52) * 2 ^ (p / 2 ^ 52 - 1) ≤ 2 ^ 53 * 2 ^ (scale - 53) :=
              Nat.mul_le_mul (by omega)
                (Nat.pow_le_pow_right (by decide) (by rw [scale]; omega))
            _ = 2 ^ scale := by rw [← pow_add, show 53 + (scale - 53) = scale from rfl]
        · have he : p / 2 ^ 52 = 1023 := by omega
          have hz : p % 2 ^ 52 = 0 := by omega
          rw [he, hz, add_zero, ← pow_add, show 52 + (1023 - 1) = scale from rfl]
      exact_mod_cast hm

end Double

/-- `v` is finite and lies in `[0, 1]`; the pattern of `-0.0` passes. -/
def Double.inUnit (d : Double) : Bool :=
  d.isFinite && !(decide (d.toRat < 0)) && !(decide (1 < d.toRat))

/-- The pattern of `2.0`. -/
theorem Double.inUnit_two : (⟨0x4000000000000000⟩ : Double).inUnit = false := by decide +kernel

/-- A score in `[0, 1]`. -/
structure HealthyScore where
  value : Double
  inUnit : value.inUnit = true

namespace HealthyScore

instance : DecidableEq HealthyScore := fun a b =>
  decidable_of_iff (a.value = b.value) (by cases a; cases b; simp)

/-- The checked constructor from a double. -/
def ofDouble (v : Double) : Except ValueError HealthyScore :=
  if !v.isFinite then .error ⟨"HealthyScore must be finite"⟩
  else if h : v.inUnit = true then .ok ⟨v, h⟩
  else .error ⟨"HealthyScore out of [0,1]"⟩

/-- The checked constructor from a computed double. -/
def ofRat (q : ℚ) : Except ValueError HealthyScore :=
  if q < 0 ∨ 1 < q then .error ⟨"HealthyScore out of [0,1]"⟩
  else .ok ⟨⟨UInt64.ofNat (Double.nearestBits q)⟩, by
    obtain ⟨hfin, hlo, hhi⟩ := Double.toRat_mem_unit (Double.nearestBits_le q)
    simp [Double.inUnit, hfin, hlo, hhi]⟩

/-- The score of a stored percentage. -/
def ofPercent (n : Fin 101) : HealthyScore :=
  ⟨⟨UInt64.ofNat (Double.nearestBits (n / 100))⟩, by
    obtain ⟨hfin, hlo, hhi⟩ := Double.toRat_mem_unit (Double.nearestBits_le ((n : ℚ) / 100))
    simp [Double.inUnit, hfin, hlo, hhi]⟩

instance : Zero HealthyScore := ⟨⟨⟨0⟩, by
  obtain ⟨hfin, hlo, hhi⟩ := Double.toRat_mem_unit (Nat.zero_le Double.oneBits)
  simp only [Double.inUnit, Bool.and_eq_true, Bool.not_eq_true', decide_eq_false_iff_not, not_lt]
  exact ⟨⟨hfin, hlo⟩, hhi⟩⟩⟩

instance : One HealthyScore := ⟨.ofPercent (Fin.last 100)⟩

instance : Inhabited HealthyScore := ⟨0⟩

theorem isFinite (s : HealthyScore) : s.value.isFinite = true := by
  have h := s.inUnit
  simp only [Double.inUnit, Bool.and_eq_true] at h
  exact h.1.1

theorem toRat_mem (s : HealthyScore) : 0 ≤ s.value.toRat ∧ s.value.toRat ≤ 1 := by
  have h := s.inUnit
  simp only [Double.inUnit, Bool.and_eq_true, Bool.not_eq_true', decide_eq_false_iff_not,
    not_lt] at h
  exact ⟨h.1.2, h.2⟩

theorem exists_ofRat {q : ℚ} (hlo : 0 ≤ q) (hhi : q ≤ 1) : ∃ s, ofRat q = .ok s := by
  unfold ofRat
  rw [if_neg (by rw [not_or, not_lt, not_lt]; exact ⟨hlo, hhi⟩)]
  exact ⟨_, rfl⟩

theorem ext {s t : HealthyScore} (h : s.value = t.value) : s = t := by
  cases s
  cases t
  cases h
  rfl

theorem ofDouble_eq_ok_iff {v : Double} {s : HealthyScore} :
    ofDouble v = .ok s ↔ s.value = v := by
  unfold ofDouble
  constructor
  · intro h
    split_ifs at h with hfin hunit
    cases h
    rfl
  · rintro rfl
    rw [if_neg (by simp [s.isFinite]), dif_pos s.inUnit]

theorem exists_ofDouble_iff {v : Double} :
    (∃ s, ofDouble v = .ok s) ↔ v.inUnit = true := by
  simp only [ofDouble_eq_ok_iff]
  constructor
  · rintro ⟨s, rfl⟩
    exact s.inUnit
  · intro h
    exact ⟨⟨v, h⟩, rfl⟩

end HealthyScore

/-! ## Strings -/

/-- A `std::string`, which holds any bytes. -/
structure Text where
  bytes : List UInt8 := []
deriving DecidableEq

/-- The text of a string literal, in the encoding of the source. -/
def Text.ofString (s : String) : Text := ⟨s.toUTF8.data.toList⟩

instance : Coe String Text := ⟨Text.ofString⟩

end FragmentationGovernor
