import Mathlib.Algebra.Order.BigOperators.Group.List
import Mathlib.Algebra.Order.Floor.Ring
import Mathlib.Algebra.Order.Ring.Abs
import Mathlib.Data.Rat.Floor
import Mathlib.Tactic.Linarith
import Mathlib.Tactic.Positivity

/-! # Rounding to binary digits

Numbers with a given number of binary digits and a smallest unit, as a floating-point format has
them. A rounded result is off by a relative error of half a last digit or an absolute one of half
a unit, and a sum that is rounded at every step by what its steps are off. -/

namespace FragmentationGovernor

/-! ## Integers -/

/-- The nearest integer, ties to the even one. -/
def roundEven (q : ℚ) : ℤ :=
  if q - ⌊q⌋ < 1 / 2 ∨ (q - ⌊q⌋ = 1 / 2 ∧ ⌊q⌋ % 2 = 0) then ⌊q⌋ else ⌊q⌋ + 1

theorem roundEven_nonneg {q : ℚ} (h : 0 ≤ q) : 0 ≤ roundEven q := by
  have hfloor : 0 ≤ ⌊q⌋ := Int.floor_nonneg.mpr h
  unfold roundEven
  split_ifs
  · exact hfloor
  · omega

theorem abs_roundEven_sub_le (q : ℚ) : |(roundEven q : ℚ) - q| ≤ 1 / 2 := by
  have hlo := Int.floor_le q
  have hhi := Int.lt_floor_add_one q
  unfold roundEven
  split_ifs with h
  · rw [abs_le]
    rcases h with h | ⟨h, -⟩ <;> constructor <;> linarith
  · push Not at h
    have hge : 1 / 2 ≤ q - ⌊q⌋ := h.1
    push_cast
    rw [abs_le]
    constructor <;> linarith

/-! ## Binary digits -/

/-- The distance of the numbers with `prec` binary digits around `q`. -/
def spacing (prec : ℕ) (q : ℚ) : ℕ := 2 ^ (⌊q⌋.toNat.log2 + 1 - prec)

/-- The number with `prec` binary digits nearest to `q`, in units of `2 ^ (- scale)`. -/
def roundBinary (prec scale : ℕ) (q : ℚ) : ℚ :=
  roundEven (q * 2 ^ scale / spacing prec (q * 2 ^ scale)) * spacing prec (q * 2 ^ scale) /
    2 ^ scale

theorem spacing_pos (prec : ℕ) (q : ℚ) : (0 : ℚ) < spacing prec q := by
  unfold spacing
  positivity

/-- Half of the distance is a unit or what the last digit is worth. -/
theorem spacing_le {prec : ℕ} (hprec : 0 < prec) {q : ℚ} (h : 0 ≤ q) :
    (spacing prec q : ℚ) ≤ q * (2 / 2 ^ prec) + 1 := by
  unfold spacing
  rw [Int.floor_toNat]
  by_cases hp : ⌊q⌋₊.log2 + 1 ≤ prec
  · have hquot : 0 ≤ q * (2 / 2 ^ prec) := by positivity
    rw [Nat.sub_eq_zero_of_le hp, pow_zero, Nat.cast_one]
    linarith
  · have hne : ⌊q⌋₊ ≠ 0 := by
      intro hzero
      rw [hzero, Nat.log2_zero] at hp
      omega
    have hpow : (2 : ℚ) ^ ⌊q⌋₊.log2 ≤ q := by
      have hfloor : ((2 ^ ⌊q⌋₊.log2 : ℕ) : ℚ) ≤ ⌊q⌋₊ :=
        Nat.cast_le.mpr (Nat.log2_self_le hne)
      rw [Nat.cast_pow, Nat.cast_two] at hfloor
      exact hfloor.trans (Nat.floor_le h)
    have hsplit : (2 : ℚ) ^ (⌊q⌋₊.log2 + 1 - prec) * 2 ^ prec =
        2 ^ ⌊q⌋₊.log2 * 2 := by
      rw [← pow_add, ← pow_succ, Nat.sub_add_cancel (by omega)]
    have hdigits : (0 : ℚ) < 2 ^ prec := by positivity
    have hle : (2 : ℚ) ^ (⌊q⌋₊.log2 + 1 - prec) ≤ q * (2 / 2 ^ prec) := by
      rw [mul_div_assoc', le_div_iff₀ hdigits, hsplit]
      linarith
    push_cast
    linarith

theorem roundBinary_nonneg {prec scale : ℕ} {q : ℚ} (h : 0 ≤ q) : 0 ≤ roundBinary prec scale q := by
  have hs := spacing_pos prec (q * 2 ^ scale)
  have hround : (0 : ℚ) ≤ roundEven (q * 2 ^ scale / spacing prec (q * 2 ^ scale)) :=
    Int.cast_nonneg (roundEven_nonneg (by positivity))
  unfold roundBinary
  positivity

/-- What rounding changes. -/
theorem abs_roundBinary_sub_le {prec scale : ℕ} (hprec : 0 < prec) {q : ℚ} (h : 0 ≤ q) :
    |roundBinary prec scale q - q| ≤ q * (1 / 2 ^ prec) + 1 / 2 ^ (scale + 1) := by
  have hunit : (0 : ℚ) < 2 ^ scale := by positivity
  have hs := spacing_pos prec (q * 2 ^ scale)
  have hle := @spacing_le prec hprec (q * 2 ^ scale) (by positivity)
  have hoff := abs_roundEven_sub_le (q * 2 ^ scale / spacing prec (q * 2 ^ scale))
  have hsame : roundBinary prec scale q - q =
      (roundEven (q * 2 ^ scale / spacing prec (q * 2 ^ scale)) -
        q * 2 ^ scale / spacing prec (q * 2 ^ scale)) *
          (spacing prec (q * 2 ^ scale) / 2 ^ scale) := by
    unfold roundBinary
    field_simp
  rw [hsame, abs_mul, abs_of_pos (div_pos hs hunit)]
  calc
    _ ≤ 1 / 2 * (spacing prec (q * 2 ^ scale) / 2 ^ scale : ℚ) :=
      mul_le_mul_of_nonneg_right hoff (div_pos hs hunit).le
    _ ≤ 1 / 2 * ((q * 2 ^ scale * (2 / 2 ^ prec) + 1) / 2 ^ scale) := by
      have hdiv := div_le_div_of_nonneg_right hle hunit.le
      linarith
    _ = q * (1 / 2 ^ prec) + 1 / 2 ^ (scale + 1) := by
      rw [pow_succ]
      field_simp

/-! ## Sums -/

section Sums

variable {α : Type*} [Field α] [LinearOrder α] [IsStrictOrderedRing α] {ε δ : α} {rnd : α → α}

/-- Rounding of numbers that are not negative, up to a relative and an absolute error. -/
structure RoundsWithin (ε δ : α) (rnd : α → α) : Prop where
  nonneg : ∀ {q}, 0 ≤ q → 0 ≤ rnd q
  error : ∀ {q}, 0 ≤ q → |rnd q - q| ≤ q * ε + δ

theorem RoundsWithin.le (h : RoundsWithin ε δ rnd) {q : α} (hq : 0 ≤ q) :
    rnd q ≤ q + (q * ε + δ) := by
  have herror := (abs_le.mp (h.error hq)).2
  linarith

theorem RoundsWithin.ge (h : RoundsWithin ε δ rnd) {q : α} (hq : 0 ≤ q) :
    q - (q * ε + δ) ≤ rnd q := by
  have herror := (abs_le.mp (h.error hq)).1
  linarith

/-- The sum from the front, rounded after every addition. -/
def roundedSum (rnd : α → α) (xs : List α) : α := xs.foldl (fun s x => rnd (s + x)) 0

/-- A sum of numbers up to `b` that stays below `m` is off by the errors of numbers up to `m`. -/
theorem RoundsWithin.roundedSum_mem (h : RoundsWithin ε δ rnd) (hε : 0 ≤ ε) (hδ : 0 ≤ δ)
    {b m : α} (hb : 0 ≤ b) (hm0 : 0 ≤ m) {xs : List α} (hxs : ∀ x ∈ xs, 0 ≤ x ∧ x ≤ b)
    (hm : xs.length * (b + (m * ε + δ)) ≤ m) :
    0 ≤ roundedSum rnd xs ∧ roundedSum rnd xs ≤ xs.length * (b + (m * ε + δ)) := by
  have herr : 0 ≤ m * ε + δ := add_nonneg (mul_nonneg hm0 hε) hδ
  induction xs using List.reverseRecOn with
  | nil => simp [roundedSum]
  | append_singleton xs x ih =>
      have hlen : ((xs ++ [x]).length : α) = xs.length + 1 := by simp
      have hstep : (xs.length + 1 : α) * (b + (m * ε + δ)) =
          xs.length * (b + (m * ε + δ)) + (b + (m * ε + δ)) := by ring
      rw [hlen, hstep] at hm ⊢
      obtain ⟨hlo, hhi⟩ := ih (fun y hy => hxs y (by simp [hy])) (by linarith)
      obtain ⟨hx0, hxb⟩ := hxs x (by simp)
      have hsnoc : roundedSum rnd (xs ++ [x]) = rnd (roundedSum rnd xs + x) := by
        simp [roundedSum]
      have hsum : 0 ≤ roundedSum rnd xs + x := by linarith
      have hoff : (roundedSum rnd xs + x) * ε ≤ m * ε :=
        mul_le_mul_of_nonneg_right (by linarith) hε
      have hround := h.le hsum
      rw [hsnoc]
      exact ⟨h.nonneg hsum, by linarith⟩

end Sums

end FragmentationGovernor
