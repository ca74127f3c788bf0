import FragmentationGovernor.Library.Wire

/-! # Cyclic redundancy checks

The reflected division of a byte string by a polynomial of any degree. The register is linear
in the bytes, and no step forgets anything: two strings that differ in no more bytes than the
register holds, one next to the other, never leave the same register. -/

namespace FragmentationGovernor.Crc

open Codec

variable {w : ℕ} (poly : BitVec w)

/-! ## One bit -/

/-- One bit of the division. -/
def bit (c : BitVec w) : BitVec w := if c.getLsbD 0 then poly ^^^ (c >>> 1) else c >>> 1

theorem bit_xor (c d : BitVec w) : bit poly (c ^^^ d) = bit poly c ^^^ bit poly d := by
  unfold bit
  rw [BitVec.getLsbD_xor, BitVec.ushiftRight_xor_distrib]
  cases c.getLsbD 0 with
  | false =>
      cases d.getLsbD 0 with
      | false => rfl
      | true =>
          simp only [Bool.false_xor, if_true, Bool.false_eq_true, if_false]
          rw [← BitVec.xor_assoc, ← BitVec.xor_assoc, BitVec.xor_comm poly]
  | true =>
      cases d.getLsbD 0 with
      | false =>
          simp only [Bool.xor_false, if_true, Bool.false_eq_true, if_false]
          rw [BitVec.xor_assoc]
      | true =>
          -- the polynomial is added twice
          simp only [Bool.xor_self, if_true, Bool.false_eq_true, if_false]
          rw [BitVec.xor_comm poly (d >>> 1), ← BitVec.xor_assoc, BitVec.xor_assoc poly,
            BitVec.xor_comm poly, BitVec.xor_assoc, BitVec.xor_self, BitVec.xor_zero]

theorem iterate_bit_xor (n : ℕ) (c d : BitVec w) :
    (bit poly)^[n] (c ^^^ d) = (bit poly)^[n] c ^^^ (bit poly)^[n] d := by
  induction n generalizing c d with
  | zero => rfl
  | succ n ih => rw [Function.iterate_succ_apply, bit_xor, ih]; rfl

/-- Nothing is forgotten when the polynomial has its highest coefficient. -/
theorem bit_injective (h : poly.msb = true) : Function.Injective (bit poly) := by
  intro c d hcd
  have hzero : bit poly (c ^^^ d) = 0#w := by rw [bit_xor, hcd, BitVec.xor_self]
  rw [← BitVec.xor_eq_zero_iff]
  generalize c ^^^ d = x at hzero
  unfold bit at hzero
  cases hx : x.getLsbD 0 with
  | false =>
      rw [hx, if_neg Bool.false_ne_true] at hzero
      apply BitVec.eq_of_getLsbD_eq
      intro i hi
      cases i with
      | zero => rw [hx, BitVec.getLsbD_zero]
      | succ i =>
          have hbit := congrArg (fun y => BitVec.getLsbD y i) hzero
          simpa [BitVec.getLsbD_ushiftRight, Nat.add_comm 1 i] using hbit
  | true =>
      rw [hx, if_pos rfl, BitVec.xor_eq_zero_iff] at hzero
      rw [hzero, BitVec.msb_ushiftRight] at h
      simp at h

theorem iterate_bit_injective (h : poly.msb = true) (n : ℕ) :
    Function.Injective ((bit poly)^[n]) := (bit_injective poly h).iterate n

/-- A register whose low bits are clear is shifted. -/
theorem iterate_bit_shiftLeft {n : ℕ} {x : BitVec w} (h : x.toNat * 2 ^ n < 2 ^ w) :
    (bit poly)^[n] (x <<< n) = x := by
  induction n with
  | zero => simp
  | succ n ih =>
      have hmul : x.toNat * 2 ^ (n + 1) = 2 * (x.toNat * 2 ^ n) := by ring
      have hlt : x.toNat * 2 ^ n < 2 ^ w := by omega
      have hbit : bit poly (x <<< (n + 1)) = x <<< n := by
        have hlow : (x <<< (n + 1)).getLsbD 0 = false := by simp
        rw [bit, hlow, if_neg Bool.false_ne_true]
        apply BitVec.eq_of_toNat_eq
        rw [BitVec.toNat_ushiftRight, BitVec.toNat_shiftLeft, BitVec.toNat_shiftLeft,
          Nat.shiftLeft_eq, Nat.shiftLeft_eq, Nat.mod_eq_of_lt h, Nat.mod_eq_of_lt hlt,
          Nat.shiftRight_eq_div_pow, hmul]
        omega
      rw [Function.iterate_succ_apply, hbit]
      exact ih hlt

/-- The division of a register by way of its low bits alone: the high ones are shifted. -/
theorem iterate_bit_eq_low (n : ℕ) (x : BitVec w) :
    (bit poly)^[n] x =
      (bit poly)^[n] (x &&& BitVec.ofNat w (2 ^ n - 1)) ^^^ (x >>> n) := by
  have hsplit : x = (x &&& BitVec.ofNat w (2 ^ n - 1)) ^^^ ((x >>> n) <<< n) := by
    apply BitVec.eq_of_getLsbD_eq
    intro i hi
    rw [BitVec.getLsbD_xor, BitVec.getLsbD_and, BitVec.getLsbD_ofNat, BitVec.getLsbD_shiftLeft,
      BitVec.getLsbD_ushiftRight, Nat.testBit_two_pow_sub_one]
    by_cases hlow : i < n
    · simp [hi, hlow]
    · simp [hi, hlow, Nat.add_sub_cancel' (not_lt.mp hlow)]
  have hshift : (bit poly)^[n] ((x >>> n) <<< n) = x >>> n := by
    apply iterate_bit_shiftLeft
    rw [BitVec.toNat_ushiftRight, Nat.shiftRight_eq_div_pow]
    exact (Nat.div_mul_le_self _ _).trans_lt x.isLt
  conv_lhs => rw [hsplit, iterate_bit_xor, hshift]

/-! ## Bytes -/

/-- One byte of the division. -/
def byte (c : BitVec w) (b : UInt8) : BitVec w := (bit poly)^[8] (c ^^^ b.toBitVec.setWidth w)

/-- The bytes as a register, the first one lowest. -/
def word (w : ℕ) (bs : List UInt8) : BitVec w := BitVec.ofNat w (number bs)

theorem word_cons (b : UInt8) (bs : List UInt8) :
    word w (b :: bs) = b.toBitVec.setWidth w ^^^ (word w bs <<< 8) := by
  apply BitVec.eq_of_getLsbD_eq
  intro i hi
  have hb : b.toNat < 2 ^ 8 := b.toNat_lt
  have hnum : number (b :: bs) = 2 ^ 8 * number bs + b.toNat := by
    rw [number_cons, Nat.add_comm]
    rfl
  rw [word, word, BitVec.getLsbD_xor, BitVec.getLsbD_setWidth, BitVec.getLsbD_shiftLeft,
    BitVec.getLsbD_ofNat, BitVec.getLsbD_ofNat, hnum, Nat.testBit_two_pow_mul_add _ hb]
  by_cases h8 : i < 8
  · simp [hi, h8, BitVec.getLsbD]
  · have hhigh : b.toNat.testBit i = false :=
      Nat.testBit_lt_two_pow (hb.trans_le (Nat.pow_le_pow_right (by decide) (by omega)))
    have hshift : i - 8 < w := by omega
    simp [hi, h8, BitVec.getLsbD, hhigh, hshift]

theorem word_injective {bs cs : List UInt8} (hlen : bs.length = cs.length)
    (hw : 8 * bs.length ≤ w) (h : word w bs = word w cs) : bs = cs := by
  have hlt : ∀ ds : List UInt8, ds.length = bs.length → number ds < 2 ^ w := by
    intro ds hds
    refine (number_lt ds).trans_le ?_
    rw [show 256 = 2 ^ 8 from rfl, ← pow_mul, hds]
    exact Nat.pow_le_pow_right (by decide) hw
  have hnum := congrArg BitVec.toNat h
  rw [word, word, BitVec.toNat_ofNat, BitVec.toNat_ofNat, Nat.mod_eq_of_lt (hlt bs rfl),
    Nat.mod_eq_of_lt (hlt cs hlen.symm)] at hnum
  rw [← littleEndian_number bs, ← littleEndian_number cs, hnum, hlen]

theorem toNat_word_lt (bs : List UInt8) (n : ℕ) (h : 8 * bs.length + n ≤ w) :
    (word w bs).toNat * 2 ^ n < 2 ^ w := by
  have hle : (word w bs).toNat ≤ number bs := by
    rw [word, BitVec.toNat_ofNat]
    exact Nat.mod_le _ _
  have hlt : number bs < 2 ^ (8 * bs.length) := by
    rw [pow_mul]
    exact number_lt bs
  calc (word w bs).toNat * 2 ^ n < 2 ^ (8 * bs.length) * 2 ^ n :=
        Nat.mul_lt_mul_of_pos_right (hle.trans_lt hlt) (Nat.two_pow_pos n)
    _ = 2 ^ (8 * bs.length + n) := (pow_add _ _ _).symm
    _ ≤ 2 ^ w := Nat.pow_le_pow_right (by decide) h

/-- No more bytes than the register holds are as good as one word. -/
theorem foldl_byte {bs : List UInt8} (h : 8 * bs.length ≤ w) (c : BitVec w) :
    bs.foldl (byte poly) c = (bit poly)^[8 * bs.length] (c ^^^ word w bs) := by
  induction bs generalizing c with
  | nil => simp [word]
  | cons b bs ih =>
      rw [List.length_cons] at h
      -- the later bytes can be added before the first one is divided out
      have hshift : (bit poly)^[8] (word w bs <<< 8) = word w bs :=
        iterate_bit_shiftLeft poly (toNat_word_lt bs 8 (by omega))
      calc (b :: bs).foldl (byte poly) c
          = (bit poly)^[8 * bs.length] (byte poly c b ^^^ word w bs) := ih (by omega) _
        _ = (bit poly)^[8 * bs.length]
              ((bit poly)^[8] (c ^^^ b.toBitVec.setWidth w ^^^ word w bs <<< 8)) := by
            rw [iterate_bit_xor poly 8, hshift, byte]
        _ = (bit poly)^[8 * (b :: bs).length] (c ^^^ word w (b :: bs)) := by
            rw [← Function.iterate_add_apply, word_cons, BitVec.xor_assoc, List.length_cons,
              Nat.mul_succ]

/-! ## Strings -/

section Strings

variable {poly}

theorem foldl_byte_injective (h : poly.msb = true) (bs : List UInt8) :
    Function.Injective (fun c => bs.foldl (byte poly) c) := by
  induction bs with
  | nil => exact Function.injective_id
  | cons b bs ih =>
      intro c d hcd
      have hbyte : byte poly c b = byte poly d b := ih hcd
      exact (BitVec.xor_left_inj _).mp (iterate_bit_injective poly h 8 hbyte)

/-- Strings that differ within as many bytes as the register holds leave different
registers. -/
theorem eq_of_burst (h : poly.msb = true) {front bs cs back : List UInt8} {c : BitVec w}
    (hlen : bs.length = cs.length) (hw : 8 * bs.length ≤ w)
    (heq : (front ++ bs ++ back).foldl (byte poly) c = (front ++ cs ++ back).foldl (byte poly) c) :
    bs = cs := by
  simp only [List.foldl_append] at heq
  have hmid := foldl_byte_injective h back heq
  generalize front.foldl (byte poly) c = c' at hmid
  have hw' : 8 * cs.length ≤ w := by rwa [← hlen]
  rw [foldl_byte poly hw, foldl_byte poly hw', hlen] at hmid
  exact word_injective hlen hw
    ((BitVec.xor_right_inj _).mp (iterate_bit_injective poly h _ hmid))

/-- A string that ends in its own register, complemented by `m`, leaves a register that
depends on `m` alone. -/
theorem foldl_byte_residue {body stored : List UInt8} {c m : BitVec w}
    (hw : 8 * stored.length = w) (h : word w stored = body.foldl (byte poly) c ^^^ m) :
    (body ++ stored).foldl (byte poly) c = (bit poly)^[w] m := by
  rw [List.foldl_append, foldl_byte poly hw.le, h, hw, ← BitVec.xor_assoc, BitVec.xor_self,
    BitVec.zero_xor]

end Strings

end FragmentationGovernor.Crc
