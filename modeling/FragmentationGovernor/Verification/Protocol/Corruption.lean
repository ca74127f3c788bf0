import FragmentationGovernor.Library.Crc
import FragmentationGovernor.Verification.Persistence.Reload
import FragmentationGovernor.Verification.Protocol.Extent
import FragmentationGovernor.Verification.Protocol.Rejection

/-! # Corruption

The table-driven checksum is the division by the polynomial of degree 32. What a decoder
accepts ends in its own checksum, so that a change of up to four bytes in a row is always
noticed. -/

namespace FragmentationGovernor.Codec

open Decoder

/-! ## The checksum as a division -/

/-- The reflected polynomial. -/
def crcPoly : BitVec 32 := 0xEDB88320#32

theorem toBitVec_crcBit (c : UInt32) : (crcBit c).toBitVec = Crc.bit crcPoly c.toBitVec := by
  have hlow : (c &&& 1 = 1) ↔ c.toBitVec.getLsbD 0 = true := by
    have hand : (c &&& 1).toBitVec = (BitVec.ofBool (c.toBitVec.getLsbD 0)).setWidth 32 := by
      rw [UInt32.toBitVec_and]
      exact BitVec.and_one_eq_setWidth_ofBool_getLsbD
    rw [← UInt32.toBitVec_inj, hand]
    cases c.toBitVec.getLsbD 0 with
    | false => decide
    | true => decide
  unfold crcBit Crc.bit
  by_cases h : c &&& 1 = 1
  · rw [if_pos h, if_pos (hlow.mp h)]
    rfl
  · rw [if_neg h, if_neg (fun ht => h (hlow.mpr ht))]
    rfl

theorem toBitVec_crcTable (i : UInt32) :
    (crcTable i).toBitVec = (Crc.bit crcPoly)^[8] i.toBitVec :=
  (Function.Semiconj.iterate_right (fun c => toBitVec_crcBit c) 8) i

theorem toBitVec_crcByte (c : UInt32) (b : UInt8) :
    (crcByte c b).toBitVec = Crc.byte crcPoly c.toBitVec b := by
  unfold crcByte Crc.byte
  rw [UInt32.toBitVec_xor, toBitVec_crcTable, UInt32.toBitVec_and, UInt32.toBitVec_xor,
    Crc.iterate_bit_eq_low crcPoly 8 (c.toBitVec ^^^ b.toBitVec.setWidth 32)]
  -- the byte does not reach the bits that are shifted
  have hhigh : (c.toBitVec ^^^ b.toBitVec.setWidth 32) >>> 8 = c.toBitVec >>> 8 := by
    have hb : (b.toBitVec.setWidth 32) >>> 8 = 0#32 := by
      apply BitVec.eq_of_toNat_eq
      rw [BitVec.toNat_ushiftRight, BitVec.toNat_setWidth, Nat.shiftRight_eq_div_pow]
      have hlt := b.toNat_lt
      exact Nat.div_eq_of_lt ((Nat.mod_le _ _).trans_lt hlt)
    rw [BitVec.ushiftRight_xor_distrib, hb, BitVec.xor_zero]
  rw [hhigh]
  rfl

theorem toBitVec_foldl_crcByte (bs : List UInt8) (c : UInt32) :
    (bs.foldl crcByte c).toBitVec = bs.foldl (Crc.byte crcPoly) c.toBitVec := by
  induction bs generalizing c with
  | nil => rfl
  | cons b bs ih => rw [List.foldl_cons, List.foldl_cons, ih, toBitVec_crcByte]

/-! ## Inputs that end in their checksum -/

/-- The last four bytes are the checksum of those in front of them. -/
def Sealed (bytes : List UInt8) : Prop :=
  ∃ body stored, bytes = body ++ stored ∧ stored.length = 4 ∧
    number stored = (crc32 body).toNat

/-- The division of sealed bytes always leaves the same. -/
theorem Sealed.residue {bytes : List UInt8} (h : Sealed bytes) :
    bytes.foldl (Crc.byte crcPoly) 0xFFFFFFFF#32 = (Crc.bit crcPoly)^[32] 0xFFFFFFFF#32 := by
  obtain ⟨body, stored, rfl, hlen, hnum⟩ := h
  refine Crc.foldl_byte_residue (by rw [hlen]) ?_
  have hfold := toBitVec_foldl_crcByte body 0xFFFFFFFF
  rw [Crc.word, hnum, show (0xFFFFFFFF#32 : BitVec 32) = (0xFFFFFFFF : UInt32).toBitVec from rfl,
    ← hfold, ← UInt32.toBitVec_xor, ← crc32]
  exact BitVec.eq_of_toNat_eq (by simp)

/-- The inputs are as long as each other and agree outside four bytes in a row. -/
def Burst (i : ℕ) (b b' : List UInt8) : Prop :=
  b.length = b'.length ∧ ∀ j, j < i ∨ i + 4 ≤ j → b[j]? = b'[j]?

theorem Burst.take_eq {i : ℕ} {b b' : List UInt8} (h : Burst i b b') : b.take i = b'.take i := by
  apply List.ext_getElem?
  intro j
  rw [List.getElem?_take, List.getElem?_take]
  split_ifs with hj
  · exact h.2 j (Or.inl hj)
  · rfl

theorem Burst.drop_eq {i : ℕ} {b b' : List UInt8} (h : Burst i b b') :
    b.drop (i + 4) = b'.drop (i + 4) := by
  apply List.ext_getElem?
  intro j
  rw [List.getElem?_drop, List.getElem?_drop]
  exact h.2 _ (Or.inr (by omega))

/-- Sealed inputs never differ in a burst. -/
theorem Sealed.eq_of_burst {i : ℕ} {b b' : List UInt8} (hb : Sealed b) (hb' : Sealed b')
    (h : Burst i b b') : b = b' := by
  have hsplit : ∀ bs : List UInt8,
      bs = bs.take i ++ (bs.drop i).take 4 ++ bs.drop (i + 4) := by
    intro bs
    rw [← List.take_add, List.take_append_drop]
  have hlen : ((b.drop i).take 4).length = ((b'.drop i).take 4).length := by
    rw [List.length_take, List.length_take, List.length_drop, List.length_drop, h.1]
  have hwindow : 8 * ((b.drop i).take 4).length ≤ 32 := by
    rw [List.length_take]
    omega
  have hres := hb.residue.trans hb'.residue.symm
  rw [hsplit b, hsplit b', ← h.take_eq, ← h.drop_eq] at hres
  have hmid := Crc.eq_of_burst (by decide) hlen hwindow hres
  rw [hsplit b, hsplit b', ← h.take_eq, ← h.drop_eq, hmid]

theorem sealed_of_decodeState {bytes : List UInt8} {s : PersistedState}
    (h : decodeState bytes = .ok s) : Sealed bytes := by
  obtain ⟨body, stored, -, hbytes, -, hlen, hnum⟩ := decodeState_eq_append h
  exact ⟨body, stored, hbytes, hlen, hnum⟩

end FragmentationGovernor.Codec

namespace FragmentationGovernor.Protocol

open Codec

theorem sealed_frame (payload : List UInt8) : Sealed (frame payload) := by
  refine ⟨framed payload, _, rfl, length_u32 _, ?_⟩
  exact number_u32 (crc32 (framed payload)).toNat_lt

/-- A change of an accepted state or frame within four bytes in a row is refused. -/
theorem burst_refused {i : ℕ} {b b' : List UInt8} (h : Burst i b b') (hne : b ≠ b') :
    ((∃ s, decodeState b = .ok s) → ∃ e, decodeState b' = .error e) ∧
      ((∃ m, frameDecode b = .ok (some m)) → frameDecode b' = .ok none) := by
  constructor
  · rintro ⟨s, hs⟩
    cases hs' : decodeState b' with
    | error e => exact ⟨e, rfl⟩
    | ok s' =>
        exact (hne ((sealed_of_decodeState hs).eq_of_burst (sealed_of_decodeState hs') h)).elim
  · rintro ⟨m, hm⟩
    rcases frameDecode_cases b with hnone | ⟨payload, -, rfl⟩
    · rw [hnone] at hm
      cases hm
    · rcases frameDecode_cases b' with hnone | ⟨payload', -, rfl⟩
      · exact hnone
      · exact (hne ((sealed_frame payload).eq_of_burst (sealed_frame payload') h)).elim

theorem burst_set (b : List UInt8) (i : ℕ) (v : UInt8) : Burst i b (b.set i v) := by
  refine ⟨List.length_set.symm, ?_⟩
  intro j hj
  rw [List.getElem?_set_ne (by omega)]

def greeting : Message := { type := .hello }

theorem sendable_greeting : Sendable greeting := sendable_plain rfl rfl rfl rfl rfl

theorem frameDecode_greeting : frameDecode (frameEncode greeting) = .ok (some greeting) := by
  have hframe : frameDecode (frameEncode greeting) = decodePayload (encodePayload greeting) :=
    frameDecode_frame (by decide)
  rw [hframe, decodePayload_of_transmitted sendable_greeting rfl]

/-- A state with a byte of its plan count changed, and a greeting with one of its checksum. -/
theorem burst_refused_set :
    (∃ e, decodeState (sampleBytes.set 8 2) = .error e) ∧
      frameDecode ((frameEncode greeting).set 20 0) = .ok none :=
  ⟨(burst_refused (burst_set sampleBytes 8 2) (by decide +kernel)).1 ⟨_, decodeState_sampleBytes⟩,
    (burst_refused (burst_set (frameEncode greeting) 20 0) (by decide +kernel)).2
      ⟨_, frameDecode_greeting⟩⟩

end FragmentationGovernor.Protocol
