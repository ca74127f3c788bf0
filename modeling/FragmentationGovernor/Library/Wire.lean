import Mathlib.Tactic
import Mathlib.Data.Nat.Digits.Lemmas

/-! # Little-endian bytes and bounded readers

Numbers of a fixed width as bytes, and decoders that read them back. A read beyond the end
of the input does not stop a decoder: it yields zero and leaves the reader marked as failed,
so that the decoder finds out where it asks. -/

namespace FragmentationGovernor

namespace Codec

/-! ## Writing -/

def u8 (v : ℕ) : List UInt8 := [UInt8.ofNat v]

/-- The `n` low bytes of a number, the lowest first. -/
def littleEndian : ℕ → ℕ → List UInt8
  | 0, _ => []
  | n + 1, v => UInt8.ofNat v :: littleEndian n (v / 256)

def u32 (v : ℕ) : List UInt8 := littleEndian 4 v

def u64 (v : UInt64) : List UInt8 := littleEndian 8 v.toNat

def bool (b : Bool) : List UInt8 := u8 (if b then 1 else 0)

/-- The number with these bytes, the lowest first. -/
def number (bs : List UInt8) : ℕ := Nat.ofDigits 256 (bs.map UInt8.toNat)

@[simp] theorem number_nil : number [] = 0 := rfl

theorem number_cons (b : UInt8) (bs : List UInt8) :
    number (b :: bs) = b.toNat + 256 * number bs := by
  simp [number, Nat.ofDigits_cons]

theorem number_lt (bs : List UInt8) : number bs < 256 ^ bs.length := by
  have h := Nat.ofDigits_lt_base_pow_length (b := 256) (l := bs.map UInt8.toNat) (by decide)
    (fun x hx => by
      obtain ⟨b, -, rfl⟩ := List.mem_map.mp hx
      exact b.toNat_lt)
  rwa [List.length_map] at h

@[simp] theorem length_littleEndian (n v : ℕ) : (littleEndian n v).length = n := by
  induction n generalizing v with
  | zero => rfl
  | succ n ih => simp [littleEndian, ih]

@[simp] theorem length_u8 (v : ℕ) : (u8 v).length = 1 := rfl

@[simp] theorem length_u32 (v : ℕ) : (u32 v).length = 4 := length_littleEndian 4 v

@[simp] theorem length_u64 (v : UInt64) : (u64 v).length = 8 := length_littleEndian 8 v.toNat

@[simp] theorem length_bool (b : Bool) : (bool b).length = 1 := rfl

/-- The bytes of a number keep what the width can hold of it. -/
theorem number_littleEndian (n v : ℕ) : number (littleEndian n v) = v % 256 ^ n := by
  induction n generalizing v with
  | zero => simp [littleEndian, Nat.mod_one]
  | succ n ih =>
      have hb : (UInt8.ofNat v).toNat = v % 256 := UInt8.toNat_ofNat'
      rw [littleEndian, number_cons, ih, hb, pow_succ', Nat.mod_mul]

/-- Bytes are the bytes of their number. -/
theorem littleEndian_number (bs : List UInt8) : littleEndian bs.length (number bs) = bs := by
  induction bs with
  | nil => rfl
  | cons b bs ih =>
      have hdiv : number (b :: bs) / 256 = number bs := by
        rw [number_cons]
        have hb := b.toNat_lt
        omega
      have hmod : UInt8.ofNat (number (b :: bs)) = b := by
        apply UInt8.toNat_inj.mp
        rw [UInt8.toNat_ofNat', number_cons]
        have hb := b.toNat_lt
        omega
      rw [List.length_cons, littleEndian, hdiv, hmod, ih]

theorem u32_number {bs : List UInt8} (h : bs.length = 4) : u32 (number bs) = bs := by
  have hbs := littleEndian_number bs
  rwa [h] at hbs

end Codec

/-! ## Readers -/

/-- What is left of the input, whether every read so far was within it, and the text of the
last failure. -/
structure Reader where
  rest : List UInt8
  ok : Bool := true
  err : String := ""

/-- A decoder reads on, or gives up with an error. -/
abbrev Decoder (ε α : Type) := StateT Reader (Except ε) α

namespace Decoder

open Codec

variable {ε α β : Type}

/-- Marks the reader as failed. -/
def mark (why : String) : Decoder ε Unit := fun r => .ok ((), { r with ok := false, err := why })

/-- The next `n` bytes; none and a failed reader when fewer are left. -/
def take (why : String) (n : ℕ) : Decoder ε (List UInt8) := fun r =>
  if n > r.rest.length then .ok ([], { r with ok := false, err := why })
  else .ok (r.rest.take n, { r with rest := r.rest.drop n })

/-- A number of `n` bytes; zero when fewer are left. -/
def word (why : String) (n : ℕ) : Decoder ε ℕ := number <$> take why n

/-- Gives up with an error computed from a reader that has failed. -/
def check (e : Reader → ε) : Decoder ε Unit := fun r =>
  if !r.ok then .error (e r) else .ok ((), r)

/-- Gives up unless the condition holds. -/
def demand (p : Prop) [Decidable p] (e : ε) : Decoder ε Unit := fun r =>
  if p then .ok ((), r) else .error e

/-- The value of an enumeration with the given ordinal. -/
def enum (ofNat : ℕ → α) (last : ℕ) (e : ε) (v : ℕ) : Decoder ε α := do
  demand (v ≤ last) e
  pure (ofNat v)

/-- Reads `n` values in a row. -/
def times (p : Decoder ε α) : ℕ → Decoder ε (List α)
  | 0 => pure []
  | n + 1 => do
      let a ← p
      let as ← times p n
      pure (a :: as)

/-- A value behind a flag. -/
def optional (flag : Decoder ε Bool) (p : Decoder ε α) : Decoder ε (Option α) := do
  if ← flag then
    let a ← p
    pure (some a)
  else pure none

/-! ## Sequencing -/

theorem bind_apply (p : Decoder ε α) (f : α → Decoder ε β) (r : Reader) :
    (p >>= f) r = (p r).bind (fun x => f x.1 x.2) := rfl

theorem map_apply (g : α → β) (p : Decoder ε α) (r : Reader) :
    (g <$> p) r = (p r).map (fun x => (g x.1, x.2)) := by
  cases h : p r with
  | error e =>
      change (p r >>= fun x => _) = _
      rw [h]
      rfl
  | ok x =>
      change (p r >>= fun x => _) = _
      rw [h]
      rfl

/-- A sequence returns exactly when both of its parts do. -/
theorem bind_ok_iff {p : Decoder ε α} {f : α → Decoder ε β} {r r'' : Reader} {b : β} :
    (p >>= f) r = .ok (b, r'') ↔ ∃ a r', p r = .ok (a, r') ∧ f a r' = .ok (b, r'') := by
  rw [bind_apply]
  cases h : p r with
  | error e => simp [Except.bind]
  | ok x =>
      obtain ⟨a, r'⟩ := x
      simp [Except.bind]

theorem map_eq_ok {g : α → β} {p : Decoder ε α} {r r' : Reader} {b : β} :
    (g <$> p) r = .ok (b, r') ↔ ∃ a, p r = .ok (a, r') ∧ g a = b := by
  rw [map_apply]
  cases h : p r with
  | error e => simp [Except.map]
  | ok x =>
      obtain ⟨a, r'⟩ := x
      simp [Except.map, and_comm]

theorem demand_eq_ok {p : Prop} [Decidable p] {e : ε} {r r' : Reader} :
    demand p e r = .ok ((), r') ↔ p ∧ r' = r := by
  unfold demand
  split_ifs with h
  · simp [h, eq_comm]
  · simp [h]

theorem check_eq_ok {e : Reader → ε} {r r' : Reader} :
    check e r = .ok ((), r') ↔ r.ok = true ∧ r' = r := by
  unfold check
  cases h : r.ok with
  | false => simp
  | true => simp [eq_comm]

theorem enum_eq_ok {ofNat : ℕ → α} {last v : ℕ} {e : ε} {r r' : Reader} {a : α} :
    enum ofNat last e v r = .ok (a, r') ↔ v ≤ last ∧ a = ofNat v ∧ r' = r := by
  unfold enum
  rw [bind_ok_iff]
  constructor
  · rintro ⟨⟨⟩, r₁, hdemand, ha⟩
    obtain ⟨hv, hr⟩ := demand_eq_ok.mp hdemand
    cases ha
    exact ⟨hv, rfl, hr⟩
  · rintro ⟨hv, rfl, rfl⟩
    exact ⟨(), r', demand_eq_ok.mpr ⟨hv, rfl⟩, rfl⟩

/-- An optional value is there exactly when its flag is set. -/
theorem optional_eq_ok {flag : Decoder ε Bool} {p : Decoder ε α} {r r' : Reader} {o : Option α}
    (h : optional flag p r = .ok (o, r')) :
    (∃ r₁ a, flag r = .ok (true, r₁) ∧ p r₁ = .ok (a, r') ∧ o = some a) ∨
      (flag r = .ok (false, r') ∧ o = none) := by
  unfold optional at h
  obtain ⟨b, r₁, hb, h⟩ := bind_ok_iff.mp h
  cases b with
  | false =>
      cases h
      exact Or.inr ⟨hb, rfl⟩
  | true =>
      obtain ⟨a, r₂, ha, h⟩ := bind_ok_iff.mp h
      cases h
      exact Or.inl ⟨r₁, a, hb, ha, rfl⟩

/-! ## Reading what was written -/

/-- In front of any rest, a reader that has not failed reads exactly these bytes and
yields the value. -/
def Reads (p : Decoder ε α) (bs : List UInt8) (a : α) : Prop :=
  ∀ rest err, p ⟨bs ++ rest, true, err⟩ = .ok (a, ⟨rest, true, err⟩)

theorem reads_pure (a : α) : Reads (pure a : Decoder ε α) [] a := fun _ _ => rfl

theorem Reads.bind {p : Decoder ε α} {f : α → Decoder ε β} {bs cs : List UInt8} {a : α} {b : β}
    (hp : Reads p bs a) (hf : Reads (f a) cs b) : Reads (p >>= f) (bs ++ cs) b := by
  intro rest err
  rw [bind_apply, List.append_assoc, hp]
  exact hf rest err

/-- A step that reads nothing. -/
theorem Reads.bind_nil {p : Decoder ε α} {f : α → Decoder ε β} {cs : List UInt8} {a : α} {b : β}
    (hp : Reads p [] a) (hf : Reads (f a) cs b) : Reads (p >>= f) cs b := hp.bind hf

theorem Reads.map {p : Decoder ε α} {bs : List UInt8} {a : α} (hp : Reads p bs a) (g : α → β) :
    Reads (g <$> p) bs (g a) := by
  intro rest err
  rw [map_apply, hp]
  rfl

/-- A step behind which nothing is read. -/
theorem Reads.bind_last {p : Decoder ε α} {f : α → Decoder ε β} {bs : List UInt8} {a : α} {b : β}
    (hp : Reads p bs a) (hf : Reads (f a) [] b) : Reads (p >>= f) bs b := by
  have h := hp.bind hf
  rwa [List.append_nil] at h

/-- The last step of a decoder that returns what it read. -/
theorem Reads.bind_pure {p : Decoder ε α} {g : α → β} {bs : List UInt8} {a : α}
    (hp : Reads p bs a) : Reads (p >>= fun a => pure (g a)) bs (g a) :=
  hp.bind_last (reads_pure (g a))

theorem reads_take (why : String) (bs : List UInt8) :
    Reads (take why bs.length : Decoder ε (List UInt8)) bs bs := by
  intro rest err
  rw [take, if_neg (by simp)]
  simp

theorem reads_word (why : String) (bs : List UInt8) :
    Reads (word why bs.length : Decoder ε ℕ) bs (number bs) := (reads_take why bs).map number

/-! The fields of fixed width. -/

theorem reads_word_u8 {v : ℕ} (why : String) (h : v < 256) :
    Reads (word why 1 : Decoder ε ℕ) (Codec.u8 v) v := by
  have hv : number (Codec.u8 v) = v := by
    rw [show Codec.u8 v = Codec.littleEndian 1 v from rfl, number_littleEndian, pow_one]
    exact Nat.mod_eq_of_lt h
  have hr : Reads (word why 1 : Decoder ε ℕ) (Codec.u8 v) (number (Codec.u8 v)) :=
    reads_word why (Codec.u8 v)
  rwa [hv] at hr

/-- A number is read back up to the width of its field. -/
theorem reads_word_u32 (why : String) (v : ℕ) :
    Reads (word why 4 : Decoder ε ℕ) (Codec.u32 v) (v % 2 ^ 32) := by
  have hr := @reads_word ε why (Codec.u32 v)
  rw [Codec.length_u32] at hr
  rwa [show number (Codec.u32 v) = v % 2 ^ 32 from number_littleEndian 4 v] at hr

theorem reads_word_u64 (why : String) (v : UInt64) :
    Reads (UInt64.ofNat <$> (word why 8 : Decoder ε ℕ)) (Codec.u64 v) v := by
  have hr := @reads_word ε why (Codec.u64 v)
  have hv : number (Codec.u64 v) = v.toNat := by
    rw [show number (Codec.u64 v) = v.toNat % 2 ^ 64 from number_littleEndian 8 v.toNat]
    exact Nat.mod_eq_of_lt v.toNat_lt
  rw [Codec.length_u64, hv] at hr
  have h := hr.map UInt64.ofNat
  rwa [UInt64.ofNat_toNat] at h

theorem reads_word_bool (why : String) (b : Bool) :
    Reads ((fun v => decide (v ≠ 0)) <$> (word why 1 : Decoder ε ℕ)) (Codec.bool b) b := by
  cases b with
  | false => exact (reads_word_u8 why (show 0 < 256 by decide)).map _
  | true => exact (reads_word_u8 why (show 1 < 256 by decide)).map _

theorem reads_demand {p : Prop} [Decidable p] {e : ε} (h : p) : Reads (demand p e) [] () := by
  intro rest err
  rw [List.nil_append, demand, if_pos h]

theorem reads_check (e : Reader → ε) : Reads (check e) [] () := fun _ _ => rfl

theorem reads_enum {ofNat : ℕ → α} {last v : ℕ} {e : ε} (h : v ≤ last) :
    Reads (enum ofNat last e v) [] (ofNat v) := (reads_demand h).bind_nil (reads_pure _)

/-- An enumeration of at most 256 values is read back from its ordinal. -/
theorem reads_ordinal (why : String) (ofNat : ℕ → α) {last v : ℕ} (e : ε) (hlast : last < 256)
    (hv : v ≤ last) :
    Reads (do enum ofNat last e (← word why 1)) (Codec.u8 v) (ofNat v) := by
  have h := (reads_word_u8 why (hv.trans_lt hlast)).bind
    (f := fun v => enum ofNat last e v) (reads_enum hv)
  rwa [List.append_nil] at h

theorem Reads.times {p : Decoder ε β} {enc : α → List UInt8} {g : α → β} {as : List α}
    (hp : ∀ a ∈ as, Reads p (enc a) (g a)) :
    Reads (Decoder.times p as.length) (as.flatMap enc) (as.map g) := by
  induction as with
  | nil => exact reads_pure []
  | cons a as ih =>
      rw [List.flatMap_cons, List.map_cons]
      refine (hp a (by simp)).bind ?_
      exact (ih (fun b hb => hp b (by simp [hb]))).bind_pure

theorem reads_optional_none {flag : Decoder ε Bool} {p : Decoder ε α} {bs : List UInt8}
    (hflag : Reads flag bs false) : Reads (optional flag p) bs none := by
  have h := hflag.bind (f := fun b => if b then p >>= fun a => pure (some a) else pure none)
    (reads_pure none)
  rw [List.append_nil] at h
  exact h

theorem reads_optional_some {flag : Decoder ε Bool} {p : Decoder ε α} {bs cs : List UInt8} {a : α}
    (hflag : Reads flag bs true) (hp : Reads p cs a) :
    Reads (optional flag p) (bs ++ cs) (some a) := by
  refine hflag.bind ?_
  exact hp.bind_pure

/-! ## Giving up -/

/-- On these bytes, whatever follows them, the decoder gives up. -/
def Fails (p : Decoder ε α) (bs : List UInt8) : Prop :=
  ∀ rest err, ∃ e, p ⟨bs ++ rest, true, err⟩ = .error e

theorem Fails.append {p : Decoder ε α} {bs : List UInt8} (h : Fails p bs) (cs : List UInt8) :
    Fails p (bs ++ cs) := by
  intro rest err
  rw [List.append_assoc]
  exact h (cs ++ rest) err

theorem Fails.bind {p : Decoder ε α} {bs : List UInt8} (h : Fails p bs) (f : α → Decoder ε β) :
    Fails (p >>= f) bs := by
  intro rest err
  obtain ⟨e, he⟩ := h rest err
  exact ⟨e, by rw [bind_apply, he]; rfl⟩

theorem Reads.bind_fails {p : Decoder ε α} {f : α → Decoder ε β} {bs cs : List UInt8} {a : α}
    (hp : Reads p bs a) (hf : Fails (f a) cs) : Fails (p >>= f) (bs ++ cs) := by
  intro rest err
  obtain ⟨e, he⟩ := hf rest err
  exact ⟨e, by rw [bind_apply, List.append_assoc, hp]; exact he⟩

theorem Reads.bind_nil_fails {p : Decoder ε α} {f : α → Decoder ε β} {cs : List UInt8} {a : α}
    (hp : Reads p [] a) (hf : Fails (f a) cs) : Fails (p >>= f) cs := hp.bind_fails hf

theorem fails_demand {p : Prop} [Decidable p] {e : ε} (h : ¬ p) : Fails (demand p e) [] :=
  fun _ _ => ⟨e, if_neg h⟩

/-- A row of values that are read or given up on is given up on at the first of the latter. -/
theorem Fails.times {p : Decoder ε β} {enc : α → List UInt8} {g : α → β} {as : List α}
    (hall : ∀ a ∈ as, Reads p (enc a) (g a) ∨ Fails p (enc a))
    (hsome : ∃ a ∈ as, Fails p (enc a)) : Fails (Decoder.times p as.length) (as.flatMap enc) := by
  induction as with
  | nil =>
      obtain ⟨a, ha, -⟩ := hsome
      cases ha
  | cons a as ih =>
      rw [List.flatMap_cons]
      rcases hall a (by simp) with hread | hfail
      · by_cases hrest : ∃ b ∈ as, Fails p (enc b)
        · exact hread.bind_fails ((ih (fun b hb => hall b (by simp [hb])) hrest).bind _)
        · obtain ⟨b, hb, hfail⟩ := hsome
          rcases List.mem_cons.mp hb with rfl | hb
          · exact (hfail.bind _).append _
          · exact (hrest ⟨b, hb, hfail⟩).elim
      · exact (hfail.bind _).append _

/-- Whenever the decoder gives up, its error satisfies `P`. -/
def Errs (p : Decoder ε α) (P : ε → Prop) : Prop := ∀ r e, p r = .error e → P e

theorem bind_error_iff {p : Decoder ε α} {f : α → Decoder ε β} {r : Reader} {e : ε} :
    (p >>= f) r = .error e ↔
      p r = .error e ∨ ∃ a r', p r = .ok (a, r') ∧ f a r' = .error e := by
  rw [bind_apply]
  cases h : p r with
  | error e' => simp [Except.bind]
  | ok x =>
      obtain ⟨a, r'⟩ := x
      simp [Except.bind]

section Errs

variable {P : ε → Prop}

theorem errs_pure (a : α) : Errs (pure a : Decoder ε α) P := by
  intro r e h
  cases h

theorem Errs.bind {p : Decoder ε α} {f : α → Decoder ε β} (hp : Errs p P)
    (hf : ∀ a, Errs (f a) P) : Errs (p >>= f) P := by
  intro r e h
  rcases bind_error_iff.mp h with h | ⟨a, r', -, h⟩
  · exact hp r e h
  · exact hf a r' e h

theorem Errs.map {p : Decoder ε α} (hp : Errs p P) (g : α → β) : Errs (g <$> p) P := by
  intro r e h
  rw [map_apply] at h
  cases hr : p r with
  | error e' =>
      rw [hr] at h
      cases h
      exact hp r e hr
  | ok x =>
      rw [hr] at h
      cases h

theorem errs_take (why : String) (n : ℕ) : Errs (take why n : Decoder ε (List UInt8)) P := by
  intro r e h
  unfold take at h
  split_ifs at h

theorem errs_word (why : String) (n : ℕ) : Errs (word why n : Decoder ε ℕ) P :=
  (errs_take why n).map number

theorem errs_check {e : Reader → ε} (h : ∀ r, P (e r)) : Errs (check e) P := by
  intro r e' he
  unfold check at he
  split_ifs at he
  cases he
  exact h r

theorem errs_demand {p : Prop} [Decidable p] {e : ε} (h : P e) : Errs (demand p e) P := by
  intro r e' he
  unfold demand at he
  split_ifs at he
  cases he
  exact h

theorem errs_enum {ofNat : ℕ → α} {last v : ℕ} {e : ε} (h : P e) : Errs (enum ofNat last e v) P :=
  (errs_demand h).bind fun _ => errs_pure _

theorem Errs.optional {flag : Decoder ε Bool} {p : Decoder ε α} (hflag : Errs flag P)
    (hp : Errs p P) : Errs (optional flag p) P := by
  refine hflag.bind ?_
  intro b
  cases b with
  | false => exact errs_pure none
  | true => exact hp.bind fun _ => errs_pure _

theorem Errs.times {p : Decoder ε α} (hp : Errs p P) (n : ℕ) : Errs (Decoder.times p n) P := by
  induction n with
  | zero => exact errs_pure []
  | succ n ih => exact hp.bind fun _ => ih.bind fun _ => errs_pure _

end Errs

/-! ## What a decoder yields -/

/-- Whatever the decoder returns satisfies `Q`. -/
def Yields (p : Decoder ε α) (Q : α → Prop) : Prop := ∀ r a r', p r = .ok (a, r') → Q a

theorem yields_pure {a : α} {Q : α → Prop} (h : Q a) : Yields (pure a : Decoder ε α) Q := by
  intro r b r' hb
  cases hb
  exact h

theorem Yields.bind {p : Decoder ε α} {f : α → Decoder ε β} {P : α → Prop} {Q : β → Prop}
    (hp : Yields p P) (hf : ∀ a, P a → Yields (f a) Q) : Yields (p >>= f) Q := by
  intro r b r'' h
  obtain ⟨a, r', ha, hb⟩ := bind_ok_iff.mp h
  exact hf a (hp r a r' ha) r' b r'' hb

/-- The rule for a step whose value does not matter. -/
theorem yields_bind {p : Decoder ε α} {f : α → Decoder ε β} {Q : β → Prop}
    (hf : ∀ a, Yields (f a) Q) : Yields (p >>= f) Q := by
  intro r b r'' h
  obtain ⟨a, r', -, hb⟩ := bind_ok_iff.mp h
  exact hf a r' b r'' hb

theorem yields_demand {p : Prop} [Decidable p] {e : ε} : Yields (demand p e) (fun _ => p) :=
  fun _ _ _ h => (demand_eq_ok.mp h).1

theorem yields_take (why : String) (n : ℕ) :
    Yields (take why n : Decoder ε (List UInt8)) (fun bs => bs.length ≤ n) := by
  intro r bs r' h
  unfold take at h
  split_ifs at h with hn
  · cases h
    exact Nat.zero_le n
  · cases h
    exact List.length_take_le n r.rest

theorem yields_word (why : String) (n : ℕ) :
    Yields (word why n : Decoder ε ℕ) (fun v => v < 256 ^ n) := by
  intro r v r' h
  obtain ⟨bs, hbs, rfl⟩ := map_eq_ok.mp h
  exact (number_lt bs).trans_le (Nat.pow_le_pow_right (by decide) (yields_take why n r bs r' hbs))

theorem Yields.times {p : Decoder ε α} {Q : α → Prop} (hp : Yields p Q) (n : ℕ) :
    Yields (Decoder.times p n) (fun as => as.length = n ∧ ∀ a ∈ as, Q a) := by
  induction n with
  | zero => exact yields_pure ⟨rfl, by simp⟩
  | succ n ih =>
      refine hp.bind (fun a ha => ih.bind (fun as has => yields_pure ⟨?_, ?_⟩))
      · rw [List.length_cons, has.1]
      · simpa [ha] using has.2

/-! ## What a successful read consumed -/

/-- A read that leaves the reader unfailed took its bytes from the front. -/
theorem take_eq_ok {why : String} {n : ℕ} {r r' : Reader} {bs : List UInt8}
    (h : (take why n : Decoder ε (List UInt8)) r = .ok (bs, r')) (hok : r'.ok = true) :
    r.ok = true ∧ bs.length = n ∧ r.rest = bs ++ r'.rest := by
  unfold take at h
  split_ifs at h with hn
  · cases h
    cases hok
  · cases h
    exact ⟨hok, List.length_take_of_le (by omega), (List.take_append_drop n r.rest).symm⟩

/-- When the decoder returns with an unfailed reader, it has taken `n` bytes from the front,
and its value satisfies `Q`. -/
def Consumes (p : Decoder ε α) (n : ℕ) (Q : α → Prop) : Prop :=
  ∀ r a r', p r = .ok (a, r') → r'.ok = true →
    r.ok = true ∧ Q a ∧ ∃ bs, bs.length = n ∧ r.rest = bs ++ r'.rest

theorem consumes_pure {a : α} {Q : α → Prop} (h : Q a) :
    Consumes (pure a : Decoder ε α) 0 Q := by
  intro r b r' hb hok
  cases hb
  exact ⟨hok, h, [], rfl, rfl⟩

theorem Consumes.bind {p : Decoder ε α} {f : α → Decoder ε β} {n k : ℕ} {P : α → Prop}
    {Q : β → Prop} (hp : Consumes p n P) (hf : ∀ a, Consumes (f a) k (fun b => P a → Q b)) :
    Consumes (p >>= f) (n + k) Q := by
  intro r b r'' h hok
  obtain ⟨a, r', ha, hb⟩ := bind_ok_iff.mp h
  obtain ⟨hr', hQ, cs, hcs, hrest'⟩ := hf a r' b r'' hb hok
  obtain ⟨hr, hP, bs, hbs, hrest⟩ := hp r a r' ha hr'
  refine ⟨hr, hQ hP, bs ++ cs, ?_, ?_⟩
  · rw [List.length_append, hbs, hcs]
  · rw [hrest, hrest', List.append_assoc]

/-- The rule for a first step whose value does not matter. -/
theorem consumes_bind {p : Decoder ε α} {f : α → Decoder ε β} {n k : ℕ} {Q : β → Prop}
    (hp : Consumes p n (fun _ => True)) (hf : ∀ a, Consumes (f a) k Q) :
    Consumes (p >>= f) (n + k) Q := by
  refine hp.bind fun a r b r'' hb hok => ?_
  obtain ⟨hr, hQ, hbytes⟩ := hf a r b r'' hb hok
  exact ⟨hr, fun _ => hQ, hbytes⟩

theorem Consumes.map {p : Decoder ε α} {n : ℕ} {Q : α → Prop} (hp : Consumes p n Q) (g : α → β) :
    Consumes (g <$> p) n (fun b => ∃ a, Q a ∧ g a = b) := by
  intro r b r' h hok
  obtain ⟨a, ha, rfl⟩ := map_eq_ok.mp h
  obtain ⟨hr, hQ, hbytes⟩ := hp r a r' ha hok
  exact ⟨hr, ⟨a, hQ, rfl⟩, hbytes⟩

theorem consumes_take (why : String) (n : ℕ) :
    Consumes (take why n : Decoder ε (List UInt8)) n (fun _ => True) := by
  intro r bs r' h hok
  obtain ⟨hr, hlen, hrest⟩ := take_eq_ok h hok
  exact ⟨hr, trivial, bs, hlen, hrest⟩

theorem consumes_word (why : String) (n : ℕ) :
    Consumes (word why n : Decoder ε ℕ) n (fun _ => True) := by
  intro r v r' h hok
  obtain ⟨hr, -, hbytes⟩ := (consumes_take why n).map number r v r' h hok
  exact ⟨hr, trivial, hbytes⟩

theorem consumes_check (e : Reader → ε) : Consumes (check e) 0 (fun _ => True) := by
  intro r u r' h hok
  obtain ⟨hr, rfl⟩ := check_eq_ok.mp h
  exact ⟨hr, trivial, [], rfl, rfl⟩

theorem consumes_demand {p : Prop} [Decidable p] {e : ε} :
    Consumes (demand p e) 0 (fun _ => p) := by
  intro r u r' h hok
  obtain ⟨hp, rfl⟩ := demand_eq_ok.mp h
  exact ⟨hok, hp, [], rfl, rfl⟩

theorem Consumes.times {p : Decoder ε α} {n : ℕ} {Q : α → Prop} (hp : Consumes p n Q) (k : ℕ) :
    Consumes (Decoder.times p k) (k * n) (fun as => ∀ a ∈ as, Q a) := by
  induction k with
  | zero =>
      rw [Nat.zero_mul]
      exact consumes_pure (by simp)
  | succ k ih =>
      have h : Consumes (Decoder.times p (k + 1)) (n + (k * n + 0)) (fun as => ∀ a ∈ as, Q a) := by
        refine hp.bind fun a => ih.bind fun as => consumes_pure ?_
        intro has ha
        simpa [ha] using has
      rwa [Nat.succ_mul, Nat.add_comm (k * n) n]

/-- A word read from an unfailed reader is the number of the bytes in front. -/
theorem word_eq_ok {why : String} {n v : ℕ} {r r' : Reader}
    (h : (word why n : Decoder ε ℕ) r = .ok (v, r')) (hok : r'.ok = true) :
    r.ok = true ∧ ∃ bs, bs.length = n ∧ r.rest = bs ++ r'.rest ∧ v = number bs := by
  obtain ⟨bs, hbs, rfl⟩ := map_eq_ok.mp h
  obtain ⟨hr, hlen, hrest⟩ := take_eq_ok hbs hok
  exact ⟨hr, bs, hlen, hrest, rfl⟩

/-! ## Where a decoder stops -/

/-- When the decoder returns with an unfailed reader, it has taken some bytes from the front,
as many as `Q` allows for its value, and it reads these bytes in front of any other rest. -/
def Spans (p : Decoder ε α) (Q : α → ℕ → Prop) : Prop :=
  ∀ r a r', p r = .ok (a, r') → r'.ok = true →
    r.ok = true ∧ ∃ bs, Q a bs.length ∧ r.rest = bs ++ r'.rest ∧ Reads p bs a

section Spans

variable {P : α → ℕ → Prop} {Q : β → ℕ → Prop}

theorem Spans.mono {p : Decoder ε α} {P' : α → ℕ → Prop} (hp : Spans p P)
    (h : ∀ a n, P a n → P' a n) : Spans p P' := by
  intro r a r' ha hok
  obtain ⟨hr, bs, hP, hrest, hreads⟩ := hp r a r' ha hok
  exact ⟨hr, bs, h a _ hP, hrest, hreads⟩

theorem spans_pure {a : α} (h : P a 0) : Spans (pure a : Decoder ε α) P := by
  intro r b r' hb hok
  cases hb
  exact ⟨hok, [], h, rfl, reads_pure a⟩

theorem Spans.bind {p : Decoder ε α} {f : α → Decoder ε β} (hp : Spans p P)
    (hf : ∀ a, Spans (f a) (fun b k => ∀ n, P a n → Q b (n + k))) : Spans (p >>= f) Q := by
  intro r b r'' h hok
  obtain ⟨a, r', ha, hb⟩ := bind_ok_iff.mp h
  obtain ⟨hr', cs, hQ, hrest', hreads'⟩ := hf a r' b r'' hb hok
  obtain ⟨hr, bs, hP, hrest, hreads⟩ := hp r a r' ha hr'
  refine ⟨hr, bs ++ cs, ?_, ?_, hreads.bind hreads'⟩
  · rw [List.length_append]
    exact hQ _ hP
  · rw [hrest, hrest', List.append_assoc]

/-- The rule for a first step whose value says how many bytes it takes. -/
theorem Spans.sized {p : Decoder ε α} {f : α → Decoder ε β} {size : α → ℕ}
    (hp : Spans p (fun a n => n = size a))
    (hf : ∀ a, Spans (f a) (fun b k => Q b (size a + k))) : Spans (p >>= f) Q := by
  refine hp.bind fun a => (hf a).mono ?_
  rintro b k hQ n rfl
  exact hQ

/-- The rule when the number of bytes does not matter. -/
theorem Spans.seq {p : Decoder ε α} {f : α → Decoder ε β} (hp : Spans p P)
    (hf : ∀ a, Spans (f a) (fun _ _ => True)) : Spans (p >>= f) (fun _ _ => True) :=
  hp.bind fun a => (hf a).mono fun _ _ _ _ _ => trivial

theorem Spans.map {p : Decoder ε α} (hp : Spans p P) (g : α → β) :
    Spans (g <$> p) (fun b n => ∃ a, g a = b ∧ P a n) := by
  intro r b r' h hok
  obtain ⟨a, ha, rfl⟩ := map_eq_ok.mp h
  obtain ⟨hr, bs, hP, hrest, hreads⟩ := hp r a r' ha hok
  exact ⟨hr, bs, ⟨a, rfl, hP⟩, hrest, hreads.map g⟩

/-- A map over a step of fixed width. -/
theorem Spans.map_fixed {p : Decoder ε α} {k : ℕ} (hp : Spans p (fun _ n => n = k)) (g : α → β) :
    Spans (g <$> p) (fun _ n => n = k) := by
  refine (hp.map g).mono ?_
  rintro b n ⟨a, -, hn⟩
  exact hn

theorem spans_take (why : String) (n : ℕ) :
    Spans (take why n : Decoder ε (List UInt8)) (fun bs k => bs.length = n ∧ k = n) := by
  intro r bs r' h hok
  obtain ⟨hr, hlen, hrest⟩ := take_eq_ok h hok
  have hreads := @reads_take ε why bs
  rw [hlen] at hreads
  exact ⟨hr, bs, ⟨hlen, hlen⟩, hrest, hreads⟩

theorem spans_word (why : String) (n : ℕ) : Spans (word why n : Decoder ε ℕ) (fun _ k => k = n) :=
  ((spans_take why n).mono fun _ _ h => h.2).map_fixed number

theorem spans_check (e : Reader → ε) : Spans (check e) (fun _ n => n = 0) := by
  intro r u r' h hok
  obtain ⟨hr, rfl⟩ := check_eq_ok.mp h
  exact ⟨hr, [], rfl, rfl, reads_check e⟩

theorem spans_demand {p : Prop} [Decidable p] {e : ε} : Spans (demand p e) (fun _ n => n = 0) := by
  intro r u r' h hok
  obtain ⟨hp, rfl⟩ := demand_eq_ok.mp h
  exact ⟨hok, [], rfl, rfl, reads_demand hp⟩

theorem spans_enum {ofNat : ℕ → α} {last v : ℕ} {e : ε} :
    Spans (enum ofNat last e v) (fun _ n => n = 0) :=
  spans_demand.sized fun _ => spans_pure rfl

/-- A marked reader has failed. -/
theorem spans_mark (why : String) : Spans (mark why : Decoder ε Unit) (fun _ n => n = 0) := by
  intro r u r' h hok
  cases h
  cases hok

theorem Spans.optional {flag : Decoder ε Bool} {p : Decoder ε α} {k : ℕ} {size : α → ℕ}
    (hflag : Spans flag (fun _ n => n = k)) (hp : Spans p (fun a n => n = size a)) :
    Spans (Decoder.optional flag p) (fun o n => n = k + o.elim 0 size) := by
  refine hflag.sized fun b => ?_
  cases b with
  | false => exact spans_pure rfl
  | true => exact hp.sized fun a => spans_pure rfl

theorem Spans.times {p : Decoder ε α} (hp : Spans p P) (k : ℕ) :
    Spans (Decoder.times p k)
      (fun as n => as.length = k ∧ ∃ ns, List.Forall₂ P as ns ∧ n = ns.sum) := by
  induction k with
  | zero => exact spans_pure ⟨rfl, [], List.Forall₂.nil, rfl⟩
  | succ k ih =>
      refine hp.bind fun a => ih.bind fun as => spans_pure ?_
      rintro m ⟨hlen, ns, hns, rfl⟩ n hn
      exact ⟨by rw [List.length_cons, hlen], n :: ns, List.Forall₂.cons hn hns, rfl⟩

end Spans

/-- The decoder never returns with a failed reader. -/
def Settles (p : Decoder ε α) : Prop := ∀ r a r', p r = .ok (a, r') → r'.ok = true

theorem settles_bind {p : Decoder ε α} {f : α → Decoder ε β} (hf : ∀ a, Settles (f a)) :
    Settles (p >>= f) := by
  intro r b r'' h
  obtain ⟨a, r', -, hb⟩ := bind_ok_iff.mp h
  exact hf a r' b r'' hb

theorem settles_check (e : Reader → ε) : Settles (check e) := by
  intro r u r' h
  obtain ⟨hr, rfl⟩ := check_eq_ok.mp h
  exact hr

/-- Steps that do not touch the reader may follow. -/
theorem Settles.bind {p : Decoder ε α} {f : α → Decoder ε β} (hp : Settles p)
    (hf : ∀ a r b r', f a r = .ok (b, r') → r' = r) : Settles (p >>= f) := by
  intro r b r'' h
  obtain ⟨a, r', ha, hb⟩ := bind_ok_iff.mp h
  rw [hf a r' b r'' hb]
  exact hp r a r' ha

/-- Whatever follows the bytes such a decoder has taken, it takes the same. -/
theorem Spans.eq_of_settles {p : Decoder ε α} {P : α → ℕ → Prop} (hp : Spans p P)
    (hs : Settles p) {bytes : List UInt8} {err : String} {a : α} {r : Reader}
    (h : p ⟨bytes, true, err⟩ = .ok (a, r)) :
    ∃ bs, P a bs.length ∧ bytes = bs ++ r.rest ∧ Reads p bs a := by
  obtain ⟨-, hspan⟩ := hp _ a r h (hs _ a r h)
  exact hspan

end Decoder

end FragmentationGovernor
