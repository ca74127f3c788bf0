import Mathlib.Tactic
import Mathlib.Data.List.Chain
import Mathlib.Algebra.BigOperators.Group.List.Basic

/-! # Tilings of an interval of naturals

A list of blocks, each with a start and a length, that covers `[s, e)` from left to
right without gaps or overlaps. -/

namespace FragmentationGovernor

section Tiling

variable {β : Type*} (start len : β → ℕ)

/-- The blocks cover `[s, e)` in order, each with positive length. -/
def Tiles (s e : ℕ) : List β → Prop
  | [] => s = e
  | b :: rest => start b = s ∧ 0 < len b ∧ Tiles (s + len b) e rest

variable {start len} {s e : ℕ}

@[simp] theorem tiles_nil : Tiles start len s e [] ↔ s = e := Iff.rfl

@[simp] theorem tiles_cons {b : β} {rest : List β} :
    Tiles start len s e (b :: rest) ↔
      start b = s ∧ 0 < len b ∧ Tiles start len (s + len b) e rest := Iff.rfl

theorem tiles_append {l r : List β} :
    Tiles start len s e (l ++ r) ↔
      ∃ m, Tiles start len s m l ∧ Tiles start len m e r := by
  induction l generalizing s with
  | nil => simp
  | cons b rest ih => simp [ih, and_assoc]

/-- A tiling of `[s, e)` splits at any of its blocks. -/
theorem tiles_split {l r : List β} {b : β} :
    Tiles start len s e (l ++ b :: r) ↔
      Tiles start len s (start b) l ∧ 0 < len b ∧
        Tiles start len (start b + len b) e r := by
  rw [tiles_append]
  constructor
  · rintro ⟨m, hl, rfl, hpos, hr⟩
    exact ⟨hl, hpos, hr⟩
  · rintro ⟨hl, hpos, hr⟩
    exact ⟨start b, hl, rfl, hpos, hr⟩

theorem Tiles.sum_len {l : List β} (h : Tiles start len s e l) :
    s + (l.map len).sum = e := by
  induction l generalizing s with
  | nil => simpa using h
  | cons b rest ih =>
      have hrest := ih h.2.2
      simp only [List.map_cons, List.sum_cons]
      omega

theorem Tiles.le {l : List β} (h : Tiles start len s e l) : s ≤ e := by
  have := h.sum_len
  omega

/-- Every block lies inside the tiled interval. -/
theorem Tiles.bounds {l : List β} (h : Tiles start len s e l) {b : β} (hb : b ∈ l) :
    s ≤ start b ∧ 0 < len b ∧ start b + len b ≤ e := by
  obtain ⟨front, back, rfl⟩ := List.append_of_mem hb
  obtain ⟨hl, hpos, hr⟩ := tiles_split.mp h
  exact ⟨hl.le, hpos, hr.le⟩

/-- Two blocks of a tiling have no point in common. -/
theorem Tiles.apart {l : List β} (h : Tiles start len s e l) {b c : β} (hb : b ∈ l) (hc : c ∈ l)
    (hne : b ≠ c) : start b + len b ≤ start c ∨ start c + len c ≤ start b := by
  obtain ⟨front, back, rfl⟩ := List.append_of_mem hb
  obtain ⟨hl, -, hr⟩ := tiles_split.mp h
  rcases List.mem_append.mp hc with hc | hc
  · exact Or.inr (hl.bounds hc).2.2
  · rcases List.mem_cons.mp hc with rfl | hc
    · exact (hne rfl).elim
    · exact Or.inl (hr.bounds hc).1

/-- Some block contains any given point, and it is the only one up to its position. -/
theorem Tiles.exists_block {l : List β} (h : Tiles start len s e l) {x : ℕ}
    (hs : s ≤ x) (he : x < e) :
    ∃ front b back, l = front ++ b :: back ∧ start b ≤ x ∧ x < start b + len b := by
  induction l generalizing s with
  | nil =>
      simp only [tiles_nil] at h
      omega
  | cons b rest ih =>
      obtain ⟨hb, hpos, hrest⟩ := h
      by_cases hx : x < s + len b
      · exact ⟨[], b, rest, rfl, by omega, by omega⟩
      · obtain ⟨front, b', back, rfl, hle, hlt⟩ := ih hrest (by omega)
        exact ⟨b :: front, b', back, rfl, hle, hlt⟩

end Tiling

/-! ## Separation -/

section Separation

variable {β : Type*} (p : β → Prop)

/-- No two neighbours of the list both satisfy `p`. -/
def Separated (l : List β) : Prop := l.IsChain (fun a b => ¬ (p a ∧ p b))

variable {p}

/-- A list is separated when both sides of an element are and the element does not
clash with its neighbours. -/
theorem separated_split {front back : List β} {b : β} :
    Separated p (front ++ b :: back) ↔
      Separated p front ∧ Separated p back ∧
        (p b → (∀ x ∈ front.getLast?, ¬ p x) ∧ ∀ y ∈ back.head?, ¬ p y) := by
  unfold Separated
  rw [List.isChain_append, List.isChain_cons]
  simp only [List.head?_cons, Option.mem_def, Option.some.injEq, not_and]
  constructor
  · intro h
    refine ⟨h.1, h.2.1.2, fun hb => ⟨fun x hx hp => h.2.2 x hx b rfl hp hb, ?_⟩⟩
    intro y hy
    exact h.2.1.1 y hy hb
  · intro h
    refine ⟨h.1, ⟨fun y hy hb => (h.2.2 hb).2 y hy, h.2.1⟩, ?_⟩
    intro x hx y hy hp hb
    subst hy
    exact (h.2.2 hb).1 x hx hp

/-- An element outside `p` splits the question in two. -/
theorem separated_split_of_not {front back : List β} {b : β} (hb : ¬ p b) :
    Separated p (front ++ b :: back) ↔ Separated p front ∧ Separated p back := by
  rw [separated_split]
  exact ⟨fun h => ⟨h.1, h.2.1⟩, fun h => ⟨h.1, h.2, fun hp => (hb hp).elim⟩⟩

theorem Separated.snoc {front : List β} {b : β} (h : Separated p front)
    (hlast : ∀ x ∈ front.getLast?, ¬ p x) : Separated p (front ++ [b]) :=
  separated_split.mpr ⟨h, List.isChain_nil, fun _ => ⟨hlast, by simp⟩⟩

theorem Separated.cons {back : List β} {b : β} (h : Separated p back)
    (hhead : ∀ y ∈ back.head?, ¬ p y) : Separated p (b :: back) :=
  (@separated_split β p [] back b).mpr ⟨List.isChain_nil, h, fun _ => ⟨by simp, hhead⟩⟩

end Separation

/-! ## Uniqueness -/

section Uniqueness

variable {β : Type*} {start len : β → ℕ} {s e : ℕ} {p : β → Prop}

/-- A maximal block ends where a block outside `p` begins, so it is no shorter than the first
block of another tiling that has the same blocks outside `p`. -/
theorem Tiles.len_le_of_separated {x y : β} {xs ys : List β}
    (hx : Tiles start len s e (x :: xs)) (hy : Tiles start len s e (y :: ys))
    (hsep : Separated p (x :: xs)) (hp : p x)
    (hmem : ∀ b, ¬ p b → b ∈ x :: xs → b ∈ y :: ys) : len y ≤ len x := by
  by_contra hlt
  obtain ⟨hsy, -, hty⟩ := hy
  obtain ⟨-, hpos, htx⟩ := hx
  have hend := hty.le
  cases xs with
  | nil =>
      simp only [tiles_nil] at htx
      omega
  | cons z zs =>
      have hz : ¬ p z := by
        intro hz
        exact (List.isChain_cons_cons.mp hsep).1 ⟨hp, hz⟩
      have hsz := htx.1
      rcases List.mem_cons.mp (hmem z hz (by simp)) with rfl | hin
      · omega
      · have hge := (hty.bounds hin).1
        omega

/-- The block that begins where the interval does is the first. -/
theorem Tiles.eq_head_of_start {x b : β} {xs : List β} (h : Tiles start len s e (x :: xs))
    (hb : b ∈ x :: xs) (hstart : start b = s) : b = x := by
  obtain ⟨-, hpos, htail⟩ := h
  rcases List.mem_cons.mp hb with heq | hin
  · exact heq
  · have hge := (htail.bounds hin).1
    omega

/-- No block of a tiling is there twice. -/
theorem Tiles.mem_tail_iff {x b : β} {xs : List β} (h : Tiles start len s e (x :: xs)) :
    b ∈ xs ↔ b ∈ x :: xs ∧ b ≠ x := by
  obtain ⟨hstart, hpos, htail⟩ := h
  constructor
  · intro hin
    refine ⟨by simp [hin], ?_⟩
    rintro rfl
    have hge := (htail.bounds hin).1
    omega
  · rintro ⟨hb, hne⟩
    exact (List.mem_cons.mp hb).resolve_left hne

/-- Tilings with the same blocks outside `p` begin with the same block. -/
theorem Tiles.head_eq_of_separated {x y : β} {xs ys : List β}
    (hx : Tiles start len s e (x :: xs)) (hy : Tiles start len s e (y :: ys))
    (hsx : Separated p (x :: xs)) (hsy : Separated p (y :: ys))
    (hmem : ∀ b, ¬ p b → (b ∈ x :: xs ↔ b ∈ y :: ys))
    (hinj : p x → p y → start x = start y → len x = len y → x = y) : x = y := by
  by_cases hpx : p x
  · by_cases hpy : p y
    · have hle := hx.len_le_of_separated hy hsx hpx (fun b hb => (hmem b hb).mp)
      have hge := hy.len_le_of_separated hx hsy hpy (fun b hb => (hmem b hb).mpr)
      exact hinj hpx hpy (hx.1.trans hy.1.symm) (le_antisymm hge hle)
    · exact (hx.eq_head_of_start ((hmem y hpy).mpr (by simp)) hy.1).symm
  · exact hy.eq_head_of_start ((hmem x hpx).mp (by simp)) hx.1

/-- Two tilings of an interval in which the blocks of `p` are maximal are equal once they
have the same blocks outside `p`. -/
theorem Tiles.eq_of_separated {xs ys : List β} (hx : Tiles start len s e xs)
    (hy : Tiles start len s e ys) (hsx : Separated p xs) (hsy : Separated p ys)
    (hmem : ∀ b, ¬ p b → (b ∈ xs ↔ b ∈ ys))
    (hinj : ∀ a ∈ xs, ∀ b ∈ ys, p a → p b → start a = start b → len a = len b → a = b) :
    xs = ys := by
  induction xs generalizing s ys with
  | nil =>
      cases ys with
      | nil => rfl
      | cons y ys =>
          obtain ⟨-, hpos, hty⟩ := hy
          have hle := hty.le
          simp only [tiles_nil] at hx
          omega
  | cons x xs ih =>
      cases ys with
      | nil =>
          obtain ⟨-, hpos, htx⟩ := hx
          have hle := htx.le
          simp only [tiles_nil] at hy
          omega
      | cons y ys =>
          have hhead : x = y :=
            hx.head_eq_of_separated hy hsx hsy hmem (hinj x (by simp) y (by simp))
          subst hhead
          congr 1
          apply ih hx.2.2 hy.2.2 (List.isChain_cons.mp hsx).2 (List.isChain_cons.mp hsy).2
          · intro b hb
            rw [hx.mem_tail_iff, hy.mem_tail_iff, hmem b hb]
          · intro a ha b hb
            exact hinj a (by simp [ha]) b (by simp [hb])

end Uniqueness

end FragmentationGovernor
