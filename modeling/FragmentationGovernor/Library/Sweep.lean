import Mathlib.Algebra.Order.Monoid.Unbundled.Basic
import Mathlib.Order.Bounds.Basic

/-! # Sweeping over intervals

Intervals `[start, stop)` in the order of their starts, and a cursor that moves past them to
the first gap of a given length. No earlier gap is missed, however the intervals overlap. -/

namespace FragmentationGovernor

section Sweep

variable {α β : Type*} [Add α] [LinearOrder α] (start stop : β → α) (len : α)

/-- `[s, s + len)` keeps clear of the intervals. -/
def Clear (xs : List β) (s : α) : Prop := ∀ x ∈ xs, stop x ≤ s ∨ s + len ≤ start x

/-- Where the cursor stops: at the first gap, or behind all intervals. -/
def sweep : List β → α → α
  | [], c => c
  | x :: rest, c =>
      if stop x ≤ c then sweep rest c
      else if c + len ≤ start x then c
      else sweep rest (stop x)

variable {start stop len} {xs ys : List β} {c s : α}

@[simp] theorem clear_nil : Clear start stop len [] s := fun x hx => by cases hx

@[simp] theorem clear_cons {x : β} :
    Clear start stop len (x :: xs) s ↔
      (stop x ≤ s ∨ s + len ≤ start x) ∧ Clear start stop len xs s := by
  simp [Clear]

theorem clear_congr (h : ∀ x, x ∈ xs ↔ x ∈ ys) :
    Clear start stop len xs s ↔ Clear start stop len ys s :=
  forall_congr' (fun x => by rw [h x])

/-- What is clear for a length is clear for a shorter one. -/
theorem Clear.mono [AddLeftMono α] {len' : α} (h : Clear start stop len xs s) (hle : len' ≤ len) :
    Clear start stop len' xs s :=
  fun x hx => (h x hx).imp_right (fun hs => (add_le_add_right hle s).trans hs)

theorem sweep_cons_of_le {x : β} (h : stop x ≤ c) :
    sweep start stop len (x :: xs) c = sweep start stop len xs c := if_pos h

theorem sweep_cons_of_gap {x : β} (h : ¬ stop x ≤ c) (hgap : c + len ≤ start x) :
    sweep start stop len (x :: xs) c = c := by
  rw [sweep, if_neg h, if_pos hgap]

theorem sweep_cons_of_lt {x : β} (h : ¬ stop x ≤ c) (hgap : ¬ c + len ≤ start x) :
    sweep start stop len (x :: xs) c = sweep start stop len xs (stop x) := by
  rw [sweep, if_neg h, if_neg hgap]

theorem le_sweep (xs : List β) (c : α) : c ≤ sweep start stop len xs c := by
  induction xs generalizing c with
  | nil => exact le_refl c
  | cons x rest ih =>
      by_cases hpast : stop x ≤ c
      · rw [sweep_cons_of_le hpast]
        exact ih c
      · by_cases hgap : c + len ≤ start x
        · exact (sweep_cons_of_gap hpast hgap).ge
        · rw [sweep_cons_of_lt hpast hgap]
          exact (not_le.mp hpast).le.trans (ih (stop x))

/-- An interval that is passed blocks every start between the cursor and its end. -/
theorem stop_le_of_clear [AddRightMono α] {x : β} (hgap : ¬ c + len ≤ start x) (hc : c ≤ s)
    (hs : stop x ≤ s ∨ s + len ≤ start x) : stop x ≤ s := by
  rcases hs with hstop | hstart
  · exact hstop
  · exact (hgap ((add_le_add_left hc len).trans hstart)).elim

/-- The cursor stops at the earliest start that keeps clear of all intervals. -/
theorem isLeast_sweep [AddRightMono α] (hsorted : xs.Pairwise (fun x y => start x ≤ start y)) (c : α) :
    IsLeast {s | c ≤ s ∧ Clear start stop len xs s} (sweep start stop len xs c) := by
  induction xs generalizing c with
  | nil => exact ⟨⟨le_refl c, clear_nil⟩, fun s hs => hs.1⟩
  | cons x rest ih =>
      obtain ⟨hfirst, hrest⟩ := List.pairwise_cons.mp hsorted
      by_cases hpast : stop x ≤ c
      · obtain ⟨⟨hle, hclear⟩, hleast⟩ := ih hrest c
        rw [sweep_cons_of_le hpast]
        refine ⟨⟨hle, clear_cons.mpr ⟨Or.inl (hpast.trans hle), hclear⟩⟩, ?_⟩
        exact fun s hs => hleast ⟨hs.1, (clear_cons.mp hs.2).2⟩
      · by_cases hgap : c + len ≤ start x
        · -- the gap is in front of all intervals that remain
          rw [sweep_cons_of_gap hpast hgap]
          refine ⟨⟨le_refl c, clear_cons.mpr ⟨Or.inr hgap, ?_⟩⟩, fun s hs => hs.1⟩
          exact fun y hy => Or.inr (hgap.trans (hfirst y hy))
        · obtain ⟨⟨hle, hclear⟩, hleast⟩ := ih hrest (stop x)
          rw [sweep_cons_of_lt hpast hgap]
          refine ⟨⟨(not_le.mp hpast).le.trans hle, clear_cons.mpr ⟨Or.inl hle, hclear⟩⟩, ?_⟩
          rintro s ⟨hc, hs⟩
          obtain ⟨hx, hclear'⟩ := clear_cons.mp hs
          exact hleast ⟨stop_le_of_clear hgap hc hx, hclear'⟩

end Sweep

end FragmentationGovernor
