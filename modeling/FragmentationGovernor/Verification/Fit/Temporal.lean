import FragmentationGovernor.Library.Sweep
import FragmentationGovernor.Model.Fit
import Mathlib.Data.List.TakeWhile

/-! # The temporal search

The scan over the reservations is a sweep that gives up where its cursor reaches the end of
the horizon. What it returns is the earliest start that keeps clear of all reservations, but
only a window behind the last reservation is compared with the end of the horizon. -/

namespace FragmentationGovernor

open Fit

/-! ## Windows -/

/-- `[s, s + required)` overlaps none of the reservations. -/
def Unreserved (rs : List Reservation) (required : Duration) (s : ℕ) : Prop :=
  Clear (fun r : Reservation => r.start.toNat) (fun r => r.stop.toNat) required.toNat rs s

/-- The start is the earliest one of an unreserved window. -/
def Earliest (rs : List Reservation) (horizonStart required : Duration) (s : ℕ) : Prop :=
  IsLeast {s | horizonStart.toNat ≤ s ∧ Unreserved rs required s} s

/-- Where the sweep over reservations stops. -/
def sweepFrom (required : Duration) (rs : List Reservation) (cursor : Duration) : ℕ :=
  sweep (fun r : Reservation => r.start.toNat) (fun r => r.stop.toNat) required.toNat rs
    cursor.toNat

theorem earliest_congr {rs rs' : List Reservation} (h : ∀ r, r ∈ rs ↔ r ∈ rs')
    {horizonStart required : Duration} {s : ℕ} :
    Earliest rs horizonStart required s ↔ Earliest rs' horizonStart required s := by
  simp only [Earliest, Unreserved, clear_congr h]

/-! ## The orders of the sort -/

theorem StartOrder.mem_iff {order rs : List Reservation} (h : StartOrder order rs)
    {r : Reservation} : r ∈ order ↔ r ∈ rs :=
  h.perm.mem_iff

theorem startOrder_byStart (rs : List Reservation) : StartOrder (byStart rs) rs where
  perm := List.perm_insertionSort _ rs
  sorted := List.pairwise_insertionSort _ rs

theorem earliest_sweepFrom {order rs : List Reservation} (h : StartOrder order rs)
    (horizonStart required : Duration) :
    Earliest rs horizonStart required (sweepFrom required order horizonStart) := by
  have hsorted : order.Pairwise (fun a b => a.start.toNat ≤ b.start.toNat) := h.sorted
  rw [← earliest_congr (fun _ => h.mem_iff)]
  exact isLeast_sweep hsorted horizonStart.toNat

/-- Of what satisfies a predicate, the sort may put each that starts first in front. -/
theorem exists_startOrder_find? {rs : List Reservation} {p : Reservation → Bool}
    {r : Reservation} (hr : r ∈ rs) (hp : p r = true)
    (hfirst : ∀ r' ∈ rs, p r' = true → r.start ≤ r'.start) :
    ∃ order, StartOrder order rs ∧ order.find? p = some r := by
  have horder := startOrder_byStart (r :: rs.erase r)
  have hsplit := List.insertionSort_cons_eq_take_drop
    (fun a b : Reservation => a.start ≤ b.start) r (rs.erase r)
  have hperm : (byStart (r :: rs.erase r)).Perm rs :=
    horder.perm.trans (List.perm_cons_erase hr).symm
  refine ⟨byStart (r :: rs.erase r), ⟨hperm, horder.sorted⟩, ?_⟩
  -- what the insertion of `r` leaves in front of it starts earlier
  rw [List.find?_eq_some_iff_append]
  refine ⟨hp, _, _, hsplit, ?_⟩
  intro x hx
  have hlt := List.mem_takeWhile_imp hx
  have hmem := (startOrder_byStart (rs.erase r)).mem_iff.mp (List.takeWhile_subset _ hx)
  by_contra hpx
  simp only [Bool.not_eq_true', Bool.not_eq_false] at hpx
  simp [hfirst x (List.mem_of_mem_erase hmem) hpx] at hlt

/-- The first of an order that satisfies a predicate starts first among those that do. -/
theorem StartOrder.start_le_of_find? {order rs : List Reservation} (h : StartOrder order rs)
    {p : Reservation → Bool} {r : Reservation} (hfind : order.find? p = some r)
    {r' : Reservation} (hr' : r' ∈ rs) (hp : p r' = true) : r.start ≤ r'.start := by
  obtain ⟨-, before, behind, rfl, hbefore⟩ := List.find?_eq_some_iff_append.mp hfind
  have hmem := h.mem_iff.mpr hr'
  rw [List.mem_append, List.mem_cons] at hmem
  rcases hmem with hmem | rfl | hmem
  · have hnot := hbefore r' hmem
    rw [hp] at hnot
    cases hnot
  · exact le_refl _
  · exact (List.pairwise_cons.mp (List.pairwise_append.mp h.sorted).2.1).1 r' hmem

/-! ## The scan is a sweep -/

/-- The reservation ends behind the cursor and not before the end of the horizon: reaching it
ends the scan. -/
def overruns (cursor horizonEnd : Duration) (r : Reservation) : Bool :=
  decide (cursor < r.stop) && decide (horizonEnd ≤ r.stop)

theorem overruns_iff {cursor horizonEnd : Duration} {r : Reservation} :
    overruns cursor horizonEnd r = true ↔ cursor < r.stop ∧ horizonEnd ≤ r.stop := by
  simp [overruns]

/-- What the scan from a cursor can end with. -/
inductive Scanned (horizonEnd required : Duration) (rs : List Reservation) (cursor : Duration) :
    Duration ⊕ Duration → Prop
  /-- A gap in front of a reservation. -/
  | found (t : Duration) (hsweep : t.toNat = sweepFrom required rs cursor)
      (hbefore : t = cursor ∨ t < horizonEnd)
      (hgap : ∃ r ∈ rs, t < r.stop ∧ t.toNat + required.toNat ≤ r.start.toNat)
      (hfirst : ∀ r, rs.find? (overruns cursor horizonEnd) = some r →
        t.toNat + required.toNat ≤ r.start.toNat) :
      Scanned horizonEnd required rs cursor (.inl t)
  /-- The end of the list. -/
  | exhausted (u : Duration) (hsweep : u.toNat = sweepFrom required rs cursor)
      (hbefore : u = cursor ∨ u < horizonEnd) (hpast : ∀ r ∈ rs, r.stop ≤ u) :
      Scanned horizonEnd required rs cursor (.inr u)
  /-- A reservation that reaches the end of the horizon. -/
  | stopped (r : Reservation) (hr : rs.find? (overruns cursor horizonEnd) = some r)
      (hle : r.stop.toNat ≤ sweepFrom required rs cursor)
      (hshort : r.start.toNat < sweepFrom required rs cursor + required.toNat) :
      Scanned horizonEnd required rs cursor (.inr r.stop)

section Scan

variable {horizonEnd required cursor : Duration} {r : Reservation} {rs : List Reservation}
  {out : Duration ⊕ Duration}

/-- The scan at a reservation that ends behind the cursor. -/
theorem scanReservations_cons (hopen : cursor < r.stop) :
    scanReservations horizonEnd required (r :: rs) cursor =
      if cursor.toNat + required.toNat ≤ r.start.toNat then .ok (.inl cursor)
      else if r.stop ≥ horizonEnd then .ok (.inr r.stop)
      else scanReservations horizonEnd required rs r.stop := by
  rw [scanReservations, if_neg (not_le.mpr hopen)]
  by_cases hge : r.start ≥ cursor
  · obtain ⟨gap, hgap, hsum⟩ := Quantity.exists_sub_ok (Quantity.le_iff.mp hge)
    have hiff : gap ≥ required ↔ cursor.toNat + required.toNat ≤ r.start.toNat := by
      rw [ge_iff_le, Quantity.le_iff]
      omega
    simp only [if_pos hge, hgap, ok_bind, if_pos hopen, decide_eq_true_eq, hiff]
  · have hshort : ¬ cursor.toNat + required.toNat ≤ r.start.toNat := by
      rw [ge_iff_le, Quantity.le_iff] at hge
      omega
    simp only [if_neg hge, ok_bind, if_pos hopen, if_neg hshort, if_neg Bool.false_ne_true]

/-- A reservation that ends at the cursor is skipped. -/
theorem Scanned.skip (h : Scanned horizonEnd required rs cursor out) (hpast : r.stop ≤ cursor) :
    Scanned horizonEnd required (r :: rs) cursor out := by
  have hsweep : sweepFrom required (r :: rs) cursor = sweepFrom required rs cursor :=
    sweep_cons_of_le hpast
  have hfind : (r :: rs).find? (overruns cursor horizonEnd) =
      rs.find? (overruns cursor horizonEnd) := by
    rw [List.find?_cons_of_neg]
    simp [overruns, hpast]
  cases h with
  | found t ht hbefore hgap hfirst =>
      obtain ⟨x, hx, hopen⟩ := hgap
      exact .found t (hsweep ▸ ht) hbefore ⟨x, by simp [hx], hopen⟩ (hfind ▸ hfirst)
  | exhausted u hu hbefore hall =>
      refine .exhausted u (hsweep ▸ hu) hbefore ?_
      intro x hx
      rcases List.mem_cons.mp hx with rfl | hx
      · refine hpast.trans (Quantity.le_iff.mpr ?_)
        rw [hu]
        exact le_sweep rs cursor.toNat
      · exact hall x hx
  | stopped x hx hle hshort => exact .stopped x (hfind ▸ hx) (hsweep ▸ hle) (hsweep ▸ hshort)

/-- A reservation that ends behind the cursor, within the horizon and without a gap before it
moves the cursor to its end. -/
theorem Scanned.advance (h : Scanned horizonEnd required rs r.stop out) (hopen : cursor < r.stop)
    (hshort : ¬ cursor.toNat + required.toNat ≤ r.start.toNat) (hend : r.stop < horizonEnd) :
    Scanned horizonEnd required (r :: rs) cursor out := by
  have hsweep : sweepFrom required (r :: rs) cursor = sweepFrom required rs r.stop :=
    sweep_cons_of_lt (not_le.mpr hopen) hshort
  -- behind the cursor or behind `r`, what reaches the end of the horizon is the same
  have hsame : overruns cursor horizonEnd = overruns r.stop horizonEnd := by
    funext x
    by_cases hx : horizonEnd ≤ x.stop
    · simp [overruns, hx, hopen.trans (hend.trans_le hx), hend.trans_le hx]
    · simp [overruns, hx]
  have hfind : (r :: rs).find? (overruns cursor horizonEnd) =
      rs.find? (overruns r.stop horizonEnd) := by
    rw [List.find?_cons_of_neg, hsame]
    simp [overruns, hend]
  cases h with
  | found t ht hbefore hgap hfirst =>
      obtain ⟨x, hx, hxopen⟩ := hgap
      refine .found t (hsweep ▸ ht) ?_ ⟨x, by simp [hx], hxopen⟩ (hfind ▸ hfirst)
      rcases hbefore with rfl | hbefore
      · exact Or.inr hend
      · exact Or.inr hbefore
  | exhausted u hu hbefore hall =>
      refine .exhausted u (hsweep ▸ hu) ?_ ?_
      · rcases hbefore with rfl | hbefore
        · exact Or.inr hend
        · exact Or.inr hbefore
      · intro x hx
        rcases List.mem_cons.mp hx with rfl | hx
        · refine Quantity.le_iff.mpr ?_
          rw [hu]
          exact le_sweep rs _
        · exact hall x hx
  | stopped x hx hle hlt => exact .stopped x (hfind ▸ hx) (hsweep ▸ hle) (hsweep ▸ hlt)

/-- The scan returns, with the cursor of the sweep unless a reservation reaches the end of the
horizon first. -/
theorem scanReservations_scanned (horizonEnd required : Duration)
    (h : rs.Pairwise (fun a b => a.start ≤ b.start)) (cursor : Duration) :
    ∃ out, scanReservations horizonEnd required rs cursor = .ok out ∧
      Scanned horizonEnd required rs cursor out := by
  induction rs generalizing cursor with
  | nil => exact ⟨_, rfl, .exhausted cursor rfl (Or.inl rfl) (fun x hx => by cases hx)⟩
  | cons r rest ih =>
      obtain ⟨hfirst, hrest⟩ := List.pairwise_cons.mp h
      by_cases hpast : r.stop ≤ cursor
      · obtain ⟨out, heq, hout⟩ := ih hrest cursor
        rw [scanReservations, if_pos hpast]
        exact ⟨out, heq, hout.skip hpast⟩
      · have hopen : cursor < r.stop := not_le.mp hpast
        rw [scanReservations_cons hopen]
        by_cases hgap : cursor.toNat + required.toNat ≤ r.start.toNat
        · have hsweep : sweepFrom required (r :: rest) cursor = cursor.toNat :=
            sweep_cons_of_gap hpast hgap
          rw [if_pos hgap]
          refine ⟨_, rfl, .found cursor hsweep.symm (Or.inl rfl) ⟨r, by simp, hopen, hgap⟩ ?_⟩
          intro x hx
          rcases List.mem_cons.mp (List.mem_of_find?_eq_some hx) with rfl | hx
          · exact hgap
          · exact hgap.trans (hfirst x hx)
        · rw [if_neg hgap]
          by_cases hend : r.stop ≥ horizonEnd
          · have hsweep : sweepFrom required (r :: rest) cursor = sweepFrom required rest r.stop :=
              sweep_cons_of_lt hpast hgap
            have hle : r.stop.toNat ≤ sweepFrom required rest r.stop := le_sweep rest _
            have hlt : cursor.toNat < r.stop.toNat := hopen
            rw [if_pos hend]
            refine ⟨_, rfl, .stopped r (List.find?_cons_of_pos ?_) (hsweep ▸ hle) ?_⟩
            · simp [overruns, hopen, hend]
            · rw [hsweep]
              omega
          · obtain ⟨out, heq, hout⟩ := ih hrest r.stop
            rw [if_neg hend]
            exact ⟨out, heq, hout.advance hopen hgap (not_le.mp hend)⟩

/-- The comparison of what is left of the horizon with the required length. -/
theorem tail_eq_some_iff {u t : Duration} :
    (do
      let tail ← horizonEnd.sub u
      .ok (if tail ≥ required then some u else none) : Except ValueError (Option Duration)) =
        .ok (some t) ↔ t = u ∧ u.toNat + required.toNat ≤ horizonEnd.toNat := by
  rw [bind_eq_ok]
  constructor
  · rintro ⟨tail, htail, heq⟩
    rw [Quantity.sub_eq_ok_iff] at htail
    by_cases hle : tail ≥ required
    · rw [if_pos hle] at heq
      rw [ge_iff_le, Quantity.le_iff] at hle
      cases heq
      exact ⟨rfl, by omega⟩
    · rw [if_neg hle] at heq
      cases heq
  · rintro ⟨rfl, hle⟩
    obtain ⟨tail, htail, hsum⟩ := @Quantity.exists_sub_ok _ horizonEnd t (by omega)
    refine ⟨tail, htail, ?_⟩
    rw [if_pos (Quantity.le_iff.mpr (by omega))]

theorem tail_returns_iff {u : Duration} :
    (∃ out, (do
      let tail ← horizonEnd.sub u
      .ok (if tail ≥ required then some u else none) : Except ValueError (Option Duration)) =
        .ok out) ↔ u ≤ horizonEnd := by
  constructor
  · rintro ⟨out, hout⟩
    obtain ⟨tail, htail, -⟩ := bind_eq_ok.mp hout
    rw [Quantity.sub_eq_ok_iff] at htail
    exact Quantity.le_iff.mpr (by omega)
  · intro hle
    obtain ⟨tail, htail, -⟩ := Quantity.exists_sub_ok (Quantity.le_iff.mp hle)
    rw [htail]
    exact ⟨_, rfl⟩

end Scan

/-! ## What the search finds -/

/-- Some reservation that has not ended at `t` starts behind the window. -/
def Followed (rs : List Reservation) (required : Duration) (t : ℕ) : Prop :=
  ∃ r ∈ rs, t < r.stop.toNat ∧ t + required.toNat ≤ r.start.toNat

section Search

variable {order rs : List Reservation} {horizonStart horizonEnd required t : Duration}

/-- A window of no length is found at once. -/
theorem searchReservations_of_zero (h : required.toNat = 0) :
    searchReservations order horizonStart horizonEnd required = .ok (some horizonStart) := by
  have hvalue : required.value = 0 := UInt64.toNat_inj.mp h
  rw [searchReservations, if_pos hvalue]

/-- The search for a window of some length returns the window of the scan or looks behind its
cursor. -/
theorem searchReservations_scanned (horder : StartOrder order rs)
    (horizonStart horizonEnd : Duration) (hpos : 0 < required.toNat) :
    (∃ t, searchReservations order horizonStart horizonEnd required = .ok (some t) ∧
        Scanned horizonEnd required order horizonStart (.inl t)) ∨
      ∃ u, searchReservations order horizonStart horizonEnd required = (do
          let tail ← horizonEnd.sub u
          .ok (if tail ≥ required then some u else none)) ∧
        Scanned horizonEnd required order horizonStart (.inr u) := by
  have hvalue : ¬ required.value = 0 := by
    intro hzero
    rw [Quantity.toNat, hzero] at hpos
    cases hpos
  obtain ⟨out, hscan, hout⟩ :=
    scanReservations_scanned horizonEnd required horder.sorted horizonStart
  rw [searchReservations, if_neg hvalue, hscan, ok_bind]
  cases out with
  | inl t => exact Or.inl ⟨t, rfl, hout⟩
  | inr u => exact Or.inr ⟨u, rfl, hout⟩

/-- A start is the earliest exactly when it is where the sweep stops. -/
theorem earliest_iff (horder : StartOrder order rs) {s u : ℕ}
    (h : u = sweepFrom required order horizonStart) :
    Earliest rs horizonStart required s ↔ s = u := by
  have hearliest := earliest_sweepFrom horder horizonStart required
  rw [h]
  constructor
  · exact fun hs => hs.unique hearliest
  · rintro rfl
    exact hearliest

/-- The search returns the earliest start if its window ends within the horizon, and also if
the scan gets there and finds the window in front of a reservation; the order of equal starts
does not matter. -/
theorem searchReservations_eq_some_iff (horder : StartOrder order rs)
    (hpos : 0 < required.toNat) :
    searchReservations order horizonStart horizonEnd required = .ok (some t) ↔
      Earliest rs horizonStart required t.toNat ∧
        (t.toNat + required.toNat ≤ horizonEnd.toNat ∨
          (t = horizonStart ∨ t < horizonEnd) ∧ Followed rs required t.toNat) := by
  rcases searchReservations_scanned horder horizonStart horizonEnd hpos with
    ⟨t₀, heq, hout⟩ | ⟨u, heq, hout⟩
  · cases hout with
    | found _ hsweep hbefore hgap _ =>
        obtain ⟨r, hr, hopen, hle⟩ := hgap
        have hfollowed : Followed rs required t₀.toNat :=
          ⟨r, horder.mem_iff.mp hr, hopen, hle⟩
        rw [heq, earliest_iff horder hsweep, ← Quantity.eq_iff]
        constructor
        · rintro ⟨⟩
          exact ⟨rfl, Or.inr ⟨hbefore, hfollowed⟩⟩
        · rintro ⟨rfl, -⟩
          rfl
  · rw [heq, tail_eq_some_iff]
    cases hout with
    | exhausted _ hsweep hbefore hpast =>
        rw [earliest_iff horder hsweep, ← Quantity.eq_iff]
        refine and_congr_right ?_
        rintro rfl
        refine ⟨Or.inl, fun h => h.resolve_right ?_⟩
        rintro ⟨-, r, hr, hopen, -⟩
        exact absurd (hpast r (horder.mem_iff.mpr hr)) (not_le.mpr hopen)
    | stopped r hr hle hshort =>
        -- the earliest start is behind the horizon
        obtain ⟨hopen, hend⟩ := overruns_iff.mp (List.find?_some hr)
        rw [Quantity.le_iff] at hend
        rw [Quantity.lt_iff] at hopen
        refine iff_of_false (fun h => by omega) ?_
        rintro ⟨ht, hwindow⟩
        rw [earliest_iff horder rfl] at ht
        rw [Quantity.eq_iff, Quantity.lt_iff] at hwindow
        omega

theorem temporalContinuousFit_eq_some_iff (hpos : 0 < required.toNat) :
    temporalContinuousFit rs horizonStart horizonEnd required = .ok (some t) ↔
      Earliest rs horizonStart required t.toNat ∧
        (t.toNat + required.toNat ≤ horizonEnd.toNat ∨
          (t = horizonStart ∨ t < horizonEnd) ∧ Followed rs required t.toNat) :=
  searchReservations_eq_some_iff (startOrder_byStart rs) hpos

/-- A reservation that reaches the end of the horizon ends there, or a window lies before its
start. -/
def Heeded (rs : List Reservation) (horizonStart horizonEnd required : Duration)
    (r : Reservation) : Prop :=
  r.stop = horizonEnd ∨
    ∃ s, horizonStart.toNat ≤ s ∧ s + required.toNat ≤ r.start.toNat ∧ Unreserved rs required s

/-- Whatever reservations start first among those that reach the end of the horizon. -/
def Contained (rs : List Reservation) (horizonStart horizonEnd required : Duration) : Prop :=
  ∀ r ∈ rs, overruns horizonStart horizonEnd r = true →
    (∀ r' ∈ rs, overruns horizonStart horizonEnd r' = true → r.start ≤ r'.start) →
    Heeded rs horizonStart horizonEnd required r

/-- In a given order the search returns unless the scan is stopped by a reservation that runs
past the horizon. -/
theorem exists_searchReservations_iff (horder : StartOrder order rs)
    (hle : horizonStart ≤ horizonEnd) :
    (∃ out, searchReservations order horizonStart horizonEnd required = .ok out) ↔
      (0 < required.toNat → ∀ r, order.find? (overruns horizonStart horizonEnd) = some r →
        Heeded rs horizonStart horizonEnd required r) := by
  rcases Nat.eq_zero_or_pos required.toNat with hzero | hpos
  · exact iff_of_true ⟨_, searchReservations_of_zero hzero⟩ (fun hpos => by omega)
  rw [forall_prop_of_true hpos]
  rcases searchReservations_scanned horder horizonStart horizonEnd hpos with
    ⟨t, heq, hout⟩ | ⟨u, heq, hout⟩
  · rw [heq]
    cases hout with
    | found _ hsweep _ _ hfirst =>
        refine iff_of_true ⟨_, rfl⟩ (fun r hr => Or.inr ⟨t.toNat, ?_, hfirst r hr, ?_⟩)
        all_goals
          obtain ⟨hearliest, -⟩ := (earliest_iff horder hsweep).mpr rfl
        · exact hearliest.1
        · exact hearliest.2
  · rw [heq, tail_returns_iff]
    cases hout with
    | exhausted _ hsweep hbefore hpast =>
        refine iff_of_true ?_ ?_
        · rcases hbefore with rfl | hlt
          · exact hle
          · exact hlt.le
        · intro r hr
          have hstop := hpast r (List.mem_of_find?_eq_some hr)
          obtain ⟨hopen, hend⟩ := overruns_iff.mp (List.find?_some hr)
          rcases hbefore with rfl | hlt
          · exact absurd hstop (not_le.mpr hopen)
          · exact absurd (hend.trans hstop) (not_le.mpr hlt)
    | stopped r hr _ hshort =>
        obtain ⟨-, hend⟩ := overruns_iff.mp (List.find?_some hr)
        constructor
        · intro hstop x hx
          rw [hr] at hx
          cases hx
          exact Or.inl (le_antisymm hstop hend)
        · intro hheeded
          rcases hheeded r hr with hstop | ⟨s, hs, hwindow, hfree⟩
          · exact hstop.le
          · have hleast := (earliest_sweepFrom horder horizonStart required).2 ⟨hs, hfree⟩
            omega

/-- Any reservation that starts first among those that reach the end of the horizon stops the
scan in some order, and nothing else does in any. -/
theorem forall_order_heeded_iff :
    (∀ order, StartOrder order rs → ∀ r, order.find? (overruns horizonStart horizonEnd) = some r →
        Heeded rs horizonStart horizonEnd required r) ↔
      Contained rs horizonStart horizonEnd required := by
  constructor
  · intro h r hr hover hfirst
    obtain ⟨order, horder, hfind⟩ := exists_startOrder_find? hr hover hfirst
    exact h order horder r hfind
  · intro h order horder r hfind
    exact h r (horder.mem_iff.mp (List.mem_of_find?_eq_some hfind)) (List.find?_some hfind)
      (fun r' hr' hover => horder.start_le_of_find? hfind hr' hover)

/-- In every order the search returns unless such a reservation runs past the horizon. -/
theorem forall_order_exists_searchReservations_iff (hle : horizonStart ≤ horizonEnd) :
    (∀ order, StartOrder order rs →
        ∃ out, searchReservations order horizonStart horizonEnd required = .ok out) ↔
      (0 < required.toNat → Contained rs horizonStart horizonEnd required) := by
  rw [← forall_order_heeded_iff]
  constructor
  · intro h hpos order horder
    exact (exists_searchReservations_iff horder hle).mp (h order horder) hpos
  · intro h order horder
    exact (exists_searchReservations_iff horder hle).mpr (fun hpos => h hpos order horder)

end Search

/-! ## A window that is found -/

/-- The search returns a window of the horizon, unless the earliest window ends behind the
horizon, the scan gets to its start, and a reservation follows it: the gap in front of a
reservation is not compared with the end of the horizon. -/
theorem temporalContinuousFit_valid_iff (rs : List Reservation)
    (horizonStart horizonEnd required : Duration) (hpos : 0 < required.toNat) :
    (∀ t, temporalContinuousFit rs horizonStart horizonEnd required = .ok (some t) →
        horizonStart ≤ t ∧ t.toNat + required.toNat ≤ horizonEnd.toNat ∧
          Unreserved rs required t.toNat) ↔
      ∀ s : ℕ, Earliest rs horizonStart required s → horizonEnd.toNat < s + required.toNat →
        s = horizonStart.toNat ∨ s < horizonEnd.toNat → ¬ Followed rs required s := by
  constructor
  · intro hvalid s hs hlate hbefore hfollowed
    have hs64 : s < 2 ^ 64 := by
      have hstart := horizonStart.toNat_lt
      have hend := horizonEnd.toNat_lt
      omega
    have hnat : (Quantity.ofNat s : Duration).toNat = s := Quantity.toNat_ofNat hs64
    have hfound : temporalContinuousFit rs horizonStart horizonEnd required =
        .ok (some (.ofNat s)) := by
      rw [temporalContinuousFit_eq_some_iff hpos, Quantity.eq_iff, Quantity.lt_iff, hnat]
      exact ⟨hs, Or.inr ⟨hbefore, hfollowed⟩⟩
    obtain ⟨-, hwithin, -⟩ := hvalid _ hfound
    rw [hnat] at hwithin
    omega
  · intro hcond t ht
    rw [temporalContinuousFit_eq_some_iff hpos] at ht
    obtain ⟨hearliest, hwindow⟩ := ht
    refine ⟨Quantity.le_iff.mpr hearliest.1.1, ?_, hearliest.1.2⟩
    rcases hwindow with hwindow | ⟨hbefore, hfollowed⟩
    · exact hwindow
    · by_contra hlate
      rw [Quantity.eq_iff, Quantity.lt_iff] at hbefore
      exact hcond t.toNat hearliest (not_le.mp hlate) hbefore hfollowed

/-- A reservation far behind a horizon of 5. -/
def distantReservation : Reservation := { start := ⟨100⟩, stop := ⟨200⟩ }

/-- The 10 in front of it are returned as a window of a horizon of 5. -/
theorem temporalContinuousFit_leaves_horizon :
    temporalContinuousFit [distantReservation] 0 ⟨5⟩ ⟨10⟩ = .ok (some 0) ∧
      ¬ ∀ t, temporalContinuousFit [distantReservation] 0 ⟨5⟩ ⟨10⟩ = .ok (some t) →
        0 ≤ t ∧ t.toNat + 10 ≤ 5 ∧ Unreserved [distantReservation] ⟨10⟩ t.toNat := by
  have hfound : temporalContinuousFit [distantReservation] 0 ⟨5⟩ ⟨10⟩ = .ok (some 0) := by
    decide
  refine ⟨hfound, fun hvalid => ?_⟩
  exact absurd (hvalid 0 hfound).2.1 (by decide)

/-- In a horizon of 50 the same window is one. -/
theorem temporalContinuousFit_valid_iff_distantReservation :
    temporalContinuousFit [distantReservation] 0 ⟨50⟩ ⟨10⟩ = .ok (some 0) ∧
      ∀ t, temporalContinuousFit [distantReservation] 0 ⟨50⟩ ⟨10⟩ = .ok (some t) →
        0 ≤ t ∧ t.toNat + 10 ≤ 50 ∧ Unreserved [distantReservation] ⟨10⟩ t.toNat := by
  refine ⟨by decide, ?_⟩
  refine (temporalContinuousFit_valid_iff [distantReservation] 0 ⟨50⟩ ⟨10⟩ (by decide)).mpr ?_
  intro s hs hlate
  have hfree : Unreserved [distantReservation] ⟨10⟩ 0 := by
    intro r hr
    rw [List.mem_singleton.mp hr]
    exact Or.inr (by decide)
  have hle : s ≤ 0 := hs.2 ⟨le_refl 0, hfree⟩
  have hten : (⟨10⟩ : Duration).toNat = 10 := rfl
  have hfifty : (⟨50⟩ : Duration).toNat = 50 := rfl
  omega

/-! ## The earliest window -/

/-- Whenever some window of the horizon is free of reservations, the search returns the
earliest one, in whatever order the reservations come and the sort leaves equal starts. -/
theorem temporalContinuousFit_earliest (rs : List Reservation)
    (horizonStart horizonEnd required : Duration) (hpos : 0 < required.toNat) (s : ℕ)
    (hlo : horizonStart.toNat ≤ s) (hhi : s + required.toNat ≤ horizonEnd.toNat)
    (hfree : Unreserved rs required s) :
    ∃ t, temporalContinuousFit rs horizonStart horizonEnd required = .ok (some t) ∧
      Earliest rs horizonStart required t.toNat ∧ t.toNat + required.toNat ≤ horizonEnd.toNat ∧
      (∀ rs', rs'.Perm rs →
        temporalContinuousFit rs' horizonStart horizonEnd required = .ok (some t)) ∧
      ∀ order, StartOrder order rs →
        searchReservations order horizonStart horizonEnd required = .ok (some t) := by
  have hearliest := earliest_sweepFrom (startOrder_byStart rs) horizonStart required
  have hle := hearliest.2 ⟨hlo, hfree⟩
  have hend := horizonEnd.toNat_lt
  generalize sweepFrom required (byStart rs) horizonStart = e at hearliest hle
  have hnat : (Quantity.ofNat e : Duration).toNat = e := Quantity.toNat_ofNat (by omega)
  have hfound : ∀ order, StartOrder order rs →
      searchReservations order horizonStart horizonEnd required = .ok (some (.ofNat e)) := by
    intro order horder
    rw [searchReservations_eq_some_iff horder hpos, hnat]
    exact ⟨hearliest, Or.inl (by omega)⟩
  refine ⟨.ofNat e, hfound _ (startOrder_byStart rs), ?_, ?_, ?_, hfound⟩
  · rw [hnat]
    exact hearliest
  · rw [hnat]
    omega
  · intro rs' hperm
    have horder := startOrder_byStart rs'
    exact hfound _ ⟨horder.perm.trans hperm, horder.sorted⟩

/-- Two reservations that overlap, the later one first. -/
def nestedReservations : List Reservation :=
  [{ start := ⟨30⟩, stop := ⟨40⟩ }, { start := ⟨5⟩, stop := ⟨60⟩ }]

/-- The 10 behind both are found, from 60 on, also if the nested one comes last. -/
theorem temporalContinuousFit_earliest_nestedReservations :
    ∃ t, temporalContinuousFit nestedReservations 0 ⟨100⟩ ⟨10⟩ = .ok (some t) ∧
      Earliest nestedReservations 0 ⟨10⟩ t.toNat ∧ t.toNat ≤ 60 ∧
      temporalContinuousFit nestedReservations.reverse 0 ⟨100⟩ ⟨10⟩ = .ok (some t) := by
  have hfree : Unreserved nestedReservations ⟨10⟩ 60 := by
    intro r hr
    simp only [nestedReservations, List.mem_cons, List.not_mem_nil, or_false] at hr
    rcases hr with rfl | rfl
    · exact Or.inl (by decide)
    · exact Or.inl (by decide)
  obtain ⟨t, ht, hearliest, -, hperm, -⟩ := temporalContinuousFit_earliest nestedReservations 0
    ⟨100⟩ ⟨10⟩ (by decide) 60 (by decide) (by decide) hfree
  exact ⟨t, ht, hearliest, hearliest.2 ⟨by decide, hfree⟩, hperm _ (List.reverse_perm _)⟩

/-! ## The search that raises -/

/-- The gate of the fit analysis answers with one of its two verdicts when the search does. -/
theorem exists_reservationGate_iff (r : FitResult) (rs : List Reservation)
    (search : Except ValueError (Option Duration)) :
    (∃ blocked, reservationGate r rs search = .ok blocked ∧ ∀ r', blocked = some r' →
        r'.outcome = .noFitReservation ∨ r'.outcome = .noFitTemporal) ↔
      ∃ out, search = .ok out := by
  rw [reservationGate]
  cases search with
  | error e =>
      refine iff_of_false ?_ ?_
      · rintro ⟨blocked, h, -⟩
        cases h
      · rintro ⟨out, h⟩
        cases h
  | ok window =>
      refine iff_of_true ?_ ⟨_, rfl⟩
      cases window with
      | some start => exact ⟨none, rfl, fun r' h => by cases h⟩
      | none =>
          simp only [ok_bind]
          by_cases hhard : rs.any (fun res => res.hard) = true
          · rw [if_pos hhard]
            refine ⟨_, rfl, ?_⟩
            rintro r' ⟨⟩
            exact Or.inl rfl
          · rw [if_neg hhard]
            refine ⟨_, rfl, ?_⟩
            rintro r' ⟨⟩
            exact Or.inr rfl

/-- In every order in which the sort may leave the reservations the search returns, and with it
the gate of the fit analysis, exactly when each reservation that starts first among those that
reach the end of the horizon ends there or has a window before it. Where several start first,
the first of them in the order decides. -/
theorem temporalContinuousFit_returns_iff (rs : List Reservation)
    (horizonStart horizonEnd required : Duration) (hle : horizonStart ≤ horizonEnd) :
    ((∀ order, StartOrder order rs →
          ∃ out, searchReservations order horizonStart horizonEnd required = .ok out) ↔
        (0 < required.toNat → Contained rs horizonStart horizonEnd required)) ∧
      (∀ order, StartOrder order rs →
        ((∃ out, searchReservations order horizonStart horizonEnd required = .ok out) ↔
          (0 < required.toNat → ∀ r, order.find? (overruns horizonStart horizonEnd) = some r →
            Heeded rs horizonStart horizonEnd required r))) ∧
      ∀ result, (∀ order, StartOrder order rs →
          ∃ blocked, reservationGate result rs
              (searchReservations order 0 ⟨0xFFFFFFFFFFFFFFFF / 2⟩ required) = .ok blocked ∧
            ∀ r', blocked = some r' →
              r'.outcome = .noFitReservation ∨ r'.outcome = .noFitTemporal) ↔
        (0 < required.toNat → Contained rs 0 ⟨0xFFFFFFFFFFFFFFFF / 2⟩ required) := by
  refine ⟨forall_order_exists_searchReservations_iff hle, ?_, ?_⟩
  · exact fun order horder => exists_searchReservations_iff horder hle
  · intro result
    simp only [exists_reservationGate_iff]
    exact forall_order_exists_searchReservations_iff (Nat.zero_le _)

/-- A reservation that ends one nanosecond behind the horizon of the fit analysis. -/
def overlongReservation : Reservation := { start := 0, stop := ⟨0x8000000000000000⟩ }

theorem temporalContinuousFit_raises :
    (¬ ∃ out, temporalContinuousFit [overlongReservation] 0 ⟨0xFFFFFFFFFFFFFFFF / 2⟩ ⟨10⟩ =
        .ok out) ∧
      ∀ r, ¬ ∃ blocked, reservationFit r [overlongReservation] ⟨10⟩ = .ok blocked := by
  have hraises : temporalContinuousFit [overlongReservation] 0 ⟨0xFFFFFFFFFFFFFFFF / 2⟩ ⟨10⟩ =
      .error ⟨"Duration subtract underflow"⟩ := by
    decide
  constructor
  · rintro ⟨out, hout⟩
    rw [hraises] at hout
    cases hout
  · rintro r ⟨blocked, hblocked⟩
    rw [reservationFit, hraises] at hblocked
    cases hblocked

/-- Two reservations from 30 on run past a horizon of 100. -/
def overrunningReservations : List Reservation :=
  [{ start := ⟨30⟩, stop := ⟨200⟩ }, { start := 0, stop := ⟨5⟩ },
    { start := ⟨30⟩, stop := ⟨150⟩ }]

/-- The 20 between 5 and 30 are found before the search gets to one of them, in any order. -/
theorem temporalContinuousFit_returns_iff_overrunningReservations :
    Contained overrunningReservations 0 ⟨100⟩ ⟨20⟩ ∧
      ∀ order, StartOrder order overrunningReservations →
        ∃ out, searchReservations order 0 ⟨100⟩ ⟨20⟩ = .ok out := by
  have hcontained : Contained overrunningReservations 0 ⟨100⟩ ⟨20⟩ := by
    refine fun r hr hover _ => Or.inr ⟨5, Nat.zero_le 5, ?_, ?_⟩
    · simp only [overrunningReservations, List.mem_cons, List.not_mem_nil, or_false] at hr
      rcases hr with rfl | rfl | rfl
      · decide
      · exact absurd hover (by decide)
      · decide
    · intro x hx
      simp only [overrunningReservations, List.mem_cons, List.not_mem_nil, or_false] at hx
      rcases hx with rfl | rfl | rfl
      · exact Or.inr (by decide)
      · exact Or.inl (by decide)
      · exact Or.inr (by decide)
  exact ⟨hcontained, (temporalContinuousFit_returns_iff overrunningReservations 0 ⟨100⟩ ⟨20⟩
    (by decide)).1.mpr (fun _ => hcontained)⟩

-- of two reservations that start together, the one the sort leaves in front decides
example : searchReservations [{ stop := ⟨100⟩ }, { stop := ⟨200⟩ }] 0 ⟨100⟩ ⟨10⟩ = .ok none ∧
    searchReservations [{ stop := ⟨200⟩ }, { stop := ⟨100⟩ }] 0 ⟨100⟩ ⟨10⟩ =
      .error ⟨"Duration subtract underflow"⟩ := by
  decide

end FragmentationGovernor
