import FragmentationGovernor.Library.Tiling
import FragmentationGovernor.Model.Layout

/-! # The representation invariant of a layout

The regions tile `[0, capacity)` and every other structure of a layout is a function
of them and of the allocation registry. -/

namespace FragmentationGovernor.ResourceLayout

/-! ## Views of the region list -/

def startOf (e : Bytes × Region) : ℕ := e.1.toNat

def lengthOf (e : Bytes × Region) : ℕ := e.2.length.toNat

def IsFree (e : Bytes × Region) : Prop := e.2.kind = .free

instance (e : Bytes × Region) : Decidable (IsFree e) :=
  inferInstanceAs (Decidable (_ = _))

def freeLength? (e : Bytes × Region) : Option Bytes :=
  if e.2.kind = .free then some e.2.length else none

/-- The owner, offset and length of an allocated region. -/
def span? (e : Bytes × Region) : Option (Option AllocationId × Bytes × Bytes) :=
  if e.2.kind = .free then none else some (e.2.allocId, e.2.offset, e.2.length)

/-- The lengths of the free regions. -/
def freeLens (es : List (Bytes × Region)) : Multiset Bytes := es.filterMap freeLength?

/-- The spans of the allocated regions. -/
def spans (es : List (Bytes × Region)) : Multiset (Option AllocationId × Bytes × Bytes) :=
  es.filterMap span?

/-- The spans the registry knows. -/
def allocationSpans (l : ResourceLayout) : Multiset (Option AllocationId × Bytes × Bytes) :=
  l.allocations.entries.map (fun e => (some e.1, e.2.offset, e.2.length))

/-- The total length of the registered allocations. -/
def allocatedLength (l : ResourceLayout) : ℕ :=
  (l.allocations.entries.map (fun e => e.2.length.toNat)).sum

def freeEntry (start length : Bytes) : Bytes × Region := (start, ⟨.free, start, length, none⟩)

def allocEntry (a : Allocation) : Bytes × Region :=
  (a.offset, ⟨.allocated, a.offset, a.length, some a.id⟩)

@[simp] theorem startOf_mk (k : Bytes) (r : Region) : startOf (k, r) = k.toNat := rfl

@[simp] theorem lengthOf_mk (k : Bytes) (r : Region) : lengthOf (k, r) = r.length.toNat := rfl

@[simp] theorem isFree_mk (k : Bytes) (r : Region) : IsFree (k, r) ↔ r.kind = .free := Iff.rfl

@[simp] theorem freeLens_nil : freeLens [] = 0 := rfl

@[simp] theorem spans_nil : spans [] = 0 := rfl

theorem freeLens_append (xs ys : List (Bytes × Region)) :
    freeLens (xs ++ ys) = freeLens xs + freeLens ys := by
  simp [freeLens, List.filterMap_append]

theorem spans_append (xs ys : List (Bytes × Region)) :
    spans (xs ++ ys) = spans xs + spans ys := by
  simp [spans, List.filterMap_append]

theorem freeLens_cons (e : Bytes × Region) (es : List (Bytes × Region)) :
    freeLens (e :: es) = freeLens [e] + freeLens es :=
  freeLens_append [e] es

theorem spans_cons (e : Bytes × Region) (es : List (Bytes × Region)) :
    spans (e :: es) = spans [e] + spans es :=
  spans_append [e] es

theorem freeLens_of_free {e : Bytes × Region} (h : IsFree e) : freeLens [e] = {e.2.length} := by
  have hk : e.2.kind = .free := h
  simp [freeLens, freeLength?, hk]

theorem spans_of_free {e : Bytes × Region} (h : IsFree e) : spans [e] = 0 := by
  have hk : e.2.kind = .free := h
  simp [spans, span?, hk]

theorem freeLens_of_allocated {e : Bytes × Region} (h : ¬ IsFree e) : freeLens [e] = 0 := by
  have hk : e.2.kind ≠ .free := h
  simp [freeLens, freeLength?, hk]

theorem spans_of_allocated {e : Bytes × Region} (h : ¬ IsFree e) :
    spans [e] = {(e.2.allocId, e.2.offset, e.2.length)} := by
  have hk : e.2.kind ≠ .free := h
  simp [spans, span?, hk]

/-- Free and allocated regions together account for every length. -/
theorem sum_freeLens_add_sum_spans (es : List (Bytes × Region)) :
    ((freeLens es).map Quantity.toNat).sum + ((spans es).map (fun s => s.2.2.toNat)).sum =
      (es.map lengthOf).sum := by
  induction es with
  | nil => simp
  | cons e es ih =>
      rw [freeLens_cons, spans_cons, List.map_cons, List.sum_cons, ← ih]
      simp only [Multiset.map_add, Multiset.sum_add]
      by_cases h : IsFree e
      · rw [freeLens_of_free h, spans_of_free h]
        simp only [Multiset.map_singleton, Multiset.sum_singleton, Multiset.map_zero,
          Multiset.sum_zero, lengthOf]
        omega
      · rw [freeLens_of_allocated h, spans_of_allocated h]
        simp only [Multiset.map_singleton, Multiset.sum_singleton, Multiset.map_zero,
          Multiset.sum_zero, lengthOf]
        omega

/-! ## The invariant -/

/-- The regions tile `[0, capacity)`, free regions are maximal, and the registry, the
length index and the counters agree with the regions. -/
structure Valid (l : ResourceLayout) : Prop where
  tiles : Tiles startOf lengthOf 0 l.capacity.toNat l.regions.entries
  keyed : ∀ e ∈ l.regions.entries, e.2.offset = e.1
  unowned : ∀ e ∈ l.regions.entries, IsFree e → e.2.allocId = none
  separated : Separated IsFree l.regions.entries
  spans_eq : spans l.regions.entries = l.allocationSpans
  ids : ∀ e ∈ l.allocations.entries, e.2.id = e.1
  offsets_eq : l.allocOffsets = l.allocations.mapVals (fun _ a => a.offset)
  freeLengths_eq : l.freeLengths = freeLens l.regions.entries
  freeCapacity_eq : l.freeCapacity.toNat = (l.freeLengths.map Quantity.toNat).sum
  allocCount_eq : l.allocCount.toNat = l.allocations.size

theorem sum_allocationSpans (l : ResourceLayout) :
    (l.allocationSpans.map (fun s => s.2.2.toNat)).sum = l.allocatedLength := by
  simp [allocationSpans, allocatedLength, Function.comp_def]

/-- The free counter agrees with the length index as soon as it complements the
allocated lengths. -/
theorem freeCapacity_eq_of_sum {l : ResourceLayout}
    (htiles : Tiles startOf lengthOf 0 l.capacity.toNat l.regions.entries)
    (hspans : spans l.regions.entries = l.allocationSpans)
    (hidx : l.freeLengths = freeLens l.regions.entries)
    (hsum : l.freeCapacity.toNat + l.allocatedLength = l.capacity.toNat) :
    l.freeCapacity.toNat = (l.freeLengths.map Quantity.toNat).sum := by
  have hlens := sum_freeLens_add_sum_spans l.regions.entries
  have htotal := htiles.sum_len
  rw [hspans, sum_allocationSpans, ← hidx] at hlens
  omega

theorem allocatedLength_insert {l l' : ResourceLayout} {a : Allocation}
    (hnew : l.allocations.find? a.id = none)
    (h : l'.allocations = l.allocations.insert a.id a) :
    l'.allocatedLength = a.length.toNat + l.allocatedLength := by
  rw [allocatedLength, h, ((OrdMap.entries_insert_perm a hnew).map _).sum_eq]
  rfl

theorem allocatedLength_erase {l l' : ResourceLayout} {id : AllocationId} {a : Allocation}
    (ha : l.allocations.find? id = some a) (h : l'.allocations = l.allocations.erase id) :
    l.allocatedLength = a.length.toNat + l'.allocatedLength := by
  rw [allocatedLength, allocatedLength, h, ((OrdMap.entries_erase_perm ha).map _).sum_eq]
  rfl

/-- Registering a new allocation adds exactly its span. -/
theorem allocationSpans_insert {l l' : ResourceLayout} {a : Allocation}
    (hnew : l.allocations.find? a.id = none)
    (h : l'.allocations = l.allocations.insert a.id a) :
    l'.allocationSpans = {(some a.id, a.offset, a.length)} + l.allocationSpans := by
  rw [allocationSpans, h, Multiset.coe_eq_coe.mpr ((OrdMap.entries_insert_perm a hnew).map _)]
  rfl

theorem allocationSpans_erase {l l' : ResourceLayout} {id : AllocationId} {a : Allocation}
    (ha : l.allocations.find? id = some a) (h : l'.allocations = l.allocations.erase id) :
    l.allocationSpans = {(some id, a.offset, a.length)} + l'.allocationSpans := by
  rw [allocationSpans, allocationSpans, h,
    Multiset.coe_eq_coe.mpr ((OrdMap.entries_erase_perm ha).map _)]
  rfl

namespace Valid

variable {l : ResourceLayout}

/-- Free capacity and allocated lengths add up to the capacity. -/
theorem free_add_allocated (h : l.Valid) :
    l.freeCapacity.toNat + l.allocatedLength = l.capacity.toNat := by
  have hsum := sum_freeLens_add_sum_spans l.regions.entries
  have htiles := h.tiles.sum_len
  rw [h.spans_eq, sum_allocationSpans, ← h.freeLengths_eq, ← h.freeCapacity_eq] at hsum
  omega

/-- Each registered allocation has its own allocated region. -/
theorem exists_region (h : l.Valid) {id : AllocationId} {a : Allocation}
    (ha : l.allocations.find? id = some a) :
    ∃ front r back, l.regions.entries = front ++ (a.offset, r) :: back ∧
      r = ⟨r.kind, a.offset, a.length, some id⟩ ∧ r.kind ≠ .free := by
  have hmem : (some id, a.offset, a.length) ∈ spans l.regions.entries := by
    rw [h.spans_eq]
    simp only [allocationSpans, Multiset.mem_coe, List.mem_map]
    exact ⟨(id, a), OrdMap.find?_eq_some_iff.mp ha, rfl⟩
  simp only [spans, Multiset.mem_coe, List.mem_filterMap] at hmem
  obtain ⟨⟨k, r⟩, he, hs⟩ := hmem
  by_cases hk : r.kind = .free
  · simp [span?, hk] at hs
  · simp only [span?, hk, if_false, Option.some.injEq, Prod.mk.injEq] at hs
    obtain ⟨hid, hoff, hlen⟩ := hs
    have hkey : r.offset = k := h.keyed (k, r) he
    obtain ⟨front, back, hsplit⟩ := List.append_of_mem he
    have hka : k = a.offset := hkey.symm.trans hoff
    refine ⟨front, r, back, hka ▸ hsplit, ?_, hk⟩
    rw [← hid, ← hoff, ← hlen]

/-- A registered allocation lies inside the resource. -/
theorem allocation_bounds (h : l.Valid) {id : AllocationId} {a : Allocation}
    (ha : l.allocations.find? id = some a) :
    0 < a.length.toNat ∧ a.offset.toNat + a.length.toNat ≤ l.capacity.toNat := by
  obtain ⟨front, r, back, hsplit, hr, -⟩ := h.exists_region ha
  have hb := h.tiles.bounds (b := (a.offset, r)) (by simp [hsplit])
  rw [hr] at hb
  exact hb.2

/-- Allocations have positive length, so their number never exceeds the capacity. -/
theorem size_le_allocatedLength (h : l.Valid) : l.allocations.size ≤ l.allocatedLength := by
  have hpos : ∀ e ∈ l.allocations.entries, 1 ≤ e.2.length.toNat := fun e he =>
    (h.allocation_bounds (OrdMap.find?_eq_some_iff.mpr he)).1
  have hgen : ∀ es : List (AllocationId × Allocation), (∀ e ∈ es, 1 ≤ e.2.length.toNat) →
      es.length ≤ (es.map (fun e => e.2.length.toNat)).sum := by
    intro es hes
    induction es with
    | nil => simp
    | cons e es ih =>
        have he := hes e (by simp)
        have hrest := ih (fun x hx => hes x (by simp [hx]))
        simp only [List.length_cons, List.map_cons, List.sum_cons]
        omega
  exact hgen _ hpos

end Valid

/-! ## The initial layout -/

theorem capacity_ofCapacity (capacity : Bytes) : (ofCapacity capacity).capacity = capacity := by
  unfold ofCapacity
  split <;> rfl

theorem valid_ofCapacity (capacity : Bytes) : (ofCapacity capacity).Valid := by
  unfold ofCapacity
  by_cases h : capacity = 0
  · subst h
    rw [if_pos rfl]
    have hempty : (∅ : OrdMap Bytes Region).entries = [] := rfl
    exact ⟨rfl, by simp [hempty], by simp [hempty], by simp [hempty, Separated], rfl,
      fun e he => (List.not_mem_nil he).elim, rfl, rfl, rfl, rfl⟩
  · rw [if_neg h]
    have hpos : 0 < capacity.toNat := by
      have hne : capacity.toNat ≠ 0 := fun he => h (Quantity.eq_iff.mpr he)
      omega
    have hent : ((∅ : OrdMap Bytes Region).emplace 0 ⟨.free, 0, capacity, none⟩).entries =
        [freeEntry 0 capacity] := rfl
    have hfree : IsFree (freeEntry 0 capacity) := rfl
    constructor
    all_goals simp only [hent]
    · simp [freeEntry, hpos]
    · simp [freeEntry]
    · simp [freeEntry]
    · exact List.isChain_singleton _
    · rw [spans_of_free hfree]
      rfl
    · intro e he
      cases he
    · rfl
    · rw [freeLens_of_free hfree]
      rfl
    · simp
    · rfl

end FragmentationGovernor.ResourceLayout
