import FragmentationGovernor.Verification.Layout.Invariant

/-! # Insertion keeps the invariant

An insertion is granted exactly when the span is nonempty, inside the resource, under
a new id and within one free region; it then replaces that region by at most three. -/

namespace FragmentationGovernor.ResourceLayout

/-! ## Geometry -/

/-- The three tests of `validate_geometry` amount to one bound on unbounded integers. -/
theorem validateGeometry_eq_ok_iff (l : ResourceLayout) (off len : Bytes) :
    l.validateGeometry off len = .ok () ↔
      0 < len.toNat ∧ off.toNat + len.toNat ≤ l.capacity.toNat := by
  have hoff := off.toNat_lt
  have hlen := len.toNat_lt
  have hcap := l.capacity.toNat_lt
  have hzero : len.value = 0 ↔ len.toNat = 0 := UInt64.toNat_inj.symm
  have hwrap : (off.value + len.value).toNat = (off.toNat + len.toNat) % 2 ^ 64 :=
    UInt64.toNat_add off.value len.value
  have hbound : (off.value + len.value > l.capacity.value ∨ off.value > l.capacity.value) ↔
      l.capacity.toNat < (off.toNat + len.toNat) % 2 ^ 64 ∨
        l.capacity.toNat < off.toNat := by
    rw [gt_iff_lt, gt_iff_lt, UInt64.lt_iff_toNat_lt, hwrap, UInt64.lt_iff_toNat_lt]
    exact Iff.rfl
  unfold validateGeometry
  by_cases h0 : len.value = 0
  · rw [if_pos h0]
    rw [hzero] at h0
    simp [h0]
  · rw [if_neg h0]
    rw [hzero] at h0
    by_cases hb : off.value + len.value > l.capacity.value ∨ off.value > l.capacity.value
    · rw [if_pos hb]
      rw [hbound] at hb
      simp only [reduceCtorEq, false_iff, not_and, not_le]
      omega
    · rw [if_neg hb]
      rw [hbound, not_or, not_lt, not_lt] at hb
      have hroom : (l.capacity.value - off.value).toNat = l.capacity.toNat - off.toNat :=
        UInt64.toNat_sub_of_le _ _ hb.2
      have hfit : len.value > l.capacity.value - off.value ↔
          l.capacity.toNat - off.toNat < len.toNat := by
        rw [gt_iff_lt, UInt64.lt_iff_toNat_lt, hroom]
        exact Iff.rfl
      by_cases hf : len.value > l.capacity.value - off.value
      · rw [if_pos hf]
        rw [hfit] at hf
        simp only [reduceCtorEq, false_iff, not_and, not_le]
        omega
      · rw [if_neg hf]
        rw [hfit] at hf
        simp only [true_iff]
        omega

/-- Inside the resource, the search returns the region that holds the offset. -/
theorem Valid.regionContaining_eq {l : ResourceLayout} (h : l.Valid) {off : Bytes}
    (hoff : off.toNat < l.capacity.toNat) :
    ∃ front key r back, l.regions.entries = front ++ (key, r) :: back ∧
      l.regionContaining off = .ok (some (key, r)) ∧ r.offset = key ∧
      key.toNat ≤ off.toNat ∧ off.toNat < key.toNat + r.length.toNat := by
  obtain ⟨front, ⟨key, r⟩, back, hsplit, hle, hlt⟩ :=
    h.tiles.exists_block (Nat.zero_le _) hoff
  simp only [startOf_mk, lengthOf_mk] at hle hlt
  have htiles := h.tiles
  rw [hsplit] at htiles
  obtain ⟨-, -, hback⟩ := tiles_split.mp htiles
  simp only [startOf_mk, lengthOf_mk] at hback
  have hkey : r.offset = key := h.keyed (key, r) (by simp [hsplit])
  have hfind : l.regions.findLE? off = some (key, r) := by
    apply OrdMap.findLE?_of_split hsplit
    · exact Quantity.le_iff.mpr hle
    · intro x hx
      have hx' := (hback.bounds hx).1
      exact Quantity.lt_iff.mpr (lt_of_lt_of_le hlt hx')
  have hfits : r.offset.toNat + r.length.toNat < 2 ^ 64 := by
    have := hback.le
    have := l.capacity.toNat_lt
    rw [hkey]
    omega
  obtain ⟨stop, hadd, hstop⟩ := Quantity.exists_add_ok hfits
  refine ⟨front, key, r, back, hsplit, ?_, hkey, hle, hlt⟩
  have hlo : r.offset ≤ off := by
    rw [hkey]
    exact Quantity.le_iff.mpr hle
  have hhi : off < stop := Quantity.lt_iff.mpr (by rw [hstop, hkey]; exact hlt)
  unfold regionContaining
  rw [hfind]
  dsimp only
  rw [if_pos hlo, hadd]
  exact congrArg Except.ok (if_pos hhi)

/-! ## The region edits -/

/-- Two layouts agree on everything but the regions and the length index. -/
structure SameRegistry (l l' : ResourceLayout) : Prop where
  capacity : l'.capacity = l.capacity
  allocOffsets : l'.allocOffsets = l.allocOffsets
  allocations : l'.allocations = l.allocations
  freeCapacity : l'.freeCapacity = l.freeCapacity
  allocCount : l'.allocCount = l.allocCount

theorem SameRegistry.trans {l₁ l₂ l₃ : ResourceLayout} (h : SameRegistry l₁ l₂)
    (h' : SameRegistry l₂ l₃) : SameRegistry l₁ l₃ :=
  ⟨h'.capacity.trans h.capacity, h'.allocOffsets.trans h.allocOffsets,
    h'.allocations.trans h.allocations, h'.freeCapacity.trans h.freeCapacity,
    h'.allocCount.trans h.allocCount⟩

/-- The remainder of a free region on one side of an insertion, absent when empty. -/
def remainder (start length : Bytes) : List (Bytes × Region) :=
  if 0 < length.toNat then [freeEntry start length] else []

theorem tiles_remainder {start length : Bytes} :
    Tiles startOf lengthOf start.toNat (start.toNat + length.toNat) (remainder start length) := by
  unfold remainder
  by_cases h : 0 < length.toNat
  · rw [if_pos h]
    simp [freeEntry, h]
  · rw [if_neg h, tiles_nil]
    omega

theorem mem_remainder {start length : Bytes} {e : Bytes × Region}
    (h : e ∈ remainder start length) : e = freeEntry start length ∧ 0 < length.toNat := by
  unfold remainder at h
  by_cases hpos : 0 < length.toNat
  · rw [if_pos hpos] at h
    exact ⟨List.mem_singleton.mp h, hpos⟩
  · rw [if_neg hpos] at h
    cases h

theorem spans_remainder (start length : Bytes) : spans (remainder start length) = 0 := by
  unfold remainder
  split
  · exact spans_of_free rfl
  · rfl

theorem separated_append_remainder {front : List (Bytes × Region)} {start length : Bytes}
    (h : Separated IsFree front) (hlast : ∀ x ∈ front.getLast?, ¬ IsFree x) :
    Separated IsFree (front ++ remainder start length) := by
  unfold remainder
  split
  · exact h.snoc hlast
  · rwa [List.append_nil]

theorem separated_remainder_append {back : List (Bytes × Region)} {start length : Bytes}
    (h : Separated IsFree back) (hhead : ∀ y ∈ back.head?, ¬ IsFree y) :
    Separated IsFree (remainder start length ++ back) := by
  unfold remainder
  split
  · exact h.cons hhead
  · exact h

/-- Adding a remainder puts it between the regions before and after it. -/
theorem addRemainder_eq {l : ResourceLayout} {front back : List (Bytes × Region)}
    {start stop length : Bytes} (hent : l.regions.entries = front ++ back)
    (hlen : start.toNat + length.toNat = stop.toNat)
    (hfront : ∀ e ∈ front, e.1 < start) (hback : ∀ e ∈ back, stop ≤ e.1) :
    ∃ l', l.addRemainder start stop = .ok l' ∧
      l'.regions.entries = front ++ (remainder start length ++ back) ∧
      l'.freeLengths = freeLens (remainder start length) + l.freeLengths ∧
      SameRegistry l l' := by
  by_cases hcut : start < stop
  · have hcut' : start.toNat < stop.toNat := hcut
    have hpos : 0 < length.toNat := by omega
    have hsub : stop.sub start = .ok length := Quantity.sub_eq_ok_iff.mpr hlen
    refine ⟨l.addFree start length, ?_, ?_, ?_, ⟨rfl, rfl, rfl, rfl, rfl⟩⟩
    · rw [addRemainder, if_pos hcut, hsub]
      rfl
    · rw [remainder, if_pos hpos]
      exact OrdMap.entries_emplace_of_split _ hent hfront
        (fun e he => lt_of_lt_of_le hcut (hback e he))
    · rw [remainder, if_pos hpos, freeLens_of_free (show IsFree (freeEntry start length) from rfl),
        Multiset.singleton_add]
      rfl
  · have hcut' : ¬ start.toNat < stop.toNat := hcut
    have hzero : ¬ 0 < length.toNat := by omega
    refine ⟨l, ?_, ?_, ?_, ⟨rfl, rfl, rfl, rfl, rfl⟩⟩
    · rw [addRemainder, if_neg hcut]
    · rw [remainder, if_neg hzero]
      exact hent
    · rw [remainder, if_neg hzero, freeLens_nil, zero_add]

/-- The blocks that replace a free region `[key, stop)` when `a` is inserted into it. -/
def splitBlocks (key : Bytes) (left : Bytes) (a : Allocation) (aEnd right : Bytes) :
    List (Bytes × Region) :=
  remainder key left ++ allocEntry a :: remainder aEnd right

section SplitBlocks

variable {key left aEnd right : Bytes} {a : Allocation}

theorem not_isFree_allocEntry (a : Allocation) : ¬ IsFree (allocEntry a) := by simp [allocEntry]

theorem mem_splitBlocks {e : Bytes × Region} (h : e ∈ splitBlocks key left a aEnd right) :
    e = freeEntry key left ∨ e = allocEntry a ∨ e = freeEntry aEnd right := by
  rcases List.mem_append.mp h with he | he
  · exact Or.inl (mem_remainder he).1
  · rcases List.mem_cons.mp he with he | he
    · exact Or.inr (Or.inl he)
    · exact Or.inr (Or.inr (mem_remainder he).1)

theorem tiles_splitBlocks {freeEnd : Bytes} (hleft : key.toNat + left.toNat = a.offset.toNat)
    (haEnd : a.offset.toNat + a.length.toNat = aEnd.toNat) (hpos : 0 < a.length.toNat)
    (hright : aEnd.toNat + right.toNat = freeEnd.toNat) :
    Tiles startOf lengthOf key.toNat freeEnd.toNat (splitBlocks key left a aEnd right) := by
  rw [splitBlocks, tiles_append]
  refine ⟨a.offset.toNat, by rw [← hleft]; exact tiles_remainder, rfl, hpos, ?_⟩
  simp only [allocEntry, lengthOf_mk]
  rw [haEnd, ← hright]
  exact tiles_remainder

theorem freeLens_splitBlocks : freeLens (splitBlocks key left a aEnd right) =
    freeLens (remainder key left) + freeLens (remainder aEnd right) := by
  rw [splitBlocks, freeLens_append, freeLens_cons,
    freeLens_of_allocated (not_isFree_allocEntry a), zero_add]

theorem spans_splitBlocks :
    spans (splitBlocks key left a aEnd right) = {(some a.id, a.offset, a.length)} := by
  rw [splitBlocks, spans_append, spans_cons, spans_remainder, spans_remainder, zero_add, add_zero,
    spans_of_allocated (not_isFree_allocEntry a)]
  rfl

/-- The remainders touch no free region if the one they are left of touched none. -/
theorem separated_splitBlocks {front back : List (Bytes × Region)}
    (hfront : Separated IsFree front) (hback : Separated IsFree back)
    (hlast : ∀ x ∈ front.getLast?, ¬ IsFree x) (hhead : ∀ y ∈ back.head?, ¬ IsFree y) :
    Separated IsFree (front ++ (splitBlocks key left a aEnd right ++ back)) := by
  rw [splitBlocks, List.append_assoc, ← List.append_assoc, List.cons_append,
    separated_split_of_not (not_isFree_allocEntry a)]
  exact ⟨separated_append_remainder hfront hlast, separated_remainder_append hback hhead⟩

end SplitBlocks

/-- What `splitFree` leaves: the free region replaced by its remainders around the
allocated one, and the length index adjusted to match. -/
theorem splitFree_eq {l : ResourceLayout} {front back : List (Bytes × Region)}
    {key freeEnd aEnd left right : Bytes} {r : Region} {a : Allocation}
    (hsplit : l.regions.entries = front ++ (key, r) :: back) (hkey : r.offset = key)
    (hleft : key.toNat + left.toNat = a.offset.toNat)
    (haEnd : a.offset.toNat + a.length.toNat = aEnd.toNat) (hpos : 0 < a.length.toNat)
    (hright : aEnd.toNat + right.toNat = freeEnd.toNat)
    (hback : ∀ e ∈ back, freeEnd ≤ e.1) :
    ∃ l', l.splitFree key r a freeEnd aEnd = .ok l' ∧
      l'.regions.entries = front ++ (splitBlocks key left a aEnd right ++ back) ∧
      l'.freeLengths = freeLens (remainder key left) + freeLens (remainder aEnd right) +
        l.freeLengths.erase r.length ∧
      SameRegistry l l' := by
  have hfront : ∀ e ∈ front, e.1 < key := (OrdMap.lt_of_split hsplit).1
  have hback' : ∀ e ∈ back, aEnd.toNat ≤ e.1.toNat := by
    intro e he
    have := Quantity.le_iff.mp (hback e he)
    omega
  -- the three stages: free region erased, left remainder, allocated region
  let l₀ : ResourceLayout :=
    { l.consumeFree r.length with regions := l.regions.erase key }
  have hent₀ : l₀.regions.entries = front ++ back := OrdMap.entries_erase_of_split hsplit
  obtain ⟨l₁, hl₁, hent₁, hidx₁, hreg₁⟩ := addRemainder_eq hent₀ hleft hfront
    (fun e he => Quantity.le_iff.mpr (by have := hback' e he; omega))
  have hfront₁ : ∀ e ∈ front ++ remainder key left, e.1 < a.offset := by
    intro e he
    rcases List.mem_append.mp he with he | he
    · refine lt_of_lt_of_le (hfront e he) (Quantity.le_iff.mpr ?_)
      omega
    · obtain ⟨rfl, hne⟩ := mem_remainder he
      refine Quantity.lt_iff.mpr ?_
      simp only [freeEntry]
      omega
  let l₂ : ResourceLayout := { l₁ with
    regions := l₁.regions.emplace a.offset ⟨.allocated, a.offset, a.length, some a.id⟩ }
  have hent₂ : l₂.regions.entries =
      (front ++ remainder key left ++ [allocEntry a]) ++ back := by
    have hback₁ : ∀ e ∈ back, a.offset < e.1 := by
      intro e he
      have := hback' e he
      exact Quantity.lt_iff.mpr (by omega)
    rw [List.append_assoc (front ++ remainder key left), List.singleton_append]
    exact OrdMap.entries_emplace_of_split _ (hent₁.trans (List.append_assoc _ _ _).symm)
      hfront₁ hback₁
  have hfront₂ : ∀ e ∈ front ++ remainder key left ++ [allocEntry a], e.1 < aEnd := by
    intro e he
    rcases List.mem_append.mp he with he | he
    · refine (hfront₁ e he).trans (Quantity.lt_iff.mpr ?_)
      omega
    · rw [List.mem_singleton.mp he]
      refine Quantity.lt_iff.mpr ?_
      simp only [allocEntry]
      omega
  obtain ⟨l₃, hl₃, hent₃, hidx₃, hreg₃⟩ := addRemainder_eq hent₂ hright hfront₂ hback
  refine ⟨l₃, ?_, ?_, ?_, ?_⟩
  · change (l₀.addRemainder r.offset a.offset >>= fun l => _) = _
    rw [hkey, hl₁]
    exact hl₃
  · rw [hent₃]
    simp [splitBlocks]
  · rw [hidx₃]
    change _ + l₁.freeLengths = _
    rw [hidx₁, ← add_assoc, add_comm (freeLens (remainder aEnd right))]
    rfl
  · exact ((⟨rfl, rfl, rfl, rfl, rfl⟩ : SameRegistry l l₀).trans hreg₁).trans
      ((⟨rfl, rfl, rfl, rfl, rfl⟩ : SameRegistry l₁ l₂).trans hreg₃)

/-! ## The whole call -/

/-- A split of a free region keeps a valid layout valid once the registry follows. -/
theorem Valid.of_split {l l' : ResourceLayout} (h : l.Valid)
    {front back : List (Bytes × Region)} {key freeEnd aEnd left right : Bytes} {r : Region}
    {a : Allocation} (hsplit : l.regions.entries = front ++ (key, r) :: back)
    (hfree : r.kind = .free) (hleft : key.toNat + left.toNat = a.offset.toNat)
    (haEnd : a.offset.toNat + a.length.toNat = aEnd.toNat) (hpos : 0 < a.length.toNat)
    (hright : aEnd.toNat + right.toNat = freeEnd.toNat)
    (hend : key.toNat + r.length.toNat = freeEnd.toNat)
    (hnew : l.allocations.find? a.id = none)
    (hcap : l'.capacity = l.capacity)
    (hent : l'.regions.entries = front ++ (splitBlocks key left a aEnd right ++ back))
    (hidx : l'.freeLengths = freeLens (remainder key left) + freeLens (remainder aEnd right) +
      l.freeLengths.erase r.length)
    (halloc : l'.allocations = l.allocations.insert a.id a)
    (hoff : l'.allocOffsets = l.allocOffsets.insert a.id a.offset)
    (hfc : a.length.toNat + l'.freeCapacity.toNat = l.freeCapacity.toNat)
    (hcount : l'.allocCount.toNat = l.allocCount.toNat + 1) : l'.Valid := by
  have hkr : IsFree (key, r) := hfree
  have hmem : ∀ e ∈ l'.regions.entries, e ∈ l.regions.entries ∨
      e = freeEntry key left ∨ e = allocEntry a ∨ e = freeEntry aEnd right := by
    intro e he
    rw [hent, List.mem_append, List.mem_append] at he
    rw [hsplit, List.mem_append, List.mem_cons]
    rcases he with he | he | he
    · exact Or.inl (Or.inl he)
    · exact Or.inr (mem_splitBlocks he)
    · exact Or.inl (Or.inr (Or.inr he))
  have hfreeLens : l.freeLengths.erase r.length = freeLens front + freeLens back := by
    rw [h.freeLengths_eq, hsplit, freeLens_append, freeLens_cons, freeLens_of_free hkr,
      add_left_comm, Multiset.singleton_add]
    exact Multiset.erase_cons_head _ _
  have hfreeNew : l'.freeLengths = freeLens l'.regions.entries := by
    rw [hidx, hfreeLens, hent, freeLens_append, freeLens_append, freeLens_splitBlocks]
    abel
  have htiles := h.tiles
  rw [hsplit] at htiles
  obtain ⟨htfront, -, htback⟩ := tiles_split.mp htiles
  simp only [startOf_mk, lengthOf_mk] at htfront htback
  have hsep := h.separated
  rw [hsplit] at hsep
  obtain ⟨hsfront, hsback, hclash⟩ := separated_split.mp hsep
  have htilesNew : Tiles startOf lengthOf 0 l'.capacity.toNat l'.regions.entries := by
    rw [hcap, hent, tiles_append]
    refine ⟨key.toNat, htfront, ?_⟩
    rw [tiles_append]
    exact ⟨freeEnd.toNat, tiles_splitBlocks hleft haEnd hpos hright,
      by rw [← hend]; exact htback⟩
  have hspansNew : spans l'.regions.entries = l'.allocationSpans := by
    have hold := h.spans_eq
    rw [hsplit, spans_append, spans_cons, spans_of_free hkr, zero_add] at hold
    rw [allocationSpans_insert hnew halloc, ← hold, hent, spans_append, spans_append,
      spans_splitBlocks]
    abel
  refine ⟨htilesNew, ?_, ?_, ?_, hspansNew, ?_, ?_, hfreeNew, ?_, ?_⟩
  · intro e he
    rcases hmem e he with he | rfl | rfl | rfl
    · exact h.keyed e he
    all_goals rfl
  · intro e he hf
    rcases hmem e he with he | rfl | rfl | rfl
    · exact h.unowned e he hf
    · rfl
    · exact (not_isFree_allocEntry a hf).elim
    · rfl
  · rw [hent]
    exact separated_splitBlocks hsfront hsback (hclash hkr).1 (hclash hkr).2
  · intro e he
    rw [halloc] at he
    rcases OrdMap.mem_insert.mp he with rfl | he
    · rfl
    · exact h.ids e he.2
  · rw [hoff, halloc, OrdMap.mapVals_insert, h.offsets_eq]
  · apply freeCapacity_eq_of_sum htilesNew hspansNew hfreeNew
    have hsum := h.free_add_allocated
    rw [allocatedLength_insert hnew halloc, hcap]
    omega
  · rw [hcount, h.allocCount_eq, halloc, OrdMap.size, OrdMap.size,
      (OrdMap.entries_insert_perm a hnew).length_eq, List.length_cons]

/-- The registry side of an insertion that fits never raises. -/
theorem registerAllocation_eq {l : ResourceLayout} {a : Allocation}
    (hnew : l.allocations.find? a.id = none) (hfree : a.length.toNat ≤ l.freeCapacity.toNat)
    (hcount : l.allocCount.toNat + 1 < 2 ^ 64) :
    ∃ l', l.registerAllocation a = .ok l' ∧ l'.capacity = l.capacity ∧
      l'.regions = l.regions ∧ l'.freeLengths = l.freeLengths ∧
      l'.allocations = l.allocations.insert a.id a ∧
      l'.allocOffsets = l.allocOffsets.insert a.id a.offset ∧
      a.length.toNat + l'.freeCapacity.toNat = l.freeCapacity.toNat ∧
      l'.allocCount.toNat = l.allocCount.toNat + 1 := by
  obtain ⟨fc, hfc, hfcEq⟩ := Quantity.exists_sub_ok hfree
  rw [← @Quantity.toNat_one .count] at hcount
  obtain ⟨n, hn, hnEq⟩ := Quantity.exists_add_ok hcount
  rw [Quantity.toNat_one] at hnEq
  refine ⟨{ l with
      allocations := l.allocations.emplace a.id a
      allocOffsets := l.allocOffsets.insert a.id a.offset
      freeCapacity := fc
      allocCount := n }, ?_, rfl, rfl, rfl, OrdMap.emplace_of_find?_eq_none a hnew, rfl,
    hfcEq, hnEq⟩
  rw [registerAllocation, hfc, ok_bind, hn, ok_bind]

/-- The spans an insertion may take: nonempty, inside the resource, under a new id and
within a free region. -/
structure Insertable (l : ResourceLayout) (a : Allocation) : Prop where
  pos : 0 < a.length.toNat
  fits : a.offset.toNat + a.length.toNat ≤ l.capacity.toNat
  new : l.allocations.find? a.id = none
  free : ∃ e ∈ l.regions.entries, IsFree e ∧ startOf e ≤ a.offset.toNat ∧
    a.offset.toNat + a.length.toNat ≤ startOf e + lengthOf e

/-- Only the region that holds the offset can hold the whole span. -/
theorem Valid.eq_of_span {l : ResourceLayout} (h : l.Valid) {front back : List (Bytes × Region)}
    {e e' : Bytes × Region} (hsplit : l.regions.entries = front ++ e :: back) {off len : ℕ}
    (hpos : 0 < len) (hlo : startOf e ≤ off) (hhi : off < startOf e + lengthOf e)
    (he' : e' ∈ l.regions.entries) (hlo' : startOf e' ≤ off)
    (hhi' : off + len ≤ startOf e' + lengthOf e') : e' = e := by
  have htiles := h.tiles
  rw [hsplit] at htiles
  obtain ⟨htfront, -, htback⟩ := tiles_split.mp htiles
  rw [hsplit] at he'
  simp only [List.mem_append, List.mem_cons] at he'
  rcases he' with he' | he' | he'
  · have := (htfront.bounds he').2.2
    omega
  · exact he'
  · have := (htback.bounds he').1
    omega

/-- The free counter covers any free region. -/
theorem Valid.length_le_freeCapacity {l : ResourceLayout} (h : l.Valid) {e : Bytes × Region}
    (he : e ∈ l.regions.entries) (hfree : IsFree e) :
    lengthOf e ≤ l.freeCapacity.toNat := by
  have hmem : e.2.length ∈ l.freeLengths := by
    rw [h.freeLengths_eq]
    refine List.mem_filterMap.mpr ⟨e, he, ?_⟩
    exact if_pos hfree
  rw [h.freeCapacity_eq]
  exact Multiset.single_le_sum (fun _ _ => Nat.zero_le _) _ (Multiset.mem_map_of_mem _ hmem)

/-- Every allocation takes at least one byte, so the counter has room for one more while
capacity is free. -/
theorem Valid.allocCount_lt {l : ResourceLayout} (h : l.Valid) (hfree : 0 < l.freeCapacity.toNat) :
    l.allocCount.toNat + 1 < 2 ^ 64 := by
  have hsize := h.size_le_allocatedLength
  have hsum := h.free_add_allocated
  have hcap := l.capacity.toNat_lt
  rw [h.allocCount_eq]
  omega

/-- An insertion into the free region that holds its whole span is granted. -/
theorem Valid.insertInto_granted {l : ResourceLayout} (h : l.Valid)
    {front back : List (Bytes × Region)} {key : Bytes} {r : Region} {a : Allocation}
    (hsplit : l.regions.entries = front ++ (key, r) :: back) (hfree : r.kind = .free)
    (hpos : 0 < a.length.toNat) (hlo : key.toNat ≤ a.offset.toNat)
    (hfit : a.offset.toNat + a.length.toNat ≤ key.toNat + r.length.toNat)
    (hnew : l.allocations.find? a.id = none) :
    ∃ l', l.insertInto key r a = .ok (l', .ok ()) ∧ l'.Valid ∧
      l'.capacity = l.capacity ∧ l'.allocations = l.allocations.insert a.id a := by
  have hmem : (key, r) ∈ l.regions.entries := by simp [hsplit]
  have hkey : r.offset = key := h.keyed (key, r) hmem
  have hcap := l.capacity.toNat_lt
  have htiles := h.tiles
  rw [hsplit] at htiles
  obtain ⟨-, -, htback⟩ := tiles_split.mp htiles
  simp only [startOf_mk, lengthOf_mk] at htback
  have htop := htback.le
  obtain ⟨freeEnd, hfe, hfeEq⟩ :=
    Quantity.exists_add_ok (a := r.offset) (b := r.length) (by rw [hkey]; omega)
  obtain ⟨aEnd, hae, haeEq⟩ :=
    Quantity.exists_add_ok (a := a.offset) (b := a.length) (by omega)
  rw [hkey] at hfeEq
  have hle : aEnd.toNat ≤ freeEnd.toNat := by omega
  obtain ⟨left, -, hleft⟩ := Quantity.exists_sub_ok (a := a.offset) (b := key) hlo
  obtain ⟨right, -, hright⟩ := Quantity.exists_sub_ok (a := freeEnd) (b := aEnd) hle
  have hbackKeys : ∀ e ∈ back, freeEnd ≤ e.1 := by
    intro e he
    have := (htback.bounds he).1
    exact Quantity.le_iff.mpr (by rw [hfeEq]; exact this)
  obtain ⟨l₁, hl₁, hent₁, hidx₁, hsame₁⟩ :=
    splitFree_eq hsplit hkey hleft haeEq.symm hpos hright hbackKeys
  have hroom := h.length_le_freeCapacity hmem hfree
  rw [lengthOf_mk] at hroom
  have hcount := h.allocCount_lt (by omega)
  rw [← hsame₁.freeCapacity] at hroom
  rw [← hsame₁.allocCount] at hcount
  have hnew₁ : l₁.allocations.find? a.id = none := by
    rw [hsame₁.allocations]
    exact hnew
  obtain ⟨l₂, hl₂, hcap₂, hent₂, hidx₂, halloc₂, hoff₂, hfc₂, hcount₂⟩ :=
    registerAllocation_eq hnew₁ (show a.length.toNat ≤ _ by omega) hcount
  have hbound : ¬ aEnd > freeEnd := Nat.not_lt.mpr hle
  refine ⟨l₂, ?_, ?_, hcap₂.trans hsame₁.capacity, ?_⟩
  · rw [insertInto, if_neg (not_not.mpr hfree), hfe, ok_bind, hae, ok_bind, if_neg hbound, hl₁,
      ok_bind, hl₂, ok_bind]
  · refine h.of_split hsplit hfree hleft haeEq.symm hpos hright hfeEq.symm hnew
      (hcap₂.trans hsame₁.capacity) ?_ (hidx₂.trans hidx₁) ?_ ?_ ?_ ?_
    · rw [hent₂, hent₁]
    · rw [halloc₂, hsame₁.allocations]
    · rw [hoff₂, hsame₁.allocOffsets]
    · rw [hfc₂, hsame₁.freeCapacity]
    · rw [hcount₂, hsame₁.allocCount]
  · rw [halloc₂, hsame₁.allocations]

/-- An insertion into a free region that ends before it is rejected. -/
theorem Valid.insertInto_exceeds {l : ResourceLayout} (h : l.Valid) {key : Bytes} {r : Region}
    {a : Allocation} (hmem : (key, r) ∈ l.regions.entries) (hfree : r.kind = .free)
    (hfits : a.offset.toNat + a.length.toNat ≤ l.capacity.toNat)
    (hover : key.toNat + r.length.toNat < a.offset.toNat + a.length.toNat) :
    l.insertInto key r a = .ok (l, .error "allocation exceeds free region") := by
  have hkey : r.offset = key := h.keyed (key, r) hmem
  have hbound := (h.tiles.bounds hmem).2.2
  simp only [startOf_mk, lengthOf_mk] at hbound
  have hcap := l.capacity.toNat_lt
  obtain ⟨freeEnd, hfe, hfeEq⟩ :=
    Quantity.exists_add_ok (a := r.offset) (b := r.length) (by rw [hkey]; omega)
  obtain ⟨aEnd, hae, haeEq⟩ :=
    Quantity.exists_add_ok (a := a.offset) (b := a.length) (by omega)
  rw [hkey] at hfeEq
  have hgt : aEnd > freeEnd := Quantity.lt_iff.mpr (by omega)
  rw [insertInto, if_neg (not_not.mpr hfree), hfe, ok_bind, hae, ok_bind, if_pos hgt]

/-- A call of `insert_allocation` on a valid layout returns: either it is rejected and
changes nothing, or the request was insertable and the result is valid with exactly one
more allocation. -/
theorem Valid.insertAllocation_cases {l : ResourceLayout} (h : l.Valid) (a : Allocation) :
    (∃ e, l.insertAllocation a = .ok (l, .error e) ∧ ¬ l.Insertable a) ∨
      ∃ l', l.insertAllocation a = .ok (l', .ok ()) ∧ l.Insertable a ∧ l'.Valid ∧
        l'.capacity = l.capacity ∧ l'.allocations = l.allocations.insert a.id a := by
  cases hgeo : l.validateGeometry a.offset a.length with
  | error e =>
      refine Or.inl ⟨e, by simp only [insertAllocation, hgeo], ?_⟩
      intro hi
      have hok := (l.validateGeometry_eq_ok_iff a.offset a.length).mpr ⟨hi.pos, hi.fits⟩
      rw [hgeo] at hok
      cases hok
  | ok u =>
      obtain ⟨hpos, hfits⟩ := (l.validateGeometry_eq_ok_iff a.offset a.length).mp hgeo
      by_cases hdup : l.allocations.contains a.id = true
      · refine Or.inl ⟨"duplicate allocation id", ?_, ?_⟩
        · simp only [insertAllocation, hgeo, hdup, if_true]
        · intro hi
          obtain ⟨b, hb⟩ := OrdMap.contains_iff.mp hdup
          rw [hi.new] at hb
          cases hb
      · have hnew : l.allocations.find? a.id = none :=
          OrdMap.not_contains_iff.mp (by simpa using hdup)
        have hoff : a.offset.toNat < l.capacity.toNat := by omega
        obtain ⟨front, key, r, back, hsplit, hreg, hkey, hlo, hhi⟩ := h.regionContaining_eq hoff
        have hrest : l.insertAllocation a = l.insertInto key r a := by
          rw [insertAllocation, hgeo]
          dsimp only
          rw [if_neg hdup, hreg, ok_bind]
        have hmem : (key, r) ∈ l.regions.entries := by simp [hsplit]
        have hsame : ∀ e ∈ l.regions.entries, startOf e ≤ a.offset.toNat →
            a.offset.toNat + a.length.toNat ≤ startOf e + lengthOf e → e = (key, r) :=
          fun e he => h.eq_of_span hsplit hpos hlo hhi he
        by_cases hfree : r.kind = .free
        · by_cases hfit : a.offset.toNat + a.length.toNat ≤ key.toNat + r.length.toNat
          · obtain ⟨l', hl', hvalid, hcap', halloc'⟩ :=
              h.insertInto_granted hsplit hfree hpos hlo hfit hnew
            exact Or.inr ⟨l', hrest.trans hl', ⟨hpos, hfits, hnew, (key, r), hmem, hfree, hlo, hfit⟩,
              hvalid, hcap', halloc'⟩
          · refine Or.inl ⟨"allocation exceeds free region", ?_, ?_⟩
            · rw [hrest, h.insertInto_exceeds hmem hfree hfits (by omega)]
            · intro hi
              obtain ⟨e, he, -, hle, hge⟩ := hi.free
              obtain rfl := hsame e he hle hge
              exact hfit hge
        · refine Or.inl ⟨"allocation overlaps an existing allocation", ?_, ?_⟩
          · rw [hrest, insertInto, if_pos hfree]
          · intro hi
            obtain ⟨e, he, hf, hle, hge⟩ := hi.free
            obtain rfl := hsame e he hle hge
            exact hfree hf

end FragmentationGovernor.ResourceLayout
