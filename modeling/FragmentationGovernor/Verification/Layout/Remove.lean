import FragmentationGovernor.Verification.Layout.Insert

/-! # Removal keeps the invariant

A removal frees one allocated region and merges it with the free regions next to it;
a metadata update touches the registry only. -/

namespace FragmentationGovernor.ResourceLayout

/-! ## Free neighbours -/

/-- At most one region, and a free one. -/
def FreeGap (gap : List (Bytes × Region)) : Prop :=
  gap = [] ∨ ∃ e, gap = [e] ∧ IsFree e

theorem FreeGap.spans_eq {gap : List (Bytes × Region)} (h : FreeGap gap) : spans gap = 0 := by
  rcases h with rfl | ⟨e, rfl, he⟩
  · rfl
  · exact spans_of_free he

/-- The regions before a block end in a free gap that no free region touches. -/
theorem exists_gap_before {front : List (Bytes × Region)} (h : Separated IsFree front) :
    ∃ front' gap, front = front' ++ gap ∧ FreeGap gap ∧ Separated IsFree front' ∧
      ∀ x ∈ front'.getLast?, ¬ IsFree x := by
  cases hlast : front.getLast? with
  | none => exact ⟨front, [], (List.append_nil _).symm, Or.inl rfl, h, by simp [hlast]⟩
  | some e =>
      by_cases he : IsFree e
      · obtain ⟨front', rfl⟩ := List.getLast?_eq_some_iff.mp hlast
        obtain ⟨hfront, -, hclash⟩ := separated_split.mp h
        exact ⟨front', [e], rfl, Or.inr ⟨e, rfl, he⟩, hfront, (hclash he).1⟩
      · refine ⟨front, [], (List.append_nil _).symm, Or.inl rfl, h, ?_⟩
        intro x hx
        rw [hlast] at hx
        cases hx
        exact he

/-- The regions after a block start with a free gap that no free region touches. -/
theorem exists_gap_after {back : List (Bytes × Region)} (h : Separated IsFree back) :
    ∃ gap back', back = gap ++ back' ∧ FreeGap gap ∧ Separated IsFree back' ∧
      ∀ y ∈ back'.head?, ¬ IsFree y := by
  cases back with
  | nil => exact ⟨[], [], rfl, Or.inl rfl, h, by simp⟩
  | cons e back' =>
      by_cases he : IsFree e
      · obtain ⟨-, hback, hclash⟩ := (@separated_split _ _ [] back' e).mp h
        exact ⟨[e], back', rfl, Or.inr ⟨e, rfl, he⟩, hback, (hclash he).2⟩
      · refine ⟨[], e :: back', rfl, Or.inl rfl, h, ?_⟩
        intro y hy
        cases hy
        exact he

/-! ## The region edits -/

/-- `mergeLeft` takes the gap before `off` out of the layout and starts where it did. -/
theorem mergeLeft_eq {l : ResourceLayout} {front gap back : List (Bytes × Region)}
    {off : Bytes} {r : Region} {rest : Multiset Bytes} {s : ℕ}
    (hent : l.regions.entries = (front ++ gap) ++ (off, r) :: back) (hgap : FreeGap gap)
    (hlast : ∀ x ∈ front.getLast?, ¬ IsFree x)
    (hkeyed : ∀ e ∈ gap, e.2.offset = e.1) (htiles : Tiles startOf lengthOf s off.toNat gap)
    (hidx : l.freeLengths = freeLens gap + rest) :
    ∃ start l', l.mergeLeft off = (start, l') ∧ start.toNat = s ∧
      l'.regions.entries = front ++ (off, r) :: back ∧ l'.freeLengths = rest ∧
      SameRegistry l l' := by
  have hfind := OrdMap.findLT?_of_split hent
  simp only at hfind
  rcases hgap with rfl | ⟨⟨key, left⟩, rfl, he⟩
  · refine ⟨off, l, ?_, htiles.symm, by simpa using hent, by simpa using hidx,
      ⟨rfl, rfl, rfl, rfl, rfl⟩⟩
    rw [List.append_nil] at hfind
    unfold mergeLeft
    rw [hfind]
    cases hx : front.getLast? with
    | none => rfl
    | some x => exact if_neg (hlast x hx)
  · have hoff : left.offset = key := hkeyed (key, left) (by simp)
    rw [List.append_assoc, List.singleton_append] at hent
    refine ⟨left.offset, { l.consumeFree left.length with regions := l.regions.erase key },
      ?_, ?_, OrdMap.entries_erase_of_split hent, ?_, ⟨rfl, rfl, rfl, rfl, rfl⟩⟩
    · unfold mergeLeft
      rw [hfind, List.getLast?_concat]
      exact if_pos he
    · rw [hoff]
      exact htiles.1
    · change l.freeLengths.erase left.length = rest
      rw [hidx, freeLens_of_free he, Multiset.singleton_add]
      exact Multiset.erase_cons_head _ _

/-- `mergeRight` takes the gap after the freed block out and stops where it did. -/
theorem mergeRight_eq {l : ResourceLayout} {front gap back : List (Bytes × Region)}
    {off stop : Bytes} {r : Region} {rest : Multiset Bytes} {e : ℕ}
    (hent : l.regions.entries = front ++ (off, r) :: (gap ++ back)) (hgap : FreeGap gap)
    (hhead : ∀ y ∈ back.head?, ¬ IsFree y)
    (hkeyed : ∀ x ∈ gap, x.2.offset = x.1) (htiles : Tiles startOf lengthOf stop.toNat e gap)
    (he : e < 2 ^ 64) (hidx : l.freeLengths = freeLens gap + rest) :
    ∃ newEnd l', l.mergeRight off stop = .ok (newEnd, l') ∧ newEnd.toNat = e ∧
      l'.regions.entries = front ++ (off, r) :: back ∧ l'.freeLengths = rest ∧
      SameRegistry l l' := by
  have hfind := OrdMap.findGT?_of_split hent
  simp only at hfind
  rcases hgap with rfl | ⟨⟨key, right⟩, rfl, hfree⟩
  · refine ⟨stop, l, ?_, htiles, by simpa using hent, by simpa using hidx,
      ⟨rfl, rfl, rfl, rfl, rfl⟩⟩
    rw [List.nil_append] at hfind
    unfold mergeRight
    rw [hfind]
    cases hy : back.head? with
    | none => rfl
    | some y => exact if_neg (hhead y hy)
  · have hoff : right.offset = key := hkeyed (key, right) (by simp)
    obtain ⟨hstart, -, hend⟩ := htiles
    simp only [startOf_mk, lengthOf_mk, tiles_nil] at hstart hend
    have hfits : right.offset.toNat + right.length.toNat < 2 ^ 64 := by
      rw [hoff]
      omega
    obtain ⟨newEnd, hadd, hnew⟩ := Quantity.exists_add_ok hfits
    have hent' : l.regions.entries = (front ++ [(off, r)]) ++ (key, right) :: back := by
      simpa using hent
    refine ⟨newEnd, { l.consumeFree right.length with regions := l.regions.erase key },
      ?_, ?_, ?_, ?_, ⟨rfl, rfl, rfl, rfl, rfl⟩⟩
    · unfold mergeRight
      rw [hfind, List.singleton_append, List.head?_cons]
      dsimp only
      rw [if_pos (isFree_mk key right |>.mp hfree), hadd, ok_bind]
      rfl
    · rw [hnew, hoff]
      omega
    · simpa using OrdMap.entries_erase_of_split hent'
    · change l.freeLengths.erase right.length = rest
      rw [hidx, freeLens_of_free hfree, Multiset.singleton_add]
      exact Multiset.erase_cons_head _ _

/-- What `mergeFreed` leaves: one free region in place of the block and the free gaps on
both sides of it. -/
theorem mergeFreed_eq {l : ResourceLayout} {front gapL gapR back : List (Bytes × Region)}
    {off len : Bytes} {r : Region} {s e : ℕ}
    (hent : l.regions.entries = (front ++ gapL) ++ (off, r) :: (gapR ++ back))
    (hgapL : FreeGap gapL) (hgapR : FreeGap gapR)
    (hlast : ∀ x ∈ front.getLast?, ¬ IsFree x) (hhead : ∀ y ∈ back.head?, ¬ IsFree y)
    (hkeyed : ∀ x ∈ l.regions.entries, x.2.offset = x.1)
    (htilesL : Tiles startOf lengthOf s off.toNat gapL)
    (htilesR : Tiles startOf lengthOf (off.toNat + len.toNat) e gapR) (he : e < 2 ^ 64)
    (hidx : l.freeLengths = freeLens gapL + (freeLens gapR + (freeLens front + freeLens back))) :
    ∃ start merged l', l.mergeFreed off len = .ok l' ∧ start.toNat = s ∧
      s + merged.toNat = e ∧ l'.regions.entries = front ++ freeEntry start merged :: back ∧
      l'.freeLengths = merged ::ₘ (freeLens front + freeLens back) ∧ SameRegistry l l' := by
  have hboundL := htilesL.le
  have hboundR := htilesR.le
  obtain ⟨stop, hstop, hstopEq⟩ :=
    Quantity.exists_add_ok (a := off) (b := len) (lt_of_le_of_lt hboundR he)
  obtain ⟨start, l₁, hl₁, hstart, hent₁, hidx₁, hreg₁⟩ := mergeLeft_eq hent hgapL hlast
    (fun x hx => hkeyed x (by simp [hent, hx])) htilesL hidx
  rw [← hstopEq] at htilesR
  obtain ⟨newEnd, l₂, hl₂, hnewEnd, hent₂, hidx₂, hreg₂⟩ := mergeRight_eq hent₁ hgapR hhead
    (fun x hx => hkeyed x (by simp [hent, hx])) htilesR he hidx₁
  obtain ⟨merged, hsub, hmerged⟩ :=
    Quantity.exists_sub_ok (a := newEnd) (b := start) (by omega)
  let l₃ : ResourceLayout := { l₂ with regions := l₂.regions.erase off }
  have hent₃ : l₃.regions.entries = front ++ back := OrdMap.entries_erase_of_split hent₂
  obtain ⟨hfront, hback⟩ := OrdMap.lt_of_split hent₁
  have hfront' : ∀ x ∈ front, x.1 < start := by
    intro x hx
    rcases hgapL with rfl | ⟨y, rfl, -⟩
    · have : start = off := Quantity.eq_iff.mpr (hstart.trans htilesL)
      rw [this]
      exact hfront x hx
    · rw [List.append_assoc, List.singleton_append] at hent
      have : start = y.1 := Quantity.eq_iff.mpr (hstart.trans htilesL.1.symm)
      rw [this]
      exact (OrdMap.lt_of_split hent).1 x hx
  have hback' : ∀ x ∈ back, start < x.1 := by
    intro x hx
    refine lt_of_le_of_lt (Quantity.le_iff.mpr ?_) (hback x (by simp [hx]))
    simp only
    omega
  refine ⟨start, merged, l₃.addFree start merged, ?_, hstart, by omega, ?_, ?_, ?_⟩
  · rw [mergeFreed, hstop, ok_bind, hl₁]
    dsimp only
    rw [hl₂, ok_bind]
    dsimp only
    rw [hsub, ok_bind]
  · exact OrdMap.entries_emplace_of_split _ hent₃ hfront' hback'
  · change merged ::ₘ l₂.freeLengths = _
    rw [hidx₂]
  · exact (hreg₁.trans hreg₂).trans ⟨rfl, rfl, rfl, rfl, rfl⟩

/-! ## The whole call -/

/-- A merge around a freed block keeps a valid layout valid once the registry follows. -/
theorem Valid.of_merge {l l' : ResourceLayout} (h : l.Valid)
    {front gapL gapR back : List (Bytes × Region)} {r : Region} {id : AllocationId}
    {a : Allocation} {start merged : Bytes} {s e : ℕ}
    (ha : l.allocations.find? id = some a)
    (hsplit : l.regions.entries = (front ++ gapL) ++ (a.offset, r) :: (gapR ++ back))
    (hblock : span? (a.offset, r) = some (some id, a.offset, a.length))
    (hgapL : FreeGap gapL) (hgapR : FreeGap gapR)
    (hsfront : Separated IsFree front) (hsback : Separated IsFree back)
    (hlast : ∀ x ∈ front.getLast?, ¬ IsFree x) (hhead : ∀ y ∈ back.head?, ¬ IsFree y)
    (htfront : Tiles startOf lengthOf 0 s front)
    (htback : Tiles startOf lengthOf e l.capacity.toNat back)
    (hstart : start.toNat = s) (hmerged : s + merged.toNat = e) (hpos : s < e)
    (hcap : l'.capacity = l.capacity)
    (hent : l'.regions.entries = front ++ freeEntry start merged :: back)
    (hidx : l'.freeLengths = merged ::ₘ (freeLens front + freeLens back))
    (halloc : l'.allocations = l.allocations.erase id)
    (hoff : l'.allocOffsets = l.allocOffsets.erase id)
    (hfc : l'.freeCapacity.toNat = l.freeCapacity.toNat + a.length.toNat)
    (hcount : 1 + l'.allocCount.toNat = l.allocCount.toNat) : l'.Valid := by
  have hfree : IsFree (freeEntry start merged) := rfl
  have hmem : ∀ x ∈ l'.regions.entries, x ∈ l.regions.entries ∨ x = freeEntry start merged := by
    intro x hx
    rw [hent] at hx
    rw [hsplit]
    simp only [List.mem_append, List.mem_cons] at hx ⊢
    tauto
  have htilesNew : Tiles startOf lengthOf 0 l'.capacity.toNat l'.regions.entries := by
    rw [hcap, hent, tiles_split]
    simp only [freeEntry, startOf_mk, lengthOf_mk]
    rw [hstart, hmerged]
    exact ⟨htfront, by omega, htback⟩
  have hfreeNew : l'.freeLengths = freeLens l'.regions.entries := by
    rw [hidx, hent, freeLens_append, freeLens_cons, freeLens_of_free hfree, add_left_comm,
      Multiset.singleton_add]
    rfl
  have hspansNew : spans l'.regions.entries = l'.allocationSpans := by
    have hold := h.spans_eq
    have hone : spans [(a.offset, r)] = {(some id, a.offset, a.length)} := by
      simp [spans, hblock]
    rw [hsplit, spans_append, spans_append, spans_cons, spans_append, hgapL.spans_eq,
      hgapR.spans_eq, hone, allocationSpans_erase ha halloc, add_zero, zero_add,
      add_left_comm] at hold
    rw [hent, spans_append, spans_cons, spans_of_free hfree, zero_add]
    exact add_left_cancel hold
  refine ⟨htilesNew, ?_, ?_, ?_, hspansNew, ?_, ?_, hfreeNew, ?_, ?_⟩
  · intro x hx
    rcases hmem x hx with hx | rfl
    · exact h.keyed x hx
    · rfl
  · intro x hx hf
    rcases hmem x hx with hx | rfl
    · exact h.unowned x hx hf
    · rfl
  · rw [hent, separated_split]
    exact ⟨hsfront, hsback, fun _ => ⟨hlast, hhead⟩⟩
  · intro x hx
    rw [halloc] at hx
    exact h.ids x (OrdMap.mem_erase.mp hx).2
  · rw [hoff, halloc, OrdMap.mapVals_erase, h.offsets_eq]
  · apply freeCapacity_eq_of_sum htilesNew hspansNew hfreeNew
    have hsum := h.free_add_allocated
    rw [allocatedLength_erase ha halloc] at hsum
    rw [hfc, hcap]
    omega
  · have hsize := (OrdMap.entries_erase_perm ha).length_eq
    have hold := h.allocCount_eq
    rw [List.length_cons] at hsize
    rw [halloc]
    simp only [OrdMap.size] at hold ⊢
    omega

/-- The registry side of a removal never raises. -/
theorem unregisterAllocation_eq {l : ResourceLayout} {id : AllocationId} {len : Bytes}
    (hfree : l.freeCapacity.toNat + len.toNat < 2 ^ 64) (hcount : 1 ≤ l.allocCount.toNat) :
    ∃ l', l.unregisterAllocation id len = .ok l' ∧ l'.capacity = l.capacity ∧
      l'.regions = l.regions ∧ l'.freeLengths = l.freeLengths ∧
      l'.allocations = l.allocations.erase id ∧ l'.allocOffsets = l.allocOffsets.erase id ∧
      l'.freeCapacity.toNat = l.freeCapacity.toNat + len.toNat ∧
      1 + l'.allocCount.toNat = l.allocCount.toNat := by
  obtain ⟨fc, hfc, hfcEq⟩ := Quantity.exists_add_ok hfree
  rw [← @Quantity.toNat_one .count] at hcount
  obtain ⟨n, hn, hnEq⟩ := Quantity.exists_sub_ok hcount
  rw [Quantity.toNat_one] at hnEq
  refine ⟨{ l with
      freeCapacity := fc
      allocCount := n
      allocations := l.allocations.erase id
      allocOffsets := l.allocOffsets.erase id }, ?_, rfl, rfl, rfl, rfl, rfl, hfcEq, hnEq⟩
  rw [unregisterAllocation, hfc, ok_bind, hn, ok_bind]

/-- What is registered is counted. -/
theorem Valid.allocCount_pos {l : ResourceLayout} (h : l.Valid) {id : AllocationId}
    {a : Allocation} (ha : l.allocations.find? id = some a) : 1 ≤ l.allocCount.toNat := by
  have hsize := (OrdMap.entries_erase_perm ha).length_eq
  rw [List.length_cons] at hsize
  rw [h.allocCount_eq, OrdMap.size]
  omega

/-- What is free and one registered allocation fit in the capacity. -/
theorem Valid.free_add_length_le {l : ResourceLayout} (h : l.Valid) {id : AllocationId}
    {a : Allocation} (ha : l.allocations.find? id = some a) :
    l.freeCapacity.toNat + a.length.toNat ≤ l.capacity.toNat := by
  have hsum := h.free_add_allocated
  have herase := allocatedLength_erase ha
    (show ({ l with allocations := l.allocations.erase id } : ResourceLayout).allocations = _
      from rfl)
  omega

/-- The region of a registered allocation, with the gaps on both of its sides. -/
theorem Valid.exists_gaps {l : ResourceLayout} (h : l.Valid) {id : AllocationId}
    {a : Allocation} (ha : l.allocations.find? id = some a) :
    ∃ front gapL r gapR back,
      l.regions.entries = (front ++ gapL) ++ (a.offset, r) :: (gapR ++ back) ∧
      r = ⟨.allocated, a.offset, a.length, some id⟩ ∧
      FreeGap gapL ∧ FreeGap gapR ∧ Separated IsFree front ∧ Separated IsFree back ∧
      (∀ x ∈ front.getLast?, ¬ IsFree x) ∧ ∀ y ∈ back.head?, ¬ IsFree y := by
  obtain ⟨front₀, r, back₀, hsplit, hr, hkind⟩ := h.exists_region ha
  have hnf : ¬ IsFree (a.offset, r) := hkind
  have hsep := h.separated
  rw [hsplit, separated_split_of_not hnf] at hsep
  obtain ⟨front, gapL, rfl, hgapL, hsfront, hlast⟩ := exists_gap_before hsep.1
  obtain ⟨gapR, back, rfl, hgapR, hsback, hhead⟩ := exists_gap_after hsep.2
  refine ⟨front, gapL, r, gapR, back, hsplit, ?_, hgapL, hgapR, hsfront, hsback, hlast, hhead⟩
  cases hk : r.kind with
  | free => exact (hkind hk).elim
  | allocated => rw [hr, hk]

/-- A removal whose region is found goes on to the edits. -/
theorem Valid.removeAllocation_eq {l : ResourceLayout} (h : l.Valid) {id : AllocationId}
    {a : Allocation} (ha : l.allocations.find? id = some a)
    (hregion : l.regions.find? a.offset = some ⟨.allocated, a.offset, a.length, some id⟩) :
    l.removeAllocation id = (do
      let l ← l.mergeFreed a.offset a.length
      let l ← l.unregisterAllocation id a.length
      .ok (l, .ok ())) := by
  have hoffset : l.allocOffsets.find? id = some a.offset := by
    rw [h.offsets_eq, OrdMap.find?_mapVals, ha]
    rfl
  have hemplace : l.allocOffsets.emplace id 0 = l.allocOffsets :=
    if_pos (OrdMap.contains_iff.mpr ⟨_, hoffset⟩)
  unfold removeAllocation
  rw [ha]
  dsimp only
  rw [hoffset, hemplace, Option.getD_some, hregion]
  dsimp only
  rw [if_neg (by simp)]

/-- A call of `remove_allocation` on a valid layout is granted exactly when the id is
registered, and the result is valid without that allocation. -/
theorem Valid.removeAllocation_of_some {l : ResourceLayout} (h : l.Valid) {id : AllocationId}
    {a : Allocation} (ha : l.allocations.find? id = some a) :
    ∃ l', l.removeAllocation id = .ok (l', .ok ()) ∧ l'.Valid ∧ l'.capacity = l.capacity ∧
      l'.allocations = l.allocations.erase id := by
  obtain ⟨front, gapL, r, gapR, back, hsplit, hr, hgapL, hgapR, hsfront, hsback, hlast, hhead⟩ :=
    h.exists_gaps ha
  have hnf : ¬ IsFree (a.offset, r) := by simp [hr]
  have hlen : r.length = a.length := by rw [hr]
  have htiles := h.tiles
  rw [hsplit] at htiles
  obtain ⟨htL, hpos, htR⟩ := tiles_split.mp htiles
  obtain ⟨s, htfront, htgapL⟩ := tiles_append.mp htL
  obtain ⟨e, htgapR, htback⟩ := tiles_append.mp htR
  simp only [startOf_mk, lengthOf_mk, hlen] at htgapL htgapR hpos
  have hcap := l.capacity.toNat_lt
  have hsL := htgapL.le
  have hsR := htgapR.le
  have hsB := htback.le
  have hidx : l.freeLengths =
      freeLens gapL + (freeLens gapR + (freeLens front + freeLens back)) := by
    rw [h.freeLengths_eq, hsplit, freeLens_append, freeLens_append, freeLens_cons,
      freeLens_of_allocated hnf, freeLens_append]
    abel
  obtain ⟨start, merged, l₁, hl₁, hstart, hmerged, hent₁, hidx₁, hreg₁⟩ :=
    mergeFreed_eq hsplit hgapL hgapR hlast hhead h.keyed htgapL htgapR (by omega) hidx
  have hroom := h.free_add_length_le ha
  have hcount := h.allocCount_pos ha
  rw [← hreg₁.freeCapacity] at hroom
  rw [← hreg₁.allocCount] at hcount
  obtain ⟨l₂, hl₂, hcap₂, hent₂, hidx₂, halloc₂, hoff₂, hfc₂, hcount₂⟩ :=
    @unregisterAllocation_eq l₁ id a.length (by omega) hcount
  refine ⟨l₂, ?_, ?_, hcap₂.trans hreg₁.capacity, ?_⟩
  · rw [h.removeAllocation_eq ha (hr ▸ OrdMap.find?_of_split hsplit), hl₁, ok_bind, hl₂, ok_bind]
  · have hblock : span? (a.offset, r) = some (some id, a.offset, a.length) := by
      rw [hr]
      rfl
    refine h.of_merge ha hsplit hblock hgapL hgapR hsfront hsback hlast hhead htfront htback
      hstart hmerged (by omega) (hcap₂.trans hreg₁.capacity) ?_ (hidx₂.trans hidx₁) ?_ ?_ ?_ ?_
    · rw [hent₂, hent₁]
    · rw [halloc₂, hreg₁.allocations]
    · rw [hoff₂, hreg₁.allocOffsets]
    · rw [hfc₂, hreg₁.freeCapacity]
    · rw [hcount₂, hreg₁.allocCount]
  · rw [halloc₂, hreg₁.allocations]

theorem removeAllocation_of_none {l : ResourceLayout} {id : AllocationId}
    (h : l.allocations.find? id = none) :
    l.removeAllocation id = .ok (l, .error "allocation not found") := by
  rw [removeAllocation, h]

/-! ## Metadata updates -/

theorem updateAllocation_capacity (l : ResourceLayout) (a : Allocation) :
    (l.updateAllocation a).1.capacity = l.capacity := by
  unfold ResourceLayout.updateAllocation
  split
  · rfl
  · split <;> rfl

/-- A metadata update keeps a valid layout valid, whether it is granted or not. -/
theorem Valid.updateAllocation {l : ResourceLayout} (h : l.Valid) (a : Allocation) :
    (l.updateAllocation a).1.Valid := by
  unfold ResourceLayout.updateAllocation
  cases hold : l.allocations.find? a.id with
  | none => exact h
  | some old =>
      by_cases hgeo : old.offset ≠ a.offset ∨ old.length ≠ a.length
      · dsimp only
        rw [if_pos hgeo]
        exact h
      · dsimp only
        rw [if_neg hgeo]
        simp only [not_or, not_not] at hgeo
        -- replacing the stored entry changes neither the spans nor their number
        obtain ⟨front, back, hent⟩ := OrdMap.split_of_find? hold
        have hins := OrdMap.entries_insert_of_mem a hent
        have hmap : ∀ {β : Type} (f : AllocationId × Allocation → β),
            f (a.id, a) = f (a.id, old) →
              (l.allocations.insert a.id a).entries.map f = l.allocations.entries.map f := by
          intro β f hf
          rw [hins, hent, List.map_append, List.map_append, List.map_cons, List.map_cons, hf]
        have hspans : (({ l with
            allocations := l.allocations.insert a.id a
            allocOffsets := l.allocOffsets.insert a.id a.offset } :
              ResourceLayout)).allocationSpans = l.allocationSpans := by
          have hspan := hmap (fun e => (some e.1, e.2.offset, e.2.length))
            (by rw [hgeo.1, hgeo.2])
          exact congrArg Multiset.ofList hspan
        refine ⟨h.tiles, h.keyed, h.unowned, h.separated, h.spans_eq.trans hspans.symm, ?_, ?_,
          h.freeLengths_eq, h.freeCapacity_eq, ?_⟩
        · intro e he
          rcases OrdMap.mem_insert.mp he with rfl | he
          · rfl
          · exact h.ids e he.2
        · dsimp only
          rw [OrdMap.mapVals_insert, h.offsets_eq]
        · rw [h.allocCount_eq]
          simp only [OrdMap.size]
          rw [hins, hent]
          simp

end FragmentationGovernor.ResourceLayout
