import FragmentationGovernor.Verification.Layout.Correctness

/-! # Layouts as registries of spans

What a layout is for: it registers disjoint spans within its capacity. Which calls are granted
depends on the registered allocations alone, the largest free block says which lengths still
fit, and the rest of a layout is determined by its allocations. -/

namespace FragmentationGovernor.ResourceLayout

/-! ## Registries -/

/-- The spans have no byte in common. -/
def Apart (a b : Allocation) : Prop :=
  a.offset.toNat + a.length.toNat ≤ b.offset.toNat ∨
    b.offset.toNat + b.length.toNat ≤ a.offset.toNat

/-- The calls a registry of this capacity grants. -/
def Grants (capacity : Bytes) (m : OrdMap AllocationId Allocation) : Call → Prop
  | .insert a =>
      0 < a.length.toNat ∧ a.offset.toNat + a.length.toNat ≤ capacity.toNat ∧
        m.find? a.id = none ∧ ∀ id b, m.find? id = some b → Apart a b
  | .update a => ∃ old, m.find? a.id = some old ∧ old.offset = a.offset ∧ old.length = a.length
  | .remove id => ∃ a, m.find? id = some a

/-- The registry after a call that is granted: one entry is added, replaced or gone. -/
def granted (m : OrdMap AllocationId Allocation) : Call → OrdMap AllocationId Allocation
  | .insert a => m.insert a.id a
  | .update a => m.insert a.id a
  | .remove id => m.erase id

/-- The call as the layout answers it. -/
def answer (l : ResourceLayout) : Call → Except ValueError (ResourceLayout × LayoutReply)
  | .insert a => l.insertAllocation a
  | .update a => .ok (l.updateAllocation a)
  | .remove id => l.removeAllocation id

theorem call_eq_answer (l : ResourceLayout) (c : Call) :
    l.call c = (l.answer c >>= fun x => .ok x.1) := by
  cases c with
  | insert a => rfl
  | update a => rfl
  | remove id => rfl

/-! ## Regions and registered spans -/

/-- The allocated regions are those of the registered allocations. -/
theorem Valid.mem_regions_iff {l : ResourceLayout} (h : l.Valid) {e : Bytes × Region}
    (he : ¬ IsFree e) :
    e ∈ l.regions.entries ↔ ∃ id a, l.allocations.find? id = some a ∧ e = allocEntry a := by
  constructor
  · intro hmem
    have hspan : (e.2.allocId, e.2.offset, e.2.length) ∈ l.allocationSpans := by
      rw [← h.spans_eq]
      exact List.mem_filterMap.mpr ⟨e, hmem, if_neg he⟩
    obtain ⟨⟨id, a⟩, ha, heq⟩ := List.mem_map.mp hspan
    simp only [Prod.mk.injEq] at heq
    obtain ⟨hid, hoff, hlen⟩ := heq
    refine ⟨id, a, OrdMap.find?_eq_some_iff.mpr ha, ?_⟩
    have hkey := h.keyed e hmem
    have hself : a.id = id := h.ids (id, a) ha
    obtain ⟨key, kind, offset, length, owner⟩ := e
    cases kind with
    | free => exact (he rfl).elim
    | allocated =>
        dsimp only at hid hoff hlen hkey
        rw [allocEntry, hself, hid, hoff, hlen, hkey]
  · rintro ⟨id, a, ha, rfl⟩
    obtain ⟨front, gapL, r, gapR, back, hsplit, hr, -⟩ := h.exists_gaps ha
    have hself : a.id = id := h.ids (id, a) (OrdMap.find?_eq_some_iff.mp ha)
    rw [hsplit, hr, allocEntry, hself]
    simp

/-- A span within the capacity lies in a free region exactly when it is apart from all
registered ones. -/
theorem Valid.exists_free_iff {l : ResourceLayout} (h : l.Valid) {off len : ℕ} (hpos : 0 < len)
    (hfits : off + len ≤ l.capacity.toNat) :
    (∃ e ∈ l.regions.entries, IsFree e ∧ startOf e ≤ off ∧ off + len ≤ startOf e + lengthOf e) ↔
      ∀ id b, l.allocations.find? id = some b →
        off + len ≤ b.offset.toNat ∨ b.offset.toNat + b.length.toNat ≤ off := by
  constructor
  · rintro ⟨e, he, hfree, hlo, hhi⟩ id b hb
    have hnf : ¬ IsFree (allocEntry b) := by simp [allocEntry]
    have hmem := (h.mem_regions_iff hnf).mpr ⟨id, b, hb, rfl⟩
    have hne : e ≠ allocEntry b := by
      rintro rfl
      exact hnf hfree
    have hapart := h.tiles.apart he hmem hne
    simp only [allocEntry, startOf_mk, lengthOf_mk] at hapart
    omega
  · intro hapart
    obtain ⟨front, e, back, hsplit, hlo, hhi⟩ :=
      h.tiles.exists_block (Nat.zero_le _) (show off < l.capacity.toNat by omega)
    have hmem : e ∈ l.regions.entries := by simp [hsplit]
    have hclash : ∀ x ∈ l.regions.entries, ¬ IsFree x →
        off + len ≤ startOf x ∨ startOf x + lengthOf x ≤ off := by
      intro x hx hnf
      obtain ⟨id, b, hb, rfl⟩ := (h.mem_regions_iff hnf).mp hx
      exact hapart id b hb
    have hfree : IsFree e := by
      by_contra hnf
      have := hclash e hmem hnf
      omega
    refine ⟨e, hmem, hfree, hlo, ?_⟩
    by_contra hlong
    -- what follows a free region is allocated, and begins inside the span
    have htiles := h.tiles
    have hsep := h.separated
    rw [hsplit] at htiles hsep
    obtain ⟨-, -, hback⟩ := tiles_split.mp htiles
    cases back with
    | nil =>
        simp only [tiles_nil] at hback
        omega
    | cons z zs =>
        have hz : ¬ IsFree z := ((separated_split.mp hsep).2.2 hfree).2 z rfl
        have hstart := hback.1
        have hpast := hclash z (by simp [hsplit]) hz
        omega

theorem Valid.insertable_iff {l : ResourceLayout} (h : l.Valid) (a : Allocation) :
    l.Insertable a ↔ Grants l.capacity l.allocations (.insert a) := by
  constructor
  · intro hi
    exact ⟨hi.pos, hi.fits, hi.new, (h.exists_free_iff hi.pos hi.fits).mp hi.free⟩
  · rintro ⟨hpos, hfits, hnew, hapart⟩
    exact ⟨hpos, hfits, hnew, (h.exists_free_iff hpos hfits).mpr hapart⟩

/-! ## What a layout answers -/

/-- A valid layout grants exactly what its registry grants; otherwise it stays as it is. -/
theorem Valid.answer_cases {l : ResourceLayout} (h : l.Valid) (c : Call) :
    (Grants l.capacity l.allocations c ∧ ∃ l', l.answer c = .ok (l', .ok ()) ∧ l'.Valid ∧
        l'.capacity = l.capacity ∧ l'.allocations = granted l.allocations c) ∨
      (¬ Grants l.capacity l.allocations c ∧ ∃ e, l.answer c = .ok (l, .error e)) := by
  cases c with
  | insert a =>
      rcases h.insertAllocation_cases a with ⟨e, heq, hnot⟩ | ⟨l', heq, hi, hvalid, hcap, halloc⟩
      · rw [h.insertable_iff] at hnot
        exact Or.inr ⟨hnot, e, heq⟩
      · exact Or.inl ⟨(h.insertable_iff a).mp hi, l', heq, hvalid, hcap, halloc⟩
  | update a =>
      have hvalid := h.updateAllocation a
      have hcap := updateAllocation_capacity l a
      simp only [answer, Grants, granted]
      unfold ResourceLayout.updateAllocation at hvalid hcap ⊢
      cases hold : l.allocations.find? a.id with
      | none =>
          refine Or.inr ⟨?_, _, rfl⟩
          rintro ⟨old, ⟨⟩, -⟩
      | some old =>
          rw [hold] at hvalid hcap
          dsimp only at hvalid hcap ⊢
          by_cases hgeo : old.offset ≠ a.offset ∨ old.length ≠ a.length
          · rw [if_pos hgeo]
            refine Or.inr ⟨?_, _, rfl⟩
            rintro ⟨old', hold', hoff, hlen⟩
            cases hold'
            exact hgeo.elim (fun hne => hne hoff) (fun hne => hne hlen)
          · rw [if_neg hgeo] at hvalid hcap ⊢
            simp only [not_or, not_not] at hgeo
            exact Or.inl ⟨⟨old, rfl, hgeo.1, hgeo.2⟩, _, rfl, hvalid, hcap, rfl⟩
  | remove id =>
      cases ha : l.allocations.find? id with
      | none =>
          refine Or.inr ⟨?_, _, removeAllocation_of_none ha⟩
          rintro ⟨a, ha'⟩
          rw [ha] at ha'
          cases ha'
      | some a =>
          obtain ⟨l', heq, hvalid, hcap, halloc⟩ := h.removeAllocation_of_some ha
          exact Or.inl ⟨⟨a, ha⟩, l', heq, hvalid, hcap, halloc⟩

/-- On a layout a program can hold, a call succeeds exactly when the registry grants it; then
the registry changes by its entry alone, and a call that does not succeed changes nothing. A
removal never finds the layout inconsistent. -/
theorem call_granted_iff {l : ResourceLayout} (h : l.Reachable) (c : Call) :
    ((∃ l', l.answer c = .ok (l', .ok ())) ↔ Grants l.capacity l.allocations c) ∧
      (∀ l', l.answer c = .ok (l', .ok ()) → l'.allocations = granted l.allocations c) ∧
      (¬ Grants l.capacity l.allocations c → ∃ e, l.answer c = .ok (l, .error e)) ∧
      ∀ id l', l.removeAllocation id ≠
        .ok (l', .error "layout inconsistent with allocation registry") := by
  have hremove : ∀ id l', l.removeAllocation id ≠
      .ok (l', .error "layout inconsistent with allocation registry") := by
    intro id l' heq
    cases ha : l.allocations.find? id with
    | none =>
        rw [removeAllocation_of_none ha] at heq
        simp at heq
    | some a =>
        obtain ⟨l₁, hok, -⟩ := h.valid.removeAllocation_of_some ha
        rw [hok] at heq
        cases heq
  rcases h.valid.answer_cases c with ⟨hgrant, l', heq, -, -, halloc⟩ | ⟨hnot, e, heq⟩
  · refine ⟨⟨fun _ => hgrant, fun _ => ⟨l', heq⟩⟩, ?_, fun hnot => (hnot hgrant).elim, hremove⟩
    intro l₁ heq₁
    rw [heq] at heq₁
    cases heq₁
    exact halloc
  · refine ⟨⟨?_, fun hgrant => (hnot hgrant).elim⟩, ?_, fun _ => ⟨e, heq⟩, hremove⟩
    · rintro ⟨l', heq'⟩
      rw [heq] at heq'
      cases heq'
    · intro l' heq'
      rw [heq] at heq'
      cases heq'

/-- Two allocations of a resource of 20 bytes, with gaps of 2, 5 and 6 bytes around them. -/
def gappedCalls : List Call :=
  [.insert { id := ⟨1⟩, offset := ⟨2⟩, length := ⟨3⟩ },
    .insert { id := ⟨2⟩, offset := ⟨10⟩, length := ⟨4⟩ }]

def gapped : ResourceLayout :=
  match (ofCapacity ⟨20⟩).calls gappedCalls with
  | .ok l => l
  | .error _ => ofCapacity ⟨20⟩

theorem reachable_gapped : gapped.Reachable := ⟨⟨20⟩, gappedCalls, rfl⟩

/-- The gap between them takes 5 bytes and not 6, and what is refused changes nothing. -/
theorem call_granted_iff_gapped :
    (∃ l', gapped.answer (.insert { id := ⟨3⟩, offset := ⟨5⟩, length := ⟨5⟩ }) =
        .ok (l', .ok ())) ∧
      ∃ e, gapped.answer (.insert { id := ⟨3⟩, offset := ⟨5⟩, length := ⟨6⟩ }) =
        .ok (gapped, .error e) := by
  constructor
  · refine (call_granted_iff reachable_gapped _).1.mpr ⟨by decide, by decide, rfl, ?_⟩
    intro id b hb
    have hmem : (id, b) ∈ gapped.allocations.entries := OrdMap.find?_eq_some_iff.mp hb
    have hentries : gapped.allocations.entries.all (fun x => decide
        (5 + 5 ≤ x.2.offset.toNat ∨ x.2.offset.toNat + x.2.length.toNat ≤ 5)) = true := by decide
    have hapart := List.all_eq_true.mp hentries (id, b) hmem
    rw [decide_eq_true_eq] at hapart
    exact hapart
  · refine (call_granted_iff reachable_gapped _).2.2.1 ?_
    rintro ⟨-, -, -, hapart⟩
    have hclash := hapart ⟨2⟩ { id := ⟨2⟩, offset := ⟨10⟩, length := ⟨4⟩ } rfl
    exact absurd hclash (by unfold Apart; decide)

/-! ## The largest free block -/

theorem le_fold_max_iff {s : Multiset Bytes} {x : Bytes} (hx : 0 < x.toNat) :
    x ≤ s.fold max 0 ↔ ∃ y ∈ s, x ≤ y := by
  induction s using Multiset.induction with
  | empty =>
      rw [Multiset.fold_zero, Quantity.le_iff, Quantity.toNat_zero]
      simp only [Multiset.notMem_zero, false_and, exists_false, iff_false]
      omega
  | cons a s ih =>
      rw [Multiset.fold_cons_left, le_max_iff, ih]
      simp only [Multiset.mem_cons, exists_eq_or_imp]

theorem card_le_sum {s : Multiset Bytes} (h : ∀ x ∈ s, 0 < x.toNat) :
    Multiset.card s ≤ (s.map Quantity.toNat).sum := by
  have hone : ∀ n ∈ s.map Quantity.toNat, 1 ≤ n := by
    intro n hn
    obtain ⟨x, hx, rfl⟩ := Multiset.mem_map.mp hn
    exact h x hx
  simpa using Multiset.card_nsmul_le_sum hone

theorem fold_max_le_sum (s : Multiset Bytes) :
    (s.fold max 0).toNat ≤ (s.map Quantity.toNat).sum := by
  induction s using Multiset.induction with
  | empty => simp
  | cons a s ih =>
      rw [Multiset.fold_cons_left, Multiset.map_cons, Multiset.sum_cons]
      rcases max_choice a (s.fold max 0) with hmax | hmax
      · rw [hmax]
        omega
      · rw [hmax]
        omega

/-- The largest of several positive lengths is less than all together. -/
theorem fold_max_lt_sum_iff {s : Multiset Bytes} (h : ∀ x ∈ s, 0 < x.toNat) :
    (s.fold max 0).toNat < (s.map Quantity.toNat).sum ↔ 1 < Multiset.card s := by
  induction s using Multiset.induction with
  | empty => simp
  | cons a s _ =>
      have ha := h a (by simp)
      have hcard := card_le_sum (fun x hx => h x (Multiset.mem_cons_of_mem hx))
      have hmax := fold_max_le_sum s
      rw [Multiset.fold_cons_left, Multiset.map_cons, Multiset.sum_cons, Multiset.card_cons]
      constructor
      · intro hlt
        by_contra hone
        have hempty : s = 0 := Multiset.card_eq_zero.mp (by omega)
        have hle := Quantity.le_iff.mp (le_max_left a 0)
        rw [hempty, Multiset.fold_zero, Multiset.map_zero, Multiset.sum_zero] at hlt
        omega
      · intro hone
        rcases max_choice a (s.fold max 0) with heq | heq
        · rw [heq]
          omega
        · rw [heq]
          omega

/-- The largest free block is at least as long as a span exactly when a free region is. -/
theorem Valid.le_largestFreeBlock_iff {l : ResourceLayout} (h : l.Valid) {len : Bytes}
    (hpos : 0 < len.toNat) :
    len ≤ l.largestFreeBlock ↔ ∃ e ∈ l.regions.entries, IsFree e ∧ len.toNat ≤ lengthOf e := by
  rw [largestFreeBlock, le_fold_max_iff hpos, h.freeLengths_eq]
  constructor
  · rintro ⟨y, hy, hle⟩
    obtain ⟨e, he, hlen⟩ := List.mem_filterMap.mp hy
    unfold freeLength? at hlen
    split_ifs at hlen with hfree
    cases hlen
    exact ⟨e, he, hfree, Quantity.le_iff.mp hle⟩
  · rintro ⟨e, he, hfree, hle⟩
    refine ⟨e.2.length, List.mem_filterMap.mpr ⟨e, he, if_pos hfree⟩, Quantity.le_iff.mpr hle⟩

/-- The largest free block holds `len` bytes exactly when the registered allocations leave a
span of that length. -/
theorem Valid.le_toNat_largestFreeBlock_iff {l : ResourceLayout} (h : l.Valid) (len : ℕ) :
    len ≤ l.largestFreeBlock.toNat ↔
      ∃ off, off + len ≤ l.capacity.toNat ∧ ∀ id b, l.allocations.find? id = some b →
        off + len ≤ b.offset.toNat ∨ b.offset.toNat + b.length.toNat ≤ off := by
  rcases Nat.eq_zero_or_pos len with rfl | hpos
  · refine iff_of_true (Nat.zero_le _) ⟨0, Nat.zero_le _, ?_⟩
    intro id b _
    exact Or.inl (Nat.zero_le _)
  constructor
  · intro hle
    obtain ⟨e, he, hfree, hlen⟩ :=
      (h.le_largestFreeBlock_iff (show 0 < l.largestFreeBlock.toNat by omega)).mp (le_refl _)
    have hbound := (h.tiles.bounds he).2.2
    have hfits : startOf e + len ≤ l.capacity.toNat := by omega
    exact ⟨startOf e, hfits,
      (h.exists_free_iff hpos hfits).mp ⟨e, he, hfree, le_refl _, by omega⟩⟩
  · rintro ⟨off, hfits, hapart⟩
    obtain ⟨e, he, hfree, hlo, hhi⟩ := (h.exists_free_iff hpos hfits).mpr hapart
    have hlen : len ≤ lengthOf e := by omega
    have hblock : e.2.length ≤ l.largestFreeBlock :=
      (h.le_largestFreeBlock_iff (hpos.trans_le hlen)).mpr ⟨e, he, hfree, le_refl _⟩
    exact hlen.trans (Quantity.le_iff.mp hblock)

/-- A span of some length is granted at some offset exactly when the largest free block holds
it. -/
theorem Valid.exists_grants_iff {l : ResourceLayout} (h : l.Valid) {a : Allocation}
    (hpos : 0 < a.length.toNat) (hnew : l.allocations.find? a.id = none) :
    (∃ off, Grants l.capacity l.allocations (.insert { a with offset := off })) ↔
      a.length ≤ l.largestFreeBlock := by
  rw [h.le_largestFreeBlock_iff hpos]
  constructor
  · rintro ⟨off, hgrant⟩
    obtain ⟨e, he, hfree, hlo, hhi⟩ := ((h.insertable_iff _).mpr hgrant).free
    dsimp only at hlo hhi
    exact ⟨e, he, hfree, by omega⟩
  · rintro ⟨e, he, hfree, hle⟩
    refine ⟨e.1, (h.insertable_iff _).mp ⟨hpos, ?_, hnew, e, he, hfree, le_refl _, ?_⟩⟩
    · have hbound := (h.tiles.bounds he).2.2
      unfold startOf at hbound
      dsimp only
      omega
    · unfold startOf
      dsimp only
      omega

/-- A new allocation can be placed exactly when it is no longer than the largest free block. -/
theorem placeable_iff_le_largestFreeBlock {l : ResourceLayout} (h : l.Reachable) (a : Allocation)
    (hpos : 0 < a.length.toNat) (hnew : l.allocations.find? a.id = none) :
    (∃ off l', l.insertAllocation { a with offset := off } = .ok (l', .ok ())) ↔
      a.length ≤ l.largestFreeBlock := by
  rw [← h.valid.exists_grants_iff hpos hnew]
  apply exists_congr
  intro off
  rcases h.valid.answer_cases (.insert { a with offset := off }) with
    ⟨hgrant, l', heq, -⟩ | ⟨hnot, e, heq⟩
  · exact iff_of_true ⟨l', heq⟩ hgrant
  · refine iff_of_false ?_ hnot
    rintro ⟨l', hok⟩
    rw [answer, hok] at heq
    cases heq

/-- With gaps of 2, 5 and 6 bytes, 6 can be placed and 7 cannot. -/
theorem placeable_iff_le_largestFreeBlock_gapped :
    (∃ off l', gapped.insertAllocation { id := ⟨3⟩, length := ⟨6⟩, offset := off } =
        .ok (l', .ok ())) ∧
      ¬ ∃ off l', gapped.insertAllocation { id := ⟨3⟩, length := ⟨7⟩, offset := off } =
        .ok (l', .ok ()) := by
  have hlargest : gapped.largestFreeBlock = ⟨6⟩ := by decide
  constructor
  · refine (placeable_iff_le_largestFreeBlock reachable_gapped { id := ⟨3⟩, length := ⟨6⟩ }
      (by decide) rfl).mpr ?_
    rw [hlargest]
  · rw [placeable_iff_le_largestFreeBlock reachable_gapped { id := ⟨3⟩, length := ⟨7⟩ }
      (by decide) rfl, hlargest]
    decide

/-- A layout of the same capacity that holds no more allocations has a block at least as
large. -/
theorem Valid.largestFreeBlock_le {l l' : ResourceLayout} (h : l.Valid) (h' : l'.Valid)
    (hcap : l'.capacity = l.capacity)
    (hsub : ∀ id a, l'.allocations.find? id = some a → l.allocations.find? id = some a) :
    l.largestFreeBlock ≤ l'.largestFreeBlock := by
  obtain ⟨off, hfits, hapart⟩ := (h.le_toNat_largestFreeBlock_iff _).mp (le_refl _)
  rw [Quantity.le_iff, h'.le_toNat_largestFreeBlock_iff, hcap]
  exact ⟨off, hfits, fun id b hb => hapart id b (hsub id b hb)⟩

/-! ## Canonical layouts -/

/-- A valid layout is determined by its capacity and its registry. -/
theorem Valid.eq_of_allocations {l l' : ResourceLayout} (h : l.Valid) (h' : l'.Valid)
    (hcap : l.capacity = l'.capacity) (halloc : l.allocations = l'.allocations) : l = l' := by
  have hent : l.regions.entries = l'.regions.entries := by
    have htiles := h'.tiles
    rw [← hcap] at htiles
    refine h.tiles.eq_of_separated htiles h.separated h'.separated ?_ ?_
    · intro e he
      rw [h.mem_regions_iff he, h'.mem_regions_iff he, halloc]
    · intro e he e' he' hfree hfree' hstart hlen
      have hk := h.keyed e he
      have hk' := h'.keyed e' he'
      have hu := h.unowned e he hfree
      have hu' := h'.unowned e' he' hfree'
      obtain ⟨key, kind, offset, length, owner⟩ := e
      obtain ⟨key', kind', offset', length', owner'⟩ := e'
      dsimp only at hk hk' hu hu'
      have hkey : key = key' := Quantity.eq_iff.mpr hstart
      have hlength : length = length' := Quantity.eq_iff.mpr hlen
      rw [show kind = .free from hfree, show kind' = .free from hfree', hk, hk', hu, hu', hkey,
        hlength]
  have hregions : l.regions = l'.regions := by
    apply OrdMap.ext_find?
    intro k
    rw [OrdMap.find?, hent, OrdMap.find?]
  have hlens : l.freeLengths = l'.freeLengths := by
    rw [h.freeLengths_eq, h'.freeLengths_eq, hent]
  have hoffsets : l.allocOffsets = l'.allocOffsets := by
    rw [h.offsets_eq, h'.offsets_eq, halloc]
  have hfree : l.freeCapacity = l'.freeCapacity := by
    rw [Quantity.eq_iff, h.freeCapacity_eq, h'.freeCapacity_eq, hlens]
  have hcount : l.allocCount = l'.allocCount := by
    rw [Quantity.eq_iff, h.allocCount_eq, h'.allocCount_eq, halloc]
  cases l
  cases l'
  dsimp only at hcap hregions hlens hoffsets halloc hfree hcount
  rw [hcap, hregions, hlens, hoffsets, halloc, hfree, hcount]

/-! ## Independent calls -/

/-- The registry after a call, granted or not. -/
noncomputable def registered (capacity : Bytes) (m : OrdMap AllocationId Allocation) (c : Call) :
    OrdMap AllocationId Allocation :=
  open Classical in if Grants capacity m c then granted m c else m

/-- Insertions and removals of different ids that do not compete for the same bytes. -/
def Independent (m : OrdMap AllocationId Allocation) : Call → Call → Prop
  | .insert a, .insert b => a.id ≠ b.id ∧ Apart a b
  | .insert a, .remove id => a.id ≠ id ∧ ∀ b, m.find? id = some b → Apart a b
  | .remove id, .insert a => a.id ≠ id ∧ ∀ b, m.find? id = some b → Apart a b
  | .remove id, .remove id' => id ≠ id'
  | _, _ => False

/-- A valid layout does what its registry does. -/
theorem Valid.call_registered {l : ResourceLayout} (h : l.Valid) (c : Call) :
    ∃ l', l.call c = .ok l' ∧ l'.Valid ∧ l'.capacity = l.capacity ∧
      l'.allocations = registered l.capacity l.allocations c := by
  rw [call_eq_answer, registered]
  rcases h.answer_cases c with ⟨hgrant, l', heq, hvalid, hcap, halloc⟩ | ⟨hnot, e, heq⟩
  · rw [heq, if_pos hgrant]
    exact ⟨l', rfl, hvalid, hcap, halloc⟩
  · rw [heq, if_neg hnot]
    exact ⟨l, rfl, h, rfl, rfl⟩

section Independent

variable {capacity : Bytes} {m : OrdMap AllocationId Allocation} {c c' : Call}

theorem Apart.symm {a b : Allocation} (h : Apart a b) : Apart b a := Or.symm h

theorem Independent.symm (h : Independent m c c') : Independent m c' c := by
  cases c with
  | insert a =>
      cases c' with
      | insert b => exact ⟨h.1.symm, h.2.symm⟩
      | update b => exact h
      | remove id => exact h
  | update a => exact h.elim
  | remove id =>
      cases c' with
      | insert b => exact h
      | update b => exact h
      | remove id' => exact Ne.symm h

theorem forall_apart_insert {a b : Allocation} (hnew : m.find? a.id = none) (h : Apart b a) :
    (∀ id x, (m.insert a.id a).find? id = some x → Apart b x) ↔
      ∀ id x, m.find? id = some x → Apart b x := by
  constructor
  · intro hall id x hx
    have hne : id ≠ a.id := by
      rintro rfl
      rw [hnew] at hx
      cases hx
    exact hall id x (by rw [OrdMap.find?_insert_of_ne _ _ hne, hx])
  · intro hall id x hx
    rw [OrdMap.find?_insert] at hx
    split_ifs at hx with hid
    · cases hx
      exact h
    · exact hall id x hx

theorem forall_apart_erase {b : Allocation} {id : AllocationId}
    (h : ∀ a, m.find? id = some a → Apart b a) :
    (∀ id' x, (m.erase id).find? id' = some x → Apart b x) ↔
      ∀ id' x, m.find? id' = some x → Apart b x := by
  constructor
  · intro hall id' x hx
    by_cases hid : id' = id
    · exact h x (hid ▸ hx)
    · exact hall id' x (by rw [OrdMap.find?_erase, if_neg hid, hx])
  · intro hall id' x hx
    rw [OrdMap.find?_erase] at hx
    split_ifs at hx
    exact hall id' x hx

/-- A call that is granted leaves what is granted of an independent one as it was. -/
theorem Independent.grants_granted_iff (h : Independent m c c') (hc : Grants capacity m c) :
    Grants capacity (granted m c) c' ↔ Grants capacity m c' := by
  cases c with
  | insert a =>
      obtain ⟨-, -, hnew, -⟩ := hc
      cases c' with
      | insert b =>
          simp only [Grants, granted]
          rw [OrdMap.find?_insert_of_ne _ _ (Ne.symm h.1), forall_apart_insert hnew h.2.symm]
      | update b => exact h.elim
      | remove id =>
          simp only [Grants, granted]
          rw [OrdMap.find?_insert_of_ne _ _ (Ne.symm h.1)]
  | update a => exact h.elim
  | remove id =>
      cases c' with
      | insert b =>
          simp only [Grants, granted]
          rw [OrdMap.find?_erase, if_neg h.1, forall_apart_erase h.2]
      | update b => exact h.elim
      | remove id' =>
          simp only [Grants, granted]
          rw [OrdMap.find?_erase, if_neg (Ne.symm h)]

theorem Independent.grants_iff (h : Independent m c c') :
    Grants capacity (registered capacity m c) c' ↔ Grants capacity m c' := by
  by_cases hc : Grants capacity m c
  · rw [registered, if_pos hc]
    exact h.grants_granted_iff hc
  · rw [registered, if_neg hc]

theorem Independent.granted_comm (h : Independent m c c') :
    granted (granted m c) c' = granted (granted m c') c := by
  apply OrdMap.ext_find?
  intro k
  cases c with
  | insert a =>
      cases c' with
      | insert b =>
          simp only [granted, OrdMap.find?_insert]
          split_ifs with hb ha
          · exact (h.1 (ha.symm.trans hb)).elim
          · rfl
          · rfl
          · rfl
      | update b => exact h.elim
      | remove id =>
          simp only [granted, OrdMap.find?_insert, OrdMap.find?_erase]
          split_ifs with hid ha
          · exact (h.1 (ha.symm.trans hid)).elim
          · rfl
          · rfl
          · rfl
  | update a => exact h.elim
  | remove id =>
      cases c' with
      | insert b =>
          simp only [granted, OrdMap.find?_insert, OrdMap.find?_erase]
          split_ifs with hb hid
          · exact (h.1 (hb.symm.trans hid)).elim
          · rfl
          · rfl
          · rfl
      | update b => exact h.elim
      | remove id' =>
          simp only [granted, OrdMap.find?_erase]
          split_ifs <;> rfl

/-- Independent calls lead to the same registry in either order. -/
theorem Independent.registered_comm (h : Independent m c c') :
    registered capacity (registered capacity m c) c' =
      registered capacity (registered capacity m c') c := by
  rw [registered, h.grants_iff]
  conv_rhs => rw [registered, h.symm.grants_iff]
  by_cases hc : Grants capacity m c
  · by_cases hc' : Grants capacity m c'
    · rw [if_pos hc', if_pos hc, registered, if_pos hc, registered, if_pos hc']
      exact h.granted_comm
    · rw [if_neg hc', if_pos hc, registered, if_pos hc, registered, if_neg hc']
  · by_cases hc' : Grants capacity m c'
    · rw [if_pos hc', if_neg hc, registered, if_neg hc, registered, if_pos hc']
    · rw [if_neg hc', if_neg hc, registered, if_neg hc, registered, if_neg hc']

end Independent

theorem Valid.calls_comm {l : ResourceLayout} (h : l.Valid) {c c' : Call}
    (hind : Independent l.allocations c c') : l.calls [c, c'] = l.calls [c', c] := by
  have hrun : ∀ c c', ∃ l', l.calls [c, c'] = .ok l' ∧ l'.Valid ∧ l'.capacity = l.capacity ∧
      l'.allocations =
        registered l.capacity (registered l.capacity l.allocations c) c' := by
    intro c c'
    obtain ⟨l₁, hl₁, hvalid₁, hcap₁, halloc₁⟩ := h.call_registered c
    obtain ⟨l₂, hl₂, hvalid₂, hcap₂, halloc₂⟩ := hvalid₁.call_registered c'
    rw [hcap₁, halloc₁] at halloc₂
    refine ⟨l₂, ?_, hvalid₂, hcap₂.trans hcap₁, halloc₂⟩
    simp only [ResourceLayout.calls]
    rw [hl₁, ok_bind, hl₂, ok_bind]
  obtain ⟨l₁, heq₁, hvalid₁, hcap₁, halloc₁⟩ := hrun c c'
  obtain ⟨l₂, heq₂, hvalid₂, hcap₂, halloc₂⟩ := hrun c' c
  rw [heq₁, heq₂, hvalid₁.eq_of_allocations hvalid₂ (hcap₁.trans hcap₂.symm) ?_]
  rw [halloc₁, halloc₂]
  exact hind.registered_comm

/-- Removing what was just inserted gives back the layout. -/
theorem Valid.remove_insert {l l₁ : ResourceLayout} (h : l.Valid) {a : Allocation}
    (hins : l.insertAllocation a = .ok (l₁, .ok ())) :
    l₁.removeAllocation a.id = .ok (l, .ok ()) := by
  rcases h.insertAllocation_cases a with ⟨e, heq, -⟩ | ⟨l', heq, hi, hvalid, hcap, halloc⟩
  · rw [hins] at heq
    cases heq
  · rw [hins] at heq
    cases heq
    have hfind : l₁.allocations.find? a.id = some a := by
      rw [halloc, OrdMap.find?_insert_self]
    obtain ⟨l₂, hrem, hvalid₂, hcap₂, halloc₂⟩ := hvalid.removeAllocation_of_some hfind
    rw [hrem, hvalid₂.eq_of_allocations h (hcap₂.trans hcap) ?_]
    rw [halloc₂, halloc]
    apply OrdMap.ext_find?
    intro k
    rw [OrdMap.find?_erase, OrdMap.find?_insert]
    split_ifs with hk
    · rw [hk, hi.new]
    · rfl

/-- Two layouts of one capacity that hold the same allocations are the same, whatever calls
led to them; removing what was just inserted gives back the layout, and independent insertions
and removals can be swapped. -/
theorem layouts_canonical (capacity : Bytes) (cs cs' : List Call) :
    ∃ l l', (ofCapacity capacity).calls cs = .ok l ∧ (ofCapacity capacity).calls cs' = .ok l' ∧
      (l.allocations = l'.allocations → l = l') ∧
      (∀ a l₁, l.insertAllocation a = .ok (l₁, .ok ()) →
        l₁.removeAllocation a.id = .ok (l, .ok ())) ∧
      ∀ c c', Independent l.allocations c c' → l.calls [c, c'] = l.calls [c', c] := by
  obtain ⟨l, hl, hvalid, hcap⟩ := (valid_ofCapacity capacity).calls cs
  obtain ⟨l', hl', hvalid', hcap'⟩ := (valid_ofCapacity capacity).calls cs'
  refine ⟨l, l', hl, hl', ?_, ?_, ?_⟩
  · exact fun halloc => hvalid.eq_of_allocations hvalid' (hcap.trans hcap'.symm) halloc
  · exact fun a l₁ hins => hvalid.remove_insert hins
  · exact fun c c' hind => hvalid.calls_comm hind

end FragmentationGovernor.ResourceLayout
