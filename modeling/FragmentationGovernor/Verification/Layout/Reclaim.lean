import FragmentationGovernor.Model.Fit
import FragmentationGovernor.Verification.Layout.Correctness

/-! # Reclaiming allocations

The simulations of `metrics.cpp` and `fit.cpp` remove allocations one after another from a
copy of a layout. On a valid layout none of the removals fails or raises. -/

namespace FragmentationGovernor.ResourceLayout

/-! ## Cleared layouts -/

/-- `l'` is a valid layout that holds what `l` holds except for the given ids. -/
structure Cleared (ids : List AllocationId) (l l' : ResourceLayout) : Prop where
  valid : l'.Valid
  capacity_eq : l'.capacity = l.capacity
  find?_eq : ∀ id, l'.allocations.find? id = if id ∈ ids then none else l.allocations.find? id

theorem Valid.cleared {l : ResourceLayout} (h : l.Valid) : Cleared [] l l := by
  refine ⟨h, rfl, ?_⟩
  simp

namespace Cleared

variable {ids : List AllocationId} {l l' : ResourceLayout}

theorem find?_of_mem (h : Cleared ids l l') {id : AllocationId} (hid : id ∈ ids) :
    l'.allocations.find? id = none := by
  rw [h.find?_eq, if_pos hid]

theorem find?_of_notMem (h : Cleared ids l l') {id : AllocationId} (hid : id ∉ ids) :
    l'.allocations.find? id = l.allocations.find? id := by
  rw [h.find?_eq, if_neg hid]

theorem find?_of_some (h : Cleared ids l l') {id : AllocationId} {a : Allocation}
    (ha : l'.allocations.find? id = some a) : l.allocations.find? id = some a := by
  by_cases hid : id ∈ ids
  · rw [h.find?_of_mem hid] at ha
    cases ha
  · rw [← h.find?_of_notMem hid]
    exact ha

/-- Removing an allocation that is still there clears it too. -/
theorem remove (h : Cleared ids l l') {id : AllocationId} {a : Allocation}
    (ha : l'.allocations.find? id = some a) :
    ∃ l'', l'.removeAllocation id = .ok (l'', .ok ()) ∧ Cleared (ids ++ [id]) l l'' := by
  obtain ⟨l'', heq, hvalid, hcap, halloc⟩ := h.valid.removeAllocation_of_some ha
  refine ⟨l'', heq, hvalid, hcap.trans h.capacity_eq, ?_⟩
  intro id'
  rw [halloc, OrdMap.find?_erase, h.find?_eq]
  by_cases hid : id' = id
  · simp [hid]
  · simp [hid]

/-- Removing any id never raises, and clears it. -/
theorem remove_any (h : Cleared ids l l') (id : AllocationId) :
    ∃ l'' reply, l'.removeAllocation id = .ok (l'', reply) ∧ Cleared (ids ++ [id]) l l'' := by
  cases ha : l'.allocations.find? id with
  | none =>
      refine ⟨l', _, removeAllocation_of_none ha, h.valid, h.capacity_eq, ?_⟩
      intro id'
      by_cases hid : id' = id
      · simp [hid, ha]
      · simp [hid, h.find?_eq]
  | some a =>
      obtain ⟨l'', heq, hcleared⟩ := h.remove ha
      exact ⟨l'', _, heq, hcleared⟩

/-- Whatever the answer to a removal, the id is cleared after it. -/
theorem of_removeAllocation (h : Cleared ids l l') {id : AllocationId} {l'' : ResourceLayout}
    {reply : LayoutReply} (hrem : l'.removeAllocation id = .ok (l'', reply)) :
    Cleared (ids ++ [id]) l l'' := by
  obtain ⟨l₁, reply₁, heq, hcleared⟩ := h.remove_any id
  rw [hrem] at heq
  cases heq
  exact hcleared

end Cleared

/-- A layout of the same capacity that holds no more allocations has at least as much free. -/
theorem Valid.freeCapacity_le {l l' : ResourceLayout} (h : l.Valid) (h' : l'.Valid)
    (hcap : l'.capacity = l.capacity)
    (hsub : ∀ id a, l'.allocations.find? id = some a → l.allocations.find? id = some a) :
    l.freeCapacity.toNat ≤ l'.freeCapacity.toNat := by
  have hsubset : l'.allocations.entries ⊆ l.allocations.entries := by
    intro e he
    exact OrdMap.find?_eq_some_iff.mp (hsub e.1 e.2 (OrdMap.find?_eq_some_iff.mpr he))
  obtain ⟨es, hperm, hsublist⟩ := List.subperm_of_subset (OrdMap.nodup_entries _) hsubset
  have hallocated : l'.allocatedLength ≤ l.allocatedLength := by
    unfold allocatedLength
    rw [← (hperm.map _).sum_eq]
    exact (hsublist.map _).sum_le_sum (fun _ _ => Nat.zero_le _)
  have hl := h.free_add_allocated
  have hl' := h'.free_add_allocated
  rw [hcap] at hl'
  omega

/-! ## Allocations of one kind -/

/-- The total length of the registered allocations that satisfy `p`. -/
def lengthWhere (p : Allocation → Bool) (l : ResourceLayout) : ℕ :=
  (l.allocations.entries.map (fun e => if p e.2 then e.2.length.toNat else 0)).sum

/-- An allocation satisfies either `p` or its negation. -/
theorem lengthWhere_add_not (p : Allocation → Bool) (l : ResourceLayout) :
    l.lengthWhere p + l.lengthWhere (fun a => !p a) = l.allocatedLength := by
  unfold lengthWhere allocatedLength
  rw [← List.sum_map_add]
  congr 1
  apply List.map_congr_left
  intro e _
  by_cases hp : p e.2 = true
  · simp [hp]
  · simp [hp]

/-! ## Removals one after another -/

/-- The ids are removed in order, and every removal succeeds. -/
inductive Removes : List AllocationId → ResourceLayout → ResourceLayout → Prop
  | nil (l : ResourceLayout) : Removes [] l l
  | cons {id : AllocationId} {ids : List AllocationId} {l l' l'' : ResourceLayout}
      (hrem : l.removeAllocation id = .ok (l', .ok ())) (hrest : Removes ids l' l'') :
      Removes (id :: ids) l l''

/-- Different ids that are still there can be removed one after another. -/
theorem Cleared.removes {ids rest : List AllocationId} {l l' : ResourceLayout}
    (h : Cleared ids l l') (hnodup : rest.Nodup)
    (hrest : ∀ id ∈ rest, ∃ a, l'.allocations.find? id = some a) :
    ∃ l'', Removes rest l' l'' ∧ Cleared (ids ++ rest) l l'' := by
  induction rest generalizing ids l' with
  | nil =>
      refine ⟨l', .nil l', ?_⟩
      rw [List.append_nil]
      exact h
  | cons id rest ih =>
      rw [List.nodup_cons] at hnodup
      obtain ⟨a, ha⟩ := hrest id (by simp)
      obtain ⟨l₁, hrem, hcleared⟩ := h.remove ha
      have hleft : ∀ id' ∈ rest, ∃ b, l₁.allocations.find? id' = some b := by
        intro id' hid'
        have hne : id' ≠ id := by
          rintro rfl
          exact hnodup.1 hid'
        obtain ⟨b, hb⟩ := hrest id' (by simp [hid'])
        refine ⟨b, ?_⟩
        rw [hcleared.find?_eq, ← hb, h.find?_eq]
        simp [hne]
      obtain ⟨l'', hremoves, hcleared'⟩ := ih hcleared hnodup.2 hleft
      rw [← List.append_cons] at hcleared'
      exact ⟨l'', .cons hrem hremoves, hcleared'⟩

/-- The ids of the entries that satisfy `p`, in order. -/
def selectIds (p : Allocation → Bool) (es : List (AllocationId × Allocation)) :
    List AllocationId :=
  (es.filter (fun e => p e.2)).map Prod.fst

theorem selectIds_cons_of_pos {p : Allocation → Bool} {e : AllocationId × Allocation}
    (h : p e.2 = true) (es : List (AllocationId × Allocation)) :
    selectIds p (e :: es) = e.1 :: selectIds p es := by
  simp [selectIds, h]

theorem selectIds_cons_of_neg {p : Allocation → Bool} {e : AllocationId × Allocation}
    (h : ¬ p e.2 = true) (es : List (AllocationId × Allocation)) :
    selectIds p (e :: es) = selectIds p es := by
  simp [selectIds, h]

theorem mem_selectIds_iff {p : Allocation → Bool} {l : ResourceLayout} {id : AllocationId} :
    id ∈ selectIds p l.allocations.entries ↔
      ∃ a, l.allocations.find? id = some a ∧ p a = true := by
  simp only [selectIds, List.mem_map, List.mem_filter, Prod.exists, exists_and_right,
    exists_eq_right, OrdMap.find?_eq_some_iff]

/-- The allocations of one kind can be removed one after another. -/
theorem Valid.removes {l : ResourceLayout} (h : l.Valid) (p : Allocation → Bool) :
    ∃ sim, Removes (selectIds p l.allocations.entries) l sim ∧
      Cleared (selectIds p l.allocations.entries) l sim := by
  have hnodup : (selectIds p l.allocations.entries).Nodup :=
    (OrdMap.nodup_keys l.allocations).sublist (List.filter_sublist.map _)
  have hmem : ∀ id ∈ selectIds p l.allocations.entries,
      ∃ a, l.allocations.find? id = some a := by
    intro id hid
    obtain ⟨a, ha, -⟩ := mem_selectIds_iff.mp hid
    exact ⟨a, ha⟩
  exact h.cleared.removes hnodup hmem

section Selected

variable {p : Allocation → Bool} {l sim : ResourceLayout}

theorem lengthWhere_eq_sum_filter (p : Allocation → Bool) (l : ResourceLayout) :
    l.lengthWhere p =
      ((l.allocations.entries.filter (fun e => p e.2)).map (fun e => e.2.length.toNat)).sum := by
  unfold lengthWhere
  rw [List.sum_map_ite]
  simp

/-- What is left when the allocations of one kind are gone are the others. -/
theorem Cleared.find?_eq_some_iff (h : Cleared (selectIds p l.allocations.entries) l sim)
    {id : AllocationId} {a : Allocation} :
    sim.allocations.find? id = some a ↔ l.allocations.find? id = some a ∧ p a = false := by
  rw [h.find?_eq]
  constructor
  · intro ha
    split_ifs at ha with hid
    refine ⟨ha, ?_⟩
    by_contra hp
    exact hid (mem_selectIds_iff.mpr ⟨a, ha, by simpa using hp⟩)
  · rintro ⟨ha, hp⟩
    rw [if_neg, ha]
    intro hid
    obtain ⟨b, hb, hpb⟩ := mem_selectIds_iff.mp hid
    rw [ha] at hb
    cases hb
    rw [hp] at hpb
    cases hpb

theorem Cleared.allocatedLength_eq (h : Cleared (selectIds p l.allocations.entries) l sim) :
    sim.allocatedLength = l.lengthWhere (fun a => !p a) := by
  have hperm : sim.allocations.entries.Perm
      (l.allocations.entries.filter (fun e => !p e.2)) := by
    rw [List.perm_ext_iff_of_nodup (OrdMap.nodup_entries _) ((OrdMap.nodup_entries _).filter _)]
    intro e
    rw [List.mem_filter, ← OrdMap.find?_eq_some_iff, ← OrdMap.find?_eq_some_iff,
      h.find?_eq_some_iff, Bool.not_eq_true']
  rw [lengthWhere_eq_sum_filter, allocatedLength, (hperm.map _).sum_eq]

end Selected

/-! ## The two simulations -/

/-- Both simulations select the same allocations. -/
theorem eligibleForReclaim_eq_reclaimable : eligibleForReclaim = Fit.reclaimable := by
  funext a
  unfold eligibleForReclaim Fit.reclaimable
  cases a.policyProtected with
  | true => rfl
  | false =>
      cases a.reservation with
      | none => rfl
      | some r => rfl

/-- The loop of `reclaimAll` from any layout on. -/
theorem Removes.foldlM_reclaim {es : List (AllocationId × Allocation)} {l sim : ResourceLayout}
    (h : Removes (selectIds Fit.reclaimable es) l sim) :
    es.foldlM (fun sim e =>
        if Fit.reclaimable e.2 then do
          let (sim, _) ← sim.removeAllocation e.1
          .ok sim
        else .ok sim) l = Except.ok sim := by
  induction es generalizing l with
  | nil =>
      cases h
      rfl
  | cons e rest ih =>
      rw [List.foldlM_cons]
      by_cases hr : Fit.reclaimable e.2 = true
      · rw [selectIds_cons_of_pos hr] at h
        cases h with
        | cons hrem hrest =>
            rw [if_pos hr, hrem, ok_bind, ok_bind]
            exact ih hrest
      · rw [selectIds_cons_of_neg hr] at h
        rw [if_neg hr, ok_bind]
        exact ih h

/-- The loop of the metrics from any layout on. -/
theorem Removes.reclaimEligible {es : List (AllocationId × Allocation)} {l sim : ResourceLayout}
    (h : Removes (selectIds eligibleForReclaim es) l sim) :
    FragmentationMetrics.reclaimEligible es l = .ok (some sim) := by
  induction es generalizing l with
  | nil =>
      cases h
      rfl
  | cons e rest ih =>
      obtain ⟨id, a⟩ := e
      rw [FragmentationMetrics.reclaimEligible]
      by_cases hr : eligibleForReclaim a = true
      · rw [selectIds_cons_of_pos hr] at h
        cases h with
        | cons hrem hrest =>
            rw [if_pos hr, hrem, ok_bind]
            exact ih hrest
      · rw [selectIds_cons_of_neg hr] at h
        rw [if_neg hr]
        exact ih h

/-- The simulation of the fit analysis returns the layout without its reclaimable
allocations. -/
theorem Valid.reclaimAll {l : ResourceLayout} (h : l.Valid) :
    ∃ sim, Fit.reclaimAll l = .ok sim ∧
      Cleared (selectIds Fit.reclaimable l.allocations.entries) l sim := by
  obtain ⟨sim, hremoves, hcleared⟩ := h.removes Fit.reclaimable
  exact ⟨sim, hremoves.foldlM_reclaim, hcleared⟩

/-- The simulation of the metrics never gives up. -/
theorem Valid.reclaimEligible {l : ResourceLayout} (h : l.Valid) :
    ∃ sim, FragmentationMetrics.reclaimEligible l.allocations.entries l = .ok (some sim) ∧
      Cleared (selectIds eligibleForReclaim l.allocations.entries) l sim := by
  obtain ⟨sim, hremoves, hcleared⟩ := h.removes eligibleForReclaim
  exact ⟨sim, hremoves.reclaimEligible, hcleared⟩

end FragmentationGovernor.ResourceLayout
