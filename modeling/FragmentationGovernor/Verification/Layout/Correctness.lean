import FragmentationGovernor.Verification.Layout.Remove

/-! # Correctness of the layout operations

Every sequence of calls on a fresh layout returns and leaves a valid layout, so the
layouts a program can hold are exactly of that kind. -/

namespace FragmentationGovernor.ResourceLayout

/-! ## One call -/

/-- No call raises on a valid layout, and the layout it leaves is valid. -/
theorem Valid.call {l : ResourceLayout} (h : l.Valid) (c : Call) :
    ∃ l', l.call c = .ok l' ∧ l'.Valid ∧ l'.capacity = l.capacity := by
  cases c with
  | insert a =>
      rcases h.insertAllocation_cases a with ⟨e, heq, -⟩ | ⟨l', heq, -, hvalid, hcap, -⟩
      · refine ⟨l, ?_, h, rfl⟩
        simp only [ResourceLayout.call]
        rw [heq, ok_bind]
      · refine ⟨l', ?_, hvalid, hcap⟩
        simp only [ResourceLayout.call]
        rw [heq, ok_bind]
  | update a => exact ⟨_, rfl, h.updateAllocation a, updateAllocation_capacity l a⟩
  | remove id =>
      cases ha : l.allocations.find? id with
      | none =>
          refine ⟨l, ?_, h, rfl⟩
          simp only [ResourceLayout.call]
          rw [removeAllocation_of_none ha, ok_bind]
      | some a =>
          obtain ⟨l', heq, hvalid, hcap, -⟩ := h.removeAllocation_of_some ha
          refine ⟨l', ?_, hvalid, hcap⟩
          simp only [ResourceLayout.call]
          rw [heq, ok_bind]

/-- What a granted insertion says about the request and the result. -/
theorem Valid.of_insertAllocation_ok {l l' : ResourceLayout} (h : l.Valid) {a : Allocation}
    (hins : l.insertAllocation a = .ok (l', .ok ())) :
    l.Insertable a ∧ l'.allocations = l.allocations.insert a.id a ∧ l'.Valid ∧
      l'.capacity = l.capacity := by
  rcases h.insertAllocation_cases a with ⟨e, heq, -⟩ | ⟨l₁, heq, hinsertable, hvalid, hcap, halloc⟩
  · rw [hins] at heq
    cases heq
  · rw [hins] at heq
    cases heq
    exact ⟨hinsertable, halloc, hvalid, hcap⟩

/-- A refused removal leaves a valid layout as it was. -/
theorem Valid.eq_of_removeAllocation_error {l l' : ResourceLayout} (h : l.Valid)
    {id : AllocationId} {e : String} (hrem : l.removeAllocation id = .ok (l', .error e)) :
    l' = l := by
  cases ha : l.allocations.find? id with
  | none =>
      rw [removeAllocation_of_none ha] at hrem
      cases hrem
      rfl
  | some a =>
      obtain ⟨l₁, heq, -⟩ := h.removeAllocation_of_some ha
      rw [hrem] at heq
      cases heq

/-- Only an allocation that is there can be removed. -/
theorem exists_of_removeAllocation_ok {l l' : ResourceLayout} {id : AllocationId}
    (hrem : l.removeAllocation id = .ok (l', .ok ())) : ∃ a, l.allocations.find? id = some a := by
  cases ha : l.allocations.find? id with
  | none =>
      rw [removeAllocation_of_none ha] at hrem
      cases hrem
  | some a => exact ⟨a, rfl⟩

/-- A granted removal frees the length of the allocation. -/
theorem Valid.freeCapacity_of_removeAllocation {l l' : ResourceLayout} (h : l.Valid)
    {id : AllocationId} {a : Allocation} (ha : l.allocations.find? id = some a)
    (hrem : l.removeAllocation id = .ok (l', .ok ())) :
    l'.freeCapacity.toNat = l.freeCapacity.toNat + a.length.toNat := by
  obtain ⟨l'', heq, hvalid, hcap, halloc⟩ := h.removeAllocation_of_some ha
  rw [hrem] at heq
  cases heq
  have hsum := h.free_add_allocated
  have hsum' := hvalid.free_add_allocated
  have hallocated := allocatedLength_erase ha halloc
  rw [hcap] at hsum'
  omega

/-! ## Sequences of calls -/

theorem Valid.calls {l : ResourceLayout} (h : l.Valid) (cs : List Call) :
    ∃ l', l.calls cs = .ok l' ∧ l'.Valid ∧ l'.capacity = l.capacity := by
  induction cs generalizing l with
  | nil => exact ⟨l, rfl, h, rfl⟩
  | cons c rest ih =>
      obtain ⟨l₁, hcall, hvalid, hcap⟩ := h.call c
      obtain ⟨l₂, hcalls, hvalid₂, hcap₂⟩ := ih hvalid
      refine ⟨l₂, ?_, hvalid₂, hcap₂.trans hcap⟩
      simp only [ResourceLayout.calls]
      rw [hcall, ok_bind, hcalls]

theorem calls_append (l : ResourceLayout) (front back : List Call) :
    l.calls (front ++ back) = (l.calls front >>= fun l' => l'.calls back) := by
  induction front generalizing l with
  | nil => rfl
  | cons c rest ih =>
      simp only [List.cons_append, ResourceLayout.calls]
      cases l.call c with
      | error e => rfl
      | ok l₁ => simpa using ih l₁

/-- Whatever calls are made on a layout of any capacity, none of their checked operations
raises, and the layout is valid with its free and allocated bytes adding up to the
capacity. -/
theorem ofCapacity_calls_valid (capacity : Bytes) (cs : List Call) :
    ∃ l, (ofCapacity capacity).calls cs = .ok l ∧ l.capacity = capacity ∧ l.Valid ∧
      l.freeCapacity.toNat + l.allocatedLength = capacity.toNat := by
  obtain ⟨l, hcalls, hvalid, hcap⟩ := (valid_ofCapacity capacity).calls cs
  have hcap' : l.capacity = capacity := hcap.trans (capacity_ofCapacity capacity)
  refine ⟨l, hcalls, hcap', hvalid, ?_⟩
  rw [← hcap']
  exact hvalid.free_add_allocated

/-! ## Reachable layouts -/

namespace Reachable

variable {l : ResourceLayout}

theorem valid (h : l.Reachable) : l.Valid := by
  obtain ⟨capacity, cs, hcs⟩ := h
  obtain ⟨l', hl', hvalid, -⟩ := (valid_ofCapacity capacity).calls cs
  rw [hl'] at hcs
  cases hcs
  exact hvalid

theorem ofCapacity (capacity : Bytes) : (ofCapacity capacity).Reachable := ⟨capacity, [], rfl⟩

theorem call (h : l.Reachable) {c : Call} {l' : ResourceLayout} (hc : l.call c = .ok l') :
    l'.Reachable := by
  obtain ⟨capacity, cs, hcs⟩ := h
  refine ⟨capacity, cs ++ [c], ?_⟩
  rw [calls_append, hcs, ok_bind]
  simp only [ResourceLayout.calls]
  rw [hc, ok_bind]

/-- Insertion on a reachable layout never raises. -/
theorem insertAllocation (h : l.Reachable) (a : Allocation) :
    ∃ l' reply, l.insertAllocation a = .ok (l', reply) ∧ l'.Reachable ∧
      l'.capacity = l.capacity := by
  rcases h.valid.insertAllocation_cases a with ⟨e, heq, -⟩ | ⟨l', heq, -, -, hcap, -⟩
  · exact ⟨l, .error e, heq, h, rfl⟩
  · refine ⟨l', .ok (), heq, h.call (c := .insert a) ?_, hcap⟩
    simp only [ResourceLayout.call]
    rw [heq, ok_bind]

/-- Removal on a reachable layout never raises. -/
theorem removeAllocation (h : l.Reachable) (id : AllocationId) :
    ∃ l' reply, l.removeAllocation id = .ok (l', reply) ∧ l'.Reachable ∧
      l'.capacity = l.capacity := by
  cases ha : l.allocations.find? id with
  | none => exact ⟨l, _, removeAllocation_of_none ha, h, rfl⟩
  | some a =>
      obtain ⟨l', heq, -, hcap, -⟩ := h.valid.removeAllocation_of_some ha
      refine ⟨l', .ok (), heq, h.call (c := .remove id) ?_, hcap⟩
      simp only [ResourceLayout.call]
      rw [heq, ok_bind]

end Reachable

end FragmentationGovernor.ResourceLayout
