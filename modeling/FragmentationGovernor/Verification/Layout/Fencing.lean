import FragmentationGovernor.Library.Run
import FragmentationGovernor.Verification.Layout.Registry

/-! # Generations in the history of a layout

Neither `insert_allocation` nor `update_allocation` reads the generation it is given. Histories
of calls show when the accepted generations of an id nevertheless never go backwards. -/

namespace FragmentationGovernor.ResourceLayout

/-! ## Histories -/

/-- A layout beside what its callers remember of it. -/
structure Ledger where
  layout : ResourceLayout
  /-- the allocations of the accepted insertions and updates, in order -/
  accepted : List Allocation := []
  /-- the generations that removed allocations had when they were last removed -/
  retired : OrdMap AllocationId AllocationGeneration := ∅

/-- The allocation a call publishes, if it does. -/
def Call.carried : Call → List Allocation
  | .insert a => [a]
  | .update a => [a]
  | .remove _ => []

/-- The generations with which an id is published, in order. -/
def generationsOf (as : List Allocation) (id : AllocationId) : List ℕ :=
  (as.filter (fun a => decide (a.id = id))).map (fun a => a.generation.value.toNat)

namespace Ledger

/-- A granted removal retires the generation the layout holds. -/
def retire (s : Ledger) : Call → OrdMap AllocationId AllocationGeneration
  | .remove id =>
      match s.layout.allocations.find? id with
      | some a => s.retired.insert id a.generation
      | none => s.retired
  | _ => s.retired

/-- One call: what is accepted is recorded, what is rejected is not. -/
def step (s : Ledger) (c : Call) : Ledger :=
  match s.layout.answer c with
  | .ok (l, .ok ()) => ⟨l, s.accepted ++ c.carried, s.retire c⟩
  | .ok (l, .error _) => { s with layout := l }
  | .error _ => s

/-- The generations accepted for an id, in order. -/
def generations (s : Ledger) (id : AllocationId) : List ℕ := generationsOf s.accepted id

/-- The generation an id has or had last. -/
def current (s : Ledger) (id : AllocationId) : Option ℕ :=
  match s.layout.allocations.find? id with
  | some a => some a.generation.value.toNat
  | none => (s.retired.find? id).map (fun g => g.value.toNat)

end Ledger

/-- The ledger after a sequence of calls on a fresh layout. -/
def history (capacity : Bytes) (cs : List Call) : Ledger :=
  runFrom Ledger.step { layout := ofCapacity capacity } cs

/-- The accepted generations of every id never decrease, and a publication with a generation
older than one accepted for its id is rejected. -/
def Fenced (capacity : Bytes) (cs : List Call) : Prop :=
  (∀ id, ((history capacity cs).generations id).Pairwise (· ≤ ·)) ∧
    ∀ front c back, cs = front ++ c :: back → ∀ a ∈ c.carried,
      (∃ g ∈ (history capacity front).generations a.id, a.generation.value.toNat < g) →
        ∃ l e, (history capacity front).layout.answer c = .ok (l, .error e)

/-- No update of a present allocation in its place carries a generation older than the one it
replaces, and no insertion that fits one older than the one its id was removed with. -/
def Ledger.Fresh (s : Ledger) : Call → Prop
  | .insert a =>
      Grants s.layout.capacity s.layout.allocations (.insert a) →
        ∀ g, s.retired.find? a.id = some g → g.value.toNat ≤ a.generation.value.toNat
  | .update a =>
      ∀ old, s.layout.allocations.find? a.id = some old → old.offset = a.offset →
        old.length = a.length → old.generation.value.toNat ≤ a.generation.value.toNat
  | .remove _ => True

/-! ## One call -/

namespace Ledger

variable {s : Ledger} {c : Call}

/-- A call is granted and recorded, or it is rejected and nothing changes. -/
theorem step_cases (h : s.layout.Valid) (c : Call) :
    (Grants s.layout.capacity s.layout.allocations c ∧
        ∃ l, s.layout.answer c = .ok (l, .ok ()) ∧ l.Valid ∧
          l.allocations = granted s.layout.allocations c ∧
          s.step c = ⟨l, s.accepted ++ c.carried, s.retire c⟩) ∨
      (¬ Grants s.layout.capacity s.layout.allocations c ∧
        (∃ e, s.layout.answer c = .ok (s.layout, .error e)) ∧ s.step c = s) := by
  rcases h.answer_cases c with ⟨hgrant, l, heq, hvalid, -, halloc⟩ | ⟨hnot, e, heq⟩
  · refine Or.inl ⟨hgrant, l, heq, hvalid, halloc, ?_⟩
    rw [step, heq]
  · refine Or.inr ⟨hnot, ⟨e, heq⟩, ?_⟩
    rw [step, heq]

theorem call_step (h : s.layout.Valid) (c : Call) : s.layout.call c = .ok (s.step c).layout := by
  rw [call_eq_answer]
  rcases step_cases h c with ⟨-, l, heq, -, -, hstep⟩ | ⟨-, ⟨e, heq⟩, hstep⟩
  · rw [heq, hstep, ok_bind]
  · rw [heq, hstep, ok_bind]

/-- The layout is valid, and the last generation accepted for an id is its current one. -/
structure Kept (s : Ledger) : Prop where
  valid : s.layout.Valid
  getLast?_eq : ∀ id, (s.generations id).getLast? = s.current id

theorem kept_ofCapacity (capacity : Bytes) : Kept { layout := ofCapacity capacity } := by
  refine ⟨valid_ofCapacity capacity, ?_⟩
  intro id
  have hnone : (ofCapacity capacity).allocations = ∅ := by
    unfold ofCapacity
    split <;> rfl
  rw [current, hnone]
  rfl

end Ledger

@[simp] theorem generationsOf_nil (id : AllocationId) : generationsOf [] id = [] := rfl

theorem generationsOf_append (as bs : List Allocation) (id : AllocationId) :
    generationsOf (as ++ bs) id = generationsOf as id ++ generationsOf bs id := by
  simp [generationsOf]

@[simp] theorem generationsOf_self (a : Allocation) :
    generationsOf [a] a.id = [a.generation.value.toNat] := by
  simp [generationsOf]

theorem generationsOf_of_ne {a : Allocation} {id : AllocationId} (h : a.id ≠ id) :
    generationsOf [a] id = [] := by
  simp [generationsOf, h]

namespace Ledger

variable {s : Ledger} {c : Call}

/-- A registry entry that is added or replaced is current from then on. -/
theorem current_insert {l : ResourceLayout} {a : Allocation}
    (halloc : l.allocations = s.layout.allocations.insert a.id a) (as : List Allocation)
    (id : AllocationId) :
    (Ledger.mk l as s.retired).current id = (generationsOf [a] id).getLast?.or (s.current id) := by
  unfold current
  dsimp only
  rw [halloc]
  by_cases hid : a.id = id
  · subst hid
    rw [OrdMap.find?_insert_self, generationsOf_self]
    rfl
  · rw [OrdMap.find?_insert_of_ne _ _ (Ne.symm hid), generationsOf_of_ne hid]
    rfl

/-- A removal keeps what is current. -/
theorem current_erase {l : ResourceLayout} {id' : AllocationId} {a : Allocation}
    (ha : s.layout.allocations.find? id' = some a)
    (halloc : l.allocations = s.layout.allocations.erase id') (as : List Allocation)
    (id : AllocationId) :
    (Ledger.mk l as (s.retired.insert id' a.generation)).current id = s.current id := by
  unfold current
  dsimp only
  rw [halloc, OrdMap.find?_erase]
  by_cases hid : id = id'
  · subst hid
    rw [if_pos rfl, ha, OrdMap.find?_insert_self]
    rfl
  · rw [if_neg hid, OrdMap.find?_insert_of_ne _ _ hid]

theorem current_granted (hgrant : Grants s.layout.capacity s.layout.allocations c)
    {l : ResourceLayout} (halloc : l.allocations = granted s.layout.allocations c)
    (as : List Allocation) (id : AllocationId) :
    (Ledger.mk l as (s.retire c)).current id =
      (generationsOf c.carried id).getLast?.or (s.current id) := by
  cases c with
  | insert a => exact current_insert halloc as id
  | update a => exact current_insert halloc as id
  | remove id' =>
      obtain ⟨a, ha⟩ := hgrant
      rw [retire, ha]
      exact current_erase ha halloc as id

theorem Kept.step (h : s.Kept) (c : Call) : (s.step c).Kept := by
  rcases step_cases h.valid c with ⟨hgrant, l, -, hvalid, halloc, hstep⟩ | ⟨-, -, hstep⟩
  · rw [hstep]
    refine ⟨hvalid, ?_⟩
    intro id
    rw [current_granted hgrant halloc, ← h.getLast?_eq, generations, generationsOf_append,
      List.getLast?_append]
    rfl
  · rw [hstep]
    exact h

/-- A call is fresh when, once granted, it carries nothing older than what is current. -/
theorem fresh_iff : s.Fresh c ↔ (Grants s.layout.capacity s.layout.allocations c →
    ∀ a ∈ c.carried, ∀ g, s.current a.id = some g → g ≤ a.generation.value.toNat) := by
  cases c with
  | insert a =>
      refine forall_congr' fun hgrant => ?_
      have hnew := hgrant.2.2.1
      simp only [Call.carried, List.mem_singleton, forall_eq, current, hnew, Option.map_eq_some_iff,
        forall_exists_index, and_imp, forall_apply_eq_imp_iff₂]
  | update a =>
      constructor
      · intro hfresh hgrant a' ha' g hg
        obtain ⟨old, hold, hoff, hlen⟩ := hgrant
        rw [List.mem_singleton.mp ha', current, hold] at hg
        rw [List.mem_singleton.mp ha']
        cases hg
        exact hfresh old hold hoff hlen
      · intro hfresh old hold hoff hlen
        refine hfresh ⟨old, hold, hoff, hlen⟩ a (by simp [Call.carried]) _ ?_
        rw [current, hold]
  | remove id => simp [Fresh, Call.carried]

/-- The accepted generations of every id never decrease. -/
def Ordered (s : Ledger) : Prop := ∀ id, (s.generations id).Pairwise (· ≤ ·)

end Ledger

theorem pairwise_snoc_iff {gs : List ℕ} {n : ℕ} :
    (gs ++ [n]).Pairwise (· ≤ ·) ↔ gs.Pairwise (· ≤ ·) ∧ ∀ g, gs.getLast? = some g → g ≤ n := by
  rw [← List.isChain_iff_pairwise, List.isChain_append, List.isChain_iff_pairwise]
  simp

namespace Ledger

variable {s : Ledger} {c : Call}

/-- One more publication of an id is in order when it is no older than the current one. -/
theorem Kept.pairwise_publish_iff (h : s.Kept) (a : Allocation) :
    (∀ id, (s.generations id ++ generationsOf [a] id).Pairwise (· ≤ ·)) ↔
      s.Ordered ∧ ∀ g, s.current a.id = some g → g ≤ a.generation.value.toNat := by
  constructor
  · intro hall
    refine ⟨fun id => (List.pairwise_append.mp (hall id)).1, ?_⟩
    have hself := hall a.id
    rw [generationsOf_self, pairwise_snoc_iff, h.getLast?_eq] at hself
    exact hself.2
  · rintro ⟨hordered, hlast⟩ id
    by_cases hid : a.id = id
    · subst hid
      rw [generationsOf_self, pairwise_snoc_iff, h.getLast?_eq]
      exact ⟨hordered a.id, hlast⟩
    · rw [generationsOf_of_ne hid, List.append_nil]
      exact hordered id

theorem Kept.ordered_step_iff (h : s.Kept) (c : Call) :
    (s.step c).Ordered ↔ s.Ordered ∧ s.Fresh c := by
  rw [fresh_iff]
  rcases step_cases h.valid c with ⟨hgrant, l, -, -, -, hstep⟩ | ⟨hnot, -, hstep⟩
  · rw [hstep, Ordered]
    simp only [generations, generationsOf_append, hgrant, true_implies]
    cases c with
    | insert a => simpa [Call.carried, generations] using h.pairwise_publish_iff a
    | update a => simpa [Call.carried, generations] using h.pairwise_publish_iff a
    | remove id => simp [Call.carried, Ordered, generations]
  · rw [hstep]
    simp [hnot]

end Ledger

/-! ## Histories of calls -/

theorem kept_history (capacity : Bytes) (cs : List Call) : (history capacity cs).Kept :=
  runFrom_invariant (Ledger.kept_ofCapacity capacity) (fun _ c h => h.step c) cs

theorem history_snoc (capacity : Bytes) (cs : List Call) (c : Call) :
    history capacity (cs ++ [c]) = (history capacity cs).step c :=
  runFrom_snoc _ _ _ _

/-- The ledger keeps the layout that the calls lead to. -/
theorem calls_eq_history (capacity : Bytes) (cs : List Call) :
    (ofCapacity capacity).calls cs = .ok (history capacity cs).layout := by
  induction cs using List.reverseRecOn with
  | nil => rfl
  | append_singleton cs c ih =>
      rw [calls_append, ih, ok_bind, history_snoc]
      simp only [ResourceLayout.calls]
      rw [Ledger.call_step (kept_history capacity cs).valid, ok_bind]

theorem ordered_history_iff (capacity : Bytes) (cs : List Call) :
    (history capacity cs).Ordered ↔
      AllSteps Ledger.step Ledger.Fresh { layout := ofCapacity capacity } cs := by
  induction cs using List.reverseRecOn with
  | nil => simp [history, Ledger.Ordered, Ledger.generations]
  | append_singleton cs c ih =>
      rw [history_snoc, (kept_history capacity cs).ordered_step_iff, ih, allSteps_append,
        allSteps_cons]
      simp [history]

/-- In a history without a stale call what would be stale is rejected. -/
theorem rejected_of_ordered {capacity : Bytes} {front : List Call} {c : Call} {a : Allocation}
    {g : ℕ} (hordered : (history capacity (front ++ [c])).Ordered) (ha : a ∈ c.carried)
    (hg : g ∈ (history capacity front).generations a.id)
    (hlt : a.generation.value.toNat < g) :
    ∃ l e, (history capacity front).layout.answer c = .ok (l, .error e) := by
  rcases Ledger.step_cases (kept_history capacity front).valid c with
    ⟨-, l, -, -, -, hstep⟩ | ⟨-, ⟨e, heq⟩, -⟩
  · have hpair := hordered a.id
    rw [history_snoc, hstep, Ledger.generations, generationsOf_append] at hpair
    have hmem : a.generation.value.toNat ∈ generationsOf c.carried a.id := by
      simp only [generationsOf, List.mem_map, List.mem_filter]
      exact ⟨a, ⟨ha, by simp⟩, rfl⟩
    have hle := (List.pairwise_append.mp hpair).2.2 g hg _ hmem
    omega
  · exact ⟨_, e, heq⟩

/-- The generations of a history are fenced exactly when none of its calls is stale. -/
theorem fenced_iff (capacity : Bytes) (cs : List Call) :
    (ofCapacity capacity).calls cs = .ok (history capacity cs).layout ∧
      (Fenced capacity cs ↔
        AllSteps Ledger.step Ledger.Fresh { layout := ofCapacity capacity } cs) := by
  refine ⟨calls_eq_history capacity cs, ?_⟩
  rw [← ordered_history_iff]
  constructor
  · exact fun h => h.1
  · intro hordered
    refine ⟨hordered, ?_⟩
    rintro front c back hsplit a ha ⟨g, hg, hlt⟩
    refine rejected_of_ordered ?_ ha hg hlt
    rw [ordered_history_iff] at hordered ⊢
    rw [hsplit, List.append_cons] at hordered
    exact (allSteps_append.mp hordered).1

/-- An update with an older generation is accepted, and so is an older insertion after a
removal. -/
theorem not_fenced_stale :
    ¬ Fenced ⟨100⟩ [.insert { id := ⟨1⟩, generation := ⟨5⟩, length := ⟨10⟩ },
        .update { id := ⟨1⟩, generation := ⟨3⟩, length := ⟨10⟩ }] ∧
      ¬ Fenced ⟨100⟩ [.insert { id := ⟨1⟩, generation := ⟨5⟩, length := ⟨10⟩ }, .remove ⟨1⟩,
        .insert { id := ⟨1⟩, generation := ⟨3⟩, length := ⟨10⟩ }] := by
  constructor
  · intro h
    exact absurd (h.1 ⟨1⟩) (by decide)
  · intro h
    exact absurd (h.1 ⟨1⟩) (by decide)

end FragmentationGovernor.ResourceLayout
