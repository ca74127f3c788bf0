import FragmentationGovernor.Verification.Coordinator.Evidence
import FragmentationGovernor.Verification.Coordinator.Ledger
import FragmentationGovernor.Verification.Layout.Registry

/-! # A layout is published as a set

PUBLISH_LAYOUT inserts its allocations one after the other and rejects at the first that does
not fit. Whether all fit, and the layout that comes out, do not depend on their order. -/

namespace FragmentationGovernor.ResourceLayout

/-! ## Allocations that fit together -/

/-- Allocations that do not compete with each other. -/
def Distinct (a b : Allocation) : Prop := a.id ≠ b.id ∧ Apart a b

instance (a b : Allocation) : Decidable (Distinct a b) :=
  inferInstanceAs (Decidable (a.id ≠ b.id ∧
    (a.offset.toNat + a.length.toNat ≤ b.offset.toNat ∨
      b.offset.toNat + b.length.toNat ≤ a.offset.toNat)))

theorem Distinct.symm {a b : Allocation} (h : Distinct a b) : Distinct b a :=
  ⟨h.1.symm, h.2.symm⟩

/-- The allocations can stand together in an empty layout of this capacity. -/
def Compatible (capacity : Bytes) (as : List Allocation) : Prop :=
  (∀ a ∈ as, 0 < a.length.toNat ∧ a.offset.toNat + a.length.toNat ≤ capacity.toNat) ∧
    as.Pairwise Distinct

instance (capacity : Bytes) (as : List Allocation) : Decidable (Compatible capacity as) :=
  inferInstanceAs (Decidable (_ ∧ _))

theorem compatible_perm {capacity : Bytes} {as bs : List Allocation} (h : as.Perm bs) :
    Compatible capacity as ↔ Compatible capacity bs := by
  have hall : (∀ a ∈ as, 0 < a.length.toNat ∧
      a.offset.toNat + a.length.toNat ≤ capacity.toNat) ↔
      ∀ a ∈ bs, 0 < a.length.toNat ∧ a.offset.toNat + a.length.toNat ≤ capacity.toNat := by
    simp only [h.mem_iff]
  exact and_congr hall (h.pairwise_iff fun hab => hab.symm)

/-- All allocations are granted, one after the other. -/
def GrantsAll (capacity : Bytes) (m : OrdMap AllocationId Allocation)
    (as : List Allocation) : Prop :=
  (∀ a ∈ as, Grants capacity m (.insert a)) ∧ as.Pairwise Distinct

/-- What is granted after an insertion was granted before it and does not compete with it. -/
theorem grants_granted_insert_iff {capacity : Bytes} {m : OrdMap AllocationId Allocation}
    {a b : Allocation} (ha : Grants capacity m (.insert a)) :
    Grants capacity (granted m (.insert a)) (.insert b) ↔
      Grants capacity m (.insert b) ∧ Distinct a b := by
  constructor
  · intro hb
    have hself : (granted m (.insert a)).find? a.id = some a := OrdMap.find?_insert_self _ _ _
    have hdistinct : Distinct a b := by
      constructor
      · intro hid
        have hnew := hb.2.2.1
        rw [← hid, hself] at hnew
        cases hnew
      · exact (hb.2.2.2 a.id a hself).symm
    have hind : Independent m (.insert a) (.insert b) := hdistinct
    exact ⟨(hind.grants_granted_iff ha).mp hb, hdistinct⟩
  · intro ⟨hb, hdistinct⟩
    have hind : Independent m (.insert a) (.insert b) := hdistinct
    exact (hind.grants_granted_iff ha).mpr hb

theorem grantsAll_cons_iff {capacity : Bytes} {m : OrdMap AllocationId Allocation}
    {a : Allocation} {as : List Allocation} :
    GrantsAll capacity m (a :: as) ↔
      Grants capacity m (.insert a) ∧ GrantsAll capacity (granted m (.insert a)) as := by
  unfold GrantsAll
  rw [List.forall_mem_cons, List.pairwise_cons]
  constructor
  · intro ⟨⟨ha, hall⟩, hhead, htail⟩
    exact ⟨ha, fun b hb => (grants_granted_insert_iff ha).mpr ⟨hall b hb, hhead b hb⟩, htail⟩
  · intro ⟨ha, hall, htail⟩
    have hiff := fun b hb => (grants_granted_insert_iff ha).mp (hall b hb)
    exact ⟨⟨ha, fun b hb => (hiff b hb).1⟩, fun b hb => (hiff b hb).2, htail⟩

theorem grantsAll_empty_iff {capacity : Bytes} {as : List Allocation} :
    GrantsAll capacity ∅ as ↔ Compatible capacity as := by
  have hnone : ∀ id, (∅ : OrdMap AllocationId Allocation).find? id = none := fun _ => rfl
  have hgrants : ∀ a, Grants capacity ∅ (.insert a) ↔
      0 < a.length.toNat ∧ a.offset.toNat + a.length.toNat ≤ capacity.toNat := by
    intro a
    simp [Grants, hnone]
  unfold GrantsAll Compatible
  simp only [hgrants]

end FragmentationGovernor.ResourceLayout

namespace FragmentationGovernor.Coordinator

open ResourceLayout

/-- A list of insertions goes through exactly when all are granted. -/
theorem insertAll_cases {l : ResourceLayout} (hl : l.Reachable) (as : List Allocation) :
    (GrantsAll l.capacity l.allocations as ∧ ∃ layout, insertAll as l = .ok (.ok layout)) ∨
      (¬ GrantsAll l.capacity l.allocations as ∧ ∃ e, insertAll as l = .ok (.error e)) := by
  induction as generalizing l with
  | nil => exact Or.inl ⟨⟨by simp, .nil⟩, l, rfl⟩
  | cons a rest ih =>
      rw [grantsAll_cons_iff, insertAll]
      rcases hl.valid.answer_cases (.insert a) with
        ⟨hgrant, l', hins, -, hcap, halloc⟩ | ⟨hnot, e, hins⟩
      · change l.insertAllocation a = _ at hins
        obtain ⟨l₁, reply, heq, hl', -⟩ := hl.insertAllocation a
        rw [hins] at heq
        cases heq
        rw [hins, ok_bind]
        rcases ih hl' with ⟨hall, hok⟩ | ⟨hnot, herr⟩
        · rw [hcap, halloc] at hall
          exact Or.inl ⟨⟨hgrant, hall⟩, hok⟩
        · rw [hcap, halloc] at hnot
          exact Or.inr ⟨fun h => hnot h.2, herr⟩
      · change l.insertAllocation a = _ at hins
        rw [hins, ok_bind]
        exact Or.inr ⟨fun h => hnot h.1, e, rfl⟩

theorem insertAll_ofCapacity_cases (capacity : Bytes) (as : List Allocation) :
    (Compatible capacity as ∧ ∃ layout, insertAll as (.ofCapacity capacity) = .ok (.ok layout)) ∨
      (¬ Compatible capacity as ∧ ∃ e, insertAll as (.ofCapacity capacity) = .ok (.error e)) := by
  have hcases := insertAll_cases (.ofCapacity capacity) as
  rw [capacity_ofCapacity, allocations_ofCapacity, grantsAll_empty_iff] at hcases
  exact hcases

/-- The order of the insertions does not matter. -/
theorem insertAll_ofCapacity_perm {capacity : Bytes} {as bs : List Allocation}
    {layout layout' : ResourceLayout} (hperm : as.Perm bs)
    (h : insertAll as (.ofCapacity capacity) = .ok (.ok layout))
    (h' : insertAll bs (.ofCapacity capacity) = .ok (.ok layout')) : layout = layout' := by
  obtain ⟨hreach, hcap⟩ := insertAll_reachable (.ofCapacity capacity) h
  obtain ⟨hreach', hcap'⟩ := insertAll_reachable (.ofCapacity capacity) h'
  refine hreach.valid.eq_of_allocations hreach'.valid (hcap.trans hcap'.symm) ?_
  apply OrdMap.ext_find?
  intro id
  apply Option.ext
  intro a
  rw [find?_insertAll_iff h, find?_insertAll_iff h', hperm.mem_iff]

/-! ## The message -/

/-- The worker may publish this layout on the record it owns. -/
structure Acceptable (c : Coordinator) (m : Message) (rec : WorkerResourceRecord) : Prop where
  authentic : c.Authentic m
  found : c.resources.find? m.resource.id = some rec
  owner : rec.worker = m.worker
  current : ¬ m.resourceGen < rec.resource.generation.value
  compatible : Compatible rec.resource.capacity m.allocations

theorem Consistent.publishLayout_cases {c : Coordinator} (h : c.Consistent)
    (fs : Codec.SaveOutcome) {m : Message} (htype : m.type = .publishLayout) :
    (∃ rec layout, c.Acceptable m rec ∧
        insertAll m.allocations (.ofCapacity rec.resource.capacity) = .ok (.ok layout) ∧
        handle fs c m = (c.store m.resource.id { rec with layout := layout }).accept) ∨
      (¬ ∃ rec, c.Acceptable m rec) ∧ ∃ why, handle fs c m = c.reject why := by
  have hhandle : handle fs c m = c.handlePublishLayout m := by
    simp only [handle, htype]
  rw [hhandle, handlePublishLayout]
  by_cases hauth : c.Authentic m
  · rw [hauth.fromWorker_eq]
    cases hrec : c.resources.find? m.resource.id with
    | none =>
        refine Or.inr ⟨?_, _, rfl⟩
        rintro ⟨rec, hacc⟩
        cases hrec.symm.trans hacc.found
    | some rec =>
        have hsame : ∀ rec', c.Acceptable m rec' → rec' = rec := fun rec' hacc =>
          Option.some.inj (hacc.found.symm.trans hrec)
        dsimp only
        by_cases howner : rec.worker ≠ m.worker
        · rw [if_pos howner]
          refine Or.inr ⟨?_, _, rfl⟩
          rintro ⟨rec', hacc⟩
          exact howner (hsame rec' hacc ▸ hacc.owner)
        · rw [if_neg howner]
          by_cases hgen : m.resourceGen < rec.resource.generation.value
          · rw [if_pos hgen]
            refine Or.inr ⟨?_, _, rfl⟩
            rintro ⟨rec', hacc⟩
            exact (hsame rec' hacc ▸ hacc.current) hgen
          · rw [if_neg hgen]
            rcases insertAll_ofCapacity_cases rec.resource.capacity m.allocations with
              ⟨hcompatible, layout, hins⟩ | ⟨hnot, e, hins⟩
            · rw [hins]
              exact Or.inl ⟨rec, layout, ⟨hauth, hrec, not_not.mp howner, hgen, hcompatible⟩,
                hins, rfl⟩
            · rw [hins]
              refine Or.inr ⟨?_, _, rfl⟩
              rintro ⟨rec', hacc⟩
              exact hnot (hsame rec' hacc ▸ hacc.compatible)
  · rcases h.fromWorker_cases m _ with ⟨h', -⟩ | ⟨why, heq⟩
    · exact (hauth h').elim
    · rw [heq]
      refine Or.inr ⟨?_, why, rfl⟩
      rintro ⟨rec, hacc⟩
      exact hauth hacc.authentic

/-- After every run: a PUBLISH_LAYOUT is accepted exactly when the worker and the record it
names are in order and the allocations can stand together in an empty layout; whatever the
order of the allocations, it is accepted or not and leads to the same coordinator, which is
the one before it when it is not accepted. -/
theorem layout_published_as_set (epoch : CoordinatorEpoch) (events : List Event)
    (fs : Codec.SaveOutcome) (m : Message) (htype : m.type = .publishLayout) :
    let c := runFrom step (new epoch) events
    (Accepted (handle fs c m) ↔ ∃ rec, c.Acceptable m rec) ∧
      (¬ Accepted (handle fs c m) → (handle fs c m).1 = c) ∧
      ∀ as, as.Perm m.allocations →
        (Accepted (handle fs c { m with allocations := as }) ↔ Accepted (handle fs c m)) ∧
          (handle fs c { m with allocations := as }).1 = (handle fs c m).1 := by
  have hcons := consistent_run epoch events
  generalize runFrom step (new epoch) events = c at hcons ⊢
  have hperm : ∀ as, as.Perm m.allocations → ∀ rec,
      c.Acceptable { m with allocations := as } rec ↔ c.Acceptable m rec := by
    intro as has rec
    constructor
    · intro ⟨hauth, hfound, howner, hcurrent, hcompatible⟩
      exact ⟨hauth, hfound, howner, hcurrent, (compatible_perm has).mp hcompatible⟩
    · intro ⟨hauth, hfound, howner, hcurrent, hcompatible⟩
      exact ⟨hauth, hfound, howner, hcurrent, (compatible_perm has).mpr hcompatible⟩
  rcases hcons.publishLayout_cases fs htype with
    ⟨rec, layout, hacc, hins, hhandle⟩ | ⟨hnot, why, hhandle⟩
  · have haccepted : Accepted (handle fs c m) := hhandle ▸ accepted_accept _
    refine ⟨iff_of_true haccepted ⟨rec, hacc⟩, fun h => (h haccepted).elim, fun as has => ?_⟩
    have hacc' := (hperm as has rec).mpr hacc
    rcases @Consistent.publishLayout_cases c hcons fs { m with allocations := as } htype with
      ⟨rec', layout', hacc₂, hins', hhandle'⟩ | ⟨hnot, -⟩
    · obtain rfl : rec' = rec := Option.some.inj (hacc₂.found.symm.trans hacc'.found)
      obtain rfl := insertAll_ofCapacity_perm has hins' hins
      rw [hhandle', hhandle]
      exact ⟨iff_of_true (accepted_accept _) (accepted_accept _), rfl⟩
    · exact (hnot ⟨rec, hacc'⟩).elim
  · have hrejected : ¬ Accepted (handle fs c m) := hhandle ▸ not_accepted_reject c why
    refine ⟨iff_of_false hrejected hnot, fun _ => by rw [hhandle]; rfl, fun as has => ?_⟩
    rcases @Consistent.publishLayout_cases c hcons fs { m with allocations := as } htype with
      ⟨rec', -, hacc', -⟩ | ⟨-, why', hhandle'⟩
    · exact (hnot ⟨rec', (hperm as has rec').mp hacc'⟩).elim
    · rw [hhandle', hhandle]
      exact ⟨iff_of_false (not_accepted_reject c why') (not_accepted_reject c why), rfl⟩

/-- The upper half of the small resource. -/
def upper : Allocation := { scratch with id := ⟨2⟩, offset := ⟨50⟩ }

theorem layout_published_as_set_halves :
    let c := runFrom step (new ⟨1⟩)
      ([.register 1 1, .publishResource 1 1 smallResource].map (.message disk))
    Accepted (handle disk c (.publishLayout 1 1 smallResource [scratch, upper])) ∧
      (handle disk c (.publishLayout 1 1 smallResource [upper, scratch])).1 =
        (handle disk c (.publishLayout 1 1 smallResource [scratch, upper])).1 := by
  obtain ⟨-, -, horder⟩ := layout_published_as_set ⟨1⟩
    ([.register 1 1, .publishResource 1 1 smallResource].map (.message disk)) disk
    (.publishLayout 1 1 smallResource [scratch, upper]) rfl
  refine ⟨accepted_iff.mpr (by decide +kernel), ?_⟩
  exact (horder [upper, scratch] (List.Perm.swap scratch upper [])).2

end FragmentationGovernor.Coordinator
