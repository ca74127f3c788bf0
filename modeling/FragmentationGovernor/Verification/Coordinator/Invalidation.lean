import FragmentationGovernor.Verification.Coordinator.Visibility

/-! # What an invalidation reaches

An invalidation edits a single record of its worker, the first in the order of the resource ids
that holds the allocation, whether or not it is marked alive. -/

namespace FragmentationGovernor.Coordinator

/-! ## The edited record -/

/-- The first record that holds the allocation for the worker. -/
structure FirstHolder (c : Coordinator) (w : WorkerId) (id : AllocationId) (rid : ResourceId)
    (rec : WorkerResourceRecord) : Prop where
  found : c.resources.find? rid = some rec
  holds : HoldsFor rec w id
  first : ∀ rid' rec', c.resources.find? rid' = some rec' → HoldsFor rec' w id → rid ≤ rid'

theorem handle_invalidateAllocation {fs : Codec.SaveOutcome} {c : Coordinator} {m : Message}
    (h : m.type = .invalidateAllocation) : handle fs c m = c.handleInvalidateAllocation m := by
  simp only [handle, h]

/-- An invalidation from a current worker is rejected when no record of the worker holds the
allocation, and removes it from the first one otherwise. -/
theorem Consistent.handleInvalidateAllocation_cases {c : Coordinator} {m : Message}
    (h : c.Consistent) (hauth : c.Authentic m) :
    (c.handleInvalidateAllocation m = c.reject "allocation not found" ∧
      ∀ rid rec, c.resources.find? rid = some rec → ¬ HoldsFor rec m.worker ⟨m.allocationId⟩) ∨
    ∃ rid rec layout, FirstHolder c m.worker ⟨m.allocationId⟩ rid rec ∧
      rec.layout.removeAllocation ⟨m.allocationId⟩ = .ok (layout, .ok ()) ∧
      c.handleInvalidateAllocation m =
        accept ({ c with resources := c.resources.insert rid { rec with layout := layout } }
          ).advanceResourceGeneration := by
  rw [handleInvalidateAllocation, hauth.fromWorker_eq]
  rcases h.removeFirst_cases m.worker ⟨m.allocationId⟩ c.resources.entries
      (fun e he => OrdMap.find?_eq_some_iff.mpr he) with
    ⟨hnone, hall⟩ | ⟨front, rid, rec, back, layout, hsplit, hfront, hholds, hrem, hsome⟩
  · rw [hnone]
    exact Or.inl ⟨rfl, fun rid rec hrec => hall (rid, rec) (OrdMap.find?_eq_some_iff.mp hrec)⟩
  · rw [hsome]
    refine Or.inr ⟨rid, rec, layout, ⟨OrdMap.find?_of_split hsplit, hholds, ?_⟩, hrem, rfl⟩
    intro rid' rec' hrec' hholds'
    have hmem := OrdMap.find?_eq_some_iff.mp hrec'
    rw [hsplit, List.mem_append, List.mem_cons] at hmem
    rcases hmem with hmem | heq | hmem
    · exact absurd hholds' (hfront _ hmem)
    · exact (congrArg Prod.fst heq).ge
    · exact ((OrdMap.lt_of_split hsplit).2 _ hmem).le

/-! ## What is left -/

/-- No record marked alive holds the allocation for the worker. -/
def Withheld (c : Coordinator) (w : WorkerId) (id : AllocationId) : Prop :=
  ∀ rid rec, c.resources.find? rid = some rec → rec.alive = true → ¬ HoldsFor rec w id

/-- A record marked alive that holds the allocation for the worker is the first to do so. -/
def Unshadowed (c : Coordinator) (w : WorkerId) (id : AllocationId) : Prop :=
  ∀ rid rec, c.resources.find? rid = some rec → rec.alive = true → HoldsFor rec w id →
    ∀ rid' rec', c.resources.find? rid' = some rec' → HoldsFor rec' w id → rid ≤ rid'

/-- Without the allocation in the first record that holds it, none marked alive holds it
exactly when no other one did. -/
theorem FirstHolder.withheld_iff {c : Coordinator} {w : WorkerId} {id : AllocationId}
    {rid : ResourceId} {rec : WorkerResourceRecord} {layout : ResourceLayout}
    (h : FirstHolder c w id rid rec) (hgone : layout.findAllocation id = none) (c' : Coordinator)
    (hc' : c'.resources = c.resources.insert rid { rec with layout := layout }) :
    Withheld c' w id ↔ Unshadowed c w id := by
  rw [Withheld, hc']
  constructor
  · intro hclear rid' rec' hrec' halive hholds rid'' rec'' hrec'' hholds''
    by_cases hr : rid' = rid
    · rw [hr]
      exact h.first rid'' rec'' hrec'' hholds''
    · refine absurd hholds (hclear rid' rec' ?_ halive)
      rw [OrdMap.find?_insert_of_ne _ _ hr, hrec']
  · intro hfirst rid' rec' hrec' halive hholds
    by_cases hr : rid' = rid
    · rw [hr, OrdMap.find?_insert_self] at hrec'
      cases hrec'
      obtain ⟨-, a, ha⟩ := hholds
      rw [hgone] at ha
      cases ha
    · rw [OrdMap.find?_insert_of_ne _ _ hr] at hrec'
      have hle := hfirst rid' rec' hrec' halive hholds rid rec h.found h.holds
      exact hr (le_antisymm hle (h.first rid' rec' hrec' hholds))

/-- After every run: an accepted invalidation leaves the allocation in no record of the worker
marked alive, if and only if such a record that held it was the first of all to do so. -/
theorem invalidation_reaches_iff (epoch : CoordinatorEpoch) (events : List Event)
    (fs : Codec.SaveOutcome) (m : Message) (htype : m.type = .invalidateAllocation) :
    (Accepted (handle fs (runFrom step (new epoch) events) m) →
        Withheld (handle fs (runFrom step (new epoch) events) m).1 m.worker ⟨m.allocationId⟩) ↔
      ((runFrom step (new epoch) events).Authentic m →
        Unshadowed (runFrom step (new epoch) events) m.worker ⟨m.allocationId⟩) := by
  have hcons := consistent_run epoch events
  generalize runFrom step (new epoch) events = c at hcons ⊢
  rw [handle_invalidateAllocation htype]
  by_cases hauth : c.Authentic m
  · rcases hcons.handleInvalidateAllocation_cases hauth with
      ⟨hrej, hnone⟩ | ⟨rid, rec, layout, hfirst, hrem, hacc⟩
    · rw [hrej]
      refine iff_of_true (fun hacc => (not_accepted_reject c _ hacc).elim) (fun _ => ?_)
      exact fun rid rec hrec _ hholds => absurd hholds (hnone rid rec hrec)
    · have hgone : layout.findAllocation ⟨m.allocationId⟩ = none := by
        obtain ⟨-, a, ha⟩ := hfirst.holds
        obtain ⟨l', hrem', -, -, halloc⟩ :=
          (hcons.reachable hfirst.found).valid.removeAllocation_of_some ha
        rw [hrem] at hrem'
        cases hrem'
        rw [ResourceLayout.findAllocation, halloc, OrdMap.find?_erase, if_pos rfl]
      rw [hacc, imp_iff_right (accepted_accept _), imp_iff_right hauth]
      exact hfirst.withheld_iff hgone _ rfl
  · refine iff_of_true (fun hacc => ?_) (fun h => (hauth h).elim)
    rw [handleInvalidateAllocation] at hacc
    rcases hcons.fromWorker_cases m _ with ⟨hauth', -⟩ | ⟨why, hrej⟩
    · exact (hauth hauth').elim
    · rw [hrej] at hacc
      exact (not_accepted_reject c why hacc).elim

/-- Worker 1 publishes its resource with the allocation `scratch`. -/
def scratchRun : List Event :=
  resourceRun ++ [.message disk (.publishAllocation 1 1 smallResource scratch)]

/-- The incarnation of worker 1 with that boot id invalidates `scratch`. -/
def invalidateScratch (boot : UInt64) : Message :=
  { type := .invalidateAllocation, workerId := 1, workerBoot := boot, allocationId := 1 }

/-- The only record is edited. -/
theorem invalidation_reaches_iff_scratchRun :
    Accepted (handle disk (runFrom step (new ⟨1⟩) scratchRun) (invalidateScratch 1)) ∧
      Withheld (handle disk (runFrom step (new ⟨1⟩) scratchRun) (invalidateScratch 1)).1 ⟨1⟩
        ⟨1⟩ := by
  have hrun : ((reply? (handle disk (runFrom step (new ⟨1⟩) scratchRun) (invalidateScratch 1))).map
        (fun r => r.ok),
      (runFrom step (new ⟨1⟩) scratchRun).resources.entries.map (fun e => e.1)) =
      (some true, [⟨1⟩]) := by
    decide +kernel
  rw [Prod.mk.injEq] at hrun
  have hacc := accepted_iff.mpr hrun.1
  refine ⟨hacc, (invalidation_reaches_iff ⟨1⟩ scratchRun disk (invalidateScratch 1) rfl).mpr
    (fun _ => ?_) hacc⟩
  have honly : ∀ rid rec, (runFrom step (new ⟨1⟩) scratchRun).resources.find? rid = some rec →
      rid = ⟨1⟩ := by
    intro rid rec hrec
    have hmem := List.mem_map_of_mem (f := fun e => e.1) (OrdMap.find?_eq_some_iff.mp hrec)
    rw [hrun.2] at hmem
    exact List.mem_singleton.mp hmem
  intro rid rec hrec _ _ rid' rec' hrec' _
  rw [honly rid rec hrec, honly rid' rec' hrec']

/-- Worker 1 restarts with a new boot id, and publishes a second resource with `scratch`. -/
def restartedRun : List Event :=
  scratchRun ++
    [.register 1 2, .publishResource 1 2 { smallResource with id := ⟨2⟩ },
      .publishAllocation 1 2 { smallResource with id := ⟨2⟩ } scratch].map (.message disk)

/-- The record of its first incarnation is edited, and the live one still holds `scratch`. -/
theorem invalidation_stops_at_dead :
    ¬ ∀ (epoch : CoordinatorEpoch) (events : List Event) (fs : Codec.SaveOutcome) (m : Message),
      m.type = .invalidateAllocation →
      Accepted (handle fs (runFrom step (new epoch) events) m) →
      Withheld (handle fs (runFrom step (new epoch) events) m).1 m.worker ⟨m.allocationId⟩ := by
  intro h
  have hrun : ((reply? (handle disk (runFrom step (new ⟨1⟩) restartedRun)
        (invalidateScratch 2))).map (fun r => r.ok),
      ((handle disk (runFrom step (new ⟨1⟩) restartedRun)
        (invalidateScratch 2)).1.resources.find? ⟨2⟩).map
        (fun rec => (rec.alive, rec.worker, rec.layout.findAllocation ⟨1⟩))) =
      (some true, some (true, ⟨1⟩, some scratch)) := by
    decide +kernel
  rw [Prod.mk.injEq] at hrun
  obtain ⟨rec, hrec, hlive⟩ := Option.map_eq_some_iff.mp hrun.2
  rw [Prod.mk.injEq, Prod.mk.injEq] at hlive
  obtain ⟨halive, howner, hfind⟩ := hlive
  exact h ⟨1⟩ restartedRun disk (invalidateScratch 2) rfl (accepted_iff.mpr hrun.1) ⟨2⟩ rec hrec
    halive ⟨howner, scratch, hfind⟩

end FragmentationGovernor.Coordinator
