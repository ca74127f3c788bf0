import FragmentationGovernor.Library.Run
import FragmentationGovernor.Verification.Coordinator.Effect

/-! # Every run keeps the maps consistent -/

namespace FragmentationGovernor.Coordinator

/-! ## Edits that do not touch the evidence -/

/-- The two coordinators hold the same evidence and liveness maps. -/
structure SameEvidence (c c' : Coordinator) : Prop where
  resources : c'.resources = c.resources
  workerBoot : c'.workerBoot = c.workerBoot
  workerAlive : c'.workerAlive = c.workerAlive

theorem Consistent.of_same {c c' : Coordinator} (h : c.Consistent) (hs : SameEvidence c c') :
    c'.Consistent := by
  refine ⟨?_, ?_, ?_, ?_, ?_⟩
  · rw [hs.workerBoot, hs.workerAlive]
    exact h.bootKnown
  · rw [hs.resources]
    exact h.keyed
  · rw [hs.resources]
    exact h.reachable
  · rw [hs.resources]
    exact h.capacity
  · rw [hs.resources, hs.workerBoot, hs.workerAlive]
    exact h.current

theorem sameEvidence_setState (c : Coordinator) (p : RemediationPlan)
    (key : FragmentationPlanId) (state : PlanState) :
    SameEvidence c (c.setState p key state) := ⟨rfl, rfl, rfl⟩

theorem sameEvidence_recordDemand (c : Coordinator) (m : Message) :
    SameEvidence c (c.recordDemand m) := ⟨rfl, rfl, rfl⟩

theorem sameEvidence_adopt (c : Coordinator) (m : Message) (plan : RemediationPlan)
    (s : FragmentationSnapshot) : SameEvidence c ((c.recordDemand m).adopt plan s) :=
  ⟨rfl, rfl, rfl⟩

theorem sameEvidence_advance (c : Coordinator) (kind : ℕ) : SameEvidence c (c.advance kind) := by
  unfold advance
  split <;> exact ⟨rfl, rfl, rfl⟩

/-! ## Edits of the evidence -/

@[simp] theorem store_resources (c : Coordinator) (rid : ResourceId)
    (rec : WorkerResourceRecord) :
    (c.store rid rec).resources = c.resources.insert rid rec := rfl

/-- Storing a record that satisfies the agreement keeps it. -/
theorem Consistent.store {c : Coordinator} (h : c.Consistent) {rid : ResourceId}
    {rec : WorkerResourceRecord} (hkey : rec.resource.id = rid) (hreach : rec.layout.Reachable)
    (hcap : rec.layout.capacity = rec.resource.capacity)
    (hcur : rec.alive = true → c.workerAlive.find? rec.worker = some true ∧
      c.workerBoot.find? rec.worker = some rec.boot) : (c.store rid rec).Consistent := by
  have hcases : ∀ {rid' rec'}, (c.store rid rec).resources.find? rid' = some rec' →
      (rid' = rid ∧ rec' = rec) ∨ c.resources.find? rid' = some rec' := by
    intro rid' rec' hfind
    rw [store_resources, OrdMap.find?_insert] at hfind
    by_cases hr : rid' = rid
    · rw [if_pos hr] at hfind
      cases hfind
      exact Or.inl ⟨hr, rfl⟩
    · rw [if_neg hr] at hfind
      exact Or.inr hfind
  refine ⟨h.bootKnown, ?_, ?_, ?_, ?_⟩
  · intro rid' rec' hfind
    rcases hcases hfind with ⟨rfl, rfl⟩ | hold
    · exact hkey
    · exact h.keyed hold
  · intro rid' rec' hfind
    rcases hcases hfind with ⟨rfl, rfl⟩ | hold
    · exact hreach
    · exact h.reachable hold
  · intro rid' rec' hfind
    rcases hcases hfind with ⟨rfl, rfl⟩ | hold
    · exact hcap
    · exact h.capacity hold
  · intro rid' rec' hfind halive
    rcases hcases hfind with ⟨rfl, rfl⟩ | hold
    · exact hcur halive
    · exact h.current hold halive

/-- Replacing the layout of a stored record by a reachable one of the same capacity. -/
theorem Consistent.store_layout {c : Coordinator} (h : c.Consistent) {rid : ResourceId}
    {rec : WorkerResourceRecord} (hrec : c.resources.find? rid = some rec)
    {layout : ResourceLayout} (hreach : layout.Reachable)
    (hcap : layout.capacity = rec.layout.capacity) :
    (c.store rid { rec with layout := layout }).Consistent := by
  have hkey := h.keyed hrec
  have hcur := h.current hrec
  exact h.store hkey hreach (hcap.trans (h.capacity hrec)) hcur

/-! Records after a death: only the alive flag of the worker's own records changes. -/

theorem find?_markWorkerDead_resources (c : Coordinator) (w : WorkerId) (rid : ResourceId) :
    (c.markWorkerDead w).resources.find? rid = (c.resources.find? rid).map (fun rec =>
      if rec.worker = w then { rec with alive := false } else rec) :=
  OrdMap.find?_mapVals _ _ _

/-- A record after a death comes from one before it; it is alive only when that one was
and belonged to another worker. -/
theorem markWorkerDead_record {c : Coordinator} {w : WorkerId} {rid : ResourceId}
    {rec : WorkerResourceRecord} (h : (c.markWorkerDead w).resources.find? rid = some rec) :
    ∃ old, c.resources.find? rid = some old ∧
      rec = { old with alive := old.alive && decide (old.worker ≠ w) } := by
  rw [find?_markWorkerDead_resources, Option.map_eq_some_iff] at h
  obtain ⟨old, hold, hrec⟩ := h
  refine ⟨old, hold, ?_⟩
  by_cases hw : old.worker = w
  · rw [if_pos hw] at hrec
    simp [← hrec, hw]
  · rw [if_neg hw] at hrec
    simp [← hrec, hw]

theorem find?_markWorkerDead_alive (c : Coordinator) (w w' : WorkerId) :
    (c.markWorkerDead w).workerAlive.find? w' =
      if w' = w then (c.workerAlive.find? w).map (fun _ => false)
      else c.workerAlive.find? w' := by
  change (if c.workerAlive.contains w then c.workerAlive.insert w false
    else c.workerAlive).find? w' = _
  by_cases hc : c.workerAlive.contains w = true
  · obtain ⟨b, hb⟩ := OrdMap.contains_iff.mp hc
    rw [if_pos hc, OrdMap.find?_insert, hb, Option.map_some]
    by_cases hw : w' = w
    · rw [if_pos hw, if_pos hw]
    · rw [if_neg hw, if_neg hw]
  · have hnone := OrdMap.not_contains_iff.mp (by simpa using hc)
    rw [if_neg hc, hnone]
    by_cases hw : w' = w
    · rw [if_pos hw, hw, hnone]
      rfl
    · rw [if_neg hw]

theorem Consistent.markWorkerDead {c : Coordinator} (h : c.Consistent) (w : WorkerId) :
    (c.markWorkerDead w).Consistent := by
  refine ⟨?_, ?_, ?_, ?_, ?_⟩
  · intro w' b hb
    rw [find?_markWorkerDead_alive] at hb
    by_cases hw : w' = w
    · rw [if_pos hw, Option.map_eq_some_iff] at hb
      obtain ⟨b', hb', -⟩ := hb
      rw [hw]
      exact h.bootKnown hb'
    · rw [if_neg hw] at hb
      exact h.bootKnown hb
  · intro rid rec hrec
    obtain ⟨old, hold, rfl⟩ := markWorkerDead_record hrec
    have hfield := h.keyed hold
    exact hfield
  · intro rid rec hrec
    obtain ⟨old, hold, rfl⟩ := markWorkerDead_record hrec
    have hfield := h.reachable hold
    exact hfield
  · intro rid rec hrec
    obtain ⟨old, hold, rfl⟩ := markWorkerDead_record hrec
    have hfield := h.capacity hold
    exact hfield
  · intro rid rec hrec halive
    obtain ⟨old, hold, rfl⟩ := markWorkerDead_record hrec
    simp only [Bool.and_eq_true, decide_eq_true_eq] at halive
    obtain ⟨halive, hboot⟩ := And.intro (h.current hold halive.1).1 (h.current hold halive.1).2
    rw [find?_markWorkerDead_alive, if_neg (by tauto)]
    exact ⟨halive, hboot⟩

/-! ## Registration -/

/-- After `dropStale` no live record of the registering worker has another boot id. -/
theorem Consistent.dropStale {c : Coordinator} (h : c.Consistent) (m : Message) :
    (c.dropStale m).Consistent ∧
      ∀ {rid rec}, (c.dropStale m).resources.find? rid = some rec → rec.alive = true →
        rec.worker = m.worker → rec.boot = ⟨m.workerBoot⟩ := by
  rcases dropStale_cases c m with ⟨heq, hboot⟩ | ⟨heq, -⟩
  · rw [heq]
    refine ⟨h, ?_⟩
    intro rid rec hrec halive hw
    have hcur := (h.current hrec halive).2
    rw [hw] at hcur
    rw [← hboot rec.boot hcur]
  · rw [heq]
    refine ⟨h.markWorkerDead m.worker, ?_⟩
    intro rid rec hrec halive hw
    obtain ⟨old, hold, rfl⟩ := markWorkerDead_record hrec
    simp only [Bool.and_eq_true, decide_eq_true_eq] at halive
    exact (halive.2 hw).elim

theorem Consistent.register {c : Coordinator} (h : c.Consistent) (m : Message) :
    (c.register m).Consistent := by
  obtain ⟨hdrop, hboot⟩ := h.dropStale m
  refine ⟨?_, hdrop.keyed, hdrop.reachable, hdrop.capacity, ?_⟩
  · intro w b hb
    change ((c.dropStale m).workerAlive.insert m.worker true).find? w = some b at hb
    change ∃ boot, ((c.dropStale m).workerBoot.insert m.worker ⟨m.workerBoot⟩).find? w = some boot
    rw [OrdMap.find?_insert] at hb ⊢
    by_cases hw : w = m.worker
    · rw [if_pos hw]
      exact ⟨_, rfl⟩
    · rw [if_neg hw] at hb ⊢
      exact hdrop.bootKnown hb
  · intro rid rec hrec halive
    change ((c.dropStale m).workerAlive.insert m.worker true).find? rec.worker = _ ∧
      ((c.dropStale m).workerBoot.insert m.worker ⟨m.workerBoot⟩).find? rec.worker = _
    rw [OrdMap.find?_insert, OrdMap.find?_insert]
    by_cases hw : rec.worker = m.worker
    · rw [if_pos hw, if_pos hw, hboot hrec halive hw]
      exact ⟨rfl, rfl⟩
    · rw [if_neg hw, if_neg hw]
      exact hdrop.current hrec halive

/-! ## Publications -/

theorem insertAll_reachable {allocs : List Allocation} {l layout : ResourceLayout}
    (hl : l.Reachable) (h : insertAll allocs l = .ok (.ok layout)) :
    layout.Reachable ∧ layout.capacity = l.capacity := by
  induction allocs generalizing l with
  | nil =>
      simp only [insertAll, Except.ok.injEq] at h
      exact ⟨h ▸ hl, by rw [h]⟩
  | cons a rest ih =>
      obtain ⟨l', reply, hins, hl', hcap⟩ := hl.insertAllocation a
      simp only [insertAll] at h
      rw [hins, ok_bind] at h
      cases reply with
      | error e => cases h
      | ok u =>
          obtain ⟨hreach, hcap'⟩ := ih hl' h
          exact ⟨hreach, hcap'.trans hcap⟩

/-- A published layout holds what was there before and exactly the published allocations. -/
theorem insertAll_perm {as : List Allocation} {l layout : ResourceLayout} (hl : l.Reachable)
    (h : insertAll as l = .ok (.ok layout)) :
    layout.allocations.entries.Perm (l.allocations.entries ++ as.map (fun a => (a.id, a))) := by
  induction as generalizing l with
  | nil =>
      simp only [insertAll, Except.ok.injEq] at h
      rw [h, List.map_nil, List.append_nil]
  | cons a rest ih =>
      obtain ⟨l', reply, hins, hl', -⟩ := hl.insertAllocation a
      simp only [insertAll] at h
      rw [hins, ok_bind] at h
      cases reply with
      | error e => cases h
      | ok u =>
          obtain ⟨hinsertable, halloc, -⟩ := hl.valid.of_insertAllocation_ok hins
          have hperm := OrdMap.entries_insert_perm a hinsertable.new
          rw [← halloc] at hperm
          rw [List.map_cons]
          exact ((ih hl' h).trans (hperm.append_right _)).trans List.perm_middle.symm

theorem allocations_ofCapacity (capacity : Bytes) :
    (ResourceLayout.ofCapacity capacity).allocations = ∅ := by
  unfold ResourceLayout.ofCapacity
  split <;> rfl

/-- The allocations of a layout published afresh. -/
theorem find?_insertAll_iff {as : List Allocation} {capacity : Bytes} {layout : ResourceLayout}
    (h : insertAll as (.ofCapacity capacity) = .ok (.ok layout)) {id : AllocationId}
    {a : Allocation} : layout.allocations.find? id = some a ↔ a ∈ as ∧ a.id = id := by
  have hperm := insertAll_perm (.ofCapacity capacity) h
  rw [allocations_ofCapacity] at hperm
  rw [OrdMap.find?_eq_some_iff, hperm.mem_iff]
  change (id, a) ∈ [] ++ as.map (fun a => (a.id, a)) ↔ _
  rw [List.nil_append, List.mem_map]
  constructor
  · rintro ⟨b, hb, heq⟩
    cases heq
    exact ⟨hb, rfl⟩
  · rintro ⟨ha, rfl⟩
    exact ⟨a, ha, rfl⟩

theorem Consistent.layout_of_insert {c : Coordinator} (h : c.Consistent) {rid : ResourceId}
    {rec : WorkerResourceRecord} (hrec : c.resources.find? rid = some rec) {a : Allocation}
    {layout : ResourceLayout} {reply : LayoutReply}
    (hins : rec.layout.insertAllocation a = .ok (layout, reply)) :
    layout.Reachable ∧ layout.capacity = rec.layout.capacity := by
  obtain ⟨l', reply', heq, hreach, hcap⟩ := (h.reachable hrec).insertAllocation a
  rw [hins] at heq
  cases heq
  exact ⟨hreach, hcap⟩

theorem Consistent.layout_of_remove {c : Coordinator} (h : c.Consistent) {rid : ResourceId}
    {rec : WorkerResourceRecord} (hrec : c.resources.find? rid = some rec) {id : AllocationId}
    {layout : ResourceLayout} {reply : LayoutReply}
    (hrem : rec.layout.removeAllocation id = .ok (layout, reply)) :
    layout.Reachable ∧ layout.capacity = rec.layout.capacity := by
  obtain ⟨l', reply', heq, hreach, hcap⟩ := (h.reachable hrec).removeAllocation id
  rw [hrem] at heq
  cases heq
  exact ⟨hreach, hcap⟩

theorem Consistent.publishedResource {c : Coordinator} (h : c.Consistent) {m : Message}
    (hauth : c.Authentic m) : (c.store m.resource.id (freshRecord m)).Consistent :=
  h.store rfl (.ofCapacity _) (ResourceLayout.capacity_ofCapacity _) (fun _ => hauth)

theorem Consistent.publishedLayout {c : Coordinator} (h : c.Consistent) {rid : ResourceId}
    {rec : WorkerResourceRecord} (hrec : c.resources.find? rid = some rec)
    {allocs : List Allocation} {layout : ResourceLayout}
    (hins : insertAll allocs (.ofCapacity rec.resource.capacity) = .ok (.ok layout)) :
    (c.store rid { rec with layout := layout }).Consistent := by
  obtain ⟨hreach, hcap⟩ := insertAll_reachable (.ofCapacity _) hins
  refine h.store_layout hrec hreach ?_
  rw [hcap, ResourceLayout.capacity_ofCapacity, h.capacity hrec]

/-! ## Steps and runs -/

/-- Every effect keeps the maps consistent. -/
theorem Consistent.of_effect {c : Coordinator} (h : c.Consistent) {m : Message} {o : Outcome}
    (he : Effect c m o) : o.1.Consistent := by
  cases he with
  | silent _ => exact h
  | rejected _ => exact h
  | raised _ => exact h
  | answered _ _ => exact h
  | saved _ => exact h
  | registered _ _ => exact h.register m
  | publishedResource _ hauth _ => exact h.publishedResource hauth
  | publishedLayout _ _ hrec _ _ hins => exact h.publishedLayout hrec hins
  | publishedAllocation _ _ hrec hins =>
      obtain ⟨hreach, hcap⟩ := h.layout_of_insert hrec hins
      exact h.store_layout hrec hreach hcap
  | invalidated _ _ hrec _ hrem =>
      obtain ⟨hreach, hcap⟩ := h.layout_of_remove hrec hrem
      exact h.store_layout hrec hreach hcap
  | planRaised _ _ => exact h.of_same (sameEvidence_recordDemand c m)
  | planRefused _ _ => exact h.of_same (sameEvidence_recordDemand c m)
  | planned _ _ => exact h.of_same (sameEvidence_adopt c m _ _)
  | approved _ _ _ _ => exact h.of_same (sameEvidence_setState c _ _ _)
  | began _ _ _ _ _ => exact h.of_same (sameEvidence_setState c _ _ _)
  | skipped _ _ _ _ _ => exact h.of_same (sameEvidence_setState c _ _ _)
  | completed _ _ _ _ _ _ hrec hrem =>
      obtain ⟨hreach, hcap⟩ := h.layout_of_remove hrec hrem
      exact (h.store_layout hrec hreach hcap).of_same (sameEvidence_setState _ _ _ _)
  | verified _ _ _ _ _ => exact h.of_same (sameEvidence_setState c _ _ _)
  | cancelled _ _ => exact h.of_same (sameEvidence_setState c _ _ _)
  | revalidated _ _ => exact h.of_same (sameEvidence_setState c _ _ _)
  | advanced _ _ => exact h.of_same (sameEvidence_advance c _)

/-- A recovery that returns leaves no evidence at all; one that raises leaves it alone. -/
theorem recover_evidence (c : Coordinator) (st : PersistedState) :
    SameEvidence c (c.recover st).1 ∨
      ((c.recover st).1.resources = ∅ ∧ (c.recover st).1.workerBoot = ∅ ∧
        (c.recover st).1.workerAlive = ∅) := by
  obtain ⟨plans, -, heq | heq⟩ := recover_cases c st
  · rw [heq]
    exact Or.inl ⟨rfl, rfl, rfl⟩
  · rw [heq]
    exact Or.inr ⟨rfl, rfl, rfl⟩

theorem Consistent.recover {c : Coordinator} (h : c.Consistent) (st : PersistedState) :
    (c.recover st).1.Consistent := by
  rcases recover_evidence c st with hsame | ⟨hres, hboot, halive⟩
  · exact h.of_same hsame
  · refine ⟨?_, ?_, ?_, ?_, ?_⟩
    · intro w b hb
      rw [halive] at hb
      cases hb
    all_goals
      intro rid rec hrec
      rw [hres] at hrec
      cases hrec

theorem Consistent.step {c : Coordinator} (h : c.Consistent) (e : Event) :
    (c.step e).Consistent := by
  cases e with
  | message fs m => exact h.of_effect (h.handle_effect fs m)
  | workerDead w => exact h.markWorkerDead w
  | recover st => exact h.recover st
  | advancePolicy => exact h.of_same ⟨rfl, rfl, rfl⟩

theorem consistent_new (epoch : CoordinatorEpoch) : (new epoch).Consistent := by
  refine ⟨?_, ?_, ?_, ?_, ?_⟩
  · intro w b hb
    cases hb
  all_goals
    intro rid rec hrec
    cases hrec

/-- The maps of a coordinator agree after every run. -/
theorem consistent_run (epoch : CoordinatorEpoch) (events : List Event) :
    (runFrom step (new epoch) events).Consistent :=
  runFrom_invariant (consistent_new epoch) (fun _ e h => h.step e) events

/-- An invariant that every step meeting `cond` keeps on consistent maps holds at the end
of every run whose steps all meet it. -/
theorem run_induction {inv : Coordinator → Prop} {cond : Coordinator → Event → Prop}
    {epoch : CoordinatorEpoch} {events : List Event} (h0 : inv (new epoch))
    (hstep : ∀ {c : Coordinator} {e : Event}, c.Consistent → inv c → cond c e → inv (c.step e))
    (hall : AllSteps step cond (new epoch) events) : inv (runFrom step (new epoch) events) := by
  have hinv : (runFrom step (new epoch) events).Consistent ∧
      inv (runFrom step (new epoch) events) := by
    refine @runFrom_induction _ _ _ _ _ (fun c : Coordinator => c.Consistent ∧ inv c)
      ⟨consistent_new epoch, h0⟩ ?_ _ hall
    intro c e hc hcond
    exact ⟨hc.1.step e, hstep hc.1 hc.2 hcond⟩
  exact hinv.2

/-- The rule without a condition on the steps. -/
theorem run_invariant {inv : Coordinator → Prop} {epoch : CoordinatorEpoch}
    (h0 : inv (new epoch))
    (hstep : ∀ {c : Coordinator} (e : Event), c.Consistent → inv c → inv (c.step e))
    (events : List Event) : inv (runFrom step (new epoch) events) := by
  have hinv : (runFrom step (new epoch) events).Consistent ∧
      inv (runFrom step (new epoch) events) := by
    refine @runFrom_invariant _ _ _ _ (fun c : Coordinator => c.Consistent ∧ inv c)
      ⟨consistent_new epoch, h0⟩ ?_ events
    intro c e hc
    exact ⟨hc.1.step e, hstep e hc.1 hc.2⟩
  exact hinv.2

end FragmentationGovernor.Coordinator
