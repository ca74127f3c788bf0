import FragmentationGovernor.Verification.Coordinator.Consistency

/-! # What messages leave alone

Rejections against the whole state, and publications against the records of other
workers. -/

namespace FragmentationGovernor.Coordinator

/-! ## Rejected messages -/

/-- Apart from CREATE_PLAN, a message that is not answered positively changes nothing. -/
theorem Effect.eq_of_not_ok {c c' : Coordinator} {m reply : Message}
    (he : Effect c m (c', .ok [reply])) (htype : m.type ≠ .createPlan)
    (hok : reply.ok = false) : c' = c := by
  generalize ho : ((c', .ok [reply]) : Outcome) = o at he
  cases he with
  | silent _ => exact congrArg Prod.fst ho
  | rejected _ => exact congrArg Prod.fst ho
  | raised _ => exact congrArg Prod.fst ho
  | answered _ _ => exact congrArg Prod.fst ho
  | saved _ => exact congrArg Prod.fst ho
  | planRaised hplan _ => exact (htype hplan).elim
  | planRefused hplan _ => exact (htype hplan).elim
  | planned hplan _ => exact (htype hplan).elim
  | verified _ _ _ _ _ =>
      cases ho
      cases hok
  | _ =>
      cases ho
      cases hok

/-- A refused CREATE_PLAN has recorded its demand and done nothing else. -/
theorem handleCreatePlan_eq_of_not_ok {c c' : Coordinator} {m reply : Message}
    (h : c.handleCreatePlan m = (c', .ok [reply])) (hok : reply.ok = false) :
    c' = c.recordDemand m := by
  unfold handleCreatePlan at h
  cases hplan : c.proposePlan m.demand with
  | error e =>
      rw [hplan] at h
      cases h
  | ok r =>
      rw [hplan] at h
      cases r with
      | none =>
          cases h
          rfl
      | some plan =>
          cases h
          cases hok

theorem recordDemand_eq_self_iff (c : Coordinator) (m : Message) :
    c.recordDemand m = c ↔ m.demand = c.lastDemand := by
  constructor
  · intro h
    exact congrArg lastDemand h
  · intro h
    rw [recordDemand, h]

/-- In every state a run can reach, a message that is answered negatively leaves the
coordinator unchanged exactly when it is not a CREATE_PLAN with a new demand. -/
theorem rejected_unchanged_iff (epoch : CoordinatorEpoch) (events : List Event)
    (fs : Codec.SaveOutcome) (m reply : Message) (c' : Coordinator)
    (h : handle fs (runFrom step (new epoch) events) m = (c', .ok [reply]))
    (hok : reply.ok = false) :
    c' = runFrom step (new epoch) events ↔
      ¬ (m.type = .createPlan ∧ m.demand ≠ (runFrom step (new epoch) events).lastDemand) := by
  have hcons := consistent_run epoch events
  generalize runFrom step (new epoch) events = c at h hcons
  by_cases htype : m.type = .createPlan
  · rw [handle_createPlan htype] at h
    rw [handleCreatePlan_eq_of_not_ok h hok, recordDemand_eq_self_iff]
    simp [htype]
  · have he := hcons.handle_effect fs m
    rw [h] at he
    simp [he.eq_of_not_ok htype hok, htype]

/-- A demand no device can meet, so that its CREATE_PLAN is refused. -/
def unmetDemand : WorkloadDemand := { perDeviceMemory := ⟨100⟩ }

theorem rejected_unchanged_iff_unmetDemand :
    ∃ c' reply, handle ⟨true, 0, 0, true⟩ (runFrom step (new ⟨1⟩) [])
        (.createPlan unmetDemand) = (c', .ok [reply]) ∧ reply.ok = false ∧
      (c' = runFrom step (new ⟨1⟩) [] ↔
        ¬ ((Message.createPlan unmetDemand).type = .createPlan ∧
          (Message.createPlan unmetDemand).demand ≠ (runFrom step (new ⟨1⟩) []).lastDemand)) :=
  ⟨_, _, rfl, rfl, rejected_unchanged_iff ⟨1⟩ [] ⟨true, 0, 0, true⟩ _ _ _ rfl rfl⟩

/-- A refused CREATE_PLAN on a fresh coordinator changes it. -/
theorem rejected_createPlan_changes :
    ¬ ∀ (epoch : CoordinatorEpoch) (events : List Event) (fs : Codec.SaveOutcome)
      (m reply : Message) (c' : Coordinator),
      handle fs (runFrom step (new epoch) events) m = (c', .ok [reply]) → reply.ok = false →
        c' = runFrom step (new epoch) events := by
  intro h
  have hsame := h ⟨1⟩ [] ⟨true, 0, 0, true⟩ (.createPlan unmetDemand) _ _ rfl rfl
  exact absurd (congrArg lastDemand hsame) (by decide)

/-! ## Publications and the records of others -/

def IsPublication (t : MsgType) : Prop :=
  t = .publishResource ∨ t = .publishLayout ∨ t = .publishAllocation ∨
    t = .invalidateAllocation

/-- An authentic worker publishes over a record of another one: either the resource, with
a newer generation, or an allocation that fits its layout. -/
def Intrudes (c : Coordinator) (m : Message) : Prop :=
  c.Authentic m ∧ ∃ rec, c.resources.find? m.resource.id = some rec ∧ rec.worker ≠ m.worker ∧
    ((m.type = .publishResource ∧ rec.resource.generation.value < m.resource.generation.value) ∨
      (m.type = .publishAllocation ∧ rec.layout.Insertable m.allocation))

/-- Handling the message leaves the records of every other worker as they were. -/
def Isolated (fs : Codec.SaveOutcome) (c : Coordinator) (m : Message) : Prop :=
  ∀ rid rec, c.resources.find? rid = some rec → rec.worker ≠ m.worker →
    (handle fs c m).1.resources.find? rid = some rec

theorem staleResource_eq_false_iff {c : Coordinator} {m : Message} {rec : WorkerResourceRecord}
    (hrec : c.resources.find? m.resource.id = some rec) :
    c.staleResource m = false ↔
      rec.resource.generation.value < m.resource.generation.value := by
  rw [staleResource, hrec]
  simp

/-- Without an intrusion a publication only edits records of its own worker. -/
theorem Effect.isolated {c : Coordinator} (h : c.Consistent) {m : Message} {o : Outcome}
    (he : Effect c m o) (hm : IsPublication m.type) (hno : ¬ c.Intrudes m) {rid : ResourceId}
    {rec : WorkerResourceRecord} (hrec : c.resources.find? rid = some rec)
    (hother : rec.worker ≠ m.worker) : o.1.resources.find? rid = some rec := by
  -- a store at another key, or over a record of the worker itself, is harmless
  have hstore : ∀ {rid' : ResourceId} {new : WorkerResourceRecord}, rid ≠ rid' →
      (c.resources.insert rid' new).find? rid = some rec := by
    intro rid' new hne
    rw [OrdMap.find?_insert_of_ne _ _ hne]
    exact hrec
  have hown : ∀ {rid' : ResourceId} {old : WorkerResourceRecord},
      c.resources.find? rid' = some old → old.worker = m.worker → rid ≠ rid' := by
    intro rid' old hold hw hr
    rw [hr, hold] at hrec
    cases hrec
    exact hother hw
  cases he with
  | registered htype _ =>
      rw [htype] at hm
      simp [IsPublication] at hm
  | completed htype _ _ _ _ _ _ _ =>
      rw [htype] at hm
      simp [IsPublication] at hm
  | advanced htype _ =>
      rw [htype] at hm
      simp [IsPublication] at hm
  | publishedResource htype hauth hfresh =>
      refine hstore ?_
      intro hr
      rw [hr] at hrec
      exact hno ⟨hauth, rec, hrec, hother,
        Or.inl ⟨htype, (staleResource_eq_false_iff hrec).mp hfresh⟩⟩
  | publishedLayout _ _ hold howner _ _ => exact hstore (hown hold howner)
  | publishedAllocation htype hauth hold hins =>
      refine hstore ?_
      intro hr
      rw [hr, hold] at hrec
      cases hrec
      have hinsertable := ((h.reachable hold).valid.of_insertAllocation_ok hins).1
      exact hno ⟨hauth, rec, hold, hother, Or.inr ⟨htype, hinsertable⟩⟩
  | invalidated _ _ hold howner _ => exact hstore (hown hold howner)
  | _ => exact hrec

/-- An intrusion replaces the record of the other worker. -/
theorem Consistent.not_isolated_of_intrudes {c : Coordinator} (h : c.Consistent)
    (fs : Codec.SaveOutcome) {m : Message} (hin : c.Intrudes m) : ¬ Isolated fs c m := by
  obtain ⟨hauth, rec, hrec, hother, ⟨htype, hgen⟩ | ⟨htype, hins⟩⟩ := hin
  · intro hiso
    have heq : handle fs c m = (c.store m.resource.id (freshRecord m)).accept := by
      simp only [handle, htype]
      rw [handlePublishResource, hauth.fromWorker_eq,
        (staleResource_eq_false_iff hrec).mpr hgen]
      rfl
    have hafter := hiso _ rec hrec hother
    rw [heq] at hafter
    change (c.resources.insert m.resource.id (freshRecord m)).find? m.resource.id = _ at hafter
    rw [OrdMap.find?_insert_self] at hafter
    cases hafter
    exact hother rfl
  · intro hiso
    rcases (h.reachable hrec).valid.insertAllocation_cases m.allocation with
      ⟨e, -, hnot⟩ | ⟨layout, heq', hnew, -, -, halloc⟩
    · exact hnot hins
    · have heq : handle fs c m =
          (c.store m.resource.id { rec with layout := layout }).accept := by
        simp only [handle, htype]
        rw [handlePublishAllocation, hauth.fromWorker_eq, hrec]
        dsimp only
        rw [heq']
      have hafter := hiso _ rec hrec hother
      rw [heq] at hafter
      change (c.resources.insert m.resource.id
        { rec with layout := layout }).find? m.resource.id = _ at hafter
      rw [OrdMap.find?_insert_self, Option.some.injEq] at hafter
      have hlayout : layout = rec.layout := congrArg WorkerResourceRecord.layout hafter
      have hfound := OrdMap.find?_insert_self rec.layout.allocations m.allocation.id m.allocation
      rw [← halloc, hlayout, hnew.new] at hfound
      cases hfound

/-- In every state a run can reach, a publication leaves the records of other workers
alone exactly when it does not intrude on one of them. -/
theorem isolated_iff_not_intrudes (epoch : CoordinatorEpoch) (events : List Event)
    (fs : Codec.SaveOutcome) (m : Message) (hm : IsPublication m.type) :
    Isolated fs (runFrom step (new epoch) events) m ↔
      ¬ (runFrom step (new epoch) events).Intrudes m := by
  have hcons := consistent_run epoch events
  constructor
  · intro hiso hin
    exact hcons.not_isolated_of_intrudes fs hin hiso
  · intro hno rid rec hrec hother
    exact (hcons.handle_effect fs m).isolated hcons hm hno hrec hother

/-- A resource of 100 bytes owned by worker 1. -/
def ownedResource : Resource := { id := ⟨1⟩, generation := ⟨1⟩, capacity := ⟨100⟩ }

/-- Worker 1 publishes a resource, then worker 2 registers. -/
def twoWorkers : List Event :=
  [.register 1 1, .publishResource 1 1 ownedResource, .register 2 1].map
    (.message ⟨true, 0, 0, true⟩)

/-- Worker 2 puts an allocation into the resource of worker 1. -/
def foreignAllocation : Message :=
  .publishAllocation 2 1 ownedResource { id := ⟨7⟩, length := ⟨10⟩ }

theorem isolated_iff_not_intrudes_twoWorkers :
    IsPublication foreignAllocation.type ∧
      (Isolated ⟨true, 0, 0, true⟩ (runFrom step (new ⟨1⟩) twoWorkers) foreignAllocation ↔
        ¬ (runFrom step (new ⟨1⟩) twoWorkers).Intrudes foreignAllocation) :=
  ⟨Or.inr (Or.inr (Or.inl rfl)),
    isolated_iff_not_intrudes ⟨1⟩ twoWorkers ⟨true, 0, 0, true⟩ foreignAllocation
      (Or.inr (Or.inr (Or.inl rfl)))⟩

/-- The free capacity of the resource drops though its owner sent nothing. -/
theorem foreignAllocation_not_isolated :
    ¬ ∀ (epoch : CoordinatorEpoch) (events : List Event) (fs : Codec.SaveOutcome) (m : Message),
      IsPublication m.type → Isolated fs (runFrom step (new epoch) events) m := by
  intro h
  have hiso := h ⟨1⟩ twoWorkers ⟨true, 0, 0, true⟩ foreignAllocation (Or.inr (Or.inr (Or.inl rfl)))
  cases hrec : (runFrom step (new ⟨1⟩) twoWorkers).resources.find? ⟨1⟩ with
  | none =>
      revert hrec
      decide +kernel
  | some rec =>
      have hother : rec.worker ≠ foreignAllocation.worker := by
        have hw : (((runFrom step (new ⟨1⟩) twoWorkers).resources.find? ⟨1⟩).map
            (fun r => r.worker)) = some ⟨1⟩ := by decide +kernel
        rw [hrec, Option.map_some, Option.some.injEq] at hw
        rw [hw]
        decide
      have hafter := hiso ⟨1⟩ rec hrec hother
      have hchange : (((handle ⟨true, 0, 0, true⟩ (runFrom step (new ⟨1⟩) twoWorkers)
          foreignAllocation).1.resources.find? ⟨1⟩).map (fun r => r.layout.freeCapacity)) ≠
          (((runFrom step (new ⟨1⟩) twoWorkers).resources.find? ⟨1⟩).map
            (fun r => r.layout.freeCapacity)) := by decide +kernel
      rw [hafter, hrec] at hchange
      exact hchange rfl

end FragmentationGovernor.Coordinator
