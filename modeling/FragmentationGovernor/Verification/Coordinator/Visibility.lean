import FragmentationGovernor.Verification.Coordinator.Consumption
import FragmentationGovernor.Verification.Fit.Correctness

/-! # What a snapshot shows

Snapshots show the records marked alive. An acknowledgement depends on the worker, the
generations on the event, and the provenance on the mixture of records; none of them need
agree with the content. -/

namespace FragmentationGovernor.Coordinator

/-! ## Acknowledged publications -/

/-- The layout of the device is what the message published over the record `old`. -/
def Shows (m : Message) (old : Option WorkerResourceRecord) (d : DeviceState) : Prop :=
  match m.type with
  | .publishResource => d.layout = ResourceLayout.ofCapacity m.resource.capacity
  | .publishLayout => d.layout.allocations.entries.Perm (m.allocations.map (fun a => (a.id, a)))
  | .publishAllocation => ∃ rec, old = some rec ∧
      rec.layout.allocations.find? m.allocation.id = none ∧
      d.layout.allocations = rec.layout.allocations.insert m.allocation.id m.allocation
  | _ => False

/-- The snapshot of `c'` has a device for the published resource with that content. -/
def Visible (c c' : Coordinator) (m : Message) : Prop :=
  ∃ d ∈ c'.assembleSnapshot.devices, d.resource.id = m.resource.id ∧
    Shows m (c.resources.find? m.resource.id) d

/-- The record an accepted publication stores, with its content. -/
structure Stored (c c' : Coordinator) (m : Message) (rec : WorkerResourceRecord) : Prop where
  state : c' = c.store m.resource.id rec
  key : rec.resource.id = m.resource.id
  content : Shows m (c.resources.find? m.resource.id) ⟨rec.resource, rec.layout⟩
  alive : rec.alive = true ↔ m.type = .publishResource ∨
    ∃ old, c.resources.find? m.resource.id = some old ∧ old.alive = true

theorem Consistent.stored_of_accepted {c : Coordinator} (h : c.Consistent)
    {fs : Codec.SaveOutcome} {m : Message}
    (hpub : m.type = .publishResource ∨ m.type = .publishLayout ∨ m.type = .publishAllocation)
    (hacc : Accepted (handle fs c m)) : ∃ rec, Stored c (handle fs c m).1 m rec := by
  have he := h.handle_effect fs m
  generalize handle fs c m = o at he hacc
  cases he with
  | publishedResource htype _ _ =>
      refine ⟨freshRecord m, rfl, rfl, ?_, iff_of_true rfl (Or.inl htype)⟩
      simp only [Shows, htype]
      rfl
  | @publishedLayout rec layout htype _ hrec _ _ hins =>
      have hkey := h.keyed hrec
      refine ⟨{ rec with layout := layout }, rfl, hkey, ?_, ?_⟩
      · have hperm := insertAll_perm (.ofCapacity _) hins
        rw [allocations_ofCapacity] at hperm
        simp only [Shows, htype]
        exact hperm
      · simp [htype, hrec]
  | @publishedAllocation rec layout htype _ hrec hins =>
      obtain ⟨hinsertable, halloc, -⟩ := (h.reachable hrec).valid.of_insertAllocation_ok hins
      have hkey := h.keyed hrec
      refine ⟨{ rec with layout := layout }, rfl, hkey, ?_, ?_⟩
      · simp only [Shows, htype]
        exact ⟨rec, hrec, hinsertable.new, halloc⟩
      · simp [htype, hrec]
  | rejected why => exact (not_accepted_reject c why hacc).elim
  | raised e =>
      obtain ⟨reply, hreply, -⟩ := hacc
      cases hreply
  | silent htype => rcases htype with htype | htype | htype <;> simp [htype] at hpub
  | answered htype _ => rcases htype with htype | htype <;> simp [htype] at hpub
  | saved htype => simp [htype] at hpub
  | registered htype _ => simp [htype] at hpub
  | invalidated htype _ _ _ _ => simp [htype] at hpub
  | planRaised htype _ => simp [htype] at hpub
  | planRefused htype _ => simp [htype] at hpub
  | planned htype _ => simp [htype] at hpub
  | approved htype _ _ _ => simp [htype] at hpub
  | began htype _ _ _ _ => simp [htype] at hpub
  | skipped htype _ _ _ _ => simp [htype] at hpub
  | completed htype _ _ _ _ _ _ _ => simp [htype] at hpub
  | verified htype _ _ _ _ => simp [htype] at hpub
  | cancelled htype _ => simp [htype] at hpub
  | revalidated htype _ => simp [htype] at hpub
  | advanced htype _ => simp [htype] at hpub

/-- A stored record is visible exactly when it is marked alive. -/
theorem Stored.visible_iff {c c' : Coordinator} {m : Message} {rec : WorkerResourceRecord}
    (h : Stored c c' m rec) (hcons : c'.Consistent) : Visible c c' m ↔ rec.alive = true := by
  have hfind : c'.resources.find? m.resource.id = some rec := by
    rw [h.state, store_resources, OrdMap.find?_insert_self]
  constructor
  · rintro ⟨d, hd, hid, -⟩
    obtain ⟨rid, rec', hrec', halive, rfl⟩ := mem_aliveDevices hd
    have hkey := hcons.keyed hrec'
    rw [← hkey, hid, hfind] at hrec'
    cases hrec'
    exact halive
  · intro halive
    exact ⟨_, mem_aliveDevices_of_alive hfind halive, h.key, h.content⟩

/-- After every run: an accepted publication is visible with exactly its content in the
snapshot right after it, if and only if it publishes a resource or the record it edits was
marked alive. -/
theorem publication_visible_iff (epoch : CoordinatorEpoch) (events : List Event)
    (fs : Codec.SaveOutcome) (m : Message)
    (hpub : m.type = .publishResource ∨ m.type = .publishLayout ∨ m.type = .publishAllocation)
    (hacc : Accepted (handle fs (runFrom step (new epoch) events) m)) :
    Visible (runFrom step (new epoch) events) (handle fs (runFrom step (new epoch) events) m).1 m ↔
      m.type = .publishResource ∨
        ∃ rec, (runFrom step (new epoch) events).resources.find? m.resource.id = some rec ∧
          rec.alive = true := by
  have hcons := consistent_run epoch events
  generalize runFrom step (new epoch) events = c at hacc hcons ⊢
  obtain ⟨rec, hstored⟩ := hcons.stored_of_accepted hpub hacc
  rw [hstored.visible_iff (hcons.of_effect (hcons.handle_effect fs m)), hstored.alive]

/-- Worker 1 publishes its resource. -/
def resourceRun : List Event :=
  [.register 1 1, .publishResource 1 1 smallResource].map (.message disk)

/-- The allocation `scratch` is then published and seen. -/
theorem publication_visible_iff_scratch :
    Accepted (handle disk (runFrom step (new ⟨1⟩) resourceRun)
        (.publishAllocation 1 1 smallResource scratch)) ∧
      Visible (runFrom step (new ⟨1⟩) resourceRun)
        (handle disk (runFrom step (new ⟨1⟩) resourceRun)
          (.publishAllocation 1 1 smallResource scratch)).1
        (.publishAllocation 1 1 smallResource scratch) := by
  have hacc : Accepted (handle disk (runFrom step (new ⟨1⟩) resourceRun)
      (.publishAllocation 1 1 smallResource scratch)) := accepted_iff.mpr (by decide +kernel)
  refine ⟨hacc, (publication_visible_iff ⟨1⟩ resourceRun disk _ (Or.inr (Or.inr rfl)) hacc).mpr
    (Or.inr ?_)⟩
  have halive : ((runFrom step (new ⟨1⟩) resourceRun).resources.find? ⟨1⟩).map
      (fun rec => rec.alive) = some true := by decide +kernel
  exact Option.map_eq_some_iff.mp halive

/-- Worker 1 dies and registers again under the same boot id. -/
def returnedRun : List Event :=
  resourceRun ++ [.workerDead ⟨1⟩, .message disk (.register 1 1)]

/-- Its layout is accepted but no snapshot shows it. -/
theorem publication_invisible :
    ¬ ∀ (epoch : CoordinatorEpoch) (events : List Event) (fs : Codec.SaveOutcome) (m : Message),
      m.type = .publishResource ∨ m.type = .publishLayout ∨ m.type = .publishAllocation →
      Accepted (handle fs (runFrom step (new epoch) events) m) →
      Visible (runFrom step (new epoch) events)
        (handle fs (runFrom step (new epoch) events) m).1 m := by
  intro h
  obtain ⟨d, hd, -⟩ := h ⟨1⟩ returnedRun disk (.publishLayout 1 1 smallResource [scratch])
    (Or.inr (Or.inl rfl)) (accepted_iff.mpr (by decide +kernel))
  have hempty : (handle disk (runFrom step (new ⟨1⟩) returnedRun)
      (.publishLayout 1 1 smallResource [scratch])).1.aliveDevices = [] := by decide +kernel
  change d ∈ aliveDevices _ at hd
  rw [hempty] at hd
  cases hd

/-! ## Provenance -/

/-- Some record marked alive was published with the provenance. -/
def LiveWith (c : Coordinator) (v : Provenance) : Prop :=
  ∃ rid rec, c.resources.find? rid = some rec ∧ rec.alive = true ∧ rec.provenance = v

def AllMeasured (c : Coordinator) : Prop :=
  ∀ rid rec, c.resources.find? rid = some rec → rec.alive = true → rec.provenance = .measured

/-- The snapshot counts as measured only when all of its evidence is, and with unknown
evidence among it every fit analysis asks for a revalidation. -/
structure Unpromoted (c : Coordinator) : Prop where
  measured : c.assembleSnapshot.provenance = .measured → c.AllMeasured
  unknown : c.LiveWith .unknown → ∀ d, ∃ r, analyzeFit c.assembleSnapshot d = .ok r ∧
    r.outcome = .revalidationRequired

/-- The fold over the records distinguishes synthetic evidence from everything else. -/
theorem provenance_assembleSnapshot (c : Coordinator) :
    (c.LiveWith .synthetic ∧ c.assembleSnapshot.provenance = .synthetic) ∨
      (¬ c.LiveWith .synthetic ∧ c.assembleSnapshot.provenance = .measured) := by
  change (_ ∧ (if c.resources.entries.any (fun e =>
    e.2.alive && decide (e.2.provenance = .synthetic)) then _ else _) = _) ∨ (_ ∧ ite _ _ _ = _)
  by_cases hany : c.resources.entries.any (fun e =>
      e.2.alive && decide (e.2.provenance = .synthetic)) = true
  · rw [if_pos hany]
    obtain ⟨e, he, hsyn⟩ := List.any_eq_true.mp hany
    rw [Bool.and_eq_true, decide_eq_true_eq] at hsyn
    exact Or.inl ⟨⟨e.1, e.2, OrdMap.find?_eq_some_iff.mpr he, hsyn.1, hsyn.2⟩, rfl⟩
  · rw [if_neg hany]
    refine Or.inr ⟨?_, rfl⟩
    rintro ⟨rid, rec, hrec, halive, hsyn⟩
    refine hany (List.any_eq_true.mpr ⟨(rid, rec), OrdMap.find?_eq_some_iff.mp hrec, ?_⟩)
    rw [Bool.and_eq_true, decide_eq_true_eq]
    exact ⟨halive, hsyn⟩

/-- A snapshot never has unknown provenance, so the evidence gate is its generations. -/
theorem revalidationRequired_iff (c : Coordinator) :
    (∀ d, ∃ r, analyzeFit c.assembleSnapshot d = .ok r ∧ r.outcome = .revalidationRequired) ↔
      c.generations.complete = false := by
  have hprov : c.assembleSnapshot.provenance ≠ .unknown := by
    rcases provenance_assembleSnapshot c with ⟨-, heq⟩ | ⟨-, heq⟩
    · rw [heq]
      decide
    · rw [heq]
      decide
  constructor
  · intro hall
    obtain ⟨r, hr, hout⟩ := hall {}
    by_contra hgen
    rw [Bool.not_eq_false] at hgen
    exact analyzeFit_ne_revalidationRequired hgen hprov hr hout
  · intro hgen d
    have hstale : (!c.assembleSnapshot.generations.complete) = true ∨
        c.assembleSnapshot.provenance = .unknown := by
      change (!c.generations.complete) = true ∨ _
      rw [hgen]
      exact Or.inl rfl
    simp only [analyzeFit]
    rw [if_pos hstale]
    exact ⟨_, rfl, rfl⟩

/-- After every run: unknown evidence is not promoted if and only if all live evidence is
measured, or some of it is synthetic and, with complete generations, none is unknown. -/
theorem unpromoted_iff (epoch : CoordinatorEpoch) (events : List Event) :
    (runFrom step (new epoch) events).Unpromoted ↔
      (runFrom step (new epoch) events).AllMeasured ∨
        ((runFrom step (new epoch) events).LiveWith .synthetic ∧
          (¬ (runFrom step (new epoch) events).LiveWith .unknown ∨
            (runFrom step (new epoch) events).generations.complete = false)) := by
  generalize runFrom step (new epoch) events = c
  have hgate := revalidationRequired_iff c
  constructor
  · intro h
    rcases provenance_assembleSnapshot c with ⟨hsyn, -⟩ | ⟨-, hmeasured⟩
    · refine Or.inr ⟨hsyn, ?_⟩
      by_cases hunknown : c.LiveWith .unknown
      · exact Or.inr (hgate.mp (h.unknown hunknown))
      · exact Or.inl hunknown
    · exact Or.inl (h.measured hmeasured)
  · rintro (hall | ⟨hsyn, hunknown⟩)
    · refine ⟨fun _ => hall, ?_⟩
      rintro ⟨rid, rec, hrec, halive, hprov⟩
      rw [hall rid rec hrec halive] at hprov
      cases hprov
    · refine ⟨?_, ?_⟩
      · intro hmeasured
        rcases provenance_assembleSnapshot c with ⟨-, heq⟩ | ⟨hno, -⟩
        · rw [heq] at hmeasured
          cases hmeasured
        · exact (hno hsyn).elim
      · intro hlive
        rcases hunknown with hno | hgen
        · exact (hno hlive).elim
        · exact hgate.mpr hgen

/-- The resource published without a provenance makes a measured snapshot. -/
theorem unknown_promoted :
    ¬ ∀ (epoch : CoordinatorEpoch) (events : List Event),
      (runFrom step (new epoch) events).Unpromoted := by
  intro h
  have hmeasured := (h ⟨1⟩ resourceRun).measured (by decide +kernel)
  have heval : ((runFrom step (new ⟨1⟩) resourceRun).resources.find? ⟨1⟩).map
      (fun rec => (rec.alive, rec.provenance)) = some (true, .unknown) := by decide +kernel
  obtain ⟨rec, hrec, hfields⟩ := Option.map_eq_some_iff.mp heval
  simp only [Prod.mk.injEq] at hfields
  have hprov := hmeasured ⟨1⟩ rec hrec hfields.1
  rw [hfields.2] at hprov
  cases hprov

/-! ## Generations and content -/

/-- The event marks a worker dead that owns a record marked alive. -/
def Hides (c : Coordinator) (e : Event) : Prop :=
  ∃ w, MarksDead w c e ∧ ∃ rid rec, c.resources.find? rid = some rec ∧ rec.alive = true ∧
    rec.worker = w

/-- The death of a worker without live records hides nothing. -/
theorem aliveDevices_markWorkerDead {c : Coordinator} {w : WorkerId}
    (hno : ∀ rid rec, c.resources.find? rid = some rec → rec.alive = true → rec.worker ≠ w) :
    (c.markWorkerDead w).aliveDevices = c.aliveDevices := by
  change (c.resources.entries.map _).filterMap _ = _
  rw [List.filterMap_map]
  apply List.filterMap_congr
  intro e he
  have hrec := OrdMap.find?_eq_some_iff.mpr he
  by_cases hw : e.2.worker = w
  · have halive : e.2.alive = false := by
      rw [← Bool.not_eq_true]
      exact fun halive => hno e.1 e.2 hrec halive hw
    simp [hw, halive]
  · simp [hw]

/-- What an event that marks a worker dead does to the evidence and the generations. -/
theorem MarksDead.step_eq {w : WorkerId} {c : Coordinator} {e : Event} (h : MarksDead w c e) :
    (c.step e).resources = (c.markWorkerDead w).resources ∧
      (c.step e).generations = c.generations ∧
      (c.step e).snapshotGeneration = c.snapshotGeneration := by
  cases e with
  | message fs m =>
      obtain ⟨htype, rfl, hboot, boot, hfind, hne⟩ := h
      have heq : handle fs c m = (c.register m).accept := by
        simp only [handle, htype, handleRegister]
        rw [if_neg hboot]
      have hdrop : c.dropStale m = c.markWorkerDead m.worker := by
        rw [dropStale, hfind]
        dsimp only
        rw [if_pos hne]
      change (handle fs c m).1.resources = _ ∧ (handle fs c m).1.generations = _ ∧
        (handle fs c m).1.snapshotGeneration = _
      rw [heq]
      change (c.dropStale m).resources = _ ∧ (c.dropStale m).generations = _ ∧
        (c.dropStale m).snapshotGeneration = _
      rw [hdrop]
      exact ⟨rfl, rfl, rfl⟩
  | workerDead w' =>
      cases h
      exact ⟨rfl, rfl, rfl⟩
  | recover st => exact h.elim
  | advancePolicy => exact h.elim

/-- An event that hides a record changes the devices and none of the generations. -/
theorem Consistent.devices_of_hides {c : Coordinator} (hcons : c.Consistent) {e : Event}
    (h : Hides c e) :
    (c.step e).assembleSnapshot.generation = c.assembleSnapshot.generation ∧
      (c.step e).assembleSnapshot.generations = c.assembleSnapshot.generations ∧
      (c.step e).assembleSnapshot.devices ≠ c.assembleSnapshot.devices := by
  obtain ⟨w, hdead, rid, rec, hrec, halive, hw⟩ := h
  obtain ⟨hres, hgen, hsnap⟩ := hdead.step_eq
  refine ⟨hsnap, hgen, ?_⟩
  intro hsame
  have hmem : ⟨rec.resource, rec.layout⟩ ∈ (c.step e).assembleSnapshot.devices := by
    rw [hsame]
    exact mem_aliveDevices_of_alive hrec halive
  obtain ⟨rid', rec', hrec', halive', heq⟩ := mem_aliveDevices hmem
  have hkey' := (hcons.step e).keyed hrec'
  have hkey := hcons.keyed hrec
  have hrid : rid' = rid := by
    rw [← hkey', ← hkey, (DeviceState.mk.inj heq).1]
  rw [hres, hrid] at hrec'
  obtain ⟨old, hold, rfl⟩ := markWorkerDead_record hrec'
  rw [hrec] at hold
  cases hold
  simp [hw] at halive'

/-- Apart from a recovery, an event advances the resource generation, or keeps it and
changes the devices only by hiding some. -/
theorem Consistent.devices_step {c : Coordinator} (hcons : c.Consistent) {e : Event}
    (he : ∀ st, e ≠ .recover st) :
    (c.step e).generations.resourceGeneration = c.generations.resourceGeneration.next ∨
      ((c.step e).generations.resourceGeneration = c.generations.resourceGeneration ∧
        (¬ Hides c e → (c.step e).aliveDevices = c.aliveDevices)) := by
  have hdead : ∀ {w}, MarksDead w c e → ¬ Hides c e →
      (c.markWorkerDead w).aliveDevices = c.aliveDevices := by
    intro w hmarks hno
    apply aliveDevices_markWorkerDead
    intro rid rec hrec halive hw
    exact hno ⟨w, hmarks, rid, rec, hrec, halive, hw⟩
  cases e with
  | message fs m =>
      change (handle fs c m).1.generations.resourceGeneration = _ ∨
        ((handle fs c m).1.generations.resourceGeneration = _ ∧
          (_ → (handle fs c m).1.aliveDevices = _))
      have heff := hcons.handle_effect fs m
      generalize handle fs c m = o at heff
      cases heff with
      | registered htype hboot =>
          refine Or.inr ⟨congrArg (·.resourceGeneration) (dropStale_generations c m), ?_⟩
          intro hno
          change (c.dropStale m).aliveDevices = _
          rcases dropStale_cases c m with ⟨heq, -⟩ | ⟨heq, boot, hfind, hne⟩
          · rw [heq]
          · rw [heq]
            exact hdead ⟨htype, rfl, hboot, boot, hfind, hne⟩ hno
      | publishedResource _ _ _ => exact Or.inl rfl
      | publishedLayout _ _ _ _ _ _ => exact Or.inl rfl
      | publishedAllocation _ _ _ _ => exact Or.inl rfl
      | invalidated _ _ _ _ _ => exact Or.inl rfl
      | completed _ _ _ _ _ _ _ _ => exact Or.inl rfl
      | advanced _ hkind =>
          change (c.advance _).generations.resourceGeneration = _ ∨
            ((c.advance _).generations.resourceGeneration = _ ∧
              (_ → (c.advance _).aliveDevices = _))
          interval_cases hk : m.generationKind.toNat
          · exact Or.inl rfl
          · exact Or.inr ⟨rfl, fun _ => rfl⟩
          · exact Or.inr ⟨rfl, fun _ => rfl⟩
      | _ => exact Or.inr ⟨rfl, fun _ => rfl⟩
  | workerDead w => exact Or.inr ⟨rfl, hdead rfl⟩
  | recover st => exact (he st rfl).elim
  | advancePolicy => exact Or.inr ⟨rfl, fun _ => rfl⟩

/-- Along a run that hides nothing the resource generation never falls, and while it stays
the same below the last one, so do the devices. -/
theorem Consistent.devices_run {c : Coordinator} (hcons : c.Consistent) {events : List Event}
    (hrestart : ∀ st, Event.recover st ∉ events) :
    c.generations.resourceGeneration.value.toNat ≤
        (runFrom Coordinator.step c events).generations.resourceGeneration.value.toNat ∧
      (AllSteps Coordinator.step (fun c e => ¬ Hides c e) c events →
        (runFrom Coordinator.step c events).generations.resourceGeneration.value <
          0xFFFFFFFFFFFFFFFF →
        (runFrom Coordinator.step c events).generations.resourceGeneration =
          c.generations.resourceGeneration →
        (runFrom Coordinator.step c events).aliveDevices = c.aliveDevices) := by
  induction events generalizing c with
  | nil => exact ⟨le_rfl, fun _ _ _ => rfl⟩
  | cons e rest ih =>
      obtain ⟨hle, hdevices⟩ := ih (hcons.step e)
        (fun st hmem => hrestart st (List.mem_cons_of_mem e hmem))
      have he : ∀ st, e ≠ .recover st := by
        rintro st rfl
        exact hrestart st (by simp)
      rw [runFrom_cons]
      rcases hcons.devices_step he with hnext | ⟨hsame, hkept⟩
      · rw [hnext] at hle
        have hmono := UInt64.le_iff_toNat_le.mp (Generation.le_next c.generations.resourceGeneration)
        refine ⟨hmono.trans hle, ?_⟩
        intro _ hmax heq
        -- the generation was advanced on the way, so it is not the one at the start
        rw [heq] at hle hmax
        rw [Generation.toNat_next (by
          intro hlast
          rw [hlast] at hmax
          exact absurd hmax (by decide))] at hle
        omega
      · rw [hsame] at hle hdevices
        refine ⟨hle, ?_⟩
        rintro ⟨hno, hall⟩ hmax heq
        rw [hdevices hall hmax heq]
        exact hkept hno

/-- No counter has reached the last generation. -/
def BelowLast (g : KnownResourceGenerations) : Prop :=
  g.resourceGeneration.value < 0xFFFFFFFFFFFFFFFF ∧
    g.allocationGeneration.value < 0xFFFFFFFFFFFFFFFF ∧
    g.reservationGeneration.value < 0xFFFFFFFFFFFFFFFF ∧
    g.topologyGeneration.value < 0xFFFFFFFFFFFFFFFF ∧
    g.capacityGeneration.value < 0xFFFFFFFFFFFFFFFF ∧
    g.capabilityGeneration.value < 0xFFFFFFFFFFFFFFFF ∧
    g.placementGeneration.value < 0xFFFFFFFFFFFFFFFF ∧
    g.healthGeneration.value < 0xFFFFFFFFFFFFFFFF ∧
    g.policyGeneration.value < 0xFFFFFFFFFFFFFFFF

/-- At any two moments of the run, snapshots with the same generations show the same
devices. -/
def Identified (epoch : CoordinatorEpoch) (events : List Event) : Prop :=
  ∀ front mid back, events = front ++ mid ++ back →
    (runFrom step (new epoch) (front ++ mid)).assembleSnapshot.generation =
      (runFrom step (new epoch) front).assembleSnapshot.generation →
    (runFrom step (new epoch) (front ++ mid)).assembleSnapshot.generations =
      (runFrom step (new epoch) front).assembleSnapshot.generations →
    (runFrom step (new epoch) (front ++ mid)).assembleSnapshot.devices =
      (runFrom step (new epoch) front).assembleSnapshot.devices

/-- Over every run without a restart whose counters stay below the last generation: the
generations of a snapshot identify its content if and only if no event hides a live
record. -/
theorem identified_iff (epoch : CoordinatorEpoch) (events : List Event)
    (hrestart : ∀ st, Event.recover st ∉ events)
    (hmax : BelowLast (runFrom step (new epoch) events).generations) :
    Identified epoch events ↔ AllSteps step (fun c e => ¬ Hides c e) (new epoch) events := by
  constructor
  · intro h
    rw [allSteps_iff]
    intro front e back hsplit hides
    have hchange := (consistent_run epoch front).devices_of_hides hides
    rw [← runFrom_snoc step] at hchange
    exact hchange.2.2 (h front [e] back (by rw [hsplit]; simp) hchange.1 hchange.2.1)
  · intro hall front mid back hsplit _ hgen
    rw [hsplit, allSteps_append, allSteps_append] at hall
    have hno : ∀ st, Event.recover st ∉ mid ∧ Event.recover st ∉ back := by
      intro st
      have hst := hrestart st
      rw [hsplit] at hst
      simp only [List.mem_append, not_or] at hst
      exact ⟨hst.1.2, hst.2⟩
    have hfront := consistent_run epoch front
    -- later events only raise the counter, so it is below the last one here too
    have hback := ((consistent_run epoch (front ++ mid)).devices_run (fun st => (hno st).2)).1
    rw [← runFrom_append, ← hsplit] at hback
    have hlt : (runFrom step (new epoch) (front ++ mid)).generations.resourceGeneration.value <
        0xFFFFFFFFFFFFFFFF := by
      rw [UInt64.lt_iff_toNat_lt]
      exact lt_of_le_of_lt hback (UInt64.lt_iff_toNat_lt.mp hmax.1)
    have hsame := (hfront.devices_run (fun st => (hno st).1)).2 hall.1.2
    rw [← runFrom_append] at hsame
    exact hsame hlt (congrArg (·.resourceGeneration) hgen)

/-- In the run that ends with the allocation `scratch`, every generation stands for one
content. -/
theorem identified_iff_publishedRun : Identified ⟨1⟩ publishedRun := by
  refine (identified_iff ⟨1⟩ publishedRun (by simp [publishedRun]) ?_).mpr ?_
  · unfold BelowLast
    decide +kernel
  · refine ⟨?_, ?_, ?_, allSteps_nil⟩
    · -- the worker is new when it registers, so there is nothing to hide
      rintro ⟨w, -, rid, rec, hrec, -⟩
      cases hrec
    · rintro ⟨w, hdead, -⟩
      cases hdead.1
    · rintro ⟨w, hdead, -⟩
      cases hdead.1

/-- The death of worker 1 empties the snapshot under unchanged generations. -/
theorem generations_hide_death :
    ¬ ∀ (epoch : CoordinatorEpoch) (events : List Event), (∀ st, Event.recover st ∉ events) →
      BelowLast (runFrom step (new epoch) events).generations → Identified epoch events := by
  intro h
  have hmax : BelowLast (runFrom step (new ⟨1⟩) (publishedRun ++ [.workerDead ⟨1⟩])).generations := by
    unfold BelowLast
    decide +kernel
  have hid : Identified ⟨1⟩ (publishedRun ++ [.workerDead ⟨1⟩]) :=
    h ⟨1⟩ _ (by simp [publishedRun]) hmax
  have hsame := hid publishedRun [.workerDead ⟨1⟩] [] (by simp) rfl rfl
  have hbefore : (runFrom step (new ⟨1⟩) publishedRun).assembleSnapshot.devices.length = 1 := by
    decide +kernel
  have hafter : (runFrom step (new ⟨1⟩)
      (publishedRun ++ [.workerDead ⟨1⟩])).assembleSnapshot.devices.length = 0 := by decide +kernel
  rw [hsame, hbefore] at hafter
  cases hafter

end FragmentationGovernor.Coordinator
