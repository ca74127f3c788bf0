import FragmentationGovernor.Verification.Coordinator.Consistency

/-! # Where live evidence comes from

A live record stems from an accepted publication by the incarnation that is registered
now, with no death of its worker since. -/

namespace FragmentationGovernor.Coordinator

/-! ## One message -/

/-- Handling the message was answered positively. -/
def Accepted (o : Outcome) : Prop := ∃ reply, o.2 = .ok [reply] ∧ reply.ok = true

/-- The single reply of an outcome. -/
def reply? (o : Outcome) : Option Message :=
  match o.2 with
  | .ok [reply] => some reply
  | _ => none

theorem reply?_eq_some {o : Outcome} {reply : Message} (h : reply? o = some reply) :
    o.2 = .ok [reply] := by
  unfold reply? at h
  split at h
  · rename_i r heq
    cases h
    exact heq
  · cases h

theorem accepted_iff {o : Outcome} : Accepted o ↔ (reply? o).map (fun r => r.ok) = some true := by
  constructor
  · rintro ⟨reply, hreply, hok⟩
    rw [reply?, hreply]
    exact congrArg some hok
  · intro h
    obtain ⟨reply, hreply, hok⟩ := Option.map_eq_some_iff.mp h
    exact ⟨reply, reply?_eq_some hreply, hok⟩

theorem not_accepted_reject (c : Coordinator) (why : String) : ¬ Accepted (c.reject why) := by
  rintro ⟨reply, hreply, hok⟩
  cases hreply
  cases hok

theorem accepted_accept (c : Coordinator) : Accepted c.accept := ⟨done, rfl, rfl⟩

/-- A message other than REGISTER either publishes a record afresh or keeps all of it but
the layout. -/
theorem Effect.record_cases {c : Coordinator} {m : Message} {o : Outcome} (he : Effect c m o)
    (htype : m.type ≠ .register) {rid : ResourceId} {rec : WorkerResourceRecord}
    (hrec : o.1.resources.find? rid = some rec) :
    (m.type = .publishResource ∧ Accepted o ∧ m.resource.id = rid ∧ rec = freshRecord m) ∨
      ∃ old layout, c.resources.find? rid = some old ∧ rec = { old with layout := layout } := by
  have hkept : ∀ {rec : WorkerResourceRecord}, c.resources.find? rid = some rec →
      ∃ old layout, c.resources.find? rid = some old ∧ rec = { old with layout := layout } :=
    fun {rec} hrec => ⟨rec, rec.layout, hrec, rfl⟩
  have hstored : ∀ {rid' : ResourceId} {old : WorkerResourceRecord} {layout : ResourceLayout},
      c.resources.find? rid' = some old →
      (c.resources.insert rid' { old with layout := layout }).find? rid = some rec →
      ∃ old layout, c.resources.find? rid = some old ∧ rec = { old with layout := layout } := by
    intro rid' old layout hold hfind
    rw [OrdMap.find?_insert] at hfind
    by_cases hr : rid = rid'
    · rw [if_pos hr] at hfind
      cases hfind
      exact ⟨old, layout, hr ▸ hold, rfl⟩
    · rw [if_neg hr] at hfind
      exact hkept hfind
  cases he with
  | registered hreg _ => exact (htype hreg).elim
  | publishedResource hpub _ _ =>
      change (c.resources.insert m.resource.id (freshRecord m)).find? rid = some rec at hrec
      rw [OrdMap.find?_insert] at hrec
      by_cases hr : rid = m.resource.id
      · rw [if_pos hr] at hrec
        cases hrec
        exact Or.inl ⟨hpub, ⟨done, rfl, rfl⟩, hr.symm, rfl⟩
      · rw [if_neg hr] at hrec
        exact Or.inr (hkept hrec)
  | publishedLayout _ _ hold _ _ _ => exact Or.inr (hstored hold hrec)
  | publishedAllocation _ _ hold _ => exact Or.inr (hstored hold hrec)
  | invalidated _ _ hold _ _ => exact Or.inr (hstored hold hrec)
  | completed _ _ _ _ _ _ hold _ => exact Or.inr (hstored hold hrec)
  | advanced _ _ =>
      change (c.advance _).resources.find? rid = some rec at hrec
      rw [(sameEvidence_advance c _).resources] at hrec
      exact Or.inr (hkept hrec)
  | _ => exact Or.inr (hkept hrec)

/-! ## One step -/

/-- The event makes the coordinator mark the worker dead. -/
def MarksDead (w : WorkerId) (c : Coordinator) : Event → Prop
  | .message _ m => m.type = .register ∧ m.worker = w ∧ m.workerBoot ≠ 0 ∧
      ∃ boot, c.workerBoot.find? w = some boot ∧ boot.value ≠ m.workerBoot
  | .workerDead w' => w' = w
  | .recover _ => False
  | .advancePolicy => False

/-- The publication of exactly this record was accepted. -/
def Publishes (rid : ResourceId) (rec : WorkerResourceRecord) (c : Coordinator) : Event → Prop
  | .message fs m => m.type = .publishResource ∧ Accepted (handle fs c m) ∧ m.resource.id = rid ∧
      rec.resource = publishedResource m ∧ rec.worker = m.worker ∧ rec.boot = ⟨m.workerBoot⟩
  | _ => False

/-- A record that was alive before the step and comes from the same publication. -/
def KeptAlive (rid : ResourceId) (rec : WorkerResourceRecord) (c : Coordinator) : Prop :=
  ∃ old, c.resources.find? rid = some old ∧ old.alive = true ∧ rec.resource = old.resource ∧
    rec.worker = old.worker ∧ rec.boot = old.boot

theorem register_kept {c : Coordinator} {m : Message} {rid : ResourceId}
    {rec : WorkerResourceRecord} (hrec : (c.register m).resources.find? rid = some rec)
    (halive : rec.alive = true) :
    KeptAlive rid rec c ∧ ∀ boot, c.workerBoot.find? rec.worker = some boot →
      m.worker = rec.worker → boot.value = m.workerBoot := by
  change (c.dropStale m).resources.find? rid = some rec at hrec
  rcases dropStale_cases c m with ⟨heq, hboot⟩ | ⟨heq, -⟩
  · rw [heq] at hrec
    refine ⟨⟨rec, hrec, halive, rfl, rfl, rfl⟩, ?_⟩
    intro boot hb hw
    rw [← hw] at hb
    exact hboot boot hb
  · rw [heq] at hrec
    obtain ⟨old, hold, rfl⟩ := markWorkerDead_record hrec
    simp only [Bool.and_eq_true, decide_eq_true_eq] at halive
    refine ⟨⟨old, hold, halive.1, rfl, rfl, rfl⟩, ?_⟩
    intro boot _ hw
    exact (halive.2 hw.symm).elim

/-- A live record after a step was published by it, or was alive before it and the step
does not mark its worker dead. -/
theorem Consistent.alive_step {c : Coordinator} (h : c.Consistent) {e : Event}
    {rid : ResourceId} {rec : WorkerResourceRecord}
    (hrec : (c.step e).resources.find? rid = some rec) (halive : rec.alive = true) :
    Publishes rid rec c e ∨ KeptAlive rid rec c ∧ ¬ MarksDead rec.worker c e := by
  cases e with
  | message fs m =>
      by_cases htype : m.type = .register
      · change (handle fs c m).1.resources.find? rid = some rec at hrec
        rw [handle_register htype, handleRegister] at hrec
        by_cases hboot : m.workerBoot = 0
        · rw [if_pos hboot] at hrec
          refine Or.inr ⟨⟨rec, hrec, halive, rfl, rfl, rfl⟩, ?_⟩
          exact fun hdead => hdead.2.2.1 hboot
        · rw [if_neg hboot] at hrec
          obtain ⟨hkept, hsame⟩ := register_kept hrec halive
          refine Or.inr ⟨hkept, ?_⟩
          intro hdead
          obtain ⟨-, hw, -, boot, hb, hne⟩ := hdead
          exact hne (hsame boot hb hw)
      · rcases (h.handle_effect fs m).record_cases htype hrec with
          ⟨hpub, hacc, hid, rfl⟩ | ⟨old, layout, hold, rfl⟩
        · exact Or.inl ⟨hpub, hacc, hid, rfl, rfl, rfl⟩
        · exact Or.inr ⟨⟨old, hold, halive, rfl, rfl, rfl⟩, fun hdead => htype hdead.1⟩
  | workerDead w =>
      obtain ⟨old, hold, rfl⟩ := markWorkerDead_record hrec
      simp only [Bool.and_eq_true, decide_eq_true_eq] at halive
      refine Or.inr ⟨⟨old, hold, halive.1, rfl, rfl, rfl⟩, ?_⟩
      exact fun hdead => halive.2 hdead.symm
  | recover st =>
      rcases recover_evidence c st with hsame | ⟨hempty, -, -⟩
      · change (c.recover st).1.resources.find? rid = some rec at hrec
        rw [hsame.resources] at hrec
        exact Or.inr ⟨⟨rec, hrec, halive, rfl, rfl, rfl⟩, fun hdead => hdead⟩
      · change (c.recover st).1.resources.find? rid = some rec at hrec
        rw [hempty] at hrec
        cases hrec
  | advancePolicy => exact Or.inr ⟨⟨rec, hrec, halive, rfl, rfl, rfl⟩, fun hdead => hdead⟩

/-! ## Whole runs -/

/-- A live record was published by some event of the run, and no later event marks its
worker dead. -/
theorem publishes_of_alive (epoch : CoordinatorEpoch) (events : List Event) {rid : ResourceId}
    {rec : WorkerResourceRecord}
    (hrec : (runFrom step (new epoch) events).resources.find? rid = some rec)
    (halive : rec.alive = true) :
    ∃ front e back, events = front ++ e :: back ∧
      Publishes rid rec (runFrom step (new epoch) front) e ∧
      AllSteps step (fun c e => ¬ MarksDead rec.worker c e)
        (runFrom step (new epoch) (front ++ [e])) back := by
  induction events using List.reverseRecOn generalizing rec with
  | nil => cases hrec
  | append_singleton events e ih =>
      rw [runFrom_snoc] at hrec
      rcases (consistent_run epoch events).alive_step hrec halive with hpub | ⟨hkept, hdead⟩
      · exact ⟨events, e, [], rfl, hpub, allSteps_nil⟩
      · obtain ⟨old, hold, holdAlive, hres, hworker, hboot⟩ := hkept
        obtain ⟨front, e₀, back, rfl, hpub, hall⟩ := ih hold holdAlive
        refine ⟨front, e₀, back ++ [e], by simp, ?_, ?_⟩
        · cases e₀ with
          | message fs m =>
              obtain ⟨htype, hacc, hid, hres₀, hworker₀, hboot₀⟩ := hpub
              exact ⟨htype, hacc, hid, hres.trans hres₀, hworker.trans hworker₀,
                hboot.trans hboot₀⟩
          | workerDead w => exact hpub
          | recover st => exact hpub
          | advancePolicy => exact hpub
        · rw [allSteps_append, ← runFrom_append]
          refine ⟨hworker ▸ hall, ?_, allSteps_nil⟩
          have hpath : front ++ [e₀] ++ back = front ++ e₀ :: back := by simp
          rw [hpath]
          exact hdead

theorem mem_aliveDevices {c : Coordinator} {d : DeviceState} (h : d ∈ c.aliveDevices) :
    ∃ rid rec, c.resources.find? rid = some rec ∧ rec.alive = true ∧
      d = ⟨rec.resource, rec.layout⟩ := by
  obtain ⟨⟨rid, rec⟩, he, hd⟩ := List.mem_filterMap.mp h
  by_cases halive : rec.alive = true
  · simp only [halive, if_true, Option.some.injEq] at hd
    exact ⟨rid, rec, OrdMap.find?_eq_some_iff.mpr he, halive, hd.symm⟩
  · simp only [halive] at hd
    cases hd

theorem mem_aliveDevices_of_alive {c : Coordinator} {rid : ResourceId}
    {rec : WorkerResourceRecord} (hrec : c.resources.find? rid = some rec)
    (halive : rec.alive = true) : ⟨rec.resource, rec.layout⟩ ∈ c.aliveDevices := by
  refine List.mem_filterMap.mpr ⟨(rid, rec), OrdMap.find?_eq_some_iff.mp hrec, ?_⟩
  simp only [halive, if_true]

/-- After every run the maps are consistent, and a device of the snapshot stems from an
accepted publication by the boot id its worker is registered under now, with no death of
that worker since. -/
theorem snapshot_evidence_current (epoch : CoordinatorEpoch) (events : List Event) :
    (runFrom step (new epoch) events).Consistent ∧
      ∀ d ∈ (runFrom step (new epoch) events).assembleSnapshot.devices,
        ∃ rec front e back, events = front ++ e :: back ∧ rec.resource = d.resource ∧
          Publishes d.resource.id rec (runFrom step (new epoch) front) e ∧
          AllSteps step (fun c e => ¬ MarksDead rec.worker c e)
            (runFrom step (new epoch) (front ++ [e])) back ∧
          (runFrom step (new epoch) events).workerAlive.find? rec.worker = some true ∧
          (runFrom step (new epoch) events).workerBoot.find? rec.worker = some rec.boot := by
  have hcons := consistent_run epoch events
  refine ⟨hcons, ?_⟩
  intro d hd
  obtain ⟨rid, rec, hrec, halive, rfl⟩ := mem_aliveDevices hd
  obtain ⟨front, e, back, hsplit, hpub, hall⟩ := publishes_of_alive epoch events hrec halive
  obtain ⟨hworker, hboot⟩ := hcons.current hrec halive
  have hkey := hcons.keyed hrec
  exact ⟨rec, front, e, back, hsplit, rfl, hkey ▸ hpub, hall, hworker, hboot⟩

end FragmentationGovernor.Coordinator
