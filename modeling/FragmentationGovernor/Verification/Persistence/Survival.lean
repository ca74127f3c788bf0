import FragmentationGovernor.Verification.Persistence.Durability

/-! # Saved plans survive

Once a save is acknowledged, its plans are in every coordinator that runs later and their ids
are not given out again, however often the process is killed, as long as no save loses bytes in
`fclose` and every start reads the state file. -/

namespace FragmentationGovernor

/-! ## What lasts of a plan -/

/-- The part of a plan that is fixed when it is created. -/
def fixedPart (p : RemediationPlan) : PersistedPlan :=
  { Coordinator.persistPlan p with state := .detected, verification := none }

namespace Coordinator

/-- The plans of the first coordinator are those of the second, as far as they are fixed. -/
def Retains (c d : Coordinator) : Prop :=
  ∀ k p, c.plans.find? k = some p → ∃ q, d.plans.find? k = some q ∧ fixedPart q = fixedPart p

section Retains

variable {c d d' : Coordinator} {k : FragmentationPlanId} {p q : RemediationPlan}

theorem PlanStep.fixedPart_eq {e : Event} (h : PlanStep c k p e q) :
    fixedPart q = fixedPart p := by
  rw [h.same]
  rfl

theorem CarriedOver.fixedPart_eq (h : CarriedOver p q) : fixedPart q = fixedPart p := by
  have hlen : q.actions.length = p.actions.length := by
    have hkinds := congrArg List.length h.kinds
    rwa [List.length_map, List.length_map] at hkinds
  unfold fixedPart persistPlan
  dsimp only
  rw [h.id, h.generation, h.domainId, h.policyGeneration, h.epoch, h.basedOnSnapshot,
    h.expectedCapacityRecovered, h.benefit, h.cost, h.risk, h.disruption, h.kinds, hlen]

theorem Retains.refl (c : Coordinator) : c.Retains c := fun _ p hp => ⟨p, hp, rfl⟩

theorem Retains.resumed (h : c.Retains d) (hres : Resumed d d') : c.Retains d' := by
  intro k p hp
  obtain ⟨q, hq, heq⟩ := h k p hp
  obtain ⟨q', hq', hcarried⟩ := hres.carried hq
  exact ⟨q', hq', hcarried.fixedPart_eq.trans heq⟩

/-- No event replaces a plan that is stored. -/
theorem Numbered.not_replaces (h : d.Numbered) (hkept : d.Kept) (hq : d.plans.find? k = some q)
    {e : Event} (he : ∀ st, e ≠ .recover st) : ¬ Replaces k d e := by
  intro hnew
  obtain ⟨-, hk⟩ := creates_of_replaces he hnew
  have hbelow := h.below hq
  rw [hkept.keyed hq, hk] at hbelow
  exact UInt64.lt_irrefl _ hbelow

theorem Retains.step (h : c.Retains d) (hcons : d.Consistent) (hkept : d.Kept)
    (hnum : d.Numbered) {e : Event} (he : ∀ st, e ≠ .recover st) : c.Retains (d.step e) := by
  intro k p hp
  obtain ⟨q, hq, heq⟩ := h k p hp
  obtain ⟨q', hq', hstep⟩ := hcons.plan_step hq (hnum.not_replaces hkept hq he)
  exact ⟨q', hq', hstep.fixedPart_eq.trans heq⟩

end Retains

end Coordinator

/-! ## Properties that last -/

namespace Process

open Coordinator

/-- The coordinator can be saved, and its ids are in order. -/
structure Orderly (c : Coordinator) : Prop extends Sound c where
  numbered : c.Numbered

/-- A property of coordinators that events and restarts keep; fresh coordinators have it where
a start may come without a file. -/
structure Lasting (fresh : Prop) (P : Coordinator → Prop) : Prop where
  orderly : ∀ {c}, P c → Orderly c
  new : fresh → ∀ epoch, P (new epoch)
  step : ∀ {c e}, P c → c.nextPlanId.toNat + 1 < 2 ^ 64 → (∀ st, e ≠ .recover st) → P (c.step e)
  resume : ∀ {c c'}, P c → Resumed c c' → c'.Consistent → P c'

theorem nextPlanId_step_le {c : Coordinator} (h : c.Consistent) {e : Event}
    (he : ∀ st, e ≠ .recover st) (hroom : c.nextPlanId.toNat + 1 < 2 ^ 64) :
    (c.step e).nextPlanId.toNat = c.nextPlanId.toNat + (if c.creates (.event e) then 1 else 0) := by
  rw [h.nextPlanId_step he]
  by_cases hcreate : c.creates (.event e) = true
  · rw [if_pos hcreate, if_pos hcreate]
    exact toNat_succ hroom
  · rw [if_neg hcreate, if_neg hcreate]
    rfl

/-- The running coordinator and the one in the file have the property, and have given out at
most `n` ids. -/
structure Standing (file : Text) (fresh : Prop) (P : Coordinator → Prop) (n : ℕ) (p : Process) :
    Prop where
  running : ∀ {c}, p.coord = some c → P c ∧ c.nextPlanId.toNat ≤ n
  stored : (fresh ∧ p.disk file = none) ∨
    ∃ c bytes, (P c ∧ c.nextPlanId.toNat ≤ n) ∧ Codec.encodeState c.persist = .ok bytes ∧
      p.disk file = some bytes

/-- A start reads the state file. -/
def Reads (file : Text) (p : Process) : ProcessEvent → Prop
  | .start fs _ => p.coord = none → ∃ st, Codec.loadState fs p.disk file = .ok st
  | _ => True

section Standing

variable {file : Text} {fresh : Prop} {P : Coordinator → Prop} {n : ℕ} {p : Process}

/-- More ids may have been given out. -/
theorem Standing.mono (h : Standing file fresh P n p) {n' : ℕ} (hn : n ≤ n') :
    Standing file fresh P n' p := by
  refine ⟨fun hc => ?_, ?_⟩
  · obtain ⟨hP, hle⟩ := h.running hc
    exact ⟨hP, hle.trans hn⟩
  · rcases h.stored with hnone | ⟨c, bytes, ⟨hP, hle⟩, henc, hfile⟩
    · exact Or.inl hnone
    · exact Or.inr ⟨c, bytes, ⟨hP, hle.trans hn⟩, henc, hfile⟩

/-- Whatever the running coordinator does to the disk, and wherever it stops. -/
theorem Standing.ops (h : Standing file fresh P n p) {c : Coordinator} (hc : p.coord = some c)
    {fs : Codec.SaveOutcome} {m : Message}
    (hclear : m.type = .save → Codec.tempPath (savePath m) ≠ file)
    (hflush : FlushedBy file p fs m) (k : ℕ) {coord : Option Coordinator}
    (hcoord : ∀ {d}, coord = some d → P d ∧ d.nextPlanId.toNat ≤ n) :
    Standing file fresh P n ⟨p.runOps ((c.diskOps fs m).take k), coord⟩ := by
  refine ⟨hcoord, ?_⟩
  rcases run_take_diskOps hc hclear hflush k with hsame | ⟨bytes, henc, hnew⟩
  · dsimp only
    rw [hsame]
    exact h.stored
  · exact Or.inr ⟨c, bytes, h.running hc, henc, hnew⟩

/-- A coordinator that starts has the property: it resumes the one in the file. -/
theorem Standing.boot (hP : Lasting fresh P) (h : Standing file fresh P n p)
    (hfile : file.bytes ≠ []) (hn : 1 ≤ n) {fs : Codec.LoadOutcome} {epoch : CoordinatorEpoch}
    (hread : fresh ∨ ∃ st, Codec.loadState fs p.disk file = .ok st) :
    P (Coordinator.boot fs epoch file p.disk).1 ∧
      (Coordinator.boot fs epoch file p.disk).1.nextPlanId.toNat ≤ n := by
  cases hload : Codec.loadState fs p.disk file with
  | error e =>
      have hfresh : fresh := by
        rcases hread with hfresh | ⟨st, hst⟩
        · exact hfresh
        · rw [hload] at hst
          cases hst
      have hboot : (Coordinator.boot fs epoch file p.disk).1 = Coordinator.new epoch := by
        rw [Coordinator.boot, hload]
        split_ifs <;> rfl
      rw [hboot]
      exact ⟨hP.new hfresh epoch, hn⟩
  | ok st =>
      obtain ⟨bytes, hbytes, hdec⟩ := Codec.loadState_eq_ok hload
      have hboot : (Coordinator.boot fs epoch file p.disk).1 =
          ((Coordinator.new epoch).recover st).1 := by
        rw [Coordinator.boot, if_neg (by simp [hfile, hbytes]), hload]
      rcases h.stored with ⟨-, hnone⟩ | ⟨c, bytes', ⟨hPc, hle⟩, henc, hbytes'⟩
      · rw [hbytes] at hnone
        cases hnone
      · rw [hbytes] at hbytes'
        cases hbytes'
        have hres := @Kept.restart c (hP.orderly hPc).kept epoch st ⟨bytes, henc, hdec⟩
        change Resumed c ((Coordinator.new epoch).recover st).1 at hres
        rw [hboot, hres.nextPlanId]
        exact ⟨hP.resume hPc hres ((consistent_new epoch).recover st), hle⟩

/-- An event of a coordinator that has the property. -/
theorem Lasting.event (hP : Lasting fresh P) {c : Coordinator} (h : P c ∧ c.nextPlanId.toNat ≤ n)
    (hroom : n + 1 < 2 ^ 64) {e : Event} (he : ∀ st, e ≠ .recover st) :
    P (c.step e) ∧ (c.step e).nextPlanId.toNat ≤ n + 1 := by
  obtain ⟨hPc, hle⟩ := h
  have hlt : c.nextPlanId.toNat + 1 < 2 ^ 64 := by omega
  have hnext := nextPlanId_step_le (hP.orderly hPc).consistent he hlt
  refine ⟨hP.step hPc hlt he, ?_⟩
  rw [hnext]
  split_ifs <;> omega

theorem Standing.step (hP : Lasting fresh P) (h : Standing file fresh P n p)
    (hfile : file.bytes ≠ []) (hn : 1 ≤ n) (hroom : n + 1 < 2 ^ 64) {e : ProcessEvent}
    (hclear : Clear file e) (hflush : Flushes file p e) (hread : fresh ∨ Reads file p e) :
    Standing file fresh P (n + 1) (p.step file e) := by
  have hmore := h.mono n.le_succ
  cases hc : p.coord with
  | none =>
      cases e with
      | start fs epoch =>
          have hboot := @Standing.boot file fresh P (n + 1) p hP hmore hfile (by omega) fs epoch
            (hread.imp_right fun hr => hr hc)
          simp only [Process.step, hc]
          refine ⟨?_, hmore.stored⟩
          intro d hd
          generalize Coordinator.boot fs epoch file p.disk = o at hboot hd
          obtain ⟨c, r⟩ := o
          cases r with
          | ok u =>
              cases hd
              exact hboot
          | error err => cases hd
      | message fs m => simpa only [Process.step, hc] using hmore
      | workerDead w => simpa only [Process.step, hc] using hmore
      | kill fs m k => simpa only [Process.step, hc] using hmore
  | some c =>
      have hrun := h.running hc
      cases e with
      | message fs m =>
          simp only [Process.step, hc]
          have hops := @Standing.ops file fresh P (n + 1) p hmore c hc fs m hclear hflush
            (c.diskOps fs m).length
          rw [List.take_length] at hops
          refine hops ?_
          have hevent := hP.event hrun hroom (e := .message fs m) (by simp)
          change P (handle fs c m).1 ∧ (handle fs c m).1.nextPlanId.toNat ≤ n + 1 at hevent
          intro d hd
          generalize handle fs c m = o at hevent hd
          obtain ⟨c', r⟩ := o
          cases r with
          | ok u =>
              cases hd
              exact hevent
          | error err => cases hd
      | workerDead w =>
          simp only [Process.step, hc]
          refine ⟨?_, hmore.stored⟩
          intro d hd
          cases hd
          exact hP.event hrun hroom (e := .workerDead w) (by simp)
      | kill fs m k =>
          simp only [Process.step, hc]
          exact hmore.ops hc hclear hflush k (fun hd => by cases hd)
      | start fs epoch => simpa only [Process.step, hc] using hmore

theorem Standing.run (hP : Lasting fresh P) (h : Standing file fresh P n p)
    (hfile : file.bytes ≠ []) (hn : 1 ≤ n) {events : List ProcessEvent}
    (hroom : n + events.length < 2 ^ 64) (hclear : ∀ e ∈ events, Clear file e)
    (hflush : AllSteps (Process.step file) (Flushes file) p events)
    (hread : AllSteps (Process.step file) (fun p e => fresh ∨ Reads file p e) p events) :
    Standing file fresh P (n + events.length) (runFrom (Process.step file) p events) := by
  induction events generalizing n p with
  | nil => exact h
  | cons e rest ih =>
      rw [List.length_cons] at hroom ⊢
      have hnext := h.step hP hfile hn (by omega) (hclear e (by simp)) hflush.1 hread.1
      have hrest := ih hnext (by omega) (by omega) (fun x hx => hclear x (by simp [hx])) hflush.2
        hread.2
      rw [runFrom_cons]
      exact hrest.mono (by omega)

end Standing

/-! ## After an acknowledged save -/

end Process

end FragmentationGovernor
