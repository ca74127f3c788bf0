import FragmentationGovernor.Library.Interleaving
import FragmentationGovernor.Verification.Coordinator.Evidence
import FragmentationGovernor.Verification.Coordinator.Invalidation

/-! # Workers do not depend on each other

What a worker publishes, and its registrations and losses, change only its own evidence and
read nothing else. However the events of several workers are interleaved, the coordinator ends
in the same state and every worker gets the same replies. -/

namespace FragmentationGovernor

namespace Coordinator

/-! ## The traffic of workers -/

/-- The worker an event is about. -/
def Event.worker : Event → WorkerId
  | .message _ m => m.worker
  | .workerDead w => w
  | .recover _ => default
  | .advancePolicy => default

/-- Messages that name a resource to publish it or something on it. -/
def publishes (t : MsgType) : Bool :=
  match t with
  | .publishResource | .publishLayout | .publishAllocation => true
  | _ => false

/-- Registrations, publications, invalidations and losses of workers. Every resource has an
owner, and only the owner publishes it. -/
def Traffic (owner : ResourceId → WorkerId) : Event → Prop
  | .message _ m => m.type = .register ∨ m.type = .invalidateAllocation ∨
      (publishes m.type = true ∧ owner m.resource.id = m.worker)
  | .workerDead _ => True
  | .recover _ => False
  | .advancePolicy => False

/-- What an event answers. -/
def answer (c : Coordinator) : Event → Option (Except ValueError (List Message))
  | .message fs m => some (handle fs c m).2
  | _ => none

/-- Every record belongs to the owner of its resource. -/
def Owned (owner : ResourceId → WorkerId) (c : Coordinator) : Prop :=
  ∀ {rid rec}, c.resources.find? rid = some rec → rec.worker = owner rid

/-! ## Edits of one worker's evidence -/

/-- The edits that the events of a worker consist of. -/
inductive Edit
  | store (rid : ResourceId) (rec : WorkerResourceRecord)
  | die
  | enlist (boot : WorkerBootId)

def Edit.apply (w : WorkerId) (c : Coordinator) : Edit → Coordinator
  | .store rid rec => c.store rid rec
  | .die => c.markWorkerDead w
  | .enlist boot =>
      { c with
        workerBoot := c.workerBoot.insert w boot
        workerAlive := c.workerAlive.insert w true }

/-- A worker stores records of its own only. -/
def Edit.Allowed (owner : ResourceId → WorkerId) (w : WorkerId) : Edit → Prop
  | .store rid rec => owner rid = w ∧ rec.worker = w
  | _ => True

section Edits

variable {owner : ResourceId → WorkerId} {c : Coordinator} {w w' : WorkerId}

theorem Owned.edit (h : c.Owned owner) {e : Edit} (he : e.Allowed owner w) :
    (e.apply w c).Owned owner := by
  cases e with
  | store rid rec =>
      intro rid' rec' hfind
      change (c.resources.insert rid rec).find? rid' = some rec' at hfind
      by_cases hr : rid' = rid
      · rw [hr, OrdMap.find?_insert_self] at hfind
        cases hfind
        rw [hr, he.1, he.2]
      · rw [OrdMap.find?_insert_of_ne _ _ hr] at hfind
        exact h hfind
  | die =>
      intro rid' rec' hfind
      obtain ⟨old, hold, rfl⟩ := markWorkerDead_record hfind
      have howner := h hold
      exact howner
  | enlist boot => exact h

theorem targetsWorker_store (h : c.Owned owner) {rid : ResourceId} {rec : WorkerResourceRecord}
    (hrid : owner rid ≠ w) (hrec : rec.worker ≠ w) (plan : RemediationPlan) :
    targetsWorker (c.resources.insert rid rec) w plan = targetsWorker c.resources w plan := by
  unfold targetsWorker
  congr 1
  funext act
  by_cases hact : act.targetResource = rid
  · rw [hact, OrdMap.find?_insert_self]
    cases hold : c.resources.find? rid with
    | none => simp [hrec]
    | some old =>
        have hworker : old.worker ≠ w := by
          rw [h hold]
          exact hrid
        simp [hrec, hworker]
  · rw [OrdMap.find?_insert_of_ne _ _ hact]

theorem targetsWorker_dead (c : Coordinator) (w w' : WorkerId) (plan : RemediationPlan) :
    targetsWorker (c.markWorkerDead w').resources w plan = targetsWorker c.resources w plan := by
  unfold targetsWorker
  congr 1
  funext act
  rw [find?_markWorkerDead_resources]
  cases c.resources.find? act.targetResource with
  | none => rfl
  | some rec =>
      rw [Option.map_some]
      dsimp only
      split_ifs with hrec
      · rfl
      · rfl

/-- A plan that loses the source of its evidence. -/
def orphan (c : Coordinator) (w : WorkerId) (plan : RemediationPlan) : RemediationPlan :=
  if targetsWorker c.resources w plan then
    { plan with
      state := .revalidationRequired
      preconditionFailures := plan.preconditionFailures ++ [.ofString "evidence source died"] }
  else plan

theorem find?_markWorkerDead_plans (c : Coordinator) (w : WorkerId) (k : FragmentationPlanId) :
    (c.markWorkerDead w).plans.find? k = (c.plans.find? k).map (c.orphan w) := by
  change (c.plans.mapVals _).find? k = _
  rw [OrdMap.find?_mapVals]
  congr 1
  funext plan
  have hsame := c.targetsWorker_dead w w plan
  change targetsWorker (c.resources.mapVals _) w plan = _ at hsame
  rw [hsame, orphan]

/-! ### The edits of two workers commute -/

/-- Coordinators are equal when their maps hold the same and the rest is the same. -/
theorem ext_of_find? {c c' : Coordinator}
    (halive : ∀ k, c.workerAlive.find? k = c'.workerAlive.find? k)
    (hboot : ∀ k, c.workerBoot.find? k = c'.workerBoot.find? k)
    (hresources : ∀ k, c.resources.find? k = c'.resources.find? k)
    (hplans : ∀ k, c.plans.find? k = c'.plans.find? k)
    (hrest : { c with
      workerAlive := c'.workerAlive
      workerBoot := c'.workerBoot
      resources := c'.resources
      plans := c'.plans } = c') : c = c' := by
  rw [← hrest, ← OrdMap.ext_find? halive, ← OrdMap.ext_find? hboot, ← OrdMap.ext_find? hresources,
    ← OrdMap.ext_find? hplans]

theorem store_store (c : Coordinator) {rid rid' : ResourceId} (rec rec' : WorkerResourceRecord)
    (h : rid ≠ rid') : (c.store rid rec).store rid' rec' = (c.store rid' rec').store rid rec := by
  unfold store advanceResourceGeneration
  simp only [OrdMap.insert_comm _ rec rec' h]

theorem enlist_enlist (c : Coordinator) (boot boot' : WorkerBootId) (h : w ≠ w') :
    Edit.apply w' (Edit.apply w c (.enlist boot)) (.enlist boot') =
      Edit.apply w (Edit.apply w' c (.enlist boot')) (.enlist boot) := by
  unfold Edit.apply
  simp only [OrdMap.insert_comm _ boot boot' h, OrdMap.insert_comm _ true true h]

theorem die_die (c : Coordinator) (w w' : WorkerId) :
    (c.markWorkerDead w).markWorkerDead w' = (c.markWorkerDead w').markWorkerDead w := by
  refine ext_of_find? ?_ (fun _ => rfl) ?_ ?_ rfl
  · intro k
    simp only [find?_markWorkerDead_alive]
    by_cases hk : k = w
    · by_cases hk' : k = w'
      · rw [← hk, ← hk']
      · rw [hk] at hk' ⊢
        simp [hk']
    · by_cases hk' : k = w'
      · rw [hk'] at hk ⊢
        simp [hk]
      · simp [hk, hk']
  · intro k
    simp only [find?_markWorkerDead_resources, Option.map_map]
    congr 1
    funext rec
    simp only [Function.comp_apply]
    split_ifs <;> rfl
  · intro k
    simp only [find?_markWorkerDead_plans, Option.map_map]
    congr 1
    funext plan
    simp only [Function.comp_apply, orphan, targetsWorker_dead]
    have hsame : ∀ v state failures, targetsWorker c.resources v
        { plan with state := state, preconditionFailures := failures } =
          targetsWorker c.resources v plan := fun _ _ _ => rfl
    cases hw : targetsWorker c.resources w plan with
    | false =>
        cases hw' : targetsWorker c.resources w' plan with
        | false => simp [hw, hw']
        | true => simp [hw, hw', hsame]
    | true =>
        cases hw' : targetsWorker c.resources w' plan with
        | false => simp [hw, hw', hsame]
        | true => simp [hw, hw', hsame]

theorem die_enlist (c : Coordinator) (boot : WorkerBootId) (h : w ≠ w') :
    Edit.apply w' (c.markWorkerDead w) (.enlist boot) =
      (Edit.apply w' c (.enlist boot)).markWorkerDead w := by
  refine ext_of_find? ?_ (fun _ => rfl) (fun _ => rfl) (fun _ => rfl) rfl
  intro k
  change ((c.markWorkerDead w).workerAlive.insert w' true).find? k = _
  rw [find?_markWorkerDead_alive, OrdMap.find?_insert, find?_markWorkerDead_alive]
  change _ = if k = w then ((c.workerAlive.insert w' true).find? w).map (fun _ => false)
    else (c.workerAlive.insert w' true).find? k
  rw [OrdMap.find?_insert_of_ne _ _ h, OrdMap.find?_insert]
  by_cases hk : k = w
  · rw [if_pos hk, if_pos hk, if_neg (fun hk' => h (hk.symm.trans hk'))]
  · rw [if_neg hk, if_neg hk]

theorem die_store (hown : c.Owned owner) {rid : ResourceId} {rec : WorkerResourceRecord}
    (hrid : owner rid ≠ w) (hrec : rec.worker ≠ w) :
    (c.markWorkerDead w).store rid rec = (c.store rid rec).markWorkerDead w := by
  refine ext_of_find? (fun _ => rfl) (fun _ => rfl) ?_ ?_ rfl
  · intro k
    change ((c.markWorkerDead w).resources.insert rid rec).find? k = _
    rw [find?_markWorkerDead_resources, OrdMap.find?_insert, find?_markWorkerDead_resources]
    change _ = ((c.resources.insert rid rec).find? k).map _
    rw [OrdMap.find?_insert]
    by_cases hk : k = rid
    · rw [if_pos hk, if_pos hk, Option.map_some, if_neg hrec]
    · rw [if_neg hk, if_neg hk]
  · intro k
    change (c.markWorkerDead w).plans.find? k = _
    rw [find?_markWorkerDead_plans, find?_markWorkerDead_plans]
    change _ = (c.plans.find? k).map _
    congr 1
    funext plan
    unfold orphan
    change _ = if targetsWorker (c.resources.insert rid rec) w plan then _ else _
    rw [targetsWorker_store hown hrid hrec]

/-- Edits of different workers commute. -/
theorem Owned.edit_comm (hown : c.Owned owner) {e e' : Edit} (he : e.Allowed owner w)
    (he' : e'.Allowed owner w') (h : w ≠ w') :
    Edit.apply w' (Edit.apply w c e) e' = Edit.apply w (Edit.apply w' c e') e := by
  cases e with
  | store rid rec =>
      cases e' with
      | store rid' rec' =>
          refine store_store c rec rec' ?_
          rintro rfl
          exact h (he.1.symm.trans he'.1)
      | die =>
          exact (die_store hown (by rw [he.1]; exact h) (by rw [he.2]; exact h)).symm
      | enlist boot => rfl
  | die =>
      cases e' with
      | store rid' rec' =>
          exact die_store hown (by rw [he'.1]; exact h.symm) (by rw [he'.2]; exact h.symm)
      | die => exact die_die c w w'
      | enlist boot => exact die_enlist c boot h
  | enlist boot =>
      cases e' with
      | store rid' rec' => rfl
      | die => exact (die_enlist c boot h.symm).symm
      | enlist boot' => exact enlist_enlist c boot boot' h

/-! ### What a worker can see -/

/-- The coordinators hold the same evidence of the worker. -/
structure Agree (owner : ResourceId → WorkerId) (w : WorkerId) (c c' : Coordinator) : Prop where
  alive : c'.workerAlive.find? w = c.workerAlive.find? w
  boot : c'.workerBoot.find? w = c.workerBoot.find? w
  resources : ∀ rid, owner rid = w → c'.resources.find? rid = c.resources.find? rid

theorem Agree.refl (c : Coordinator) : Agree owner w c c := ⟨rfl, rfl, fun _ _ => rfl⟩

theorem Agree.trans {c₁ c₂ c₃ : Coordinator} (h : Agree owner w c₁ c₂) (h' : Agree owner w c₂ c₃) :
    Agree owner w c₁ c₃ :=
  ⟨h'.alive.trans h.alive, h'.boot.trans h.boot,
    fun rid hrid => (h'.resources rid hrid).trans (h.resources rid hrid)⟩

/-- The edits of one worker are not seen by another. -/
theorem Owned.agree_edit (hown : c.Owned owner) {e : Edit} (he : e.Allowed owner w)
    (h : w' ≠ w) : Agree owner w' c (e.apply w c) := by
  cases e with
  | store rid rec =>
      refine ⟨rfl, rfl, ?_⟩
      intro rid' hrid'
      refine OrdMap.find?_insert_of_ne _ _ ?_
      rintro rfl
      exact h (hrid'.symm.trans he.1)
  | die =>
      refine ⟨?_, rfl, ?_⟩
      · change (c.markWorkerDead w).workerAlive.find? w' = _
        rw [find?_markWorkerDead_alive, if_neg h]
      · intro rid hrid
        change (c.markWorkerDead w).resources.find? rid = _
        rw [find?_markWorkerDead_resources]
        cases hrec : c.resources.find? rid with
        | none => rfl
        | some rec =>
            have hworker : rec.worker ≠ w := by
              rw [hown hrec, hrid]
              exact h
            rw [Option.map_some, if_neg hworker]
  | enlist boot =>
      exact ⟨OrdMap.find?_insert_of_ne _ _ h, OrdMap.find?_insert_of_ne _ _ h, fun _ _ => rfl⟩

/-! ### Several edits -/

theorem Owned.edits (hown : c.Owned owner) {es : List Edit} (hes : ∀ e ∈ es, e.Allowed owner w) :
    (runFrom (Edit.apply w) c es).Owned owner := by
  induction es generalizing c with
  | nil => exact hown
  | cons e es ih =>
      exact ih (hown.edit (hes e (by simp))) (fun x hx => hes x (by simp [hx]))

theorem Owned.agree_edits (hown : c.Owned owner) {es : List Edit}
    (hes : ∀ e ∈ es, e.Allowed owner w) (h : w' ≠ w) :
    Agree owner w' c (runFrom (Edit.apply w) c es) := by
  induction es generalizing c with
  | nil => exact .refl c
  | cons e es ih =>
      have he := hes e (by simp)
      exact (hown.agree_edit he h).trans
        (ih (hown.edit he) (fun x hx => hes x (by simp [hx])))

theorem Owned.edit_edits (hown : c.Owned owner) {e : Edit} {es : List Edit}
    (he : e.Allowed owner w) (hes : ∀ x ∈ es, x.Allowed owner w') (h : w ≠ w') :
    runFrom (Edit.apply w') (Edit.apply w c e) es =
      Edit.apply w (runFrom (Edit.apply w') c es) e := by
  induction es generalizing c with
  | nil => rfl
  | cons x es ih =>
      have hx := hes x (by simp)
      rw [runFrom_cons, hown.edit_comm he hx h,
        ih (hown.edit hx) (fun y hy => hes y (by simp [hy]))]
      rfl

theorem Owned.edits_comm (hown : c.Owned owner) {es es' : List Edit}
    (hes : ∀ e ∈ es, e.Allowed owner w) (hes' : ∀ e ∈ es', e.Allowed owner w') (h : w ≠ w') :
    runFrom (Edit.apply w') (runFrom (Edit.apply w) c es) es' =
      runFrom (Edit.apply w) (runFrom (Edit.apply w') c es') es := by
  induction es generalizing c with
  | nil => rfl
  | cons e es ih =>
      have he := hes e (by simp)
      rw [runFrom_cons, runFrom_cons, ih (hown.edit he) (fun x hx => hes x (by simp [hx])),
        hown.edit_edits he hes' h]

end Edits

/-! ## Events as edits -/

section Responses

variable {owner : ResourceId → WorkerId} {c : Coordinator}

/-- Two coordinators that agree on what a worker can see, the second one a proper state. -/
structure Alike (owner : ResourceId → WorkerId) (w : WorkerId) (c c' : Coordinator) : Prop
    extends Agree owner w c c' where
  consistent : c'.Consistent
  owned : c'.Owned owner

/-- The event makes the edits and gives the answer in every coordinator that agrees on what
its worker can see. -/
structure Responds (owner : ResourceId → WorkerId) (c : Coordinator) (e : Event)
    (edits : List Edit) (r : Option (Except ValueError (List Message))) : Prop where
  allowed : ∀ x ∈ edits, x.Allowed owner e.worker
  step : ∀ {c'}, Alike owner e.worker c c' →
    c'.step e = runFrom (Edit.apply e.worker) c' edits ∧ c'.answer e = r

section Message

variable {fs : Codec.SaveOutcome} {m : Message}

/-- A message whose handling is settled by what its worker can see. -/
theorem responds_of_outcome {edits : List Edit} {r : Except ValueError (List Message)}
    (hallowed : ∀ x ∈ edits, x.Allowed owner m.worker)
    (hstep : ∀ {c' : Coordinator}, Alike owner m.worker c c' →
      handle fs c' m = (runFrom (Edit.apply m.worker) c' edits, r)) :
    Responds owner c (.message fs m) edits (some r) := by
  refine ⟨hallowed, fun {c'} hagree => ?_⟩
  have heq := hstep hagree
  change (handle fs c' m).1 = _ ∧ some (handle fs c' m).2 = _
  rw [heq]
  exact ⟨rfl, rfl⟩

theorem responds_reject (why : String)
    (hstep : ∀ {c' : Coordinator}, Alike owner m.worker c c' →
      handle fs c' m = c'.reject why) :
    Responds owner c (.message fs m) [] (some (.ok [fail why])) :=
  responds_of_outcome (by simp) hstep

theorem responds_raise (err : ValueError)
    (hstep : ∀ {c' : Coordinator}, Alike owner m.worker c c' →
      handle fs c' m = (c', .error err)) :
    Responds owner c (.message fs m) [] (some (.error err)) :=
  responds_of_outcome (by simp) hstep

theorem responds_accept {edits : List Edit} (hallowed : ∀ x ∈ edits, x.Allowed owner m.worker)
    (hstep : ∀ {c' : Coordinator}, Alike owner m.worker c c' →
      handle fs c' m = (runFrom (Edit.apply m.worker) c' edits).accept) :
    Responds owner c (.message fs m) edits (some (.ok [done])) :=
  responds_of_outcome hallowed hstep

theorem responds_register (htype : m.type = .register) :
    ∃ edits r, Responds owner c (.message fs m) edits r := by
  by_cases hboot : m.workerBoot = 0
  · refine ⟨_, _, responds_reject "REGISTER requires fresh WorkerBootId" fun {c'} _ => ?_⟩
    rw [handle_register htype, handleRegister, if_pos hboot]
  · rcases dropStale_cases c m with ⟨-, hsame⟩ | ⟨-, boot, hfind, hne⟩
    · refine ⟨[.enlist ⟨m.workerBoot⟩], _,
        responds_accept (by simp [Edit.Allowed]) fun {c'} hagree => ?_⟩
      have hdrop : c'.dropStale m = c' := by
        rcases dropStale_cases c' m with ⟨heq, -⟩ | ⟨-, boot, hfind, hne⟩
        · exact heq
        · rw [hagree.boot] at hfind
          exact (hne (hsame boot hfind)).elim
      rw [handle_register htype, handleRegister, if_neg hboot, register, hdrop]
      rfl
    · refine ⟨[.die, .enlist ⟨m.workerBoot⟩], _,
        responds_accept (by simp [Edit.Allowed]) fun {c'} hagree => ?_⟩
      have hdrop : c'.dropStale m = c'.markWorkerDead m.worker := by
        rcases dropStale_cases c' m with ⟨-, hsame⟩ | ⟨heq, -⟩
        · exact (hne (hsame boot (hagree.boot.trans hfind))).elim
        · exact heq
      rw [handle_register htype, handleRegister, if_neg hboot, register, hdrop]
      rfl

/-- The tests every publication starts with come out alike. -/
theorem Consistent.fromWorker_agree (hcons : c.Consistent) (owner : ResourceId → WorkerId)
    (m : Message) :
    (∃ why, ∀ {c' : Coordinator}, Alike owner m.worker c c' →
        ∀ k, c'.fromWorker m k = c'.reject why) ∨
      (c.Authentic m ∧ ∀ {c' : Coordinator}, Alike owner m.worker c c' →
        ∀ k, c'.fromWorker m k = k c') := by
  cases halive : c.workerAlive.find? m.worker with
  | none =>
      refine Or.inl ⟨"unregistered/dead worker", fun {c'} hagree k => ?_⟩
      rw [fromWorker, hagree.alive, halive]
  | some b =>
      cases b with
      | false =>
          refine Or.inl ⟨"unregistered/dead worker", fun {c'} hagree k => ?_⟩
          rw [fromWorker, hagree.alive, halive]
      | true =>
          obtain ⟨boot, hboot⟩ := hcons.bootKnown halive
          by_cases hb : boot.value ≠ m.workerBoot
          · refine Or.inl ⟨"stale WorkerBootId", fun {c'} hagree k => ?_⟩
            rw [fromWorker_eq (hagree.alive.trans halive) (hagree.boot.trans hboot), if_pos hb]
          · rw [not_not] at hb
            refine Or.inr ⟨⟨halive, by rw [hboot, ← hb]⟩, fun {c'} hagree k => ?_⟩
            rw [fromWorker_eq (hagree.alive.trans halive) (hagree.boot.trans hboot),
              if_neg (not_not.mpr hb)]

theorem responds_publishResource (hcons : c.Consistent) (htype : m.type = .publishResource)
    (howner : owner m.resource.id = m.worker) :
    ∃ edits r, Responds owner c (.message fs m) edits r := by
  have hhandle : ∀ c', handle fs c' m = c'.handlePublishResource m := by
    intro c'
    simp only [handle, htype]
  rcases hcons.fromWorker_agree owner m with ⟨why, hreject⟩ | ⟨-, hpass⟩
  · refine ⟨_, _, responds_reject why fun {c'} hagree => ?_⟩
    rw [hhandle, handlePublishResource, hreject hagree]
  · have hstale : ∀ {c'}, Alike owner m.worker c c' → c'.staleResource m = c.staleResource m := by
      intro c' hagree
      rw [staleResource, staleResource, hagree.resources _ howner]
    cases hs : c.staleResource m with
    | true =>
        refine ⟨_, _, responds_reject "stale ResourceGeneration" fun {c'} hagree => ?_⟩
        rw [hhandle, handlePublishResource, hpass hagree, if_pos ((hstale hagree).trans hs)]
    | false =>
        refine ⟨[.store m.resource.id (freshRecord m)], _,
          responds_accept ?_ fun {c'} hagree => ?_⟩
        · simp [Edit.Allowed, howner, freshRecord]
        · rw [hhandle, handlePublishResource, hpass hagree, hstale hagree, hs]
          rfl

theorem responds_publishLayout (hcons : c.Consistent) (hown : c.Owned owner)
    (htype : m.type = .publishLayout) (howner : owner m.resource.id = m.worker) :
    ∃ edits r, Responds owner c (.message fs m) edits r := by
  have hhandle : ∀ c', handle fs c' m = c'.handlePublishLayout m := by
    intro c'
    simp only [handle, htype]
  rcases hcons.fromWorker_agree owner m with ⟨why, hreject⟩ | ⟨-, hpass⟩
  · refine ⟨_, _, responds_reject why fun {c'} hagree => ?_⟩
    rw [hhandle, handlePublishLayout, hreject hagree]
  · cases hrec : c.resources.find? m.resource.id with
    | none =>
        refine ⟨_, _, responds_reject "unknown resource" fun {c'} hagree => ?_⟩
        rw [hhandle, handlePublishLayout, hpass hagree, hagree.resources _ howner, hrec]
    | some rec =>
        have hworker : rec.worker = m.worker := (hown hrec).trans howner
        by_cases hgen : m.resourceGen < rec.resource.generation.value
        · refine ⟨_, _, responds_reject "stale ResourceGeneration" fun {c'} hagree => ?_⟩
          rw [hhandle, handlePublishLayout, hpass hagree, hagree.resources _ howner, hrec]
          dsimp only
          rw [if_neg (not_not.mpr hworker), if_pos hgen]
        · cases hins : insertAll m.allocations (.ofCapacity rec.resource.capacity) with
          | error err =>
              refine ⟨_, _, responds_raise err fun {c'} hagree => ?_⟩
              rw [hhandle, handlePublishLayout, hpass hagree, hagree.resources _ howner, hrec]
              dsimp only
              rw [if_neg (not_not.mpr hworker), if_neg hgen, hins]
          | ok r =>
              cases r with
              | error why =>
                  refine ⟨_, _, responds_reject ("layout insert rejected: " ++ why)
                    fun {c'} hagree => ?_⟩
                  rw [hhandle, handlePublishLayout, hpass hagree, hagree.resources _ howner, hrec]
                  dsimp only
                  rw [if_neg (not_not.mpr hworker), if_neg hgen, hins]
              | ok layout =>
                  refine ⟨[.store m.resource.id { rec with layout := layout }], _,
                    responds_accept ?_ fun {c'} hagree => ?_⟩
                  · simp [Edit.Allowed, howner, hworker]
                  · rw [hhandle, handlePublishLayout, hpass hagree, hagree.resources _ howner,
                      hrec]
                    dsimp only
                    rw [if_neg (not_not.mpr hworker), if_neg hgen, hins]
                    rfl

theorem responds_publishAllocation (hcons : c.Consistent) (hown : c.Owned owner)
    (htype : m.type = .publishAllocation) (howner : owner m.resource.id = m.worker) :
    ∃ edits r, Responds owner c (.message fs m) edits r := by
  have hhandle : ∀ c', handle fs c' m = c'.handlePublishAllocation m := by
    intro c'
    simp only [handle, htype]
  rcases hcons.fromWorker_agree owner m with ⟨why, hreject⟩ | ⟨-, hpass⟩
  · refine ⟨_, _, responds_reject why fun {c'} hagree => ?_⟩
    rw [hhandle, handlePublishAllocation, hreject hagree]
  · cases hrec : c.resources.find? m.resource.id with
    | none =>
        refine ⟨_, _, responds_reject "unknown resource" fun {c'} hagree => ?_⟩
        rw [hhandle, handlePublishAllocation, hpass hagree, hagree.resources _ howner, hrec]
    | some rec =>
        have hworker : rec.worker = m.worker := (hown hrec).trans howner
        cases hins : rec.layout.insertAllocation m.allocation with
        | error err =>
            refine ⟨_, _, responds_raise err fun {c'} hagree => ?_⟩
            rw [hhandle, handlePublishAllocation, hpass hagree, hagree.resources _ howner, hrec]
            dsimp only
            rw [hins]
        | ok r =>
            obtain ⟨layout, reply⟩ := r
            cases reply with
            | error why =>
                refine ⟨_, _, responds_reject ("allocation rejected: " ++ why)
                  fun {c'} hagree => ?_⟩
                rw [hhandle, handlePublishAllocation, hpass hagree, hagree.resources _ howner,
                  hrec]
                dsimp only
                rw [hins]
            | ok u =>
                refine ⟨[.store m.resource.id { rec with layout := layout }], _,
                  responds_accept ?_ fun {c'} hagree => ?_⟩
                · simp [Edit.Allowed, howner, hworker]
                · rw [hhandle, handlePublishAllocation, hpass hagree, hagree.resources _ howner,
                    hrec]
                  dsimp only
                  rw [hins]
                  rfl

/-- The first record that holds an allocation for the worker is the same in both. -/
theorem FirstHolder.agree {id : AllocationId} {w : WorkerId} (hown : c.Owned owner)
    {c' : Coordinator} (halike : Alike owner w c c') {rid rid' : ResourceId}
    {rec rec' : WorkerResourceRecord} (h : FirstHolder c w id rid rec)
    (h' : FirstHolder c' w id rid' rec') : rid' = rid ∧ rec' = rec := by
  have howner : owner rid = w := (hown h.found).symm.trans h.holds.1
  have howner' : owner rid' = w := (halike.owned h'.found).symm.trans h'.holds.1
  have hfound : c'.resources.find? rid = some rec := (halike.resources rid howner).trans h.found
  have hfound' : c.resources.find? rid' = some rec' :=
    (halike.resources rid' howner').symm.trans h'.found
  have heq : rid' = rid :=
    le_antisymm (h'.first rid rec hfound h.holds) (h.first rid' rec' hfound' h'.holds)
  refine ⟨heq, ?_⟩
  rw [heq, h.found] at hfound'
  exact (Option.some.inj hfound').symm

theorem responds_invalidateAllocation (hcons : c.Consistent) (hown : c.Owned owner)
    (htype : m.type = .invalidateAllocation) :
    ∃ edits r, Responds owner c (.message fs m) edits r := by
  rcases hcons.fromWorker_agree owner m with ⟨why, hreject⟩ | ⟨hauth, -⟩
  · refine ⟨_, _, responds_reject why fun {c'} hagree => ?_⟩
    rw [handle_invalidateAllocation htype, handleInvalidateAllocation, hreject hagree]
  · have hauth' : ∀ {c'}, Alike owner m.worker c c' → c'.Authentic m := fun halike =>
      ⟨halike.alive.trans hauth.1, halike.boot.trans hauth.2⟩
    rcases hcons.handleInvalidateAllocation_cases hauth with
      ⟨-, hnone⟩ | ⟨rid, rec, layout, hfirst, hrem, -⟩
    · refine ⟨_, _, responds_reject "allocation not found" fun {c'} halike => ?_⟩
      rw [handle_invalidateAllocation htype]
      rcases halike.consistent.handleInvalidateAllocation_cases (hauth' halike) with
        ⟨hrej, -⟩ | ⟨rid, rec, -, hfirst, -, -⟩
      · exact hrej
      · have howner : owner rid = m.worker :=
          (halike.owned hfirst.found).symm.trans hfirst.holds.1
        have hfound := (halike.resources rid howner).symm.trans hfirst.found
        exact absurd hfirst.holds (hnone rid rec hfound)
    · have howner : owner rid = m.worker := (hown hfirst.found).symm.trans hfirst.holds.1
      refine ⟨[.store rid { rec with layout := layout }], _,
        responds_accept ?_ fun {c'} halike => ?_⟩
      · simp [Edit.Allowed, howner, hfirst.holds.1]
      · rw [handle_invalidateAllocation htype]
        rcases halike.consistent.handleInvalidateAllocation_cases (hauth' halike) with
          ⟨-, hnone⟩ | ⟨rid', rec', layout', hfirst', hrem', hacc⟩
        · have hfound := (halike.resources rid howner).trans hfirst.found
          exact absurd hfirst.holds (hnone rid rec hfound)
        · obtain ⟨rfl, rfl⟩ := hfirst.agree hown halike hfirst'
          rw [hrem] at hrem'
          cases hrem'
          exact hacc

end Message

/-- Every event of the traffic is a list of edits and an answer. -/
theorem exists_responds (hcons : c.Consistent) (hown : c.Owned owner) {e : Event}
    (h : Traffic owner e) : ∃ edits r, Responds owner c e edits r := by
  cases e with
  | message fs m =>
      rcases h with htype | htype | ⟨htype, howner⟩
      · exact responds_register htype
      · exact responds_invalidateAllocation hcons hown htype
      · unfold publishes at htype
        split at htype
        case h_1 htype' => exact responds_publishResource hcons htype' howner
        case h_2 htype' => exact responds_publishLayout hcons hown htype' howner
        case h_3 htype' => exact responds_publishAllocation hcons hown htype' howner
        case h_4 => cases htype
  | workerDead w => exact ⟨[.die], none, by simp [Edit.Allowed], fun _ => ⟨rfl, rfl⟩⟩
  | recover st => exact h.elim
  | advancePolicy => exact h.elim

/-- A coordinator is alike itself, also after edits of another worker. -/
theorem Responds.alike (hcons : c.Consistent) (hown : c.Owned owner) {a b : Event}
    {edits : List Edit} {r : Option (Except ValueError (List Message))}
    (h : Responds owner c a edits r) (hne : b.worker ≠ a.worker) :
    Alike owner b.worker c (c.step a) := by
  have hstep := (h.step ⟨.refl c, hcons, hown⟩).1
  refine ⟨?_, hcons.step a, ?_⟩
  · rw [hstep]
    exact hown.agree_edits h.allowed hne
  · rw [hstep]
    exact hown.edits h.allowed

/-- Events of different workers commute and do not change each other's answers. -/
theorem traffic_commutes (owner : ResourceId → WorkerId) :
    KeysCommute step answer Event.worker (fun c => c.Consistent ∧ c.Owned owner)
      (Traffic owner) where
  keep := by
    rintro c e ⟨hcons, hown⟩ he
    obtain ⟨edits, r, h⟩ := exists_responds hcons hown he
    refine ⟨hcons.step e, ?_⟩
    rw [(h.step ⟨.refl c, hcons, hown⟩).1]
    exact hown.edits h.allowed
  swap := by
    rintro c a b ⟨hcons, hown⟩ ha hb hne
    obtain ⟨edits, r, h⟩ := exists_responds hcons hown ha
    obtain ⟨edits', r', h'⟩ := exists_responds hcons hown hb
    have hself := (h.step ⟨.refl c, hcons, hown⟩).1
    have hself' := (h'.step ⟨.refl c, hcons, hown⟩).1
    rw [(h'.step (h.alike hcons hown hne.symm)).1, (h.step (h'.alike hcons hown hne)).1, hself,
      hself']
    exact hown.edits_comm h.allowed h'.allowed hne
  steady := by
    rintro c a b ⟨hcons, hown⟩ ha hb hne
    obtain ⟨edits, r, h⟩ := exists_responds hcons hown ha
    obtain ⟨edits', r', h'⟩ := exists_responds hcons hown hb
    rw [(h'.step (h.alike hcons hown hne.symm)).2, (h'.step ⟨.refl c, hcons, hown⟩).2]

end Responses

/-! ## Interleavings of the traffic -/

/-- From every reachable coordinator whose records belong to their owners: however the traffic
of the workers is interleaved, it ends in the same coordinator, and every worker gets the same
answers. -/
theorem worker_interleavings (owner : ResourceId → WorkerId) (epoch : CoordinatorEpoch)
    (front events events' : List Event)
    (hown : (runFrom step (new epoch) front).Owned owner)
    (htraffic : ∀ e ∈ events, Traffic owner e)
    (hsame : ∀ w, eventsOf Event.worker w events = eventsOf Event.worker w events') :
    runFrom step (new epoch) (front ++ events) = runFrom step (new epoch) (front ++ events') ∧
      ∀ w, outputsOf step answer Event.worker w (runFrom step (new epoch) front) events =
        outputsOf step answer Event.worker w (runFrom step (new epoch) front) events' := by
  rw [runFrom_append, runFrom_append]
  exact (traffic_commutes owner).interleavings ⟨consistent_run epoch front, hown⟩ htraffic hsame

theorem owned_new (owner : ResourceId → WorkerId) (epoch : CoordinatorEpoch) :
    (new epoch).Owned owner := by
  intro rid rec hrec
  cases hrec

/-- Worker `w` registers and publishes its resource with the allocation `scratch`. -/
def arrival (w : UInt64) : List Event :=
  [.register w 1, .publishResource w 1 { smallResource with id := ⟨w⟩ },
    .publishAllocation w 1 { smallResource with id := ⟨w⟩ } scratch].map (.message disk)

theorem eventsOf_arrival (v : UInt64) (w : WorkerId) :
    eventsOf Event.worker w (arrival v) = if w = ⟨v⟩ then arrival v else [] := by
  have hworker : ∀ e ∈ arrival v, e.worker = ⟨v⟩ := by
    simp [arrival, Event.worker, Message.register, Message.publishResource,
      Message.publishAllocation, Message.worker]
  by_cases h : w = ⟨v⟩
  · rw [if_pos h, eventsOf, List.filter_eq_self]
    intro e he
    rw [hworker e he, h]
    exact decide_eq_true rfl
  · rw [if_neg h, eventsOf, List.filter_eq_nil_iff]
    intro e he
    rw [hworker e he]
    simpa using Ne.symm h

/-- It does not matter which of two workers arrives first. -/
theorem worker_interleavings_arrival :
    runFrom step (new ⟨1⟩) ([] ++ (arrival 1 ++ arrival 2)) =
        runFrom step (new ⟨1⟩) ([] ++ (arrival 2 ++ arrival 1)) ∧
      ∀ w, outputsOf step answer Event.worker w (runFrom step (new ⟨1⟩) [])
          (arrival 1 ++ arrival 2) =
        outputsOf step answer Event.worker w (runFrom step (new ⟨1⟩) [])
          (arrival 2 ++ arrival 1) := by
  refine worker_interleavings (fun rid => ⟨rid.value⟩) ⟨1⟩ [] _ _
    (@owned_new (fun rid => ⟨rid.value⟩) ⟨1⟩) ?_ ?_
  · simp [arrival, Traffic, publishes, Message.register, Message.publishResource,
      Message.publishAllocation, Message.worker]
  · intro w
    have hsplit := eventsOf_arrival 1 w
    have hsplit' := eventsOf_arrival 2 w
    unfold eventsOf at hsplit hsplit' ⊢
    rw [List.filter_append, List.filter_append, hsplit, hsplit']
    by_cases h : w = ⟨1⟩
    · subst h
      rw [if_pos rfl, if_neg (by decide), List.append_nil, List.nil_append]
    · rw [if_neg h, List.append_nil, List.nil_append]

end Coordinator

end FragmentationGovernor
