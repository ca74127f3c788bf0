import FragmentationGovernor.Verification.Coordinator.Interleaving
import FragmentationGovernor.Verification.Layout.Registry

/-! # The evidence as an account of the conversation

A ledger notes what the accepted messages say: for each resource its publication and the
allocations it holds, as a plain map. It sees requests and replies and nothing of the
coordinator, and it never computes a layout. The evidence of the coordinator is exactly what
the ledger says. -/

namespace FragmentationGovernor

/-! ## The ledger -/

/-- What is noted of a resource. -/
structure Holding where
  resource : Resource
  worker : WorkerId
  boot : WorkerBootId
  alive : Bool
  provenance : Provenance
  contents : OrdMap AllocationId Allocation

@[ext]
structure Ledger where
  holdings : OrdMap ResourceId Holding := ∅
  boots : OrdMap WorkerId WorkerBootId := ∅
  /-- the actions of each plan -/
  actions : OrdMap FragmentationPlanId (List PlanAction) := ∅

namespace Ledger

/-- Changes the contents of a resource. -/
def edit (L : Ledger) (rid : ResourceId)
    (f : OrdMap AllocationId Allocation → OrdMap AllocationId Allocation) : Ledger :=
  match L.holdings.find? rid with
  | some h => { L with holdings := L.holdings.insert rid { h with contents := f h.contents } }
  | none => L

/-- The evidence of the worker is no longer current. -/
def bury (L : Ledger) (w : WorkerId) : Ledger :=
  { L with
    holdings := L.holdings.mapVals (fun _ h =>
      if h.worker = w then { h with alive := false } else h) }

/-- The worker speaks under the boot id from now on. -/
def enrol (L : Ledger) (w : WorkerId) (boot : WorkerBootId) : Ledger :=
  { L with boots := L.boots.insert w boot }

/-- A boot id other than the noted one ends the previous incarnation. -/
def supersede (L : Ledger) (w : WorkerId) (boot : WorkerBootId) : Ledger :=
  match L.boots.find? w with
  | some old => if old ≠ boot then L.bury w else L
  | none => L

/-- The allocations of a publication as a map. -/
def ofAllocations (as : List Allocation) : OrdMap AllocationId Allocation :=
  as.foldl (fun contents a => contents.insert a.id a) ∅

/-- A published resource, empty. -/
def published (m : Message) : Holding where
  resource := Coordinator.publishedResource m
  worker := m.worker
  boot := ⟨m.workerBoot⟩
  alive := true
  provenance := m.resource.provenance
  contents := ∅

/-- The first resource of the worker that holds the allocation. -/
def holder (L : Ledger) (w : WorkerId) (id : AllocationId) : Option ResourceId :=
  (L.holdings.entries.find? (fun e => decide (e.2.worker = w) && e.2.contents.contains id)).map
    (fun e => e.1)

/-- What an action takes from its target. -/
def take (L : Ledger) (act : PlanAction) : Ledger :=
  match act.sourceAllocation with
  | some id => L.edit act.targetResource (fun contents => contents.erase id)
  | none => L

/-- Takes note of an accepted message. -/
def credit (L : Ledger) (m reply : Message) : Ledger :=
  match m.type with
  | .register => (L.supersede m.worker ⟨m.workerBoot⟩).enrol m.worker ⟨m.workerBoot⟩
  | .publishResource =>
      { L with holdings := L.holdings.insert m.resource.id (published m) }
  | .publishLayout => L.edit m.resource.id (fun _ => ofAllocations m.allocations)
  | .publishAllocation =>
      L.edit m.resource.id (fun contents => contents.insert m.allocation.id m.allocation)
  | .invalidateAllocation =>
      match L.holder m.worker ⟨m.allocationId⟩ with
      | some rid => L.edit rid (fun contents => contents.erase ⟨m.allocationId⟩)
      | none => L
  | .createPlan => { L with actions := L.actions.insert reply.plan.id reply.plan.actions }
  | .actionComplete =>
      if m.actionOk then
        match L.actions.find? m.planKey with
        | some acts =>
            match acts[m.actionIndex.toNat]? with
            | some act => L.take act
            | none => L
        | none => L
      else L
  | _ => L

/-- What is read off a message and its replies. -/
def hear (L : Ledger) (m : Message) : Except ValueError (List Message) → Ledger
  | .ok [reply] => if reply.ok then L.credit m reply else L
  | _ => L

/-- Follows one event of the conversation. -/
def observe (L : Ledger) : Coordinator.Event × Option (Except ValueError (List Message)) → Ledger
  | (.message _ m, some r) => L.hear m r
  | (.workerDead w, _) => L.bury w
  | _ => L

end Ledger

namespace Coordinator

/-! ## What the coordinator holds -/

def holdingOf (rec : WorkerResourceRecord) : Holding :=
  ⟨rec.resource, rec.worker, rec.boot, rec.alive, rec.provenance, rec.layout.allocations⟩

/-- The evidence without its layouts. -/
def ledger (c : Coordinator) : Ledger where
  holdings := c.resources.mapVals (fun _ rec => holdingOf rec)
  boots := c.workerBoot
  actions := c.plans.mapVals (fun _ plan => plan.actions)

section View

variable {c : Coordinator}

theorem find?_ledger_holdings (c : Coordinator) (rid : ResourceId) :
    c.ledger.holdings.find? rid = (c.resources.find? rid).map holdingOf :=
  OrdMap.find?_mapVals _ _ _

theorem ledger_store (c : Coordinator) (rid : ResourceId) (rec : WorkerResourceRecord) :
    (c.store rid rec).ledger =
      { c.ledger with holdings := c.ledger.holdings.insert rid (holdingOf rec) } := by
  unfold ledger store advanceResourceGeneration
  dsimp only
  rw [OrdMap.mapVals_insert]

/-- A layout is stored where the ledger changes contents. -/
theorem ledger_store_layout {rid : ResourceId} {rec : WorkerResourceRecord}
    (hrec : c.resources.find? rid = some rec) {layout : ResourceLayout}
    {f : OrdMap AllocationId Allocation → OrdMap AllocationId Allocation}
    (hf : layout.allocations = f rec.layout.allocations) :
    (c.store rid { rec with layout := layout }).ledger = c.ledger.edit rid f := by
  have hfind := c.find?_ledger_holdings rid
  rw [hrec, Option.map_some] at hfind
  rw [Ledger.edit, hfind, ledger_store]
  unfold holdingOf
  dsimp only
  rw [hf]

/-- The state of a plan is not noted. -/
theorem ledger_setState {p q : RemediationPlan} {key : FragmentationPlanId} {state : PlanState}
    (hp : c.plans.find? key = some p) (hq : q.actions = p.actions) :
    (c.setState q key state).ledger = c.ledger := by
  unfold ledger setState
  dsimp only
  congr 1
  refine OrdMap.ext_find? fun k => ?_
  rw [OrdMap.find?_mapVals, OrdMap.find?_mapVals, OrdMap.find?_insert]
  by_cases hk : k = key
  · rw [if_pos hk, hk, hp, Option.map_some, Option.map_some, hq]
  · rw [if_neg hk]

theorem ledger_markWorkerDead (c : Coordinator) (w : WorkerId) :
    (c.markWorkerDead w).ledger = c.ledger.bury w := by
  have hholdings : (c.markWorkerDead w).ledger.holdings = (c.ledger.bury w).holdings := by
    refine OrdMap.ext_find? fun rid => ?_
    rw [find?_ledger_holdings, find?_markWorkerDead_resources]
    unfold Ledger.bury
    dsimp only
    rw [OrdMap.find?_mapVals, find?_ledger_holdings, Option.map_map, Option.map_map]
    congr 1
    funext rec
    unfold holdingOf
    simp only [Function.comp_apply]
    split_ifs <;> rfl
  have hactions : (c.markWorkerDead w).ledger.actions = (c.ledger.bury w).actions := by
    refine OrdMap.ext_find? fun k => ?_
    unfold ledger Ledger.bury
    dsimp only
    rw [OrdMap.find?_mapVals, OrdMap.find?_mapVals, find?_markWorkerDead_plans, Option.map_map]
    congr 1
    funext plan
    simp only [Function.comp_apply, orphan]
    split_ifs <;> rfl
  exact Ledger.ext hholdings rfl hactions

theorem ledger_register (c : Coordinator) (m : Message) :
    (c.register m).ledger =
      (c.ledger.supersede m.worker ⟨m.workerBoot⟩).enrol m.worker ⟨m.workerBoot⟩ := by
  have hdrop : (c.dropStale m).ledger = c.ledger.supersede m.worker ⟨m.workerBoot⟩ := by
    unfold dropStale Ledger.supersede
    change _ = match c.workerBoot.find? m.worker with
      | some old =>
          if old ≠ (⟨m.workerBoot⟩ : WorkerBootId) then c.ledger.bury m.worker else c.ledger
      | none => c.ledger
    cases c.workerBoot.find? m.worker with
    | none => rfl
    | some old =>
        dsimp only
        by_cases hold : old.value = m.workerBoot
        · have heq : old = ⟨m.workerBoot⟩ := by rw [← hold]
          rw [if_neg (not_not.mpr hold), if_neg (not_not.mpr heq)]
        · have hne : old ≠ ⟨m.workerBoot⟩ := fun heq => hold (by rw [heq])
          rw [if_pos hold, if_pos hne, ledger_markWorkerDead]
  rw [← hdrop]
  rfl

/-! ### Layouts and their contents -/

theorem allocations_insertAll {as : List Allocation} {l layout : ResourceLayout}
    (hl : l.Reachable) (h : insertAll as l = .ok (.ok layout)) :
    layout.allocations = as.foldl (fun contents a => contents.insert a.id a) l.allocations := by
  induction as generalizing l with
  | nil =>
      simp only [insertAll, Except.ok.injEq] at h
      rw [h]
      rfl
  | cons a rest ih =>
      obtain ⟨l', reply, hins, hl', -⟩ := hl.insertAllocation a
      simp only [insertAll] at h
      rw [hins, ok_bind] at h
      cases reply with
      | error e => cases h
      | ok u =>
          obtain ⟨-, halloc, -⟩ := hl.valid.of_insertAllocation_ok hins
          rw [ih hl' h, halloc]
          rfl

/-- A removal erases, also when there is nothing to remove. -/
theorem allocations_removeAllocation {l layout : ResourceLayout} (hl : l.Reachable)
    {id : AllocationId} {reply : LayoutReply} (h : l.removeAllocation id = .ok (layout, reply)) :
    layout.allocations = l.allocations.erase id := by
  cases ha : l.allocations.find? id with
  | none =>
      rw [ResourceLayout.removeAllocation_of_none ha] at h
      cases h
      refine OrdMap.ext_find? fun k => ?_
      rw [OrdMap.find?_erase]
      split_ifs with hk
      · rw [hk, ha]
      · rfl
  | some a =>
      obtain ⟨l', heq, -, -, halloc⟩ := hl.valid.removeAllocation_of_some ha
      rw [h] at heq
      cases heq
      exact halloc

/-! ### The holder of an allocation -/

theorem holds_iff {rec : WorkerResourceRecord} {w : WorkerId} {id : AllocationId} :
    (decide ((holdingOf rec).worker = w) && (holdingOf rec).contents.contains id) = true ↔
      HoldsFor rec w id := by
  rw [Bool.and_eq_true, decide_eq_true_iff, OrdMap.contains_iff]
  rfl

theorem FirstHolder.holder {w : WorkerId} {id : AllocationId} {rid : ResourceId}
    {rec : WorkerResourceRecord} (h : FirstHolder c w id rid rec) :
    c.ledger.holder w id = some rid := by
  have hfind := c.find?_ledger_holdings rid
  rw [h.found, Option.map_some] at hfind
  obtain ⟨front, back, hsplit⟩ := OrdMap.split_of_find? hfind
  rw [Ledger.holder, Option.map_eq_some_iff]
  refine ⟨(rid, holdingOf rec), ?_, rfl⟩
  rw [List.find?_eq_some_iff_append]
  refine ⟨holds_iff.mpr h.holds, front, back, hsplit, ?_⟩
  rintro ⟨rid', held⟩ hmem
  have hlt := (OrdMap.lt_of_split hsplit).1 _ hmem
  have hfind' : c.ledger.holdings.find? rid' = some held :=
    OrdMap.find?_eq_some_iff.mpr (by rw [hsplit]; exact List.mem_append_left _ hmem)
  rw [find?_ledger_holdings, Option.map_eq_some_iff] at hfind'
  obtain ⟨rec', hrec', rfl⟩ := hfind'
  rw [Bool.not_eq_true', Bool.eq_false_iff]
  intro hheld
  have hle := h.first rid' rec' hrec' (holds_iff.mp hheld)
  exact absurd hlt (not_lt.mpr hle)

end View

/-! ## One event -/

section Step

variable {c : Coordinator} {m : Message}

theorem credit_actionComplete {p : RemediationPlan} {act : PlanAction}
    (htype : m.type = .actionComplete) (hp : c.plans.find? m.planKey = some p)
    (hact : p.actions[m.actionIndex.toNat]? = some act) (reply : Message) :
    c.ledger.credit m reply = if m.actionOk then c.ledger.take act else c.ledger := by
  have hfind : c.ledger.actions.find? m.planKey = some p.actions := by
    unfold ledger
    dsimp only
    rw [OrdMap.find?_mapVals, hp, Option.map_some]
  rw [Ledger.credit, htype]
  dsimp only
  rw [hfind]
  dsimp only
  rw [hact]

/-- Without a record of its target an action takes nothing. -/
theorem take_of_none {act : PlanAction}
    (hnone : act.sourceAllocation = none ∨ c.resources.find? act.targetResource = none) :
    c.ledger.take act = c.ledger := by
  rw [Ledger.take]
  cases hsource : act.sourceAllocation with
  | none => rfl
  | some id =>
      rw [hsource] at hnone
      rcases hnone with hnone | hnone
      · cases hnone
      · have hfind := c.find?_ledger_holdings act.targetResource
        rw [hnone, Option.map_none] at hfind
        dsimp only
        rw [Ledger.edit, hfind]

theorem Consistent.ledger_invalidate (h : c.Consistent) (fs : Codec.SaveOutcome)
    (htype : m.type = .invalidateAllocation) :
    (handle fs c m).1.ledger = c.ledger.hear m (handle fs c m).2 := by
  rw [handle_invalidateAllocation htype]
  rcases h.fromWorker_cases m _ with ⟨hauth, -⟩ | ⟨why, hrej⟩
  · rcases h.handleInvalidateAllocation_cases hauth with
      ⟨hrej, -⟩ | ⟨rid, rec, layout, hfirst, hrem, hacc⟩
    · rw [hrej]
      rfl
    · have halloc := allocations_removeAllocation (h.reachable hfirst.found) hrem
      rw [hacc]
      change (c.store rid { rec with layout := layout }).ledger = c.ledger.credit m done
      rw [Ledger.credit, htype]
      dsimp only
      rw [hfirst.holder]
      exact ledger_store_layout hfirst.found halloc
  · rw [handleInvalidateAllocation, hrej]
    rfl

/-- A message changes the evidence as its reply says. -/
theorem Consistent.ledger_message (h : c.Consistent) (fs : Codec.SaveOutcome) (m : Message) :
    (handle fs c m).1.ledger = c.ledger.hear m (handle fs c m).2 := by
  by_cases hinv : m.type = .invalidateAllocation
  · exact h.ledger_invalidate fs hinv
  · have he := h.handle_effect fs m
    generalize handle fs c m = o at he
    cases he with
    | silent htype => rfl
    | rejected why => rfl
    | raised e => rfl
    | answered htype hok =>
        change c.ledger = if _ then _ else _
        rw [if_pos hok, Ledger.credit]
        rcases htype with htype | htype <;> rw [htype]
    | saved htype =>
        change c.ledger = c.ledger.credit m done
        rw [Ledger.credit, htype]
    | registered htype hboot =>
        change (c.register m).ledger = c.ledger.credit m done
        rw [Ledger.credit, htype, ledger_register]
    | publishedResource htype hauth hfresh =>
        change (c.store m.resource.id (freshRecord m)).ledger = c.ledger.credit m done
        have hfresh : holdingOf (freshRecord m) = Ledger.published m := by
          unfold holdingOf freshRecord Ledger.published
          dsimp only
          rw [allocations_ofCapacity]
        rw [Ledger.credit, htype, ledger_store, hfresh]
    | publishedLayout htype hauth hrec howner hgen hins =>
        change _ = c.ledger.credit m done
        rw [Ledger.credit, htype]
        refine ledger_store_layout hrec ?_
        rw [allocations_insertAll (.ofCapacity _) hins, allocations_ofCapacity]
        rfl
    | publishedAllocation htype hauth hrec hins =>
        change _ = c.ledger.credit m done
        rw [Ledger.credit, htype]
        obtain ⟨-, halloc, -⟩ := (h.reachable hrec).valid.of_insertAllocation_ok hins
        exact ledger_store_layout hrec halloc
    | invalidated htype hauth hrec howner hrem => exact absurd htype hinv
    | planRaised htype hplan => rfl
    | planRefused htype hplan => rfl
    | planned htype hplan =>
        rename_i plan
        change _ = c.ledger.credit m _
        rw [Ledger.credit, htype]
        unfold ledger adopt recordDemand
        dsimp only
        rw [OrdMap.mapVals_insert]
    | approved htype hp hstate hpolicy =>
        change _ = c.ledger.credit m done
        rw [Ledger.credit, htype]
        exact ledger_setState hp rfl
    | began htype hp hstate hexec hindex =>
        change _ = c.ledger.credit m done
        rw [Ledger.credit, htype]
        exact ledger_setState hp rfl
    | skipped htype hp hstate hact hnone =>
        change _ = c.ledger.credit m done
        rw [credit_actionComplete htype hp hact]
        refine (ledger_setState hp rfl).trans ?_
        rcases hnone with hnone | hnone
        · simp [hnone]
        · rw [take_of_none hnone, ite_self]
    | completed htype hp hstate hact hok hsource hrec hrem =>
        rename_i act source rec layout reply
        change _ = c.ledger.credit m done
        have halloc := allocations_removeAllocation (h.reachable hrec) hrem
        rw [credit_actionComplete htype hp hact, if_pos hok, Ledger.take, hsource]
        have hstored : (c.store act.targetResource { rec with layout := layout }).plans.find?
            m.planKey = some _ := hp
        exact (ledger_setState hstored rfl).trans (ledger_store_layout hrec halloc)
    | verified htype hp hstate hbefore hverify =>
        change _ = c.ledger.credit m _
        rw [Ledger.credit, htype]
        exact ledger_setState hp rfl
    | cancelled htype hp =>
        change _ = c.ledger.credit m done
        rw [Ledger.credit, htype]
        exact ledger_setState hp rfl
    | revalidated htype hp =>
        change _ = c.ledger.credit m done
        rw [Ledger.credit, htype]
        exact ledger_setState hp rfl
    | advanced htype hkind =>
        change _ = c.ledger.credit m done
        rw [Ledger.credit, htype]
        unfold advance
        split <;> rfl

/-- An event other than a restart changes the evidence as it is observed. -/
theorem Consistent.ledger_step (h : c.Consistent) {e : Event} (hrestart : ∀ st, e ≠ .recover st) :
    (c.step e).ledger = c.ledger.observe (e, c.answer e) := by
  cases e with
  | message fs m => exact h.ledger_message fs m
  | workerDead w => exact ledger_markWorkerDead c w
  | recover st => exact absurd rfl (hrestart st)
  | advancePolicy => rfl

end Step

/-! ## Runs -/

/-- The ledger of a consistent coordinator leaves no freedom to its records. -/
theorem Consistent.resources_of_ledger {c c' : Coordinator} (h : c.Consistent)
    (h' : c'.Consistent) (hsame : c'.ledger = c.ledger) : c'.resources = c.resources := by
  refine OrdMap.ext_find? fun rid => ?_
  have hfind := c.find?_ledger_holdings rid
  rw [← hsame, find?_ledger_holdings] at hfind
  cases hrec : c.resources.find? rid with
  | none =>
      rw [hrec, Option.map_none, Option.map_eq_none_iff] at hfind
      exact hfind
  | some rec =>
      rw [hrec, Option.map_some, Option.map_eq_some_iff] at hfind
      obtain ⟨rec', hrec', hheld⟩ := hfind
      obtain ⟨resource, layout, worker, boot, alive, provenance⟩ := rec
      obtain ⟨resource', layout', worker', boot', alive', provenance'⟩ := rec'
      unfold holdingOf at hheld
      simp only [Holding.mk.injEq] at hheld
      obtain ⟨rfl, rfl, rfl, rfl, rfl, halloc⟩ := hheld
      have hcap : layout'.capacity = layout.capacity :=
        (h'.capacity hrec').trans (h.capacity hrec).symm
      have hlayout : layout' = layout :=
        (h'.reachable hrec').valid.eq_of_allocations (h.reachable hrec).valid hcap halloc
      rw [hrec', hlayout]

/-- After every run, restarts included: the evidence follows the requests and replies since,
and no other coordinator that agrees with the ledger has other evidence. -/
theorem ledger_exact (epoch : CoordinatorEpoch) (front events : List Event)
    (hrestart : ∀ st, Event.recover st ∉ events) :
    (runFrom step (new epoch) (front ++ events)).ledger =
        runFrom Ledger.observe (runFrom step (new epoch) front).ledger
          (conversation step answer (runFrom step (new epoch) front) events) ∧
      ∀ epoch' events', (runFrom step (new epoch') events').ledger =
          (runFrom step (new epoch) (front ++ events)).ledger →
        (runFrom step (new epoch') events').resources =
          (runFrom step (new epoch) (front ++ events)).resources := by
  constructor
  · rw [runFrom_append]
    refine runFrom_observe (consistent_run epoch front) (fun c e h => h.step e)
      (fun c e h hlegal => h.ledger_step hlegal) ?_
    rintro e he st rfl
    exact hrestart st he
  · intro epoch' events' hsame
    exact (consistent_run epoch _).resources_of_ledger (consistent_run epoch' events') hsame

/-- The arrival of worker 1 is accounted for from an empty ledger. -/
theorem ledger_exact_arrival :
    (runFrom step (new ⟨1⟩) ([] ++ arrival 1)).ledger =
      runFrom Ledger.observe {} (conversation step answer (new ⟨1⟩) (arrival 1)) :=
  (ledger_exact ⟨1⟩ [] (arrival 1) (by simp [arrival])).1

end Coordinator

end FragmentationGovernor
