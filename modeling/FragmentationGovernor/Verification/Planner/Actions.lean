import FragmentationGovernor.Model.Planner

/-! # The actions of a plan

Whatever the planner returns, its actions displace reclaimable allocations of the devices
of the snapshot and carry the generations of the snapshot. -/

namespace FragmentationGovernor.Planner

/-! ## Candidates -/

/-- A candidate stands for a reclaimable allocation of the device at its index. -/
def Stands (weights : PlanningWeights) (devices : List DeviceState) (c : ReclaimCandidate) :
    Prop :=
  ∃ s a, devices[c.deviceIndex]? = some s ∧ s.layout.allocations.find? c.id = some a ∧
    reclaimable a = true ∧ c = candidateOf weights c.deviceIndex c.id a

theorem mem_candidatesOn {weights : PlanningWeights} {i : ℕ} {l : ResourceLayout}
    {c : ReclaimCandidate} (h : c ∈ candidatesOn weights i l) :
    ∃ id a, l.allocations.find? id = some a ∧ reclaimable a = true ∧
      c = candidateOf weights i id a := by
  obtain ⟨⟨id, a⟩, he, hc⟩ := List.mem_filterMap.mp h
  by_cases hr : reclaimable a = true
  · simp only [hr, if_true, Option.some.injEq] at hc
    exact ⟨id, a, OrdMap.find?_eq_some_iff.mpr he, hr, hc.symm⟩
  · simp only [hr] at hc
    cases hc

theorem mem_candidates {weights : PlanningWeights} {i : ℕ} {devices : List DeviceState}
    {c : ReclaimCandidate} (h : c ∈ candidates weights i devices) :
    i ≤ c.deviceIndex ∧ ∃ s a, devices[c.deviceIndex - i]? = some s ∧
      s.layout.allocations.find? c.id = some a ∧ reclaimable a = true ∧
      c = candidateOf weights c.deviceIndex c.id a := by
  induction devices generalizing i with
  | nil => cases h
  | cons s rest ih =>
      simp only [candidates, List.mem_append] at h
      rcases h with h | h
      · obtain ⟨id, a, hfind, hr, rfl⟩ := mem_candidatesOn h
        refine ⟨le_refl i, s, a, ?_, hfind, hr, rfl⟩
        simp [candidateOf]
      · obtain ⟨hle, s', a, hs', hfind, hr, hc⟩ := ih h
        refine ⟨by omega, s', a, ?_, hfind, hr, hc⟩
        rw [show c.deviceIndex - i = (c.deviceIndex - (i + 1)) + 1 by omega]
        exact hs'

/-- The sorted candidates stand for reclaimable allocations of the snapshot. -/
theorem stands_of_mem_sortCandidates {weights : PlanningWeights} {devices : List DeviceState}
    {c : ReclaimCandidate} (h : c ∈ sortCandidates (candidates weights 0 devices)) :
    Stands weights devices c := by
  have hmem := (List.perm_insertionSort _ _).mem_iff.mp h
  obtain ⟨-, s, a, hs, hfind, hr, hc⟩ := mem_candidates hmem
  exact ⟨s, a, by simpa using hs, hfind, hr, hc⟩

/-! ## Actions -/

/-- The action displaces a reclaimable allocation of a device of the snapshot. -/
def Displaces (snap : FragmentationSnapshot) (act : PlanAction) : Prop :=
  ∃ s ∈ snap.devices, act.targetResource = s.resource.id ∧
    ∃ id a, act.sourceAllocation = some id ∧ s.layout.allocations.find? id = some a ∧
      reclaimable a = true

/-- The fields of an action that the planner takes over unchanged. -/
theorem actionFor_eq_ok {snap : FragmentationSnapshot} {weights : PlanningWeights}
    {target : ResourceId} {c : ReclaimCandidate} {act : PlanAction}
    (h : actionFor snap weights target c = .ok act) :
    act.targetResource = target ∧ act.sourceAllocation = some c.id ∧
      act.generations = snap.generations := by
  simp only [actionFor, bind_eq_ok, Except.ok.injEq] at h
  obtain ⟨cost, -, risk, -, disruption, -, rfl⟩ := h
  exact ⟨rfl, rfl, rfl⟩

/-! ## The loop -/

/-- A round of the loop that finds the demand unmet and displaces a candidate. -/
structure Grant (snap : FragmentationSnapshot) (d : WorkloadDemand) (weights : PlanningWeights)
    (devs : List ResourceLayout) (c : ReclaimCandidate) (l' : ResourceLayout)
    (act : PlanAction) : Prop where
  short : ∃ st, eval devs d = .ok st ∧ st.suffices d = false
  removal : ∃ s a l, snap.devices[c.deviceIndex]? = some s ∧
    s.layout.allocations.find? c.id = some a ∧ reclaimable a = true ∧
    devs[c.deviceIndex]? = some l ∧ l.removeAllocation c.id = .ok (l', .ok ()) ∧
    actionFor snap weights s.resource.id c = .ok act

/-- The rule for the loop with the candidates that are left: what every granted, every
refused and every idle round keeps holds when the loop returns. -/
theorem displace_loop {snap : FragmentationSnapshot} {d : WorkloadDemand}
    {weights : PlanningWeights}
    {inv : List ReclaimCandidate → List ResourceLayout → List PlanAction → Prop}
    (hgrant : ∀ {c rest devs actions l' act}, inv (c :: rest) devs actions →
      Grant snap d weights devs c l' act → inv rest (devs.set c.deviceIndex l') (actions ++ [act]))
    (hrefuse : ∀ {c rest devs actions l l' e}, inv (c :: rest) devs actions →
      devs[c.deviceIndex]? = some l → l.removeAllocation c.id = .ok (l', .error e) →
      inv rest (devs.set c.deviceIndex l') actions)
    (hskip : ∀ {c rest devs actions}, inv (c :: rest) devs actions → inv rest devs actions)
    {cands : List ReclaimCandidate} (hcands : ∀ c ∈ cands, Stands weights snap.devices c)
    {devs devs' : List ResourceLayout} {actions actions' : List PlanAction}
    (h0 : inv cands devs actions)
    (h : displace snap d weights cands devs actions = .ok (devs', actions')) :
    ∃ rest, inv rest devs' actions' := by
  induction cands generalizing devs actions with
  | nil =>
      simp only [displace, Except.ok.injEq, Prod.mk.injEq] at h
      rw [← h.1, ← h.2]
      exact ⟨[], h0⟩
  | cons c rest ih =>
      have hrest : ∀ x ∈ rest, Stands weights snap.devices x :=
        fun x hx => hcands x (by simp [hx])
      simp only [displace, bind_eq_ok] at h
      obtain ⟨st, hst, h⟩ := h
      by_cases hs : st.suffices d = true
      · rw [if_pos hs] at h
        simp only [Except.ok.injEq, Prod.mk.injEq] at h
        rw [← h.1, ← h.2]
        exact ⟨c :: rest, h0⟩
      · rw [if_neg hs] at h
        obtain ⟨s, a, hs', hfind, hr, -⟩ := hcands c (by simp)
        rw [hs'] at h
        cases hl : devs[c.deviceIndex]? with
        | none =>
            rw [hl] at h
            exact ih hrest (hskip h0) h
        | some l =>
            rw [hl] at h
            dsimp only at h
            rw [bind_eq_ok] at h
            obtain ⟨⟨l', reply⟩, hrem, h⟩ := h
            cases reply with
            | error e => exact ih hrest (hrefuse h0 hl hrem) h
            | ok u =>
                dsimp only at h
                rw [bind_eq_ok] at h
                obtain ⟨act, hact, h⟩ := h
                refine ih hrest (hgrant h0 ⟨⟨st, hst, by simpa using hs⟩, ?_⟩) h
                exact ⟨s, a, l, hs', hfind, hr, hl, hrem, hact⟩

/-- The rule for what does not depend on the candidates that are left. -/
theorem displace_induction {snap : FragmentationSnapshot} {d : WorkloadDemand}
    {weights : PlanningWeights} {inv : List ResourceLayout → List PlanAction → Prop}
    (hgrant : ∀ {devs actions c l' act}, inv devs actions → Grant snap d weights devs c l' act →
      inv (devs.set c.deviceIndex l') (actions ++ [act]))
    (hrefuse : ∀ {devs actions l l' id e} {i : ℕ}, inv devs actions → devs[i]? = some l →
      l.removeAllocation id = .ok (l', .error e) → inv (devs.set i l') actions)
    {cands : List ReclaimCandidate} (hcands : ∀ c ∈ cands, Stands weights snap.devices c)
    {devs devs' : List ResourceLayout} {actions actions' : List PlanAction}
    (h0 : inv devs actions)
    (h : displace snap d weights cands devs actions = .ok (devs', actions')) :
    inv devs' actions' := by
  obtain ⟨-, hinv⟩ := @displace_loop _ _ _ (fun _ devs actions => inv devs actions)
    (fun hinv hg => hgrant hinv hg) (fun hinv hl hrem => hrefuse hinv hl hrem) id _ hcands
    _ _ _ _ h0 h
  exact hinv

/-- Every action the loop adds displaces a candidate of the snapshot and carries its
generations. -/
theorem displace_actions {snap : FragmentationSnapshot} {d : WorkloadDemand}
    {weights : PlanningWeights} {cands : List ReclaimCandidate} {devs devs' : List ResourceLayout}
    {actions' : List PlanAction} (hcands : ∀ c ∈ cands, Stands weights snap.devices c)
    (h : displace snap d weights cands devs [] = .ok (devs', actions')) :
    ∀ act ∈ actions', Displaces snap act ∧ act.generations = snap.generations := by
  refine @displace_induction _ _ _ (fun _ actions => ∀ act ∈ actions, Displaces snap act ∧
    act.generations = snap.generations) ?_ (fun hold _ _ => hold) _ hcands _ _ _ _ (by simp) h
  intro devs actions c l' act hold hgrant x hx
  rcases List.mem_append.mp hx with hx | hx
  · exact hold x hx
  · obtain ⟨s, a, l, hs, hfind, hr, -, -, hact⟩ := hgrant.removal
    obtain ⟨htarget, hsource, hgen⟩ := actionFor_eq_ok hact
    rw [List.mem_singleton.mp hx]
    exact ⟨⟨s, List.mem_of_getElem? hs, htarget, c.id, a, hsource, hfind, hr⟩, hgen⟩

/-! ## Plans -/

/-- The identity, the authority and the actions of a scored plan. -/
theorem score_eq_ok {snap : FragmentationSnapshot} {policy : Policy} {weights : PlanningWeights}
    {pid : FragmentationPlanId} {pg : FragmentationPlanGeneration} {freeBefore : Bytes}
    {actions : List PlanAction} {plan : RemediationPlan}
    (h : score snap policy weights pid pg freeBefore actions = .ok plan) :
    plan.id = pid ∧ plan.generation = pg ∧ plan.policyGeneration = snap.policyGeneration ∧
      plan.epoch = snap.epoch ∧ plan.actions = actions := by
  simp only [score, bind_eq_ok, Except.ok.injEq] at h
  obtain ⟨recovered, -, benefit, -, cost, -, risk, -, disruption, -, rfl⟩ := h
  exact ⟨rfl, rfl, rfl, rfl, rfl⟩

/-- The last test of a call is the negation of the one it starts with. -/
theorem short_iff (st : FitState) (d : WorkloadDemand) :
    (st.satisfying < needed d ∨ st.aggregateFree < d.aggregateMemory) ↔ st.suffices d = false := by
  rw [FitState.suffices, Bool.and_eq_false_iff, decide_eq_false_iff_not, decide_eq_false_iff_not,
    not_le, not_le]

/-- The stages a call that returns went through. -/
theorem planRemediation_eq_ok {snap : FragmentationSnapshot} {d : WorkloadDemand}
    {policy : Policy} {weights : PlanningWeights} {pid : FragmentationPlanId}
    {pg : FragmentationPlanGeneration} {result : Option RemediationPlan}
    (h : planRemediation snap d policy weights pid pg = .ok result) :
    ∃ now, eval (snap.devices.map (fun s => s.layout)) d = .ok now ∧
      (now.suffices d = true ∧ result = none ∨
        now.suffices d = false ∧ ∃ freeBefore devs actions final,
          displace snap d weights (sortCandidates (candidates weights 0 snap.devices))
            (snap.devices.map (fun s => s.layout)) [] = .ok (devs, actions) ∧
          eval devs d = .ok final ∧
          (final.suffices d = false ∧ result = none ∨
            final.suffices d = true ∧ ∃ plan, result = some plan ∧
              score snap policy weights pid pg freeBefore actions = .ok plan)) := by
  simp only [planRemediation, bind_eq_ok] at h
  obtain ⟨now, hnow, h⟩ := h
  refine ⟨now, hnow, ?_⟩
  by_cases hs : now.suffices d = true
  · rw [if_pos hs] at h
    cases h
    exact Or.inl ⟨hs, rfl⟩
  · rw [if_neg hs, bind_eq_ok] at h
    obtain ⟨freeBefore, -, h⟩ := h
    rw [bind_eq_ok] at h
    obtain ⟨⟨devs, actions⟩, hdisplace, h⟩ := h
    dsimp only at h
    rw [bind_eq_ok] at h
    obtain ⟨final, hfinal, h⟩ := h
    refine Or.inr ⟨by simpa using hs, freeBefore, devs, actions, final, hdisplace, hfinal, ?_⟩
    by_cases hshort : final.suffices d = false
    · rw [if_pos ((short_iff final d).mpr hshort)] at h
      cases h
      exact Or.inl ⟨hshort, rfl⟩
    · rw [if_neg (fun hlt => hshort ((short_iff final d).mp hlt)), bind_eq_ok] at h
      obtain ⟨plan, hscore, h⟩ := h
      cases h
      exact Or.inr ⟨by simpa using hshort, plan, rfl, hscore⟩

/-- The stages of a call that returns a plan. -/
theorem planRemediation_eq_some {snap : FragmentationSnapshot} {d : WorkloadDemand}
    {policy : Policy} {weights : PlanningWeights} {pid : FragmentationPlanId}
    {pg : FragmentationPlanGeneration} {plan : RemediationPlan}
    (h : planRemediation snap d policy weights pid pg = .ok (some plan)) :
    ∃ now freeBefore devs final,
      eval (snap.devices.map (fun s => s.layout)) d = .ok now ∧ now.suffices d = false ∧
      displace snap d weights (sortCandidates (candidates weights 0 snap.devices))
        (snap.devices.map (fun s => s.layout)) [] = .ok (devs, plan.actions) ∧
      eval devs d = .ok final ∧ final.suffices d = true ∧
      score snap policy weights pid pg freeBefore plan.actions = .ok plan := by
  obtain ⟨now, hnow, hend⟩ := planRemediation_eq_ok h
  rcases hend with ⟨-, hnone⟩ | ⟨hs, freeBefore, devs, actions, final, hdisplace, hfinal, hend⟩
  · cases hnone
  · rcases hend with ⟨-, hnone⟩ | ⟨henough, plan', hsome, hscore⟩
    · cases hnone
    · cases hsome
      have hactions := (score_eq_ok hscore).2.2.2.2
      refine ⟨now, freeBefore, devs, final, hnow, hs, ?_, hfinal, henough, ?_⟩
      · rw [hactions]
        exact hdisplace
      · rw [hactions]
        exact hscore

/-- Every action of a returned plan displaces a reclaimable allocation of the snapshot and
carries its generations. -/
theorem planRemediation_actions {snap : FragmentationSnapshot} {d : WorkloadDemand}
    {policy : Policy} {weights : PlanningWeights} {pid : FragmentationPlanId}
    {pg : FragmentationPlanGeneration} {plan : RemediationPlan}
    (h : planRemediation snap d policy weights pid pg = .ok (some plan)) :
    ∀ act ∈ plan.actions, Displaces snap act ∧ act.generations = snap.generations := by
  obtain ⟨now, freeBefore, devs, final, -, -, hdisplace, -⟩ := planRemediation_eq_some h
  exact displace_actions (fun c hc => stands_of_mem_sortCandidates hc) hdisplace

end FragmentationGovernor.Planner
