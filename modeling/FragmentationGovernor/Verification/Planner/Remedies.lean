import FragmentationGovernor.Verification.Fit.Outcomes
import FragmentationGovernor.Verification.Planner.Completeness

/-! # What a plan does

A plan is returned exactly when some number of displacements, in the planner's order, makes
enough room, and then it consists of these. So each action displaces one reclaimable
allocation and the plan accounts for all of them; what the plan respects of the policy and of
the topology constraint depends on the allocations that come first in that order. -/

namespace FragmentationGovernor

open Fit Planner

/-! ## Remedies -/

/-- The layouts after the first `n` displacements. -/
def released (weights : PlanningWeights) (ds : List DeviceState) (n : ℕ) : List ResourceLayout :=
  releaseAll (ds.map (fun s => s.layout)) ((displacementOrder weights ds).take n)

/-- The first `n` displacements make enough room, and fewer do not. -/
structure FirstEnough (weights : PlanningWeights) (ds : List DeviceState) (d : WorkloadDemand)
    (n : ℕ) : Prop where
  le : n ≤ (displacementOrder weights ds).length
  enough : Enough d (released weights ds n)
  minimal : ∀ m < n, ¬ Enough d (released weights ds m)

/-- There is something to displace, and what that leaves can be counted and added up. -/
structure Remedies (weights : PlanningWeights) (ds : List DeviceState) (d : WorkloadDemand)
    (n : ℕ) : Prop extends FirstEnough weights ds d n where
  pos : 0 < n
  count : satisfying d (released weights ds n) < 2 ^ 64
  free : freeTotal (released weights ds n) < 2 ^ 64

theorem FirstEnough.unique {weights : PlanningWeights} {ds : List DeviceState}
    {d : WorkloadDemand} {m n : ℕ} (hm : FirstEnough weights ds d m)
    (hn : FirstEnough weights ds d n) : m = n := by
  rcases lt_trichotomy m n with hlt | heq | hlt
  · exact (hn.minimal m hlt hm.enough).elim
  · exact heq
  · exact (hm.minimal n hlt hn.enough).elim

/-- Where displacing everything would help, there is a remedy unless there is enough room
already or a total overflows. -/
theorem exists_remedies_iff {weights : PlanningWeights} {ds : List DeviceState}
    {d : WorkloadDemand}
    (h : Enough d (released weights ds (displacementOrder weights ds).length)) :
    (∃ n, Remedies weights ds d n) ↔
      ¬ Enough d (ds.map (fun s => s.layout)) ∧ ∀ n, FirstEnough weights ds d n →
        satisfying d (released weights ds n) < 2 ^ 64 ∧
          freeTotal (released weights ds n) < 2 ^ 64 := by
  constructor
  · rintro ⟨n, hn⟩
    refine ⟨hn.minimal 0 hn.pos, ?_⟩
    intro m hm
    rw [hm.unique hn.toFirstEnough]
    exact ⟨hn.count, hn.free⟩
  · rintro ⟨hnow, htotals⟩
    classical
    have hexists : ∃ n, Enough d (released weights ds n) := ⟨_, h⟩
    have hfirst : FirstEnough weights ds d (Nat.find hexists) :=
      ⟨Nat.find_min' hexists h, Nat.find_spec hexists, fun m hm => Nat.find_min hexists hm⟩
    refine ⟨_, hfirst, ?_, (htotals _ hfirst).1, (htotals _ hfirst).2⟩
    rw [Nat.pos_iff_ne_zero]
    intro hzero
    have henough := hfirst.enough
    rw [hzero] at henough
    exact hnow henough

/-- The loop stops with the layouts that suffice first, where no count on the way raises. -/
theorem displace_eq_ok {snap : FragmentationSnapshot} {d : WorkloadDemand}
    {weights : PlanningWeights} {xs : List (ℕ × Allocation)} {ls : List ResourceLayout}
    {actions : List PlanAction} {n : ℕ} (hready : Ready ls xs)
    (hperform : ∀ x ∈ xs, ∃ act, Performs snap weights act x) (hn : n ≤ xs.length)
    (heval : ∀ m ≤ n, ∃ st, eval (releaseAll ls (xs.take m)) d = .ok st)
    (hmin : ∀ m < n, ¬ Suffices d (releaseAll ls (xs.take m)))
    (hsuff : Suffices d (releaseAll ls (xs.take n))) :
    ∃ acts, displace snap d weights (xs.map (candidateAt weights)) ls actions =
      .ok (releaseAll ls (xs.take n), actions ++ acts) := by
  induction xs generalizing ls actions n with
  | nil =>
      have hzero : n = 0 := by simpa using hn
      refine ⟨[], ?_⟩
      rw [hzero, List.append_nil]
      rfl
  | cons x xs ih =>
      obtain ⟨st, hst⟩ := heval 0 (Nat.zero_le n)
      have hst₀ : eval ls d = .ok st := hst
      cases n with
      | zero =>
          rw [List.map_cons, displace, hst₀, ok_bind, if_pos ((suffices_iff hst₀).mpr hsuff)]
          exact ⟨[], by rw [List.append_nil]; rfl⟩
      | succ n =>
          have hshort : ¬ st.suffices d = true :=
            fun hs => hmin 0 (Nat.succ_pos n) ((suffices_iff hst₀).mp hs)
          obtain ⟨l, l₁, hl, hrem, hnext⟩ := hready.step
          obtain ⟨act, s, hs, hact⟩ := hperform x (by simp)
          have hrel := releaseAll_take_succ hl hrem xs
          rw [displace_round hst₀ hshort hl hs hrem, hact, ok_bind, hrel]
          obtain ⟨acts, hacts⟩ := @ih (ls.set x.1 l₁) (actions ++ [act]) n hnext
            (fun y hy => hperform y (by simp [hy])) (Nat.le_of_succ_le_succ hn)
            (fun m hm => hrel m ▸ heval (m + 1) (Nat.succ_le_succ hm))
            (fun m hm => hrel m ▸ hmin (m + 1) (Nat.succ_lt_succ hm)) (hrel n ▸ hsuff)
          exact ⟨act :: acts, by rw [hacts, List.append_assoc]; rfl⟩

section Plans

variable {snap : FragmentationSnapshot} {d : WorkloadDemand} {policy : Policy}
  {weights : PlanningWeights} {pid : FragmentationPlanId} {pg : FragmentationPlanGeneration}
  (h : ∀ s ∈ snap.devices, s.layout.Valid)

include h

theorem valid_released (n : ℕ) : ∀ l ∈ released weights snap.devices n, l.Valid :=
  valid_releaseAll (valid_layouts h) _

theorem exists_performs {x : ℕ × Allocation} (hx : x ∈ displacementOrder weights snap.devices) :
    ∃ act, Performs snap weights act x := by
  obtain ⟨s, hs, hfind, hr⟩ := (mem_displacementOrder h).mp hx
  obtain ⟨act, hact, -, -⟩ := exists_actionFor (c := candidateAt weights x)
    ⟨s, x.2, hs, hfind, hr, rfl⟩ snap s.resource.id
  exact ⟨act, s, hs, hact⟩

/-- Further displacements leave at least as much room. -/
theorem roomier_released {m n : ℕ} (hmn : m ≤ n) :
    List.Forall₂ Roomier (released weights snap.devices m) (released weights snap.devices n) := by
  have hsplit : released weights snap.devices n = releaseAll (released weights snap.devices m)
      (((displacementOrder weights snap.devices).take n).drop m) := by
    rw [released, released, ← releaseAll_append]
    congr 1
    conv_lhs => rw [← List.take_append_drop m ((displacementOrder weights snap.devices).take n),
      List.take_take, min_eq_left hmn]
  rw [hsplit]
  exact roomier_releaseAll (valid_released h m) _

/-- On the way to a remedy no count raises. -/
theorem Remedies.exists_eval {n m : ℕ} (hn : Remedies weights snap.devices d n) (hm : m ≤ n) :
    ∃ st, eval (released weights snap.devices m) d = .ok st := by
  have hroom := @roomier_released snap weights h m n hm
  have hcount : satisfying d (released weights snap.devices m) < 2 ^ 64 := by
    refine lt_of_le_of_lt ?_ hn.count
    rw [satisfying_eq_countP (valid_released h m), satisfying_eq_countP (valid_released h n)]
    exact countP_le_of_roomier hroom _
  have hfree := lt_of_le_of_lt (freeTotal_le_of_roomier hroom) hn.free
  exact ⟨⟨.ofNat _, .ofNat _⟩,
    eval_eq_ok_iff.mpr ⟨Quantity.toNat_ofNat hcount, Quantity.toNat_ofNat hfree⟩⟩

/-- What the actions recover is what the displacements free. -/
theorem freeTotal_of_displace {ls : List ResourceLayout} {actions : List PlanAction}
    (hdisplace : displace snap d weights (sortCandidates (candidates weights 0 snap.devices))
      (snap.devices.map (fun s => s.layout)) [] = .ok (ls, actions)) :
    freeTotal ls = freeTotal (snap.devices.map (fun s => s.layout)) +
      (actions.map (fun a => a.expectedCapacityRecovered.toNat)).sum := by
  obtain ⟨rest, ls', actions', hinv, ⟨-, e, he⟩ | ⟨hok, -⟩⟩ :=
    (reclaims_start h).displace (d := d) (fun c hc => stands_of_mem_sortCandidates hc)
  · rw [hdisplace] at he
    cases he
  · rw [hdisplace] at hok
    cases hok
    exact hinv.recovered

/-- A remedy is planned. -/
theorem Remedies.exists_plan {n : ℕ} (hn : Remedies weights snap.devices d n) :
    ∃ plan, planRemediation snap d policy weights pid pg = .ok (some plan) := by
  have hiff : ∀ m, Enough d (released weights snap.devices m) ↔
      Suffices d (released weights snap.devices m) :=
    fun m => enough_iff (valid_released h m) d
  obtain ⟨now, hnow⟩ := hn.exists_eval h (Nat.zero_le n)
  obtain ⟨final, hfinal⟩ := hn.exists_eval h (le_refl n)
  have hshort : ¬ now.suffices d = true :=
    fun hs => hn.minimal 0 hn.pos ((hiff 0).mpr ((suffices_iff hnow).mp hs))
  have henough : final.suffices d = true := (suffices_iff hfinal).mpr ((hiff n).mp hn.enough)
  obtain ⟨freeBefore, hfree⟩ : ∃ total,
      sumBytes ((snap.devices.map (fun s => s.layout)).map (fun l => l.freeCapacity)) =
        .ok total := by
    apply exists_sumBytes
    rw [List.map_map]
    exact lt_of_le_of_lt (freeTotal_le_of_roomier (roomier_released h (Nat.zero_le n))) hn.free
  obtain ⟨acts, hacts⟩ := @displace_eq_ok snap d weights _ _ [] n (ready_displacementOrder h)
    (fun x hx => exists_performs h hx) hn.le (fun m hm => hn.exists_eval h hm)
    (fun m hm => fun hs => hn.minimal m hm ((hiff m).mpr hs)) ((hiff n).mp hn.enough)
  rw [← sortCandidates_eq_map h, List.nil_append] at hacts
  have hrecovered := freeTotal_of_displace h hacts
  have hbound := hn.free
  rw [released] at hbound
  have htempered := displace_tempered (fun c hc => stands_of_mem_sortCandidates hc) hacts
  obtain ⟨plan, hplan⟩ :=
    @exists_score snap policy weights pid pg freeBefore acts (by omega) htempered
  refine ⟨plan, ?_⟩
  rw [planRemediation]
  dsimp only
  rw [show eval (snap.devices.map (fun s => s.layout)) d = .ok now from hnow, ok_bind,
    if_neg hshort, hfree, ok_bind, hacts, ok_bind]
  dsimp only
  rw [show eval (releaseAll _ _) d = .ok final from hfinal, ok_bind,
    if_neg (fun hlt => by rw [(short_iff final d).mp hlt] at henough; cases henough), hplan, ok_bind]

/-- A plan is a remedy: its actions are the first displacements that make enough room. -/
theorem planRemediation_remedies {plan : RemediationPlan}
    (hplan : planRemediation snap d policy weights pid pg = .ok (some plan)) :
    ∃ n freeBefore, Remedies weights snap.devices d n ∧
      List.Forall₂ (Performs snap weights) plan.actions
        ((displacementOrder weights snap.devices).take n) ∧
      displace snap d weights (sortCandidates (candidates weights 0 snap.devices))
        (snap.devices.map (fun s => s.layout)) [] =
          .ok (released weights snap.devices n, plan.actions) ∧
      score snap policy weights pid pg freeBefore plan.actions = .ok plan := by
  have hiff : ∀ m, Enough d (released weights snap.devices m) ↔
      Suffices d (released weights snap.devices m) :=
    fun m => enough_iff (valid_released h m) d
  obtain ⟨now, freeBefore, ls, final, hnow, hshort, hdisplace, hfinal, henough, hscore⟩ :=
    planRemediation_eq_some hplan
  have hdisplace' := hdisplace
  rw [sortCandidates_eq_map h] at hdisplace'
  obtain ⟨n, acts, hn, rfl, hacts, hperforms, hmin, -⟩ :=
    displace_prefix (ready_displacementOrder h)
      (fun x hx => ((mem_displacementOrder h).mp hx).imp (fun s hs => hs.1)) hdisplace'
  rw [List.nil_append] at hacts
  obtain ⟨hcount, hfree⟩ := eval_eq_ok_iff.mp hfinal
  have hsuff := (suffices_iff hfinal).mp henough
  refine ⟨n, freeBefore, ⟨⟨hn, (hiff n).mpr hsuff, ?_⟩, ?_, ?_, ?_⟩, ?_, hdisplace, hscore⟩
  · exact fun m hm henough => hmin m hm ((hiff m).mp henough)
  · -- without displacements there would not be enough room
    rw [Nat.pos_iff_ne_zero]
    rintro rfl
    rw [(suffices_iff hnow).mpr hsuff] at hshort
    cases hshort
  · rw [released, ← hcount]
    exact final.satisfying.toNat_lt
  · rw [released, ← hfree]
    exact final.aggregateFree.toNat_lt
  · rw [hacts]
    exact hperforms

theorem exists_plan_iff :
    (∃ plan, planRemediation snap d policy weights pid pg = .ok (some plan)) ↔
      ∃ n, Remedies weights snap.devices d n := by
  constructor
  · rintro ⟨plan, hplan⟩
    obtain ⟨n, -, hn, -⟩ := planRemediation_remedies h hplan
    exact ⟨n, hn⟩
  · rintro ⟨n, hn⟩
    exact hn.exists_plan h

end Plans

/-! ## The actions -/

section Actions

variable {snap : FragmentationSnapshot} {weights : PlanningWeights} {act : PlanAction}
  {x : ℕ × Allocation}

/-- What an action takes over from the allocation it displaces. -/
theorem Performs.fields (h : Performs snap weights act x) :
    act.affectedOwner = x.2.owner ∧ act.kind = kindFor x.2.movability ∧
      act.preemptionRequired = decide (x.2.movability = .movableLive) := by
  obtain ⟨s, -, hact⟩ := h
  simp only [actionFor, bind_eq_ok, Except.ok.injEq] at hact
  obtain ⟨cost, -, risk, -, disruption, -, rfl⟩ := hact
  exact ⟨rfl, rfl, rfl⟩

theorem reclaimable_iff {a : Allocation} :
    Planner.reclaimable a = true ↔
      a.policyProtected = false ∧ a.reservation = none ∧ mayMove a.movability = true := by
  unfold Planner.reclaimable
  cases a.policyProtected with
  | true => simp
  | false =>
      cases a.reservation with
      | some r => simp
      | none => simp

end Actions

theorem exists_mem_of_forall₂ {α β : Type} {R : α → β → Prop} {xs : List α} {ys : List β}
    (h : List.Forall₂ R xs ys) {a : α} (ha : a ∈ xs) : ∃ b ∈ ys, R a b := by
  induction h with
  | nil => cases ha
  | cons hab _ ih =>
      rcases List.mem_cons.mp ha with rfl | ha
      · exact ⟨_, by simp, hab⟩
      · obtain ⟨b, hb, hR⟩ := ih ha
        exact ⟨b, by simp [hb], hR⟩

theorem forall_mem_iff_of_forall₂ {α β : Type} {R : α → β → Prop} {p : α → Prop} {q : β → Prop}
    {xs : List α} {ys : List β} (h : List.Forall₂ R xs ys) (hpq : ∀ a b, R a b → (p a ↔ q b)) :
    (∀ a ∈ xs, p a) ↔ ∀ b ∈ ys, q b := by
  induction h with
  | nil => simp
  | cons hab _ ih => rw [List.forall_mem_cons, List.forall_mem_cons, ih, hpq _ _ hab]

/-- No two actions displace the same allocation of the same resource. -/
theorem nodup_of_forall₂_performs {snap : FragmentationSnapshot} {weights : PlanningWeights}
    {acts : List PlanAction} {xs : List (ℕ × Allocation)}
    (h : List.Forall₂ (Performs snap weights) acts xs)
    (hids : (snap.devices.map (fun s => s.resource.id)).Nodup)
    (hdistinct : xs.Pairwise (fun x y => x.1 = y.1 → x.2.id ≠ y.2.id)) :
    (acts.map (fun act => (act.targetResource, act.sourceAllocation))).Nodup := by
  induction h with
  | nil => exact List.nodup_nil
  | @cons act x acts xs hact hrest ih =>
      obtain ⟨hne, hdistinct⟩ := List.pairwise_cons.mp hdistinct
      rw [List.map_cons, List.nodup_cons]
      refine ⟨?_, ih hdistinct⟩
      intro hmem
      obtain ⟨act', hact', heq⟩ := List.mem_map.mp hmem
      obtain ⟨y, hy, hperforms⟩ := exists_mem_of_forall₂ hrest hact'
      obtain ⟨s, hs, htarget, hsource, -⟩ := hact.names
      obtain ⟨t, ht, htarget', hsource', -⟩ := hperforms.names
      rw [htarget, htarget', hsource, hsource', Prod.mk.injEq, Option.some.injEq] at heq
      -- resources with one id are one device
      have hlt : x.1 < (snap.devices.map (fun s => s.resource.id)).length := by
        rw [List.length_map]
        exact (List.getElem?_eq_some_iff.mp hs).1
      have hxy : x.1 = y.1 := by
        refine (List.getElem?_inj hlt hids).mp ?_
        rw [List.getElem?_map, List.getElem?_map, hs, ht]
        exact congrArg some heq.1.symm
      exact hne y hy hxy heq.2.symm

theorem recovered_of_score {snap : FragmentationSnapshot} {policy : Policy}
    {weights : PlanningWeights} {pid : FragmentationPlanId} {pg : FragmentationPlanGeneration}
    {freeBefore : Bytes} {plan : RemediationPlan}
    (h : score snap policy weights pid pg freeBefore plan.actions = .ok plan) :
    plan.expectedCapacityRecovered.toNat =
      (plan.actions.map (fun act => act.expectedCapacityRecovered.toNat)).sum := by
  have hsum : sumBytes (plan.actions.map (fun act => act.expectedCapacityRecovered)) =
      .ok plan.expectedCapacityRecovered := by
    simp only [score, bind_eq_ok, Except.ok.injEq] at h
    obtain ⟨recovered, hrecovered, benefit, -, cost, -, risk, -, disruption, -, hplan⟩ := h
    rw [hrecovered, ← hplan]
  rw [← sumBytes_eq_ok_iff.mp hsum, List.map_map]
  rfl

/-- Plans touch only reclaimable allocations, each once, and their accounting is exact. -/
theorem planRemediation_accounts (snap : FragmentationSnapshot) (d : WorkloadDemand)
    (policy : Policy) (weights : PlanningWeights) (pid : FragmentationPlanId)
    (pg : FragmentationPlanGeneration) (plan : RemediationPlan)
    (hreach : ∀ s ∈ snap.devices, s.layout.Reachable)
    (hids : (snap.devices.map (fun s => s.resource.id)).Nodup)
    (hplan : planRemediation snap d policy weights pid pg = .ok (some plan)) :
    (∀ act ∈ plan.actions, ∃ s ∈ snap.devices, ∃ id a, s.resource.id = act.targetResource ∧
        act.sourceAllocation = some id ∧ s.layout.allocations.find? id = some a ∧
        a.policyProtected = false ∧ a.reservation = none ∧ mayMove a.movability = true ∧
        act.expectedCapacityRecovered = a.length ∧ act.affectedOwner = a.owner) ∧
      (plan.actions.map (fun act => (act.targetResource, act.sourceAllocation))).Nodup ∧
      plan.expectedCapacityRecovered.toNat =
        (plan.actions.map (fun act => act.expectedCapacityRecovered.toNat)).sum ∧
      ∃ devices, applyActions plan.actions snap.devices = .ok (some devices) ∧
        freeTotal (devices.map (fun s => s.layout)) =
          freeTotal (snap.devices.map (fun s => s.layout)) +
            plan.expectedCapacityRecovered.toNat := by
  have hvalid : ∀ s ∈ snap.devices, s.layout.Valid := fun s hs => (hreach s hs).valid
  obtain ⟨n, freeBefore, hn, hperforms, hdisplace, hscore⟩ :=
    planRemediation_remedies hvalid hplan
  have hrecovered : plan.expectedCapacityRecovered.toNat =
      (plan.actions.map (fun act => act.expectedCapacityRecovered.toNat)).sum :=
    recovered_of_score hscore
  have happlied := (displaced_start hvalid).displace hids
    (fun c hc => stands_of_mem_sortCandidates hc) hdisplace
  refine ⟨?_, ?_, hrecovered, _, happlied.applied, ?_⟩
  · intro act hact
    obtain ⟨x, hx, hperf⟩ := exists_mem_of_forall₂ hperforms hact
    obtain ⟨s, hs, hfind, hr⟩ := (mem_displacementOrder hvalid).mp (List.mem_of_mem_take hx)
    obtain ⟨s', hs', htarget, hsource, -, hlen⟩ := hperf.names
    obtain ⟨hprot, hres, hmove⟩ := reclaimable_iff.mp hr
    rw [hs] at hs'
    cases hs'
    exact ⟨s, List.mem_of_getElem? hs, x.2.id, x.2, htarget.symm, hsource, hfind, hprot, hres,
      hmove, hlen, hperf.fields.1⟩
  · exact nodup_of_forall₂_performs hperforms hids
      ((ready_displacementOrder hvalid).distinct.sublist (List.take_sublist _ _))
  · rw [map_layout_withLayouts happlied.length_eq, freeTotal_of_displace hvalid hdisplace,
      hrecovered]

/-- The plan of the divided device has one action, which releases the 20 bytes of its second
allocation. -/
theorem planRemediation_accounts_dividedSnapshot :
    ∃ plan, planRemediation dividedSnapshot blockDemand {} defaultWeights ⟨1⟩ ⟨1⟩ =
        .ok (some plan) ∧
      plan.actions.map (fun act => (act.targetResource, act.sourceAllocation,
        act.expectedCapacityRecovered)) = [(⟨1⟩, some ⟨2⟩, ⟨20⟩)] ∧
      (∀ act ∈ plan.actions, ∃ s ∈ dividedSnapshot.devices, ∃ id a,
        s.resource.id = act.targetResource ∧ act.sourceAllocation = some id ∧
        s.layout.allocations.find? id = some a ∧ mayMove a.movability = true ∧
        act.expectedCapacityRecovered = a.length) ∧
      plan.expectedCapacityRecovered.toNat = 20 ∧
      ∃ devices, applyActions plan.actions dividedSnapshot.devices = .ok (some devices) ∧
        freeTotal (devices.map (fun s => s.layout)) =
          freeTotal (dividedSnapshot.devices.map (fun s => s.layout)) + 20 := by
  have hactions : (planRemediation dividedSnapshot blockDemand {} defaultWeights ⟨1⟩
      ⟨1⟩).toOption.map (Option.map (fun plan => plan.actions.map (fun act =>
        (act.targetResource, act.sourceAllocation, act.expectedCapacityRecovered)))) =
      some (some [(⟨1⟩, some ⟨2⟩, ⟨20⟩)]) := by
    decide +kernel
  obtain ⟨result, hresult, hsome⟩ := Option.map_eq_some_iff.mp hactions
  obtain ⟨plan, rfl, hact⟩ := Option.map_eq_some_iff.mp hsome
  obtain ⟨hall, -, hrecovered, devices, happlied, hfree⟩ :=
    planRemediation_accounts dividedSnapshot blockDemand {} defaultWeights ⟨1⟩ ⟨1⟩ plan
      reachable_dividedSnapshot (by decide) (eq_ok_of_toOption hresult)
  have hbytes : plan.actions.map (fun act => act.expectedCapacityRecovered.toNat) = [20] := by
    have hmap := congrArg (List.map (fun x => x.2.2.toNat)) hact
    rwa [List.map_map] at hmap
  rw [hbytes] at hrecovered
  rw [hrecovered] at hfree
  refine ⟨plan, eq_ok_of_toOption hresult, hact, ?_, hrecovered, devices, happlied, hfree⟩
  intro act hmem
  obtain ⟨s, hs, id, a, hid, hsource, hfind, -, -, hmove, hlen, -⟩ := hall act hmem
  exact ⟨s, hs, id, a, hid, hsource, hfind, hmove, hlen⟩

/-! ## The policy -/

/-- The policy switches permit the action. -/
structure Permitted (policy : Policy) (act : PlanAction) : Prop where
  release : policy.allowRelease = false → act.kind ≠ .releaseUnused
  eviction : policy.allowEviction = false → act.kind ≠ .evictRecomputable
  preemption : policy.allowPreemption = false → act.preemptionRequired ≠ true

/-- The switch a class of allocations is under. -/
def allows (policy : Policy) : Movability → Bool
  | .releaseable => policy.allowRelease
  | .recomputable | .evictable => policy.allowEviction
  | .movableLive => policy.allowPreemption
  | _ => true

theorem Performs.permitted_iff {snap : FragmentationSnapshot} {weights : PlanningWeights}
    {act : PlanAction} {x : ℕ × Allocation} (h : Performs snap weights act x) (policy : Policy) :
    Permitted policy act ↔ allows policy x.2.movability = true := by
  obtain ⟨-, hkind, hpreempt⟩ := h.fields
  constructor
  · rintro ⟨hrelease, hevict, hpre⟩
    rw [hkind] at hrelease hevict
    rw [hpreempt] at hpre
    cases hm : x.2.movability with
    | releaseable => simpa [allows, hm, kindFor] using hrelease
    | recomputable => simpa [allows, hm, kindFor] using hevict
    | evictable => simpa [allows, hm, kindFor] using hevict
    | movableLive => simpa [allows, hm] using hpre
    | _ => rfl
  · intro hallows
    refine ⟨?_, ?_, ?_⟩
    on_goal 3 =>
      intro hoff hact
      rw [hpreempt, decide_eq_true_eq] at hact
      rw [hact, allows, hoff] at hallows
      cases hallows
    -- the kind of the action names the class of what it displaces
    all_goals
      intro hoff hact
      rw [hkind] at hact
      cases hm : x.2.movability <;> simp [hm, kindFor, allows, hoff] at hact hallows

/-- A plan respects the policy exactly when the allocations it has to displace happen to be of
classes the policy allows: the planner does not read the switches. -/
theorem planRemediation_permitted_iff (snap : FragmentationSnapshot) (d : WorkloadDemand)
    (policy : Policy) (weights : PlanningWeights) (pid : FragmentationPlanId)
    (pg : FragmentationPlanGeneration) (hreach : ∀ s ∈ snap.devices, s.layout.Reachable) :
    (∀ plan, planRemediation snap d policy weights pid pg = .ok (some plan) →
        ∀ act ∈ plan.actions, Permitted policy act) ↔
      ∀ n, Remedies weights snap.devices d n →
        ∀ x ∈ (displacementOrder weights snap.devices).take n,
          allows policy x.2.movability = true := by
  have hvalid : ∀ s ∈ snap.devices, s.layout.Valid := fun s hs => (hreach s hs).valid
  constructor
  · intro hclaim n hn
    obtain ⟨plan, hplan⟩ := @Remedies.exists_plan snap d policy weights pid pg hvalid n hn
    obtain ⟨m, -, hm, hperforms, -⟩ := planRemediation_remedies hvalid hplan
    rw [hn.unique hm.toFirstEnough]
    exact (forall_mem_iff_of_forall₂ hperforms (fun _ _ hact => hact.permitted_iff policy)).mp
      (hclaim plan hplan)
  · intro hallows plan hplan
    obtain ⟨n, -, hn, hperforms, -⟩ := planRemediation_remedies hvalid hplan
    exact (forall_mem_iff_of_forall₂ hperforms (fun _ _ hact => hact.permitted_iff policy)).mpr
      (hallows n hn)

/-- An evictable allocation in the middle of the device. -/
def evictableSnapshot : FragmentationSnapshot :=
  { dividedSnapshot with
    devices := [⟨{ id := ⟨1⟩, capacity := ⟨100⟩ }, middleLayout ⟨10⟩ .evictable⟩] }

theorem reachable_evictableSnapshot : ∀ s ∈ evictableSnapshot.devices, s.layout.Reachable := by
  intro s hs
  rw [List.mem_singleton.mp hs]
  exact reachable_middleLayout ⟨10⟩ .evictable

/-- The default policy does not allow evictions, and the plan evicts. -/
theorem planRemediation_ignores_policy :
    (∀ s ∈ evictableSnapshot.devices, s.layout.Reachable) ∧
      ({} : Policy).allowEviction = false ∧
      ∃ plan, planRemediation evictableSnapshot blockDemand {} defaultWeights ⟨1⟩ ⟨1⟩ =
          .ok (some plan) ∧
        (plan.actions.map (fun act => act.kind) = [.evictRecomputable]) ∧
        ¬ ∀ act ∈ plan.actions, Permitted {} act := by
  have hkinds : (planRemediation evictableSnapshot blockDemand {} defaultWeights ⟨1⟩
      ⟨1⟩).toOption.map (Option.map (fun plan => plan.actions.map (fun act => act.kind))) =
        some (some [.evictRecomputable]) := by
    decide +kernel
  obtain ⟨result, hresult, hsome⟩ := Option.map_eq_some_iff.mp hkinds
  obtain ⟨plan, rfl, hplan⟩ := Option.map_eq_some_iff.mp hsome
  refine ⟨reachable_evictableSnapshot, rfl, plan, eq_ok_of_toOption hresult, hplan, ?_⟩
  intro hall
  have hmem : ActionKind.evictRecomputable ∈ plan.actions.map (fun act => act.kind) := by
    rw [hplan]
    exact List.mem_singleton.mpr rfl
  obtain ⟨act, hact, hkind⟩ := List.mem_map.mp hmem
  exact (hall act hact).eviction rfl hkind

theorem planRemediation_permitted_iff_dividedSnapshot :
    ∃ plan, planRemediation dividedSnapshot blockDemand {} defaultWeights ⟨1⟩ ⟨1⟩ =
        .ok (some plan) ∧ ∀ act ∈ plan.actions, Permitted {} act := by
  obtain ⟨plan, hplan⟩ := exists_plan_dividedSnapshot
  refine ⟨plan, hplan, ?_⟩
  refine (planRemediation_permitted_iff dividedSnapshot blockDemand {} defaultWeights ⟨1⟩ ⟨1⟩
    reachable_dividedSnapshot).mpr ?_ plan hplan
  intro n _ x hx
  have hclasses : ∀ x ∈ displacementOrder defaultWeights dividedSnapshot.devices,
      allows {} x.2.movability = true := by
    decide
  exact hclasses x (List.mem_of_mem_take hx)

/-! ## The topology constraint -/

/-- The allocation is on a device of the topology group. -/
def InGroup (ds : List DeviceState) (g : Int64) (x : ℕ × Allocation) : Prop :=
  ∃ s, ds[x.1]? = some s ∧ s.resource.topologyGroup = some g

/-- The devices after the first `n` displacements. -/
def remedied (weights : PlanningWeights) (ds : List DeviceState) (n : ℕ) : List DeviceState :=
  withLayouts ds (released weights ds n)

/-- The resource an action names is the device of the allocation it displaces. -/
theorem Performs.inGroup_iff {snap : FragmentationSnapshot} {weights : PlanningWeights}
    {act : PlanAction} {x : ℕ × Allocation} (h : Performs snap weights act x)
    (hids : (snap.devices.map (fun s => s.resource.id)).Nodup) (g : Int64) :
    (∃ s ∈ snap.devices, s.resource.id = act.targetResource ∧
        s.resource.topologyGroup = some g) ↔ InGroup snap.devices g x := by
  obtain ⟨s, hs, htarget, -⟩ := h.names
  constructor
  · rintro ⟨t, ht, hid, hgroup⟩
    have hts : t = s :=
      List.inj_on_of_nodup_map hids ht (List.mem_of_getElem? hs) (hid.trans htarget)
    exact ⟨s, hs, hts ▸ hgroup⟩
  · rintro ⟨t, ht, hgroup⟩
    rw [hs] at ht
    cases ht
    exact ⟨s, List.mem_of_getElem? hs, htarget.symm, hgroup⟩

theorem satisfying_select_le (ds : List DeviceState) (d : WorkloadDemand) :
    satisfying d ((select ds d).map (fun s => s.layout)) ≤
      satisfying d (ds.map (fun s => s.layout)) :=
  (((select_sublist ds d).map _).map _).sum_le_sum (fun _ _ => Nat.zero_le _)

theorem freeTotal_select_le (ds : List DeviceState) (d : WorkloadDemand) :
    freeTotal ((select ds d).map (fun s => s.layout)) ≤ freeTotal (ds.map (fun s => s.layout)) :=
  (((select_sublist ds d).map _).map _).sum_le_sum (fun _ _ => Nat.zero_le _)

/-- Carrying out a plan gives the devices after its displacements. -/
theorem applyActions_remedied {snap : FragmentationSnapshot} {d : WorkloadDemand}
    {weights : PlanningWeights} {acts : List PlanAction} {n : ℕ}
    (h : ∀ s ∈ snap.devices, s.layout.Valid)
    (hids : (snap.devices.map (fun s => s.resource.id)).Nodup)
    (hdisplace : displace snap d weights (sortCandidates (candidates weights 0 snap.devices))
      (snap.devices.map (fun s => s.layout)) [] = .ok (released weights snap.devices n, acts)) :
    applyActions acts snap.devices = .ok (some (remedied weights snap.devices n)) ∧
      (∀ s ∈ remedied weights snap.devices n, s.layout.Valid) ∧
      (remedied weights snap.devices n).map (fun s => s.layout) =
        released weights snap.devices n := by
  have happlied := (displaced_start h).displace hids
    (fun c hc => stands_of_mem_sortCandidates hc) hdisplace
  exact ⟨happlied.applied, happlied.valid, map_layout_withLayouts happlied.length_eq⟩

/-- After a remedy the analysis answers FIT_NOW exactly when the devices of the demanded group
have enough room by themselves. -/
theorem Remedies.analyzeFit_iff {snap : FragmentationSnapshot} {d : WorkloadDemand}
    {weights : PlanningWeights} {n : ℕ} (hn : Remedies weights snap.devices d n)
    (hvalid : ∀ s ∈ remedied weights snap.devices n, s.layout.Valid)
    (hlayouts : (remedied weights snap.devices n).map (fun s => s.layout) =
      released weights snap.devices n)
    (hgen : snap.generations.complete = true) (hprov : snap.provenance ≠ .unknown)
    (hdur : d.reservationDuration = none) :
    (∃ r, analyzeFit { snap with devices := remedied weights snap.devices n } d = .ok r ∧
        r.outcome = .fitNow) ↔
      Enough d ((select (remedied weights snap.devices n) d).map (fun s => s.layout)) := by
  have hvalid' : ∀ s ∈ select (remedied weights snap.devices n) d, s.layout.Valid :=
    fun s hs => hvalid s ((select_sublist _ d).subset hs)
  have hfits := @analyzeFit_eq_fitNow_iff
    { snap with devices := remedied weights snap.devices n } d hvalid'
  rw [hfits, enough_iff (valid_layouts hvalid') d]
  constructor
  · exact fun hnow => hnow.sufficient
  · intro hsuff
    refine ⟨⟨hgen, hprov, ?_⟩, ?_, ?_, hsuff, ?_⟩
    · intro hnil
      dsimp only at hnil
      refine hsuff.ne_nil ?_
      rw [List.map_eq_nil_iff]
      exact List.eq_nil_of_sublist_nil (hnil ▸ select_sublist _ d)
    · refine lt_of_le_of_lt (satisfying_select_le _ d) ?_
      dsimp only
      rw [hlayouts]
      exact hn.count
    · refine lt_of_le_of_lt (freeTotal_select_le _ d) ?_
      dsimp only
      rw [hlayouts]
      exact hn.free
    · intro duration hduration
      rw [hdur] at hduration
      cases hduration

/-- What helps the selected devices helps all of them. -/
theorem FitsAfterReclaim.enough_released {snap : FragmentationSnapshot} {d : WorkloadDemand}
    (h : FitsAfterReclaim snap d) (weights : PlanningWeights)
    (hvalid : ∀ s ∈ snap.devices, s.layout.Valid) :
    Enough d (released weights snap.devices
      (displacementOrder weights snap.devices).length) := by
  rw [released, List.take_length, releaseAll_displacementOrder weights hvalid,
    enough_iff (valid_reclaimed hvalid)]
  have hsub := (select_sublist snap.devices d).map (fun s => reclaimed s.layout)
  refine ⟨h.sufficient.1.trans ?_, h.sufficient.2.trans ?_⟩
  · exact (hsub.map _).sum_le_sum (fun _ _ => Nat.zero_le _)
  · exact (hsub.map _).sum_le_sum (fun _ _ => Nat.zero_le _)

/-- The plans for a demand in a topology group respect the group, and complete the fit
analysis, exactly when the allocations that come first in the order of all devices are on
devices of the group and make enough room there, and something is planned whenever reclaiming
in the group would help: the planner does not read the group. -/
theorem planRemediation_group_iff (snap : FragmentationSnapshot) (d : WorkloadDemand)
    (policy : Policy) (weights : PlanningWeights) (pid : FragmentationPlanId)
    (pg : FragmentationPlanGeneration) (g : Int64)
    (hreach : ∀ s ∈ snap.devices, s.layout.Reachable)
    (hids : (snap.devices.map (fun s => s.resource.id)).Nodup)
    (hgen : snap.generations.complete = true) (hprov : snap.provenance ≠ .unknown)
    (htopo : d.topologyGroup = some g) (hdur : d.reservationDuration = none) :
    ((∀ plan, planRemediation snap d policy weights pid pg = .ok (some plan) →
        (∀ act ∈ plan.actions, ∃ s ∈ snap.devices, s.resource.id = act.targetResource ∧
          s.resource.topologyGroup = some g) ∧
        ∃ devices, applyActions plan.actions snap.devices = .ok (some devices) ∧
          ∃ r, analyzeFit { snap with devices := devices } d = .ok r ∧ r.outcome = .fitNow) ∧
      ((∃ r, analyzeFit snap d = .ok r ∧ r.outcome = .fitAfterReclaim) →
        ∃ plan, planRemediation snap d policy weights pid pg = .ok (some plan))) ↔
      (∀ n, Remedies weights snap.devices d n →
        (∀ x ∈ (displacementOrder weights snap.devices).take n, InGroup snap.devices g x) ∧
        Enough d (((remedied weights snap.devices n).filter
          (fun s => s.resource.topologyGroup = some g)).map (fun s => s.layout))) ∧
      (FitsAfterReclaim snap d → ¬ Enough d (snap.devices.map (fun s => s.layout)) ∧
        ∀ n, FirstEnough weights snap.devices d n →
          satisfying d (released weights snap.devices n) < 2 ^ 64 ∧
            freeTotal (released weights snap.devices n) < 2 ^ 64) := by
  have hvalid : ∀ s ∈ snap.devices, s.layout.Valid := fun s hs => (hreach s hs).valid
  have hselect : ∀ ds, select ds d =
      ds.filter (fun s => s.resource.topologyGroup = some g) := by
    intro ds
    rw [Fit.select, htopo]
  have hselected : ∀ s ∈ select snap.devices d, s.layout.Valid :=
    fun s hs => hvalid s ((select_sublist _ d).subset hs)
  rw [analyzeFit_eq_fitAfterReclaim_iff hselected, exists_plan_iff hvalid]
  refine and_congr ⟨?_, ?_⟩
    (imp_congr_right (fun hfits => exists_remedies_iff (hfits.enough_released weights hvalid)))
  · intro hclaim n hn
    obtain ⟨plan, hplan⟩ := @Remedies.exists_plan snap d policy weights pid pg hvalid n hn
    obtain ⟨m, -, hm, hperforms, hdisplace, -⟩ := planRemediation_remedies hvalid hplan
    obtain rfl := hn.unique hm.toFirstEnough
    obtain ⟨happlied, hvalid', hlayouts⟩ := applyActions_remedied hvalid hids hdisplace
    obtain ⟨hgroup, devices, hdevices, hfit⟩ := hclaim plan hplan
    rw [happlied] at hdevices
    cases hdevices
    refine ⟨(forall_mem_iff_of_forall₂ hperforms
      (fun _ _ hact => hact.inGroup_iff hids g)).mp hgroup, ?_⟩
    rw [← hselect]
    exact (hn.analyzeFit_iff hvalid' hlayouts hgen hprov hdur).mp hfit
  · intro hremedy plan hplan
    obtain ⟨n, -, hn, hperforms, hdisplace, -⟩ := planRemediation_remedies hvalid hplan
    obtain ⟨happlied, hvalid', hlayouts⟩ := applyActions_remedied hvalid hids hdisplace
    obtain ⟨hgroup, henough⟩ := hremedy n hn
    rw [← hselect] at henough
    exact ⟨(forall_mem_iff_of_forall₂ hperforms
      (fun _ _ hact => hact.inGroup_iff hids g)).mpr hgroup, _, happlied,
      (hn.analyzeFit_iff hvalid' hlayouts hgen hprov hdur).mpr henough⟩

/-- A releaseable allocation on a device of each of two groups; that of the second group is the
shorter one. -/
def mixedSnapshot : FragmentationSnapshot :=
  { dividedSnapshot with
    devices :=
      [⟨{ id := ⟨1⟩, topologyGroup := some 0, capacity := ⟨100⟩ }, middleLayout ⟨10⟩ .releaseable⟩,
        ⟨{ id := ⟨2⟩, topologyGroup := some 1, capacity := ⟨100⟩ },
          middleLayout ⟨8⟩ .releaseable⟩] }

theorem reachable_mixedSnapshot : ∀ s ∈ mixedSnapshot.devices, s.layout.Reachable := by
  intro s hs
  simp only [mixedSnapshot, List.mem_cons, List.not_mem_nil, or_false] at hs
  rcases hs with rfl | rfl
  · exact reachable_middleLayout ⟨10⟩ .releaseable
  · exact reachable_middleLayout ⟨8⟩ .releaseable

/-- The plan for a block on the first device displaces the allocation of the second. -/
theorem planRemediation_ignores_group :
    (∀ s ∈ mixedSnapshot.devices, s.layout.Reachable) ∧
      (mixedSnapshot.devices.map (fun s => s.resource.id)).Nodup ∧
      mixedSnapshot.generations.complete = true ∧ mixedSnapshot.provenance ≠ .unknown ∧
      groupDemand.topologyGroup = some 0 ∧ groupDemand.reservationDuration = none ∧
      ∃ plan, planRemediation mixedSnapshot groupDemand {} defaultWeights ⟨1⟩ ⟨1⟩ =
          .ok (some plan) ∧
        plan.actions.map (fun act => act.targetResource) = [⟨2⟩] ∧
        ¬ ∀ act ∈ plan.actions, ∃ s ∈ mixedSnapshot.devices,
          s.resource.id = act.targetResource ∧ s.resource.topologyGroup = some 0 := by
  have htargets : (planRemediation mixedSnapshot groupDemand {} defaultWeights ⟨1⟩
      ⟨1⟩).toOption.map (Option.map (fun plan =>
        plan.actions.map (fun act => act.targetResource))) = some (some [⟨2⟩]) := by
    decide +kernel
  obtain ⟨result, hresult, hsome⟩ := Option.map_eq_some_iff.mp htargets
  obtain ⟨plan, rfl, hplan⟩ := Option.map_eq_some_iff.mp hsome
  refine ⟨reachable_mixedSnapshot, by decide, by decide, by decide, rfl, rfl, plan,
    eq_ok_of_toOption hresult, hplan, ?_⟩
  intro hall
  have hmem : (⟨2⟩ : ResourceId) ∈ plan.actions.map (fun act => act.targetResource) := by
    rw [hplan]
    exact List.mem_singleton.mpr rfl
  obtain ⟨act, hact, htarget⟩ := List.mem_map.mp hmem
  obtain ⟨s, hs, hid, hgroup⟩ := hall act hact
  rw [htarget] at hid
  have hother : ∀ s ∈ mixedSnapshot.devices, s.resource.id = ⟨2⟩ →
      s.resource.topologyGroup ≠ some 0 := by
    decide
  exact hother s hs hid hgroup

/-- The same block on a device of the second group. -/
def secondGroupDemand : WorkloadDemand := { groupDemand with topologyGroup := some 1 }

/-- On the same two devices the plan for the second group stays in it: the allocation that comes
first is there. -/
theorem planRemediation_group_iff_mixedSnapshot :
    ∃ plan, planRemediation mixedSnapshot secondGroupDemand {} defaultWeights ⟨1⟩ ⟨1⟩ =
        .ok (some plan) ∧
      plan.actions ≠ [] ∧
      (∀ act ∈ plan.actions, ∃ s ∈ mixedSnapshot.devices,
        s.resource.id = act.targetResource ∧ s.resource.topologyGroup = some 1) ∧
      ∃ devices, applyActions plan.actions mixedSnapshot.devices = .ok (some devices) ∧
        ∃ r, analyzeFit { mixedSnapshot with devices := devices } secondGroupDemand = .ok r ∧
          r.outcome = .fitNow := by
  have henough : Enough secondGroupDemand (released defaultWeights mixedSnapshot.devices 1) := by
    unfold Enough
    decide +kernel
  have hfirst : ∀ n, FirstEnough defaultWeights mixedSnapshot.devices secondGroupDemand n →
      n ≤ 1 := by
    intro n hn
    by_contra hmore
    exact hn.minimal 1 (by omega) henough
  have hgroup : ∀ x ∈ (displacementOrder defaultWeights mixedSnapshot.devices).take 1,
      mixedSnapshot.devices[x.1]?.bind (fun s => s.resource.topologyGroup) = some 1 := by
    decide +kernel
  have hcondition : ∀ n, Remedies defaultWeights mixedSnapshot.devices secondGroupDemand n →
      (∀ x ∈ (displacementOrder defaultWeights mixedSnapshot.devices).take n,
          InGroup mixedSnapshot.devices 1 x) ∧
        Enough secondGroupDemand (((remedied defaultWeights mixedSnapshot.devices n).filter
          (fun s => s.resource.topologyGroup = some 1)).map (fun s => s.layout)) := by
    intro n hn
    have hone : n = 1 := le_antisymm (hfirst n hn.toFirstEnough) hn.pos
    rw [hone]
    refine ⟨fun x hx => Option.bind_eq_some_iff.mp (hgroup x hx), ?_⟩
    unfold Enough
    decide +kernel
  have hplanned : FitsAfterReclaim mixedSnapshot secondGroupDemand →
      ¬ Enough secondGroupDemand (mixedSnapshot.devices.map (fun s => s.layout)) ∧
        ∀ n, FirstEnough defaultWeights mixedSnapshot.devices secondGroupDemand n →
          satisfying secondGroupDemand (released defaultWeights mixedSnapshot.devices n) <
              2 ^ 64 ∧
            freeTotal (released defaultWeights mixedSnapshot.devices n) < 2 ^ 64 := by
    intro _
    refine ⟨by unfold Enough; decide, ?_⟩
    intro n hn
    rcases Nat.le_one_iff_eq_zero_or_eq_one.mp (hfirst n hn) with rfl | rfl
    · exact ⟨by decide +kernel, by decide +kernel⟩
    · exact ⟨by decide +kernel, by decide +kernel⟩
  have hactions : (planRemediation mixedSnapshot secondGroupDemand {} defaultWeights ⟨1⟩
      ⟨1⟩).toOption.map (Option.map (fun plan => plan.actions.length)) = some (some 1) := by
    decide +kernel
  obtain ⟨result, hresult, hsome⟩ := Option.map_eq_some_iff.mp hactions
  obtain ⟨plan, rfl, hlen⟩ := Option.map_eq_some_iff.mp hsome
  have hplan := eq_ok_of_toOption hresult
  obtain ⟨htargets, hfits⟩ :=
    ((planRemediation_group_iff mixedSnapshot secondGroupDemand {} defaultWeights ⟨1⟩ ⟨1⟩ 1
      reachable_mixedSnapshot (by decide) (by decide) (by decide) rfl rfl).mpr
        ⟨hcondition, hplanned⟩).1 plan hplan
  exact ⟨plan, hplan, List.ne_nil_of_length_pos (by omega), htargets, hfits⟩

end FragmentationGovernor
