import FragmentationGovernor.Verification.Planner.Remedies

/-! # Plans compared

The planner takes the displaceable allocations in an order that depends neither on the demand
nor on the position of the devices. So a demand that asks for less is met by a prefix of the
plan, and devices listed in another order get the same plan. -/

namespace FragmentationGovernor

open Fit Planner

/-! ## Smaller demands -/

/-- The second demand asks the planner for no more than the first. -/
structure Milder (d d' : WorkloadDemand) : Prop where
  count : max 1 d'.acceleratorCount.toNat ≤ max 1 d.acceleratorCount.toNat
  perDevice : d'.perDeviceMemory ≤ d.perDeviceMemory
  aggregate : d'.aggregateMemory ≤ d.aggregateMemory

theorem Enough.of_milder {d d' : WorkloadDemand} {ls : List ResourceLayout} (h : Enough d ls)
    (hmild : Milder d d') : Enough d' ls := by
  have hmore : ls.countP (fun l => decide (d.perDeviceMemory ≤ l.largestFreeBlock)) ≤
      ls.countP (fun l => decide (d'.perDeviceMemory ≤ l.largestFreeBlock)) := by
    apply List.countP_mono_left
    intro l _ hl
    exact decide_eq_true (hmild.perDevice.trans (of_decide_eq_true hl))
  exact ⟨hmild.count.trans (h.1.trans hmore), (Quantity.le_iff.mp hmild.aggregate).trans h.2⟩

/-- Where a number of displacements makes enough room, a least one does. -/
theorem exists_firstEnough {weights : PlanningWeights} {ds : List DeviceState}
    {d : WorkloadDemand} {n : ℕ} (hn : n ≤ (displacementOrder weights ds).length)
    (h : Enough d (released weights ds n)) : ∃ m ≤ n, FirstEnough weights ds d m := by
  classical
  have hexists : ∃ m, Enough d (released weights ds m) := ⟨n, h⟩
  have hle : Nat.find hexists ≤ n := Nat.find_min' hexists h
  exact ⟨Nat.find hexists, hle, hle.trans hn, Nat.find_spec hexists,
    fun m hm => Nat.find_min hexists hm⟩

theorem Performs.unique {snap : FragmentationSnapshot} {weights : PlanningWeights}
    {act act' : PlanAction} {x : ℕ × Allocation} (h : Performs snap weights act x)
    (h' : Performs snap weights act' x) : act = act' := by
  obtain ⟨s, hs, hact⟩ := h
  obtain ⟨s', hs', hact'⟩ := h'
  rw [hs] at hs'
  cases hs'
  rw [hact] at hact'
  exact Except.ok.inj hact'

/-- The same displacements are performed by the same actions. -/
theorem eq_take_of_performs {snap : FragmentationSnapshot} {weights : PlanningWeights}
    {acts acts' : List PlanAction} {xs : List (ℕ × Allocation)} {m : ℕ}
    (h : List.Forall₂ (Performs snap weights) acts xs)
    (h' : List.Forall₂ (Performs snap weights) acts' (xs.take m)) : acts' = acts.take m := by
  induction h generalizing acts' m with
  | nil =>
      rw [List.take_nil] at h' ⊢
      exact List.forall₂_nil_right_iff.mp h'
  | cons hact _ ih =>
      cases m with
      | zero =>
          rw [List.take_zero] at h' ⊢
          exact List.forall₂_nil_right_iff.mp h'
      | succ m =>
          rw [List.take_succ_cons] at h' ⊢
          cases h' with
          | cons hact' hrest' => rw [ih hrest', hact'.unique hact]

/-- A plan for a milder demand is a prefix of the plan: it is `none` exactly where there is
enough room already, takes no more and recovers no more. -/
theorem planRemediation_milder (snap : FragmentationSnapshot) (d d' : WorkloadDemand)
    (policy policy' : Policy) (weights : PlanningWeights) (pid pid' : FragmentationPlanId)
    (pg pg' : FragmentationPlanGeneration) (plan : RemediationPlan)
    (hreach : ∀ s ∈ snap.devices, s.layout.Reachable) (hlen : snap.devices.length < 2 ^ 64)
    (hmild : Milder d d') (hplan : planRemediation snap d policy weights pid pg = .ok (some plan)) :
    (Enough d' (snap.devices.map (fun s => s.layout)) ∧
        planRemediation snap d' policy' weights pid' pg' = .ok none) ∨
      ∃ plan', planRemediation snap d' policy' weights pid' pg' = .ok (some plan') ∧
        plan'.actions <+: plan.actions ∧
        plan'.expectedCapacityRecovered ≤ plan.expectedCapacityRecovered := by
  have hvalid : ∀ s ∈ snap.devices, s.layout.Valid := fun s hs => (hreach s hs).valid
  obtain ⟨n, freeBefore, hn, hperforms, -, hscore⟩ := planRemediation_remedies hvalid hplan
  obtain ⟨m, hmn, hm⟩ := exists_firstEnough hn.le (hn.enough.of_milder hmild)
  have hfree := lt_of_le_of_lt (freeTotal_le_of_roomier (roomier_released hvalid hmn)) hn.free
  have hcount : satisfying d' (released weights snap.devices m) < 2 ^ 64 := by
    refine satisfying_lt hfree (Or.inl ?_)
    rw [released, length_releaseAll, List.length_map]
    exact hlen
  rcases Nat.eq_zero_or_pos m with rfl | hpos
  · refine Or.inl ⟨hm.enough, ?_⟩
    have hnow : eval (snap.devices.map (fun s => s.layout)) d' = .ok ⟨.ofNat _, .ofNat _⟩ :=
      eval_eq_ok_iff.mpr ⟨Quantity.toNat_ofNat hcount, Quantity.toNat_ofNat hfree⟩
    have hsuff := (suffices_iff hnow).mpr ((enough_iff (valid_layouts hvalid) d').mp hm.enough)
    rw [planRemediation]
    dsimp only
    rw [hnow, ok_bind, if_pos hsuff]
  · right
    have hremedy : Remedies weights snap.devices d' m := ⟨hm, hpos, hcount, hfree⟩
    obtain ⟨plan', hplan'⟩ :=
      @Remedies.exists_plan snap d' policy' weights pid' pg' hvalid m hremedy
    obtain ⟨m', freeBefore', hm', hperforms', -, hscore'⟩ := planRemediation_remedies hvalid hplan'
    obtain rfl := hm'.unique hm
    have htake : plan'.actions = plan.actions.take m' := by
      refine eq_take_of_performs hperforms ?_
      rw [List.take_take, min_eq_left hmn]
      exact hperforms'
    refine ⟨plan', hplan', ?_, ?_⟩
    · rw [htake]
      exact List.take_prefix _ _
    · rw [Quantity.le_iff, recovered_of_score hscore', recovered_of_score hscore, htake]
      exact (((List.take_sublist m' plan.actions).map _)).sum_le_sum fun _ _ => Nat.zero_le _

/-- A block of 51 bytes takes no more than one of 60. -/
theorem planRemediation_milder_dividedSnapshot :
    ∃ plan, planRemediation dividedSnapshot blockDemand {} defaultWeights ⟨1⟩ ⟨1⟩ =
        .ok (some plan) ∧
      ((Enough { perDeviceMemory := ⟨51⟩ } (dividedSnapshot.devices.map (fun s => s.layout)) ∧
          planRemediation dividedSnapshot { perDeviceMemory := ⟨51⟩ } {} defaultWeights ⟨1⟩ ⟨1⟩ =
            .ok none) ∨
        ∃ plan', planRemediation dividedSnapshot { perDeviceMemory := ⟨51⟩ } {} defaultWeights ⟨1⟩
            ⟨1⟩ = .ok (some plan') ∧ plan'.actions <+: plan.actions ∧
          plan'.expectedCapacityRecovered ≤ plan.expectedCapacityRecovered) := by
  obtain ⟨plan, hplan⟩ := exists_plan_dividedSnapshot
  refine ⟨plan, hplan, planRemediation_milder dividedSnapshot blockDemand
    { perDeviceMemory := ⟨51⟩ } {} {} defaultWeights ⟨1⟩ ⟨1⟩ ⟨1⟩ ⟨1⟩ plan reachable_dividedSnapshot
    (by decide) ⟨?_, ?_, ?_⟩ hplan⟩
  · decide
  · decide
  · decide

/-! ## Plans carried out in part -/

/-- Some allocation of the device has the id. -/
def HasId (s : DeviceState) (id : AllocationId) : Prop :=
  ∃ a, s.layout.allocations.find? id = some a

/-- No id is used on two devices. -/
def Separate (ds : List DeviceState) : Prop :=
  ds.Pairwise (fun s t => ∀ id, HasId s id → ¬ HasId t id)

section Separate

variable {ds ds' : List DeviceState} {weights : PlanningWeights}

theorem Separate.perm (h : Separate ds) (hperm : ds.Perm ds') : Separate ds' :=
  (hperm.pairwise_iff fun hst id ht hs => hst id hs ht).mp h

theorem Separate.index_eq (h : Separate ds) {i j : ℕ} {s t : DeviceState} (hs : ds[i]? = some s)
    (ht : ds[j]? = some t) {id : AllocationId} (hid : HasId s id) (hid' : HasId t id) : i = j := by
  obtain ⟨hi, rfl⟩ := List.getElem?_eq_some_iff.mp hs
  obtain ⟨hj, rfl⟩ := List.getElem?_eq_some_iff.mp ht
  have hpair := List.pairwise_iff_getElem.mp h
  rcases lt_trichotomy i j with hlt | heq | hlt
  · exact (hpair i j hi hj hlt id hid hid').elim
  · exact heq
  · exact (hpair j i hj hi hlt id hid' hid).elim

theorem Separate.eq_of_holds (h : Separate ds) {s t : DeviceState} (hs : s ∈ ds) (ht : t ∈ ds)
    {id : AllocationId} (hid : HasId s id) (hid' : HasId t id) : s = t := by
  obtain ⟨i, hi⟩ := List.mem_iff_getElem?.mp hs
  obtain ⟨j, hj⟩ := List.mem_iff_getElem?.mp ht
  obtain rfl := h.index_eq hi hj hid hid'
  exact Option.some.inj (hi.symm.trans hj)

/-- The displaceable allocations in order, without their devices. -/
def allocationOrder (weights : PlanningWeights) (ds : List DeviceState) : List Allocation :=
  (displacementOrder weights ds).map Prod.snd

def allocationKey (a : Allocation) : ℚ ×ₗ (Bytes ×ₗ AllocationId) :=
  toLex (disruptionOf a.movability, toLex (a.length, a.id))

theorem mem_allocationOrder (h : ∀ s ∈ ds, s.layout.Valid) {a : Allocation} :
    a ∈ allocationOrder weights ds ↔ ∃ s ∈ ds, s.layout.allocations.find? a.id = some a ∧
      Planner.reclaimable a = true := by
  rw [allocationOrder, List.mem_map]
  constructor
  · rintro ⟨x, hx, rfl⟩
    obtain ⟨s, hs, hfind, hr⟩ := (mem_displacementOrder h).mp hx
    exact ⟨s, List.mem_of_getElem? hs, hfind, hr⟩
  · rintro ⟨s, hs, hfind, hr⟩
    obtain ⟨i, hi⟩ := List.mem_iff_getElem?.mp hs
    exact ⟨(i, a), (mem_displacementOrder h).mpr ⟨s, hi, hfind, hr⟩, rfl⟩

/-- Where no id is used twice the device never decides. -/
theorem pairwise_allocationOrder (h : ∀ s ∈ ds, s.layout.Valid) (hsep : Separate ds) :
    (allocationOrder weights ds).Pairwise (fun a b => allocationKey a < allocationKey b) := by
  rw [allocationOrder, List.pairwise_map]
  refine (pairwise_displacementOrder h).imp_of_mem ?_
  intro x y hx hy hlt
  obtain ⟨s, hs, hfind, -⟩ := (mem_displacementOrder h).mp hx
  obtain ⟨t, ht, hfind', -⟩ := (mem_displacementOrder h).mp hy
  simp only [displacementKey, allocationKey, Prod.Lex.toLex_lt_toLex] at hlt ⊢
  rcases hlt with hlt | ⟨hd, hlt | ⟨hl, hlt | ⟨hid, hlt⟩⟩⟩
  · exact Or.inl hlt
  · exact Or.inr ⟨hd, Or.inl hlt⟩
  · exact Or.inr ⟨hd, Or.inr ⟨hl, hlt⟩⟩
  · have heq := hsep.index_eq hs ht ⟨_, hfind⟩ ⟨_, hid ▸ hfind'⟩
    exact absurd hlt (by rw [heq]; exact lt_irrefl _)

theorem allocationOrder_perm (h : ∀ s ∈ ds, s.layout.Valid) (hsep : Separate ds)
    (hperm : ds.Perm ds') : allocationOrder weights ds = allocationOrder weights ds' := by
  have h' : ∀ s ∈ ds', s.layout.Valid := fun s hs => h s (hperm.mem_iff.mpr hs)
  have hsorted := @pairwise_allocationOrder ds weights h hsep
  have hsorted' := @pairwise_allocationOrder ds' weights h' (hsep.perm hperm)
  have hnodup : ∀ {as : List Allocation},
      as.Pairwise (fun a b => allocationKey a < allocationKey b) → as.Nodup :=
    fun hp => hp.imp fun hlt heq => by rw [heq] at hlt; exact lt_irrefl _ hlt
  refine List.Perm.eq_of_pairwise (fun a b _ _ hab hba => (lt_asymm hab hba).elim) hsorted hsorted'
    ((List.perm_ext_iff_of_nodup (hnodup hsorted) (hnodup hsorted')).mpr fun a => ?_)
  simp only [mem_allocationOrder h, mem_allocationOrder h', hperm.mem_iff]

/-! ### The layouts left behind -/

/-- The layout without an allocation, if it has it. -/
def strip (l : ResourceLayout) (id : AllocationId) : ResourceLayout :=
  match l.removeAllocation id with
  | .ok (l', _) => l'
  | .error _ => l

def stripAll (l : ResourceLayout) (ids : List AllocationId) : ResourceLayout := ids.foldl strip l

theorem cleared_stripAll {l : ResourceLayout} (h : l.Valid) (ids : List AllocationId) :
    ResourceLayout.Cleared ids l (stripAll l ids) := by
  induction ids using List.reverseRecOn with
  | nil => exact h.cleared
  | append_singleton ids id ih =>
      obtain ⟨l', reply, hrem, hcleared⟩ := ih.remove_any id
      rw [stripAll, List.foldl_append]
      change ResourceLayout.Cleared _ l (strip (stripAll l ids) id)
      rw [strip, hrem]
      exact hcleared

/-- The ids of the first `n` displacements. -/
def firstIds (weights : PlanningWeights) (ds : List DeviceState) (n : ℕ) : List AllocationId :=
  ((allocationOrder weights ds).take n).map (fun a => a.id)

theorem mem_firstIds {n : ℕ} {id : AllocationId} :
    id ∈ firstIds weights ds n ↔ ∃ x ∈ (displacementOrder weights ds).take n, x.2.id = id := by
  rw [firstIds, allocationOrder, ← List.map_take, List.map_map, List.mem_map]
  rfl

/-- Displacements act on each device for itself. -/
theorem released_eq_map (h : ∀ s ∈ ds, s.layout.Valid) (hsep : Separate ds) (n : ℕ) :
    released weights ds n = ds.map (fun s => stripAll s.layout (firstIds weights ds n)) := by
  have hlayouts : ∀ l ∈ ds.map (fun s => s.layout), l.Valid := valid_layouts h
  refine List.ext_getElem? fun i => ?_
  cases hs : ds[i]? with
  | none =>
      have hlen : ds.length ≤ i := List.getElem?_eq_none_iff.mp hs
      rw [List.getElem?_map, hs, Option.map_none, List.getElem?_eq_none_iff, released,
        length_releaseAll, List.length_map]
      exact hlen
  | some s =>
      have hl : (ds.map (fun s => s.layout))[i]? = some s.layout := by
        rw [List.getElem?_map, hs]
        rfl
      obtain ⟨l', hl', hcleared⟩ := releaseAll_cleared hlayouts
        ((displacementOrder weights ds).take n) hl
      have hvalid := h s (List.mem_of_getElem? hs)
      have hstrip := cleared_stripAll hvalid (firstIds weights ds n)
      have hids : ∀ id, s.layout.allocations.find? id ≠ none →
          (id ∈ idsOn i ((displacementOrder weights ds).take n) ↔ id ∈ firstIds weights ds n) := by
        intro id hid
        obtain ⟨a, ha⟩ := Option.ne_none_iff_exists'.mp hid
        rw [mem_idsOn, mem_firstIds]
        constructor
        · rintro ⟨b, hb, hbid⟩
          exact ⟨(i, b), hb, hbid⟩
        · rintro ⟨x, hx, rfl⟩
          obtain ⟨t, ht, hfind, -⟩ := (mem_displacementOrder h).mp (List.mem_of_mem_take hx)
          obtain rfl := hsep.index_eq hs ht ⟨a, ha⟩ ⟨_, hfind⟩
          exact ⟨x.2, hx, rfl⟩
      rw [List.getElem?_map, hs, released, hl', Option.map_some, Option.some.injEq]
      refine hcleared.valid.eq_of_allocations hstrip.valid
        (hcleared.capacity_eq.trans hstrip.capacity_eq.symm) (OrdMap.ext_find? fun id => ?_)
      rw [hcleared.find?_eq, hstrip.find?_eq]
      by_cases hid : s.layout.allocations.find? id = none
      · simp [hid]
      · simp only [hids id hid]

/-- So the layouts left behind are the same, in the order of the devices. -/
theorem released_perm (h : ∀ s ∈ ds, s.layout.Valid) (hsep : Separate ds) (hperm : ds.Perm ds')
    (n : ℕ) : (released weights ds n).Perm (released weights ds' n) := by
  have h' : ∀ s ∈ ds', s.layout.Valid := fun s hs => h s (hperm.mem_iff.mpr hs)
  rw [released_eq_map h hsep, released_eq_map h' (hsep.perm hperm), firstIds, firstIds,
    allocationOrder_perm h hsep hperm]
  exact hperm.map _

theorem Remedies.perm {d : WorkloadDemand} {n : ℕ} (hn : Remedies weights ds d n)
    (h : ∀ s ∈ ds, s.layout.Valid) (hsep : Separate ds) (hperm : ds.Perm ds') :
    Remedies weights ds' d n := by
  have hreleased := fun n => @released_perm ds ds' weights h hsep hperm n
  have hfree : ∀ n, freeTotal (released weights ds' n) = freeTotal (released weights ds n) :=
    fun n => (((hreleased n).map _).sum_eq).symm
  have henough : ∀ n, Enough d (released weights ds' n) ↔ Enough d (released weights ds n) := by
    intro n
    rw [Enough, Enough, hfree, (hreleased n).countP_eq]
  have hlen : (displacementOrder weights ds').length = (displacementOrder weights ds).length := by
    have horder := congrArg List.length (@allocationOrder_perm ds ds' weights h hsep hperm)
    simpa [allocationOrder] using horder.symm
  refine ⟨⟨?_, (henough n).mpr hn.enough, fun m hm => ?_⟩, hn.pos, ?_, ?_⟩
  · rw [hlen]
    exact hn.le
  · rw [henough]
    exact hn.minimal m hm
  · rw [satisfying, ((hreleased n).map _).symm.sum_eq]
    exact hn.count
  · rw [hfree]
    exact hn.free

end Separate

/-! ### The plan -/

section Reordered

variable {snap : FragmentationSnapshot} {ds : List DeviceState} {d : WorkloadDemand}
  {policy : Policy} {weights : PlanningWeights} {pid : FragmentationPlanId}
  {pg : FragmentationPlanGeneration}

/-- The action for an allocation is the same wherever its device stands. -/
theorem Performs.perm (h : ∀ s ∈ snap.devices, s.layout.Valid) (hsep : Separate snap.devices)
    (hperm : snap.devices.Perm ds) {act act' : PlanAction} {x x' : ℕ × Allocation}
    (hx : x ∈ displacementOrder weights snap.devices) (hx' : x' ∈ displacementOrder weights ds)
    (hsame : x.2 = x'.2) (hact : Performs snap weights act x)
    (hact' : Performs { snap with devices := ds } weights act' x') : act = act' := by
  have h' : ∀ s ∈ ds, s.layout.Valid := fun s hs => h s (hperm.mem_iff.mpr hs)
  obtain ⟨s, hs, hfind, -⟩ := (mem_displacementOrder h).mp hx
  obtain ⟨t, ht, hfind', -⟩ := (mem_displacementOrder h').mp hx'
  obtain ⟨s', hs', hact⟩ := hact
  obtain ⟨t', ht', hact'⟩ := hact'
  obtain rfl : s' = s := Option.some.inj (hs'.symm.trans hs)
  obtain rfl : t' = t := Option.some.inj (ht'.symm.trans ht)
  have hst : s' = t' := by
    rw [hsame] at hfind
    exact hsep.eq_of_holds (List.mem_of_getElem? hs)
      (hperm.mem_iff.mpr (List.mem_of_getElem? ht)) ⟨_, hfind⟩ ⟨_, hfind'⟩
  -- the index of a candidate is not read
  have heq : actionFor snap weights s'.resource.id (candidateAt weights x) =
      actionFor { snap with devices := ds } weights t'.resource.id (candidateAt weights x') := by
    obtain ⟨i, a⟩ := x
    obtain ⟨j, b⟩ := x'
    obtain rfl : a = b := hsame
    rw [hst]
    rfl
  rw [hact, hact'] at heq
  exact Except.ok.inj heq

theorem actions_perm (h : ∀ s ∈ snap.devices, s.layout.Valid) (hsep : Separate snap.devices)
    (hperm : snap.devices.Perm ds) {acts acts' : List PlanAction} {n : ℕ}
    (hacts : List.Forall₂ (Performs snap weights) acts
      ((displacementOrder weights snap.devices).take n))
    (hacts' : List.Forall₂ (Performs { snap with devices := ds } weights) acts'
      ((displacementOrder weights ds).take n)) : acts = acts' := by
  have horder : ((displacementOrder weights snap.devices).take n).map Prod.snd =
      ((displacementOrder weights ds).take n).map Prod.snd := by
    rw [List.map_take, List.map_take]
    exact congrArg (List.take n) (allocationOrder_perm h hsep hperm)
  have hmem : ∀ x ∈ (displacementOrder weights snap.devices).take n,
      x ∈ displacementOrder weights snap.devices := fun x hx => List.mem_of_mem_take hx
  have hmem' : ∀ x ∈ (displacementOrder weights ds).take n, x ∈ displacementOrder weights ds :=
    fun x hx => List.mem_of_mem_take hx
  generalize (displacementOrder weights snap.devices).take n = xs at hacts horder hmem
  generalize (displacementOrder weights ds).take n = xs' at hacts' horder hmem'
  induction hacts generalizing acts' xs' with
  | nil =>
      obtain rfl : xs' = [] := List.map_eq_nil_iff.mp horder.symm
      exact (List.forall₂_nil_right_iff.mp hacts').symm
  | @cons act x acts xs hact hrest ih =>
      cases hacts' with
      | nil => cases horder
      | @cons act' x' acts' xs' hact' hrest' =>
          rw [List.map_cons, List.map_cons, List.cons.injEq] at horder
          have hhead := Performs.perm h hsep hperm (hmem x (by simp)) (hmem' x' (by simp)) horder.1
            hact hact'
          have htail := ih (fun y hy => hmem y (by simp [hy])) xs' hrest' horder.2
            (fun y hy => hmem' y (by simp [hy]))
          rw [hhead, htail]

/-- A returned plan is scored over what was free before. -/
theorem planRemediation_scored {plan : RemediationPlan}
    (hplan : planRemediation snap d policy weights pid pg = .ok (some plan)) :
    ∃ freeBefore, sumBytes ((snap.devices.map (fun s => s.layout)).map
        (fun l => l.freeCapacity)) = .ok freeBefore ∧
      score snap policy weights pid pg freeBefore plan.actions = .ok plan := by
  rw [planRemediation] at hplan
  dsimp only at hplan
  rw [bind_eq_ok] at hplan
  obtain ⟨now, -, hplan⟩ := hplan
  split_ifs at hplan
  · cases hplan
  · rw [bind_eq_ok] at hplan
    obtain ⟨freeBefore, hfree, hplan⟩ := hplan
    rw [bind_eq_ok] at hplan
    obtain ⟨⟨devs, actions⟩, -, hplan⟩ := hplan
    dsimp only at hplan
    rw [bind_eq_ok] at hplan
    obtain ⟨final, -, hplan⟩ := hplan
    split_ifs at hplan
    · cases hplan
    · rw [bind_eq_ok] at hplan
      obtain ⟨plan', hscore, hsome⟩ := hplan
      cases hsome
      refine ⟨freeBefore, hfree, ?_⟩
      rw [(score_eq_ok hscore).2.2.2.2]
      exact hscore

/-- Two plans over the same devices in another order. -/
theorem plan_perm (h : ∀ s ∈ snap.devices, s.layout.Valid) (hsep : Separate snap.devices)
    (hperm : snap.devices.Perm ds) {plan plan' : RemediationPlan}
    (hplan : planRemediation snap d policy weights pid pg = .ok (some plan))
    (hplan' : planRemediation { snap with devices := ds } d policy weights pid pg =
      .ok (some plan')) : plan = plan' := by
  have h' : ∀ s ∈ ds, s.layout.Valid := fun s hs => h s (hperm.mem_iff.mpr hs)
  obtain ⟨n, -, hn, hacts, -⟩ := planRemediation_remedies h hplan
  obtain ⟨n', -, hn', hacts', -⟩ :=
    @planRemediation_remedies { snap with devices := ds } _ _ _ _ _ h' _ hplan'
  obtain rfl := hn'.unique (hn.perm h hsep hperm).toFirstEnough
  have hactions := actions_perm h hsep hperm hacts hacts'
  obtain ⟨freeBefore, hfree, hscore⟩ := planRemediation_scored hplan
  obtain ⟨freeBefore', hfree', hscore'⟩ := planRemediation_scored hplan'
  have hsum : freeBefore = freeBefore' := by
    rw [sumBytes_eq_ok_iff] at hfree hfree'
    rw [Quantity.eq_iff, ← hfree, ← hfree']
    exact (((hperm.map _).map _).map _).sum_eq
  rw [← hactions, ← hsum] at hscore'
  -- the score does not look at the devices
  exact Except.ok.inj (hscore.symm.trans hscore')

end Reordered

/-- Where no allocation id is used on two devices, devices listed in another order get the same
answer, plan and scores included. -/
theorem planRemediation_perm (snap : FragmentationSnapshot) (ds : List DeviceState)
    (d : WorkloadDemand) (policy : Policy) (weights : PlanningWeights) (pid : FragmentationPlanId)
    (pg : FragmentationPlanGeneration) (hreach : ∀ s ∈ snap.devices, s.layout.Reachable)
    (hcap : capacityTotal (snap.devices.map (fun s => s.layout)) < 2 ^ 64)
    (hlen : snap.devices.length < 2 ^ 64) (hsep : Separate snap.devices)
    (hperm : snap.devices.Perm ds) :
    planRemediation { snap with devices := ds } d policy weights pid pg =
      planRemediation snap d policy weights pid pg := by
  have h : ∀ s ∈ snap.devices, s.layout.Valid := fun s hs => (hreach s hs).valid
  have h' : ∀ s ∈ ds, s.layout.Valid := fun s hs => h s (hperm.mem_iff.mpr hs)
  have hcount : Countable d snap.devices := ⟨h, hcap, Or.inl hlen⟩
  have hcount' : Countable d ds := by
    refine ⟨h', ?_, Or.inl (hperm.length_eq ▸ hlen)⟩
    rw [capacityTotal, ← ((hperm.map _).map _).sum_eq]
    exact hcap
  obtain ⟨r, hr⟩ := @exists_planRemediation snap policy weights pid pg d hcount.representable
  obtain ⟨r', hr'⟩ := @exists_planRemediation { snap with devices := ds } policy weights pid pg d
    hcount'.representable
  rw [hr, hr']
  congr 1
  cases r with
  | some plan =>
      obtain ⟨n, hn⟩ := (@exists_plan_iff snap d policy weights pid pg h).mp ⟨plan, hr⟩
      obtain ⟨plan', hplan'⟩ := (@exists_plan_iff { snap with devices := ds } d policy weights pid
        pg h').mpr ⟨n, hn.perm h hsep hperm⟩
      rw [hr'] at hplan'
      cases hplan'
      exact congrArg some (plan_perm h hsep hperm hr hr').symm
  | none =>
      cases r' with
      | none => rfl
      | some plan' =>
          obtain ⟨n, hn⟩ := (@exists_plan_iff { snap with devices := ds } d policy weights pid pg
            h').mp ⟨plan', hr'⟩
          obtain ⟨plan, hplan⟩ := (@exists_plan_iff snap d policy weights pid pg h).mpr
            ⟨n, hn.perm h' (hsep.perm hperm) hperm.symm⟩
          rw [hr] at hplan
          cases hplan

/-- The divided device, and a smaller one without allocations. -/
def pairSnapshot : FragmentationSnapshot :=
  { dividedSnapshot with
    devices := dividedSnapshot.devices ++
      [⟨{ id := ⟨2⟩, capacity := ⟨40⟩ }, .ofCapacity ⟨40⟩⟩] }

theorem planRemediation_perm_pairSnapshot :
    (∃ plan, planRemediation pairSnapshot blockDemand {} defaultWeights ⟨1⟩ ⟨1⟩ =
        .ok (some plan)) ∧
      planRemediation { pairSnapshot with devices := pairSnapshot.devices.reverse } blockDemand {}
          defaultWeights ⟨1⟩ ⟨1⟩ =
        planRemediation pairSnapshot blockDemand {} defaultWeights ⟨1⟩ ⟨1⟩ := by
  have hreach : ∀ s ∈ pairSnapshot.devices, s.layout.Reachable := by
    intro s hs
    simp only [pairSnapshot, List.mem_append, List.mem_singleton] at hs
    rcases hs with hs | rfl
    · exact reachable_dividedSnapshot s hs
    · exact .ofCapacity ⟨40⟩
  have hsep : Separate pairSnapshot.devices := by
    refine List.pairwise_pair.mpr ?_
    rintro id - ⟨a, ha⟩
    cases ha
  refine ⟨eq_ok_some_of_isSome (by decide +kernel), ?_⟩
  exact planRemediation_perm pairSnapshot _ blockDemand {} defaultWeights ⟨1⟩ ⟨1⟩ hreach
    (by decide +kernel) (by decide) hsep (List.reverse_perm _).symm

end FragmentationGovernor
