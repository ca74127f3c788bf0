import FragmentationGovernor.Verification.Layout.Registry
import FragmentationGovernor.Verification.Planner.Order
import FragmentationGovernor.Verification.Planner.Totals
import FragmentationGovernor.Verification.Verify.Correctness

/-! # What the planner plans

The planner finds a plan exactly when removing every reclaimable allocation would help, and
the plan displaces no more of them, in the order of their cost, than it has to. The fit
analysis answers the same question except where the free capacity itself is too small. -/

namespace FragmentationGovernor

open Fit Planner

/-! ## Displaceable allocations in order -/

/-- An allocation of the device at an index that may be displaced. -/
def Displaceable (ds : List DeviceState) (x : ℕ × Allocation) : Prop :=
  ∃ s, ds[x.1]? = some s ∧ s.layout.allocations.find? x.2.id = some x.2 ∧
    Planner.reclaimable x.2 = true

/-- The order of displacement: the disruption, then the length, the id and the device. -/
def displacementKey (x : ℕ × Allocation) : ℚ ×ₗ (Bytes ×ₗ (AllocationId ×ₗ ℕ)) :=
  toLex (disruptionOf x.2.movability, toLex (x.2.length, toLex (x.2.id, x.1)))

/-- The displaceable allocations of one device. -/
def displaceablesOn (i : ℕ) (l : ResourceLayout) : List (ℕ × Allocation) :=
  l.allocations.entries.filterMap (fun e =>
    if Planner.reclaimable e.2 then some (i, e.2) else none)

/-- All of them, device by device from index `i` on. -/
def displaceables : ℕ → List DeviceState → List (ℕ × Allocation)
  | _, [] => []
  | i, s :: rest => displaceablesOn i s.layout ++ displaceables (i + 1) rest

def candidateAt (weights : PlanningWeights) (x : ℕ × Allocation) : ReclaimCandidate :=
  candidateOf weights x.1 x.2.id x.2

theorem candidates_eq_map {weights : PlanningWeights} {ds : List DeviceState} {i : ℕ}
    (h : ∀ s ∈ ds, s.layout.Valid) :
    candidates weights i ds = (displaceables i ds).map (candidateAt weights) := by
  induction ds generalizing i with
  | nil => rfl
  | cons s rest ih =>
      rw [candidates, displaceables, List.map_append, ih (fun t ht => h t (by simp [ht]))]
      congr 1
      rw [candidatesOn, displaceablesOn, List.map_filterMap]
      apply List.filterMap_congr
      intro e he
      have hid := (h s (by simp)).ids e he
      split_ifs
      · rw [Option.map_some, candidateAt, hid]
      · rfl

theorem mem_displaceables_iff {ds : List DeviceState} {i : ℕ} {x : ℕ × Allocation}
    (h : ∀ s ∈ ds, s.layout.Valid) :
    x ∈ displaceables i ds ↔ i ≤ x.1 ∧ Displaceable ds (x.1 - i, x.2) := by
  induction ds generalizing i with
  | nil =>
      simp only [displaceables, List.not_mem_nil, false_iff, not_and]
      rintro - ⟨s, hs, -⟩
      cases hs
  | cons s rest ih =>
      have hon : x ∈ displaceablesOn i s.layout ↔ x.1 = i ∧
          s.layout.allocations.find? x.2.id = some x.2 ∧ Planner.reclaimable x.2 = true := by
        rw [displaceablesOn, List.mem_filterMap]
        constructor
        · rintro ⟨e, he, hx⟩
          split_ifs at hx with hr
          cases hx
          have hid : e.2.id = e.1 := (h s (by simp)).ids e he
          refine ⟨rfl, ?_, hr⟩
          dsimp only
          rw [hid]
          exact OrdMap.find?_eq_some_iff.mpr he
        · rintro ⟨rfl, hfind, hr⟩
          exact ⟨(x.2.id, x.2), OrdMap.find?_eq_some_iff.mp hfind, by simp [hr]⟩
      rw [displaceables, List.mem_append, hon, ih (fun t ht => h t (by simp [ht]))]
      constructor
      · rintro (⟨rfl, hfind, hr⟩ | ⟨hle, t, ht, hfind, hr⟩)
        · exact ⟨le_refl _, s, by simp, hfind, hr⟩
        · refine ⟨by omega, t, ?_, hfind, hr⟩
          dsimp only at ht ⊢
          rw [show x.1 - i = (x.1 - (i + 1)) + 1 by omega]
          exact ht
      · rintro ⟨hle, t, ht, hfind, hr⟩
        dsimp only at ht hfind
        rcases Nat.eq_or_lt_of_le hle with heq | hlt
        · rw [← heq, Nat.sub_self] at ht
          cases ht
          exact Or.inl ⟨heq.symm, hfind, hr⟩
        · rw [show x.1 - i = (x.1 - (i + 1)) + 1 by omega] at ht
          exact Or.inr ⟨hlt, t, ht, hfind, hr⟩

/-- The allocations are listed by device, and those of a device by id. -/
theorem pairwise_displaceables {ds : List DeviceState} (i : ℕ) (h : ∀ s ∈ ds, s.layout.Valid) :
    (displaceables i ds).Pairwise (fun x y => x.1 < y.1 ∨ x.1 = y.1 ∧ x.2.id < y.2.id) := by
  induction ds generalizing i with
  | nil => exact List.Pairwise.nil
  | cons s rest ih =>
      have hvalid := h s (by simp)
      rw [displaceables, List.pairwise_append]
      refine ⟨?_, ih (i + 1) (fun t ht => h t (by simp [ht])), ?_⟩
      · rw [displaceablesOn, List.pairwise_filterMap]
        refine (s.layout.allocations.sorted.imp_of_mem ?_)
        intro e e' he he' hlt x hx y hy
        split_ifs at hx hy
        cases hx
        cases hy
        refine Or.inr ⟨rfl, ?_⟩
        rw [hvalid.ids e he, hvalid.ids e' he']
        exact hlt
      · intro x hx y hy
        have hle := ((mem_displaceables_iff (fun t ht => h t (by simp [ht]))).mp hy).1
        rw [displaceablesOn, List.mem_filterMap] at hx
        obtain ⟨e, -, hx⟩ := hx
        split_ifs at hx
        cases hx
        exact Or.inl (by omega)

/-- The displaceable allocations in the order the planner takes them. -/
def displacementOrder (weights : PlanningWeights) (ds : List DeviceState) : List (ℕ × Allocation) :=
  (displaceables 0 ds).insertionSort (fun x y =>
    before (candidateAt weights y) (candidateAt weights x) = false)

theorem sortCandidates_eq_map {weights : PlanningWeights} {ds : List DeviceState}
    (h : ∀ s ∈ ds, s.layout.Valid) :
    sortCandidates (candidates weights 0 ds) =
      (displacementOrder weights ds).map (candidateAt weights) := by
  rw [displacementOrder, sortCandidates, candidates_eq_map h]
  exact (List.map_insertionSort
    (fun x y => before (candidateAt weights y) (candidateAt weights x) = false)
    (fun a b => before b a = false) (candidateAt weights) (displaceables 0 ds)
    (fun _ _ _ _ => Iff.rfl)).symm

theorem mem_displacementOrder {weights : PlanningWeights} {ds : List DeviceState}
    (h : ∀ s ∈ ds, s.layout.Valid) {x : ℕ × Allocation} :
    x ∈ displacementOrder weights ds ↔ Displaceable ds x := by
  rw [displacementOrder, List.mem_insertionSort, mem_displaceables_iff h]
  simp

/-- No two of them are in the same place of the order. -/
theorem pairwise_displacementOrder {weights : PlanningWeights} {ds : List DeviceState}
    (h : ∀ s ∈ ds, s.layout.Valid) :
    (displacementOrder weights ds).Pairwise (fun x y => displacementKey x < displacementKey y) := by
  have htotal : Std.Total (fun x y : ℕ × Allocation =>
      before (candidateAt weights y) (candidateAt weights x) = false) :=
    ⟨fun x y => before_total.total _ _⟩
  have htrans : IsTrans (ℕ × Allocation) (fun x y =>
      before (candidateAt weights y) (candidateAt weights x) = false) :=
    ⟨fun x y z hxy hyz => before_trans.trans _ _ _ hxy hyz⟩
  have hkey : ∀ x y : ℕ × Allocation,
      before (candidateAt weights y) (candidateAt weights x) = false ↔
        disruptionOf x.2.movability < disruptionOf y.2.movability ∨
          disruptionOf x.2.movability = disruptionOf y.2.movability ∧
            (x.2.length < y.2.length ∨ x.2.length = y.2.length ∧ x.2.id ≤ y.2.id) := by
    intro x y
    rw [before_eq_false_iff]
    simp only [sortKey, candidateAt, candidateOf, Prod.Lex.toLex_le_toLex,
      round_disruption_lt_iff, round_disruption_inj]
  refine (pairwise_insertionSort_stable (pairwise_displaceables 0 h)).imp ?_
  rintro x y ⟨hle, htie⟩
  rw [hkey] at hle htie
  simp only [displacementKey, Prod.Lex.toLex_lt_toLex]
  rcases hle with hlt | ⟨hd, hlt | ⟨hl, hid⟩⟩
  · exact Or.inl hlt
  · exact Or.inr ⟨hd, Or.inl hlt⟩
  · refine Or.inr ⟨hd, Or.inr ⟨hl, ?_⟩⟩
    rcases lt_or_eq_of_le hid with hlt | heq
    · exact Or.inl hlt
    · -- only the device is left to tell them apart
      refine Or.inr ⟨heq, ?_⟩
      rcases htie (Or.inr ⟨hd.symm, Or.inr ⟨hl.symm, heq.ge⟩⟩) with hlt | ⟨-, hlt⟩
      · exact hlt
      · exact (hlt.ne heq).elim

/-! ## Releasing allocations -/

/-- The layouts after an allocation is removed from the one at its index. -/
def release (ls : List ResourceLayout) (x : ℕ × Allocation) : List ResourceLayout :=
  match ls[x.1]? with
  | none => ls
  | some l =>
      match l.removeAllocation x.2.id with
      | .ok (l', _) => ls.set x.1 l'
      | .error _ => ls

def releaseAll (ls : List ResourceLayout) (xs : List (ℕ × Allocation)) : List ResourceLayout :=
  xs.foldl release ls

theorem releaseAll_append (ls : List ResourceLayout) (xs ys : List (ℕ × Allocation)) :
    releaseAll ls (xs ++ ys) = releaseAll (releaseAll ls xs) ys :=
  List.foldl_append

theorem release_eq_set {ls : List ResourceLayout} {x : ℕ × Allocation} {l l' : ResourceLayout}
    {reply : LayoutReply} (hl : ls[x.1]? = some l)
    (hrem : l.removeAllocation x.2.id = .ok (l', reply)) : release ls x = ls.set x.1 l' := by
  rw [release, hl]
  dsimp only
  rw [hrem]

theorem length_release (ls : List ResourceLayout) (x : ℕ × Allocation) :
    (release ls x).length = ls.length := by
  unfold release
  split
  · rfl
  · split
    · exact List.length_set
    · rfl

theorem length_releaseAll (ls : List ResourceLayout) (xs : List (ℕ × Allocation)) :
    (releaseAll ls xs).length = ls.length := by
  induction xs generalizing ls with
  | nil => rfl
  | cons x xs ih => rw [releaseAll, List.foldl_cons, ← releaseAll, ih, length_release]

/-- The ids released on one device. -/
def idsOn (i : ℕ) (xs : List (ℕ × Allocation)) : List AllocationId :=
  (xs.filter (fun x => x.1 = i)).map (fun x => x.2.id)

theorem mem_idsOn {i : ℕ} {xs : List (ℕ × Allocation)} {id : AllocationId} :
    id ∈ idsOn i xs ↔ ∃ a, (i, a) ∈ xs ∧ a.id = id := by
  simp [idsOn]

/-- Every layout is left without what was released on it. -/
theorem releaseAll_cleared {ls : List ResourceLayout} (h : ∀ l ∈ ls, l.Valid)
    (xs : List (ℕ × Allocation)) {i : ℕ} {l : ResourceLayout} (hl : ls[i]? = some l) :
    ∃ l', (releaseAll ls xs)[i]? = some l' ∧ ResourceLayout.Cleared (idsOn i xs) l l' := by
  induction xs using List.reverseRecOn with
  | nil => exact ⟨l, hl, (h l (List.mem_of_getElem? hl)).cleared⟩
  | append_singleton xs x ih =>
      obtain ⟨l₁, hl₁, hcleared⟩ := ih
      rw [releaseAll_append, idsOn, List.filter_append, List.map_append, ← idsOn]
      by_cases hx : x.1 = i
      · obtain ⟨l₂, reply, hrem, hcleared₂⟩ := hcleared.remove_any x.2.id
        rw [← hx] at hl₁
        refine ⟨l₂, ?_, ?_⟩
        · rw [releaseAll, List.foldl_cons, List.foldl_nil, release_eq_set hl₁ hrem, ← hx,
            List.getElem?_set_self', hl₁]
          rfl
        · simpa [hx] using hcleared₂
      · refine ⟨l₁, ?_, by simpa [hx] using hcleared⟩
        rw [releaseAll, List.foldl_cons, List.foldl_nil, release]
        split
        · exact hl₁
        · split
          · rw [List.getElem?_set_ne hx]
            exact hl₁
          · exact hl₁

theorem valid_releaseAll {ls : List ResourceLayout} (h : ∀ l ∈ ls, l.Valid)
    (xs : List (ℕ × Allocation)) : ∀ l ∈ releaseAll ls xs, l.Valid := by
  intro l hl
  obtain ⟨i, hi⟩ := List.mem_iff_getElem?.mp hl
  have hlt : i < ls.length := by
    rw [← length_releaseAll ls xs]
    exact (List.getElem?_eq_some_iff.mp hi).1
  obtain ⟨l', hl', hcleared⟩ := releaseAll_cleared h xs (List.getElem?_eq_getElem hlt)
  rw [hi] at hl'
  cases hl'
  exact hcleared.valid

/-! ## Enough room -/

/-- Releasing allocations never leaves less room. -/
theorem roomier_releaseAll {ls : List ResourceLayout} (h : ∀ l ∈ ls, l.Valid)
    (xs : List (ℕ × Allocation)) : List.Forall₂ Roomier ls (releaseAll ls xs) := by
  rw [List.forall₂_iff_get]
  refine ⟨(length_releaseAll ls xs).symm, ?_⟩
  intro i hi hi'
  obtain ⟨l', hl', hcleared⟩ := releaseAll_cleared h xs (List.getElem?_eq_getElem hi)
  rw [List.getElem?_eq_getElem hi'] at hl'
  cases hl'
  have hl := h _ (List.getElem_mem hi)
  exact ⟨hl.largestFreeBlock_le hcleared.valid hcleared.capacity_eq
      (fun _ _ => hcleared.find?_of_some),
    hl.freeCapacity_le hcleared.valid hcleared.capacity_eq (fun _ _ => hcleared.find?_of_some)⟩

/-! ## The loop -/

/-- The allocations are all still there, each in the copy at its index. -/
structure Ready (ls : List ResourceLayout) (xs : List (ℕ × Allocation)) : Prop where
  held : ∀ x ∈ xs, ∃ l, ls[x.1]? = some l ∧ l.Valid ∧ l.allocations.find? x.2.id = some x.2
  distinct : xs.Pairwise (fun x y => x.1 = y.1 → x.2.id ≠ y.2.id)

/-- The next one can be removed, and the others stay. -/
theorem Ready.step {ls : List ResourceLayout} {x : ℕ × Allocation} {xs : List (ℕ × Allocation)}
    (h : Ready ls (x :: xs)) :
    ∃ l l', ls[x.1]? = some l ∧ l.removeAllocation x.2.id = .ok (l', .ok ()) ∧
      Ready (ls.set x.1 l') xs := by
  obtain ⟨l, hl, hvalid, hfind⟩ := h.held x (by simp)
  obtain ⟨hne, hdistinct⟩ := List.pairwise_cons.mp h.distinct
  obtain ⟨l', hrem, hvalid', -, halloc⟩ := hvalid.removeAllocation_of_some hfind
  refine ⟨l, l', hl, hrem, ?_, hdistinct⟩
  intro y hy
  obtain ⟨ly, hly, hvalidy, hfindy⟩ := h.held y (by simp [hy])
  by_cases hxy : x.1 = y.1
  · rw [← hxy, hl] at hly
    cases hly
    refine ⟨l', ?_, hvalid', ?_⟩
    · rw [← hxy, List.getElem?_set_self', hl]
      rfl
    · rw [halloc, OrdMap.find?_erase, if_neg (Ne.symm (hne y hy hxy))]
      exact hfindy
  · exact ⟨ly, by rw [List.getElem?_set_ne hxy, hly], hvalidy, hfindy⟩

/-- The action displaces this allocation of this device. -/
def Names (ds : List DeviceState) (act : PlanAction) (x : ℕ × Allocation) : Prop :=
  ∃ s, ds[x.1]? = some s ∧ act.targetResource = s.resource.id ∧
    act.sourceAllocation = some x.2.id ∧ act.affectedAllocations = [x.2.id] ∧
    act.expectedCapacityRecovered = x.2.length

/-- The action is the one the planner makes for this allocation of this device. -/
def Performs (snap : FragmentationSnapshot) (weights : PlanningWeights) (act : PlanAction)
    (x : ℕ × Allocation) : Prop :=
  ∃ s, snap.devices[x.1]? = some s ∧
    actionFor snap weights s.resource.id (candidateAt weights x) = .ok act

theorem Performs.names {snap : FragmentationSnapshot} {weights : PlanningWeights}
    {act : PlanAction} {x : ℕ × Allocation} (h : Performs snap weights act x) :
    Names snap.devices act x := by
  obtain ⟨s, hs, hact⟩ := h
  simp only [actionFor, bind_eq_ok, Except.ok.injEq] at hact
  obtain ⟨cost, -, risk, -, disruption, -, rfl⟩ := hact
  exact ⟨s, hs, rfl, rfl, rfl, rfl⟩

theorem releaseAll_take_succ {ls : List ResourceLayout} {x : ℕ × Allocation}
    {l l' : ResourceLayout} {reply : LayoutReply} (hl : ls[x.1]? = some l)
    (hrem : l.removeAllocation x.2.id = .ok (l', reply)) (xs : List (ℕ × Allocation)) (n : ℕ) :
    releaseAll ls ((x :: xs).take (n + 1)) = releaseAll (ls.set x.1 l') (xs.take n) := by
  rw [List.take_succ_cons, releaseAll, List.foldl_cons, release_eq_set hl hrem, releaseAll]

/-- A round that finds the copies short and is granted its removal. -/
theorem displace_round {snap : FragmentationSnapshot} {d : WorkloadDemand}
    {weights : PlanningWeights} {x : ℕ × Allocation} {s : DeviceState} {l l' : ResourceLayout}
    {st : FitState} {ls : List ResourceLayout} (hst : eval ls d = .ok st)
    (hshort : ¬ st.suffices d = true) (hl : ls[x.1]? = some l) (hs : snap.devices[x.1]? = some s)
    (hrem : l.removeAllocation x.2.id = .ok (l', .ok ())) (xs : List (ℕ × Allocation))
    (actions : List PlanAction) :
    displace snap d weights ((x :: xs).map (candidateAt weights)) ls actions = (do
      let act ← actionFor snap weights s.resource.id (candidateAt weights x)
      displace snap d weights (xs.map (candidateAt weights)) (ls.set x.1 l')
        (actions ++ [act])) := by
  have hindex : (candidateAt weights x).deviceIndex = x.1 := rfl
  have hid : (candidateAt weights x).id = x.2.id := rfl
  rw [List.map_cons, displace, hst, ok_bind, if_neg hshort, hindex, hl, hs]
  dsimp only
  rw [hid, hrem, ok_bind]

/-- The loop displaces as many of the allocations as it takes for the copies to suffice, or
all of them. -/
theorem displace_prefix {snap : FragmentationSnapshot} {d : WorkloadDemand}
    {weights : PlanningWeights} {xs : List (ℕ × Allocation)} {ls ls' : List ResourceLayout}
    {actions actions' : List PlanAction} (hready : Ready ls xs)
    (hdev : ∀ x ∈ xs, ∃ s, snap.devices[x.1]? = some s)
    (h : displace snap d weights (xs.map (candidateAt weights)) ls actions = .ok (ls', actions')) :
    ∃ n acts, n ≤ xs.length ∧ ls' = releaseAll ls (xs.take n) ∧ actions' = actions ++ acts ∧
      List.Forall₂ (Performs snap weights) acts (xs.take n) ∧
      (∀ m < n, ¬ Suffices d (releaseAll ls (xs.take m))) ∧ (n = xs.length ∨ Suffices d ls') := by
  induction xs generalizing ls actions with
  | nil =>
      cases h
      exact ⟨0, [], le_refl 0, rfl, by simp, List.Forall₂.nil, by simp, Or.inl rfl⟩
  | cons x xs ih =>
      obtain ⟨st, hst⟩ : ∃ st, eval ls d = .ok st := by
        rw [List.map_cons, displace, bind_eq_ok] at h
        obtain ⟨st, hst, -⟩ := h
        exact ⟨st, hst⟩
      by_cases hs : st.suffices d = true
      · rw [List.map_cons, displace, hst, ok_bind, if_pos hs] at h
        cases h
        exact ⟨0, [], Nat.zero_le _, rfl, by simp, List.Forall₂.nil, by simp,
          Or.inr ((suffices_iff hst).mp hs)⟩
      · obtain ⟨l, l₁, hl, hrem, hnext⟩ := hready.step
        obtain ⟨s, hdev₀⟩ := hdev x (by simp)
        rw [displace_round hst hs hl hdev₀ hrem, bind_eq_ok] at h
        obtain ⟨act, hact, h⟩ := h
        obtain ⟨n, acts, hn, hls', hactions, hperforms, hmin, hend⟩ :=
          ih hnext (fun y hy => hdev y (by simp [hy])) h
        have hrel := releaseAll_take_succ hl hrem xs
        refine ⟨n + 1, act :: acts, Nat.succ_le_succ hn, hls'.trans (hrel n).symm, ?_,
          List.Forall₂.cons ⟨s, hdev₀, hact⟩ hperforms, ?_, ?_⟩
        · rw [hactions, List.append_assoc]
          rfl
        · intro m hm
          cases m with
          | zero => exact fun hsuff => hs ((suffices_iff hst).mpr hsuff)
          | succ m =>
              rw [hrel m]
              exact hmin m (Nat.lt_of_succ_lt_succ hm)
        · rcases hend with rfl | hsuff
          · exact Or.inl rfl
          · exact Or.inr hsuff

/-! ## Plans -/

/-- What a call that returns has found out about the layouts. -/
theorem planRemediation_cases {snap : FragmentationSnapshot} {d : WorkloadDemand}
    {policy : Policy} {weights : PlanningWeights} {pid : FragmentationPlanId}
    {pg : FragmentationPlanGeneration} {result : Option RemediationPlan}
    (h : planRemediation snap d policy weights pid pg = .ok result) :
    (result = none ∧ Suffices d (snap.devices.map (fun s => s.layout))) ∨
      ¬ Suffices d (snap.devices.map (fun s => s.layout)) ∧ ∃ ls actions,
        displace snap d weights (sortCandidates (candidates weights 0 snap.devices))
          (snap.devices.map (fun s => s.layout)) [] = .ok (ls, actions) ∧
        (¬ Suffices d ls ∧ result = none ∨
          Suffices d ls ∧ ∃ plan, result = some plan ∧ plan.actions = actions) := by
  obtain ⟨now, hnow, hend⟩ := planRemediation_eq_ok h
  rcases hend with ⟨hs, hnone⟩ | ⟨hs, freeBefore, ls, actions, final, hdisplace, hfinal, hend⟩
  · exact Or.inl ⟨hnone, (suffices_iff hnow).mp hs⟩
  · rw [← suffices_iff hnow, Bool.not_eq_true]
    refine Or.inr ⟨hs, ls, actions, hdisplace, ?_⟩
    rw [← suffices_iff hfinal, Bool.not_eq_true]
    rcases hend with hshort | ⟨henough, plan, hsome, hscore⟩
    · exact Or.inl hshort
    · exact Or.inr ⟨henough, plan, hsome, (score_eq_ok hscore).2.2.2.2⟩

theorem ready_displacementOrder {weights : PlanningWeights} {ds : List DeviceState}
    (h : ∀ s ∈ ds, s.layout.Valid) :
    Ready (ds.map (fun s => s.layout)) (displacementOrder weights ds) := by
  constructor
  · intro x hx
    obtain ⟨s, hs, hfind, -⟩ := (mem_displacementOrder h).mp hx
    refine ⟨s.layout, by rw [List.getElem?_map, hs]; rfl, h s (List.mem_of_getElem? hs), hfind⟩
  · refine (pairwise_displacementOrder h).imp_of_mem ?_
    intro x y hx hy hlt hdev hid
    obtain ⟨s, hs, hfind, -⟩ := (mem_displacementOrder h).mp hx
    obtain ⟨t, ht, hfind', -⟩ := (mem_displacementOrder h).mp hy
    rw [hdev, ht] at hs
    cases hs
    rw [hid, hfind'] at hfind
    cases x
    cases y
    cases hdev
    cases hfind
    exact lt_irrefl _ hlt

section Plans

variable {snap : FragmentationSnapshot} {d : WorkloadDemand} {policy : Policy}
  {weights : PlanningWeights} {pid : FragmentationPlanId} {pg : FragmentationPlanGeneration}

/-- A call that returns gives a plan exactly when there is not enough room now and there would
be without all displaceable allocations; the plan displaces the first of them that make
enough. -/
theorem planRemediation_spec (h : ∀ s ∈ snap.devices, s.layout.Valid)
    {result : Option RemediationPlan}
    (hplan : planRemediation snap d policy weights pid pg = .ok result) :
    (result.isSome ↔ ¬ Enough d (snap.devices.map (fun s => s.layout)) ∧
        Enough d (releaseAll (snap.devices.map (fun s => s.layout))
          (displacementOrder weights snap.devices))) ∧
      ∀ plan, result = some plan → ∃ n ≤ (displacementOrder weights snap.devices).length,
        Enough d (releaseAll (snap.devices.map (fun s => s.layout))
            ((displacementOrder weights snap.devices).take n)) ∧
          (∀ m < n, ¬ Enough d (releaseAll (snap.devices.map (fun s => s.layout))
            ((displacementOrder weights snap.devices).take m))) ∧
          List.Forall₂ (Names snap.devices) plan.actions
            ((displacementOrder weights snap.devices).take n) := by
  have hvalid := valid_layouts h
  have hiff : ∀ xs, Enough d (releaseAll (snap.devices.map (fun s => s.layout)) xs) ↔
      Suffices d (releaseAll (snap.devices.map (fun s => s.layout)) xs) :=
    fun xs => enough_iff (valid_releaseAll hvalid xs) d
  rw [enough_iff hvalid]
  rcases planRemediation_cases hplan with ⟨rfl, hnow⟩ | ⟨hnow, ls, actions, hdisplace, hend⟩
  · refine ⟨iff_of_false (by simp) (fun hnot => hnot.1 hnow), ?_⟩
    rintro plan ⟨⟩
  · rw [sortCandidates_eq_map h] at hdisplace
    obtain ⟨n, acts, hn, rfl, hacts, hperforms, hmin, hstop⟩ :=
      displace_prefix (ready_displacementOrder h)
        (fun x hx => ((mem_displacementOrder h).mp hx).imp (fun s hs => hs.1)) hdisplace
    rw [List.nil_append] at hacts
    rcases hend with ⟨hshort, rfl⟩ | ⟨hsuff, plan, rfl, hactions⟩
    · -- nothing is left to displace, and there is still not enough
      have hall := hstop.resolve_right hshort
      rw [hall, List.take_length, ← hiff] at hshort
      refine ⟨iff_of_false (by simp) (fun hnot => hshort hnot.2), ?_⟩
      rintro plan ⟨⟩
    · have hrest := (hiff _).mpr hsuff
      refine ⟨iff_of_true rfl ⟨hnow, ?_⟩, ?_⟩
      · rw [← List.take_append_drop n (displacementOrder weights snap.devices), releaseAll_append]
        exact hrest.mono (roomier_releaseAll (valid_releaseAll hvalid _) _)
      · rintro plan' ⟨⟩
        refine ⟨n, hn, hrest, fun m hm => ?_, ?_⟩
        · rw [hiff]
          exact hmin m hm
        · rw [hactions, hacts]
          exact hperforms.imp (fun _ _ hact => hact.names)

/-- Over layouts a program can hold whose capacities can be added up, planning returns a plan
exactly when there is not enough room and there would be without the displaceable
allocations. The plan displaces the shortest sufficient prefix of them, in the order of their
disruption, length, id and device. -/
theorem planRemediation_complete (snap : FragmentationSnapshot) (d : WorkloadDemand)
    (policy : Policy) (weights : PlanningWeights) (pid : FragmentationPlanId)
    (pg : FragmentationPlanGeneration) (hreach : ∀ s ∈ snap.devices, s.layout.Reachable)
    (hcap : capacityTotal (snap.devices.map (fun s => s.layout)) < 2 ^ 64)
    (hcount : snap.devices.length < 2 ^ 64) :
    ∃ order : List (ℕ × Allocation),
      order.Pairwise (fun x y => displacementKey x < displacementKey y) ∧
      (∀ x, x ∈ order ↔ Displaceable snap.devices x) ∧
      ∃ result, planRemediation snap d policy weights pid pg = .ok result ∧
        (result.isSome ↔ ¬ Enough d (snap.devices.map (fun s => s.layout)) ∧
          Enough d (releaseAll (snap.devices.map (fun s => s.layout)) order)) ∧
        ∀ plan, result = some plan → ∃ n ≤ order.length,
          Enough d (releaseAll (snap.devices.map (fun s => s.layout)) (order.take n)) ∧
          (∀ m < n, ¬ Enough d (releaseAll (snap.devices.map (fun s => s.layout))
            (order.take m))) ∧
          List.Forall₂ (Names snap.devices) plan.actions (order.take n) := by
  have hvalid : ∀ s ∈ snap.devices, s.layout.Valid := fun s hs => (hreach s hs).valid
  have hcountable : Countable d snap.devices := ⟨hvalid, hcap, Or.inl hcount⟩
  obtain ⟨result, hresult⟩ := @exists_planRemediation snap policy weights pid pg d
    hcountable.representable
  refine ⟨displacementOrder weights snap.devices, pairwise_displacementOrder hvalid,
    fun x => mem_displacementOrder hvalid, result, hresult, planRemediation_spec hvalid hresult⟩

end Plans

theorem planRemediation_complete_dividedSnapshot :
    (∃ plan, planRemediation dividedSnapshot blockDemand {} defaultWeights ⟨1⟩ ⟨1⟩ =
        .ok (some plan)) ∧
      ¬ Enough blockDemand (dividedSnapshot.devices.map (fun s => s.layout)) := by
  obtain ⟨plan, hplan⟩ := exists_plan_dividedSnapshot
  obtain ⟨order, -, -, result, hresult, hiff, -⟩ := planRemediation_complete dividedSnapshot
    blockDemand {} defaultWeights ⟨1⟩ ⟨1⟩ reachable_dividedSnapshot (by decide +kernel) (by decide)
  rw [hplan] at hresult
  cases hresult
  exact ⟨⟨plan, hplan⟩, (hiff.mp rfl).1⟩

/-! ## The planner and the fit analysis -/

/-- Releasing everything displaceable is what the fit analysis calls reclaiming. -/
theorem releaseAll_displacementOrder {ds : List DeviceState} (weights : PlanningWeights)
    (h : ∀ s ∈ ds, s.layout.Valid) :
    releaseAll (ds.map (fun s => s.layout)) (displacementOrder weights ds) =
      ds.map (fun s => reclaimed s.layout) := by
  apply List.ext_getElem?
  intro i
  rw [List.getElem?_map]
  cases hs : ds[i]? with
  | none =>
      rw [Option.map_none, List.getElem?_eq_none_iff, length_releaseAll, List.length_map]
      exact List.getElem?_eq_none_iff.mp hs
  | some s =>
      have hl : (ds.map (fun s => s.layout))[i]? = some s.layout := by
        rw [List.getElem?_map, hs]
        rfl
      obtain ⟨l', hl', hcleared⟩ :=
        releaseAll_cleared (valid_layouts h) (displacementOrder weights ds) hl
      have hreclaimed := (reclaimAll_eq (h s (List.mem_of_getElem? hs))).2
      rw [hl', Option.map_some, hcleared.valid.eq_of_allocations hreclaimed.valid
        (hcleared.capacity_eq.trans hreclaimed.capacity_eq.symm) ?_]
      apply OrdMap.ext_find?
      intro id
      -- the same ids are gone from both
      have hiff : id ∈ idsOn i (displacementOrder weights ds) ↔
          id ∈ ResourceLayout.selectIds Fit.reclaimable s.layout.allocations.entries := by
        rw [mem_idsOn, ResourceLayout.mem_selectIds_iff]
        constructor
        · rintro ⟨a, hmem, rfl⟩
          obtain ⟨t, ht, hfind, hr⟩ := (mem_displacementOrder h).mp hmem
          rw [hs] at ht
          cases ht
          exact ⟨a, hfind, by rwa [← reclaimable_eq]⟩
        · rintro ⟨a, hfind, hr⟩
          have hid : a.id = id :=
            (h s (List.mem_of_getElem? hs)).ids (id, a) (OrdMap.find?_eq_some_iff.mp hfind)
          rw [← reclaimable_eq] at hr
          refine ⟨a, (mem_displacementOrder h).mpr ⟨s, hs, ?_, hr⟩, hid⟩
          rw [hid]
          exact hfind
      rw [hcleared.find?_eq, hreclaimed.find?_eq]
      simp only [hiff]

/-- With current evidence, and for a demand without topology group and duration, the fit
analysis answers FIT_AFTER_RECLAIM for exactly what can be planned unless the free capacity
itself is short and reclaiming would make up for it. -/
theorem analyzeFit_agrees_iff (snap : FragmentationSnapshot) (d : WorkloadDemand)
    (policy : Policy) (weights : PlanningWeights) (pid : FragmentationPlanId)
    (pg : FragmentationPlanGeneration) (hreach : ∀ s ∈ snap.devices, s.layout.Reachable)
    (hne : snap.devices ≠ []) (hgen : snap.generations.complete = true)
    (hprov : snap.provenance ≠ .unknown)
    (hcap : capacityTotal (snap.devices.map (fun s => s.layout)) < 2 ^ 64)
    (hcount : snap.devices.length < 2 ^ 64) (htopo : d.topologyGroup = none)
    (hdur : d.reservationDuration = none) :
    ((∃ r, analyzeFit snap d = .ok r ∧ r.outcome = .fitAfterReclaim) ↔
        ∃ plan, planRemediation snap d policy weights pid pg = .ok (some plan)) ↔
      (d.aggregateMemory.toNat ≤ freeTotal (snap.devices.map (fun s => s.layout)) ∨
        ¬ Enough d (snap.devices.map (fun s => reclaimed s.layout))) := by
  have hvalid : ∀ s ∈ snap.devices, s.layout.Valid := fun s hs => (hreach s hs).valid
  have hcountable : Countable d snap.devices := ⟨hvalid, hcap, Or.inl hcount⟩
  have hrep := hcountable.representable
  have hselect : select snap.devices d = snap.devices := by rw [Fit.select, htopo]
  obtain ⟨r, hr, hout⟩ := hrep.select.analyzeFit_fitAfterReclaim_iff ⟨hgen, hprov, hne⟩
    (windowOpen_of_no_duration hdur)
  rw [selected, selectedAfter, hselect] at hout
  obtain ⟨result, hresult⟩ := @exists_planRemediation snap policy weights pid pg d hrep
  have hsome := (planRemediation_spec hvalid hresult).1
  rw [releaseAll_displacementOrder weights hvalid] at hsome
  rw [← enough_iff (valid_layouts hvalid) d, ← enough_iff (valid_reclaimed hvalid) d] at hout
  have hfit : (∃ r, analyzeFit snap d = .ok r ∧ r.outcome = .fitAfterReclaim) ↔
      r.outcome = .fitAfterReclaim := by
    rw [hr]
    simp
  have hplan : (∃ plan, planRemediation snap d policy weights pid pg = .ok (some plan)) ↔
      result.isSome = true := by
    rw [hresult, Option.isSome_iff_exists]
    simp
  rw [hfit, hplan, hout, hsome]
  constructor
  · intro hagree
    rw [or_iff_not_imp_left]
    intro hshort hroom
    exact hshort (hagree.mpr ⟨fun hnow => hshort hnow.2, hroom⟩).1
  · rintro (hfree | hnone)
    · exact and_iff_right hfree
    · exact iff_of_false (fun hans => hnone hans.2.2) (fun hsome => hnone hsome.2)

/-- The divided device has a block of 60 bytes after reclaiming, and 50 bytes free now. -/
theorem analyzeFit_agrees_iff_blockDemand :
    (∃ r, analyzeFit dividedSnapshot blockDemand = .ok r ∧ r.outcome = .fitAfterReclaim) ∧
      ∃ plan, planRemediation dividedSnapshot blockDemand {} defaultWeights ⟨1⟩ ⟨1⟩ =
        .ok (some plan) := by
  have hagree := (analyzeFit_agrees_iff dividedSnapshot blockDemand {} defaultWeights ⟨1⟩ ⟨1⟩
    reachable_dividedSnapshot (by simp [dividedSnapshot]) (by decide) (by decide)
    (by decide +kernel) (by decide) rfl rfl).mpr (Or.inl (by decide +kernel))
  exact ⟨hagree.mpr exists_plan_dividedSnapshot, exists_plan_dividedSnapshot⟩

/-- The same block, with the aggregate asked for as well. -/
def aggregateDemand : WorkloadDemand := { perDeviceMemory := ⟨60⟩, aggregateMemory := ⟨60⟩ }

/-- The 60 bytes could be had by releasing 20, but the analysis only sees that 50 are free. -/
theorem analyzeFit_raw_shortage :
    (∀ s ∈ dividedSnapshot.devices, s.layout.Reachable) ∧
      dividedSnapshot.generations.complete = true ∧ dividedSnapshot.provenance ≠ .unknown ∧
      (analyzeFit dividedSnapshot aggregateDemand).toOption.map (fun r => r.outcome) =
        some .noFitRawCapacity ∧
      ¬ ((∃ r, analyzeFit dividedSnapshot aggregateDemand = .ok r ∧
          r.outcome = .fitAfterReclaim) ↔
        ∃ plan, planRemediation dividedSnapshot aggregateDemand {} defaultWeights ⟨1⟩ ⟨1⟩ =
          .ok (some plan)) := by
  have hraw : (analyzeFit dividedSnapshot aggregateDemand).toOption.map (fun r => r.outcome) =
      some .noFitRawCapacity := by
    decide +kernel
  refine ⟨reachable_dividedSnapshot, by decide, by decide, hraw, ?_⟩
  intro hiff
  obtain ⟨r, hr, hout⟩ := hiff.mpr (eq_ok_some_of_isSome (by decide +kernel))
  rw [hr] at hraw
  simp [Except.toOption, hout] at hraw

end FragmentationGovernor
