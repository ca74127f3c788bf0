import FragmentationGovernor.Verification.Fit.Correctness
import FragmentationGovernor.Verification.Planner.Actions

/-! # Carrying out a plan

The planner works on copies of the layouts of a snapshot. Carrying out its actions in order
on the devices of the snapshot gives exactly the layouts the planner ended with. -/

namespace FragmentationGovernor

/-! ## Applying actions -/

/-- The devices after one allocation is removed from the layout of a resource; nothing when
there is no such resource or the removal is refused. -/
def releaseFrom (target : ResourceId) (id : AllocationId) :
    List DeviceState → Except ValueError (Option (List DeviceState))
  | [] => .ok none
  | s :: rest =>
      if s.resource.id = target then do
        match ← s.layout.removeAllocation id with
        | (_, .error _) => .ok none
        | (layout, .ok ()) => .ok (some ({ s with layout := layout } :: rest))
      else do
        let released ← releaseFrom target id rest
        .ok (released.map (fun rest => s :: rest))

/-- Removes the source of every action from the layout of its target, in plan order. -/
def applyActions : List PlanAction → List DeviceState →
    Except ValueError (Option (List DeviceState))
  | [], ds => .ok (some ds)
  | act :: rest, ds =>
      match act.sourceAllocation with
      | none => .ok none
      | some id => do
          match ← releaseFrom act.targetResource id ds with
          | none => .ok none
          | some ds => applyActions rest ds

theorem applyActions_snoc {acts : List PlanAction} {act : PlanAction} {id : AllocationId}
    {ds mid after : List DeviceState} (hacts : applyActions acts ds = .ok (some mid))
    (hsource : act.sourceAllocation = some id)
    (hact : releaseFrom act.targetResource id mid = .ok (some after)) :
    applyActions (acts ++ [act]) ds = .ok (some after) := by
  induction acts generalizing ds with
  | nil =>
      simp only [applyActions, Except.ok.injEq, Option.some.injEq] at hacts
      simp only [List.nil_append, applyActions, hsource]
      rw [hacts, hact, ok_bind]
  | cons a rest ih =>
      simp only [List.cons_append, applyActions] at hacts ⊢
      cases hs : a.sourceAllocation with
      | none =>
          rw [hs] at hacts
          cases hacts
      | some id' =>
          rw [hs] at hacts
          dsimp only at hacts ⊢
          rw [bind_eq_ok] at hacts
          obtain ⟨released, hreleased, hacts⟩ := hacts
          rw [hreleased, ok_bind]
          cases released with
          | none => cases hacts
          | some ds' => exact ih hacts

/-! ## Layouts in the place of others -/

/-- The devices with the given layouts, one for each. -/
def withLayouts (ds : List DeviceState) (ls : List ResourceLayout) : List DeviceState :=
  List.zipWith (fun s l => { s with layout := l }) ds ls

theorem withLayouts_self (ds : List DeviceState) :
    withLayouts ds (ds.map (fun s => s.layout)) = ds := by
  induction ds with
  | nil => rfl
  | cons s rest ih =>
      rw [List.map_cons, withLayouts, List.zipWith_cons_cons]
      exact congrArg (List.cons s) ih

theorem map_layout_withLayouts {ds : List DeviceState} {ls : List ResourceLayout}
    (h : ls.length = ds.length) : (withLayouts ds ls).map (fun s => s.layout) = ls := by
  induction ds generalizing ls with
  | nil =>
      rw [List.length_nil, List.length_eq_zero_iff] at h
      rw [h]
      rfl
  | cons s rest ih =>
      cases ls with
      | nil => cases h
      | cons l ls =>
          rw [withLayouts, List.zipWith_cons_cons, List.map_cons]
          exact congrArg (List.cons l) (ih (Nat.succ.inj h))

theorem getElem?_withLayouts {ds : List DeviceState} {ls : List ResourceLayout} {i : ℕ}
    {s : DeviceState} {l : ResourceLayout} (hs : ds[i]? = some s) (hl : ls[i]? = some l) :
    (withLayouts ds ls)[i]? = some { s with layout := l } := by
  rw [withLayouts, List.getElem?_zipWith, hs, hl]

/-- Removing from the resource of the device at an index edits the layout at that index. -/
theorem releaseFrom_withLayouts {ds : List DeviceState} {ls : List ResourceLayout} {i : ℕ}
    {s : DeviceState} {l l' : ResourceLayout} {id : AllocationId}
    (hids : (ds.map (fun s => s.resource.id)).Nodup) (hs : ds[i]? = some s) (hl : ls[i]? = some l)
    (hrem : l.removeAllocation id = .ok (l', .ok ())) :
    releaseFrom s.resource.id id (withLayouts ds ls) = .ok (some (withLayouts ds (ls.set i l'))) := by
  induction ds generalizing ls i with
  | nil => cases hs
  | cons s₀ rest ih =>
      rw [List.map_cons, List.nodup_cons] at hids
      cases ls with
      | nil => cases hl
      | cons l₀ ls =>
          cases i with
          | zero =>
              cases hs
              cases hl
              rw [List.set_cons_zero, withLayouts, List.zipWith_cons_cons, releaseFrom,
                if_pos rfl]
              dsimp only
              rw [hrem, ok_bind]
              rfl
          | succ i =>
              rw [List.getElem?_cons_succ] at hs hl
              have hne : s₀.resource.id ≠ s.resource.id := by
                intro heq
                apply hids.1
                rw [heq]
                exact List.mem_map.mpr ⟨s, List.mem_of_getElem? hs, rfl⟩
              have hrest := ih hids.2 hs hl
              rw [withLayouts] at hrest
              rw [List.set_cons_succ, withLayouts, List.zipWith_cons_cons, releaseFrom, if_neg hne,
                hrest, ok_bind]
              rfl

/-! ## The loop of the planner -/

/-- A copy is the layout of its device without some of the reclaimable allocations. -/
def Freed (s : DeviceState) (l : ResourceLayout) : Prop :=
  ∃ ids, ResourceLayout.Cleared ids s.layout l ∧
    ∀ id ∈ ids, ∃ a, s.layout.allocations.find? id = some a ∧ Planner.reclaimable a = true

theorem freed_layout {s : DeviceState} (h : s.layout.Valid) : Freed s s.layout :=
  ⟨[], h.cleared, by simp⟩

/-- Whatever the answer to the removal of a reclaimable allocation. -/
theorem Freed.remove {s : DeviceState} {l l' : ResourceLayout} {id : AllocationId}
    {a : Allocation} {reply : LayoutReply} (h : Freed s l)
    (ha : s.layout.allocations.find? id = some a) (hr : Planner.reclaimable a = true)
    (hrem : l.removeAllocation id = .ok (l', reply)) : Freed s l' := by
  obtain ⟨ids, hcleared, hall⟩ := h
  refine ⟨ids ++ [id], hcleared.of_removeAllocation hrem, ?_⟩
  intro x hx
  rcases List.mem_append.mp hx with hx | hx
  · exact hall x hx
  · rw [List.mem_singleton.mp hx]
    exact ⟨a, ha, hr⟩

/-- The copies after one of them is replaced. -/
theorem getElem?_set_cases {ls : List ResourceLayout} {i j : ℕ} {l l' l'' : ResourceLayout}
    (hl : ls[i]? = some l) (h : (ls.set i l')[j]? = some l'') :
    (j = i ∧ l'' = l') ∨ (j ≠ i ∧ ls[j]? = some l'') := by
  by_cases hj : i = j
  · rw [← hj, List.getElem?_set_self', hl] at h
    cases h
    exact Or.inl ⟨hj.symm, rfl⟩
  · rw [List.getElem?_set_ne hj] at h
    exact Or.inr ⟨Ne.symm hj, h⟩

/-- A removal keeps every copy a part of the layout of its device. -/
theorem Freed.set {ds : List DeviceState} {ls : List ResourceLayout} {i : ℕ} {s : DeviceState}
    {l l' : ResourceLayout} {id : AllocationId} {a : Allocation} {reply : LayoutReply}
    (h : ∀ {j : ℕ} {s l}, ds[j]? = some s → ls[j]? = some l → Freed s l)
    (hs : ds[i]? = some s) (hl : ls[i]? = some l) (ha : s.layout.allocations.find? id = some a)
    (hr : Planner.reclaimable a = true) (hrem : l.removeAllocation id = .ok (l', reply))
    {j : ℕ} {s' : DeviceState} {l'' : ResourceLayout} (hs' : ds[j]? = some s')
    (hl'' : (ls.set i l')[j]? = some l'') : Freed s' l'' := by
  rcases getElem?_set_cases hl hl'' with ⟨rfl, rfl⟩ | ⟨-, hold⟩
  · rw [hs] at hs'
    cases hs'
    exact Freed.remove (h hs hl) ha hr hrem
  · exact h hs' hold

/-- The copies the planner works on: each is the layout of its device without some of the
reclaimable allocations, and the collected actions lead to it. -/
structure Displaced (ds : List DeviceState) (ls : List ResourceLayout)
    (actions : List PlanAction) : Prop where
  length_eq : ls.length = ds.length
  cleared : ∀ {i : ℕ} {s : DeviceState} {l : ResourceLayout}, ds[i]? = some s → ls[i]? = some l →
    ∃ ids, ResourceLayout.Cleared ids s.layout l ∧
      ∀ id ∈ ids, ∃ a, s.layout.allocations.find? id = some a ∧ Planner.reclaimable a = true
  applied : applyActions actions ds = .ok (some (withLayouts ds ls))

theorem displaced_start {ds : List DeviceState} (h : ∀ s ∈ ds, s.layout.Valid) :
    Displaced ds (ds.map (fun s => s.layout)) [] := by
  refine ⟨List.length_map _, ?_, ?_⟩
  · intro i s l hs hl
    rw [List.getElem?_map, hs] at hl
    cases hl
    exact freed_layout (h s (List.mem_of_getElem? hs))
  · rw [withLayouts_self]
    rfl

namespace Displaced

variable {ds : List DeviceState} {ls : List ResourceLayout} {actions : List PlanAction}

/-- A displacement that the layout grants is one more action. -/
theorem remove (h : Displaced ds ls actions) (hids : (ds.map (fun s => s.resource.id)).Nodup)
    {i : ℕ} {s : DeviceState} {l l' : ResourceLayout} {id : AllocationId} {a : Allocation}
    {act : PlanAction} (hs : ds[i]? = some s) (hl : ls[i]? = some l)
    (ha : s.layout.allocations.find? id = some a) (hr : Planner.reclaimable a = true)
    (hrem : l.removeAllocation id = .ok (l', .ok ())) (htarget : act.targetResource = s.resource.id)
    (hsource : act.sourceAllocation = some id) :
    Displaced ds (ls.set i l') (actions ++ [act]) := by
  refine ⟨by rw [List.length_set, h.length_eq], Freed.set h.cleared hs hl ha hr hrem, ?_⟩
  refine applyActions_snoc h.applied hsource ?_
  rw [htarget]
  exact releaseFrom_withLayouts hids hs hl hrem

/-- The layouts that are left are valid and of the same capacities. -/
theorem valid (h : Displaced ds ls actions) : ∀ s ∈ withLayouts ds ls, s.layout.Valid := by
  intro s hs
  obtain ⟨i, hi⟩ := List.mem_iff_getElem?.mp hs
  rw [withLayouts, List.getElem?_zipWith] at hi
  cases hd : ds[i]? with
  | none =>
      rw [hd] at hi
      cases hi
  | some s₀ =>
      cases hl : ls[i]? with
      | none =>
          rw [hd, hl] at hi
          cases hi
      | some l =>
          rw [hd, hl] at hi
          cases hi
          obtain ⟨ids, hcleared, -⟩ := h.cleared hd hl
          exact hcleared.valid

theorem capacityTotal_eq (h : Displaced ds ls actions) :
    capacityTotal ls = capacityTotal (ds.map (fun s => s.layout)) := by
  have hmap : ls.map (fun l => l.capacity.toNat) =
      (ds.map (fun s => s.layout)).map (fun l => l.capacity.toNat) := by
    apply List.ext_getElem?
    intro i
    rw [List.map_map, List.getElem?_map, List.getElem?_map]
    cases hd : ds[i]? with
    | none =>
        have hlen : ls[i]? = none := by
          rw [List.getElem?_eq_none_iff] at hd ⊢
          rw [h.length_eq]
          exact hd
        rw [hlen]
        rfl
    | some s =>
        have hlt : i < ls.length := by
          rw [h.length_eq]
          exact (List.getElem?_eq_some_iff.mp hd).1
        obtain ⟨ids, hcleared, -⟩ := h.cleared hd (List.getElem?_eq_getElem hlt)
        rw [List.getElem?_eq_getElem hlt]
        exact congrArg (fun c => some (Quantity.toNat c)) hcleared.capacity_eq
  rw [capacityTotal, capacityTotal, hmap]

end Displaced

/-- The loop keeps the copies in step with its actions. -/
theorem Displaced.displace {snap : FragmentationSnapshot} {d : WorkloadDemand}
    {weights : PlanningWeights} {cands : List Planner.ReclaimCandidate}
    {ls ls' : List ResourceLayout} {actions actions' : List PlanAction}
    (h : Displaced snap.devices ls actions)
    (hids : (snap.devices.map (fun s => s.resource.id)).Nodup)
    (hcands : ∀ c ∈ cands, Planner.Stands weights snap.devices c)
    (heq : Planner.displace snap d weights cands ls actions = .ok (ls', actions')) :
    Displaced snap.devices ls' actions' := by
  refine Planner.displace_induction ?_ ?_ hcands h heq
  · intro ls actions c l' act hinv hgrant
    obtain ⟨s, a, l, hs, ha, hr, hl, hrem, hact⟩ := hgrant.removal
    obtain ⟨htarget, hsource, -⟩ := Planner.actionFor_eq_ok hact
    exact hinv.remove hids hs hl ha hr hrem htarget hsource
  · -- a refused removal leaves the copy as it was
    intro ls actions l l' id e i hinv hl hrem
    obtain ⟨hlt, hget⟩ := List.getElem?_eq_some_iff.mp hl
    have hs := List.getElem?_eq_getElem (hinv.length_eq ▸ hlt)
    obtain ⟨ids, hcleared, -⟩ := hinv.cleared hs hl
    rw [hcleared.valid.eq_of_removeAllocation_error hrem, ← hget, List.set_getElem_self hlt]
    exact hinv

/-- Carrying out a returned plan on the snapshot succeeds at every step, and the layouts it
leaves suffice for the demand while those of the snapshot do not. -/
theorem planRemediation_applied {snap : FragmentationSnapshot} {d : WorkloadDemand}
    {policy : Policy} {weights : PlanningWeights} {pid : FragmentationPlanId}
    {pg : FragmentationPlanGeneration} {plan : RemediationPlan}
    (hvalid : ∀ s ∈ snap.devices, s.layout.Valid)
    (hids : (snap.devices.map (fun s => s.resource.id)).Nodup)
    (h : planRemediation snap d policy weights pid pg = .ok (some plan)) :
    ∃ ls, Displaced snap.devices ls plan.actions ∧ Suffices d ls ∧
      ¬ Suffices d (snap.devices.map (fun s => s.layout)) ∧
      satisfying d (snap.devices.map (fun s => s.layout)) < 2 ^ 64 := by
  obtain ⟨now, -, ls, final, hnow, hshort, hdisplace, hfinal, henough, -⟩ :=
    Planner.planRemediation_eq_some h
  refine ⟨ls, (displaced_start hvalid).displace hids ?_ hdisplace, (suffices_iff hfinal).mp henough,
    ?_, ?_⟩
  · exact fun c hc => Planner.stands_of_mem_sortCandidates hc
  · rw [← suffices_iff hnow, hshort]
    exact Bool.false_ne_true
  · rw [← (eval_eq_ok_iff.mp hnow).1]
    exact Quantity.toNat_lt _

end FragmentationGovernor
