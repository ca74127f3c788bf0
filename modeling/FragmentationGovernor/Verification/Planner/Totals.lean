import FragmentationGovernor.Verification.Planner.Displacement
import FragmentationGovernor.Verification.Planner.Scores

/-! # When planning returns

The loop of the planner frees reclaimable allocations one after another, so what it sums up
stays between the free capacity of the devices and their free capacity after reclaiming.
Planning returns for every demand exactly when the latter and the number of the devices are
64-bit values. -/

namespace FragmentationGovernor

open Fit Planner

/-! ## The loop -/

theorem freeTotal_set {ls : List ResourceLayout} {i : ℕ} {l : ResourceLayout}
    (h : ls[i]? = some l) (l' : ResourceLayout) :
    freeTotal (ls.set i l') + l.freeCapacity.toNat = freeTotal ls + l'.freeCapacity.toNat := by
  induction ls generalizing i with
  | nil => cases h
  | cons l₀ ls ih =>
      cases i with
      | zero =>
          cases h
          simp only [freeTotal, List.set_cons_zero, List.map_cons, List.sum_cons]
          omega
      | succ i =>
          have hrest := ih h
          simp only [freeTotal, List.set_cons_succ, List.map_cons, List.sum_cons] at hrest ⊢
          omega

/-- The copies the planner works on lack some of the reclaimable allocations; the candidates
that are left cover the reclaimable ones they hold, and the actions account for what was
freed. -/
structure Reclaims (ds : List DeviceState) (rest : List ReclaimCandidate)
    (ls : List ResourceLayout) (actions : List PlanAction) : Prop where
  length_eq : ls.length = ds.length
  cleared : ∀ {i : ℕ} {s : DeviceState} {l : ResourceLayout}, ds[i]? = some s → ls[i]? = some l →
    ∃ ids, ResourceLayout.Cleared ids s.layout l ∧
      ∀ id ∈ ids, ∃ a, s.layout.allocations.find? id = some a ∧ Planner.reclaimable a = true
  left : ∀ {i : ℕ} {l : ResourceLayout} {id : AllocationId} {a : Allocation}, ls[i]? = some l →
    l.allocations.find? id = some a → Planner.reclaimable a = true →
    ∃ c ∈ rest, c.deviceIndex = i ∧ c.id = id
  recovered : freeTotal ls = freeTotal (ds.map (fun s => s.layout)) +
    (actions.map (fun a => a.expectedCapacityRecovered.toNat)).sum

theorem mem_candidates_of_find? {weights : PlanningWeights} {ds : List DeviceState} {i j : ℕ}
    {s : DeviceState} {id : AllocationId} {a : Allocation} (hs : ds[i]? = some s)
    (ha : s.layout.allocations.find? id = some a) (hr : Planner.reclaimable a = true) :
    candidateOf weights (j + i) id a ∈ candidates weights j ds := by
  induction ds generalizing i j with
  | nil => cases hs
  | cons s₀ rest ih =>
      rw [candidates, List.mem_append]
      cases i with
      | zero =>
          cases hs
          refine Or.inl (List.mem_filterMap.mpr ⟨(id, a), OrdMap.find?_eq_some_iff.mp ha, ?_⟩)
          simp [hr]
      | succ i =>
          have hrest := ih (j := j + 1) hs
          rw [Nat.add_right_comm] at hrest
          exact Or.inr hrest

theorem reclaims_start {weights : PlanningWeights} {ds : List DeviceState}
    (h : ∀ s ∈ ds, s.layout.Valid) :
    Reclaims ds (sortCandidates (candidates weights 0 ds)) (ds.map (fun s => s.layout)) [] := by
  refine ⟨List.length_map _, ?_, ?_, by simp⟩
  · intro i s l hs hl
    rw [List.getElem?_map, hs] at hl
    cases hl
    exact freed_layout (h s (List.mem_of_getElem? hs))
  · intro i l id a hl ha hr
    rw [List.getElem?_map, Option.map_eq_some_iff] at hl
    obtain ⟨s, hs, rfl⟩ := hl
    have hmem := @mem_candidates_of_find? weights ds i 0 s id a hs ha hr
    refine ⟨_, (List.perm_insertionSort _ _).mem_iff.mpr hmem, ?_, rfl⟩
    simp [candidateOf]

namespace Reclaims

variable {weights : PlanningWeights} {ds : List DeviceState} {rest : List ReclaimCandidate}
  {ls : List ResourceLayout} {actions : List PlanAction} {c : ReclaimCandidate}

theorem exists_copy (h : Reclaims ds rest ls actions) {i : ℕ} {s : DeviceState}
    (hs : ds[i]? = some s) : ∃ l, ls[i]? = some l := by
  have hlt : i < ls.length := by
    rw [h.length_eq]
    exact (List.getElem?_eq_some_iff.mp hs).1
  exact ⟨_, List.getElem?_eq_getElem hlt⟩

/-- A removal for the next candidate, whether it was granted or not. -/
theorem remove (h : Reclaims ds (c :: rest) ls actions) {s : DeviceState} {l l' : ResourceLayout}
    {a : Allocation} {reply : LayoutReply} {actions' : List PlanAction}
    (hs : ds[c.deviceIndex]? = some s) (hl : ls[c.deviceIndex]? = some l)
    (ha : s.layout.allocations.find? c.id = some a) (hr : Planner.reclaimable a = true)
    (hrem : l.removeAllocation c.id = .ok (l', reply))
    (hfreed : l'.freeCapacity.toNat +
        (actions.map (fun a => a.expectedCapacityRecovered.toNat)).sum =
      l.freeCapacity.toNat + (actions'.map (fun a => a.expectedCapacityRecovered.toNat)).sum) :
    Reclaims ds rest (ls.set c.deviceIndex l') actions' := by
  obtain ⟨ids, hcleared, -⟩ := h.cleared hs hl
  have hcleared' := hcleared.of_removeAllocation hrem
  refine ⟨by rw [List.length_set, h.length_eq], Freed.set h.cleared hs hl ha hr hrem, ?_, ?_⟩
  · -- the candidate itself is no longer needed: its allocation is gone
    intro j l'' id b hl'' hb hbr
    rcases getElem?_set_cases hl hl'' with ⟨rfl, rfl⟩ | ⟨hj, hold⟩
    · have hid : id ∉ ids ++ [c.id] := by
        intro hmem
        rw [hcleared'.find?_of_mem hmem] at hb
        cases hb
      rw [List.mem_append, not_or] at hid
      have hbl : l.allocations.find? id = some b := by
        rw [hcleared.find?_of_notMem hid.1]
        exact hcleared'.find?_of_some hb
      obtain ⟨x, hx, hxi, hxid⟩ := h.left hl hbl hbr
      rcases List.mem_cons.mp hx with rfl | hx
      · exact (hid.2 (by rw [hxid]; exact List.mem_singleton.mpr rfl)).elim
      · exact ⟨x, hx, hxi, hxid⟩
    · obtain ⟨x, hx, hxi, hxid⟩ := h.left hold hb hbr
      rcases List.mem_cons.mp hx with rfl | hx
      · exact (hj hxi.symm).elim
      · exact ⟨x, hx, hxi, hxid⟩
  · have htotal := freeTotal_set hl l'
    have hold := h.recovered
    omega

/-- A round of the loop on the next candidate removes its allocation and goes on. -/
theorem round (h : Reclaims ds (c :: rest) ls actions) (hc : Stands weights ds c)
    (snap : FragmentationSnapshot) :
    ∃ s l l' reply, ds[c.deviceIndex]? = some s ∧ ls[c.deviceIndex]? = some l ∧
      l.removeAllocation c.id = .ok (l', reply) ∧
      match reply with
      | .error _ => Reclaims ds rest (ls.set c.deviceIndex l') actions
      | .ok () => ∃ act, actionFor snap weights s.resource.id c = .ok act ∧
          Reclaims ds rest (ls.set c.deviceIndex l') (actions ++ [act]) := by
  obtain ⟨s, a, hs, ha, hr, hcand⟩ := id hc
  obtain ⟨l, hl⟩ := h.exists_copy hs
  obtain ⟨ids, hcleared, -⟩ := h.cleared hs hl
  obtain ⟨l', reply, hrem, -⟩ := hcleared.remove_any c.id
  refine ⟨s, l, l', reply, hs, hl, hrem, ?_⟩
  cases reply with
  | error e =>
      refine h.remove hs hl ha hr hrem ?_
      rw [hcleared.valid.eq_of_removeAllocation_error hrem]
  | ok u =>
      obtain ⟨act, hact, hlen, -⟩ := exists_actionFor hc snap s.resource.id
      obtain ⟨a', ha'⟩ := ResourceLayout.exists_of_removeAllocation_ok hrem
      have heq : a' = a := Option.some.inj ((hcleared.find?_of_some ha').symm.trans ha)
      have hfree := hcleared.valid.freeCapacity_of_removeAllocation ha' hrem
      have hrecovered : act.expectedCapacityRecovered.toNat = a'.length.toNat := by
        rw [hlen, hcand, heq]
        rfl
      refine ⟨act, hact, h.remove hs hl ha hr hrem ?_⟩
      rw [List.map_append, List.sum_append, List.map_singleton, List.sum_singleton, hrecovered]
      omega

end Reclaims

/-- The loop gives up where a count does; otherwise it ends with nothing left to free or with
copies that suffice. -/
theorem Reclaims.displace {snap : FragmentationSnapshot} {d : WorkloadDemand}
    {weights : PlanningWeights} {cands : List ReclaimCandidate} {ls : List ResourceLayout}
    {actions : List PlanAction} (h : Reclaims snap.devices cands ls actions)
    (hcands : ∀ c ∈ cands, Stands weights snap.devices c) :
    ∃ rest ls' actions', Reclaims snap.devices rest ls' actions' ∧
      (((∃ e, eval ls' d = .error e) ∧
          ∃ e, Planner.displace snap d weights cands ls actions = .error e) ∨
        Planner.displace snap d weights cands ls actions = .ok (ls', actions') ∧
          (rest = [] ∨ ∃ st, eval ls' d = .ok st ∧ st.suffices d = true)) := by
  induction cands generalizing ls actions with
  | nil => exact ⟨[], ls, actions, h, Or.inr ⟨rfl, Or.inl rfl⟩⟩
  | cons c rest ih =>
      have hrest : ∀ x ∈ rest, Stands weights snap.devices x :=
        fun x hx => hcands x (by simp [hx])
      rw [Planner.displace]
      cases hst : eval ls d with
      | error e => exact ⟨c :: rest, ls, actions, h, Or.inl ⟨⟨e, hst⟩, e, rfl⟩⟩
      | ok st =>
          rw [ok_bind]
          by_cases hs : st.suffices d = true
          · rw [if_pos hs]
            exact ⟨c :: rest, ls, actions, h, Or.inr ⟨rfl, Or.inr ⟨st, hst, hs⟩⟩⟩
          · obtain ⟨s, l, l', reply, hds, hls, hrem, hround⟩ := h.round (hcands c (by simp)) snap
            rw [if_neg hs, hls, hds]
            dsimp only
            rw [hrem, ok_bind]
            cases reply with
            | error e => exact ih hround hrest
            | ok u =>
                obtain ⟨act, hact, hnext⟩ := hround
                dsimp only
                rw [hact, ok_bind]
                exact ih hnext hrest

/-! ## The copies and the reclaimed layouts -/

theorem reclaimable_eq (a : Allocation) : Planner.reclaimable a = Fit.reclaimable a := by
  unfold Planner.reclaimable Fit.reclaimable
  cases mayMove a.movability <;> rfl

namespace Reclaims

variable {ds : List DeviceState} {rest : List ReclaimCandidate} {ls : List ResourceLayout}
  {actions : List PlanAction}

/-- What holds of every device and its copy holds along the two lists. -/
theorem forall₂ (h : Reclaims ds rest ls actions) {R : ResourceLayout → DeviceState → Prop}
    (hR : ∀ (i : ℕ) s l, ds[i]? = some s → ls[i]? = some l → R l s) : List.Forall₂ R ls ds := by
  rw [List.forall₂_iff_get]
  refine ⟨h.length_eq, ?_⟩
  intro i hi hi'
  exact hR i _ _ (List.getElem?_eq_getElem hi') (List.getElem?_eq_getElem hi)

/-- A copy has no more free than its device after reclaiming. -/
theorem copy_le (h : Reclaims ds rest ls actions) {i : ℕ} {s : DeviceState} {l : ResourceLayout}
    (hvalid : s.layout.Valid) (hs : ds[i]? = some s) (hl : ls[i]? = some l) :
    l.freeCapacity.toNat ≤ (reclaimed s.layout).freeCapacity.toNat := by
  obtain ⟨ids, hcleared, hall⟩ := h.cleared hs hl
  have hreclaimed := (reclaimAll_eq hvalid).2
  refine hcleared.valid.freeCapacity_le hreclaimed.valid
    (hreclaimed.capacity_eq.trans hcleared.capacity_eq.symm) ?_
  intro id a ha
  have hold := hreclaimed.find?_of_some ha
  rw [hcleared.find?_of_notMem, hold]
  intro hid
  obtain ⟨a', ha', hr⟩ := hall id hid
  rw [reclaimable_eq] at hr
  rw [hreclaimed.find?_of_mem (ResourceLayout.mem_selectIds_iff.mpr ⟨a', ha', hr⟩)] at ha
  cases ha

/-- When no candidate is left, it has as much. -/
theorem copy_ge (h : Reclaims ds [] ls actions) {i : ℕ} {s : DeviceState} {l : ResourceLayout}
    (hvalid : s.layout.Valid) (hs : ds[i]? = some s) (hl : ls[i]? = some l) :
    (reclaimed s.layout).freeCapacity.toNat ≤ l.freeCapacity.toNat := by
  obtain ⟨ids, hcleared, -⟩ := h.cleared hs hl
  have hreclaimed := (reclaimAll_eq hvalid).2
  refine hreclaimed.valid.freeCapacity_le hcleared.valid
    (hcleared.capacity_eq.trans hreclaimed.capacity_eq.symm) ?_
  intro id a ha
  have hold := hcleared.find?_of_some ha
  rw [hreclaimed.find?_of_notMem, hold]
  intro hid
  obtain ⟨a', ha', hr⟩ := ResourceLayout.mem_selectIds_iff.mp hid
  rw [hold] at ha'
  cases ha'
  rw [← reclaimable_eq] at hr
  obtain ⟨c, hc, -⟩ := h.left hl ha hr
  cases hc

theorem freeTotal_le (h : Reclaims ds rest ls actions) (hvalid : ∀ s ∈ ds, s.layout.Valid) :
    freeTotal ls ≤ freeTotal (ds.map (fun s => reclaimed s.layout)) := by
  rw [freeTotal, freeTotal, List.map_map]
  apply List.Forall₂.sum_le_sum
  rw [List.forall₂_map_left_iff, List.forall₂_map_right_iff]
  exact h.forall₂ fun i s l hs hl => h.copy_le (hvalid s (List.mem_of_getElem? hs)) hs hl

theorem freeTotal_eq (h : Reclaims ds [] ls actions) (hvalid : ∀ s ∈ ds, s.layout.Valid) :
    freeTotal ls = freeTotal (ds.map (fun s => reclaimed s.layout)) := by
  refine le_antisymm (h.freeTotal_le hvalid) ?_
  rw [freeTotal, freeTotal, List.map_map]
  apply List.Forall₂.sum_le_sum
  rw [List.forall₂_map_left_iff, List.forall₂_map_right_iff]
  exact (h.forall₂ fun i s l hs hl =>
    h.copy_ge (hvalid s (List.mem_of_getElem? hs)) hs hl).flip

/-- The counts over the copies are 64-bit values. -/
theorem exists_eval (h : Reclaims ds rest ls actions) {d : WorkloadDemand}
    (hd : Representable d ds) : ∃ st, eval ls d = .ok st := by
  have hf : freeTotal ls < 2 ^ 64 := lt_of_le_of_lt (h.freeTotal_le hd.valid) hd.free
  have hn : satisfying d ls < 2 ^ 64 := satisfying_lt hf (by rw [h.length_eq]; exact hd.length)
  exact ⟨⟨.ofNat _, .ofNat _⟩,
    eval_eq_ok_iff.mpr ⟨Quantity.toNat_ofNat hn, Quantity.toNat_ofNat hf⟩⟩

end Reclaims

/-! ## Planning -/

section Planning

variable {snap : FragmentationSnapshot} {policy : Policy} {weights : PlanningWeights}
  {pid : FragmentationPlanId} {pg : FragmentationPlanGeneration}

/-- Over devices that can be counted planning returns. -/
theorem exists_planRemediation {d : WorkloadDemand} (h : Representable d snap.devices) :
    ∃ r, planRemediation snap d policy weights pid pg = .ok r := by
  obtain ⟨now, hnow⟩ := h.exists_eval
  obtain ⟨freeBefore, hbefore⟩ : ∃ total, sumBytes
      ((snap.devices.map (fun s => s.layout)).map (fun l => l.freeCapacity)) = .ok total :=
    exists_sumBytes (by rw [List.map_map]; exact h.freeTotal_lt)
  obtain ⟨rest, ls, actions, hinv, hraised | ⟨hdisplace, -⟩⟩ :=
    (reclaims_start h.valid).displace (d := d) (fun c hc => stands_of_mem_sortCandidates hc)
  · obtain ⟨st, hst⟩ := hinv.exists_eval h
    obtain ⟨⟨e, he⟩, -⟩ := hraised
    rw [hst] at he
    cases he
  · obtain ⟨final, hfinal⟩ := hinv.exists_eval h
    have hrecovered : (actions.map (fun a => a.expectedCapacityRecovered.toNat)).sum < 2 ^ 64 := by
      have hle := hinv.freeTotal_le h.valid
      have hfree := h.free
      have hsum := hinv.recovered
      omega
    have htempered := displace_tempered (fun c hc => stands_of_mem_sortCandidates hc) hdisplace
    obtain ⟨plan, hplan⟩ :=
      exists_score snap policy weights pid pg freeBefore hrecovered htempered
    unfold planRemediation
    dsimp only
    rw [hnow, ok_bind]
    split_ifs
    · exact ⟨none, rfl⟩
    · rw [hbefore, ok_bind, hdisplace, ok_bind]
      dsimp only
      rw [hfinal, ok_bind]
      split_ifs
      · exact ⟨none, rfl⟩
      · rw [hplan, ok_bind]
        exact ⟨some plan, rfl⟩

/-- Two devices with everything free. -/
def unmeetable : WorkloadDemand :=
  { acceleratorCount := ⟨2⟩, perDeviceMemory := ⟨0xFFFFFFFFFFFFFFFF⟩ }

/-- Copies that can be counted never meet it. -/
theorem not_suffices_unmeetable {ls : List ResourceLayout} {st : FitState}
    (h : eval ls unmeetable = .ok st) : st.suffices unmeetable = false := by
  obtain ⟨-, hf⟩ := eval_eq_ok_iff.mp h
  have hmul := satisfying_mul_le unmeetable ls
  have hlt := st.aggregateFree.toNat_lt
  have hmax : unmeetable.perDeviceMemory.toNat = 2 ^ 64 - 1 := rfl
  by_contra hne
  have hs := ((suffices_iff h).mp (by simpa using hne)).1
  have htwo : (neededCount unmeetable).toNat = 2 := rfl
  rw [htwo] at hs
  rw [hmax] at hmul
  have hge := Nat.mul_le_mul_right (2 ^ 64 - 1) hs
  omega

/-- When planning returns for that demand, everything the devices can have free can be
added up. -/
theorem free_lt_of_unmeetable (hvalid : ∀ s ∈ snap.devices, s.layout.Valid)
    {r : Option RemediationPlan}
    (h : planRemediation snap unmeetable policy weights pid pg = .ok r) :
    freeTotal (snap.devices.map (fun s => reclaimed s.layout)) < 2 ^ 64 := by
  simp only [planRemediation, bind_eq_ok] at h
  obtain ⟨now, hnow, h⟩ := h
  rw [not_suffices_unmeetable hnow, if_neg Bool.false_ne_true, bind_eq_ok] at h
  obtain ⟨freeBefore, -, h⟩ := h
  rw [bind_eq_ok] at h
  obtain ⟨⟨ls, actions⟩, hdisplace, h⟩ := h
  dsimp only at h
  rw [bind_eq_ok] at h
  obtain ⟨final, hfinal, -⟩ := h
  obtain ⟨rest, ls', actions', hinv, ⟨-, e, he⟩ | ⟨hok, hend⟩⟩ :=
    (reclaims_start hvalid).displace (d := unmeetable)
      (fun c hc => stands_of_mem_sortCandidates hc)
  · rw [hdisplace] at he
    cases he
  · rw [hdisplace] at hok
    cases hok
    rcases hend with rfl | ⟨st, hst, hs⟩
    · rw [← hinv.freeTotal_eq hvalid, ← (eval_eq_ok_iff.mp hfinal).2]
      exact final.aggregateFree.toNat_lt
    · rw [not_suffices_unmeetable hst] at hs
      cases hs

/-- Without a requirement every device is counted. -/
theorem length_lt_of_default {r : Option RemediationPlan}
    (h : planRemediation snap {} policy weights pid pg = .ok r) :
    snap.devices.length < 2 ^ 64 := by
  simp only [planRemediation, bind_eq_ok] at h
  obtain ⟨now, hnow, -⟩ := h
  have hcount := (eval_eq_ok_iff.mp hnow).1
  rw [satisfying_of_zero rfl, List.length_map] at hcount
  rw [← hcount]
  exact now.satisfying.toNat_lt

end Planning

end FragmentationGovernor
