import FragmentationGovernor.Verification.Planner.Scores
import Mathlib.Data.Prod.Lex

/-! # The order of the actions

The planner displaces the cheapest candidates first, so that a plan lists its releases and
evictions before its moves. -/

namespace FragmentationGovernor

/-! ## Stable sorting -/

section StableSort

variable {α : Type*} {r p : α → α → Prop} [DecidableRel r] [Std.Total r] [IsTrans α r]

theorem pairwise_orderedInsert_stable {a : α} {xs : List α} (hp : ∀ x ∈ xs, p a x)
    (hxs : xs.Pairwise (fun x y => r x y ∧ (r y x → p x y))) :
    (xs.orderedInsert r a).Pairwise (fun x y => r x y ∧ (r y x → p x y)) := by
  induction xs with
  | nil => simp
  | cons x xs ih =>
      obtain ⟨hx, hrest⟩ := List.pairwise_cons.mp hxs
      by_cases hax : r a x
      · rw [List.orderedInsert_cons_of_le r xs hax]
        refine List.pairwise_cons.mpr ⟨?_, hxs⟩
        intro y hy
        refine ⟨?_, fun _ => hp y hy⟩
        rcases List.mem_cons.mp hy with rfl | hy
        · exact hax
        · exact IsTrans.trans _ _ _ hax (hx y hy).1
      · rw [List.orderedInsert_of_not_le r xs hax]
        refine List.pairwise_cons.mpr ⟨?_, ih (fun y hy => hp y (by simp [hy])) hrest⟩
        intro y hy
        rcases (List.mem_orderedInsert r).mp hy with rfl | hy
        · exact ⟨(Std.Total.total x y).resolve_right hax, fun hyx => (hax hyx).elim⟩
        · exact hx y hy

/-- A stable sort leaves what it cannot tell apart in the order it was in. -/
theorem pairwise_insertionSort_stable {xs : List α} (hp : xs.Pairwise p) :
    (xs.insertionSort r).Pairwise (fun x y => r x y ∧ (r y x → p x y)) := by
  induction xs with
  | nil => simp
  | cons x xs ih =>
      obtain ⟨hx, hrest⟩ := List.pairwise_cons.mp hp
      rw [List.insertionSort_cons]
      refine pairwise_orderedInsert_stable ?_ (ih hrest)
      intro y hy
      exact hx y ((List.mem_insertionSort r).mp hy)

end StableSort

namespace Planner

/-! ## The sorted candidates -/

/-- What candidates are compared by. -/
def sortKey (c : ReclaimCandidate) : ℚ ×ₗ (Bytes ×ₗ AllocationId) :=
  toLex (c.disruption, toLex (c.length, c.id))

theorem before_eq_false_iff {a b : ReclaimCandidate} :
    before b a = false ↔ sortKey a ≤ sortKey b := by
  rw [sortKey, sortKey, Prod.Lex.toLex_le_toLex, Prod.Lex.toLex_le_toLex, before]
  by_cases hd : b.disruption ≠ a.disruption
  · rw [if_pos hd, decide_eq_false_iff_not, not_lt]
    constructor
    · intro hle
      exact Or.inl (lt_of_le_of_ne hle hd.symm)
    · rintro (hlt | ⟨heq, -⟩)
      · exact hlt.le
      · exact (hd heq.symm).elim
  · rw [if_neg hd]
    rw [not_not] at hd
    simp only [hd, lt_irrefl, false_or, true_and]
    by_cases hl : b.length ≠ a.length
    · rw [if_pos hl, decide_eq_false_iff_not, not_lt]
      constructor
      · intro hle
        exact Or.inl (lt_of_le_of_ne hle hl.symm)
      · rintro (hlt | ⟨heq, -⟩)
        · exact hlt.le
        · exact (hl heq.symm).elim
    · rw [if_neg hl]
      rw [not_not] at hl
      simp only [hl, lt_irrefl, false_or, true_and]
      rw [decide_eq_false_iff_not]
      exact @not_lt AllocationId _ b.id a.id

instance before_total : Std.Total (fun a b : ReclaimCandidate => before b a = false) :=
  ⟨fun a b => by
    rw [before_eq_false_iff, before_eq_false_iff]
    exact le_total _ _⟩

instance before_trans : IsTrans ReclaimCandidate (fun a b => before b a = false) :=
  ⟨fun a b c hab hbc => by
    rw [before_eq_false_iff] at *
    exact hab.trans hbc⟩

theorem pairwise_sortCandidates (cs : List ReclaimCandidate) :
    (sortCandidates cs).Pairwise (fun a b => a.disruption ≤ b.disruption) := by
  refine (List.pairwise_insertionSort (fun a b => before b a = false) cs).imp ?_
  intro a b hab
  rw [before_eq_false_iff, sortKey, sortKey, Prod.Lex.toLex_le_toLex] at hab
  rcases hab with hlt | ⟨heq, -⟩
  · exact hlt.le
  · exact heq.le

/-! ## Kinds in order -/

/-- The kinds of a plan as the planner lists them: releases and evictions, then moves. -/
def Ordered (ks : List ActionKind) : Prop :=
  ∃ front n, ks = front ++ List.replicate n .moveAllocation ∧
    ∀ k ∈ front, k = .releaseUnused ∨ k = .evictRecomputable

theorem Ordered.drop {ks : List ActionKind} (h : Ordered ks) (m : ℕ) : Ordered (ks.drop m) := by
  obtain ⟨front, n, rfl, hfront⟩ := h
  refine ⟨front.drop m, n - (m - front.length), ?_, fun k hk => hfront k (List.mem_of_mem_drop hk)⟩
  rw [List.drop_append, List.drop_replicate]

theorem ordered_of_pairwise {ks : List ActionKind}
    (hkinds : ∀ k ∈ ks, k = .releaseUnused ∨ k = .evictRecomputable ∨ k = .moveAllocation)
    (hpair : ks.Pairwise (fun a b => a = .moveAllocation → b = .moveAllocation)) :
    Ordered ks := by
  induction ks with
  | nil => exact ⟨[], 0, rfl, by simp⟩
  | cons k ks ih =>
      obtain ⟨hk, hks⟩ := List.pairwise_cons.mp hpair
      by_cases hmove : k = .moveAllocation
      · -- from the first move on there is nothing else
        refine ⟨[], ks.length + 1, ?_, by simp⟩
        rw [List.nil_append, List.replicate_succ, hmove]
        congr 1
        exact List.eq_replicate_iff.mpr ⟨rfl, fun x hx => hk x hx hmove⟩
      · obtain ⟨front, n, heq, hfront⟩ := ih (fun x hx => hkinds x (by simp [hx])) hks
        refine ⟨k :: front, n, by rw [heq]; rfl, ?_⟩
        intro x hx
        rcases List.mem_cons.mp hx with rfl | hx
        · have hcases := hkinds x (by simp)
          tauto
        · exact hfront x hx

theorem kindFor_cases {m : Movability} (h : mayMove m = true) :
    kindFor m = .releaseUnused ∨ kindFor m = .evictRecomputable ∨ kindFor m = .moveAllocation := by
  cases m <;> simp [mayMove, kindFor] at h ⊢

/-- What is as costly as something that is moved is moved. -/
theorem kindFor_mono {m m' : Movability} (h : mayMove m = true) (h' : mayMove m' = true)
    (hle : disruptionOf m ≤ disruptionOf m') (hmove : kindFor m = .moveAllocation) :
    kindFor m' = .moveAllocation := by
  have hhundredths : hundredths m ≤ hundredths m' :=
    not_lt.mp (fun hlt => not_lt.mpr hle (disruptionOf_lt_iff.mpr hlt))
  revert hhundredths h h' hmove
  cases m <;> cases m' <;> decide

theorem Stands.disruption {weights : PlanningWeights} {devices : List DeviceState}
    {c : ReclaimCandidate} (h : Stands weights devices c) :
    c.disruption = Double.round (disruptionOf c.movability * mitigation weights) := by
  obtain ⟨s, a, -, -, -, hc⟩ := h
  rw [hc]
  rfl

/-- The kinds of candidates taken in the order of the sort. -/
theorem ordered_kinds {weights : PlanningWeights} {devices : List DeviceState}
    {cs : List ReclaimCandidate}
    (h : cs.Sublist (sortCandidates (candidates weights 0 devices))) :
    Ordered (cs.map (fun c => kindFor c.movability)) := by
  have hstands : ∀ c ∈ cs, Stands weights devices c :=
    fun c hc => stands_of_mem_sortCandidates (h.subset hc)
  refine ordered_of_pairwise ?_ ?_
  · intro k hk
    obtain ⟨c, hc, rfl⟩ := List.mem_map.mp hk
    exact kindFor_cases (hstands c hc).mayMove
  · rw [List.pairwise_map]
    have hsorted := (pairwise_sortCandidates (candidates weights 0 devices)).sublist h
    refine hsorted.imp_of_mem ?_
    intro a b ha hb hle
    rw [(hstands a ha).disruption, (hstands b hb).disruption] at hle
    refine kindFor_mono (hstands a ha).mayMove (hstands b hb).mayMove (not_lt.mp fun hlt => ?_)
    exact not_lt.mpr hle ((round_disruption_lt_iff weights).mpr hlt)

/-! ## The kinds of a plan -/

theorem actionFor_kind {snap : FragmentationSnapshot} {weights : PlanningWeights}
    {target : ResourceId} {c : ReclaimCandidate} {act : PlanAction}
    (h : actionFor snap weights target c = .ok act) : act.kind = kindFor c.movability := by
  simp only [actionFor, bind_eq_ok, Except.ok.injEq] at h
  obtain ⟨cost, -, risk, -, disruption, -, rfl⟩ := h
  rfl

/-- The actions so far are those of some candidates in front of the ones that are left. -/
def Follows (cands rest : List ReclaimCandidate) (actions : List PlanAction) : Prop :=
  ∃ cs : List ReclaimCandidate, (cs ++ rest).Sublist cands ∧
    actions.map (fun act => act.kind) = cs.map (fun c => kindFor c.movability)

theorem Follows.grant {cands rest : List ReclaimCandidate} {c : ReclaimCandidate}
    {actions : List PlanAction} {act : PlanAction} (h : Follows cands (c :: rest) actions)
    (hact : act.kind = kindFor c.movability) : Follows cands rest (actions ++ [act]) := by
  obtain ⟨cs, hsub, hkinds⟩ := h
  refine ⟨cs ++ [c], by simpa using hsub, ?_⟩
  rw [List.map_append, List.map_append, hkinds, List.map_singleton, List.map_singleton, hact]

theorem Follows.skip {cands rest : List ReclaimCandidate} {c : ReclaimCandidate}
    {actions : List PlanAction} (h : Follows cands (c :: rest) actions) :
    Follows cands rest actions := by
  obtain ⟨cs, hsub, hkinds⟩ := h
  exact ⟨cs, ((List.sublist_cons_self c rest).append_left cs).trans hsub, hkinds⟩

theorem displace_follows {snap : FragmentationSnapshot} {d : WorkloadDemand}
    {weights : PlanningWeights} {cands : List ReclaimCandidate} {devs devs' : List ResourceLayout}
    {actions : List PlanAction} (hcands : ∀ c ∈ cands, Stands weights snap.devices c)
    (h : displace snap d weights cands devs [] = .ok (devs', actions)) :
    ∃ rest, Follows cands rest actions := by
  refine @displace_loop _ _ _ (fun rest _ actions => Follows cands rest actions) ?_
    (fun hinv _ _ => hinv.skip) (fun hinv => hinv.skip) _ hcands _ _ _ _
    ⟨[], List.Sublist.refl _, rfl⟩ h
  intro c rest devs actions l' act hinv hgrant
  obtain ⟨s, a, l, -, -, -, -, -, hact⟩ := hgrant.removal
  exact hinv.grant (actionFor_kind hact)

/-- A plan lists its releases and evictions before its moves. -/
theorem planRemediation_ordered {snap : FragmentationSnapshot} {d : WorkloadDemand}
    {policy : Policy} {weights : PlanningWeights} {pid : FragmentationPlanId}
    {pg : FragmentationPlanGeneration} {plan : RemediationPlan}
    (h : planRemediation snap d policy weights pid pg = .ok (some plan)) :
    Ordered (plan.actions.map (fun act => act.kind)) := by
  obtain ⟨now, freeBefore, devs, final, -, -, hdisplace, -⟩ := planRemediation_eq_some h
  obtain ⟨rest, cs, hsub, hkinds⟩ :=
    displace_follows (fun c hc => stands_of_mem_sortCandidates hc) hdisplace
  rw [hkinds]
  exact ordered_kinds ((List.sublist_append_left cs rest).trans hsub)

end Planner

end FragmentationGovernor
