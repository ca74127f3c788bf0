import FragmentationGovernor.Library.Run

/-! # Interleavings

Every event has a key, and events of different keys commute. Then a run depends only on the
events of each key in their order: however two runs interleave them, they end in the same
state, and the events of a key have the same outputs. -/

namespace FragmentationGovernor

section Interleaving

variable {σ ε κ ω : Type*} [DecidableEq κ] (step : σ → ε → σ) (out : σ → ε → ω) (key : ε → κ)

/-- The events of one key. -/
def eventsOf (k : κ) (events : List ε) : List ε := events.filter (fun e => decide (key e = k))

/-- The outputs of the events of one key. -/
def outputsOf (k : κ) (s : σ) : List ε → List ω
  | [] => []
  | e :: rest =>
      if key e = k then out s e :: outputsOf k (step s e) rest else outputsOf k (step s e) rest

/-- In the states of the invariant, legal events of different keys commute and do not change
each other's outputs. -/
structure KeysCommute (inv : σ → Prop) (legal : ε → Prop) : Prop where
  keep : ∀ {s e}, inv s → legal e → inv (step s e)
  swap : ∀ {s a b}, inv s → legal a → legal b → key a ≠ key b →
    step (step s a) b = step (step s b) a
  steady : ∀ {s a b}, inv s → legal a → legal b → key a ≠ key b → out (step s a) b = out s b

variable {step out key} {inv : σ → Prop} {legal : ε → Prop} {s : σ}

/-- An event moves in front of events of other keys. -/
theorem KeysCommute.move (h : KeysCommute step out key inv legal) (hs : inv s) {a : ε}
    (ha : legal a) {front : List ε} (hfront : ∀ e ∈ front, legal e ∧ key e ≠ key a)
    (back : List ε) :
    runFrom step s (front ++ a :: back) = runFrom step (step s a) (front ++ back) ∧
      ∀ k, outputsOf step out key k s (front ++ a :: back) =
        outputsOf step out key k s (a :: (front ++ back)) := by
  induction front generalizing s with
  | nil => exact ⟨rfl, fun _ => rfl⟩
  | cons f front ih =>
      obtain ⟨hf, hne⟩ := hfront f (by simp)
      have hcomm := h.swap hs hf ha hne
      obtain ⟨hrun, hout⟩ := ih (h.keep hs hf) (fun e he => hfront e (by simp [he]))
      constructor
      · rw [List.cons_append, runFrom_cons, hrun, hcomm]
        rfl
      · intro k
        simp only [List.cons_append, outputsOf, hout k]
        rw [h.steady hs hf ha hne, h.steady hs ha hf hne.symm, hcomm]
        by_cases hk : key f = k
        · have hak : key a ≠ k := fun hak => hne (hk.trans hak.symm)
          rw [if_pos hk, if_neg hak, if_neg hak, if_pos hk]
        · rw [if_neg hk, if_neg hk]

theorem mem_eventsOf {k : κ} {events : List ε} {e : ε} :
    e ∈ eventsOf key k events ↔ e ∈ events ∧ key e = k := by
  simp [eventsOf]

/-- The first event of its key, with what stands in front of it. -/
theorem exists_first {a : ε} {rest events : List ε}
    (h : eventsOf key (key a) (a :: rest) = eventsOf key (key a) events) :
    ∃ front back, events = front ++ a :: back ∧ (∀ e ∈ front, key e ≠ key a) ∧
      eventsOf key (key a) rest = eventsOf key (key a) back := by
  have hfirst : events.filter (fun e => decide (key e = key a)) =
      a :: eventsOf key (key a) rest := by
    rw [show events.filter (fun e => decide (key e = key a)) = eventsOf key (key a) events from
      rfl, ← h]
    simp [eventsOf]
  obtain ⟨front, back, hsplit, hfront, -, hback⟩ := List.filter_eq_cons_iff.mp hfirst
  exact ⟨front, back, hsplit, by simpa using hfront, hback.symm⟩

/-- Interleavings of the same events for each key end in the same state with the same outputs. -/
theorem KeysCommute.interleavings (h : KeysCommute step out key inv legal) (hs : inv s)
    {events events' : List ε} (hlegal : ∀ e ∈ events, legal e)
    (hsame : ∀ k, eventsOf key k events = eventsOf key k events') :
    runFrom step s events = runFrom step s events' ∧
      ∀ k, outputsOf step out key k s events = outputsOf step out key k s events' := by
  induction events generalizing s events' with
  | nil =>
      have hnil : events' = [] := by
        rw [List.eq_nil_iff_forall_not_mem]
        intro e he
        have hmem : e ∈ eventsOf key (key e) [] := by
          rw [hsame, mem_eventsOf]
          exact ⟨he, rfl⟩
        exact List.not_mem_nil hmem
      rw [hnil]
      exact ⟨rfl, fun _ => rfl⟩
  | cons a rest ih =>
      obtain ⟨front, back, rfl, hfront, hback⟩ := exists_first (hsame (key a))
      have ha := hlegal a (by simp)
      have hlegal' : ∀ e ∈ front, legal e ∧ key e ≠ key a := by
        intro e he
        refine ⟨?_, hfront e he⟩
        have hmem : e ∈ eventsOf key (key e) (a :: rest) := by
          rw [hsame, mem_eventsOf]
          exact ⟨by simp [he], rfl⟩
        exact hlegal e (mem_eventsOf.mp hmem).1
      have hrest : ∀ k, eventsOf key k rest = eventsOf key k (front ++ back) := by
        intro k
        have hk := hsame k
        simp only [eventsOf, List.filter_cons, List.filter_append] at hk hback ⊢
        by_cases hak : key a = k
        · have hnone : front.filter (fun e => decide (key e = k)) = [] := by
            rw [List.filter_eq_nil_iff]
            intro e he
            rw [← hak]
            simpa using hfront e he
          rw [hnone, List.nil_append, ← hak]
          exact hback
        · simpa [hak] using hk
      obtain ⟨hrun, hout⟩ := h.move hs ha hlegal' back
      obtain ⟨hrun', hout'⟩ := ih (h.keep hs ha) (fun e he => hlegal e (by simp [he])) hrest
      constructor
      · rw [hrun, runFrom_cons, hrun']
      · intro k
        rw [hout, outputsOf, outputsOf, hout']

end Interleaving

end FragmentationGovernor
