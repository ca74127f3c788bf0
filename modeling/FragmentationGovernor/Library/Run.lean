import Mathlib.Data.List.Induction

/-! # Runs of a deterministic transition function

A run is a list of events applied in order. Facts about runs come from facts about
one step through the induction rules below. -/

namespace FragmentationGovernor

section Run

variable {σ ε : Type*} (step : σ → ε → σ)

/-- The state after the events, in order. -/
def runFrom (s : σ) (events : List ε) : σ := events.foldl step s

@[simp] theorem runFrom_nil (s : σ) : runFrom step s [] = s := rfl

theorem runFrom_cons (s : σ) (e : ε) (events : List ε) :
    runFrom step s (e :: events) = runFrom step (step s e) events := rfl

theorem runFrom_append (s : σ) (front back : List ε) :
    runFrom step s (front ++ back) = runFrom step (runFrom step s front) back :=
  List.foldl_append

theorem runFrom_snoc (s : σ) (events : List ε) (e : ε) :
    runFrom step s (events ++ [e]) = step (runFrom step s events) e := by
  simp [runFrom]

/-- `cond` holds of every step of the run: of each event and the state it meets. -/
def AllSteps (cond : σ → ε → Prop) (s : σ) : List ε → Prop
  | [] => True
  | e :: rest => cond s e ∧ AllSteps cond (step s e) rest

variable {step} {cond : σ → ε → Prop} {s : σ}

@[simp] theorem allSteps_nil : AllSteps step cond s [] := trivial

@[simp] theorem allSteps_cons {e : ε} {rest : List ε} :
    AllSteps step cond s (e :: rest) ↔ cond s e ∧ AllSteps step cond (step s e) rest :=
  Iff.rfl

theorem allSteps_append {front back : List ε} :
    AllSteps step cond s (front ++ back) ↔
      AllSteps step cond s front ∧ AllSteps step cond (runFrom step s front) back := by
  induction front generalizing s with
  | nil => simp
  | cons e rest ih => simp [ih, runFrom_cons, and_assoc]

theorem AllSteps.mono {cond' : σ → ε → Prop} (himp : ∀ s e, cond s e → cond' s e)
    {events : List ε} (h : AllSteps step cond s events) : AllSteps step cond' s events := by
  induction events generalizing s with
  | nil => trivial
  | cons e rest ih => exact ⟨himp s e h.1, ih h.2⟩

/-- The steps of a run are the splits of its events. -/
theorem allSteps_iff {events : List ε} :
    AllSteps step cond s events ↔
      ∀ front e back, events = front ++ e :: back → cond (runFrom step s front) e := by
  induction events generalizing s with
  | nil => simp
  | cons e rest ih =>
      rw [allSteps_cons, ih]
      constructor
      · rintro ⟨he, hrest⟩ front e' back hsplit
        cases front with
        | nil =>
            cases hsplit
            exact he
        | cons f front =>
            cases hsplit
            exact hrest front e' back rfl
      · intro h
        refine ⟨h [] e rest rfl, ?_⟩
        intro front e' back hsplit
        exact h (e :: front) e' back (by rw [hsplit]; rfl)

/-- An invariant kept by every step that meets `cond` holds at the end of every run
whose steps all meet it. -/
theorem runFrom_induction {inv : σ → Prop} (h0 : inv s)
    (hstep : ∀ s e, inv s → cond s e → inv (step s e)) {events : List ε}
    (hall : AllSteps step cond s events) : inv (runFrom step s events) := by
  induction events generalizing s with
  | nil => exact h0
  | cons e rest ih => exact ih (hstep s e h0 hall.1) hall.2

/-- The rule without a condition on the steps. -/
theorem runFrom_invariant {inv : σ → Prop} (h0 : inv s)
    (hstep : ∀ s e, inv s → inv (step s e)) (events : List ε) :
    inv (runFrom step s events) := by
  induction events generalizing s with
  | nil => exact h0
  | cons e rest ih => exact ih (hstep s e h0)

/-- An observation at the end of a run that was not there at its start goes back to a last
change. -/
theorem exists_last_change {α : Type*} {f : σ → α} {a : α} (h0 : f s ≠ a) {events : List ε}
    (h : f (runFrom step s events) = a) :
    ∃ front e back, events = front ++ e :: back ∧ f (runFrom step s front) ≠ a ∧
      AllSteps step (fun s e => f (step s e) = a) (runFrom step s front) (e :: back) := by
  induction events using List.reverseRecOn with
  | nil => exact absurd h h0
  | append_singleton events e ih =>
      by_cases hlast : f (runFrom step s events) = a
      · obtain ⟨front, e', back, rfl, hne, hall⟩ := ih hlast
        refine ⟨front, e', back ++ [e], by simp, hne, ?_⟩
        rw [← List.cons_append, allSteps_append, ← runFrom_append]
        rw [runFrom_snoc] at h
        exact ⟨hall, h, trivial⟩
      · rw [runFrom_snoc] at h
        exact ⟨events, e, [], rfl, hlast, h, trivial⟩

/-! ## Runs seen from outside -/

/-- The events of a run, each with its output. -/
def conversation {ω : Type*} (step : σ → ε → σ) (out : σ → ε → ω) (s : σ) :
    List ε → List (ε × ω)
  | [] => []
  | e :: rest => (e, out s e) :: conversation step out (step s e) rest

/-- A view that follows every step from the event and its output alone follows every run. -/
theorem runFrom_observe {ω τ : Type*} {out : σ → ε → ω} {view : σ → τ}
    {observe : τ → ε × ω → τ} {inv : σ → Prop} {legal : ε → Prop} (h0 : inv s)
    (hkeep : ∀ s e, inv s → inv (step s e))
    (hview : ∀ s e, inv s → legal e → view (step s e) = observe (view s) (e, out s e))
    {events : List ε} (hlegal : ∀ e ∈ events, legal e) :
    view (runFrom step s events) =
      runFrom observe (view s) (conversation step out s events) := by
  induction events generalizing s with
  | nil => rfl
  | cons e rest ih =>
      rw [runFrom_cons, conversation, runFrom_cons, ← hview s e h0 (hlegal e (by simp))]
      exact ih (hkeep s e h0) (fun x hx => hlegal x (by simp [hx]))

end Run

end FragmentationGovernor
