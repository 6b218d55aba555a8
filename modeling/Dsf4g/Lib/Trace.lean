import Mathlib.Logic.Function.Basic

/-!
# Runs whose steps all meet a condition

A system is a step relation on states, labelled by events. A run is a list of
events; `guard` says which steps the run is allowed to take.
-/
namespace Trace

variable {σ ε : Type}

inductive Run (step : σ → ε → σ → Prop) (guard : σ → ε → Prop) : σ → List ε → σ → Prop
  | nil (s : σ) : Run step guard s [] s
  | cons {s s' s'' : σ} {e : ε} {es : List ε} :
      guard s e → step s e s' → Run step guard s' es s'' → Run step guard s (e :: es) s''

variable {step : σ → ε → σ → Prop} {guard : σ → ε → Prop}

/-- What holds at the start and is kept by every allowed step holds at the end. -/
theorem Run.invariant {s s' : σ} {es : List ε} (h : Run step guard s es s') (inv : σ → Prop)
    (h0 : inv s)
    (hstep : ∀ s e s', inv s → guard s e → step s e s' → inv s') : inv s' := by
  induction h with
  | nil s => exact h0
  | cons hg hs _ ih => exact ih (hstep _ _ _ h0 hg hs)

/-- A run under a stronger condition is a run under a weaker one. -/
theorem Run.weaken {guard' : σ → ε → Prop} {s s' : σ} {es : List ε}
    (h : Run step guard s es s') (hw : ∀ s e, guard s e → guard' s e) :
    Run step guard' s es s' := by
  induction h with
  | nil s => exact Run.nil s
  | cons hg hs _ ih => exact Run.cons (hw _ _ hg) hs ih

/-- A condition may be exchanged for another that follows from it in the states of the run. -/
theorem Run.exchange {guard' : σ → ε → Prop} {s s' : σ} {es : List ε}
    (h : Run step guard s es s') (inv : σ → Prop) (h0 : inv s)
    (hstep : ∀ s e s', inv s → guard s e → step s e s' → inv s')
    (hw : ∀ s e, inv s → guard s e → guard' s e) : Run step guard' s es s' := by
  induction h with
  | nil s => exact Run.nil s
  | cons hg hs _ ih => exact Run.cons (hw _ _ h0 hg) hs (ih (hstep _ _ _ h0 hg hs))

theorem Run.append {s s' s'' : σ} {es es' : List ε} (h : Run step guard s es s')
    (h' : Run step guard s' es' s'') : Run step guard s (es ++ es') s'' := by
  induction h with
  | nil s => exact h'
  | cons hg hs _ ih => exact Run.cons hg hs (ih h')

/-- When a step keeps a property exactly if it meets a condition, a run in which the property holds in
every state is one whose steps all meet it. -/
theorem Run.always_iff {guard' : σ → ε → Prop} {p : σ → Prop} {s s' : σ} {es : List ε}
    (hstep : ∀ s e s', p s → step s e s' → (p s' ↔ guard' s e)) (h0 : p s) :
    (Run step (fun s _ => p s) s es s' ∧ p s') ↔ Run step guard' s es s' := by
  constructor
  · rintro ⟨h, hend⟩
    induction h with
    | nil s => exact Run.nil s
    | @cons s s₁ s' e es hp hs hrest ih =>
      have hnext : p s₁ := by
        cases hrest with
        | nil => exact hend
        | cons hp' _ _ => exact hp'
      exact Run.cons ((hstep _ _ _ hp hs).mp hnext) hs (ih hnext hend)
  · intro h
    induction h with
    | nil s => exact ⟨Run.nil s, h0⟩
    | cons hg hs _ ih =>
      obtain ⟨hrun, hend⟩ := ih ((hstep _ _ _ h0 hs).mpr hg)
      exact ⟨Run.cons h0 hs hrun, hend⟩

/-- The same, of steps from states that meet an invariant of all steps. -/
theorem Run.always_iff_of_inv {guard' : σ → ε → Prop} {p inv : σ → Prop} {s s' : σ} {es : List ε}
    (hinv : ∀ s e s', inv s → step s e s' → inv s')
    (hstep : ∀ s e s', inv s → p s → step s e s' → (p s' ↔ guard' s e)) (hi : inv s) (h0 : p s) :
    (Run step (fun s _ => p s) s es s' ∧ p s') ↔ Run step guard' s es s' := by
  have hboth : ∀ s e s', inv s ∧ p s → step s e s' → (inv s' ∧ p s' ↔ guard' s e) := by
    rintro s e s' ⟨hi, hp⟩ hs
    rw [and_iff_right (hinv s e s' hi hs)]
    exact hstep s e s' hi hp hs
  have hiff := @Run.always_iff _ _ step guard' (fun s => inv s ∧ p s) s s' es hboth ⟨hi, h0⟩
  constructor
  · rintro ⟨h, hend⟩
    have hkeep : ∀ s e s', inv s → p s → step s e s' → inv s' := fun s e s' hi _ => hinv s e s' hi
    have hrun := h.exchange inv hi hkeep fun _ _ hi hp => And.intro hi hp
    exact hiff.mp ⟨hrun, h.invariant inv hi hkeep, hend⟩
  · intro h
    obtain ⟨hrun, -, hend⟩ := hiff.mpr h
    exact ⟨hrun.weaken fun _ _ hboth => hboth.2, hend⟩

/-- A run is a run of another system when each allowed step is one of it between the images. -/
theorem Run.map {σ' : Type} {step' : σ' → ε → σ' → Prop} {guard' : σ' → ε → Prop} {s s' : σ}
    {es : List ε} (h : Run step guard s es s') (f : σ → σ')
    (hstep : ∀ s e s', guard s e → step s e s' → guard' (f s) e ∧ step' (f s) e (f s')) :
    Run step' guard' (f s) es (f s') := by
  induction h with
  | nil s => exact Run.nil (f s)
  | cons hg hs _ ih =>
    obtain ⟨hg', hs'⟩ := hstep _ _ _ hg hs
    exact Run.cons hg' hs' ih

section Exec

variable (next : σ → ε → Option σ) (guard : σ → ε → Prop) [∀ s e, Decidable (guard s e)]

/-- Run a list of events, checking the condition before each. -/
def exec : σ → List ε → Option σ
  | s, [] => some s
  | s, e :: es =>
    if guard s e then
      match next s e with
      | none => none
      | some s' => exec s' es
    else none

theorem run_of_exec {s s' : σ} {es : List ε} (h : exec next guard s es = some s') :
    Run (fun s e s' => next s e = some s') guard s es s' := by
  induction es generalizing s with
  | nil =>
    cases h
    exact Run.nil _
  | cons e es ih =>
    unfold exec at h
    split at h
    · next hg =>
      split at h
      · cases h
      · next s₁ hn => exact Run.cons hg hn (ih h)
    · cases h

/-- A run whose end passes a test exists when the execution says so. -/
theorem exists_run_of_exec (s : σ) (es : List ε) (p : σ → Prop) [DecidablePred p]
    (h : (exec next guard s es).any (fun s' => decide (p s')) = true) :
    ∃ s', Run (fun s e s' => next s e = some s') guard s es s' ∧ p s' := by
  cases hx : exec next guard s es with
  | none =>
    rw [hx] at h
    cases h
  | some s' =>
    rw [hx] at h
    exact ⟨s', run_of_exec next guard hx, of_decide_eq_true h⟩

end Exec

end Trace
