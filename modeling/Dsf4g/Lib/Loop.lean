import Mathlib.Logic.Relation

/-!
# Loops that are left from inside

The body of a `while (true)` either goes on with a new state or leaves the loop with a
result. `Ends` counts the passes, so that a loop which is never left has no result.
-/
namespace Loop

variable {σ ρ : Type}

/-- The loop is left with `r` in its `n`-th pass. -/
inductive Ends (body : σ → σ ⊕ ρ) : σ → Nat → ρ → Prop
  | leave {s : σ} {r : ρ} : body s = .inr r → Ends body s 1 r
  | again {s s' : σ} {n : Nat} {r : ρ} :
      body s = .inl s' → Ends body s' n r → Ends body s (n + 1) r

/-- The loop comes to its head in the second state. -/
def Meets (body : σ → σ ⊕ ρ) : σ → σ → Prop :=
  Relation.ReflTransGen fun s s' => body s = .inl s'

variable {body : σ → σ ⊕ ρ}

theorem Ends.unique {s : σ} {n n' : Nat} {r r' : ρ} (h : Ends body s n r)
    (h' : Ends body s n' r') : n = n' ∧ r = r' := by
  induction h generalizing n' with
  | leave hb =>
    cases h' with
    | leave hb' =>
      rw [hb] at hb'
      cases hb'
      exact ⟨rfl, rfl⟩
    | again hb' _ =>
      rw [hb] at hb'
      cases hb'
  | again hb _ ih =>
    cases h' with
    | leave hb' =>
      rw [hb] at hb'
      cases hb'
    | again hb' hrest =>
      rw [hb] at hb'
      cases hb'
      obtain ⟨hn, hr⟩ := ih hrest
      exact ⟨by rw [hn], hr⟩

/-- What holds at the start and is kept from pass to pass holds in every state that is met. -/
theorem Meets.invariant {s s' : σ} (h : Meets body s s') (inv : σ → Prop) (h0 : inv s)
    (hstep : ∀ s₁ s₂, Meets body s s₁ → inv s₁ → body s₁ = .inl s₂ → inv s₂) : inv s' := by
  induction h with
  | refl => exact h0
  | tail hm hb ih => exact hstep _ _ hm ih hb

/-- The result of a loop comes from a state that was met. -/
theorem Ends.meets {s : σ} {n : Nat} {r : ρ} (h : Ends body s n r) :
    ∃ s', Meets body s s' ∧ body s' = .inr r := by
  induction h with
  | leave hb => exact ⟨_, .refl, hb⟩
  | again hb _ ih =>
    obtain ⟨s', hm, hr⟩ := ih
    exact ⟨s', .head hb hm, hr⟩

/-- A loop is left from a state it meets as it is left from the start. -/
theorem Ends.of_meets {s s' : σ} {n : Nat} {r : ρ} (h : Ends body s' n r) (hm : Meets body s s') :
    ∃ n', Ends body s n' r := by
  induction hm using Relation.ReflTransGen.head_induction_on with
  | refl => exact ⟨n, h⟩
  | head hb _ ih =>
    obtain ⟨n', hn'⟩ := ih
    exact ⟨n' + 1, .again hb hn'⟩

theorem Ends.from_meets {s s' : σ} {n : Nat} {r : ρ} (h : Ends body s n r)
    (hm : Meets body s s') : ∃ n', Ends body s' n' r := by
  induction hm with
  | refl => exact ⟨n, h⟩
  | tail _ hb ih =>
    obtain ⟨n', hn'⟩ := ih
    cases hn' with
    | leave hb' => cases hb.symm.trans hb'
    | again hb' hrest =>
      cases hb.symm.trans hb'
      exact ⟨_, hrest⟩

/-- A loop whose states have a measure that goes down from pass to pass is left in time. -/
theorem ends_of_variant (m : σ → Nat) {s : σ}
    (hm : ∀ s₁, Meets body s s₁ → ∀ s₂, body s₁ = .inl s₂ → m s₂ < m s₁) :
    ∃ n r, Ends body s n r ∧ n ≤ m s + 1 := by
  generalize hk : m s = k
  induction k using Nat.strongRecOn generalizing s with
  | ind k ih =>
    cases hb : body s with
    | inr r => exact ⟨1, r, .leave hb, Nat.le_add_left ..⟩
    | inl s' =>
      have hlt := hm s .refl s' hb
      obtain ⟨n, r, he, hn⟩ := ih (m s') (hk ▸ hlt)
        (fun s₁ hmeets => hm s₁ (.head hb hmeets)) rfl
      exact ⟨n + 1, r, .again hb he, by omega⟩

/-- A loop that goes on from every state with some property is never left. -/
theorem not_ends {s : σ} (inv : σ → Prop) (h0 : inv s)
    (hstep : ∀ s, inv s → ∃ s', body s = .inl s' ∧ inv s') : ¬ ∃ n r, Ends body s n r := by
  rintro ⟨n, r, h⟩
  induction h with
  | leave hb =>
    obtain ⟨s', hb', -⟩ := hstep _ h0
    rw [hb] at hb'
    cases hb'
  | again hb _ ih =>
    obtain ⟨s', hb', hinv⟩ := hstep _ h0
    rw [hb] at hb'
    cases hb'
    exact ih hinv

/-- The result of a loop of at most so many passes. -/
def run (body : σ → σ ⊕ ρ) : Nat → σ → Option (Nat × ρ)
  | 0, _ => none
  | fuel + 1, s =>
    match body s with
    | .inr r => some (1, r)
    | .inl s' => (run body fuel s').map fun o => (o.1 + 1, o.2)

theorem ends_of_run {fuel n : Nat} {s : σ} {r : ρ} (h : run body fuel s = some (n, r)) :
    Ends body s n r := by
  induction fuel generalizing s n with
  | zero => cases h
  | succ fuel ih =>
    unfold run at h
    split at h
    · next r' hb =>
      cases h
      exact .leave hb
    · next s' hb =>
      obtain ⟨⟨k, r'⟩, hrun, heq⟩ := Option.map_eq_some_iff.mp h
      cases heq
      exact .again hb (ih hrun)

end Loop
