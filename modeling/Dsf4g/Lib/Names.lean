import Mathlib.Logic.Function.Basic

/-!
# Names that are given out again

Messages name an instance, and whoever receives one looks the name up. Instances
come and go, and a name that has become free may be given to another instance
while messages that mean the first are still under way.
-/
namespace Names

variable {Name Inst : Type}

/-- `current` finds an instance by its name, and `out n i` says that a message is under way that
carries the name `n` and means the instance `i`. Every such message that still finds an instance
finds the one it means. -/
def Matched (current : Name → Option Inst) (out : Name → Inst → Prop) : Prop :=
  ∀ n i j, out n i → current n = some j → j = i

variable {current current' : Name → Option Inst} {out out' : Name → Inst → Prop}

/-- Instances may go and messages may be lost. -/
theorem Matched.anti (h : Matched current out)
    (hcurrent : ∀ n i j, out' n i → current' n = some j → current n = some j)
    (hout : ∀ n i, out' n i → out n i) : Matched current' out' :=
  fun n i j ho hc => h n i j (hout n i ho) (hcurrent n i j ho hc)

/-- A message that names an instance by its present name. -/
theorem Matched.ask (h : Matched current out) {n : Name} {i : Inst} (hn : current n = some i)
    (hout : ∀ n' i', out' n' i' → out n' i' ∨ n' = n ∧ i' = i) : Matched current out' := by
  intro n' i' j ho hc
  obtain ho | ⟨rfl, rfl⟩ := hout n' i' ho
  · exact h n' i' j ho hc
  · exact Option.some.inj (hc.symm.trans hn)

variable [DecidableEq Name]

/-- A name may be given to a new instance once no message carries it. -/
theorem Matched.issue (h : Matched current out) {n : Name} (hn : ∀ i, ¬ out n i) (j : Inst) :
    Matched (Function.update current n (some j)) out := by
  intro n' i j' ho hc
  by_cases he : n' = n
  · subst he
    exact absurd ho (hn i)
  · rw [Function.update_of_ne he] at hc
    exact h n' i j' ho hc

theorem Matched.retire (h : Matched current out) (n : Name) :
    Matched (Function.update current n none) out := by
  refine h.anti (fun n' i j _ hc => ?_) fun _ _ ho => ho
  by_cases he : n' = n
  · subst he
    rw [Function.update_self] at hc
    cases hc
  · rwa [Function.update_of_ne he] at hc

end Names
