import Mathlib.Data.List.Basic

/-!
# Flat memory

A memory is a total function from addresses to cells. Block reads and writes
are the two primitives that `memcpy` and `memmove` reduce to; every lemma is
about which addresses a block covers.
-/
namespace Memory

variable {α : Type}

def read (m : Nat → α) (a n : Nat) : List α := (List.range n).map fun i => m (a + i)

/-- Store the block `xs` at address `a`; all other cells keep their value. -/
def write (m : Nat → α) (a : Nat) (xs : List α) : Nat → α :=
  fun i => if a ≤ i then (xs[i - a]?).getD (m i) else m i

@[simp] theorem read_length (m : Nat → α) (a n : Nat) : (read m a n).length = n := by
  simp [read]

@[simp] theorem read_zero (m : Nat → α) (a : Nat) : read m a 0 = [] := rfl

theorem read_getElem (m : Nat → α) (a n i : Nat) (h : i < (read m a n).length) :
    (read m a n)[i] = m (a + i) := by
  simp [read]

theorem read_succ (m : Nat → α) (a n : Nat) : read m a (n + 1) = m a :: read m (a + 1) n := by
  simp only [read, List.range_succ_eq_map, List.map_cons, Nat.add_zero, List.map_map]
  congr 1
  apply List.map_congr_left
  intro i _
  simp only [Function.comp_apply]
  congr 1
  omega

/-- A block splits at any inner offset. -/
theorem read_add (m : Nat → α) (a n k : Nat) :
    read m a (n + k) = read m a n ++ read m (a + n) k := by
  induction n generalizing a with
  | zero => simp
  | succ n ih =>
    rw [show n + 1 + k = (n + k) + 1 by omega, read_succ, read_succ, ih]
    simp [Nat.add_assoc, Nat.add_comm 1 n]

theorem read_congr {m m' : Nat → α} {a n : Nat} (h : ∀ i, a ≤ i → i < a + n → m i = m' i) :
    read m a n = read m' a n := by
  apply List.map_congr_left
  intro i hi
  exact h _ (by omega) (by have := List.mem_range.mp hi; omega)

theorem take_read (m : Nat → α) (a n k : Nat) (h : k ≤ n) : (read m a n).take k = read m a k := by
  obtain ⟨j, rfl⟩ := Nat.exists_eq_add_of_le h
  rw [read_add, List.take_append_of_le_length (by simp), List.take_of_length_le (by simp)]

theorem drop_read (m : Nat → α) (a n k : Nat) (h : k ≤ n) :
    (read m a n).drop k = read m (a + k) (n - k) := by
  obtain ⟨j, rfl⟩ := Nat.exists_eq_add_of_le h
  rw [read_add, List.drop_append_of_le_length (by simp)]
  simp

theorem write_inside (m : Nat → α) (a : Nat) (xs : List α) (i : Nat) (h : i < xs.length) :
    write m a xs (a + i) = xs[i] := by
  simp [write, h]

theorem write_outside (m : Nat → α) (a : Nat) (xs : List α) (i : Nat)
    (h : i < a ∨ a + xs.length ≤ i) : write m a xs i = m i := by
  unfold write
  split
  · rw [List.getElem?_eq_none (by omega)]
    rfl
  · rfl

/-- What was written is read back. -/
@[simp] theorem read_write_same (m : Nat → α) (a : Nat) (xs : List α) :
    read (write m a xs) a xs.length = xs := by
  apply List.ext_getElem
  · simp
  · intro i h₁ h₂
    rw [read_getElem, write_inside _ _ _ _ h₂]

/-- A write leaves every disjoint block alone. -/
theorem read_write_disjoint (m : Nat → α) (a b n : Nat) (xs : List α)
    (h : b + n ≤ a ∨ a + xs.length ≤ b) : read (write m a xs) b n = read m b n := by
  apply read_congr
  intro i h₁ h₂
  exact write_outside _ _ _ _ (by omega)

end Memory
