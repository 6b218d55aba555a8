import Dsf4g.Lib.Memory

/-!
# Cyclic segments of a flat memory

The first `size` cells of a memory, read and written cyclically. Both
operations are stated cell by cell; the two ways of copying a segment by
contiguous blocks, in one piece or cut at the end of the ring, are proved equal
to them.
-/
namespace Ring

variable {α : Type}

def read (m : Nat → α) (size s n : Nat) : List α :=
  (List.range n).map fun i => m ((s + i) % size)

def put (m : Nat → α) (a : Nat) (x : α) : Nat → α := fun i => if i = a then x else m i

/-- Store a list cell by cell, advancing cyclically. -/
def write (m : Nat → α) (size s : Nat) : List α → Nat → α
  | [] => m
  | x :: xs => write (put m s x) size ((s + 1) % size) xs

theorem add_mod_eq {size s j : Nat} (hs : s < size) (hj : j ≤ size) :
    (s + j) % size = if s + j < size then s + j else s + j - size := by
  split
  · rw [Nat.mod_eq_of_lt (by omega)]
  · rw [Nat.mod_eq_sub_mod (by omega), Nat.mod_eq_of_lt (by omega)]

/-- Distinct offsets below one revolution name distinct cells. -/
theorem add_mod_inj {size s i j : Nat} (hs : s < size) (hi : i < size) (hj : j < size)
    (h : (s + i) % size = (s + j) % size) : i = j := by
  rw [add_mod_eq hs (by omega), add_mod_eq hs (by omega)] at h
  split at h <;> split at h <;> omega

@[simp] theorem read_length (m : Nat → α) (size s n : Nat) : (read m size s n).length = n := by
  simp [read]

@[simp] theorem read_zero (m : Nat → α) (size s : Nat) : read m size s 0 = [] := rfl

theorem read_getElem (m : Nat → α) (size s n i : Nat) (h : i < (read m size s n).length) :
    (read m size s n)[i] = m ((s + i) % size) := by
  simp [read]

theorem read_mod (m : Nat → α) (size s n : Nat) : read m size (s % size) n = read m size s n := by
  apply List.map_congr_left
  intro i _
  rw [Nat.mod_add_mod]

theorem read_add (m : Nat → α) (size s n k : Nat) :
    read m size s (n + k) = read m size s n ++ read m size ((s + n) % size) k := by
  rw [read_mod]
  simp only [read, List.range_add, List.map_append, List.map_map]
  congr 1
  apply List.map_congr_left
  intro i _
  simp [Nat.add_assoc]

theorem read_congr {m m' : Nat → α} {size s n : Nat}
    (h : ∀ i, i < n → m ((s + i) % size) = m' ((s + i) % size)) :
    read m size s n = read m' size s n := by
  apply List.map_congr_left
  intro i hi
  exact h i (List.mem_range.mp hi)

/-- A cell stored right behind a segment lengthens the segment by it. -/
theorem read_put_next (m : Nat → α) {size s n : Nat} (x : α) (hs : s < size)
    (hn : n < size) :
    read (put m ((s + n) % size) x) size s (n + 1) = read m size s n ++ [x] := by
  rw [read_add]
  congr 1
  · apply read_congr
    intro i hi
    have hne : (s + i) % size ≠ (s + n) % size := by
      intro he
      have := add_mod_inj hs (by omega) hn he
      omega
    simp [put, hne]
  · simp [read, put]

theorem write_outside (m : Nat → α) {size s : Nat} (xs : List α) (a : Nat) (hs : s < size)
    (h : ∀ j, j < xs.length → (s + j) % size ≠ a) : write m size s xs a = m a := by
  induction xs generalizing m s with
  | nil => rfl
  | cons x xs ih =>
    have hne : a ≠ s := by
      have := h 0 (by simp)
      rw [Nat.add_zero, Nat.mod_eq_of_lt hs] at this
      exact this.symm
    rw [write, ih _ (Nat.mod_lt _ (by omega))]
    · simp [put, hne]
    · intro j hj
      rw [Nat.mod_add_mod, Nat.add_assoc, Nat.add_comm 1 j]
      exact h (j + 1) (by simpa using hj)

theorem write_inside (m : Nat → α) {size s : Nat} (xs : List α) (hs : s < size)
    (hx : xs.length ≤ size) (j : Nat) (hj : j < xs.length) :
    write m size s xs ((s + j) % size) = xs[j] := by
  induction xs generalizing m s j with
  | nil => simp at hj
  | cons x xs ih =>
    rw [write]
    cases j with
    | zero =>
      have h₀ : (s + 0) % size = s := Nat.mod_eq_of_lt hs
      rw [h₀, write_outside _ _ _ (Nat.mod_lt _ (by omega))]
      · simp [put]
      · intro i hi
        rw [Nat.mod_add_mod, Nat.add_assoc, add_mod_eq hs (by simp at hx; omega)]
        simp at hx
        split <;> omega
    | succ j =>
      have := ih (put m s x) (s := (s + 1) % size) (Nat.mod_lt _ (by omega))
        (by simp at hx; omega) j (by simpa using hj)
      rw [Nat.mod_add_mod, Nat.add_assoc, Nat.add_comm 1 j] at this
      simpa using this

/-- What was written is read back, up to one revolution. -/
theorem read_write_same (m : Nat → α) {size s : Nat} (xs : List α) (hs : s < size)
    (hx : xs.length ≤ size) : read (write m size s xs) size s xs.length = xs := by
  apply List.ext_getElem
  · simp
  · intro i h₁ h₂
    rw [read_getElem, write_inside _ _ hs hx]

/-- A write behind a segment leaves the segment alone while both fit in the ring. -/
theorem read_write_behind (m : Nat → α) {size s n : Nat} (xs : List α) (hs : s < size)
    (h : n + xs.length ≤ size) :
    read (write m size ((s + n) % size) xs) size s n = read m size s n := by
  apply read_congr
  intro i hi
  apply write_outside _ _ _ (Nat.mod_lt _ (by omega))
  intro j hj he
  rw [Nat.mod_add_mod, Nat.add_assoc] at he
  have := add_mod_inj hs (by omega) (by omega) he
  omega

theorem read_contiguous (m : Nat → α) {size s n : Nat} (h : s + n ≤ size) :
    read m size s n = Memory.read m s n := by
  apply List.map_congr_left
  intro i hi
  have := List.mem_range.mp hi
  rw [Nat.mod_eq_of_lt (by omega)]

/-- A segment that runs over the end is the tail of the ring and then its front. -/
theorem read_split (m : Nat → α) {size s n : Nat} (hs : s < size) (hn : n ≤ size)
    (h : size ≤ s + n) :
    read m size s n = Memory.read m s (size - s) ++ Memory.read m 0 (n - (size - s)) := by
  have he : n = (size - s) + (n - (size - s)) := by omega
  rw [he, read_add, read_contiguous m (by omega), show s + (size - s) = size by omega,
    Nat.mod_self, read_contiguous m (by omega)]
  simp

theorem write_contiguous (m : Nat → α) {size s : Nat} (xs : List α) (hs : s < size)
    (h : s + xs.length ≤ size) : write m size s xs = Memory.write m s xs := by
  funext a
  by_cases ha : s ≤ a ∧ a < s + xs.length
  · obtain ⟨j, rfl⟩ := Nat.exists_eq_add_of_le ha.1
    rw [Memory.write_inside _ _ _ _ (by omega)]
    have := write_inside m xs hs (by omega) j (by omega)
    rwa [Nat.mod_eq_of_lt (by omega)] at this
  · rw [Memory.write_outside _ _ _ _ (by omega), write_outside _ _ _ hs]
    intro j hj
    rw [Nat.mod_eq_of_lt (by omega)]
    omega

theorem write_append (m : Nat → α) {size s : Nat} (xs ys : List α) (hs : s < size) :
    write m size s (xs ++ ys) = write (write m size s xs) size ((s + xs.length) % size) ys := by
  induction xs generalizing m s with
  | nil => simp [write, Nat.mod_eq_of_lt hs]
  | cons x xs ih =>
    rw [List.cons_append, write, ih _ (Nat.mod_lt _ (by omega)), write, Nat.mod_add_mod,
      List.length_cons, Nat.add_assoc, Nat.add_comm 1]

/-- A write that runs over the end fills the tail of the ring and then its front. -/
theorem write_split (m : Nat → α) {size s : Nat} (xs : List α) (hs : s < size)
    (hx : xs.length ≤ size) (h : size ≤ s + xs.length) :
    write m size s xs =
      Memory.write (Memory.write m s (xs.take (size - s))) 0 (xs.drop (size - s)) := by
  have hl : (xs.take (size - s)).length = size - s := by simp; omega
  conv => lhs; rw [← List.take_append_drop (size - s) xs]
  rw [write_append m _ _ hs, hl, show s + (size - s) = size by omega, Nat.mod_self,
    write_contiguous m _ hs (by omega), write_contiguous _ _ (by omega) (by simp; omega)]

end Ring
