import Mathlib.Data.List.Basic

/-!
# Complete items of a prefix of a stream

A stream is a list of nonempty items sent back to back. After the first `n`
cells have arrived, the items that arrived whole are the longest leading part
that fits into `n` cells.
-/
namespace Framing

variable {α : Type}

/-- The leading items that fit into `n` cells. -/
def complete : List (List α) → Nat → List (List α)
  | [], _ => []
  | f :: fs, n => if f.length ≤ n then f :: complete fs (n - f.length) else []

@[simp] theorem complete_nil (n : Nat) : complete ([] : List (List α)) n = [] := rfl

theorem complete_cons_of_le {f : List α} {fs : List (List α)} {n : Nat} (h : f.length ≤ n) :
    complete (f :: fs) n = f :: complete fs (n - f.length) := by
  simp [complete, h]

theorem complete_cons_of_lt {f : List α} {fs : List (List α)} {n : Nat} (h : n < f.length) :
    complete (f :: fs) n = [] := by
  simp [complete, Nat.not_le.mpr h]

theorem complete_flatten_le (fs : List (List α)) (n : Nat) :
    (complete fs n).flatten.length ≤ n := by
  induction fs generalizing n with
  | nil => simp
  | cons f fs ih =>
    by_cases h : f.length ≤ n
    · have := ih (n - f.length)
      rw [complete_cons_of_le h, List.flatten_cons, List.length_append]
      omega
    · rw [complete_cons_of_lt (by omega)]
      simp

def pending (fs : List (List α)) (n : Nat) : Nat := n - (complete fs n).flatten.length

theorem complete_append (done todo : List (List α)) (n : Nat) :
    complete (done ++ todo) (done.flatten.length + n) = done ++ complete todo n := by
  induction done with
  | nil => simp
  | cons f done ih =>
    rw [List.cons_append, complete_cons_of_le (by simp; omega)]
    simp only [List.flatten_cons, List.length_append, List.cons_append]
    rw [show f.length + done.flatten.length + n - f.length = done.flatten.length + n by omega, ih]

theorem pending_append (done todo : List (List α)) (n : Nat) :
    pending (done ++ todo) (done.flatten.length + n) = pending todo n := by
  simp only [pending, complete_append, List.flatten_append, List.length_append]
  omega

/-- What is not yet complete, as a suffix of the stream. -/
def remaining (fs : List (List α)) (n : Nat) : List (List α) := fs.drop (complete fs n).length

theorem complete_remaining (fs : List (List α)) (n : Nat) :
    complete fs n ++ remaining fs n = fs := by
  induction fs generalizing n with
  | nil => rfl
  | cons f fs ih =>
    by_cases h : f.length ≤ n
    · have := ih (n - f.length)
      simp only [remaining] at this ⊢
      rw [complete_cons_of_le h, List.cons_append, List.length_cons, List.drop_succ_cons, this]
    · simp [remaining, complete_cons_of_lt (Nat.not_le.mp h)]

theorem complete_add_pending (fs : List (List α)) (n : Nat) :
    (complete fs n).flatten.length + pending fs n = n := by
  have := complete_flatten_le fs n
  simp only [pending]
  omega

theorem flatten_split (fs : List (List α)) (n : Nat) :
    (complete fs n).flatten ++ (remaining fs n).flatten = fs.flatten := by
  rw [← List.flatten_append, complete_remaining]

theorem drop_flatten (fs : List (List α)) (n : Nat) :
    fs.flatten.drop n = (remaining fs n).flatten.drop (pending fs n) := by
  have h := @List.drop_length_add_append _ (complete fs n).flatten
    (remaining fs n).flatten (pending fs n)
  rwa [flatten_split, complete_add_pending] at h

/-- What has arrived is the complete items and the front of the next one. -/
theorem take_complete (fs : List (List α)) (n : Nat) :
    fs.flatten.take n =
      (complete fs n).flatten ++ (remaining fs n).flatten.take (pending fs n) := by
  have h := @List.take_length_add_append _ (complete fs n).flatten
    (remaining fs n).flatten (pending fs n)
  rwa [flatten_split, complete_add_pending] at h

/-- The arrived cells behind the complete items, when `m` more have arrived. -/
theorem take_flatten (fs : List (List α)) (n m : Nat) :
    (fs.flatten.take (n + m)).drop (complete fs n).flatten.length =
      (remaining fs n).flatten.take (pending fs n + m) := by
  have h := @List.take_length_add_append _ (complete fs n).flatten
    (remaining fs n).flatten (pending fs n + m)
  rw [flatten_split, ← Nat.add_assoc, complete_add_pending] at h
  rw [h, List.drop_left' rfl]

/-- More cells complete more of what remained, and nothing else. -/
theorem complete_add (fs : List (List α)) (n m : Nat) :
    complete fs (n + m) = complete fs n ++ complete (remaining fs n) (pending fs n + m) := by
  have h := complete_append (complete fs n) (remaining fs n) (pending fs n + m)
  rwa [complete_remaining, ← Nat.add_assoc, complete_add_pending] at h

theorem pending_add (fs : List (List α)) (n m : Nat) :
    pending fs (n + m) = pending (remaining fs n) (pending fs n + m) := by
  have h := pending_append (complete fs n) (remaining fs n) (pending fs n + m)
  rwa [complete_remaining, ← Nat.add_assoc, complete_add_pending] at h

theorem remaining_add (fs : List (List α)) (n m : Nat) :
    remaining fs (n + m) = remaining (remaining fs n) (pending fs n + m) := by
  simp only [remaining, List.drop_drop]
  rw [complete_add, List.length_append]
  rfl

theorem complete_zero {fs : List (List α)} (h : ∀ f ∈ fs, f ≠ []) : complete fs 0 = [] := by
  cases fs with
  | nil => rfl
  | cons f fs =>
    exact complete_cons_of_lt (List.length_pos_iff.mpr (h f List.mem_cons_self))

theorem mem_of_mem_complete {fs : List (List α)} {n : Nat} {f : List α}
    (h : f ∈ complete fs n) : f ∈ fs := by
  rw [← complete_remaining fs n]
  exact List.mem_append_left _ h

theorem mem_of_mem_remaining {fs : List (List α)} {n : Nat} {f : List α}
    (h : f ∈ remaining fs n) : f ∈ fs := by
  rw [← complete_remaining fs n]
  exact List.mem_append_right _ h

/-- The first incomplete item is longer than what has arrived of it. -/
theorem pending_lt {fs : List (List α)} {n : Nat} {f : List α} {rest : List (List α)}
    (h : remaining fs n = f :: rest) : pending fs n < f.length := by
  induction fs generalizing n with
  | nil => simp [remaining] at h
  | cons g fs ih =>
    by_cases hg : g.length ≤ n
    · have hr : remaining fs (n - g.length) = f :: rest := by
        simpa [remaining, complete_cons_of_le hg] using h
      have := ih hr
      simp only [pending, complete_cons_of_le hg, List.flatten_cons, List.length_append] at this ⊢
      omega
    · have hlt : n < g.length := by omega
      simp only [remaining, complete_cons_of_lt hlt, List.length_nil, List.drop_zero] at h
      obtain ⟨rfl, -⟩ := List.cons.inj h
      simp only [pending, complete_cons_of_lt hlt, List.flatten_nil, List.length_nil]
      omega

/-! ## Items that tell where they end -/

/-- No item is empty, and no item is the beginning of a longer one. -/
structure Delimited (item : List α → Prop) : Prop where
  nonempty : ∀ f, item f → f ≠ []
  unique : ∀ f g r r', item f → item g → f ++ r = g ++ r' → f = g

def Items (item : List α → Prop) (xs : List α) : Prop :=
  ∃ fs : List (List α), (∀ f ∈ fs, item f) ∧ fs.flatten = xs

section Items

variable {item : List α → Prop}

theorem Items.nil : Items item [] := ⟨[], (fun _ h => nomatch h), rfl⟩

theorem Items.append_item {xs f : List α} (h : Items item xs) (hf : item f) :
    Items item (xs ++ f) := by
  obtain ⟨fs, hfs, rfl⟩ := h
  refine ⟨fs ++ [f], fun g hg => ?_, by simp⟩
  obtain hg | hg := List.mem_append.mp hg
  · exact hfs g hg
  · rw [List.mem_singleton.mp hg]
    exact hf

/-- Items followed by a part of one are no items. -/
theorem Items.not_cut (hd : Delimited item) {xs f t r : List α} (hx : Items item xs)
    (hf : item f) (ht : t ≠ []) (hr : r ≠ []) (hfr : t ++ r = f) : ¬ Items item (xs ++ t) := by
  obtain ⟨fs, hfs, rfl⟩ := hx
  rintro ⟨gs, hgs, hflat⟩
  induction fs generalizing gs with
  | nil =>
    cases gs with
    | nil => exact ht hflat.symm
    | cons g gs =>
      have hsplit : g ++ (gs.flatten ++ r) = f ++ [] := by
        rw [List.append_nil, ← hfr, ← List.append_assoc]
        exact congrArg (· ++ r) hflat
      have heq := hd.unique g f _ _ (hgs g List.mem_cons_self) hf hsplit
      rw [heq] at hsplit
      exact hr (List.append_eq_nil_iff.mp (List.append_cancel_left hsplit)).2
  | cons f' fs ih =>
    cases gs with
    | nil =>
      have hnil := List.append_eq_nil_iff.mp hflat.symm
      exact ht hnil.2
    | cons g gs =>
      rw [List.flatten_cons, List.flatten_cons, List.append_assoc] at hflat
      have heq := hd.unique g f' _ _ (hgs g List.mem_cons_self) (hfs f' List.mem_cons_self) hflat
      rw [heq] at hflat
      exact ih (fun f hf => hfs f (List.mem_cons_of_mem _ hf)) gs
        (fun g hg => hgs g (List.mem_cons_of_mem _ hg)) (List.append_cancel_left hflat)

/-- The front of an item makes items only when it is the whole item or nothing. -/
theorem Items.take_iff (hd : Delimited item) {xs f : List α} (hx : Items item xs) (hf : item f)
    (n : Nat) : Items item (xs ++ f.take n) ↔ f.length ≤ n ∨ n = 0 := by
  by_cases hfull : f.length ≤ n
  · rw [List.take_of_length_le hfull]
    exact iff_of_true (hx.append_item hf) (.inl hfull)
  · by_cases hz : n = 0
    · subst hz
      rw [List.take_zero, List.append_nil]
      exact iff_of_true hx (.inr rfl)
    · refine iff_of_false ?_ fun h => h.elim hfull hz
      apply hx.not_cut hd hf _ _ (List.take_append_drop n f)
      · intro hnil
        have hlen := congrArg List.length hnil
        rw [List.length_take, List.length_nil] at hlen
        omega
      · intro hnil
        have hlen := congrArg List.length hnil
        rw [List.length_drop, List.length_nil] at hlen
        omega

end Items

end Framing
