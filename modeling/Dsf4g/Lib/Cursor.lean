import Mathlib.Data.List.Basic

/-!
# A buffer that is filled from its front

`put` and `get` move an offset through a buffer of fixed length and refuse to run
over its end. What is put behind one another is got back in the same order.
-/
namespace Cursor

variable {α : Type}

def put (buf : List α) (offset : Nat) (xs : List α) : Option (List α × Nat) :=
  if xs.length + offset > buf.length then none
  else some (buf.take offset ++ xs ++ buf.drop (offset + xs.length), offset + xs.length)

def get (buf : List α) (offset n : Nat) : Option (List α × Nat) :=
  if n + offset > buf.length then none else some ((buf.drop offset).take n, offset + n)

/-- Storing behind what has been stored. -/
theorem put_behind (done rest xs : List α) (h : xs.length ≤ rest.length) :
    put (done ++ rest) done.length xs =
      some (done ++ xs ++ rest.drop xs.length, (done ++ xs).length) := by
  simp only [put]
  rw [if_neg (by rw [List.length_append]; omega), List.take_left' rfl,
    List.drop_length_add_append, List.length_append]

/-- Reading what was stored there. -/
theorem get_behind (done xs rest : List α) :
    get (done ++ (xs ++ rest)) done.length xs.length = some (xs, (done ++ xs).length) := by
  simp only [get]
  rw [if_neg (by simp only [List.length_append]; omega), List.drop_left' rfl,
    List.take_left' rfl, List.length_append]

def putAll (buf : List α) (offset : Nat) : List (List α) → Option (List α × Nat)
  | [] => some (buf, offset)
  | xs :: xss =>
    match put buf offset xs with
    | none => none
    | some (buf, offset) => putAll buf offset xss

theorem putAll_behind {xss : List (List α)} {done rest : List α}
    (h : xss.flatten.length ≤ rest.length) :
    putAll (done ++ rest) done.length xss =
      some (done ++ xss.flatten ++ rest.drop xss.flatten.length, (done ++ xss.flatten).length) := by
  induction xss generalizing done rest with
  | nil => rw [putAll, List.flatten_nil, List.append_nil, List.length_nil, List.drop_zero]
  | cons xs xss ih =>
    rw [List.flatten_cons, List.length_append] at h
    have hrest : xss.flatten.length ≤ (rest.drop xs.length).length := by
      rw [List.length_drop]
      omega
    rw [putAll, put_behind done rest xs (by omega)]
    dsimp only
    rw [ih hrest, List.flatten_cons, List.drop_drop, @List.length_append _ xs,
      List.append_assoc done]

end Cursor
