import Dsf4g.Lib.Quoted

/-!
# Escaped values

A value of any bytes is written between quotes with a backslash before the bytes that
would end the literal, end the text, or be read as something else.
-/
namespace Quoted

/-- What `mysql_escape_string` writes for a byte. -/
def escapeByte (b : UInt8) : List UInt8 :=
  if b = 0 then [backslash, 0x30]
  else if b = 0x0a then [backslash, 0x6e]
  else if b = 0x0d then [backslash, 0x72]
  else if b = 0x1a then [backslash, 0x5a]
  else if b = quote ∨ b = backslash ∨ b = 0x22 then [backslash, b]
  else [b]

def escape : List UInt8 → List UInt8
  | [] => []
  | b :: bs => escapeByte b ++ escape bs

@[simp] theorem escape_nil : escape [] = [] := rfl

@[simp] theorem escape_cons (b : UInt8) (bs : List UInt8) :
    escape (b :: bs) = escapeByte b ++ escape bs := rfl

/-- A byte is written as itself, or as a backslash and a byte that is read as it. -/
theorem escapeByte_cases (b : UInt8) :
    (escapeByte b = [b] ∧ b ≠ quote ∧ b ≠ backslash ∧ b ≠ 0) ∨
      ∃ c, escapeByte b = [backslash, c] ∧ unescape c = [b] ∧ c ≠ 0 := by
  unfold escapeByte
  split
  · next h => exact .inr ⟨0x30, rfl, h ▸ rfl, by decide⟩
  split
  · next h => exact .inr ⟨0x6e, rfl, h ▸ rfl, by decide⟩
  split
  · next h => exact .inr ⟨0x72, rfl, h ▸ rfl, by decide⟩
  split
  · next h => exact .inr ⟨0x5a, rfl, h ▸ rfl, by decide⟩
  split
  · next h0 _ _ _ h =>
    refine .inr ⟨b, rfl, ?_, h0⟩
    obtain rfl | rfl | rfl := h <;> rfl
  · next h0 _ _ _ h =>
    rw [not_or, not_or] at h
    exact .inl ⟨rfl, h.1, h.2.1, h0⟩

/-- A reader in a literal takes an escaped byte for the byte. -/
theorem readAt_escapeByte (b : UInt8) (v rest : List UInt8) :
    readAt (.inside v) (escapeByte b ++ rest) = readAt (.inside (v ++ [b])) rest := by
  obtain ⟨h, hquote, hback, -⟩ | ⟨c, h, hc, -⟩ := escapeByte_cases b
  · rw [h, List.cons_append, List.nil_append, readAt, if_neg hquote, if_neg hback]
  · have hne : backslash ≠ quote := by decide
    rw [h, List.cons_append, List.cons_append, List.nil_append, readAt, if_neg hne, if_pos rfl,
      readAt, hc]

theorem readAt_escape (s v rest : List UInt8) :
    readAt (.inside v) (escape s ++ rest) = readAt (.inside (v ++ s)) rest := by
  induction s generalizing v with
  | nil => rw [escape_nil, List.nil_append, List.append_nil]
  | cons b s ih =>
    rw [escape_cons, List.append_assoc, readAt_escapeByte, ih, List.append_assoc,
      List.singleton_append]

/-- Whatever the value, the statement that is meant is read. -/
theorem read_around_escape {pre post : List UInt8} (hpre : quote ∉ pre) (hpost : quote ∉ post)
    (s : List UInt8) : read (around pre (escape s) post) = some (meant pre s post) := by
  rw [read, around, List.append_assoc, readAt_code hpre, List.cons_append, readAt, if_pos rfl,
    readAt_escape, readAt, if_pos rfl, readAt_closing hpost, List.nil_append, Option.map_some, meant]

theorem zero_notMem_escape (s : List UInt8) : (0 : UInt8) ∉ escape s := by
  have hback : backslash ≠ 0 := by decide
  induction s with
  | nil => exact List.not_mem_nil
  | cons b s ih =>
    rw [escape_cons, List.mem_append, not_or]
    refine ⟨?_, ih⟩
    obtain ⟨h, -, -, hb⟩ | ⟨c, h, -, hc⟩ := escapeByte_cases b
    · rw [h, List.mem_singleton]
      exact Ne.symm hb
    · rw [h, List.mem_cons, List.mem_singleton, not_or]
      exact ⟨Ne.symm hback, Ne.symm hc⟩

/-- An escaped value takes at most two bytes for each of its own. -/
theorem escape_length_le (s : List UInt8) : (escape s).length ≤ 2 * s.length := by
  induction s with
  | nil => exact Nat.le_refl 0
  | cons b s ih =>
    have hb : (escapeByte b).length ≤ 2 := by
      obtain ⟨h, -⟩ | ⟨c, h, -⟩ := escapeByte_cases b
      · rw [h]
        exact Nat.le_succ 1
      · rw [h]
        exact Nat.le_refl 2
    rw [escape_cons, List.length_append, List.length_cons]
    omega

end Quoted
