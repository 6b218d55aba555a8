import Mathlib.Algebra.Group.Nat.Defs
import Mathlib.Data.List.Basic

/-!
# Optional varint fields

Numbers in base 128, lowest digits first, and messages of optional numbers, each
behind the tag of its field. A reader goes through the fields in the order in which
they were written.
-/
namespace Wire

/-- A number in at most `w` bytes; every byte but the last has its high bit set. -/
def put : Nat → Nat → List UInt8
  | 0, _ => []
  | w + 1, n =>
    if n < 128 then [UInt8.ofNat n] else UInt8.ofNat (n % 128 + 128) :: put w (n / 128)

/-- The number at the front, and the bytes behind it. -/
def get : List UInt8 → Option (Nat × List UInt8)
  | [] => none
  | b :: bs =>
    if b.toNat < 128 then some (b.toNat, bs)
    else (get bs).map fun r => (b.toNat - 128 + 128 * r.1, r.2)

def putField (w : Nat) (tag : UInt8) : Option Nat → List UInt8
  | none => []
  | some n => tag :: put w n

/-- The field of a tag, if it is at the front. -/
def getField (tag : UInt8) : List UInt8 → Option (Option Nat × List UInt8)
  | [] => some (none, [])
  | b :: bs => if b = tag then (get bs).map fun r => (some r.1, r.2) else some (none, b :: bs)

theorem get_put {w n : Nat} (h : n < 128 ^ (w + 1)) (rest : List UInt8) :
    get (put (w + 1) n ++ rest) = some (n, rest) := by
  induction w generalizing n with
  | zero =>
    have hlt : n < 128 := by omega
    have hbyte : (UInt8.ofNat n).toNat = n := by rw [UInt8.toNat_ofNat']; omega
    simp only [put, if_pos hlt, List.cons_append, List.nil_append, get, hbyte]
  | succ w ih =>
    rw [put]
    split
    · next hlt =>
      have hbyte : (UInt8.ofNat n).toNat = n := by rw [UInt8.toNat_ofNat']; omega
      simp only [List.cons_append, List.nil_append, get, hbyte, if_pos hlt]
    · have hbyte : (UInt8.ofNat (n % 128 + 128)).toNat = n % 128 + 128 := by
        rw [UInt8.toNat_ofNat']; omega
      have hrest : n / 128 < 128 ^ (w + 1) := by
        rw [Nat.div_lt_iff_lt_mul (by decide), ← Nat.pow_succ]
        exact h
      rw [List.cons_append, get, hbyte, if_neg (by omega), ih hrest, Option.map_some]
      congr 2
      omega

theorem put_length (w n : Nat) : (put w n).length ≤ w := by
  induction w generalizing n with
  | zero => exact Nat.le_refl 0
  | succ w ih =>
    rw [put]
    split
    · exact Nat.succ_le_succ (Nat.zero_le w)
    · exact Nat.succ_le_succ (ih _)

theorem putField_length (w : Nat) (tag : UInt8) (v : Option Nat) :
    (putField w tag v).length ≤ w + 1 := by
  cases v with
  | none => exact Nat.zero_le _
  | some n => exact Nat.succ_le_succ (put_length w n)

/-- Another field does not start with the tag. -/
theorem putField_head {tag tag' : UInt8} (h : tag' ≠ tag) {rest : List UInt8}
    (hr : rest.head? ≠ some tag) (w : Nat) (v : Option Nat) :
    (putField w tag' v ++ rest).head? ≠ some tag := by
  cases v with
  | none => exact hr
  | some n => exact fun he => h (Option.some.inj he)

theorem getField_putField {w : Nat} {tag : UInt8} {v : Option Nat}
    (h : ∀ n ∈ v, n < 128 ^ (w + 1)) {rest : List UInt8} (hr : rest.head? ≠ some tag) :
    getField tag (putField (w + 1) tag v ++ rest) = some (v, rest) := by
  cases v with
  | none =>
    cases rest with
    | nil => rfl
    | cons b bs =>
      have hne : b ≠ tag := fun he => hr (congrArg some he)
      rw [putField, List.nil_append, getField, if_neg hne]
  | some n =>
    rw [putField, List.cons_append, getField, if_pos rfl, get_put (h n rfl)]
    rfl

end Wire
