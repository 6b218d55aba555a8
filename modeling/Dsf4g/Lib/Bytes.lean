import Mathlib.Algebra.Group.Nat.Defs
import Mathlib.Data.List.Basic

/-!
# Fixed-width integers as byte strings

`le w n` is the in-memory image of a `w`-byte unsigned integer on a
little-endian machine, `be w n` its network byte order. Decoding is total, so a
header can be read from any memory content.
-/
namespace Bytes

/-- The `w` low-order bytes of `n`, least significant first. -/
def le : Nat → Nat → List UInt8
  | 0, _ => []
  | w + 1, n => UInt8.ofNat n :: le w (n / 256)

def ofLe : List UInt8 → Nat
  | [] => 0
  | b :: bs => b.toNat + 256 * ofLe bs

def be (w n : Nat) : List UInt8 := (le w n).reverse

def ofBe (bs : List UInt8) : Nat := ofLe bs.reverse

@[simp] theorem le_length (w n : Nat) : (le w n).length = w := by
  induction w generalizing n with
  | zero => rfl
  | succ w ih => simp [le, ih]

/-- The bytes behind the first ones count for more. -/
theorem ofLe_append (xs ys : List UInt8) :
    ofLe (xs ++ ys) = ofLe xs + 256 ^ xs.length * ofLe ys := by
  induction xs with
  | nil => simp [ofLe]
  | cons x xs ih =>
    rw [List.cons_append, ofLe, ofLe, ih, List.length_cons, Nat.pow_succ', Nat.mul_add,
      Nat.mul_assoc, Nat.add_assoc]

theorem ofLe_take_le (bs : List UInt8) (n : Nat) : ofLe (bs.take n) ≤ ofLe bs := by
  have h := ofLe_append (bs.take n) (bs.drop n)
  rw [List.take_append_drop] at h
  omega

/-- Decoding recovers the value modulo the width. -/
theorem ofLe_le (w n : Nat) : ofLe (le w n) = n % 256 ^ w := by
  induction w generalizing n with
  | zero => simp [le, ofLe, Nat.mod_one]
  | succ w ih =>
    simp only [le, ofLe, ih, UInt8.toNat_ofNat']
    rw [show (2 : Nat) ^ 8 = 256 from rfl, Nat.pow_succ' (n := w), Nat.mod_mul]

theorem ofLe_le_of_lt {w n : Nat} (h : n < 256 ^ w) : ofLe (le w n) = n := by
  rw [ofLe_le, Nat.mod_eq_of_lt h]

theorem ofBe_be_of_lt {w n : Nat} (h : n < 256 ^ w) : ofBe (be w n) = n := by
  simp [ofBe, be, ofLe_le_of_lt h]

end Bytes
