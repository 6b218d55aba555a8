import Mathlib.Algebra.GroupWithZero.Nat
import Mathlib.Data.List.Basic

/-!
# Bounded FIFO queues

Items have a cost; the queue admits an item while the total cost stays below the
size. A reader offers a limit, and an oldest item longer than the limit stays
queued. Refused operations return nothing, so they cannot have an effect.
-/

/-- The queued items, oldest first, and the size they share. -/
structure Fifo (α : Type) where
  size : Nat
  items : List α
  deriving DecidableEq, Repr

namespace Fifo

variable {α : Type} (cost : α → Nat)

def occupancy (q : Fifo α) : Nat := (q.items.map cost).sum

/-- One cell always stays free, so the total cost is at most `size - 1`. -/
def append (q : Fifo α) (a : α) : Option (Fifo α) :=
  if q.occupancy cost + cost a ≤ q.size - 1 then some { q with items := q.items ++ [a] }
  else none

/-- Take the oldest item when its length is within the reader's limit. -/
def get (length : α → Nat) (q : Fifo α) (limit : Nat) : Option (α × Fifo α) :=
  match q.items with
  | [] => none
  | a :: rest => if length a ≤ limit then some (a, { q with items := rest }) else none

theorem append_eq_some {q q' : Fifo α} {a : α} (h : q.append cost a = some q') :
    q' = { q with items := q.items ++ [a] } ∧ q.occupancy cost + cost a ≤ q.size - 1 := by
  unfold append at h
  split at h
  · exact ⟨(Option.some.inj h).symm, by assumption⟩
  · cases h

theorem append_eq_none {q : Fifo α} {a : α} :
    q.append cost a = none ↔ ¬ q.occupancy cost + cost a ≤ q.size - 1 := by
  unfold append
  split <;> simp_all

theorem get_eq_some {length : α → Nat} {q q' : Fifo α} {limit : Nat} {a : α}
    (h : q.get length limit = some (a, q')) :
    ∃ rest, q.items = a :: rest ∧ q' = { q with items := rest } := by
  unfold get at h
  split at h
  · cases h
  · rename_i b rest hq
    split at h
    · cases h
      exact ⟨rest, hq, rfl⟩
    · cases h

/-- What is taken is within the limit. -/
theorem get_le {length : α → Nat} {q q' : Fifo α} {limit : Nat} {a : α}
    (h : q.get length limit = some (a, q')) : length a ≤ limit := by
  unfold get at h
  split at h
  · cases h
  · split at h
    · next hle =>
      cases h
      exact hle
    · cases h

end Fifo
