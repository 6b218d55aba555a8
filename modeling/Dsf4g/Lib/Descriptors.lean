import Mathlib.Logic.Function.Basic

/-!
# Who owns an open descriptor

A process holds a table of open descriptors, each with the number of the connection
behind it, and slots that remember a descriptor each. Number 0 stands for what was
open before the first connection. A slot closes what its field says, so the table
and the slots have to agree.
-/
namespace Descriptors

variable {Slot : Type}

/-- The descriptor fields of the slots, which slots are in use, and for which connection. -/
structure Slots (Slot : Type) where
  fd : Slot → Int
  taken : Slot → Prop
  conn : Slot → Nat

def booted (others : List Nat) (d : Int) : Option Nat :=
  if 0 ≤ d ∧ d.toNat ∈ others then some 0 else none

/-- A slot in use has a negative field, or the descriptor of its connection; every connection that
is still open has a slot. -/
structure Owned (conns : Int → Option Nat) (opened : Nat) (s : Slots Slot) : Prop where
  natural : ∀ d c, conns d = some c → 0 ≤ d
  fresh : ∀ pos, s.taken pos → s.conn pos < opened
  distinct : ∀ i j, s.taken i → s.taken j → s.conn i = s.conn j → i = j
  own : ∀ pos, s.taken pos → s.fd pos < 0 ∨ conns (s.fd pos) = some (s.conn pos)
  owner : ∀ d c, conns d = some c → c ≠ 0 → ∃ pos, s.taken pos ∧ s.fd pos = d
  real : ∀ pos, s.taken pos → s.conn pos ≠ 0

variable {conns : Int → Option Nat} {opened : Nat} {s t : Slots Slot}

/-- Nothing but the fields of slots in use counts. -/
theorem Owned.congr (h : Owned conns opened s) (htaken : ∀ pos, t.taken pos ↔ s.taken pos)
    (hfd : ∀ pos, s.taken pos → t.fd pos = s.fd pos)
    (hconn : ∀ pos, s.taken pos → t.conn pos = s.conn pos) : Owned conns opened t := by
  refine ⟨h.natural, fun pos ht => ?_, fun i j hi hj hij => ?_, fun pos ht => ?_, fun d c hc hne => ?_,
    fun pos ht => ?_⟩
  · rw [hconn pos ((htaken pos).mp ht)]
    exact h.fresh pos ((htaken pos).mp ht)
  · rw [hconn i ((htaken i).mp hi), hconn j ((htaken j).mp hj)] at hij
    exact h.distinct i j ((htaken i).mp hi) ((htaken j).mp hj) hij
  · rw [hfd pos ((htaken pos).mp ht), hconn pos ((htaken pos).mp ht)]
    exact h.own pos ((htaken pos).mp ht)
  · obtain ⟨pos, ht, hd⟩ := h.owner d c hc hne
    exact ⟨pos, (htaken pos).mpr ht, (hfd pos ht).trans hd⟩
  · rw [hconn pos ((htaken pos).mp ht)]
    exact h.real pos ((htaken pos).mp ht)

/-- Closing through a slot in use closes its own connection. -/
theorem Owned.closes (h : Owned conns opened s) {pos : Slot} (ht : s.taken pos) {c : Nat}
    (hc : conns (s.fd pos) = some c) : c = s.conn pos := by
  obtain hneg | hown := h.own pos ht
  · exact absurd (h.natural _ _ hc) (Int.not_le.mpr hneg)
  · exact Option.some.inj (hc.symm.trans hown)

/-- An open descriptor is in the field of one slot in use only. -/
theorem Owned.unique (h : Owned conns opened s) {i j : Slot} (hi : s.taken i) (hj : s.taken j)
    (hij : s.fd i = s.fd j) {c : Nat} (hc : conns (s.fd i) = some c) : i = j := by
  have hci := h.closes hi hc
  have hcj := h.closes hj (hij ▸ hc)
  exact h.distinct i j hi hj (hci.symm.trans hcj)

theorem booted_eq_some {others : List Nat} {d : Int} {c : Nat} (h : booted others d = some c) :
    0 ≤ d ∧ c = 0 := by
  rw [booted] at h
  split at h
  · next hd => exact ⟨hd.1, (Option.some.inj h).symm⟩
  · cases h

theorem booted_owned (others : List Nat) (h : ∀ pos, ¬ s.taken pos) :
    Owned (booted others) 1 s :=
  ⟨fun _ _ hc => (booted_eq_some hc).1, fun pos ht => absurd ht (h pos),
    fun i _ hi _ _ => absurd hi (h i), fun pos ht => absurd ht (h pos),
    fun _ _ hc hne => absurd (booted_eq_some hc).2 hne, fun pos ht => absurd ht (h pos)⟩

/-- A new connection takes a slot that is not in use, under a descriptor that was not open. -/
theorem Owned.accept (h : Owned conns opened s) (hpos : 0 < opened) {pos : Slot} (hfree : ¬ s.taken pos)
    {d : Int} (hd : 0 ≤ d) (hclosed : conns d = none)
    (htaken : ∀ i, t.taken i ↔ i = pos ∨ s.taken i) (hself : t.fd pos = d ∧ t.conn pos = opened)
    (hother : ∀ i, i ≠ pos → t.fd i = s.fd i ∧ t.conn i = s.conn i) :
    Owned (Function.update conns d (some opened)) (opened + 1) t := by
  have hne : ∀ i, s.taken i → i ≠ pos := by
    rintro i hi rfl
    exact hfree hi
  have hold : ∀ i, t.taken i → i ≠ pos → s.taken i := fun i hi hip => ((htaken i).mp hi).resolve_left hip
  constructor
  · intro e c hc
    by_cases he : e = d
    · rw [he]
      exact hd
    · rw [Function.update_of_ne he] at hc
      exact h.natural e c hc
  · intro i hi
    by_cases hip : i = pos
    · rw [hip, hself.2]
      exact Nat.lt_succ_self _
    · rw [(hother i hip).2]
      exact Nat.lt_succ_of_lt (h.fresh i (hold i hi hip))
  · intro i j hi hj hij
    by_cases hip : i = pos
    · by_cases hjp : j = pos
      · rw [hip, hjp]
      · rw [hip, hself.2, (hother j hjp).2] at hij
        exact absurd hij (Nat.ne_of_gt (h.fresh j (hold j hj hjp)))
    · by_cases hjp : j = pos
      · rw [hjp, hself.2, (hother i hip).2] at hij
        exact absurd hij (Nat.ne_of_lt (h.fresh i (hold i hi hip)))
      · rw [(hother i hip).2, (hother j hjp).2] at hij
        exact h.distinct i j (hold i hi hip) (hold j hj hjp) hij
  · intro i hi
    by_cases hip : i = pos
    · rw [hip, hself.1, hself.2, Function.update_self]
      exact .inr rfl
    · rw [(hother i hip).1, (hother i hip).2]
      refine (h.own i (hold i hi hip)).imp_right fun hown => ?_
      have hfd : s.fd i ≠ d := by
        intro he
        rw [he, hclosed] at hown
        cases hown
      rw [Function.update_of_ne hfd]
      exact hown
  · intro e c hc hne0
    by_cases he : e = d
    · exact ⟨pos, (htaken pos).mpr (.inl rfl), hself.1.trans he.symm⟩
    · rw [Function.update_of_ne he] at hc
      obtain ⟨i, hi, hfd⟩ := h.owner e c hc hne0
      exact ⟨i, (htaken i).mpr (.inr hi), ((hother i (hne i hi)).1).trans hfd⟩
  · intro i hi
    by_cases hip : i = pos
    · rw [hip, hself.2]
      exact Nat.ne_of_gt hpos
    · rw [(hother i hip).2]
      exact h.real i (hold i hi hip)

/-- The table without the descriptor of a slot in use. -/
theorem Owned.close (h : Owned conns opened s) {pos : Slot} (ht : s.taken pos)
    (htaken : ∀ i, t.taken i → s.taken i ∧ (i = pos → t.fd i < 0))
    (hkept : ∀ i, i ≠ pos → s.taken i → t.taken i)
    (hother : ∀ i, i ≠ pos → t.fd i = s.fd i) (hconn : ∀ i, t.conn i = s.conn i) :
    Owned (Function.update conns (s.fd pos) none) opened t := by
  have hopen : ∀ d c, Function.update conns (s.fd pos) none d = some c →
      d ≠ s.fd pos ∧ conns d = some c := by
    intro d c hc
    by_cases hd : d = s.fd pos
    · rw [hd, Function.update_self] at hc
      cases hc
    · rw [Function.update_of_ne hd] at hc
      exact ⟨hd, hc⟩
  constructor
  · exact fun d c hc => h.natural d c (hopen d c hc).2
  · intro i hi
    rw [hconn]
    exact h.fresh i (htaken i hi).1
  · intro i j hi hj hij
    rw [hconn, hconn] at hij
    exact h.distinct i j (htaken i hi).1 (htaken j hj).1 hij
  · intro i hi
    by_cases hip : i = pos
    · exact .inl ((htaken i hi).2 hip)
    · rw [hother i hip, hconn]
      refine (h.own i (htaken i hi).1).imp_right fun hown => ?_
      have hfd : s.fd i ≠ s.fd pos := fun he => hip (h.unique (htaken i hi).1 ht he hown)
      rw [Function.update_of_ne hfd]
      exact hown
  · intro d c hc hne0
    obtain ⟨hd, hc⟩ := hopen d c hc
    obtain ⟨i, hi, hfd⟩ := h.owner d c hc hne0
    have hip : i ≠ pos := by
      rintro rfl
      exact hd hfd.symm
    exact ⟨i, hkept i hip hi, (hother i hip).trans hfd⟩
  · intro i hi
    rw [hconn]
    exact h.real i (htaken i hi).1

end Descriptors
