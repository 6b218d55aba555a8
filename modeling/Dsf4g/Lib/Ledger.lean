import Mathlib.Data.List.Basic
import Mathlib.Logic.Function.Basic

/-!
# What becomes of submitted frames

A ledger lists the frames submitted to one receiver in the order of submission: a
settled part, in which every frame is written on a connection or discarded, and
the frames that still wait.
-/

inductive Fate where
  | written (conn : Nat)
  | discarded
  deriving DecidableEq, Repr

structure Entry where
  frame : List UInt8
  fate : Fate

structure Ledger where
  settled : List Entry
  waiting : List (List UInt8)

namespace Ledger

def empty : Ledger := ⟨[], []⟩

def frames (l : Ledger) : List (List UInt8) := l.settled.map Entry.frame ++ l.waiting

def bytesOf (f : Fate) (es : List Entry) : List UInt8 :=
  ((es.filter fun e => e.fate = f).map Entry.frame).flatten

def written (l : Ledger) (c : Nat) : List UInt8 := bytesOf (.written c) l.settled

def discarded (l : Ledger) : List UInt8 := bytesOf .discarded l.settled

def settle (l : Ledger) (f : Fate) : Ledger := ⟨l.settled ++ l.waiting.map (⟨·, f⟩), []⟩

def submit (l : Ledger) (frame : List UInt8) : Ledger := ⟨l.settled, l.waiting ++ [frame]⟩

theorem bytesOf_append (f : Fate) (es es' : List Entry) :
    bytesOf f (es ++ es') = bytesOf f es ++ bytesOf f es' := by
  simp [bytesOf]

theorem bytesOf_map (f g : Fate) (w : List (List UInt8)) :
    bytesOf f (w.map (⟨·, g⟩)) = if g = f then w.flatten else [] := by
  by_cases h : g = f
  · simp [bytesOf, h, List.filter_map, Function.comp_def]
  · simp [bytesOf, h, List.filter_map, Function.comp_def]

@[simp] theorem empty_frames : empty.frames = [] := rfl
@[simp] theorem empty_waiting : empty.waiting = [] := rfl
@[simp] theorem empty_written (c : Nat) : empty.written c = [] := rfl
@[simp] theorem empty_discarded : empty.discarded = [] := rfl

@[simp] theorem settle_frames (l : Ledger) (f : Fate) : (l.settle f).frames = l.frames := by
  simp [settle, frames, Function.comp_def]
@[simp] theorem settle_waiting (l : Ledger) (f : Fate) : (l.settle f).waiting = [] := rfl

@[simp] theorem submit_frames (l : Ledger) (frame : List UInt8) :
    (l.submit frame).frames = l.frames ++ [frame] := by simp [submit, frames]
@[simp] theorem submit_waiting (l : Ledger) (frame : List UInt8) :
    (l.submit frame).waiting = l.waiting ++ [frame] := rfl
@[simp] theorem submit_written (l : Ledger) (frame : List UInt8) (c : Nat) :
    (l.submit frame).written c = l.written c := rfl
@[simp] theorem submit_discarded (l : Ledger) (frame : List UInt8) :
    (l.submit frame).discarded = l.discarded := rfl

@[simp] theorem settle_written_self (l : Ledger) (c : Nat) :
    (l.settle (.written c)).written c = l.written c ++ l.waiting.flatten := by
  simp [settle, written, bytesOf_append, bytesOf_map]
theorem settle_written_of_ne (l : Ledger) {f : Fate} {c : Nat} (h : f ≠ .written c) :
    (l.settle f).written c = l.written c := by
  simp [settle, written, bytesOf_append, bytesOf_map, h]
@[simp] theorem settle_written_discarded (l : Ledger) (c : Nat) :
    (l.settle (.written c)).discarded = l.discarded := by
  simp [settle, discarded, bytesOf_append, bytesOf_map]
@[simp] theorem settle_discarded_self (l : Ledger) :
    (l.settle .discarded).discarded = l.discarded ++ l.waiting.flatten := by
  simp [settle, discarded, bytesOf_append, bytesOf_map]

/-- The ledgers of all receivers against the wires: `own c` is the receiver that
connection `c` leads to. -/
structure Books {κ : Type} (wire : Nat → List UInt8) (own : Nat → κ) (led : κ → Ledger) :
    Prop where
  wire : ∀ c, wire c = (led (own c)).written c
  foreign : ∀ c k, k ≠ own c → (led k).written c = []

section Books

variable {κ : Type} {wire : Nat → List UInt8} {own : Nat → κ} {led : κ → Ledger}

theorem Books.init (own : Nat → κ) : Books (fun _ => []) own (fun _ => empty) :=
  ⟨fun _ => rfl, fun _ _ _ => rfl⟩

variable [DecidableEq κ]

/-- What a new ledger of one receiver has as before is as before for all. -/
theorem update_keeps {β : Type} (g : Ledger → β) {k : κ} {l : Ledger} (h : g l = g (led k))
    (k' : κ) : g (Function.update led k l k') = g (led k') := by
  by_cases hk : k' = k
  · subst hk
    rw [Function.update_self, h]
  · rw [Function.update_of_ne hk]

/-- The waiting frames of a receiver are written on a connection that leads to it. -/
theorem Books.flush (h : Books wire own led) {k : κ} {c : Nat} (hc : own c = k) :
    Books (Function.update wire c (wire c ++ (led k).waiting.flatten)) own
      (Function.update led k ((led k).settle (.written c))) := by
  subst hc
  constructor
  · intro d
    by_cases hd : d = c
    · subst hd
      simp [h.wire]
    · rw [Function.update_of_ne hd, h.wire]
      by_cases ho : own d = own c
      · rw [ho, Function.update_self, settle_written_of_ne _ (by simp [Ne.symm hd])]
      · rw [Function.update_of_ne ho]
  · intro d k' hk'
    by_cases hk : k' = own c
    · subst hk
      have hd : d ≠ c := fun e => hk' (by rw [e])
      rw [Function.update_self, settle_written_of_ne _ (by simp [Ne.symm hd])]
      exact h.foreign d _ hk'
    · rw [Function.update_of_ne hk]
      exact h.foreign d k' hk'

/-- A change of one receiver's ledger that writes nothing. -/
theorem Books.replace (h : Books wire own led) {k : κ} {l : Ledger}
    (hl : ∀ c, l.written c = (led k).written c) : Books wire own (Function.update led k l) := by
  have hw : ∀ k' c, (Function.update led k l k').written c = (led k').written c :=
    fun k' c => update_keeps (fun l => l.written c) (hl c) k'
  exact ⟨fun c => by rw [hw, h.wire], fun c k' hk => by rw [hw, h.foreign c k' hk]⟩

theorem Books.submit (h : Books wire own led) (k : κ) (frame : List UInt8) :
    Books wire own (Function.update led k ((led k).submit frame)) :=
  h.replace fun _ => rfl

theorem Books.discard (h : Books wire own led) (k : κ) :
    Books wire own (Function.update led k ((led k).settle .discarded)) :=
  h.replace fun _ => settle_written_of_ne _ (by simp)

/-- A connection on which nothing was written may be given to any receiver. -/
theorem Books.give (h : Books wire own led) {c : Nat} (hc : wire c = []) (k : κ) :
    Books wire (Function.update own c k) led := by
  have hall : ∀ k', (led k').written c = [] := by
    intro k'
    by_cases hk : k' = own c
    · rw [hk, ← h.wire, hc]
    · exact h.foreign c k' hk
  constructor
  · intro d
    by_cases hd : d = c
    · subst hd
      rw [hc, hall]
    · rw [Function.update_of_ne hd, h.wire]
  · intro d k' hk'
    by_cases hd : d = c
    · subst hd
      exact hall k'
    · rw [Function.update_of_ne hd] at hk'
      exact h.foreign d k' hk'

end Books

/-- What an observer sees of the senders. -/
structure Observed (κ : Type) where
  /-- Frames submitted to each receiver. -/
  submitted : κ → List (List UInt8)
  wire : Nat → List UInt8
  /-- Bytes the sender still holds for each receiver. -/
  buffer : κ → List UInt8
  /-- Bytes that overflow resets threw away. -/
  dropped : κ → List UInt8
  /-- The connection in use towards each receiver. -/
  current : κ → Option Nat

/-- Every wire carries whole frames of one receiver, in the order of submission and each at
most once, then perhaps a proper part of the next frame, whose rest is what the buffer starts
with; a submitted frame is written, waits in the buffer, or was dropped by a reset. -/
def Observed.WholeFrames {κ : Type} (o : Observed κ) : Prop :=
  ∃ (led : κ → Ledger) (own : Nat → κ) (part : Nat → List UInt8),
    (∀ k, o.submitted k = (led k).frames) ∧
    (∀ c, o.wire c = (led (own c)).written c ++ part c) ∧
    (∀ c k, k ≠ own c → (led k).written c = []) ∧
    (∀ c, part c ≠ [] → ∃ f rest, (led (own c)).waiting = f :: rest ∧ part c <+: f ∧ part c ≠ f) ∧
    (∀ k, ((o.current k).map part).getD [] ++ o.buffer k = (led k).waiting.flatten) ∧
    (∀ k, o.dropped k = (led k).discarded)

/-- Ledgers that match the wires exactly are enough. -/
theorem Observed.wholeFrames_of_books {κ : Type} {o : Observed κ} {own : Nat → κ}
    {led : κ → Ledger} (h : Books o.wire own led) (hs : ∀ k, o.submitted k = (led k).frames)
    (hb : ∀ k, o.buffer k = (led k).waiting.flatten) (hd : ∀ k, o.dropped k = (led k).discarded) :
    o.WholeFrames := by
  refine ⟨led, own, fun _ => [], hs, fun c => ?_, h.foreign, fun c hc => absurd rfl hc,
    fun k => ?_, hd⟩
  · rw [List.append_nil, h.wire]
  · rw [hb]
    cases o.current k <;> rfl

end Ledger
