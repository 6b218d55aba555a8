import Mathlib.Logic.Function.Basic

/-!
# Stream sockets, as a sender sees them

The kernel keeps a table from descriptors to connections and decides the result of
every `send`. Connections are numbered in the order in which they are opened.
-/
namespace Sockets

/-- Results of `send` on a non-blocking socket. `part n` takes the first `n` of the
bytes; `again` is `-1` with `EINTR`, `EAGAIN` or `EWOULDBLOCK`. -/
inductive SendAnswer where
  | all
  | part (n : Nat)
  | again
  | fatal
  deriving DecidableEq, Repr

/-- Results of `recv`: no bytes are the end of the stream. -/
inductive RecvAnswer where
  | data (bytes : List UInt8)
  | again
  | fatal
  deriving DecidableEq, Repr

structure Kernel where
  /-- The connection behind each open descriptor. -/
  conns : Int → Option Nat
  opened : Nat
  /-- What has been taken on each connection. -/
  wire : Nat → List UInt8
  /-- The result of the `i`-th `send`. -/
  answer : Nat → SendAnswer
  sends : Nat

def Kernel.start (answer : Nat → SendAnswer) : Kernel := ⟨fun _ => none, 0, fun _ => [], answer, 0⟩

/-- `accept` or `connect` binds a new connection to a descriptor. -/
def Kernel.bind (k : Kernel) (fd : Int) : Kernel :=
  { k with conns := Function.update k.conns fd (some k.opened), opened := k.opened + 1 }

def Kernel.close (k : Kernel) (fd : Int) : Kernel :=
  { k with conns := Function.update k.conns fd none }

/-- `ret ≥ 0`, or `-1` with the two kinds of `errno` the callers tell apart. -/
inductive Ret where
  | sent | again | fatal
  deriving DecidableEq, Repr

structure Reply where
  kernel : Kernel
  ret : Ret

def SendAnswer.taken : SendAnswer → List UInt8 → List UInt8
  | .all, bs => bs
  | .part n, bs => bs.take n
  | _, _ => []

def SendAnswer.ret : SendAnswer → Ret
  | .again => .again
  | .fatal => .fatal
  | _ => .sent

def Kernel.put (k : Kernel) (c : Nat) (bs : List UInt8) : Kernel :=
  { k with wire := Function.update k.wire c (k.wire c ++ bs), sends := k.sends + 1 }

/-- `send(fd, bs)`. A closed descriptor answers `EBADF`. -/
def Kernel.send (k : Kernel) (fd : Int) (bs : List UInt8) : Reply :=
  match k.conns fd with
  | none => ⟨k, .fatal⟩
  | some c => ⟨k.put c ((k.answer k.sends).taken bs), (k.answer k.sends).ret⟩

@[simp] theorem bind_wire (k : Kernel) (fd : Int) : (k.bind fd).wire = k.wire := rfl
theorem bind_conns_of_ne {k : Kernel} {fd fd' : Int} (h : fd' ≠ fd) :
    (k.bind fd).conns fd' = k.conns fd' := Function.update_of_ne h ..

@[simp] theorem bind_conns_self (k : Kernel) (fd : Int) :
    (k.bind fd).conns fd = some k.opened := Function.update_self ..

/-- Every `send` that takes bytes takes all of them. -/
def Kernel.Whole (k : Kernel) : Prop := ∀ i n, k.answer i ≠ .part n

/-- `k'` comes from `k` without a new descriptor staying open: descriptors were closed, and bytes
sent on connections that were open. -/
structure Kernel.Later (k k' : Kernel) : Prop where
  conns : ∀ fd c, k'.conns fd = some c → k.conns fd = some c
  wire : ∀ c, (∀ fd, k.conns fd ≠ some c) → k'.wire c = k.wire c
  opened : k.opened ≤ k'.opened
  answer : k'.answer = k.answer

theorem Kernel.Later.refl (k : Kernel) : k.Later k :=
  ⟨fun _ _ h => h, fun _ _ => rfl, Nat.le_refl _, rfl⟩

theorem Kernel.Later.trans {k₁ k₂ k₃ : Kernel} (h : k₁.Later k₂) (h' : k₂.Later k₃) :
    k₁.Later k₃ where
  conns fd c hc := h.conns fd c (h'.conns fd c hc)
  wire c hc := by
    rw [h'.wire c fun fd hfd => hc fd (h.conns fd c hfd), h.wire c hc]
  opened := Nat.le_trans h.opened h'.opened
  answer := h'.answer.trans h.answer

theorem Kernel.Later.whole {k k' : Kernel} (h : k.Later k') (hk : k.Whole) : k'.Whole := by
  intro i n
  rw [h.answer]
  exact hk i n

theorem close_conns {k : Kernel} {fd fd' : Int} {c : Nat} (h : (k.close fd).conns fd' = some c) :
    fd' ≠ fd ∧ k.conns fd' = some c := by
  by_cases hf : fd' = fd
  · subst hf
    simp [Kernel.close] at h
  · exact ⟨hf, by simpa [Kernel.close, hf] using h⟩

theorem later_close (k : Kernel) (fd : Int) : k.Later (k.close fd) :=
  ⟨fun _ _ h => (close_conns h).2, fun _ _ => rfl, Nat.le_refl _, rfl⟩

/-- A connection that is closed at once leaves no trace. -/
theorem later_bind_close (k : Kernel) (fd : Int) : k.Later ((k.bind fd).close fd) := by
  refine ⟨fun fd' c h => ?_, fun _ _ => rfl, Nat.le_succ _, rfl⟩
  obtain ⟨hne, hc⟩ := close_conns h
  rwa [bind_conns_of_ne hne] at hc

theorem later_send (k : Kernel) (fd : Int) (bs : List UInt8) : k.Later (k.send fd bs).kernel := by
  unfold Kernel.send
  split
  · exact Kernel.Later.refl k
  · next c hc =>
    refine ⟨fun _ _ h => h, fun d hd => ?_, Nat.le_refl _, rfl⟩
    have hne : d ≠ c := by
      rintro rfl
      exact hd fd hc
    exact Function.update_of_ne hne ..

/-- What a `send` takes, it takes from the bytes it is given, for the connection behind the
descriptor; when it fails it takes nothing. -/
theorem send_taken (k : Kernel) {fd : Int} {c : Nat} (hc : ∀ d, k.conns fd = some d → d = c)
    (bs : List UInt8) : ∃ out : List UInt8, out.Sublist bs ∧
      ((k.send fd bs).ret ≠ .sent → out = []) ∧
      (k.send fd bs).kernel.wire = Function.update k.wire c (k.wire c ++ out) := by
  unfold Kernel.send
  split
  · exact ⟨[], List.nil_sublist bs, fun _ => rfl, by rw [List.append_nil, Function.update_eq_self]⟩
  · next d hd =>
    obtain rfl := hc d hd
    refine ⟨(k.answer k.sends).taken bs, ?_, ?_, rfl⟩
    · cases k.answer k.sends with
      | all => exact List.Sublist.refl bs
      | part n => exact List.take_sublist n bs
      | again => exact List.nil_sublist bs
      | fatal => exact List.nil_sublist bs
    · intro hret
      cases ha : k.answer k.sends with
      | all => exact absurd (by rw [ha]; rfl) hret
      | part n => exact absurd (by rw [ha]; rfl) hret
      | again => rfl
      | fatal => rfl

/-- Without partial sends, a `send` either takes everything on the connection behind the
descriptor, or leaves every wire as it was. -/
theorem send_cases {k : Kernel} (hk : k.Whole) (fd : Int) (bs : List UInt8) :
    (∃ c, k.conns fd = some c ∧ (k.send fd bs).ret = .sent ∧
      (k.send fd bs).kernel.wire = Function.update k.wire c (k.wire c ++ bs)) ∨
    ((k.send fd bs).ret ≠ .sent ∧ (k.send fd bs).kernel.wire = k.wire) := by
  unfold Kernel.send
  split
  · exact .inr ⟨by simp, rfl⟩
  · next c hc =>
    cases ha : k.answer k.sends with
    | all => exact .inl ⟨c, hc, rfl, rfl⟩
    | part n => exact absurd ha (hk _ n)
    | again => exact .inr ⟨by simp [SendAnswer.ret], by simp [Kernel.put, SendAnswer.taken]⟩
    | fatal => exact .inr ⟨by simp [SendAnswer.ret], by simp [Kernel.put, SendAnswer.taken]⟩

/-- Every `send` takes everything or answers `EAGAIN`. -/
def Kernel.Steady (k : Kernel) : Prop := ∀ i, k.answer i = .all ∨ k.answer i = .again

theorem send_steady {k : Kernel} {c : Nat} (hk : k.Steady) {fd : Int} (hc : k.conns fd = some c) (bs : List UInt8) :
    ((k.send fd bs).ret = .sent ∧ (k.send fd bs).kernel = k.put c bs) ∨
    ((k.send fd bs).ret = .again ∧ (k.send fd bs).kernel = k.put c []) := by
  unfold Kernel.send
  rw [hc]
  dsimp only
  obtain h | h := hk k.sends
  · rw [h]
    exact .inl ⟨rfl, rfl⟩
  · rw [h]
    exact .inr ⟨rfl, rfl⟩

theorem put_wire_of_ne {k : Kernel} {c d : Nat} (hd : d ≠ c) (bs : List UInt8) : (k.put c bs).wire d = k.wire d :=
  Function.update_of_ne hd ..

@[simp] theorem put_wire_self (k : Kernel) (c : Nat) (bs : List UInt8) : (k.put c bs).wire c = k.wire c ++ bs :=
  Function.update_self ..

end Sockets
