import Dsf4g.Lib.Trace
import Dsf4g.SendBuffer

/-!
# The link from a logic server to the proxy

`core/center_mng.cpp`. One `CenterMng` with the kernel it runs on. The results of
`connect`, of the registration message and of `recv` are arguments; those of `send`
are the kernel's. `submitted` and `dropped` are not members of the class: they
record the frames given to `SendOneData` and the bytes that resets threw away.
-/
namespace CenterMng

open Base Sockets SendBuffer

structure Mng where
  kernel : Kernel
  ep : Endpoint
  submitted : List (List UInt8)
  dropped : List UInt8

/-- `Init` sets both offsets and leaves `_fd` as it is. -/
def init (answer : Nat → SendAnswer) (fd : Int) : Mng :=
  ⟨Kernel.start answer, ⟨fd, [], SendBuf.empty⟩, [], []⟩

/-- `Connect` up to `_fd = fd`; a failed call changes nothing. -/
inductive ConnectResult where
  | failed
  | ok (fd : Nat)
  deriving DecidableEq, Repr

def connect (m : Mng) (fd : Int) : Mng :=
  { m with kernel := m.kernel.bind fd, ep := { m.ep with fd := fd } }

def flushed (m : Mng) : Mng :=
  { m with kernel := (sendBufData m.kernel m.ep).kernel, ep := (sendBufData m.kernel m.ep).ep }

/-- `CheckConnect`. `registered` is the result of `Register`; a connection whose
registration failed stays in `_fd`. The wires start behind the registration message. -/
def checkConnect (m : Mng) (c : ConnectResult) (registered : Bool) : Mng :=
  if m.ep.fd ≠ sockClosed then m
  else
    match c with
    | .failed => m
    | .ok fd => if registered then flushed (connect m fd) else connect m fd

def sendOneData (m : Mng) (f : Packet) : Mng :=
  let s := SendBuffer.sendOneData m.kernel m.ep f
  ⟨s.kernel, s.ep, m.submitted ++ [f.val], m.dropped ++ s.dropped⟩

def disconnect (m : Mng) : Mng :=
  { m with kernel := (shut m.kernel m.ep).kernel, ep := (shut m.kernel m.ep).ep }

/-- The loop of `RecvData` over the results of `recv`; `recv` returns at most as many bytes as
the buffer has room for. -/
def recvData (m : Mng) : List RecvAnswer → Mng
  | [] => m
  | r :: rs =>
    if m.ep.recvBuf.length = recvBufLen then m
    else
      match r with
      | .data [] => disconnect m
      | .data (b :: bs) =>
        let bytes := (b :: bs).take (recvBufLen - m.ep.recvBuf.length)
        recvData { m with ep := { m.ep with recvBuf := m.ep.recvBuf ++ bytes } } rs
      | .again => m
      | .fatal => disconnect m

/-- What `GetOneData` leaves, and the frame it copied out when it returned true. -/
structure Got where
  mng : Mng
  data : Option (List UInt8)

def getOneData (m : Mng) (bufLen : Nat) : Got :=
  if m.ep.recvBuf.length ≤ 4 then ⟨m, none⟩
  else
    let len := Bytes.ofLe (m.ep.recvBuf.take 4)
    if len > m.ep.recvBuf.length then ⟨m, none⟩
    else if len > bufLen then ⟨disconnect m, none⟩
    else
      ⟨{ m with ep := { m.ep with recvBuf := m.ep.recvBuf.drop len } }, m.ep.recvBuf.take len⟩

inductive Op where
  | checkConnect (c : ConnectResult) (registered : Bool)
  | sendOneData (f : Packet)
  | recvData (rs : List RecvAnswer)
  | getOneData (bufLen : Nat)

def step (m : Mng) : Op → Mng
  | .checkConnect c registered => checkConnect m c registered
  | .sendOneData f => sendOneData m f
  | .recvData rs => recvData m rs
  | .getOneData n => (getOneData m n).mng

def run (m : Mng) : List Op → Mng
  | [] => m
  | op :: ops => run (step m op) ops

/-- The single receiver is the proxy at the other end. -/
def observed (m : Mng) : Ledger.Observed Unit where
  submitted := fun _ => m.submitted
  wire := m.kernel.wire
  buffer := fun _ => m.ep.sendBuf.val
  dropped := fun _ => m.dropped
  current := fun _ => m.kernel.conns m.ep.fd

/-- The kernel never takes part of what it is offered, and a ledger matches. -/
structure Inv (m : Mng) : Prop where
  whole : m.kernel.Whole
  ledger : ∃ l : Ledger, Ledger.Books m.kernel.wire (fun _ => ()) (fun _ => l) ∧
    m.submitted = l.frames ∧ m.dropped = l.discarded ∧ l.waiting.flatten = m.ep.sendBuf.val

theorem init_inv {answer : Nat → SendAnswer} (h : ∀ i n, answer i ≠ .part n) (fd : Int) :
    Inv (init answer fd) :=
  ⟨h, Ledger.empty, Ledger.Books.init _, rfl, rfl, rfl⟩

/-- Only the wires, the records and the send buffer matter. -/
theorem Inv.congr {m m' : Mng} (h : Inv m) (ha : m'.kernel.answer = m.kernel.answer)
    (hw : m'.kernel.wire = m.kernel.wire) (hs : m'.submitted = m.submitted)
    (hd : m'.dropped = m.dropped) (hb : m'.ep.sendBuf = m.ep.sendBuf) : Inv m' := by
  constructor
  · intro i n
    rw [ha]
    exact h.whole i n
  · rw [hw, hs, hd, hb]
    exact h.ledger

theorem connect_inv {m : Mng} (h : Inv m) (fd : Int) : Inv (connect m fd) :=
  h.congr rfl rfl rfl rfl rfl

theorem disconnect_inv {m : Mng} (h : Inv m) : Inv (disconnect m) :=
  h.congr rfl rfl rfl rfl rfl

/-- A ledger for the one receiver, out of a ledger update. -/
theorem update_unit (l l' : Ledger) :
    Function.update (fun _ : Unit => l) () l' = fun _ => l' := by
  funext u
  cases u
  exact Function.update_self ..

theorem flushed_inv {m : Mng} (h : Inv m) : Inv (flushed m) := by
  obtain ⟨l, hb, hs, hd, hw⟩ := h.ledger
  obtain ⟨l', hb', hf', hd', hw'⟩ := sendBufData_posted h.whole hb
    (fun _ _ => Eq.refl ()) hw
  have hdrop : (sendBufData m.kernel m.ep).dropped = [] := sendBufData_dropped m.kernel m.ep
  refine ⟨(later_sendBufData m.kernel m.ep).whole h.whole, l', ?_, ?_, ?_, hw'⟩
  · rw [update_unit] at hb'
    exact hb'
  · rw [hf', List.append_nil]
    exact hs
  · rw [hd', hdrop, List.append_nil]
    exact hd

theorem checkConnect_inv {m : Mng} (h : Inv m) (c : ConnectResult) (registered : Bool) :
    Inv (checkConnect m c registered) := by
  unfold checkConnect
  split
  · exact h
  · cases c with
    | failed => exact h
    | ok fd =>
      cases registered with
      | false => exact connect_inv h fd
      | true => exact flushed_inv (connect_inv h fd)

/-- While the kernel takes all of what it is offered, or nothing, the ledger stays right. -/
theorem sendOneData_inv {m : Mng} (h : Inv m) (f : Packet) : Inv (sendOneData m f) := by
  obtain ⟨l, hb, hs, hd, hw⟩ := h.ledger
  obtain ⟨l', hb', hf', hd', hw'⟩ := sendOneData_posted h.whole hb
    (fun _ _ _ => Eq.refl ()) hw f
  refine ⟨(later_sendOneData m.kernel m.ep f).whole h.whole, l', ?_, ?_, ?_, hw'⟩
  · rw [update_unit] at hb'
    exact hb'
  · rw [hf', ← hs]
    rfl
  · rw [hd', ← hd]
    rfl

theorem recvData_inv {m : Mng} (h : Inv m) (rs : List RecvAnswer) : Inv (recvData m rs) := by
  induction rs generalizing m with
  | nil => exact h
  | cons r rs ih =>
    unfold recvData
    split
    · exact h
    · cases r with
      | data bytes =>
        cases bytes with
        | nil => exact disconnect_inv h
        | cons b bs => exact ih (h.congr rfl rfl rfl rfl rfl)
      | again => exact h
      | fatal => exact disconnect_inv h

theorem getOneData_inv {m : Mng} (h : Inv m) (n : Nat) :
    Inv (getOneData m n).mng := by
  unfold getOneData
  dsimp only
  split
  · exact h
  · split
    · exact h
    · split
      · exact disconnect_inv h
      · exact h.congr rfl rfl rfl rfl rfl

theorem step_inv {m : Mng} (h : Inv m) (op : Op) : Inv (step m op) := by
  cases op with
  | checkConnect c registered => exact checkConnect_inv h c registered
  | sendOneData f => exact sendOneData_inv h f
  | recvData rs => exact recvData_inv h rs
  | getOneData n => exact getOneData_inv h n

/-- By induction on the operations. -/
theorem run_inv {m : Mng} (h : Inv m) (ops : List Op) : Inv (run m ops) := by
  induction ops generalizing m with
  | nil => exact h
  | cons op ops ih => exact ih (step_inv h op)

/-- A matching ledger says that the wires carry whole frames. -/
theorem Inv.wholeFrames {m : Mng} (h : Inv m) : (observed m).WholeFrames := by
  obtain ⟨l, hb, hs, hd, hw⟩ := h.ledger
  exact Ledger.Observed.wholeFrames_of_books (o := observed m) hb (fun _ => hs)
    (fun _ => hw.symm) (fun _ => hd)

end CenterMng
