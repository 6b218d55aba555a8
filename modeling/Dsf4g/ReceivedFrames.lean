import Dsf4g.CenterDrain
import Dsf4g.Lib.Framing
import Dsf4g.Lib.Trace

/-!
# What a closed connection takes with it

`RecvData`, `SendBufData` and `SendOneData` of `core/center_mng.cpp` set
`_recv_offset` to 0 when they close the connection, and `RecvData` reads until the
socket is empty or closed before `GetOneData` sees any of it. A `Link` is a
`CenterMng` with the frames that the other end of its connection sends.
-/
namespace ReceivedFrames

open Base Sockets SendBuffer CenterMng

/-! ## Frames -/

/-- A frame that `Server::GetCenterMessage` can take: `GetOneData` waits for more than the length
word, and `_center_buf` has `CENTER_BUF_LEN` bytes. -/
structure WellFormed (f : List UInt8) : Prop where
  headed : 4 < f.length
  fits : f.length ≤ centerBufLen
  word : Bytes.ofLe (f.take 4) = f.length

theorem WellFormed.ne_nil {f : List UInt8} (h : WellFormed f) : f ≠ [] := by
  rintro rfl
  exact absurd h.headed (by decide)

abbrev Stream := { fs : List (List UInt8) // ∀ f ∈ fs, WellFormed f }

def Stream.none : Stream := ⟨[], fun _ h => absurd h List.not_mem_nil⟩

/-- The frames of a stream whose last byte is among the first `n`. -/
def Stream.arrived (s : Stream) (n : Nat) : Stream :=
  ⟨Framing.complete s.val n, fun f hf => s.property f (Framing.mem_of_mem_complete hf)⟩

def Stream.append (s t : Stream) : Stream :=
  ⟨s.val ++ t.val, fun f hf => (List.mem_append.mp hf).elim (s.property f) (t.property f)⟩

/-- `GetOneData` finds a frame at the front of these bytes. -/
def StartsWhole (bs : List UInt8) : Prop := 4 < bs.length ∧ Bytes.ofLe (bs.take 4) ≤ bs.length

/-! ## The link -/

structure Link where
  mng : Mng
  /-- What the other end sends over this connection, or sent over the last one. -/
  stream : Stream
  /-- How many bytes of the stream `recv` has returned. -/
  received : Nat
  /-- What `GetOneData` has copied out. -/
  delivered : List (List UInt8)
  /-- The frames that came whole over earlier connections. -/
  earlier : Stream

def start (answer : Nat → SendAnswer) : Link :=
  ⟨CenterMng.init answer sockClosed, Stream.none, 0, [], Stream.none⟩

/-- The bytes that one call of `RecvData` stores, and whether it closes the connection. -/
structure Reads where
  bytes : List UInt8
  closes : Bool

/-- The results of `recv` up to the one that ends the call, from `used` bytes in the buffer on. -/
def reads (used : Nat) : List RecvAnswer → Reads
  | [] => ⟨[], false⟩
  | r :: rs =>
    if used = recvBufLen then ⟨[], false⟩
    else
      match r with
      | .data [] => ⟨[], true⟩
      | .data (b :: bs) =>
        let bytes := (b :: bs).take (recvBufLen - used)
        let rest := reads (used + bytes.length) rs
        ⟨bytes ++ rest.bytes, rest.closes⟩
      | .again => ⟨[], false⟩
      | .fatal => ⟨[], true⟩

inductive Op where
  | checkConnect (c : ConnectResult) (registered : Bool) (stream : Stream)
  | sendOneData (f : Packet)
  | recvData (rs : List RecvAnswer)
  | getOneData

def Link.complete (w : Link) : Stream := w.earlier.append (w.stream.arrived w.received)

/-- What the open connection has brought of the frame that is not complete. -/
def Link.tail (w : Link) : List UInt8 :=
  if w.mng.ep.fd = sockClosed then []
  else (Framing.remaining w.stream.val w.received).flatten.take
    (Framing.pending w.stream.val w.received)

def Link.stored (w : Link) (rs : List RecvAnswer) : Reads := reads w.mng.ep.recvBuf.length rs

/-- `HasInput` lets `RecvData` read open connections only, and the bytes are the next of the
stream. -/
def next (w : Link) : Op → Option Link
  | .checkConnect c registered stream =>
    let mng := CenterMng.checkConnect w.mng c registered
    if w.mng.ep.fd = sockClosed ∧ c ≠ .failed then some ⟨mng, stream, 0, w.delivered, w.complete⟩
    else some { w with mng := mng }
  | .sendOneData f => some { w with mng := CenterMng.sendOneData w.mng f }
  | .recvData rs =>
    if w.mng.ep.fd ≠ sockClosed ∧ (w.stored rs).bytes <+: w.stream.val.flatten.drop w.received then
      some { w with
        mng := CenterMng.recvData w.mng rs
        received := w.received + (w.stored rs).bytes.length }
    else none
  | .getOneData =>
    let g := CenterMng.getOneData w.mng centerBufLen
    some { w with mng := g.mng, delivered := w.delivered ++ g.data.toList }

def Next (w : Link) (op : Op) (w' : Link) : Prop := next w op = some w'

/-- Calling `GetOneData` again and again copies out these frames and leaves `m'`. -/
def HandsOut : Mng → List (List UInt8) → Mng → Prop
  | m, [], m' => m = m'
  | m, f :: fs, m' => ∃ m₁, getOneData m centerBufLen = ⟨m₁, some f⟩ ∧ HandsOut m₁ fs m'

/-- `GetOneData` still hands out every complete frame that it has not handed out, in order, and then
the buffer holds the incomplete one. -/
def Lossless (w : Link) : Prop :=
  ∃ waiting : List (List UInt8), w.delivered ++ waiting = w.complete.val ∧
    HandsOut w.mng waiting (Server.withBuf w.mng w.tail)

/-! ## What closes a connection -/

def FlushFails (m : Mng) : Prop := (m.kernel.send m.ep.fd m.ep.sendBuf.val).ret = .fatal

/-- `SendOneData` meets a fatal error, in the flush or when it sends the frame itself. -/
def SendFails (m : Mng) (f : Packet) : Prop :=
  m.ep.fd ≠ sockClosed ∧
    if m.ep.sendBuf.val = [] then (m.kernel.send m.ep.fd f.val).ret = .fatal
    else
      let flush := m.kernel.send m.ep.fd m.ep.sendBuf.val
      flush.ret = .fatal ∨ flush.ret = .sent ∧ (flush.kernel.send m.ep.fd f.val).ret = .fatal

def Closes (w : Link) : Op → Prop
  | .checkConnect (.ok fd) true _ => w.mng.ep.fd = sockClosed ∧ FlushFails (connect w.mng fd)
  | .checkConnect _ _ _ => False
  | .sendOneData f => SendFails w.mng f
  | .recvData rs => (w.stored rs).closes = true
  | .getOneData => False

/-- What a step adds to the receive buffer before anything is closed. -/
def added (w : Link) : Op → List UInt8
  | .recvData rs => (w.stored rs).bytes
  | _ => []

/-- When the step closes the connection, no complete frame is in the receive buffer. -/
def Spared (w : Link) (op : Op) : Prop :=
  Closes w op → ¬ StartsWhole (w.mng.ep.recvBuf ++ added w op)

/-! ## The front of the receive buffer -/

/-- Bytes that begin a frame and do not complete it. -/
def Cut (t : List UInt8) : Prop := t = [] ∨ ∃ f, WellFormed f ∧ ∃ n < f.length, t = f.take n

theorem Link.tail_cut (w : Link) : Cut w.tail := by
  unfold Link.tail
  split
  · exact .inl rfl
  · cases hrem : Framing.remaining w.stream.val w.received with
    | nil => exact .inl List.take_nil
    | cons f rest =>
      have hlt := Framing.pending_lt hrem
      have hmem : f ∈ w.stream.val :=
        Framing.mem_of_mem_remaining (hrem ▸ List.mem_cons_self)
      refine .inr ⟨f, w.stream.property f hmem, _, hlt, ?_⟩
      rw [List.flatten_cons, List.take_append_of_le_length (Nat.le_of_lt hlt)]

theorem Cut.not_startsWhole {t : List UInt8} (h : Cut t) : ¬ StartsWhole t := by
  rintro ⟨hlen, hword⟩
  obtain rfl | ⟨f, hf, n, hn, rfl⟩ := h
  · cases hlen
  · rw [List.length_take_of_le (Nat.le_of_lt hn)] at hlen hword
    rw [List.take_take, Nat.min_eq_left (Nat.le_of_lt hlen), hf.word] at hword
    omega

theorem startsWhole_frame {f : List UInt8} (hf : WellFormed f) (rest : List UInt8) :
    StartsWhole (f ++ rest) := by
  have hheaded := hf.headed
  constructor
  · rw [List.length_append]
    omega
  · rw [List.take_append_of_le_length (Nat.le_of_lt hheaded), hf.word, List.length_append]
    omega

/-- Behind whole frames and a cut one, the buffer starts with a whole frame when there is one. -/
theorem startsWhole_iff {waiting : List (List UInt8)} {t : List UInt8}
    (hw : ∀ f ∈ waiting, WellFormed f) (ht : Cut t) :
    StartsWhole (waiting.flatten ++ t) ↔ waiting ≠ [] := by
  cases waiting with
  | nil => exact iff_of_false ht.not_startsWhole fun h => h rfl
  | cons f rest =>
    rw [List.flatten_cons, List.append_assoc]
    exact iff_of_true (startsWhole_frame (hw f List.mem_cons_self) _) (by simp)

/-! ## What `GetOneData` hands out -/

/-- One call hands out the frame at the front, and only that. -/
theorem getOneData_front {m : Mng} {f : List UInt8} (hf : WellFormed f) (m₁ : Mng) :
    getOneData m centerBufLen = ⟨m₁, some f⟩ ↔
      ∃ left, m.ep.recvBuf = f ++ left ∧ m₁ = Server.withBuf m left := by
  constructor
  · intro h
    obtain ⟨-, hg⟩ | ⟨-, -, -, hg⟩ | ⟨-, -, -, hg⟩ := MsgLoop.getOneData_cases m centerBufLen
    · cases hg.symm.trans h
    · cases hg.symm.trans h
    · cases hg.symm.trans h
      exact ⟨_, (List.take_append_drop _ _).symm, rfl⟩
  · rintro ⟨left, hbuf, rfl⟩
    exact Server.getOneData_behind hbuf hf.headed hf.fits hf.word

/-- Frames are handed out exactly when they lie back to back in front of the rest. -/
theorem handsOut_iff {fs : List (List UInt8)} (hfs : ∀ f ∈ fs, WellFormed f) (m : Mng)
    (t : List UInt8) :
    HandsOut m fs (Server.withBuf m t) ↔ m.ep.recvBuf = fs.flatten ++ t := by
  induction fs generalizing m with
  | nil =>
    constructor
    · intro h
      exact congrArg (fun m : Mng => m.ep.recvBuf) h
    · rintro rfl
      rfl
  | cons f fs ih =>
    have hf := hfs f List.mem_cons_self
    have ih := ih fun g hg => hfs g (List.mem_cons_of_mem f hg)
    simp only [HandsOut, getOneData_front hf, List.flatten_cons, List.append_assoc]
    constructor
    · rintro ⟨_, ⟨left, hbuf, rfl⟩, hrest⟩
      have hleft : left = fs.flatten ++ t := (ih (Server.withBuf m left)).mp hrest
      rw [hbuf, hleft]
    · intro hbuf
      exact ⟨_, ⟨_, hbuf, rfl⟩, (ih (Server.withBuf m (fs.flatten ++ t))).mpr rfl⟩

/-! ## What waits in the buffer -/

/-- The buffer holds the complete frames not yet handed out, and then the incomplete one. -/
structure Holds (w : Link) (waiting : List (List UInt8)) : Prop where
  complete : w.delivered ++ waiting = w.complete.val
  buffer : w.mng.ep.recvBuf = waiting.flatten ++ w.tail

theorem wellFormed_of_complete {w : Link} {waiting : List (List UInt8)}
    (h : w.delivered ++ waiting = w.complete.val) : ∀ f ∈ waiting, WellFormed f := by
  intro f hf
  apply w.complete.property
  rw [← h]
  exact List.mem_append_right _ hf

/-- Nothing is lost exactly when the buffer holds what was not handed out. -/
theorem lossless_iff (w : Link) : Lossless w ↔ ∃ waiting, Holds w waiting := by
  constructor
  · rintro ⟨waiting, hc, hh⟩
    exact ⟨waiting, hc, (handsOut_iff (wellFormed_of_complete hc) w.mng w.tail).mp hh⟩
  · rintro ⟨waiting, hc, hb⟩
    exact ⟨waiting, hc, (handsOut_iff (wellFormed_of_complete hc) w.mng w.tail).mpr hb⟩

theorem Holds.startsWhole_iff {w : Link} {waiting : List (List UInt8)} (h : Holds w waiting) :
    StartsWhole w.mng.ep.recvBuf ↔ waiting ≠ [] := by
  rw [h.buffer]
  exact ReceivedFrames.startsWhole_iff (wellFormed_of_complete h.complete) w.tail_cut

/-! ## A close -/

/-- A call that closes the connection and forgets what was received if `fails`, and else leaves
both. -/
structure ShutIf (e e' : Endpoint) (fails : Prop) : Prop where
  shut : fails → e'.fd = sockClosed ∧ e'.recvBuf = []
  keep : ¬ fails → e'.fd = e.fd ∧ e'.recvBuf = e.recvBuf

/-- A close loses nothing exactly when no complete frame waits. -/
theorem Holds.shutIf_iff {w : Link} {waiting : List (List UInt8)} {m' : Mng} {fails : Prop}
    (h : Holds w waiting) (hs : ShutIf w.mng.ep m'.ep fails) :
    Lossless { w with mng := m' } ↔ (fails → ¬ StartsWhole w.mng.ep.recvBuf) := by
  rw [lossless_iff, h.startsWhole_iff, not_not]
  by_cases hf : fails
  · obtain ⟨hfd, hbuf⟩ := hs.shut hf
    have htail : Link.tail { w with mng := m' } = [] := if_pos hfd
    constructor
    · rintro ⟨waiting', hc, hb⟩ -
      have hsame : waiting' = waiting := List.append_cancel_left (hc.trans h.complete.symm)
      rw [hbuf, htail, List.append_nil, hsame] at hb
      cases waiting with
      | nil => rfl
      | cons f rest =>
        have hne := (wellFormed_of_complete h.complete f List.mem_cons_self).ne_nil
        exact absurd (List.append_eq_nil_iff.mp hb.symm).1 hne
    · intro hnone
      obtain rfl := hnone hf
      refine ⟨[], h.complete, ?_⟩
      rw [htail]
      exact hbuf
  · obtain ⟨hfd, hbuf⟩ := hs.keep hf
    refine iff_of_true ⟨waiting, h.complete, ?_⟩ fun hf' => absurd hf' hf
    have htail : Link.tail { w with mng := m' } = w.tail := by
      simp only [Link.tail, hfd]
    rw [htail, hbuf]
    exact h.buffer

/-! ## The calls that send -/

theorem sendBufData_shutIf (k : Kernel) (e : Endpoint) :
    ShutIf e (sendBufData k e).ep ((k.send e.fd e.sendBuf.val).ret = .fatal) := by
  simp only [sendBufData]
  cases (k.send e.fd e.sendBuf.val).ret with
  | sent => exact ⟨(fun h => by cases h), fun _ => ⟨rfl, rfl⟩⟩
  | again => exact ⟨(fun h => by cases h), fun _ => ⟨rfl, rfl⟩⟩
  | fatal => exact ⟨fun _ => ⟨rfl, rfl⟩, fun h => absurd rfl h⟩

theorem sendNow_shutIf (k : Kernel) (e : Endpoint) (f : Packet) :
    ShutIf e (sendNow k e f).ep ((k.send e.fd f.val).ret = .fatal) := by
  simp only [sendNow]
  cases (k.send e.fd f.val).ret with
  | sent => exact ⟨(fun h => by cases h), fun _ => ⟨rfl, rfl⟩⟩
  | again => exact ⟨(fun h => by cases h), fun _ => ⟨rfl, rfl⟩⟩
  | fatal => exact ⟨fun _ => ⟨rfl, rfl⟩, fun h => absurd rfl h⟩

theorem ShutIf.reserved {e : Endpoint} {s : Sent} {fails : Prop} (h : ShutIf e s.ep fails)
    (f : Packet) : ShutIf e (s.reserved f).ep fails := ⟨h.shut, h.keep⟩

/-- A call behind one that left the connection open. -/
theorem ShutIf.behind {e e₁ e₂ : Endpoint} {fails₁ fails : Prop} (h₁ : ShutIf e e₁ fails₁)
    (hopen : ¬ fails₁) (h : ShutIf e₁ e₂ fails) : ShutIf e e₂ fails := by
  obtain ⟨hfd, hbuf⟩ := h₁.keep hopen
  refine ⟨h.shut, fun hf => ?_⟩
  rw [← hfd, ← hbuf]
  exact h.keep hf

/-- `SendOneData` closes the connection when the flush or the frame fails. -/
theorem sendOneData_shutIf (m : Mng) (f : Packet) :
    ShutIf m.ep (CenterMng.sendOneData m f).ep (SendFails m f) := by
  show ShutIf m.ep (SendBuffer.sendOneData m.kernel m.ep f).ep (SendFails m f)
  have hflush := sendBufData_shutIf m.kernel m.ep
  unfold SendBuffer.sendOneData SendFails
  by_cases hfd : m.ep.fd = sockClosed
  · rw [if_pos hfd]
    exact ⟨fun h => absurd hfd h.1, fun _ => ⟨rfl, rfl⟩⟩
  · simp only [ne_eq, hfd, not_false_iff, true_and, if_false]
    by_cases hbuf : m.ep.sendBuf.val = []
    · simp only [if_pos hbuf]
      exact sendNow_shutIf m.kernel m.ep f
    · simp only [if_neg hbuf]
      cases hret : (m.kernel.send m.ep.fd m.ep.sendBuf.val).ret with
      | sent =>
        have hnow :=
          sendNow_shutIf (sendBufData m.kernel m.ep).kernel (sendBufData m.kernel m.ep).ep f
        have hopen : ¬ (m.kernel.send m.ep.fd m.ep.sendBuf.val).ret = .fatal := by
          rw [hret]
          exact fun h => by cases h
        have hsent := hflush.behind hopen hnow
        simpa [sendBufData, hret] using hsent
      | again =>
        rw [hret] at hflush
        simpa [sendBufData, hret] using hflush.reserved f
      | fatal =>
        rw [hret] at hflush
        simpa [sendBufData, hret, shut] using hflush.reserved f

/-! ## The calls that receive -/

/-- `RecvData` stores bytes, and then closes the connection or does not. -/
theorem recvData_reads (m : Mng) (rs : List RecvAnswer) :
    CenterMng.recvData m rs =
      if (reads m.ep.recvBuf.length rs).closes then disconnect m
      else Server.withBuf m (m.ep.recvBuf ++ (reads m.ep.recvBuf.length rs).bytes) := by
  induction rs generalizing m with
  | nil => simp [CenterMng.recvData, reads, Server.withBuf]
  | cons r rs ih =>
    by_cases hfull : m.ep.recvBuf.length = recvBufLen
    · simp [CenterMng.recvData, reads, hfull, Server.withBuf]
    · cases r with
      | again => simp [CenterMng.recvData, reads, hfull, Server.withBuf]
      | fatal => simp [CenterMng.recvData, reads, hfull]
      | data bytes =>
        cases bytes with
        | nil => simp [CenterMng.recvData, reads, hfull]
        | cons b bs =>
          simp only [CenterMng.recvData, reads, if_neg hfull, ih, List.length_append]
          split
          · rfl
          · simp only [Server.withBuf, List.append_assoc]

theorem recvData_shutIf (w : Link) (rs : List RecvAnswer) :
    ShutIf (Server.withBuf w.mng (w.mng.ep.recvBuf ++ (w.stored rs).bytes)).ep
      (CenterMng.recvData w.mng rs).ep ((w.stored rs).closes = true) := by
  rw [recvData_reads]
  by_cases hc : (reads w.mng.ep.recvBuf.length rs).closes = true
  · rw [if_pos hc]
    exact ⟨fun _ => ⟨rfl, rfl⟩, fun h => absurd hc h⟩
  · rw [if_neg hc]
    exact ⟨fun h => absurd h hc, fun _ => ⟨rfl, rfl⟩⟩

def Link.store (w : Link) (bytes : List UInt8) : Link :=
  { w with
    mng := Server.withBuf w.mng (w.mng.ep.recvBuf ++ bytes)
    received := w.received + bytes.length }

/-- What is stored completes the frames that it completes of the stream. -/
theorem Holds.store {w : Link} {waiting : List (List UInt8)} (h : Holds w waiting)
    (hopen : w.mng.ep.fd ≠ sockClosed) {bytes : List UInt8}
    (hnext : bytes <+: w.stream.val.flatten.drop w.received) :
    Holds (w.store bytes) (waiting ++ Framing.complete (Framing.remaining w.stream.val w.received)
      (Framing.pending w.stream.val w.received + bytes.length)) := by
  have htail : w.tail = (Framing.remaining w.stream.val w.received).flatten.take
      (Framing.pending w.stream.val w.received) := if_neg hopen
  have htail' : (w.store bytes).tail =
      (Framing.remaining w.stream.val (w.received + bytes.length)).flatten.take
        (Framing.pending w.stream.val (w.received + bytes.length)) := if_neg hopen
  have hcomplete : w.delivered ++ waiting =
      w.earlier.val ++ Framing.complete w.stream.val w.received := h.complete
  constructor
  · show w.delivered ++ _ =
      w.earlier.val ++ Framing.complete w.stream.val (w.received + bytes.length)
    rw [Framing.complete_add w.stream.val w.received, ← List.append_assoc, hcomplete,
      List.append_assoc]
  · have hbytes : w.tail ++ bytes = (Framing.remaining w.stream.val w.received).flatten.take
        (Framing.pending w.stream.val w.received + bytes.length) := by
      rw [List.take_add, ← htail, ← Framing.drop_flatten]
      exact congrArg (w.tail ++ ·) (List.prefix_iff_eq_take.mp hnext)
    show w.mng.ep.recvBuf ++ bytes = _
    rw [htail', Framing.remaining_add, Framing.pending_add, h.buffer, List.append_assoc, hbytes,
      Framing.take_complete, List.flatten_append, List.append_assoc]

/-- Bytes that come in lose nothing, unless the call closes the connection over whole frames. -/
theorem recvData_iff {w : Link} {waiting : List (List UInt8)} (h : Holds w waiting)
    (hopen : w.mng.ep.fd ≠ sockClosed) {rs : List RecvAnswer}
    (hnext : (w.stored rs).bytes <+: w.stream.val.flatten.drop w.received) :
    Lossless { w with
        mng := CenterMng.recvData w.mng rs
        received := w.received + (w.stored rs).bytes.length } ↔
      Spared w (.recvData rs) :=
  (h.store hopen hnext).shutIf_iff (recvData_shutIf w rs)

/-- While frames wait, `GetOneData` hands out the oldest; when none waits, it does nothing. -/
theorem getOneData_keeps {w : Link} {waiting : List (List UInt8)} (h : Holds w waiting) :
    let g := CenterMng.getOneData w.mng centerBufLen
    Lossless { w with mng := g.mng, delivered := w.delivered ++ g.data.toList } := by
  dsimp only
  rw [lossless_iff]
  cases waiting with
  | nil =>
    have hcut : ¬ StartsWhole w.mng.ep.recvBuf := fun hs => h.startsWhole_iff.mp hs rfl
    have hpend : w.mng.ep.recvBuf.length ≤ 4 ∨
        w.mng.ep.recvBuf.length < Bytes.ofLe (w.mng.ep.recvBuf.take 4) := by
      by_cases hlen : w.mng.ep.recvBuf.length ≤ 4
      · exact .inl hlen
      · exact .inr (Nat.not_le.mp fun hword => hcut ⟨Nat.not_le.mp hlen, hword⟩)
    rw [Server.getOneData_pending hpend]
    refine ⟨[], ?_, h.buffer⟩
    show w.delivered ++ [] ++ [] = _
    rw [List.append_nil]
    exact h.complete
  | cons f rest =>
    have hf := wellFormed_of_complete h.complete f List.mem_cons_self
    have hbuf : w.mng.ep.recvBuf = f ++ (rest.flatten ++ w.tail) := by
      rw [h.buffer, List.flatten_cons, List.append_assoc]
    rw [Server.getOneData_behind hbuf hf.headed hf.fits hf.word]
    refine ⟨rest, ?_, rfl⟩
    show w.delivered ++ [f] ++ rest = _
    rw [List.append_assoc]
    exact h.complete

/-! ## A new connection -/

/-- A connection over which nothing has come. -/
theorem Holds.connect {w : Link} {waiting : List (List UInt8)} (h : Holds w waiting)
    (hclosed : w.mng.ep.fd = sockClosed) (fd : Nat) (stream : Stream) :
    Holds ⟨CenterMng.connect w.mng fd, stream, 0, w.delivered, w.complete⟩ waiting := by
  have hnone : Framing.complete stream.val 0 = [] :=
    Framing.complete_zero fun f hf => (stream.property f hf).ne_nil
  constructor
  · show w.delivered ++ waiting = w.complete.val ++ Framing.complete stream.val 0
    rw [hnone, List.append_nil]
    exact h.complete
  · have hold : w.tail = [] := if_pos hclosed
    have hnew :
        Link.tail ⟨CenterMng.connect w.mng fd, stream, 0, w.delivered, w.complete⟩ = [] := by
      unfold Link.tail
      split
      · rfl
      · rw [Framing.pending, Nat.zero_sub, List.take_zero]
    rw [hnew, ← hold]
    exact h.buffer

theorem checkConnect_iff {w : Link} {waiting : List (List UInt8)} (h : Holds w waiting)
    (hclosed : w.mng.ep.fd = sockClosed) (fd : Nat) (registered : Bool) (stream : Stream) :
    Lossless ⟨CenterMng.checkConnect w.mng (.ok fd) registered, stream, 0, w.delivered,
        w.complete⟩ ↔
      Spared w (.checkConnect (.ok fd) registered stream) := by
  have hc := h.connect hclosed fd stream
  unfold CenterMng.checkConnect
  rw [if_neg (not_not_intro hclosed)]
  cases registered with
  | false => exact iff_of_true ((lossless_iff _).mpr ⟨waiting, hc⟩) fun h => h.elim
  | true =>
    have hflush := sendBufData_shutIf (CenterMng.connect w.mng fd).kernel
      (CenterMng.connect w.mng fd).ep
    refine (hc.shutIf_iff hflush).trans ?_
    simp only [Spared, Closes, added, List.append_nil, hclosed, true_and]
    rfl

/-- Without a new connection, `CheckConnect` does nothing. -/
theorem checkConnect_idle {m : Mng} {c : ConnectResult}
    (h : ¬ (m.ep.fd = sockClosed ∧ c ≠ .failed)) (registered : Bool) :
    CenterMng.checkConnect m c registered = m := by
  unfold CenterMng.checkConnect
  by_cases hfd : m.ep.fd = sockClosed
  · rw [if_neg (not_not_intro hfd)]
    cases c with
    | failed => rfl
    | ok fd => exact absurd ⟨hfd, fun hc => by cases hc⟩ h
  · rw [if_pos hfd]

theorem closes_connects {w : Link} {c : ConnectResult}
    (h : ¬ (w.mng.ep.fd = sockClosed ∧ c ≠ .failed)) {registered : Bool} {stream : Stream} :
    ¬ Closes w (.checkConnect c registered stream) := by
  cases c with
  | failed => exact id
  | ok fd =>
    cases registered with
    | false => exact id
    | true => exact fun hc => h ⟨hc.1, fun hc => by cases hc⟩

/-! ## Runs -/

theorem start_lossless (answer : Nat → SendAnswer) : Lossless (start answer) :=
  (lossless_iff _).mpr ⟨[], rfl, rfl⟩

/-- A step keeps every frame exactly when it is spared. -/
theorem step_iff {w w' : Link} {op : Op} (h : Lossless w) (hs : Next w op w') :
    Lossless w' ↔ Spared w op := by
  obtain ⟨waiting, hw⟩ := (lossless_iff w).mp h
  unfold Next next at hs
  cases op with
  | checkConnect c registered stream =>
    dsimp only at hs
    split at hs
    · next hnew =>
      obtain ⟨hclosed, hc⟩ := hnew
      cases hs
      cases c with
      | failed => exact absurd rfl hc
      | ok fd => exact checkConnect_iff hw hclosed fd registered stream
    · next hold =>
      cases hs
      rw [checkConnect_idle hold]
      exact iff_of_true h fun hc => absurd hc (closes_connects hold)
  | sendOneData f =>
    cases hs
    refine (hw.shutIf_iff (sendOneData_shutIf w.mng f)).trans ?_
    simp only [Spared, Closes, added, List.append_nil]
  | recvData rs =>
    dsimp only at hs
    split at hs
    · next hopen =>
      cases hs
      exact recvData_iff hw hopen.1 hopen.2
    · cases hs
  | getOneData =>
    cases hs
    exact iff_of_true (getOneData_keeps hw) fun h => h.elim

/-- In a run every complete frame is still handed out exactly when every close met a buffer without
a complete frame, counting what the closing call itself has read. -/
theorem frames_kept_iff (answer : Nat → SendAnswer) (ops : List Op) (w : Link) :
    (Trace.Run Next (fun w _ => Lossless w) (start answer) ops w ∧ Lossless w) ↔
      Trace.Run Next Spared (start answer) ops w :=
  Trace.Run.always_iff (fun _ _ _ => step_iff) (start_lossless answer)

def oneFrame : Stream := ⟨[[5, 0, 0, 0, 7]], fun f hf => by
  rw [List.mem_singleton.mp hf]
  exact ⟨by decide, by decide, by decide⟩⟩

/-- The other end sends a frame and closes. One call of `RecvData` reads both, and the frame is
gone. -/
theorem closing_read_loses_frame :
    ¬ ∀ (answer : Nat → SendAnswer) (ops : List Op) (w : Link),
      Trace.Run Next (fun _ _ => True) (start answer) ops w → Lossless w := by
  intro h
  have hrun : Trace.Run Next (fun _ _ => True) (start fun _ => .all)
      [.checkConnect (.ok 5) true oneFrame, .recvData [.data [5, 0, 0, 0, 7], .data []]] _ :=
    .cons trivial rfl (.cons trivial rfl (.nil _))
  obtain ⟨waiting, hw⟩ := (lossless_iff _).mp (h _ _ _ hrun)
  have hwaits : waiting = [[5, 0, 0, 0, 7]] := hw.complete
  have hempty : [] = waiting.flatten ++ _ := hw.buffer
  rw [hwaits] at hempty
  cases hempty

end ReceivedFrames
