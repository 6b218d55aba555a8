import Dsf4g.Lib.Framing
import Dsf4g.TcpSvr

/-!
# Deframing a client stream

`RecvClientData` as a function of the whole byte stream. Every cut of the stream
into positive `recv` results gives the same frames, whatever the reader of the
pipe does in between. A would-block answer is the exception: it moves
`buf_offset` by `-1`, so a byte is dropped, or the offset wraps and old bytes are
parsed as new frames.
-/
namespace TcpDeframe

open Base TcpSvr Framing

/-- A frame as a client must send it: a big-endian total length, itself included. -/
structure ClientFrame (f : List UInt8) : Prop where
  short : 5 ≤ f.length
  long : f.length ≤ maxBufLen
  length_prefix : f.take 4 = Bytes.be 4 f.length

theorem writeTcpHead_behind (m : Nat → UInt8) (a : Nat) (s : Socket) (i : Nat)
    (h : a + tcpHeadLen ≤ i) : writeTcpHead m a s i = m i := by
  have haddr := s.socketAddr.property
  simp only [tcpHeadLen] at h
  unfold writeTcpHead
  rw [Memory.write_outside _ _ _ _ (by simp; omega), Memory.write_outside _ _ _ _ (by simp; omega),
    Memory.write_outside _ _ _ _ (by simp; omega), Memory.write_outside _ _ _ _ (by simp; omega),
    Memory.write_outside _ _ _ _ (by simp; omega)]

/-- Storing the head never changes a byte the loop has still to read. -/
theorem called_read (p : Parse) (s : Socket) (ok : Bool) (n : Nat) (h : tcpHeadLen ≤ p.tmpRecv) :
    Memory.read (p.called s ok).mem p.tmpRecv n = Memory.read p.mem p.tmpRecv n := by
  apply Memory.read_congr
  intro i hi _
  exact writeTcpHead_behind _ _ _ _ (by omega)

theorem frame_payload (p : Parse) (s : Socket) (h : tcpHeadLen ≤ p.tmpRecv) :
    (p.frame s).payload = Memory.read p.mem p.tmpRecv p.len := called_read p s true p.len h

theorem parseFrames_stop (s : Socket) (p : Parse) (h : p.left ≤ 4) : parseFrames s p = p := by
  rw [parseFrames, if_pos h]

theorem parseFrames_invalid (s : Socket) (p : Parse) (h : 4 < p.left)
    (hl : p.len > maxBufLen ∨ p.len < 4) : parseFrames s p = { p with invalid := true } := by
  rw [parseFrames, if_neg (by omega), if_pos hl]

theorem parseFrames_short (s : Socket) (p : Parse) (h : 4 < p.left)
    (hl : ¬ (p.len > maxBufLen ∨ p.len < 4)) (hs : p.left < p.len) : parseFrames s p = p := by
  rw [parseFrames, if_neg (by omega), if_neg hl, if_pos hs]

theorem parseFrames_full (s : Socket) (p : Parse) (h : 4 < p.left)
    (hl : ¬ (p.len > maxBufLen ∨ p.len < 4)) (hs : p.len ≤ p.left)
    (ha : p.csPipe.append TcpFrame.cost (p.frame s) = none) :
    parseFrames s p = p.called s false := by
  rw [parseFrames, if_neg (by omega), if_neg hl, if_neg (by omega), ha]

theorem parseFrames_append (s : Socket) (p : Parse) (h : 4 < p.left)
    (hl : ¬ (p.len > maxBufLen ∨ p.len < 4)) (hs : p.len ≤ p.left) {cs : Fifo TcpFrame}
    (ha : p.csPipe.append TcpFrame.cost (p.frame s) = some cs) :
    parseFrames s p = parseFrames s (p.advance s cs) := by
  rw [parseFrames, if_neg (by omega), if_neg hl, if_neg (by omega), ha]

/-- The loop only ever adds calls. -/
theorem parseFrames_calls (s : Socket) (p : Parse) : p.calls <+: (parseFrames s p).calls := by
  fun_induction parseFrames s p with
  | case1 => exact List.prefix_refl _
  | case2 => exact List.prefix_refl _
  | case3 => exact List.prefix_refl _
  | case4 => exact List.prefix_append _ _
  | case5 p h₁ h₂ h₃ cs ha ih => exact (List.prefix_append _ _).trans ih

def payloads (calls : List AppendCall) : List (List UInt8) := calls.map fun c => c.frame.payload

@[simp] theorem payloads_nil : payloads [] = [] := rfl
@[simp] theorem payloads_append (a b : List AppendCall) :
    payloads (a ++ b) = payloads a ++ payloads b := by simp [payloads]

/-- What the loop leaves when its bytes are a prefix of the frames `todo`. -/
structure Parsed (p r : Parse) (todo : List (List UInt8)) : Prop where
  valid : r.invalid = false
  calls : payloads r.calls = payloads p.calls ++ complete todo p.left
  left : r.left = pending todo p.left
  tmpRecv : r.tmpRecv = p.tmpRecv + (complete todo p.left).flatten.length
  bytes : Memory.read r.mem r.tmpRecv r.left =
    (Memory.read p.mem p.tmpRecv p.left).drop (complete todo p.left).flatten.length

/-- Nothing is complete and nothing is consumed. -/
theorem parsed_self {p : Parse} {todo : List (List UInt8)} (hv : p.invalid = false)
    (hc : complete todo p.left = []) : Parsed p p todo where
  valid := hv
  calls := by simp [hc]
  left := by simp [pending, hc]
  tmpRecv := by simp [hc]
  bytes := by simp [hc]

/-- The four length bytes of a frame that has begun to arrive. -/
theorem len_of_prefix {p : Parse} {f : List UInt8} {todo : List (List UInt8)} (hf : ClientFrame f)
    (hp : Memory.read p.mem p.tmpRecv p.left <+: (f :: todo).flatten) (hl : 4 < p.left) :
    p.len = f.length := by
  have hlen := hf.short
  have hlong := hf.long
  have ht : Memory.read p.mem p.tmpRecv 4 = f.take 4 := by
    obtain ⟨rest, hr⟩ := hp
    have := congrArg (List.take 4) hr
    rw [List.take_append_of_le_length (by simp; omega), Memory.take_read _ _ _ _ (by omega),
      List.flatten_cons, List.take_append_of_le_length (by omega)] at this
    exact this
  simp only [maxBufLen] at hlong
  rw [Parse.len, ht, hf.length_prefix, Bytes.ofBe_be_of_lt (by omega)]

/-- One accepted frame in front of a finished parse. -/
theorem parsed_advance {p r : Parse} {s : Socket} {cs : Fifo TcpFrame} {f : List UInt8}
    {todo : List (List UInt8)} (haddr : tcpHeadLen ≤ p.tmpRecv) (hlen : p.len = f.length)
    (hs : f.length ≤ p.left) (hhead : Memory.read p.mem p.tmpRecv f.length = f)
    (h : Parsed (p.advance s cs) r todo) : Parsed p r (f :: todo) := by
  have hleft : (p.advance s cs).left = p.left - f.length := by simp [Parse.advance, hlen]
  have hrecv : (p.advance s cs).tmpRecv = p.tmpRecv + f.length := by simp [Parse.advance, hlen]
  have hpay : (p.frame s).payload = f := by rw [frame_payload _ _ haddr, hlen, hhead]
  have hmem : Memory.read (p.advance s cs).mem (p.tmpRecv + f.length) (p.left - f.length) =
      (Memory.read p.mem p.tmpRecv p.left).drop f.length := by
    rw [Memory.drop_read _ _ _ _ hs]
    apply Memory.read_congr
    intro i hi _
    exact writeTcpHead_behind _ _ _ _ (by omega)
  have hcons := @complete_cons_of_le _ _ todo _ hs
  constructor
  · exact h.valid
  · rw [h.calls, hleft, hcons]
    simp [Parse.advance, Parse.called, payloads, hpay]
  · rw [h.left, hleft, pending, pending, hcons, List.flatten_cons, List.length_append]
    omega
  · rw [h.tmpRecv, hleft, hrecv, hcons, List.flatten_cons, List.length_append]
    omega
  · rw [h.bytes, hleft, hrecv, hmem, hcons, List.flatten_cons, List.length_append, List.drop_drop]

theorem parseFrames_stream (s : Socket) (todo : List (List UInt8))
    (htodo : ∀ f ∈ todo, ClientFrame f) (p : Parse) (haddr : tcpHeadLen ≤ p.tmpRecv)
    (hv : p.invalid = false) (hp : Memory.read p.mem p.tmpRecv p.left <+: todo.flatten)
    (hok : ∀ c ∈ (parseFrames s p).calls, c.ok = true) : Parsed p (parseFrames s p) todo := by
  induction todo generalizing p with
  | nil =>
    have hle := hp.length_le
    simp only [Memory.read_length, List.flatten_nil, List.length_nil] at hle
    rw [parseFrames_stop _ _ (by omega)]
    exact parsed_self hv rfl
  | cons f todo ih =>
    have hf := htodo f (by simp)
    have hshort := hf.short
    have hlong := hf.long
    by_cases hl : p.left ≤ 4
    · rw [parseFrames_stop _ _ hl]
      exact parsed_self hv (complete_cons_of_lt (by omega))
    have hlen := len_of_prefix hf hp (by omega)
    by_cases hs : f.length ≤ p.left
    · cases ha : p.csPipe.append TcpFrame.cost (p.frame s) with
      | none =>
        rw [parseFrames_full _ _ (by omega) (by omega) (by omega) ha] at hok
        have := hok ⟨p.frame s, false⟩ (by simp [Parse.called])
        cases this
      | some cs =>
        rw [parseFrames_append _ _ (by omega) (by omega) (by omega) ha] at hok ⊢
        obtain ⟨rest, hr⟩ := hp
        have hhead : Memory.read p.mem p.tmpRecv f.length = f := by
          have := congrArg (List.take f.length) hr
          rwa [List.take_append_of_le_length (by simpa using hs), Memory.take_read _ _ _ _ hs,
            List.flatten_cons, List.take_left' rfl] at this
        have htail : Memory.read (p.advance s cs).mem (p.advance s cs).tmpRecv
            (p.advance s cs).left <+: todo.flatten := by
          refine ⟨rest, ?_⟩
          have := congrArg (List.drop f.length) hr
          rw [List.drop_append_of_le_length (by simpa using hs), Memory.drop_read _ _ _ _ hs,
            List.flatten_cons, List.drop_left' rfl] at this
          rw [← this]
          refine congrArg (· ++ rest) ?_
          simp only [Parse.advance, hlen]
          apply Memory.read_congr
          intro i hi _
          exact writeTcpHead_behind _ _ _ _ (by omega)
        have hrec := ih (fun g hg => htodo g (by simp [hg])) (p.advance s cs)
          (by simp only [Parse.advance]; omega) hv htail hok
        exact parsed_advance haddr hlen hs hhead hrec
    · rw [parseFrames_short _ _ (by omega) (by omega) (by omega)]
      exact parsed_self hv (complete_cons_of_lt (by omega))

theorem consume_calls (t : Svr) (pos n : Nat) (again : Bool) :
    (consume t pos n again).calls = (endParse t pos n).calls := by
  simp only [consume]
  split
  · rfl
  · split <;> rfl

theorem consume_invalid (t : Svr) (pos n : Nat) (again : Bool)
    (hpos : pos < t.maxClientNum) (hslot : (t.pool pos).socketPos = pos)
    (h : (endParse t pos n).invalid = true) :
    (consume t pos n again).svr.pool pos = Socket.cleared pos := by
  simp only [consume, h, if_true, hslot]
  exact socketRelease_pool _ _ _ hpos

/-- A round that parses a prefix of the frames `todo` keeps the slot except for
`buf_offset`, which becomes the number of bytes behind the last complete frame. -/
theorem consume_stream (t : Svr) (pos n : Nat) (again : Bool) (todo : List (List UInt8))
    (htodo : ∀ f ∈ todo, ClientFrame f)
    (hp : Memory.read t.mem (recvBuf pos) n <+: todo.flatten)
    (hok : ∀ c ∈ (consume t pos n again).calls, c.ok = true) :
    (consume t pos n again).svr.pool pos = { t.pool pos with bufOffset := pending todo n } ∧
    (consume t pos n again).svr.maxClientNum = t.maxClientNum ∧
    payloads (consume t pos n again).calls = complete todo n ∧
    Memory.read (consume t pos n again).svr.mem (recvBuf pos) (pending todo n) =
      (Memory.read t.mem (recvBuf pos) n).drop (complete todo n).flatten.length := by
  rw [consume_calls] at hok ⊢
  have h := parseFrames_stream { t.pool pos with bufOffset := n } todo htodo (startParse t pos n)
    (by simp [startParse, recvBuf]) rfl hp hok
  change Parsed _ (endParse t pos n) todo at h
  simp only [consume, afterParse, compact]
  generalize endParse t pos n = r at h ⊢
  obtain ⟨hvalid, hpay, hleft, hrecv, hbytes⟩ := h
  simp only [startParse, payloads_nil, List.nil_append] at hpay hleft hrecv hbytes
  rw [hleft] at hbytes
  by_cases hne : r.left = n
  · have hzero : (complete todo n).flatten.length = 0 := by
      have := complete_flatten_le todo n
      rw [hleft, pending] at hne
      omega
    rw [hrecv, hzero] at hbytes
    rw [← hleft, hne] at hbytes ⊢
    simp only [Nat.add_zero, List.drop_zero] at hbytes
    simp [hvalid, hpay, hzero, hbytes]
  · simp only [hvalid, hne, Bool.false_eq_true, if_false, ne_eq, not_false_eq_true, if_true]
    refine ⟨by simp [hleft], by simp, hpay, ?_⟩
    rw [← hbytes, hleft]
    have := Memory.read_write_same r.mem (recvBuf pos)
      (Memory.read r.mem r.tmpRecv (pending todo n))
    rwa [Memory.read_length] at this

/-- What happens to the connection: bytes arrive, `recv` would block, or the
reader of the `cs` pipe takes one frame out. -/
inductive StreamEvent where
  | data (bytes : List UInt8)
  | wouldBlock
  | drain
  deriving DecidableEq, Repr

/-- The gateway and all calls of `AppendOneData` so far. -/
structure Progress where
  svr : Svr
  calls : List AppendCall

def onRecv (pos : Nat) (p : Progress) (r : RecvResult) : Progress :=
  ⟨(recvRound p.svr pos r).svr, p.calls ++ (recvRound p.svr pos r).calls⟩

/-- A call of `RecvClientData` is a run of rounds on the first of the kernel's answers. -/
theorem recvClientData_rounds (pos : Nat) (p : Progress) (rs : List RecvResult) :
    ∃ n, recvClientData p.svr pos rs = ((rs.take n).foldl (onRecv pos) p).svr := by
  induction rs generalizing p with
  | nil => exact ⟨0, rfl⟩
  | cons r rs ih =>
    simp only [recvClientData]
    split
    · obtain ⟨n, hn⟩ := ih (onRecv pos p r)
      exact ⟨n + 1, hn⟩
    · exact ⟨1, rfl⟩

def onEvent (pos : Nat) (p : Progress) : StreamEvent → Progress
  | .data bytes => onRecv pos p (.data bytes)
  | .wouldBlock => onRecv pos p .again
  | .drain =>
    { p with svr := { p.svr with csPipe := { p.svr.csPipe with items := p.svr.csPipe.items.tail } } }

def runEvents (pos : Nat) (p : Progress) (es : List StreamEvent) : Progress :=
  es.foldl (onEvent pos) p

def received : List StreamEvent → List UInt8
  | [] => []
  | .data bytes :: es => bytes ++ received es
  | _ :: es => received es

/-- `recv` stores at least one byte and no more than it was offered room for. -/
def Offered (pos : Nat) : Progress → List StreamEvent → Prop
  | _, [] => True
  | p, e :: es =>
    (∀ bytes, e = .data bytes → (p.svr.pool pos).bufOffset ≤ recvCap →
      bytes ≠ [] ∧ bytes.length ≤ recvCap - (p.svr.pool pos).bufOffset) ∧
    Offered pos (onEvent pos p e) es

/-- The connection after `n` bytes of the stream `frames`: still open, every
complete frame appended once and in order, and exactly the bytes behind them
waiting at the front of the buffer. -/
structure Deframed (p : Progress) (pos : Nat) (frames : List (List UInt8)) (n : Nat) : Prop where
  in_pool : pos < p.svr.maxClientNum
  slot : (p.svr.pool pos).socketPos = pos
  is_open : (p.svr.pool pos).type = clinetSocket
  appended : payloads p.calls = complete frames n
  offset : (p.svr.pool pos).bufOffset = pending frames n
  offset_le : (p.svr.pool pos).bufOffset ≤ recvCap
  unconsumed : Memory.read p.svr.mem (recvBuf pos) (p.svr.pool pos).bufOffset =
    (frames.flatten.take n).drop (complete frames n).flatten.length

/-- An incomplete frame never fills the buffer. -/
theorem pending_le {frames : List (List UInt8)} (hframes : ∀ f ∈ frames, ClientFrame f) {n : Nat}
    (hn : n ≤ frames.flatten.length) : pending frames n ≤ maxBufLen := by
  cases hr : remaining frames n with
  | nil =>
    have := flatten_split frames n
    rw [hr, List.flatten_nil, List.append_nil] at this
    rw [pending, this]
    omega
  | cons f rest =>
    have hmem : f ∈ frames := mem_of_mem_remaining (n := n) (by simp [hr])
    have := pending_lt hr
    have := (hframes f hmem).long
    omega

/-- The waiting bytes begin the first frame that is still incomplete. -/
theorem unconsumed_prefix {p : Progress} {pos : Nat} {frames : List (List UInt8)} {n : Nat}
    (h : Deframed p pos frames n) :
    Memory.read p.svr.mem (recvBuf pos) (pending frames n) =
      (remaining frames n).flatten.take (pending frames n) := by
  have ht := take_flatten frames n 0
  simp only [Nat.add_zero] at ht
  rw [← ht, ← h.unconsumed, h.offset]

/-- A positive `recv` result extends the prefix by its bytes. -/
theorem data_deframed {p : Progress} {pos : Nat} {frames : List (List UInt8)} {n : Nat}
    (hframes : ∀ f ∈ frames, ClientFrame f) (h : Deframed p pos frames n) (bytes : List UInt8)
    (hn : n + bytes.length ≤ frames.flatten.length)
    (hbytes : bytes = (frames.flatten.drop n).take bytes.length)
    (hfit : bytes.length ≤ recvCap - (p.svr.pool pos).bufOffset)
    (hok : ∀ c ∈ (onEvent pos p (.data bytes)).calls, c.ok = true) :
    Deframed (onEvent pos p (.data bytes)) pos frames (n + bytes.length) := by
  have hoff := h.offset
  have hoffle := h.offset_le
  have hpend := pending_le hframes (n := n) (by omega)
  have hpend' := pending_le hframes hn
  have hcap : recvCap = 409600 := rfl
  have hmax : maxBufLen = 4096 := rfl
  let todo := remaining frames n
  let k := pending frames n
  let m := Memory.write p.svr.mem (recvBuf pos + k) bytes
  have hread : Memory.read m (recvBuf pos) (k + bytes.length) =
      todo.flatten.take (k + bytes.length) := by
    rw [Memory.read_add, Memory.read_write_same, Memory.read_write_disjoint _ _ _ _ _ (by omega),
      unconsumed_prefix h, List.take_add, ← drop_flatten, ← hbytes]
  have hround : recvRound p.svr pos (.data bytes) =
      consume { p.svr with mem := m } pos (k + bytes.length) true := by
    simp only [recvRound]
    rw [if_neg (by omega), Nat.mod_eq_of_lt (by omega), hoff]
  have hcons := consume_stream { p.svr with mem := m } pos (k + bytes.length) true todo
    (fun f hf => hframes f (mem_of_mem_remaining hf)) (by
      show Memory.read m (recvBuf pos) (k + bytes.length) <+: todo.flatten
      rw [hread]
      exact List.take_prefix _ _)
    (by
      intro c hc
      apply hok
      simp only [onEvent, onRecv, hround]
      exact List.mem_append_right _ hc)
  obtain ⟨hpool, hconf, hpay, hmem⟩ := hcons
  have hbuf : ((consume { p.svr with mem := m } pos (k + bytes.length) true).svr.pool
      pos).bufOffset = pending frames (n + bytes.length) := by
    rw [hpool]
    exact (pending_add frames n bytes.length).symm
  constructor <;> simp only [onEvent, onRecv, hround]
  · rw [hconf]
    exact h.in_pool
  · rw [hpool]
    exact h.slot
  · rw [hpool]
    exact h.is_open
  · rw [payloads_append, h.appended, hpay]
    exact (complete_add frames n bytes.length).symm
  · exact hbuf
  · rw [hbuf]
    omega
  · rw [hbuf, pending_add]
    refine hmem.trans ?_
    show (Memory.read m (recvBuf pos) (k + bytes.length)).drop _ = _
    rw [hread, complete_add frames n, List.flatten_append, List.length_append, ← List.drop_drop,
      take_flatten]

/-- The slot does not change while the reader of the pipe is at work. -/
theorem drain_deframed {p : Progress} {pos : Nat} {frames : List (List UInt8)} {n : Nat}
    (h : Deframed p pos frames n) : Deframed (onEvent pos p .drain) pos frames n :=
  ⟨h.in_pool, h.slot, h.is_open, h.appended, h.offset, h.offset_le, h.unconsumed⟩

/-- Bytes are waiting: one of them is dropped. -/
theorem wouldBlock_drops {p : Progress} {pos : Nat} {frames : List (List UInt8)} {n k : Nat}
    (hframes : ∀ f ∈ frames, ClientFrame f) (hn : n ≤ frames.flatten.length)
    (h : Deframed p pos frames n) (hk : pending frames n = k + 1)
    (hok : ∀ c ∈ (onEvent pos p .wouldBlock).calls, c.ok = true) :
    ((onEvent pos p .wouldBlock).svr.pool pos).bufOffset = k := by
  have hpend := pending_le hframes hn
  have hmax : maxBufLen = 4096 := rfl
  have hcap : recvCap = 409600 := rfl
  have hoff := h.offset
  have hround : recvRound p.svr pos .again = consume p.svr pos k false := by
    simp only [recvRound]
    rw [if_neg (by omega), hoff, hk, show 2 ^ 32 - 1 + (k + 1) = k + 2 ^ 32 by omega,
      Nat.add_mod_right, Nat.mod_eq_of_lt (by omega)]
  have hpre : Memory.read p.svr.mem (recvBuf pos) k <+: (remaining frames n).flatten := by
    rw [← Memory.take_read _ _ (pending frames n) _ (by omega), unconsumed_prefix h]
    exact (List.take_prefix _ _).trans (List.take_prefix _ _)
  have hcons := consume_stream p.svr pos k false (remaining frames n)
    (fun f hf => hframes f (mem_of_mem_remaining hf)) hpre (by
      intro c hc
      apply hok
      simp only [onEvent, onRecv, hround]
      exact List.mem_append_right _ hc)
  have hnone : complete (remaining frames n) k = [] := by
    cases hr : remaining frames n with
    | nil => rfl
    | cons f rest => exact complete_cons_of_lt (by have := pending_lt hr; omega)
  simp only [onEvent, onRecv, hround, hcons.1]
  simp [pending, hnone]

/-- The parsing loop with `left = 2^32 - 1`: either it meets an invalid length at
once, or it appends bytes that were not received. -/
theorem parseFrames_wrapped (s : Socket) (p : Parse) (hl : p.left = 2 ^ 32 - 1)
    (hok : ∀ c ∈ (parseFrames s p).calls, c.ok = true) :
    (parseFrames s p).invalid = true ∨ (parseFrames s p).calls ≠ [] := by
  have hmax : maxBufLen = 4096 := rfl
  by_cases hv : p.len > maxBufLen ∨ p.len < 4
  · left
    rw [parseFrames_invalid s p (by omega) hv]
  right
  cases ha : p.csPipe.append TcpFrame.cost (p.frame s) with
  | none =>
    rw [parseFrames_full s p (by omega) hv (by omega) ha] at hok
    have := hok ⟨p.frame s, false⟩ (by simp [Parse.called])
    cases this
  | some cs =>
    rw [parseFrames_append s p (by omega) hv (by omega) ha]
    intro he
    have hpre := parseFrames_calls s (p.advance s cs)
    rw [he] at hpre
    simp [Parse.advance, Parse.called] at hpre

/-- Nothing is waiting: the offset wraps, and the connection is released or gets
a frame it never sent. -/
theorem wouldBlock_wraps {p : Progress} {pos : Nat} {frames : List (List UInt8)} {n : Nat}
    (h : Deframed p pos frames n) (hk : pending frames n = 0) :
    ¬ Deframed (onEvent pos p .wouldBlock) pos frames n := by
  intro h'
  have hoff := h.offset
  have hcap : recvCap = 409600 := rfl
  have hround : recvRound p.svr pos .again = consume p.svr pos (2 ^ 32 - 1) false := by
    have hmod : (2 ^ 32 - 1 + pending frames n) % 2 ^ 32 = 2 ^ 32 - 1 := by omega
    simp only [recvRound]
    rw [if_neg (by omega), hoff, hmod]
  have hcalls : (onEvent pos p .wouldBlock).calls =
      p.calls ++ (endParse p.svr pos (2 ^ 32 - 1)).calls := by
    simp only [onEvent, onRecv, hround, consume_calls]
  have hnone : (endParse p.svr pos (2 ^ 32 - 1)).calls = [] := by
    have h₁ := h'.appended
    rw [hcalls, payloads_append, h.appended] at h₁
    simpa [payloads] using h₁
  have hw := parseFrames_wrapped { p.svr.pool pos with bufOffset := 2 ^ 32 - 1 }
    (startParse p.svr pos (2 ^ 32 - 1)) rfl (by
      intro c hc
      change c ∈ (endParse p.svr pos (2 ^ 32 - 1)).calls at hc
      rw [hnone] at hc
      cases hc)
  rcases hw with hinvalid | hcall
  · have hopen := h'.is_open
    simp only [onEvent, onRecv, hround] at hopen
    rw [consume_invalid _ _ _ _ h.in_pool h.slot hinvalid] at hopen
    simp [Socket.cleared, clinetSocket] at hopen
  · exact hcall hnone

theorem wouldBlock_breaks {p : Progress} {pos : Nat} {frames : List (List UInt8)} {n : Nat}
    (hframes : ∀ f ∈ frames, ClientFrame f) (hn : n ≤ frames.flatten.length)
    (h : Deframed p pos frames n)
    (hok : ∀ c ∈ (onEvent pos p .wouldBlock).calls, c.ok = true) :
    ¬ Deframed (onEvent pos p .wouldBlock) pos frames n := by
  cases hk : pending frames n with
  | zero => exact wouldBlock_wraps h hk
  | succ k =>
    intro h'
    have := h'.offset
    rw [wouldBlock_drops hframes hn h hk hok, hk] at this
    omega

theorem runEvents_append (pos : Nat) (p : Progress) (es es' : List StreamEvent) :
    runEvents pos p (es ++ es') = runEvents pos (runEvents pos p es) es' := by
  simp [runEvents]

theorem received_append (es es' : List StreamEvent) :
    received (es ++ es') = received es ++ received es' := by
  induction es with
  | nil => rfl
  | cons e es ih => cases e <;> simp [received, ih]

theorem onEvent_calls (pos : Nat) (p : Progress) (e : StreamEvent) :
    p.calls <+: (onEvent pos p e).calls := by
  cases e with
  | data bytes => exact List.prefix_append _ _
  | wouldBlock => exact List.prefix_append _ _
  | drain => exact List.prefix_refl _

theorem runEvents_calls (pos : Nat) (p : Progress) (es : List StreamEvent) :
    p.calls <+: (runEvents pos p es).calls := by
  induction es generalizing p with
  | nil => exact List.prefix_refl _
  | cons e es ih => exact (onEvent_calls pos p e).trans (ih _)

/-- A run of positive results and reads of the pipe keeps the property. -/
theorem run_deframed {pos : Nat} {frames : List (List UInt8)}
    (hframes : ∀ f ∈ frames, ClientFrame f) (es : List StreamEvent) {p : Progress} {n : Nat}
    (h : Deframed p pos frames n) (hes : StreamEvent.wouldBlock ∉ es)
    (hbytes : received es <+: frames.flatten.drop n) (hoffer : Offered pos p es)
    (hok : ∀ c ∈ (runEvents pos p es).calls, c.ok = true) :
    Deframed (runEvents pos p es) pos frames (n + (received es).length) := by
  induction es generalizing p n with
  | nil => exact h
  | cons e es ih =>
    have hstep : ∀ c ∈ (onEvent pos p e).calls, c.ok = true := fun c hc =>
      hok c ((runEvents_calls pos _ es).subset hc)
    cases e with
    | data bytes =>
      obtain ⟨rest, hr⟩ := hbytes
      simp only [received, List.append_assoc] at hr
      have hlen : n + bytes.length ≤ frames.flatten.length := by
        have hl := congrArg List.length hr
        have hpos := List.length_pos_of_ne_nil (hoffer.1 bytes rfl h.offset_le).1
        simp only [List.length_append, List.length_drop] at hl
        omega
      have hpre : bytes = (frames.flatten.drop n).take bytes.length := by
        rw [← hr, List.take_left' rfl]
      have h' := data_deframed hframes h bytes hlen hpre (hoffer.1 bytes rfl h.offset_le).2 hstep
      have := ih h' (by simpa using hes) ⟨rest, by rw [← List.drop_drop, ← hr, List.drop_left' rfl]⟩
        hoffer.2 hok
      simpa [received, runEvents, Nat.add_assoc] using this
    | wouldBlock => simp at hes
    | drain => exact ih (drain_deframed h) (by simpa using hes) hbytes hoffer.2 hok

theorem take_ok {pos : Nat} {p : Progress} {es : List StreamEvent}
    (hok : ∀ c ∈ (runEvents pos p es).calls, c.ok = true) (i : Nat) :
    ∀ c ∈ (runEvents pos p (es.take i)).calls, c.ok = true := by
  intro c hc
  apply hok
  rw [← List.take_append_drop i es, runEvents_append]
  exact (runEvents_calls pos _ _).subset hc

theorem offered_take {pos : Nat} {p : Progress} {es : List StreamEvent} (h : Offered pos p es)
    (i : Nat) : Offered pos p (es.take i) := by
  induction es generalizing p i with
  | nil => simpa using h
  | cons e es ih =>
    cases i with
    | zero => trivial
    | succ i => exact ⟨h.1, ih h.2 i⟩

theorem received_take_le (es : List StreamEvent) (i : Nat) :
    received (es.take i) <+: received es := by
  conv => rhs; rw [← List.take_append_drop i es, received_append]
  exact List.prefix_append _ _

/-- The deframing property at every point of a run: at each prefix of the events
the connection is `Deframed`, and storing a head never changes a byte that the
loop has still to read. -/
def DeframesThroughout (t : Svr) (pos : Nat) (frames : List (List UInt8))
    (es : List StreamEvent) : Prop :=
  (∀ i, Deframed (runEvents pos ⟨t, []⟩ (es.take i)) pos frames (received (es.take i)).length) ∧
  ∀ (p : Parse) (s : Socket) (ok : Bool), tcpHeadLen ≤ p.tmpRecv →
    Memory.read (p.called s ok).mem p.tmpRecv p.left = Memory.read p.mem p.tmpRecv p.left

/-- `RecvClientData` deframes a stream of client frames losslessly, whatever the
segmentation, exactly in the runs in which `recv` never answers that it would
block. -/
theorem recvClientData_deframes_iff (t : Svr) (pos : Nat) (frames : List (List UInt8))
    (es : List StreamEvent) (hpos : pos < t.maxClientNum) (hslot : (t.pool pos).socketPos = pos)
    (hopen : (t.pool pos).type = clinetSocket) (hoffset : (t.pool pos).bufOffset = 0)
    (hframes : ∀ f ∈ frames, ClientFrame f) (hbytes : received es <+: frames.flatten)
    (hoffer : Offered pos ⟨t, []⟩ es)
    (hroom : ∀ c ∈ (runEvents pos ⟨t, []⟩ es).calls, c.ok = true) :
    DeframesThroughout t pos frames es ↔ StreamEvent.wouldBlock ∉ es := by
  have hzero : complete frames 0 = [] := by
    cases frames with
    | nil => rfl
    | cons f rest => exact complete_cons_of_lt (by have := (hframes f (by simp)).short; omega)
  have hstart : Deframed ⟨t, []⟩ pos frames 0 := by
    refine ⟨hpos, hslot, hopen, ?_, ?_, ?_, ?_⟩
    · simp [hzero]
    · simp [pending, hoffset]
    · simp [hoffset]
    · simp [hoffset]
  constructor
  · intro h hmem
    -- the first would-block answer splits the run
    obtain ⟨pre, post, rfl⟩ := List.append_of_mem hmem
    have hbefore := h.1 pre.length
    have hafter := h.1 (pre.length + 1)
    rw [List.take_left' rfl] at hbefore
    have htake : (pre ++ StreamEvent.wouldBlock :: post).take (pre.length + 1) =
        pre ++ [.wouldBlock] := by
      rw [List.take_length_add_append]
      rfl
    have hok := take_ok hroom (pre.length + 1)
    rw [htake, runEvents_append] at hafter hok
    rw [received_append] at hafter
    simp only [received, List.append_nil] at hafter
    have hlen : (received pre).length ≤ frames.flatten.length := by
      have := hbytes.length_le
      rw [received_append, List.length_append] at this
      omega
    exact wouldBlock_breaks hframes hlen hbefore hok hafter
  · intro hes
    refine ⟨?_, fun p s ok h => called_read p s ok p.left h⟩
    intro i
    have := run_deframed hframes (es.take i) hstart (fun hm => hes (List.mem_of_mem_take hm))
      (by simpa using (received_take_le es i).trans hbytes) (offered_take hoffer i)
      (take_ok hroom i)
    simpa using this

def oneClient : Svr :=
  acceptConnect (initNetwork 2 (fun _ => 0) ⟨4000, []⟩ ⟨4000, []⟩) (.ok 7 1000 80 default)

/-- The shortest client frame: five bytes, one of them payload. -/
def shortFrame : List UInt8 := [0, 0, 0, 5, 7]

theorem shortFrame_client : ∀ f ∈ [shortFrame], ClientFrame f := by
  intro f hf
  obtain rfl := List.mem_singleton.mp hf
  exact ⟨by decide, by decide, by decide⟩

theorem recvClientData_deframes_iff_two_chunks :
    DeframesThroughout oneClient 1 [shortFrame] [.data [0, 0, 0], .drain, .data [5, 7]] := by
  refine (recvClientData_deframes_iff oneClient 1 [shortFrame] [.data [0, 0, 0], .drain, .data [5, 7]]
    (by decide) (by decide) (by decide) (by decide) shortFrame_client (by decide) ?_
    (by decide +kernel)).mpr (by decide)
  have hlast : ((onEvent 1 (onEvent 1 ⟨oneClient, []⟩ (.data [0, 0, 0])) .drain).svr.pool
      1).bufOffset = 3 := by
    decide +kernel
  refine ⟨?_, ?_, ?_, trivial⟩
  · intro bytes hb _
    obtain rfl := StreamEvent.data.inj hb
    exact ⟨by decide, by decide⟩
  · intro bytes hb
    cases hb
  · intro bytes hb _
    obtain rfl := StreamEvent.data.inj hb
    rw [hlast]
    exact ⟨by decide, by decide⟩

/-- One frame, then the would-block answer that ends every read of a drained
socket: the frame is appended a second time and the connection is released. -/
theorem recvClientData_wouldBlock_duplicates :
    payloads (runEvents 1 ⟨oneClient, []⟩ [.data shortFrame, .wouldBlock]).calls =
      [shortFrame, shortFrame] ∧
    ((runEvents 1 ⟨oneClient, []⟩ [.data shortFrame, .wouldBlock]).svr.pool 1).type = 0 ∧
    ¬ DeframesThroughout oneClient 1 [shortFrame] [.data shortFrame, .wouldBlock] := by
  have htype : ((runEvents 1 ⟨oneClient, []⟩ [.data shortFrame, .wouldBlock]).svr.pool 1).type = 0 := by
    decide +kernel
  refine ⟨by decide +kernel, htype, ?_⟩
  intro h
  have hopen := (h.1 2).is_open
  change ((runEvents 1 ⟨oneClient, []⟩ [.data shortFrame, .wouldBlock]).svr.pool 1).type = _ at hopen
  rw [htype] at hopen
  cases hopen

end TcpDeframe
