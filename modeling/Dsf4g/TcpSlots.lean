import Mathlib.Data.List.Nodup
import Dsf4g.ConnIdentity

/-!
# The slot pool of the gateway

Slots leave the free list in `AcceptConnect` and come back in `SocketRelease`, which is
called from five places. A second release of one slot would put it on the list twice.
Frames of the logic server cannot cause one, since they carry the time of an accept and
a released slot has the time 0.
-/
namespace TcpSlots

open Base TcpSvr ConnIdentity

inductive Event where
  | accept (r : AcceptResult)
  /-- `EPOLLERR` on a slot. -/
  | error (pos : Nat)
  /-- One turn of the loop of `RecvClientData`. -/
  | recv (pos : Nat) (r : RecvResult)
  /-- A frame comes out of the `sc` pipe. -/
  | send (f : TcpFrame) (r : SendResult)
  /-- The logic server reads the `cs` pipe. -/
  | fetch

def fetched (t : Svr) : Svr :=
  match t.csPipe.get frameLength tcpBufLen with
  | none => t
  | some (_, cs) => { t with csPipe := cs }

def serve (t : Svr) : Event → Svr
  | .accept r => acceptConnect t r
  | .error pos => socketRelease t pos true
  | .recv pos r => (recvRound t pos r).svr
  | .send f r => sendDataToClient t f r
  | .fetch => fetched t

/-- A frame makes `SendDataToClient` release the slot it names: `send` fails, or the frame was the
last one. -/
def Ends (t : Svr) (f : TcpFrame) (r : SendResult) : Prop :=
  Reaches t f ∧ f.head.msgType ≠ logicIndexMsg ∧ (r = .failed ∨ f.head.needClose = true)

instance (t : Svr) (f : TcpFrame) (r : SendResult) : Decidable (Ends t f r) :=
  inferInstanceAs (Decidable (_ ∧ _))

/-- The gateway and the slot when the event calls `SocketRelease`. -/
def releaseCall (t : Svr) : Event → Option (Svr × Nat)
  | .accept r => acceptRelease t r
  | .error pos => if pos < t.maxClientNum then some (t, pos) else none
  | .recv pos r => (roundRelease t pos r).map fun q => (q, (t.pool pos).socketPos)
  | .send f r => if Ends t f r then some (t, (t.pool f.head.socketPos).socketPos) else none
  | .fetch => none

/-! ## What an event does to the slots -/

/-- Before the release: a slot may have been taken from the free list, and the slot that is read
has another offset. -/
inductive Before (t : Svr) : Event → Svr → Nat → Prop
  | accept {r : AcceptResult} {q : Svr} {pos : Nat} (hfree : t.freeList = pos :: q.freeList)
      (hpool : q.pool = t.pool) (hmax : q.maxClientNum = t.maxClientNum) :
      Before t (.accept r) q pos
  | error {pos : Nat} (hlt : pos < t.maxClientNum) : Before t (.error pos) t pos
  | recv {pos : Nat} {r : RecvResult} {q : Svr} (hfree : q.freeList = t.freeList)
      (hslot : ∃ n, q.pool pos = { t.pool pos with bufOffset := n })
      (hother : ∀ i, i ≠ pos → q.pool i = t.pool i) (hmax : q.maxClientNum = t.maxClientNum) :
      Before t (.recv pos r) q (t.pool pos).socketPos
  | send {f : TcpFrame} {r : SendResult} (hends : Ends t f r) :
      Before t (.send f r) t (t.pool f.head.socketPos).socketPos

/-- Without a release: a connection takes a slot, or one slot gets another offset or index. -/
inductive Kept (t : Svr) : Event → Svr → Prop
  | full {r : AcceptResult} (hfree : t.freeList = []) : Kept t (.accept r) t
  | accept {fd : Int} {msec port : Nat} {addr : Addr} {t' : Svr} {pos : Nat}
      (hfree : t.freeList = pos :: t'.freeList)
      (hslot : t'.pool pos = { t.pool pos with
        fd := fd, type := clinetSocket, createTime := msec, logicIndex := 0, bufOffset := 0,
        socketPort := port, socketAddr := addr })
      (hother : ∀ i, i ≠ pos → t'.pool i = t.pool i) (hmax : t'.maxClientNum = t.maxClientNum) :
      Kept t (.accept (.ok fd msec port addr)) t'
  | error {pos : Nat} (hlt : ¬ pos < t.maxClientNum) : Kept t (.error pos) t
  | recv {pos : Nat} {r : RecvResult} {t' : Svr} (hfree : t'.freeList = t.freeList)
      (hslot : ∃ n, t'.pool pos = { t.pool pos with bufOffset := n })
      (hother : ∀ i, i ≠ pos → t'.pool i = t.pool i) (hmax : t'.maxClientNum = t.maxClientNum) :
      Kept t (.recv pos r) t'
  | ignored {f : TcpFrame} {r : SendResult} : Kept t (.send f r) t
  | indexed {f : TcpFrame} {r : SendResult} (n : Nat) (hreach : Reaches t f) :
      Kept t (.send f r) (setSocket t f.head.socketPos
        { t.pool f.head.socketPos with logicIndex := n })
  | fetch {t' : Svr} (hfree : t'.freeList = t.freeList) (hpool : t'.pool = t.pool)
      (hmax : t'.maxClientNum = t.maxClientNum) : Kept t .fetch t'

theorem accept_effect (t : Svr) (r : AcceptResult) :
    (∃ q pos, acceptRelease t r = some (q, pos) ∧ Before t (.accept r) q pos ∧
      acceptConnect t r = socketRelease q pos true) ∨
    (acceptRelease t r = none ∧ Kept t (.accept r) (acceptConnect t r)) := by
  cases hf : t.freeList with
  | nil =>
    refine .inr ⟨by simp only [acceptRelease, hf], ?_⟩
    have hsame : acceptConnect t r = t := by simp only [acceptConnect, hf]
    rw [hsame]
    exact .full hf
  | cons pos rest =>
    cases r with
    | failed =>
      refine .inl ⟨{ t with freeList := rest }, pos, by simp only [acceptRelease, hf],
        .accept hf rfl rfl, by simp only [acceptConnect, hf]⟩
    | setupFailed fd =>
      refine .inl ⟨{ t with freeList := rest, fds := fd :: t.fds }, pos,
        by simp only [acceptRelease, hf], .accept hf rfl rfl, by simp only [acceptConnect, hf]⟩
    | ok fd msec port addr =>
      refine .inr ⟨by simp only [acceptRelease, hf], ?_⟩
      simp only [acceptConnect, hf]
      exact .accept hf (setSocket_pool ..) (fun i hi => setSocket_pool_other _ _ _ _ hi) rfl

theorem afterParse_other (t : Svr) {pos i : Nat} (n : Nat) (h : i ≠ pos) :
    (afterParse t pos n).pool i = t.pool i :=
  setSocket_pool_other _ _ _ _ h

theorem afterParse_slot (t : Svr) (pos n : Nat) :
    (afterParse t pos n).pool pos = { t.pool pos with bufOffset := n } :=
  setSocket_pool ..

theorem consume_effect (t : Svr) (pos n : Nat) (again : Bool) (r : RecvResult) :
    (∃ q, consumeRelease t pos n = some q ∧ Before t (.recv pos r) q (t.pool pos).socketPos ∧
      (consume t pos n again).svr = socketRelease q (t.pool pos).socketPos true) ∨
    (consumeRelease t pos n = none ∧ Kept t (.recv pos r) (consume t pos n again).svr) := by
  have hother : ∀ i, i ≠ pos → (afterParse t pos n).pool i = t.pool i :=
    fun i hi => afterParse_other t n hi
  simp only [consume, consumeRelease]
  split
  · exact .inl ⟨_, rfl, .recv rfl ⟨n, afterParse_slot t pos n⟩ hother rfl, rfl⟩
  · refine .inr ⟨rfl, ?_⟩
    split
    · refine .recv rfl ⟨(endParse t pos n).left, ?_⟩ (fun i hi => ?_) rfl
      · simp only [compact, setSocket_pool, afterParse_slot]
      · simp only [compact, setSocket_pool_other _ _ _ _ hi]
        exact hother i hi
    · exact .recv rfl ⟨n, afterParse_slot t pos n⟩ hother rfl

theorem recv_effect (t : Svr) (pos : Nat) (r : RecvResult) :
    (∃ q, roundRelease t pos r = some q ∧ Before t (.recv pos r) q (t.pool pos).socketPos ∧
      (recvRound t pos r).svr = socketRelease q (t.pool pos).socketPos true) ∨
    (roundRelease t pos r = none ∧ Kept t (.recv pos r) (recvRound t pos r).svr) := by
  have hsame : Before t (.recv pos r) t (t.pool pos).socketPos :=
    .recv rfl ⟨_, rfl⟩ (fun _ _ => rfl) rfl
  simp only [recvRound, roundRelease]
  split
  · exact .inr ⟨rfl, .recv rfl ⟨_, rfl⟩ (fun _ _ => rfl) rfl⟩
  · cases r with
    | eof => exact .inl ⟨t, rfl, hsame, rfl⟩
    | fatal => exact .inl ⟨t, rfl, hsame, rfl⟩
    | again => exact consume_effect t pos _ false .again
    | data bytes =>
      obtain ⟨q, hq, hbefore, heq⟩ | ⟨hnone, hkept⟩ := consume_effect
        { t with mem := Memory.write t.mem (recvBuf pos + (t.pool pos).bufOffset) bytes } pos
        (((t.pool pos).bufOffset + bytes.length) % 2 ^ 32) true (.data bytes)
      · cases hbefore with
        | recv hfree hslot hother hmax => exact .inl ⟨q, hq, .recv hfree hslot hother hmax, heq⟩
      · refine .inr ⟨hnone, ?_⟩
        cases hkept with
        | recv hfree hslot hother hmax => exact .recv hfree hslot hother hmax

theorem send_effect (t : Svr) (f : TcpFrame) (r : SendResult) :
    (Ends t f r ∧ ∃ notify, sendDataToClient t f r =
      socketRelease t (t.pool f.head.socketPos).socketPos notify) ∨
    (¬ Ends t f r ∧ Kept t (.send f r) (sendDataToClient t f r)) := by
  simp only [sendDataToClient]
  split
  · next hpos =>
    exact .inr ⟨fun h => absurd h.1.inRange (Nat.not_lt.mpr hpos), .ignored⟩
  next hpos =>
  split
  · next htime => exact .inr ⟨fun h => htime h.1.sameTime, .ignored⟩
  next htime =>
  have hreach : Reaches t f := ⟨Nat.not_le.mp hpos, not_not.mp htime⟩
  split
  · next hindex =>
    refine .inr ⟨fun h => h.2.1 hindex, ?_⟩
    split
    · exact .indexed _ hreach
    · exact .ignored
  next hindex =>
  cases r with
  | failed => exact .inl ⟨⟨hreach, hindex, .inl rfl⟩, true, rfl⟩
  | sent =>
    by_cases hclose : f.head.needClose = true
    · exact .inl ⟨⟨hreach, hindex, .inr hclose⟩, false, by simp only [hclose, if_true]⟩
    · refine .inr ⟨fun h => hclose (h.2.2.resolve_left (by simp)), ?_⟩
      simp only [hclose, Bool.false_eq_true, if_false]
      exact .ignored

/-- Every event calls `SocketRelease` at its end, or leaves the slots where they are. -/
theorem serve_effect (t : Svr) (e : Event) :
    (∃ q pos notify, releaseCall t e = some (q, pos) ∧ Before t e q pos ∧
      serve t e = socketRelease q pos notify) ∨
    (releaseCall t e = none ∧ Kept t e (serve t e)) := by
  cases e with
  | accept r =>
    obtain ⟨q, pos, hcall, hbefore, heq⟩ | h := accept_effect t r
    · exact .inl ⟨q, pos, true, hcall, hbefore, heq⟩
    · exact .inr h
  | error pos =>
    by_cases hlt : pos < t.maxClientNum
    · exact .inl ⟨t, pos, true, if_pos hlt, .error hlt, rfl⟩
    · have hsame : serve t (.error pos) = t := if_pos (Nat.not_lt.mp hlt)
      rw [hsame]
      exact .inr ⟨if_neg hlt, .error hlt⟩
  | recv pos r =>
    obtain ⟨q, hcall, hbefore, heq⟩ | ⟨hnone, hkept⟩ := recv_effect t pos r
    · exact .inl ⟨q, _, true, by simp only [releaseCall, hcall, Option.map_some], hbefore, heq⟩
    · exact .inr ⟨by simp only [releaseCall, hnone, Option.map_none], hkept⟩
  | send f r =>
    obtain ⟨hends, notify, heq⟩ | ⟨hnone, hkept⟩ := send_effect t f r
    · exact .inl ⟨t, _, notify, if_pos hends, .send hends, heq⟩
    · exact .inr ⟨if_neg hnone, hkept⟩
  | fetch =>
    refine .inr ⟨rfl, ?_⟩
    simp only [serve, fetched]
    split
    · exact .fetch rfl rfl rfl
    · exact .fetch rfl rfl rfl

/-! ## The slots of connections -/

/-- What a slot is for, apart from what its fields say. -/
inductive Status where
  | listening
  /-- No connection has been accepted in it. -/
  | unused
  | live
  /-- `SocketRelease` was the last to touch it. -/
  | released
  deriving DecidableEq, Repr

/-- The gateway with the status of every slot and the names in the heads it has produced. -/
structure World where
  tcp : Svr
  status : Nat → Status
  heads : List Conn

/-- The names in the messages that were handed to the logic server. The head of a disconnect notice
is not among them, since `GetClientMessage` passes on only the uid behind it. -/
def producedHeads (calls : List AppendCall) : List Conn :=
  (calls.filter fun call => call.ok).map fun call => call.frame.head.conn

def headsOf (t : Svr) : Event → List Conn
  | .recv pos r => producedHeads (recvRound t pos r).calls
  | _ => []

def statusOf (w : World) (e : Event) : Nat → Status :=
  match releaseCall w.tcp e, e, w.tcp.freeList with
  | some (_, pos), _, _ => Function.update w.status pos .released
  | none, .accept _, pos :: _ => Function.update w.status pos .live
  | none, _, _ => w.status

def World.after (w : World) (e : Event) : World where
  tcp := serve w.tcp e
  status := statusOf w e
  heads := w.heads ++ headsOf w.tcp e

def Fits : Event → Prop
  | .accept (.ok _ msec _ _) => msec < 2 ^ 64
  | _ => True

instance : (e : Event) → Decidable (Fits e)
  | .accept (.ok ..) => inferInstanceAs (Decidable (_ < _))
  | .accept .failed | .accept (.setupFailed _) | .error _ | .recv .. | .send .. | .fetch =>
    inferInstanceAs (Decidable True)

def next (w : World) (e : Event) : Option World := if Fits e then some (w.after e) else none

/-- The slots come from `new` and hold what its memory held; only the position is set. -/
def initNetwork (maxClientNum : UInt32) (raw : Nat → Socket) (mem : Nat → UInt8)
    (cs sc : Fifo TcpFrame) : Svr where
  maxClientNum := maxClientNum.toNat
  pool := fun pos =>
    if pos = 0 then { raw 0 with socketPos := 0, type := listenSocket }
    else { raw pos with socketPos := pos }
  mem := mem
  freeList := (List.range maxClientNum.toNat).tail
  fds := []
  csPipe := cs
  scPipe := sc

/-- Zeroed memory is a special case. -/
theorem initNetwork_cleared (maxClientNum : UInt32) (mem : Nat → UInt8) (cs sc : Fifo TcpFrame) :
    initNetwork maxClientNum Socket.cleared mem cs sc =
      TcpSvr.initNetwork maxClientNum.toNat mem cs sc := rfl

def initial (maxClientNum : UInt32) (raw : Nat → Socket) (mem : Nat → UInt8)
    (cs sc : Fifo TcpFrame) : World where
  tcp := initNetwork maxClientNum raw mem cs sc
  status := fun pos => if pos = 0 then .listening else .unused
  heads := []

/-- `create_time` is positive; frames of the logic server carry heads that it was given;
`epoll_wait` reports slots of connections, and no error on the listening socket. -/
def Assumed (w : World) : Event → Prop
  | .accept (.ok _ msec _ _) => 0 < msec
  | .error pos => w.status pos = .live
  | .recv pos _ => w.status pos = .live
  | .send f _ => f.head.conn ∈ w.heads
  | _ => True

inductive Part where
  | free | listening | live
  deriving DecidableEq, Repr

def InPart (w : World) (pos : Nat) : Part → Prop
  | .free => pos ∈ w.tcp.freeList
  | .listening => w.status pos = .listening
  | .live => w.status pos = .live

/-- Every slot is free, listening or in use by a connection, and a released slot is cleared and out
of reach of the logic server. -/
structure Accounted (w : World) : Prop where
  nodup : w.tcp.freeList.Nodup
  inRange : ∀ pos ∈ w.tcp.freeList, pos < w.tcp.maxClientNum
  parts : ∀ pos < w.tcp.maxClientNum, ∃! part, InPart w pos part
  cleared : ∀ pos, w.status pos = .released →
    (w.tcp.pool pos).createTime = 0 ∧ (w.tcp.pool pos).logicIndex = 0 ∧
      (w.tcp.pool pos).bufOffset = 0
  deaf : ∀ f : TcpFrame, f.head.conn ∈ w.heads → w.status f.head.socketPos = .released →
    ∀ r, sendDataToClient w.tcp f r = w.tcp

/-! ## The invariant -/

def Status.part : Status → Part
  | .listening => .listening
  | .live => .live
  | .unused | .released => .free

def Known (s : Status) : Prop := s = .live ∨ s = .released

structure Inv (n : UInt32) (w : World) : Prop where
  maxClientNum : w.tcp.maxClientNum = n.toNat
  named : ∀ pos, (w.tcp.pool pos).socketPos = pos
  nodup : w.tcp.freeList.Nodup
  free : ∀ pos, pos ∈ w.tcp.freeList ↔
    pos < n.toNat ∧ (w.status pos = .unused ∨ w.status pos = .released)
  listening : ∀ pos, w.status pos = .listening ↔ pos = 0
  live : ∀ pos, w.status pos = .live →
    pos < n.toNat ∧ 0 < (w.tcp.pool pos).createTime ∧ (w.tcp.pool pos).createTime < 2 ^ 64
  cleared : ∀ pos, w.status pos = .released → w.tcp.pool pos = Socket.cleared pos
  heads : ∀ h ∈ w.heads, 0 < h.createTime ∧ Known (w.status h.socketPos)

theorem initial_inv (n : UInt32) (raw : Nat → Socket) (mem : Nat → UInt8) (cs sc : Fifo TcpFrame) :
    Inv n (initial n raw mem cs sc) := by
  have hstatus : ∀ pos, (initial n raw mem cs sc).status pos =
      if pos = 0 then .listening else .unused := fun _ => rfl
  refine ⟨rfl, fun pos => ?_, List.nodup_range.tail, fun pos => ?_, fun pos => ?_, fun pos h => ?_,
    fun pos h => ?_, fun h hh => by cases hh⟩
  · simp only [initial, initNetwork]
    split
    · next h => exact h.symm
    · rfl
  · rw [hstatus]
    simp only [initial, initNetwork, List.tail_range, List.mem_range'_1]
    by_cases hpos : pos = 0
    · simp [hpos]
    · simp only [hpos, if_false, true_or, and_true]
      omega
  · rw [hstatus]
    by_cases hpos : pos = 0
    · simp [hpos]
    · simp [hpos]
  · rw [hstatus] at h
    split at h
    · cases h
    · cases h
  · rw [hstatus] at h
    split at h
    · cases h
    · cases h

section Steps

variable {n : UInt32} {w : World}

theorem Inv.inPart (h : Inv n w) {pos : Nat} (hlt : pos < n.toNat) (part : Part) :
    InPart w pos part ↔ (w.status pos).part = part := by
  have hfree := h.free pos
  simp only [hlt, true_and] at hfree
  cases hs : w.status pos with
  | listening => cases part <;> simp [InPart, Status.part, hs, hfree]
  | unused => cases part <;> simp [InPart, Status.part, hs, hfree]
  | live => cases part <;> simp [InPart, Status.part, hs, hfree]
  | released => cases part <;> simp [InPart, Status.part, hs, hfree]

theorem Inv.accounted (h : Inv n w) : Accounted w := by
  refine ⟨h.nodup, fun pos hpos => ?_, fun pos hlt => ?_, fun pos hr => ?_, fun f hf hr r => ?_⟩
  · rw [h.maxClientNum]
    exact ((h.free pos).mp hpos).1
  · rw [h.maxClientNum] at hlt
    exact ⟨_, (h.inPart hlt _).mpr rfl, fun part hpart => ((h.inPart hlt part).mp hpart).symm⟩
  · rw [h.cleared pos hr]
    exact ⟨rfl, rfl, rfl⟩
  · have htime : f.head.createTime ≠ (w.tcp.pool f.head.socketPos).createTime := by
      rw [h.cleared _ hr]
      exact Nat.ne_of_gt (h.heads _ hf).1
    simp only [sendDataToClient]
    rw [if_pos htime, ite_self]

theorem Inv.not_free (h : Inv n w) {pos : Nat} (hs : w.status pos = .live) :
    pos ∉ w.tcp.freeList := by
  intro hfree
  obtain hs' | hs' := ((h.free pos).mp hfree).2
  · rw [hs] at hs'
    cases hs'
  · rw [hs] at hs'
    cases hs'

/-- A frame under a produced head finds its time in the slots of connections only. -/
theorem Inv.reached (h : Inv n w) {f : TcpFrame} (hf : f.head.conn ∈ w.heads)
    (hr : Reaches w.tcp f) : w.status f.head.socketPos = .live := by
  obtain ⟨hpos, hknown⟩ := h.heads _ hf
  refine hknown.resolve_right fun hs => ?_
  have htime : f.head.createTime = (w.tcp.pool f.head.conn.socketPos).createTime := hr.sameTime
  rw [h.cleared _ hs] at htime
  exact absurd htime (Nat.ne_of_gt hpos)

/-- The heads of a slot in use name its connection. -/
theorem Inv.produced (h : Inv n w) {pos : Nat} (hs : w.status pos = .live) (r : RecvResult) :
    ∀ k ∈ headsOf w.tcp (.recv pos r), 0 < k.createTime ∧ k.socketPos = pos := by
  intro k hk
  obtain ⟨call, hcall, rfl⟩ := List.mem_map.mp hk
  obtain ⟨hlt, hpos, htime⟩ := h.live pos hs
  have hslot : (w.tcp.pool pos).socketPos < 2 ^ 32 := by
    rw [h.named]
    exact Nat.lt_trans hlt n.toNat_lt
  rw [recvRound_conn w.tcp pos r hslot htime call (List.mem_of_mem_filter hcall)]
  exact ⟨hpos, h.named pos⟩

/-- The slot goes to the end of the free list. -/
theorem Inv.freed (h : Inv n w) {q : Svr} {pos : Nat} {notify : Bool} {new : List Conn}
    (hlt : pos < n.toNat) (hne : w.status pos ≠ .listening)
    (hmax : q.maxClientNum = w.tcp.maxClientNum) (hnodup : q.freeList.Nodup)
    (hfree : ∀ i, i ∈ q.freeList ↔ i ∈ w.tcp.freeList ∧ i ≠ pos)
    (hpool : ∀ i, i ≠ pos → q.pool i = w.tcp.pool i)
    (hnew : ∀ k ∈ new, 0 < k.createTime ∧ k.socketPos = pos) :
    Inv n ⟨socketRelease q pos notify, Function.update w.status pos .released, w.heads ++ new⟩ := by
  have hr := socketRelease_released q pos notify (by rw [hmax, h.maxClientNum]; exact hlt)
  have hslot : ∀ i, i ≠ pos → (socketRelease q pos notify).pool i = w.tcp.pool i :=
    fun i hi => (hr.other i hi).trans (hpool i hi)
  have hself : Function.update w.status pos .released pos = .released := Function.update_self ..
  have hstatus : ∀ i, i ≠ pos → Function.update w.status pos .released i = w.status i :=
    fun i hi => Function.update_of_ne hi ..
  constructor
  case maxClientNum => exact (hr.maxClientNum.trans hmax).trans h.maxClientNum
  case named =>
    intro i
    by_cases hi : i = pos
    · subst hi
      show ((socketRelease q i notify).pool i).socketPos = i
      rw [hr.slot]
      rfl
    · show ((socketRelease q pos notify).pool i).socketPos = i
      rw [hslot i hi]
      exact h.named i
  case nodup =>
    show (socketRelease q pos notify).freeList.Nodup
    rw [hr.freeList]
    refine hnodup.append (List.nodup_singleton pos) fun i hi hip => ?_
    exact ((hfree i).mp hi).2 (List.mem_singleton.mp hip)
  case free =>
    intro i
    show i ∈ (socketRelease q pos notify).freeList ↔ _
    rw [hr.freeList, List.mem_append, List.mem_singleton, hfree i]
    by_cases hi : i = pos
    · subst hi
      simp [hlt]
    · simp only [hi, ne_eq, not_false_eq_true, and_true, or_false, hstatus i hi]
      exact h.free i
  case listening =>
    intro i
    by_cases hi : i = pos
    · subst hi
      have hzero : i ≠ 0 := fun hz => hne ((h.listening i).mpr hz)
      simp [hzero]
    · simp only [hstatus i hi]
      exact h.listening i
  case live =>
    intro i hs
    by_cases hi : i = pos
    · subst hi
      simp only [hself] at hs
      cases hs
    · simp only [hstatus i hi] at hs
      simp only [hslot i hi]
      exact h.live i hs
  case cleared =>
    intro i hs
    by_cases hi : i = pos
    · subst hi
      exact hr.slot
    · simp only [hstatus i hi] at hs
      simp only [hslot i hi]
      exact h.cleared i hs
  case heads =>
    intro k hk
    by_cases hi : k.socketPos = pos
    · refine ⟨?_, by simp only [hi, hself]; exact .inr rfl⟩
      obtain hk | hk := List.mem_append.mp hk
      · exact (h.heads k hk).1
      · exact (hnew k hk).1
    · obtain hk | hk := List.mem_append.mp hk
      · simp only [hstatus _ hi]
        exact h.heads k hk
      · exact absurd (hnew k hk).2 hi

/-- Slots in use get another offset or index. -/
theorem Inv.kept (h : Inv n w) {t : Svr} {new : List Conn}
    (hmax : t.maxClientNum = w.tcp.maxClientNum) (hfree : t.freeList = w.tcp.freeList)
    (hnamed : ∀ i, (t.pool i).socketPos = (w.tcp.pool i).socketPos)
    (htime : ∀ i, (t.pool i).createTime = (w.tcp.pool i).createTime)
    (hslot : ∀ i, w.status i ≠ .live → t.pool i = w.tcp.pool i)
    (hnew : ∀ k ∈ new, 0 < k.createTime ∧ w.status k.socketPos = .live) :
    Inv n ⟨t, w.status, w.heads ++ new⟩ := by
  refine ⟨hmax.trans h.maxClientNum, fun i => (hnamed i).trans (h.named i), ?_, fun i => ?_,
    h.listening, fun i hs => ?_, fun i hs => ?_, fun k hk => ?_⟩
  · show t.freeList.Nodup
    rw [hfree]
    exact h.nodup
  · show i ∈ t.freeList ↔ _
    rw [hfree]
    exact h.free i
  · show i < n.toNat ∧ 0 < (t.pool i).createTime ∧ (t.pool i).createTime < 2 ^ 64
    rw [htime]
    exact h.live i hs
  · have hs : w.status i = .released := hs
    show t.pool i = _
    rw [hslot i (by rw [hs]; simp)]
    exact h.cleared i hs
  · obtain hk | hk := List.mem_append.mp hk
    · exact h.heads k hk
    · exact ⟨(hnew k hk).1, .inl (hnew k hk).2⟩

/-- One slot in use is stored to, and keeps its name. -/
theorem Inv.keptSlot (h : Inv n w) {t : Svr} {pos : Nat} {new : List Conn}
    (hlive : w.status pos = .live) (hmax : t.maxClientNum = w.tcp.maxClientNum)
    (hfree : t.freeList = w.tcp.freeList) (hother : ∀ i, i ≠ pos → t.pool i = w.tcp.pool i)
    (hconn : (t.pool pos).conn = (w.tcp.pool pos).conn)
    (hnew : ∀ k ∈ new, 0 < k.createTime ∧ w.status k.socketPos = .live) :
    Inv n ⟨t, w.status, w.heads ++ new⟩ := by
  have hname : ∀ i, (t.pool i).conn = (w.tcp.pool i).conn := by
    intro i
    by_cases hi : i = pos
    · rw [hi]
      exact hconn
    · rw [hother i hi]
  refine h.kept hmax hfree (fun i => congrArg Conn.socketPos (hname i))
    (fun i => congrArg Conn.createTime (hname i)) (fun i hs => ?_) hnew
  apply hother
  rintro rfl
  exact hs hlive

/-- A connection takes the first free slot. -/
theorem Inv.accepted (h : Inv n w) {t : Svr} {pos : Nat}
    (hmax : t.maxClientNum = w.tcp.maxClientNum) (hfree : w.tcp.freeList = pos :: t.freeList)
    (hnamed : (t.pool pos).socketPos = pos)
    (htime : 0 < (t.pool pos).createTime ∧ (t.pool pos).createTime < 2 ^ 64)
    (hother : ∀ i, i ≠ pos → t.pool i = w.tcp.pool i) :
    Inv n ⟨t, Function.update w.status pos .live, w.heads⟩ := by
  obtain ⟨hlt, hold⟩ := (h.free pos).mp (by rw [hfree]; exact List.mem_cons_self ..)
  have hnd := List.nodup_cons.mp (hfree ▸ h.nodup)
  have hself : Function.update w.status pos .live pos = .live := Function.update_self ..
  have hstatus : ∀ i, i ≠ pos → Function.update w.status pos .live i = w.status i :=
    fun i hi => Function.update_of_ne hi ..
  refine ⟨hmax.trans h.maxClientNum, fun i => ?_, hnd.2, fun i => ?_, fun i => ?_, fun i hs => ?_,
    fun i hs => ?_, fun k hk => ?_⟩
  · by_cases hi : i = pos
    · subst hi
      exact hnamed
    · show (t.pool i).socketPos = i
      rw [hother i hi]
      exact h.named i
  · by_cases hi : i = pos
    · subst hi
      simp only [hnd.1, hself, reduceCtorEq, or_self, and_false]
    · have hi' := h.free i
      rw [hfree, List.mem_cons, or_iff_right hi] at hi'
      simp only [hstatus i hi]
      exact hi'
  · by_cases hi : i = pos
    · subst hi
      have hzero : i ≠ 0 := by
        intro hz
        rw [(h.listening i).mpr hz] at hold
        simp at hold
      simp [hzero]
    · simp only [hstatus i hi]
      exact h.listening i
  · by_cases hi : i = pos
    · subst hi
      exact ⟨hlt, htime⟩
    · simp only [hstatus i hi] at hs
      simp only [hother i hi]
      exact h.live i hs
  · by_cases hi : i = pos
    · subst hi
      simp only [hself] at hs
      cases hs
    · simp only [hstatus i hi] at hs
      simp only [hother i hi]
      exact h.cleared i hs
  · obtain ⟨hpos, hknown⟩ := h.heads k hk
    refine ⟨hpos, ?_⟩
    by_cases hi : k.socketPos = pos
    · simp only [hi, hself]
      exact .inl rfl
    · simp only [hstatus _ hi]
      exact hknown

/-- A release clears its slot and ends the connection in it. -/
theorem Inv.before (h : Inv n w) {e : Event} (hg : Assumed w e) {q : Svr} {pos : Nat}
    (hb : Before w.tcp e q pos) (notify : Bool) :
    Inv n ⟨socketRelease q pos notify, Function.update w.status pos .released,
      w.heads ++ headsOf w.tcp e⟩ := by
  have hlive : ∀ i, w.status i = .live → i < n.toNat ∧ w.status i ≠ .listening ∧
      ∀ j, j ∈ w.tcp.freeList ↔ j ∈ w.tcp.freeList ∧ j ≠ i := by
    intro i hs
    refine ⟨(h.live i hs).1, by rw [hs]; simp, fun j => ⟨fun hj => ⟨hj, ?_⟩, And.left⟩⟩
    rintro rfl
    exact h.not_free hs hj
  cases hb with
  | accept hfree hpool hmax =>
    have hmem : pos ∈ w.tcp.freeList := by
      rw [hfree]
      exact List.mem_cons_self ..
    obtain ⟨hlt, hold⟩ := (h.free pos).mp hmem
    have hnd := List.nodup_cons.mp (hfree ▸ h.nodup)
    refine h.freed hlt (fun hs => ?_) hmax hnd.2 (fun i => ?_) (fun i _ => by rw [hpool])
      (fun k hk => by cases hk)
    · rw [hs] at hold
      simp at hold
    · rw [hfree, List.mem_cons]
      by_cases hi : i = pos
      · subst hi
        simp [hnd.1]
      · simp [hi]
  | error hlt =>
    obtain ⟨hlt, hne, hfree⟩ := hlive _ hg
    exact h.freed hlt hne rfl h.nodup hfree (fun _ _ => rfl) (fun k hk => by cases hk)
  | @recv pos r q hfree hslot hother hmax =>
    obtain ⟨hlt, hne, hlist⟩ := hlive pos hg
    rw [h.named]
    refine h.freed hlt hne hmax (by rw [hfree]; exact h.nodup) ?_ hother (h.produced hg r)
    intro i
    rw [hfree]
    exact hlist i
  | @send f r hends =>
    obtain ⟨hlt, hne, hfree⟩ := hlive _ (h.reached hg hends.1)
    rw [h.named]
    exact h.freed hlt hne rfl h.nodup hfree (fun _ _ => rfl) (fun k hk => by cases hk)

/-- Every event keeps the invariant. -/
theorem Inv.after (h : Inv n w) {e : Event} (hg : Assumed w e) (hf : Fits e) :
    Inv n (w.after e) := by
  obtain ⟨q, pos, notify, hcall, hbefore, heq⟩ | ⟨hnone, hkept⟩ := serve_effect w.tcp e
  · simp only [World.after, statusOf, hcall, heq]
    exact h.before hg hbefore notify
  · simp only [World.after]
    generalize ht : serve w.tcp e = t at hkept
    cases hkept with
    | full hfree =>
      simp only [statusOf, hnone, hfree]
      exact h.kept rfl rfl (fun _ => rfl) (fun _ => rfl) (fun _ _ => rfl) (fun k hk => by cases hk)
    | @accept fd msec port addr t pos hfree hslot hother hmax =>
      simp only [statusOf, hnone, hfree, headsOf, List.append_nil]
      refine h.accepted hmax hfree ?_ ?_ hother
      · rw [hslot]
        exact h.named pos
      · rw [hslot]
        exact ⟨hg, hf⟩
    | error hlt =>
      simp only [statusOf, hnone]
      exact h.kept rfl rfl (fun _ => rfl) (fun _ => rfl) (fun _ _ => rfl) (fun k hk => by cases hk)
    | @recv pos r t hfree hslot hother hmax =>
      obtain ⟨m, hslot⟩ := hslot
      simp only [statusOf, hnone]
      refine h.keptSlot hg hmax hfree hother (by rw [hslot]; rfl) fun k hk => ?_
      obtain ⟨hpos, hk⟩ := h.produced hg r k hk
      exact ⟨hpos, by rw [hk]; exact hg⟩
    | ignored =>
      simp only [statusOf, hnone]
      exact h.kept rfl rfl (fun _ => rfl) (fun _ => rfl) (fun _ _ => rfl) (fun k hk => by cases hk)
    | @indexed f r m hreach =>
      simp only [statusOf, hnone]
      refine h.keptSlot (h.reached hg hreach) rfl rfl (fun i hi => setSocket_pool_other _ _ _ _ hi)
        ?_ (fun k hk => by cases hk)
      rw [setSocket_pool]
      rfl
    | fetch hfree hpool hmax =>
      simp only [statusOf, hnone]
      exact h.kept hmax hfree (fun _ => by rw [hpool]) (fun _ => by rw [hpool])
        (fun _ _ => by rw [hpool]) (fun k hk => by cases hk)

end Steps

/-- In every run the slots are accounted for. -/
theorem run_accounted (n : UInt32) (raw : Nat → Socket) (mem : Nat → UInt8) (cs sc : Fifo TcpFrame)
    {es : List Event} {w : World}
    (h : Trace.Run (fun w e w' => next w e = some w') Assumed (initial n raw mem cs sc) es w) :
    Accounted w := by
  refine (h.invariant (Inv n) (initial_inv n raw mem cs sc) fun w e w' hw hg hs => ?_).accounted
  rw [next] at hs
  split at hs
  · next hf =>
    cases hs
    exact hw.after hg hf
  · cases hs

instance (w : World) : (e : Event) → Decidable (Assumed w e)
  | .accept (.ok ..) => inferInstanceAs (Decidable (_ < _))
  | .error _ | .recv .. => inferInstanceAs (Decidable (_ = Status.live))
  | .send .. => inferInstanceAs (Decidable (_ ∈ _))
  | .accept .failed | .accept (.setupFailed _) | .fetch => inferInstanceAs (Decidable True)

/-- A kick of the connection accepted in slot 1 at millisecond 1000. -/
def sampleKick : TcpFrame := ⟨⟨1000, 1, 0, [], tcpNormal, true⟩, [0, 0, 0, 5, 7], ⟨1, 1000⟩⟩

/-- An accept fails, a connection sends a message and is kicked, and a second kick comes late. -/
theorem run_accounted_kicked :
    ∃ es w, Trace.Run (fun w e w' => next w e = some w') Assumed
        (initial 3 Socket.cleared (fun _ => 0) ⟨10000, []⟩ ⟨10000, []⟩) es w ∧
      (w.tcp.freeList = [2, 1] ∧ w.status 1 = .released ∧ w.heads = [⟨1, 1000⟩]) ∧ Accounted w := by
  obtain ⟨w, hrun, hend⟩ := Trace.exists_run_of_exec next Assumed
    (initial 3 Socket.cleared (fun _ => 0) ⟨10000, []⟩ ⟨10000, []⟩)
    [.accept .failed, .accept (.setupFailed 5), .accept (.ok 5 1000 80 default),
      .recv 1 (.data [0, 0, 0, 5, 7]), .fetch, .send sampleKick .sent, .send sampleKick .failed]
    (fun w => w.tcp.freeList = [2, 1] ∧ w.status 1 = .released ∧ w.heads = [⟨1, 1000⟩])
    (by decide +kernel)
  exact ⟨_, w, hrun, hend, run_accounted 3 _ _ _ _ hrun⟩

end TcpSlots
