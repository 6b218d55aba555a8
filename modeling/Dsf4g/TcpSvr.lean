import Dsf4g.Base
import Dsf4g.Lib.Fifo

/-!
# The client gateway

`src/tcpsvr/tcpsvr.cpp`. All receive buffers lie in one allocation; the buffer of
slot `pos` starts behind room for one `stTcpHead`, and frames are handed to the
`cs` pipe in place, with the head written over the bytes before the frame. The
pipes are the bounded queues that `ShmPipe` refines. Kernel answers (`accept`,
`recv`, `send`) are arguments.
-/
namespace TcpSvr

open Base

def listenSocket : Nat := 1
def clinetSocket : Nat := 2

def recvCap : Nat := maxBufLen * 100
def recvBufLen : Nat := tcpHeadLen + maxBufLen * 100

/-- A frame in the `cs` or `sc` pipe: `stTcpHead`, then the payload. `conn` is not
part of the bytes: it records which connection the sender meant, for statements
about whole runs. -/
structure TcpFrame where
  head : TcpHead
  payload : List UInt8
  conn : Conn
  deriving DecidableEq, Repr

/-- Pipe cells of a frame: length header, `stTcpHead`, payload. -/
def TcpFrame.cost (f : TcpFrame) : Nat := 4 + (tcpHeadLen + f.payload.length)

/-- `stSocket`; `recv_buf` is determined by the slot. -/
structure Socket where
  fd : Int
  type : Nat
  logicIndex : Nat
  bufOffset : Nat
  createTime : Nat
  socketPos : Nat
  socketPort : Nat
  socketAddr : Addr

def Socket.conn (s : Socket) : Conn := ⟨s.socketPos, s.createTime⟩

def Socket.cleared (pos : Nat) : Socket := ⟨0, 0, 0, 0, 0, pos, 0, default⟩

structure Svr where
  maxClientNum : Nat
  pool : Nat → Socket
  mem : Nat → UInt8
  freeList : List Nat
  /-- Descriptors returned by `accept` and not closed yet. -/
  fds : List Int
  csPipe : Fifo TcpFrame
  scPipe : Fifo TcpFrame

def recvBuf (pos : Nat) : Nat := pos * recvBufLen + tcpHeadLen

def setSocket (t : Svr) (pos : Nat) (s : Socket) : Svr :=
  { t with pool := fun i => if i = pos then s else t.pool i }

@[simp] theorem setSocket_pool (t : Svr) (pos : Nat) (s : Socket) :
    (setSocket t pos s).pool pos = s := by simp [setSocket]
@[simp] theorem setSocket_pool_other (t : Svr) (pos i : Nat) (s : Socket) (h : i ≠ pos) :
    (setSocket t pos s).pool i = t.pool i := by simp [setSocket, h]

@[simp] theorem setSocket_maxClientNum (t : Svr) (pos : Nat) (s : Socket) :
    (setSocket t pos s).maxClientNum = t.maxClientNum := rfl
@[simp] theorem setSocket_mem (t : Svr) (pos : Nat) (s : Socket) :
    (setSocket t pos s).mem = t.mem := rfl
@[simp] theorem setSocket_freeList (t : Svr) (pos : Nat) (s : Socket) :
    (setSocket t pos s).freeList = t.freeList := rfl
@[simp] theorem setSocket_csPipe (t : Svr) (pos : Nat) (s : Socket) :
    (setSocket t pos s).csPipe = t.csPipe := rfl
@[simp] theorem setSocket_scPipe (t : Svr) (pos : Nat) (s : Socket) :
    (setSocket t pos s).scPipe = t.scPipe := rfl

/-- `SocketPoolInit` over zeroed slots, then the first slot for the listener. -/
def initNetwork (maxClientNum : Nat) (mem : Nat → UInt8) (cs sc : Fifo TcpFrame) : Svr where
  maxClientNum := maxClientNum
  pool := fun pos =>
    if pos = 0 then { Socket.cleared 0 with type := listenSocket } else Socket.cleared pos
  mem := mem
  freeList := (List.range maxClientNum).tail
  fds := []
  csPipe := cs
  scPipe := sc

/-- `NotifyLogicDiscon`: only the message type is set in the head; the rest is
what the bytes before the receive buffer held. A full pipe drops the notice. -/
def notifyLogicDiscon (t : Svr) (pos : Nat) : Svr :=
  let s := t.pool pos
  let m := Memory.write t.mem (recvBuf pos - tcpHeadLen + 32) (Bytes.le 4 cliDiscon)
  let m := Memory.write m (recvBuf pos) (Bytes.le 8 s.logicIndex)
  let f : TcpFrame :=
    ⟨readTcpHead m (recvBuf pos - tcpHeadLen), Memory.read m (recvBuf pos) 8, s.conn⟩
  { t with mem := m, csPipe := (t.csPipe.append TcpFrame.cost f).getD t.csPipe }

def socketRelease (t : Svr) (pos : Nat) (notifyLogic : Bool) : Svr :=
  if pos ≥ t.maxClientNum then t
  else
    let s := t.pool pos
    let t := { t with fds := t.fds.erase s.fd }
    let t := if notifyLogic && s.logicIndex != 0 then notifyLogicDiscon t pos else t
    { setSocket t pos (Socket.cleared pos) with freeList := t.freeList ++ [pos] }

/-- A released slot is cleared. -/
theorem socketRelease_pool (t : Svr) (pos : Nat) (b : Bool) (h : pos < t.maxClientNum) :
    (socketRelease t pos b).pool pos = Socket.cleared pos := by
  simp [socketRelease, Nat.not_le.mpr h, setSocket]

inductive AcceptResult where
  | failed
  /-- `fcntl` or `epoll_ctl` fails on the new descriptor. -/
  | setupFailed (fd : Int)
  | ok (fd : Int) (msec port : Nat) (addr : Addr)

def acceptConnect (t : Svr) (r : AcceptResult) : Svr :=
  match t.freeList with
  | [] => t
  | pos :: rest =>
    let t := { t with freeList := rest }
    match r with
    | .failed => socketRelease t pos true
    | .setupFailed fd => socketRelease { t with fds := fd :: t.fds } pos true
    | .ok fd msec port addr =>
      setSocket { t with fds := fd :: t.fds } pos
        { t.pool pos with
          fd := fd, type := clinetSocket, createTime := msec, logicIndex := 0, bufOffset := 0,
          socketPort := port, socketAddr := addr }

/-- The stores into the head in front of a frame. `need_close` is not written. -/
def writeTcpHead (m : Nat → UInt8) (a : Nat) (s : Socket) : Nat → UInt8 :=
  let m := Memory.write m (a + 8) (Bytes.le 4 s.socketPos)
  let m := Memory.write m a (Bytes.le 8 s.createTime)
  let m := Memory.write m (a + 12) (Bytes.le 4 s.socketPort)
  let m := Memory.write m (a + 32) (Bytes.le 4 tcpNormal)
  Memory.write m (a + 16) (s.socketAddr.val ++ [0])

/-- One call of `AppendOneData` on the `cs` pipe and its answer. -/
structure AppendCall where
  frame : TcpFrame
  ok : Bool

/-- The locals of the parsing loop, and the calls it has made. -/
structure Parse where
  mem : Nat → UInt8
  csPipe : Fifo TcpFrame
  left : Nat
  tmpRecv : Nat
  calls : List AppendCall
  /-- A length outside `4..MAX_BUF_LEN` was met. -/
  invalid : Bool

def Parse.len (p : Parse) : Nat := Bytes.ofBe (Memory.read p.mem p.tmpRecv 4)

/-- The head is stored right before the frame, and the frame is taken from memory
after that store. -/
def Parse.frame (p : Parse) (s : Socket) : TcpFrame :=
  let m := writeTcpHead p.mem (p.tmpRecv - tcpHeadLen) s
  ⟨readTcpHead m (p.tmpRecv - tcpHeadLen), Memory.read m p.tmpRecv p.len, s.conn⟩

/-- Memory after the head store, with the call and its answer recorded. -/
def Parse.called (p : Parse) (s : Socket) (ok : Bool) : Parse :=
  { p with
    mem := writeTcpHead p.mem (p.tmpRecv - tcpHeadLen) s
    calls := p.calls ++ [⟨p.frame s, ok⟩] }

def Parse.advance (p : Parse) (s : Socket) (cs : Fifo TcpFrame) : Parse :=
  { p.called s true with csPipe := cs, left := p.left - p.len, tmpRecv := p.tmpRecv + p.len }

def parseFrames (s : Socket) (p : Parse) : Parse :=
  if p.left ≤ 4 then p
  else if p.len > maxBufLen ∨ p.len < 4 then { p with invalid := true }
  else if p.len > p.left then p
  else
    match p.csPipe.append TcpFrame.cost (p.frame s) with
    | none => p.called s false
    | some cs => parseFrames s (p.advance s cs)
termination_by p.left
decreasing_by simp only [Parse.advance]; omega

/-- What one round of the receive loop leaves; `again` says whether the loop goes
on to another `recv`. -/
structure Round where
  svr : Svr
  calls : List AppendCall
  again : Bool

/-- The locals of the loop when it starts on `n` bytes. -/
def startParse (t : Svr) (pos n : Nat) : Parse := ⟨t.mem, t.csPipe, n, recvBuf pos, [], false⟩

def endParse (t : Svr) (pos n : Nat) : Parse :=
  parseFrames { t.pool pos with bufOffset := n } (startParse t pos n)

def afterParse (t : Svr) (pos n : Nat) : Svr :=
  { setSocket t pos { t.pool pos with bufOffset := n } with
    mem := (endParse t pos n).mem
    csPipe := (endParse t pos n).csPipe }

def compact (t : Svr) (pos tmpRecv left : Nat) : Svr :=
  { setSocket t pos { t.pool pos with bufOffset := left } with
    mem := Memory.write t.mem (recvBuf pos) (Memory.read t.mem tmpRecv left) }

/-- Parse what the buffer holds once `buf_offset` is `n`, then compact it. -/
def consume (t : Svr) (pos n : Nat) (again : Bool) : Round :=
  let p := endParse t pos n
  if p.invalid then
    ⟨socketRelease (afterParse t pos n) (t.pool pos).socketPos true, p.calls, false⟩
  else if p.left ≠ n then ⟨compact (afterParse t pos n) pos p.tmpRecv p.left, p.calls, again⟩
  else ⟨afterParse t pos n, p.calls, again⟩

/-- Answers of `recv` on a client socket; `again` is `-1` with `EINTR`,
`EWOULDBLOCK` or `EAGAIN`. -/
inductive RecvResult where
  | data (bytes : List UInt8)
  | again
  | eof
  | fatal
  deriving DecidableEq, Repr

/-- One round of `do .. while (recv_len > 0)` in `RecvClientData`. The would-block
answer is not returned on: `-1` is added to `buf_offset` in `uint32`. -/
def recvRound (t : Svr) (pos : Nat) (r : RecvResult) : Round :=
  let s := t.pool pos
  if s.bufOffset = recvCap then ⟨t, [], false⟩
  else
    match r with
    | .eof | .fatal => ⟨socketRelease t s.socketPos true, [], false⟩
    | .again => consume t pos ((2 ^ 32 - 1 + s.bufOffset) % 2 ^ 32) false
    | .data bytes =>
      consume { t with mem := Memory.write t.mem (recvBuf pos + s.bufOffset) bytes } pos
        ((s.bufOffset + bytes.length) % 2 ^ 32) true

/-- A whole call of `RecvClientData`, given the kernel's answers in order. -/
def recvClientData (t : Svr) (pos : Nat) : List RecvResult → Svr
  | [] => t
  | r :: rs =>
    let o := recvRound t pos r
    if o.again then recvClientData o.svr pos rs else o.svr

inductive SendResult where
  | sent
  | failed
  deriving DecidableEq, Repr

def sendDataToClient (t : Svr) (f : TcpFrame) (r : SendResult) : Svr :=
  let pos := f.head.socketPos
  if pos ≥ t.maxClientNum then t
  else
    let s := t.pool pos
    if f.head.createTime ≠ s.createTime then t
    else if f.head.msgType = logicIndexMsg then
      if f.payload.length = 8 then
        setSocket t pos { s with logicIndex := Bytes.ofLe f.payload }
      else t
    else
      match r with
      | .failed => socketRelease t s.socketPos true
      | .sent => if f.head.needClose then socketRelease t s.socketPos false else t

end TcpSvr
