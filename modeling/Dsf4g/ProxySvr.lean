import Dsf4g.SendBuffer

/-!
# The message proxy

`src/proxysvr/proxysvr.cpp`. Logic servers connect, register as one entry
`(svr_type, svr_id)`, and the proxy forwards length-prefixed frames between them.
A pointer to an `stSvrSocket` is the number of its slot. Indexing a vector outside
its range, following `NULL`, dividing by zero and looping for ever are faults.
-/
namespace ProxySvr

open Base Sockets SendBuffer

def listenSocket : Nat := 1
def clinetSocket : Nat := 2

structure SvrSocket where
  ep : Endpoint
  type : Nat
  socketPos : Nat
  svrType : Nat
  svrId : Nat

def SvrSocket.cleared (pos : Nat) : SvrSocket := ⟨⟨0, [], SendBuf.empty⟩, 0, pos, 0, 0⟩

/-- `PBLogicSvr`: the fields the proxy reads. -/
structure LogicSvr where
  svrType : Nat
  svrNum : Nat
  deriving DecidableEq, Repr

structure CenterConfig where
  maxSvrNum : Nat
  svrs : List LogicSvr

/-- `GetSvr`. The index built by `Init` keeps the last entry of a type. -/
def CenterConfig.getSvr (c : CenterConfig) (svrType : Nat) : Option LogicSvr :=
  c.svrs.reverse.find? fun s => s.svrType = svrType

/-- One call of `SendOneData`: the slot, whom it is registered as, and the frame. -/
structure Call where
  pos : Nat
  svrType : Nat
  svrId : Nat
  frame : List UInt8
  deriving DecidableEq, Repr

inductive Fault where
  | outOfRange | nullPointer | divByZero | hang
  deriving DecidableEq, Repr

/-- The server with its `SvrManager` and the kernel. `calls` and `dropped` are not members of
the classes: they record the calls of `SendOneData`, and the bytes that resets of `ReserveData`
threw away for each entry. -/
structure Proxy where
  conf : CenterConfig
  pool : Nat → SvrSocket
  freeList : List Nat
  /-- `_svrs`. -/
  svrs : Nat → Option (List (Option Nat))
  kernel : Kernel
  calls : List Call
  dropped : Nat × Nat → List UInt8

def setSocket (p : Proxy) (pos : Nat) (s : SvrSocket) : Proxy :=
  { p with pool := Function.update p.pool pos s }

def setEp (p : Proxy) (pos : Nat) (e : Endpoint) : Proxy :=
  setSocket p pos { p.pool pos with ep := e }

/-- `InitNetwork`: `SocketPoolInit` over zeroed slots, then the first slot for the listener. -/
def initNetwork (conf : CenterConfig) (answer : Nat → SendAnswer) : Proxy where
  conf := conf
  pool := Function.update SvrSocket.cleared 0 { SvrSocket.cleared 0 with type := listenSocket }
  freeList := (List.range conf.maxSvrNum).tail
  svrs := fun _ => none
  kernel := Kernel.start answer
  calls := []
  dropped := fun _ => []

def socketRelease (p : Proxy) (pos : Nat) : Proxy :=
  if pos ≥ p.conf.maxSvrNum then p
  else
    { setSocket p pos (SvrSocket.cleared pos) with
      kernel := p.kernel.close (p.pool pos).ep.fd
      freeList := p.freeList ++ [pos] }

def socketDisconn (p : Proxy) (pos : Nat) : Proxy :=
  if pos ≥ p.conf.maxSvrNum then p
  else
    { setEp p pos { (p.pool pos).ep with fd := sockClosed } with
      kernel := p.kernel.close (p.pool pos).ep.fd }

/-! ## `SvrManager` -/

def sendBufData (p : Proxy) (pos : Nat) : Proxy :=
  let s := SendBuffer.sendBufData p.kernel (p.pool pos).ep
  { setEp p pos s.ep with kernel := s.kernel }

def sendOneData (p : Proxy) (pos : Nat) (f : Packet) : Proxy :=
  let t := p.pool pos
  let s := SendBuffer.sendOneData p.kernel t.ep f
  { setEp p pos s.ep with
    kernel := s.kernel
    calls := p.calls ++ [⟨pos, t.svrType, t.svrId, f.val⟩]
    dropped := Function.update p.dropped (t.svrType, t.svrId)
      (p.dropped (t.svrType, t.svrId) ++ s.dropped) }

def entry (p : Proxy) (t id : Nat) : Except Fault (Option Nat) :=
  match (p.svrs t).bind (·[id]?) with
  | none => .error .outOfRange
  | some e => .ok e

def setEntry (p : Proxy) (t id pos : Nat) : Proxy :=
  { p with svrs := Function.update p.svrs t ((p.svrs t).map (·.set id (some pos))) }

@[simp] theorem setEntry_conf (p : Proxy) (t id pos : Nat) :
    (setEntry p t id pos).conf = p.conf := rfl
@[simp] theorem setEntry_pool (p : Proxy) (t id pos : Nat) :
    (setEntry p t id pos).pool = p.pool := rfl
@[simp] theorem setEntry_freeList (p : Proxy) (t id pos : Nat) :
    (setEntry p t id pos).freeList = p.freeList := rfl
@[simp] theorem setEntry_kernel (p : Proxy) (t id pos : Nat) :
    (setEntry p t id pos).kernel = p.kernel := rfl

/-- `resize` for a type that is new to `_svrs`; `none` when the type is not configured. -/
def ensureType (p : Proxy) (t : Nat) : Option Proxy :=
  match p.svrs t with
  | some _ => some p
  | none =>
    (p.conf.getSvr t).map fun s =>
      { p with svrs := Function.update p.svrs t (some (List.replicate s.svrNum none)) }

/-- The new socket with the send buffer of the one it replaces. -/
def inherited (p : Proxy) (before pos : Nat) : Endpoint :=
  { (p.pool pos).ep with sendBuf := (p.pool before).ep.sendBuf }

/-- The send buffer is copied, the slot it came from is released, and the copy is sent. -/
def takeOver (p : Proxy) (before pos : Nat) : Proxy :=
  let p := setEp p pos (inherited p before pos)
  sendBufData (socketRelease p (p.pool before).socketPos) pos

/-- `_svrs[socket.svr_type][socket.svr_id] = &socket`. Both subscripts are read from the slot, which
`SocketRelease` has cleared when the socket took over from itself. -/
def enter (p : Proxy) (pos : Nat) : Except Fault Proxy :=
  match entry p (p.pool pos).svrType (p.pool pos).svrId with
  | .error e => .error e
  | .ok _ => .ok (setEntry p (p.pool pos).svrType (p.pool pos).svrId pos)

def register (p : Proxy) (pos : Nat) : Except Fault Proxy :=
  match ensureType p (p.pool pos).svrType with
  | none => .ok p
  | some p =>
    match entry p (p.pool pos).svrType (p.pool pos).svrId with
    | .error e => .error e
    | .ok none => enter p pos
    | .ok (some before) => enter (takeOver p before pos) pos

def sendTo (p : Proxy) (t id : Nat) (f : Packet) : Except Fault Proxy :=
  match entry p t id with
  | .error e => .error e
  | .ok none => .error .nullPointer
  | .ok (some pos) => .ok (sendOneData p pos f)

/-- `if (_svrs[t][id] == NULL) return; SendOneData(*_svrs[t][id], ..)`. -/
def sendIfPresent (p : Proxy) (t id : Nat) (f : Packet) : Except Fault Proxy :=
  match entry p t id with
  | .error e => .error e
  | .ok none => .ok p
  | .ok (some _) => sendTo p t id f

/-- The broadcast loop from `i` over `n` more indices. The test reads entry `i`; the frame goes to
entry `desId`. -/
def broadcast (p : Proxy) (t desId : Nat) (f : Packet) (i : Nat) : Nat → Except Fault Proxy
  | 0 => .ok p
  | n + 1 =>
    match entry p t i with
    | .error e => .error e
    | .ok none => broadcast p t desId f (i + 1) n
    | .ok (some _) =>
      match sendTo p t desId f with
      | .error e => .error e
      | .ok p => broadcast p t desId f (i + 1) n

def doTransfer (p : Proxy) (f : Packet) : Except Fault Proxy :=
  if f.val.length ≤ centerHeadLen then .ok p
  else
    let head := readCenterHead f.val 4
    if p.svrs head.desType = none then .ok p
    else
      match head.routeType with
      | .p2p => sendIfPresent p head.desType head.desId f
      | .broadcast =>
        match p.conf.getSvr head.desType with
        | none => .ok p
        | some s => broadcast p head.desType head.desId f 0 s.svrNum
      | .hash =>
        match p.conf.getSvr head.desType with
        | none => .ok p
        | some s =>
          if s.svrNum = 0 then .error .divByZero
          else sendIfPresent p head.desType (head.hashKey % s.svrNum) f
      | .other _ => .ok p

/-! ## Receiving -/

/-- What the inner loop of `RecvServerData` leaves: `rest` is `tmp_recv[0 .. left)`. -/
structure Forwarded where
  proxy : Proxy
  rest : List UInt8

def frameLen (bs : List UInt8) : Nat := Bytes.ofLe (bs.take 4)

/-- The loop `while (left > 4)`. A bad length releases the slot and leaves the loop; a length of
zero is never stepped over. -/
def forward (p : Proxy) (pos : Nat) (bs : List UInt8) : Except Fault Forwarded :=
  if bs.length ≤ 4 then .ok ⟨p, bs⟩
  else if hlen : frameLen bs > centerBufLen then
    .ok ⟨socketRelease p (p.pool pos).socketPos, bs⟩
  else if frameLen bs > bs.length then .ok ⟨p, bs⟩
  else if frameLen bs = 0 then .error .hang
  else
    match doTransfer p ⟨bs.take (frameLen bs), by rw [List.length_take]; omega⟩ with
    | .error e => .error e
    | .ok p => forward p pos (bs.drop (frameLen bs))
termination_by bs.length
decreasing_by rw [List.length_drop]; omega

/-- Parse what the buffer holds and move the rest to its front. -/
def consume (p : Proxy) (pos : Nat) (bs : List UInt8) : Except Fault Proxy :=
  match forward (setEp p pos { (p.pool pos).ep with recvBuf := bs }) pos bs with
  | .error e => .error e
  | .ok o => .ok (setEp o.proxy pos { (o.proxy.pool pos).ep with recvBuf := o.rest })

/-- The buffer once `recv` has stored its bytes; it stores at most as many as there is room for. -/
def stored (p : Proxy) (pos : Nat) (bytes : List UInt8) : List UInt8 :=
  (p.pool pos).ep.recvBuf ++ bytes.take (recvBufLen - (p.pool pos).ep.recvBuf.length)

/-- `RecvServerData` over the results of `recv`. After a bad length the loop goes on with the slot
it has just released. -/
def recvServerData (p : Proxy) (pos : Nat) : List RecvAnswer → Except Fault Proxy
  | [] => .ok p
  | r :: rs =>
    if (p.pool pos).ep.recvBuf.length = recvBufLen then .ok p
    else
      match r with
      | .data [] | .fatal => .ok (socketDisconn p (p.pool pos).socketPos)
      | .again => .ok p
      | .data (b :: bs) =>
        match consume p pos (stored p pos (b :: bs)) with
        | .error e => .error e
        | .ok p => recvServerData p pos rs

/-! ## Events -/

inductive AcceptAnswer where
  | failed
  /-- No registration message within 5 ms, one of the wrong length, or `fcntl` or `epoll_ctl`
  fails. -/
  | rejected (fd : Nat)
  | ok (fd svrType svrId : Nat)
  deriving DecidableEq, Repr

/-- A slot that has just been given to a connection. -/
def acceptedSocket (s : SvrSocket) (fd : Int) : SvrSocket :=
  { s with ep := { s.ep with fd := fd }, type := clinetSocket }

def acceptConnect (p : Proxy) (a : AcceptAnswer) : Except Fault Proxy :=
  match p.freeList with
  | [] => .ok p
  | pos :: rest =>
    let p := { p with freeList := rest }
    match a with
    | .failed => .ok (socketRelease p (p.pool pos).socketPos)
    | .rejected fd =>
      .ok (socketRelease
        { setSocket p pos (acceptedSocket (p.pool pos) fd) with kernel := p.kernel.bind fd }
        (p.pool pos).socketPos)
    | .ok fd t id =>
      register
        { setSocket p pos { acceptedSocket (p.pool pos) fd with svrType := t, svrId := id } with
          kernel := p.kernel.bind fd } pos

/-- One entry of the list `epoll_wait` returns. The answers are those the kernel would give to
`accept` or to the calls of `recv`, whichever the slot's type asks for. -/
inductive Event where
  | error (pos : Nat)
  | input (pos : Nat) (accept : AcceptAnswer) (recvs : List RecvAnswer)

def dealEvent (p : Proxy) : Event → Except Fault Proxy
  | .error pos => .ok (socketRelease p pos)
  | .input pos accept recvs =>
    if pos ≥ p.conf.maxSvrNum then .ok p
    else if (p.pool pos).type = listenSocket then acceptConnect p accept
    else recvServerData p pos recvs

def Step (p : Proxy) (e : Event) (q : Proxy) : Prop := dealEvent p e = .ok q

end ProxySvr
