import Dsf4g.ProxySlots
import Dsf4g.Server

/-!
# The way of a message from one server to another

Three programs: a sender with one center, the proxy, and the destination. Each
`recv` returns some of the bytes that were sent on its connection and not yet
returned, in any division. The rest of the deployment may do anything that leaves
the two connections alone.
-/
namespace MessagePath

open Base Sockets SendBuffer Server

structure Ends where
  senderSlot : Nat
  destSlot : Nat
  desType : Nat
  desId : Nat
  /-- The sender's connection, as the sender's kernel numbers it. -/
  up : Nat
  /-- The destination's connection, as the proxy's kernel numbers it. -/
  down : Nat

/-- The three programs. `atProxy` and `atDest` count the bytes `recv` has returned; `sent` and
`posted` record the calls of `SendMessageToCenter` and `PostMessage`. -/
structure Path where
  sender : Centers
  proxy : ProxySvr.Proxy
  dest : CenterMng.Mng
  atProxy : Nat
  atDest : Nat
  sent : List Message
  posted : List (CenterHead × List UInt8)

inductive Event where
  | send (m : Message) (asked : Int)
  /-- `RecvServerData` on the sender's connection; `recv` may return up to `n` bytes. -/
  | proxyRecv (n : Nat)
  /-- The proxy deals with something else. -/
  | proxyOther (e : ProxySvr.Event)
  /-- `RecvData`. -/
  | destRecv (n : Nat)
  /-- One pass of the loop of `GetCenterMessage`. -/
  | destGet

def upWire (w : Ends) (s : Path) : List UInt8 :=
  match s.sender.mngs with
  | [] => []
  | mng :: _ => mng.kernel.wire w.up

def downWire (w : Ends) (s : Path) : List UInt8 := s.proxy.kernel.wire w.down

/-- The next bytes of a wire, as many as `recv` may return into a buffer. -/
def chunk (wire : List UInt8) (done n : Nat) (buf : List UInt8) : List UInt8 :=
  (wire.drop done).take (min n (recvBufLen - buf.length))

def answerOf (bytes : List UInt8) : RecvAnswer := if bytes = [] then .again else .data bytes

def proxyChunk (w : Ends) (s : Path) (n : Nat) : List UInt8 :=
  chunk (upWire w s) s.atProxy n (s.proxy.pool w.senderSlot).ep.recvBuf

def destChunk (w : Ends) (s : Path) (n : Nat) : List UInt8 :=
  chunk (downWire w s) s.atDest n s.dest.ep.recvBuf

def step (w : Ends) (s : Path) : Event → Option Path
  | .send m asked =>
    let r := sendMessageToCenter s.sender m asked
    some { s with sender := r.1, sent := s.sent ++ r.2.toList }
  | .proxyRecv n =>
    match ProxySvr.dealEvent s.proxy
        (.input w.senderSlot .failed [answerOf (proxyChunk w s n)]) with
    | .ok q => some { s with proxy := q, atProxy := s.atProxy + (proxyChunk w s n).length }
    | .error _ => none
  | .proxyOther e =>
    match ProxySvr.dealEvent s.proxy e with
    | .ok q => some { s with proxy := q }
    | .error _ => none
  | .destRecv n =>
    some { s with
      dest := CenterMng.recvData s.dest [answerOf (destChunk w s n)]
      atDest := s.atDest + (destChunk w s n).length }
  | .destGet =>
    let g := CenterMng.getOneData s.dest centerBufLen
    some { s with dest := g.mng, posted := s.posted ++ (g.data.bind centerPost).toList }

def Step (w : Ends) (s : Path) (e : Event) (s' : Path) : Prop := step w s e = some s'

/-! The loops over `recv` are taken one result at a time: a call that gets several results is as
good as several calls. -/

theorem recvServerData_cons (p : ProxySvr.Proxy) (pos : Nat) (b : UInt8) (bs : List UInt8)
    (rs : List RecvAnswer) (hroom : (p.pool pos).ep.recvBuf.length ≠ recvBufLen) :
    ProxySvr.recvServerData p pos (.data (b :: bs) :: rs) =
      (ProxySvr.recvServerData p pos [.data (b :: bs)]).bind
        fun q => ProxySvr.recvServerData q pos rs := by
  simp only [ProxySvr.recvServerData, hroom, if_false]
  cases ProxySvr.consume p pos (ProxySvr.stored p pos (b :: bs)) with
  | error e => rfl
  | ok q => rfl

theorem recvData_cons (m : CenterMng.Mng) (b : UInt8) (bs : List UInt8) (rs : List RecvAnswer)
    (hroom : m.ep.recvBuf.length ≠ recvBufLen) :
    CenterMng.recvData m (.data (b :: bs) :: rs) =
      CenterMng.recvData (CenterMng.recvData m [.data (b :: bs)]) rs := by
  simp only [CenterMng.recvData, hroom, if_false]

def Addressed (w : Ends) (h : CenterHead) : Prop :=
  h.routeType = .p2p ∧ h.desType = w.desType ∧ h.desId = w.desId

/-- Both connections are open at the proxy, and the destination is registered. -/
structure Attached (w : Ends) (p : ProxySvr.Proxy) : Prop where
  inRange : w.senderSlot < p.conf.maxSvrNum
  client : (p.pool w.senderSlot).type ≠ ProxySvr.listenSocket
  senderOpen : (p.pool w.senderSlot).ep.fd ≠ sockClosed
  registered : ProxySvr.At p w.desType w.desId w.destSlot
  svrType : (p.pool w.destSlot).svrType = w.desType
  svrId : (p.pool w.destSlot).svrId = w.desId
  destOpen : (p.pool w.destSlot).ep.fd ≠ sockClosed
  conn : p.kernel.conns (p.pool w.destSlot).ep.fd = some w.down
  steady : p.kernel.Steady

structure Up (w : Ends) (m : CenterMng.Mng) : Prop where
  isOpen : m.ep.fd ≠ sockClosed
  conn : m.kernel.conns m.ep.fd = some w.up
  steady : m.kernel.Steady

structure Untouched (w : Ends) (p q : ProxySvr.Proxy) : Prop where
  attached : Attached w q
  recvBuf : (q.pool w.senderSlot).ep.recvBuf = (p.pool w.senderSlot).ep.recvBuf
  sendBuf : (q.pool w.destSlot).ep.sendBuf = (p.pool w.destSlot).ep.sendBuf
  wire : q.kernel.wire w.down = p.kernel.wire w.down

def NoOverflow (w : Ends) (s : Path) : Prop :=
  (∀ m ∈ s.sender.mngs, m.dropped = []) ∧ s.proxy.dropped (w.desType, w.desId) = []

/-- The runs that are looked at: messages for the destination, connections that stay open, and
reserve buffers that do not overflow. -/
def Guard (w : Ends) (s : Path) (e : Event) : Prop :=
  (∀ s', step w s e = some s' → NoOverflow w s') ∧
  match e with
  | .send m _ => Addressed w m.head
  | .proxyOther e => ∀ q, ProxySvr.dealEvent s.proxy e = .ok q → Untouched w s.proxy q
  | _ => True

structure Start (w : Ends) (s : Path) : Prop where
  sender : ∃ m, s.sender.mngs = [m] ∧ Up w m ∧ m.kernel.wire w.up = [] ∧ m.ep.sendBuf.val = []
  noOverflow : NoOverflow w s
  attached : Attached w s.proxy
  recvBuf : (s.proxy.pool w.senderSlot).ep.recvBuf = []
  sendBuf : (s.proxy.pool w.destSlot).ep.sendBuf.val = []
  wire : s.proxy.kernel.wire w.down = []
  dest : s.dest.ep.recvBuf = []
  counts : s.atProxy = 0 ∧ s.atDest = 0
  records : s.sent = [] ∧ s.posted = []

def content (m : Message) : CenterHead × List UInt8 := (m.head, m.pb)

/-! ## The proxy -/

/-- A frame for the destination is sent once, to its slot. -/
theorem doTransfer_frame {w : Ends} {p : ProxySvr.Proxy} (ha : Attached w p) {m : Message}
    (hm : Addressed w m.head) :
    ProxySvr.doTransfer p m.packet = .ok (ProxySvr.sendOneData p w.destSlot m.packet) := by
  obtain ⟨hroute, htype, hid⟩ := hm
  obtain ⟨v, hv, hslot⟩ := ha.registered
  have hlen := m.frame_length
  have hhead : readCenterHead m.packet.val 4 = m.head := m.frame_head
  have hentry : ProxySvr.entry p w.desType w.desId = .ok (some w.destSlot) :=
    ProxySvr.entry_eq_some.mpr ha.registered
  unfold ProxySvr.doTransfer
  rw [if_neg (by show ¬ m.frame.length ≤ centerHeadLen; rw [hlen, centerHeadLen]; omega), hhead]
  dsimp only
  rw [htype, hid, if_neg (by rw [hv]; simp), hroute]
  simp [ProxySvr.sendIfPresent, ProxySvr.sendTo, hentry]

/-- The proxy has sent the bytes `new` towards the destination, or a reserve buffer overflowed. -/
structure Relayed (w : Ends) (p q : ProxySvr.Proxy) (new : List UInt8) : Prop where
  attached : Attached w q
  recvBuf : (q.pool w.senderSlot).ep.recvBuf = (p.pool w.senderSlot).ep.recvBuf
  grows : p.kernel.wire w.down <+: q.kernel.wire w.down
  bytes : ∃ extra, q.dropped (w.desType, w.desId) = p.dropped (w.desType, w.desId) ++ extra ∧
    (extra = [] → q.kernel.wire w.down ++ (q.pool w.destSlot).ep.sendBuf.val =
      p.kernel.wire w.down ++ (p.pool w.destSlot).ep.sendBuf.val ++ new)

theorem Relayed.none {w : Ends} {p : ProxySvr.Proxy} (ha : Attached w p) : Relayed w p p [] :=
  ⟨ha, rfl, List.prefix_refl _, [], by simp, fun _ => by simp⟩

/-- What is relayed one after the other is relayed together. -/
theorem Relayed.trans {w : Ends} {p q r : ProxySvr.Proxy} {new new' : List UInt8}
    (h : Relayed w p q new) (h' : Relayed w q r new') : Relayed w p r (new ++ new') := by
  obtain ⟨extra, hd, hb⟩ := h.bytes
  obtain ⟨extra', hd', hb'⟩ := h'.bytes
  refine ⟨h'.attached, h'.recvBuf.trans h.recvBuf, h.grows.trans h'.grows, extra ++ extra', ?_, ?_⟩
  · rw [hd', hd, List.append_assoc]
  · intro he
    obtain ⟨he, he'⟩ := List.append_eq_nil_iff.mp he
    rw [hb' he', hb he, List.append_assoc]

/-- Whatever a step does to the endpoint of one slot, the other members of a slot stay. -/
theorem setEp_pool (p : ProxySvr.Proxy) (pos i : Nat) (e : Endpoint) :
    ((ProxySvr.setEp p pos e).pool i).type = (p.pool i).type ∧
    ((ProxySvr.setEp p pos e).pool i).svrType = (p.pool i).svrType ∧
    ((ProxySvr.setEp p pos e).pool i).svrId = (p.pool i).svrId ∧
    ((ProxySvr.setEp p pos e).pool i).ep = if i = pos then e else (p.pool i).ep := by
  unfold ProxySvr.setEp ProxySvr.setSocket
  by_cases hi : i = pos
  · subst hi
    simp
  · simp [hi]

/-- A frame is sent behind what waits, or waits itself. -/
theorem sendOneData_relayed {w : Ends} {p : ProxySvr.Proxy} (ha : Attached w p) (f : Packet) :
    Relayed w p (ProxySvr.sendOneData p w.destSlot f) f.val := by
  have hc := sendOneData_carried ha.steady ha.destOpen ha.conn f
  have hpool := setEp_pool p w.destSlot w.senderSlot
    (SendBuffer.sendOneData p.kernel (p.pool w.destSlot).ep f).ep
  have hpool' := setEp_pool p w.destSlot w.destSlot
    (SendBuffer.sendOneData p.kernel (p.pool w.destSlot).ep f).ep
  rw [if_pos rfl] at hpool'
  have hq : (ProxySvr.sendOneData p w.destSlot f).pool = (ProxySvr.setEp p w.destSlot
    (SendBuffer.sendOneData p.kernel (p.pool w.destSlot).ep f).ep).pool := rfl
  have hk : (ProxySvr.sendOneData p w.destSlot f).kernel =
    (SendBuffer.sendOneData p.kernel (p.pool w.destSlot).ep f).kernel := rfl
  have hep : ∀ {β : Type} (g : Endpoint → β),
      g (SendBuffer.sendOneData p.kernel (p.pool w.destSlot).ep f).ep = g (p.pool w.destSlot).ep →
      g ((ProxySvr.sendOneData p w.destSlot f).pool w.senderSlot).ep =
        g (p.pool w.senderSlot).ep := by
    intro β g hg
    rw [hq, hpool.2.2.2]
    split
    · next he => rw [he, hg]
    · rfl
  refine ⟨⟨ha.inRange, ?_, ?_, ha.registered, ?_, ?_, ?_, ?_, ?_⟩, ?_, ?_, ?_⟩
  · rw [hq, hpool.1]
    exact ha.client
  · rw [hep Endpoint.fd hc.fd]
    exact ha.senderOpen
  · rw [hq, hpool'.2.1]
    exact ha.svrType
  · rw [hq, hpool'.2.2.1]
    exact ha.svrId
  · rw [hq, hpool'.2.2.2, hc.fd]
    exact ha.destOpen
  · rw [hq, hk, hpool'.2.2.2, hc.fd, hc.conns]
    exact ha.conn
  · intro i
    rw [hk, hc.answer]
    exact ha.steady i
  · exact hep Endpoint.recvBuf hc.recvBuf
  · rw [hk]
    exact hc.grows
  · refine ⟨(SendBuffer.sendOneData p.kernel (p.pool w.destSlot).ep f).dropped, ?_, ?_⟩
    · simp [ProxySvr.sendOneData, ha.svrType, ha.svrId]
    · intro hd
      rw [hq, hk, hpool'.2.2.2]
      exact hc.bytes hd

/-- The loop of `RecvServerData` relays the frames that are complete and keeps the rest. -/
theorem forward_relayed {w : Ends} (ms : List Message) (hms : ∀ m ∈ ms, Addressed w m.head)
    (p : ProxySvr.Proxy) (ha : Attached w p) (bs : List UInt8) (hbs : bs <+: stream ms) :
    ∃ done rest q left, ms = done ++ rest ∧ bs = stream done ++ left ∧ left <+: stream rest ∧
      ProxySvr.forward p w.senderSlot bs = .ok ⟨q, left⟩ ∧ Relayed w p q (stream done) := by
  induction ms generalizing p bs with
  | nil =>
    rw [stream_nil, List.prefix_nil] at hbs
    subst hbs
    exact ⟨[], [], p, [], rfl, rfl, List.prefix_refl _, by simp [ProxySvr.forward], Relayed.none ha⟩
  | cons m ms ih =>
    by_cases hshort : bs.length ≤ 4
    · refine ⟨[], m :: ms, p, bs, rfl, rfl, hbs, ?_, Relayed.none ha⟩
      unfold ProxySvr.forward
      rw [if_pos hshort]
    · have hword : ProxySvr.frameLen bs = m.frame.length := head_word hbs (by omega)
      have hle := m.frame_le
      have hlen := m.frame_length
      by_cases hpart : m.frame.length > bs.length
      · refine ⟨[], m :: ms, p, bs, rfl, rfl, hbs, ?_, Relayed.none ha⟩
        unfold ProxySvr.forward
        rw [if_neg hshort, dif_neg (by omega), if_pos (by omega)]
      · obtain ⟨left, rfl, hleft⟩ := head_frame hbs (by omega)
        have hrelay := sendOneData_relayed ha m.packet
        obtain ⟨done, rest, q, left', rfl, rfl, hrest, hfwd, hq⟩ :=
          ih (fun x hx => hms x (List.mem_cons_of_mem _ hx)) _ hrelay.attached left hleft
        refine ⟨m :: done, rest, q, left', rfl, by simp, hrest, ?_, ?_⟩
        · have hpacket : (⟨(m.frame ++ (stream done ++ left')).take (ProxySvr.frameLen
              (m.frame ++ (stream done ++ left'))), by rw [List.length_take]; omega⟩ : Packet) =
              m.packet := by
            apply Subtype.ext
            show List.take _ _ = m.frame
            rw [hword, List.take_left' rfl]
          unfold ProxySvr.forward
          rw [if_neg hshort, dif_neg (by omega), if_neg (by omega), if_neg (by omega), hpacket,
            doTransfer_frame ha (hms m (List.mem_cons_self ..))]
          dsimp only
          rw [hword, List.drop_left' rfl]
          exact hfwd
        · rw [stream_cons]
          exact hrelay.trans hq

def withRecvBuf (w : Ends) (p : ProxySvr.Proxy) (bs : List UInt8) : ProxySvr.Proxy :=
  ProxySvr.setEp p w.senderSlot { (p.pool w.senderSlot).ep with recvBuf := bs }

theorem withRecvBuf_ep (w : Ends) (p : ProxySvr.Proxy) (bs : List UInt8) (i : Nat) :
    ((withRecvBuf w p bs).pool i).ep.fd = (p.pool i).ep.fd ∧
    ((withRecvBuf w p bs).pool i).ep.sendBuf = (p.pool i).ep.sendBuf := by
  have hep := (setEp_pool p w.senderSlot i
    { (p.pool w.senderSlot).ep with recvBuf := bs }).2.2.2
  unfold withRecvBuf
  rw [hep]
  split
  · next he =>
    rw [he]
    exact ⟨rfl, rfl⟩
  · exact ⟨rfl, rfl⟩

theorem withRecvBuf_recvBuf (w : Ends) (p : ProxySvr.Proxy) (bs : List UInt8) :
    ((withRecvBuf w p bs).pool w.senderSlot).ep.recvBuf = bs := by
  have hep := (setEp_pool p w.senderSlot w.senderSlot
    { (p.pool w.senderSlot).ep with recvBuf := bs }).2.2.2
  rw [if_pos rfl] at hep
  unfold withRecvBuf
  rw [hep]

theorem withRecvBuf_attached {w : Ends} {p : ProxySvr.Proxy} (ha : Attached w p)
    (bs : List UInt8) : Attached w (withRecvBuf w p bs) := by
  have hs := setEp_pool p w.senderSlot w.senderSlot
    { (p.pool w.senderSlot).ep with recvBuf := bs }
  have hd := setEp_pool p w.senderSlot w.destSlot
    { (p.pool w.senderSlot).ep with recvBuf := bs }
  refine ⟨ha.inRange, ?_, ?_, ha.registered, ?_, ?_, ?_, ?_, ha.steady⟩
  · exact fun h => ha.client (hs.1.symm.trans h)
  · rw [(withRecvBuf_ep w p bs w.senderSlot).1]
    exact ha.senderOpen
  · exact hd.2.1.trans ha.svrType
  · exact hd.2.2.1.trans ha.svrId
  · rw [(withRecvBuf_ep w p bs w.destSlot).1]
    exact ha.destOpen
  · rw [(withRecvBuf_ep w p bs w.destSlot).1]
    exact ha.conn

/-- What `recv` has returned is relayed as far as it is complete; the rest stays in the buffer. -/
structure Received (w : Ends) (p q : ProxySvr.Proxy) (ms : List Message) (bs : List UInt8) :
    Prop where
  attached : Attached w q
  grows : p.kernel.wire w.down <+: q.kernel.wire w.down
  bytes : ∃ done rest, ms = done ++ rest ∧
    bs = stream done ++ (q.pool w.senderSlot).ep.recvBuf ∧
    ∃ extra, q.dropped (w.desType, w.desId) = p.dropped (w.desType, w.desId) ++ extra ∧
      (extra = [] → q.kernel.wire w.down ++ (q.pool w.destSlot).ep.sendBuf.val =
        p.kernel.wire w.down ++ (p.pool w.destSlot).ep.sendBuf.val ++ stream done)

/-- The proxy relays the complete frames of what it has received. -/
theorem consume_received {w : Ends} {p : ProxySvr.Proxy} (ha : Attached w p) {ms : List Message}
    (hms : ∀ m ∈ ms, Addressed w m.head) {bs : List UInt8} (hbs : bs <+: stream ms) :
    ∃ q, ProxySvr.consume p w.senderSlot bs = .ok q ∧ Received w p q ms bs := by
  obtain ⟨done, rest, q, left, hms', hbs', -, hfwd, hq⟩ :=
    forward_relayed ms hms _ (withRecvBuf_attached ha bs) bs hbs
  refine ⟨withRecvBuf w q left, ?_, withRecvBuf_attached hq.attached left, hq.grows, done, rest,
    hms', ?_, ?_⟩
  · unfold withRecvBuf at hfwd
    unfold ProxySvr.consume
    rw [hfwd]
    rfl
  · rw [withRecvBuf_recvBuf]
    exact hbs'
  · obtain ⟨extra, hd, hb⟩ := hq.bytes
    refine ⟨extra, hd, ?_⟩
    intro he
    rw [(withRecvBuf_ep w q left w.destSlot).2, ← (withRecvBuf_ep w p bs w.destSlot).2]
    exact hb he

theorem chunk_fits (wire : List UInt8) (done n : Nat) (buf : List UInt8) :
    (chunk wire done n buf).length ≤ recvBufLen - buf.length := by
  unfold chunk
  rw [List.length_take]
  omega

/-- The same for an event of its loop that brings bytes from the sender. -/
theorem dealEvent_received {w : Ends} {p : ProxySvr.Proxy} (ha : Attached w p)
    {ms : List Message} (hms : ∀ m ∈ ms, Addressed w m.head) {bytes : List UInt8}
    (hfit : bytes.length ≤ recvBufLen - (p.pool w.senderSlot).ep.recvBuf.length)
    (hbs : (p.pool w.senderSlot).ep.recvBuf ++ bytes <+: stream ms) :
    ∃ q, ProxySvr.dealEvent p (.input w.senderSlot .failed [answerOf bytes]) = .ok q ∧
      Received w p q ms ((p.pool w.senderSlot).ep.recvBuf ++ bytes) := by
  have hr := ha.inRange
  have hidle : bytes = [] → Received w p p ms ((p.pool w.senderSlot).ep.recvBuf ++ bytes) := by
    intro hb
    subst hb
    refine ⟨ha, List.prefix_refl _, [], ms, rfl, ?_, [], (List.append_nil _).symm, ?_⟩
    · rw [stream_nil, List.nil_append, List.append_nil]
    · intro _
      rw [stream_nil, List.append_nil]
  unfold ProxySvr.dealEvent
  dsimp only
  rw [if_neg (by omega), if_neg ha.client]
  unfold ProxySvr.recvServerData
  split
  · next hfull =>
    refine ⟨p, rfl, hidle ?_⟩
    rw [hfull, Nat.sub_self] at hfit
    exact List.eq_nil_of_length_eq_zero (Nat.le_zero.mp hfit)
  · cases bytes with
    | nil => exact ⟨p, rfl, hidle rfl⟩
    | cons b bs =>
      obtain ⟨q, hq, hrec⟩ := consume_received ha hms hbs
      have hstored : ProxySvr.stored p w.senderSlot (b :: bs) =
          (p.pool w.senderSlot).ep.recvBuf ++ b :: bs := by
        unfold ProxySvr.stored
        rw [List.take_of_length_le hfit]
      refine ⟨q, ?_, hrec⟩
      simp only [answerOf, reduceCtorEq, if_false]
      rw [hstored, hq]
      rfl

/-! ## What the programs hold of the stream -/

/-- Every frame of the stream is on its way: on the sender's wire or in its reserve buffer, then
relayed or in the proxy's receive buffer, then posted or in the destination's. -/
structure Inv (w : Ends) (s : Path) : Prop where
  sender : ∃ m, s.sender.mngs = [m] ∧ Up w m ∧ m.dropped = [] ∧
    m.kernel.wire w.up ++ m.ep.sendBuf.val = stream s.sent
  addressed : ∀ m ∈ s.sent, Addressed w m.head
  attached : Attached w s.proxy
  clean : s.proxy.dropped (w.desType, w.desId) = []
  relayed : ∃ done rest, s.sent = done ++ rest ∧
    downWire w s ++ (s.proxy.pool w.destSlot).ep.sendBuf.val = stream done ∧
    (upWire w s).take s.atProxy = stream done ++ (s.proxy.pool w.senderSlot).ep.recvBuf
  atProxy_le : s.atProxy ≤ (upWire w s).length
  posted : ∃ done rest, s.sent = done ++ rest ∧ s.posted = done.map content ∧
    (downWire w s).take s.atDest = stream done ++ s.dest.ep.recvBuf
  atDest_le : s.atDest ≤ (downWire w s).length

theorem Start.inv {w : Ends} {s : Path} (h : Start w s) : Inv w s := by
  obtain ⟨m, hm, hup, hwire, hbuf⟩ := h.sender
  have hdrop := h.noOverflow.1 m (by rw [hm]; exact List.mem_singleton_self m)
  have hup' : upWire w s = [] := by
    unfold upWire
    rw [hm]
    exact hwire
  refine ⟨⟨m, hm, hup, hdrop, ?_⟩, ?_, h.attached, h.noOverflow.2, ⟨[], [], ?_, ?_, ?_⟩, ?_,
    ⟨[], [], ?_, ?_, ?_⟩, ?_⟩
  · rw [hwire, hbuf, h.records.1]
    rfl
  · rw [h.records.1]
    exact fun _ hx => nomatch hx
  · exact h.records.1
  · rw [downWire, h.wire, h.sendBuf]
    rfl
  · rw [hup', h.recvBuf]
    simp
  · rw [h.counts.1]
    exact Nat.zero_le _
  · exact h.records.1
  · rw [h.records.2]
    rfl
  · rw [downWire, h.wire, h.dest]
    simp
  · rw [h.counts.2]
    exact Nat.zero_le _

/-- The sender's wire carries a part of the stream, from its start. -/
theorem Inv.upWire_prefix {w : Ends} {s : Path} (h : Inv w s) : upWire w s <+: stream s.sent := by
  obtain ⟨m, hm, -, -, hb⟩ := h.sender
  unfold upWire
  rw [hm, ← hb]
  exact List.prefix_append _ _

/-- So does the wire to the destination. -/
theorem Inv.downWire_prefix {w : Ends} {s : Path} (h : Inv w s) :
    downWire w s <+: stream s.sent := by
  obtain ⟨done, rest, hs, hb, -⟩ := h.relayed
  rw [hs, stream_append, ← hb, List.append_assoc]
  exact List.prefix_append _ _

theorem chunk_take (wire : List UInt8) (done n : Nat) (buf : List UInt8) :
    wire.take (done + (chunk wire done n buf).length) =
      wire.take done ++ chunk wire done n buf := by
  have hpre : chunk wire done n buf <+: wire.drop done := List.take_prefix _ _
  rw [List.take_add, ← List.prefix_iff_eq_take.mp hpre]

theorem chunk_le {wire : List UInt8} {done : Nat} (h : done ≤ wire.length) (n : Nat)
    (buf : List UInt8) : done + (chunk wire done n buf).length ≤ wire.length := by
  unfold chunk
  rw [List.length_take, List.length_drop]
  omega

/-- What a buffer holds after the next `recv` is still a part of the stream behind what has been
taken out of it. -/
theorem chunk_prefix {wire buf : List UInt8} {done rest : List Message} {a : Nat} (n : Nat)
    (hw : wire <+: stream (done ++ rest)) (hbuf : wire.take a = stream done ++ buf) :
    buf ++ chunk wire a n buf <+: stream rest := by
  have hpre : wire.take (a + (chunk wire a n buf).length) <+: stream (done ++ rest) :=
    (List.take_prefix _ _).trans hw
  rw [chunk_take, hbuf, stream_append, List.append_assoc] at hpre
  exact (List.prefix_append_right_inj _).mp hpre

/-- A wire that grows keeps what was returned from it. -/
theorem take_of_grows {wire wire' : List UInt8} {a : Nat} (h : wire <+: wire')
    (ha : a ≤ wire.length) : wire'.take a = wire.take a := by
  obtain ⟨t, rfl⟩ := h
  exact List.take_append_of_le_length ha

/-! ## Steps -/

/-- With one center, a message that is sent goes to it. -/
theorem sendMessageToCenter_one {c : Centers} {mng : CenterMng.Mng} (hc : c.mngs = [mng])
    (m : Message) (asked : Int) :
    (∃ c', sendMessageToCenter c m asked = (c', none) ∧ c'.mngs = [mng]) ∨
    ∃ c' m', sendMessageToCenter c m asked = (c', some m') ∧
      c'.mngs = [CenterMng.sendOneData mng m'.packet] ∧ m' = m.via 0 (by decide) := by
  have hnum : c.num = 1 := by
    unfold Centers.num
    rw [hc]
    rfl
  unfold sendMessageToCenter
  rw [hnum]
  split
  · exact .inl ⟨_, rfl, hc⟩
  · next i n hch =>
    have hi : i = 0 := by
      have hfilter := congrArg Prod.fst hch
      have := (Option.filter_eq_some_iff.mp hfilter).2
      have hlt : i < 1 := of_decide_eq_true this
      omega
    subst hi
    rw [dif_pos (by decide)]
    refine .inr ⟨_, _, rfl, ?_, rfl⟩
    show c.mngs.modify 0 _ = _
    rw [hc]
    rfl

/-- The sender adds to the stream. -/
theorem Inv.sends {w : Ends} {s : Path} (h : Inv w s) {c : Centers} {mng : CenterMng.Mng}
    {new : List Message} (hc : c.mngs = [mng]) (hup : Up w mng) (hd : mng.dropped = [])
    (hgrow : upWire w s <+: mng.kernel.wire w.up)
    (hb : mng.kernel.wire w.up ++ mng.ep.sendBuf.val = stream (s.sent ++ new))
    (hnew : ∀ m ∈ new, Addressed w m.head) :
    Inv w { s with sender := c, sent := s.sent ++ new } := by
  have hwire : upWire w { s with sender := c, sent := s.sent ++ new } = mng.kernel.wire w.up := by
    unfold upWire
    rw [hc]
  obtain ⟨done, rest, hsplit, hdown, hproxy⟩ := h.relayed
  obtain ⟨done', rest', hsplit', hposted, hdest⟩ := h.posted
  refine ⟨⟨mng, hc, hup, hd, hb⟩, ?_, h.attached, h.clean,
    ⟨done, rest ++ new, by simp [hsplit], hdown, ?_⟩, ?_,
    ⟨done', rest' ++ new, by simp [hsplit'], hposted, hdest⟩, h.atDest_le⟩
  · intro x hx
    rcases List.mem_append.mp hx with hx | hx
    · exact h.addressed x hx
    · exact hnew x hx
  · rw [hwire, take_of_grows hgrow h.atProxy_le]
    exact hproxy
  · rw [hwire]
    exact Nat.le_trans h.atProxy_le hgrow.length_le

/-- A message that the sender submits goes behind the stream. -/
theorem send_inv {w : Ends} {s s' : Path} {m : Message} {asked : Int} (h : Inv w s)
    (hg : Guard w s (.send m asked)) (hs : step w s (.send m asked) = some s') : Inv w s' := by
  obtain ⟨hno, haddr⟩ := hg
  obtain ⟨mng, hm, hup, hdrop, hb⟩ := h.sender
  have hup' : upWire w s = mng.kernel.wire w.up := by
    unfold upWire
    rw [hm]
  have hclean := hno s' hs
  unfold step at hs
  dsimp only at hs
  obtain ⟨c', hr, hmngs⟩ | ⟨c', m', hr, hmngs, hm'⟩ := sendMessageToCenter_one hm m asked
  · rw [hr] at hs
    cases hs
    exact h.sends hmngs hup hdrop (hup' ▸ List.prefix_refl _) (by simpa using hb)
      fun _ hx => nomatch hx
  · rw [hr] at hs
    cases hs
    have hc := sendOneData_carried hup.steady hup.isOpen hup.conn m'.packet
    have hdropped := hclean.1 _ (by rw [hmngs]; exact List.mem_singleton_self _)
    obtain ⟨-, hdrop'⟩ := List.append_eq_nil_iff.mp hdropped
    refine h.sends hmngs ⟨?_, ?_, ?_⟩ hdropped ?_ ?_ ?_
    · exact fun hfd => hup.isOpen (hc.fd.symm.trans hfd)
    · exact (congrArg₂ (fun g fd => g fd) hc.conns hc.fd).trans hup.conn
    · exact fun i => (congrFun hc.answer i).symm ▸ hup.steady i
    · rw [hup']
      exact hc.grows
    · rw [Option.toList_some, stream_append, ← hb, stream_cons, stream_nil, List.append_nil]
      exact hc.bytes hdrop'
    · intro x hx
      rw [Option.toList_some, List.mem_singleton] at hx
      rw [hx, hm']
      exact haddr

/-- The proxy relays `done` more messages. -/
theorem proxyRecv_inv {w : Ends} {s s' : Path} {n : Nat} (h : Inv w s)
    (hg : Guard w s (.proxyRecv n)) (hs : step w s (.proxyRecv n) = some s') : Inv w s' := by
  obtain ⟨hno, -⟩ := hg
  have hclean := (hno s' hs).2
  obtain ⟨done, rest, hsplit, hdown, hproxy⟩ := h.relayed
  have hwire := h.upWire_prefix
  rw [hsplit] at hwire
  have hbs := chunk_prefix n hwire hproxy
  have hrest : ∀ m ∈ rest, Addressed w m.head := by
    intro m hm
    exact h.addressed m (by rw [hsplit]; exact List.mem_append_right _ hm)
  obtain ⟨q, hq, hrec⟩ := dealEvent_received h.attached hrest (chunk_fits _ _ _ _) hbs
  obtain ⟨more, rest', hmore, hbuf, extra, hextra, hbytes⟩ := hrec.bytes
  simp only [step, proxyChunk, hq, Option.some.injEq] at hs
  subst hs
  rw [hextra, h.clean, List.nil_append] at hclean
  obtain ⟨done', rest'', hsplit', hposted, hdest⟩ := h.posted
  refine ⟨h.sender, h.addressed, hrec.attached, ?_, ⟨done ++ more, rest', ?_, ?_, ?_⟩,
    chunk_le h.atProxy_le _ _, ⟨done', rest'', hsplit', hposted, ?_⟩, ?_⟩
  · rw [hextra, h.clean, hclean]
    rfl
  · rw [hsplit, hmore, List.append_assoc]
  · rw [stream_append, ← hdown]
    exact hbytes hclean
  · rw [stream_append, List.append_assoc, ← hbuf, ← List.append_assoc, ← hproxy]
    exact chunk_take _ _ _ _
  · rw [← hdest]
    exact take_of_grows hrec.grows h.atDest_le
  · exact Nat.le_trans h.atDest_le hrec.grows.length_le

/-- Events of the proxy that are about neither connection leave both alone. -/
theorem proxyOther_inv {w : Ends} {s s' : Path} {e : ProxySvr.Event} (h : Inv w s)
    (hg : Guard w s (.proxyOther e)) (hs : step w s (.proxyOther e) = some s') : Inv w s' := by
  obtain ⟨hno, hother⟩ := hg
  have hclean := (hno s' hs).2
  simp only [step] at hs
  split at hs
  · next q hq =>
    cases hs
    have hu := hother q hq
    have hdown : downWire w { s with proxy := q } = downWire w s := hu.wire
    obtain ⟨done, rest, hsplit, hb, hproxy⟩ := h.relayed
    refine ⟨h.sender, h.addressed, hu.attached, hclean, ⟨done, rest, hsplit, ?_, ?_⟩,
      h.atProxy_le, ?_, ?_⟩
    · rw [hdown, hu.sendBuf]
      exact hb
    · rw [hu.recvBuf]
      exact hproxy
    · rw [hdown]
      exact h.posted
    · rw [hdown]
      exact h.atDest_le
  · cases hs

/-! ## The destination -/

theorem recvData_chunk {m : CenterMng.Mng} {bytes : List UInt8}
    (hfit : bytes.length ≤ recvBufLen - m.ep.recvBuf.length) :
    (CenterMng.recvData m [answerOf bytes]).ep.recvBuf = m.ep.recvBuf ++ bytes := by
  by_cases hb : bytes = []
  · rw [hb, List.append_nil]
    simp only [answerOf, if_true, CenterMng.recvData]
    split <;> rfl
  · simp only [answerOf, if_neg hb]
    rw [recvData_fits hb hfit]
    rfl

/-- The destination receives what the proxy has sent. -/
theorem destRecv_inv {w : Ends} {s s' : Path} {n : Nat} (h : Inv w s)
    (hs : step w s (.destRecv n) = some s') : Inv w s' := by
  cases hs
  obtain ⟨done, rest, hsplit, hposted, hdest⟩ := h.posted
  refine ⟨h.sender, h.addressed, h.attached, h.clean, h.relayed, h.atProxy_le,
    ⟨done, rest, hsplit, hposted, ?_⟩, chunk_le h.atDest_le _ _⟩
  have hbuf : (CenterMng.recvData s.dest [answerOf (destChunk w s n)]).ep.recvBuf =
      s.dest.ep.recvBuf ++ destChunk w s n := recvData_chunk (chunk_fits _ _ _ _)
  show (downWire w s).take _ = stream done ++ (CenterMng.recvData _ _).ep.recvBuf
  rw [hbuf, ← List.append_assoc, ← hdest]
  exact chunk_take _ _ _ _

/-- A complete frame is posted. -/
theorem destGet_inv {w : Ends} {s s' : Path} (h : Inv w s) (hs : step w s .destGet = some s') :
    Inv w s' := by
  cases hs
  obtain ⟨done, rest, hsplit, hposted, hdest⟩ := h.posted
  have hpre : s.dest.ep.recvBuf <+: stream rest := by
    have hall := (List.take_prefix s.atDest (downWire w s)).trans h.downWire_prefix
    rw [hdest, hsplit, stream_append] at hall
    exact (List.prefix_append_right_inj _).mp hall
  obtain hnone | ⟨x, rest', left, rfl, hbuf, hgot⟩ := getOneData_frame hpre
  · rw [hnone]
    refine ⟨h.sender, h.addressed, h.attached, h.clean, h.relayed, h.atProxy_le,
      ⟨done, rest, hsplit, ?_, hdest⟩, h.atDest_le⟩
    simpa using hposted
  · rw [hgot]
    refine ⟨h.sender, h.addressed, h.attached, h.clean, h.relayed, h.atProxy_le,
      ⟨done ++ [x], rest', ?_, ?_, ?_⟩, h.atDest_le⟩
    · rw [hsplit, List.append_assoc]
      rfl
    · simp [hposted, centerPost_frame, content]
    · show (downWire w s).take s.atDest = stream (done ++ [x]) ++ left
      rw [stream_append, List.append_assoc, stream_cons, stream_nil, List.append_nil, ← hbuf]
      exact hdest

/-- Every step that is looked at keeps the invariant. -/
theorem step_inv {w : Ends} {s s' : Path} {e : Event} (h : Inv w s) (hg : Guard w s e)
    (hs : Step w s e s') : Inv w s' := by
  cases e with
  | send m asked => exact send_inv h hg hs
  | proxyRecv n => exact proxyRecv_inv h hg hs
  | proxyOther e => exact proxyOther_inv h hg hs
  | destRecv n => exact destRecv_inv h hs
  | destGet => exact destGet_inv h hs

/-- What is posted at the destination is a prefix of what was sent, heads and bytes. Every message
all of whose bytes `recv` has returned there is posted, or stands whole in `_recv_buf` behind
those that are to be posted before it. -/
theorem run_round_trip (w : Ends) (s₀ s : Path) (es : List Event) (h₀ : Start w s₀)
    (hrun : Trace.Run (Step w) (Guard w) s₀ es s) :
    s.posted <+: s.sent.map content ∧
    ∀ n, (stream (s.sent.take n)).length ≤ s.atDest →
      stream ((s.sent.take n).drop s.posted.length) <+: s.dest.ep.recvBuf := by
  have h := hrun.invariant (Inv w) h₀.inv fun _ _ _ hi hg hs => step_inv hi hg hs
  obtain ⟨done, rest, hsplit, hposted, hdest⟩ := h.posted
  refine ⟨?_, ?_⟩
  · rw [hposted, hsplit, List.map_append]
    exact List.prefix_append _ _
  · intro n hn
    have hlen : s.posted.length = done.length := by rw [hposted, List.length_map]
    have hdrop : (s.sent.take n).drop s.posted.length = rest.take (n - done.length) := by
      rw [hlen, hsplit, List.drop_take, List.drop_left' rfl]
    rw [hdrop]
    by_cases hle : n ≤ done.length
    · rw [Nat.sub_eq_zero_of_le hle]
      exact List.nil_prefix
    · have hgot : stream done ++ s.dest.ep.recvBuf <+: stream s.sent := by
        rw [← hdest]
        exact (List.take_prefix _ _).trans h.downWire_prefix
      have htotal : (stream done ++ s.dest.ep.recvBuf).length = s.atDest := by
        rw [← hdest, List.length_take, Nat.min_eq_left h.atDest_le]
      have htake : s.sent.take n = done ++ rest.take (n - done.length) := by
        rw [hsplit, List.take_append, List.take_of_length_le (by omega)]
      have hsub : stream (s.sent.take n) <+: stream s.sent := by
        conv_rhs => rw [← List.take_append_drop n s.sent, stream_append]
        exact List.prefix_append _ _
      have hcover := List.prefix_of_prefix_length_le hsub hgot (by omega)
      rw [htake, stream_append] at hcover
      exact (List.prefix_append_right_inj _).mp hcover

/-! A deployment with one sender, registered as server 0 of type 8, and one destination, server 0
of type 7. The first `send` of the sender answers `EAGAIN`. -/

def sampleEnds : Ends := ⟨1, 2, 7, 0, 0, 1⟩

def sampleSender : Centers where
  mngs := [CenterMng.connect (CenterMng.init (fun i => if i = 0 then .again else .all) (-1)) 5]
  pos := by decide
  le := by decide
  sendCount := 0

def settle (p : ProxySvr.Proxy) (e : ProxySvr.Event) : ProxySvr.Proxy :=
  match ProxySvr.dealEvent p e with
  | .ok q => q
  | .error _ => p

def sampleProxy : ProxySvr.Proxy :=
  settle (settle (ProxySvr.initNetwork ⟨3, [⟨7, 1⟩, ⟨8, 1⟩]⟩ fun _ => .all)
    (.input 0 (.ok 3 8 0) [])) (.input 0 (.ok 4 7 0) [])

def sampleStart : Path :=
  ⟨sampleSender, sampleProxy, CenterMng.init (fun _ => .all) 6, 0, 0, [], []⟩

theorem sampleStart_start : Start sampleEnds sampleStart where
  sender := ⟨_, rfl, ⟨by decide, by decide, fun i => by
    show (if i = 0 then _ else _) = SendAnswer.all ∨ (if i = 0 then _ else _) = SendAnswer.again
    by_cases hi : i = 0
    · exact .inr (if_pos hi)
    · exact .inl (if_neg hi)⟩, rfl, rfl⟩
  noOverflow := ⟨fun m hm => by rw [List.mem_singleton.mp hm]; rfl, rfl⟩
  attached := ⟨by decide, by decide, by decide, ⟨[some 2], rfl, rfl⟩, rfl, rfl, by decide,
    by decide, fun _ => .inl rfl⟩
  recvBuf := rfl
  sendBuf := rfl
  wire := rfl
  dest := rfl
  counts := ⟨rfl, rfl⟩
  records := ⟨rfl, rfl⟩

/-- An event of the three programs alone, with a message for the destination. -/
def Alone (w : Ends) : Event → Prop
  | .send m _ => m.head.routeType = .p2p ∧ m.head.desType = w.desType ∧ m.head.desId = w.desId
  | .proxyOther _ => False
  | _ => True

instance (w : Ends) : DecidablePred (Alone w)
  | .send _ _ => inferInstanceAs (Decidable (_ ∧ _ ∧ _))
  | .proxyOther _ => inferInstanceAs (Decidable False)
  | .proxyRecv _ | .destRecv _ | .destGet => inferInstanceAs (Decidable True)

def tidy (w : Ends) (s : Path) : Bool :=
  s.sender.mngs.all (fun m => decide (m.dropped = [])) &&
    decide (s.proxy.dropped (w.desType, w.desId) = [])

def Plain (w : Ends) (s : Path) (e : Event) : Prop := (step w s e).all (tidy w) = true ∧ Alone w e

instance (w : Ends) (s : Path) (e : Event) : Decidable (Plain w s e) :=
  inferInstanceAs (Decidable (_ ∧ _))

theorem Plain.guard {w : Ends} {s : Path} {e : Event} (h : Plain w s e) : Guard w s e := by
  obtain ⟨hno, he⟩ := h
  refine ⟨?_, ?_⟩
  · intro s' hs
    rw [hs] at hno
    obtain ⟨hm, hp⟩ := Bool.and_eq_true_iff.mp hno
    exact ⟨fun m hx => of_decide_eq_true (List.all_eq_true.mp hm m hx), of_decide_eq_true hp⟩
  · cases e with
    | send m asked => exact he
    | proxyOther e => exact absurd he id
    | proxyRecv n => trivial
    | destRecv n => trivial
    | destGet => trivial

def sampleEvents : List Event :=
  [.send (request [1, 2, 3] (by decide) (by decide)) (-1),
    .send (request [4, 5] (by decide) (by decide)) 0, .proxyRecv 20, .proxyRecv 60,
    .destRecv 3, .destGet, .destRecv 50, .destGet]

/-- The first message arrives in pieces; of the second, the proxy still waits for the end. -/
theorem run_round_trip_pieces :
    ∃ s, Trace.Run (Step sampleEnds) (Guard sampleEnds) sampleStart sampleEvents s ∧
      s.sent.length = 2 ∧ s.posted = [(⟨8, 0, 7, 0, 21, .p2p, 0, 0⟩, [1, 2, 3])] ∧
      s.posted <+: s.sent.map content := by
  obtain ⟨s, hrun, hsent, hposted⟩ :=
    Trace.exists_run_of_exec (step sampleEnds) (Plain sampleEnds) sampleStart sampleEvents
      (fun s => s.sent.length = 2 ∧ s.posted = [(⟨8, 0, 7, 0, 21, .p2p, 0, 0⟩, [1, 2, 3])])
      (by decide +kernel)
  have hguarded : Trace.Run (Step sampleEnds) (Guard sampleEnds) sampleStart sampleEvents s :=
    hrun.weaken fun _ _ h => h.guard
  exact ⟨s, hguarded, hsent, hposted,
    (run_round_trip sampleEnds sampleStart s sampleEvents sampleStart_start hguarded).1⟩

end MessagePath
