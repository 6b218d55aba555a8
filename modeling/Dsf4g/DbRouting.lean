import Dsf4g.ProxyTransfer
import Dsf4g.SizeLimits

/-!
# The way of a database request

`SendMsgToDBProxy` and `SendMsgToResponse` in `src/common/msg_basic.cpp`, with
`SendMessageToCenter` and `SvrManager::DoTransfer` behind them. The uid of a request
picks the center and the database proxy; the head of the request leads the answer
back over the same center.
-/
namespace MsgBasic

open Base ProxySvr
open Server (Centers Message)

def dbRequestHead (v : Host) (stack : CenterHead) (sessionId uid : Nat) : CenterHead :=
  { fromHost v stack with
    desType := enSvrDbproxy, sessionId := sessionId, routeType := .hash, hashKey := uid }

def responseHead (v : Host) (stack src : CenterHead) : CenterHead :=
  { fromHost v stack with
    desType := src.srcType, desId := src.srcId, sessionId := src.sessionId, routeType := .p2p }

/-- The center is left open, so that the hash of the uid decides. -/
theorem sendMsgToDBProxy_eq (v : Host) (stack : CenterHead) (pad : List UInt8)
    (sessionId uid : Nat) (pb : List UInt8) :
    sendMsgToDBProxy v stack pad sessionId uid pb =
      sendChecked v (dbRequestHead v stack sessionId uid) pad pb (-1) := rfl

/-- The center is the one the request came over. -/
theorem sendMsgToResponse_eq (v : Host) (stack : CenterHead) (pad : List UInt8) (src : CenterHead)
    (pb : List UInt8) (h : src.centerIndex < 2 ^ 31) : sendMsgToResponse v stack pad src pb =
      sendChecked v (responseHead v stack src) pad pb src.centerIndex := by
  rw [sendMsgToResponse, if_pos h]
  rfl

/-- The database proxy, and the center, that a uid belongs to when there are `num` of them. -/
def ownerOf (num uid : Nat) : Nat := uid % num

theorem ownerOf_lt {num : Nat} (h : 0 < num) (uid : Nat) : ownerOf num uid < num := Nat.mod_lt _ h

/-! ## At the sender -/

/-- A message for a center of the list goes to its manager. -/
theorem sendMessageToCenter_eq {c : Centers} {m : Message} {asked : Int} {i n : Nat}
    (h : Server.chooseCenter c.num c.sendCount m.head asked = (some i, n)) (hi : i < 2 ^ 32) :
    Server.sendMessageToCenter c m asked = (c.put i (m.via i hi) n, some (m.via i hi)) := by
  simp only [Server.sendMessageToCenter, h, dif_pos hi]

/-- A hashed message goes to the center of its key. -/
theorem chooseCenter_hash {num sendCount : Nat} (hnum : 0 < num) {head : CenterHead}
    (h : head.routeType = .hash) :
    Server.chooseCenter num sendCount head (-1) = (some (ownerOf num head.hashKey), sendCount) := by
  have hlt := ownerOf_lt hnum head.hashKey
  rw [ownerOf] at hlt ⊢
  simp only [Server.chooseCenter, if_true, Server.routeCenter, h, Option.filter_some,
    decide_eq_true hlt]

/-- A center that exists is taken as asked. -/
theorem chooseCenter_asked {num sendCount i : Nat} (hi : i < num) (head : CenterHead) :
    Server.chooseCenter num sendCount head (i : Int) = (some i, sendCount) := by
  have hne : (i : Int) ≠ -1 := by omega
  have hge : (0 : Int) ≤ i := Int.natCast_nonneg i
  simp only [Server.chooseCenter, if_neg hne, if_pos hge, Int.toNat_natCast, Option.filter_some,
    decide_eq_true hi, if_true]

/-! ## At a center -/

/-- The calls of `SendOneData` that a frame has led to: none, or one to the server at `(t, id)`. -/
def ToServer (p q : Proxy) (f : List UInt8) (t id : Nat) : Prop :=
  q = p ∨ ∃ pos, q.calls = p.calls ++ [⟨pos, t, id, f⟩]

/-- An entry of the table is sent to at most, and no other. -/
theorem sendIfPresent_toServer {p : Proxy} (hs : Sound p) {t id : Nat} {v : List (Option Nat)}
    (hv : p.svrs t = some v) (hid : id < v.length) (f : SendBuffer.Packet) :
    ∃ q, sendIfPresent p t id f = .ok q ∧ ToServer p q f.val t id := by
  have he := entry_eq hv hid
  cases hs' : v[id] with
  | none =>
    rw [hs'] at he
    exact ⟨p, by simp only [sendIfPresent, he], .inl rfl⟩
  | some pos =>
    rw [hs'] at he
    obtain ⟨-, -, ht, hi⟩ := hs.entries t id pos (entry_eq_some.mp he)
    refine ⟨sendOneData p pos f, by simp only [sendIfPresent, sendTo, he], .inr ⟨pos, ?_⟩⟩
    simp only [sendOneData, ht, hi]

/-- A frame for a server by its number, or by a key, goes to that server or to nobody. -/
theorem doTransfer_toServer {p : Proxy} (hs : Sound p) (hsized : Sized p) {f : SendBuffer.Packet}
    (hlong : centerHeadLen < f.val.length) (id : Nat)
    (hroute : ((headOf f).routeType = .p2p ∧ id = (headOf f).desId) ∨
      ((headOf f).routeType = .hash ∧ id = (headOf f).hashKey % svrNum p (headOf f).desType))
    (hid : id < svrNum p (headOf f).desType) :
    ∃ q, doTransfer p f = .ok q ∧ ToServer p q f.val (headOf f).desType id := by
  cases hv : p.svrs (headOf f).desType with
  | none =>
    refine ⟨p, ?_, .inl rfl⟩
    rw [doTransfer, if_neg (by omega)]
    exact if_pos hv
  | some v =>
    obtain ⟨s, hconf, hlen⟩ := hsized _ v hv
    have hnum : svrNum p (headOf f).desType = s.svrNum := by rw [svrNum, hconf]; rfl
    rw [hnum] at hroute hid
    obtain ⟨q, hq, hto⟩ := sendIfPresent_toServer hs hv (hlen ▸ hid) f
    refine ⟨q, ?_, hto⟩
    rw [← hq, doTransfer, if_neg (by omega)]
    have hsome : p.svrs (readCenterHead f.val 4).desType ≠ none := by
      rw [show readCenterHead f.val 4 = headOf f from rfl, hv]
      exact Option.some_ne_none v
    dsimp only
    rw [if_neg hsome]
    obtain ⟨hr, rfl⟩ | ⟨hr, rfl⟩ := hroute
    · rw [show readCenterHead f.val 4 = headOf f from rfl, hr]
    · rw [show readCenterHead f.val 4 = headOf f from rfl, hr, hconf]
      exact if_neg (by omega)

/-- A state of a center after a run in which no registered slot was released. -/
def Reached (p : Proxy) : Prop :=
  ∃ conf answer es, Trace.Run Step (Guard Expected) (initNetwork conf answer) es p

theorem Reached.sound {p : Proxy} (h : Reached p) : Sound p := by
  obtain ⟨conf, answer, es, hrun⟩ := h
  have hinv : Sound p ∧ Covered p := by
    refine hrun.invariant (fun p => Sound p ∧ Covered p)
      ⟨initNetwork_sound conf answer, initNetwork_covered conf answer⟩ ?_
    intro s e s' hs hg hstep
    exact step_kept slots_kept hs hg
      (fun _ _ _ _ _ ha => ⟨acceptConnect_sound hs.1 ha, acceptConnect_covered hs.1 hs.2 ha⟩) hstep
  exact hinv.1

theorem Reached.sized {p : Proxy} (h : Reached p) : Sized p := by
  obtain ⟨conf, answer, es, hrun⟩ := h
  exact run_sized (hrun.weaken fun _ _ _ => trivial)

/-! ## There and back -/

theorem via_frame (m : Message) (i : Nat) (hi : i < 2 ^ 32) : (m.via i hi).frame =
    [Bytes.le 4 (4 + centerHeadLen + m.pb.length),
      Server.headBytes { m.head with centerIndex := i } m.pad, m.pb].flatten := by
  simp only [Message.frame, Message.via, List.flatten_cons, List.flatten_nil, List.append_nil]

/-- What the senders hand on is the frame of the message. -/
theorem sendChecked_frame {v : Host} (hbuf : v.centerBuf.length = centerBufLen) {m : Message}
    {asked : Int} {i n : Nat}
    (h : Server.chooseCenter v.centerNum v.sendCount m.head asked = (some i, n)) (hi : i < 2 ^ 32) :
    ∃ buf len, sendChecked v m.head m.pad m.pb asked = .handed buf len ∧
      buf.take len = (m.via i hi).frame := by
  have hle := (m.via i hi).frame_le
  have hframe := via_frame m i hi
  simp only [sendChecked, if_neg (Nat.not_lt.mpr m.pb_le), sendMessageToCenter, h]
  generalize [Bytes.le 4 (4 + centerHeadLen + m.pb.length),
    Server.headBytes { m.head with centerIndex := i } m.pad, m.pb] = blocks at hframe ⊢
  rw [hframe] at hle
  have hput := @Cursor.putAll_behind _ blocks [] v.centerBuf (by omega)
  simp only [List.nil_append, List.length_nil] at hput
  rw [hput]
  exact ⟨_, _, rfl, by rw [List.take_left' rfl, hframe]⟩

theorem packet_head (m : Message) :
    headOf m.packet = m.head ∧ centerHeadLen < m.packet.val.length := by
  refine ⟨m.frame_head, ?_⟩
  have hlen := m.frame_length
  have hc : centerHeadLen = 40 := rfl
  change centerHeadLen < m.frame.length
  omega

def viaCenter (h : CenterHead) (i : Nat) : CenterHead := { h with centerIndex := i }

/-- What `SendMsgToDBProxy` hands on for a uid goes to the center that the uid belongs to, and from
there to the database proxy that the uid belongs to or to nobody. -/
theorem request_to_owner (v : Host) (hbuf : v.centerBuf.length = centerBufLen) (c : Centers)
    (hnum : c.num = v.centerNum) (stack : CenterHead) (sessionId uid : Nat) (m : Message)
    (hm : m.head = dbRequestHead v stack sessionId uid) :
    ∃ sent : Message, Server.sendMessageToCenter c m (-1) =
        (c.put (ownerOf c.num uid) sent c.sendCount, some sent) ∧
      sent.head = viaCenter (dbRequestHead v stack sessionId uid) (ownerOf c.num uid) ∧
      sent.pb = m.pb ∧
      (∃ buf len, sendMsgToDBProxy v stack m.pad sessionId uid m.pb = .handed buf len ∧
        buf.take len = sent.frame) ∧
      ∀ p, Reached p → 0 < svrNum p enSvrDbproxy → ∃ q, doTransfer p sent.packet = .ok q ∧
        ToServer p q sent.frame enSvrDbproxy (ownerOf (svrNum p enSvrDbproxy) uid) := by
  have hpos : 0 < c.num := c.pos
  have hle : c.num ≤ 16 := c.le
  have hlt : ownerOf c.num uid < 2 ^ 32 := by
    have := ownerOf_lt hpos uid
    omega
  have hroute : m.head.routeType = .hash := by rw [hm]; rfl
  have hkey : m.head.hashKey = uid := by rw [hm]; rfl
  have hchoose : ∀ n, Server.chooseCenter c.num n m.head (-1) = (some (ownerOf c.num uid), n) := by
    intro n
    rw [chooseCenter_hash hpos hroute, hkey]
  refine ⟨m.via _ hlt, sendMessageToCenter_eq (hchoose _) hlt, ?_, rfl, ?_, ?_⟩
  · rw [← hm]
    rfl
  · rw [sendMsgToDBProxy_eq, ← hm]
    refine sendChecked_frame hbuf (n := v.sendCount) ?_ hlt
    rw [← hnum]
    exact hchoose _
  · intro p hp hsvrs
    obtain ⟨hhead, hlong⟩ := packet_head (m.via _ hlt)
    have htype : (headOf (m.via _ hlt).packet).desType = enSvrDbproxy := by
      rw [hhead]
      exact congrArg CenterHead.desType hm
    have hhash : (headOf (m.via _ hlt).packet).hashKey = uid := by
      rw [hhead]
      exact hkey
    have hto := doTransfer_toServer hp.sound hp.sized hlong (ownerOf (svrNum p enSvrDbproxy) uid)
      (.inr ⟨by rw [hhead]; exact hroute, by rw [htype, hhash, ownerOf]⟩)
      (by rw [htype]; exact ownerOf_lt hsvrs uid)
    rw [htype] at hto
    exact hto

/-- Hall server 5, or database proxy 1, with two centers. -/
def sampleHost (svrType svrId : Nat) : Host := ⟨svrType, svrId, 2, 0, List.replicate centerBufLen 0⟩

def sampleCenters : Centers where
  mngs := List.replicate 2 (CenterMng.init (fun _ => .all) (-1))
  pos := by decide
  le := by decide
  sendCount := 0

def sampleStack : CenterHead := ⟨0, 0, 0, 0, 0, .p2p, 0, 0⟩

def sampleMessage (head : CenterHead) (fits : Server.HeadFits head) : Message :=
  ⟨head, fits, List.replicate 4 0, rfl, [8], Nat.le_refl 1, Nat.le_of_ble_eq_true rfl⟩

/-- A center with two database proxies and six hall servers, of which one each has registered. -/
theorem sample_reached : ∃ p, Reached p ∧ svrNum p enSvrDbproxy = 2 ∧ svrNum p enSvrHall = 6 :=
  ⟨_, ⟨⟨4, [⟨4, 2⟩, ⟨2, 6⟩]⟩, fun _ => .all, [.input 0 (.ok 5 4 1) [], .input 0 (.ok 6 2 5) []],
    .cons (fun _ h => absurd rfl h) rfl (.cons (fun _ h => absurd rfl h) rfl (.nil _))⟩, rfl, rfl⟩

theorem request_to_owner_seven :
    ∃ sent : Message, Server.sendMessageToCenter sampleCenters
        (sampleMessage (dbRequestHead (sampleHost 2 5) sampleStack 9 7)
          (by constructor <;> decide)) (-1) = (sampleCenters.put 1 sent 0, some sent) ∧
      ∃ p q, doTransfer p sent.packet = .ok q ∧ ToServer p q sent.frame 4 1 := by
  obtain ⟨sent, hsent, -, -, -, hcenter⟩ := request_to_owner (sampleHost 2 5)
    List.length_replicate sampleCenters rfl sampleStack 9 7
    (sampleMessage (dbRequestHead (sampleHost 2 5) sampleStack 9 7) (by constructor <;> decide)) rfl
  obtain ⟨p, hp, hnum, -⟩ := sample_reached
  obtain ⟨q, hq, hto⟩ := hcenter p hp (by rw [hnum]; decide)
  rw [hnum] at hto
  exact ⟨sent, hsent, p, q, hq, hto⟩

/-- The answer to a request, made from the head that arrived, goes back to the same center, and from
there to the server that asked or to nobody, with the session id of the request. -/
theorem answer_to_asker (v : Host) (hbuf : v.centerBuf.length = centerBufLen) (c : Centers)
    (hnum : c.num = v.centerNum) (stack : CenterHead) (request answer : Message)
    (hcenter : request.head.centerIndex < c.num)
    (hanswer : answer.head = responseHead v stack (readCenterHead request.frame 4)) :
    ∃ sent : Message, Server.sendMessageToCenter c answer (request.head.centerIndex : Nat) =
        (c.put request.head.centerIndex sent c.sendCount, some sent) ∧
      sent.head.sessionId = request.head.sessionId ∧ sent.pb = answer.pb ∧
      (∃ buf len, sendMsgToResponse v stack answer.pad (readCenterHead request.frame 4) answer.pb =
        .handed buf len ∧ buf.take len = sent.frame) ∧
      ∀ p, Reached p → request.head.srcId < svrNum p request.head.srcType →
        ∃ q, doTransfer p sent.packet = .ok q ∧
          ToServer p q sent.frame request.head.srcType request.head.srcId := by
  have hle : c.num ≤ 16 := c.le
  have hlt : request.head.centerIndex < 2 ^ 32 := by omega
  rw [request.frame_head] at hanswer ⊢
  have hchoose : ∀ n, Server.chooseCenter c.num n answer.head (request.head.centerIndex : Nat) =
      (some request.head.centerIndex, n) := fun n => chooseCenter_asked hcenter _
  refine ⟨answer.via _ hlt, sendMessageToCenter_eq (hchoose _) hlt, ?_, rfl, ?_, ?_⟩
  · change answer.head.sessionId = _
    rw [hanswer]
    rfl
  · rw [sendMsgToResponse_eq _ _ _ _ _ (by omega), ← hanswer]
    refine sendChecked_frame hbuf (n := v.sendCount) ?_ hlt
    rw [← hnum]
    exact hchoose _
  · intro p hp hid
    obtain ⟨hhead, hlong⟩ := packet_head (answer.via _ hlt)
    have htype : (headOf (answer.via _ hlt).packet).desType = request.head.srcType := by
      rw [hhead]
      exact congrArg CenterHead.desType hanswer
    have hdes : (headOf (answer.via _ hlt).packet).desId = request.head.srcId := by
      rw [hhead]
      exact congrArg CenterHead.desId hanswer
    have hroute : (headOf (answer.via _ hlt).packet).routeType = .p2p := by
      rw [hhead]
      exact congrArg CenterHead.routeType hanswer
    have hto := doTransfer_toServer hp.sound hp.sized hlong request.head.srcId
      (.inl ⟨hroute, hdes.symm⟩)
      (by rw [htype]; exact hid)
    rw [htype] at hto
    exact hto

def sampleArrived : Message :=
  sampleMessage (viaCenter (dbRequestHead (sampleHost 2 5) sampleStack 9 7) 1)
    (by constructor <;> decide)

theorem answer_to_asker_seven :
    ∃ sent : Message, sent.head.sessionId = 9 ∧
      ∃ p q, doTransfer p sent.packet = .ok q ∧ ToServer p q sent.frame 2 5 := by
  obtain ⟨sent, -, hsession, -, -, hcenter⟩ := answer_to_asker (sampleHost 4 1)
    List.length_replicate sampleCenters rfl sampleStack sampleArrived
    (sampleMessage (responseHead (sampleHost 4 1) sampleStack sampleArrived.head)
      (by constructor <;> decide)) (by decide)
    (congrArg (responseHead (sampleHost 4 1) sampleStack) sampleArrived.frame_head.symm)
  obtain ⟨p, hp, -, hnum⟩ := sample_reached
  obtain ⟨q, hq, hto⟩ := hcenter p hp (by
    change 5 < svrNum p enSvrHall
    rw [hnum]
    decide)
  exact ⟨sent, hsession, p, q, hq, hto⟩

end MsgBasic
