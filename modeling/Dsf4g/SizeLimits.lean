import Dsf4g.Lib.Cursor
import Dsf4g.MsgLoop
import Dsf4g.ProxySvr
import Dsf4g.ShmPipeQueue
import Mathlib.Algebra.Group.Int.Defs

/-!
# Sizes along the message path

`src/common/msg_basic.cpp` and `core/server.cpp`: a message of at most `MAX_PB_LEN`
bytes is put behind its heads in `_tcp_buf` or `_center_buf`, and taken off them
again on the other side. The frames that `GetCenterMessage` reads lie in the
buffer that `SendMessageToCenter` writes.
-/
namespace MsgBasic

open Base SendBuffer MsgLoop

def enSvrHall : Nat := 2
def enSvrDbproxy : Nat := 4

/-! ## Sending -/

/-- What a call leaves in the buffer of the server. -/
inductive Sent where
  /-- It returns before it writes. -/
  | refused
  /-- A copy goes over the end of the buffer. -/
  | overrun
  /-- The first `len` bytes are handed on. -/
  | handed (buf : List UInt8) (len : Nat)

def copied : Option (List UInt8 × Nat) → Sent
  | none => .overrun
  | some (buf, len) => .handed buf len

structure TcpHeadImage where
  head : TcpHead
  addr_length : head.socketAddr.length = 16
  pad : List UInt8
  pad_length : pad.length = 3

def TcpHeadImage.bytes (h : TcpHeadImage) : List UInt8 :=
  Bytes.le 8 h.head.createTime ++ (Bytes.le 4 h.head.socketPos ++ (Bytes.le 4 h.head.socketPort ++
    (h.head.socketAddr ++ (Bytes.le 4 h.head.msgType ++
      ((if h.head.needClose then 1 else 0) :: h.pad)))))

/-- `SendMessageToClient`; `psc` says whether there is an `sc` pipe. -/
def sendMessageToClient (psc : Bool) (tcpBuf : List UInt8) (h : TcpHeadImage) (pb : List UInt8) :
    Sent :=
  if psc then copied (Cursor.putAll tcpBuf 0 [h.bytes, Bytes.be 4 (pb.length + 4), pb])
  else .refused

def sendMsgToClient (psc : Bool) (tcpBuf : List UInt8) (h : TcpHeadImage) (pb : List UInt8)
    (close : Bool) : Sent :=
  if pb.length > Server.maxPbLen then .refused
  else
    sendMessageToClient psc tcpBuf
      { h with head := { h.head with msgType := tcpNormal, needClose := close } } pb

/-- The server as the senders see it: `GetSvrType`, `GetSvrID`, `_center_num`, the static
`send_count` and `_center_buf`. -/
structure Host where
  svrType : Nat
  svrId : Nat
  centerNum : Nat
  sendCount : Nat
  centerBuf : List UInt8

def sendMessageToCenter (v : Host) (head : CenterHead) (pad pb : List UInt8) (asked : Int) : Sent :=
  match (Server.chooseCenter v.centerNum v.sendCount head asked).1 with
  | none => .refused
  | some i =>
    copied (Cursor.putAll v.centerBuf 0
      [Bytes.le 4 (4 + centerHeadLen + pb.length),
        Server.headBytes { head with centerIndex := i } pad, pb])

/-- What the senders of messages to centers have in common. -/
def sendChecked (v : Host) (head : CenterHead) (pad pb : List UInt8) (asked : Int) : Sent :=
  if pb.length > Server.maxPbLen then .refused else sendMessageToCenter v head pad pb asked

/-- The members that a sender does not assign keep what lay on the stack. -/
def fromHost (v : Host) (stack : CenterHead) : CenterHead :=
  { stack with srcType := v.svrType, srcId := v.svrId }

/-- `SendMsgToResponse`. The `uint32` `center_index` is passed as an `int`. -/
def sendMsgToResponse (v : Host) (stack : CenterHead) (pad : List UInt8) (src : CenterHead)
    (pb : List UInt8) : Sent :=
  sendChecked v
    { fromHost v stack with
      desType := src.srcType, desId := src.srcId, sessionId := src.sessionId, routeType := .p2p }
    pad pb (if src.centerIndex < 2 ^ 31 then src.centerIndex else src.centerIndex - 2 ^ 32)

def sendMsgToHallById (v : Host) (stack : CenterHead) (pad : List UInt8) (sessionId svrId : Nat)
    (pb : List UInt8) : Sent :=
  sendChecked v
    { fromHost v stack with
      desType := enSvrHall, desId := svrId, sessionId := sessionId, routeType := .p2p }
    pad pb (-1)

def sendMsgToDBProxy (v : Host) (stack : CenterHead) (pad : List UInt8) (sessionId uid : Nat)
    (pb : List UInt8) : Sent :=
  sendChecked v
    { fromHost v stack with
      desType := enSvrDbproxy, sessionId := sessionId, routeType := .hash, hashKey := uid }
    pad pb (-1)

/-- A call of one of the three, by a server of the type and id of `v`. -/
inductive ToCenter (v : Host) : Sent → Prop
  | response (stack : CenterHead) (pad : List UInt8) (src : CenterHead) (pb : List UInt8)
      (hp : pad.length = 4) : ToCenter v (sendMsgToResponse v stack pad src pb)
  | hallById (stack : CenterHead) (pad : List UInt8) (sessionId svrId : Nat) (pb : List UInt8)
      (hp : pad.length = 4) : ToCenter v (sendMsgToHallById v stack pad sessionId svrId pb)
  | dbProxy (stack : CenterHead) (pad : List UInt8) (sessionId uid : Nat) (pb : List UInt8)
      (hp : pad.length = 4) : ToCenter v (sendMsgToDBProxy v stack pad sessionId uid pb)

/-! ## What the limits should give -/

/-- A call does not overrun a buffer of `size` bytes, and what it hands on has a property. -/
def Sent.Fits (size : Nat) (p : List UInt8 → Prop) : Sent → Prop
  | .refused => True
  | .overrun => False
  | .handed buf len => buf.length = size ∧ len ≤ size ∧ p (buf.take len)

/-- `GetOneData` in `SendClientData` returns the frame when it is the oldest. -/
def ReadByTcp (f : List UInt8) : Prop :=
  ∀ p q, ShmPipe.Represents p (f :: q) →
    (ShmPipe.getOneData p tcpBufLen).ok = true ∧ (ShmPipe.getOneData p tcpBufLen).data = f

/-- `RecvServerData` waits for the rest of the frame, and hands it over when it has all of it. -/
structure ReadByProxy (f : List UInt8) : Prop where
  waits : ∀ (p : ProxySvr.Proxy) (pos : Nat) (bs : List UInt8), bs <+: f → bs.length < f.length →
    ProxySvr.forward p pos bs = .ok ⟨p, bs⟩
  passes : ∃ h : f.length ≤ centerBufLen, ∀ (p : ProxySvr.Proxy) (pos : Nat) (rest : List UInt8),
    ProxySvr.forward p pos (f ++ rest) =
      match ProxySvr.doTransfer p ⟨f, h⟩ with
      | .error e => .error e
      | .ok p => ProxySvr.forward p pos rest

/-- `GetOneData` of a `CenterMng` waits for the rest of the frame, and takes it when it has all of
it. -/
structure ReadByCenter (f : List UInt8) : Prop where
  waits : ∀ m : CenterMng.Mng, m.ep.recvBuf <+: f → m.ep.recvBuf.length < f.length →
    CenterMng.getOneData m centerBufLen = ⟨m, none⟩
  takes : ∀ (m : CenterMng.Mng) (rest : List UInt8), m.ep.recvBuf = f ++ rest →
    CenterMng.getOneData m centerBufLen = ⟨Server.withBuf m rest, some f⟩

/-- The frames that handlers send to centers are those of the three calls. -/
def SendsBy (svrType svrId : Nat) : Event → Prop
  | .iterate h => ∀ x ∈ h.sends, ∃ v buf len, v.svrType = svrType ∧ v.svrId = svrId ∧
      v.centerBuf.length = centerBufLen ∧ ToCenter v (.handed buf len) ∧ x.2.val = buf.take len
  | _ => True

/-- The `buf_len` of the call of `PostMessage` in the next pass. -/
def postLen (s : Loop) : Option Nat :=
  match s.pc with
  | .draining i _ =>
    (centerFrame s i).bind fun f =>
      let len := Bytes.ofLe ((Server.copyIn s.centerBuf f).take 4)
      if len ≤ 4 + centerHeadLen then none else some (len - 4 - centerHeadLen)
  | .clients n =>
    if n < 1024 then
      (s.cs.get List.length tcpBufLen).bind fun r =>
        match clientFrame r.1 with
        | .message _ _ => some (r.1.length - tcpHeadLen - 4)
        | _ => none
    else none
  | _ => none

/-- The bytes of a message that are copied to `stPBMsg.data`. -/
def pbOf : Msg → List UInt8
  | .client _ pb | .server _ pb | .internal pb => pb

/-! ## Building a frame -/

theorem TcpHeadImage.bytes_length (h : TcpHeadImage) : h.bytes.length = tcpHeadLen := by
  simp only [TcpHeadImage.bytes, List.length_append, List.length_cons, Bytes.le_length,
    h.addr_length, h.pad_length]
  rfl

theorem Sent.Fits.mono {size : Nat} {p q : List UInt8 → Prop} {s : Sent} (h : s.Fits size p)
    (hpq : ∀ f, f.length ≤ size → p f → q f) : s.Fits size q := by
  cases s with
  | refused => trivial
  | overrun => exact h
  | handed buf len =>
    obtain ⟨hbuf, hlen, hp⟩ := h
    exact ⟨hbuf, hlen, hpq _ (by rw [List.length_take]; omega) hp⟩

/-- Blocks that fit in are handed on one behind the other. -/
theorem copied_fits {buf : List UInt8} {size : Nat} {xss : List (List UInt8)}
    {p : List UInt8 → Prop} (hbuf : buf.length = size) (hlen : xss.flatten.length ≤ size)
    (hp : p xss.flatten) : (copied (Cursor.putAll buf 0 xss)).Fits size p := by
  have hput := @Cursor.putAll_behind _ xss [] buf (by omega)
  simp only [List.nil_append, List.length_nil] at hput
  rw [hput]
  refine ⟨?_, hlen, ?_⟩
  · rw [List.length_append, List.length_drop]
    omega
  · rw [List.take_left' rfl]
    exact hp

theorem readByTcp {f : List UInt8} (h : f.length ≤ tcpBufLen) : ReadByTcp f := by
  intro p q hp
  rw [ShmPipe.getOneData_eq hp tcpBufLen h]
  exact ⟨rfl, rfl⟩

theorem sendMsgToClient_fits (psc : Bool) {tcpBuf : List UInt8} (h : TcpHeadImage)
    (pb : List UInt8) (close : Bool) (hbuf : tcpBuf.length = tcpBufLen) :
    (sendMsgToClient psc tcpBuf h pb close).Fits tcpBufLen ReadByTcp := by
  unfold sendMsgToClient
  split
  · trivial
  · next hpb =>
    unfold sendMessageToClient
    cases psc with
    | false => trivial
    | true =>
      have hb : Server.maxPbLen = 4092 := rfl
      have ht : tcpBufLen = 4136 := rfl
      have hh : tcpHeadLen = 40 := rfl
      refine (copied_fits (p := fun _ => True) hbuf ?_ trivial).mono fun f hf _ => readByTcp hf
      simp only [List.flatten_cons, List.flatten_nil, List.length_append, List.length_nil,
        TcpHeadImage.bytes_length, Bytes.be, List.length_reverse, Bytes.le_length]
      omega

/-! ## Frames for centers -/

/-- A frame with both heads whose first word is its length. -/
structure Framed (f : List UInt8) : Prop where
  ge : 4 + centerHeadLen ≤ f.length
  le : f.length ≤ centerBufLen
  word : Bytes.ofLe (f.take 4) = f.length

theorem sendChecked_framed {v : Host} (head : CenterHead) {pad : List UInt8} (pb : List UInt8)
    (asked : Int) (hp : pad.length = 4) (hbuf : v.centerBuf.length = centerBufLen) :
    (sendChecked v head pad pb asked).Fits centerBufLen Framed := by
  unfold sendChecked
  split
  · trivial
  · next hpb =>
    unfold sendMessageToCenter
    split
    · trivial
    · next i _ =>
      have hb : Server.maxPbLen = 4092 := rfl
      have hc : centerBufLen = 4136 := rfl
      have hh : centerHeadLen = 40 := rfl
      generalize hframe : [Bytes.le 4 (4 + centerHeadLen + pb.length),
        Server.headBytes { head with centerIndex := i } pad, pb].flatten = f
      have hlen : f.length = 44 + pb.length := by
        rw [← hframe]
        simp only [List.flatten_cons, List.flatten_nil, List.append_nil, List.length_append,
          Bytes.le_length, Server.headBytes_length, hp]
        omega
      have hword : f.take 4 = Bytes.le 4 (4 + centerHeadLen + pb.length) := by
        rw [← hframe, List.flatten_cons, List.take_left' (Bytes.le_length 4 _)]
      refine copied_fits hbuf (by rw [hframe]; omega) ?_
      rw [hframe]
      refine ⟨by omega, by omega, ?_⟩
      rw [hword, Bytes.ofLe_le_of_lt (by omega), hlen, hh]

/-- A call of the three hands on a frame of the two heads. -/
theorem ToCenter.framed {v : Host} {sent : Sent} (h : ToCenter v sent)
    (hbuf : v.centerBuf.length = centerBufLen) : sent.Fits centerBufLen Framed := by
  cases h with
  | response stack pad src pb hp => exact sendChecked_framed _ pb _ hp hbuf
  | hallById stack pad sessionId svrId pb hp => exact sendChecked_framed _ pb _ hp hbuf
  | dbProxy stack pad sessionId uid pb hp => exact sendChecked_framed _ pb _ hp hbuf

/-- A part of a frame with more than a word in it shows the length of the frame. -/
theorem Framed.word_of_prefix {f bs : List UInt8} (h : Framed f) (hbs : bs <+: f)
    (hlen : 4 < bs.length) : Bytes.ofLe (bs.take 4) = f.length := by
  obtain ⟨rest, rfl⟩ := hbs
  have htake : (bs ++ rest).take 4 = bs.take 4 := List.take_append_of_le_length (by omega)
  rw [← htake, h.word]

theorem Framed.word_append {f : List UInt8} (h : Framed f) (rest : List UInt8) :
    Bytes.ofLe ((f ++ rest).take 4) = f.length := by
  have hge := h.ge
  rw [List.take_append_of_le_length (by omega), h.word]

theorem Framed.readByProxy {f : List UInt8} (h : Framed f) : ReadByProxy f := by
  have hge := h.ge
  have hle := h.le
  have hh : centerHeadLen = 40 := rfl
  constructor
  · intro p pos bs hbs hshort
    rw [ProxySvr.forward]
    split
    · rfl
    · next hlen =>
      have hword : ProxySvr.frameLen bs = f.length := h.word_of_prefix hbs (by omega)
      rw [dif_neg (by omega), if_pos (by omega)]
  · refine ⟨hle, fun p pos rest => ?_⟩
    have hword : ProxySvr.frameLen (f ++ rest) = f.length := h.word_append rest
    have hlen : (f ++ rest).length = f.length + rest.length := List.length_append
    have hfront : (f ++ rest).take (ProxySvr.frameLen (f ++ rest)) = f := by
      rw [hword, List.take_left' rfl]
    have hback : (f ++ rest).drop (ProxySvr.frameLen (f ++ rest)) = rest := by
      rw [hword, List.drop_left' rfl]
    have hpacket : ∀ hfits, (⟨(f ++ rest).take (ProxySvr.frameLen (f ++ rest)), hfits⟩ : Packet) =
        ⟨f, hle⟩ := fun _ => Subtype.ext hfront
    rw [ProxySvr.forward, if_neg (by omega), dif_neg (by omega), if_neg (by omega),
      if_neg (by omega), hpacket]
    cases ProxySvr.doTransfer p ⟨f, hle⟩ with
    | error e => rfl
    | ok q => exact congrArg (ProxySvr.forward q pos) hback

theorem Framed.readByCenter {f : List UInt8} (h : Framed f) : ReadByCenter f := by
  have hge := h.ge
  have hle := h.le
  have hh : centerHeadLen = 40 := rfl
  constructor
  · intro m hbs hshort
    refine Server.getOneData_pending ?_ centerBufLen
    by_cases hlen : m.ep.recvBuf.length ≤ 4
    · exact .inl hlen
    · exact .inr ((h.word_of_prefix hbs (by omega)).symm ▸ hshort)
  · intro m rest hbuf
    exact Server.getOneData_behind hbuf (by omega) hle h.word

/-! ## `_center_buf` -/

/-- `_center_buf` keeps its size, and its first word is at most that. -/
structure Bounded (buf : List UInt8) : Prop where
  length : buf.length = centerBufLen
  word : Bytes.ofLe (buf.take 4) ≤ centerBufLen

theorem bounded_zero : Bounded (List.replicate centerBufLen 0) :=
  ⟨List.length_replicate, by decide⟩

/-- What is copied to the front of the buffer: a frame, or as much of a length word as the length
says. -/
structure Copyable (f : List UInt8) : Prop where
  le : f.length ≤ centerBufLen
  word : Bytes.ofLe (f.take 4) ≤ f.length

/-- The bytes of the old word behind a short frame are small, since that word was. -/
theorem Bounded.copyIn {buf f : List UInt8} (h : Bounded buf) (hf : Copyable f) :
    Bounded (Server.copyIn buf f) := by
  have hle := hf.le
  have hlen := h.length
  have hc : centerBufLen = 4136 := rfl
  refine ⟨(Server.copyIn_length (by omega)).trans hlen, ?_⟩
  by_cases h4 : 4 ≤ f.length
  · rw [Server.copyIn, List.take_append_of_le_length h4]
    exact Nat.le_trans hf.word hle
  · have hnew : (Server.copyIn buf f).take 4 = f ++ (buf.drop f.length).take (4 - f.length) := by
      rw [Server.copyIn, List.take_append, List.take_of_length_le (by omega)]
    have hold : buf.take 4 = buf.take f.length ++ (buf.drop f.length).take (4 - f.length) := by
      rw [← List.take_add, Nat.add_sub_cancel' (by omega)]
    have hword := h.word
    have hfword := hf.word
    rw [List.take_of_length_le (by omega)] at hfword
    rw [hold, Bytes.ofLe_append, List.length_take_of_le (by omega)] at hword
    rw [hnew, Bytes.ofLe_append]
    generalize Bytes.ofLe ((buf.drop f.length).take (4 - f.length)) = x at hword ⊢
    have hcases : f.length = 0 ∨ f.length = 1 ∨ f.length = 2 ∨ f.length = 3 := by omega
    obtain hk | hk | hk | hk := hcases <;> rw [hk] at hword hfword ⊢ <;> omega

/-- A message read from the buffer is not longer than the buffer allows. -/
theorem Bounded.post {buf : List UInt8} (h : Bounded buf) {m : CenterHead × List UInt8}
    (hm : Server.centerPost buf = some m) :
    ¬ Bytes.ofLe (buf.take 4) ≤ 4 + centerHeadLen ∧
      m.2.length = Bytes.ofLe (buf.take 4) - 4 - centerHeadLen ∧ m.2.length ≤ Server.maxPbLen := by
  have hword := h.word
  have hlen := h.length
  have hc : centerBufLen = 4136 := rfl
  have hh : centerHeadLen = 40 := rfl
  have hb : Server.maxPbLen = 4092 := rfl
  simp only [Server.centerPost] at hm
  split at hm
  · cases hm
  · next hgt =>
    cases hm
    rw [List.length_take, List.length_drop]
    omega

theorem copyable_of_got {s : Loop} {i : Nat} {f : List UInt8} (h : centerFrame s i = some f) :
    Copyable f := by
  obtain ⟨mng, -, hg⟩ := Option.bind_eq_some_iff.mp h
  obtain ⟨hle, -, hword⟩ := Server.getOneData_word hg
  exact ⟨hle, hword⟩

/-! ## The loop -/

theorem post_centerBuf {s s' : Loop} {m : Msg} (h : s.post m = some s') :
    s'.centerBuf = s.centerBuf := by
  obtain ⟨q, -, rfl⟩ := Option.map_eq_some_iff.mp h
  rfl

theorem postInput_centerBuf (s : Loop) (took : Option Msg) (m : Msg) (ok failed : Pc) :
    (s.postInput took m ok failed).centerBuf = s.centerBuf := by
  simp only [Loop.postInput]
  split
  · next h =>
    have hsame := post_centerBuf h
    exact hsame
  · rfl

theorem postInternal_centerBuf (s : Loop) (pb : List UInt8) :
    (s.postInternal pb).centerBuf = s.centerBuf := by
  unfold Loop.postInternal
  cases h : s.post (.internal pb) with
  | none => rfl
  | some s' => exact post_centerBuf h

theorem foldl_postInternal_centerBuf (pbs : List (List UInt8)) (s : Loop) :
    (pbs.foldl Loop.postInternal s).centerBuf = s.centerBuf := by
  induction pbs generalizing s with
  | nil => rfl
  | cons pb pbs ih => exact (ih _).trans (postInternal_centerBuf s pb)

theorem send_bounded {s : Loop} (h : Bounded s.centerBuf) (i : Nat) {f : Packet}
    (hf : Copyable f.val) : Bounded (s.send i f).centerBuf := by
  unfold Loop.send
  split
  · exact h.copyIn hf
  · exact h

theorem foldl_send_bounded {xs : List (Nat × Packet)} (hxs : ∀ x ∈ xs, Copyable x.2.val) {s : Loop}
    (h : Bounded s.centerBuf) :
    Bounded (xs.foldl (fun s c => Loop.send s c.1 c.2) s).centerBuf := by
  induction xs generalizing s with
  | nil => exact h
  | cons x xs ih =>
    exact ih (fun y hy => hxs y (List.mem_cons_of_mem _ hy))
      (send_bounded h x.1 (hxs x (List.mem_cons_self ..)))

/-- What handlers send with the three calls is copied to `_center_buf`. -/
theorem handled_bounded {svrType svrId : Nat} {x : MsgLoop.Effect}
    (hx : SendsBy svrType svrId (.iterate x)) {s : Loop} (h : Bounded s.centerBuf) :
    Bounded (s.handled x).centerBuf := by
  refine foldl_send_bounded (fun y hy => ?_) ((foldl_postInternal_centerBuf x.internal s).symm ▸ h)
  obtain ⟨v, buf, len, -, -, hbuf, hsent, hval⟩ := hx y hy
  obtain ⟨-, -, hf⟩ := hsent.framed hbuf
  rw [hval]
  exact ⟨hf.le, Nat.le_of_eq hf.word⟩

theorem drain_bounded {s : Loop} (h : Bounded s.centerBuf) (i count : Nat) :
    Bounded (drain s i count).centerBuf := by
  simp only [drain]
  cases hc : s.centers[i]? with
  | none => exact h
  | some mng =>
    dsimp only
    cases hg : (CenterMng.getOneData mng centerBufLen).data with
    | none => exact h
    | some f =>
      have hcopy : Bounded (Server.copyIn s.centerBuf f) :=
        h.copyIn (copyable_of_got (s := s) (i := i) (by
          simp only [centerFrame, hc, Option.bind_some, hg]))
      dsimp only
      cases Server.centerPost (Server.copyIn s.centerBuf f) with
      | none => exact hcopy
      | some m =>
        dsimp only
        rw [postInput_centerBuf]
        exact hcopy

theorem getClient_bounded {svrType svrId : Nat} {x : MsgLoop.Effect}
    (hx : SendsBy svrType svrId (.iterate x)) {s : Loop} (h : Bounded s.centerBuf) (n : Nat) :
    Bounded (getClient s n x).centerBuf := by
  simp only [getClient]
  split
  · cases s.cs.get List.length tcpBufLen with
    | none => exact h
    | some r =>
      dsimp only
      cases clientFrame r.1 with
      | ignored => exact h
      | offline logicIndex => exact handled_bounded hx h
      | message head pb =>
        dsimp only
        rw [postInput_centerBuf]
        exact h
  · exact h

theorem dispatch_bounded {svrType svrId : Nat} {x : MsgLoop.Effect}
    (hx : SendsBy svrType svrId (.iterate x)) {s : Loop} (h : Bounded s.centerBuf) (n : Nat) :
    Bounded (dispatch s n x).centerBuf := by
  simp only [dispatch]
  split
  · cases s.msgs.get (fun _ => msgSize) msgSize with
    | none => exact h
    | some r => exact handled_bounded hx h
  · exact h

/-- Every step keeps the bound of `_center_buf`. -/
theorem step_bounded {svrType svrId : Nat} {s s' : Loop} {e : Event} (h : Bounded s.centerBuf)
    (hg : SendsBy svrType svrId e) (hs : Step s e s') : Bounded s'.centerBuf := by
  cases e with
  | arrive f =>
    cases hs
    exact h
  | poll conns recvs =>
    simp only [Step, step] at hs
    split at hs
    · split at hs
      · cases hs
        exact h
      · cases hs
        exact h
    · cases hs
  | iterate x =>
    simp only [Step, step, iterate] at hs
    split at hs
    · cases hs
    · cases hs
      exact h
    · next i count _ =>
      cases hs
      exact drain_bounded h i count
    · next n _ =>
      cases hs
      exact getClient_bounded hg h n
    · next n _ =>
      cases hs
      exact dispatch_bounded hg h n
    · cases hs
      exact handled_bounded hg h

/-! ## What is posted -/

theorem clientFrame_message {f : List UInt8} {head : TcpHead} {pb : List UInt8}
    (h : clientFrame f = .message head pb) : pb.length = f.length - tcpHeadLen - 4 := by
  simp only [clientFrame] at h
  split at h
  · cases h
  · split at h
    · split at h <;> cases h
    · split at h
      · cases h
      · split at h
        · cases h
        · obtain ⟨-, rfl⟩ := ClientFrame.message.inj h
          rw [List.length_drop, List.length_drop]

theorem postLen_bounded {s : Loop} (h : Bounded s.centerBuf) {n : Nat} (hn : postLen s = some n) :
    n ≤ Server.maxPbLen ∧ ∃ m, posts s = some m ∧ (pbOf m).length = n := by
  simp only [postLen] at hn
  split at hn
  · next i count hpc =>
    obtain ⟨f, hf, hlen⟩ := Option.bind_eq_some_iff.mp hn
    have hcopy := h.copyIn (copyable_of_got hf)
    cases hp : Server.centerPost (Server.copyIn s.centerBuf f) with
    | none =>
      simp only [Server.centerPost] at hp
      split at hp
      · next hle =>
        rw [if_pos hle] at hlen
        cases hlen
      · cases hp
    | some m =>
      obtain ⟨hgt, heq, hmax⟩ := hcopy.post hp
      rw [if_neg hgt] at hlen
      cases hlen
      refine ⟨heq ▸ hmax, serverMsg m, ?_, heq⟩
      simp only [posts, hpc, hf, Option.bind_some, hp, Option.map_some]
  · next k hpc =>
    split at hn
    · next hk =>
      obtain ⟨r, hr, hlen⟩ := Option.bind_eq_some_iff.mp hn
      cases hf : clientFrame r.1 with
      | ignored =>
        rw [hf] at hlen
        cases hlen
      | offline logicIndex =>
        rw [hf] at hlen
        cases hlen
      | message head pb =>
        rw [hf] at hlen
        cases hlen
        have hle := Fifo.get_le hr
        have hb : Server.maxPbLen = 4092 := rfl
        have ht : tcpBufLen = 4136 := rfl
        have hh : tcpHeadLen = 40 := rfl
        refine ⟨by omega, .client head pb, ?_, clientFrame_message hf⟩
        simp only [posts, hpc, clientMsg, if_pos hk, hr, Option.bind_some, hf]
    · cases hn
  · cases hn

/-- The limits agree: what is posted fits into an `stPBMsg`, and what is sent fits into the buffer
of the server and is read by the other side. -/
theorem run_sizes_agree (svrType svrId : Nat) (s₀ s : Loop) (es : List Event)
    (h₀ : s₀.centerBuf = List.replicate centerBufLen 0)
    (hrun : Trace.Run Step (fun _ e => SendsBy svrType svrId e) s₀ es s) :
    (∀ n, postLen s = some n →
      n ≤ Server.maxPbLen ∧ ∃ m, posts s = some m ∧ (pbOf m).length = n) ∧
    (∀ psc tcpBuf h pb close, tcpBuf.length = tcpBufLen →
      (sendMsgToClient psc tcpBuf h pb close).Fits tcpBufLen ReadByTcp) ∧
    (∀ v sent, v.centerBuf.length = centerBufLen → ToCenter v sent →
      sent.Fits centerBufLen fun f => ReadByProxy f ∧ ReadByCenter f) := by
  have hbounded : Bounded s.centerBuf := hrun.invariant (fun s => Bounded s.centerBuf)
    (h₀ ▸ bounded_zero) fun _ _ _ hi hg hs => step_bounded hi hg hs
  refine ⟨fun n hn => postLen_bounded hbounded hn,
    fun psc tcpBuf h pb close hbuf => sendMsgToClient_fits psc h pb close hbuf,
    fun v sent hbuf hsent => ?_⟩
  exact (hsent.framed hbuf).mono fun f _ hf => ⟨hf.readByProxy, hf.readByCenter⟩

/-- A pass in which no handler sends to a center. -/
def Silent : Event → Prop
  | .iterate h => h.sends = []
  | _ => True

instance : DecidablePred Silent
  | .iterate h => inferInstanceAs (Decidable (h.sends = []))
  | .arrive _ | .poll _ _ => inferInstanceAs (Decidable True)

/-- A center sends a message of one byte, then a frame with the length zero. -/
def zeroFrameEvents : List Event :=
  [.poll (fun _ => none) (some fun _ => some [.data (burst 1 ++ [0, 0, 0, 0, 0])]), pass, pass]

/-- The message is still in the buffer when the frame behind it is taken. -/
theorem run_sizes_agree_zero :
    ∃ s, Trace.Run Step (fun _ e => SendsBy enSvrHall 0 e) idle zeroFrameEvents s ∧
      postLen s = some 1 ∧ 1 ≤ Server.maxPbLen := by
  obtain ⟨s, hrun, hlen⟩ := Trace.exists_run_of_exec step (fun _ e => Silent e) idle
    zeroFrameEvents (fun s => postLen s = some 1) (by decide +kernel)
  have hsends : Trace.Run Step (fun _ e => SendsBy enSvrHall 0 e) idle zeroFrameEvents s := by
    refine hrun.weaken fun _ e he => ?_
    cases e with
    | iterate h =>
      intro x hx
      rw [show h.sends = [] from he] at hx
      cases hx
    | _ => trivial
  exact ⟨s, hsends, hlen, ((run_sizes_agree enSvrHall 0 idle s zeroFrameEvents rfl hsends).1 1 hlen).1⟩

end MsgBasic
