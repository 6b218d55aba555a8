import Dsf4g.HallSvr
import Dsf4g.Lib.Trace
import Dsf4g.TcpSteps

/-!
# One gateway and one hall server

The two processes share the `cs` and `sc` pipes. Every event is one step of one
of them: an accept, an error, a `recv`, a frame taken from a pipe, a message
taken from the message pipe. Steps interleave in any order.
-/
namespace HallSvr

open Base TcpSvr

/-- Both processes; the pipes are those of the gateway. -/
structure System where
  tcp : Svr
  msgPipe : Fifo Posted
  players : PlayerManager
  sessions : SessionManager

def System.server (s : System) : Server := ⟨s.tcp.scPipe, s.msgPipe, s.players, s.sessions⟩

/-- What the hall server leaves, with its end of the `sc` pipe. -/
def System.withServer (s : System) (v : Server) : System :=
  ⟨{ s.tcp with scPipe := v.sc }, v.msgPipe, v.players, v.sessions⟩

inductive Event where
  | accept (r : AcceptResult)
  /-- `EPOLLERR` on a slot. -/
  | error (pos : Nat)
  | recv (pos : Nat) (r : RecvResult)
  /-- The gateway takes a frame from the `sc` pipe. -/
  | send (r : SendResult)
  /-- The hall server takes a frame from the `cs` pipe. -/
  | fetch
  /-- A message from another server is posted. -/
  | post (m : CenterMsg)
  | dispatch (m : Posted) (now : UInt32) (r : Resumed)
  /-- A session times out. -/
  | expire (id : UInt32)

def step (c : Codec) (s : System) : Event → Option System
  | .accept r => some { s with tcp := acceptConnect s.tcp r }
  | .error pos =>
    if pos < s.tcp.maxClientNum ∧ (s.tcp.pool pos).type ≠ 0 then
      some { s with tcp := socketRelease s.tcp pos true }
    else none
  | .recv pos r =>
    if pos < s.tcp.maxClientNum ∧ (s.tcp.pool pos).type = clinetSocket then
      some { s with tcp := (recvRound s.tcp pos r).svr }
    else none
  | .send r =>
    match s.tcp.scPipe.get TcpFrame.length tcpBufLen with
    | none => none
    | some (f, sc) => some { s with tcp := sendDataToClient { s.tcp with scPipe := sc } f r }
  | .fetch =>
    match s.tcp.csPipe.get TcpFrame.length tcpBufLen with
    | none => none
    | some (f, cs) =>
      some ({ s with tcp := { s.tcp with csPipe := cs } }.withServer
        (getClientMessage c s.server f))
  | .post m =>
    some { s with msgPipe := (s.msgPipe.append Posted.cost (.server m)).getD s.msgPipe }
  | .dispatch m now r =>
    match s.msgPipe.get (fun _ => msgSize) msgSize with
    | none => none
    | some (m', q) =>
      if m = m' then
        some (s.withServer (dispatchMessage c { s.server with msgPipe := q } m now r))
      else none
  | .expire id => some { s with sessions := s.sessions.releaseSession id }

def Step (c : Codec) (s : System) (e : Event) (s' : System) : Prop := step c s e = some s'

structure Conf where
  maxClientNum : Nat
  csSize : Nat
  scSize : Nat
  msgSize : Nat
  maxPlayerNum : Nat
  maxSessionNum : Nat

def System.initial (conf : Conf) (mem : Nat → UInt8) : System :=
  ⟨initNetwork conf.maxClientNum mem ⟨conf.csSize, []⟩ ⟨conf.scSize, []⟩, ⟨conf.msgSize, []⟩,
    .init conf.maxPlayerNum, .init conf.maxSessionNum⟩

/-! ## What the hall server does to players and the `sc` pipe -/

/-- A message to a client goes behind the frames in the pipe, to that client. -/
theorem sendMsgToClient_sc (v : Server) (head : TcpHead) (pb : List UInt8) (close : Bool) :
    ∃ fs, (sendMsgToClient v head pb close).sc.items = v.sc.items ++ fs ∧
      ∀ f ∈ fs, f.head.conn = head.conn ∧ f.head.msgType = tcpNormal ∧
        f.head.needClose = close := by
  have hnone : ∃ fs, v.sc.items = v.sc.items ++ fs ∧ ∀ f ∈ fs, f.head.conn = head.conn ∧
      f.head.msgType = tcpNormal ∧ f.head.needClose = close := ⟨[], by simp, by simp⟩
  unfold sendMsgToClient
  dsimp only
  split
  · exact hnone
  · cases ha : v.sc.append TcpFrame.cost _ with
    | none => exact hnone
    | some q =>
      obtain ⟨rfl, -⟩ := Fifo.append_eq_some _ ha
      refine ⟨_, rfl, fun f hf => ?_⟩
      rw [List.mem_singleton.mp hf]
      exact ⟨rfl, rfl, rfl⟩

@[simp] theorem sendMsgToClient_players (v : Server) (head : TcpHead) (pb : List UInt8)
    (close : Bool) : (sendMsgToClient v head pb close).players = v.players := by
  unfold sendMsgToClient
  dsimp only
  split <;> rfl

def indexFrame (head : TcpHead) (uid : UInt64) : TcpFrame :=
  ⟨{ head with msgType := logicIndexMsg }, Bytes.le 8 uid.toNat, head.conn⟩

/-- When it succeeds, the index frame is the last one in the pipe. -/
theorem notifyTcpLogicIndex_some {v v' : Server} {head : TcpHead} {uid : UInt64}
    (h : notifyTcpLogicIndex v head uid = some v') :
    v'.sc.items = v.sc.items ++ [indexFrame head uid] ∧ v'.players = v.players := by
  obtain ⟨q, hq, rfl⟩ := Option.map_eq_some_iff.mp h
  obtain ⟨rfl, -⟩ := Fifo.append_eq_some _ hq
  exact ⟨rfl, rfl⟩

theorem playerLogout_players (c : Codec) {v : Server} (hv : v.players.Valid) {uid : UInt64}
    {p : Player} (hp : v.players.getPlayer uid = some p) (notifyCli : Bool) :
    (playerLogout c v uid notifyCli).players = v.players.releasePlayer uid := by
  rw [playerLogout, hp, ← hv.uid_eq hp]
  cases notifyCli with
  | false => rfl
  | true => simp only [if_true, sendMsgToClient_players]

theorem playerLogout_sc (c : Codec) {v : Server} {uid : UInt64} {p : Player}
    (hp : v.players.getPlayer uid = some p) :
    (playerLogout c v uid true).sc = (sendMsgToClient v p.tcpHead c.logout true).sc := by
  rw [playerLogout, hp]
  rfl

/-- A kick goes to the connection of the player, which is removed. -/
theorem playerLogout_spec (c : Codec) {v : Server} (hv : v.players.Valid) (uid : UInt64)
    (notifyCli : Bool) :
    (playerLogout c v uid notifyCli).players.Valid ∧
    (∀ w, (playerLogout c v uid notifyCli).players.getPlayer w =
      if w = uid then none else v.players.getPlayer w) ∧
    ∃ fs, (playerLogout c v uid notifyCli).sc.items = v.sc.items ++ fs ∧
      (∀ f ∈ fs, ∃ p, v.players.getPlayer uid = some p ∧ f.head.conn = p.tcpHead.conn) ∧
      (notifyCli = false → fs = []) := by
  cases hp : v.players.getPlayer uid with
  | none =>
    have heq : playerLogout c v uid notifyCli = v := by rw [playerLogout, hp]
    rw [heq]
    refine ⟨hv, fun w => ?_, [], by simp, by simp, by simp⟩
    by_cases hw : w = uid
    · rw [if_pos hw, hw, hp]
    · rw [if_neg hw]
  | some p =>
    rw [playerLogout_players c hv hp]
    refine ⟨hv.release uid, hv.get_release uid, ?_⟩
    cases notifyCli with
    | false => exact ⟨[], by simp [playerLogout, hp], by simp, by simp⟩
    | true =>
      obtain ⟨fs, hfs, hconn⟩ := sendMsgToClient_sc v p.tcpHead c.logout true
      exact ⟨fs, playerLogout_sc c hp ▸ hfs, fun f hf => ⟨p, rfl, (hconn f hf).1⟩, by simp⟩

section

variable (players : PlayerManager) (sc : Fifo TcpFrame) (v' : Server)

/-- What a login leaves when its token is accepted and its player is not on the connection yet: the
player is moved to the connection, or only removed. -/
structure Rebound (head : TcpHead) (uid : UInt64) (fs : List TcpFrame) : Prop where
  valid : v'.players.Valid
  sc : v'.sc.items = sc.items ++ fs
  conns : ∀ f ∈ fs, f.head.conn = head.conn ∨
    ∃ p, players.getPlayer uid = some p ∧ f.head.conn = p.tcpHead.conn
  players : (∀ w, v'.players.getPlayer w = if w = uid then none else players.getPlayer w) ∨
    ((∀ w, v'.players.getPlayer w =
      if w = uid then some ⟨uid, head⟩ else players.getPlayer w) ∧
      ∃ ks, fs = ks ++ [indexFrame head uid] ∧
        ∀ f ∈ ks, ∃ p, players.getPlayer uid = some p ∧ f.head.conn = p.tcpHead.conn)

inductive LoginEffect (c : Codec) (head : TcpHead) (uid : UInt64) (token : List UInt8)
    (now : UInt32) : Prop
  | refused (htoken : checkToken c uid token now = false) (hplayers : v'.players = players)
      (fs : List TcpFrame) (hsc : v'.sc.items = sc.items ++ fs)
      (hconn : ∀ f ∈ fs, f.head.conn = head.conn)
  | again (htoken : checkToken c uid token now = true) (hplayers : v'.players = players)
      (hsc : v'.sc = sc)
  | rebound (htoken : checkToken c uid token now = true)
      (hnew : ∀ p, players.getPlayer uid = some p → p.tcpHead.conn ≠ head.conn)
      (fs : List TcpFrame) (h : Rebound players sc v' head uid fs)

end

/-- The end of a login, for a player that is removed if there is one. -/
theorem bindPlayer_rebound (c : Codec) {v : Server} (hv : v.players.Valid) (head : TcpHead)
    (uid : UInt64) :
    ∃ fs, Rebound v.players v.sc (bindPlayer (playerLogout c v uid true) head uid).server head uid
        fs ∧
      ((bindPlayer (playerLogout c v uid true) head uid).ok = false →
        ∀ w, (bindPlayer (playerLogout c v uid true) head uid).server.players.getPlayer w =
          if w = uid then none else v.players.getPlayer w) := by
  obtain ⟨hvalid, hget, ks, hks, hconn, -⟩ := playerLogout_spec c hv uid true
  generalize hv₁ : playerLogout c v uid true = v₁ at hvalid hget hks
  unfold bindPlayer
  cases hn : notifyTcpLogicIndex v₁ head uid with
  | none => exact ⟨ks, ⟨hvalid, hks, fun f hf => .inr (hconn f hf), .inl hget⟩, fun _ => hget⟩
  | some v₂ =>
    obtain ⟨hsc, hplayers⟩ := notifyTcpLogicIndex_some hn
    have hsc₂ : v₂.sc.items = v.sc.items ++ (ks ++ [indexFrame head uid]) := by
      rw [hsc, hks, List.append_assoc]
    have hconns : ∀ f ∈ ks ++ [indexFrame head uid], f.head.conn = head.conn ∨
        ∃ p, v.players.getPlayer uid = some p ∧ f.head.conn = p.tcpHead.conn := by
      intro f hf
      rcases List.mem_append.mp hf with hf | hf
      · exact .inr (hconn f hf)
      · rw [List.mem_singleton.mp hf]
        exact .inl rfl
    dsimp only
    cases hc : v₂.players.createPlayer uid with
    | none =>
      have hget₂ : ∀ w, v₂.players.getPlayer w =
          if w = uid then none else v.players.getPlayer w := fun w => by rw [hplayers, hget]
      exact ⟨_, ⟨hplayers ▸ hvalid, hsc₂, hconns, .inl hget₂⟩, fun _ => hget₂⟩
    | some q =>
      have hvalid₂ : v₂.players.Valid := hplayers ▸ hvalid
      refine ⟨_, ⟨hvalid₂.create hc head, hsc₂, hconns, .inr ⟨fun w => ?_, ks, rfl, hconn⟩⟩,
        fun h => (nomatch h)⟩
      rw [hvalid₂.get_create hc head w]
      by_cases hw : w = uid
      · rw [if_pos hw, if_pos hw]
      · rw [if_neg hw, if_neg hw, hplayers, hget, if_neg hw]

/-- A removed player comes back exactly when its index is queued, since its place is free. -/
theorem rebind_ok (c : Codec) {v : Server} (hv : v.players.Valid) {uid : UInt64} {p : Player}
    (hp : v.players.getPlayer uid = some p) (head : TcpHead) :
    (bindPlayer (playerLogout c v uid true) head uid).ok =
      (notifyTcpLogicIndex (playerLogout c v uid true) head uid).isSome := by
  obtain ⟨r, hr⟩ := Option.isSome_iff_exists.mp (hv.create_release (Option.isSome_of_eq_some hp))
  rw [bindPlayer]
  cases hn : notifyTcpLogicIndex (playerLogout c v uid true) head uid with
  | none => rfl
  | some v₂ =>
    have hcreate : v₂.players.createPlayer uid = some r := by
      rw [(notifyTcpLogicIndex_some hn).2, playerLogout_players c hv hp, hr]
    simp only [hcreate, Option.isSome_some]

/-- A login is refused, finds its player on the connection, or moves the player there. -/
theorem playerLogin_cases (c : Codec) (v : Server) (head : TcpHead) (uid : UInt64)
    (token : List UInt8) (now : UInt32) :
    (checkToken c uid token now = false ∧ playerLogin c v head uid token now = ⟨v, false⟩) ∨
    (checkToken c uid token now = true ∧ playerLogin c v head uid token now = ⟨v, true⟩) ∨
    (checkToken c uid token now = true ∧
      (∀ p, v.players.getPlayer uid = some p → p.tcpHead.conn ≠ head.conn) ∧
      playerLogin c v head uid token now = bindPlayer (playerLogout c v uid true) head uid) := by
  unfold playerLogin
  cases htoken : checkToken c uid token now with
  | false => exact .inl ⟨rfl, rfl⟩
  | true =>
    rw [if_pos rfl]
    cases hp : v.players.getPlayer uid with
    | none =>
      refine .inr (.inr ⟨rfl, fun p h => (nomatch h), ?_⟩)
      rw [playerLogout, hp]
    | some p =>
      dsimp only
      split
      · exact .inr (.inl ⟨rfl, rfl⟩)
      · next hsame =>
        refine .inr (.inr ⟨rfl, fun q h hconn => ?_, rfl⟩)
        cases h
        exact hsame ⟨congrArg Conn.socketPos hconn, congrArg Conn.createTime hconn⟩

/-- `HandlerLogin` has the effect of `PlayerLogin`; what it sends when the login failed sets no
index. -/
theorem handlerLogin_effect (c : Codec) {v : Server} (hv : v.players.Valid) (id : UInt32)
    (head : TcpHead) (uid : UInt32) (token : List UInt8) (now : UInt32) :
    LoginEffect v.players v.sc (handlerLogin c v id head uid token now).server c head uid.toUInt64
      token now := by
  unfold handlerLogin
  rcases playerLogin_cases c v head uid.toUInt64 token now with ⟨htoken, heq⟩ | ⟨htoken, heq⟩ |
    ⟨htoken, hnew, heq⟩
  · rw [heq]
    obtain ⟨fs, hfs, hconn⟩ := sendMsgToClient_sc v head c.loginFailed true
    exact .refused htoken (sendMsgToClient_players ..) fs hfs fun f hf => (hconn f hf).1
  · rw [heq]
    exact .again htoken rfl rfl
  · rw [heq]
    obtain ⟨fs, hre, hfail⟩ := bindPlayer_rebound c hv head uid.toUInt64
    generalize bindPlayer (playerLogout c v uid.toUInt64 true) head uid.toUInt64 = r at hre hfail
    dsimp only
    cases hok : r.ok with
    | true => exact .rebound htoken hnew fs hre
    | false =>
      obtain ⟨gs, hgs, hconn⟩ := sendMsgToClient_sc r.server head c.loginFailed true
      refine .rebound htoken hnew (fs ++ gs) ⟨?_, ?_, fun f hf => ?_, .inl fun w => ?_⟩
      · change (sendMsgToClient r.server head c.loginFailed true).players.Valid
        rw [sendMsgToClient_players]
        exact hre.valid
      · change (sendMsgToClient r.server head c.loginFailed true).sc.items = _
        rw [hgs, hre.sc, List.append_assoc]
      · rcases List.mem_append.mp hf with hf | hf
        · exact hre.conns f hf
        · exact .inl (hconn f hf).1
      · change (sendMsgToClient r.server head c.loginFailed true).players.getPlayer w = _
        rw [sendMsgToClient_players]
        exact hfail hok w

/-- The same for a server that differs in its sessions only. -/
theorem handlerLogin_sessions (c : Codec) {v v₁ : Server} (hv : v.players.Valid)
    (hplayers : v₁.players = v.players) (hsc : v₁.sc = v.sc) (id : UInt32) (head : TcpHead)
    (uid : UInt32) (token : List UInt8) (now : UInt32) :
    LoginEffect v.players v.sc (handlerLogin c v₁ id head uid token now).server c head uid.toUInt64
      token now := by
  rw [← hplayers] at hv ⊢
  rw [← hsc]
  exact handlerLogin_effect c hv id head uid token now

/-- What the dispatch of one message does to players and the `sc` pipe. -/
inductive DispatchEffect (c : Codec) (v v' : Server) (m : Posted) (now : UInt32) : Prop
  | quiet (hplayers : v'.players = v.players) (fs : List TcpFrame)
      (hsc : v'.sc.items = v.sc.items ++ fs)
      (hfs : ∀ f ∈ fs, f.head.msgType = tcpNormal ∧ f.head.needClose = false)
  | login (head : TcpHead) (data : List UInt8) (hm : m = .client head data) (uid : UInt32)
      (token : List UInt8) (hparse : c.parse data = some ⟨uid, .login token⟩)
      (h : LoginEffect v.players v.sc v' c head uid.toUInt64 token now)

theorem DispatchEffect.idle {c : Codec} {v v' : Server} (hplayers : v'.players = v.players)
    (hsc : v'.sc = v.sc) (m : Posted) (now : UInt32) : DispatchEffect c v v' m now :=
  .quiet hplayers [] (by rw [hsc, List.append_nil]) (by simp)

/-- Only a login message changes players. -/
theorem onClientMessage_effect (c : Codec) {v : Server} (hv : v.players.Valid) (head : TcpHead)
    (data : List UInt8) (now : UInt32) :
    DispatchEffect c v (onClientMessage c v head data now).server (.client head data) now := by
  unfold onClientMessage
  cases hparse : c.parse data with
  | none => exact .idle (by rfl) (by rfl) _ _
  | some m =>
    dsimp only
    cases hcheck : loginCheck v m with
    | false => exact .idle (by rfl) (by rfl) _ _
    | true =>
      rw [if_pos rfl]
      cases hpos : (v.sessions.createSession m.unionCase).pos with
      | none => exact .idle (by rfl) (by rfl) _ _
      | some pos =>
        obtain ⟨uid, mu⟩ := m
        cases mu with
        | other n => exact .idle (by rfl) (by rfl) _ _
        | login token =>
          refine .login head data rfl uid token hparse ?_
          exact handlerLogin_sessions c hv (by rfl) (by rfl) _ head uid token now

theorem onServerMessage_effect (c : Codec) (v : Server) (m : CenterMsg) (r : Resumed)
    (now : UInt32) : DispatchEffect c v (onServerMessage v m r) (.server m) now := by
  cases m with
  | request n => exact .idle (by rfl) (by rfl) _ _
  | response id =>
    unfold onServerMessage
    dsimp only
    split
    · exact .idle (by rfl) (by rfl) _ _
    · next s _ =>
      split
      · cases r with
        | waits => exact .idle (by rfl) (by rfl) _ _
        | released => exact .idle (by rfl) (by rfl) _ _
        | answered pb =>
          obtain ⟨fs, hfs, hf⟩ := sendMsgToClient_sc v s.tcpHead pb false
          exact .quiet (sendMsgToClient_players ..) fs hfs fun f h => (hf f h).2
      · exact .idle (by rfl) (by rfl) _ _

/-- Every message of the hall server has one of these effects. -/
theorem dispatchMessage_effect (c : Codec) {v : Server} (hv : v.players.Valid) (m : Posted)
    (now : UInt32) (r : Resumed) : DispatchEffect c v (dispatchMessage c v m now r) m now := by
  cases m with
  | client head data => exact onClientMessage_effect c hv head data now
  | server m => exact onServerMessage_effect c v m r now

/-- A disconnect notice removes the player of its uid, and no other frame touches a player. -/
theorem getClientMessage_spec (c : Codec) {v : Server} (hv : v.players.Valid) (f : TcpFrame) :
    (getClientMessage c v f).players.Valid ∧ (getClientMessage c v f).sc.items = v.sc.items ∧
    ∀ w, (getClientMessage c v f).players.getPlayer w =
      if disconUid f = some w then none else v.players.getPlayer w := by
  unfold getClientMessage
  have hnone : disconUid f = none → v.players.Valid ∧ v.sc.items = v.sc.items ∧
      ∀ w, v.players.getPlayer w = if disconUid f = some w then none else v.players.getPlayer w := by
    intro h
    refine ⟨hv, rfl, fun w => ?_⟩
    rw [h, if_neg (by simp)]
  split
  · next hlen =>
    refine hnone ?_
    rw [disconUid, if_neg]
    rintro ⟨-, h8⟩
    rw [TcpFrame.length, h8] at hlen
    simp [tcpHeadLen] at hlen
  · split
    · next hdis =>
      split
      · next hlen =>
        exact hnone (by rw [disconUid, if_neg (fun h => hlen h.2)])
      · next hlen =>
        have huid : disconUid f = some (UInt64.ofNat (Bytes.ofLe f.payload)) := by
          rw [disconUid, if_pos ⟨hdis, not_not.mp hlen⟩]
        obtain ⟨hvalid, hget, fs, hfs, -, hnil⟩ :=
          playerLogout_spec c hv (UInt64.ofNat (Bytes.ofLe f.payload)) false
        refine ⟨hvalid, ?_, fun w => ?_⟩
        · rw [onClientOffline, hfs, hnil rfl, List.append_nil]
        · rw [onClientOffline, hget, huid]
          simp only [Option.some.injEq, eq_comm]
    · next hdis =>
      have hd : disconUid f = none := by rw [disconUid, if_neg (fun h => hdis h.1)]
      split
      · exact hnone hd
      · split
        · exact hnone hd
        · exact hnone hd

/-! ## What a step does to the gateway -/

/-- The gateway and the slot when an event calls `SocketRelease` with a notice. -/
def released (s : System) : Event → Option (Svr × Nat)
  | .accept r => acceptRelease s.tcp r
  | .error pos => some (s.tcp, pos)
  | .recv pos r => (roundRelease s.tcp pos r).map fun t => (t, (s.tcp.pool pos).socketPos)
  | .send r =>
    match s.tcp.scPipe.get TcpFrame.length tcpBufLen with
    | none => none
    | some (f, sc) => sendRelease { s.tcp with scPipe := sc } f r
  | _ => none

/-- What may have happened in an event before a slot is released: no connection was moved, and
frames that set no index were taken from the `sc` pipe. -/
structure Before (t t₁ : Svr) : Prop where
  maxClientNum : t₁.maxClientNum = t.maxClientNum
  slot : ∀ i, ∃ n, t₁.pool i = { t.pool i with bufOffset := n }
  freeList : ∀ i ∈ t₁.freeList, i ∈ t.freeList
  cs : ∃ fs, t₁.csPipe.items = t.csPipe.items ++ fs ∧ ∀ f ∈ fs, f.head.msgType = tcpNormal
  sc : ∃ gs, t.scPipe.items = gs ++ t₁.scPipe.items ∧ ∀ g ∈ gs, Reaches t g → ¬ Indexes g

theorem Before.refl (t : Svr) : Before t t :=
  ⟨rfl, fun i => ⟨(t.pool i).bufOffset, rfl⟩, fun _ h => h, ⟨[], by simp, by simp⟩,
    [], by simp, by simp⟩

theorem Before.of_quiet {t t₁ : Svr} (h : Quiet t t₁) : Before t t₁ :=
  ⟨h.maxClientNum, h.slot, fun i hi => h.freeList ▸ hi, h.cs, [], by rw [h.scPipe]; rfl, by simp⟩

theorem Before.of_taken {t t₁ : Svr} {pos : Nat} (h : Taken t t₁ pos) (hpool : t₁.pool = t.pool) :
    Before t t₁ := by
  refine ⟨h.maxClientNum, fun i => ⟨(t.pool i).bufOffset, by rw [hpool]⟩, fun i hi => ?_,
    ⟨[], by rw [h.csPipe]; simp, by simp⟩, [], by rw [h.scPipe]; rfl, by simp⟩
  rw [h.freeList]
  exact List.mem_cons_of_mem _ hi

/-- A frame that sets no index can be taken in front of a release. -/
theorem Before.of_get {t : Svr} {f : TcpFrame} {sc : Fifo TcpFrame}
    (hget : t.scPipe.get TcpFrame.length tcpBufLen = some (f, sc))
    (hf : Reaches t f → ¬ Indexes f) : Before t { t with scPipe := sc } := by
  obtain ⟨rest, hitems, rfl⟩ := Fifo.get_eq_some hget
  refine ⟨rfl, fun i => ⟨(t.pool i).bufOffset, rfl⟩, fun _ h => h, ⟨[], by simp, by simp⟩,
    [f], hitems, fun g hg => ?_⟩
  rw [List.mem_singleton.mp hg]
  exact hf

inductive TcpEffect (s : System) (e : Event) (t' : Svr) : Prop
  | none (h : Before s.tcp t')
  | opened (pos : Nat) (h : Taken s.tcp t' pos)
  | released (t₁ : Svr) (pos : Nat) (hr : released s e = some (t₁, pos)) (h : Before s.tcp t₁)
      (heq : t' = socketRelease t₁ pos true)
  | closed (f : TcpFrame) (sc : Fifo TcpFrame) (hsc : s.tcp.scPipe.items = f :: sc.items)
      (hreach : Reaches s.tcp f) (hclose : Closes f)
      (heq : t' = socketRelease { s.tcp with scPipe := sc }
        (s.tcp.pool f.head.socketPos).socketPos false)
  | indexed (f : TcpFrame) (sc : Fifo TcpFrame) (hsc : s.tcp.scPipe.items = f :: sc.items)
      (hreach : Reaches s.tcp f) (hindex : Indexes f)
      (heq : t' = setSocket { s.tcp with scPipe := sc } f.head.socketPos
        { s.tcp.pool f.head.socketPos with logicIndex := Bytes.ofLe f.payload })

theorem accept_effect (s : System) (r : AcceptResult) :
    TcpEffect s (.accept r) (acceptConnect s.tcp r) := by
  rcases acceptConnect_cases s.tcp r with ⟨t₁, pos, hr, ht, hpool, heq⟩ | heq | ⟨pos, ht⟩
  · exact .released t₁ pos hr (.of_taken ht hpool) heq
  · rw [heq]
    exact .none (.refl _)
  · exact .opened pos ht

theorem recv_effect (s : System) (pos : Nat) (r : RecvResult) :
    TcpEffect s (.recv pos r) (recvRound s.tcp pos r).svr := by
  rcases recvRound_cases s.tcp pos r with ⟨t₁, hr, hq, heq⟩ | ⟨-, hq⟩
  · refine .released t₁ (s.tcp.pool pos).socketPos ?_ (.of_quiet hq) heq
    rw [HallSvr.released, hr]
    rfl
  · exact .none (.of_quiet hq)

/-- `SendDataToClient` as an effect on the gateway. -/
theorem send_effect {s : System} {f : TcpFrame} {sc : Fifo TcpFrame}
    (hget : s.tcp.scPipe.get TcpFrame.length tcpBufLen = some (f, sc)) (r : SendResult) :
    TcpEffect s (.send r) (sendDataToClient { s.tcp with scPipe := sc } f r) := by
  obtain ⟨rest, hitems, rfl⟩ := Fifo.get_eq_some hget
  rcases sendDataToClient_cases { s.tcp with scPipe := ⟨s.tcp.scPipe.size, rest⟩ } f r with
    ⟨heq, hno⟩ | ⟨hreach, hindex, heq⟩ | ⟨hreach, hno, hr, heq⟩ | ⟨hreach, hclose, heq⟩
  · rw [heq]
    exact .none (.of_get hget fun h => hno ⟨h.inRange, h.sameTime⟩)
  · exact .indexed f _ hitems ⟨hreach.inRange, hreach.sameTime⟩ hindex heq
  · refine .released _ _ ?_ (.of_get hget fun _ => hno) heq
    simp only [HallSvr.released, hget]
    exact hr
  · exact .closed f _ hitems ⟨hreach.inRange, hreach.sameTime⟩ hclose heq

/-- The accepted login of an event: its head and uid. -/
def loginOf (c : Codec) : Event → Option (TcpHead × UInt64)
  | .dispatch (.client head data) now _ =>
    match c.parse data with
    | some ⟨uid, .login token⟩ =>
      if checkToken c uid.toUInt64 token now then some (head, uid.toUInt64) else none
    | _ => none
  | _ => none

theorem loginOf_accepted {c : Codec} {head : TcpHead} {data : List UInt8} {uid : UInt32}
    {token : List UInt8} {now : UInt32} (hparse : c.parse data = some ⟨uid, .login token⟩)
    (htoken : checkToken c uid.toUInt64 token now = true) (r : Resumed) :
    loginOf c (.dispatch (.client head data) now r) = some (head, uid.toUInt64) := by
  rw [loginOf, hparse]
  simp only [htoken, if_true]

/-- Every step is one of the gateway, which touches no player, or one of the hall server, which
touches no slot. -/
inductive StepEffect (c : Codec) (s : System) (e : Event) (s' : System) : Prop
  | tcp (hplayers : s'.players = s.players) (h : TcpEffect s e s'.tcp)
  | fetched (f : TcpFrame) (cs : Fifo TcpFrame) (hcs : s.tcp.csPipe.items = f :: cs.items)
      (hplayers : s'.players = (getClientMessage c s.server f).players)
      (htcp : s'.tcp = { s.tcp with csPipe := cs, scPipe := (getClientMessage c s.server f).sc })
  | dispatched (m : Posted) (now : UInt32) (r : Resumed) (he : e = .dispatch m now r) (v' : Server)
      (h : DispatchEffect c s.server v' m now) (hplayers : s'.players = v'.players)
      (htcp : s'.tcp = { s.tcp with scPipe := v'.sc })
  | idle (hplayers : s'.players = s.players) (htcp : s'.tcp = s.tcp)

/-- Every step of both processes has its effect. -/
theorem step_effect {c : Codec} {s s' : System} {e : Event} (hv : s.players.Valid)
    (hs : Step c s e s') : StepEffect c s e s' := by
  unfold Step at hs
  cases e with
  | accept r =>
    cases hs
    exact .tcp rfl (accept_effect s r)
  | error pos =>
    simp only [step, Option.ite_none_right_eq_some] at hs
    obtain ⟨-, hs⟩ := hs
    cases hs
    exact .tcp rfl (.released s.tcp pos rfl (.refl _) rfl)
  | recv pos r =>
    simp only [step, Option.ite_none_right_eq_some] at hs
    obtain ⟨-, hs⟩ := hs
    cases hs
    exact .tcp rfl (recv_effect s pos r)
  | send r =>
    simp only [step] at hs
    split at hs
    · cases hs
    · next f sc hget =>
      cases hs
      exact .tcp rfl (send_effect hget r)
  | fetch =>
    simp only [step] at hs
    split at hs
    · cases hs
    · next f cs hget =>
      cases hs
      obtain ⟨rest, hitems, rfl⟩ := Fifo.get_eq_some hget
      exact .fetched f _ hitems rfl rfl
  | post m =>
    cases hs
    exact .idle rfl rfl
  | dispatch m now r =>
    simp only [step] at hs
    split at hs
    · cases hs
    · next m' q hget =>
      simp only [Option.ite_none_right_eq_some] at hs
      obtain ⟨-, hs⟩ := hs
      cases hs
      have heff : DispatchEffect c { s.server with msgPipe := q } _ m now :=
        dispatchMessage_effect c hv m now r
      refine .dispatched m now r rfl _ ?_ rfl rfl
      cases heff with
      | quiet hp fs hsc hfs => exact .quiet hp fs hsc hfs
      | login head data hm uid token hparse h => exact .login head data hm uid token hparse h
  | expire id =>
    cases hs
    exact .idle rfl rfl

end HallSvr
