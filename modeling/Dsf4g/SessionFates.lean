import Dsf4g.HandlerLoop
import Dsf4g.Managers
import Dsf4g.OnlineFlag

/-!
# What becomes of a session

`src/hallsvr/logicsvr.cpp` creates a session for a message before
`src/hallsvr/msg_handler_mng.cpp` looks for its handler. A handler releases the session or leaves it
waiting for an answer; without one nothing happens to it.
-/
namespace SessionFates

open Base DbProxy MsgHandler
open Sessions (DbInfo DbKey PBDBMsg PBDBProcInfo Request)
open HallSvr (PBCSMsg PlayerManager kCsRequestLogin)
open OnlineFlag (kInterLogout)
open TcpSvr (TcpFrame)

/-! ## Messages -/

/-- The union of `PBSSMsg`, with what a session reads of it. -/
inductive SSMsgUnion where
  | notSet
  | ssRequestGet
  | ssResponseGet (r : Response)
  | ssRequestSave
  | ssResponseSave (r : Response)
  | ssTest
  deriving DecidableEq

def SSMsgUnion.unionCase : SSMsgUnion → UInt32
  | .notSet => 0
  | .ssRequestGet => 10000
  | .ssResponseGet _ => 10001
  | .ssRequestSave => 10002
  | .ssResponseSave _ => 10003
  | .ssTest => 10004

def SSMsgUnion.answer : SSMsgUnion → SSUnion
  | .ssResponseGet r => .get r
  | .ssResponseSave r => .save r
  | _ => .other

inductive SSMsgType where
  | request | response
  deriving DecidableEq, Repr

structure PBSSMsg where
  type : SSMsgType
  msgUnion : SSMsgUnion
  deriving DecidableEq

structure PBInterMsg where
  interLogout : Option UInt64
  deriving DecidableEq, Repr, Inhabited

def PBInterMsg.unionCase (m : PBInterMsg) : UInt32 :=
  match m.interLogout with
  | some _ => kInterLogout
  | none => 0

def requestToken (m : PBCSMsg) : List UInt8 :=
  match m.msgUnion with
  | .login token => token
  | .other _ => []

instance : Inhabited PBCSMsg := ⟨⟨0, .other ⟨0, by decide⟩⟩⟩

instance : Inhabited CenterHead := ⟨⟨0, 0, 0, 0, 0, .other 0, 0, 0⟩⟩

/-- The generated messages and the cipher, and the id of this server. -/
structure Codec extends HallSvr.Codec where
  db : Sessions.Codec DbInfo
  /-- `ParseMsgFromServer`. -/
  parseServer : List UInt8 → Option PBSSMsg
  /-- `ParseMsgFromInternal`. -/
  parseInternal : List UInt8 → Option PBInterMsg
  /-- A serialised `cs_response_login` with its success code and the money. -/
  loginOk : UInt64 → List UInt8
  svrId : UInt32

/-! ### The size of a request -/

def varintSize (n : Nat) : Nat := (Wire.put 10 n).length

def fieldSize (tag n : Nat) : Nat := tag + (varintSize n + n)

def dataSize (d : PBDBData) : Nat :=
  (1 + varintSize d.key.toNat) + (d.blob.elim 0 fun b => fieldSize 1 b.length) +
    d.ver.elim 0 fun v => 1 + varintSize v.toNat

/-- The `PBSSMsg` around a request: its type, its uid, and the request with a uid and data. The number
of its field has a tag of three bytes. -/
def requestSize (uid : UInt64) (datas : List PBDBData) : Nat :=
  2 + (1 + varintSize uid.toNat) +
    fieldSize 3 ((1 + varintSize uid.toNat) + (datas.map fun d => fieldSize 1 (dataSize d)).sum)

def byteSize : Request → Nat
  | .get r => requestSize r.uid r.datas
  | .save r => requestSize r.uid r.datas

/-! ## Sessions -/

/-- What a session holds besides the fields that the driver uses. It has one of the two heads. -/
structure Rest where
  msgId : UInt32
  uid : UInt32
  tcpHead : TcpHead
  centerHead : CenterHead
  csMsg : PBCSMsg
  /-- `cs_response`, as it is serialised. -/
  csResponse : List UInt8
  interMsg : PBInterMsg
  deriving Inhabited

abbrev Session := MsgHandler.Session DbInfo Rest

instance : Inhabited Session := ⟨⟨0, 0, .onMsg, .other, [], 0, 0, default⟩⟩

/-- What the handlers reach besides their session: the players, and the pipe to the gateway. -/
structure Front where
  players : PlayerManager
  sc : Fifo TcpFrame

/-- The server, as far as its client side is concerned. -/
def Front.server (w : Front) : HallSvr.Server := ⟨w.sc, ⟨0, []⟩, w.players, .init 0⟩

def front (v : HallSvr.Server) : Front := ⟨v.players, v.sc⟩

structure Hall extends Front where
  sessions : HandOver.IdTable Session

def sendMsgToClient (w : Front) (s : Session) (close : Bool) : Front :=
  front (HallSvr.sendMsgToClient w.server s.rest.tcpHead s.rest.csResponse close)

/-! ## Handlers -/

/-- The default `OnSvrResponse`, and the default functions for what has failed. -/
def ends (r : Sessions.HandlerResult) (s : Session) (w : Front) : Reaction DbInfo Rest Front :=
  ⟨r, s, w⟩

def addDBGetKeys (s : Session) (uid : UInt64) : Session :=
  { s with
    dbProcs := Sessions.addDBGetKey (Sessions.addDBGetKey s.dbProcs uid (DbKey.num .baseInfo)) uid
      (DbKey.num .moneyInfo) }

/-- `GetDBMsg`, which makes a player where there is none, and a change of what it returns. -/
def editDBMsg (s : Session) (g : PBDBMsg DbInfo → PBDBMsg DbInfo) : Session :=
  { s with
    dbProcs := s.dbProcs.modify s.curProcIndex.toNat fun p =>
      { p with player := some (g (p.player.getD ⟨0, fun _ => none, fun _ => false⟩)) } }

def isInit (p : PBDBMsg DbInfo) : Bool :=
  match (p.field .baseInfo).map Sessions.Field.info with
  | some (.base i) => i.isInit.getD false
  | _ => false

def money (p : PBDBMsg DbInfo) : UInt64 :=
  match (p.field .moneyInfo).map Sessions.Field.info with
  | some (.money i) => i.money.getD 0
  | _ => 0

section Handlers

variable (c : Codec)

def loginOnMessage (now : UInt32) (s : Session) (w : Front) : Reaction DbInfo Rest Front :=
  let uid := s.rest.csMsg.uid.toUInt64
  let r := HallSvr.playerLogin c.toCodec w.server s.rest.tcpHead uid (requestToken s.rest.csMsg) now
  if r.ok then ⟨.get, addDBGetKeys s uid, front r.server⟩
  else
    let s : Session := { s with rest := { s.rest with csResponse := c.loginFailed } }
    ⟨.done, s, sendMsgToClient (front r.server) s true⟩

def loginOnProcessData (s : Session) (w : Front) : Reaction DbInfo Rest Front :=
  let s := editDBMsg s fun p => Sessions.editPlayer c.db (Sessions.loginEdit c.svrId (isInit p)) p
  let player := (s.dbProcs[s.curProcIndex.toNat]?).bind PBDBProcInfo.player
  ⟨.save, { s with rest := { s.rest with csResponse := c.loginOk ((player.map money).getD 0) } }, w⟩

def HandlerLogin (now : UInt32) : Callbacks DbInfo Rest Front where
  onMessage := loginOnMessage c now
  onSvrResponse := ends .done
  onProcessData := loginOnProcessData c
  onSaveSuccess s w := ⟨.done, s, sendMsgToClient w s false⟩
  onGetFailed := ends .failed
  onSaveFailed := ends .failed

/-- `HandlerLogout::OnMessage`. It reads the uid from the client message. -/
def logoutOnMessage (s : Session) (w : Front) : Reaction DbInfo Rest Front :=
  ⟨.get, addDBGetKeys s s.rest.csMsg.uid.toUInt64, w⟩

def logoutEdit : DbKey → Option (DbInfo → DbInfo)
  | .baseInfo => some (Sessions.onBase fun i => { i with isOnline := none, hallsvrId := none })
  | .moneyInfo => none

def logoutOnProcessData (s : Session) (w : Front) : Reaction DbInfo Rest Front :=
  ⟨.save, editDBMsg s (Sessions.editPlayer c.db logoutEdit), w⟩

def HandlerLogout : Callbacks DbInfo Rest Front where
  onMessage := logoutOnMessage
  onSvrResponse := ends .done
  onProcessData := logoutOnProcessData c
  onSaveSuccess := ends .done
  onGetFailed := ends .failed
  onSaveFailed := ends .failed

def handlers (now : UInt32) (msgId : UInt32) : Option (Callbacks DbInfo Rest Front) :=
  if msgId = kCsRequestLogin then some (HandlerLogin c now)
  else if msgId = kInterLogout then some (HandlerLogout c)
  else none

/-- What the handlers use of the server. Nothing reads back what `SendMessageToCenter` has sent. -/
def env (now : UInt32) : Env DbInfo Front := ⟨c.db, byteSize, now, fun _ _ w => w⟩

end Handlers

/-! ## The server -/

/-- What a message leaves: the session that was created for it, and the requests that were handed to
`SendMessageToCenter`, each with the `session_id` in its head. -/
structure Outcome where
  hall : Hall
  created : Option UInt32
  handed : List (UInt32 × Request)

def Outcome.idle (h : Hall) : Outcome := ⟨h, none, []⟩

def fillSession (msgId now : UInt32) (id : UInt32) (s : Session) : Session :=
  { s with sessionId := id, updateTime := now, rest := { s.rest with msgId := msgId } }

def releaseSession (m : HandOver.IdTable Session) (id : UInt32) : HandOver.IdTable Session :=
  { m with toTable := Managers.release m.toTable id }

def Hall.store (h : Hall) (pos : Nat) (g : Session → Session) : Hall :=
  { h with sessions := { h.sessions with objs := h.sessions.objs.modify pos g } }

def Hall.leave (h : Hall) (pos : Nat) (k : Call DbInfo Rest Front) : Hall :=
  { toFront := k.world
    sessions := k.released.foldl releaseSession (h.store pos fun _ => k.session).sessions }

section Messages

variable (c : Codec) (now : UInt32)

inductive Process (h : Hall) (pos : Nat) (created : Option UInt32) : Outcome → Prop
  | unhandled : handlers c now (h.sessions.objs.pool pos).rest.msgId = none →
      Process h pos created ⟨h, created, []⟩
  | handled {cb : Callbacks DbInfo Rest Front} {n : Nat} {d : Driver DbInfo Rest Front} :
      handlers c now (h.sessions.objs.pool pos).rest.msgId = some cb →
      Processes (env c now) cb (h.sessions.objs.pool pos) h.toFront n d →
      Process h pos created ⟨h.leave pos d.call, created, d.call.handed⟩

/-- `CreateSession`, what the caller stores in the session, and `Process`. -/
def Begins (h : Hall) (msgId : UInt32) (g : Session → Session) (o : Outcome) : Prop :=
  match Managers.create h.sessions (fillSession msgId now) with
  | (m, none) => o = Outcome.idle { h with sessions := m }
  | (m, some (id, pos)) => Process c now (Hall.store { h with sessions := m } pos g) pos (some id) o

def setClient (head : TcpHead) (m : PBCSMsg) (s : Session) : Session :=
  { s with
    processState := .onMsg
    rest := { s.rest with tcpHead := head, csMsg := m, uid := m.uid } }

def setServer (head : CenterHead) (m : PBSSMsg) (s : Session) : Session :=
  { s with
    processState := .onMsg
    ssMsg := m.msgUnion.answer
    rest := { s.rest with centerHead := head } }

def setInternal (m : PBInterMsg) (s : Session) : Session :=
  { s with processState := .onMsg, rest := { s.rest with interMsg := m } }

def OnClientMessage (h : Hall) (head : TcpHead) (data : List UInt8) (o : Outcome) : Prop :=
  match c.parse data with
  | none => o = Outcome.idle h
  | some m =>
    if HallSvr.loginCheck h.server m then Begins c now h m.unionCase (setClient head m) o
    else o = Outcome.idle h

def Hall.getSession (h : Hall) (id : UInt32) : Option Nat :=
  (h.sessions.index id).bind fun pos => if pos ≥ h.sessions.objs.size then none else some pos

def OnServerMessage (h : Hall) (head : CenterHead) (data : List UInt8) (o : Outcome) : Prop :=
  match c.parseServer data with
  | none => o = Outcome.idle h
  | some m =>
    match m.type with
    | .request => Begins c now h m.msgUnion.unionCase (setServer head m) o
    | .response =>
      match h.getSession (UInt32.ofNat head.sessionId) with
      | none => o = Outcome.idle h
      | some pos =>
        Process c now (h.store pos fun s => { s with ssMsg := m.msgUnion.answer }) pos none o

def OnInteralMessage (h : Hall) (data : List UInt8) (o : Outcome) : Prop :=
  match c.parseInternal data with
  | none => o = Outcome.idle h
  | some m => Begins c now h m.unionCase (setInternal m) o

inductive Message where
  | client (head : TcpHead) (data : List UInt8)
  | server (head : CenterHead) (data : List UInt8)
  | internal (data : List UInt8)

def Handles (h : Hall) (m : Message) (o : Outcome) : Prop :=
  match m with
  | .client head data => OnClientMessage c now h head data o
  | .server head data => OnServerMessage c now h head data o
  | .internal data => OnInteralMessage c now h data o

end Messages

/-! ## Runs -/

def checkTimeOut (o : HandOver.Order) (m : HandOver.IdTable Session) (now : UInt32) :
    HandOver.IdTable Session :=
  (((o.list m.objs.used).filter fun pos =>
      (m.objs.pool pos).updateTime + SessionIds.sessionTimeout ≤ now).map fun pos =>
    (m.objs.pool pos).sessionId).foldl releaseSession m

inductive Event where
  | message (m : Message) (now : UInt32)
  /-- `OnClientOffline`. -/
  | offline (logicIndex : UInt64)
  | checkTimeOut (o : HandOver.Order) (now : UInt32)
  /-- The gateway takes a frame out of the pipe. -/
  | fetch

def Step (c : Codec) (h : Hall) (e : Event) (h' : Hall) : Prop :=
  match e with
  | .message m now => ∃ o, Handles c now h m o ∧ o.hall = h'
  | .offline i => h' = { h with toFront := front (HallSvr.onClientOffline c.toCodec h.server i) }
  | .checkTimeOut o now => h' = { h with sessions := checkTimeOut o h.sessions now }
  | .fetch => h' = { h with sc := { h.sc with items := h.sc.items.tail } }

def free (_ : Hall) (_ : Event) : Prop := True

/-- After `InitLogic`: the sessions in the pool, whatever it has restored, are found under their ids. -/
def Started (h : Hall) : Prop :=
  h.sessions.objs.Valid ∧ ∃ o,
    h.sessions.index = HandOver.rebuild MsgHandler.Session.sessionId o h.sessions.objs ∧
    h.sessions.curMaxId = HandOver.rebuildMax MsgHandler.Session.sessionId o h.sessions.objs

/-! ## Fates -/

/-- The session under an id is released, or waits for the answer to a request that it has handed over
under its id. -/
def Accounted (o : Outcome) : Prop :=
  ∀ id ∈ o.created, o.hall.sessions.get id = none ∨
    ∃ s, o.hall.sessions.get id = some s ∧
      (s.processState = .waitSvrRsp ∨ s.processState = .waitGetRsp ∨ s.processState = .waitSaveRsp) ∧
      ∃ r, (id, r) ∈ o.handed

/-- The union case of a message that asks for a session. -/
def sessionCase (c : Codec) (h : Hall) : Message → Option UInt32
  | .client _ data =>
    ((c.parse data).filter fun m => HallSvr.loginCheck h.server m).map PBCSMsg.unionCase
  | .server _ data =>
    ((c.parseServer data).filter fun m => m.type = .request).map fun m => m.msgUnion.unionCase
  | .internal data => (c.parseInternal data).map PBInterMsg.unionCase

def Room (m : HandOver.IdTable Session) : Prop := m.objs.freeList ≠ [] ∧ Managers.Searchable m

/-- A message for which a session is created has a handler. -/
def Expected (c : Codec) (h : Hall) (m : Message) : Prop :=
  ∀ msgId, sessionCase c h m = some msgId → Room h.sessions →
    msgId = kCsRequestLogin ∨ msgId = kInterLogout

/-! ### A new session and its handler -/

theorem handlers_eq_none_iff (c : Codec) (now msgId : UInt32) :
    handlers c now msgId = none ↔ ¬ (msgId = kCsRequestLogin ∨ msgId = kInterLogout) := by
  unfold handlers
  split
  · next h => exact iff_of_false (fun hn => nomatch hn) fun hn => hn (.inl h)
  · next h =>
    split
    · next h' => exact iff_of_false (fun hn => nomatch hn) fun hn => hn (.inr h')
    · next h' => exact iff_of_true rfl fun hn => hn.elim h h'

/-- `HandlerLogin` and `HandlerLogout`. -/
theorem handlers_cases {c : Codec} {now msgId : UInt32} {cb : Callbacks DbInfo Rest Front}
    (h : handlers c now msgId = some cb) : cb = HandlerLogin c now ∨ cb = HandlerLogout c := by
  unfold handlers at h
  split at h
  · exact .inl (Option.some.inj h).symm
  · split at h
    · exact .inr (Option.some.inj h).symm
    · cases h

theorem loginOnMessage_ne_next (c : Codec) (now : UInt32) (s : Session) (w : Front) :
    (loginOnMessage c now s w).result ≠ .next := by
  simp only [loginOnMessage]
  split <;> exact nofun

theorem ends_ne_next {r : Sessions.HandlerResult} (h : r ≠ .next) (s : Session) (w : Front) :
    (ends r s w).result ≠ .next := h

theorem handlers_prompt {c : Codec} {now msgId : UInt32} {cb : Callbacks DbInfo Rest Front}
    (h : handlers c now msgId = some cb) : cb.Prompt := by
  have hdone : Sessions.HandlerResult.done ≠ .next := by decide
  have hsave : Sessions.HandlerResult.save ≠ .next := by decide
  have hget : Sessions.HandlerResult.get ≠ .next := by decide
  have hfailed : Sessions.HandlerResult.failed ≠ .next := by decide
  obtain rfl | rfl := handlers_cases h
  · exact ⟨loginOnMessage_ne_next c now, ends_ne_next hdone, fun _ _ => hsave, fun _ _ => hdone,
      ends_ne_next hfailed, ends_ne_next hfailed⟩
  · exact ⟨fun _ _ => hget, ends_ne_next hdone, fun _ _ => hsave, ends_ne_next hdone,
      ends_ne_next hfailed, ends_ne_next hfailed⟩

/-- The request of a session that has asked for both parts of one player. -/
def bothParts (uid : UInt64) : PBDBProcInfo DbInfo := ⟨uid, [1, 2], none⟩

theorem addDBGetKeys_new {s : Session} (hs : s.dbProcs = []) (uid : UInt64) :
    (addDBGetKeys s uid).dbProcs = [bothParts uid] := by
  simp only [addDBGetKeys, hs, Sessions.addDBGetKey, if_true]
  rw [if_neg (by decide)]
  rfl

/-- A new session is done, or asks for both parts of a player. -/
theorem onMessage_cases {c : Codec} {now msgId : UInt32} {cb : Callbacks DbInfo Rest Front}
    (h : handlers c now msgId = some cb) {s : Session} (hs : s.dbProcs = []) (w : Front) :
    (cb.onMessage s w).session.sessionId = s.sessionId ∧
      ((cb.onMessage s w).result = .done ∨
        (cb.onMessage s w).result = .get ∧
          ∃ uid, (cb.onMessage s w).session.dbProcs = [bothParts uid]) := by
  obtain rfl | rfl := handlers_cases h
  · simp only [HandlerLogin, loginOnMessage]
    split
    · exact ⟨rfl, .inr ⟨rfl, _, addDBGetKeys_new hs _⟩⟩
    · exact ⟨rfl, .inl rfl⟩
  · exact ⟨rfl, .inr ⟨rfl, _, addDBGetKeys_new hs _⟩⟩

theorem varintSize_le (n : Nat) : varintSize n ≤ 10 := Wire.put_length 10 n

/-- The request is never too long. -/
theorem byteSize_bothParts (uid : UInt64) :
    byteSize (.get (Sessions.getRequest (bothParts uid))) ≤ Server.maxPbLen := by
  have huid := varintSize_le uid.toNat
  have hone := varintSize_le (1 : UInt32).toNat
  have htwo := varintSize_le (2 : UInt32).toNat
  have hlen := fun n => varintSize_le (1 + n)
  have hsum := fun n => varintSize_le (1 + varintSize uid.toNat + n)
  have hmax : Server.maxPbLen = 4092 := rfl
  simp only [byteSize, Sessions.getRequest, bothParts, requestSize, fieldSize, dataSize,
    List.map_cons, List.map_nil, List.sum_cons, List.sum_nil, Option.elim_none, Nat.add_zero]
  have h1 := hlen (varintSize (1 : UInt32).toNat)
  have h2 := hlen (varintSize (2 : UInt32).toNat)
  have h3 := hsum (1 + (varintSize (1 + varintSize (1 : UInt32).toNat) +
    (1 + varintSize (1 : UInt32).toNat)) + (1 + (varintSize (1 + varintSize (2 : UInt32).toNat) +
    (1 + varintSize (2 : UInt32).toNat))))
  omega

/-- `GetAllData` for one player hands its request over and leaves the session waiting. -/
theorem getAllData_bothParts (c : Codec) (now : UInt32) {k : Call DbInfo Rest Front} {uid : UInt64}
    (hk : k.session.dbProcs = [bothParts uid]) :
    (getAllData (env c now) k).result = .hup ∧
      (getAllData (env c now) k).call.session.processState = .waitGetRsp ∧
      (getAllData (env c now) k).call.session.sessionId = k.session.sessionId ∧
      (getAllData (env c now) k).call.released = k.released ∧
      (k.session.sessionId, Request.get (Sessions.getRequest (bothParts uid))) ∈
        (getAllData (env c now) k).call.handed := by
  have hmissing : k.session.dbProcs.filter (fun p => p.player.isNone) = [bothParts uid] := by
    rw [hk]
    rfl
  have hfits : ¬ (env c now).byteSize (.get (Sessions.getRequest (bothParts uid))) >
      Server.maxPbLen := Nat.not_lt.mpr (byteSize_bothParts uid)
  simp only [getAllData, hmissing, sendGets, List.foldl_cons, List.foldl_nil, sendMsgToDBProxy,
    if_neg hfits]
  exact ⟨rfl, rfl, rfl, rfl, List.mem_append_right _ (List.mem_singleton_self _)⟩

def Finished (s : Session) (k : Call DbInfo Rest Front) : Prop :=
  k.released = [s.sessionId] ∨
    k.released = [] ∧ k.session.processState = .waitGetRsp ∧ ∃ r, (s.sessionId, r) ∈ k.handed

/-- `Process` on a new session ends at once, or with its request. -/
theorem process_finished {c : Codec} {now msgId : UInt32} {cb : Callbacks DbInfo Rest Front}
    (h : handlers c now msgId = some cb) {s : Session} (hstate : s.processState = .onMsg)
    (hprocs : s.dbProcs = []) {w : Front} {n : Nat} {d : Driver DbInfo Rest Front}
    (hd : Processes (env c now) cb s w n d) : Finished s d.call := by
  have hstart : dispatch (env c now) cb (Call.start s w) = (Call.start s w).react cb.onMessage := by
    simp only [dispatch, Call.start, hstate]
  unfold Processes at hd
  rw [hstart] at hd
  obtain ⟨hid, hdone | ⟨hget, uid, hasks⟩⟩ := onMessage_cases h hprocs w
  · have hpass : pass (env c now) cb ((Call.start s w).react cb.onMessage) =
        .inr ⟨.done, MsgHandler.releaseSession ((Call.start s w).react cb.onMessage).call⟩ := by
      have hres : ((Call.start s w).react cb.onMessage).result = .done := hdone
      simp only [MsgHandler.pass, hres]
    rw [← ((Loop.Ends.leave hpass).unique hd).2, Finished, ← hid]
    exact .inl rfl
  · obtain ⟨hhup, hwaits, hkeeps, hreleased, hsent⟩ := getAllData_bothParts c now
      (k := ((Call.start s w).react cb.onMessage).call) hasks
    have hfirst : pass (env c now) cb ((Call.start s w).react cb.onMessage) =
        .inl (getAllData (env c now) ((Call.start s w).react cb.onMessage).call) := by
      have hres : ((Call.start s w).react cb.onMessage).result = .get := hget
      simp only [MsgHandler.pass, hres]
    have hsecond : pass (env c now) cb
        (getAllData (env c now) ((Call.start s w).react cb.onMessage).call) =
          .inr (getAllData (env c now) ((Call.start s w).react cb.onMessage).call) := by
      simp only [MsgHandler.pass, hhup]
    rw [← ((Loop.Ends.again hfirst (.leave hsecond)).unique hd).2, Finished, ← hid]
    exact .inr ⟨hreleased, hwaits, _, hsent⟩

/-! ### The pool -/

/-- Every id leads to a used position of its own. -/
def Tidy (m : HandOver.IdTable Session) : Prop :=
  ∃ size born v, Managers.Unaliased size m.toTable born v

theorem Tidy.lt {m : HandOver.IdTable Session} (h : Tidy m) {id : UInt32} {pos : Nat}
    (hi : m.index id = some pos) : pos < m.objs.size := by
  obtain ⟨size, born, v, hu⟩ := h
  exact (hu.valid.inRange pos).mp (.inr (hu.used id pos hi))

theorem Tidy.store {h : Hall} (ht : Tidy h.sessions) {id : UInt32} {pos : Nat}
    (hi : h.sessions.index id = some pos) (g : Session → Session) : Tidy (h.store pos g).sessions := by
  have hlt := ht.lt hi
  obtain ⟨size, born, v, hu⟩ := ht
  have hedit := hu.edit id g
  simp only [Managers.edit, hi] at hedit
  rw [if_neg (Nat.not_le.mpr hlt)] at hedit
  exact ⟨size, born, _, hedit⟩

theorem Tidy.release {m : HandOver.IdTable Session} (ht : Tidy m) (id : UInt32) :
    Tidy (releaseSession m id) := by
  obtain ⟨size, born, v, hu⟩ := ht
  exact ⟨size, born, _, hu.release id⟩

theorem Tidy.releaseAll {m : HandOver.IdTable Session} (ht : Tidy m) (ids : List UInt32) :
    Tidy (ids.foldl releaseSession m) := by
  induction ids generalizing m with
  | nil => exact ht
  | cons id ids ih => exact ih (ht.release id)

theorem Tidy.create {m : HandOver.IdTable Session} (ht : Tidy m) (fill : UInt32 → Session → Session) :
    Tidy (Managers.create m fill).1 := by
  obtain ⟨size, born, v, hu⟩ := ht
  obtain ⟨-, hnone⟩ | ⟨id, pos, -, -, -, hsome⟩ := hu.create fill
  · exact ⟨size, born, v, hnone⟩
  · exact ⟨size, _, _, hsome⟩

theorem get_released (m : HandOver.IdTable Session) (id : UInt32) :
    (releaseSession m id).get id = none := by
  simp only [releaseSession, HandOver.Table.get, Managers.release]
  cases hi : m.index id with
  | none => simp only [hi, Option.bind_none]
  | some pos => simp only [Function.update_self, Option.bind_none]

theorem Tidy.get {m : HandOver.IdTable Session} (ht : Tidy m) {id : UInt32} {pos : Nat}
    (hi : m.index id = some pos) : m.get id = some (m.objs.pool pos) := by
  have hlt := ht.lt hi
  simp only [HandOver.Table.get, hi, Option.bind_some, ObjectMng.get, if_neg (Nat.not_le.mpr hlt)]

theorem get_stored {h : Hall} (ht : Tidy h.sessions) {id : UInt32} {pos : Nat}
    (hi : h.sessions.index id = some pos) (g : Session → Session) :
    (h.store pos g).sessions.get id = some (g (h.sessions.objs.pool pos)) := by
  rw [(ht.store hi g).get hi]
  exact congrArg some (Function.update_self ..)

/-- A session that is created stands under its id, with nothing but what was stored. -/
theorem create_room {m : HandOver.IdTable Session} (fill : UInt32 → Session → Session) :
    (Room m → ∃ m' id pos, Managers.create m fill = (m', some (id, pos)) ∧ m'.index id = some pos ∧
      m'.objs.pool pos = fill id default) ∧
    (¬ Room m → ∃ m', Managers.create m fill = (m', none)) := by
  obtain ⟨hnil, heq⟩ | ⟨pos, objs, cur, hm, hno, heq⟩ | ⟨pos, objs, id, cur, hm, hs, hid, heq⟩ :=
    Managers.create_cases m fill
  · exact ⟨fun hr => absurd hnil hr.1, fun _ => ⟨_, heq⟩⟩
  · exact ⟨fun hr => absurd hr.2 hno, fun _ => ⟨_, heq⟩⟩
  · obtain ⟨hcons, hobjs⟩ := ObjectMng.malloc_eq_some hm
    refine ⟨fun _ => ⟨_, id, pos, heq, Function.update_self .., ?_⟩, fun hr => absurd ⟨?_, hs⟩ hr⟩
    · rw [hobjs]
      simp only [ObjectMng.modify, Function.update_self]
    · rw [hcons]
      exact List.cons_ne_nil _ _

/-! ### One message -/

section Messages

variable {c : Codec} {now : UInt32} {h : Hall}

/-- What a caller of `CreateSession` stores in the new session. -/
structure Fills (g : Session → Session) : Prop where
  sessionId : ∀ s, (g s).sessionId = s.sessionId
  msgId : ∀ s, (g s).rest.msgId = s.rest.msgId
  dbProcs : ∀ s, (g s).dbProcs = s.dbProcs
  processState : ∀ s, (g s).processState = .onMsg

/-- Every message that asks for a session fills it in and processes it. -/
theorem handles_case {m : Message} {msgId : UInt32} (hm : sessionCase c h m = some msgId) :
    ∃ g, Fills g ∧ ∀ o, Handles c now h m o ↔ Begins c now h msgId g o := by
  cases m with
  | client head data =>
    obtain ⟨cs, hcs, rfl⟩ := Option.map_eq_some_iff.mp hm
    obtain ⟨hparse, hlogin⟩ := Option.filter_eq_some_iff.mp hcs
    refine ⟨setClient head cs, ⟨fun _ => rfl, fun _ => rfl, fun _ => rfl, fun _ => rfl⟩, fun o => ?_⟩
    simp only [Handles, OnClientMessage, hparse, hlogin, if_true]
  | server head data =>
    obtain ⟨ss, hss, rfl⟩ := Option.map_eq_some_iff.mp hm
    obtain ⟨hparse, htype⟩ := Option.filter_eq_some_iff.mp hss
    refine ⟨setServer head ss, ⟨fun _ => rfl, fun _ => rfl, fun _ => rfl, fun _ => rfl⟩, fun o => ?_⟩
    simp only [Handles, OnServerMessage, hparse, of_decide_eq_true htype]
  | internal data =>
    obtain ⟨inter, hparse, rfl⟩ := Option.map_eq_some_iff.mp hm
    refine ⟨setInternal inter, ⟨fun _ => rfl, fun _ => rfl, fun _ => rfl, fun _ => rfl⟩, fun o => ?_⟩
    simp only [Handles, OnInteralMessage, hparse]

/-- Without a new session a message is dropped, or goes on with the session it answers. -/
theorem handles_no_case {m : Message} (hm : sessionCase c h m = none) :
    (∀ o, Handles c now h m o ↔ o = Outcome.idle h) ∨
      ∃ id pos u, h.sessions.index id = some pos ∧ ∀ o, Handles c now h m o ↔
        Process c now (h.store pos fun s => { s with ssMsg := u }) pos none o := by
  cases m with
  | client head data =>
    have hnone := Option.map_eq_none_iff.mp hm
    refine .inl fun o => ?_
    cases hparse : c.parse data with
    | none => simp only [Handles, OnClientMessage, hparse]
    | some cs =>
      rw [hparse, Option.filter_eq_none_iff] at hnone
      simp only [Handles, OnClientMessage, hparse, if_neg (hnone cs rfl)]
  | server head data =>
    have hnone := Option.map_eq_none_iff.mp hm
    cases hparse : c.parseServer data with
    | none =>
      refine .inl fun o => ?_
      simp only [Handles, OnServerMessage, hparse]
    | some ss =>
      rw [hparse, Option.filter_eq_none_iff] at hnone
      have htype : ss.type = .response := by
        cases ht : ss.type with
        | request => exact absurd (decide_eq_true ht) (hnone ss rfl)
        | response => rfl
      cases hget : h.getSession (UInt32.ofNat head.sessionId) with
      | none =>
        refine .inl fun o => ?_
        simp only [Handles, OnServerMessage, hparse, htype, hget]
      | some pos =>
        obtain ⟨pos', hi, hpos⟩ := Option.bind_eq_some_iff.mp hget
        obtain ⟨-, he⟩ := Option.ite_none_left_eq_some.mp hpos
        cases he
        refine .inr ⟨_, _, ss.msgUnion.answer, hi, fun o => ?_⟩
        simp only [Handles, OnServerMessage, hparse, htype, hget]
  | internal data =>
    have hnone := Option.map_eq_none_iff.mp hm
    refine .inl fun o => ?_
    simp only [Handles, OnInteralMessage, hnone]

/-- `Process` always returns. -/
theorem process_total (h : Hall) (pos : Nat) (created : Option UInt32) :
    ∃ o, Process c now h pos created o := by
  cases hcb : handlers c now (h.sessions.objs.pool pos).rest.msgId with
  | none => exact ⟨_, .unhandled hcb⟩
  | some cb =>
    obtain ⟨n, d, hd⟩ := process_returns (handlers_prompt hcb) (h.sessions.objs.pool pos) h.toFront
    exact ⟨_, .handled hcb hd⟩

/-- A handler leaves the pool tidy. -/
theorem process_tidy (ht : Tidy h.sessions) {id : UInt32} {pos : Nat}
    (hi : h.sessions.index id = some pos) {created : Option UInt32} {o : Outcome}
    (ho : Process c now h pos created o) : Tidy o.hall.sessions := by
  cases ho with
  | unhandled _ => exact ht
  | @handled _ _ d _ _ => exact (ht.store hi fun _ => d.call.session).releaseAll d.call.released

/-- A created session is accounted for exactly when its message has a handler. -/
theorem process_accounted_iff (ht : Tidy h.sessions) {id : UInt32} {pos : Nat}
    (hi : h.sessions.index id = some pos) (hid : (h.sessions.objs.pool pos).sessionId = id)
    (hstate : (h.sessions.objs.pool pos).processState = .onMsg)
    (hprocs : (h.sessions.objs.pool pos).dbProcs = []) {o : Outcome}
    (ho : Process c now h pos (some id) o) :
    Accounted o ↔ (h.sessions.objs.pool pos).rest.msgId = kCsRequestLogin ∨
      (h.sessions.objs.pool pos).rest.msgId = kInterLogout := by
  cases ho with
  | unhandled hnone =>
    refine iff_of_false (fun hacc => ?_) ((handlers_eq_none_iff c now _).mp hnone)
    have hget := ht.get hi
    obtain hgone | ⟨s, hs, -, r, hr⟩ := hacc id rfl
    · cases hget.symm.trans hgone
    · exact absurd hr List.not_mem_nil
  | @handled cb n d hcb hd =>
    have hhandler : ¬ handlers c now (h.sessions.objs.pool pos).rest.msgId = none := by
      rw [hcb]
      exact nofun
    refine iff_of_true (fun id' hid' => ?_)
      (not_not.mp fun hno => hhandler ((handlers_eq_none_iff c now _).mpr hno))
    cases hid'
    have hfinished := process_finished hcb hstate hprocs hd
    rw [Finished, hid] at hfinished
    obtain hreleased | ⟨hkept, hwaits, r, hr⟩ := hfinished
    · refine .inl ?_
      simp only [Hall.leave, hreleased, List.foldl_cons, List.foldl_nil]
      exact get_released _ id
    · refine .inr ⟨d.call.session, ?_, .inr (.inl hwaits), r, hr⟩
      simp only [Hall.leave, hkept, List.foldl_nil]
      exact get_stored ht hi fun _ => d.call.session

/-- What `Begins` does in a tidy state. -/
theorem begins_cases (ht : Tidy h.sessions) {msgId : UInt32} {g : Session → Session}
    (hg : Fills g) :
    (¬ Room h.sessions ∧ ∃ h', Tidy h'.sessions ∧
      ∀ o, Begins c now h msgId g o ↔ o = Outcome.idle h') ∨
    (Room h.sessions ∧ ∃ h' id pos, Tidy h'.sessions ∧ h'.sessions.index id = some pos ∧
      (h'.sessions.objs.pool pos).sessionId = id ∧
      (h'.sessions.objs.pool pos).rest.msgId = msgId ∧
      (h'.sessions.objs.pool pos).processState = .onMsg ∧
      (h'.sessions.objs.pool pos).dbProcs = [] ∧
      ∀ o, Begins c now h msgId g o ↔ Process c now h' pos (some id) o) := by
  have hcreate := ht.create (fillSession msgId now)
  obtain ⟨hroom, hfull⟩ := @create_room h.sessions (fillSession msgId now)
  by_cases hr : Room h.sessions
  · obtain ⟨m', id, pos, heq, hi, hpool⟩ := hroom hr
    rw [heq] at hcreate
    have hobj : ((Hall.store { h with sessions := m' } pos g).sessions.objs.pool pos) =
        g (fillSession msgId now id default) := by
      rw [← hpool]
      exact Function.update_self ..
    refine .inr ⟨hr, Hall.store { h with sessions := m' } pos g, id, pos, ?_, hi, ?_⟩
    · exact @Tidy.store { h with sessions := m' } hcreate id pos hi g
    · rw [hobj, hg.sessionId, hg.msgId, hg.dbProcs, hg.processState]
      refine ⟨rfl, rfl, rfl, rfl, fun o => ?_⟩
      simp only [Begins, heq]
  · obtain ⟨m', heq⟩ := hfull hr
    rw [heq] at hcreate
    refine .inl ⟨hr, { h with sessions := m' }, hcreate, fun o => ?_⟩
    simp only [Begins, heq]

/-- Handling returns, keeps the pool tidy, and accounts for its session exactly when that was
expected. -/
theorem handles_spec (ht : Tidy h.sessions) (m : Message) :
    (∃ o, Handles c now h m o) ∧
      ∀ o, Handles c now h m o → Tidy o.hall.sessions ∧ (Accounted o ↔ Expected c h m) := by
  have hidle : ∀ h', Accounted (Outcome.idle h') := fun h' id hid => nomatch hid
  cases hm : sessionCase c h m with
  | none =>
    have hexpected : Expected c h m := fun msgId hcase => nomatch hm.symm.trans hcase
    obtain hdropped | ⟨id, pos, u, hi, hprocess⟩ := @handles_no_case c now h m hm
    · refine ⟨⟨_, (hdropped _).mpr rfl⟩, fun o ho => ?_⟩
      obtain rfl := (hdropped o).mp ho
      exact ⟨ht, iff_of_true (hidle h) hexpected⟩
    · have hstored := ht.store hi fun s => { s with ssMsg := u }
      obtain ⟨o, ho⟩ := @process_total c now (h.store pos fun s => { s with ssMsg := u }) pos none
      refine ⟨⟨o, (hprocess o).mpr ho⟩, fun o' ho' => ?_⟩
      have hp := (hprocess o').mp ho'
      have hnone : Accounted o' := by
        cases hp <;> exact fun id hid => nomatch hid
      exact ⟨process_tidy hstored hi hp, iff_of_true hnone hexpected⟩
  | some msgId =>
    obtain ⟨g, hg, hbegins⟩ := @handles_case c now h m msgId hm
    obtain ⟨hfull, h', hkept, hend⟩ | ⟨hroom, h', id, pos, hkept, hi, hid, hmsg, hstate, hprocs,
      hprocess⟩ := @begins_cases c now h ht msgId g hg
    · have hidle' := fun o => (hbegins o).trans (hend o)
      refine ⟨⟨_, (hidle' _).mpr rfl⟩, fun o ho => ?_⟩
      obtain rfl := (hidle' o).mp ho
      exact ⟨hkept, iff_of_true (hidle h') fun _ _ hroom => absurd hroom hfull⟩
    · have hprocess' := fun o => (hbegins o).trans (hprocess o)
      obtain ⟨o, ho⟩ := @process_total c now h' pos (some id)
      refine ⟨⟨o, (hprocess' o).mpr ho⟩, fun o' ho' => ?_⟩
      have hp := (hprocess' o').mp ho'
      refine ⟨process_tidy hkept hi hp, (process_accounted_iff hkept hi hid hstate hprocs hp).trans ?_⟩
      rw [hmsg]
      constructor
      · intro hcase msgId' hm' _
        cases hm.symm.trans hm'
        exact hcase
      · intro hexpected
        exact hexpected msgId hm hroom

end Messages

/-! ### Every run -/

section Runs

variable {c : Codec} {h h' : Hall}

theorem started_tidy (h0 : Started h) : Tidy h.sessions := by
  obtain ⟨hvalid, o, hindex, -⟩ := h0
  have hbuilt := Managers.rebuild_unaliased MsgHandler.Session.sessionId o hvalid
  rw [← hindex] at hbuilt
  exact ⟨_, _, _, hbuilt⟩

/-- Every step keeps the ids in order. -/
theorem step_tidy (ht : Tidy h.sessions) {e : Event} (hs : Step c h e h') : Tidy h'.sessions := by
  cases e with
  | message m now =>
    obtain ⟨o, ho, rfl⟩ := hs
    exact ((handles_spec ht m).2 o ho).1
  | offline i =>
    obtain rfl := hs
    exact ht
  | checkTimeOut o now =>
    obtain rfl := hs
    exact ht.releaseAll _
  | fetch =>
    obtain rfl := hs
    exact ht

/-- In every reachable state every message is handled to the end, and then the session that was
created for it is accounted for exactly when the message was expected. -/
theorem run_session_accounted_iff (c : Codec) (h₀ : Hall) (h0 : Started h₀) (es : List Event)
    (h : Hall) (hrun : Trace.Run (Step c) free h₀ es h) (m : Message) (now : UInt32) :
    (∃ o, Handles c now h m o) ∧ ∀ o, Handles c now h m o → (Accounted o ↔ Expected c h m) := by
  have ht : Tidy h.sessions := hrun.invariant (fun h => Tidy h.sessions) (started_tidy h0)
    fun _ _ _ ht _ hs => step_tidy ht hs
  obtain ⟨htotal, hspec⟩ := @handles_spec c now h ht m
  exact ⟨htotal, fun o ho => (hspec o ho).2⟩

end Runs

/-! ### A session that stays -/

/-- `Process` with at most three passes of a handler. -/
def runProcess (c : Codec) (now : UInt32) (h : Hall) (pos : Nat) (created : Option UInt32) :
    Option Outcome :=
  let s := h.sessions.objs.pool pos
  match handlers c now s.rest.msgId with
  | none => some ⟨h, created, []⟩
  | some cb =>
    (Loop.run (pass (env c now) cb) 3 (dispatch (env c now) cb (Call.start s h.toFront))).map
      fun r => ⟨h.leave pos r.2.call, created, r.2.call.handed⟩

theorem runProcess_sound {c : Codec} {now : UInt32} {h : Hall} {pos : Nat} {created : Option UInt32}
    {o : Outcome} (ho : runProcess c now h pos created = some o) : Process c now h pos created o := by
  simp only [runProcess] at ho
  split at ho
  · next hnone =>
    cases ho
    exact .unhandled hnone
  · next cb hcb =>
    obtain ⟨⟨n, d⟩, hrun, rfl⟩ := Option.map_eq_some_iff.mp ho
    exact .handled hcb (Loop.ends_of_run hrun)

def sampleCodec : Codec where
  toCodec := HallSvr.sampleCodec
  db := Sessions.wireData
  parseServer _ := none
  parseInternal _ := none
  loginOk money :=
    let response := [8, 0] ++ Wire.putField 10 16 (some money.toNat)
    106 :: UInt8.ofNat response.length :: response
  svrId := 1

def firstHall : Hall := ⟨⟨.init 2, ⟨10000, []⟩⟩, ⟨⟨.init 3, fun _ => none⟩, 0⟩⟩

theorem firstHall_started : Started firstHall := by
  refine ⟨ObjectMng.init_valid 3, HandOver.ascending, ?_, ?_⟩
  · simp [HandOver.rebuild, HandOver.ascending, firstHall, ObjectMng.init]
  · simp [HandOver.rebuildMax, HandOver.ascending, firstHall, ObjectMng.init]

def loginMessage : Message := .client (HallSvr.sampleHead 1 1000) HallSvr.loginBytes
def logoutMessage : Message := .client (HallSvr.sampleHead 1 1000) HallSvr.otherBytes

def loginHall : Hall :=
  Hall.store { firstHall with
    sessions := (Managers.create firstHall.sessions (fillSession 12 2000)).1 } 2
    (setClient (HallSvr.sampleHead 1 1000) ⟨7, .login [116]⟩)

/-- Player 7 has logged in, and there is room for a session. -/
def SignedIn (h : Hall) : Prop :=
  (h.players.getPlayer 7).isSome = true ∧ h.sessions.objs.freeList = [1, 0] ∧
    h.sessions.index (h.sessions.curMaxId + 1) = none

instance (h : Hall) : Decidable (SignedIn h) := inferInstanceAs (Decidable (_ ∧ _))

theorem login_signedIn :
    ∃ o, Handles sampleCodec 2000 firstHall loginMessage o ∧ SignedIn o.hall := by
  have hrun : (runProcess sampleCodec 2000 loginHall 2 (some 1)).any
      (fun o => decide (SignedIn o.hall)) = true := by decide +kernel
  cases ho : runProcess sampleCodec 2000 loginHall 2 (some 1) with
  | none =>
    rw [ho] at hrun
    cases hrun
  | some o =>
    rw [ho] at hrun
    exact ⟨o, runProcess_sound ho, of_decide_eq_true hrun⟩

theorem signedIn_reached :
    ∃ h, Trace.Run (Step sampleCodec) free firstHall [.message loginMessage 2000] h ∧ SignedIn h := by
  obtain ⟨o, ho, hsigned⟩ := login_signedIn
  have hstep : Step sampleCodec firstHall (.message loginMessage 2000) o.hall := ⟨o, ho, rfl⟩
  exact ⟨o.hall, .cons trivial hstep (.nil _), hsigned⟩

/-- The logout gets a session, which has no handler. -/
theorem SignedIn.unexpected {h : Hall} (hs : SignedIn h) :
    Room h.sessions ∧ sessionCase sampleCodec h logoutMessage = some 14 := by
  obtain ⟨hplayer, hfree, hid⟩ := hs
  refine ⟨⟨?_, .inr ⟨0, by decide, ?_⟩⟩, ?_⟩
  · rw [hfree]
    exact List.cons_ne_nil _ _
  · rw [← hid]
    exact congrArg _ (UInt32.add_zero _)
  · have hcheck : HallSvr.loginCheck h.server ⟨7, .other ⟨14, by decide⟩⟩ = true := hplayer
    have hparse : sampleCodec.parse HallSvr.otherBytes = some ⟨7, .other ⟨14, by decide⟩⟩ := by
      decide
    simp only [sessionCase, logoutMessage, hparse, Option.filter, hcheck, if_true, Option.map_some,
      PBCSMsg.unionCase]

theorem run_session_accounted_iff_logout :
    ∃ h, Trace.Run (Step sampleCodec) free firstHall [.message loginMessage 2000] h ∧
      ((∃ o, Handles sampleCodec 2001 h logoutMessage o) ∧
        ∀ o, Handles sampleCodec 2001 h logoutMessage o →
          (Accounted o ↔ Expected sampleCodec h logoutMessage)) := by
  obtain ⟨h, hrun, -⟩ := signedIn_reached
  exact ⟨h, hrun, run_session_accounted_iff sampleCodec firstHall firstHall_started _ h hrun
    logoutMessage 2001⟩

/-- A player logs in and out: the session of the logout is neither released nor does it wait. -/
theorem logout_session_stays :
    ∃ h o id s, Trace.Run (Step sampleCodec) free firstHall [.message loginMessage 2000] h ∧
      Handles sampleCodec 2001 h logoutMessage o ∧ o.created = some id ∧
      o.hall.sessions.get id = some s ∧ s.processState = .onMsg ∧ o.handed = [] ∧
      ¬ Accounted o := by
  obtain ⟨h, hrun, hsigned⟩ := signedIn_reached
  obtain ⟨hroom, hcase⟩ := hsigned.unexpected
  have ht : Tidy h.sessions := hrun.invariant (fun h => Tidy h.sessions)
    (started_tidy firstHall_started) fun _ _ _ ht _ hs => step_tidy ht hs
  obtain ⟨g, hg, hbegins⟩ := @handles_case sampleCodec 2001 h logoutMessage 14 hcase
  obtain ⟨hfull, -⟩ | ⟨-, h', id, pos, hkept, hi, -, hmsg, hstate, -, hprocess⟩ :=
    @begins_cases sampleCodec 2001 h ht 14 g hg
  · exact absurd hroom hfull
  · have hnone : handlers sampleCodec 2001 (h'.sessions.objs.pool pos).rest.msgId = none := by
      rw [hmsg]
      rfl
    have ho : Handles sampleCodec 2001 h logoutMessage ⟨h', some id, []⟩ :=
      (hbegins _).mpr ((hprocess _).mpr (.unhandled hnone))
    have hget := hkept.get hi
    refine ⟨h, _, id, _, hrun, ho, rfl, hget, hstate, rfl, fun hacc => ?_⟩
    obtain hgone | ⟨s, -, -, r, hr⟩ := hacc id rfl
    · cases hget.symm.trans hgone
    · exact absurd hr List.not_mem_nil

end SessionFates
