import Dsf4g.ObjectMng
import Dsf4g.TcpSvr

/-!
# The hall server's client side

`core/server.cpp`, `src/hallsvr/logicsvr.cpp`, `src/hallsvr/msg.cpp` and
`src/hallsvr/msg_handler_common.cpp`. Frames from the `cs` pipe are posted to the
message pipe, apart from disconnect notices, which are handled at once. The
generated messages and the RSA cipher are parameters. What a login session does
between its first message and its answer is the subject of `Sessions`; here the
database only decides how a session that it answers goes on.
-/
namespace HallSvr

open Base TcpSvr

def maxPbLen : Nat := maxBufLen - 4
def tokenExpireSec : UInt32 := 86400
def msgSize : Nat := 4144

def kCsRequestLogin : UInt32 := 12

/-- The union of `PBCSMsg`, as far as it is told apart. -/
inductive CSUnion where
  | login (token : List UInt8)
  | other (unionCase : { n : UInt32 // n ≠ kCsRequestLogin })
  deriving DecidableEq

structure PBCSMsg where
  uid : UInt32
  msgUnion : CSUnion
  deriving DecidableEq

def PBCSMsg.unionCase (m : PBCSMsg) : UInt32 :=
  match m.msgUnion with
  | .login _ => kCsRequestLogin
  | .other n => n.val

structure AuthToken where
  uid : UInt64
  time : UInt32
  deriving DecidableEq, Repr

structure Codec where
  /-- `ParseMsgFromClient`. -/
  parse : List UInt8 → Option PBCSMsg
  /-- `DecryptWithPubKey`, read as a token. -/
  decrypt : List UInt8 → Option AuthToken
  /-- A serialised `cs_response_logout`. -/
  logout : List UInt8
  /-- A serialised `cs_response_login` with its failure code. -/
  loginFailed : List UInt8

/-- A message from another server: a request of some kind, or a response to a session. -/
inductive CenterMsg where
  | request (unionCase : UInt32)
  | response (sessionId : UInt32)
  deriving DecidableEq, Repr

/-- An entry of the message pipe. The hall server posts no internal messages. -/
inductive Posted where
  | client (head : TcpHead) (data : List UInt8)
  | server (m : CenterMsg)
  deriving DecidableEq, Repr

structure Server where
  sc : Fifo TcpFrame
  msgPipe : Fifo Posted
  players : PlayerManager
  sessions : SessionManager

/-! ## Sending -/

/-- `SendMsgToClient`. A message that is too long or finds the pipe full is dropped. -/
def sendMsgToClient (v : Server) (head : TcpHead) (pb : List UInt8) (close : Bool) : Server :=
  if pb.length > maxPbLen then v
  else
    let head := { head with msgType := tcpNormal, needClose := close }
    let f : TcpFrame := ⟨head, Bytes.be 4 (pb.length + 4) ++ pb, head.conn⟩
    { v with sc := (v.sc.append TcpFrame.cost f).getD v.sc }

def notifyTcpLogicIndex (v : Server) (head : TcpHead) (uid : UInt64) : Option Server :=
  let f : TcpFrame := ⟨{ head with msgType := logicIndexMsg }, Bytes.le 8 uid.toNat, head.conn⟩
  (v.sc.append TcpFrame.cost f).map fun sc => { v with sc := sc }

/-! ## Login and logout -/

def playerLogout (c : Codec) (v : Server) (uid : UInt64) (notifyCli : Bool) : Server :=
  match v.players.getPlayer uid with
  | none => v
  | some p =>
    let v := if notifyCli then sendMsgToClient v p.tcpHead c.logout true else v
    { v with players := v.players.releasePlayer p.uid }

/-- The token is genuine, for this uid, and not expired. -/
def checkToken (c : Codec) (uid : UInt64) (token : List UInt8) (now : UInt32) : Bool :=
  match c.decrypt token with
  | none => false
  | some t => t.uid == uid && !(t.time + tokenExpireSec ≤ now)

structure LoginResult where
  server : Server
  ok : Bool

/-- The end of `PlayerLogin`: the index goes to the gateway first. -/
def bindPlayer (v : Server) (head : TcpHead) (uid : UInt64) : LoginResult :=
  match notifyTcpLogicIndex v head uid with
  | none => ⟨v, false⟩
  | some v =>
    match v.players.createPlayer uid with
    | none => ⟨v, false⟩
    | some (pos, players) => ⟨{ v with players := players.setTcpHead pos head }, true⟩

def playerLogin (c : Codec) (v : Server) (head : TcpHead) (uid : UInt64) (token : List UInt8)
    (now : UInt32) : LoginResult :=
  if checkToken c uid token now then
    match v.players.getPlayer uid with
    | none => bindPlayer v head uid
    | some p =>
      if p.tcpHead.socketPos = head.socketPos ∧ p.tcpHead.createTime = head.createTime then
        ⟨v, true⟩
      else bindPlayer (playerLogout c v uid true) head uid
  else ⟨v, false⟩

/-! ## Messages from clients -/

/-- What a client's message leaves: the server, and the session that waits for the database with the
uid it has logged in. -/
structure Handled where
  server : Server
  waiting : Option (UInt32 × UInt64)

/-- `HandlerLogin::OnMessage`, and the release of a session whose login failed. -/
def handlerLogin (c : Codec) (v : Server) (id : UInt32) (head : TcpHead) (uid : UInt32)
    (token : List UInt8) (now : UInt32) : Handled :=
  let r := playerLogin c v head uid.toUInt64 token now
  if r.ok then ⟨r.server, some (id, uid.toUInt64)⟩
  else
    let v := sendMsgToClient r.server head c.loginFailed true
    ⟨{ v with sessions := v.sessions.releaseSession id }, none⟩

def loginCheck (v : Server) (m : PBCSMsg) : Bool :=
  match m.msgUnion with
  | .login _ => true
  | .other _ => (v.players.getPlayer m.uid.toUInt64).isSome

/-- `LogicSvr::OnClientMessage`. Only the login message has a handler; a session of another message
stays as it was created. -/
def onClientMessage (c : Codec) (v : Server) (head : TcpHead) (data : List UInt8) (now : UInt32) :
    Handled :=
  match c.parse data with
  | none => ⟨v, none⟩
  | some m =>
    if loginCheck v m then
      let created := v.sessions.createSession m.unionCase
      match created.pos with
      | none => ⟨{ v with sessions := created.mng }, none⟩
      | some pos =>
        let objs := created.mng.objs.modify pos fun s => { s with tcpHead := head, uid := m.uid }
        let v := { v with sessions := { created.mng with objs := objs } }
        match m.msgUnion with
        | .login token => handlerLogin c v (objs.pool pos).sessionId head m.uid token now
        | .other _ => ⟨v, none⟩
    else ⟨v, none⟩

def onClientOffline (c : Codec) (v : Server) (logicIndex : UInt64) : Server :=
  playerLogout c v logicIndex false

/-! ## Messages from servers -/

/-- How a login session goes on when the database answers. -/
inductive Resumed where
  | waits
  | released
  /-- The data is saved: the client is answered and the session ends. -/
  | answered (pb : List UInt8)
  deriving DecidableEq, Repr

def resume (v : Server) (s : Session) : Resumed → Server
  | .waits => v
  | .released => { v with sessions := v.sessions.releaseSession s.sessionId }
  | .answered pb =>
    let v := sendMsgToClient v s.tcpHead pb false
    { v with sessions := v.sessions.releaseSession s.sessionId }

/-- `LogicSvr::OnServerMessage`. Requests have no handlers. -/
def onServerMessage (v : Server) (m : CenterMsg) (r : Resumed) : Server :=
  match m with
  | .request n => { v with sessions := (v.sessions.createSession n).mng }
  | .response id =>
    match v.sessions.getSession id with
    | none => v
    | some s => if s.msgId = kCsRequestLogin then resume v s r else v

/-! ## The loop -/

def Posted.cost (_ : Posted) : Nat := 4 + msgSize

def TcpFrame.length (f : TcpFrame) : Nat := tcpHeadLen + f.payload.length

/-- One frame of `GetClientMessage`. A message that finds the message pipe full is lost. -/
def getClientMessage (c : Codec) (v : Server) (f : TcpFrame) : Server :=
  if TcpFrame.length f ≤ tcpHeadLen + 4 then v
  else if f.head.msgType = cliDiscon then
    if f.payload.length ≠ 8 then v
    else onClientOffline c v (UInt64.ofNat (Bytes.ofLe f.payload))
  else if f.payload.length ≤ 4 then v
  else if Bytes.ofBe (f.payload.take 4) ≠ f.payload.length then v
  else
    { v with
      msgPipe := (v.msgPipe.append Posted.cost (.client f.head (f.payload.drop 4))).getD v.msgPipe }

def dispatchMessage (c : Codec) (v : Server) (m : Posted) (now : UInt32) (r : Resumed) : Server :=
  match m with
  | .client head data => (onClientMessage c v head data now).server
  | .server m => onServerMessage v m r

end HallSvr
