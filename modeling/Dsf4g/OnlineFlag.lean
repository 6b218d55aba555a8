import Dsf4g.LateDiscon
import Dsf4g.LoginData

/-!
# The online flag of a player

A hall server with its database proxy: `src/hallsvr/logicsvr.cpp`, `src/hallsvr/msg.cpp`
and the handlers behind them. A login stores `is_online`; `PlayerLogout` builds the
message that would make `HandlerLogout` clear it, and does not send it.
-/
namespace OnlineFlag

open Base DbProxy Sessions
open HallSvr (Server PBCSMsg)

def kInterLogout : UInt32 := 5000

/-! ## The system -/

inductive Job where
  | login (uid : UInt64) (head : TcpHead)
  | logout

def Job.handler (svrId : UInt32) : Job → Handler DbInfo
  | .login uid _ => Sessions.handlerLogin svrId uid
  | .logout => handlerLogout

structure Live where
  id : UInt32
  job : Job
  data : Sessions.Session DbInfo

/-- What the hall server is given: the generated messages, `GetSvrID`, and the serialised answer to a
login, which carries the money of its player. -/
structure Env where
  codec : HallSvr.Codec
  data : Codec DbInfo
  svrId : UInt32
  loginOk : UInt64 → List UInt8

/-- The hall server, the database, the sessions in the order of their creation, and the messages
between them. `internal` are the uids of the logout messages in the message pipe. `loggedIn` is no
member of the server: it records whose login was accepted. -/
structure World where
  server : Server
  internal : List UInt64
  store : Store
  sessions : List (Option Live)
  net : List Sessions.Msg
  loggedIn : List UInt64

def World.live (w : World) (sid : Nat) : Option Live := w.sessions[sid]?.join

def World.begin (w : World) (e : Env) (id : UInt32) (job : Job) : World :=
  let o := start (job.handler e.svrId)
  { w with
    sessions := w.sessions ++ [o.session.map (Live.mk id job)]
    net := w.net ++ sentBy w.sessions.length o.sent }

def World.ended (w : World) (e : Env) (l : Live) (saved : Bool) : World :=
  match l.job with
  | .login uid head =>
    let money := (moneyInfo l.data).money.getD 0
    let answer := if saved then .answered (e.loginOk money) else .released
    { w with server :=
        HallSvr.resume w.server ⟨l.id, HallSvr.kCsRequestLogin, uid.toUInt32, head⟩ answer }
  | .logout =>
    { w with server := { w.server with sessions := w.server.sessions.releaseSession l.id } }

def isSaved : Reply → Bool
  | .save r => r.result = .ok
  | .get _ => false

def World.resumed (w : World) (e : Env) (sid : Nat) (l : Live) (r : Reply) : World :=
  let o := process e.data (l.job.handler e.svrId) l.data r
  let w := { w with
    sessions := w.sessions.set sid (o.session.map (Live.mk l.id l.job))
    net := w.net ++ sentBy sid o.sent }
  if o.session.isSome then w else w.ended e l (isSaved r)

inductive Event where
  /-- `OnClientMessage`. -/
  | client (head : TcpHead) (data : List UInt8) (now : UInt32)
  /-- `OnClientOffline`. -/
  | offline (logicIndex : UInt64)
  /-- `OnInteralMessage`. -/
  | internal
  /-- The database proxy handles a request. -/
  | handle (i : Nat)
  /-- `OnServerMessage` with an answer of the database. -/
  | deliver (i : Nat)
  /-- The gateway takes a frame from the `sc` pipe. -/
  | fetch

def step (e : Env) (w : World) : Event → Option World
  | .client head data now =>
    let r := HallSvr.onClientMessage e.codec w.server head data now
    match r.waiting with
    | none => some { w with server := r.server }
    | some (id, uid) =>
      some ({ w with server := r.server, loggedIn := w.loggedIn ++ [uid] }.begin e id
        (.login uid head))
  | .offline logicIndex =>
    some { w with server := HallSvr.onClientOffline e.codec w.server logicIndex }
  | .internal =>
    match w.internal with
    | [] => none
    | _ :: rest =>
      let created := w.server.sessions.createSession kInterLogout
      let w := { w with internal := rest, server := { w.server with sessions := created.mng } }
      match created.pos with
      | none => some w
      | some pos => some (w.begin e (created.mng.objs.pool pos).sessionId .logout)
  | .handle i =>
    match w.net[i]? with
    | some ⟨sid, .request r⟩ =>
      let a := answer w.store r
      some { w with store := a.store, net := w.net.set i ⟨sid, .reply a.reply⟩ }
    | _ => none
  | .deliver i =>
    match w.net[i]? with
    | some ⟨sid, .reply r⟩ =>
      let w := { w with net := w.net.eraseIdx i }
      match w.live sid with
      | none => some w
      | some l => some (w.resumed e sid l r)
    | _ => none
  | .fetch =>
    match w.server.sc.get HallSvr.TcpFrame.length tcpBufLen with
    | none => none
    | some (_, sc) => some { w with server := { w.server with sc := sc } }

def Step (e : Env) (w : World) (ev : Event) (w' : World) : Prop := step e w ev = some w'

def World.initial (conf : HallSvr.Conf) (tables : UInt64 → UInt64 → Option Row) : World where
  server := ⟨⟨conf.scSize, []⟩, ⟨conf.msgSize, []⟩, .init conf.maxPlayerNum, .init conf.maxSessionNum⟩
  internal := []
  store := fresh tables
  sessions := []
  net := []
  loggedIn := []

structure Quiescent (w : World) : Prop where
  net : w.net = []
  sessions : ∀ l ∈ w.sessions, l.isNone = true
  objs : w.server.sessions.objs.used = ∅
  internal : w.internal = []
  msgPipe : w.server.msgPipe.items = []
  sc : w.server.sc.items = []

def Cuts (s : Sessions.Session DbInfo) : Body → Prop
  | .reply r => Exhausts s r
  | .request _ => False

def Patient (w : World) : Event → Prop
  | .deliver i => ∀ m ∈ w.net[i]?, ∀ l ∈ w.live m.sid, ¬ Cuts l.data m.body
  | _ => True

def indexFits (c : HallSvr.Codec) (v : Server) (p : HallSvr.Player) (head : TcpHead)
    (uid : UInt64) : Bool :=
  ((HallSvr.sendMsgToClient v p.tcpHead c.logout true).sc.append TcpSvr.TcpFrame.cost
    (HallSvr.indexFrame head uid)).isSome

def KickFits (c : HallSvr.Codec) (v : Server) (head : TcpHead) (uid : UInt64) : Prop :=
  ∀ p ∈ v.players.getPlayer uid, p.tcpHead.conn = head.conn ∨ indexFits c v p head uid = true

def genuine (c : HallSvr.Codec) (data : List UInt8) (now : UInt32) : Option UInt64 :=
  match c.parse data with
  | some ⟨uid, .login token⟩ =>
    if HallSvr.checkToken c uid.toUInt64 token now then some uid.toUInt64 else none
  | _ => none

/-- No player is removed for good: no notice is handled for one, and a login that removes one puts
one in its place. What is stored of a player who logs in can be parsed. -/
def Kept (e : Env) (w : World) : Event → Prop
  | .offline logicIndex => w.server.players.getPlayer logicIndex = none
  | .client head data now => ∀ uid ∈ genuine e.codec data now,
    Legible e.data w.store uid ∧ KickFits e.codec w.server head uid
  | _ => True

/-! ## Players -/

/-- What keeps every player, perhaps with another in the same place. -/
def Players (v v' : Server) : Prop :=
  v'.players.Valid ∧
    ∀ u, (v.players.getPlayer u).isSome = true → (v'.players.getPlayer u).isSome = true

theorem Players.of_eq {v v' : Server} (hv : v.players.Valid) (h : v'.players = v.players) :
    Players v v' := by
  rw [Players, h]
  exact ⟨hv, fun _ hu => hu⟩

/-- No player is removed for good, and a login that succeeds has its player. -/
theorem bindPlayer_players {v : Server} (hv : v.players.Valid) (head : TcpHead) (uid : UInt64) :
    Players v (HallSvr.bindPlayer v head uid).server ∧
      ((HallSvr.bindPlayer v head uid).ok = true →
        ((HallSvr.bindPlayer v head uid).server.players.getPlayer uid).isSome = true) := by
  rw [HallSvr.bindPlayer]
  cases hn : HallSvr.notifyTcpLogicIndex v head uid with
  | none => exact ⟨.of_eq hv rfl, fun h => absurd h Bool.false_ne_true⟩
  | some v₁ =>
    have hplayers := (HallSvr.notifyTcpLogicIndex_some hn).2
    dsimp only
    cases hc : v₁.players.createPlayer uid with
    | none => exact ⟨.of_eq hv hplayers, fun h => absurd h Bool.false_ne_true⟩
    | some r =>
      obtain ⟨pos, players⟩ := r
      rw [hplayers] at hc
      have hget := hv.get_create hc head
      refine ⟨⟨hv.create hc head, fun u hu => ?_⟩, fun _ => ?_⟩
      · dsimp only
        rw [hget]
        split
        · rfl
        · exact hu
      · dsimp only
        rw [hget, if_pos rfl]
        rfl

/-- A player that is removed comes back when its frame fits. -/
theorem rebind_players {c : HallSvr.Codec} {v : Server} (hv : v.players.Valid) {head : TcpHead}
    {uid : UInt64} {p : HallSvr.Player} (hp : v.players.getPlayer uid = some p)
    (hfits : indexFits c v p head uid = true) :
    Players v (HallSvr.bindPlayer (HallSvr.playerLogout c v uid true) head uid).server ∧
      ((HallSvr.bindPlayer (HallSvr.playerLogout c v uid true) head uid).server.players.getPlayer
        uid).isSome = true := by
  obtain ⟨hvalid, hget, -⟩ := HallSvr.playerLogout_spec c hv uid true
  obtain ⟨⟨hvalid', hkeep⟩, hsome⟩ := bindPlayer_players hvalid head uid
  have hok : (HallSvr.bindPlayer (HallSvr.playerLogout c v uid true) head uid).ok = true := by
    rw [HallSvr.rebind_ok c hv hp]
    simp only [HallSvr.notifyTcpLogicIndex, HallSvr.playerLogout, hp, if_true, Option.isSome_map]
    exact hfits
  refine ⟨⟨hvalid', fun u hu => ?_⟩, hsome hok⟩
  by_cases he : u = uid
  · rw [he]
    exact hsome hok
  · refine hkeep u ?_
    rw [hget, if_neg he]
    exact hu

/-- The same for a login whose kick fits. -/
theorem playerLogin_players {c : HallSvr.Codec} {v : Server} (hv : v.players.Valid) {head : TcpHead}
    {uid : UInt64} {token : List UInt8} {now : UInt32}
    (hk : HallSvr.checkToken c uid token now = true → KickFits c v head uid) :
    Players v (HallSvr.playerLogin c v head uid token now).server ∧
      ((HallSvr.playerLogin c v head uid token now).ok = true →
        ((HallSvr.playerLogin c v head uid token now).server.players.getPlayer uid).isSome =
          true) := by
  rw [HallSvr.playerLogin]
  cases htoken : HallSvr.checkToken c uid token now with
  | false => exact ⟨.of_eq hv rfl, fun h => absurd h Bool.false_ne_true⟩
  | true =>
    rw [if_pos rfl]
    cases hp : v.players.getPlayer uid with
    | none => exact bindPlayer_players hv head uid
    | some p =>
      dsimp only
      split
      · exact ⟨.of_eq hv rfl, fun _ => Option.isSome_of_eq_some hp⟩
      · next hother =>
        have hconn : p.tcpHead.conn ≠ head.conn := fun he =>
          hother ⟨congrArg Conn.socketPos he, congrArg Conn.createTime he⟩
        obtain ⟨hkeep, hnew⟩ := rebind_players hv hp ((hk htoken p hp).resolve_left hconn)
        exact ⟨hkeep, fun _ => hnew⟩

/-- The sessions of the server do not matter. -/
theorem KickFits.sessions {c : HallSvr.Codec} {v : Server} {head : TcpHead} {uid : UInt64}
    (h : KickFits c v head uid) (m : HallSvr.SessionManager) :
    KickFits c { v with sessions := m } head uid := by
  intro p hp
  have hsc : (HallSvr.sendMsgToClient { v with sessions := m } p.tcpHead c.logout true).sc =
      (HallSvr.sendMsgToClient v p.tcpHead c.logout true).sc := by
    simp only [HallSvr.sendMsgToClient]
    split <;> rfl
  rw [indexFits, hsc]
  exact h p hp

theorem genuine_eq {c : HallSvr.Codec} {data : List UInt8} {now uid : UInt32} {token : List UInt8}
    (hparse : c.parse data = some ⟨uid, .login token⟩)
    (htoken : HallSvr.checkToken c uid.toUInt64 token now = true) :
    genuine c data now = some uid.toUInt64 := by
  simp only [genuine, hparse, htoken, if_true]

/-- A message of a client keeps every player, and an accepted login has one behind it. -/
theorem client_players {c : HallSvr.Codec} {v : Server} (hv : v.players.Valid) {head : TcpHead}
    {data : List UInt8} {now : UInt32} (hk : ∀ uid ∈ genuine c data now, KickFits c v head uid) :
    Players v (HallSvr.onClientMessage c v head data now).server ∧
      ∀ id uid, (HallSvr.onClientMessage c v head data now).waiting = some (id, uid) →
        genuine c data now = some uid ∧ uid.toNat < 2 ^ 32 ∧
        ((HallSvr.onClientMessage c v head data now).server.players.getPlayer uid).isSome = true := by
  simp only [HallSvr.onClientMessage]
  cases hparse : c.parse data with
  | none => exact ⟨.of_eq hv rfl, fun _ _ h => by cases h⟩
  | some m =>
    obtain ⟨uid, mu⟩ := m
    cases mu with
    | other n =>
      have hidle : ∀ m : HallSvr.SessionManager,
          Players v { v with sessions := m } := fun m => .of_eq hv rfl
      dsimp only
      split
      · split
        · exact ⟨hidle _, fun _ _ h => by cases h⟩
        · exact ⟨hidle _, fun _ _ h => by cases h⟩
      · exact ⟨hidle v.sessions, fun _ _ h => by cases h⟩
    | login token =>
      have hcheck : HallSvr.loginCheck v ⟨uid, .login token⟩ = true := rfl
      have hcase : PBCSMsg.unionCase ⟨uid, .login token⟩ = HallSvr.kCsRequestLogin := rfl
      simp only [hcheck, if_true, hcase]
      cases (v.sessions.createSession HallSvr.kCsRequestLogin).pos with
      | none => exact ⟨.of_eq hv rfl, fun _ _ h => by cases h⟩
      | some pos =>
        dsimp only
        generalize (v.sessions.createSession HallSvr.kCsRequestLogin).mng.objs.modify pos _ = objs
        generalize HallSvr.SessionManager.mk objs _ _ = mng
        obtain ⟨hkeep, hnew⟩ := playerLogin_players (v := { v with sessions := mng }) hv
          fun htoken => (hk _ (genuine_eq hparse htoken)).sessions mng
        simp only [HallSvr.handlerLogin]
        split
        · next hok =>
          refine ⟨hkeep, fun id u h => ?_⟩
          cases h
          refine ⟨genuine_eq hparse ?_, UInt32.toNat_lt uid, hnew hok⟩
          by_contra hno
          rw [HallSvr.playerLogin, if_neg hno] at hok
          cases hok
        · refine ⟨?_, fun _ _ h => by cases h⟩
          rw [Players, HallSvr.sendMsgToClient_players]
          exact hkeep

/-- An answer of the database changes no player. -/
theorem resume_players (v : Server) (s : HallSvr.Session) (r : HallSvr.Resumed) :
    (HallSvr.resume v s r).players = v.players := by
  cases r with
  | waits => rfl
  | released => rfl
  | answered pb => exact HallSvr.sendMsgToClient_players ..

/-! ## Sessions and messages -/

theorem getElem?_perm {α : Type} {l : List α} {i : Nat} {a : α} (h : l[i]? = some a) :
    l.Perm (a :: l.eraseIdx i) ∧ ∀ b, (l.set i b).Perm (b :: l.eraseIdx i) := by
  obtain ⟨hlt, rfl⟩ := List.getElem?_eq_some_iff.mp h
  exact ⟨(List.getElem_cons_eraseIdx_perm hlt).symm, List.set_perm_cons_eraseIdx hlt⟩

theorem join_append {α : Type} (l : List (Option α)) (o : Option α) (i : Nat) :
    (l ++ [o])[i]?.join = if i = l.length then o else l[i]?.join := by
  split
  · next he =>
    rw [he, List.getElem?_concat_length]
    rfl
  · next hne =>
    by_cases hlt : i < l.length
    · rw [List.getElem?_append_left hlt]
    · rw [List.getElem?_eq_none (by simp only [List.length_append, List.length_singleton]; omega),
        List.getElem?_eq_none (by omega)]

theorem join_set {α : Type} {l : List (Option α)} {i : Nat} {a : α} (h : l[i]?.join = some a)
    (o : Option α) (j : Nat) : (l.set i o)[j]?.join = if j = i then o else l[j]?.join := by
  have hlt : i < l.length := by
    by_contra hge
    rw [List.getElem?_eq_none (by omega)] at h
    cases h
  split
  · next he =>
    rw [he, List.getElem?_set_self hlt]
    rfl
  · next hne => rw [List.getElem?_set_ne (Ne.symm hne)]

structure Login (l : Live) (uid : UInt64) : Prop where
  job : ∃ head, l.job = .login uid head
  short : uid.toNat < 2 ^ 32
  session : LoginSession uid l.data

theorem Login.unique {l : Live} {uid uid' : UInt64} (h : Login l uid) (h' : Login l uid') :
    uid = uid' := by
  obtain ⟨head, hjob⟩ := h.job
  obtain ⟨head', hjob'⟩ := h'.job
  cases hjob.symm.trans hjob'
  rfl

section

variable (c : Codec DbInfo) (st : Store) (live : Nat → Option Live)

def Due (m : Sessions.Msg) : Prop :=
  ∃ l uid, live m.sid = some l ∧ Login l uid ∧ Legible c st uid ∧ Awaited c st uid l.data m.body

structure Served (net : List Sessions.Msg) : Prop where
  logins : ∀ sid l, live sid = some l → ∃ uid, Login l uid
  due : ∀ m ∈ net, Due c st live m
  nodup : (net.map Msg.sid).Nodup

end

variable {c : Codec DbInfo} {st st' : Store} {live live' : Nat → Option Live}
  {net net' : List Sessions.Msg}

theorem Served.perm (h : Served c st live net) (hp : net.Perm net') : Served c st live net' :=
  ⟨h.logins, fun m hm => h.due m (hp.mem_iff.mpr hm), (hp.map Msg.sid).nodup_iff.mp h.nodup⟩

/-- A message on its way stays what its session waits for. -/
theorem awaited_keeps {uid : UInt64} (hu : uid.toNat < 2 ^ 32) (hk : Keeps c st st')
    {s : Sessions.Session DbInfo} {b : Body} (h : Awaited c st uid s b) :
    Awaited c st' uid s b := by
  cases b with
  | request r =>
    cases r with
    | get r => exact h
    | save r => exact h
  | reply r =>
    cases r with
    | get r => exact h
    | save r =>
      obtain ⟨hstate, ⟨hok, honline⟩ | hdiffer⟩ := h
      · exact ⟨hstate, .inl ⟨hok, hk.online uid hu honline⟩⟩
      · exact ⟨hstate, .inr hdiffer⟩

/-- The database answers a request of a login. -/
theorem answer_awaited (hc : Generated c) {uid : UInt64} (hl : Legible c st uid)
    (hu : uid.toNat < 2 ^ 32) {s : Sessions.Session DbInfo} {r : Request}
    (h : Awaited c st uid s (.request r)) {a : Answer} (ha : answer st r = a) :
    Keeps c st a.store ∧ Awaited c a.store uid s (.reply a.reply) := by
  cases r with
  | get r =>
    obtain ⟨hstate, rfl⟩ := h
    cases ha
    exact ⟨Keeps.refl c st, hstate, handleGet_login hl hu⟩
  | save r =>
    obtain ⟨hstate, hsave⟩ := h
    cases ha
    obtain ⟨hkeeps, hanswer⟩ := handleSave_login hc hl hu hsave rfl
    exact ⟨hkeeps, hstate, hanswer⟩

/-- A request is replaced by its answer. -/
theorem Served.handle (hc : Generated c) {sid : Nat} {r : Request}
    (h : Served c st live (⟨sid, .request r⟩ :: net)) {a : Answer} (ha : answer st r = a) :
    Keeps c st a.store ∧ Served c a.store live (⟨sid, .reply a.reply⟩ :: net) := by
  obtain ⟨l, uid, hlive, hlogin, hl, hdue⟩ := h.due _ (List.mem_cons_self ..)
  obtain ⟨hkeeps, hreply⟩ := answer_awaited hc hl hlogin.short hdue ha
  refine ⟨hkeeps, h.logins, fun m hm => ?_, h.nodup⟩
  obtain rfl | hm := List.mem_cons.mp hm
  · exact ⟨l, uid, hlive, hlogin, hkeeps.legible uid hlogin.short hl, hreply⟩
  · obtain ⟨l', uid', hlive', hlogin', hl', hdue'⟩ := h.due m (List.mem_cons_of_mem _ hm)
    exact ⟨l', uid', hlive', hlogin', hkeeps.legible uid' hlogin'.short hl',
      awaited_keeps hlogin'.short hkeeps hdue'⟩

/-- The message of a session is taken, and only this session changes. -/
theorem Served.take {m : Sessions.Msg} (h : Served c st live (m :: net))
    (hother : ∀ sid, sid ≠ m.sid → live' sid = live sid)
    (hself : ∀ l, live' m.sid = some l → ∃ uid, Login l uid) : Served c st live' net := by
  obtain ⟨hnew, hnodup⟩ := List.nodup_cons.mp h.nodup
  refine ⟨fun sid l hl => ?_, fun m' hm' => ?_, hnodup⟩
  · by_cases he : sid = m.sid
    · exact hself l (he ▸ hl)
    · exact h.logins sid l ((hother sid he).symm.trans hl)
  · obtain ⟨l, uid, hlive, hrest⟩ := h.due m' (List.mem_cons_of_mem _ hm')
    have hne : m'.sid ≠ m.sid := fun he => hnew (he ▸ List.mem_map_of_mem hm')
    exact ⟨l, uid, (hother _ hne).trans hlive, hrest⟩

/-- A session without messages sends one. -/
theorem Served.send (h : Served c st live net) {m : Sessions.Msg} (hm : Due c st live m)
    (hnew : m.sid ∉ net.map Msg.sid) : Served c st live (net ++ [m]) := by
  refine ⟨h.logins, fun m' hm' => ?_, ?_⟩
  · obtain hm' | hm' := List.mem_append.mp hm'
    · exact h.due m' hm'
    · rw [List.mem_singleton.mp hm']
      exact hm
  · rw [List.map_append, List.map_singleton]
    exact h.nodup.append (List.nodup_singleton _) (List.disjoint_singleton.mpr hnew)

/-- A session is added. -/
theorem Served.grow (h : Served c st live net) (hgrow : ∀ sid l, live sid = some l → live' sid = some l)
    (hlogins : ∀ sid l, live' sid = some l → ∃ uid, Login l uid) : Served c st live' net := by
  refine ⟨hlogins, fun m hm => ?_, h.nodup⟩
  obtain ⟨l, uid, hlive, hrest⟩ := h.due m hm
  exact ⟨l, uid, hgrow _ l hlive, hrest⟩

/-! ## The invariant -/

/-- The flag of a player is stored, or a login that stores it is still at work. -/
def Settled (c : Codec DbInfo) (st : Store) (live : Nat → Option Live) (uid : UInt64) : Prop :=
  storedOnline c st uid = true ∨ ∃ sid l, live sid = some l ∧ Login l uid

structure Inv (e : Env) (w : World) : Prop where
  players : w.server.players.Valid
  internal : w.internal = []
  served : Served e.data w.store w.live w.net
  present : ∀ uid ∈ w.loggedIn, uid.toNat < 2 ^ 32 ∧
    (w.server.players.getPlayer uid).isSome = true ∧ Settled e.data w.store w.live uid

theorem initial_inv (e : Env) (conf : HallSvr.Conf) (tables : UInt64 → UInt64 → Option Row) :
    Inv e (World.initial conf tables) := by
  have hlive : ∀ sid, (World.initial conf tables).live sid = none := fun sid => rfl
  refine ⟨HallSvr.PlayerManager.init_valid _, rfl, ⟨fun sid l h => ?_, ?_, ?_⟩, ?_⟩
  · cases (hlive sid).symm.trans h
  · exact fun m hm => absurd hm List.not_mem_nil
  · exact List.nodup_nil
  · exact fun uid hu => absurd hu List.not_mem_nil

variable {e : Env} {w w' : World}

/-- Only the server changes, and it keeps its players. -/
theorem Inv.server (h : Inv e w) {v : Server} (hp : Players w.server v) :
    Inv e { w with server := v } := by
  refine ⟨hp.1, h.internal, h.served, fun uid hu => ?_⟩
  obtain ⟨hshort, hsome, hset⟩ := h.present uid hu
  exact ⟨hshort, hp.2 uid hsome, hset⟩

theorem ended_eq (w : World) (e : Env) (l : Live) (saved : Bool) :
    ∃ v : Server, w.ended e l saved = { w with server := v } ∧ v.players = w.server.players := by
  rw [World.ended]
  split
  · exact ⟨_, rfl, resume_players ..⟩
  · exact ⟨_, rfl, rfl⟩

/-- A session that ends leaves the other players as they are. -/
theorem Inv.ended (h : Inv e w) (l : Live) (saved : Bool) : Inv e (w.ended e l saved) := by
  obtain ⟨v, heq, hplayers⟩ := ended_eq w e l saved
  rw [heq]
  exact h.server (.of_eq h.players hplayers)

/-- A session sends one message, and waits for it. -/
theorem Inv.send (h : Inv e w) {m : Sessions.Msg} (hm : Due e.data w.store w.live m)
    (hnew : m.sid ∉ w.net.map Msg.sid) : Inv e { w with net := w.net ++ [m] } :=
  ⟨h.players, h.internal, h.served.send hm hnew, h.present⟩

/-- No message is for a session that has not started. -/
theorem Inv.unsent (h : Inv e w) : w.sessions.length ∉ w.net.map Msg.sid := by
  intro hmem
  obtain ⟨m, hm, hsid⟩ := List.mem_map.mp hmem
  obtain ⟨l, -, hl, -⟩ := h.served.due m hm
  rw [World.live, hsid, List.getElem?_eq_none (Nat.le_refl _)] at hl
  cases hl

/-- A login of a player joins the sessions. -/
theorem Inv.enter (h : Inv e w) {l : Live} {uid : UInt64} (hlogin : Login l uid)
    (hsome : (w.server.players.getPlayer uid).isSome = true) :
    Inv e { w with sessions := w.sessions ++ [some l], loggedIn := w.loggedIn ++ [uid] } := by
  have hlive : ∀ sid, (w.sessions ++ [some l])[sid]?.join =
      if sid = w.sessions.length then some l else w.live sid := join_append _ _
  have hgrow : ∀ sid k, w.live sid = some k → (w.sessions ++ [some l])[sid]?.join = some k := by
    intro sid k hk
    have hne : sid ≠ w.sessions.length := by
      rintro rfl
      rw [World.live, List.getElem?_eq_none (Nat.le_refl _)] at hk
      cases hk
    rw [hlive, if_neg hne, hk]
  refine ⟨h.players, h.internal, h.served.grow hgrow fun sid k hk => ?_, fun u hu => ?_⟩
  · have hcases := (hlive sid).symm.trans hk
    split at hcases
    · cases hcases
      exact ⟨uid, hlogin⟩
    · exact h.served.logins sid k hcases
  · obtain hu | hu := List.mem_append.mp hu
    · obtain ⟨hshort, hplayer, honline | ⟨sid, k, hk, hlog⟩⟩ := h.present u hu
      · exact ⟨hshort, hplayer, .inl honline⟩
      · exact ⟨hshort, hplayer, .inr ⟨sid, k, hgrow sid k hk, hlog⟩⟩
    · rw [List.mem_singleton.mp hu]
      exact ⟨hlogin.short, hsome, .inr ⟨_, l, (hlive _).trans (if_pos rfl), hlogin⟩⟩

/-- An accepted login starts its session. -/
theorem Inv.begin (h : Inv e w) (id : UInt32) {uid : UInt64} (head : TcpHead)
    (hshort : uid.toNat < 2 ^ 32) (hl : Legible e.data w.store uid)
    (hsome : (w.server.players.getPlayer uid).isSome = true) :
    Inv e ({ w with loggedIn := w.loggedIn ++ [uid] }.begin e id (.login uid head)) := by
  obtain ⟨s, hstart, hsession, hstate⟩ := start_login e.svrId uid
  have hlogin : Login ⟨id, .login uid head, s⟩ uid := ⟨⟨head, rfl⟩, hshort, hsession⟩
  have hself : (w.sessions ++ [some ⟨id, .login uid head, s⟩])[w.sessions.length]?.join =
      some ⟨id, .login uid head, s⟩ := (join_append _ _ _).trans (if_pos rfl)
  rw [World.begin, Job.handler, hstart]
  exact (h.enter hlogin hsome).send ⟨_, uid, hself, hlogin, hl, hstate, rfl⟩ h.unsent

/-- What the database keeps, keeps the flags. -/
theorem Settled.keeps {c : Codec DbInfo} {st st' : Store} {live : Nat → Option Live} {uid : UInt64}
    (hu : uid.toNat < 2 ^ 32) (hk : Keeps c st st') (h : Settled c st live uid) :
    Settled c st' live uid := by
  obtain honline | hlogin := h
  · exact .inl (hk.online uid hu honline)
  · exact .inr hlogin

/-- The database handles a request and answers its session. -/
theorem Inv.handle (hd : Generated e.data) (h : Inv e w) {i sid : Nat} {r : Request}
    (hi : w.net[i]? = some ⟨sid, .request r⟩) {a : Answer} (ha : answer w.store r = a) :
    Inv e { w with store := a.store, net := w.net.set i ⟨sid, .reply a.reply⟩ } := by
  obtain ⟨htaken, hset⟩ := getElem?_perm hi
  obtain ⟨hkeeps, hserved⟩ := (h.served.perm htaken).handle hd ha
  refine ⟨h.players, h.internal, hserved.perm (hset _).symm, fun uid hu => ?_⟩
  obtain ⟨hshort, hsome, hsettled⟩ := h.present uid hu
  exact ⟨hshort, hsome, hsettled.keeps hshort hkeeps⟩

/-- The message of a login is taken, and the login goes on or ends with its flag stored. -/
theorem Inv.take (h : Inv e w) {i : Nat} {m : Sessions.Msg} (hi : w.net[i]? = some m) {l : Live}
    (hl : w.live m.sid = some l) {uid : UInt64} (hlogin : Login l uid) {o : Option Live}
    (ho : ∀ k, o = some k → Login k uid)
    (honline : o = none → storedOnline e.data w.store uid = true) :
    Inv e { w with net := w.net.eraseIdx i, sessions := w.sessions.set m.sid o } := by
  have hself : (w.sessions.set m.sid o)[m.sid]?.join = o := (join_set hl o _).trans (if_pos rfl)
  have hother : ∀ j, j ≠ m.sid → (w.sessions.set m.sid o)[j]?.join = w.live j :=
    fun j hj => (join_set hl o j).trans (if_neg hj)
  have htaken := h.served.perm (getElem?_perm hi).1
  refine ⟨h.players, h.internal, htaken.take hother fun k hk => ⟨uid, ho k (hself.symm.trans hk)⟩,
    fun u hu => ?_⟩
  obtain ⟨hshort, hsome, hflag | ⟨j, k, hk, hlog⟩⟩ := h.present u hu
  · exact ⟨hshort, hsome, .inl hflag⟩
  · refine ⟨hshort, hsome, ?_⟩
    by_cases hj : j = m.sid
    · subst hj
      cases hl.symm.trans hk
      obtain rfl := hlog.unique hlogin
      cases o with
      | none => exact .inl (honline rfl)
      | some k => exact .inr ⟨m.sid, k, hself, ho k rfl⟩
    · exact .inr ⟨j, k, (hother j hj).trans hk, hlog⟩

/-- A login goes on with the answer it waits for. -/
theorem Inv.resumed (hd : Generated e.data) (h : Inv e w) {i sid : Nat} {r : Reply}
    (hi : w.net[i]? = some ⟨sid, .reply r⟩) {l : Live} (hl : w.live sid = some l)
    (hredo : ¬ Exhausts l.data r) :
    Inv e ({ w with net := w.net.eraseIdx i }.resumed e sid l r) := by
  obtain ⟨l', uid, hl', hlogin, hlegible, hdue⟩ := h.served.due _ (List.mem_of_getElem? hi)
  cases hl.symm.trans hl'
  obtain ⟨head, hjob⟩ := hlogin.job
  have hhandler : l.job.handler e.svrId = Sessions.handlerLogin e.svrId uid := by
    rw [hjob, Job.handler]
  rw [World.resumed, hhandler]
  obtain ⟨s', q, hproc, hsession, hstate, hsave⟩ | ⟨hproc, honline⟩ :=
    process_login hd e.svrId hlogin.session hdue hredo
  · have hnext : Login ⟨l.id, l.job, s'⟩ uid := ⟨hlogin.job, hlogin.short, hsession⟩
    have hself : (w.sessions.set sid (some ⟨l.id, l.job, s'⟩))[sid]?.join =
        some ⟨l.id, l.job, s'⟩ := (join_set hl _ _).trans (if_pos rfl)
    have hnew : sid ∉ (w.net.eraseIdx i).map Msg.sid :=
      (List.nodup_cons.mp (h.served.perm (getElem?_perm hi).1).nodup).1
    have htaken := h.take hi hl hlogin (o := some ⟨l.id, l.job, s'⟩)
      (fun k hk => Option.some.inj hk ▸ hnext) fun hnone => (nomatch hnone)
    rw [hproc]
    exact htaken.send ⟨_, uid, hself, hnext, hlegible, hstate, hsave⟩ hnew
  · have htaken := h.take hi hl hlogin (o := none) (fun k hk => (nomatch hk)) fun _ => honline
    have hnil : w.net.eraseIdx i ++ sentBy sid [] = w.net.eraseIdx i := List.append_nil _
    rw [hproc]
    refine Inv.ended ?_ l (isSaved r)
    rw [← hnil] at htaken
    exact htaken

/-- Every step of a patient run that loses no player keeps the invariant. -/
theorem step_inv (hd : Generated e.data) {ev : Event} (h : Inv e w) (hpatient : Patient w ev)
    (hkept : Kept e w ev) (hs : Step e w ev w') : Inv e w' := by
  rw [Step] at hs
  cases ev with
  | client head data now =>
    have hgenuine : ∀ uid ∈ genuine e.codec data now,
        Legible e.data w.store uid ∧ KickFits e.codec w.server head uid := hkept
    obtain ⟨hplayers, hnew⟩ := client_players h.players fun uid hu => (hgenuine uid hu).2
    have hserver := h.server hplayers
    simp only [step] at hs
    cases hwaiting : (HallSvr.onClientMessage e.codec w.server head data now).waiting with
    | none =>
      rw [hwaiting] at hs
      cases hs
      exact hserver
    | some r =>
      obtain ⟨id, uid⟩ := r
      obtain ⟨hgen, hshort, hsome⟩ := hnew id uid hwaiting
      rw [hwaiting] at hs
      cases hs
      exact hserver.begin id head hshort (hgenuine uid hgen).1 hsome
  | offline logicIndex =>
    cases hs
    have hnone : w.server.players.getPlayer logicIndex = none := hkept
    have hsame : HallSvr.onClientOffline e.codec w.server logicIndex = w.server := by
      rw [HallSvr.onClientOffline, HallSvr.playerLogout, hnone]
    rw [hsame]
    exact h
  | internal =>
    simp only [step, h.internal] at hs
    cases hs
  | handle i =>
    simp only [step] at hs
    split at hs
    · next sid r hi =>
      cases hs
      exact h.handle hd hi rfl
    · cases hs
  | deliver i =>
    simp only [step] at hs
    split at hs
    · next sid r hi =>
      obtain ⟨l, uid, hl, -⟩ := h.served.due _ (List.mem_of_getElem? hi)
      have hlive : ({ w with net := w.net.eraseIdx i }).live sid = some l := hl
      rw [hlive] at hs
      cases hs
      exact h.resumed hd hi hl (hpatient _ hi l hl)
    · cases hs
  | fetch =>
    simp only [step] at hs
    split at hs
    · cases hs
    · cases hs
      exact h.server (.of_eq h.players rfl)

/-- In a run without a logout for good, whoever has logged in is marked and has a player once nothing
is on its way. -/
theorem run_online_agrees (e : Env) (hd : Generated e.data) (conf : HallSvr.Conf)
    (tables : UInt64 → UInt64 → Option Row) (es : List Event) (w : World)
    (hrun : Trace.Run (Step e) (fun w ev => Patient w ev ∧ Kept e w ev)
      (World.initial conf tables) es w)
    (hq : Quiescent w) (uid : UInt64) (hu : uid ∈ w.loggedIn) :
    storedOnline e.data w.store uid = true ↔ (w.server.players.getPlayer uid).isSome = true := by
  have hinv := hrun.invariant (Inv e) (initial_inv e conf tables)
    fun _ _ _ hi hg hs => step_inv hd hi hg.1 hg.2 hs
  obtain ⟨-, hsome, honline | ⟨sid, l, hlive, -⟩⟩ := hinv.present uid hu
  · exact iff_of_true honline hsome
  · cases hsid : w.sessions[sid]? with
    | none =>
      rw [World.live, hsid] at hlive
      cases hlive
    | some o =>
      rw [World.live, hsid] at hlive
      have hgone := hq.sessions o (List.mem_of_getElem? hsid)
      cases o with
      | none => cases hlive
      | some l => cases hgone

/-! ### A player logs in and disconnects -/

instance (s : Sessions.Session DbInfo) : ∀ r, Decidable (Exhausts s r)
  | .save _ => inferInstanceAs (Decidable (_ ∧ _))
  | .get _ => inferInstanceAs (Decidable False)

instance (s : Sessions.Session DbInfo) : ∀ b, Decidable (Cuts s b)
  | .reply r => inferInstanceAs (Decidable (Exhausts s r))
  | .request _ => inferInstanceAs (Decidable False)

instance (w : World) : ∀ ev, Decidable (Patient w ev)
  | .deliver i => inferInstanceAs (Decidable (∀ m ∈ w.net[i]?, ∀ l ∈ w.live m.sid, ¬ Cuts l.data m.body))
  | .client .. | .offline _ | .internal | .handle _ | .fetch => inferInstanceAs (Decidable True)

instance (c : Codec DbInfo) (st : Store) (uid : UInt64) : Decidable (Legible c st uid) :=
  decidable_of_iff
    ((∀ row ∈ st.row (uidKey (DbKey.num .baseInfo) uid),
        (c.parse .baseInfo row.blob).isSome = true) ∧
      ∀ row ∈ st.row (uidKey (DbKey.num .moneyInfo) uid),
        (c.parse .moneyInfo row.blob).isSome = true)
    ⟨fun h k => match k with | .baseInfo => h.1 | .moneyInfo => h.2, fun h => ⟨h _, h _⟩⟩

instance (c : HallSvr.Codec) (v : Server) (head : TcpHead) (uid : UInt64) :
    Decidable (KickFits c v head uid) :=
  inferInstanceAs (Decidable (∀ p ∈ v.players.getPlayer uid, _ ∨ _))

instance (e : Env) (w : World) : ∀ ev, Decidable (Kept e w ev)
  | .offline logicIndex => inferInstanceAs (Decidable (w.server.players.getPlayer logicIndex = none))
  | .client _ data now => Option.decidableForallMem (genuine e.codec data now)
  | .internal | .handle _ | .deliver _ | .fetch => inferInstanceAs (Decidable True)

theorem quiescent_iff (w : World) : Quiescent w ↔ w.net.isEmpty = true ∧
    w.sessions.all Option.isNone = true ∧ w.server.sessions.objs.used = ∅ ∧ w.internal = [] ∧
    w.server.msgPipe.items = [] ∧ w.server.sc.items = [] := by
  rw [List.isEmpty_iff, List.all_eq_true]
  exact ⟨fun h => ⟨h.net, h.sessions, h.objs, h.internal, h.msgPipe, h.sc⟩,
    fun ⟨h₁, h₂, h₃, h₄, h₅, h₆⟩ => ⟨h₁, h₂, h₃, h₄, h₅, h₆⟩⟩

instance (w : World) : Decidable (Quiescent w) := decidable_of_iff' _ (quiescent_iff w)

def sampleEnv : Env where
  codec := HallSvr.sampleCodec
  data := wireData
  svrId := 1
  loginOk money :=
    let body := Wire.putField 1 8 (some 0) ++ Wire.putField 10 16 (some money.toNat)
    106 :: Wire.put 1 body.length ++ body

def sampleWorld : World := World.initial HallSvr.sampleConf fun _ _ => none

def loginEvents : List Event :=
  [.client (HallSvr.sampleHead 1 1000) HallSvr.loginBytes 2000, .handle 0, .deliver 0, .handle 0,
    .deliver 0, .fetch, .fetch]

theorem run_online_agrees_login :
    ∃ w, Trace.Run (Step sampleEnv) (fun w ev => Patient w ev ∧ Kept sampleEnv w ev) sampleWorld
      loginEvents w ∧ Quiescent w ∧ (7 : UInt64) ∈ w.loggedIn ∧
      (storedOnline sampleEnv.data w.store 7 = true ↔
        (w.server.players.getPlayer 7).isSome = true) := by
  obtain ⟨w, hrun, hq, hlogged⟩ := Trace.exists_run_of_exec (step sampleEnv)
    (fun w ev => Patient w ev ∧ Kept sampleEnv w ev) sampleWorld loginEvents
    (fun w => Quiescent w ∧ (7 : UInt64) ∈ w.loggedIn) (by decide +kernel)
  exact ⟨w, hrun, hq, hlogged, run_online_agrees sampleEnv wireData_generated HallSvr.sampleConf
    (fun _ _ => none) loginEvents w hrun hq 7 hlogged⟩

/-- The player disconnects, and its flag stays. -/
theorem flag_outlives_player :
    ∃ es w, Trace.Run (Step sampleEnv) Patient sampleWorld es w ∧ Quiescent w ∧
      (7 : UInt64) ∈ w.loggedIn ∧ storedOnline sampleEnv.data w.store 7 = true ∧
      w.server.players.getPlayer 7 = none := by
  obtain ⟨w, hrun, hend⟩ := Trace.exists_run_of_exec (step sampleEnv) Patient sampleWorld
    (loginEvents ++ [Event.offline 7])
    (fun w => Quiescent w ∧ (7 : UInt64) ∈ w.loggedIn ∧
      storedOnline sampleEnv.data w.store 7 = true ∧ w.server.players.getPlayer 7 = none)
    (by decide +kernel)
  exact ⟨_, w, hrun, hend⟩

end OnlineFlag
