import Dsf4g.Lib.Names
import Dsf4g.Lib.Trace
import Dsf4g.Tables

/-!
# Responses and the sessions that asked

`src/common/session_mng.cpp`, `LogicSvr::OnServerMessage` and `LogicSvr::Exit` of the
logic servers. A request to another server carries the id of its session, and the
response brings the id back. Ids come from a counter that a new process sets to
the largest id it restored, so an id can be given to a second session while a
response to the first is still under way.
-/
namespace SessionIds

open Base HandOver

structure PBSession (R : Type) where
  sessionId : UInt32
  msgId : UInt32
  updateTime : UInt32
  /-- The fields that the session manager does not read. -/
  rest : R
  deriving Inhabited

variable {R : Type}

abbrev Session (R : Type) := HandOver.Session (PBSession R)

abbrev Manager (R : Type) := IdTable (Session R)

def sessionId (x : Session R) : UInt32 := x.pb.sessionId

/-! ## `SessionManager` -/

/-- `CreateSession`, with the position of the new session. A position taken before the search for
an id fails stays taken. -/
def createSession [Inhabited R] (m : Manager R) (msgId now : UInt32) : Manager R × Option Nat :=
  match m.objs.malloc with
  | none => (m, none)
  | some (pos, objs) =>
    match HallSvr.SessionManager.nextId m.index 10 m.curMaxId with
    | (none, cur) => (⟨⟨objs, m.index⟩, cur⟩, none)
    | (some id, cur) =>
      let made := objs.modify pos fun x =>
        { x with pb := { x.pb with sessionId := id, msgId := msgId, updateTime := now } }
      (⟨⟨made, Function.update m.index id (some pos)⟩, cur &&& 0xfffffff⟩, some pos)

def getSession (m : Manager R) (id : UInt32) : Option Nat :=
  (m.index id).bind fun pos => (m.objs.get pos).map fun _ => pos

def releaseSession (m : Manager R) (id : UInt32) : Manager R :=
  match m.index id with
  | none => m
  | some pos => { m with objs := m.objs.free pos, index := Function.update m.index id none }

/-! ### The hall server's client side -/

section HallSide

variable (uid : R → UInt32) (head : { bs : List UInt8 // bs.length = tcpHeadLen } → TcpHead)

/-- What the client side of the hall server uses of a session. -/
def hallSession (x : Session R) : HallSvr.Session :=
  ⟨x.pb.sessionId, x.pb.msgId, uid x.pb.rest, head x.head⟩

def hallManager (m : Manager R) : HallSvr.SessionManager :=
  ⟨m.objs.map (hallSession uid head), m.index, m.curMaxId⟩

variable (m : Manager R) (id : UInt32)

theorem hall_getSession : (hallManager uid head m).getSession id =
    (getSession m id).map fun pos => hallSession uid head (m.objs.pool pos) := by
  have hindex : (hallManager uid head m).index id = m.index id := rfl
  rw [HallSvr.SessionManager.getSession, getSession, hindex]
  cases m.index id with
  | none => rfl
  | some pos =>
    dsimp only [Option.bind_some, hallManager]
    rw [ObjectMng.map_get, ObjectMng.get]
    split <;> rfl

theorem hall_releaseSession : (hallManager uid head m).releaseSession id =
    hallManager uid head (releaseSession m id) := by
  have hindex : (hallManager uid head m).index id = m.index id := rfl
  rw [HallSvr.SessionManager.releaseSession, releaseSession, hindex]
  cases m.index id with
  | none => rfl
  | some pos =>
    dsimp only [hallManager]
    rw [ObjectMng.map_free]

/-- The client side of the hall server works on this manager. -/
theorem hall_createSession [Inhabited R] (huid : uid default = 0)
    (hhead : head (default : Session R).head = default) (msgId now : UInt32) :
    (hallManager uid head m).createSession msgId =
      ⟨hallManager uid head (createSession m msgId now).1, (createSession m msgId now).2⟩ := by
  have hdefault : hallSession uid head (default : Session R) = default := by
    rw [hallSession, hhead]
    exact congrArg (fun u => (⟨0, 0, u, default⟩ : HallSvr.Session)) huid
  have hmalloc := ObjectMng.map_malloc (hallSession uid head) hdefault m.objs
  simp only [HallSvr.SessionManager.createSession, createSession, hallManager, hmalloc]
  cases m.objs.malloc with
  | none => rfl
  | some r =>
    dsimp only [Option.map_some]
    cases HallSvr.SessionManager.nextId m.index 10 m.curMaxId with
    | mk found cur =>
      cases found with
      | none => rfl
      | some new =>
        have hfill : ∀ x : Session R, hallSession uid head
            { x with pb := { x.pb with sessionId := new, msgId := msgId, updateTime := now } } =
            { hallSession uid head x with sessionId := new, msgId := msgId } := fun _ => rfl
        dsimp only
        rw [ObjectMng.map_modify _ hfill]

end HallSide

def sessionTimeout : UInt32 := 5

def checkTimeOut (o : Order) (m : Manager R) (now : UInt32) : Manager R :=
  (((o.list m.objs.used).filter fun pos =>
      (m.objs.pool pos).pb.updateTime + sessionTimeout ≤ now).map fun pos =>
    sessionId (m.objs.pool pos)).foldl releaseSession m

/-- What a handler does with its session until `Process` returns: what it stores there, how many
requests it sends to other servers, whether it sets the update time, and whether it is done. -/
structure Handled (R : Type) where
  rest : R
  head : { bs : List UInt8 // bs.length = tcpHeadLen }
  asks : Nat
  touched : Bool
  done : Bool

/-- What the handler stores in the session at a position. -/
def Handled.stored (h : Handled R) (now : UInt32) (x : Session R) : Session R where
  pb := { x.pb with updateTime := if h.touched then now else x.pb.updateTime, rest := h.rest }
  head := h.head

def process (m : Manager R) (pos : Nat) (now : UInt32) (h : Handled R) : Manager R :=
  let m' : Manager R := { m with objs := m.objs.modify pos (h.stored now) }
  if h.done then releaseSession m' (sessionId (m'.objs.pool pos)) else m'

/-! ## The server and its messages -/

/-- Where a message is: a request on its way, its response, or the response in the buffer that the
proxy keeps for a server it has no connection to. -/
inductive Leg where
  | request | response | reserved
  deriving DecidableEq, Repr

/-- A request or its response. `asker` is no field of the message: it records which session sent
the request, counted in the order of their creation. -/
structure Message where
  leg : Leg
  sessionId : UInt32
  asker : Nat
  deriving DecidableEq, Repr

/-- A session resumed with a response, and the one that had sent the request. -/
structure Resumed where
  session : Nat
  asker : Nat
  deriving DecidableEq, Repr

/-- A logic server, the segments of its host, and the messages it exchanges with other servers.
`owner` says which session is in a position, `stored` which ones were stored at the last exit. -/
structure World (R : Type) where
  mng : Manager R
  segments : Segments
  exited : Bool
  net : List Message
  owner : Nat → Nat
  created : Nat
  stored : List Nat
  resumed : List Resumed

inductive Event (R : Type) where
  /-- A message from a client, a request from a server or an internal message is handled. -/
  | create (msgId now : UInt32) (h : Handled R)
  | answer (i : Nat)
  /-- The proxy puts a response aside. -/
  | reserve (i : Nat)
  | lose (i : Nat)
  /-- `OnServerMessage` with a response. -/
  | deliver (i : Nat) (now : UInt32) (h : Handled R)
  | checkTimeOut (o : Order) (now : UInt32)
  /-- `Exit`, again and again when it runs in the handler of `SIGSEGV`. -/
  | exit (o : Order)
  /-- A new process starts. When the old one had not exited, it has crashed. -/
  | start (o : Order)

/-- `Process` on the session at a position, and the requests it sends. -/
def World.process (w : World R) (pos : Nat) (now : UInt32) (h : Handled R) : World R :=
  { w with
    mng := SessionIds.process w.mng pos now h
    net := w.net ++
      List.replicate h.asks ⟨.request, sessionId (w.mng.objs.pool pos), w.owner pos⟩ }

def World.own (w : World R) (m : Manager R) (pos : Nat) : World R :=
  { w with mng := m, owner := Function.update w.owner pos w.created, created := w.created + 1 }

def World.create [Inhabited R] (w : World R) (msgId now : UInt32) (h : Handled R) : World R :=
  match createSession w.mng msgId now with
  | (m, none) => { w with mng := m }
  | (m, some pos) => (w.own m pos).process pos now h

def World.resume (w : World R) (pos asker : Nat) : World R :=
  { w with resumed := w.resumed ++ [⟨w.owner pos, asker⟩] }

/-- `OnServerMessage` with a response. -/
def World.onServerMessage (w : World R) (msg : Message) (now : UInt32) (h : Handled R) : World R :=
  match getSession w.mng msg.sessionId with
  | none => w
  | some pos => (w.resume pos msg.asker).process pos now h

def World.exit (c : Codec (PBSession R)) (key : Nat) (o : Order) (w : World R) : World R :=
  let r := release c o w.mng.objs key w.segments
  { w with
    segments := r.segments
    exited := true
    stored := (o.list w.mng.objs.used).map w.owner }

/-- `Init` in `InitLogic`. Restored sessions go to the last positions first. -/
def World.start [Inhabited R] (c : Codec (PBSession R)) (size : UInt32) (key : Nat) (o : Order)
    (w : World R) : Option (World R) :=
  let r := SessionManager.init c PBSession.sessionId o size key w.segments
  r.2.map fun m =>
    { w with
      mng := m
      segments := r.1
      exited := false
      owner := fun pos => w.stored.getD (size.toNat - 1 - pos) 0 }

def World.route (w : World R) (i : Nat) (src dst : Leg) : Option (World R) :=
  match w.net[i]? with
  | none => none
  | some msg =>
    if msg.leg = src then some { w with net := w.net.set i { msg with leg := dst } } else none

def World.drop (w : World R) (i : Nat) : World R := { w with net := w.net.eraseIdx i }

def next [Inhabited R] (c : Codec (PBSession R)) (size : UInt32) (key : Nat) (w : World R) :
    Event R → Option (World R)
  | .create msgId now h => if w.exited then none else some (w.create msgId now h)
  | .answer i => w.route i .request .response
  | .reserve i => w.route i .response .reserved
  | .lose i => some (w.drop i)
  | .deliver i now h =>
    match w.net[i]? with
    | none => none
    | some msg =>
      if w.exited ∨ msg.leg = .request then none
      else some ((w.drop i).onServerMessage msg now h)
  | .checkTimeOut o now =>
    if w.exited then none else some { w with mng := SessionIds.checkTimeOut o w.mng now }
  | .exit o => some (w.exit c key o)
  | .start o => w.start c size key o

def initial [Inhabited R] (size : UInt32) : World R where
  mng := ⟨⟨.init size.toNat, fun _ => none⟩, 0⟩
  segments := fun _ => none
  exited := false
  net := []
  owner := fun _ => 0
  created := 0
  stored := []
  resumed := []

/-! ## The manager -/

/-- What is found under an id is used and carries the id, and every used session that has an id is
found under it. -/
structure Sound (m : Manager R) : Prop where
  valid : m.objs.Valid
  indexed : ∀ id pos, m.index id = some pos → pos ∈ m.objs.used ∧ sessionId (m.objs.pool pos) = id
  covered : ∀ pos ∈ m.objs.used, sessionId (m.objs.pool pos) ≠ 0 →
    m.index (sessionId (m.objs.pool pos)) = some pos

theorem getSession_eq_some {m : Manager R} {id : UInt32} {pos : Nat}
    (h : getSession m id = some pos) : m.index id = some pos := by
  obtain ⟨pos', hi, hp⟩ := Option.bind_eq_some_iff.mp h
  obtain ⟨x, -, rfl⟩ := Option.map_eq_some_iff.mp hp
  exact hi

/-- The ids that are tried behind the first. -/
theorem add_ofNat_succ (cur : UInt32) (j : Nat) :
    cur + 1 + 1 + UInt32.ofNat j = cur + 1 + UInt32.ofNat (j + 1) := by
  rw [UInt32.ofNat_add, UInt32.add_assoc, UInt32.add_comm 1]
  rfl

theorem nextId_eq_some {index : UInt32 → Option Nat} {n : Nat} {cur id cur' : UInt32}
    (h : HallSvr.SessionManager.nextId index n cur = (some id, cur')) :
    ∃ k < n, (∀ j < k, index (cur + 1 + UInt32.ofNat j) ≠ none) ∧ index id = none ∧
      id = cur + 1 + UInt32.ofNat k := by
  induction n generalizing cur with
  | zero => cases h
  | succ n ih =>
    simp only [HallSvr.SessionManager.nextId] at h
    split at h
    · next hfree =>
      cases h
      exact ⟨0, Nat.succ_pos n, fun j hj => absurd hj (Nat.not_lt_zero j), hfree,
        (UInt32.add_zero _).symm⟩
    · next hused =>
      obtain ⟨k, hk, hall, hfree, hid⟩ := ih h
      refine ⟨k + 1, Nat.succ_lt_succ hk, fun j hj => ?_, hfree, hid.trans (add_ofNat_succ cur k)⟩
      cases j with
      | zero =>
        intro hn
        have hzero : cur + 1 + UInt32.ofNat 0 = cur + 1 := UInt32.add_zero _
        exact hused (hzero ▸ hn)
      | succ j =>
        rw [← add_ofNat_succ cur j]
        exact hall j (Nat.lt_of_succ_lt_succ hj)

/-- The search gives up when all ids it may try are taken. -/
theorem nextId_eq_none {index : UInt32 → Option Nat} {n : Nat} {cur cur' : UInt32}
    (h : HallSvr.SessionManager.nextId index n cur = (none, cur')) :
    ∀ k < n, index (cur + 1 + UInt32.ofNat k) ≠ none := by
  induction n generalizing cur with
  | zero => exact fun k hk => absurd hk (Nat.not_lt_zero k)
  | succ n ih =>
    simp only [HallSvr.SessionManager.nextId] at h
    split at h
    · cases h
    · next hused =>
      intro k hk
      cases k with
      | zero =>
        have hzero : cur + 1 + UInt32.ofNat 0 = cur + 1 := UInt32.add_zero _
        rw [hzero]
        exact hused
      | succ k =>
        rw [← add_ofNat_succ cur k]
        exact ih h k (Nat.lt_of_succ_lt_succ hk)

section Managers

variable [Inhabited R]

/-- What `CreateSession` can do: nothing when no position is free, lose a position when no id is
found, and else put a new session under the first id that is free. -/
theorem createSession_cases (m : Manager R) (msgId now : UInt32) :
    createSession m msgId now = (m, none) ∨
    (∃ pos objs cur, m.objs.malloc = some (pos, objs) ∧
      createSession m msgId now = (⟨⟨objs, m.index⟩, cur⟩, none)) ∨
    ∃ pos objs k id cur, m.objs.malloc = some (pos, objs) ∧ k < 10 ∧
      (∀ j < k, m.index (m.curMaxId + 1 + UInt32.ofNat j) ≠ none) ∧ m.index id = none ∧
      id = m.curMaxId + 1 + UInt32.ofNat k ∧
      createSession m msgId now =
        (⟨⟨objs.modify pos fun x =>
            { x with pb := { x.pb with sessionId := id, msgId := msgId, updateTime := now } },
          Function.update m.index id (some pos)⟩, cur⟩, some pos) := by
  cases hm : m.objs.malloc with
  | none =>
    refine .inl ?_
    simp only [createSession, hm]
  | some r =>
    obtain ⟨pos, objs⟩ := r
    cases hn : HallSvr.SessionManager.nextId m.index 10 m.curMaxId with
    | mk found cur =>
      cases found with
      | none =>
        refine .inr (.inl ⟨pos, objs, cur, rfl, ?_⟩)
        simp only [createSession, hm, hn]
      | some id =>
        obtain ⟨k, hk, hall, hfree, hid⟩ := nextId_eq_some hn
        refine .inr (.inr ⟨pos, objs, k, id, cur &&& 0xfffffff, rfl, hk, hall, hfree, hid, ?_⟩)
        simp only [createSession, hm, hn]

end Managers

section Sound

variable {m : Manager R}

/-- A used session that no id leads to has the id zero. -/
theorem sound_iff_kept : Sound m ↔ Kept (fun x => sessionId x = 0) sessionId m.toTable := by
  constructor
  · intro h
    refine ⟨h.valid, h.indexed, fun pos hused => ?_⟩
    by_cases hid : sessionId (m.objs.pool pos) = 0
    · exact .inr hid
    · exact .inl (h.covered pos hused hid)
  · intro h
    exact ⟨h.valid, h.found, fun pos hused hid => (h.lost pos hused).resolve_right hid⟩

theorem Sound.leak [Inhabited R] (h : Sound m) {pos : Nat} {objs : ObjectMng (Session R)}
    (hm : m.objs.malloc = some (pos, objs)) (cur : UInt32) :
    Sound (⟨⟨objs, m.index⟩, cur⟩ : Manager R) :=
  sound_iff_kept.mpr ((sound_iff_kept.mp h).leak hm rfl)

theorem Sound.make [Inhabited R] (h : Sound m) {pos : Nat} {objs : ObjectMng (Session R)}
    (hm : m.objs.malloc = some (pos, objs)) {id : UInt32} (hid : m.index id = none)
    {g : Session R → Session R} (hg : ∀ x, sessionId (g x) = id) (cur : UInt32) :
    Sound (⟨⟨objs.modify pos g, Function.update m.index id (some pos)⟩, cur⟩ : Manager R) :=
  sound_iff_kept.mpr ((sound_iff_kept.mp h).make hm hid hg)

theorem Sound.modify (h : Sound m) (pos : Nat) {g : Session R → Session R}
    (hg : ∀ x, sessionId (g x) = sessionId x) :
    Sound { m with objs := m.objs.modify pos g } := by
  refine sound_iff_kept.mpr ((sound_iff_kept.mp h).modify pos hg fun x hx => ?_)
  rw [hg, hx]

/-- A release takes one id. -/
theorem Sound.release (h : Sound m) (id : UInt32) : Sound (releaseSession m id) := by
  cases hi : m.index id with
  | none =>
    simp only [releaseSession, hi]
    exact h
  | some pos =>
    simp only [releaseSession, hi]
    exact sound_iff_kept.mpr ((sound_iff_kept.mp h).erase hi)

end Sound

/-! ## Restarts -/

section Restarts

theorem rebuild_sound (o : Order) {objs : ObjectMng (Session R)} (hv : objs.Valid)
    (hid : ∀ i ∈ objs.used, ∀ j ∈ objs.used, sessionId (objs.pool i) = sessionId (objs.pool j) →
      sessionId (objs.pool i) ≠ 0 → i = j) (cur : UInt32) :
    Sound (⟨⟨objs, rebuild (fun x : Session R => x.pb.sessionId) o objs⟩, cur⟩ : Manager R) := by
  have hfold := foldl_index_mem (fun i => sessionId (objs.pool i)) (o.list objs.used) fun _ => none
  refine ⟨hv, fun id i hi => ?_, fun i hi hne => ?_⟩
  · obtain ⟨q, hq, hg, hf⟩ | ⟨-, hf⟩ := hfold id
    · obtain rfl := Option.some.inj (hf.symm.trans hi)
      exact ⟨(o.mem _ q).mp hq, hg⟩
    · exact absurd (hf.symm.trans hi) (by simp)
  · obtain ⟨q, hq, hg, hf⟩ | ⟨hnone, -⟩ := hfold (sessionId (objs.pool i))
    · have hqi : i = q := hid i hi q ((o.mem _ q).mp hq) hg.symm hne
      exact hf.trans (by rw [hqi])
    · exact absurd rfl (hnone i ((o.mem _ i).mpr hi))

variable [Inhabited R]

/-- A restored object was in the position that the order of storing names. -/
theorem restored_from (o : Order) {m m' : ObjectMng (Session R)} {size : Nat}
    (h : Filled (ObjectMng.init size) m' ((o.list m.used).map m.pool)) {pos : Nat}
    (hpos : pos ∈ m'.used) :
    pos < size ∧ ∃ old ∈ m.used, (o.list m.used)[size - 1 - pos]? = some old ∧
      m'.pool pos = m.pool old := by
  obtain ⟨ps, hfree, hused, hpool⟩ := h.placed
  have hmem : pos ∈ ps := by
    obtain hinit | hmem := (hused pos).mp hpos
    · exact absurd hinit (Finset.notMem_empty pos)
    · exact hmem
  obtain ⟨i, hi, rfl⟩ := List.getElem_of_mem hmem
  have hlen : ps.length ≤ size := by
    have := congrArg List.length hfree
    simp only [ObjectMng.init, List.length_reverse, List.length_range, List.length_append] at this
    omega
  have hdown : ps[i] = size - 1 - i := by
    have hget : (List.range size).reverse[i]? = some ps[i] := by
      have : (ObjectMng.init size : ObjectMng (Session R)).freeList[i]? = some ps[i] := by
        rw [hfree, List.getElem?_append_left hi, List.getElem?_eq_getElem hi]
      exact this
    rw [List.getElem?_reverse (by rw [List.length_range]; omega), List.length_range,
      List.getElem?_range (by omega)] at hget
    exact (Option.some.inj hget).symm
  have hidx : size - 1 - ps[i] = i := by omega
  have hx := congrArg (fun l => l[i]?) hpool
  simp only [List.getElem?_map, List.getElem?_eq_getElem hi, Option.map_some] at hx
  rw [hidx]
  cases hold : (o.list m.used)[i]? with
  | none =>
    rw [hold] at hx
    cases hx
  | some old =>
    rw [hold] at hx
    exact ⟨by omega, old, (o.mem _ old).mp (List.mem_of_getElem? hold), rfl, Option.some.inj hx⟩

theorem Sound.restored {m : Manager R} (h : Sound m) (o o' : Order)
    {m' : ObjectMng (Session R)} {size : Nat}
    (hf : Filled (ObjectMng.init size) m' ((o.list m.objs.used).map m.objs.pool)) (cur : UInt32) :
    Sound (⟨⟨m', rebuild (fun x : Session R => x.pb.sessionId) o' m'⟩, cur⟩ : Manager R) := by
  refine rebuild_sound o' hf.valid (fun i hi j hj he hne => ?_) cur
  obtain ⟨hilt, iold, himem, higet, hipool⟩ := restored_from o hf hi
  obtain ⟨hjlt, jold, hjmem, hjget, hjpool⟩ := restored_from o hf hj
  rw [hipool] at he hne
  rw [hjpool] at he
  have hiold := h.covered iold himem hne
  have hjold := h.covered jold hjmem (he ▸ hne)
  rw [← he, hiold] at hjold
  have hidx : size - 1 - i = size - 1 - j := by
    obtain ⟨hi', hi''⟩ := List.getElem?_eq_some_iff.mp higet
    obtain ⟨hj', hj''⟩ := List.getElem?_eq_some_iff.mp hjget
    have hsame := hi''.trans ((Option.some.inj hjold).trans hj''.symm)
    exact (o.nodup m.objs.used).getElem_inj_iff.mp hsame
  omega

end Restarts

/-! ## Responses find the session that asked -/

def current (m : Manager R) (owner : Nat → Nat) (id : UInt32) : Option Nat :=
  (m.index id).map owner

/-- A message with the id is under way, and the session `asker` sent it or its request. -/
def Asked (net : List Message) (id : UInt32) (asker : Nat) : Prop :=
  ∃ msg ∈ net, msg.sessionId = id ∧ msg.asker = asker

/-- No message carries the id that `CreateSession` will find: the first of the next ten that is not
in use. Nor is it zero, which is also the id of a position that was lost. -/
def IdsClear (m : Manager R) (net : List Message) : Prop :=
  m.objs.freeList ≠ [] → ∀ k < 10,
    (∀ j < k, m.index (m.curMaxId + 1 + UInt32.ofNat j) ≠ none) →
    m.index (m.curMaxId + 1 + UInt32.ofNat k) = none →
    m.curMaxId + 1 + UInt32.ofNat k ≠ 0 ∧
      ∀ msg ∈ net, msg.sessionId ≠ m.curMaxId + 1 + UInt32.ofNat k

def CreatesClear (w : World R) : Event R → Prop
  | .create .. => IdsClear w.mng w.net
  | _ => True

def Stored (c : Codec (PBSession R)) (key : Nat) (w : World R) : Prop :=
  ∃ o : Order, w.segments key = some (segmentOf c o w.mng.objs) ∧
    w.stored = (o.list w.mng.objs.used).map w.owner

/-- What holds of the server and its messages whether it is up or down. -/
structure Good (size : UInt32) (w : World R) : Prop where
  sound : Sound w.mng
  size : w.mng.objs.size = size.toNat
  matched : Names.Matched (current w.mng w.owner) (Asked w.net)
  nonzero : ∀ msg ∈ w.net, msg.sessionId ≠ 0
  right : ∀ r ∈ w.resumed, r.session = r.asker

structure Inv (c : Codec (PBSession R)) (size : UInt32) (key : Nat) (w : World R) : Prop
    extends Good size w where
  segment : key ≠ 0 → w.segments key = none ∨ (w.exited = true ∧ Stored c key w)

theorem releaseSession_size (m : Manager R) (id : UInt32) :
    (releaseSession m id).objs.size = m.objs.size := by
  simp only [releaseSession]
  split
  · rfl
  · simp only [ObjectMng.free]
    split <;> rfl

/-- A released id finds nobody. -/
theorem current_release (m : Manager R) (owner : Nat → Nat) (id : UInt32) :
    current (releaseSession m id) owner = Function.update (current m owner) id none := by
  cases hi : m.index id with
  | none =>
    have hcur : current m owner id = none := by rw [current, hi, Option.map_none]
    simp only [releaseSession, hi]
    exact (Function.update_eq_self_iff.mpr hcur.symm).symm
  | some pos =>
    simp only [releaseSession, hi]
    funext id'
    by_cases he : id' = id
    · subst he
      simp only [current, Function.update_self, Option.map_none]
    · simp only [current, Function.update_of_ne he]

section Steps

variable {size : UInt32} {w : World R}

theorem Good.release (h : Good size w) (id : UInt32) :
    Good size { w with mng := releaseSession w.mng id } := by
  refine ⟨h.sound.release id, (releaseSession_size w.mng id).trans h.size, ?_, h.nonzero, h.right⟩
  show Names.Matched (current (releaseSession w.mng id) w.owner) (Asked w.net)
  rw [current_release]
  exact h.matched.retire id

theorem Good.checkTimeOut (h : Good size w) (o : Order) (now : UInt32) :
    Good size { w with mng := SessionIds.checkTimeOut o w.mng now } := by
  simp only [SessionIds.checkTimeOut]
  generalize ((o.list w.mng.objs.used).filter _).map _ = ids
  induction ids generalizing w with
  | nil => exact h
  | cons id ids ih => exact ih (h.release id)

/-- Handling a session leaves it under its id, until it is released. -/
theorem Good.process (h : Good size w) {pos : Nat} {id : UInt32} (hi : w.mng.index id = some pos)
    (hid : id ≠ 0) (now : UInt32) (hd : Handled R) : Good size (w.process pos now hd) := by
  have hsid : sessionId (w.mng.objs.pool pos) = id := (h.sound.indexed id pos hi).2
  have hcur : current w.mng w.owner id = some (w.owner pos) := by rw [current, hi, Option.map_some]
  have hkept : Good size { w with
      mng := { w.mng with objs := w.mng.objs.modify pos (hd.stored now) }
      net := w.net ++ List.replicate hd.asks ⟨.request, id, w.owner pos⟩ } := by
    refine ⟨h.sound.modify pos fun _ => rfl, h.size, ?_, ?_, h.right⟩
    · refine h.matched.ask hcur fun id' asker hout => ?_
      obtain ⟨msg, hmem, hmid, hmasker⟩ := hout
      obtain hmem | hmem := List.mem_append.mp hmem
      · exact .inl ⟨msg, hmem, hmid, hmasker⟩
      · obtain rfl := List.eq_of_mem_replicate hmem
        exact .inr ⟨hmid.symm, hmasker.symm⟩
    · intro msg hmem
      obtain hmem | hmem := List.mem_append.mp hmem
      · exact h.nonzero msg hmem
      · obtain rfl := List.eq_of_mem_replicate hmem
        exact hid
  simp only [World.process, SessionIds.process, hsid]
  split
  · exact hkept.release _
  · exact hkept

theorem Good.drop (h : Good size w) (i : Nat) : Good size (w.drop i) := by
  have hsub : ∀ msg ∈ w.net.eraseIdx i, msg ∈ w.net := fun msg hmem => List.mem_of_mem_eraseIdx hmem
  refine ⟨h.sound, h.size, ?_, fun msg hmem => h.nonzero msg (hsub msg hmem), h.right⟩
  refine h.matched.anti (fun _ _ _ _ hc => hc) fun id asker hout => ?_
  obtain ⟨msg, hmem, hout⟩ := hout
  exact ⟨msg, hsub msg hmem, hout⟩

theorem Good.route (h : Good size w) {i : Nat} {src dst : Leg} {w' : World R}
    (hw : w.route i src dst = some w') :
    Good size w' ∧ w'.mng = w.mng ∧ w'.owner = w.owner ∧ w'.segments = w.segments ∧
      w'.exited = w.exited ∧ w'.stored = w.stored := by
  simp only [World.route] at hw
  split at hw
  · cases hw
  · next msg hmsg =>
    split at hw
    · cases hw
      have hold : ∀ msg' ∈ w.net.set i { msg with leg := dst },
          ∃ msg₀ ∈ w.net, msg₀.sessionId = msg'.sessionId ∧ msg₀.asker = msg'.asker := by
        intro msg' hmem
        obtain hmem | rfl := List.mem_or_eq_of_mem_set hmem
        · exact ⟨msg', hmem, rfl, rfl⟩
        · exact ⟨msg, List.mem_of_getElem? hmsg, rfl, rfl⟩
      refine ⟨⟨h.sound, h.size, ?_, ?_, h.right⟩, rfl, rfl, rfl, rfl, rfl⟩
      · refine h.matched.anti (fun _ _ _ _ hc => hc) fun id asker hout => ?_
        obtain ⟨msg', hmem, rfl, rfl⟩ := hout
        exact hold msg' hmem
      · intro msg' hmem
        obtain ⟨msg₀, hmem₀, hid, -⟩ := hold msg' hmem
        exact hid ▸ h.nonzero msg₀ hmem₀
    · cases hw

/-- A response resumes the session that asked. -/
theorem Good.onServerMessage (h : Good size w) {msg : Message} (hid : msg.sessionId ≠ 0)
    (hasker : ∀ j, current w.mng w.owner msg.sessionId = some j → j = msg.asker) (now : UInt32)
    (hd : Handled R) : Good size (w.onServerMessage msg now hd) := by
  simp only [World.onServerMessage]
  split
  · exact h
  · next pos hg =>
    have hi := getSession_eq_some hg
    have hright : w.owner pos = msg.asker := by
      apply hasker
      rw [current, hi, Option.map_some]
    have hres : Good size (w.resume pos msg.asker) := by
      refine ⟨h.sound, h.size, h.matched, h.nonzero, fun r hr => ?_⟩
      obtain hr | hr := List.mem_append.mp hr
      · exact h.right r hr
      · obtain rfl := List.mem_singleton.mp hr
        exact hright
    exact hres.process hi hid now hd

variable [Inhabited R]

/-- A new session takes an id that no message carries. -/
theorem Good.create (h : Good size w) (hclear : IdsClear w.mng w.net) (msgId now : UInt32)
    (hd : Handled R) : Good size (w.create msgId now hd) := by
  obtain hfull | ⟨pos, objs, cur, hm, hleak⟩ | ⟨pos, objs, k, id, cur, hm, hk, hall, hfree, hid, hmade⟩ :=
    createSession_cases w.mng msgId now
  · simp only [World.create, hfull]
    exact h
  · have hsize : objs.size = w.mng.objs.size := by rw [(ObjectMng.malloc_eq_some hm).2]
    simp only [World.create, hleak]
    exact ⟨h.sound.leak hm cur, hsize.trans h.size, h.matched, h.nonzero, h.right⟩
  · have hsize : objs.size = w.mng.objs.size := by rw [(ObjectMng.malloc_eq_some hm).2]
    have hne : w.mng.objs.freeList ≠ [] := by
      rw [(ObjectMng.malloc_eq_some hm).1]
      exact List.cons_ne_nil _ _
    obtain ⟨hnz, hnet⟩ := hclear hne k hk hall (hid ▸ hfree)
    rw [← hid] at hnz hnet
    obtain ⟨-, -, hunused⟩ := h.sound.valid.malloc hm
    have hsound := h.sound.make hm hfree (g := fun x =>
      { x with pb := { x.pb with sessionId := id, msgId := msgId, updateTime := now } })
      (fun _ => rfl) cur
    have hown : ∀ m : Manager R, Sound m → m.objs.size = objs.size →
        m.index = Function.update w.mng.index id (some pos) → Good size (w.own m pos) := by
      intro m hm' hsize' hindex
      refine ⟨hm', hsize'.trans (hsize.trans h.size), ?_, h.nonzero, h.right⟩
      have hcur : current m (Function.update w.owner pos w.created) =
          Function.update (current w.mng w.owner) id (some w.created) := by
        funext id'
        by_cases he : id' = id
        · subst he
          simp only [current, hindex, Function.update_self, Option.map_some]
        · simp only [current, hindex, Function.update_of_ne he]
          cases hi : w.mng.index id' with
          | none => rfl
          | some i =>
            have hp : i ≠ pos := fun hp => hunused (hp ▸ (h.sound.indexed id' i hi).1)
            simp only [Option.map_some, Function.update_of_ne hp]
      show Names.Matched (current m (Function.update w.owner pos w.created)) (Asked w.net)
      rw [hcur]
      refine h.matched.issue (fun asker hout => ?_) w.created
      obtain ⟨msg, hmem, hmid, -⟩ := hout
      exact hnet msg hmem hmid
    simp only [World.create, hmade]
    exact (hown _ hsound rfl rfl).process (Function.update_self ..) hnz now hd

end Steps

section Down

variable {c : Codec (PBSession R)} {size : UInt32} {key : Nat} {w : World R}

theorem Inv.exit (h : Inv c size key w) (o : Order) : Inv c size key (w.exit c key o) := by
  refine ⟨⟨h.sound, h.size, h.matched, h.nonzero, h.right⟩, fun hkey => ?_⟩
  dsimp only [World.exit]
  cases hs : w.segments key with
  | none =>
    rw [release_absent c o w.mng.objs hkey hs]
    exact .inr ⟨rfl, o, Function.update_self .., rfl⟩
  | some bytes =>
    rw [release_present c o w.mng.objs hs]
    exact .inl (Function.update_self ..)

theorem Inv.used_card (h : Inv c size key w) : w.mng.objs.used.card ≤ size.toNat := by
  have hsub : w.mng.objs.used ⊆ Finset.range size.toNat := by
    intro pos hpos
    rw [← h.size]
    exact Finset.mem_range.mpr ((h.sound.valid.inRange pos).mp (.inr hpos))
  have hcard := Finset.card_le_card hsub
  rwa [Finset.card_range] at hcard

/-- While the server is up there is no segment. -/
theorem Inv.up (h : Inv c size key w) (hup : ¬ w.exited = true) {w' : World R}
    (hg : Good size w') (hs : w'.segments = w.segments) : Inv c size key w' := by
  refine ⟨hg, fun hkey => .inl ?_⟩
  rw [hs]
  exact (h.segment hkey).resolve_right fun hd => hup hd.1

theorem onServerMessage_segments (w : World R) (msg : Message) (now : UInt32) (hd : Handled R) :
    (w.onServerMessage msg now hd).segments = w.segments := by
  simp only [World.onServerMessage]
  split <;> rfl

/-- Only the network changes. -/
theorem Inv.route (h : Inv c size key w) {i : Nat} {src dst : Leg} {w' : World R}
    (hw : w.route i src dst = some w') : Inv c size key w' := by
  obtain ⟨hg, hmng, howner, hseg, hexited, hstored⟩ := h.toGood.route hw
  refine ⟨hg, fun hkey => ?_⟩
  simp only [Stored, hmng, howner, hseg, hexited, hstored]
  exact h.segment hkey

variable [Inhabited R]

theorem init_absent (c : Codec (PBSession R)) (o : Order) (size : UInt32) {key : Nat}
    {s : Segments} (hs : ShareMem.attach s key = none) :
    SessionManager.init c PBSession.sessionId o size key s =
      (s, some ⟨⟨.init size.toNat, rebuild (fun x : Session R => x.pb.sessionId) o (.init size.toNat)⟩,
        rebuildMax (fun x : Session R => x.pb.sessionId) o (.init size.toNat)⟩) := by
  simp only [SessionManager.init, initIds, init, hs, Option.map_some]

/-- A process that finds no segment starts without sessions. -/
theorem Inv.start_absent (h : Inv c size key w) (o : Order)
    (hs : ShareMem.attach w.segments key = none) {w' : World R}
    (hw : w.start c size key o = some w') : Inv c size key w' := by
  simp only [World.start, init_absent c o size hs, Option.map_some, Option.some.injEq] at hw
  subst hw
  have hsound : Sound (⟨⟨.init size.toNat, rebuild (fun x : Session R => x.pb.sessionId) o
      (.init size.toNat)⟩, rebuildMax (fun x : Session R => x.pb.sessionId) o (.init size.toNat)⟩ :
      Manager R) :=
    rebuild_sound o (ObjectMng.init_valid size.toNat)
      (fun i hi => absurd hi (Finset.notMem_empty i)) _
  refine ⟨⟨hsound, rfl, fun id asker j _ hj => ?_, h.nonzero, h.right⟩, fun hkey => .inl ?_⟩
  · obtain ⟨pos, hi, -⟩ := Option.map_eq_some_iff.mp hj
    exact absurd (hsound.indexed id pos hi).1 (Finset.notMem_empty pos)
  · simpa only [ShareMem.attach, if_neg hkey] using hs

/-- A process that finds the segment of the one before goes on with its sessions. -/
theorem Inv.start_stored (h : Inv c size key w) (o : Order) (hkey : key ≠ 0)
    (hs : Stored c key w) {w' : World R} (hw : w.start c size key o = some w') :
    Inv c size key w' := by
  obtain ⟨o', hseg, hstored⟩ := hs
  obtain ⟨objs, hinit, hfilled⟩ := init_filled c o' w.mng.objs size hkey hseg h.used_card
  simp only [World.start, SessionManager.init, initIds, hinit, Option.map_some,
    Option.some.injEq] at hw
  subst hw
  have hsound := h.sound.restored o' o hfilled (rebuildMax (fun x : Session R => x.pb.sessionId) o objs)
  refine ⟨⟨hsound, hfilled.size, fun id asker j hout hj => ?_, h.nonzero, h.right⟩,
    fun _ => .inl (Function.update_self ..)⟩
  obtain ⟨pos, hi, rfl⟩ := Option.map_eq_some_iff.mp hj
  obtain ⟨hused, hid⟩ := hsound.indexed id pos hi
  obtain ⟨-, old, holdused, hget, hpool⟩ := restored_from o' hfilled hused
  have hid : sessionId (w.mng.objs.pool old) = id := by
    rw [← hpool]
    exact hid
  have hne : id ≠ 0 := by
    obtain ⟨msg, hmem, rfl, -⟩ := hout
    exact h.nonzero msg hmem
  have hcur : current w.mng w.owner id = some (w.owner old) := by
    have := h.sound.covered old holdused (hid.symm ▸ hne)
    rw [hid] at this
    rw [current, this, Option.map_some]
  show w.stored.getD (size.toNat - 1 - pos) 0 = asker
  rw [hstored, List.getD_eq_getElem?_getD, List.getElem?_map, hget]
  exact h.matched id asker _ hout hcur

/-- A start restores the sessions under their ids. -/
theorem Inv.start (h : Inv c size key w) (o : Order) {w' : World R}
    (hw : w.start c size key o = some w') : Inv c size key w' := by
  by_cases hkey : key = 0
  · exact h.start_absent o (by rw [ShareMem.attach, if_pos hkey]) hw
  · obtain hs | ⟨-, hs⟩ := h.segment hkey
    · exact h.start_absent o (by rw [ShareMem.attach, if_neg hkey, hs]) hw
    · exact h.start_stored o hkey hs hw

theorem create_segments (w : World R) (msgId now : UInt32) (hd : Handled R) :
    (w.create msgId now hd).segments = w.segments := by
  simp only [World.create]
  split <;> rfl

/-- Every step with clear ids keeps the invariant. -/
theorem step_inv {e : Event R} {w' : World R} (h : Inv c size key w) (hg : CreatesClear w e)
    (hs : next c size key w e = some w') : Inv c size key w' := by
  cases e with
  | create msgId now hd =>
    simp only [next] at hs
    split at hs
    · cases hs
    · next hup =>
      cases hs
      exact h.up hup (h.toGood.create hg msgId now hd) (create_segments w msgId now hd)
  | answer i => exact h.route hs
  | reserve i => exact h.route hs
  | lose i =>
    cases hs
    exact ⟨h.toGood.drop i, h.segment⟩
  | deliver i now hd =>
    simp only [next] at hs
    split at hs
    · cases hs
    · next msg hmsg =>
      split at hs
      · cases hs
      · next hup =>
        cases hs
        have hmem := List.mem_of_getElem? hmsg
        have hgood : Good size ((w.drop i).onServerMessage msg now hd) :=
          (h.toGood.drop i).onServerMessage (h.nonzero msg hmem)
            (fun j hj => h.matched _ _ j ⟨msg, hmem, rfl, rfl⟩ hj) now hd
        exact h.up (fun hx => hup (.inl hx)) hgood (onServerMessage_segments (w.drop i) msg now hd)
  | checkTimeOut o now =>
    simp only [next] at hs
    split at hs
    · cases hs
    · next hup =>
      cases hs
      exact h.up hup (h.toGood.checkTimeOut o now) rfl
  | exit o =>
    cases hs
    exact h.exit o
  | start o => exact h.start o hs

theorem initial_inv (c : Codec (PBSession R)) (size : UInt32) (key : Nat) :
    Inv c size key (initial size) := by
  refine ⟨⟨⟨ObjectMng.init_valid _, fun _ _ h => (nomatch h), fun pos hpos => ?_⟩, rfl, ?_, ?_, ?_⟩,
    fun _ => .inl rfl⟩
  · exact absurd hpos (Finset.notMem_empty pos)
  · intro _ _ _ _ hj
    cases hj
  · intro _ hmem
    cases hmem
  · intro _ hr
    cases hr

end Down

/-- As long as no session is created under the id of a message that is still under way, every
response resumes the session that asked. -/
theorem resumed_by_asker [Inhabited R] (c : Codec (PBSession R)) (size : UInt32) (key : Nat)
    {es : List (Event R)} {w : World R}
    (h : Trace.Run (fun w e w' => next c size key w e = some w') CreatesClear (initial size) es w) :
    ∀ r ∈ w.resumed, r.session = r.asker :=
  (h.invariant (Inv c size key) (initial_inv c size key) fun _ _ _ hi hg hs =>
    step_inv hi hg hs).right

/-! A server with two positions. -/

def sampleCodec : Codec (PBSession Unit) where
  ser p := Bytes.le 4 p.sessionId.toNat ++ (Bytes.le 4 p.msgId.toNat ++
    Bytes.le 4 p.updateTime.toNat)
  parse bs :=
    some ⟨UInt32.ofNat (Bytes.ofLe (bs.take 4)), UInt32.ofNat (Bytes.ofLe ((bs.drop 4).take 4)),
      UInt32.ofNat (Bytes.ofLe ((bs.drop 4).drop 4)), ()⟩
  parse_ser p := by
    have hword : ∀ n : UInt32, UInt32.ofNat (Bytes.ofLe (Bytes.le 4 n.toNat)) = n := by
      intro n
      rw [Bytes.ofLe_le_of_lt n.toNat_lt, UInt32.ofNat_toNat]
    rw [List.take_left' (Bytes.le_length 4 _), List.drop_left' (Bytes.le_length 4 _),
      List.take_left' (Bytes.le_length 4 _), List.drop_left' (Bytes.le_length 4 _), hword, hword,
      hword]
  ser_lt p := by
    simp only [List.length_append, Bytes.le_length]
    decide

def sampleHandled (asks : Nat) : Handled Unit where
  rest := ()
  head := ⟨List.replicate tcpHeadLen 0, List.length_replicate⟩
  asks := asks
  touched := true
  done := asks = 0

def sampleNext : World Unit → Event Unit → Option (World Unit) := next sampleCodec 2 77

instance (m : Manager Unit) (net : List Message) : Decidable (IdsClear m net) :=
  inferInstanceAs (Decidable (_ → _))

instance (w : World Unit) : (e : Event Unit) → Decidable (CreatesClear w e)
  | .create .. => inferInstanceAs (Decidable (IdsClear _ _))
  | .answer .. | .reserve .. | .lose .. | .deliver .. | .checkTimeOut .. | .exit .. | .start .. =>
    inferInstanceAs (Decidable True)

/-- A response that the proxy kept while the server restarted resumes the restored session. -/
theorem resumed_by_asker_restored :
    ∃ es w, Trace.Run (fun w e w' => sampleNext w e = some w') CreatesClear (initial 2) es w ∧
      w.resumed = [⟨0, 0⟩] ∧ ∀ r ∈ w.resumed, r.session = r.asker := by
  obtain ⟨w, hrun, hres⟩ := Trace.exists_run_of_exec sampleNext CreatesClear (initial 2)
    [.create 5 100 (sampleHandled 1), .answer 0, .reserve 0, .exit ascending, .start ascending,
      .deliver 0 102 (sampleHandled 0)]
    (fun w => w.resumed = [⟨0, 0⟩]) (by decide +kernel)
  exact ⟨_, w, hrun, hres, resumed_by_asker sampleCodec 2 77 hrun⟩

/-- After a crash the counter starts over, and the response to a session of the old process resumes
the one that has its id now. -/
theorem crash_resumes_other :
    ∃ es w, Trace.Run (fun w e w' => sampleNext w e = some w') (fun _ _ => True) (initial 2) es w ∧
      ∃ r ∈ w.resumed, r.session ≠ r.asker := by
  obtain ⟨w, hrun, hres⟩ := Trace.exists_run_of_exec sampleNext (fun _ _ => True) (initial 2)
    [.create 5 100 (sampleHandled 1), .start ascending, .create 6 101 (sampleHandled 1), .answer 0,
      .deliver 0 102 (sampleHandled 0)]
    (fun w => w.resumed = [⟨1, 0⟩]) (by decide +kernel)
  refine ⟨_, w, hrun, ⟨1, 0⟩, ?_, by decide⟩
  rw [hres]
  exact List.mem_singleton_self _

end SessionIds
