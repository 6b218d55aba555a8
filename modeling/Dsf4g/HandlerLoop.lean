import Dsf4g.Lib.Loop
import Dsf4g.Server
import Dsf4g.Session

/-!
# The driver of the message handlers

`MsgHandlerBasic` in `src/common/msg_handler_basic.cpp`, and the requests it sends
through `src/common/msg_basic.cpp`. The virtual functions are parameters: they may
change the session and the server behind it in any way. The loop of `Process` is taken
pass by pass, since a handler can send it round for ever.
-/
namespace MsgHandler

open DbProxy Sessions

/-- `ENSessionSate`, with a case for the values that the enumeration does not have. -/
inductive SessionState where
  | onMsg | waitSvrRsp | waitGetRsp | waitSaveRsp
  | other (value : Nat)
  deriving DecidableEq, Repr

/-- The union of `PBSSMsg`, as far as it is told apart. -/
inductive SSUnion where
  | get (r : Response)
  | save (r : Response)
  | other
  deriving DecidableEq, Repr

/-- The result of a default instance is 0, which is no `HandleResult` and read as a failure. -/
def SSUnion.blank : Response := ⟨.error, 0, []⟩

def SSUnion.ssResponseGet : SSUnion → Response
  | .get r => r
  | _ => SSUnion.blank

def SSUnion.ssResponseSave : SSUnion → Response
  | .save r => r
  | _ => SSUnion.blank

/-- `Session`: the fields of `PBSession` that the driver uses, and the rest. -/
structure Session (Info R : Type) where
  sessionId : UInt32
  updateTime : UInt32
  processState : SessionState
  ssMsg : SSUnion
  dbProcs : List (PBDBProcInfo Info)
  curProcIndex : UInt64
  redoCount : UInt32
  rest : R

structure Reaction (Info R W : Type) where
  result : HandlerResult
  session : Session Info R
  world : W

/-- The virtual functions of a handler; `W` is what they can reach besides the session. -/
structure Callbacks (Info R W : Type) where
  onMessage : Session Info R → W → Reaction Info R W
  onSvrResponse : Session Info R → W → Reaction Info R W
  onProcessData : Session Info R → W → Reaction Info R W
  onSaveSuccess : Session Info R → W → Reaction Info R W
  onGetFailed : Session Info R → W → Reaction Info R W
  onSaveFailed : Session Info R → W → Reaction Info R W

structure Env (Info W : Type) where
  codec : Codec Info
  /-- `ByteSize` of the `PBSSMsg` around a request. -/
  byteSize : Request → Nat
  now : UInt32
  /-- `SendMessageToCenter` for a session. Its result is not looked at. -/
  sendMessageToCenter : UInt32 → Request → W → W

/-- A call of `Process`. `handed`, `processed` and `released` record the requests given to
`SendMessageToCenter`, the indices at which `OnProcessData` was called, and the calls of
`ReleaseSession`. -/
structure Call (Info R W : Type) where
  session : Session Info R
  world : W
  handed : List (UInt32 × Request)
  processed : List Nat
  released : List UInt32

structure Driver (Info R W : Type) where
  result : HandlerResult
  call : Call Info R W

variable {Info R W : Type}

def Call.start (s : Session Info R) (w : W) : Call Info R W := ⟨s, w, [], [], []⟩

def Call.react (k : Call Info R W) (f : Session Info R → W → Reaction Info R W) :
    Driver Info R W :=
  let r := f k.session k.world
  ⟨r.result, { k with session := r.session, world := r.world }⟩

def Call.onProcessData (k : Call Info R W) (cb : Callbacks Info R W) : Driver Info R W :=
  { k with processed := k.processed ++ [k.session.curProcIndex.toNat] }.react cb.onProcessData

def Call.setPlayer (k : Call Info R W) (i : Nat)
    (g : Option (PBDBMsg Info) → PBDBMsg Info) : Call Info R W :=
  { k with session := { k.session with
      dbProcs := k.session.dbProcs.modify i fun p => { p with player := some (g p.player) } } }

def copyFrom (k : Call Info R W) (player : PBDBMsg Info) (i : Nat) : Call Info R W :=
  k.setPlayer i fun old => PBDBMsg.copyFrom old player

/-! ## Requests -/

section Requests

variable (env : Env Info W) (k : Call Info R W)

/-- `SendMsgToDBProxy`. A message that is too long is dropped. -/
def sendMsgToDBProxy (r : Request) : Call Info R W :=
  if env.byteSize r > Server.maxPbLen then k
  else
    { k with
      session := { k.session with updateTime := env.now }
      world := env.sendMessageToCenter k.session.sessionId r k.world
      handed := k.handed ++ [(k.session.sessionId, r)] }

def sendGets (missing : List (PBDBProcInfo Info)) : Call Info R W :=
  missing.foldl (fun k p => sendMsgToDBProxy env k (.get (getRequest p))) k

def getAllData : Driver Info R W :=
  let missing := k.session.dbProcs.filter fun p => p.player.isNone
  if missing.isEmpty then ⟨.failed, k⟩
  else
    let k := sendGets env k missing
    ⟨.hup, { k with session := { k.session with processState := .waitGetRsp } }⟩

/-- `SaveOneData` over `SendSaveToDBHandle`. What its early return has changed of the player goes
with the session. -/
def saveOneData : Driver Info R W :=
  match k.session.dbProcs[k.session.curProcIndex.toNat]? with
  | none => ⟨.failed, k⟩
  | some p =>
    match collectSaves env.codec p.keys
        ⟨p.player.getD ⟨0, fun _ => none, fun _ => false⟩, []⟩ with
    | none => ⟨.failed, k⟩
    | some st =>
      let k := k.setPlayer k.session.curProcIndex.toNat fun _ => st.player
      if st.datas.isEmpty then ⟨.failed, k⟩
      else
        let k := sendMsgToDBProxy env k (.save ⟨st.player.uid, st.datas⟩)
        ⟨.hup, { k with session := { k.session with processState := .waitSaveRsp } }⟩

end Requests

/-! ## Answers of the database -/

section Answers

variable (env : Env Info W) (cb : Callbacks Info R W) (k : Call Info R W)

/-- The player of an answer, and the index of its uid among the players of the session. -/
def answered (r : Response) : Option (PBDBMsg Info × Nat) :=
  match parseDBData env.codec ⟨r.uid, fun _ => none, fun _ => false⟩ r.datas with
  | none => none
  | some player => (getDBProcIndex k.session.dbProcs r.uid).map fun i => (player, i)

def getResponse : Driver Info R W :=
  let r := k.session.ssMsg.ssResponseGet
  if r.result = .ok then
    match answered env k r with
    | none => k.react cb.onGetFailed
    | some (player, i) =>
      let k := copyFrom k player i
      if getAllDBData k.session.dbProcs then k.onProcessData cb else ⟨.hup, k⟩
  else k.react cb.onGetFailed

def saveResponse : Driver Info R W :=
  let r := k.session.ssMsg.ssResponseSave
  match r.result with
  | .ok => k.react cb.onSaveSuccess
  | .verDiffer =>
    let k := { k with session := { k.session with redoCount := k.session.redoCount + 1 } }
    if k.session.redoCount.toNat ≥ maxDbProcRedo then k.react cb.onSaveFailed
    else
      match answered env k r with
      | none => k.react cb.onSaveFailed
      | some (player, i) => (copyFrom k player i).onProcessData cb
  | .error => k.react cb.onSaveFailed

end Answers

/-! ## `Process` -/

section Process

variable (env : Env Info W) (cb : Callbacks Info R W)

def dispatch (k : Call Info R W) : Driver Info R W :=
  match k.session.processState with
  | .onMsg => k.react cb.onMessage
  | .waitSvrRsp => k.react cb.onSvrResponse
  | .waitGetRsp => getResponse env cb k
  | .waitSaveRsp => saveResponse env cb k
  | .other _ => ⟨.done, k⟩

def processNext (k : Call Info R W) : Driver Info R W :=
  let k := { k with session := { k.session with curProcIndex := k.session.curProcIndex + 1 } }
  if k.session.curProcIndex.toNat < k.session.dbProcs.length then k.onProcessData cb
  else ⟨.done, k⟩

def releaseSession (k : Call Info R W) : Call Info R W :=
  { k with released := k.released ++ [k.session.sessionId] }

/-- The body of the loop. It is left with the last result. -/
def pass (d : Driver Info R W) : Driver Info R W ⊕ Driver Info R W :=
  match d.result with
  | .get => .inl (getAllData env d.call)
  | .save => .inl (saveOneData env d.call)
  | .next => .inl (processNext cb d.call)
  | .done => .inr ⟨.done, releaseSession d.call⟩
  | .failed => .inr ⟨.failed, releaseSession d.call⟩
  | .hup => .inr d

/-- `Process`, with the number of passes. -/
def Processes (s : Session Info R) (w : W) (n : Nat) (d : Driver Info R W) : Prop :=
  Loop.Ends (pass env cb) (dispatch env cb (Call.start s w)) n d

end Process

/-! ## What the parts of a pass keep -/

/-- A virtual function that adds no players to the session and leaves the index alone. -/
def Steady (f : Session Info R → W → Reaction Info R W) : Prop :=
  ∀ s w, (f s w).session.dbProcs.length ≤ s.dbProcs.length ∧
    (f s w).session.curProcIndex = s.curProcIndex

structure Callbacks.AllSteady (cb : Callbacks Info R W) : Prop where
  onMessage : Steady cb.onMessage
  onSvrResponse : Steady cb.onSvrResponse
  onProcessData : Steady cb.onProcessData
  onSaveSuccess : Steady cb.onSaveSuccess
  onGetFailed : Steady cb.onGetFailed
  onSaveFailed : Steady cb.onSaveFailed

/-- From `k` to `k'` no player was added, the index stayed, nothing was released, and
`OnProcessData` was called at `new`. -/
structure Kept (k k' : Call Info R W) (new : List Nat) : Prop where
  procs : k'.session.dbProcs.length ≤ k.session.dbProcs.length
  index : k'.session.curProcIndex = k.session.curProcIndex
  processed : k'.processed = k.processed ++ new
  released : k'.released = k.released

theorem Kept.refl (k : Call Info R W) : Kept k k [] :=
  ⟨Nat.le_refl _, rfl, (List.append_nil _).symm, rfl⟩

theorem Kept.trans {k k' k'' : Call Info R W} {new new' : List Nat} (h : Kept k k' new)
    (h' : Kept k' k'' new') : Kept k k'' (new ++ new') :=
  ⟨Nat.le_trans h'.procs h.procs, h'.index.trans h.index,
    by rw [h'.processed, h.processed, List.append_assoc], h'.released.trans h.released⟩

/-- Only the players, the index and the records matter. -/
theorem Kept.of_eq {k k' : Call Info R W}
    (hp : k'.session.dbProcs.length = k.session.dbProcs.length)
    (hi : k'.session.curProcIndex = k.session.curProcIndex) (hs : k'.processed = k.processed)
    (hr : k'.released = k.released) : Kept k k' [] :=
  ⟨Nat.le_of_eq hp, hi, by rw [hs, List.append_nil], hr⟩

/-- A steady function keeps the players of the call. -/
theorem react_kept {f : Session Info R → W → Reaction Info R W} (hf : Steady f)
    (k : Call Info R W) : Kept k (k.react f).call [] := by
  obtain ⟨hprocs, hindex⟩ := hf k.session k.world
  exact ⟨hprocs, hindex, (List.append_nil _).symm, rfl⟩

/-- `OnProcessData` is recorded at the index it is called at. -/
theorem onProcessData_kept {cb : Callbacks Info R W} (hcb : cb.AllSteady) (k : Call Info R W) :
    Kept k (k.onProcessData cb).call [k.session.curProcIndex.toNat] := by
  obtain ⟨hprocs, hindex⟩ := hcb.onProcessData k.session k.world
  exact ⟨hprocs, hindex, rfl, rfl⟩

section Kept

variable (env : Env Info W) (k : Call Info R W)

theorem sendMsgToDBProxy_kept (r : Request) : Kept k (sendMsgToDBProxy env k r) [] := by
  unfold sendMsgToDBProxy
  split
  · exact Kept.refl k
  · exact Kept.of_eq rfl rfl rfl rfl

theorem sendGets_kept (missing : List (PBDBProcInfo Info)) :
    Kept k (sendGets env k missing) [] := by
  induction missing generalizing k with
  | nil => exact Kept.refl k
  | cons p missing ih =>
    exact (sendMsgToDBProxy_kept env k (.get (getRequest p))).trans
      (ih (sendMsgToDBProxy env k (.get (getRequest p))))

theorem setPlayer_kept (i : Nat) (g : Option (PBDBMsg Info) → PBDBMsg Info) :
    Kept k (k.setPlayer i g) [] :=
  Kept.of_eq (List.length_modify ..) rfl rfl rfl

theorem copyFrom_kept (player : PBDBMsg Info) (i : Nat) : Kept k (copyFrom k player i) [] :=
  setPlayer_kept k i _

/-- Asking for data always ends the round. -/
theorem getAllData_kept : Kept k (getAllData env k).call [] ∧
    ((getAllData env k).result = .hup ∨ (getAllData env k).result = .failed) := by
  simp only [getAllData]
  split
  · exact ⟨Kept.refl k, .inr rfl⟩
  · have hsent := sendGets_kept env k (k.session.dbProcs.filter fun p => p.player.isNone)
    exact ⟨hsent.trans (Kept.of_eq rfl rfl rfl rfl), .inl rfl⟩

/-- So does saving. -/
theorem saveOneData_kept : Kept k (saveOneData env k).call [] ∧
    ((saveOneData env k).result = .hup ∨ (saveOneData env k).result = .failed) := by
  simp only [saveOneData]
  split
  · exact ⟨Kept.refl k, .inr rfl⟩
  · split
    · exact ⟨Kept.refl k, .inr rfl⟩
    · next st _ =>
      have hcopied := setPlayer_kept k k.session.curProcIndex.toNat fun _ => st.player
      split
      · exact ⟨hcopied, .inr rfl⟩
      · have hsent := hcopied.trans (sendMsgToDBProxy_kept env
          (k.setPlayer k.session.curProcIndex.toNat fun _ => st.player)
          (.save ⟨st.player.uid, st.datas⟩))
        exact ⟨hsent.trans (Kept.of_eq rfl rfl rfl rfl), .inl rfl⟩

variable {cb : Callbacks Info R W}

/-- Before the loop `OnProcessData` is called once, if at all. -/
theorem dispatch_kept (hcb : cb.AllSteady) :
    ∃ new, new.Sublist [k.session.curProcIndex.toNat] ∧ Kept k (dispatch env cb k).call new := by
  have hnone : ∀ {f : Session Info R → W → Reaction Info R W}, Steady f →
      ∃ new, new.Sublist [k.session.curProcIndex.toNat] ∧ Kept k (k.react f).call new :=
    fun hf => ⟨[], List.nil_sublist _, react_kept hf k⟩
  have hcopied : ∀ player i, Kept k ((copyFrom k player i).onProcessData cb).call
      [k.session.curProcIndex.toNat] :=
    fun player i => (copyFrom_kept k player i).trans (onProcessData_kept hcb (copyFrom k player i))
  unfold dispatch
  split
  · exact hnone hcb.onMessage
  · exact hnone hcb.onSvrResponse
  · simp only [getResponse]
    split
    · split
      · exact hnone hcb.onGetFailed
      · next player i _ =>
        split
        · exact ⟨_, List.Sublist.refl _, hcopied player i⟩
        · exact ⟨[], List.nil_sublist _, copyFrom_kept k player i⟩
    · exact hnone hcb.onGetFailed
  · simp only [saveResponse]
    split
    · exact hnone hcb.onSaveSuccess
    · have hredo : ∀ {k' : Call Info R W} {new : List Nat},
          Kept { k with session := { k.session with redoCount := k.session.redoCount + 1 } }
            k' new → Kept k k' new := fun h => ⟨h.procs, h.index, h.processed, h.released⟩
      split
      · exact ⟨[], List.nil_sublist _, hredo (react_kept hcb.onSaveFailed _)⟩
      · split
        · exact ⟨[], List.nil_sublist _, hredo (react_kept hcb.onSaveFailed _)⟩
        · next player i _ =>
          exact ⟨_, List.Sublist.refl _, hredo
            ((copyFrom_kept _ player i).trans (onProcessData_kept hcb _))⟩
    · exact hnone hcb.onSaveFailed
  · exact ⟨[], List.nil_sublist _, Kept.refl k⟩

end Kept

/-! ## The loop -/

def nextIndex (s : Session Info R) : Nat := (s.curProcIndex + 1).toNat

def remaining (s : Session Info R) : Nat := s.dbProcs.length - nextIndex s

/-- At the head of the loop, for a `Process` on the session `s`. A result that ends the loop needs
no index. -/
structure Underway (s : Session Info R) (d : Driver Info R W) : Prop where
  procs : d.call.session.dbProcs.length ≤ s.dbProcs.length
  released : d.call.released = []
  seen : ∃ j ≤ remaining s,
    d.call.processed.Sublist (s.curProcIndex.toNat :: List.range' (nextIndex s) j) ∧
      (d.result = .done ∨ nextIndex d.call.session = nextIndex s + j)

section Loop

variable {env : Env Info W} {cb : Callbacks Info R W}

/-- The `switch` leads to the head of the loop. -/
theorem dispatch_underway (hcb : cb.AllSteady) (s : Session Info R) (w : W) :
    Underway s (dispatch env cb (Call.start s w)) := by
  obtain ⟨new, hnew, hk⟩ := dispatch_kept env (Call.start s w) hcb
  refine ⟨hk.procs, hk.released, 0, Nat.zero_le _, ?_, .inr ?_⟩
  · rw [hk.processed]
    exact hnew
  · rw [nextIndex, hk.index]
    rfl

/-- A pass that sends for data or saves it goes to no other player. -/
theorem Underway.sent {s : Session Info R} {d d' : Driver Info R W} (h : Underway s d)
    (hd : d.result ≠ .done) (hk : Kept d.call d'.call []) : Underway s d' := by
  obtain ⟨j, hj, hsub, hnext⟩ := h.seen
  refine ⟨Nat.le_trans hk.procs h.procs, hk.released.trans h.released, j, hj, ?_, .inr ?_⟩
  · rw [hk.processed, List.append_nil]
    exact hsub
  · rw [nextIndex, hk.index]
    exact hnext.resolve_left hd

/-- `ProcessNext` goes to the next player, or the session is at its end. -/
theorem processNext_cases (hcb : cb.AllSteady) (k : Call Info R W) :
    (nextIndex k.session < k.session.dbProcs.length ∧
      (processNext cb k).call.session.dbProcs.length ≤ k.session.dbProcs.length ∧
      (processNext cb k).call.session.curProcIndex = k.session.curProcIndex + 1 ∧
      (processNext cb k).call.processed = k.processed ++ [nextIndex k.session] ∧
      (processNext cb k).call.released = k.released) ∨
    ((processNext cb k).result = .done ∧
      (processNext cb k).call.session.dbProcs = k.session.dbProcs ∧
      (processNext cb k).call.processed = k.processed ∧
      (processNext cb k).call.released = k.released) := by
  simp only [processNext]
  split
  · next hlt =>
    have hk := onProcessData_kept hcb { k with session := { k.session with
      curProcIndex := k.session.curProcIndex + 1 } }
    exact .inl ⟨hlt, hk.procs, hk.index, hk.processed, hk.released⟩
  · exact .inr ⟨rfl, rfl, rfl, rfl⟩

/-- The index behind one that lies in the list. -/
theorem nextIndex_succ {s s' : Session Info R} (hs : s.dbProcs.length < 2 ^ 31)
    (hlt : nextIndex s < s.dbProcs.length) (hi : s'.curProcIndex = s.curProcIndex + 1) :
    nextIndex s' = nextIndex s + 1 := by
  have hone : (1 : UInt64).toNat = 1 := rfl
  unfold nextIndex at hlt ⊢
  rw [hi, UInt64.toNat_add, hone]
  omega

theorem Underway.next {s : Session Info R} (hs : s.dbProcs.length < 2 ^ 31)
    (hcb : cb.AllSteady) {d : Driver Info R W} (h : Underway s d) (hd : d.result = .next) :
    Underway s (processNext cb d.call) := by
  obtain ⟨j, hj, hsub, hnext⟩ := h.seen
  have hprocs := h.procs
  have hidx : nextIndex d.call.session = nextIndex s + j :=
    hnext.resolve_left fun hdone => nomatch hdone.symm.trans hd
  obtain ⟨hlt, hlen, hi, hp, hr⟩ | ⟨hdone, hlen, hp, hr⟩ := processNext_cases hcb d.call
  · have hsucc := nextIndex_succ (Nat.lt_of_le_of_lt hprocs hs) hlt hi
    have hj' : j + 1 ≤ remaining s := by
      unfold remaining
      omega
    refine ⟨Nat.le_trans hlen hprocs, hr.trans h.released, j + 1, hj', ?_, .inr ?_⟩
    · rw [hp, hidx, List.range'_1_concat, ← List.cons_append]
      exact hsub.append (List.Sublist.refl _)
    · rw [hsucc, hidx, Nat.add_assoc]
  · refine ⟨hlen ▸ hprocs, hr.trans h.released, j, hj, ?_, .inl hdone⟩
    rw [hp]
    exact hsub

/-- A pass that does not leave the loop comes to its head again. -/
theorem pass_underway {s : Session Info R} (hs : s.dbProcs.length < 2 ^ 31)
    (hcb : cb.AllSteady) {d d' : Driver Info R W} (h : Underway s d)
    (hb : pass env cb d = .inl d') : Underway s d' := by
  unfold pass at hb
  split at hb
  · next hd =>
    cases hb
    exact h.sent (by rw [hd]; decide) (getAllData_kept env d.call).1
  · next hd =>
    cases hb
    exact h.sent (by rw [hd]; decide) (saveOneData_kept env d.call).1
  · next hd =>
    cases hb
    exact h.next hs hcb hd
  · cases hb
  · cases hb
  · cases hb

/-- How many passes may follow: the players still to come, and the request that ends the round. -/
def Driver.ahead (d : Driver Info R W) : Nat :=
  match d.result with
  | .next => remaining d.call.session + 1
  | .get | .save => 1
  | .done | .failed | .hup => 0

/-- A round has at most one pass for each player to come, and one more. -/
theorem ahead_le (d : Driver Info R W) : d.ahead ≤ remaining d.call.session + 1 := by
  unfold Driver.ahead
  split <;> omega

theorem ahead_of_ended {d : Driver Info R W}
    (h : d.result = .done ∨ d.result = .hup ∨ d.result = .failed) : d.ahead = 0 := by
  unfold Driver.ahead
  rcases h with h | h | h <;> rw [h]

/-- Every pass leaves fewer ahead. -/
theorem pass_ahead (hcb : cb.AllSteady) {d d' : Driver Info R W}
    (hs : d.call.session.dbProcs.length < 2 ^ 31) (hb : pass env cb d = .inl d') :
    d'.ahead < d.ahead := by
  unfold pass at hb
  split at hb
  · next hd =>
    cases hb
    rw [ahead_of_ended (.inr (getAllData_kept env d.call).2), Driver.ahead, hd]
    exact Nat.zero_lt_one
  · next hd =>
    cases hb
    rw [ahead_of_ended (.inr (saveOneData_kept env d.call).2), Driver.ahead, hd]
    exact Nat.zero_lt_one
  · next hd =>
    cases hb
    have hahead : d.ahead = remaining d.call.session + 1 := by rw [Driver.ahead, hd]
    rw [hahead]
    obtain ⟨hlt, hlen, hi, -⟩ | ⟨hdone, -⟩ := processNext_cases hcb d.call
    · have hsucc := nextIndex_succ hs hlt hi
      have hle := ahead_le (processNext cb d.call)
      unfold remaining at hle ⊢
      omega
    · rw [ahead_of_ended (.inl hdone)]
      exact Nat.zero_lt_succ _
  · cases hb
  · cases hb
  · cases hb

def Settled (d : Driver Info R W) : Prop :=
  ((d.result = .done ∨ d.result = .failed) ∧ d.call.released = [d.call.session.sessionId]) ∨
    (d.result = .hup ∧ d.call.released = [])

/-- The pass that leaves the loop settles the session. -/
theorem Underway.settled {s : Session Info R} {d r : Driver Info R W} (h : Underway s d)
    (hb : pass env cb d = .inr r) : Settled r ∧ r.call.processed = d.call.processed := by
  unfold pass at hb
  split at hb
  · cases hb
  · cases hb
  · cases hb
  · cases hb
    refine ⟨.inl ⟨.inl rfl, ?_⟩, rfl⟩
    rw [releaseSession, h.released]
    rfl
  · cases hb
    refine ⟨.inl ⟨.inr rfl, ?_⟩, rfl⟩
    rw [releaseSession, h.released]
    rfl
  · next hd =>
    cases hb
    exact ⟨.inr ⟨hd, h.released⟩, rfl⟩

/-- `Process` ends, calls `OnProcessData` at most once where the session stands and once at every
player behind, and releases the session exactly when it does not wait for an answer. -/
theorem process_ends (env : Env Info W) (cb : Callbacks Info R W) (hcb : cb.AllSteady)
    (s : Session Info R) (hs : s.dbProcs.length < 2 ^ 31) (w : W) :
    ∃ n d, Processes env cb s w n d ∧ n ≤ s.dbProcs.length + 3 ∧
      d.call.processed.Sublist
        (s.curProcIndex.toNat :: List.range' (nextIndex s) (remaining s)) ∧
      Settled d := by
  have hunder : ∀ d, Loop.Meets (pass env cb) (dispatch env cb (Call.start s w)) d →
      Underway s d := fun d hm =>
    hm.invariant (Underway s) (dispatch_underway hcb s w)
      fun _ _ _ h hb => pass_underway hs hcb h hb
  obtain ⟨n, d, hends, hn⟩ := Loop.ends_of_variant Driver.ahead fun d hm d' hb =>
    pass_ahead hcb (Nat.lt_of_le_of_lt (hunder d hm).procs hs) hb
  have hstart : Underway s (dispatch env cb (Call.start s w)) := dispatch_underway hcb s w
  have hahead := ahead_le (dispatch env cb (Call.start s w))
  obtain ⟨d', hm, hb⟩ := hends.meets
  obtain ⟨hsettled, hprocessed⟩ := (hunder d' hm).settled hb
  obtain ⟨j, hj, hsub, -⟩ := (hunder d' hm).seen
  refine ⟨n, d, hends, ?_, ?_, hsettled⟩
  · have hprocs := hstart.procs
    unfold remaining at hahead
    omega
  · rw [hprocessed]
    apply hsub.trans
    apply List.Sublist.cons_cons
    exact List.range'_sublist_right.mpr hj

/-! ### Handlers that stay with their player -/

/-- No virtual function goes to the next player. -/
structure Callbacks.Prompt (cb : Callbacks Info R W) : Prop where
  onMessage : ∀ s w, (cb.onMessage s w).result ≠ .next
  onSvrResponse : ∀ s w, (cb.onSvrResponse s w).result ≠ .next
  onProcessData : ∀ s w, (cb.onProcessData s w).result ≠ .next
  onSaveSuccess : ∀ s w, (cb.onSaveSuccess s w).result ≠ .next
  onGetFailed : ∀ s w, (cb.onGetFailed s w).result ≠ .next
  onSaveFailed : ∀ s w, (cb.onSaveFailed s w).result ≠ .next

theorem dispatch_prompt (hcb : cb.Prompt) (k : Call Info R W) :
    (dispatch env cb k).result ≠ .next := by
  unfold dispatch
  split
  · exact hcb.onMessage _ _
  · exact hcb.onSvrResponse _ _
  · simp only [getResponse]
    split
    · split
      · exact hcb.onGetFailed _ _
      · split
        · exact hcb.onProcessData _ _
        · exact nofun
    · exact hcb.onGetFailed _ _
  · simp only [saveResponse]
    split
    · exact hcb.onSaveSuccess _ _
    · split
      · exact hcb.onSaveFailed _ _
      · split
        · exact hcb.onSaveFailed _ _
        · exact hcb.onProcessData _ _
    · exact hcb.onSaveFailed _ _
  · exact nofun

/-- A result that ends the loop. -/
theorem pass_ended {d : Driver Info R W}
    (h : d.result = .done ∨ d.result = .hup ∨ d.result = .failed) :
    ∃ r, pass env cb d = .inr r := by
  unfold pass
  rcases h with h | h | h <;> exact ⟨_, by rw [h]⟩

/-- Without a step to the next player `Process` always returns, whatever the session is. -/
theorem process_returns (hcb : cb.Prompt) (s : Session Info R) (w : W) :
    ∃ n d, Processes env cb s w n d := by
  have hnext : (dispatch env cb (Call.start s w)).result ≠ .next := dispatch_prompt hcb _
  have hended : ∀ {d : Driver Info R W},
      d.result = .done ∨ d.result = .hup ∨ d.result = .failed →
        ∃ n r, Loop.Ends (pass env cb) d n r := by
    intro d h
    obtain ⟨r, hr⟩ := pass_ended h
    exact ⟨1, r, .leave hr⟩
  have hpass : ∀ {d : Driver Info R W}, pass env cb (dispatch env cb (Call.start s w)) = .inl d →
      d.result = .hup ∨ d.result = .failed → ∃ n r, Processes env cb s w n r := by
    intro d hd h
    obtain ⟨n, r, hr⟩ := hended (.inr h)
    exact ⟨n + 1, r, .again hd hr⟩
  cases hres : (dispatch env cb (Call.start s w)).result with
  | done => exact hended (.inl hres)
  | hup => exact hended (.inr (.inl hres))
  | failed => exact hended (.inr (.inr hres))
  | next => exact absurd hres hnext
  | get =>
    have hd := getAllData_kept env (dispatch env cb (Call.start s w)).call
    exact hpass (by simp only [pass, hres]) hd.2
  | save =>
    have hd := saveOneData_kept env (dispatch env cb (Call.start s w)).call
    exact hpass (by simp only [pass, hres]) hd.2

end Loop

def walk : Callbacks Unit Unit Unit :=
  let next := fun s w => ⟨.next, s, w⟩
  ⟨next, next, next, next, next, next⟩

def walkEnv : Env Unit Unit := ⟨⟨fun _ _ => none, fun _ _ => [], fun _ => ()⟩, fun _ => 0, 0,
  fun _ _ w => w⟩

def walkSession : Session Unit Unit :=
  ⟨7, 0, .onMsg, .other, [⟨1, [1], none⟩, ⟨2, [1], none⟩], 0, 0, ()⟩

theorem walk_steady : walk.AllSteady := by
  have hnext : Steady walk.onMessage := fun s _ => ⟨Nat.le_refl s.dbProcs.length, rfl⟩
  exact ⟨hnext, hnext, hnext, hnext, hnext, hnext⟩

theorem process_ends_walk :
    ∃ n d, Processes walkEnv walk walkSession () n d ∧ n ≤ 5 ∧
      d.call.processed.Sublist [0, 1] ∧ Settled d :=
  process_ends walkEnv walk walk_steady walkSession (by decide) ()

example : (Loop.run (pass walkEnv walk) 5 (dispatch walkEnv walk (Call.start walkSession ()))).map
    (fun o => (o.1, o.2.call.processed, o.2.call.released)) = some (3, [1], [7]) := by rfl

end MsgHandler
