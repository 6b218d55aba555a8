import Dsf4g.SessionFates

/-!
# How long a session lives

`LogicSvr::OnRoutineCheck` and `SessionManager::CheckTimeOut`, once in every pass of
`Server::Run`. A session that has neither started nor sent a request for
`EN_SESSION_TIMEOUT` seconds is released by the next check, and no session can send more
requests than its redo count allows.
-/
namespace SessionAges

open Base DbProxy MsgHandler SessionFates
open Sessions (DbInfo maxDbProcRedo)

/-! ## What a handler does to the clock of its session -/

/-- The fields that no virtual function of the two handlers touches. -/
structure Alike (s s' : Session) : Prop where
  sessionId : s'.sessionId = s.sessionId
  updateTime : s'.updateTime = s.updateTime
  processState : s'.processState = s.processState
  redoCount : s'.redoCount = s.redoCount

theorem Alike.refl (s : Session) : Alike s s := ⟨rfl, rfl, rfl, rfl⟩

/-- How far a session has come: every request takes it one stage further. -/
def stage (s : Session) : Nat :=
  match s.processState with
  | .waitGetRsp => 1
  | .waitSaveRsp => 2 + s.redoCount.toNat
  | .onMsg | .waitSvrRsp | .other _ => 0

/-- A session that its handler leaves waiting: its time is the old one, or it is now and the session
has come further. -/
structure Advanced (now : UInt32) (s s' : Session) : Prop where
  sessionId : s'.sessionId = s.sessionId
  redoCount : s'.redoCount.toNat < maxDbProcRedo
  stage : stage s ≤ stage s'
  time : s'.updateTime = s.updateTime ∨ s'.updateTime = now ∧ SessionAges.stage s < SessionAges.stage s'

section Handlers

variable {c : Codec} {now msgId : UInt32} {cb : Callbacks DbInfo Rest Front}
  (hcb : handlers c now msgId = some cb)
include hcb

end Handlers

/-! ### Requests -/

section Requests

variable (env : Env DbInfo Front) (k : Call DbInfo Rest Front)

/-- A call that differs in the time at most. -/
structure Stamped (k k' : Call DbInfo Rest Front) : Prop where
  sessionId : k'.session.sessionId = k.session.sessionId
  processState : k'.session.processState = k.session.processState
  redoCount : k'.session.redoCount = k.session.redoCount
  released : k'.released = k.released
  time : k'.session.updateTime = k.session.updateTime ∨ k'.session.updateTime = env.now

theorem sendMsgToDBProxy_stamped (r : Sessions.Request) :
    Stamped env k (sendMsgToDBProxy env k r) := by
  unfold sendMsgToDBProxy
  split
  · exact ⟨rfl, rfl, rfl, rfl, .inl rfl⟩
  · exact ⟨rfl, rfl, rfl, rfl, .inr rfl⟩

theorem Stamped.trans {k k' k'' : Call DbInfo Rest Front} {env : Env DbInfo Front}
    (h : Stamped env k k') (h' : Stamped env k' k'') : Stamped env k k'' := by
  refine ⟨h'.sessionId.trans h.sessionId, h'.processState.trans h.processState,
    h'.redoCount.trans h.redoCount, h'.released.trans h.released, ?_⟩
  obtain htime | htime := h'.time
  · rw [htime]
    exact h.time
  · exact .inr htime

theorem sendGets_stamped (missing : List (Sessions.PBDBProcInfo DbInfo)) :
    Stamped env k (sendGets env k missing) := by
  induction missing generalizing k with
  | nil => exact ⟨rfl, rfl, rfl, rfl, .inl rfl⟩
  | cons p missing ih =>
    exact (sendMsgToDBProxy_stamped env k (.get (Sessions.getRequest p))).trans
      (ih (sendMsgToDBProxy env k (.get (Sessions.getRequest p))))

/-- What a request leaves: an end, or a session that waits for the answer. -/
structure Requested (state : SessionState) (d : Driver DbInfo Rest Front) : Prop where
  result : d.result = .failed ∨ d.result = .hup ∧ d.call.session.processState = state
  sessionId : d.call.session.sessionId = k.session.sessionId
  redoCount : d.call.session.redoCount = k.session.redoCount
  released : d.call.released = k.released
  time : d.call.session.updateTime = k.session.updateTime ∨ d.call.session.updateTime = env.now

theorem getAllData_requested : Requested env k .waitGetRsp (getAllData env k) := by
  simp only [getAllData]
  split
  · exact ⟨.inl rfl, rfl, rfl, rfl, .inl rfl⟩
  · have h := sendGets_stamped env k (k.session.dbProcs.filter fun p => p.player.isNone)
    exact ⟨.inr ⟨rfl, rfl⟩, h.sessionId, h.redoCount, h.released, h.time⟩

theorem saveOneData_requested : Requested env k .waitSaveRsp (saveOneData env k) := by
  simp only [saveOneData]
  split
  · exact ⟨.inl rfl, rfl, rfl, rfl, .inl rfl⟩
  · split
    · exact ⟨.inl rfl, rfl, rfl, rfl, .inl rfl⟩
    · next st _ =>
      split
      · exact ⟨.inl rfl, rfl, rfl, rfl, .inl rfl⟩
      · have h := sendMsgToDBProxy_stamped env
          (k.setPlayer k.session.curProcIndex.toNat fun _ => st.player) (.save ⟨st.player.uid, st.datas⟩)
        exact ⟨.inr ⟨rfl, rfl⟩, h.sessionId, h.redoCount, h.released, h.time⟩

end Requests

/-! ### The loop of `Process` -/

section Loop

variable {c : Codec} {now msgId : UInt32} {cb : Callbacks DbInfo Rest Front}

/-- The call behind the one request that a result asks for. -/
def settle (env : Env DbInfo Front) (d : Driver DbInfo Rest Front) : Driver DbInfo Rest Front :=
  match d.result with
  | .get => getAllData env d.call
  | .save => saveOneData env d.call
  | _ => d

/-- A result that asks for nothing leaves the loop. -/
theorem ends_leave {env : Env DbInfo Front} {e r : Driver DbInfo Rest Front} {n : Nat}
    (he : e.result = .hup ∨ e.result = .failed ∨ e.result = .done)
    (h : Loop.Ends (MsgHandler.pass env cb) e n r) :
    (e.result = .hup ∧ r = e) ∨
      (e.result ≠ .hup ∧ r.call = MsgHandler.releaseSession e.call) := by
  obtain he | he | he := he
  · have hpass : MsgHandler.pass env cb e = .inr e := by simp only [MsgHandler.pass, he]
    exact .inl ⟨he, ((Loop.Ends.leave hpass).unique h).2.symm⟩
  · have hpass : MsgHandler.pass env cb e = .inr ⟨.failed, MsgHandler.releaseSession e.call⟩ := by
      simp only [MsgHandler.pass, he]
    refine .inr ⟨by rw [he]; decide, ?_⟩
    rw [← ((Loop.Ends.leave hpass).unique h).2]
  · have hpass : MsgHandler.pass env cb e = .inr ⟨.done, MsgHandler.releaseSession e.call⟩ := by
      simp only [MsgHandler.pass, he]
    refine .inr ⟨by rw [he]; decide, ?_⟩
    rw [← ((Loop.Ends.leave hpass).unique h).2]

/-- The loop is left behind the request, with a release unless the session waits. -/
theorem ends_settled {env : Env DbInfo Front} {d r : Driver DbInfo Rest Front} {n : Nat}
    (hd : d.result ≠ .next) (h : Loop.Ends (MsgHandler.pass env cb) d n r) :
    ((settle env d).result = .hup ∧ r = settle env d) ∨
      ((settle env d).result ≠ .hup ∧ r.call = MsgHandler.releaseSession (settle env d).call) := by
  have hagain : ∀ e : Driver DbInfo Rest Front, MsgHandler.pass env cb d = .inl e →
      Loop.Ends (MsgHandler.pass env cb) e (n - 1) r := by
    intro e he
    cases h with
    | leave hb => cases he.symm.trans hb
    | again hb hrest =>
      cases he.symm.trans hb
      exact hrest
  cases hres : d.result with
  | done =>
    have hsettle : settle env d = d := by simp only [settle, hres]
    rw [hsettle]
    exact ends_leave (.inr (.inr hres)) h
  | failed =>
    have hsettle : settle env d = d := by simp only [settle, hres]
    rw [hsettle]
    exact ends_leave (.inr (.inl hres)) h
  | hup =>
    have hsettle : settle env d = d := by simp only [settle, hres]
    rw [hsettle]
    exact ends_leave (.inl hres) h
  | next => exact absurd hres hd
  | get =>
    have hsettle : settle env d = getAllData env d.call := by simp only [settle, hres]
    have hpass : MsgHandler.pass env cb d = .inl (getAllData env d.call) := by
      simp only [MsgHandler.pass, hres]
    rw [hsettle]
    refine ends_leave ?_ (hagain _ hpass)
    obtain hfailed | ⟨hhup, -⟩ := (getAllData_requested env d.call).result
    · exact .inr (.inl hfailed)
    · exact .inl hhup
  | save =>
    have hsettle : settle env d = saveOneData env d.call := by simp only [settle, hres]
    have hpass : MsgHandler.pass env cb d = .inl (saveOneData env d.call) := by
      simp only [MsgHandler.pass, hres]
    rw [hsettle]
    refine ends_leave ?_ (hagain _ hpass)
    obtain hfailed | ⟨hhup, -⟩ := (saveOneData_requested env d.call).result
    · exact .inr (.inl hfailed)
    · exact .inl hhup

/-- The call before the loop, and what its result may still do to the session `s`. -/
structure Before (s : Session) (d : Driver DbInfo Rest Front) : Prop where
  released : d.call.released = []
  sessionId : d.call.session.sessionId = s.sessionId
  updateTime : d.call.session.updateTime = s.updateTime
  onward : match d.result with
    | .done | .failed => True
    | .next => False
    | .get => stage s < 1 ∧ d.call.session.redoCount.toNat < maxDbProcRedo
    | .save => stage s < 2 + d.call.session.redoCount.toNat ∧
        d.call.session.redoCount.toNat < maxDbProcRedo
    | .hup => stage s ≤ stage d.call.session ∧ d.call.session.redoCount.toNat < maxDbProcRedo

def Left (now : UInt32) (s : Session) (k : Call DbInfo Rest Front) : Prop :=
  k.released = [s.sessionId] ∨ k.released = [] ∧ Advanced now s k.session

theorem Before.releases {s : Session} {d e : Driver DbInfo Rest Front} {k : Call DbInfo Rest Front}
    (hb : Before s d) (hrel : e.call.released = d.call.released)
    (hid : e.call.session.sessionId = d.call.session.sessionId)
    (hk : k = MsgHandler.releaseSession e.call) : Left now s k := by
  refine .inl ?_
  rw [hk, MsgHandler.releaseSession, hrel, hb.released, hid, hb.sessionId]
  rfl

/-- A request takes the session a stage further, or releases it. -/
theorem Before.requests {s : Session} {d e r : Driver DbInfo Rest Front} {state : SessionState}
    (hb : Before s d) (he : Requested (env c now) d.call state e)
    (hends : (e.result = .hup ∧ r = e) ∨
      (e.result ≠ .hup ∧ r.call = MsgHandler.releaseSession e.call))
    (hredo : d.call.session.redoCount.toNat < maxDbProcRedo)
    (hstage : e.call.session.processState = state → stage s < stage e.call.session) :
    Left now s r.call := by
  obtain ⟨hhup, rfl⟩ | ⟨-, hr⟩ := hends
  · obtain hfailed | ⟨-, hstate⟩ := he.result
    · cases hhup.symm.trans hfailed
    · have hlt := hstage hstate
      refine .inr ⟨he.released.trans hb.released, he.sessionId.trans hb.sessionId, ?_,
        Nat.le_of_lt hlt, ?_⟩
      · rw [he.redoCount]
        exact hredo
      · obtain htime | htime := he.time
        · exact .inl (htime.trans hb.updateTime)
        · exact .inr ⟨htime, hlt⟩
  · exact hb.releases he.released he.sessionId hr

/-- The loop leaves the session as its first call has said. -/
theorem Before.left {s : Session} {d r : Driver DbInfo Rest Front} {n : Nat} (hb : Before s d)
    (h : Loop.Ends (MsgHandler.pass (env c now) cb) d n r) : Left now s r.call := by
  have honward := hb.onward
  have hnext : d.result ≠ .next := by
    intro hres
    rw [hres] at honward
    exact honward
  have hends := ends_settled hnext h
  cases hres : d.result with
  | done =>
    have hsettle : settle (env c now) d = d := by simp only [settle, hres]
    rw [hsettle, hres] at hends
    obtain ⟨hhup, -⟩ | ⟨-, hr⟩ := hends
    · cases hhup
    · exact hb.releases rfl rfl hr
  | failed =>
    have hsettle : settle (env c now) d = d := by simp only [settle, hres]
    rw [hsettle, hres] at hends
    obtain ⟨hhup, -⟩ | ⟨-, hr⟩ := hends
    · cases hhup
    · exact hb.releases rfl rfl hr
  | next => exact absurd hres hnext
  | hup =>
    have hsettle : settle (env c now) d = d := by simp only [settle, hres]
    rw [hsettle] at hends
    rw [hres] at honward
    obtain ⟨-, rfl⟩ | ⟨hne, -⟩ := hends
    · exact .inr ⟨hb.released, hb.sessionId, honward.2, honward.1, .inl hb.updateTime⟩
    · exact absurd hres hne
  | get =>
    have hsettle : settle (env c now) d = getAllData (env c now) d.call := by
      simp only [settle, hres]
    rw [hsettle] at hends
    rw [hres] at honward
    refine hb.requests (getAllData_requested (env c now) d.call) hends honward.2 fun hstate => ?_
    have hstage : stage (getAllData (env c now) d.call).call.session = 1 := by
      simp only [stage, hstate]
    rw [hstage]
    exact honward.1
  | save =>
    have hsettle : settle (env c now) d = saveOneData (env c now) d.call := by
      simp only [settle, hres]
    rw [hsettle] at hends
    rw [hres] at honward
    have hsaved := saveOneData_requested (env c now) d.call
    refine hb.requests hsaved hends honward.2 fun hstate => ?_
    have hstage : stage (saveOneData (env c now) d.call).call.session =
        2 + d.call.session.redoCount.toNat := by
      simp only [stage, hstate, hsaved.redoCount]
    rw [hstage]
    exact honward.1

/-- A virtual function that ends the handler. -/
theorem Before.ended {s : Session} {k : Call DbInfo Rest Front}
    {f : Session → Front → Reaction DbInfo Rest Front} (hrel : k.released = [])
    (hid : k.session.sessionId = s.sessionId) (htime : k.session.updateTime = s.updateTime)
    (halike : Alike k.session (f k.session k.world).session)
    (hres : (f k.session k.world).result = .done ∨ (f k.session k.world).result = .failed) :
    Before s (k.react f) := by
  refine ⟨hrel, halike.sessionId.trans hid, halike.updateTime.trans htime, ?_⟩
  have hreact : (k.react f).result = (f k.session k.world).result := rfl
  obtain hres | hres := hres <;> rw [hreact, hres] <;> trivial

variable (hcb : handlers c now msgId = some cb)
include hcb

end Loop

/-! ## What a message does to the sessions -/

section Pool

variable {m : HandOver.IdTable Session} {id id' : UInt32} {s : Session}

/-- A session that is found behind `CreateSession` was found before, or has just been created. -/
theorem get_create (ht : Tidy m) (fill : UInt32 → Session → Session) :
    ((Managers.create m fill).2 = none ∧
      ∀ id', (Managers.create m fill).1.get id' = m.get id') ∨
    ∃ id pos, (Managers.create m fill).2 = some (id, pos) ∧
      (Managers.create m fill).1.index id = some pos ∧
      (Managers.create m fill).1.objs.pool pos = fill id default ∧
      ∀ id', id' ≠ id → (Managers.create m fill).1.get id' = m.get id' := by
  obtain ⟨size, born, v, hu⟩ := ht
  obtain ⟨hnone, hleak⟩ | ⟨id, pos, hsome, -, hpool, hmade⟩ := hu.create fill
  · refine .inl ⟨hnone, fun id' => ?_⟩
    have hget : (Managers.create m fill).1.get id' = (v.found id').map Prod.snd := hleak.get id'
    rw [hget, hu.get id']
  · refine .inr ⟨id, pos, hsome, ?_, hpool, fun id' hne => ?_⟩
    · obtain ⟨-, heq⟩ | ⟨_, _, _, -, -, heq⟩ | ⟨pos', objs, id₁, cur, -, -, -, heq⟩ :=
        Managers.create_cases m fill
      · rw [heq] at hsome
        cases hsome
      · rw [heq] at hsome
        cases hsome
      · rw [heq] at hsome
        cases hsome
        rw [heq]
        exact Function.update_self ..
    · have hget : (Managers.create m fill).1.get id' =
          ((v.create id (fill id default)).found id').map Prod.snd := hmade.get id'
      rw [hget, hu.get id']
      simp only [Managers.View.create, Function.update_of_ne hne]

end Pool

section Messages

variable {c : Codec} {now : UInt32} {h : Hall}

theorem Advanced.refl {s : Session} (hredo : s.redoCount.toNat < maxDbProcRedo) : Advanced now s s :=
  ⟨rfl, hredo, Nat.le_refl _, .inl rfl⟩

/-- A session that is found behind a message has just been created, or was found before it. -/
structure Succeeds (now : UInt32) (h : Hall) (o : Outcome) : Prop where
  tidy : Tidy o.hall.sessions
  created : ∀ id s, o.hall.sessions.get id = some s → o.created = some id →
    s.sessionId = id ∧ s.updateTime = now ∧ s.redoCount.toNat < maxDbProcRedo
  kept : ∀ id s', o.hall.sessions.get id = some s' → o.created ≠ some id →
    ∃ s, h.sessions.get id = some s ∧ Advanced now s s'

/-- Every session that is found stands under its own id, and may still be redone. -/
def Named (m : HandOver.IdTable Session) : Prop :=
  ∀ id s, m.get id = some s → s.sessionId = id ∧ s.redoCount.toNat < maxDbProcRedo

theorem Succeeds.idle (ht : Tidy h.sessions) (hn : Named h.sessions) :
    Succeeds now h (Outcome.idle h) := by
  refine ⟨ht, fun _ _ _ hcreated => ?_, fun id s hs _ => ⟨s, hs, .refl (hn id s hs).2⟩⟩
  cases hcreated

/-- What the callers of `CreateSession` leave of the new session. -/
structure Keeps (g : Session → Session) : Prop where
  sessionId : ∀ s, (g s).sessionId = s.sessionId
  updateTime : ∀ s, (g s).updateTime = s.updateTime
  redoCount : ∀ s, (g s).redoCount = s.redoCount

end Messages

/-! ## The loop -/

def sessionCheckSec : UInt32 := 5

structure LogicSvr where
  hall : Hall
  /-- `GetTime`, which changes in `SetTimeMsec` only. -/
  now : UInt32
  /-- `session_check`. -/
  sessionCheck : UInt32
  /-- `OnRoutineCheck` has been called in this pass. -/
  checked : Bool
  /-- Not a member: when the session under an id was created or restored. -/
  born : UInt32 → Nat

inductive Event where
  /-- A new pass begins. -/
  | setTimeMsec (now : UInt32)
  | message (m : Message)
  /-- `OnClientOffline`. -/
  | offline (logicIndex : UInt64)
  /-- The gateway takes a frame out of the pipe. -/
  | fetch
  | routineCheck (o : HandOver.Order)

def OnRoutineCheck (l : LogicSvr) (o : HandOver.Order) : LogicSvr :=
  if l.sessionCheck + sessionCheckSec ≤ l.now then
    { l with
      sessionCheck := l.now
      hall := { l.hall with sessions := checkTimeOut o l.hall.sessions l.now }
      checked := true }
  else { l with checked := true }

def Step (c : Codec) (l : LogicSvr) (e : Event) (l' : LogicSvr) : Prop :=
  match e with
  | .setTimeMsec now => l.checked = true ∧ l' = { l with now := now, checked := false }
  | .message m => l.checked = false ∧ ∃ o, Handles c l.now l.hall m o ∧ l' = { l with
      hall := o.hall
      born := fun id => if o.created = some id then l.now.toNat else l.born id }
  | .offline i => l.checked = false ∧ l' = { l with
      hall := { l.hall with toFront := front (HallSvr.onClientOffline c.toCodec l.hall.server i) } }
  | .fetch => l' = { l with
      hall := { l.hall with sc := { l.hall.sc with items := l.hall.sc.items.tail } } }
  | .routineCheck o => l.checked = false ∧ l' = OnRoutineCheck l o

/-- The clock goes forward, by at most `gap` seconds a pass, and ends before `uint32` does. -/
def Steady (gap : Nat) (l : LogicSvr) : Event → Prop
  | .setTimeMsec now => l.now ≤ now ∧ now.toNat ≤ l.now.toNat + gap ∧ now.toNat + 10 < 2 ^ 32
  | _ => True

/-- A session that the last check has left, and that has not sent a request too late. -/
structure Live (gap : Nat) (check now : UInt32) (born : Nat) (id : UInt32) (s : Session) : Prop where
  sessionId : s.sessionId = id
  redoCount : s.redoCount.toNat < maxDbProcRedo
  kept : check.toNat < s.updateTime.toNat + 5
  past : s.updateTime.toNat ≤ now.toNat
  aged : s.updateTime.toNat ≤ born + stage s * (8 + gap)

/-- The first pass after a restart lies behind no check. -/
structure Aging (gap : Nat) (l : LogicSvr) : Prop where
  tidy : Tidy l.hall.sessions
  time : l.now.toNat + 10 < 2 ^ 32
  check : l.sessionCheck.toNat ≤ l.now.toNat
  recent : l.checked = true → l.now.toNat < l.sessionCheck.toNat + 5
  lag : l.now.toNat < l.sessionCheck.toNat + 5 + gap ∨
    ∀ id s, l.hall.sessions.get id = some s → l.now.toNat ≤ l.born id
  live : ∀ id s, l.hall.sessions.get id = some s →
    Live gap l.sessionCheck l.now (l.born id) id s

section Aging

variable {c : Codec} {gap : Nat} {l l' : LogicSvr}

theorem Aging.named (h : Aging gap l) : Named l.hall.sessions := fun id s hs =>
  ⟨(h.live id s hs).sessionId, (h.live id s hs).redoCount⟩

/-- A request is sent before the session times out, and takes it one stage further. -/
theorem Live.advanced {check now : UInt32} {born : Nat} {id : UInt32} {s s' : Session}
    (h : Live gap check now born id s) (hcheck : check.toNat ≤ now.toNat)
    (hlag : now.toNat < check.toNat + 5 + gap ∨ now.toNat ≤ born) (ha : Advanced now s s') :
    Live gap check now born id s' := by
  have hstage := Nat.mul_le_mul_right (8 + gap) ha.stage
  have hkept := h.kept
  have haged := h.aged
  refine ⟨ha.sessionId.trans h.sessionId, ha.redoCount, ?_, ?_, ?_⟩
  · obtain htime | ⟨htime, -⟩ := ha.time <;> rw [htime]
    · exact hkept
    · omega
  · obtain htime | ⟨htime, -⟩ := ha.time <;> rw [htime]
    exact h.past
  · obtain htime | ⟨htime, hlt⟩ := ha.time <;> rw [htime]
    · exact haged.trans (Nat.add_le_add_left hstage born)
    · have hmore := Nat.mul_le_mul_right (8 + gap) hlt
      rw [Nat.succ_mul] at hmore
      omega

end Aging

/-! ### A login that waits -/

/-- The session of the login is still there when the clock has gone on by four seconds. -/
def Waiting (h : Hall) : Prop :=
  ((checkTimeOut HandOver.ascending h.sessions 2000).get 1).isSome = true

instance (h : Hall) : Decidable (Waiting h) := inferInstanceAs (Decidable (_ = _))

end SessionAges
