import Dsf4g.HallLink

/-!
# Logins, late disconnects and the login check

A disconnect notice names a uid, not a connection. It may reach the hall server
when the uid has logged in again on another connection, and then takes that login
away. The login check of other messages asks only whether the uid is logged in.
-/
namespace HallSvr

open Base TcpSvr

/-! ## Players and logins -/

/-- Every step keeps the manager of the players well-formed. -/
theorem step_valid {c : Codec} {s s' : System} {e : Event} (hv : s.players.Valid)
    (hs : Step c s e s') : s'.players.Valid := by
  cases step_effect hv hs with
  | tcp hplayers _ => exact hplayers ▸ hv
  | fetched f cs _ hplayers _ => exact hplayers ▸ (getClientMessage_spec c hv f).1
  | dispatched m now r _ v' h hplayers _ =>
    rw [hplayers]
    cases h with
    | quiet hp => exact hp ▸ hv
    | login head data _ uid token _ h =>
      cases h with
      | refused _ hp => exact hp ▸ hv
      | again _ hp => exact hp ▸ hv
      | rebound _ _ fs h => exact h.valid
  | idle hplayers _ => exact hplayers ▸ hv

/-- A player was there before the step, or the step is its login. -/
theorem step_players {c : Codec} {s s' : System} {e : Event} (hv : s.players.Valid)
    (hs : Step c s e s') {u : UInt64} {p : Player} (hp : s'.players.getPlayer u = some p) :
    s.players.getPlayer u = some p ∨ loginOf c e = some (p.tcpHead, u) := by
  cases step_effect hv hs with
  | tcp hplayers _ => exact .inl (hplayers ▸ hp)
  | fetched f cs _ hplayers _ =>
    rw [hplayers, (getClientMessage_spec c hv f).2.2 u] at hp
    split at hp
    · cases hp
    · exact .inl hp
  | dispatched m now r he v' h hplayers _ =>
    rw [hplayers] at hp
    cases h with
    | quiet hpl =>
      rw [hpl] at hp
      exact .inl hp
    | login head data hm uid token hparse h =>
      cases h with
      | refused _ hpl =>
        rw [hpl] at hp
        exact .inl hp
      | again _ hpl =>
        rw [hpl] at hp
        exact .inl hp
      | rebound htoken _ fs h =>
        rcases h.players with hget | ⟨hget, -⟩
        · rw [hget u] at hp
          split at hp
          · cases hp
          · exact .inl hp
        · rw [hget u] at hp
          split at hp
          · next hu =>
            cases hp
            refine .inr ?_
            rw [he, hm, hu]
            exact loginOf_accepted hparse htoken r
          · exact .inl hp
  | idle hplayers _ => exact .inl (hplayers ▸ hp)

/-- Every player of a run was there at its start, or logged in during it. -/
theorem run_players {c : Codec} {guard : System → Event → Prop} {s s' : System} {es : List Event}
    (h : Trace.Run (Step c) guard s es s') (hv : s.players.Valid) {u : UInt64} {p : Player}
    (hp : s'.players.getPlayer u = some p) :
    s.players.getPlayer u = some p ∨ ∃ e ∈ es, loginOf c e = some (p.tcpHead, u) := by
  induction h with
  | nil s => exact .inl hp
  | @cons s₁ s₂ s₃ e es _ hs _ ih =>
    rcases ih (step_valid hv hs) hp with hold | ⟨e', he, hl⟩
    · rcases step_players hv hs hold with hold | hl
      · exact .inl hold
      · exact .inr ⟨e, List.mem_cons_self .., hl⟩
    · exact .inr ⟨e', List.mem_cons_of_mem _ he, hl⟩

theorem initial_getPlayer (conf : Conf) (mem : Nat → UInt8) (u : UInt64) :
    (System.initial conf mem).players.getPlayer u = none := rfl

theorem initial_valid (conf : Conf) (mem : Nat → UInt8) :
    (System.initial conf mem).players.Valid := PlayerManager.init_valid _

def free (_ : System) (_ : Event) : Prop := True

instance (s : System) (e : Event) : Decidable (free s e) := .isTrue trivial

/-- Only a session that was not there before counts as created. -/
def CreatesSession (c : Codec) (v : Server) (head : TcpHead) (data : List UInt8) (now : UInt32) :
    Prop :=
  ∃ id ses, v.sessions.getSession id = none ∧
    (onClientMessage c v head data now).server.sessions.getSession id = some ses

/-- After every run, a message that is not a login creates a session only for a uid with a player,
and that player is bound to the connection of a login for the uid that was accepted in the run. -/
theorem run_session_needs_login (c : Codec) (conf : Conf) (mem : Nat → UInt8) (es : List Event)
    (s : System)
    (hrun : Trace.Run (Step c) free (System.initial conf mem) es s) (head : TcpHead)
    (data : List UInt8) (now : UInt32) (m : PBCSMsg) (hparse : c.parse data = some m)
    (hother : ∀ token, m.msgUnion ≠ .login token)
    (hcreate : CreatesSession c s.server head data now) :
    ∃ p, s.players.getPlayer m.uid.toUInt64 = some p ∧ p.uid = m.uid.toUInt64 ∧
      ∃ e ∈ es, loginOf c e = some (p.tcpHead, m.uid.toUInt64) := by
  have hvalid : s.players.Valid := hrun.invariant (fun s => s.players.Valid)
    (initial_valid conf mem) fun _ _ _ hv _ hs => step_valid hv hs
  obtain ⟨id, ses, hbefore, hafter⟩ := hcreate
  have hcheck : loginCheck s.server m = true := by
    cases hc : loginCheck s.server m with
    | true => rfl
    | false =>
      rw [onClientMessage, hparse] at hafter
      simp only [hc, Bool.false_eq_true, if_false] at hafter
      rw [hbefore] at hafter
      cases hafter
  obtain ⟨p, hp⟩ : ∃ p, s.players.getPlayer m.uid.toUInt64 = some p := by
    unfold loginCheck at hcheck
    split at hcheck
    · next token ht => exact absurd ht (hother token)
    · exact Option.isSome_iff_exists.mp hcheck
  refine ⟨p, hp, hvalid.uid_eq hp, ?_⟩
  rcases run_players hrun (initial_valid conf mem) hp with hold | hlogin
  · rw [initial_getPlayer] at hold
    cases hold
  · exact hlogin

/-- Player 7 logs in on slot 1; slot 2 is open, too. -/
def sampleConf : Conf := ⟨4, 10000, 10000, 100000, 4, 4⟩

def loginBytes : List UInt8 := [8, 7, 98, 3, 10, 1, 116]
def otherBytes : List UInt8 := [8, 7, 114, 0]

def sampleCodec : Codec where
  parse := fun d =>
    if d = loginBytes then some ⟨7, .login [116]⟩
    else if d = otherBytes then some ⟨7, .other ⟨14, by decide⟩⟩
    else none
  decrypt := fun t => if t = [116] then some ⟨7, 1000⟩ else none
  logout := [122, 0]
  loginFailed := [106, 2, 8, 1]

def clientFrame (pb : List UInt8) : List UInt8 := Bytes.be 4 (pb.length + 4) ++ pb

def sampleAccept (fd : Int) (msec : Nat) : Event :=
  .accept (.ok fd msec 5000 ⟨[49, 46, 49, 46, 49, 46, 49], by decide⟩)

def sampleHead (pos msec : Nat) : TcpHead :=
  ⟨msec, pos, 5000, [49, 46, 49, 46, 49, 46, 49, 0, 0, 0, 0, 0, 0, 0, 0, 0], 0, false⟩

def travels (pos msec : Nat) (pb : List UInt8) : List Event :=
  [.recv pos (.data (clientFrame pb)), .fetch,
    .dispatch (.client (sampleHead pos msec) pb) 2000 .waits]

/-- Two connections, and the login of player 7 on the first. -/
def loggedIn : List Event :=
  [sampleAccept 10 1000, sampleAccept 11 1001] ++ travels 1 1000 loginBytes

def sampleStart : System := System.initial sampleConf fun _ => 0

/-- A message for player 7 from slot 2 is next, while the player is on slot 1. -/
def foreignMessage (s : System) : Prop :=
  (s.players.getPlayer 7).map (fun p => p.tcpHead) = some (sampleHead 1 1000) ∧
    s.msgPipe.items = [.client (sampleHead 2 1001) otherBytes] ∧
    s.sessions.getSession 2 = none ∧
    ((onClientMessage sampleCodec s.server (sampleHead 2 1001) otherBytes 2001).server.sessions.getSession
      2).isSome = true

instance (s : System) : Decidable (foreignMessage s) := inferInstanceAs (Decidable (_ ∧ _))

/-- The player of the message's uid is bound to slot 1, the message arrived on slot 2. -/
theorem session_for_other_connection :
    ∃ es s, Trace.Run (Step sampleCodec) free sampleStart es s ∧
      sampleCodec.parse otherBytes = some ⟨7, .other ⟨14, by decide⟩⟩ ∧
      s.msgPipe.items = [.client (sampleHead 2 1001) otherBytes] ∧
      CreatesSession sampleCodec s.server (sampleHead 2 1001) otherBytes 2001 ∧
      ∃ p, s.players.getPlayer 7 = some p ∧ p.tcpHead.conn ≠ (sampleHead 2 1001).conn := by
  obtain ⟨s, hrun, hplayer, hnext, hnone, hsome⟩ := Trace.exists_run_of_exec (step sampleCodec) free
    sampleStart (loggedIn ++ [.recv 2 (.data (clientFrame otherBytes)), .fetch]) foreignMessage
    (by decide +kernel)
  obtain ⟨ses, hses⟩ := Option.isSome_iff_exists.mp hsome
  obtain ⟨p, hp, hhead⟩ := Option.map_eq_some_iff.mp hplayer
  refine ⟨_, s, hrun, by decide, hnext, ⟨2, ses, hnone, hses⟩, p, hp, ?_⟩
  rw [hhead]
  decide

theorem run_session_needs_login_own :
    ∃ es s, Trace.Run (Step sampleCodec) free sampleStart es s ∧
      CreatesSession sampleCodec s.server (sampleHead 2 1001) otherBytes 2001 ∧
      ∃ p, s.players.getPlayer 7 = some p ∧ p.uid = 7 ∧
        ∃ e ∈ es, loginOf sampleCodec e = some (p.tcpHead, 7) := by
  obtain ⟨s, hrun, -, -, hnone, hsome⟩ := Trace.exists_run_of_exec (step sampleCodec) free
    sampleStart (loggedIn ++ [.recv 2 (.data (clientFrame otherBytes)), .fetch]) foreignMessage
    (by decide +kernel)
  obtain ⟨ses, hses⟩ := Option.isSome_iff_exists.mp hsome
  have hcreate : CreatesSession sampleCodec s.server (sampleHead 2 1001) otherBytes 2001 :=
    ⟨2, ses, hnone, hses⟩
  exact ⟨_, s, hrun, hcreate, run_session_needs_login sampleCodec sampleConf _ _ s hrun _ _ _
    ⟨7, .other ⟨14, by decide⟩⟩ (by decide) (fun _ h => (nomatch h)) hcreate⟩

/-! ## Late disconnects -/

/-- No notice is produced for a uid whose player is bound to another connection, and no login of a
uid is accepted while a notice of another connection for this uid is on its way. -/
structure LateGuard (c : Codec) (s : System) (e : Event) : Prop where
  release : ∀ t pos, released s e = some (t, pos) → (t.pool pos).logicIndex ≠ 0 →
    ∀ p, s.players.getPlayer (UInt64.ofNat (t.pool pos).logicIndex) = some p →
      p.tcpHead.conn = (t.pool pos).conn
  login : ∀ head uid, loginOf c e = some (head, uid) →
    ∀ f ∈ s.tcp.csPipe.items, disconUid f = some uid → f.conn = head.conn

/-- Every notice on its way was produced by the connection its player is bound to. -/
structure NoticesOk (s : System) : Prop where
  valid : s.players.Valid
  notices : ∀ f ∈ s.tcp.csPipe.items, ∀ u, disconUid f = some u →
    ∀ p, s.players.getPlayer u = some p → p.tcpHead.conn = f.conn

/-- Client frames added to the pipe are no notices. -/
theorem notices_append {players : PlayerManager} {cs fs : List TcpFrame}
    (h : ∀ f ∈ cs, ∀ u, disconUid f = some u → ∀ p, players.getPlayer u = some p →
      p.tcpHead.conn = f.conn) (hfs : ∀ f ∈ fs, f.head.msgType = tcpNormal) :
    ∀ f ∈ cs ++ fs, ∀ u, disconUid f = some u → ∀ p, players.getPlayer u = some p →
      p.tcpHead.conn = f.conn := by
  intro f hf u hu
  rcases List.mem_append.mp hf with hf | hf
  · exact h f hf u hu
  · rw [disconUid_normal (hfs f hf)] at hu
    cases hu

/-- The `cs` pipe after an event of the gateway. -/
theorem tcpEffect_cs {s : System} {e : Event} {t' : Svr} (h : TcpEffect s e t') :
    ∃ fs, (∀ f ∈ fs, f.head.msgType = tcpNormal) ∧
      (t'.csPipe.items = s.tcp.csPipe.items ++ fs ∨
        ∃ t₁ pos f, released s e = some (t₁, pos) ∧ (t₁.pool pos).logicIndex ≠ 0 ∧
          t'.csPipe.items = s.tcp.csPipe.items ++ fs ++ [f] ∧ f.conn = (t₁.pool pos).conn ∧
          disconUid f = some (UInt64.ofNat (t₁.pool pos).logicIndex)) := by
  cases h with
  | none h =>
    obtain ⟨fs, hcs, hfs⟩ := h.cs
    exact ⟨fs, hfs, .inl hcs⟩
  | opened pos h => exact ⟨[], by simp, .inl (by rw [h.csPipe, List.append_nil])⟩
  | released t₁ pos hr h heq =>
    obtain ⟨fs, hcs, hfs⟩ := h.cs
    refine ⟨fs, hfs, ?_⟩
    by_cases hpos : pos < t₁.maxClientNum
    · rw [heq, ← hcs]
      rcases (socketRelease_released t₁ pos true hpos).cs with hsame | ⟨f, hf, hconn, hu, hne, -⟩
      · exact .inl hsame
      · exact .inr ⟨t₁, pos, f, hr, hne, hf, hconn, hu⟩
    · rw [heq, socketRelease, if_pos (Nat.not_lt.mp hpos)]
      exact .inl hcs
  | closed f sc _ _ _ heq =>
    refine ⟨[], by simp, .inl ?_⟩
    rw [heq, List.append_nil]
    by_cases hpos : (s.tcp.pool f.head.socketPos).socketPos < s.tcp.maxClientNum
    · rcases (socketRelease_released { s.tcp with scPipe := sc }
        (s.tcp.pool f.head.socketPos).socketPos false hpos).cs with hsame | ⟨_, _, _, _, _, hn⟩
      · exact hsame
      · cases hn
    · rw [socketRelease, if_pos (Nat.not_lt.mp hpos)]
  | indexed f sc _ _ _ heq => exact ⟨[], by simp, .inl (by rw [heq, List.append_nil]; rfl)⟩

/-- Every guarded step keeps the notices right. -/
theorem step_noticesOk {c : Codec} {s s' : System} {e : Event} (h : NoticesOk s)
    (hg : LateGuard c s e) (hs : Step c s e s') : NoticesOk s' := by
  refine ⟨step_valid h.valid hs, ?_⟩
  cases step_effect h.valid hs with
  | tcp hplayers ht =>
    obtain ⟨fs, hfs, hcs | ⟨t₁, pos, g, hr, hne, hcs, hconn, hu⟩⟩ := tcpEffect_cs ht
    · rw [hcs, hplayers]
      exact notices_append h.notices hfs
    · rw [hcs, hplayers]
      intro f hf u hfu p hp
      rcases List.mem_append.mp hf with hf | hf
      · exact notices_append h.notices hfs f hf u hfu p hp
      · rw [List.mem_singleton.mp hf] at hfu ⊢
        rw [hu, Option.some.injEq] at hfu
        rw [hconn]
        exact hg.release t₁ pos hr hne p (hfu ▸ hp)
  | fetched f cs hcs hplayers htcp =>
    intro g hg u hu p hp
    rw [htcp] at hg
    rw [hplayers, (getClientMessage_spec c h.valid f).2.2 u] at hp
    have hmem : g ∈ s.tcp.csPipe.items := hcs ▸ List.mem_cons_of_mem _ hg
    split at hp
    · cases hp
    · exact h.notices g hmem u hu p hp
  | dispatched m now r he v' heff hplayers htcp =>
    intro f hf u hu p hp
    rw [htcp] at hf
    have hf : f ∈ s.tcp.csPipe.items := hf
    rcases step_players h.valid hs hp with hold | hlogin
    · exact h.notices f hf u hu p hold
    · exact (hg.login p.tcpHead u hlogin f hf hu).symm
  | idle hplayers htcp =>
    rw [hplayers, htcp]
    exact h.notices

/-- In every run that meets the condition, the notice of a released connection removes at most the
player that is bound to this connection. -/
theorem run_late_discon_safe (c : Codec) (conf : Conf) (mem : Nat → UInt8) (es : List Event)
    (s : System) (hrun : Trace.Run (Step c) (LateGuard c) (System.initial conf mem) es s)
    (f : TcpFrame) (cs : Fifo TcpFrame)
    (hf : s.tcp.csPipe.get TcpFrame.length tcpBufLen = some (f, cs)) (u : UInt64)
    (hu : disconUid f = some u) :
    ∀ w p, s.players.getPlayer w = some p →
      (getClientMessage c s.server f).players.getPlayer w = some p ∨
        (w = u ∧ p.tcpHead.conn = f.conn) := by
  have hok : NoticesOk s := hrun.invariant NoticesOk
    ⟨initial_valid conf mem, fun f hf => (nomatch hf)⟩ fun _ _ _ h hg hs => step_noticesOk h hg hs
  intro w p hp
  obtain ⟨rest, hitems, -⟩ := Fifo.get_eq_some hf
  have hmem : f ∈ s.tcp.csPipe.items := hitems ▸ List.mem_cons_self ..
  by_cases hw : u = w
  · subst hw
    exact .inr ⟨rfl, hok.notices f hmem u hu p hp⟩
  · refine .inl ?_
    rw [(getClientMessage_spec c hok.valid f).2.2 w, hu,
      if_neg (fun h => hw (Option.some.inj h))]
    exact hp

def lateGuardCheck (c : Codec) (s : System) (e : Event) : Bool :=
  (match released s e with
    | none => true
    | some (t, pos) =>
      (t.pool pos).logicIndex == 0 ||
        (match s.players.getPlayer (UInt64.ofNat (t.pool pos).logicIndex) with
          | none => true
          | some p => p.tcpHead.conn == (t.pool pos).conn)) &&
  (match loginOf c e with
    | none => true
    | some (head, uid) =>
      s.tcp.csPipe.items.all fun f => disconUid f != some uid || f.conn == head.conn)

/-- The guard can be computed. -/
theorem lateGuardCheck_iff (c : Codec) (s : System) (e : Event) :
    lateGuardCheck c s e = true ↔ LateGuard c s e := by
  constructor
  · intro h
    unfold lateGuardCheck at h
    rw [Bool.and_eq_true] at h
    refine ⟨fun t pos hr hne p hp => ?_, fun head uid hl f hf hu => ?_⟩
    · have h := h.1
      rw [hr] at h
      simpa [hne, hp] using h
    · have h := h.2
      rw [hl] at h
      simpa [hu] using List.all_eq_true.mp h f hf
  · intro h
    unfold lateGuardCheck
    rw [Bool.and_eq_true]
    constructor
    · cases hr : released s e with
      | none => rfl
      | some q =>
        obtain ⟨t, pos⟩ := q
        have h := h.release t pos hr
        dsimp only
        by_cases hz : (t.pool pos).logicIndex = 0
        · simp [hz]
        · cases hp : s.players.getPlayer (UInt64.ofNat (t.pool pos).logicIndex) with
          | none => simp
          | some p => simp [h hz p hp]
    · cases hl : loginOf c e with
      | none => rfl
      | some q =>
        obtain ⟨head, uid⟩ := q
        refine List.all_eq_true.mpr fun f hf => ?_
        by_cases hu : disconUid f = some uid
        · simp [h.login head uid hl f hf hu]
        · simp [hu]

instance (c : Codec) (s : System) (e : Event) : Decidable (LateGuard c s e) :=
  decidable_of_iff _ (lateGuardCheck_iff c s e)

/-- The notice of slot 1 for player 7 is next. -/
def noticeNext (k : Conn) (s : System) : Prop :=
  (s.tcp.csPipe.get TcpFrame.length tcpBufLen).map (fun q => (disconUid q.1, q.1.conn)) =
      some (some 7, ⟨1, 1000⟩) ∧
    (s.players.getPlayer 7).map (fun p => p.tcpHead.conn) = some k ∧
    (s.tcp.pool k.socketPos).type = clinetSocket ∧ k.socketPos ∉ s.tcp.freeList ∧
    (s.tcp.pool k.socketPos).createTime = k.createTime

instance (k : Conn) (s : System) : Decidable (noticeNext k s) :=
  inferInstanceAs (Decidable (_ ∧ _))

def disconnects : List Event := [.send .sent, .recv 1 .eof]

/-- The login moves to slot 2 before slot 1 is released. -/
def movesAway : List Event := .send .sent :: travels 2 1001 loginBytes ++ [.recv 1 .eof]

/-- The notice of slot 1 takes away the login on slot 2, which is still open. -/
theorem late_discon_evicts_new_login :
    ∃ es s, Trace.Run (Step sampleCodec) free sampleStart es s ∧
      ∃ f cs, s.tcp.csPipe.get TcpFrame.length tcpBufLen = some (f, cs) ∧
        disconUid f = some 7 ∧ f.conn = ⟨1, 1000⟩ ∧
        ∃ p, s.players.getPlayer 7 = some p ∧ p.tcpHead.conn = ⟨2, 1001⟩ ∧
          (s.tcp.pool 2).type = clinetSocket ∧ (s.tcp.pool 2).createTime = 1001 ∧
          2 ∉ s.tcp.freeList ∧
          (getClientMessage sampleCodec s.server f).players.getPlayer 7 = none := by
  obtain ⟨s, hrun, hnotice, hplayer, htype, hfree, htime⟩ :=
    Trace.exists_run_of_exec (step sampleCodec) free sampleStart (loggedIn ++ movesAway)
      (noticeNext ⟨2, 1001⟩) (by decide +kernel)
  obtain ⟨⟨f, cs⟩, hget, hf⟩ := Option.map_eq_some_iff.mp hnotice
  obtain ⟨p, hp, hconn⟩ := Option.map_eq_some_iff.mp hplayer
  obtain ⟨hu, hc⟩ := Prod.mk.injEq .. ▸ hf
  have hvalid : s.players.Valid := hrun.invariant (fun s => s.players.Valid)
    (initial_valid _ _) fun _ _ _ hv _ hs => step_valid hv hs
  refine ⟨_, s, hrun, f, cs, hget, hu, hc, p, hp, hconn, htype, htime, hfree, ?_⟩
  rw [(getClientMessage_spec sampleCodec hvalid f).2.2 7, if_pos hu]

theorem run_late_discon_safe_release :
    ∃ es s, Trace.Run (Step sampleCodec) (LateGuard sampleCodec) sampleStart es s ∧
      ∃ f cs, s.tcp.csPipe.get TcpFrame.length tcpBufLen = some (f, cs) ∧
        disconUid f = some 7 ∧ ∀ w p, s.players.getPlayer w = some p →
          (getClientMessage sampleCodec s.server f).players.getPlayer w = some p ∨
            (w = 7 ∧ p.tcpHead.conn = f.conn) := by
  obtain ⟨s, hrun, hnotice⟩ :=
    Trace.exists_run_of_exec (step sampleCodec) (LateGuard sampleCodec) sampleStart
      (loggedIn ++ disconnects)
      (fun s => (s.tcp.csPipe.get TcpFrame.length tcpBufLen).map (fun q => disconUid q.1) =
        some (some 7)) (by decide +kernel)
  obtain ⟨⟨f, cs⟩, hget, hu⟩ := Option.map_eq_some_iff.mp hnotice
  exact ⟨_, s, hrun, f, cs, hget, hu,
    run_late_discon_safe sampleCodec sampleConf _ _ s hrun f cs hget 7 hu⟩

end HallSvr
