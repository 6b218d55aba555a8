import Dsf4g.LateDiscon

/-!
# Failed logins

`Msg::PlayerLogin` in `src/hallsvr/msg.cpp` kicks the player from another connection, then sends the
index to the gateway and takes a place for the player last. What it has done before a failure stays.
-/
namespace HallSvr

open Base TcpSvr

/-- Between two states the players and their connections are the same, no other connection is logged
out or closed, and the connection gets no index. -/
structure Undone (c : Codec) (v v' : Server) (head : TcpHead) : Prop where
  players : ∀ u, v'.players.getPlayer u = v.players.getPlayer u
  queued : ∃ fs, v'.sc.items = v.sc.items ++ fs ∧ ∀ f ∈ fs,
    (f.head.conn ≠ head.conn →
      f.head.needClose = false ∧ f.payload ≠ Bytes.be 4 (c.logout.length + 4) ++ c.logout) ∧
    (f.head.conn = head.conn → f.head.msgType ≠ logicIndexMsg)

/-- Pipe cells of an index message, and of a logout message. -/
def indexCost : Nat := 4 + (tcpHeadLen + 8)
def logoutCost (c : Codec) : Nat := 4 + (tcpHeadLen + (4 + c.logout.length))

/-- The `sc` pipe has room for an index message behind `cells` more cells. -/
def IndexFits (v : Server) (cells : Nat) : Prop :=
  v.sc.occupancy TcpFrame.cost + cells + indexCost ≤ v.sc.size - 1

/-- The cells that a logout message takes, if it is queued at all. -/
def logoutCells (c : Codec) (v : Server) : Nat :=
  if c.logout.length ≤ maxPbLen ∧ v.sc.occupancy TcpFrame.cost + logoutCost c ≤ v.sc.size - 1 then
    logoutCost c
  else 0

/-- The token is refused; or there is no player, and no room for the index or a place for the player;
or the player is on this connection, or leaves room for the index behind its logout. -/
def Harmless (c : Codec) (v : Server) (head : TcpHead) (uid : UInt64) (token : List UInt8)
    (now : UInt32) : Prop :=
  checkToken c uid token now = true →
    (v.players.getPlayer uid = none → IndexFits v 0 → v.players.objs.freeList ≠ []) ∧
    ∀ p, v.players.getPlayer uid = some p →
      p.tcpHead.conn = head.conn ∨ IndexFits v (logoutCells c v)

theorem Undone.refl (c : Codec) (v : Server) (head : TcpHead) : Undone c v v head :=
  ⟨fun _ => rfl, [], (List.append_nil _).symm, (fun _ hf => nomatch hf)⟩

theorem occupancy_snoc (q : Fifo TcpFrame) (f : TcpFrame) :
    Fifo.occupancy TcpFrame.cost { q with items := q.items ++ [f] } =
      q.occupancy TcpFrame.cost + f.cost := by
  simp only [Fifo.occupancy, List.map_append, List.sum_append, List.map_cons, List.map_nil,
    List.sum_cons, List.sum_nil, Nat.add_zero]

theorem indexFrame_cost (head : TcpHead) (uid : UInt64) : (indexFrame head uid).cost = indexCost := by
  rw [TcpFrame.cost, indexFrame, Bytes.le_length]
  rfl

/-- The index is queued when there is room for it. -/
theorem notify_fits {v : Server} {head : TcpHead} {uid : UInt64} (h : IndexFits v 0) :
    notifyTcpLogicIndex v head uid =
      some { v with sc := { v.sc with items := v.sc.items ++ [indexFrame head uid] } } := by
  have happend : v.sc.append TcpFrame.cost (indexFrame head uid) =
      some { v.sc with items := v.sc.items ++ [indexFrame head uid] } := by
    rw [Fifo.append, indexFrame_cost]
    exact if_pos h
  exact congrArg (Option.map _) happend

/-- Without room the login fails at once. -/
theorem notify_full {v : Server} {head : TcpHead} {uid : UInt64} (h : ¬ IndexFits v 0) :
    notifyTcpLogicIndex v head uid = none := by
  have happend : v.sc.append TcpFrame.cost (indexFrame head uid) = none := by
    rw [Fifo.append, indexFrame_cost]
    exact if_neg h
  exact congrArg (Option.map _) happend

/-- A logout message takes its cells. -/
theorem sendLogout_cells (c : Codec) (v : Server) (head : TcpHead) :
    (sendMsgToClient v head c.logout true).sc.size = v.sc.size ∧
      (sendMsgToClient v head c.logout true).sc.occupancy TcpFrame.cost =
        v.sc.occupancy TcpFrame.cost + logoutCells c v := by
  have hcost : ∀ h : TcpHead, TcpFrame.cost
      ⟨h, Bytes.be 4 (c.logout.length + 4) ++ c.logout, h.conn⟩ = logoutCost c := by
    intro h
    rw [TcpFrame.cost, List.length_append, Bytes.be, List.length_reverse, Bytes.le_length]
    rfl
  rw [logoutCells, sendMsgToClient]
  by_cases hlong : c.logout.length > maxPbLen
  · rw [if_pos hlong, if_neg (fun h => absurd h.1 (Nat.not_le.mpr hlong))]
    exact ⟨rfl, rfl⟩
  · rw [if_neg hlong]
    dsimp only
    rw [Fifo.append, hcost]
    by_cases hroom : v.sc.occupancy TcpFrame.cost + logoutCost c ≤ v.sc.size - 1
    · rw [if_pos hroom, if_pos ⟨Nat.not_lt.mp hlong, hroom⟩, Option.getD_some, occupancy_snoc, hcost]
      exact ⟨rfl, rfl⟩
    · rw [if_neg hroom, if_neg (fun h => hroom h.2)]
      exact ⟨rfl, rfl⟩

/-- The logout of the old connection is queued in front of the index. -/
theorem logout_fits_iff {c : Codec} {v : Server} {uid : UInt64} {p : Player}
    (hp : v.players.getPlayer uid = some p) :
    IndexFits (playerLogout c v uid true) 0 ↔ IndexFits v (logoutCells c v) := by
  obtain ⟨hsize, hcells⟩ := sendLogout_cells c v p.tcpHead
  rw [IndexFits, IndexFits, playerLogout_sc c hp, hsize, hcells]
  rfl

/-- A login without a player, in a state that it does not change. -/
theorem bindPlayer_undone_iff (c : Codec) (v : Server) (head : TcpHead) (uid : UInt64) :
    ((bindPlayer v head uid).ok = false → Undone c v (bindPlayer v head uid).server head) ↔
      (IndexFits v 0 → v.players.objs.freeList ≠ []) := by
  rw [bindPlayer]
  by_cases hfits : IndexFits v 0
  · rw [notify_fits hfits]
    dsimp only
    cases hfree : v.players.objs.freeList with
    | nil =>
      have hnone : v.players.createPlayer uid = none := by
        simp only [PlayerManager.createPlayer, ObjectMng.malloc, hfree]
      rw [hnone]
      refine iff_of_false (fun h => ?_) fun h => h hfits rfl
      obtain ⟨fs, hfs, hall⟩ := (h rfl).queued
      have hone := List.append_cancel_left hfs
      have hmem : indexFrame head uid ∈ fs := by
        rw [← hone]
        exact List.mem_singleton_self _
      exact (hall _ hmem).2 rfl rfl
    | cons pos rest =>
      refine iff_of_true (fun h => ?_) fun _ => List.cons_ne_nil pos rest
      simp only [PlayerManager.createPlayer, ObjectMng.malloc, hfree] at h
      cases h
  · rw [notify_full hfits]
    exact iff_of_true (fun _ => Undone.refl c v head) fun h => absurd h hfits

/-- A login that has removed its player. -/
theorem rebind_undone_iff (c : Codec) {v : Server} (hv : v.players.Valid) (head : TcpHead)
    {uid : UInt64} {p : Player} (hp : v.players.getPlayer uid = some p) :
    ((bindPlayer (playerLogout c v uid true) head uid).ok = false →
      Undone c v (bindPlayer (playerLogout c v uid true) head uid).server head) ↔
      IndexFits v (logoutCells c v) := by
  rw [← logout_fits_iff hp]
  by_cases hfits : IndexFits (playerLogout c v uid true) 0
  · refine iff_of_true (fun h => ?_) hfits
    rw [rebind_ok c hv hp, notify_fits hfits] at h
    cases h
  · refine iff_of_false (fun h => ?_) hfits
    rw [bindPlayer, notify_full hfits] at h
    have hgone := (h rfl).players uid
    dsimp only at hgone
    rw [playerLogout_players c hv hp, hv.get_release, if_pos rfl, hp] at hgone
    cases hgone

/-- A failed login changes nothing exactly when it is harmless. -/
theorem playerLogin_undone_iff (c : Codec) {v : Server} (hv : v.players.Valid) (head : TcpHead)
    (uid : UInt64) (token : List UInt8) (now : UInt32) :
    ((playerLogin c v head uid token now).ok = false →
      Undone c v (playerLogin c v head uid token now).server head) ↔
      Harmless c v head uid token now := by
  rw [playerLogin, Harmless]
  cases htoken : checkToken c uid token now with
  | false => exact iff_of_true (fun _ => Undone.refl c v head) fun h => nomatch h
  | true =>
    rw [if_pos rfl, forall_prop_of_true rfl]
    cases hp : v.players.getPlayer uid with
    | none =>
      refine (bindPlayer_undone_iff c v head uid).trans ⟨fun h => ⟨fun _ => h, ?_⟩, fun h => h.1 rfl⟩
      exact fun _ hq => nomatch hq
    | some p =>
      dsimp only
      split
      · next hsame =>
        refine iff_of_true (fun h => nomatch h) ⟨(fun hq => nomatch hq), fun q hq => ?_⟩
        cases hq
        exact .inl (congrArg₂ Conn.mk hsame.1 hsame.2)
      · next hother =>
        refine (rebind_undone_iff c hv head hp).trans ⟨fun h => ⟨(fun hq => nomatch hq), ?_⟩, ?_⟩
        · exact fun _ _ => .inr h
        · intro h
          refine (h.2 p rfl).resolve_left fun hconn => hother ?_
          exact ⟨congrArg Conn.socketPos hconn, congrArg Conn.createTime hconn⟩

/-- In every reachable state, for every login request. -/
theorem run_failed_login_iff (c : Codec) (conf : Conf) (mem : Nat → UInt8) (es : List Event)
    (s : System) (hrun : Trace.Run (Step c) free (System.initial conf mem) es s) (head : TcpHead)
    (uid : UInt64) (token : List UInt8) (now : UInt32) :
    ((playerLogin c s.server head uid token now).ok = false →
      Undone c s.server (playerLogin c s.server head uid token now).server head) ↔
      Harmless c s.server head uid token now := by
  have hvalid : s.players.Valid := hrun.invariant (fun s => s.players.Valid)
    (initial_valid conf mem) fun _ _ _ hv _ hs => step_valid hv hs
  have hserver : s.server.players.Valid := hvalid
  exact playerLogin_undone_iff c hserver head uid token now

def narrowConf : Conf := ⟨4, 10000, 60, 100000, 4, 4⟩

/-- Player 7 is on slot 1, and logs in on slot 2 next. -/
def secondLogin : List Event := loggedIn ++ [.recv 2 (.data (clientFrame loginBytes)), .fetch]

def lostPlayer (s : System) : Prop :=
  s.msgPipe.items = [.client (sampleHead 2 1001) loginBytes] ∧
    (s.players.getPlayer 7).map (fun p => p.tcpHead) = some (sampleHead 1 1000) ∧
    (playerLogin sampleCodec s.server (sampleHead 2 1001) 7 [116] 2000).ok = false ∧
    (playerLogin sampleCodec s.server (sampleHead 2 1001) 7 [116] 2000).server.players.getPlayer 7 =
      none

instance (s : System) : Decidable (lostPlayer s) := inferInstanceAs (Decidable (_ ∧ _))

/-- The second login of the failing run is refused, and the player is gone. -/
theorem secondLogin_lost :
    ∃ s, Trace.Run (Step sampleCodec) free (System.initial narrowConf fun _ => 0) secondLogin s ∧
      lostPlayer s :=
  Trace.exists_run_of_exec (step sampleCodec) free (System.initial narrowConf fun _ => 0)
    secondLogin lostPlayer (by decide +kernel)

theorem run_failed_login_iff_second :
    ∃ s, Trace.Run (Step sampleCodec) free (System.initial narrowConf fun _ => 0) secondLogin s ∧
      (((playerLogin sampleCodec s.server (sampleHead 2 1001) 7 [116] 2000).ok = false →
        Undone sampleCodec s.server
          (playerLogin sampleCodec s.server (sampleHead 2 1001) 7 [116] 2000).server
          (sampleHead 2 1001)) ↔
        Harmless sampleCodec s.server (sampleHead 2 1001) 7 [116] 2000) := by
  obtain ⟨s, hrun, -⟩ := secondLogin_lost
  exact ⟨s, hrun, run_failed_login_iff sampleCodec narrowConf _ secondLogin s hrun
    (sampleHead 2 1001) 7 [116] 2000⟩

/-- The player is removed from slot 1, and the index for slot 2 finds the pipe full. -/
theorem failed_login_drops_player :
    ∃ s, Trace.Run (Step sampleCodec) free (System.initial narrowConf fun _ => 0) secondLogin s ∧
      s.msgPipe.items = [.client (sampleHead 2 1001) loginBytes] ∧
      (playerLogin sampleCodec s.server (sampleHead 2 1001) 7 [116] 2000).ok = false ∧
      ¬ Undone sampleCodec s.server
        (playerLogin sampleCodec s.server (sampleHead 2 1001) 7 [116] 2000).server
        (sampleHead 2 1001) := by
  obtain ⟨s, hrun, hnext, hplayer, hfail, hgone⟩ := secondLogin_lost
  refine ⟨s, hrun, hnext, hfail, fun h => ?_⟩
  have hnone : s.players.getPlayer 7 = none := (h.players 7).symm.trans hgone
  rw [hnone] at hplayer
  cases hplayer

end HallSvr
