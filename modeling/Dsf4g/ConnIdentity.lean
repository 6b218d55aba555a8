import Mathlib.Data.List.Forall2
import Dsf4g.Lib.Names
import Dsf4g.Lib.Trace
import Dsf4g.TcpSteps

/-!
# Frames and the connections they mean

The logic server names a connection by its slot and the millisecond of its accept,
which it copies from the head of a message. The gateway looks both up when the frame
comes out of the `sc` pipe. Slots are reused through a free list, so two connections
of one slot have one name when they were accepted in the same millisecond.
-/
namespace ConnIdentity

open Base TcpSvr

/-- The name in the head of a message, and the connection the message came from, counted in the
order of the accepts. -/
structure Head where
  conn : Conn
  source : Nat
  deriving DecidableEq, Repr

/-- A frame that the gateway acted on: the connection in the slot, if there was one, and the one that
the frame meant. -/
structure Acted where
  target : Option Nat
  meant : Nat
  deriving DecidableEq, Repr

/-- The gateway with its pipes. `owner` says which connection was last accepted in a slot, `heads`
which names the logic server has been given, and `meant` which connections the frames in the `sc`
pipe mean. -/
structure World where
  tcp : Svr
  clock : Nat
  owner : Nat → Nat
  accepted : Nat
  heads : List Head
  meant : List Nat
  acted : List Acted

def World.holder (w : World) (pos : Nat) : Option Nat :=
  if (w.tcp.pool pos).type = clinetSocket then some (w.owner pos) else none

inductive Event where
  | accept (r : AcceptResult)
  /-- `EPOLLERR` on a slot. -/
  | error (pos : Nat)
  | recv (pos : Nat) (r : RecvResult)
  /-- The logic server takes a frame from the `cs` pipe. -/
  | fetch
  /-- The logic server sends a frame to a connection whose name it has been given. -/
  | post (f : TcpFrame) (meant : Nat)
  /-- The gateway takes a frame from the `sc` pipe. -/
  | send (r : SendResult)

def World.accept (w : World) (r : AcceptResult) : World :=
  match w.tcp.freeList, r with
  | pos :: _, .ok _ msec _ _ =>
    { w with
      tcp := acceptConnect w.tcp r
      clock := msec
      owner := Function.update w.owner pos w.accepted
      accepted := w.accepted + 1 }
  | _, _ => { w with tcp := acceptConnect w.tcp r }

/-- The clock does not go back, and it fits its type. -/
def ClockOk (clock : Nat) : AcceptResult → Prop
  | .ok _ msec _ _ => clock ≤ msec ∧ msec < 2 ^ 64
  | _ => True

instance (clock : Nat) : (r : AcceptResult) → Decidable (ClockOk clock r)
  | .ok .. => inferInstanceAs (Decidable (_ ∧ _))
  | .failed | .setupFailed _ => inferInstanceAs (Decidable True)

/-- The names in the frames that were handed to the `cs` pipe. -/
def newHeads (calls : List AppendCall) (source : Nat) : List Head :=
  (calls.filter fun call => call.ok).map fun call => ⟨call.frame.head.conn, source⟩

def World.recv (w : World) (pos : Nat) (r : RecvResult) : World :=
  let round := recvRound w.tcp pos r
  { w with tcp := round.svr, heads := w.heads ++ newHeads round.calls (w.owner pos) }

instance (t : Svr) (f : TcpFrame) : Decidable (Reaches t f) :=
  decidable_of_iff (f.head.socketPos < t.maxClientNum ∧
    f.head.createTime = (t.pool f.head.socketPos).createTime)
    ⟨fun h => ⟨h.1, h.2⟩, fun h => ⟨h.1, h.2⟩⟩

/-- `SendDataToClient`. A frame that passes its two checks is sent, closes the connection or sets
`logic_index`. -/
def World.send (w : World) (f : TcpFrame) (meant : Nat) (r : SendResult) : World :=
  { w with
    tcp := sendDataToClient w.tcp f r
    acted := w.acted ++
      (if Reaches w.tcp f then [⟨w.holder f.head.socketPos, meant⟩] else []) }

def World.taken (w : World) (sc : Fifo TcpFrame) (meant : List Nat) : World :=
  { w with tcp := { w.tcp with scPipe := sc }, meant := meant }

def frameLength (f : TcpFrame) : Nat := tcpHeadLen + f.payload.length

def next (w : World) : Event → Option World
  | .accept r => if ClockOk w.clock r then some (w.accept r) else none
  | .error pos =>
    if pos < w.tcp.maxClientNum ∧ (w.tcp.pool pos).type ≠ 0 then
      some { w with tcp := socketRelease w.tcp pos true }
    else none
  | .recv pos r =>
    if pos < w.tcp.maxClientNum ∧ (w.tcp.pool pos).type = clinetSocket then some (w.recv pos r)
    else none
  | .fetch =>
    match w.tcp.csPipe.get frameLength tcpBufLen with
    | none => none
    | some (_, cs) => some { w with tcp := { w.tcp with csPipe := cs } }
  | .post f meant =>
    if (⟨f.head.conn, meant⟩ : Head) ∈ w.heads then
      match w.tcp.scPipe.append TcpFrame.cost f with
      | none => some w
      | some sc => some { w with tcp := { w.tcp with scPipe := sc }, meant := w.meant ++ [meant] }
    else none
  | .send r =>
    match w.tcp.scPipe.get frameLength tcpBufLen, w.meant with
    | some (f, sc), i :: rest =>
      some ((w.taken sc rest).send f i r)
    | _, _ => none

def initial (maxClientNum : UInt32) (mem : Nat → UInt8) (csSize scSize : Nat) : World where
  tcp := initNetwork maxClientNum.toNat mem ⟨csSize, []⟩ ⟨scSize, []⟩
  clock := 0
  owner := fun _ => 0
  accepted := 0
  heads := []
  meant := []
  acted := []

/-- The name of a new connection is not one that the logic server has been given for an earlier
connection, nor that of an empty slot. -/
def FreshName (w : World) : Event → Prop
  | .accept (.ok _ msec _ _) =>
    ∀ pos ∈ w.tcp.freeList.head?, msec ≠ 0 ∧ ∀ h ∈ w.heads, h.conn ≠ ⟨pos, msec⟩
  | _ => True

/-! ## The head of a message -/

/-- The name written in front of a frame is that of its connection. -/
theorem writeTcpHead_conn (m : Nat → UInt8) (a : Nat) {s : Socket} (hpos : s.socketPos < 2 ^ 32)
    (htime : s.createTime < 2 ^ 64) : (readTcpHead (writeTcpHead m a s) a).conn = s.conn := by
  have haddr := s.socketAddr.property
  have hcreate : Memory.read (writeTcpHead m a s) a 8 = Bytes.le 8 s.createTime := by
    simp only [writeTcpHead]
    rw [Memory.read_write_disjoint _ _ _ _ _ (by simp),
      Memory.read_write_disjoint _ _ _ _ _ (by simp),
      Memory.read_write_disjoint _ _ _ _ _ (by simp)]
    exact Memory.read_write_same _ _ (Bytes.le 8 s.createTime)
  have hslot : Memory.read (writeTcpHead m a s) (a + 8) 4 = Bytes.le 4 s.socketPos := by
    simp only [writeTcpHead]
    rw [Memory.read_write_disjoint _ _ _ _ _ (by simp),
      Memory.read_write_disjoint _ _ _ _ _ (by simp),
      Memory.read_write_disjoint _ _ _ _ _ (by simp),
      Memory.read_write_disjoint _ _ _ _ _ (by simp)]
    exact Memory.read_write_same _ _ (Bytes.le 4 s.socketPos)
  simp only [readTcpHead, TcpHead.conn, Socket.conn, hcreate, hslot]
  rw [Bytes.ofLe_le_of_lt (by omega), Bytes.ofLe_le_of_lt (by omega)]

/-- Every frame handed on names the connection of the slot it was read from. -/
theorem parseFrames_conn {s : Socket} (hpos : s.socketPos < 2 ^ 32) (htime : s.createTime < 2 ^ 64)
    (p : Parse) : ∀ call ∈ (parseFrames s p).calls,
      call ∈ p.calls ∨ call.frame.head.conn = s.conn := by
  have hframe : ∀ p : Parse, (p.frame s).head.conn = s.conn := fun p =>
    writeTcpHead_conn p.mem (p.tmpRecv - tcpHeadLen) hpos htime
  have hcalled : ∀ (p : Parse) (ok : Bool), ∀ call ∈ (p.called s ok).calls,
      call ∈ p.calls ∨ call.frame.head.conn = s.conn := by
    intro p ok call hcall
    obtain hcall | hcall := List.mem_append.mp hcall
    · exact .inl hcall
    · obtain rfl := List.mem_singleton.mp hcall
      exact .inr (hframe p)
  fun_induction parseFrames s p with
  | case1 => exact fun _ hcall => .inl hcall
  | case2 => exact fun _ hcall => .inl hcall
  | case3 => exact fun _ hcall => .inl hcall
  | case4 p => exact hcalled p false
  | case5 p h₁ h₂ h₃ cs ha ih =>
    intro call hcall
    obtain hcall | hconn := ih call hcall
    · exact hcalled p true call hcall
    · exact .inr hconn

theorem consume_conn (t : Svr) (pos n : Nat) (again : Bool) (hpos : (t.pool pos).socketPos < 2 ^ 32)
    (htime : (t.pool pos).createTime < 2 ^ 64) :
    ∀ call ∈ (consume t pos n again).calls, call.frame.head.conn = (t.pool pos).conn := by
  intro call hcall
  rw [TcpDeframe.consume_calls] at hcall
  have hparse := parseFrames_conn (s := { t.pool pos with bufOffset := n }) hpos htime
    (startParse t pos n) call hcall
  obtain hnone | hconn := hparse
  · cases hnone
  · exact hconn

theorem recvRound_conn (t : Svr) (pos : Nat) (r : RecvResult)
    (hpos : (t.pool pos).socketPos < 2 ^ 32) (htime : (t.pool pos).createTime < 2 ^ 64) :
    ∀ call ∈ (recvRound t pos r).calls, call.frame.head.conn = (t.pool pos).conn := by
  simp only [recvRound]
  split
  · exact List.forall_mem_nil _
  · cases r with
    | eof => exact List.forall_mem_nil _
    | fatal => exact List.forall_mem_nil _
    | again => exact consume_conn t pos _ false hpos htime
    | data bytes => exact consume_conn _ pos _ true hpos htime

/-! ## Slots that lose their connections -/

def identity (s : Socket) : Nat × Nat × Nat := (s.type, s.createTime, s.socketPos)

structure Shrinks (t t' : Svr) : Prop where
  maxClientNum : t'.maxClientNum = t.maxClientNum
  scPipe : t'.scPipe = t.scPipe
  slot : ∀ i, identity (t'.pool i) = identity (t.pool i) ∨ identity (t'.pool i) = (0, 0, i)

theorem Shrinks.refl (t : Svr) : Shrinks t t := ⟨rfl, rfl, fun _ => .inl rfl⟩

theorem Shrinks.trans {t t₁ t' : Svr} (h : Shrinks t t₁) (h' : Shrinks t₁ t') : Shrinks t t' := by
  refine ⟨h'.maxClientNum.trans h.maxClientNum, h'.scPipe.trans h.scPipe, fun i => ?_⟩
  obtain hsame | hclear := h'.slot i
  · obtain hsame' | hclear := h.slot i
    · exact .inl (hsame.trans hsame')
    · exact .inr (hsame.trans hclear)
  · exact .inr hclear

theorem shrinks_of_quiet {t t' : Svr} (h : Quiet t t') : Shrinks t t' := by
  refine ⟨h.maxClientNum, h.scPipe, fun i => .inl ?_⟩
  obtain ⟨n, hn⟩ := h.slot i
  rw [hn]
  rfl

theorem socketRelease_shrinks (t : Svr) (pos : Nat) (notify : Bool) :
    Shrinks t (socketRelease t pos notify) := by
  by_cases hpos : pos < t.maxClientNum
  · have h := socketRelease_released t pos notify hpos
    refine ⟨h.maxClientNum, h.scPipe, fun i => ?_⟩
    by_cases hi : i = pos
    · subst hi
      exact .inr (by rw [h.slot]; rfl)
    · exact .inl (by rw [h.other i hi])
  · rw [socketRelease, if_pos (Nat.not_lt.mp hpos)]
    exact Shrinks.refl t

theorem recvRound_shrinks (t : Svr) (pos : Nat) (r : RecvResult) :
    Shrinks t (recvRound t pos r).svr := by
  obtain ⟨t₁, -, hquiet, heq⟩ | ⟨-, hquiet⟩ := recvRound_cases t pos r
  · rw [heq]
    exact (shrinks_of_quiet hquiet).trans (socketRelease_shrinks ..)
  · exact shrinks_of_quiet hquiet

theorem sendDataToClient_shrinks (t : Svr) (f : TcpFrame) (r : SendResult) :
    Shrinks t (sendDataToClient t f r) := by
  obtain ⟨heq, -⟩ | ⟨-, -, heq⟩ | ⟨-, -, -, heq⟩ | ⟨-, -, heq⟩ := sendDataToClient_cases t f r
  · rw [heq]
    exact Shrinks.refl t
  · rw [heq]
    refine ⟨rfl, rfl, fun i => .inl ?_⟩
    by_cases hi : i = f.head.socketPos
    · subst hi
      rw [setSocket_pool]
      rfl
    · rw [setSocket_pool_other _ _ _ _ hi]
  · rw [heq]
    exact socketRelease_shrinks ..
  · rw [heq]
    exact socketRelease_shrinks ..

/-! ## The invariant -/

def current (w : World) (k : Conn) : Option Nat :=
  if (w.tcp.pool k.socketPos).createTime = k.createTime then w.holder k.socketPos else none

/-- The logic server has been given the name in a message of the connection. -/
def Given (w : World) (k : Conn) (source : Nat) : Prop := (⟨k, source⟩ : Head) ∈ w.heads

structure Inv (n : UInt32) (w : World) : Prop where
  maxClientNum : w.tcp.maxClientNum = n.toNat
  named : ∀ i, (w.tcp.pool i).socketPos = i
  time : ∀ i, (w.tcp.pool i).createTime < 2 ^ 64
  empty : ∀ i, (w.tcp.pool i).type ≠ clinetSocket → (w.tcp.pool i).createTime = 0
  nonzero : ∀ h ∈ w.heads, h.conn.createTime ≠ 0
  filled : ∀ i, (w.tcp.pool i).type = clinetSocket → (w.tcp.pool i).createTime ≠ 0
  matched : Names.Matched (current w) (Given w)
  meant : List.Forall₂ (fun f i => Given w f.head.conn i) w.tcp.scPipe.items w.meant
  right : ∀ a ∈ w.acted, a.target = some a.meant

section Steps

variable {n : UInt32} {w : World}

/-- Connections that stay are found under the names they had. -/
theorem current_shrink {t' : Svr} (hs : Shrinks w.tcp t') {k : Conn} {j : Nat}
    (h : current { w with tcp := t' } k = some j) : current w k = some j := by
  simp only [current, World.holder] at h ⊢
  obtain hsame | hclear := hs.slot k.socketPos
  · simp only [identity, Prod.mk.injEq] at hsame
    rw [← hsame.1, ← hsame.2.1]
    exact h
  · simp only [identity, Prod.mk.injEq] at hclear
    rw [hclear.1, if_neg (show ¬ 0 = clinetSocket by decide), ite_self] at h
    cases h

/-- Slots that are cleared make no name wrong. -/
theorem Inv.shrink (h : Inv n w) {t' : Svr} (hs : Shrinks w.tcp t') :
    Inv n { w with tcp := t' } := by
  refine ⟨hs.maxClientNum.trans h.maxClientNum, fun i => ?_, fun i => ?_, fun i hi => ?_, h.nonzero,
    fun i hi => ?_, ?_, ?_, h.right⟩
  · obtain hsame | hclear := hs.slot i
    · simp only [identity, Prod.mk.injEq] at hsame
      exact hsame.2.2.trans (h.named i)
    · simp only [identity, Prod.mk.injEq] at hclear
      exact hclear.2.2
  · obtain hsame | hclear := hs.slot i
    · simp only [identity, Prod.mk.injEq] at hsame
      exact hsame.2.1 ▸ h.time i
    · simp only [identity, Prod.mk.injEq] at hclear
      show (t'.pool i).createTime < 2 ^ 64
      rw [hclear.2.1]
      decide
  · obtain hsame | hclear := hs.slot i
    · simp only [identity, Prod.mk.injEq] at hsame
      exact hsame.2.1.trans (h.empty i (hsame.1 ▸ hi))
    · simp only [identity, Prod.mk.injEq] at hclear
      exact hclear.2.1
  · obtain hsame | hclear := hs.slot i
    · simp only [identity, Prod.mk.injEq] at hsame
      exact hsame.2.1 ▸ h.filled i (hsame.1 ▸ hi)
    · simp only [identity, Prod.mk.injEq] at hclear
      rw [hclear.1] at hi
      cases hi
  · exact h.matched.anti (fun _ _ _ _ hc => current_shrink hs hc) fun _ _ ho => ho
  · show List.Forall₂ _ t'.scPipe.items w.meant
    rw [hs.scPipe]
    exact h.meant

/-- A frame for a name that was given reaches the connection the name came from. -/
theorem Inv.holder_eq (h : Inv n w) {f : TcpFrame} {i : Nat} (hg : Given w f.head.conn i)
    (hr : Reaches w.tcp f) : w.holder f.head.socketPos = some i := by
  have htime : (w.tcp.pool f.head.conn.socketPos).createTime = f.head.conn.createTime :=
    hr.sameTime.symm
  have hcur : current w f.head.conn = w.holder f.head.socketPos := by
    rw [current, if_pos htime]
    rfl
  cases hh : w.holder f.head.socketPos with
  | some j => rw [h.matched _ i j hg (hcur.trans hh)]
  | none =>
    have htype : (w.tcp.pool f.head.socketPos).type ≠ clinetSocket := by
      intro ht
      rw [World.holder, if_pos ht] at hh
      cases hh
    exact absurd (htime.symm.trans (h.empty _ htype)) (h.nonzero _ hg)

theorem Inv.send (h : Inv n w) {f : TcpFrame} {i : Nat} (hg : Given w f.head.conn i)
    (r : SendResult) : Inv n (w.send f i r) := by
  have hs := h.shrink (sendDataToClient_shrinks w.tcp f r)
  refine ⟨hs.maxClientNum, hs.named, hs.time, hs.empty, hs.nonzero, hs.filled, hs.matched, hs.meant,
    fun a ha => ?_⟩
  obtain ha | ha := List.mem_append.mp ha
  · exact h.right a ha
  · split at ha
    · next hr =>
      obtain rfl := List.mem_singleton.mp ha
      exact h.holder_eq hg hr
    · cases ha

/-- The next frame of the `sc` pipe carries a name that the logic server was given. -/
theorem Inv.taken (h : Inv n w) {f : TcpFrame} {sc : Fifo TcpFrame} {i : Nat} {rest : List Nat}
    (hget : w.tcp.scPipe.get frameLength tcpBufLen = some (f, sc)) (hmeant : w.meant = i :: rest) :
    Inv n (w.taken sc rest) ∧ Given w f.head.conn i := by
  obtain ⟨fs, hfs, rfl⟩ := Fifo.get_eq_some hget
  have hall := h.meant
  rw [hfs, hmeant] at hall
  obtain ⟨hg, hrest⟩ := List.forall₂_cons.mp hall
  exact ⟨⟨h.maxClientNum, h.named, h.time, h.empty, h.nonzero, h.filled, h.matched, hrest, h.right⟩,
    hg⟩

theorem Inv.post (h : Inv n w) {f : TcpFrame} {i : Nat} {sc : Fifo TcpFrame}
    (hg : Given w f.head.conn i) (happ : w.tcp.scPipe.append TcpFrame.cost f = some sc) :
    Inv n { w with tcp := { w.tcp with scPipe := sc }, meant := w.meant ++ [i] } := by
  obtain ⟨rfl, -⟩ := Fifo.append_eq_some _ happ
  exact ⟨h.maxClientNum, h.named, h.time, h.empty, h.nonzero, h.filled, h.matched,
    List.rel_append h.meant (.cons hg .nil), h.right⟩

/-- The logic server is given names of the connection in a slot. -/
theorem Inv.give (h : Inv n w) {pos : Nat} (htype : (w.tcp.pool pos).type = clinetSocket)
    {hs : List Head} (hnew : ∀ hd ∈ hs, hd = ⟨(w.tcp.pool pos).conn, w.owner pos⟩) :
    Inv n { w with heads := w.heads ++ hs } := by
  have hpos : (w.tcp.pool pos).conn.socketPos = pos := h.named pos
  have hcur : current w (w.tcp.pool pos).conn = some (w.owner pos) := by
    simp only [current, hpos, World.holder, htype, if_true]
    exact if_pos rfl
  have hold : ∀ {k : Conn} {i : Nat}, Given w k i → Given { w with heads := w.heads ++ hs } k i :=
    fun hg => List.mem_append_left hs hg
  refine ⟨h.maxClientNum, h.named, h.time, h.empty, fun hd hmem => ?_, h.filled, ?_,
    h.meant.imp fun _ _ hg => hold hg, h.right⟩
  · obtain hmem | hmem := List.mem_append.mp hmem
    · exact h.nonzero hd hmem
    · rw [hnew hd hmem]
      exact h.filled pos htype
  · refine h.matched.ask hcur fun k i hg => ?_
    obtain hg | hg := List.mem_append.mp hg
    · exact .inl hg
    · obtain ⟨rfl, rfl⟩ := Head.mk.inj (hnew _ hg)
      exact .inr ⟨rfl, rfl⟩

theorem Inv.recv (h : Inv n w) {pos : Nat} (hpos : pos < w.tcp.maxClientNum)
    (htype : (w.tcp.pool pos).type = clinetSocket) (r : RecvResult) : Inv n (w.recv pos r) := by
  have hslot : (w.tcp.pool pos).socketPos < 2 ^ 32 := by
    rw [h.named]
    rw [h.maxClientNum] at hpos
    exact Nat.lt_trans hpos n.toNat_lt
  have hconn := recvRound_conn w.tcp pos r hslot (h.time pos)
  have hnew : ∀ hd ∈ newHeads (recvRound w.tcp pos r).calls (w.owner pos),
      hd = ⟨(w.tcp.pool pos).conn, w.owner pos⟩ := by
    intro hd hmem
    obtain ⟨call, hcall, rfl⟩ := List.mem_map.mp hmem
    rw [hconn call (List.mem_of_mem_filter hcall)]
  exact (h.give htype hnew).shrink (recvRound_shrinks w.tcp pos r)

/-- A slot leaves the free list, and a descriptor is opened. -/
theorem taken_shrinks (t : Svr) (free : List Nat) (fds : List Int) :
    Shrinks t { t with freeList := free, fds := fds } := ⟨rfl, rfl, fun _ => .inl rfl⟩

/-- A new connection in a slot, under a name that the logic server has not been given. -/
theorem Inv.connect (h : Inv n w) {t' : Svr} {pos msec : Nat}
    (hmax : t'.maxClientNum = w.tcp.maxClientNum) (hsc : t'.scPipe = w.tcp.scPipe)
    (hother : ∀ i, i ≠ pos → t'.pool i = w.tcp.pool i)
    (hslot : identity (t'.pool pos) = (clinetSocket, msec, pos)) (hmsec : msec < 2 ^ 64)
    (hne : msec ≠ 0) (hnew : ∀ hd ∈ w.heads, hd.conn ≠ ⟨pos, msec⟩) :
    Inv n { w with
      tcp := t'
      clock := msec
      owner := Function.update w.owner pos w.accepted
      accepted := w.accepted + 1 } := by
  simp only [identity, Prod.mk.injEq] at hslot
  obtain ⟨htype, htime, hpos⟩ := hslot
  refine ⟨hmax.trans h.maxClientNum, fun i => ?_, fun i => ?_, fun i hi => ?_, h.nonzero,
    fun i hi => ?_, ?_, ?_, h.right⟩
  · by_cases hi : i = pos
    · rw [hi]
      exact hpos
    · exact hother i hi ▸ h.named i
  · by_cases hi : i = pos
    · rw [hi]
      exact htime ▸ hmsec
    · exact hother i hi ▸ h.time i
  · dsimp only at hi ⊢
    by_cases hp : i = pos
    · subst hp
      exact absurd htype hi
    · rw [hother i hp] at hi ⊢
      exact h.empty i hi
  · dsimp only at hi ⊢
    by_cases hp : i = pos
    · subst hp
      exact htime ▸ hne
    · rw [hother i hp] at hi ⊢
      exact h.filled i hi
  · refine h.matched.anti (fun k i j hg hc => ?_) fun _ _ hg => hg
    have hk : k ≠ ⟨pos, msec⟩ := hnew _ hg
    simp only [current, World.holder] at hc ⊢
    by_cases hp : k.socketPos = pos
    · have hk' : msec ≠ k.createTime := by
        rintro rfl
        subst hp
        exact hk rfl
      rw [hp, htime, if_neg hk'] at hc
      cases hc
    · rw [hother _ hp, Function.update_of_ne hp] at hc
      exact hc
  · show List.Forall₂ _ t'.scPipe.items w.meant
    rw [hsc]
    exact h.meant

/-- A fresh name finds no message under way. -/
theorem Inv.accept (h : Inv n w) {r : AcceptResult} (hclock : ClockOk w.clock r)
    (hfresh : FreshName w (.accept r)) : Inv n (w.accept r) := by
  cases hfree : w.tcp.freeList with
  | nil =>
    have heq : acceptConnect w.tcp r = w.tcp := by simp only [acceptConnect, hfree]
    simp only [World.accept, hfree, heq]
    exact h
  | cons pos rest =>
    cases r with
    | failed =>
      have hs : Shrinks w.tcp (acceptConnect w.tcp .failed) := by
        simp only [acceptConnect, hfree]
        exact (taken_shrinks w.tcp rest w.tcp.fds).trans (socketRelease_shrinks ..)
      simp only [World.accept, hfree]
      exact h.shrink hs
    | setupFailed fd =>
      have hs : Shrinks w.tcp (acceptConnect w.tcp (.setupFailed fd)) := by
        simp only [acceptConnect, hfree]
        exact (taken_shrinks w.tcp rest (fd :: w.tcp.fds)).trans (socketRelease_shrinks ..)
      simp only [World.accept, hfree]
      exact h.shrink hs
    | ok fd msec port addr =>
      obtain ⟨hne, hnew⟩ := hfresh pos (by rw [hfree]; rfl)
      have hacc : acceptConnect w.tcp (.ok fd msec port addr) =
          setSocket { w.tcp with freeList := rest, fds := fd :: w.tcp.fds } pos
            { w.tcp.pool pos with
              fd := fd, type := clinetSocket, createTime := msec, logicIndex := 0, bufOffset := 0,
              socketPort := port, socketAddr := addr } := by
        simp only [acceptConnect, hfree]
      simp only [World.accept, hfree]
      refine h.connect ?_ ?_ (fun i hi => ?_) ?_ hclock.2 hne hnew
      · rw [hacc]
        rfl
      · rw [hacc]
        rfl
      · rw [hacc, setSocket_pool_other _ _ _ _ hi]
      · rw [hacc, setSocket_pool]
        simp only [identity, h.named]

end Steps

/-- Every step whose new name is fresh keeps the invariant. -/
theorem step_inv {n : UInt32} {w w' : World} {e : Event} (h : Inv n w) (hg : FreshName w e)
    (hs : next w e = some w') : Inv n w' := by
  cases e with
  | accept r =>
    simp only [next] at hs
    split at hs
    · next hclock =>
      cases hs
      exact h.accept hclock hg
    · cases hs
  | error pos =>
    simp only [next] at hs
    split at hs
    · cases hs
      exact h.shrink (socketRelease_shrinks w.tcp pos true)
    · cases hs
  | recv pos r =>
    simp only [next] at hs
    split at hs
    · next hpos =>
      cases hs
      exact h.recv hpos.1 hpos.2 r
    · cases hs
  | fetch =>
    simp only [next] at hs
    split at hs
    · cases hs
    · cases hs
      exact h.shrink ⟨rfl, rfl, fun _ => .inl rfl⟩
  | post f i =>
    simp only [next] at hs
    split at hs
    · next hgiven =>
      split at hs
      · cases hs
        exact h
      · next sc happ =>
        cases hs
        exact h.post hgiven happ
    · cases hs
  | send r =>
    simp only [next] at hs
    split at hs
    · next f sc i rest hget hmeant =>
      cases hs
      obtain ⟨ht, hgiven⟩ := h.taken hget hmeant
      exact ht.send hgiven r
    · cases hs

theorem initial_inv (n : UInt32) (mem : Nat → UInt8) (csSize scSize : Nat) :
    Inv n (initial n mem csSize scSize) := by
  have hslot : ∀ i, (((initial n mem csSize scSize).tcp.pool i).type ≠ clinetSocket) ∧
      ((initial n mem csSize scSize).tcp.pool i).createTime = 0 ∧
      ((initial n mem csSize scSize).tcp.pool i).socketPos = i := by
    intro i
    simp only [initial, initNetwork]
    split
    · next hi => exact ⟨(by decide : listenSocket ≠ clinetSocket), rfl, hi.symm⟩
    · exact ⟨(by decide : (0 : Nat) ≠ clinetSocket), rfl, rfl⟩
  refine ⟨rfl, fun i => (hslot i).2.2, fun i => ?_, fun i _ => (hslot i).2.1, ?_,
    fun i hi => absurd hi (hslot i).1, ?_, .nil, ?_⟩
  · rw [(hslot i).2.1]
    decide
  · intro hd hmem
    cases hmem
  · intro k i j hg
    cases hg
  · intro a ha
    cases ha

instance (w : World) : (e : Event) → Decidable (FreshName w e)
  | .accept (.ok _ msec _ _) =>
    inferInstanceAs (Decidable (∀ pos ∈ w.tcp.freeList.head?,
      msec ≠ 0 ∧ ∀ h ∈ w.heads, h.conn ≠ ⟨pos, msec⟩))
  | .accept .failed | .accept (.setupFailed _) | .error _ | .recv .. | .fetch | .post .. | .send _ =>
    inferInstanceAs (Decidable True)

def sampleStart : World := initial 2 (fun _ => 0) 10000 10000

end ConnIdentity
