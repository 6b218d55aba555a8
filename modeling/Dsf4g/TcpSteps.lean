import Dsf4g.TcpDeframe

/-!
# What a step of the gateway changes

The effects of `RecvClientData`, `AcceptConnect`, `SocketRelease` and
`SendDataToClient` on the slots and pipes, as far as the logic server can see
them. The contents of receive buffers do not matter here.
-/
namespace TcpSvr

open Base TcpDeframe

def disconUid (f : TcpFrame) : Option UInt64 :=
  if f.head.msgType = cliDiscon ∧ f.payload.length = 8 then
    some (UInt64.ofNat (Bytes.ofLe f.payload))
  else none

theorem disconUid_normal {f : TcpFrame} (h : f.head.msgType = tcpNormal) : disconUid f = none := by
  rw [disconUid, if_neg]
  rintro ⟨hd, -⟩
  rw [h] at hd
  cases hd

/-- A change that moves no connection: client frames were handed on, and buffers changed. -/
structure Quiet (t t' : Svr) : Prop where
  maxClientNum : t'.maxClientNum = t.maxClientNum
  freeList : t'.freeList = t.freeList
  scPipe : t'.scPipe = t.scPipe
  slot : ∀ i, ∃ n, t'.pool i = { t.pool i with bufOffset := n }
  cs : ∃ fs, t'.csPipe.items = t.csPipe.items ++ fs ∧ ∀ f ∈ fs, f.head.msgType = tcpNormal

/-! ## Receiving -/

theorem writeTcpHead_msgType (m : Nat → UInt8) (a : Nat) (s : Socket) :
    (readTcpHead (writeTcpHead m a s) a).msgType = tcpNormal := by
  have haddr := s.socketAddr.property
  have hread : Memory.read (writeTcpHead m a s) (a + 32) 4 = Bytes.le 4 tcpNormal := by
    unfold writeTcpHead
    rw [Memory.read_write_disjoint _ _ _ _ _ (by simp; omega)]
    exact Memory.read_write_same _ _ (Bytes.le 4 tcpNormal)
  simp only [readTcpHead, hread]
  rfl

theorem frame_msgType (p : Parse) (s : Socket) : (p.frame s).head.msgType = tcpNormal :=
  writeTcpHead_msgType _ _ _

/-- The loop hands on client frames only. -/
theorem parseFrames_cs (s : Socket) (p : Parse) :
    ∃ fs, (parseFrames s p).csPipe.items = p.csPipe.items ++ fs ∧
      ∀ f ∈ fs, f.head.msgType = tcpNormal := by
  have hnone : ∃ fs, p.csPipe.items = p.csPipe.items ++ fs ∧
      ∀ f ∈ fs, f.head.msgType = tcpNormal := ⟨[], by simp, by simp⟩
  fun_induction parseFrames s p with
  | case1 => exact hnone
  | case2 => exact hnone
  | case3 => exact hnone
  | case4 => exact hnone
  | case5 p h₁ h₂ h₃ cs ha ih =>
    obtain ⟨fs, hfs, hnormal⟩ := ih ⟨[], by simp, by simp⟩
    obtain ⟨rfl, -⟩ := Fifo.append_eq_some _ ha
    refine ⟨p.frame s :: fs, ?_, fun f hf => ?_⟩
    · rw [hfs]
      simp [Parse.advance]
    · rcases List.mem_cons.mp hf with rfl | hf
      · exact frame_msgType p s
      · exact hnormal f hf

theorem setSocket_slot (t : Svr) (pos n i : Nat) :
    ∃ k, (setSocket t pos { t.pool pos with bufOffset := n }).pool i =
      { t.pool i with bufOffset := k } := by
  by_cases hi : i = pos
  · subst hi
    exact ⟨n, setSocket_pool ..⟩
  · exact ⟨(t.pool i).bufOffset, setSocket_pool_other _ _ _ _ hi⟩

theorem afterParse_quiet (t : Svr) (pos n : Nat) : Quiet t (afterParse t pos n) :=
  ⟨rfl, rfl, rfl, setSocket_slot t pos n, parseFrames_cs _ (startParse t pos n)⟩

theorem Quiet.compact {t t' : Svr} (h : Quiet t t') (pos a n : Nat) :
    Quiet t (compact t' pos a n) := by
  refine ⟨h.maxClientNum, h.freeList, h.scPipe, fun i => ?_, h.cs⟩
  obtain ⟨k, hk⟩ := h.slot i
  obtain ⟨k', hk'⟩ := setSocket_slot t' pos n i
  refine ⟨k', ?_⟩
  change (setSocket t' pos _).pool i = _
  rw [hk', hk]

theorem Quiet.of_mem {t t' : Svr} {m : Nat → UInt8} (h : Quiet { t with mem := m } t') :
    Quiet t t' :=
  ⟨h.maxClientNum, h.freeList, h.scPipe, h.slot, h.cs⟩

/-- The gateway when a round calls `SocketRelease` on a bad length. -/
def consumeRelease (t : Svr) (pos n : Nat) : Option Svr :=
  if (endParse t pos n).invalid then some (afterParse t pos n) else none

def roundRelease (t : Svr) (pos : Nat) (r : RecvResult) : Option Svr :=
  let s := t.pool pos
  if s.bufOffset = recvCap then none
  else
    match r with
    | .eof | .fatal => some t
    | .again => consumeRelease t pos ((2 ^ 32 - 1 + s.bufOffset) % 2 ^ 32)
    | .data bytes =>
      consumeRelease { t with mem := Memory.write t.mem (recvBuf pos + s.bufOffset) bytes } pos
        ((s.bufOffset + bytes.length) % 2 ^ 32)

theorem Quiet.refl (t : Svr) : Quiet t t :=
  ⟨rfl, rfl, rfl, fun i => ⟨(t.pool i).bufOffset, rfl⟩, [], by simp, by simp⟩

/-- A round ends quietly or with a release. -/
theorem consume_cases (t : Svr) (pos n : Nat) (again : Bool) :
    (∃ t₁, consumeRelease t pos n = some t₁ ∧ Quiet t t₁ ∧
      (consume t pos n again).svr = socketRelease t₁ (t.pool pos).socketPos true) ∨
    (consumeRelease t pos n = none ∧ Quiet t (consume t pos n again).svr) := by
  unfold consume consumeRelease
  dsimp only
  split
  · exact .inl ⟨_, rfl, afterParse_quiet t pos n, rfl⟩
  · refine .inr ⟨rfl, ?_⟩
    split
    · exact (afterParse_quiet t pos n).compact ..
    · exact afterParse_quiet t pos n

/-- A round is quiet, or ends in the release of its own slot. -/
theorem recvRound_cases (t : Svr) (pos : Nat) (r : RecvResult) :
    (∃ t₁, roundRelease t pos r = some t₁ ∧ Quiet t t₁ ∧
      (recvRound t pos r).svr = socketRelease t₁ (t.pool pos).socketPos true) ∨
    (roundRelease t pos r = none ∧ Quiet t (recvRound t pos r).svr) := by
  unfold recvRound roundRelease
  dsimp only
  split
  · exact .inr ⟨rfl, Quiet.refl t⟩
  · cases r with
    | eof => exact .inl ⟨t, rfl, Quiet.refl t, rfl⟩
    | fatal => exact .inl ⟨t, rfl, Quiet.refl t, rfl⟩
    | again => exact consume_cases t pos _ false
    | data bytes =>
      have hcases := consume_cases
        { t with mem := Memory.write t.mem (recvBuf pos + (t.pool pos).bufOffset) bytes } pos
        (((t.pool pos).bufOffset + bytes.length) % 2 ^ 32) true
      rcases hcases with ⟨t₁, hr, hq, he⟩ | ⟨hr, hq⟩
      · exact .inl ⟨t₁, hr, hq.of_mem, he⟩
      · exact .inr ⟨hr, hq.of_mem⟩

/-! ## Releasing -/

def noticeFits (t : Svr) : Prop := t.csPipe.occupancy TcpFrame.cost + 52 ≤ t.csPipe.size - 1

structure Released (t t' : Svr) (pos : Nat) (notify : Bool) : Prop where
  maxClientNum : t'.maxClientNum = t.maxClientNum
  scPipe : t'.scPipe = t.scPipe
  freeList : t'.freeList = t.freeList ++ [pos]
  slot : t'.pool pos = Socket.cleared pos
  other : ∀ i, i ≠ pos → t'.pool i = t.pool i
  /-- At most one notice, which names the released connection. -/
  cs : t'.csPipe.items = t.csPipe.items ∨
    ∃ f, t'.csPipe.items = t.csPipe.items ++ [f] ∧ f.conn = (t.pool pos).conn ∧
      disconUid f = some (UInt64.ofNat (t.pool pos).logicIndex) ∧ (t.pool pos).logicIndex ≠ 0 ∧
      notify = true
  notice : notify = true → (t.pool pos).logicIndex ≠ 0 → noticeFits t →
    ∃ f ∈ t'.csPipe.items, disconUid f = some (UInt64.ofNat (t.pool pos).logicIndex)

def notice (t : Svr) (pos : Nat) : TcpFrame :=
  let s := t.pool pos
  let m := Memory.write t.mem (recvBuf pos - tcpHeadLen + 32) (Bytes.le 4 cliDiscon)
  let m := Memory.write m (recvBuf pos) (Bytes.le 8 s.logicIndex)
  ⟨readTcpHead m (recvBuf pos - tcpHeadLen), Memory.read m (recvBuf pos) 8, s.conn⟩

theorem notice_payload (t : Svr) (pos : Nat) :
    (notice t pos).payload = Bytes.le 8 (t.pool pos).logicIndex :=
  Memory.read_write_same _ _ (Bytes.le 8 (t.pool pos).logicIndex)

theorem notice_msgType (t : Svr) (pos : Nat) : (notice t pos).head.msgType = cliDiscon := by
  have hread : Memory.read (Memory.write (Memory.write t.mem (recvBuf pos - tcpHeadLen + 32)
      (Bytes.le 4 cliDiscon)) (recvBuf pos) (Bytes.le 8 (t.pool pos).logicIndex))
      (recvBuf pos - tcpHeadLen + 32) 4 = Bytes.le 4 cliDiscon := by
    rw [Memory.read_write_disjoint _ _ _ _ _ (by simp only [recvBuf, tcpHeadLen]; omega)]
    exact Memory.read_write_same _ _ (Bytes.le 4 cliDiscon)
  simp only [notice, readTcpHead, hread]
  rfl

theorem notice_uid (t : Svr) (pos : Nat) :
    disconUid (notice t pos) = some (UInt64.ofNat (t.pool pos).logicIndex) := by
  have hlen : (notice t pos).payload.length = 8 := by
    rw [notice_payload, Bytes.le_length]
  rw [disconUid, if_pos ⟨notice_msgType t pos, hlen⟩, notice_payload, Bytes.ofLe_le]
  congr 1
  apply UInt64.toNat_inj.mp
  simp

theorem notice_cost (t : Svr) (pos : Nat) : (notice t pos).cost = 52 := by
  rw [TcpFrame.cost, notice_payload, Bytes.le_length]
  rfl

def noticeMem (t : Svr) (pos : Nat) : Nat → UInt8 :=
  Memory.write (Memory.write t.mem (recvBuf pos - tcpHeadLen + 32) (Bytes.le 4 cliDiscon))
    (recvBuf pos) (Bytes.le 8 (t.pool pos).logicIndex)

def withNotice (t : Svr) (m : Nat → UInt8) (cs : Fifo TcpFrame) : Svr :=
  { t with mem := m, csPipe := cs }

theorem notifyLogicDiscon_eq (t : Svr) (pos : Nat) : notifyLogicDiscon t pos =
    withNotice t (noticeMem t pos)
      ((t.csPipe.append TcpFrame.cost (notice t pos)).getD t.csPipe) := rfl

def clearSlot (t : Svr) (pos : Nat) : Svr :=
  { setSocket t pos (Socket.cleared pos) with freeList := t.freeList ++ [pos] }

theorem socketRelease_eq (t : Svr) (pos : Nat) (notify : Bool) (h : pos < t.maxClientNum) :
    socketRelease t pos notify =
      clearSlot (if notify && (t.pool pos).logicIndex != 0 then
        notifyLogicDiscon { t with fds := t.fds.erase (t.pool pos).fd } pos
        else { t with fds := t.fds.erase (t.pool pos).fd }) pos := by
  rw [socketRelease, if_neg (Nat.not_le.mpr h)]
  rfl

/-- Clearing a slot after a change of nothing but the `cs` pipe, memory and descriptors. -/
theorem clearSlot_released {t t₁ : Svr} {pos : Nat} {notify : Bool}
    (hmax : t₁.maxClientNum = t.maxClientNum) (hsc : t₁.scPipe = t.scPipe)
    (hfree : t₁.freeList = t.freeList) (hpool : t₁.pool = t.pool)
    (hcs : t₁.csPipe.items = t.csPipe.items ∨
      ∃ f, t₁.csPipe.items = t.csPipe.items ++ [f] ∧ f.conn = (t.pool pos).conn ∧
        disconUid f = some (UInt64.ofNat (t.pool pos).logicIndex) ∧ (t.pool pos).logicIndex ≠ 0 ∧
        notify = true)
    (hnotice : notify = true → (t.pool pos).logicIndex ≠ 0 → noticeFits t →
      ∃ f ∈ t₁.csPipe.items, disconUid f = some (UInt64.ofNat (t.pool pos).logicIndex)) :
    Released t (clearSlot t₁ pos) pos notify := by
  refine ⟨hmax, hsc, ?_, setSocket_pool .., fun i hi => ?_, hcs, hnotice⟩
  · change t₁.freeList ++ [pos] = _
    rw [hfree]
  · rw [← hpool]
    exact setSocket_pool_other _ _ _ _ hi

/-- `SocketRelease` as a change of the gateway. -/
theorem socketRelease_released (t : Svr) (pos : Nat) (notify : Bool) (h : pos < t.maxClientNum) :
    Released t (socketRelease t pos notify) pos notify := by
  rw [socketRelease_eq t pos notify h]
  by_cases hn : (notify && (t.pool pos).logicIndex != 0) = true
  · rw [if_pos hn]
    have hnz : notify = true ∧ (t.pool pos).logicIndex ≠ 0 := by simpa using hn
    generalize ht : ({ t with fds := t.fds.erase (t.pool pos).fd } : Svr) = t₁
    have hmax : t₁.maxClientNum = t.maxClientNum := by rw [← ht]
    have hsc : t₁.scPipe = t.scPipe := by rw [← ht]
    have hcs : t₁.csPipe = t.csPipe := by rw [← ht]
    have hfree : t₁.freeList = t.freeList := by rw [← ht]
    have hpool : t₁.pool = t.pool := by rw [← ht]
    rw [notifyLogicDiscon_eq]
    generalize noticeMem t₁ pos = m
    refine clearSlot_released ?_ ?_ ?_ ?_ ?_ ?_
    · exact hmax
    · exact hsc
    · exact hfree
    · exact hpool
    · change ((t₁.csPipe.append TcpFrame.cost (notice t₁ pos)).getD t₁.csPipe).items = _ ∨ _
      rw [hcs]
      cases ha : t.csPipe.append TcpFrame.cost (notice t₁ pos) with
      | none => exact .inl rfl
      | some q =>
        obtain ⟨rfl, -⟩ := Fifo.append_eq_some _ ha
        refine .inr ⟨notice t₁ pos, rfl, ?_, hpool ▸ notice_uid t₁ pos, hnz.2, hnz.1⟩
        rw [← hpool]
        rfl
    · intro _ _ hfits
      unfold noticeFits at hfits
      change ∃ f ∈ ((t₁.csPipe.append TcpFrame.cost (notice t₁ pos)).getD t₁.csPipe).items, _
      rw [hcs, Fifo.append, notice_cost, if_pos hfits, ← hpool]
      exact ⟨notice t₁ pos, by simp, notice_uid t₁ pos⟩
  · rw [if_neg hn]
    refine clearSlot_released rfl rfl rfl rfl (.inl rfl) fun h1 h2 => ?_
    exact absurd (by simp [h1, h2]) hn

/-! ## Accepting -/

def acceptRelease (t : Svr) (r : AcceptResult) : Option (Svr × Nat) :=
  match t.freeList with
  | [] => none
  | pos :: rest =>
    match r with
    | .failed => some ({ t with freeList := rest }, pos)
    | .setupFailed fd => some ({ t with freeList := rest, fds := fd :: t.fds }, pos)
    | .ok .. => none

/-- A slot was taken from the free list, and nothing else that matters here happened. -/
structure Taken (t t' : Svr) (pos : Nat) : Prop where
  maxClientNum : t'.maxClientNum = t.maxClientNum
  freeList : t.freeList = pos :: t'.freeList
  csPipe : t'.csPipe = t.csPipe
  scPipe : t'.scPipe = t.scPipe
  other : ∀ i, i ≠ pos → t'.pool i = t.pool i
  named : (t'.pool pos).socketPos = (t.pool pos).socketPos

theorem acceptConnect_cases (t : Svr) (r : AcceptResult) :
    (∃ t₁ pos, acceptRelease t r = some (t₁, pos) ∧ Taken t t₁ pos ∧ t₁.pool = t.pool ∧
      acceptConnect t r = socketRelease t₁ pos true) ∨
    acceptConnect t r = t ∨ ∃ pos, Taken t (acceptConnect t r) pos := by
  unfold acceptConnect acceptRelease
  cases hf : t.freeList with
  | nil => exact .inr (.inl rfl)
  | cons pos rest =>
    cases r with
    | failed => exact .inl ⟨_, pos, rfl, ⟨rfl, hf, rfl, rfl, fun _ _ => rfl, rfl⟩, rfl, rfl⟩
    | setupFailed fd =>
      exact .inl ⟨_, pos, rfl, ⟨rfl, hf, rfl, rfl, fun _ _ => rfl, rfl⟩, rfl, rfl⟩
    | ok fd msec port addr =>
      refine .inr (.inr ⟨pos, rfl, hf, rfl, rfl, fun i hi => setSocket_pool_other _ _ _ _ hi, ?_⟩)
      rw [setSocket_pool]

/-! ## Sending -/

/-- The gateway and the slot when a failed `send` calls `SocketRelease`. -/
def sendRelease (t : Svr) (f : TcpFrame) (r : SendResult) : Option (Svr × Nat) :=
  let s := t.pool f.head.socketPos
  if f.head.socketPos ≥ t.maxClientNum then none
  else if f.head.createTime ≠ s.createTime then none
  else if f.head.msgType = logicIndexMsg then none
  else
    match r with
    | .failed => some (t, s.socketPos)
    | .sent => none

/-- A frame reaches the connection it names. -/
structure Reaches (t : Svr) (f : TcpFrame) : Prop where
  inRange : f.head.socketPos < t.maxClientNum
  sameTime : f.head.createTime = (t.pool f.head.socketPos).createTime

def Closes (f : TcpFrame) : Prop := f.head.msgType ≠ logicIndexMsg ∧ f.head.needClose = true

/-- A frame that sets the logic index of its connection. -/
def Indexes (f : TcpFrame) : Prop := f.head.msgType = logicIndexMsg ∧ f.payload.length = 8

instance (f : TcpFrame) : Decidable (Indexes f) := inferInstanceAs (Decidable (_ ∧ _))

theorem sendDataToClient_cases (t : Svr) (f : TcpFrame) (r : SendResult) :
    (sendDataToClient t f r = t ∧ (Reaches t f → ¬ Indexes f)) ∨
    (Reaches t f ∧ Indexes f ∧ sendDataToClient t f r =
      setSocket t f.head.socketPos
        { t.pool f.head.socketPos with logicIndex := Bytes.ofLe f.payload }) ∨
    (Reaches t f ∧ ¬ Indexes f ∧
      sendRelease t f r = some (t, (t.pool f.head.socketPos).socketPos) ∧
      sendDataToClient t f r = socketRelease t (t.pool f.head.socketPos).socketPos true) ∨
    (Reaches t f ∧ Closes f ∧
      sendDataToClient t f r = socketRelease t (t.pool f.head.socketPos).socketPos false) := by
  unfold sendDataToClient sendRelease
  dsimp only
  by_cases hpos : f.head.socketPos ≥ t.maxClientNum
  · rw [if_pos hpos]
    exact .inl ⟨rfl, fun h => absurd h.inRange (Nat.not_lt.mpr hpos)⟩
  rw [if_neg hpos, if_neg hpos]
  by_cases htime : f.head.createTime = (t.pool f.head.socketPos).createTime
  · have hreach : Reaches t f := ⟨Nat.not_le.mp hpos, htime⟩
    rw [if_neg (not_not_intro htime), if_neg (not_not_intro htime)]
    by_cases hindex : f.head.msgType = logicIndexMsg
    · rw [if_pos hindex, if_pos hindex]
      by_cases hlen : f.payload.length = 8
      · rw [if_pos hlen]
        exact .inr (.inl ⟨hreach, ⟨hindex, hlen⟩, rfl⟩)
      · rw [if_neg hlen]
        exact .inl ⟨rfl, fun _ h => hlen h.2⟩
    · rw [if_neg hindex, if_neg hindex]
      have hno : ¬ Indexes f := fun h => hindex h.1
      cases r with
      | failed => exact .inr (.inr (.inl ⟨hreach, hno, rfl, rfl⟩))
      | sent =>
        by_cases hclose : f.head.needClose = true
        · exact .inr (.inr (.inr ⟨hreach, ⟨hindex, hclose⟩, by simp [hclose]⟩))
        · exact .inl ⟨by simp [hclose], fun _ => hno⟩
  · rw [if_pos htime]
    exact .inl ⟨rfl, fun h => absurd h.sameTime htime⟩

end TcpSvr
