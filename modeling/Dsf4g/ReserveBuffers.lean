import Dsf4g.CenterMng
import Dsf4g.Lib.Memory
import Dsf4g.SlotReuse

/-!
# What the reserve buffers hold

`ReserveData`, `SendBufData` and `SendOneData` on `send_buf` and `send_offset` themselves, and what
`Register` and `SocketRelease` do to them. The results of `send` are arguments. Each call notes what it
did to the frames of its buffer.
-/
namespace Reserve

open Base Sockets SendBuffer

/-! ## The calls -/

/-- What the calls read and write of a `CenterMng` or an `stSvrSocket`. -/
structure Slot where
  fd : Int
  sendBuf : Nat → UInt8
  sendOffset : Nat

inductive Note where
  | reserved (frame : List UInt8)
  | flushed
  | overflow
  | released
  | handedOver (frames : List (List UInt8))
  deriving DecidableEq

structure Done where
  slot : Slot
  ok : Bool
  notes : List Note

def Done.after (d : Done) (notes : List Note) : Done := { d with notes := notes ++ d.notes }

def reserveData (s : Slot) (f : List UInt8) : Done :=
  if s.sendOffset + f.length > sendBufLen then
    ⟨{ s with sendBuf := Memory.write s.sendBuf 0 f, sendOffset := f.length }, false,
      [.overflow, .reserved f]⟩
  else
    ⟨{ s with
        sendBuf := Memory.write s.sendBuf s.sendOffset f
        sendOffset := s.sendOffset + f.length }, false, [.reserved f]⟩

def Slot.shut (s : Slot) : Slot := { s with fd := sockClosed }

def sendBufData (s : Slot) (r : Ret) : Done :=
  match r with
  | .sent => ⟨{ s with sendOffset := 0 }, true, [.flushed]⟩
  | .again => ⟨s, false, []⟩
  | .fatal => ⟨s.shut, false, []⟩

def sendNow (s : Slot) (f : List UInt8) (r : Ret) : Done :=
  match r with
  | .sent => ⟨s, true, []⟩
  | .again => reserveData s f
  | .fatal => reserveData s.shut f

def sendOneData (s : Slot) (f : List UInt8) (flush now : Ret) : Done :=
  if s.fd = sockClosed then reserveData s f
  else if s.sendOffset = 0 then sendNow s f now
  else
    let d := sendBufData s flush
    if d.ok then (sendNow d.slot f now).after d.notes else (reserveData d.slot f).after d.notes

/-! ## Slots and their notes -/

structure World where
  pool : Nat → Slot
  log : Nat → List Note

def World.put (w : World) (pos : Nat) (d : Done) : World :=
  { pool := Function.update w.pool pos d.slot
    log := Function.update w.log pos (w.log pos ++ d.notes) }

def cleared : Slot := ⟨0, fun _ => 0, 0⟩

/-- What a note says of the frames in a buffer. -/
def heldAfter (frames : List (List UInt8)) : Note → List (List UInt8)
  | .reserved f => frames ++ [f]
  | .flushed | .overflow | .released => []
  | .handedOver fs => frames ++ fs

/-- The frames reserved, or handed over, since the last flush, overflow or release. -/
def held (log : List Note) : List (List UInt8) := log.foldl heldAfter []

def copied (s before : Slot) : Slot :=
  { s with
    sendBuf := Memory.write s.sendBuf 0 (Memory.read before.sendBuf 0 before.sendOffset)
    sendOffset := before.sendOffset }

def handOver (w : World) (before pos : Nat) : World :=
  (w.put pos ⟨copied (w.pool pos) (w.pool before), true, [.handedOver (held (w.log before))]⟩).put
    before ⟨cleared, true, [.released]⟩

inductive Op where
  | sendOneData (pos : Nat) (f : Packet) (flush now : Ret)
  | sendBufData (pos : Nat) (r : Ret)
  /-- A new connection. -/
  | connect (pos : Nat) (fd : Int)
  | disconnect (pos : Nat)
  | release (pos : Nat)
  | handOver (before pos : Nat)

def step (w : World) : Op → World
  | .sendOneData pos f flush now => w.put pos (sendOneData (w.pool pos) f.val flush now)
  | .sendBufData pos r => w.put pos (sendBufData (w.pool pos) r)
  | .connect pos fd => w.put pos ⟨{ w.pool pos with fd := fd }, true, []⟩
  | .disconnect pos => w.put pos ⟨(w.pool pos).shut, true, []⟩
  | .release pos => w.put pos ⟨cleared, true, [.released]⟩
  | .handOver before pos => handOver w before pos

def Step (w : World) (o : Op) (w' : World) : Prop := w' = step w o

def start (fd : Nat → Int) : World := ⟨fun pos => { cleared with fd := fd pos }, fun _ => []⟩

/-! ## Whole frames -/

/-- `send_offset` is in range, and the bytes below it are the frames held, back to back. -/
structure Holds (s : Slot) (log : List Note) : Prop where
  inRange : s.sendOffset ≤ sendBufLen
  bytes : Memory.read s.sendBuf 0 s.sendOffset = (held log).flatten

def AllHold (w : World) : Prop := ∀ pos, Holds (w.pool pos) (w.log pos)

/-- A slot takes over a buffer while its own is empty. -/
def TakesOver (w : World) : Op → Prop
  | .handOver before pos => before = pos ∨ (w.pool pos).sendOffset = 0
  | _ => True

theorem held_append (log notes : List Note) : held (log ++ notes) = notes.foldl heldAfter (held log) :=
  List.foldl_append ..

theorem Holds.length {s : Slot} {log : List Note} (h : Holds s log) :
    (held log).flatten.length = s.sendOffset := by
  rw [← h.bytes, Memory.read_length]

theorem Holds.empty {s : Slot} {log : List Note} (hoffset : s.sendOffset = 0) (hheld : held log = []) :
    Holds s log := by
  refine ⟨by rw [hoffset]; exact Nat.zero_le _, ?_⟩
  rw [hoffset, hheld]
  rfl

/-- A frame is added behind the others, or starts a new buffer when it does not fit. -/
theorem held_reserve (s : Slot) (log : List Note) (f : List UInt8) :
    held (log ++ (reserveData s f).notes) =
      if s.sendOffset + f.length > sendBufLen then [f] else held log ++ [f] := by
  rw [held_append, reserveData]
  split <;> rfl

theorem Holds.reserve {s : Slot} {log : List Note} (h : Holds s log) {f : List UInt8}
    (hf : f.length ≤ sendBufLen) :
    Holds (reserveData s f).slot (log ++ (reserveData s f).notes) := by
  constructor
  · rw [reserveData]
    split
    · exact hf
    · next hfits => exact Nat.not_lt.mp hfits
  · rw [held_reserve, reserveData]
    split
    · rw [List.flatten_singleton]
      exact Memory.read_write_same s.sendBuf 0 f
    · rw [List.flatten_append, List.flatten_singleton, ← h.bytes, Memory.read_add, Nat.zero_add,
        Memory.read_write_same, Memory.read_write_disjoint _ _ _ _ _ (.inl (Nat.le_of_eq (Nat.zero_add _)))]

theorem Holds.flush {s : Slot} {log : List Note} (h : Holds s log) (r : Ret) :
    Holds (sendBufData s r).slot (log ++ (sendBufData s r).notes) := by
  cases r with
  | sent => exact Holds.empty rfl (by rw [held_append]; rfl)
  | again => exact (List.append_nil log).symm ▸ h
  | fatal => exact (List.append_nil log).symm ▸ ⟨h.inRange, h.bytes⟩

theorem Holds.sendNow {s : Slot} {log : List Note} (h : Holds s log) {f : List UInt8}
    (hf : f.length ≤ sendBufLen) (r : Ret) :
    Holds (sendNow s f r).slot (log ++ (sendNow s f r).notes) := by
  cases r with
  | sent => exact (List.append_nil log).symm ▸ h
  | again => exact h.reserve hf
  | fatal => exact Holds.reserve (s := s.shut) ⟨h.inRange, h.bytes⟩ hf

/-- `SendOneData` notes what it does with the frame. -/
theorem Holds.send {s : Slot} {log : List Note} (h : Holds s log) (f : Packet) (flush now : Ret) :
    Holds (sendOneData s f.val flush now).slot (log ++ (sendOneData s f.val flush now).notes) := by
  have hf : f.val.length ≤ sendBufLen := Nat.le_trans f.property (by decide)
  have hflush := h.flush flush
  rw [sendOneData]
  split
  · exact h.reserve hf
  · split
    · exact h.sendNow hf now
    · dsimp only
      split
      · have hnow := hflush.sendNow hf now
        rw [List.append_assoc] at hnow
        exact hnow
      · have hreserve := hflush.reserve hf
        rw [List.append_assoc] at hreserve
        exact hreserve

/-- Only the slot of a call has to be looked at. -/
theorem allHold_put {w : World} {pos : Nat} {d : Done} (h : AllHold w) :
    AllHold (w.put pos d) ↔ Holds d.slot (w.log pos ++ d.notes) := by
  constructor
  · intro hall
    have hpos := hall pos
    simp only [World.put, Function.update_self] at hpos
    exact hpos
  · intro hd i
    by_cases hi : i = pos
    · subst hi
      simp only [World.put, Function.update_self]
      exact hd
    · simp only [World.put, Function.update_of_ne hi]
      exact h i

/-- A copy is what its slot should hold exactly when the slot held nothing. -/
theorem holds_copied_iff {s before : Slot} {log log' : List Note} (h : Holds s log)
    (h' : Holds before log') :
    Holds (copied s before) (log ++ [.handedOver (held log')]) ↔ s.sendOffset = 0 := by
  have hread : Memory.read (copied s before).sendBuf 0 (copied s before).sendOffset =
      (held log').flatten := by
    rw [← h'.bytes]
    have hlen : (Memory.read before.sendBuf 0 before.sendOffset).length = before.sendOffset :=
      Memory.read_length ..
    have hsame := Memory.read_write_same s.sendBuf 0 (Memory.read before.sendBuf 0 before.sendOffset)
    rw [hlen] at hsame
    exact hsame
  have hheld : (held (log ++ [.handedOver (held log')])).flatten =
      (held log).flatten ++ (held log').flatten := by
    rw [held_append, List.foldl_cons, List.foldl_nil, heldAfter, List.flatten_append]
  constructor
  · intro hc
    have hbytes := hc.bytes
    rw [hread, hheld] at hbytes
    have hlen := congrArg List.length hbytes
    rw [List.length_append, h.length] at hlen
    omega
  · intro hzero
    refine ⟨h'.inRange, ?_⟩
    have hnil : (held log).flatten = [] := by
      rw [← h.bytes, hzero]
      rfl
    rw [hread, hheld, hnil, List.nil_append]

/-- A hand-over leaves the buffers right exactly when the slot was empty, or copied onto itself. -/
theorem allHold_handOver {w : World} (h : AllHold w) (before pos : Nat) :
    AllHold (handOver w before pos) ↔ before = pos ∨ (w.pool pos).sendOffset = 0 := by
  have hbefore : Holds ((handOver w before pos).pool before) ((handOver w before pos).log before) := by
    simp only [handOver, World.put, Function.update_self]
    exact Holds.empty rfl (by rw [held_append]; rfl)
  have hother : ∀ i, i ≠ before → i ≠ pos →
      Holds ((handOver w before pos).pool i) ((handOver w before pos).log i) := by
    intro i hib hip
    simp only [handOver, World.put, Function.update_of_ne hib, Function.update_of_ne hip]
    exact h i
  by_cases he : before = pos
  · refine iff_of_true (fun i => ?_) (.inl he)
    by_cases hi : i = before
    · exact hi ▸ hbefore
    · exact hother i hi (he ▸ hi)
  · have hpos := holds_copied_iff (h pos) (h before)
    have hnew : Holds ((handOver w before pos).pool pos) ((handOver w before pos).log pos) ↔
        (w.pool pos).sendOffset = 0 := by
      simp only [handOver, World.put, Function.update_of_ne (Ne.symm he), Function.update_self]
      exact hpos
    constructor
    · intro hall
      exact .inr (hnew.mp (hall pos))
    · intro hzero i
      by_cases hi : i = before
      · exact hi ▸ hbefore
      · by_cases hip : i = pos
        · exact hip ▸ hnew.mpr (hzero.resolve_left he)
        · exact hother i hi hip

/-- A call keeps every buffer right exactly when it does not copy over frames. -/
theorem step_holds_iff {w w' : World} {o : Op} (h : AllHold w) (hs : Step w o w') :
    AllHold w' ↔ TakesOver w o := by
  subst hs
  cases o with
  | sendOneData pos f flush now =>
    exact iff_of_true ((allHold_put h).mpr ((h pos).send f flush now)) trivial
  | sendBufData pos r => exact iff_of_true ((allHold_put h).mpr ((h pos).flush r)) trivial
  | connect pos fd =>
    refine iff_of_true ((allHold_put h).mpr ?_) trivial
    rw [List.append_nil]
    exact ⟨(h pos).inRange, (h pos).bytes⟩
  | disconnect pos =>
    refine iff_of_true ((allHold_put h).mpr ?_) trivial
    rw [List.append_nil]
    exact ⟨(h pos).inRange, (h pos).bytes⟩
  | release pos =>
    exact iff_of_true ((allHold_put h).mpr (Holds.empty rfl (by rw [held_append]; rfl))) trivial
  | handOver before pos => exact allHold_handOver h before pos

/-! ## The calls of `SendBuffer` -/

/-- A slot with its bytes in memory, and the same slot as a list. -/
structure Represents (s : Slot) (e : Endpoint) : Prop where
  fd : s.fd = e.fd
  bytes : Memory.read s.sendBuf 0 s.sendOffset = e.sendBuf.val

theorem Represents.length {s : Slot} {e : Endpoint} (h : Represents s e) :
    e.sendBuf.val.length = s.sendOffset := by
  rw [← h.bytes, Memory.read_length]

theorem Represents.reserve {s : Slot} {e : Endpoint} (h : Represents s e) (f : Packet) :
    Represents (reserveData s f.val).slot (SendBuffer.reserveData e f) := by
  have hover : overflows e.sendBuf f ↔ s.sendOffset + f.val.length > sendBufLen := by
    rw [overflows, h.length]
  by_cases ho : s.sendOffset + f.val.length > sendBufLen
  · simp only [reserveData, if_pos ho, SendBuffer.reserveData, SendBuffer.reserve,
      dif_pos (hover.mpr ho)]
    exact ⟨h.fd, Memory.read_write_same s.sendBuf 0 f.val⟩
  · simp only [reserveData, if_neg ho, SendBuffer.reserveData, SendBuffer.reserve,
      dif_neg (mt hover.mp ho)]
    refine ⟨h.fd, ?_⟩
    dsimp only
    rw [Memory.read_add, Nat.zero_add, Memory.read_write_same,
      Memory.read_write_disjoint _ _ _ _ _ (.inl (Nat.le_of_eq (Nat.zero_add _))), h.bytes]

/-- What `send` answers to the flush of `SendOneData` or `SendBufData`. -/
def flushRet (k : Kernel) (e : Endpoint) : Ret := (k.send e.fd e.sendBuf.val).ret

/-- What `send` answers to the frame of `SendOneData`, behind the flush if there is one. -/
def nowRet (k : Kernel) (e : Endpoint) (f : Packet) : Ret :=
  if e.sendBuf.val = [] then (k.send e.fd f.val).ret
  else
    let s := SendBuffer.sendBufData k e
    (s.kernel.send s.ep.fd f.val).ret

theorem Represents.flush {s : Slot} {e : Endpoint} (h : Represents s e) (k : Kernel) :
    Represents (sendBufData s (flushRet k e)).slot (SendBuffer.sendBufData k e).ep ∧
      (sendBufData s (flushRet k e)).ok = (SendBuffer.sendBufData k e).ok := by
  rw [flushRet, SendBuffer.sendBufData]
  cases hr : (k.send e.fd e.sendBuf.val).ret with
  | sent => exact ⟨⟨h.fd, rfl⟩, rfl⟩
  | again => exact ⟨h, rfl⟩
  | fatal => exact ⟨⟨rfl, h.bytes⟩, rfl⟩

theorem Represents.sendNow {s : Slot} {e : Endpoint} (h : Represents s e) (k : Kernel) (f : Packet) :
    Represents (sendNow s f.val (k.send e.fd f.val).ret).slot (SendBuffer.sendNow k e f).ep := by
  rw [SendBuffer.sendNow]
  cases hr : (k.send e.fd f.val).ret with
  | sent => exact h
  | again => exact h.reserve f
  | fatal =>
    have hshut : Represents s.shut { e with fd := sockClosed, recvBuf := [] } := ⟨rfl, h.bytes⟩
    exact hshut.reserve f

/-- The calls on bytes and the calls on lists do the same. -/
theorem Represents.send {s : Slot} {e : Endpoint} (h : Represents s e) (k : Kernel) (f : Packet) :
    Represents (sendOneData s f.val (flushRet k e) (nowRet k e f)).slot
      (SendBuffer.sendOneData k e f).ep := by
  have hempty : s.sendOffset = 0 ↔ e.sendBuf.val = [] := by
    rw [← h.length, List.length_eq_zero_iff]
  obtain ⟨hflush, hok⟩ := h.flush k
  by_cases hfd : e.fd = sockClosed
  · rw [sendOneData, if_pos (h.fd.trans hfd), SendBuffer.sendOneData, if_pos hfd]
    exact h.reserve f
  · have hfd' : s.fd ≠ sockClosed := fun he => hfd (h.fd.symm.trans he)
    by_cases hnil : e.sendBuf.val = []
    · rw [sendOneData, if_neg hfd', if_pos (hempty.mpr hnil), SendBuffer.sendOneData, if_neg hfd,
        if_pos hnil, nowRet, if_pos hnil]
      exact h.sendNow k f
    · rw [nowRet, if_neg hnil]
      cases hsent : (SendBuffer.sendBufData k e).ok with
      | true =>
        simp only [sendOneData, if_neg hfd', if_neg (mt hempty.mp hnil), SendBuffer.sendOneData,
          if_neg hfd, if_neg hnil, hok, hsent, if_true]
        exact hflush.sendNow (SendBuffer.sendBufData k e).kernel f
      | false =>
        simp only [sendOneData, if_neg hfd', if_neg (mt hempty.mp hnil), SendBuffer.sendOneData,
          if_neg hfd, if_neg hnil, hok, hsent, Bool.false_eq_true, if_false]
        exact hflush.reserve f

/-! ## `CenterMng` -/

def closeCalls (m m' : CenterMng.Mng) : List Op :=
  if m'.ep.fd = m.ep.fd then [] else [.disconnect 0]

/-- The calls on its buffer that an operation of a `CenterMng` makes. -/
def callsOf (m : CenterMng.Mng) : CenterMng.Op → List Op
  | .checkConnect c registered =>
    if m.ep.fd ≠ sockClosed then []
    else
      match c with
      | .failed => []
      | .ok fd =>
        let m := CenterMng.connect m fd
        .connect 0 fd :: if registered then [.sendBufData 0 (flushRet m.kernel m.ep)] else []
  | .sendOneData f => [.sendOneData 0 f (flushRet m.kernel m.ep) (nowRet m.kernel m.ep f)]
  | .recvData rs => closeCalls m (CenterMng.recvData m rs)
  | .getOneData n => closeCalls m (CenterMng.getOneData m n).mng

def callsOfRun (m : CenterMng.Mng) : List CenterMng.Op → List Op
  | [] => []
  | op :: ops => callsOf m op ++ callsOfRun (CenterMng.step m op) ops

/-- The calls lead from a world to one whose slot 0 is the endpoint, without a copy. -/
def Leads (w : World) (os : List Op) (e : Endpoint) : Prop :=
  ∃ w', Trace.Run Step TakesOver w os w' ∧ Represents (w'.pool 0) e

theorem Leads.refl {w : World} {e : Endpoint} (h : Represents (w.pool 0) e) : Leads w [] e :=
  ⟨w, .nil w, h⟩

theorem Leads.put {w : World} {o : Op} {d : Done} {e : Endpoint} (ho : TakesOver w o)
    (hstep : step w o = w.put 0 d) (hd : Represents d.slot e) : Leads w [o] e := by
  refine ⟨w.put 0 d, .cons ho hstep.symm (.nil _), ?_⟩
  simp only [World.put, Function.update_self]
  exact hd

theorem Leads.trans {w : World} {os os' : List Op} {e e' : Endpoint} (h : Leads w os e)
    (hnext : ∀ w', Represents (w'.pool 0) e → Leads w' os' e') : Leads w (os ++ os') e' := by
  obtain ⟨w₁, hrun, hrep⟩ := h
  obtain ⟨w₂, hrun', hrep'⟩ := hnext w₁ hrep
  exact ⟨w₂, hrun.append hrun', hrep'⟩

/-- `RecvData` and `GetOneData` keep the send buffer and at most close the descriptor. -/
structure Closes (e e' : Endpoint) : Prop where
  sendBuf : e'.sendBuf = e.sendBuf
  fd : e'.fd = e.fd ∨ e'.fd = sockClosed

theorem recvData_closes (m : CenterMng.Mng) (rs : List RecvAnswer) :
    Closes m.ep (CenterMng.recvData m rs).ep := by
  induction rs generalizing m with
  | nil => exact ⟨rfl, .inl rfl⟩
  | cons r rs ih =>
    unfold CenterMng.recvData
    split
    · exact ⟨rfl, .inl rfl⟩
    · cases r with
      | data bytes =>
        cases bytes with
        | nil => exact ⟨rfl, .inr rfl⟩
        | cons b bs => exact ⟨(ih _).sendBuf, (ih _).fd⟩
      | again => exact ⟨rfl, .inl rfl⟩
      | fatal => exact ⟨rfl, .inr rfl⟩

theorem getOneData_closes (m : CenterMng.Mng) (n : Nat) :
    Closes m.ep (CenterMng.getOneData m n).mng.ep := by
  unfold CenterMng.getOneData
  split
  · exact ⟨rfl, .inl rfl⟩
  · dsimp only
    split
    · exact ⟨rfl, .inl rfl⟩
    · split
      · exact ⟨rfl, .inr rfl⟩
      · exact ⟨rfl, .inl rfl⟩

theorem leads_close {w : World} {m m' : CenterMng.Mng} (h : Represents (w.pool 0) m.ep)
    (hclose : Closes m.ep m'.ep) : Leads w (closeCalls m m') m'.ep := by
  have hbytes : Memory.read (w.pool 0).sendBuf 0 (w.pool 0).sendOffset = m'.ep.sendBuf.val := by
    rw [hclose.sendBuf]
    exact h.bytes
  unfold closeCalls
  split
  · next hsame => exact .refl ⟨h.fd.trans hsame.symm, hbytes⟩
  · next hne =>
    exact .put (o := .disconnect 0) trivial rfl ⟨(hclose.fd.resolve_left hne).symm, hbytes⟩

/-- Every operation of a `CenterMng` makes its calls. -/
theorem leads_step {w : World} {m : CenterMng.Mng} (h : Represents (w.pool 0) m.ep)
    (op : CenterMng.Op) : Leads w (callsOf m op) (CenterMng.step m op).ep := by
  cases op with
  | checkConnect c registered =>
    simp only [CenterMng.step, CenterMng.checkConnect, callsOf]
    split
    · exact .refl h
    · cases c with
      | failed => exact .refl h
      | ok fd =>
        have hconnect : Leads w [.connect 0 fd] (CenterMng.connect m fd).ep :=
          .put (o := .connect 0 fd) trivial rfl ⟨rfl, h.bytes⟩
        cases registered with
        | false => exact hconnect
        | true =>
          exact hconnect.trans fun w' hw' =>
            .put (o := .sendBufData 0 _) trivial rfl (hw'.flush (CenterMng.connect m fd).kernel).1
  | sendOneData f =>
    exact .put (o := .sendOneData 0 f (flushRet m.kernel m.ep) (nowRet m.kernel m.ep f)) trivial rfl
      (h.send m.kernel f)
  | recvData rs => exact leads_close h (recvData_closes m rs)
  | getOneData n => exact leads_close h (getOneData_closes m n)

/-- By induction on the operations. -/
theorem leads_run {w : World} {m : CenterMng.Mng} (h : Represents (w.pool 0) m.ep)
    (ops : List CenterMng.Op) : Leads w (callsOfRun m ops) (CenterMng.run m ops).ep := by
  induction ops generalizing w m with
  | nil => exact .refl h
  | cons op ops ih => exact (leads_step h op).trans fun w' hw' => ih hw'

/-! ## The proxy -/

section Proxy

open ProxySvr

structure Shown (w : World) (p : Proxy) : Prop where
  slots : ∀ pos, Represents (w.pool pos) (p.pool pos).ep
  socketPos : ∀ pos, (p.pool pos).socketPos = pos
  free : ∀ pos ∈ p.freeList, pos < p.conf.maxSvrNum
  entries : ∀ t id pos, At p t id pos → pos < p.conf.maxSvrNum

/-- Some calls lead from empty slots to those of the proxy. -/
def Reached (p : Proxy) : Prop :=
  ∃ os w, Trace.Run Step (fun _ _ => True) (start fun _ => 0) os w ∧ Shown w p

/-- One more call. -/
theorem Reached.next {p q : Proxy} (h : Reached p)
    (hnext : ∀ w, Shown w p → ∃ o, Shown (step w o) q) : Reached q := by
  obtain ⟨os, w, hrun, hshown⟩ := h
  obtain ⟨o, ho⟩ := hnext w hshown
  exact ⟨os ++ [o], step w o, hrun.append (.cons trivial rfl (.nil _)), ho⟩

/-- A call on a slot that changes nothing but the slot. -/
theorem Shown.put {w : World} {p q : Proxy} (h : Shown w p) {pos : Nat} {d : Done} {t : SvrSocket}
    (hpool : q.pool = Function.update p.pool pos t) (hd : Represents d.slot t.ep)
    (ht : t.socketPos = pos) (hfree : ∀ i ∈ q.freeList, i < q.conf.maxSvrNum)
    (hentries : ∀ t id i, At q t id i → i < q.conf.maxSvrNum) : Shown (w.put pos d) q := by
  refine ⟨fun i => ?_, fun i => ?_, hfree, hentries⟩
  · rw [hpool]
    by_cases hi : i = pos
    · subst hi
      simp only [World.put, Function.update_self]
      exact hd
    · simp only [World.put, Function.update_of_ne hi]
      exact h.slots i
  · rw [hpool]
    by_cases hi : i = pos
    · subst hi
      rw [Function.update_self]
      exact ht
    · rw [Function.update_of_ne hi]
      exact h.socketPos i

/-- Nothing that a slot's memory shows has changed. -/
theorem Reached.quiet {p q : Proxy} (h : Reached p) (hep : ∀ pos, (q.pool pos).ep.fd = (p.pool pos).ep.fd ∧
      (q.pool pos).ep.sendBuf = (p.pool pos).ep.sendBuf)
    (hsocketPos : ∀ pos, (q.pool pos).socketPos = (p.pool pos).socketPos)
    (hconf : q.conf = p.conf) (hfree : ∀ pos ∈ q.freeList, pos ∈ p.freeList)
    (hentries : ∀ t id pos, At q t id pos → At p t id pos ∨ pos < p.conf.maxSvrNum) : Reached q := by
  obtain ⟨os, w, hrun, hshown⟩ := h
  refine ⟨os, w, hrun, fun pos => ⟨?_, ?_⟩, fun pos => ?_, fun pos hpos => ?_, fun t id pos hat => ?_⟩
  · rw [(hep pos).1]
    exact (hshown.slots pos).fd
  · rw [(hep pos).2]
    exact (hshown.slots pos).bytes
  · rw [hsocketPos]
    exact hshown.socketPos pos
  · rw [hconf]
    exact hshown.free pos (hfree pos hpos)
  · rw [hconf]
    obtain hold | hlt := hentries t id pos hat
    · exact hshown.entries t id pos hold
    · exact hlt

theorem Reached.recvBuf {p : Proxy} (h : Reached p) (pos : Nat) (bs : List UInt8) :
    Reached (setEp p pos { (p.pool pos).ep with recvBuf := bs }) := by
  have hpool : ∀ i, (setEp p pos { (p.pool pos).ep with recvBuf := bs }).pool i =
      if i = pos then { p.pool pos with ep := { (p.pool pos).ep with recvBuf := bs } }
      else p.pool i := fun i => Function.update_apply ..
  refine h.quiet (fun i => ?_) (fun i => ?_) rfl (fun _ hi => hi) fun _ _ _ hat => .inl hat
  · rw [hpool]
    split
    · next hi => exact hi ▸ ⟨rfl, rfl⟩
    · exact ⟨rfl, rfl⟩
  · rw [hpool]
    split
    · next hi => rw [hi]
    · rfl

theorem Reached.send {p : Proxy} (h : Reached p) (pos : Nat) (f : Packet) :
    Reached (ProxySvr.sendOneData p pos f) := by
  refine h.next fun w hw => ?_
  exact ⟨.sendOneData pos f _ _,
    hw.put rfl ((hw.slots pos).send p.kernel f) (hw.socketPos pos) hw.free hw.entries⟩

theorem Reached.flush {p : Proxy} (h : Reached p) (pos : Nat) :
    Reached (ProxySvr.sendBufData p pos) := by
  refine h.next fun w hw => ?_
  exact ⟨.sendBufData pos _,
    hw.put rfl ((hw.slots pos).flush p.kernel).1 (hw.socketPos pos) hw.free hw.entries⟩

theorem Reached.release {p : Proxy} (h : Reached p) (pos : Nat) : Reached (socketRelease p pos) := by
  unfold socketRelease
  split
  · exact h
  · next hlt =>
    refine h.next fun w hw => ⟨.release pos, hw.put rfl ⟨rfl, rfl⟩ rfl (fun i hi => ?_) hw.entries⟩
    obtain hi | hi := List.mem_append.mp hi
    · exact hw.free i hi
    · rw [List.mem_singleton.mp hi]
      exact Nat.not_le.mp hlt

theorem Reached.disconn {p : Proxy} (h : Reached p) (pos : Nat) : Reached (socketDisconn p pos) := by
  unfold socketDisconn
  split
  · exact h
  · exact h.next fun w hw => ⟨.disconnect pos,
      hw.put rfl ⟨rfl, (hw.slots pos).bytes⟩ (hw.socketPos pos) hw.free hw.entries⟩

/-- The copy and the release of `takeOver`. -/
theorem Reached.handOver {p : Proxy} (h : Reached p) {before pos : Nat}
    (hlt : before < p.conf.maxSvrNum) :
    Reached (socketRelease (setEp p pos (inherited p before pos)) before) := by
  refine h.next fun w hw => ⟨.handOver before pos, ?_⟩
  have hcopied : Represents (copied (w.pool pos) (w.pool before)) (inherited p before pos) := by
    refine ⟨(hw.slots pos).fd, ?_⟩
    have hsame := Memory.read_write_same (w.pool pos).sendBuf 0
      (Memory.read (w.pool before).sendBuf 0 (w.pool before).sendOffset)
    rw [Memory.read_length] at hsame
    exact hsame.trans (hw.slots before).bytes
  have hset : Shown (w.put pos ⟨copied (w.pool pos) (w.pool before), true,
      [.handedOver (held (w.log before))]⟩) (setEp p pos (inherited p before pos)) :=
    hw.put rfl hcopied (hw.socketPos pos) hw.free hw.entries
  have hlt' : before < (setEp p pos (inherited p before pos)).conf.maxSvrNum := hlt
  rw [socketRelease_of_lt hlt']
  refine hset.put rfl ⟨rfl, rfl⟩ rfl (fun i hi => ?_) hset.entries
  obtain hi | hi := List.mem_append.mp hi
  · exact hset.free i hi
  · rw [List.mem_singleton.mp hi]
    exact hlt

theorem Reached.takeOver {p : Proxy} (h : Reached p) {before pos : Nat}
    (hlt : before < p.conf.maxSvrNum) : Reached (takeOver p before pos) := by
  obtain ⟨os, w, hrun, hw⟩ := id h
  have hpos : ((setEp p pos (inherited p before pos)).pool before).socketPos = before := by
    have hpool : (setEp p pos (inherited p before pos)).pool before =
        if before = pos then { p.pool pos with ep := inherited p before pos } else p.pool before :=
      Function.update_apply ..
    rw [hpool]
    split
    · next he => exact he ▸ hw.socketPos pos
    · exact hw.socketPos before
  unfold ProxySvr.takeOver
  dsimp only
  rw [hpos]
  exact (h.handOver hlt).flush pos

/-- An entry behind `setEntry` is the new one or was there. -/
theorem at_setEntry_old {p : Proxy} {t id pos t' id' pos' : Nat}
    (h : At (setEntry p t id pos) t' id' pos') : pos' = pos ∨ At p t' id' pos' := by
  obtain ⟨v, hv, hid⟩ := h
  by_cases ht : t' = t
  · subst ht
    simp only [setEntry, Function.update_self] at hv
    obtain ⟨v₀, hv₀, rfl⟩ := Option.map_eq_some_iff.mp hv
    rw [List.getElem?_set] at hid
    split at hid
    · split at hid
      · exact .inl (Option.some.inj (Option.some.inj hid)).symm
      · cases hid
    · exact .inr ⟨v₀, hv₀, hid⟩
  · simp only [setEntry, Function.update_of_ne ht] at hv
    exact .inr ⟨v, hv, hid⟩

theorem Reached.setEntry {p : Proxy} (h : Reached p) {pos : Nat} (hlt : pos < p.conf.maxSvrNum)
    (t id : Nat) : Reached (setEntry p t id pos) :=
  h.quiet (fun _ => ⟨rfl, rfl⟩) (fun _ => rfl) rfl (fun _ hi => hi) fun _ _ _ hat =>
    (at_setEntry_old hat).elim (fun he => .inr (he ▸ hlt)) .inl

theorem Reached.register {p q : Proxy} (h : Reached p) {pos : Nat} (hlt : pos < p.conf.maxSvrNum)
    (hq : register p pos = .ok q) : Reached q := by
  obtain rfl | ⟨p', he, hcase⟩ := register_ok hq
  · exact h
  · obtain ⟨⟨svrs, rfl⟩, hat⟩ := ensureType_ok he
    have hr : Reached { p with svrs := svrs } :=
      h.quiet (fun _ => ⟨rfl, rfl⟩) (fun _ => rfl) rfl (fun _ hi => hi)
        fun t id pos hpos => .inl ((hat t id pos).mp hpos)
    obtain ⟨-, rfl⟩ | ⟨before, hb, hq⟩ := hcase
    · exact hr.setEntry hlt _ _
    · rw [(enter_ok hq).2]
      obtain ⟨os, w, -, hw⟩ := id hr
      have hbefore := hw.entries _ _ _ hb
      refine (hr.takeOver hbefore).setEntry ?_ _ _
      have hconf : (ProxySvr.takeOver { p with svrs := svrs } before pos).conf = p.conf :=
        socketRelease_conf ..
      rw [hconf]
      exact hlt

theorem Reached.accept {p q : Proxy} {a : AcceptAnswer} (h : Reached p)
    (hq : acceptConnect p a = .ok q) : Reached q := by
  obtain ⟨os, w, -, hw⟩ := id h
  cases hf : p.freeList with
  | nil =>
    simp only [acceptConnect, hf] at hq
    cases hq
    exact h
  | cons pos rest =>
    have hpos : pos < p.conf.maxSvrNum := hw.free pos (by rw [hf]; exact List.mem_cons_self ..)
    have hrest : ∀ i ∈ rest, i < p.conf.maxSvrNum := fun i hi =>
      hw.free i (by rw [hf]; exact List.mem_cons_of_mem _ hi)
    have hconnect : ∀ (fd : Nat) (s : SvrSocket) (k : Kernel), s.ep =
        { (p.pool pos).ep with fd := fd } → s.socketPos = (p.pool pos).socketPos →
        Reached (takeSlot p pos rest s k) := fun fd s k hep hsp =>
      h.next fun w hw => ⟨.connect pos fd, hw.put rfl (by rw [hep]; exact ⟨rfl, (hw.slots pos).bytes⟩)
        (hsp.trans (hw.socketPos pos)) hrest hw.entries⟩
    cases a with
    | failed =>
      simp only [acceptConnect, hf] at hq
      cases hq
      exact (h.quiet (q := { p with freeList := rest }) (fun _ => ⟨rfl, rfl⟩) (fun _ => rfl) rfl
        (fun _ hi => by rw [hf]; exact List.mem_cons_of_mem _ hi) fun _ _ _ hat => .inl hat).release _
    | rejected fd =>
      simp only [acceptConnect, hf] at hq
      cases hq
      exact (hconnect fd (acceptedSocket (p.pool pos) fd) (p.kernel.bind fd) rfl rfl).release _
    | ok fd t id =>
      simp only [acceptConnect, hf] at hq
      exact (hconnect fd { acceptedSocket (p.pool pos) fd with svrType := t, svrId := id }
        (p.kernel.bind fd) rfl rfl).register hpos hq

theorem Reached.consume {p q : Proxy} {pos : Nat} {bs : List UInt8} (h : Reached p)
    (hq : consume p pos bs = .ok q) : Reached q := by
  unfold ProxySvr.consume at hq
  split at hq
  · cases hq
  · next o ho =>
    cases hq
    obtain ⟨-, ho⟩ | ⟨-, p', hp', ho⟩ := forward_cases (motive := Reached)
      (fun f p t id pos hp _ => hp.send pos f) (h.recvBuf pos bs) ho
    · exact ho.recvBuf pos o.rest
    · rw [ho]
      exact (hp'.release _).recvBuf pos o.rest

theorem Reached.recv {p q : Proxy} {pos : Nat} {rs : List RecvAnswer} (h : Reached p)
    (hq : recvServerData p pos rs = .ok q) : Reached q := by
  induction rs generalizing p with
  | nil =>
    cases hq
    exact h
  | cons r rs ih =>
    unfold recvServerData at hq
    split at hq
    · cases hq
      exact h
    · split at hq
      · cases hq
        exact h.disconn _
      · cases hq
        exact h.disconn _
      · cases hq
        exact h
      · split at hq
        · cases hq
        · next p' hp' => exact ih (h.consume hp') hq

/-- Every event of the proxy makes calls on its slots. -/
theorem reached_step {p q : Proxy} {e : Event} (h : Reached p) (hq : ProxySvr.Step p e q) :
    Reached q := by
  cases e with
  | error pos =>
    simp only [ProxySvr.Step, dealEvent] at hq
    cases hq
    exact h.release pos
  | input pos a recvs =>
    simp only [ProxySvr.Step, dealEvent] at hq
    split at hq
    · cases hq
      exact h
    · split at hq
      · exact h.accept hq
      · exact h.recv hq

theorem reached_initial (conf : CenterConfig) (answer : Nat → SendAnswer) :
    Reached (initNetwork conf answer) := by
  have hpool : ∀ pos, ((initNetwork conf answer).pool pos).ep = ⟨0, [], SendBuf.empty⟩ ∧
      ((initNetwork conf answer).pool pos).socketPos = pos := by
    intro pos
    by_cases hpos : pos = 0
    · subst hpos
      exact ⟨rfl, rfl⟩
    · simp only [initNetwork, Function.update_of_ne hpos]
      exact ⟨rfl, rfl⟩
  refine ⟨[], _, .nil _, fun pos => ?_, fun pos => (hpool pos).2, fun pos hpos => ?_, ?_⟩
  · rw [(hpool pos).1]
    exact ⟨rfl, rfl⟩
  · exact List.mem_range.mp (List.mem_of_mem_tail hpos)
  · rintro t id pos ⟨v, hv, -⟩
    cases hv

/-- Every run of the proxy is one of calls on its slots. -/
theorem run_reached (conf : CenterConfig) (answer : Nat → SendAnswer) {es : List Event} {q : Proxy}
    (h : Trace.Run ProxySvr.Step (fun _ _ => True) (initNetwork conf answer) es q) : Reached q :=
  h.invariant Reached (reached_initial conf answer) fun _ _ _ hp _ hs => reached_step hp hs

end Proxy

/-! ## Every sequence of calls -/

/-- The buffer of a `CenterMng` holds its frames behind the calls of every sequence of operations, and
so do the buffers of the proxy's slots in every sequence of calls that copies no buffer over frames:
one that does is wrong at once. -/
theorem buffers_hold_frames_iff (answer : Nat → SendAnswer) (fd : Int)
    (ops : List CenterMng.Op) (fds : Nat → Int) (os : List Op) (w : World) :
    (∃ w, Trace.Run Step TakesOver (start fun _ => fd)
        (callsOfRun (CenterMng.init answer fd) ops) w ∧
      Represents (w.pool 0) (CenterMng.run (CenterMng.init answer fd) ops).ep ∧ AllHold w) ∧
    ((Trace.Run Step (fun w _ => AllHold w) (start fds) os w ∧ AllHold w) ↔
      Trace.Run Step TakesOver (start fds) os w) := by
  have hstart : ∀ fd : Nat → Int, AllHold (start fd) := fun fd pos => Holds.empty rfl rfl
  have hiff : ∀ (fd : Nat → Int) (os : List Op) (w : World),
      (Trace.Run Step (fun w _ => AllHold w) (start fd) os w ∧ AllHold w) ↔
        Trace.Run Step TakesOver (start fd) os w := fun fd os w =>
    Trace.Run.always_iff (fun _ _ _ h hs => step_holds_iff h hs) (hstart fd)
  refine ⟨?_, hiff fds os w⟩
  have hinit : Represents ((start fun _ => fd).pool 0) (CenterMng.init answer fd).ep := ⟨rfl, rfl⟩
  obtain ⟨w, hrun, hrep⟩ := leads_run hinit ops
  exact ⟨w, hrun, hrep, ((hiff _ _ w).mpr hrun).2⟩

def sampleFrame : Packet := ⟨SlotReuse.message 7 0, by decide⟩

/-- The slot of `(7, 0)` is released while the table still names it, so a frame for that server is
reserved in a free slot. The connection that takes the slot copies another buffer over the frame. -/
theorem handOver_loses_frame :
    (∃ as w, Trace.Run (fun w a w' => SlotReuse.next w a = some w') (fun _ _ => True)
        (SlotReuse.sampleStart 3) as w ∧
      w.proxy.freeList = [1] ∧ (w.proxy.pool 1).ep.sendBuf = ⟨sampleFrame.val, by decide⟩ ∧
      (SlotReuse.next w (.accept (.ok 7 8 0))).map (fun w' => (w'.proxy.pool 1).ep.sendBuf.val) =
        some []) ∧
    ∃ os w, Trace.Run Step (fun _ _ => True) (start fun _ => 0) os w ∧ (w.pool 1).sendOffset = 0 ∧
      held (w.log 1) = [sampleFrame.val] ∧ ¬ AllHold w := by
  constructor
  · obtain ⟨w, hrun, htest⟩ := Trace.exists_run_of_exec SlotReuse.next (fun _ _ => True)
      (SlotReuse.sampleStart 3)
      [.accept (.ok 5 7 0), .accept (.ok 6 8 0), .error 1, .recv 2 (.data sampleFrame.val)]
      (fun w => w.proxy.freeList = [1] ∧
        (w.proxy.pool 1).ep.sendBuf = ⟨sampleFrame.val, by decide⟩ ∧
        (SlotReuse.next w (.accept (.ok 7 8 0))).map (fun w' => (w'.proxy.pool 1).ep.sendBuf.val) =
          some []) (by decide +kernel)
    exact ⟨_, w, hrun, htest⟩
  · refine ⟨[.connect 1 5, .connect 2 6, .release 1, .sendOneData 1 sampleFrame .again .fatal,
      .connect 1 7, .handOver 2 1], _, .cons trivial rfl (.cons trivial rfl (.cons trivial rfl
        (.cons trivial rfl (.cons trivial rfl (.cons trivial rfl (.nil _)))))),
      by decide +kernel, by decide +kernel, fun h => ?_⟩
    have hlen := (h 1).length
    exact absurd hlen (by decide +kernel)

end Reserve
