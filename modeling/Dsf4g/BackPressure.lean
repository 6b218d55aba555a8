import Dsf4g.Lib.Trace
import Dsf4g.TcpSlots

/-!
# A full `cs` pipe

`RecvClientData` leaves frames in the receive buffer while the `cs` pipe has no room for them.
They are parsed again only behind the next `recv`, which is not made on a full buffer.
-/
namespace BackPressure

open Base TcpSvr TcpDeframe

/-- The result of `recv` is one the kernel can give: at least one byte, no more than the buffer has
room for, and behind the buffer none that would carry the offset past `uint32`. -/
def Stored (t : Svr) (pos : Nat) : RecvResult → Prop
  | .data bytes => bytes ≠ [] ∧ (t.pool pos).bufOffset + bytes.length < 2 ^ 32 ∧
      ((t.pool pos).bufOffset ≤ recvCap → (t.pool pos).bufOffset + bytes.length ≤ recvCap)
  | _ => True

/-- A call of `RecvClientData` returns behind exactly these results of `recv`. -/
def Returns (pos : Nat) : Svr → List RecvResult → Prop
  | t, [] => (t.pool pos).bufOffset = recvCap
  | t, r :: rs => (t.pool pos).bufOffset ≠ recvCap ∧ Stored t pos r ∧
      if (recvRound t pos r).again = true then Returns pos (recvRound t pos r).svr rs else rs = []

/-- `recv` reports neither the end of the stream nor a fatal error. -/
def Unbroken (rs : List RecvResult) : Prop := ∀ r ∈ rs, r ≠ .eof ∧ r ≠ .fatal

structure Valid (f : List UInt8) : Prop where
  short : 4 ≤ f.length
  long : f.length ≤ maxBufLen
  length_prefix : Bytes.ofBe (f.take 4) = f.length

structure Held (t : Svr) (pos : Nat) (f : List UInt8) : Prop extends Valid f where
  front : Memory.read t.mem (recvBuf pos) f.length = f

/-- The frame is complete, and the `cs` pipe has room for it. -/
structure Waiting (t : Svr) (pos : Nat) (f : List UInt8) : Prop extends Held t pos f where
  received : f.length ≤ (t.pool pos).bufOffset
  room : t.csPipe.occupancy TcpFrame.cost + (4 + (tcpHeadLen + f.length)) ≤ t.csPipe.size - 1

/-- The first frame that was appended is `f`, from the connection in the slot. -/
def Appended (t t' : Svr) (pos : Nat) (f : List UInt8) : Prop :=
  ∃ g fs, t'.csPipe.items = t.csPipe.items ++ g :: fs ∧ g.payload = f ∧ g.conn = (t.pool pos).conn

/-- The buffer is not full, and if `recv` would block at once, the frame and the loop's test of four
bytes can spare the byte that `-1` takes from the offset. -/
structure Spared (t : Svr) (pos : Nat) (f : List UInt8) (rs : List RecvResult) : Prop where
  not_full : (t.pool pos).bufOffset ≠ recvCap
  behind : rs.head? = some .again → f.length < (t.pool pos).bufOffset ∧ 5 < (t.pool pos).bufOffset

/-! ## Parsing -/

theorem Held.len {t : Svr} {pos n : Nat} {f : List UInt8} (h : Held t pos f) :
    (startParse t pos n).len = f.length := by
  have hread := Memory.take_read t.mem (recvBuf pos) f.length 4 h.short
  rw [h.front] at hread
  rw [Parse.len, startParse, ← hread, h.length_prefix]

theorem Held.payload {t : Svr} {pos n : Nat} {f : List UInt8} (h : Held t pos f) (s : Socket) :
    ((startParse t pos n).frame s).payload = f := by
  rw [frame_payload _ _ (by simp only [startParse, recvBuf]; omega), h.len]
  exact h.front

/-- A frame of which enough bytes are counted is appended. -/
theorem endParse_appends {t : Svr} {pos n : Nat} {f : List UInt8} (h : Waiting t pos f)
    (hn : f.length ≤ n) (h4 : 4 < n) :
    ∃ g fs, (endParse t pos n).csPipe.items = t.csPipe.items ++ g :: fs ∧ g.payload = f ∧
      g.conn = (t.pool pos).conn := by
  have hlen := h.len (n := n)
  have hlong := h.long
  have hshort := h.short
  generalize hs : ({ t.pool pos with bufOffset := n } : Socket) = s
  have hroom : (startParse t pos n).csPipe.append TcpFrame.cost ((startParse t pos n).frame s) =
      some { t.csPipe with items := t.csPipe.items ++ [(startParse t pos n).frame s] } := by
    rw [Fifo.append, TcpFrame.cost, h.payload s]
    exact if_pos h.room
  have hparse := parseFrames_append s (startParse t pos n) h4 (by omega) (by rw [hlen]; exact hn)
    hroom
  obtain ⟨fs, hfs, -⟩ := parseFrames_cs s ((startParse t pos n).advance s
    { t.csPipe with items := t.csPipe.items ++ [(startParse t pos n).frame s] })
  refine ⟨(startParse t pos n).frame s, fs, ?_, h.payload s, ?_⟩
  · rw [endParse, hs, hparse, hfs, Parse.advance, List.append_assoc, List.singleton_append]
  · rw [← hs]
    rfl

/-- A frame of which too few bytes are counted stays. -/
theorem endParse_stays {t : Svr} {pos n : Nat} {f : List UInt8} (h : Waiting t pos f)
    (hn : ¬ (f.length ≤ n ∧ 4 < n)) : endParse t pos n = startParse t pos n := by
  have hlen := h.len (n := n)
  have hlong := h.long
  have hshort := h.short
  by_cases h4 : 4 < n
  · apply parseFrames_short _ _ h4
    · omega
    · rw [hlen]
      change n < f.length
      omega
  · exact parseFrames_stop _ _ (Nat.not_lt.mp h4)

/-! ## What a call appends -/

theorem socketRelease_cs (t : Svr) (pos : Nat) (notify : Bool) :
    t.csPipe.items <+: (socketRelease t pos notify).csPipe.items := by
  by_cases hpos : pos < t.maxClientNum
  · obtain hcs | ⟨f, hcs, -⟩ := (socketRelease_released t pos notify hpos).cs
    · exact ⟨[], by rw [List.append_nil, hcs]⟩
    · rw [hcs]
      exact List.prefix_append _ _
  · exact ⟨[], by rw [List.append_nil, socketRelease, if_pos (Nat.not_lt.mp hpos)]⟩

theorem consume_cs (t : Svr) (pos n : Nat) (again : Bool) :
    (endParse t pos n).csPipe.items <+: (consume t pos n again).svr.csPipe.items := by
  simp only [consume]
  split
  · exact socketRelease_cs (afterParse t pos n) _ _
  · split <;> exact List.prefix_refl _

theorem quiet_cs {t t' : Svr} (h : Quiet t t') : t.csPipe.items <+: t'.csPipe.items := by
  obtain ⟨fs, hfs, -⟩ := h.cs
  rw [hfs]
  exact List.prefix_append _ _

theorem recvRound_cs (t : Svr) (pos : Nat) (r : RecvResult) :
    t.csPipe.items <+: (recvRound t pos r).svr.csPipe.items := by
  obtain ⟨t₁, -, hq, he⟩ | ⟨-, hq⟩ := recvRound_cases t pos r
  · rw [he]
    exact (quiet_cs hq).trans (socketRelease_cs _ _ _)
  · exact quiet_cs hq

/-- A call takes nothing out of the `cs` pipe. -/
theorem recvClientData_cs (t : Svr) (pos : Nat) (rs : List RecvResult) :
    t.csPipe.items <+: (recvClientData t pos rs).csPipe.items := by
  induction rs generalizing t with
  | nil => exact List.prefix_refl _
  | cons r rs ih =>
    simp only [recvClientData]
    split
    · exact (recvRound_cs t pos r).trans (ih _)
    · exact recvRound_cs t pos r

/-- What the first round appends, the call appends. -/
theorem Appended.trans {t t₁ t' : Svr} {pos : Nat} {f : List UInt8} (h : Appended t t₁ pos f)
    (hcs : t₁.csPipe.items <+: t'.csPipe.items) : Appended t t' pos f := by
  obtain ⟨g, fs, hfs, hpay, hconn⟩ := h
  obtain ⟨rest, hrest⟩ := hcs
  refine ⟨g, fs ++ rest, ?_, hpay, hconn⟩
  rw [← hrest, hfs, List.append_assoc, List.cons_append]

theorem not_appended {t t' : Svr} {pos : Nat} {f : List UInt8} (h : t'.csPipe = t.csPipe) :
    ¬ Appended t t' pos f := by
  rintro ⟨g, fs, hfs, -⟩
  rw [h] at hfs
  have hlen := congrArg List.length hfs
  rw [List.length_append, List.length_cons] at hlen
  omega

/-- A frame that waits is appended as soon as the loop sees all of it. -/
theorem consume_appended {t : Svr} {pos n : Nat} {f : List UInt8} {again : Bool}
    (h : Waiting t pos f) (hn : f.length ≤ n) (h4 : 4 < n) :
    Appended t (consume t pos n again).svr pos f := by
  obtain ⟨g, fs, hfs, hpay, hconn⟩ := endParse_appends h hn h4
  obtain ⟨rest, hrest⟩ := consume_cs t pos n again
  refine ⟨g, fs ++ rest, ?_, hpay, hconn⟩
  rw [← hrest, hfs, List.append_assoc, List.cons_append]

/-- Before that the pipe stays as it is. -/
theorem consume_stays {t : Svr} {pos n : Nat} {f : List UInt8} {again : Bool}
    (h : Waiting t pos f) (hn : ¬ (f.length ≤ n ∧ 4 < n)) :
    (consume t pos n again).svr.csPipe = t.csPipe := by
  have hend := endParse_stays h hn
  simp only [consume, hend, startParse, Bool.false_eq_true, if_false, ne_eq, not_true_eq_false]
  rw [afterParse, hend]
  rfl

/-- Bytes that arrive behind the frame leave it waiting. -/
theorem Waiting.write {t : Svr} {pos : Nat} {f : List UInt8} (h : Waiting t pos f)
    (bytes : List UInt8) : Waiting
      { t with mem := Memory.write t.mem (recvBuf pos + (t.pool pos).bufOffset) bytes } pos f := by
  refine ⟨⟨h.toValid, ?_⟩, h.received, h.room⟩
  have hreceived := h.received
  exact (Memory.read_write_disjoint _ _ _ _ _ (by omega)).trans h.front

theorem consume_again (t : Svr) (pos n : Nat) : (consume t pos n false).again = false := by
  simp only [consume]
  split
  · rfl
  · split <;> rfl

/-- A call on a waiting frame appends it exactly when it spares it. -/
theorem recvClientData_appended_iff {t : Svr} {pos : Nat} {f : List UInt8} {rs : List RecvResult}
    (h32 : (t.pool pos).bufOffset < 2 ^ 32) (h : Waiting t pos f) (hrs : Returns pos t rs)
    (hu : Unbroken rs) :
    Appended t (recvClientData t pos rs) pos f ↔ Spared t pos f rs := by
  have hshort := h.short
  have hlong := h.long
  have hreceived := h.received
  cases rs with
  | nil => exact iff_of_false (not_appended rfl) fun hs => hs.not_full hrs
  | cons r rs =>
    obtain ⟨hfull, hstored, hrest⟩ := hrs
    have hr := hu r List.mem_cons_self
    cases r with
    | eof => exact absurd rfl hr.1
    | fatal => exact absurd rfl hr.2
    | again =>
      have hround : recvRound t pos .again = consume t pos ((t.pool pos).bufOffset - 1) false := by
        have hmod : (2 ^ 32 - 1 + (t.pool pos).bufOffset) % 2 ^ 32 = (t.pool pos).bufOffset - 1 := by
          omega
        simp only [recvRound]
        rw [if_neg hfull, hmod]
      have hcall : recvClientData t pos (.again :: rs) =
          (consume t pos ((t.pool pos).bufOffset - 1) false).svr := by
        simp only [recvClientData, hround, consume_again, Bool.false_eq_true, if_false]
      rw [hcall]
      by_cases hs : f.length < (t.pool pos).bufOffset ∧ 5 < (t.pool pos).bufOffset
      · exact iff_of_true (consume_appended h (by omega) (by omega)) ⟨hfull, fun _ => hs⟩
      · exact iff_of_false (not_appended (consume_stays h (by omega))) fun h' => hs (h'.behind rfl)
    | data bytes =>
      obtain ⟨hne, hwrap, -⟩ := hstored
      have hpos := List.length_pos_iff.mpr hne
      refine iff_of_true ?_ ⟨hfull, fun ha => by cases ha⟩
      have hround : recvRound t pos (.data bytes) = consume
          { t with mem := Memory.write t.mem (recvBuf pos + (t.pool pos).bufOffset) bytes } pos
          ((t.pool pos).bufOffset + bytes.length) true := by
        simp only [recvRound]
        rw [if_neg hfull, Nat.mod_eq_of_lt hwrap]
      have hfirst : Appended t (recvRound t pos (.data bytes)).svr pos f := by
        obtain ⟨g, fs, hfs, hpay, hconn⟩ := @consume_appended _ pos
          ((t.pool pos).bufOffset + bytes.length) f true (h.write bytes) (by omega) (by omega)
        rw [← hround] at hfs
        exact ⟨g, fs, hfs, hpay, hconn⟩
      apply hfirst.trans
      simp only [recvClientData]
      split
      · exact recvClientData_cs _ _ _
      · exact List.prefix_refl _

/-! ## Runs of the gateway -/

inductive Event where
  | accept (r : AcceptResult)
  /-- `EPOLLERR` on a slot. -/
  | error (pos : Nat)
  /-- A call of `RecvClientData`, and what its calls of `recv` return. -/
  | recv (pos : Nat) (rs : List RecvResult)
  /-- A frame comes out of the `sc` pipe. -/
  | send (f : TcpFrame) (r : SendResult)
  /-- The logic server reads the `cs` pipe. -/
  | fetch

def serve (t : Svr) : Event → Svr
  | .accept r => acceptConnect t r
  | .error pos => socketRelease t pos true
  | .recv pos rs => recvClientData t pos rs
  | .send f r => sendDataToClient t f r
  | .fetch => TcpSlots.fetched t

def Step (t : Svr) (e : Event) (t' : Svr) : Prop :=
  t' = serve t e ∧ ∀ pos rs, e = .recv pos rs →
    pos < t.maxClientNum ∧ (t.pool pos).type = clinetSocket ∧ Returns pos t rs

/-- A call without a broken connection appends a frame that waits. -/
def Unwedged (t : Svr) : Event → Prop
  | .recv pos rs => ∀ f, Waiting t pos f → Returns pos t rs → Unbroken rs →
      Appended t (recvClientData t pos rs) pos f
  | _ => True

/-- A call without a broken connection spares a frame that waits. -/
def Attended (t : Svr) : Event → Prop
  | .recv pos rs => ∀ f, Waiting t pos f → Returns pos t rs → Unbroken rs → Spared t pos f rs
  | _ => True

def OffsetsFit (t : Svr) : Prop := ∀ i, (t.pool i).bufOffset < 2 ^ 32

theorem zero_fits : 0 < 2 ^ 32 := by decide

theorem OffsetsFit.setSocket {t : Svr} (h : OffsetsFit t) {pos : Nat} {s : Socket}
    (hs : s.bufOffset < 2 ^ 32) : OffsetsFit (setSocket t pos s) := by
  intro i
  by_cases hi : i = pos
  · rw [hi, setSocket_pool]
    exact hs
  · rw [setSocket_pool_other _ _ _ _ hi]
    exact h i

theorem OffsetsFit.socketRelease {t : Svr} (h : OffsetsFit t) (pos : Nat) (notify : Bool) :
    OffsetsFit (socketRelease t pos notify) := by
  by_cases hpos : pos < t.maxClientNum
  · have hr := socketRelease_released t pos notify hpos
    intro i
    by_cases hi : i = pos
    · rw [hi, hr.slot]
      exact zero_fits
    · rw [hr.other i hi]
      exact h i
  · rw [TcpSvr.socketRelease, if_pos (Nat.not_lt.mp hpos)]
    exact h

theorem OffsetsFit.acceptConnect {t : Svr} (h : OffsetsFit t) (r : AcceptResult) :
    OffsetsFit (acceptConnect t r) := by
  unfold TcpSvr.acceptConnect
  cases t.freeList with
  | nil => exact h
  | cons pos rest =>
    have hrest : OffsetsFit { t with freeList := rest } := fun i => h i
    cases r with
    | failed => exact hrest.socketRelease pos true
    | setupFailed fd =>
      have hfd : OffsetsFit { t with freeList := rest, fds := fd :: t.fds } := fun i => h i
      exact hfd.socketRelease pos true
    | ok fd msec port addr => exact hrest.setSocket (zero_fits)

theorem endParse_left (t : Svr) (pos n : Nat) : (endParse t pos n).left ≤ n := by
  have hle : ∀ s p, (parseFrames s p).left ≤ p.left := by
    intro s p
    fun_induction parseFrames s p with
    | case1 => exact Nat.le_refl _
    | case2 => exact Nat.le_refl _
    | case3 => exact Nat.le_refl _
    | case4 => exact Nat.le_refl _
    | case5 p _ _ _ cs _ ih => exact Nat.le_trans ih (Nat.sub_le _ _)
  exact hle _ (startParse t pos n)

theorem OffsetsFit.consume {t : Svr} (h : OffsetsFit t) {pos n : Nat} (hn : n < 2 ^ 32)
    (again : Bool) : OffsetsFit (consume t pos n again).svr := by
  have hafter : OffsetsFit (afterParse t pos n) := h.setSocket hn
  have hleft := endParse_left t pos n
  simp only [TcpSvr.consume]
  split
  · exact hafter.socketRelease _ _
  · split
    · have hset : OffsetsFit (TcpSvr.setSocket (afterParse t pos n) pos
          { (afterParse t pos n).pool pos with bufOffset := (endParse t pos n).left }) :=
        hafter.setSocket (by dsimp only; omega)
      intro i
      simp only [compact]
      exact hset i
    · exact hafter

theorem OffsetsFit.recvRound {t : Svr} (h : OffsetsFit t) (pos : Nat) (r : RecvResult) :
    OffsetsFit (recvRound t pos r).svr := by
  simp only [TcpSvr.recvRound]
  split
  · exact h
  · cases r with
    | eof => exact h.socketRelease _ _
    | fatal => exact h.socketRelease _ _
    | again => exact h.consume (Nat.mod_lt _ (by decide)) false
    | data bytes =>
      have hmem : OffsetsFit { t with
          mem := Memory.write t.mem (recvBuf pos + (t.pool pos).bufOffset) bytes } := fun i => h i
      exact hmem.consume (Nat.mod_lt _ (by decide)) true

theorem OffsetsFit.recvClientData {t : Svr} (h : OffsetsFit t) (pos : Nat) (rs : List RecvResult) :
    OffsetsFit (recvClientData t pos rs) := by
  induction rs generalizing t with
  | nil => exact h
  | cons r rs ih =>
    simp only [TcpSvr.recvClientData]
    split
    · exact ih (h.recvRound pos r)
    · exact h.recvRound pos r

/-- No event carries an offset past its type. -/
theorem OffsetsFit.serve {t : Svr} (h : OffsetsFit t) (e : Event) : OffsetsFit (serve t e) := by
  cases e with
  | accept r => exact h.acceptConnect r
  | error pos => exact h.socketRelease pos true
  | recv pos rs => exact h.recvClientData pos rs
  | send f r =>
    change OffsetsFit (sendDataToClient t f r)
    obtain ⟨heq, -⟩ | ⟨-, -, heq⟩ | ⟨-, -, -, heq⟩ | ⟨-, -, heq⟩ := sendDataToClient_cases t f r
    · rw [heq]
      exact h
    · rw [heq]
      exact h.setSocket (h f.head.socketPos)
    · rw [heq]
      exact h.socketRelease _ _
    · rw [heq]
      exact h.socketRelease _ _
  | fetch =>
    change OffsetsFit (TcpSlots.fetched t)
    rw [TcpSlots.fetched]
    split <;> exact h

theorem initNetwork_fit (n : Nat) (mem : Nat → UInt8) (cs sc : Fifo TcpFrame) :
    OffsetsFit (initNetwork n mem cs sc) := by
  intro i
  simp only [initNetwork]
  split <;> exact zero_fits

/-- While the offsets fit, a frame is appended exactly when the call attends to it. -/
theorem unwedged_iff_attended {t : Svr} (h : OffsetsFit t) (e : Event) :
    Unwedged t e ↔ Attended t e := by
  cases e with
  | recv pos rs =>
    apply forall_congr'
    intro f
    constructor
    · intro ha hw hr hu
      exact (recvClientData_appended_iff (h pos) hw hr hu).mp (ha hw hr hu)
    · intro hs hw hr hu
      exact (recvClientData_appended_iff (h pos) hw hr hu).mpr (hs hw hr hu)
  | _ => exact Iff.rfl

/-- Waiting frames are appended by every call of a run exactly when every call spares them. -/
theorem run_unwedged_iff (n : Nat) (mem : Nat → UInt8) (cs sc : Fifo TcpFrame) (es : List Event)
    (t : Svr) :
    Trace.Run Step Unwedged (initNetwork n mem cs sc) es t ↔
      Trace.Run Step Attended (initNetwork n mem cs sc) es t := by
  have hstep : ∀ (guard : Svr → Event → Prop) (s : Svr) (e : Event) (s' : Svr), OffsetsFit s →
      guard s e → Step s e s' → OffsetsFit s' := by
    intro guard s e s' h _ hs
    rw [hs.1]
    exact h.serve e
  constructor
  · intro hrun
    exact hrun.exchange OffsetsFit (initNetwork_fit n mem cs sc) (hstep Unwedged)
      fun s e h => (unwedged_iff_attended h e).mp
  · intro hrun
    exact hrun.exchange OffsetsFit (initNetwork_fit n mem cs sc) (hstep Attended)
      fun s e h => (unwedged_iff_attended h e).mpr

/-! ## A full buffer -/

/-- The pipe refuses the frame, and everything stays where it is. -/
theorem consume_full {t : Svr} {pos n : Nat} {f : List UInt8} (h : Held t pos f)
    (hn : f.length ≤ n) (h4 : 4 < n)
    (hroom : ¬ t.csPipe.occupancy TcpFrame.cost + (4 + (tcpHeadLen + f.length)) ≤ t.csPipe.size - 1) :
    (consume t pos n true).again = true ∧ (consume t pos n true).svr.csPipe = t.csPipe ∧
      (consume t pos n true).svr.pool = (afterParse t pos n).pool ∧
      Held (consume t pos n true).svr pos f := by
  have hlen := h.len (n := n)
  have hlong := h.long
  have hshort := h.short
  have hend : endParse t pos n =
      (startParse t pos n).called { t.pool pos with bufOffset := n } false := by
    apply parseFrames_full _ _ h4
    · omega
    · rw [hlen]
      exact hn
    · rw [Fifo.append, TcpFrame.cost, h.payload]
      exact if_neg hroom
  have hsvr : consume t pos n true = ⟨afterParse t pos n, (endParse t pos n).calls, true⟩ := by
    simp only [consume, hend, Parse.called, startParse, Bool.false_eq_true, if_false, ne_eq,
      not_true_eq_false]
  rw [hsvr]
  refine ⟨rfl, ?_, rfl, h.toValid, ?_⟩
  · change (endParse t pos n).csPipe = t.csPipe
    rw [hend]
    rfl
  · change Memory.read (endParse t pos n).mem (recvBuf pos) f.length = f
    rw [hend]
    refine Eq.trans ?_ h.front
    exact called_read (startParse t pos n) _ false f.length
      (by simp only [startParse, recvBuf]; omega)

/-- A client fills its empty buffer while the pipe is full. -/
theorem flooded {t : Svr} {pos : Nat} {f rest : List UInt8} (hempty : (t.pool pos).bufOffset = 0)
    (hlen : (f ++ rest).length = recvCap) (hf : Valid f)
    (hroom : ¬ t.csPipe.occupancy TcpFrame.cost + (4 + (tcpHeadLen + f.length)) ≤
      t.csPipe.size - 1) :
    ∃ u, recvClientData t pos [.data (f ++ rest)] = u ∧ Returns pos t [.data (f ++ rest)] ∧
      u.csPipe = t.csPipe ∧ (u.pool pos).bufOffset = recvCap ∧ Held u pos f := by
  have hcap : recvCap = 409600 := rfl
  generalize hq : ({ t with mem := Memory.write t.mem (recvBuf pos) (f ++ rest) } : Svr) = q
  have hpipe : q.csPipe = t.csPipe := by rw [← hq]
  have hheld : Held q pos f := by
    refine ⟨hf, ?_⟩
    have hread := Memory.read_write_same t.mem (recvBuf pos) (f ++ rest)
    rw [← Memory.take_read _ _ (f ++ rest).length _ (by rw [List.length_append]; omega), ← hq]
    exact (congrArg (List.take f.length) hread).trans (List.take_left' rfl)
  have hlong := hf.long
  have hmax : maxBufLen = 4096 := rfl
  obtain ⟨hagain, hcs, hpool, hheld⟩ := consume_full (n := recvCap) hheld (by omega) (by omega)
    (by rw [hpipe]; exact hroom)
  have hround : recvRound t pos (.data (f ++ rest)) = consume q pos recvCap true := by
    simp only [recvRound, hempty]
    rw [if_neg (by omega), hlen, Nat.zero_add, Nat.add_zero, Nat.mod_eq_of_lt (by omega), hq]
  have hoff : ((consume q pos recvCap true).svr.pool pos).bufOffset = recvCap := by
    rw [hpool, TcpSlots.afterParse_slot]
  refine ⟨(consume q pos recvCap true).svr, ?_, ?_, hcs.trans hpipe, hoff, hheld⟩
  · simp only [recvClientData, hround, hagain, if_true]
  · refine ⟨by omega, ⟨?_, by omega, by omega⟩, ?_⟩
    · intro hnil
      rw [hnil, List.length_nil] at hlen
      omega
    · rw [hround, if_pos hagain]
      exact hoff

/-- A frame of another connection that fills the `cs` pipe. -/
def blocker : TcpFrame := ⟨⟨900, 2, 80, [], tcpNormal, false⟩, [0, 0, 0, 5, 1], ⟨2, 900⟩⟩

def crowded : Svr :=
  acceptConnect (initNetwork 3 (fun _ => 0) ⟨60, [blocker]⟩ ⟨60, []⟩) (.ok 5 1000 80 default)

def small : List UInt8 := [0, 0, 0, 5, 9]

def flood : List UInt8 := small ++ List.replicate (recvCap - 5) 0

theorem flood_length : flood.length = recvCap := by
  have hsmall : small.length = 5 := rfl
  have hcap : recvCap = 409600 := rfl
  rw [flood, List.length_append, List.length_replicate]
  omega

/-- The logic server makes room behind the flood, and no call looks at the frame any more. -/
theorem full_buffer_wedges :
    ∃ t, Trace.Run Step (fun _ _ => True) (initNetwork 3 (fun _ => 0) ⟨60, [blocker]⟩ ⟨60, []⟩)
        [.accept (.ok 5 1000 80 default), .recv 1 [.data flood], .fetch] t ∧
      Waiting t 1 small ∧ (t.pool 1).bufOffset = recvCap ∧ Returns 1 t [] ∧
      ∀ rs, Returns 1 t rs → ¬ Appended t (recvClientData t 1 rs) 1 small := by
  have hvalid : Valid small := ⟨by decide, by decide, by decide⟩
  obtain ⟨u, hcall, hreturns, hcs, hoff, hheld⟩ :=
    @flooded crowded 1 small _ rfl flood_length hvalid (by decide)
  have hfetched : TcpSlots.fetched u = { u with csPipe := ⟨60, []⟩ } := by
    rw [TcpSlots.fetched, hcs]
    rfl
  have haccept : Step (initNetwork 3 (fun _ => 0) ⟨60, [blocker]⟩ ⟨60, []⟩)
      (.accept (.ok 5 1000 80 default)) crowded := ⟨rfl, fun _ _ he => by cases he⟩
  have hrecv : Step crowded (.recv 1 [.data flood]) u := by
    refine ⟨hcall.symm, fun pos rs he => ?_⟩
    cases he
    exact ⟨by decide, rfl, hreturns⟩
  have hfetch : Step u .fetch { u with csPipe := ⟨60, []⟩ } :=
    ⟨hfetched.symm, fun _ _ he => by cases he⟩
  refine ⟨{ u with csPipe := ⟨60, []⟩ }, ?_, ?_, hoff, hoff, ?_⟩
  · exact .cons trivial haccept (.cons trivial hrecv (.cons trivial hfetch (.nil _)))
  · have hroom : Fifo.occupancy TcpFrame.cost ⟨60, []⟩ + (4 + (tcpHeadLen + small.length)) ≤ 59 := by
      decide
    refine ⟨⟨hvalid, hheld.front⟩, ?_, hroom⟩
    change small.length ≤ (u.pool 1).bufOffset
    rw [hoff]
    decide
  · intro rs hrs
    cases rs with
    | nil => exact not_appended rfl
    | cons r rs => exact absurd hoff hrs.1

end BackPressure
