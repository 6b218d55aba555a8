import Dsf4g.Base
import Dsf4g.Lib.Ledger
import Dsf4g.Lib.Sockets

/-!
# The send side that `CenterMng` and `SvrManager` share

`ReserveData`, `SendBufData` and `SendOneData` are written twice in the source, in
`core/center_mng.cpp` over the members of `CenterMng` and in
`src/proxysvr/proxysvr.cpp` over an `stSvrSocket`, with the same bodies. An
`Endpoint` holds what both work on.
-/
namespace SendBuffer

open Base Sockets

def recvBufLen : Nat := centerBufLen * 100
def sendBufLen : Nat := centerBufLen * 100
def sockClosed : Int := -1

/-- What a caller may submit: `SendMessageToCenter` builds frames in a buffer of
`CENTER_BUF_LEN` bytes and `RecvServerData` rejects longer ones. -/
abbrev Packet := { bs : List UInt8 // bs.length ≤ centerBufLen }

abbrev SendBuf := { bs : List UInt8 // bs.length ≤ sendBufLen }

def SendBuf.empty : SendBuf := ⟨[], by decide⟩

structure Endpoint where
  fd : Int
  /-- `recv_buf[0 .. recv_offset)`. -/
  recvBuf : List UInt8
  sendBuf : SendBuf

/-- `ReserveData` starts over when the frame does not fit behind what waits. -/
def overflows (b : SendBuf) (f : Packet) : Prop := sendBufLen < b.val.length + f.val.length

instance (b : SendBuf) (f : Packet) : Decidable (overflows b f) :=
  inferInstanceAs (Decidable (_ < _))

def reserve (b : SendBuf) (f : Packet) : SendBuf :=
  if h : overflows b f then ⟨f.val, Nat.le_trans f.property (by decide)⟩
  else ⟨b.val ++ f.val, by rw [List.length_append]; exact Nat.not_lt.mp h⟩

def reserveData (e : Endpoint) (f : Packet) : Endpoint := { e with sendBuf := reserve e.sendBuf f }

/-- What a call leaves, what it returned, and the bytes a reset of `ReserveData` threw away. -/
structure Sent where
  kernel : Kernel
  ep : Endpoint
  ok : Bool
  dropped : List UInt8

def Sent.reserved (s : Sent) (f : Packet) : Sent :=
  { s with
    ep := reserveData s.ep f
    ok := false
    dropped := s.dropped ++ if overflows s.ep.sendBuf f then s.ep.sendBuf.val else [] }

@[simp] theorem reserved_kernel (s : Sent) (f : Packet) : (s.reserved f).kernel = s.kernel := rfl

def shut (k : Kernel) (e : Endpoint) : Sent :=
  ⟨k.close e.fd, { e with fd := sockClosed, recvBuf := [] }, false, []⟩

def sendBufData (k : Kernel) (e : Endpoint) : Sent :=
  let r := k.send e.fd e.sendBuf.val
  match r.ret with
  | .sent => ⟨r.kernel, { e with sendBuf := SendBuf.empty }, true, []⟩
  | .again => ⟨r.kernel, e, false, []⟩
  | .fatal => shut r.kernel e

theorem sendBufData_dropped (k : Kernel) (e : Endpoint) : (sendBufData k e).dropped = [] := by
  unfold sendBufData
  dsimp only
  split <;> rfl

def sendNow (k : Kernel) (e : Endpoint) (f : Packet) : Sent :=
  let r := k.send e.fd f.val
  match r.ret with
  | .sent => ⟨r.kernel, e, true, []⟩
  | .again => Sent.reserved ⟨r.kernel, e, false, []⟩ f
  | .fatal => (shut r.kernel e).reserved f

def sendOneData (k : Kernel) (e : Endpoint) (f : Packet) : Sent :=
  if e.fd = sockClosed then Sent.reserved ⟨k, e, false, []⟩ f
  else if e.sendBuf.val = [] then sendNow k e f
  else
    let s := sendBufData k e
    if s.ok then sendNow s.kernel s.ep f else s.reserved f

/-! The connection table only loses entries, and a descriptor is kept or closed. -/

theorem later_sendBufData (k : Kernel) (e : Endpoint) : k.Later (sendBufData k e).kernel := by
  have h := later_send k e.fd e.sendBuf.val
  unfold sendBufData
  dsimp only
  split
  · exact h
  · exact h
  · exact h.trans (later_close _ _)

theorem later_sendNow (k : Kernel) (e : Endpoint) (f : Packet) :
    k.Later (sendNow k e f).kernel := by
  have h := later_send k e.fd f.val
  unfold sendNow
  dsimp only
  split
  · exact h
  · exact h
  · exact h.trans (later_close _ _)

theorem later_sendOneData (k : Kernel) (e : Endpoint) (f : Packet) :
    k.Later (sendOneData k e f).kernel := by
  unfold sendOneData
  dsimp only
  split
  · exact Kernel.Later.refl k
  · split
    · exact later_sendNow k e f
    · split
      · exact (later_sendBufData k e).trans (later_sendNow _ _ _)
      · exact later_sendBufData k e

theorem sendBufData_fd (k : Kernel) (e : Endpoint) :
    (sendBufData k e).ep.fd = e.fd ∨ (sendBufData k e).ep.fd = sockClosed := by
  unfold sendBufData
  dsimp only
  split
  · exact .inl rfl
  · exact .inl rfl
  · exact .inr rfl

theorem sendNow_fd (k : Kernel) (e : Endpoint) (f : Packet) :
    (sendNow k e f).ep.fd = e.fd ∨ (sendNow k e f).ep.fd = sockClosed := by
  unfold sendNow
  dsimp only
  split
  · exact .inl rfl
  · exact .inl rfl
  · exact .inr rfl

theorem sendOneData_fd (k : Kernel) (e : Endpoint) (f : Packet) :
    (sendOneData k e f).ep.fd = e.fd ∨ (sendOneData k e f).ep.fd = sockClosed := by
  unfold sendOneData
  dsimp only
  split
  · exact .inl rfl
  · split
    · exact sendNow_fd k e f
    · split
      · cases sendNow_fd (sendBufData k e).kernel (sendBufData k e).ep f with
        | inl h => rw [h]; exact sendBufData_fd k e
        | inr h => exact .inr h
      · exact sendBufData_fd k e

/-! ## What the calls do to the ledgers -/

section Ledgers

variable {κ : Type} [DecidableEq κ] {own : Nat → κ} {led : κ → Ledger} {key : κ}
variable {k : Kernel} {e : Endpoint}

/-- The ledgers still match when `key` has a ledger with the frames `new` added, the bytes
`dropped` discarded, and the send buffer waiting. -/
def Posted (own : Nat → κ) (led : κ → Ledger) (key : κ) (new : List (List UInt8)) (s : Sent) :
    Prop :=
  ∃ l : Ledger, Ledger.Books s.kernel.wire own (Function.update led key l) ∧
    l.frames = (led key).frames ++ new ∧ l.discarded = (led key).discarded ++ s.dropped ∧
    l.waiting.flatten = s.ep.sendBuf.val

theorem Posted.idle (hb : Ledger.Books k.wire own led)
    (hw : (led key).waiting.flatten = e.sendBuf.val) {s : Sent} (hwire : s.kernel.wire = k.wire)
    (hbuf : s.ep.sendBuf = e.sendBuf) (hd : s.dropped = []) : Posted own led key [] s := by
  refine ⟨led key, ?_, by simp, by simp [hd], by rw [hbuf, hw]⟩
  rw [Function.update_eq_self, hwire]
  exact hb

theorem Posted.reserved {new : List (List UInt8)} {s : Sent} (h : Posted own led key new s)
    (f : Packet) : Posted own led key (new ++ [f.val]) (s.reserved f) := by
  obtain ⟨l, hb, hf, hd, hw⟩ := h
  by_cases ho : overflows s.ep.sendBuf f
  · refine ⟨(l.settle .discarded).submit f.val, ?_, by simp [hf], ?_, ?_⟩
    · have := (hb.discard key).submit key f.val
      simpa using this
    · simp [Sent.reserved, ho, hd, hw]
    · simp [Sent.reserved, reserveData, reserve, ho]
  · refine ⟨l.submit f.val, ?_, by simp [hf], ?_, ?_⟩
    · simpa using hb.submit key f.val
    · simp [Sent.reserved, ho, hd]
    · simp [Sent.reserved, reserveData, reserve, ho, hw]

theorem sendBufData_posted (hk : k.Whole) (hb : Ledger.Books k.wire own led)
    (hc : ∀ c, k.conns e.fd = some c → own c = key)
    (hw : (led key).waiting.flatten = e.sendBuf.val) :
    Posted own led key [] (sendBufData k e) := by
  unfold sendBufData
  dsimp only
  rcases send_cases hk e.fd e.sendBuf.val with ⟨c, hconn, hret, hwire⟩ | ⟨hret, hwire⟩
  · rw [hret]
    refine ⟨(led key).settle (.written c), ?_, by simp, by simp, rfl⟩
    have := hb.flush (hc c hconn)
    rw [hw] at this
    simpa only [hwire] using this
  · split
    · next h => exact absurd h hret
    · exact Posted.idle hb hw hwire rfl rfl
    · exact Posted.idle hb hw hwire rfl rfl

theorem sendNow_posted (hk : k.Whole) (hb : Ledger.Books k.wire own led)
    (hc : ∀ c, k.conns e.fd = some c → own c = key)
    (hw : (led key).waiting.flatten = e.sendBuf.val) (he : e.sendBuf.val = []) (f : Packet) :
    Posted own led key [f.val] (sendNow k e f) := by
  unfold sendNow
  dsimp only
  rcases send_cases hk e.fd f.val with ⟨c, hconn, hret, hwire⟩ | ⟨hret, hwire⟩
  · rw [hret]
    refine ⟨((led key).submit f.val).settle (.written c), ?_, by simp, by simp, he.symm⟩
    have := (hb.submit key f.val).flush (hc c hconn)
    simpa only [Function.update_self, Function.update_idem, Ledger.submit_waiting,
      List.flatten_append, hw, he, List.nil_append, List.flatten_cons, List.flatten_nil,
      List.append_nil, hwire] using this
  · split
    · next h => exact absurd h hret
    · exact (Posted.idle hb hw hwire rfl rfl).reserved f
    · exact (Posted.idle hb hw hwire rfl rfl).reserved f

/-- A successful flush empties the buffer. -/
theorem sendBufData_ok (h : (sendBufData k e).ok = true) :
    (sendBufData k e).ep.sendBuf = SendBuf.empty ∧ (sendBufData k e).ep.fd = e.fd := by
  unfold sendBufData at h ⊢
  dsimp only at h ⊢
  split at h
  · exact ⟨rfl, rfl⟩
  · exact absurd h (by simp)
  · exact absurd h (by simp [shut])

/-- The ledger of the receiver gets the frame, whatever becomes of it. -/
theorem sendOneData_posted (hk : k.Whole) (hb : Ledger.Books k.wire own led)
    (hc : e.fd ≠ sockClosed → ∀ c, k.conns e.fd = some c → own c = key)
    (hw : (led key).waiting.flatten = e.sendBuf.val) (f : Packet) :
    Posted own led key [f.val] (sendOneData k e f) := by
  unfold sendOneData
  dsimp only
  split
  · exact (Posted.idle hb hw rfl rfl rfl).reserved f
  · next hfd =>
    have hc := hc hfd
    split
    · next he => exact sendNow_posted hk hb hc hw he f
    · have hflush := sendBufData_posted hk hb hc hw
      split
      · next hok =>
        obtain ⟨l, hb', hf, hd, hw'⟩ := hflush
        obtain ⟨hempty, hsame⟩ := sendBufData_ok hok
        have hlater := later_sendBufData k e
        have hc' : ∀ c, (sendBufData k e).kernel.conns (sendBufData k e).ep.fd = some c →
            own c = key := by
          rw [hsame]
          exact fun c h => hc c (hlater.conns _ c h)
        obtain ⟨l', hb'', hf', hd', hw''⟩ := sendNow_posted (hlater.whole hk) hb' hc'
          (by rw [Function.update_self, hw']) (by rw [hempty]; rfl) f
        rw [Function.update_idem] at hb''
        rw [Function.update_self] at hf' hd'
        exact ⟨l', hb'', by rw [hf', hf, List.append_nil], 
          by rw [hd', hd, sendBufData_dropped, List.append_nil],
          hw''⟩
      · exact hflush.reserved f

end Ledgers

/-! ## A connection that stays open -/

section Steady

variable {k : Kernel} {e : Endpoint} {c : Nat}

/-- The calls keep the connection `c` behind `fd` open, leave the other wires alone, and add the
bytes `new` behind what was on the wire and in the buffer. -/
structure Carried (k : Kernel) (e : Endpoint) (c : Nat) (new : List UInt8) (s : Sent) : Prop where
  conns : s.kernel.conns = k.conns
  answer : s.kernel.answer = k.answer
  fd : s.ep.fd = e.fd
  recvBuf : s.ep.recvBuf = e.recvBuf
  others : ∀ d, d ≠ c → s.kernel.wire d = k.wire d
  grows : k.wire c <+: s.kernel.wire c
  bytes : s.dropped = [] → s.kernel.wire c ++ s.ep.sendBuf.val = k.wire c ++ e.sendBuf.val ++ new

theorem Carried.reserved {s : Sent} {f : Packet} (h : Carried k e c [] s) :
    Carried k e c f.val (s.reserved f) := by
  refine ⟨h.conns, h.answer, h.fd, h.recvBuf, h.others, h.grows, ?_⟩
  intro hd
  obtain ⟨hd, hno⟩ := List.append_eq_nil_iff.mp hd
  have hb := h.bytes hd
  rw [List.append_nil] at hb
  have hkeep : ¬ overflows s.ep.sendBuf f := by
    intro ho
    rw [if_pos ho] at hno
    have hf := f.property
    have hlong : sendBufLen < s.ep.sendBuf.val.length + f.val.length := ho
    have hs : sendBufLen = centerBufLen * 100 := rfl
    rw [hno, List.length_nil] at hlong
    omega
  simp only [Sent.reserved, reserveData, reserve, hkeep, dif_neg, not_false_iff]
  rw [← List.append_assoc, hb]

theorem sendBufData_carried (hk : k.Steady) (hc : k.conns e.fd = some c) :
    Carried k e c [] (sendBufData k e) := by
  unfold sendBufData
  dsimp only
  obtain ⟨hr, hker⟩ | ⟨hr, hker⟩ := send_steady hk hc e.sendBuf.val
  · rw [hr, hker]
    exact ⟨rfl, rfl, rfl, rfl, fun d hd => put_wire_of_ne hd _, by simp,
      fun _ => by simp [SendBuf.empty]⟩
  · rw [hr, hker]
    exact ⟨rfl, rfl, rfl, rfl, fun d hd => put_wire_of_ne hd _, by simp, fun _ => by simp⟩

theorem sendNow_carried (hk : k.Steady) (hc : k.conns e.fd = some c) (he : e.sendBuf.val = [])
    (f : Packet) : Carried k e c f.val (sendNow k e f) := by
  unfold sendNow
  dsimp only
  obtain ⟨hr, hker⟩ | ⟨hr, hker⟩ := send_steady hk hc f.val
  · rw [hr, hker]
    exact ⟨rfl, rfl, rfl, rfl, fun d hd => put_wire_of_ne hd _, by simp, fun _ => by simp [he]⟩
  · rw [hr, hker]
    apply Carried.reserved
    exact ⟨rfl, rfl, rfl, rfl, fun d hd => put_wire_of_ne hd _, by simp, fun _ => by simp⟩

/-- On a steady connection a frame is sent or waits. -/
theorem sendOneData_carried (hk : k.Steady) (hfd : e.fd ≠ sockClosed)
    (hc : k.conns e.fd = some c) (f : Packet) :
    Carried k e c f.val (sendOneData k e f) := by
  have hflush := sendBufData_carried hk hc
  unfold sendOneData
  dsimp only
  rw [if_neg hfd]
  split
  · next he => exact sendNow_carried hk hc he f
  · split
    · next hok =>
      obtain ⟨hempty, -⟩ := sendBufData_ok hok
      have hk' : (sendBufData k e).kernel.Steady := by
        intro i
        rw [hflush.answer]
        exact hk i
      have hsend := sendNow_carried hk' (by rw [hflush.conns, hflush.fd]; exact hc)
        (by rw [hempty]; rfl) f
      refine ⟨hsend.conns.trans hflush.conns, hsend.answer.trans hflush.answer,
        hsend.fd.trans hflush.fd, hsend.recvBuf.trans hflush.recvBuf,
        fun d hd => (hsend.others d hd).trans (hflush.others d hd),
        hflush.grows.trans hsend.grows, ?_⟩
      intro hd
      rw [hsend.bytes hd, hflush.bytes (sendBufData_dropped k e), List.append_nil]
    · exact hflush.reserved

end Steady

/-! ## Where the bytes of a connection come from -/

section Drawn

variable {k : Kernel} {e : Endpoint} {c : Nat}

/-- What is sent on `c` and what waits for it comes, in order, from what was there before and
from `new`. -/
structure Drawn (k : Kernel) (e : Endpoint) (c : Nat) (new : List UInt8) (s : Sent) : Prop where
  mine : ∀ given : List UInt8, (k.wire c ++ e.sendBuf.val).Sublist given →
    (s.kernel.wire c ++ s.ep.sendBuf.val).Sublist (given ++ new)
  others : ∀ d, d ≠ c → s.kernel.wire d = k.wire d
  recvBuf : s.ep.recvBuf = e.recvBuf ∨ s.ep.recvBuf = []

theorem Drawn.reserved {s : Sent} {f : Packet} (h : Drawn k e c [] s) :
    Drawn k e c f.val (s.reserved f) where
  mine given hg := by
    have hold := h.mine given hg
    rw [List.append_nil] at hold
    by_cases ho : overflows s.ep.sendBuf f
    · simp only [Sent.reserved, reserveData, reserve, dif_pos ho]
      exact (List.sublist_append_left _ _ |>.trans hold).append (List.Sublist.refl f.val)
    · simp only [Sent.reserved, reserveData, reserve, dif_neg ho]
      rw [← List.append_assoc]
      exact hold.append (List.Sublist.refl f.val)
  others := h.others
  recvBuf := h.recvBuf

theorem Drawn.idle {s : Sent} (hwire : s.kernel.wire = k.wire) (hbuf : s.ep.sendBuf = e.sendBuf)
    (hrecv : s.ep.recvBuf = e.recvBuf ∨ s.ep.recvBuf = []) : Drawn k e c [] s where
  mine given hg := by
    rw [hwire, hbuf, List.append_nil]
    exact hg
  others d _ := by rw [hwire]
  recvBuf := hrecv

theorem sendBufData_drawn (hc : ∀ d, k.conns e.fd = some d → d = c) :
    Drawn k e c [] (sendBufData k e) := by
  obtain ⟨out, hout, hfail, hwire⟩ := send_taken k hc e.sendBuf.val
  have hself : (k.send e.fd e.sendBuf.val).kernel.wire c = k.wire c ++ out := by
    rw [hwire, Function.update_self]
  have hsame : (k.send e.fd e.sendBuf.val).ret ≠ .sent →
      (k.send e.fd e.sendBuf.val).kernel.wire = k.wire := by
    intro hret
    rw [hwire, hfail hret, List.append_nil, Function.update_eq_self]
  simp only [sendBufData]
  split
  · refine ⟨fun given hg => ?_, fun d hd => ?_, .inl rfl⟩
    · rw [hself, List.append_nil]
      have hnil : (k.wire c ++ out ++ []).Sublist (k.wire c ++ e.sendBuf.val) := by
        rw [List.append_nil]
        exact (List.Sublist.refl _).append hout
      exact hnil.trans hg
    · rw [hwire, Function.update_of_ne hd]
  · next hret => exact Drawn.idle (hsame (by rw [hret]; decide)) rfl (.inl rfl)
  · next hret => exact Drawn.idle (hsame (by rw [hret]; decide)) rfl (.inr rfl)

theorem sendNow_drawn (hc : ∀ d, k.conns e.fd = some d → d = c) (he : e.sendBuf.val = [])
    (f : Packet) : Drawn k e c f.val (sendNow k e f) := by
  obtain ⟨out, hout, hfail, hwire⟩ := send_taken k hc f.val
  have hsame : (k.send e.fd f.val).ret ≠ .sent → (k.send e.fd f.val).kernel.wire = k.wire := by
    intro hret
    rw [hwire, hfail hret, List.append_nil, Function.update_eq_self]
  simp only [sendNow]
  split
  · refine ⟨fun given hg => ?_, fun d hd => ?_, .inl rfl⟩
    · rw [hwire, Function.update_self, he, List.append_nil]
      rw [he, List.append_nil] at hg
      exact hg.append hout
    · rw [hwire, Function.update_of_ne hd]
  · next hret =>
    apply Drawn.reserved
    exact Drawn.idle (hsame (by rw [hret]; decide)) rfl (.inl rfl)
  · next hret =>
    apply Drawn.reserved
    exact Drawn.idle (hsame (by rw [hret]; decide)) rfl (.inr rfl)

/-- What reaches a connection was given for it. -/
theorem sendOneData_drawn (hc : e.fd ≠ sockClosed → ∀ d, k.conns e.fd = some d → d = c)
    (f : Packet) : Drawn k e c f.val (sendOneData k e f) := by
  simp only [sendOneData]
  split
  · apply Drawn.reserved
    exact Drawn.idle rfl rfl (.inl rfl)
  · next hfd =>
    split
    · next he => exact sendNow_drawn (hc hfd) he f
    · have hflush := sendBufData_drawn (hc hfd)
      split
      · next hok =>
        obtain ⟨hempty, hsame⟩ := sendBufData_ok hok
        have hconn : ∀ d, (sendBufData k e).kernel.conns (sendBufData k e).ep.fd = some d →
            d = c := by
          rw [hsame]
          exact fun d hd => hc hfd d ((later_sendBufData k e).conns _ d hd)
        have hsend := sendNow_drawn hconn (by rw [hempty]; rfl) f
        refine ⟨fun given hg => ?_, fun d hd => (hsend.others d hd).trans (hflush.others d hd), ?_⟩
        · have hfirst := hflush.mine given hg
          rw [List.append_nil] at hfirst
          exact hsend.mine given hfirst
        · obtain h | h := hsend.recvBuf
          · rw [h]
            exact hflush.recvBuf
          · exact .inr h
      · exact hflush.reserved

end Drawn

end SendBuffer
