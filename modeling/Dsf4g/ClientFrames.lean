import Mathlib.Data.List.TakeDrop
import Dsf4g.Lib.Framing
import Dsf4g.Lib.Sockets
import Dsf4g.Lib.Trace
import Dsf4g.TcpSvr

/-!
# What clients read

`TcpSvr::SendDataToClient` in `src/tcpsvr/tcpsvr.cpp`, down to the bytes that `send` takes
from a frame, on frames that `Server::SendMessageToClient` and `NotifyTcpLogicIndex` in
`core/server.cpp` have put into the `sc` pipe.
-/
namespace TcpSvr

open Base Sockets Framing

/-- The length word in front of a client's frame counts itself. -/
def WholeFrame (bs : List UInt8) : Prop := 4 ≤ bs.length ∧ Bytes.ofBe (bs.take 4) = bs.length

/-- A frame says where it ends. -/
theorem wholeFrame_delimited : Delimited WholeFrame := by
  constructor
  · rintro f ⟨h4, -⟩ rfl
    cases h4
  · rintro f g r r' ⟨hf, hfw⟩ ⟨hg, hgw⟩ h
    have hword : f.take 4 = g.take 4 := by
      have hfr : (f ++ r).take 4 = f.take 4 := List.take_append_of_le_length hf
      rw [← hfr, h, List.take_append_of_le_length hg]
    have hlen : f.length = g.length := by rw [← hfw, ← hgw, hword]
    exact (List.append_inj h hlen).1

/-- A frame of the `sc` pipe: its payload is an index, or what a client is to read. -/
abbrev ScFrame := { f : TcpFrame // f.head.msgType = logicIndexMsg ∨ WholeFrame f.payload }

/-- The length word of `SendMessageToClient` counts itself. -/
theorem lengthWord_whole {pb : List UInt8} (h : pb.length + 4 < 2 ^ 32) :
    WholeFrame (Bytes.be 4 (pb.length + 4) ++ pb) := by
  have hbe : (Bytes.be 4 (pb.length + 4)).length = 4 := by
    rw [Bytes.be, List.length_reverse, Bytes.le_length]
  constructor
  · rw [List.length_append, hbe]
    omega
  · rw [List.take_left' hbe, Bytes.ofBe_be_of_lt h, List.length_append, hbe, Nat.add_comm]

def scMessage (head : TcpHead) (pb : List UInt8) (h : pb.length + 4 < 2 ^ 32) : ScFrame :=
  ⟨⟨head, Bytes.be 4 (pb.length + 4) ++ pb, head.conn⟩, .inr (lengthWord_whole h)⟩

/-! ## Sending -/

structure Delivered where
  payload : List UInt8
  /-- What `send` has taken of it. -/
  written : List UInt8
  /-- `SocketRelease` was called. -/
  released : Bool
  deriving DecidableEq, Repr

/-- The gateway with the bytes that were taken on each connection, and the frames given to `send`. -/
structure Gate where
  svr : Svr
  wire : Conn → List UInt8
  delivered : List Delivered

def Gate.start (t : Svr) : Gate := ⟨t, fun _ => [], []⟩

/-- The loop around `send`: what was taken, and how it ends. It goes on while it is told to try
again. -/
def sendLoop (bs : List UInt8) : List SendAnswer → Option (List UInt8 × SendResult)
  | [] => none
  | .again :: as => sendLoop bs as
  | .fatal :: _ => some ([], .failed)
  | .all :: _ => some (bs, .sent)
  | .part n :: _ => some (bs.take n, .sent)

def reachesSend (t : Svr) (f : TcpFrame) : Bool :=
  f.head.socketPos < t.maxClientNum ∧ f.head.createTime = (t.pool f.head.socketPos).createTime ∧
    f.head.msgType ≠ logicIndexMsg

/-- A call of `SendDataToClient` that returns. -/
def sendFrame (g : Gate) (f : ScFrame) (as : List SendAnswer) : Option Gate :=
  if reachesSend g.svr f.val then
    let c := (g.svr.pool f.val.head.socketPos).conn
    (sendLoop f.val.payload as).map fun o =>
      { svr := sendDataToClient g.svr f.val o.2
        wire := Function.update g.wire c (g.wire c ++ o.1)
        delivered := g.delivered ++
          [⟨f.val.payload, o.1, o.2 == .failed || f.val.head.needClose⟩] }
  else some { g with svr := sendDataToClient g.svr f.val .sent }

structure Delivery where
  frame : ScFrame
  answers : List SendAnswer

def deliver (g : Gate) (e : Delivery) : Option Gate := sendFrame g e.frame e.answers

def Sends (g : Gate) (e : Delivery) (g' : Gate) : Prop := deliver g e = some g'

/-! ## Whole frames -/

/-- Every frame was written whole or its connection released, and what each client has read is
frames. -/
structure Served (g : Gate) : Prop where
  delivered : ∀ x ∈ g.delivered, x.written = x.payload ∨ x.released = true
  wires : ∀ c, Items WholeFrame (g.wire c)

/-- The result of `send` that ends the loop is not a short count, unless nothing is taken of a frame
behind which the connection is closed. -/
def Uncut (g : Gate) (e : Delivery) : Prop :=
  reachesSend g.svr e.frame.val = true →
    ∀ n, e.answers.find? (· ≠ .again) = some (.part n) →
      e.frame.val.payload.length ≤ n ∨ (n = 0 ∧ e.frame.val.head.needClose = true)

/-- The loop ends with the first result that does not tell it to try again. -/
theorem sendLoop_eq_some {bs : List UInt8} {as : List SendAnswer} {o : List UInt8 × SendResult}
    (h : sendLoop bs as = some o) :
    (as.find? (· ≠ .again) = some .all ∧ o = (bs, .sent)) ∨
    (as.find? (· ≠ .again) = some .fatal ∧ o = ([], .failed)) ∨
    ∃ n, as.find? (· ≠ .again) = some (.part n) ∧ o = (bs.take n, .sent) := by
  induction as with
  | nil => cases h
  | cons a as ih =>
    cases a with
    | all =>
      cases h
      exact .inl ⟨rfl, rfl⟩
    | part n =>
      cases h
      exact .inr (.inr ⟨n, rfl, rfl⟩)
    | again => exact ih h
    | fatal =>
      cases h
      exact .inr (.inl ⟨rfl, rfl⟩)

/-- The recorded release is one. -/
theorem sendDataToClient_released {t : Svr} {f : TcpFrame} {r : SendResult}
    (hs : reachesSend t f = true) :
    sendDataToClient t f r =
      if r == .failed || f.head.needClose then
        socketRelease t (t.pool f.head.socketPos).socketPos (r == .failed)
      else t := by
  obtain ⟨hpos, htime, hmsg⟩ := of_decide_eq_true hs
  simp only [sendDataToClient]
  rw [if_neg (Nat.not_le.mpr hpos), if_neg (not_not_intro htime), if_neg hmsg]
  cases r with
  | failed => rfl
  | sent => cases f.head.needClose <;> rfl

/-- One frame more is written. -/
theorem served_snoc_iff {g : Gate} (h : Served g) (t : Svr) (c : Conn) (x : Delivered) :
    Served ⟨t, Function.update g.wire c (g.wire c ++ x.written), g.delivered ++ [x]⟩ ↔
      (x.written = x.payload ∨ x.released = true) ∧ Items WholeFrame (g.wire c ++ x.written) := by
  constructor
  · intro h'
    refine ⟨h'.delivered x (List.mem_append_right _ (List.mem_singleton_self x)), ?_⟩
    have hc := h'.wires c
    dsimp only at hc
    rw [Function.update_self] at hc
    exact hc
  · rintro ⟨hx, hw⟩
    constructor
    · intro y hy
      obtain hy | hy := List.mem_append.mp hy
      · exact h.delivered y hy
      · rw [List.mem_singleton.mp hy]
        exact hx
    · intro c'
      dsimp only
      by_cases hc : c' = c
      · subst hc
        rw [Function.update_self]
        exact hw
      · rw [Function.update_of_ne hc]
        exact h.wires c'

/-- A frame serves its client exactly when it is not cut. -/
theorem sends_served_iff {g g' : Gate} {e : Delivery} (h : Served g) (hs : Sends g e g') :
    Served g' ↔ Uncut g e := by
  obtain ⟨f, as⟩ := e
  simp only [Sends, deliver, sendFrame] at hs
  by_cases hr : reachesSend g.svr f.val = true
  · rw [if_pos hr] at hs
    obtain ⟨o, ho, rfl⟩ := Option.map_eq_some_iff.mp hs
    have hmsg : f.val.head.msgType ≠ logicIndexMsg := (of_decide_eq_true hr).2.2
    have hwhole : WholeFrame f.val.payload := f.property.resolve_left hmsg
    have hwire := h.wires (g.svr.pool f.val.head.socketPos).conn
    refine (served_snoc_iff h _ _
      ⟨f.val.payload, o.1, o.2 == .failed || f.val.head.needClose⟩).trans ?_
    simp only [Uncut, hr, true_implies]
    obtain ⟨hfind, rfl⟩ | ⟨hfind, rfl⟩ | ⟨n, hfind, rfl⟩ := sendLoop_eq_some ho
    · refine iff_of_true ⟨.inl rfl, hwire.append_item hwhole⟩ fun n hn => ?_
      rw [hfind] at hn
      cases hn
    · refine iff_of_true ⟨.inr rfl, ?_⟩ fun n hn => ?_
      · rw [List.append_nil]
        exact hwire
      · rw [hfind] at hn
        cases hn
    · have hcond : (∀ m, as.find? (· ≠ .again) = some (.part m) →
          f.val.payload.length ≤ m ∨ (m = 0 ∧ f.val.head.needClose = true)) ↔
          f.val.payload.length ≤ n ∨ (n = 0 ∧ f.val.head.needClose = true) := by
        constructor
        · exact fun hm => hm n hfind
        · intro hn m hm
          rw [hfind] at hm
          cases hm
          exact hn
      have hreleased : (SendResult.sent == .failed || f.val.head.needClose) =
          f.val.head.needClose := rfl
      rw [hcond, hreleased, hwire.take_iff wholeFrame_delimited hwhole, List.take_eq_self_iff,
        or_and_left]
      exact and_comm
  · rw [if_neg hr] at hs
    cases hs
    exact iff_of_true ⟨h.delivered, h.wires⟩ fun hr' => absurd hr' hr

/-- Clients are served in exactly the runs of frames of which none is cut. -/
theorem run_served_iff (t : Svr) (es : List Delivery) (g : Gate) :
    (Trace.Run Sends (fun g _ => Served g) (Gate.start t) es g ∧ Served g) ↔
      Trace.Run Sends Uncut (Gate.start t) es g :=
  Trace.Run.always_iff (fun _ _ _ h hs => sends_served_iff h hs)
    ⟨(fun _ hx => nomatch hx), fun _ => Items.nil⟩

/-! ## A short count -/

def oneClient : Svr :=
  acceptConnect (initNetwork 2 (fun _ => 0) ⟨100, []⟩ ⟨100, []⟩) (.ok 5 1000 80 default)

def greeting : ScFrame := scMessage ⟨1000, 1, 80, [], tcpNormal, false⟩ [7, 8, 9] (by decide)

/-- `send` takes five of the seven bytes, and the call returns. -/
theorem short_count_cuts :
    ∃ g, Trace.Run Sends (fun _ _ => True) (Gate.start oneClient) [⟨greeting, [.again, .part 5]⟩] g ∧
      g.wire ⟨1, 1000⟩ = [0, 0, 0, 7, 7] ∧ ¬ Served g := by
  refine ⟨_, .cons trivial rfl (.nil _), rfl, fun h => ?_⟩
  have hx := h.delivered ⟨[0, 0, 0, 7, 7, 8, 9], [0, 0, 0, 7, 7], false⟩ List.mem_cons_self
  revert hx
  decide

example : (deliver (Gate.start oneClient) ⟨greeting, [.again, .all]⟩).map (fun g => g.wire ⟨1, 1000⟩) =
    some [0, 0, 0, 7, 7, 8, 9] := by rfl

end TcpSvr
