import Dsf4g.CenterMng

/-!
# Messages between servers

`core/server.cpp`: what `SendMessageToCenter` writes and what one pass of the loop of
`GetCenterMessage` reads. The length word and the head are stored as they lie in
memory; the last four bytes of `stCenterHead` are padding and travel with it.
-/
namespace Server

open Base SendBuffer

def maxPbLen : Nat := maxBufLen - 4

def routeValue : RouteType → Nat
  | .p2p => 1
  | .hash => 2
  | .broadcast => 4
  | .other n => n

/-- A head whose members have the widths of `stCenterHead`. -/
structure HeadFits (h : CenterHead) : Prop where
  srcType : h.srcType < 2 ^ 32
  srcId : h.srcId < 2 ^ 32
  desType : h.desType < 2 ^ 32
  desId : h.desId < 2 ^ 32
  sessionId : h.sessionId < 2 ^ 32
  route : routeValue h.routeType < 2 ^ 32
  named : RouteType.ofNat (routeValue h.routeType) = h.routeType
  hashKey : h.hashKey < 2 ^ 64
  centerIndex : h.centerIndex < 2 ^ 32

def headBytes (h : CenterHead) (pad : List UInt8) : List UInt8 :=
  Bytes.le 4 h.srcType ++ (Bytes.le 4 h.srcId ++ (Bytes.le 4 h.desType ++ (Bytes.le 4 h.desId ++
    (Bytes.le 4 h.sessionId ++ (Bytes.le 4 (routeValue h.routeType) ++ (Bytes.le 8 h.hashKey ++
      (Bytes.le 4 h.centerIndex ++ pad)))))))

structure Message where
  head : CenterHead
  fits : HeadFits head
  pad : List UInt8
  pad_length : pad.length = 4
  pb : List UInt8
  pb_pos : 1 ≤ pb.length
  pb_le : pb.length ≤ maxPbLen

def Message.frame (m : Message) : List UInt8 :=
  Bytes.le 4 (4 + centerHeadLen + m.pb.length) ++ (headBytes m.head m.pad ++ m.pb)

@[simp] theorem headBytes_length (h : CenterHead) (pad : List UInt8) :
    (headBytes h pad).length = 36 + pad.length := by
  simp [headBytes]
  omega

theorem Message.frame_length (m : Message) : m.frame.length = 44 + m.pb.length := by
  simp [Message.frame, m.pad_length]
  omega

theorem Message.frame_le (m : Message) : m.frame.length ≤ centerBufLen := by
  have hpb := m.pb_le
  have hb : maxPbLen = 4092 := rfl
  have hc : centerBufLen = 4136 := rfl
  rw [m.frame_length]
  omega

def Message.packet (m : Message) : Packet := ⟨m.frame, m.frame_le⟩

def Message.via (m : Message) (i : Nat) (hi : i < 2 ^ 32) : Message :=
  { m with head := { m.head with centerIndex := i }, fits := { m.fits with centerIndex := hi } }

/-- `_center_num`, at most `MAX_CENTER_NUM`, the managers, and the static `send_count`. -/
structure Centers where
  mngs : List CenterMng.Mng
  pos : 1 ≤ mngs.length
  le : mngs.length ≤ 16
  sendCount : Nat

/-- The index a message is given when the caller leaves it open, and the next `send_count`. -/
def routeCenter (centerNum sendCount : Nat) (h : CenterHead) : Option Nat × Nat :=
  match h.routeType with
  | .hash => (some (h.hashKey % centerNum), sendCount)
  | .p2p | .broadcast => (some (sendCount % centerNum), (sendCount + 1) % 2 ^ 32)
  | .other _ => (none, sendCount)

/-- The index used, when there is one. `asked` is the parameter `center_index`; a negative one
other than `-1` compares as a large unsigned number. -/
def chooseCenter (centerNum sendCount : Nat) (h : CenterHead) (asked : Int) : Option Nat × Nat :=
  let r := if asked = -1 then routeCenter centerNum sendCount h
    else (if 0 ≤ asked then some asked.toNat else none, sendCount)
  (r.1.filter fun i => i < centerNum, r.2)

def Centers.num (c : Centers) : Nat := c.mngs.length

def Centers.put (c : Centers) (i : Nat) (m : Message) (sendCount : Nat) : Centers where
  mngs := c.mngs.modify i fun mng => CenterMng.sendOneData mng m.packet
  pos := by rw [List.length_modify]; exact c.pos
  le := by rw [List.length_modify]; exact c.le
  sendCount := sendCount

/-- `SendMessageToCenter`, with the message as it was sent, when it was. -/
def sendMessageToCenter (c : Centers) (m : Message) (asked : Int) : Centers × Option Message :=
  match chooseCenter c.num c.sendCount m.head asked with
  | (none, n) => ({ c with sendCount := n }, none)
  | (some i, n) =>
    if hi : i < 2 ^ 32 then (c.put i (m.via i hi) n, some (m.via i hi))
    else ({ c with sendCount := n }, none)

/-- The body of the loop of `GetCenterMessage` on a frame in `_center_buf`: the arguments of
`PostMessage`, or nothing for a frame without a message. -/
def centerPost (buf : List UInt8) : Option (CenterHead × List UInt8) :=
  let len := Bytes.ofLe (buf.take 4)
  if len ≤ 4 + centerHeadLen then none
  else some (readCenterHead buf 4, (buf.drop (4 + centerHeadLen)).take (len - 4 - centerHeadLen))

def copyIn (buf bs : List UInt8) : List UInt8 := bs ++ buf.drop bs.length

/-! ## Reading back what was written -/

/-- A field behind `a` is the first of what stands behind `a`. -/
theorem field_eq {bs xs rest : List UInt8} {a w : Nat} (h : bs.drop a = xs ++ rest)
    (hw : xs.length = w) : (bs.drop a).take w = xs ∧ bs.drop (a + w) = rest := by
  subst hw
  rw [← List.drop_drop, h]
  simp

/-- A head is read back from its bytes. -/
theorem readCenterHead_headBytes {h : CenterHead} (hf : HeadFits h) {bs pad rest : List UInt8}
    {a : Nat} (hb : bs.drop a = headBytes h pad ++ rest) : readCenterHead bs a = h := by
  simp only [headBytes, List.append_assoc] at hb
  obtain ⟨h₁, hb⟩ := field_eq hb (Bytes.le_length 4 _)
  obtain ⟨h₂, hb⟩ := field_eq hb (Bytes.le_length 4 _)
  obtain ⟨h₃, hb⟩ := field_eq hb (Bytes.le_length 4 _)
  obtain ⟨h₄, hb⟩ := field_eq hb (Bytes.le_length 4 _)
  obtain ⟨h₅, hb⟩ := field_eq hb (Bytes.le_length 4 _)
  obtain ⟨h₆, hb⟩ := field_eq hb (Bytes.le_length 4 _)
  obtain ⟨h₇, hb⟩ := field_eq hb (Bytes.le_length 8 _)
  obtain ⟨h₈, -⟩ := field_eq hb (Bytes.le_length 4 _)
  simp only [Nat.add_assoc, Nat.reduceAdd] at h₂ h₃ h₄ h₅ h₆ h₇ h₈
  unfold readCenterHead
  rw [h₁, h₂, h₃, h₄, h₅, h₆, h₇, h₈, Bytes.ofLe_le_of_lt hf.srcType,
    Bytes.ofLe_le_of_lt hf.srcId, Bytes.ofLe_le_of_lt hf.desType, Bytes.ofLe_le_of_lt hf.desId,
    Bytes.ofLe_le_of_lt hf.sessionId, Bytes.ofLe_le_of_lt hf.route, hf.named,
    Bytes.ofLe_le_of_lt hf.hashKey, Bytes.ofLe_le_of_lt hf.centerIndex]

/-- The first word of a frame is its length, itself included. -/
theorem Message.frame_word (m : Message) : m.frame.take 4 = Bytes.le 4 m.frame.length := by
  rw [m.frame_length]
  unfold Message.frame
  rw [List.take_left' (Bytes.le_length 4 _)]
  rfl

theorem Message.frame_len (m : Message) : Bytes.ofLe (m.frame.take 4) = m.frame.length := by
  have hle := m.frame_le
  have hc : centerBufLen = 4136 := rfl
  rw [m.frame_word, Bytes.ofLe_le_of_lt (by omega)]

/-- The head of a frame is that of its message. -/
theorem Message.frame_head (m : Message) : readCenterHead m.frame 4 = m.head := by
  have hdrop : m.frame.drop 4 = headBytes m.head m.pad ++ m.pb := by
    unfold Message.frame
    rw [List.drop_left' (Bytes.le_length 4 _)]
  exact readCenterHead_headBytes m.fits hdrop

/-- What is posted for a frame is the message it was built from. -/
theorem centerPost_frame (m : Message) : centerPost m.frame = some (m.head, m.pb) := by
  have hpos := m.pb_pos
  have hlen := m.frame_length
  have hdrop : m.frame.drop (4 + centerHeadLen) = m.pb := by
    unfold Message.frame
    rw [← List.append_assoc]
    exact List.drop_left' (by simp [m.pad_length, centerHeadLen])
  unfold centerPost
  rw [m.frame_len, m.frame_head, hdrop]
  dsimp only
  rw [if_neg (by rw [hlen, centerHeadLen]; omega), List.take_of_length_le
    (by rw [hlen, centerHeadLen]; omega)]

/-! ## A buffer that is written again and again -/

/-- Cells of the copied bytes are read from them. -/
theorem copyIn_window (buf : List UInt8) {bs : List UInt8} {a w : Nat} (h : a + w ≤ bs.length) :
    ((copyIn buf bs).drop a).take w = (bs.drop a).take w := by
  unfold copyIn
  rw [List.drop_append_of_le_length (by omega), List.take_append_of_le_length
    (by rw [List.length_drop]; omega)]

theorem copyIn_length {buf bs : List UInt8} (h : bs.length ≤ buf.length) :
    (copyIn buf bs).length = buf.length := by
  rw [copyIn, List.length_append, List.length_drop]
  omega

/-- A frame that has a length word is read as if it were alone in the buffer. -/
theorem centerPost_copyIn (buf : List UInt8) {f : List UInt8} (h : 4 ≤ f.length)
    (hword : Bytes.ofLe (f.take 4) = f.length) : centerPost (copyIn buf f) = centerPost f := by
  have htake : (copyIn buf f).take 4 = f.take 4 := copyIn_window buf (a := 0) (by omega)
  simp only [centerPost, htake, hword]
  by_cases hlen : f.length ≤ 4 + centerHeadLen
  · rw [if_pos hlen, if_pos hlen]
  · have hc : centerHeadLen = 40 := rfl
    have hw : ∀ a w, a + w ≤ 44 → ((copyIn buf f).drop a).take w = (f.drop a).take w :=
      fun a w haw => copyIn_window buf (by omega)
    have hhead : readCenterHead (copyIn buf f) 4 = readCenterHead f 4 := by
      simp only [readCenterHead, Nat.reduceAdd]
      rw [hw 4 4 (by omega), hw 8 4 (by omega), hw 12 4 (by omega), hw 16 4 (by omega),
        hw 20 4 (by omega), hw 24 4 (by omega), hw 28 8 (by omega), hw 36 4 (by omega)]
    rw [if_neg hlen, if_neg hlen, hhead, copyIn_window buf (by omega)]

/-- A frame shorter than a length word is no message. -/
theorem centerPost_short {f : List UInt8} (h : f.length < 4)
    (hword : Bytes.ofLe (f.take 4) ≤ f.length) : centerPost f = none := by
  simp only [centerPost]
  rw [if_pos (by omega)]

/-! ## A stream of frames -/

def stream (ms : List Message) : List UInt8 := ms.flatMap Message.frame

@[simp] theorem stream_nil : stream [] = [] := rfl
@[simp] theorem stream_cons (m : Message) (ms : List Message) :
    stream (m :: ms) = m.frame ++ stream ms := by simp [stream]
@[simp] theorem stream_append (ms ms' : List Message) :
    stream (ms ++ ms') = stream ms ++ stream ms' := by simp [stream]

/-! ## Cutting a frame off a part of the stream -/

/-- The first word of a part of the stream is the length of the first frame. -/
theorem head_word {bs : List UInt8} {m : Message} {ms : List Message}
    (h : bs <+: stream (m :: ms)) (hlen : 4 < bs.length) :
    Bytes.ofLe (bs.take 4) = m.frame.length := by
  have hframe := m.frame_length
  obtain ⟨rest, hr⟩ := h
  have htake : bs.take 4 = m.frame.take 4 := by
    have hbs : (bs ++ rest).take 4 = bs.take 4 :=
      List.take_append_of_le_length (Nat.le_of_lt hlen)
    rw [← hbs, hr, stream_cons, List.take_append_of_le_length (by omega)]
  rw [htake, m.frame_len]

theorem head_frame {bs : List UInt8} {m : Message} {ms : List Message}
    (h : bs <+: stream (m :: ms)) (hlen : m.frame.length ≤ bs.length) :
    ∃ rest, bs = m.frame ++ rest ∧ rest <+: stream ms := by
  rw [stream_cons] at h
  obtain ⟨rest, rfl⟩ := List.prefix_of_prefix_length_le (List.prefix_append _ _) h hlen
  exact ⟨rest, rfl, (List.prefix_append_right_inj _).mp h⟩

/-- A part of the stream with more than a word in it begins a message. -/
theorem head_exists {bs : List UInt8} {ms : List Message} (h : bs <+: stream ms)
    (hlen : 4 < bs.length) : ∃ m rest, ms = m :: rest := by
  cases ms with
  | nil =>
    rw [stream_nil, List.prefix_nil] at h
    rw [h] at hlen
    cases hlen
  | cons m rest => exact ⟨m, rest, rfl⟩

def withBuf (m : CenterMng.Mng) (bs : List UInt8) : CenterMng.Mng :=
  { m with ep := { m.ep with recvBuf := bs } }

/-- `GetOneData` takes a frame whose first word is its length out of the buffer. -/
theorem getOneData_behind {m : CenterMng.Mng} {f left : List UInt8} {n : Nat}
    (h : m.ep.recvBuf = f ++ left) (hlen : 4 < f.length) (hle : f.length ≤ n)
    (hword : Bytes.ofLe (f.take 4) = f.length) :
    CenterMng.getOneData m n = ⟨withBuf m left, some f⟩ := by
  have hfirst : Bytes.ofLe (m.ep.recvBuf.take 4) = f.length := by
    rw [h, List.take_append_of_le_length (by omega), hword]
  have hbuf : m.ep.recvBuf.length = f.length + left.length := by
    rw [h, List.length_append]
  simp only [CenterMng.getOneData]
  rw [if_neg (by omega), hfirst, if_neg (by omega), if_neg (by omega), h, List.drop_left' rfl,
    List.take_left' rfl]
  rfl

/-- A complete frame is taken off the front. -/
theorem getOneData_complete {m : CenterMng.Mng} {x : Message} {left : List UInt8}
    (h : m.ep.recvBuf = x.frame ++ left) :
    CenterMng.getOneData m centerBufLen = ⟨withBuf m left, some x.frame⟩ := by
  have hlen := x.frame_length
  exact getOneData_behind h (by omega) x.frame_le x.frame_len

/-- As long as the oldest frame is not complete, `GetOneData` takes nothing. -/
theorem getOneData_pending {m : CenterMng.Mng}
    (h : m.ep.recvBuf.length ≤ 4 ∨ m.ep.recvBuf.length < Bytes.ofLe (m.ep.recvBuf.take 4))
    (n : Nat) : CenterMng.getOneData m n = ⟨m, none⟩ := by
  simp only [CenterMng.getOneData]
  split
  · rfl
  · next hlen => rw [if_pos (h.resolve_left hlen)]

/-- What `GetOneData` copies out fits into the buffer, and its first word is its length, as far as it
has one. -/
theorem getOneData_word {m : CenterMng.Mng} {n : Nat} {f : List UInt8}
    (h : (CenterMng.getOneData m n).data = some f) :
    f.length ≤ n ∧ (4 ≤ f.length → Bytes.ofLe (f.take 4) = f.length) ∧
      Bytes.ofLe (f.take 4) ≤ f.length := by
  simp only [CenterMng.getOneData] at h
  split at h
  · cases h
  · split at h
    · cases h
    · next hle =>
      split at h
      · cases h
      · next hn =>
        cases h
        generalize hlen : Bytes.ofLe (m.ep.recvBuf.take 4) = len at hle hn
        rw [List.length_take_of_le (by omega)]
        refine ⟨by omega, fun h4 => ?_, ?_⟩
        · rw [List.take_take, Nat.min_eq_left h4, hlen]
        · rw [List.take_take, Nat.min_comm, ← List.take_take]
          exact Nat.le_trans (Bytes.ofLe_take_le _ _) (Nat.le_of_eq hlen)

/-- On a part of the stream, `GetOneData` finds the oldest frame, or nothing. -/
theorem getOneData_frame {m : CenterMng.Mng} {ms : List Message}
    (h : m.ep.recvBuf <+: stream ms) :
    CenterMng.getOneData m centerBufLen = ⟨m, none⟩ ∨
    ∃ x rest left, ms = x :: rest ∧ m.ep.recvBuf = x.frame ++ left ∧
      CenterMng.getOneData m centerBufLen = ⟨withBuf m left, some x.frame⟩ := by
  by_cases hshort : m.ep.recvBuf.length ≤ 4
  · exact .inl (getOneData_pending (.inl hshort) centerBufLen)
  · obtain ⟨x, rest, rfl⟩ := head_exists h (by omega)
    have hword := head_word h (by omega)
    by_cases hpart : m.ep.recvBuf.length < x.frame.length
    · exact .inl (getOneData_pending (.inr (hword.symm ▸ hpart)) centerBufLen)
    · obtain ⟨left, hleft, -⟩ := head_frame h (by omega)
      exact .inr ⟨x, rest, left, rfl, hleft, getOneData_complete hleft⟩

/-- `RecvData` stores what `recv` returns when there is room for it. -/
theorem recvData_fits {m : CenterMng.Mng} {bytes : List UInt8} (hne : bytes ≠ [])
    (hfit : bytes.length ≤ recvBufLen - m.ep.recvBuf.length) :
    CenterMng.recvData m [.data bytes] = withBuf m (m.ep.recvBuf ++ bytes) := by
  cases bytes with
  | nil => exact absurd rfl hne
  | cons b bs =>
    have hroom : m.ep.recvBuf.length ≠ recvBufLen := by
      intro hfull
      rw [hfull, Nat.sub_self, List.length_cons] at hfit
      omega
    simp only [CenterMng.recvData, if_neg hroom, List.take_of_length_le hfit]
    rfl

/-- A message from server 0 of type 8 to server 0 of type 7. -/
def request (pb : List UInt8) (h₁ : 1 ≤ pb.length) (h₂ : pb.length ≤ maxPbLen) : Message where
  head := ⟨8, 0, 7, 0, 21, .p2p, 0, 0⟩
  fits := by constructor <;> decide
  pad := [0, 0, 0, 0]
  pad_length := rfl
  pb := pb
  pb_pos := h₁
  pb_le := h₂

end Server
