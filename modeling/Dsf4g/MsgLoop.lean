import Dsf4g.Lib.Fifo
import Dsf4g.Server

/-!
# The loop of a logic server

`Server::Run` in `core/server.cpp`: what comes from the centers and from the `cs`
pipe is posted to the message pipe and dispatched from there. The loops are taken
one pass at a time; the handlers behind `OnClientMessage` and its siblings may
post internal messages and send to the centers as they like.
-/
namespace MsgLoop

open Base SendBuffer CenterMng

inductive Msg where
  | client (head : TcpHead) (pb : List UInt8)
  | server (head : CenterHead) (pb : List UInt8)
  | internal (pb : List UInt8)
  deriving DecidableEq, Repr

/-- The messages that `GetClientMessage` and `GetCenterMessage` post. -/
def Msg.isInput : Msg → Bool
  | .internal _ => false
  | _ => true

def msgSize : Nat := 4144

/-- A frame of the message pipe carries a whole `stMsg`, however short the message. -/
def Msg.cost (_ : Msg) : Nat := 4 + msgSize

/-- The ring `InitMsgPipe` leaves behind the pipe object: `MSG_PIPE_SIZE` messages and one byte. -/
def msgPipeSize : Nat := 2048 * msgSize + 1

inductive Pc where
  | top
  /-- The head of the loop over the centers in `GetCenterMessage`. -/
  | center (i count : Nat)
  /-- The loop over the frames of one center. -/
  | draining (i count : Nat)
  | clients (n : Nat)
  | dispatching (n : Nat)
  | routine
  deriving DecidableEq, Repr

/-- The server. A server without `cs` pipe is one whose pipe stays empty. `centerBuf` is
`_center_buf`, which is never cleared. `taken`, `posted` and `dispatched` record the well-formed
messages taken from the inputs, the successful calls of `PostMessage`, and the messages given to
handlers. -/
structure Loop where
  pc : Pc
  cs : Fifo (List UInt8)
  msgs : Fifo Msg
  centers : List Mng
  centerBuf : List UInt8
  taken : List Msg
  posted : List Msg
  dispatched : List Msg

def Loop.post (s : Loop) (m : Msg) : Option Loop :=
  (s.msgs.append Msg.cost m).map fun q => { s with msgs := q, posted := s.posted ++ [m] }

structure Effect where
  internal : List (List UInt8)
  sends : List (Nat × Packet)

/-- `SendMessageToInternal`; a failed post is the handler's affair. -/
def Loop.postInternal (s : Loop) (pb : List UInt8) : Loop := (s.post (.internal pb)).getD s

/-- `SendMessageToCenter` builds its frame in `_center_buf`. -/
def Loop.send (s : Loop) (i : Nat) (f : Packet) : Loop :=
  if i < s.centers.length then
    { s with
      centers := s.centers.modify i fun m => sendOneData m f
      centerBuf := Server.copyIn s.centerBuf f.val }
  else s

def Loop.handled (s : Loop) (h : Effect) : Loop :=
  h.sends.foldl (fun s c => s.send c.1 c.2) (h.internal.foldl Loop.postInternal s)

inductive ClientFrame where
  | ignored
  | offline (logicIndex : Nat)
  | message (head : TcpHead) (pb : List UInt8)
  deriving DecidableEq, Repr

def clientFrame (f : List UInt8) : ClientFrame :=
  if f.length ≤ tcpHeadLen + 4 then .ignored
  else
    let len := f.length - tcpHeadLen
    let head := readTcpHead (fun i => f.getD i 0) 0
    let body := f.drop tcpHeadLen
    if head.msgType = cliDiscon then
      if len ≠ 8 then .ignored else .offline (Bytes.ofLe body)
    else if len ≤ 4 then .ignored
    else if Bytes.ofBe (body.take 4) ≠ len then .ignored
    else .message head (body.drop 4)

/-- A message is posted for which `took` was taken from an input; the loop goes on at `ok`, or the
call ends. -/
def Loop.postInput (s : Loop) (took : Option Msg) (m : Msg) (ok failed : Pc) : Loop :=
  let s := { s with taken := s.taken ++ took.toList }
  match s.post m with
  | some s => { s with pc := ok }
  | none => { s with pc := failed }

def serverMsg (m : CenterHead × List UInt8) : Msg := .server m.1 m.2

/-- One pass of the loop over the frames of center `i`. The length and the head are read from
`_center_buf`, of which a frame shorter than them leaves the rest as it was. -/
def drain (s : Loop) (i count : Nat) : Loop :=
  match s.centers[i]? with
  | none => { s with pc := .center (i + 1) count }
  | some mng =>
    let g := getOneData mng centerBufLen
    let s := { s with centers := s.centers.set i g.mng }
    match g.data with
    | none => { s with pc := .center (i + 1) count }
    | some f =>
      let s := { s with centerBuf := Server.copyIn s.centerBuf f }
      match Server.centerPost s.centerBuf with
      | none => s
      | some m =>
        s.postInput ((Server.centerPost f).map serverMsg) (serverMsg m) (.draining i (count + 1))
          (.clients 0)

def getClient (s : Loop) (n : Nat) (h : Effect) : Loop :=
  if n < 1024 then
    match s.cs.get List.length tcpBufLen with
    | none => { s with pc := .dispatching 0 }
    | some (f, cs) =>
      let s := { s with cs := cs, pc := .clients (n + 1) }
      match clientFrame f with
      | .ignored => s
      | .offline _ => s.handled h
      | .message head pb =>
        s.postInput (some (.client head pb)) (.client head pb) (.clients (n + 1)) (.dispatching 0)
  else { s with pc := .dispatching 0 }

def dispatch (s : Loop) (n : Nat) (h : Effect) : Loop :=
  if n < 1024 then
    match s.msgs.get (fun _ => msgSize) msgSize with
    | none => { s with pc := .routine }
    | some (m, msgs) =>
      { s with msgs := msgs, dispatched := s.dispatched ++ [m], pc := .dispatching (n + 1) }.handled h
  else { s with pc := .routine }

/-- One pass of the loop `Run` stands in; `h` is what the handler called in it does. -/
def iterate (s : Loop) (h : Effect) : Option Loop :=
  match s.pc with
  | .top => none
  | .center i count =>
    some { s with pc := if i < s.centers.length ∧ count < 512 then .draining i count else .clients 0 }
  | .draining i count => some (drain s i count)
  | .clients n => some (getClient s n h)
  | .dispatching n => some (dispatch s n h)
  | .routine => some { s.handled h with pc := .top }

/-- `CheckCenterConn` for one center, when its second has passed and it has to connect. -/
def reconnect (m : Mng) : Option (ConnectResult × Bool) → Mng
  | none => m
  | some (c, registered) => checkConnect m c registered

def receive (m : Mng) : Option (List Sockets.RecvAnswer) → Mng
  | none => m
  | some rs => if m.ep.fd = sockClosed then m else recvData m rs

inductive Event where
  /-- Another process appends to the `cs` pipe. -/
  | arrive (f : List UInt8)
  /-- The top of the loop up to the calls of `recv`; with no descriptor ready `GetCenterMessage`
  returns. -/
  | poll (conns : Nat → Option (ConnectResult × Bool))
      (recvs : Option (Nat → Option (List Sockets.RecvAnswer)))
  | iterate (h : Effect)

def step (s : Loop) : Event → Option Loop
  | .arrive f => some { s with cs := (s.cs.append (fun f => 4 + f.length) f).getD s.cs }
  | .poll conns recvs =>
    match s.pc with
    | .top =>
      let centers := s.centers.mapIdx fun i m => reconnect m (conns i)
      match recvs with
      | none => some { s with centers := centers, pc := .clients 0 }
      | some rs =>
        some { s with centers := centers.mapIdx fun i m => receive m (rs i), pc := .center 0 0 }
    | _ => none
  | .iterate h => iterate s h

def Step (s : Loop) (e : Event) (s' : Loop) : Prop := step s e = some s'

/-- The message that the next pass gets from a client. -/
def clientMsg (s : Loop) (n : Nat) : Option Msg :=
  if n < 1024 then
    (s.cs.get List.length tcpBufLen).bind fun r =>
      match clientFrame r.1 with
      | .message head pb => some (.client head pb)
      | _ => none
  else none

/-- The frame that the next pass takes from center `i`. -/
def centerFrame (s : Loop) (i : Nat) : Option (List UInt8) :=
  (s.centers[i]?).bind fun mng => (getOneData mng centerBufLen).data

/-- The well-formed message that the next pass takes from an input. -/
def takes (s : Loop) : Option Msg :=
  match s.pc with
  | .draining i _ => ((centerFrame s i).bind Server.centerPost).map serverMsg
  | .clients n => clientMsg s n
  | _ => none

def posts (s : Loop) : Option Msg :=
  match s.pc with
  | .draining i _ =>
    ((centerFrame s i).bind fun f => Server.centerPost (Server.copyIn s.centerBuf f)).map serverMsg
  | .clients n => clientMsg s n
  | _ => none

def Spare (s : Loop) : Prop := (s.msgs.items.length + 1) * (4 + msgSize) ≤ s.msgs.size - 1

/-- There is room for a message that the pass takes from an input, and none for one that is still
in `_center_buf` when the pass takes a frame without a length word. -/
def Room (s : Loop) : Event → Prop
  | .iterate _ => ((takes s).isSome → Spare s) ∧ (takes s = none → (posts s).isSome → ¬ Spare s)
  | _ => True

def inputs (ms : List Msg) : List Msg := ms.filter Msg.isInput

/-- Every well-formed message taken from an input has been posted, once and in order, and what was
posted is dispatched, once and in order, or still queued. -/
def Lossless (s₀ s : Loop) : Prop :=
  inputs s.posted = s.taken ∧ s₀.msgs.items ++ s.posted = s.dispatched ++ s.msgs.items

structure Fresh (s : Loop) : Prop where
  pc : s.pc = .top
  size : s.msgs.size = msgPipeSize
  records : s.taken = [] ∧ s.posted = [] ∧ s.dispatched = []

/-! ## Posting -/

/-- Every message takes the same room in the pipe. -/
theorem occupancy_eq (q : Fifo Msg) : q.occupancy Msg.cost = q.items.length * (4 + msgSize) := by
  simp only [Fifo.occupancy]
  induction q.items with
  | nil => simp
  | cons m ms ih =>
    rw [List.map_cons, List.sum_cons, ih, List.length_cons, Nat.add_mul, Msg.cost]
    omega

/-- A message is posted exactly when there is room. -/
theorem post_cases (s : Loop) (m : Msg) :
    (Spare s ∧ s.post m = some { s with
      msgs := { s.msgs with items := s.msgs.items ++ [m] }, posted := s.posted ++ [m] }) ∨
    (¬ Spare s ∧ s.post m = none) := by
  have hroom : s.msgs.occupancy Msg.cost + Msg.cost m = (s.msgs.items.length + 1) * (4 + msgSize) := by
    rw [occupancy_eq, Nat.add_mul, Msg.cost, Nat.one_mul]
  by_cases h : Spare s
  · refine .inl ⟨h, ?_⟩
    rw [Spare] at h
    simp only [Loop.post, Fifo.append, hroom, if_pos h, Option.map_some]
  · refine .inr ⟨h, ?_⟩
    rw [Spare] at h
    simp only [Loop.post, Fifo.append, hroom, if_neg h, Option.map_none]

/-- A pass adds `new` to the message pipe, of which `ins` are input messages, after it took
`took` from the inputs. -/
structure Adds (s s' : Loop) (took new : List Msg) : Prop where
  size : s'.msgs.size = s.msgs.size
  taken : s'.taken = s.taken ++ took
  posted : s'.posted = s.posted ++ new
  queue : s'.dispatched ++ s'.msgs.items = s.dispatched ++ s.msgs.items ++ new

theorem Adds.refl (s : Loop) : Adds s s [] [] := by constructor <;> simp

/-- What two passes add, they add together. -/
theorem Adds.trans {s₁ s₂ s₃ : Loop} {took took' new new' : List Msg} (h : Adds s₁ s₂ took new)
    (h' : Adds s₂ s₃ took' new') : Adds s₁ s₃ (took ++ took') (new ++ new') where
  size := h'.size.trans h.size
  taken := by rw [h'.taken, h.taken, List.append_assoc]
  posted := by rw [h'.posted, h.posted, List.append_assoc]
  queue := by rw [h'.queue, h.queue, List.append_assoc]

/-- Only the message pipe and the records matter. -/
theorem Adds.congr {s s' s'' : Loop} {took new : List Msg} (h : Adds s s' took new)
    (hm : s''.msgs = s'.msgs) (ht : s''.taken = s'.taken) (hp : s''.posted = s'.posted)
    (hd : s''.dispatched = s'.dispatched) : Adds s s'' took new where
  size := by rw [hm, h.size]
  taken := ht.trans h.taken
  posted := hp.trans h.posted
  queue := by rw [hd, hm, h.queue]

theorem adds_of_same {s s' : Loop} (hm : s'.msgs = s.msgs) (ht : s'.taken = s.taken)
    (hp : s'.posted = s.posted) (hd : s'.dispatched = s.dispatched) : Adds s s' [] [] :=
  (Adds.refl s).congr hm ht hp hd

/-- Internal messages do not count as input. -/
theorem postInternal_adds (s : Loop) (pb : List UInt8) :
    ∃ new, inputs new = [] ∧ Adds s (s.postInternal pb) [] new := by
  obtain ⟨-, hp⟩ | ⟨-, hp⟩ := post_cases s (.internal pb)
  · refine ⟨[.internal pb], rfl, ?_⟩
    simp only [Loop.postInternal, hp, Option.getD_some]
    constructor <;> simp
  · refine ⟨[], rfl, ?_⟩
    simp only [Loop.postInternal, hp, Option.getD_none]
    exact Adds.refl s

theorem send_adds (s : Loop) (i : Nat) (f : Packet) : Adds s (s.send i f) [] [] := by
  unfold Loop.send
  split
  · exact adds_of_same rfl rfl rfl rfl
  · exact Adds.refl s

theorem foldl_adds {α : Type} {op : Loop → α → Loop}
    (hop : ∀ s a, ∃ new, inputs new = [] ∧ Adds s (op s a) [] new) (as : List α) (s : Loop) :
    ∃ new, inputs new = [] ∧ Adds s (as.foldl op s) [] new := by
  induction as generalizing s with
  | nil => exact ⟨[], rfl, Adds.refl s⟩
  | cons a as ih =>
    obtain ⟨new, hn, ha⟩ := hop s a
    obtain ⟨new', hn', ha'⟩ := ih (op s a)
    refine ⟨new ++ new', ?_, ha.trans ha'⟩
    rw [inputs, List.filter_append] at *
    rw [hn, hn', List.append_nil]

/-- A handler takes nothing from the inputs and posts no input message. -/
theorem handled_adds (s : Loop) (h : Effect) :
    ∃ new, inputs new = [] ∧ Adds s (s.handled h) [] new := by
  obtain ⟨new, hn, ha⟩ := foldl_adds postInternal_adds h.internal s
  obtain ⟨new', hn', ha'⟩ := @foldl_adds _ (fun s c => Loop.send s c.1 c.2)
    (fun s c => ⟨[], rfl, send_adds s c.1 c.2⟩) h.sends (h.internal.foldl Loop.postInternal s)
  refine ⟨new ++ new', ?_, ha.trans ha'⟩
  simp only [inputs, List.filter_append] at hn hn' ⊢
  rw [hn, hn', List.append_nil]

/-- A message taken from an input is posted exactly when there is room. -/
theorem postInput_adds (s : Loop) (took : Option Msg) (m : Msg) (ok failed : Pc) :
    (Spare s ∧ Adds s (s.postInput took m ok failed) took.toList [m]) ∨
    (¬ Spare s ∧ Adds s (s.postInput took m ok failed) took.toList []) := by
  obtain ⟨hr, hp⟩ | ⟨hr, hp⟩ := post_cases { s with taken := s.taken ++ took.toList } m
  · refine .inl ⟨hr, ?_⟩
    simp only [Loop.postInput, hp]
    constructor <;> simp
  · refine .inr ⟨hr, ?_⟩
    simp only [Loop.postInput, hp]
    constructor <;> simp

/-! ## What a step does to the records -/

/-- What a step takes from an input is what it posts, exactly when it meets the condition. -/
def Effects (s : Loop) (e : Event) (s' : Loop) : Prop :=
  ∃ took new, Adds s s' took new ∧ (inputs new = took ↔ Room s e)

theorem effects_idle {s s' : Loop} {e : Event} (hr : Room s e)
    (h : ∃ new, inputs new = [] ∧ Adds s s' [] new) : Effects s e s' := by
  obtain ⟨new, hn, ha⟩ := h
  exact ⟨[], new, ha, fun _ => hr, fun _ => hn⟩

theorem effects_same {s s' : Loop} {e : Event} (hr : Room s e) (hm : s'.msgs = s.msgs)
    (ht : s'.taken = s.taken) (hp : s'.posted = s.posted) (hd : s'.dispatched = s.dispatched) :
    Effects s e s' :=
  effects_idle hr ⟨[], rfl, adds_of_same hm ht hp hd⟩

/-- What is taken from an input is posted. -/
theorem takes_posts {s : Loop} (h : (takes s).isSome) : posts s = takes s := by
  unfold takes posts at *
  cases hpc : s.pc with
  | draining i count =>
    rw [hpc] at h
    dsimp only at h ⊢
    cases hf : centerFrame s i with
    | none => rfl
    | some f =>
      rw [hf] at h
      obtain ⟨mng, -, hg⟩ := Option.bind_eq_some_iff.mp hf
      obtain ⟨-, hword, hle⟩ := Server.getOneData_word hg
      by_cases h4 : 4 ≤ f.length
      · simp only [Option.bind_some, Server.centerPost_copyIn _ h4 (hword h4)]
      · simp only [Option.bind_some, Server.centerPost_short (by omega) hle] at h
        cases h
  | _ => rfl

theorem room_of_posts_none {s : Loop} (h : posts s = none) (x : Effect) : Room s (.iterate x) := by
  refine ⟨fun ht => ?_, fun _ hp => ?_⟩
  · rw [← takes_posts ht, h] at ht
    cases ht
  · rw [h] at hp
    cases hp

/-- A pass that posts what it has taken meets the condition when there is room. -/
theorem effects_post {s t : Loop} {took : Option Msg} {m : Msg} {ok failed : Pc} {x : Effect}
    (hm : t.msgs = s.msgs) (ht : t.taken = s.taken) (hp : t.posted = s.posted)
    (hd : t.dispatched = s.dispatched) (htakes : takes s = took) (hposts : posts s = some m)
    (hin : m.isInput = true) : Effects s (.iterate x) (t.postInput took m ok failed) := by
  have hone : inputs [m] = [m] := by simp [inputs, hin]
  have hsame := adds_of_same hm ht hp hd
  have hspare : Spare t ↔ Spare s := by rw [Spare, Spare, hm]
  have hposted : (posts s).isSome := by rw [hposts]; rfl
  cases took with
  | none =>
    obtain ⟨hr, ha⟩ | ⟨hr, ha⟩ := postInput_adds t none m ok failed
    · refine ⟨[], [m], hsame.trans ha, fun he => ?_, fun hroom => ?_⟩
      · rw [hone] at he
        cases he
      · exact absurd (hspare.mp hr) (hroom.2 htakes hposted)
    · refine ⟨[], [], hsame.trans ha, fun _ => ⟨fun h => ?_, fun _ _ => ?_⟩, fun _ => rfl⟩
      · rw [htakes] at h
        cases h
      · exact fun h => hr (hspare.mpr h)
  | some a =>
    have hsome : (takes s).isSome := by rw [htakes]; rfl
    have hsameMsg : m = a :=
      Option.some.inj (hposts.symm.trans ((takes_posts hsome).trans htakes))
    obtain rfl := hsameMsg
    obtain ⟨hr, ha⟩ | ⟨hr, ha⟩ := postInput_adds t (some m) m ok failed
    · refine ⟨[m], [m], hsame.trans ha, fun _ => ⟨fun _ => hspare.mp hr, fun h => ?_⟩, fun _ => hone⟩
      rw [htakes] at h
      cases h
    · refine ⟨[m], [], hsame.trans ha, fun he => ?_, fun hroom => ?_⟩
      · cases he
      · exact absurd (hspare.mpr (hroom.1 hsome)) hr

/-- A pass over the frames of a center. -/
theorem drain_effects {s : Loop} {i count : Nat} (hpc : s.pc = .draining i count) (x : Effect) :
    Effects s (.iterate x) (drain s i count) := by
  simp only [drain]
  cases hc : s.centers[i]? with
  | none =>
    have hno : posts s = none := by simp [posts, hpc, centerFrame, hc]
    exact effects_same (room_of_posts_none hno x) rfl rfl rfl rfl
  | some mng =>
    dsimp only
    cases hg : (getOneData mng centerBufLen).data with
    | none =>
      have hno : posts s = none := by simp [posts, hpc, centerFrame, hc, hg]
      exact effects_same (room_of_posts_none hno x) rfl rfl rfl rfl
    | some f =>
      have hframe : centerFrame s i = some f := by simp [centerFrame, hc, hg]
      dsimp only
      cases hp : Server.centerPost (Server.copyIn s.centerBuf f) with
      | none =>
        have hno : posts s = none := by simp [posts, hpc, hframe, hp]
        exact effects_same (room_of_posts_none hno x) rfl rfl rfl rfl
      | some m =>
        have htakes : takes s = (Server.centerPost f).map serverMsg := by
          simp [takes, hpc, hframe]
        have hposts : posts s = some (serverMsg m) := by simp [posts, hpc, hframe, hp]
        exact effects_post rfl rfl rfl rfl htakes hposts rfl

/-- A pass over the `cs` pipe. -/
theorem getClient_effects {s : Loop} {n : Nat} (hpc : s.pc = .clients n) (x : Effect) :
    Effects s (.iterate x) (getClient s n x) := by
  have hposts : posts s = clientMsg s n := by simp only [posts, hpc]
  have htakes : takes s = clientMsg s n := by simp only [takes, hpc]
  simp only [getClient]
  by_cases hn : n < 1024
  · rw [if_pos hn]
    simp only [clientMsg, if_pos hn] at hposts htakes
    cases hg : s.cs.get List.length tcpBufLen with
    | none =>
      rw [hg] at hposts
      exact effects_same (room_of_posts_none hposts x) rfl rfl rfl rfl
    | some r =>
      rw [hg, Option.bind_some] at hposts htakes
      dsimp only
      cases hf : clientFrame r.1 with
      | ignored =>
        rw [hf] at hposts
        exact effects_same (room_of_posts_none hposts x) rfl rfl rfl rfl
      | offline logicIndex =>
        rw [hf] at hposts
        obtain ⟨new, hnew, ha⟩ := handled_adds { s with cs := r.2, pc := .clients (n + 1) } x
        have hsame : Adds s { s with cs := r.2, pc := .clients (n + 1) } [] [] :=
          adds_of_same rfl rfl rfl rfl
        exact effects_idle (room_of_posts_none hposts x) ⟨new, hnew, hsame.trans ha⟩
      | message head pb =>
        rw [hf] at hposts htakes
        exact effects_post rfl rfl rfl rfl htakes hposts rfl
  · simp only [clientMsg, if_neg hn] at hposts
    rw [if_neg hn]
    exact effects_same (room_of_posts_none hposts x) rfl rfl rfl rfl

/-- A pass over the message pipe takes nothing from an input. -/
theorem dispatch_effects {s : Loop} {n : Nat} (hpc : s.pc = .dispatching n) (x : Effect) :
    Effects s (.iterate x) (dispatch s n x) := by
  have hr : Room s (.iterate x) := room_of_posts_none (by simp only [posts, hpc]) x
  simp only [dispatch]
  by_cases hn : n < 1024
  · rw [if_pos hn]
    cases hg : s.msgs.get (fun _ => msgSize) msgSize with
    | none => exact effects_same hr rfl rfl rfl rfl
    | some r =>
      obtain ⟨rest, hitems, hq⟩ := Fifo.get_eq_some hg
      dsimp only
      obtain ⟨new, hnew, ha⟩ := handled_adds { s with
        msgs := r.2, dispatched := s.dispatched ++ [r.1], pc := .dispatching (n + 1) } x
      refine effects_idle hr ⟨new, hnew, ?_⟩
      have hmove : Adds s { s with
          msgs := r.2, dispatched := s.dispatched ++ [r.1], pc := .dispatching (n + 1) } [] [] := by
        constructor <;> simp [hq, hitems]
      exact hmove.trans ha
  · rw [if_neg hn]
    exact effects_same hr rfl rfl rfl rfl

/-- Every step takes what it posts exactly when it meets the condition. -/
theorem step_effects {s s' : Loop} {e : Event} (h : Step s e s') : Effects s e s' := by
  cases e with
  | arrive f =>
    cases h
    exact effects_same trivial rfl rfl rfl rfl
  | poll conns recvs =>
    simp only [Step, step] at h
    split at h
    · split at h
      · cases h
        exact effects_same trivial rfl rfl rfl rfl
      · cases h
        exact effects_same trivial rfl rfl rfl rfl
    · cases h
  | iterate x =>
    simp only [Step, step, iterate] at h
    split at h
    · cases h
    · next i count hpc =>
      cases h
      exact effects_same (room_of_posts_none (by simp only [posts, hpc]) x) rfl rfl rfl rfl
    · next i count hpc =>
      cases h
      exact drain_effects hpc x
    · next n hpc =>
      cases h
      exact getClient_effects hpc x
    · next n hpc =>
      cases h
      exact dispatch_effects hpc x
    · next hpc =>
      cases h
      obtain ⟨new, hnew, ha⟩ := handled_adds s x
      refine effects_idle (room_of_posts_none (by simp only [posts, hpc]) x) ⟨new, hnew, ?_⟩
      exact ha.congr rfl rfl rfl rfl

/-! ## Runs -/

theorem inputs_append (ms ms' : List Msg) : inputs (ms ++ ms') = inputs ms ++ inputs ms' :=
  List.filter_append ..

/-- A step keeps a lossless run lossless exactly when it meets the condition. -/
theorem lossless_step {s₀ s s' : Loop} {e : Event} (hl : Lossless s₀ s) (h : Step s e s') :
    Lossless s₀ s' ↔ Room s e := by
  obtain ⟨took, new, ha, hroom⟩ := step_effects h
  have hqueue : s₀.msgs.items ++ s'.posted = s'.dispatched ++ s'.msgs.items := by
    rw [ha.posted, ha.queue, ← List.append_assoc, hl.2]
  have hposted : inputs s'.posted = s'.taken ↔ inputs new = took := by
    rw [ha.posted, ha.taken, inputs_append, hl.1, List.append_right_inj]
  rw [← hroom, ← hposted]
  exact and_iff_left hqueue

/-- The loop loses and repeats no message in exactly the runs in which there is room whenever a
message is taken from an input, and none whenever an old one is met in `_center_buf`. -/
theorem run_lossless_iff (s₀ s : Loop) (es : List Event) (h₀ : Fresh s₀) :
    (Trace.Run Step (fun s _ => Lossless s₀ s) s₀ es s ∧ Lossless s₀ s) ↔
      Trace.Run Step Room s₀ es s := by
  obtain ⟨htaken, hposted, hdispatched⟩ := h₀.records
  refine Trace.Run.always_iff (fun _ _ _ hl hs => lossless_step hl hs) ⟨?_, ?_⟩
  · rw [hposted, htaken]
    rfl
  · rw [hposted, hdispatched, List.append_nil, List.nil_append]

/-! ## A burst from one center -/

/-- The state after a pass that took `x` and found room for it. -/
def drained (s : Loop) (count : Nat) (mng : Mng) (x : Server.Message) : Loop where
  pc := .draining 0 (count + 1)
  cs := s.cs
  msgs := { s.msgs with items := s.msgs.items ++ [.server x.head x.pb] }
  centers := [mng]
  centerBuf := Server.copyIn s.centerBuf x.frame
  taken := s.taken ++ [.server x.head x.pb]
  posted := s.posted ++ [.server x.head x.pb]
  dispatched := s.dispatched

theorem centerPost_received (buf : List UInt8) (x : Server.Message) :
    Server.centerPost (Server.copyIn buf x.frame) = some (x.head, x.pb) := by
  have hlen := x.frame_length
  rw [Server.centerPost_copyIn buf (by omega) x.frame_len, Server.centerPost_frame]

theorem drain_room {s : Loop} {count : Nat} {mng : Mng} {x : Server.Message} {left : List UInt8}
    (hc : s.centers = [mng]) (hb : mng.ep.recvBuf = x.frame ++ left) (hroom : Spare s) :
    drain s 0 count = drained s count (Server.withBuf mng left) x := by
  have h0 : s.centers[0]? = some mng := by rw [hc]; rfl
  have hset : s.centers.set 0 (Server.withBuf mng left) = [Server.withBuf mng left] := by
    rw [hc]
    rfl
  obtain ⟨-, hp⟩ | ⟨hno, -⟩ := post_cases { s with
    centers := [Server.withBuf mng left]
    centerBuf := Server.copyIn s.centerBuf x.frame
    taken := s.taken ++ [.server x.head x.pb] } (.server x.head x.pb)
  · simp only [drain, h0, Server.getOneData_complete hb, centerPost_received,
      Server.centerPost_frame, hset, Loop.postInput, Option.map_some, Option.toList_some, serverMsg,
      hp]
    rfl
  · exact absurd hroom hno

/-- A pass of a loop in which no handler is called, or one that does nothing. -/
def pass : Event := .iterate ⟨[], []⟩

/-- The next pass takes the frame at the front of the buffer. -/
theorem takes_frame {s : Loop} {count : Nat} {mng : Mng} {x : Server.Message} {left : List UInt8}
    (hpc : s.pc = .draining 0 count) (hc : s.centers = [mng])
    (hb : mng.ep.recvBuf = x.frame ++ left) : takes s = some (.server x.head x.pb) := by
  have h0 : s.centers[0]? = some mng := by rw [hc]; rfl
  simp only [takes, hpc, centerFrame, h0, Option.bind_some, Server.getOneData_complete hb,
    Server.centerPost_frame, Option.map_some, serverMsg]

/-- For a pass that takes a message, room is room for that message. -/
theorem room_of_takes {s : Loop} {m : Msg} (h : takes s = some m) (x : Effect) :
    Room s (.iterate x) ↔ Spare s := by
  simp only [Room, h, Option.isSome_some, true_implies, reduceCtorEq, false_implies, and_true]

theorem step_drain {s : Loop} {i count : Nat} (hpc : s.pc = .draining i count) :
    Step s pass (drain s i count) := by
  simp only [Step, step, pass, iterate, hpc]

/-- The loop takes one frame after the other out of the buffer while there is room. -/
theorem drain_fills {ms : List Server.Message} {s : Loop} {count : Nat} {mng : Mng}
    {left : List UInt8} (hpc : s.pc = .draining 0 count) (hc : s.centers = [mng])
    (hb : mng.ep.recvBuf = Server.stream ms ++ left)
    (hroom : (s.msgs.items.length + ms.length) * (4 + msgSize) ≤ s.msgs.size - 1) :
    ∃ s' n, Trace.Run Step Room s (List.replicate ms.length pass) s' ∧
      s'.pc = .draining 0 n ∧ s'.centers = [Server.withBuf mng left] ∧
      s'.msgs.items.length = s.msgs.items.length + ms.length ∧ s'.msgs.size = s.msgs.size := by
  induction ms generalizing s count mng with
  | nil =>
    have hsame : Server.withBuf mng left = mng := by
      rw [Server.stream_nil, List.nil_append] at hb
      rw [← hb]
      rfl
    exact ⟨s, count, Trace.Run.nil s, hpc, by rw [hsame, hc], rfl, rfl⟩
  | cons x ms ih =>
    rw [Server.stream_cons, List.append_assoc] at hb
    have hlen : s.msgs.items.length + (x :: ms).length =
        (s.msgs.items ++ [Msg.server x.head x.pb]).length + ms.length := by
      simp only [List.length_append, List.length_cons, List.length_nil]
      omega
    have hfirst : Spare s := by
      refine Nat.le_trans (Nat.mul_le_mul_right _ ?_) hroom
      rw [List.length_cons]
      omega
    have hguard : Room s pass := (room_of_takes (takes_frame hpc hc hb) _).mpr hfirst
    have hstep := step_drain hpc
    rw [drain_room hc hb hfirst] at hstep
    rw [hlen] at hroom ⊢
    obtain ⟨s', n, hrun, hpc', hc', hlen', hsize⟩ :=
      ih (s := drained s count (Server.withBuf mng (Server.stream ms ++ left)) x) rfl rfl rfl hroom
    exact ⟨s', n, Trace.Run.cons hguard hstep hrun, hpc', hc', hlen', hsize⟩

/-- The server at the start, with empty pipes and one center connected. -/
def idle : Loop where
  pc := .top
  cs := ⟨1024 * tcpBufLen, []⟩
  msgs := ⟨msgPipeSize, []⟩
  centers := [connect (CenterMng.init (fun _ => .all) (-1)) 5]
  centerBuf := List.replicate centerBufLen 0
  taken := []
  posted := []
  dispatched := []

theorem idle_fresh : Fresh idle := ⟨rfl, rfl, rfl, rfl, rfl⟩

def ping : Server.Message := Server.request [1] (by decide) (by decide)

def burst (n : Nat) : List UInt8 := Server.stream (List.replicate n ping)

theorem burst_length (n : Nat) : (burst n).length = n * 45 := by
  induction n with
  | zero => rfl
  | succ n ih =>
    have hframe : ping.frame.length = 45 := ping.frame_length
    simp only [burst, List.replicate_succ, Server.stream_cons, List.length_append] at ih ⊢
    rw [ih, hframe]
    omega

/-- The loop over the frames of the center that has sent `bytes`. -/
def received (bytes : List UInt8) : Loop :=
  { idle with
    pc := .draining 0 0
    centers := idle.centers.map fun m => Server.withBuf m bytes }

theorem received_run {bytes : List UInt8} (hne : bytes ≠ []) (hfit : bytes.length ≤ recvBufLen) :
    Trace.Run Step Room idle
      [.poll (fun _ => none) (some fun _ => some [.data bytes]), pass] (received bytes) := by
  have hbuf : receive (connect (CenterMng.init (fun _ => .all) (-1)) 5) (some [.data bytes]) =
      Server.withBuf (connect (CenterMng.init (fun _ => .all) (-1)) 5) bytes := by
    have hstore := Server.recvData_fits
      (m := connect (CenterMng.init (fun _ => .all) (-1)) 5) hne hfit
    simp only [receive]
    rw [if_neg (by decide), hstore]
    rfl
  have hpoll : Step idle (.poll (fun _ => none) (some fun _ => some [.data bytes]))
      { received bytes with pc := .center 0 0 } := by
    simp only [Step, step, idle, List.mapIdx_cons, List.mapIdx_nil, reconnect]
    rw [hbuf]
    rfl
  have hhead : Room { received bytes with pc := .center 0 0 } pass := room_of_posts_none rfl _
  exact Trace.Run.cons trivial hpoll (Trace.Run.cons hhead (by rfl) (Trace.Run.nil _))

/-- A center sends 2047 one-byte messages between two rounds: the last one is lost. -/
theorem burst_loses :
    ∃ s₀ es s, Fresh s₀ ∧ Trace.Run Step (fun _ _ => True) s₀ es s ∧ ¬ Lossless s₀ s := by
  have hlen := burst_length 2047
  have hrecv : recvBufLen = 413600 := rfl
  have hne : burst 2047 ≠ [] := by
    intro h
    rw [h, List.length_nil] at hlen
    omega
  have hstart := received_run hne (by omega)
  have hbuf : burst 2047 = Server.stream (List.replicate 2046 ping) ++ ping.frame := by
    simp only [burst, List.replicate_succ' (n := 2046), Server.stream_append, Server.stream_cons,
      Server.stream_nil, List.append_nil]
  obtain ⟨s, n, hrun, hpc, hc, hitems, hsize⟩ :=
    drain_fills (s := received (burst 2047)) rfl rfl hbuf (by
      rw [List.length_replicate]
      decide)
  rw [List.length_replicate] at hitems
  have hlast : (Server.withBuf (connect (CenterMng.init (fun _ => .all) (-1)) 5)
      ping.frame).ep.recvBuf = ping.frame ++ [] := (List.append_nil _).symm
  have hfull : ¬ Spare s := by
    rw [Spare, hitems, hsize]
    decide
  have hbefore := hstart.append hrun
  have hlossless : Lossless idle s :=
    hbefore.invariant (Lossless idle) ⟨rfl, rfl⟩ fun _ _ _ hl hg hs => (lossless_step hl hs).mpr hg
  refine ⟨idle, _, drain s 0 n, idle_fresh,
    (hbefore.weaken fun _ _ _ => trivial).append
      (Trace.Run.cons trivial (step_drain hpc) (Trace.Run.nil _)), fun hl => hfull ?_⟩
  exact (room_of_takes (takes_frame hpc hc hlast) _).mp ((lossless_step hlossless (step_drain hpc)).mp hl)

/-! A round in which one message comes from the center and one from a client. -/

/-- A frame of the `cs` pipe with a zeroed head and two bytes of message. -/
def clientBytes : List UInt8 := List.replicate 40 0 ++ [0, 0, 0, 6, 9, 9]

def roundEvents : List Event :=
  [.arrive clientBytes, .poll (fun _ => none) (some fun _ => some [.data (burst 1)])] ++
    List.replicate 9 pass

def zeroHead : TcpHead := ⟨0, 0, 0, List.replicate 16 0, 0, false⟩

instance (s : Loop) : Decidable (Spare s) := inferInstanceAs (Decidable (_ ≤ _))

instance (s : Loop) : DecidablePred (Room s)
  | .iterate _ => inferInstanceAs (Decidable ((_ → _) ∧ (_ → _ → ¬ _)))
  | .arrive _ | .poll _ _ => inferInstanceAs (Decidable True)

theorem run_lossless_round :
    ∃ s, Trace.Run Step Room idle roundEvents s ∧
      s.dispatched = [.server ⟨8, 0, 7, 0, 21, .p2p, 0, 0⟩ [1], .client zeroHead [9, 9]] ∧
      Lossless idle s := by
  obtain ⟨s, hrun, hdispatched⟩ :=
    Trace.exists_run_of_exec step Room idle roundEvents
      (fun s => s.dispatched =
        [.server ⟨8, 0, 7, 0, 21, .p2p, 0, 0⟩ [1], .client zeroHead [9, 9]]) (by decide +kernel)
  exact ⟨s, hrun, hdispatched, ((run_lossless_iff idle s roundEvents idle_fresh).mpr hrun).2⟩

end MsgLoop
