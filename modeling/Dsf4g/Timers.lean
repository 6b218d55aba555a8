import Dsf4g.LostSlots
import Dsf4g.MsgLoop

/-!
# Timers and the message pipe

`SetTimer`, `ClearTimer` and `SendMsgToInternal` of `src/common/msg_basic.cpp` over
`TimerManager::Tick`. The delay is scaled in 32 bits, and `Tick` releases a timer
whether or not its message got into the pipe.
-/
namespace Timers

open Base Managers MsgLoop
open HandOver (Kept Order Table update_eq_some)

variable {I : Type}

/-! ## The system -/

/-- A `PBInterMsg`, with the number of the call it was given to. The code copies it as a whole and
never reads the number. -/
structure Noted (I : Type) where
  inter : I
  number : Option Nat

instance [Inhabited I] : Inhabited (Noted I) := ⟨⟨default, none⟩⟩

/-- A timer for which the caller got an id. -/
structure Record (I : Type) where
  id : UInt32
  inter : I
  setAt : Nat
  /-- The delay the caller asked for, in milliseconds. -/
  delay : Nat
  cleared : Bool
  /-- When `Tick` has been called since. -/
  ticks : List Nat
  /-- What has been appended to the message pipe for it, and when. -/
  appended : List (Nat × List UInt8)

def Record.due (r : Record I) : Nat := r.setAt + r.delay

/-- The time that `SetTimer` makes of it, in 32 bits. -/
def Record.fires (r : Record I) : Nat := r.setAt + r.delay % 2 ^ 32

structure State (I : Type) where
  mng : TimerManager (Noted I)
  pipe : Fifo Msg
  /-- `g_cur_time`. -/
  now : UInt64
  records : List (Record I)

def timeMsec (sec usec : UInt32) : UInt64 := sec.toUInt64 * 1000 + (usec / 1000).toUInt64

def start [Inhabited I] (size sec usec : UInt32) : State I :=
  ⟨fresh size, ⟨msgPipeSize, []⟩, timeMsec sec usec, []⟩

def setTimerMsec [Inhabited I] (s : State I) (msec : UInt32) (inter : I) (delay : Nat) :
    State I × Int32 :=
  match createTimer s.mng msec ⟨inter, some s.records.length⟩ s.now with
  | (m, none) => ({ s with mng := m }, -1)
  | (m, some (id, _)) =>
    ({ s with
      mng := m
      records := s.records ++ [⟨id, inter, s.now.toNat, delay, false, [], []⟩] }, id.toInt32)

def setTimer [Inhabited I] (s : State I) (sec : UInt32) (inter : I) : State I × Int32 :=
  setTimerMsec s (sec * 1000) inter (1000 * sec.toNat)

/-- Which call set the timer that is found under an id. -/
def numberUnder (m : TimerManager (Noted I)) (id : UInt32) : Option Nat :=
  (m.toTable.get id).bind fun x => x.pb.msg.number

def clearTimer (s : State I) (timerId : Int32) : State I :=
  if timerId < 0 then s
  else
    let id := timerId.toUInt32
    { s with
      mng := releaseTimer s.mng id
      records :=
        match numberUnder s.mng id with
        | none => s.records
        | some n => s.records.modify n fun r => { r with cleared := true } }

section Pipe

variable (ser : I → List UInt8)

/-- `SendMsgToInternal`, with the pipe when it returns true. -/
def sendMsgToInternal (q : Fifo Msg) (x : Noted I) : Option (Fifo Msg) :=
  if (ser x.inter).length > Server.maxPbLen then none
  else q.append Msg.cost (.internal (ser x.inter))

/-- The calls of `SendMsgToInternal` in a `Tick`, with the messages that were appended. -/
def sendAll (q : Fifo Msg) : List (Noted I) → Fifo Msg × List (Noted I)
  | [] => (q, [])
  | x :: xs =>
    match sendMsgToInternal ser q x with
    | none => sendAll q xs
    | some q' => ((sendAll q' xs).1, x :: (sendAll q' xs).2)

def Record.swept (r : Record I) (now n : Nat) (sent : List (Noted I)) : Record I :=
  { r with
    ticks := r.ticks ++ [now]
    appended := r.appended ++
      (sent.filter fun x => x.number = some n).map fun x => (now, ser x.inter) }

def tickAll (s : State I) (o : Order) : State I :=
  let t := tick o s.mng s.now
  let sent := sendAll ser s.pipe t.2
  { s with
    mng := t.1
    pipe := sent.1
    records := s.records.mapIdx fun n r => r.swept ser s.now.toNat n sent.2 }

inductive Op (I : Type) where
  | setTimer (sec : UInt32) (inter : I)
  | setTimerMsec (msec : UInt32) (inter : I)
  | clearTimer (timerId : Int32)
  | tick (o : Order)
  | setTimeMsec (sec usec : UInt32)
  /-- `PostMessage`, by anyone else. -/
  | post (m : Msg)
  /-- `GetOneData` in `DispatchMessage`. -/
  | dispatch

def next [Inhabited I] (s : State I) : Op I → Option (State I)
  | .setTimer sec inter => some (setTimer s sec inter).1
  | .setTimerMsec msec inter => some (setTimerMsec s msec inter msec.toNat).1
  | .clearTimer timerId => some (clearTimer s timerId)
  | .tick o => some (tickAll ser s o)
  | .setTimeMsec sec usec =>
    if s.now ≤ timeMsec sec usec then some { s with now := timeMsec sec usec } else none
  | .post m => some { s with pipe := (s.pipe.append Msg.cost m).getD s.pipe }
  | .dispatch =>
    match s.pipe.get (fun _ => msgSize) msgSize with
    | none => some s
    | some (_, q) => some { s with pipe := q }

def Next [Inhabited I] (s : State I) (op : Op I) (s' : State I) : Prop := next ser s op = some s'

/-! ## What is claimed -/

/-- The first of these times that is not before `due`. -/
def first (due : Nat) (ticks : List Nat) : List Nat := (ticks.filter fun t => due ≤ t).take 1

def Found (m : TimerManager (Noted I)) (n : Nat) (r : Record I) : Prop :=
  ∃ x, m.toTable.get r.id = some x ∧ x.pb.msg = ⟨r.inter, some n⟩

/-- The message has been appended once, by the first `Tick` at or after the time of the timer, or
there was no such `Tick`; and until then the timer is in the manager. -/
def OnTime (m : TimerManager (Noted I)) (n : Nat) (r : Record I) : Prop :=
  r.appended = (first r.due r.ticks).map (fun t => (t, ser r.inter)) ∧
    (r.appended = [] → Found m n r)

/-- Every timer that was not cleared fires exactly once and never early. -/
def Punctual (s : State I) : Prop :=
  ∀ n r, s.records[n]? = some r → r.cleared = false → OnTime ser s.mng n r

/-! ## When it holds -/

def room (q : Fifo Msg) : Nat := (q.size - 1 - q.occupancy Msg.cost) / (4 + msgSize)

/-- The messages that get into the pipe: as many of those of at most `MAX_PB_LEN` bytes as there is
room for. -/
def fitting (q : Fifo Msg) (xs : List (Noted I)) : List (Noted I) :=
  (xs.filter fun x => (ser x.inter).length ≤ Server.maxPbLen).take (room q)

def Record.Waits (r : Record I) : Prop := r.cleared = false ∧ r.appended = []

def Lost (m : TimerManager (Noted I)) (pos : Nat) : Prop :=
  pos ∈ m.objs.used ∧ m.index (m.objs.pool pos).pb.timerId ≠ some pos

/-- The messages of the timers that have run out, in the order of the sweep. -/
def messages (s : State I) (o : Order) : List (Noted I) :=
  (runOut o s.mng s.now).map fun pos => (s.mng.objs.pool pos).pb.msg

structure Spared (s : State I) (o : Order) : Prop where
  /-- A timer whose delay wrapped has not run out before it is due. -/
  unwrapped : ∀ r ∈ s.records, r.Waits → r.fires ≤ s.now.toNat → r.due ≤ s.now.toNat
  /-- The message of every timer that has run out is short enough, and there is room for it. -/
  fits : ∀ x ∈ messages s o, x.number ≠ none → x ∈ fitting ser s.pipe (messages s o)
  /-- A lost slot has the id 0: no timer of that id waits for a later `Tick`. -/
  kept : ∀ pos pos', Lost s.mng pos → s.mng.index 0 = some pos' →
    (s.mng.objs.pool pos').pb.timeoutMsec ≤ s.now

def TickSpared (s : State I) : Op I → Prop
  | .tick o => Spared ser s o
  | _ => True

end Pipe

/-! ## The pipe -/

section Pipe

variable (ser : I → List UInt8)

/-- What one message takes. -/
theorem slot_pos : 0 < 4 + msgSize := by decide

/-- A message is appended while there is room for one. -/
theorem append_eq (q : Fifo Msg) (m : Msg) :
    q.append Msg.cost m = if 0 < room q then some { q with items := q.items ++ [m] } else none := by
  have hiff : 0 < room q ↔ q.occupancy Msg.cost + Msg.cost m ≤ q.size - 1 := by
    have hpos := slot_pos
    rw [room, Nat.div_pos_iff, Msg.cost]
    omega
  rw [Fifo.append, if_congr hiff rfl rfl]

theorem room_append {q : Fifo Msg} (m : Msg) (h : 0 < room q) :
    room { q with items := q.items ++ [m] } + 1 = room q := by
  have hle := (Nat.div_pos_iff.mp h).2
  rw [room, room, occupancy_eq, Nat.div_eq_sub_div slot_pos hle, occupancy_eq]
  rw [List.length_append, List.length_singleton, Nat.succ_mul, Nat.sub_add_eq]

/-- A `Tick` appends the messages that fit, in the order of the sweep. -/
theorem sendAll_eq (xs : List (Noted I)) (q : Fifo Msg) :
    sendAll ser q xs =
      ({ q with items := q.items ++ (fitting ser q xs).map fun x => .internal (ser x.inter) },
        fitting ser q xs) := by
  induction xs generalizing q with
  | nil => simp [sendAll, fitting]
  | cons x xs ih =>
    by_cases hlen : (ser x.inter).length ≤ Server.maxPbLen
    · have hsend : sendMsgToInternal ser q x = q.append Msg.cost (.internal (ser x.inter)) :=
        if_neg (Nat.not_lt.mpr hlen)
      have hfit : fitting ser q (x :: xs) = (x :: xs.filter fun x =>
          (ser x.inter).length ≤ Server.maxPbLen).take (room q) := by
        simp only [fitting, List.filter_cons, hlen, decide_true, if_true]
      cases hroom : room q with
      | zero =>
        have hnone : q.append Msg.cost (.internal (ser x.inter)) = none := by
          rw [append_eq, hroom, if_neg (Nat.lt_irrefl 0)]
        have hrest : fitting ser q xs = [] := by
          rw [fitting, hroom, List.take_zero]
        rw [sendAll, hsend, hnone, hfit, hroom, List.take_zero]
        dsimp only
        rw [ih q, hrest]
      | succ k =>
        have hpos : 0 < room q := by omega
        have hsome := append_eq q (.internal (ser x.inter))
        rw [if_pos hpos] at hsome
        have hleft := room_append (.internal (ser x.inter)) hpos
        have hk : room { q with items := q.items ++ [.internal (ser x.inter)] } = k := by omega
        rw [sendAll, hsend, hsome, hfit, hroom, List.take_succ_cons]
        dsimp only
        rw [ih, fitting, hk, List.map_cons, List.append_assoc]
        rfl
    · have hlong : Server.maxPbLen < (ser x.inter).length := Nat.not_le.mp hlen
      have hsend : sendMsgToInternal ser q x = none := if_pos hlong
      have hfit : fitting ser q (x :: xs) = fitting ser q xs := by
        simp only [fitting, List.filter_cons, hlen, decide_false, Bool.false_eq_true, if_false]
      rw [sendAll, hsend, hfit]
      exact ih q

end Pipe

/-! ## Timers and their records -/

/-- The object found under `id` is the timer that call `n` set. -/
structure Tracks (records : List (Record I)) (id : UInt32) (x : Timer (Noted I)) (n : Nat)
    (r : Record I) : Prop where
  record : records[n]? = some r
  id : r.id = id
  waits : r.Waits
  msg : x.pb.msg = ⟨r.inter, some n⟩
  timeout : x.pb.timeoutMsec.toNat = r.fires

theorem Tracks.append {records : List (Record I)} {id : UInt32} {x : Timer (Noted I)} {n : Nat}
    {r : Record I} (h : Tracks records id x n r) (new : Record I) :
    Tracks (records ++ [new]) id x n r := by
  have hlt := (List.getElem?_eq_some_iff.mp h.record).1
  exact ⟨(List.getElem?_append_left hlt).trans h.record, h.id, h.waits, h.msg, h.timeout⟩

/-- A call whose timer is found under another id has another record. -/
theorem Tracks.ne {records : List (Record I)} {id id' : UInt32} {x x' : Timer (Noted I)}
    {n n' : Nat} {r r' : Record I} (h : Tracks records id x n r)
    (h' : Tracks records id' x' n' r') (hid : id' ≠ id) : n' ≠ n := by
  rintro rfl
  cases h.record.symm.trans h'.record
  exact hid (h'.id.symm.trans h.id)

theorem get_eq_some {m : TimerManager (Noted I)} {id : UInt32} {x : Timer (Noted I)}
    (h : m.toTable.get id = some x) : ∃ pos, m.index id = some pos ∧ m.objs.pool pos = x := by
  obtain ⟨pos, hi, hget⟩ := Option.bind_eq_some_iff.mp h
  unfold ObjectMng.get at hget
  split at hget
  · cases hget
  · exact ⟨pos, hi, Option.some.inj hget⟩

variable [Inhabited I]

structure Inv (s : State I) : Prop where
  kept : Kept (fun x => x = default) (fun x => x.pb.timerId) s.mng.toTable
  tracked : ∀ id pos, s.mng.index id = some pos →
    ∃ n r, Tracks s.records id (s.mng.objs.pool pos) n r
  /-- `g_cur_time` comes from 32-bit seconds and microseconds. -/
  clock : s.now.toNat < 2 ^ 43

theorem timeMsec_lt (sec usec : UInt32) : (timeMsec sec usec).toNat < 2 ^ 43 := by
  have hsec := sec.toNat_lt
  have husec := (usec / 1000).toNat_lt
  have hthousand : (1000 : UInt64).toNat = 1000 := rfl
  rw [timeMsec, UInt64.toNat_add, UInt64.toNat_mul, UInt32.toNat_toUInt64, UInt32.toNat_toUInt64,
    hthousand]
  have hprod : sec.toNat * 1000 % 2 ^ 64 = sec.toNat * 1000 := Nat.mod_eq_of_lt (by omega)
  rw [hprod, Nat.mod_eq_of_lt (by omega)]
  omega

theorem start_inv (size sec usec : UInt32) : Inv (start size sec usec : State I) where
  kept :=
    { valid := ObjectMng.init_valid _
      found := fun id pos hi => by cases hi
      lost := fun pos hused => absurd hused (Finset.notMem_empty pos) }
  tracked id pos hi := by cases hi
  clock := timeMsec_lt sec usec

/-! ### `SetTimer` -/

theorem setTimerMsec_cases (s : State I) (msec : UInt32) (inter : I) (delay : Nat) :
    let c := createTimer s.mng msec ⟨inter, some s.records.length⟩ s.now
    (c.2 = none ∧ (setTimerMsec s msec inter delay).1 = { s with mng := c.1 }) ∨
    ∃ id pos, c.2 = some (id, pos) ∧ (setTimerMsec s msec inter delay).1 =
      { s with
        mng := c.1
        records := s.records ++ [⟨id, inter, s.now.toNat, delay, false, [], []⟩] } := by
  dsimp only
  unfold setTimerMsec
  cases createTimer s.mng msec ⟨inter, some s.records.length⟩ s.now with
  | mk m found =>
    cases found with
    | none => exact .inl ⟨rfl, rfl⟩
    | some r => exact .inr ⟨r.1, r.2, rfl, rfl⟩

/-- The new timer is the one of its record. -/
theorem fillTimer_tracks {s : State I} (h : Inv s) {msec : UInt32} {delay : Nat}
    (hdelay : delay % 2 ^ 32 = msec.toNat) (inter : I) (id : UInt32) :
    Tracks (s.records ++ [⟨id, inter, s.now.toNat, delay, false, [], []⟩]) id
      (fillTimer msec ⟨inter, some s.records.length⟩ s.now id default) s.records.length
      ⟨id, inter, s.now.toNat, delay, false, [], []⟩ := by
  refine ⟨List.getElem?_concat_length .., rfl, ⟨rfl, rfl⟩, rfl, ?_⟩
  have hmsec := msec.toNat_lt
  have hclock := h.clock
  show (s.now + msec.toUInt64).toNat = s.now.toNat + delay % 2 ^ 32
  rw [UInt64.toNat_add, UInt32.toNat_toUInt64, hdelay]
  exact Nat.mod_eq_of_lt (by omega)

theorem setTimerMsec_inv {s : State I} (h : Inv s) {msec : UInt32} {delay : Nat}
    (hdelay : delay % 2 ^ 32 = msec.toNat) (inter : I) :
    Inv (setTimerMsec s msec inter delay).1 := by
  obtain ⟨hkept, hold, hnew⟩ := create_kept h.kept rfl
    (fillTimer msec ⟨inter, some s.records.length⟩ s.now) fun _ _ => rfl
  have hstay : ∀ id pos, s.mng.index id = some pos → ∃ n r, Tracks s.records id
      ((createTimer s.mng msec ⟨inter, some s.records.length⟩ s.now).1.objs.pool pos) n r := by
    intro id pos hi
    rw [createTimer, (hold id pos hi).2]
    exact h.tracked id pos hi
  obtain ⟨hnone, heq⟩ | ⟨id, pos, hsome, heq⟩ := setTimerMsec_cases s msec inter delay
  · rw [heq]
    obtain ⟨-, hindex⟩ | ⟨id, pos, hsome, -⟩ := hnew
    · exact ⟨hkept, fun id pos hi => hstay id pos (hindex ▸ hi), h.clock⟩
    · cases hnone.symm.trans hsome
  · rw [heq]
    obtain ⟨hnone, -⟩ | ⟨id', pos', hsome', -, hindex, hpool⟩ := hnew
    · cases hsome.symm.trans hnone
    · cases hsome.symm.trans hsome'
      refine ⟨hkept, fun id' i hi => ?_, h.clock⟩
      change (Managers.create s.mng _).1.index id' = some i at hi
      rw [hindex] at hi
      obtain ⟨rfl, he⟩ | ⟨-, hi⟩ := update_eq_some hi
      · cases he
        have htracks := fillTimer_tracks h hdelay inter id'
        rw [← hpool] at htracks
        exact ⟨_, _, htracks⟩
      · obtain ⟨n, r, ht⟩ := hstay id' i hi
        exact ⟨n, r, ht.append _⟩

theorem setTimerMsec_punctual {ser : I → List UInt8} {s : State I} (h : Inv s)
    (hp : Punctual ser s) {msec : UInt32} {delay : Nat} (inter : I) :
    Punctual ser (setTimerMsec s msec inter delay).1 := by
  obtain ⟨hkept, hold, hnew⟩ := create_kept h.kept rfl
    (fillTimer msec ⟨inter, some s.records.length⟩ s.now) fun _ _ => rfl
  have hstay : ∀ n r, Found s.mng n r →
      Found (createTimer s.mng msec ⟨inter, some s.records.length⟩ s.now).1 n r := by
    rintro n r ⟨x, hx, hmsg⟩
    obtain ⟨pos, hi, rfl⟩ := get_eq_some hx
    obtain ⟨hi', hpool⟩ := hold r.id pos hi
    exact ⟨_, hkept.get hi', (congrArg (fun x => x.pb.msg) hpool).trans hmsg⟩
  intro n r hr hc
  obtain ⟨-, heq⟩ | ⟨id, pos, hsome, heq⟩ := setTimerMsec_cases s msec inter delay
  · rw [heq] at hr ⊢
    obtain ⟨hsent, hfound⟩ := hp n r hr hc
    exact ⟨hsent, fun hnil => hstay n r (hfound hnil)⟩
  · rw [heq] at hr ⊢
    by_cases hn : n < s.records.length
    · dsimp only at hr
      rw [List.getElem?_append_left hn] at hr
      obtain ⟨hsent, hfound⟩ := hp n r hr hc
      exact ⟨hsent, fun hnil => hstay n r (hfound hnil)⟩
    · obtain ⟨hnone, -⟩ | ⟨id', pos', hsome', -, hindex, hpool⟩ := hnew
      · cases hsome.symm.trans hnone
      · cases hsome.symm.trans hsome'
        have hlast : n = s.records.length := by
          have hlt := (List.getElem?_eq_some_iff.mp hr).1
          rw [List.length_append, List.length_singleton] at hlt
          omega
        subst hlast
        cases (List.getElem?_concat_length ..).symm.trans hr
        have hi := congrFun hindex id
        rw [Function.update_self] at hi
        exact ⟨rfl, fun _ => ⟨_, hkept.get hi, congrArg (fun x => x.pb.msg) hpool⟩⟩

/-! ### `ClearTimer` -/

/-- Nothing is found under the id, or the timer of one call is released and its record marked. -/
theorem clearTimer_cases {s : State I} (h : Inv s) (timerId : Int32) :
    clearTimer s timerId = s ∨
    ∃ id pos n r, s.mng.index id = some pos ∧ Tracks s.records id (s.mng.objs.pool pos) n r ∧
      clearTimer s timerId =
        { s with
          mng := releaseTimer s.mng id
          records := s.records.modify n fun r => { r with cleared := true } } := by
  unfold clearTimer
  split
  · exact .inl rfl
  · cases hi : s.mng.index timerId.toUInt32 with
    | none =>
      have hnumber : numberUnder s.mng timerId.toUInt32 = none := by
        rw [numberUnder, Table.get, hi]
        rfl
      have hrelease : releaseTimer s.mng timerId.toUInt32 = s.mng := by
        rw [releaseTimer, release_absent_eq hi]
      simp only [hnumber, hrelease]
      exact .inl trivial
    | some pos =>
      obtain ⟨n, r, ht⟩ := h.tracked _ pos hi
      have hnumber : numberUnder s.mng timerId.toUInt32 = some n := by
        rw [numberUnder, h.kept.get hi, Option.bind_some, ht.msg]
      simp only [hnumber]
      exact .inr ⟨_, pos, n, r, hi, ht, rfl⟩

theorem clearTimer_inv {s : State I} (h : Inv s) (timerId : Int32) :
    Inv (clearTimer s timerId) := by
  obtain heq | ⟨id, pos, n, r, -, ht, heq⟩ := clearTimer_cases h timerId
  · rw [heq]
    exact h
  · rw [heq]
    refine ⟨kept_release h.kept id, fun id' i hi => ?_, h.clock⟩
    change (release s.mng.toTable id).index id' = some i at hi
    rw [release_index] at hi
    obtain ⟨-, hnone⟩ | ⟨hne, hold⟩ := update_eq_some hi
    · cases hnone
    · obtain ⟨n', r', ht'⟩ := h.tracked id' i hold
      refine ⟨n', r', ?_, ht'.id, ht'.waits, ?_, ?_⟩
      · exact (List.getElem?_modify_ne _ _ (Ne.symm (ht.ne ht' hne))).trans ht'.record
      · show ((release s.mng.toTable id).objs.pool i).pb.msg = _
        rw [release_pool]
        exact ht'.msg
      · show ((release s.mng.toTable id).objs.pool i).pb.timeoutMsec.toNat = _
        rw [release_pool]
        exact ht'.timeout

theorem clearTimer_punctual {ser : I → List UInt8} {s : State I} (h : Inv s)
    (hp : Punctual ser s) (timerId : Int32) : Punctual ser (clearTimer s timerId) := by
  have hkept := (clearTimer_inv h timerId).kept
  obtain heq | ⟨id, pos, n, r, hpos, ht, heq⟩ := clearTimer_cases h timerId
  · rw [heq]
    exact hp
  · rw [heq] at hkept ⊢
    intro n' r' hr hc
    by_cases hn : n' = n
    · subst hn
      have hmarked := (List.getElem?_modify_eq ..).symm.trans hr
      rw [ht.record] at hmarked
      cases hmarked
      cases hc
    · have hr := (List.getElem?_modify_ne _ _ (Ne.symm hn)).symm.trans hr
      obtain ⟨hsent, hfound⟩ := hp n' r' hr hc
      refine ⟨hsent, fun hnil => ?_⟩
      obtain ⟨x, hx, hmsg⟩ := hfound hnil
      obtain ⟨i, hi, rfl⟩ := get_eq_some hx
      have hne : r'.id ≠ id := by
        intro he
        rw [he, hpos] at hi
        cases hi
        rw [ht.msg] at hmsg
        exact hn (Option.some.inj (congrArg Noted.number hmsg)).symm
      have hi' : (releaseTimer s.mng id).index r'.id = some i := by
        show (release s.mng.toTable id).index r'.id = some i
        rw [release_index, Function.update_of_ne hne, hi]
      refine ⟨_, hkept.get hi', ?_⟩
      show ((release s.mng.toTable id).objs.pool i).pb.msg = _
      rw [release_pool, hmsg]

/-! ### `Tick` -/

theorem first_append (due : Nat) (ticks : List Nat) (t : Nat) :
    first due (ticks ++ [t]) =
      if first due ticks = [] then (if due ≤ t then [t] else []) else first due ticks := by
  have htail : [t].filter (fun t => due ≤ t) = if due ≤ t then [t] else [] := by
    by_cases h : due ≤ t <;> simp [h]
  rw [first, first, List.filter_append, htail]
  cases ticks.filter fun t => due ≤ t with
  | nil =>
    rw [List.nil_append, List.take_nil, if_pos rfl]
    by_cases h : due ≤ t <;> simp [h]
  | cons a rest => simp

def released (s : State I) (o : Order) : List UInt32 :=
  (runOut o s.mng s.now).map fun pos => (s.mng.objs.pool pos).pb.timerId

omit [Inhabited I] in
theorem tick_toTable (s : State I) (o : Order) :
    (tick o s.mng s.now).1.toTable = (released s o).foldl release s.mng.toTable :=
  foldl_releaseTimer_toTable s.mng _

omit [Inhabited I] in
theorem mem_runOut {s : State I} {o : Order} {pos : Nat} :
    pos ∈ runOut o s.mng s.now ↔
      pos ∈ s.mng.objs.used ∧ (s.mng.objs.pool pos).pb.timeoutMsec ≤ s.now := by
  rw [runOut, List.mem_filter, o.mem, decide_eq_true_iff]

/-- A slot in use holds a found timer, or it is lost and empty. -/
theorem Inv.slot {s : State I} (h : Inv s) {pos : Nat} (hused : pos ∈ s.mng.objs.used) :
    (∃ n r, Tracks s.records (s.mng.objs.pool pos).pb.timerId (s.mng.objs.pool pos) n r ∧
      s.mng.index (s.mng.objs.pool pos).pb.timerId = some pos) ∨
    (Lost s.mng pos ∧ s.mng.objs.pool pos = default) := by
  by_cases hi : s.mng.index (s.mng.objs.pool pos).pb.timerId = some pos
  · obtain ⟨n, r, ht⟩ := h.tracked _ pos hi
    exact .inl ⟨n, r, ht, hi⟩
  · exact .inr ⟨⟨hused, hi⟩, (h.kept.lost pos hused).resolve_left hi⟩

/-- A found timer is released when it has run out, and timer 0 also with a lost slot. -/
theorem mem_released {s : State I} (h : Inv s) {id : UInt32} {pos : Nat}
    (hi : s.mng.index id = some pos) (o : Order) :
    id ∈ released s o ↔ (s.mng.objs.pool pos).pb.timeoutMsec ≤ s.now ∨
      (id = 0 ∧ ∃ lost, Lost s.mng lost) := by
  obtain ⟨hused, hid⟩ := h.kept.found id pos hi
  constructor
  · intro hmem
    obtain ⟨i, hrun, hi'⟩ := List.mem_map.mp hmem
    obtain ⟨hused', hdue⟩ := mem_runOut.mp hrun
    obtain ⟨n, r, -, hlead⟩ | ⟨hlost, hnew⟩ := h.slot hused'
    · rw [hi', hi] at hlead
      cases hlead
      exact .inl hdue
    · rw [hnew] at hi'
      exact .inr ⟨hi'.symm, i, hlost⟩
  · rintro (hdue | ⟨rfl, lost, hlost⟩)
    · exact List.mem_map.mpr ⟨pos, mem_runOut.mpr ⟨hused, hdue⟩, hid⟩
    · obtain ⟨-, -, -, hlead⟩ | ⟨-, hnew⟩ := h.slot hlost.1
      · exact absurd hlead hlost.2
      · refine List.mem_map.mpr ⟨lost, mem_runOut.mpr ⟨hlost.1, ?_⟩, ?_⟩
        · rw [hnew]
          exact UInt64.zero_le
        · rw [hnew]
          rfl

/-- A list without repetitions of one possible element. -/
theorem sublist_of_only {α : Type} {l : List α} {a : α} (hnodup : l.Nodup)
    (honly : ∀ b ∈ l, b = a) : l.Sublist [a] := by
  have hrep : l = List.replicate l.length a := List.eq_replicate_of_mem honly
  have hlen : l.length ≤ 1 := by
    rw [hrep] at hnodup
    exact List.nodup_replicate.mp hnodup
  exact List.sublist_replicate_iff.mpr ⟨l.length, hlen, hrep⟩

/-- A found timer's message is the only one with its number. -/
theorem messages_number {s : State I} (h : Inv s) {id : UInt32} {pos n : Nat} {r : Record I}
    (hi : s.mng.index id = some pos) (ht : Tracks s.records id (s.mng.objs.pool pos) n r)
    (o : Order) :
    ((messages s o).filter fun x => x.number = some n).Sublist [⟨r.inter, some n⟩] := by
  have honly : ∀ i ∈ (runOut o s.mng s.now).filter fun i =>
      (s.mng.objs.pool i).pb.msg.number = some n, i = pos := by
    intro i hmem
    obtain ⟨hrun, hnumber⟩ := List.mem_filter.mp hmem
    obtain ⟨n', r', ht', hlead⟩ | ⟨-, hnew⟩ := h.slot (mem_runOut.mp hrun).1
    · rw [ht'.msg] at hnumber
      cases of_decide_eq_true hnumber
      cases ht.record.symm.trans ht'.record
      rw [← ht'.id, ht.id, hi] at hlead
      exact (Option.some.inj hlead).symm
    · rw [hnew] at hnumber
      cases of_decide_eq_true hnumber
  have hnodup : ((runOut o s.mng s.now).filter fun i =>
      (s.mng.objs.pool i).pb.msg.number = some n).Nodup := ((o.nodup _).filter _).filter _
  have hmap := (sublist_of_only hnodup honly).map fun i => (s.mng.objs.pool i).pb.msg
  rw [List.map_singleton, ht.msg] at hmap
  rw [messages, List.filter_map]
  exact hmap

section Sweep

variable (ser : I → List UInt8)

def sent (s : State I) (o : Order) : List (Noted I) := fitting ser s.pipe (messages s o)

omit [Inhabited I] in
theorem tickAll_eq (s : State I) (o : Order) :
    tickAll ser s o =
      { s with
        mng := (tick o s.mng s.now).1
        pipe := { s.pipe with
          items := s.pipe.items ++ (sent ser s o).map fun x => .internal (ser x.inter) }
        records := s.records.mapIdx fun n r => r.swept ser s.now.toNat n (sent ser s o) } := by
  have hsend : sendAll ser s.pipe (tick o s.mng s.now).2 = _ := sendAll_eq ser _ s.pipe
  simp only [tickAll, hsend]
  rfl

omit [Inhabited I] in
theorem sent_sublist (s : State I) (o : Order) : (sent ser s o).Sublist (messages s o) :=
  (List.take_sublist _ _).trans List.filter_sublist

/-- What is appended for a found timer: its message, when that is sent. -/
theorem sent_number {s : State I} (h : Inv s) {id : UInt32} {pos n : Nat} {r : Record I}
    (hi : s.mng.index id = some pos) (ht : Tracks s.records id (s.mng.objs.pool pos) n r)
    (o : Order) :
    (⟨r.inter, some n⟩ ∈ sent ser s o ∧
      (sent ser s o).filter (fun x => x.number = some n) = [⟨r.inter, some n⟩]) ∨
    (⟨r.inter, some n⟩ ∉ sent ser s o ∧
      (sent ser s o).filter (fun x => x.number = some n) = []) := by
  have hsub := ((sent_sublist ser s o).filter fun x => x.number = some n).trans
    (messages_number h hi ht o)
  have hmem : ⟨r.inter, some n⟩ ∈ sent ser s o ↔
      ⟨r.inter, some n⟩ ∈ (sent ser s o).filter fun x => x.number = some n := by
    rw [List.mem_filter]
    exact (and_iff_left (decide_eq_true rfl)).symm
  rw [hmem]
  have hone : List.Sublist _ (List.replicate 1 _) := hsub
  obtain ⟨k, hk, hrep⟩ := List.sublist_replicate_iff.mp hone
  rw [hrep]
  obtain rfl | rfl : k = 0 ∨ k = 1 := by omega
  · exact .inr ⟨List.not_mem_nil, rfl⟩
  · exact .inl ⟨List.mem_singleton_self _, rfl⟩

/-- A message with a number is sent for a timer that is found and has run out. -/
theorem mem_sent {s : State I} (h : Inv s) {o : Order} {x : Noted I} {n : Nat}
    (hx : x ∈ messages s o) (hn : x.number = some n) :
    ∃ pos r, s.mng.index r.id = some pos ∧ Tracks s.records r.id (s.mng.objs.pool pos) n r ∧
      x = ⟨r.inter, some n⟩ ∧ (s.mng.objs.pool pos).pb.timeoutMsec ≤ s.now := by
  obtain ⟨pos, hrun, rfl⟩ := List.mem_map.mp hx
  obtain ⟨hused, hdue⟩ := mem_runOut.mp hrun
  obtain ⟨n', r, ht, hlead⟩ | ⟨-, hnew⟩ := h.slot hused
  · rw [ht.msg] at hn
    cases hn
    have hid := ht.id
    rw [← hid] at ht hlead
    exact ⟨pos, r, hlead, ht, ht.msg, hdue⟩
  · rw [hnew] at hn
    cases hn

theorem sent_due {s : State I} (h : Inv s) {id : UInt32} {pos n : Nat} {r : Record I}
    (hi : s.mng.index id = some pos) (ht : Tracks s.records id (s.mng.objs.pool pos) n r)
    {o : Order} (hx : ⟨r.inter, some n⟩ ∈ sent ser s o) :
    (s.mng.objs.pool pos).pb.timeoutMsec ≤ s.now := by
  obtain ⟨pos', r', hi', ht', -, hdue⟩ := mem_sent h ((sent_sublist ser s o).subset hx) rfl
  cases ht.record.symm.trans ht'.record
  rw [ht.id, hi] at hi'
  cases hi'
  exact hdue

/-- A found timer's record behind a `Tick`. -/
theorem swept_appended {s : State I} (h : Inv s) {id : UInt32} {pos n : Nat} {r : Record I}
    (hi : s.mng.index id = some pos) (ht : Tracks s.records id (s.mng.objs.pool pos) n r)
    (o : Order) :
    let r' := r.swept ser s.now.toNat n (sent ser s o)
    (⟨r.inter, some n⟩ ∈ sent ser s o ∧ r'.appended = [(s.now.toNat, ser r.inter)]) ∨
    (⟨r.inter, some n⟩ ∉ sent ser s o ∧ r'.appended = []) := by
  simp only [Record.swept, ht.waits.2, List.nil_append]
  obtain ⟨hmem, hsent⟩ | ⟨hmem, hsent⟩ := sent_number ser h hi ht o
  · rw [hsent]
    exact .inl ⟨hmem, rfl⟩
  · rw [hsent]
    exact .inr ⟨hmem, rfl⟩

/-- What the slot of an id that stays holds. -/
theorem tick_found {s : State I} (h : Inv s) (o : Order) {n : Nat} {r : Record I} {pos : Nat}
    (hi : s.mng.index r.id = some pos) (ht : Tracks s.records r.id (s.mng.objs.pool pos) n r) :
    Found (tick o s.mng s.now).1 n r ↔ r.id ∉ released s o := by
  have hindex : (tick o s.mng s.now).1.index r.id =
      if r.id ∈ released s o then none else some pos := by
    rw [tick_toTable, foldl_release_index, hi]
  constructor
  · rintro ⟨x, hx, -⟩ hmem
    obtain ⟨i, hi', -⟩ := get_eq_some hx
    rw [hindex, if_pos hmem] at hi'
    cases hi'
  · intro hmem
    rw [if_neg hmem] at hindex
    have hkept : Kept (fun x => x = default) (fun x => x.pb.timerId)
        (tick o s.mng s.now).1.toTable := by
      rw [tick_toTable]
      exact foldl_release_kept h.kept _
    refine ⟨_, hkept.get hindex, ?_⟩
    rw [tick_toTable, foldl_release_pool, ht.msg]

/-- A `Tick` keeps the invariant. -/
theorem tickAll_inv {s : State I} (h : Inv s) (o : Order) : Inv (tickAll ser s o) := by
  rw [tickAll_eq]
  refine ⟨?_, fun id pos hi => ?_, h.clock⟩
  · show Kept _ _ (tick o s.mng s.now).1.toTable
    rw [tick_toTable]
    exact foldl_release_kept h.kept _
  · change (tick o s.mng s.now).1.index id = some pos at hi
    rw [tick_toTable, foldl_release_index] at hi
    split at hi
    · cases hi
    · next hstay =>
      obtain ⟨n, r, ht⟩ := h.tracked id pos hi
      have hpool : (tick o s.mng s.now).1.objs.pool pos = s.mng.objs.pool pos := by
        rw [tick_toTable, foldl_release_pool]
      have hwaits : (r.swept ser s.now.toNat n (sent ser s o)).appended = [] := by
        obtain ⟨hmem, -⟩ | ⟨-, hnil⟩ := swept_appended ser h hi ht o
        · exact absurd ((mem_released h hi o).mpr (.inl (sent_due ser h hi ht hmem))) hstay
        · exact hnil
      refine ⟨n, r.swept ser s.now.toNat n (sent ser s o), ?_, ht.id, ⟨ht.waits.1, hwaits⟩, ?_, ?_⟩
      · exact List.getElem?_mapIdx.trans (congrArg (Option.map _) ht.record)
      · exact (congrArg (fun x => x.pb.msg) hpool).trans ht.msg
      · exact (congrArg (fun x => x.pb.timeoutMsec.toNat) hpool).trans ht.timeout

/-- A `Tick` serves a waiting timer rightly, or leaves it. -/
theorem swept_iff {s : State I} (h : Inv s) {pos n : Nat} {r : Record I}
    (hi : s.mng.index r.id = some pos) (ht : Tracks s.records r.id (s.mng.objs.pool pos) n r)
    (hearly : first r.due r.ticks = []) (o : Order) :
    OnTime ser (tick o s.mng s.now).1 n (r.swept ser s.now.toNat n (sent ser s o)) ↔
    (r.fires ≤ s.now.toNat → r.due ≤ s.now.toNat ∧ ⟨r.inter, some n⟩ ∈ sent ser s o) ∧
      (r.id = 0 → (∃ lost, Lost s.mng lost) → r.fires ≤ s.now.toNat) := by
  have htime : (s.mng.objs.pool pos).pb.timeoutMsec ≤ s.now ↔ r.fires ≤ s.now.toNat := by
    rw [UInt64.le_iff_toNat_le, ht.timeout]
  have hstays := tick_found h o hi ht
  rw [mem_released h hi o, htime] at hstays
  have hfires : r.due ≤ s.now.toNat → r.fires ≤ s.now.toNat :=
    (Nat.add_le_add_left (Nat.mod_le ..) r.setAt).trans
  have hfirst : first r.due (r.ticks ++ [s.now.toNat]) =
      if r.due ≤ s.now.toNat then [s.now.toNat] else [] := by
    rw [first_append, if_pos hearly]
  have hserved : (r.swept ser s.now.toNat n (sent ser s o)).appended =
      (first (r.swept ser s.now.toNat n (sent ser s o)).due
        (r.swept ser s.now.toNat n (sent ser s o)).ticks).map (fun t => (t, ser r.inter)) ↔
      (⟨r.inter, some n⟩ ∈ sent ser s o ↔ r.due ≤ s.now.toNat) := by
    show _ = (first r.due (r.ticks ++ [s.now.toNat])).map _ ↔ _
    rw [hfirst]
    obtain ⟨hmem, heq⟩ | ⟨hmem, heq⟩ := swept_appended ser h hi ht o
    · by_cases hdue : r.due ≤ s.now.toNat <;> simp [heq, hmem, hdue]
    · by_cases hdue : r.due ≤ s.now.toNat <;> simp [heq, hmem, hdue]
  refine (and_congr hserved (imp_congr_right fun _ => hstays)).trans ?_
  obtain ⟨hmem, heq⟩ | ⟨hmem, heq⟩ := swept_appended ser h hi ht o
  · have hrun := htime.mp (sent_due ser h hi ht hmem)
    simp [heq, hmem, hrun]
  · simp only [heq, hmem, forall_const, false_iff, and_false, imp_false]
    constructor
    · rintro ⟨-, hstay⟩
      exact ⟨fun hrun => hstay (.inl hrun), fun hid hlost => absurd (.inr ⟨hid, hlost⟩) hstay⟩
    · rintro ⟨hrun, hlost⟩
      refine ⟨fun hdue => hrun (hfires hdue), ?_⟩
      rintro (hrun' | ⟨hid, hslot⟩)
      · exact hrun hrun'
      · exact hrun (hlost hid hslot)

/-- A timer that waits and is claimed to be on time is found. -/
theorem OnTime.tracks {s : State I} (h : Inv s) {n : Nat} {r : Record I}
    (hr : s.records[n]? = some r) (ht : OnTime ser s.mng n r) (hnil : r.appended = []) :
    first r.due r.ticks = [] ∧
    ∃ pos, s.mng.index r.id = some pos ∧ Tracks s.records r.id (s.mng.objs.pool pos) n r := by
  obtain ⟨hsent, hfound⟩ := ht
  rw [hnil] at hsent
  refine ⟨List.map_eq_nil_iff.mp hsent.symm, ?_⟩
  obtain ⟨x, hx, hmsg⟩ := hfound hnil
  obtain ⟨pos, hi, rfl⟩ := get_eq_some hx
  obtain ⟨n', r', ht'⟩ := h.tracked r.id pos hi
  cases congrArg Noted.number (hmsg.symm.trans ht'.msg)
  cases hr.symm.trans ht'.record
  exact ⟨pos, hi, ht'⟩

/-- Nothing more is appended for a timer that has been served. -/
theorem OnTime.done {s : State I} (h : Inv s) {n : Nat} {r : Record I}
    (hr : s.records[n]? = some r) (ht : OnTime ser s.mng n r) (hdone : r.appended ≠ [])
    (o : Order) :
    OnTime ser (tick o s.mng s.now).1 n (r.swept ser s.now.toNat n (sent ser s o)) := by
  have hnone : (sent ser s o).filter (fun x => x.number = some n) = [] := by
    rw [List.filter_eq_nil_iff]
    intro x hx hnumber
    obtain ⟨pos, r', -, ht', -, -⟩ :=
      mem_sent h ((sent_sublist ser s o).subset hx) (of_decide_eq_true hnumber)
    cases hr.symm.trans ht'.record
    exact hdone ht'.waits.2
  have hsame : (r.swept ser s.now.toNat n (sent ser s o)).appended = r.appended := by
    rw [Record.swept, hnone]
    exact List.append_nil _
  have hserved : first r.due r.ticks ≠ [] := by
    intro hnil
    rw [ht.1, hnil] at hdone
    exact hdone rfl
  refine ⟨?_, fun hnil => absurd (hsame.symm.trans hnil) hdone⟩
  show _ = (first r.due (r.ticks ++ [s.now.toNat])).map _
  rw [hsame, first_append, if_neg hserved]
  exact ht.1

/-- A `Tick` keeps every timer on time exactly when it is spared. -/
theorem tickAll_iff {s : State I} (h : Inv s) (hp : Punctual ser s) (o : Order) :
    Punctual ser (tickAll ser s o) ↔ Spared ser s o := by
  have hrecord : ∀ (n : Nat) (r : Record I), s.records[n]? = some r → (tickAll ser s o).records[n]? =
      some (r.swept ser s.now.toNat n (sent ser s o)) := by
    intro n r hr
    rw [tickAll_eq]
    exact List.getElem?_mapIdx.trans (congrArg (Option.map _) hr)
  constructor
  · intro hp'
    have hswept : ∀ (n : Nat) (r : Record I) (pos : Nat), s.mng.index r.id = some pos →
        Tracks s.records r.id (s.mng.objs.pool pos) n r →
        (r.fires ≤ s.now.toNat → r.due ≤ s.now.toNat ∧ ⟨r.inter, some n⟩ ∈ sent ser s o) ∧
          (r.id = 0 → (∃ lost, Lost s.mng lost) → r.fires ≤ s.now.toNat) := by
      intro n r pos hi ht
      have hold := hp n r ht.record ht.waits.1
      have hearly := (OnTime.tracks ser h ht.record hold ht.waits.2).1
      exact (swept_iff ser h hi ht hearly o).mp (hp' n _ (hrecord n r ht.record) ht.waits.1)
    constructor
    · intro r hmem hwaits hfires
      obtain ⟨n, hr⟩ := List.mem_iff_getElem?.mp hmem
      obtain ⟨-, pos, hi, ht⟩ := OnTime.tracks ser h hr (hp n r hr hwaits.1) hwaits.2
      exact ((hswept n r pos hi ht).1 hfires).1
    · intro x hx hnumber
      obtain ⟨n, hn⟩ := Option.ne_none_iff_exists'.mp hnumber
      obtain ⟨pos, r, hi, ht, rfl, hdue⟩ := mem_sent h hx hn
      rw [UInt64.le_iff_toNat_le, ht.timeout] at hdue
      exact ((hswept n r pos hi ht).1 hdue).2
    · intro lost pos hlost hi
      obtain ⟨n, r, ht⟩ := h.tracked 0 pos hi
      have hid := ht.id
      rw [UInt64.le_iff_toNat_le, ht.timeout]
      rw [← hid] at hi ht
      exact (hswept n r pos hi ht).2 hid ⟨lost, hlost⟩
  · intro hs n r' hr' hc
    rw [tickAll_eq] at hr'
    obtain ⟨r, hr, rfl⟩ := Option.map_eq_some_iff.mp (List.getElem?_mapIdx.symm.trans hr')
    have hold := hp n r hr hc
    rw [tickAll_eq]
    by_cases hnil : r.appended = []
    · obtain ⟨hearly, pos, hi, ht⟩ := OnTime.tracks ser h hr hold hnil
      refine (swept_iff ser h hi ht hearly o).mpr ⟨fun hfires => ⟨?_, ?_⟩, fun hid => ?_⟩
      · exact hs.unwrapped r (List.mem_iff_getElem?.mpr ⟨n, hr⟩) ht.waits hfires
      · apply hs.fits _ _ (Option.some_ne_none n)
        refine List.mem_map.mpr ⟨pos, mem_runOut.mpr ⟨(h.kept.found _ pos hi).1, ?_⟩, ht.msg⟩
        rw [UInt64.le_iff_toNat_le, ht.timeout]
        exact hfires
      · rintro ⟨lost, hlost⟩
        rw [hid] at hi
        have hdue := hs.kept lost pos hlost hi
        rwa [UInt64.le_iff_toNat_le, ht.timeout] at hdue
    · exact OnTime.done ser h hr hold hnil o

end Sweep

/-! ## Runs -/

section Runs

variable (ser : I → List UInt8)

theorem setTimer_delay (sec : UInt32) : 1000 * sec.toNat % 2 ^ 32 = (sec * 1000).toNat := by
  rw [UInt32.toNat_mul, Nat.mul_comm]
  rfl

/-- Every step keeps it. -/
theorem step_inv {s s' : State I} {op : Op I} (h : Inv s) (hs : Next ser s op s') : Inv s' := by
  unfold Next next at hs
  cases op with
  | setTimer sec inter =>
    cases hs
    exact setTimerMsec_inv h (setTimer_delay sec) inter
  | setTimerMsec msec inter =>
    cases hs
    exact setTimerMsec_inv h (Nat.mod_eq_of_lt msec.toNat_lt) inter
  | clearTimer timerId =>
    cases hs
    exact clearTimer_inv h timerId
  | tick o =>
    cases hs
    exact tickAll_inv ser h o
  | setTimeMsec sec usec =>
    dsimp only at hs
    split at hs
    · cases hs
      exact ⟨h.kept, h.tracked, timeMsec_lt sec usec⟩
    · cases hs
  | post m =>
    cases hs
    exact ⟨h.kept, h.tracked, h.clock⟩
  | dispatch =>
    dsimp only at hs
    split at hs
    · cases hs
      exact h
    · cases hs
      exact ⟨h.kept, h.tracked, h.clock⟩

/-- A step keeps every timer on time exactly when it is no `Tick` or a spared one. -/
theorem step_iff {s s' : State I} {op : Op I} (h : Inv s) (hp : Punctual ser s)
    (hs : Next ser s op s') : Punctual ser s' ↔ TickSpared ser s op := by
  unfold Next next at hs
  cases op with
  | setTimer sec inter =>
    cases hs
    exact iff_of_true (setTimerMsec_punctual h hp inter) trivial
  | setTimerMsec msec inter =>
    cases hs
    exact iff_of_true (setTimerMsec_punctual h hp inter) trivial
  | clearTimer timerId =>
    cases hs
    exact iff_of_true (clearTimer_punctual h hp timerId) trivial
  | tick o =>
    cases hs
    exact tickAll_iff ser h hp o
  | setTimeMsec sec usec =>
    dsimp only at hs
    split at hs
    · cases hs
      exact iff_of_true hp trivial
    · cases hs
  | post m =>
    cases hs
    exact iff_of_true hp trivial
  | dispatch =>
    dsimp only at hs
    split at hs
    · cases hs
      exact iff_of_true hp trivial
    · cases hs
      exact iff_of_true hp trivial

/-- In a run every timer fires once and on time exactly when every `Tick` meets timers that have not
run out early, and a pipe with room for their messages. -/
theorem timers_punctual_iff (size sec usec : UInt32) (ops : List (Op I)) (s : State I) :
    (Trace.Run (Next ser) (fun s _ => Punctual ser s) (start size sec usec) ops s ∧
      Punctual ser s) ↔
    Trace.Run (Next ser) (TickSpared ser) (start size sec usec) ops s :=
  Trace.Run.always_iff_of_inv (fun _ _ _ => step_inv ser) (fun _ _ _ => step_iff ser)
    (start_inv size sec usec) fun n r hr => by cases hr

end Runs

/-- A timer for 4294968 seconds, the shortest delay that wraps. It becomes one for 704 ms. -/
def wrapped : State Unit := (setTimer (start 1 0 0) 4294968 ()).1

theorem wrapped_records : wrapped.records = [⟨1, (), 0, 4294968000, false, [], []⟩] := rfl

/-- A timer for 4294968 seconds fires in the first second. -/
theorem wrapped_timer_fires_early :
    ¬ ∀ (size sec usec : UInt32) (ops : List (Op Unit)) (s : State Unit),
      Trace.Run (Next fun _ => [1]) (fun _ _ => True) (start size sec usec) ops s →
        Punctual (fun _ => [1]) s := by
  intro h
  have hset : Next (fun _ => [1]) (start 1 0 0) (.setTimer 4294968 ()) wrapped := rfl
  have htime : Next (fun _ => [1]) wrapped (.setTimeMsec 1 0) { wrapped with now := 1000 } :=
    rfl
  have htick : Next (fun _ => [1]) { wrapped with now := 1000 } (.tick HandOver.ascending) _ := rfl
  have hbefore := h 1 0 0 _ _ (.cons trivial hset (.cons trivial htime (.nil _)))
  have hbehind := h 1 0 0 _ _
    (.cons trivial hset (.cons trivial htime (.cons trivial htick (.nil _))))
  have hinv := step_inv _ (step_inv _ (start_inv 1 0 0) hset) htime
  have hspared := (tickAll_iff _ hinv hbefore HandOver.ascending).mp hbehind
  have hmem : ⟨1, (), 0, 4294968000, false, [], []⟩ ∈ wrapped.records := by
    rw [wrapped_records]
    exact List.mem_singleton_self _
  exact absurd (hspared.unwrapped _ hmem ⟨rfl, rfl⟩ (by decide)) (by decide)

end Timers
