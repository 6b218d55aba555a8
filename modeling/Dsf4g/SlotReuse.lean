import Dsf4g.ProxyTransfer

/-!
# Slots of the proxy that are used again

`AcceptConnect` resets neither `recv_offset` nor `send_offset`, so a connection starts
with the buffers its slot had on the free list. Each connection is followed from its
accept on: what was received on it and parsed, and what was given to be sent to it.
-/
namespace SlotReuse

open Base Sockets SendBuffer ProxySvr

/-- The record of a connection. `given` starts with the buffer handed over at its registration. -/
structure Life where
  received : List UInt8
  parsed : List UInt8
  given : List UInt8

/-- The proxy with a record for each connection, in the order of the kernel's count. `holder` is
the connection that was last accepted in a slot. -/
structure World where
  proxy : Proxy
  holder : Nat → Nat
  lives : Nat → Life

inductive Action where
  /-- `EPOLLERR` on a slot. -/
  | error (pos : Nat)
  | accept (a : AcceptAnswer)
  /-- One `recv` of `RecvServerData` and what the loop does before the next. -/
  | recv (pos : Nat) (r : RecvAnswer)

def recvOnce (p : Proxy) (pos : Nat) (r : RecvAnswer) : Except Fault Proxy :=
  if (p.pool pos).ep.recvBuf.length = recvBufLen then .ok p
  else
    match r with
    | .data [] | .fatal => .ok (socketDisconn p (p.pool pos).socketPos)
    | .again => .ok p
    | .data (b :: bs) => consume p pos (stored p pos (b :: bs))

/-- The slot belongs to the server `k` and is in use. -/
def Current (p : Proxy) (k : Nat × Nat) (pos : Nat) : Prop :=
  (p.pool pos).type = clinetSocket ∧ (p.pool pos).svrType = k.1 ∧ (p.pool pos).svrId = k.2

instance (p : Proxy) (k : Nat × Nat) (pos : Nat) : Decidable (Current p k pos) :=
  inferInstanceAs (Decidable (_ ∧ _))

/-- The buffer a server inherits from the connection it had before. -/
def handedOver (p : Proxy) (k : Nat × Nat) : List UInt8 :=
  match slotOf p k with
  | none => []
  | some before => if Current p k before then (p.pool before).ep.sendBuf.val else []

def World.accepted (w : World) (a : AcceptAnswer) (q : Proxy) : World :=
  match w.proxy.freeList, a with
  | pos :: _, .ok _ t id =>
    { proxy := q
      holder := Function.update w.holder pos w.proxy.kernel.opened
      lives := Function.update w.lives w.proxy.kernel.opened ⟨[], [], handedOver w.proxy (t, id)⟩ }
  | _, _ => { w with proxy := q }

/-- The bytes of the calls of `SendOneData` that were made for the server behind connection `c`. -/
def callsFor (conf : CenterConfig) (holder : Nat → Nat) (calls : List Call) (c : Nat) :
    List UInt8 :=
  (calls.filter fun x =>
    holder x.pos = c ∧ destination conf x.frame = (x.svrType, x.svrId)).flatMap Call.frame

def World.heard (w : World) (calls : List Call) (q : Proxy) : World :=
  { w with
    proxy := q
    lives := fun c =>
      { w.lives c with
        given := (w.lives c).given ++ callsFor w.proxy.conf w.holder calls c } }

def transferred (bs : List UInt8) : List Packet :=
  if h : bs.length ≤ 4 ∨ frameLen bs > centerBufLen ∨ frameLen bs > bs.length ∨ frameLen bs = 0 then
    []
  else
    ⟨bs.take (frameLen bs), by rw [List.length_take]; omega⟩ ::
      transferred (bs.drop (frameLen bs))
termination_by bs.length
decreasing_by rw [List.length_drop]; omega

def frameBytes (fs : List Packet) : List UInt8 := (fs.map Subtype.val).flatten

/-- What was received on a connection and parsed is added to its record. -/
def World.read (w : World) (c : Nat) (new : List UInt8) (frames : List Packet) : World :=
  { w with
    lives := Function.update w.lives c
      { w.lives c with
        received := (w.lives c).received ++ new
        parsed := (w.lives c).parsed ++ frameBytes frames } }

def World.recv (w : World) (pos : Nat) (r : RecvAnswer) (q : Proxy) : World :=
  match r with
  | .data (b :: bs) =>
    if (w.proxy.pool pos).ep.recvBuf.length = recvBufLen then { w with proxy := q }
    else
      (w.heard (q.calls.drop w.proxy.calls.length) q).read (w.holder pos)
        ((b :: bs).take (recvBufLen - (w.proxy.pool pos).ep.recvBuf.length))
        (transferred (stored w.proxy pos (b :: bs)))
  | _ => { w with proxy := q }

def next (w : World) : Action → Option World
  | .error pos => some { w with proxy := socketRelease w.proxy pos }
  | .accept a =>
    match acceptConnect w.proxy a with
    | .error _ => none
    | .ok q => some (w.accepted a q)
  | .recv pos r =>
    match recvOnce w.proxy pos r with
    | .error _ => none
    | .ok q => some (w.recv pos r q)

def initial (conf : CenterConfig) (answer : Nat → SendAnswer) : World where
  proxy := initNetwork conf answer
  holder := fun _ => 0
  lives := fun _ => ⟨[], [], []⟩

def Taken (p : Proxy) (pos : Nat) : Prop := (p.pool pos).type = clinetSocket

/-- What was parsed and what waits to be parsed was received on the connection, and what was sent
and what waits to be sent was given for it. -/
structure Own (k : Kernel) (c : Nat) (e : Endpoint) (l : Life) : Prop where
  input : (l.parsed ++ e.recvBuf).Sublist l.received
  output : (k.wire c ++ e.sendBuf.val).Sublist l.given

/-- A slot can be taken with empty buffers, and every connection has its own bytes only, while it
has its slot and after. -/
structure Separate (w : World) : Prop where
  clean : ∀ pos ∈ w.proxy.freeList,
    (w.proxy.pool pos).ep.recvBuf = [] ∧ (w.proxy.pool pos).ep.sendBuf.val = []
  own : ∀ pos, Taken w.proxy pos →
    Own w.proxy.kernel (w.holder pos) (w.proxy.pool pos).ep (w.lives (w.holder pos))
  parsed : ∀ c, (w.lives c).parsed.Sublist (w.lives c).received
  sent : ∀ c, (w.proxy.kernel.wire c).Sublist (w.lives c).given

/-- The entry of a server is empty or still belongs to it. -/
def Fresh (p : Proxy) (k : Nat × Nat) : Prop := ∀ pos ∈ slotOf p k, Current p k pos

instance (p : Proxy) (k : Nat × Nat) : Decidable (Fresh p k) :=
  inferInstanceAs (Decidable (∀ pos ∈ slotOf p k, Current p k pos))

/-- The actions that keep connections apart. -/
def Guard (p : Proxy) : Action → Prop
  | .error pos => pos ∉ p.freeList
  | .accept (.ok fd t id) =>
    Fresh p (t, id) ∧
      ∀ i < p.conf.maxSvrNum, (p.pool i).type = clinetSocket → (p.pool i).ep.fd ≠ fd
  | .recv pos (.data (b :: bs)) =>
    (p.pool pos).ep.recvBuf.length = recvBufLen ∨
      ((p.pool pos).type = clinetSocket ∧ malformed (stored p pos (b :: bs)) = false ∧
        ∀ f ∈ transferred (stored p pos (b :: bs)), Fresh p (destination p.conf f.val))
  | _ => True

/-! ## The invariant -/

structure Idle (p : Proxy) (pos : Nat) : Prop where
  lt : pos < p.conf.maxSvrNum
  type : (p.pool pos).type = 0
  recvBuf : (p.pool pos).ep.recvBuf = []
  sendBuf : (p.pool pos).ep.sendBuf.val = []

theorem cleared_idle {p : Proxy} {pos : Nat} (hlt : pos < p.conf.maxSvrNum)
    (h : p.pool pos = SvrSocket.cleared pos) : Idle p pos :=
  ⟨hlt, by rw [h]; rfl, by rw [h]; rfl, by rw [h]; rfl⟩

theorem Idle.congr {p q : Proxy} {pos : Nat} (h : Idle p pos) (hconf : q.conf = p.conf)
    (hpool : q.pool pos = p.pool pos) : Idle q pos := by
  refine ⟨?_, ?_, ?_, ?_⟩
  · rw [hconf]
    exact h.lt
  · rw [hpool]
    exact h.type
  · rw [hpool]
    exact h.recvBuf
  · rw [hpool]
    exact h.sendBuf

structure Inv (w : World) : Prop where
  nodup : w.proxy.freeList.Nodup
  free : ∀ pos ∈ w.proxy.freeList, Idle w.proxy pos
  socketPos : ∀ pos, (w.proxy.pool pos).socketPos = pos
  lt : ∀ pos, Taken w.proxy pos → pos < w.proxy.conf.maxSvrNum
  opened : ∀ pos, Taken w.proxy pos → w.holder pos < w.proxy.kernel.opened
  distinct : ∀ i j, Taken w.proxy i → Taken w.proxy j → w.holder i = w.holder j → i = j
  /-- The descriptor of a slot leads to its own connection or nowhere. -/
  conn : ∀ pos, Taken w.proxy pos → (w.proxy.pool pos).ep.fd ≠ sockClosed →
    ∀ c, w.proxy.kernel.conns (w.proxy.pool pos).ep.fd = some c → c = w.holder pos
  unused : ∀ c, w.proxy.kernel.opened ≤ c → w.proxy.kernel.wire c = []
  own : ∀ pos, Taken w.proxy pos →
    Own w.proxy.kernel (w.holder pos) (w.proxy.pool pos).ep (w.lives (w.holder pos))
  parsed : ∀ c, (w.lives c).parsed.Sublist (w.lives c).received
  sent : ∀ c, (w.proxy.kernel.wire c).Sublist (w.lives c).given

theorem Inv.separate {w : World} (h : Inv w) : Separate w :=
  ⟨fun pos hpos => ⟨(h.free pos hpos).recvBuf, (h.free pos hpos).sendBuf⟩, h.own, h.parsed, h.sent⟩

theorem Inv.not_free {w : World} (h : Inv w) {pos : Nat} (ht : Taken w.proxy pos) :
    pos ∉ w.proxy.freeList := by
  intro hfree
  have htype := (h.free pos hfree).type
  rw [ht] at htype
  cases htype

theorem initial_inv (conf : CenterConfig) (answer : Nat → SendAnswer) :
    Inv (initial conf answer) := by
  have hpool : ∀ pos, ((initial conf answer).proxy.pool pos).socketPos = pos ∧
      ¬ Taken (initial conf answer).proxy pos ∧
      (pos ≠ 0 → (initial conf answer).proxy.pool pos = SvrSocket.cleared pos) := by
    intro pos
    by_cases hpos : pos = 0
    · subst hpos
      exact ⟨rfl, (by decide : listenSocket ≠ clinetSocket), fun h => absurd rfl h⟩
    · have hcleared : (initial conf answer).proxy.pool pos = SvrSocket.cleared pos :=
        Function.update_of_ne hpos ..
      refine ⟨by rw [hcleared]; rfl, ?_, fun _ => hcleared⟩
      rw [Taken, hcleared]
      exact (by decide : (0 : Nat) ≠ clinetSocket)
  have hnone : ∀ {P : Prop} {pos : Nat}, Taken (initial conf answer).proxy pos → P :=
    fun {_ pos} ht => absurd ht (hpool pos).2.1
  constructor
  · exact (initNetwork_sound conf answer).nodup
  · intro pos hfree
    obtain ⟨hlt, htype, -⟩ := (initNetwork_sound conf answer).free pos hfree
    have hne : pos ≠ 0 := by
      rintro rfl
      have hlisten : listenSocket = 0 := htype
      cases hlisten
    exact cleared_idle hlt ((hpool pos).2.2 hne)
  · exact fun pos => (hpool pos).1
  · exact fun _ ht => hnone ht
  · exact fun _ ht => hnone ht
  · exact fun _ _ ht _ _ => hnone ht
  · exact fun _ ht => hnone ht
  · exact fun _ _ => rfl
  · exact fun _ ht => hnone ht
  · exact fun _ => List.Sublist.refl _
  · exact fun _ => List.Sublist.refl _

/-! ## What a step can do -/

/-- Slots may be released, and descriptors closed; nothing is stored or sent. -/
theorem Inv.quiet {w : World} (h : Inv w) {q : Proxy} (hlater : w.proxy.kernel.Later q.kernel)
    (hwire : q.kernel.wire = w.proxy.kernel.wire) (hconf : q.conf = w.proxy.conf)
    (hnodup : q.freeList.Nodup) (hfree : ∀ pos ∈ q.freeList, Idle q pos)
    (hpos : ∀ pos, (q.pool pos).socketPos = pos)
    (htaken : ∀ pos, Taken q pos → Taken w.proxy pos ∧
      (q.pool pos).ep.recvBuf = (w.proxy.pool pos).ep.recvBuf ∧
      (q.pool pos).ep.sendBuf = (w.proxy.pool pos).ep.sendBuf ∧
      ((q.pool pos).ep.fd = (w.proxy.pool pos).ep.fd ∨ (q.pool pos).ep.fd = sockClosed)) :
    Inv { w with proxy := q } where
  nodup := hnodup
  free := hfree
  socketPos := hpos
  lt pos ht := by
    have hlt := h.lt pos (htaken pos ht).1
    rw [← hconf] at hlt
    exact hlt
  opened pos ht := Nat.lt_of_lt_of_le (h.opened pos (htaken pos ht).1) hlater.opened
  distinct i j hi hj := h.distinct i j (htaken i hi).1 (htaken j hj).1
  conn pos ht hopen c hc := by
    obtain ⟨hold, -, -, hfd⟩ := htaken pos ht
    have hfd := hfd.resolve_right hopen
    have hopen : (q.pool pos).ep.fd ≠ sockClosed := hopen
    have hc : q.kernel.conns (q.pool pos).ep.fd = some c := hc
    rw [hfd] at hopen hc
    exact h.conn pos hold hopen c (hlater.conns _ c hc)
  unused c hc := by
    have hold := h.unused c (Nat.le_trans hlater.opened hc)
    rw [← hwire] at hold
    exact hold
  own pos ht := by
    obtain ⟨hold, hrecv, hsend, -⟩ := htaken pos ht
    have hown := h.own pos hold
    refine ⟨?_, ?_⟩
    · rw [hrecv]
      exact hown.input
    · rw [hsend, hwire]
      exact hown.output
  parsed := h.parsed
  sent c := by
    have hold := h.sent c
    rw [← hwire] at hold
    exact hold

/-- One slot in use gets a new endpoint, and its connection a new record. -/
theorem Inv.replace {w : World} (h : Inv w) {pos : Nat} (ht : Taken w.proxy pos) {e : Endpoint}
    {l : Life} {q : Proxy} (hpool : q.pool = (setEp w.proxy pos e).pool)
    (hfree : q.freeList = w.proxy.freeList) (hconf : q.conf = w.proxy.conf)
    (hlater : w.proxy.kernel.Later q.kernel)
    (hothers : ∀ c, c ≠ w.holder pos → q.kernel.wire c = w.proxy.kernel.wire c)
    (hfd : e.fd = (w.proxy.pool pos).ep.fd ∨ e.fd = sockClosed)
    (hown : Own q.kernel (w.holder pos) e l) :
    Inv ⟨q, w.holder, Function.update w.lives (w.holder pos) l⟩ := by
  have hself : q.pool pos = { w.proxy.pool pos with ep := e } := by
    rw [hpool]
    exact Function.update_self ..
  have hother : ∀ i, i ≠ pos → q.pool i = w.proxy.pool i := by
    intro i hi
    rw [hpool]
    exact Function.update_of_ne hi ..
  have htaken : ∀ i, Taken q i → Taken w.proxy i := by
    intro i hi
    by_cases hip : i = pos
    · subst hip
      exact ht
    · rw [Taken, hother i hip] at hi
      exact hi
  have hne : ∀ i, Taken w.proxy i → i ≠ pos → w.holder i ≠ w.holder pos :=
    fun i hi hip heq => hip (h.distinct i pos hi ht heq)
  constructor
  case nodup =>
    rw [hfree]
    exact h.nodup
  case free =>
    intro i hi
    rw [hfree] at hi
    have hip : i ≠ pos := by
      rintro rfl
      exact h.not_free ht hi
    exact (h.free i hi).congr hconf (hother i hip)
  case socketPos =>
    intro i
    by_cases hip : i = pos
    · subst hip
      rw [hself]
      exact h.socketPos i
    · rw [hother i hip]
      exact h.socketPos i
  case lt =>
    intro i hi
    rw [hconf]
    exact h.lt i (htaken i hi)
  case opened => exact fun i hi => Nat.lt_of_lt_of_le (h.opened i (htaken i hi)) hlater.opened
  case distinct => exact fun i j hi hj => h.distinct i j (htaken i hi) (htaken j hj)
  case conn =>
    intro i hi hopen c hc
    have hold := hlater.conns _ c hc
    by_cases hip : i = pos
    · subst hip
      rw [hself] at hopen hold
      have hfd := hfd.resolve_right hopen
      rw [hfd] at hopen hold
      exact h.conn i ht hopen c hold
    · rw [hother i hip] at hopen hold
      exact h.conn i (htaken i hi) hopen c hold
  case unused =>
    intro c hc
    have hc : w.proxy.kernel.opened ≤ c := Nat.le_trans hlater.opened hc
    rw [hothers c (Nat.ne_of_gt (Nat.lt_of_lt_of_le (h.opened pos ht) hc))]
    exact h.unused c hc
  case own =>
    intro i hi
    show Own q.kernel (w.holder i) (q.pool i).ep
      (Function.update w.lives (w.holder pos) l (w.holder i))
    by_cases hip : i = pos
    · subst hip
      rw [hself, Function.update_self]
      exact hown
    · have hne := hne i (htaken i hi) hip
      have hold := h.own i (htaken i hi)
      rw [hother i hip, Function.update_of_ne hne]
      refine ⟨hold.input, ?_⟩
      rw [hothers _ hne]
      exact hold.output
  case parsed =>
    refine (Function.forall_update_iff w.lives fun _ x => x.parsed.Sublist x.received).mpr ?_
    exact ⟨(List.sublist_append_left _ _).trans hown.input, fun c _ => h.parsed c⟩
  case sent =>
    refine (Function.forall_update_iff w.lives fun c x => (q.kernel.wire c).Sublist x.given).mpr ?_
    refine ⟨(List.sublist_append_left _ _).trans hown.output, fun c hc => ?_⟩
    rw [hothers c hc]
    exact h.sent c

/-! ## Releases -/

/-- A slot is cleared and put behind slots that were free before. -/
theorem Inv.freed {w : World} (h : Inv w) {pos : Nat} {l : List Nat} {q : Proxy}
    (hlt : pos < w.proxy.conf.maxSvrNum) (hl : l.Sublist w.proxy.freeList) (hnew : pos ∉ l)
    (hlater : w.proxy.kernel.Later q.kernel) (hwire : q.kernel.wire = w.proxy.kernel.wire)
    (hconf : q.conf = w.proxy.conf) (hlist : q.freeList = l ++ [pos])
    (hpool : ∀ i, q.pool i = if i = pos then SvrSocket.cleared pos else w.proxy.pool i) :
    Inv { w with proxy := q } := by
  refine h.quiet hlater hwire hconf ?_ ?_ ?_ ?_
  · rw [hlist]
    refine (h.nodup.sublist hl).append (List.nodup_singleton pos) ?_
    intro i hi hip
    rw [List.mem_singleton.mp hip] at hi
    exact hnew hi
  · intro i hi
    by_cases hip : i = pos
    · subst hip
      refine cleared_idle (by rw [hconf]; exact hlt) ?_
      rw [hpool, if_pos rfl]
    · rw [hlist, List.mem_append, List.mem_singleton] at hi
      refine (h.free i (hl.subset (hi.resolve_right hip))).congr hconf ?_
      rw [hpool, if_neg hip]
  · intro i
    rw [hpool i]
    split
    · next hip => exact hip.symm
    · exact h.socketPos i
  · intro i ht
    have hip : i ≠ pos := by
      rintro rfl
      rw [Taken, hpool, if_pos rfl] at ht
      cases ht
    rw [Taken, hpool i, if_neg hip] at ht
    rw [hpool i, if_neg hip]
    exact ⟨ht, rfl, rfl, .inl rfl⟩

theorem Inv.release {w : World} (h : Inv w) {pos : Nat} (hfree : pos ∉ w.proxy.freeList) :
    Inv { w with proxy := socketRelease w.proxy pos } := by
  by_cases hlt : pos < w.proxy.conf.maxSvrNum
  · have heq := socketRelease_of_lt hlt
    refine h.freed hlt (List.Sublist.refl _) hfree ?_ ?_ (socketRelease_conf w.proxy pos)
      (socketRelease_freeList hlt) (socketRelease_pool hlt)
    · rw [heq]
      exact later_close _ _
    · rw [heq]
      rfl
  · have heq : socketRelease w.proxy pos = w.proxy := if_pos (Nat.not_lt.mp hlt)
    rw [heq]
    exact h

theorem Inv.disconn {w : World} (h : Inv w) (pos : Nat) :
    Inv { w with proxy := socketDisconn w.proxy pos } := by
  by_cases hlt : pos < w.proxy.conf.maxSvrNum
  · obtain ⟨hconf, hlist, -⟩ := socketDisconn_tables w.proxy pos
    have heq : socketDisconn w.proxy pos =
        { setEp w.proxy pos { (w.proxy.pool pos).ep with fd := sockClosed } with
          kernel := w.proxy.kernel.close (w.proxy.pool pos).ep.fd } :=
      if_neg (Nat.not_le.mpr hlt)
    have hpool : ∀ i, (socketDisconn w.proxy pos).pool i = w.proxy.pool i ∨
        (socketDisconn w.proxy pos).pool i =
          { w.proxy.pool i with ep := { (w.proxy.pool i).ep with fd := sockClosed } } := by
      intro i
      rw [heq]
      by_cases hip : i = pos
      · subst hip
        exact .inr (Function.update_self ..)
      · exact .inl (Function.update_of_ne hip ..)
    refine h.quiet ?_ ?_ hconf ?_ ?_ ?_ ?_
    · rw [heq]
      exact later_close _ _
    · rw [heq]
      rfl
    · rw [hlist]
      exact h.nodup
    · intro i hi
      rw [hlist] at hi
      have hidle := h.free i hi
      obtain hi | hi := hpool i
      · exact hidle.congr hconf hi
      · exact ⟨by rw [hconf]; exact hidle.lt, by rw [hi]; exact hidle.type,
          by rw [hi]; exact hidle.recvBuf, by rw [hi]; exact hidle.sendBuf⟩
    · intro i
      obtain hi | hi := hpool i
      · rw [hi]
        exact h.socketPos i
      · rw [hi]
        exact h.socketPos i
    · intro i ht
      obtain hi | hi := hpool i
      · rw [Taken, hi] at ht
        rw [hi]
        exact ⟨ht, rfl, rfl, .inl rfl⟩
      · rw [Taken, hi] at ht
        rw [hi]
        exact ⟨ht, rfl, rfl, .inr rfl⟩
  · have heq : socketDisconn w.proxy pos = w.proxy := if_pos (Nat.not_lt.mp hlt)
    rw [heq]
    exact h

/-! ## Transfers -/

theorem heard_nil (w : World) : w.heard [] w.proxy = w := by
  simp [World.heard, callsFor]

theorem callsFor_append (conf : CenterConfig) (holder : Nat → Nat) (a b : List Call) (c : Nat) :
    callsFor conf holder (a ++ b) c = callsFor conf holder a c ++ callsFor conf holder b c := by
  simp [callsFor]

theorem heard_heard (w : World) {a b : List Call} {p q : Proxy} (h : p.conf = w.proxy.conf) :
    (w.heard a p).heard b q = w.heard (a ++ b) q := by
  simp [World.heard, callsFor_append, h]

/-- A call for the owner of a slot is recorded for the connection in the slot. -/
theorem heard_call (w : World) {k : Nat × Nat} {pos : Nat} (hc : Current w.proxy k pos)
    {f : Packet} (hk : destination w.proxy.conf f.val = k) (q : Proxy) :
    w.heard [⟨pos, (w.proxy.pool pos).svrType, (w.proxy.pool pos).svrId, f.val⟩] q =
      ⟨q, w.holder, Function.update w.lives (w.holder pos)
        { w.lives (w.holder pos) with given := (w.lives (w.holder pos)).given ++ f.val }⟩ := by
  obtain ⟨-, htype, hid⟩ := hc
  have hlives : ∀ c, callsFor w.proxy.conf w.holder
      [⟨pos, (w.proxy.pool pos).svrType, (w.proxy.pool pos).svrId, f.val⟩] c =
        if c = w.holder pos then f.val else [] := by
    intro c
    by_cases hcp : c = w.holder pos
    · simp [callsFor, hcp, hk, htype, hid]
    · simp [callsFor, hcp, Ne.symm hcp]
  simp only [World.heard, hlives, World.mk.injEq, true_and]
  funext c
  by_cases hcp : c = w.holder pos
  · subst hcp
    simp
  · simp [hcp]

/-- A frame is sent or kept for the connection in the slot of the server it is for. -/
theorem Inv.send {w : World} (h : Inv w) {k : Nat × Nat} {pos : Nat} (hc : Current w.proxy k pos)
    {f : Packet} (hk : destination w.proxy.conf f.val = k) :
    Inv (w.heard [⟨pos, (w.proxy.pool pos).svrType, (w.proxy.pool pos).svrId, f.val⟩]
      (sendOneData w.proxy pos f)) := by
  have hown := h.own pos hc.1
  have hd := sendOneData_drawn (h.conn pos hc.1) f
  rw [heard_call w hc hk]
  refine h.replace hc.1 (e := (SendBuffer.sendOneData w.proxy.kernel (w.proxy.pool pos).ep f).ep)
    rfl rfl rfl (later_sendOneData _ _ _) hd.others (sendOneData_fd _ _ _) ⟨?_, hd.mine _ hown.output⟩
  obtain hrecv | hrecv := hd.recvBuf
  · rw [hrecv]
    exact hown.input
  · rw [hrecv, List.append_nil]
    exact (List.sublist_append_left _ _).trans hown.input

theorem Fresh.current {p : Proxy} {k : Nat × Nat} {pos : Nat} (h : Fresh p k)
    (hat : At p k.1 k.2 pos) : Current p k pos :=
  h pos (slotOf_eq_some.mpr hat)

theorem Current.same {p q : Proxy} (hs : Same p q) {k : Nat × Nat} {pos : Nat}
    (h : Current p k pos) : Current q k pos := by
  rw [Current, hs.type, hs.svrType, hs.svrId]
  exact h

/-- What the transfers since `w` have led to. -/
def Transferred (w : World) (q : Proxy) : Prop :=
  ∃ calls, q.calls = w.proxy.calls ++ calls ∧ Same w.proxy q ∧ Inv (w.heard calls q)

theorem Transferred.refl {w : World} (h : Inv w) : Transferred w w.proxy :=
  ⟨[], (List.append_nil _).symm, Same.refl _, by rw [heard_nil]; exact h⟩

theorem Transferred.transfer {w : World} {p q : Proxy} {f : Packet} (h : Transferred w p)
    (hfresh : Fresh w.proxy (destination w.proxy.conf f.val)) (hq : doTransfer p f = .ok q) :
    Transferred w q := by
  have hconf : p.conf = w.proxy.conf := by
    obtain ⟨-, -, hs, -⟩ := h
    exact hs.conf
  refine doTransfer_induct (motive := Transferred w) (fun p' pos hp' hat => ?_) h hq
  obtain ⟨calls, hcalls, hs, hinv⟩ := hp'
  rw [hconf] at hat
  have hcurrent := (hfresh.current ((at_congr hs.svrs).mp hat)).same hs
  have hinv' := hinv.send hcurrent (f := f) (by rw [← hs.conf]; rfl)
  rw [heard_heard w hs.conf] at hinv'
  refine ⟨_, ?_, hs.trans (sendOneData_same ⟨_, _, hat⟩ f), hinv'⟩
  rw [← List.append_assoc, ← hcalls]
  rfl

/-- Without a bad length the loop hands the frames of the buffer to `DoTransfer` and leaves what
is behind them. -/
theorem forward_transferred {w : World} {p : Proxy} {pos : Nat} {bs : List UInt8} {o : Forwarded}
    (h : Transferred w p) (hgood : malformed bs = false)
    (hfresh : ∀ f ∈ transferred bs, Fresh w.proxy (destination w.proxy.conf f.val))
    (ho : forward p pos bs = .ok o) :
    Transferred w o.proxy ∧ frameBytes (transferred bs) ++ o.rest = bs := by
  induction p, bs using forward.induct with
  | case1 p bs hlen =>
    rw [forward, if_pos hlen] at ho
    cases ho
    rw [transferred, dif_pos (.inl hlen)]
    exact ⟨h, rfl⟩
  | case2 p bs hlen hbad =>
    rw [malformed, if_neg hlen, if_pos hbad] at hgood
    cases hgood
  | case3 p bs hlen hbad hmore =>
    rw [forward, if_neg hlen, dif_neg hbad, if_pos hmore] at ho
    cases ho
    rw [transferred, dif_pos (.inr (.inr (.inl hmore)))]
    exact ⟨h, rfl⟩
  | case4 p bs hlen hbad hmore hzero =>
    rw [forward, if_neg hlen, dif_neg hbad, if_neg hmore, if_pos hzero] at ho
    cases ho
  | case5 p bs hlen hbad hmore hzero e he =>
    rw [forward, if_neg hlen, dif_neg hbad, if_neg hmore, if_neg hzero, he] at ho
    cases ho
  | case6 p bs hlen hbad hmore hzero p' he ih =>
    rw [forward, if_neg hlen, dif_neg hbad, if_neg hmore, if_neg hzero, he] at ho
    rw [malformed, if_neg hlen, if_neg hbad, if_neg hmore, if_neg hzero] at hgood
    rw [transferred, dif_neg (by omega)] at hfresh ⊢
    obtain ⟨hp', hrest⟩ := ih (h.transfer (hfresh _ (List.mem_cons_self ..)) he) hgood
      (fun f hf => hfresh f (List.mem_cons_of_mem _ hf)) ho
    refine ⟨hp', ?_⟩
    simp only [frameBytes, List.map_cons, List.flatten_cons, List.append_assoc] at hrest ⊢
    rw [hrest, List.take_append_drop]

/-! ## Receiving -/

def World.store (w : World) (pos : Nat) (bs : List UInt8) : World :=
  { w with proxy := setEp w.proxy pos { (w.proxy.pool pos).ep with recvBuf := bs } }

theorem Inv.read {w : World} (h : Inv w) {pos : Nat} (ht : Taken w.proxy pos)
    (bs new : List UInt8) (frames : List Packet)
    (hbs : ((w.lives (w.holder pos)).parsed ++ frameBytes frames ++ bs).Sublist
      ((w.lives (w.holder pos)).received ++ new)) :
    Inv ((w.store pos bs).read (w.holder pos) new frames) :=
  h.replace ht (e := { (w.proxy.pool pos).ep with recvBuf := bs }) rfl rfl rfl
    (Kernel.Later.refl _) (fun _ _ => rfl) (.inl rfl) ⟨hbs, (h.own pos ht).output⟩

/-- Storing, transferring and moving the rest to the front add one entry to the record. -/
theorem read_heard_read (w : World) (pos c : Nat) (bs rest new : List UInt8) (calls : List Call)
    (frames : List Packet) (q : Proxy) :
    (((((w.store pos bs).read c new []).heard calls q).store pos rest).read c [] frames) =
      (w.heard calls (setEp q pos { (q.pool pos).ep with recvBuf := rest })).read c new frames := by
  simp only [World.read, World.heard, World.store, World.mk.injEq, true_and]
  funext d
  by_cases hd : d = c
  · subst hd
    simp [frameBytes, setEp, setSocket]
  · simp [hd, setEp, setSocket]

theorem stored_eq (p : Proxy) (pos : Nat) (bytes : List UInt8) :
    stored p pos bytes = (p.pool pos).ep.recvBuf ++
      bytes.take (recvBufLen - (p.pool pos).ep.recvBuf.length) := rfl

/-- A turn of the loop without a bad length. -/
theorem Inv.consume {w : World} {pos : Nat} {bytes : List UInt8} {q : Proxy} (h : Inv w)
    (ht : Taken w.proxy pos) (hgood : malformed (stored w.proxy pos bytes) = false)
    (hfresh : ∀ f ∈ transferred (stored w.proxy pos bytes),
      Fresh w.proxy (destination w.proxy.conf f.val))
    (hq : consume w.proxy pos (stored w.proxy pos bytes) = .ok q) :
    Inv ((w.heard (q.calls.drop w.proxy.calls.length) q).read (w.holder pos)
      (bytes.take (recvBufLen - (w.proxy.pool pos).ep.recvBuf.length))
      (transferred (stored w.proxy pos bytes))) := by
  simp only [ProxySvr.consume] at hq
  split at hq
  · cases hq
  · next o ho =>
    cases hq
    have hbuf : ((w.lives (w.holder pos)).parsed ++ stored w.proxy pos bytes).Sublist
        ((w.lives (w.holder pos)).received ++
          bytes.take (recvBufLen - (w.proxy.pool pos).ep.recvBuf.length)) := by
      rw [stored_eq, ← List.append_assoc]
      exact (h.own pos ht).input.append (List.Sublist.refl _)
    have hstored := h.read ht (stored w.proxy pos bytes) _ []
      (by rw [frameBytes, List.map_nil, List.flatten_nil, List.append_nil]; exact hbuf)
    have hsame := setRecvBuf_same w.proxy pos (stored w.proxy pos bytes)
    obtain ⟨⟨calls, hcalls, hs, hinv⟩, hrest⟩ := forward_transferred (.refl hstored) hgood
      (fun f hf i hi => Current.same hsame (hfresh f hf i hi)) ho
    have htaken : Taken o.proxy pos := (hs.type pos).trans ((hsame.type pos).trans ht)
    have hmoved := hinv.read htaken o.rest [] (transferred (stored w.proxy pos bytes)) (by
        simp only [World.heard, World.read, World.store, Function.update_self, frameBytes, List.map_nil,
          List.flatten_nil, List.append_nil]
        rw [List.append_assoc, ← frameBytes, hrest]
        exact hbuf)
    have hdrop : (setEp o.proxy pos { (o.proxy.pool pos).ep with recvBuf := o.rest }).calls.drop
        w.proxy.calls.length = calls := by
      have hcalls : o.proxy.calls = w.proxy.calls ++ calls := hcalls
      have hsetEp : (setEp o.proxy pos { (o.proxy.pool pos).ep with recvBuf := o.rest }).calls =
          o.proxy.calls := rfl
      rw [hsetEp, hcalls, List.drop_left]
    rw [hdrop, ← read_heard_read w pos _ (stored w.proxy pos bytes)]
    exact hmoved

/-- What was received is parsed for its own connection. -/
theorem Inv.recv {w : World} {pos : Nat} {r : RecvAnswer} {q : Proxy} (h : Inv w)
    (hg : Guard w.proxy (.recv pos r)) (hq : recvOnce w.proxy pos r = .ok q) :
    Inv (w.recv pos r q) := by
  simp only [recvOnce] at hq
  split at hq
  · next hfull =>
    cases hq
    simp only [World.recv]
    split
    · rw [if_pos hfull]
      exact h
    · exact h
  · next hfull =>
    split at hq
    · cases hq
      exact h.disconn _
    · cases hq
      exact h.disconn _
    · cases hq
      exact h
    · obtain ⟨ht, hgood, hfresh⟩ := hg.resolve_left hfull
      simp only [World.recv, if_neg hfull]
      exact h.consume ht hgood hfresh hq

/-! ## Accepting -/

/-- A failed accept returns the slot. -/
theorem Inv.returned {w : World} (h : Inv w) {pos : Nat} {rest : List Nat}
    (hf : w.proxy.freeList = pos :: rest) {s : SvrSocket} {k : Kernel}
    (hk : w.proxy.kernel.Later (k.close s.ep.fd)) (hw : k.wire = w.proxy.kernel.wire) :
    Inv { w with proxy := socketRelease (takeSlot w.proxy pos rest s k) pos } := by
  have hidle := h.free pos (by rw [hf]; exact List.mem_cons_self ..)
  have hnd := List.nodup_cons.mp (hf ▸ h.nodup)
  have hlt : pos < (takeSlot w.proxy pos rest s k).conf.maxSvrNum := hidle.lt
  have hkernel := returned_kernel hidle.lt rest s k
  refine h.freed hidle.lt (by rw [hf]; exact List.sublist_cons_self ..) hnd.1 ?_ ?_
    (socketRelease_conf ..) (socketRelease_freeList hlt) (returned_pool hidle.lt rest s k)
  · rw [hkernel]
    exact hk
  · rw [hkernel]
    exact hw

/-- A slot from the free list goes to a new connection with a descriptor of its own. -/
theorem Inv.connect {w : World} (h : Inv w) {pos : Nat} {rest : List Nat}
    (hf : w.proxy.freeList = pos :: rest) {s : SvrSocket} {fd : Nat}
    (hpos : s.socketPos = pos) (hfd : s.ep.fd = fd)
    (hrecv : s.ep.recvBuf = []) (hsend : s.ep.sendBuf.val = [])
    (hfresh : ∀ i < w.proxy.conf.maxSvrNum, Taken w.proxy i → (w.proxy.pool i).ep.fd ≠ fd)
    (handed : List UInt8) :
    Inv ⟨takeSlot w.proxy pos rest s (w.proxy.kernel.bind fd),
      Function.update w.holder pos w.proxy.kernel.opened,
      Function.update w.lives w.proxy.kernel.opened ⟨[], [], handed⟩⟩ := by
  have hidle := h.free pos (by rw [hf]; exact List.mem_cons_self ..)
  have hnd := List.nodup_cons.mp (hf ▸ h.nodup)
  have hpool := takeSlot_pool w.proxy pos rest s (w.proxy.kernel.bind fd)
  have hslots : ∀ i, Taken (takeSlot w.proxy pos rest s (w.proxy.kernel.bind fd)) i →
      (i = pos ∧ Function.update w.holder pos w.proxy.kernel.opened i = w.proxy.kernel.opened) ∨
      (i ≠ pos ∧ Taken w.proxy i ∧
        Function.update w.holder pos w.proxy.kernel.opened i = w.holder i) := by
    intro i hi
    by_cases hip : i = pos
    · exact .inl ⟨hip, by rw [hip, Function.update_self]⟩
    · rw [Taken, hpool i, if_neg hip] at hi
      exact .inr ⟨hip, hi, Function.update_of_ne hip ..⟩
  constructor
  case nodup => exact hnd.2
  case free =>
    intro i hi
    have hip : i ≠ pos := by
      rintro rfl
      exact hnd.1 hi
    refine (h.free i ?_).congr rfl (by rw [hpool, if_neg hip])
    rw [hf]
    exact List.mem_cons_of_mem _ hi
  case socketPos =>
    intro i
    rw [hpool i]
    split
    · next hip => rw [hpos, hip]
    · exact h.socketPos i
  case lt =>
    intro i hi
    obtain ⟨rfl, -⟩ | ⟨-, hi, -⟩ := hslots i hi
    · exact hidle.lt
    · exact h.lt i hi
  case opened =>
    intro i hi
    dsimp only
    obtain ⟨-, hnew⟩ | ⟨-, hi, hold⟩ := hslots i hi
    · rw [hnew]
      exact Nat.lt_succ_self _
    · rw [hold]
      exact Nat.lt_succ_of_lt (h.opened i hi)
  case distinct =>
    intro i j hi hj hij
    dsimp only at hij
    obtain ⟨hip, hinew⟩ | ⟨-, hi, hiold⟩ := hslots i hi
    · obtain ⟨hjp, -⟩ | ⟨-, hj, hjold⟩ := hslots j hj
      · rw [hip, hjp]
      · rw [hinew, hjold] at hij
        exact absurd hij (Nat.ne_of_gt (h.opened j hj))
    · obtain ⟨-, hjnew⟩ | ⟨-, hj, hjold⟩ := hslots j hj
      · rw [hiold, hjnew] at hij
        exact absurd hij (Nat.ne_of_lt (h.opened i hi))
      · rw [hiold, hjold] at hij
        exact h.distinct i j hi hj hij
  case conn =>
    intro i hi hopen c hc
    have hc : (w.proxy.kernel.bind fd).conns
        ((takeSlot w.proxy pos rest s (w.proxy.kernel.bind fd)).pool i).ep.fd = some c := hc
    dsimp only
    rw [hpool i] at hopen hc
    obtain ⟨rfl, hnew⟩ | ⟨hip, hi, hold⟩ := hslots i hi
    · rw [if_pos rfl, hfd, bind_conns_self] at hc
      cases hc
      exact hnew.symm
    · rw [if_neg hip] at hopen hc
      rw [bind_conns_of_ne (hfresh i (h.lt i hi) hi)] at hc
      rw [hold]
      exact h.conn i hi hopen c hc
  case unused => exact fun c hc => h.unused c (Nat.le_of_succ_le hc)
  case own =>
    intro i hi
    show Own (w.proxy.kernel.bind fd) (Function.update w.holder pos w.proxy.kernel.opened i)
      ((takeSlot w.proxy pos rest s (w.proxy.kernel.bind fd)).pool i).ep
      (Function.update w.lives w.proxy.kernel.opened ⟨[], [], handed⟩
        (Function.update w.holder pos w.proxy.kernel.opened i))
    rw [hpool i]
    obtain ⟨rfl, hnew⟩ | ⟨hip, hi, hold⟩ := hslots i hi
    · rw [hnew, Function.update_self, if_pos rfl]
      refine ⟨?_, ?_⟩
      · rw [hrecv]
        exact List.nil_sublist _
      · rw [bind_wire, h.unused _ (Nat.le_refl _), hsend]
        exact List.nil_sublist _
    · rw [hold, Function.update_of_ne (Nat.ne_of_lt (h.opened i hi)), if_neg hip]
      exact ⟨(h.own i hi).input, (h.own i hi).output⟩
  case parsed =>
    refine (Function.forall_update_iff w.lives fun _ x => x.parsed.Sublist x.received).mpr ?_
    exact ⟨List.Sublist.refl _, fun c _ => h.parsed c⟩
  case sent =>
    refine (Function.forall_update_iff w.lives
      fun c x => (w.proxy.kernel.wire c).Sublist x.given).mpr ?_
    refine ⟨?_, fun c _ => h.sent c⟩
    rw [h.unused _ (Nat.le_refl _)]
    exact List.nil_sublist _

theorem Inv.flush {w : World} (h : Inv w) {pos : Nat} (ht : Taken w.proxy pos)
    (hopen : (w.proxy.pool pos).ep.fd ≠ sockClosed) :
    Inv { w with proxy := sendBufData w.proxy pos } := by
  have hown := h.own pos ht
  have hd := sendBufData_drawn (h.conn pos ht hopen)
  have hsent := h.replace ht (l := w.lives (w.holder pos)) (q := sendBufData w.proxy pos)
    (e := (SendBuffer.sendBufData w.proxy.kernel (w.proxy.pool pos).ep).ep) rfl rfl rfl
    (later_sendBufData _ _) hd.others (sendBufData_fd _ _) (by
      have hmine := hd.mine _ hown.output
      rw [List.append_nil] at hmine
      refine ⟨?_, hmine⟩
      obtain hrecv | hrecv := hd.recvBuf
      · rw [hrecv]
        exact hown.input
      · rw [hrecv, List.append_nil]
        exact (List.sublist_append_left _ _).trans hown.input)
  rw [Function.update_eq_self] at hsent
  exact hsent

/-- The connection that replaces another starts with its buffer. -/
theorem Inv.takeOver {w : World} (h : Inv w) {before pos : Nat} (ht : Taken w.proxy pos)
    (hb : Taken w.proxy before) (hne : before ≠ pos)
    (hopen : (w.proxy.pool pos).ep.fd ≠ sockClosed)
    (hwire : w.proxy.kernel.wire (w.holder pos) = [])
    (hgiven : (w.lives (w.holder pos)).given = (w.proxy.pool before).ep.sendBuf.val) :
    Inv { w with proxy := takeOver w.proxy before pos } := by
  have hcopied := h.replace ht (l := w.lives (w.holder pos)) (e := inherited w.proxy before pos)
    (q := setEp w.proxy pos (inherited w.proxy before pos)) rfl rfl rfl (Kernel.Later.refl _)
    (fun _ _ => rfl) (.inl rfl) (by
      refine ⟨(h.own pos ht).input, ?_⟩
      have hw : (setEp w.proxy pos (inherited w.proxy before pos)).kernel.wire (w.holder pos) =
          [] := hwire
      rw [hw, hgiven]
      exact List.Sublist.refl _)
  rw [Function.update_eq_self] at hcopied
  have hbefore : (setEp w.proxy pos (inherited w.proxy before pos)).pool before =
      w.proxy.pool before := Function.update_of_ne hne ..
  have hself : (setEp w.proxy pos (inherited w.proxy before pos)).pool pos =
      { w.proxy.pool pos with ep := inherited w.proxy before pos } := Function.update_self ..
  have hreleased := hcopied.release (h.not_free hb)
  have hpool := socketRelease_pool (p := setEp w.proxy pos (inherited w.proxy before pos))
    (h.lt before hb) pos
  rw [if_neg (Ne.symm hne), hself] at hpool
  have htaken : Taken (socketRelease (setEp w.proxy pos (inherited w.proxy before pos)) before)
      pos := by
    rw [Taken, hpool]
    exact ht
  have hflushed := hreleased.flush htaken (by rw [hpool]; exact hopen)
  simp only [ProxySvr.takeOver]
  rw [hbefore, h.socketPos before]
  exact hflushed

theorem Inv.table {w : World} (h : Inv w) (svrs : Nat → Option (List (Option Nat))) :
    Inv { w with proxy := { w.proxy with svrs := svrs } } :=
  h.quiet (Kernel.Later.refl _) rfl rfl h.nodup (fun pos hpos => (h.free pos hpos).congr rfl rfl)
    h.socketPos fun _ ht => ⟨ht, rfl, rfl, .inl rfl⟩

/-- A connection that has just been accepted, with what it is to be given. -/
structure Greeted (w : World) (pos : Nat) : Prop where
  taken : Taken w.proxy pos
  opened : (w.proxy.pool pos).ep.fd ≠ sockClosed
  wire : w.proxy.kernel.wire (w.holder pos) = []
  entry : ∀ before, At w.proxy (w.proxy.pool pos).svrType (w.proxy.pool pos).svrId before →
    Taken w.proxy before ∧ before ≠ pos ∧
      (w.lives (w.holder pos)).given = (w.proxy.pool before).ep.sendBuf.val

/-- A server inherits the buffer of its last connection. -/
theorem Inv.register {w : World} (h : Inv w) {pos : Nat} {q : Proxy} (hw : Greeted w pos)
    (hq : register w.proxy pos = .ok q) : Inv { w with proxy := q } := by
  obtain rfl | ⟨p', he, hcase⟩ := register_ok hq
  · exact h
  · obtain ⟨⟨svrs, rfl⟩, hat⟩ := ensureType_ok he
    obtain ⟨-, rfl⟩ | ⟨before, hb, hq⟩ := hcase
    · exact (h.table svrs).table _
    · rw [(enter_ok hq).2]
      obtain ⟨htaken, hne, hgiven⟩ := hw.entry before ((hat _ _ _).mp hb)
      exact ((h.table svrs).takeOver hw.taken htaken hne hw.opened hw.wire hgiven).table _

theorem handedOver_eq {p : Proxy} {k : Nat × Nat} {before : Nat} (hat : At p k.1 k.2 before)
    (hc : Current p k before) : handedOver p k = (p.pool before).ep.sendBuf.val := by
  simp only [handedOver]
  rw [slotOf_eq_some.mpr hat]
  exact if_pos hc

theorem Inv.accept {w : World} {a : AcceptAnswer} {q : Proxy} (h : Inv w)
    (hg : Guard w.proxy (.accept a)) (hq : acceptConnect w.proxy a = .ok q) :
    Inv (w.accepted a q) := by
  cases hf : w.proxy.freeList with
  | nil =>
    simp only [acceptConnect, hf] at hq
    cases hq
    simp only [World.accepted, hf]
    exact h
  | cons pos rest =>
    have hidle := h.free pos (by rw [hf]; exact List.mem_cons_self ..)
    have hpos := h.socketPos pos
    cases a with
    | failed =>
      simp only [acceptConnect, hf] at hq
      cases hq
      simp only [World.accepted, hf]
      have hreturned := h.returned hf (s := w.proxy.pool pos) (k := w.proxy.kernel)
        (later_close _ _) rfl
      have heq : takeSlot w.proxy pos rest (w.proxy.pool pos) w.proxy.kernel =
          { w.proxy with freeList := rest } := by simp [takeSlot, setSocket]
      rw [heq] at hreturned
      rw [hpos]
      exact hreturned
    | rejected fd =>
      simp only [acceptConnect, hf] at hq
      cases hq
      simp only [World.accepted, hf]
      rw [hpos]
      exact h.returned hf (s := acceptedSocket (w.proxy.pool pos) fd) (k := w.proxy.kernel.bind fd)
        (later_bind_close _ _) rfl
    | ok fd t id =>
      simp only [acceptConnect, hf] at hq
      simp only [World.accepted, hf]
      obtain ⟨hfresh, hfd⟩ := hg
      have hconnected := h.connect hf
        (s := { acceptedSocket (w.proxy.pool pos) fd with svrType := t, svrId := id })
        hpos rfl hidle.recvBuf hidle.sendBuf hfd (handedOver w.proxy (t, id))
      refine Inv.register hconnected ?_ hq
      have hpool := takeSlot_pool w.proxy pos rest
        { acceptedSocket (w.proxy.pool pos) fd with svrType := t, svrId := id }
        (w.proxy.kernel.bind fd)
      have hself := hpool pos
      rw [if_pos rfl] at hself
      refine ⟨?_, ?_, ?_, ?_⟩
      · rw [Taken, hself]
        rfl
      · dsimp only
        rw [hself]
        have hnat : (0 : Int) ≤ fd := Int.natCast_nonneg fd
        simp only [acceptedSocket, sockClosed]
        omega
      · dsimp only
        rw [Function.update_self]
        exact h.unused _ (Nat.le_refl _)
      · intro before hb
        dsimp only at hb ⊢
        rw [hself] at hb
        have hat : At w.proxy t id before := hb
        have hc : Current w.proxy (t, id) before := hfresh.current hat
        have hne : before ≠ pos := by
          rintro rfl
          have htype := hidle.type
          rw [hc.1] at htype
          cases htype
        rw [Function.update_self, Function.update_self, Taken, hpool before, if_neg hne]
        exact ⟨hc.1, hne, handedOver_eq hat hc⟩

/-! ## Whole runs -/

/-- Every guarded step keeps the connections apart. -/
theorem step_inv {w w' : World} {a : Action} (h : Inv w) (hg : Guard w.proxy a)
    (hs : next w a = some w') : Inv w' := by
  cases a with
  | error pos =>
    cases hs
    exact h.release hg
  | accept a =>
    simp only [next] at hs
    split at hs
    · cases hs
    · next q hq =>
      cases hs
      exact h.accept hg hq
  | recv pos r =>
    simp only [next] at hs
    split at hs
    · cases hs
    · next q hq =>
      cases hs
      exact h.recv hg hq

/-- In a run that neither stores into released slots nor uses an entry that has lost its slot,
connections that have a slot one after the other have nothing of each other. -/
theorem run_separate (conf : CenterConfig) (answer : Nat → SendAnswer) {as : List Action}
    {w : World}
    (h : Trace.Run (fun w a w' => next w a = some w') (fun w a => Guard w.proxy a)
      (initial conf answer) as w) : Separate w :=
  (h.invariant Inv (initial_inv conf answer) fun _ _ _ hi hg hs => step_inv hi hg hs).separate

instance (p : Proxy) : (a : Action) → Decidable (Guard p a)
  | .error pos => inferInstanceAs (Decidable (pos ∉ p.freeList))
  | .accept (.ok ..) => inferInstanceAs (Decidable (_ ∧ _))
  | .recv _ (.data (_ :: _)) => inferInstanceAs (Decidable (_ ∨ _))
  | .accept .failed | .accept (.rejected _) | .recv _ (.data []) | .recv _ .again
  | .recv _ .fatal => inferInstanceAs (Decidable True)

/-- One server of type 7 and two of type 8. -/
def sampleConf (maxSvrNum : Nat) : CenterConfig := ⟨maxSvrNum, [⟨7, 1⟩, ⟨8, 2⟩]⟩

def sampleStart (maxSvrNum : Nat) : World := initial (sampleConf maxSvrNum) fun _ => .all

def message (t id : Nat) : List UInt8 :=
  Bytes.le 4 44 ++ List.replicate 8 0 ++ Bytes.le 4 t ++ Bytes.le 4 id ++ List.replicate 4 0 ++
    Bytes.le 4 1 ++ List.replicate 16 0

/-- A server comes back to its buffered message, and its old slot is used by another. -/
theorem run_separate_reconnect :
    ∃ as w, Trace.Run (fun w a w' => next w a = some w') (fun w a => Guard w.proxy a)
        (sampleStart 4) as w ∧
      (w.proxy.kernel.wire 2 = message 7 0 ∧ w.holder 1 = 3) ∧ Separate w := by
  obtain ⟨w, hrun, hend⟩ := Trace.exists_run_of_exec next (fun w a => Guard w.proxy a)
    (sampleStart 4)
    [.accept (.ok 5 7 0), .accept (.ok 6 8 0), .recv 1 (.data []), .recv 2 (.data (message 7 0)),
      .accept (.ok 5 7 0), .accept (.ok 8 8 1)]
    (fun w => w.proxy.kernel.wire 2 = message 7 0 ∧ w.holder 1 = 3) (by decide +kernel)
  exact ⟨_, w, hrun, hend, run_separate _ _ hrun⟩

/-- A bad length leaves five bytes in a slot that is free again. A frame for a server whose slot
was released by `EPOLLERR` goes to the next owner of the slot. -/
theorem reused_slot_not_clean :
    (∃ as w, Trace.Run (fun w a w' => next w a = some w') (fun _ _ => True) (sampleStart 2) as w ∧
      (w.proxy.freeList = [1] ∧ (w.proxy.pool 1).ep.recvBuf.length = 5) ∧ ¬ Separate w) ∧
    ∃ as w, Trace.Run (fun w a w' => next w a = some w') (fun _ _ => True) (sampleStart 3) as w ∧
      (w.proxy.kernel.wire 2 = message 7 0 ++ message 8 1 ∧ (w.lives 2).given = message 8 1) ∧
      ¬ Separate w := by
  constructor
  · obtain ⟨w, hrun, hfree, hlen⟩ := Trace.exists_run_of_exec next (fun _ _ => True)
      (sampleStart 2)
      [.accept (.ok 5 7 0), .recv 1 (.data [255, 255, 255, 255, 0]), .recv 1 .fatal]
      (fun w => w.proxy.freeList = [1] ∧ (w.proxy.pool 1).ep.recvBuf.length = 5)
      (by decide +kernel)
    refine ⟨_, w, hrun, ⟨hfree, hlen⟩, fun hsep => ?_⟩
    obtain ⟨hrecv, -⟩ := hsep.clean 1 (by rw [hfree]; exact List.mem_singleton.mpr rfl)
    rw [hrecv] at hlen
    cases hlen
  · obtain ⟨w, hrun, hwire, hgiven⟩ := Trace.exists_run_of_exec next (fun _ _ => True)
      (sampleStart 3)
      [.accept (.ok 5 7 0), .accept (.ok 6 8 0), .error 1, .recv 2 (.data (message 7 0)),
        .accept (.ok 7 8 1), .recv 2 (.data (message 8 1))]
      (fun w => w.proxy.kernel.wire 2 = message 7 0 ++ message 8 1 ∧
        (w.lives 2).given = message 8 1) (by decide +kernel)
    refine ⟨_, w, hrun, ⟨hwire, hgiven⟩, fun hsep => ?_⟩
    have hlen := (hsep.sent 2).length_le
    rw [hwire, hgiven] at hlen
    exact absurd hlen (by decide)

/-! ## The events of the proxy are such runs -/

@[simp] theorem recv_proxy (w : World) (pos : Nat) (r : RecvAnswer) (q : Proxy) :
    (w.recv pos r q).proxy = q := by
  simp only [World.recv]
  split
  · split <;> rfl
  · rfl

@[simp] theorem accepted_proxy (w : World) (a : AcceptAnswer) (q : Proxy) :
    (w.accepted a q).proxy = q := by
  simp only [World.accepted]
  split <;> rfl

theorem next_recv {w : World} {pos : Nat} {r : RecvAnswer} {q : Proxy}
    (h : recvOnce w.proxy pos r = .ok q) : next w (.recv pos r) = some (w.recv pos r q) := by
  simp only [next, h]

def Reaches (w : World) (q : Proxy) : Prop :=
  ∃ as w', Trace.Run (fun w a w' => next w a = some w') (fun _ _ => True) w as w' ∧ w'.proxy = q

theorem Reaches.refl (w : World) : Reaches w w.proxy := ⟨[], w, .nil w, rfl⟩

theorem Reaches.step {w w' : World} {a : Action} {q : Proxy} (hs : next w a = some w')
    (h : Reaches w' q) : Reaches w q := by
  obtain ⟨as, w'', hrun, hq⟩ := h
  exact ⟨a :: as, w'', .cons trivial hs hrun, hq⟩

/-- A call is made of turns. -/
theorem recvServerData_reaches {w : World} {pos : Nat} {rs : List RecvAnswer} {q : Proxy}
    (h : recvServerData w.proxy pos rs = .ok q) : Reaches w q := by
  induction rs generalizing w with
  | nil =>
    cases h
    exact .refl w
  | cons r rs ih =>
    have hlast : recvOnce w.proxy pos r = .ok q → Reaches w q := by
      intro hq
      have hend := Reaches.refl (w.recv pos r q)
      rw [recv_proxy] at hend
      exact hend.step (next_recv hq)
    simp only [recvServerData] at h
    split at h
    · cases h
      exact .refl w
    · next hfull =>
      simp only [recvOnce, if_neg hfull] at hlast
      split at h
      · exact hlast h
      · exact hlast h
      · exact hlast h
      · next b bs =>
        split at h
        · cases h
        · next p hp =>
          have hq : recvOnce w.proxy pos (.data (b :: bs)) = .ok p := by
            simp only [recvOnce, if_neg hfull, hp]
          refine Reaches.step (next_recv hq) (ih ?_)
          rw [recv_proxy]
          exact h

/-- What one event does to the proxy, a sequence of actions does. -/
theorem step_reaches {w : World} {e : Event} {q : Proxy} (h : Step w.proxy e q) :
    Reaches w q := by
  cases e with
  | error pos =>
    simp only [Step, dealEvent] at h
    cases h
    exact .step (a := .error pos) rfl (.refl _)
  | input pos a recvs =>
    simp only [Step, dealEvent] at h
    split at h
    · cases h
      exact .refl w
    · split at h
      · have hs : next w (.accept a) = some (w.accepted a q) := by simp only [next, h]
        have hend := Reaches.refl (w.accepted a q)
        rw [accepted_proxy] at hend
        exact hend.step hs
      · exact recvServerData_reaches h

/-- Every run of the proxy is a run of actions. -/
theorem run_reaches {w : World} {guard : Proxy → Event → Prop} {es : List Event} {p q : Proxy}
    (h : Trace.Run Step guard p es q) (hp : w.proxy = p) : Reaches w q := by
  induction h generalizing w with
  | nil p =>
    subst hp
    exact .refl w
  | cons _ hs _ ih =>
    subst hp
    obtain ⟨as, w', hrun, hw'⟩ := step_reaches hs
    obtain ⟨as', w'', hrun', hq⟩ := ih hw'
    exact ⟨as ++ as', w'', hrun.append hrun', hq⟩

end SlotReuse
