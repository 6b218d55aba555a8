import Mathlib.Data.List.Nodup
import Dsf4g.Lib.Trace
import Dsf4g.ProxySvr

/-!
# Slot accounting in the proxy

Every slot is the listener, free, an open connection, or a registered server that is
waited for. Sending changes neither the free list nor the table; the slots move only in
`SocketRelease`, in `AcceptConnect` and in `Register`.
-/
namespace ProxySvr

open Base Sockets SendBuffer

def At (p : Proxy) (t id pos : Nat) : Prop := ∃ v, p.svrs t = some v ∧ v[id]? = some (some pos)

def Registered (p : Proxy) (pos : Nat) : Prop := ∃ t id, At p t id pos

theorem At.ne {p : Proxy} {t id i pos : Nat} (hat : At p t id i) (hr : ¬ Registered p pos) :
    i ≠ pos := by
  rintro rfl
  exact hr ⟨t, id, hat⟩

theorem entry_eq_some {p : Proxy} {t id pos : Nat} :
    entry p t id = .ok (some pos) ↔ At p t id pos := by
  unfold entry At
  cases hv : p.svrs t with
  | none => simp
  | some v => cases he : v[id]? <;> simp [he]

def slotOf (p : Proxy) (k : Nat × Nat) : Option Nat := ((p.svrs k.1).bind (·[k.2]?)).join

theorem slotOf_eq_some {p : Proxy} {k : Nat × Nat} {pos : Nat} :
    slotOf p k = some pos ↔ At p k.1 k.2 pos := by
  unfold slotOf At
  cases hv : p.svrs k.1 with
  | none => simp
  | some v => cases he : v[k.2]? <;> simp [he]

inductive Kind where
  | listening | free | open | awaiting
  deriving DecidableEq, Repr

def HasKind (p : Proxy) (pos : Nat) : Kind → Prop
  | .listening => (p.pool pos).type = listenSocket
  | .free => p.freeList.count pos = 1
  | .open => (p.pool pos).type = clinetSocket ∧ (p.pool pos).ep.fd ≠ sockClosed
  | .awaiting => (p.pool pos).ep.fd = sockClosed ∧ Registered p pos

/-- Every slot has exactly one kind, and the table points to connected or awaited servers, each
under its own type and number only. -/
structure SlotsAccounted (p : Proxy) : Prop where
  kinds : ∀ pos < p.conf.maxSvrNum, ∃! k, HasKind p pos k
  entries : ∀ t id pos, At p t id pos → pos < p.conf.maxSvrNum ∧
    (HasKind p pos .open ∨ HasKind p pos .awaiting) ∧
    (p.pool pos).svrType = t ∧ (p.pool pos).svrId = id
  once : ∀ t id t' id' pos, At p t id pos → At p t' id' pos → t = t' ∧ id = id'

/-! ## The invariant -/

structure Sound (p : Proxy) : Prop where
  nodup : p.freeList.Nodup
  free : ∀ pos ∈ p.freeList,
    pos < p.conf.maxSvrNum ∧ (p.pool pos).type = 0 ∧ ¬ Registered p pos
  entries : ∀ t id pos, At p t id pos → pos < p.conf.maxSvrNum ∧
    (p.pool pos).type = clinetSocket ∧ (p.pool pos).svrType = t ∧ (p.pool pos).svrId = id
  socketPos : ∀ pos < p.conf.maxSvrNum, (p.pool pos).socketPos = pos

def Covered (p : Proxy) : Prop :=
  ∀ pos < p.conf.maxSvrNum, pos ∈ p.freeList ∨ (p.pool pos).type = listenSocket ∨
    ((p.pool pos).type = clinetSocket ∧ ((p.pool pos).ep.fd ≠ sockClosed ∨ Registered p pos))

def CoveredBut (p : Proxy) (pos : Nat) : Prop :=
  ∀ i < p.conf.maxSvrNum, i ≠ pos → i ∈ p.freeList ∨ (p.pool i).type = listenSocket ∨
    ((p.pool i).type = clinetSocket ∧ ((p.pool i).ep.fd ≠ sockClosed ∨ Registered p i))

/-- A slot stands in one entry. -/
theorem Sound.at_unique {p : Proxy} (h : Sound p) {t id t' id' pos : Nat} (h1 : At p t id pos)
    (h2 : At p t' id' pos) : t = t' ∧ id = id' := by
  obtain ⟨-, -, ht, hid⟩ := h.entries t id pos h1
  obtain ⟨-, -, ht', hid'⟩ := h.entries t' id' pos h2
  exact ⟨ht.symm.trans ht', hid.symm.trans hid'⟩

theorem Sound.not_free_of_at {p : Proxy} (h : Sound p) {t id pos : Nat} (hat : At p t id pos) :
    pos ∉ p.freeList :=
  fun hf => (h.free pos hf).2.2 ⟨t, id, hat⟩

theorem initNetwork_sound (conf : CenterConfig) (answer : Nat → SendAnswer) :
    Sound (initNetwork conf answer) := by
  have hnone : ∀ t id pos, ¬ At (initNetwork conf answer) t id pos := by
    rintro t id pos ⟨v, hv, -⟩
    simp [initNetwork] at hv
  refine ⟨(List.nodup_range).tail, ?_, fun t id pos h => absurd h (hnone t id pos), ?_⟩
  · intro pos hpos
    have hlt : pos < conf.maxSvrNum := List.mem_range.mp (List.mem_of_mem_tail hpos)
    have hne : pos ≠ 0 := by
      rintro rfl
      cases hn : conf.maxSvrNum with
      | zero => omega
      | succ n => simp [initNetwork, hn, List.range_succ_eq_map] at hpos
    exact ⟨hlt, by simp [initNetwork, hne, SvrSocket.cleared],
      fun ⟨t, id, h⟩ => hnone t id pos h⟩
  · intro pos _
    by_cases hp : pos = 0
    · subst hp
      simp [initNetwork, SvrSocket.cleared]
    · simp [initNetwork, hp, SvrSocket.cleared]

theorem initNetwork_covered (conf : CenterConfig) (answer : Nat → SendAnswer) :
    Covered (initNetwork conf answer) := by
  intro pos hpos
  by_cases hp : pos = 0
  · subst hp
    exact .inr (.inl (by simp [initNetwork]))
  · left
    obtain ⟨n, hn⟩ : ∃ n, conf.maxSvrNum = n + 1 := ⟨conf.maxSvrNum - 1, by
      have : pos < conf.maxSvrNum := hpos
      omega⟩
    have hpos : pos < n + 1 := hn ▸ hpos
    simp only [initNetwork, hn, List.range_succ_eq_map, List.tail_cons, List.mem_map,
      List.mem_range]
    exact ⟨pos - 1, by omega, by omega⟩

/-- The two halves of the invariant account for every slot. -/
theorem SlotsAccounted.of_sound {p : Proxy} (h : Sound p) (hc : Covered p) :
    SlotsAccounted p := by
  have hone : ∀ pos ∈ p.freeList, p.freeList.count pos = 1 := fun pos hf =>
    List.count_eq_one_of_mem h.nodup hf
  refine ⟨fun pos hpos => ?_, fun t id pos hat => ?_, fun _ _ _ _ _ => h.at_unique⟩
  · rcases hc pos hpos with hf | hl | ⟨hcl, hfd⟩
    · obtain ⟨-, htype, hreg⟩ := h.free pos hf
      refine ⟨.free, hone pos hf, fun k hk => ?_⟩
      cases k with
      | listening => simp [HasKind, htype, listenSocket] at hk
      | free => rfl
      | «open» => simp [HasKind, htype, clinetSocket] at hk
      | awaiting => exact absurd hk.2 hreg
    · refine ⟨.listening, hl, fun k hk => ?_⟩
      cases k with
      | listening => rfl
      | free =>
        have hf : pos ∈ p.freeList := List.count_pos_iff.mp (by rw [hk]; decide)
        have := (h.free pos hf).2.1
        simp [hl, listenSocket] at this
      | «open» => simp [HasKind, hl, listenSocket, clinetSocket] at hk
      | awaiting =>
        obtain ⟨t, id, hat⟩ := hk.2
        have := (h.entries t id pos hat).2.1
        simp [hl, listenSocket, clinetSocket] at this
    · have hnf : ¬ HasKind p pos .free := by
        intro hk
        have hf : pos ∈ p.freeList := List.count_pos_iff.mp (by
          rw [show p.freeList.count pos = 1 from hk]; decide)
        have := (h.free pos hf).2.1
        simp [hcl, clinetSocket] at this
      have hnl : ¬ HasKind p pos .listening := by
        simp [HasKind, hcl, listenSocket, clinetSocket]
      by_cases hclosed : (p.pool pos).ep.fd = sockClosed
      · refine ⟨.awaiting, ⟨hclosed, hfd.resolve_left (fun hne => hne hclosed)⟩, fun k hk => ?_⟩
        cases k with
        | listening => exact absurd hk hnl
        | free => exact absurd hk hnf
        | «open» => exact absurd hclosed hk.2
        | awaiting => rfl
      · refine ⟨.open, ⟨hcl, hclosed⟩, fun k hk => ?_⟩
        cases k with
        | listening => exact absurd hk hnl
        | free => exact absurd hk hnf
        | «open» => rfl
        | awaiting => exact absurd hk.1 hclosed
  · obtain ⟨hlt, htype, ht, hid⟩ := h.entries t id pos hat
    refine ⟨hlt, ?_, ht, hid⟩
    by_cases hclosed : (p.pool pos).ep.fd = sockClosed
    · exact .inr ⟨hclosed, t, id, hat⟩
    · exact .inl ⟨htype, hclosed⟩

/-! ## Sending and storing move no slot -/

/-- Nothing but endpoints and records changed; only registered sockets were closed. -/
structure Same (p q : Proxy) : Prop where
  conf : q.conf = p.conf
  freeList : q.freeList = p.freeList
  svrs : q.svrs = p.svrs
  type : ∀ i, (q.pool i).type = (p.pool i).type
  socketPos : ∀ i, (q.pool i).socketPos = (p.pool i).socketPos
  svrType : ∀ i, (q.pool i).svrType = (p.pool i).svrType
  svrId : ∀ i, (q.pool i).svrId = (p.pool i).svrId
  fd : ∀ i, (q.pool i).ep.fd = (p.pool i).ep.fd ∨
    ((q.pool i).ep.fd = sockClosed ∧ Registered p i)

theorem at_congr {p q : Proxy} (h : q.svrs = p.svrs) {t id pos : Nat} :
    At q t id pos ↔ At p t id pos := by
  unfold At
  rw [h]

theorem registered_congr {p q : Proxy} (h : q.svrs = p.svrs) {pos : Nat} :
    Registered q pos ↔ Registered p pos := by
  unfold Registered
  simp only [at_congr h]

theorem Same.refl (p : Proxy) : Same p p :=
  ⟨rfl, rfl, rfl, fun _ => rfl, fun _ => rfl, fun _ => rfl, fun _ => rfl, fun _ => .inl rfl⟩

theorem Same.trans {p q r : Proxy} (h : Same p q) (h' : Same q r) : Same p r where
  conf := h'.conf.trans h.conf
  freeList := h'.freeList.trans h.freeList
  svrs := h'.svrs.trans h.svrs
  type i := (h'.type i).trans (h.type i)
  socketPos i := (h'.socketPos i).trans (h.socketPos i)
  svrType i := (h'.svrType i).trans (h.svrType i)
  svrId i := (h'.svrId i).trans (h.svrId i)
  fd i := by
    rcases h'.fd i with he | ⟨hc, hr⟩
    · rw [he]
      exact h.fd i
    · exact .inr ⟨hc, (registered_congr h.svrs).mp hr⟩

/-- An endpoint may be replaced when its descriptor is kept, or closed on a registered slot. -/
theorem same_of_ep {p q : Proxy} {pos : Nat} {e : Endpoint} (hq : q.pool = (setEp p pos e).pool)
    (hconf : q.conf = p.conf) (hfree : q.freeList = p.freeList) (hsvrs : q.svrs = p.svrs)
    (hfd : e.fd = (p.pool pos).ep.fd ∨ (e.fd = sockClosed ∧ Registered p pos)) : Same p q := by
  have hpool : ∀ i, q.pool i = if i = pos then { p.pool pos with ep := e } else p.pool i := by
    intro i
    rw [hq]
    by_cases hi : i = pos
    · subst hi
      simp [setEp, setSocket]
    · simp [setEp, setSocket, hi]
  refine ⟨hconf, hfree, hsvrs, ?_, ?_, ?_, ?_, ?_⟩
  all_goals
    intro i
    rw [hpool i]
    by_cases hi : i = pos
    · subst hi
      simp [hfd]
    · simp [hi]

/-- The first half speaks of the table and the free list. -/
theorem Same.sound {p q : Proxy} (hs : Same p q) (h : Sound p) : Sound q := by
  constructor
  · rw [hs.freeList]
    exact h.nodup
  · intro pos hpos
    rw [hs.freeList] at hpos
    rw [hs.conf, hs.type, registered_congr hs.svrs]
    exact h.free pos hpos
  · intro t id pos hat
    rw [hs.conf, hs.type, hs.svrType, hs.svrId]
    exact h.entries t id pos ((at_congr hs.svrs).mp hat)
  · intro pos hpos
    rw [hs.socketPos]
    exact h.socketPos pos (hs.conf ▸ hpos)

/-- The second speaks of the open descriptors, too, which only a registered slot can lose. -/
theorem Same.covered {p q : Proxy} (hs : Same p q) (h : Covered p) : Covered q := by
  intro pos hpos
  rw [hs.freeList, hs.type, registered_congr hs.svrs]
  rcases h pos (hs.conf ▸ hpos) with hf | hl | ⟨hc, hfd⟩
  · exact .inl hf
  · exact .inr (.inl hl)
  · refine .inr (.inr ⟨hc, ?_⟩)
    rcases hs.fd pos with he | ⟨-, hr⟩
    · rw [he]
      exact hfd
    · exact .inr hr

/-- Sending to a registered slot moves no slot. -/
theorem sendOneData_same {p : Proxy} {pos : Nat} (hr : Registered p pos) (f : Packet) :
    Same p (sendOneData p pos f) := by
  refine same_of_ep (e := (SendBuffer.sendOneData p.kernel (p.pool pos).ep f).ep) rfl rfl rfl rfl ?_
  rcases sendOneData_fd p.kernel (p.pool pos).ep f with h | h
  · exact .inl h
  · exact .inr ⟨h, hr⟩

theorem setRecvBuf_same (p : Proxy) (pos : Nat) (bs : List UInt8) :
    Same p (setEp p pos { (p.pool pos).ep with recvBuf := bs }) :=
  same_of_ep rfl rfl rfl rfl (.inl rfl)

/-- A call through the table reaches a registered slot or nothing. -/
theorem sendTo_ok {p q : Proxy} {t id : Nat} {f : Packet} (h : sendTo p t id f = .ok q) :
    ∃ pos, At p t id pos ∧ q = sendOneData p pos f := by
  unfold sendTo at h
  split at h
  · cases h
  · cases h
  · next pos he =>
    cases h
    exact ⟨pos, entry_eq_some.mp he, rfl⟩

/-- It sends to the slot of the entry, or does nothing. -/
theorem sendIfPresent_ok {p q : Proxy} {t id : Nat} {f : Packet}
    (h : sendIfPresent p t id f = .ok q) :
    q = p ∨ ∃ pos, At p t id pos ∧ q = sendOneData p pos f := by
  unfold sendIfPresent at h
  split at h
  · cases h
  · cases h
    exact .inl rfl
  · exact .inr (sendTo_ok h)

/-- What every call of `SendOneData` for the entry keeps, the loop keeps. -/
theorem broadcast_induct {motive : Proxy → Prop} {f : Packet} {t desId : Nat}
    (hsend : ∀ p pos, motive p → At p t desId pos → motive (sendOneData p pos f))
    {p q : Proxy} {i n : Nat} (hp : motive p)
    (h : broadcast p t desId f i n = .ok q) : motive q := by
  induction n generalizing p i with
  | zero =>
    cases h
    exact hp
  | succ n ih =>
    unfold broadcast at h
    split at h
    · cases h
    · exact ih hp h
    · split at h
      · cases h
      · next hs =>
        obtain ⟨pos, hat, rfl⟩ := sendTo_ok hs
        exact ih (hsend p pos hp hat) h

/-- The entry `DoTransfer` gives a frame to. A broadcast, too, goes to the one its head names. -/
def destination (conf : CenterConfig) (bs : List UInt8) : Nat × Nat :=
  let head := readCenterHead bs 4
  match head.routeType, conf.getSvr head.desType with
  | .hash, some s => (head.desType, head.hashKey % s.svrNum)
  | _, _ => (head.desType, head.desId)

/-- What every call of `SendOneData` for its entry keeps, a whole transfer keeps. -/
theorem doTransfer_induct {motive : Proxy → Prop} {f : Packet} {p q : Proxy}
    (hsend : ∀ p' pos, motive p' →
      At p' (destination p.conf f.val).1 (destination p.conf f.val).2 pos →
      motive (sendOneData p' pos f))
    (hp : motive p) (h : doTransfer p f = .ok q) : motive q := by
  have hone : sendIfPresent p (destination p.conf f.val).1 (destination p.conf f.val).2 f = .ok q →
      motive q := by
    intro hs
    rcases sendIfPresent_ok hs with rfl | ⟨pos, hat, rfl⟩
    · exact hp
    · exact hsend p pos hp hat
  unfold doTransfer at h
  dsimp only at h
  split at h
  · cases h
    exact hp
  · split at h
    · cases h
      exact hp
    · split at h
      · next hroute =>
        simp only [destination, hroute] at hone
        exact hone h
      · next hroute =>
        simp only [destination, hroute] at hsend
        split at h
        · cases h
          exact hp
        · exact broadcast_induct hsend hp h
      · next hroute =>
        split at h
        · cases h
          exact hp
        · next hconf =>
          simp only [destination, hroute, hconf] at hone
          split at h
          · cases h
          · exact hone h
      · cases h
        exact hp

/-! ## The parsing loop -/

def malformed (bs : List UInt8) : Bool :=
  if bs.length ≤ 4 then false
  else if frameLen bs > centerBufLen then true
  else if frameLen bs > bs.length then false
  else if frameLen bs = 0 then false
  else malformed (bs.drop (frameLen bs))
termination_by bs.length
decreasing_by rw [List.length_drop]; omega

/-- The loop transfers frames, and after a bad length it releases the slot once. -/
theorem forward_cases {motive : Proxy → Prop}
    (hsend : ∀ f p t id pos, motive p → At p t id pos → motive (sendOneData p pos f))
    {p : Proxy} {pos : Nat} {bs : List UInt8} {o : Forwarded} (hp : motive p)
    (h : forward p pos bs = .ok o) :
    (malformed bs = false ∧ motive o.proxy) ∨
    (malformed bs = true ∧ ∃ p', motive p' ∧ o.proxy = socketRelease p' (p'.pool pos).socketPos) := by
  induction p, bs using forward.induct with
  | case1 p bs hlen =>
    rw [forward, if_pos hlen] at h
    cases h
    exact .inl ⟨by rw [malformed, if_pos hlen], hp⟩
  | case2 p bs hlen hbad =>
    rw [forward, if_neg hlen, dif_pos hbad] at h
    cases h
    exact .inr ⟨by rw [malformed, if_neg hlen, if_pos hbad], p, hp, rfl⟩
  | case3 p bs hlen hbad hmore =>
    rw [forward, if_neg hlen, dif_neg hbad, if_pos hmore] at h
    cases h
    exact .inl ⟨by rw [malformed, if_neg hlen, if_neg hbad, if_pos hmore], hp⟩
  | case4 p bs hlen hbad hmore hzero =>
    rw [forward, if_neg hlen, dif_neg hbad, if_neg hmore, if_pos hzero] at h
    cases h
  | case5 p bs hlen hbad hmore hzero e he =>
    rw [forward, if_neg hlen, dif_neg hbad, if_neg hmore, if_neg hzero, he] at h
    cases h
  | case6 p bs hlen hbad hmore hzero p' he ih =>
    rw [forward, if_neg hlen, dif_neg hbad, if_neg hmore, if_neg hzero, he] at h
    rw [malformed, if_neg hlen, if_neg hbad, if_neg hmore, if_neg hzero]
    exact ih (doTransfer_induct (fun p' pos => hsend _ p' _ _ pos) hp he) h

/-! ## Which steps of a receive loop are harmless -/

/-- A slot that is neither free nor in the table. -/
def Spare (p : Proxy) (pos : Nat) : Prop := pos ∉ p.freeList ∧ ¬ Registered p pos

/-- The loop of `RecvServerData` meets a bad length only on a spare slot, and an end of file or a
fatal error only where `eof` allows it. -/
def RecvGuard (eof : Proxy → Nat → Prop) (p : Proxy) (pos : Nat) : List RecvAnswer → Prop
  | [] => True
  | r :: rs =>
    (p.pool pos).ep.recvBuf.length = recvBufLen ∨
      match r with
      | .data [] | .fatal => eof p pos
      | .again => True
      | .data (b :: bs) =>
        (malformed (stored p pos (b :: bs)) = true → Spare p pos) ∧
          ∀ q, consume p pos (stored p pos (b :: bs)) = .ok q → RecvGuard eof q pos rs

/-- What a receive loop can do to the proxy keeps `inv`. -/
structure Kept (inv : Proxy → Prop) (eof : Proxy → Nat → Prop) : Prop where
  send : ∀ f p t id pos, inv p → At p t id pos → inv (sendOneData p pos f)
  recvBuf : ∀ p pos bs, inv p → inv (setEp p pos { (p.pool pos).ep with recvBuf := bs })
  release : ∀ p pos, inv p → pos < p.conf.maxSvrNum → Spare p pos → inv (socketRelease p pos)
  disconn : ∀ p pos, inv p → pos < p.conf.maxSvrNum → eof p pos → inv (socketDisconn p pos)
  socketPos : ∀ p, inv p → ∀ pos < p.conf.maxSvrNum, (p.pool pos).socketPos = pos

theorem socketRelease_conf (p : Proxy) (pos : Nat) : (socketRelease p pos).conf = p.conf := by
  unfold socketRelease
  split <;> rfl

theorem Same.spare {p q : Proxy} (hs : Same p q) {pos : Nat} (h : Spare p pos) : Spare q pos := by
  unfold Spare
  rw [hs.freeList, registered_congr hs.svrs]
  exact h

/-- What every frame keeps, the parsing loop keeps. -/
theorem consume_kept {inv : Proxy → Prop} {eof : Proxy → Nat → Prop} (hk : Kept inv eof)
    {p q : Proxy} {pos : Nat} {bs : List UInt8} (hlt : pos < p.conf.maxSvrNum) (hp : inv p)
    (hbad : malformed bs = true → Spare p pos) (h : consume p pos bs = .ok q) :
    inv q ∧ q.conf = p.conf := by
  unfold consume at h
  split at h
  · cases h
  · next o ho =>
    cases h
    have hstart : inv (setEp p pos { (p.pool pos).ep with recvBuf := bs }) ∧
        Same p (setEp p pos { (p.pool pos).ep with recvBuf := bs }) :=
      ⟨hk.recvBuf p pos bs hp, setRecvBuf_same p pos bs⟩
    have hsend : ∀ f p' t id pos', (inv p' ∧ Same p p') → At p' t id pos' →
        inv (sendOneData p' pos' f) ∧ Same p (sendOneData p' pos' f) :=
      fun f p' t id pos' hp' hat => ⟨hk.send f p' t id pos' hp'.1 hat,
        hp'.2.trans (sendOneData_same ⟨t, id, hat⟩ f)⟩
    rcases forward_cases (motive := fun p' => inv p' ∧ Same p p') hsend hstart ho with
      ⟨-, hinv, hsame⟩ | ⟨hm, p', ⟨hinv, hsame⟩, ho'⟩
    · exact ⟨hk.recvBuf _ _ _ hinv, hsame.conf⟩
    · have hlt' : pos < p'.conf.maxSvrNum := by rwa [hsame.conf]
      rw [ho', hk.socketPos p' hinv pos hlt']
      refine ⟨hk.recvBuf _ _ _ (hk.release p' pos hinv hlt' (hsame.spare (hbad hm))), ?_⟩
      exact (socketRelease_conf p' pos).trans hsame.conf

/-- What the parsing loop keeps, the receive loop keeps. -/
theorem recvServerData_kept {inv : Proxy → Prop} {eof : Proxy → Nat → Prop} (hk : Kept inv eof)
    {p q : Proxy} {pos : Nat} {rs : List RecvAnswer} (hlt : pos < p.conf.maxSvrNum) (hp : inv p)
    (hg : RecvGuard eof p pos rs) (h : recvServerData p pos rs = .ok q) : inv q := by
  induction rs generalizing p with
  | nil =>
    cases h
    exact hp
  | cons r rs ih =>
    unfold recvServerData at h
    split at h
    · cases h
      exact hp
    · next hfull =>
      have hg := hg.resolve_left hfull
      split at h
      · cases h
        rw [hk.socketPos p hp pos hlt]
        exact hk.disconn p pos hp hlt hg
      · cases h
        rw [hk.socketPos p hp pos hlt]
        exact hk.disconn p pos hp hlt hg
      · cases h
        exact hp
      · next b bs =>
        split at h
        · cases h
        · next p' hc =>
          obtain ⟨hinv, hconf⟩ := consume_kept hk hlt hp hg.1 hc
          exact ih (by rwa [hconf]) hinv (hg.2 p' hc) h

/-! ## The slot invariant over one event -/

theorem socketRelease_of_lt {p : Proxy} {pos : Nat} (h : pos < p.conf.maxSvrNum) :
    socketRelease p pos = { setSocket p pos (SvrSocket.cleared pos) with
      kernel := p.kernel.close (p.pool pos).ep.fd, freeList := p.freeList ++ [pos] } :=
  if_neg (Nat.not_le.mpr h)

theorem socketRelease_svrs (p : Proxy) (pos : Nat) : (socketRelease p pos).svrs = p.svrs := by
  unfold socketRelease
  split <;> rfl

theorem socketRelease_freeList {p : Proxy} {pos : Nat} (h : pos < p.conf.maxSvrNum) :
    (socketRelease p pos).freeList = p.freeList ++ [pos] := by
  rw [socketRelease_of_lt h]

theorem socketRelease_pool {p : Proxy} {pos : Nat} (h : pos < p.conf.maxSvrNum) (i : Nat) :
    (socketRelease p pos).pool i = if i = pos then SvrSocket.cleared pos else p.pool i := by
  rw [socketRelease_of_lt h]
  by_cases hi : i = pos
  · simp [setSocket, hi]
  · simp [setSocket, hi]

/-- A spare slot can be released. -/
theorem socketRelease_sound {p : Proxy} {pos : Nat} (h : Sound p) (hlt : pos < p.conf.maxSvrNum)
    (hs : Spare p pos) : Sound (socketRelease p pos) := by
  have hsvrs := socketRelease_svrs p pos
  constructor
  · rw [socketRelease_freeList hlt]
    exact h.nodup.append (List.nodup_singleton pos) (by simpa using hs.1)
  · intro i hi
    rw [socketRelease_freeList hlt, List.mem_append, List.mem_singleton] at hi
    rw [socketRelease_conf, socketRelease_pool hlt, registered_congr hsvrs]
    by_cases hip : i = pos
    · subst hip
      exact ⟨hlt, by simp [SvrSocket.cleared], hs.2⟩
    · rw [if_neg hip]
      exact h.free i (hi.resolve_right hip)
  · intro t id i hat
    rw [at_congr hsvrs] at hat
    rw [socketRelease_conf, socketRelease_pool hlt, if_neg (hat.ne hs.2)]
    exact h.entries t id i hat
  · intro i hi
    rw [socketRelease_pool hlt]
    split
    · next hip =>
      rw [hip]
      rfl
    · exact h.socketPos i (by rwa [socketRelease_conf] at hi)

/-- Releasing the slot that is left out closes the gap. -/
theorem CoveredBut.release {p : Proxy} {pos : Nat} (h : CoveredBut p pos)
    (hlt : pos < p.conf.maxSvrNum) : Covered (socketRelease p pos) := by
  intro i hi
  rw [socketRelease_conf] at hi
  rw [socketRelease_freeList hlt, socketRelease_pool hlt,
    registered_congr (socketRelease_svrs p pos)]
  by_cases hip : i = pos
  · simp [hip]
  · rw [if_neg hip, List.mem_append]
    rcases h i hi hip with hf | hr
    · exact .inl (.inl hf)
    · exact .inr hr

theorem socketRelease_covered {p : Proxy} {pos : Nat} (h : Covered p)
    (hlt : pos < p.conf.maxSvrNum) : Covered (socketRelease p pos) :=
  CoveredBut.release (fun i hi _ => h i hi) hlt

theorem socketDisconn_pool {p : Proxy} {pos : Nat} (h : pos < p.conf.maxSvrNum) :
    (socketDisconn p pos).pool =
      (setEp p pos { (p.pool pos).ep with fd := sockClosed }).pool := by
  simp [socketDisconn, Nat.not_le.mpr h]

theorem socketDisconn_tables (p : Proxy) (pos : Nat) :
    (socketDisconn p pos).conf = p.conf ∧ (socketDisconn p pos).freeList = p.freeList ∧
      (socketDisconn p pos).svrs = p.svrs := by
  unfold socketDisconn
  split
  · exact ⟨rfl, rfl, rfl⟩
  · exact ⟨rfl, rfl, rfl⟩

/-- Closing a descriptor that the table still names is one of the changes `Same` allows. -/
theorem socketDisconn_same {p : Proxy} {pos : Nat} (hlt : pos < p.conf.maxSvrNum)
    (hr : Registered p pos) : Same p (socketDisconn p pos) := by
  obtain ⟨hconf, hfree, hsvrs⟩ := socketDisconn_tables p pos
  exact same_of_ep (socketDisconn_pool hlt) hconf hfree hsvrs (.inr ⟨rfl, hr⟩)

theorem socketDisconn_sound {p : Proxy} {pos : Nat} (h : Sound p)
    (hlt : pos < p.conf.maxSvrNum) : Sound (socketDisconn p pos) := by
  obtain ⟨hconf, hfree, hsvrs⟩ := socketDisconn_tables p pos
  have hpool : ∀ i, ((socketDisconn p pos).pool i).type = (p.pool i).type ∧
      ((socketDisconn p pos).pool i).socketPos = (p.pool i).socketPos ∧
      ((socketDisconn p pos).pool i).svrType = (p.pool i).svrType ∧
      ((socketDisconn p pos).pool i).svrId = (p.pool i).svrId := by
    intro i
    rw [socketDisconn_pool hlt]
    by_cases hi : i = pos
    · subst hi
      simp [setEp, setSocket]
    · simp [setEp, setSocket, hi]
  constructor
  · rw [hfree]
    exact h.nodup
  · intro i hi
    rw [hconf, (hpool i).1, registered_congr hsvrs]
    exact h.free i (hfree ▸ hi)
  · intro t id i hat
    obtain ⟨h1, -, h3, h4⟩ := hpool i
    rw [hconf, h1, h3, h4]
    exact h.entries t id i ((at_congr hsvrs).mp hat)
  · intro i hi
    rw [(hpool i).2.1]
    exact h.socketPos i (hconf ▸ hi)

/-- An end of file is harmless on a registered slot, and on a free one. -/
def Expected (p : Proxy) (pos : Nat) : Prop := Registered p pos ∨ pos ∈ p.freeList

/-- A registered slot that is closed waits for its server. -/
theorem socketDisconn_covered {p : Proxy} {pos : Nat} (h : Covered p)
    (hlt : pos < p.conf.maxSvrNum) (he : Expected p pos) : Covered (socketDisconn p pos) := by
  rcases he with hr | hf
  · exact (socketDisconn_same hlt hr).covered h
  · obtain ⟨hconf, hfree, hsvrs⟩ := socketDisconn_tables p pos
    intro i hi
    rw [hconf] at hi
    rw [hfree, registered_congr hsvrs, socketDisconn_pool hlt]
    by_cases hip : i = pos
    · subst hip
      exact .inl hf
    · simpa [setEp, setSocket, hip] using h i hi

theorem slots_kept : Kept (fun p => Sound p ∧ Covered p) Expected where
  send f _ t id _ hp hat :=
    have hs := sendOneData_same ⟨t, id, hat⟩ f
    ⟨hs.sound hp.1, hs.covered hp.2⟩
  recvBuf p pos bs hp :=
    have hs := setRecvBuf_same p pos bs
    ⟨hs.sound hp.1, hs.covered hp.2⟩
  release _ _ hp hlt hs := ⟨socketRelease_sound hp.1 hlt hs, socketRelease_covered hp.2 hlt⟩
  disconn _ _ hp hlt he := ⟨socketDisconn_sound hp.1 hlt, socketDisconn_covered hp.2 hlt he⟩
  socketPos _ hp := hp.1.socketPos

/-! ## Registration -/

/-- `resize` adds only empty entries. -/
theorem ensureType_ok {p p' : Proxy} {t : Nat} (h : ensureType p t = some p') :
    (∃ svrs, p' = { p with svrs := svrs }) ∧ ∀ t' id pos, At p' t' id pos ↔ At p t' id pos := by
  unfold ensureType at h
  split at h
  · cases h
    exact ⟨⟨p.svrs, rfl⟩, fun _ _ _ => Iff.rfl⟩
  · next hn =>
    obtain ⟨s, -, rfl⟩ := Option.map_eq_some_iff.mp h
    refine ⟨⟨_, rfl⟩, fun t' id pos => ?_⟩
    unfold At
    by_cases ht : t' = t
    · subst ht
      simp [hn, List.getElem?_replicate]
    · simp [ht]

/-- The entry of the type and number in the slot names the slot. -/
theorem enter_ok {p q : Proxy} {pos : Nat} (h : enter p pos = .ok q) :
    (∃ e, entry p (p.pool pos).svrType (p.pool pos).svrId = .ok e) ∧
      q = setEntry p (p.pool pos).svrType (p.pool pos).svrId pos := by
  unfold enter at h
  split at h
  · cases h
  · next e he =>
    cases h
    exact ⟨⟨e, he⟩, rfl⟩

/-- `Register` ignores the socket, takes an empty entry, or takes over from the entry's socket. -/
theorem register_ok {p q : Proxy} {pos : Nat} (h : register p pos = .ok q) :
    q = p ∨ ∃ p', ensureType p (p.pool pos).svrType = some p' ∧
      ((entry p' (p.pool pos).svrType (p.pool pos).svrId = .ok none ∧
        q = setEntry p' (p.pool pos).svrType (p.pool pos).svrId pos) ∨
      ∃ before, At p' (p.pool pos).svrType (p.pool pos).svrId before ∧
        enter (takeOver p' before pos) pos = .ok q) := by
  unfold register at h
  split at h
  · cases h
    exact .inl rfl
  · next p' he =>
    refine .inr ⟨p', he, ?_⟩
    obtain ⟨⟨svrs, rfl⟩, -⟩ := ensureType_ok he
    split at h
    · cases h
    · next hn => exact .inl ⟨hn, (enter_ok h).2⟩
    · next before hb => exact .inr ⟨before, entry_eq_some.mp hb, h⟩

/-- One entry is set, and the others are as before. -/
theorem at_setEntry {p : Proxy} {t id : Nat} {e : Option Nat} (he : entry p t id = .ok e)
    (pos t' id' pos' : Nat) :
    At (setEntry p t id pos) t' id' pos' ↔
      (t' = t ∧ id' = id ∧ pos' = pos) ∨ (¬ (t' = t ∧ id' = id) ∧ At p t' id' pos') := by
  unfold entry at he
  cases hv : p.svrs t with
  | none => simp [hv] at he
  | some v =>
    have hlt : id < v.length := by
      by_contra hge
      simp [hv, List.getElem?_eq_none (Nat.not_lt.mp hge)] at he
    unfold At setEntry
    by_cases ht : t' = t
    · subst ht
      by_cases hid : id' = id
      · subst hid
        simp [hv, hlt, eq_comm]
      · simp [hv, hid, List.getElem?_set_ne (Ne.symm hid)]
    · simp [ht]

theorem entry_congr {p q : Proxy} (h : q.svrs = p.svrs) (t id : Nat) :
    entry q t id = entry p t id := by
  unfold entry
  rw [h]

theorem takeOver_svrs (p : Proxy) (before pos : Nat) : (takeOver p before pos).svrs = p.svrs :=
  socketRelease_svrs (setEp p pos (inherited p before pos)) _

/-- What `SendBufData` leaves when a new socket takes over. -/
def handOver (p : Proxy) (before pos : Nat) : Sent :=
  SendBuffer.sendBufData (p.kernel.close (p.pool before).ep.fd) (inherited p before pos)

/-- The slot `before` can be given up for the new slot `pos`. -/
structure Replaces (p : Proxy) (before pos : Nat) : Prop where
  lt : before < p.conf.maxSvrNum
  socketPos : (p.pool before).socketPos = before
  ne : before ≠ pos

/-- The new socket keeps its identity, the replaced slot is cleared, and nothing else moves. -/
theorem takeOver_eq {p : Proxy} {before pos : Nat} (h : Replaces p before pos) :
    takeOver p before pos =
      { p with
        pool := Function.update (Function.update p.pool before (SvrSocket.cleared before)) pos
          { p.pool pos with ep := (handOver p before pos).ep }
        freeList := p.freeList ++ [before]
        kernel := (handOver p before pos).kernel } := by
  have hbefore : (setEp p pos (inherited p before pos)).pool before = p.pool before := by
    simp [setEp, setSocket, h.ne]
  have hself : (setEp p pos (inherited p before pos)).pool pos =
      { p.pool pos with ep := inherited p before pos } := by
    simp [setEp, setSocket]
  unfold takeOver
  dsimp only
  rw [hbefore, h.socketPos,
    socketRelease_of_lt (p := setEp p pos (inherited p before pos)) h.lt, hbefore]
  have hpool : Function.update (setEp p pos (inherited p before pos)).pool before
      (SvrSocket.cleared before) pos = { p.pool pos with ep := inherited p before pos } := by
    rw [Function.update_of_ne (Ne.symm h.ne), hself]
  simp only [sendBufData, setEp, setSocket] at hpool ⊢
  rw [hpool, Function.update_comm (Ne.symm h.ne), Function.update_idem]
  rfl

theorem takeOver_conf {p : Proxy} {before pos : Nat} (h : Replaces p before pos) :
    (takeOver p before pos).conf = p.conf := by
  rw [takeOver_eq h]

theorem takeOver_freeList {p : Proxy} {before pos : Nat} (h : Replaces p before pos) :
    (takeOver p before pos).freeList = p.freeList ++ [before] := by
  rw [takeOver_eq h]

theorem takeOver_kernel {p : Proxy} {before pos : Nat} (h : Replaces p before pos) :
    (takeOver p before pos).kernel = (handOver p before pos).kernel := by
  rw [takeOver_eq h]

/-- The new slot has what it was left, and the old one is cleared. -/
theorem takeOver_pool {p : Proxy} {before pos : Nat} (h : Replaces p before pos) (i : Nat) :
    (takeOver p before pos).pool i =
      if i = pos then { p.pool pos with ep := (handOver p before pos).ep }
      else if i = before then SvrSocket.cleared before else p.pool i := by
  rw [takeOver_eq h]
  by_cases hi : i = pos
  · subst hi
    simp
  · by_cases hib : i = before
    · subst hib
      simp [hi]
    · simp [hi, hib]

/-- A socket that takes over from another one is entered as what it has registered as. -/
theorem enter_takeOver {p q : Proxy} {before pos : Nat} (h : Replaces p before pos)
    (hq : enter (takeOver p before pos) pos = .ok q) :
    q = setEntry (takeOver p before pos) (p.pool pos).svrType (p.pool pos).svrId pos := by
  have hpool := takeOver_pool h pos
  rw [if_pos rfl] at hpool
  rw [(enter_ok hq).2, hpool]

/-- A connection that has just been accepted and is not in the table yet. -/
structure Arrived (p : Proxy) (pos : Nat) : Prop where
  sound : Sound p
  lt : pos < p.conf.maxSvrNum
  spare : Spare p pos
  type : (p.pool pos).type = clinetSocket

theorem Arrived.replaces {p : Proxy} {pos before t id : Nat} (h : Arrived p pos)
    (hb : At p t id before) : Replaces p before pos := by
  obtain ⟨hlt, -, -, -⟩ := h.sound.entries t id before hb
  exact ⟨hlt, h.sound.socketPos before hlt, hb.ne h.spare.2⟩

theorem Arrived.ensureType {p p' : Proxy} {pos t : Nat} (h : Arrived p pos)
    (he : ensureType p t = some p') : Arrived p' pos := by
  obtain ⟨⟨svrs, rfl⟩, hat⟩ := ensureType_ok he
  have hreg : ∀ i, Registered { p with svrs := svrs } i ↔ Registered p i := by
    intro i
    simp only [Registered, hat]
  refine ⟨⟨h.sound.nodup, fun i hi => ?_, fun t' id i hi => ?_, h.sound.socketPos⟩, h.lt, ?_,
    h.type⟩
  · rw [hreg]
    exact h.sound.free i hi
  · exact h.sound.entries t' id i ((hat t' id i).mp hi)
  · exact ⟨h.spare.1, fun hr => h.spare.2 ((hreg pos).mp hr)⟩

theorem CoveredBut.ensureType {p p' : Proxy} {pos t : Nat} (h : CoveredBut p pos)
    (he : ensureType p t = some p') : CoveredBut p' pos := by
  obtain ⟨⟨svrs, rfl⟩, hat⟩ := ensureType_ok he
  intro i hi hne
  have hreg : Registered { p with svrs := svrs } i ↔ Registered p i := by
    simp only [Registered, hat]
  rw [hreg]
  exact h i hi hne

/-- The first registration of an entry. -/
theorem setEntry_sound {p : Proxy} {pos t id : Nat} (h : Arrived p pos)
    (ht : (p.pool pos).svrType = t) (hid : (p.pool pos).svrId = id)
    (he : entry p t id = .ok none) : Sound (setEntry p t id pos) := by
  refine ⟨h.sound.nodup, ?_, ?_, h.sound.socketPos⟩
  · intro i hi
    obtain ⟨hlt, htype, hreg⟩ := h.sound.free i hi
    refine ⟨hlt, htype, ?_⟩
    rintro ⟨t', id', hat⟩
    rcases (at_setEntry he pos t' id' i).mp hat with ⟨-, -, rfl⟩ | ⟨-, hold⟩
    · exact h.spare.1 hi
    · exact hreg ⟨t', id', hold⟩
  · intro t' id' i hat
    rcases (at_setEntry he pos t' id' i).mp hat with ⟨rfl, rfl, rfl⟩ | ⟨-, hold⟩
    · exact ⟨h.lt, h.type, ht, hid⟩
    · exact h.sound.entries t' id' i hold

/-- The entry still names the old slot when the new one has taken over. -/
theorem takeOver_entry {p : Proxy} {pos before t id : Nat} (hb : At p t id before) :
    entry (takeOver p before pos) t id = .ok (some before) := by
  rw [entry_congr (takeOver_svrs p before pos)]
  exact entry_eq_some.mpr hb

/-- After a reconnect the entry names the new slot, and the old slot is named nowhere. -/
theorem at_reconnect {p : Proxy} {pos before t id : Nat} (h : Arrived p pos)
    (hb : At p t id before) {t' id' i : Nat}
    (hat : At (setEntry (takeOver p before pos) t id pos) t' id' i) :
    (t' = t ∧ id' = id ∧ i = pos) ∨
      (¬ (t' = t ∧ id' = id) ∧ i ≠ pos ∧ i ≠ before ∧ At p t' id' i) := by
  rcases (at_setEntry (takeOver_entry hb) pos t' id' i).mp hat with hnew | ⟨hother, hold⟩
  · exact .inl hnew
  · rw [at_congr (takeOver_svrs p before pos)] at hold
    refine .inr ⟨hother, hold.ne h.spare.2, ?_, hold⟩
    rintro rfl
    exact hother (h.sound.at_unique hold hb)

/-- A reconnect: the old slot leaves the table in the same step in which it is released. -/
theorem reconnect_sound {p : Proxy} {pos before t id : Nat} (h : Arrived p pos)
    (ht : (p.pool pos).svrType = t) (hid : (p.pool pos).svrId = id)
    (hb : At p t id before) : Sound (setEntry (takeOver p before pos) t id pos) := by
  have hreplaces := h.replaces hb
  have hconf := takeOver_conf hreplaces
  have hfree := takeOver_freeList hreplaces
  have hpool := takeOver_pool hreplaces
  refine ⟨?_, ?_, ?_, ?_⟩
  · rw [setEntry_freeList, hfree]
    exact h.sound.nodup.append (List.nodup_singleton before)
      (by simpa using h.sound.not_free_of_at hb)
  · intro i hi
    rw [setEntry_freeList, hfree,
      List.mem_append, List.mem_singleton] at hi
    have hip : i ≠ pos := by
      rintro rfl
      rcases hi with hi | hi
      · exact h.spare.1 hi
      · exact hreplaces.ne hi.symm
    have hreg : ¬ Registered (setEntry (takeOver p before pos) t id pos) i := by
      rintro ⟨t', id', hat⟩
      rcases at_reconnect h hb hat with ⟨-, -, rfl⟩ | ⟨-, -, hib, hold⟩
      · exact hip rfl
      · exact h.sound.not_free_of_at hold (hi.resolve_right hib)
    refine ⟨?_, ?_, hreg⟩
    · rw [setEntry_conf, hconf]
      rcases hi with hi | rfl
      · exact (h.sound.free i hi).1
      · exact hreplaces.lt
    · rw [setEntry_pool, hpool i, if_neg hip]
      split
      · rfl
      · next hib => exact (h.sound.free i (hi.resolve_right hib)).2.1
  · intro t' id' i hat
    rw [setEntry_conf, hconf,
      setEntry_pool, hpool i]
    rcases at_reconnect h hb hat with ⟨rfl, rfl, rfl⟩ | ⟨-, hip, hib, hold⟩
    · simp [h.lt, h.type, ht, hid]
    · simp only [hip, hib, if_false]
      exact h.sound.entries t' id' i hold
  · intro i hi
    rw [setEntry_conf, hconf] at hi
    rw [setEntry_pool, hpool i]
    split
    · next hip =>
      rw [hip]
      exact h.sound.socketPos pos h.lt
    · split
      · next hib => rw [hib]; rfl
      · exact h.sound.socketPos i hi

/-- A registration puts the new slot into the table, and takes the old one out. -/
theorem register_sound {p q : Proxy} {pos : Nat} (h : Arrived p pos)
    (hq : register p pos = .ok q) : Sound q := by
  rcases register_ok hq with rfl | ⟨p', he, hcase⟩
  · exact h.sound
  · have h' := h.ensureType he
    obtain ⟨⟨svrs, rfl⟩, -⟩ := ensureType_ok he
    rcases hcase with ⟨hnone, rfl⟩ | ⟨before, hb, hq⟩
    · exact setEntry_sound h' rfl rfl hnone
    · rw [enter_takeOver (h'.replaces hb) hq]
      exact reconnect_sound h' rfl rfl hb

theorem setEntry_covered {p : Proxy} {pos t id : Nat} {e : Option Nat}
    (hc : CoveredBut p pos) (htype : (p.pool pos).type = clinetSocket)
    (he : entry p t id = .ok e) (hb : ∀ before, e = some before → before ∈ p.freeList) :
    Covered (setEntry p t id pos) := by
  intro i hi
  by_cases hip : i = pos
  · subst hip
    exact .inr (.inr ⟨htype, .inr ⟨t, id, (at_setEntry he i t id i).mpr (.inl ⟨rfl, rfl, rfl⟩)⟩⟩)
  · rcases hc i hi hip with hf | hl | ⟨hcl, hfd | ⟨t', id', hat⟩⟩
    · exact .inl hf
    · exact .inr (.inl hl)
    · exact .inr (.inr ⟨hcl, .inl hfd⟩)
    · by_cases hold : t' = t ∧ id' = id
      · obtain ⟨rfl, rfl⟩ := hold
        have : e = some i := by
          rw [entry_eq_some.mpr hat] at he
          cases he
          rfl
        exact .inl (hb i this)
      · exact .inr (.inr ⟨hcl, .inr ⟨t', id',
          (at_setEntry he pos t' id' i).mpr (.inr ⟨hold, hat⟩)⟩⟩)

theorem takeOver_coveredBut {p : Proxy} {before pos : Nat} (h : CoveredBut p pos)
    (hr : Replaces p before pos) : CoveredBut (takeOver p before pos) pos := by
  intro i hi hip
  rw [takeOver_conf hr] at hi
  rw [takeOver_freeList hr, takeOver_pool hr, if_neg hip,
    registered_congr (takeOver_svrs p before pos)]
  by_cases hib : i = before
  · simp [hib]
  · rw [if_neg hib, List.mem_append]
    rcases h i hi hip with hf | hrest
    · exact .inl (.inl hf)
    · exact .inr hrest

/-- No slot is lost on the way. -/
theorem register_covered {p q : Proxy} {pos : Nat} (h : Arrived p pos) (hc : CoveredBut p pos)
    (hfd : (p.pool pos).ep.fd ≠ sockClosed) (hq : register p pos = .ok q) : Covered q := by
  rcases register_ok hq with rfl | ⟨p', he, hcase⟩
  · intro i hi
    by_cases hip : i = pos
    · subst hip
      exact .inr (.inr ⟨h.type, .inl hfd⟩)
    · exact hc i hi hip
  · have h' := h.ensureType he
    have hc' := hc.ensureType he
    obtain ⟨⟨svrs, rfl⟩, -⟩ := ensureType_ok he
    rcases hcase with ⟨hnone, rfl⟩ | ⟨before, hb, hq⟩
    · exact setEntry_covered hc' h'.type hnone (fun _ h => by cases h)
    · have hr := h'.replaces hb
      rw [enter_takeOver hr hq]
      refine setEntry_covered (takeOver_coveredBut hc' hr) ?_ (takeOver_entry hb) ?_
      · rw [takeOver_pool hr, if_pos rfl]
        exact h'.type
      · intro b hb'
        cases hb'
        rw [takeOver_freeList hr]
        exact List.mem_append_right _ (List.mem_singleton.mpr rfl)

/-! ## Accepting -/

/-- The head of the free list is taken for a connection; `s` is what is stored into the slot. -/
def takeSlot (p : Proxy) (pos : Nat) (rest : List Nat) (s : SvrSocket) (k : Kernel) : Proxy :=
  { setSocket { p with freeList := rest } pos s with kernel := k }

theorem takeSlot_pool (p : Proxy) (pos : Nat) (rest : List Nat) (s : SvrSocket) (k : Kernel)
    (i : Nat) : (takeSlot p pos rest s k).pool i = if i = pos then s else p.pool i := by
  by_cases hi : i = pos
  · simp [takeSlot, setSocket, hi]
  · simp [takeSlot, setSocket, hi]

/-- What a failed accept leaves in the slots. -/
theorem returned_pool {p : Proxy} {pos : Nat} (hlt : pos < p.conf.maxSvrNum) (rest : List Nat)
    (s : SvrSocket) (k : Kernel) (i : Nat) :
    (socketRelease (takeSlot p pos rest s k) pos).pool i =
      if i = pos then SvrSocket.cleared pos else p.pool i := by
  have hlt : pos < (takeSlot p pos rest s k).conf.maxSvrNum := hlt
  rw [socketRelease_pool hlt, takeSlot_pool]
  split <;> rfl

theorem returned_kernel {p : Proxy} {pos : Nat} (hlt : pos < p.conf.maxSvrNum) (rest : List Nat)
    (s : SvrSocket) (k : Kernel) :
    (socketRelease (takeSlot p pos rest s k) pos).kernel = k.close s.ep.fd := by
  have hlt : pos < (takeSlot p pos rest s k).conf.maxSvrNum := hlt
  rw [socketRelease_of_lt hlt]
  simp [takeSlot, setSocket]

/-- A slot that is taken is not free any more. -/
theorem takeSlot_sound {p : Proxy} {pos : Nat} {rest : List Nat} (h : Sound p)
    (hf : p.freeList = pos :: rest) {s : SvrSocket} (hs : s.socketPos = pos) (k : Kernel) :
    Sound (takeSlot p pos rest s k) ∧ pos < p.conf.maxSvrNum ∧
      Spare (takeSlot p pos rest s k) pos := by
  obtain ⟨hlt, -, hreg⟩ := h.free pos (by rw [hf]; exact List.mem_cons_self ..)
  have hnd : pos ∉ rest ∧ rest.Nodup := List.nodup_cons.mp (hf ▸ h.nodup)
  have hne : ∀ t id i, At (takeSlot p pos rest s k) t id i → i ≠ pos := by
    rintro t id i hat rfl
    exact hreg ⟨t, id, hat⟩
  refine ⟨⟨hnd.2, ?_, ?_, ?_⟩, hlt, hnd.1, hreg⟩
  · intro i hi
    have hip : i ≠ pos := by
      rintro rfl
      exact hnd.1 hi
    rw [takeSlot_pool, if_neg hip]
    exact h.free i (by rw [hf]; exact List.mem_cons_of_mem _ hi)
  · intro t id i hat
    rw [takeSlot_pool, if_neg (hne t id i hat)]
    exact h.entries t id i hat
  · intro i hi
    rw [takeSlot_pool]
    split
    · next hip => rw [hs, hip]
    · exact h.socketPos i hi

theorem takeSlot_coveredBut {p : Proxy} {pos : Nat} {rest : List Nat} (h : Covered p)
    (hf : p.freeList = pos :: rest) (s : SvrSocket) (k : Kernel) :
    CoveredBut (takeSlot p pos rest s k) pos := by
  intro i hi hip
  rw [takeSlot_pool, if_neg hip]
  rcases h i hi with hfree | hr
  · rw [hf] at hfree
    exact .inl ((List.mem_cons.mp hfree).resolve_left hip)
  · exact .inr hr

/-- An accept with no free slot does nothing, a failed one returns the slot, and a complete one
registers it. -/
theorem acceptConnect_ok {p q : Proxy} {a : AcceptAnswer} (h : acceptConnect p a = .ok q) :
    q = p ∨ ∃ pos rest, p.freeList = pos :: rest ∧
      ((∃ s k, s.socketPos = (p.pool pos).socketPos ∧ p.kernel.Later (k.close s.ep.fd) ∧
          k.wire = p.kernel.wire ∧
          q = socketRelease (takeSlot p pos rest s k) (p.pool pos).socketPos) ∨
        ∃ fd t id, a = .ok fd t id ∧ register (takeSlot p pos rest
          { acceptedSocket (p.pool pos) fd with svrType := t, svrId := id }
          (p.kernel.bind fd)) pos = .ok q) := by
  unfold acceptConnect at h
  split at h
  · cases h
    exact .inl rfl
  · next pos rest hf =>
    refine .inr ⟨pos, rest, hf, ?_⟩
    cases a with
    | failed =>
      cases h
      refine .inl ⟨p.pool pos, p.kernel, rfl, later_close _ _, rfl, ?_⟩
      simp [takeSlot, setSocket]
    | rejected fd =>
      cases h
      exact .inl ⟨acceptedSocket (p.pool pos) fd, p.kernel.bind fd, rfl,
        later_bind_close _ _, rfl, rfl⟩
    | ok fd t id => exact .inr ⟨fd, t, id, rfl, h⟩

/-- An accepted connection is registered, or its slot is free again. -/
theorem acceptConnect_sound {p q : Proxy} {a : AcceptAnswer} (h : Sound p)
    (hq : acceptConnect p a = .ok q) : Sound q := by
  rcases acceptConnect_ok hq with rfl | ⟨pos, rest, hf, hcase⟩
  · exact h
  · have hlt := (h.free pos (by rw [hf]; exact List.mem_cons_self ..)).1
    have hpos := h.socketPos pos hlt
    rcases hcase with ⟨s, k, hs, -, -, rfl⟩ | ⟨fd, t, id, -, hreg⟩
    · obtain ⟨hsound, -, hspare⟩ := takeSlot_sound h hf (hs.trans hpos) k
      rw [hpos]
      exact socketRelease_sound hsound hlt hspare
    · obtain ⟨hsound, -, hspare⟩ := takeSlot_sound h hf
        (s := { acceptedSocket (p.pool pos) fd with svrType := t, svrId := id }) hpos
        (p.kernel.bind fd)
      exact register_sound ⟨hsound, hlt, hspare, by rw [takeSlot_pool, if_pos rfl]; rfl⟩ hreg

theorem acceptConnect_covered {p q : Proxy} {a : AcceptAnswer} (h : Sound p) (hc : Covered p)
    (hq : acceptConnect p a = .ok q) : Covered q := by
  rcases acceptConnect_ok hq with rfl | ⟨pos, rest, hf, hcase⟩
  · exact hc
  · have hlt := (h.free pos (by rw [hf]; exact List.mem_cons_self ..)).1
    have hpos := h.socketPos pos hlt
    rcases hcase with ⟨s, k, hs, -, -, rfl⟩ | ⟨fd, t, id, -, hreg⟩
    · rw [hpos]
      exact (takeSlot_coveredBut hc hf s k).release hlt
    · obtain ⟨hsound, -, hspare⟩ := takeSlot_sound h hf
        (s := { acceptedSocket (p.pool pos) fd with svrType := t, svrId := id }) hpos
        (p.kernel.bind fd)
      refine register_covered ⟨hsound, hlt, hspare, by rw [takeSlot_pool, if_pos rfl]; rfl⟩
        (takeSlot_coveredBut hc hf _ _) ?_ hreg
      rw [takeSlot_pool, if_pos rfl]
      have hfd : (0 : Int) ≤ fd := Int.natCast_nonneg fd
      simp only [acceptedSocket, sockClosed]
      omega

/-! ## Whole runs -/

/-- `EPOLLERR` comes only for spare slots, and the receive loops are harmless. -/
def Guard (eof : Proxy → Nat → Prop) (p : Proxy) : Event → Prop
  | .error pos => pos < p.conf.maxSvrNum → Spare p pos
  | .input pos _ recvs =>
    pos < p.conf.maxSvrNum → (p.pool pos).type ≠ listenSocket → RecvGuard eof p pos recvs

/-- Any invariant of the receive loops that accepting keeps too is kept by every guarded event. -/
theorem step_kept {inv : Proxy → Prop} {eof : Proxy → Nat → Prop} (hk : Kept inv eof)
    {p q : Proxy} {e : Event} (hp : inv p) (hg : Guard eof p e)
    (haccept : ∀ pos a rs, e = .input pos a rs → (p.pool pos).type = listenSocket →
      acceptConnect p a = .ok q → inv q)
    (hq : Step p e q) : inv q := by
  cases e with
  | error pos =>
    simp only [Step, dealEvent] at hq
    cases hq
    by_cases hlt : pos < p.conf.maxSvrNum
    · exact hk.release p pos hp hlt (hg hlt)
    · rw [socketRelease, if_pos (Nat.not_lt.mp hlt)]
      exact hp
  | input pos a recvs =>
    simp only [Step, dealEvent] at hq
    split at hq
    · cases hq
      exact hp
    · next hlt =>
      have hlt := Nat.not_le.mp hlt
      split at hq
      · next htype => exact haccept pos a recvs rfl htype hq
      · next htype => exact recvServerData_kept hk hlt hp (hg hlt htype) hq

/-- Slot accounting holds after every run in which `EPOLLERR` and bad lengths come only from
connections that are not registered, and an end of file or a fatal `recv` never from those. -/
theorem run_slotsAccounted (conf : CenterConfig) (answer : Nat → SendAnswer) (es : List Event)
    (q : Proxy) (h : Trace.Run Step (Guard Expected) (initNetwork conf answer) es q) :
    SlotsAccounted q := by
  have hinv : Sound q ∧ Covered q := by
    refine h.invariant (fun p => Sound p ∧ Covered p)
      ⟨initNetwork_sound conf answer, initNetwork_covered conf answer⟩ ?_
    intro s e s' hs hg hstep
    exact step_kept slots_kept hs hg
      (fun _ _ _ _ _ ha => ⟨acceptConnect_sound hs.1 ha, acceptConnect_covered hs.1 hs.2 ha⟩) hstep
  exact SlotsAccounted.of_sound hinv.1 hinv.2

/-- Two slots besides the listener, and one server of type 7. -/
def smallConf : CenterConfig := ⟨3, [⟨7, 1⟩]⟩

/-- A server registers, loses its connection and comes back. -/
theorem reconnect_run :
    ∃ q, Trace.Run Step (Guard Expected) (initNetwork smallConf fun _ => .all)
      [.input 0 (.ok 5 7 0) [], .input 1 .failed [.data []], .input 0 (.ok 6 7 0) []] q :=
  ⟨_, .cons (fun _ h => absurd rfl h) rfl (.cons (fun _ _ => .inr (.inl ⟨7, 0, _, rfl, rfl⟩)) rfl
    (.cons (fun _ h => absurd rfl h) rfl (.nil _)))⟩

theorem run_slotsAccounted_reconnect :
    ∃ q, Trace.Run Step (Guard Expected) (initNetwork smallConf fun _ => .all)
      [.input 0 (.ok 5 7 0) [], .input 1 .failed [.data []], .input 0 (.ok 6 7 0) []] q ∧
      SlotsAccounted q := by
  obtain ⟨q, h⟩ := reconnect_run
  exact ⟨q, h, run_slotsAccounted _ _ _ q h⟩

/-- `EPOLLERR` on a registered server: its slot is free again while the table still names it. -/
theorem error_on_registered_dangles :
    ∃ es q, Trace.Run Step (fun _ _ => True) (initNetwork smallConf fun _ => .all) es q ∧
      ¬ SlotsAccounted q := by
  refine ⟨[.input 0 (.ok 5 7 0) [], .error 1], _,
    .cons trivial rfl (.cons trivial rfl (.nil _)), ?_⟩
  intro h
  have hat := (h.entries 7 0 1 ⟨_, rfl, rfl⟩).2.2.1
  exact absurd hat (by decide)

end ProxySvr
