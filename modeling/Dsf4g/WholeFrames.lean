import Dsf4g.CenterMng
import Dsf4g.ProxyTransfer

/-!
# Whole frames on the wire

The proxy's receivers are the entries of its table: an entry keeps its ledger when
a server reconnects and its send buffer moves to another slot.
-/
namespace ProxySvr

open Base Sockets SendBuffer

def submittedTo (calls : List Call) (k : Nat × Nat) : List (List UInt8) :=
  (calls.filter fun c => (c.svrType, c.svrId) = k).map Call.frame

def observed (p : Proxy) : Ledger.Observed (Nat × Nat) where
  submitted := submittedTo p.calls
  wire := p.kernel.wire
  buffer := fun k => ((slotOf p k).map fun pos => (p.pool pos).ep.sendBuf.val).getD []
  dropped := p.dropped
  current := fun k => (slotOf p k).bind fun pos => p.kernel.conns (p.pool pos).ep.fd

structure Linked (p : Proxy) (own : Nat → Nat × Nat) (led : Nat × Nat → Ledger) : Prop where
  books : Ledger.Books p.kernel.wire own led
  submitted : ∀ k, submittedTo p.calls k = (led k).frames
  dropped : ∀ k, p.dropped k = (led k).discarded
  waiting : ∀ t id pos, At p t id pos →
    (led (t, id)).waiting.flatten = (p.pool pos).ep.sendBuf.val
  absent : ∀ t id, (∀ pos, ¬ At p t id pos) → (led (t, id)).waiting.flatten = []
  /-- A connected entry writes on a connection of its own. -/
  conn : ∀ t id pos, At p t id pos → (p.pool pos).ep.fd ≠ sockClosed →
    ∀ c, p.kernel.conns (p.pool pos).ep.fd = some c → own c = (t, id)
  /-- Descriptors lead to connections that have been opened. -/
  bound : ∀ fd c, p.kernel.conns fd = some c → c < p.kernel.opened
  unused : ∀ c, p.kernel.opened ≤ c → p.kernel.wire c = []
  freeBuf : ∀ pos ∈ p.freeList, (p.pool pos).ep.sendBuf = SendBuf.empty

/-- What holds in every state of a run without partial sends. -/
structure Wired (p : Proxy) : Prop where
  sound : Sound p
  whole : p.kernel.Whole
  linked : ∃ own led, Linked p own led

theorem Linked.wholeFrames {p : Proxy} {own : Nat → Nat × Nat} {led : Nat × Nat → Ledger}
    (h : Linked p own led) : (observed p).WholeFrames := by
  refine Ledger.Observed.wholeFrames_of_books h.books h.submitted (fun k => ?_) h.dropped
  cases hs : slotOf p k with
  | none =>
    have hno : ∀ pos, ¬ At p k.1 k.2 pos := by
      intro pos hat
      rw [← slotOf_eq_some, hs] at hat
      cases hat
    simp [observed, hs, h.absent k.1 k.2 hno]
  | some pos => simp [observed, hs, h.waiting k.1 k.2 pos (slotOf_eq_some.mp hs)]

theorem at_functional {p : Proxy} {t id pos pos' : Nat} (h : At p t id pos)
    (h' : At p t id pos') : pos = pos' := by
  obtain ⟨v, hv, he⟩ := h
  obtain ⟨v', hv', he'⟩ := h'
  rw [hv] at hv'
  cases hv'
  rw [he] at he'
  cases he'
  rfl

/-! ## Steps that send nothing -/

/-- The kernel moves on without new descriptors, the table names the same slots, and the named
slots keep their buffers and keep or close their descriptors. -/
theorem Linked.quiet {p q : Proxy} {own : Nat → Nat × Nat} {led : Nat × Nat → Ledger}
    (h : Linked p own led) (hk : p.kernel.Later q.kernel) (hw : q.kernel.wire = p.kernel.wire)
    (hc : q.calls = p.calls) (hd : q.dropped = p.dropped)
    (hat : ∀ t id pos, At q t id pos ↔ At p t id pos)
    (hbuf : ∀ t id pos, At p t id pos → (q.pool pos).ep.sendBuf = (p.pool pos).ep.sendBuf)
    (hfd : ∀ t id pos, At p t id pos → (q.pool pos).ep.fd = (p.pool pos).ep.fd ∨
      (q.pool pos).ep.fd = sockClosed)
    (hfree : ∀ pos ∈ q.freeList, (q.pool pos).ep.sendBuf = SendBuf.empty) : Linked q own led where
  books := by rw [hw]; exact h.books
  submitted k := by rw [hc, h.submitted]
  dropped k := by rw [hd, h.dropped]
  waiting t id pos hq := by
    rw [hbuf t id pos ((hat t id pos).mp hq)]
    exact h.waiting t id pos ((hat t id pos).mp hq)
  absent t id hq := h.absent t id fun pos hp => hq pos ((hat t id pos).mpr hp)
  conn t id pos hq hne c hconn := by
    have hp := (hat t id pos).mp hq
    have hsame := (hfd t id pos hp).resolve_right hne
    rw [hsame] at hne hconn
    exact h.conn t id pos hp hne c (hk.conns _ c hconn)
  bound fd c hconn := Nat.lt_of_lt_of_le (h.bound fd c (hk.conns fd c hconn)) hk.opened
  unused c hc := by
    rw [hw]
    exact h.unused c (Nat.le_trans hk.opened hc)
  freeBuf := hfree

theorem setRecvBuf_linked {p : Proxy} {own : Nat → Nat × Nat} {led : Nat × Nat → Ledger}
    (h : Linked p own led) (pos : Nat) (bs : List UInt8) :
    Linked (setEp p pos { (p.pool pos).ep with recvBuf := bs }) own led := by
  have hpool : ∀ i, ((setEp p pos { (p.pool pos).ep with recvBuf := bs }).pool i).ep.sendBuf =
      (p.pool i).ep.sendBuf := by
    intro i
    by_cases hi : i = pos
    · subst hi
      simp [setEp, setSocket]
    · simp [setEp, setSocket, hi]
  have hs := setRecvBuf_same p pos bs
  refine h.quiet (Kernel.Later.refl _) rfl rfl rfl (fun _ _ _ => at_congr rfl)
    (fun _ _ i _ => hpool i) (fun _ _ i _ => ?_) (fun i hi => ?_)
  · rcases hs.fd i with he | ⟨hc, -⟩
    · exact .inl he
    · exact .inr hc
  · rw [hpool i]
    exact h.freeBuf i hi

theorem socketRelease_linked {p : Proxy} {own : Nat → Nat × Nat} {led : Nat × Nat → Ledger}
    (h : Linked p own led) {pos : Nat} (hlt : pos < p.conf.maxSvrNum)
    (hr : ¬ Registered p pos) : Linked (socketRelease p pos) own led := by
  have hpool := socketRelease_pool hlt
  have hkernel : (socketRelease p pos).kernel = p.kernel.close (p.pool pos).ep.fd := by
    rw [socketRelease_of_lt hlt]
  refine h.quiet ?_ ?_ ?_ ?_ (fun _ _ _ => at_congr (socketRelease_svrs p pos)) ?_ ?_ ?_
  · rw [hkernel]
    exact later_close _ _
  · rw [hkernel]
    rfl
  · rw [socketRelease_of_lt hlt]
    rfl
  · rw [socketRelease_of_lt hlt]
    rfl
  · intro t id i hat
    rw [hpool i, if_neg (hat.ne hr)]
  · intro t id i hat
    rw [hpool i, if_neg (hat.ne hr)]
    exact .inl rfl
  · intro i hi
    rw [hpool i]
    split
    · rfl
    · next hip =>
      rw [socketRelease_freeList hlt, List.mem_append, List.mem_singleton] at hi
      exact h.freeBuf i (hi.resolve_right hip)

theorem socketDisconn_linked {p : Proxy} {own : Nat → Nat × Nat} {led : Nat × Nat → Ledger}
    (h : Linked p own led) {pos : Nat} (hlt : pos < p.conf.maxSvrNum) :
    Linked (socketDisconn p pos) own led := by
  obtain ⟨-, hfree, hsvrs⟩ := socketDisconn_tables p pos
  have heq : socketDisconn p pos = { setEp p pos { (p.pool pos).ep with fd := sockClosed } with
      kernel := p.kernel.close (p.pool pos).ep.fd } := if_neg (Nat.not_le.mpr hlt)
  have hpool : ∀ i, ((socketDisconn p pos).pool i).ep.sendBuf = (p.pool i).ep.sendBuf ∧
      (((socketDisconn p pos).pool i).ep.fd = (p.pool i).ep.fd ∨
        ((socketDisconn p pos).pool i).ep.fd = sockClosed) := by
    intro i
    rw [socketDisconn_pool hlt]
    by_cases hi : i = pos
    · subst hi
      simp [setEp, setSocket]
    · simp [setEp, setSocket, hi]
  refine h.quiet ?_ ?_ ?_ ?_ (fun _ _ _ => at_congr hsvrs) (fun _ _ i _ => (hpool i).1)
    (fun _ _ i _ => (hpool i).2) (fun i hi => ?_)
  · rw [heq]
    exact later_close _ _
  · rw [heq]
    rfl
  · rw [heq]
    rfl
  · rw [heq]
    rfl
  · rw [(hpool i).1]
    exact h.freeBuf i (hfree ▸ hi)

/-! ## Steps that send -/

theorem submittedTo_append (calls : List Call) (c : Call) (k : Nat × Nat) :
    submittedTo (calls ++ [c]) k =
      if (c.svrType, c.svrId) = k then submittedTo calls k ++ [c.frame]
      else submittedTo calls k := by
  by_cases h : (c.svrType, c.svrId) = k
  · simp [submittedTo, h]
  · simp [submittedTo, h]

/-- A connection nobody has a descriptor for is not written on. -/
theorem Linked.unused_later {p : Proxy} {own : Nat → Nat × Nat} {led : Nat × Nat → Ledger}
    (h : Linked p own led) {k : Kernel} (hk : p.kernel.Later k) {c : Nat} (hc : k.opened ≤ c) :
    k.wire c = [] := by
  have hc := Nat.le_trans hk.opened hc
  rw [hk.wire c fun fd hfd => absurd (h.bound fd c hfd) (Nat.not_lt.mpr hc)]
  exact h.unused c hc

/-- A frame that is sent goes into the ledger of its entry. -/
theorem sendOneData_linked {p : Proxy} {own : Nat → Nat × Nat} {led : Nat × Nat → Ledger}
    (hs : Sound p) (hk : p.kernel.Whole) (h : Linked p own led) {t id pos : Nat}
    (hat : At p t id pos) (f : Packet) : ∃ led', Linked (sendOneData p pos f) own led' := by
  obtain ⟨-, -, htype, hid⟩ := hs.entries t id pos hat
  obtain ⟨l, hb, hf, hd, hw⟩ := sendOneData_posted hk h.books (h.conn t id pos hat)
    (h.waiting t id pos hat) f
  have hlater := later_sendOneData p.kernel (p.pool pos).ep f
  have hself : ((sendOneData p pos f).pool pos).ep =
      (SendBuffer.sendOneData p.kernel (p.pool pos).ep f).ep := by
    simp [sendOneData, setEp, setSocket]
  have hother : ∀ i, i ≠ pos → (sendOneData p pos f).pool i = p.pool i := by
    intro i hi
    simp [sendOneData, setEp, setSocket, hi]
  have hcase : ∀ t' id' i, At p t' id' i → ((t', id') = (t, id) ∧ i = pos) ∨
      ((t', id') ≠ (t, id) ∧ i ≠ pos) := by
    intro t' id' i hi
    by_cases hip : i = pos
    · subst hip
      obtain ⟨rfl, rfl⟩ := hs.at_unique hi hat
      exact .inl ⟨rfl, rfl⟩
    · refine .inr ⟨?_, hip⟩
      rintro he
      cases he
      exact hip (at_functional hi hat)
  refine ⟨Function.update led (t, id) l, ?_⟩
  constructor
  case books => exact hb
  case submitted =>
    intro k
    have hcalls : (sendOneData p pos f).calls =
        p.calls ++ [⟨pos, (p.pool pos).svrType, (p.pool pos).svrId, f.val⟩] := rfl
    rw [hcalls, submittedTo_append, htype, hid]
    by_cases hkey : k = (t, id)
    · subst hkey
      simp [hf, h.submitted]
    · rw [if_neg (Ne.symm hkey), Function.update_of_ne hkey, h.submitted]
  case dropped =>
    intro k
    have hdrop : (sendOneData p pos f).dropped = Function.update p.dropped (t, id)
        (p.dropped (t, id) ++ (SendBuffer.sendOneData p.kernel (p.pool pos).ep f).dropped) := by
      simp [sendOneData, htype, hid]
    rw [hdrop]
    by_cases hkey : k = (t, id)
    · subst hkey
      simp [hd, h.dropped]
    · rw [Function.update_of_ne hkey, Function.update_of_ne hkey, h.dropped]
  case waiting =>
    intro t' id' i hi
    rcases hcase t' id' i hi with ⟨hkey, rfl⟩ | ⟨hkey, hip⟩
    · rw [hkey, Function.update_self, hself, hw]
    · rw [Function.update_of_ne hkey, hother i hip]
      exact h.waiting t' id' i hi
  case absent =>
    intro t' id' hno
    have hkey : (t', id') ≠ (t, id) := by
      intro he
      cases he
      exact hno pos hat
    rw [Function.update_of_ne hkey]
    exact h.absent t' id' hno
  case conn =>
    intro t' id' i hi hne c hconn
    have hold := hlater.conns _ c hconn
    rcases hcase t' id' i hi with ⟨hkey, rfl⟩ | ⟨-, hip⟩
    · rw [hself] at hne hold
      have hfd := (sendOneData_fd p.kernel (p.pool i).ep f).resolve_right hne
      rw [hfd] at hne hold
      exact h.conn t' id' i hi hne c hold
    · rw [hother i hip] at hne hold
      exact h.conn t' id' i hi hne c hold
  case bound =>
    intro fd c hconn
    exact Nat.lt_of_lt_of_le (h.bound fd c (hlater.conns fd c hconn)) hlater.opened
  case unused =>
    intro c hc
    exact h.unused_later hlater hc
  case freeBuf =>
    intro i hi
    have hip : i ≠ pos := by
      rintro rfl
      exact hs.not_free_of_at hat hi
    rw [hother i hip]
    exact h.freeBuf i hi

theorem wired_kept : Kept Wired fun _ _ => True where
  send f p t id pos h hat := by
    obtain ⟨own, led, hl⟩ := h.linked
    exact ⟨(sendOneData_same ⟨t, id, hat⟩ f).sound h.sound,
      (later_sendOneData _ _ f).whole h.whole, own, sendOneData_linked h.sound h.whole hl hat f⟩
  recvBuf p pos bs h := by
    obtain ⟨own, led, hl⟩ := h.linked
    exact ⟨(setRecvBuf_same p pos bs).sound h.sound, h.whole, own, led,
      setRecvBuf_linked hl pos bs⟩
  release p pos h hlt hs := by
    obtain ⟨own, led, hl⟩ := h.linked
    refine ⟨socketRelease_sound h.sound hlt hs, ?_, own, led, socketRelease_linked hl hlt hs.2⟩
    rw [socketRelease_of_lt hlt]
    exact h.whole
  disconn p pos h hlt _ := by
    obtain ⟨own, led, hl⟩ := h.linked
    refine ⟨socketDisconn_sound h.sound hlt, ?_, own, led, socketDisconn_linked hl hlt⟩
    have heq : (socketDisconn p pos).kernel = p.kernel.close (p.pool pos).ep.fd := by
      simp [socketDisconn, Nat.not_le.mpr hlt]
    rw [heq]
    exact h.whole
  socketPos _ h := h.sound.socketPos

/-! ## Accepting a connection -/

/-- A failed accept returns the slot; its descriptor, if there is one, is closed at once. -/
theorem returned_linked {p : Proxy} {own : Nat → Nat × Nat} {led : Nat × Nat → Ledger}
    (h : Linked p own led) {pos : Nat} {rest : List Nat} (hf : p.freeList = pos :: rest)
    {s : SvrSocket} {k : Kernel} (hlt : pos < p.conf.maxSvrNum) (hr : ¬ Registered p pos)
    (hk : p.kernel.Later (k.close s.ep.fd)) (hw : k.wire = p.kernel.wire) :
    Linked (socketRelease (takeSlot p pos rest s k) pos) own led := by
  have hlt' : pos < (takeSlot p pos rest s k).conf.maxSvrNum := hlt
  have hpool := returned_pool hlt rest s k
  have hkernel := returned_kernel hlt rest s k
  have hrest : (socketRelease (takeSlot p pos rest s k) pos).calls = p.calls ∧
      (socketRelease (takeSlot p pos rest s k) pos).dropped = p.dropped := by
    rw [socketRelease_of_lt hlt']
    exact ⟨rfl, rfl⟩
  refine h.quiet ?_ ?_ hrest.1 hrest.2 (fun _ _ _ => at_congr (socketRelease_svrs _ pos)) ?_ ?_ ?_
  · rw [hkernel]
    exact hk
  · rw [hkernel]
    exact hw
  · intro t id i hat
    rw [hpool i, if_neg (hat.ne hr)]
  · intro t id i hat
    rw [hpool i, if_neg (hat.ne hr)]
    exact .inl rfl
  · intro i hi
    rw [hpool i]
    split
    · rfl
    · next hip =>
      rw [socketRelease_freeList hlt', List.mem_append, List.mem_singleton] at hi
      exact h.freeBuf i (by rw [hf]; exact List.mem_cons_of_mem _ (hi.resolve_right hip))

/-- The slot a connection is accepted into, with the peer it announces. -/
def welcome (p : Proxy) (pos fd t id : Nat) : SvrSocket :=
  { acceptedSocket (p.pool pos) fd with svrType := t, svrId := id }

/-- The new connection is given to the entry it announces. -/
theorem accepted_linked {p : Proxy} {own : Nat → Nat × Nat} {led : Nat × Nat → Ledger}
    (h : Linked p own led) {pos : Nat} {rest : List Nat} (hf : p.freeList = pos :: rest)
    (hr : ¬ Registered p pos) (hnd : pos ∉ rest) {fd t id : Nat}
    (hfresh : ∀ i, Registered p i → (p.pool i).ep.fd ≠ (fd : Int)) :
    Linked (takeSlot p pos rest (welcome p pos fd t id) (p.kernel.bind fd))
      (Function.update own p.kernel.opened (t, id)) led := by
  have hpool := takeSlot_pool p pos rest (welcome p pos fd t id) (p.kernel.bind fd)
  refine ⟨h.books.give (h.unused _ (Nat.le_refl _)) (t, id), h.submitted, h.dropped, ?_, h.absent,
    ?_, ?_, ?_, ?_⟩
  · intro t' id' i hat
    rw [hpool i, if_neg (hat.ne hr)]
    exact h.waiting t' id' i hat
  · intro t' id' i hat hopen c hconn
    have hconn : (p.kernel.bind fd).conns
        ((takeSlot p pos rest (welcome p pos fd t id) (p.kernel.bind fd)).pool i).ep.fd =
        some c := hconn
    rw [hpool i, if_neg (hat.ne hr)] at hopen hconn
    rw [bind_conns_of_ne (hfresh i ⟨t', id', hat⟩)] at hconn
    have hlt := h.bound _ c hconn
    rw [Function.update_of_ne (Nat.ne_of_lt hlt)]
    exact h.conn t' id' i hat hopen c hconn
  · intro fd' c hconn
    have hconn : (p.kernel.bind fd).conns fd' = some c := hconn
    by_cases hfd : fd' = fd
    · subst hfd
      rw [bind_conns_self] at hconn
      cases hconn
      exact Nat.lt_succ_self _
    · rw [bind_conns_of_ne hfd] at hconn
      exact Nat.lt_succ_of_lt (h.bound fd' c hconn)
  · intro c hc
    exact h.unused c (Nat.le_of_succ_le hc)
  · intro i hi
    have hip : i ≠ pos := by
      rintro rfl
      exact hnd hi
    rw [hpool i, if_neg hip]
    exact h.freeBuf i (by rw [hf]; exact List.mem_cons_of_mem _ hi)

/-- The new socket has nothing to send, and its connection leads to the entry it announces. -/
structure Welcomed (p : Proxy) (own : Nat → Nat × Nat) (pos : Nat) : Prop where
  empty : (p.pool pos).ep.sendBuf = SendBuf.empty
  conn : ∀ c, p.kernel.conns (p.pool pos).ep.fd = some c →
    own c = ((p.pool pos).svrType, (p.pool pos).svrId)

theorem setEntry_linked {p : Proxy} {own : Nat → Nat × Nat} {led : Nat × Nat → Ledger}
    (h : Linked p own led) {t id pos : Nat} (hw : Welcomed p own pos)
    (ht : (p.pool pos).svrType = t) (hid : (p.pool pos).svrId = id)
    (he : entry p t id = .ok none) : Linked (setEntry p t id pos) own led := by
  have hno : ∀ i, ¬ At p t id i := by
    intro i hat
    rw [entry_eq_some.mpr hat] at he
    cases he
  refine ⟨h.books, h.submitted, h.dropped, ?_, ?_, ?_, h.bound, h.unused, h.freeBuf⟩
  · intro t' id' i hat
    rcases (at_setEntry he pos t' id' i).mp hat with ⟨rfl, rfl, rfl⟩ | ⟨-, hold⟩
    · rw [h.absent t' id' hno, setEntry_pool, hw.empty]
      rfl
    · exact h.waiting t' id' i hold
  · intro t' id' hnone
    refine h.absent t' id' fun i hat => ?_
    have hother : ¬ (t' = t ∧ id' = id) := by
      rintro ⟨rfl, rfl⟩
      exact hno i hat
    exact hnone i ((at_setEntry he pos t' id' i).mpr (.inr ⟨hother, hat⟩))
  · intro t' id' i hat hne c hconn
    rcases (at_setEntry he pos t' id' i).mp hat with ⟨rfl, rfl, rfl⟩ | ⟨-, hold⟩
    · rw [← ht, ← hid]
      exact hw.conn c hconn
    · exact h.conn t' id' i hold hne c hconn

/-- A reconnect: the buffered frames of the entry move to the new slot and are sent there. -/
theorem reconnect_linked {p : Proxy} {own : Nat → Nat × Nat} {led : Nat × Nat → Ledger}
    (h : Linked p own led) (hk : p.kernel.Whole) {t id pos before : Nat} (ha : Arrived p pos)
    (hw : Welcomed p own pos) (ht : (p.pool pos).svrType = t) (hid : (p.pool pos).svrId = id)
    (hb : At p t id before) :
    ∃ led', Linked (setEntry (takeOver p before pos) t id pos) own led' := by
  have hr := ha.replaces hb
  have hpool := takeOver_pool hr
  have hclose := later_close p.kernel (p.pool before).ep.fd
  have hlater : p.kernel.Later (handOver p before pos).kernel :=
    hclose.trans (later_sendBufData _ _)
  have hconn : ∀ c, (p.kernel.close (p.pool before).ep.fd).conns (inherited p before pos).fd =
      some c → own c = (t, id) := by
    intro c hc
    rw [← ht, ← hid]
    exact hw.conn c (hclose.conns _ c hc)
  obtain ⟨l, hbooks, hf, hd, hwait⟩ := sendBufData_posted (e := inherited p before pos)
    (hclose.whole hk) h.books hconn (h.waiting t id before hb)
  rw [sendBufData_dropped, List.append_nil] at hd
  rw [List.append_nil] at hf
  have hother : ∀ t' id', ¬ (t' = t ∧ id' = id) → ((t', id') : Nat × Nat) ≠ (t, id) := by
    intro t' id' hn he
    cases he
    exact hn ⟨rfl, rfl⟩
  have hkernel : (setEntry (takeOver p before pos) t id pos).kernel =
      (handOver p before pos).kernel := takeOver_kernel hr
  refine ⟨Function.update led (t, id) l, ?_⟩
  constructor
  case books =>
    rw [hkernel]
    exact hbooks
  case submitted =>
    intro k
    have hcalls : (setEntry (takeOver p before pos) t id pos).calls = p.calls := by
      rw [takeOver_eq hr]
      rfl
    rw [hcalls, h.submitted, Ledger.update_keeps Ledger.frames hf]
  case dropped =>
    intro k
    have hdrop : (setEntry (takeOver p before pos) t id pos).dropped = p.dropped := by
      rw [takeOver_eq hr]
      rfl
    rw [hdrop, h.dropped, Ledger.update_keeps Ledger.discarded hd]
  case waiting =>
    intro t' id' i hat
    rw [setEntry_pool, hpool i]
    rcases at_reconnect ha hb hat with ⟨rfl, rfl, rfl⟩ | ⟨hn, hip, hib, hold⟩
    · rw [Function.update_self, if_pos rfl]
      exact hwait
    · rw [Function.update_of_ne (hother t' id' hn), if_neg hip, if_neg hib]
      exact h.waiting t' id' i hold
  case absent =>
    intro t' id' hnone
    have he : entry (takeOver p before pos) t id = .ok (some before) := takeOver_entry hb
    have hn : ¬ (t' = t ∧ id' = id) := fun hkey =>
      hnone pos ((at_setEntry he pos t' id' pos).mpr (.inl ⟨hkey.1, hkey.2, rfl⟩))
    rw [Function.update_of_ne (hother t' id' hn)]
    refine h.absent t' id' fun i hat => hnone i ((at_setEntry he pos t' id' i).mpr (.inr ⟨hn, ?_⟩))
    exact (at_congr (takeOver_svrs p before pos)).mpr hat
  case conn =>
    intro t' id' i hat hopen c hc
    rw [hkernel] at hc
    have hold := hlater.conns _ c hc
    rw [setEntry_pool, hpool i] at hopen hold
    rcases at_reconnect ha hb hat with ⟨rfl, rfl, rfl⟩ | ⟨-, hip, hib, hat'⟩
    · rw [if_pos rfl] at hopen hold
      have hfd := (sendBufData_fd (p.kernel.close (p.pool before).ep.fd)
        (inherited p before i)).resolve_right hopen
      rw [← ht, ← hid]
      refine hw.conn c ?_
      have hsame : (handOver p before i).ep.fd = (p.pool i).ep.fd := hfd
      rw [← hsame]
      exact hold
    · rw [if_neg hip, if_neg hib] at hopen hold
      exact h.conn t' id' i hat' hopen c hold
  case bound =>
    intro fd c hc
    rw [hkernel] at hc ⊢
    exact Nat.lt_of_lt_of_le (h.bound fd c (hlater.conns fd c hc)) hlater.opened
  case unused =>
    intro c hc
    rw [hkernel] at hc ⊢
    exact h.unused_later hlater hc
  case freeBuf =>
    intro i hi
    rw [setEntry_freeList, takeOver_freeList hr, List.mem_append, List.mem_singleton] at hi
    rw [setEntry_pool, hpool i]
    have hip : i ≠ pos := by
      rintro rfl
      rcases hi with hi | hi
      · exact ha.spare.1 hi
      · exact hr.ne hi.symm
    rw [if_neg hip]
    split
    · rfl
    · next hib => exact h.freeBuf i (hi.resolve_right hib)

theorem ensureType_linked {p p' : Proxy} {own : Nat → Nat × Nat} {led : Nat × Nat → Ledger}
    {t : Nat} (h : Linked p own led) (he : ensureType p t = some p') : Linked p' own led := by
  obtain ⟨⟨svrs, rfl⟩, hat⟩ := ensureType_ok he
  exact h.quiet (Kernel.Later.refl _) rfl rfl rfl hat (fun _ _ _ _ => rfl)
    (fun _ _ _ _ => .inl rfl) h.freeBuf

/-- The ledger goes with the buffer that is handed over. -/
theorem register_linked {p q : Proxy} {own : Nat → Nat × Nat} {led : Nat × Nat → Ledger}
    {pos : Nat} (h : Linked p own led) (hk : p.kernel.Whole) (ha : Arrived p pos)
    (hw : Welcomed p own pos) (hq : register p pos = .ok q) :
    q.kernel.Whole ∧ ∃ led', Linked q own led' := by
  rcases register_ok hq with rfl | ⟨p', he, hcase⟩
  · exact ⟨hk, led, h⟩
  · have h' := ensureType_linked h he
    have ha' := ha.ensureType he
    obtain ⟨⟨svrs, rfl⟩, -⟩ := ensureType_ok he
    rcases hcase with ⟨hnone, rfl⟩ | ⟨before, hb, hq⟩
    · exact ⟨hk, led, setEntry_linked h' ⟨hw.empty, hw.conn⟩ rfl rfl hnone⟩
    · rw [enter_takeOver (ha'.replaces hb) hq]
      refine ⟨?_, reconnect_linked h' hk ha' ⟨hw.empty, hw.conn⟩ rfl rfl hb⟩
      rw [setEntry_kernel, takeOver_kernel (ha'.replaces hb)]
      exact ((later_close _ _).trans (later_sendBufData _ _)).whole hk

/-- `accept` does not hand out a descriptor number that a registered slot still holds. -/
def FreshAccept (p : Proxy) : AcceptAnswer → Prop
  | .ok fd _ _ => ∀ i, Registered p i → (p.pool i).ep.fd ≠ (fd : Int)
  | _ => True

theorem acceptConnect_wired {p q : Proxy} {a : AcceptAnswer} (h : Wired p)
    (hfresh : FreshAccept p a) (hq : acceptConnect p a = .ok q) : Wired q := by
  have hsound := acceptConnect_sound h.sound hq
  obtain ⟨own, led, hl⟩ := h.linked
  rcases acceptConnect_ok hq with rfl | ⟨pos, rest, hf, hcase⟩
  · exact h
  · obtain ⟨hlt, -, hr⟩ := h.sound.free pos (by rw [hf]; exact List.mem_cons_self ..)
    have hpos := h.sound.socketPos pos hlt
    have hnd : pos ∉ rest := (List.nodup_cons.mp (hf ▸ h.sound.nodup)).1
    rcases hcase with ⟨s, k, -, hk, hw, rfl⟩ | ⟨fd, t, id, rfl, hreg⟩
    · rw [hpos] at hsound ⊢
      refine ⟨hsound, ?_, own, led, returned_linked hl hf hlt hr hk hw⟩
      rw [socketRelease_of_lt (p := takeSlot p pos rest s k) hlt]
      intro i n
      have hans : k.answer = p.kernel.answer := hk.answer
      exact hans ▸ h.whole i n
    · obtain ⟨hs, -, hspare⟩ := takeSlot_sound (s := welcome p pos fd t id) h.sound hf hpos
        (p.kernel.bind fd)
      have hpool : (takeSlot p pos rest (welcome p pos fd t id) (p.kernel.bind fd)).pool pos =
          welcome p pos fd t id := by
        rw [takeSlot_pool, if_pos rfl]
      have ha : Arrived (takeSlot p pos rest (welcome p pos fd t id) (p.kernel.bind fd)) pos :=
        ⟨hs, hlt, hspare, by rw [hpool]; rfl⟩
      have hw : Welcomed (takeSlot p pos rest (welcome p pos fd t id) (p.kernel.bind fd))
          (Function.update own p.kernel.opened (t, id)) pos := by
        constructor
        · rw [hpool]
          exact hl.freeBuf pos (by rw [hf]; exact List.mem_cons_self ..)
        · intro c hc
          rw [hpool] at hc ⊢
          have hc : (p.kernel.bind fd).conns (fd : Int) = some c := hc
          rw [bind_conns_self] at hc
          cases hc
          rw [Function.update_self]
          rfl
      obtain ⟨hwhole, led', hl'⟩ :=
        register_linked (accepted_linked hl hf hr hnd hfresh) h.whole ha hw hreg
      exact ⟨hsound, hwhole, _, led', hl'⟩

/-- The steps after which every frame is accounted for: registered slots are not released by
`EPOLLERR` or a bad length, and descriptor numbers are not shared. -/
def WireGuard (p : Proxy) (e : Event) : Prop :=
  Guard (fun _ _ => True) p e ∧
    ∀ pos a rs, e = .input pos a rs → (p.pool pos).type = listenSocket → FreshAccept p a

theorem initNetwork_wired (conf : CenterConfig) {answer : Nat → SendAnswer}
    (h : ∀ i n, answer i ≠ .part n) : Wired (initNetwork conf answer) := by
  have hnone : ∀ t id pos, ¬ At (initNetwork conf answer) t id pos := by
    rintro t id pos ⟨v, hv, -⟩
    simp [initNetwork] at hv
  refine ⟨initNetwork_sound conf answer, h, fun _ => (0, 0), fun _ => Ledger.empty, ?_⟩
  refine ⟨Ledger.Books.init _, fun _ => rfl, fun _ => rfl,
    fun t id pos hat => absurd hat (hnone t id pos), fun _ _ _ => rfl,
    fun t id pos hat => absurd hat (hnone t id pos), ?_, fun _ _ => rfl, ?_⟩
  · intro fd c hc
    simp [initNetwork, Kernel.start] at hc
  · intro pos _
    by_cases hp : pos = 0
    · subst hp
      rfl
    · simp [initNetwork, hp, SvrSocket.cleared]

/-- By induction on the events. -/
theorem run_wired {conf : CenterConfig} {answer : Nat → SendAnswer} {es : List Event} {q : Proxy}
    (hwhole : ∀ i n, answer i ≠ .part n)
    (h : Trace.Run Step WireGuard (initNetwork conf answer) es q) : Wired q := by
  refine h.invariant Wired (initNetwork_wired conf hwhole) ?_
  intro s e s' hs hg hstep
  exact step_kept wired_kept hs hg.1
    (fun pos a rs he htype ha => acceptConnect_wired hs (hg.2 pos a rs he htype) ha) hstep

/-- When no `send` takes part of what it is offered, both senders put whole frames on the wire:
`CenterMng` in every run, and the proxy in every run in which registered slots are released by
`Register` alone. -/
theorem run_wholeFrames (answer : Nat → SendAnswer) (hwhole : ∀ i n, answer i ≠ .part n) :
    (∀ fd ops, (CenterMng.observed
      (CenterMng.run (CenterMng.init answer fd) ops)).WholeFrames) ∧
    ∀ conf es q, Trace.Run Step WireGuard (initNetwork conf answer) es q →
      (observed q).WholeFrames := by
  constructor
  · intro fd ops
    exact (CenterMng.run_inv (CenterMng.init_inv hwhole fd) ops).wholeFrames
  · intro conf es q h
    obtain ⟨own, led, hl⟩ := (run_wired hwhole h).linked
    exact hl.wholeFrames

/-- A server registers and sends itself a frame. -/
theorem transfer_run :
    ∃ q, Trace.Run Step WireGuard (initNetwork smallConf fun _ => .all)
      [.input 0 (.ok 5 7 0) [], .input 1 .failed [.data (frameTo 1).val]] q := by
  obtain ⟨p, hp, htype, hm, hok⟩ : ∃ p, Step (initNetwork smallConf fun _ => .all)
      (.input 0 (.ok 5 7 0) []) p ∧ (p.pool 1).type = clinetSocket ∧
      malformed (stored p 1 (frameTo 1).val) = false ∧
      (dealEvent p (.input 1 .failed [.data (frameTo 1).val])).toBool = true :=
    ⟨_, rfl, rfl, by decide +kernel, by decide +kernel⟩
  have hfirst : WireGuard (initNetwork smallConf fun _ => .all) (.input 0 (.ok 5 7 0) []) := by
    refine ⟨fun _ h => absurd rfl h, ?_⟩
    rintro pos a rs he -
    cases he
    rintro i ⟨t, id, v, hv, -⟩
    simp [initNetwork] at hv
  have hsecond : WireGuard p (.input 1 .failed [.data (frameTo 1).val]) := by
    refine ⟨fun _ _ => .inr ⟨fun h => ?_, fun _ _ => trivial⟩, ?_⟩
    · exact absurd (hm.symm.trans h) (by decide)
    · rintro pos a rs he -
      cases he
      trivial
  cases hq : dealEvent p (.input 1 .failed [.data (frameTo 1).val]) with
  | error e =>
    rw [hq] at hok
    cases hok
  | ok q => exact ⟨q, .cons hfirst hp (.cons hsecond hq (.nil q))⟩

theorem run_wholeFrames_transfer :
    (∀ i n, (fun _ => SendAnswer.all : Nat → SendAnswer) i ≠ .part n) ∧
    (CenterMng.observed (CenterMng.run (CenterMng.init (fun _ => .all) (-1))
      [.checkConnect (.ok 3) true, .sendOneData (frameTo 1)])).WholeFrames ∧
    ∃ q, Trace.Run Step WireGuard (initNetwork smallConf fun _ => .all)
      [.input 0 (.ok 5 7 0) [], .input 1 .failed [.data (frameTo 1).val]] q ∧
      (observed q).WholeFrames := by
  have hall : ∀ i n, (fun _ => SendAnswer.all : Nat → SendAnswer) i ≠ .part n := by simp
  obtain ⟨hcenter, hproxy⟩ := run_wholeFrames (fun _ => .all) hall
  obtain ⟨q, hq⟩ := transfer_run
  exact ⟨hall, hcenter (-1) _, q, hq, hproxy _ _ q hq⟩

def shortSend : CenterMng.Mng :=
  CenterMng.run (CenterMng.init (fun _ => .part 1) (-1))
    [.checkConnect (.ok 3) true, .sendOneData (frameTo 1)]

/-- `SendOneData` takes a count of one for success: the rest of the frame is neither sent nor kept,
and the next frame would follow the first byte. -/
theorem shortSend_not_whole : ¬ (CenterMng.observed shortSend).WholeFrames := by
  rintro ⟨led, own, part, hsub, hwire, -, -, hbuf, -⟩
  have hw : (CenterMng.observed shortSend).wire 0 = [44] := by decide +kernel
  have hs : (CenterMng.observed shortSend).submitted () = [(frameTo 1).val] := by decide +kernel
  have hb : (CenterMng.observed shortSend).buffer () = [] := by decide +kernel
  have hc : (CenterMng.observed shortSend).current () = some 0 := by decide +kernel
  have hlen : (frameTo 1).val.length = 44 := by decide
  have hsub := hsub ()
  have hwire := hwire 0
  have hbuf := hbuf ()
  rw [hs, Ledger.frames] at hsub
  rw [hw, Ledger.written] at hwire
  rw [hb, hc, List.append_nil] at hbuf
  have hbuf : part 0 = (led ()).waiting.flatten := hbuf
  cases hset : (led ()).settled with
  | nil =>
    rw [hset, List.map_nil, List.nil_append] at hsub
    rw [← hsub] at hbuf
    rw [hset, hbuf] at hwire
    have := congrArg List.length hwire
    simp [Ledger.bytesOf, hlen] at this
  | cons e es =>
    rw [hset, List.map_cons, List.cons_append, List.cons.injEq, eq_comm (a := []),
      List.append_eq_nil_iff, List.map_eq_nil_iff] at hsub
    obtain ⟨hf, hes, hwait⟩ := hsub
    rw [hwait, List.flatten_nil] at hbuf
    rw [hset, hes, hbuf, List.append_nil] at hwire
    have := congrArg List.length hwire
    by_cases hfate : e.fate = .written 0
    · simp [Ledger.bytesOf, hfate, ← hf, hlen] at this
    · simp [Ledger.bytesOf, hfate] at this

end ProxySvr
