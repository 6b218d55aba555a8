import Dsf4g.LateDiscon

/-!
# Players and the connections they are bound to

The binding of a player to its connection is announced to the gateway by an index
frame and taken back by a disconnect notice, both through pipes. Between the two,
the slot of the connection holds the uid or an index frame for it is on its way;
once the connection is released, a notice is on its way.
-/
namespace HallSvr

open Base TcpSvr

/-- The slot of a connection is open and still belongs to it. -/
structure InUse (t : Svr) (k : Conn) : Prop where
  inRange : k.socketPos < t.maxClientNum
  client : (t.pool k.socketPos).type = clinetSocket
  taken : k.socketPos ∉ t.freeList
  sameTime : (t.pool k.socketPos).createTime = k.createTime

/-- The logic index of a connection once the frames on their way are handled. -/
def pendingIndex (k : Conn) (fs : List TcpFrame) (n : Nat) : Nat :=
  fs.foldl (fun n f => if Indexes f ∧ f.head.conn = k then Bytes.ofLe f.payload else n) n

/-- A connection that carries a uid, or soon will, and is not about to be closed. -/
structure Bound (t : Svr) (k : Conn) (u : UInt64) : Prop where
  inUse : InUse t k
  stays : ∀ f ∈ t.scPipe.items, Closes f → f.head.conn ≠ k
  index : pendingIndex k t.scPipe.items (t.pool k.socketPos).logicIndex = u.toNat

def Leaving (t : Svr) (u : UInt64) : Prop := ∃ f ∈ t.csPipe.items, disconUid f = some u

structure GhostFree (s : System) : Prop where
  valid : s.players.Valid
  named : ∀ i, (s.tcp.pool i).socketPos = i
  unique : ∀ u v p q, s.players.getPlayer u = some p → s.players.getPlayer v = some q →
    p.tcpHead.conn = q.tcpHead.conn → u = v
  bound : ∀ u p, s.players.getPlayer u = some p → ¬ Leaving s.tcp u →
    Bound s.tcp p.tcpHead.conn u

def refusedOf (c : Codec) : Event → Option TcpHead
  | .dispatch (.client head data) now _ =>
    match c.parse data with
    | some ⟨uid, .login token⟩ =>
      if checkToken c uid.toUInt64 token now then none else some head
    | _ => none
  | _ => none

/-- The steps after which a player can lose its connection unnoticed are not taken. -/
structure GhostGuard (c : Codec) (s : System) (e : Event) : Prop where
  /-- A released connection has received its index, and its notice fits into the pipe. -/
  release : ∀ t pos, released s e = some (t, pos) → ∀ u p, s.players.getPlayer u = some p →
    ¬ Leaving s.tcp u → p.tcpHead.conn = (t.pool pos).conn →
      (t.pool pos).logicIndex = u.toNat ∧ u ≠ 0 ∧ noticeFits t
  /-- A login is handled on a connection that no other player uses, that is still open, and that is
  not about to be closed. -/
  login : ∀ head uid, loginOf c e = some (head, uid) →
    (∀ p, s.players.getPlayer uid = some p → p.tcpHead.conn ≠ head.conn) →
    (∀ v p, v ≠ uid → s.players.getPlayer v = some p → p.tcpHead.conn ≠ head.conn) ∧
      (¬ Leaving s.tcp uid →
        InUse s.tcp head.conn ∧ ∀ f ∈ s.tcp.scPipe.items, Closes f → f.head.conn ≠ head.conn)
  /-- A login is refused only on a connection without a player. -/
  refusal : ∀ head, refusedOf c e = some head → ∀ u p, s.players.getPlayer u = some p →
    ¬ Leaving s.tcp u → p.tcpHead.conn ≠ head.conn

/-! ## Pending indices -/

/-- The frames are handled from the front. -/
theorem pendingIndex_append (k : Conn) (fs gs : List TcpFrame) (n : Nat) :
    pendingIndex k (fs ++ gs) n = pendingIndex k gs (pendingIndex k fs n) :=
  List.foldl_append ..

/-- Only the index frames of the connection count. -/
theorem pendingIndex_other {k : Conn} {fs : List TcpFrame}
    (h : ∀ f ∈ fs, f.head.conn = k → ¬ Indexes f) (n : Nat) : pendingIndex k fs n = n := by
  induction fs generalizing n with
  | nil => rfl
  | cons f fs ih =>
    have hf : ¬ (Indexes f ∧ f.head.conn = k) := fun hi => h f (List.mem_cons_self ..) hi.2 hi.1
    change pendingIndex k fs (if Indexes f ∧ f.head.conn = k then _ else n) = n
    rw [if_neg hf]
    exact ih (fun g hg => h g (List.mem_cons_of_mem _ hg)) n

theorem indexFrame_indexes (head : TcpHead) (uid : UInt64) : Indexes (indexFrame head uid) :=
  ⟨rfl, Bytes.le_length 8 _⟩

theorem indexFrame_payload (head : TcpHead) (uid : UInt64) :
    Bytes.ofLe (indexFrame head uid).payload = uid.toNat := by
  have hlt := uid.toNat_lt
  exact Bytes.ofLe_le_of_lt (by omega)

/-! ## Bound connections stay bound -/

/-- A slot that keeps its type and time stays in use. -/
theorem InUse.of_slot {t t' : Svr} {k : Conn} (h : InUse t k)
    (hmax : t'.maxClientNum = t.maxClientNum)
    (hslot : (t'.pool k.socketPos).type = (t.pool k.socketPos).type ∧
      (t'.pool k.socketPos).createTime = (t.pool k.socketPos).createTime)
    (hfree : k.socketPos ∈ t'.freeList → k.socketPos ∈ t.freeList) : InUse t' k :=
  ⟨hmax ▸ h.inRange, hslot.1.trans h.client, fun hf => h.taken (hfree hf),
    hslot.2.trans h.sameTime⟩

/-- A frame for a connection in use reaches it. -/
theorem InUse.reaches {t : Svr} {k : Conn} (h : InUse t k) {f : TcpFrame}
    (hf : f.head.conn = k) : Reaches t f := by
  subst hf
  exact ⟨h.inRange, h.sameTime.symm⟩

/-- A frame that reaches the slot of a connection in use is for this connection. -/
theorem InUse.conn_eq {t : Svr} {k : Conn} (h : InUse t k) {f : TcpFrame} (hf : Reaches t f)
    (hpos : f.head.socketPos = k.socketPos) : f.head.conn = k := by
  have htime : f.head.createTime = k.createTime := by rw [hf.sameTime, hpos, h.sameTime]
  rw [TcpHead.conn, hpos, htime]

theorem Bound.before {t t₁ : Svr} {k : Conn} {u : UInt64} (hb : Bound t k u) (h : Before t t₁) :
    Bound t₁ k u := by
  obtain ⟨n, hslot⟩ := h.slot k.socketPos
  obtain ⟨gs, hsc, hgs⟩ := h.sc
  refine ⟨hb.inUse.of_slot h.maxClientNum (by rw [hslot]; exact ⟨rfl, rfl⟩) (h.freeList _),
    fun f hf => hb.stays f (by rw [hsc]; exact List.mem_append_right _ hf), ?_⟩
  rw [hslot, ← hb.index, hsc, pendingIndex_append,
    pendingIndex_other (fun g hg hk => hgs g hg (hb.inUse.reaches hk))]

/-- Frames for other connections, or of no consequence, are added to the pipe. -/
theorem Bound.append {t : Svr} {k : Conn} {u : UInt64} (hb : Bound t k u) {q : Fifo TcpFrame}
    {fs : List TcpFrame} (hq : q.items = t.scPipe.items ++ fs)
    (hfs : ∀ f ∈ fs, f.head.conn = k → ¬ Closes f ∧ ¬ Indexes f) :
    Bound { t with scPipe := q } k u := by
  refine ⟨⟨hb.inUse.inRange, hb.inUse.client, hb.inUse.taken, hb.inUse.sameTime⟩, ?_, ?_⟩
  · intro f hf hc hk
    have hf : f ∈ q.items := hf
    rw [hq] at hf
    rcases List.mem_append.mp hf with hf | hf
    · exact hb.stays f hf hc hk
    · exact (hfs f hf hk).1 hc
  · change pendingIndex k q.items _ = _
    rw [hq, pendingIndex_append, hb.index, pendingIndex_other fun f hf hk => (hfs f hf hk).2]

/-- The release of another slot leaves a binding alone. -/
theorem Bound.released {t t' : Svr} {k : Conn} {u : UInt64} (hb : Bound t k u) {pos : Nat}
    {notify : Bool} (h : Released t t' pos notify) (hne : k.socketPos ≠ pos) : Bound t' k u := by
  have hslot := h.other k.socketPos hne
  refine ⟨hb.inUse.of_slot h.maxClientNum (by rw [hslot]; exact ⟨rfl, rfl⟩) fun hf => ?_,
    h.scPipe ▸ hb.stays, ?_⟩
  · rw [h.freeList] at hf
    rcases List.mem_append.mp hf with hf | hf
    · exact hf
    · exact absurd (List.mem_singleton.mp hf) hne
  · rw [h.scPipe, hslot]
    exact hb.index

theorem Bound.taken {t t' : Svr} {k : Conn} {u : UInt64} (hb : Bound t k u) {pos : Nat}
    (h : Taken t t' pos) : Bound t' k u := by
  have hne : k.socketPos ≠ pos := by
    intro he
    apply hb.inUse.taken
    rw [h.freeList, he]
    exact List.mem_cons_self ..
  have hslot := h.other k.socketPos hne
  refine ⟨hb.inUse.of_slot h.maxClientNum (by rw [hslot]; exact ⟨rfl, rfl⟩) fun hf => ?_,
    h.scPipe ▸ hb.stays, ?_⟩
  · rw [h.freeList]
    exact List.mem_cons_of_mem _ hf
  · rw [h.scPipe, hslot]
    exact hb.index

theorem Leaving.grow {t t' : Svr} {u : UInt64} (h : Leaving t u) {fs : List TcpFrame}
    (hcs : t'.csPipe.items = t.csPipe.items ++ fs) : Leaving t' u := by
  obtain ⟨f, hf, hu⟩ := h
  exact ⟨f, by rw [hcs]; exact List.mem_append_left _ hf, hu⟩

/-! ## Steps of the gateway -/

/-- A notice on its way stays there until the hall server takes it. -/
theorem tcpEffect_leaving {s : System} {e : Event} {t' : Svr} (h : TcpEffect s e t') {u : UInt64}
    (hl : Leaving s.tcp u) : Leaving t' u := by
  obtain ⟨fs, -, hcs | ⟨t₁, pos, f, -, -, hcs, -⟩⟩ := tcpEffect_cs h
  · exact hl.grow hcs
  · rw [List.append_assoc] at hcs
    exact hl.grow hcs

theorem socketRelease_named {t : Svr} (h : ∀ i, (t.pool i).socketPos = i) (pos : Nat) (b : Bool) :
    ∀ i, ((socketRelease t pos b).pool i).socketPos = i := by
  intro i
  by_cases hpos : pos < t.maxClientNum
  · have hr := socketRelease_released t pos b hpos
    by_cases hi : i = pos
    · rw [hi, hr.slot]
      rfl
    · rw [hr.other i hi]
      exact h i
  · rw [socketRelease, if_pos (Nat.not_lt.mp hpos)]
    exact h i

theorem Before.named {t t₁ : Svr} (h : Before t t₁) (hn : ∀ i, (t.pool i).socketPos = i) :
    ∀ i, (t₁.pool i).socketPos = i := by
  intro i
  obtain ⟨n, hslot⟩ := h.slot i
  rw [hslot]
  exact hn i

theorem tcpEffect_named {s : System} {e : Event} {t' : Svr} (h : TcpEffect s e t')
    (hn : ∀ i, (s.tcp.pool i).socketPos = i) : ∀ i, (t'.pool i).socketPos = i := by
  cases h with
  | none h => exact h.named hn
  | opened pos h =>
    intro i
    by_cases hi : i = pos
    · rw [hi, h.named]
      exact hn pos
    · rw [h.other i hi]
      exact hn i
  | released t₁ pos _ h heq =>
    rw [heq]
    exact socketRelease_named (h.named hn) pos true
  | closed f sc _ _ _ heq =>
    rw [heq]
    refine socketRelease_named ?_ _ false
    exact hn
  | indexed f sc _ _ _ heq =>
    intro i
    rw [heq]
    by_cases hi : i = f.head.socketPos
    · rw [hi, setSocket_pool]
      exact hn _
    · rw [setSocket_pool_other _ _ _ _ hi]
      exact hn i

/-- A `LOGIC_INDEX` frame moves from the pipe into the slot it reaches. -/
theorem Bound.indexed {t : Svr} {k : Conn} {u : UInt64} (hb : Bound t k u) {f : TcpFrame}
    {sc : Fifo TcpFrame} (hsc : t.scPipe.items = f :: sc.items) (hreach : Reaches t f)
    (hindex : Indexes f) :
    Bound (setSocket { t with scPipe := sc } f.head.socketPos
      { t.pool f.head.socketPos with logicIndex := Bytes.ofLe f.payload }) k u := by
  have hstays : ∀ g ∈ sc.items, Closes g → g.head.conn ≠ k := fun g hg =>
    hb.stays g (by rw [hsc]; exact List.mem_cons_of_mem _ hg)
  have hidx := hb.index
  rw [hsc] at hidx
  change pendingIndex k sc.items (if Indexes f ∧ f.head.conn = k then _ else _) = _ at hidx
  by_cases hk : f.head.conn = k
  · rw [if_pos ⟨hindex, hk⟩] at hidx
    have hpos : k.socketPos = f.head.socketPos := by rw [← hk]; rfl
    refine ⟨⟨hb.inUse.inRange, ?_, hb.inUse.taken, ?_⟩, hstays, ?_⟩
    · rw [hpos, setSocket_pool]
      exact hpos ▸ hb.inUse.client
    · rw [hpos, setSocket_pool]
      exact hpos ▸ hb.inUse.sameTime
    · rw [hpos, setSocket_pool]
      exact hidx
  · rw [if_neg (fun h => hk h.2)] at hidx
    have hne : k.socketPos ≠ f.head.socketPos := fun he => hk (hb.inUse.conn_eq hreach he.symm)
    refine ⟨⟨hb.inUse.inRange, ?_, hb.inUse.taken, ?_⟩, hstays, ?_⟩
    · rw [setSocket_pool_other _ _ _ _ hne]
      exact hb.inUse.client
    · rw [setSocket_pool_other _ _ _ _ hne]
      exact hb.inUse.sameTime
    · rw [setSocket_pool_other _ _ _ _ hne]
      exact hidx

/-- A bound connection stays bound, unless it is released; then its uid is leaving. -/
theorem tcpEffect_bound {s : System} {e : Event} {t' : Svr} (h : TcpEffect s e t')
    (hn : ∀ i, (s.tcp.pool i).socketPos = i) {k : Conn} {u : UInt64} (hb : Bound s.tcp k u)
    (hg : ∀ t pos, released s e = some (t, pos) → k = (t.pool pos).conn →
      (t.pool pos).logicIndex = u.toNat ∧ u ≠ 0 ∧ noticeFits t) :
    Leaving t' u ∨ Bound t' k u := by
  cases h with
  | none h => exact .inr (hb.before h)
  | opened pos h => exact .inr (hb.taken h)
  | released t₁ pos hr h heq =>
    have hb₁ := hb.before h
    rw [heq]
    by_cases hpos : pos < t₁.maxClientNum
    · have hrel := socketRelease_released t₁ pos true hpos
      by_cases hk : k.socketPos = pos
      · have hconn : k = (t₁.pool pos).conn := by
          rw [Socket.conn, h.named hn pos, ← hk, hb₁.inUse.sameTime]
        obtain ⟨hindex, hu, hfits⟩ := hg t₁ pos hr hconn
        have hne : (t₁.pool pos).logicIndex ≠ 0 := by
          rw [hindex]
          exact fun h0 => hu (UInt64.toNat_inj.mp h0)
        obtain ⟨f, hf, hfu⟩ := hrel.notice rfl hne hfits
        rw [hindex, UInt64.ofNat_toNat] at hfu
        exact .inl ⟨f, hf, hfu⟩
      · exact .inr (hb₁.released hrel hk)
    · rw [socketRelease, if_pos (Nat.not_lt.mp hpos)]
      exact .inr hb₁
  | closed f sc hsc hreach hclose heq =>
    rw [hn] at heq
    have hne : k.socketPos ≠ f.head.socketPos := by
      intro hk
      refine hb.stays f ?_ hclose (hb.inUse.conn_eq hreach hk.symm)
      rw [hsc]
      exact List.mem_cons_self ..
    have hb₁ : Bound { s.tcp with scPipe := sc } k u := by
      refine hb.before ⟨rfl, fun i => ⟨(s.tcp.pool i).bufOffset, rfl⟩, fun _ h => h,
        ⟨[], by simp, by simp⟩, [f], hsc, fun g hg _ hi => ?_⟩
      rw [List.mem_singleton.mp hg] at hi
      exact hclose.1 hi.1
    rw [heq]
    exact .inr (hb₁.released (socketRelease_released _ _ false hreach.inRange) hne)
  | indexed f sc hsc hreach hindex heq =>
    rw [heq]
    exact .inr (hb.indexed hsc hreach hindex)

/-! ## Steps of the hall server -/

/-- A `LOGIC_INDEX` frame at the end of the pipe binds a connection in use that nothing closes. -/
theorem InUse.bound {t : Svr} {head : TcpHead} {u : UInt64} (h : InUse t head.conn)
    (hstays : ∀ f ∈ t.scPipe.items, Closes f → f.head.conn ≠ head.conn) {sc : Fifo TcpFrame}
    {ks : List TcpFrame} (hks : ∀ f ∈ ks, f.head.conn ≠ head.conn)
    (hsc : sc.items = t.scPipe.items ++ (ks ++ [indexFrame head u])) :
    Bound { t with scPipe := sc } head.conn u := by
  refine ⟨⟨h.inRange, h.client, h.taken, h.sameTime⟩, fun f hf hc hk => ?_, ?_⟩
  · have hf : f ∈ sc.items := hf
    rw [hsc] at hf
    rcases List.mem_append.mp hf with hf | hf
    · exact hstays f hf hc hk
    · rcases List.mem_append.mp hf with hf | hf
      · exact hks f hf hk
      · rw [List.mem_singleton.mp hf] at hc
        exact hc.1 rfl
  · change pendingIndex head.conn sc.items _ = _
    rw [hsc, pendingIndex_append, pendingIndex_append]
    change (if Indexes (indexFrame head u) ∧ _ then _ else _) = _
    rw [if_pos ⟨indexFrame_indexes head u, rfl⟩, indexFrame_payload]

/-- An accepted login: the frames it sends go to its own connection and to the one its player was
on, which carry no other player. -/
theorem rebound_ghostFree {s : System} (h : GhostFree s) {v' : Server} {head : TcpHead}
    {uid : UInt64} {fs : List TcpFrame} (hre : Rebound s.players s.tcp.scPipe v' head uid fs)
    (hnew : ∀ p, s.players.getPlayer uid = some p → p.tcpHead.conn ≠ head.conn)
    (halone : ∀ v p, v ≠ uid → s.players.getPlayer v = some p → p.tcpHead.conn ≠ head.conn)
    (hopen : ¬ Leaving s.tcp uid →
      InUse s.tcp head.conn ∧ ∀ f ∈ s.tcp.scPipe.items, Closes f → f.head.conn ≠ head.conn) :
    GhostFree (s.withServer v') := by
  have hother : ∀ w q, w ≠ uid → s.players.getPlayer w = some q → ¬ Leaving s.tcp w →
      Bound { s.tcp with scPipe := v'.sc } q.tcpHead.conn w := by
    intro w q hw hq hl
    refine (h.bound w q hq hl).append hre.sc fun f hf hk => ?_
    rcases hre.conns f hf with hc | ⟨p, hp, hc⟩
    · exact absurd (hk.symm.trans hc) (halone w q hw hq)
    · exact absurd (h.unique w uid q p hq hp (hk.symm.trans hc)) hw
  rcases hre.players with hget | ⟨hget, ks, rfl, hks⟩
  · refine ⟨hre.valid, h.named, fun u v p q hp hq => ?_, fun u p hp => ?_⟩
    · have hp : v'.players.getPlayer u = some p := hp
      have hq : v'.players.getPlayer v = some q := hq
      rw [hget] at hp hq
      split at hp
      · cases hp
      · split at hq
        · cases hq
        · exact h.unique u v p q hp hq
    · have hp : v'.players.getPlayer u = some p := hp
      rw [hget] at hp
      split at hp
      · cases hp
      · next hu => exact hother u p hu hp
  · refine ⟨hre.valid, h.named, fun u v p q hp hq hconn => ?_, fun u p hp hl => ?_⟩
    · have hp : v'.players.getPlayer u = some p := hp
      have hq : v'.players.getPlayer v = some q := hq
      rw [hget] at hp hq
      split at hp
      · next hu =>
        cases hp
        split at hq
        · next hv => rw [hu, hv]
        · next hv => exact absurd hconn.symm (halone v q hv hq)
      · next hu =>
        split at hq
        · cases hq
          exact absurd hconn (halone u p hu hp)
        · exact h.unique u v p q hp hq hconn
    · have hp : v'.players.getPlayer u = some p := hp
      have hl : ¬ Leaving s.tcp u := hl
      rw [hget] at hp
      split at hp
      · next hu =>
        subst hu
        cases hp
        obtain ⟨huse, hstays⟩ := hopen hl
        have hkick : ∀ f ∈ ks, f.head.conn ≠ head.conn := by
          intro f hf hk
          obtain ⟨p, hp, hc⟩ := hks f hf
          exact hnew p hp (hc.symm.trans hk)
        exact huse.bound hstays hkick hre.sc
      · next hu => exact hother u p hu hp hl

/-- The players stay, and the frames sent do not concern a connection with a player. -/
theorem sent_ghostFree {s : System} (h : GhostFree s) {v' : Server}
    (hplayers : v'.players = s.players) {fs : List TcpFrame}
    (hsc : v'.sc.items = s.tcp.scPipe.items ++ fs)
    (hfs : ∀ u p, s.players.getPlayer u = some p → ¬ Leaving s.tcp u →
      ∀ f ∈ fs, f.head.conn = p.tcpHead.conn → ¬ Closes f ∧ ¬ Indexes f) :
    GhostFree (s.withServer v') := by
  constructor
  · change v'.players.Valid
    rw [hplayers]
    exact h.valid
  · exact h.named
  · change ∀ u v p q, v'.players.getPlayer u = some p → v'.players.getPlayer v = some q → _
    rw [hplayers]
    exact h.unique
  · intro u p hp hl
    have hp : v'.players.getPlayer u = some p := hp
    rw [hplayers] at hp
    exact (h.bound u p hp hl).append hsc (hfs u p hp hl)

/-- A message of the hall server that meets the guard leaves no ghost. -/
theorem dispatch_ghostFree {c : Codec} {s : System} (h : GhostFree s) {m : Posted} {now : UInt32}
    {r : Resumed} (hg : GhostGuard c s (.dispatch m now r)) {v' : Server}
    (heff : DispatchEffect c s.server v' m now) : GhostFree (s.withServer v') := by
  cases heff with
  | quiet hplayers fs hsc hfs =>
    refine sent_ghostFree h hplayers hsc fun u p _ _ f hf _ => ⟨fun hc => ?_, fun hi => ?_⟩
    · have hno := (hfs f hf).2
      rw [hc.2] at hno
      cases hno
    · have hno := (hfs f hf).1
      rw [hi.1] at hno
      cases hno
  | login head data hm uid token hparse hl =>
    cases hl with
    | refused htoken hplayers fs hsc hconn =>
      have href : refusedOf c (.dispatch m now r) = some head := by
        rw [hm, refusedOf, hparse]
        simp only [htoken, Bool.false_eq_true, if_false]
      refine sent_ghostFree h hplayers hsc fun u p hp hl f hf hk => ?_
      exact absurd (hk.symm.trans (hconn f hf)) (hg.refusal head href u p hp hl)
    | again _ hplayers hsc =>
      have hnil : v'.sc.items = s.tcp.scPipe.items ++ [] := by
        rw [hsc, List.append_nil]
        rfl
      exact sent_ghostFree h hplayers hnil fun u p _ _ f hf => (nomatch hf)
    | rebound htoken hnew fs hre =>
      have hlogin : loginOf c (.dispatch m now r) = some (head, uid.toUInt64) := by
        rw [hm]
        exact loginOf_accepted hparse htoken r
      obtain ⟨halone, hopen⟩ := hg.login head uid.toUInt64 hlogin hnew
      exact rebound_ghostFree h hre hnew halone hopen

/-- Every guarded step leaves no ghost. -/
theorem step_ghostFree {c : Codec} {s s' : System} {e : Event} (h : GhostFree s)
    (hg : GhostGuard c s e) (hs : Step c s e s') : GhostFree s' := by
  cases step_effect h.valid hs with
  | tcp hplayers ht =>
    refine ⟨hplayers ▸ h.valid, tcpEffect_named ht h.named, hplayers ▸ h.unique,
      fun u p hp hl => ?_⟩
    rw [hplayers] at hp
    have hl₀ : ¬ Leaving s.tcp u := fun hl₀ => hl (tcpEffect_leaving ht hl₀)
    have hb := h.bound u p hp hl₀
    rcases tcpEffect_bound ht h.named hb fun t pos hr hk => hg.release t pos hr u p hp hl₀ hk with
      hleave | hbound
    · exact absurd hleave hl
    · exact hbound
  | fetched f cs hcs hplayers htcp =>
    obtain ⟨hvalid, hsc, hget⟩ := @getClientMessage_spec c s.server h.valid f
    have hkept : ∀ u p, s'.players.getPlayer u = some p →
        disconUid f ≠ some u ∧ s.players.getPlayer u = some p := by
      intro u p hp
      rw [hplayers, hget u] at hp
      split at hp
      · cases hp
      · next hu => exact ⟨hu, hp⟩
    refine ⟨hplayers ▸ hvalid, ?_, fun u v p q hp hq => ?_, fun u p hp hl => ?_⟩
    · rw [htcp]
      exact h.named
    · exact h.unique u v p q (hkept u p hp).2 (hkept v q hq).2
    · obtain ⟨hu, hp⟩ := hkept u p hp
      rw [htcp] at hl ⊢
      have hl₀ : ¬ Leaving s.tcp u := by
        rintro ⟨g, hmem, hgu⟩
        rw [hcs] at hmem
        rcases List.mem_cons.mp hmem with rfl | hmem
        · exact hu hgu
        · exact hl ⟨g, hmem, hgu⟩
      have hb := h.bound u p hp hl₀
      exact ⟨⟨hb.inUse.inRange, hb.inUse.client, hb.inUse.taken, hb.inUse.sameTime⟩,
        fun g hg => hb.stays g (hsc ▸ hg), hsc ▸ hb.index⟩
  | dispatched m now r he v' heff hplayers htcp =>
    subst he
    have hok := dispatch_ghostFree h hg heff
    refine ⟨hplayers ▸ hok.valid, ?_, ?_, ?_⟩
    · rw [htcp]
      exact hok.named
    · rw [hplayers]
      exact hok.unique
    · rw [hplayers, htcp]
      exact hok.bound
  | idle hplayers htcp => exact ⟨hplayers ▸ h.valid, htcp ▸ h.named, hplayers ▸ h.unique,
      by rw [hplayers, htcp]; exact h.bound⟩

theorem initial_ghostFree (conf : Conf) (mem : Nat → UInt8) :
    GhostFree (System.initial conf mem) := by
  refine ⟨initial_valid conf mem, fun i => ?_, fun u v p q hp => (nomatch hp),
    fun u p hp => (nomatch hp)⟩
  simp only [System.initial, initNetwork]
  split
  · next hi =>
    rw [hi]
    rfl
  · rfl

/-- In every run that meets the condition, when both pipes are empty, every player's connection is
open, still the one of its head, and carries its uid. -/
theorem run_no_ghosts (c : Codec) (conf : Conf) (mem : Nat → UInt8) (es : List Event) (s : System)
    (hrun : Trace.Run (Step c) (GhostGuard c) (System.initial conf mem) es s)
    (hcs : s.tcp.csPipe.items = []) (hsc : s.tcp.scPipe.items = []) :
    ∀ u p, s.players.getPlayer u = some p → InUse s.tcp p.tcpHead.conn ∧
      (s.tcp.pool p.tcpHead.socketPos).logicIndex = u.toNat := by
  have hok : GhostFree s := hrun.invariant GhostFree (initial_ghostFree conf mem)
    fun _ _ _ h hg hs => step_ghostFree h hg hs
  intro u p hp
  have hl : ¬ Leaving s.tcp u := by
    rintro ⟨f, hf, -⟩
    rw [hcs] at hf
    cases hf
  have hb := hok.bound u p hp hl
  have hindex := hb.index
  rw [hsc] at hindex
  exact ⟨hb.inUse, hindex⟩

theorem inUse_iff (t : Svr) (k : Conn) :
    (k.socketPos < t.maxClientNum ∧ (t.pool k.socketPos).type = clinetSocket ∧
      k.socketPos ∉ t.freeList ∧ (t.pool k.socketPos).createTime = k.createTime) ↔ InUse t k :=
  ⟨fun ⟨h₁, h₂, h₃, h₄⟩ => ⟨h₁, h₂, h₃, h₄⟩, fun h => ⟨h.inRange, h.client, h.taken, h.sameTime⟩⟩

instance (t : Svr) (k : Conn) : Decidable (InUse t k) := decidable_of_iff _ (inUse_iff t k)

/-- A step that releases nothing and refuses no login, and a login only as the first. -/
def FirstLogin (c : Codec) (s : System) (e : Event) : Prop :=
  (released s e).isNone = true ∧ refusedOf c e = none ∧
    (loginOf c e = none ∨ s.players.objs.used = ∅ ∧ s.tcp.scPipe.items = [] ∧
      (loginOf c e).any (fun q => decide (InUse s.tcp q.1.conn)) = true)

instance (c : Codec) (s : System) (e : Event) : Decidable (FirstLogin c s e) :=
  inferInstanceAs (Decidable (_ ∧ _))

/-- First logins meet the guard. -/
theorem FirstLogin.ghostGuard {c : Codec} {s : System} {e : Event} (hv : s.players.Valid)
    (h : FirstLogin c s e) : GhostGuard c s e := by
  obtain ⟨hr, href, hlogin⟩ := h
  refine ⟨fun t pos h => ?_, fun head uid hl _ => ?_, fun head h => ?_⟩
  · rw [h] at hr
    cases hr
  · rcases hlogin with hnone | ⟨hused, hsc, hany⟩
    · rw [hnone] at hl
      cases hl
    · rw [hl] at hany
      refine ⟨fun v p _ hp => ?_, fun _ => ⟨of_decide_eq_true hany, fun f hf => ?_⟩⟩
      · cases hi : s.players.index v with
        | none =>
          rw [PlayerManager.getPlayer, hi] at hp
          cases hp
        | some pos =>
          have hmem := (hv.indexed v pos hi).1
          rw [hused] at hmem
          exact absurd hmem (Finset.notMem_empty pos)
      · rw [hsc] at hf
        cases hf
  · rw [href] at h
    cases h

def quiescent (s : System) : Prop :=
  s.tcp.csPipe.items = [] ∧ s.tcp.scPipe.items = [] ∧ s.msgPipe.items = [] ∧
    (s.players.getPlayer 7).map (fun p => p.tcpHead.conn) = some ⟨1, 1000⟩

instance (s : System) : Decidable (quiescent s) := inferInstanceAs (Decidable (_ ∧ _))

theorem run_no_ghosts_login :
    ∃ es s, Trace.Run (Step sampleCodec) (GhostGuard sampleCodec) sampleStart es s ∧
      s.tcp.csPipe.items = [] ∧ s.tcp.scPipe.items = [] ∧ (s.players.getPlayer 7).isSome = true ∧
      ∀ u p, s.players.getPlayer u = some p → InUse s.tcp p.tcpHead.conn ∧
        (s.tcp.pool p.tcpHead.socketPos).logicIndex = u.toNat := by
  obtain ⟨s, hrun, hcs, hsc, -, hplayer⟩ :=
    Trace.exists_run_of_exec (step sampleCodec) (FirstLogin sampleCodec) sampleStart
      (loggedIn ++ [.send .sent]) quiescent (by decide +kernel)
  have hguarded : Trace.Run (Step sampleCodec) (GhostGuard sampleCodec) sampleStart
      (loggedIn ++ [.send .sent]) s :=
    hrun.exchange (fun s => s.players.Valid) (initial_valid _ _)
      (fun _ _ _ hv _ hs => step_valid hv hs) fun _ _ hv h => h.ghostGuard hv
  obtain ⟨p, hp, -⟩ := Option.map_eq_some_iff.mp hplayer
  exact ⟨_, s, hguarded, hcs, hsc, by rw [hp]; rfl,
    run_no_ghosts sampleCodec sampleConf _ _ s hguarded hcs hsc⟩

/-- The client disconnects before its index arrives: no notice is sent, and the player stays. -/
theorem early_disconnect_leaves_ghost :
    ∃ es s, Trace.Run (Step sampleCodec) free sampleStart es s ∧
      s.tcp.csPipe.items = [] ∧ s.tcp.scPipe.items = [] ∧ s.msgPipe.items = [] ∧
      ∃ p, s.players.getPlayer 7 = some p ∧ ¬ InUse s.tcp p.tcpHead.conn := by
  obtain ⟨s, hrun, ⟨hcs, hsc, hmsg, hplayer⟩, huse⟩ :=
    Trace.exists_run_of_exec (step sampleCodec) free sampleStart
      (loggedIn ++ [.recv 1 .eof, .send .sent])
      (fun s => quiescent s ∧ ¬ InUse s.tcp ⟨1, 1000⟩) (by decide +kernel)
  obtain ⟨p, hp, hconn⟩ := Option.map_eq_some_iff.mp hplayer
  refine ⟨_, s, hrun, hcs, hsc, hmsg, p, hp, ?_⟩
  rw [hconn]
  exact huse

end HallSvr
