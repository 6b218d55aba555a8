import Dsf4g.DbRouting
import Dsf4g.LostUpdate

/-!
# Several database proxies on the same tables

Every database proxy has a `VersionCache` of its own, and all of them write to the same
tables. A request is handled by the proxy that its uid belongs to, so the cache of a
proxy never holds a version that another one has replaced.
-/
namespace Sessions

open DbProxy

variable {Info : Type}

/-! ## The system -/

def Request.uid : Request → UInt64
  | .get r => r.uid
  | .save r => r.uid

/-- `num` database proxies, each with the versions it has cached, the tables, the sessions of all
servers, and the messages in flight. -/
structure Cluster (Info : Type) where
  num : Nat
  tables : UInt64 → UInt64 → Option Row
  caches : Nat → UInt64 → Option Int32
  sessions : Nat → Option (Session Info)
  created : Nat
  net : List Msg

def Cluster.store (w : Cluster Info) (i : Nat) : Store := ⟨w.tables, w.caches i⟩

/-- The cluster as if database proxy `i` were the only one. -/
def Cluster.view (w : Cluster Info) (i : Nat) : System Info :=
  ⟨w.store i, w.sessions, w.created, w.net⟩

def Cluster.owner (w : Cluster Info) (r : Request) : Nat := MsgBasic.ownerOf w.num r.uid.toNat

def Cluster.handled (w : Cluster Info) (i : Nat) (s : Store) (net : List Msg) : Cluster Info :=
  { w with tables := s.tables, caches := Function.update w.caches i s.cache, net := net }

/-- The sessions and the network after a step that leaves the database alone. -/
def Cluster.front (w : Cluster Info) (sys : System Info) : Cluster Info :=
  { w with sessions := sys.sessions, created := sys.created, net := sys.net }

def SysEvent.IsFront : SysEvent → Prop
  | .handle _ | .restart => False
  | .start | .deliver _ | .drop _ | .release _ => True

inductive ClusterEvent where
  | front (e : SysEvent)
  /-- The database proxy of its uid handles a request. -/
  | handle (m : Msg)
  /-- Database proxy `i` restarts with an empty cache. -/
  | restart (i : Nat)

inductive ClusterStep (c : Codec Info) (handlers : Nat → Handler Info) (w : Cluster Info) :
    ClusterEvent → Cluster Info → Prop
  | front {e : SysEvent} {sys : System Info} (hfront : e.IsFront) (i : Nat)
      (hs : SysStep c handlers (w.view i) e sys) : ClusterStep c handlers w (.front e) (w.front sys)
  | handle {pre post : List Msg} {sid : Nat} {r : Request} {a : Answer}
      (hnet : w.net = pre ++ ⟨sid, .request r⟩ :: post)
      (ha : answer (w.store (w.owner r)) r = a) :
      ClusterStep c handlers w (.handle ⟨sid, .request r⟩)
        (w.handled (w.owner r) a.store (pre ++ ⟨sid, .reply a.reply⟩ :: post))
  | restart (i : Nat) : ClusterStep c handlers w (.restart i)
      { w with caches := Function.update w.caches i fun _ => none }

def ClusterGuard (handlers : Nat → Handler Info) (w : Cluster Info) : ClusterEvent → Prop
  | .front e => SysGuard handlers (w.view 0) e
  | .handle m => SysGuard handlers (w.view 0) (.handle m)
  | .restart _ => True

def Cluster.initial (num : Nat) (tables : UInt64 → UInt64 → Option Row) : Cluster Info :=
  ⟨num, tables, fun _ _ => none, fun _ => none, 0, []⟩

/-! ## What a request leaves alone -/

theorem lastFor_eq_none {uid k : UInt64} {ds : List PBDBData}
    (h : ∀ d ∈ ds, saveKey uid d ≠ k) : lastFor uid k ds = none := by
  cases hl : lastFor uid k ds with
  | none => rfl
  | some d => exact absurd (mem_of_lastFor hl).2 (h d (mem_of_lastFor hl).1)

/-- A request touches no row and no cached version but those of its items. -/
theorem answer_untouched {s : Store} {r : Request} {a : Answer} (ha : answer s r = a)
    {k : UInt64} (hk : ∀ q, r = .save q → ∀ d ∈ q.datas, saveKey q.uid d ≠ k) :
    a.store.row k = s.row k ∧ a.store.cache k = s.cache k := by
  cases r with
  | get q =>
    cases ha
    exact ⟨rfl, rfl⟩
  | save q =>
    cases ha
    have hnone := lastFor_eq_none (hk q rfl)
    obtain ⟨-, -, -, hst⟩ | ⟨-, -, hfail, -⟩ | ⟨hst, -⟩ :=
      handleSave_cases (s := s) (r := q) (f := .never) rfl
    · change (handleSave s q .never).store.row k = _ ∧ (handleSave s q .never).store.cache k = _
      rw [hst, saveToCache_row, saveToCache_cache, saveDoRequest_row, saveDoRequest_cache,
        written_never, hnone]
      exact ⟨rfl, rfl⟩
    · cases (success_of_written (written_never 0 q.datas)).symm.trans hfail
    · change (handleSave s q .never).store.row k = _ ∧ (handleSave s q .never).store.cache k = _
      rw [hst]
      exact ⟨rfl, rfl⟩

/-- The uid of a `uid_key`, and the database proxy it belongs to. -/
def keyOwner (num : Nat) (k : UInt64) : Nat := MsgBasic.ownerOf num (k.toNat % keyMultiple.toNat)

/-- The rows of a save belong to the proxy that the save is routed to. -/
theorem keyOwner_saveKey {s : Store} {q : SaveRequest} (hq : RequestOk s (.save q)) (num : Nat)
    {d : PBDBData} (hd : d ∈ q.datas) :
    keyOwner num (saveKey q.uid d) = MsgBasic.ownerOf num q.uid.toNat := by
  obtain ⟨k, hk⟩ := (hq.2 d hd).key
  have huid : q.uid.toNat < 2 ^ 32 := hq.1
  have hm : keyMultiple.toNat = 10000000000 := rfl
  have hkey : (uidKey k.num q.uid).toNat % keyMultiple.toNat = q.uid.toNat := by
    have h1 : (DbKey.num .baseInfo).toNat = 1 := rfl
    have h2 : (DbKey.num .moneyInfo).toNat = 2 := rfl
    simp only [uidKey, UInt64.toNat_add, UInt64.toNat_mul, UInt32.toNat_toUInt64, hm]
    cases k with
    | baseInfo => rw [h1]; omega
    | moneyInfo => rw [h2]; omega
  rw [saveKey_eq hq.1, hk, keyOwner, hkey]

/-! ## The invariant -/

/-- Seen from every database proxy the system is sound, and a cache holds only versions of players
that belong to its proxy. -/
structure ClusterOk (w : Cluster Info) : Prop where
  views : ∀ i, SystemOk (w.view i)
  own : ∀ i k, (w.caches i k).isSome = true → keyOwner w.num k = i

/-- The caches matter for nothing but their own coherence. -/
theorem SystemOk.recache {sys : System Info} (h : SystemOk sys) (cache : UInt64 → Option Int32)
    (hc : Coherent ⟨sys.store.tables, cache⟩) :
    SystemOk { sys with store := ⟨sys.store.tables, cache⟩ } := by
  have hg : Grows sys.store ⟨sys.store.tables, cache⟩ := fun _ r hr => ⟨r, hr, .inl rfl⟩
  exact ⟨⟨hc, h.store.small, h.store.positive⟩,
    fun m hm => ⟨(h.net m hm).1, (h.net m hm).2.grow hg⟩,
    fun sid t ht => ⟨(h.sessions sid t ht).1, (h.sessions sid t ht).2.grow hg⟩, h.saves⟩

theorem initial_clusterOk (num : Nat) {tables : UInt64 → UInt64 → Option Row}
    (hsmall : Small (fresh tables)) (hpos : Positive (fresh tables)) :
    ClusterOk (Cluster.initial num tables : Cluster Info) :=
  ⟨fun _ => initial_ok hsmall hpos, fun _ _ h => (nomatch h)⟩

section Steps

variable {c : Codec Info} {handlers : Nat → Handler Info} {w : Cluster Info}

/-- A step of the sessions is the same whichever database proxy is looked at. -/
theorem front_step {e : SysEvent} (hfront : e.IsFront) {i : Nat} {sys : System Info}
    (hs : SysStep c handlers (w.view i) e sys) (j : Nat) :
    SysStep c handlers (w.view j) e ((w.front sys).view j) := by
  cases hs with
  | start => exact .start
  | handle => exact hfront.elim
  | deliver hnet ht => exact @SysStep.deliver _ c handlers (w.view j) _ _ _ _ _ hnet ht
  | drop hnet => exact @SysStep.drop _ c handlers (w.view j) _ _ _ hnet
  | release sid => exact @SysStep.release _ c handlers (w.view j) sid
  | restart => exact hfront.elim

/-- A request leaves what another database proxy has cached as it is in the tables. -/
theorem handled_coherent (h : ClusterOk w) {r : Request} (hr : RequestOk (w.store (w.owner r)) r)
    {a : Answer} (ha : answer (w.store (w.owner r)) r = a) {j : Nat} (hj : j ≠ w.owner r) :
    Coherent ⟨a.store.tables, w.caches j⟩ := by
  intro k v hv
  have hown := h.own j k (by rw [show w.caches j k = some v from hv]; rfl)
  have hkeys : ∀ q, r = .save q → ∀ d ∈ q.datas, saveKey q.uid d ≠ k := by
    rintro q rfl d hd rfl
    exact hj (hown.symm.trans (keyOwner_saveKey hr w.num hd))
  obtain ⟨row, hrow, hver⟩ := (h.views j).store.coherent k v hv
  exact ⟨row, (answer_untouched ha hkeys).1.trans hrow, hver⟩

/-- A proxy that handles a request changes no row that another one caches. -/
theorem handled_ok (h : ClusterOk w) {pre post : List Msg} {sid : Nat} {r : Request} {a : Answer}
    (hnet : w.net = pre ++ ⟨sid, .request r⟩ :: post)
    (hver : ∀ q, r = .save q → ∀ d ∈ q.datas, d.version.toNat < 2 ^ 31)
    (ha : answer (w.store (w.owner r)) r = a) :
    ClusterOk (w.handled (w.owner r) a.store (pre ++ ⟨sid, .reply a.reply⟩ :: post)) := by
  have hsys := h.views (w.owner r)
  have hr : RequestOk (w.store (w.owner r)) r :=
    (hsys.net ⟨sid, .request r⟩ (by change _ ∈ w.net; rw [hnet]; simp)).2
  have hnew := handle_ok hsys hnet hver ha
  refine ⟨fun j => ?_, fun j k hk => ?_⟩
  · by_cases hj : j = w.owner r
    · subst hj
      have hview : (w.handled (w.owner r) a.store
          (pre ++ ⟨sid, .reply a.reply⟩ :: post)).view (w.owner r) =
          { w.view (w.owner r) with
            store := a.store, net := pre ++ ⟨sid, .reply a.reply⟩ :: post } := by
        simp only [Cluster.view, Cluster.store, Cluster.handled, Function.update_self]
      rw [hview]
      exact hnew
    · have hview : (w.handled (w.owner r) a.store
          (pre ++ ⟨sid, .reply a.reply⟩ :: post)).view j =
          { w.view (w.owner r) with
            store := ⟨a.store.tables, w.caches j⟩
            net := pre ++ ⟨sid, .reply a.reply⟩ :: post } := by
        simp only [Cluster.view, Cluster.store, Cluster.handled, Function.update_of_ne hj]
      rw [hview]
      exact hnew.recache (w.caches j) (handled_coherent h hr ha hj)
  · by_cases hj : j = w.owner r
    · subst hj
      change (Function.update w.caches (w.owner r) a.store.cache (w.owner r) k).isSome = true at hk
      rw [Function.update_self] at hk
      by_cases htouched : ∃ q, r = .save q ∧ ∃ d ∈ q.datas, saveKey q.uid d = k
      · obtain ⟨q, rfl, d, hd, rfl⟩ := htouched
        exact keyOwner_saveKey hr w.num hd
      · have hkeys : ∀ q, r = .save q → ∀ d ∈ q.datas, saveKey q.uid d ≠ k :=
          fun q hq d hd he => htouched ⟨q, hq, d, hd, he⟩
        rw [(answer_untouched ha hkeys).2] at hk
        exact h.own _ k hk
    · change (Function.update w.caches (w.owner r) a.store.cache j k).isSome = true at hk
      rw [Function.update_of_ne hj] at hk
      exact h.own j k hk

/-- Every guarded step keeps the cluster sound, whichever proxy it is about. -/
theorem cluster_step_ok {e : ClusterEvent} {w' : Cluster Info} (h : ClusterOk w)
    (hg : ClusterGuard handlers w e) (hs : ClusterStep c handlers w e w') : ClusterOk w' := by
  cases hs with
  | front hfront i hs =>
    refine ⟨fun j => step_ok (h.views j) ?_ (front_step hfront hs j), h.own⟩
    cases hs with
    | handle => exact hfront.elim
    | _ => exact hg
  | handle hnet ha =>
    refine handled_ok h hnet ?_ ha
    rintro q rfl
    exact hg
  | restart i =>
    refine ⟨fun j => ?_, fun j k hk => ?_⟩
    · refine (h.views j).recache _ fun k v hv => ?_
      have hv : Function.update w.caches i (fun _ => none) j k = some v := hv
      by_cases hj : j = i
      · subst hj
        rw [Function.update_self] at hv
        cases hv
      · rw [Function.update_of_ne hj] at hv
        exact (h.views j).store.coherent k v hv
    · change (Function.update w.caches i (fun _ => none) j k).isSome = true at hk
      by_cases hj : j = i
      · subst hj
        rw [Function.update_self] at hk
        cases hk
      · rw [Function.update_of_ne hj] at hk
        exact h.own j k hk

end Steps

/-! ## Whole runs -/

/-- A save that is accepted on an existing row raises its version by one, and what it writes was
computed from the row. -/
theorem accepted_update {sys : System Info} (h : SystemOk sys) {sid : Nat} {r : SaveRequest}
    (hr : ⟨sid, .request (.save r)⟩ ∈ sys.net) {o : Handled}
    (ho : handleSave sys.store r .never = o) (hok : o.response.result = .ok) {e : PBDBData}
    (he : e ∈ r.datas) {row : Row} (hrow : sys.store.row (uidKey e.key r.uid) = some row) :
    ∃ d ∈ r.datas, d.key = e.key ∧
      o.store.row (uidKey e.key r.uid) = some ⟨d.bytes, d.version⟩ ∧
      d.version.toNat = row.ver.toNat + 1 ∧ d.origin = some row.blob := by
  have hreq : RequestOk sys.store (.save r) := (h.net _ hr).2
  have hsucc : (saveDoRequest sys.store r.uid SqlFailures.never.replace 0 r.datas).success = true :=
    success_of_written (written_never 0 r.datas)
  obtain ⟨hcheck, -, -, hst⟩ | ⟨-, hres, -⟩ | ⟨-, hne, -⟩ := handleSave_cases ho
  · obtain ⟨hnone, -⟩ | ⟨d, hd, hk, hnew, hup, horigin⟩ := accepted_row h.store.coherent
      h.store.small h.store.positive hreq hcheck hsucc hrow
    · exact absurd (saveKey_eq hreq.1 e) (hnone e he)
    · refine ⟨d, hd, ?_, by rw [hst, saveToCache_row]; exact hnew, hup, horigin⟩
      obtain ⟨kd, hkd⟩ := (hreq.2 d hd).key
      obtain ⟨ke, hke⟩ := (hreq.2 e he).key
      rw [saveKey_eq hreq.1] at hk
      rw [hkd, hke] at hk ⊢
      exact uidKey_inj hreq.1 hk
  · cases hok.symm.trans hres
  · exact absurd hok hne

/-- In every run of any number of database proxies on the same tables, what a proxy has cached is
what the tables hold, and a save that its proxy accepts on an existing row was computed from it. -/
theorem proxies_no_lost_update (c : Codec Info) (handlers : Nat → Handler Info) (num : Nat)
    (tables : UInt64 → UInt64 → Option Row) (hsmall : Small (fresh tables))
    (hpos : Positive (fresh tables)) (es : List ClusterEvent) (w : Cluster Info)
    (hrun : Trace.Run (ClusterStep c handlers) (ClusterGuard handlers) (Cluster.initial num tables)
      es w) :
    (∀ i, Coherent (w.store i)) ∧
    ∀ sid r, ⟨sid, .request (.save r)⟩ ∈ w.net → ∀ o,
      handleSave (w.store (w.owner (.save r))) r .never = o → o.response.result = .ok →
      ∀ e ∈ r.datas, ∀ row, (w.store (w.owner (.save r))).row (uidKey e.key r.uid) = some row →
        ∃ d ∈ r.datas, d.key = e.key ∧
          o.store.row (uidKey e.key r.uid) = some ⟨d.bytes, d.version⟩ ∧
          d.version.toNat = row.ver.toNat + 1 ∧ d.origin = some row.blob := by
  have hok := hrun.invariant ClusterOk (initial_clusterOk num hsmall hpos)
    fun _ _ _ h hg hs => cluster_step_ok h hg hs
  refine ⟨fun i => (hok.views i).store.coherent, fun sid r hr o ho hres e he row hrow => ?_⟩
  exact accepted_update (hok.views (w.owner (.save r))) hr ho hres he hrow

/-- A session on player 7 asks for its money; database proxy 1 of two will be asked. -/
def pairAsking : Cluster Blob := (Cluster.initial 2 moneyTables).front asking

def pairAnswering : Cluster Blob :=
  pairAsking.handled 1 (fresh moneyTables)
    [⟨0, .reply (.get (handleGet (fresh moneyTables) getMoney false))⟩]

def pairSaving : Cluster Blob := pairAnswering.front saving

theorem proxies_no_lost_update_pair :
    ∃ es, Trace.Run (ClusterStep plainCodec fun _ => addMoney) (ClusterGuard fun _ => addMoney)
      (Cluster.initial 2 moneyTables) es pairSaving ∧ (∀ i, Coherent (pairSaving.store i)) ∧
      ∃ o, handleSave (pairSaving.store 1) saveMoney .never = o ∧
        ∀ e ∈ saveMoney.datas, ∀ row, (pairSaving.store 1).row (uidKey e.key 7) = some row →
          ∃ d ∈ saveMoney.datas, d.key = e.key ∧
            o.store.row (uidKey e.key 7) = some ⟨d.bytes, d.version⟩ ∧
            d.version.toNat = row.ver.toNat + 1 ∧ d.origin = some row.blob := by
  have hsmall : Small (fresh moneyTables) := fun k r hr => by
    rw [moneyTables_row hr]
    decide
  have hpos : Positive (fresh moneyTables) := fun k r hr => by
    rw [moneyTables_row hr]
    decide
  have hask : ClusterStep plainCodec (fun _ => addMoney) (Cluster.initial 2 moneyTables)
      (.front .start) pairAsking := .front trivial 0 .start
  have hanswer : ClusterStep plainCodec (fun _ => addMoney) pairAsking
      (.handle ⟨0, .request (.get getMoney)⟩) pairAnswering :=
    @ClusterStep.handle _ _ _ pairAsking [] [] 0 (.get getMoney) ⟨_, _⟩ rfl rfl
  have hsave : ClusterStep plainCodec (fun _ => addMoney) pairAnswering
      (.front (.deliver ⟨0, .reply (.get (handleGet (fresh moneyTables) getMoney false))⟩))
      pairSaving :=
    .front trivial 0 (@SysStep.deliver _ _ _ (pairAnswering.view 0) [] [] 0 _ _ rfl rfl)
  have huid : ∀ k ∈ addMoney.keys, k.1.toNat < 2 ^ 32 := by decide
  have hrun : Trace.Run (ClusterStep plainCodec fun _ => addMoney) (ClusterGuard fun _ => addMoney)
      (Cluster.initial 2 moneyTables) [.front .start, .handle ⟨0, .request (.get getMoney)⟩,
        .front (.deliver ⟨0, .reply (.get (handleGet (fresh moneyTables) getMoney false))⟩)]
      pairSaving :=
    .cons huid hask (.cons trivial hanswer (.cons trivial hsave (.nil _)))
  have hok : (handleSave (pairSaving.store 1) saveMoney .never).response.result = .ok := by
    decide +kernel
  have hsent : (process plainCodec addMoney ⟨[⟨7, [2], none⟩], 0, 0, .waitGetRsp⟩
      (.get (handleGet (fresh moneyTables) getMoney false))).sent = [.save saveMoney] := by
    decide +kernel
  have hnet : ⟨0, .request (.save saveMoney)⟩ ∈ pairSaving.net := by
    change _ ∈ saving.net
    rw [saving, System.update, hsent]
    exact List.mem_singleton_self _
  obtain ⟨hcoherent, hupdate⟩ := proxies_no_lost_update plainCodec (fun _ => addMoney) 2 moneyTables
    hsmall hpos _ _ hrun
  exact ⟨_, hrun, hcoherent, _, rfl, hupdate 0 saveMoney hnet _ rfl hok⟩

end Sessions
