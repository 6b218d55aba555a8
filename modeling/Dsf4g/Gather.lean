import Dsf4g.LostUpdate
import Dsf4g.SaveFailures

/-!
# Gathering the data of players

`AddDBGetKey`, `SendGetToDBHandle`, `UserDataGetHandle`, `ParseDBData` and `GetResponse`.
A session asks for the data of several players with one request each. The answers come
in any order, and the rows of an answer as well.
-/
namespace Sessions

open DbProxy

variable {Info : Type}

/-! ## `ParseDBData` -/

/-- The player that a response leaves where there was none. -/
def parsed (c : Codec Info) (r : Response) : Option (PBDBMsg Info) :=
  (parseDBData c ⟨r.uid, fun _ => none, fun _ => false⟩ r.datas).map (PBDBMsg.copyFrom none)

/-- One entry is parsed into the field of its key. -/
def parseEntry (c : Codec Info) (k : DbKey) (f : Option (Field Info)) (d : PBDBData) :
    Option (Field Info) :=
  constructDBMsg c k (f.getD ⟨c.empty k, none, none⟩) d

def EntryOk (c : Codec Info) (d : PBDBData) : Prop :=
  ∃ k, d.key = DbKey.num k ∧ ∀ b, d.blob = some b → (c.parse k b).isSome = true

@[simp] theorem ofNum_num (k : DbKey) : DbKey.ofNum k.num = some k := by
  cases k <;> rfl

theorem num_inj {k k' : DbKey} (h : k.num = k'.num) : k = k' :=
  Option.some.inj (by rw [← ofNum_num k, ← ofNum_num k', h])

/-- A part cannot be parsed only because its blob cannot. -/
theorem constructDBMsg_isSome (c : Codec Info) (k : DbKey) (f : Field Info) (d : PBDBData) :
    (constructDBMsg c k f d).isSome = true ↔
      ∀ b, d.blob = some b → (c.parse k b).isSome = true := by
  simp only [constructDBMsg, Option.isSome_map]
  cases d.blob with
  | none =>
    refine ⟨fun _ b hb => ?_, fun _ => rfl⟩
    cases hb
  | some b =>
    simp only [Option.isSome_map, Option.some.injEq]
    exact ⟨fun h b' hb => hb ▸ h, fun h => h b rfl⟩

/-- `ParseDBData` succeeds when it accepts every entry. -/
theorem parseDBData_isSome {c : Codec Info} {ds : List PBDBData} (h : ∀ d ∈ ds, EntryOk c d)
    (p : PBDBMsg Info) : (parseDBData c p ds).isSome = true := by
  induction ds generalizing p with
  | nil => rfl
  | cons d ds ih =>
    obtain ⟨k, hk, hblob⟩ := h d (List.mem_cons_self ..)
    obtain ⟨f, hf⟩ := Option.isSome_iff_exists.mp
      ((constructDBMsg_isSome c k ((p.field k).getD ⟨c.empty k, none, none⟩) d).mpr hblob)
    simp only [parseDBData, hk, ofNum_num, hf]
    exact ih (fun e he => h e (List.mem_cons_of_mem _ he)) _

/-- What `ParseDBData` leaves: in each field what the entries of its key made of it. -/
theorem parseDBData_eq_some {c : Codec Info} {ds : List PBDBData} {p p' : PBDBMsg Info}
    (h : parseDBData c p ds = some p') :
    p'.uid = p.uid ∧
    ∀ k, p'.field k = (ds.filter fun d => d.key = k.num).foldl (parseEntry c k) (p.field k) := by
  induction ds generalizing p with
  | nil =>
    cases h
    exact ⟨rfl, fun _ => rfl⟩
  | cons d ds ih =>
    rw [parseDBData] at h
    split at h
    · cases h
    · next k hk =>
      split at h
      · cases h
      · next f hf =>
        obtain ⟨huid, hfield⟩ := ih h
        have hnum := ofNum_eq hk
        refine ⟨huid, fun k' => ?_⟩
        rw [hfield k']
        by_cases he : k' = k
        · subst he
          rw [List.filter_cons_of_pos (by rw [decide_eq_true_eq]; exact hnum), List.foldl_cons]
          simp only [PBDBMsg.store, Function.update_self, parseEntry, hf]
        · have hne : d.key ≠ k'.num := fun hd => he (num_inj (hd.symm.trans hnum))
          rw [List.filter_cons_of_neg (by rw [decide_eq_true_eq]; exact hne)]
          simp only [PBDBMsg.store, Function.update_of_ne he]

/-! ## `UserDataGetHandle` -/

/-- What `UserDataGetHandle` answers when the `select` works: it finds the rows in some order. -/
def GetAnswer (s : Store) (q : GetRequest) (r : Response) : Prop :=
  q.datas ≠ [] ∧ ∃ rows, rows.Perm (selectRows s (tableOf q.uid)
    (q.datas.map fun d => uidKey d.key q.uid)) ∧ r = ⟨.ok, q.uid, wrapResponseGet rows q.datas⟩

/-- The order of the request is one of them. -/
theorem handleGet_answer (s : Store) {q : GetRequest} (h : q.datas ≠ []) :
    GetAnswer s q (handleGet s q false) := by
  refine ⟨h, _, List.Perm.refl _, ?_⟩
  simp only [handleGet, getDoRequest, List.isEmpty_eq_false_iff.mpr h, Bool.or_self,
    Bool.false_eq_true, if_false]

theorem perm_eq_of_short {α : Type} {l : List α} {o : Option α} (h : l.Perm o.toList) :
    l = o.toList := by
  cases o with
  | none => exact h.eq_nil
  | some a => exact List.perm_singleton.mp h

/-- The entries of an answer under a requested key. -/
theorem answer_entries {s : Store} {uid : UInt64} {keys : List UInt32} (hnd : keys.Nodup)
    (hunpack : ∀ k ∈ keys, unpack k uid = k) {rows : List (UInt64 × Row)}
    (hrows : rows.Perm (selectRows s (tableOf uid) (keys.map fun k => uidKey k uid)))
    {k : UInt32} (hk : k ∈ keys) :
    ((wrapResponseGet rows (keys.map bareKey)).filter fun e => e.key = k) =
      [storedData s uid k] := by
  have hreq : ((keys.map bareKey).map PBDBData.key).Nodup := by
    rw [List.map_map]
    simpa only [Function.comp_def, bareKey, List.map_id'] using hnd
  have hfound : ((rows.map rowData).filter fun e => e.key = k) =
      ((s.row (uidKey k uid)).map (answerOf k)).toList := by
    refine perm_eq_of_short ?_
    have hperm := (hrows.map rowData).filter fun e => decide (e.key = k)
    rw [found_eq s uid hnd, filter_answers] at hperm
    have hunder := rowsUnder_of_unpack s hnd (fun k hk _ => hunpack k hk) k
    rw [rowsUnder, if_pos hk] at hunder
    rw [hunder] at hperm
    cases hrow : s.row (uidKey k uid) with
    | none =>
      rw [hrow] at hperm
      exact hperm
    | some r =>
      rw [hrow] at hperm
      exact hperm
  have hfilter := filter_wrapResponseGet rows hreq (List.mem_map_of_mem (f := bareKey) hk)
  have hkey : (bareKey k).key = k := rfl
  simp only [hkey] at hfilter
  rw [hfilter, hfound, storedData]
  cases s.row (uidKey k uid) with
  | none => rfl
  | some r => rfl

/-- An answer has no entries under other keys. -/
theorem answer_keys {s : Store} {uid : UInt64} {keys : List UInt32}
    (hunpack : ∀ k ∈ keys, unpack k uid = k) {rows : List (UInt64 × Row)}
    (hrows : rows.Perm (selectRows s (tableOf uid) (keys.map fun k => uidKey k uid)))
    {e : PBDBData} (he : e ∈ wrapResponseGet rows (keys.map bareKey)) :
    ∃ k ∈ keys, e = storedData s uid k ∨ e = bareKey k := by
  obtain he | he := List.mem_append.mp he
  · obtain ⟨row, hrow, rfl⟩ := List.mem_map.mp he
    obtain ⟨a, ha, hsome⟩ := List.mem_filterMap.mp (hrows.mem_iff.mp hrow)
    obtain ⟨k, hk, rfl⟩ := List.mem_map.mp (List.mem_eraseDups.mp ha)
    obtain ⟨r, hr, rfl⟩ := Option.map_eq_some_iff.mp hsome
    refine ⟨k, hk, .inl ?_⟩
    have hstore : s.row (uidKey k uid) = some r := by rw [Store.row, uidKey_table, hr]
    rw [rowData_eq, hunpack k hk, storedData, hstore]
    rfl
  · obtain ⟨d, hd, rfl⟩ := List.mem_map.mp he
    obtain ⟨k, hk, rfl⟩ := List.mem_map.mp (List.mem_of_mem_filter hd)
    exact ⟨k, hk, .inr rfl⟩

/-! ## `AddDBGetKey` -/

/-- The uids and keys of a session that asked for some keys of uids of 32 bits. -/
def Built (procs : List (PBDBProcInfo Info)) : Prop :=
  ∃ ks : List (UInt64 × DbKey), (∀ k ∈ ks, k.1.toNat < 2 ^ 32) ∧
    procs.map (fun p => (p.uid, p.keys)) =
      (ks.foldl (fun ps k => addDBGetKey ps k.1 k.2.num) ([] : List (PBDBProcInfo Info))).map
        fun p => (p.uid, p.keys)

structure Asked (uid : UInt64) (keys : List UInt32) : Prop where
  uid : uid.toNat < 2 ^ 32
  nodup : keys.Nodup
  nonempty : keys ≠ []
  known : ∀ n ∈ keys, ∃ k, n = DbKey.num k

theorem addDBGetKey_asked {procs : List (PBDBProcInfo Info)} (h : ∀ p ∈ procs, Asked p.uid p.keys)
    {uid : UInt64} (huid : uid.toNat < 2 ^ 32) (k : DbKey) :
    ∀ p ∈ addDBGetKey procs uid k.num, Asked p.uid p.keys := by
  intro p hp
  obtain hold | ⟨q, hq, hnew, rfl⟩ | rfl := addDBGetKey_cases hp
  · exact h p hold
  · refine ⟨(h q hq).uid, ?_, by simp, fun n hn => ?_⟩
    · refine List.nodup_append.mpr ⟨(h q hq).nodup, List.nodup_singleton _, fun a ha b hb he => ?_⟩
      rw [he, List.mem_singleton.mp hb] at ha
      exact hnew ha
    · obtain hn | hn := List.mem_append.mp hn
      · exact (h q hq).known n hn
      · exact ⟨k, List.mem_singleton.mp hn⟩
  · exact ⟨huid, List.nodup_singleton _, List.cons_ne_nil _ _,
      fun n hn => ⟨k, List.mem_singleton.mp hn⟩⟩

/-- Every call of `AddDBGetKey` keeps the entries as they were asked for. -/
theorem foldl_asked {ks : List (UInt64 × DbKey)} (hk : ∀ k ∈ ks, k.1.toNat < 2 ^ 32)
    {procs : List (PBDBProcInfo Info)} (h : ∀ p ∈ procs, Asked p.uid p.keys) :
    ∀ p ∈ ks.foldl (fun ps k => addDBGetKey ps k.1 k.2.num) procs, Asked p.uid p.keys := by
  induction ks generalizing procs with
  | nil => exact h
  | cons k ks ih =>
    exact ih (fun e he => hk e (List.mem_cons_of_mem _ he))
      (addDBGetKey_asked h (hk k (List.mem_cons_self ..)) k.2)

/-- Every entry of a session that was built by `AddDBGetKey` was asked for. -/
theorem Built.asked {procs : List (PBDBProcInfo Info)} (h : Built procs) :
    ∀ p ∈ procs, Asked p.uid p.keys := by
  obtain ⟨ks, hk, hmap⟩ := h
  intro p hp
  have hmem : (p.uid, p.keys) ∈ procs.map fun p => (p.uid, p.keys) :=
    List.mem_map_of_mem (f := fun p : PBDBProcInfo Info => (p.uid, p.keys)) hp
  rw [hmap] at hmem
  obtain ⟨q, hq, heq⟩ := List.mem_map.mp hmem
  obtain ⟨huid, hkeys⟩ := Prod.mk.inj heq
  rw [← huid, ← hkeys]
  exact foldl_asked hk (fun p hp => absurd hp List.not_mem_nil) q hq

/-- Every uid has one entry. -/
theorem Built.nodup {procs : List (PBDBProcInfo Info)} (h : Built procs) :
    (procs.map PBDBProcInfo.uid).Nodup := by
  obtain ⟨ks, hk, hmap⟩ := h
  have huids := congrArg (List.map Prod.fst) hmap
  simp only [List.map_map, Function.comp_def] at huids
  rw [huids]
  exact (@startProcs_ok Info ks hk [] List.nodup_nil (fun p hp => (nomatch hp))).1

/-! ## One answer -/

/-- What a session should have of a part of a player's data: the message in the blob and the version
of the row, or an empty message. -/
def storedField (c : Codec Info) (s : Store) (uid : UInt64) (k : DbKey) : Option (Field Info) :=
  match s.row (uidKey k.num uid) with
  | none => some ⟨c.empty k, none, none⟩
  | some row => (c.parse k row.blob).map fun i => ⟨i, some row.ver, some row.blob⟩

/-- The data of a player is what is stored for the keys of a session. -/
structure Fetched (c : Codec Info) (s : Store) (uid : UInt64) (keys : List UInt32)
    (m : PBDBMsg Info) : Prop where
  same : m.uid = uid
  requested : ∀ k, DbKey.num k ∈ keys → (m.field k).isSome = true ∧ m.field k = storedField c s uid k
  others : ∀ k, DbKey.num k ∉ keys → m.field k = none

/-- A copy has the same data. -/
theorem Fetched.copyFrom {c : Codec Info} {s : Store} {uid : UInt64} {keys : List UInt32}
    {m : PBDBMsg Info} (h : Fetched c s uid keys m) (old : Option (PBDBMsg Info)) :
    Fetched c s uid keys (PBDBMsg.copyFrom old m) :=
  ⟨h.same, h.requested, h.others⟩

def Parses (c : Codec Info) (s : Store) (uid : UInt64) (keys : List UInt32) : Prop :=
  ∀ k row, DbKey.num k ∈ keys → s.row (uidKey k.num uid) = some row →
    (c.parse k row.blob).isSome = true

/-- The entry of what is stored gives the field that is stored. -/
theorem parseEntry_storedData (c : Codec Info) (s : Store) (uid : UInt64) (k : DbKey) :
    parseEntry c k none (storedData s uid k.num) = storedField c s uid k := by
  simp only [parseEntry, constructDBMsg, storedData, storedField, Option.getD_none]
  cases s.row (uidKey k.num uid) with
  | none => rfl
  | some row => simp only [Option.map_some, Option.map_map, Function.comp_def]

/-- The keys of a uid of 32 bits come back out of their `uid_key`s. -/
theorem Asked.unpack {uid : UInt64} {keys : List UInt32} (h : Asked uid keys) :
    ∀ k ∈ keys, unpack k uid = k := by
  intro n hn
  obtain ⟨k, rfl⟩ := h.known n hn
  exact uidKey_div h.uid

/-- An answer to the request for a player holds what is stored for its keys. -/
theorem GetAnswer.fetched {c : Codec Info} {s : Store} {p : PBDBProcInfo Info}
    (ha : Asked p.uid p.keys) (hp : Parses c s p.uid p.keys) {r : Response}
    (hr : GetAnswer s (getRequest p) r) :
    r.result = .ok ∧ r.uid = p.uid ∧
      ∃ m, parseDBData c ⟨r.uid, fun _ => none, fun _ => false⟩ r.datas = some m ∧
        Fetched c s p.uid p.keys m := by
  obtain ⟨-, rows, hrows, rfl⟩ := hr
  have hrows : rows.Perm (selectRows s (tableOf p.uid) (p.keys.map fun k => uidKey k p.uid)) := by
    simpa only [getRequest, List.map_map, Function.comp_def] using hrows
  have hentries : ∀ d ∈ wrapResponseGet rows (p.keys.map bareKey), EntryOk c d := by
    intro d hd
    obtain ⟨n, hn, he⟩ := answer_keys ha.unpack hrows hd
    obtain ⟨k, rfl⟩ := ha.known n hn
    refine ⟨k, by obtain rfl | rfl := he <;> rfl, fun b hb => ?_⟩
    obtain rfl | rfl := he
    · obtain ⟨row, hrow, rfl⟩ := Option.map_eq_some_iff.mp hb
      exact hp k row hn hrow
    · cases hb
  obtain ⟨m, hm⟩ := Option.isSome_iff_exists.mp
    (parseDBData_isSome hentries ⟨p.uid, fun _ => none, fun _ => false⟩)
  refine ⟨rfl, rfl, m, hm, ?_⟩
  obtain ⟨huid, hfield⟩ := parseDBData_eq_some hm
  refine ⟨huid, fun k hk => ?_, fun k hk => ?_⟩
  · have heq : m.field k = storedField c s p.uid k := by
      rw [hfield k, answer_entries ha.nodup ha.unpack hrows hk]
      exact parseEntry_storedData c s p.uid k
    refine ⟨?_, heq⟩
    rw [heq, storedField]
    cases hrow : s.row (uidKey k.num p.uid) with
    | none => rfl
    | some row => simpa only [Option.isSome_map] using hp k row hk hrow
  · have hnone : ((wrapResponseGet rows (p.keys.map bareKey)).filter fun d => d.key = k.num) = [] := by
      refine List.filter_eq_nil_iff.mpr fun d hd hkey => ?_
      obtain ⟨n, hn, he⟩ := answer_keys ha.unpack hrows hd
      have hnum : d.key = n := by obtain rfl | rfl := he <;> rfl
      exact hk (by rw [← of_decide_eq_true hkey, hnum]; exact hn)
    rw [hfield k, hnone]
    rfl

/-- `GetDBProcIndex` finds an entry under its own uid. -/
theorem nodup_getElem {procs : List (PBDBProcInfo Info)} (h : (procs.map PBDBProcInfo.uid).Nodup)
    {i : Nat} {p : PBDBProcInfo Info} (hp : procs[i]? = some p) :
    getDBProcIndex procs p.uid = some i := by
  obtain ⟨hi, rfl⟩ := List.getElem?_eq_some_iff.mp hp
  refine List.findIdx?_eq_some_iff_getElem.mpr ⟨hi, decide_eq_true rfl, fun j hj hsame => ?_⟩
  exact Nat.ne_of_lt hj (index_unique h (List.getElem?_eq_getElem (Nat.lt_trans hj hi))
    (List.getElem?_eq_getElem hi) (of_decide_eq_true hsame))

/-- The player of an answer is put in the place of its uid, and nowhere else. -/
theorem reload_eq {c : Codec Info} {s : Session Info}
    (h : (s.dbProcs.map PBDBProcInfo.uid).Nodup) {i : Nat} {p : PBDBProcInfo Info}
    (hp : s.dbProcs[i]? = some p) {r : Response} (huid : r.uid = p.uid) {m : PBDBMsg Info}
    (hm : parseDBData c ⟨r.uid, fun _ => none, fun _ => false⟩ r.datas = some m) :
    reload c s r = some { s with
      dbProcs := s.dbProcs.set i { p with player := some (PBDBMsg.copyFrom p.player m) } } := by
  rw [huid] at hm
  simp only [reload, hm, huid, nodup_getElem h hp, List.modify_eq_set_getElem?, hp]
  rfl

/-- A get reads what is stored: the answer of the database to the request of a session leaves in the
player what is stored for its keys, and the other players as they were. -/
theorem get_end_to_end (c : Codec Info) (h : Handler Info) (st : Store) (s : Session Info)
    (hb : Built s.dbProcs) (i : Nat) (p : PBDBProcInfo Info) (hp : s.dbProcs[i]? = some p)
    (hparse : Parses c st p.uid p.keys) (r : Response) (hr : GetAnswer st (getRequest p) r) :
    (p.player = none → .get (getRequest p) ∈ (getAllData s).sent) ∧
    ∃ m, Fetched c st p.uid p.keys m ∧
      let s' := { s with dbProcs := s.dbProcs.set i { p with player := some m } }
      getResponse c h s r =
        if getAllDBData s'.dbProcs then processData c h s' else ⟨some s', []⟩ := by
  have hmem := List.mem_of_getElem? hp
  refine ⟨fun hnone => ?_, ?_⟩
  · have hmissing : p ∈ s.dbProcs.filter fun p => p.player.isNone :=
      List.mem_filter.mpr ⟨hmem, by rw [hnone]; rfl⟩
    simp only [getAllData, List.isEmpty_eq_false_iff.mpr (List.ne_nil_of_mem hmissing),
      Bool.false_eq_true, if_false]
    exact List.mem_map_of_mem (f := fun p => Request.get (getRequest p)) hmissing
  · obtain ⟨hok, huid, m, hm, hfetched⟩ := hr.fetched (hb.asked p hmem) hparse
    refine ⟨PBDBMsg.copyFrom p.player m, hfetched.copyFrom p.player, ?_⟩
    simp only [getResponse, hok, if_true, reload_eq hb.nodup hp huid hm]

/-- A session that asks for both parts of player 7 and the money of player 8. -/
def sampleAsked : Session Blob :=
  ⟨[⟨7, [1, 2], none⟩, ⟨8, [2], none⟩], 0, 0, .waitGetRsp⟩

theorem sampleAsked_built : Built sampleAsked.dbProcs :=
  ⟨[(7, .baseInfo), (8, .moneyInfo), (7, .moneyInfo)], by decide, rfl⟩

/-- Player 7 has money and no base info. -/
theorem get_end_to_end_money :
    Built sampleAsked.dbProcs ∧ ∃ m : PBDBMsg Blob, Fetched plainCodec (fresh moneyTables) 7 [1, 2] m ∧
      m.field .moneyInfo = some ⟨[9], some 3, some [9]⟩ ∧ m.field .baseInfo = some ⟨[], none, none⟩ := by
  refine ⟨sampleAsked_built, ?_⟩
  obtain ⟨-, m, hm, -⟩ := get_end_to_end plainCodec addMoney (fresh moneyTables) sampleAsked
    sampleAsked_built 0 ⟨7, [1, 2], none⟩ rfl (fun _ _ _ _ => rfl) _
    (handleGet_answer (fresh moneyTables) (by decide))
  have hmoney : (fresh moneyTables).row (uidKey (DbKey.num .moneyInfo) 7) = some ⟨[9], 3⟩ := by
    decide +kernel
  have hbase : (fresh moneyTables).row (uidKey (DbKey.num .baseInfo) 7) = none := by
    decide +kernel
  refine ⟨m, hm, ?_, ?_⟩
  · rw [(hm.requested .moneyInfo (by decide)).2, storedField, hmoney]
    rfl
  · rw [(hm.requested .baseInfo (by decide)).2, storedField, hbase]
    rfl

/-! ## All answers -/

def proceedCalls (c : Codec Info) (h : Handler Info) (s : Session Info) :
    HandlerResult → List (Session Info)
  | .next =>
    let s' : Session Info := { s with curProcIndex := s.curProcIndex + 1 }
    if s.curProcIndex + 1 < s.dbProcs.length then
      s' :: proceedCalls c h (processed c h s') (h.onProcessData s').result
    else []
  | _ => []
termination_by s.dbProcs.length - s.curProcIndex
decreasing_by
  simp only [processed, editProcs, List.length_mapIdx]
  omega

/-- The sessions on which `OnProcessData` is called from its first call in a turn on. -/
def processDataCalls (c : Codec Info) (h : Handler Info) (s : Session Info) : List (Session Info) :=
  s :: proceedCalls c h (processed c h s) (h.onProcessData s).result

/-- The sessions on which `OnProcessData` is called while a response to a get is handled. -/
def getResponseCalls (c : Codec Info) (h : Handler Info) (s : Session Info) (r : Response) :
    List (Session Info) :=
  if r.result = .ok then
    match reload c s r with
    | none => []
    | some s => if getAllDBData s.dbProcs then processDataCalls c h s else []
  else []

/-- `OnServerMessage` with a response to a get, for the session that `GetSession` finds, if any. -/
def deliver (c : Codec Info) (h : Handler Info) (o : Option (Session Info)) (r : Response) :
    Option (Session Info) :=
  o.bind fun s => (process c h s (.get r)).session

def deliverCalls (c : Codec Info) (h : Handler Info) (o : Option (Session Info)) (r : Response) :
    List (Session Info) :=
  match o with
  | none => []
  | some s => if s.processState = .waitGetRsp then getResponseCalls c h s r else []

def deliverSent (c : Codec Info) (h : Handler Info) (o : Option (Session Info)) (r : Response) :
    List Request :=
  match o with
  | none => []
  | some s => (process c h s (.get r)).sent

structure Gathering (s : Session Info) : Prop where
  waiting : s.processState = .waitGetRsp
  nonempty : s.dbProcs ≠ []
  nodup : (s.dbProcs.map PBDBProcInfo.uid).Nodup
  missing : ∀ p ∈ s.dbProcs, p.player = none

def Parsable (c : Codec Info) (r : Response) : Prop := r.result = .ok ∧ (parsed c r).isSome = true

def filled (c : Codec Info) (rs : List Response) (p : PBDBProcInfo Info) : PBDBProcInfo Info :=
  { p with player := (rs.find? fun r => r.uid = p.uid).bind (parsed c) }

def gathered (c : Codec Info) (s : Session Info) (rs : List Response) : Session Info :=
  { s with dbProcs := s.dbProcs.map (filled c rs) }

section Gather

variable {c : Codec Info} {h : Handler Info} {s : Session Info}

theorem gathered_nil (hs : Gathering s) : gathered c s [] = s := by
  have hmap : s.dbProcs.map (filled c []) = s.dbProcs := by
    conv_rhs => rw [← List.map_id s.dbProcs]
    refine List.map_congr_left fun p hp => ?_
    have hnone := hs.missing p hp
    cases p
    cases hnone
    rfl
  rw [gathered, hmap]

/-- Responses change neither the uids nor their order. -/
theorem gathered_uids (c : Codec Info) (s : Session Info) (rs : List Response) :
    (gathered c s rs).dbProcs.map PBDBProcInfo.uid = s.dbProcs.map PBDBProcInfo.uid := by
  simp only [gathered, List.map_map, Function.comp_def, filled]

theorem find_append_ne {rs : List Response} {r : Response} {uid : UInt64} (hne : r.uid ≠ uid) :
    ((rs ++ [r]).find? fun q => q.uid = uid) = rs.find? fun q => q.uid = uid := by
  rw [List.find?_append, List.find?_cons_of_neg (by simpa using hne), List.find?_nil, Option.or_none]

/-- A response for a new uid is found among those that have come. -/
theorem find_append_new {rs : List Response} {r : Response} (hnew : r.uid ∉ rs.map Response.uid) :
    ((rs ++ [r]).find? fun q => q.uid = r.uid) = some r := by
  have hnone : (rs.find? fun q => q.uid = r.uid) = none := by
    refine List.find?_eq_none.mpr fun q hq hsame => ?_
    exact hnew (List.mem_map.mpr ⟨q, hq, of_decide_eq_true hsame⟩)
  rw [List.find?_append, hnone, List.find?_cons_of_pos (by simp), Option.none_or]

/-- A response fills the player of its uid. -/
theorem reload_gathered (hs : Gathering s) {rs : List Response} {r : Response}
    (hmem : r.uid ∈ s.dbProcs.map PBDBProcInfo.uid) (hnew : r.uid ∉ rs.map Response.uid) :
    reload c (gathered c s rs) r =
      if (parsed c r).isSome then some (gathered c s (rs ++ [r])) else none := by
  obtain ⟨p, hp, huid⟩ := List.mem_map.mp hmem
  obtain ⟨i, hi⟩ := List.getElem?_of_mem hp
  have hnd : ((gathered c s rs).dbProcs.map PBDBProcInfo.uid).Nodup := by
    rw [gathered_uids]
    exact hs.nodup
  have hget : (gathered c s rs).dbProcs[i]? = some (filled c rs p) := by
    simp only [gathered, List.getElem?_map, hi, Option.map_some]
  cases hm : parseDBData c ⟨r.uid, fun _ => none, fun _ => false⟩ r.datas with
  | none =>
    simp only [reload, parsed, hm, Option.map_none, Option.isSome_none, Bool.false_eq_true, if_false]
  | some m =>
    have hparsed : parsed c r = some (PBDBMsg.copyFrom none m) := by
      rw [parsed, hm, Option.map_some]
    have hempty : (filled c rs p).player = none := by
      have hnone : (rs.find? fun q => q.uid = p.uid) = none := by
        refine List.find?_eq_none.mpr fun q hq hsame => hnew ?_
        rw [← huid]
        exact List.mem_map.mpr ⟨q, hq, of_decide_eq_true hsame⟩
      rw [filled, hnone, Option.bind_none]
    rw [reload_eq hnd hget huid.symm hm, hparsed, Option.isSome_some, if_pos rfl, hempty]
    have hprocs : (gathered c s rs).dbProcs.set i
        { filled c rs p with player := some (PBDBMsg.copyFrom none m) } =
        s.dbProcs.map (filled c (rs ++ [r])) := by
      refine List.ext_getElem? fun j => ?_
      rw [List.getElem?_set, List.getElem?_map]
      by_cases hij : i = j
      · subst hij
        obtain ⟨hlt, -⟩ := List.getElem?_eq_some_iff.mp hget
        have hfind : ((rs ++ [r]).find? fun q => q.uid = p.uid) = some r := by
          rw [huid]
          exact find_append_new hnew
        rw [if_pos rfl, if_pos hlt, hi]
        simp only [Option.map_some, filled, hfind, Option.bind_some, hparsed]
      · rw [if_neg hij]
        simp only [gathered, List.getElem?_map]
        cases hj : s.dbProcs[j]? with
        | none => rfl
        | some q =>
          have hne : r.uid ≠ q.uid := by
            intro he
            have hq := nodup_getElem hs.nodup hj
            rw [← he, ← huid, nodup_getElem hs.nodup hi] at hq
            exact hij (Option.some.inj hq)
          simp only [Option.map_some, filled, find_append_ne hne]
    rw [hprocs]
    rfl

/-- All players are there when there is a response for each. -/
theorem gathered_all {rs : List Response}
    (hparse : ∀ r ∈ rs, (parsed c r).isSome = true) :
    getAllDBData (gathered c s rs).dbProcs = true ↔
      ∀ uid ∈ s.dbProcs.map PBDBProcInfo.uid, uid ∈ rs.map Response.uid := by
  simp only [getAllDBData, gathered, List.all_map, List.all_eq_true]
  constructor
  · intro hall uid huid
    obtain ⟨p, hp, rfl⟩ := List.mem_map.mp huid
    obtain ⟨m, hm⟩ := Option.isSome_iff_exists.mp (hall p hp)
    obtain ⟨r, hr, -⟩ := Option.bind_eq_some_iff.mp hm
    exact List.mem_map.mpr ⟨r, List.mem_of_find?_eq_some hr,
      of_decide_eq_true (List.find?_some (p := fun r : Response => decide (r.uid = p.uid)) hr)⟩
  · intro hall p hp
    obtain ⟨r, hr, huid⟩ := List.mem_map.mp (hall p.uid (List.mem_map_of_mem hp))
    have hsome : (rs.find? fun r => r.uid = p.uid).isSome = true :=
      List.find?_isSome.mpr ⟨r, hr, decide_eq_true huid⟩
    obtain ⟨q, hq⟩ := Option.isSome_iff_exists.mp hsome
    show ((rs.find? fun r => r.uid = p.uid).bind (parsed c)).isSome = true
    rw [hq, Option.bind_some]
    exact hparse q (List.mem_of_find?_eq_some hq)

/-- One response to a session that waits. -/
theorem deliver_gathered (hs : Gathering s) {rs : List Response} {r : Response}
    (hmem : r.uid ∈ s.dbProcs.map PBDBProcInfo.uid) (hnew : r.uid ∉ rs.map Response.uid) :
    (¬ Parsable c r ∧ deliver c h (some (gathered c s rs)) r = none ∧
      deliverCalls c h (some (gathered c s rs)) r = []) ∨
    (Parsable c r ∧
      ((getAllDBData (gathered c s (rs ++ [r])).dbProcs = false ∧
        deliver c h (some (gathered c s rs)) r = some (gathered c s (rs ++ [r])) ∧
        deliverCalls c h (some (gathered c s rs)) r = []) ∨
      (getAllDBData (gathered c s (rs ++ [r])).dbProcs = true ∧
        deliver c h (some (gathered c s rs)) r =
          (processData c h (gathered c s (rs ++ [r]))).session ∧
        deliverCalls c h (some (gathered c s rs)) r =
          processDataCalls c h (gathered c s (rs ++ [r]))))) := by
  have hwait : (gathered c s rs).processState = .waitGetRsp := hs.waiting
  have hreload := reload_gathered (c := c) hs hmem hnew
  simp only [deliver, Option.bind_some, deliverCalls, process, hwait, if_true, getResponse,
    getResponseCalls]
  by_cases hok : r.result = .ok
  · simp only [hok, if_true, hreload]
    by_cases hm : (parsed c r).isSome = true
    · refine .inr ⟨⟨hok, hm⟩, ?_⟩
      simp only [hm, if_true]
      by_cases hall : getAllDBData (gathered c s (rs ++ [r])).dbProcs = true
      · simp only [hall, if_true, Bool.true_eq_false, false_and, false_or, and_self]
      · simp only [hall, Bool.false_eq_true, if_false, and_self, false_and, or_false]
    · refine .inl ⟨fun hp => hm hp.2, ?_⟩
      simp only [hm, Bool.false_eq_true, if_false, Outcome.released, and_self]
  · refine .inl ⟨fun hp => hok hp.1, ?_⟩
    simp only [hok, if_false, Outcome.released, and_self]

/-- Nothing is delivered to a session that has ended. -/
theorem deliver_none (c : Codec Info) (h : Handler Info) (rs : List Response) :
    rs.foldl (deliver c h) none = none := by
  induction rs with
  | nil => rfl
  | cons r rs ih => exact ih

/-- The responses are one for each player. -/
theorem fresh_uid (hs : Gathering s) {rs pre post : List Response} {r : Response}
    (hperm : (rs.map Response.uid).Perm (s.dbProcs.map PBDBProcInfo.uid))
    (hsplit : rs = pre ++ r :: post) :
    r.uid ∈ s.dbProcs.map PBDBProcInfo.uid ∧ r.uid ∉ pre.map Response.uid ∧
      ∀ q ∈ post, q.uid ∉ (pre ++ [r]).map Response.uid := by
  have hnd := hperm.nodup_iff.mpr hs.nodup
  refine ⟨hperm.mem_iff.mp ?_, ?_, fun q hq => ?_⟩
  · rw [hsplit]
    exact List.mem_map_of_mem (List.mem_append_right _ (List.mem_cons_self ..))
  · rw [hsplit, List.map_append, List.map_cons] at hnd
    intro hmem
    exact (List.nodup_append.mp hnd).2.2 r.uid hmem r.uid (List.mem_cons_self ..) rfl
  · rw [hsplit, List.append_cons, List.map_append] at hnd
    intro hmem
    exact (List.nodup_append.mp hnd).2.2 q.uid hmem q.uid (List.mem_map_of_mem hq) rfl

/-- Before the last response, the session waits with the players it has, unless a response could not
be used. -/
theorem deliver_front (hs : Gathering s) {rs : List Response}
    (hperm : (rs.map Response.uid).Perm (s.dbProcs.map PBDBProcInfo.uid)) (pre post : List Response)
    (hsplit : rs = pre ++ post) (hpost : post ≠ []) :
    ((∀ r ∈ pre, Parsable c r) → pre.foldl (deliver c h) (some s) = some (gathered c s pre)) ∧
      ((∃ r ∈ pre, ¬ Parsable c r) → pre.foldl (deliver c h) (some s) = none) := by
  induction pre using List.reverseRecOn generalizing post with
  | nil =>
    refine ⟨fun _ => by rw [gathered_nil hs]; rfl, fun hbad => ?_⟩
    obtain ⟨r, hr, -⟩ := hbad
    cases hr
  | append_singleton pre r ih =>
    have hsplit' : rs = pre ++ r :: post := by rw [hsplit, List.append_assoc]; rfl
    obtain ⟨hgood, hbad⟩ := ih (r :: post) hsplit' (List.cons_ne_nil _ _)
    obtain ⟨hmem, hnew, hlater⟩ := fresh_uid hs hperm hsplit'
    obtain ⟨q, hq⟩ := List.exists_mem_of_ne_nil _ hpost
    simp only [List.foldl_append, List.foldl_cons, List.foldl_nil]
    by_cases hpre : ∀ r ∈ pre, Parsable c r
    · rw [hgood hpre]
      obtain ⟨hr, hnone, -⟩ | ⟨hr, ⟨-, hsome, -⟩ | ⟨hall, -⟩⟩ :=
        deliver_gathered (c := c) (h := h) hs hmem hnew
      · refine ⟨fun hok => absurd (hok r ?_) hr, fun _ => hnone⟩
        exact List.mem_append_right _ (List.mem_singleton.mpr rfl)
      · refine ⟨fun _ => hsome, fun hex => ?_⟩
        obtain ⟨e, he, hne⟩ := hex
        obtain he | he := List.mem_append.mp he
        · exact absurd (hpre e he) hne
        · rw [List.mem_singleton.mp he] at hne
          exact absurd hr hne
      · have hparse : ∀ e ∈ pre ++ [r], (parsed c e).isSome = true := by
          intro e he
          obtain he | he := List.mem_append.mp he
          · exact (hpre e he).2
          · rw [List.mem_singleton.mp he]
            exact hr.2
        have hquid : q.uid ∈ s.dbProcs.map PBDBProcInfo.uid := by
          refine hperm.mem_iff.mp (List.mem_map_of_mem ?_)
          rw [hsplit']
          exact List.mem_append_right _ (List.mem_cons_of_mem _ hq)
        exact absurd ((gathered_all hparse).mp hall q.uid hquid) (hlater q hq)
    · obtain ⟨e, he, hne⟩ : ∃ e ∈ pre, ¬ Parsable c e := by
        by_contra hnone
        exact hpre fun e he => by_contra fun hne => hnone ⟨e, he, hne⟩
      rw [hbad ⟨e, he, hne⟩]
      refine ⟨fun hok => absurd (hok e (List.mem_append_left _ he)) hne, fun _ => rfl⟩

/-- With all responses every player is that of its own response. -/
theorem gathered_own {rs : List Response}
    (hperm : (rs.map Response.uid).Perm (s.dbProcs.map PBDBProcInfo.uid))
    (hparse : ∀ r ∈ rs, Parsable c r) :
    ∀ p ∈ (gathered c s rs).dbProcs, ∃ r ∈ rs, r.uid = p.uid ∧ p.player.isSome = true ∧
      p.player = parsed c r := by
  intro p hp
  have hall := (gathered_all (c := c) (s := s) fun r hr => (hparse r hr).2).mpr fun uid huid =>
    hperm.mem_iff.mpr huid
  have hsome := List.all_eq_true.mp hall p hp
  obtain ⟨p₀, -, rfl⟩ := List.mem_map.mp hp
  obtain ⟨m, hm⟩ := Option.isSome_iff_exists.mp hsome
  obtain ⟨r, hr, hrm⟩ := Option.bind_eq_some_iff.mp hm
  refine ⟨r, List.mem_of_find?_eq_some hr, ?_, hsome, hm.trans hrm.symm⟩
  exact of_decide_eq_true (List.find?_some (p := fun r : Response => decide (r.uid = p₀.uid)) hr)

/-- The order of the responses does not matter. -/
theorem gathered_perm (hs : Gathering s) {rs rs' : List Response}
    (hperm : (rs.map Response.uid).Perm (s.dbProcs.map PBDBProcInfo.uid)) (h : rs'.Perm rs) :
    gathered c s rs' = gathered c s rs := by
  have hnd := hperm.nodup_iff.mpr hs.nodup
  have hfind : ∀ uid, (rs'.find? fun r => r.uid = uid) = rs.find? fun r => r.uid = uid := by
    intro uid
    have hone : ((rs.filter fun r => r.uid = uid).map Response.uid).Nodup :=
      hnd.sublist (List.filter_sublist.map _)
    have hsame : (rs'.filter fun r => r.uid = uid) = rs.filter fun r => r.uid = uid := by
      have hp := h.filter fun r => decide (r.uid = uid)
      have huid : ∀ r ∈ rs.filter (fun r => r.uid = uid), r.uid = uid := fun r hr =>
        of_decide_eq_true (List.mem_filter.mp hr).2
      generalize rs.filter (fun r => decide (r.uid = uid)) = l at hp hone huid
      match l, hp, hone, huid with
      | [], hp, _, _ => exact hp.eq_nil
      | [r], hp, _, _ => exact List.perm_singleton.mp hp
      | r :: r' :: l, _, hone, huid =>
        have he : r.uid = r'.uid := (huid r (by simp)).trans (huid r' (by simp)).symm
        simp [he] at hone
    rw [← List.head?_filter, ← List.head?_filter, hsame]
  have hfilled : filled c rs' = filled c rs := by
    funext p
    rw [filled, filled, hfind]
  rw [gathered, gathered, hfilled]

/-- The last response completes the players. -/
theorem deliver_last (hs : Gathering s) {rs pre : List Response} {r : Response}
    (hperm : (rs.map Response.uid).Perm (s.dbProcs.map PBDBProcInfo.uid))
    (hparse : ∀ r ∈ rs, Parsable c r) (hsplit : rs = pre ++ [r]) :
    deliverCalls c h (pre.foldl (deliver c h) (some s)) r = processDataCalls c h (gathered c s rs) ∧
      rs.foldl (deliver c h) (some s) = (processData c h (gathered c s rs)).session := by
  have hpre : ∀ q ∈ pre, Parsable c q := fun q hq => by
    refine hparse q ?_
    rw [hsplit]
    exact List.mem_append_left _ hq
  have hr : Parsable c r := hparse r (by rw [hsplit]; simp)
  obtain ⟨hmem, hnew, -⟩ := fresh_uid hs hperm hsplit
  have hstate := (deliver_front (c := c) (h := h) hs hperm pre [r] hsplit (List.cons_ne_nil _ _)).1
    hpre
  have hall := (gathered_all (c := c) (s := s) fun r hr => (hparse r hr).2).mpr fun uid huid =>
    hperm.mem_iff.mpr huid
  rw [hstate, hsplit, List.foldl_append, hstate, List.foldl_cons, List.foldl_nil, ← hsplit]
  obtain ⟨hbad, -⟩ | ⟨-, ⟨hnot, -⟩ | ⟨-, hdeliver, hcalls⟩⟩ :=
    deliver_gathered (c := c) (h := h) hs hmem hnew
  · exact absurd hr hbad
  · rw [← hsplit, hall] at hnot
    cases hnot
  · rw [← hsplit] at hdeliver hcalls
    exact ⟨hcalls, hdeliver⟩

/-- A response that cannot be used, and those behind it. -/
theorem deliver_failed (hs : Gathering s) {rs pre post : List Response} {r : Response}
    (hperm : (rs.map Response.uid).Perm (s.dbProcs.map PBDBProcInfo.uid))
    (hsplit : rs = pre ++ r :: post) (hr : ¬ Parsable c r) :
    (pre ++ [r]).foldl (deliver c h) (some s) = none ∧
      deliverCalls c h (pre.foldl (deliver c h) (some s)) r = [] := by
  obtain ⟨hmem, hnew, -⟩ := fresh_uid hs hperm hsplit
  obtain ⟨hgood, hbad⟩ := deliver_front (c := c) (h := h) hs hperm pre (r :: post) hsplit
    (List.cons_ne_nil _ _)
  rw [List.foldl_append]
  by_cases hpre : ∀ q ∈ pre, Parsable c q
  · rw [hgood hpre]
    obtain ⟨-, hnone, hcalls⟩ | ⟨hok, -⟩ := deliver_gathered (c := c) (h := h) hs hmem hnew
    · exact ⟨hnone, hcalls⟩
    · exact absurd hok hr
  · obtain ⟨e, he, hne⟩ : ∃ e ∈ pre, ¬ Parsable c e := by
      by_contra hnone
      exact hpre fun e he => by_contra fun hne => hnone ⟨e, he, hne⟩
    rw [hbad ⟨e, he, hne⟩]
    exact ⟨rfl, rfl⟩

theorem proceedCalls_of_ne {r : HandlerResult} (hr : r ≠ .next) : proceedCalls c h s r = [] := by
  cases r with
  | next => exact absurd rfl hr
  | done | hup | failed | get | save => rw [proceedCalls]; exact fun hn => nomatch hn

/-- Until the last response the session only waits. -/
theorem deliver_early (hs : Gathering s) {rs pre post : List Response} {r : Response}
    (hperm : (rs.map Response.uid).Perm (s.dbProcs.map PBDBProcInfo.uid))
    (hparse : ∀ r ∈ rs, Parsable c r) (hsplit : rs = pre ++ r :: post) (hpost : post ≠ []) :
    deliverCalls c h (pre.foldl (deliver c h) (some s)) r = [] ∧
      (pre ++ [r]).foldl (deliver c h) (some s) = some (gathered c s (pre ++ [r])) := by
  have hsplit' : rs = (pre ++ [r]) ++ post := by rw [hsplit, List.append_assoc]; rfl
  have hsub : ∀ q ∈ pre ++ [r], Parsable c q := fun q hq =>
    hparse q (by rw [hsplit']; exact List.mem_append_left _ hq)
  have hafter := (deliver_front (c := c) (h := h) hs hperm _ post hsplit' hpost).1 hsub
  have hbefore := (deliver_front (c := c) (h := h) hs hperm pre (r :: post) hsplit
    (List.cons_ne_nil _ _)).1 fun q hq => hsub q (List.mem_append_left _ hq)
  refine ⟨?_, hafter⟩
  obtain ⟨hmem, hnew, hlater⟩ := fresh_uid hs hperm hsplit
  rw [hbefore]
  obtain ⟨-, -, hcalls⟩ | ⟨-, ⟨-, -, hcalls⟩ | ⟨hall, -⟩⟩ :=
    deliver_gathered (c := c) (h := h) hs hmem hnew
  · exact hcalls
  · exact hcalls
  · obtain ⟨q, hq⟩ := List.exists_mem_of_ne_nil _ hpost
    have hquid : q.uid ∈ s.dbProcs.map PBDBProcInfo.uid := by
      refine hperm.mem_iff.mp (List.mem_map_of_mem ?_)
      rw [hsplit']
      exact List.mem_append_right _ hq
    exact absurd ((gathered_all fun e he => (hsub e he).2).mp hall q.uid hquid) (hlater q hq)

/-- Behind the last response nothing tells in which order they came. -/
theorem deliver_perm (hs : Gathering s) {rs rs' : List Response}
    (hperm : (rs.map Response.uid).Perm (s.dbProcs.map PBDBProcInfo.uid))
    (hparse : ∀ r ∈ rs, Parsable c r) (hrs' : rs'.Perm rs) :
    rs'.foldl (deliver c h) (some s) = rs.foldl (deliver c h) (some s) := by
  have hperm' : (rs'.map Response.uid).Perm (s.dbProcs.map PBDBProcInfo.uid) :=
    (hrs'.map Response.uid).trans hperm
  have hparse' : ∀ r ∈ rs', Parsable c r := fun r hr => hparse r (hrs'.mem_iff.mp hr)
  have hne : rs ≠ [] := by
    rintro rfl
    exact hs.nonempty (List.map_eq_nil_iff.mp (List.nil_perm.mp hperm))
  have hne' : rs' ≠ [] := fun he => hne (List.nil_perm.mp (he ▸ hrs'))
  have hlast := (deliver_last (c := c) (h := h) hs hperm hparse
    (List.dropLast_append_getLast hne).symm).2
  have hlast' := (deliver_last (c := c) (h := h) hs hperm' hparse'
    (List.dropLast_append_getLast hne').symm).2
  rw [hlast, hlast', gathered_perm hs hperm hrs']

end Gather

/-- A session gathers its players in any order of the responses. With a usable response for each,
it waits until the last, which makes `GetResponse` call `OnProcessData` once with every player that
of its own response; from there only `ProcessNext` calls it, when it returns `EN_HANDLER_NEXT`. A
failed response ends the session, and the responses behind it have no effect. -/
theorem gather_any_order (c : Codec Info) (h : Handler Info) (s : Session Info)
    (rs : List Response) (hs : Gathering s)
    (hperm : (rs.map Response.uid).Perm (s.dbProcs.map PBDBProcInfo.uid)) :
    ((∀ r ∈ rs, Parsable c r) →
      (∀ pre r post, rs = pre ++ r :: post → post ≠ [] →
        deliverCalls c h (pre.foldl (deliver c h) (some s)) r = [] ∧
        ∃ s', (pre ++ [r]).foldl (deliver c h) (some s) = some s' ∧
          s'.processState = .waitGetRsp) ∧
      (∀ pre r, rs = pre ++ [r] → ∃ full,
        deliverCalls c h (pre.foldl (deliver c h) (some s)) r =
          full :: proceedCalls c h (processed c h full) (h.onProcessData full).result ∧
        ((h.onProcessData full).result ≠ .next →
          deliverCalls c h (pre.foldl (deliver c h) (some s)) r = [full]) ∧
        full.dbProcs.map PBDBProcInfo.uid = s.dbProcs.map PBDBProcInfo.uid ∧
        ∀ p ∈ full.dbProcs, ∃ q ∈ rs, q.uid = p.uid ∧ p.player.isSome = true ∧
          p.player = parsed c q) ∧
      ∀ rs' : List Response, rs'.Perm rs →
        rs'.foldl (deliver c h) (some s) = rs.foldl (deliver c h) (some s)) ∧
    ∀ pre r post, rs = pre ++ r :: post → r.result ≠ .ok →
      deliverCalls c h (pre.foldl (deliver c h) (some s)) r = [] ∧
      ∀ mid : List Response, (pre ++ r :: mid).foldl (deliver c h) (some s) = none ∧
        ∀ q, deliverCalls c h ((pre ++ r :: mid).foldl (deliver c h) (some s)) q = [] ∧
          deliverSent c h ((pre ++ r :: mid).foldl (deliver c h) (some s)) q = [] := by
  refine ⟨fun hparse => ⟨fun pre r post hsplit hpost => ?_, fun pre r hsplit => ?_,
    fun rs' hrs' => deliver_perm hs hperm hparse hrs'⟩, fun pre r post hsplit hr => ?_⟩
  · obtain ⟨hcalls, hafter⟩ := deliver_early (h := h) hs hperm hparse hsplit hpost
    exact ⟨hcalls, _, hafter, hs.waiting⟩
  · obtain ⟨hcalls, -⟩ := deliver_last (c := c) (h := h) hs hperm hparse hsplit
    refine ⟨gathered c s rs, hcalls, fun hne => ?_, gathered_uids c s rs,
      gathered_own hperm hparse⟩
    rw [hcalls, processDataCalls, proceedCalls_of_ne hne]
  · obtain ⟨hnone, hcalls⟩ := deliver_failed (c := c) (h := h) hs hperm hsplit fun hp => hr hp.1
    refine ⟨hcalls, fun mid => ?_⟩
    have hmid : (pre ++ r :: mid).foldl (deliver c h) (some s) = none := by
      rw [List.append_cons, List.foldl_append, hnone, deliver_none]
    rw [hmid]
    exact ⟨rfl, fun _ => ⟨rfl, rfl⟩⟩

def answer8 : Response := ⟨.ok, 8, [⟨2, some [4], some 1, none⟩]⟩

def answer7 : Response := ⟨.ok, 7, [⟨2, some [9], some 3, none⟩, bareKey 1]⟩

/-- The sample session waits, and its answers come in the other order. -/
theorem sampleAsked_gathers : Gathering sampleAsked ∧
    ([answer8, answer7].map Response.uid).Perm (sampleAsked.dbProcs.map PBDBProcInfo.uid) ∧
      ∀ r ∈ [answer8, answer7], Parsable plainCodec r := by
  refine ⟨⟨rfl, by decide, by decide, by decide⟩, by decide, fun r hr => ?_⟩
  simp only [List.mem_cons, List.not_mem_nil, or_false] at hr
  obtain rfl | rfl := hr
  · exact ⟨rfl, rfl⟩
  · exact ⟨rfl, rfl⟩

theorem gather_any_order_two :
    Gathering sampleAsked ∧ ∃ full : Session Blob,
      deliverCalls plainCodec addMoney
        ([answer8].foldl (deliver plainCodec addMoney) (some sampleAsked)) answer7 = [full] := by
  obtain ⟨hs, hperm, hparse⟩ := sampleAsked_gathers
  obtain ⟨full, -, hone, -⟩ := ((gather_any_order plainCodec addMoney sampleAsked _ hs
    hperm).1 hparse).2.1 [answer8] answer7 rfl
  exact ⟨hs, full, hone (by simp [addMoney])⟩

/-- A handler with nothing to do for the first player. -/
def skipFirst : Handler Blob :=
  ⟨[], fun s => ⟨fun _ _ => none, if s.curProcIndex = 0 then .next else .done⟩, fun _ => false⟩

/-- `OnProcessData` returns `EN_HANDLER_NEXT` and is called again while the last response is handled. -/
theorem next_calls_again :
    Gathering sampleAsked ∧ (∀ r ∈ [answer8, answer7], Parsable plainCodec r) ∧
      (deliverCalls plainCodec skipFirst
        ([answer8].foldl (deliver plainCodec skipFirst) (some sampleAsked)) answer7).length = 2 := by
  obtain ⟨hs, hperm, hparse⟩ := sampleAsked_gathers
  refine ⟨hs, hparse, ?_⟩
  have hfirst : (skipFirst.onProcessData
      (gathered plainCodec sampleAsked [answer8, answer7])).result = .next := rfl
  have hsplit : [answer8, answer7] = [answer8] ++ [answer7] := rfl
  rw [(deliver_last (h := skipFirst) hs hperm hparse hsplit).1, processDataCalls,
    List.length_cons, hfirst, proceedCalls, if_pos (by decide), List.length_cons,
    proceedCalls_of_ne (by decide)]
  rfl

end Sessions
