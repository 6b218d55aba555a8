import Dsf4g.Lib.Wire
import Dsf4g.Redo

/-!
# What a login does to the data of its player

`HandlerLogin` in `src/hallsvr/msg_handler_common.cpp` and `HandlerLogout` in
`src/hallsvr/msg_handler_internal.cpp`, on the messages of `src/proto/pb_db_data.proto`.
A login session asks for both parts of its player, marks the player as online, and
saves until no other version is in the way.
-/
namespace Sessions

open DbProxy

/-- `DBBaseInfo` without its head. -/
structure DBBaseInfo where
  isInit : Option Bool
  isOnline : Option Bool
  hallsvrId : Option UInt32
  deriving DecidableEq, Repr, Inhabited

/-- `DBMoneyInfo` without its head. -/
structure DBMoneyInfo where
  money : Option UInt64
  deriving DecidableEq, Repr, Inhabited

inductive DbInfo where
  | base (i : DBBaseInfo)
  | money (i : DBMoneyInfo)
  deriving DecidableEq, Repr

def DbInfo.key : DbInfo → DbKey
  | .base _ => .baseInfo
  | .money _ => .moneyInfo

/-- What the code relies on in the generated messages: a parser gives its own kind of message and
reads back what was serialised, and a serialised message fits into a save. -/
structure Generated (c : Codec DbInfo) : Prop where
  kind : ∀ k b i, c.parse k b = some i → i.key = k
  empty : ∀ k, (c.empty k).key = k
  round : ∀ i, c.parse i.key (c.serialize i.key i) = some i
  small : ∀ i, (c.serialize i.key i).length ≤ maxPbDataBuf

/-- The fields of `DBBaseInfo` and `DBMoneyInfo` on the wire, in the order of their numbers. -/
def wireData : Codec DbInfo where
  parse
    | .baseInfo, b => do
      let (isInit, b) ← Wire.getField 16 b
      let (isOnline, b) ← Wire.getField 24 b
      let (hallsvrId, b) ← Wire.getField 32 b
      if b = [] then
        some (.base ⟨isInit.map (· != 0), isOnline.map (· != 0), hallsvrId.map UInt32.ofNat⟩)
      else none
    | .moneyInfo, b => do
      let (money, b) ← Wire.getField 16 b
      if b = [] then some (.money ⟨money.map UInt64.ofNat⟩) else none
  serialize
    | _, .base i => Wire.putField 1 16 (i.isInit.map Bool.toNat) ++
        (Wire.putField 1 24 (i.isOnline.map Bool.toNat) ++
          (Wire.putField 5 32 (i.hallsvrId.map UInt32.toNat) ++ []))
    | _, .money i => Wire.putField 10 16 (i.money.map UInt64.toNat) ++ []
  empty
    | .baseInfo => .base ⟨none, none, none⟩
    | .moneyInfo => .money ⟨none⟩

theorem boolean_fits (v : Option Bool) : ∀ n ∈ v.map Bool.toNat, n < 128 ^ (0 + 1) := by
  rintro n hn
  obtain ⟨b, -, rfl⟩ := Option.map_eq_some_iff.mp hn
  cases b <;> decide

theorem uint32_fits (v : Option UInt32) : ∀ n ∈ v.map UInt32.toNat, n < 128 ^ (4 + 1) := by
  rintro n hn
  obtain ⟨u, -, rfl⟩ := Option.map_eq_some_iff.mp hn
  have hlt := u.toNat_lt
  omega

theorem uint64_fits (v : Option UInt64) : ∀ n ∈ v.map UInt64.toNat, n < 128 ^ (9 + 1) := by
  rintro n hn
  obtain ⟨u, -, rfl⟩ := Option.map_eq_some_iff.mp hn
  have hlt := u.toNat_lt
  omega

/-- Parsers and serialisers of the wire format keep to what the handlers rely on. -/
theorem wireData_generated : Generated wireData := by
  constructor
  · intro k b i h
    cases k with
    | baseInfo =>
      simp only [wireData, Option.bind_eq_bind, Option.bind_eq_some_iff] at h
      obtain ⟨⟨isInit, b⟩, -, ⟨isOnline, b⟩, -, ⟨hallsvrId, b⟩, -, h⟩ := h
      split at h
      · cases h
        rfl
      · cases h
    | moneyInfo =>
      simp only [wireData, Option.bind_eq_bind, Option.bind_eq_some_iff] at h
      obtain ⟨⟨money, b⟩, -, h⟩ := h
      split at h
      · cases h
        rfl
      · cases h
  · intro k
    cases k <;> rfl
  · intro i
    cases i with
    | base i =>
      obtain ⟨isInit, isOnline, hallsvrId⟩ := i
      have hnil : ∀ tag : UInt8, ([] : List UInt8).head? ≠ some tag := fun _ h => (nomatch h)
      have hserver := Wire.putField_head (by decide : (32 : UInt8) ≠ 24) (hnil 24) 5
        (hallsvrId.map UInt32.toNat)
      have hserver' := Wire.putField_head (by decide : (32 : UInt8) ≠ 16) (hnil 16) 5
        (hallsvrId.map UInt32.toNat)
      have honline := Wire.putField_head (by decide : (24 : UInt8) ≠ 16) hserver' 1
        (isOnline.map Bool.toNat)
      simp only [wireData, DbInfo.key, Wire.getField_putField (boolean_fits _) honline,
        Wire.getField_putField (boolean_fits _) hserver,
        Wire.getField_putField (uint32_fits _) (hnil 32), Option.bind_eq_bind, Option.bind_some,
        if_true, Option.map_map]
      cases isInit <;> cases isOnline <;> cases hallsvrId <;> simp
    | money i =>
      obtain ⟨money⟩ := i
      have hnil : ([] : List UInt8).head? ≠ some 16 := fun h => (nomatch h)
      simp only [wireData, DbInfo.key, Wire.getField_putField (uint64_fits _) hnil,
        Option.bind_eq_bind, Option.bind_some, if_true, Option.map_map]
      cases money <;> simp
  · intro i
    cases i with
    | base i =>
      have hinit := Wire.putField_length 1 16 (i.isInit.map Bool.toNat)
      have honline := Wire.putField_length 1 24 (i.isOnline.map Bool.toNat)
      have hserver := Wire.putField_length 5 32 (i.hallsvrId.map UInt32.toNat)
      simp only [wireData, List.length_append, List.length_nil, maxPbDataBuf]
      omega
    | money i =>
      have hmoney := Wire.putField_length 10 16 (i.money.map UInt64.toNat)
      simp only [wireData, List.length_append, List.length_nil, maxPbDataBuf]
      omega

/-! ## Handlers -/

def onBase (g : DBBaseInfo → DBBaseInfo) : DbInfo → DbInfo
  | .base i => .base (g i)
  | .money i => .money i

def onMoney (g : DBMoneyInfo → DBMoneyInfo) : DbInfo → DbInfo
  | .base i => .base i
  | .money i => .money (g i)

def baseInfo (s : Session DbInfo) : DBBaseInfo :=
  match ((currentPlayer s).bind fun m => m.field .baseInfo).map Field.info with
  | some (.base i) => i
  | _ => default

def moneyInfo (s : Session DbInfo) : DBMoneyInfo :=
  match ((currentPlayer s).bind fun m => m.field .moneyInfo).map Field.info with
  | some (.money i) => i
  | _ => default

/-- The flag and the server of a player, who is initialised when it was not yet. -/
def signOn (svrId : UInt32) (isInit : Bool) (i : DBBaseInfo) : DBBaseInfo where
  isInit := if isInit then i.isInit else some true
  isOnline := some true
  hallsvrId := some svrId

/-- `InitDBData` on a player that is not initialised, and what follows it. -/
def loginEdit (svrId : UInt32) (isInit : Bool) : DbKey → Option (DbInfo → DbInfo)
  | .baseInfo => some (onBase (signOn svrId isInit))
  | .moneyInfo => if isInit then none else some (onMoney fun _ => ⟨some 1000000⟩)

def handlerLogin (svrId : UInt32) (uid : UInt64) : Handler DbInfo where
  keys := [(uid, .baseInfo), (uid, .moneyInfo)]
  onProcessData s :=
    ⟨fun i k => if i = s.curProcIndex then loginEdit svrId ((baseInfo s).isInit.getD false) k
      else none, .save⟩
  next _ := false

/-- `HandlerLogout`. It takes the uid from the client message of its session, which has none. -/
def handlerLogout : Handler DbInfo where
  keys := [(0, .baseInfo), (0, .moneyInfo)]
  onProcessData s :=
    ⟨fun i k => if i = s.curProcIndex ∧ k = .baseInfo then
        some (onBase fun i => { i with isOnline := none, hallsvrId := none })
      else none, .save⟩
  next _ := false

/-! ## The stored flag -/

def storedOnline (c : Codec DbInfo) (st : Store) (uid : UInt64) : Bool :=
  match (st.row (uidKey (DbKey.num .baseInfo) uid)).bind fun row => c.parse .baseInfo row.blob with
  | some (.base i) => i.isOnline.getD false
  | _ => false

def Online : DbInfo → Prop
  | .base i => i.isOnline = some true
  | .money _ => True

/-- What is stored of a player can be parsed. -/
def Legible (c : Codec DbInfo) (st : Store) (uid : UInt64) : Prop :=
  ∀ k, ∀ row ∈ st.row (uidKey (DbKey.num k) uid), (c.parse k row.blob).isSome = true

def LoginItem (c : Codec DbInfo) (d : PBDBData) : Prop :=
  ∃ k i, d.key = DbKey.num k ∧ c.parse k d.bytes = some i ∧ Online i

structure LoginSave (c : Codec DbInfo) (uid : UInt64) (r : SaveRequest) : Prop where
  uid : r.uid = uid
  items : ∀ d ∈ r.datas, LoginItem c d
  base : DbKey.num .baseInfo ∈ r.datas.map PBDBData.key

structure LoginAnswer (c : Codec DbInfo) (uid : UInt64) (r : Response) : Prop where
  uid : r.uid = uid
  entries : ∀ d ∈ r.datas, EntryOk c d

/-- A session of one player that has asked for both parts. -/
structure LoginSession (uid : UInt64) (s : Session DbInfo) : Prop where
  current : s.curProcIndex = 0
  procs : ∃ player, s.dbProcs = [⟨uid, [1, 2], player⟩]

/-- The message that a login session waits for, on its way. -/
def Awaited (c : Codec DbInfo) (st : Store) (uid : UInt64) (s : Session DbInfo) : Body → Prop
  | .request (.get r) => s.processState = .waitGetRsp ∧ r = ⟨uid, [bareKey 1, bareKey 2]⟩
  | .reply (.get r) => s.processState = .waitGetRsp ∧ r.result = .ok ∧ LoginAnswer c uid r
  | .request (.save r) => s.processState = .waitSaveRsp ∧ LoginSave c uid r
  | .reply (.save r) => s.processState = .waitSaveRsp ∧
      ((r.result = .ok ∧ storedOnline c st uid = true) ∨
        (r.result = .verDiffer ∧ LoginAnswer c uid r))

/-! ## Starting, and the data of an answer -/

/-- A login asks for both parts of its player. -/
theorem start_login (svrId : UInt32) (uid : UInt64) :
    ∃ s, start (handlerLogin svrId uid) = ⟨some s, [.get ⟨uid, [bareKey 1, bareKey 2]⟩]⟩ ∧
      LoginSession uid s ∧ s.processState = .waitGetRsp := by
  have hprocs : (handlerLogin svrId uid).keys.foldl (fun ps k => addDBGetKey ps k.1 k.2.num) [] =
      ([⟨uid, [1, 2], none⟩] : List (PBDBProcInfo DbInfo)) := by
    simp only [handlerLogin, List.foldl_cons, List.foldl_nil, addDBGetKey, if_true]
    rfl
  refine ⟨⟨[⟨uid, [1, 2], none⟩], 0, 0, .waitGetRsp⟩, ?_, ⟨rfl, none, rfl⟩, rfl⟩
  rw [start, hprocs]
  rfl

/-- Every part of a player is of its own kind. -/
def Typed (m : PBDBMsg DbInfo) : Prop := ∀ k f, m.field k = some f → f.info.key = k

theorem Typed.getD {c : Codec DbInfo} (hc : Generated c) {m : PBDBMsg DbInfo} (h : Typed m)
    (k : DbKey) : ((m.field k).getD ⟨c.empty k, none, none⟩).info.key = k := by
  cases hf : m.field k with
  | none => exact hc.empty k
  | some f => exact h k f hf

theorem Typed.store {m : PBDBMsg DbInfo} (h : Typed m) {k : DbKey} {f : Field DbInfo}
    (hf : f.info.key = k) : Typed (m.store k f) := by
  intro k' f' hf'
  by_cases he : k' = k
  · subst he
    rw [PBDBMsg.store_field] at hf'
    cases hf'
    exact hf
  · rw [(m.store_other he f).1] at hf'
    exact h k' f' hf'

/-- Parsing keeps the kind of a part. -/
theorem constructDBMsg_key {c : Codec DbInfo} (hc : Generated c) {k : DbKey} {f f' : Field DbInfo}
    {d : PBDBData} (hf : f.info.key = k) (h : constructDBMsg c k f d = some f') :
    f'.info.key = k := by
  simp only [constructDBMsg] at h
  obtain ⟨g, hg, rfl⟩ := Option.map_eq_some_iff.mp h
  have hkey : g.info.key = k := by
    split at hg
    · cases hg
      exact hf
    · obtain ⟨i, hi, rfl⟩ := Option.map_eq_some_iff.mp hg
      exact hc.kind _ _ _ hi
  split
  · exact hkey
  · exact hkey

/-- So does parsing a whole answer. -/
theorem parseDBData_typed {c : Codec DbInfo} (hc : Generated c) {ds : List PBDBData}
    {m m' : PBDBMsg DbInfo} (hm : Typed m) (h : parseDBData c m ds = some m') :
    Typed m' := by
  induction ds generalizing m with
  | nil =>
    cases h
    exact hm
  | cons d ds ih =>
    rw [parseDBData] at h
    split at h
    · cases h
    · split at h
      · cases h
      · next f hf => exact ih (hm.store (constructDBMsg_key hc (hm.getD hc _) hf)) h

/-- The player that an answer gives a login session. -/
theorem LoginAnswer.parsed {c : Codec DbInfo} (hc : Generated c) {uid : UInt64} {r : Response}
    (h : LoginAnswer c uid r) :
    ∃ m, parseDBData c ⟨r.uid, fun _ => none, fun _ => false⟩ r.datas = some m ∧ Typed m ∧
      m.uid = uid := by
  obtain ⟨m, hm⟩ := Option.isSome_iff_exists.mp
    (parseDBData_isSome h.entries ⟨r.uid, fun _ => none, fun _ => false⟩)
  have hblank : Typed ⟨r.uid, fun _ => none, fun _ => false⟩ := by
    intro k f hf
    cases hf
  exact ⟨m, hm, parseDBData_typed hc hblank hm,
    (parseDBData_eq_some hm).1.trans h.uid⟩

/-- The answer's player becomes the player of the session. -/
theorem LoginSession.reload {c : Codec DbInfo} {uid : UInt64} {s : Session DbInfo}
    (h : LoginSession uid s) {r : Response} (hr : r.uid = uid) {m : PBDBMsg DbInfo}
    (hm : parseDBData c ⟨r.uid, fun _ => none, fun _ => false⟩ r.datas = some m) :
    ∃ old, Sessions.reload c s r =
      some { s with dbProcs := [⟨uid, [1, 2], some (PBDBMsg.copyFrom old m)⟩] } := by
  obtain ⟨player, hprocs⟩ := h.procs
  have hnd : (s.dbProcs.map PBDBProcInfo.uid).Nodup := by
    rw [hprocs]
    exact List.nodup_singleton _
  have hp : s.dbProcs[0]? = some ⟨uid, [1, 2], player⟩ := by rw [hprocs]; rfl
  refine ⟨player, ?_⟩
  rw [reload_eq hnd hp hr hm, hprocs]
  rfl

/-! ## Marking and saving -/

structure Marked (c : Codec DbInfo) (uid : UInt64) (m : PBDBMsg DbInfo) : Prop where
  uid : m.uid = uid
  typed : Typed m
  online : ∀ k, m.update k = true → Online ((m.field k).getD ⟨c.empty k, none, none⟩).info
  base : m.update .baseInfo = true

theorem mutate_typed {c : Codec DbInfo} (hc : Generated c) {m : PBDBMsg DbInfo} (h : Typed m)
    {k : DbKey} {g : DbInfo → DbInfo} (hg : ∀ i, (g i).key = i.key) : Typed (m.mutate c k g) := by
  intro k' f hf
  by_cases he : k' = k
  · subst he
    rw [PBDBMsg.mutate_field] at hf
    cases hf
    exact (hg _).trans (h.getD hc k')
  · rw [(m.mutate_other he c g).1] at hf
    exact h k' f hf

theorem onBase_key (g : DBBaseInfo → DBBaseInfo) (i : DbInfo) : (onBase g i).key = i.key := by
  cases i <;> rfl

theorem onMoney_key (g : DBMoneyInfo → DBMoneyInfo) (i : DbInfo) : (onMoney g i).key = i.key := by
  cases i <;> rfl

/-- The part that a login always touches is online behind it. -/
theorem online_onBase {g : DBBaseInfo → DBBaseInfo} (hg : ∀ i, (g i).isOnline = some true)
    (i : DbInfo) : Online (onBase g i) := by
  cases i with
  | base i => exact hg i
  | money i => trivial

theorem online_of_money {i : DbInfo} (h : i.key = .moneyInfo) : Online i := by
  cases i with
  | base i => cases h
  | money i => trivial

/-- A login marks its player as online. -/
theorem Marked.first {c : Codec DbInfo} (hc : Generated c) {m : PBDBMsg DbInfo} (hm : Typed m)
    {uid : UInt64} (huid : m.uid = uid) (svrId : UInt32)
    (isInit : Bool) : Marked c uid (m.mutate c .baseInfo (onBase (signOn svrId isInit))) := by
  have htyped := mutate_typed hc hm (k := .baseInfo) (onBase_key (signOn svrId isInit))
  refine ⟨huid, htyped, fun k _ => ?_, m.mutate_update ..⟩
  cases k with
  | baseInfo =>
    rw [m.mutate_field, Option.getD_some]
    exact online_onBase (fun _ => rfl) _
  | moneyInfo => exact online_of_money (htyped.getD hc .moneyInfo)

/-- Touching the money leaves a marked player marked. -/
theorem Marked.money {c : Codec DbInfo} (hc : Generated c) {uid : UInt64} {m : PBDBMsg DbInfo}
    (hm : Marked c uid m) (g : DBMoneyInfo → DBMoneyInfo) :
    Marked c uid (m.mutate c .moneyInfo (onMoney g)) := by
  have htyped := mutate_typed hc hm.typed (k := .moneyInfo) (onMoney_key g)
  have hne : DbKey.baseInfo ≠ .moneyInfo := by decide
  obtain ⟨hfield, hupdate⟩ := m.mutate_other hne c (onMoney g)
  refine ⟨hm.uid, htyped, fun k hk => ?_, hupdate.trans hm.base⟩
  cases k with
  | baseInfo =>
    rw [hfield]
    exact hm.online .baseInfo hm.base
  | moneyInfo => exact online_of_money (htyped.getD hc .moneyInfo)

/-- The edit of `HandlerLogin` marks the player, initialised or not. -/
theorem editPlayer_marked {c : Codec DbInfo} (hc : Generated c) {uid : UInt64}
    {m : PBDBMsg DbInfo} (hm : Typed m) (huid : m.uid = uid) (svrId : UInt32) (isInit : Bool) :
    Marked c uid (editPlayer c (loginEdit svrId isInit) m) := by
  have hfirst := Marked.first hc hm huid svrId isInit
  cases isInit with
  | true => exact hfirst
  | false => exact hfirst.money hc fun _ => ⟨some 1000000⟩

theorem Typed.stored {c : Codec DbInfo} {m : PBDBMsg DbInfo} {k : DbKey} (htyped : Typed m)
    (honline : ∀ k, m.update k = true → Online ((m.field k).getD ⟨c.empty k, none, none⟩).info)
    {f : Field DbInfo} (hf : f.info.key = k) : Typed (m.store k f) ∧ ∀ k', (m.store k f).update k' = true →
      Online (((m.store k f).field k').getD ⟨c.empty k', none, none⟩).info := by
  refine ⟨htyped.store hf, fun k' hk' => ?_⟩
  by_cases he : k' = k
  · subst he
    rw [m.store_update] at hk'
    cases hk'
  · obtain ⟨hfield, hupdate⟩ := m.store_other he f
    rw [hupdate] at hk'
    rw [hfield]
    exact honline k' hk'

/-- What is collected from a marked player are items of a login. -/
theorem collectSaves_items {c : Codec DbInfo} (hc : Generated c) {ns : List UInt32}
    {st st' : Saving DbInfo} (h : collectSaves c ns st = some st') (htyped : Typed st.player)
    (honline : ∀ k, st.player.update k = true →
      Online ((st.player.field k).getD ⟨c.empty k, none, none⟩).info)
    (hitems : ∀ d ∈ st.datas, LoginItem c d) : ∀ d ∈ st'.datas, LoginItem c d := by
  induction ns generalizing st with
  | nil =>
    cases h
    exact hitems
  | cons n ns ih =>
    rw [collectSaves] at h
    split at h
    · cases h
    · next k _ =>
      split at h
      · next hupdate =>
        split at h
        · exact ih h htyped honline hitems
        · next a ha =>
          have hkey := htyped.getD hc k
          have hmark := honline k hupdate
          generalize (st.player.field k).getD ⟨c.empty k, none, none⟩ = f at ha hkey hmark
          rw [addSaveData] at ha
          dsimp only at ha
          split at ha
          · cases ha
          · cases ha
            obtain ⟨htyped', honline'⟩ := htyped.stored honline
              (f := { f with ver := some (f.ver.getD 0 + 1) }) hkey
            refine ih h htyped' honline' fun d hd => ?_
            obtain hd | hd := List.mem_append.mp hd
            · exact hitems d hd
            · rw [List.mem_singleton.mp hd]
              refine ⟨k, f.info, rfl, ?_, hmark⟩
              have hround := hc.round f.info
              rw [hkey] at hround
              exact hround
      · exact ih h htyped honline hitems

theorem collectSaves_isSome (c : Codec DbInfo) {ns : List UInt32}
    (h : ∀ n ∈ ns, ∃ k, n = DbKey.num k) (st : Saving DbInfo) :
    (collectSaves c ns st).isSome = true := by
  induction ns generalizing st with
  | nil => rfl
  | cons n ns ih =>
    obtain ⟨k, rfl⟩ := h n (List.mem_cons_self ..)
    have hrest : ∀ n ∈ ns, ∃ k, n = DbKey.num k := fun n hn => h n (List.mem_cons_of_mem _ hn)
    simp only [collectSaves, ofNum_num]
    split
    · split
      · exact ih hrest _
      · exact ih hrest _
    · exact ih hrest _

/-- A login session saves its marked player, and the base info is in the request. -/
theorem saveOneData_marked {c : Codec DbInfo} (hc : Generated c) {uid : UInt64}
    {s : Session DbInfo} (hcur : s.curProcIndex = 0) {m : PBDBMsg DbInfo}
    (hprocs : s.dbProcs = [⟨uid, [1, 2], some m⟩]) (hm : Marked c uid m) :
    ∃ s' r, saveOneData c s = ⟨some s', [.save r]⟩ ∧ LoginSession uid s' ∧
      s'.processState = .waitSaveRsp ∧ LoginSave c uid r := by
  have hknown : ∀ n ∈ ([1, 2] : List UInt32), ∃ k, n = DbKey.num k := by
    intro n hn
    obtain rfl | hn := List.mem_cons.mp hn
    · exact ⟨.baseInfo, rfl⟩
    · exact ⟨.moneyInfo, List.mem_singleton.mp hn⟩
  obtain ⟨st, hst⟩ := Option.isSome_iff_exists.mp (collectSaves_isSome c hknown ⟨m, []⟩)
  have hbase : DbKey.num .baseInfo ∈ st.datas.map PBDBData.key := by
    rw [collectSaves_touched hst (by decide)]
    refine .inr ⟨List.mem_cons_self .., hm.base, ?_⟩
    have hsmall := hc.small ((m.field .baseInfo).getD ⟨c.empty .baseInfo, none, none⟩).info
    rw [hm.typed.getD hc .baseInfo] at hsmall
    simp only [addSaveData]
    rw [if_neg (by omega)]
    rfl
  have hitems := collectSaves_items hc hst hm.typed hm.online fun d hd =>
    absurd hd List.not_mem_nil
  have hne : st.datas.isEmpty = false := by
    rw [List.isEmpty_eq_false_iff]
    intro hnil
    rw [hnil] at hbase
    cases hbase
  have huid : st.player.uid = uid := (collectSaves_keys hst).1.trans hm.uid
  have h0 : s.dbProcs[s.curProcIndex]? = some ⟨uid, [1, 2], some m⟩ := by rw [hprocs, hcur]; rfl
  refine ⟨{ s with
      dbProcs := s.dbProcs.set s.curProcIndex ⟨uid, [1, 2], some st.player⟩
      processState := .waitSaveRsp }, ⟨st.player.uid, st.datas⟩, ?_, ⟨hcur, some st.player, ?_⟩, rfl,
    huid, hitems, hbase⟩
  · simp only [saveOneData, h0, Option.getD_some, hst, hne, Bool.false_eq_true, if_false]
  · rw [hprocs, hcur]
    rfl

/-- `OnProcessData` of a login on the data of an answer. -/
theorem processData_login {c : Codec DbInfo} (hc : Generated c) {uid : UInt64} (svrId : UInt32)
    {s : Session DbInfo} (hcur : s.curProcIndex = 0) {m : PBDBMsg DbInfo}
    (hprocs : s.dbProcs = [⟨uid, [1, 2], some m⟩]) (hm : Typed m) (huid : m.uid = uid) :
    ∃ s' r, processData c (handlerLogin svrId uid) s = ⟨some s', [.save r]⟩ ∧
      LoginSession uid s' ∧ s'.processState = .waitSaveRsp ∧ LoginSave c uid r := by
  have hmarked := editPlayer_marked hc hm huid svrId ((baseInfo s).isInit.getD false)
  have hresult : ((handlerLogin svrId uid).onProcessData s).result = .save := rfl
  rw [processData, hresult, proceed]
  refine saveOneData_marked hc (s := processed c (handlerLogin svrId uid) s) hcur ?_ hmarked
  simp only [processed, editProcs, handlerLogin, hprocs, hcur, List.mapIdx_cons, List.mapIdx_nil,
    Option.map_some, if_true]

/-! ## The database -/

/-- Uids of 32 bits and keys are told apart by their `uid_key`. -/
theorem uidKey_inj_key {k k' : DbKey} {uid uid' : UInt64} (h : uid.toNat < 2 ^ 32)
    (h' : uid'.toNat < 2 ^ 32) (he : uidKey k.num uid = uidKey k'.num uid') :
    k = k' ∧ uid = uid' := by
  have hk : k = k' := num_inj (by rw [← uidKey_div (k := k) h, he, uidKey_div h'])
  subst hk
  refine ⟨rfl, UInt64.toNat_inj.mp ?_⟩
  have hfits : ∀ u : UInt64, u.toNat < 2 ^ 32 → k.num.toNat * 10000000000 + u.toNat < 2 ^ 64 := by
    intro u hu
    have h1 : (DbKey.num .baseInfo).toNat = 1 := rfl
    have h2 : (DbKey.num .moneyInfo).toNat = 2 := rfl
    cases k with
    | baseInfo => rw [h1]; omega
    | moneyInfo => rw [h2]; omega
  have hnat := congrArg UInt64.toNat he
  rw [uidKey_toNat (hfits uid h), uidKey_toNat (hfits uid' h')] at hnat
  omega

theorem storedOnline_of_row {c : Codec DbInfo} {st : Store} {uid : UInt64} {row : Row}
    {i : DbInfo} (hc : Generated c) (hrow : st.row (uidKey (DbKey.num .baseInfo) uid) = some row)
    (hparse : c.parse .baseInfo row.blob = some i) (hi : Online i) :
    storedOnline c st uid = true := by
  have hkey := hc.kind _ _ _ hparse
  cases i with
  | base i =>
    have honline : i.isOnline = some true := hi
    simp only [storedOnline, hrow, Option.bind_some, hparse, honline, Option.getD_some]
  | money i => cases hkey

/-- What a run of the database keeps: the parts can be read, and who is online stays so. -/
structure Keeps (c : Codec DbInfo) (st st' : Store) : Prop where
  legible : ∀ uid : UInt64, uid.toNat < 2 ^ 32 → Legible c st uid → Legible c st' uid
  online : ∀ uid : UInt64, uid.toNat < 2 ^ 32 → storedOnline c st uid = true →
    storedOnline c st' uid = true

theorem Keeps.refl (c : Codec DbInfo) (st : Store) : Keeps c st st :=
  ⟨fun _ _ h => h, fun _ _ h => h⟩

theorem Keeps.trans {c : Codec DbInfo} {st₁ st₂ st₃ : Store} (h : Keeps c st₁ st₂)
    (h' : Keeps c st₂ st₃) : Keeps c st₁ st₃ :=
  ⟨fun uid hu hl => h'.legible uid hu (h.legible uid hu hl),
    fun uid hu ho => h'.online uid hu (h.online uid hu ho)⟩

/-- Only the rows matter. -/
theorem Keeps.of_rows {c : Codec DbInfo} {st st' : Store} (h : ∀ k, st'.row k = st.row k) :
    Keeps c st st' := by
  constructor
  · intro uid _ hl k row hrow
    exact hl k row (h _ ▸ hrow)
  · intro uid _ ho
    rw [storedOnline, h]
    exact ho

/-- What a login saves keeps the players who are online as they are. -/
theorem replaceRow_keeps {c : Codec DbInfo} (hc : Generated c) {st : Store} {uid : UInt64}
    (hu : uid.toNat < 2 ^ 32) {d : PBDBData} (hd : LoginItem c d) :
    Keeps c st (replaceRow st (tableOf uid) (saveKey uid d) ⟨d.bytes, d.version⟩) := by
  obtain ⟨k, i, hkey, hparse, hi⟩ := hd
  have hrow := replaceRow_row st (saveKey_table uid d) ⟨d.bytes, d.version⟩
  rw [saveKey_eq hu, hkey] at hrow ⊢
  constructor
  · intro uid' hu' hl k' row hr
    rw [Option.mem_def, hrow] at hr
    split at hr
    · next he =>
      cases hr
      obtain ⟨rfl, rfl⟩ := uidKey_inj_key hu hu' he
      rw [hparse]
      rfl
    · exact hl k' row hr
  · intro uid' hu' ho
    by_cases he : uidKey k.num uid = uidKey (DbKey.num .baseInfo) uid'
    · obtain ⟨rfl, rfl⟩ := uidKey_inj_key hu hu' he
      exact storedOnline_of_row hc (by rw [hrow, if_pos rfl]) hparse hi
    · rw [storedOnline, hrow, if_neg he]
      exact ho

/-- The rows of a login are written, and it is online behind them. -/
theorem saveDoRequest_login {c : Codec DbInfo} (hc : Generated c) {uid : UInt64}
    (hu : uid.toNat < 2 ^ 32) {ds : List PBDBData} (hds : ∀ d ∈ ds, LoginItem c d) (i : Nat)
    (st : Store) :
    (saveDoRequest st uid SqlFailures.never.replace i ds).success = true ∧
    Keeps c st (saveDoRequest st uid SqlFailures.never.replace i ds).store ∧
    (DbKey.num .baseInfo ∈ ds.map PBDBData.key →
      storedOnline c (saveDoRequest st uid SqlFailures.never.replace i ds).store uid = true) := by
  induction ds generalizing i st with
  | nil => exact ⟨rfl, Keeps.refl c st, fun h => absurd h List.not_mem_nil⟩
  | cons d ds ih =>
    have hd := hds d (List.mem_cons_self ..)
    have hfirst : Keeps c st _ := replaceRow_keeps hc hu hd
    obtain ⟨hsucc, hkeeps, hbase⟩ := ih (fun e he => hds e (List.mem_cons_of_mem _ he)) (i + 1)
      (replaceRow st (tableOf uid) (saveKey uid d) ⟨d.bytes, d.version⟩)
    have hnever : SqlFailures.never.replace i = false := rfl
    simp only [saveDoRequest, hnever, Bool.false_eq_true, if_false]
    refine ⟨hsucc, hfirst.trans hkeeps, fun hmem => ?_⟩
    obtain hmem | hmem := List.mem_cons.mp hmem
    · obtain ⟨k, i', hkey, hparse, hi⟩ := hd
      obtain rfl : k = .baseInfo := num_inj (hkey.symm.trans hmem.symm)
      have hrow := replaceRow_row st (saveKey_table uid d) ⟨d.bytes, d.version⟩
        (uidKey (DbKey.num .baseInfo) uid)
      rw [if_pos (by rw [saveKey_eq hu, hkey])] at hrow
      exact hkeeps.online uid hu (storedOnline_of_row hc hrow hparse hi)
    · exact hbase hmem

theorem checkVersion_never (st : Store) (uid : UInt64) (i : Nat) (ds : List PBDBData) :
    checkVersion st uid SqlFailures.never.check i ds ≠ .error := by
  induction ds generalizing i with
  | nil => exact fun h => (nomatch h)
  | cons d ds ih =>
    have hitem : checkItem st uid d (SqlFailures.never.check i) ≠ .error := by
      have hnever : SqlFailures.never.check i = false := rfl
      intro h
      simp only [checkItem, hnever, doDBVersionCheck, Bool.false_eq_true, if_false] at h
      split at h
      · split at h <;> cases h
      · split at h
        · cases h
        · split at h <;> cases h
    rw [checkVersion]
    split
    · exact ih (i + 1)
    · exact hitem

/-- What is found for a player can be read. -/
theorem wrapResponseGet_entries {c : Codec DbInfo} {st : Store} {uid : UInt64}
    (hl : Legible c st uid) (hu : uid.toNat < 2 ^ 32) {request : List PBDBData}
    (hkeys : ∀ d ∈ request, ∃ k, d.key = DbKey.num k) :
    ∀ e ∈ wrapResponseGet
      (selectRows st (tableOf uid) (request.map fun d => uidKey d.key uid)) request,
      EntryOk c e := by
  intro e he
  obtain he | he := List.mem_append.mp he
  · obtain ⟨row, hrow, rfl⟩ := List.mem_map.mp he
    obtain ⟨a, ha, hsome⟩ := List.mem_filterMap.mp hrow
    obtain ⟨d, hd, rfl⟩ := List.mem_map.mp (List.mem_eraseDups.mp ha)
    obtain ⟨r, hr, rfl⟩ := Option.map_eq_some_iff.mp hsome
    obtain ⟨k, hk⟩ := hkeys d hd
    rw [hk] at hr ⊢
    have hstore : st.row (uidKey k.num uid) = some r := by rw [Store.row, uidKey_table, hr]
    have hunpack : unpack k.num uid = k.num := uidKey_div hu
    rw [rowData_eq, hunpack]
    refine ⟨k, rfl, fun b hb => ?_⟩
    cases hb
    exact hl k r hstore
  · obtain ⟨d, hd, rfl⟩ := List.mem_map.mp he
    obtain ⟨k, hk⟩ := hkeys d (List.mem_of_mem_filter hd)
    refine ⟨k, hk, fun b hb => ?_⟩
    cases hb

/-- The database answers a login with both parts. -/
theorem handleGet_login {c : Codec DbInfo} {st : Store} {uid : UInt64} (hl : Legible c st uid)
    (hu : uid.toNat < 2 ^ 32) :
    (handleGet st ⟨uid, [bareKey 1, bareKey 2]⟩ false).result = .ok ∧
      LoginAnswer c uid (handleGet st ⟨uid, [bareKey 1, bareKey 2]⟩ false) := by
  have hkeys : ∀ d ∈ [bareKey 1, bareKey 2], ∃ k, d.key = DbKey.num k := by
    intro d hd
    obtain rfl | hd := List.mem_cons.mp hd
    · exact ⟨.baseInfo, rfl⟩
    · rw [List.mem_singleton.mp hd]
      exact ⟨.moneyInfo, rfl⟩
  exact ⟨rfl, rfl, wrapResponseGet_entries hl hu hkeys⟩

/-- A save of a login is stored, or answered with what is. -/
theorem handleSave_login {c : Codec DbInfo} (hc : Generated c) {st : Store} {uid : UInt64}
    (hl : Legible c st uid) (hu : uid.toNat < 2 ^ 32) {r : SaveRequest} (hr : LoginSave c uid r)
    {o : Handled} (ho : handleSave st r .never = o) :
    Keeps c st o.store ∧
      ((o.response.result = .ok ∧ storedOnline c o.store uid = true) ∨
        (o.response.result = .verDiffer ∧ LoginAnswer c uid o.response)) := by
  obtain ⟨rfl⟩ : r.uid = uid := hr.uid
  obtain ⟨hsucc, hkeeps, hbase⟩ := saveDoRequest_login hc hu hr.items 0 st
  obtain ⟨-, hok, -, hstore⟩ | ⟨-, -, hfail, -⟩ | ⟨hstore, hnot, hcheck⟩ := handleSave_cases ho
  · have hcache := Keeps.of_rows (c := c)
      (saveToCache_row (saveDoRequest st r.uid SqlFailures.never.replace 0 r.datas).store r.uid r.datas)
    rw [hstore]
    exact ⟨hkeeps.trans hcache, .inl ⟨hok, hcache.online r.uid hu (hbase hr.base)⟩⟩
  · cases hsucc.symm.trans hfail
  · rw [hstore]
    refine ⟨Keeps.refl c st, .inr ?_⟩
    cases hresult : o.response.result with
    | ok => exact absurd hresult hnot
    | error =>
      rw [hresult] at hcheck
      exact absurd hcheck (checkVersion_never st r.uid 0 r.datas)
    | verDiffer =>
      rw [hresult] at hcheck
      have hne : r.datas ≠ [] := by
        intro hnil
        have hmem := hr.base
        rw [hnil] at hmem
        cases hmem
      cases (handleSave_verDiffer hcheck).symm.trans ho
      refine ⟨rfl, rfl, ?_⟩
      have hget := getDoRequest_ok st r.uid hne
      have hnever : SqlFailures.never.refetch = false := rfl
      dsimp only
      rw [hnever, hget, Option.getD_some, List.map_map]
      refine wrapResponseGet_entries hl hu fun d hd => ?_
      obtain ⟨k, -, hk, -⟩ := hr.items d hd
      exact ⟨k, hk⟩

/-! ## Going on -/

def Exhausts (s : Session DbInfo) : Reply → Prop
  | .save r => r.result = .verDiffer ∧ s.redoCount + 1 ≥ maxDbProcRedo
  | .get _ => False

/-- A login session saves its player on every answer but the last, which says that it is stored. -/
theorem process_login {c : Codec DbInfo} (hc : Generated c) (svrId : UInt32) {st : Store}
    {uid : UInt64} {s : Session DbInfo} (hs : LoginSession uid s) {r : Reply}
    (h : Awaited c st uid s (.reply r)) (hredo : ¬ Exhausts s r) :
    (∃ s' q, process c (handlerLogin svrId uid) s r = ⟨some s', [.save q]⟩ ∧ LoginSession uid s' ∧
      s'.processState = .waitSaveRsp ∧ LoginSave c uid q) ∨
    (process c (handlerLogin svrId uid) s r = Outcome.released ∧ storedOnline c st uid = true) := by
  cases r with
  | get r =>
    obtain ⟨hstate, hok, hanswer⟩ := h
    obtain ⟨m, hm, htyped, huid⟩ := hanswer.parsed hc
    obtain ⟨old, hreload⟩ := hs.reload hanswer.uid hm
    have hall : getAllDBData
        [(⟨uid, [1, 2], some (PBDBMsg.copyFrom old m)⟩ : PBDBProcInfo DbInfo)] = true := rfl
    simp only [process, hstate, if_true, getResponse, hok, hreload, hall]
    exact .inl (processData_login hc svrId hs.current rfl htyped huid)
  | save r =>
    obtain ⟨hstate, ⟨hok, honline⟩ | ⟨hdiffer, hanswer⟩⟩ := h
    · refine .inr ⟨?_, honline⟩
      have hnext : (handlerLogin svrId uid).next s = false := rfl
      simp only [process, hstate, if_true, saveResponse, hok, hnext, Bool.false_eq_true, if_false]
      rw [proceed]
    · obtain ⟨m, hm, htyped, huid⟩ := hanswer.parsed hc
      have hcount : ¬ s.redoCount + 1 ≥ maxDbProcRedo := fun hge => hredo ⟨hdiffer, hge⟩
      have hs' : LoginSession uid { s with redoCount := s.redoCount + 1 } := ⟨hs.current, hs.procs⟩
      obtain ⟨old, hreload⟩ := hs'.reload hanswer.uid hm
      have hredone : redone c s r = some { s with
          redoCount := s.redoCount + 1
          dbProcs := [⟨uid, [1, 2], some (PBDBMsg.copyFrom old m)⟩] } := by
        rw [redone, if_neg hcount]
        exact hreload
      rw [process, if_pos hstate, saveResponse_redone c _ hdiffer hredone]
      exact .inl (processData_login hc svrId hs.current rfl htyped huid)

end Sessions
