import Dsf4g.StartingMoney

/-!
# What a login tells its player

`HandlerLogin::OnProcessData` writes the money of the player in hand into the answer, and
`OnSaveSuccess` sends the answer when the save is accepted. The save carries the money,
so that an answer behind a conflict brings it back, and the money of an initialised
player is the same when the answer is sent as when it was read.
-/
namespace Sessions

open DbProxy

/-! ## The money in hand -/

def moneyOf (m : PBDBMsg DbInfo) : UInt64 := (m.field .moneyInfo).elim 0 fun f => f.info.amount

/-- `cs_response_login().money()`. `OnProcessData` reads it from the current player, whose money does
not change until the answer is sent. -/
def told (t : Session DbInfo) : UInt64 := (currentPlayer t).elim 0 moneyOf

theorem told_eq {t : Session DbInfo} (hcur : t.curProcIndex = 0) {p : PBDBProcInfo DbInfo}
    {m : PBDBMsg DbInfo} (hprocs : t.dbProcs = [p]) (hp : p.player = some m) :
    told t = moneyOf m := by
  rw [told, currentPlayer, hprocs, hcur, List.getElem?_cons_zero, Option.bind_some, hp]
  rfl

theorem moneyOf_info {m : PBDBMsg DbInfo} {f : Field DbInfo} (hf : m.field .moneyInfo = some f) :
    moneyOf m = f.info.amount := by
  rw [moneyOf, hf, Option.elim_some]

/-- What is collected for a save leaves the money as it is, where there is some. -/
theorem collectSaves_money {c : Codec DbInfo} {ns : List UInt32} {st st' : Saving DbInfo}
    (h : collectSaves c ns st = some st') (hnd : ns.Nodup) {f : Field DbInfo}
    (hf : st.player.field .moneyInfo = some f) : moneyOf st'.player = moneyOf st.player := by
  obtain ⟨hsent, hkept⟩ := collectSaves_field h hnd .moneyInfo
  by_cases ht : DbKey.num .moneyInfo ∈ ns ∧ Touched c st.player .moneyInfo
  · obtain ⟨f', hf', hinfo⟩ := hsent ht
    rw [hf, Option.getD_some] at hinfo
    rw [moneyOf_info hf', moneyOf_info hf, hinfo]
  · rw [moneyOf, hkept ht]
    rfl

/-! ## What an answer says of the stored money -/

def FromRows (s : Store) (uid : UInt64) (ds : List PBDBData) : Prop :=
  ∀ d ∈ ds, d.blob = (s.row (uidKey d.key uid)).map Row.blob

/-- Where the data show an initialised player, it is one, and they show its money. -/
def AsStored (c : Codec DbInfo) (s : Store) (uid : UInt64) (ds : List PBDBData) : Prop :=
  ∀ d ∈ ds, d.key = DbKey.num .baseInfo → ∀ b, d.blob = some b → initIn c b = true →
    storedInit c s uid = true ∧ ∀ e ∈ ds, e.key = DbKey.num .moneyInfo →
      e.blob.elim 0 (moneyIn c) = storedMoney c s uid

theorem FromRows.asStored {c : Codec DbInfo} {s : Store} {uid : UInt64} {ds : List PBDBData}
    (h : FromRows s uid ds) : AsStored c s uid ds := by
  intro d hd hkey b hb hinit
  refine ⟨?_, fun e he hkeye => ?_⟩
  · obtain ⟨row, hrow, rfl⟩ := Option.map_eq_some_iff.mp ((h d hd).symm.trans hb)
    rw [hkey] at hrow
    rw [storedInit, hrow]
    exact hinit
  · rw [h e he, hkeye, storedMoney]
    cases s.row (uidKey (DbKey.num .moneyInfo) uid) <;> rfl

/-- An initialised player keeps its money, so that an answer stays right on its way. -/
theorem AsStored.granted {c : Codec DbInfo} {s s' : Store} {uid : UInt64} {ds : List PBDBData}
    (h : AsStored c s uid ds) (hg : Granted c uid s s') : AsStored c s' uid ds := by
  intro d hd hkey b hb hinit
  obtain ⟨hstored, hmoney⟩ := h d hd hkey b hb hinit
  obtain ⟨hstays, hsame⟩ := hg.stays hstored
  refine ⟨hstays, fun e he hkeye => ?_⟩
  rw [hsame]
  exact hmoney e he hkeye

theorem wrapResponseGet_rows {s : Store} {uid : UInt64} (huid : uid.toNat < 2 ^ 32)
    {request : List PBDBData} (hkeys : ∀ d ∈ request, ∃ k, d.key = DbKey.num k) :
    FromRows s uid (wrapResponseGet
      (selectRows s (tableOf uid) (request.map fun d => uidKey d.key uid)) request) := by
  intro d hd
  obtain hd | hd := List.mem_append.mp hd
  · obtain ⟨⟨n, row⟩, hrow, rfl⟩ := List.mem_map.mp hd
    obtain ⟨n', hn', hsel⟩ := List.mem_filterMap.mp hrow
    obtain ⟨row', hrow', heq⟩ := Option.map_eq_some_iff.mp hsel
    cases heq
    obtain ⟨e, he, rfl⟩ := List.mem_map.mp (List.mem_eraseDups.mp hn')
    obtain ⟨k, hk⟩ := hkeys e he
    rw [hk] at hrow'
    have hkey : (rowData (uidKey e.key uid, row)).key = k.num := by
      rw [hk]
      exact uidKey_div huid
    rw [hkey, Store.row, uidKey_table, hrow']
    rfl
  · obtain ⟨e, he, rfl⟩ := List.mem_map.mp hd
    obtain ⟨he, hnot⟩ := List.mem_filter.mp he
    obtain ⟨k, hk⟩ := hkeys e he
    cases hrow : s.row (uidKey e.key uid) with
    | none => rfl
    | some row =>
      refine absurd ?_ (of_decide_eq_true hnot)
      rw [Store.row, uidKey_table] at hrow
      refine List.mem_map.mpr ⟨rowData (uidKey e.key uid, row), List.mem_map.mpr ⟨_, ?_, rfl⟩, ?_⟩
      · refine List.mem_filterMap.mpr ⟨uidKey e.key uid, ?_, by rw [hrow]; rfl⟩
        exact List.mem_eraseDups.mpr (List.mem_map.mpr ⟨e, he, rfl⟩)
      · rw [hk]
        exact uidKey_div huid

/-- Every requested key is answered. -/
theorem wrapResponseGet_key (rows : List (UInt64 × Row)) {request : List PBDBData} {d : PBDBData}
    (hd : d ∈ request) : d.key ∈ (wrapResponseGet rows request).map PBDBData.key := by
  rw [wrapResponseGet, List.map_append, List.mem_append]
  by_cases h : d.key ∈ (rows.map rowData).map PBDBData.key
  · exact .inl h
  · refine .inr (List.mem_map.mpr ⟨⟨d.key, none, none, none⟩, ?_, rfl⟩)
    exact List.mem_map.mpr ⟨d, List.mem_filter.mpr ⟨hd, decide_eq_true h⟩, rfl⟩

/-! ## The player of an answer -/

/-- Each part of a player comes from one of the data, and none of the data is missing. -/
structure Sourced (c : Codec DbInfo) (ds : List PBDBData) (m : PBDBMsg DbInfo) : Prop where
  found : ∀ k f, m.field k = some f → ∃ d ∈ ds, d.key = k.num ∧
    match d.blob with
    | some b => c.parse k b = some f.info
    | none => f.info = c.empty k
  missing : ∀ k, m.field k = none → ∀ d ∈ ds, d.key ≠ k.num

/-- A part that is parsed comes from its blob, or from where it came before. -/
theorem Sourced.construct {c : Codec DbInfo} {done : List PBDBData} {m : PBDBMsg DbInfo}
    (hm : Sourced c done m) {k : DbKey} {f : Field DbInfo} {d : PBDBData} (hkey : d.key = k.num)
    (hf : constructDBMsg c k ((m.field k).getD ⟨c.empty k, none, none⟩) d = some f) :
    ∃ e ∈ done ++ [d], e.key = k.num ∧
      match e.blob with
      | some b => c.parse k b = some f.info
      | none => f.info = c.empty k := by
  have hmem : d ∈ done ++ [d] := List.mem_append_right _ (List.mem_singleton_self d)
  cases hb : d.blob with
  | some b =>
    simp only [constructDBMsg, hb, Option.map_map, Option.map_eq_some_iff,
      Function.comp_apply] at hf
    obtain ⟨i, hi, rfl⟩ := hf
    refine ⟨d, hmem, hkey, ?_⟩
    rw [hb]
    cases d.ver <;> exact hi
  | none =>
    have hinfo : f.info = ((m.field k).getD ⟨c.empty k, none, none⟩).info := by
      simp only [constructDBMsg, hb, Option.map_some, Option.some.injEq] at hf
      rw [← hf]
      cases d.ver <;> rfl
    cases hold : m.field k with
    | none =>
      refine ⟨d, hmem, hkey, ?_⟩
      rw [hold] at hinfo
      rw [hb]
      exact hinfo
    | some f₀ =>
      obtain ⟨e, he, hkeye, hsource⟩ := hm.found k f₀ hold
      rw [hold, Option.getD_some] at hinfo
      refine ⟨e, List.mem_append_left _ he, hkeye, ?_⟩
      rw [hinfo]
      exact hsource

theorem Sourced.parsed {c : Codec DbInfo} {done : List PBDBData} {m : PBDBMsg DbInfo}
    (hm : Sourced c done m) {k : DbKey} {f : Field DbInfo} {d : PBDBData} (hkey : d.key = k.num)
    (hf : constructDBMsg c k ((m.field k).getD ⟨c.empty k, none, none⟩) d = some f) :
    Sourced c (done ++ [d]) (m.store k f) := by
  refine ⟨fun k' f' hf' => ?_, fun k' hnone => ?_⟩
  · by_cases he : k' = k
    · subst he
      rw [m.store_field] at hf'
      cases hf'
      exact hm.construct hkey hf
    · rw [(m.store_other he f).1] at hf'
      obtain ⟨e, hmem, hkeye, hsource⟩ := hm.found k' f' hf'
      exact ⟨e, List.mem_append_left _ hmem, hkeye, hsource⟩
  · have hne : k' ≠ k := by
      rintro rfl
      rw [m.store_field] at hnone
      cases hnone
    rw [(m.store_other hne f).1] at hnone
    intro e he
    obtain he | he := List.mem_append.mp he
    · exact hm.missing k' hnone e he
    · rw [List.mem_singleton.mp he, hkey]
      exact fun hn => hne (num_inj hn).symm

theorem parseDBData_sourced {c : Codec DbInfo} {ds done : List PBDBData} {m m' : PBDBMsg DbInfo}
    (hm : Sourced c done m) (h : parseDBData c m ds = some m') : Sourced c (done ++ ds) m' := by
  induction ds generalizing m done with
  | nil =>
    cases h
    rw [List.append_nil]
    exact hm
  | cons d ds ih =>
    unfold parseDBData at h
    split at h
    · cases h
    · next k hk =>
      split at h
      · cases h
      · next f hf =>
        rw [List.append_cons]
        exact ih (hm.parsed (ofNum_eq hk) hf) h

theorem Sourced.isSome {c : Codec DbInfo} {ds : List PBDBData} {m : PBDBMsg DbInfo}
    (h : Sourced c ds m) {k : DbKey} (hk : k.num ∈ ds.map PBDBData.key) :
    (m.field k).isSome = true := by
  refine Option.isSome_iff_ne_none.mpr fun hnone => ?_
  obtain ⟨d, hd, hkey⟩ := List.mem_map.mp hk
  exact h.missing k hnone d hd hkey

theorem blank_sourced (c : Codec DbInfo) (uid : UInt64) :
    Sourced c [] ⟨uid, fun _ => none, fun _ => false⟩ :=
  ⟨fun _ _ hf => absurd hf (Option.some_ne_none _).symm,
    fun _ _ _ hd => absurd hd List.not_mem_nil⟩

/-- An initialised player in an answer comes with the money that is stored. -/
theorem answered_money {c : Codec DbInfo} (hunset : Unset c) {s : Store} {uid : UInt64}
    {ds : List PBDBData} (h : AsStored c s uid ds) (hkeys : DbKey.num .moneyInfo ∈ ds.map PBDBData.key)
    {m : PBDBMsg DbInfo} (hm : Sourced c ds m) (hinit : (baseOf c m).isInit = true) :
    storedInit c s uid = true ∧ moneyOf m = storedMoney c s uid := by
  have hblank : (c.empty .baseInfo).isInit = false := by
    rw [hunset.1]
    rfl
  have hstored : storedInit c s uid = true ∧ ∀ e ∈ ds, e.key = DbKey.num .moneyInfo →
      e.blob.elim 0 (moneyIn c) = storedMoney c s uid := by
    cases hf : m.field .baseInfo with
    | none =>
      rw [baseOf, hf, Option.getD_none] at hinit
      cases hblank.symm.trans hinit
    | some f =>
      rw [baseOf, hf, Option.getD_some] at hinit
      obtain ⟨d, hd, hkey, hsource⟩ := hm.found _ f hf
      cases hb : d.blob with
      | none =>
        rw [hb] at hsource
        rw [hsource] at hinit
        cases hblank.symm.trans hinit
      | some b =>
        rw [hb] at hsource
        refine h d hd hkey b hb ?_
        rw [initIn, hsource]
        exact hinit
  refine ⟨hstored.1, ?_⟩
  obtain ⟨f, hf⟩ := Option.isSome_iff_exists.mp (hm.isSome hkeys)
  obtain ⟨e, he, hkey, hsource⟩ := hm.found _ f hf
  rw [← hstored.2 e he hkey, moneyOf_info hf]
  cases hb : e.blob with
  | none =>
    rw [hb] at hsource
    rw [hsource, hunset.2]
    rfl
  | some b =>
    rw [hb] at hsource
    have hparse : c.parse .moneyInfo b = some f.info := hsource
    rw [Option.elim_some, moneyIn, hparse]
    rfl

/-! ## What a login sends -/

/-- A save that marks a player it has found without the mark. -/
structure Marking (c : Codec DbInfo) (q : SaveRequest) : Prop where
  base : DbKey.num .baseInfo ∈ q.datas.map PBDBData.key
  marks : ∀ d ∈ q.datas, d.key = DbKey.num .baseInfo → fromInit c d = false ∧
    initIn c d.bytes = true

structure Tells (c : Codec DbInfo) (s : Store) (uid : UInt64) (t : Session DbInfo) : Prop where
  init : storedInit c s uid = true
  money : told t = storedMoney c s uid

theorem Tells.granted {c : Codec DbInfo} {s s' : Store} {uid : UInt64} {t : Session DbInfo}
    (h : Tells c s uid t) (hg : Granted c uid s s') : Tells c s' uid t := by
  obtain ⟨hstays, hsame⟩ := hg.stays h.init
  exact ⟨hstays, h.money.trans hsame.symm⟩

/-- A save with the money. What goes into the answer is right already, or the save makes it right. -/
structure Backed (c : Codec DbInfo) (s : Store) (uid : UInt64) (t : Session DbInfo)
    (q : SaveRequest) : Prop where
  same : q.uid = uid
  carries : DbKey.num .moneyInfo ∈ q.datas.map PBDBData.key
  money : Tells c s uid t ∨ told t = 1000000 ∧ Marking c q

section Handlers

variable {c : Codec DbInfo} {s : Store} {m : PBDBMsg DbInfo}

/-- What `SaveOneData` makes of a player with both flags. -/
theorem saveOneData_told (hc : Generated c) {t : Session DbInfo} {uid : UInt64}
    (hcur : t.curProcIndex = 0) (hprocs : t.dbProcs = [⟨uid, [1, 2], some m⟩]) (hm : Typed m)
    (huid : m.uid = uid) (hflags : ∀ k, m.update k = true) {f : Field DbInfo}
    (hmoney : m.field .moneyInfo = some f) :
    ∃ t' q, saveOneData c t = ⟨some t', [.save q]⟩ ∧ q.uid = uid ∧ told t' = moneyOf m ∧
      ∀ d, d ∈ q.datas ↔ ∃ k, d = itemOf c m k := by
  have hknown : ∀ n ∈ ([1, 2] : List UInt32), ∃ k, n = DbKey.num k := by
    intro n hn
    obtain rfl | hn := List.mem_cons.mp hn
    · exact ⟨.baseInfo, rfl⟩
    · exact ⟨.moneyInfo, List.mem_singleton.mp hn⟩
  obtain ⟨st, hst⟩ := Option.isSome_iff_exists.mp (collectSaves_isSome c hknown ⟨m, []⟩)
  have hmem : ∀ d, d ∈ st.datas ↔ ∃ k, d = itemOf c m k := by
    intro d
    rw [collectSaves_mem hc hst hm (by decide) d]
    constructor
    · rintro (hnil | ⟨k, -, -, hk⟩)
      · exact absurd hnil List.not_mem_nil
      · exact ⟨k, hk⟩
    · rintro ⟨k, hk⟩
      refine .inr ⟨k, ?_, hflags k, hk⟩
      cases k <;> decide
  have hne : st.datas.isEmpty = false := by
    rw [List.isEmpty_eq_false_iff]
    exact List.ne_nil_of_mem ((hmem _).mpr ⟨.baseInfo, rfl⟩)
  have h0 : t.dbProcs[t.curProcIndex]? = some ⟨uid, [1, 2], some m⟩ := by
    rw [hprocs, hcur]
    rfl
  let t' : Session DbInfo := { t with
    dbProcs := t.dbProcs.set t.curProcIndex ⟨uid, [1, 2], some st.player⟩
    processState := .waitSaveRsp }
  have hset : t'.dbProcs = [⟨uid, [1, 2], some st.player⟩] := by
    simp only [t', hprocs, hcur]
    rfl
  refine ⟨t', ⟨st.player.uid, st.datas⟩, ?_, (collectSaves_keys hst).1.trans huid,
    (told_eq (t := t') hcur hset rfl).trans (collectSaves_money hst (by decide) hmoney), hmem⟩
  simp only [saveOneData, h0, Option.getD_some, hst, hne, Bool.false_eq_true, if_false, t']

/-- What a login writes into the base info of a player. -/
def signedOn (c : Codec DbInfo) (m : PBDBMsg DbInfo) (svrId : UInt32) : PBDBMsg DbInfo :=
  m.mutate c .baseInfo (onBase (signOn svrId (baseOf c m).isInit))

theorem signedOn_field (svrId : UInt32) :
    (signedOn c m svrId).field .moneyInfo = m.field .moneyInfo :=
  (m.mutate_other (by decide) c _).1

theorem signedOn_flagged (svrId : UInt32) (hflagged : Flagged m)
    (hsome : (m.field .moneyInfo).isSome = true) (k : DbKey) :
    (signedOn c m svrId).update k = true := by
  cases k with
  | baseInfo => exact PBDBMsg.mutate_update ..
  | moneyInfo => exact (m.mutate_other (by decide) c _).2.trans (hflagged _ hsome)

/-- The money of an initialised player is told as it is in hand. -/
theorem login_told_kept (hc : Generated c) (hunset : Unset c) (svrId : UInt32)
    {t : Session DbInfo} {uid : UInt64} (hcur : t.curProcIndex = 0)
    (hprocs : t.dbProcs = [⟨uid, [1, 2], some m⟩]) (hm : Typed m) (huid : m.uid = uid)
    (hflagged : Flagged m) (hsome : (m.field .moneyInfo).isSome = true)
    (hinit : (baseOf c m).isInit = true) :
    ∃ t' q, processData c (handlerLogin svrId uid) t = ⟨some t', [.save q]⟩ ∧ q.uid = uid ∧
      DbKey.num .moneyInfo ∈ q.datas.map PBDBData.key ∧ told t' = moneyOf m := by
  have hresult : ((handlerLogin svrId uid).onProcessData t).result = .save := rfl
  have hprocessed : (processed c (handlerLogin svrId uid) t).dbProcs =
      [⟨uid, [1, 2], some (signedOn c m svrId)⟩] := by
    rw [login_processed hunset svrId hcur hprocs hm, hinit, signedOn, hinit]
    rfl
  obtain ⟨f, hf⟩ := Option.isSome_iff_exists.mp hsome
  have hf' := (signedOn_field (c := c) svrId).trans hf
  obtain ⟨t', q, hsave, hq, htold, hmem⟩ := saveOneData_told hc
    (t := processed c (handlerLogin svrId uid) t) hcur hprocessed
    (mutate_typed hc hm (onBase_key _)) huid (signedOn_flagged svrId hflagged hsome) hf'
  refine ⟨t', q, ?_, hq, List.mem_map.mpr ⟨_, (hmem _).mpr ⟨.moneyInfo, rfl⟩, rfl⟩, htold.trans ?_⟩
  · rw [processData, hresult, proceed]
    exact hsave
  · rw [moneyOf_info hf', moneyOf_info hf]

/-- Another player is given some, and is saved with it and the mark. -/
theorem login_told_given (hc : Generated c) (hunset : Unset c) (svrId : UInt32)
    {t : Session DbInfo} {uid : UInt64} (hcur : t.curProcIndex = 0)
    (hprocs : t.dbProcs = [⟨uid, [1, 2], some m⟩]) (hm : Typed m) (huid : m.uid = uid)
    (hr : Reloaded c s m) (hinit : (baseOf c m).isInit = false) :
    ∃ t' q, processData c (handlerLogin svrId uid) t = ⟨some t', [.save q]⟩ ∧ q.uid = uid ∧
      DbKey.num .moneyInfo ∈ q.datas.map PBDBData.key ∧ told t' = 1000000 ∧ Marking c q := by
  have hresult : ((handlerLogin svrId uid).onProcessData t).result = .save := rfl
  have hne : DbKey.moneyInfo ≠ .baseInfo := by decide
  let e₀ := signedOn c m svrId
  let e := e₀.mutate c .moneyInfo (onMoney fun _ => ⟨some 1000000⟩)
  have htyped : Typed e₀ := mutate_typed hc hm (onBase_key _)
  have hflags : ∀ k, e.update k = true := by
    intro k
    cases k with
    | baseInfo => exact (e₀.mutate_other hne.symm c _).2.trans (PBDBMsg.mutate_update ..)
    | moneyInfo => exact PBDBMsg.mutate_update ..
  have hprocessed : (processed c (handlerLogin svrId uid) t).dbProcs = [⟨uid, [1, 2], some e⟩] := by
    rw [login_processed hunset svrId hcur hprocs hm, hinit]
    simp only [e, e₀, signedOn, hinit]
    rfl
  have hf := e₀.mutate_field .moneyInfo c (onMoney fun _ => ⟨some 1000000⟩)
  obtain ⟨t', q, hsave, hq, htold, hmem⟩ := saveOneData_told hc
    (t := processed c (handlerLogin svrId uid) t) hcur hprocessed
    (mutate_typed hc htyped (onMoney_key _)) huid hflags hf
  have hitem : itemOf c e .baseInfo = itemOf c e₀ .baseInfo :=
    itemOf_mutate_other c e₀ hne.symm _
  have hkeys : ∀ k, DbKey.num k ∈ q.datas.map PBDBData.key := fun k =>
    List.mem_map.mpr ⟨_, (hmem _).mpr ⟨k, rfl⟩, rfl⟩
  refine ⟨t', q, ?_, hq, hkeys _, htold.trans ?_, hkeys _, fun d hd hkey => ?_⟩
  · rw [processData, hresult, proceed]
    exact hsave
  · have hkey := htyped.getD hc .moneyInfo
    rw [moneyOf_info hf]
    generalize ((e₀.field .moneyInfo).getD ⟨c.empty .moneyInfo, none, none⟩).info = i at hkey
    cases i with
    | base i => cases hkey
    | money i => rfl
  · obtain ⟨k, rfl⟩ := (hmem d).mp hd
    obtain rfl : k = .baseInfo := num_inj hkey
    have hin : (onBase (signOn svrId (baseOf c m).isInit) (baseOf c m)).isInit = true := by
      have hkey : (baseOf c m).key = .baseInfo := hm.getD hc .baseInfo
      rw [hinit]
      generalize baseOf c m = i at hkey
      cases i with
      | base i => rfl
      | money i => cases hkey
    rw [hitem]
    exact ⟨(mutated_fromInit hr hunset _).trans hinit, (mutated_base hc hm _).trans hin⟩

/-- What the message in flight for a login session is good for. -/
def Pledge (c : Codec DbInfo) (s : Store) (uid : UInt64) (t : Session DbInfo) : Body → Prop
  | .request (.get r) => r = ⟨uid, [bareKey 1, bareKey 2]⟩
  | .reply (.get r) => AsStored c s uid r.datas ∧
      (r.result = .ok → DbKey.num .moneyInfo ∈ r.datas.map PBDBData.key)
  | .request (.save q) => Backed c s uid t q
  | .reply (.save r) => (r.result = .ok → Tells c s uid t) ∧ AsStored c s uid r.datas ∧
      (r.result = .verDiffer → DbKey.num .moneyInfo ∈ r.datas.map PBDBData.key)

theorem Pledge.granted {s' : Store} {uid : UInt64} {t : Session DbInfo} {b : Body}
    (h : Pledge c s uid t b) (hg : Granted c uid s s') : Pledge c s' uid t b := by
  cases b with
  | request r =>
    cases r with
    | get r => exact h
    | save q => exact ⟨h.same, h.carries, h.money.imp_left fun htells => htells.granted hg⟩
  | reply r =>
    cases r with
    | get r => exact ⟨h.1.granted hg, h.2⟩
    | save r => exact ⟨fun hok => (h.1 hok).granted hg, h.2.1.granted hg, h.2.2⟩

section Process

variable {uid : UInt64} {t : Session DbInfo}

/-- A login goes on with the player of an answer. -/
theorem answered_backed (hc : Generated c) (hunset : Unset c) (svrId : UInt32)
    (hs : LoginSession uid t) {r : Response} (hr : ResponseOk s r)
    (hstored : AsStored c s uid r.datas)
    (hkeys : DbKey.num .moneyInfo ∈ r.datas.map PBDBData.key)
    {t₁ : Session DbInfo} (ht₁ : reload c t r = some t₁) :
    ∃ t' q, processData c (handlerLogin svrId uid) t₁ = ⟨some t', [.save q]⟩ ∧
      Backed c s uid t' q := by
  obtain ⟨old, m, hm, rfl, rfl⟩ := reload_login hs ht₁
  have hsourced : Sourced c r.datas m := parseDBData_sourced (blank_sourced c r.uid) hm
  have hreloaded : Reloaded c s m := parseDBData_reloaded (blank_reloaded c s r.uid) hr hm
  have htyped : Typed m := parseDBData_typed hc (blank_typed r.uid) hm
  let t₂ : Session DbInfo := { t with dbProcs := [⟨r.uid, [1, 2], some (PBDBMsg.copyFrom old m)⟩] }
  have huid : m.uid = r.uid := (parseDBData_eq_some hm).1
  cases hinit : (baseOf c m).isInit with
  | true =>
    obtain ⟨t', q, hsent, huid, hcarries, htold⟩ := login_told_kept (m := PBDBMsg.copyFrom old m)
      (t := t₂) hc hunset svrId hs.current rfl htyped huid (copyFrom_flagged old m)
      (hsourced.isSome hkeys) hinit
    obtain ⟨hmark, hmoney⟩ := answered_money hunset hstored hkeys hsourced hinit
    exact ⟨t', q, hsent, huid, hcarries, .inl ⟨hmark, htold.trans hmoney⟩⟩
  | false =>
    obtain ⟨t', q, hsent, huid, hcarries, hmarking⟩ := login_told_given
      (m := PBDBMsg.copyFrom old m) (t := t₂) hc hunset svrId hs.current rfl htyped huid hreloaded
      hinit
    exact ⟨t', q, hsent, huid, hcarries, .inr hmarking⟩

/-- An answer ends a login, or the save behind it is good for what will be told. -/
theorem login_process (hc : Generated c) (hunset : Unset c) (svrId : UInt32)
    (hs : LoginSession uid t) {r : Reply} (hr : ReplyOk s r) (hp : Pledge c s uid t (.reply r)) :
    process c (handlerLogin svrId uid) t r = Outcome.released ∨
      ∃ t' q, process c (handlerLogin svrId uid) t r = ⟨some t', [.save q]⟩ ∧
        Backed c s uid t' q := by
  cases r with
  | get r =>
    unfold process getResponse
    dsimp only
    split
    · split
      · next hok =>
        split
        · exact .inl rfl
        · next t₁ ht₁ =>
          have hall : getAllDBData t₁.dbProcs = true := by
            obtain ⟨old, m, -, -, rfl⟩ := reload_login hs ht₁
            rfl
          rw [if_pos hall]
          exact .inr (answered_backed hc hunset svrId hs hr hp.1 (hp.2 hok) ht₁)
      · exact .inl rfl
    · exact .inl rfl
  | save r =>
    unfold process saveResponse
    dsimp only
    split
    · split
      · have hnext : (handlerLogin svrId uid).next t = false := rfl
        simp only [hnext, Bool.false_eq_true, if_false]
        rw [proceed]
        exact .inl rfl
      · next hdiff =>
        split
        · exact .inl rfl
        · have hs' : LoginSession uid { t with redoCount := t.redoCount + 1 } :=
            ⟨hs.current, hs.procs⟩
          split
          · exact .inl rfl
          · next t₁ ht₁ =>
            exact .inr (answered_backed hc hunset svrId hs' hr hp.2.1 (hp.2.2 hdiff) ht₁)
      · exact .inl rfl
    · exact .inl rfl

end Process

end Handlers

/-! ## The database -/

section Database

variable {c : Codec DbInfo} {s : Store} {uid : UInt64} {t : Session DbInfo}

/-- What the two parts of a player are answered with. -/
theorem handleGet_pledge (huid : uid.toNat < 2 ^ 32) :
    Pledge c s uid t (.reply (.get (handleGet s ⟨uid, [bareKey 1, bareKey 2]⟩ false))) := by
  have hkeys : ∀ d ∈ [bareKey 1, bareKey 2], ∃ k, d.key = DbKey.num k := by
    intro d hd
    obtain rfl | hd := List.mem_cons.mp hd
    · exact ⟨.baseInfo, rfl⟩
    · rw [List.mem_singleton.mp hd]
      exact ⟨.moneyInfo, rfl⟩
  have hmoney : bareKey 2 ∈ [bareKey 1, bareKey 2] :=
    List.mem_cons_of_mem _ (List.mem_singleton_self _)
  exact ⟨(wrapResponseGet_rows huid hkeys).asStored, fun _ => wrapResponseGet_key _ hmoney⟩

/-- A save that marks is accepted only where no mark was. -/
theorem Marking.stored (h : StoreOk s) {q : SaveRequest} (hq : RequestOk s (.save q))
    (hmark : Marking c q) (huid : q.uid = uid)
    (hok : checkVersion s q.uid SqlFailures.never.check 0 q.datas = .ok) :
    storedInit c s uid = false ∧
      storedInit c (saveDoRequest s q.uid SqlFailures.never.replace 0 q.datas).store uid = true := by
  subst huid
  obtain ⟨d, hd, hkey⟩ := List.mem_map.mp hmark.base
  constructor
  · rw [storedInit, ← hkey]
    cases hrow : s.row (uidKey d.key q.uid) with
    | none => rfl
    | some row =>
      have horigin := accepted_origin h hq hok hd hrow
      have hfrom := (hmark.marks d hd hkey).1
      rw [fromInit, horigin] at hfrom
      exact hfrom
  · have hsome := @lastFor_isSome q.uid _ _ hd
    rw [saveKey_eq hq.1, hkey] at hsome
    obtain ⟨e, he⟩ := Option.isSome_iff_exists.mp hsome
    obtain ⟨hmem, hsaved⟩ := mem_of_lastFor he
    have hin := (hmark.marks e hmem (item_of_saveKey hq hmem hq.1 hsaved).1).2
    rw [storedInit, saveDoRequest_row, written_never, he, Option.map_some, Option.some_or]
    exact hin

/-- A save that is refused on a conflict is answered with what is stored of its parts. -/
theorem refused_pledge {q : SaveRequest} (hq : RequestOk s (.save q))
    (hcarries : DbKey.num .moneyInfo ∈ q.datas.map PBDBData.key)
    (hres : checkVersion s q.uid SqlFailures.never.check 0 q.datas =
      (handleSave s q .never).response.result)
    (hne : (handleSave s q .never).response.result ≠ .ok) :
    AsStored c (handleSave s q .never).store q.uid (handleSave s q .never).response.datas ∧
      ((handleSave s q .never).response.result = .verDiffer →
        DbKey.num .moneyInfo ∈ (handleSave s q .never).response.datas.map PBDBData.key) := by
  obtain ⟨d, hd, hkey⟩ := List.mem_map.mp hcarries
  cases hresult : (handleSave s q .never).response.result with
  | ok => exact absurd hresult hne
  | error =>
    rw [hresult] at hres
    rw [handleSave, hres]
    exact ⟨fun e he => absurd he List.not_mem_nil, fun hdiff => by cases hdiff⟩
  | verDiffer =>
    rw [hresult] at hres
    have hnever : SqlFailures.never.refetch = false := rfl
    rw [handleSave_verDiffer hres, hnever, getDoRequest_ok s q.uid (List.ne_nil_of_mem hd)]
    have hrows := wrapResponseGet_rows (s := s) hq.1 fun e he => (hq.2 e he).key
    rw [List.map_map]
    exact ⟨hrows.asStored, fun _ => hkey ▸ wrapResponseGet_key _ hd⟩

/-- What the database proxy answers is good for what the request was good for. -/
theorem answer_pledge (h : StoreOk s) {r : Request} (hr : RequestOk s r)
    (huid : uid.toNat < 2 ^ 32) (hgrant : ∀ q, r = .save q → Granting c q ∧ Rooted s q)
    (hp : Pledge c s uid t (.request r)) {a : Answer} (ha : answer s r = a) :
    Pledge c a.store uid t (.reply a.reply) := by
  have hgranted := answer_granted (c := c) h hr hgrant ha huid
  cases r with
  | get r =>
    cases ha
    obtain rfl : r = ⟨uid, [bareKey 1, bareKey 2]⟩ := hp
    exact handleGet_pledge huid
  | save q =>
    cases ha
    obtain ⟨hsame, hcarries, hmoney⟩ := hp
    change Granted c uid s (handleSave s q .never).store at hgranted
    change Pledge c (handleSave s q .never).store uid t (.reply (.save (handleSave s q .never).response))
    obtain ⟨hok, hresult, -, hst⟩ | ⟨-, -, hfail, -⟩ | ⟨-, hne, hres⟩ :=
      handleSave_cases (s := s) (r := q) (f := .never) rfl
    · refine ⟨fun _ => ?_, fun d hd => ?_, fun hdiff => ?_⟩
      · obtain htells | ⟨htold, hmark⟩ := hmoney
        · exact htells.granted hgranted
        · obtain ⟨hnot, hinit⟩ := hmark.stored h hr hsame hok
          have hinit' : storedInit c (handleSave s q .never).store uid = true := by
            rw [hst, storedInit, saveToCache_row]
            exact hinit
          exact ⟨hinit', htold.trans (hgranted.starts hnot hinit').symm⟩
      · rw [handleSave_accepted_datas rfl hok (success_of_written (written_never 0 q.datas))] at hd
        cases hd
      · cases hresult.symm.trans hdiff
    · cases (success_of_written (written_never 0 q.datas)).symm.trans hfail
    · have hrefused := refused_pledge (c := c) hr hcarries hres hne
      rw [hsame] at hrefused
      exact ⟨fun hok => absurd hok hne, hrefused⟩

end Database

/-! ## Every run -/

theorem saveOneData_sent_le (c : Codec DbInfo) (t : Session DbInfo) :
    (saveOneData c t).sent.length ≤ 1 := by
  unfold saveOneData
  split
  · exact Nat.zero_le 1
  · split
    · exact Nat.zero_le 1
    · split
      · exact Nat.zero_le 1
      · exact Nat.le_refl 1

/-- Logins and logouts have one message in flight. -/
theorem Plays.sent_le {h : Handler DbInfo} {uid : UInt64} (hplays : Plays h uid) (c : Codec DbInfo)
    (t : Session DbInfo) (r : Reply) : (Sessions.process c h t r).sent.length ≤ 1 := by
  have hdata : ∀ t, (processData c h t).sent.length ≤ 1 := by
    intro t
    have hresult : (h.onProcessData t).result = .save := by cases hplays <;> rfl
    rw [processData, hresult, proceed]
    exact saveOneData_sent_le c _
  cases r with
  | get r =>
    unfold Sessions.process getResponse
    dsimp only
    split
    · split
      · split
        · exact Nat.zero_le 1
        · split
          · exact hdata _
          · exact Nat.zero_le 1
      · exact Nat.zero_le 1
    · exact Nat.zero_le 1
  | save r =>
    unfold Sessions.process saveResponse
    dsimp only
    split
    · split
      · simp only [hplays.next, Bool.false_eq_true, if_false]
        rw [proceed]
        exact Nat.zero_le 1
      · split
        · exact Nat.zero_le 1
        · split
          · exact Nat.zero_le 1
          · exact hdata _
      · exact Nat.zero_le 1
    · exact Nat.zero_le 1

theorem Plays.uid_eq {svrId : UInt32} {uid uid' : UInt64} (h : Plays (handlerLogin svrId uid) uid') :
    uid' = uid := by
  generalize hh : handlerLogin svrId uid = g at h
  have hkeys := congrArg Handler.keys hh
  cases h with
  | login svrId' uid' =>
    cases hkeys
    rfl
  | logout =>
    cases hkeys
    rfl

/-- Every login session is good for what it will tell. -/
structure Telling (c : Codec DbInfo) (handlers : Nat → Handler DbInfo) (sys : System DbInfo) :
    Prop where
  alone : (sys.net.map Msg.sid).Nodup
  pledged : ∀ sid svrId uid t b, handlers sid = handlerLogin svrId uid →
    sys.sessions sid = some t → ⟨sid, b⟩ ∈ sys.net → Pledge c sys.store uid t b

theorem initial_telling (c : Codec DbInfo) (handlers : Nat → Handler DbInfo)
    (tables : UInt64 → UInt64 → Option Row) : Telling c handlers (System.initial tables) :=
  ⟨List.nodup_nil, fun _ _ _ _ _ _ h => (nomatch h)⟩

section Steps

variable {c : Codec DbInfo} {handlers : Nat → Handler DbInfo} {sys : System DbInfo}

/-- A session whose messages are all gone takes a step. -/
theorem update_telling (h : Telling c handlers sys) {sid n : Nat} {net : List Msg}
    {o : Outcome DbInfo} (hnet : net.Sublist sys.net) (hfresh : ∀ m ∈ net, m.sid ≠ sid)
    (hsent : o.sent.length ≤ 1)
    (hp : ∀ svrId uid, handlers sid = handlerLogin svrId uid → ∀ t r, o.session = some t →
      r ∈ o.sent → Pledge c sys.store uid t (.request r)) :
    Telling c handlers { sys.update sid net o with created := n } := by
  refine ⟨?_, fun sid' svrId uid t b hh ht hb => ?_⟩
  · have hnodup : (net.map Msg.sid).Nodup := h.alone.sublist (hnet.map _)
    have hdisjoint : ∀ i ∈ net.map Msg.sid, i ∉ (sentBy sid o.sent).map Msg.sid := by
      intro i hi hi'
      obtain ⟨m, hm, rfl⟩ := List.mem_map.mp hi
      obtain ⟨m', hm', he⟩ := List.mem_map.mp hi'
      obtain ⟨r, -, rfl⟩ := List.mem_map.mp hm'
      exact hfresh m hm he.symm
    have hone : ((sentBy sid o.sent).map Msg.sid).Nodup := by
      cases hsnt : o.sent with
      | nil => exact List.nodup_nil
      | cons r rs =>
        cases rs with
        | nil => exact List.nodup_singleton sid
        | cons r' rs =>
          rw [hsnt] at hsent
          exact absurd (Nat.le_of_succ_le_succ hsent) (Nat.not_succ_le_zero _)
    change ((net ++ sentBy sid o.sent).map Msg.sid).Nodup
    rw [List.map_append]
    exact List.nodup_append'.mpr ⟨hnodup, hone, hdisjoint⟩
  · have ht : Function.update sys.sessions sid o.session sid' = some t := ht
    obtain hb | hb := List.mem_append.mp hb
    · rw [Function.update_of_ne (hfresh _ hb)] at ht
      exact h.pledged sid' svrId uid t b hh ht (hnet.subset hb)
    · obtain ⟨r, hr, he⟩ := List.mem_map.mp hb
      cases he
      rw [Function.update_self] at ht
      exact hp svrId uid hh t r ht hr

/-- A new login asks for both parts of its player. -/
theorem start_telling (hplays : ∀ sid, ∃ uid, Plays (handlers sid) uid) (hok : SystemOk sys)
    (h : Telling c handlers sys) (n : Nat) : Telling c handlers
      { sys.update sys.created sys.net (start (handlers sys.created)) with created := n } := by
  obtain ⟨uid, hp⟩ := hplays sys.created
  refine update_telling h (List.Sublist.refl _) (fun m hm => ?_) ?_
    fun svrId uid' hh t r ht hr => ?_
  · exact Nat.ne_of_lt (hok.net m hm).1
  · have hstart : start (handlers sys.created) = start (handlerLogin 0 uid) := by
      generalize handlers sys.created = g at hp
      cases hp <;> rfl
    obtain ⟨t, hsent, -⟩ := start_login 0 uid
    rw [hstart, hsent]
    exact Nat.le_refl 1
  · obtain ⟨t', hsent, -⟩ := start_login svrId uid'
    rw [hh, hsent] at hr
    rw [List.mem_singleton.mp hr]
    rfl

theorem Playing.uid_lt (hplay : Playing c handlers sys) (hok : SystemOk sys) {sid : Nat}
    {svrId : UInt32} {uid : UInt64} {t : Session DbInfo} (hh : handlers sid = handlerLogin svrId uid)
    (ht : sys.sessions sid = some t) : uid.toNat < 2 ^ 32 := by
  obtain ⟨uid', hp, hlogin⟩ := hplay.sessions sid t ht
  rw [hh] at hp
  obtain rfl := hp.uid_eq
  obtain ⟨player, hprocs⟩ := hlogin.procs
  refine ((hok.sessions sid t ht).2.procs.each ⟨uid', [1, 2], player⟩ ?_).uid
  rw [hprocs]
  exact List.mem_singleton_self _

/-- The database answers one session, and what the others will tell stays as it is stored. -/
theorem handle_telling (hok : SystemOk sys) (hplay : Playing c handlers sys)
    (h : Telling c handlers sys) {pre post : List Msg} {sid : Nat} {r : Request} {a : Answer}
    (hnet : sys.net = pre ++ ⟨sid, .request r⟩ :: post) (ha : answer sys.store r = a) :
    Telling c handlers
      { sys with store := a.store, net := pre ++ ⟨sid, .reply a.reply⟩ :: post } := by
  have hmem : (⟨sid, .request r⟩ : Msg) ∈ sys.net := by
    rw [hnet]
    exact List.mem_append_right _ (List.mem_cons_self ..)
  have hrequest : RequestOk sys.store r := (hok.net _ hmem).2
  have hgrant : ∀ q, r = .save q → Granting c q ∧ Rooted sys.store q := fun q hq =>
    hplay.saves sid q (hq ▸ hmem)
  refine ⟨?_, fun sid' svrId uid t b hh ht hb => ?_⟩
  · have halone := h.alone
    rw [hnet, List.map_append, List.map_cons] at halone
    rw [List.map_append, List.map_cons]
    exact halone
  · have huid : uid.toNat < 2 ^ 32 := hplay.uid_lt hok hh ht
    have hgranted := answer_granted (c := c) hok.store hrequest hgrant ha huid
    have hother : ⟨sid', b⟩ ∈ sys.net → Pledge c a.store uid t b := fun hb =>
      (h.pledged sid' svrId uid t b hh ht hb).granted hgranted
    obtain hb | hb := List.mem_append.mp hb
    · exact hother (hnet ▸ List.mem_append_left _ hb)
    · obtain he | hb := List.mem_cons.mp hb
      · cases he
        exact answer_pledge hok.store hrequest huid hgrant
          (h.pledged sid svrId uid t _ hh ht hmem) ha
      · exact hother (hnet ▸ List.mem_append_right _ (List.mem_cons_of_mem _ hb))

/-- An answer that a session gets is the one it has waited for. -/
theorem deliver_telling (hc : Generated c) (hunset : Unset c) (hok : SystemOk sys)
    (hplay : Playing c handlers sys) (h : Telling c handlers sys) {pre post : List Msg} {sid : Nat}
    {r : Reply} {t : Session DbInfo} (hnet : sys.net = pre ++ ⟨sid, .reply r⟩ :: post)
    (ht : sys.sessions sid = some t) :
    Telling c handlers (sys.update sid (pre ++ post) (process c (handlers sid) t r)) := by
  have hmem : (⟨sid, .reply r⟩ : Msg) ∈ sys.net := by
    rw [hnet]
    exact List.mem_append_right _ (List.mem_cons_self ..)
  have hreply : ReplyOk sys.store r := (hok.net _ hmem).2
  obtain ⟨uid, hp, hlogin⟩ := hplay.sessions sid t ht
  refine update_telling h ?_ (fun m hm he => ?_) (hp.sent_le c t r)
    fun svrId uid' hh t' q ht' hq => ?_
  · rw [hnet]
    exact List.Sublist.append_left (List.sublist_cons_self ..) pre
  · have halone := h.alone
    rw [hnet, List.map_append, List.map_cons] at halone
    have hnot := (List.nodup_middle.mp halone).notMem
    rw [← List.map_append] at hnot
    exact hnot (List.mem_map.mpr ⟨m, hm, he⟩)
  · rw [hh] at hp
    obtain rfl := hp.uid_eq
    rw [hh] at ht' hq
    obtain hgone | ⟨t₁, q₁, hgoes, hbacked⟩ := login_process hc hunset svrId hlogin hreply
      (h.pledged sid svrId _ t _ hh ht hmem)
    · rw [hgone] at ht'
      cases ht'
    · rw [hgoes] at ht' hq
      cases ht'
      rw [List.mem_singleton.mp hq]
      exact hbacked

/-- A session that is released tells nothing. -/
theorem release_telling (h : Telling c handlers sys) (sid : Nat) :
    Telling c handlers { sys with sessions := Function.update sys.sessions sid none } := by
  refine ⟨h.alone, fun sid' svrId uid t b hh ht hb => ?_⟩
  have ht : Function.update sys.sessions sid none sid' = some t := ht
  by_cases he : sid' = sid
  · subst he
    rw [Function.update_self] at ht
    cases ht
  · rw [Function.update_of_ne he] at ht
    exact h.pledged sid' svrId uid t b hh ht hb

/-- Every step keeps what the sessions will tell. -/
theorem step_telling (hc : Generated c) (hunset : Unset c)
    (hplays : ∀ sid, ∃ uid, Plays (handlers sid) uid) {e : SysEvent} {sys' : System DbInfo}
    (hok : SystemOk sys) (hplay : Playing c handlers sys) (h : Telling c handlers sys)
    (hs : SysStep c handlers sys e sys') : Telling c handlers sys' := by
  cases hs with
  | start => exact start_telling hplays hok h _
  | handle hnet ha => exact handle_telling hok hplay h hnet ha
  | deliver hnet ht => exact deliver_telling hc hunset hok hplay h hnet ht
  | @drop pre post m hnet =>
    have hsub : (pre ++ post).Sublist sys.net := by
      rw [hnet]
      exact List.Sublist.append_left (List.sublist_cons_self ..) pre
    exact ⟨h.alone.sublist (hsub.map _), fun sid svrId uid t b hh ht hb =>
      h.pledged sid svrId uid t b hh ht (hsub.subset hb)⟩
  | release sid => exact release_telling h sid
  | restart =>
    exact ⟨h.alone, fun sid svrId uid t b hh ht hb =>
      (h.pledged sid svrId uid t b hh ht hb).granted (.of_rows fun _ => rfl)⟩

end Steps

/-- In every run of logins and logouts, a login whose save was accepted tells its player the money
that is stored. -/
theorem run_login_tells (c : Codec DbInfo) (hc : Generated c) (hunset : Unset c)
    (handlers : Nat → Handler DbInfo) (hplays : ∀ sid, ∃ uid, Plays (handlers sid) uid)
    (tables : UInt64 → UInt64 → Option Row) (hsmall : Small (fresh tables))
    (hpos : Positive (fresh tables)) (es : List SysEvent) (sys : System DbInfo)
    (hrun : Trace.Run (SysStep c handlers) (SysGuard handlers) (System.initial tables) es sys)
    (sid : Nat) (svrId : UInt32) (uid : UInt64) (hh : handlers sid = handlerLogin svrId uid)
    (t : Session DbInfo) (ht : sys.sessions sid = some t) (r : Response)
    (hr : ⟨sid, .reply (.save r)⟩ ∈ sys.net) (hok : r.result = .ok) :
    storedInit c sys.store uid = true ∧ told t = storedMoney c sys.store uid := by
  have hinv := hrun.invariant
    (fun sys => SystemOk sys ∧ Playing c handlers sys ∧ Telling c handlers sys)
    ⟨initial_ok hsmall hpos, initial_playing c handlers tables, initial_telling c handlers tables⟩
    fun _ _ _ ⟨hok, hplay, htell⟩ hg hs => ⟨step_ok hok hg hs,
      step_playing hc hunset hplays hok hplay hg hs, step_telling hc hunset hplays hok hplay htell hs⟩
  have htells := (hinv.2.2.pledged sid svrId uid t _ hh ht hr).1 hok
  exact ⟨htells.init, htells.money⟩

theorem run_login_tells_first :
    ∃ o t, handleSave firstSaving.store firstSave .never = o ∧ o.response.result = .ok ∧
      (firstSaved o).sessions 0 = some t ∧ storedInit wireData o.store 7 = true ∧
      told t = storedMoney wireData o.store 7 := by
  have hplays : ∀ sid : Nat, ∃ uid, Plays ((fun _ => handlerLogin 3 7) sid) uid :=
    fun _ => ⟨7, .login 3 7⟩
  have hok : (handleSave firstSaving.store firstSave .never).response.result = .ok := by
    decide +kernel
  obtain ⟨t, ht⟩ := Option.isSome_iff_exists.mp
    (show (firstSaving.sessions 0).isSome = true by decide +kernel)
  obtain ⟨hinit, htold⟩ := run_login_tells wireData wireData_generated ⟨rfl, rfl⟩ _ hplays noRows
    (fun k r hr => absurd hr (noRows_row k r)) (fun k r hr => absurd hr (noRows_row k r))
    _ _ (firstSaving_run.append (firstSaved_run rfl)) 0 3 7 rfl t ht _ (List.mem_singleton_self _) hok
  exact ⟨_, t, rfl, hok, ht, hinit, htold⟩

end Sessions
