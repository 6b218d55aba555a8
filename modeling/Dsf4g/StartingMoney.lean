import Dsf4g.LoginData

/-!
# The starting money of a player

`HandlerLogin::OnProcessData` and `InitDBData`: a login of a player that is not
initialised gives it money and marks it, in one save. Every other save writes the money
back as it was read. Logins and logouts of any number of servers run at the same time,
and start over on conflicts; the money is given once.
-/
namespace Sessions

open DbProxy

def DbInfo.isInit : DbInfo → Bool
  | .base i => i.isInit.getD false
  | .money _ => false

def DbInfo.amount : DbInfo → UInt64
  | .money i => i.money.getD 0
  | .base _ => 0

def initIn (c : Codec DbInfo) (b : Blob) : Bool := (c.parse .baseInfo b).any DbInfo.isInit

def moneyIn (c : Codec DbInfo) (b : Blob) : UInt64 := (c.parse .moneyInfo b).elim 0 DbInfo.amount

def storedInit (c : Codec DbInfo) (st : Store) (uid : UInt64) : Bool :=
  (st.row (uidKey (DbKey.num .baseInfo) uid)).any fun row => initIn c row.blob

def storedMoney (c : Codec DbInfo) (st : Store) (uid : UInt64) : UInt64 :=
  (st.row (uidKey (DbKey.num .moneyInfo) uid)).elim 0 fun row => moneyIn c row.blob

def Unset (c : Codec DbInfo) : Prop :=
  c.empty .baseInfo = .base ⟨none, none, none⟩ ∧ c.empty .moneyInfo = .money ⟨none⟩

/-- The handlers on player data, with the player of their sessions. -/
inductive Plays : Handler DbInfo → UInt64 → Prop
  | login (svrId : UInt32) (uid : UInt64) : Plays (handlerLogin svrId uid) uid
  | logout : Plays handlerLogout 0

/-! ## The save of a login or a logout -/

def fromInit (c : Codec DbInfo) (d : PBDBData) : Bool := d.origin.any (initIn c)

/-- The money of the row that the copy was made of. -/
def fromMoney (c : Codec DbInfo) (d : PBDBData) : UInt64 := d.origin.elim 0 (moneyIn c)

/-- A save that marks a player and gives it the starting money, or leaves the mark and the money as
they were copied. -/
inductive Granting (c : Codec DbInfo) (r : SaveRequest) : Prop where
  | grants (base : DbKey.num .baseInfo ∈ r.datas.map PBDBData.key)
      (money : DbKey.num .moneyInfo ∈ r.datas.map PBDBData.key)
      (marks : ∀ d ∈ r.datas, d.key = DbKey.num .baseInfo →
        fromInit c d = false ∧ initIn c d.bytes = true)
      (gives : ∀ d ∈ r.datas, d.key = DbKey.num .moneyInfo → moneyIn c d.bytes = 1000000)
  | keeps (marks : ∀ d ∈ r.datas, d.key = DbKey.num .baseInfo → initIn c d.bytes = fromInit c d)
      (gives : ∀ d ∈ r.datas, d.key = DbKey.num .moneyInfo → moneyIn c d.bytes = fromMoney c d)

def Rooted (s : Store) (r : SaveRequest) : Prop :=
  ∀ d ∈ r.datas, d.origin.isSome = true → (s.row (uidKey d.key r.uid)).isSome = true

theorem Rooted.grow {s s' : Store} (hg : Grows s s') {r : SaveRequest} (h : Rooted s r) :
    Rooted s' r := by
  intro d hd ho
  obtain ⟨row, hrow⟩ := Option.isSome_iff_exists.mp (h d hd ho)
  obtain ⟨row', hrow', -⟩ := hg _ _ hrow
  rw [hrow']
  rfl

structure Copied (c : Codec DbInfo) (s : Store) (uid : UInt64) (k : DbKey) (f : Field DbInfo) :
    Prop where
  info : (f.origin = none ∧ f.info = c.empty k) ∨ ∃ b, f.origin = some b ∧ c.parse k b = some f.info
  rooted : f.origin.isSome = true → (s.row (uidKey k.num uid)).isSome = true

theorem constructDBMsg_copied {c : Codec DbInfo} {s : Store} {uid : UInt64} {k : DbKey}
    {f f' : Field DbInfo} {d : PBDBData} (hk : d.key = k.num) (hf : Copied c s uid k f)
    (hd : DatumOk s uid d) (h : constructDBMsg c k f d = some f') : Copied c s uid k f' := by
  rcases hd with ⟨hb, hv⟩ | ⟨b, v, hb, hv, row, hrow, -⟩
  · simp only [constructDBMsg, hb, hv, Option.map_some, Option.some.injEq] at h
    rw [← h]
    exact hf
  · simp only [constructDBMsg, hb, hv, Option.map_map, Option.map_eq_some_iff,
      Function.comp_apply] at h
    obtain ⟨i, hi, rfl⟩ := h
    refine ⟨.inr ⟨b, rfl, hi⟩, fun _ => ?_⟩
    rw [← hk, hrow]
    rfl

/-- A player as an answer leaves it: copies of rows. -/
def Reloaded (c : Codec DbInfo) (s : Store) (m : PBDBMsg DbInfo) : Prop :=
  ∀ k, Copied c s m.uid k ((m.field k).getD ⟨c.empty k, none, none⟩)

theorem blank_reloaded (c : Codec DbInfo) (s : Store) (uid : UInt64) :
    Reloaded c s ⟨uid, fun _ => none, fun _ => false⟩ :=
  fun _ => ⟨.inl ⟨rfl, rfl⟩, fun h => (nomatch h)⟩

theorem parseDBData_reloaded {c : Codec DbInfo} {s : Store} {ds : List PBDBData}
    {m m' : PBDBMsg DbInfo} (hm : Reloaded c s m) (hds : ∀ d ∈ ds, DatumOk s m.uid d)
    (h : parseDBData c m ds = some m') : Reloaded c s m' := by
  induction ds generalizing m with
  | nil =>
    cases h
    exact hm
  | cons d ds ih =>
    unfold parseDBData at h
    split at h
    · cases h
    · next k hk =>
      split at h
      · cases h
      · next f hf =>
        have hfield := constructDBMsg_copied (ofNum_eq hk) (hm k) (hds d (List.mem_cons_self ..)) hf
        have hnext : Reloaded c s (m.store k f) := by
          intro k'
          by_cases he : k' = k
          · subst he
            rw [m.store_field]
            exact hfield
          · rw [(m.store_other he f).1]
            exact hm k'
        exact ih hnext (fun e he => hds e (List.mem_cons_of_mem _ he)) h

def itemOf (c : Codec DbInfo) (m : PBDBMsg DbInfo) (k : DbKey) : PBDBData :=
  let f := (m.field k).getD ⟨c.empty k, none, none⟩
  ⟨k.num, some (c.serialize k f.info), some (f.ver.getD 0 + 1), f.origin⟩

theorem addSaveData_itemOf {c : Codec DbInfo} (hc : Generated c) {m : PBDBMsg DbInfo}
    (hm : Typed m) (k : DbKey) : ∃ f, f.info.key = k ∧
      addSaveData c k ((m.field k).getD ⟨c.empty k, none, none⟩) = some ⟨f, itemOf c m k⟩ := by
  have hkey := hm.getD hc k
  have hsmall := hc.small ((m.field k).getD ⟨c.empty k, none, none⟩).info
  rw [hkey] at hsmall
  refine ⟨{ (m.field k).getD ⟨c.empty k, none, none⟩ with
    ver := some (((m.field k).getD ⟨c.empty k, none, none⟩).ver.getD 0 + 1) }, hkey, ?_⟩
  rw [addSaveData]
  exact if_neg (by omega)

theorem itemOf_store {c : Codec DbInfo} (m : PBDBMsg DbInfo) {k k' : DbKey} (h : k' ≠ k)
    (f : Field DbInfo) : itemOf c (m.store k f) k' = itemOf c m k' := by
  rw [itemOf, (m.store_other h f).1]
  rfl

/-- The items of a request are those of the touched parts. -/
theorem collectSaves_mem {c : Codec DbInfo} (hc : Generated c) {ns : List UInt32}
    {st st' : Saving DbInfo} (h : collectSaves c ns st = some st') (hm : Typed st.player)
    (hnd : ns.Nodup) (d : PBDBData) :
    d ∈ st'.datas ↔ d ∈ st.datas ∨
      ∃ k, DbKey.num k ∈ ns ∧ st.player.update k = true ∧ d = itemOf c st.player k := by
  induction ns generalizing st with
  | nil =>
    cases h
    simp only [List.not_mem_nil, false_and, exists_false, or_false]
  | cons n ns ih =>
    obtain ⟨hnot, hrest⟩ := List.nodup_cons.mp hnd
    rw [collectSaves] at h
    split at h
    · cases h
    · next k hk =>
      obtain rfl := ofNum_eq hk
      have hsplit : (∃ k', DbKey.num k' ∈ k.num :: ns ∧ st.player.update k' = true ∧
            d = itemOf c st.player k') ↔
          (st.player.update k = true ∧ d = itemOf c st.player k) ∨
            ∃ k', DbKey.num k' ∈ ns ∧ st.player.update k' = true ∧ d = itemOf c st.player k' := by
        constructor
        · rintro ⟨k', hmem, hrest⟩
          obtain hhead | htail := List.mem_cons.mp hmem
          · exact .inl (num_inj hhead ▸ hrest)
          · exact .inr ⟨k', htail, hrest⟩
        · rintro (hhead | ⟨k', hmem, hrest⟩)
          · exact ⟨k, List.mem_cons_self .., hhead⟩
          · exact ⟨k', List.mem_cons_of_mem _ hmem, hrest⟩
      rw [hsplit]
      split at h
      · next hup =>
        obtain ⟨f, hkey, ha⟩ := addSaveData_itemOf hc hm k
        simp only [ha] at h
        have hsame : ∀ k', DbKey.num k' ∈ ns → ((st.player.store k f).update k' = true ∧
            d = itemOf c (st.player.store k f) k' ↔
            st.player.update k' = true ∧ d = itemOf c st.player k') := by
          intro k' hmem
          have hne : k' ≠ k := fun he => hnot (he ▸ hmem)
          rw [(st.player.store_other hne f).2, itemOf_store st.player hne]
        rw [ih h (hm.store hkey) hrest]
        simp only [List.mem_append, List.mem_singleton, or_assoc, hup, true_and]
        refine or_congr_right (or_congr_right (exists_congr fun k' => ?_))
        exact and_congr_right (hsame k')
      · next hup =>
        rw [ih h hm hrest]
        simp only [hup, Bool.false_eq_true, false_and, false_or]

/-! ## The two handlers -/

theorem initIn_serialize {c : Codec DbInfo} (hc : Generated c) {i : DbInfo}
    (hi : i.key = .baseInfo) : initIn c (c.serialize .baseInfo i) = i.isInit := by
  have hround := hc.round i
  rw [hi] at hround
  rw [initIn, hround]
  rfl

theorem moneyIn_serialize {c : Codec DbInfo} (hc : Generated c) {i : DbInfo}
    (hi : i.key = .moneyInfo) : moneyIn c (c.serialize .moneyInfo i) = i.amount := by
  have hround := hc.round i
  rw [hi] at hround
  rw [moneyIn, hround]
  rfl

section Copied

variable {c : Codec DbInfo} {s : Store} {uid : UInt64} {f : Field DbInfo}

/-- A copy says what the row said that it was made of. -/
theorem Copied.fromInit (hunset : Unset c) (h : Copied c s uid .baseInfo f) :
    f.origin.any (initIn c) = f.info.isInit := by
  obtain ⟨ho, hi⟩ | ⟨b, ho, hparse⟩ := h.info
  · rw [ho, hi, hunset.1]
    rfl
  · rw [ho, Option.any_some, initIn, hparse]
    rfl

theorem Copied.fromMoney (hunset : Unset c) (h : Copied c s uid .moneyInfo f) :
    f.origin.elim 0 (moneyIn c) = f.info.amount := by
  obtain ⟨ho, hi⟩ | ⟨b, ho, hparse⟩ := h.info
  · rw [ho, hi, hunset.2]
    rfl
  · rw [ho, Option.elim_some, moneyIn, hparse]
    rfl

end Copied

/-- What the handlers leave of a player that an answer has brought. -/
structure Played (c : Codec DbInfo) (s : Store) (e : PBDBMsg DbInfo) : Prop where
  typed : Typed e
  rooted : ∀ k, (itemOf c e k).origin.isSome = true → (s.row (uidKey k.num e.uid)).isSome = true
  saves : ((∀ k, e.update k = true) ∧ fromInit c (itemOf c e .baseInfo) = false ∧
      initIn c (itemOf c e .baseInfo).bytes = true ∧
      moneyIn c (itemOf c e .moneyInfo).bytes = 1000000) ∨
    initIn c (itemOf c e .baseInfo).bytes = fromInit c (itemOf c e .baseInfo) ∧
      moneyIn c (itemOf c e .moneyInfo).bytes = fromMoney c (itemOf c e .moneyInfo)

/-- What is collected from such a player. -/
theorem Played.granting {c : Codec DbInfo} (hc : Generated c) {s : Store} {e : PBDBMsg DbInfo}
    (h : Played c s e) {st : Saving DbInfo} (hst : collectSaves c [1, 2] ⟨e, []⟩ = some st) :
    Granting c ⟨st.player.uid, st.datas⟩ ∧ Rooted s ⟨st.player.uid, st.datas⟩ := by
  have hmem : ∀ d, d ∈ st.datas ↔ ∃ k, e.update k = true ∧ d = itemOf c e k := by
    intro d
    rw [collectSaves_mem hc hst h.typed (by decide) d]
    constructor
    · rintro (hnil | ⟨k, -, hk⟩)
      · exact absurd hnil List.not_mem_nil
      · exact ⟨k, hk⟩
    · rintro ⟨k, hk⟩
      refine .inr ⟨k, ?_, hk⟩
      cases k <;> decide
  have hitem : ∀ k, ∀ d ∈ st.datas, d.key = DbKey.num k → d = itemOf c e k := by
    intro k d hd hkey
    obtain ⟨k', -, rfl⟩ := (hmem d).mp hd
    obtain rfl : k' = k := num_inj hkey
    rfl
  constructor
  · obtain ⟨hup, hfrom, hin, hgive⟩ | ⟨hin, hkeep⟩ := h.saves
    · have hkeys : ∀ k, DbKey.num k ∈ st.datas.map PBDBData.key := fun k =>
        List.mem_map.mpr ⟨_, (hmem _).mpr ⟨k, hup k, rfl⟩, rfl⟩
      refine .grants (hkeys _) (hkeys _) (fun d hd hkey => ?_) fun d hd hkey => ?_
      · rw [hitem _ d hd hkey]
        exact ⟨hfrom, hin⟩
      · rw [hitem _ d hd hkey]
        exact hgive
    · refine .keeps (fun d hd hkey => ?_) fun d hd hkey => ?_
      · rw [hitem _ d hd hkey]
        exact hin
      · rw [hitem _ d hd hkey]
        exact hkeep
  · intro d hd
    obtain ⟨k, -, rfl⟩ := (hmem d).mp hd
    have huid : st.player.uid = e.uid := (collectSaves_keys hst).1
    rw [huid]
    exact h.rooted k

theorem itemOf_mutate (c : Codec DbInfo) (m : PBDBMsg DbInfo) (k : DbKey) (g : DbInfo → DbInfo) :
    itemOf c (m.mutate c k g) k = { itemOf c m k with
      blob := some (c.serialize k (g ((m.field k).getD ⟨c.empty k, none, none⟩).info)) } := by
  simp only [itemOf, m.mutate_field, Option.getD_some]

theorem itemOf_mutate_other (c : Codec DbInfo) (m : PBDBMsg DbInfo) {k k' : DbKey} (h : k' ≠ k)
    (g : DbInfo → DbInfo) : itemOf c (m.mutate c k g) k' = itemOf c m k' := by
  rw [itemOf, (m.mutate_other h c g).1]
  rfl

theorem itemOf_mutate_origin (c : Codec DbInfo) (m : PBDBMsg DbInfo) (k k' : DbKey)
    (g : DbInfo → DbInfo) : (itemOf c (m.mutate c k g) k').origin = (itemOf c m k').origin := by
  by_cases h : k' = k
  · rw [h, itemOf_mutate]
  · rw [itemOf_mutate_other c m h]

def baseOf (c : Codec DbInfo) (m : PBDBMsg DbInfo) : DbInfo :=
  ((m.field .baseInfo).getD ⟨c.empty .baseInfo, none, none⟩).info

section Handlers

variable {c : Codec DbInfo} {s : Store} {m : PBDBMsg DbInfo}

/-- What a handler's change of the base info makes of it, and what the copy was made of. -/
theorem mutated_base (hc : Generated c) (hm : Typed m) (g : DBBaseInfo → DBBaseInfo) :
    initIn c (itemOf c (m.mutate c .baseInfo (onBase g)) .baseInfo).bytes =
      (onBase g (baseOf c m)).isInit := by
  rw [itemOf_mutate]
  exact initIn_serialize hc ((onBase_key g _).trans (hm.getD hc .baseInfo))

theorem mutated_fromInit (h : Reloaded c s m) (hunset : Unset c) (g : DBBaseInfo → DBBaseInfo) :
    fromInit c (itemOf c (m.mutate c .baseInfo (onBase g)) .baseInfo) = (baseOf c m).isInit := by
  rw [fromInit, itemOf_mutate_origin]
  exact (h .baseInfo).fromInit hunset

/-- A change of the base info alone, by which the player stays as initialised as it was. -/
theorem Played.of_base (hc : Generated c) (hunset : Unset c) (hm : Typed m) (h : Reloaded c s m)
    {g : DBBaseInfo → DBBaseInfo} (hsame : (onBase g (baseOf c m)).isInit = (baseOf c m).isInit) :
    Played c s (m.mutate c .baseInfo (onBase g)) := by
  refine ⟨mutate_typed hc hm (onBase_key g), fun k => ?_, .inr ⟨?_, ?_⟩⟩
  · rw [itemOf_mutate_origin]
    exact (h k).rooted
  · rw [mutated_base hc hm, hsame, mutated_fromInit h hunset]
  · rw [itemOf_mutate_other c m (by decide)]
    exact (moneyIn_serialize hc (hm.getD hc .moneyInfo)).trans ((h .moneyInfo).fromMoney hunset).symm

/-- `InitDBData` on a player that was found without the mark. -/
theorem Played.of_init (hc : Generated c) (hunset : Unset c) (hm : Typed m) (h : Reloaded c s m)
    (svrId : UInt32) (hnot : (baseOf c m).isInit = false) :
    Played c s ((m.mutate c .baseInfo (onBase (signOn svrId false))).mutate c .moneyInfo
      (onMoney fun _ => ⟨some 1000000⟩)) := by
  have hne : DbKey.baseInfo ≠ .moneyInfo := by decide
  have htyped := mutate_typed hc hm (k := .baseInfo) (onBase_key (signOn svrId false))
  have hbase := itemOf_mutate_other c (m.mutate c .baseInfo (onBase (signOn svrId false))) hne
    (onMoney fun _ => ⟨some 1000000⟩)
  refine ⟨mutate_typed hc htyped (onMoney_key _), fun k => ?_, .inl ⟨fun k => ?_, ?_, ?_, ?_⟩⟩
  · rw [itemOf_mutate_origin, itemOf_mutate_origin]
    exact (h k).rooted
  · cases k with
    | baseInfo =>
      rw [(PBDBMsg.mutate_other _ hne c _).2]
      exact PBDBMsg.mutate_update ..
    | moneyInfo => exact PBDBMsg.mutate_update ..
  · rw [hbase]
    exact (mutated_fromInit h hunset (signOn svrId false)).trans hnot
  · rw [hbase, mutated_base hc hm]
    have hkey : (baseOf c m).key = .baseInfo := hm.getD hc .baseInfo
    generalize baseOf c m = i at hkey
    cases i with
    | base i => rfl
    | money i => cases hkey
  · rw [itemOf_mutate]
    have hkey := htyped.getD hc .moneyInfo
    generalize (((m.mutate c .baseInfo (onBase (signOn svrId false))).field .moneyInfo).getD
      ⟨c.empty .moneyInfo, none, none⟩).info = i at hkey
    cases i with
    | base i => cases hkey
    | money i => exact moneyIn_serialize hc (i := .money ⟨some 1000000⟩) rfl

/-- What `OnProcessData` of a login makes of the player of an answer. -/
theorem login_processed (hunset : Unset c) (svrId : UInt32) {uid : UInt64} {t : Session DbInfo}
    (hcur : t.curProcIndex = 0) (hprocs : t.dbProcs = [⟨uid, [1, 2], some m⟩]) (hm : Typed m) :
    (processed c (handlerLogin svrId uid) t).dbProcs =
      [⟨uid, [1, 2], some (editPlayer c (loginEdit svrId (baseOf c m).isInit) m)⟩] := by
  have hinit : (baseInfo t).isInit.getD false = (baseOf c m).isInit := by
    simp only [baseInfo, currentPlayer, hprocs, hcur, List.getElem?_cons_zero, Option.bind_some,
      baseOf]
    cases hf : m.field .baseInfo with
    | none =>
      rw [Option.getD_none, hunset.1]
      rfl
    | some f =>
      have hkey := hm .baseInfo f hf
      obtain ⟨i, ver, origin⟩ := f
      cases i with
      | base i => rfl
      | money i => cases hkey
  simp only [Sessions.processed, editProcs, handlerLogin, hprocs, hcur, List.mapIdx_cons,
    List.mapIdx_nil, Option.map_some, if_true, hinit]

/-- `OnProcessData` of either handler, on the player of an answer. -/
theorem Plays.processed {h : Handler DbInfo} {uid : UInt64} (hplays : Plays h uid)
    (hc : Generated c) (hunset : Unset c) (hm : Typed m) (hr : Reloaded c s m)
    {t : Session DbInfo} (hcur : t.curProcIndex = 0) (hprocs : t.dbProcs = [⟨uid, [1, 2], some m⟩]) :
    (h.onProcessData t).result = .save ∧
      ∃ e, (processed c h t).dbProcs = [⟨uid, [1, 2], some e⟩] ∧ Played c s e := by
  cases hplays with
  | login svrId =>
    refine ⟨rfl, editPlayer c (loginEdit svrId (baseOf c m).isInit) m,
      login_processed hunset svrId hcur hprocs hm, ?_⟩
    cases hb : (baseOf c m).isInit with
    | true =>
      refine Played.of_base hc hunset hm hr ?_
      generalize baseOf c m = i
      cases i <;> rfl
    | false => exact Played.of_init hc hunset hm hr svrId hb
  | logout =>
    refine ⟨rfl, m.mutate c .baseInfo (onBase fun i =>
      { i with isOnline := none, hallsvrId := none }), ?_, ?_⟩
    · simp only [Sessions.processed, editProcs, handlerLogout, hprocs, hcur, List.mapIdx_cons,
        List.mapIdx_nil, Option.map_some, true_and]
      rfl
    · refine Played.of_base hc hunset hm hr ?_
      generalize baseOf c m = i
      cases i <;> rfl

end Handlers

/-! ## Sessions and saves in the system -/

/-- A session of a login or a logout goes on, and its saves give money once. -/
structure PlayOk (c : Codec DbInfo) (s : Store) (uid : UInt64) (o : Outcome DbInfo) : Prop where
  session : ∀ t, o.session = some t → LoginSession uid t
  sent : ∀ q, Request.save q ∈ o.sent → Granting c q ∧ Rooted s q

theorem released_playOk (c : Codec DbInfo) (s : Store) (uid : UInt64) :
    PlayOk c s uid Outcome.released :=
  ⟨fun _ h => (nomatch h), fun _ h => (nomatch h)⟩

theorem Plays.next {h : Handler DbInfo} {uid : UInt64} (hplays : Plays h uid)
    (t : Session DbInfo) : h.next t = false := by
  cases hplays <;> rfl

theorem Plays.start {h : Handler DbInfo} {uid : UInt64} (hplays : Plays h uid) (c : Codec DbInfo)
    (s : Store) : PlayOk c s uid (start h) := by
  have hstart : Sessions.start h = Sessions.start (handlerLogin 0 uid) := by
    cases hplays <;> rfl
  obtain ⟨t, ht, hlogin, -⟩ := start_login 0 uid
  rw [hstart, ht]
  refine ⟨fun t' ht' => ?_, fun q hq => ?_⟩
  · cases ht'
    exact hlogin
  · cases List.mem_singleton.mp hq

section Process

variable {c : Codec DbInfo} {s : Store} {h : Handler DbInfo} {uid : UInt64} {t : Session DbInfo}

theorem saveOneData_playOk (hc : Generated c) (hcur : t.curProcIndex = 0) {e : PBDBMsg DbInfo}
    (hprocs : t.dbProcs = [⟨uid, [1, 2], some e⟩]) (he : Played c s e) :
    PlayOk c s uid (saveOneData c t) := by
  have h0 : t.dbProcs[t.curProcIndex]? = some ⟨uid, [1, 2], some e⟩ := by
    rw [hprocs, hcur]
    rfl
  simp only [saveOneData, h0, Option.getD_some]
  split
  · exact released_playOk c s uid
  · next st hst =>
    split
    · exact released_playOk c s uid
    · refine ⟨fun t' ht' => ?_, fun q hq => ?_⟩
      · cases ht'
        refine ⟨hcur, some st.player, ?_⟩
        rw [hprocs, hcur]
        rfl
      · cases List.mem_singleton.mp hq
        exact he.granting hc hst

theorem processData_playOk (hplays : Plays h uid) (hc : Generated c) (hunset : Unset c)
    (hcur : t.curProcIndex = 0) {m : PBDBMsg DbInfo} (hprocs : t.dbProcs = [⟨uid, [1, 2], some m⟩])
    (hm : Typed m) (hr : Reloaded c s m) : PlayOk c s uid (processData c h t) := by
  obtain ⟨hresult, e, hedited, hplayed⟩ := hplays.processed hc hunset hm hr hcur hprocs
  rw [processData, hresult, proceed]
  exact saveOneData_playOk hc hcur hedited hplayed

/-- The player that an answer brings takes the place of the old one. -/
theorem reload_login (hs : LoginSession uid t) {r : Response} {t' : Session DbInfo}
    (ht : reload c t r = some t') :
    ∃ old m, parseDBData c ⟨r.uid, fun _ => none, fun _ => false⟩ r.datas = some m ∧ r.uid = uid ∧
      t' = { t with dbProcs := [⟨uid, [1, 2], some (PBDBMsg.copyFrom old m)⟩] } := by
  obtain ⟨player, hprocs⟩ := hs.procs
  obtain ⟨i, p, m, -, hp, huid, hm, rfl⟩ := reload_cases ht
  rw [hprocs] at hp
  cases i with
  | succ i => cases hp
  | zero =>
    cases hp
    refine ⟨player, m, hm, huid.symm, ?_⟩
    rw [hprocs]
    rfl

theorem blank_typed (uid : UInt64) :
    Typed (⟨uid, fun _ => none, fun _ => false⟩ : PBDBMsg DbInfo) := by
  intro k f hf
  cases hf

theorem reload_reloaded (hc : Generated c) (hs : LoginSession uid t) {r : Response}
    (hr : ResponseOk s r) {t' : Session DbInfo} (ht : reload c t r = some t') :
    ∃ m, t' = { t with dbProcs := [⟨uid, [1, 2], some m⟩] } ∧ Typed m ∧ Reloaded c s m := by
  obtain ⟨old, m, hm, -, rfl⟩ := reload_login hs ht
  have htyped : Typed m := parseDBData_typed hc (blank_typed r.uid) hm
  have hreloaded : Reloaded c s m := parseDBData_reloaded (blank_reloaded c s r.uid) hr hm
  exact ⟨PBDBMsg.copyFrom old m, rfl, htyped, hreloaded⟩

theorem Plays.process (hplays : Plays h uid) (hc : Generated c) (hunset : Unset c)
    (hs : LoginSession uid t) {r : Reply} (hr : ReplyOk s r) :
    PlayOk c s uid (process c h t r) := by
  cases r with
  | get r =>
    unfold Sessions.process getResponse
    dsimp only
    split
    · split
      · split
        · exact released_playOk c s uid
        · next t' ht' =>
          obtain ⟨m, rfl, hm, hreloaded⟩ := reload_reloaded hc hs hr ht'
          exact processData_playOk hplays hc hunset hs.current rfl hm hreloaded
      · exact released_playOk c s uid
    · exact released_playOk c s uid
  | save r =>
    unfold Sessions.process saveResponse
    dsimp only
    split
    · split
      · simp only [hplays.next, Bool.false_eq_true, if_false]
        rw [proceed]
        exact released_playOk c s uid
      · split
        · exact released_playOk c s uid
        · have hs' : LoginSession uid { t with redoCount := t.redoCount + 1 } :=
            ⟨hs.current, hs.procs⟩
          split
          · exact released_playOk c s uid
          · next t' ht' =>
            obtain ⟨m, rfl, hm, hreloaded⟩ := reload_reloaded hc hs' hr ht'
            exact processData_playOk hplays hc hunset hs.current rfl hm hreloaded
      · exact released_playOk c s uid
    · exact released_playOk c s uid

end Process

/-- Every session is that of a login or a logout, and every save in flight gives money once. -/
structure Playing (c : Codec DbInfo) (handlers : Nat → Handler DbInfo) (sys : System DbInfo) :
    Prop where
  sessions : ∀ sid t, sys.sessions sid = some t → ∃ uid, Plays (handlers sid) uid ∧
    LoginSession uid t
  saves : ∀ sid q, ⟨sid, .request (.save q)⟩ ∈ sys.net → Granting c q ∧ Rooted sys.store q

theorem initial_playing (c : Codec DbInfo) (handlers : Nat → Handler DbInfo)
    (tables : UInt64 → UInt64 → Option Row) : Playing c handlers (System.initial tables) :=
  ⟨fun _ _ h => (nomatch h), fun _ _ h => (nomatch h)⟩

section Steps

variable {c : Codec DbInfo} {handlers : Nat → Handler DbInfo} {sys : System DbInfo}

theorem update_playing (h : Playing c handlers sys) {sid n : Nat} {net : List Msg}
    {o : Outcome DbInfo} {uid : UInt64} (hplays : Plays (handlers sid) uid)
    (hnet : net ⊆ sys.net) (ho : PlayOk c sys.store uid o) :
    Playing c handlers { sys.update sid net o with created := n } := by
  refine ⟨fun sid' t ht => ?_, fun sid' q hq => ?_⟩
  · have ht : Function.update sys.sessions sid o.session sid' = some t := ht
    by_cases hs : sid' = sid
    · subst hs
      rw [Function.update_self] at ht
      exact ⟨uid, hplays, ho.session t ht⟩
    · rw [Function.update_of_ne hs] at ht
      exact h.sessions sid' t ht
  · obtain hq | hq := List.mem_append.mp hq
    · exact h.saves sid' q (hnet hq)
    · obtain ⟨r, hr, he⟩ := List.mem_map.mp hq
      cases he
      exact ho.sent q hr

theorem step_playing (hc : Generated c) (hunset : Unset c)
    (hplays : ∀ sid, ∃ uid, Plays (handlers sid) uid) {e : SysEvent} {sys' : System DbInfo}
    (hok : SystemOk sys) (h : Playing c handlers sys) (hg : SysGuard handlers sys e)
    (hs : SysStep c handlers sys e sys') : Playing c handlers sys' := by
  cases hs with
  | start =>
    obtain ⟨uid, hp⟩ := hplays sys.created
    exact update_playing h hp (List.Subset.refl _) (hp.start c sys.store)
  | @handle pre post sid r a hnet ha =>
    have hbody : RequestOk sys.store r := (hok.net ⟨sid, .request r⟩ (by rw [hnet]; simp)).2
    obtain ⟨-, hgrows, -⟩ := answer_ok hok.store hbody
      (by rintro q rfl; exact hg) ha
    refine ⟨h.sessions, fun sid' q hq => ?_⟩
    have hq : (⟨sid', .request (.save q)⟩ : Msg) ∈ sys.net := by
      rw [hnet]
      obtain hq | hq := List.mem_append.mp hq
      · exact List.mem_append_left _ hq
      · obtain he | hq := List.mem_cons.mp hq
        · cases he
        · exact List.mem_append_right _ (List.mem_cons_of_mem _ hq)
    obtain ⟨hgrant, hroot⟩ := h.saves sid' q hq
    exact ⟨hgrant, hroot.grow hgrows⟩
  | @deliver pre post sid r t hnet ht =>
    have hreply : ReplyOk sys.store r := (hok.net ⟨sid, .reply r⟩ (by rw [hnet]; simp)).2
    obtain ⟨uid, hp, hlogin⟩ := h.sessions sid t ht
    refine update_playing h hp ?_ (hp.process hc hunset hlogin hreply)
    rw [hnet]
    exact (List.Sublist.append_left (List.sublist_cons_self ..) pre).subset
  | @drop pre post m hnet =>
    refine ⟨h.sessions, fun sid q hq => h.saves sid q ?_⟩
    rw [hnet]
    exact (List.Sublist.append_left (List.sublist_cons_self ..) pre).subset hq
  | release sid =>
    refine ⟨fun sid' t ht => ?_, h.saves⟩
    by_cases hs : sid' = sid
    · subst hs
      simp at ht
    · simp only [Function.update_of_ne hs] at ht
      exact h.sessions sid' t ht
  | restart => exact ⟨h.sessions, h.saves⟩

end Steps

/-! ## The stored money -/

/-- An initialised player stays so, with the same money; one that becomes initialised has the starting
money; and one that does not keeps its money. -/
structure Granted (c : Codec DbInfo) (uid : UInt64) (s s' : Store) : Prop where
  stays : storedInit c s uid = true → storedInit c s' uid = true ∧
    storedMoney c s' uid = storedMoney c s uid
  starts : storedInit c s uid = false → storedInit c s' uid = true → storedMoney c s' uid = 1000000
  waits : storedInit c s' uid = false → storedMoney c s' uid = storedMoney c s uid

theorem Granted.of_same {c : Codec DbInfo} {uid : UInt64} {s s' : Store}
    (hinit : storedInit c s' uid = storedInit c s uid)
    (hmoney : storedMoney c s' uid = storedMoney c s uid) : Granted c uid s s' := by
  refine ⟨fun hs => ⟨hinit.trans hs, hmoney⟩, fun hs hs' => ?_, fun _ => hmoney⟩
  cases hs.symm.trans (hinit.symm.trans hs')

theorem Granted.of_rows {c : Codec DbInfo} {uid : UInt64} {s s' : Store}
    (h : ∀ k, s'.row k = s.row k) : Granted c uid s s' := by
  refine .of_same ?_ ?_
  · rw [storedInit, h]
    rfl
  · rw [storedMoney, h]
    rfl

theorem Granted.trans {c : Codec DbInfo} {uid : UInt64} {s₁ s₂ s₃ : Store}
    (h : Granted c uid s₁ s₂) (h' : Granted c uid s₂ s₃) : Granted c uid s₁ s₃ := by
  refine ⟨fun h1 => ?_, fun h1 h3 => ?_, fun h3 => ?_⟩
  · obtain ⟨h2, hmoney⟩ := h.stays h1
    obtain ⟨h3, hmoney'⟩ := h'.stays h2
    exact ⟨h3, hmoney'.trans hmoney⟩
  · cases h2 : storedInit c s₂ uid with
    | true =>
      rw [(h'.stays h2).2]
      exact h.starts h1 h2
    | false => exact h'.starts h2 h3
  · cases h2 : storedInit c s₂ uid with
    | true => cases h3.symm.trans (h'.stays h2).1
    | false => exact (h'.waits h3).trans (h.waits h2)

/-- The item for a row of a player is one of that player and that part. -/
theorem item_of_saveKey {s : Store} {q : SaveRequest} (hq : RequestOk s (.save q)) {d : PBDBData}
    (hd : d ∈ q.datas) {k : DbKey} {uid : UInt64} (huid : uid.toNat < 2 ^ 32)
    (h : saveKey q.uid d = uidKey k.num uid) : d.key = k.num ∧ q.uid = uid := by
  obtain ⟨k', hk'⟩ := (hq.2 d hd).key
  rw [saveKey_eq hq.1, hk'] at h
  obtain ⟨rfl, hu⟩ := uidKey_inj_key hq.1 huid h
  exact ⟨hk', hu⟩

/-- An item on a row that is accepted was copied from the row. -/
theorem accepted_origin {s : Store} (h : StoreOk s) {q : SaveRequest} (hq : RequestOk s (.save q))
    {f : SqlFailures} (hok : checkVersion s q.uid f.check 0 q.datas = .ok) {d : PBDBData}
    (hd : d ∈ q.datas) {row : Row} (hrow : s.row (uidKey d.key q.uid) = some row) :
    d.origin = some row.blob := by
  obtain ⟨b, hb⟩ := checkVersion_ok hok d hd
  rw [← saveKey_eq hq.1] at hrow
  exact (accepted_item h.coherent h.small h.positive hq.1 (hq.2 d hd) hb hrow).2

/-- The item of an accepted save for a part was copied from what is stored of it. -/
theorem accepted_copied {s : Store} (h : StoreOk s) {q : SaveRequest} (hq : RequestOk s (.save q))
    (hroot : Rooted s q) {f : SqlFailures} (hok : checkVersion s q.uid f.check 0 q.datas = .ok)
    {d : PBDBData} (hd : d ∈ q.datas) :
    d.origin = (s.row (uidKey d.key q.uid)).map Row.blob := by
  cases hrow : s.row (uidKey d.key q.uid) with
  | some row => exact accepted_origin h hq hok hd hrow
  | none =>
    cases ho : d.origin with
    | none => rfl
    | some b =>
      have hsome := hroot d hd (by rw [ho]; rfl)
      rw [hrow] at hsome
      cases hsome

section Accepted

variable {c : Codec DbInfo} {s : Store} {q : SaveRequest} {f : SqlFailures}

theorem accepted_fromInit (h : StoreOk s) (hq : RequestOk s (.save q)) (hroot : Rooted s q)
    (hok : checkVersion s q.uid f.check 0 q.datas = .ok) {d : PBDBData} (hd : d ∈ q.datas)
    (hkey : d.key = DbKey.num .baseInfo) : fromInit c d = storedInit c s q.uid := by
  rw [fromInit, accepted_copied h hq hroot hok hd, storedInit, hkey]
  cases s.row (uidKey (DbKey.num .baseInfo) q.uid) <;> rfl

theorem accepted_fromMoney (h : StoreOk s) (hq : RequestOk s (.save q)) (hroot : Rooted s q)
    (hok : checkVersion s q.uid f.check 0 q.datas = .ok) {d : PBDBData} (hd : d ∈ q.datas)
    (hkey : d.key = DbKey.num .moneyInfo) : fromMoney c d = storedMoney c s q.uid := by
  rw [fromMoney, accepted_copied h hq hroot hok hd, storedMoney, hkey]
  cases s.row (uidKey (DbKey.num .moneyInfo) q.uid) <;> rfl

/-- What is stored of a part behind a save: its last item, or what was there. -/
theorem saved_part (hq : RequestOk s (.save q)) {uid : UInt64} (huid : uid.toNat < 2 ^ 32)
    (k : DbKey) :
    (k.num ∈ q.datas.map PBDBData.key ∧ q.uid = uid ∧ ∃ d ∈ q.datas, d.key = k.num ∧
      (saveDoRequest s q.uid SqlFailures.never.replace 0 q.datas).store.row (uidKey k.num uid) =
        some ⟨d.bytes, d.version⟩) ∨
    ((k.num ∈ q.datas.map PBDBData.key → q.uid ≠ uid) ∧
      (saveDoRequest s q.uid SqlFailures.never.replace 0 q.datas).store.row (uidKey k.num uid) =
        s.row (uidKey k.num uid)) := by
  have hrow := saveDoRequest_row s q.uid SqlFailures.never.replace 0 q.datas (uidKey k.num uid)
  rw [written_never] at hrow
  cases hlast : lastFor q.uid (uidKey k.num uid) q.datas with
  | some d =>
    obtain ⟨hd, hsaved⟩ := mem_of_lastFor hlast
    obtain ⟨hkey, huid'⟩ := item_of_saveKey hq hd huid hsaved
    rw [hlast] at hrow
    exact .inl ⟨hkey ▸ List.mem_map_of_mem hd, huid', d, hd, hkey, hrow⟩
  | none =>
    rw [hlast] at hrow
    refine .inr ⟨fun hmem he => ?_, hrow⟩
    obtain ⟨d, hd, hkey⟩ := List.mem_map.mp hmem
    have hsome := @lastFor_isSome q.uid _ _ hd
    rw [saveKey_eq hq.1, hkey] at hsome
    subst he
    rw [hlast] at hsome
    cases hsome

/-- An accepted save gives money to nobody who has it, and to everybody it marks. -/
theorem accepted_granted (h : StoreOk s) (hq : RequestOk s (.save q)) (hgrant : Granting c q)
    (hroot : Rooted s q) (hok : checkVersion s q.uid f.check 0 q.datas = .ok) {uid : UInt64}
    (huid : uid.toNat < 2 ^ 32) :
    Granted c uid s (saveDoRequest s q.uid SqlFailures.never.replace 0 q.datas).store := by
  have hbase := saved_part (s := s) hq huid .baseInfo
  have hmoney := saved_part (s := s) hq huid .moneyInfo
  cases hgrant with
  | grants hhas hhas' marks gives =>
    obtain ⟨-, rfl, d, hd, hkey, hrow⟩ | ⟨hnot, hrow⟩ := hbase
    · obtain ⟨-, -, e, he, hkeye, hrow'⟩ | ⟨hnot, -⟩ := hmoney
      · have hfrom := (marks d hd hkey).1
        rw [accepted_fromInit h hq hroot hok hd hkey] at hfrom
        have hinit : storedInit c
            (saveDoRequest s q.uid SqlFailures.never.replace 0 q.datas).store q.uid = true := by
          rw [storedInit, hrow]
          exact (marks d hd hkey).2
        refine ⟨fun hs => ?_, fun _ _ => ?_, fun hs' => ?_⟩
        · cases hfrom.symm.trans hs
        · rw [storedMoney, hrow']
          exact gives e he hkeye
        · cases hs'.symm.trans hinit
      · exact absurd rfl (hnot hhas')
    · have hrow' := hmoney.resolve_left fun ⟨_, he, _⟩ => hnot hhas he
      refine .of_same ?_ ?_
      · rw [storedInit, hrow]
        rfl
      · rw [storedMoney, hrow'.2]
        rfl
  | keeps marks gives =>
    refine .of_same ?_ ?_
    · obtain ⟨-, rfl, d, hd, hkey, hrow⟩ | ⟨-, hrow⟩ := hbase
      · rw [← accepted_fromInit h hq hroot hok hd hkey, storedInit, hrow]
        exact marks d hd hkey
      · rw [storedInit, hrow]
        rfl
    · obtain ⟨-, rfl, d, hd, hkey, hrow⟩ | ⟨-, hrow⟩ := hmoney
      · rw [← accepted_fromMoney h hq hroot hok hd hkey, storedMoney, hrow]
        exact gives d hd hkey
      · rw [storedMoney, hrow]
        rfl

end Accepted

/-- What the database proxy does with a request. -/
theorem answer_granted {c : Codec DbInfo} {s : Store} (h : StoreOk s) {r : Request}
    (hr : RequestOk s r) (hgrant : ∀ q, r = .save q → Granting c q ∧ Rooted s q) {a : Answer}
    (ha : answer s r = a) {uid : UInt64} (huid : uid.toNat < 2 ^ 32) :
    Granted c uid s a.store := by
  cases r with
  | get r =>
    cases ha
    exact .of_rows fun _ => rfl
  | save q =>
    cases ha
    change Granted c uid s (handleSave s q .never).store
    obtain ⟨hq, hroot⟩ := hgrant q rfl
    obtain ⟨hok, -, -, hst⟩ | ⟨-, -, hfail, -⟩ | ⟨hst, -⟩ :=
      handleSave_cases (s := s) (r := q) (f := .never) rfl
    · rw [hst]
      exact (accepted_granted h hr hq hroot hok huid).trans (.of_rows fun k => saveToCache_row ..)
    · cases (success_of_written (written_never 0 q.datas)).symm.trans hfail
    · rw [hst]
      exact .of_rows fun _ => rfl

/-- In every run of logins and logouts, a player that is stored as initialised stays so and keeps its
money, one that becomes initialised has the starting money, and one that does not keeps its money. -/
theorem run_money_granted_once (c : Codec DbInfo) (hc : Generated c) (hunset : Unset c)
    (handlers : Nat → Handler DbInfo) (hplays : ∀ sid, ∃ uid, Plays (handlers sid) uid)
    (tables : UInt64 → UInt64 → Option Row) (hsmall : Small (fresh tables))
    (hpos : Positive (fresh tables)) (es es' : List SysEvent) (sys sys' : System DbInfo)
    (hrun : Trace.Run (SysStep c handlers) (SysGuard handlers) (System.initial tables) es sys)
    (hrun' : Trace.Run (SysStep c handlers) (SysGuard handlers) sys es' sys') (uid : UInt64)
    (huid : uid.toNat < 2 ^ 32) :
    (storedInit c sys.store uid = true → storedInit c sys'.store uid = true ∧
      storedMoney c sys'.store uid = storedMoney c sys.store uid) ∧
    (storedInit c sys.store uid = false → storedInit c sys'.store uid = true →
      storedMoney c sys'.store uid = 1000000) ∧
    (storedInit c sys'.store uid = false →
      storedMoney c sys'.store uid = storedMoney c sys.store uid) := by
  have hinv := hrun.invariant (fun sys => SystemOk sys ∧ Playing c handlers sys)
    ⟨initial_ok hsmall hpos, initial_playing c handlers tables⟩
    fun _ _ _ ⟨hok, hplay⟩ hg hs =>
      ⟨step_ok hok hg hs, step_playing hc hunset hplays hok hplay hg hs⟩
  have hend := hrun'.invariant
    (fun w => SystemOk w ∧ Playing c handlers w ∧ Granted c uid sys.store w.store)
    ⟨hinv.1, hinv.2, .of_rows fun _ => rfl⟩ ?_
  · exact ⟨hend.2.2.stays, hend.2.2.starts, hend.2.2.waits⟩
  · rintro w e w' ⟨hok, hplay, hgranted⟩ hg hs
    refine ⟨step_ok hok hg hs, step_playing hc hunset hplays hok hplay hg hs, hgranted.trans ?_⟩
    cases hs with
    | @handle pre post sid r a hnet ha =>
      have hmem : (⟨sid, .request r⟩ : Msg) ∈ w.net := by
        rw [hnet]
        simp
      exact answer_granted hok.store (hok.net _ hmem).2
        (fun q hq => hplay.saves sid q (hq ▸ hmem)) ha huid
    | start => exact .of_rows fun _ => rfl
    | deliver => exact .of_rows fun _ => rfl
    | drop => exact .of_rows fun _ => rfl
    | release => exact .of_rows fun _ => rfl
    | restart => exact .of_rows fun _ => rfl

/-! ## A first login -/

def noRows : UInt64 → UInt64 → Option Row := fun _ _ => none

def firstAnswer : Reply := .get (handleGet (fresh noRows) ⟨7, [bareKey 1, bareKey 2]⟩ false)

/-- What a first login of player 7 on server 3 saves. -/
def firstSave : SaveRequest :=
  ⟨7, [⟨1, some [16, 1, 24, 1, 32, 3], some 1, none⟩, ⟨2, some [16, 192, 132, 61], some 1, none⟩]⟩

def firstAsking : System DbInfo :=
  { (System.initial noRows).update 0 [] (start (handlerLogin 3 7)) with created := 1 }

def firstAnswering : System DbInfo := { firstAsking with net := [⟨0, .reply firstAnswer⟩] }

def firstSaving : System DbInfo :=
  firstAnswering.update 0 []
    (process wireData (handlerLogin 3 7) ⟨[⟨7, [1, 2], none⟩], 0, 0, .waitGetRsp⟩ firstAnswer)

/-- The first login has come to its save. -/
theorem firstSaving_run :
    Trace.Run (SysStep wireData fun _ => handlerLogin 3 7) (SysGuard fun _ => handlerLogin 3 7)
      (System.initial noRows)
      [.start, .handle ⟨0, .request (.get ⟨7, [bareKey 1, bareKey 2]⟩)⟩,
        .deliver ⟨0, .reply firstAnswer⟩] firstSaving := by
  have hask : SysStep wireData (fun _ => handlerLogin 3 7) (System.initial noRows) .start
      firstAsking := .start
  have hanswer : SysStep wireData (fun _ => handlerLogin 3 7) firstAsking
      (.handle ⟨0, .request (.get ⟨7, [bareKey 1, bareKey 2]⟩)⟩) firstAnswering :=
    @SysStep.handle _ _ _ firstAsking [] [] 0 _ ⟨_, _⟩ rfl rfl
  have hsave : SysStep wireData (fun _ => handlerLogin 3 7) firstAnswering
      (.deliver ⟨0, .reply firstAnswer⟩) firstSaving :=
    @SysStep.deliver _ _ _ firstAnswering [] [] 0 _ _ rfl rfl
  have huid : ∀ k ∈ (handlerLogin 3 7).keys, k.1.toNat < 2 ^ 32 := by decide
  exact .cons huid hask (.cons trivial hanswer (.cons trivial hsave (.nil _)))

theorem firstSaving_net : firstSaving.net = [⟨0, .request (.save firstSave)⟩] := by
  have hsent : (process wireData (handlerLogin 3 7) ⟨[⟨7, [1, 2], none⟩], 0, 0, .waitGetRsp⟩
      firstAnswer).sent = [.save firstSave] := by
    decide +kernel
  rw [firstSaving, System.update, hsent]
  rfl

/-- The database has handled the save of the first login. -/
def firstSaved (o : Handled) : System DbInfo :=
  { firstSaving with store := o.store, net := [⟨0, .reply (.save o.response)⟩] }

theorem firstSaved_run {o : Handled} (ho : handleSave firstSaving.store firstSave .never = o) :
    Trace.Run (SysStep wireData fun _ => handlerLogin 3 7) (SysGuard fun _ => handlerLogin 3 7)
      firstSaving [.handle ⟨0, .request (.save firstSave)⟩] (firstSaved o) := by
  have hstore : SysStep wireData (fun _ => handlerLogin 3 7) firstSaving
      (.handle ⟨0, .request (.save firstSave)⟩) (firstSaved o) :=
    @SysStep.handle _ _ _ firstSaving [] [] 0 _ ⟨o.store, .save o.response⟩ firstSaving_net
      (by rw [answer, ho])
  have hversions : SysGuard (fun _ => handlerLogin 3 7) firstSaving
      (.handle ⟨0, .request (.save firstSave)⟩) := by
    intro d hd
    revert d
    decide
  exact .cons hversions hstore (.nil _)

theorem noRows_row (k : UInt64) (r : Row) : (fresh noRows).row k ≠ some r := fun h => nomatch h

theorem run_money_granted_once_first :
    ∃ o, handleSave firstSaving.store firstSave .never = o ∧
      storedInit wireData firstSaving.store 7 = false ∧ storedInit wireData o.store 7 = true ∧
      storedMoney wireData o.store 7 = 1000000 := by
  have hplays : ∀ sid : Nat, ∃ uid, Plays ((fun _ => handlerLogin 3 7) sid) uid :=
    fun _ => ⟨7, .login 3 7⟩
  have hnot : storedInit wireData firstSaving.store 7 = false := by decide +kernel
  have hinit : storedInit wireData (handleSave firstSaving.store firstSave .never).store 7 = true := by
    decide +kernel
  exact ⟨_, rfl, hnot, hinit, (run_money_granted_once wireData wireData_generated ⟨rfl, rfl⟩ _ hplays
    noRows (fun k r hr => absurd hr (noRows_row k r)) (fun k r hr => absurd hr (noRows_row k r))
    _ _ _ _ firstSaving_run (firstSaved_run rfl) 7 (by decide)).2.1 hnot hinit⟩

end Sessions
