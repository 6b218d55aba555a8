import Mathlib.Data.List.Nodup
import Dsf4g.Session
import Dsf4g.VersionCache

/-!
# No lost update on player data

Any number of sessions and one database proxy, with messages that are delayed,
reordered or dropped. A copy of a row that a session may still save is never ahead of
the row, and agrees with it when the versions are equal; a save is accepted only at
the version behind the row, so what it writes was computed from the row.
-/
namespace Sessions

open DbProxy

variable {Info : Type}

/-! ## Copies of rows -/

/-- A copy of a row: not ahead of it, and taken from its blob when the versions agree. A copy
without a version was made where no row was found, or made up by the handler. -/
def Clean (s : Store) (k : UInt64) (origin : Option Blob) : Option UInt32 → Prop
  | none => True
  | some v => ∃ r, s.row k = some r ∧ v.toNat ≤ r.ver.toNat ∧ (v = r.ver → origin = some r.blob)

/-- An item of a save request: one version above a copy of its row. -/
structure ItemOk (s : Store) (uid : UInt64) (d : PBDBData) : Prop where
  key : ∃ k, d.key = DbKey.num k
  copy : ∃ ver, Clean s (uidKey d.key uid) d.origin ver ∧
    d.version.toNat = (ver.map UInt32.toNat).getD 0 + 1

/-- An item of an answer: a bare key, or a copy of its row. -/
def DatumOk (s : Store) (uid : UInt64) (d : PBDBData) : Prop :=
  (d.blob = none ∧ d.ver = none) ∨
    ∃ b v, d.blob = some b ∧ d.ver = some v ∧ Clean s (uidKey d.key uid) (some b) (some v)

/-- Rows are never removed, and a changed row has a higher version. -/
def Grows (s s' : Store) : Prop :=
  ∀ k r, s.row k = some r → ∃ r', s'.row k = some r' ∧ (r' = r ∨ r.ver.toNat < r'.ver.toNat)

theorem Grows.refl (s : Store) : Grows s s := fun _ r h => ⟨r, h, .inl rfl⟩

/-- A copy stays clean while its row only gets newer. -/
theorem Clean.grow {s s' : Store} (hg : Grows s s') {k : UInt64} {origin : Option Blob}
    {ver : Option UInt32} (h : Clean s k origin ver) : Clean s' k origin ver := by
  cases ver with
  | none => trivial
  | some v =>
    obtain ⟨r, hr, hle, ho⟩ := h
    obtain ⟨r', hr', rfl | hlt⟩ := hg k r hr
    · exact ⟨r', hr', hle, ho⟩
    · refine ⟨r', hr', by omega, fun he => ?_⟩
      rw [he] at hle
      omega

theorem ItemOk.grow {s s' : Store} (hg : Grows s s') {uid : UInt64} {d : PBDBData}
    (h : ItemOk s uid d) : ItemOk s' uid d := by
  obtain ⟨ver, hc, hv⟩ := h.copy
  exact ⟨h.key, ver, hc.grow hg, hv⟩

theorem DatumOk.grow {s s' : Store} (hg : Grows s s') {uid : UInt64} {d : PBDBData}
    (h : DatumOk s uid d) : DatumOk s' uid d := by
  rcases h with h | ⟨b, v, hb, hv, hc⟩
  · exact .inl h
  · exact .inr ⟨b, v, hb, hv, hc.grow hg⟩

/-! ## Keys -/

/-- The key comes back out of the `uid_key` of a uid of 32 bits. -/
theorem uidKey_div {k : DbKey} {uid : UInt64} (h : uid.toNat < 2 ^ 32) :
    (uidKey k.num uid / keyMultiple).toUInt32 = k.num := by
  apply UInt32.toNat_inj.mp
  cases k with
  | baseInfo =>
    simp [uidKey, keyMultiple, DbKey.num]
    omega
  | moneyInfo =>
    simp [uidKey, keyMultiple, DbKey.num]
    omega

theorem ofNum_eq {n : UInt32} {k : DbKey} (h : DbKey.ofNum n = some k) : n = k.num := by
  unfold DbKey.ofNum at h
  split at h
  · next h1 =>
    cases h
    exact h1
  · split at h
    · next h2 =>
      cases h
      exact h2
    · cases h

/-! ## The player message -/

def FieldOk (s : Store) (uid : UInt64) (k : DbKey) (f : Field Info) : Prop :=
  Clean s (uidKey k.num uid) f.origin f.ver

def PlayerOk (s : Store) (p : PBDBMsg Info) : Prop :=
  ∀ k f, p.field k = some f → FieldOk s p.uid k f

/-- A part that is not there counts as an empty one. -/
theorem getD_fieldOk {s : Store} {p : PBDBMsg Info} (h : PlayerOk s p) (c : Codec Info)
    (k : DbKey) : FieldOk s p.uid k ((p.field k).getD ⟨c.empty k, none, none⟩) := by
  cases hf : p.field k with
  | none => trivial
  | some f => exact h k f hf

theorem mutate_ok {s : Store} {p : PBDBMsg Info} (h : PlayerOk s p) (c : Codec Info) (k : DbKey)
    (g : Info → Info) : PlayerOk s (p.mutate c k g) := by
  intro k' f hf
  by_cases hk : k' = k
  · subst hk
    simp only [PBDBMsg.mutate, Function.update_self, Option.some.injEq] at hf
    rw [← hf]
    exact getD_fieldOk h c k'
  · simp only [PBDBMsg.mutate, Function.update_of_ne hk] at hf
    exact h k' f hf

theorem editField_ok {s : Store} {p : PBDBMsg Info} (h : PlayerOk s p) (c : Codec Info)
    (edit : DbKey → Option (Info → Info)) (k : DbKey) : PlayerOk s (editField c edit p k) := by
  unfold editField
  split
  · exact h
  · exact mutate_ok h c k _

/-- What a handler writes into a player keeps its copies. -/
theorem editPlayer_ok {s : Store} {p : PBDBMsg Info} (h : PlayerOk s p) (c : Codec Info)
    (edit : DbKey → Option (Info → Info)) : PlayerOk s (editPlayer c edit p) :=
  editField_ok (editField_ok h c edit .baseInfo) c edit .moneyInfo

theorem editField_uid (c : Codec Info) (edit : DbKey → Option (Info → Info)) (p : PBDBMsg Info)
    (k : DbKey) : (editField c edit p k).uid = p.uid := by
  unfold editField
  split <;> rfl

theorem editPlayer_uid (c : Codec Info) (edit : DbKey → Option (Info → Info))
    (p : PBDBMsg Info) : (editPlayer c edit p).uid = p.uid := by
  rw [editPlayer, editField_uid, editField_uid]

/-- A part parsed from an entry is a copy of its row. -/
theorem constructDBMsg_ok {s : Store} {uid : UInt64} {c : Codec Info} {k : DbKey}
    {f f' : Field Info} {d : PBDBData} (hk : d.key = k.num) (hf : FieldOk s uid k f)
    (hd : DatumOk s uid d) (h : constructDBMsg c k f d = some f') : FieldOk s uid k f' := by
  rcases hd with ⟨hb, hv⟩ | ⟨b, v, hb, hv, hc⟩
  · simp only [constructDBMsg, hb, hv, Option.map_some, Option.some.injEq] at h
    rw [← h]
    exact hf
  · simp only [constructDBMsg, hb, hv, Option.map_map, Option.map_eq_some_iff,
      Function.comp_apply] at h
    obtain ⟨i, -, rfl⟩ := h
    rw [hk] at hc
    exact hc

theorem store_ok {s : Store} {p : PBDBMsg Info} (h : PlayerOk s p) {k : DbKey} {f : Field Info}
    (hf : FieldOk s p.uid k f) : PlayerOk s (p.store k f) := by
  intro k' f' hf'
  by_cases hk : k' = k
  · subst hk
    simp only [PBDBMsg.store, Function.update_self, Option.some.injEq] at hf'
    rw [← hf']
    exact hf
  · simp only [PBDBMsg.store, Function.update_of_ne hk] at hf'
    exact h k' f' hf'

/-- An answer makes every part of a player a copy. -/
theorem parseDBData_ok {s : Store} {c : Codec Info} {p p' : PBDBMsg Info} {ds : List PBDBData}
    (hp : PlayerOk s p) (hds : ∀ d ∈ ds, DatumOk s p.uid d) (h : parseDBData c p ds = some p') :
    PlayerOk s p' ∧ p'.uid = p.uid := by
  induction ds generalizing p with
  | nil =>
    cases h
    exact ⟨hp, rfl⟩
  | cons d ds ih =>
    unfold parseDBData at h
    split at h
    · cases h
    · next k hk =>
      split at h
      · cases h
      · next f hf =>
        have hfield := constructDBMsg_ok (ofNum_eq hk) (getD_fieldOk hp c k)
          (hds d (List.mem_cons_self ..)) hf
        have hnext := ih (store_ok hp hfield) (fun e he => hds e (List.mem_cons_of_mem _ he)) h
        exact hnext

/-- The parts with a set flag are copies, and what is collected is one version above copies. -/
structure SavingOk (s : Store) (uid : UInt64) (st : Saving Info) : Prop where
  same : st.player.uid = uid
  fields : ∀ k f, st.player.update k = true → st.player.field k = some f → FieldOk s uid k f
  items : ∀ d ∈ st.datas, ItemOk s uid d

/-- The item of a copy goes one version above it. -/
theorem addSaveData_item {s : Store} (hs : Small s) {uid : UInt64} {c : Codec Info} {k : DbKey}
    {f : Field Info} {a : Added Info} (hf : FieldOk s uid k f)
    (h : addSaveData c k f = some a) : ItemOk s uid a.data := by
  unfold addSaveData at h
  dsimp only at h
  split at h
  · cases h
  · cases h
    refine ⟨⟨k, rfl⟩, f.ver, hf, ?_⟩
    cases hv : f.ver with
    | none => rfl
    | some v =>
      rw [FieldOk, hv] at hf
      obtain ⟨r, hr, hle, -⟩ := hf
      have hlt := hs _ r hr
      simp only [PBDBData.version, Option.getD_some, Option.map_some, UInt32.toNat_add,
        UInt32.toNat_one]
      omega

/-- The loop over the keys collects items above copies. -/
theorem collectSaves_ok {s : Store} (hs : Small s) {uid : UInt64} {c : Codec Info}
    {ns : List UInt32} {st st' : Saving Info} (h : SavingOk s uid st)
    (hc : collectSaves c ns st = some st') : SavingOk s uid st' := by
  induction ns generalizing st with
  | nil =>
    cases hc
    exact h
  | cons n ns ih =>
    unfold collectSaves at hc
    split at hc
    · cases hc
    · next k hk =>
      split at hc
      · next hup =>
        have hfield : FieldOk s uid k ((st.player.field k).getD ⟨c.empty k, none, none⟩) := by
          cases hf : st.player.field k with
          | none => trivial
          | some f => exact h.fields k f hup hf
        split at hc
        · exact ih h hc
        · next a ha =>
          have hnext : SavingOk s uid ⟨st.player.store k a.field, st.datas ++ [a.data]⟩ := by
            refine ⟨h.same, ?_, ?_⟩
            · intro k' f hup' hf
              by_cases hkk : k' = k
              · subst hkk
                simp [PBDBMsg.store] at hup'
              · simp only [PBDBMsg.store, Function.update_of_ne hkk] at hup' hf
                exact h.fields k' f hup' hf
            · intro d hd
              rcases List.mem_append.mp hd with hd | hd
              · exact h.items d hd
              · rw [List.mem_singleton.mp hd]
                exact addSaveData_item hs hfield ha
          exact ih hnext hc
      · exact ih h hc

/-- Without a set flag nothing is collected. -/
theorem collectSaves_idle {c : Codec Info} {ns : List UInt32} {st st' : Saving Info}
    (h : ∀ k, st.player.update k = false) (hc : collectSaves c ns st = some st') : st' = st := by
  induction ns with
  | nil =>
    cases hc
    rfl
  | cons n ns ih =>
    unfold collectSaves at hc
    split at hc
    · cases hc
    · next k _ =>
      rw [h k] at hc
      exact ih hc

/-! ## Sessions -/

/-- A player's data in a session, apart from its versions. -/
structure ProcOk (p : PBDBProcInfo Info) : Prop where
  uid : p.uid.toNat < 2 ^ 32
  keys : ∀ n ∈ p.keys, ∃ k, n = DbKey.num k
  player : ∀ m, p.player = some m → m.uid = p.uid

/-- The players of a session that it may still save. -/
def CleanFrom (s : Store) (procs : List (PBDBProcInfo Info)) (i : Nat) : Prop :=
  ∀ j p m, i ≤ j → procs[j]? = some p → p.player = some m → PlayerOk s m

structure ProcsOk (procs : List (PBDBProcInfo Info)) : Prop where
  nodup : (procs.map PBDBProcInfo.uid).Nodup
  each : ∀ p ∈ procs, ProcOk p

/-- A session at rest. While it waits for the answer to a save, the current player is ahead of its
rows and must not be saved again. -/
structure SessionOk (s : Store) (t : Session Info) : Prop where
  procs : ProcsOk t.dbProcs
  clean : CleanFrom s t.dbProcs
    (if t.processState = .waitGetRsp then t.curProcIndex else t.curProcIndex + 1)

structure Ready (s : Store) (t : Session Info) : Prop where
  procs : ProcsOk t.dbProcs
  clean : CleanFrom s t.dbProcs t.curProcIndex

def Session.curUid (t : Session Info) : Option UInt64 :=
  (t.dbProcs[t.curProcIndex]?).map PBDBProcInfo.uid

def RequestOk (s : Store) : Request → Prop
  | .get r => r.uid.toNat < 2 ^ 32 ∧ ∀ d ∈ r.datas, ∃ k, d.key = DbKey.num k
  | .save r => r.uid.toNat < 2 ^ 32 ∧ ∀ d ∈ r.datas, ItemOk s r.uid d

def Request.saveUid : Request → Option UInt64
  | .get _ => none
  | .save r => some r.uid

/-- What a step of a session leaves and sends: at most one save, for the current player of a
session that waits for its answer. -/
structure OutcomeOk (s : Store) (o : Outcome Info) : Prop where
  session : ∀ t, o.session = some t → SessionOk s t
  sent : ∀ r ∈ o.sent, RequestOk s r
  saves : o.sent.filterMap Request.saveUid = [] ∨ ∃ u t, o.sent.filterMap Request.saveUid = [u] ∧
    o.session = some t ∧ t.processState = .waitSaveRsp ∧ t.curUid = some u

theorem CleanFrom.mono {s : Store} {procs : List (PBDBProcInfo Info)} {i j : Nat}
    (h : CleanFrom s procs i) (hij : i ≤ j) : CleanFrom s procs j :=
  fun n p m hn => h n p m (Nat.le_trans hij hn)

theorem Ready.sessionOk {s : Store} {t : Session Info} (h : Ready s t) : SessionOk s t := by
  refine ⟨h.procs, h.clean.mono ?_⟩
  split
  · exact Nat.le_refl _
  · exact Nat.le_succ _

theorem released_ok (s : Store) : OutcomeOk s (Outcome.released : Outcome Info) :=
  ⟨fun _ h => (nomatch h), fun _ h => (nomatch h), .inl rfl⟩

theorem idle_ok {s : Store} {t : Session Info} (h : SessionOk s t) :
    OutcomeOk s ⟨some t, []⟩ :=
  ⟨fun _ ht => Option.some.inj ht ▸ h, fun _ h => (nomatch h), .inl rfl⟩

theorem getAllData_ok {s : Store} {t : Session Info} (h : Ready s t) :
    OutcomeOk s (getAllData t) := by
  unfold getAllData
  dsimp only
  split
  · exact released_ok s
  · refine ⟨?_, ?_, .inl ?_⟩
    · intro t' ht
      cases ht
      exact Ready.sessionOk ⟨h.procs, h.clean⟩
    · intro r hr
      obtain ⟨p, hp, rfl⟩ := List.mem_map.mp hr
      have hok := h.procs.each p (List.mem_of_mem_filter hp)
      refine ⟨hok.uid, fun d hd => ?_⟩
      obtain ⟨n, hn, rfl⟩ := List.mem_map.mp hd
      exact hok.keys n hn
    · rw [List.filterMap_map]
      exact List.filterMap_eq_nil_iff.mpr fun _ _ => rfl

/-- Replacing one player keeps the uids. -/
theorem set_uids {procs : List (PBDBProcInfo Info)} {i : Nat} {p : PBDBProcInfo Info}
    (hp : procs[i]? = some p) (player : Option (PBDBMsg Info)) :
    (procs.set i { p with player := player }).map PBDBProcInfo.uid =
      procs.map PBDBProcInfo.uid := by
  obtain ⟨hi, he⟩ := List.getElem?_eq_some_iff.mp hp
  rw [List.map_set]
  apply List.ext_getElem (by simp)
  intro j hj hj'
  by_cases hij : i = j
  · subst hij
    simp [he]
  · simp [hij]

theorem ProcsOk.set {procs : List (PBDBProcInfo Info)} (h : ProcsOk procs) {i : Nat}
    {p : PBDBProcInfo Info} (hp : procs[i]? = some p) {m : PBDBMsg Info} (hm : m.uid = p.uid) :
    ProcsOk (procs.set i { p with player := some m }) := by
  constructor
  · rw [set_uids hp]
    exact h.nodup
  · intro q hq
    rcases List.mem_or_eq_of_mem_set hq with hq | rfl
    · exact h.each q hq
    · have hok := h.each p (List.mem_of_getElem? hp)
      exact ⟨hok.uid, hok.keys, fun m' hm' => by cases hm'; exact hm⟩

/-- A session that is ready sends one save, for its current player. -/
theorem saveOneData_ok {s : Store} (hs : Small s) {c : Codec Info} {t : Session Info}
    (h : Ready s t) : OutcomeOk s (saveOneData c t) := by
  unfold saveOneData
  split
  · exact released_ok s
  · next p hp =>
    have hproc := h.procs.each p (List.mem_of_getElem? hp)
    split
    · exact released_ok s
    · next st hst =>
      split
      · exact released_ok s
      · next hne =>
        have hstart : SavingOk s (p.player.getD ⟨0, fun _ => none, fun _ => false⟩).uid
            ⟨p.player.getD ⟨0, fun _ => none, fun _ => false⟩, []⟩ := by
          refine ⟨rfl, fun k f _ hf => ?_, fun d hd => (nomatch hd)⟩
          cases hpl : p.player with
          | none =>
            rw [hpl] at hf
            cases hf
          | some m =>
            rw [hpl] at hf
            exact h.clean _ p m (Nat.le_refl _) hp hpl k f hf
        have hend := collectSaves_ok hs hstart hst
        cases hpl : p.player with
        | none =>
          rw [hpl] at hst
          have hidle := collectSaves_idle (fun _ => rfl) hst
          rw [hidle] at hne
          exact absurd rfl hne
        | some m =>
          have hm := hproc.player m hpl
          rw [hpl, Option.getD_some, hm] at hend
          refine ⟨?_, ?_, .inr ⟨st.player.uid, _, rfl, rfl, rfl, ?_⟩⟩
          · intro t' ht
            cases ht
            refine ⟨h.procs.set hp hend.same, ?_⟩
            intro j q m' hj hq hm'
            have hj : t.curProcIndex + 1 ≤ j := hj
            have hne : t.curProcIndex ≠ j := by omega
            rw [List.getElem?_set_ne hne] at hq
            exact h.clean j q m' (by omega) hq hm'
          · intro r hr
            rw [List.mem_singleton.mp hr]
            refine ⟨by rw [hend.same]; exact hproc.uid, fun d hd => ?_⟩
            rw [hend.same]
            exact hend.items d hd
          · obtain ⟨hi, -⟩ := List.getElem?_eq_some_iff.mp hp
            simp [Session.curUid, hi, hend.same]

/-! ## Handlers keep copies clean -/

theorem editProcs_getElem? (c : Codec Info) (edit : Nat → DbKey → Option (Info → Info))
    (procs : List (PBDBProcInfo Info)) (i : Nat) :
    (editProcs c edit procs)[i]? = (procs[i]?).map fun p =>
      { p with player := p.player.map (editPlayer c (edit i)) } := by
  simp [editProcs]

theorem editProcs_uids (c : Codec Info) (edit : Nat → DbKey → Option (Info → Info))
    (procs : List (PBDBProcInfo Info)) :
    (editProcs c edit procs).map PBDBProcInfo.uid = procs.map PBDBProcInfo.uid := by
  apply List.ext_getElem?
  intro i
  rw [List.getElem?_map, editProcs_getElem?, List.getElem?_map, Option.map_map]
  rfl

theorem ProcsOk.edit {procs : List (PBDBProcInfo Info)} (h : ProcsOk procs) (c : Codec Info)
    (edit : Nat → DbKey → Option (Info → Info)) : ProcsOk (editProcs c edit procs) := by
  constructor
  · rw [editProcs_uids]
    exact h.nodup
  · intro q hq
    obtain ⟨i, hi⟩ := List.mem_iff_getElem?.mp hq
    rw [editProcs_getElem?, Option.map_eq_some_iff] at hi
    obtain ⟨p, hp, rfl⟩ := hi
    have hok := h.each p (List.mem_of_getElem? hp)
    refine ⟨hok.uid, hok.keys, fun m hm => ?_⟩
    obtain ⟨m', hm', rfl⟩ := Option.map_eq_some_iff.mp hm
    rw [editPlayer_uid]
    exact hok.player m' hm'

theorem CleanFrom.edit {s : Store} {procs : List (PBDBProcInfo Info)} {i : Nat}
    (h : CleanFrom s procs i) (c : Codec Info) (edit : Nat → DbKey → Option (Info → Info)) :
    CleanFrom s (editProcs c edit procs) i := by
  intro j q m hj hq hm
  rw [editProcs_getElem?, Option.map_eq_some_iff] at hq
  obtain ⟨p, hp, rfl⟩ := hq
  obtain ⟨m', hm', rfl⟩ := Option.map_eq_some_iff.mp hm
  exact editPlayer_ok (h j p m' hj hp hm') c (edit j)

/-- `OnProcessData` leaves a session ready. -/
theorem Ready.processed {s : Store} {t : Session Info} (h : Ready s t) (c : Codec Info)
    (hd : Handler Info) : Ready s (processed c hd t) :=
  ⟨h.procs.edit c _, h.clean.edit c _⟩

/-- From a session whose current player may be saved, every result of a handler is handled well. -/
theorem proceed_ok {s : Store} (hs : Small s) {c : Codec Info} {hd : Handler Info}
    {t : Session Info} (h : Ready s t) (r : HandlerResult) : OutcomeOk s (proceed c hd t r) := by
  induction t, r using proceed.induct c hd with
  | case1 t =>
    rw [proceed]
    exact getAllData_ok h
  | case2 t =>
    rw [proceed]
    exact saveOneData_ok hs h
  | case3 t =>
    rw [proceed]
    exact released_ok s
  | case4 t =>
    rw [proceed]
    exact released_ok s
  | case5 t =>
    rw [proceed]
    exact idle_ok h.sessionOk
  | case6 t t' hlt ih =>
    rw [proceed]
    simp only [if_pos hlt]
    have hnext : Ready s t' := ⟨h.procs, h.clean.mono (Nat.le_succ _)⟩
    exact ih (hnext.processed c hd)
  | case7 t hlt =>
    rw [proceed]
    simp only [if_neg hlt]
    exact released_ok s

/-- Going on to the next player needs nothing of the current one. -/
theorem proceed_next_ok {s : Store} (hs : Small s) {c : Codec Info} {hd : Handler Info}
    {t : Session Info} (h : SessionOk s t) : OutcomeOk s (proceed c hd t .next) := by
  rw [proceed]
  split
  · have hclean : CleanFrom s t.dbProcs (t.curProcIndex + 1) := by
      refine h.clean.mono ?_
      split
      · exact Nat.le_succ _
      · exact Nat.le_refl _
    have hnext : Ready s { t with curProcIndex := t.curProcIndex + 1 } := ⟨h.procs, hclean⟩
    exact proceed_ok hs (hnext.processed c hd) _
  · exact released_ok s

/-! ## Answers -/

def ResponseOk (s : Store) (r : Response) : Prop := ∀ d ∈ r.datas, DatumOk s r.uid d

theorem getDBProcIndex_some {procs : List (PBDBProcInfo Info)} {uid : UInt64} {i : Nat}
    (h : getDBProcIndex procs uid = some i) : ∃ p, procs[i]? = some p ∧ p.uid = uid := by
  obtain ⟨hi, hp, -⟩ := List.findIdx?_eq_some_iff_getElem.mp h
  exact ⟨procs[i], List.getElem?_eq_getElem hi, of_decide_eq_true hp⟩

theorem index_unique {procs : List (PBDBProcInfo Info)} (h : (procs.map PBDBProcInfo.uid).Nodup)
    {i j : Nat} {p q : PBDBProcInfo Info} (hp : procs[i]? = some p) (hq : procs[j]? = some q)
    (huid : p.uid = q.uid) : i = j := by
  obtain ⟨hi, rfl⟩ := List.getElem?_eq_some_iff.mp hp
  obtain ⟨hj, rfl⟩ := List.getElem?_eq_some_iff.mp hq
  have hi' : i < (procs.map PBDBProcInfo.uid).length := by simpa using hi
  have hj' : j < (procs.map PBDBProcInfo.uid).length := by simpa using hj
  have heq : (procs.map PBDBProcInfo.uid)[i] = (procs.map PBDBProcInfo.uid)[j] := by
    simpa using huid
  exact h.getElem_inj_iff.mp heq

/-- The player parsed from an answer is copied over the one of its uid. -/
theorem reload_cases {c : Codec Info} {t t' : Session Info} {r : Response}
    (h : reload c t r = some t') :
    ∃ i p m, getDBProcIndex t.dbProcs r.uid = some i ∧ t.dbProcs[i]? = some p ∧ p.uid = r.uid ∧
      parseDBData c ⟨r.uid, fun _ => none, fun _ => false⟩ r.datas = some m ∧
      t' = { t with
        dbProcs := t.dbProcs.set i { p with player := some (PBDBMsg.copyFrom p.player m) } } := by
  unfold reload at h
  split at h
  · cases h
  · next m hm =>
    split at h
    · cases h
    · next i hi =>
      obtain ⟨p, hpi, hpu⟩ := getDBProcIndex_some hi
      cases h
      refine ⟨i, p, m, hi, hpi, hpu, hm, ?_⟩
      rw [List.modify_eq_set_getElem?, hpi]
      rfl

/-- The answer's player replaces one player, and is a copy of the rows. -/
theorem reload_ok {s : Store} {c : Codec Info} {t t' : Session Info} {r : Response}
    (hr : ResponseOk s r) (h : reload c t r = some t') :
    ∃ i p m, getDBProcIndex t.dbProcs r.uid = some i ∧ t.dbProcs[i]? = some p ∧ p.uid = r.uid ∧
      m.uid = p.uid ∧ PlayerOk s m ∧
      t' = { t with dbProcs := t.dbProcs.set i { p with player := some m } } := by
  obtain ⟨i, p, m, hi, hpi, hpu, hm, rfl⟩ := reload_cases h
  obtain ⟨hok, huid⟩ := parseDBData_ok (p := ⟨r.uid, fun _ => none, fun _ => false⟩)
    (fun k f hf => (nomatch hf)) hr hm
  exact ⟨i, p, PBDBMsg.copyFrom p.player m, hi, hpi, hpu, huid.trans hpu.symm, hok, rfl⟩

theorem CleanFrom.set {s : Store} {procs : List (PBDBProcInfo Info)} {i j : Nat}
    (h : CleanFrom s procs i) {p : PBDBProcInfo Info} {m : PBDBMsg Info} (hm : PlayerOk s m) :
    CleanFrom s (procs.set j { p with player := some m }) i := by
  intro n q m' hn hq hm'
  by_cases hnj : j = n
  · subst hnj
    rw [List.getElem?_set_self'] at hq
    obtain ⟨q', -, rfl⟩ := Option.map_eq_some_iff.mp hq
    cases hm'
    exact hm
  · rw [List.getElem?_set_ne hnj] at hq
    exact h n q m' hn hq hm'

/-- The answer to a get leads to a session at rest, or to its save. -/
theorem getResponse_ok {s : Store} (hs : Small s) {c : Codec Info} {hd : Handler Info}
    {t : Session Info} {r : Response} (h : SessionOk s t) (hw : t.processState = .waitGetRsp)
    (hr : ResponseOk s r) : OutcomeOk s (getResponse c hd t r) := by
  have hclean : CleanFrom s t.dbProcs t.curProcIndex := by
    have := h.clean
    rwa [if_pos hw] at this
  unfold getResponse
  split
  · split
    · exact released_ok s
    · next t' ht =>
      obtain ⟨i, p, m, -, hpi, -, hm, hok, rfl⟩ := reload_ok hr ht
      have hready : Ready s { t with
          dbProcs := t.dbProcs.set i { p with player := some m } } :=
        ⟨h.procs.set hpi hm, hclean.set hok⟩
      split
      · exact proceed_ok hs (hready.processed c hd) _
      · exact idle_ok hready.sessionOk
  · exact released_ok s

/-- A conflict is answered with the data of the current player, which replaces it. -/
theorem saveResponse_ok {s : Store} (hs : Small s) {c : Codec Info} {hd : Handler Info}
    {t : Session Info} {r : Response} (h : SessionOk s t) (hcur : t.curUid = some r.uid)
    (hr : ResponseOk s r) : OutcomeOk s (saveResponse c hd t r) := by
  unfold saveResponse
  split
  · split
    · exact proceed_next_ok hs h
    · rw [proceed]
      exact released_ok s
  · dsimp only
    split
    · exact released_ok s
    · split
      · exact released_ok s
      · next t' ht =>
        obtain ⟨i, p, m, -, hpi, hpu, hm, hok, rfl⟩ :=
          reload_ok (t := { t with redoCount := t.redoCount + 1 }) hr ht
        have hi : t.curProcIndex = i := by
          obtain ⟨q, hq, hqu⟩ := Option.map_eq_some_iff.mp hcur
          exact index_unique h.procs.nodup hq hpi (hqu.trans hpu.symm)
        have hclean : CleanFrom s (t.dbProcs.set i { p with player := some m })
            t.curProcIndex := by
          intro n q m' hn hq hm'
          by_cases hni : i = n
          · subst hni
            rw [List.getElem?_set_self'] at hq
            obtain ⟨q', -, rfl⟩ := Option.map_eq_some_iff.mp hq
            cases hm'
            exact hok
          · rw [List.getElem?_set_ne hni] at hq
            refine h.clean n q m' ?_ hq hm'
            split <;> omega
        have hready : Ready s { t with
            redoCount := t.redoCount + 1
            dbProcs := t.dbProcs.set i { p with player := some m } } :=
          ⟨h.procs.set hpi hm, hclean⟩
        exact proceed_ok hs (hready.processed c hd) _
  · exact released_ok s

def ReplyOk (s : Store) : Reply → Prop
  | .get r => ResponseOk s r
  | .save r => ResponseOk s r

def Reply.saveUid : Reply → Option UInt64
  | .get _ => none
  | .save r => some r.uid

/-- So does any answer that the session waits for. -/
theorem process_ok {s : Store} (hs : Small s) {c : Codec Info} {hd : Handler Info}
    {t : Session Info} {r : Reply} (h : SessionOk s t) (hr : ReplyOk s r)
    (hcur : ∀ u, r.saveUid = some u → t.curUid = some u) : OutcomeOk s (process c hd t r) := by
  unfold process
  split
  · split
    · next hw => exact getResponse_ok hs h hw hr
    · exact released_ok s
  · split
    · exact saveResponse_ok hs h (hcur _ rfl) hr
    · exact released_ok s

/-! ## The database proxy -/

/-- What a `select` answers are copies of rows. -/
theorem wrapResponseGet_ok {s : Store} {uid : UInt64} (huid : uid.toNat < 2 ^ 32)
    {request : List PBDBData} (hkeys : ∀ d ∈ request, ∃ k, d.key = DbKey.num k) :
    ∀ d ∈ wrapResponseGet (selectRows s (tableOf uid) (request.map fun d => uidKey d.key uid))
      request, DatumOk s uid d := by
  intro d hd
  rcases List.mem_append.mp hd with hd | hd
  · obtain ⟨⟨n, row⟩, hrow, rfl⟩ := List.mem_map.mp hd
    obtain ⟨n', hn', hsel⟩ := List.mem_filterMap.mp hrow
    obtain ⟨row', hrow', heq⟩ := Option.map_eq_some_iff.mp hsel
    cases heq
    obtain ⟨e, he, rfl⟩ := List.mem_map.mp (List.mem_eraseDups.mp hn')
    obtain ⟨k, hk⟩ := hkeys e he
    rw [hk] at hrow'
    have hkey : (rowData (uidKey e.key uid, row)).key = k.num := by
      rw [hk]
      exact uidKey_div huid
    refine .inr ⟨row.blob, row.ver, rfl, rfl, row, ?_, Nat.le_refl _, fun _ => rfl⟩
    rw [hkey, Store.row, uidKey_table]
    exact hrow'
  · obtain ⟨e, -, rfl⟩ := List.mem_map.mp hd
    exact .inl ⟨rfl, rfl⟩

/-- The database answers a get with copies of rows. -/
theorem handleGet_ok {s : Store} {r : GetRequest} (h : RequestOk s (.get r)) (fails : Bool) :
    ResponseOk s (handleGet s r fails) := by
  unfold handleGet getDoRequest
  split
  · next datas hd =>
    split at hd
    · cases hd
    · cases hd
      exact wrapResponseGet_ok h.1 h.2
  · exact fun d hd => (nomatch hd)

/-- Every stored version is at least one: rows are created by saves. -/
def Positive (s : Store) : Prop := ∀ k r, s.row k = some r → 1 ≤ r.ver.toNat

/-- An accepted item on an existing row is one version above it and was computed from it. -/
theorem accepted_item {s : Store} (hc : Coherent s) (hs : Small s) (hp : Positive s)
    {uid : UInt64} (huid : uid.toNat < 2 ^ 32) {d : PBDBData} (hd : ItemOk s uid d) {b : Bool}
    (hok : checkItem s uid d b = .ok) {r : Row} (hr : s.row (saveKey uid d) = some r) :
    d.version.toNat = r.ver.toNat + 1 ∧ d.origin = some r.blob := by
  have hver := (sub_one_eq_iff (hs _ r hr)).mp ((checkItem_eq hc hok hr).1 rfl)
  obtain ⟨ver, hclean, hv⟩ := hd.copy
  refine ⟨hver, ?_⟩
  cases ver with
  | none =>
    -- a copy without a version is saved as version one, below every row
    have := hp _ r hr
    simp only [Option.map_none, Option.getD_none] at hv
    omega
  | some v =>
    obtain ⟨r', hr', -, ho⟩ := hclean
    rw [← saveKey_eq huid, hr] at hr'
    cases hr'
    refine ho (UInt32.toNat_inj.mp ?_)
    simp only [Option.map_some, Option.getD_some] at hv
    omega

/-- What an accepted save leaves of a row that existed. -/
theorem accepted_row {s : Store} (hc : Coherent s) (hs : Small s) (hp : Positive s)
    {r : SaveRequest} (hr : RequestOk s (.save r)) {f : SqlFailures}
    (hok : checkVersion s r.uid f.check 0 r.datas = .ok)
    (hsucc : (saveDoRequest s r.uid f.replace 0 r.datas).success = true) {k : UInt64} {row : Row}
    (hrow : s.row k = some row) :
    ((∀ d ∈ r.datas, saveKey r.uid d ≠ k) ∧
      (saveDoRequest s r.uid f.replace 0 r.datas).store.row k = some row) ∨
    ∃ d ∈ r.datas, saveKey r.uid d = k ∧
      (saveDoRequest s r.uid f.replace 0 r.datas).store.row k = some ⟨d.bytes, d.version⟩ ∧
      d.version.toNat = row.ver.toNat + 1 ∧ d.origin = some row.blob := by
  rw [saveDoRequest_row, written_of_success hsucc]
  cases hl : lastFor r.uid k r.datas with
  | none =>
    refine .inl ⟨fun d hd hk => ?_, by simpa using hrow⟩
    have := @lastFor_isSome r.uid _ _ hd
    rw [hk, hl] at this
    cases this
  | some d =>
    obtain ⟨hmem, hk⟩ := mem_of_lastFor hl
    obtain ⟨b, hb⟩ := checkVersion_ok hok d hmem
    rw [← hk] at hrow
    exact .inr ⟨d, hmem, hk, rfl, accepted_item hc hs hp hr.1 (hr.2 d hmem) hb hrow⟩

/-- A store in which versions are in use, with a cache that can be trusted. -/
structure StoreOk (s : Store) : Prop where
  coherent : Coherent s
  small : Small s
  positive : Positive s

/-- The response names the player of the request. -/
theorem handleSave_uid {s : Store} {r : SaveRequest} {f : SqlFailures} {o : Handled}
    (ho : handleSave s r f = o) : o.response.uid = r.uid := by
  unfold handleSave at ho
  split at ho
  · dsimp only at ho
    split at ho
    · cases ho
      rfl
    · cases ho
      rfl
  · cases ho
    rfl
  · cases ho
    rfl

theorem saveDoRequest_positive {s : Store} (hp : Positive s) {r : SaveRequest}
    (hr : RequestOk s (.save r)) :
    Positive (saveDoRequest s r.uid SqlFailures.never.replace 0 r.datas).store := by
  intro k row hk
  rw [saveDoRequest_row, written_never] at hk
  cases hl : lastFor r.uid k r.datas with
  | none =>
    rw [hl] at hk
    exact hp k row hk
  | some d =>
    rw [hl, Option.map_some, Option.some_or, Option.some.injEq] at hk
    obtain ⟨ver, -, hv⟩ := (hr.2 d (mem_of_lastFor hl).1).copy
    rw [← hk]
    exact hv ▸ Nat.le_add_left 1 _

/-- An accepted save that meets no failure is answered without data. -/
theorem handleSave_accepted_datas {s : Store} {r : SaveRequest} {f : SqlFailures} {o : Handled}
    (ho : handleSave s r f = o) (hok : checkVersion s r.uid f.check 0 r.datas = .ok)
    (hsucc : (saveDoRequest s r.uid f.replace 0 r.datas).success = true) :
    o.response.datas = [] := by
  unfold handleSave at ho
  rw [hok] at ho
  simp only [hsucc, if_true] at ho
  rw [← ho]

/-- A refused save is answered with stored rows. -/
theorem handleSave_refused_datas {s : Store} {r : SaveRequest} (hr : RequestOk s (.save r))
    {f : SqlFailures} {o : Handled} (ho : handleSave s r f = o)
    (hres : checkVersion s r.uid f.check 0 r.datas = o.response.result)
    (hne : o.response.result ≠ .ok) : ∀ d ∈ o.response.datas, DatumOk s r.uid d := by
  cases hresult : o.response.result with
  | ok => exact absurd hresult hne
  | error =>
    rw [hresult] at hres
    rw [← ho, handleSave, hres]
    exact fun d hd => absurd hd List.not_mem_nil
  | verDiffer =>
    rw [hresult] at hres
    rw [← ho, handleSave, hres]
    intro d hd
    have hd' : d ∈ (getDoRequest s (tableOf r.uid) r.uid r.datas f.refetch).getD [] := hd
    unfold getDoRequest at hd'
    split at hd'
    · cases hd'
    · exact wrapResponseGet_ok hr.1 (fun e he => (hr.2 e he).key) d hd'

/-- A save makes rows newer and is answered with copies. -/
theorem handleSave_ok {s : Store} (h : StoreOk s) {r : SaveRequest} (hr : RequestOk s (.save r))
    (hver : ∀ d ∈ r.datas, d.version.toNat < 2 ^ 31) {o : Handled}
    (ho : handleSave s r .never = o) :
    StoreOk o.store ∧ Grows s o.store ∧ ResponseOk o.store o.response ∧ o.response.uid = r.uid := by
  have hinv := handleSave_inv h.coherent h.small
    ⟨hver, fun _ hne => absurd (written_never 0 r.datas) hne⟩ ho
  have huid := handleSave_uid ho
  have hsucc : (saveDoRequest s r.uid SqlFailures.never.replace 0 r.datas).success = true :=
    success_of_written (written_never 0 r.datas)
  rcases handleSave_cases ho with ⟨hok, -, -, hst⟩ | ⟨-, -, hfail, -⟩ | ⟨hst, hne, hres⟩
  · have hrow : ∀ k, o.store.row k =
        (saveDoRequest s r.uid SqlFailures.never.replace 0 r.datas).store.row k := by
      intro k
      rw [hst, saveToCache_row]
    refine ⟨⟨hinv.1, hinv.2, ?_⟩, ?_, ?_, huid⟩
    · intro k row hk
      rw [hrow] at hk
      exact saveDoRequest_positive h.positive hr k row hk
    · intro k row hk
      rw [hrow]
      rcases accepted_row h.coherent h.small h.positive hr hok hsucc hk with
        ⟨-, hsame⟩ | ⟨d, -, -, hnew, hup, -⟩
      · exact ⟨row, hsame, .inl rfl⟩
      · exact ⟨_, hnew, .inr (by simp only; omega)⟩
    · intro d hd
      rw [handleSave_accepted_datas ho hok hsucc] at hd
      cases hd
  · rw [hsucc] at hfail
    cases hfail
  · refine ⟨⟨hinv.1, hinv.2, hst ▸ h.positive⟩, hst ▸ Grows.refl s, ?_, huid⟩
    intro d hd
    rw [hst, huid]
    exact handleSave_refused_datas hr ho hres hne d hd

/-! ## The system -/

inductive Body where
  | request (r : Request)
  | reply (r : Reply)

/-- A message in flight, with the session it comes from or goes to. -/
structure Msg where
  sid : Nat
  body : Body

def Body.saveUid : Body → Option UInt64
  | .request r => r.saveUid
  | .reply r => r.saveUid

/-- The database proxy, the sessions of all servers, and the messages in flight. Sessions are
numbered in the order of their creation. -/
structure System (Info : Type) where
  store : Store
  sessions : Nat → Option (Session Info)
  created : Nat
  net : List Msg

inductive SysEvent where
  /-- A session starts and asks for its data. -/
  | start
  /-- The database proxy handles a request. -/
  | handle (m : Msg)
  /-- An answer reaches its session, if that still exists. -/
  | deliver (m : Msg)
  | drop (m : Msg)
  /-- A session times out. -/
  | release (sid : Nat)
  /-- The database proxy restarts with an empty cache. -/
  | restart

structure Answer where
  store : Store
  reply : Reply

/-- The database proxy on a request, with every statement succeeding. -/
def answer (s : Store) : Request → Answer
  | .get r => ⟨s, .get (handleGet s r false)⟩
  | .save r => ⟨(handleSave s r .never).store, .save (handleSave s r .never).response⟩

def sentBy (sid : Nat) (rs : List Request) : List Msg := rs.map fun r => ⟨sid, .request r⟩

def System.update (sys : System Info) (sid : Nat) (net : List Msg) (o : Outcome Info) :
    System Info :=
  { sys with
    sessions := Function.update sys.sessions sid o.session
    net := net ++ sentBy sid o.sent }

/-- Messages are taken out of the network in any order. -/
inductive SysStep (c : Codec Info) (handlers : Nat → Handler Info) (sys : System Info) :
    SysEvent → System Info → Prop
  | start : SysStep c handlers sys .start
      { sys.update sys.created sys.net (start (handlers sys.created)) with
        created := sys.created + 1 }
  | handle {pre post : List Msg} {sid : Nat} {r : Request} {a : Answer}
      (hnet : sys.net = pre ++ ⟨sid, .request r⟩ :: post) (ha : answer sys.store r = a) :
      SysStep c handlers sys (.handle ⟨sid, .request r⟩)
        { sys with store := a.store, net := pre ++ ⟨sid, .reply a.reply⟩ :: post }
  | deliver {pre post : List Msg} {sid : Nat} {r : Reply} {t : Session Info}
      (hnet : sys.net = pre ++ ⟨sid, .reply r⟩ :: post) (ht : sys.sessions sid = some t) :
      SysStep c handlers sys (.deliver ⟨sid, .reply r⟩)
        (sys.update sid (pre ++ post) (process c (handlers sid) t r))
  | drop {pre post : List Msg} {m : Msg} (hnet : sys.net = pre ++ m :: post) :
      SysStep c handlers sys (.drop m) { sys with net := pre ++ post }
  | release (sid : Nat) : SysStep c handlers sys (.release sid)
      { sys with sessions := Function.update sys.sessions sid none }
  | restart : SysStep c handlers sys .restart
      { sys with store := { sys.store with cache := fun _ => none } }

def SysGuard (handlers : Nat → Handler Info) (sys : System Info) : SysEvent → Prop
  | .start => ∀ k ∈ (handlers sys.created).keys, k.1.toNat < 2 ^ 32
  | .handle ⟨_, .request (.save r)⟩ => ∀ d ∈ r.datas, d.version.toNat < 2 ^ 31
  | _ => True

def BodyOk (s : Store) : Body → Prop
  | .request r => RequestOk s r
  | .reply r => ReplyOk s r

def savesFor (sid : Nat) (net : List Msg) : List UInt64 :=
  net.filterMap fun m => if m.sid = sid then m.body.saveUid else none

/-- A session has at most one save in flight, and waits for it. -/
def SavesOk (sys : System Info) (sid : Nat) (us : List UInt64) : Prop :=
  us = [] ∨ ∃ u, us = [u] ∧
    ∀ t, sys.sessions sid = some t → t.processState = .waitSaveRsp ∧ t.curUid = some u

structure SystemOk (sys : System Info) : Prop where
  store : StoreOk sys.store
  net : ∀ m ∈ sys.net, m.sid < sys.created ∧ BodyOk sys.store m.body
  sessions : ∀ sid t, sys.sessions sid = some t → sid < sys.created ∧ SessionOk sys.store t
  saves : ∀ sid, SavesOk sys sid (savesFor sid sys.net)

/-! ## Steps of the system -/

theorem RequestOk.grow {s s' : Store} (hg : Grows s s') {r : Request} (h : RequestOk s r) :
    RequestOk s' r := by
  cases r with
  | get r => exact h
  | save r => exact ⟨h.1, fun d hd => (h.2 d hd).grow hg⟩

theorem BodyOk.grow {s s' : Store} (hg : Grows s s') {b : Body} (h : BodyOk s b) :
    BodyOk s' b := by
  cases b with
  | request r => exact RequestOk.grow hg h
  | reply r =>
    cases r with
    | get r => exact fun d hd => (h d hd).grow hg
    | save r => exact fun d hd => (h d hd).grow hg

/-- Sessions do not notice rows that get newer. -/
theorem SessionOk.grow {s s' : Store} (hg : Grows s s') {t : Session Info} (h : SessionOk s t) :
    SessionOk s' t :=
  ⟨h.procs, fun j p m hj hp hm k f hf => (h.clean j p m hj hp hm k f hf).grow hg⟩

theorem addDBGetKey_uids (procs : List (PBDBProcInfo Info)) (uid : UInt64) (key : UInt32) :
    (addDBGetKey procs uid key).map PBDBProcInfo.uid =
      if uid ∈ procs.map PBDBProcInfo.uid then procs.map PBDBProcInfo.uid
      else procs.map PBDBProcInfo.uid ++ [uid] := by
  induction procs with
  | nil => rfl
  | cons p ps ih =>
    unfold addDBGetKey
    by_cases hp : p.uid = uid
    · have hmem : uid ∈ (p :: ps).map PBDBProcInfo.uid := by
        rw [← hp]
        exact List.mem_cons_self ..
      rw [if_pos hp, if_pos hmem, List.map_cons, List.map_cons]
      split <;> rfl
    · rw [if_neg hp, List.map_cons, List.map_cons, ih]
      have hne : uid ≠ p.uid := fun h => hp h.symm
      by_cases hmem : uid ∈ ps.map PBDBProcInfo.uid
      · rw [if_pos hmem, if_pos (List.mem_cons_of_mem _ hmem)]
      · rw [if_neg hmem, if_neg (by simp only [List.mem_cons, not_or]; exact ⟨hne, hmem⟩)]
        rfl

/-- Players of a new session, which have no data yet. -/
structure Blank (p : PBDBProcInfo Info) : Prop where
  ok : ProcOk p
  missing : p.player = none

/-- An entry behind `AddDBGetKey` is one from before, one with the key added, or a new one. -/
theorem addDBGetKey_cases {procs : List (PBDBProcInfo Info)} {uid : UInt64} {key : UInt32}
    {p : PBDBProcInfo Info} (hp : p ∈ addDBGetKey procs uid key) :
    p ∈ procs ∨ (∃ q ∈ procs, key ∉ q.keys ∧ p = { q with keys := q.keys ++ [key] }) ∨
      p = ⟨uid, [key], none⟩ := by
  induction procs with
  | nil => exact .inr (.inr (List.mem_singleton.mp hp))
  | cons q qs ih =>
    rw [addDBGetKey] at hp
    split at hp
    · rcases List.mem_cons.mp hp with rfl | hp
      · split
        · exact .inl (List.mem_cons_self ..)
        · next hnew => exact .inr (.inl ⟨q, List.mem_cons_self .., hnew, rfl⟩)
      · exact .inl (List.mem_cons_of_mem _ hp)
    · rcases List.mem_cons.mp hp with rfl | hp
      · exact .inl (List.mem_cons_self ..)
      · rcases ih hp with hold | ⟨r, hr, hadded⟩ | hnew
        · exact .inl (List.mem_cons_of_mem _ hold)
        · exact .inr (.inl ⟨r, List.mem_cons_of_mem _ hr, hadded⟩)
        · exact .inr (.inr hnew)

theorem addDBGetKey_blank {procs : List (PBDBProcInfo Info)} (h : ∀ p ∈ procs, Blank p)
    {uid : UInt64} (huid : uid.toNat < 2 ^ 32) (k : DbKey) :
    ∀ p ∈ addDBGetKey procs uid k.num, Blank p := by
  intro p hp
  rcases addDBGetKey_cases hp with hold | ⟨q, hq, -, rfl⟩ | rfl
  · exact h p hold
  · refine ⟨⟨(h q hq).ok.uid, fun n hn => ?_, (h q hq).ok.player⟩, (h q hq).missing⟩
    rcases List.mem_append.mp hn with hn | hn
    · exact (h q hq).ok.keys n hn
    · exact ⟨k, List.mem_singleton.mp hn⟩
  · exact ⟨⟨huid, fun n hn => ⟨k, List.mem_singleton.mp hn⟩, fun m hm => (nomatch hm)⟩, rfl⟩

theorem startProcs_ok {keys : List (UInt64 × DbKey)} (hk : ∀ k ∈ keys, k.1.toNat < 2 ^ 32)
    {procs : List (PBDBProcInfo Info)} (hn : (procs.map PBDBProcInfo.uid).Nodup)
    (hb : ∀ p ∈ procs, Blank p) :
    ((keys.foldl (fun ps k => addDBGetKey ps k.1 k.2.num) procs).map PBDBProcInfo.uid).Nodup ∧
      ∀ p ∈ keys.foldl (fun ps k => addDBGetKey ps k.1 k.2.num) procs, Blank p := by
  induction keys generalizing procs with
  | nil => exact ⟨hn, hb⟩
  | cons k ks ih =>
    refine ih (fun e he => hk e (List.mem_cons_of_mem _ he)) ?_
      (addDBGetKey_blank hb (hk k (List.mem_cons_self ..)) k.2)
    rw [addDBGetKey_uids]
    split
    · exact hn
    · next hmem => exact List.nodup_append.mpr ⟨hn, by simp, by simpa using hmem⟩

/-- A new session has nothing to save. -/
theorem start_ok {s : Store} {hd : Handler Info} (hk : ∀ k ∈ hd.keys, k.1.toNat < 2 ^ 32) :
    OutcomeOk s (start hd) := by
  obtain ⟨hn, hb⟩ := @startProcs_ok Info hd.keys hk [] List.nodup_nil (fun p hp => (nomatch hp))
  refine getAllData_ok ⟨⟨hn, fun p hp => (hb p hp).ok⟩, ?_⟩
  intro j p m _ hp hm
  have := (hb p (List.mem_of_getElem? hp)).missing
  rw [this] at hm
  cases hm

/-- The database proxy keeps its invariant with every request. -/
theorem answer_ok {s : Store} (h : StoreOk s) {r : Request} (hr : RequestOk s r)
    (hver : ∀ q, r = .save q → ∀ d ∈ q.datas, d.version.toNat < 2 ^ 31) {a : Answer}
    (ha : answer s r = a) :
    StoreOk a.store ∧ Grows s a.store ∧ ReplyOk a.store a.reply ∧
      a.reply.saveUid = r.saveUid := by
  cases r with
  | get r =>
    cases ha
    exact ⟨h, Grows.refl s, handleGet_ok hr false, rfl⟩
  | save r =>
    cases ha
    obtain ⟨hst, hg, hresp, huid⟩ := handleSave_ok h hr (hver r rfl) rfl
    exact ⟨hst, hg, hresp, congrArg some huid⟩

theorem savesFor_append (sid : Nat) (l l' : List Msg) :
    savesFor sid (l ++ l') = savesFor sid l ++ savesFor sid l' :=
  List.filterMap_append

theorem savesFor_cons_self (sid : Nat) (b : Body) (l : List Msg) :
    savesFor sid (⟨sid, b⟩ :: l) = b.saveUid.toList ++ savesFor sid l := by
  unfold savesFor
  rw [List.filterMap_cons, if_pos rfl]
  cases b.saveUid <;> rfl

theorem savesFor_cons_ne {sid sid' : Nat} (h : sid' ≠ sid) (b : Body) (l : List Msg) :
    savesFor sid (⟨sid', b⟩ :: l) = savesFor sid l := by
  unfold savesFor
  rw [List.filterMap_cons, if_neg h]

theorem savesFor_sentBy (sid : Nat) (rs : List Request) :
    savesFor sid (sentBy sid rs) = rs.filterMap Request.saveUid := by
  unfold savesFor sentBy
  rw [List.filterMap_map]
  exact List.filterMap_congr fun r _ => if_pos rfl

theorem savesFor_sentBy_ne {sid sid' : Nat} (h : sid' ≠ sid) (rs : List Request) :
    savesFor sid (sentBy sid' rs) = [] := by
  unfold savesFor sentBy
  rw [List.filterMap_map]
  exact List.filterMap_eq_nil_iff.mpr fun r _ => if_neg h

theorem SavesOk.sublist {sys : System Info} {sid : Nat} {us us' : List UInt64}
    (h : SavesOk sys sid us) (hsub : us'.Sublist us) : SavesOk sys sid us' := by
  rcases h with rfl | ⟨u, rfl, ht⟩
  · exact .inl (List.sublist_nil.mp hsub)
  · rcases List.sublist_singleton.mp hsub with rfl | rfl
    · exact .inl rfl
    · exact .inr ⟨u, rfl, ht⟩

/-- A session takes a step and its requests enter the network. -/
theorem update_ok {sys : System Info} (h : SystemOk sys) {sid n : Nat} {net : List Msg}
    {o : Outcome Info} (hn : sys.created ≤ n) (hsid : sid < n) (hnet : net.Sublist sys.net)
    (hidle : savesFor sid net = [] ∨ o = Outcome.released) (ho : OutcomeOk sys.store o) :
    SystemOk { sys.update sid net o with created := n } := by
  refine ⟨h.store, ?_, ?_, ?_⟩
  · intro m hm
    rcases List.mem_append.mp hm with hm | hm
    · obtain ⟨hlt, hok⟩ := h.net m (hnet.subset hm)
      exact ⟨Nat.lt_of_lt_of_le hlt hn, hok⟩
    · obtain ⟨r, hr, rfl⟩ := List.mem_map.mp hm
      exact ⟨hsid, ho.sent r hr⟩
  · intro sid' t ht
    have ht : Function.update sys.sessions sid o.session sid' = some t := ht
    by_cases hs : sid' = sid
    · subst hs
      rw [Function.update_self] at ht
      exact ⟨hsid, ho.session t ht⟩
    · rw [Function.update_of_ne hs] at ht
      obtain ⟨hlt, hok⟩ := h.sessions sid' t ht
      exact ⟨Nat.lt_of_lt_of_le hlt hn, hok⟩
  · intro sid'
    change SavesOk _ sid' (savesFor sid' (net ++ sentBy sid o.sent))
    have hold : SavesOk sys sid' (savesFor sid' net) :=
      SavesOk.sublist (h.saves sid') (hnet.filterMap _)
    rw [savesFor_append]
    by_cases hs : sid' = sid
    · subst hs
      rw [savesFor_sentBy]
      rcases hidle with hidle | rfl
      · rw [hidle, List.nil_append]
        rcases ho.saves with hnil | ⟨u, t, hu, ht, hst, hcur⟩
        · exact .inl hnil
        · refine .inr ⟨u, hu, fun t' ht' => ?_⟩
          have ht' : Function.update sys.sessions sid' o.session sid' = some t' := ht'
          rw [Function.update_self, ht] at ht'
          cases ht'
          exact ⟨hst, hcur⟩
      · rw [show (Outcome.released : Outcome Info).sent.filterMap Request.saveUid = [] from rfl,
          List.append_nil]
        rcases hold with hnil | ⟨u, hu, -⟩
        · exact .inl hnil
        · refine .inr ⟨u, hu, fun t ht => ?_⟩
          have ht : Function.update sys.sessions sid' none sid' = some t := ht
          rw [Function.update_self] at ht
          cases ht
    · rw [savesFor_sentBy_ne (fun h => hs h.symm), List.append_nil]
      rcases hold with hnil | ⟨u, hu, ht⟩
      · exact .inl hnil
      · refine .inr ⟨u, hu, fun t' ht' => ht t' ?_⟩
        have ht' : Function.update sys.sessions sid o.session sid' = some t' := ht'
        rwa [Function.update_of_ne hs] at ht'

theorem savesFor_replace (sid sid' : Nat) {b b' : Body} (h : b.saveUid = b'.saveUid)
    (pre post : List Msg) :
    savesFor sid' (pre ++ ⟨sid, b⟩ :: post) = savesFor sid' (pre ++ ⟨sid, b'⟩ :: post) := by
  rw [savesFor_append, savesFor_append]
  by_cases hs : sid = sid'
  · subst hs
    rw [savesFor_cons_self, savesFor_cons_self, h]
  · rw [savesFor_cons_ne hs, savesFor_cons_ne hs]

/-- A request that is handled leaves the sessions and the other messages right. -/
theorem handle_ok {sys : System Info} (h : SystemOk sys) {pre post : List Msg} {sid : Nat}
    {r : Request} {a : Answer} (hnet : sys.net = pre ++ ⟨sid, .request r⟩ :: post)
    (hver : ∀ q, r = .save q → ∀ d ∈ q.datas, d.version.toNat < 2 ^ 31)
    (ha : answer sys.store r = a) :
    SystemOk { sys with store := a.store, net := pre ++ ⟨sid, .reply a.reply⟩ :: post } := by
  have hmem : ∀ m ∈ pre ++ post, m ∈ sys.net := by
    intro m hm
    rw [hnet]
    simp only [List.mem_append, List.mem_cons] at hm ⊢
    tauto
  obtain ⟨hlt, hr⟩ := h.net ⟨sid, .request r⟩ (by rw [hnet]; simp)
  obtain ⟨hst, hg, hreply, huid⟩ := answer_ok h.store hr hver ha
  refine ⟨hst, ?_, ?_, ?_⟩
  · intro m hm
    have hm : m = ⟨sid, .reply a.reply⟩ ∨ m ∈ pre ++ post := by
      simp only [List.mem_append, List.mem_cons] at hm ⊢
      tauto
    rcases hm with rfl | hm
    · exact ⟨hlt, hreply⟩
    · obtain ⟨hlt', hok⟩ := h.net m (hmem m hm)
      exact ⟨hlt', hok.grow hg⟩
  · intro sid' t ht
    obtain ⟨hlt', hok⟩ := h.sessions sid' t ht
    exact ⟨hlt', hok.grow hg⟩
  · intro sid'
    have hsame : Body.saveUid (.request r) = Body.saveUid (.reply a.reply) := huid.symm
    have hold := h.saves sid'
    rw [hnet, savesFor_replace sid sid' hsame] at hold
    exact hold

/-- A session that waits for the answer to a save gives up on any other answer. -/
theorem deliver_ok {c : Codec Info} {hd : Handler Info} {sys : System Info} (h : SystemOk sys)
    {pre post : List Msg} {sid : Nat} {r : Reply} {t : Session Info}
    (hnet : sys.net = pre ++ ⟨sid, .reply r⟩ :: post) (ht : sys.sessions sid = some t) :
    SystemOk (sys.update sid (pre ++ post) (process c hd t r)) := by
  obtain ⟨hlt, hreply⟩ := h.net ⟨sid, .reply r⟩ (by rw [hnet]; simp)
  obtain ⟨-, hsess⟩ := h.sessions sid t ht
  have hsub : (pre ++ post).Sublist sys.net := by
    rw [hnet]
    exact List.Sublist.append_left (List.sublist_cons_self ..) pre
  have hsaves := h.saves sid
  rw [hnet, savesFor_append, savesFor_cons_self] at hsaves
  have hcur : ∀ u, r.saveUid = some u →
      t.curUid = some u ∧ savesFor sid pre = [] ∧ savesFor sid post = [] := by
    intro u hu
    rw [show Body.saveUid (.reply r) = some u from hu] at hsaves
    rcases hsaves with hnil | ⟨u', hu', hwait⟩
    · simp at hnil
    · obtain ⟨hpre, hsame, hpost⟩ : savesFor sid pre = [] ∧ u = u' ∧ savesFor sid post = [] := by
        cases hp : savesFor sid pre with
        | nil => simpa [hp] using hu'
        | cons v vs => simp [hp] at hu'
      exact ⟨hsame ▸ (hwait t ht).2, hpre, hpost⟩
  refine update_ok h (Nat.le_refl _) hlt hsub ?_ (process_ok h.store.small hsess hreply
    fun u hu => (hcur u hu).1)
  cases r with
  | save r =>
    obtain ⟨-, hpre, hpost⟩ := hcur r.uid rfl
    rw [savesFor_append, hpre, hpost]
    exact .inl rfl
  | get r =>
    rcases hsaves with hnil | ⟨u, -, hwait⟩
    · rw [savesFor_append]
      exact .inl hnil
    · refine .inr ?_
      unfold process
      rw [(hwait t ht).1]
      rfl

/-- Every guarded step keeps the system in order. -/
theorem step_ok {c : Codec Info} {handlers : Nat → Handler Info} {sys sys' : System Info}
    {e : SysEvent} (h : SystemOk sys) (hg : SysGuard handlers sys e)
    (hs : SysStep c handlers sys e sys') : SystemOk sys' := by
  cases hs with
  | start =>
    refine update_ok h (Nat.le_succ _) (Nat.lt_succ_self _) (List.Sublist.refl _) (.inl ?_)
      (start_ok hg)
    refine List.filterMap_eq_nil_iff.mpr fun m hm => if_neg ?_
    have := (h.net m hm).1
    omega
  | handle hnet ha =>
    refine handle_ok h hnet ?_ ha
    rintro q rfl
    exact hg
  | deliver hnet ht => exact deliver_ok h hnet ht
  | @drop pre post m hnet =>
    have hsub : (pre ++ post).Sublist sys.net := by
      rw [hnet]
      exact List.Sublist.append_left (List.sublist_cons_self ..) pre
    exact ⟨h.store, fun m hm => h.net m (hsub.subset hm), h.sessions,
      fun sid => SavesOk.sublist (h.saves sid) (hsub.filterMap _)⟩
  | release sid =>
    refine ⟨h.store, h.net, fun sid' t ht => ?_, fun sid' => ?_⟩
    · by_cases hs : sid' = sid
      · subst hs
        simp at ht
      · simp only [Function.update_of_ne hs] at ht
        exact h.sessions sid' t ht
    · rcases h.saves sid' with hnil | ⟨u, hu, hwait⟩
      · exact .inl hnil
      · refine .inr ⟨u, hu, fun t ht => ?_⟩
        by_cases hs : sid' = sid
        · subst hs
          simp at ht
        · simp only [Function.update_of_ne hs] at ht
          exact hwait t ht
  | restart =>
    have hg : Grows sys.store { sys.store with cache := fun _ => none } :=
      fun _ r hr => ⟨r, hr, .inl rfl⟩
    refine ⟨⟨fun k v hv => (nomatch hv), h.store.small, h.store.positive⟩,
      fun m hm => ⟨(h.net m hm).1, (h.net m hm).2.grow hg⟩,
      fun sid t ht => ⟨(h.sessions sid t ht).1, (h.sessions sid t ht).2.grow hg⟩, h.saves⟩

/-! ## Whole runs -/

def System.initial (tables : UInt64 → UInt64 → Option Row) : System Info :=
  ⟨fresh tables, fun _ => none, 0, []⟩

theorem initial_ok {tables : UInt64 → UInt64 → Option Row} (hsmall : Small (fresh tables))
    (hpos : Positive (fresh tables)) : SystemOk (System.initial tables : System Info) :=
  ⟨⟨fun _ _ hv => (nomatch hv), hsmall, hpos⟩, fun _ hm => (nomatch hm),
    fun _ _ ht => (nomatch ht), fun _ => .inl rfl⟩

/-- Two keys of a user are told apart. -/
theorem uidKey_inj {uid : UInt64} (huid : uid.toNat < 2 ^ 32) {k k' : DbKey}
    (h : uidKey k.num uid = uidKey k'.num uid) : k.num = k'.num := by
  rw [← @uidKey_div k uid huid, h, uidKey_div huid]

/-- In every run, a save that is accepted on an existing row raises the version of the row by one,
and what it writes was computed from the row. -/
theorem run_no_lost_update (c : Codec Info) (handlers : Nat → Handler Info)
    (tables : UInt64 → UInt64 → Option Row) (hsmall : Small (fresh tables))
    (hpos : Positive (fresh tables)) (es : List SysEvent) (sys : System Info)
    (hrun : Trace.Run (SysStep c handlers) (SysGuard handlers) (System.initial tables) es sys)
    (sid : Nat) (r : SaveRequest) (hr : ⟨sid, .request (.save r)⟩ ∈ sys.net)
    (o : Handled) (ho : handleSave sys.store r .never = o)
    (hok : o.response.result = .ok) :
    ∀ e ∈ r.datas, ∀ row, sys.store.row (uidKey e.key r.uid) = some row →
      ∃ d ∈ r.datas, d.key = e.key ∧
        o.store.row (uidKey e.key r.uid) = some ⟨d.bytes, d.version⟩ ∧
        d.version.toNat = row.ver.toNat + 1 ∧ d.origin = some row.blob := by
  intro e he row hrow
  have hsys := hrun.invariant SystemOk (initial_ok hsmall hpos)
    fun _ _ _ h hg hs => step_ok h hg hs
  have hreq : RequestOk sys.store (.save r) := (hsys.net _ hr).2
  have hsucc : (saveDoRequest sys.store r.uid SqlFailures.never.replace 0 r.datas).success =
      true := success_of_written (written_never 0 r.datas)
  rcases handleSave_cases ho with ⟨hcheck, -, -, hst⟩ | ⟨-, hres, -⟩ | ⟨-, hne, -⟩
  · rcases accepted_row hsys.store.coherent hsys.store.small hsys.store.positive hreq hcheck hsucc
      hrow with ⟨hnone, -⟩ | ⟨d, hd, hk, hnew, hup, horigin⟩
    · exact absurd (saveKey_eq hreq.1 e) (hnone e he)
    · refine ⟨d, hd, ?_, ?_, hup, horigin⟩
      · rw [saveKey_eq hreq.1] at hk
        obtain ⟨kd, hkd⟩ := (hreq.2 d hd).key
        obtain ⟨ke, hke⟩ := (hreq.2 e he).key
        rw [hkd, hke] at hk ⊢
        exact uidKey_inj hreq.1 hk
      · rw [hst, saveToCache_row]
        exact hnew
  · rw [hok] at hres
    cases hres
  · exact absurd hok hne

def plainCodec : Codec Blob := ⟨fun _ b => some b, fun _ i => i, fun _ => []⟩

/-- A handler that adds a byte to the money of player 7. -/
def addMoney : Handler Blob :=
  ⟨[(7, .moneyInfo)],
    fun _ => ⟨fun _ k => if k = .moneyInfo then some (· ++ [1]) else none, .save⟩, fun _ => false⟩

def moneyTables : UInt64 → UInt64 → Option Row :=
  fun n k => if n = 7 ∧ k = uidKey 2 7 then some ⟨[9], 3⟩ else none

def getMoney : GetRequest := ⟨7, [⟨2, none, none, none⟩]⟩

def saveMoney : SaveRequest := ⟨7, [⟨2, some [9, 1], some 4, some [9]⟩]⟩

theorem moneyTables_row {k : UInt64} {r : Row} (h : (fresh moneyTables).row k = some r) :
    r = ⟨[9], 3⟩ := by
  change (if k % totalTableNum = 7 ∧ k = uidKey 2 7 then some (⟨[9], 3⟩ : Row) else none) = some r
    at h
  split at h
  · cases h
    rfl
  · cases h

def asking : System Blob :=
  { (System.initial moneyTables).update 0 [] (start addMoney) with created := 1 }

def answering : System Blob :=
  { asking with net := [⟨0, .reply (.get (handleGet (fresh moneyTables) getMoney false))⟩] }

def saving : System Blob :=
  answering.update 0 [] (process plainCodec addMoney ⟨[⟨7, [2], none⟩], 0, 0, .waitGetRsp⟩
    (.get (handleGet (fresh moneyTables) getMoney false)))

theorem run_no_lost_update_money :
    ∃ es, Trace.Run (SysStep plainCodec fun _ => addMoney) (SysGuard fun _ => addMoney)
      (System.initial moneyTables) es saving ∧
      ∃ o, handleSave saving.store saveMoney .never = o ∧
        ∀ e ∈ saveMoney.datas, ∀ row, saving.store.row (uidKey e.key saveMoney.uid) = some row →
          ∃ d ∈ saveMoney.datas, d.key = e.key ∧
            o.store.row (uidKey e.key saveMoney.uid) = some ⟨d.bytes, d.version⟩ ∧
            d.version.toNat = row.ver.toNat + 1 ∧ d.origin = some row.blob := by
  have hsmall : Small (fresh moneyTables) := fun k r hr => by
    rw [moneyTables_row hr]
    decide
  have hpos : Positive (fresh moneyTables) := fun k r hr => by
    rw [moneyTables_row hr]
    decide
  have hask : SysStep plainCodec (fun _ => addMoney) (System.initial moneyTables) .start asking :=
    .start
  have hanswer : SysStep plainCodec (fun _ => addMoney) asking
      (.handle ⟨0, .request (.get getMoney)⟩) answering :=
    @SysStep.handle _ _ _ asking [] [] 0 (.get getMoney) ⟨_, _⟩ rfl rfl
  have hsave : SysStep plainCodec (fun _ => addMoney) answering
      (.deliver ⟨0, .reply (.get (handleGet (fresh moneyTables) getMoney false))⟩) saving :=
    @SysStep.deliver _ _ _ answering [] [] 0 _ _ rfl rfl
  have huid : ∀ k ∈ addMoney.keys, k.1.toNat < 2 ^ 32 := by decide
  have hrun : Trace.Run (SysStep plainCodec fun _ => addMoney) (SysGuard fun _ => addMoney)
      (System.initial moneyTables) [.start, .handle ⟨0, .request (.get getMoney)⟩,
        .deliver ⟨0, .reply (.get (handleGet (fresh moneyTables) getMoney false))⟩] saving :=
    .cons huid hask (.cons trivial hanswer (.cons trivial hsave (.nil _)))
  have hok : (handleSave saving.store saveMoney .never).response.result = .ok := by
    decide +kernel
  have hsent : (process plainCodec addMoney ⟨[⟨7, [2], none⟩], 0, 0, .waitGetRsp⟩
      (.get (handleGet (fresh moneyTables) getMoney false))).sent = [.save saveMoney] := by
    decide +kernel
  have hnet : ⟨0, .request (.save saveMoney)⟩ ∈ saving.net := by
    rw [saving, System.update, hsent]
    exact List.mem_singleton_self _
  exact ⟨_, hrun, _, rfl,
    run_no_lost_update _ _ _ hsmall hpos _ _ hrun 0 saveMoney hnet _ rfl hok⟩

end Sessions
