import Dsf4g.Gather

/-!
# Starting over after a conflict

Every part of a player that was fetched is flagged, so `SendSaveToDBHandle` sends all of
them, but for a part that serialises to more than 65536 bytes. When a version differs the
database answers with the stored data of the parts in the request, and `SaveResponse` puts
what it parses in the place of the whole player before it calls `OnProcessData` again. The
parts that are not in the answer are gone.
-/
namespace Sessions

open DbProxy

variable {Info : Type}

/-- The session on which `SaveResponse` calls `OnProcessData` again. -/
def redone (c : Codec Info) (s : Session Info) (r : Response) : Option (Session Info) :=
  if s.redoCount + 1 ≥ maxDbProcRedo then none
  else reload c { s with redoCount := s.redoCount + 1 } r

theorem saveResponse_redone (c : Codec Info) (h : Handler Info) {s s' : Session Info} {r : Response}
    (hr : r.result = .verDiffer) (hs : redone c s r = some s') :
    saveResponse c h s r = processData c h s' := by
  rw [redone] at hs
  split at hs
  · cases hs
  · next hcount => simp only [saveResponse, hr, if_neg hcount, hs]

def currentPlayer (s : Session Info) : Option (PBDBMsg Info) :=
  (s.dbProcs[s.curProcIndex]?).bind PBDBProcInfo.player

/-- What a session leaves behind its turns: it starts, it is answered anything while it gets its data,
and what it saves is answered by the database, with any rows and any failing statements. -/
inductive Worked (c : Codec Info) (h : Handler Info) : Outcome Info → Prop where
  | start : Worked c h (start h)
  | got {s : Session Info} {sent : List Request} (r : Response) :
      Worked c h ⟨some s, sent⟩ → Worked c h (process c h s (.get r))
  | saved {s : Session Info} {req : SaveRequest} (st : Store) (f : SqlFailures) :
      Worked c h ⟨some s, [.save req]⟩ →
        Worked c h (process c h s (.save (handleSave st req f).response))

/-- For every key with a row, the new player has the stored data when the key was in the request, and
else what had been fetched. -/
def Complete (c : Codec Info) (st : Store) (keys : List UInt32) (req : SaveRequest)
    (m new : PBDBMsg Info) : Prop :=
  ∀ k row, DbKey.num k ∈ keys → st.row (uidKey k.num m.uid) = some row →
    (DbKey.num k ∈ req.datas.map PBDBData.key → ∃ i, c.parse k row.blob = some i ∧
      new.field k = some ⟨i, some row.ver, some row.blob⟩) ∧
    (DbKey.num k ∉ req.datas.map PBDBData.key →
      (m.field k).isSome = true ∧ new.field k = m.field k)

/-- The flag of the part is set, and `AddSaveData` takes it. -/
def Touched (c : Codec Info) (m : PBDBMsg Info) (k : DbKey) : Prop :=
  m.update k = true ∧
    (addSaveData c k ((m.field k).getD ⟨c.empty k, none, none⟩)).isSome = true

def Held (c : Codec Info) (m : PBDBMsg Info) (k : DbKey) : Prop :=
  ∃ f, m.field k = some f ∧ (c.serialize k f.info).length ≤ maxPbDataBuf

/-- The player has every part with a row, which fits and can be read from its row, and the `select`
behind the check works. -/
def Covered (c : Codec Info) (st : Store) (keys : List UInt32) (m : PBDBMsg Info)
    (f : SqlFailures) : Prop :=
  ∀ k row, DbKey.num k ∈ keys → st.row (uidKey k.num m.uid) = some row →
    f.refetch = false ∧ Held c m k ∧ unpack k.num m.uid = k.num

/-! ## The request -/

theorem addSaveData_key {c : Codec Info} {k : DbKey} {f : Field Info} {a : Added Info}
    (h : addSaveData c k f = some a) : a.data.key = k.num := by
  rw [addSaveData] at h
  dsimp only at h
  split at h
  · cases h
  · cases h
    rfl

/-- The items that `SendSaveToDBHandle` adds are for different keys of the player. -/
theorem collectSaves_keys {c : Codec Info} {ns : List UInt32} {st st' : Saving Info}
    (h : collectSaves c ns st = some st') :
    st'.player.uid = st.player.uid ∧ ∃ ds, st'.datas = st.datas ++ ds ∧
      (ds.map PBDBData.key).Sublist ns := by
  induction ns generalizing st with
  | nil =>
    cases h
    exact ⟨rfl, [], (List.append_nil _).symm, List.Sublist.refl _⟩
  | cons n ns ih =>
    rw [collectSaves] at h
    split at h
    · cases h
    · next k hk =>
      split at h
      · split at h
        · obtain ⟨huid, ds, hds, hsub⟩ := ih h
          exact ⟨huid, ds, hds, hsub.cons n⟩
        · next a ha =>
          obtain ⟨huid, ds, hds, hsub⟩ := ih h
          refine ⟨huid, a.data :: ds, by rw [hds, List.append_assoc]; rfl, ?_⟩
          have hkey : a.data.key = n := (addSaveData_key ha).trans (ofNum_eq hk).symm
          rw [List.map_cons, hkey]
          exact hsub.cons_cons n
      · obtain ⟨huid, ds, hds, hsub⟩ := ih h
        exact ⟨huid, ds, hds, hsub.cons n⟩

theorem touched_store {c : Codec Info} {m : PBDBMsg Info} {k k' : DbKey} (hne : k' ≠ k)
    (f : Field Info) : Touched c (m.store k f) k' ↔ Touched c m k' := by
  simp only [Touched, PBDBMsg.store, Function.update_of_ne hne]

/-- The touched parts are the ones in the request. -/
theorem collectSaves_touched {c : Codec Info} {ns : List UInt32} {st st' : Saving Info}
    (h : collectSaves c ns st = some st') (hnd : ns.Nodup) {k : DbKey} :
    k.num ∈ st'.datas.map PBDBData.key ↔
      k.num ∈ st.datas.map PBDBData.key ∨ (k.num ∈ ns ∧ Touched c st.player k) := by
  induction ns generalizing st with
  | nil =>
    cases h
    simp only [List.not_mem_nil, false_and, or_false]
  | cons n ns ih =>
    obtain ⟨hnot, hrest⟩ := List.nodup_cons.mp hnd
    rw [collectSaves] at h
    split at h
    · cases h
    · next k' hk' =>
      obtain rfl := ofNum_eq hk'
      have hkeys : k.num ∈ k'.num :: ns ↔ k = k' ∨ k.num ∈ ns := by
        rw [List.mem_cons]
        exact or_congr_left ⟨num_inj, congrArg _⟩
      rw [hkeys]
      by_cases hk : k = k'
      · cases hk
        simp only [true_or, true_and]
        split at h
        · next hupdate =>
          split at h
          · next hadd =>
            rw [ih h hrest]
            simp only [hnot, or_false, Touched, hadd, Option.isSome_none, Bool.false_eq_true, and_false]
          · next a hadd =>
            rw [ih h hrest]
            simp only [List.map_append, List.map_cons, List.map_nil, addSaveData_key hadd,
              List.mem_append, List.mem_singleton, or_true, true_or, Touched, hupdate, hadd,
              Option.isSome_some, and_self]
        · next hupdate =>
          rw [ih h hrest]
          simp only [hnot, false_and, or_false, Touched, hupdate, Bool.false_eq_true]
      · simp only [hk, false_or]
        split at h
        · split at h
          · exact ih h hrest
          · next a hadd =>
            rw [ih h hrest, touched_store hk]
            simp only [List.map_append, List.map_cons, List.map_nil, addSaveData_key hadd,
              List.mem_append, List.mem_singleton]
            refine or_congr_left ⟨fun hor => hor.resolve_right fun he => hk (num_inj he), Or.inl⟩
        · exact ih h hrest

/-- What `SaveOneData` leaves and sends. -/
theorem saveOneData_sent {c : Codec Info} {s s₁ : Session Info} {p : PBDBProcInfo Info}
    {m : PBDBMsg Info} {req : SaveRequest} (hp : s.dbProcs[s.curProcIndex]? = some p)
    (hm : p.player = some m) (h : saveOneData c s = ⟨some s₁, [.save req]⟩) :
    req.uid = m.uid ∧ (req.datas.map PBDBData.key).Sublist p.keys ∧ req.datas ≠ [] ∧
      ∃ m₁ : PBDBMsg Info, collectSaves c p.keys ⟨m, []⟩ = some ⟨m₁, req.datas⟩ ∧ s₁ = { s with
        dbProcs := s.dbProcs.set s.curProcIndex { p with player := some m₁ }
        processState := .waitSaveRsp } := by
  simp only [saveOneData, hp, hm, Option.getD_some] at h
  cases hst : collectSaves c p.keys ⟨m, []⟩ with
  | none => simp only [hst, Outcome.released, Outcome.mk.injEq, reduceCtorEq, false_and] at h
  | some st =>
    obtain ⟨huid, ds, hds, hsub⟩ := collectSaves_keys hst
    rw [List.nil_append] at hds
    simp only [hst] at h
    split at h
    · cases h
    · next hne =>
      cases h
      refine ⟨huid, hds ▸ hsub, fun he => hne ?_, st.player, rfl, rfl⟩
      rw [List.isEmpty_iff]
      exact he

theorem addSaveData_isSome (c : Codec Info) (k : DbKey) (f : Field Info) :
    (addSaveData c k f).isSome = true ↔ (c.serialize k f.info).length ≤ maxPbDataBuf := by
  rw [addSaveData]
  dsimp only
  split
  · next hlong => simp only [Option.isSome_none, Bool.false_eq_true, Nat.not_le.mpr hlong]
  · next hshort => simp only [Option.isSome_some, Nat.not_lt.mp hshort]

theorem addSaveData_info {c : Codec Info} {k : DbKey} {f : Field Info} {a : Added Info}
    (h : addSaveData c k f = some a) : a.field.info = f.info := by
  rw [addSaveData] at h
  dsimp only at h
  split at h
  · cases h
  · cases h
    rfl

/-- What a save leaves of the parts: those in the request with the same content, and the others as
they were. -/
theorem collectSaves_field {c : Codec Info} {ns : List UInt32} {st st' : Saving Info}
    (h : collectSaves c ns st = some st') (hnd : ns.Nodup) (k : DbKey) :
    (k.num ∈ ns ∧ Touched c st.player k → ∃ f, st'.player.field k = some f ∧
      f.info = ((st.player.field k).getD ⟨c.empty k, none, none⟩).info) ∧
    (¬ (k.num ∈ ns ∧ Touched c st.player k) → st'.player.field k = st.player.field k) := by
  induction ns generalizing st with
  | nil =>
    cases h
    exact ⟨fun hk => absurd hk.1 List.not_mem_nil, fun _ => rfl⟩
  | cons n ns ih =>
    obtain ⟨hnot, hrest⟩ := List.nodup_cons.mp hnd
    rw [collectSaves] at h
    split at h
    · cases h
    · next k' hk' =>
      obtain rfl := ofNum_eq hk'
      have hkeys : k.num ∈ k'.num :: ns ↔ k = k' ∨ k.num ∈ ns := by
        rw [List.mem_cons]
        exact or_congr_left ⟨num_inj, congrArg _⟩
      rw [hkeys]
      by_cases hk : k = k'
      · cases hk
        simp only [true_or, true_and]
        split at h
        · next hupdate =>
          split at h
          · next hadd =>
            obtain ⟨-, hsame⟩ := ih h hrest
            have hfield := hsame fun hin => hnot hin.1
            refine ⟨fun ht => ?_, fun _ => hfield⟩
            have hsome := ht.2
            rw [hadd] at hsome
            cases hsome
          · next a hadd =>
            obtain ⟨-, hsame⟩ := ih h hrest
            have hfield := (hsame fun hin => hnot hin.1).trans (st.player.store_field k a.field)
            refine ⟨fun _ => ⟨a.field, hfield, addSaveData_info hadd⟩, fun hno => ?_⟩
            exact absurd ⟨hupdate, by rw [hadd]; rfl⟩ hno
        · next hupdate =>
          obtain ⟨-, hsame⟩ := ih h hrest
          exact ⟨fun ht => absurd ht.1 hupdate, fun _ => hsame fun hin => hnot hin.1⟩
      · simp only [hk, false_or]
        split at h
        · split at h
          · exact ih h hrest
          · next a hadd =>
            have hstep := ih h hrest
            rw [touched_store hk] at hstep
            simp only [(st.player.store_other hk a.field).1] at hstep
            exact hstep
        · exact ih h hrest

/-! ## Flags -/

def Flagged (m : PBDBMsg Info) : Prop := ∀ k, (m.field k).isSome = true → m.update k = true

/-- The generated `CopyFrom` flags what it copies. -/
theorem copyFrom_flagged (old : Option (PBDBMsg Info)) (m : PBDBMsg Info) :
    Flagged (PBDBMsg.copyFrom old m) := by
  intro k hk
  have hsome : (m.field k).isSome = true := hk
  simp only [PBDBMsg.copyFrom, hsome, Bool.or_true]

/-- Writing to a part sets its flag. -/
theorem Flagged.mutate {m : PBDBMsg Info} (h : Flagged m) (c : Codec Info) (k : DbKey)
    (g : Info → Info) : Flagged (m.mutate c k g) := by
  intro k' hk'
  by_cases he : k' = k
  · rw [he, m.mutate_update]
  · obtain ⟨hfield, hflag⟩ := m.mutate_other he c g
    rw [hfield] at hk'
    rw [hflag]
    exact h k' hk'

theorem Flagged.editField {m : PBDBMsg Info} (h : Flagged m) (c : Codec Info)
    (edit : DbKey → Option (Info → Info)) (k : DbKey) : Flagged (editField c edit m k) := by
  rw [Sessions.editField]
  split
  · exact h
  · exact h.mutate c k _

theorem Flagged.editPlayer {m : PBDBMsg Info} (h : Flagged m) (c : Codec Info)
    (edit : DbKey → Option (Info → Info)) : Flagged (editPlayer c edit m) :=
  (h.editField c edit _).editField c edit _

/-- A session whose players from one on are flagged. -/
structure FlaggedFrom (i : Nat) (s : Session Info) : Prop where
  nodup : (s.dbProcs.map PBDBProcInfo.uid).Nodup
  keys : ∀ p ∈ s.dbProcs, p.keys.Nodup ∧ ∀ n ∈ p.keys, ∃ k, n = DbKey.num k
  own : ∀ p ∈ s.dbProcs, ∀ m, p.player = some m → m.uid = p.uid
  flagged : ∀ j p m, i ≤ j → s.dbProcs[j]? = some p → p.player = some m → Flagged m

section Flags

variable {c : Codec Info} {h : Handler Info} {s : Session Info} {i : Nat}

theorem FlaggedFrom.processed (hs : FlaggedFrom i s) (c : Codec Info) (h : Handler Info) :
    FlaggedFrom i (processed c h s) := by
  have hold : ∀ j q, (Sessions.processed c h s).dbProcs[j]? = some q → ∃ p : PBDBProcInfo Info,
      s.dbProcs[j]? = some p ∧
        q = { p with player := p.player.map (editPlayer c ((h.onProcessData s).edit j)) } := by
    intro j q hq
    rw [Sessions.processed, editProcs_getElem?, Option.map_eq_some_iff] at hq
    obtain ⟨p, hp, rfl⟩ := hq
    exact ⟨p, hp, rfl⟩
  refine ⟨?_, fun q hq => ?_, fun q hq m hm => ?_, fun j q m hj hq hm => ?_⟩
  · rw [Sessions.processed, editProcs_uids]
    exact hs.nodup
  · obtain ⟨j, hj⟩ := List.mem_iff_getElem?.mp hq
    obtain ⟨p, hp, rfl⟩ := hold j q hj
    exact hs.keys p (List.mem_of_getElem? hp)
  · obtain ⟨j, hj⟩ := List.mem_iff_getElem?.mp hq
    obtain ⟨p, hp, rfl⟩ := hold j q hj
    obtain ⟨m', hm', rfl⟩ := Option.map_eq_some_iff.mp hm
    rw [editPlayer_uid]
    exact hs.own p (List.mem_of_getElem? hp) m' hm'
  · obtain ⟨p, hp, rfl⟩ := hold j q hq
    obtain ⟨m', hm', rfl⟩ := Option.map_eq_some_iff.mp hm
    exact (hs.flagged j p m' hj hp hm').editPlayer c _

theorem getAllDBData_processed (c : Codec Info) (h : Handler Info) (s : Session Info) :
    getAllDBData (processed c h s).dbProcs = getAllDBData s.dbProcs := by
  refine Bool.eq_iff_iff.mpr ?_
  simp only [getAllDBData, List.all_eq_true, Sessions.processed, editProcs, List.mem_mapIdx]
  constructor
  · intro hall p hp
    obtain ⟨i, hi, rfl⟩ := List.mem_iff_getElem.mp hp
    simpa only [Option.isSome_map] using hall _ ⟨i, hi, rfl⟩
  · rintro hall _ ⟨i, hi, rfl⟩
    simpa only [Option.isSome_map] using hall _ (List.getElem_mem hi)

theorem getAllDBData_set {procs : List (PBDBProcInfo Info)} (h : getAllDBData procs = true) (j : Nat)
    (p : PBDBProcInfo Info) (m : PBDBMsg Info) :
    getAllDBData (procs.set j { p with player := some m }) = true := by
  simp only [getAllDBData, List.all_eq_true] at h ⊢
  intro q hq
  obtain hq | rfl := List.mem_or_eq_of_mem_set hq
  · exact h q hq
  · rfl

/-- A player is put in its place: from there on the players have to be flagged. -/
theorem FlaggedFrom.set (hs : FlaggedFrom i s) {j : Nat} {p : PBDBProcInfo Info}
    (hp : s.dbProcs[j]? = some p) {m : PBDBMsg Info} (hm : m.uid = p.uid) {i' : Nat}
    (hi : ∀ n, i' ≤ n → i ≤ n ∨ n = j) (hflag : i' ≤ j → Flagged m) :
    FlaggedFrom i' { s with dbProcs := s.dbProcs.set j { p with player := some m } } := by
  refine ⟨?_, fun q hq => ?_, fun q hq m' hm' => ?_, fun n q m' hn hq hm' => ?_⟩
  · rw [set_uids hp]
    exact hs.nodup
  · obtain hq | rfl := List.mem_or_eq_of_mem_set hq
    · exact hs.keys q hq
    · exact hs.keys p (List.mem_of_getElem? hp)
  · obtain hq | rfl := List.mem_or_eq_of_mem_set hq
    · exact hs.own q hq m' hm'
    · cases hm'
      exact hm
  · by_cases hjn : j = n
    · subst hjn
      rw [List.getElem?_set_self'] at hq
      obtain ⟨q', -, rfl⟩ := Option.map_eq_some_iff.mp hq
      cases hm'
      exact hflag hn
    · rw [List.getElem?_set_ne hjn] at hq
      obtain hin | hnj := hi n hn
      · exact hs.flagged n q m' hin hq hm'
      · exact absurd hnj.symm hjn

/-- The player of an answer is flagged. -/
theorem FlaggedFrom.reload (hs : FlaggedFrom i s) {r : Response} {s' : Session Info}
    (h : reload c s r = some s') {i' : Nat}
    (hi : i ≤ i' ∨ i = i' + 1 ∧ ∃ p, s.dbProcs[i']? = some p ∧ p.uid = r.uid) :
    FlaggedFrom i' s' := by
  obtain ⟨j, p, m, -, hp, hpu, hm, rfl⟩ := reload_cases h
  refine hs.set (m := PBDBMsg.copyFrom p.player m) hp
    ((parseDBData_eq_some hm).1.trans hpu.symm) (fun n hn => ?_) fun _ => copyFrom_flagged _ _
  obtain hle | ⟨hsucc, q, hq, hqu⟩ := hi
  · exact .inl (Nat.le_trans hle hn)
  · have hj : i' = j := index_unique hs.nodup hq hp (hqu.trans hpu.symm)
    omega

/-! ## Turns -/

/-- What a turn leaves: a session whose players from the current one on are flagged, without a save,
or the save of such a session. -/
def TurnOk (c : Codec Info) (o : Outcome Info) : Prop :=
  ∀ s₁, o.session = some s₁ →
    (FlaggedFrom s₁.curProcIndex s₁ ∧ ∀ req, .save req ∉ o.sent) ∨
    ∃ s, FlaggedFrom s.curProcIndex s ∧ getAllDBData s.dbProcs = true ∧ saveOneData c s = o

theorem released_turn (c : Codec Info) : TurnOk c (Outcome.released : Outcome Info) :=
  fun _ hs => nomatch hs

theorem idle_turn (hs : FlaggedFrom s.curProcIndex s) : TurnOk c ⟨some s, []⟩ := by
  intro s₁ hs₁
  cases hs₁
  exact .inl ⟨hs, fun _ => List.not_mem_nil⟩

theorem getAllData_turn (hs : FlaggedFrom s.curProcIndex s) : TurnOk c (getAllData s) := by
  unfold getAllData
  dsimp only
  split
  · exact released_turn c
  · intro s₁ hs₁
    cases hs₁
    refine .inl ⟨⟨hs.nodup, hs.keys, hs.own, hs.flagged⟩, fun req hreq => ?_⟩
    obtain ⟨p, -, hp⟩ := List.mem_map.mp hreq
    cases hp

theorem FlaggedFrom.next (hs : FlaggedFrom (s.curProcIndex + 1) s) :
    FlaggedFrom (s.curProcIndex + 1) { s with curProcIndex := s.curProcIndex + 1 } :=
  ⟨hs.nodup, hs.keys, hs.own, hs.flagged⟩

theorem FlaggedFrom.mono (hs : FlaggedFrom i s) {i' : Nat} (hi : i ≤ i') : FlaggedFrom i' s :=
  ⟨hs.nodup, hs.keys, hs.own, fun j p m hj => hs.flagged j p m (Nat.le_trans hi hj)⟩

/-- A turn goes on from a session with all its players. -/
theorem proceed_turn (hs : FlaggedFrom s.curProcIndex s) (hall : getAllDBData s.dbProcs = true)
    (r : HandlerResult) : TurnOk c (proceed c h s r) := by
  induction s, r using proceed.induct c h with
  | case1 s =>
    rw [proceed]
    exact getAllData_turn hs
  | case2 s =>
    rw [proceed]
    exact fun _ _ => .inr ⟨s, hs, hall, rfl⟩
  | case3 s =>
    rw [proceed]
    exact released_turn c
  | case4 s =>
    rw [proceed]
    exact released_turn c
  | case5 s =>
    rw [proceed]
    exact idle_turn hs
  | case6 s s' hlt ih =>
    rw [proceed]
    simp only [if_pos hlt]
    refine ih (((hs.mono (Nat.le_succ _)).next).processed c h) ?_
    rw [getAllDBData_processed]
    exact hall
  | case7 s hlt =>
    rw [proceed]
    simp only [if_neg hlt]
    exact released_turn c

/-- A turn of the handler leaves the players flagged. -/
theorem processData_turn (hs : FlaggedFrom s.curProcIndex s)
    (hall : getAllDBData s.dbProcs = true) : TurnOk c (processData c h s) :=
  proceed_turn (hs.processed c h) (by rw [getAllDBData_processed]; exact hall) _

/-- Going on to the next player needs nothing of the current one. -/
theorem proceed_next_turn (hs : FlaggedFrom (s.curProcIndex + 1) s)
    (hall : getAllDBData s.dbProcs = true) : TurnOk c (proceed c h s .next) := by
  rw [proceed]
  split
  · exact processData_turn hs.next hall
  · exact released_turn c

theorem reload_all (hall : getAllDBData s.dbProcs = true) {r : Response} {s' : Session Info}
    (h : reload c s r = some s') : getAllDBData s'.dbProcs = true := by
  obtain ⟨j, p, m, -, -, -, -, rfl⟩ := reload_cases h
  exact getAllDBData_set hall j p _

/-- An answer while the session gets its data. -/
theorem got_turn (hs : FlaggedFrom s.curProcIndex s) (r : Response) :
    TurnOk c (process c h s (.get r)) := by
  rw [process]
  split
  · unfold getResponse
    split
    · split
      · exact released_turn c
      · next s' hs' =>
        have hnext : FlaggedFrom s'.curProcIndex s' := by
          obtain ⟨j, p, m, -, -, -, -, rfl⟩ := reload_cases hs'
          exact hs.reload hs' (.inl (Nat.le_refl _))
        split
        · next hall => exact processData_turn hnext hall
        · exact idle_turn hnext
    · exact released_turn c
  · exact released_turn c

/-- The save of a session with all its players. -/
theorem saveOneData_left (hall : getAllDBData s.dbProcs = true) {s₁ : Session Info}
    {sent : List Request} (h : saveOneData c s = ⟨some s₁, sent⟩) :
    ∃ p m m₁ req, s.dbProcs[s.curProcIndex]? = some p ∧ p.player = some m ∧ sent = [.save req] ∧
      req.uid = m.uid ∧ (req.datas.map PBDBData.key).Sublist p.keys ∧ req.datas ≠ [] ∧
      collectSaves c p.keys ⟨m, []⟩ = some ⟨m₁, req.datas⟩ ∧ s₁ = { s with
        dbProcs := s.dbProcs.set s.curProcIndex { p with player := some m₁ }
        processState := .waitSaveRsp } := by
  have hproc : ∃ p, s.dbProcs[s.curProcIndex]? = some p := by
    refine Option.isSome_iff_exists.mp (by_contra fun hnone => ?_)
    rw [Bool.not_eq_true, Option.isSome_eq_false_iff, Option.isNone_iff_eq_none] at hnone
    simp only [saveOneData, hnone, Outcome.released, Outcome.mk.injEq, reduceCtorEq,
      false_and] at h
  obtain ⟨p, hp⟩ := hproc
  obtain ⟨m, hm⟩ := Option.isSome_iff_exists.mp
    (List.all_eq_true.mp hall p (List.mem_of_getElem? hp))
  have hsent : ∃ req, sent = [.save req] := by
    unfold saveOneData at h
    rw [hp] at h
    dsimp only at h
    split at h
    · cases h
    · split at h
      · cases h
      · cases h
        exact ⟨_, rfl⟩
  obtain ⟨req, rfl⟩ := hsent
  obtain ⟨huid, hsub, hne, m₁, hcollect, hs₁⟩ := saveOneData_sent hp hm h
  exact ⟨p, m, m₁, req, hp, hm, rfl, huid, hsub, hne, hcollect, hs₁⟩

/-- An answer to the save of its current player. -/
theorem saved_turn (hs : FlaggedFrom (s.curProcIndex + 1) s) (hall : getAllDBData s.dbProcs = true)
    {r : Response} (hr : ∃ p, s.dbProcs[s.curProcIndex]? = some p ∧ p.uid = r.uid) :
    TurnOk c (process c h s (.save r)) := by
  rw [process]
  split
  · unfold saveResponse
    split
    · split
      · exact proceed_next_turn hs hall
      · rw [proceed]
        exact released_turn c
    · dsimp only
      split
      · exact released_turn c
      · split
        · exact released_turn c
        · next s' hs' =>
          have hnext : FlaggedFrom s'.curProcIndex s' := by
            have hcount : FlaggedFrom (s.curProcIndex + 1) { s with redoCount := s.redoCount + 1 } :=
              ⟨hs.nodup, hs.keys, hs.own, hs.flagged⟩
            obtain ⟨j, p, m, -, -, -, -, rfl⟩ := reload_cases hs'
            exact hcount.reload hs' (.inr ⟨rfl, hr⟩)
          exact processData_turn hnext (reload_all (s := { s with redoCount := s.redoCount + 1 })
            hall hs')
    · exact released_turn c
  · exact released_turn c

structure Empty (p : PBDBProcInfo Info) : Prop where
  nodup : p.keys.Nodup
  known : ∀ n ∈ p.keys, ∃ k, n = DbKey.num k
  missing : p.player = none

theorem addDBGetKey_empty {procs : List (PBDBProcInfo Info)} (hp : ∀ p ∈ procs, Empty p)
    (uid : UInt64) (k : DbKey) : ∀ p ∈ addDBGetKey procs uid k.num, Empty p := by
  intro p hmem
  obtain hold | ⟨q, hq, hnew, rfl⟩ | rfl := addDBGetKey_cases hmem
  · exact hp p hold
  · refine ⟨?_, fun n hn => ?_, (hp q hq).missing⟩
    · refine List.nodup_append.mpr ⟨(hp q hq).nodup, List.nodup_singleton _, fun a ha b hb he => ?_⟩
      rw [he, List.mem_singleton.mp hb] at ha
      exact hnew ha
    · obtain hn | hn := List.mem_append.mp hn
      · exact (hp q hq).known n hn
      · exact ⟨k, List.mem_singleton.mp hn⟩
  · exact ⟨List.nodup_singleton _, fun n hn => ⟨k, List.mem_singleton.mp hn⟩, rfl⟩

theorem foldl_empty (ks : List (UInt64 × DbKey)) {procs : List (PBDBProcInfo Info)}
    (hn : (procs.map PBDBProcInfo.uid).Nodup) (hp : ∀ p ∈ procs, Empty p) :
    ((ks.foldl (fun ps k => addDBGetKey ps k.1 k.2.num) procs).map PBDBProcInfo.uid).Nodup ∧
      ∀ p ∈ ks.foldl (fun ps k => addDBGetKey ps k.1 k.2.num) procs, Empty p := by
  induction ks generalizing procs with
  | nil => exact ⟨hn, hp⟩
  | cons k ks ih =>
    refine ih ?_ (addDBGetKey_empty hp k.1 k.2)
    rw [addDBGetKey_uids]
    split
    · exact hn
    · next hmem => exact List.nodup_append.mpr ⟨hn, by simp, by simpa using hmem⟩

/-- A new session has no data to flag. -/
theorem start_turn (c : Codec Info) (h : Handler Info) : TurnOk c (start h) := by
  have hnil : (([] : List (PBDBProcInfo Info)).map PBDBProcInfo.uid).Nodup := List.nodup_nil
  obtain ⟨hn, hp⟩ := foldl_empty h.keys hnil fun p hp => absurd hp List.not_mem_nil
  refine getAllData_turn ⟨hn, fun p hmem => ⟨(hp p hmem).nodup, (hp p hmem).known⟩,
    fun p hmem m hm => ?_, fun j p m _ hj hm => ?_⟩
  · cases (hp p hmem).missing.symm.trans hm
  · cases (hp p (List.mem_of_getElem? hj)).missing.symm.trans hm

/-- Every turn of a session keeps the flags of the players it has not saved. -/
theorem Worked.turn {o : Outcome Info} (hw : Worked c h o) : TurnOk c o := by
  induction hw with
  | start => exact start_turn c h
  | @got s sent r _ ih =>
    obtain ⟨hs, -⟩ | ⟨s₀, hs₀, hall, hsave⟩ := ih s rfl
    · exact got_turn hs r
    · obtain ⟨p, m, m₁, req, -, -, -, -, -, -, -, rfl⟩ := saveOneData_left hall hsave
      exact released_turn c
  | @saved s req st f _ ih =>
    obtain ⟨-, hno⟩ | ⟨s₀, hs₀, hall, hsave⟩ := ih s rfl
    · exact absurd (List.mem_singleton.mpr rfl) (hno req)
    · obtain ⟨p, m, m₁, req', hp, hm, hreq, huid, -, -, hcollect, rfl⟩ := saveOneData_left hall hsave
      cases hreq
      have hown := hs₀.own p (List.mem_of_getElem? hp) m hm
      have hleft : FlaggedFrom (s₀.curProcIndex + 1) { s₀ with
          dbProcs := s₀.dbProcs.set s₀.curProcIndex { p with player := some m₁ } } :=
        hs₀.set hp ((collectSaves_keys hcollect).1.trans hown) (fun n hn => .inl (by omega))
          fun hn => absurd hn (by omega)
      obtain ⟨hlt, -⟩ := List.getElem?_eq_some_iff.mp hp
      refine saved_turn (s := { s₀ with
          dbProcs := s₀.dbProcs.set s₀.curProcIndex { p with player := some m₁ }
          processState := .waitSaveRsp })
        ⟨hleft.nodup, hleft.keys, hleft.own, hleft.flagged⟩ (getAllDBData_set hall _ p m₁)
        ⟨{ p with player := some m₁ }, List.getElem?_set_self hlt, ?_⟩
      rw [handleSave_uid rfl, huid, hown]

end Flags

/-! ## The answer -/

theorem entryOk_of_parse {c : Codec Info} {ds : List PBDBData} {p p' : PBDBMsg Info}
    (h : parseDBData c p ds = some p') : ∀ d ∈ ds, EntryOk c d := by
  induction ds generalizing p with
  | nil => exact fun d hd => absurd hd List.not_mem_nil
  | cons e ds ih =>
    rw [parseDBData] at h
    split at h
    · cases h
    · next k hk =>
      split at h
      · cases h
      · next f hf =>
        intro d hd
        obtain rfl | hd := List.mem_cons.mp hd
        · exact ⟨k, ofNum_eq hk, (constructDBMsg_isSome c k _ d).mp (by rw [hf]; rfl)⟩
        · exact ih h d hd

/-! ## Which entries the answer has -/

/-- Under a key that was not requested there are only the rows taken for it. -/
theorem filter_wrapResponseGet_other (rows : List (UInt64 × Row)) {request : List PBDBData}
    {k : UInt32} (hk : k ∉ request.map PBDBData.key) :
    ((wrapResponseGet rows request).filter fun e => e.key = k) =
      (rows.map rowData).filter fun e => e.key = k := by
  rw [wrapResponseGet, List.filter_append]
  have hnone : ((((request.filter fun d => d.key ∉ (rows.map rowData).map PBDBData.key).map
      fun d => (⟨d.key, none, none, none⟩ : PBDBData)).filter fun e => e.key = k) = []) := by
    refine List.filter_eq_nil_iff.mpr fun e he hkey => ?_
    obtain ⟨d, hd, rfl⟩ := List.mem_map.mp he
    exact hk (List.mem_map.mpr ⟨d, List.mem_of_mem_filter hd, of_decide_eq_true hkey⟩)
  rw [hnone, List.append_nil]

/-- The entries of the data behind a conflict under one key. -/
theorem refetched_entries (st : Store) (uid : UInt64) {ds : List PBDBData} (hne : ds ≠ [])
    (hnd : (ds.map PBDBData.key).Nodup) (k : UInt32) :
    (((getDoRequest st (tableOf uid) uid ds false).getD []).filter fun e => e.key = k) =
      if k ∈ ds.map PBDBData.key ∧ rowsUnder st uid (ds.map PBDBData.key) k = [] then [bareKey k]
      else (rowsUnder st uid (ds.map PBDBData.key) k).map (answerOf k) := by
  rw [getDoRequest_ok st uid hne, Option.getD_some]
  by_cases hk : k ∈ ds.map PBDBData.key
  · obtain ⟨d, hd, rfl⟩ := List.mem_map.mp hk
    rw [filter_wrapResponseGet _ hnd hd]
    dsimp only
    rw [found_eq st uid hnd, filter_answers]
    simp only [hk, true_and, List.map_eq_nil_iff]
    rfl
  · rw [filter_wrapResponseGet_other _ hk, found_eq st uid hnd, filter_answers]
    simp only [hk, false_and, if_false]
    rfl

/-- The two keys are not read back as each other. -/
theorem unpack_no_swap {k k' : DbKey} {uid : UInt64} (hne : k' ≠ k)
    (h : unpack k.num uid = k'.num) : unpack k'.num uid ≠ k.num := by
  intro h'
  have hm : keyMultiple.toNat = 10000000000 := rfl
  have hp : 2 ^ 64 = 18446744073709551616 := rfl
  have hnat := congrArg UInt32.toNat h
  have hnat' := congrArg UInt32.toNat h'
  have hlt : uid.toNat < 18446744073709551616 := uid.toNat_lt
  simp only [unpack, uidKey, UInt64.toNat_toUInt32, UInt64.toNat_div, UInt64.toNat_add,
    UInt64.toNat_mul, UInt32.toNat_toUInt64, Nat.mod_add_mod, hm, hp] at hnat hnat'
  have h1 : (DbKey.num .baseInfo).toNat = 1 := rfl
  have h2 : (DbKey.num .moneyInfo).toNat = 2 := rfl
  cases k with
  | baseInfo =>
    cases k' with
    | baseInfo => exact hne rfl
    | moneyInfo =>
      rw [h1, h2] at hnat hnat'
      omega
  | moneyInfo =>
    cases k' with
    | baseInfo =>
      rw [h1, h2] at hnat hnat'
      omega
    | moneyInfo => exact hne rfl

theorem eq_of_ne_ne {k k' k'' : DbKey} (h : k' ≠ k) (h' : k'' ≠ k) : k' = k'' := by
  cases k <;> cases k' <;> cases k'' <;> first | rfl | exact absurd rfl h | exact absurd rfl h'

/-! ## When the data is complete -/

section Entries

variable {c : Codec Info} {st : Store} {uid : UInt64} {ds : List PBDBData} {new : PBDBMsg Info}

theorem answerOf_key (n : UInt32) (row : Row) : (answerOf n row).key = n := rfl

theorem mem_of_entries {l : List PBDBData} {k : UInt32} {e : PBDBData} {es : List PBDBData}
    (h : (l.filter fun e => e.key = k) = es) (he : e ∈ es) : e ∈ l := by
  rw [← h] at he
  exact List.mem_of_mem_filter he

/-- A row that is taken for one of another key leaves its own key without data. -/
theorem unpack_of_complete (hne : ds ≠ []) (hnd : (ds.map PBDBData.key).Nodup)
    (hknown : ∀ n ∈ ds.map PBDBData.key, ∃ k, n = DbKey.num k)
    (hparse : parseDBData c ⟨uid, fun _ => none, fun _ => false⟩
      ((getDoRequest st (tableOf uid) uid ds false).getD []) = some new)
    {k : DbKey} (hk : k.num ∈ ds.map PBDBData.key) {row : Row}
    (hrow : st.row (uidKey k.num uid) = some row)
    (hver : ∃ i, new.field k = some ⟨i, some row.ver, some row.blob⟩) : unpack k.num uid = k.num := by
  by_contra hwrong
  obtain ⟨i, hfield⟩ := hver
  have hunder : row ∈ rowsUnder st uid (ds.map PBDBData.key) (unpack k.num uid) :=
    List.mem_filterMap.mpr ⟨k.num, hk, by rw [if_pos rfl, hrow]⟩
  have hentries := refetched_entries st uid hne hnd (unpack k.num uid)
  rw [if_neg fun he => List.ne_nil_of_mem hunder he.2] at hentries
  obtain ⟨k', hk', -⟩ := entryOk_of_parse hparse _ (mem_of_entries hentries
    (List.mem_map_of_mem (f := answerOf (unpack k.num uid)) hunder))
  rw [answerOf_key] at hk'
  have hother : k' ≠ k := by
    rintro rfl
    exact hwrong hk'
  have hown := (parseDBData_eq_some hparse).2 k
  rw [hfield, refetched_entries st uid hne hnd k.num] at hown
  by_cases hnil : rowsUnder st uid (ds.map PBDBData.key) k.num = []
  · rw [if_pos ⟨hk, hnil⟩] at hown
    cases hown
  · obtain ⟨r, hr⟩ := List.exists_mem_of_ne_nil _ hnil
    obtain ⟨n, hn, hsome⟩ := List.mem_filterMap.mp hr
    obtain ⟨k₃, rfl⟩ := hknown n hn
    split at hsome
    · next hread =>
      have hne₃ : k₃ ≠ k := by
        rintro rfl
        exact hwrong hread
      rw [eq_of_ne_ne hne₃ hother] at hread
      exact unpack_no_swap hother hk' hread
    · cases hsome

/-- The field of a key whose row is read back. -/
theorem field_of_covered (hne : ds ≠ []) (hnd : (ds.map PBDBData.key).Nodup)
    (hunpack : ∀ n ∈ ds.map PBDBData.key, (st.row (uidKey n uid)).isSome = true → unpack n uid = n)
    (hparse : parseDBData c ⟨uid, fun _ => none, fun _ => false⟩
      ((getDoRequest st (tableOf uid) uid ds false).getD []) = some new)
    {k : DbKey} {row : Row} (hrow : st.row (uidKey k.num uid) = some row) :
    (k.num ∈ ds.map PBDBData.key → ∃ i, c.parse k row.blob = some i ∧
      new.field k = some ⟨i, some row.ver, some row.blob⟩) ∧
    (k.num ∉ ds.map PBDBData.key → new.field k = none) := by
  have hentries := refetched_entries st uid hne hnd k.num
  rw [rowsUnder_of_unpack st hnd hunpack k.num, hrow] at hentries
  have hfield := (parseDBData_eq_some hparse).2 k
  rw [hentries] at hfield
  constructor
  · intro hk
    simp only [hk, if_true, Option.toList_some, true_and, reduceCtorEq, if_false, List.map_cons,
      List.map_nil, List.foldl_cons, List.foldl_nil] at hentries hfield
    obtain ⟨k', hk', hblob⟩ := entryOk_of_parse hparse _ (mem_of_entries hentries
      (List.mem_singleton.mpr rfl))
    obtain rfl : k = k' := num_inj hk'
    obtain ⟨i, hi⟩ := Option.isSome_iff_exists.mp (hblob row.blob rfl)
    refine ⟨i, hi, hfield.trans ?_⟩
    simp only [parseEntry, constructDBMsg, answerOf, hi, Option.map_some]
  · intro hk
    simp only [hk, if_false, false_and, List.map_nil, List.foldl_nil] at hfield
    exact hfield

end Entries

/-! ## Sessions that start over -/

section Redone

variable {c : Codec Info} {s s' : Session Info} {p : PBDBProcInfo Info} {m : PBDBMsg Info}
  {st : Store} {f : SqlFailures} {req : SaveRequest}

/-- The player that a session starts over with is parsed from the answer. -/
theorem redone_player (hnd : (s.dbProcs.map PBDBProcInfo.uid).Nodup)
    (hp : s.dbProcs[s.curProcIndex]? = some p) (hm : p.player = some m) (huid : req.uid = p.uid)
    (hdiff : (handleSave st req f).response.result = .verDiffer)
    (hs' : redone c s (handleSave st req f).response = some s') :
    ∃ new, parseDBData c ⟨p.uid, fun _ => none, fun _ => false⟩
        ((getDoRequest st (tableOf p.uid) p.uid req.datas f.refetch).getD []) = some new ∧
      currentPlayer s' = some (PBDBMsg.copyFrom (some m) new) := by
  have hcheck : checkVersion st req.uid f.check 0 req.datas = .verDiffer := by
    obtain ⟨-, hok, -⟩ | ⟨-, herr, -⟩ | ⟨-, -, hcheck⟩ :=
      handleSave_cases (s := st) (r := req) (f := f) rfl
    · cases hok.symm.trans hdiff
    · cases herr.symm.trans hdiff
    · exact hcheck.trans hdiff
  rw [handleSave_verDiffer hcheck, huid, Sessions.redone] at hs'
  split at hs'
  · cases hs'
  · obtain ⟨j, q, new, -, hq, hqu, hnew, rfl⟩ := reload_cases hs'
    obtain rfl : s.curProcIndex = j := index_unique hnd hp hq hqu.symm
    cases hp.symm.trans hq
    obtain ⟨hlt, -⟩ := List.getElem?_eq_some_iff.mp hp
    refine ⟨new, hnew, ?_⟩
    simp only [currentPlayer, List.getElem?_set_self hlt, Option.bind_some, hm]

/-- With every part flagged, the parts in the request are the ones that fit. -/
theorem Flagged.sent {m₁ : PBDBMsg Info} {keys : List UInt32} (hm : Flagged m) (hnd : keys.Nodup)
    (hcollect : collectSaves c keys ⟨m, []⟩ = some ⟨m₁, req.datas⟩) {k : DbKey}
    (hk : k.num ∈ keys) : k.num ∈ req.datas.map PBDBData.key ↔ Held c m₁ k := by
  rw [collectSaves_touched hcollect hnd]
  simp only [List.map_nil, List.not_mem_nil, false_or, hk, true_and]
  obtain ⟨hsent, hkept⟩ := collectSaves_field hcollect hnd k
  simp only [hk, true_and] at hsent hkept
  constructor
  · intro ht
    obtain ⟨f₁, hf₁, hinfo⟩ := hsent ht
    refine ⟨f₁, hf₁, ?_⟩
    rw [hinfo]
    exact (addSaveData_isSome c k _).mp ht.2
  · rintro ⟨f₁, hf₁, hfit⟩
    by_contra hnot
    rw [hkept hnot] at hf₁
    refine hnot ⟨hm k (by rw [hf₁]; rfl), (addSaveData_isSome c k _).mpr ?_⟩
    rw [hf₁]
    exact hfit

/-- Data that a failing `select` has brought is complete when no key has a row. -/
theorem no_rows_of_complete {keys : List UInt32} {new : PBDBMsg Info}
    (hparse : parseDBData c ⟨m.uid, fun _ => none, fun _ => false⟩
      ((getDoRequest st (tableOf m.uid) m.uid req.datas true).getD []) = some new)
    (hcomplete : Complete c st keys req m (PBDBMsg.copyFrom (some m) new)) {k : DbKey} {row : Row}
    (hk : k.num ∈ keys) : st.row (uidKey k.num m.uid) ≠ some row := by
  intro hrow
  have hnone : ∀ k, new.field k = none := (parseDBData_eq_some hparse).2
  obtain ⟨hin, hout⟩ := hcomplete k row hk hrow
  by_cases hreq : k.num ∈ req.datas.map PBDBData.key
  · obtain ⟨i, -, hnew⟩ := hin hreq
    cases (hnone k).symm.trans hnew
  · obtain ⟨hsome, hsame⟩ := hout hreq
    rw [← hsame] at hsome
    cases (congrArg Option.isSome (hnone k)).symm.trans hsome

section Selected

variable {keys : List UInt32} {new : PBDBMsg Info} (hne : req.datas ≠ [])
  (hsub : (req.datas.map PBDBData.key).Sublist keys) (hkeys : keys.Nodup)
  (hknown : ∀ n ∈ keys, ∃ k, n = DbKey.num k)
  (hheld : ∀ k, DbKey.num k ∈ keys → (k.num ∈ req.datas.map PBDBData.key ↔ Held c m k))
  (hparse : parseDBData c ⟨m.uid, fun _ => none, fun _ => false⟩
    ((getDoRequest st (tableOf m.uid) m.uid req.datas false).getD []) = some new)
include hne hsub hkeys hknown hheld hparse

theorem covered_of_complete (hf : f.refetch = false)
    (hcomplete : Complete c st keys req m (PBDBMsg.copyFrom (some m) new)) :
    Covered c st keys m f := by
  have hnd : (req.datas.map PBDBData.key).Nodup := hkeys.sublist hsub
  have hunpack : ∀ n ∈ req.datas.map PBDBData.key,
      (st.row (uidKey n m.uid)).isSome = true → unpack n m.uid = n := by
    intro n hn hsome
    obtain ⟨k, rfl⟩ := hknown n (hsub.subset hn)
    obtain ⟨row, hrow⟩ := Option.isSome_iff_exists.mp hsome
    obtain ⟨i, -, hnew⟩ := (hcomplete k row (hsub.subset hn) hrow).1 hn
    exact unpack_of_complete hne hnd (fun n hn => hknown n (hsub.subset hn)) hparse hn hrow
      ⟨i, hnew⟩
  intro k row hk hrow
  by_cases hreq : k.num ∈ req.datas.map PBDBData.key
  · exact ⟨hf, (hheld k hk).mp hreq, hunpack _ hreq (by rw [hrow]; rfl)⟩
  · have hlost := (field_of_covered hne hnd hunpack hparse hrow).2 hreq
    obtain ⟨hsome, hsame⟩ := (hcomplete k row hk hrow).2 hreq
    rw [← hsame] at hsome
    cases (congrArg Option.isSome hlost).symm.trans hsome

theorem complete_of_covered (hcovered : Covered c st keys m f) :
    Complete c st keys req m (PBDBMsg.copyFrom (some m) new) := by
  have hnd : (req.datas.map PBDBData.key).Nodup := hkeys.sublist hsub
  have hunpack : ∀ n ∈ req.datas.map PBDBData.key,
      (st.row (uidKey n m.uid)).isSome = true → unpack n m.uid = n := by
    intro n hn hsome
    obtain ⟨k, rfl⟩ := hknown n (hsub.subset hn)
    obtain ⟨row, hrow⟩ := Option.isSome_iff_exists.mp hsome
    exact (hcovered k row (hsub.subset hn) hrow).2.2
  intro k row hk hrow
  have hreq := (hheld k hk).mpr (hcovered k row hk hrow).2.1
  exact ⟨fun _ => (field_of_covered hne hnd hunpack hparse hrow).1 hreq,
    fun hnot => absurd hreq hnot⟩

end Selected

/-- The data behind a conflict is complete when the request covers every key with a row. -/
theorem complete_iff_covered {keys : List UInt32} (hne : req.datas ≠ [])
    (hsub : (req.datas.map PBDBData.key).Sublist keys) (hkeys : keys.Nodup)
    (hknown : ∀ n ∈ keys, ∃ k, n = DbKey.num k)
    (hheld : ∀ k, DbKey.num k ∈ keys → (k.num ∈ req.datas.map PBDBData.key ↔ Held c m k))
    {new : PBDBMsg Info} (hparse : parseDBData c ⟨m.uid, fun _ => none, fun _ => false⟩
      ((getDoRequest st (tableOf m.uid) m.uid req.datas f.refetch).getD []) = some new) :
    Complete c st keys req m (PBDBMsg.copyFrom (some m) new) ↔ Covered c st keys m f := by
  cases hf : f.refetch with
  | true =>
    rw [hf] at hparse
    constructor
    · exact fun hcomplete k row hk hrow => absurd hrow (no_rows_of_complete hparse hcomplete hk)
    · intro hcovered k row hk hrow
      cases hf.symm.trans (hcovered k row hk hrow).1
  | false =>
    rw [hf] at hparse
    exact ⟨covered_of_complete hne hsub hkeys hknown hheld hparse hf,
      complete_of_covered hne hsub hkeys hknown hheld hparse⟩

end Redone

/-- When a save meets another version, `OnProcessData` runs again. It runs on complete data when the
session still has every part with a row, each fits in a request and can be read from its row, and the
`select` behind the check works, and only then. -/
theorem redo_complete_iff (c : Codec Info) (h : Handler Info) (s : Session Info) (req : SaveRequest)
    (hw : Worked c h ⟨some s, [.save req]⟩) (st : Store) (f : SqlFailures)
    (hdiff : (handleSave st req f).response.result = .verDiffer) (s' : Session Info)
    (hs' : redone c s (handleSave st req f).response = some s') :
    saveResponse c h s (handleSave st req f).response = processData c h s' ∧
    ∃ p m new, s.dbProcs[s.curProcIndex]? = some p ∧ p.player = some m ∧
      currentPlayer s' = some new ∧
      (Complete c st p.keys req m new ↔ Covered c st p.keys m f) := by
  refine ⟨saveResponse_redone c h hdiff hs', ?_⟩
  obtain ⟨-, hno⟩ | ⟨s₀, hs₀, hall, hsave⟩ := hw.turn s rfl
  · exact absurd (List.mem_singleton.mpr rfl) (hno req)
  obtain ⟨p, m₀, m, req', hp, hm₀, hreq, huid, hsub, hne, hcollect, hs⟩ := saveOneData_left hall hsave
  cases hreq
  have hmem := List.mem_of_getElem? hp
  obtain ⟨hnd, hknown⟩ := hs₀.keys p hmem
  have hown := hs₀.own p hmem m₀ hm₀
  have hmuid : m.uid = p.uid := (collectSaves_keys hcollect).1.trans hown
  have hheld : ∀ k, k.num ∈ p.keys → (k.num ∈ req.datas.map PBDBData.key ↔ Held c m k) :=
    fun k hk => (hs₀.flagged _ p m₀ (Nat.le_refl _) hp hm₀).sent hnd hcollect hk
  obtain ⟨hlt, -⟩ := List.getElem?_eq_some_iff.mp hp
  have hcur : s.dbProcs[s.curProcIndex]? = some { p with player := some m } := by
    rw [hs]
    exact List.getElem?_set_self hlt
  have huids : (s.dbProcs.map PBDBProcInfo.uid).Nodup := by
    rw [hs, set_uids hp]
    exact hs₀.nodup
  obtain ⟨new, hparse, hnew⟩ := redone_player huids hcur rfl (huid.trans hown) hdiff hs'
  refine ⟨_, m, _, hcur, rfl, hnew, complete_iff_covered hne hsub hnd hknown hheld ?_⟩
  rw [hmuid]
  exact hparse

/-- Both parts of player 7: the base info at version 2 and the money at version 3. -/
def bothTables : UInt64 → UInt64 → Option Row := fun n k =>
  if n = 7 ∧ k = uidKey 1 7 then some ⟨[6], 2⟩
  else if n = 7 ∧ k = uidKey 2 7 then some ⟨[9], 3⟩ else none

def newerTables : UInt64 → UInt64 → Option Row := fun n k =>
  if n = 7 ∧ k = uidKey 1 7 then some ⟨[6], 2⟩
  else if n = 7 ∧ k = uidKey 2 7 then some ⟨[8], 5⟩ else none

/-- A handler that asks for both parts of player 7 and adds a byte to the money. -/
def addToBoth : Handler Blob := { addMoney with keys := [(7, .baseInfo), (7, .moneyInfo)] }

def getBoth : GetRequest := ⟨7, [⟨1, none, none, none⟩, ⟨2, none, none, none⟩]⟩

def saveBoth : SaveRequest := ⟨7, [⟨1, some [6], some 3, some [6]⟩, ⟨2, some [9, 1], some 4, some [9]⟩]⟩

/-- The session of `addToBoth` while it waits for its data, with them, and while its save is on the
way. -/
def askedBoth : Session Blob := ⟨[⟨7, [1, 2], none⟩], 0, 0, .waitGetRsp⟩

def fetchedBoth : Session Blob :=
  (reload plainCodec askedBoth (handleGet (fresh bothTables) getBoth false)).getD askedBoth

def savingBoth : Session Blob :=
  (saveOneData plainCodec (processed plainCodec addToBoth fetchedBoth)).session.getD fetchedBoth

theorem savingBoth_worked : Worked plainCodec addToBoth ⟨some savingBoth, [.save saveBoth]⟩ := by
  have hget := Worked.got (handleGet (fresh bothTables) getBoth false)
    (Worked.start (c := plainCodec) (h := addToBoth))
  have hreload : reload plainCodec askedBoth (handleGet (fresh bothTables) getBoth false) =
      some fetchedBoth := rfl
  have hsave : process plainCodec addToBoth askedBoth
      (.get (handleGet (fresh bothTables) getBoth false)) =
      saveOneData plainCodec (processed plainCodec addToBoth fetchedBoth) := by
    have hall : getAllDBData fetchedBoth.dbProcs = true := rfl
    have hresult : (addToBoth.onProcessData fetchedBoth).result = .save := rfl
    have hok : (handleGet (fresh bothTables) getBoth false).result = .ok := rfl
    have hwait : askedBoth.processState = .waitGetRsp := rfl
    simp only [process, hwait, if_true, getResponse, hok, hreload, hall, processData, hresult, proceed]
  have hsent : saveOneData plainCodec (processed plainCodec addToBoth fetchedBoth) =
      ⟨some savingBoth, [.save saveBoth]⟩ := rfl
  rw [← hsent, ← hsave]
  exact hget

def savedBoth : PBDBMsg Blob := (currentPlayer savingBoth).getD ⟨7, fun _ => none, fun _ => false⟩

/-- A session that has asked for both parts starts over with what is stored. -/
theorem redo_complete_both : ∃ s' new,
    redone plainCodec savingBoth (handleSave (fresh newerTables) saveBoth .never).response =
      some s' ∧ currentPlayer s' = some new ∧
      Complete plainCodec (fresh newerTables) [1, 2] saveBoth savedBoth new := by
  have hdiff : (handleSave (fresh newerTables) saveBoth .never).response.result = .verDiffer := rfl
  obtain ⟨s', hs'⟩ := Option.isSome_iff_exists.mp (show (redone plainCodec savingBoth
    (handleSave (fresh newerTables) saveBoth .never).response).isSome = true from rfl)
  obtain ⟨-, p, m, new, hp, hm, hnew, hiff⟩ := redo_complete_iff plainCodec addToBoth savingBoth
    saveBoth savingBoth_worked (fresh newerTables) .never hdiff s' hs'
  have hcur : savingBoth.dbProcs[0]? = some ⟨7, [1, 2], some savedBoth⟩ := rfl
  cases hcur.symm.trans hp
  cases hm
  refine ⟨s', new, hs', hnew, hiff.mpr fun k row _ _ => ⟨rfl, ?_, ?_⟩⟩
  · cases k
    · exact ⟨⟨[6], some 3, some [6]⟩, rfl, by decide⟩
    · exact ⟨⟨[9, 1], some 4, some [9]⟩, rfl, by decide⟩
  · exact unpack_of_lt (by cases k <;> decide) (by decide)

def failedSelect : SqlFailures := { SqlFailures.never with refetch := true }

/-- When the `select` behind the check fails, the session starts over without any data. -/
theorem redo_loses_data : ∃ s' new,
    Worked plainCodec addToBoth ⟨some savingBoth, [.save saveBoth]⟩ ∧
      (handleSave (fresh newerTables) saveBoth failedSelect).response.result = .verDiffer ∧
      redone plainCodec savingBoth (handleSave (fresh newerTables) saveBoth failedSelect).response =
        some s' ∧ currentPlayer s' = some new ∧ (∀ k, new.field k = none) ∧
      ¬ Complete plainCodec (fresh newerTables) [1, 2] saveBoth savedBoth new := by
  obtain ⟨s', hs'⟩ := Option.isSome_iff_exists.mp (show (redone plainCodec savingBoth
    (handleSave (fresh newerTables) saveBoth failedSelect).response).isSome = true from rfl)
  have huids : (savingBoth.dbProcs.map PBDBProcInfo.uid).Nodup := List.nodup_singleton _
  obtain ⟨new, hparse, hnew⟩ := redone_player (m := savedBoth) huids rfl rfl rfl rfl hs'
  have hnone : ∀ k, new.field k = none := (parseDBData_eq_some hparse).2
  refine ⟨s', _, savingBoth_worked, rfl, hs', hnew, hnone, fun hcomplete => ?_⟩
  obtain ⟨i, -, hfield⟩ := (hcomplete .baseInfo ⟨[6], 2⟩ (by decide) rfl).1 (by decide)
  cases (hnone .baseInfo).symm.trans hfield

end Sessions
