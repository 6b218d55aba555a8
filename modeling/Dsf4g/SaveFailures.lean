import Mathlib.Data.Nat.ModEq
import Dsf4g.SaveGet

/-!
# Saves that are not accepted

`UserDataSaveHandle::Handle` checks all versions before it writes, and then writes one
row for each statement. When a statement fails, the rows before it stay. When a version
differs, the answer carries what a `select` finds, and the result does not tell whether
that `select` has failed.
-/
namespace DbProxy

/-! ## Failed saves -/

/-- A save that is not answered with `E_HANDLE_OK` leaves every row and every cached version. -/
def Unchanged (s : Store) (r : SaveRequest) (f : SqlFailures) : Prop :=
  (handleSave s r f).response.result ≠ .ok →
    (∀ t k, (handleSave s r f).store.tables t k = s.tables t k) ∧
      ∀ k, (handleSave s r f).store.cache k = s.cache k

/-- When a statement fails behind a check that passed, the rows before it are written with what they
held. -/
def Harmless (s : Store) (r : SaveRequest) (f : SqlFailures) : Prop :=
  checkVersion s r.uid f.check 0 r.datas = .ok → written f.replace 0 r.datas ≠ r.datas →
    ∀ k e, lastFor r.uid k (written f.replace 0 r.datas) = some e →
      s.row k = some ⟨e.bytes, e.version⟩

/-- Rows under keys of another table are not touched. -/
theorem saveDoRequest_tables (s : Store) (uid : UInt64) (fails : Nat → Bool) (i : Nat)
    (ds : List PBDBData) {t k : UInt64} (h : k % totalTableNum ≠ t) :
    (saveDoRequest s uid fails i ds).store.tables t k = s.tables t k := by
  induction ds generalizing s i with
  | nil => rfl
  | cons d ds ih =>
    simp only [saveDoRequest]
    split
    · rfl
    · rw [ih]
      simp only [replaceRow]
      by_cases ht : t = tableOf uid
      · subst ht
        have hk : k ≠ saveKey uid d := by
          rintro rfl
          exact h (saveKey_table uid d)
        rw [Function.update_self, Function.update_of_ne hk]
      · rw [Function.update_of_ne ht]

theorem not_success {s : Store} {uid : UInt64} {fails : Nat → Bool} {i : Nat} {ds : List PBDBData}
    (h : (saveDoRequest s uid fails i ds).success = false) : written fails i ds ≠ ds := by
  intro hw
  rw [success_of_written hw] at h
  cases h

/-- Writing rows with what they hold changes no table. -/
theorem saveDoRequest_same {s : Store} {uid : UInt64} {fails : Nat → Bool} {i : Nat}
    {ds : List PBDBData} (h : ∀ k e, lastFor uid k (written fails i ds) = some e →
      s.row k = some ⟨e.bytes, e.version⟩) (t k : UInt64) :
    (saveDoRequest s uid fails i ds).store.tables t k = s.tables t k := by
  by_cases ht : k % totalTableNum = t
  · subst ht
    show (saveDoRequest s uid fails i ds).store.row k = s.row k
    rw [saveDoRequest_row]
    cases hl : lastFor uid k (written fails i ds) with
    | none => rfl
    | some e =>
      rw [h k e hl]
      rfl
  · exact saveDoRequest_tables s uid fails i ds ht

/-- A failed save has no effect when the rows before the failed statement held what was written to
them, and only then. -/
theorem failed_save_unchanged_iff (s : Store) (r : SaveRequest) (f : SqlFailures) :
    Unchanged s r f ↔ Harmless s r f := by
  constructor
  · intro h hcheck hw k e he
    have hfail : (saveDoRequest s r.uid f.replace 0 r.datas).success = false := by
      by_contra hsucc
      exact hw (written_of_success (Bool.eq_true_of_not_eq_false hsucc))
    have hsave : handleSave s r f =
        ⟨(saveDoRequest s r.uid f.replace 0 r.datas).store, .error, r.uid, []⟩ := by
      simp only [handleSave, hcheck, hfail, Bool.false_eq_true, if_false]
    rw [Unchanged, hsave] at h
    have hrow := (h (by simp)).1 (k % totalTableNum) k
    have hwrote := saveDoRequest_row s r.uid f.replace 0 r.datas k
    rw [he] at hwrote
    exact hrow.symm.trans hwrote
  · intro h hne
    obtain ⟨-, hok, -⟩ | ⟨hcheck, -, hfail, hstore⟩ | ⟨hstore, -⟩ :=
      handleSave_cases (s := s) (r := r) (f := f) rfl
    · exact absurd hok hne
    · rw [hstore]
      exact ⟨saveDoRequest_same (h hcheck (not_success hfail)),
        fun k => by rw [saveDoRequest_cache]⟩
    · rw [hstore]
      exact ⟨fun _ _ => rfl, fun _ => rfl⟩

/-- With a cache that can be trusted a written row has another version than before, so only a failure
of the first statement is harmless. -/
theorem harmless_iff_first {s : Store} (hc : Coherent s) (r : SaveRequest) (f : SqlFailures) :
    Harmless s r f ↔
      (checkVersion s r.uid f.check 0 r.datas = .ok → written f.replace 0 r.datas ≠ r.datas →
        written f.replace 0 r.datas = []) := by
  constructor
  · intro h hcheck hw
    by_contra hne
    obtain ⟨d, hd⟩ := List.exists_mem_of_ne_nil _ hne
    have hlast : (lastFor r.uid (saveKey r.uid d) (written f.replace 0 r.datas)).isSome = true :=
      lastFor_isSome hd
    obtain ⟨e, he⟩ := Option.isSome_iff_exists.mp hlast
    have hrow := h hcheck hw _ e he
    obtain ⟨hmem, hkey⟩ := mem_of_lastFor he
    obtain ⟨b, hb⟩ := checkVersion_ok hcheck e (written_subset hmem)
    rw [← hkey] at hrow
    have hver : e.version - 1 = e.version := (checkItem_eq hc hb hrow).1 rfl
    have hnat := congrArg UInt32.toNat hver
    rw [UInt32.toNat_sub] at hnat
    have hlt := e.version.toNat_lt
    simp only [UInt32.toNat_one] at hnat
    omega
  · intro h hcheck hw k e he
    rw [h hcheck hw] at he
    cases he

/-- The second of two statements fails, and the row of the first is there. -/
theorem failed_save_leaves_first_row :
    ¬ Unchanged (fresh fun _ _ => none) (bothKeys 1) secondFails := by
  intro h
  have hresult : (handleSave (fresh fun _ _ => none) (bothKeys 1) secondFails).response.result ≠
      .ok := by decide +kernel
  have hrow : (handleSave (fresh fun _ _ => none) (bothKeys 1) secondFails).store.tables 5
      (uidKey 1 5) = some ⟨[1], 1⟩ := by decide +kernel
  cases hrow.symm.trans ((h hresult).1 5 (uidKey 1 5))

/-! ## Answers to saves with another version -/

/-- What is stored for a key: nothing but the key when there is no row. -/
def storedData (s : Store) (uid : UInt64) (k : UInt32) : PBDBData :=
  ⟨k, (s.row (uidKey k uid)).map Row.blob, (s.row (uidKey k uid)).map Row.ver, none⟩

/-- Every requested key is answered once, with what is stored for it. -/
def Answers (s : Store) (r : SaveRequest) (datas : List PBDBData) : Prop :=
  ∀ d ∈ r.datas, (datas.filter fun e => e.key = d.key) = [storedData s r.uid d.key]

/-- An answer with another version carries what is stored, and when that cannot be read the answer is
an error. -/
def CurrentAnswer (s : Store) (r : SaveRequest) (f : SqlFailures) : Prop :=
  ((handleSave s r f).response.result = .verDiffer →
    Answers s r (handleSave s r f).response.datas) ∧
  (checkVersion s r.uid f.check 0 r.datas = .verDiffer → f.refetch = true →
    (handleSave s r f).response.result = .error)

/-- The key that `WrapResponseGet` finds in the `uid_key` of a key. -/
def unpack (k : UInt32) (uid : UInt64) : UInt32 := (uidKey k uid / keyMultiple).toUInt32

/-- The rows of some keys whose `uid_key` is taken for one of `k`. -/
def rowsUnder (s : Store) (uid : UInt64) (keys : List UInt32) (k : UInt32) : List Row :=
  keys.filterMap fun k' => if unpack k' uid = k then s.row (uidKey k' uid) else none

/-- When a version differs, the `select` behind the check works, and the rows it finds are taken for
those of their keys. -/
def Readable (s : Store) (r : SaveRequest) (f : SqlFailures) : Prop :=
  checkVersion s r.uid f.check 0 r.datas = .verDiffer →
    f.refetch = false ∧ ∀ d ∈ r.datas,
      rowsUnder s r.uid (r.datas.map PBDBData.key) d.key = (s.row (uidKey d.key r.uid)).toList

/-- `KEY_MULTIPLE` is no multiple of a large power of two. -/
theorem eq_of_modEq {a b u : Nat} (ha : a < 2 ^ 32) (hb : b < 2 ^ 32)
    (h : a * 10000000000 + u ≡ b * 10000000000 + u [MOD 18446744073709551616]) : a = b := by
  have hmul : a * 9765625 * 1024 ≡ b * 9765625 * 1024 [MOD 18014398509481984 * 1024] := by
    simpa only [Nat.mul_assoc] using Nat.ModEq.add_right_cancel' u h
  have hodd : a * 9765625 ≡ b * 9765625 [MOD 18014398509481984] :=
    Nat.ModEq.mul_right_cancel' (by decide) hmul
  have heq : a ≡ b [MOD 18014398509481984] :=
    Nat.ModEq.cancel_right_of_coprime (by decide) hodd
  exact heq.eq_of_lt_of_lt (by omega) (by omega)

/-- Different keys have different rows, although the product may overflow. -/
theorem uidKey_injective {k k' : UInt32} {uid : UInt64} (h : uidKey k uid = uidKey k' uid) : k = k' := by
  have hm : keyMultiple.toNat = 10000000000 := rfl
  have hp : 2 ^ 64 = 18446744073709551616 := rfl
  have hnat := congrArg UInt64.toNat h
  simp only [uidKey, UInt64.toNat_add, UInt64.toNat_mul, UInt32.toNat_toUInt64, Nat.mod_add_mod, hm,
    hp] at hnat
  exact UInt32.toNat_inj.mp (eq_of_modEq k.toNat_lt k'.toNat_lt hnat)

def answerOf (k : UInt32) (r : Row) : PBDBData := ⟨k, some r.blob, some r.ver, none⟩

theorem rowData_eq (k : UInt32) (uid : UInt64) (r : Row) :
    rowData (uidKey k uid, r) = answerOf (unpack k uid) r := rfl

/-- What the rows that the `select` of a request finds are turned into. -/
theorem found_eq (s : Store) (uid : UInt64) {keys : List UInt32} (h : keys.Nodup) :
    (selectRows s (tableOf uid) (keys.map fun k => uidKey k uid)).map rowData =
      keys.filterMap fun k => (s.row (uidKey k uid)).map (answerOf (unpack k uid)) := by
  have hnd : (keys.map fun k => uidKey k uid).Nodup :=
    h.map fun _ _ he => uidKey_injective he
  rw [selectRows, eraseDups_of_nodup hnd, List.filterMap_map, List.map_filterMap]
  refine List.filterMap_congr fun k _ => ?_
  simp only [Function.comp_apply, Option.map_map]
  rw [Store.row, uidKey_table]
  rfl

/-- The entries under one key. -/
theorem filter_answers (key : UInt32 → UInt32) (row : UInt32 → Option Row) (keys : List UInt32)
    (k : UInt32) :
    ((keys.filterMap fun k' => (row k').map (answerOf (key k'))).filter fun e => e.key = k) =
      (keys.filterMap fun k' => if key k' = k then row k' else none).map (answerOf k) := by
  induction keys with
  | nil => rfl
  | cons k' keys ih =>
    rw [List.filterMap_cons, List.filterMap_cons]
    cases row k' with
    | none =>
      simp only [Option.map_none, ite_self]
      exact ih
    | some r =>
      simp only [Option.map_some]
      by_cases hk : key k' = k
      · rw [List.filter_cons_of_pos (by rw [decide_eq_true_eq]; exact hk), ih, if_pos hk,
          List.map_cons, hk]
      · rw [List.filter_cons_of_neg (by rw [decide_eq_true_eq]; exact hk), ih, if_neg hk]

/-- Under one key there are the rows found for it, or else the bare key. -/
theorem filter_wrapResponseGet (rows : List (UInt64 × Row)) {request : List PBDBData}
    (h : (request.map PBDBData.key).Nodup) {d : PBDBData} (hd : d ∈ request) :
    ((wrapResponseGet rows request).filter fun e => e.key = d.key) =
      let found := (rows.map rowData).filter fun e => e.key = d.key
      if found = [] then [bareKey d.key] else found := by
  have hbare : (((request.filter fun e => e.key ∉ (rows.map rowData).map PBDBData.key).map
      fun e => (⟨e.key, none, none, none⟩ : PBDBData)).filter fun e => e.key = d.key) =
      if d.key ∉ (rows.map rowData).map PBDBData.key then [bareKey d.key] else [] := by
    rw [List.filter_map, List.filter_filter]
    have hcomm : (request.filter fun e =>
        ((fun e : PBDBData => decide (e.key = d.key)) ∘ fun e => ⟨e.key, none, none, none⟩) e &&
          decide (e.key ∉ (rows.map rowData).map PBDBData.key)) =
        (request.filter fun e => e.key = d.key).filter fun e =>
          e.key ∉ (rows.map rowData).map PBDBData.key := by
      rw [List.filter_filter]
      refine List.filter_congr fun e _ => ?_
      rw [Bool.and_comm]
      rfl
    rw [hcomm, filter_key h hd]
    by_cases hk : d.key ∉ (rows.map rowData).map PBDBData.key
    · rw [if_pos hk, List.filter_cons_of_pos (by rw [decide_eq_true_eq]; exact hk)]
      rfl
    · rw [if_neg hk, List.filter_cons_of_neg (by rw [decide_eq_true_eq]; exact hk)]
      rfl
  have hfound : (rows.map rowData).filter (fun e => e.key = d.key) = [] ↔
      d.key ∉ (rows.map rowData).map PBDBData.key := by
    rw [List.filter_eq_nil_iff]
    constructor
    · intro hnone hmem
      obtain ⟨e, he, hkey⟩ := List.mem_map.mp hmem
      exact hnone e he (decide_eq_true hkey)
    · intro hmem e he hkey
      exact hmem (List.mem_map.mpr ⟨e, he, of_decide_eq_true hkey⟩)
  simp only [wrapResponseGet, List.filter_append]
  rw [hbare]
  by_cases hk : d.key ∉ (rows.map rowData).map PBDBData.key
  · rw [if_pos hk, if_pos (hfound.mpr hk), hfound.mpr hk, List.nil_append]
  · rw [if_neg hk, if_neg (fun he => hk (hfound.mp he)), List.append_nil]

theorem answerOf_inj {k : UInt32} {r r' : Row} (h : answerOf k r = answerOf k r') : r = r' := by
  cases r
  cases r'
  simp only [answerOf, PBDBData.mk.injEq, Option.some.injEq] at h
  rw [h.2.1, h.2.2.1]

/-- The entries under a key are right when the rows taken for it are the one it has. -/
theorem entries_iff (k : UInt32) (row : Option Row) (l : List Row) :
    (if l.map (answerOf k) = [] then [bareKey k] else l.map (answerOf k)) =
      [⟨k, row.map Row.blob, row.map Row.ver, none⟩] ↔ l = row.toList := by
  cases l with
  | nil =>
    cases row with
    | none => exact ⟨fun _ => rfl, fun _ => rfl⟩
    | some r => exact ⟨fun h => by simp [bareKey] at h, fun h => by cases h⟩
  | cons r' l =>
    rw [if_neg (by simp)]
    cases row with
    | none => exact ⟨fun h => by simp [answerOf] at h, fun h => by cases h⟩
    | some r =>
      constructor
      · intro h
        obtain ⟨hhead, htail⟩ := List.cons.inj h
        rw [@answerOf_inj k _ r hhead, List.map_eq_nil_iff.mp htail]
        rfl
      · intro h
        obtain ⟨rfl, rfl⟩ := List.cons.inj h
        rfl

/-- The `select` of a request with keys. -/
theorem getDoRequest_ok (s : Store) (uid : UInt64) {ds : List PBDBData} (hne : ds ≠ []) :
    getDoRequest s (tableOf uid) uid ds false =
      some (wrapResponseGet (selectRows s (tableOf uid) ((ds.map PBDBData.key).map fun k =>
        uidKey k uid)) ds) := by
  rw [List.map_map]
  simp only [getDoRequest, List.isEmpty_eq_false_iff.mpr hne, Bool.or_self, Bool.false_eq_true,
    if_false]
  rfl

/-- The data behind a difference is right when the rows are taken for those of their keys. -/
theorem answers_iff (s : Store) (r : SaveRequest) (h : (r.datas.map PBDBData.key).Nodup)
    (hne : r.datas ≠ []) :
    Answers s r ((getDoRequest s (tableOf r.uid) r.uid r.datas false).getD []) ↔
      ∀ d ∈ r.datas,
        rowsUnder s r.uid (r.datas.map PBDBData.key) d.key = (s.row (uidKey d.key r.uid)).toList := by
  rw [getDoRequest_ok s r.uid hne, Option.getD_some]
  refine forall_congr' fun d => forall_congr' fun hd => ?_
  rw [filter_wrapResponseGet _ h hd]
  dsimp only
  rw [found_eq s r.uid h, filter_answers]
  exact entries_iff d.key _ _

/-- A save that is refused writes nothing, and answers with what it reads again. -/
theorem handleSave_verDiffer {s : Store} {r : SaveRequest} {f : SqlFailures}
    (h : checkVersion s r.uid f.check 0 r.datas = .verDiffer) :
    handleSave s r f = ⟨s, .verDiffer, r.uid,
      (getDoRequest s (tableOf r.uid) r.uid r.datas f.refetch).getD []⟩ := by
  simp only [handleSave, h]

/-- An answer with another version is right when the data can be read behind it and its keys can be
read from the rows, and only then. -/
theorem verDiffer_current_iff (s : Store) (r : SaveRequest) (f : SqlFailures)
    (h : (r.datas.map PBDBData.key).Nodup) : CurrentAnswer s r f ↔ Readable s r f := by
  have hne : checkVersion s r.uid f.check 0 r.datas = .verDiffer → r.datas ≠ [] := by
    intro hcheck hnil
    rw [hnil] at hcheck
    cases hcheck
  constructor
  · intro hc hcheck
    rw [CurrentAnswer, handleSave_verDiffer hcheck] at hc
    obtain ⟨hanswers, herror⟩ := hc
    have hread : f.refetch = false := by
      by_contra hfail
      cases herror hcheck (Bool.eq_true_of_not_eq_false hfail)
    refine ⟨hread, (answers_iff s r h (hne hcheck)).mp ?_⟩
    rw [← hread]
    exact hanswers rfl
  · intro hr
    refine ⟨fun hresult => ?_, fun hcheck hfail => ?_⟩
    · obtain ⟨-, hok, -⟩ | ⟨-, herr, -⟩ | ⟨-, -, hcheck⟩ :=
        handleSave_cases (s := s) (r := r) (f := f) rfl
      · cases hok.symm.trans hresult
      · cases herr.symm.trans hresult
      · rw [hresult] at hcheck
        obtain ⟨hread, hrows⟩ := hr hcheck
        rw [handleSave_verDiffer hcheck, hread]
        exact (answers_iff s r h (hne hcheck)).mpr hrows
    · cases hfail.symm.trans (hr hcheck).1

/-- A key is read back from its `uid_key` when the uid is below `KEY_MULTIPLE`. -/
theorem unpack_of_lt {k : UInt32} {uid : UInt64} (hk : k.toNat * 10000000000 + uid.toNat < 2 ^ 64)
    (huid : uid.toNat < 10000000000) : unpack k uid = k := by
  apply UInt32.toNat_inj.mp
  have hlt := k.toNat_lt
  have hm : keyMultiple.toNat = 10000000000 := rfl
  rw [unpack, UInt64.toNat_toUInt32, UInt64.toNat_div, uidKey_toNat hk, hm]
  omega

/-- When the keys with rows are read back, the rows taken for a key are its own. -/
theorem rowsUnder_of_unpack (s : Store) {uid : UInt64} {keys : List UInt32} (hnd : keys.Nodup)
    (h : ∀ k ∈ keys, (s.row (uidKey k uid)).isSome = true → unpack k uid = k) (k : UInt32) :
    rowsUnder s uid keys k = if k ∈ keys then (s.row (uidKey k uid)).toList else [] := by
  have hown : rowsUnder s uid keys k =
      (keys.filter (· = k)).filterMap fun k' => s.row (uidKey k' uid) := by
    rw [rowsUnder, List.filterMap_filter]
    refine List.filterMap_congr fun k' hk' => ?_
    cases hrow : s.row (uidKey k' uid) with
    | none => simp only [ite_self]
    | some r =>
      rw [h k' hk' (by rw [hrow]; rfl)]
      simp only [decide_eq_true_eq]
  rw [hown, List.filter_eq]
  split
  · next hk =>
    rw [List.count_eq_one_of_mem hnd hk]
    cases hrow : s.row (uidKey k uid) with
    | none => simp only [List.replicate, List.filterMap_cons, hrow, List.filterMap_nil, Option.toList]
    | some r => simp only [List.replicate, List.filterMap_cons, hrow, List.filterMap_nil, Option.toList]
  · next hk =>
    rw [List.count_eq_zero_of_not_mem hk]
    rfl

/-- For the uids that fit into a `uid_key`, only the `select` matters. -/
theorem readable_iff_of_fits (s : Store) {r : SaveRequest} (f : SqlFailures)
    (h : Addressable r.uid (r.datas.map PBDBData.key)) (huid : r.uid.toNat < 10000000000) :
    Readable s r f ↔
      (checkVersion s r.uid f.check 0 r.datas = .verDiffer → f.refetch = false) := by
  refine ⟨fun hr hcheck => (hr hcheck).1, fun hr hcheck => ⟨hr hcheck, fun d hd => ?_⟩⟩
  rw [rowsUnder_of_unpack s h.nodup (fun k hk _ => unpack_of_lt (h.fits k hk) huid),
    if_pos (List.mem_map_of_mem hd)]

/-- A row of the first key is at version 5. -/
def sampleStored : Store := fresh fun t k => if t = 7 ∧ k = uidKey 1 7 then some ⟨[1], 5⟩ else none

/-- The save of a client that has seen version `ver - 1`. -/
def sampleOld (ver : UInt32) : SaveRequest := ⟨7, [⟨1, some [2], some ver, none⟩]⟩

theorem verDiffer_current_read :
    ((sampleOld 1).datas.map PBDBData.key).Nodup ∧
      checkVersion sampleStored 7 SqlFailures.never.check 0 (sampleOld 1).datas = .verDiffer ∧
      CurrentAnswer sampleStored (sampleOld 1) .never := by
  have hnd : ((sampleOld 1).datas.map PBDBData.key).Nodup := List.nodup_singleton _
  refine ⟨hnd, by decide +kernel, ?_⟩
  exact (verDiffer_current_iff sampleStored (sampleOld 1) .never hnd).mpr fun _ =>
    ⟨rfl, by decide +kernel⟩

/-- The version differs and the `select` behind the check fails. -/
theorem verDiffer_without_data :
    ¬ CurrentAnswer sampleStored (sampleOld 1) ⟨fun _ => false, fun _ => false, true⟩ := by
  intro h
  have hcheck : checkVersion sampleStored 7 (fun _ => false) 0 (sampleOld 1).datas = .verDiffer := by
    decide +kernel
  rw [CurrentAnswer, handleSave_verDiffer hcheck] at h
  cases h.2 hcheck rfl

end DbProxy
