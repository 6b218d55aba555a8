import Mathlib.Data.List.MinMax
import Mathlib.Data.List.Nodup
import Dsf4g.VersionCache

/-!
# What a get reads after a save

The save handlers take the uid as `unsigned int`, the get handler as `uint64`. Both
multiply the key by `KEY_MULTIPLE` and add the uid, and the get handler divides
again to find the key of a row. The two agree on uids of 32 bits, and two users
share a row when their uids differ by a multiple of `KEY_MULTIPLE`.
-/
namespace DbProxy

/-- The keys of a request are different, and their `uid_key`s fit into 64 bits. -/
structure Addressable (uid : UInt64) (keys : List UInt32) : Prop where
  nodup : keys.Nodup
  fits : ∀ k ∈ keys, k.toNat * 10000000000 + uid.toNat < 2 ^ 64

def bareKey (k : UInt32) : PBDBData := ⟨k, none, none, none⟩

def getKeys (s : Store) (uid : UInt64) (keys : List UInt32) : Response :=
  handleGet s ⟨uid, keys.map bareKey⟩ false

/-- A get for the user and keys of a save returns for each key the saved blob and version, once. -/
def RoundTrip (s : Store) (r : SaveRequest) : Prop :=
  ∀ d ∈ r.datas, ((getKeys s r.uid (r.datas.map PBDBData.key)).datas.filter fun e =>
    e.key = d.key) = [⟨d.key, some d.bytes, some d.version, none⟩]

instance (s : Store) (r : SaveRequest) : Decidable (RoundTrip s r) :=
  inferInstanceAs (Decidable (∀ d ∈ r.datas, _))

/-! ## Addresses -/

theorem uidKey_toNat {key : UInt32} {uid : UInt64}
    (h : key.toNat * 10000000000 + uid.toNat < 2 ^ 64) :
    (uidKey key uid).toNat = key.toNat * 10000000000 + uid.toNat := by
  simp only [uidKey, keyMultiple, UInt64.toNat_add, UInt64.toNat_mul, UInt32.toNat_toUInt64]
  have hm : (10000000000 : UInt64).toNat = 10000000000 := rfl
  rw [hm]
  omega

theorem shortUid_toNat (uid : UInt64) : (shortUid uid).toNat = uid.toNat % 2 ^ 32 := by
  simp only [shortUid, UInt32.toNat_toUInt64, UInt64.toNat_toUInt32]

theorem saveKey_toNat {uid : UInt64} {d : PBDBData}
    (h : d.key.toNat * 10000000000 + uid.toNat < 2 ^ 64) :
    (saveKey uid d).toNat = d.key.toNat * 10000000000 + uid.toNat % 2 ^ 32 := by
  have hle := Nat.mod_le uid.toNat (2 ^ 32)
  rw [saveKey, uidKey_toNat (by rw [shortUid_toNat]; omega), shortUid_toNat]

/-- The key that is decoded from the row of an item is the item's. -/
theorem saveKey_div {uid : UInt64} {d : PBDBData}
    (h : d.key.toNat * 10000000000 + uid.toNat < 2 ^ 64) :
    (saveKey uid d / keyMultiple).toUInt32 = d.key := by
  apply UInt32.toNat_inj.mp
  have hlt := Nat.mod_lt uid.toNat (show 0 < 2 ^ 32 by decide)
  have hd := d.key.toNat_lt
  have hm : keyMultiple.toNat = 10000000000 := rfl
  rw [UInt64.toNat_toUInt32, UInt64.toNat_div, saveKey_toNat h, hm]
  omega

theorem Addressable.item {r : SaveRequest} (h : Addressable r.uid (r.datas.map PBDBData.key))
    {d : PBDBData} (hd : d ∈ r.datas) : d.key.toNat * 10000000000 + r.uid.toNat < 2 ^ 64 :=
  h.fits d.key (List.mem_map_of_mem hd)

/-- Two items of a request have two rows. -/
theorem Addressable.saveKey_inj {r : SaveRequest}
    (h : Addressable r.uid (r.datas.map PBDBData.key)) {d e : PBDBData} (hd : d ∈ r.datas)
    (he : e ∈ r.datas) (heq : saveKey r.uid e = saveKey r.uid d) : e = d := by
  have hkey : e.key = d.key := by
    rw [← saveKey_div (h.item he), heq, saveKey_div (h.item hd)]
  exact List.inj_on_of_nodup_map h.nodup he hd hkey

theorem Addressable.lastFor {r : SaveRequest}
    (h : Addressable r.uid (r.datas.map PBDBData.key)) {d : PBDBData} (hd : d ∈ r.datas) :
    lastFor r.uid (saveKey r.uid d) r.datas = some d := by
  obtain ⟨e, he⟩ := Option.isSome_iff_exists.mp (lastFor_isSome hd)
  obtain ⟨hmem, hkey⟩ := mem_of_lastFor he
  rw [he, h.saveKey_inj hd hmem hkey]

/-! ## What the handlers do to rows -/

/-- The rows behind an accepted save. -/
theorem saved_row {s : Store} {r : SaveRequest} {f : SqlFailures} {h : Handled}
    (hs : handleSave s r f = h) (hok : h.response.result = .ok) (k : UInt64) :
    h.store.row k =
      ((lastFor r.uid k r.datas).map fun d => ⟨d.bytes, d.version⟩).or (s.row k) := by
  obtain ⟨-, -, hsucc, hstore⟩ | ⟨-, herr, -⟩ | ⟨-, hne, -⟩ := handleSave_cases hs
  · rw [hstore, saveToCache_row, saveDoRequest_row, written_of_success hsucc]
  · rw [hok] at herr
    cases herr
  · exact absurd hok hne

def rowsFor (s : Store) (uid : UInt64) (keys : List UInt32) : List (UInt64 × Row) :=
  (keys.map fun k => uidKey k uid).eraseDups.filterMap fun a => (s.row a).map (a, ·)

theorem getKeys_eq (s : Store) (uid : UInt64) {keys : List UInt32} (h : keys ≠ []) :
    getKeys s uid keys =
      ⟨.ok, uid, wrapResponseGet (rowsFor s uid keys) (keys.map bareKey)⟩ := by
  have hrows : selectRows s (tableOf uid) (keys.map fun k => uidKey k uid) =
      rowsFor s uid keys := by
    apply List.filterMap_congr
    intro a ha
    obtain ⟨k, -, rfl⟩ := List.mem_map.mp (List.mem_eraseDups.mp ha)
    rw [Store.row, uidKey_table]
  have hne : (keys.map bareKey).isEmpty = false := by
    rw [List.isEmpty_eq_false_iff]
    exact fun he => h (List.map_eq_nil_iff.mp he)
  have hkeys : (keys.map bareKey).map (fun d => uidKey d.key uid) =
      keys.map fun k => uidKey k uid := by
    rw [List.map_map]
    rfl
  simp only [getKeys, handleGet, getDoRequest, hne, Bool.or_self, Bool.false_eq_true, if_false,
    hkeys, hrows]

/-- A get depends on its own rows only. -/
theorem getKeys_congr {s s' : Store} {uid : UInt64} {keys : List UInt32}
    (h : ∀ k ∈ keys, s'.row (uidKey k uid) = s.row (uidKey k uid)) :
    getKeys s' uid keys = getKeys s uid keys := by
  by_cases hk : keys = []
  · subst hk
    rfl
  · have hrows : rowsFor s' uid keys = rowsFor s uid keys := by
      apply List.filterMap_congr
      intro a ha
      obtain ⟨k, hmem, rfl⟩ := List.mem_map.mp (List.mem_eraseDups.mp ha)
      rw [h k hmem]
    rw [getKeys_eq s' uid hk, getKeys_eq s uid hk, hrows]

/-- An entry with a blob comes from a row. -/
theorem row_of_mem_getKeys {s : Store} {uid : UInt64} {keys : List UInt32} {e : PBDBData}
    (he : e ∈ (getKeys s uid keys).datas) (hb : e.blob.isSome = true) :
    ∃ k ∈ keys, ∃ row, s.row (uidKey k uid) = some row ∧ e = rowData (uidKey k uid, row) := by
  by_cases hk : keys = []
  · subst hk
    cases he
  · rw [getKeys_eq s uid hk] at he
    obtain he | he := List.mem_append.mp he
    · obtain ⟨⟨a, row⟩, hmem, rfl⟩ := List.mem_map.mp he
      obtain ⟨a', ha', hrow⟩ := List.mem_filterMap.mp hmem
      obtain ⟨k, hkey, rfl⟩ := List.mem_map.mp (List.mem_eraseDups.mp ha')
      obtain ⟨row', hrow', heq⟩ := Option.map_eq_some_iff.mp hrow
      cases heq
      exact ⟨k, hkey, row, hrow', rfl⟩
    · obtain ⟨d, -, rfl⟩ := List.mem_map.mp he
      cases hb

theorem mem_getKeys_of_row {s : Store} {uid : UInt64} {keys : List UInt32} {k : UInt32}
    (hk : k ∈ keys) {row : Row} (hrow : s.row (uidKey k uid) = some row) :
    rowData (uidKey k uid, row) ∈ (getKeys s uid keys).datas := by
  rw [getKeys_eq s uid (List.ne_nil_of_mem hk)]
  apply List.mem_append_left
  apply List.mem_map_of_mem
  refine List.mem_filterMap.mpr ⟨uidKey k uid, ?_, by rw [hrow, Option.map_some]⟩
  exact List.mem_eraseDups.mpr (List.mem_map_of_mem hk)

/-! ## Uids of 32 bits -/

theorem eraseDups_of_nodup {l : List UInt64} (h : l.Nodup) : l.eraseDups = l := by
  induction l with
  | nil => rfl
  | cons a l ih =>
    obtain ⟨ha, hl⟩ := List.nodup_cons.mp h
    have hfilter : (l.filter fun b => !b == a) = l := by
      apply List.filter_eq_self.mpr
      intro b hb
      simp only [Bool.not_eq_true', beq_eq_false_iff_ne]
      exact fun he => ha (he ▸ hb)
    rw [List.eraseDups_cons, hfilter, ih hl]

/-- The answer to a get for an item of a save. -/
def savedData (d : PBDBData) : PBDBData := ⟨d.key, some d.bytes, some d.version, none⟩

/-- The rows a get finds are those of the save, in its order. -/
theorem rowsFor_saved {s : Store} {r : SaveRequest} {f : SqlFailures} {h : Handled}
    (hr : Addressable r.uid (r.datas.map PBDBData.key)) (huid : r.uid.toNat < 2 ^ 32)
    (hs : handleSave s r f = h) (hok : h.response.result = .ok) :
    rowsFor h.store r.uid (r.datas.map PBDBData.key) =
      r.datas.map fun d => (saveKey r.uid d, ⟨d.bytes, d.version⟩) := by
  have haddr : ((r.datas.map PBDBData.key).map fun k => uidKey k r.uid) =
      r.datas.map (saveKey r.uid) := by
    rw [List.map_map]
    apply List.map_congr_left
    intro d _
    exact (saveKey_eq huid d).symm
  have hnd : (r.datas.map (saveKey r.uid)).Nodup :=
    (List.Nodup.of_map _ hr.nodup).map_on fun e he d hd heq => hr.saveKey_inj hd he heq
  rw [rowsFor, haddr, eraseDups_of_nodup hnd, List.filterMap_map, ← List.filterMap_eq_map]
  apply List.filterMap_congr
  intro d hd
  simp only [Function.comp_apply]
  rw [saved_row hs hok, hr.lastFor hd]
  rfl

/-- One item has the key of an item. -/
theorem filter_key {ds : List PBDBData} (h : (ds.map PBDBData.key).Nodup) {d : PBDBData}
    (hd : d ∈ ds) : (ds.filter fun e => e.key = d.key) = [d] := by
  induction ds with
  | nil => cases hd
  | cons e es ih =>
    obtain ⟨he, hes⟩ := List.nodup_cons.mp h
    obtain rfl | hd := List.mem_cons.mp hd
    · have hnil : (es.filter fun e => e.key = d.key) = [] := by
        apply List.filter_eq_nil_iff.mpr
        intro e' he' heq
        exact he (of_decide_eq_true heq ▸ List.mem_map_of_mem he')
      rw [List.filter_cons_of_pos (by simp), hnil]
    · have hne : e.key ≠ d.key := fun heq => he (heq ▸ List.mem_map_of_mem hd)
      rw [List.filter_cons_of_neg (by simpa using hne)]
      exact ih hes hd

/-- A uid of 32 bits is enough. -/
theorem roundTrip_of_short {s : Store} {r : SaveRequest} {f : SqlFailures} {h : Handled}
    (hr : Addressable r.uid (r.datas.map PBDBData.key)) (huid : r.uid.toNat < 2 ^ 32)
    (hs : handleSave s r f = h) (hok : h.response.result = .ok) : RoundTrip h.store r := by
  intro d hd
  have hne : r.datas.map PBDBData.key ≠ [] := List.ne_nil_of_mem (List.mem_map_of_mem hd)
  have hfound : (rowsFor h.store r.uid (r.datas.map PBDBData.key)).map rowData =
      r.datas.map savedData := by
    rw [rowsFor_saved hr huid hs hok, List.map_map]
    apply List.map_congr_left
    intro e he
    simp only [Function.comp_apply, rowData, saveKey_div (hr.item he)]
    rfl
  have hbare : (((r.datas.map PBDBData.key).map bareKey).filter fun e =>
      e.key ∉ (r.datas.map savedData).map PBDBData.key) = [] := by
    apply List.filter_eq_nil_iff.mpr
    intro e he
    obtain ⟨k, hk, rfl⟩ := List.mem_map.mp he
    have hkeys : (r.datas.map savedData).map PBDBData.key = r.datas.map PBDBData.key := by
      rw [List.map_map]
      rfl
    simp only [hkeys, bareKey, hk, not_true, decide_false, Bool.false_eq_true, not_false_iff]
  rw [getKeys_eq h.store r.uid hne]
  simp only [wrapResponseGet, hfound, hbare, List.map_nil, List.append_nil]
  rw [List.filter_map]
  have hcomp : ((fun e : PBDBData => decide (e.key = d.key)) ∘ savedData) =
      fun e => decide (e.key = d.key) := rfl
  rw [hcomp, filter_key hr.nodup hd]
  rfl

/-! ## Other uids -/

/-- On empty tables every save is accepted. -/
theorem fresh_accepts (r : SaveRequest) :
    (handleSave (fresh fun _ _ => none) r SqlFailures.never).response.result = .ok := by
  have hcheck : ∀ i ds, checkVersion (fresh fun _ _ => none) r.uid SqlFailures.never.check i ds =
      .ok := by
    intro i ds
    induction ds generalizing i with
    | nil => rfl
    | cons d ds ih => exact ih (i + 1)
  have hsucc : (saveDoRequest (fresh fun _ _ => none) r.uid SqlFailures.never.replace 0
      r.datas).success = true := success_of_written (written_never 0 r.datas)
  simp only [handleSave, hcheck, hsucc, if_true]

/-- Behind a save on empty tables, a row is one of its items. -/
theorem fresh_row {r : SaveRequest} {h : Handled}
    (hs : handleSave (fresh fun _ _ => none) r SqlFailures.never = h)
    (hok : h.response.result = .ok) {k : UInt64} {row : Row} (hrow : h.store.row k = some row) :
    ∃ d ∈ r.datas, saveKey r.uid d = k := by
  rw [saved_row hs hok] at hrow
  cases hl : lastFor r.uid k r.datas with
  | none =>
    rw [hl] at hrow
    cases hrow
  | some d =>
    obtain ⟨hd, hk⟩ := mem_of_lastFor hl
    exact ⟨d, hd, hk⟩

/-- Behind a save for a longer uid on empty tables, the smallest key is not found. -/
theorem short_of_roundTrip {r : SaveRequest} (hr : Addressable r.uid (r.datas.map PBDBData.key))
    (hne : r.datas ≠ []) {h : Handled}
    (hs : handleSave (fresh fun _ _ => none) r SqlFailures.never = h)
    (hok : h.response.result = .ok) (hrt : RoundTrip h.store r) : r.uid.toNat < 2 ^ 32 := by
  by_contra hlong
  obtain ⟨d, hd, hmin⟩ : ∃ d ∈ r.datas, ∀ e ∈ r.datas, d.key.toNat ≤ e.key.toNat := by
    obtain ⟨d, hargmin⟩ := Option.ne_none_iff_exists'.mp
      (mt (List.argmin_eq_none (f := fun e : PBDBData => e.key.toNat)).mp hne)
    exact ⟨d, List.argmin_mem hargmin, fun e he =>
      List.le_of_mem_argmin (f := fun e : PBDBData => e.key.toNat) he hargmin⟩
  have hmem : (⟨d.key, some d.bytes, some d.version, none⟩ : PBDBData) ∈
      (getKeys h.store r.uid (r.datas.map PBDBData.key)).datas := by
    have hone := List.mem_singleton_self (⟨d.key, some d.bytes, some d.version, none⟩ : PBDBData)
    rw [← hrt d hd] at hone
    exact List.mem_of_mem_filter hone
  obtain ⟨k, hk, row, hrow, heq⟩ := row_of_mem_getKeys hmem rfl
  obtain ⟨e, he, hekey⟩ := fresh_row hs hok hrow
  obtain ⟨e', he', rfl⟩ := List.mem_map.mp hk
  have hdec : d.key = (uidKey e'.key r.uid / keyMultiple).toUInt32 := congrArg PBDBData.key heq
  rw [← hekey, saveKey_div (hr.item he)] at hdec
  have haddr := congrArg UInt64.toNat hekey
  rw [saveKey_toNat (hr.item he), uidKey_toNat (hr.item he'), ← hdec] at haddr
  -- the row that was found lies above the one that was written, for a smaller key
  have hle : d.key.toNat * 10000000000 ≤ e'.key.toNat * 10000000000 :=
    Nat.mul_le_mul_right _ (hmin e' he')
  have hlt : r.uid.toNat % 2 ^ 32 < r.uid.toNat :=
    Nat.lt_of_lt_of_le (Nat.mod_lt _ (Nat.two_pow_pos 32)) (Nat.not_lt.mp hlong)
  exact absurd haddr (Nat.ne_of_lt (Nat.add_lt_add_of_le_of_lt hle hlt))

/-- The rows of a save are not the row of another user and key. -/
def Apart (r : SaveRequest) (uid : UInt64) (key : UInt32) : Prop :=
  ∀ d ∈ r.datas, key.toNat * 10000000000 + uid.toNat ≠
    d.key.toNat * 10000000000 + r.uid.toNat

theorem isolated_of_apart {s : Store} {r : SaveRequest} {f : SqlFailures} {h : Handled}
    (hr : Addressable r.uid (r.datas.map PBDBData.key)) (huid : r.datas = [] ∨ r.uid.toNat < 2 ^ 32)
    {uid : UInt64} {key : UInt32} (hk : Addressable uid [key]) (ha : Apart r uid key)
    (hs : handleSave s r f = h) (hok : h.response.result = .ok) :
    getKeys h.store uid [key] = getKeys s uid [key] := by
  apply getKeys_congr
  intro k hmem
  obtain rfl := List.mem_singleton.mp hmem
  rw [saved_row hs hok]
  cases hl : lastFor r.uid (uidKey k uid) r.datas with
  | none => rfl
  | some d =>
    obtain ⟨hd, hkey⟩ := mem_of_lastFor hl
    have hshort : r.uid.toNat < 2 ^ 32 := huid.resolve_left (List.ne_nil_of_mem hd)
    rw [saveKey_eq hshort] at hkey
    have haddr := congrArg UInt64.toNat hkey
    rw [uidKey_toNat (hr.item hd), uidKey_toNat (hk.fits k (List.mem_singleton_self k))] at haddr
    exact absurd haddr.symm (ha d hd)

/-- What another get sees shows which rows were written. -/
theorem apart_of_isolated {r : SaveRequest}
    (hr : Addressable r.uid (r.datas.map PBDBData.key)) (huid : r.uid.toNat < 2 ^ 32)
    {uid : UInt64} {key : UInt32} (hk : Addressable uid [key]) {h : Handled}
    (hs : handleSave (fresh fun _ _ => none) r SqlFailures.never = h)
    (hok : h.response.result = .ok)
    (hi : getKeys h.store uid [key] = getKeys (fresh fun _ _ => none) uid [key]) :
    Apart r uid key := by
  intro d hd heq
  have hkey : saveKey r.uid d = uidKey key uid := by
    apply UInt64.toNat_inj.mp
    rw [saveKey_eq huid, uidKey_toNat (hr.item hd),
      uidKey_toNat (hk.fits key (List.mem_singleton_self key)), heq]
  have hrow : h.store.row (uidKey key uid) = some ⟨d.bytes, d.version⟩ := by
    rw [saved_row hs hok, ← hkey, hr.lastFor hd]
    rfl
  have hmem := mem_getKeys_of_row (List.mem_singleton_self key) hrow
  rw [hi] at hmem
  obtain ⟨k, -, row, hnone, -⟩ := row_of_mem_getKeys hmem rfl
  cases hnone

/-- On every database an accepted save is read back, and the data under another user or key stays
as it was, exactly when the uid of the save has 32 bits and the other address is not one of its
own. -/
theorem save_get_iff (r : SaveRequest) (hr : Addressable r.uid (r.datas.map PBDBData.key))
    (uid : UInt64) (key : UInt32) (hk : Addressable uid [key]) :
    (∀ s f, (handleSave s r f).response.result = .ok → RoundTrip (handleSave s r f).store r ∧
      getKeys (handleSave s r f).store uid [key] = getKeys s uid [key]) ↔
    (r.datas = [] ∨ r.uid.toNat < 2 ^ 32) ∧ Apart r uid key := by
  constructor
  · intro hall
    have hok := fresh_accepts r
    obtain ⟨hrt, hi⟩ := hall _ _ hok
    by_cases hne : r.datas = []
    · refine ⟨.inl hne, fun d hd => ?_⟩
      rw [hne] at hd
      cases hd
    · have huid := short_of_roundTrip hr hne rfl hok hrt
      exact ⟨.inr huid, apart_of_isolated hr huid hk rfl hok hi⟩
  · intro ⟨huid, ha⟩ s f hok
    refine ⟨?_, isolated_of_apart hr huid hk ha rfl hok⟩
    obtain hne | huid := huid
    · intro d hd
      rw [hne] at hd
      cases hd
    · exact roundTrip_of_short hr huid rfl hok

def sampleSave (uid : UInt64) : SaveRequest := ⟨uid, [⟨1, some [7], some 1, none⟩]⟩

theorem sampleSave_addressable (uid : UInt64) (h : uid.toNat < 2 ^ 63) :
    Addressable (sampleSave uid).uid ((sampleSave uid).datas.map PBDBData.key) := by
  refine ⟨List.nodup_singleton _, fun k hk => ?_⟩
  obtain rfl := List.mem_singleton.mp hk
  have hone : (1 : UInt32).toNat = 1 := rfl
  simp only [sampleSave, hone]
  omega

/-- A save of user 5 is read back, and leaves user 6 alone. -/
theorem save_get_short :
    ∃ h, handleSave (fresh fun _ _ => none) (sampleSave 5) SqlFailures.never = h ∧
      h.response.result = .ok ∧ RoundTrip h.store (sampleSave 5) ∧
      getKeys h.store 6 [1] = getKeys (fresh fun _ _ => none) 6 [1] := by
  have hok := fresh_accepts (sampleSave 5)
  have hall := (save_get_iff (sampleSave 5) (sampleSave_addressable 5 (by decide)) 6 1
    (sampleSave_addressable 6 (by decide))).mpr ⟨.inr (by decide), by
      intro d hd
      obtain rfl := List.mem_singleton.mp hd
      decide⟩
  exact ⟨_, rfl, hok, hall _ _ hok⟩

/-- A save of user `2 ^ 32 + 5` is accepted and cannot be read back: it went to user 5. -/
theorem long_uid_not_read_back :
    Addressable (sampleSave 4294967301).uid ((sampleSave 4294967301).datas.map PBDBData.key) ∧
    ∃ h, handleSave (fresh fun _ _ => none) (sampleSave 4294967301) SqlFailures.never = h ∧
      h.response.result = .ok ∧ ¬ RoundTrip h.store (sampleSave 4294967301) ∧
      getKeys h.store 5 [1] ≠ getKeys (fresh fun _ _ => none) 5 [1] := by
  refine ⟨sampleSave_addressable 4294967301 (by decide), _, rfl, rfl, ?_, ?_⟩
  · decide +kernel
  · decide +kernel

end DbProxy
