import Dsf4g.DbProxy
import Dsf4g.Lib.Trace

/-!
# The version cache against the tables

A save request writes its rows one by one and the cache only when all of them are
written. The cache agrees with the tables as long as no request fails behind a row
that was cached.
-/
namespace DbProxy

/-- The row of a `uid_key`; the key decides the table. -/
def Store.row (s : Store) (k : UInt64) : Option Row := s.tables (k % totalTableNum) k

def Coherent (s : Store) : Prop :=
  ∀ k c, s.cache k = some c → ∃ r, s.row k = some r ∧ c.toInt = r.ver.toNat

def Small (s : Store) : Prop := ∀ k r, s.row k = some r → r.ver.toNat < 2 ^ 31

/-! ## Words -/

theorem shortUid_of_lt {uid : UInt64} (h : uid.toNat < 2 ^ 32) : shortUid uid = uid := by
  apply UInt64.toNat_inj.mp
  simp only [shortUid, UInt32.toNat_toUInt64, UInt64.toNat_toUInt32]
  omega

theorem uidKey_table (key : UInt32) (uid : UInt64) :
    uidKey key uid % totalTableNum = tableOf uid := by
  apply UInt64.toNat_inj.mp
  simp [uidKey, totalTableNum, tableOf, keyMultiple]
  omega

theorem saveKey_eq {uid : UInt64} (h : uid.toNat < 2 ^ 32) (d : PBDBData) :
    saveKey uid d = uidKey d.key uid := by
  rw [saveKey, shortUid_of_lt h]

theorem saveKey_table (uid : UInt64) (d : PBDBData) :
    saveKey uid d % totalTableNum = tableOf uid := by
  apply UInt64.toNat_inj.mp
  simp [saveKey, uidKey, shortUid, totalTableNum, tableOf, keyMultiple]
  omega

theorem toInt32_toInt {v : UInt32} (h : v.toNat < 2 ^ 31) : v.toInt32.toInt = v.toNat := by
  simp only [UInt32.toInt32, Int32.toInt, Int32.toBitVec, BitVec.toInt, UInt32.toNat_toBitVec]
  omega

theorem toUInt32_of_toInt {c : Int32} {v : UInt32} (h : c.toInt = v.toNat) : c.toUInt32 = v := by
  apply UInt32.toNat_inj.mp
  have hv := v.toNat_lt
  have hc := c.toUInt32.toNat_lt
  simp only [Int32.toInt, Int32.toBitVec, BitVec.toInt, UInt32.toNat_toBitVec] at h
  split at h
  · omega
  · omega

/-- The comparison in the code is "exactly one above". -/
theorem sub_one_eq_iff {a b : UInt32} (hb : b.toNat < 2 ^ 31) :
    a - 1 = b ↔ a.toNat = b.toNat + 1 := by
  have ha := a.toNat_lt
  constructor
  · intro h
    have h := congrArg UInt32.toNat h
    simp only [UInt32.toNat_sub, UInt32.toNat_one] at h
    omega
  · intro h
    apply UInt32.toNat_inj.mp
    simp only [UInt32.toNat_sub, UInt32.toNat_one]
    omega

/-! ## What the loops write -/

/-- The last item of a request for a `uid_key`. -/
def lastFor (uid k : UInt64) : List PBDBData → Option PBDBData
  | [] => none
  | d :: ds => (lastFor uid k ds).or (if saveKey uid d = k then some d else none)

theorem mem_of_lastFor {uid k : UInt64} {ds : List PBDBData} {d : PBDBData}
    (h : lastFor uid k ds = some d) : d ∈ ds ∧ saveKey uid d = k := by
  induction ds with
  | nil => cases h
  | cons e ds ih =>
    rw [lastFor, Option.or_eq_some_iff] at h
    rcases h with h | ⟨-, h⟩
    · exact ⟨List.mem_cons_of_mem _ (ih h).1, (ih h).2⟩
    · split at h
      · next hk =>
        cases h
        exact ⟨List.mem_cons_self .., hk⟩
      · cases h

theorem lastFor_isSome {uid : UInt64} {ds : List PBDBData} {d : PBDBData} (h : d ∈ ds) :
    (lastFor uid (saveKey uid d) ds).isSome = true := by
  induction ds with
  | nil => cases h
  | cons e ds ih =>
    rw [lastFor, Option.isSome_or]
    rcases List.mem_cons.mp h with rfl | h
    · simp
    · simp [ih h]

def written (fails : Nat → Bool) : Nat → List PBDBData → List PBDBData
  | _, [] => []
  | i, d :: ds => if fails i then [] else d :: written fails (i + 1) ds

theorem replaceRow_row (s : Store) {t k : UInt64} (ht : k % totalTableNum = t) (r : Row)
    (k' : UInt64) : (replaceRow s t k r).row k' = if k = k' then some r else s.row k' := by
  subst ht
  unfold Store.row replaceRow
  dsimp only
  by_cases hk : k = k'
  · subst hk
    rw [if_pos rfl, Function.update_self, Function.update_self]
  · rw [if_neg hk]
    by_cases ht : k' % totalTableNum = k % totalTableNum
    · rw [ht, Function.update_self, Function.update_of_ne (Ne.symm hk)]
    · rw [Function.update_of_ne ht]

/-- A stored row is the last executed `replace` for it. -/
theorem saveDoRequest_row (s : Store) (uid : UInt64) (fails : Nat → Bool) (i : Nat)
    (ds : List PBDBData) (k : UInt64) :
    (saveDoRequest s uid fails i ds).store.row k =
      ((lastFor uid k (written fails i ds)).map fun d => ⟨d.bytes, d.version⟩).or (s.row k) := by
  induction ds generalizing s i with
  | nil => rfl
  | cons d ds ih =>
    unfold saveDoRequest written
    split
    · rfl
    · rw [ih, replaceRow_row s (saveKey_table uid d), lastFor]
      cases lastFor uid k (written fails (i + 1) ds) with
      | some e => simp only [Option.some_or, Option.map_some]
      | none =>
        by_cases hk : saveKey uid d = k
        · simp only [if_pos hk, Option.none_or, Option.map_none, Option.map_some, Option.some_or]
        · simp only [if_neg hk, Option.none_or, Option.map_none]

theorem saveDoRequest_cache (s : Store) (uid : UInt64) (fails : Nat → Bool) (i : Nat)
    (ds : List PBDBData) : (saveDoRequest s uid fails i ds).store.cache = s.cache := by
  induction ds generalizing s i with
  | nil => rfl
  | cons d ds ih =>
    unfold saveDoRequest
    split
    · rfl
    · rw [ih]
      rfl

theorem written_of_success {s : Store} {uid : UInt64} {fails : Nat → Bool} {i : Nat}
    {ds : List PBDBData} (h : (saveDoRequest s uid fails i ds).success = true) :
    written fails i ds = ds := by
  induction ds generalizing s i with
  | nil => rfl
  | cons d ds ih =>
    unfold saveDoRequest at h
    unfold written
    split at h
    · cases h
    · next hf => rw [if_neg hf, ih h]

theorem written_subset {fails : Nat → Bool} {i : Nat} {ds : List PBDBData} {d : PBDBData}
    (h : d ∈ written fails i ds) : d ∈ ds := by
  induction ds generalizing i with
  | nil => cases h
  | cons e ds ih =>
    unfold written at h
    split at h
    · cases h
    · rcases List.mem_cons.mp h with rfl | h
      · exact List.mem_cons_self ..
      · exact List.mem_cons_of_mem _ (ih h)

theorem written_never (i : Nat) (ds : List PBDBData) :
    written SqlFailures.never.replace i ds = ds := by
  induction ds generalizing i with
  | nil => rfl
  | cons d ds ih =>
    unfold written
    rw [if_neg (by simp [SqlFailures.never]), ih]

/-- A cached version is that of the last item for it. -/
theorem saveToCache_cache (s : Store) (uid : UInt64) (ds : List PBDBData) (k : UInt64) :
    (saveToCache s uid ds).cache k =
      ((lastFor uid k ds).map fun d => d.version.toInt32).or (s.cache k) := by
  induction ds generalizing s with
  | nil => rfl
  | cons d ds ih =>
    rw [saveToCache, ih, lastFor]
    cases lastFor uid k ds with
    | some e => rfl
    | none =>
      by_cases hk : saveKey uid d = k
      · subst hk
        simp [cacheVersion]
      · simp [cacheVersion, hk, Ne.symm hk]

theorem saveToCache_row (s : Store) (uid : UInt64) (ds : List PBDBData) (k : UInt64) :
    (saveToCache s uid ds).row k = s.row k := by
  induction ds generalizing s with
  | nil => rfl
  | cons d ds ih =>
    rw [saveToCache, ih]
    rfl

/-! ## What the version check decides -/

/-- The check compares with the stored version, whether it comes from the cache or the table. -/
theorem checkItem_eq {s : Store} (hc : Coherent s) {uid : UInt64} {d : PBDBData}
    {fails : Bool} {result : HandleResult} (h : checkItem s uid d fails = result) {r : Row}
    (hr : s.row (saveKey uid d) = some r) :
    (result = .ok → d.version - 1 = r.ver) ∧ (result = .verDiffer → d.version - 1 ≠ r.ver) := by
  have hcompare : ∀ v, v = r.ver → (if d.version - 1 ≠ v then HandleResult.verDiffer else .ok) =
      result → (result = .ok → d.version - 1 = r.ver) ∧
        (result = .verDiffer → d.version - 1 ≠ r.ver) := by
    rintro v rfl rfl
    by_cases hv : d.version - 1 = r.ver
    · simp only [hv, ne_eq, not_true_eq_false, if_false]
      exact ⟨fun _ => trivial, fun h => (nomatch h)⟩
    · simp only [hv, ne_eq, not_false_eq_true, if_true]
      exact ⟨fun h => (nomatch h), fun _ => trivial⟩
  unfold checkItem at h
  cases hcache : s.cache (saveKey uid d) with
  | some c =>
    obtain ⟨r', hr', hver⟩ := hc _ c hcache
    rw [hr] at hr'
    cases hr'
    simp only [hcache] at h
    exact hcompare _ (toUInt32_of_toInt hver) h
  | none =>
    have hrow : s.tables (tableOf uid) (saveKey uid d) = some r := by
      rw [← saveKey_table uid d]
      exact hr
    simp only [hcache, doDBVersionCheck] at h
    split at h
    · cases h
      exact ⟨fun h => (nomatch h), fun h => (nomatch h)⟩
    · simp only [hrow] at h
      exact hcompare r.ver rfl h

theorem checkVersion_ok {s : Store} {uid : UInt64} {fails : Nat → Bool} {i : Nat}
    {ds : List PBDBData} (h : checkVersion s uid fails i ds = .ok) :
    ∀ d ∈ ds, ∃ b, checkItem s uid d b = .ok := by
  induction ds generalizing i with
  | nil => exact fun d hd => by cases hd
  | cons e ds ih =>
    intro d hd
    unfold checkVersion at h
    split at h
    · next he =>
      rcases List.mem_cons.mp hd with rfl | hd
      · exact ⟨_, he⟩
      · exact ih h d hd
    · next hne => exact absurd h hne

theorem checkVersion_verDiffer {s : Store} {uid : UInt64} {fails : Nat → Bool} {i : Nat}
    {ds : List PBDBData} (h : checkVersion s uid fails i ds = .verDiffer) :
    ∃ d ∈ ds, ∃ b, checkItem s uid d b = .verDiffer := by
  induction ds generalizing i with
  | nil => cases h
  | cons e ds ih =>
    unfold checkVersion at h
    split at h
    · obtain ⟨d, hd, hb⟩ := ih h
      exact ⟨d, List.mem_cons_of_mem _ hd, hb⟩
    · exact ⟨e, List.mem_cons_self .., _, h⟩

/-- What a handled save can be: accepted, broken off behind some rows, or without effect. -/
theorem handleSave_cases {s : Store} {r : SaveRequest} {f : SqlFailures} {h : Handled}
    (hs : handleSave s r f = h) :
    (checkVersion s r.uid f.check 0 r.datas = .ok ∧ h.response.result = .ok ∧
      (saveDoRequest s r.uid f.replace 0 r.datas).success = true ∧
      h.store = saveToCache (saveDoRequest s r.uid f.replace 0 r.datas).store r.uid r.datas) ∨
    (checkVersion s r.uid f.check 0 r.datas = .ok ∧ h.response.result = .error ∧
      (saveDoRequest s r.uid f.replace 0 r.datas).success = false ∧
      h.store = (saveDoRequest s r.uid f.replace 0 r.datas).store) ∨
    (h.store = s ∧ h.response.result ≠ .ok ∧
      checkVersion s r.uid f.check 0 r.datas = h.response.result) := by
  unfold handleSave at hs
  split at hs
  · next hok =>
    dsimp only at hs
    split at hs
    · next hsucc =>
      cases hs
      exact .inl ⟨hok, rfl, hsucc, rfl⟩
    · next hsucc =>
      cases hs
      exact .inr (.inl ⟨hok, rfl, Bool.not_eq_true _ ▸ hsucc, rfl⟩)
  · next hdiff =>
    cases hs
    exact .inr (.inr ⟨rfl, by simp, hdiff⟩)
  · next herr =>
    cases hs
    exact .inr (.inr ⟨rfl, by simp, herr⟩)

/-! ## One request -/

theorem success_of_written {s : Store} {uid : UInt64} {fails : Nat → Bool} {i : Nat}
    {ds : List PBDBData} (h : written fails i ds = ds) :
    (saveDoRequest s uid fails i ds).success = true := by
  induction ds generalizing s i with
  | nil => rfl
  | cons d ds ih =>
    unfold written at h
    unfold saveDoRequest
    split at h
    · cases h
    · next hf =>
      rw [if_neg hf]
      exact ih (List.cons.inj h).2

/-- The requests after which the cache can still be trusted: versions are `int`s, and a `replace`
fails only behind rows that were not cached. -/
def SaveGuard (s : Store) (r : SaveRequest) (f : SqlFailures) : Prop :=
  (∀ d ∈ r.datas, d.version.toNat < 2 ^ 31) ∧
  (checkVersion s r.uid f.check 0 r.datas = .ok → written f.replace 0 r.datas ≠ r.datas →
    ∀ d ∈ written f.replace 0 r.datas, s.cache (saveKey r.uid d) = none)

theorem saveDoRequest_small {s : Store} (h : Small s) {r : SaveRequest} {fails : Nat → Bool}
    (hd : ∀ d ∈ r.datas, d.version.toNat < 2 ^ 31) :
    Small (saveDoRequest s r.uid fails 0 r.datas).store := by
  intro k row hrow
  rw [saveDoRequest_row] at hrow
  cases hl : lastFor r.uid k (written fails 0 r.datas) with
  | none =>
    simp only [hl, Option.map_none, Option.none_or] at hrow
    exact h k row hrow
  | some d =>
    simp only [hl, Option.map_some, Option.some_or, Option.some.injEq] at hrow
    rw [← hrow]
    exact hd d (written_subset (mem_of_lastFor hl).1)

theorem accepted_coherent {s : Store} (hc : Coherent s) {r : SaveRequest} {fails : Nat → Bool}
    (hd : ∀ d ∈ r.datas, d.version.toNat < 2 ^ 31)
    (hsucc : (saveDoRequest s r.uid fails 0 r.datas).success = true) :
    Coherent (saveToCache (saveDoRequest s r.uid fails 0 r.datas).store r.uid r.datas) := by
  intro k c hcache
  rw [saveToCache_cache, saveDoRequest_cache] at hcache
  rw [saveToCache_row, saveDoRequest_row, written_of_success hsucc]
  cases hl : lastFor r.uid k r.datas with
  | none =>
    simp only [hl, Option.map_none, Option.none_or] at hcache ⊢
    exact hc k c hcache
  | some d =>
    simp only [hl, Option.map_some, Option.some_or, Option.some.injEq] at hcache ⊢
    refine ⟨_, rfl, ?_⟩
    rw [← hcache]
    exact toInt32_toInt (hd d (mem_of_lastFor hl).1)

theorem brokenOff_coherent {s : Store} (hc : Coherent s) {r : SaveRequest} {fails : Nat → Bool}
    (hw : ∀ d ∈ written fails 0 r.datas, s.cache (saveKey r.uid d) = none) :
    Coherent (saveDoRequest s r.uid fails 0 r.datas).store := by
  intro k c hcache
  rw [saveDoRequest_cache] at hcache
  rw [saveDoRequest_row]
  cases hl : lastFor r.uid k (written fails 0 r.datas) with
  | none =>
    simp only [Option.map_none, Option.none_or]
    exact hc k c hcache
  | some d =>
    obtain ⟨hmem, hk⟩ := mem_of_lastFor hl
    rw [← hk, hw d hmem] at hcache
    cases hcache

/-- A save within the guard keeps the cache coherent. -/
theorem handleSave_inv {s : Store} (hc : Coherent s) (hs : Small s) {r : SaveRequest}
    {f : SqlFailures} {h : Handled} (hg : SaveGuard s r f) (hh : handleSave s r f = h) :
    Coherent h.store ∧ Small h.store := by
  rcases handleSave_cases hh with ⟨-, -, hsucc, hst⟩ | ⟨hok, -, hsucc, hst⟩ | ⟨hst, -, -⟩
  · rw [hst]
    refine ⟨accepted_coherent hc hg.1 hsucc, fun k row hrow => ?_⟩
    rw [saveToCache_row] at hrow
    exact saveDoRequest_small hs hg.1 k row hrow
  · rw [hst]
    have hne : written f.replace 0 r.datas ≠ r.datas := by
      intro hw
      rw [success_of_written hw] at hsucc
      cases hsucc
    exact ⟨brokenOff_coherent hc (hg.2 hok hne), saveDoRequest_small hs hg.1⟩
  · rw [hst]
    exact ⟨hc, hs⟩

/-! ## Whole runs -/

inductive Event where
  | save (r : SaveRequest) (f : SqlFailures)
  | get (r : GetRequest) (fails : Bool)
  /-- A new process: the cache is empty. -/
  | restart

def Step (s : Store) : Event → Store → Prop
  | .save r f, q => q = (handleSave s r f).store
  | .get _ _, q => q = s
  | .restart, q => q = { s with cache := fun _ => none }

def CacheGuard (s : Store) : Event → Prop
  | .save r f => SaveGuard s r f
  | _ => True

/-- The cache agrees with the tables; a save of existing rows one version up is not refused as
different, and a save of any other version of an existing row is not accepted. -/
structure Trusted (s : Store) : Prop where
  coherent : Coherent s
  oneAbove : ∀ r f, (∀ d ∈ r.datas, ∃ row, s.row (saveKey r.uid d) = some row ∧
      d.version.toNat = row.ver.toNat + 1) → (handleSave s r f).response.result ≠ .verDiffer
  otherwise : ∀ r f, (∃ d ∈ r.datas, ∃ row, s.row (saveKey r.uid d) = some row ∧
      d.version.toNat ≠ row.ver.toNat + 1) → (handleSave s r f).response.result ≠ .ok

theorem Trusted.of_coherent {s : Store} (hc : Coherent s) (hs : Small s) : Trusted s := by
  refine ⟨hc, fun r f hall hres => ?_, fun r f ⟨d, hd, row, hrow, hne⟩ hres => ?_⟩
  · have hdiff : checkVersion s r.uid f.check 0 r.datas = .verDiffer := by
      rcases handleSave_cases (s := s) (r := r) (f := f) rfl with ⟨-, ho, -⟩ | ⟨-, ho, -⟩ | ⟨-, -, ho⟩
      · cases ho.symm.trans hres
      · cases ho.symm.trans hres
      · rw [ho, hres]
    obtain ⟨d, hd, b, hb⟩ := checkVersion_verDiffer hdiff
    obtain ⟨row, hrow, hver⟩ := hall d hd
    exact (checkItem_eq hc hb hrow).2 rfl ((sub_one_eq_iff (hs _ row hrow)).mpr hver)
  · have hok : checkVersion s r.uid f.check 0 r.datas = .ok := by
      rcases handleSave_cases (s := s) (r := r) (f := f) rfl with ⟨ho, -⟩ | ⟨ho, -⟩ | ⟨-, ho, -⟩
      · exact ho
      · exact ho
      · exact absurd hres ho
    obtain ⟨b, hb⟩ := checkVersion_ok hok d hd
    exact hne ((sub_one_eq_iff (hs _ row hrow)).mp ((checkItem_eq hc hb hrow).1 rfl))

def fresh (tables : UInt64 → UInt64 → Option Row) : Store := ⟨tables, fun _ => none⟩

/-- The cache can be trusted after every run in which versions stay below `2^31` and no `replace`
fails behind a cached row of the same request. -/
theorem run_trusted (tables : UInt64 → UInt64 → Option Row) (hsmall : Small (fresh tables))
    (es : List Event) (q : Store) (h : Trace.Run Step CacheGuard (fresh tables) es q) :
    Trusted q := by
  have hinv : Coherent q ∧ Small q := by
    refine h.invariant (fun s => Coherent s ∧ Small s) ⟨fun k c hc => ?_, hsmall⟩ ?_
    · cases hc
    · intro s e s' hs hg hstep
      cases e with
      | save r f =>
        cases hstep
        exact handleSave_inv hs.1 hs.2 hg rfl
      | get r fails =>
        cases hstep
        exact hs
      | restart =>
        cases hstep
        exact ⟨fun k c hc => (nomatch hc), hs.2⟩
  exact Trusted.of_coherent hinv.1 hinv.2

/-- The two parts of a player's data, written at a version. -/
def bothKeys (ver : UInt32) : SaveRequest :=
  ⟨5, [⟨1, some [1], some ver, none⟩, ⟨2, some [2], some ver, none⟩]⟩

def secondFails : SqlFailures := ⟨fun _ => false, fun i => i == 1, false⟩

theorem run_trusted_first_save :
    Small (fresh fun _ _ => none) ∧ ∃ q, Trace.Run Step CacheGuard (fresh fun _ _ => none)
      [.save (bothKeys 1) .never] q ∧ Trusted q := by
  have hsmall : Small (fresh fun _ _ => none) := by
    intro k r hr
    cases hr
  have hg : CacheGuard (fresh fun _ _ => none) (.save (bothKeys 1) .never) :=
    ⟨by decide, fun _ hne => absurd (by decide) hne⟩
  have hrun : Trace.Run Step CacheGuard (fresh fun _ _ => none) [.save (bothKeys 1) .never]
      (handleSave (fresh fun _ _ => none) (bothKeys 1) .never).store := .cons hg rfl (.nil _)
  exact ⟨hsmall, _, hrun, run_trusted _ hsmall _ _ hrun⟩

/-- A second save whose second `replace` fails: the first row is at version 2, the cache says 1. -/
theorem failed_replace_leaves_stale_cache :
    ∃ q, Trace.Run Step (fun _ _ => True) (fresh fun _ _ => none)
      [.save (bothKeys 1) .never, .save (bothKeys 2) secondFails] q ∧ ¬ Trusted q := by
  refine ⟨_, .cons trivial rfl (.cons trivial rfl (.nil _)), fun h => ?_⟩
  obtain ⟨r, hr, hver⟩ := h.coherent (uidKey 1 5) 1 (by decide +kernel)
  have hrow : (handleSave (handleSave (fresh fun _ _ => none) (bothKeys 1) .never).store (bothKeys 2)
      secondFails).store.row (uidKey 1 5) = some ⟨[1], 2⟩ := by decide +kernel
  rw [hrow] at hr
  cases hr
  exact absurd hver (by decide)

end DbProxy
