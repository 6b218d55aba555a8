import Dsf4g.Authorize
import Dsf4g.Server
import Dsf4g.VersionCache
import Dsf4g.Lib.Escape

/-!
# What the database proxy asks its database

`src/dbproxy/handles.cpp` down to the texts of its statements. Keys, uids and versions
are printed in decimal, and a blob goes through `escape_string_no_conn` into a buffer
on the stack and from there, as a string that ends at its first zero, into the text.
The server is a parameter, with what its manual says of the statements that are meant.
-/
namespace DbProxy

open Quoted
open AuthSvr (ascii decimal quote_not_mem_decimal)
open Server (maxPbLen)

/-! ## The texts -/

def tableName (table : UInt64) : List UInt8 := ascii "userdata_" ++ decimal table.toNat

def conditions : List UInt64 → List UInt8
  | [] => []
  | [k] => ascii " uid_key = " ++ decimal k.toNat
  | k :: ks => ascii " uid_key = " ++ decimal k.toNat ++ ascii " or " ++ conditions ks

def getText (table : UInt64) (keys : List UInt64) : List UInt8 :=
  ascii "select * from " ++ tableName table ++ (ascii " where " ++ conditions keys)

def versionText (table k : UInt64) : List UInt8 :=
  ascii "select version from " ++ tableName table ++ ascii " where uid_key = " ++ decimal k.toNat

def replaceHead (table k : UInt64) : List UInt8 :=
  ascii "replace into " ++ tableName table ++ ascii " values ( " ++ decimal k.toNat ++ ascii ", "

def replaceTail (ver : UInt32) : List UInt8 := ascii ", " ++ decimal ver.toNat ++ ascii " )"

def maxPbDataBuf : Nat := 65536

abbrev StackBuf := { buf : List UInt8 // buf.length = maxPbDataBuf }

/-- `escape_string_no_conn` into a buffer, `none` when it writes behind its end. -/
def escapeString (buf : StackBuf) (blob : Blob) : Option (List UInt8) :=
  let text := escape blob ++ [0]
  if text.length ≤ maxPbDataBuf then some (text ++ buf.val.drop text.length) else none

def replaceText (table k : UInt64) (buf : List UInt8) (ver : UInt32) : List UInt8 :=
  around (replaceHead table k) (cString buf) (replaceTail ver)

/-! ## The server -/

inductive Cell where
  | num (n : Nat)
  | bytes (b : Blob)
  deriving DecidableEq, Repr

/-- `do_conv` to `long` or `unsigned long`, through which every integer is read and then narrowed. It
throws on what the long type cannot hold. -/
def Cell.doConv (bound : Nat) : Cell → Option Nat
  | .num n => if n < bound then some n else none
  | .bytes _ => none

def Cell.data : Cell → Blob
  | .num n => decimal n
  | .bytes b => b

/-- A database server in a state of type `δ`: the rows of `userdata_<n>`, and what a statement does.
A statement that fails has no result. -/
structure Mysql (δ : Type) where
  rows : δ → UInt64 → UInt64 → Option Row
  exec : δ → List UInt8 → δ × Option (List (List Cell))

variable {δ : Type}

def rowCells (r : UInt64 × Row) : List Cell :=
  [.num r.1.toNat, .bytes r.2.blob, .num r.2.ver.toNat]

def maxBlob : Nat := 65535

inductive Statement where
  | get (table : UInt64) (keys : List UInt64)
  | version (table k : UInt64)
  | replace (table k : UInt64) (blob : Blob) (ver : UInt32)

def Statement.pieces : Statement → List Piece
  | .get table keys => (getText table keys).map .code
  | .version table k => (versionText table k).map .code
  | .replace table k blob ver => meant (replaceHead table k) blob (replaceTail ver)

/-- A value that the column cannot hold is not meant. -/
def Statement.Fits : Statement → Prop
  | .replace _ _ blob _ => blob.length ≤ maxBlob
  | _ => True

/-- What a statement does when it works: the tables behind it and its result. A `where` has a key, and
the rows of a `select` come in any order. -/
inductive Statement.Effect (tables : UInt64 → UInt64 → Option Row) :
    Statement → (UInt64 → UInt64 → Option Row) → List (List Cell) → Prop
  | get {table : UInt64} {keys : List UInt64} {rs : List (UInt64 × Row)} (hkeys : keys ≠ [])
      (hrs : rs.Perm (selectRows (fresh tables) table keys)) :
      Effect tables (.get table keys) tables (rs.map rowCells)
  | version {table k : UInt64} : Effect tables (.version table k) tables
      ((tables table k).toList.map fun r => [.num r.ver.toNat])
  | replace {table k : UInt64} {blob : Blob} {ver : UInt32} :
      Effect tables (.replace table k blob ver)
        (replaceRow (fresh tables) table k ⟨blob, ver⟩).tables []

/-- What the manual says: a statement that is read as one of these has its effect, or fails and
changes no row. -/
def Mysql.Documented (m : Mysql δ) : Prop :=
  ∀ d sql (st : Statement), read sql = some st.pieces → st.Fits →
    match (m.exec d sql).2 with
    | none => m.rows (m.exec d sql).1 = m.rows d
    | some res => st.Effect (m.rows d) (m.rows (m.exec d sql).1) res

/-! ## The handlers -/

inductive Fault where
  | thrown
  | overrun
  deriving DecidableEq, Repr

/-- The process: its database, whether `E_DB_USER` has a connection, and the `VersionCache`. -/
structure Process (δ : Type) where
  db : δ
  connected : Bool
  cache : UInt64 → Option Int32

def commit (m : Mysql δ) (p : Process δ) (sql : List UInt8) :
    Process δ × Option (List (List Cell)) :=
  if p.connected then ({ p with db := (m.exec p.db sql).1 }, (m.exec p.db sql).2) else (p, none)

def rowItem : List Cell → Except Fault PBDBData
  | [key, blob, ver] =>
    match key.doConv (2 ^ 64), ver.doConv (2 ^ 64) with
    | some k, some v =>
      .ok ⟨(UInt64.ofNat k / keyMultiple).toUInt32, some blob.data, some (UInt32.ofNat v), none⟩
    | _, _ => .error .thrown
  | _ => .error .thrown

def rowItems : List (List Cell) → Except Fault (List PBDBData)
  | [] => .ok []
  | r :: rs =>
    match rowItem r, rowItems rs with
    | .ok d, .ok ds => .ok (d :: ds)
    | _, _ => .error .thrown

def wrapResult (result : List (List Cell)) (request : List PBDBData) :
    Except Fault (List PBDBData) :=
  (rowItems result).map fun found =>
    found ++ (request.filter fun d => d.key ∉ found.map PBDBData.key).map
      fun d => ⟨d.key, none, none, none⟩

def sqlGetDoRequest (m : Mysql δ) (p : Process δ) (table uid : UInt64) (request : List PBDBData) :
    Except Fault (Process δ × Option (List PBDBData)) :=
  match commit m p (getText table (request.map fun d => uidKey d.key uid)) with
  | (p, none) => .ok (p, none)
  | (p, some result) => (wrapResult result request).map fun datas => (p, some datas)

def sqlHandleGet (m : Mysql δ) (p : Process δ) (r : GetRequest) :
    Except Fault (Process δ × Response) :=
  (sqlGetDoRequest m p (tableOf r.uid) r.uid r.datas).map fun (p, datas) =>
    match datas with
    | some datas => (p, ⟨.ok, r.uid, datas⟩)
    | none => (p, ⟨.error, r.uid, []⟩)

def sqlVersionCheck (m : Mysql δ) (p : Process δ) (table k : UInt64) (d : PBDBData) :
    Except Fault (Process δ × HandleResult) :=
  match commit m p (versionText table k) with
  | (p, none) => .ok (p, .error)
  | (p, some []) => .ok (p, .ok)
  | (p, some (row :: _)) =>
    match row.head?.bind (Cell.doConv (2 ^ 63)) with
    | none => .error .thrown
    | some v => .ok (p, if d.version - 1 ≠ UInt32.ofNat v then .verDiffer else .ok)

def sqlCheckItem (m : Mysql δ) (p : Process δ) (uid : UInt64) (d : PBDBData) :
    Except Fault (Process δ × HandleResult) :=
  match p.cache (saveKey uid d) with
  | some c => .ok (p, if d.version - 1 ≠ c.toUInt32 then .verDiffer else .ok)
  | none => sqlVersionCheck m p (tableOf uid) (saveKey uid d) d

def sqlCheckVersion (m : Mysql δ) (uid : UInt64) :
    Process δ → List PBDBData → Except Fault (Process δ × HandleResult)
  | p, [] => .ok (p, .ok)
  | p, d :: ds =>
    match sqlCheckItem m p uid d with
    | .ok (p, .ok) => sqlCheckVersion m uid p ds
    | r => r

def sqlSaveDoRequest (m : Mysql δ) (uid : UInt64) (bufs : Nat → StackBuf) :
    Process δ → Nat → List PBDBData → Except Fault (Process δ × Bool)
  | p, _, [] => .ok (p, true)
  | p, i, d :: ds =>
    match escapeString (bufs i) d.bytes with
    | none => .error .overrun
    | some buf =>
      match commit m p (replaceText (tableOf uid) (saveKey uid d) buf d.version) with
      | (p, none) => .ok (p, false)
      | (p, some _) => sqlSaveDoRequest m uid bufs p (i + 1) ds

def cacheVersions (cache : UInt64 → Option Int32) (uid : UInt64) :
    List PBDBData → UInt64 → Option Int32
  | [] => cache
  | d :: ds =>
    cacheVersions (Function.update cache (saveKey uid d) (some d.version.toInt32)) uid ds

def sqlHandleSave (m : Mysql δ) (bufs : Nat → StackBuf) (p : Process δ) (r : SaveRequest) :
    Except Fault (Process δ × Response) :=
  match sqlCheckVersion m r.uid p r.datas with
  | .error e => .error e
  | .ok (p, .ok) =>
    match sqlSaveDoRequest m r.uid bufs p 0 r.datas with
    | .error e => .error e
    | .ok (p, true) =>
      .ok ({ p with cache := cacheVersions p.cache r.uid r.datas }, ⟨.ok, r.uid, []⟩)
    | .ok (p, false) => .ok (p, ⟨.error, r.uid, []⟩)
  | .ok (p, .verDiffer) =>
    (sqlGetDoRequest m p (tableOf r.uid) r.uid r.datas).map fun (p, datas) =>
      (p, ⟨.verDiffer, r.uid, datas.getD []⟩)
  | .ok (p, .error) => .ok (p, ⟨.error, r.uid, []⟩)

/-! ## The texts are read as they are meant -/

theorem quote_not_mem_tableName (table : UInt64) : quote ∉ tableName table := by
  rw [tableName, List.mem_append, not_or]
  exact ⟨by decide +kernel, quote_not_mem_decimal _⟩

theorem quote_not_mem_conditions (keys : List UInt64) : quote ∉ conditions keys := by
  induction keys with
  | nil => exact List.not_mem_nil
  | cons k ks ih =>
    have hk : quote ∉ ascii " uid_key = " ++ decimal k.toNat := by
      rw [List.mem_append, not_or]
      exact ⟨by decide +kernel, quote_not_mem_decimal _⟩
    cases ks with
    | nil => exact hk
    | cons k' ks =>
      simp only [conditions, List.mem_append, not_or] at hk ih ⊢
      exact ⟨⟨hk, by decide +kernel⟩, ih⟩

/-- The `select` has no literal to be cut. -/
theorem read_getText (table : UInt64) (keys : List UInt64) :
    read (getText table keys) = some (Statement.get table keys).pieces := by
  apply readAt_code_all
  simp only [getText, List.mem_append, not_or]
  exact ⟨⟨by decide +kernel, quote_not_mem_tableName table⟩, by decide +kernel,
    quote_not_mem_conditions keys⟩

theorem read_versionText (table k : UInt64) :
    read (versionText table k) = some (Statement.version table k).pieces := by
  apply readAt_code_all
  simp only [versionText, List.mem_append, not_or]
  exact ⟨⟨⟨by decide +kernel, quote_not_mem_tableName table⟩, by decide +kernel⟩,
    quote_not_mem_decimal _⟩

theorem quote_not_mem_replaceHead (table k : UInt64) : quote ∉ replaceHead table k := by
  simp only [replaceHead, List.mem_append, not_or]
  exact ⟨⟨⟨⟨by decide +kernel, quote_not_mem_tableName table⟩, by decide +kernel⟩,
    quote_not_mem_decimal _⟩, by decide +kernel⟩

theorem quote_not_mem_replaceTail (ver : UInt32) : quote ∉ replaceTail ver := by
  simp only [replaceTail, List.mem_append, not_or]
  exact ⟨⟨by decide +kernel, quote_not_mem_decimal _⟩, by decide +kernel⟩

/-- A blob that a message can carry fits, and the buffer holds its escaped form as a string. -/
theorem escapeString_cString (buf : StackBuf) {blob : Blob} (h : 2 * blob.length < maxPbDataBuf) :
    ∃ b, escapeString buf blob = some b ∧ cString b = escape blob := by
  have hle := escape_length_le blob
  have hz := zero_notMem_escape blob
  refine ⟨_, if_pos ?_, ?_⟩
  · rw [List.length_append, List.length_singleton]
    omega
  · rw [cString, List.append_assoc, List.takeWhile_append_of_pos]
    · simp
    · intro b hb
      rw [decide_eq_true_eq]
      rintro rfl
      exact hz hb

/-- A blob of any bytes is read from the buffer as it is. -/
theorem read_replaceText (buf : StackBuf) (table k : UInt64) {blob : Blob}
    (hblob : 2 * blob.length < maxPbDataBuf) (ver : UInt32) :
    ∃ b, escapeString buf blob = some b ∧
      read (replaceText table k b ver) = some (Statement.replace table k blob ver).pieces ∧
      (Statement.replace table k blob ver).Fits := by
  obtain ⟨b, hb, hstring⟩ := escapeString_cString buf hblob
  refine ⟨b, hb, ?_, ?_⟩
  · rw [replaceText, hstring]
    exact read_around_escape (quote_not_mem_replaceHead table k) (quote_not_mem_replaceTail ver) blob
  · have hbuf : maxPbDataBuf = 65536 := rfl
    have hmax : maxBlob = 65535 := rfl
    rw [Statement.Fits]
    omega

/-! ## The handlers and the store -/

/-- Two answers that differ at most in the order of their data. -/
structure Response.Same (a b : Response) : Prop where
  result : a.result = b.result
  uid : a.uid = b.uid
  datas : a.datas.Perm b.datas

theorem Response.Same.refl (a : Response) : a.Same a := ⟨rfl, rfl, .refl _⟩

/-- What the rows and the cache of a process are in the model without texts. -/
def Process.store (m : Mysql δ) (p : Process δ) : Store := ⟨m.rows p.db, p.cache⟩

theorem rowItem_rowCells (r : UInt64 × Row) : rowItem (rowCells r) = .ok (rowData r) := by
  have hlt := r.2.ver.toNat_lt
  have hkey : (Cell.num r.1.toNat).doConv (2 ^ 64) = some r.1.toNat := if_pos r.1.toNat_lt
  have hver : (Cell.num r.2.ver.toNat).doConv (2 ^ 64) = some r.2.ver.toNat := if_pos (by omega)
  simp only [rowCells, rowItem, hkey, hver, UInt64.ofNat_toNat, UInt32.ofNat_toNat, rowData,
    Cell.data]

theorem rowItems_rowCells (rs : List (UInt64 × Row)) :
    rowItems (rs.map rowCells) = .ok (rs.map rowData) := by
  induction rs with
  | nil => rfl
  | cons r rs ih => simp only [List.map_cons, rowItems, rowItem_rowCells, ih]

theorem wrapResult_rowCells (rs : List (UInt64 × Row)) (request : List PBDBData) :
    wrapResult (rs.map rowCells) request = .ok (wrapResponseGet rs request) := by
  rw [wrapResult, rowItems_rowCells]
  rfl

/-- Only the rows that were found stand in their order. -/
theorem wrapResponseGet_perm {rs rs' : List (UInt64 × Row)} (h : rs.Perm rs')
    (request : List PBDBData) :
    (wrapResponseGet rs request).Perm (wrapResponseGet rs' request) := by
  have hkeys : ∀ k, k ∉ (rs.map rowData).map PBDBData.key ↔
      k ∉ (rs'.map rowData).map PBDBData.key := fun k =>
    not_congr ((h.map rowData).map PBDBData.key).mem_iff
  simp only [wrapResponseGet, hkeys]
  exact (h.map rowData).append_right _

/-- Failures before an item do not matter from the item on. -/
theorem checkVersion_congr (s : Store) (uid : UInt64) {f g : Nat → Bool} (ds : List PBDBData) :
    ∀ {i}, (∀ j, i ≤ j → f j = g j) → checkVersion s uid f i ds = checkVersion s uid g i ds := by
  induction ds with
  | nil => exact fun _ => rfl
  | cons d ds ih =>
    intro i h
    rw [checkVersion, checkVersion, h i (Nat.le_refl i), ih fun j hj => h j (Nat.le_of_succ_le hj)]

/-- The first item that is not in order decides. -/
theorem checkVersion_stop {s : Store} {uid : UInt64} {fails : Nat → Bool} {i : Nat} {d : PBDBData}
    {ds : List PBDBData} {r : HandleResult} (h : checkItem s uid d (fails i) = r) (hne : r ≠ .ok) :
    checkVersion s uid fails i (d :: ds) = r := by
  rw [checkVersion, h]
  cases r with
  | ok => exact absurd rfl hne
  | error => rfl
  | verDiffer => rfl

theorem saveDoRequest_congr (uid : UInt64) {f g : Nat → Bool} (ds : List PBDBData) :
    ∀ (s : Store) {i}, (∀ j, i ≤ j → f j = g j) →
      saveDoRequest s uid f i ds = saveDoRequest s uid g i ds := by
  induction ds with
  | nil => exact fun _ _ _ => rfl
  | cons d ds ih =>
    intro s i h
    rw [saveDoRequest, saveDoRequest, h i (Nat.le_refl i), ih _ fun j hj => h j (Nat.le_of_succ_le hj)]

theorem saveToCache_eq (uid : UInt64) (ds : List PBDBData) : ∀ s : Store,
    saveToCache s uid ds = ⟨s.tables, cacheVersions s.cache uid ds⟩ := by
  induction ds with
  | nil => exact fun _ => rfl
  | cons d ds ih =>
    intro s
    rw [saveToCache, ih, cacheVersions]
    rfl

/-- Twice the length of a blob that a message can carry stays below the buffer. -/
theorem double_lt {n : Nat} (h : n ≤ maxPbLen) : 2 * n < maxPbDataBuf := by
  have hpb : maxPbLen = 4092 := rfl
  have hbuf : maxPbDataBuf = 65536 := rfl
  omega

section Handlers

variable {m : Mysql δ} (hm : m.Documented)
include hm

/-- A statement that is read as it is meant has its effect on the store, or none. -/
theorem commit_ok (p : Process δ) {sql : List UInt8} {st : Statement}
    (hread : read sql = some st.pieces) (hfits : st.Fits) :
    ∃ p', commit m p sql = (p', none) ∧ p'.store m = p.store m ∨
      ∃ res tables, commit m p sql = (p', some res) ∧
        st.Effect (p.store m).tables tables res ∧ p'.store m = ⟨tables, p.cache⟩ := by
  cases hconn : p.connected with
  | false => exact ⟨p, .inl ⟨by rw [commit, hconn]; rfl, rfl⟩⟩
  | true =>
    have hdoc := hm p.db sql st hread hfits
    refine ⟨{ p with db := (m.exec p.db sql).1 }, ?_⟩
    rw [commit, hconn, if_pos rfl]
    cases hres : (m.exec p.db sql).2 with
    | none =>
      rw [hres] at hdoc
      refine .inl ⟨rfl, ?_⟩
      rw [Process.store, hdoc]
      rfl
    | some res =>
      rw [hres] at hdoc
      exact .inr ⟨res, _, rfl, hdoc, rfl⟩

/-- A `select` for data, whatever comes of it, is one of the store. -/
theorem sqlGetDoRequest_ok (p : Process δ) (table uid : UInt64) (request : List PBDBData) :
    ∃ p' o fails, sqlGetDoRequest m p table uid request = .ok (p', o) ∧ p'.store m = p.store m ∧
      Option.Rel List.Perm o (getDoRequest (p.store m) table uid request fails) := by
  obtain ⟨p', ⟨hcommit, hstore⟩ | ⟨res, tables, hcommit, heffect, hstore⟩⟩ :=
    commit_ok hm p (read_getText table (request.map fun d => uidKey d.key uid)) trivial
  · refine ⟨p', none, true, ?_, hstore, .none⟩
    simp only [sqlGetDoRequest, hcommit]
  · cases heffect with
    | @get _ _ rs hkeys hperm =>
    refine ⟨p', some (wrapResponseGet rs request), false, ?_, hstore, ?_⟩
    · simp only [sqlGetDoRequest, hcommit, wrapResult_rowCells]
      rfl
    · have hne : request.isEmpty = false := by
        rw [List.isEmpty_eq_false_iff]
        rintro rfl
        exact hkeys rfl
      rw [getDoRequest, hne]
      exact .some (wrapResponseGet_perm hperm request)

theorem sqlCheckItem_ok (p : Process δ) (uid : UInt64) (d : PBDBData) :
    ∃ fails p', sqlCheckItem m p uid d = .ok (p', checkItem (p.store m) uid d fails) ∧
      p'.store m = p.store m := by
  cases hcache : p.cache (saveKey uid d) with
  | some c =>
    refine ⟨false, p, ?_, rfl⟩
    simp only [checkItem, sqlCheckItem, Process.store, hcache]
  | none =>
    have habs : ∀ fails, checkItem (p.store m) uid d fails =
        doDBVersionCheck (p.store m) (tableOf uid) (saveKey uid d) d fails := by
      intro fails
      simp only [checkItem, Process.store, hcache]
    obtain ⟨p', ⟨hcommit, hstore⟩ | ⟨res, tables, hcommit, heffect, hstore⟩⟩ :=
      commit_ok hm p (read_versionText (tableOf uid) (saveKey uid d)) trivial
    · refine ⟨true, p', ?_, hstore⟩
      simp only [sqlCheckItem, hcache, sqlVersionCheck, hcommit, habs]
      rfl
    · cases heffect
      refine ⟨false, p', ?_, hstore⟩
      simp only [sqlCheckItem, hcache, sqlVersionCheck, hcommit, habs]
      cases hrow : (p.store m).tables (tableOf uid) (saveKey uid d) with
      | none =>
        simp only [doDBVersionCheck, hrow, Option.toList_none, List.map_nil, Bool.false_eq_true,
          if_false]
      | some r =>
        have hlt := r.ver.toNat_lt
        have hver : r.ver.toNat < 2 ^ 63 := by omega
        simp only [doDBVersionCheck, hrow, Option.toList_some, List.map_cons, List.map_nil,
          List.head?_cons, Option.bind_some, Cell.doConv, hver, if_true, UInt32.ofNat_toNat,
          Bool.false_eq_true, if_false]

/-- The check on texts is the check on rows, with some statements failing. -/
theorem sqlCheckVersion_ok (uid : UInt64) (ds : List PBDBData) : ∀ (p : Process δ) (i : Nat),
    ∃ fails p', sqlCheckVersion m uid p ds = .ok (p', checkVersion (p.store m) uid fails i ds) ∧
      p'.store m = p.store m := by
  induction ds with
  | nil => exact fun p _ => ⟨fun _ => false, p, rfl, rfl⟩
  | cons d ds ih =>
    intro p i
    obtain ⟨b, p', hitem, hstore⟩ := sqlCheckItem_ok hm p uid d
    by_cases hr : checkItem (p.store m) uid d b = .ok
    · obtain ⟨fails, p'', hrest, hstore'⟩ := ih p' (i + 1)
      refine ⟨Function.update fails i b, p'', ?_, hstore'.trans hstore⟩
      have hcongr := checkVersion_congr (p.store m) uid ds (i := i + 1)
        (f := Function.update fails i b) (g := fails) fun j hj =>
          Function.update_of_ne (Nat.ne_of_gt hj) ..
      rw [hr] at hitem
      rw [checkVersion, Function.update_self, hr, sqlCheckVersion, hitem]
      dsimp only
      rw [hcongr, ← hstore, hrest]
    · refine ⟨fun _ => b, p', ?_, hstore⟩
      have hstop : checkVersion (p.store m) uid (fun _ => b) i (d :: ds) =
          checkItem (p.store m) uid d b := checkVersion_stop rfl hr
      rw [hstop, sqlCheckVersion, hitem]
      generalize checkItem (p.store m) uid d b = r at hr
      cases r with
      | ok => exact absurd rfl hr
      | error => rfl
      | verDiffer => rfl

/-- No buffer is overrun, and the rows that are written are those of the store. -/
theorem sqlSaveDoRequest_ok (uid : UInt64) (bufs : Nat → StackBuf) (ds : List PBDBData)
    (hds : ∀ d ∈ ds, 2 * d.bytes.length < maxPbDataBuf) : ∀ (p : Process δ) (i : Nat),
    ∃ fails p' success, sqlSaveDoRequest m uid bufs p i ds = .ok (p', success) ∧
      saveDoRequest (p.store m) uid fails i ds = ⟨p'.store m, success⟩ := by
  induction ds with
  | nil => exact fun p _ => ⟨fun _ => false, p, true, rfl, rfl⟩
  | cons d ds ih =>
    intro p i
    obtain ⟨b, hb, hread, hfits⟩ := read_replaceText (bufs i) (tableOf uid) (saveKey uid d)
      (hds d List.mem_cons_self) d.version
    obtain ⟨p₁, ⟨hcommit, hstore⟩ | ⟨res, tables, hcommit, heffect, hstore⟩⟩ :=
      commit_ok hm p hread hfits
    · refine ⟨fun _ => true, p₁, false, ?_, ?_⟩
      · simp only [sqlSaveDoRequest, hb, hcommit]
      · rw [saveDoRequest, if_pos rfl, hstore]
    · cases heffect
      obtain ⟨fails, p', success, hrest, habs⟩ :=
        ih (fun e he => hds e (List.mem_cons_of_mem d he)) p₁ (i + 1)
      refine ⟨Function.update fails i false, p', success, ?_, ?_⟩
      · simp only [sqlSaveDoRequest, hb, hcommit, hrest]
      · have hcongr := saveDoRequest_congr uid ds (replaceRow (p.store m) (tableOf uid)
          (saveKey uid d) ⟨d.bytes, d.version⟩) (i := i + 1) (f := Function.update fails i false)
          (g := fails) fun j hj => Function.update_of_ne (Nat.ne_of_gt hj) ..
        rw [saveDoRequest, Function.update_self, if_neg Bool.false_ne_true, hcongr, ← habs, hstore]
        rfl

theorem sqlHandleGet_ok (p : Process δ) (r : GetRequest) :
    ∃ p' a fails, sqlHandleGet m p r = .ok (p', a) ∧ p'.store m = p.store m ∧
      a.Same (handleGet (p.store m) r fails) := by
  obtain ⟨p', o, fails, hget, hstore, hrel⟩ := sqlGetDoRequest_ok hm p (tableOf r.uid) r.uid r.datas
  rw [sqlHandleGet, hget]
  cases habs : getDoRequest (p.store m) (tableOf r.uid) r.uid r.datas fails with
  | none =>
    rw [habs] at hrel
    cases hrel
    refine ⟨p', _, fails, rfl, hstore, ?_⟩
    rw [handleGet, habs]
    exact .refl _
  | some datas =>
    rw [habs] at hrel
    cases hrel with
    | some hperm =>
      refine ⟨p', _, fails, rfl, hstore, ?_⟩
      rw [handleGet, habs]
      exact ⟨rfl, rfl, hperm⟩

/-- So is a whole save. -/
theorem sqlHandleSave_ok (bufs : Nat → StackBuf) (p : Process δ) (r : SaveRequest)
    (hds : ∀ d ∈ r.datas, 2 * d.bytes.length < maxPbDataBuf) :
    ∃ p' a f, sqlHandleSave m bufs p r = .ok (p', a) ∧
      p'.store m = (handleSave (p.store m) r f).store ∧
      a.Same (handleSave (p.store m) r f).response := by
  obtain ⟨check, p₁, hp₁, hstore⟩ := sqlCheckVersion_ok hm r.uid r.datas p 0
  cases hcheck : checkVersion (p.store m) r.uid check 0 r.datas with
  | error =>
    rw [hcheck] at hp₁
    refine ⟨p₁, _, ⟨check, fun _ => false, false⟩, by rw [sqlHandleSave, hp₁], ?_⟩
    rw [handleSave, hcheck]
    exact ⟨hstore, .refl _⟩
  | verDiffer =>
    rw [hcheck] at hp₁
    obtain ⟨p₂, o, refetch, hget, hstore₂, hrel⟩ :=
      sqlGetDoRequest_ok hm p₁ (tableOf r.uid) r.uid r.datas
    refine ⟨p₂, ⟨.verDiffer, r.uid, o.getD []⟩, ⟨check, fun _ => false, refetch⟩, ?_, ?_⟩
    · rw [sqlHandleSave, hp₁]
      dsimp only
      rw [hget]
      rfl
    · rw [handleSave, hcheck]
      rw [hstore] at hrel hstore₂
      refine ⟨hstore₂, rfl, rfl, ?_⟩
      dsimp only
      generalize getDoRequest (p.store m) (tableOf r.uid) r.uid r.datas refetch = abs at hrel
      cases hrel with
      | none => exact .refl _
      | some hperm => exact hperm
  | ok =>
    rw [hcheck] at hp₁
    obtain ⟨replace, p₂, success, hsave, habs⟩ := sqlSaveDoRequest_ok hm r.uid bufs r.datas hds p₁ 0
    rw [hstore] at habs
    have hhandled : sqlHandleSave m bufs p r =
        if success then .ok ({ p₂ with cache := cacheVersions p₂.cache r.uid r.datas }, ⟨.ok, r.uid, []⟩)
        else .ok (p₂, ⟨.error, r.uid, []⟩) := by
      rw [sqlHandleSave, hp₁]
      dsimp only
      rw [hsave]
      cases success <;> rfl
    rw [hhandled]
    cases success with
    | false =>
      refine ⟨p₂, _, ⟨check, replace, false⟩, rfl, ?_⟩
      rw [handleSave, hcheck]
      dsimp only
      rw [habs]
      exact ⟨rfl, .refl _⟩
    | true =>
      refine ⟨_, _, ⟨check, replace, false⟩, rfl, ?_⟩
      rw [handleSave, hcheck]
      dsimp only
      rw [habs, if_pos rfl, saveToCache_eq]
      exact ⟨rfl, .refl _⟩

end Handlers

/-! ## Whole runs -/

inductive Act where
  | get (r : GetRequest) (a : Response)
  | save (r : SaveRequest) (a : Response)
  | restart

/-- The process over its database. A new one has an empty cache. -/
inductive TextStep (m : Mysql δ) (p : Process δ) : Act → Process δ → Prop
  | get {r : GetRequest} {a : Response} {p' : Process δ} (h : sqlHandleGet m p r = .ok (p', a)) :
      TextStep m p (.get r a) p'
  | save {r : SaveRequest} {a : Response} {p' : Process δ} (bufs : Nat → StackBuf)
      (h : sqlHandleSave m bufs p r = .ok (p', a)) : TextStep m p (.save r a) p'
  | restart (connected : Bool) : TextStep m p .restart ⟨p.db, connected, fun _ => none⟩

/-- The model without texts, with any statements failing and the data of an answer in any order. -/
inductive StoreStep (s : Store) : Act → Store → Prop
  | get {r : GetRequest} {a : Response} (fails : Bool) (h : a.Same (handleGet s r fails)) :
      StoreStep s (.get r a) s
  | save {r : SaveRequest} {a : Response} (f : SqlFailures)
      (h : a.Same (handleSave s r f).response) :
      StoreStep s (.save r a) (handleSave s r f).store
  | restart : StoreStep s .restart { s with cache := fun _ => none }

def BlobsFit (_ : Process δ) : Act → Prop
  | .save r _ => ∀ d ∈ r.datas, d.bytes.length ≤ maxPbLen
  | _ => True

/-- A step of the process is one of the store. -/
theorem TextStep.store {m : Mysql δ} (hm : m.Documented) {p p' : Process δ} {e : Act}
    (hfit : BlobsFit p e) (h : TextStep m p e p') : StoreStep (p.store m) e (p'.store m) := by
  cases h with
  | @get r a _ h =>
    obtain ⟨p₁, a₁, fails, hget, hstore, hsame⟩ := sqlHandleGet_ok hm p r
    rw [h] at hget
    cases hget
    rw [hstore]
    exact .get fails hsame
  | @save r a _ bufs h =>
    obtain ⟨p₁, a₁, f, hsave, hstore, hsame⟩ :=
      sqlHandleSave_ok hm bufs p r fun d hd => double_lt (hfit d hd)
    rw [h] at hsave
    cases hsave
    rw [hstore]
    exact .save f hsame
  | restart connected => exact .restart

/-- Every run over the texts is a run of the store with the same answers up to the order of their
data, and no request behind it ends the process. -/
theorem texts_refine_store {m : Mysql δ} (hm : m.Documented) {p p' : Process δ} {es : List Act}
    (h : Trace.Run (TextStep m) BlobsFit p es p') :
    Trace.Run StoreStep (fun _ _ => True) (p.store m) es (p'.store m) ∧
      (∀ r, ∃ q a, sqlHandleGet m p' r = .ok (q, a)) ∧
      ∀ r bufs, (∀ d ∈ r.datas, d.bytes.length ≤ maxPbLen) →
        ∃ q a, sqlHandleSave m bufs p' r = .ok (q, a) := by
  refine ⟨h.map (Process.store m) fun _ _ _ hfit hs => ⟨trivial, hs.store hm hfit⟩, fun r => ?_,
    fun r bufs hfit => ?_⟩
  · obtain ⟨q, a, -, hget, -⟩ := sqlHandleGet_ok hm p' r
    exact ⟨q, a, hget⟩
  · obtain ⟨q, a, -, hsave, -⟩ := sqlHandleSave_ok hm bufs p' r fun d hd => double_lt (hfit d hd)
    exact ⟨q, a, hsave⟩

/-- Blobs fit, versions are `int`s, and no save is answered with an error. -/
def CleanAct (p : Process δ) (e : Act) : Prop :=
  BlobsFit p e ∧ match e with
    | .save r a => (∀ d ∈ r.datas, d.version.toNat < 2 ^ 31) ∧ a.result ≠ .error
    | _ => True

/-- An answer that is no error tells that no `replace` has failed. -/
theorem saveGuard_of_answer {s : Store} {r : SaveRequest} {f : SqlFailures}
    (hver : ∀ d ∈ r.datas, d.version.toNat < 2 ^ 31)
    (hres : (handleSave s r f).response.result ≠ .error) : SaveGuard s r f := by
  refine ⟨hver, fun hok hne => ?_⟩
  obtain ⟨-, -, hsucc, -⟩ | ⟨-, herr, -⟩ | ⟨-, hnot, hcheck⟩ :=
    handleSave_cases (s := s) (r := r) (f := f) rfl
  · exact absurd (written_of_success hsucc) hne
  · exact absurd herr hres
  · exact absurd (hok.symm.trans hcheck).symm hnot

/-- The cache can be trusted behind the texts, too, as long as no save is answered with an error. -/
theorem texts_trusted {m : Mysql δ} (hm : m.Documented) {p p' : Process δ} {es : List Act}
    (hcache : p.cache = fun _ => none) (hsmall : Small (p.store m))
    (h : Trace.Run (TextStep m) CleanAct p es p') : Trusted (p'.store m) := by
  have hinv : Coherent (p'.store m) ∧ Small (p'.store m) := by
    refine h.invariant (fun p => Coherent (p.store m) ∧ Small (p.store m)) ⟨fun k c hc => ?_, hsmall⟩ ?_
    · rw [Process.store, hcache] at hc
      cases hc
    · intro p e p' ⟨hc, hs⟩ ⟨hfit, hclean⟩ hstep
      have hstore := hstep.store hm hfit
      generalize p'.store m = q at hstore ⊢
      cases hstore with
      | get fails _ => exact ⟨hc, hs⟩
      | save f hsame =>
        obtain ⟨hver, hres⟩ := hclean
        rw [hsame.result] at hres
        exact handleSave_inv hc hs (saveGuard_of_answer hver hres) rfl
      | restart => exact ⟨fun k c hc => (nomatch hc), hs⟩
  exact .of_coherent hinv.1 hinv.2

/-! ## No text is that of two statements -/

def Digit (b : UInt8) : Prop := 0x30 ≤ b ∧ b ≤ 0x39

instance (b : UInt8) : Decidable (Digit b) := inferInstanceAs (Decidable (_ ∧ _))

theorem digit_of_mem_decimal {n : Nat} {b : UInt8} (h : b ∈ decimal n) : Digit b := by
  obtain ⟨c, hc, rfl⟩ := List.mem_map.mp h
  have hdigit := Nat.isDigit_of_mem_toDigits (by decide) (by decide) hc
  rw [Char.isDigit, Bool.and_eq_true, decide_eq_true_eq, decide_eq_true_eq] at hdigit
  have hlow : 48 ≤ c.toNat := hdigit.1
  have hhigh : c.toNat ≤ 57 := hdigit.2
  have hnat : (UInt8.ofNat c.toNat).toNat = c.toNat :=
    UInt8.toNat_ofNat_of_lt' (by show c.toNat < 256; omega)
  constructor
  · rw [UInt8.le_iff_toNat_le, hnat]
    exact hlow
  · rw [UInt8.le_iff_toNat_le, hnat]
    exact hhigh

def number (bs : List UInt8) : Nat :=
  Nat.ofDigitChars 10 (bs.map fun b => Char.ofNat b.toNat) 0

theorem number_decimal (n : Nat) : number (decimal n) = n := by
  have hchars : (decimal n).map (fun b => Char.ofNat b.toNat) = Nat.toDigits 10 n := by
    rw [decimal, List.map_map]
    refine (List.map_congr_left fun c hc => ?_).trans (List.map_id _)
    have hdigit := Nat.isDigit_of_mem_toDigits (by decide) (by decide) hc
    rw [Char.isDigit, Bool.and_eq_true, decide_eq_true_eq, decide_eq_true_eq] at hdigit
    have hhigh : c.toNat ≤ 57 := hdigit.2
    rw [Function.comp_apply, UInt8.toNat_ofNat_of_lt' (by show c.toNat < 256; omega),
      Char.ofNat_toNat]
    rfl
  rw [number, hchars, Nat.ofDigitChars_ten_toDigits]

/-- A number ends where no digit follows. -/
theorem decimal_append_inj {m n : Nat} {t t' : List UInt8} (ht : ∀ b ∈ t.head?, ¬ Digit b)
    (ht' : ∀ b ∈ t'.head?, ¬ Digit b) (h : decimal m ++ t = decimal n ++ t') : m = n ∧ t = t' := by
  have htake : ∀ (n : Nat) (t : List UInt8), (∀ b ∈ t.head?, ¬ Digit b) →
      (decimal n ++ t).takeWhile (fun b => Digit b) = decimal n := by
    intro n t ht
    rw [List.takeWhile_append_of_pos fun b hb => decide_eq_true (digit_of_mem_decimal hb)]
    cases t with
    | nil => simp
    | cons b t => simp [ht b rfl]
  have hdigits := congrArg (List.takeWhile fun b => Digit b) h
  rw [htake m t ht, htake n t' ht'] at hdigits
  refine ⟨?_, ?_⟩
  · rw [← number_decimal m, hdigits, number_decimal]
  · rw [hdigits] at h
    exact List.append_cancel_left h

/-- The bytes in front of the numbers. -/
theorem conditions_cons (k : UInt64) (ks : List UInt64) : ∃ t, conditions (k :: ks) =
    ascii " uid_key = " ++ (decimal k.toNat ++ t) ∧
      t = if ks = [] then [] else ascii " or " ++ conditions ks := by
  cases ks with
  | nil => exact ⟨[], by rw [conditions, List.append_nil], rfl⟩
  | cons k' ks =>
    refine ⟨_, ?_, rfl⟩
    rw [conditions, if_neg (List.cons_ne_nil k' ks)]
    · simp only [List.append_assoc]
    · exact List.cons_ne_nil k' ks

theorem space_head {bs : List UInt8} (h : bs.head? = some 0x20) : ∀ b ∈ bs.head?, ¬ Digit b := by
  intro b hb
  rw [h] at hb
  cases hb
  decide

theorem conditions_inj {ks ks' : List UInt64} (h : conditions ks = conditions ks') : ks = ks' := by
  have hne : ∀ k (ks : List UInt64), conditions (k :: ks) ≠ [] := by
    intro k ks he
    obtain ⟨t, ht, -⟩ := conditions_cons k ks
    rw [ht] at he
    have hlen := congrArg List.length he
    rw [List.length_append] at hlen
    exact absurd (Nat.le_of_add_right_le (Nat.le_of_eq hlen)) (by decide +kernel)
  induction ks generalizing ks' with
  | nil =>
    cases ks' with
    | nil => rfl
    | cons k' ks' => exact absurd h.symm (hne k' ks')
  | cons k ks ih =>
    cases ks' with
    | nil => exact absurd h (hne k ks)
    | cons k' ks' =>
      obtain ⟨t, hks, rfl⟩ := conditions_cons k ks
      obtain ⟨t', hks', rfl⟩ := conditions_cons k' ks'
      rw [hks, hks'] at h
      have hhead : ∀ ks : List UInt64,
          ∀ b ∈ (if ks = [] then [] else ascii " or " ++ conditions ks).head?, ¬ Digit b := by
        intro ks
        split
        · exact fun _ hb => nomatch hb
        · exact space_head rfl
      obtain ⟨hk, ht⟩ := decimal_append_inj (hhead ks) (hhead ks') (List.append_cancel_left h)
      rw [UInt64.toNat_inj.mp hk]
      by_cases hnil : ks = []
      · by_cases hnil' : ks' = []
        · rw [hnil, hnil']
        · rw [if_pos hnil, if_neg hnil'] at ht
          exact absurd ht (by simp [ascii])
      · by_cases hnil' : ks' = []
        · rw [if_neg hnil, if_pos hnil'] at ht
          exact absurd ht (by simp [ascii])
        · rw [if_neg hnil, if_neg hnil'] at ht
          rw [ih (List.append_cancel_left ht)]

theorem getText_inj {t t' : UInt64} {ks ks' : List UInt64} (h : getText t ks = getText t' ks') :
    t = t' ∧ ks = ks' := by
  simp only [getText, tableName, List.append_assoc] at h
  obtain ⟨ht, hrest⟩ := decimal_append_inj (space_head rfl) (space_head rfl)
    (List.append_cancel_left (List.append_cancel_left h))
  exact ⟨UInt64.toNat_inj.mp ht, conditions_inj (List.append_cancel_left hrest)⟩

theorem versionText_inj {t t' k k' : UInt64} (h : versionText t k = versionText t' k') :
    t = t' ∧ k = k' := by
  simp only [versionText, tableName, List.append_assoc] at h
  obtain ⟨ht, hrest⟩ := decimal_append_inj (space_head rfl) (space_head rfl)
    (List.append_cancel_left (List.append_cancel_left h))
  have hk := congrArg number (List.append_cancel_left hrest)
  rw [number_decimal, number_decimal] at hk
  exact ⟨UInt64.toNat_inj.mp ht, UInt64.toNat_inj.mp hk⟩

theorem comma_head (bs : List UInt8) : ∀ b ∈ (ascii ", " ++ bs).head?, ¬ Digit b := by
  intro b hb
  have hcomma : (ascii ", " ++ bs).head? = some 0x2c := rfl
  rw [hcomma] at hb
  cases hb
  decide

theorem replaceHead_inj {t t' k k' : UInt64} (h : replaceHead t k = replaceHead t' k') :
    t = t' ∧ k = k' := by
  simp only [replaceHead, tableName, List.append_assoc] at h
  obtain ⟨ht, hrest⟩ := decimal_append_inj (space_head rfl) (space_head rfl)
    (List.append_cancel_left (List.append_cancel_left h))
  have hcomma := comma_head []
  rw [List.append_nil] at hcomma
  obtain ⟨hk, -⟩ := decimal_append_inj hcomma hcomma (List.append_cancel_left hrest)
  exact ⟨UInt64.toNat_inj.mp ht, UInt64.toNat_inj.mp hk⟩

theorem replaceTail_inj {v v' : UInt32} (h : replaceTail v = replaceTail v') : v = v' := by
  simp only [replaceTail, List.append_assoc] at h
  obtain ⟨hv, -⟩ := decimal_append_inj (space_head rfl) (space_head rfl) (List.append_cancel_left h)
  exact UInt32.toNat_inj.mp hv

theorem code_inj {bs bs' : List UInt8} (h : bs.map Piece.code = bs'.map Piece.code) : bs = bs' :=
  List.map_injective_iff.mpr (fun _ _ => Piece.code.inj) h

theorem literal_notMem (bs : List UInt8) (v : List UInt8) : Piece.literal v ∉ bs.map Piece.code := by
  intro h
  obtain ⟨_, -, hb⟩ := List.mem_map.mp h
  cases hb

theorem meant_inj {pre pre' v v' post post' : List UInt8} (h : meant pre v post = meant pre' v' post') :
    pre = pre' ∧ v = v' ∧ post = post' := by
  obtain ⟨hpre, hv, hpost⟩ := (List.append_cons_inj_of_notMem (literal_notMem pre v')
    (literal_notMem post v')).mp h
  exact ⟨code_inj hpre, Piece.literal.inj hv, code_inj hpost⟩

theorem getText_ne_versionText (t t' k : UInt64) (ks : List UInt64) :
    getText t ks ≠ versionText t' k := by
  intro h
  have hstar : (getText t ks)[7]? = some 0x2a := rfl
  have hletter : (versionText t' k)[7]? = some 0x76 := rfl
  rw [h, hletter] at hstar
  exact absurd hstar (by decide)

/-- The server reads in a text which statement it is. -/
theorem pieces_inj {st st' : Statement} (h : st.pieces = st'.pieces) : st = st' := by
  have hcode : ∀ (bs pre v post : List UInt8), bs.map Piece.code ≠ meant pre v post := by
    intro bs pre v post he
    have hmem : Piece.literal v ∈ meant pre v post :=
      List.mem_append_right _ List.mem_cons_self
    exact literal_notMem bs v (he ▸ hmem)
  cases st with
  | get t ks =>
    cases st' with
    | get t' ks' =>
      obtain ⟨rfl, rfl⟩ := getText_inj (code_inj h)
      rfl
    | version t' k' => exact absurd (code_inj h) (getText_ne_versionText t t' k' ks)
    | replace t' k' blob ver => exact absurd h (hcode _ _ _ _)
  | version t k =>
    cases st' with
    | get t' ks' => exact absurd (code_inj h).symm (getText_ne_versionText t' t k ks')
    | version t' k' =>
      obtain ⟨rfl, rfl⟩ := versionText_inj (code_inj h)
      rfl
    | replace t' k' blob ver => exact absurd h (hcode _ _ _ _)
  | replace t k blob ver =>
    cases st' with
    | get t' ks' => exact absurd h.symm (hcode _ _ _ _)
    | version t' k' => exact absurd h.symm (hcode _ _ _ _)
    | replace t' k' blob' ver' =>
      obtain ⟨hpre, rfl, hpost⟩ := meant_inj h
      obtain ⟨rfl, rfl⟩ := replaceHead_inj hpre
      rw [replaceTail_inj hpost]

/-! ## A server that does what it is asked -/

/-- What the manual says, with no statement failing but those that do not parse or do not fit. -/
def perform (tables : UInt64 → UInt64 → Option Row) :
    Statement → (UInt64 → UInt64 → Option Row) × Option (List (List Cell))
  | .get table keys =>
    (tables, if keys = [] then none else some ((selectRows (fresh tables) table keys).map rowCells))
  | .version table k => (tables, some ((tables table k).toList.map fun r => [.num r.ver.toNat]))
  | .replace table k blob ver =>
    if blob.length ≤ maxBlob then ((replaceRow (fresh tables) table k ⟨blob, ver⟩).tables, some [])
    else (tables, none)

open Classical in
/-- A server that knows the three kinds of statements. -/
noncomputable def plainServer : Mysql (UInt64 → UInt64 → Option Row) where
  rows := id
  exec tables sql :=
    if h : ∃ st : Statement, read sql = some st.pieces then perform tables h.choose
    else (tables, none)

theorem plainServer_exec {sql : List UInt8} {st : Statement} (h : read sql = some st.pieces)
    (tables : UInt64 → UInt64 → Option Row) : plainServer.exec tables sql = perform tables st := by
  have hex : ∃ st : Statement, read sql = some st.pieces := ⟨st, h⟩
  have hst : hex.choose = st := pieces_inj (Option.some.inj (hex.choose_spec.symm.trans h))
  have hexec : plainServer.exec tables sql = perform tables hex.choose := dif_pos hex
  rw [hexec, hst]

/-- The sample server behaves as the manual says. -/
theorem plainServer_documented : plainServer.Documented := by
  intro tables sql st hread hfits
  rw [plainServer_exec hread]
  cases st with
  | get table keys =>
    by_cases hkeys : keys = []
    · simp only [perform, hkeys, if_true]
    · simp only [perform, hkeys, if_false]
      exact .get hkeys (.refl _)
  | version table k => exact .version
  | replace table k blob ver =>
    have hle : blob.length ≤ maxBlob := hfits
    simp only [perform, hle, if_true]
    exact .replace

theorem commit_plainServer {p : Process (UInt64 → UInt64 → Option Row)} (hconn : p.connected = true)
    {sql : List UInt8} {st : Statement} (h : read sql = some st.pieces) :
    commit plainServer p sql = ({ p with db := (perform p.db st).1 }, (perform p.db st).2) := by
  rw [commit, if_pos hconn, plainServer_exec h]

def stackBuf : StackBuf := ⟨List.replicate maxPbDataBuf 1, List.length_replicate ..⟩

def emptyProcess : Process (UInt64 → UInt64 → Option Row) := ⟨fun _ _ => none, true, fun _ => none⟩

/-- A blob of a zero, a quote and a backslash. -/
def quotedBlob : Blob := [0, 0x27, 0x5c]

def quotedSave : SaveRequest := ⟨7, [⟨1, some quotedBlob, some 1, none⟩]⟩

def quotedGet : GetRequest := ⟨7, [⟨1, none, none, none⟩]⟩

def savedProcess : Process (UInt64 → UInt64 → Option Row) :=
  ⟨(replaceRow (fresh fun _ _ => none) 7 10000000007 ⟨quotedBlob, 1⟩).tables, true,
    Function.update (fun _ => none) 10000000007 (some 1)⟩

theorem quotedSave_step : TextStep plainServer emptyProcess (.save quotedSave ⟨.ok, 7, []⟩)
    savedProcess := by
  have htable : tableOf 7 = 7 := by decide
  have hkey : saveKey 7 ⟨1, some quotedBlob, some 1, none⟩ = 10000000007 := by decide
  have hlen : 2 * quotedBlob.length < maxPbDataBuf := by decide
  obtain ⟨b, hb, hread, -⟩ := read_replaceText stackBuf 7 10000000007 hlen 1
  have hcheck := commit_plainServer (p := emptyProcess) rfl (read_versionText 7 10000000007)
  have hreplace := commit_plainServer (p := emptyProcess) rfl hread
  have hversion : sqlCheckVersion plainServer 7 emptyProcess quotedSave.datas =
      .ok (emptyProcess, .ok) := by
    simp only [quotedSave, sqlCheckVersion, sqlCheckItem, hkey, htable, sqlVersionCheck, hcheck]
    rfl
  have hsave : sqlSaveDoRequest plainServer 7 (fun _ => stackBuf) emptyProcess 0 quotedSave.datas =
      .ok (⟨(replaceRow (fresh fun _ _ => none) 7 10000000007 ⟨quotedBlob, 1⟩).tables, true,
        fun _ => none⟩, true) := by
    simp only [quotedSave, sqlSaveDoRequest, hkey, htable, PBDBData.bytes, PBDBData.version,
      Option.getD_some, hb, hreplace]
    rfl
  refine .save (fun _ => stackBuf) ?_
  simp only [sqlHandleSave, show quotedSave.uid = 7 from rfl, hversion, hsave]
  simp only [quotedSave, cacheVersions, hkey, savedProcess]
  rfl

def quotedAnswer : Response := ⟨.ok, 7, [⟨1, some quotedBlob, some 1, none⟩]⟩

theorem quotedGet_step : TextStep plainServer savedProcess (.get quotedGet quotedAnswer)
    savedProcess := by
  have hcommit := commit_plainServer (p := savedProcess) rfl (read_getText 7 [10000000007])
  have hrows : selectRows (fresh savedProcess.db) 7 [10000000007] =
      [(10000000007, ⟨quotedBlob, 1⟩)] := by
    decide +kernel
  have hne : ¬ [(10000000007 : UInt64)] = [] := by decide
  have htable : tableOf 7 = 7 := by decide
  have hkey : uidKey 1 7 = 10000000007 := by decide
  refine .get ?_
  simp only [sqlHandleGet, sqlGetDoRequest, quotedGet, List.map_cons, List.map_nil, htable, hkey,
    hcommit, perform, if_neg hne, hrows, rowItem_rowCells, wrapResult, rowItems]
  rfl

theorem quoted_fits (p : Process δ) (a : Response) : BlobsFit p (.save quotedSave a) := by
  intro d hd
  obtain rfl := List.mem_singleton.mp hd
  decide

/-- A blob with a quote and a zero is stored and read back. -/
theorem texts_refine_store_quoted :
    Trace.Run StoreStep (fun _ _ => True) (fresh fun _ _ => none)
      [.save quotedSave ⟨.ok, 7, []⟩, .get quotedGet quotedAnswer]
      (savedProcess.store plainServer) := by
  have hget : BlobsFit savedProcess (.get quotedGet quotedAnswer) := trivial
  exact (texts_refine_store plainServer_documented
    (.cons (quoted_fits _ _) quotedSave_step (.cons hget quotedGet_step (.nil _)))).1

theorem texts_trusted_quoted : Trusted (savedProcess.store plainServer) := by
  have hsmall : Small (emptyProcess.store plainServer) := by
    intro k r hr
    cases hr
  have hsave : CleanAct emptyProcess (.save quotedSave ⟨.ok, 7, []⟩) := by
    refine ⟨quoted_fits _ _, fun d hd => ?_, nofun⟩
    obtain rfl := List.mem_singleton.mp hd
    decide
  have hget : CleanAct savedProcess (.get quotedGet quotedAnswer) := ⟨trivial, trivial⟩
  exact texts_trusted plainServer_documented rfl hsmall
    (.cons hsave quotedSave_step (.cons hget quotedGet_step (.nil _)))

end DbProxy
