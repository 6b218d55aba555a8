import Mathlib.Algebra.Group.Nat.Defs
import Mathlib.Logic.Function.Basic

/-!
# The database proxy

`src/dbproxy/handles.cpp`. Player data lives in 512 tables `userdata_<n>`, one row
for each `uid_key`, and `VersionCache` remembers the versions this process wrote.
Every SQL statement may fail, and a failed one changes nothing. `select` answers
rows in the order of the request.
-/
namespace DbProxy

abbrev Blob := List UInt8

/-- A row of a table, beside its primary key `uid_key`. -/
structure Row where
  blob : Blob
  ver : UInt32
  deriving DecidableEq, Repr

/-- `PBDBData`. `origin` is not a field of the message: it records the blob from which the sender
computed `blob`. -/
structure PBDBData where
  key : UInt32
  blob : Option Blob
  ver : Option UInt32
  origin : Option Blob
  deriving DecidableEq, Repr

def PBDBData.version (d : PBDBData) : UInt32 := d.ver.getD 0

def PBDBData.bytes (d : PBDBData) : Blob := d.blob.getD []

inductive HandleResult where
  | ok | error | verDiffer
  deriving DecidableEq, Repr

def keyMultiple : UInt64 := 10000000000
def totalTableNum : UInt64 := 512

def uidKey (key : UInt32) (uid : UInt64) : UInt64 := key.toUInt64 * keyMultiple + uid

def tableOf (uid : UInt64) : UInt64 := uid % totalTableNum

/-- The save handlers take the uid as `unsigned int`. -/
def shortUid (uid : UInt64) : UInt64 := uid.toUInt32.toUInt64

/-- The tables and the `VersionCache`, whose values are `int`. -/
structure Store where
  tables : UInt64 → UInt64 → Option Row
  cache : UInt64 → Option Int32

/-! ## `UserDataGetHandle` -/

structure GetRequest where
  uid : UInt64
  datas : List PBDBData
  deriving DecidableEq, Repr

structure Response where
  result : HandleResult
  uid : UInt64
  datas : List PBDBData
  deriving DecidableEq, Repr

def selectRows (s : Store) (table : UInt64) (uidKeys : List UInt64) : List (UInt64 × Row) :=
  uidKeys.eraseDups.filterMap fun k => (s.tables table k).map (k, ·)

def rowData (r : UInt64 × Row) : PBDBData :=
  ⟨(r.1 / keyMultiple).toUInt32, some r.2.blob, some r.2.ver, none⟩

/-- `WrapResponseGet`: the rows found, then a bare key for every key that was not. -/
def wrapResponseGet (rows : List (UInt64 × Row)) (request : List PBDBData) : List PBDBData :=
  let found := rows.map rowData
  found ++ (request.filter fun d => d.key ∉ found.map PBDBData.key).map
    fun d => ⟨d.key, none, none, none⟩

/-- `UserDataGetHandle::DoRequest`. Without keys the statement ends in `where` and is refused. -/
def getDoRequest (s : Store) (table uid : UInt64) (request : List PBDBData) (fails : Bool) :
    Option (List PBDBData) :=
  if fails || request.isEmpty then none
  else some (wrapResponseGet (selectRows s table (request.map fun d => uidKey d.key uid)) request)

def handleGet (s : Store) (r : GetRequest) (fails : Bool) : Response :=
  match getDoRequest s (tableOf r.uid) r.uid r.datas fails with
  | some datas => ⟨.ok, r.uid, datas⟩
  | none => ⟨.error, r.uid, []⟩

/-! ## `UserDataSaveHandle` -/

structure SaveRequest where
  uid : UInt64
  datas : List PBDBData
  deriving DecidableEq, Repr

/-- Which statements of one request fail: the version check and the `replace` of each item, and
the `select` behind a version conflict. -/
structure SqlFailures where
  check : Nat → Bool
  replace : Nat → Bool
  refetch : Bool

def SqlFailures.never : SqlFailures := ⟨fun _ => false, fun _ => false, false⟩

def saveKey (uid : UInt64) (d : PBDBData) : UInt64 := uidKey d.key (shortUid uid)

/-- `DoDBVersionCheck`. The version is read as `int` through a `long` and compared as unsigned, so that
any value of the column is compared as it is. -/
def doDBVersionCheck (s : Store) (table k : UInt64) (d : PBDBData) (fails : Bool) : HandleResult :=
  if fails then .error
  else
    match s.tables table k with
    | none => .ok
    | some r => if d.version - 1 ≠ r.ver then .verDiffer else .ok

def checkItem (s : Store) (uid : UInt64) (d : PBDBData) (fails : Bool) : HandleResult :=
  match s.cache (saveKey uid d) with
  | some c => if d.version - 1 ≠ c.toUInt32 then .verDiffer else .ok
  | none => doDBVersionCheck s (tableOf uid) (saveKey uid d) d fails

def checkVersion (s : Store) (uid : UInt64) (fails : Nat → Bool) : Nat → List PBDBData → HandleResult
  | _, [] => .ok
  | i, d :: ds =>
    match checkItem s uid d (fails i) with
    | .ok => checkVersion s uid fails (i + 1) ds
    | r => r

def replaceRow (s : Store) (table : UInt64) (k : UInt64) (r : Row) : Store :=
  { s with tables := Function.update s.tables table (Function.update (s.tables table) k (some r)) }

/-- What the `replace` loop leaves and whether it got to its end. -/
structure Replaced where
  store : Store
  success : Bool

def saveDoRequest (s : Store) (uid : UInt64) (fails : Nat → Bool) :
    Nat → List PBDBData → Replaced
  | _, [] => ⟨s, true⟩
  | i, d :: ds =>
    if fails i then ⟨s, false⟩
    else
      saveDoRequest (replaceRow s (tableOf uid) (saveKey uid d) ⟨d.bytes, d.version⟩) uid fails
        (i + 1) ds

def cacheVersion (s : Store) (k : UInt64) (v : UInt32) : Store :=
  { s with cache := Function.update s.cache k (some v.toInt32) }

def saveToCache (s : Store) (uid : UInt64) : List PBDBData → Store
  | [] => s
  | d :: ds => saveToCache (cacheVersion s (saveKey uid d) d.version) uid ds

structure Handled where
  store : Store
  response : Response

/-- `UserDataSaveHandle::Handle`. When the refetch behind a conflict fails, the result is still the
conflict, without data. -/
def handleSave (s : Store) (r : SaveRequest) (f : SqlFailures) : Handled :=
  match checkVersion s r.uid f.check 0 r.datas with
  | .ok =>
    let o := saveDoRequest s r.uid f.replace 0 r.datas
    if o.success then ⟨saveToCache o.store r.uid r.datas, .ok, r.uid, []⟩
    else ⟨o.store, .error, r.uid, []⟩
  | .verDiffer =>
    ⟨s, .verDiffer, r.uid, (getDoRequest s (tableOf r.uid) r.uid r.datas f.refetch).getD []⟩
  | .error => ⟨s, .error, r.uid, []⟩

end DbProxy
