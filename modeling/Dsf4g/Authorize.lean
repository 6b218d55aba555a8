import Dsf4g.Hash
import Dsf4g.Lib.Quoted

/-!
# What `OnAuthorization` asks the database

`src/authsvr/db_mng.cpp`. The account of a client is printed between quotes as it is, into a buffer of
512 bytes, and what the server reads there decides who gets a token. The server is a parameter, with
what its manual says of the statements that are meant.
-/
namespace AuthSvr

open Quoted

/-! ## The statements -/

def ascii (s : String) : List UInt8 := s.toList.map fun c => UInt8.ofNat c.toNat

def decimal (n : Nat) : List UInt8 := (Nat.toDigits 10 n).map fun c => UInt8.ofNat c.toNat

def sqlSize : Nat := 512

/-- `snprintf` into `_sql`, which leaves a byte for the zero behind the text. -/
def snprintf (text : List UInt8) : List UInt8 := text.take (sqlSize - 1)

def selectHead (index type : UInt32) : List UInt8 :=
  ascii "select uid, password from account_" ++ decimal index.toNat ++
    ascii " where account_type = " ++ decimal type.toNat ++ ascii " and account_name = "

def insertHead (index type : UInt32) : List UInt8 :=
  ascii "insert into account_" ++ decimal index.toNat ++
    ascii " (account_type, account_name, uid) values (" ++ decimal type.toNat ++ ascii ", "

def insertTail (uid : UInt64) : List UInt8 := ascii ", " ++ decimal uid.toNat ++ ascii ")"

def selectSql (index type : UInt32) (account : List UInt8) : List UInt8 :=
  snprintf (around (selectHead index type) (cString account) [])

def insertSql (index type : UInt32) (account : List UInt8) (uid : UInt64) : List UInt8 :=
  snprintf (around (insertHead index type) (cString account) (insertTail uid))

def updateSql (old : UInt64) : List UInt8 :=
  snprintf (ascii "update uid_index set uid = " ++ decimal (old + 1).toNat ++
    ascii " where uid = " ++ decimal old.toNat)

/-- The statements that are meant, with the account as their literal. -/
def selectMeant (index type : UInt32) (account : List UInt8) : List Piece :=
  meant (selectHead index type) account []

def insertMeant (index type : UInt32) (account : List UInt8) (uid : UInt64) : List Piece :=
  meant (insertHead index type) account (insertTail uid)

/-! ## The server -/

structure AccountRow where
  type : UInt32
  name : List UInt8
  uid : UInt64
  deriving DecidableEq

/-- A database server in a state of type `δ`: the rows of `account_<n>`, how names compare, what the
column `account_name` keeps of a value, and what a statement does. -/
structure Mysql (δ : Type) where
  rows : δ → UInt32 → List AccountRow
  same : List UInt8 → List UInt8 → Bool
  keep : List UInt8 → Option (List UInt8)
  exec : δ → List UInt8 → δ × Option (List UInt64)

variable {δ : Type}

def Mysql.matching (m : Mysql δ) (d : δ) (index type : UInt32) (name : List UInt8) :
    List AccountRow :=
  (m.rows d index).filter fun r => r.type = type ∧ m.same r.name name = true

/-- What the manual says: a name equals itself, the primary key is unique, and what the statements do
that `OnAuthorization` means. -/
structure Mysql.Documented (m : Mysql δ) (d : δ) (index type : UInt32) (account : List UInt8)
    (uid : UInt64) : Prop where
  refl : ∀ n, m.same n n = true
  key : ∀ r ∈ m.rows d index, ∀ s ∈ m.rows d index, r.type = s.type → m.same r.name s.name = true →
    r = s
  select : ∀ d sql, read sql = some (selectMeant index type account) →
    m.exec d sql = (d, some ((m.matching d index type account).map AccountRow.uid))
  update : ∀ d, (m.exec d (updateSql uid)).2 = some [] ∧
    m.rows (m.exec d (updateSql uid)).1 = m.rows d
  refused : ∀ d sql, read sql = some (insertMeant index type account (uid + 1)) →
    ((m.exec d sql).2 = none ↔ ∀ n ∈ m.keep account, m.matching d index type n ≠ [])
  insert : ∀ d sql, read sql = some (insertMeant index type account (uid + 1)) →
    (m.exec d sql).2 ≠ none → ∃ n ∈ m.keep account,
      m.rows (m.exec d sql).1 index = m.rows d index ++ [⟨type, n, uid + 1⟩]

/-! ## `OnAuthorization` -/

inductive AuthResult where
  | accountNotFound | sysErr
  | token (uid : UInt64)
  /-- The process has ended, with an exception that nothing catches or reading behind the account. -/
  | ended
  deriving DecidableEq, Repr

/-- Which of the calls of a request fail for a reason of their own. -/
structure Failures where
  select : Bool
  update : Bool
  insert : Bool
  encrypt : Bool

structure Authorized (δ : Type) where
  db : δ
  uidIndex : UInt64
  result : AuthResult

/-- `Query`, with the first column of the rows. The connection of `DBManager` throws when it or a
statement fails, so that `Query` never returns `false`. -/
def query (m : Mysql δ) (d : δ) (sql : List UInt8) (fails : Bool) : δ × Option (List UInt64) :=
  if fails then (d, none) else m.exec d sql

def issue (d : δ) (uidIndex uid : UInt64) (fails : Bool) : Authorized δ :=
  ⟨d, uidIndex, if fails then .sysErr else .token uid⟩

/-- The memory of an account, which ends with a zero. -/
def accountMemory (account : List UInt8) : Nat → UInt8 := Memory.write (fun _ => 0) 0 account

/-- What `GetHash` does with an account. -/
def accountHash (account : List UInt8) : Hashed :=
  hashedOf (accountMemory account) (UInt32.ofNat account.length)

/-- The number in the name of an account's table, when `GetHash` stays with the account and its
zero. -/
def accountTable (account : List UInt8) : Option UInt32 :=
  if ∀ a ∈ (accountHash account).reads, a ≤ account.length then
    some ((accountHash account).hash % 512)
  else none

def register (m : Mysql δ) (d : δ) (uidIndex : UInt64) (index type : UInt32)
    (account : List UInt8) (f : Failures) : Authorized δ :=
  match query m d (updateSql uidIndex) f.update with
  | (d, none) => ⟨d, uidIndex, .ended⟩
  | (d, some _) =>
    match query m d (insertSql index type account (uidIndex + 1)) f.insert with
    | (d, none) => ⟨d, uidIndex + 1, .ended⟩
    | (d, some _) => issue d (uidIndex + 1) (uidIndex + 1) f.encrypt

def onAuthorization (m : Mysql δ) (d : δ) (uidIndex : UInt64) (type : UInt32)
    (account : List UInt8) (f : Failures) : Authorized δ :=
  match accountTable account with
  | none => ⟨d, uidIndex, .ended⟩
  | some index =>
    match query m d (selectSql index type account) f.select with
    | (d, none) => ⟨d, uidIndex, .ended⟩
    | (d, some (uid :: _)) => issue d uidIndex uid f.encrypt
    | (d, some []) =>
      if type = guest then register m d uidIndex index type account f
      else ⟨d, uidIndex, .accountNotFound⟩

/-! ## What was asked -/

/-- The account is a guest without a row, for whom the `insert` is built. -/
def Registers (m : Mysql δ) (d : δ) (index type : UInt32) (account : List UInt8) : Prop :=
  type = guest ∧ m.matching d index type account = []

/-- The statements are the intended ones about the account, and a token is given only for what the
table holds of the very account, or for the row this call put there. -/
structure SaysAsked (m : Mysql δ) (d : δ) (uidIndex : UInt64) (type : UInt32)
    (account : List UInt8) : Prop where
  select : ∃ index ∈ accountTable account,
    read (selectSql index type account) = some (selectMeant index type account)
  insert : ∀ index ∈ accountTable account, Registers m d index type account →
    read (insertSql index type account (uidIndex + 1)) =
      some (insertMeant index type account (uidIndex + 1))
  token : ∀ index ∈ accountTable account, ∀ f u,
    (onAuthorization m d uidIndex type account f).result = .token u →
      ⟨type, account, u⟩ ∈ m.rows d index ∨
        m.rows (onAuthorization m d uidIndex type account f).db index =
          m.rows d index ++ [⟨type, account, u⟩]

/-- The account is read as itself and ends with its own last byte, the statements fit, and the table
takes neither another name for it nor the name for another. -/
structure Askable (m : Mysql δ) (d : δ) (index : UInt32) (uidIndex : UInt64) (type : UInt32)
    (account : List UInt8) : Prop where
  nonempty : account ≠ []
  verbatim : Verbatim account
  terminated : (0 : UInt8) ∉ account
  selectFits : (around (selectHead index type) account []).length < sqlSize
  insertFits : Registers m d index type account →
    (around (insertHead index type) account (insertTail (uidIndex + 1))).length < sqlSize
  found : ∀ r ∈ m.matching d index type account, r.name = account
  kept : Registers m d index type account →
    ∀ n ∈ m.keep account, m.matching d index type n = [] → n = account

/-! ## The table -/

/-- `GetHash` stays inside an account that is not empty. -/
theorem accountTable_eq {account : List UInt8} (h : account ≠ []) :
    accountTable account = some ((accountHash account).hash % 512) := by
  refine if_pos fun a ha => ?_
  have hlt := (mem_reads _ _ a).mp ha
  rw [scanned] at hlt
  have hmod : (UInt32.ofNat account.length).toNat = account.length % 2 ^ 32 := UInt32.toNat_ofNat'
  have hpos := List.length_pos_of_ne_nil h
  rw [hmod] at hlt
  split at hlt <;> omega

/-- `GetHash` leaves an account that is empty. -/
theorem accountTable_nil : accountTable [] = none := by
  refine if_neg fun h => ?_
  have hone := h 1 ((mem_reads _ _ 1).mpr (by rw [scanned]; decide))
  exact absurd hone (by decide)

theorem quote_not_mem_decimal (n : Nat) : quote ∉ decimal n := by
  intro h
  obtain ⟨c, hc, he⟩ := List.mem_map.mp h
  have hdigit := Nat.isDigit_of_mem_toDigits (by decide) (by decide) hc
  rw [Char.isDigit, Bool.and_eq_true, decide_eq_true_eq, decide_eq_true_eq] at hdigit
  have hlow : 48 ≤ c.toNat := hdigit.1
  have hhigh : c.toNat ≤ 57 := hdigit.2
  have hnat := congrArg UInt8.toNat he
  rw [UInt8.toNat_ofNat_of_lt' (by show c.toNat < 256; omega)] at hnat
  have hquote : quote.toNat = 39 := rfl
  omega

theorem quote_not_mem_selectHead (index type : UInt32) : quote ∉ selectHead index type := by
  simp only [selectHead, List.mem_append, not_or]
  exact ⟨⟨⟨⟨by decide +kernel, quote_not_mem_decimal _⟩, by decide +kernel⟩,
    quote_not_mem_decimal _⟩, by decide +kernel⟩

theorem quote_not_mem_insertHead (index type : UInt32) : quote ∉ insertHead index type := by
  simp only [insertHead, List.mem_append, not_or]
  exact ⟨⟨⟨⟨by decide +kernel, quote_not_mem_decimal _⟩, by decide +kernel⟩,
    quote_not_mem_decimal _⟩, by decide +kernel⟩

theorem quote_not_mem_insertTail (uid : UInt64) : quote ∉ insertTail uid := by
  simp only [insertTail, List.mem_append, not_or]
  exact ⟨⟨by decide +kernel, quote_not_mem_decimal _⟩, by decide +kernel⟩

/-- The `select` is read as it is meant exactly when the account is, and the text fits into
`_sql`. -/
theorem read_selectSql_iff (index type : UInt32) (account : List UInt8) :
    read (selectSql index type account) = some (selectMeant index type account) ↔
      Verbatim account ∧ (0 : UInt8) ∉ account ∧
        (around (selectHead index type) account []).length < sqlSize := by
  have h := read_cut_iff (quote_not_mem_selectHead index type) (List.not_mem_nil (a := quote)) account
    (sqlSize - 1)
  exact h.trans (and_congr_right fun _ => and_congr_right fun _ => Nat.le_sub_one_iff_lt (by decide))

/-- The same for the `insert`. -/
theorem read_insertSql_iff (index type : UInt32) (account : List UInt8) (uid : UInt64) :
    read (insertSql index type account uid) = some (insertMeant index type account uid) ↔
      Verbatim account ∧ (0 : UInt8) ∉ account ∧
        (around (insertHead index type) account (insertTail uid)).length < sqlSize := by
  have h := read_cut_iff (quote_not_mem_insertHead index type) (quote_not_mem_insertTail uid) account
    (sqlSize - 1)
  exact h.trans (and_congr_right fun _ => and_congr_right fun _ => Nat.le_sub_one_iff_lt (by decide))

section Call

variable {m : Mysql δ} {d : δ} {uidIndex : UInt64} {index type : UInt32}
  {account : List UInt8}

theorem mem_matching {name : List UInt8} {r : AccountRow} :
    r ∈ m.matching d index type name ↔
      r ∈ m.rows d index ∧ r.type = type ∧ m.same r.name name = true := by
  simp only [Mysql.matching, List.mem_filter, decide_eq_true_eq]

theorem matching_congr {d' : δ} (h : m.rows d' = m.rows d) (name : List UInt8) :
    m.matching d' index type name = m.matching d index type name := by
  rw [Mysql.matching, h, Mysql.matching]

/-- A new row of a name comes behind the rows that the name has. -/
theorem matching_append {d' : δ} (hdoc : m.Documented d index type account uidIndex)
    {name : List UInt8} {uid : UInt64}
    (h : m.rows d' index = m.rows d index ++ [⟨type, name, uid⟩]) :
    m.matching d' index type name = m.matching d index type name ++ [⟨type, name, uid⟩] := by
  rw [Mysql.matching, h, List.filter_append, Mysql.matching]
  simp [hdoc.refl]

/-- A token is made for the uid it is asked for. -/
theorem issue_token {d : δ} {uid u : UInt64} {fails : Bool}
    (h : (issue d uidIndex uid fails).result = .token u) : uid = u := by
  cases fails with
  | true => cases h
  | false => cases h; rfl

/-- The server after the `update` of a registration. -/
theorem registered_db (hdoc : m.Documented d index type account uidIndex) :
    ∃ d₁, m.exec d (updateSql uidIndex) = (d₁, some []) ∧ m.rows d₁ = m.rows d := by
  obtain ⟨hres, hrows⟩ := hdoc.update d
  exact ⟨(m.exec d (updateSql uidIndex)).1, Prod.ext rfl hres, hrows⟩

/-- A guest is registered under the next uid, with a row of the name that the column keeps. -/
theorem register_token (hdoc : m.Documented d index type account uidIndex)
    (hread : read (insertSql index type account (uidIndex + 1)) =
      some (insertMeant index type account (uidIndex + 1))) {f : Failures} {u : UInt64}
    (h : (register m d uidIndex index type account f).result = .token u) :
    ∃ n ∈ m.keep account, m.matching d index type n = [] ∧
      m.rows (register m d uidIndex index type account f).db index =
        m.rows d index ++ [⟨type, n, u⟩] := by
  obtain ⟨d₁, hupdate, hrows⟩ := registered_db hdoc
  have hrefused := hdoc.refused d₁ _ hread
  have hinsert := hdoc.insert d₁ _ hread
  simp only [register, query] at h ⊢
  cases hf : f.update with
  | true =>
    simp only [hf, if_true] at h
    cases h
  | false =>
    simp only [hf, Bool.false_eq_true, if_false, hupdate] at h ⊢
    cases hf : f.insert with
    | true =>
      simp only [hf, if_true] at h
      cases h
    | false =>
      simp only [hf, Bool.false_eq_true, if_false] at h ⊢
      obtain ⟨⟨d₂, res⟩, hexec⟩ :
          ∃ r, m.exec d₁ (insertSql index type account (uidIndex + 1)) = r := ⟨_, rfl⟩
      rw [hexec] at hrefused hinsert
      simp only [hexec] at h ⊢
      cases res with
      | none => cases h
      | some uids =>
        have hu := issue_token h
        have hne : some uids ≠ none := Option.some_ne_none _
        obtain ⟨n, hn, hafter⟩ := hinsert hne
        have hfree : ¬ ∀ n ∈ m.keep account, m.matching d₁ index type n ≠ [] := mt hrefused.mpr hne
        refine ⟨n, hn, ?_, ?_⟩
        · by_contra hbusy
          refine hfree fun n' hn' => ?_
          rw [matching_congr hrows]
          cases Option.mem_unique hn hn'
          exact hbusy
        · rw [← hu, ← hrows]
          exact hafter

/-- A guest whose name the column takes is registered, unless a statement fails. -/
theorem register_free (hdoc : m.Documented d index type account uidIndex)
    (hread : read (insertSql index type account (uidIndex + 1)) =
      some (insertMeant index type account (uidIndex + 1))) {n : List UInt8}
    (hn : n ∈ m.keep account) (hfree : m.matching d index type n = []) (f : Failures) :
    ∃ d₁ d₂, m.rows d₁ = m.rows d ∧
      m.rows d₂ index = m.rows d index ++ [⟨type, n, uidIndex + 1⟩] ∧
      register m d uidIndex index type account f =
        if f.update then ⟨d, uidIndex, .ended⟩
        else if f.insert then ⟨d₁, uidIndex + 1, .ended⟩
        else issue d₂ (uidIndex + 1) (uidIndex + 1) f.encrypt := by
  obtain ⟨d₁, hupdate, hsame⟩ := registered_db hdoc
  obtain ⟨⟨d₂, res⟩, hres⟩ : ∃ r, m.exec d₁ (insertSql index type account (uidIndex + 1)) = r :=
    ⟨_, rfl⟩
  have haccepted : (m.exec d₁ (insertSql index type account (uidIndex + 1))).2 ≠ none := by
    intro hnone
    have hbusy := (hdoc.refused d₁ _ hread).mp hnone n hn
    rw [matching_congr hsame] at hbusy
    exact hbusy hfree
  obtain ⟨n', hn', hafter⟩ := hdoc.insert d₁ _ hread haccepted
  cases Option.mem_unique hn hn'
  rw [hres] at haccepted hafter
  refine ⟨d₁, d₂, hsame, hsame ▸ hafter, ?_⟩
  obtain ⟨uids, rfl⟩ := Option.ne_none_iff_exists'.mp haccepted
  cases hu : f.update with
  | true => simp only [register, query, hu, if_true]
  | false =>
    cases hi : f.insert with
    | true => simp only [register, query, hu, hi, Bool.false_eq_true, if_false, hupdate, if_true]
    | false => simp only [register, query, hu, hi, Bool.false_eq_true, if_false, hupdate, hres]

/-- When the `select` asks for the account, the call goes on with the rows of its key. -/
theorem onAuthorization_selected (htable : accountTable account = some index)
    (hdoc : m.Documented d index type account uidIndex)
    (hselect : read (selectSql index type account) = some (selectMeant index type account))
    (f : Failures) :
    onAuthorization m d uidIndex type account f =
      if f.select then ⟨d, uidIndex, .ended⟩
      else
        match m.matching d index type account with
        | r :: _ => issue d uidIndex r.uid f.encrypt
        | [] =>
          if type = guest then register m d uidIndex index type account f
          else ⟨d, uidIndex, .accountNotFound⟩ := by
  have hexec := hdoc.select d _ hselect
  cases hf : f.select with
  | true => simp only [onAuthorization, htable, query, hf, if_true]
  | false =>
    simp only [onAuthorization, htable, query, hf, Bool.false_eq_true, if_false, hexec]
    cases m.matching d index type account with
    | nil => rfl
    | cons r rs => rfl

/-- The uid of a token is that of a row with the key, or the call registered it. -/
theorem token_cases (htable : accountTable account = some index)
    (hdoc : m.Documented d index type account uidIndex)
    (hselect : read (selectSql index type account) = some (selectMeant index type account))
    {f : Failures} {u : UInt64}
    (h : (onAuthorization m d uidIndex type account f).result = .token u) :
    (∃ r ∈ m.matching d index type account, r.uid = u) ∨
      (Registers m d index type account ∧
        onAuthorization m d uidIndex type account f =
          register m d uidIndex index type account f) := by
  rw [onAuthorization_selected htable hdoc hselect] at h ⊢
  cases hf : f.select with
  | true =>
    rw [hf, if_pos rfl] at h
    cases h
  | false =>
    rw [hf, if_neg Bool.false_ne_true] at h
    rw [if_neg Bool.false_ne_true]
    cases hrows : m.matching d index type account with
    | nil =>
      rw [hrows] at h
      dsimp only at h ⊢
      split at h
      · next hguest =>
        rw [if_pos hguest]
        exact .inr ⟨⟨hguest, hrows⟩, rfl⟩
      · cases h
    | cons r rs =>
      rw [hrows] at h
      exact .inl ⟨r, List.mem_cons_self .., issue_token h⟩

def noFailures : Failures := ⟨false, false, false, false⟩

/-- With a row of the key the token is for the first of them, and the database stays as it is. -/
theorem authorized_found (htable : accountTable account = some index)
    (hdoc : m.Documented d index type account uidIndex)
    (hselect : read (selectSql index type account) = some (selectMeant index type account))
    {r : AccountRow} {rs : List AccountRow} (hrows : m.matching d index type account = r :: rs) :
    onAuthorization m d uidIndex type account noFailures = ⟨d, uidIndex, .token r.uid⟩ := by
  rw [onAuthorization_selected htable hdoc hselect, hrows]
  rfl

/-- A new guest whose name the column takes is registered. -/
theorem authorized_new (htable : accountTable account = some index)
    (hdoc : m.Documented d index type account uidIndex)
    (hselect : read (selectSql index type account) = some (selectMeant index type account))
    (hinsert : read (insertSql index type account (uidIndex + 1)) =
      some (insertMeant index type account (uidIndex + 1)))
    (hnew : Registers m d index type account) {n : List UInt8} (hn : n ∈ m.keep account)
    (hfree : m.matching d index type n = []) :
    (onAuthorization m d uidIndex type account noFailures).result = .token (uidIndex + 1) ∧
      m.rows (onAuthorization m d uidIndex type account noFailures).db index =
        m.rows d index ++ [⟨type, n, uidIndex + 1⟩] := by
  obtain ⟨d₁, d₂, -, hafter, hregister⟩ := register_free hdoc hinsert hn hfree noFailures
  have hcall : onAuthorization m d uidIndex type account noFailures =
      ⟨d₂, uidIndex + 1, .token (uidIndex + 1)⟩ := by
    rw [onAuthorization_selected htable hdoc hselect, hnew.2]
    dsimp only
    rw [if_pos hnew.1, hregister]
    rfl
  rw [hcall]
  exact ⟨rfl, hafter⟩

/-- The condition is enough. -/
theorem Askable.saysAsked (htable : accountTable account = some index)
    (hdoc : m.Documented d index type account uidIndex)
    (h : Askable m d index uidIndex type account) : SaysAsked m d uidIndex type account := by
  have hselect := (read_selectSql_iff index type account).mpr
    ⟨h.verbatim, h.terminated, h.selectFits⟩
  have hinsert := fun hnew => (read_insertSql_iff index type account
    (uidIndex + 1)).mpr ⟨h.verbatim, h.terminated, h.insertFits hnew⟩
  have hindex : ∀ i ∈ accountTable account, i = index := by
    rw [htable]
    rintro i ⟨⟩
    rfl
  refine ⟨⟨index, htable, hselect⟩, fun i hi hnew => ?_, fun i hi f u htoken => ?_⟩
  · obtain rfl := hindex i hi
    exact hinsert hnew
  obtain rfl := hindex i hi
  obtain ⟨r, hr, rfl⟩ | ⟨hnew, hcall⟩ := token_cases htable hdoc hselect htoken
  · obtain ⟨hmem, htype, -⟩ := mem_matching.mp hr
    have hrow : r = ⟨type, account, r.uid⟩ := by
      rw [← htype, ← h.found r hr]
    exact .inl (hrow ▸ hmem)
  · rw [hcall] at htoken ⊢
    obtain ⟨n, hn, hfree, hafter⟩ := register_token hdoc (hinsert hnew) htoken
    rw [h.kept hnew n hn hfree] at hafter
    exact .inr hafter

/-- The condition is needed: each of its parts is read off a statement or off the answer. -/
theorem SaysAsked.askable (hne : account ≠ []) (htable : accountTable account = some index)
    (hdoc : m.Documented d index type account uidIndex)
    (h : SaysAsked m d uidIndex type account) : Askable m d index uidIndex type account := by
  have hselect : read (selectSql index type account) = some (selectMeant index type account) := by
    obtain ⟨i, hi, hselect⟩ := h.select
    rw [htable] at hi
    cases hi
    exact hselect
  have hinsert := h.insert index htable
  obtain ⟨hverbatim, hzero, hselectFits⟩ := (read_selectSql_iff ..).mp hselect
  refine ⟨hne, hverbatim, hzero, hselectFits,
    fun hnew => ((read_insertSql_iff ..).mp (hinsert hnew)).2.2, fun r hr => ?_,
    fun hnew n hn hfree => ?_⟩
  · obtain ⟨first, rest, hrows⟩ := List.exists_cons_of_ne_nil (List.ne_nil_of_mem hr)
    have hcall := authorized_found htable hdoc hselect hrows
    have htoken := h.token index htable noFailures first.uid (by rw [hcall])
    rw [hcall] at htoken
    obtain hmem | hafter := htoken
    · obtain ⟨hin, htype, hsame⟩ := mem_matching.mp hr
      rw [hdoc.key r hin _ hmem htype hsame]
    · simp at hafter
  · obtain ⟨hresult, hafter⟩ := authorized_new htable hdoc hselect (hinsert hnew) hnew hn hfree
    obtain hmem | hown := h.token index htable noFailures _ hresult
    · have hmatch := mem_matching.mpr ⟨hmem, rfl, hdoc.refl account⟩
      rw [hnew.2] at hmatch
      cases hmatch
    · rw [hown] at hafter
      have hrow := List.append_cancel_left hafter
      injection hrow with hrow
      injection hrow with _ hname
      exact hname.symm

/-- A call asks what it was asked, and gives a token only for the very account, exactly when the
account is `Askable`. -/
theorem saysAsked_iff (m : Mysql δ) (d : δ) (uidIndex : UInt64) (type : UInt32)
    (account : List UInt8)
    (hdoc : m.Documented d ((accountHash account).hash % 512) type account uidIndex) :
    SaysAsked m d uidIndex type account ↔
      Askable m d ((accountHash account).hash % 512) uidIndex type account := by
  by_cases hne : account = []
  · subst hne
    refine iff_of_false (fun h => ?_) fun h => h.nonempty rfl
    obtain ⟨index, hindex, -⟩ := h.select
    rw [accountTable_nil] at hindex
    cases hindex
  · exact ⟨fun h => h.askable hne (accountTable_eq hne) hdoc,
      fun h => h.saysAsked (accountTable_eq hne) hdoc⟩

end Call

/-! ## A call as a run of its process -/

section Process

variable {m : Mysql δ} {d : δ} {uidIndex : UInt64} {a : Account} {w : World} {p : Nat}

/-- The rows that a key has in the server are those that it has in `db`. -/
def Shows (m : Mysql δ) (d : δ) (db : Db) (a : Account) : Prop :=
  m.matching d a.key.table a.type a.name.bytes =
    (db.accounts a.key).toList.map fun row => ⟨a.type, row.name.bytes, row.uid⟩

def Authorized.proc (o : Authorized δ) : Option DBManager :=
  if o.result = .ended then none else some ⟨o.uidIndex, .idle⟩

/-- A call and a run of its process end alike. -/
structure EndsAlike (m : Mysql δ) (a : Account) (p : Nat) (o : Authorized δ) (w' : World) :
    Prop where
  shows : Shows m o.db w'.db a
  proc : w'.procs p = o.proc
  token : ∀ u, o.result = .token u → ⟨a, u⟩ ∈ w'.given

/-- Some events of the processes lead from `w` to `w'`. -/
def Leads (w w' : World) : Prop :=
  ∃ es, Trace.Run (fun w e w' => next w e = some w') (fun _ _ => True) w es w'

theorem Leads.refl (w : World) : Leads w w := ⟨[], .nil w⟩

theorem Leads.step {w w' w'' : World} {e : Event} (hs : next w e = some w') (h : Leads w' w'') :
    Leads w w'' := by
  obtain ⟨es, hrun⟩ := h
  exact ⟨e :: es, .cons trivial hs hrun⟩

/-- A plain name has the table of its key. -/
theorem accountTable_account (a : Account) : accountTable a.name.bytes = some a.key.table := by
  have hpos := List.length_pos_of_ne_nil a.name.nonempty
  have hfirst : (accountMemory a.name.bytes 0).toNat < 128 := by
    obtain ⟨b, bs, hb⟩ := List.exists_cons_of_ne_nil a.name.nonempty
    have hplain := (a.name.plain b (by rw [hb]; exact List.mem_cons_self ..)).2.1
    rw [accountMemory, hb]
    exact Nat.lt_of_le_of_lt (UInt8.le_iff_toNat_le.mp hplain) (by decide)
  have hfits := a.name.fits
  have hhash := returns_getHash hpos (by omega) hfirst
    ((returns_iff (accountMemory a.name.bytes) _ _).mpr rfl)
  have hread : Memory.read (accountMemory a.name.bytes) 0 a.name.bytes.length = a.name.bytes :=
    Memory.read_write_same ..
  rw [hread] at hhash
  rw [accountTable_eq a.name.nonempty, accountHash, hhash]
  rfl

theorem verbatim_plain {bs : List UInt8} (h : ∀ b ∈ bs, PlainByte b) : Verbatim bs := by
  induction bs with
  | nil => exact .nil
  | cons b bs ih =>
    obtain ⟨-, -, hquote, hbackslash⟩ := h b (List.mem_cons_self ..)
    exact .byte hquote hbackslash (ih fun c hc => h c (List.mem_cons_of_mem _ hc))

/-- A number below `10 ^ k` has at most `k` digits. -/
theorem decimal_length {n k : Nat} (hk : 0 < k) (h : n < 10 ^ k) : (decimal n).length ≤ k := by
  rw [decimal, List.length_map]
  exact (Nat.length_toDigits_le_iff (by decide) hk).mpr h

/-- Both statements about a plain name are read as they are meant. -/
theorem plain_read (a : Account) (uid : UInt64) :
    read (selectSql a.key.table a.type a.name.bytes) =
        some (selectMeant a.key.table a.type a.name.bytes) ∧
      read (insertSql a.key.table a.type a.name.bytes uid) =
        some (insertMeant a.key.table a.type a.name.bytes uid) := by
  have hzero : (0 : UInt8) ∉ a.name.bytes := fun h => absurd (a.name.plain 0 h).1 (by decide)
  have hverbatim := verbatim_plain a.name.plain
  have hname := a.name.fits
  have htable := decimal_length (k := 10) (by decide) (Nat.lt_trans a.key.table.toNat_lt (by decide))
  have htype := decimal_length (k := 10) (by decide) (Nat.lt_trans a.type.toNat_lt (by decide))
  have huid := decimal_length (k := 20) (by decide) (Nat.lt_trans uid.toNat_lt (by decide))
  have hascii : ∀ s : String, (ascii s).length = s.toList.length := fun s => List.length_map ..
  refine ⟨(read_selectSql_iff ..).mpr ⟨hverbatim, hzero, ?_⟩,
    (read_insertSql_iff ..).mpr ⟨hverbatim, hzero, ?_⟩⟩
  · rw [around_length, selectHead]
    simp only [List.length_append]
    have htext : (ascii "select uid, password from account_").length +
        (ascii " where account_type = ").length + (ascii " and account_name = ").length < 100 := by
      decide
    have hsize : sqlSize = 512 := rfl
    rw [List.length_nil]
    omega
  · rw [around_length, insertHead, insertTail]
    simp only [List.length_append]
    have htext : (ascii "insert into account_").length +
        (ascii " (account_type, account_name, uid) values (").length + (ascii ", ").length +
        (ascii ", ").length + (ascii ")").length < 100 := by decide
    have hsize : sqlSize = 512 := rfl
    omega

/-- A call that comes to a uid is a process that gives it. -/
theorem give_endsAlike (hshows : Shows m d w.db a) (phase : Phase) (uid : UInt64) (fails : Bool) :
    EndsAlike m a p (issue d uidIndex uid fails) (w.give p ⟨uidIndex, phase⟩ a uid) := by
  refine ⟨hshows, ?_, fun u hu => ?_⟩
  · have hresult : (issue d uidIndex uid fails).result ≠ .ended := by
      cases fails <;> exact nofun
    rw [Authorized.proc, if_neg hresult]
    exact Function.update_self ..
  · rw [← issue_token hu]
    exact List.mem_append_right _ (List.mem_singleton_self _)

/-- A key without a row gets one from the `insert`. -/
theorem insert_new (hnone : w.db.accounts a.key = none) (uid : UInt64) (phase : Phase) :
    ∃ db, w.insert p ⟨uid, phase⟩ a false = (w.commit db).give p ⟨uid, phase⟩ a uid ∧
      db.accounts a.key = some ⟨a.name, uid⟩ := by
  simp only [World.insert, Db.insertAccount, hnone, Bool.false_eq_true, if_false]
  exact ⟨_, rfl, Function.update_self ..⟩

theorem next_update {uid : UInt64} (hproc : w.procs p = some ⟨uid, .update a⟩) (fails : Bool) :
    next w (.update p fails) = some (w.update p ⟨uid, .update a⟩ a fails) := by
  simp only [next, hproc]

theorem next_insert {uid : UInt64} (hproc : w.procs p = some ⟨uid, .insert a⟩) (fails : Bool) :
    next w (.insert p fails) = some (w.insert p ⟨uid, .insert a⟩ a fails) := by
  simp only [next, hproc]

/-- The `insert` of a call, behind an `update` that has not changed the rows. -/
theorem insert_runs {d' : δ} (hdoc : m.Documented d a.key.table a.type a.name.bytes uidIndex)
    {uid : UInt64} (hproc : w.procs p = some ⟨uid, .insert a⟩)
    (hnone : w.db.accounts a.key = none) (hfree : m.matching d a.key.table a.type a.name.bytes = [])
    (hafter : m.rows d' a.key.table = m.rows d a.key.table ++ [⟨a.type, a.name.bytes, uid⟩])
    (fails : Bool) :
    ∃ w', next w (.insert p false) = some w' ∧ EndsAlike m a p (issue d' uid uid fails) w' := by
  obtain ⟨db, hinsert, haccounts⟩ := insert_new (p := p) hnone uid (.insert a)
  refine ⟨_, (next_insert hproc false).trans (congrArg some hinsert),
    give_endsAlike (?_ : m.matching d' a.key.table a.type a.name.bytes = _) ..⟩
  rw [matching_append hdoc hafter, hfree]
  show _ = (db.accounts a.key).toList.map _
  rw [haccounts]
  rfl

/-- The `update` and the `insert` of a call. -/
theorem register_runs (hdoc : m.Documented d a.key.table a.type a.name.bytes uidIndex)
    (hkeep : m.keep a.name.bytes = some a.name.bytes)
    (hproc : w.procs p = some ⟨uidIndex, .update a⟩) (hnone : w.db.accounts a.key = none)
    (hshows : Shows m d w.db a) (f : Failures) :
    ∃ w', Leads w w' ∧
      EndsAlike m a p (register m d uidIndex a.key.table a.type a.name.bytes f) w' := by
  have hfree : m.matching d a.key.table a.type a.name.bytes = [] := by
    rw [hshows, hnone]
    rfl
  obtain ⟨d₁, d₂, hsame, hafter, hregister⟩ :=
    register_free hdoc (plain_read a (uidIndex + 1)).2 (n := a.name.bytes) hkeep hfree f
  rw [hregister]
  have hupdate := next_update hproc f.update
  cases hu : f.update with
  | true =>
    rw [hu] at hupdate
    refine ⟨w.ended p, Leads.step hupdate (Leads.refl _), hshows, Function.update_self .., ?_⟩
    exact fun u h => by cases h
  | false =>
    rw [hu] at hupdate
    have hproc' : (w.update p ⟨uidIndex, .update a⟩ a false).procs p =
        some ⟨uidIndex + 1, .insert a⟩ := Function.update_self ..
    cases hi : f.insert with
    | true =>
      refine ⟨_, Leads.step hupdate (Leads.step (next_insert hproc' true) (Leads.refl _)), ?_,
        Function.update_self .., fun u h => by cases h⟩
      exact (matching_congr hsame _).trans hshows
    | false =>
      obtain ⟨w', hinsert, hends⟩ := insert_runs hdoc hproc' hnone hfree hafter f.encrypt
      exact ⟨w', Leads.step hupdate (Leads.step hinsert (Leads.refl _)), hends⟩

/-- A call of `OnAuthorization` for a plain name does what a run of its process does. -/
theorem onAuthorization_runs (hdoc : m.Documented d a.key.table a.type a.name.bytes uidIndex)
    (hkeep : m.keep a.name.bytes = some a.name.bytes)
    (hproc : w.procs p = some ⟨uidIndex, .idle⟩) (hshows : Shows m d w.db a) (f : Failures) :
    ∃ w', Leads w w' ∧
      EndsAlike m a p (onAuthorization m d uidIndex a.type a.name.bytes f) w' := by
  rw [onAuthorization_selected (accountTable_account a) hdoc (plain_read a 0).1]
  have hrequest : next w (.request p a) = some (w.become p ⟨uidIndex, .select a⟩) := by
    simp only [next, hproc]
  have hselect : ∀ fails, next (w.become p ⟨uidIndex, .select a⟩) (.select p fails) =
      some ((w.become p ⟨uidIndex, .select a⟩).select p ⟨uidIndex, .select a⟩ a fails) := by
    intro fails
    have hproc' : (w.become p ⟨uidIndex, .select a⟩).procs p = some ⟨uidIndex, .select a⟩ :=
      Function.update_self ..
    simp only [next, hproc']
  cases hf : f.select with
  | true =>
    refine ⟨_, Leads.step hrequest (Leads.step (hselect true) (Leads.refl _)), hshows,
      Function.update_self .., fun u h => by cases h⟩
  | false =>
    rw [if_neg Bool.false_ne_true, hshows]
    have haccounts : (w.become p ⟨uidIndex, .select a⟩).db.accounts a.key = w.db.accounts a.key :=
      rfl
    have hfound := hselect false
    simp only [World.select, haccounts, Bool.false_eq_true, if_false] at hfound
    cases hrow : w.db.accounts a.key with
    | some row =>
      rw [hrow] at hfound
      exact ⟨_, Leads.step hrequest (Leads.step hfound (Leads.refl _)),
        give_endsAlike (w := w.become p ⟨uidIndex, .select a⟩) hshows ..⟩
    | none =>
      rw [hrow] at hfound
      dsimp only at hfound
      simp only [Option.toList_none, List.map_nil]
      by_cases hguest : a.type = guest
      · rw [if_pos hguest] at hfound ⊢
        obtain ⟨w', hleads, hends⟩ := register_runs
          (w := (w.become p ⟨uidIndex, .select a⟩).become p ⟨uidIndex, .update a⟩) hdoc hkeep
          (Function.update_self ..) hrow hshows f
        exact ⟨w', Leads.step hrequest (Leads.step hfound hleads), hends⟩
      · rw [if_neg hguest] at hfound ⊢
        exact ⟨_, Leads.step hrequest (Leads.step hfound (Leads.refl _)), hshows,
          Function.update_self .., fun u h => by cases h⟩

end Process

/-! ## A table with one guest -/

def bobName : List UInt8 := ascii "bob"

def bobTable : UInt32 := (accountHash bobName).hash % 512

def bobRow : AccountRow := ⟨guest, bobName, 7⟩

/-- An account in the same table, with quotes in its name. -/
def quotedName : List UInt8 := ascii "gab' or 'a'='a"

/-- What its `select` asks: the rows with a name, or any. -/
def quotedAsks : List Piece :=
  (selectHead bobTable guest).map .code ++ .literal (ascii "gab") :: (ascii " or ").map .code ++
    .literal (ascii "a") :: .code 0x3d :: [.literal (ascii "a")]

/-- A server with the one table of `bob`, which compares names byte by byte and keeps up to 64 of
them. -/
def bobServer : Mysql (List AccountRow) where
  rows d index := if index = bobTable then d else []
  same n n' := n = n'
  keep n := if n.length ≤ 64 then some n else none
  exec d sql :=
    if read sql = some (selectMeant bobTable guest bobName) then
      (d, some ((d.filter fun r => r.type = guest ∧ r.name = bobName).map AccountRow.uid))
    else if read sql = some (insertMeant bobTable guest bobName 101) then
      if (d.filter fun r => r.type = guest ∧ r.name = bobName) = [] then
        (d ++ [⟨guest, bobName, 101⟩], some [])
      else (d, none)
    else if read sql = some quotedAsks then (d, some (d.map AccountRow.uid))
    else (d, some [])

theorem bobServer_rows (d : List AccountRow) : bobServer.rows d bobTable = d := by
  simp only [bobServer, if_true]

theorem bobServer_matching (d : List AccountRow) : bobServer.matching d bobTable guest bobName =
    d.filter fun r => r.type = guest ∧ r.name = bobName := by
  simp only [Mysql.matching, bobServer_rows]
  simp only [bobServer, decide_eq_true_eq]

theorem bobServer_insert {sql : List UInt8}
    (h : read sql = some (insertMeant bobTable guest bobName (100 + 1))) (d : List AccountRow) :
    bobServer.exec d sql = if bobServer.matching d bobTable guest bobName = [] then
      (d ++ [⟨guest, bobName, 101⟩], some []) else (d, none) := by
  have hother : ¬ read sql = some (selectMeant bobTable guest bobName) := fun he => by
    rw [h] at he
    exact absurd he (by decide +kernel)
  rw [bobServer_matching]
  exact (if_neg hother).trans (if_pos h)

theorem bobServer_documented : bobServer.Documented [bobRow] bobTable guest bobName 100 := by
  have hkeep : bobServer.keep bobName = some bobName := by decide +kernel
  refine ⟨fun n => decide_eq_true rfl, fun r hr s hs _ _ => ?_, fun d sql h => ?_, fun d => ?_,
    fun d sql h => ?_, fun d sql h hok => ?_⟩
  · rw [bobServer_rows, List.mem_singleton] at hr hs
    rw [hr, hs]
  · rw [bobServer_matching]
    exact if_pos h
  · have hexec : bobServer.exec d (updateSql 100) = (d, some []) := by
      simp only [bobServer]
      rw [if_neg (by decide +kernel), if_neg (by decide +kernel), if_neg (by decide +kernel)]
    rw [hexec]
    exact ⟨rfl, rfl⟩
  · rw [bobServer_insert h, hkeep]
    by_cases hfree : bobServer.matching d bobTable guest bobName = []
    · rw [if_pos hfree]
      exact iff_of_false (Option.some_ne_none _) fun hbusy => hbusy bobName rfl hfree
    · rw [if_neg hfree]
      refine iff_of_true rfl fun n hn => ?_
      cases hn
      exact hfree
  · rw [bobServer_insert h] at hok ⊢
    by_cases hfree : bobServer.matching d bobTable guest bobName = []
    · rw [if_pos hfree, bobServer_rows, bobServer_rows]
      exact ⟨bobName, hkeep, rfl⟩
    · rw [if_neg hfree] at hok
      exact absurd rfl hok

/-- `bob` gets a token for his own uid. -/
theorem saysAsked_iff_bob :
    bobServer.Documented [bobRow] ((accountHash bobName).hash % 512) guest bobName 100 ∧
      SaysAsked bobServer [bobRow] 100 guest bobName := by
  refine ⟨bobServer_documented, (saysAsked_iff bobServer [bobRow] 100 guest bobName
    bobServer_documented).mpr ⟨?_, ?_, ?_, ?_, ?_, ?_, ?_⟩⟩
  · decide +kernel
  · exact .byte (by decide) (by decide) (.byte (by decide) (by decide)
      (.byte (by decide) (by decide) .nil))
  · decide +kernel
  · decide +kernel
  · exact fun _ => by decide +kernel
  · decide +kernel
  · exact fun hnew => absurd hnew.2 (by decide +kernel)

/-- The quotes in the name end the literal, and its owner gets a token for the uid of `bob`. -/
theorem quoted_account_gets_bobs_token :
    accountTable quotedName = some bobTable ∧
      read (selectSql bobTable guest quotedName) = some quotedAsks ∧
      (onAuthorization bobServer [bobRow] 100 guest quotedName noFailures).result = .token 7 ∧
      ¬ SaysAsked bobServer [bobRow] 100 guest quotedName := by
  have htable : accountTable quotedName = some bobTable := by decide +kernel
  have hread : read (selectSql bobTable guest quotedName) = some quotedAsks := by decide +kernel
  refine ⟨htable, hread, by decide +kernel, fun h => ?_⟩
  obtain ⟨index, hindex, hselect⟩ := h.select
  rw [htable] at hindex
  cases hindex
  rw [hread] at hselect
  exact absurd hselect (by decide +kernel)

end AuthSvr
