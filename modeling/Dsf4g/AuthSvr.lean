import Mathlib.Data.List.DropRight
import Mathlib.Logic.Function.Basic
import Dsf4g.Lib.Bytes
import Dsf4g.Lib.Trace

/-!
# Account ids

`src/authsvr/db_mng.cpp`, `include/hash.hpp` and `tools/db_script/create_account.sql`.
Any number of processes work on one database. A process reads the counter of
`uid_index` once, when it starts; for a new guest account it advances its own copy
and the counter, by an `update` that names the old value, and inserts the account
under the new one. A failed statement changes nothing in the database, and ends the
process with an exception that nothing catches.
-/
namespace AuthSvr

/-! ## Accounts -/

def hashWords : Nat → UInt32 → List UInt8 → UInt32
  | 0, index, _ => index
  | n + 1, index, bs =>
    hashWords n ((index * 0x3e11ef) ^^^ UInt32.ofNat (Bytes.ofLe (bs.take 4))) (bs.drop 4)

/-- `GetHash` of a name that is not empty; `char` is signed, but a plain name has no byte above
`0x7e`. -/
def getHash (str : List UInt8) : UInt32 :=
  let remain := if str.length % 4 = 0 then 4 else str.length % 4
  let len := (str.length - remain) / 4
  let index := (0xe6ee7103 : UInt32) ^^^ ((str.headD 0).toUInt32 <<< 7)
  let index := hashWords len index str
  let index := (str.drop (4 * len)).foldl (fun index b => (index * 0x3e11ef) ^^^ b.toUInt32) index
  (index ^^^ UInt32.ofNat str.length) ^^^ 0x1a8fed1f

/-- A byte that stands for itself between quotes in a statement. -/
def PlainByte (b : UInt8) : Prop := 0x20 ≤ b ∧ b ≤ 0x7e ∧ b ≠ 0x27 ∧ b ≠ 0x5c

instance (b : UInt8) : Decidable (PlainByte b) := inferInstanceAs (Decidable (_ ∧ _))

/-- A name that a statement carries unchanged and that fits into the column. -/
structure AccountName where
  bytes : List UInt8
  nonempty : bytes ≠ []
  fits : bytes.length ≤ 64
  plain : ∀ b ∈ bytes, PlainByte b
  deriving DecidableEq

structure Account where
  type : UInt32
  name : AccountName
  deriving DecidableEq

def guest : UInt32 := 0

/-- What the collation of the tables, `utf8_general_ci`, compares: letters without their case, and
no spaces at the end. -/
def collate (name : List UInt8) : List UInt8 :=
  (name.map fun b => if 0x61 ≤ b ∧ b ≤ 0x7a then b - 0x20 else b).rdropWhile fun b => b == 0x20

/-- The table of an account and its primary key there. -/
structure Key where
  table : UInt32
  type : UInt32
  name : List UInt8
  deriving DecidableEq

def Account.key (a : Account) : Key := ⟨getHash a.name.bytes % 512, a.type, collate a.name.bytes⟩

/-! ## The database -/

structure Row where
  name : AccountName
  uid : UInt64

structure Db where
  uidIndex : List UInt64
  accounts : Key → Option Row

/-- `update uid_index set uid = new where uid = old`. It succeeds when no row has the old value,
too. -/
def Db.updateUidIndex (db : Db) (old new : UInt64) : Db :=
  { db with uidIndex := db.uidIndex.map fun uid => if uid = old then new else uid }

/-- `insert into account_<n>`, refused when the primary key is taken. -/
def Db.insertAccount (db : Db) (a : Account) (uid : UInt64) : Option Db :=
  match db.accounts a.key with
  | some _ => none
  | none => some { db with accounts := Function.update db.accounts a.key (some ⟨a.name, uid⟩) }

/-! ## The processes -/

/-- The statement of `OnAuthorization` that a process sends next. -/
inductive Phase where
  | idle
  | select (a : Account)
  | update (a : Account)
  | insert (a : Account)

structure DBManager where
  uidIndex : UInt64
  phase : Phase

structure Given where
  account : Account
  uid : UInt64
  deriving DecidableEq

structure World where
  db : Db
  procs : Nat → Option DBManager
  given : List Given

inductive Event where
  /-- A process starts, or starts again. -/
  | start (p : Nat) (fails : Bool)
  | crash (p : Nat)
  | request (p : Nat) (a : Account)
  | select (p : Nat) (fails : Bool)
  | update (p : Nat) (fails : Bool)
  | insert (p : Nat) (fails : Bool)

def Db.init (db : Db) (fails : Bool) : Option DBManager :=
  match fails, db.uidIndex with
  | false, [uid] => some ⟨uid, .idle⟩
  | _, _ => none

def World.commit (w : World) (db : Db) : World := { w with db := db }

def World.become (w : World) (p : Nat) (m : DBManager) : World :=
  { w with procs := Function.update w.procs p (some m) }

def World.ended (w : World) (p : Nat) : World :=
  { w with procs := Function.update w.procs p none }

def World.give (w : World) (p : Nat) (m : DBManager) (a : Account) (uid : UInt64) : World :=
  { w with
    procs := Function.update w.procs p (some { m with phase := .idle })
    given := w.given ++ [⟨a, uid⟩] }

def World.select (w : World) (p : Nat) (m : DBManager) (a : Account) (fails : Bool) : World :=
  if fails then w.ended p
  else
    match w.db.accounts a.key with
    | some row => w.give p m a row.uid
    | none =>
      if a.type = guest then w.become p { m with phase := .update a }
      else w.become p { m with phase := .idle }

def World.update (w : World) (p : Nat) (m : DBManager) (a : Account) (fails : Bool) : World :=
  if fails then w.ended p
  else
    (w.commit (w.db.updateUidIndex m.uidIndex (m.uidIndex + 1))).become p
      ⟨m.uidIndex + 1, .insert a⟩

def World.insert (w : World) (p : Nat) (m : DBManager) (a : Account) (fails : Bool) : World :=
  if fails then w.ended p
  else
    match w.db.insertAccount a m.uidIndex with
    | none => w.ended p
    | some db => (w.commit db).give p m a m.uidIndex

def next (w : World) : Event → Option World
  | .start p fails => some { w with procs := Function.update w.procs p (w.db.init fails) }
  | .crash p => some (w.ended p)
  | .request p a =>
    match w.procs p with
    | some ⟨uid, .idle⟩ => some (w.become p ⟨uid, .select a⟩)
    | _ => none
  | .select p fails =>
    match w.procs p with
    | some ⟨uid, .select a⟩ => some (w.select p ⟨uid, .select a⟩ a fails)
    | _ => none
  | .update p fails =>
    match w.procs p with
    | some ⟨uid, .update a⟩ => some (w.update p ⟨uid, .update a⟩ a fails)
    | _ => none
  | .insert p fails =>
    match w.procs p with
    | some ⟨uid, .insert a⟩ => some (w.insert p ⟨uid, .insert a⟩ a fails)
    | _ => none

/-- The database as the scripts create it, before any process runs. -/
def initial (uid : UInt64) : World := ⟨⟨[uid], fun _ => none⟩, fun _ => none, []⟩

/-! ## Unique ids -/

/-- Two answers are for one account exactly when they carry one uid. -/
def Unique (given : List Given) : Prop :=
  ∀ x ∈ given, ∀ y ∈ given, x.account = y.account ↔ x.uid = y.uid

/-- The row a `select` finds is that of the very name it asks for. -/
def FindsOwn (db : Db) : Option DBManager → Prop
  | some ⟨_, .select a⟩ => ∀ row ∈ db.accounts a.key, row.name = a.name
  | _ => True

/-- An `update` finds the counter where the process last saw it, and the counter is not at its
end. -/
def CounterCurrent (db : Db) : Option DBManager → Prop
  | some ⟨uid, .update _⟩ => db.uidIndex = [uid] ∧ uid + 1 ≠ 0
  | _ => True

/-- The condition under which ids stay unique. A statement that fails is under no condition. -/
def Orderly (w : World) : Event → Prop
  | .select p fails => fails = true ∨ FindsOwn w.db (w.procs p)
  | .update p fails => fails = true ∨ CounterCurrent w.db (w.procs p)
  | _ => True

/-- The counter is `x`. Accounts have different uids up to it, and a process about to insert one has
a uid of its own. -/
structure Inv (x : UInt64) (w : World) : Prop where
  counter : w.db.uidIndex = [x]
  below : ∀ k row, w.db.accounts k = some row → row.uid ≤ x
  distinct : ∀ k k' row row', w.db.accounts k = some row → w.db.accounts k' = some row' →
    row.uid = row'.uid → k = k'
  seen : ∀ p m, w.procs p = some m → m.uidIndex ≤ x
  owned : ∀ p uid a, w.procs p = some ⟨uid, .insert a⟩ →
    (∀ k row, w.db.accounts k = some row → row.uid ≠ uid) ∧
      ∀ q b, w.procs q = some ⟨uid, .insert b⟩ → q = p
  given : ∀ g ∈ w.given, ∃ row, w.db.accounts g.account.key = some row ∧
    row.name = g.account.name ∧ row.uid = g.uid

theorem Inv.unique {x : UInt64} {w : World} (h : Inv x w) : Unique w.given := by
  intro g hg g' hg'
  obtain ⟨row, hrow, hname, huid⟩ := h.given g hg
  obtain ⟨row', hrow', hname', huid'⟩ := h.given g' hg'
  constructor
  · intro he
    rw [he, hrow'] at hrow
    cases hrow
    rw [← huid, ← huid']
  · intro he
    have hkey := h.distinct _ _ row row' hrow hrow' (by rw [huid, huid', he])
    rw [hkey, hrow'] at hrow
    cases hrow
    have htype : g.account.type = g'.account.type := congrArg Key.type hkey
    have hnames : g.account.name = g'.account.name := hname.symm.trans hname'
    cases hga : g.account
    cases hga' : g'.account
    rw [hga, hga'] at htype hnames
    exact Account.mk.injEq .. ▸ ⟨htype, hnames⟩

section Steps

variable {x : UInt64} {w : World}

/-- A process starts, stops, or waits for anything but its `insert`. -/
theorem Inv.setProc (h : Inv x w) (p : Nat) {o : Option DBManager}
    (hle : ∀ m, o = some m → m.uidIndex ≤ x) (hphase : ∀ m a, o = some m → m.phase ≠ .insert a) :
    Inv x { w with procs := Function.update w.procs p o } := by
  have hold : ∀ q uid a, Function.update w.procs p o q = some ⟨uid, .insert a⟩ →
      w.procs q = some ⟨uid, .insert a⟩ := by
    intro q uid a hq
    by_cases he : q = p
    · subst he
      rw [Function.update_self] at hq
      exact absurd rfl (hphase _ a hq)
    · rwa [Function.update_of_ne he] at hq
  refine ⟨h.counter, h.below, h.distinct, fun q m hq => ?_, fun q uid a hq => ?_, h.given⟩
  · dsimp only at hq
    by_cases he : q = p
    · subst he
      rw [Function.update_self] at hq
      exact hle m hq
    · rw [Function.update_of_ne he] at hq
      exact h.seen q m hq
  · obtain ⟨hfree, honly⟩ := h.owned q uid a (hold q uid a hq)
    exact ⟨hfree, fun q' b hq' => honly q' b (hold q' uid b hq')⟩

theorem Inv.become (h : Inv x w) (p : Nat) {m : DBManager} (hle : m.uidIndex ≤ x)
    (hphase : ∀ a, m.phase ≠ .insert a) : Inv x (w.become p m) :=
  h.setProc p (fun _ hm => by cases hm; exact hle) fun _ a hm => by cases hm; exact hphase a

theorem Inv.ended (h : Inv x w) (p : Nat) : Inv x (w.ended p) :=
  h.setProc p (fun _ hm => by cases hm) fun _ _ hm => by cases hm

theorem Inv.give (h : Inv x w) (p : Nat) {m : DBManager} (hle : m.uidIndex ≤ x) {a : Account}
    {row : Row} (hrow : w.db.accounts a.key = some row) (hname : row.name = a.name) :
    Inv x (w.give p m a row.uid) := by
  have hb := h.become p (m := { m with phase := .idle }) hle fun _ => nofun
  refine ⟨hb.counter, hb.below, hb.distinct, hb.seen, hb.owned, fun g hg => ?_⟩
  obtain hg | hg := List.mem_append.mp hg
  · exact h.given g hg
  · obtain rfl := List.mem_singleton.mp hg
    exact ⟨row, hrow, hname, rfl⟩

/-- A `select` keeps the invariant when it fails, or finds the row of the very name. -/
theorem Inv.select (h : Inv x w) {p : Nat} {uid : UInt64} {a : Account} {fails : Bool}
    (hp : w.procs p = some ⟨uid, .select a⟩)
    (hg : fails = true ∨ FindsOwn w.db (some ⟨uid, .select a⟩)) :
    Inv x (w.select p ⟨uid, .select a⟩ a fails) := by
  have hle : uid ≤ x := h.seen p _ hp
  cases fails with
  | true => exact h.ended p
  | false =>
    simp only [World.select, Bool.false_eq_true, if_false]
    split
    · next row hrow => exact h.give p hle hrow ((hg.resolve_left Bool.false_ne_true) row hrow)
    · split
      · exact h.become p hle fun _ => nofun
      · exact h.become p hle fun _ => nofun

/-- The counter and the process advance together, to a uid that nobody has. -/
theorem Inv.update (h : Inv x w) {p : Nat} {uid : UInt64} {a : Account} {fails : Bool}
    (hp : w.procs p = some ⟨uid, .update a⟩)
    (hg : fails = true ∨ CounterCurrent w.db (some ⟨uid, .update a⟩)) :
    ∃ x', Inv x' (w.update p ⟨uid, .update a⟩ a fails) := by
  have hle : uid ≤ x := h.seen p _ hp
  cases fails with
  | true => exact ⟨x, h.ended p⟩
  | false =>
    obtain ⟨hcur, hend⟩ := hg.resolve_left Bool.false_ne_true
    obtain rfl : uid = x := by
      have := hcur.symm.trans h.counter
      exact (List.cons.inj this).1
    have hlt : uid < uid + 1 := by
      apply UInt64.lt_add_one
      rintro rfl
      exact hend (by decide)
    have hup : ∀ u : UInt64, u ≤ uid → u ≤ uid + 1 := fun u hu =>
      UInt64.le_trans hu (UInt64.le_of_lt hlt)
    have hne : ∀ u : UInt64, u ≤ uid → u ≠ uid + 1 := by
      intro u hu he
      subst he
      exact absurd hlt (UInt64.not_lt.mpr hu)
    have hprocs : (w.update p ⟨uid, .update a⟩ a false).procs =
        Function.update w.procs p (some ⟨uid + 1, .insert a⟩) := rfl
    refine ⟨uid + 1, ?_, fun k row hrow => hup _ (h.below k row hrow), h.distinct, ?_, ?_, h.given⟩
    · simp only [World.update, Bool.false_eq_true, if_false, World.become, World.commit,
        Db.updateUidIndex, h.counter, List.map_cons, List.map_nil, if_true]
    · intro q m hq
      rw [hprocs] at hq
      by_cases he : q = p
      · subst he
        rw [Function.update_self] at hq
        cases hq
        exact UInt64.le_refl _
      · rw [Function.update_of_ne he] at hq
        exact hup _ (h.seen q m hq)
    · have hcase : ∀ q u b, (w.update p ⟨uid, .update a⟩ a false).procs q = some ⟨u, .insert b⟩ →
          (q = p ∧ u = uid + 1) ∨ (w.procs q = some ⟨u, .insert b⟩ ∧ u ≤ uid) := by
        intro q u b hq
        rw [hprocs] at hq
        by_cases he : q = p
        · subst he
          rw [Function.update_self] at hq
          cases hq
          exact .inl ⟨rfl, rfl⟩
        · rw [Function.update_of_ne he] at hq
          exact .inr ⟨hq, h.seen q _ hq⟩
      intro q u b hq
      obtain ⟨rfl, rfl⟩ | ⟨hq, hle⟩ := hcase q u b hq
      · refine ⟨fun k row hrow => hne _ (h.below k row hrow), fun q' b' hq' => ?_⟩
        obtain ⟨rfl, -⟩ | ⟨-, hle⟩ := hcase q' _ b' hq'
        · rfl
        · exact absurd rfl (hne _ hle)
      · obtain ⟨hfree, honly⟩ := h.owned q u b hq
        refine ⟨hfree, fun q' b' hq' => ?_⟩
        obtain ⟨-, rfl⟩ | ⟨hq', -⟩ := hcase q' u b' hq'
        · exact absurd rfl (hne _ hle)
        · exact honly q' b' hq'

/-- The uid that an `insert` writes is held by its process alone, which gives it up with the same
step. -/
theorem Inv.insert (h : Inv x w) {p : Nat} {uid : UInt64} {a : Account} {fails : Bool}
    (hp : w.procs p = some ⟨uid, .insert a⟩) :
    Inv x (w.insert p ⟨uid, .insert a⟩ a fails) := by
  have hle : uid ≤ x := h.seen p _ hp
  obtain ⟨hfree, honly⟩ := h.owned p uid a hp
  cases fails with
  | true => exact h.ended p
  | false =>
    simp only [World.insert, Bool.false_eq_true, if_false, Db.insertAccount]
    cases hk : w.db.accounts a.key with
    | some row => exact h.ended p
    | none =>
      have hrow : ∀ k row, Function.update w.db.accounts a.key (some ⟨a.name, uid⟩) k = some row →
          (k = a.key ∧ row = ⟨a.name, uid⟩) ∨ w.db.accounts k = some row := by
        intro k row hr
        by_cases he : k = a.key
        · subst he
          rw [Function.update_self] at hr
          exact .inl ⟨rfl, (Option.some.inj hr).symm⟩
        · rw [Function.update_of_ne he] at hr
          exact .inr hr
      have hbecome := h.become p (m := ⟨uid, .idle⟩) hle fun _ => nofun
      refine ⟨h.counter, ?_, ?_, hbecome.seen, ?_, ?_⟩
      · intro k row hr
        obtain ⟨-, rfl⟩ | hr := hrow k row hr
        · exact hle
        · exact h.below k row hr
      · intro k k' row row' hr hr' he
        obtain ⟨rfl, rfl⟩ | hr := hrow k row hr <;> obtain ⟨rfl, rfl⟩ | hr' := hrow k' row' hr'
        · rfl
        · exact absurd he.symm (hfree k' row' hr')
        · exact absurd he (hfree k row hr)
        · exact h.distinct k k' row row' hr hr' he
      · intro q u b hq
        obtain ⟨hfree', honly'⟩ := hbecome.owned q u b hq
        refine ⟨fun k row hr => ?_, honly'⟩
        obtain ⟨-, rfl⟩ | hr := hrow k row hr
        · intro he
          obtain rfl : uid = u := he
          have hq : Function.update w.procs p (some ⟨uid, .idle⟩) q = some ⟨uid, .insert b⟩ := hq
          by_cases hqp : q = p
          · subst hqp
            rw [Function.update_self] at hq
            cases hq
          · rw [Function.update_of_ne hqp] at hq
            exact hqp (honly q b hq)
        · exact hfree' k row hr
      · intro g hg
        obtain hg | hg := List.mem_append.mp hg
        · obtain ⟨row, hr, hname, huid⟩ := h.given g hg
          have hne : g.account.key ≠ a.key := by
            intro he
            rw [he, hk] at hr
            cases hr
          exact ⟨row, (Function.update_of_ne hne ..).trans hr, hname, huid⟩
        · obtain rfl := List.mem_singleton.mp hg
          exact ⟨⟨a.name, uid⟩, Function.update_self .., rfl, rfl⟩

end Steps

/-- `Init` succeeds on a single counter. -/
theorem init_eq_some {db : Db} {fails : Bool} {m : DBManager} (h : db.init fails = some m) :
    db.uidIndex = [m.uidIndex] ∧ m.phase = .idle := by
  simp only [Db.init] at h
  split at h
  · next hdb =>
    cases h
    exact ⟨hdb, rfl⟩
  · cases h

/-- Every step under the condition keeps the invariant, for a counter that may have gone up. -/
theorem step_inv {x : UInt64} {w w' : World} {e : Event} (h : Inv x w) (hg : Orderly w e)
    (hs : next w e = some w') : ∃ x', Inv x' w' := by
  cases e with
  | start p fails =>
    cases hs
    refine ⟨x, h.setProc p (fun m hm => ?_) fun m a hm => ?_⟩
    · have := (init_eq_some hm).1.symm.trans h.counter
      rw [(List.cons.inj this).1]
      exact UInt64.le_refl _
    · rw [(init_eq_some hm).2]
      nofun
  | crash p =>
    cases hs
    exact ⟨x, h.ended p⟩
  | request p a =>
    simp only [next] at hs
    split at hs
    · next uid hp =>
      cases hs
      have hle : uid ≤ x := h.seen p _ hp
      exact ⟨x, h.become p hle fun _ => nofun⟩
    · cases hs
  | select p fails =>
    simp only [next] at hs
    split at hs
    · next uid a hp =>
      cases hs
      exact ⟨x, h.select hp (hp ▸ hg)⟩
    · cases hs
  | update p fails =>
    simp only [next] at hs
    split at hs
    · next uid a hp =>
      cases hs
      exact h.update hp (hp ▸ hg)
    · cases hs
  | insert p fails =>
    simp only [next] at hs
    split at hs
    · next uid a hp =>
      cases hs
      exact ⟨x, h.insert hp⟩
    · cases hs

theorem initial_inv (uid : UInt64) : Inv uid (initial uid) := by
  refine ⟨rfl, ?_, ?_, ?_, ?_, ?_⟩
  · intro k row hr
    cases hr
  · intro k k' row row' hr
    cases hr
  · intro p m hm
    cases hm
  · intro p u a hp
    cases hp
  · intro g hg
    cases hg

/-- When every `update` finds the counter where its process last saw it, and every `select` finds
at most the account it asks for, accounts and uids correspond one to one. -/
theorem orderly_unique (uid : UInt64) {es : List Event} {w : World}
    (h : Trace.Run (fun w e w' => next w e = some w') Orderly (initial uid) es w) :
    Unique w.given := by
  obtain ⟨x, hx⟩ := h.invariant (fun w => ∃ x, Inv x w) ⟨uid, initial_inv uid⟩
    fun _ _ _ ⟨_, hi⟩ hg hs => step_inv hi hg hs
  exact hx.unique

instance (db : Db) : (o : Option DBManager) → Decidable (FindsOwn db o)
  | some ⟨_, .select a⟩ => inferInstanceAs (Decidable (∀ row ∈ db.accounts a.key, row.name = a.name))
  | none | some ⟨_, .idle⟩ | some ⟨_, .update _⟩ | some ⟨_, .insert _⟩ =>
    inferInstanceAs (Decidable True)

instance (db : Db) : (o : Option DBManager) → Decidable (CounterCurrent db o)
  | some ⟨uid, .update _⟩ => inferInstanceAs (Decidable (db.uidIndex = [uid] ∧ uid + 1 ≠ 0))
  | none | some ⟨_, .idle⟩ | some ⟨_, .select _⟩ | some ⟨_, .insert _⟩ =>
    inferInstanceAs (Decidable True)

instance (w : World) : (e : Event) → Decidable (Orderly w e)
  | .select p fails => inferInstanceAs (Decidable (fails = true ∨ FindsOwn w.db (w.procs p)))
  | .update p fails => inferInstanceAs (Decidable (fails = true ∨ CounterCurrent w.db (w.procs p)))
  | .start .. | .crash .. | .request .. | .insert .. => inferInstanceAs (Decidable True)

def sampleAccount (letter : UInt8) (h : PlainByte letter) : Account where
  type := guest
  name := ⟨[letter], List.cons_ne_nil _ _, by simp, by
    intro b hb
    obtain rfl := List.mem_singleton.mp hb
    exact h⟩

def alice : Account := sampleAccount 0x61 (by decide)

def bob : Account := sampleAccount 0x62 (by decide)

/-- The second process starts after the first has registered its guest, and the first then only
looks its guest up. -/
theorem orderly_unique_two :
    ∃ es w, Trace.Run (fun w e w' => next w e = some w') Orderly (initial 100000) es w ∧
      w.given = [⟨alice, 100001⟩, ⟨bob, 100002⟩, ⟨alice, 100001⟩] ∧ Unique w.given := by
  obtain ⟨w, hrun, hgiven⟩ := Trace.exists_run_of_exec next Orderly (initial 100000)
    [.start 0 false, .request 0 alice, .select 0 false, .update 0 false, .insert 0 false,
      .start 1 false, .request 1 bob, .select 1 false, .update 1 false, .insert 1 false,
      .request 0 alice, .select 0 false]
    (fun w => w.given = [⟨alice, 100001⟩, ⟨bob, 100002⟩, ⟨alice, 100001⟩]) (by decide +kernel)
  exact ⟨_, w, hrun, hgiven, orderly_unique 100000 hrun⟩

/-- Two processes that started together each register a guest. The second `update` changes no row,
and both guests get one uid. -/
theorem two_processes_collide :
    ∃ es w, Trace.Run (fun w e w' => next w e = some w') (fun _ _ => True) (initial 100000) es w ∧
      ¬ Unique w.given := by
  obtain ⟨w, hrun, hgiven⟩ := Trace.exists_run_of_exec next (fun _ _ => True) (initial 100000)
    [.start 0 false, .start 1 false, .request 0 alice, .select 0 false, .update 0 false,
      .insert 0 false, .request 1 bob, .select 1 false, .update 1 false, .insert 1 false]
    (fun w => w.given = [⟨alice, 100001⟩, ⟨bob, 100001⟩]) (by decide +kernel)
  refine ⟨_, w, hrun, fun hu => ?_⟩
  have h := hu ⟨alice, 100001⟩ (by simp [hgiven]) ⟨bob, 100001⟩ (by simp [hgiven])
  exact absurd (h.mpr rfl) (by decide)

end AuthSvr
