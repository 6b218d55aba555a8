import Dsf4g.SessionIds

/-!
# Objects under ids

`include/object_mng.hpp`, `src/common/session_mng.cpp`, `src/common/timer_mng.cpp` and
`src/common/player_mng.cpp`. A manager keeps a pool of objects and an index from ids
to positions beside it. Seen from outside it is a map from ids to objects; the runs
here keep that map next to the manager, with a number for each object that was ever
created.
-/
namespace Managers

open Base HandOver

/-! ## The map -/

/-- The objects that are found under ids, and how many have been created. -/
structure View (α Id : Type) where
  made : Nat
  found : Id → Option (Nat × α)

section Views

variable {α Id : Type} [DecidableEq Id]

def View.create (v : View α Id) (id : Id) (x : α) : View α Id :=
  ⟨v.made + 1, Function.update v.found id (some (v.made, x))⟩

def View.edit (v : View α Id) (id : Id) (g : α → α) : View α Id :=
  { v with found := Function.update v.found id ((v.found id).map fun r => (r.1, g r.2)) }

def View.release (v : View α Id) (id : Id) : View α Id :=
  { v with found := Function.update v.found id none }

end Views

/-! ## The managers -/

section Tables

variable {α Id : Type} [DecidableEq Id]

def release (t : Table α Id) (id : Id) : Table α Id :=
  match t.index id with
  | none => t
  | some pos => ⟨t.objs.free pos, Function.update t.index id none⟩

/-- Stores through the pointer that `Get` returned for an id. -/
def edit (t : Table α Id) (id : Id) (g : α → α) : Table α Id :=
  match t.index id with
  | none => t
  | some pos => if pos ≥ t.objs.size then t else { t with objs := t.objs.modify pos g }

/-- A new object with what the caller fills in, and its id and position. A position taken before the
search for an id fails stays taken. -/
def create [Inhabited α] (m : IdTable α) (fill : UInt32 → α → α) :
    IdTable α × Option (UInt32 × Nat) :=
  match m.objs.malloc with
  | none => (m, none)
  | some (pos, objs) =>
    match HallSvr.SessionManager.nextId m.index 10 m.curMaxId with
    | (none, cur) => (⟨⟨objs, m.index⟩, cur⟩, none)
    | (some id, cur) =>
      (⟨⟨objs.modify pos (fill id), Function.update m.index id (some pos)⟩, cur &&& 0xfffffff⟩,
        some (id, pos))

end Tables

/-! ### Timers -/

structure PBTimer (I : Type) where
  timerId : UInt32
  timeoutMsec : UInt64
  msg : I
  deriving Inhabited

abbrev Timer (I : Type) := HandOver.Timer (PBTimer I)

abbrev TimerManager (I : Type) := IdTable (Timer I)

section Timers

variable {I : Type}

def fillTimer (msec : UInt32) (inter : I) (now : UInt64) (id : UInt32) (x : Timer I) : Timer I :=
  { x with pb := { x.pb with timerId := id, timeoutMsec := now + msec.toUInt64, msg := inter } }

/-- `CreateTimer`, with the id and the position of the timer. -/
def createTimer [Inhabited I] (m : TimerManager I) (msec : UInt32) (inter : I) (now : UInt64) :
    TimerManager I × Option (UInt32 × Nat) :=
  create m (fillTimer msec inter now)

def releaseTimer (m : TimerManager I) (id : UInt32) : TimerManager I :=
  { m with toTable := release m.toTable id }

/-- The positions of the timers that have run out, in the order of the used set. -/
def runOut (o : Order) (m : TimerManager I) (now : UInt64) : List Nat :=
  (o.list m.objs.used).filter fun pos => (m.objs.pool pos).pb.timeoutMsec ≤ now

def tick (o : Order) (m : TimerManager I) (now : UInt64) : TimerManager I × List I :=
  (((runOut o m now).map fun pos => (m.objs.pool pos).pb.timerId).foldl releaseTimer m,
    (runOut o m now).map fun pos => (m.objs.pool pos).pb.msg)

end Timers

/-! ### Players -/

structure PBPlayer (R : Type) where
  uid : UInt64
  /-- The fields that the player manager does not read. -/
  rest : R
  deriving Inhabited

abbrev Player (R : Type) := HandOver.Player (PBPlayer R)

abbrev PlayerManager (R : Type) := Table (Player R) UInt64

section Players

variable {R : Type}

/-- `CreatePlayer`, with the position of the player. The index forgets a player of the same uid. -/
def createPlayer [Inhabited R] (m : PlayerManager R) (uid : UInt64) :
    PlayerManager R × Option Nat :=
  match m.objs.malloc with
  | none => (m, none)
  | some (pos, objs) =>
    (⟨objs.modify pos fun x => { x with pb := { x.pb with uid := uid } },
      Function.update m.index uid (some pos)⟩, some pos)

end Players

/-! ### Sessions -/

section Sessions

variable {R : Type}

def fillSession (msgId now : UInt32) (id : UInt32) (x : SessionIds.Session R) :
    SessionIds.Session R :=
  { x with pb := { x.pb with sessionId := id, msgId := msgId, updateTime := now } }

/-- `CreateSession` is `create` with the session filled in. -/
theorem createSession_eq [Inhabited R] (m : SessionIds.Manager R) (msgId now : UInt32) :
    SessionIds.createSession m msgId now =
      ((create m (fillSession msgId now)).1, (create m (fillSession msgId now)).2.map Prod.snd) := by
  simp only [SessionIds.createSession, create]
  cases m.objs.malloc with
  | none => rfl
  | some r =>
    cases hn : HallSvr.SessionManager.nextId m.index 10 m.curMaxId with
    | mk found cur => cases found <;> rfl

theorem releaseSession_eq (m : SessionIds.Manager R) (id : UInt32) :
    SessionIds.releaseSession m id = { m with toTable := release m.toTable id } := by
  simp only [SessionIds.releaseSession, release]
  cases m.index id <;> rfl

def timedOut (o : Order) (m : SessionIds.Manager R) (now : UInt32) : List UInt32 :=
  ((o.list m.objs.used).filter fun pos =>
    (m.objs.pool pos).pb.updateTime + SessionIds.sessionTimeout ≤ now).map fun pos =>
      SessionIds.sessionId (m.objs.pool pos)

theorem checkTimeOut_eq (o : Order) (m : SessionIds.Manager R) (now : UInt32) :
    SessionIds.checkTimeOut o m now = (timedOut o m now).foldl SessionIds.releaseSession m := rfl

end Sessions

/-! ## Managers against the map -/

section Tables

variable {α Id : Type}

/-- Which object, by its number, was last created in each position. -/
abbrev Born := Nat → Nat

/-- The manager, with `size` positions, finds under every id what the map has there. -/
structure Unaliased (size : Nat) (t : Table α Id) (born : Born) (v : View α Id) : Prop where
  size : t.objs.size = size
  valid : t.objs.Valid
  used : ∀ id pos, t.index id = some pos → pos ∈ t.objs.used
  distinct : ∀ id id' pos, t.index id = some pos → t.index id' = some pos → id = id'
  found : ∀ id, ((t.index id).map fun pos => (born pos, t.objs.pool pos)) = v.found id

variable {size : Nat} {t : Table α Id} {born : Born} {v : View α Id}

/-- What the manager finds is what the map has. -/
theorem Unaliased.get (h : Unaliased size t born v) (id : Id) : t.get id = (v.found id).map Prod.snd := by
  rw [← h.found id]
  cases hi : t.index id with
  | none => rw [Table.get, hi]; rfl
  | some pos =>
    have hlt := (h.valid.inRange pos).mp (.inr (h.used id pos hi))
    rw [Table.get, hi, Option.bind_some, ObjectMng.get, if_neg (Nat.not_le.mpr hlt)]
    rfl

/-- An id without an entry in the index is not live. -/
theorem Unaliased.fresh (h : Unaliased size t born v) {id : Id} (hi : t.index id = none) :
    v.found id = none := by
  rw [← h.found id, hi]
  rfl

/-- A position is taken and no id leads to it. -/
theorem Unaliased.leak [Inhabited α] (h : Unaliased size t born v) {pos : Nat} {objs : ObjectMng α}
    (hm : t.objs.malloc = some (pos, objs)) : Unaliased size ⟨objs, t.index⟩ born v := by
  obtain ⟨hvalid, -, hunused⟩ := h.valid.malloc hm
  obtain ⟨-, heq⟩ := ObjectMng.malloc_eq_some hm
  refine ⟨?_, hvalid, fun id i hi => ?_, h.distinct, fun id => ?_⟩
  · rw [heq]
    exact h.size
  · rw [heq]
    exact Finset.mem_insert_of_mem (h.used id i hi)
  · rw [← h.found id]
    refine Option.map_congr fun i hi => ?_
    have hne : i ≠ pos := fun he => hunused (he ▸ h.used id i hi)
    show (born i, objs.pool i) = (born i, t.objs.pool i)
    rw [heq]
    dsimp only
    rw [Function.update_of_ne hne]

variable [DecidableEq Id]

/-- A new object gets an id, which leads to no other object from now on. -/
theorem Unaliased.make [Inhabited α] (h : Unaliased size t born v) {pos : Nat} {objs : ObjectMng α}
    (hm : t.objs.malloc = some (pos, objs)) (id : Id) (g : α → α) :
    Unaliased size ⟨objs.modify pos g, Function.update t.index id (some pos)⟩
      (Function.update born pos v.made) (v.create id (g default)) := by
  have hleak := h.leak hm
  obtain ⟨-, -, hunused⟩ := h.valid.malloc hm
  obtain ⟨-, heq⟩ := ObjectMng.malloc_eq_some hm
  have hold : ∀ id' i, t.index id' = some i → i ≠ pos := by
    intro id' i hi he
    exact hunused (he ▸ h.used id' i hi)
  have hself : pos ∈ objs.used := by
    rw [heq]
    exact Finset.mem_insert_self ..
  refine ⟨hleak.size, hleak.valid.modify pos g, fun id' i hi => ?_, fun id' id'' i hi hi' => ?_, fun id' => ?_⟩
  · obtain ⟨-, he⟩ | ⟨-, hi⟩ := update_eq_some hi
    · cases he
      exact hself
    · exact hleak.used id' i hi
  · obtain ⟨he, hp⟩ | ⟨he, hi⟩ := update_eq_some hi
    · obtain ⟨he', -⟩ | ⟨-, hi'⟩ := update_eq_some hi'
      · rw [he, he']
      · cases hp
        exact absurd rfl (hold id'' pos hi')
    · obtain ⟨he', hp⟩ | ⟨he', hi'⟩ := update_eq_some hi'
      · cases hp
        exact absurd rfl (hold id' pos hi)
      · exact h.distinct id' id'' i hi hi'
  · by_cases he : id' = id
    · subst he
      simp only [View.create, Function.update_self, Option.map_some, ObjectMng.modify]
      rw [heq]
      simp only [Function.update_self]
    · simp only [View.create, Function.update_of_ne he]
      rw [← hleak.found id']
      refine Option.map_congr fun i hi => ?_
      have hne := hold id' i hi
      simp only [ObjectMng.modify, Function.update_of_ne hne]

/-- Stores through a pointer change one object in both. -/
theorem Unaliased.edit (h : Unaliased size t born v) (id : Id) (g : α → α) :
    Unaliased size (edit t id g) born (v.edit id g) := by
  cases hi : t.index id with
  | none =>
    have hv : v.edit id g = v := by
      simp only [View.edit, h.fresh hi, Option.map_none]
      rw [← h.fresh hi, Function.update_eq_self]
    rw [hv]
    simp only [Managers.edit, hi]
    exact h
  | some pos =>
    have hlt := (h.valid.inRange pos).mp (.inr (h.used id pos hi))
    simp only [Managers.edit, hi]
    rw [if_neg (Nat.not_le.mpr hlt)]
    refine ⟨h.size, h.valid.modify pos g, h.used, h.distinct, fun id' => ?_⟩
    by_cases he : id' = id
    · subst he
      simp only [View.edit, Function.update_self, ← h.found id', hi, Option.map_some,
        ObjectMng.modify]
    · simp only [View.edit, Function.update_of_ne he]
      rw [← h.found id']
      refine Option.map_congr fun i hi' => ?_
      have hne : i ≠ pos := fun hp => he (h.distinct id' id i hi' (hp ▸ hi))
      simp only [ObjectMng.modify, Function.update_of_ne hne]

/-- A release takes the object out of both. -/
theorem Unaliased.release (h : Unaliased size t born v) (id : Id) :
    Unaliased size (release t id) born (v.release id) := by
  cases hi : t.index id with
  | none =>
    have hv : v.release id = v := by
      simp only [View.release]
      rw [← h.fresh hi, Function.update_eq_self]
    rw [hv]
    simp only [Managers.release, hi]
    exact h
  | some pos =>
    have hused := h.used id pos hi
    have hlt := (h.valid.inRange pos).mp (.inr hused)
    have hfree : t.objs.free pos =
        { t.objs with freeList := pos :: t.objs.freeList, used := t.objs.used.erase pos } :=
      if_neg (Nat.not_le.mpr hlt)
    simp only [Managers.release, hi]
    have hother : ∀ id' i, Function.update t.index id none id' = some i →
        id' ≠ id ∧ t.index id' = some i := by
      intro id' i hi'
      exact (update_eq_some hi').resolve_left fun he => nomatch he.2
    refine ⟨?_, h.valid.free hused, fun id' i hi' => ?_, fun id' id'' i hi' hi'' => ?_,
      fun id' => ?_⟩
    · rw [hfree]
      exact h.size
    · obtain ⟨he, hi'⟩ := hother id' i hi'
      rw [hfree]
      refine Finset.mem_erase.mpr ⟨fun hp => he (h.distinct id' id i hi' (hp ▸ hi)), ?_⟩
      exact h.used id' i hi'
    · exact h.distinct id' id'' i (hother id' i hi').2 (hother id'' i hi'').2
    · rw [hfree]
      by_cases he : id' = id
      · subst he
        simp only [View.release, Function.update_self, Option.map_none]
      · simp only [View.release, Function.update_of_ne he]
        exact h.found id'

/-- `create` takes no position, or its search finds an id. -/
def Searchable (m : IdTable α) : Prop :=
  m.objs.freeList = [] ∨ ∃ k < 10, m.index (m.curMaxId + 1 + UInt32.ofNat k) = none

/-- What `create` can do: nothing when no position is free, lose a position when no id is found, and
else put a new object under an id that is not in the index. -/
theorem create_cases [Inhabited α] (m : IdTable α) (fill : UInt32 → α → α) :
    (m.objs.freeList = [] ∧ create m fill = (m, none)) ∨
    (∃ pos objs cur, m.objs.malloc = some (pos, objs) ∧ ¬ Searchable m ∧
      create m fill = (⟨⟨objs, m.index⟩, cur⟩, none)) ∨
    ∃ pos objs id cur, m.objs.malloc = some (pos, objs) ∧ Searchable m ∧ m.index id = none ∧
      create m fill =
        (⟨⟨objs.modify pos (fill id), Function.update m.index id (some pos)⟩, cur⟩,
          some (id, pos)) := by
  cases hm : m.objs.malloc with
  | none =>
    refine .inl ⟨?_, by simp only [create, hm]⟩
    cases hf : m.objs.freeList with
    | nil => rfl
    | cons pos rest => simp [ObjectMng.malloc, hf] at hm
  | some r =>
    obtain ⟨pos, objs⟩ := r
    have hcons := (ObjectMng.malloc_eq_some hm).1
    cases hn : HallSvr.SessionManager.nextId m.index 10 m.curMaxId with
    | mk found cur =>
      cases found with
      | none =>
        refine .inr (.inl ⟨pos, objs, cur, rfl, ?_, by simp only [create, hm, hn]⟩)
        rintro (hnil | ⟨k, hk, hfree⟩)
        · cases hcons.symm.trans hnil
        · exact SessionIds.nextId_eq_none hn k hk hfree
      | some id =>
        obtain ⟨k, hk, -, hfree, hid⟩ := SessionIds.nextId_eq_some hn
        refine .inr (.inr ⟨pos, objs, id, cur &&& 0xfffffff, rfl, .inr ⟨k, hk, ?_⟩, hfree, ?_⟩)
        · rw [← hid]
          exact hfree
        · simp only [create, hm, hn]

/-- `create` with its new object in the map. -/
theorem Unaliased.create [Inhabited α] {m : IdTable α} {v : View α UInt32}
    (h : Unaliased size m.toTable born v) (fill : UInt32 → α → α) :
    ((create m fill).2 = none ∧ Unaliased size (create m fill).1.toTable born v) ∨
    ∃ id pos, (create m fill).2 = some (id, pos) ∧ v.found id = none ∧
      (create m fill).1.objs.pool pos = fill id default ∧
      Unaliased size (create m fill).1.toTable (Function.update born pos v.made)
        (v.create id (fill id default)) := by
  obtain ⟨-, heq⟩ | ⟨pos, objs, cur, hm, -, heq⟩ | ⟨pos, objs, id, cur, hm, -, hi, heq⟩ :=
    create_cases m fill
  · rw [heq]
    exact .inl ⟨rfl, h⟩
  · rw [heq]
    exact .inl ⟨rfl, h.leak hm⟩
  · rw [heq]
    refine .inr ⟨id, pos, rfl, h.fresh hi, ?_, h.make hm id (fill id)⟩
    have hpool : objs.pool = Function.update m.objs.pool pos default := by
      rw [(ObjectMng.malloc_eq_some hm).2]
    simp only [ObjectMng.modify, Function.update_self, hpool]

end Tables

/-! ## After `Init` -/

section Init

variable {P : Type} {n : Nat} [Inhabited P] (c : Codec P)

theorem restore_valid {buf : List UInt8} {k offset : Nat} {m : ObjectMng (Stored P n)}
    {r : ObjectMng (Stored P n) × Nat} (hv : m.Valid) (h : restore c buf k m offset = some r) :
    r.1.Valid ∧ r.1.size = m.size := by
  induction k generalizing m offset with
  | zero =>
    cases h
    exact ⟨hv, rfl⟩
  | succ k ih =>
    obtain ⟨⟨pos, objs⟩, hm, h⟩ := Option.bind_eq_some_iff.mp h
    obtain ⟨x, -, h⟩ := Option.bind_eq_some_iff.mp h
    obtain ⟨hvalid, hsize⟩ := ih ((hv.malloc hm).1.modify pos fun _ => x.1) h
    refine ⟨hvalid, hsize.trans ?_⟩
    show objs.size = m.size
    rw [(ObjectMng.malloc_eq_some hm).2]

theorem init_valid {size : UInt32} {key : Nat} {s : Segments} {m : ObjectMng (Stored P n)}
    (h : (HandOver.init c size key s).2 = some m) : m.Valid ∧ m.size = size.toNat := by
  simp only [HandOver.init] at h
  split at h
  · cases h
    exact ⟨ObjectMng.init_valid _, rfl⟩
  · split at h
    · cases h
    · next hr =>
      cases h
      obtain ⟨r, -, hr⟩ := Option.bind_eq_some_iff.mp hr
      exact restore_valid c (ObjectMng.init_valid _) hr

end Init

section Initial

variable {α Id : Type}

/-- The map after `Init`: what was restored, numbered by position. -/
def View.initial (t : Table α Id) : View α Id :=
  ⟨t.objs.size, fun id => (t.index id).map fun pos => (pos, t.objs.pool pos)⟩

/-- After `Init` the map is what the index says. -/
theorem rebuild_unaliased [DecidableEq Id] (idOf : α → Id) (o : Order) {objs : ObjectMng α}
    (hv : objs.Valid) : Unaliased objs.size ⟨objs, rebuild idOf o objs⟩ (fun pos => pos)
      (View.initial ⟨objs, rebuild idOf o objs⟩) := by
  have hentry : ∀ id pos, rebuild idOf o objs id = some pos →
      pos ∈ objs.used ∧ idOf (objs.pool pos) = id := by
    intro id pos hi
    obtain ⟨q, hq, hg, hf⟩ | ⟨-, hf⟩ :=
      foldl_index_mem (fun i => idOf (objs.pool i)) (o.list objs.used) (fun _ => none) id
    · obtain rfl := Option.some.inj (hf.symm.trans hi)
      exact ⟨(o.mem _ q).mp hq, hg⟩
    · cases hf.symm.trans hi
  refine ⟨rfl, hv, fun id pos hi => (hentry id pos hi).1, fun id id' pos hi hi' => ?_, fun _ => rfl⟩
  rw [← (hentry id pos hi).2, (hentry id' pos hi').2]

end Initial

/-! ## Runs -/

/-- A manager, the numbers of the objects in its positions, and the map. -/
structure World (M α Id : Type) where
  mng : M
  born : Born
  view : View α Id

def World.initial {α Id : Type} (t : Table α Id) : World (Table α Id) α Id :=
  ⟨t, fun pos => pos, View.initial t⟩

def World.initialIds {α : Type} (m : IdTable α) : World (IdTable α) α UInt32 :=
  ⟨m, fun pos => pos, View.initial m.toTable⟩

/-! ### Sessions -/

inductive SessionOp (R : Type) where
  | create (msgId now : UInt32)
  /-- `GetSession`, and what the caller stores in the session. -/
  | get (id : UInt32) (g : SessionIds.Session R → SessionIds.Session R)
  | release (id : UInt32)
  | checkTimeOut (o : Order) (now : UInt32)

abbrev SessionWorld (R : Type) := World (SessionIds.Manager R) (SessionIds.Session R) UInt32

section Sessions

variable {R : Type} [Inhabited R]

def SessionWorld.next (w : SessionWorld R) : SessionOp R → SessionWorld R
  | .create msgId now =>
    match SessionIds.createSession w.mng msgId now with
    | (m, none) => { w with mng := m }
    | (m, some pos) =>
      let id := SessionIds.sessionId (m.objs.pool pos)
      ⟨m, Function.update w.born pos w.view.made, w.view.create id (fillSession msgId now id default)⟩
  | .get id g =>
    { w with mng := { w.mng with toTable := edit w.mng.toTable id g }, view := w.view.edit id g }
  | .release id => { w with mng := SessionIds.releaseSession w.mng id, view := w.view.release id }
  | .checkTimeOut o now =>
    { w with
      mng := SessionIds.checkTimeOut o w.mng now
      view := (timedOut o w.mng now).foldl View.release w.view }

/-- What holds of sessions and ids: nothing is aliased, and a new session gets an id that is not
live. -/
structure SessionWorld.Good (w : SessionWorld R) (size : Nat) : Prop where
  unaliased : Unaliased size w.mng.toTable w.born w.view
  get : ∀ id, w.mng.toTable.get id = (w.view.found id).map Prod.snd
  fresh : ∀ msgId now pos, (SessionIds.createSession w.mng msgId now).2 = some pos →
    w.view.found (SessionIds.sessionId
      ((SessionIds.createSession w.mng msgId now).1.objs.pool pos)) = none

theorem SessionWorld.good {w : SessionWorld R} {size : Nat}
    (h : Unaliased size w.mng.toTable w.born w.view) : SessionWorld.Good w size := by
  refine ⟨h, h.get, fun msgId now pos hpos => ?_⟩
  rw [createSession_eq] at hpos ⊢
  obtain ⟨hnone, -⟩ | ⟨id, pos', hsome, hfresh, hobj, -⟩ := h.create (fillSession msgId now)
  · rw [hnone] at hpos
    cases hpos
  · rw [hsome] at hpos
    cases hpos
    show w.view.found (SessionIds.sessionId ((create w.mng _).1.objs.pool pos')) = none
    rw [hobj]
    exact hfresh

omit [Inhabited R] in
theorem foldl_releaseSession {m : SessionIds.Manager R} {size : Nat} {born : Born}
    {v : View (SessionIds.Session R) UInt32} (h : Unaliased size m.toTable born v)
    (ids : List UInt32) :
    Unaliased size (ids.foldl SessionIds.releaseSession m).toTable born
      (ids.foldl View.release v) := by
  induction ids generalizing m v with
  | nil => exact h
  | cons id ids ih =>
    refine ih ?_
    rw [releaseSession_eq]
    exact h.release id

/-- Every operation on sessions agrees with the map. -/
theorem SessionWorld.next_unaliased {w : SessionWorld R} {size : Nat}
    (h : Unaliased size w.mng.toTable w.born w.view) (op : SessionOp R) :
    Unaliased size (w.next op).mng.toTable (w.next op).born (w.next op).view := by
  cases op with
  | create msgId now =>
    simp only [SessionWorld.next, createSession_eq]
    obtain ⟨hnone, hcreate⟩ | ⟨id, pos, hsome, -, hobj, hcreate⟩ :=
      h.create (fillSession msgId now)
    · simp only [hnone, Option.map_none]
      exact hcreate
    · simp only [hsome, Option.map_some, hobj]
      exact hcreate
  | get id g => exact h.edit id g
  | release id =>
    simp only [SessionWorld.next, releaseSession_eq]
    exact h.release id
  | checkTimeOut o now => exact foldl_releaseSession h (timedOut o w.mng now)

/-- By induction on the operations. -/
theorem SessionWorld.run_unaliased {w : SessionWorld R} {size : Nat}
    (h : Unaliased size w.mng.toTable w.born w.view) (ops : List (SessionOp R)) :
    Unaliased size (ops.foldl next w).mng.toTable (ops.foldl next w).born
      (ops.foldl next w).view := by
  induction ops generalizing w with
  | nil => exact h
  | cons op ops ih => exact ih (next_unaliased h op)

end Sessions

/-! ### Timers -/

inductive TimerOp (I : Type) where
  | create (msec : UInt32) (inter : I) (now : UInt64)
  | release (id : UInt32)
  | tick (o : Order) (now : UInt64)

abbrev TimerWorld (I : Type) := World (TimerManager I) (Timer I) UInt32

section Timers

variable {I : Type} [Inhabited I]

def TimerWorld.next (w : TimerWorld I) : TimerOp I → TimerWorld I
  | .create msec inter now =>
    match createTimer w.mng msec inter now with
    | (m, none) => { w with mng := m }
    | (m, some (id, pos)) =>
      ⟨m, Function.update w.born pos w.view.made,
        w.view.create id (fillTimer msec inter now id default)⟩
  | .release id => { w with mng := releaseTimer w.mng id, view := w.view.release id }
  | .tick o now =>
    { w with
      mng := (tick o w.mng now).1
      view := ((runOut o w.mng now).map fun pos => (w.mng.objs.pool pos).pb.timerId).foldl
        View.release w.view }

structure TimerWorld.Good (w : TimerWorld I) (size : Nat) : Prop where
  unaliased : Unaliased size w.mng.toTable w.born w.view
  get : ∀ id, w.mng.toTable.get id = (w.view.found id).map Prod.snd
  fresh : ∀ msec inter now id pos, (createTimer w.mng msec inter now).2 = some (id, pos) →
    w.view.found id = none

theorem TimerWorld.good {w : TimerWorld I} {size : Nat}
    (h : Unaliased size w.mng.toTable w.born w.view) : TimerWorld.Good w size := by
  refine ⟨h, h.get, fun msec inter now id pos hpos => ?_⟩
  obtain ⟨hnone, -⟩ | ⟨id', pos', hsome, hfresh, -, -⟩ := h.create (fillTimer msec inter now)
  · cases hnone.symm.trans hpos
  · cases hsome.symm.trans hpos
    exact hfresh

omit [Inhabited I] in
theorem foldl_releaseTimer {m : TimerManager I} {size : Nat} {born : Born}
    {v : View (Timer I) UInt32} (h : Unaliased size m.toTable born v) (ids : List UInt32) :
    Unaliased size (ids.foldl releaseTimer m).toTable born (ids.foldl View.release v) := by
  induction ids generalizing m v with
  | nil => exact h
  | cons id ids ih => exact ih (h.release id)

/-- Every operation on timers agrees with the map. -/
theorem TimerWorld.next_unaliased {w : TimerWorld I} {size : Nat}
    (h : Unaliased size w.mng.toTable w.born w.view) (op : TimerOp I) :
    Unaliased size (w.next op).mng.toTable (w.next op).born (w.next op).view := by
  cases op with
  | create msec inter now =>
    simp only [TimerWorld.next, createTimer]
    obtain ⟨hnone, hcreate⟩ | ⟨id, pos, hsome, -, -, hcreate⟩ :=
      h.create (fillTimer msec inter now)
    · generalize create w.mng (fillTimer msec inter now) = r at hnone hcreate ⊢
      obtain ⟨m, found⟩ := r
      cases hnone
      exact hcreate
    · generalize create w.mng (fillTimer msec inter now) = r at hsome hcreate ⊢
      obtain ⟨m, found⟩ := r
      cases hsome
      exact hcreate
  | release id => exact h.release id
  | tick o now => exact foldl_releaseTimer h _

theorem TimerWorld.run_unaliased {w : TimerWorld I} {size : Nat}
    (h : Unaliased size w.mng.toTable w.born w.view) (ops : List (TimerOp I)) :
    Unaliased size (ops.foldl next w).mng.toTable (ops.foldl next w).born
      (ops.foldl next w).view := by
  induction ops generalizing w with
  | nil => exact h
  | cons op ops ih => exact ih (next_unaliased h op)

end Timers

/-! ### Players -/

inductive PlayerOp (R : Type) where
  | create (uid : UInt64)
  /-- `GetPlayer`, and what the caller stores in the player. -/
  | get (uid : UInt64) (g : Player R → Player R)
  | release (uid : UInt64)

abbrev PlayerWorld (R : Type) := World (PlayerManager R) (Player R) UInt64

section Players

variable {R : Type} [Inhabited R]

def newPlayer (uid : UInt64) : Player R := ⟨⟨uid, default⟩, (default : Player R).head⟩

def PlayerWorld.next (w : PlayerWorld R) : PlayerOp R → PlayerWorld R
  | .create uid =>
    match createPlayer w.mng uid with
    | (m, none) => { w with mng := m }
    | (m, some pos) =>
      ⟨m, Function.update w.born pos w.view.made, w.view.create uid (newPlayer uid)⟩
  | .get uid g => { w with mng := edit w.mng uid g, view := w.view.edit uid g }
  | .release uid => { w with mng := release w.mng uid, view := w.view.release uid }

structure PlayerWorld.Good (w : PlayerWorld R) (size : Nat) : Prop where
  unaliased : Unaliased size w.mng w.born w.view
  get : ∀ uid, w.mng.get uid = (w.view.found uid).map Prod.snd

/-- Every operation on players agrees with the map. -/
theorem PlayerWorld.next_unaliased {w : PlayerWorld R} {size : Nat}
    (h : Unaliased size w.mng w.born w.view) (op : PlayerOp R) :
    Unaliased size (w.next op).mng (w.next op).born (w.next op).view := by
  cases op with
  | create uid =>
    simp only [PlayerWorld.next, createPlayer]
    cases hm : w.mng.objs.malloc with
    | none => exact h
    | some r => exact h.make hm uid _
  | get uid g => exact h.edit uid g
  | release uid => exact h.release uid

theorem PlayerWorld.run_unaliased {w : PlayerWorld R} {size : Nat}
    (h : Unaliased size w.mng w.born w.view) (ops : List (PlayerOp R)) :
    Unaliased size (ops.foldl next w).mng (ops.foldl next w).born (ops.foldl next w).view := by
  induction ops generalizing w with
  | nil => exact h
  | cons op ops ih => exact ih (next_unaliased h op)

end Players

/-! ### The three managers -/

/-- After `Init`, whatever it restored, no sequence of operations makes two live ids share an object,
hides an object behind another id, or loses track of a position. -/
theorem managers_unaliased :
    (∀ (R : Type) [Inhabited R] (c : Codec (SessionIds.PBSession R)) (o : Order) (size : UInt32)
      (key : Nat) (s : Segments) (m : SessionIds.Manager R) (ops : List (SessionOp R)),
      (SessionManager.init c SessionIds.PBSession.sessionId o size key s).2 = some m →
      SessionWorld.Good (ops.foldl SessionWorld.next (World.initialIds m)) size.toNat) ∧
    (∀ (I : Type) [Inhabited I] (c : Codec (PBTimer I)) (o : Order) (size : UInt32) (key : Nat)
      (s : Segments) (m : TimerManager I) (ops : List (TimerOp I)),
      (TimerManager.init c PBTimer.timerId o size key s).2 = some m →
      TimerWorld.Good (ops.foldl TimerWorld.next (World.initialIds m)) size.toNat) ∧
    ∀ (R : Type) [Inhabited R] (c : Codec (PBPlayer R)) (o : Order) (size : UInt32) (key : Nat)
      (s : Segments) (m : PlayerManager R) (ops : List (PlayerOp R)),
      (PlayerManager.init c PBPlayer.uid o size key s).2 = some m →
      PlayerWorld.Good (ops.foldl PlayerWorld.next (World.initial m)) size.toNat := by
  refine ⟨fun R _ c o size key s m ops h => ?_, fun I _ c o size key s m ops h => ?_,
    fun R _ c o size key s m ops h => ?_⟩
  · obtain ⟨objs, hobjs, rfl⟩ := Option.map_eq_some_iff.mp h
    obtain ⟨hv, hsize⟩ := init_valid c hobjs
    rw [← hsize]
    exact SessionWorld.good (SessionWorld.run_unaliased (rebuild_unaliased _ o hv) ops)
  · obtain ⟨objs, hobjs, rfl⟩ := Option.map_eq_some_iff.mp h
    obtain ⟨hv, hsize⟩ := init_valid c hobjs
    rw [← hsize]
    exact TimerWorld.good (TimerWorld.run_unaliased (rebuild_unaliased _ o hv) ops)
  · obtain ⟨objs, hobjs, rfl⟩ := Option.map_eq_some_iff.mp h
    obtain ⟨hv, hsize⟩ := init_valid c hobjs
    rw [← hsize]
    have hrun := PlayerWorld.run_unaliased
      (w := World.initial ⟨objs, rebuild (fun x => x.pb.uid) o objs⟩) (rebuild_unaliased _ o hv) ops
    exact ⟨hrun, hrun.get⟩

def sampleTimerCodec : Codec (PBTimer Unit) where
  ser t := Bytes.le 4 t.timerId.toNat ++ Bytes.le 8 t.timeoutMsec.toNat
  parse bs :=
    some ⟨UInt32.ofNat (Bytes.ofLe (bs.take 4)), UInt64.ofNat (Bytes.ofLe (bs.drop 4)), ()⟩
  parse_ser t := by
    rw [List.take_left' (Bytes.le_length 4 _), List.drop_left' (Bytes.le_length 4 _),
      Bytes.ofLe_le_of_lt t.timerId.toNat_lt, Bytes.ofLe_le_of_lt t.timeoutMsec.toNat_lt,
      UInt32.ofNat_toNat, UInt64.ofNat_toNat]
  ser_lt t := by
    simp only [List.length_append, Bytes.le_length]
    decide

def samplePlayerCodec : Codec (PBPlayer Unit) where
  ser p := Bytes.le 8 p.uid.toNat
  parse bs := some ⟨UInt64.ofNat (Bytes.ofLe bs), ()⟩
  parse_ser p := by rw [Bytes.ofLe_le_of_lt p.uid.toNat_lt, UInt64.ofNat_toNat]
  ser_lt p := by rw [Bytes.le_length]; decide

/-- A session times out and a timer runs out before others are created; a player is created again
under its uid. -/
theorem managers_unaliased_again :
    (∃ w : SessionWorld Unit, ((w.view.found 2).isSome ∧ w.view.found 1 = none) ∧ w.Good 2) ∧
    (∃ w : TimerWorld Unit, ((w.view.found 2).isSome ∧ w.view.found 1 = none) ∧ w.Good 2) ∧
    ∃ w : PlayerWorld Unit, (w.view.found 7).map Prod.fst = some 3 ∧ w.Good 2 := by
  refine ⟨⟨_, ⟨?_, ?_⟩, managers_unaliased.1 Unit SessionIds.sampleCodec ascending 2 0 (fun _ => none) _
      [.create 5 100, .checkTimeOut ascending 105, .create 5 105,
        .get 2 fun x => { x with pb := { x.pb with updateTime := 107 } }] rfl⟩,
    ⟨_, ⟨?_, ?_⟩, managers_unaliased.2.1 Unit sampleTimerCodec ascending 2 0 (fun _ => none) _
      [.create 10 () 100, .tick ascending 110, .create 20 () 110] rfl⟩,
    ⟨_, ?_, managers_unaliased.2.2 Unit samplePlayerCodec ascending 2 0 (fun _ => none) _
      [.create 7, .create 7] rfl⟩⟩
  all_goals decide +kernel

end Managers
