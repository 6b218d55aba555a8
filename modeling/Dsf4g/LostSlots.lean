import Dsf4g.Lib.Trace
import Dsf4g.Managers

/-!
# Slots lost by a failed creation

`SessionManager::CreateSession` and `TimerManager::CreateTimer` take a slot and then search for an
id. When the search gives up, the slot is neither used under an id nor given back.
-/
namespace Managers

open Base HandOver

/-! ## Releases -/

section Releases

variable {α Id : Type} [DecidableEq Id] {t : Table α Id}

theorem release_absent_eq {id : Id} (hi : t.index id = none) : release t id = t := by
  simp only [release, hi]

/-- No id leads anywhere anew, and the released one leads nowhere. -/
theorem release_index (id : Id) : (release t id).index = Function.update t.index id none := by
  cases hi : t.index id with
  | none => rw [release_absent_eq hi, ← hi, Function.update_eq_self]
  | some pos => simp only [release, hi]

theorem foldl_release_index (ids : List Id) (id : Id) :
    (ids.foldl release t).index id = if id ∈ ids then none else t.index id := by
  induction ids generalizing t with
  | nil => rfl
  | cons id' ids ih =>
    rw [List.foldl_cons, ih, release_index]
    by_cases he : id = id'
    · rw [he, Function.update_self, if_pos List.mem_cons_self, ite_self]
    · rw [Function.update_of_ne he]
      simp only [List.mem_cons, he, false_or]

/-- Releasing moves no object. -/
theorem release_pool (id : Id) : (release t id).objs.pool = t.objs.pool := by
  simp only [release]
  split
  · rfl
  · simp only [ObjectMng.free]
    split <;> rfl

theorem foldl_release_pool (ids : List Id) : (ids.foldl release t).objs.pool = t.objs.pool := by
  induction ids generalizing t with
  | nil => rfl
  | cons id ids ih => exact ih.trans (release_pool id)

theorem release_size (id : Id) : (release t id).objs.size = t.objs.size := by
  simp only [release]
  split
  · rfl
  · simp only [ObjectMng.free]
    split <;> rfl

theorem release_used_subset (id : Id) : (release t id).objs.used ⊆ t.objs.used := by
  simp only [release]
  split
  · exact Finset.Subset.refl _
  · simp only [ObjectMng.free]
    split
    · exact Finset.Subset.refl _
    · exact Finset.erase_subset ..

theorem foldl_release_size (ids : List Id) : (ids.foldl release t).objs.size = t.objs.size := by
  induction ids generalizing t with
  | nil => rfl
  | cons id ids ih => exact ih.trans (release_size id)

end Releases

/-! ## Tables with lost slots -/

section Tables

variable {α Id : Type} [DecidableEq Id] {blank : α → Prop} {idOf : α → Id} {t : Table α Id}

/-- A release keeps what is found under the other ids. -/
theorem kept_release (h : Kept blank idOf t) (id : Id) : Kept blank idOf (release t id) := by
  cases hi : t.index id with
  | none =>
    rw [release_absent_eq hi]
    exact h
  | some pos =>
    simp only [release, hi]
    exact h.erase hi

theorem foldl_release_kept (h : Kept blank idOf t) (ids : List Id) :
    Kept blank idOf (ids.foldl release t) := by
  induction ids generalizing t with
  | nil => exact h
  | cons id ids ih => exact ih (kept_release h id)

/-- A new object under a free id is found under it. -/
theorem indexed_make [Inhabited α] (h : Indexed idOf t) {pos : Nat} {objs : ObjectMng α}
    (hm : t.objs.malloc = some (pos, objs)) {id : Id} (hid : t.index id = none) {g : α → α}
    (hg : ∀ x, idOf (g x) = id) :
    Indexed idOf ⟨objs.modify pos g, Function.update t.index id (some pos)⟩ :=
  indexed_iff_kept.mpr ((indexed_iff_kept.mp h).make hm hid hg)

/-- What was released is not found any more, and nothing else changes. -/
theorem indexed_release (h : Indexed idOf t) (id : Id) : Indexed idOf (release t id) :=
  indexed_iff_kept.mpr (kept_release (indexed_iff_kept.mp h) id)

theorem foldl_release_indexed (h : Indexed idOf t) (ids : List Id) :
    Indexed idOf (ids.foldl release t) :=
  indexed_iff_kept.mpr (foldl_release_kept (indexed_iff_kept.mp h) ids)

end Tables

section Creations

variable {α : Type} [Inhabited α]

/-- What `create` leaves: the objects under ids stay where they are, and a new one is under an id
that led nowhere. -/
theorem create_kept {blank : α → Prop} {idOf : α → UInt32} {m : IdTable α}
    (h : Kept blank idOf m.toTable) (hblank : blank default) (fill : UInt32 → α → α)
    (hfill : ∀ id x, idOf (fill id x) = id) :
    Kept blank idOf (create m fill).1.toTable ∧
    (∀ id pos, m.index id = some pos → (create m fill).1.index id = some pos ∧
      (create m fill).1.objs.pool pos = m.objs.pool pos) ∧
    (((create m fill).2 = none ∧ (create m fill).1.index = m.index) ∨
      ∃ id pos, (create m fill).2 = some (id, pos) ∧ m.index id = none ∧
        (create m fill).1.index = Function.update m.index id (some pos) ∧
        (create m fill).1.objs.pool pos = fill id default) := by
  obtain ⟨-, heq⟩ | ⟨pos, objs, cur, hm, -, heq⟩ | ⟨pos, objs, id, cur, hm, -, hid, heq⟩ :=
    create_cases m fill
  · rw [heq]
    exact ⟨h, fun id pos hi => ⟨hi, rfl⟩, .inl ⟨rfl, rfl⟩⟩
  · obtain ⟨-, hnew, -, hother⟩ := h.malloc hm
    rw [heq]
    exact ⟨h.leak hm hblank, fun id i hi => ⟨hi, hother i fun he => hnew id (he ▸ hi)⟩,
      .inl ⟨rfl, rfl⟩⟩
  · obtain ⟨-, hnew, hself, hother⟩ := h.malloc hm
    rw [heq]
    refine ⟨h.make hm hid (hfill id), fun id' i hi => ?_, .inr ⟨id, pos, rfl, hid, rfl, ?_⟩⟩
    · have hids : id' ≠ id := by
        rintro rfl
        cases hid.symm.trans hi
      have hne : i ≠ pos := fun he => hnew id' (he ▸ hi)
      dsimp only [ObjectMng.modify]
      rw [Function.update_of_ne hids, Function.update_of_ne hne, hother i hne]
      exact ⟨hi, rfl⟩
    · dsimp only [ObjectMng.modify]
      rw [Function.update_self, hself]

theorem create_size (m : IdTable α) (fill : UInt32 → α → α) :
    (create m fill).1.objs.size = m.objs.size := by
  obtain ⟨-, heq⟩ | ⟨pos, objs, cur, hm, -, heq⟩ | ⟨pos, objs, id, cur, hm, -, -, heq⟩ :=
    create_cases m fill
  · rw [heq]
  · rw [heq, (ObjectMng.malloc_eq_some hm).2]
  · rw [heq]
    change objs.size = _
    rw [(ObjectMng.malloc_eq_some hm).2]

end Creations

/-! ## Failed creations -/

/-- The free list, the used set and the index are the same. -/
structure Unchanged {α Id : Type} (t t' : Table α Id) : Prop where
  freeList : t'.objs.freeList = t.objs.freeList
  used : t'.objs.used = t.objs.used
  index : t'.index = t.index

section Tables

variable {α : Type}

/-- A failed creation leaves the manager unchanged exactly when it had no slot to take, or could not
fail. -/
theorem create_unchanged_iff [Inhabited α] (m : IdTable α) (fill : UInt32 → α → α) :
    ((create m fill).2 = none → Unchanged m.toTable (create m fill).1.toTable) ↔ Searchable m := by
  obtain ⟨hnil, heq⟩ | ⟨pos, objs, cur, hm, hno, heq⟩ | ⟨pos, objs, id, cur, hm, hs, -, heq⟩ :=
    create_cases m fill
  · rw [heq]
    exact iff_of_true (fun _ => ⟨rfl, rfl, rfl⟩) (.inl hnil)
  · rw [heq]
    refine iff_of_false (fun h => ?_) hno
    have hfree := (h rfl).freeList
    have hcons := (ObjectMng.malloc_eq_some hm).1
    dsimp only at hfree
    rw [← hfree] at hcons
    exact List.cons_ne_self pos _ hcons.symm
  · rw [heq]
    exact iff_of_true (fun h => nomatch h) hs

variable {idOf : α → UInt32}

/-- A creation keeps the used slots indexed exactly when it leaves no slot behind. -/
theorem create_indexed_iff [Inhabited α] {m : IdTable α} (h : Indexed idOf m.toTable)
    (fill : UInt32 → α → α) (hfill : ∀ id x, idOf (fill id x) = id) :
    Indexed idOf (create m fill).1.toTable ↔ Searchable m := by
  obtain ⟨hnil, heq⟩ | ⟨pos, objs, cur, hm, hno, heq⟩ | ⟨pos, objs, id, cur, hm, hs, hid, heq⟩ :=
    create_cases m fill
  · rw [heq]
    exact iff_of_true h (.inl hnil)
  · rw [heq]
    refine iff_of_false (fun h' => ?_) hno
    have hused : pos ∈ objs.used := by
      rw [(ObjectMng.malloc_eq_some hm).2]
      exact Finset.mem_insert_self ..
    have hindex := (h'.index (idOf (objs.pool pos)) pos).mpr ⟨hused, rfl⟩
    exact (h.valid.malloc hm).2.2 ((h.index _ pos).mp hindex).1
  · rw [heq]
    exact iff_of_true (indexed_make h hm hid (hfill id)) hs

end Tables

/-! ## Everything else -/

section Tables

variable {α Id : Type} {idOf : α → Id} {t : Table α Id}

theorem indexed_edit (h : Indexed idOf t) (id : Id) {g : α → α} (hg : ∀ x, idOf (g x) = idOf x) :
    Indexed idOf (edit t id g) := by
  unfold edit
  split
  · exact h
  · next pos _ =>
    split
    · exact h
    · exact indexed_iff_kept.mpr ((indexed_iff_kept.mp h).modify pos hg fun _ hx => hx)

theorem edit_size (id : Id) (g : α → α) : (edit t id g).objs.size = t.objs.size := by
  unfold edit
  split
  · rfl
  · split <;> rfl

variable [DecidableEq Id]

/-- The slot that the id leads to is given back. -/
theorem release_used (h : Indexed idOf t) {id : Id} {pos : Nat} (hi : t.index id = some pos) :
    (release t id).objs = { t.objs with
      freeList := pos :: t.objs.freeList
      used := t.objs.used.erase pos } := by
  have hlt := (h.valid.inRange pos).mp (.inr ((h.index id pos).mp hi).1)
  simp only [release, hi]
  exact if_neg (Nat.not_le.mpr hlt)

/-- A sweep over ids frees the slots that hold them. -/
theorem foldl_release_freed (h : Indexed idOf t) (ids : List Id) {pos : Nat}
    (hpos : pos ∈ t.objs.used → idOf (t.objs.pool pos) ∈ ids) :
    pos ∉ (ids.foldl release t).objs.used := by
  induction ids generalizing t with
  | nil => exact fun hused => absurd (hpos hused) List.not_mem_nil
  | cons id ids ih =>
    apply ih (indexed_release h id)
    intro hused
    have hold := hpos (release_used_subset id hused)
    rw [release_pool]
    obtain he | hmem := List.mem_cons.mp hold
    · have hi := (h.index id pos).mpr ⟨release_used_subset id hused, he⟩
      rw [release_used h hi] at hused
      exact absurd hused (Finset.notMem_erase pos _)
    · exact hmem

end Tables

/-! ## Restarts -/

section Restarts

variable {P : Type} [Inhabited P] {n : Nat} (c : Codec P) (idOf : P → UInt32)

/-- `Release` in `Exit` and `Init` of the next process, when no segment is in the way. -/
def restart (size : UInt32) (key : Nat) (o o' : Order) (m : IdTable (Stored P n)) :
    Option (IdTable (Stored P n)) :=
  (initIds c idOf o' size key (HandOver.release c o m.objs key fun _ => none).segments).2

def fresh (size : UInt32) : IdTable (Stored P n) := ⟨⟨.init size.toNat, fun _ => none⟩, 0⟩

theorem fresh_indexed (size : UInt32) :
    Indexed (fun x : Stored P n => idOf x.pb) (fresh size).toTable := by
  refine ⟨ObjectMng.init_valid _, fun id pos => ?_⟩
  refine iff_of_false (fun h => nomatch h) fun h => ?_
  exact Finset.notMem_empty pos h.1

/-- A manager that is handed over is indexed in the next process. -/
theorem restart_indexed {size : UInt32} {key : Nat} {o o' : Order} {m m' : IdTable (Stored P n)}
    (h : Indexed (fun x => idOf x.pb) m.toTable) (hsize : m.objs.size = size.toNat)
    (hm : restart c idOf size key o o' m = some m') :
    Indexed (fun x => idOf x.pb) m'.toTable ∧ m'.objs.size = size.toNat := by
  obtain ⟨objs, hobjs, rfl⟩ := Option.map_eq_some_iff.mp hm
  by_cases hkey : key = 0
  · simp only [HandOver.init, ShareMem.attach, hkey, if_true] at hobjs
    cases hobjs
    exact ⟨rebuild_indexed o' (ObjectMng.init_valid _) fun i hi => absurd hi (Finset.notMem_empty i),
      rfl⟩
  · have hcard : m.objs.used.card ≤ size.toNat := by
      have hsub : m.objs.used ⊆ Finset.range m.objs.size := by
        intro pos hpos
        exact Finset.mem_range.mpr ((h.valid.inRange pos).mp (.inr hpos))
      have hle := Finset.card_le_card hsub
      rwa [Finset.card_range, hsize] at hle
    obtain ⟨objs', hinit, hover⟩ := init_release c h o o' size hkey (s := fun _ => none) rfl hcard
    rw [hinit] at hobjs
    cases hobjs
    exact ⟨hover.indexed, hover.size⟩

end Restarts

/-! ## Sessions -/

section Sessions

variable {R : Type}

/-- Every used session is found under its id and nothing else is found, `ReleaseSession` frees what
is found, and `CheckTimeOut` frees every session that has timed out. -/
structure SessionsKept (size : UInt32) (m : SessionIds.Manager R) : Prop where
  found : Indexed SessionIds.sessionId m.toTable
  size : m.objs.size = size.toNat
  released : ∀ id pos, m.index id = some pos → pos ∉ (SessionIds.releaseSession m id).objs.used
  expires : ∀ pos ∈ m.objs.used, ∀ (o : Order) (now : UInt32),
    (m.objs.pool pos).pb.updateTime + SessionIds.sessionTimeout ≤ now →
      pos ∉ (SessionIds.checkTimeOut o m now).objs.used

theorem foldl_releaseSession_toTable (m : SessionIds.Manager R) (ids : List UInt32) :
    (ids.foldl SessionIds.releaseSession m).toTable = ids.foldl release m.toTable := by
  induction ids generalizing m with
  | nil => rfl
  | cons id ids ih =>
    rw [List.foldl_cons, List.foldl_cons, ih, releaseSession_eq]

/-- `CheckTimeOut` releases the ids it has collected, one by one. -/
theorem checkTimeOut_toTable (o : Order) (m : SessionIds.Manager R) (now : UInt32) :
    (SessionIds.checkTimeOut o m now).toTable = (timedOut o m now).foldl release m.toTable := by
  rw [checkTimeOut_eq, foldl_releaseSession_toTable]

/-- An indexed manager loses no session. -/
theorem sessionsKept {size : UInt32} {m : SessionIds.Manager R}
    (h : Indexed SessionIds.sessionId m.toTable) (hsize : m.objs.size = size.toNat) :
    SessionsKept size m := by
  refine ⟨h, hsize, fun id pos hi => ?_, fun pos hpos o now hdue => ?_⟩
  · rw [releaseSession_eq]
    dsimp only
    rw [release_used h hi]
    exact Finset.notMem_erase pos _
  · rw [checkTimeOut_toTable]
    apply foldl_release_freed h
    intro _
    apply List.mem_map_of_mem
    exact List.mem_filter.mpr ⟨(o.mem _ pos).mpr hpos, decide_eq_true hdue⟩

inductive SessionEvent (R : Type) where
  | create (msgId now : UInt32)
  /-- `GetSession`, and what the caller stores in the session, but for its id. -/
  | store (id : UInt32) (g : SessionIds.Session R → SessionIds.Session R)
      (kept : ∀ x, SessionIds.sessionId (g x) = SessionIds.sessionId x)
  | release (id : UInt32)
  | checkTimeOut (o : Order) (now : UInt32)
  | restart (o o' : Order)

variable [Inhabited R] (c : Codec (SessionIds.PBSession R)) (size : UInt32) (key : Nat)

def SessionStep (m : SessionIds.Manager R) (e : SessionEvent R) (m' : SessionIds.Manager R) : Prop :=
  match e with
  | .create msgId now => m' = (SessionIds.createSession m msgId now).1
  | .store id g _ => m' = { m with toTable := edit m.toTable id g }
  | .release id => m' = SessionIds.releaseSession m id
  | .checkTimeOut o now => m' = SessionIds.checkTimeOut o m now
  | .restart o o' => restart c SessionIds.PBSession.sessionId size key o o' m = some m'

/-- A session is created while there is no slot to take, or an id to find. -/
def SessionSearchable (m : SessionIds.Manager R) : SessionEvent R → Prop
  | .create .. => Searchable m
  | _ => True

/-- A `CreateSession` that fails leaves the manager as it was, unless it has taken a position and then
finds no id. -/
theorem createSession_unchanged_iff (m : SessionIds.Manager R) (msgId now : UInt32) :
    ((SessionIds.createSession m msgId now).2 = none →
      Unchanged m.toTable (SessionIds.createSession m msgId now).1.toTable) ↔ Searchable m := by
  rw [createSession_eq, Option.map_eq_none_iff]
  exact create_unchanged_iff m (fillSession msgId now)

/-- One step: the condition is about creations only. -/
theorem sessionStep_kept_iff {m m' : SessionIds.Manager R} {e : SessionEvent R}
    (h : SessionsKept size m) (hs : SessionStep c size key m e m') :
    SessionsKept size m' ↔ SessionSearchable m e := by
  cases e with
  | create msgId now =>
    obtain rfl := hs
    rw [createSession_eq]
    have hiff := create_indexed_iff h.found (fillSession msgId now) fun _ _ => rfl
    have hsize := (create_size m (fillSession msgId now)).trans h.size
    exact ⟨fun hk => hiff.mp hk.found, fun hg => sessionsKept (hiff.mpr hg) hsize⟩
  | store id g kept =>
    obtain rfl := hs
    exact iff_of_true (sessionsKept (indexed_edit h.found id kept) ((edit_size id g).trans h.size))
      trivial
  | release id =>
    obtain rfl := hs
    rw [releaseSession_eq]
    exact iff_of_true (sessionsKept (indexed_release h.found id) ((release_size id).trans h.size))
      trivial
  | checkTimeOut o now =>
    obtain rfl := hs
    have htable := checkTimeOut_toTable o m now
    refine iff_of_true (sessionsKept ?_ ?_) trivial
    · rw [htable]
      exact foldl_release_indexed h.found _
    · rw [htable]
      exact (foldl_release_size _).trans h.size
  | restart o o' =>
    obtain ⟨hindexed, hsize⟩ :=
      restart_indexed c SessionIds.PBSession.sessionId h.found h.size hs
    exact iff_of_true (sessionsKept hindexed hsize) trivial

end Sessions

/-! ## Timers -/

section Timers

variable {I : Type}

/-- Every used timer is found under its id and nothing else is found, `ReleaseTimer` frees what is
found, and `Tick` frees every timer that has run out. -/
structure TimersKept (size : UInt32) (m : TimerManager I) : Prop where
  found : Indexed (fun x => x.pb.timerId) m.toTable
  size : m.objs.size = size.toNat
  released : ∀ id pos, m.index id = some pos → pos ∉ (releaseTimer m id).objs.used
  expires : ∀ pos ∈ m.objs.used, ∀ (o : Order) (now : UInt64),
    (m.objs.pool pos).pb.timeoutMsec ≤ now → pos ∉ (tick o m now).1.objs.used

theorem foldl_releaseTimer_toTable (m : TimerManager I) (ids : List UInt32) :
    (ids.foldl releaseTimer m).toTable = ids.foldl release m.toTable := by
  induction ids generalizing m with
  | nil => rfl
  | cons id ids ih => exact ih (releaseTimer m id)

/-- An indexed manager loses no timer. -/
theorem timersKept {size : UInt32} {m : TimerManager I}
    (h : Indexed (fun x => x.pb.timerId) m.toTable) (hsize : m.objs.size = size.toNat) :
    TimersKept size m := by
  refine ⟨h, hsize, fun id pos hi => ?_, fun pos hpos o now hdue => ?_⟩
  · simp only [releaseTimer]
    rw [release_used h hi]
    exact Finset.notMem_erase pos _
  · simp only [tick]
    rw [foldl_releaseTimer_toTable]
    apply foldl_release_freed h
    intro _
    refine List.mem_map.mpr ⟨pos, ?_, rfl⟩
    exact List.mem_filter.mpr ⟨(o.mem _ pos).mpr hpos, decide_eq_true hdue⟩

inductive TimerEvent (I : Type) where
  | create (msec : UInt32) (inter : I) (now : UInt64)
  | release (id : UInt32)
  | tick (o : Order) (now : UInt64)
  | restart (o o' : Order)

variable [Inhabited I] (c : Codec (PBTimer I)) (size : UInt32) (key : Nat)

def TimerStep (m : TimerManager I) (e : TimerEvent I) (m' : TimerManager I) : Prop :=
  match e with
  | .create msec inter now => m' = (createTimer m msec inter now).1
  | .release id => m' = releaseTimer m id
  | .tick o now => m' = (tick o m now).1
  | .restart o o' => restart c PBTimer.timerId size key o o' m = some m'

/-- A timer is created while there is no slot to take, or an id to find. -/
def TimerSearchable (m : TimerManager I) : TimerEvent I → Prop
  | .create .. => Searchable m
  | _ => True

/-- The same for a step of the timers. -/
theorem timerStep_kept_iff {m m' : TimerManager I} {e : TimerEvent I} (h : TimersKept size m)
    (hs : TimerStep c size key m e m') : TimersKept size m' ↔ TimerSearchable m e := by
  cases e with
  | create msec inter now =>
    obtain rfl := hs
    have hiff := create_indexed_iff h.found (fillTimer msec inter now) fun _ _ => rfl
    have hsize := (create_size m (fillTimer msec inter now)).trans h.size
    exact ⟨fun hk => hiff.mp hk.found, fun hg => timersKept (hiff.mpr hg) hsize⟩
  | release id =>
    obtain rfl := hs
    exact iff_of_true (timersKept (indexed_release h.found id) ((release_size id).trans h.size))
      trivial
  | tick o now =>
    obtain rfl := hs
    simp only [tick]
    refine iff_of_true (timersKept ?_ ?_) trivial
    · rw [foldl_releaseTimer_toTable]
      exact foldl_release_indexed h.found _
    · rw [foldl_releaseTimer_toTable]
      exact (foldl_release_size _).trans h.size
  | restart o o' =>
    obtain ⟨hindexed, hsize⟩ := restart_indexed c PBTimer.timerId h.found h.size hs
    exact iff_of_true (timersKept hindexed hsize) trivial

end Timers

/-! ## Both managers -/

/-- A failed creation leaves the manager as it was, and no run loses a slot, exactly where no search
for an id gives up on a slot that was taken. -/
theorem creation_kept_iff (size : UInt32) (key : Nat) :
    (∀ (R : Type) [Inhabited R] (c : Codec (SessionIds.PBSession R)),
      (∀ (m : SessionIds.Manager R) (msgId now : UInt32),
        ((SessionIds.createSession m msgId now).2 = none →
          Unchanged m.toTable (SessionIds.createSession m msgId now).1.toTable) ↔ Searchable m) ∧
      ∀ (es : List (SessionEvent R)) (m : SessionIds.Manager R),
        (Trace.Run (SessionStep c size key) (fun m _ => SessionsKept size m) (fresh size) es m ∧
          SessionsKept size m) ↔
        Trace.Run (SessionStep c size key) SessionSearchable (fresh size) es m) ∧
    ∀ (I : Type) [Inhabited I] (c : Codec (PBTimer I)),
      (∀ (m : TimerManager I) (msec : UInt32) (inter : I) (now : UInt64),
        ((createTimer m msec inter now).2 = none →
          Unchanged m.toTable (createTimer m msec inter now).1.toTable) ↔ Searchable m) ∧
      ∀ (es : List (TimerEvent I)) (m : TimerManager I),
        (Trace.Run (TimerStep c size key) (fun m _ => TimersKept size m) (fresh size) es m ∧
          TimersKept size m) ↔
        Trace.Run (TimerStep c size key) TimerSearchable (fresh size) es m := by
  constructor
  · intro R _ c
    refine ⟨createSession_unchanged_iff, fun es m => ?_⟩
    exact Trace.Run.always_iff (fun _ _ _ h hs => sessionStep_kept_iff c size key h hs)
      (sessionsKept (fresh_indexed SessionIds.PBSession.sessionId size) rfl)
  · intro I _ c
    refine ⟨fun m msec inter now => create_unchanged_iff m (fillTimer msec inter now), ?_⟩
    intro es m
    exact Trace.Run.always_iff (fun _ _ _ h hs => timerStep_kept_iff c size key h hs)
      (timersKept (fresh_indexed PBTimer.timerId size) rfl)

/-! ## Ten long timers -/

/-- The timers 1 to `a` stay, all other ids are free, and the counter stands at `k`. -/
structure Long (m : TimerManager Unit) (a k : Nat) : Prop where
  found : Indexed (fun x => x.pb.timerId) m.toTable
  freeList : m.objs.freeList = (List.range (11 - a)).reverse
  index : ∀ id, m.index id = none ↔ id = 0 ∨ a < id.toNat
  counter : m.curMaxId.toNat = k
  size : m.objs.size = 11

theorem counter_mask (id : UInt32) : (id &&& 0xfffffff).toNat = id.toNat % 2 ^ 28 := by
  rw [UInt32.toNat_and]
  exact Nat.and_two_pow_sub_one_eq_mod _ 28

/-- A creation whose first id is free. -/
theorem create_next {m : TimerManager Unit} {pos : Nat} {rest : List Nat}
    (hfree : m.objs.freeList = pos :: rest) (hid : m.index (m.curMaxId + 1) = none)
    (fill : UInt32 → Timer Unit → Timer Unit) :
    ∃ objs, m.objs.malloc = some (pos, objs) ∧ objs.freeList = rest ∧ create m fill =
      (⟨⟨objs.modify pos (fill (m.curMaxId + 1)),
        Function.update m.index (m.curMaxId + 1) (some pos)⟩, (m.curMaxId + 1) &&& 0xfffffff⟩,
        some (m.curMaxId + 1, pos)) := by
  refine ⟨{ m.objs with
    pool := Function.update m.objs.pool pos default
    used := insert pos m.objs.used
    freeList := rest }, ?_, rfl, ?_⟩
  · simp only [ObjectMng.malloc, hfree]
  · simp only [create, ObjectMng.malloc, hfree, HallSvr.SessionManager.nextId, hid, if_true]

theorem Long.next {m : TimerManager Unit} {a k : Nat} (h : Long m a k) (hk : k < 2 ^ 28) :
    (m.curMaxId + 1).toNat = k + 1 := by
  rw [UInt32.toNat_add, h.counter]
  exact Nat.mod_eq_of_lt (by rw [UInt32.toNat_one]; omega)

theorem Long.next_free {m : TimerManager Unit} {a k : Nat} (h : Long m a k) (hk : k < 2 ^ 28)
    (ha : a ≤ k) : m.index (m.curMaxId + 1) = none := by
  rw [h.index, h.next hk]
  omega

/-- One long timer more. -/
theorem Long.grow {m : TimerManager Unit} {a : Nat} (h : Long m a a) (ha : a < 10) :
    Long (createTimer m 1000 () 0).1 (a + 1) (a + 1) := by
  have hnext := h.next (by omega)
  have hid := h.next_free (by omega) (Nat.le_refl a)
  have hfree : m.objs.freeList = (10 - a) :: (List.range (11 - (a + 1))).reverse := by
    have hsub : 11 - a = 11 - (a + 1) + 1 := by omega
    have hpos : 11 - (a + 1) = 10 - a := by omega
    rw [h.freeList, hsub, List.range_succ, List.reverse_append, hpos]
    rfl
  obtain ⟨objs, hm, hrest, heq⟩ := create_next hfree hid (fillTimer 1000 () 0)
  have hsize := (create_size m (fillTimer 1000 () 0)).trans h.size
  rw [createTimer]
  rw [heq] at hsize ⊢
  refine ⟨indexed_make h.found hm hid fun _ => rfl, hrest, fun id => ?_, ?_, hsize⟩
  · change Function.update m.index (m.curMaxId + 1) (some (10 - a)) id = none ↔ _
    by_cases he : id = m.curMaxId + 1
    · rw [he, Function.update_self]
      refine iff_of_false (Option.some_ne_none _) ?_
      rintro (hz | hlt)
      · rw [hz] at hnext
        cases hnext
      · omega
    · have hne : id.toNat ≠ a + 1 := fun hn => he (UInt32.toNat_inj.mp (hn.trans hnext.symm))
      rw [Function.update_of_ne he, h.index]
      exact or_congr_right (by omega)
  · change ((m.curMaxId + 1) &&& 0xfffffff).toNat = a + 1
    rw [counter_mask, hnext]
    omega

/-- A short timer is created and released, and the counter goes on. -/
theorem Long.cycle {m : TimerManager Unit} {k : Nat} (h : Long m 10 k) (h10 : 10 ≤ k)
    (hk : k < 2 ^ 28) :
    Long (releaseTimer (createTimer m 1000 () 0).1 (m.curMaxId + 1)) 10 ((k + 1) % 2 ^ 28) := by
  have hid := h.next_free hk h10
  obtain ⟨objs, hm, hrest, heq⟩ := create_next h.freeList hid (fillTimer 1000 () 0)
  have hsize := (create_size m (fillTimer 1000 () 0)).trans h.size
  rw [createTimer]
  rw [heq] at hsize ⊢
  have hmade := indexed_make (g := fillTimer 1000 () 0 (m.curMaxId + 1)) h.found hm hid
    fun _ => rfl
  have hlead : Function.update m.index (m.curMaxId + 1) (some 0) (m.curMaxId + 1) = some 0 :=
    Function.update_self ..
  have hobjs := release_used hmade hlead
  refine ⟨indexed_release hmade _, ?_, fun id => ?_, ?_, (release_size _).trans hsize⟩
  · simp only [releaseTimer]
    rw [hobjs]
    exact congrArg (List.cons 0) hrest
  · have hindex : (release ⟨objs.modify 0 (fillTimer 1000 () 0 (m.curMaxId + 1)),
        Function.update m.index (m.curMaxId + 1) (some 0)⟩ (m.curMaxId + 1)).index = m.index := by
      rw [release_index, Function.update_idem, ← hid, Function.update_eq_self]
    simp only [releaseTimer]
    rw [hindex]
    exact h.index id
  · change ((m.curMaxId + 1) &&& 0xfffffff).toNat = (k + 1) % 2 ^ 28
    rw [counter_mask, h.next hk]

abbrev ElevenTimers : TimerManager Unit → TimerEvent Unit → TimerManager Unit → Prop :=
  TimerStep sampleTimerCodec 11 77

/-- The first timers are set one after another. -/
theorem long_grown (a : Nat) (ha : a ≤ 10) :
    ∃ es m, Trace.Run ElevenTimers (fun _ _ => True) (fresh 11) es m ∧ Long m a a := by
  induction a with
  | zero =>
    refine ⟨[], fresh 11, .nil _, fresh_indexed PBTimer.timerId 11, rfl, fun id => ?_, rfl, rfl⟩
    refine iff_of_true rfl ?_
    rw [← UInt32.toNat_inj]
    exact Nat.eq_zero_or_pos _
  | succ a ih =>
    obtain ⟨es, m, hrun, hlong⟩ := ih (by omega)
    have hcreate : ElevenTimers m (.create 1000 () 0) (createTimer m 1000 () 0).1 := rfl
    exact ⟨es ++ [.create 1000 () 0], _, hrun.append (.cons trivial hcreate (.nil _)),
      hlong.grow (by omega)⟩

/-- The counter goes round when the last timer is set and released again and again. -/
theorem long_cycled {m : TimerManager Unit} (h : Long m 10 10) (n : Nat) (hn : n ≤ 2 ^ 28 - 10) :
    ∃ es m', Trace.Run ElevenTimers (fun _ _ => True) m es m' ∧ Long m' 10 ((10 + n) % 2 ^ 28) := by
  induction n with
  | zero => exact ⟨[], m, .nil _, h⟩
  | succ n ih =>
    obtain ⟨es, m', hrun, hlong⟩ := ih (by omega)
    rw [Nat.mod_eq_of_lt (by omega)] at hlong
    have hcreate : ElevenTimers m' (.create 1000 () 0) (createTimer m' 1000 () 0).1 := rfl
    have hrelease : ElevenTimers (createTimer m' 1000 () 0).1 (.release (m'.curMaxId + 1))
        (releaseTimer (createTimer m' 1000 () 0).1 (m'.curMaxId + 1)) := rfl
    exact ⟨es ++ [.create 1000 () 0, .release (m'.curMaxId + 1)], _,
      hrun.append (.cons trivial hcreate (.cons trivial hrelease (.nil _))),
      hlong.cycle (by omega) (by omega)⟩

/-- Then the next ten ids are in use. -/
theorem Long.not_searchable {m : TimerManager Unit} (h : Long m 10 0) : ¬ Searchable m := by
  rintro (hnil | ⟨k, hk, hnone⟩)
  · rw [h.freeList] at hnil
    cases hnil
  · have hid : (m.curMaxId + 1 + UInt32.ofNat k).toNat = 1 + k := by
      have hsize : UInt32.size = 2 ^ 32 := rfl
      rw [UInt32.toNat_add, h.next (by omega), UInt32.toNat_ofNat_of_lt' (by omega)]
      omega
    obtain hz | hlt := (h.index _).mp hnone
    · rw [hz] at hid
      have hzero : (0 : UInt32).toNat = 0 := rfl
      omega
    · omega

/-- Ten timers outlive the counter, which starts over and finds their ids only. -/
theorem long_timers_lose_slot :
    ∃ es m, Trace.Run ElevenTimers (fun _ _ => True) (fresh 11) es m ∧ TimersKept 11 m ∧
      (createTimer m 1000 () 0).2 = none ∧
      ¬ Unchanged m.toTable (createTimer m 1000 () 0).1.toTable ∧
      ¬ TimersKept 11 (createTimer m 1000 () 0).1 := by
  obtain ⟨es, m, hrun, hlong⟩ := long_grown 10 (Nat.le_refl 10)
  obtain ⟨es', m', hrun', hlong'⟩ := long_cycled hlong (2 ^ 28 - 10) (Nat.le_refl _)
  have hno := hlong'.not_searchable
  have hkept : TimersKept 11 m' := timersKept hlong'.found hlong'.size
  have hlost := (create_unchanged_iff m' (fillTimer 1000 () 0)).not.mpr hno
  obtain ⟨hfail, hchanged⟩ := Classical.not_imp.mp hlost
  refine ⟨es ++ es', m', hrun.append hrun', hkept, hfail, hchanged, fun h => hno ?_⟩
  exact (@timerStep_kept_iff _ _ sampleTimerCodec 11 77 _ _ (.create 1000 () 0) hkept rfl).mp h

end Managers
