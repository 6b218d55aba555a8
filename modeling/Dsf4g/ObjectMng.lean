import Mathlib.Data.Finset.Basic
import Mathlib.Data.List.Nodup
import Dsf4g.Base

/-!
# Object pools and their indices

`include/object_mng.hpp`, `src/common/player_mng.cpp` and
`src/common/session_mng.cpp`. A pool hands out positions from a free list; the
managers keep a map from ids to positions beside it.
-/

structure ObjectMng (α : Type) where
  size : Nat
  pool : Nat → α
  used : Finset Nat
  freeList : List Nat

namespace ObjectMng

variable {α : Type}

/-- The pool of a process that found no shared memory. -/
def init [Inhabited α] (size : Nat) : ObjectMng α := ⟨size, fun _ => default, ∅, (List.range size).reverse⟩

def malloc [Inhabited α] (m : ObjectMng α) : Option (Nat × ObjectMng α) :=
  match m.freeList with
  | [] => none
  | pos :: rest =>
    some (pos, { m with
      pool := Function.update m.pool pos default
      used := insert pos m.used
      freeList := rest })

def free (m : ObjectMng α) (pos : Nat) : ObjectMng α :=
  if pos ≥ m.size then m
  else { m with freeList := pos :: m.freeList, used := m.used.erase pos }

def get (m : ObjectMng α) (pos : Nat) : Option α :=
  if pos ≥ m.size then none else some (m.pool pos)

def modify (m : ObjectMng α) (pos : Nat) (g : α → α) : ObjectMng α :=
  { m with pool := Function.update m.pool pos (g (m.pool pos)) }

/-- The free list and the used set split the positions. -/
structure Valid (m : ObjectMng α) : Prop where
  nodup : m.freeList.Nodup
  inRange : ∀ pos, pos ∈ m.freeList ∨ pos ∈ m.used ↔ pos < m.size
  apart : ∀ pos ∈ m.freeList, pos ∉ m.used

theorem init_valid [Inhabited α] (size : Nat) : (init size : ObjectMng α).Valid := by
  refine ⟨List.nodup_reverse.mpr List.nodup_range, fun pos => ?_, fun pos _ => ?_⟩
  · simp [init]
  · simp [init]

/-- `Malloc` takes the head of the free list. -/
theorem malloc_eq_some [Inhabited α] {m m' : ObjectMng α} {pos : Nat} (h : m.malloc = some (pos, m')) :
    m.freeList = pos :: m'.freeList ∧
      m' = { m with
        pool := Function.update m.pool pos default
        used := insert pos m.used
        freeList := m'.freeList } := by
  unfold malloc at h
  split at h
  · cases h
  · next hf =>
    cases h
    exact ⟨hf, rfl⟩

/-- The position it takes was not in use. -/
theorem Valid.malloc [Inhabited α] {m m' : ObjectMng α} {pos : Nat} (hv : m.Valid)
    (h : m.malloc = some (pos, m')) : m'.Valid ∧ pos < m.size ∧ pos ∉ m.used := by
  obtain ⟨hf, heq⟩ := malloc_eq_some h
  have hn := hv.nodup
  rw [hf, List.nodup_cons] at hn
  have hmem : pos ∈ m.freeList := by
    rw [hf]
    exact List.mem_cons_self ..
  refine ⟨⟨hn.2, fun i => ?_, fun i hi => ?_⟩, (hv.inRange pos).mp (.inl hmem), hv.apart pos hmem⟩
  · have hr := hv.inRange i
    rw [hf, List.mem_cons] at hr
    rw [heq]
    simp only [Finset.mem_insert]
    rw [← hr]
    tauto
  · rw [heq]
    simp only [Finset.mem_insert, not_or]
    refine ⟨fun he => hn.1 (he ▸ hi), hv.apart i ?_⟩
    rw [hf]
    exact List.mem_cons_of_mem _ hi

/-- A used position can be freed. -/
theorem Valid.free {m : ObjectMng α} (hv : m.Valid) {pos : Nat} (h : pos ∈ m.used) :
    (m.free pos).Valid := by
  have hlt : pos < m.size := (hv.inRange pos).mp (.inr h)
  unfold ObjectMng.free
  rw [if_neg (Nat.not_le.mpr hlt)]
  refine ⟨List.nodup_cons.mpr ⟨fun hf => hv.apart pos hf h, hv.nodup⟩, fun i => ?_, fun i hi => ?_⟩
  · have hr := hv.inRange i
    simp only [List.mem_cons, Finset.mem_erase]
    rw [← hr]
    by_cases hi : i = pos
    · subst hi
      simp [h]
    · simp [hi]
  · simp only [Finset.mem_erase, not_and]
    intro hne
    exact hv.apart i ((List.mem_cons.mp hi).resolve_left hne)

theorem Valid.modify {m : ObjectMng α} (hv : m.Valid) (pos : Nat) (g : α → α) :
    (m.modify pos g).Valid :=
  ⟨hv.nodup, hv.inRange, hv.apart⟩

/-! ### A view of the objects -/

variable {β : Type} (f : α → β)

/-- The pool as somebody sees it who looks at the objects through `f`. -/
def map (m : ObjectMng α) : ObjectMng β := ⟨m.size, fun pos => f (m.pool pos), m.used, m.freeList⟩

/-- `Malloc` is the same for everybody who looks. -/
theorem map_malloc [Inhabited α] [Inhabited β] (hf : f default = default) (m : ObjectMng α) :
    (m.map f).malloc = m.malloc.map fun r => (r.1, r.2.map f) := by
  unfold malloc
  cases hfree : m.freeList with
  | nil => simp only [map, hfree, Option.map_none]
  | cons pos rest =>
    simp only [map, hfree, Option.map_some]
    congr
    funext i
    simp only [Function.update_apply]
    split
    · exact hf.symm
    · rfl

theorem map_free (m : ObjectMng α) (pos : Nat) : (m.map f).free pos = (m.free pos).map f := by
  unfold free map
  split <;> rfl

theorem map_get (m : ObjectMng α) (pos : Nat) : (m.map f).get pos = (m.get pos).map f := by
  unfold get map
  split <;> rfl

theorem map_modify {g : α → α} {g' : β → β} (h : ∀ x, f (g x) = g' (f x)) (m : ObjectMng α)
    (pos : Nat) : (m.map f).modify pos g' = (m.modify pos g).map f := by
  unfold modify map
  congr
  funext i
  simp only [Function.update_apply]
  split
  · exact (h _).symm
  · rfl

end ObjectMng

/-! ## Players -/

namespace HallSvr

open Base

instance : Inhabited TcpHead := ⟨⟨0, 0, 0, [], 0, false⟩⟩

structure Player where
  uid : UInt64
  tcpHead : TcpHead
  deriving Inhabited, DecidableEq, Repr

structure PlayerManager where
  objs : ObjectMng Player
  index : UInt64 → Option Nat

namespace PlayerManager

def init (size : Nat) : PlayerManager := ⟨.init size, fun _ => none⟩

def createPlayer (m : PlayerManager) (uid : UInt64) : Option (Nat × PlayerManager) :=
  match m.objs.malloc with
  | none => none
  | some (pos, objs) =>
    some (pos, ⟨objs.modify pos fun p => { p with uid := uid },
      Function.update m.index uid (some pos)⟩)

def getPlayer (m : PlayerManager) (uid : UInt64) : Option Player :=
  match m.index uid with
  | none => none
  | some pos => m.objs.get pos

def releasePlayer (m : PlayerManager) (uid : UInt64) : PlayerManager :=
  match m.index uid with
  | none => m
  | some pos => ⟨m.objs.free pos, Function.update m.index uid none⟩

def setTcpHead (m : PlayerManager) (pos : Nat) (head : TcpHead) : PlayerManager :=
  { m with objs := m.objs.modify pos fun p => { p with tcpHead := head } }

/-- Every indexed position is in use and holds the player it is indexed by. -/
structure Valid (m : PlayerManager) : Prop where
  objs : m.objs.Valid
  indexed : ∀ uid pos, m.index uid = some pos → pos ∈ m.objs.used ∧ (m.objs.pool pos).uid = uid

theorem init_valid (size : Nat) : (init size).Valid :=
  ⟨ObjectMng.init_valid size, fun _ _ h => (nomatch h)⟩

variable {m : PlayerManager}

theorem Valid.get_index (hv : m.Valid) {uid : UInt64} {pos : Nat} (h : m.index uid = some pos) :
    m.getPlayer uid = some (m.objs.pool pos) := by
  have hlt := (hv.objs.inRange pos).mp (.inr (hv.indexed uid pos h).1)
  unfold getPlayer ObjectMng.get
  rw [h]
  simp only [if_neg (Nat.not_le.mpr hlt)]

/-- What is found under a uid has it. -/
theorem Valid.uid_eq (hv : m.Valid) {uid : UInt64} {p : Player} (h : m.getPlayer uid = some p) :
    p.uid = uid := by
  cases hi : m.index uid with
  | none =>
    rw [getPlayer, hi] at h
    cases h
  | some pos =>
    rw [hv.get_index hi] at h
    cases h
    exact (hv.indexed uid pos hi).2

theorem Valid.release (hv : m.Valid) (uid : UInt64) : (m.releasePlayer uid).Valid := by
  unfold releasePlayer
  split
  · exact hv
  · next pos hi =>
    have hp := hv.indexed uid pos hi
    have hlt := (hv.objs.inRange pos).mp (.inr hp.1)
    refine ⟨hv.objs.free hp.1, fun v q hq => ?_⟩
    by_cases hvu : v = uid
    · subst hvu
      simp at hq
    · simp only [Function.update_of_ne hvu] at hq
      have hq' := hv.indexed v q hq
      -- two uids never share a position, since the player there has one uid
      have hne : q ≠ pos := fun he => hvu (by rw [← hq'.2, he, hp.2])
      simp only [ObjectMng.free, if_neg (Nat.not_le.mpr hlt), Finset.mem_erase]
      exact ⟨⟨hne, hq'.1⟩, hq'.2⟩

/-- Only the released player is not found any more. -/
theorem Valid.get_release (hv : m.Valid) (uid v : UInt64) :
    (m.releasePlayer uid).getPlayer v = if v = uid then none else m.getPlayer v := by
  unfold releasePlayer
  split
  · next hi =>
    split
    · next hvu =>
      rw [hvu, getPlayer, hi]
    · rfl
  · next pos hi =>
    have hlt := (hv.objs.inRange pos).mp (.inr (hv.indexed uid pos hi).1)
    by_cases hvu : v = uid
    · subst hvu
      simp [getPlayer]
    · simp only [getPlayer, Function.update_of_ne hvu, if_neg hvu, ObjectMng.free,
        if_neg (Nat.not_le.mpr hlt), ObjectMng.get]

/-- A player that is released leaves a position to the next one. -/
theorem Valid.create_release (hv : m.Valid) {uid : UInt64} (h : (m.getPlayer uid).isSome = true) :
    ((m.releasePlayer uid).createPlayer uid).isSome = true := by
  cases hi : m.index uid with
  | none =>
    rw [getPlayer, hi] at h
    cases h
  | some pos =>
    have hlt := (hv.objs.inRange pos).mp (.inr (hv.indexed uid pos hi).1)
    simp only [releasePlayer, hi, ObjectMng.free, if_neg (Nat.not_le.mpr hlt), createPlayer,
      ObjectMng.malloc, Option.isSome_some]

/-- What `CreatePlayer` and `SetTcpHead` leave. -/
theorem create_eq {uid : UInt64} {pos : Nat} {m' : PlayerManager}
    (h : m.createPlayer uid = some (pos, m')) (head : TcpHead) :
    ∃ objs, m.objs.malloc = some (pos, objs) ∧
      (m'.setTcpHead pos head).index = Function.update m.index uid (some pos) ∧
      (m'.setTcpHead pos head).objs =
        { objs with pool := Function.update m.objs.pool pos ⟨uid, head⟩ } := by
  unfold createPlayer at h
  split at h
  · cases h
  · next objs hm =>
    cases h
    refine ⟨objs, hm, rfl, ?_⟩
    have hpool : objs.pool = Function.update m.objs.pool pos default := by
      rw [(ObjectMng.malloc_eq_some hm).2]
    simp only [setTcpHead, ObjectMng.modify, Function.update_self, Function.update_idem, hpool]

theorem Valid.create (hv : m.Valid) {uid : UInt64} {pos : Nat} {m' : PlayerManager}
    (h : m.createPlayer uid = some (pos, m')) (head : TcpHead) :
    (m'.setTcpHead pos head).Valid := by
  obtain ⟨objs, hm, hindex, hobjs⟩ := create_eq h head
  obtain ⟨hvalid, -, hunused⟩ := hv.objs.malloc hm
  have hused : objs.used = insert pos m.objs.used := by
    rw [(ObjectMng.malloc_eq_some hm).2]
  constructor
  · rw [hobjs]
    exact ⟨hvalid.nodup, hvalid.inRange, hvalid.apart⟩
  · intro v q hq
    rw [hobjs]
    rw [hindex] at hq
    simp only [hused, Finset.mem_insert]
    by_cases hvu : v = uid
    · subst hvu
      rw [Function.update_self] at hq
      cases hq
      exact ⟨.inl rfl, by rw [Function.update_self]⟩
    · rw [Function.update_of_ne hvu] at hq
      have hq' := hv.indexed v q hq
      have hne : q ≠ pos := fun he => hunused (he ▸ hq'.1)
      exact ⟨.inr hq'.1, by rw [Function.update_of_ne hne]; exact hq'.2⟩

/-- A new player is found under its uid, and the others as before. -/
theorem Valid.get_create (hv : m.Valid) {uid : UInt64} {pos : Nat} {m' : PlayerManager}
    (h : m.createPlayer uid = some (pos, m')) (head : TcpHead) (v : UInt64) :
    (m'.setTcpHead pos head).getPlayer v =
      if v = uid then some ⟨uid, head⟩ else m.getPlayer v := by
  have hv' := hv.create h head
  obtain ⟨objs, hm, hindex, hobjs⟩ := create_eq h head
  obtain ⟨-, -, hunused⟩ := hv.objs.malloc hm
  by_cases hvu : v = uid
  · subst hvu
    have hi : (m'.setTcpHead pos head).index v = some pos := by
      rw [hindex, Function.update_self]
    rw [hv'.get_index hi, if_pos rfl, hobjs]
    simp only [Function.update_self]
  · rw [if_neg hvu]
    have hsame : (m'.setTcpHead pos head).index v = m.index v := by
      rw [hindex, Function.update_of_ne hvu]
    cases hi : m.index v with
    | none => rw [getPlayer, hsame, hi, getPlayer, hi]
    | some q =>
      have hne : q ≠ pos := fun he => hunused (he ▸ (hv.indexed v q hi).1)
      rw [hv'.get_index (hsame.trans hi), hv.get_index hi, hobjs]
      simp only [Function.update_of_ne hne]

end PlayerManager

/-! ## Sessions -/

/-- The fields of `Session` that the client side of a server uses. -/
structure Session where
  sessionId : UInt32
  msgId : UInt32
  uid : UInt32
  tcpHead : TcpHead
  deriving Inhabited, DecidableEq, Repr

structure SessionManager where
  objs : ObjectMng Session
  index : UInt32 → Option Nat
  curMaxId : UInt32

namespace SessionManager

def init (size : Nat) : SessionManager := ⟨.init size, fun _ => none, 0⟩

/-- The search for an unused id: after ten used ones it gives up. -/
def nextId (index : UInt32 → Option Nat) : Nat → UInt32 → Option UInt32 × UInt32
  | 0, cur => (none, cur)
  | n + 1, cur =>
    if index (cur + 1) = none then (some (cur + 1), cur + 1) else nextId index n (cur + 1)

/-- What `CreateSession` leaves, and the position of the new session. -/
structure Created where
  mng : SessionManager
  pos : Option Nat

/-- `CreateSession`. A position taken before the search for an id fails stays taken. -/
def createSession (m : SessionManager) (msgId : UInt32) : Created :=
  match m.objs.malloc with
  | none => ⟨m, none⟩
  | some (pos, objs) =>
    match nextId m.index 10 m.curMaxId with
    | (none, cur) => ⟨{ m with objs := objs, curMaxId := cur }, none⟩
    | (some id, cur) =>
      ⟨{ objs := objs.modify pos fun s => { s with sessionId := id, msgId := msgId }
         index := Function.update m.index id (some pos)
         curMaxId := cur &&& 0xfffffff }, some pos⟩

def getSession (m : SessionManager) (id : UInt32) : Option Session :=
  match m.index id with
  | none => none
  | some pos => m.objs.get pos

def releaseSession (m : SessionManager) (id : UInt32) : SessionManager :=
  match m.index id with
  | none => m
  | some pos => { m with objs := m.objs.free pos, index := Function.update m.index id none }

end SessionManager

end HallSvr
