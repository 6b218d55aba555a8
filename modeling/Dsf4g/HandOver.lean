import Mathlib.Algebra.GroupWithZero.Nat
import Mathlib.Data.Finset.Sort
import Dsf4g.Lib.Cursor
import Dsf4g.ObjectMng

/-!
# Managers handed over through shared memory

`include/object_mng.hpp`, `include/serialize.hpp`, `include/share_mem.hpp` and the
`Init` functions of the three managers. An object is a protobuf base with the
bytes of a head behind it; what protobuf does with the base is a parameter.
-/
namespace HandOver

open Base

/-! ## Segments -/

/-- The System V segments, by key: the bytes of each. -/
abbrev Segments := Nat → Option (List UInt8)

namespace ShareMem

/-- `Create`: `shmget` with `IPC_CREAT`. A segment that exists is kept when it is large enough. -/
def create (s : Segments) (key size : Nat) : Segments × Bool :=
  match s key with
  | none => (Function.update s key (some (List.replicate size 0)), true)
  | some bytes => (s, decide (size ≤ bytes.length))

def isExist (s : Segments) (key : Nat) : Bool := (s key).isSome

/-- `Delete`. When `shmctl` has removed the segment it returns zero, and the function false. -/
def delete (s : Segments) (key : Nat) : Segments × Bool := (Function.update s key none, false)

/-- The bytes the process sees when it has attached. The key zero never counts as attached. -/
def attach (s : Segments) (key : Nat) : Option (List UInt8) := if key = 0 then none else s key

end ShareMem

/-! ## Objects -/

/-- `ByteSize`, `SerializeWithCachedSizesToArray` and `ParseFromArray` of a generated class. -/
structure Codec (P : Type) where
  ser : P → List UInt8
  parse : List UInt8 → Option P
  parse_ser : ∀ p, parse (ser p) = some p
  /-- `ByteSize` is an `int`. -/
  ser_lt : ∀ p, (ser p).length < 2 ^ 31

structure Stored (P : Type) (n : Nat) where
  pb : P
  head : { bs : List UInt8 // bs.length = n }

instance {P : Type} [Inhabited P] {n : Nat} : Inhabited (Stored P n) :=
  ⟨⟨default, List.replicate n 0, List.length_replicate⟩⟩

abbrev Player (P : Type) := Stored P tcpHeadLen

/-- `Session`, with its `uMsgHead`, which is as large as either head. -/
abbrev Session (P : Type) := Stored P tcpHeadLen

/-- `Timer`. It has no head, so storing its head stores nothing. -/
abbrev Timer (P : Type) := Stored P 0

section Objects

variable {P : Type} {n : Nat} (c : Codec P)

def serializePB (buf : List UInt8) (offset : Nat) (p : P) : Option (List UInt8 × Nat) :=
  (Cursor.put buf offset (Bytes.le 8 (c.ser p).length)).bind fun r => Cursor.put r.1 r.2 (c.ser p)

def unSerializePB (buf : List UInt8) (offset : Nat) : Option (P × Nat) :=
  (Cursor.get buf offset 8).bind fun r =>
    (Cursor.get buf r.2 (Bytes.ofLe r.1)).bind fun r => (c.parse r.1).map fun p => (p, r.2)

def Stored.getByteSize (x : Stored P n) : Nat := 8 + (c.ser x.pb).length + n

def Stored.serialize (x : Stored P n) (buf : List UInt8) (offset : Nat) :
    Option (List UInt8 × Nat) :=
  (serializePB c buf offset x.pb).bind fun r => Cursor.put r.1 r.2 x.head.val

def Stored.unSerialize (n : Nat) (buf : List UInt8) (offset : Nat) : Option (Stored P n × Nat) :=
  (unSerializePB c buf offset).bind fun r =>
    (Cursor.get buf r.2 n).bind fun h =>
      if hn : h.1.length = n then some (⟨r.1, h.1, hn⟩, h.2) else none

def Stored.image (x : Stored P n) : List UInt8 :=
  Bytes.le 8 (c.ser x.pb).length ++ (c.ser x.pb ++ x.head.val)

/-! ## `ObjectMng` -/

structure Order where
  list : Finset Nat → List Nat
  nodup : ∀ s, (list s).Nodup
  mem : ∀ s pos, pos ∈ list s ↔ pos ∈ s

def serializeAll (pool : Nat → Stored P n) : List Nat → List UInt8 → Nat → Option (List UInt8 × Nat)
  | [], buf, offset => some (buf, offset)
  | pos :: rest, buf, offset =>
    ((pool pos).serialize c buf offset).bind fun r => serializeAll pool rest r.1 r.2

/-- What `Release` leaves and returns, with its local `byte_size` and `offset`. -/
structure Released where
  segments : Segments
  ok : Bool
  byteSize : Nat
  offset : Nat

/-- `Release` once no segment is in the way. What a failed call leaves in the segment is not
recorded. -/
def store (o : Order) (m : ObjectMng (Stored P n)) (key : Nat) (s : Segments) : Released :=
  let order := o.list m.used
  let byteSize := 4 + (order.map fun pos => (m.pool pos).getByteSize c).sum
  let created := ShareMem.create s key byteSize
  if created.2 then
    match ShareMem.attach created.1 key with
    | none => ⟨created.1, false, byteSize, 0⟩
    | some buf =>
      match (Cursor.put buf 0 (Bytes.le 4 m.used.card)).bind fun r =>
          serializeAll c m.pool order r.1 r.2 with
      | none => ⟨created.1, false, byteSize, 0⟩
      | some (buf, offset) => ⟨Function.update created.1 key (some buf), true, byteSize, offset⟩
  else ⟨created.1, false, byteSize, 0⟩

def release (o : Order) (m : ObjectMng (Stored P n)) (key : Nat) (s : Segments) : Released :=
  if ShareMem.isExist s key then
    let d := ShareMem.delete s key
    if d.2 then store c o m key d.1 else ⟨d.1, false, 0, 0⟩
  else store c o m key s

variable [Inhabited P]

def restore (buf : List UInt8) :
    Nat → ObjectMng (Stored P n) → Nat → Option (ObjectMng (Stored P n) × Nat)
  | 0, m, offset => some (m, offset)
  | k + 1, m, offset =>
    m.malloc.bind fun r =>
      (Stored.unSerialize c n buf offset).bind fun x =>
        restore buf k (r.2.modify r.1 fun _ => x.1) x.2

/-- `ObjectMng::Init`, with the manager when it returns true. -/
def init (size : UInt32) (key : Nat) (s : Segments) : Segments × Option (ObjectMng (Stored P n)) :=
  let m := ObjectMng.init size.toNat
  match ShareMem.attach s key with
  | none => (s, some m)
  | some buf =>
    match (Cursor.get buf 0 4).bind fun r => restore c buf (min size.toNat (Bytes.ofLe r.1)) m r.2 with
    | none => (s, none)
    | some (m, _) => ((ShareMem.delete s key).1, some m)

end Objects

/-! ## The managers -/

/-- A manager: its objects and the map from ids to positions. -/
structure Table (α Id : Type) where
  objs : ObjectMng α
  index : Id → Option Nat

def Table.get {α Id : Type} (t : Table α Id) (id : Id) : Option α :=
  (t.index id).bind t.objs.get

/-- A manager that hands out its ids from a counter. -/
structure IdTable (α : Type) extends Table α UInt32 where
  curMaxId : UInt32

section Managers

variable {α Id : Type} [DecidableEq Id]

def rebuild (idOf : α → Id) (o : Order) (objs : ObjectMng α) : Id → Option Nat :=
  (o.list objs.used).foldl
    (fun index pos => Function.update index (idOf (objs.pool pos)) (some pos)) fun _ => none

def rebuildMax (idOf : α → UInt32) (o : Order) (objs : ObjectMng α) : UInt32 :=
  (o.list objs.used).foldl
    (fun cur pos => if idOf (objs.pool pos) > cur then idOf (objs.pool pos) else cur) 0

variable {P : Type} [Inhabited P] {n : Nat} (c : Codec P)

def initIds (idOf : P → UInt32) (o : Order) (size : UInt32) (key : Nat) (s : Segments) :
    Segments × Option (IdTable (Stored P n)) :=
  let r := init c size key s
  (r.1, r.2.map fun objs =>
    { objs := objs
      index := rebuild (fun x => idOf x.pb) o objs
      curMaxId := rebuildMax (fun x => idOf x.pb) o objs })

def PlayerManager.init (uid : P → UInt64) (o : Order) (size : UInt32) (key : Nat) (s : Segments) :
    Segments × Option (Table (Player P) UInt64) :=
  let r := HandOver.init c size key s
  (r.1, r.2.map fun objs => ⟨objs, rebuild (fun x => uid x.pb) o objs⟩)

def SessionManager.init (sessionId : P → UInt32) (o : Order) (size : UInt32) (key : Nat)
    (s : Segments) : Segments × Option (IdTable (Session P)) :=
  initIds c sessionId o size key s

def TimerManager.init (timerId : P → UInt32) (o : Order) (size : UInt32) (key : Nat)
    (s : Segments) : Segments × Option (IdTable (Timer P)) :=
  initIds c timerId o size key s

end Managers

/-! ## Storing the objects -/

section Storing

variable {P : Type} {n : Nat} (c : Codec P)

/-- `GetByteSize` is the number of bytes in the segment. -/
theorem image_length (x : Stored P n) : (x.image c).length = x.getByteSize c := by
  simp only [Stored.image, Stored.getByteSize, List.length_append, Bytes.le_length, x.head.property]
  omega

/-- An object is stored behind those before it. -/
theorem serialize_behind (x : Stored P n) {done rest : List UInt8}
    (h : (x.image c).length ≤ rest.length) :
    x.serialize c (done ++ rest) done.length =
      some (done ++ x.image c ++ rest.drop (x.image c).length, (done ++ x.image c).length) := by
  have hlen : (x.image c).length = 8 + ((c.ser x.pb).length + n) := by
    simp only [Stored.image, List.length_append, Bytes.le_length, x.head.property]
  simp only [Stored.serialize, serializePB]
  rw [Cursor.put_behind _ _ _ (by rw [Bytes.le_length]; omega), Option.bind_some,
    Cursor.put_behind _ _ _ (by rw [List.length_drop, Bytes.le_length]; omega), Option.bind_some,
    Cursor.put_behind _ _ _ (by
      rw [List.length_drop, List.length_drop, Bytes.le_length, x.head.property]
      omega)]
  simp only [Stored.image, List.append_assoc, List.drop_drop, List.length_append, Nat.add_assoc]

/-- All objects are stored back to back, in the order of the set. -/
theorem serializeAll_behind (pool : Nat → Stored P n) (order : List Nat) (done rest : List UInt8)
    (h : (order.flatMap fun pos => (pool pos).image c).length ≤ rest.length) :
    serializeAll c pool order (done ++ rest) done.length =
      some (done ++ (order.flatMap fun pos => (pool pos).image c) ++
          rest.drop (order.flatMap fun pos => (pool pos).image c).length,
        (done ++ order.flatMap fun pos => (pool pos).image c).length) := by
  induction order generalizing done rest with
  | nil => simp [serializeAll]
  | cons pos order ih =>
    simp only [List.flatMap_cons, List.length_append] at h ⊢
    rw [serializeAll, serialize_behind c _ (by omega), Option.bind_some]
    rw [ih _ _ (by rw [List.length_drop]; omega)]
    simp only [List.append_assoc, List.drop_drop, List.length_append]

theorem flatMap_image_length (pool : Nat → Stored P n) (order : List Nat) :
    (order.flatMap fun pos => (pool pos).image c).length =
      (order.map fun pos => (pool pos).getByteSize c).sum := by
  induction order with
  | nil => rfl
  | cons pos order ih =>
    rw [List.flatMap_cons, List.length_append, ih, image_length, List.map_cons, List.sum_cons]

def segmentOf (o : Order) (m : ObjectMng (Stored P n)) : List UInt8 :=
  Bytes.le 4 m.used.card ++ (o.list m.used).flatMap fun pos => (m.pool pos).image c

/-- The size that `Release` computes is filled exactly. -/
theorem store_eq (o : Order) (m : ObjectMng (Stored P n)) {key : Nat} (hkey : key ≠ 0)
    {s : Segments} (hs : s key = none) :
    store c o m key s = ⟨Function.update s key (some (segmentOf c o m)), true,
      (segmentOf c o m).length, (segmentOf c o m).length⟩ := by
  have hsum := flatMap_image_length c m.pool (o.list m.used)
  have hlen : (segmentOf c o m).length =
      4 + ((o.list m.used).map fun pos => (m.pool pos).getByteSize c).sum := by
    rw [segmentOf, List.length_append, Bytes.le_length, hsum]
  have hzero : (List.replicate (segmentOf c o m).length (0 : UInt8)).length =
      (segmentOf c o m).length := List.length_replicate
  have hput := Cursor.put_behind [] (List.replicate (segmentOf c o m).length (0 : UInt8))
    (Bytes.le 4 m.used.card) (by
      rw [hzero, Bytes.le_length, hlen]
      omega)
  have hall := serializeAll_behind c m.pool (o.list m.used) (Bytes.le 4 m.used.card)
    ((List.replicate (segmentOf c o m).length (0 : UInt8)).drop 4) (by
      rw [List.length_drop, hzero, hsum, hlen]
      omega)
  simp only [List.nil_append, Bytes.le_length, List.length_nil] at hput hall
  simp only [store, ← hlen, ShareMem.create, hs, ShareMem.attach, if_neg hkey, Function.update_self,
    if_true]
  rw [hput, Option.bind_some, hall]
  have hend : (segmentOf c o m).length =
      (Bytes.le 4 m.used.card ++ (o.list m.used).flatMap fun pos => (m.pool pos).image c).length :=
    rfl
  simp only [List.drop_drop, Function.update_idem]
  rw [← hend, List.drop_eq_nil_of_le (by
    rw [hzero, hend, List.length_append, Bytes.le_length]), List.append_nil]
  rfl

end Storing

/-! ## Restoring them -/

section Restoring

variable {P : Type} {n : Nat} (c : Codec P)

/-- What was stored at an offset is read back there. -/
theorem unSerialize_behind (x : Stored P n) (done rest : List UInt8) :
    Stored.unSerialize c n (done ++ (x.image c ++ rest)) done.length =
      some (x, (done ++ x.image c).length) := by
  have hlt := c.ser_lt x.pb
  have hword := Cursor.get_behind done (Bytes.le 8 (c.ser x.pb).length)
    (c.ser x.pb ++ (x.head.val ++ rest))
  have hpb := Cursor.get_behind (done ++ Bytes.le 8 (c.ser x.pb).length) (c.ser x.pb)
    (x.head.val ++ rest)
  have hhead := Cursor.get_behind (done ++ Bytes.le 8 (c.ser x.pb).length ++ c.ser x.pb) x.head.val
    rest
  rw [Bytes.le_length] at hword
  simp only [List.append_assoc] at hword hpb hhead
  rw [x.head.property] at hhead
  simp only [Stored.unSerialize, unSerializePB, Stored.image, List.append_assoc]
  rw [hword, Option.bind_some, Bytes.ofLe_le_of_lt (by omega), hpb, Option.bind_some, c.parse_ser,
    Option.map_some, Option.bind_some, hhead, Option.bind_some, dif_pos x.head.property]

/-- `m'` holds the objects `xs` besides those of `m`, each in a position that was free. -/
structure Filled (m m' : ObjectMng (Stored P n)) (xs : List (Stored P n)) : Prop where
  valid : m'.Valid
  size : m'.size = m.size
  placed : ∃ ps : List Nat, m.freeList = ps ++ m'.freeList ∧
    (∀ pos, pos ∈ m'.used ↔ pos ∈ m.used ∨ pos ∈ ps) ∧ ps.map m'.pool = xs
  kept : ∀ pos ∈ m.used, m'.pool pos = m.pool pos

theorem Filled.nil {m : ObjectMng (Stored P n)} (hv : m.Valid) : Filled m m [] :=
  ⟨hv, rfl, ⟨[], rfl, by simp, rfl⟩, fun _ _ => rfl⟩

variable [Inhabited P]

/-- One more object goes to the head of the free list. -/
theorem Filled.cons {m m' m'' : ObjectMng (Stored P n)} (hv : m.Valid) {pos : Nat}
    (hm : m.malloc = some (pos, m')) {x : Stored P n} {xs : List (Stored P n)}
    (h : Filled (m'.modify pos fun _ => x) m'' xs) : Filled m m'' (x :: xs) := by
  obtain ⟨hfree, hm'⟩ := ObjectMng.malloc_eq_some hm
  obtain ⟨ps, hps, hused, hpool⟩ := h.placed
  obtain ⟨-, -, hnot⟩ := hv.malloc hm
  have hmem : ∀ i, i ∈ (m'.modify pos fun _ => x).used ↔ i = pos ∨ i ∈ m.used := by
    intro i
    rw [hm']
    exact Finset.mem_insert
  have hx : m''.pool pos = x := by
    rw [h.kept pos ((hmem pos).mpr (.inl rfl))]
    exact Function.update_self ..
  refine ⟨h.valid, ?_, ⟨pos :: ps, ?_, ?_, ?_⟩, ?_⟩
  · rw [h.size, hm']
    rfl
  · rw [hfree, List.cons_append]
    exact congrArg _ hps
  · intro i
    rw [hused, hmem, List.mem_cons]
    tauto
  · rw [List.map_cons, hx, hpool]
  · intro i hi
    have hne : i ≠ pos := fun he => hnot (he ▸ hi)
    rw [h.kept i ((hmem i).mpr (.inr hi)), hm']
    simp only [ObjectMng.modify, Function.update_of_ne hne]

/-- The objects in a segment are restored besides those that the manager has. -/
theorem restore_filled (xs : List (Stored P n)) {m : ObjectMng (Stored P n)} (hv : m.Valid)
    (hfree : xs.length ≤ m.freeList.length) (done rest : List UInt8) :
    ∃ m' offset, restore c (done ++ (xs.flatMap (Stored.image c) ++ rest)) xs.length m done.length =
      some (m', offset) ∧ Filled m m' xs := by
  induction xs generalizing m done with
  | nil => exact ⟨m, done.length, rfl, Filled.nil hv⟩
  | cons x xs ih =>
    cases hf : m.freeList with
    | nil =>
      rw [hf] at hfree
      cases hfree
    | cons pos free =>
      have hm : m.malloc = some (pos, { m with
          pool := Function.update m.pool pos default
          used := insert pos m.used
          freeList := free }) := by
        simp only [ObjectMng.malloc, hf]
      have hv' := ((hv.malloc hm).1).modify pos fun _ => x
      obtain ⟨m', offset, hr, hfilled⟩ := ih hv' (by
        rw [hf] at hfree
        exact Nat.le_of_succ_le_succ hfree) (done ++ x.image c)
      refine ⟨m', offset, ?_, Filled.cons hv hm hfilled⟩
      have hbuf : done ++ ((x :: xs).flatMap (Stored.image c) ++ rest) =
          done ++ (x.image c ++ (xs.flatMap (Stored.image c) ++ rest)) := by
        rw [List.flatMap_cons, List.append_assoc]
      rw [hbuf, List.length_cons, restore, hm, Option.bind_some, unSerialize_behind,
        Option.bind_some, ← List.append_assoc]
      exact hr

/-- What `Init` makes of the segment of a released manager. -/
theorem init_filled (o : Order) (m : ObjectMng (Stored P n)) (size : UInt32) {key : Nat}
    (hkey : key ≠ 0) {s : Segments} (hs : s key = some (segmentOf c o m))
    (hcard : m.used.card ≤ size.toNat) :
    ∃ m', init c size key s = (Function.update s key none, some m') ∧
      Filled (ObjectMng.init size.toNat) m' ((o.list m.used).map m.pool) := by
  have hlen : (o.list m.used).length = m.used.card := by
    have hset : (o.list m.used).toFinset = m.used := by
      ext pos
      rw [List.mem_toFinset, o.mem]
    rw [← List.toFinset_card_of_nodup (o.nodup _), hset]
  have hword : Bytes.ofLe (Bytes.le 4 m.used.card) = m.used.card := by
    refine Bytes.ofLe_le_of_lt ?_
    have := size.toNat_lt
    omega
  have hget := Cursor.get_behind [] (Bytes.le 4 m.used.card)
    ((o.list m.used).flatMap fun pos => (m.pool pos).image c)
  have hflat : ((o.list m.used).flatMap fun pos => (m.pool pos).image c) =
      ((o.list m.used).map m.pool).flatMap (Stored.image c) ++ [] := by
    rw [List.append_nil, List.flatMap_map]
  have hfree : ((o.list m.used).map m.pool).length ≤
      (ObjectMng.init size.toNat : ObjectMng (Stored P n)).freeList.length := by
    simp only [List.length_map, hlen, ObjectMng.init, List.length_reverse, List.length_range]
    exact hcard
  obtain ⟨m', offset, hr, hfilled⟩ := restore_filled c ((o.list m.used).map m.pool)
    (ObjectMng.init_valid size.toNat) hfree (Bytes.le 4 m.used.card) []
  refine ⟨m', ?_, hfilled⟩
  rw [List.length_map, hlen] at hr
  simp only [List.nil_append, Bytes.le_length, List.length_nil] at hget hr
  simp only [init, ShareMem.attach, if_neg hkey, hs, segmentOf]
  rw [hget, Option.bind_some, hword, Nat.min_eq_right hcard, hflat, hr]
  rfl

end Restoring

/-! ## Rebuilding the index -/

section Indices

variable {α Id : Type}

/-- Every used slot is indexed by the id of its object, and nothing else is. -/
structure Indexed (idOf : α → Id) (t : Table α Id) : Prop where
  valid : t.objs.Valid
  index : ∀ id pos, t.index id = some pos ↔ pos ∈ t.objs.used ∧ idOf (t.objs.pool pos) = id

/-- What is found under an id is a used slot with the id. -/
theorem Indexed.get_eq_some {idOf : α → Id} {t : Table α Id} (h : Indexed idOf t) {id : Id}
    {x : α} : t.get id = some x ↔ ∃ pos ∈ t.objs.used, t.objs.pool pos = x ∧ idOf x = id := by
  have hget : ∀ pos, pos ∈ t.objs.used → t.objs.get pos = some (t.objs.pool pos) := by
    intro pos hpos
    have hlt := (h.valid.inRange pos).mp (.inr hpos)
    simp only [ObjectMng.get]
    rw [if_neg (Nat.not_le.mpr hlt)]
  constructor
  · intro hx
    obtain ⟨pos, hi, hp⟩ := Option.bind_eq_some_iff.mp hx
    obtain ⟨hused, hid⟩ := (h.index id pos).mp hi
    rw [hget pos hused] at hp
    cases hp
    exact ⟨pos, hused, rfl, hid⟩
  · intro hx
    obtain ⟨pos, hused, rfl, hid⟩ := hx
    have hi := (h.index id pos).mpr ⟨hused, hid⟩
    simp only [Table.get, hi, Option.bind_some, hget pos hused]

/-- No two used slots hold objects of one id. -/
theorem Indexed.injOn {idOf : α → Id} {t : Table α Id} (h : Indexed idOf t) {i j : Nat}
    (hi : i ∈ t.objs.used) (hj : j ∈ t.objs.used)
    (hid : idOf (t.objs.pool i) = idOf (t.objs.pool j)) : i = j := by
  have h₁ := (h.index _ i).mpr ⟨hi, rfl⟩
  have h₂ := (h.index _ j).mpr ⟨hj, rfl⟩
  rw [hid, h₂] at h₁
  exact (Option.some.inj h₁).symm

variable [DecidableEq Id]

/-- An id of several positions is indexed by one of them. -/
theorem foldl_index_mem (g : Nat → Id) (l : List Nat)
    (f : Id → Option Nat) (id : Id) :
    (∃ q ∈ l, g q = id ∧
      l.foldl (fun index p => Function.update index (g p) (some p)) f id = some q) ∨
    (∀ q ∈ l, g q ≠ id) ∧
      l.foldl (fun index p => Function.update index (g p) (some p)) f id = f id := by
  induction l generalizing f with
  | nil => exact .inr ⟨fun _ h => (nomatch h), rfl⟩
  | cons p l ih =>
    obtain ⟨q, hq, hg, hf⟩ | ⟨hnone, hf⟩ := ih (Function.update f (g p) (some p))
    · exact .inl ⟨q, List.mem_cons_of_mem _ hq, hg, hf⟩
    · by_cases hp : g p = id
      · subst hp
        exact .inl ⟨p, List.mem_cons_self .., rfl, hf.trans (Function.update_self ..)⟩
      · refine .inr ⟨fun q hq => ?_, hf.trans (Function.update_of_ne (Ne.symm hp) ..)⟩
        obtain rfl | hq := List.mem_cons.mp hq
        · exact hp
        · exact hnone q hq

/-- The index is rebuilt in whatever order the set is visited. -/
theorem rebuild_indexed {idOf : α → Id} (o : Order) {objs : ObjectMng α} (hv : objs.Valid)
    (hid : ∀ i ∈ objs.used, ∀ j ∈ objs.used,
      idOf (objs.pool i) = idOf (objs.pool j) → i = j) :
    Indexed idOf ⟨objs, rebuild idOf o objs⟩ := by
  refine ⟨hv, fun id pos => ?_⟩
  obtain ⟨q, hq, hg, hf⟩ | ⟨hnone, hf⟩ :=
    foldl_index_mem (fun i => idOf (objs.pool i)) (o.list objs.used) (fun _ => none) id
  · have hused := (o.mem _ q).mp hq
    constructor
    · intro hi
      obtain rfl := Option.some.inj (hf.symm.trans hi)
      exact ⟨hused, hg⟩
    · rintro ⟨hpos, hid'⟩
      rw [hid pos hpos q hused (hid'.trans hg.symm)]
      exact hf
  · constructor
    · intro hi
      cases hf.symm.trans hi
    · rintro ⟨hpos, hid'⟩
      exact absurd hid' (hnone pos ((o.mem _ pos).mpr hpos))

theorem foldl_max (g : Nat → UInt32) (l : List Nat) (cur : UInt32) :
    let r := l.foldl (fun cur p => if g p > cur then g p else cur) cur
    cur ≤ r ∧ (∀ p ∈ l, g p ≤ r) ∧ (r = cur ∨ ∃ p ∈ l, g p = r) := by
  induction l generalizing cur with
  | nil => exact ⟨UInt32.le_refl _, fun _ h => (nomatch h), .inl rfl⟩
  | cons p l ih =>
    obtain ⟨hcur, hall, hsome⟩ := ih (if g p > cur then g p else cur)
    simp only [List.foldl_cons]
    have hstep : cur ≤ (if g p > cur then g p else cur) ∧
        g p ≤ (if g p > cur then g p else cur) := by
      split
      · next hgt => exact ⟨UInt32.le_of_lt hgt, UInt32.le_refl _⟩
      · next hgt => exact ⟨UInt32.le_refl _, UInt32.not_lt.mp hgt⟩
    refine ⟨UInt32.le_trans hstep.1 hcur, ?_, ?_⟩
    · intro q hq
      obtain rfl | hq := List.mem_cons.mp hq
      · exact UInt32.le_trans hstep.2 hcur
      · exact hall q hq
    · obtain hr | ⟨q, hq, hr⟩ := hsome
      · rw [hr]
        split
        · exact .inr ⟨p, List.mem_cons_self .., rfl⟩
        · exact .inl rfl
      · exact .inr ⟨q, List.mem_cons_of_mem _ hq, hr⟩

end Indices

/-! ## The hand-over -/

section

variable {α Id : Type}

/-- The manager `t'` of `size` slots holds what `t` held: the same map from ids to objects in as
many used slots, and all other slots free. -/
structure HandedOver (idOf : α → Id) (t t' : Table α Id) (size : Nat) : Prop where
  same : ∀ id, t'.get id = t.get id
  card : t'.objs.used.card = t.objs.used.card
  size : t'.objs.size = size
  indexed : Indexed idOf t'

/-- `cur` is the largest id in the manager, or zero when it is empty. -/
def IsLargest (t : Table α UInt32) (cur : UInt32) : Prop :=
  (∀ id x, t.get id = some x → id ≤ cur) ∧ (cur = 0 ∨ ∃ x, t.get cur = some x)

end

section

variable {P Id : Type} [Inhabited P] [DecidableEq Id] {n : Nat}

/-- The objects that came through the segment, indexed anew. -/
theorem Filled.handedOver {idOf : Stored P n → Id} {t : Table (Stored P n) Id}
    (h : Indexed idOf t) (o o' : Order) {size : Nat} {m : ObjectMng (Stored P n)}
    (hf : Filled (ObjectMng.init size) m ((o.list t.objs.used).map t.objs.pool)) :
    HandedOver idOf t ⟨m, rebuild idOf o' m⟩ size := by
  obtain ⟨ps, -, hused, hpool⟩ := hf.placed
  have hused : ∀ pos, pos ∈ m.used ↔ pos ∈ ps := by
    intro pos
    rw [hused]
    simp [ObjectMng.init]
  have hnd : (ps.map fun pos => idOf (m.pool pos)).Nodup := by
    have hids : (ps.map fun pos => idOf (m.pool pos)) =
        (o.list t.objs.used).map fun pos => idOf (t.objs.pool pos) := by
      have := congrArg (List.map idOf) hpool
      simpa only [List.map_map, Function.comp_def] using this
    rw [hids]
    apply List.Nodup.map_on _ (o.nodup _)
    intro i hi j hj he
    exact h.injOn ((o.mem _ i).mp hi) ((o.mem _ j).mp hj) he
  have hinj := List.inj_on_of_nodup_map hnd
  have hindexed : Indexed idOf ⟨m, rebuild idOf o' m⟩ :=
    rebuild_indexed o' hf.valid fun i hi j hj he => hinj ((hused i).mp hi) ((hused j).mp hj) he
  refine ⟨fun id => ?_, ?_, hf.size, hindexed⟩
  · apply Option.ext
    intro x
    rw [hindexed.get_eq_some, h.get_eq_some]
    have hmem : (∃ pos ∈ m.used, m.pool pos = x) ↔ ∃ pos ∈ t.objs.used, t.objs.pool pos = x := by
      have hx : x ∈ ps.map m.pool ↔ x ∈ (o.list t.objs.used).map t.objs.pool := by rw [hpool]
      simpa only [List.mem_map, ← hused, o.mem] using hx
    constructor
    · rintro ⟨pos, hp, hx, hid⟩
      obtain ⟨q, hq, hqx⟩ := hmem.mp ⟨pos, hp, hx⟩
      exact ⟨q, hq, hqx, hid⟩
    · rintro ⟨pos, hp, hx, hid⟩
      obtain ⟨q, hq, hqx⟩ := hmem.mpr ⟨pos, hp, hx⟩
      exact ⟨q, hq, hqx, hid⟩
  · have hps : m.used = ps.toFinset := by
      ext pos
      rw [hused, List.mem_toFinset]
    have hold : t.objs.used = (o.list t.objs.used).toFinset := by
      ext pos
      rw [List.mem_toFinset, o.mem]
    have hlen : ps.length = (o.list t.objs.used).length := by
      rw [← List.length_map m.pool, hpool, List.length_map]
    show m.used.card = t.objs.used.card
    rw [hps, List.toFinset_card_of_nodup (List.Nodup.of_map _ hnd), hlen]
    conv_rhs => rw [hold, List.toFinset_card_of_nodup (o.nodup _)]

/-- So is the largest id. -/
theorem rebuildMax_isLargest {α : Type} {idOf : α → UInt32} {t : Table α UInt32} (o : Order)
    (h : Indexed idOf t) : IsLargest t (rebuildMax idOf o t.objs) := by
  obtain ⟨-, hall, hsome⟩ :=
    foldl_max (fun pos => idOf (t.objs.pool pos)) (o.list t.objs.used) 0
  refine ⟨fun id x hx => ?_, ?_⟩
  · obtain ⟨pos, hpos, rfl, rfl⟩ := h.get_eq_some.mp hx
    exact hall pos ((o.mem _ pos).mpr hpos)
  · obtain hz | ⟨pos, hpos, hid⟩ := hsome
    · exact .inl hz
    · exact .inr ⟨_, h.get_eq_some.mpr ⟨pos, (o.mem _ pos).mp hpos, rfl, hid⟩⟩

end

/-- Without a segment in the way the manager is stored whole. -/
theorem release_absent {P : Type} {n : Nat} (c : Codec P) (o : Order) (m : ObjectMng (Stored P n))
    {key : Nat} (hkey : key ≠ 0) {s : Segments} (hs : s key = none) :
    release c o m key s = ⟨Function.update s key (some (segmentOf c o m)), true,
      (segmentOf c o m).length, (segmentOf c o m).length⟩ := by
  simp only [release, ShareMem.isExist, hs, Option.isSome_none, Bool.false_eq_true, if_false]
  exact store_eq c o m hkey hs

/-- What `Init` makes of what `Release` left. -/
theorem init_release {P Id : Type} [Inhabited P] [DecidableEq Id] {n : Nat} (c : Codec P)
    {idOf : Stored P n → Id} {t : Table (Stored P n) Id} (h : Indexed idOf t) (o o' : Order)
    (size : UInt32) {key : Nat} (hkey : key ≠ 0) {s : Segments} (hs : s key = none)
    (hcard : t.objs.used.card ≤ size.toNat) :
    ∃ m, init c size key (release c o t.objs key s).segments = (s, some m) ∧
      HandedOver idOf t ⟨m, rebuild idOf o' m⟩ size.toNat := by
  have hrel := release_absent c o t.objs hkey hs
  obtain ⟨m, hinit, hfilled⟩ := init_filled c o t.objs size hkey
    (s := (release c o t.objs key s).segments)
    (by rw [hrel]; exact Function.update_self ..) hcard
  refine ⟨m, ?_, hfilled.handedOver h o o'⟩
  rw [hinit, hrel]
  dsimp only
  rw [Function.update_idem, Function.update_eq_self_iff.mpr hs.symm]

/-- `Release` fills a segment of the size it computed and returns true. -/
structure Fills (r : Released) (key : Nat) : Prop where
  ok : r.ok = true
  exact : r.offset = r.byteSize
  segment : ∃ bytes, r.segments key = some bytes ∧ bytes.length = r.byteSize

/-- `Release` fills exactly the segment it creates, and the three `Init` functions rebuild the
managers from it. -/
theorem release_init_preserves {P : Type} [Inhabited P] (c : Codec P) (o o' : Order)
    (size : UInt32) (key : Nat) (s : Segments) (hkey : key ≠ 0) (hs : s key = none) :
    (∀ (uid : P → UInt64) (t : Table (Player P) UInt64), Indexed (fun x => uid x.pb) t →
      t.objs.used.card ≤ size.toNat → Fills (release c o t.objs key s) key ∧
      ∃ s' t', PlayerManager.init c uid o' size key (release c o t.objs key s).segments =
        (s', some t') ∧ HandedOver (fun x => uid x.pb) t t' size.toNat) ∧
    (∀ (sessionId : P → UInt32) (t : IdTable (Session P)),
      Indexed (fun x => sessionId x.pb) t.toTable →
      t.objs.used.card ≤ size.toNat → Fills (release c o t.objs key s) key ∧
      ∃ s' t', SessionManager.init c sessionId o' size key (release c o t.objs key s).segments =
        (s', some t') ∧ HandedOver (fun x => sessionId x.pb) t.toTable t'.toTable size.toNat ∧
        IsLargest t'.toTable t'.curMaxId) ∧
    (∀ (timerId : P → UInt32) (t : IdTable (Timer P)),
      Indexed (fun x => timerId x.pb) t.toTable →
      t.objs.used.card ≤ size.toNat → Fills (release c o t.objs key s) key ∧
      ∃ s' t', TimerManager.init c timerId o' size key (release c o t.objs key s).segments =
        (s', some t') ∧ HandedOver (fun x => timerId x.pb) t.toTable t'.toTable size.toNat ∧
        IsLargest t'.toTable t'.curMaxId) := by
  have hfills : ∀ {n : Nat} (m : ObjectMng (Stored P n)), Fills (release c o m key s) key := by
    intro n m
    rw [release_absent c o m hkey hs]
    exact ⟨rfl, rfl, segmentOf c o m, Function.update_self .., rfl⟩
  have hids : ∀ {n : Nat} (idOf : P → UInt32) (t : IdTable (Stored P n)),
      Indexed (fun x => idOf x.pb) t.toTable → t.objs.used.card ≤ size.toNat →
      Fills (release c o t.objs key s) key ∧
      ∃ s' t', initIds c idOf o' size key (release c o t.objs key s).segments = (s', some t') ∧
        HandedOver (fun x => idOf x.pb) t.toTable t'.toTable size.toNat ∧
        IsLargest t'.toTable t'.curMaxId := by
    intro n idOf t ht hcard
    obtain ⟨m, hm, hover⟩ := init_release c ht o o' size hkey hs hcard
    refine ⟨hfills t.objs, s, ⟨⟨m, _⟩, rebuildMax (fun x => idOf x.pb) o' m⟩, ?_, hover,
      rebuildMax_isLargest o' hover.indexed⟩
    simp only [initIds, hm, Option.map_some]
  refine ⟨fun uid t ht hcard => ?_, fun sessionId t ht hcard => hids sessionId t ht hcard,
    fun timerId t ht hcard => hids timerId t ht hcard⟩
  obtain ⟨m, hm, hover⟩ := init_release c ht o o' size hkey hs hcard
  refine ⟨hfills t.objs, s, _, ?_, hover⟩
  simp only [PlayerManager.init, hm, Option.map_some]

/-! Managers of three slots with two objects each, whose base is one number. -/

def sampleCodec : Codec UInt64 where
  ser p := Bytes.le 8 p.toNat
  parse bs := if bs.length = 8 then some (UInt64.ofNat (Bytes.ofLe bs)) else none
  parse_ser p := by
    rw [if_pos (Bytes.le_length 8 _), Bytes.ofLe_le_of_lt p.toNat_lt, UInt64.ofNat_toNat]
  ser_lt p := by rw [Bytes.le_length]; decide

def ascending : Order where
  list s := s.sort
  nodup s := s.sort_nodup _
  mem s pos := s.mem_sort _

def sampleObject (n : Nat) (id : UInt64) : Stored UInt64 n :=
  ⟨id, List.replicate n 7, List.length_replicate⟩

def sampleObjs (n : Nat) : ObjectMng (Stored UInt64 n) where
  size := 3
  pool pos := sampleObject n (if pos = 2 then 9 else 5)
  used := {0, 2}
  freeList := [1]

theorem sampleObjs_valid (n : Nat) : (sampleObjs n).Valid where
  nodup := List.nodup_singleton 1
  inRange pos := by
    simp only [sampleObjs, List.mem_singleton, Finset.mem_insert, Finset.mem_singleton]
    omega
  apart pos hpos := by
    obtain rfl := List.mem_singleton.mp hpos
    simp [sampleObjs]

def sampleTable {Id : Type} [DecidableEq Id] (n : Nat) (idOf : UInt64 → Id) :
    Table (Stored UInt64 n) Id :=
  ⟨sampleObjs n, rebuild (fun x => idOf x.pb) ascending (sampleObjs n)⟩

theorem sampleTable_indexed {Id : Type} [DecidableEq Id] (n : Nat) {idOf : UInt64 → Id}
    (h : idOf 5 ≠ idOf 9) : Indexed (fun x => idOf x.pb) (sampleTable n idOf) := by
  refine rebuild_indexed ascending (sampleObjs_valid n) fun i hi j hj he => ?_
  simp only [sampleObjs, Finset.mem_insert, Finset.mem_singleton] at hi hj
  obtain rfl | rfl := hi <;> obtain rfl | rfl := hj
  · rfl
  · exact absurd he h
  · exact absurd he.symm h
  · rfl

theorem sampleTable_get {Id : Type} [DecidableEq Id] (n : Nat) {idOf : UInt64 → Id}
    (h : idOf 5 ≠ idOf 9) : (sampleTable n idOf).get (idOf 9) = some (sampleObject n 9) :=
  (sampleTable_indexed n h).get_eq_some.mpr
    ⟨2, by simp [sampleTable, sampleObjs], rfl, rfl⟩

/-- Two players, two sessions and two timers in the next process. -/
theorem release_init_preserves_two :
    (∃ s' t', PlayerManager.init sampleCodec id ascending 2 77
        (release sampleCodec ascending (sampleObjs tcpHeadLen) 77 fun _ => none).segments =
          (s', some t') ∧ t'.get 9 = some (sampleObject tcpHeadLen 9)) ∧
    (∃ s' t', SessionManager.init sampleCodec UInt64.toUInt32 ascending 2 77
        (release sampleCodec ascending (sampleObjs tcpHeadLen) 77 fun _ => none).segments =
          (s', some t') ∧ t'.get 9 = some (sampleObject tcpHeadLen 9)) ∧
    (∃ s' t', TimerManager.init sampleCodec UInt64.toUInt32 ascending 2 77
        (release sampleCodec ascending (sampleObjs 0) 77 fun _ => none).segments =
          (s', some t') ∧ t'.get 9 = some (sampleObject 0 9)) := by
  obtain ⟨hplayers, hsessions, htimers⟩ :=
    release_init_preserves sampleCodec ascending ascending 2 77 (fun _ => none) (by decide) rfl
  refine ⟨?_, ?_, ?_⟩
  · obtain ⟨-, s', t', hinit, hover⟩ := hplayers id (sampleTable tcpHeadLen id)
      (sampleTable_indexed tcpHeadLen (by decide)) (by decide)
    exact ⟨s', t', hinit, (hover.same 9).trans (sampleTable_get tcpHeadLen (by decide))⟩
  · obtain ⟨-, s', t', hinit, hover, -⟩ := hsessions UInt64.toUInt32
      ⟨sampleTable tcpHeadLen UInt64.toUInt32, 9⟩
      (sampleTable_indexed tcpHeadLen (by decide)) (by decide)
    exact ⟨s', t', hinit, (hover.same 9).trans (sampleTable_get tcpHeadLen (by decide))⟩
  · obtain ⟨-, s', t', hinit, hover, -⟩ := htimers UInt64.toUInt32
      ⟨sampleTable 0 UInt64.toUInt32, 9⟩ (sampleTable_indexed 0 (by decide)) (by decide)
    exact ⟨s', t', hinit, (hover.same 9).trans (sampleTable_get 0 (by decide))⟩

/-! ## Releasing more than once -/

section Again

variable {P : Type} {n : Nat} (c : Codec P)

/-- `k` calls of `Release` in a row: the segments they leave and what they return. -/
def releaseTimes (o : Order) (m : ObjectMng (Stored P n)) (key : Nat) :
    Nat → Segments → Segments × List Bool
  | 0, s => (s, [])
  | k + 1, s =>
    let r := release c o m key s
    let t := releaseTimes o m key k r.segments
    (t.1, r.ok :: t.2)

/-- A segment that is in the way is removed, and the call fails. -/
theorem release_present (o : Order) (m : ObjectMng (Stored P n)) {key : Nat} {s : Segments}
    {bytes : List UInt8} (hs : s key = some bytes) :
    release c o m key s = ⟨Function.update s key none, false, 0, 0⟩ := by
  simp only [release, ShareMem.isExist, hs, Option.isSome_some, if_true, ShareMem.delete,
    Bool.false_eq_true, if_false]

variable [Inhabited P]

/-- All `k` calls return true, and they leave a segment from which `Init` restores what it restores
after one call. -/
def ReleasedAlike (o : Order) (m : ObjectMng (Stored P n)) (key : Nat) (s : Segments) (k : Nat) :
    Prop :=
  (∀ b ∈ (releaseTimes c o m key k s).2, b = true) ∧
  ((releaseTimes c o m key k s).1 key).isSome = true ∧
  ∀ size : UInt32, (init c size key (releaseTimes c o m key k s).1 :
      Segments × Option (ObjectMng (Stored P n))).2 =
    (init c size key (releaseTimes c o m key 1 s).1).2

/-- Calling `Release` `k` times is as good as calling it once exactly when it is called once, and
no segment was there before. -/
theorem releasedAlike_iff (o : Order) (m : ObjectMng (Stored P n)) (key : Nat) (hkey : key ≠ 0)
    (s : Segments) (k : Nat) (hk : 1 ≤ k) :
    ReleasedAlike c o m key s k ↔ k = 1 ∧ s key = none := by
  cases k with
  | zero => cases hk
  | succ k =>
    cases hs : s key with
    | some bytes =>
      have hfail := congrArg Released.ok (release_present c o m hs)
      refine iff_of_false (fun h => ?_) (fun h => nomatch h.2)
      have := h.1 _ (List.mem_cons_self ..)
      rw [hfail] at this
      cases this
    | none =>
      have hrel := release_absent c o m hkey hs
      have hseg : (release c o m key s).segments key = some (segmentOf c o m) := by
        rw [hrel]
        exact Function.update_self ..
      cases k with
      | zero =>
        refine iff_of_true ⟨?_, ?_, fun _ => rfl⟩ ⟨rfl, rfl⟩
        · intro b hb
          simp only [releaseTimes, List.mem_singleton] at hb
          rw [hb, hrel]
        · simp only [releaseTimes, hseg, Option.isSome_some]
      | succ k =>
        have hfail := congrArg Released.ok (release_present c o m hseg)
        refine iff_of_false (fun h => ?_) (fun h => nomatch h.1)
        have := h.1 _ (List.mem_cons_of_mem _ (List.mem_cons_self ..))
        rw [hfail] at this
        cases this

end Again

theorem releasedAlike_once :
    ReleasedAlike sampleCodec ascending (sampleObjs tcpHeadLen) 77 (fun _ => none) 1 :=
  (releasedAlike_iff sampleCodec ascending (sampleObjs tcpHeadLen) 77 (by decide)
    (fun _ => none) 1 (by decide)).mpr ⟨rfl, rfl⟩

/-- The second call removes the segment of the first and fails. -/
theorem release_twice_fails :
    ¬ ReleasedAlike sampleCodec ascending (sampleObjs tcpHeadLen) 77 (fun _ => none) 2 := by
  intro h
  have hseg : (release sampleCodec ascending (sampleObjs tcpHeadLen) 77 fun _ => none).segments 77 =
      some (segmentOf sampleCodec ascending (sampleObjs tcpHeadLen)) := by
    rw [release_absent sampleCodec ascending (sampleObjs tcpHeadLen) (by decide) rfl]
    dsimp only
    exact Function.update_self ..
  have hfail := congrArg Released.ok
    (release_present sampleCodec ascending (sampleObjs tcpHeadLen) hseg)
  have hsecond := h.1 _ (List.mem_cons_of_mem _ (List.mem_cons_self ..))
  rw [hfail] at hsecond
  cases hsecond

end HandOver
