import Dsf4g.HandOver

/-!
# Tables with lost slots

The managers take a slot first and search for an id behind it. A slot for which no id
is found stays used, and no id leads to it. What the operations on a table keep is said
here once, for any kind of object that such a slot may hold.
-/
namespace HandOver

variable {α Id : Type}

/-- An id leads to a used slot with its object, and a used slot that no id leads to is blank. -/
structure Kept (blank : α → Prop) (idOf : α → Id) (t : Table α Id) : Prop where
  valid : t.objs.Valid
  found : ∀ id pos, t.index id = some pos → pos ∈ t.objs.used ∧ idOf (t.objs.pool pos) = id
  lost : ∀ pos ∈ t.objs.used,
    t.index (idOf (t.objs.pool pos)) = some pos ∨ blank (t.objs.pool pos)

section Tables

variable {blank : α → Prop} {idOf : α → Id} {t : Table α Id}

/-- No slot is lost where none could be blank. -/
theorem indexed_iff_kept : Indexed idOf t ↔ Kept (fun _ => False) idOf t := by
  constructor
  · intro h
    exact ⟨h.valid, fun id pos => (h.index id pos).mp,
      fun pos hused => .inl ((h.index _ pos).mpr ⟨hused, rfl⟩)⟩
  · intro h
    refine ⟨h.valid, fun id pos => ⟨h.found id pos, ?_⟩⟩
    rintro ⟨hused, rfl⟩
    exact (h.lost pos hused).resolve_right id

theorem Kept.get (h : Kept blank idOf t) {id : Id} {pos : Nat} (hi : t.index id = some pos) :
    t.get id = some (t.objs.pool pos) := by
  have hlt := (h.valid.inRange pos).mp (.inr (h.found id pos hi).1)
  rw [Table.get, hi, Option.bind_some, ObjectMng.get, if_neg (Nat.not_le.mpr hlt)]

/-- A store that leaves the id of the object as it is. -/
theorem Kept.modify (h : Kept blank idOf t) (pos : Nat) {g : α → α}
    (hid : ∀ x, idOf (g x) = idOf x) (hblank : ∀ x, blank x → blank (g x)) :
    Kept blank idOf ⟨t.objs.modify pos g, t.index⟩ := by
  have hsame : ∀ i, (t.objs.modify pos g).pool i = t.objs.pool i ∨
      (t.objs.modify pos g).pool i = g (t.objs.pool i) := by
    intro i
    by_cases hi : i = pos
    · rw [hi]
      exact .inr (Function.update_self ..)
    · exact .inl (Function.update_of_ne hi ..)
  have hids : ∀ i, idOf ((t.objs.modify pos g).pool i) = idOf (t.objs.pool i) := by
    intro i
    obtain hi | hi := hsame i
    · rw [hi]
    · rw [hi, hid]
  refine ⟨h.valid.modify pos g, fun id i hi => ?_, fun i hi => ?_⟩
  · obtain ⟨hused, hid'⟩ := h.found id i hi
    exact ⟨hused, (hids i).trans hid'⟩
  · dsimp only at hi ⊢
    rw [hids]
    refine (h.lost i hi).imp_right fun hb => ?_
    obtain hi' | hi' := hsame i
    · rwa [hi']
    · rw [hi']
      exact hblank _ hb

section Malloc

variable [Inhabited α] {pos : Nat} {objs : ObjectMng α}

/-- The slot that `Malloc` takes was not used, and the other objects stay. -/
theorem Kept.malloc (h : Kept blank idOf t) (hm : t.objs.malloc = some (pos, objs)) :
    (∀ i, i ∈ objs.used ↔ i = pos ∨ i ∈ t.objs.used) ∧ (∀ id, t.index id ≠ some pos) ∧
      objs.pool pos = default ∧ ∀ i, i ≠ pos → objs.pool i = t.objs.pool i := by
  obtain ⟨-, -, hunused⟩ := h.valid.malloc hm
  obtain ⟨-, heq⟩ := ObjectMng.malloc_eq_some hm
  refine ⟨fun i => ?_, fun id hi => hunused (h.found id pos hi).1, ?_, fun i hi => ?_⟩
  · rw [heq]
    exact Finset.mem_insert
  · rw [heq]
    exact Function.update_self ..
  · rw [heq]
    exact Function.update_of_ne hi ..

/-- A slot is taken and left. -/
theorem Kept.leak (h : Kept blank idOf t) (hm : t.objs.malloc = some (pos, objs))
    (hblank : blank default) : Kept blank idOf ⟨objs, t.index⟩ := by
  obtain ⟨hmem, hnew, hself, hother⟩ := h.malloc hm
  refine ⟨(h.valid.malloc hm).1, fun id i hi => ?_, fun i hi => ?_⟩
  · obtain ⟨hused, hid⟩ := h.found id i hi
    have hne : i ≠ pos := fun he => hnew id (he ▸ hi)
    exact ⟨(hmem i).mpr (.inr hused), (congrArg idOf (hother i hne)).trans hid⟩
  · dsimp only at hi ⊢
    by_cases he : i = pos
    · rw [he, hself]
      exact .inr hblank
    · rw [hother i he]
      exact h.lost i (((hmem i).mp hi).resolve_left he)

end Malloc

/-! ## The index -/

variable [DecidableEq Id]

/-- An entry of the index after one was set. -/
theorem update_eq_some {index : Id → Option Nat} {id id' : Id} {r : Option Nat} {i : Nat}
    (h : Function.update index id r id' = some i) :
    (id' = id ∧ r = some i) ∨ (id' ≠ id ∧ index id' = some i) := by
  by_cases he : id' = id
  · rw [he, Function.update_self] at h
    exact .inl ⟨he, h⟩
  · rw [Function.update_of_ne he] at h
    exact .inr ⟨he, h⟩

/-- A new object under an id that leads nowhere. -/
theorem Kept.make [Inhabited α] (h : Kept blank idOf t) {pos : Nat} {objs : ObjectMng α}
    (hm : t.objs.malloc = some (pos, objs)) {id : Id} (hid : t.index id = none) {g : α → α}
    (hg : ∀ x, idOf (g x) = id) :
    Kept blank idOf ⟨objs.modify pos g, Function.update t.index id (some pos)⟩ := by
  obtain ⟨hmem, hnew, -, hother⟩ := h.malloc hm
  have hself : idOf ((objs.modify pos g).pool pos) = id := by
    simp only [ObjectMng.modify, Function.update_self, hg]
  have hstay : ∀ i, i ≠ pos → (objs.modify pos g).pool i = t.objs.pool i := by
    intro i hi
    simp only [ObjectMng.modify, Function.update_of_ne hi, hother i hi]
  refine ⟨(h.valid.malloc hm).1.modify pos g, fun id' i hi => ?_, fun i hi => ?_⟩
  · obtain ⟨rfl, he⟩ | ⟨-, hold⟩ := update_eq_some hi
    · cases he
      exact ⟨(hmem pos).mpr (.inl rfl), hself⟩
    · have hne : i ≠ pos := fun he => hnew id' (he ▸ hold)
      obtain ⟨hused, hid'⟩ := h.found id' i hold
      exact ⟨(hmem i).mpr (.inr hused), (congrArg idOf (hstay i hne)).trans hid'⟩
  · dsimp only at hi ⊢
    by_cases he : i = pos
    · rw [he, hself]
      exact .inl (Function.update_self ..)
    · rw [hstay i he]
      refine (h.lost i (((hmem i).mp hi).resolve_left he)).imp_left fun hlead => ?_
      have hne : idOf (t.objs.pool i) ≠ id := by
        intro hc
        rw [hc, hid] at hlead
        cases hlead
      rw [Function.update_of_ne hne, hlead]

/-- The slot that an id leads to is given back, and the id leads nowhere. -/
theorem Kept.erase (h : Kept blank idOf t) {id : Id} {pos : Nat} (hi : t.index id = some pos) :
    Kept blank idOf ⟨t.objs.free pos, Function.update t.index id none⟩ := by
  obtain ⟨hused, hid⟩ := h.found id pos hi
  have hlt := (h.valid.inRange pos).mp (.inr hused)
  have hfree : t.objs.free pos =
      { t.objs with freeList := pos :: t.objs.freeList, used := t.objs.used.erase pos } :=
    if_neg (Nat.not_le.mpr hlt)
  refine ⟨h.valid.free hused, fun id' i hi' => ?_, fun i hused' => ?_⟩
  · obtain ⟨-, hnone⟩ | ⟨hne, hold⟩ := update_eq_some hi'
    · cases hnone
    · obtain ⟨hused', hid'⟩ := h.found id' i hold
      have hpos : i ≠ pos := fun he => hne (by rw [← hid', he, hid])
      rw [hfree]
      exact ⟨Finset.mem_erase.mpr ⟨hpos, hused'⟩, hid'⟩
  · dsimp only at hused' ⊢
    rw [hfree] at hused' ⊢
    obtain ⟨hne, hold⟩ := Finset.mem_erase.mp hused'
    refine (h.lost i hold).imp_left fun hlead => ?_
    have hids : idOf (t.objs.pool i) ≠ id := by
      intro he
      rw [he, hi] at hlead
      exact hne (Option.some.inj hlead).symm
    rw [Function.update_of_ne hids, hlead]

end Tables

end HandOver
