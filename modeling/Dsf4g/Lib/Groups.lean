import Mathlib.Data.List.Induction
import Mathlib.Data.List.Nodup

/-!
# Grouping pairs as they come

A list of names, each with its own list of keys. A pair goes behind the keys of its
name unless it is there, and a name that is new goes behind the others.
-/
namespace Groups

variable {α β : Type} [DecidableEq α] [DecidableEq β]

def enter (b : β) (l : List β) : List β := if b ∈ l then l else l ++ [b]

/-- Scan the names, then the keys of the first name that matches. -/
def add (a : α) (b : β) : List (α × List β) → List (α × List β)
  | [] => [(a, [b])]
  | g :: gs => if g.1 = a then (g.1, enter b g.2) :: gs else g :: add a b gs

/-- The keys that came with a name, in the order of their first appearance. -/
def keysOf (l : List (α × β)) (a : α) : List β :=
  ((l.filter fun e => e.1 = a).map Prod.snd).eraseDups

/-- The names in the order of their first appearance, each with its keys. -/
def of (l : List (α × β)) : List (α × List β) :=
  (l.map Prod.fst).eraseDups.map fun a => (a, keysOf l a)

/-! ## First appearances -/

theorem eraseDups_concat (l : List β) (b : β) : (l ++ [b]).eraseDups = enter b l.eraseDups := by
  rw [List.eraseDups_append, enter]
  simp only [List.mem_eraseDups]
  by_cases h : b ∈ l
  · simp [List.removeAll, h]
  · simp [List.removeAll, h, List.eraseDups_cons]

theorem enter_nodup {l : List β} (h : l.Nodup) (b : β) : (enter b l).Nodup := by
  unfold enter
  split
  · exact h
  · next hb =>
    refine List.nodup_append.mpr ⟨h, List.nodup_singleton b, fun c hc d hd he => hb ?_⟩
    rw [← List.mem_singleton.mp hd, ← he]
    exact hc

theorem eraseDups_nodup (l : List β) : l.eraseDups.Nodup := by
  induction l using List.reverseRecOn with
  | nil => exact List.nodup_nil
  | append_singleton l b ih =>
    rw [eraseDups_concat]
    exact enter_nodup ih b

/-! ## The keys of a name -/

theorem mem_keysOf {l : List (α × β)} {a : α} {b : β} : b ∈ keysOf l a ↔ (a, b) ∈ l := by
  rw [keysOf, List.mem_eraseDups, List.mem_map]
  constructor
  · rintro ⟨e, he, rfl⟩
    obtain ⟨hmem, hname⟩ := List.mem_filter.mp he
    rw [← of_decide_eq_true hname]
    exact hmem
  · intro h
    exact ⟨(a, b), List.mem_filter.mpr ⟨h, decide_eq_true rfl⟩, rfl⟩

theorem keysOf_concat_self (l : List (α × β)) (a : α) (b : β) :
    keysOf (l ++ [(a, b)]) a = enter b (keysOf l a) := by
  simp only [keysOf, List.filter_append, List.map_append, List.filter_singleton, decide_true,
    cond_true, List.map_cons, List.map_nil, eraseDups_concat]

theorem keysOf_concat_ne (l : List (α × β)) {a a' : α} (h : a ≠ a') (b : β) :
    keysOf (l ++ [(a, b)]) a' = keysOf l a' := by
  simp only [keysOf, List.filter_append, List.filter_singleton, h, decide_false, cond_false,
    List.append_nil]

theorem keysOf_eq_nil {l : List (α × β)} {a : α} (h : a ∉ l.map Prod.fst) : keysOf l a = [] := by
  refine List.eq_nil_iff_forall_not_mem.mpr fun b hb => h ?_
  exact List.mem_map.mpr ⟨(a, b), mem_keysOf.mp hb, rfl⟩

/-! ## The groups -/

theorem of_names (l : List (α × β)) : (of l).map Prod.fst = (l.map Prod.fst).eraseDups := by
  simp only [of, List.map_map, Function.comp_def, List.map_id']

theorem mem_of {l : List (α × β)} {g : α × List β} :
    g ∈ of l ↔ g.1 ∈ l.map Prod.fst ∧ g.2 = keysOf l g.1 := by
  simp only [of, List.mem_map, List.mem_eraseDups]
  constructor
  · rintro ⟨a, ha, rfl⟩
    exact ⟨ha, rfl⟩
  · rintro ⟨ha, hkeys⟩
    exact ⟨g.1, ha, Prod.ext rfl hkeys.symm⟩

theorem keys_nodup {l : List (α × β)} {g : α × List β} (h : g ∈ of l) : g.2.Nodup := by
  rw [(mem_of.mp h).2]
  exact eraseDups_nodup _

theorem keys_ne_nil {l : List (α × β)} {g : α × List β} (h : g ∈ of l) : g.2 ≠ [] := by
  obtain ⟨hname, hkeys⟩ := mem_of.mp h
  obtain ⟨e, he, hfst⟩ := List.mem_map.mp hname
  rw [hkeys]
  refine List.ne_nil_of_mem (mem_keysOf.mpr (?_ : (g.1, e.2) ∈ l))
  rw [← hfst]
  exact he

/-- The pairs in the groups are those that came. -/
theorem pair_mem_of {l : List (α × β)} {a : α} {b : β} :
    (∃ g ∈ of l, g.1 = a ∧ b ∈ g.2) ↔ (a, b) ∈ l := by
  constructor
  · rintro ⟨g, hg, rfl, hb⟩
    rw [(mem_of.mp hg).2] at hb
    exact mem_keysOf.mp hb
  · intro h
    exact ⟨(a, keysOf l a), mem_of.mpr ⟨List.mem_map.mpr ⟨_, h, rfl⟩, rfl⟩, rfl, mem_keysOf.mpr h⟩

/-! ## One more pair -/

/-- With the name among the groups, only the keys of that name change. -/
theorem add_known {names : List α} (hnd : names.Nodup) {a : α} (ha : a ∈ names) (b : β)
    {f f' : α → List β} (hself : f' a = enter b (f a)) (hother : ∀ a' ≠ a, f' a' = f a') :
    add a b (names.map fun n => (n, f n)) = names.map fun n => (n, f' n) := by
  induction names with
  | nil => cases ha
  | cons n names ih =>
    obtain ⟨hn, hnames⟩ := List.nodup_cons.mp hnd
    rw [List.map_cons, List.map_cons, add]
    by_cases he : n = a
    · subst he
      rw [if_pos rfl, hself]
      refine congrArg _ (List.map_congr_left fun m hm => ?_)
      rw [hother m fun h => hn (h ▸ hm)]
    · rw [if_neg he, hother n he, ih hnames (List.mem_of_ne_of_mem (Ne.symm he) ha)]

theorem add_new {gs : List (α × List β)} {a : α} (ha : a ∉ gs.map Prod.fst) (b : β) :
    add a b gs = gs ++ [(a, [b])] := by
  induction gs with
  | nil => rfl
  | cons g gs ih =>
    rw [List.map_cons, List.mem_cons, not_or] at ha
    rw [add, if_neg (Ne.symm ha.1), ih ha.2, List.cons_append]

/-- The scan groups the pairs as they come. -/
theorem add_of (l : List (α × β)) (a : α) (b : β) : add a b (of l) = of (l ++ [(a, b)]) := by
  have hnames : ((l ++ [(a, b)]).map Prod.fst).eraseDups =
      enter a (l.map Prod.fst).eraseDups := by
    rw [List.map_append, List.map_singleton, eraseDups_concat]
  rw [of.eq_def (l ++ _), hnames, enter]
  simp only [List.mem_eraseDups]
  by_cases ha : a ∈ l.map Prod.fst
  · rw [if_pos ha, of]
    exact add_known (eraseDups_nodup _) (List.mem_eraseDups.mpr ha) b (keysOf_concat_self l a b)
      fun a' h => keysOf_concat_ne l (Ne.symm h) b
  · rw [if_neg ha, add_new (by rw [of_names, List.mem_eraseDups]; exact ha), List.map_append,
      List.map_singleton, keysOf_concat_self, keysOf_eq_nil ha]
    refine congrArg (· ++ _) (List.map_congr_left fun n hn => ?_)
    have hne : a ≠ n := fun h => ha (h ▸ List.mem_eraseDups.mp hn)
    rw [keysOf_concat_ne l hne]

end Groups
