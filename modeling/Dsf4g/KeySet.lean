import Dsf4g.Gather
import Dsf4g.Lib.Groups

/-!
# The keys a session asks for

A session adds its keys one at a time, in any order and as often as it likes, while data of players
may already be stored in it. `AddDBGetKey` groups what was added by uid.
-/
namespace Sessions

open Groups

variable {Info : Type}

def askedKeys (p : PBDBProcInfo Info) : UInt64 × List UInt32 := (p.uid, p.keys)

/-- What `GetDBProcIndex` returns, `-1` where no entry has the uid. -/
def returnedIndex (procs : List (PBDBProcInfo Info)) (uid : UInt64) : Int :=
  match getDBProcIndex procs uid with
  | some i => i
  | none => -1

/-- What happens to `db_procs`: a call of `AddDBGetKey`, or a player is stored in an entry. -/
inductive KeyStep (Info : Type) where
  | addDBGetKey (uid : UInt64) (key : UInt32)
  | setPlayer (i : Nat) (player : Option (PBDBMsg Info))

def keyStep (procs : List (PBDBProcInfo Info)) : KeyStep Info → List (PBDBProcInfo Info)
  | .addDBGetKey uid key => addDBGetKey procs uid key
  | .setPlayer i player => procs.modify i fun p => { p with player := player }

def KeyStep.pair : KeyStep Info → Option (UInt64 × UInt32)
  | .addDBGetKey uid key => some (uid, key)
  | .setPlayer _ _ => none

/-! ## One call -/

/-- A call adds its pair to the grouped keys. -/
theorem addDBGetKey_asks (procs : List (PBDBProcInfo Info)) (uid : UInt64) (key : UInt32) :
    (addDBGetKey procs uid key).map askedKeys = add uid key (procs.map askedKeys) := by
  induction procs with
  | nil => rfl
  | cons p ps ih =>
    rw [addDBGetKey, List.map_cons, add]
    by_cases hp : p.uid = uid
    · rw [if_pos hp, if_pos (show (askedKeys p).1 = uid from hp), List.map_cons, enter]
      by_cases hk : key ∈ p.keys
      · rw [if_pos hk, if_pos (show key ∈ (askedKeys p).2 from hk)]
      · rw [if_neg hk, if_neg (show key ∉ (askedKeys p).2 from hk)]
        rfl
    · rw [if_neg hp, if_neg (show (askedKeys p).1 ≠ uid from hp), List.map_cons, ih]

theorem setPlayer_asks (procs : List (PBDBProcInfo Info)) (i : Nat)
    (player : Option (PBDBMsg Info)) :
    (keyStep procs (.setPlayer i player)).map askedKeys = procs.map askedKeys := by
  rw [keyStep]
  induction procs generalizing i with
  | nil => cases i <;> rfl
  | cons p ps ih =>
    cases i with
    | zero => rfl
    | succ i => rw [List.modify_succ_cons, List.map_cons, List.map_cons, ih]

/-- Entries keep their places, uids and players, and an entry that is new has no player. -/
structure Untouched (procs procs' : List (PBDBProcInfo Info)) : Prop where
  kept : ∀ (i : Nat) (p : PBDBProcInfo Info), procs[i]? = some p →
    ∃ keys, procs'[i]? = some { p with keys := keys } ∧ ∀ k ∈ p.keys, k ∈ keys
  fresh : ∀ (i : Nat) (p : PBDBProcInfo Info), procs[i]? = none → procs'[i]? = some p → p.player = none

theorem addDBGetKey_untouched (procs : List (PBDBProcInfo Info)) (uid : UInt64) (key : UInt32) :
    Untouched procs (addDBGetKey procs uid key) := by
  induction procs with
  | nil =>
    refine ⟨fun i p hp => (by cases hp), fun i p _ hp => ?_⟩
    cases i with
    | zero => cases hp; rfl
    | succ i => cases hp
  | cons q qs ih =>
    rw [addDBGetKey]
    by_cases hq : q.uid = uid
    · rw [if_pos hq]
      refine ⟨fun i p hp => ?_, fun i p hnone hp => ?_⟩
      · cases i with
        | zero =>
          cases hp
          by_cases hk : key ∈ q.keys
          · rw [if_pos hk]
            exact ⟨q.keys, rfl, fun _ h => h⟩
          · rw [if_neg hk]
            exact ⟨q.keys ++ [key], rfl, fun _ h => List.mem_append_left _ h⟩
        | succ i => exact ⟨p.keys, hp, fun _ h => h⟩
      · cases i with
        | zero => cases hnone
        | succ i =>
          rw [List.getElem?_cons_succ] at hnone hp
          rw [hnone] at hp
          cases hp
    · rw [if_neg hq]
      refine ⟨fun i p hp => ?_, fun i p hnone hp => ?_⟩
      · cases i with
        | zero =>
          cases hp
          exact ⟨q.keys, rfl, fun _ h => h⟩
        | succ i => exact ih.kept i p hp
      · cases i with
        | zero => cases hnone
        | succ i => exact ih.fresh i p hnone hp

/-! ## Any number of calls -/

/-- A run of calls groups its pairs. -/
theorem keyRun_asks (os : List (KeyStep Info)) :
    (os.foldl keyStep []).map askedKeys = of (os.filterMap KeyStep.pair) := by
  induction os using List.reverseRecOn with
  | nil => rfl
  | append_singleton os o ih =>
    rw [List.foldl_append, List.filterMap_append, List.foldl_cons, List.foldl_nil]
    cases o with
    | addDBGetKey uid key =>
      rw [keyStep, addDBGetKey_asks, ih, add_of]
      rfl
    | setPlayer i player =>
      rw [setPlayer_asks, ih, List.filterMap_cons_none rfl, List.filterMap_nil, List.append_nil]

/-- `db_procs` holds the pairs as a set, in the order of their first addition. -/
structure KeySet (pairs : List (UInt64 × UInt32)) (procs : List (PBDBProcInfo Info)) : Prop where
  uids : (procs.map PBDBProcInfo.uid).Nodup
  keys : ∀ p ∈ procs, p.keys ≠ [] ∧ p.keys.Nodup
  present : ∀ uid key, (∃ p ∈ procs, p.uid = uid ∧ key ∈ p.keys) ↔ (uid, key) ∈ pairs
  order : procs.map askedKeys = of pairs
  found : ∀ uid ∈ pairs.map Prod.fst, ∃ i p, returnedIndex procs uid = (i : Nat) ∧
    procs[i]? = some p ∧ p.uid = uid ∧ ∀ j q, procs[j]? = some q → q.uid = uid → j = i
  missing : ∀ uid, uid ∉ pairs.map Prod.fst → returnedIndex procs uid = -1

/-- Keys grouped by their first appearance are a set in that order. -/
theorem keySet_of_asks {pairs : List (UInt64 × UInt32)} {procs : List (PBDBProcInfo Info)}
    (h : procs.map askedKeys = of pairs) : KeySet pairs procs := by
  have hmem : ∀ p ∈ procs, askedKeys p ∈ of pairs := fun p hp => h ▸ List.mem_map_of_mem hp
  have huids : procs.map PBDBProcInfo.uid = (pairs.map Prod.fst).eraseDups := by
    rw [← of_names, ← h, List.map_map]
    rfl
  have hnd : (procs.map PBDBProcInfo.uid).Nodup := huids ▸ eraseDups_nodup _
  refine ⟨hnd, fun p hp => ⟨keys_ne_nil (hmem p hp), keys_nodup (hmem p hp)⟩,
    fun uid key => ?_, h, fun uid huid => ?_, fun uid huid => ?_⟩
  · rw [← pair_mem_of, ← h]
    constructor
    · rintro ⟨p, hp, huid, hkey⟩
      exact ⟨askedKeys p, List.mem_map_of_mem hp, huid, hkey⟩
    · rintro ⟨g, hg, huid, hkey⟩
      obtain ⟨p, hp, rfl⟩ := List.mem_map.mp hg
      exact ⟨p, hp, huid, hkey⟩
  · have hin : uid ∈ procs.map PBDBProcInfo.uid := huids ▸ List.mem_eraseDups.mpr huid
    obtain ⟨p, hp, rfl⟩ := List.mem_map.mp hin
    obtain ⟨i, hi⟩ := List.mem_iff_getElem?.mp hp
    refine ⟨i, p, ?_, hi, rfl, fun j q hj hsame => index_unique hnd hj hi hsame⟩
    rw [returnedIndex, nodup_getElem hnd hi]
  · have hnone : getDBProcIndex procs uid = none := by
      refine List.findIdx?_eq_none_iff.mpr fun p hp => decide_eq_false fun he => huid ?_
      rw [← List.mem_eraseDups, ← huids, ← he]
      exact List.mem_map_of_mem hp
    rw [returnedIndex, hnone]

/-- Calls of `AddDBGetKey` in any order and repetition, with players stored between them, leave the
pairs that were added as a set, and a call touches no player. -/
theorem addDBGetKey_keeps_set (os : List (KeyStep Info)) :
    KeySet (os.filterMap KeyStep.pair) (os.foldl keyStep []) ∧
      ∀ uid key, Untouched (os.foldl keyStep [])
        (keyStep (os.foldl keyStep []) (.addDBGetKey uid key)) :=
  ⟨keySet_of_asks (keyRun_asks os), fun uid key => addDBGetKey_untouched _ uid key⟩

end Sessions
