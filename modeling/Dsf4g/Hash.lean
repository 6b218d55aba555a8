import Dsf4g.AuthSvr
import Dsf4g.Lib.Loop
import Dsf4g.Lib.Memory

/-!
# What `GetHash` reads

`include/hash.hpp`. The bytes behind a string are whatever lies in memory there. `GetHash` takes the
string in words and leaves between one and four bytes for its second loop, by arithmetic on `uint32`;
with no byte at all the subtraction wraps.
-/
namespace AuthSvr

open Loop

/-! ## The function -/

/-- A loop of `GetHash`: its counter, the hash so far, and the offsets read so far. -/
structure Scan where
  i : UInt32
  index : UInt32
  reads : List Nat
  deriving DecidableEq, Repr

def remainOf (strLen : UInt32) : UInt32 :=
  if strLen % 4 = 0 then 4 else strLen % 4

def lenOf (strLen : UInt32) : UInt32 := (strLen - remainOf strLen) / 4

def firstIndex (mem : Nat → UInt8) : UInt32 :=
  (0xe6ee7103 : UInt32) ^^^ ((mem 0).toInt8.toInt32 <<< 7).toUInt32

def wordPass (mem : Nat → UInt8) (len : UInt32) (s : Scan) : Scan ⊕ Scan :=
  if s.i < len then
    .inl ⟨s.i + 1, (s.index * 0x3e11ef) ^^^
      UInt32.ofNat (Bytes.ofLe (Memory.read mem (4 * s.i.toNat) 4)),
      s.reads ++ List.range' (4 * s.i.toNat) 4⟩
  else .inr s

def tailPass (mem : Nat → UInt8) (start : Nat) (remain : UInt32) (s : Scan) : Scan ⊕ Scan :=
  if s.i < remain then
    .inl ⟨s.i + 1, (s.index * 0x3e11ef) ^^^ (mem (start + s.i.toNat)).toUInt32,
      s.reads ++ [start + s.i.toNat]⟩
  else .inr s

/-- What a call of `GetHash` did: how often it went through each loop, what it read in them besides
the first `*str`, and its result. -/
structure Hashed where
  words : Nat
  tail : Nat
  reads : List Nat
  hash : UInt32

/-- `GetHash` returns. A loop of `n` passes looks at its condition once more. -/
def Returns (mem : Nat → UInt8) (strLen : UInt32) (r : Hashed) : Prop :=
  ∃ w t : Scan,
    Ends (wordPass mem (lenOf strLen)) ⟨0, firstIndex mem, []⟩ (r.words + 1) w ∧
    Ends (tailPass mem (4 * w.i.toNat) (remainOf strLen)) ⟨0, w.index, w.reads⟩ (r.tail + 1) t ∧
    r.reads = t.reads ∧ r.hash = (t.index ^^^ strLen) ^^^ 0x1a8fed1f

/-- Every read is one of the string, the two loops read every byte of it once, and the words are what
the tail leaves. -/
structure ReadsInput (n : Nat) (r : Hashed) : Prop where
  inside : ∀ a ∈ 0 :: r.reads, a < n
  once : ∀ a < n, r.reads.count a = 1
  words : r.words = (n - r.tail) / 4
  tail : r.tail ≤ 4

/-! ## How much is read -/

/-- The second loop reads at least one byte and at most four. -/
theorem remainOf_toNat (strLen : UInt32) :
    (remainOf strLen).toNat = if strLen.toNat % 4 = 0 then 4 else strLen.toNat % 4 := by
  have hmod : (strLen % 4).toNat = strLen.toNat % 4 := UInt32.toNat_mod ..
  have hiff : strLen % 4 = 0 ↔ strLen.toNat % 4 = 0 := by
    rw [← UInt32.toNat_inj, hmod]
    rfl
  unfold remainOf
  by_cases h : strLen % 4 = 0
  · rw [if_pos h, if_pos (hiff.mp h)]
    rfl
  · rw [if_neg h, if_neg (mt hiff.mpr h), hmod]

/-- The count wraps when there is less than one word to subtract from. -/
theorem lenOf_toNat (strLen : UInt32) :
    (lenOf strLen).toNat =
      (2 ^ 32 - (remainOf strLen).toNat + strLen.toNat) % 2 ^ 32 / 4 := by
  rw [lenOf, UInt32.toNat_div, UInt32.toNat_sub]
  rfl

/-- The words and the tail cover the string, or all of what a `uint32` counts. -/
theorem scanned (strLen : UInt32) :
    4 * (lenOf strLen).toNat + (remainOf strLen).toNat =
      if strLen.toNat = 0 then 2 ^ 32 else strLen.toNat := by
  have hlt := strLen.toNat_lt
  have hremain := remainOf_toNat strLen
  rw [lenOf_toNat]
  split at hremain <;> split <;> omega

/-! ## The loops -/

theorem succ_toNat {i len : UInt32} (h : i < len) : (i + 1).toNat = i.toNat + 1 := by
  have hlt := UInt32.lt_iff_toNat_lt.mp h
  have hlen := len.toNat_lt
  rw [UInt32.toNat_add, UInt32.toNat_one, Nat.mod_eq_of_lt (by omega)]

theorem range_words (n k : Nat) : List.range n ++ List.range' n k = List.range (n + k) := by
  rw [List.range_eq_range', List.range_eq_range', ← List.range'_append_1, Nat.zero_add]

/-- The first loop reads the words in order, and `hashWords` is what it computes. -/
theorem wordLoop_ends (mem : Nat → UInt8) {len i : UInt32} {k m : Nat}
    (hk : i.toNat + k = len.toNat) (hm : 4 * k ≤ m) (index : UInt32) :
    Ends (wordPass mem len) ⟨i, index, List.range (4 * i.toNat)⟩ (k + 1)
      ⟨len, hashWords k index (Memory.read mem (4 * i.toNat) m), List.range (4 * len.toNat)⟩ := by
  induction k generalizing i m index with
  | zero =>
    obtain rfl : i = len := UInt32.toNat_inj.mp hk
    exact .leave (if_neg (UInt32.lt_irrefl i))
  | succ k ih =>
    have hlt : i < len := UInt32.lt_iff_toNat_lt.mpr (by omega)
    have hnext := succ_toNat hlt
    have hmul : 4 * (i + 1).toNat = 4 * i.toNat + 4 := by rw [hnext, Nat.mul_add]
    refine .again (if_pos hlt) ?_
    have hrest := ih (by rw [hnext]; omega) (m := m - 4) (by omega) ((index * 0x3e11ef) ^^^
      UInt32.ofNat (Bytes.ofLe (Memory.read mem (4 * i.toNat) 4)))
    rw [hmul, ← range_words] at hrest
    rw [hashWords, Memory.take_read _ _ _ _ (by omega), Memory.drop_read _ _ _ _ (by omega)]
    exact hrest

/-- The second loop reads the bytes behind the words in order. -/
theorem tailLoop_ends (mem : Nat → UInt8) (start : Nat) {remain i : UInt32} {k : Nat}
    (hk : i.toNat + k = remain.toNat) (index : UInt32) :
    Ends (tailPass mem start remain) ⟨i, index, List.range (start + i.toNat)⟩ (k + 1)
      ⟨remain, (Memory.read mem (start + i.toNat) k).foldl
        (fun index b => (index * 0x3e11ef) ^^^ b.toUInt32) index,
        List.range (start + remain.toNat)⟩ := by
  induction k generalizing i index with
  | zero =>
    obtain rfl : i = remain := UInt32.toNat_inj.mp hk
    exact .leave (if_neg (UInt32.lt_irrefl i))
  | succ k ih =>
    have hlt : i < remain := UInt32.lt_iff_toNat_lt.mpr (by omega)
    have hnext := succ_toNat hlt
    refine .again (if_pos hlt) ?_
    have hrest := ih (by rw [hnext]; omega)
      ((index * 0x3e11ef) ^^^ (mem (start + i.toNat)).toUInt32)
    rw [hnext, ← Nat.add_assoc, List.range_succ] at hrest
    rw [Memory.read_succ, List.foldl_cons]
    exact hrest

def hashedOf (mem : Nat → UInt8) (strLen : UInt32) : Hashed where
  words := (lenOf strLen).toNat
  tail := (remainOf strLen).toNat
  reads := List.range (4 * (lenOf strLen).toNat + (remainOf strLen).toNat)
  hash := ((Memory.read mem (4 * (lenOf strLen).toNat) (remainOf strLen).toNat).foldl
    (fun index b => (index * 0x3e11ef) ^^^ b.toUInt32)
    (hashWords (lenOf strLen).toNat (firstIndex mem)
      (Memory.read mem 0 (4 * (lenOf strLen).toNat + (remainOf strLen).toNat))) ^^^ strLen) ^^^
        0x1a8fed1f

/-- The two loops do what the closed form says. -/
theorem returns_iff (mem : Nat → UInt8) (strLen : UInt32) (r : Hashed) :
    Returns mem strLen r ↔ r = hashedOf mem strLen := by
  have hword := @wordLoop_ends mem (lenOf strLen) 0 _
    (4 * (lenOf strLen).toNat + (remainOf strLen).toNat) (Nat.zero_add _) (Nat.le_add_right ..)
    (firstIndex mem)
  have htail := @tailLoop_ends mem (4 * (lenOf strLen).toNat) (remainOf strLen) 0 _
    (Nat.zero_add _) (hashWords (lenOf strLen).toNat (firstIndex mem)
      (Memory.read mem 0 (4 * (lenOf strLen).toNat + (remainOf strLen).toNat)))
  constructor
  · rintro ⟨w, t, hw, ht, hreads, hhash⟩
    obtain ⟨hwords, rfl⟩ := hw.unique hword
    obtain ⟨htailCount, rfl⟩ := ht.unique htail
    cases r
    cases hreads
    cases hhash
    cases Nat.succ.inj hwords
    cases Nat.succ.inj htailCount
    rfl
  · rintro rfl
    exact ⟨_, _, hword, htail, rfl, rfl⟩

/-! ## The string and nothing else -/

theorem readsInput_range_iff {n m words tail : Nat} {hash : UInt32} (htail : tail ≤ 4)
    (hm : 4 * words + tail = m) : ReadsInput n ⟨words, tail, List.range m, hash⟩ ↔ 0 < n ∧ m = n := by
  constructor
  · intro h
    have hpos : 0 < n := h.inside 0 (List.mem_cons_self ..)
    refine ⟨hpos, Nat.le_antisymm ?_ ?_⟩
    · by_contra hlt
      have hmem : n ∈ List.range m := List.mem_range.mpr (by omega)
      exact absurd (h.inside n (List.mem_cons_of_mem _ hmem)) (Nat.lt_irrefl n)
    · by_contra hlt
      have hone : (List.range m).count m = 1 := h.once m (by omega)
      rw [List.count_range, if_neg (Nat.lt_irrefl m)] at hone
      cases hone
  · rintro ⟨hpos, rfl⟩
    refine ⟨fun a ha => ?_, fun a ha => ?_, by dsimp only; omega, htail⟩
    · obtain rfl | ha := List.mem_cons.mp ha
      · exact hpos
      · exact List.mem_range.mp ha
    · dsimp only
      rw [List.count_range, if_pos ha]

/-- A call of `GetHash` with a string of `n` bytes returns, whatever lies in memory. It reads the
string, and nothing else, exactly when the string is not empty and its length is at most what a
`uint32` counts. -/
theorem getHash_reads_iff (mem : Nat → UInt8) (n : Nat) :
    ∃ r, Returns mem (UInt32.ofNat n) r ∧ (∀ r', Returns mem (UInt32.ofNat n) r' → r' = r) ∧
      (ReadsInput n r ↔ 0 < n ∧ n ≤ 2 ^ 32) := by
  refine ⟨hashedOf mem (UInt32.ofNat n), (returns_iff ..).mpr rfl,
    fun r' => (returns_iff ..).mp, ?_⟩
  have hmod : (UInt32.ofNat n).toNat = n % 2 ^ 32 := UInt32.toNat_ofNat'
  have htail : (remainOf (UInt32.ofNat n)).toNat ≤ 4 := by
    rw [remainOf_toNat]
    split <;> omega
  rw [hashedOf, readsInput_range_iff htail rfl, scanned, hmod]
  refine and_congr_right fun hpos => ?_
  split <;> omega

/-- The bytes read are those of the words and of the tail. -/
theorem mem_reads (mem : Nat → UInt8) (strLen : UInt32) (a : Nat) :
    a ∈ (hashedOf mem strLen).reads ↔
      a < 4 * (lenOf strLen).toNat + (remainOf strLen).toNat := List.mem_range

/-- For an empty account the word loop runs a billion times, and reads the whole address range of a
`uint32` behind the string. -/
theorem empty_account_overruns :
    ∃ r, Returns (fun _ => 0) (UInt32.ofNat 0) r ∧ r.words = 1073741823 ∧ 4294967295 ∈ r.reads ∧
      ¬ ReadsInput 0 r := by
  have hlen : (lenOf (UInt32.ofNat 0)).toNat = 1073741823 := by decide
  have hlast : 4294967295 < 4 * (lenOf (UInt32.ofNat 0)).toNat + (remainOf (UInt32.ofNat 0)).toNat := by
    rw [scanned, if_pos (by decide)]
    decide
  refine ⟨hashedOf (fun _ => 0) (UInt32.ofNat 0), (returns_iff ..).mpr rfl, ?_, ?_, fun h => ?_⟩
  · rw [hashedOf, hlen]
  · exact (mem_reads _ _ _).mpr hlast
  · exact absurd (h.inside 0 (List.mem_cons_self ..)) (Nat.lt_irrefl 0)

/-! ## The hash of a plain name -/

/-- A first byte without its highest bit is the same with a sign. -/
theorem firstIndex_plain {mem : Nat → UInt8} (h : (mem 0).toNat < 128) :
    firstIndex mem = (0xe6ee7103 : UInt32) ^^^ ((mem 0).toUInt32 <<< 7) := by
  have hall : ∀ n : Fin 128, ((UInt8.ofNat n).toInt8.toInt32 <<< 7).toUInt32 =
      (UInt8.ofNat n).toUInt32 <<< 7 := by decide +kernel
  have hbyte := hall ⟨(mem 0).toNat, h⟩
  rw [UInt8.ofNat_toNat] at hbyte
  rw [firstIndex, hbyte]

/-- For a name that is not empty and begins with a plain byte, the result is `getHash`. -/
theorem returns_getHash {mem : Nat → UInt8} {n : Nat} (hpos : 0 < n) (hlt : n < 2 ^ 32)
    (h : (mem 0).toNat < 128) {r : Hashed} (hr : Returns mem (UInt32.ofNat n) r) :
    r.hash = getHash (Memory.read mem 0 n) := by
  have hmod : (UInt32.ofNat n).toNat = n := UInt32.toNat_ofNat_of_lt' hlt
  have hscan := scanned (UInt32.ofNat n)
  rw [hmod, if_neg (Nat.ne_of_gt hpos)] at hscan
  have hremain := remainOf_toNat (UInt32.ofNat n)
  rw [hmod] at hremain
  have hlen : (lenOf (UInt32.ofNat n)).toNat = (n - (remainOf (UInt32.ofNat n)).toNat) / 4 := by
    omega
  have hhead : (Memory.read mem 0 n).headD 0 = mem 0 := by
    obtain ⟨m, rfl⟩ := Nat.exists_eq_succ_of_ne_zero (Nat.ne_of_gt hpos)
    rw [Memory.read_succ]
    rfl
  have hdrop : (Memory.read mem 0 n).drop (4 * (lenOf (UInt32.ofNat n)).toNat) =
      Memory.read mem (4 * (lenOf (UInt32.ofNat n)).toNat) (remainOf (UInt32.ofNat n)).toNat := by
    rw [Memory.drop_read _ _ _ _ (by omega), Nat.zero_add]
    exact congrArg _ (by omega)
  cases (returns_iff ..).mp hr
  simp only [hashedOf, getHash, Memory.read_length, ← hremain, ← hlen, hhead, hdrop,
    firstIndex_plain h, hscan]

end AuthSvr
