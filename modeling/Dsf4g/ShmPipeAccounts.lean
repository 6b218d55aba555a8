import Dsf4g.ShmPipeQueue

/-!
# What the pipe takes to be queued

`GetUsedSize` adds the indices the wrong way round once `_end` has wrapped. A whole ring never
notices, but `GetOneData` holds the length of a damaged frame against nothing else.
-/
namespace ShmPipe

/-! ## Both sizes -/

theorem usedSize_linear {p : Pipe} (hend : p.endIdx < 2 ^ 32) (h : p.beginIdx ≤ p.endIdx) :
    getUsedSize p = p.endIdx - p.beginIdx := by
  unfold getUsedSize
  by_cases he : p.beginIdx = p.endIdx
  · rw [if_pos he]
    omega
  · rw [if_neg he, if_pos (by omega), sub32_eq hend h]

theorem usedSize_wrapped {p : Pipe} (hend : p.endIdx < 2 ^ 32) (h : p.endIdx < p.beginIdx) :
    getUsedSize p = (p.size + p.beginIdx - p.endIdx) % 2 ^ 32 := by
  unfold getUsedSize
  rw [if_neg (by omega), if_neg (by omega)]
  unfold sub32 u32
  omega

theorem leftSize_linear {p : Pipe} (hsize : p.size < 2 ^ 32) (hend : p.endIdx < p.size)
    (h : p.beginIdx ≤ p.endIdx) : getLeftSize p = p.size - 1 - (p.endIdx - p.beginIdx) := by
  unfold getLeftSize
  by_cases he : p.beginIdx = p.endIdx
  · simp only [he, if_true]
    rw [sub32_eq hsize (by omega)]
    omega
  · simp only [he, if_false]
    rw [if_neg (by omega), sub32_eq hsize (by omega), u32_eq (by omega),
      sub32_eq (by omega) (by omega)]
    omega

theorem leftSize_wrapped {p : Pipe} (hbegin : p.beginIdx < 2 ^ 32) (h : p.endIdx < p.beginIdx) :
    getLeftSize p = p.beginIdx - p.endIdx - 1 := by
  unfold getLeftSize
  simp only [if_neg (Nat.ne_of_gt h), if_pos h]
  rw [sub32_eq hbegin (Nat.le_of_lt h), sub32_eq (by omega) (by omega)]

/-- The two sizes fill the ring exactly when `_end` has not wrapped, or the gap is half of what a
`uint32` counts. -/
theorem sizes_sum_iff {p : Pipe} (hsize : p.size < 2 ^ 32) (hbegin : p.beginIdx < p.size)
    (hend : p.endIdx < p.size) :
    getUsedSize p + getLeftSize p = p.size - 1 ↔
      p.beginIdx ≤ p.endIdx ∨ p.beginIdx - p.endIdx = 2 ^ 31 := by
  by_cases h : p.beginIdx ≤ p.endIdx
  · rw [usedSize_linear (by omega) h, leftSize_linear hsize hend h]
    exact iff_of_true (by omega) (.inl h)
  · rw [usedSize_wrapped (by omega) (by omega), leftSize_wrapped (by omega) (by omega)]
    omega

/-- What the sizes should be while the queue is in the pipe. -/
structure Accounted (p : Pipe) (q : Fifo (List UInt8)) : Prop where
  used : getUsedSize p = q.occupancy frameCost
  left : getLeftSize p = p.size - 1 - q.occupancy frameCost
  sum : getUsedSize p + getLeftSize p = p.size - 1

theorem Represents.accounted_iff {p : Pipe} {q : Fifo (List UInt8)} (h : Represents p q.items) :
    Accounted p q ↔ p.beginIdx ≤ p.endIdx := by
  have hsize := h.size_le
  have hbegin := h.begin_lt
  have hend := h.end_lt
  have hfits := h.fits
  have hcases := h.end_cases
  have hsum := sizes_sum_iff (by omega) hbegin hend
  constructor
  · intro ha
    obtain hle | hgap := hsum.mp ha.sum
    · exact hle
    · omega
  · intro hle
    have hocc := occupancy_eq q
    refine ⟨?_, by rw [hocc, h.leftSize], hsum.mpr (.inl hle)⟩
    rw [hocc, usedSize_linear (by omega) hle]
    split at hcases <;> omega

/-- In every state between calls the sizes agree with the queue exactly when `_end` has not wrapped,
and for any two indices they add up to the ring but for the byte that stays free exactly then, or when
the indices are 2^31 apart. -/
theorem accounts_exact_iff (size : Nat) :
    (∀ (mem : Nat → UInt8) (os : List Op), 1 ≤ size → size ≤ 2 ^ 31 →
      (Accounted (pipeRun (pipeInitialize size mem) os).2 (queueRun ⟨size, []⟩ os).2 ↔
        (pipeRun (pipeInitialize size mem) os).2.beginIdx ≤
          (pipeRun (pipeInitialize size mem) os).2.endIdx)) ∧
    ∀ p : Pipe, p.size = size → size < 2 ^ 32 → p.beginIdx < size → p.endIdx < size →
      (getUsedSize p + getLeftSize p = size - 1 ↔
        p.beginIdx ≤ p.endIdx ∨ p.beginIdx - p.endIdx = 2 ^ 31) := by
  refine ⟨fun mem os h₁ h₂ => ?_, ?_⟩
  · have hinit : Simulates (pipeInitialize size mem) ⟨size, []⟩ :=
      ⟨rfl, initialize_represents size mem h₁ h₂⟩
    obtain ⟨-, -, hrep⟩ := run_simulates hinit os
    exact hrep.accounted_iff
  · rintro p rfl hsize hbegin hend
    exact sizes_sum_iff hsize hbegin hend

/-- A ring of sixteen bytes with one frame, and the two indices of any ring of that size. -/
theorem accounts_exact_iff_sixteen :
    Accounted (pipeRun (pipeInitialize 16 fun _ => 0) [.append [1, 2, 3]]).2
        (queueRun ⟨16, []⟩ [.append [1, 2, 3]]).2 ∧
      getUsedSize ⟨3, 9, 16, fun _ => 0⟩ + getLeftSize ⟨3, 9, 16, fun _ => 0⟩ = 15 :=
  ⟨((accounts_exact_iff 16).1 (fun _ => 0) [.append [1, 2, 3]] (by decide) (by decide)).mpr
      (by decide +kernel),
    ((accounts_exact_iff 16).2 ⟨3, 9, 16, fun _ => 0⟩ rfl (by decide) (by decide) (by decide)).mpr
      (.inl (by decide))⟩

/-- A frame of eight bytes is queued across the end of a ring of sixteen: twelve bytes are used, and
twenty are reported. -/
theorem wrapped_overreports :
    ∃ os, getUsedSize (pipeRun (pipeInitialize 16 fun _ => 0) os).2 = 20 ∧
      (queueRun ⟨16, []⟩ os).2.occupancy frameCost = 12 ∧
      ¬ Accounted (pipeRun (pipeInitialize 16 fun _ => 0) os).2 (queueRun ⟨16, []⟩ os).2 := by
  have hused : getUsedSize (pipeRun (pipeInitialize 16 fun _ => 0)
      [.append [1, 2, 3, 4, 5, 6], .get 8, .append [1, 2, 3, 4, 5, 6, 7, 8]]).2 = 20 := by
    decide +kernel
  have hocc : (queueRun ⟨16, []⟩
      [.append [1, 2, 3, 4, 5, 6], .get 8, .append [1, 2, 3, 4, 5, 6, 7, 8]]).2.occupancy
        frameCost = 12 := by
    decide +kernel
  refine ⟨_, hused, hocc, fun h => ?_⟩
  have heq := h.used
  rw [hused, hocc] at heq
  cases heq

/-! ## Reading a damaged ring -/

def published (p : Pipe) : Nat :=
  if p.beginIdx ≤ p.endIdx then p.endIdx - p.beginIdx else p.size - p.beginIdx + p.endIdx

def lengthWord (p : Pipe) : Nat := Bytes.ofLe (Ring.read p.buf p.size p.beginIdx 4)

/-- A call moves nothing, throws the published bytes away, or takes a frame that lies in them. -/
inductive Inside (p : Pipe) (r : GetResult) : Prop
  | kept (hok : r.ok = false) (hpipe : r.pipe = p)
  | resync (hok : r.ok = false) (hpipe : r.pipe = { p with beginIdx := p.endIdx })
  | frame (hok : r.ok = true) (hfits : 4 + r.bufLen ≤ published p)
      (hdata : r.data = Ring.read p.buf p.size ((p.beginIdx + 4) % p.size) r.bufLen)
      (hpipe : r.pipe = { p with beginIdx := (p.beginIdx + 4 + r.bufLen) % p.size })

/-- `_end` has not wrapped, or the length word is refused, or the frame it announces is published
and its end can be computed. -/
def Trusted (p : Pipe) (maxBufLen : Nat) : Prop :=
  p.beginIdx ≤ p.endIdx ∨ (p.size + p.beginIdx - p.endIdx) % 2 ^ 32 < 4 + lengthWord p ∨
    maxBufLen < lengthWord p ∨
      (4 + lengthWord p ≤ published p ∧ (p.beginIdx + 4) % p.size + lengthWord p < 2 ^ 32)

/-- Everything that `GetOneData` can do to a ring with any content. -/
theorem getOneData_cases {p : Pipe} (hsize : p.size < 2 ^ 32) (hbegin : p.beginIdx < p.size)
    (hend : p.endIdx < p.size) (maxBufLen : Nat) :
    (getUsedSize p < 4 + lengthWord p ∧ (getOneData p maxBufLen).ok = false ∧
      ((getOneData p maxBufLen).pipe = p ∨
        (getOneData p maxBufLen).pipe = { p with beginIdx := p.endIdx })) ∨
    (4 + lengthWord p ≤ getUsedSize p ∧ maxBufLen < lengthWord p ∧
      getOneData p maxBufLen = ⟨p, false, lengthWord p, []⟩) ∨
    (4 + lengthWord p ≤ getUsedSize p ∧ lengthWord p ≤ maxBufLen ∧
      getOneData p maxBufLen =
        ⟨{ p with beginIdx := u32 ((p.beginIdx + 4) % p.size + lengthWord p) % p.size }, true,
          lengthWord p, copyOut p ((p.beginIdx + 4) % p.size) (lengthWord p)⟩) := by
  have hheader := getBytes_eq hsize p.buf 4 p.beginIdx hbegin
  have hsync : setIndex p (some p.endIdx) none = { p with beginIdx := p.endIdx } := by
    simp only [setIndex, if_pos hend]
  by_cases h0 : getUsedSize p = 0
  · refine .inl ⟨by omega, ?_⟩
    have heq : getOneData p maxBufLen = ⟨p, false, maxBufLen, []⟩ := by
      simp only [getOneData, if_pos h0]
    rw [heq]
    exact ⟨rfl, .inl rfl⟩
  by_cases h4 : getUsedSize p < 4
  · refine .inl ⟨by omega, ?_⟩
    have heq : getOneData p maxBufLen = ⟨{ p with beginIdx := p.endIdx }, false, maxBufLen, []⟩ := by
      simp only [getOneData, if_neg h0, if_pos h4, hsync]
    rw [heq]
    exact ⟨rfl, .inr rfl⟩
  simp only [getOneData, if_neg h0, if_neg h4, hheader]
  by_cases hused : lengthWord p + 4 > getUsedSize p
  · refine .inl ⟨by omega, ?_⟩
    rw [lengthWord] at hused
    rw [if_pos hused]
    exact ⟨rfl, .inr hsync⟩
  right
  by_cases hmax : lengthWord p > maxBufLen
  · refine .inl ⟨by omega, hmax, ?_⟩
    rw [lengthWord] at hused hmax
    rw [if_neg hused, if_pos hmax]
    rfl
  · refine .inr ⟨by omega, Nat.not_lt.mp hmax, ?_⟩
    have hlt : u32 ((p.beginIdx + 4) % p.size + lengthWord p) % p.size < p.size :=
      Nat.mod_lt _ (by omega)
    rw [lengthWord] at hused hmax hlt
    rw [if_neg hused, if_neg hmax]
    simp only [setIndex, if_pos hlt]
    rfl

/-- In the linear layout both sizes are right. -/
theorem usedSize_published {p : Pipe} (hend : p.endIdx < 2 ^ 32) (h : p.beginIdx ≤ p.endIdx) :
    getUsedSize p = published p := by
  rw [usedSize_linear hend h, published, if_pos h]

theorem published_lt {p : Pipe} (hend : p.endIdx < p.size) : published p < p.size := by
  unfold published
  split <;> omega

/-- A published frame is copied from where it lies. -/
theorem copyOut_published {p : Pipe} (hsize : p.size < 2 ^ 32) (hbegin : p.beginIdx < p.size)
    (hend : p.endIdx < p.size) {len : Nat} (h : 4 + len ≤ published p) :
    copyOut p ((p.beginIdx + 4) % p.size) len =
      Ring.read p.buf p.size ((p.beginIdx + 4) % p.size) len := by
  have hpub := published_lt hend
  apply copyOut_eq p _ len hsize (Nat.mod_lt _ (by omega)) (by omega)
  rw [Ring.add_mod_eq hbegin (by omega)]
  unfold published at h
  split at h <;> split <;> omega

/-- The new `_begin` is right when the sum of its two parts is a `uint32`. -/
theorem nextBegin_eq_iff {p : Pipe} (hsize : p.size < 2 ^ 32) {len : Nat} (hlen : len < p.size) :
    u32 ((p.beginIdx + 4) % p.size + len) % p.size = (p.beginIdx + 4 + len) % p.size ↔
      (p.beginIdx + 4) % p.size + len < 2 ^ 32 := by
  have hlt : (p.beginIdx + 4) % p.size < p.size := Nat.mod_lt _ (by omega)
  rw [← Nat.mod_add_mod (p.beginIdx + 4)]
  generalize (p.beginIdx + 4) % p.size = a at hlt
  unfold u32
  by_cases h : a + len < 2 ^ 32
  · rw [Nat.mod_eq_of_lt h]
    exact iff_of_true rfl h
  · refine iff_of_false (fun he => ?_) h
    rw [show (a + len) % 2 ^ 32 = a + len - 2 ^ 32 by omega,
      Nat.mod_eq_of_lt (by omega : a + len - 2 ^ 32 < p.size),
      Ring.add_mod_eq hlt (by omega)] at he
    split at he <;> omega

/-- `GetOneData` keeps to the published bytes of a ring with any content exactly when `_end` has not
wrapped, or it refuses the length word at `_begin`, or the frame announced there is published. -/
theorem getOneData_inside_iff (p : Pipe) (maxBufLen : Nat) (h5 : 5 ≤ p.size)
    (hsize : p.size < 2 ^ 32) (hbegin : p.beginIdx < p.size) (hend : p.endIdx < p.size)
    (hmax : maxBufLen < p.size) :
    Inside p (getOneData p maxBufLen) ↔ Trusted p maxBufLen := by
  have hused : ¬ p.beginIdx ≤ p.endIdx →
      getUsedSize p = (p.size + p.beginIdx - p.endIdx) % 2 ^ 32 := fun h =>
    usedSize_wrapped (by omega) (by omega)
  obtain ⟨hshort, hok, hpipe⟩ | ⟨hlong, hlimit, heq⟩ | ⟨hlong, hlimit, heq⟩ :=
    getOneData_cases hsize hbegin hend maxBufLen
  · refine iff_of_true ?_ ?_
    · exact hpipe.elim (.kept hok) (.resync hok)
    · by_cases hle : p.beginIdx ≤ p.endIdx
      · exact .inl hle
      · rw [hused hle] at hshort
        exact .inr (.inl hshort)
  · rw [heq]
    exact iff_of_true (.kept rfl rfl) (.inr (.inr (.inl hlimit)))
  · rw [heq]
    have hlt : lengthWord p < p.size := by omega
    constructor
    · intro h
      cases h with
      | kept hok => cases hok
      | resync hok => cases hok
      | frame _ hfits _ hpipe =>
        have hnext := (nextBegin_eq_iff hsize hlt).mp (congrArg Pipe.beginIdx hpipe)
        exact .inr (.inr (.inr ⟨hfits, hnext⟩))
    · intro h
      have hfits : 4 + lengthWord p ≤ published p ∧
          (p.beginIdx + 4) % p.size + lengthWord p < 2 ^ 32 := by
        by_cases hle : p.beginIdx ≤ p.endIdx
        · rw [usedSize_published (by omega) hle] at hlong
          refine ⟨hlong, ?_⟩
          rw [published, if_pos hle] at hlong
          rw [Nat.mod_eq_of_lt (by omega)]
          omega
        · rw [hused hle] at hlong
          obtain hle' | hshort | hlimit' | h := h
          · exact absurd hle' hle
          · omega
          · omega
          · exact h
      refine .frame rfl hfits.1 (copyOut_published hsize hbegin hend hfits.1) ?_
      rw [(nextBegin_eq_iff hsize hlt).mpr hfits.2]

/-- The ring of sixteen bytes with the length word `len` at ten. -/
def damaged (endIdx : Nat) (len : UInt8) : Pipe :=
  ⟨10, endIdx, 16, fun i => if i = 10 then len else 0⟩

/-- Four bytes behind the word, two of them at the front of the ring. -/
theorem getOneData_inside_iff_four : Inside (damaged 2 4) (getOneData (damaged 2 4) 12) :=
  (getOneData_inside_iff (damaged 2 4) 12 (by decide) (by decide) (by decide) (by decide)
    (by decide)).mpr (.inr (.inr (.inr (by decide +kernel))))

/-- Four bytes are published behind a word that announces ten. The call returns them, and `_begin`
stands six bytes behind `_end`. -/
theorem damaged_overruns :
    (getOneData (damaged 2 10) 12).ok = true ∧ (getOneData (damaged 2 10) 12).bufLen = 10 ∧
      published (damaged 2 10) = 8 ∧ (getOneData (damaged 2 10) 12).pipe.beginIdx = 8 ∧
      ¬ Inside (damaged 2 10) (getOneData (damaged 2 10) 12) := by
  have hok : (getOneData (damaged 2 10) 12).ok = true := by decide +kernel
  have hlen : (getOneData (damaged 2 10) 12).bufLen = 10 := by decide +kernel
  have hpub : published (damaged 2 10) = 8 := by decide
  refine ⟨hok, hlen, hpub, by decide +kernel, fun h => ?_⟩
  cases h with
  | kept hno => cases hok.symm.trans hno
  | resync hno => cases hok.symm.trans hno
  | frame _ hfits =>
    rw [hlen, hpub] at hfits
    exact absurd hfits (by decide)

end ShmPipe
