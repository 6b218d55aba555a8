import Dsf4g.Lib.Fifo
import Dsf4g.Lib.Ring
import Dsf4g.ShmPipe

/-!
# The pipe as a bounded queue of byte strings

One representation invariant covers every position of `_begin` and `_end`: the
published cells, read cyclically from `_begin`, are the queued frames with their
length headers, and they never fill the last free cell. A run of the pipe then
answers exactly like a run of the abstract queue.
-/
namespace ShmPipe

/-- Ring cells a frame occupies: the length header and the payload. -/
def frameCost (f : List UInt8) : Nat := 4 + f.length

def encodeFrame (f : List UInt8) : List UInt8 := Bytes.le 4 f.length ++ f

def stream (q : List (List UInt8)) : List UInt8 := q.flatMap encodeFrame

@[simp] theorem stream_nil : stream [] = [] := rfl
@[simp] theorem stream_cons (f : List UInt8) (q : List (List UInt8)) :
    stream (f :: q) = encodeFrame f ++ stream q := by simp [stream]
@[simp] theorem stream_append (q r : List (List UInt8)) : stream (q ++ r) = stream q ++ stream r := by
  simp [stream]
@[simp] theorem encodeFrame_length (f : List UInt8) : (encodeFrame f).length = frameCost f := by
  simp [encodeFrame, frameCost]

theorem stream_length (q : List (List UInt8)) : (stream q).length = (q.map frameCost).sum := by
  induction q with
  | nil => rfl
  | cons f q ih => simp [ih]

/-- The published cells hold the queue `q`. -/
structure Represents (p : Pipe) (q : List (List UInt8)) : Prop where
  size_pos : 1 ≤ p.size
  size_le : p.size ≤ 2 ^ 31
  begin_lt : p.beginIdx < p.size
  fits : (stream q).length ≤ p.size - 1
  end_eq : p.endIdx = (p.beginIdx + (stream q).length) % p.size
  bytes : Ring.read p.buf p.size p.beginIdx (stream q).length = stream q

theorem sub32_eq {a b : Nat} (ha : a < 2 ^ 32) (hb : b ≤ a) : sub32 a b = a - b := by
  unfold sub32 u32
  omega

theorem u32_eq {a : Nat} (ha : a < 2 ^ 32) : u32 a = a := by
  unfold u32
  exact Nat.mod_eq_of_lt ha

/-- `_end` seen from `_begin`, with the wrap made explicit. -/
theorem Represents.end_cases {p : Pipe} {q : List (List UInt8)} (h : Represents p q) :
    p.endIdx = if p.beginIdx + (stream q).length < p.size then p.beginIdx + (stream q).length
      else p.beginIdx + (stream q).length - p.size := by
  rw [h.end_eq, Ring.add_mod_eq h.begin_lt (by have := h.fits; omega)]

theorem Represents.end_lt {p : Pipe} {q : List (List UInt8)} (h : Represents p q) :
    p.endIdx < p.size := by
  rw [h.end_eq]
  exact Nat.mod_lt _ h.size_pos

theorem Represents.leftSize {p : Pipe} {q : List (List UInt8)} (h : Represents p q) :
    getLeftSize p = p.size - 1 - (stream q).length := by
  have h₁ := h.end_cases
  have h₂ := h.fits
  have h₃ := h.begin_lt
  have h₄ := h.size_le
  have h₅ := h.size_pos
  have h₆ := h.end_lt
  unfold getLeftSize
  by_cases he : p.beginIdx = p.endIdx
  · simp only [he, if_true]
    rw [sub32_eq (by omega) (by omega)]
    split at h₁ <;> omega
  · by_cases hg : p.beginIdx > p.endIdx
    · simp only [he, hg, if_true, if_false]
      rw [sub32_eq (a := p.beginIdx) (by omega) (by omega), sub32_eq (by omega) (by omega)]
      split at h₁ <;> omega
    · simp only [he, hg, if_false]
      rw [sub32_eq (a := p.size) (by omega) (by omega), u32_eq (by omega),
        sub32_eq (by omega) (by omega)]
      split at h₁ <;> omega

/-- The empty pipe is recognised exactly. -/
theorem Represents.usedSize_empty {p : Pipe} (h : Represents p []) : getUsedSize p = 0 := by
  have he := h.end_eq
  have hb := h.begin_lt
  simp only [stream_nil, List.length_nil, Nat.add_zero, Nat.mod_eq_of_lt hb] at he
  simp [getUsedSize, he]

/-- The wrapped formula is too large but never too small, which is all that the
two plausibility checks of `GetOneData` need. -/
theorem Represents.usedSize_ge {p : Pipe} {q : List (List UInt8)} (h : Represents p q) :
    (stream q).length ≤ getUsedSize p := by
  have h₁ := h.end_cases
  have h₂ := h.fits
  have h₃ := h.begin_lt
  have h₄ := h.size_le
  have h₆ := h.end_lt
  unfold getUsedSize
  by_cases he : p.beginIdx = p.endIdx
  · split at h₁ <;> omega
  · by_cases hl : p.beginIdx < p.endIdx
    · simp only [he, hl, if_true, if_false]
      rw [sub32_eq (by omega) (by omega)]
      split at h₁ <;> omega
    · simp only [he, hl, if_false]
      rw [u32_eq (by omega), sub32_eq (by omega) (by omega)]
      omega

theorem putBytes_eq {size : Nat} (hsize : size ≤ 2 ^ 31) (xs : List UInt8) (buf : Nat → UInt8)
    (e : Nat) (he : e < size) :
    putBytes size xs buf e = (Ring.write buf size e xs, (e + xs.length) % size) := by
  induction xs generalizing buf e with
  | nil => simp [putBytes, Ring.write, Nat.mod_eq_of_lt he]
  | cons x xs ih =>
    rw [putBytes, u32_eq (by omega), ih _ _ (Nat.mod_lt _ (by omega)), Nat.mod_add_mod,
      List.length_cons, Nat.add_assoc, Nat.add_comm 1]
    rfl

theorem getBytes_eq {size : Nat} (hsize : size < 2 ^ 32) (buf : Nat → UInt8) (n b : Nat)
    (hb : b < size) : getBytes buf size n b = (Ring.read buf size b n, (b + n) % size) := by
  induction n generalizing b with
  | zero => simp [getBytes, Nat.mod_eq_of_lt hb]
  | succ n ih =>
    rw [getBytes, u32_eq (by omega), ih _ (Nat.mod_lt _ (by omega)), Nat.mod_add_mod]
    rw [Nat.add_comm n 1, Ring.read_add, Nat.add_assoc]
    simp [Ring.read, Nat.mod_eq_of_lt hb]

/-- Both branches of the payload copy store the payload cyclically, provided the
contiguous one is only taken when the payload ends before the ring does. -/
theorem copyIn_eq (p : Pipe) (buf : Nat → UInt8) (e : Nat) (data : List UInt8)
    (hsize : p.size ≤ 2 ^ 31) (he : e < p.size) (hd : data.length ≤ p.size)
    (hgap : p.beginIdx > e → e + data.length ≤ p.size) :
    copyIn p buf e data = Ring.write buf p.size e data := by
  unfold copyIn
  by_cases hg : p.beginIdx > e
  · simp only [hg, if_true]
    rw [Ring.write_contiguous _ _ he (hgap hg)]
  · simp only [hg, if_false]
    rw [sub32_eq (by omega) (by omega)]
    by_cases hl : p.size - e ≥ data.length
    · simp only [hl, if_true]
      rw [Ring.write_contiguous _ _ he (by omega)]
    · simp only [hl, if_false]
      rw [Ring.write_split _ _ he hd (by omega)]

theorem copyOut_eq (p : Pipe) (b len : Nat) (hsize : p.size < 2 ^ 32) (hb : b < p.size)
    (hl : len ≤ p.size) (hgap : b < p.endIdx → b + len ≤ p.size) :
    copyOut p b len = Ring.read p.buf p.size b len := by
  unfold copyOut
  by_cases hg : b < p.endIdx
  · simp only [hg, if_true]
    rw [Ring.read_contiguous _ (hgap hg)]
  · simp only [hg, if_false]
    rw [sub32_eq (by omega) (by omega)]
    by_cases hc : p.size - b ≥ len
    · simp only [hc, if_true]
      rw [Ring.read_contiguous _ (by omega)]
    · simp only [hc, if_false]
      rw [Ring.read_split _ hb hl (by omega)]

theorem initialize_represents (size : Nat) (mem : Nat → UInt8) (h₁ : 1 ≤ size)
    (h₂ : size ≤ 2 ^ 31) : Represents (pipeInitialize size mem) [] where
  size_pos := h₁
  size_le := h₂
  begin_lt := h₁
  fits := by simp
  end_eq := by simp [pipeInitialize]
  bytes := by simp

theorem appendOneData_refused {p : Pipe} {q : List (List UInt8)} (h : Represents p q)
    (f : List UInt8) (hf : ¬ (stream q).length + frameCost f ≤ p.size - 1) :
    appendOneData p f = ⟨p, false⟩ := by
  have := h.fits
  have hf' : p.size - 1 < (stream q).length + (4 + f.length) := by
    simpa [frameCost] using hf
  unfold appendOneData
  rw [if_pos (by rw [h.leftSize]; omega)]

/-- An accepted append stores header and payload in one cyclic segment behind the
published cells, and publishes it by moving `_end` past it. -/
theorem appendOneData_eq {p : Pipe} {q : List (List UInt8)} (h : Represents p q)
    (f : List UInt8) (hf : (stream q).length + frameCost f ≤ p.size - 1) :
    appendOneData p f =
      ⟨{ p with
        buf := Ring.write p.buf p.size p.endIdx (encodeFrame f)
        endIdx := (p.endIdx + frameCost f) % p.size }, true⟩ := by
  have h₁ := h.end_cases
  have h₃ := h.begin_lt
  have h₄ := h.size_le
  have h₅ := h.size_pos
  have h₆ := h.end_lt
  have hf' : (stream q).length + (4 + f.length) ≤ p.size - 1 := hf
  have hhead : (p.endIdx + 4) % p.size < p.size := Nat.mod_lt _ h₅
  have hcopy := copyIn_eq p (Ring.write p.buf p.size p.endIdx (Bytes.le 4 f.length))
    ((p.endIdx + 4) % p.size) f h₄ hhead (by omega) (by
      rw [Ring.add_mod_eq h₆ (by omega)]
      split at h₁ <;> split <;> omega)
  unfold appendOneData
  rw [if_neg (by rw [h.leftSize]; omega), putBytes_eq h₄ _ _ _ h₆]
  simp only [Bytes.le_length, hcopy]
  rw [u32_eq (by omega), Nat.mod_add_mod, Nat.add_assoc]
  have hlast : (p.endIdx + (4 + f.length)) % p.size < p.size := Nat.mod_lt _ h₅
  simp only [setIndex, hlast, if_true, encodeFrame, frameCost,
    Ring.write_append _ _ _ h₆, Bytes.le_length]

/-- A frame that fits is queued. -/
theorem appendOneData_represents {p : Pipe} {q : List (List UInt8)} (h : Represents p q)
    (f : List UInt8) (hf : (stream q).length + frameCost f ≤ p.size - 1) :
    Represents (appendOneData p f).pipe (q ++ [f]) := by
  have h₅ := h.size_pos
  have hfit : (stream (q ++ [f])).length ≤ p.size - 1 := by simpa using hf
  rw [appendOneData_eq h f hf]
  refine ⟨h.size_pos, h.size_le, h.begin_lt, hfit, ?_, ?_⟩
  · simp [h.end_eq, Nat.add_assoc]
  · simp only [stream_append, stream_cons, stream_nil, List.append_nil, List.length_append]
    rw [Ring.read_add, h.end_eq, Ring.read_write_behind _ _ h.begin_lt (by simp; omega), h.bytes,
      Ring.read_write_same _ _ (Nat.mod_lt _ h₅) (by simp; omega)]

theorem getOneData_empty {p : Pipe} (h : Represents p []) (m : Nat) :
    getOneData p m = ⟨p, false, m, []⟩ := by
  simp [getOneData, h.usedSize_empty]

/-- Reading the published segment in two steps gives the header of the oldest
frame, then its payload. -/
theorem read_head_frame {p : Pipe} {f : List UInt8} {q : List (List UInt8)}
    (h : Represents p (f :: q)) :
    Ring.read p.buf p.size p.beginIdx 4 = Bytes.le 4 f.length ∧
      Ring.read p.buf p.size ((p.beginIdx + 4) % p.size) f.length = f ∧
      Ring.read p.buf p.size ((p.beginIdx + frameCost f) % p.size) (stream q).length =
        stream q := by
  have hb := h.bytes
  rw [stream_cons, List.length_append, Ring.read_add] at hb
  obtain ⟨hframe, hrest⟩ := List.append_inj hb (by simp)
  rw [encodeFrame_length] at hframe hrest
  rw [frameCost, Ring.read_add] at hframe
  obtain ⟨hhead, hdata⟩ := List.append_inj hframe (by simp)
  exact ⟨hhead, hdata, hrest⟩

theorem getOneData_oversize {p : Pipe} {f : List UInt8} {q : List (List UInt8)}
    (h : Represents p (f :: q)) (m : Nat) (hm : m < f.length) :
    getOneData p m = ⟨p, false, f.length, []⟩ := by
  have hu := h.usedSize_ge
  have hfit := h.fits
  have h₄ := h.size_le
  simp only [stream_cons, List.length_append, encodeFrame_length, frameCost] at hu hfit
  unfold getOneData
  simp only
  rw [if_neg (by omega), if_neg (by omega), getBytes_eq (by omega) _ _ _ h.begin_lt,
    (read_head_frame h).1, Bytes.ofLe_le_of_lt (by omega), if_neg (by omega),
    if_pos hm]

theorem getOneData_eq {p : Pipe} {f : List UInt8} {q : List (List UInt8)}
    (h : Represents p (f :: q)) (m : Nat) (hm : f.length ≤ m) :
    getOneData p m =
      ⟨{ p with beginIdx := (p.beginIdx + frameCost f) % p.size }, true, f.length, f⟩ := by
  have hu := h.usedSize_ge
  have hfit := h.fits
  have h₁ := h.end_cases
  have h₃ := h.begin_lt
  have h₄ := h.size_le
  have h₅ := h.size_pos
  have h₆ := h.end_lt
  simp only [stream_cons, List.length_append, encodeFrame_length, frameCost] at hu hfit h₁
  have hcopy := copyOut_eq p ((p.beginIdx + 4) % p.size) f.length (by omega) (Nat.mod_lt _ h₅)
    (by omega) (by
      rw [Ring.add_mod_eq h₃ (by omega)]
      split at h₁ <;> split <;> omega)
  have hnext : (p.beginIdx + (4 + f.length)) % p.size < p.size := Nat.mod_lt _ h₅
  unfold getOneData
  simp only
  rw [if_neg (by omega), if_neg (by omega), getBytes_eq (by omega) _ _ _ h₃, (read_head_frame h).1,
    Bytes.ofLe_le_of_lt (by omega), if_neg (by omega), if_neg (by omega)]
  simp only [hcopy, (read_head_frame h).2.1]
  have hlt : (p.beginIdx + 4) % p.size < p.size := Nat.mod_lt _ h₅
  rw [u32_eq (by omega), Nat.mod_add_mod, Nat.add_assoc]
  simp only [setIndex, hnext, if_true, frameCost]

/-- The oldest frame is taken. -/
theorem getOneData_represents {p : Pipe} {f : List UInt8} {q : List (List UInt8)}
    (h : Represents p (f :: q)) (m : Nat) (hm : f.length ≤ m) :
    Represents (getOneData p m).pipe q := by
  have hfit := h.fits
  simp only [stream_cons, List.length_append, encodeFrame_length] at hfit
  rw [getOneData_eq h m hm]
  refine ⟨h.size_pos, h.size_le, Nat.mod_lt _ h.size_pos, ?_, ?_, ?_⟩
  · show (stream q).length ≤ p.size - 1
    omega
  · simp [h.end_eq, Nat.add_assoc]
  · exact (read_head_frame h).2.2

inductive Op where
  | append (data : List UInt8)
  | get (limit : Nat)
  deriving DecidableEq, Repr

/-- A successful read reports the length and the bytes. -/
inductive Answer where
  | appended (ok : Bool)
  | got (frame : Option (Nat × List UInt8))
  deriving DecidableEq, Repr

def pipeStep (p : Pipe) : Op → Answer × Pipe
  | .append data => let r := appendOneData p data; (.appended r.ok, r.pipe)
  | .get limit =>
    let r := getOneData p limit
    (.got (if r.ok then some (r.bufLen, r.data) else none), r.pipe)

def pipeRun : Pipe → List Op → List Answer × Pipe
  | p, [] => ([], p)
  | p, o :: os => let r := pipeStep p o; let s := pipeRun r.2 os; (r.1 :: s.1, s.2)

def queueStep (q : Fifo (List UInt8)) : Op → Answer × Fifo (List UInt8)
  | .append data =>
    match q.append frameCost data with
    | some q' => (.appended true, q')
    | none => (.appended false, q)
  | .get limit =>
    match q.get List.length limit with
    | some (f, q') => (.got (some (f.length, f)), q')
    | none => (.got none, q)

def queueRun : Fifo (List UInt8) → List Op → List Answer × Fifo (List UInt8)
  | q, [] => ([], q)
  | q, o :: os => let r := queueStep q o; let s := queueRun r.2 os; (r.1 :: s.1, s.2)

/-- The simulation relation between a pipe and the abstract queue. -/
def Simulates (p : Pipe) (q : Fifo (List UInt8)) : Prop := p.size = q.size ∧ Represents p q.items

theorem occupancy_eq (q : Fifo (List UInt8)) :
    q.occupancy frameCost = (stream q.items).length := (stream_length q.items).symm

theorem step_append {p : Pipe} {q : Fifo (List UInt8)} (h : Simulates p q) (f : List UInt8) :
    (pipeStep p (.append f)).1 = (queueStep q (.append f)).1 ∧
      Simulates (pipeStep p (.append f)).2 (queueStep q (.append f)).2 := by
  obtain ⟨hsize, hrep⟩ := h
  cases ha : q.append frameCost f with
  | some q' =>
    obtain ⟨rfl, hfit⟩ := Fifo.append_eq_some frameCost ha
    rw [occupancy_eq, ← hsize] at hfit
    have hr := appendOneData_represents hrep f hfit
    have he := appendOneData_eq hrep f hfit
    simp only [pipeStep, queueStep, ha]
    rw [he] at hr ⊢
    exact ⟨rfl, hsize, hr⟩
  | none =>
    have hfull := (Fifo.append_eq_none frameCost).mp ha
    rw [occupancy_eq, ← hsize] at hfull
    simp only [pipeStep, queueStep, ha, appendOneData_refused hrep f hfull]
    exact ⟨trivial, hsize, hrep⟩

theorem step_get {p : Pipe} {q : Fifo (List UInt8)} (h : Simulates p q) (m : Nat) :
    (pipeStep p (.get m)).1 = (queueStep q (.get m)).1 ∧
      Simulates (pipeStep p (.get m)).2 (queueStep q (.get m)).2 := by
  obtain ⟨hsize, hrep⟩ := h
  cases hq : q.items with
  | nil =>
    have hrep' := hrep
    rw [hq] at hrep'
    simp only [pipeStep, queueStep, Fifo.get, hq, getOneData_empty hrep']
    exact ⟨rfl, hsize, hrep⟩
  | cons f rest =>
    have hrep' := hrep
    rw [hq] at hrep'
    by_cases hm : f.length ≤ m
    · have hr := getOneData_represents hrep' m hm
      have he := getOneData_eq hrep' m hm
      simp only [pipeStep, queueStep, Fifo.get, hq, hm, if_true]
      rw [he] at hr ⊢
      exact ⟨rfl, hsize, hr⟩
    · simp only [pipeStep, queueStep, Fifo.get, hq, hm, if_false,
        getOneData_oversize hrep' m (by omega)]
      exact ⟨rfl, hsize, hrep⟩

/-- One operation answers alike on both sides and keeps the simulation. -/
theorem step_simulates {p : Pipe} {q : Fifo (List UInt8)} (h : Simulates p q) (o : Op) :
    (pipeStep p o).1 = (queueStep q o).1 ∧ Simulates (pipeStep p o).2 (queueStep q o).2 := by
  cases o with
  | append f => exact step_append h f
  | get m => exact step_get h m

/-- By induction on the calls. -/
theorem run_simulates {p : Pipe} {q : Fifo (List UInt8)} (h : Simulates p q) (os : List Op) :
    (pipeRun p os).1 = (queueRun q os).1 ∧ Simulates (pipeRun p os).2 (queueRun q os).2 := by
  induction os generalizing p q with
  | nil => exact ⟨rfl, h⟩
  | cons o os ih =>
    obtain ⟨h₁, h₂⟩ := step_simulates h o
    obtain ⟨h₃, h₄⟩ := ih h₂
    refine ⟨?_, h₄⟩
    simp only [pipeRun, queueRun, h₁, h₃]

theorem queueRun_size (q : Fifo (List UInt8)) (os : List Op) : (queueRun q os).2.size = q.size := by
  induction os generalizing q with
  | nil => rfl
  | cons o os ih =>
    rw [queueRun, ih]
    cases o with
    | append f =>
      cases ha : q.append frameCost f with
      | some q' => simp [queueStep, ha, (Fifo.append_eq_some frameCost ha).1]
      | none => simp [queueStep, ha]
    | get m =>
      cases hg : q.get List.length m with
      | some r =>
        obtain ⟨rest, _, he⟩ := Fifo.get_eq_some hg
        simp [queueStep, hg, he]
      | none => simp [queueStep, hg]

/-- The pipe refines a bounded FIFO queue of byte strings. Every run from
`Initialize` answers like the abstract queue, and in every state it reaches the
next call is decided by the abstract contents alone: an append by the occupancy,
a read by the oldest frame. Refused calls leave the whole pipe as it was. -/
theorem pipe_refines_queue (size : Nat) (mem : Nat → UInt8) (h₁ : 1 ≤ size) (h₂ : size ≤ 2 ^ 31)
    (os : List Op) :
    let p := (pipeRun (pipeInitialize size mem) os).2
    let q := (queueRun ⟨size, []⟩ os).2
    (pipeRun (pipeInitialize size mem) os).1 = (queueRun ⟨size, []⟩ os).1 ∧
    (∀ b, ((appendOneData p b).ok = true ↔ q.occupancy frameCost + 4 + b.length ≤ size - 1) ∧
      ((appendOneData p b).ok = false → (appendOneData p b).pipe = p)) ∧
    (∀ m, q.items = [] → (getOneData p m).ok = false ∧ (getOneData p m).pipe = p) ∧
    (∀ m f rest, q.items = f :: rest →
      (f.length ≤ m → (getOneData p m).ok = true ∧ (getOneData p m).bufLen = f.length ∧
        (getOneData p m).data = f) ∧
      (m < f.length → (getOneData p m).ok = false ∧ (getOneData p m).pipe = p)) := by
  intro p q
  have hinit : Simulates (pipeInitialize size mem) ⟨size, []⟩ :=
    ⟨rfl, initialize_represents size mem h₁ h₂⟩
  obtain ⟨hanswers, hsim⟩ := run_simulates hinit os
  have hq : q.size = size := queueRun_size _ _
  obtain ⟨hp, hrep⟩ : p.size = q.size ∧ Represents p q.items := hsim
  refine ⟨hanswers, ?_, ?_, ?_⟩
  · intro b
    by_cases hfit : (stream q.items).length + frameCost b ≤ p.size - 1
    · rw [appendOneData_eq hrep b hfit]
      rw [← occupancy_eq, hp, hq, frameCost] at hfit
      exact ⟨by simp only [true_iff]; omega, by simp⟩
    · rw [appendOneData_refused hrep b hfit]
      rw [← occupancy_eq, hp, hq, frameCost] at hfit
      exact ⟨by simp only [Bool.false_eq_true, false_iff]; omega, by simp⟩
  · intro m he
    rw [he] at hrep
    simp [getOneData_empty hrep]
  · intro m f rest he
    rw [he] at hrep
    exact ⟨fun hm => by simp [getOneData_eq hrep m hm],
      fun hm => by simp [getOneData_oversize hrep m hm]⟩

/-- A pipe of sixteen bytes, where the second frame wraps and a third is refused. -/
theorem pipe_refines_queue_sixteen :
    (pipeRun (pipeInitialize 16 fun _ => 0)
      [.append [1, 2, 3], .get 8, .append [4, 5, 6, 7, 8, 9], .append [1, 2], .get 4, .get 6]).1 =
      [.appended true, .got (some (3, [1, 2, 3])), .appended true, .appended false, .got none,
        .got (some (6, [4, 5, 6, 7, 8, 9]))] := by
  rw [(pipe_refines_queue 16 (fun _ => 0) (by decide) (by decide) _).1]
  decide

end ShmPipe
