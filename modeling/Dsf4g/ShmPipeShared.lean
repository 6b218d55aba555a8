import Dsf4g.Lib.Trace
import Dsf4g.ShmPipeQueue

/-!
# The pipe between two processes

One producer and one consumer, interleaved at every call of `GetIndex`, every
byte copied and every `SetIndex`. Both operations look at the indices twice: the
producer may decide how to copy with a newer `_begin` than it measured the room
with, and the consumer with an older `_end` than it measured the contents with.
Either process may stop anywhere and attach again.
-/
namespace ShmPipe

inductive Producer where
  | idle
  /-- The room has been measured. -/
  | roomy (data : List UInt8)
  /-- The length is being stored; `rest` is what is left of it. -/
  | header (data : List UInt8) (tmpBegin tmpEnd : Nat) (rest : List UInt8)
  /-- `n` bytes of the payload are stored. -/
  | copy (data : List UInt8) (tmpBegin tmpEnd n : Nat)

inductive Consumer where
  | idle
  /-- The indices have been read, the contents not measured yet. -/
  | looked (limit tmpBegin tmpEnd : Nat)
  | header (limit tmpBegin tmpEnd used : Nat) (got : List UInt8)
  | copy (tmpBegin tmpEnd len : Nat) (got : List UInt8)
  /-- The branch that gives up what is in the pipe. -/
  | resync (tmpEnd : Nat)

/-- The pipe, both processes, and the frames published and returned so far. -/
structure Shared where
  pipe : Pipe
  producer : Producer
  consumer : Consumer
  published : List (List UInt8)
  returned : List (List UInt8)

/-- The cell of byte `i` when a block of `len` bytes is cut at the end of the ring. -/
def splitCell (size start len i : Nat) : Nat :=
  let pipeLeft := sub32 size start
  if pipeLeft ≥ len then start + i else if i < pipeLeft then start + i else i - pipeLeft

/-- The cell of byte `i` in the payload copy of `AppendOneData`. -/
def inCell (size tmpBegin tmpEnd len i : Nat) : Nat :=
  if tmpBegin > tmpEnd then tmpEnd + i else splitCell size tmpEnd len i

/-- The cell of byte `i` in the payload copy of `GetOneData`. -/
def outCell (size tmpBegin tmpEnd len i : Nat) : Nat :=
  if tmpBegin < tmpEnd then tmpBegin + i else splitCell size tmpBegin len i

def Pipe.store (p : Pipe) (cell : Nat) (x : UInt8) : Pipe := { p with buf := Ring.put p.buf cell x }

/-- One step of the producer inside a call. A ring of no cells stops it at the first `%`. -/
def producerStep (s : Shared) : Option Shared :=
  match s.producer with
  | .idle => none
  | .roomy data =>
    some { s with
      producer := .header data s.pipe.beginIdx s.pipe.endIdx (Bytes.le 4 data.length) }
  | .header data tmpBegin tmpEnd [] => some { s with producer := .copy data tmpBegin tmpEnd 0 }
  | .header data tmpBegin tmpEnd (x :: rest) =>
    if s.pipe.size = 0 then none
    else
      some { s with
        pipe := s.pipe.store tmpEnd x
        producer := .header data tmpBegin (u32 (tmpEnd + 1) % s.pipe.size) rest }
  | .copy data tmpBegin tmpEnd n =>
    match data[n]? with
    | some x =>
      some { s with
        pipe := s.pipe.store (inCell s.pipe.size tmpBegin tmpEnd data.length n) x
        producer := .copy data tmpBegin tmpEnd (n + 1) }
    | none =>
      some { s with
        pipe := setIndex s.pipe none (some (u32 (tmpEnd + data.length) % s.pipe.size))
        producer := .idle
        published := s.published ++ [data] }

def consumerStep (s : Shared) : Option Shared :=
  match s.consumer with
  | .idle => none
  | .looked limit tmpBegin tmpEnd =>
    let used := getUsedSize s.pipe
    some { s with
      consumer :=
        if used = 0 then .idle
        else if used < 4 then .resync tmpEnd
        else .header limit tmpBegin tmpEnd used [] }
  | .header limit tmpBegin tmpEnd used got =>
    if got.length < 4 then
      some { s with
        consumer := .header limit (u32 (tmpBegin + 1) % s.pipe.size) tmpEnd used
          (got ++ [s.pipe.buf tmpBegin]) }
    else
      let len := Bytes.ofLe got
      some { s with
        consumer :=
          if len + 4 > used then .resync tmpEnd
          else if len > limit then .idle
          else .copy tmpBegin tmpEnd len [] }
  | .copy tmpBegin tmpEnd len got =>
    if got.length < len then
      some { s with
        consumer := .copy tmpBegin tmpEnd len
          (got ++ [s.pipe.buf (outCell s.pipe.size tmpBegin tmpEnd len got.length)]) }
    else
      some { s with
        pipe := setIndex s.pipe (some (u32 (tmpBegin + len) % s.pipe.size)) none
        consumer := .idle
        returned := s.returned ++ [got] }
  | .resync tmpEnd =>
    some { s with pipe := setIndex s.pipe (some tmpEnd) none, consumer := .idle }

inductive SharedEvent where
  /-- `AppendOneData` is called and measures the room. -/
  | append (data : List UInt8)
  /-- `GetOneData` is called and reads the indices. -/
  | get (limit : Nat)
  | producer
  | consumer
  /-- A process has stopped and attaches again: `Reuse` sets `_size` from the segment. -/
  | producerRestart
  | consumerRestart

/-- Both processes on a segment whose ring has `size` cells. -/
def sharedStep (size : Nat) (s : Shared) : SharedEvent → Option Shared
  | .append data =>
    match s.producer with
    | .idle => some (if data.length + 4 > getLeftSize s.pipe then s
        else { s with producer := .roomy data })
    | _ => none
  | .get limit =>
    match s.consumer with
    | .idle => some { s with consumer := .looked limit s.pipe.beginIdx s.pipe.endIdx }
    | _ => none
  | .producer => producerStep s
  | .consumer => consumerStep s
  | .producerRestart => some { s with pipe := { s.pipe with size := size }, producer := .idle }
  | .consumerRestart => some { s with pipe := { s.pipe with size := size }, consumer := .idle }

def SharedStep (size : Nat) (s : Shared) (e : SharedEvent) (s' : Shared) : Prop :=
  sharedStep size s e = some s'

def Shared.initial (size : Nat) (mem : Nat → UInt8) : Shared :=
  ⟨pipeInitialize size mem, .idle, .idle, [], []⟩

/-! ## Cells -/

theorem splitCell_eq {size start len i : Nat} (hsize : size ≤ 2 ^ 31) (hs : start < size)
    (hlen : len ≤ size) (hi : i < len) : splitCell size start len i = (start + i) % size := by
  unfold splitCell
  rw [sub32_eq (by omega) (by omega), Ring.add_mod_eq hs (by omega)]
  dsimp only
  split
  · rw [if_pos (by omega)]
  · split
    · rw [if_pos (by omega)]
    · rw [if_neg (by omega)]
      omega

theorem inCell_eq {size tmpBegin tmpEnd len i : Nat} (hsize : size ≤ 2 ^ 31) (he : tmpEnd < size)
    (hlen : len ≤ size) (hgap : tmpBegin > tmpEnd → tmpEnd + len ≤ size) (hi : i < len) :
    inCell size tmpBegin tmpEnd len i = (tmpEnd + i) % size := by
  unfold inCell
  split
  · next hg =>
    have := hgap hg
    rw [Nat.mod_eq_of_lt (by omega)]
  · exact splitCell_eq hsize he hlen hi

theorem outCell_eq {size tmpBegin tmpEnd len i : Nat} (hsize : size ≤ 2 ^ 31)
    (hb : tmpBegin < size) (hlen : len ≤ size) (hgap : tmpBegin < tmpEnd → tmpBegin + len ≤ size)
    (hi : i < len) : outCell size tmpBegin tmpEnd len i = (tmpBegin + i) % size := by
  unfold outCell
  split
  · next hg =>
    have := hgap hg
    rw [Nat.mod_eq_of_lt (by omega)]
  · exact splitCell_eq hsize hb hlen hi

/-! ## The invariant -/

/-- There is room for the frame behind the published ones. -/
def Room (p : Pipe) (q : List (List UInt8)) (data : List UInt8) : Prop :=
  (stream q).length + frameCost data ≤ p.size - 1

def Gap (p : Pipe) (data : List UInt8) (tmpBegin : Nat) : Prop :=
  tmpBegin > (p.endIdx + 4) % p.size → (p.endIdx + 4) % p.size + data.length ≤ p.size

/-- What the producer has stored behind `_end` at each of its program points. -/
def ProducerOk (p : Pipe) (q : List (List UInt8)) : Producer → Prop
  | .idle => True
  | .roomy data => Room p q data
  | .header data tmpBegin tmpEnd rest => Room p q data ∧ Gap p data tmpBegin ∧
      ∃ done, Bytes.le 4 data.length = done ++ rest ∧
        tmpEnd = (p.endIdx + done.length) % p.size ∧
        Ring.read p.buf p.size p.endIdx done.length = done
  | .copy data tmpBegin tmpEnd n => Room p q data ∧ Gap p data tmpBegin ∧
      tmpEnd = (p.endIdx + 4) % p.size ∧ n ≤ data.length ∧
      Ring.read p.buf p.size p.endIdx (4 + n) = Bytes.le 4 data.length ++ data.take n

def Seen (p : Pipe) (q : List (List UInt8)) (tmpEnd : Nat) : Prop :=
  ∃ q₀, q₀ <+: q ∧ tmpEnd = (p.beginIdx + (stream q₀).length) % p.size

/-- What the consumer knows of the oldest frame at each of its program points. -/
def ConsumerOk (p : Pipe) (q : List (List UInt8)) : Consumer → Prop
  | .idle => True
  | .looked _ tmpBegin tmpEnd => tmpBegin = p.beginIdx ∧ Seen p q tmpEnd
  | .header _ tmpBegin tmpEnd used got => Seen p q tmpEnd ∧ ∃ f rest, q = f :: rest ∧
      frameCost f ≤ used ∧ got.length ≤ 4 ∧ tmpBegin = (p.beginIdx + got.length) % p.size ∧
      got = (Bytes.le 4 f.length).take got.length
  | .copy tmpBegin tmpEnd len got => ∃ f rest, q = f :: rest ∧ len = f.length ∧
      tmpBegin = (p.beginIdx + 4) % p.size ∧ (tmpBegin < tmpEnd → tmpBegin + len ≤ p.size) ∧
      got.length ≤ len ∧ got = f.take got.length
  | .resync _ => False

structure SharedOk (size : Nat) (s : Shared) (q : List (List UInt8)) : Prop where
  size : s.pipe.size = size
  frames : s.published = s.returned ++ q
  pipe : Represents s.pipe q
  producer : ProducerOk s.pipe q s.producer
  consumer : ConsumerOk s.pipe q s.consumer

/-! ## Storing behind the published frames -/

/-- The cell `k` behind `_end`, counted from `_begin`. -/
theorem Represents.behind {p : Pipe} {q : List (List UInt8)} (h : Represents p q) (k : Nat) :
    (p.endIdx + k) % p.size = (p.beginIdx + ((stream q).length + k)) % p.size := by
  rw [h.end_eq, Nat.mod_add_mod, Nat.add_assoc]

/-- A cell behind `_end` and short of `_begin` holds no part of a published frame. -/
theorem Represents.behind_ne {p : Pipe} {q : List (List UInt8)} (h : Represents p q) {i k : Nat}
    (hi : i < (stream q).length) (hk : (stream q).length + k < p.size) :
    (p.beginIdx + i) % p.size ≠ (p.endIdx + k) % p.size := by
  intro he
  rw [h.behind] at he
  have := Ring.add_mod_inj h.begin_lt (by omega) hk he
  omega

theorem Represents.store {p : Pipe} {q : List (List UInt8)} (h : Represents p q) {k : Nat}
    (hk : (stream q).length + k < p.size) (x : UInt8) :
    Represents (p.store ((p.endIdx + k) % p.size) x) q where
  size_pos := h.size_pos
  size_le := h.size_le
  begin_lt := h.begin_lt
  fits := h.fits
  end_eq := h.end_eq
  bytes := by
    rw [← h.bytes]
    simp only [Ring.read_length]
    apply Ring.read_congr
    intro i hi
    have hne := h.behind_ne hi hk
    simp [Pipe.store, Ring.put, hne]

/-- What has been stored behind `_end` grows by the byte stored next to it. -/
theorem Represents.store_read {p : Pipe} {q : List (List UInt8)} (h : Represents p q) {k : Nat}
    (hk : (stream q).length + k < p.size) (x : UInt8) :
    Ring.read (p.store ((p.endIdx + k) % p.size) x).buf p.size p.endIdx (k + 1) =
      Ring.read p.buf p.size p.endIdx k ++ [x] :=
  Ring.read_put_next p.buf x h.end_lt (by omega)

/-- The contiguous copy is chosen only when the payload ends before the ring does,
whatever `_begin` has become since the room was measured. -/
theorem Represents.gap {p : Pipe} {q : List (List UInt8)} (h : Represents p q)
    {data : List UInt8} (hroom : Room p q data) : Gap p data p.beginIdx := by
  have h₁ := h.end_cases
  have h₃ := h.begin_lt
  have h₅ := h.size_pos
  have h₆ := h.end_lt
  have hroom' : (stream q).length + (4 + data.length) ≤ p.size - 1 := hroom
  intro hgt
  rw [Ring.add_mod_eq h₆ (by omega)] at hgt ⊢
  split at h₁ <;> split at hgt <;> split <;> omega

/-! ## What the other process may change -/

theorem Seen.mono {p p' : Pipe} {q q' : List (List UInt8)} {tmpEnd : Nat}
    (hb : p'.beginIdx = p.beginIdx) (hs : p'.size = p.size) (hq : q <+: q')
    (h : Seen p q tmpEnd) : Seen p' q' tmpEnd := by
  obtain ⟨q₀, hq₀, he⟩ := h
  exact ⟨q₀, hq₀.trans hq, by rw [hb, hs]; exact he⟩

/-- The consumer does not mind frames published behind the one it reads. -/
theorem ConsumerOk.mono {p p' : Pipe} {q q' : List (List UInt8)} {c : Consumer}
    (hb : p'.beginIdx = p.beginIdx) (hs : p'.size = p.size) (hq : q <+: q')
    (h : ConsumerOk p q c) : ConsumerOk p' q' c := by
  cases c with
  | idle => trivial
  | looked limit tmpBegin tmpEnd => exact ⟨h.1.trans hb.symm, h.2.mono hb hs hq⟩
  | header limit tmpBegin tmpEnd used got =>
    obtain ⟨hseen, f, rest, rfl, hused, hgot, hbegin, hbytes⟩ := h
    obtain ⟨more, rfl⟩ := hq
    exact ⟨hseen.mono hb hs ⟨more, rfl⟩, f, rest ++ more, rfl, hused, hgot,
      by rw [hb, hs]; exact hbegin, hbytes⟩
  | copy tmpBegin tmpEnd len got =>
    obtain ⟨f, rest, rfl, hlen, hbegin, hgap, hgot, hbytes⟩ := h
    obtain ⟨more, rfl⟩ := hq
    exact ⟨f, rest ++ more, rfl, hlen, by rw [hb, hs]; exact hbegin, by rw [hs]; exact hgap,
      hgot, hbytes⟩
  | resync tmpEnd => exact h

/-- The producer only gains room when `_begin` moves on. -/
theorem ProducerOk.mono {p p' : Pipe} {q q' : List (List UInt8)} {a : Producer}
    (he : p'.endIdx = p.endIdx) (hs : p'.size = p.size) (hbuf : p'.buf = p.buf)
    (hq : (stream q').length ≤ (stream q).length) (h : ProducerOk p q a) : ProducerOk p' q' a := by
  have hroom : ∀ data, Room p q data → Room p' q' data := by
    intro data hr
    have hr' : (stream q).length + frameCost data ≤ p.size - 1 := hr
    show (stream q').length + frameCost data ≤ p'.size - 1
    omega
  have hgap : ∀ data b, Gap p data b → Gap p' data b := by
    intro data b hg
    unfold Gap
    rw [he, hs]
    exact hg
  cases a with
  | idle => trivial
  | roomy data => exact hroom _ h
  | header data tmpBegin tmpEnd rest =>
    obtain ⟨hr, hg, done, hd, ht, hread⟩ := h
    exact ⟨hroom _ hr, hgap _ _ hg, done, hd, by rw [he, hs]; exact ht,
      by rw [he, hs, hbuf]; exact hread⟩
  | copy data tmpBegin tmpEnd n =>
    obtain ⟨hr, hg, ht, hn, hread⟩ := h
    exact ⟨hroom _ hr, hgap _ _ hg, by rw [he, hs]; exact ht, hn,
      by rw [he, hs, hbuf]; exact hread⟩

/-! ## The producer's steps -/

theorem frameCost_eq (f : List UInt8) : frameCost f = 4 + f.length := rfl

theorem sharedOk_append {size : Nat} {s s' : Shared} {q : List (List UInt8)}
    (h : SharedOk size s q) {data : List UInt8}
    (hs : sharedStep size s (.append data) = some s') : SharedOk size s' q := by
  simp only [sharedStep] at hs
  split at hs
  · cases hs
    split
    · exact h
    · next hroom =>
      have hroom' : Room s.pipe q data := by
        have h₅ := h.pipe.size_pos
        have hfit := h.pipe.fits
        rw [h.pipe.leftSize] at hroom
        unfold Room
        rw [frameCost_eq]
        omega
      exact ⟨h.size, h.frames, h.pipe, hroom', h.consumer⟩
  · cases hs

/-- Storing one byte behind `_end`, inside the room, disturbs neither the published
frames nor the consumer. -/
theorem sharedOk_store {size : Nat} {s : Shared} {q : List (List UInt8)} (h : SharedOk size s q)
    {k : Nat} (hk : (stream q).length + k < s.pipe.size) (x : UInt8) {a : Producer}
    (ha : ProducerOk (s.pipe.store ((s.pipe.endIdx + k) % s.pipe.size) x) q a) :
    SharedOk size { s with
      pipe := s.pipe.store ((s.pipe.endIdx + k) % s.pipe.size) x
      producer := a } q where
  size := h.size
  frames := h.frames
  pipe := h.pipe.store hk x
  producer := ha
  consumer := h.consumer.mono rfl rfl (List.prefix_refl q)

theorem producer_header_byte {size : Nat} {s : Shared} {q : List (List UInt8)}
    (h : SharedOk size s q) {data rest : List UInt8} {x : UInt8} {tmpBegin tmpEnd : Nat}
    (hp : ProducerOk s.pipe q (.header data tmpBegin tmpEnd (x :: rest))) :
    SharedOk size { s with
      pipe := s.pipe.store tmpEnd x
      producer := .header data tmpBegin (u32 (tmpEnd + 1) % s.pipe.size) rest } q := by
  obtain ⟨hroom, hgap, done, hd, rfl, hread⟩ := hp
  have hlen : done.length + (rest.length + 1) = 4 := by
    have := congrArg List.length hd
    simpa using this.symm
  have hk : (stream q).length + done.length < s.pipe.size := by
    have hroom' : (stream q).length + (4 + data.length) ≤ s.pipe.size - 1 := hroom
    omega
  have hmod := Nat.mod_lt (s.pipe.endIdx + done.length) h.pipe.size_pos
  have hle := h.pipe.size_le
  apply sharedOk_store h hk x
  refine ⟨hroom, hgap, done ++ [x], by simpa using hd, ?_, ?_⟩
  · rw [u32_eq (by omega), Nat.mod_add_mod, Nat.add_assoc, List.length_append, List.length_singleton]
    rfl
  · rw [List.length_append, List.length_singleton]
    exact (h.pipe.store_read hk x).trans (by rw [hread])

theorem producer_copy_byte {size : Nat} {s : Shared} {q : List (List UInt8)}
    (h : SharedOk size s q) {data : List UInt8} {x : UInt8} {tmpBegin tmpEnd n : Nat}
    (hp : ProducerOk s.pipe q (.copy data tmpBegin tmpEnd n)) (hx : data[n]? = some x) :
    SharedOk size { s with
      pipe := s.pipe.store (inCell s.pipe.size tmpBegin tmpEnd data.length n) x
      producer := .copy data tmpBegin tmpEnd (n + 1) } q := by
  obtain ⟨hroom, hgap, rfl, hn, hread⟩ := hp
  obtain ⟨hlt, rfl⟩ := List.getElem?_eq_some_iff.mp hx
  have hroom' : (stream q).length + (4 + data.length) ≤ s.pipe.size - 1 := hroom
  have h₅ := h.pipe.size_pos
  have hk : (stream q).length + (4 + n) < s.pipe.size := by omega
  have hcell : inCell s.pipe.size tmpBegin ((s.pipe.endIdx + 4) % s.pipe.size) data.length n =
      (s.pipe.endIdx + (4 + n)) % s.pipe.size := by
    rw [inCell_eq h.pipe.size_le (Nat.mod_lt _ h₅) (by omega) hgap hlt, Nat.mod_add_mod,
      Nat.add_assoc]
  rw [hcell]
  apply sharedOk_store h hk
  refine ⟨hroom, hgap, rfl, hlt, ?_⟩
  rw [List.take_succ_eq_append_getElem hlt, ← List.append_assoc, ← hread]
  exact h.pipe.store_read hk _

/-- `SetIndex` publishes the frame that has been stored. -/
theorem producer_publish {size : Nat} {s : Shared} {q : List (List UInt8)}
    (h : SharedOk size s q) {data : List UInt8} {tmpBegin tmpEnd n : Nat}
    (hp : ProducerOk s.pipe q (.copy data tmpBegin tmpEnd n)) (hx : data[n]? = none) :
    SharedOk size { s with
      pipe := setIndex s.pipe none (some (u32 (tmpEnd + data.length) % s.pipe.size))
      producer := .idle
      published := s.published ++ [data] } (q ++ [data]) := by
  obtain ⟨hroom, hgap, rfl, hn, hread⟩ := hp
  have hroom' : (stream q).length + (4 + data.length) ≤ s.pipe.size - 1 := hroom
  have h₅ := h.pipe.size_pos
  have hle := h.pipe.size_le
  have hmod := Nat.mod_lt (s.pipe.endIdx + 4) h₅
  have hnew : u32 ((s.pipe.endIdx + 4) % s.pipe.size + data.length) % s.pipe.size =
      (s.pipe.endIdx + frameCost data) % s.pipe.size := by
    rw [u32_eq (by omega), Nat.mod_add_mod, Nat.add_assoc, frameCost_eq]
  have hset : setIndex s.pipe none (some ((s.pipe.endIdx + frameCost data) % s.pipe.size)) =
      { s.pipe with endIdx := (s.pipe.endIdx + frameCost data) % s.pipe.size } := by
    simp only [setIndex]
    rw [if_pos (Nat.mod_lt _ h₅)]
  have hall : n = data.length := by
    have := List.getElem?_eq_none_iff.mp hx
    omega
  rw [hall, List.take_length] at hread
  rw [hnew, hset]
  refine ⟨h.size, by simp [h.frames], ?_, trivial, h.consumer.mono rfl rfl ⟨[data], rfl⟩⟩
  refine ⟨h₅, hle, h.pipe.begin_lt, ?_, ?_, ?_⟩
  · show (stream (q ++ [data])).length ≤ s.pipe.size - 1
    rw [stream_append, List.length_append]
    simpa [frameCost_eq] using hroom'
  · simp [h.pipe.end_eq, Nat.add_assoc]
  · show Ring.read s.pipe.buf s.pipe.size s.pipe.beginIdx (stream (q ++ [data])).length = _
    rw [stream_append, List.length_append, Ring.read_add, h.pipe.bytes, ← h.pipe.end_eq]
    simp only [stream_cons, stream_nil, List.append_nil, encodeFrame_length, frameCost_eq]
    rw [hread]
    rfl

/-- A step of the producer publishes a frame, or stores behind the published ones. -/
theorem sharedOk_producer {size : Nat} {s s' : Shared} {q : List (List UInt8)}
    (h : SharedOk size s q) (hs : producerStep s = some s') : ∃ q', SharedOk size s' q' := by
  have hp := h.producer
  unfold producerStep at hs
  split at hs
  · cases hs
  · next data ha =>
    cases hs
    rw [ha] at hp
    refine ⟨q, h.size, h.frames, h.pipe, ?_, h.consumer⟩
    refine ⟨hp, h.pipe.gap hp, [], rfl, ?_, rfl⟩
    simp [Nat.mod_eq_of_lt h.pipe.end_lt]
  · next data tmpBegin tmpEnd ha =>
    cases hs
    rw [ha] at hp
    obtain ⟨hroom, hgap, done, hd, ht, hread⟩ := hp
    simp only [List.append_nil] at hd
    subst hd
    rw [Bytes.le_length] at ht hread
    refine ⟨q, h.size, h.frames, h.pipe, ?_, h.consumer⟩
    exact ⟨hroom, hgap, ht, Nat.zero_le _, by simpa using hread⟩
  · next data tmpBegin tmpEnd x rest ha =>
    rw [ha] at hp
    split at hs
    · cases hs
    · cases hs
      exact ⟨q, producer_header_byte h hp⟩
  · next data tmpBegin tmpEnd n ha =>
    rw [ha] at hp
    split at hs
    · next x hx =>
      cases hs
      exact ⟨q, producer_copy_byte h hp hx⟩
    · next hx =>
      cases hs
      exact ⟨q ++ [data], producer_publish h hp hx⟩


/-! ## The consumer's steps -/

/-- What `GetUsedSize` returns is zero, or covers the oldest frame. -/
theorem Represents.used_cases {p : Pipe} {q : List (List UInt8)} (h : Represents p q) :
    getUsedSize p = 0 ∨ ∃ f rest, q = f :: rest ∧ frameCost f ≤ getUsedSize p := by
  cases q with
  | nil => exact .inl h.usedSize_empty
  | cons f rest =>
    refine .inr ⟨f, rest, rfl, ?_⟩
    have := h.usedSize_ge
    rw [stream_cons, List.length_append, encodeFrame_length] at this
    omega

theorem consumer_looked {p : Pipe} {q : List (List UInt8)} (hp : Represents p q)
    {limit tmpBegin tmpEnd : Nat} (h : ConsumerOk p q (.looked limit tmpBegin tmpEnd)) :
    ConsumerOk p q (if getUsedSize p = 0 then .idle
      else if getUsedSize p < 4 then .resync tmpEnd
      else .header limit tmpBegin tmpEnd (getUsedSize p) []) := by
  obtain ⟨rfl, hseen⟩ := h
  split
  · trivial
  · next hne =>
    obtain hz | ⟨f, rest, hq, hused⟩ := hp.used_cases
    · exact absurd hz hne
    · rw [if_neg (by rw [frameCost_eq] at hused; omega)]
      exact ⟨hseen, f, rest, hq, hused, Nat.zero_le _,
        by simp [Nat.mod_eq_of_lt hp.begin_lt], rfl⟩

/-- The byte at offset `i` of a frame list, seen in the ring. -/
theorem read_take_next {m : Nat → UInt8} {size s i : Nat} {xs got : List UInt8}
    (hxs : Ring.read m size s xs.length = xs) (hi : i < xs.length) (hgot : got = xs.take i) :
    got ++ [m ((s + i) % size)] = xs.take (i + 1) := by
  rw [hgot, List.take_succ_eq_append_getElem hi]
  congr 2
  have := Ring.read_getElem m size s xs.length i (by simpa using hi)
  rw [← this]
  exact List.getElem_of_eq hxs _

theorem consumer_header_byte {p : Pipe} {q : List (List UInt8)} (hp : Represents p q)
    {limit tmpBegin tmpEnd used : Nat} {got : List UInt8} (hlt : got.length < 4)
    (h : ConsumerOk p q (.header limit tmpBegin tmpEnd used got)) :
    ConsumerOk p q (.header limit (u32 (tmpBegin + 1) % p.size) tmpEnd used
      (got ++ [p.buf tmpBegin])) := by
  obtain ⟨hseen, f, rest, rfl, hused, -, rfl, hbytes⟩ := h
  have hmod := Nat.mod_lt (p.beginIdx + got.length) hp.size_pos
  have hle := hp.size_le
  have hhead := (read_head_frame hp).1
  have hnext := read_take_next (by simpa using hhead) (by simpa using hlt) hbytes
  refine ⟨hseen, f, rest, rfl, hused, ?_, ?_, ?_⟩
  · rw [List.length_append, List.length_singleton]
    exact hlt
  · rw [u32_eq (by omega), Nat.mod_add_mod, Nat.add_assoc, List.length_append,
      List.length_singleton]
  · rw [List.length_append, List.length_singleton]
    exact hnext

/-- An `_end` seen earlier lies at `_begin`, or behind the whole oldest frame. -/
theorem Seen.gap {p : Pipe} {f : List UInt8} {rest : List (List UInt8)} {tmpEnd : Nat}
    (hp : Represents p (f :: rest)) (h : Seen p (f :: rest) tmpEnd) :
    (p.beginIdx + 4) % p.size < tmpEnd → (p.beginIdx + 4) % p.size + f.length ≤ p.size := by
  obtain ⟨q₀, hq₀, rfl⟩ := h
  have hb := hp.begin_lt
  have hfit := hp.fits
  have hlen : (stream q₀).length ≤ (stream (f :: rest)).length := by
    obtain ⟨more, hm⟩ := hq₀
    rw [← hm, stream_append, List.length_append]
    omega
  -- either an empty pipe was seen, or the oldest frame was already there
  have hframe : (stream q₀).length = 0 ∨ 4 + f.length ≤ (stream q₀).length := by
    cases q₀ with
    | nil => exact .inl rfl
    | cons g q₁ =>
      have hg : g = f := (List.cons_prefix_cons.mp hq₀).1
      rw [hg, stream_cons, List.length_append, encodeFrame_length, frameCost_eq]
      exact .inr (by omega)
  have hall : 4 + f.length ≤ (stream (f :: rest)).length := by
    rw [stream_cons, List.length_append, encodeFrame_length, frameCost_eq]
    omega
  rw [Ring.add_mod_eq hb (by omega), Ring.add_mod_eq hb (by omega)]
  split <;> split <;> omega

theorem consumer_header_done {p : Pipe} {q : List (List UInt8)} (hp : Represents p q)
    {limit tmpBegin tmpEnd used : Nat} {got : List UInt8} (hge : ¬ got.length < 4)
    (h : ConsumerOk p q (.header limit tmpBegin tmpEnd used got)) :
    ConsumerOk p q (if Bytes.ofLe got + 4 > used then .resync tmpEnd
      else if Bytes.ofLe got > limit then .idle
      else .copy tmpBegin tmpEnd (Bytes.ofLe got) []) := by
  obtain ⟨hseen, f, rest, rfl, hused, hgot, hb, hbytes⟩ := h
  have hfour : got.length = 4 := by omega
  have hfit := hp.fits
  have hle := hp.size_le
  rw [hfour] at hb hbytes
  rw [stream_cons, List.length_append, encodeFrame_length, frameCost_eq] at hfit
  rw [frameCost_eq] at hused
  have hlen : Bytes.ofLe got = f.length := by
    rw [hbytes, List.take_of_length_le (by simp), Bytes.ofLe_le_of_lt (by omega)]
  rw [hlen, if_neg (by omega)]
  split
  · trivial
  · refine ⟨f, rest, rfl, rfl, hb, ?_, Nat.zero_le _, rfl⟩
    rw [hb]
    exact hseen.gap hp

theorem consumer_copy_byte {p : Pipe} {q : List (List UInt8)} (hp : Represents p q)
    {tmpBegin tmpEnd len : Nat} {got : List UInt8} (hlt : got.length < len)
    (h : ConsumerOk p q (.copy tmpBegin tmpEnd len got)) :
    ConsumerOk p q (.copy tmpBegin tmpEnd len
      (got ++ [p.buf (outCell p.size tmpBegin tmpEnd len got.length)])) := by
  obtain ⟨f, rest, rfl, rfl, rfl, hgap, -, hbytes⟩ := h
  have hfit := hp.fits
  rw [stream_cons, List.length_append, encodeFrame_length, frameCost_eq] at hfit
  have hmod := Nat.mod_lt (p.beginIdx + 4) hp.size_pos
  have hdata := (read_head_frame hp).2.1
  have hnext := read_take_next hdata hlt hbytes
  rw [outCell_eq hp.size_le hmod (by omega) hgap hlt]
  refine ⟨f, rest, rfl, rfl, rfl, hgap, ?_, ?_⟩
  · rw [List.length_append, List.length_singleton]
    exact hlt
  · rw [List.length_append, List.length_singleton]
    exact hnext

/-- `SetIndex` takes the frame that has been copied off the ring. -/
theorem consumer_take {size : Nat} {s : Shared} {q : List (List UInt8)} (h : SharedOk size s q)
    {tmpBegin tmpEnd len : Nat} {got : List UInt8} (hge : ¬ got.length < len)
    (hc : ConsumerOk s.pipe q (.copy tmpBegin tmpEnd len got)) :
    ∃ rest, SharedOk size { s with
      pipe := setIndex s.pipe (some (u32 (tmpBegin + len) % s.pipe.size)) none
      consumer := .idle
      returned := s.returned ++ [got] } rest := by
  obtain ⟨f, rest, rfl, rfl, rfl, hgap, hgot, hbytes⟩ := hc
  have hp := h.pipe
  have h₅ := hp.size_pos
  have hle := hp.size_le
  have hfit := hp.fits
  rw [stream_cons, List.length_append, encodeFrame_length, frameCost_eq] at hfit
  have hmod := Nat.mod_lt (s.pipe.beginIdx + 4) h₅
  have hnew : u32 ((s.pipe.beginIdx + 4) % s.pipe.size + f.length) % s.pipe.size =
      (s.pipe.beginIdx + frameCost f) % s.pipe.size := by
    rw [u32_eq (by omega), Nat.mod_add_mod, Nat.add_assoc, frameCost_eq]
  have hset : setIndex s.pipe (some ((s.pipe.beginIdx + frameCost f) % s.pipe.size)) none =
      { s.pipe with beginIdx := (s.pipe.beginIdx + frameCost f) % s.pipe.size } := by
    simp only [setIndex]
    rw [if_pos (Nat.mod_lt _ h₅)]
  have hall : got = f := by
    rw [hbytes, List.take_of_length_le (by omega)]
  rw [hnew, hset, hall]
  refine ⟨rest, h.size, by simp [h.frames], ?_, ?_, trivial⟩
  · refine ⟨h₅, hle, Nat.mod_lt _ h₅, ?_, ?_, (read_head_frame hp).2.2⟩
    · show (stream rest).length ≤ s.pipe.size - 1
      omega
    · simp [hp.end_eq, Nat.add_assoc]
  · exact h.producer.mono rfl rfl rfl (by rw [stream_cons, List.length_append]; omega)

/-- A step of the consumer returns the oldest frame, or stores nothing. -/
theorem sharedOk_consumer {size : Nat} {s s' : Shared} {q : List (List UInt8)}
    (h : SharedOk size s q) (hs : consumerStep s = some s') : ∃ q', SharedOk size s' q' := by
  have hc := h.consumer
  unfold consumerStep at hs
  split at hs
  · cases hs
  · next limit tmpBegin tmpEnd ha =>
    rw [ha] at hc
    cases hs
    exact ⟨q, h.size, h.frames, h.pipe, h.producer, consumer_looked h.pipe hc⟩
  · next limit tmpBegin tmpEnd used got ha =>
    rw [ha] at hc
    split at hs
    · next hlt =>
      cases hs
      exact ⟨q, h.size, h.frames, h.pipe, h.producer, consumer_header_byte h.pipe hlt hc⟩
    · next hge =>
      cases hs
      exact ⟨q, h.size, h.frames, h.pipe, h.producer, consumer_header_done h.pipe hge hc⟩
  · next tmpBegin tmpEnd len got ha =>
    rw [ha] at hc
    split at hs
    · next hlt =>
      cases hs
      exact ⟨q, h.size, h.frames, h.pipe, h.producer, consumer_copy_byte h.pipe hlt hc⟩
    · next hge =>
      cases hs
      exact consumer_take h hge hc
  · next tmpEnd ha =>
    rw [ha] at hc
    exact absurd hc id

/-- `GetIndex` at the start of a read sees the indices of the moment. -/
theorem sharedOk_get {size : Nat} {s s' : Shared} {q : List (List UInt8)} (h : SharedOk size s q)
    {limit : Nat} (hs : sharedStep size s (.get limit) = some s') : SharedOk size s' q := by
  simp only [sharedStep] at hs
  split at hs
  · cases hs
    exact ⟨h.size, h.frames, h.pipe, h.producer, rfl, q, List.prefix_refl q, h.pipe.end_eq⟩
  · cases hs

/-- Every step of the two keeps the invariant. -/
theorem sharedOk_step {size : Nat} {s s' : Shared} {q : List (List UInt8)} {e : SharedEvent}
    (h : SharedOk size s q) (hs : SharedStep size s e s') : ∃ q', SharedOk size s' q' := by
  cases e with
  | append data => exact ⟨q, sharedOk_append h hs⟩
  | get limit => exact ⟨q, sharedOk_get h hs⟩
  | producer => exact sharedOk_producer h hs
  | consumer => exact sharedOk_consumer h hs
  | producerRestart =>
    cases hs
    obtain ⟨⟨b, e, n, buf⟩, a, c, published, returned⟩ := s
    obtain rfl : n = size := h.size
    exact ⟨q, rfl, h.frames, h.pipe, trivial, h.consumer⟩
  | consumerRestart =>
    cases hs
    obtain ⟨⟨b, e, n, buf⟩, a, c, published, returned⟩ := s
    obtain rfl : n = size := h.size
    exact ⟨q, rfl, h.frames, h.pipe, h.producer, trivial⟩

/-! ## A ring of no cells -/

/-- On an empty ring the producer never gets past its first byte. -/
def Stuck : Producer → Prop
  | .idle | .roomy _ => True
  | .header _ _ _ rest => rest ≠ []
  | .copy _ _ _ _ => False

/-- Nothing is ever published in a ring of no cells, and the consumer finds it empty. -/
structure NoRing (s : Shared) : Prop where
  size : s.pipe.size = 0
  index : s.pipe.beginIdx = s.pipe.endIdx
  published : s.published = []
  returned : s.returned = []
  producer : Stuck s.producer
  consumer : s.consumer = .idle ∨ ∃ limit b e, s.consumer = .looked limit b e

theorem noRing_producer {s s' : Shared} (h : NoRing s) (hs : producerStep s = some s') :
    NoRing s' := by
  have hp := h.producer
  unfold producerStep at hs
  split at hs
  · cases hs
  · cases hs
    exact ⟨h.size, h.index, h.published, h.returned, by simp [Stuck, Bytes.le], h.consumer⟩
  · next ha =>
    rw [ha] at hp
    exact absurd rfl hp
  · rw [if_pos h.size] at hs
    cases hs
  · next ha =>
    rw [ha] at hp
    exact absurd hp id

theorem noRing_consumer {s s' : Shared} (h : NoRing s) (hs : consumerStep s = some s') :
    NoRing s' := by
  have hused : getUsedSize s.pipe = 0 := by
    unfold getUsedSize
    rw [if_pos h.index]
  obtain hc | ⟨limit, b, e, hc⟩ := h.consumer
  · simp [consumerStep, hc] at hs
  · simp only [consumerStep, hc, hused, if_true] at hs
    cases hs
    exact ⟨h.size, h.index, h.published, h.returned, h.producer, .inl rfl⟩

theorem noRing_step {s s' : Shared} {e : SharedEvent} (h : NoRing s) (hs : SharedStep 0 s e s') :
    NoRing s' := by
  cases e with
  | append data =>
    simp only [SharedStep, sharedStep] at hs
    split at hs
    · cases hs
      split
      · exact h
      · exact ⟨h.size, h.index, h.published, h.returned, trivial, h.consumer⟩
    · cases hs
  | get limit =>
    simp only [SharedStep, sharedStep] at hs
    split at hs
    · cases hs
      exact ⟨h.size, h.index, h.published, h.returned, h.producer, .inr ⟨_, _, _, rfl⟩⟩
    · cases hs
  | producer => exact noRing_producer h hs
  | consumer => exact noRing_consumer h hs
  | producerRestart =>
    cases hs
    exact ⟨rfl, h.index, h.published, h.returned, trivial, h.consumer⟩
  | consumerRestart =>
    cases hs
    exact ⟨rfl, h.index, h.published, h.returned, h.producer, .inl rfl⟩

/-! ## Every run -/

def Shared.unread (s : Shared) : List (List UInt8) := s.published.drop s.returned.length

def Shared.nextCell (s : Shared) : Option Nat :=
  match s.producer with
  | .header _ _ tmpEnd (_ :: _) => some tmpEnd
  | .copy data tmpBegin tmpEnd n =>
    if n < data.length then some (inCell s.pipe.size tmpBegin tmpEnd data.length n) else none
  | _ => none

theorem producerStep_buf {s s' : Shared} (hs : producerStep s = some s') {c : Nat}
    (hc : s.nextCell ≠ some c) : s'.pipe.buf c = s.pipe.buf c := by
  unfold producerStep at hs
  split at hs
  · cases hs
  · cases hs
    rfl
  · cases hs
    rfl
  · next ha =>
    split at hs
    · cases hs
    · cases hs
      simp only [Shared.nextCell, ha, ne_eq, Option.some.injEq] at hc
      simp [Pipe.store, Ring.put, Ne.symm hc]
  · next ha =>
    split at hs
    · next hx =>
      cases hs
      have hlt := (List.getElem?_eq_some_iff.mp hx).1
      simp only [Shared.nextCell, ha, hlt, if_true, ne_eq, Option.some.injEq] at hc
      simp [Pipe.store, Ring.put, Ne.symm hc]
    · cases hs
      simp [setIndex_buf]

theorem consumerStep_buf {s s' : Shared} (hs : consumerStep s = some s') :
    s'.pipe.buf = s.pipe.buf := by
  unfold consumerStep at hs
  split at hs
  · cases hs
  · cases hs
    rfl
  · split at hs
    · cases hs
      rfl
    · cases hs
      rfl
  · split at hs
    · cases hs
      rfl
    · cases hs
      simp [setIndex_buf]
  · cases hs
    simp [setIndex_buf]

/-- No step of either process stores anywhere else. -/
theorem sharedStep_buf {size : Nat} {s s' : Shared} {e : SharedEvent} (hs : SharedStep size s e s')
    {c : Nat} (hc : s.nextCell ≠ some c) : s'.pipe.buf c = s.pipe.buf c := by
  cases e with
  | append data =>
    simp only [SharedStep, sharedStep] at hs
    split at hs
    · cases hs
      split <;> rfl
    · cases hs
  | get limit =>
    simp only [SharedStep, sharedStep] at hs
    split at hs
    · cases hs
      rfl
    · cases hs
  | producer => exact producerStep_buf hs hc
  | consumer => rw [consumerStep_buf hs]
  | producerRestart =>
    cases hs
    rfl
  | consumerRestart =>
    cases hs
    rfl

/-- The next cell lies behind `_end`, inside the room that was measured. -/
theorem SharedOk.nextCell {size : Nat} {s : Shared} {q : List (List UInt8)} (h : SharedOk size s q)
    {c : Nat} (hc : s.nextCell = some c) :
    ∃ k, (stream q).length + k < s.pipe.size ∧ c = (s.pipe.endIdx + k) % s.pipe.size := by
  have hp := h.producer
  have h₅ := h.pipe.size_pos
  unfold Shared.nextCell at hc
  split at hc
  · next data tmpBegin tmpEnd x rest ha =>
    cases hc
    rw [ha] at hp
    obtain ⟨hroom, -, done, hd, ht, -⟩ := hp
    have hlen : done.length + (rest.length + 1) = 4 := by
      have := congrArg List.length hd
      simpa using this.symm
    have hroom' : (stream q).length + (4 + data.length) ≤ s.pipe.size - 1 := hroom
    exact ⟨done.length, by omega, ht⟩
  · next data tmpBegin tmpEnd n ha =>
    split at hc
    · next hlt =>
      cases hc
      rw [ha] at hp
      obtain ⟨hroom, hgap, rfl, -, -⟩ := hp
      have hroom' : (stream q).length + (4 + data.length) ≤ s.pipe.size - 1 := hroom
      refine ⟨4 + n, by omega, ?_⟩
      rw [inCell_eq h.pipe.size_le (Nat.mod_lt _ h₅) (by omega) hgap hlt, Nat.mod_add_mod,
        Nat.add_assoc]
    · cases hc
  · cases hc

theorem sharedRun_inv {size : Nat} (hsize : size ≤ 2 ^ 31) {mem : Nat → UInt8}
    {es : List SharedEvent} {s : Shared}
    (h : Trace.Run (SharedStep size) (fun _ _ => True) (Shared.initial size mem) es s) :
    NoRing s ∨ ∃ q, SharedOk size s q := by
  obtain rfl | hpos := Nat.eq_zero_or_pos size
  · refine .inl (h.invariant NoRing ?_ fun s e s' hi _ hs => noRing_step hi hs)
    exact ⟨rfl, rfl, rfl, rfl, trivial, .inl rfl⟩
  · refine .inr (h.invariant (fun s => ∃ q, SharedOk size s q) ?_ ?_)
    · exact ⟨[], rfl, rfl, initialize_represents size mem hpos hsize, trivial, trivial⟩
    · intro s e s' hi _ hs
      obtain ⟨q, hq⟩ := hi
      exact sharedOk_step hq hs

/-- One producer and one consumer may interleave and stop anywhere. The frames
returned are a prefix of the frames published; those in between stand in the
ring byte for byte, the producer's next store misses all their cells, and the
consumer never gives the contents up. -/
theorem sharedRun_safe (size : Nat) (hsize : size ≤ 2 ^ 31) (mem : Nat → UInt8)
    (es : List SharedEvent) (s : Shared)
    (h : Trace.Run (SharedStep size) (fun _ _ => True) (Shared.initial size mem) es s) :
    s.returned <+: s.published ∧
    (∀ tmpEnd, s.consumer ≠ .resync tmpEnd) ∧
    Ring.read s.pipe.buf s.pipe.size s.pipe.beginIdx (stream s.unread).length = stream s.unread ∧
    ∀ c, s.nextCell = some c →
      ∀ i, i < (stream s.unread).length → c ≠ (s.pipe.beginIdx + i) % s.pipe.size := by
  obtain hn | ⟨q, hq⟩ := sharedRun_inv hsize h
  · have hun : s.unread = [] := by simp [Shared.unread, hn.published]
    refine ⟨by simp [hn.returned], ?_, by simp [hun], ?_⟩
    · intro tmpEnd hc
      obtain h₁ | ⟨_, _, _, h₁⟩ := hn.consumer
      · rw [h₁] at hc
        cases hc
      · rw [h₁] at hc
        cases hc
    · intro c _ i hi
      simp [hun] at hi
  · have hun : s.unread = q := by simp [Shared.unread, hq.frames]
    refine ⟨⟨q, hq.frames.symm⟩, ?_, by rw [hun]; exact hq.pipe.bytes, ?_⟩
    · intro tmpEnd hc
      have := hq.consumer
      rw [hc] at this
      exact this
    · intro c hc i hi
      rw [hun] at hi
      obtain ⟨k, hk, rfl⟩ := hq.nextCell hc
      exact (hq.pipe.behind_ne hi hk).symm

/-- A frame is read while the next one is being stored; the producer stops halfway,
attaches again and stores a longer one over the end of the ring. -/
def interleaved : List SharedEvent :=
  .append [1, 2, 3] :: List.replicate 10 .producer ++ [.append [4, 5, 6, 7], .producer, .get 8] ++
    List.replicate 4 .consumer ++ List.replicate 7 .producer ++ List.replicate 6 .consumer ++
    [.producerRestart, .append [4, 5, 6, 7, 8, 9, 10]] ++ List.replicate 12 .producer

theorem sharedRun_safe_interleaved :
    ∃ s, Trace.Run (SharedStep 16) (fun _ _ => True) (Shared.initial 16 fun _ => 0) interleaved s ∧
      s.returned = [[1, 2, 3]] ∧ s.nextCell = some 1 ∧ s.returned <+: s.published := by
  obtain ⟨s, hrun, hret, hcell⟩ :=
    Trace.exists_run_of_exec (sharedStep 16) (fun _ _ => True) (Shared.initial 16 fun _ => 0)
      interleaved (fun s => s.returned = [[1, 2, 3]] ∧ s.nextCell = some 1)
      (by decide +kernel)
  exact ⟨s, hrun, hret, hcell, (sharedRun_safe 16 (by decide) _ _ s hrun).1⟩

end ShmPipe
