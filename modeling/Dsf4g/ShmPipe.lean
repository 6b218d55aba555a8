import Dsf4g.Lib.Bytes
import Dsf4g.Lib.Memory

/-!
# The shared-memory pipe

`core/shm_pipe.cpp`. The ring is the `_size` bytes behind the object, one memory
here; `_begin` and `_end` are offsets into it. All index arithmetic is that of
`uint32`, while a length plus `sizeof(uint32)` is computed in `size_t`.
-/
namespace ShmPipe

@[irreducible] def u32 (n : Nat) : Nat := n % 2 ^ 32

@[irreducible] def sub32 (a b : Nat) : Nat := u32 (2 ^ 32 + a - b)

structure Pipe where
  beginIdx : Nat
  endIdx : Nat
  size : Nat
  buf : Nat → UInt8

/-- `Initialize` over a segment that leaves `size` bytes for the ring. The bytes
keep whatever the segment held. -/
def pipeInitialize (size : Nat) (mem : Nat → UInt8) : Pipe := ⟨0, 0, size, mem⟩

/-- `SetIndex`: an index outside the ring is ignored. -/
def setIndex (p : Pipe) (newBegin newEnd : Option Nat) : Pipe :=
  let p := match newBegin with
    | some b => if b < p.size then { p with beginIdx := b } else p
    | none => p
  match newEnd with
  | some e => if e < p.size then { p with endIdx := e } else p
  | none => p

theorem setIndex_buf (p : Pipe) (b e : Option Nat) : (setIndex p b e).buf = p.buf := by
  unfold setIndex
  cases b <;> cases e <;> dsimp only <;> repeat' split
  all_goals rfl

def getLeftSize (p : Pipe) : Nat :=
  let size :=
    if p.beginIdx = p.endIdx then p.size
    else if p.beginIdx > p.endIdx then sub32 p.beginIdx p.endIdx
    else u32 (sub32 p.size p.endIdx + p.beginIdx)
  -- one byte is kept back so that a full ring differs from an empty one
  sub32 size 1

/-- The wrapped branch adds the two indices the wrong way round, as the source
does; it over-reports by twice the gap. -/
def getUsedSize (p : Pipe) : Nat :=
  if p.beginIdx = p.endIdx then 0
  else if p.beginIdx < p.endIdx then sub32 p.endIdx p.beginIdx
  else sub32 (u32 (p.size + p.beginIdx)) p.endIdx

/-- The four-byte length is stored byte by byte, each step wrapping. -/
def putBytes (size : Nat) : List UInt8 → (Nat → UInt8) → Nat → (Nat → UInt8) × Nat
  | [], buf, tmpEnd => (buf, tmpEnd)
  | x :: xs, buf, tmpEnd =>
    putBytes size xs (fun i => if i = tmpEnd then x else buf i) (u32 (tmpEnd + 1) % size)

def getBytes (buf : Nat → UInt8) (size : Nat) : Nat → Nat → List UInt8 × Nat
  | 0, tmpBegin => ([], tmpBegin)
  | n + 1, tmpBegin =>
    let r := getBytes buf size n (u32 (tmpBegin + 1) % size)
    (buf tmpBegin :: r.1, r.2)

/-- The payload copy of `AppendOneData`, decided by the indices after the header
has moved `tmpEnd`. -/
def copyIn (p : Pipe) (buf : Nat → UInt8) (tmpEnd : Nat) (data : List UInt8) : Nat → UInt8 :=
  if p.beginIdx > tmpEnd then Memory.write buf tmpEnd data
  else
    let pipeLeft := sub32 p.size tmpEnd
    if pipeLeft ≥ data.length then Memory.write buf tmpEnd data
    else Memory.write (Memory.write buf tmpEnd (data.take pipeLeft)) 0 (data.drop pipeLeft)

structure AppendResult where
  pipe : Pipe
  ok : Bool

def appendOneData (p : Pipe) (data : List UInt8) : AppendResult :=
  if data.length + 4 > getLeftSize p then ⟨p, false⟩
  else
    let header := putBytes p.size (Bytes.le 4 data.length) p.buf p.endIdx
    let buf := copyIn p header.1 header.2 data
    ⟨setIndex { p with buf } none (some (u32 (header.2 + data.length) % p.size)), true⟩

def copyOut (p : Pipe) (tmpBegin len : Nat) : List UInt8 :=
  if tmpBegin < p.endIdx then Memory.read p.buf tmpBegin len
  else
    let pipeLeft := sub32 p.size tmpBegin
    if pipeLeft ≥ len then Memory.read p.buf tmpBegin len
    else Memory.read p.buf tmpBegin pipeLeft ++ Memory.read p.buf 0 (len - pipeLeft)

/-- What one `GetOneData` call leaves: the pipe, the returned flag, the reference
parameter `buf_len`, and the bytes stored in `buf`. -/
structure GetResult where
  pipe : Pipe
  ok : Bool
  bufLen : Nat
  data : List UInt8

def getOneData (p : Pipe) (maxBufLen : Nat) : GetResult :=
  let used := getUsedSize p
  if used = 0 then ⟨p, false, maxBufLen, []⟩
  else if used < 4 then ⟨setIndex p (some p.endIdx) none, false, maxBufLen, []⟩
  else
    let header := getBytes p.buf p.size 4 p.beginIdx
    let bufLen := Bytes.ofLe header.1
    if bufLen + 4 > used then ⟨setIndex p (some p.endIdx) none, false, bufLen, []⟩
    else if bufLen > maxBufLen then ⟨p, false, bufLen, []⟩
    else ⟨setIndex p (some (u32 (header.2 + bufLen) % p.size)) none, true, bufLen,
      copyOut p header.2 bufLen⟩

end ShmPipe
