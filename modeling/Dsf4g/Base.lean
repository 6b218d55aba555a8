import Dsf4g.Lib.Bytes
import Dsf4g.Lib.Memory

/-!
# Message heads and length limits

`core/base.h`. Structures are laid out as on x86-64: `stTcpHead` takes 40 bytes,
of which the last three are padding behind `need_close`, and `stCenterHead` takes
40 bytes, of which the last four are padding.
-/
namespace Base

def tcpNormal : Nat := 0
def logicIndexMsg : Nat := 1
def cliDiscon : Nat := 2

def tcpHeadLen : Nat := 40
def centerHeadLen : Nat := 40
def maxBufLen : Nat := 4096
def tcpBufLen : Nat := tcpHeadLen + maxBufLen
def centerBufLen : Nat := centerHeadLen + maxBufLen

/-- The text `inet_ntoa` stores in a `char[16]`, without its terminator. -/
abbrev Addr := { s : List UInt8 // s.length ≤ 15 }

instance : Inhabited Addr := ⟨⟨[], by decide⟩⟩

/-- A connection as both processes name it: the slot and the time of its accept. -/
structure Conn where
  socketPos : Nat
  createTime : Nat
  deriving DecidableEq, Repr

structure TcpHead where
  createTime : Nat
  socketPos : Nat
  socketPort : Nat
  socketAddr : List UInt8
  msgType : Nat
  needClose : Bool
  deriving DecidableEq, Repr

def TcpHead.conn (h : TcpHead) : Conn := ⟨h.socketPos, h.createTime⟩

def readTcpHead (m : Nat → UInt8) (a : Nat) : TcpHead where
  createTime := Bytes.ofLe (Memory.read m a 8)
  socketPos := Bytes.ofLe (Memory.read m (a + 8) 4)
  socketPort := Bytes.ofLe (Memory.read m (a + 12) 4)
  socketAddr := Memory.read m (a + 16) 16
  msgType := Bytes.ofLe (Memory.read m (a + 32) 4)
  needClose := m (a + 36) != 0

inductive RouteType where
  | p2p | hash | broadcast | other (value : Nat)
  deriving DecidableEq, Repr

def RouteType.ofNat : Nat → RouteType
  | 1 => .p2p
  | 2 => .hash
  | 4 => .broadcast
  | n => .other n

structure CenterHead where
  srcType : Nat
  srcId : Nat
  desType : Nat
  desId : Nat
  sessionId : Nat
  routeType : RouteType
  hashKey : Nat
  centerIndex : Nat
  deriving DecidableEq, Repr

/-- Read an `stCenterHead` from a byte string at an offset; missing bytes read as
nothing, which only a frame shorter than its head can meet. -/
def readCenterHead (bs : List UInt8) (a : Nat) : CenterHead where
  srcType := Bytes.ofLe ((bs.drop a).take 4)
  srcId := Bytes.ofLe ((bs.drop (a + 4)).take 4)
  desType := Bytes.ofLe ((bs.drop (a + 8)).take 4)
  desId := Bytes.ofLe ((bs.drop (a + 12)).take 4)
  sessionId := Bytes.ofLe ((bs.drop (a + 16)).take 4)
  routeType := RouteType.ofNat (Bytes.ofLe ((bs.drop (a + 20)).take 4))
  hashKey := Bytes.ofLe ((bs.drop (a + 24)).take 8)
  centerIndex := Bytes.ofLe ((bs.drop (a + 32)).take 4)

end Base
