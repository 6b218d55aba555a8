import Dsf4g.DbProxy

/-!
# Sessions on player data

`src/common/msg_handler_basic.cpp`, `src/common/msg_basic.cpp` and
`src/common/session_mng.cpp`. A session fetches the data of one or more players, lets
its handler work on it, and saves the parts whose flag is set: those the handler touched
and, since the generated `CopyFrom` sets the flags of what it copies, those that were
fetched. On a version conflict it starts over from the data in the answer. The generated
messages are parameters: `Info` is a part of a player's data without its head, and a
`Codec` parses and serialises it.
-/
namespace Sessions

open DbProxy

inductive DbKey where
  | baseInfo | moneyInfo
  deriving DecidableEq, Repr

def DbKey.num : DbKey → UInt32
  | .baseInfo => 1
  | .moneyInfo => 2

def DbKey.ofNum (n : UInt32) : Option DbKey :=
  if n = 1 then some .baseInfo else if n = 2 then some .moneyInfo else none

structure Codec (Info : Type) where
  parse : DbKey → Blob → Option Info
  serialize : DbKey → Info → Blob
  /-- The default instance of a message. -/
  empty : DbKey → Info

variable {Info : Type}

/-- A part of a player's data: `ver` is `head.ver`. `origin` is not a field of the message: it
records the blob this copy was parsed from. -/
structure Field (Info : Type) where
  info : Info
  ver : Option UInt32
  origin : Option Blob

/-- `PBDBMsg` with its generated `update_` flags. -/
structure PBDBMsg (Info : Type) where
  uid : UInt64
  field : DbKey → Option (Field Info)
  update : DbKey → Bool

structure PBDBProcInfo (Info : Type) where
  uid : UInt64
  keys : List UInt32
  player : Option (PBDBMsg Info)

/-- The states in which a session waits for the database. -/
inductive ProcessState where
  | waitGetRsp | waitSaveRsp
  deriving DecidableEq, Repr

structure Session (Info : Type) where
  dbProcs : List (PBDBProcInfo Info)
  curProcIndex : Nat
  redoCount : Nat
  processState : ProcessState

inductive HandlerResult where
  | done | hup | next | failed | get | save
  deriving DecidableEq, Repr

def maxDbProcRedo : Nat := 10
def maxPbDataBuf : Nat := 65536

/-! ## The player message -/

/-- `*player.mutable_<field>()`, which sets the flag, followed by a change. -/
def PBDBMsg.mutate (c : Codec Info) (p : PBDBMsg Info) (k : DbKey) (g : Info → Info) :
    PBDBMsg Info :=
  let f := (p.field k).getD ⟨c.empty k, none, none⟩
  { p with
    field := Function.update p.field k (some { f with info := g f.info })
    update := Function.update p.update k true }

def PBDBMsg.store (p : PBDBMsg Info) (k : DbKey) (f : Field Info) : PBDBMsg Info :=
  { p with
    field := Function.update p.field k (some f)
    update := Function.update p.update k false }

/-- The generated `CopyFrom` into a message, `none` where `mutable_player()` makes one: `Clear` leaves
the flags, and `MergeFrom` takes each part that is there through its `mutable_`. -/
def PBDBMsg.copyFrom (old : Option (PBDBMsg Info)) (p : PBDBMsg Info) : PBDBMsg Info :=
  { p with update := fun k => old.elim false (fun o => o.update k) || (p.field k).isSome }

section Fields

variable (p : PBDBMsg Info) (k : DbKey)

theorem PBDBMsg.store_field (f : Field Info) : (p.store k f).field k = some f :=
  Function.update_self ..

theorem PBDBMsg.store_update (f : Field Info) : (p.store k f).update k = false :=
  Function.update_self ..

theorem PBDBMsg.mutate_field (c : Codec Info) (g : Info → Info) :
    (p.mutate c k g).field k = some { (p.field k).getD ⟨c.empty k, none, none⟩ with
      info := g ((p.field k).getD ⟨c.empty k, none, none⟩).info } :=
  Function.update_self ..

theorem PBDBMsg.mutate_update (c : Codec Info) (g : Info → Info) :
    (p.mutate c k g).update k = true :=
  Function.update_self ..

variable {k} {k' : DbKey}

theorem PBDBMsg.store_other (h : k' ≠ k) (f : Field Info) :
    (p.store k f).field k' = p.field k' ∧ (p.store k f).update k' = p.update k' :=
  ⟨Function.update_of_ne h .., Function.update_of_ne h ..⟩

theorem PBDBMsg.mutate_other (h : k' ≠ k) (c : Codec Info) (g : Info → Info) :
    (p.mutate c k g).field k' = p.field k' ∧ (p.mutate c k g).update k' = p.update k' :=
  ⟨Function.update_of_ne h .., Function.update_of_ne h ..⟩

end Fields

def constructDBMsg (c : Codec Info) (k : DbKey) (f : Field Info) (d : PBDBData) :
    Option (Field Info) :=
  let parsed : Option (Field Info) :=
    match d.blob with
    | none => some f
    | some b => (c.parse k b).map fun i => ⟨i, none, some b⟩
  parsed.map fun f =>
    match d.ver with
    | none => f
    | some v => { f with ver := some v }

def parseDBData (c : Codec Info) (p : PBDBMsg Info) : List PBDBData → Option (PBDBMsg Info)
  | [] => some p
  | d :: ds =>
    match DbKey.ofNum d.key with
    | none => none
    | some k =>
      match constructDBMsg c k ((p.field k).getD ⟨c.empty k, none, none⟩) d with
      | none => none
      | some f => parseDBData c (p.store k f) ds

structure Added (Info : Type) where
  field : Field Info
  data : PBDBData

/-- `AddSaveData`: the local version goes up by one and is what is sent. -/
def addSaveData (c : Codec Info) (k : DbKey) (f : Field Info) : Option (Added Info) :=
  let blob := c.serialize k f.info
  if blob.length > maxPbDataBuf then none
  else
    let ver := f.ver.getD 0 + 1
    some ⟨{ f with ver := some ver }, ⟨k.num, some blob, some ver, f.origin⟩⟩

structure Saving (Info : Type) where
  player : PBDBMsg Info
  datas : List PBDBData

/-- The loop of `SendSaveToDBHandle` over the keys; `none` is its early return. -/
def collectSaves (c : Codec Info) : List UInt32 → Saving Info → Option (Saving Info)
  | [], st => some st
  | n :: ns, st =>
    match DbKey.ofNum n with
    | none => none
    | some k =>
      if st.player.update k then
        match addSaveData c k ((st.player.field k).getD ⟨c.empty k, none, none⟩) with
        | none => collectSaves c ns st
        | some a => collectSaves c ns ⟨st.player.store k a.field, st.datas ++ [a.data]⟩
      else collectSaves c ns st

/-! ## Requests of a session -/

inductive Request where
  | get (r : GetRequest)
  | save (r : SaveRequest)
  deriving DecidableEq, Repr

/-- What a step leaves of a session, `none` when it is released, and what it sent. -/
structure Outcome (Info : Type) where
  session : Option (Session Info)
  sent : List Request

def Outcome.released : Outcome Info := ⟨none, []⟩

def getRequest (p : PBDBProcInfo Info) : GetRequest :=
  ⟨p.uid, p.keys.map fun n => ⟨n, none, none, none⟩⟩

/-- `GetAllData`: one request for every player without data. -/
def getAllData (s : Session Info) : Outcome Info :=
  let missing := s.dbProcs.filter fun p => p.player.isNone
  if missing.isEmpty then Outcome.released
  else ⟨some { s with processState := .waitGetRsp }, missing.map fun p => .get (getRequest p)⟩

def saveOneData (c : Codec Info) (s : Session Info) : Outcome Info :=
  match s.dbProcs[s.curProcIndex]? with
  | none => Outcome.released
  | some p =>
    match collectSaves c p.keys ⟨p.player.getD ⟨0, fun _ => none, fun _ => false⟩, []⟩ with
    | none => Outcome.released
    | some st =>
      if st.datas.isEmpty then Outcome.released
      else
        ⟨some { s with
            dbProcs := s.dbProcs.set s.curProcIndex { p with player := some st.player }
            processState := .waitSaveRsp },
          [.save ⟨st.player.uid, st.datas⟩]⟩

def addDBGetKey (procs : List (PBDBProcInfo Info)) (uid : UInt64) (key : UInt32) :
    List (PBDBProcInfo Info) :=
  match procs with
  | [] => [⟨uid, [key], none⟩]
  | p :: ps =>
    if p.uid = uid then (if key ∈ p.keys then p else { p with keys := p.keys ++ [key] }) :: ps
    else p :: addDBGetKey ps uid key

def getDBProcIndex (procs : List (PBDBProcInfo Info)) (uid : UInt64) : Option Nat :=
  procs.findIdx? fun p => p.uid = uid

def getAllDBData (procs : List (PBDBProcInfo Info)) : Bool := procs.all fun p => p.player.isSome

/-! ## Handlers -/

/-- What a call of `OnProcessData` does: it changes parts of players through `mutable_`, and returns
a result. -/
structure Processed (Info : Type) where
  edit : Nat → DbKey → Option (Info → Info)
  result : HandlerResult

/-- A message handler: the keys its `OnMessage` asks for, and the two functions handlers override.
`OnSaveSuccess` ends the session or goes on to the next player. -/
structure Handler (Info : Type) where
  keys : List (UInt64 × DbKey)
  onProcessData : Session Info → Processed Info
  next : Session Info → Bool

def editField (c : Codec Info) (edit : DbKey → Option (Info → Info)) (p : PBDBMsg Info)
    (k : DbKey) : PBDBMsg Info :=
  match edit k with
  | none => p
  | some g => p.mutate c k g

def editPlayer (c : Codec Info) (edit : DbKey → Option (Info → Info)) (p : PBDBMsg Info) :
    PBDBMsg Info :=
  editField c edit (editField c edit p .baseInfo) .moneyInfo

def editProcs (c : Codec Info) (edit : Nat → DbKey → Option (Info → Info))
    (procs : List (PBDBProcInfo Info)) : List (PBDBProcInfo Info) :=
  procs.mapIdx fun i p => { p with player := p.player.map (editPlayer c (edit i)) }

def processed (c : Codec Info) (h : Handler Info) (s : Session Info) : Session Info :=
  { s with dbProcs := editProcs c (h.onProcessData s).edit s.dbProcs }

/-- The loop of `Process` on a handler's result. -/
def proceed (c : Codec Info) (h : Handler Info) (s : Session Info) :
    HandlerResult → Outcome Info
  | .get => getAllData s
  | .save => saveOneData c s
  | .done | .failed => Outcome.released
  | .hup => ⟨some s, []⟩
  | .next =>
    let s' : Session Info := { s with curProcIndex := s.curProcIndex + 1 }
    if s.curProcIndex + 1 < s.dbProcs.length then
      proceed c h (processed c h s') (h.onProcessData s').result
    else Outcome.released
termination_by s.dbProcs.length - s.curProcIndex
decreasing_by
  simp only [processed, editProcs, List.length_mapIdx]
  omega

def processData (c : Codec Info) (h : Handler Info) (s : Session Info) : Outcome Info :=
  proceed c h (processed c h s) (h.onProcessData s).result

def start (h : Handler Info) : Outcome Info :=
  getAllData ⟨h.keys.foldl (fun ps k => addDBGetKey ps k.1 k.2.num) [], 0, 0, .waitGetRsp⟩

/-- The player of an answer is copied over the one of its uid. -/
def reload (c : Codec Info) (s : Session Info) (r : Response) : Option (Session Info) :=
  match parseDBData c ⟨r.uid, fun _ => none, fun _ => false⟩ r.datas with
  | none => none
  | some player =>
    match getDBProcIndex s.dbProcs r.uid with
    | none => none
    | some i => some { s with
        dbProcs := s.dbProcs.modify i fun p =>
          { p with player := some (PBDBMsg.copyFrom p.player player) } }

def getResponse (c : Codec Info) (h : Handler Info) (s : Session Info) (r : Response) :
    Outcome Info :=
  if r.result = .ok then
    match reload c s r with
    | none => Outcome.released
    | some s => if getAllDBData s.dbProcs then processData c h s else ⟨some s, []⟩
  else Outcome.released

def saveResponse (c : Codec Info) (h : Handler Info) (s : Session Info) (r : Response) :
    Outcome Info :=
  match r.result with
  | .ok => proceed c h s (if h.next s then .next else .done)
  | .verDiffer =>
    let s := { s with redoCount := s.redoCount + 1 }
    if s.redoCount ≥ maxDbProcRedo then Outcome.released
    else
      match reload c s r with
      | none => Outcome.released
      | some s => processData c h s
  | .error => Outcome.released

inductive Reply where
  | get (r : Response)
  | save (r : Response)

/-- `Process` on an answer of the database. An answer of the other kind reads as one without a
result, which is a failure. -/
def process (c : Codec Info) (h : Handler Info) (s : Session Info) : Reply → Outcome Info
  | .get r => if s.processState = .waitGetRsp then getResponse c h s r else Outcome.released
  | .save r => if s.processState = .waitSaveRsp then saveResponse c h s r else Outcome.released

end Sessions
