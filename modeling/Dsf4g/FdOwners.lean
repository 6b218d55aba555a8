import Dsf4g.Lib.Descriptors
import Dsf4g.SlotReuse
import Dsf4g.TcpSlots

/-!
# Descriptors and the slots that close them

Both servers keep the descriptor of a connection in its slot and close whatever the
field holds when the slot is released. A slot that has no connection holds 0. The
runs here follow the table of open descriptors of the process, where 0 counts as the
connection behind every descriptor that `accept` did not return.
-/
namespace FdOwners

open Base Descriptors

/-- A call of `close` in `SocketRelease`: the connection behind the descriptor, when it was open, and
the one the slot was in use for, when there was one. -/
structure Closing where
  closed : Option Nat
  current : Option Nat
  deriving DecidableEq, Repr

/-- What was open came from `accept`, for the connection in the slot. -/
def Closing.Right (c : Closing) : Prop := ∀ n, c.closed = some n → n ≠ 0 ∧ c.current = some n

/-- Every descriptor from `accept` that is open is in the field of one slot that is not free, and
slots have closed their own connections only. -/
structure Orderly (conns : Int → Option Nat) (size : Nat) (freeList : List Nat) (fd : Nat → Int)
    (closings : List Closing) : Prop where
  owner : ∀ d c, conns d = some c → c ≠ 0 → ∃! pos, pos < size ∧ pos ∉ freeList ∧ fd pos = d
  right : ∀ c ∈ closings, c.Right

structure Fields (conns : Int → Option Nat) (opened size : Nat) (freeList : List Nat)
    (s : Slots Nat) : Prop where
  nodup : freeList.Nodup
  free : ∀ pos ∈ freeList, pos < size ∧ ¬ s.taken pos
  inRange : ∀ pos, s.taken pos → pos < size
  idle : ∀ pos, ¬ s.taken pos → s.fd pos = 0
  owned : Owned conns opened s
  positive : 0 < opened
  /-- Descriptor 0 did not come from `accept`. -/
  zero : ∀ c, conns 0 = some c → c = 0

section Fields

variable {conns : Int → Option Nat} {opened size : Nat} {freeList : List Nat} {s t : Slots Nat}

/-- Before the first connection every slot but the first is free. -/
theorem booted_fields (others : List Nat) (h : ∀ pos, ¬ s.taken pos ∧ s.fd pos = 0) :
    Fields (booted others) 1 size (List.range size).tail s where
  nodup := List.nodup_range.tail
  free pos hpos := ⟨List.mem_range.mp (List.mem_of_mem_tail hpos), (h pos).1⟩
  inRange pos ht := absurd ht (h pos).1
  idle pos _ := (h pos).2
  owned := booted_owned others fun pos => (h pos).1
  positive := Nat.one_pos
  zero _ hc := (booted_eq_some hc).2

/-- Slots in order and closes of their own connections make the table orderly. -/
theorem Fields.orderly (h : Fields conns opened size freeList s) {closings : List Closing}
    (hright : ∀ c ∈ closings, c.Right) : Orderly conns size freeList s.fd closings := by
  refine ⟨fun d c hc hne => ?_, hright⟩
  obtain ⟨pos, ht, hfd⟩ := h.owned.owner d c hc hne
  refine ⟨pos, ⟨h.inRange pos ht, fun hf => (h.free pos hf).2 ht, hfd⟩, fun i hi => ?_⟩
  obtain ⟨-, -, hi⟩ := hi
  have htaken : s.taken i := by
    by_contra hidle
    rw [h.idle i hidle] at hi
    rw [← hi] at hc
    exact hne (h.zero c hc)
  have hopen : conns (s.fd i) = some c := by rw [hi, hc]
  exact h.owned.unique htaken ht (hi.trans hfd.symm) hopen

/-- The close of a slot in use is right. -/
theorem Fields.right (h : Fields conns opened size freeList s) {pos : Nat} (ht : s.taken pos) :
    Closing.Right ⟨conns (s.fd pos), some (s.conn pos)⟩ := by
  intro n hn
  have hc := h.owned.closes ht hn
  exact ⟨hc ▸ h.owned.real pos ht, by rw [hc]⟩

/-- Only the kinds, descriptors and connections of the slots matter. -/
theorem Fields.congr (h : Fields conns opened size freeList s)
    (htaken : ∀ i, t.taken i ↔ s.taken i) (hfd : ∀ i, t.fd i = s.fd i)
    (hconn : ∀ i, t.conn i = s.conn i) : Fields conns opened size freeList t := by
  refine ⟨h.nodup, fun i hi => ?_, fun i hi => ?_, fun i hi => ?_, ?_, h.positive, h.zero⟩
  · rw [htaken]
    exact h.free i hi
  · exact h.inRange i ((htaken i).mp hi)
  · rw [htaken] at hi
    rw [hfd]
    exact h.idle i hi
  · exact h.owned.congr htaken (fun i _ => hfd i) fun i _ => hconn i

/-- A slot in use is closed, cleared and put behind the free ones. -/
theorem Fields.release (h : Fields conns opened size freeList s) {pos : Nat} (ht : s.taken pos)
    (htaken : ∀ i, t.taken i ↔ s.taken i ∧ i ≠ pos) (hself : t.fd pos = 0)
    (hother : ∀ i, i ≠ pos → t.fd i = s.fd i) (hconn : ∀ i, t.conn i = s.conn i) :
    Fields (Function.update conns (s.fd pos) none) opened size (freeList ++ [pos]) t := by
  refine ⟨?_, fun i hi => ?_, fun i hi => ?_, fun i hi => ?_, ?_, h.positive, fun c hc => ?_⟩
  · refine h.nodup.append (List.nodup_singleton pos) fun i hi hip => ?_
    rw [List.mem_singleton.mp hip] at hi
    exact (h.free pos hi).2 ht
  · rw [htaken]
    obtain hi | hi := List.mem_append.mp hi
    · exact ⟨(h.free i hi).1, fun hit => (h.free i hi).2 hit.1⟩
    · obtain rfl := List.mem_singleton.mp hi
      exact ⟨h.inRange i ht, fun hit => hit.2 rfl⟩
  · exact h.inRange i ((htaken i).mp hi).1
  · by_cases hip : i = pos
    · rw [hip]
      exact hself
    · rw [hother i hip]
      exact h.idle i fun hit => hi ((htaken i).mpr ⟨hit, hip⟩)
  · refine h.owned.close ht (fun i hi => ⟨((htaken i).mp hi).1, fun hip => ?_⟩)
      (fun i hip hi => (htaken i).mpr ⟨hi, hip⟩) hother hconn
    exact absurd hip ((htaken i).mp hi).2
  · by_cases hz : (0 : Int) = s.fd pos
    · rw [← hz, Function.update_self] at hc
      cases hc
    · rw [Function.update_of_ne hz] at hc
      exact h.zero c hc

/-- A slot in use loses its connection and stays in use. -/
theorem Fields.shut (h : Fields conns opened size freeList s) {pos : Nat} (ht : s.taken pos)
    (htaken : ∀ i, t.taken i ↔ s.taken i) (hself : t.fd pos < 0)
    (hother : ∀ i, i ≠ pos → t.fd i = s.fd i) (hconn : ∀ i, t.conn i = s.conn i) :
    Fields (Function.update conns (s.fd pos) none) opened size freeList t := by
  refine ⟨h.nodup, fun i hi => ?_, fun i hi => ?_, fun i hi => ?_, ?_, h.positive, fun c hc => ?_⟩
  · rw [htaken]
    exact h.free i hi
  · exact h.inRange i ((htaken i).mp hi)
  · rw [htaken] at hi
    have hip : i ≠ pos := by
      rintro rfl
      exact hi ht
    rw [hother i hip]
    exact h.idle i hi
  · refine h.owned.close ht (fun i hi => ⟨(htaken i).mp hi, fun hip => ?_⟩)
      (fun i _ hi => (htaken i).mpr hi) hother hconn
    rw [hip]
    exact hself
  · by_cases hz : (0 : Int) = s.fd pos
    · rw [← hz, Function.update_self] at hc
      cases hc
    · rw [Function.update_of_ne hz] at hc
      exact h.zero c hc

/-- The first free slot takes a connection under a descriptor that was not open. -/
theorem Fields.accept {pos : Nat} {rest : List Nat} (h : Fields conns opened size (pos :: rest) s)
    {d : Int} (hd : 0 < d) (hclosed : conns d = none)
    (htaken : ∀ i, t.taken i ↔ i = pos ∨ s.taken i)
    (hself : t.fd pos = d ∧ t.conn pos = opened)
    (hother : ∀ i, i ≠ pos → t.fd i = s.fd i ∧ t.conn i = s.conn i) :
    Fields (Function.update conns d (some opened)) (opened + 1) size rest t := by
  obtain ⟨hlt, hfree⟩ := h.free pos (List.mem_cons_self ..)
  obtain ⟨hnew, hnodup⟩ := List.nodup_cons.mp h.nodup
  refine ⟨hnodup, fun i hi => ?_, fun i hi => ?_, fun i hi => ?_, ?_, Nat.succ_pos _, fun c hc => ?_⟩
  · have hip : i ≠ pos := by
      rintro rfl
      exact hnew hi
    obtain ⟨hlt, hidle⟩ := h.free i (List.mem_cons_of_mem _ hi)
    refine ⟨hlt, fun hit => ?_⟩
    exact hidle (((htaken i).mp hit).resolve_left hip)
  · obtain rfl | hit := (htaken i).mp hi
    · exact hlt
    · exact h.inRange i hit
  · rw [htaken, not_or] at hi
    rw [(hother i hi.1).1]
    exact h.idle i hi.2
  · exact h.owned.accept h.positive hfree (Int.le_of_lt hd) hclosed htaken hself hother
  · rw [Function.update_of_ne (Int.ne_of_lt hd)] at hc
    exact h.zero c hc

end Fields

/-! ## The gateway -/

namespace Tcp

open TcpSvr TcpSlots

/-- The gateway, the table of open descriptors, and the connection last accepted in each slot. -/
structure World where
  tcp : Svr
  conns : Int → Option Nat
  opened : Nat
  holder : Nat → Nat
  closings : List Closing

/-- The slot that `AcceptConnect` takes and the descriptor `accept` returns. -/
def acceptedFd (t : Svr) : Event → Option (Nat × Int)
  | .accept (.ok fd _ _ _) | .accept (.setupFailed fd) => t.freeList.head?.map (·, fd)
  | _ => none

def World.opens (w : World) (e : Event) : World :=
  match acceptedFd w.tcp e with
  | none => w
  | some (pos, fd) =>
    { w with
      conns := Function.update w.conns fd (some w.opened)
      opened := w.opened + 1
      holder := Function.update w.holder pos w.opened }

def current (t : Svr) (holder : Nat → Nat) (pos : Nat) : Option Nat :=
  if (t.pool pos).type = clinetSocket then some (holder pos) else none

def World.closes (w : World) (e : Event) : World :=
  match releaseCall w.tcp e with
  | none => w
  | some (q, pos) =>
    if pos < q.maxClientNum then
      { w with
        conns := Function.update w.conns (q.pool pos).fd none
        closings := w.closings ++ [⟨w.conns (q.pool pos).fd, current q w.holder pos⟩] }
    else w

/-- `accept` returns a descriptor that is not open, and `RecvClientData` is called on slots in range
that do not listen. -/
def Possible (w : World) (e : Event) : Prop :=
  (∀ a ∈ acceptedFd w.tcp e, 0 ≤ a.2 ∧ w.conns a.2 = none) ∧
    match e with
    | .recv pos _ => pos < w.tcp.maxClientNum ∧ (w.tcp.pool pos).type ≠ listenSocket
    | _ => True

instance (w : World) (e : Event) : Decidable (Possible w e) :=
  match e with
  | .recv .. => inferInstanceAs (Decidable (_ ∧ _ ∧ _))
  | .accept _ | .error _ | .send .. | .fetch => inferInstanceAs (Decidable (_ ∧ True))

def next (w : World) (e : Event) : Option World :=
  if Possible w e then some { (w.opens e).closes e with tcp := serve w.tcp e } else none

def initial (maxClientNum : Nat) (mem : Nat → UInt8) (cs sc : Fifo TcpFrame) (others : List Nat) :
    World where
  tcp := TcpSvr.initNetwork maxClientNum mem cs sc
  conns := booted others
  opened := 1
  holder := fun _ => 0
  closings := []

/-- `accept` and the calls behind it succeed, on another descriptor than 0, and `SocketRelease` is
called on slots of connections. -/
def Guard (w : World) : Event → Prop
  | .accept (.ok fd _ _ _) => fd ≠ 0
  | .accept _ => w.tcp.freeList = []
  | .error pos => pos < w.tcp.maxClientNum → (w.tcp.pool pos).type = clinetSocket
  | .recv pos r => roundRelease w.tcp pos r ≠ none → (w.tcp.pool pos).type = clinetSocket
  | .send f r => Ends w.tcp f r → (w.tcp.pool f.head.socketPos).type = clinetSocket
  | .fetch => True

def slots (t : Svr) (holder : Nat → Nat) : Slots Nat :=
  ⟨fun pos => (t.pool pos).fd, fun pos => (t.pool pos).type = clinetSocket, holder⟩

structure Inv (w : World) : Prop where
  named : ∀ pos, (w.tcp.pool pos).socketPos = pos
  fields : Fields w.conns w.opened w.tcp.maxClientNum w.tcp.freeList (slots w.tcp w.holder)
  right : ∀ c ∈ w.closings, c.Right

def Good (w : World) : Prop :=
  Orderly w.conns w.tcp.maxClientNum w.tcp.freeList (fun pos => (w.tcp.pool pos).fd) w.closings

section Steps

variable {w : World}

theorem Inv.good (h : Inv w) : Good w := h.fields.orderly h.right

/-- Two gateways agree on what a descriptor is closed by. -/
def SameFields (t t' : Svr) : Prop :=
  ∀ i, (t'.pool i).fd = (t.pool i).fd ∧ (t'.pool i).type = (t.pool i).type ∧
    (t'.pool i).socketPos = (t.pool i).socketPos

/-- It is enough to look at one slot. -/
theorem sameFields_of_slot {t t' : Svr} {pos : Nat} {s : Socket} (hslot : t'.pool pos = s)
    (hs : s.fd = (t.pool pos).fd ∧ s.type = (t.pool pos).type ∧
      s.socketPos = (t.pool pos).socketPos)
    (hother : ∀ i, i ≠ pos → t'.pool i = t.pool i) : SameFields t t' := by
  intro i
  by_cases hi : i = pos
  · rw [hi, hslot]
    exact hs
  · rw [hother i hi]
    exact ⟨rfl, rfl, rfl⟩

/-- A change of other fields keeps the invariant. -/
theorem Inv.kept (h : Inv w) {t : Svr} (hmax : t.maxClientNum = w.tcp.maxClientNum)
    (hfree : t.freeList = w.tcp.freeList) (hsame : SameFields w.tcp t) :
    Inv { w with tcp := t } := by
  refine ⟨fun i => ((hsame i).2.2).trans (h.named i), ?_, h.right⟩
  show Fields w.conns w.opened t.maxClientNum t.freeList (slots t w.holder)
  rw [hmax, hfree]
  refine h.fields.congr (fun i => ?_) (fun i => (hsame i).1) fun _ => rfl
  show (t.pool i).type = clinetSocket ↔ (w.tcp.pool i).type = clinetSocket
  rw [(hsame i).2.1]

/-- A slot of a connection is released. -/
theorem Inv.released (h : Inv w) {q : Svr} {pos : Nat} (notify : Bool)
    (hmax : q.maxClientNum = w.tcp.maxClientNum) (hfree : q.freeList = w.tcp.freeList)
    (hsame : SameFields w.tcp q) (hclient : (w.tcp.pool pos).type = clinetSocket) :
    pos < q.maxClientNum ∧
      Inv { w with
        tcp := socketRelease q pos notify
        conns := Function.update w.conns (q.pool pos).fd none
        closings := w.closings ++ [⟨w.conns (q.pool pos).fd, current q w.holder pos⟩] } := by
  have hlt : pos < q.maxClientNum := hmax ▸ h.fields.inRange pos hclient
  have hr := socketRelease_released q pos notify hlt
  refine ⟨hlt, fun i => ?_, ?_, fun c hc => ?_⟩
  · by_cases hi : i = pos
    · subst hi
      show ((socketRelease q i notify).pool i).socketPos = i
      rw [hr.slot]
      rfl
    · show ((socketRelease q pos notify).pool i).socketPos = i
      rw [hr.other i hi, (hsame i).2.2]
      exact h.named i
  · show Fields _ w.opened (socketRelease q pos notify).maxClientNum
      (socketRelease q pos notify).freeList _
    rw [hr.maxClientNum, hmax, hr.freeList, hfree, (hsame pos).1]
    refine h.fields.release hclient (fun i => ?_) ?_ (fun i hi => ?_) fun _ => rfl
    · show ((socketRelease q pos notify).pool i).type = clinetSocket ↔
        (w.tcp.pool i).type = clinetSocket ∧ i ≠ pos
      by_cases hi : i = pos
      · subst hi
        rw [hr.slot]
        simp [Socket.cleared, clinetSocket]
      · rw [hr.other i hi, (hsame i).2.1]
        simp [hi]
    · show ((socketRelease q pos notify).pool pos).fd = 0
      rw [hr.slot]
      rfl
    · show ((socketRelease q pos notify).pool i).fd = (w.tcp.pool i).fd
      rw [hr.other i hi, (hsame i).1]
  · obtain hc | hc := List.mem_append.mp hc
    · exact h.right c hc
    · rw [List.mem_singleton.mp hc, current, (hsame pos).1, (hsame pos).2.1, if_pos hclient]
      exact h.fields.right hclient

/-- The first free slot takes a connection. -/
theorem Inv.accepted (h : Inv w) {t : Svr} {pos : Nat} {d : Int}
    (hmax : t.maxClientNum = w.tcp.maxClientNum) (hfree : w.tcp.freeList = pos :: t.freeList)
    (hd : 0 < d) (hclosed : w.conns d = none)
    (hself : (t.pool pos).fd = d ∧ (t.pool pos).type = clinetSocket ∧
      (t.pool pos).socketPos = pos)
    (hother : ∀ i, i ≠ pos → t.pool i = w.tcp.pool i) :
    Inv { w with
      tcp := t
      conns := Function.update w.conns d (some w.opened)
      opened := w.opened + 1
      holder := Function.update w.holder pos w.opened } := by
  refine ⟨fun i => ?_, ?_, h.right⟩
  · by_cases hi : i = pos
    · subst hi
      exact hself.2.2
    · show (t.pool i).socketPos = i
      rw [hother i hi]
      exact h.named i
  · show Fields _ _ t.maxClientNum t.freeList _
    have hfields := h.fields
    rw [hfree] at hfields
    rw [hmax]
    refine hfields.accept hd hclosed (fun i => ?_) ⟨hself.1, Function.update_self ..⟩ fun i hi => ?_
    · show (t.pool i).type = clinetSocket ↔ i = pos ∨ (w.tcp.pool i).type = clinetSocket
      by_cases hi : i = pos
      · subst hi
        simp [hself.2.1]
      · rw [hother i hi]
        simp [hi]
    · refine ⟨?_, Function.update_of_ne hi ..⟩
      show (t.pool i).fd = (w.tcp.pool i).fd
      rw [hother i hi]

/-- Without a call of `accept` nothing is opened. -/
theorem opens_none {e : Event} (h : acceptedFd w.tcp e = none) : w.opens e = w := by
  simp only [World.opens, h]

theorem closes_none {e : Event} (h : releaseCall w.tcp e = none) : w.closes e = w := by
  simp only [World.closes, h]

theorem closes_some {e : Event} {q : Svr} {pos : Nat} (h : releaseCall w.tcp e = some (q, pos))
    (hlt : pos < q.maxClientNum) : w.closes e =
      { w with
        conns := Function.update w.conns (q.pool pos).fd none
        closings := w.closings ++ [⟨w.conns (q.pool pos).fd, current q w.holder pos⟩] } := by
  simp only [World.closes, h, if_pos hlt]

/-- Under the guard, a release is one of a slot in use. -/
theorem Inv.before (h : Inv w) {e : Event} {q : Svr} {pos : Nat} (hg : Guard w e)
    (hb : Before w.tcp e q pos) (hcall : releaseCall w.tcp e = some (q, pos)) :
    acceptedFd w.tcp e = none ∧ q.maxClientNum = w.tcp.maxClientNum ∧
      q.freeList = w.tcp.freeList ∧ SameFields w.tcp q ∧
      (w.tcp.pool pos).type = clinetSocket := by
  cases hb with
  | @accept r q pos hfree hpool hmax =>
    cases r with
    | failed => rw [show w.tcp.freeList = [] from hg] at hfree; cases hfree
    | setupFailed fd => rw [show w.tcp.freeList = [] from hg] at hfree; cases hfree
    | ok fd msec port addr =>
      simp only [releaseCall, acceptRelease, hfree] at hcall
      cases hcall
  | error hlt => exact ⟨rfl, rfl, rfl, fun _ => ⟨rfl, rfl, rfl⟩, hg hlt⟩
  | @recv pos r q hfree hslot hother hmax =>
    obtain ⟨n, hslot⟩ := hslot
    have hrelease : roundRelease w.tcp pos r ≠ none := by
      intro hnone
      simp only [releaseCall, hnone, Option.map_none] at hcall
      cases hcall
    rw [h.named]
    exact ⟨rfl, hmax, hfree, sameFields_of_slot hslot ⟨rfl, rfl, rfl⟩ hother, hg hrelease⟩
  | send hends =>
    rw [h.named]
    exact ⟨rfl, rfl, rfl, fun _ => ⟨rfl, rfl, rfl⟩, hg hends⟩

/-- Every guarded step keeps each open descriptor in one slot. -/
theorem step_inv (h : Inv w) {e : Event} {w' : World} (hg : Guard w e) (hs : next w e = some w') :
    Inv w' := by
  simp only [next] at hs
  split at hs
  · next hp =>
    cases hs
    obtain ⟨q, pos, notify, hcall, hbefore, heq⟩ | ⟨hnone, hkept⟩ := serve_effect w.tcp e
    · obtain ⟨hfd, hmax, hfree, hsame, hclient⟩ := h.before hg hbefore hcall
      obtain ⟨hlt, hinv⟩ := h.released notify hmax hfree hsame hclient
      rw [opens_none hfd, closes_some hcall hlt, heq]
      exact hinv
    · generalize ht : serve w.tcp e = t at hkept
      cases hkept with
      | @full r hfree =>
        have hfd : acceptedFd w.tcp (.accept r) = none := by
          cases r <;> simp [acceptedFd, hfree]
        rw [opens_none hfd, closes_none hnone]
        exact h
      | @accept fd msec port addr t pos hfree hslot hother hmax =>
        have hfd : acceptedFd w.tcp (.accept (.ok fd msec port addr)) = some (pos, fd) := by
          simp [acceptedFd, hfree]
        obtain ⟨hnat, hclosed⟩ := hp.1 _ hfd
        have hpos : 0 < fd := Int.lt_iff_le_and_ne.mpr ⟨hnat, Ne.symm hg⟩
        have hopens : w.opens (.accept (.ok fd msec port addr)) = { w with
            conns := Function.update w.conns fd (some w.opened)
            opened := w.opened + 1
            holder := Function.update w.holder pos w.opened } := by
          simp only [World.opens, hfd]
        have hcloses := closes_none (w := w.opens (.accept (.ok fd msec port addr)))
          (by rw [hopens]; exact hnone)
        rw [hcloses, hopens]
        refine h.accepted hmax hfree hpos hclosed ?_ hother
        rw [hslot]
        exact ⟨rfl, rfl, h.named pos⟩
      | error hlt =>
        rw [opens_none rfl, closes_none hnone]
        exact h
      | recv hfree hslot hother hmax =>
        obtain ⟨n, hslot⟩ := hslot
        rw [opens_none rfl, closes_none hnone]
        exact h.kept hmax hfree (sameFields_of_slot hslot ⟨rfl, rfl, rfl⟩ hother)
      | ignored =>
        rw [opens_none rfl, closes_none hnone]
        exact h
      | indexed n hreach =>
        rw [opens_none rfl, closes_none hnone]
        exact h.kept rfl rfl (sameFields_of_slot (setSocket_pool ..) ⟨rfl, rfl, rfl⟩
          fun i hi => setSocket_pool_other _ _ _ _ hi)
      | fetch hfree hpool hmax =>
        rw [opens_none rfl, closes_none hnone]
        exact h.kept hmax hfree fun i => by rw [hpool]; exact ⟨rfl, rfl, rfl⟩
  · cases hs

end Steps

theorem initial_inv (maxClientNum : Nat) (mem : Nat → UInt8) (cs sc : Fifo TcpFrame)
    (others : List Nat) : Inv (initial maxClientNum mem cs sc others) := by
  have hslot : ∀ pos, ((initial maxClientNum mem cs sc others).tcp.pool pos).socketPos = pos ∧
      ((initial maxClientNum mem cs sc others).tcp.pool pos).type ≠ clinetSocket ∧
      ((initial maxClientNum mem cs sc others).tcp.pool pos).fd = 0 := by
    intro pos
    simp only [initial, TcpSvr.initNetwork]
    split
    · next hpos =>
      rw [hpos]
      exact ⟨rfl, by decide, rfl⟩
    · exact ⟨rfl, by simp [Socket.cleared, clinetSocket], rfl⟩
  exact ⟨fun pos => (hslot pos).1, booted_fields others fun pos => (hslot pos).2,
    fun c hc => by cases hc⟩

/-- The guard keeps the descriptors in order through a run. -/
theorem run_good {maxClientNum : Nat} {mem : Nat → UInt8} {cs sc : Fifo TcpFrame}
    {others : List Nat} {es : List Event} {w : World}
    (h : Trace.Run (fun w e w' => next w e = some w') Guard
      (initial maxClientNum mem cs sc others) es w) : Good w :=
  (h.invariant Inv (initial_inv maxClientNum mem cs sc others) fun _ _ _ hi hg hs =>
    step_inv hi hg hs).good

end Tcp

/-! ## The proxy -/

namespace Proxy

open ProxySvr Sockets SendBuffer
open SlotReuse (Action Taken recvOnce transferred)

/-- The proxy and the connection last accepted in each slot. -/
structure World where
  proxy : Proxy
  holder : Nat → Nat
  closings : List Closing

/-- The proxy when the parsing loop calls `SocketRelease` on a bad length. -/
def forwardRelease (p : Proxy) (bs : List UInt8) : Option Proxy :=
  if bs.length ≤ 4 then none
  else if hlen : frameLen bs > centerBufLen then some p
  else if frameLen bs > bs.length then none
  else if frameLen bs = 0 then none
  else
    match doTransfer p ⟨bs.take (frameLen bs), by rw [List.length_take]; omega⟩ with
    | .error _ => none
    | .ok p => forwardRelease p (bs.drop (frameLen bs))
termination_by bs.length
decreasing_by rw [List.length_drop]; omega

/-- The proxy and the slot when `Register` releases the socket it replaces. -/
def registerRelease (p : Proxy) (pos : Nat) : Option (Proxy × Nat) :=
  match ensureType p (p.pool pos).svrType with
  | none => none
  | some p' =>
    match entry p' (p.pool pos).svrType (p.pool pos).svrId with
    | .ok (some before) =>
      some (setEp p' pos (inherited p' before pos), (p'.pool before).socketPos)
    | _ => none

/-- `AcceptConnect` with the descriptor in the slot it has taken. -/
def taken (p : Proxy) (pos : Nat) (rest : List Nat) (fd t id : Nat) : Proxy :=
  takeSlot p pos rest { acceptedSocket (p.pool pos) fd with svrType := t, svrId := id }
    (p.kernel.bind fd)

/-- The proxy and the slot when the action calls `SocketRelease`. -/
def releaseCall (p : Proxy) : Action → Option (Proxy × Nat)
  | .error pos => some (p, pos)
  | .accept a =>
    match p.freeList, a with
    | [], _ => none
    | pos :: rest, .failed => some ({ p with freeList := rest }, (p.pool pos).socketPos)
    | pos :: rest, .rejected fd =>
      some (takeSlot p pos rest (acceptedSocket (p.pool pos) fd) (p.kernel.bind fd),
        (p.pool pos).socketPos)
    | pos :: rest, .ok fd t id => registerRelease (taken p pos rest fd t id) pos
  | .recv pos (.data (b :: bs)) =>
    if (p.pool pos).ep.recvBuf.length = recvBufLen then none
    else
      (forwardRelease (setEp p pos { (p.pool pos).ep with recvBuf := stored p pos (b :: bs) })
        (stored p pos (b :: bs))).map fun q => (q, (q.pool pos).socketPos)
  | .recv _ _ => none

def current (p : Proxy) (holder : Nat → Nat) (pos : Nat) : Option Nat :=
  if (p.pool pos).type = clinetSocket then some (holder pos) else none

/-- The `close` of a call of `SocketRelease`; a position out of range is ignored. -/
def closing (holder : Nat → Nat) : Option (Proxy × Nat) → List Closing
  | none => []
  | some (q, pos) =>
    if pos < q.conf.maxSvrNum then
      [⟨q.kernel.conns (q.pool pos).ep.fd, current q holder pos⟩]
    else []

/-- `AcceptConnect` marks the slot as one of a client as soon as `accept` has returned. -/
def holderOf (w : World) : Action → Nat → Nat
  | .accept (.rejected _) | .accept (.ok ..) =>
    match w.proxy.freeList with
    | [] => w.holder
    | pos :: _ => Function.update w.holder pos w.proxy.kernel.opened
  | _ => w.holder

def act (p : Proxy) : Action → Except Fault Proxy
  | .error pos => .ok (socketRelease p pos)
  | .accept a => acceptConnect p a
  | .recv pos r => recvOnce p pos r

/-- `accept` returns a descriptor that is not open, and `RecvServerData` is called on slots in range
that do not listen. -/
def Possible (p : Proxy) : Action → Prop
  | .accept (.rejected fd) | .accept (.ok fd _ _) => p.freeList = [] ∨ p.kernel.conns fd = none
  | .recv pos _ => pos < p.conf.maxSvrNum ∧ (p.pool pos).type ≠ listenSocket
  | _ => True

instance (p : Proxy) : (a : Action) → Decidable (Possible p a)
  | .accept (.rejected _) | .accept (.ok ..) => inferInstanceAs (Decidable (_ ∨ _))
  | .recv .. => inferInstanceAs (Decidable (_ ∧ _))
  | .accept .failed | .error _ => inferInstanceAs (Decidable True)

def next (w : World) (a : Action) : Option World :=
  if Possible w.proxy a then
    match act w.proxy a with
    | .error _ => none
    | .ok q =>
      some ⟨q, holderOf w a,
        w.closings ++ closing (holderOf w a) (releaseCall w.proxy a)⟩
  else none

def initial (conf : CenterConfig) (answer : Nat → SendAnswer) (others : List Nat) : World where
  proxy := { initNetwork conf answer with
    kernel := { Kernel.start answer with conns := booted others, opened := 1 } }
  holder := fun _ => 0
  closings := []

/-- `accept` succeeds, on another descriptor than 0, and slots are released, closed and sent to
while they are in use only. -/
def Guard (w : World) : Action → Prop
  | .error pos => pos < w.proxy.conf.maxSvrNum → Taken w.proxy pos
  | .accept .failed => w.proxy.freeList = []
  | .accept (.rejected fd) => fd ≠ 0
  | .accept (.ok fd t id) => fd ≠ 0 ∧ ∀ before ∈ slotOf w.proxy (t, id), Taken w.proxy before
  | .recv pos (.data (b :: bs)) =>
    (w.proxy.pool pos).ep.recvBuf.length = recvBufLen ∨
      ((malformed (stored w.proxy pos (b :: bs)) = true → Taken w.proxy pos) ∧
        ∀ f ∈ transferred (stored w.proxy pos (b :: bs)),
          ∀ i ∈ slotOf w.proxy (destination w.proxy.conf f.val), Taken w.proxy i)
  | .recv pos (.data []) | .recv pos .fatal =>
    (w.proxy.pool pos).ep.recvBuf.length = recvBufLen ∨ Taken w.proxy pos
  | .recv _ .again => True

def slots (p : Proxy) (holder : Nat → Nat) : Slots Nat :=
  ⟨fun pos => (p.pool pos).ep.fd, Taken p, holder⟩

structure Sane (holder : Nat → Nat) (p : Proxy) : Prop where
  named : ∀ pos, (p.pool pos).socketPos = pos
  fields : Fields p.kernel.conns p.kernel.opened p.conf.maxSvrNum p.freeList (slots p holder)

def Good (w : World) : Prop :=
  Orderly w.proxy.kernel.conns w.proxy.conf.maxSvrNum w.proxy.freeList
    (fun pos => (w.proxy.pool pos).ep.fd) w.closings

/-! ### Sending -/

/-- The descriptor of an endpoint is kept or closed. -/
structure Settled (k : Kernel) (e : Endpoint) (s : Sent) : Prop where
  opened : s.kernel.opened = k.opened
  fd : (s.kernel.conns = k.conns ∧ s.ep.fd = e.fd) ∨
    (s.kernel.conns = Function.update k.conns e.fd none ∧ s.ep.fd = sockClosed)

/-- `send` neither opens nor closes. -/
theorem send_table (k : Kernel) (fd : Int) (bs : List UInt8) :
    (k.send fd bs).kernel.conns = k.conns ∧ (k.send fd bs).kernel.opened = k.opened := by
  unfold Kernel.send
  split
  · exact ⟨rfl, rfl⟩
  · exact ⟨rfl, rfl⟩

theorem shut_settled {k k' : Kernel} (e : Endpoint) (hconns : k'.conns = k.conns)
    (hopened : k'.opened = k.opened) : Settled k e (shut k' e) := by
  refine ⟨hopened, .inr ⟨?_, rfl⟩⟩
  simp only [shut, Kernel.close, hconns]

theorem Settled.reserved {k : Kernel} {e : Endpoint} {s : Sent} (h : Settled k e s) (f : Packet) :
    Settled k e (s.reserved f) :=
  ⟨h.opened, h.fd⟩

theorem sendBufData_settled (k : Kernel) (e : Endpoint) :
    Settled k e (SendBuffer.sendBufData k e) := by
  obtain ⟨hconns, hopened⟩ := send_table k e.fd e.sendBuf.val
  simp only [SendBuffer.sendBufData]
  split
  · exact ⟨hopened, .inl ⟨hconns, rfl⟩⟩
  · exact ⟨hopened, .inl ⟨hconns, rfl⟩⟩
  · exact shut_settled e hconns hopened

/-- A flush that succeeds leaves the descriptor as it was. -/
theorem sendBufData_ok {k : Kernel} {e : Endpoint} (h : (SendBuffer.sendBufData k e).ok = true) :
    (SendBuffer.sendBufData k e).kernel.conns = k.conns ∧
      (SendBuffer.sendBufData k e).kernel.opened = k.opened ∧
      (SendBuffer.sendBufData k e).ep.fd = e.fd := by
  obtain ⟨hconns, hopened⟩ := send_table k e.fd e.sendBuf.val
  simp only [SendBuffer.sendBufData] at h ⊢
  split
  · exact ⟨hconns, hopened, rfl⟩
  · exact ⟨hconns, hopened, rfl⟩
  · next hret =>
    simp only [hret, shut] at h
    cases h

theorem sendNow_settled (k : Kernel) (e : Endpoint) (f : Packet) : Settled k e (sendNow k e f) := by
  obtain ⟨hconns, hopened⟩ := send_table k e.fd f.val
  simp only [sendNow]
  split
  · exact ⟨hopened, .inl ⟨hconns, rfl⟩⟩
  · exact ⟨hopened, .inl ⟨hconns, rfl⟩⟩
  · exact (shut_settled e hconns hopened).reserved f

/-- Sending a frame keeps the descriptor or closes it. -/
theorem sendOneData_settled (k : Kernel) (e : Endpoint) (f : Packet) :
    Settled k e (SendBuffer.sendOneData k e f) := by
  simp only [SendBuffer.sendOneData]
  split
  · exact ⟨rfl, .inl ⟨rfl, rfl⟩⟩
  · split
    · exact sendNow_settled k e f
    · split
      · next hok =>
        obtain ⟨hconns, hopened, hfd⟩ := sendBufData_ok hok
        have h := sendNow_settled (SendBuffer.sendBufData k e).kernel
          (SendBuffer.sendBufData k e).ep f
        refine ⟨h.opened.trans hopened, ?_⟩
        rw [← hconns, ← hfd]
        exact h.fd
      · exact (sendBufData_settled k e).reserved f

section Steps

variable {holder : Nat → Nat} {p q : Proxy}

/-- Endpoints may change as long as their descriptors stay. -/
theorem Sane.congr (h : Sane holder p) (hconns : q.kernel.conns = p.kernel.conns)
    (hopened : q.kernel.opened = p.kernel.opened) (hconf : q.conf = p.conf)
    (hfree : q.freeList = p.freeList)
    (hslot : ∀ i, (q.pool i).ep.fd = (p.pool i).ep.fd ∧ (q.pool i).type = (p.pool i).type ∧
      (q.pool i).socketPos = (p.pool i).socketPos) : Sane holder q := by
  refine ⟨fun i => ((hslot i).2.2).trans (h.named i), ?_⟩
  rw [hconns, hopened, hconf, hfree]
  refine h.fields.congr (fun i => ?_) (fun i => (hslot i).1) fun _ => rfl
  show (q.pool i).type = clinetSocket ↔ (p.pool i).type = clinetSocket
  rw [(hslot i).2.1]

theorem setEp_slot (p : Proxy) (pos : Nat) (e : Endpoint) (i : Nat) :
    ((setEp p pos e).pool i).type = (p.pool i).type ∧
      ((setEp p pos e).pool i).socketPos = (p.pool i).socketPos ∧
      ((setEp p pos e).pool i).ep = if i = pos then e else (p.pool i).ep := by
  by_cases hi : i = pos
  · subst hi
    simp [setEp, setSocket]
  · simp [setEp, setSocket, hi]

/-- One endpoint of a slot in use has been sent to. -/
theorem Sane.settled (h : Sane holder p) {pos : Nat} (ht : Taken p pos) {s : Sent}
    (hs : Settled p.kernel (p.pool pos).ep s) (hpool : q.pool = (setEp p pos s.ep).pool)
    (hkernel : q.kernel = s.kernel) (hconf : q.conf = p.conf) (hfree : q.freeList = p.freeList) :
    Sane holder q := by
  have hslot : ∀ i, (q.pool i).type = (p.pool i).type ∧
      (q.pool i).socketPos = (p.pool i).socketPos ∧
      (q.pool i).ep = if i = pos then s.ep else (p.pool i).ep := by
    intro i
    rw [hpool]
    exact setEp_slot p pos s.ep i
  have hother : ∀ i, i ≠ pos → (q.pool i).ep.fd = (p.pool i).ep.fd := by
    intro i hi
    rw [(hslot i).2.2, if_neg hi]
  have hself : (q.pool pos).ep.fd = s.ep.fd := by
    rw [(hslot pos).2.2, if_pos rfl]
  obtain ⟨hconns, hfd⟩ | ⟨hconns, hfd⟩ := hs.fd
  · refine h.congr (hkernel ▸ hconns) (hkernel ▸ hs.opened) hconf hfree fun i => ?_
    refine ⟨?_, (hslot i).1, (hslot i).2.1⟩
    by_cases hi : i = pos
    · rw [hi, hself, hfd]
    · exact hother i hi
  · refine ⟨fun i => ((hslot i).2.1).trans (h.named i), ?_⟩
    rw [hkernel, hconns, hs.opened, hconf, hfree]
    refine h.fields.shut ht (fun i => ?_) ?_ hother fun _ => rfl
    · show (q.pool i).type = clinetSocket ↔ (p.pool i).type = clinetSocket
      rw [(hslot i).1]
    · show (q.pool pos).ep.fd < 0
      rw [hself, hfd]
      decide

theorem Sane.inRange (h : Sane holder p) {pos : Nat} (ht : Taken p pos) :
    pos < p.conf.maxSvrNum :=
  h.fields.inRange pos ht

/-- A send closes the descriptor of its own slot at most. -/
theorem Sane.send (h : Sane holder p) {pos : Nat} (ht : Taken p pos) (f : Packet) :
    Sane holder (sendOneData p pos f) :=
  h.settled ht (sendOneData_settled _ _ f) rfl rfl rfl rfl

theorem Sane.flush (h : Sane holder p) {pos : Nat} (ht : Taken p pos) :
    Sane holder (sendBufData p pos) :=
  h.settled ht (sendBufData_settled _ _) rfl rfl rfl rfl

theorem Sane.disconn (h : Sane holder p) {pos : Nat} (ht : Taken p pos) :
    Sane holder (socketDisconn p pos) := by
  have heq : socketDisconn p pos =
      { setEp p pos { (p.pool pos).ep with fd := sockClosed } with
        kernel := p.kernel.close (p.pool pos).ep.fd } :=
    if_neg (Nat.not_le.mpr (h.inRange ht))
  rw [heq]
  exact h.settled ht (s := ⟨p.kernel.close (p.pool pos).ep.fd,
    { (p.pool pos).ep with fd := sockClosed }, false, []⟩) ⟨rfl, .inr ⟨rfl, rfl⟩⟩ rfl rfl rfl rfl

/-- A slot in use is released, and what it closes is its own connection. -/
theorem Sane.release (h : Sane holder p) {pos : Nat} (ht : Taken p pos) :
    Sane holder (socketRelease p pos) ∧ ∀ c ∈ closing holder (some (p, pos)), c.Right := by
  have hlt := h.inRange ht
  have hslot := socketRelease_pool hlt
  refine ⟨⟨fun i => ?_, ?_⟩, fun c hc => ?_⟩
  · rw [hslot i]
    split
    · next hi => exact hi.symm
    · exact h.named i
  · rw [socketRelease_conf, socketRelease_freeList hlt]
    have hkernel : (socketRelease p pos).kernel = p.kernel.close (p.pool pos).ep.fd := by
      rw [socketRelease_of_lt hlt]
    rw [hkernel]
    refine h.fields.release ht (fun i => ?_) ?_ (fun i hi => ?_) fun _ => rfl
    · show ((socketRelease p pos).pool i).type = clinetSocket ↔
        (p.pool i).type = clinetSocket ∧ i ≠ pos
      rw [hslot i]
      by_cases hi : i = pos
      · simp [hi, SvrSocket.cleared, clinetSocket]
      · simp [hi]
    · show ((socketRelease p pos).pool pos).ep.fd = 0
      rw [hslot pos, if_pos rfl]
      rfl
    · show ((socketRelease p pos).pool i).ep.fd = (p.pool i).ep.fd
      rw [hslot i, if_neg hi]
  · simp only [closing, if_pos hlt, List.mem_singleton] at hc
    rw [hc, current, if_pos (show (p.pool pos).type = clinetSocket from ht)]
    exact h.fields.right ht

/-- The first free slot takes a connection. -/
theorem Sane.accept (h : Sane holder p) {pos : Nat} {rest : List Nat}
    (hfree : p.freeList = pos :: rest) {fd : Nat} (hfd : fd ≠ 0)
    (hclosed : p.kernel.conns fd = none) {s : SvrSocket} (hs : s.ep.fd = fd)
    (htype : s.type = clinetSocket) (hpos : s.socketPos = pos) :
    Sane (Function.update holder pos p.kernel.opened)
      (takeSlot p pos rest s (p.kernel.bind fd)) := by
  have hslot := takeSlot_pool p pos rest s (p.kernel.bind fd)
  refine ⟨fun i => ?_, ?_⟩
  · rw [hslot i]
    split
    · next hi => rw [hpos, hi]
    · exact h.named i
  · have hfields := h.fields
    rw [hfree] at hfields
    refine hfields.accept (Int.natCast_pos.mpr (Nat.pos_of_ne_zero hfd)) hclosed (fun i => ?_)
      ⟨?_, Function.update_self ..⟩ fun i hi => ⟨?_, Function.update_of_ne hi ..⟩
    · show ((takeSlot p pos rest s (p.kernel.bind fd)).pool i).type = clinetSocket ↔
        i = pos ∨ (p.pool i).type = clinetSocket
      rw [hslot i]
      by_cases hi : i = pos
      · simp [hi, htype]
      · simp [hi]
    · show ((takeSlot p pos rest s (p.kernel.bind fd)).pool pos).ep.fd = fd
      rw [hslot pos, if_pos rfl, hs]
    · show ((takeSlot p pos rest s (p.kernel.bind fd)).pool i).ep.fd = (p.pool i).ep.fd
      rw [hslot i, if_neg hi]

/-! ### Receiving -/

theorem Sane.setEp (h : Sane holder p) (pos : Nat) {e : Endpoint} (hfd : e.fd = (p.pool pos).ep.fd) :
    Sane holder (setEp p pos e) := by
  refine h.congr rfl rfl rfl rfl fun i => ?_
  obtain ⟨htype, hpos, hep⟩ := setEp_slot p pos e i
  refine ⟨?_, htype, hpos⟩
  rw [hep]
  split
  · next hi => rw [hfd, hi]
  · rfl

theorem taken_same (hs : Same p q) {pos : Nat} (h : Taken p pos) : Taken q pos :=
  (hs.type pos).trans h

/-- A transfer to slots in use keeps the descriptors in order. -/
theorem transfer_sane {p₀ : Proxy} {f : Packet} (hs : Same p₀ p) (h : Sane holder p)
    (hg : ∀ i ∈ slotOf p₀ (destination p₀.conf f.val), Taken p₀ i) (hq : doTransfer p f = .ok q) :
    Same p₀ q ∧ Sane holder q := by
  refine doTransfer_induct (motive := fun r => Same p₀ r ∧ Sane holder r)
    (fun r pos hr hat => ?_) ⟨hs, h⟩ hq
  obtain ⟨hs', h'⟩ := hr
  rw [hs.conf] at hat
  have hat₀ := (at_congr hs'.svrs).mp hat
  exact ⟨hs'.trans (sendOneData_same ⟨_, _, hat⟩ f),
    h'.send (taken_same hs' (hg pos (slotOf_eq_some.mpr hat₀))) f⟩

/-- The loop transfers frames, and on a bad length it releases the slot it reads. -/
theorem forward_effect {motive : Proxy → Prop} {pos : Nat} {bs : List UInt8} {o : Forwarded}
    (hsend : ∀ f ∈ transferred bs, ∀ p q, motive p → doTransfer p f = .ok q → motive q)
    (hp : motive p) (h : forward p pos bs = .ok o) :
    (forwardRelease p bs = none ∧ motive o.proxy) ∨
    (malformed bs = true ∧ ∃ q, forwardRelease p bs = some q ∧ motive q ∧
      o.proxy = socketRelease q (q.pool pos).socketPos) := by
  induction p, bs using forward.induct with
  | case1 p bs hlen =>
    rw [forward, if_pos hlen] at h
    cases h
    exact .inl ⟨by rw [forwardRelease, if_pos hlen], hp⟩
  | case2 p bs hlen hbad =>
    rw [forward, if_neg hlen, dif_pos hbad] at h
    cases h
    refine .inr ⟨by rw [malformed, if_neg hlen, if_pos hbad], p, ?_, hp, rfl⟩
    rw [forwardRelease, if_neg hlen, dif_pos hbad]
  | case3 p bs hlen hbad hmore =>
    rw [forward, if_neg hlen, dif_neg hbad, if_pos hmore] at h
    cases h
    exact .inl ⟨by rw [forwardRelease, if_neg hlen, dif_neg hbad, if_pos hmore], hp⟩
  | case4 p bs hlen hbad hmore hzero =>
    rw [forward, if_neg hlen, dif_neg hbad, if_neg hmore, if_pos hzero] at h
    cases h
  | case5 p bs hlen hbad hmore hzero e he =>
    rw [forward, if_neg hlen, dif_neg hbad, if_neg hmore, if_neg hzero, he] at h
    cases h
  | case6 p bs hlen hbad hmore hzero p' he ih =>
    rw [forward, if_neg hlen, dif_neg hbad, if_neg hmore, if_neg hzero, he] at h
    rw [malformed, if_neg hlen, if_neg hbad, if_neg hmore, if_neg hzero, forwardRelease, if_neg hlen,
      dif_neg hbad, if_neg hmore, if_neg hzero, he]
    rw [transferred, dif_neg (by omega)] at hsend
    exact ih (fun f hf => hsend f (List.mem_cons_of_mem _ hf))
      (hsend _ (List.mem_cons_self ..) p p' hp he) h

/-- `RecvServerData` closes the connection of its slot. -/
theorem Sane.recv (h : Sane holder p) {pos : Nat} {r : RecvAnswer} (closings : List Closing)
    (hg : Guard ⟨p, holder, closings⟩ (.recv pos r)) (hq : recvOnce p pos r = .ok q) :
    Sane holder q ∧ ∀ c ∈ closing holder (releaseCall p (.recv pos r)), c.Right := by
  have hnone : ∀ c ∈ closing holder none, c.Right := fun c hc => by cases hc
  simp only [SlotReuse.recvOnce] at hq
  split at hq
  · next hfull =>
    cases hq
    refine ⟨h, ?_⟩
    cases r with
    | data bs =>
      cases bs with
      | nil => exact hnone
      | cons b bs =>
        simp only [releaseCall, if_pos hfull]
        exact hnone
    | again => exact hnone
    | fatal => exact hnone
  · next hfull =>
    split at hq
    · cases hq
      rw [h.named]
      exact ⟨h.disconn (hg.resolve_left hfull), hnone⟩
    · cases hq
      rw [h.named]
      exact ⟨h.disconn (hg.resolve_left hfull), hnone⟩
    · cases hq
      exact ⟨h, hnone⟩
    · next b bs =>
      obtain ⟨hbad, hfresh⟩ := hg.resolve_left hfull
      simp only [consume] at hq
      split at hq
      · cases hq
      · next o ho =>
        cases hq
        generalize hbuf : stored p pos (b :: bs) = buf at hbad hfresh ho
        have hsame := setRecvBuf_same p pos buf
        have hstored : Sane holder (ProxySvr.setEp p pos { (p.pool pos).ep with recvBuf := buf }) :=
          h.setEp pos rfl
        obtain ⟨hcall, -, hsane⟩ | ⟨hm, q', hcall, ⟨hs, hsane⟩, heq⟩ := forward_effect
          (motive := fun r => Same p r ∧ Sane holder r)
          (fun f hf p₁ q₁ hp₁ hq₁ => transfer_sane hp₁.1 hp₁.2 (hfresh f hf) hq₁)
          ⟨hsame, hstored⟩ ho
        · refine ⟨hsane.setEp pos rfl, ?_⟩
          simp only [releaseCall, if_neg hfull, hbuf, hcall, Option.map_none]
          exact hnone
        · obtain ⟨hreleased, hright⟩ := hsane.release (taken_same hs (hbad hm))
          rw [hsane.named] at heq
          rw [heq]
          refine ⟨hreleased.setEp pos rfl, ?_⟩
          simp only [releaseCall, if_neg hfull, hbuf, hcall, Option.map_some, hsane.named]
          exact hright

/-! ### Accepting -/

theorem Sane.table (h : Sane holder p) (svrs : Nat → Option (List (Option Nat))) :
    Sane holder { p with svrs := svrs } :=
  h.congr rfl rfl rfl rfl fun _ => ⟨rfl, rfl, rfl⟩

theorem Sane.setEntry (h : Sane holder p) (t id pos : Nat) : Sane holder (setEntry p t id pos) :=
  h.congr rfl rfl rfl rfl fun _ => ⟨rfl, rfl, rfl⟩

/-- `Register` on a slot in use, with the entry empty or at a slot in use. -/
theorem Sane.register (h : Sane holder p) {pos : Nat} (ht : Taken p pos)
    (hentry : ∀ before, At p (p.pool pos).svrType (p.pool pos).svrId before →
      Taken p before ∧ before ≠ pos)
    (hq : register p pos = .ok q) :
    Sane holder q ∧ ∀ c ∈ closing holder (registerRelease p pos), c.Right := by
  have hnone : ∀ c ∈ closing holder none, c.Right := fun c hc => by cases hc
  simp only [ProxySvr.register] at hq
  simp only [registerRelease]
  cases he : ensureType p (p.pool pos).svrType with
  | none =>
    rw [he] at hq
    cases hq
    exact ⟨h, hnone⟩
  | some p' =>
    obtain ⟨⟨svrs, rfl⟩, hat⟩ := ensureType_ok he
    simp only [he] at hq ⊢
    split at hq
    · cases hq
    · next hn =>
      rw [(enter_ok hq).2]
      simp only [hn]
      exact ⟨(h.table svrs).setEntry _ _ _, hnone⟩
    · next before hb =>
      rw [(enter_ok hq).2]
      simp only [hb]
      obtain ⟨htaken, hne⟩ := hentry before ((hat _ _ _).mp (entry_eq_some.mp hb))
      have hcopied : Sane holder (ProxySvr.setEp { p with svrs := svrs } pos
          (inherited { p with svrs := svrs } before pos)) := (h.table svrs).setEp pos rfl
      have hslot := setEp_slot { p with svrs := svrs } pos
        (inherited { p with svrs := svrs } before pos)
      have htaken' := ((hslot before).1).trans htaken
      obtain ⟨hreleased, hright⟩ := hcopied.release htaken'
      have hpos : Taken (socketRelease (ProxySvr.setEp { p with svrs := svrs } pos
          (inherited { p with svrs := svrs } before pos)) before) pos := by
        rw [Taken, socketRelease_pool (hcopied.inRange htaken'), if_neg (Ne.symm hne)]
        exact ((hslot pos).1).trans ht
      simp only [takeOver, hcopied.named before, h.named before]
      exact ⟨(hreleased.flush hpos).setEntry _ _ _, hright⟩

theorem holderOf_eq (w : World) {pos : Nat} {rest : List Nat}
    (hfree : w.proxy.freeList = pos :: rest) (fd t id : Nat) :
    holderOf w (.accept (.rejected fd)) =
      Function.update w.holder pos w.proxy.kernel.opened ∧
    holderOf w (.accept (.ok fd t id)) =
      Function.update w.holder pos w.proxy.kernel.opened := by
  simp only [holderOf, hfree, and_self]

/-- A connection that is refused is closed in the slot that it was given. -/
theorem accept_sane {w : World} {a : AcceptAnswer} (h : Sane w.holder w.proxy)
    (hg : Guard w (.accept a)) (hp : Possible w.proxy (.accept a))
    (hq : acceptConnect w.proxy a = .ok q) :
    Sane (holderOf w (.accept a)) q ∧
      ∀ c ∈ closing (holderOf w (.accept a)) (releaseCall w.proxy (.accept a)), c.Right := by
  cases hf : w.proxy.freeList with
  | nil =>
    simp only [acceptConnect, hf] at hq
    cases hq
    have hholder : holderOf w (.accept a) = w.holder := by
      cases a <;> simp only [holderOf, hf]
    simp only [releaseCall, hf, hholder]
    exact ⟨h, fun c hc => by cases hc⟩
  | cons pos rest =>
    have hidle : ¬ Taken w.proxy pos := (h.fields.free pos (by rw [hf]; exact List.mem_cons_self ..)).2
    cases a with
    | failed =>
      rw [show w.proxy.freeList = [] from hg] at hf
      cases hf
    | rejected fd =>
      have hclosed := Or.resolve_left hp (by rw [hf]; simp)
      simp only [acceptConnect, hf] at hq
      cases hq
      have htaken : Taken (takeSlot w.proxy pos rest (acceptedSocket (w.proxy.pool pos) fd)
          (w.proxy.kernel.bind fd)) pos := by
        rw [Taken, takeSlot_pool, if_pos rfl]
        rfl
      simp only [releaseCall, hf, (holderOf_eq w hf fd 0 0).1, h.named pos]
      exact (h.accept hf hg hclosed (s := acceptedSocket (w.proxy.pool pos) fd) rfl rfl
        (h.named pos)).release htaken
    | ok fd t id =>
      obtain ⟨hfd, hfresh⟩ := hg
      have hclosed := Or.resolve_left hp (by rw [hf]; simp)
      simp only [acceptConnect, hf] at hq
      have hsane := h.accept hf hfd hclosed
        (s := { acceptedSocket (w.proxy.pool pos) fd with svrType := t, svrId := id }) rfl rfl
        (h.named pos)
      have hself : (taken w.proxy pos rest fd t id).pool pos =
          { acceptedSocket (w.proxy.pool pos) fd with svrType := t, svrId := id } := by
        rw [taken, takeSlot_pool, if_pos rfl]
      have htaken : Taken (taken w.proxy pos rest fd t id) pos := by
        rw [Taken, hself]
        rfl
      simp only [releaseCall, hf, (holderOf_eq w hf fd t id).2]
      refine hsane.register htaken (fun before hat => ?_) hq
      have hat : At w.proxy ((taken w.proxy pos rest fd t id).pool pos).svrType
        ((taken w.proxy pos rest fd t id).pool pos).svrId before := hat
      rw [hself] at hat
      have hbefore := hfresh before (slotOf_eq_some.mpr hat)
      have hne : before ≠ pos := by
        rintro rfl
        exact hidle hbefore
      refine ⟨?_, hne⟩
      rw [Taken, takeSlot_pool, if_neg hne]
      exact hbefore

end Steps

structure Inv (w : World) : Prop where
  sane : Sane w.holder w.proxy
  right : ∀ c ∈ w.closings, c.Right

theorem Inv.good {w : World} (h : Inv w) : Good w := h.sane.fields.orderly h.right

/-- Every action of the proxy closes what belongs to the slot it releases. -/
theorem act_sane {w : World} {a : Action} {q : Proxy} (h : Sane w.holder w.proxy) (hg : Guard w a)
    (hp : Possible w.proxy a) (hq : act w.proxy a = .ok q) :
    Sane (holderOf w a) q ∧ ∀ c ∈ closing (holderOf w a) (releaseCall w.proxy a), c.Right := by
  cases a with
  | error pos =>
    cases hq
    by_cases hlt : pos < w.proxy.conf.maxSvrNum
    · exact h.release (hg hlt)
    · have hsame : socketRelease w.proxy pos = w.proxy := if_pos (Nat.not_lt.mp hlt)
      rw [hsame]
      refine ⟨h, fun c hc => ?_⟩
      simp only [releaseCall, closing, if_neg hlt] at hc
      cases hc
  | accept a => exact accept_sane h hg hp hq
  | recv pos r => exact h.recv w.closings hg hq

/-- Every guarded step keeps each open descriptor in one slot. -/
theorem step_inv {w w' : World} {a : Action} (h : Inv w) (hg : Guard w a)
    (hs : next w a = some w') : Inv w' := by
  simp only [next] at hs
  split at hs
  · next hp =>
    split at hs
    · cases hs
    · next q hq =>
      cases hs
      obtain ⟨hsane, hright⟩ := act_sane h.sane hg hp hq
      refine ⟨hsane, fun c hc => ?_⟩
      obtain hc | hc := List.mem_append.mp hc
      · exact h.right c hc
      · exact hright c hc
  · cases hs

theorem initial_inv (conf : CenterConfig) (answer : Nat → SendAnswer) (others : List Nat) :
    Inv (initial conf answer others) := by
  have hslot : ∀ pos, ((initial conf answer others).proxy.pool pos).socketPos = pos ∧
      ¬ Taken (initial conf answer others).proxy pos ∧
      ((initial conf answer others).proxy.pool pos).ep.fd = 0 := by
    intro pos
    by_cases hpos : pos = 0
    · subst hpos
      exact ⟨rfl, (by decide : listenSocket ≠ clinetSocket), rfl⟩
    · have hcleared : (initial conf answer others).proxy.pool pos = SvrSocket.cleared pos :=
        Function.update_of_ne hpos ..
      rw [Taken, hcleared]
      exact ⟨rfl, (by decide : (0 : Nat) ≠ clinetSocket), rfl⟩
  exact ⟨⟨fun pos => (hslot pos).1, booted_fields others fun pos => (hslot pos).2⟩,
    fun c hc => by cases hc⟩

/-- The guard keeps the descriptors in order through a run. -/
theorem run_good {conf : CenterConfig} {answer : Nat → SendAnswer} {others : List Nat}
    {as : List Action} {w : World}
    (h : Trace.Run (fun w a w' => next w a = some w') Guard (initial conf answer others) as w) :
    Good w :=
  (h.invariant Inv (initial_inv conf answer others) fun _ _ _ hi hg hs => step_inv hi hg hs).good

end Proxy

/-! ## Both servers -/

/-- Whatever is open before, in runs that keep to the guards both servers own the descriptors they
have. -/
theorem run_orderly (others : List Nat) :
    (∀ maxClientNum mem cs sc es w, Trace.Run (fun w e w' => Tcp.next w e = some w') Tcp.Guard
        (Tcp.initial maxClientNum mem cs sc others) es w → Tcp.Good w) ∧
      ∀ conf answer as w, Trace.Run (fun w a w' => Proxy.next w a = some w') Proxy.Guard
        (Proxy.initial conf answer others) as w → Proxy.Good w :=
  ⟨fun _ _ _ _ _ _ h => Tcp.run_good h, fun _ _ _ _ h => Proxy.run_good h⟩

instance (w : Tcp.World) : (e : TcpSlots.Event) → Decidable (Tcp.Guard w e)
  | .accept (.ok fd ..) => inferInstanceAs (Decidable (fd ≠ 0))
  | .accept .failed | .accept (.setupFailed _) =>
    inferInstanceAs (Decidable (w.tcp.freeList = []))
  | .error _ => inferInstanceAs (Decidable (_ → _))
  | .recv .. => inferInstanceAs (Decidable (_ → _))
  | .send .. => inferInstanceAs (Decidable (_ → _))
  | .fetch => inferInstanceAs (Decidable True)

instance (p : ProxySvr.Proxy) (pos : Nat) : Decidable (SlotReuse.Taken p pos) :=
  inferInstanceAs (Decidable (_ = _))

instance (w : Proxy.World) : (a : SlotReuse.Action) → Decidable (Proxy.Guard w a)
  | .error _ => inferInstanceAs (Decidable (_ → _))
  | .accept .failed => inferInstanceAs (Decidable (w.proxy.freeList = []))
  | .accept (.rejected fd) => inferInstanceAs (Decidable (fd ≠ 0))
  | .accept (.ok ..) => inferInstanceAs (Decidable (_ ∧ _))
  | .recv _ (.data (_ :: _)) => inferInstanceAs (Decidable (_ ∨ _ ∧ _))
  | .recv _ (.data []) | .recv _ .fatal => inferInstanceAs (Decidable (_ ∨ _))
  | .recv _ .again => inferInstanceAs (Decidable True)

def sampleTcp : Tcp.World := Tcp.initial 3 (fun _ => 0) ⟨10000, []⟩ ⟨10000, []⟩ [0]

def sampleProxy : Proxy.World := Proxy.initial (SlotReuse.sampleConf 3) (fun _ => .all) [0]

/-- A connection ends in each server and the next one gets its number. -/
theorem run_orderly_reused :
    (∃ es w, Trace.Run (fun w e w' => Tcp.next w e = some w') Tcp.Guard sampleTcp es w ∧
      (w.conns 5 = some 2 ∧ w.closings = [⟨some 1, some 1⟩]) ∧ Tcp.Good w) ∧
    ∃ as w, Trace.Run (fun w a w' => Proxy.next w a = some w') Proxy.Guard sampleProxy as w ∧
      (w.proxy.kernel.conns 5 = some 2 ∧ w.closings = [⟨some 1, some 1⟩]) ∧ Proxy.Good w := by
  constructor
  · obtain ⟨w, hrun, hend⟩ := Trace.exists_run_of_exec Tcp.next Tcp.Guard sampleTcp
      [.accept (.ok 5 1000 80 default), .recv 1 .eof, .accept (.ok 5 2000 80 default)]
      (fun w => w.conns 5 = some 2 ∧ w.closings = [⟨some 1, some 1⟩]) (by decide +kernel)
    exact ⟨_, w, hrun, hend, (run_orderly [0]).1 _ _ _ _ _ _ hrun⟩
  · obtain ⟨w, hrun, hend⟩ := Trace.exists_run_of_exec Proxy.next Proxy.Guard sampleProxy
      [.accept (.rejected 5), .accept (.ok 5 7 0)]
      (fun w => w.proxy.kernel.conns 5 = some 2 ∧ w.closings = [⟨some 1, some 1⟩])
      (by decide +kernel)
    exact ⟨_, w, hrun, hend, (run_orderly [0]).2 _ _ _ _ hrun⟩

/-- In the gateway a descriptor whose setup fails belongs to no slot. In both servers a failed
`accept` closes descriptor 0, the next client gets that number, and the next failed `accept` closes
the client. -/
theorem failed_accept_closes_client :
    (∃ es w, Trace.Run (fun w e w' => Tcp.next w e = some w') (fun _ _ => True) sampleTcp es w ∧
      (w.conns 5 = some 1 ∧ ∀ pos ∈ List.range 3, (w.tcp.pool pos).fd ≠ 5) ∧ ¬ Tcp.Good w) ∧
    (∃ es w, Trace.Run (fun w e w' => Tcp.next w e = some w') (fun _ _ => True) sampleTcp es w ∧
      w.closings = [⟨some 0, none⟩, ⟨some 1, none⟩] ∧ ¬ Tcp.Good w) ∧
    ∃ as w, Trace.Run (fun w a w' => Proxy.next w a = some w') (fun _ _ => True) sampleProxy as w ∧
      w.closings = [⟨some 0, none⟩, ⟨some 1, none⟩] ∧ ¬ Proxy.Good w := by
  have hwrong : ∀ closings : List Closing, closings = [⟨some 0, none⟩, ⟨some 1, none⟩] →
      ¬ ∀ c ∈ closings, c.Right := by
    rintro _ rfl hright
    exact (hright _ (List.mem_cons_self ..) 0 rfl).1 rfl
  refine ⟨?_, ?_, ?_⟩
  · obtain ⟨w, hrun, hmax, hopen, hnone⟩ := Trace.exists_run_of_exec Tcp.next (fun _ _ => True)
      sampleTcp [.accept (.setupFailed 5)]
      (fun w => w.tcp.maxClientNum = 3 ∧ w.conns 5 = some 1 ∧
        ∀ pos ∈ List.range 3, (w.tcp.pool pos).fd ≠ 5) (by decide +kernel)
    refine ⟨_, w, hrun, ⟨hopen, hnone⟩, fun hgood => ?_⟩
    obtain ⟨pos, ⟨hlt, -, hfd⟩, -⟩ := hgood.owner 5 1 hopen (by decide)
    exact hnone pos (List.mem_range.mpr (hmax ▸ hlt)) hfd
  · obtain ⟨w, hrun, hclosings⟩ := Trace.exists_run_of_exec Tcp.next (fun _ _ => True) sampleTcp
      [.accept .failed, .accept (.ok 0 1000 80 default), .accept .failed]
      (fun w => w.closings = [⟨some 0, none⟩, ⟨some 1, none⟩]) (by decide +kernel)
    exact ⟨_, w, hrun, hclosings, fun hgood => hwrong _ hclosings hgood.right⟩
  · obtain ⟨w, hrun, hclosings⟩ := Trace.exists_run_of_exec Proxy.next (fun _ _ => True) sampleProxy
      [.accept .failed, .accept (.ok 0 7 0), .accept .failed]
      (fun w => w.closings = [⟨some 0, none⟩, ⟨some 1, none⟩]) (by decide +kernel)
    exact ⟨_, w, hrun, hclosings, fun hgood => hwrong _ hclosings hgood.right⟩

end FdOwners
