import Mathlib.Data.List.Perm.Basic
import Dsf4g.ProxySlots

/-!
# Whom a frame is for

`SvrManager::DoTransfer` against the sockets its head addresses.
-/
namespace ProxySvr

open Base Sockets SendBuffer

/-- The vectors of `_svrs` have the length the configuration gives them. -/
def Sized (p : Proxy) : Prop :=
  ∀ t v, p.svrs t = some v → ∃ s, p.conf.getSvr t = some s ∧ v.length = s.svrNum

def headOf (f : Packet) : CenterHead := readCenterHead f.val 4

/-- The socket at an index, if one is registered there. -/
def socketAt (v : List (Option Nat)) (i : Nat) : List Nat := (v[i]?.join).toList

def svrNum (p : Proxy) (t : Nat) : Nat := ((p.conf.getSvr t).map LogicSvr.svrNum).getD 0

/-- The sockets a frame is for: one registered entry, the one its key hashes to, or all entries of
a type. -/
def addressed (p : Proxy) (f : Packet) : List Nat :=
  if f.val.length ≤ centerHeadLen then []
  else
    match p.svrs (headOf f).desType with
    | none => []
    | some v =>
      match (headOf f).routeType with
      | .p2p => socketAt v (headOf f).desId
      | .hash => socketAt v ((headOf f).hashKey % svrNum p (headOf f).desType)
      | .broadcast => v.filterMap id
      | .other _ => []

structure Calls (p q : Proxy) (f : Packet) (slots : List Nat) : Prop where
  calls : ∃ new, q.calls = p.calls ++ new ∧ new.map Call.pos = slots ∧ ∀ c ∈ new, c.frame = f.val

/-- `DoTransfer` returns, and `SendOneData` is called once with the frame for every addressed
socket. -/
def Delivers (p : Proxy) (f : Packet) : Prop :=
  ∃ q slots, doTransfer p f = .ok q ∧ Calls p q f slots ∧ slots.Perm (addressed p f)

theorem Calls.none (p : Proxy) (f : Packet) : Calls p p f [] :=
  ⟨[], by simp, rfl, by simp⟩

theorem Calls.one (p : Proxy) (f : Packet) (pos : Nat) : Calls p (sendOneData p pos f) f [pos] :=
  ⟨[_], rfl, rfl, by simp⟩

/-- Calls one after the other are made in that order. -/
theorem Calls.append {p q r : Proxy} {f : Packet} {s s' : List Nat} (h : Calls p q f s)
    (h' : Calls q r f s') : Calls p r f (s ++ s') := by
  obtain ⟨new, hc, hm, hf⟩ := h.calls
  obtain ⟨new', hc', hm', hf'⟩ := h'.calls
  refine ⟨new ++ new', by rw [hc', hc, List.append_assoc], by rw [List.map_append, hm, hm'], ?_⟩
  intro c hc
  rcases List.mem_append.mp hc with h | h
  · exact hf c h
  · exact hf' c h

/-- The calls between two states are determined. -/
theorem Calls.unique {p q : Proxy} {f : Packet} {s s' : List Nat} (h : Calls p q f s)
    (h' : Calls p q f s') : s = s' := by
  obtain ⟨new, hc, rfl, -⟩ := h.calls
  obtain ⟨new', hc', rfl, -⟩ := h'.calls
  rw [List.append_cancel_left (hc.symm.trans hc')]

theorem entry_eq {p : Proxy} {t i : Nat} {v : List (Option Nat)} (hv : p.svrs t = some v)
    (hi : i < v.length) : entry p t i = .ok v[i] := by
  simp [entry, hv, hi]

/-- One call is made for a socket, none for an empty entry. -/
theorem sendIfPresent_calls {p : Proxy} {t i : Nat} {v : List (Option Nat)}
    (hv : p.svrs t = some v) (hi : i < v.length) (f : Packet) :
    ∃ q, sendIfPresent p t i f = .ok q ∧ Calls p q f (socketAt v i) := by
  have he := entry_eq hv hi
  cases hs : v[i] with
  | none =>
    rw [hs] at he
    refine ⟨p, by simp [sendIfPresent, he], ?_⟩
    simpa [socketAt, hi, hs] using Calls.none p f
  | some pos =>
    rw [hs] at he
    refine ⟨sendOneData p pos f, by simp [sendIfPresent, sendTo, he], ?_⟩
    simpa [socketAt, hi, hs] using Calls.one p f pos

/-- The loop calls `SendOneData` for the socket at `desId`, once for every registered entry it
passes. -/
theorem broadcast_present {p : Proxy} {t desId d : Nat} {v : List (Option Nat)}
    (hv : p.svrs t = some v) (hd : v[desId]? = some (some d)) (f : Packet) (i n : Nat)
    (hn : i + n = v.length) :
    ∃ q, broadcast p t desId f i n = .ok q ∧
      Calls p q f (List.replicate ((v.drop i).filterMap id).length d) := by
  induction n generalizing p i with
  | zero =>
    have hdrop : v.drop i = [] := List.drop_eq_nil_of_le (by omega)
    rw [hdrop]
    exact ⟨p, rfl, Calls.none p f⟩
  | succ n ih =>
    have hi : i < v.length := by omega
    have hdrop : v.drop i = v[i] :: v.drop (i + 1) := List.drop_eq_getElem_cons hi
    have he := entry_eq hv hi
    cases hs : v[i] with
    | none =>
      rw [hs] at he hdrop
      obtain ⟨q, hq, hcalls⟩ := ih hv (i + 1) (by omega)
      refine ⟨q, by rw [broadcast, he]; exact hq, ?_⟩
      simpa [hdrop] using hcalls
    | some pos =>
      rw [hs] at he hdrop
      have hsend : sendTo p t desId f = .ok (sendOneData p d f) := by
        simp [sendTo, entry_eq_some.mpr ⟨v, hv, hd⟩]
      obtain ⟨q, hq, hcalls⟩ := ih (p := sendOneData p d f) hv (i + 1) (by omega)
      refine ⟨q, by rw [broadcast, he]; simpa only [hsend] using hq, ?_⟩
      have := (Calls.one p f d).append hcalls
      simpa [hdrop, List.replicate_succ] using this

/-- With no socket at `desId`, the loop gets past no registered entry. -/
theorem broadcast_absent {p q : Proxy} {t desId : Nat} {v : List (Option Nat)}
    (hv : p.svrs t = some v) (hd : ∀ d, v[desId]? ≠ some (some d)) {f : Packet} {i n : Nat}
    (hn : i + n = v.length) (hq : broadcast p t desId f i n = .ok q) :
    q = p ∧ (v.drop i).filterMap id = [] := by
  induction n generalizing i with
  | zero =>
    cases hq
    rw [List.drop_eq_nil_of_le (by omega)]
    exact ⟨rfl, rfl⟩
  | succ n ih =>
    have hi : i < v.length := by omega
    have hdrop : v.drop i = v[i] :: v.drop (i + 1) := List.drop_eq_getElem_cons hi
    have he := entry_eq hv hi
    cases hs : v[i] with
    | none =>
      rw [hs] at he hdrop
      rw [broadcast, he] at hq
      obtain ⟨hp, hrest⟩ := ih (by omega) hq
      exact ⟨hp, by rw [hdrop]; exact hrest⟩
    | some pos =>
      rw [hs] at he
      rw [broadcast, he] at hq
      dsimp only at hq
      split at hq
      · cases hq
      · next hsend =>
        obtain ⟨d, ⟨v', hv', hd'⟩, -⟩ := sendTo_ok hsend
        rw [hv] at hv'
        cases hv'
        exact absurd hd' (hd d)

/-- Every socket registered under the type of a broadcast is the one at index `des_id`. -/
def OnlyAtDesId (p : Proxy) (f : Packet) : Prop :=
  centerHeadLen < f.val.length → (headOf f).routeType = .broadcast →
    ∀ v, p.svrs (headOf f).desType = some v →
      ∀ pos, some pos ∈ v → v[(headOf f).desId]? = some (some pos)

def InRange (p : Proxy) (f : Packet) : Prop :=
  (headOf f).routeType = .p2p → ∀ v, p.svrs (headOf f).desType = some v →
    (headOf f).desId < v.length

theorem mem_filterMap_id {v : List (Option Nat)} {pos : Nat} :
    pos ∈ v.filterMap id ↔ some pos ∈ v := by simp

/-- A broadcast over a table of the configured size. -/
theorem broadcast_delivers_iff {p : Proxy} {t desId : Nat} {v : List (Option Nat)}
    (hv : p.svrs t = some v) (f : Packet) :
    (∃ q slots, broadcast p t desId f 0 v.length = .ok q ∧ Calls p q f slots ∧
      slots.Perm (v.filterMap id)) ↔ ∀ pos, some pos ∈ v → v[desId]? = some (some pos) := by
  by_cases hd : ∃ d, v[desId]? = some (some d)
  · obtain ⟨d, hd⟩ := hd
    obtain ⟨q, hq, hcalls⟩ := broadcast_present hv hd f 0 v.length (Nat.zero_add _)
    rw [List.drop_zero] at hcalls
    constructor
    · rintro ⟨q', slots, hq', hcalls', hperm⟩ pos hpos
      rw [hq] at hq'
      cases hq'
      rw [hcalls'.unique hcalls] at hperm
      have hmem := hperm.mem_iff.mpr (mem_filterMap_id.mpr hpos)
      rw [hd, List.eq_of_mem_replicate hmem]
    · intro hall
      have heq : v.filterMap id = List.replicate (v.filterMap id).length d := by
        refine List.eq_replicate_iff.mpr ⟨rfl, fun pos hpos => ?_⟩
        have := hall pos (mem_filterMap_id.mp hpos)
        rw [hd] at this
        cases this
        rfl
      exact ⟨q, _, hq, hcalls, by rw [← heq]⟩
  · have hd : ∀ d, v[desId]? ≠ some (some d) := fun d h => hd ⟨d, h⟩
    constructor
    · rintro ⟨q, slots, hq, -, -⟩ pos hpos
      have hnil := (broadcast_absent hv hd (Nat.zero_add _) hq).2
      rw [List.drop_zero] at hnil
      have := mem_filterMap_id.mpr hpos
      rw [hnil] at this
      cases this
    · intro hall
      have hnone : ∀ i (hi : i < v.length), v[i] = none := by
        intro i hi
        cases hs : v[i] with
        | none => rfl
        | some pos => exact absurd (hall pos (hs ▸ List.getElem_mem hi)) (hd pos)
      have hloop : ∀ n i, i + n = v.length → broadcast p t desId f i n = .ok p := by
        intro n
        induction n with
        | zero => exact fun _ _ => rfl
        | succ n ih =>
          intro i hi
          rw [broadcast, entry_eq hv (by omega), hnone i (by omega)]
          exact ih (i + 1) (by omega)
      have hnil : v.filterMap id = [] := by
        refine List.eq_nil_iff_forall_not_mem.mpr fun pos hpos => ?_
        exact absurd (hall pos (mem_filterMap_id.mp hpos)) (hd pos)
      exact ⟨p, [], hloop v.length 0 (Nat.zero_add _), Calls.none p f, by rw [hnil]⟩

/-- A transfer that ends with exactly these calls delivers. -/
theorem delivers_of_calls {p q : Proxy} {f : Packet} {slots : List Nat}
    (hq : doTransfer p f = .ok q) (hc : Calls p q f slots) (ha : addressed p f = slots) :
    Delivers p f :=
  ⟨q, slots, hq, hc, by rw [ha]⟩

theorem delivers_of_idle {p : Proxy} {f : Packet} (hq : doTransfer p f = .ok p)
    (ha : addressed p f = []) : Delivers p f :=
  delivers_of_calls hq (Calls.none p f) ha

section Routes

variable {p : Proxy} {f : Packet} {v : List (Option Nat)}

/-- A point-to-point frame is delivered. -/
theorem delivers_p2p (hlong : ¬ f.val.length ≤ centerHeadLen)
    (hv : p.svrs (headOf f).desType = some v) (hr : (headOf f).routeType = .p2p)
    (hi : (headOf f).desId < v.length) : Delivers p f := by
  obtain ⟨q, hq, hcalls⟩ := sendIfPresent_calls hv hi f
  refine delivers_of_calls (q := q) ?_ hcalls ?_
  · simp only [headOf] at hv hr hq
    simp [doTransfer, hlong, hv, hr, hq]
  · simp [addressed, hlong, hv, hr]

/-- A hashed frame is delivered. -/
theorem delivers_hash (hlong : ¬ f.val.length ≤ centerHeadLen)
    (hv : p.svrs (headOf f).desType = some v) (hr : (headOf f).routeType = .hash) {s : LogicSvr}
    (hs : p.conf.getSvr (headOf f).desType = some s) (hn : v.length = s.svrNum)
    (hpos : 1 ≤ s.svrNum) : Delivers p f := by
  have hi : (headOf f).hashKey % s.svrNum < v.length := by
    rw [hn]
    exact Nat.mod_lt _ hpos
  have hne : s.svrNum ≠ 0 := Nat.one_le_iff_ne_zero.mp hpos
  obtain ⟨q, hq, hcalls⟩ := sendIfPresent_calls hv hi f
  refine delivers_of_calls (q := q) ?_ hcalls ?_
  · simp only [headOf] at hv hr hs hq
    simp [doTransfer, hlong, hv, hr, hs, hne, hq]
  · simp [addressed, svrNum, hlong, hv, hr, hs]

/-- A broadcast is delivered when no other entry is registered. -/
theorem delivers_broadcast_iff (hlong : ¬ f.val.length ≤ centerHeadLen)
    (hv : p.svrs (headOf f).desType = some v) (hr : (headOf f).routeType = .broadcast)
    {s : LogicSvr} (hs : p.conf.getSvr (headOf f).desType = some s) (hn : v.length = s.svrNum) :
    Delivers p f ↔ ∀ pos, some pos ∈ v → v[(headOf f).desId]? = some (some pos) := by
  have hq : doTransfer p f = broadcast p (headOf f).desType (headOf f).desId f 0 v.length := by
    simp only [headOf] at hv hr hs ⊢
    simp [doTransfer, hlong, hv, hr, hs, hn]
  have ha : addressed p f = v.filterMap id := by simp [addressed, hlong, hv, hr]
  unfold Delivers
  rw [hq, ha]
  exact broadcast_delivers_iff hv f

end Routes

/-- The configuration of a registered type. -/
theorem getSvr_mem {c : CenterConfig} {t : Nat} {s : LogicSvr} (h : c.getSvr t = some s) :
    s ∈ c.svrs :=
  List.mem_reverse.mp (List.mem_of_find?_eq_some h)

/-- `DoTransfer` delivers to exactly the addressed servers, unless the frame is a broadcast and a
server other than the one at index `des_id` is registered. -/
theorem doTransfer_delivers_iff (p : Proxy) (f : Packet)
    (hconf : ∀ s ∈ p.conf.svrs, 1 ≤ s.svrNum) (hsized : Sized p) (hrange : InRange p f) :
    Delivers p f ↔ OnlyAtDesId p f := by
  by_cases hshort : f.val.length ≤ centerHeadLen
  · refine iff_of_true (delivers_of_idle ?_ ?_) fun h => absurd hshort (Nat.not_le.mpr h)
    · simp [doTransfer, hshort]
    · simp [addressed, hshort]
  · cases hv : p.svrs (headOf f).desType with
    | none =>
      refine iff_of_true (delivers_of_idle ?_ ?_) fun _ _ v h => by rw [hv] at h; cases h
      · simp only [headOf] at hv
        simp [doTransfer, hv]
      · simp [addressed, hv]
    | some v =>
      obtain ⟨s, hs, hn⟩ := hsized _ v hv
      cases hr : (headOf f).routeType with
      | p2p =>
        exact iff_of_true (delivers_p2p hshort hv hr (hrange hr v hv))
          fun _ h => by rw [hr] at h; cases h
      | hash =>
        exact iff_of_true (delivers_hash hshort hv hr hs hn (hconf s (getSvr_mem hs)))
          fun _ h => by rw [hr] at h; cases h
      | broadcast =>
        rw [delivers_broadcast_iff hshort hv hr hs hn]
        constructor
        · intro h _ _ v' hv'
          rw [hv] at hv'
          cases hv'
          exact h
        · intro h
          exact h (Nat.not_le.mp hshort) hr v hv
      | other n =>
        refine iff_of_true (delivers_of_idle ?_ ?_) fun _ h => by rw [hr] at h; cases h
        · simp only [headOf] at hv hr
          simp [doTransfer, hv, hr]
        · simp [addressed, hv, hr]

/-! ## The table keeps its size -/

def SameTable (p q : Proxy) : Prop := q.svrs = p.svrs ∧ q.conf = p.conf

theorem SameTable.sized {p q : Proxy} (h : SameTable p q) (hs : Sized p) : Sized q := by
  intro t v hv
  rw [h.1] at hv
  rw [h.2]
  exact hs t v hv

theorem socketRelease_sameTable (p : Proxy) (pos : Nat) : SameTable p (socketRelease p pos) :=
  ⟨socketRelease_svrs p pos, socketRelease_conf p pos⟩

theorem consume_sameTable {p q : Proxy} {pos : Nat} {bs : List UInt8}
    (h : consume p pos bs = .ok q) : SameTable p q := by
  unfold consume at h
  split at h
  · cases h
  · next o ho =>
    cases h
    have hstart : SameTable p (setEp p pos { (p.pool pos).ep with recvBuf := bs }) := ⟨rfl, rfl⟩
    rcases forward_cases (motive := SameTable p) (fun _ _ _ _ _ hp _ => hp) hstart ho with
      ⟨-, hs⟩ | ⟨-, p', hs, ho'⟩
    · exact hs
    · obtain ⟨hsvrs, hconf⟩ := socketRelease_sameTable p' (p'.pool pos).socketPos
      rw [← ho'] at hsvrs hconf
      exact ⟨hsvrs.trans hs.1, hconf.trans hs.2⟩

theorem recvServerData_sameTable {p q : Proxy} {pos : Nat} {rs : List RecvAnswer}
    (h : recvServerData p pos rs = .ok q) : SameTable p q := by
  induction rs generalizing p with
  | nil =>
    cases h
    exact ⟨rfl, rfl⟩
  | cons r rs ih =>
    have hdisc : ∀ i, SameTable p (socketDisconn p i) := fun i =>
      ⟨(socketDisconn_tables p i).2.2, (socketDisconn_tables p i).1⟩
    unfold recvServerData at h
    split at h
    · cases h
      exact ⟨rfl, rfl⟩
    · split at h
      · cases h
        exact hdisc _
      · cases h
        exact hdisc _
      · cases h
        exact ⟨rfl, rfl⟩
      · split at h
        · cases h
        · next p' hc =>
          obtain ⟨hsvrs, hconf⟩ := consume_sameTable hc
          obtain ⟨hsvrs', hconf'⟩ := ih h
          exact ⟨hsvrs'.trans hsvrs, hconf'.trans hconf⟩

theorem ensureType_sized {p p' : Proxy} {t : Nat} (h : ensureType p t = some p')
    (hs : Sized p) : Sized p' := by
  unfold ensureType at h
  split at h
  · cases h
    exact hs
  · obtain ⟨s, hget, rfl⟩ := Option.map_eq_some_iff.mp h
    intro t' v hv
    by_cases ht : t' = t
    · subst ht
      refine ⟨s, hget, ?_⟩
      simp only [Function.update_self, Option.some.injEq] at hv
      rw [← hv, List.length_replicate]
    · simp only [Function.update_of_ne ht] at hv
      exact hs t' v hv

theorem setEntry_sized {p : Proxy} (t id pos : Nat) (hs : Sized p) :
    Sized (setEntry p t id pos) := by
  intro t' v hv
  by_cases ht : t' = t
  · subst ht
    simp only [setEntry, Function.update_self] at hv
    obtain ⟨w, hw, rfl⟩ := Option.map_eq_some_iff.mp hv
    obtain ⟨s, hget, hlen⟩ := hs t' w hw
    exact ⟨s, hget, by rw [List.length_set, hlen]⟩
  · simp only [setEntry, Function.update_of_ne ht] at hv
    exact hs t' v hv

theorem takeOver_sameTable (p : Proxy) (before pos : Nat) :
    SameTable p (takeOver p before pos) := by
  obtain ⟨hsvrs, hconf⟩ := socketRelease_sameTable (setEp p pos (inherited p before pos))
    ((setEp p pos (inherited p before pos)).pool before).socketPos
  exact ⟨hsvrs, hconf⟩

theorem register_sized {p q : Proxy} {pos : Nat} (h : register p pos = .ok q) (hs : Sized p) :
    Sized q := by
  rcases register_ok h with rfl | ⟨p', he, ⟨-, rfl⟩ | ⟨before, -, hq⟩⟩
  · exact hs
  · exact setEntry_sized _ _ _ (ensureType_sized he hs)
  · rw [(enter_ok hq).2]
    exact setEntry_sized _ _ _
      ((takeOver_sameTable p' before pos).sized (ensureType_sized he hs))

/-- Every event keeps the lengths of the table. -/
theorem step_sized {p q : Proxy} {e : Event} (h : Step p e q) (hs : Sized p) : Sized q := by
  cases e with
  | error pos =>
    simp only [Step, dealEvent] at h
    cases h
    exact (socketRelease_sameTable p pos).sized hs
  | input pos a rs =>
    simp only [Step, dealEvent] at h
    split at h
    · cases h
      exact hs
    · split at h
      · rcases acceptConnect_ok h with rfl | ⟨i, rest, -, ⟨s, k, -, -, -, rfl⟩ | ⟨fd, t, id, -, hreg⟩⟩
        · exact hs
        · exact (socketRelease_sameTable _ _).sized hs
        · exact register_sized hreg hs
      · exact (recvServerData_sameTable h).sized hs

/-- In every run the table has the size of the configuration. -/
theorem run_sized {conf : CenterConfig} {answer : Nat → SendAnswer} {es : List Event} {q : Proxy}
    {guard : Proxy → Event → Prop} (h : Trace.Run Step guard (initNetwork conf answer) es q) :
    Sized q :=
  h.invariant Sized (fun t v hv => by simp [initNetwork] at hv)
    (fun _ _ _ hs _ hstep => step_sized hstep hs)

/-! ## Both sides of the condition -/

def pairConf : CenterConfig := ⟨3, [⟨7, 2⟩]⟩

def frameTo (route : Nat) : Packet :=
  ⟨Bytes.le 4 44 ++ List.replicate 8 0 ++ Bytes.le 4 7 ++ List.replicate 8 0 ++ Bytes.le 4 route ++
    List.replicate 16 0, by
      simp only [List.length_append, Bytes.le_length, List.length_replicate]
      decide⟩

/-- Both servers register. -/
theorem pair_run :
    ∃ q, Trace.Run Step (fun _ _ => True) (initNetwork pairConf fun _ => .all)
      [.input 0 (.ok 5 7 0) [], .input 0 (.ok 6 7 1) []] q ∧ q.conf = pairConf ∧
      q.svrs 7 = some [some 1, some 2] :=
  ⟨_, .cons trivial rfl (.cons trivial rfl (.nil _)), rfl, rfl⟩

theorem doTransfer_delivers_iff_p2p :
    ∃ q, (∀ s ∈ q.conf.svrs, 1 ≤ s.svrNum) ∧ Sized q ∧ InRange q (frameTo 1) ∧
      (Delivers q (frameTo 1) ↔ OnlyAtDesId q (frameTo 1)) := by
  obtain ⟨q, hrun, hconf, hv⟩ := pair_run
  have h1 : ∀ s ∈ q.conf.svrs, 1 ≤ s.svrNum := by
    rw [hconf]
    decide
  have h3 : InRange q (frameTo 1) := by
    intro _ v hv'
    have hd : (headOf (frameTo 1)).desType = 7 := by decide
    rw [hd, hv] at hv'
    cases hv'
    decide
  exact ⟨q, h1, run_sized hrun, h3, doTransfer_delivers_iff q _ h1 (run_sized hrun) h3⟩

/-- A broadcast with both servers registered goes to server 0 twice and to server 1 never. -/
theorem broadcast_skips_second :
    ∃ q, (∀ s ∈ q.conf.svrs, 1 ≤ s.svrNum) ∧ Sized q ∧ InRange q (frameTo 4) ∧
      ¬ Delivers q (frameTo 4) := by
  obtain ⟨q, hrun, hconf, hv⟩ := pair_run
  have hd : (headOf (frameTo 4)).desType = 7 := by decide
  have hr : (headOf (frameTo 4)).routeType = .broadcast := by decide
  refine ⟨q, by rw [hconf]; decide, run_sized hrun, fun h => ?_, ?_⟩
  · rw [hr] at h
    cases h
  · rw [delivers_broadcast_iff (by decide) (hd ▸ hv) hr (s := ⟨7, 2⟩) (by rw [hconf]; decide) rfl]
    intro h
    exact absurd (h 2 (by simp)) (by decide)

end ProxySvr
