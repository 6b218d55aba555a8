import Dsf4g.ProxyTransfer

/-!
# Which entries the routing touches

`SvrManager::Register` and `SvrManager::DoTransfer` against the vectors of `_svrs`, whose
sizes come from the configuration and whose subscripts come from the peer. `DoTransfer` is
given a place in a buffer here, with other bytes behind the frame.
-/
namespace ProxySvr

open Base Sockets SendBuffer

/-- `DoTransfer` behind its tests of the length and of the type. -/
def route (p : Proxy) (head : CenterHead) (f : Packet) : Except Fault Proxy :=
  match head.routeType with
  | .p2p => sendIfPresent p head.desType head.desId f
  | .broadcast =>
    match p.conf.getSvr head.desType with
    | none => .ok p
    | some s => broadcast p head.desType head.desId f 0 s.svrNum
  | .hash =>
    match p.conf.getSvr head.desType with
    | none => .ok p
    | some s =>
      if s.svrNum = 0 then .error .divByZero
      else sendIfPresent p head.desType (head.hashKey % s.svrNum) f
  | .other _ => .ok p

/-- `DoTransfer` on a frame in a buffer that goes on with `rest`: the head is read from the
buffer. -/
def transferIn (p : Proxy) (f : Packet) (rest : List UInt8) : Except Fault Proxy :=
  if f.val.length ≤ centerHeadLen then .ok p
  else
    let head := readCenterHead (f.val ++ rest) 4
    if p.svrs head.desType = none then .ok p else route p head f

/-! ## The head -/

theorem window_append {xs : List UInt8} (rest : List UInt8) {a w : Nat} (h : a + w ≤ xs.length) :
    ((xs ++ rest).drop a).take w = (xs.drop a).take w := by
  rw [List.drop_append_of_le_length (by omega), List.take_append_of_le_length
    (by rw [List.length_drop]; omega)]

/-- The members that `DoTransfer` uses lie in the first 40 bytes, hence in every frame that passes
its test, though the head need not lie in it whole. -/
theorem head_fields {f : List UInt8} (h : centerHeadLen < f.length) (rest : List UInt8) :
    (readCenterHead (f ++ rest) 4).desType = (readCenterHead f 4).desType ∧
    (readCenterHead (f ++ rest) 4).desId = (readCenterHead f 4).desId ∧
    (readCenterHead (f ++ rest) 4).routeType = (readCenterHead f 4).routeType ∧
    (readCenterHead (f ++ rest) 4).hashKey = (readCenterHead f 4).hashKey := by
  have hlen : 40 < f.length := h
  have hw : ∀ a w, a + w ≤ 40 → ((f ++ rest).drop a).take w = (f.drop a).take w :=
    fun a w haw => window_append rest (by omega)
  simp only [readCenterHead, Nat.reduceAdd]
  rw [hw 12 4 (by omega), hw 16 4 (by omega), hw 24 4 (by omega), hw 28 8 (by omega)]
  exact ⟨rfl, rfl, rfl, rfl⟩

/-- The four members of the head decide. -/
theorem route_congr {p : Proxy} {head head' : CenterHead} (f : Packet)
    (ht : head'.desType = head.desType) (hi : head'.desId = head.desId)
    (hr : head'.routeType = head.routeType) (hk : head'.hashKey = head.hashKey) :
    route p head' f = route p head f := by
  unfold route
  rw [ht, hi, hr, hk]

/-- What lies behind the frame makes no difference. -/
theorem transferIn_eq (p : Proxy) (f : Packet) (rest : List UInt8) :
    transferIn p f rest = doTransfer p f := by
  unfold transferIn doTransfer
  split
  · rfl
  · next hlong =>
    obtain ⟨ht, hi, hr, hk⟩ := head_fields (Nat.not_le.mp hlong) rest
    dsimp only
    rw [ht, route_congr f ht hi hr hk]
    rfl

/-! ## Faults -/

section Faults

variable {p : Proxy} {t : Nat} {v : List (Option Nat)}

theorem entry_outOfRange (hv : p.svrs t = some v) {i : Nat} (hi : v.length ≤ i) :
    entry p t i = .error .outOfRange := by
  simp only [entry, hv, Option.bind_some, List.getElem?_eq_none hi]

/-- A number at the end of the vector or behind it is outside of the table. -/
theorem sendIfPresent_outOfRange (hv : p.svrs t = some v) {i : Nat} (hi : v.length ≤ i)
    (f : Packet) : sendIfPresent p t i f = .error .outOfRange := by
  rw [sendIfPresent, entry_outOfRange hv hi]

/-- A call through the table fails on the subscript or on an empty entry. -/
theorem sendTo_error {id : Nat} {f : Packet} {e : Fault} (h : sendTo p t id f = .error e) :
    e = .outOfRange ∨ e = .nullPointer := by
  simp only [sendTo, entry] at h
  cases he : (p.svrs t).bind (·[id]?) with
  | none =>
    rw [he] at h
    cases h
    exact .inl rfl
  | some r =>
    rw [he] at h
    cases r with
    | none =>
      cases h
      exact .inr rfl
    | some pos => cases h

theorem sendIfPresent_error {id : Nat} {f : Packet} {e : Fault}
    (h : sendIfPresent p t id f = .error e) : e = .outOfRange ∨ e = .nullPointer := by
  unfold sendIfPresent at h
  split at h
  · next he =>
    unfold entry at he
    split at he
    · cases he
      cases h
      exact .inl rfl
    · cases he
  · cases h
  · exact sendTo_error h

theorem broadcast_error {desId i n : Nat} {f : Packet} {e : Fault}
    (h : broadcast p t desId f i n = .error e) : e = .outOfRange ∨ e = .nullPointer := by
  induction n generalizing p i with
  | zero => cases h
  | succ n ih =>
    unfold broadcast at h
    split at h
    · next he =>
      unfold entry at he
      split at he
      · cases he
        cases h
        exact .inl rfl
      · cases he
    · exact ih h
    · split at h
      · next hs =>
        cases h
        exact sendTo_error hs
      · exact ih h

/-- `DoTransfer` can fail in three ways, and divides by zero only for a type of no servers. -/
theorem doTransfer_error {f : Packet} {e : Fault} (h : doTransfer p f = .error e) :
    e = .outOfRange ∨ e = .nullPointer ∨ (e = .divByZero ∧ ∃ s v, p.svrs (headOf f).desType = some v ∧
      p.conf.getSvr (headOf f).desType = some s ∧ s.svrNum = 0) := by
  have hsends : ∀ {e : Fault}, e = .outOfRange ∨ e = .nullPointer →
      e = .outOfRange ∨ e = .nullPointer ∨ (e = .divByZero ∧ ∃ s v,
        p.svrs (headOf f).desType = some v ∧ p.conf.getSvr (headOf f).desType = some s ∧
        s.svrNum = 0) := fun h => h.elim .inl fun h => .inr (.inl h)
  simp only [doTransfer] at h
  split at h
  · cases h
  · split at h
    · cases h
    · next hne =>
      split at h
      · exact hsends (sendIfPresent_error h)
      · split at h
        · cases h
        · exact hsends (broadcast_error h)
      · split at h
        · cases h
        · next s hs =>
          split at h
          · next hz =>
            cases h
            obtain ⟨v, hv⟩ := Option.ne_none_iff_exists'.mp hne
            exact .inr (.inr ⟨rfl, s, v, hv, hs, hz⟩)
          · exact hsends (sendIfPresent_error h)
      · cases h

/-- A broadcast leaves the table when the index in its head is too large and it comes to a
registered entry. -/
theorem broadcast_outOfRange_iff {desId : Nat} (hv : p.svrs t = some v) (f : Packet) {i n : Nat}
    (hn : i + n = v.length) :
    broadcast p t desId f i n = .error .outOfRange ↔
      v.length ≤ desId ∧ ∃ pos, some pos ∈ v.drop i := by
  induction n generalizing p i with
  | zero =>
    rw [List.drop_eq_nil_of_le (by omega)]
    exact iff_of_false (fun h => nomatch h) fun ⟨_, _, h⟩ => absurd h List.not_mem_nil
  | succ n ih =>
    have hi : i < v.length := by omega
    rw [List.drop_eq_getElem_cons hi, broadcast, entry_eq hv hi]
    cases hs : v[i] with
    | none =>
      dsimp only
      rw [ih hv (by omega)]
      simp only [List.mem_cons, reduceCtorEq, false_or]
    | some pos =>
      dsimp only
      by_cases hd : v.length ≤ desId
      · have hsend : sendTo p t desId f = .error .outOfRange := by
          rw [sendTo, entry_outOfRange hv hd]
        rw [hsend]
        exact iff_of_true rfl ⟨hd, pos, List.mem_cons_self⟩
      · have hsend : ∀ q, sendTo p t desId f = .ok q → q.svrs t = some v := by
          intro q hq
          obtain ⟨d, -, rfl⟩ := sendTo_ok hq
          exact hv
        refine iff_of_false (fun h => ?_) fun h => hd h.1
        split at h
        · next e he =>
          cases h
          have hent := entry_eq hv (Nat.not_le.mp hd)
          rw [sendTo, hent] at he
          split at he
          · next hc => cases hc
          · cases he
          · cases he
        · next q hq => exact hd ((ih (hsend q hq) (by omega)).mp h).1

end Faults

/-! ## Requests -/

/-- The type of a new server is not configured, or its number is below `svr_num`. -/
def Numbered (p : Proxy) (pos : Nat) : Prop :=
  ∀ s, p.conf.getSvr (p.pool pos).svrType = some s → (p.pool pos).svrId < s.svrNum

/-- The entry of a new server still names the slot that the server has been given. -/
def Stale (p : Proxy) (pos : Nat) : Prop :=
  ∃ before, At p (p.pool pos).svrType (p.pool pos).svrId before ∧
    (p.pool before).socketPos = pos

/-- The number is in the table, and the server does not take over from its own slot, which is then
cleared and entered as server 0 of type 0. -/
def Registrable (p : Proxy) (pos : Nat) : Prop :=
  Numbered p pos ∧ (Stale p pos → p.svrs 0 ≠ none)

/-- A point-to-point frame for a type in the table names an entry of it; so does a broadcast when an
entry of the type is registered. -/
def Addressable (p : Proxy) (f : Packet) : Prop :=
  centerHeadLen < f.val.length → ∀ v, p.svrs (headOf f).desType = some v →
    match (headOf f).routeType with
    | .p2p => (headOf f).desId < v.length
    | .broadcast => (∃ pos, some pos ∈ v) → (headOf f).desId < v.length
    | _ => True

/-- `Register` stays inside the table, and does nothing for a number outside it. -/
structure RegisterProper (p : Proxy) (pos : Nat) : Prop where
  inBounds : register p pos ≠ .error .outOfRange
  ignored : ¬ Numbered p pos → register p pos = .ok p

/-- `DoTransfer` stays inside the table, divides by no zero and reads the head from the frame, and
does nothing for a number outside the table. -/
structure TransferProper (p : Proxy) (f : Packet) : Prop where
  inBounds : ∀ rest, transferIn p f rest ≠ .error .outOfRange
  modulus : ∀ rest, transferIn p f rest ≠ .error .divByZero
  ownHead : ∀ rest rest', transferIn p f rest = transferIn p f rest'
  ignored : ¬ Addressable p f → ∀ rest, transferIn p f rest = .ok p

def Stocked (p : Proxy) : Prop := ∀ t v, p.svrs t = some v → v ≠ []

theorem SameTable.stocked {p q : Proxy} (h : SameTable p q) (hs : Stocked p) : Stocked q := by
  intro t v hv
  rw [h.1] at hv
  exact hs t v hv

theorem ensureType_svrs {p p' : Proxy} {t : Nat} (h : ensureType p t = some p') :
    p'.conf = p.conf ∧ (∀ t', t' ≠ t → p'.svrs t' = p.svrs t') ∧ ∃ v, p'.svrs t = some v := by
  unfold ensureType at h
  split at h
  · next v hv =>
    cases h
    exact ⟨rfl, fun _ _ => rfl, v, hv⟩
  · obtain ⟨s, -, rfl⟩ := Option.map_eq_some_iff.mp h
    exact ⟨rfl, fun t' ht => Function.update_of_ne ht .., _, Function.update_self ..⟩

/-- The vector that the entry is read from is not empty. -/
theorem ensureType_stocked {p p' : Proxy} {t id : Nat} {e : Option Nat} (hs : Stocked p)
    (h : ensureType p t = some p') (he : entry p' t id = .ok e) : Stocked p' := by
  intro t' v hv
  by_cases ht : t' = t
  · subst ht
    rintro rfl
    rw [entry, hv] at he
    cases he
  · exact hs t' v ((ensureType_svrs h).2.1 t' ht ▸ hv)

theorem setEntry_stocked {p : Proxy} (hs : Stocked p) (t id pos : Nat) :
    Stocked (setEntry p t id pos) := by
  intro t' v hv
  by_cases ht : t' = t
  · subst ht
    simp only [setEntry, Function.update_self] at hv
    obtain ⟨w, hw, rfl⟩ := Option.map_eq_some_iff.mp hv
    intro hnil
    refine hs t' w hw ?_
    rw [← List.length_eq_zero_iff, ← w.length_set, hnil]
    rfl
  · simp only [setEntry, Function.update_of_ne ht] at hv
    exact hs t' v hv

/-- A type that is new to the table gets entries for its servers. -/
theorem register_stocked {p q : Proxy} {pos : Nat} (h : register p pos = .ok q)
    (hs : Stocked p) : Stocked q := by
  obtain rfl | ⟨p', he, ⟨hn, rfl⟩ | ⟨before, hat, hq⟩⟩ := register_ok h
  · exact hs
  · exact setEntry_stocked (ensureType_stocked hs he hn) _ _ _
  · rw [(enter_ok hq).2]
    exact setEntry_stocked ((takeOver_sameTable p' before pos).stocked
      (ensureType_stocked hs he (entry_eq_some.mpr hat))) _ _ _

theorem step_stocked {p q : Proxy} {e : Event} (h : Step p e q) (hs : Stocked p) : Stocked q := by
  cases e with
  | error pos =>
    simp only [Step, dealEvent] at h
    cases h
    exact (socketRelease_sameTable p pos).stocked hs
  | input pos a rs =>
    simp only [Step, dealEvent] at h
    split at h
    · cases h
      exact hs
    · split at h
      · obtain rfl | ⟨i, rest, -, ⟨s, k, -, -, -, rfl⟩ | ⟨fd, t, id, -, hreg⟩⟩ := acceptConnect_ok h
        · exact hs
        · exact (socketRelease_sameTable _ _).stocked hs
        · exact register_stocked hreg hs
      · exact (recvServerData_sameTable h).stocked hs

/-- Every type in the table has entries, in every run. -/
theorem run_stocked {conf : CenterConfig} {answer : Nat → SendAnswer} {es : List Event} {q : Proxy}
    {guard : Proxy → Event → Prop} (h : Trace.Run Step guard (initNetwork conf answer) es q) :
    Stocked q :=
  h.invariant Stocked (fun _ _ hv => nomatch hv) (fun _ _ _ hs _ hstep => step_stocked hstep hs)

/-! ## When the requests are proper -/

/-- A released slot is named server 0 of type 0. -/
theorem released_named (p : Proxy) (i : Nat) {pos : Nat} (hlt : pos < p.conf.maxSvrNum) :
    ((socketRelease p i).pool pos).svrType = (if i = pos then 0 else (p.pool pos).svrType) ∧
      ((socketRelease p i).pool pos).svrId = if i = pos then 0 else (p.pool pos).svrId := by
  by_cases hself : i = pos
  · rw [hself, socketRelease_pool hlt, if_pos rfl, if_pos rfl, if_pos rfl]
    exact ⟨rfl, rfl⟩
  · rw [if_neg hself, if_neg hself]
    by_cases hin : i < p.conf.maxSvrNum
    · rw [socketRelease_pool hin, if_neg (Ne.symm hself)]
      exact ⟨rfl, rfl⟩
    · rw [socketRelease, if_pos (Nat.not_lt.mp hin)]
      exact ⟨rfl, rfl⟩

/-- A socket that takes over from its own slot is cleared, any other keeps its identity. -/
theorem takeOver_named {p : Proxy} (before : Nat) {pos : Nat} (hlt : pos < p.conf.maxSvrNum) :
    ((takeOver p before pos).pool pos).svrType =
        (if (p.pool before).socketPos = pos then 0 else (p.pool pos).svrType) ∧
      ((takeOver p before pos).pool pos).svrId =
        if (p.pool before).socketPos = pos then 0 else (p.pool pos).svrId := by
  have hbefore : ((setEp p pos (inherited p before pos)).pool before).socketPos =
      (p.pool before).socketPos := by
    have hupdate := Function.update_apply p.pool pos
      { p.pool pos with ep := inherited p before pos } before
    simp only [setEp, setSocket, hupdate]
    split
    · next he => rw [he]
    · rfl
  have h := released_named (setEp p pos (inherited p before pos))
    ((setEp p pos (inherited p before pos)).pool before).socketPos hlt
  simp only [takeOver, sendBufData, setEp, setSocket, Function.update_self] at h hbefore ⊢
  rwa [hbefore] at h ⊢

/-- The subscripts are those in the slot when the entry is written. -/
theorem enter_inBounds_iff {p : Proxy} {pos : Nat} :
    enter p pos ≠ .error .outOfRange ↔
      ∃ v, p.svrs (p.pool pos).svrType = some v ∧ (p.pool pos).svrId < v.length := by
  unfold enter
  cases hv : p.svrs (p.pool pos).svrType with
  | none =>
    rw [entry, hv]
    refine iff_of_false (fun h => h rfl) ?_
    rintro ⟨_, h, -⟩
    cases h
  | some v =>
    by_cases hlt : (p.pool pos).svrId < v.length
    · rw [entry_eq hv hlt]
      exact iff_of_true (fun h => by cases h) ⟨v, rfl, hlt⟩
    · rw [entry_outOfRange hv (Nat.not_lt.mp hlt)]
      refine iff_of_false (fun h => h rfl) ?_
      rintro ⟨w, hw, hlt'⟩
      cases hw
      exact hlt hlt'

/-- A socket that takes over from another one is entered where that was, and one that takes over
from itself needs a server of type 0. -/
theorem takeOver_inBounds_iff {p : Proxy} (hstocked : Stocked p) (before : Nat) {pos : Nat}
    (hlt : pos < p.conf.maxSvrNum) {v : List (Option Nat)}
    (hv : p.svrs (p.pool pos).svrType = some v) (hid : (p.pool pos).svrId < v.length) :
    enter (takeOver p before pos) pos ≠ .error .outOfRange ↔
      ((p.pool before).socketPos = pos → p.svrs 0 ≠ none) := by
  obtain ⟨htype, hnum⟩ := takeOver_named before hlt
  rw [enter_inBounds_iff, takeOver_svrs, htype, hnum]
  by_cases hself : (p.pool before).socketPos = pos
  · rw [if_pos hself, if_pos hself]
    constructor
    · rintro ⟨w, hw, -⟩ - hnone
      rw [hnone] at hw
      cases hw
    · intro h
      obtain ⟨w, hw⟩ := Option.ne_none_iff_exists'.mp (h hself)
      exact ⟨w, hw, List.length_pos_of_ne_nil (hstocked 0 w hw)⟩
  · rw [if_neg hself, if_neg hself]
    exact iff_of_true ⟨v, hv, hid⟩ fun h => absurd h hself

/-- The number of a new server against the vector of its type. -/
theorem numbered_iff {p p' : Proxy} (hsized : Sized p) {pos : Nat} {v : List (Option Nat)}
    (he : ensureType p (p.pool pos).svrType = some p')
    (hv : p'.svrs (p.pool pos).svrType = some v) :
    Numbered p pos ↔ (p.pool pos).svrId < v.length := by
  obtain ⟨s, hs, hlen⟩ := ensureType_sized he hsized _ v hv
  rw [(ensureType_svrs he).1] at hs
  rw [hlen]
  constructor
  · exact fun h => h s hs
  · intro h s' hs'
    rw [hs] at hs'
    cases hs'
    exact h

theorem ensureType_of_at {p : Proxy} {t id pos : Nat} (h : At p t id pos) :
    ensureType p t = some p := by
  obtain ⟨v, hv, -⟩ := h
  simp only [ensureType, hv]

/-- An entry is stale when it names the new slot itself. -/
theorem stale_iff {p : Proxy} {pos before : Nat}
    (hb : At p (p.pool pos).svrType (p.pool pos).svrId before) :
    Stale p pos ↔ (p.pool before).socketPos = pos := by
  refine ⟨fun ⟨before', hb', h⟩ => ?_, fun h => ⟨before, hb, h⟩⟩
  have hsame : entry p _ _ = .ok (some before) := entry_eq_some.mpr hb
  rw [entry_eq_some.mpr hb'] at hsame
  cases hsame
  exact h

/-- `Register` does what it should exactly when the slot is registrable. -/
theorem register_proper_iff {p : Proxy} (hsized : Sized p) (hstocked : Stocked p) {pos : Nat}
    (hpos : pos < p.conf.maxSvrNum) : RegisterProper p pos ↔ Registrable p pos := by
  cases he : ensureType p (p.pool pos).svrType with
  | none =>
    have hok : register p pos = .ok p := by simp only [register, he]
    obtain ⟨hnone, hconf⟩ : p.svrs (p.pool pos).svrType = none ∧
        p.conf.getSvr (p.pool pos).svrType = none := by
      unfold ensureType at he
      split at he
      · cases he
      · next hn => exact ⟨hn, Option.map_eq_none_iff.mp he⟩
    refine iff_of_true ⟨by rw [hok]; exact nofun, fun _ => hok⟩ ⟨fun s hs => ?_, ?_⟩
    · rw [hconf] at hs
      cases hs
    · rintro ⟨before, ⟨v, hv, -⟩, -⟩
      rw [hnone] at hv
      cases hv
  | some p' =>
    obtain ⟨-, -, v, hv⟩ := ensureType_svrs he
    have hnum := numbered_iff hsized he hv
    by_cases hlt : (p.pool pos).svrId < v.length
    · obtain ⟨hsvrs, hat⟩ := ensureType_ok he
      have hentry := entry_eq hv hlt
      have hignored : ¬ Numbered p pos → register p pos = .ok p :=
        fun hno => absurd (hnum.mpr hlt) hno
      cases hb : v[(p.pool pos).svrId] with
      | none =>
        rw [hb] at hentry
        obtain ⟨svrs, rfl⟩ := hsvrs
        have hreg : register p pos = enter { p with svrs := svrs } pos := by
          simp only [register, he, hentry]
        refine iff_of_true ⟨hreg ▸ enter_inBounds_iff.mpr ⟨v, hv, hlt⟩, hignored⟩
          ⟨hnum.mpr hlt, ?_⟩
        rintro ⟨before, hbefore, -⟩
        have hsome := entry_eq_some.mpr ((hat _ _ _).mpr hbefore)
        rw [hentry] at hsome
        cases hsome
      | some before =>
        rw [hb] at hentry
        have hbefore := (hat _ _ _).mp (entry_eq_some.mp hentry)
        obtain rfl : p = p' := Option.some.inj ((ensureType_of_at hbefore).symm.trans he)
        have hreg : register p pos = enter (takeOver p before pos) pos := by
          simp only [register, he, hentry]
        have hinside := takeOver_inBounds_iff hstocked before hpos hv hlt
        rw [Registrable, stale_iff hbefore, ← hinside, ← hreg]
        exact ⟨fun h => ⟨hnum.mpr hlt, h.inBounds⟩, fun h => ⟨h.2, hignored⟩⟩
    · have hout : register p pos = .error .outOfRange := by
        obtain ⟨⟨svrs, rfl⟩, -⟩ := ensureType_ok he
        simp only [register, he, entry_outOfRange hv (Nat.not_lt.mp hlt)]
      exact iff_of_false (fun h => h.inBounds hout) fun h => hlt (hnum.mp h.1)

theorem doTransfer_routed {p : Proxy} {f : Packet} (hlong : centerHeadLen < f.val.length)
    (hne : p.svrs (headOf f).desType ≠ none) : doTransfer p f = route p (headOf f) f :=
  (if_neg (Nat.not_le.mpr hlong)).trans (if_neg hne)

/-- Routing leaves the table when the head names no entry, and a broadcast only if it comes to one. -/
theorem route_outOfRange_iff {p : Proxy} {head : CenterHead} {v : List (Option Nat)} {s : LogicSvr}
    (hv : p.svrs head.desType = some v) (hs : p.conf.getSvr head.desType = some s)
    (hlen : v.length = s.svrNum) (hpos : 0 < s.svrNum) (f : Packet) :
    route p head f = .error .outOfRange ↔ ¬ match head.routeType with
      | .p2p => head.desId < v.length
      | .broadcast => (∃ pos, some pos ∈ v) → head.desId < v.length
      | _ => True := by
  cases hr : head.routeType with
  | p2p =>
    simp only [route, hr]
    by_cases hlt : head.desId < v.length
    · obtain ⟨q, hq, -⟩ := sendIfPresent_calls hv hlt f
      rw [hq]
      exact iff_of_false (fun he => by cases he) fun h => h hlt
    · exact iff_of_true (sendIfPresent_outOfRange hv (Nat.not_lt.mp hlt) f) hlt
  | broadcast =>
    simp only [route, hr, hs]
    rw [← hlen, broadcast_outOfRange_iff hv f (Nat.zero_add _), List.drop_zero]
    constructor
    · rintro ⟨hle, hex⟩ h
      exact absurd (h hex) (Nat.not_lt.mpr hle)
    · intro h
      obtain ⟨hex, hle⟩ := not_forall.mp h
      exact ⟨Nat.not_lt.mp hle, hex⟩
  | hash =>
    have hmod : head.hashKey % s.svrNum < v.length := Nat.lt_of_lt_of_eq (Nat.mod_lt _ hpos) hlen.symm
    obtain ⟨q, hq, -⟩ := sendIfPresent_calls hv hmod f
    simp only [route, hr, hs, if_neg (Nat.ne_of_gt hpos), hq]
    exact iff_of_false (fun he => by cases he) fun h => h trivial
  | other n =>
    simp only [route, hr]
    exact iff_of_false (fun he => by cases he) fun h => h trivial

/-- `DoTransfer` leaves the table exactly for a head that names no entry. -/
theorem doTransfer_outOfRange_iff {p : Proxy} (hsized : Sized p) (hstocked : Stocked p)
    (f : Packet) : doTransfer p f = .error .outOfRange ↔ ¬ Addressable p f := by
  by_cases hshort : f.val.length ≤ centerHeadLen
  · rw [doTransfer, if_pos hshort]
    exact iff_of_false (fun he => by cases he) fun h => h fun hlong => absurd hshort (Nat.not_le.mpr hlong)
  · have hlong := Nat.not_le.mp hshort
    cases hv : p.svrs (headOf f).desType with
    | none =>
      have hok : doTransfer p f = .ok p := by
        unfold headOf at hv
        simp only [doTransfer, if_neg hshort, if_pos hv]
      rw [hok]
      refine iff_of_false (fun he => by cases he) fun h => h fun _ v hv' => ?_
      cases hv.symm.trans hv'
    | some v =>
      obtain ⟨s, hs, hlen⟩ := hsized _ v hv
      have hpos : 0 < s.svrNum := hlen ▸ List.length_pos_of_ne_nil (hstocked _ v hv)
      have hne : p.svrs (headOf f).desType ≠ none := hv ▸ Option.some_ne_none v
      rw [doTransfer_routed hlong hne, route_outOfRange_iff hv hs hlen hpos]
      refine not_congr ⟨fun h _ v' hv' => ?_, fun h => h hlong v hv⟩
      cases hv.symm.trans hv'
      exact h

/-- For `DoTransfer` in a table with entries this is all that can go wrong. -/
theorem transfer_proper_iff {p : Proxy} (hsized : Sized p) (hstocked : Stocked p) (f : Packet) :
    TransferProper p f ↔ Addressable p f := by
  have hout := doTransfer_outOfRange_iff hsized hstocked f
  constructor
  · intro h
    by_contra hno
    have hbad := hout.mpr hno
    rw [← transferIn_eq p f []] at hbad
    exact h.inBounds [] hbad
  · intro h
    refine ⟨fun rest hbad => ?_, fun rest hbad => ?_, fun rest rest' => ?_, fun hno => absurd h hno⟩
    · rw [transferIn_eq] at hbad
      exact hout.mp hbad h
    · rw [transferIn_eq] at hbad
      obtain he | he | ⟨-, s, v, hv, hs, hz⟩ := doTransfer_error hbad
      · cases he
      · cases he
      · obtain ⟨s', hs', hlen⟩ := hsized _ v hv
        rw [hs] at hs'
        cases hs'
        exact hstocked _ v hv (List.length_eq_zero_iff.mp (hlen.trans hz))
    · rw [transferIn_eq, transferIn_eq]

/-- In every state that a run leads to, and in the middle of an event, `Register` and `DoTransfer`
are proper for exactly the numbers that the table has, but for a server that takes over from its own
slot. -/
theorem routing_proper_iff (conf : CenterConfig) (answer : Nat → SendAnswer) (es : List Event)
    (p : Proxy) (h : Trace.Run Step (fun _ _ => True) (initNetwork conf answer) es p) (q : Proxy)
    (hq : SameTable p q) :
    (∀ pos < q.conf.maxSvrNum, RegisterProper q pos ↔ Registrable q pos) ∧
      ∀ f, TransferProper q f ↔ Addressable q f := by
  have hsized := hq.sized (run_sized h)
  have hstocked := hq.stocked (run_stocked h)
  exact ⟨fun pos hpos => register_proper_iff hsized hstocked hpos,
    transfer_proper_iff hsized hstocked⟩

/-- The first server of a type has registered, and the second one has got slot 2. -/
theorem routing_proper_iff_pair :
    ∃ p q, Trace.Run Step (fun _ _ => True) (initNetwork pairConf fun _ => .all)
        [.input 0 (.ok 5 7 0) []] p ∧ SameTable p q ∧
      RegisterProper q 2 ∧ TransferProper q (frameTo 1) := by
  obtain ⟨p, hrun, hconf, hv⟩ : ∃ p, Trace.Run Step (fun _ _ => True)
      (initNetwork pairConf fun _ => .all) [.input 0 (.ok 5 7 0) []] p ∧
      p.conf = pairConf ∧ p.svrs 7 = some [some 1, none] :=
    ⟨_, .cons trivial rfl (.nil _), rfl, rfl⟩
  obtain ⟨q, hq, ht, hid⟩ : ∃ q, SameTable p q ∧ (q.pool 2).svrType = 7 ∧ (q.pool 2).svrId = 1 :=
    ⟨setSocket p 2 { acceptedSocket (p.pool 2) 6 with svrType := 7, svrId := 1 }, ⟨rfl, rfl⟩,
      rfl, rfl⟩
  have hconf' : q.conf = pairConf := hq.2.trans hconf
  have hv' : q.svrs 7 = some [some 1, none] := (congrFun hq.1 7).trans hv
  obtain ⟨hreg, htrans⟩ := routing_proper_iff pairConf (fun _ => .all) _ p hrun q hq
  refine ⟨p, q, hrun, hq, (hreg 2 (by rw [hconf']; decide)).mpr ⟨fun s hs => ?_, ?_⟩,
    (htrans (frameTo 1)).mpr fun _ v hw => ?_⟩
  · rw [hconf', ht] at hs
    rw [hid]
    cases hs
    decide
  · rintro ⟨before, ⟨v, hw, hat⟩, -⟩
    rw [ht, hv'] at hw
    rw [hid] at hat
    cases hw
    cases hat
  · have hd : (headOf (frameTo 1)).desType = 7 := by decide
    have hr : (headOf (frameTo 1)).routeType = .p2p := by decide
    rw [hd, hv'] at hw
    cases hw
    rw [hr]
    decide

/-- A server registers with a number that the configuration does not have; and one connects again
after its slot was released, and is given that slot. -/
theorem unchecked_number :
    dealEvent (initNetwork pairConf fun _ => .all) (.input 0 (.ok 5 7 9) []) =
        .error .outOfRange ∧
      ∃ p, Trace.Run Step (fun _ _ => True) (initNetwork ⟨2, [⟨7, 1⟩]⟩ fun _ => .all)
          [.input 0 (.ok 5 7 0) [], .error 1] p ∧
        dealEvent p (.input 0 (.ok 5 7 0) []) = .error .outOfRange :=
  ⟨rfl, _, .cons trivial rfl (.cons trivial rfl (.nil _)), rfl⟩

end ProxySvr
