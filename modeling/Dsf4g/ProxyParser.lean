import Mathlib.Algebra.GroupWithZero.Nat
import Dsf4g.Lib.Loop
import Dsf4g.ProxyRouting

/-!
# The parser of the proxy, step by step

`ProxySvr::RecvServerData` in `src/proxysvr/proxysvr.cpp`. Its two loops are one here: it
stands either before a `recv` or in front of the bytes that it has not parsed yet. What it
touches of the slot it was called for is recorded.
-/
namespace ProxySvr

open Base Sockets SendBuffer

inductive Touch where
  | offset | buffer | descriptor | release
  deriving DecidableEq, Repr

/-- The function at the head of one of its loops. `answers` are the results of `recv` to come;
`parsing` is `tmp_recv[0 .. left)` inside the loop `while (left > 4)`. -/
structure Receiving where
  proxy : Proxy
  answers : List RecvAnswer
  parsing : Option (List UInt8)
  log : List Touch

def Receiving.start (p : Proxy) (answers : List RecvAnswer) : Receiving := ⟨p, answers, none, []⟩

def recvBytes (p : Proxy) (pos : Nat) : List UInt8 := (p.pool pos).ep.recvBuf

def withRecv (p : Proxy) (pos : Nat) (bs : List UInt8) : Proxy :=
  setEp p pos { (p.pool pos).ep with recvBuf := bs }

/-- Behind the loop over the frames: the rest is moved to the front when the offset is another. -/
def Receiving.moved (r : Receiving) (pos : Nat) (rest : List UInt8) : Receiving where
  proxy := withRecv r.proxy pos rest
  answers := r.answers
  parsing := none
  log := r.log ++ if rest.length = (recvBytes r.proxy pos).length then [Touch.offset]
    else [Touch.offset, .buffer, .offset]

def Receiving.read (r : Receiving) : Receiving := { r with log := r.log ++ [.buffer] }

def Receiving.released (r : Receiving) (pos : Nat) : Receiving :=
  { r with
    proxy := socketRelease r.proxy (r.proxy.pool pos).socketPos
    log := r.log ++ [.release] }

def Receiving.advanced (r : Receiving) (p : Proxy) (rest : List UInt8) : Receiving :=
  { r with proxy := p, parsing := some rest }

def recvOnce (pos : Nat) (r : Receiving) : Receiving ⊕ Except Fault Receiving :=
  match r.answers with
  | [] => .inr (.ok r)
  | a :: rest =>
    if (recvBytes r.proxy pos).length = recvBufLen then .inr (.ok { r with log := r.log ++ [.offset] })
    else
      match a with
      | .data [] | .fatal =>
        .inr (.ok { r with
          proxy := socketDisconn r.proxy (r.proxy.pool pos).socketPos
          log := r.log ++ [.offset, .descriptor] })
      | .again => .inr (.ok { r with log := r.log ++ [.offset, .descriptor] })
      | .data (b :: bs) =>
        .inl
          { proxy := withRecv r.proxy pos (stored r.proxy pos (b :: bs))
            answers := rest
            parsing := some (stored r.proxy pos (b :: bs))
            log := r.log ++ [.offset, .descriptor, .buffer, .offset] }

/-- A frame with a valid length is a packet. -/
theorem take_frame_length {bs : List UInt8} (h : ¬ frameLen bs > centerBufLen) :
    (bs.take (frameLen bs)).length ≤ centerBufLen := by
  rw [List.length_take]
  omega

def parseOnce (pos : Nat) (r : Receiving) (bs : List UInt8) :
    Receiving ⊕ Except Fault Receiving :=
  if bs.length ≤ 4 then .inl (r.moved pos bs)
  else if hlen : frameLen bs > centerBufLen then .inl ((r.read.released pos).moved pos bs)
  else if frameLen bs > bs.length then .inl (r.read.moved pos bs)
  else
    match doTransfer r.proxy ⟨bs.take (frameLen bs), take_frame_length hlen⟩ with
    | .error e => .inr (.error e)
    | .ok p => .inl (r.read.advanced p (bs.drop (frameLen bs)))

def recvPass (pos : Nat) (r : Receiving) : Receiving ⊕ Except Fault Receiving :=
  match r.parsing with
  | none => recvOnce pos r
  | some bs => parseOnce pos r bs

/-! ## The function as a whole -/

/-- Only the length word can make the parser hang. -/
theorem doTransfer_ne_hang (p : Proxy) (f : Packet) : doTransfer p f ≠ .error .hang := by
  intro h
  obtain he | he | ⟨he, -⟩ := doTransfer_error h
  · cases he
  · cases he
  · cases he

/-- A frame shorter than the head is not looked at. -/
theorem doTransfer_short {p : Proxy} {f : Packet} (h : f.val.length ≤ centerHeadLen) :
    doTransfer p f = .ok p := if_pos h

/-- A length of zero is read again. -/
theorem parseOnce_zero {pos : Nat} {r : Receiving} {bs : List UInt8} (h4 : 4 < bs.length)
    (hz : frameLen bs = 0) : parseOnce pos r bs = .inl (r.read.advanced r.proxy bs) := by
  have hshort : (bs.take (frameLen bs)).length ≤ centerHeadLen := by
    rw [hz]
    exact Nat.zero_le _
  unfold parseOnce
  rw [if_neg (by omega), dif_neg (by omega), if_neg (by omega), doTransfer_short hshort, hz]
  rfl

/-- The parser in front of a length of zero goes on for ever. -/
theorem zero_hangs {pos : Nat} {bs : List UInt8} (h4 : 4 < bs.length) (hz : frameLen bs = 0)
    {r : Receiving} (hr : r.parsing = some bs) : ¬ ∃ n o, Loop.Ends (recvPass pos) r n o := by
  apply Loop.not_ends (fun r => r.parsing = some bs) hr
  intro r hr
  refine ⟨r.read.advanced r.proxy bs, ?_, rfl⟩
  simp only [recvPass, hr]
  exact parseOnce_zero h4 hz

/-- What the two loops do from `r` on when the inner one ends with `o`. -/
def Ran (pos : Nat) (r : Receiving) : Except Fault Forwarded → Prop
  | .ok f => ∃ r', Loop.Meets (recvPass pos) r r' ∧ r'.proxy = withRecv f.proxy pos f.rest ∧
      r'.parsing = none ∧ r'.answers = r.answers
  | .error .hang => ¬ ∃ n o, Loop.Ends (recvPass pos) r n o
  | .error e => ∃ n, Loop.Ends (recvPass pos) r n (.error e)

/-- The two loops come from `r` to the end of the inner one. -/
theorem ran_moved {pos : Nat} {r r' : Receiving} {bs : List UInt8}
    (hb : recvPass pos r = .inl (r'.moved pos bs)) (ha : r'.answers = r.answers) :
    Ran pos r (.ok ⟨r'.proxy, bs⟩) :=
  ⟨r'.moved pos bs, .single hb, rfl, rfl, ha⟩

theorem ran_again {pos : Nat} {r r' : Receiving} {o : Except Fault Forwarded}
    (hb : recvPass pos r = .inl r') (ha : r'.answers = r.answers) (h : Ran pos r' o) :
    Ran pos r o := by
  cases o with
  | ok f =>
    obtain ⟨r'', hm, hp, hn, ha'⟩ := h
    exact ⟨r'', .head hb hm, hp, hn, ha'.trans ha⟩
  | error e =>
    have hends : (∃ n, Loop.Ends (recvPass pos) r' n (.error e)) →
        ∃ n, Loop.Ends (recvPass pos) r n (.error e) := fun ⟨n, hn⟩ => ⟨n + 1, .again hb hn⟩
    cases e with
    | hang =>
      rintro ⟨n, o, hn⟩
      refine h ?_
      cases hn with
      | leave hb' => cases hb.symm.trans hb'
      | again hb' hn' =>
        cases hb.symm.trans hb'
        exact ⟨_, o, hn'⟩
    | outOfRange => exact hends h
    | nullPointer => exact hends h
    | divByZero => exact hends h

/-- The loop over the frames does what `forward` computes, which knows when it hangs. -/
theorem forward_ran (p : Proxy) (pos : Nat) (bs : List UInt8) (r : Receiving) (hp : r.proxy = p)
    (hbs : r.parsing = some bs) : Ran pos r (forward p pos bs) := by
  have hpass : recvPass pos r = parseOnce pos r bs := by simp only [recvPass, hbs]
  fun_induction forward p pos bs generalizing r with
  | case1 p bs h4 =>
    subst hp
    exact ran_moved (hpass.trans (if_pos h4)) rfl
  | case2 p bs h4 hlen =>
    subst hp
    simp only [parseOnce, if_neg h4, dif_pos hlen] at hpass
    exact ran_moved hpass rfl
  | case3 p bs h4 hlen hle =>
    subst hp
    simp only [parseOnce, if_neg h4, dif_neg hlen, if_pos hle] at hpass
    have hran : Ran pos r (.ok ⟨r.read.proxy, bs⟩) := ran_moved hpass rfl
    exact hran
  | case4 p bs h4 hlen hle hz => exact zero_hangs (by omega) hz hbs
  | case5 p bs h4 hlen hle hz e he =>
    subst hp
    simp only [parseOnce, if_neg h4, dif_neg hlen, if_neg hle, he] at hpass
    cases e with
    | hang => exact absurd he (doTransfer_ne_hang _ _)
    | outOfRange => exact ⟨1, .leave hpass⟩
    | nullPointer => exact ⟨1, .leave hpass⟩
    | divByZero => exact ⟨1, .leave hpass⟩
  | case6 p bs h4 hlen hle hz p' he ih =>
    subst hp
    simp only [parseOnce, if_neg h4, dif_neg hlen, if_neg hle, he] at hpass
    exact ran_again hpass rfl (ih _ rfl rfl rfl)

/-- A call of the function ends with what `recvServerData` computes, unless that hangs; then it does
not end. -/
def Returns (pos : Nat) (r : Receiving) : Except Fault Proxy → Prop
  | .ok p => ∃ n r', Loop.Ends (recvPass pos) r n (.ok r') ∧ r'.proxy = p
  | .error .hang => ¬ ∃ n o, Loop.Ends (recvPass pos) r n o
  | .error e => ∃ n, Loop.Ends (recvPass pos) r n (.error e)

theorem returns_again {pos : Nat} {r r' : Receiving} {o : Except Fault Proxy}
    (hm : Loop.Meets (recvPass pos) r r') (h : Returns pos r' o) : Returns pos r o := by
  cases o with
  | ok p =>
    obtain ⟨n, r'', hn, hp⟩ := h
    obtain ⟨n', hn'⟩ := hn.of_meets hm
    exact ⟨n', r'', hn', hp⟩
  | error e =>
    have hends : (∃ n, Loop.Ends (recvPass pos) r' n (.error e)) →
        ∃ n, Loop.Ends (recvPass pos) r n (.error e) := fun ⟨n, hn⟩ => hn.of_meets hm
    cases e with
    | hang =>
      rintro ⟨n, o, hn⟩
      obtain ⟨n', hn'⟩ := hn.from_meets hm
      exact h ⟨n', o, hn'⟩
    | outOfRange => exact hends h
    | nullPointer => exact hends h
    | divByZero => exact hends h

/-- The call recorded step by step is `recvServerData`. -/
theorem recvServerData_returns (p : Proxy) (pos : Nat) (rs : List RecvAnswer) (r : Receiving)
    (hp : r.proxy = p) (hn : r.parsing = none) (ha : r.answers = rs) :
    Returns pos r (recvServerData p pos rs) := by
  induction rs generalizing p r with
  | nil =>
    have hpass : recvPass pos r = recvOnce pos r := by simp only [recvPass, hn]
    simp only [recvOnce, ha] at hpass
    exact ⟨1, r, .leave hpass, hp⟩
  | cons a rs ih =>
    subst hp
    have hpass : recvPass pos r = recvOnce pos r := by simp only [recvPass, hn]
    simp only [recvOnce, ha, recvBytes] at hpass
    unfold recvServerData
    split
    · next hfull =>
      rw [if_pos hfull] at hpass
      exact ⟨1, _, .leave hpass, rfl⟩
    · next hroom =>
      rw [if_neg hroom] at hpass
      split
      · exact ⟨1, _, .leave hpass, rfl⟩
      · exact ⟨1, _, .leave hpass, rfl⟩
      · exact ⟨1, _, .leave hpass, rfl⟩
      · next b bs =>
        apply returns_again (.single hpass)
        have hran := forward_ran (withRecv r.proxy pos (stored r.proxy pos (b :: bs))) pos
          (stored r.proxy pos (b :: bs)) _ rfl
          (rfl : Receiving.parsing ⟨_, rs, some (stored r.proxy pos (b :: bs)),
            r.log ++ [.offset, .descriptor, .buffer, .offset]⟩ = _)
        simp only [withRecv] at hran
        simp only [consume]
        cases hf : forward (setEp r.proxy pos { (r.proxy.pool pos).ep with
            recvBuf := stored r.proxy pos (b :: bs) }) pos (stored r.proxy pos (b :: bs)) with
        | error e =>
          rw [hf] at hran
          cases e with
          | hang => exact hran
          | outOfRange => exact hran
          | nullPointer => exact hran
          | divByZero => exact hran
        | ok f =>
          rw [hf] at hran
          obtain ⟨r', hm, hp', hn', ha'⟩ := hran
          exact returns_again hm (ih _ r' hp' hn' ha')

/-! ## What a call may do -/

/-- Once the slot is released it is not touched any more. -/
def Untouched (log : List Touch) : Prop := ∀ before after, log = before ++ .release :: after → after = []

/-- The next pass goes on with fewer bytes than it found, and does not touch a released slot. -/
structure Orderly (pos : Nat) (r : Receiving) : Prop where
  consumes : ∀ bs r' bs', r.parsing = some bs → recvPass pos r = .inl r' → r'.parsing = some bs' →
    bs'.length < bs.length
  again : ∀ r', recvPass pos r = .inl r' → Untouched r'.log
  leaves : ∀ r', recvPass pos r = .inr (.ok r') → Untouched r'.log

/-- The length in front of the parser, when there is one, is one that a frame can have. -/
def ValidLength (r : Receiving) : Prop :=
  ∀ bs, r.parsing = some bs → 4 < bs.length → 1 ≤ frameLen bs ∧ frameLen bs ≤ centerBufLen

theorem untouched_of_not_mem {log : List Touch} (h : Touch.release ∉ log) : Untouched log := by
  rintro before after rfl
  exact absurd (List.mem_append_right _ List.mem_cons_self) h

theorem moved_log (r : Receiving) (pos : Nat) (bs : List UInt8) :
    ∃ l, (r.moved pos bs).log = r.log ++ .offset :: l ∧ Touch.release ∉ l := by
  simp only [Receiving.moved]
  split
  · exact ⟨[], rfl, List.not_mem_nil⟩
  · exact ⟨[.buffer, .offset], rfl, by decide⟩

/-- The two ways in which a pass in front of a frame goes on or ends, when the length is valid. -/
theorem parseOnce_valid {pos : Nat} {r : Receiving} {bs : List UInt8}
    (h : 4 < bs.length → 1 ≤ frameLen bs ∧ frameLen bs ≤ centerBufLen) :
    (∃ r' : Receiving, parseOnce pos r bs = .inl (r'.moved pos bs) ∧ r'.answers = r.answers ∧
      (r'.log = r.log ∨ r'.log = r.log ++ [.buffer])) ∨
    (∃ e, parseOnce pos r bs = .inr (.error e)) ∨
    (∃ p, parseOnce pos r bs = .inl (r.read.advanced p (bs.drop (frameLen bs))) ∧
      (bs.drop (frameLen bs)).length < bs.length) := by
  unfold parseOnce
  by_cases h4 : bs.length ≤ 4
  · exact .inl ⟨r, if_pos h4, rfl, .inl rfl⟩
  · obtain ⟨hpos, hle⟩ := h (by omega)
    rw [if_neg h4, dif_neg (Nat.not_lt.mpr hle)]
    by_cases hleft : frameLen bs > bs.length
    · rw [if_pos hleft]
      exact .inl ⟨r.read, rfl, rfl, .inr rfl⟩
    · rw [if_neg hleft]
      right
      split
      · next e _ => exact .inl ⟨e, rfl⟩
      · next p _ =>
        refine .inr ⟨p, rfl, ?_⟩
        rw [List.length_drop]
        omega

/-- What a pass before a `recv` does. -/
theorem recvOnce_cases (pos : Nat) (r : Receiving) :
    (∃ r' l, recvOnce pos r = .inr (.ok r') ∧ r'.log = r.log ++ l ∧ Touch.release ∉ l) ∨
    (∃ b bs rest r', r.answers = .data (b :: bs) :: rest ∧ recvOnce pos r = .inl r' ∧
      r'.answers = rest ∧ r'.parsing = some (stored r.proxy pos (b :: bs)) ∧
      r'.log = r.log ++ [.offset, .descriptor, .buffer, .offset]) := by
  unfold recvOnce
  split
  · exact .inl ⟨r, [], rfl, (List.append_nil _).symm, List.not_mem_nil⟩
  · next a rest ha =>
    split
    · exact .inl ⟨_, [.offset], rfl, rfl, by decide⟩
    · split
      · exact .inl ⟨_, [.offset, .descriptor], rfl, rfl, by decide⟩
      · exact .inl ⟨_, [.offset, .descriptor], rfl, rfl, by decide⟩
      · exact .inl ⟨_, [.offset, .descriptor], rfl, rfl, by decide⟩
      · next b bs => exact .inr ⟨b, bs, rest, _, ha, rfl, rfl, rfl, rfl⟩

/-- While the lengths are valid, nothing is released. -/
theorem not_released_step {pos : Nat} {r : Receiving} (hv : ValidLength r)
    (h : Touch.release ∉ r.log) :
    (∀ r', recvPass pos r = .inl r' → Touch.release ∉ r'.log) ∧
      ∀ r', recvPass pos r = .inr (.ok r') → Touch.release ∉ r'.log := by
  have happend : ∀ {l l' : List Touch}, Touch.release ∉ l → Touch.release ∉ l' →
      Touch.release ∉ l ++ l' := fun hl hl' hm => (List.mem_append.mp hm).elim hl hl'
  unfold recvPass
  split
  · obtain ⟨r₁, l, hr, hlog, hl⟩ | ⟨b, bs, rest, r₁, -, hr, -, -, hlog⟩ := recvOnce_cases pos r
    · rw [hr]
      refine ⟨fun _ hc => (nomatch hc), fun r' hr' => ?_⟩
      cases hr'
      rw [hlog]
      exact happend h hl
    · rw [hr]
      refine ⟨fun r' hr' => ?_, fun _ hc => (nomatch hc)⟩
      cases hr'
      rw [hlog]
      exact happend h (by decide)
  · next bs hbs =>
    obtain ⟨r₁, hr, -, hlog⟩ | ⟨e, hr⟩ | ⟨p, hr, -⟩ := parseOnce_valid (hv bs hbs)
    · rw [hr]
      refine ⟨fun r' hr' => ?_, fun _ hc => (nomatch hc)⟩
      cases hr'
      obtain ⟨l, hmoved, hl⟩ := moved_log r₁ pos bs
      have hr₁ : Touch.release ∉ r₁.log := by
        rcases hlog with hlog | hlog
        · rw [hlog]
          exact h
        · rw [hlog]
          exact happend h (by decide)
      rw [hmoved]
      exact happend hr₁ fun hm => hl (List.mem_of_ne_of_mem (by decide) hm)
    · rw [hr]
      exact ⟨fun _ hc => (nomatch hc), fun _ hc => (nomatch hc)⟩
    · rw [hr]
      refine ⟨fun r' hr' => ?_, fun _ hc => (nomatch hc)⟩
      cases hr'
      exact happend h (by decide)

/-- A pass that shortens the buffer has read a valid length. -/
theorem Orderly.validLength {pos : Nat} {r : Receiving} (h : Orderly pos r) : ValidLength r := by
  intro bs hbs h4
  have hpass : recvPass pos r = parseOnce pos r bs := by simp only [recvPass, hbs]
  constructor
  · refine Nat.pos_of_ne_zero fun hz => ?_
    exact absurd (h.consumes bs _ bs hbs (hpass.trans (parseOnce_zero h4 hz)) rfl) (Nat.lt_irrefl _)
  · refine Nat.not_lt.mp fun hlen => ?_
    have hbad : recvPass pos r = .inl ((r.read.released pos).moved pos bs) := by
      rw [hpass, parseOnce, if_neg (by omega), dif_pos hlen]
    obtain ⟨l, hlog, -⟩ := moved_log (r.read.released pos) pos bs
    have hafter := h.again _ hbad r.read.log (.offset :: l) (by
      rw [hlog]
      simp only [Receiving.released, List.append_assoc, List.singleton_append])
    cases hafter

/-- A valid length, and a slot that was not released, are enough. -/
theorem ValidLength.orderly {pos : Nat} {r : Receiving} (hv : ValidLength r)
    (hlog : Touch.release ∉ r.log) : Orderly pos r := by
  obtain ⟨hagain, hleaves⟩ := @not_released_step pos r hv hlog
  refine ⟨fun bs r' bs' hbs hr' hbs' => ?_, fun r' hr' => untouched_of_not_mem (hagain r' hr'),
    fun r' hr' => untouched_of_not_mem (hleaves r' hr')⟩
  simp only [recvPass, hbs] at hr'
  obtain ⟨r₁, hr, -⟩ | ⟨e, hr⟩ | ⟨p, hr, hlt⟩ := parseOnce_valid (hv bs hbs)
  · rw [hr] at hr'
    cases hr'
    cases hbs'
  · rw [hr] at hr'
    cases hr'
  · rw [hr] at hr'
    cases hr'
    cases hbs'
    exact hlt

/-- The bytes of an answer, and the pass that stores it and the one that moves what is left of it. -/
def answerAhead : RecvAnswer → Nat
  | .data bs => bs.length + 2
  | _ => 2

/-- The bytes that a call may still go over, or is going over. -/
def parsingAhead (p : Proxy) (pos : Nat) : Option (List UInt8) → Nat
  | none => (recvBytes p pos).length
  | some bs => bs.length + 1

def ahead (pos : Nat) (r : Receiving) : Nat :=
  (r.answers.map answerAhead).sum + parsingAhead r.proxy pos r.parsing

theorem recvBytes_withRecv (p : Proxy) (pos : Nat) (bs : List UInt8) :
    recvBytes (withRecv p pos bs) pos = bs := by
  simp only [recvBytes, withRecv, setEp, setSocket, Function.update_self]

/-- A pass leaves less to go over, when the length it meets is valid. -/
theorem ahead_step {pos : Nat} {r r' : Receiving} (hv : ValidLength r)
    (h : recvPass pos r = .inl r') : ahead pos r' < ahead pos r := by
  unfold recvPass at h
  split at h
  · next hn =>
    obtain ⟨r₁, l, hr, -⟩ | ⟨b, bs, rest, r₁, ha, hr, harest, hparse, -⟩ := recvOnce_cases pos r
    · rw [hr] at h
      cases h
    · rw [hr] at h
      cases h
      have hstored : (stored r.proxy pos (b :: bs)).length ≤
          (recvBytes r.proxy pos).length + (b :: bs).length := by
        rw [stored, List.length_append]
        exact Nat.add_le_add_left (List.length_take_le' _ _) _
      simp only [ahead, answerAhead, parsingAhead, hparse, hn, ha, harest, List.map_cons, List.sum_cons]
      omega
  · next bs hbs =>
    obtain ⟨r₁, hr, ha, -⟩ | ⟨e, hr⟩ | ⟨p, hr, hlt⟩ := parseOnce_valid (hv bs hbs)
    · rw [hr] at h
      cases h
      have hrest : recvBytes (r₁.moved pos bs).proxy pos = bs := recvBytes_withRecv ..
      have hnone : (r₁.moved pos bs).parsing = none := rfl
      have hanswers : (r₁.moved pos bs).answers = r.answers := ha
      simp only [ahead, parsingAhead, hbs, hnone, hrest, hanswers]
      omega
    · rw [hr] at h
      cases h
    · rw [hr] at h
      cases h
      simp only [ahead, parsingAhead, hbs, Receiving.advanced, Receiving.read]
      omega

/-- A call of `RecvServerData` ends, consumes bytes with every frame, and keeps its hands off a
released slot, exactly when every length that it meets is valid. -/
theorem recv_orderly_iff (p : Proxy) (pos : Nat) (answers : List RecvAnswer) :
    ((∃ n o, Loop.Ends (recvPass pos) (Receiving.start p answers) n o) ∧
      ∀ r, Loop.Meets (recvPass pos) (Receiving.start p answers) r → Orderly pos r) ↔
    ∀ r, Loop.Meets (recvPass pos) (Receiving.start p answers) r → ValidLength r := by
  constructor
  · rintro ⟨-, h⟩ r hm
    exact (h r hm).validLength
  · intro h
    have hlog : ∀ r, Loop.Meets (recvPass pos) (Receiving.start p answers) r →
        Touch.release ∉ r.log := by
      intro r hm
      apply hm.invariant (fun r => Touch.release ∉ r.log) List.not_mem_nil
      intro r₁ r₂ hm₁ h₁ hb
      exact (not_released_step (h r₁ hm₁) h₁).1 r₂ hb
    obtain ⟨n, o, hends, -⟩ := Loop.ends_of_variant (ahead pos) fun r₁ hm r₂ hb =>
      ahead_step (h r₁ hm) hb
    exact ⟨⟨n, o, hends⟩, fun r hm => (h r hm).orderly (hlog r hm)⟩

/-! ## A peer that sends zeros -/

def oneTypeConf : CenterConfig := ⟨4, [⟨7, 2⟩]⟩

/-- A server has registered and sends five zero bytes. -/
theorem recv_hangs :
    ∃ p, Trace.Run Step (fun _ _ => True) (initNetwork oneTypeConf fun _ => .all)
        [.input 0 (.ok 5 7 1) []] p ∧
      ¬ ∃ n o, Loop.Ends (recvPass 1) (Receiving.start p [.data [0, 0, 0, 0, 0]]) n o := by
  refine ⟨_, Trace.Run.cons trivial rfl (Trace.Run.nil _), ?_⟩
  rintro ⟨n, o, h⟩
  cases h with
  | leave hb => cases hb
  | again hb hrest =>
    cases hb
    exact zero_hangs (by decide) (by decide) rfl ⟨_, o, hrest⟩

end ProxySvr
