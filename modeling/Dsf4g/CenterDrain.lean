import Dsf4g.Lib.Loop
import Dsf4g.MsgLoop

/-!
# What a center can do to the loop that reads it

`CenterMng::GetOneData` holds the length word of a frame against what has been received
and then against the caller's buffer, and against nothing from below. The loop over it
in `Server::GetCenterMessage` reads the length again, from `_center_buf`.
-/
namespace MsgLoop

open Base SendBuffer CenterMng

/-! ## The front of the receive buffer -/

def lengthWord (m : Mng) : Nat := Bytes.ofLe (m.ep.recvBuf.take 4)

def Closed (m : Mng) : Prop := m.ep.fd = sockClosed ∧ m.ep.recvBuf = []

/-- Everything that `GetOneData` can do. -/
theorem getOneData_cases (m : Mng) (n : Nat) :
    ((m.ep.recvBuf.length ≤ 4 ∨ m.ep.recvBuf.length < lengthWord m) ∧
      getOneData m n = ⟨m, none⟩) ∨
    (4 < m.ep.recvBuf.length ∧ lengthWord m ≤ m.ep.recvBuf.length ∧ n < lengthWord m ∧
      getOneData m n = ⟨disconnect m, none⟩) ∨
    (4 < m.ep.recvBuf.length ∧ lengthWord m ≤ m.ep.recvBuf.length ∧ lengthWord m ≤ n ∧
      getOneData m n = ⟨Server.withBuf m (m.ep.recvBuf.drop (lengthWord m)),
        some (m.ep.recvBuf.take (lengthWord m))⟩) := by
  by_cases h4 : m.ep.recvBuf.length ≤ 4
  · exact .inl ⟨.inl h4, Server.getOneData_pending (.inl h4) n⟩
  · by_cases hw : m.ep.recvBuf.length < lengthWord m
    · exact .inl ⟨.inr hw, Server.getOneData_pending (.inr hw) n⟩
    · right
      simp only [lengthWord] at hw ⊢
      by_cases hn : n < Bytes.ofLe (m.ep.recvBuf.take 4)
      · refine .inl ⟨by omega, by omega, hn, ?_⟩
        simp only [getOneData, if_neg h4, if_neg hw, if_pos hn]
      · refine .inr ⟨by omega, by omega, by omega, ?_⟩
        simp only [getOneData, if_neg h4, if_neg hw, if_neg hn]
        rfl

/-- With more than a word in the buffer, a length above the caller's limit closes the connection
exactly when that much has been received; and a full buffer moves on exactly when its first length
is not above the size of the buffer. -/
theorem oversized_closes_iff (m : Mng) (n : Nat) :
    (4 < m.ep.recvBuf.length → n < lengthWord m →
      (Closed (getOneData m n).mng ↔ lengthWord m ≤ m.ep.recvBuf.length)) ∧
    (m.ep.recvBuf.length = recvBufLen →
      ((getOneData m n).data.isSome ∨ Closed (getOneData m n).mng ↔
        lengthWord m ≤ recvBufLen)) := by
  have hlen : recvBufLen = 413600 := rfl
  obtain ⟨hwait, hg⟩ | ⟨h4, hle, hn, hg⟩ | ⟨h4, hle, hn, hg⟩ := getOneData_cases m n
  · have hopen : 4 < m.ep.recvBuf.length → ¬ Closed m := by
      rintro h4 ⟨-, hnil⟩
      rw [hnil] at h4
      cases h4
    rw [hg]
    refine ⟨fun h4 _ => ⟨fun hc => absurd hc (hopen h4), fun hw => ?_⟩, fun hfull => ?_⟩
    · omega
    · simp only [Option.isSome_none, Bool.false_eq_true, false_or]
      exact ⟨fun hc => absurd hc (hopen (by omega)), fun hw => by omega⟩
  · have hclosed : Closed (disconnect m) := ⟨rfl, rfl⟩
    rw [hg]
    exact ⟨fun _ _ => iff_of_true hclosed hle,
      fun hfull => iff_of_true (.inr hclosed) (hfull ▸ hle)⟩
  · rw [hg]
    exact ⟨fun _ hbig => absurd hbig (by omega),
      fun hfull => iff_of_true (.inl rfl) (hfull ▸ hle)⟩

def connected (bytes : List UInt8) : Mng :=
  Server.withBuf (checkConnect (CenterMng.init (fun _ => .all) (-1)) (.ok 5) true) bytes

theorem connected_full (b : UInt8) :
    (connected (List.replicate recvBufLen b)).ep.recvBuf.length = recvBufLen ∧
      lengthWord (connected (List.replicate recvBufLen b)) = Bytes.ofLe [b, b, b, b] := by
  refine ⟨List.length_replicate, ?_⟩
  show Bytes.ofLe ((List.replicate recvBufLen b).take 4) = _
  rw [List.take_replicate]
  rfl

/-- A length above the limit with all of its bytes, and a full buffer of zeros. -/
theorem oversized_closes_iff_whole :
    Closed (getOneData (connected [5, 0, 0, 0, 9]) 4).mng ∧
      ((getOneData (connected (List.replicate recvBufLen 0)) centerBufLen).data.isSome ∨
        Closed (getOneData (connected (List.replicate recvBufLen 0)) centerBufLen).mng) := by
  obtain ⟨hfull, hword⟩ := connected_full 0
  constructor
  · exact ((oversized_closes_iff (connected [5, 0, 0, 0, 9]) 4).1 (by decide) (by decide)).mpr
      (by decide)
  · exact ((oversized_closes_iff (connected (List.replicate recvBufLen 0)) centerBufLen).2
      hfull).mpr (hword ▸ by decide)

/-- A center sends `0xff` until the receive buffer is full. Nothing is ever taken from it again,
and the connection stays open. -/
theorem oversized_waits :
    ∃ ops m, run (CenterMng.init (fun _ => .all) (-1)) ops = m ∧
      m.ep.recvBuf.length = recvBufLen ∧ centerBufLen < lengthWord m ∧ ¬ Closed m ∧
      getOneData m centerBufLen = ⟨m, none⟩ ∧ ∀ rs, recvData m rs = m := by
  obtain ⟨hfull, hword⟩ := connected_full 255
  have hbig : lengthWord (connected (List.replicate recvBufLen 255)) = 4294967295 := hword
  have hne : List.replicate recvBufLen (255 : UInt8) ≠ [] := by
    intro h
    have hlen := congrArg List.length h
    rw [List.length_replicate] at hlen
    cases hlen
  refine ⟨[.checkConnect (.ok 5) true, .recvData [.data (List.replicate recvBufLen 255)]], _, ?_,
    hfull, ?_, ?_, ?_, ?_⟩
  · have hfit : (List.replicate recvBufLen (255 : UInt8)).length ≤
        recvBufLen - (connected []).ep.recvBuf.length := Nat.le_of_eq hfull
    exact Server.recvData_fits (m := connected []) hne hfit
  · rw [hbig]
    decide
  · exact fun hc => hne hc.2
  · obtain ⟨-, hg⟩ | ⟨-, hle, -⟩ | ⟨-, hle, -⟩ :=
      getOneData_cases (connected (List.replicate recvBufLen 255)) centerBufLen
    · exact hg
    · rw [hfull, hbig] at hle
      exact absurd hle (by decide)
    · rw [hfull, hbig] at hle
      exact absurd hle (by decide)
  · intro rs
    cases rs with
    | nil => rfl
    | cons r rs =>
      unfold recvData
      rw [if_pos hfull]

/-! ## The loop over the frames -/

/-- The loop over the frames of the center the server stands at. -/
def drainPass (s : Loop) : Loop ⊕ Loop :=
  match s.pc with
  | .draining i count =>
    match (drain s i count).pc with
    | .draining _ _ => .inl (drain s i count)
    | _ => .inr (drain s i count)
  | _ => .inr s

/-- The frame that the next pass takes off the receive buffer. -/
def nextFrame (s : Loop) : Option (List UInt8) :=
  match s.pc with
  | .draining i _ => centerFrame s i
  | _ => none

/-- The bytes in the receive buffer of the center the server stands at. -/
def buffered (s : Loop) : Nat :=
  match s.pc with
  | .draining i _ => ((s.centers[i]?).map fun m => m.ep.recvBuf.length).getD 0
  | _ => 0

/-- `m` is made of the bytes of a frame, the head from behind its length word. -/
def OwnMessage (f : List UInt8) (m : Msg) : Prop :=
  4 + centerHeadLen ≤ f.length ∧ m = .server (readCenterHead f 4) (f.drop (4 + centerHeadLen))

/-- The next pass shortens the buffer when it takes a frame, and posts nothing but that frame. -/
structure Orderly (s : Loop) : Prop where
  shorter : ∀ i count mng f, s.pc = .draining i count → s.centers[i]? = some mng →
    (getOneData mng centerBufLen).data = some f →
    (getOneData mng centerBufLen).mng.ep.recvBuf.length < mng.ep.recvBuf.length
  own : ∀ m, posts s = some m → ∃ f, nextFrame s = some f ∧ OwnMessage f m

/-- The next frame is not empty, and if it has no whole length word, what it leaves of the last one
in `_center_buf` says that there is no message. -/
def Prefixed (s : Loop) : Prop :=
  ∀ f, nextFrame s = some f →
    f ≠ [] ∧ (f.length < 4 → Server.centerPost (Server.copyIn s.centerBuf f) = none)

/-- A pass after which the loop goes on took a frame. -/
theorem drainPass_again {s s' : Loop} {i count : Nat} (hpc : s.pc = .draining i count)
    (h : drainPass s = .inl s') :
    ∃ mng f, s.centers[i]? = some mng ∧ (getOneData mng centerBufLen).data = some f ∧
      (∃ count', s'.pc = .draining i count') ∧
      s'.centers = s.centers.set i (getOneData mng centerBufLen).mng := by
  simp only [drainPass, hpc, drain] at h
  cases hc : s.centers[i]? with
  | none =>
    rw [hc] at h
    cases h
  | some mng =>
    rw [hc] at h
    dsimp only at h
    cases hg : (getOneData mng centerBufLen).data with
    | none =>
      rw [hg] at h
      cases h
    | some f =>
      rw [hg] at h
      refine ⟨mng, f, rfl, hg, ?_⟩
      cases hp : Server.centerPost (Server.copyIn s.centerBuf f) with
      | none =>
        simp only [hp] at h
        cases h
        exact ⟨⟨count, rfl⟩, rfl⟩
      | some m =>
        simp only [hp, Loop.postInput] at h
        obtain ⟨-, hpost⟩ | ⟨-, hpost⟩ := post_cases { s with
          centers := s.centers.set i (getOneData mng centerBufLen).mng
          centerBuf := Server.copyIn s.centerBuf f
          taken := s.taken ++ ((Server.centerPost f).map serverMsg).toList } (serverMsg m)
        · simp only [hpc] at hpost
          simp only [hpost] at h
          cases h
          exact ⟨⟨count + 1, rfl⟩, rfl⟩
        · simp only [hpc] at hpost
          simp only [hpost] at h
          cases h

/-- The loop does not leave its center. -/
theorem meets_draining {s s' : Loop} {i count : Nat} (hpc : s.pc = .draining i count)
    (h : Loop.Meets drainPass s s') : ∃ count', s'.pc = .draining i count' := by
  apply h.invariant (fun s => ∃ count, s.pc = .draining i count) ⟨count, hpc⟩
  rintro s₁ s₂ - ⟨count₁, hpc₁⟩ hb
  obtain ⟨-, -, -, -, hpc₂, -⟩ := drainPass_again hpc₁ hb
  exact hpc₂

theorem buffered_of_centers {s : Loop} {i count : Nat} {mng : Mng}
    (hpc : s.pc = .draining i count) (hc : s.centers[i]? = some mng) :
    buffered s = mng.ep.recvBuf.length := by
  rw [buffered, hpc]
  dsimp only
  rw [hc]
  rfl

/-- An orderly pass leaves less in the buffer. -/
theorem Orderly.buffered {s s' : Loop} {i count : Nat} (h : Orderly s)
    (hpc : s.pc = .draining i count) (hb : drainPass s = .inl s') :
    MsgLoop.buffered s' < MsgLoop.buffered s := by
  obtain ⟨mng, f, hc, hg, ⟨count', hpc'⟩, hcenters⟩ := drainPass_again hpc hb
  have hset : s'.centers[i]? = some (getOneData mng centerBufLen).mng := by
    rw [hcenters, List.getElem?_set_self (List.getElem?_eq_some_iff.mp hc).1]
  rw [buffered_of_centers hpc hc, buffered_of_centers hpc' hset]
  exact h.shorter i count mng f hpc hc hg

/-- What `GetOneData` takes away is what it gives. -/
theorem getOneData_removes {m : Mng} {n : Nat} {f : List UInt8}
    (h : (getOneData m n).data = some f) :
    m.ep.recvBuf.length = f.length + (getOneData m n).mng.ep.recvBuf.length := by
  obtain ⟨-, hg⟩ | ⟨-, -, -, hg⟩ | ⟨-, hle, -, hg⟩ := getOneData_cases m n
  · rw [hg] at h
    cases h
  · rw [hg] at h
    cases h
  · rw [hg] at h ⊢
    cases h
    simp only [Server.withBuf, List.length_take, List.length_drop]
    omega

/-- A message that is posted behind a whole length word comes from the frame. -/
theorem centerPost_own {buf f : List UInt8} {m : CenterHead × List UInt8} (h4 : 4 ≤ f.length)
    (hword : Bytes.ofLe (f.take 4) = f.length)
    (h : Server.centerPost (Server.copyIn buf f) = some m) : OwnMessage f (serverMsg m) := by
  rw [Server.centerPost_copyIn buf h4 hword] at h
  simp only [Server.centerPost, hword] at h
  split at h
  · cases h
  · next hlen =>
    cases h
    refine ⟨by omega, ?_⟩
    rw [serverMsg, List.take_of_length_le]
    rw [List.length_drop]
    omega

section Draining

variable {s : Loop} {i count : Nat}

/-- The next frame comes from the buffer of the center in turn. -/
theorem nextFrame_eq_some (hpc : s.pc = .draining i count) {f : List UInt8} :
    nextFrame s = some f ↔
      ∃ mng, s.centers[i]? = some mng ∧ (getOneData mng centerBufLen).data = some f := by
  rw [nextFrame, hpc]
  exact Option.bind_eq_some_iff

/-- What is posted is read from `_center_buf`, after the next frame was copied to its front. -/
theorem posts_nextFrame (hpc : s.pc = .draining i count) :
    posts s = (nextFrame s).bind fun f =>
      (Server.centerPost (Server.copyIn s.centerBuf f)).map serverMsg := by
  have hnext : nextFrame s = centerFrame s i := by rw [nextFrame, hpc]
  rw [hnext]
  simp only [posts, hpc]
  cases centerFrame s i with
  | none => rfl
  | some f => rfl

theorem Orderly.prefixed (hpc : s.pc = .draining i count) (h : Orderly s) : Prefixed s := by
  intro f hf
  obtain ⟨mng, hc, hg⟩ := (nextFrame_eq_some hpc).mp hf
  constructor
  · rintro rfl
    have hlen := getOneData_removes hg
    have hlt := h.shorter i count mng [] hpc hc hg
    rw [List.length_nil] at hlen
    omega
  · intro h4
    cases hp : Server.centerPost (Server.copyIn s.centerBuf f) with
    | none => rfl
    | some m =>
      have hm : posts s = some (serverMsg m) := by
        rw [posts_nextFrame hpc, hf, Option.bind_some, hp]
        rfl
      obtain ⟨f', hf', hown, -⟩ := h.own (serverMsg m) hm
      rw [hf] at hf'
      cases hf'
      omega

theorem Prefixed.orderly (hpc : s.pc = .draining i count) (h : Prefixed s) : Orderly s := by
  refine ⟨fun i' count' mng f hpc' hc hg => ?_, fun m hm => ?_⟩
  · have hf : nextFrame s = some f := (nextFrame_eq_some hpc').mpr ⟨mng, hc, hg⟩
    have hlen := getOneData_removes hg
    have hpos := List.length_pos_of_ne_nil (h f hf).1
    omega
  · rw [posts_nextFrame hpc] at hm
    obtain ⟨f, hf, hm⟩ := Option.bind_eq_some_iff.mp hm
    obtain ⟨m, hp, rfl⟩ := Option.map_eq_some_iff.mp hm
    obtain ⟨mng, hc, hg⟩ := (nextFrame_eq_some hpc).mp hf
    have h4 : 4 ≤ f.length := by
      refine Nat.not_lt.mp fun hshort => ?_
      rw [(h f hf).2 hshort] at hp
      cases hp
    exact ⟨f, hf, centerPost_own h4 ((Server.getOneData_word hg).2.1 h4) hp⟩

/-- Whether the next pass is orderly can be read off the frame it finds. -/
theorem orderly_iff (hpc : s.pc = .draining i count) : Orderly s ↔ Prefixed s :=
  ⟨fun h => h.prefixed hpc, fun h => h.orderly hpc⟩

end Draining

/-- The loop over the frames of a center ends, shortens the buffer with every frame and posts only
whole frames, exactly when no frame in it is empty or makes a message of what is left in
`_center_buf`. -/
theorem drain_orderly_iff (s : Loop) (i count : Nat) :
    ((∃ n s', Loop.Ends drainPass { s with pc := .draining i count } n s') ∧
      ∀ s', Loop.Meets drainPass { s with pc := .draining i count } s' → Orderly s') ↔
    ∀ s', Loop.Meets drainPass { s with pc := .draining i count } s' → Prefixed s' := by
  have hpc : ∀ s', Loop.Meets drainPass { s with pc := .draining i count } s' →
      ∃ count', s'.pc = .draining i count' := fun s' hm => meets_draining rfl hm
  constructor
  · rintro ⟨-, h⟩ s' hm
    obtain ⟨count', hpc'⟩ := hpc s' hm
    exact (orderly_iff hpc').mp (h s' hm)
  · intro h
    have horderly : ∀ s', Loop.Meets drainPass { s with pc := .draining i count } s' →
        Orderly s' := by
      intro s' hm
      obtain ⟨count', hpc'⟩ := hpc s' hm
      exact (orderly_iff hpc').mpr (h s' hm)
    obtain ⟨n, s', hends, -⟩ := Loop.ends_of_variant buffered fun s₁ hm s₂ hb => by
      obtain ⟨count₁, hpc₁⟩ := hpc s₁ hm
      exact (horderly s₁ hm).buffered hpc₁ hb
    exact ⟨⟨n, s', hends⟩, horderly⟩

/-- Five zero bytes from a center, and the loop over its frames takes an empty frame for ever. -/
theorem drain_hangs :
    ∃ s, Trace.Run Step Room idle
        [.poll (fun _ => none) (some fun _ => some [.data (List.replicate 5 0)]), pass] s ∧
      s.pc = .draining 0 0 ∧ ¬ ∃ n s', Loop.Ends drainPass s n s' := by
  refine ⟨received (List.replicate 5 0), received_run (by decide) (by decide), rfl, ?_⟩
  apply Loop.not_ends (· = received (List.replicate 5 0)) rfl
  rintro s rfl
  exact ⟨_, rfl, rfl⟩

end MsgLoop
