import Dsf4g.AuthSvr
import Dsf4g.LateDiscon

/-!
# Tokens

`OnAuthorization` in `src/authsvr/db_mng.cpp`, `include/cipher.hpp` and `PlayerLogin` in
`src/hallsvr/msg.cpp`. The authorization server encrypts a uid and the time with its
private key, and the hall server decrypts with the public key what a client presents.
The two share nothing else. The cipher is a parameter.
-/
namespace Tokens

open Base TcpSvr HallSvr

/-! ## The bytes of a token -/

/-- What the compiler leaves behind the two fields of `stAuthToken`. -/
abbrev Padding := { pad : List UInt8 // pad.length = 4 }

def tokenBytes (t : AuthToken) (pad : Padding) : List UInt8 :=
  Bytes.le 8 t.uid.toNat ++ (Bytes.le 4 t.time.toNat ++ pad.val)

def maxRsaTokenLen : Nat := 256

/-- The `memcpy` out of `sztoken`, which is zero behind the plain text. -/
def readToken (plain : List UInt8) : AuthToken :=
  let sztoken := plain ++ List.replicate (maxRsaTokenLen - plain.length) 0
  ⟨UInt64.ofNat (Bytes.ofLe (sztoken.take 8)), UInt32.ofNat (Bytes.ofLe ((sztoken.drop 8).take 4))⟩

theorem readToken_tokenBytes (t : AuthToken) (pad : Padding) :
    readToken (tokenBytes t pad) = t := by
  have hdrop : ∀ zs : List UInt8, ((tokenBytes t pad ++ zs).drop 8).take 4 =
      Bytes.le 4 t.time.toNat := by
    intro zs
    rw [tokenBytes, List.append_assoc, List.drop_left' (Bytes.le_length 8 _), List.append_assoc,
      List.take_left' (Bytes.le_length 4 _)]
  have htake : ∀ zs : List UInt8, (tokenBytes t pad ++ zs).take 8 = Bytes.le 8 t.uid.toNat := by
    intro zs
    rw [tokenBytes, List.append_assoc, List.take_left' (Bytes.le_length 8 _)]
  have huid : t.uid.toNat < 256 ^ 8 := t.uid.toNat_lt
  have htime : t.time.toNat < 256 ^ 4 := t.time.toNat_lt
  simp only [readToken, htake, hdrop, Bytes.ofLe_le_of_lt huid, Bytes.ofLe_le_of_lt htime,
    UInt64.ofNat_toNat, UInt32.ofNat_toNat]

/-- `EncryptWithPriKey` and `DecryptWithPubKey`. -/
structure Rsa where
  encrypt : List UInt8 → Option (List UInt8)
  decrypt : List UInt8 → Option (List UInt8)

/-- The public key undoes what the private key did. -/
def Rsa.Pair (r : Rsa) : Prop :=
  ∀ plain cipher, r.encrypt plain = some cipher → r.decrypt cipher = some plain

def withRsa (c : Codec) (r : Rsa) : Codec :=
  { c with decrypt := fun token => (r.decrypt token).map readToken }

def Expired (t : AuthToken) (now : UInt32) : Prop := t.time + tokenExpireSec ≤ now

/-- A genuine token lets its uid in until it expires, and nobody else. -/
theorem checkToken_encrypted {r : Rsa} (hpair : r.Pair) (c : Codec) {t : AuthToken} {pad : Padding}
    {bytes : List UInt8} (h : r.encrypt (tokenBytes t pad) = some bytes) (uid : UInt64)
    (now : UInt32) :
    checkToken (withRsa c r) uid bytes now = true ↔ t.uid = uid ∧ ¬ Expired t now := by
  have hdec : (withRsa c r).decrypt bytes = some t := by
    change (r.decrypt bytes).map readToken = some t
    rw [hpair _ _ h, Option.map_some, readToken_tokenBytes]
  simp only [checkToken, hdec, Expired, Bool.and_eq_true, beq_iff_eq, Bool.not_eq_true',
    decide_eq_false_iff_not]

/-! ## Both servers -/

structure Issued where
  account : AuthSvr.Account
  token : AuthToken
  bytes : List UInt8

structure Login where
  head : TcpHead
  uid : UInt64
  token : List UInt8
  now : UInt32

structure World where
  auth : AuthSvr.World
  hall : System
  issued : List Issued
  /-- The logins whose token was accepted. -/
  logins : List Login

inductive Event where
  /-- A step of the authorization servers at a time. -/
  | auth (e : AuthSvr.Event) (now : UInt32) (pad : Padding)
  /-- A step of the gateway or of the hall server. -/
  | hall (e : HallSvr.Event)

/-- The end of `OnAuthorization`: without a token the client is told `EN_MESSAGE_SYS_ERR`. -/
def issue (r : Rsa) (now : UInt32) (pad : Padding) (g : AuthSvr.Given) : Option Issued :=
  (r.encrypt (tokenBytes ⟨g.uid, now⟩ pad)).map fun bytes => ⟨g.account, ⟨g.uid, now⟩, bytes⟩

def presented (c : Codec) : HallSvr.Event → Option Login
  | .dispatch (.client head data) now _ =>
    match c.parse data with
    | some ⟨uid, .login token⟩ => some ⟨head, uid.toUInt64, token, now⟩
    | _ => none
  | _ => none

def accepted (c : Codec) (e : HallSvr.Event) : Option Login :=
  (presented c e).filter fun l => checkToken c l.uid l.token l.now

def next (r : Rsa) (c : Codec) (w : World) : Event → Option World
  | .auth e now pad =>
    (AuthSvr.next w.auth e).map fun auth =>
      { w with
        auth := auth
        issued := w.issued ++ (auth.given.drop w.auth.given.length).filterMap (issue r now pad) }
  | .hall e =>
    (HallSvr.step (withRsa c r) w.hall e).map fun hall =>
      { w with hall := hall, logins := w.logins ++ (accepted (withRsa c r) e).toList }

def initial (uid : UInt64) (conf : Conf) (mem : Nat → UInt8) : World :=
  ⟨AuthSvr.initial uid, .initial conf mem, [], []⟩

/-- The authorization servers keep to their order, and a client presents a token that it was given,
or one that does not decrypt. -/
def Guard (r : Rsa) (c : Codec) (w : World) : Event → Prop
  | .auth e _ _ => AuthSvr.Orderly w.auth e
  | .hall e => ∀ l, presented c e = some l →
    l.token ∈ w.issued.map Issued.bytes ∨ r.decrypt l.token = none

/-- Each player is the login of a connection; each accepted login brought a token issued for its uid
less than a day before, to the one account that the uid belongs to; and a token is good for its own
uid until it expires. -/
structure Authorized (r : Rsa) (c : Codec) (w : World) : Prop where
  player : ∀ uid p, w.hall.players.getPlayer uid = some p →
    ∃ l ∈ w.logins, l.uid = uid ∧ l.head = p.tcpHead
  login : ∀ l ∈ w.logins, ∃ i ∈ w.issued, i.bytes = l.token ∧ i.token.uid = l.uid ∧
    ¬ Expired i.token l.now ∧ ∀ j ∈ w.issued, j.token.uid = l.uid ↔ j.account = i.account
  token : ∀ i ∈ w.issued, ∀ uid now,
    checkToken (withRsa c r) uid i.bytes now = true ↔ i.token.uid = uid ∧ ¬ Expired i.token now

/-! ## What a step keeps -/

/-- The authorization servers only add to what they gave. -/
theorem auth_given {w w' : AuthSvr.World} {e : AuthSvr.Event} (h : AuthSvr.next w e = some w') :
    ∃ gs, w'.given = w.given ++ gs := by
  have hsame : ∀ {v : AuthSvr.World}, v.given = w.given → ∃ gs, v.given = w.given ++ gs :=
    fun hv => ⟨[], by rw [hv, List.append_nil]⟩
  cases e with
  | start p fails =>
    cases h
    exact hsame rfl
  | crash p =>
    cases h
    exact hsame rfl
  | request p a =>
    simp only [AuthSvr.next] at h
    split at h
    · cases h
      exact hsame rfl
    · cases h
  | select p fails =>
    simp only [AuthSvr.next] at h
    split at h
    · cases h
      unfold AuthSvr.World.select
      split
      · exact hsame rfl
      · split
        · exact ⟨_, rfl⟩
        · split <;> exact hsame rfl
    · cases h
  | update p fails =>
    simp only [AuthSvr.next] at h
    split at h
    · cases h
      unfold AuthSvr.World.update
      split <;> exact hsame rfl
    · cases h
  | insert p fails =>
    simp only [AuthSvr.next] at h
    split at h
    · cases h
      unfold AuthSvr.World.insert
      split
      · exact hsame rfl
      · split
        · exact hsame rfl
        · exact ⟨_, rfl⟩
    · cases h

theorem accepted_eq_some {c : Codec} {e : HallSvr.Event} {l : Login} :
    accepted c e = some l ↔ presented c e = some l ∧ checkToken c l.uid l.token l.now = true := by
  rw [accepted, Option.filter_eq_some_iff]

/-- The hall server's own account of its logins. -/
theorem loginOf_accepted {c : Codec} {e : HallSvr.Event} {head : TcpHead} {uid : UInt64}
    (h : loginOf c e = some (head, uid)) :
    ∃ l, accepted c e = some l ∧ l.uid = uid ∧ l.head = head := by
  unfold loginOf at h
  split at h
  · next head' data now r =>
    split at h
    · next uid' token hparse =>
      split at h
      · next htoken =>
        obtain ⟨hhead, huid⟩ := Prod.mk.inj (Option.some.inj h)
        refine ⟨⟨head', uid'.toUInt64, token, now⟩, accepted_eq_some.mpr ⟨?_, htoken⟩, huid, hhead⟩
        simp only [presented, hparse]
      · cases h
    · cases h
  · cases h

/-- The tokens are those of the uids that were given, and the logins were made with them. -/
structure Inv (r : Rsa) (c : Codec) (w : World) : Prop where
  auth : ∃ x, AuthSvr.Inv x w.auth
  valid : w.hall.players.Valid
  given : ∀ i ∈ w.issued, ⟨i.account, i.token.uid⟩ ∈ w.auth.given
  bytes : ∀ i ∈ w.issued, ∃ pad, r.encrypt (tokenBytes i.token pad) = some i.bytes
  logins : ∀ l ∈ w.logins, checkToken (withRsa c r) l.uid l.token l.now = true ∧
    ∃ i ∈ w.issued, i.bytes = l.token
  players : ∀ uid p, w.hall.players.getPlayer uid = some p →
    ∃ l ∈ w.logins, l.uid = uid ∧ l.head = p.tcpHead

section Steps

variable {r : Rsa} {c : Codec} {w w' : World}

theorem initial_inv (uid : UInt64) (conf : Conf) (mem : Nat → UInt8) :
    Inv r c (initial uid conf mem) where
  auth := ⟨uid, AuthSvr.initial_inv uid⟩
  valid := HallSvr.initial_valid conf mem
  given := nofun
  bytes := nofun
  logins := nofun
  players := fun uid _ hp => nomatch (initial_getPlayer conf mem uid).symm.trans hp

theorem mem_issue {now : UInt32} {pad : Padding} {gs : List AuthSvr.Given} {i : Issued}
    (h : i ∈ gs.filterMap (issue r now pad)) :
    ⟨i.account, i.token.uid⟩ ∈ gs ∧ r.encrypt (tokenBytes i.token pad) = some i.bytes := by
  obtain ⟨g, hg, hissue⟩ := List.mem_filterMap.mp h
  obtain ⟨bytes, hbytes, rfl⟩ := Option.map_eq_some_iff.mp hissue
  exact ⟨hg, hbytes⟩

theorem Inv.auth_step (hi : Inv r c w) {e : AuthSvr.Event} {now : UInt32} {pad : Padding}
    (hg : AuthSvr.Orderly w.auth e) (hs : next r c w (.auth e now pad) = some w') :
    Inv r c w' := by
  obtain ⟨auth, hauth, rfl⟩ := Option.map_eq_some_iff.mp hs
  obtain ⟨x, hx⟩ := hi.auth
  obtain ⟨gs, hgs⟩ := auth_given hauth
  have hnew : auth.given.drop w.auth.given.length = gs := by rw [hgs, List.drop_left]
  have hcases : ∀ i, i ∈ w.issued ++ (auth.given.drop w.auth.given.length).filterMap
      (issue r now pad) → i ∈ w.issued ∨ i ∈ gs.filterMap (issue r now pad) := by
    intro i h
    rwa [hnew, List.mem_append] at h
  refine ⟨AuthSvr.step_inv hx hg hauth, hi.valid, fun i h => ?_, fun i h => ?_, fun l hl => ?_,
    hi.players⟩
  · rw [hgs]
    obtain h | h := hcases i h
    · exact List.mem_append_left _ (hi.given i h)
    · exact List.mem_append_right _ (mem_issue h).1
  · obtain h | h := hcases i h
    · exact hi.bytes i h
    · exact ⟨pad, (mem_issue h).2⟩
  · obtain ⟨hcheck, i, hmem, hbytes⟩ := hi.logins l hl
    exact ⟨hcheck, i, List.mem_append_left _ hmem, hbytes⟩

/-- A login that is accepted was issued its token. -/
theorem Inv.hall_step (hi : Inv r c w) {e : HallSvr.Event} (hg : Guard r c w (.hall e))
    (hs : next r c w (.hall e) = some w') : Inv r c w' := by
  obtain ⟨hall, hhall, rfl⟩ := Option.map_eq_some_iff.mp hs
  refine ⟨hi.auth, HallSvr.step_valid hi.valid hhall, hi.given, hi.bytes, fun l hl => ?_,
    fun uid p hp => ?_⟩
  · obtain hl | hl := List.mem_append.mp hl
    · exact hi.logins l hl
    · obtain ⟨hpresented, hcheck⟩ := accepted_eq_some.mp (Option.mem_toList.mp hl)
      obtain hmem | hnone := hg l hpresented
      · obtain ⟨i, hmem, hbytes⟩ := List.mem_map.mp hmem
        exact ⟨hcheck, i, hmem, hbytes⟩
      · have hdec : (withRsa c r).decrypt l.token = none := congrArg (Option.map readToken) hnone
        rw [checkToken, hdec] at hcheck
        cases hcheck
  · obtain hold | hlogin := HallSvr.step_players hi.valid hhall hp
    · obtain ⟨l, hl, hlogin⟩ := hi.players uid p hold
      exact ⟨l, List.mem_append_left _ hl, hlogin⟩
    · obtain ⟨l, hl, hlogin⟩ := loginOf_accepted hlogin
      exact ⟨l, List.mem_append_right _ (Option.mem_toList.mpr hl), hlogin⟩

theorem Inv.step (hi : Inv r c w) {e : Event} (hg : Guard r c w e) (hs : next r c w e = some w') :
    Inv r c w' := by
  cases e with
  | auth e now pad => exact hi.auth_step hg hs
  | hall e => exact hi.hall_step hg hs

/-- With a pair of keys the invariant is what is wanted. -/
theorem Inv.authorized (hi : Inv r c w) (hpair : r.Pair) : Authorized r c w := by
  have htoken : ∀ i ∈ w.issued, ∀ uid now,
      checkToken (withRsa c r) uid i.bytes now = true ↔ i.token.uid = uid ∧ ¬ Expired i.token now := by
    intro i h uid now
    obtain ⟨pad, hbytes⟩ := hi.bytes i h
    exact checkToken_encrypted hpair c hbytes uid now
  refine ⟨hi.players, fun l hl => ?_, htoken⟩
  obtain ⟨hcheck, i, hmem, hbytes⟩ := hi.logins l hl
  rw [← hbytes, htoken i hmem] at hcheck
  obtain ⟨huid, hfresh⟩ := hcheck
  obtain ⟨x, hx⟩ := hi.auth
  refine ⟨i, hmem, hbytes, huid, hfresh, fun j hj => ?_⟩
  rw [← huid]
  exact (hx.unique _ (hi.given j hj) _ (hi.given i hmem)).symm

end Steps

/-- When ids stay unique and no client makes up a token, everyone who is in the hall was let in with
a token of an account that is his alone. -/
theorem run_logins_authorized {r : Rsa} (hpair : r.Pair) (c : Codec) (uid : UInt64) (conf : Conf)
    (mem : Nat → UInt8) {es : List Event} {w : World}
    (h : Trace.Run (fun w e w' => next r c w e = some w') (Guard r c) (initial uid conf mem) es w) :
    Authorized r c w :=
  (h.invariant (Inv r c) (initial_inv uid conf mem) fun _ _ _ hi hg hs => hi.step hg hs).authorized
    hpair

/-- A cipher for tokens only, with cipher texts of the right length. -/
def sampleRsa : Rsa where
  encrypt := fun plain =>
    if plain.length = 16 then some (plain.map (· ^^^ 0x5a) ++ List.replicate 240 1) else none
  decrypt := fun cipher =>
    if cipher.length = 256 then some ((cipher.take 16).map (· ^^^ 0x5a)) else none

theorem sampleRsa_pair : sampleRsa.Pair := by
  intro plain cipher h
  have htwice : (fun b : UInt8 => b ^^^ 0x5a) ∘ (fun b : UInt8 => b ^^^ 0x5a) = id := by
    funext b
    rw [Function.comp_apply, UInt8.xor_assoc, UInt8.xor_self, UInt8.xor_zero, id_eq]
  change (if _ then _ else none) = _ at h
  split at h
  · next hlen =>
    obtain rfl := Option.some.inj h
    have hmap : (plain.map (· ^^^ 0x5a)).length = 16 := by rw [List.length_map, hlen]
    change (if _ then _ else none) = _
    rw [if_pos (by rw [List.length_append, hmap, List.length_replicate]), List.take_left' hmap,
      List.map_map, htwice, List.map_id]
  · cases h

/-- A `cs_request_login` of a uid below 128 with a token of 256 bytes. -/
def loginMessage (uid : UInt8) (token : List UInt8) : List UInt8 :=
  [8, uid, 98, 0x83, 2, 10, 0x80, 2] ++ token

def sampleParse : List UInt8 → Option PBCSMsg
  | 8 :: uid :: 98 :: 0x83 :: 2 :: 10 :: 0x80 :: 2 :: token =>
    if uid < 128 ∧ token.length = 256 then some ⟨uid.toUInt32, .login token⟩ else none
  | _ => none

def noPadding : Padding := ⟨List.replicate 4 255, rfl⟩

def sampleToken : List UInt8 := (sampleRsa.encrypt (tokenBytes ⟨7, 1000⟩ noPadding)).getD []

def tokenCodec : Codec := { sampleCodec with parse := sampleParse }

/-- Alice registers, gets her token, and logs in on the first slot. -/
def aliceLogsIn : List Event :=
  [.auth (.start 0 false) 900 noPadding, .auth (.request 0 AuthSvr.alice) 1000 noPadding,
    .auth (.select 0 false) 1000 noPadding, .auth (.update 0 false) 1000 noPadding,
    .auth (.insert 0 false) 1000 noPadding, .hall (sampleAccept 10 1000)] ++
  (travels 1 1000 (loginMessage 7 sampleToken)).map .hall

instance (r : Rsa) (c : Codec) (w : World) : (e : Event) → Decidable (Guard r c w e)
  | .auth e _ _ => inferInstanceAs (Decidable (AuthSvr.Orderly w.auth e))
  | .hall e => inferInstanceAs (Decidable (∀ l, presented c e = some l → _))

theorem run_logins_authorized_alice :
    ∃ w, Trace.Run (fun w e w' => next sampleRsa tokenCodec w e = some w')
        (Guard sampleRsa tokenCodec) (initial 6 sampleConf fun _ => 0) aliceLogsIn w ∧
      (w.hall.players.getPlayer 7).isSome = true ∧ Authorized sampleRsa tokenCodec w := by
  obtain ⟨w, hrun, hplayer⟩ := Trace.exists_run_of_exec (next sampleRsa tokenCodec)
    (Guard sampleRsa tokenCodec) (initial 6 sampleConf fun _ => 0) aliceLogsIn
    (fun w => (w.hall.players.getPlayer 7).isSome = true) (by decide +kernel)
  exact ⟨w, hrun, hplayer, run_logins_authorized sampleRsa_pair tokenCodec 6 sampleConf _ hrun⟩

end Tokens
