import Mathlib.Data.List.Basic
import Mathlib.Data.List.TakeWhile

/-!
# Statements with quoted literals

A literal stands between single quotes. In it a doubled quote is one quote, and a
backslash changes the byte behind it, but before a percent sign or an underscore it
stays. A text that was written around a value may be read as another statement, or as
none when a literal is not closed.
-/
namespace Quoted

def quote : UInt8 := 0x27
def backslash : UInt8 := 0x5c
def percent : UInt8 := 0x25
def underscore : UInt8 := 0x5f

inductive Piece where
  | code (b : UInt8)
  | literal (value : List UInt8)
  deriving DecidableEq, Repr

/-- Where a reader is: outside of literals, in one, behind a quote in one, or behind a backslash in
one, with the value so far. -/
inductive Place where
  | outside
  | inside (v : List UInt8)
  | closing (v : List UInt8)
  | escaped (v : List UInt8)

def unescape (b : UInt8) : List UInt8 :=
  if b = percent ∨ b = underscore then [backslash, b]
  else if b = 0x30 then [0]
  else if b = 0x62 then [0x08]
  else if b = 0x6e then [0x0a]
  else if b = 0x72 then [0x0d]
  else if b = 0x74 then [0x09]
  else if b = 0x5a then [0x1a]
  else [b]

def readAt : Place → List UInt8 → Option (List Piece)
  | .outside, [] => some []
  | .outside, b :: bs =>
    if b = quote then readAt (.inside []) bs else (readAt .outside bs).map (.code b :: ·)
  | .inside _, [] => none
  | .inside v, b :: bs =>
    if b = quote then readAt (.closing v) bs
    else if b = backslash then readAt (.escaped v) bs
    else readAt (.inside (v ++ [b])) bs
  | .closing v, [] => some [.literal v]
  | .closing v, b :: bs =>
    if b = quote then readAt (.inside (v ++ [quote])) bs
    else (readAt .outside bs).map fun ps => .literal v :: .code b :: ps
  | .escaped _, [] => none
  | .escaped v, b :: bs => readAt (.inside (v ++ unescape b)) bs

/-- How a statement is read, `none` when a literal is not closed. -/
def read (text : List UInt8) : Option (List Piece) := readAt .outside text

/-- What `%s` prints of a string: the bytes up to the first that is zero. -/
def cString (s : List UInt8) : List UInt8 := s.takeWhile fun b => b ≠ 0

/-- A value that is read as itself. -/
inductive Verbatim : List UInt8 → Prop
  | nil : Verbatim []
  | byte {b : UInt8} {s : List UInt8} (hquote : b ≠ quote) (hbackslash : b ≠ backslash)
      (hs : Verbatim s) : Verbatim (b :: s)
  | pattern {b : UInt8} {s : List UInt8} (hb : b = percent ∨ b = underscore) (hs : Verbatim s) :
      Verbatim (backslash :: b :: s)

/-! ## Sizes -/

def Piece.size : Piece → Nat
  | .code _ => 1
  | .literal v => v.length + 2

def sizeOf : List Piece → Nat
  | [] => 0
  | p :: ps => p.size + sizeOf ps

/-- What a reader has of the literal it is in. -/
def Place.size : Place → Nat
  | .outside => 0
  | .inside v => v.length + 1
  | .closing v => v.length + 2
  | .escaped v => v.length + 2

theorem sizeOf_append (ps qs : List Piece) : sizeOf (ps ++ qs) = sizeOf ps + sizeOf qs := by
  induction ps with
  | nil => rw [List.nil_append, sizeOf, Nat.zero_add]
  | cons p ps ih => rw [List.cons_append, sizeOf, sizeOf, ih, Nat.add_assoc]

theorem sizeOf_code (bs : List UInt8) : sizeOf (bs.map .code) = bs.length := by
  induction bs with
  | nil => rfl
  | cons b bs ih => rw [List.map_cons, sizeOf, ih, List.length_cons, Piece.size, Nat.add_comm]

theorem unescape_length (b : UInt8) : (unescape b).length ≤ 2 := by
  unfold unescape
  repeat' split
  all_goals simp

theorem unescape_length_other {b : UInt8} (h : ¬ (b = percent ∨ b = underscore)) :
    (unescape b).length = 1 := by
  unfold unescape
  rw [if_neg h]
  repeat' split
  all_goals rfl

/-- No statement is read out of fewer bytes than it needs. -/
theorem sizeOf_le {p : Place} {text : List UInt8} {ps : List Piece} (h : readAt p text = some ps) :
    sizeOf ps ≤ p.size + text.length := by
  induction text generalizing p ps with
  | nil =>
    cases p with
    | outside => cases h; exact Nat.zero_le _
    | inside v => cases h
    | closing v => cases h; exact Nat.le_refl _
    | escaped v => cases h
  | cons b bs ih =>
    cases p with
    | outside =>
      rw [readAt] at h
      split at h
      · have := ih h
        simp only [Place.size, List.length_nil, List.length_cons] at this ⊢
        omega
      · obtain ⟨qs, hqs, rfl⟩ := Option.map_eq_some_iff.mp h
        have := ih hqs
        simp only [Place.size, Piece.size, sizeOf, List.length_cons] at this ⊢
        omega
    | inside v =>
      rw [readAt] at h
      split at h
      · have := ih h
        simp only [Place.size, List.length_cons] at this ⊢
        omega
      · split at h
        · have := ih h
          simp only [Place.size, List.length_cons] at this ⊢
          omega
        · have := ih h
          simp only [Place.size, List.length_append, List.length_cons, List.length_nil] at this ⊢
          omega
    | closing v =>
      rw [readAt] at h
      split at h
      · have := ih h
        simp only [Place.size, List.length_append, List.length_cons, List.length_nil] at this ⊢
        omega
      · obtain ⟨qs, hqs, rfl⟩ := Option.map_eq_some_iff.mp h
        have := ih hqs
        simp only [Place.size, Piece.size, sizeOf, List.length_cons] at this ⊢
        omega
    | escaped v =>
      have := ih h
      have hle := unescape_length b
      simp only [Place.size, List.length_append, List.length_cons] at this ⊢
      omega

/-! ## Values between quotes -/

theorem readAt_code {pre : List UInt8} (hpre : quote ∉ pre) (text : List UInt8) :
    readAt .outside (pre ++ text) = (readAt .outside text).map (pre.map .code ++ ·) := by
  induction pre with
  | nil => simp
  | cons b pre ih =>
    rw [List.mem_cons, not_or] at hpre
    rw [List.cons_append, readAt, if_neg (Ne.symm hpre.1), ih hpre.2, Option.map_map]
    rfl

theorem readAt_code_all {post : List UInt8} (hpost : quote ∉ post) :
    readAt .outside post = some (post.map .code) := by
  have h := readAt_code hpost []
  rw [List.append_nil] at h
  rw [h, readAt, Option.map_some, List.append_nil]

theorem readAt_closing {post : List UInt8} (hpost : quote ∉ post) (v : List UInt8) :
    readAt (.closing v) post = some (.literal v :: post.map .code) := by
  cases post with
  | nil => rfl
  | cons b post =>
    rw [List.mem_cons, not_or] at hpost
    rw [readAt, if_neg (Ne.symm hpost.1), readAt_code_all hpost.2]
    rfl

/-- A place and a text that are too short for a value and what stands behind it. -/
theorem readAt_ne {p : Place} {text v post : List UInt8}
    (h : p.size + text.length < v.length + 2 + post.length) :
    readAt p text ≠ some (.literal v :: post.map .code) := by
  intro he
  have hle := sizeOf_le he
  simp only [sizeOf, Piece.size, sizeOf_code] at hle
  omega

/-- A quote in a value ends it, or takes two bytes for one. -/
theorem readAt_quote_ne (s v post : List UInt8) :
    readAt (.closing v) (s ++ quote :: post) ≠
      some (.literal (v ++ quote :: s) :: post.map .code) := by
  cases s with
  | nil =>
    rw [List.nil_append, readAt, if_pos rfl]
    apply readAt_ne
    simp only [Place.size, List.length_append, List.length_cons, List.length_nil]
    omega
  | cons c s =>
    rw [List.cons_append, readAt]
    by_cases hc : c = quote
    · rw [if_pos hc]
      apply readAt_ne
      simp only [Place.size, List.length_append, List.length_cons, List.length_nil]
      omega
    · rw [if_neg hc]
      intro h
      obtain ⟨qs, -, hqs⟩ := Option.map_eq_some_iff.mp h
      injection hqs with hv
      injection hv with hv
      have hlen := congrArg List.length hv
      simp only [List.length_append, List.length_cons] at hlen
      omega

/-- A backslash in a value takes two bytes for one, but before a percent sign or an underscore. -/
theorem readAt_escaped_ne {c : UInt8} (hc : ¬ (c = percent ∨ c = underscore)) (s v post : List UInt8) :
    readAt (.escaped v) (c :: s ++ quote :: post) ≠
      some (.literal (v ++ backslash :: c :: s) :: post.map .code) := by
  rw [List.cons_append, readAt]
  apply readAt_ne
  simp only [Place.size, List.length_append, unescape_length_other hc, List.length_cons]
  omega

/-- A value is read as itself up to the closing quote exactly when it is verbatim. -/
theorem readAt_inside_iff {post : List UInt8} (hpost : quote ∉ post) : ∀ (s v : List UInt8),
    readAt (.inside v) (s ++ quote :: post) = some (.literal (v ++ s) :: post.map .code) ↔
      Verbatim s
  | [], v => by
    rw [List.nil_append, readAt, if_pos rfl, readAt_closing hpost, List.append_nil]
    exact iff_of_true rfl .nil
  | b :: s, v => by
    rw [List.cons_append, readAt]
    by_cases hquote : b = quote
    · rw [if_pos hquote, hquote]
      refine iff_of_false (readAt_quote_ne s v post) fun h => ?_
      cases h with
      | byte hq => exact hq rfl
    rw [if_neg hquote]
    by_cases hback : b = backslash
    · rw [if_pos hback, hback]
      cases s with
      | nil =>
        rw [List.nil_append, readAt]
        refine iff_of_false (readAt_ne ?_) fun h => ?_
        · have hone : (unescape quote).length = 1 := rfl
          simp only [Place.size, List.length_append, hone, List.length_cons, List.length_nil]
          omega
        · cases h with
          | byte _ hb => exact hb rfl
      | cons c s =>
        by_cases hc : c = percent ∨ c = underscore
        · have ih := readAt_inside_iff hpost s (v ++ [backslash, c])
          rw [List.append_assoc] at ih
          rw [List.cons_append, readAt, unescape, if_pos hc]
          refine ih.trans ⟨.pattern hc, fun h => ?_⟩
          cases h with
          | byte _ hb => exact absurd rfl hb
          | pattern _ hs => exact hs
        · refine iff_of_false (readAt_escaped_ne hc s v post) fun h => ?_
          cases h with
          | byte _ hb => exact hb rfl
          | pattern hp => exact hc hp
    · rw [if_neg hback]
      have ih := readAt_inside_iff hpost s (v ++ [b])
      rw [List.append_assoc, List.singleton_append] at ih
      refine ih.trans ⟨.byte hquote hback, fun h => ?_⟩
      cases h with
      | byte _ _ hs => exact hs
      | pattern => exact absurd rfl hback

/-! ## Statements printed around a value -/

def around (pre value post : List UInt8) : List UInt8 := pre ++ quote :: value ++ quote :: post

def meant (pre value post : List UInt8) : List Piece :=
  pre.map .code ++ .literal value :: post.map .code

theorem around_length (pre value post : List UInt8) :
    (around pre value post).length = pre.length + value.length + post.length + 2 := by
  simp only [around, List.length_append, List.length_cons]
  omega

theorem sizeOf_meant (pre value post : List UInt8) :
    sizeOf (meant pre value post) = (around pre value post).length := by
  rw [around_length, meant, sizeOf_append, sizeOf_code, sizeOf, sizeOf_code, Piece.size]
  omega

theorem cString_eq_iff (s : List UInt8) : cString s = s ↔ (0 : UInt8) ∉ s := by
  rw [cString, List.takeWhile_eq_self_iff]
  simp only [decide_eq_true_eq]
  exact ⟨fun h hz => h 0 hz rfl, fun h b hb hz => h (hz ▸ hb)⟩

theorem read_around_iff {pre post : List UInt8} (hpre : quote ∉ pre) (hpost : quote ∉ post)
    (s : List UInt8) : read (around pre s post) = some (meant pre s post) ↔ Verbatim s := by
  have hin := readAt_inside_iff hpost s []
  rw [List.nil_append] at hin
  rw [read, around, List.append_assoc, readAt_code hpre, List.cons_append, readAt, if_pos rfl, ← hin,
    meant, Option.map_eq_some_iff]
  constructor
  · rintro ⟨ps, hps, heq⟩
    rw [hps, List.append_cancel_left heq]
  · intro h
    exact ⟨_, h, rfl⟩

/-- A statement printed around a value and cut to `n` bytes is read as it is meant exactly when the
value is read as itself and has no zero byte, and the whole text fits. -/
theorem read_cut_iff {pre post : List UInt8} (hpre : quote ∉ pre) (hpost : quote ∉ post)
    (s : List UInt8) (n : Nat) :
    read ((around pre (cString s) post).take n) = some (meant pre s post) ↔
      Verbatim s ∧ (0 : UInt8) ∉ s ∧ (around pre s post).length ≤ n := by
  have hshort : (cString s).length ≤ s.length := (List.takeWhile_prefix _).length_le
  constructor
  · intro h
    have hle := sizeOf_le h
    rw [sizeOf_meant, List.length_take, Place.size, around_length, around_length] at hle
    have hlen : (cString s).length = s.length := by omega
    have hsame : cString s = s := (List.takeWhile_prefix _).eq_of_length hlen
    have hfits : (around pre s post).length ≤ n := by
      rw [around_length]
      omega
    rw [hsame, List.take_of_length_le hfits] at h
    exact ⟨(read_around_iff hpre hpost s).mp h, (cString_eq_iff s).mp hsame, hfits⟩
  · rintro ⟨hs, hz, hfits⟩
    rw [(cString_eq_iff s).mpr hz, List.take_of_length_le hfits]
    exact (read_around_iff hpre hpost s).mpr hs

end Quoted
