import Dsf4g.Base
import Dsf4g.ShmPipeShared
import Dsf4g.Tables

/-!
# How the pipes come into being

`TcpSvr::InitShmPipe` in `src/tcpsvr/tcpsvr.cpp`, `Server::InitCsPipe` in `core/server.cpp`,
`include/share_mem.hpp` and the constructor of `ShmPipe`. The gateway and the logic server
each look whether a segment is there, create it, attach it, and lay a pipe over it. Either
may stop at any of these steps and start anew.
-/
namespace PipeStartup

open Base ShmPipe

/-! ## Segments -/

inductive Key where
  | cs | sc
  deriving DecidableEq, Repr

inductive Role where
  | gateway | logic
  deriving DecidableEq, Repr

def Role.other : Role → Role
  | .gateway => .logic
  | .logic => .gateway

def csPipeSize : Nat := 1024
def scPipeSize : Nat := 4096

/-- What is left of a segment behind `sizeof(ShmPipe)`. -/
def ringSize : Key → Nat
  | .cs => csPipeSize * tcpBufLen
  | .sc => scPipeSize * tcpBufLen

def pipeHeadLen : Nat := 12

def writes : Role → Key → Bool
  | .gateway, .cs | .logic, .sc => true
  | .gateway, .sc | .logic, .cs => false

structure Segment where
  key : Key
  shared : Shared

def freshShared : Shared := ⟨⟨0, 0, 0, fun _ => 0⟩, .idle, .idle, [], []⟩

/-! ## Processes -/

/-- How far a process has come with a key. `exist` is what `IsExist` has answered. -/
inductive Link where
  | unseen
  | seen (exist : Bool)
  | created (exist : Bool)
  | attached (exist : Bool) (seg : Option Nat)
  /-- The pipe is constructed. -/
  | opened (seg : Nat)
  deriving DecidableEq, Repr

def Link.isOpen : Link → Bool
  | .opened _ => true
  | _ => false

def Link.isAttached : Link → Bool
  | .attached _ seg => seg.isSome
  | _ => false

def Link.tried : Link → Bool
  | .attached _ _ => true
  | _ => false

/-- The kernel and both processes. Segments are numbered as they are created. -/
structure World where
  key : Key → Option Nat
  made : Nat
  segment : Nat → Segment
  proc : Role → Option (Key → Link)
  /-- Not a part of the system: some process has given up. -/
  failed : Bool

def World.initial : World := ⟨fun _ => none, 0, fun _ => ⟨.cs, freshShared⟩, fun _ => none, false⟩

def World.link (w : World) (r : Role) (k : Key) : Option Link := (w.proc r).map fun links => links k

def running (links : Key → Link) : Bool := (links .cs).isOpen && (links .sc).isOpen

def World.starting (w : World) (r : Role) : Bool := (w.proc r).any fun links => !running links

def World.setLink (w : World) (r : Role) (k : Key) (l : Link) : World :=
  { w with proc := Function.update w.proc r ((w.proc r).map fun links => Function.update links k l) }

def World.stop (w : World) (r : Role) : World := { w with proc := Function.update w.proc r none }

/-- `ShareMem::Delete`, with the answer of `shmctl`. Whoever has the segment attached keeps it. -/
def World.delete (w : World) (k : Key) (ok : Bool) : World :=
  if ok then { w with key := Function.update w.key k none } else w

/-- `ShareMem::Create`, with the answer of the kernel. A segment under the key stays. -/
def World.create (w : World) (k : Key) (ok : Bool) : World :=
  match w.key k with
  | some _ => w
  | none =>
    if ok then
      { w with
        key := Function.update w.key k (some w.made)
        made := w.made + 1
        segment := Function.update w.segment w.made ⟨k, freshShared⟩ }
    else w

def World.setShared (w : World) (g : Nat) (s : Shared) : World :=
  { w with segment := Function.update w.segment g { w.segment g with shared := s } }

def reuse (size : Nat) (writer : Bool) (s : Shared) : Shared :=
  if writer then { s with pipe := { s.pipe with size := size }, producer := .idle }
  else { s with pipe := { s.pipe with size := size }, consumer := .idle }

/-- `Initialize`, or `Reuse`. -/
def construct (exist : Bool) (size : Nat) (writer : Bool) (s : Shared) : Shared :=
  reuse size writer (if exist then s else { s with pipe := pipeInitialize size s.pipe.buf })

def World.byteSize (w : World) (k : Key) : Nat :=
  match w.key k with
  | none => 0
  | some g => pipeHeadLen + ringSize (w.segment g).key

/-- The two calls of `Delete` in `InitCsPipe`, and the one in `InitShmPipe`. -/
def World.giveUp (w : World) (r : Role) (links : Key → Link) (cs sc : Bool) : World :=
  let w := { w.stop r with failed := true }
  match r with
  | .logic => (w.delete .cs cs).delete .sc sc
  | .gateway =>
    if (links .cs).isAttached then w.delete .cs cs
    else if (links .sc).isAttached then w.delete .sc sc
    else w

def turn (links : Key → Link) : Key → Bool
  | .cs => true
  | .sc => (links .cs).tried

def ready (links : Key → Link) : Key → Bool
  | .cs => (links .sc).isAttached
  | .sc => (links .cs).isOpen

def calls (writer : Bool) : SharedEvent → Bool
  | .append _ | .producer => writer
  | .get _ | .consumer => !writer
  | .producerRestart | .consumerRestart => false

inductive Event where
  | start (r : Role)
  /-- A process is gone, wherever it was. -/
  | stop (r : Role)
  | isExist (r : Role) (k : Key)
  | create (r : Role) (k : Key) (ok : Bool)
  | attach (r : Role) (k : Key) (ok : Bool)
  /-- `cs` and `sc` are the answers to the calls of `Delete`. -/
  | giveUp (r : Role) (cs sc : Bool)
  | construct (r : Role) (k : Key)
  | call (r : Role) (k : Key) (e : SharedEvent)

def World.act (w : World) (links : Key → Link) : Event → Option World
  | .start _ => none
  | .stop r => some (w.stop r)
  | .isExist r k =>
    if links k = .unseen ∧ turn links k then some (w.setLink r k (.seen (w.key k).isSome)) else none
  | .create r k ok =>
    match links k with
    | .seen exist =>
      some ((if exist then w else w.create k ok).setLink r k (.created exist))
    | _ => none
  | .attach r k ok =>
    match links k with
    | .created exist =>
      some (w.setLink r k (.attached exist (if ok then w.key k else none)))
    | _ => none
  | .giveUp r cs sc =>
    if (links .cs).tried ∧ (links .sc).tried ∧
        ¬ ((links .cs).isAttached ∧ (links .sc).isAttached) then
      some (w.giveUp r links cs sc)
    else none
  | .construct r k =>
    match links k with
    | .attached exist (some g) =>
      if ready links k then
        -- `operator new` returns `NULL`, and the constructor writes there
        if pipeHeadLen > w.byteSize k then some (w.stop r)
        else
          let s := construct exist (w.byteSize k - pipeHeadLen) (writes r k) (w.segment g).shared
          some ((w.setShared g s).setLink r k (.opened g))
      else none
    | _ => none
  | .call r k e =>
    match links k with
    | .opened g =>
      if running links ∧ calls (writes r k) e then
        (sharedStep (w.segment g).shared.pipe.size (w.segment g).shared e).map (w.setShared g)
      else none
    | _ => none

def Event.role : Event → Role
  | .start r | .stop r | .isExist r _ | .create r _ _ | .attach r _ _ | .giveUp r _ _ | .construct r _
  | .call r _ _ => r

def step (w : World) (e : Event) : Option World :=
  match w.proc e.role with
  | some links => w.act links e
  | none =>
    match e with
    | .start r => some { w with proc := Function.update w.proc r (some fun _ => .unseen) }
    | _ => none

def Step (w : World) (e : Event) (w' : World) : Prop := step w e = some w'

/-- No process starts while the other one does. -/
def Apart (w : World) : Event → Prop
  | .start r => w.starting r.other = false
  | _ => True

instance (w : World) (e : Event) : Decidable (Apart w e) := by
  cases e <;> unfold Apart <;> infer_instance

/-! ## What holds of segments and links -/

def Reached (x : Segment) : Prop := ∃ q, SharedOk (ringSize x.key) x.shared q

theorem ringSize_pos (k : Key) : 1 ≤ ringSize k := by cases k <;> decide

theorem ringSize_le (k : Key) : ringSize k ≤ 2 ^ 31 := by cases k <;> decide

theorem not_reached_fresh {x : Segment} (hx : x.shared = freshShared) : ¬ Reached x := by
  rintro ⟨q, hq⟩
  have hsize := hq.size
  rw [hx] at hsize
  have hpos := ringSize_pos x.key
  rw [← hsize] at hpos
  exact absurd hpos (by decide)

/-- Attaching again is the restart of that side of the pipe. -/
theorem reuse_eq (size : Nat) (writer : Bool) (s : Shared) :
    SharedStep size s (if writer then .producerRestart else .consumerRestart)
      (reuse size writer s) := by
  cases writer <;> rfl

/-- `Reuse` over the zeros of a new segment does what `Initialize` does. -/
theorem construct_fresh (exist : Bool) (size : Nat) (writer : Bool) :
    construct exist size writer freshShared = Shared.initial size fun _ => 0 := by
  cases exist <;> cases writer <;> rfl

/-- Behind the constructor the pipe is one that its calls can reach. -/
theorem construct_reached {x : Segment} (hx : x.shared = freshShared ∨ Reached x) {exist : Bool}
    (hexist : exist = false → x.shared = freshShared) (writer : Bool) :
    Reached { x with shared := construct exist (ringSize x.key) writer x.shared } := by
  have hnew : x.shared = freshShared →
      Reached { x with shared := construct exist (ringSize x.key) writer x.shared } := by
    intro hfresh
    refine ⟨[], ?_⟩
    rw [hfresh, construct_fresh]
    exact ⟨rfl, rfl, initialize_represents _ _ (ringSize_pos x.key) (ringSize_le x.key), trivial,
      trivial⟩
  cases exist with
  | false => exact hnew (hexist rfl)
  | true =>
    obtain hfresh | ⟨q, hq⟩ := hx
    · exact hnew hfresh
    · exact sharedOk_step hq (reuse_eq (ringSize x.key) writer x.shared)

def LinkOk (w : World) (k : Key) : Link → Prop
  | .seen false => w.key k = none
  | .created false => ∀ g, w.key k = some g → (w.segment g).shared = freshShared
  | .attached exist (some g) => w.key k = some g ∧
      (exist = false → (w.segment g).shared = freshShared)
  | .opened g => g < w.made ∧ (w.segment g).key = k ∧ Reached (w.segment g)
  | .unseen | .seen true | .created true | .attached _ none => True

structure Good (w : World) : Prop where
  keyed : ∀ k g, w.key k = some g → g < w.made ∧ (w.segment g).key = k
  kept : ∀ g, g < w.made → (w.segment g).shared = freshShared ∨ Reached (w.segment g)
  apart : ∀ r, w.starting r = true → w.starting r.other = false
  links : ∀ r k l, w.link r k = some l → LinkOk w k l
  shared : w.failed = false → ∀ r k g, w.link r k = some (.opened g) → w.key k = some g

theorem initial_good : Good World.initial := by
  refine ⟨?_, ?_, ?_, ?_, ?_⟩
  · intro k g hg
    cases hg
  · intro g hg
    exact absurd hg (Nat.not_lt_zero g)
  · intro r hr
    cases hr
  · intro r k l hl
    cases hl
  · intro _ r k g hl
    cases hl

/-! ### Processes one by one -/

section Processes

variable {w w' : World} {r r' : Role} {k k' : Key} {l l' : Link} {links : Key → Link}

theorem Role.other_ne (r : Role) : r.other ≠ r := by cases r <;> decide

theorem Role.eq_or_other (r r' : Role) : r' = r ∨ r' = r.other := by
  cases r <;> cases r' <;> decide

theorem link_eq (h : w.proc r = some links) (k : Key) : w.link r k = some (links k) := by
  simp only [World.link, h, Option.map_some]

theorem starting_of_link (h : w.proc r = some links) (hk : (links k).isOpen = false) :
    w.starting r = true := by
  simp only [World.starting, h, Option.any_some, running]
  cases k <;> simp only [hk, Bool.false_and, Bool.and_false, Bool.not_false]

theorem opened_of_running (h : running links = true) (k : Key) : ∃ g, links k = .opened g := by
  have hopen : (links k).isOpen = true := by
    obtain ⟨hcs, hsc⟩ := Bool.and_eq_true_iff.mp h
    cases k
    · exact hcs
    · exact hsc
  cases hl : links k with
  | opened g => exact ⟨g, rfl⟩
  | unseen | seen | created | attached =>
    rw [hl] at hopen
    cases hopen

/-- A process that has started has both pipes. -/
theorem opened_of_not_starting (h : w.starting r = false) (hl : w.link r k = some l) :
    ∃ g, l = .opened g := by
  obtain ⟨links, hproc, rfl⟩ := Option.map_eq_some_iff.mp hl
  simp only [World.starting, hproc, Option.any_some, Bool.not_eq_false'] at h
  exact opened_of_running h k

theorem link_congr (h : w'.proc r = w.proc r) (k : Key) : w'.link r k = w.link r k := by
  rw [World.link, World.link, h]

theorem starting_congr (h : w'.proc r = w.proc r) : w'.starting r = w.starting r := by
  rw [World.starting, World.starting, h]

theorem setLink_other (w : World) (r : Role) (k : Key) (l : Link) :
    (w.setLink r k l).proc r.other = w.proc r.other :=
  Function.update_of_ne r.other_ne ..

theorem setLink_link (h : w.proc r = some links) (hl : (w.setLink r k l).link r k' = some l') :
    k' = k ∧ l' = l ∨ k' ≠ k ∧ l' = links k' := by
  have hproc : (w.setLink r k l).proc r = some (Function.update links k l) := by
    simp only [World.setLink, Function.update_self, h, Option.map_some]
  rw [link_eq hproc] at hl
  cases hl
  by_cases he : k' = k
  · subst he
    exact .inl ⟨rfl, Function.update_self ..⟩
  · exact .inr ⟨he, Function.update_of_ne he ..⟩

structure Grows (w w' : World) : Prop where
  made : w.made ≤ w'.made
  key : ∀ g, g < w.made → (w'.segment g).key = (w.segment g).key
  reached : ∀ g, g < w.made → Reached (w.segment g) → Reached (w'.segment g)

/-- A process keeps the segments it has attached. -/
theorem Grows.opened (h : Grows w w') {g : Nat} (hl : LinkOk w k (.opened g)) :
    LinkOk w' k (.opened g) := by
  obtain ⟨hlt, hkey, hreached⟩ := hl
  exact ⟨Nat.lt_of_lt_of_le hlt h.made, (h.key g hlt).trans hkey, h.reached g hlt hreached⟩

/-- A link stays good when nothing happens to its key. -/
theorem Grows.link (h : Grows w w') (hkey : w'.key k = w.key k)
    (hfresh : ∀ g, w.key k = some g → (w.segment g).shared = freshShared →
      (w'.segment g).shared = freshShared) (hl : LinkOk w k l) : LinkOk w' k l := by
  cases l with
  | unseen => trivial
  | seen exist =>
    cases exist with
    | false => exact hkey.trans hl
    | true => trivial
  | created exist =>
    cases exist with
    | false =>
      intro g hg
      rw [hkey] at hg
      exact hfresh g hg (hl g hg)
    | true => trivial
  | attached exist seg =>
    cases seg with
    | none => trivial
    | some g => exact ⟨hkey.trans hl.1, fun he => hfresh g hl.1 (hl.2 he)⟩
  | opened g => exact h.opened hl

/-- A step of a process that starts. The other one does not. -/
theorem Good.begins (h : Good w) (hstart : w.starting r = true)
    (hother : w'.proc r.other = w.proc r.other) (hgrows : Grows w w')
    (hkeyed : ∀ k g, w'.key k = some g → g < w'.made ∧ (w'.segment g).key = k)
    (hkept : ∀ g, g < w'.made → (w'.segment g).shared = freshShared ∨ Reached (w'.segment g))
    (hown : ∀ k l, w'.link r k = some l → LinkOk w' k l)
    (hshared : w'.failed = false → w.failed = false ∧
      (∀ k g, w.key k = some g → w'.key k = some g) ∧
      ∀ k g, w'.link r k = some (.opened g) → w'.key k = some g) : Good w' := by
  have hidle := h.apart r hstart
  have hidle' : w'.starting r.other = false := (starting_congr hother).trans hidle
  refine ⟨hkeyed, hkept, fun r' hr' => ?_, fun r' k l hl => ?_, fun hf r' k g hl => ?_⟩
  · obtain rfl | rfl := r.eq_or_other r'
    · exact hidle'
    · rw [hidle'] at hr'
      cases hr'
  · obtain rfl | rfl := r.eq_or_other r'
    · exact hown k l hl
    · rw [link_congr hother] at hl
      obtain ⟨g, rfl⟩ := opened_of_not_starting hidle hl
      exact hgrows.opened (h.links _ k _ hl)
  · obtain ⟨hf, hkey, hopen⟩ := hshared hf
    obtain rfl | rfl := r.eq_or_other r'
    · exact hopen k g hl
    · rw [link_congr hother] at hl
      exact hkey k g (h.shared hf _ k g hl)

end Processes

/-! ### Steps -/

section Steps

variable {w w' : World} {r : Role} {k : Key} {links : Key → Link}

theorem Grows.refl (w : World) : Grows w w :=
  ⟨Nat.le_refl _, fun _ _ => rfl, fun _ _ hreached => hreached⟩

theorem Grows.setLink (h : Grows w w') (r : Role) (k : Key) (l : Link) :
    Grows w (w'.setLink r k l) := ⟨h.made, h.key, h.reached⟩

/-- A process has only looked. -/
theorem Good.setLink (h : Good w) (hproc : w.proc r = some links) (hopen : (links k).isOpen = false)
    {l : Link} (hl : LinkOk w k l) (hnew : l.isOpen = false) : Good (w.setLink r k l) := by
  refine h.begins (starting_of_link hproc hopen) (setLink_other w r k l) ((Grows.refl w).setLink r k l)
    h.keyed h.kept (fun k' l' hl' => ?_) fun hf => ⟨hf, fun _ _ hg => hg, fun k' g hl' => ?_⟩
  · obtain ⟨rfl, rfl⟩ | ⟨-, rfl⟩ := setLink_link hproc hl'
    · exact hl
    · exact h.links r k' _ (link_eq hproc k')
  · obtain ⟨rfl, rfl⟩ | ⟨-, hold⟩ := setLink_link hproc hl'
    · cases hnew
    · exact h.shared hf r k' g (hold ▸ link_eq hproc k')

/-- A new segment under `k`. -/
def World.laid (w : World) (k : Key) : World :=
  { w with
    key := Function.update w.key k (some w.made)
    made := w.made + 1
    segment := Function.update w.segment w.made ⟨k, freshShared⟩ }

/-- What `Create` leaves. -/
theorem create_cases (w : World) (k : Key) (ok : Bool) :
    w.create k ok = w ∨ w.key k = none ∧ w.create k ok = w.laid k := by
  cases hkey : w.key k with
  | some g => exact .inl (by simp only [World.create, hkey])
  | none =>
    cases ok with
    | false => exact .inl (by simp only [World.create, hkey, Bool.false_eq_true, if_false])
    | true => exact .inr ⟨rfl, by simp only [World.create, World.laid, hkey, if_true]⟩

theorem laid_key_self (w : World) (k : Key) : (w.laid k).key k = some w.made :=
  Function.update_self ..

theorem laid_key_other {k' : Key} (hne : k' ≠ k) : (w.laid k).key k' = w.key k' :=
  Function.update_of_ne hne ..

theorem laid_segment_self (w : World) (k : Key) : (w.laid k).segment w.made = ⟨k, freshShared⟩ :=
  Function.update_self ..

theorem laid_segment_old {g : Nat} (hlt : g < w.made) : (w.laid k).segment g = w.segment g :=
  Function.update_of_ne (Nat.ne_of_lt hlt) ..

theorem Grows.laid (w : World) (k : Key) : Grows w (w.laid k) := by
  refine ⟨Nat.le_succ _, fun g hlt => ?_, fun g hlt hreached => ?_⟩
  · rw [laid_segment_old hlt]
  · rw [laid_segment_old hlt]
    exact hreached

theorem Good.laid_keyed (h : Good w) (k' : Key) (g : Nat) (hg : (w.laid k).key k' = some g) :
    g < (w.laid k).made ∧ ((w.laid k).segment g).key = k' := by
  obtain ⟨rfl, he⟩ | ⟨-, hg⟩ := HandOver.update_eq_some hg
  · cases he
    exact ⟨Nat.lt_succ_self _, congrArg Segment.key (laid_segment_self w k')⟩
  · obtain ⟨hlt, hkey⟩ := h.keyed k' g hg
    exact ⟨Nat.lt_succ_of_lt hlt, ((Grows.laid w k).key g hlt).trans hkey⟩

theorem Good.laid_kept (h : Good w) (g : Nat) (hlt : g < (w.laid k).made) :
    ((w.laid k).segment g).shared = freshShared ∨ Reached ((w.laid k).segment g) := by
  obtain hlt | rfl := Nat.lt_succ_iff_lt_or_eq.mp hlt
  · rw [laid_segment_old hlt]
    exact h.kept g hlt
  · exact .inl (congrArg Segment.shared (laid_segment_self w k))

/-- The process that has laid a segment knows it as new. -/
theorem Good.laid_links (h : Good w) (hproc : w.proc r = some links) (k' : Key) (l : Link)
    (hl : ((w.laid k).setLink r k (.created false)).link r k' = some l) :
    LinkOk ((w.laid k).setLink r k (.created false)) k' l := by
  obtain ⟨rfl, rfl⟩ | ⟨hne, rfl⟩ := setLink_link (w := w.laid k) hproc hl
  · intro g hg
    obtain rfl := Option.some.inj ((laid_key_self w k').symm.trans hg)
    exact congrArg Segment.shared (laid_segment_self w k')
  · refine ((Grows.laid w k).setLink r k (.created false)).link (laid_key_other hne)
      (fun g hg hfresh => ?_) (h.links r k' _ (link_eq hproc k'))
    change ((w.laid k).segment g).shared = _
    rw [laid_segment_old (h.keyed k' g hg).1]
    exact hfresh

/-- A segment is laid under a key that had none. -/
theorem Good.laid (h : Good w) (hproc : w.proc r = some links) (hopen : (links k).isOpen = false)
    (hnone : w.key k = none) : Good ((w.laid k).setLink r k (.created false)) := by
  refine h.begins (starting_of_link hproc hopen) (setLink_other (w.laid k) r k _)
    ((Grows.laid w k).setLink r k _) h.laid_keyed h.laid_kept (h.laid_links hproc)
    fun hf => ⟨hf, fun k' g hg => ?_, fun k' g hl => ?_⟩
  · have hne : k' ≠ k := by
      rintro rfl
      cases hnone.symm.trans hg
    exact (laid_key_other hne).trans hg
  · obtain ⟨rfl, he⟩ | ⟨hne, he⟩ := setLink_link (w := w.laid k) hproc hl
    · cases he
    · exact (laid_key_other hne).trans (h.shared hf r k' g (he ▸ link_eq hproc k'))

/-- A segment is laid when `IsExist` has found none. -/
theorem Good.create (h : Good w) (hproc : w.proc r = some links) {exist : Bool}
    (hseen : links k = .seen exist) (ok : Bool) :
    Good ((if exist then w else w.create k ok).setLink r k (.created exist)) := by
  have hopen : (links k).isOpen = false := by
    rw [hseen]
    rfl
  cases exist with
  | true => exact h.setLink hproc hopen trivial rfl
  | false =>
    have hnone : w.key k = none := by
      have hok := h.links r k _ (link_eq hproc k)
      rw [hseen] at hok
      exact hok
    rw [if_neg Bool.false_ne_true]
    obtain hsame | ⟨-, hmade⟩ := create_cases w k ok
    · rw [hsame]
      refine h.setLink hproc hopen (fun g hg => ?_) rfl
      cases hnone.symm.trans hg
    · rw [hmade]
      exact h.laid hproc hopen hnone

/-- Attaching changes no segment. -/
theorem Good.attach (h : Good w) (hproc : w.proc r = some links) {exist : Bool}
    (hcreated : links k = .created exist) (ok : Bool) :
    Good (w.setLink r k (.attached exist (if ok then w.key k else none))) := by
  have hopen : (links k).isOpen = false := by
    rw [hcreated]
    rfl
  refine h.setLink hproc hopen ?_ rfl
  cases ok with
  | false => trivial
  | true =>
    rw [if_pos rfl]
    cases hkey : w.key k with
    | none => trivial
    | some g =>
      refine ⟨hkey, fun hexist => ?_⟩
      have hok := h.links r k _ (link_eq hproc k)
      rw [hcreated, hexist] at hok
      exact hok g hkey

/-- A process is gone, and with it some keys. -/
theorem Good.leave (h : Good w) {w' : World} (hproc : w'.proc = Function.update w.proc r none)
    (hkey : ∀ k g, w'.key k = some g → w.key k = some g) (hmade : w'.made = w.made)
    (hsegment : w'.segment = w.segment)
    (hkeys : w'.failed = false → w.failed = false ∧ w'.key = w.key)
    (hstart : w.starting r = true ∨ w'.key = w.key) : Good w' := by
  have hself : w'.proc r = none := by
    rw [hproc]
    exact Function.update_self ..
  have hother : w'.proc r.other = w.proc r.other := by
    rw [hproc]
    exact Function.update_of_ne r.other_ne ..
  have hgone : ∀ k, w'.link r k = none := fun k => by
    rw [World.link, hself]
    rfl
  have hidle : w'.starting r = false := by
    rw [World.starting, hself]
    rfl
  refine ⟨fun k g hg => ?_, fun g hg => ?_, fun r' hr' => ?_, fun r' k l hl => ?_,
    fun hf r' k g hl => ?_⟩
  · rw [hmade, hsegment]
    exact h.keyed k g (hkey k g hg)
  · rw [hsegment]
    exact h.kept g (hmade ▸ hg)
  · obtain rfl | rfl := r.eq_or_other r'
    · rw [hidle] at hr'
      cases hr'
    · cases r <;> exact hidle
  · obtain rfl | rfl := r.eq_or_other r'
    · cases (hgone k).symm.trans hl
    · rw [link_congr hother] at hl
      have hok := h.links _ k l hl
      have hgrows : Grows w w' := by
        refine ⟨Nat.le_of_eq hmade.symm, fun g _ => ?_, fun g _ hreached => ?_⟩
        · rw [hsegment]
        · rw [hsegment]
          exact hreached
      obtain hstart | hsame := hstart
      · obtain ⟨g, rfl⟩ := opened_of_not_starting (h.apart r hstart) hl
        exact hgrows.opened hok
      · refine hgrows.link (congrFun hsame k) (fun g _ hfresh => ?_) hok
        rw [hsegment]
        exact hfresh
  · obtain ⟨hf, hsame⟩ := hkeys hf
    obtain rfl | rfl := r.eq_or_other r'
    · cases (hgone k).symm.trans hl
    · rw [link_congr hother] at hl
      rw [hsame]
      exact h.shared hf _ k g hl

/-- A stop leaves the segments alone. -/
theorem Good.stop (h : Good w) (r : Role) : Good (w.stop r) :=
  h.leave rfl (fun _ _ hg => hg) rfl rfl (fun hf => ⟨hf, rfl⟩) (.inr rfl)

/-- What a process has deleted when it gives up: some of the keys, and nothing else. -/
structure Deleted (w w' : World) : Prop where
  key : ∀ k g, w'.key k = some g → w.key k = some g
  proc : w'.proc = w.proc
  made : w'.made = w.made
  segment : w'.segment = w.segment
  failed : w'.failed = w.failed

theorem Deleted.refl (w : World) : Deleted w w := ⟨fun _ _ hg => hg, rfl, rfl, rfl, rfl⟩

theorem Deleted.delete {w₀ : World} (h : Deleted w₀ w) (k : Key) (ok : Bool) :
    Deleted w₀ (w.delete k ok) := by
  cases ok with
  | false => exact h
  | true =>
    refine ⟨fun k' g hg => ?_, h.proc, h.made, h.segment, h.failed⟩
    obtain ⟨-, he⟩ | ⟨-, hg⟩ := HandOver.update_eq_some hg
    · cases he
    · exact h.key k' g hg

/-- Whatever `shmctl` answers, no more than the two keys is deleted. -/
theorem giveUp_deleted (w : World) (r : Role) (links : Key → Link) (cs sc : Bool) :
    Deleted { w.stop r with failed := true } (w.giveUp r links cs sc) := by
  have h := Deleted.refl { w.stop r with failed := true }
  cases r with
  | logic => exact (h.delete .cs cs).delete .sc sc
  | gateway =>
    simp only [World.giveUp]
    split
    · exact h.delete .cs cs
    · split
      · exact h.delete .sc sc
      · exact h

/-- A process that gives up takes no segment from the other, which is not starting. -/
theorem Good.giveUp (h : Good w) (hstart : w.starting r = true) (links : Key → Link)
    (cs sc : Bool) : Good (w.giveUp r links cs sc) := by
  have hdel := giveUp_deleted w r links cs sc
  refine h.leave hdel.proc hdel.key hdel.made hdel.segment (fun hf => ?_) (.inl hstart)
  rw [hdel.failed] at hf
  cases hf

theorem setShared_self (w : World) (g : Nat) (s : Shared) :
    (w.setShared g s).segment g = { w.segment g with shared := s } := Function.update_self ..

theorem setShared_other (w : World) {g g' : Nat} (hne : g' ≠ g) (s : Shared) :
    (w.setShared g s).segment g' = w.segment g' := Function.update_of_ne hne ..

/-- What lies in a segment changes, and the pipe in it has been constructed behind that. -/
theorem grows_setShared (w : World) (g : Nat) (s : Shared)
    (hs : Reached { w.segment g with shared := s }) : Grows w (w.setShared g s) := by
  refine ⟨Nat.le_refl _, fun g' _ => ?_, fun g' _ hreached => ?_⟩
  · by_cases he : g' = g
    · rw [he, setShared_self]
    · rw [setShared_other w he]
  · by_cases he : g' = g
    · rw [he, setShared_self]
      exact hs
    · rw [setShared_other w he]
      exact hreached

theorem Good.setShared_kept (h : Good w) {g : Nat} {s : Shared}
    (hs : Reached { w.segment g with shared := s }) {g' : Nat} (hlt : g' < w.made) :
    ((w.setShared g s).segment g').shared = freshShared ∨ Reached ((w.setShared g s).segment g') := by
  by_cases he : g' = g
  · rw [he, setShared_self]
    exact .inr hs
  · rw [setShared_other w he]
    exact h.kept g' hlt

/-- The constructor changes the segment of its key only. -/
theorem Good.construct (h : Good w) (hproc : w.proc r = some links) {exist : Bool} {g : Nat}
    (hattached : links k = .attached exist (some g)) {w' : World}
    (hs : w.act links (.construct r k) = some w') : Good w' := by
  have hok := h.links r k _ (link_eq hproc k)
  rw [hattached] at hok
  obtain ⟨hkey, hfresh⟩ := hok
  obtain ⟨hlt, hseg⟩ := h.keyed k g hkey
  have hopen : (links k).isOpen = false := by
    rw [hattached]
    rfl
  have hbytes : w.byteSize k - pipeHeadLen = ringSize (w.segment g).key := by
    simp only [World.byteSize, hkey, Nat.add_sub_cancel_left]
  simp only [World.act, hattached] at hs
  split at hs
  · split at hs
    · cases hs
      exact h.stop r
    · rw [hbytes] at hs
      cases hs
      have hreached := construct_reached (h.kept g hlt) hfresh (writes r k)
      have hgrows := grows_setShared w g _ hreached
      refine h.begins (starting_of_link hproc hopen) (setLink_other _ r k _)
        (hgrows.setLink r k (.opened g)) (fun k' g' hg' => ?_) (fun g' hlt' => ?_)
        (fun k' l hl => ?_) fun hf => ⟨hf, fun _ _ hg' => hg', fun k' g' hl => ?_⟩
      · obtain ⟨hlt', hkey'⟩ := h.keyed k' g' hg'
        exact ⟨hlt', (hgrows.key g' hlt').trans hkey'⟩
      · exact h.setShared_kept hreached hlt'
      · obtain ⟨rfl, rfl⟩ | ⟨hne, rfl⟩ := setLink_link hproc hl
        · refine ⟨hlt, (hgrows.key g hlt).trans hseg, ?_⟩
          change Reached ((w.setShared g _).segment g)
          rw [setShared_self]
          exact hreached
        · refine (hgrows.setLink r k (.opened g)).link rfl (fun g' hg' hfresh' => ?_)
            (h.links r k' _ (link_eq hproc k'))
          have hother : g' ≠ g := by
            rintro rfl
            exact hne ((h.keyed k' g' hg').2.symm.trans hseg)
          change ((w.setShared g _).segment g').shared = freshShared
          rw [setShared_other w hother]
          exact hfresh'
      · obtain ⟨rfl, he⟩ | ⟨-, he⟩ := setLink_link hproc hl
        · cases he
          exact hkey
        · exact h.shared hf r k' g' (he ▸ link_eq hproc k')
  · cases hs

/-- A call moves the pipe one step on. -/
theorem Good.call (h : Good w) (hproc : w.proc r = some links) {g : Nat}
    (hopened : links k = .opened g) {e : SharedEvent} {s : Shared}
    (hs : sharedStep (w.segment g).shared.pipe.size (w.segment g).shared e = some s) :
    Good (w.setShared g s) := by
  have hok := h.links r k _ (link_eq hproc k)
  rw [hopened] at hok
  obtain ⟨hlt, hseg, hreached⟩ := hok
  have hnext : Reached { w.segment g with shared := s } := by
    obtain ⟨q, hq⟩ := hreached
    rw [hq.size] at hs
    exact sharedOk_step hq hs
  have hgrows := grows_setShared w g s hnext
  refine ⟨fun k' g' hg' => ?_, fun g' hlt' => h.setShared_kept hnext hlt', h.apart,
    fun r' k' l hl => ?_, h.shared⟩
  · obtain ⟨hlt', hkey'⟩ := h.keyed k' g' hg'
    exact ⟨hlt', (hgrows.key g' hlt').trans hkey'⟩
  · refine hgrows.link rfl (fun g' _ hfresh' => ?_) (h.links r' k' l hl)
    have hother : g' ≠ g := by
      rintro rfl
      exact not_reached_fresh hfresh' hreached
    rw [setShared_other w hother]
    exact hfresh'

theorem Good.start (h : Good w) (hproc : w.proc r = none) (hother : w.starting r.other = false) :
    Good { w with proc := Function.update w.proc r (some fun _ => .unseen) } := by
  let w₁ : World := { w with proc := Function.update w.proc r (some fun _ => .unseen) }
  have hsame : w₁.proc r.other = w.proc r.other := Function.update_of_ne r.other_ne ..
  have hself : w₁.proc r = some fun _ => .unseen := Function.update_self ..
  have hidle : w₁.starting r.other = false := (starting_congr hsame).trans hother
  refine ⟨h.keyed, h.kept, fun r' hr' => ?_, fun r' k l hl => ?_, fun hf r' k g hl => ?_⟩
  · obtain rfl | rfl := r.eq_or_other r'
    · exact hidle
    · cases hidle.symm.trans hr'
  · obtain rfl | rfl := r.eq_or_other r'
    · cases (link_eq hself k).symm.trans hl
      trivial
    · have hl' := (link_congr hsame k).symm.trans hl
      have hgrows : Grows w w₁ := ⟨Nat.le_refl _, fun _ _ => rfl, fun _ _ hreached => hreached⟩
      exact hgrows.link rfl (fun _ _ hfresh => hfresh) (h.links _ k l hl')
  · obtain rfl | rfl := r.eq_or_other r'
    · cases (link_eq hself k).symm.trans hl
    · exact h.shared hf _ k g ((link_congr hsame k).symm.trans hl)

/-- Every step of a process keeps the pipes. -/
theorem act_good (h : Good w) {e : Event} (hproc : w.proc e.role = some links)
    (hs : w.act links e = some w') : Good w' := by
  cases e with
  | start r => cases hs
  | stop r =>
    cases hs
    exact h.stop r
  | isExist r k =>
    obtain ⟨⟨hunseen, -⟩, hset⟩ := Option.ite_none_right_eq_some.mp hs
    cases hset
    have hopen : (links k).isOpen = false := by
      rw [hunseen]
      rfl
    refine h.setLink hproc hopen ?_ rfl
    cases hkey : w.key k with
    | none => exact hkey
    | some g => trivial
  | create r k ok =>
    cases hl : links k with
    | seen exist =>
      simp only [World.act, hl] at hs
      cases hs
      exact h.create hproc hl ok
    | unseen | created | attached | opened =>
      simp only [World.act, hl] at hs
      cases hs
  | attach r k ok =>
    cases hl : links k with
    | created exist =>
      simp only [World.act, hl] at hs
      cases hs
      exact h.attach hproc hl ok
    | unseen | seen | attached | opened =>
      simp only [World.act, hl] at hs
      cases hs
  | giveUp r cs sc =>
    obtain ⟨⟨htried, -⟩, hgone⟩ := Option.ite_none_right_eq_some.mp hs
    cases hgone
    have hopen : (links .cs).isOpen = false := by
      cases hl : links .cs with
      | opened g =>
        rw [hl] at htried
        cases htried
      | unseen | seen | created | attached => rfl
    exact h.giveUp (starting_of_link hproc hopen) links cs sc
  | construct r k =>
    cases hl : links k with
    | attached exist seg =>
      cases seg with
      | none =>
        simp only [World.act, hl] at hs
        cases hs
      | some g => exact h.construct hproc hl hs
    | unseen | seen | created | opened =>
      simp only [World.act, hl] at hs
      cases hs
  | call r k e =>
    cases hl : links k with
    | opened g =>
      simp only [World.act, hl] at hs
      obtain ⟨-, hcall⟩ := Option.ite_none_right_eq_some.mp hs
      obtain ⟨s, hnext, rfl⟩ := Option.map_eq_some_iff.mp hcall
      exact h.call hproc hl hnext
    | unseen | seen | created | attached =>
      simp only [World.act, hl] at hs
      cases hs

/-- Every step keeps the pipes, when no process starts while the other does. -/
theorem step_good (h : Good w) {e : Event} (hg : Apart w e) (hs : Step w e w') : Good w' := by
  cases hproc : w.proc e.role with
  | some links =>
    simp only [Step, step, hproc] at hs
    exact act_good h hproc hs
  | none =>
    simp only [Step, step, hproc] at hs
    cases e with
    | start r =>
      cases hs
      exact h.start hproc hg
    | stop | isExist | create | attach | giveUp | construct | call => cases hs

end Steps

/-! ## Every run -/

/-- Wherever processes stop and start again, as long as they do not start at the same time: what is
in a constructed pipe are the frames that were published and not returned since its segment was
created, byte for byte, and no call finds them damaged. Until a process gives up, a key leads all of
them to one segment. -/
theorem run_pipes_survive (es : List Event) (w : World)
    (hrun : Trace.Run Step Apart World.initial es w) (r : Role) (k : Key) (g : Nat)
    (hg : w.link r k = some (.opened g)) :
    (w.segment g).shared.returned <+: (w.segment g).shared.published ∧
      Ring.read (w.segment g).shared.pipe.buf (w.segment g).shared.pipe.size
          (w.segment g).shared.pipe.beginIdx (stream (w.segment g).shared.unread).length =
        stream (w.segment g).shared.unread ∧
      (∀ tmpEnd, (w.segment g).shared.consumer ≠ .resync tmpEnd) ∧
      (w.failed = false → ∀ r' g', w.link r' k = some (.opened g') → g' = g) := by
  have h : Good w := hrun.invariant Good initial_good fun _ _ _ h hg hs => step_good h hg hs
  obtain ⟨-, -, q, hq⟩ := h.links r k _ hg
  have hunread : (w.segment g).shared.unread = q := by
    rw [Shared.unread, hq.frames, List.drop_left]
  refine ⟨⟨q, hq.frames.symm⟩, ?_, fun tmpEnd hc => ?_, fun hf r' g' hg' => ?_⟩
  · rw [hunread]
    exact hq.pipe.bytes
  · have hok := hq.consumer
    rw [hc] at hok
    exact hok
  · exact Option.some.inj ((h.shared hf r' k g' hg').symm.trans (h.shared hf r k g hg))

def opening (r : Role) (k : Key) : List Event := [.isExist r k, .create r k true, .attach r k true]

def starting (r : Role) : List Event := .start r :: (opening r .cs ++ opening r .sc)

def constructing (r : Role) : List Event := [.construct r .cs, .construct r .sc]

def appending (r : Role) (k : Key) (data : List UInt8) : List Event :=
  .call r k (.append data) :: List.replicate 9 (.call r k .producer)

/-- The gateway stops behind `Create`, and the logic server lays the first pipes. The logic server
stops in the middle of a frame, and gets it again when it is back. -/
def interrupted : List Event :=
  [.start .gateway, .isExist .gateway .cs, .create .gateway .cs true, .stop .gateway] ++
    starting .logic ++ constructing .logic ++ starting .gateway ++ constructing .gateway ++
    appending .gateway .cs [7, 8] ++
    .call .logic .cs (.get 100) :: List.replicate 4 (.call .logic .cs .consumer) ++
    [.stop .logic] ++ starting .logic ++ constructing .logic ++
    .call .logic .cs (.get 100) :: List.replicate 9 (.call .logic .cs .consumer)

theorem run_pipes_survive_interrupted : ∃ w,
    Trace.Run Step Apart World.initial interrupted w ∧
      (w.segment 0).shared.returned = [[7, 8]] ∧
      (w.segment 0).shared.returned <+: (w.segment 0).shared.published ∧
      ∀ g', w.link .logic .cs = some (.opened g') → g' = 0 := by
  obtain ⟨w, hrun, hlink, hreturned, hfailed⟩ :=
    Trace.exists_run_of_exec step Apart World.initial interrupted
      (fun w => w.link .gateway .cs = some (.opened 0) ∧
        (w.segment 0).shared.returned = [[7, 8]] ∧ w.failed = false) (by decide +kernel)
  obtain ⟨hbefore, -, -, hsame⟩ := run_pipes_survive interrupted w hrun .gateway .cs 0 hlink
  exact ⟨w, hrun, hreturned, hbefore, hsame hfailed .logic⟩

/-- Two starts at the same time: the gateway calls `Initialize` when the logic server has already
published a frame, which is never returned. -/
theorem overlapping_starts_lose : ∃ w,
    Trace.Run Step (fun _ _ => True) World.initial (starting .gateway ++ starting .logic ++
      constructing .logic ++ appending .logic .sc [7, 8] ++ constructing .gateway) w ∧
      (w.segment 1).shared.unread = [[7, 8]] ∧ getUsedSize (w.segment 1).shared.pipe = 0 :=
  Trace.exists_run_of_exec step (fun _ _ => True) World.initial _
    (fun w => (w.segment 1).shared.unread = [[7, 8]] ∧ getUsedSize (w.segment 1).shared.pipe = 0)
    (by decide +kernel)

end PipeStartup
