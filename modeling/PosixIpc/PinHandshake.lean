/-
# The pin and close handshake (`py_shm.c`)

`posixipc_shmobj_pin`, `posixipc_shmobj_unpin` and `posixipc_shmobj_close` on one region, run by
any number of threads, one load or read-modify-write operation at a time.

* `PinThread.act` : the code, from one atomic operation to the next;
* `Handshake.step` : one operation of one thread;
* `Handshake.Sound` : the invariant.  A closer sets the flag before it looks at the pins and a
  thread that pins adds its pin before it looks at the flag, so one of them sees the other;
* `unmapped_once` : the region is unmapped at most once, and with no pin on it, if no call of
  `posixipc_shmobj_close` finds the region open while another one is at work.

Two calls that both find it open unmap it twice, or one withdraws the flag that the other one
relies on.
-/
import PosixIpc.Ledger
import PosixIpc.StepSystem

namespace PosixIpc

open Ledger

/-! ## Threads -/

/-- The next atomic operation of a thread. -/
inductive PinPc
  | idle
  /-- `posixipc_shmobj_pin`: `fetch_add` on `pins`, the loads of `shm_is_closed`, `fetch_sub`. -/
  | pinAdd
  | pinFlags
  | pinMap
  | pinUndo
  /-- `posixipc_shmobj_unpin`. -/
  | unpinSub
  /-- `posixipc_shmobj_close`: the loads of `flags` and `core.map`, and `fetch_or` if closed. -/
  | closeFlags
  | closeMap
  | closeAgain
  /-- `fetch_or`, the load of `pins`, and `fetch_and` if there are some. -/
  | closeOr
  | closePins
  | closeBack
  /-- `posixipc_shm_close`: the load of `map`, `munmap`, `reset_handle`, and `fetch_and` if
  `munmap` failed. -/
  | closeShm
  | closeUnmap
  | closeReset
  | closeFail
  deriving DecidableEq

/-- A thread, with the pins it has taken and not yet dropped. -/
structure PinThread where
  pc : PinPc
  held : ℕ
  deriving DecidableEq

/-- The fields of the region, and for every `munmap` the pins that were held then. -/
structure PinShared where
  pins : ℕ
  closed : Bool
  map : Bool
  log : List ℕ
  deriving DecidableEq

/-- What a thread does next: a call, the next operation of its call, or a `munmap` that fails. -/
inductive PinAct
  | pin
  | unpin
  | close
  | go
  | fail
  deriving DecidableEq

def PinThread.goto (th : PinThread) (pc : PinPc) : PinThread := { th with pc := pc }

/-- The code; `held` are the pins that all threads hold. -/
def PinThread.act (held : ℕ) (sh : PinShared) (th : PinThread) (a : PinAct) :
    Option (PinShared × PinThread) :=
  match th.pc, a with
  | .idle, .pin => some (sh, th.goto .pinAdd)
  | .idle, .unpin => if th.held = 0 then none else some (sh, th.goto .unpinSub)
  | .idle, .close => some (sh, th.goto .closeFlags)
  | .pinAdd, .go => some ({ sh with pins := (sh.pins + 1) % 2 ^ 32 }, th.goto .pinFlags)
  | .pinFlags, .go => some (sh, th.goto (if sh.closed then .pinUndo else .pinMap))
  | .pinMap, .go => some (sh, if sh.map then ⟨.idle, th.held + 1⟩ else th.goto .pinUndo)
  | .pinUndo, .go => some ({ sh with pins := (sh.pins + (2 ^ 32 - 1)) % 2 ^ 32 }, th.goto .idle)
  | .unpinSub, .go =>
    some ({ sh with pins := (sh.pins + (2 ^ 32 - 1)) % 2 ^ 32 }, ⟨.idle, th.held - 1⟩)
  | .closeFlags, .go => some (sh, th.goto (if sh.closed then .closeAgain else .closeMap))
  | .closeMap, .go => some (sh, th.goto (if sh.map then .closeOr else .closeAgain))
  | .closeAgain, .go => some ({ sh with closed := true }, th.goto .idle)
  | .closeOr, .go => some ({ sh with closed := true }, th.goto .closePins)
  | .closePins, .go => some (sh, th.goto (if 0 < sh.pins then .closeBack else .closeShm))
  | .closeBack, .go => some ({ sh with closed := false }, th.goto .idle)
  | .closeShm, .go => some (sh, th.goto (if sh.map then .closeUnmap else .idle))
  | .closeUnmap, .go => some ({ sh with log := sh.log ++ [held] }, th.goto .closeReset)
  | .closeUnmap, .fail => some (sh, th.goto .closeFail)
  | .closeReset, .go => some ({ sh with map := false }, th.goto .idle)
  | .closeFail, .go => some ({ sh with closed := false }, th.goto .idle)
  | _, _ => none

/-- The threads and the region. -/
structure Handshake where
  shared : PinShared
  threads : List PinThread
  deriving DecidableEq

namespace Handshake

/-- The operation `l.2` of the thread `l.1`. -/
def step (s : Handshake) (l : ℕ × PinAct) : Option Handshake :=
  match s.threads[l.1]? with
  | none => none
  | some th =>
    match th.act (total PinThread.held s.threads) s.shared l.2 with
    | none => none
    | some (sh, th') => some ⟨sh, s.threads.set l.1 th'⟩

/-- `n` threads and an open region. -/
def start (n : ℕ) : Handshake := ⟨⟨0, false, true, []⟩, List.replicate n ⟨.idle, 0⟩⟩

end Handshake

/-! ## Shares -/

/-- The pins a thread has added to the counter. -/
def PinPc.added : PinPc → ℕ
  | .pinFlags | .pinMap | .pinUndo => 1
  | _ => 0

def PinThread.share (th : PinThread) : ℕ := th.held + th.pc.added

/-- The thread has found the region open and closes it. -/
def PinPc.atWork : PinPc → ℕ
  | .closeOr | .closePins | .closeBack | .closeShm | .closeUnmap | .closeReset | .closeFail => 1
  | _ => 0

def PinThread.atWork (th : PinThread) : ℕ := th.pc.atWork

/-- The thread has set the flag and relies on it. -/
def PinPc.Flagged (pc : PinPc) : Prop := pc = .closePins ∨ pc = .closeShm ∨ pc = .closeUnmap

/-- The thread has found that there are no pins. -/
def PinPc.Ready (pc : PinPc) : Prop := pc = .closeShm ∨ pc = .closeUnmap

/-- The thread has no pin and no pin that is about to succeed. -/
def PinThread.Clear (th : PinThread) : Prop := th.held = 0 ∧ th.pc ≠ .pinMap

namespace Handshake

/-- There are fewer than `2 ^ 32` pins. -/
def Fits (s : Handshake) : Prop := total PinThread.share s.threads < 2 ^ 32

instance (s : Handshake) : Decidable s.Fits := inferInstanceAs (Decidable (_ < _))

/-- The operation is not the one by which a closer finds the region open while another one is at
work. -/
def NoOverlap (s : Handshake) (l : ℕ × PinAct) : Prop :=
  ∀ th ∈ s.threads[l.1]?, th.pc = .closeMap → s.shared.map = true →
    total PinThread.atWork s.threads = 0

instance (s : Handshake) (l : ℕ × PinAct) : Decidable (s.NoOverlap l) :=
  inferInstanceAs (Decidable (∀ th ∈ s.threads[l.1]?, th.pc = .closeMap → s.shared.map = true →
    total PinThread.atWork s.threads = 0))

/-- The states reached by operations that all meet a condition. -/
abbrev Run (n : ℕ) (Ok : Handshake → ℕ × PinAct → Prop) : Handshake → Prop :=
  StepSystem.Run step (start n) Ok

end Handshake

/-! ## What an operation does -/

variable {sh sh' : PinShared} {th th' : PinThread} {a : PinAct} {i j n : ℕ}

/-- What one operation can do to the region and to its thread. -/
structure PinEffect (held : ℕ) (sh sh' : PinShared) (th th' : PinThread) : Prop where
  /-- The counter follows the share of the thread. -/
  pins : (th.pc = .unpinSub → 0 < th.held) → sh.pins < 2 ^ 32 → sh'.pins < 2 ^ 32 ∧
    (sh'.pins + th.share) % 2 ^ 32 = (sh.pins + th'.share) % 2 ^ 32
  unpin : th'.pc = .unpinSub → 0 < th'.held
  /-- A thread goes to work when it finds the region open. -/
  atWork : th'.atWork ≤ th.atWork ∨ (th.pc = .closeMap ∧ sh.map = true ∧ th'.atWork = 1)
  /-- The flag is withdrawn only by a thread at work. -/
  closed : sh'.closed = sh.closed ∨ sh'.closed = true ∨ th.atWork = 1
  flagged : (th.pc.Flagged → sh.closed = true) → th'.pc.Flagged → sh'.closed = true
  ready : th'.pc.Ready → th'.Clear = th.Clear ∧
    (th.pc.Ready ∨ (th.pc = .closePins ∧ sh.pins = 0))
  /-- No pin succeeds while the flag is set. -/
  clear : sh.closed = true → th.Clear → th'.Clear
  /-- The region is unmapped, or its mapping forgotten, by a thread that has come so far. -/
  unmap : (sh'.log = sh.log ∧ sh'.map = sh.map ∧ th'.pc ≠ .closeReset ∧ th.pc ≠ .closeReset) ∨
    (th.pc = .closeUnmap ∧ th'.pc = .closeReset ∧ sh'.log = sh.log ++ [held] ∧ sh'.map = sh.map) ∨
    (th.pc = .closeReset ∧ sh'.log = sh.log ∧ sh'.map = false ∧ th'.atWork = 0)

theorem act_effect {held : ℕ} (h : th.act held sh a = some (sh', th')) :
    PinEffect held sh sh' th th' := by
  unfold PinThread.act at h
  split at h <;> try split_ifs at h
  all_goals
    simp only [Option.some.injEq, Prod.mk.injEq, reduceCtorEq] at h
  all_goals
    obtain ⟨rfl, rfl⟩ := h
    constructor
  all_goals
    simp_all [PinThread.share, PinThread.goto, PinThread.atWork, PinThread.Clear, PinPc.added,
      PinPc.atWork, PinPc.Flagged, PinPc.Ready]
  all_goals omega

/-! ## The invariant -/

namespace Handshake

variable {s s' : Handshake}

/-- **The invariant.** -/
structure Sound (s : Handshake) : Prop where
  lt : s.shared.pins < 2 ^ 32
  count : s.shared.pins = total PinThread.share s.threads % 2 ^ 32
  solo : total PinThread.atWork s.threads ≤ 1
  unpin : ∀ th ∈ s.threads, th.pc = .unpinSub → 0 < th.held
  flagged : ∀ th ∈ s.threads, th.pc.Flagged → s.shared.closed = true
  ready : ∀ th ∈ s.threads, th.pc.Ready → ∀ u ∈ s.threads, u.Clear
  fresh : ∀ th ∈ s.threads, th.atWork = 1 → th.pc ≠ .closeReset → s.shared.log = []
  once : s.shared.log ≠ [] → s.shared.map = false ∨ ∃ th ∈ s.threads, th.pc = .closeReset
  log : s.shared.log = [] ∨ s.shared.log = [0]

/-- A thread at work has company only from threads that are not. -/
theorem Sound.alone (hs : s.Sound) (hi : s.threads[i]? = some th) (hj : s.threads[j]? = some th')
    (hij : i ≠ j) (hw : th.atWork = 1) : th'.atWork = 0 := by
  have hle := add_le_total (w := PinThread.atWork) hi hj hij
  have hsolo := hs.solo
  omega

theorem atWork_of_flagged (h : th.pc.Flagged) : th.atWork = 1 := by
  rcases h with h | h | h <;> simp [PinThread.atWork, h, PinPc.atWork]

theorem flagged_of_ready (h : th.pc.Ready) : th.pc.Flagged := .inr h

/-- If the counter is zero, and there are fewer than `2 ^ 32` pins, then there are none. -/
theorem Sound.clear_of_pins (hs : s.Sound) (hfits : s.Fits) (hzero : s.shared.pins = 0) :
    ∀ u ∈ s.threads, u.Clear := by
  intro u hu
  have htotal : total PinThread.share s.threads = 0 := by
    have hcount := hs.count
    have hlt : total PinThread.share s.threads < 2 ^ 32 := hfits
    rw [Nat.mod_eq_of_lt hlt] at hcount
    omega
  have hshare : u.share = 0 := eq_zero_of_total htotal hu
  unfold PinThread.share at hshare
  refine ⟨by omega, fun hpc => ?_⟩
  rw [hpc] at hshare
  simp [PinPc.added] at hshare

section Step

variable {l : ℕ × PinAct}

/-- The parts of a step. -/
theorem step_some (h : s.step l = some s') : ∃ th th', s.threads[l.1]? = some th ∧
    PinEffect (total PinThread.held s.threads) s.shared s'.shared th th' ∧
    s'.threads = s.threads.set l.1 th' := by
  unfold step at h
  cases hi : s.threads[l.1]? with
  | none => simp [hi] at h
  | some th =>
      cases hact : th.act (total PinThread.held s.threads) s.shared l.2 with
      | none => simp [hi, hact] at h
      | some x =>
          obtain ⟨sh', th'⟩ := x
          obtain rfl : ⟨sh', s.threads.set l.1 th'⟩ = s' := by simpa [hi, hact] using h
          exact ⟨th, th', rfl, act_effect hact, rfl⟩

variable {sh' : PinShared} (hs : s.Sound) (hi : s.threads[i]? = some th)
variable (he : PinEffect (total PinThread.held s.threads) s.shared sh' th th')
include hs hi he

theorem Sound.count_step : sh'.pins < 2 ^ 32 ∧
    sh'.pins = total PinThread.share (s.threads.set i th') % 2 ^ 32 := by
  have hset := total_set (w := PinThread.share) (b := th') hi
  have hcount := hs.count
  obtain ⟨hlt, hmod⟩ := he.pins (hs.unpin th (List.mem_of_getElem? hi)) hs.lt
  refine ⟨hlt, ?_⟩
  omega

/-- Where another thread relies on the flag, this one does not withdraw it. -/
theorem Sound.flagged_step (u : PinThread) (hu : u ∈ s.threads.set i th') (hf : u.pc.Flagged) :
    sh'.closed = true := by
  obtain ⟨j, hj⟩ := List.mem_iff_getElem?.mp hu
  by_cases hij : j = i
  · rw [hij, getElem?_set_self hi] at hj
    obtain rfl := Option.some.inj hj
    exact he.flagged (hs.flagged th (List.mem_of_getElem? hi)) hf
  · rw [getElem?_set_other hij] at hj
    have hclosed := hs.flagged u (List.mem_of_getElem? hj) hf
    rcases he.closed with hsame | hset | hwork
    · rw [hsame]
      exact hclosed
    · exact hset
    · have hzero := hs.alone hi hj (Ne.symm hij) hwork
      rw [atWork_of_flagged hf] at hzero
      cases hzero

/-- A closer that found no pins meets none later. -/
theorem Sound.ready_step (hfits : s.Fits) (u : PinThread) (hu : u ∈ s.threads.set i th')
    (hr : u.pc.Ready) : ∀ v ∈ s.threads.set i th', v.Clear := by
  have hmem := List.mem_of_getElem? hi
  -- all threads were clear before, and the flag kept this one so
  have hbefore : (∀ v ∈ s.threads, v.Clear) ∧ th'.Clear := by
    obtain ⟨j, hj⟩ := List.mem_iff_getElem?.mp hu
    by_cases hij : j = i
    · rw [hij, getElem?_set_self hi] at hj
      obtain rfl := Option.some.inj hj
      obtain ⟨hclear, hready | ⟨-, hzero⟩⟩ := he.ready hr
      · have hall := hs.ready th hmem hready
        exact ⟨hall, hclear ▸ hall th hmem⟩
      · have hall := hs.clear_of_pins hfits hzero
        exact ⟨hall, hclear ▸ hall th hmem⟩
    · rw [getElem?_set_other hij] at hj
      have hju := List.mem_of_getElem? hj
      have hall := hs.ready u hju hr
      exact ⟨hall, he.clear (hs.flagged u hju (flagged_of_ready hr)) (hall th hmem)⟩
  intro v hv
  rcases mem_of_set hv with hv | rfl
  · exact hbefore.1 v hv
  · exact hbefore.2

/-- Only one thread is at work. -/
theorem Sound.solo_step (hok : th.pc = .closeMap → s.shared.map = true →
    total PinThread.atWork s.threads = 0) :
    total PinThread.atWork (s.threads.set i th') ≤ 1 := by
  have hset := total_set (w := PinThread.atWork) (b := th') hi
  have hsolo := hs.solo
  rcases he.atWork with hle | ⟨hpc, hmap, hone⟩
  · omega
  · have hzero := hok hpc hmap
    omega

/-- A thread at work that has not come to the end of it works on a region that is mapped. -/
theorem Sound.fresh_step (hok : th.pc = .closeMap → s.shared.map = true →
    total PinThread.atWork s.threads = 0) (u : PinThread) (hu : u ∈ s.threads.set i th')
    (hw : u.atWork = 1) (hne : u.pc ≠ .closeReset) : sh'.log = [] := by
  have hmem := List.mem_of_getElem? hi
  -- what it was before the step: this thread, or another one that is at work
  have hcases : u = th' ∨ (u ∈ s.threads ∧ (th.atWork = 1 → u.atWork = 0)) := by
    obtain ⟨j, hj⟩ := List.mem_iff_getElem?.mp hu
    by_cases hij : j = i
    · rw [hij, getElem?_set_self hi] at hj
      exact .inl (Option.some.inj hj).symm
    · rw [getElem?_set_other hij] at hj
      exact .inr ⟨List.mem_of_getElem? hj, fun hwork => hs.alone hi hj (Ne.symm hij) hwork⟩
  rcases he.unmap with ⟨hlog, -, -, hth⟩ | ⟨hpc, hpc', -, -⟩ | ⟨hpc, -, -, hidle⟩
  · rw [hlog]
    rcases hcases with rfl | ⟨hu', -⟩
    · rcases he.atWork with hle | ⟨hpc, hmap, -⟩
      · refine hs.fresh th hmem ?_ hth
        have hsolo := hs.solo
        have hone := le_total_of_mem (w := PinThread.atWork) hmem
        omega
      · -- it has just found the region open, and no other thread is about to forget the mapping
        have hzero := hok hpc hmap
        by_contra hne'
        rcases hs.once hne' with hfalse | ⟨v, hv, hreset⟩
        · rw [hfalse] at hmap
          cases hmap
        · have hv0 : v.atWork = 0 := eq_zero_of_total hzero hv
          rw [PinThread.atWork, hreset] at hv0
          cases hv0
    · exact hs.fresh u hu' hw hne
  · rcases hcases with rfl | ⟨-, hzero⟩
    · exact absurd hpc' hne
    · rw [hzero (by rw [PinThread.atWork, hpc]; rfl)] at hw
      cases hw
  · rcases hcases with rfl | ⟨-, hzero⟩
    · rw [hidle] at hw
      cases hw
    · rw [hzero (by rw [PinThread.atWork, hpc]; rfl)] at hw
      cases hw

/-- A region that was unmapped is no longer found open. -/
theorem Sound.once_step (hlog : sh'.log ≠ []) :
    sh'.map = false ∨ ∃ u ∈ s.threads.set i th', u.pc = .closeReset := by
  rcases he.unmap with ⟨hsame, hmap, -, hth⟩ | ⟨-, hpc', -, -⟩ | ⟨-, -, hmap, -⟩
  · rw [hsame] at hlog
    rw [hmap]
    rcases hs.once hlog with hfalse | ⟨u, hu, hreset⟩
    · exact .inl hfalse
    · obtain ⟨j, hj⟩ := List.mem_iff_getElem?.mp hu
      have hij : j ≠ i := by
        rintro rfl
        rw [hi] at hj
        exact hth (Option.some.inj hj ▸ hreset)
      exact .inr ⟨u, List.mem_of_getElem? (by rw [getElem?_set_other hij]; exact hj), hreset⟩
  · exact .inr ⟨th', List.mem_of_getElem? (getElem?_set_self hi), hpc'⟩
  · exact .inl hmap

/-- A `munmap` is the first one, and nothing is pinned. -/
theorem Sound.log_step : sh'.log = [] ∨ sh'.log = [0] := by
  have hmem := List.mem_of_getElem? hi
  rcases he.unmap with ⟨hlog, -⟩ | ⟨hpc, -, hlog, -⟩ | ⟨-, hlog, -⟩
  · rw [hlog]
    exact hs.log
  · have hempty : s.shared.log = [] :=
      hs.fresh th hmem (by rw [PinThread.atWork, hpc]; rfl) (by rw [hpc]; simp)
    have hheld : total PinThread.held s.threads = 0 :=
      total_eq_zero fun u hu => (hs.ready th hmem (.inr hpc) u hu).1
    rw [hlog, hempty, hheld]
    exact .inr rfl
  · rw [hlog]
    exact hs.log

end Step

/-- **The step lemma.** -/
theorem Sound.step {l : ℕ × PinAct} (hs : s.Sound) (hfits : s.Fits) (hok : s.NoOverlap l)
    (h : s.step l = some s') : s'.Sound := by
  obtain ⟨th, th', hi, he, hset⟩ := step_some h
  have hcount := hs.count_step hi he
  refine ⟨hcount.1, ?_, ?_, ?_, ?_, ?_, ?_, ?_, hs.log_step hi he⟩
  all_goals rw [hset]
  · exact hcount.2
  · exact hs.solo_step hi he (hok th hi)
  · intro u hu
    rcases mem_of_set hu with hu | rfl
    · exact hs.unpin u hu
    · exact he.unpin
  · exact hs.flagged_step hi he
  · exact hs.ready_step hi he hfits
  · exact hs.fresh_step hi he (hok th hi)
  · exact hs.once_step hi he

theorem sound_start (n : ℕ) : (start n).Sound := by
  have hidle : ∀ th ∈ (start n).threads, th = ⟨.idle, 0⟩ := by
    intro th hth
    exact List.eq_of_mem_replicate hth
  have hshare : total PinThread.share (start n).threads = 0 :=
    total_eq_zero fun th hth => by rw [hidle th hth]; rfl
  have hwork : total PinThread.atWork (start n).threads = 0 :=
    total_eq_zero fun th hth => by rw [hidle th hth]; rfl
  refine ⟨Nat.two_pow_pos 32, ?_, ?_, ?_, ?_, ?_, ?_, fun h => absurd rfl h, .inl rfl⟩
  · rw [hshare]
    rfl
  · rw [hwork]
    exact Nat.zero_le 1
  all_goals
    intro th hth
    rw [hidle th hth]
    simp [PinPc.Flagged, PinPc.Ready, PinThread.atWork, PinPc.atWork]

/-- **A region is unmapped at most once, and never while it is pinned**, if no call of
`posixipc_shmobj_close` finds it open while another one is at work. -/
theorem unmapped_once (n : ℕ) (h : Run n (fun s l => s.Fits ∧ s.NoOverlap l) s) :
    s.shared.log.length ≤ 1 ∧ ∀ held ∈ s.shared.log, held = 0 := by
  have hs : s.Sound := by
    refine StepSystem.Run.invariant (sound_start n) ?_ h
    rintro s l s' hs ⟨hfits, hok⟩ hstep
    exact hs.step hfits hok hstep
  rcases hs.log with hlog | hlog <;> simp [hlog]

/-- The state at the end of operations that meet a condition. -/
abbrev after (n : ℕ) (Ok : Handshake → ℕ × PinAct → Prop) [∀ s l, Decidable (Ok s l)]
    (ls : List (ℕ × PinAct)) : Handshake :=
  (StepSystem.runIf Handshake.step Ok (start n) ls).getD (start n)

/-- The thread `t` goes on for `k` operations. -/
def goes (t k : ℕ) : List (ℕ × PinAct) := List.replicate k (t, .go)

/-- A thread pins the region, a call of `close` fails, the pin is dropped and a call succeeds. -/
def pinnedThenClosed : List (ℕ × PinAct) :=
  (1, .pin) :: goes 1 3 ++ (0, .close) :: goes 0 5 ++ (1, .unpin) :: goes 1 1 ++
    (0, .close) :: goes 0 7

theorem unmapped_once_pinned :
    (after 2 (fun s l => s.Fits ∧ s.NoOverlap l) pinnedThenClosed).shared = ⟨0, true, false, [0]⟩ ∧
    (after 2 (fun s l => s.Fits ∧ s.NoOverlap l) pinnedThenClosed).shared.log.length ≤ 1 ∧
    ∀ held ∈ (after 2 (fun s l => s.Fits ∧ s.NoOverlap l) pinnedThenClosed).shared.log, held = 0 :=
  ⟨by decide +kernel, unmapped_once 2 (StepSystem.Run.of_isSome (by decide +kernel))⟩

/-- Two calls of `close`, in step. -/
def twoClosers : List (ℕ × PinAct) :=
  [(0, .close), (1, .close)] ++ (List.replicate 6 [(0, .go), (1, .go)]).flatten

theorem unmapped_twice : ¬ ∀ n s, Run n (fun s _ => s.Fits) s →
    s.shared.log.length ≤ 1 ∧ ∀ held ∈ s.shared.log, held = 0 := by
  intro hall
  have hrun : Run 2 (fun s _ => s.Fits) (after 2 (fun s _ => s.Fits) twoClosers) :=
    StepSystem.Run.of_isSome (by decide +kernel)
  exact absurd (hall 2 _ hrun).1 (by decide +kernel)

-- a closer withdraws the flag that another one relies on, and a thread pins the region in between
example : (after 3 (fun s _ => s.Fits) ((2, .pin) :: goes 2 3 ++ [(0, .close), (1, .close)] ++
    goes 0 2 ++ goes 1 2 ++ goes 1 2 ++ (2, .unpin) :: goes 2 1 ++ goes 0 2 ++ goes 1 1 ++
    (2, .pin) :: goes 2 3 ++ goes 0 2)).shared.log = [1] := by
  decide +kernel

end Handshake

end PosixIpc
