/-
# A mutex that is lost for good

A lock call can answer `ENOTRECOVERABLE` wherever the code locks: in a first lock, in a slice of
a wait for the mutex, in the re-acquire of a condition wait, and in the re-lock after a futex
wait.  From there on the code of every operation is straight: it takes the GIL if it has dropped
it, maps the code to an exception, and returns.

* `mutexTail`, `queueTail` : the program points after such an answer;
* `poisoned_lock_reported_iff` : where the answer becomes `NotRecoverableError`.

The calls of `Mutex`, `RobustMutex`, `MutexArray` and `Condition` end in
`posixipc_mutex_after_lock` or `array_after_lock` from all their lock calls.  The loops of the
queues map the answer of their first lock only.
-/
import PosixIpc.CallSpan
import PosixIpc.MutexMachine
import PosixIpc.QueueLock
import PosixIpc.QueueAtomic
import PosixIpc.LockedFlag

namespace PosixIpc

open StoreProg RobustMutex OsWorld ThreadMachine

/-! ## Calls that fail for good -/

section Poison

variable {Tid Pid Chan Addr Time Req PC : Type} [DecidableEq Tid]

/-- The calls that lock. -/
def Locks (a : Act Chan Addr) : Prop :=
  a = .mutex .lock ∨ a = .mutex .tryLock ∨ a = .mutex .timedLock

/-- The calls that unlock; a condition wait is one. -/
def Unlocks (a : Act Chan Addr) : Prop := a.mutexOp = some .unlock

/-- The code of a machine whose actions are those of `OsWorld`. -/
abbrev OsMachine (Tid Pid Chan Addr Time Req PC : Type) :=
  Machine Tid PC (Act Chan Addr) (OsWorld.Answer Tid Time Req)
    (OsWorld.Answer Tid Time Req) (Shared Tid Pid Chan Addr)

/-- **The lock call of `t` at `p` answers `ENOTRECOVERABLE`**; `s'` is the state after it. -/
structure Poisoned (M : OsMachine Tid Pid Chan Addr Time Req PC) (t : Tid) (p : PC)
    (s s' : State Tid PC (Shared Tid Pid Chan Addr)) : Prop where
  pc : s.pc t = some p
  locks : Locks (M.act p)
  fails : ∃ e r sh, M.perform t (M.act p) e s.shared = some (r, sh) ∧
    r.lock = .notRecoverable ∧ s' = ⟨Function.update s.pc t (some (M.next p r)), sh⟩

/-- The rest of a call: the steps of `t` up to its end and of the others in between. -/
def Rest (M : OsMachine Tid Pid Chan Addr Time Req PC) (t : Tid) (inside : PC → Prop)
    (s₁ : State Tid PC (Shared Tid Pid Chan Addr)) (as : List (Act Chan Addr))
    (s₂ : State Tid PC (Shared Tid Pid Chan Addr)) : Prop :=
  M.Span (fun _ _ => True) t inside (fun p _ _ => [M.act p]) s₁ as s₂

/-- **The call gets to its end**: it has at most `n` steps left, and takes each of them as soon
as the GIL of its process is free. -/
def Completes (M : OsMachine Tid Pid Chan Addr Time Req PC) (proc : Tid → Pid) (t : Tid)
    (inside : PC → Prop) (n : ℕ) (s₁ : State Tid PC (Shared Tid Pid Chan Addr)) : Prop :=
  ∀ as s₂, Rest M t inside s₁ as s₂ → as.length ≤ n ∧ ∃ p, s₂.pc t = some p ∧
    (inside p → (M.act p = .takeGil → s₂.shared.gil (proc t) = none) →
      ∀ e, ∃ s₃, M.step s₂ (.act t e) = some s₃)

/-- No step of the rest unlocks, and the call ends as `good` says. -/
def ReportsAs (inside good : PC → Prop) (as : List (Act Chan Addr)) (p : PC) : Prop :=
  (∀ a ∈ as, ¬ Unlocks a) ∧ (¬ inside p → good p)

/-- The actions of a straight rest: none of them waits for another thread. -/
def Prompt (a : Act Chan Addr) : Prop := a = .takeGil ∨ a = .consult ∨ a = .mutex .unlock

variable {M : OsMachine Tid Pid Chan Addr Time Req PC} {proc : Tid → Pid} {t : Tid}
  {inside : PC → Prop} {p q : PC} {ps : List PC} {s s₁ s₂ : State Tid PC (Shared Tid Pid Chan Addr)}
  {as : List (Act Chan Addr)}

/-- A straight rest of a call: its points are in the call, the last one is not. -/
structure Tail (M : OsMachine Tid Pid Chan Addr Time Req PC) (inside : PC → Prop) (ps : List PC)
    (q : PC) : Prop where
  straight : M.Straight (ps ++ [q])
  within : ∀ p ∈ ps, inside p
  prompt : ∀ p ∈ ps, Prompt (M.act p)
  outside : ¬ inside q

/-- How far a straight rest has come. -/
theorem Tail.reached (h : Tail M inside ps q) (hp : s₁.pc t = (ps ++ [q]).head?)
    (hrest : Rest M t inside s₁ as s₂) :
    (∃ pre p post, ps = pre ++ p :: post ∧ as = pre.map M.act ∧ s₂.pc t = some p) ∨
      (as = ps.map M.act ∧ s₂.pc t = some q) := by
  have hlast : ∀ p, (ps ++ [q]).getLast? = some p → ¬ inside p := by
    intro p hp
    obtain rfl : q = p := by simpa using hp
    exact h.outside
  obtain ⟨p, hhead⟩ : ∃ p, (ps ++ [q]).head? = some p := by
    cases ps with
    | nil => exact ⟨q, rfl⟩
    | cons p ps => exact ⟨p, rfl⟩
  obtain ⟨pre, p', post, hpath, has, hp'⟩ :=
    Machine.Span.straight h.straight hlast hhead (hp.trans hhead) hrest
  rcases List.eq_nil_or_concat post with rfl | ⟨post', a, rfl⟩
  · obtain ⟨rfl, hq⟩ := List.append_inj' hpath rfl
    obtain rfl : q = p' := by simpa using hq
    exact Or.inr ⟨has, hp'⟩
  · have hsplit : ps ++ [q] = (pre ++ p' :: post') ++ [a] := by simpa using hpath
    obtain ⟨hps, -⟩ := List.append_inj' hsplit rfl
    exact Or.inl ⟨pre, p', post', hps, has, hp'⟩

/-- A straight rest gets to its end. -/
theorem Tail.completes (hperf : ∀ a, Prompt a → ∀ e sh,
      (a = .takeGil → sh.gil (proc t) = none) → (M.perform t a e sh).isSome)
    (h : Tail M inside ps q) (hp : s₁.pc t = (ps ++ [q]).head?) :
    Completes M proc t inside ps.length s₁ := by
  intro as s₂ hrest
  rcases h.reached hp hrest with ⟨pre, p, post, rfl, rfl, hpc⟩ | ⟨rfl, hpc⟩
  · refine ⟨by simp, p, hpc, fun _ hgil e => ?_⟩
    have hsome := hperf _ (h.prompt p (by simp)) e s₂.shared hgil
    obtain ⟨⟨r, sh⟩, hr⟩ := Option.isSome_iff_exists.mp hsome
    exact ⟨_, by simp [Machine.step, hpc, hr]; rfl⟩
  · exact ⟨by simp, q, hpc, fun hin => absurd hin h.outside⟩

/-- A straight rest without an unlock, up to a good end. -/
theorem Tail.reports {good : PC → Prop} (h : Tail M inside ps q)
    (hp : s₁.pc t = (ps ++ [q]).head?) (hun : ∀ p ∈ ps, ¬ Unlocks (M.act p)) (hgood : good q)
    (hrest : Rest M t inside s₁ as s₂) (hp₂ : s₂.pc t = some p) :
    ReportsAs inside good as p := by
  rcases h.reached hp hrest with ⟨pre, p', post, rfl, rfl, hpc⟩ | ⟨rfl, hpc⟩
  · obtain rfl := Option.some.inj (hpc.symm.trans hp₂)
    refine ⟨fun a ha => ?_, fun hout => absurd (h.within p' (by simp)) hout⟩
    obtain ⟨p, hmem, rfl⟩ := List.mem_map.mp ha
    exact hun p (by simp [hmem])
  · obtain rfl := Option.some.inj (hpc.symm.trans hp₂)
    refine ⟨fun a ha => ?_, fun _ => hgood⟩
    obtain ⟨p, hmem, rfl⟩ := List.mem_map.mp ha
    exact hun p hmem

/-- A call that has ended is at the last point. -/
theorem Tail.ended (h : Tail M inside ps q) (hp : s₁.pc t = (ps ++ [q]).head?)
    (hrest : Rest M t inside s₁ as s₂) (hp₂ : s₂.pc t = some p) (hout : ¬ inside p) :
    as = ps.map M.act ∧ p = q := by
  rcases h.reached hp hrest with ⟨pre, p', post, rfl, -, hpc⟩ | ⟨has, hpc⟩
  · obtain rfl := Option.some.inj (hpc.symm.trans hp₂)
    exact absurd (h.within p' (by simp)) hout
  · exact ⟨has, Option.some.inj (hp₂.symm.trans hpc)⟩

/-- The actions of a straight rest are possible once the GIL is free. -/
theorem perform_prompt [DecidableEq Pid] [DecidableEq Chan] [DecidableEq Addr] {a : Act Chan Addr}
    (ha : Prompt a) (e : OsWorld.Answer Tid Time Req) (sh : Shared Tid Pid Chan Addr)
    (hgil : a = .takeGil → sh.gil (proc t) = none) : (perform proc t a e sh).isSome := by
  rcases ha with rfl | rfl | rfl
  · simp [perform, hgil rfl]
  · rfl
  · rfl

end Poison

/-! ## Mutexes, arrays and conditions -/

section Mutexes

variable {Tid Pid Cv Hid : Type} [DecidableEq Tid] [DecidableEq Pid] [DecidableEq Cv]
  [DecidableEq Hid]

/-- The thread is in a call. -/
def MutexPc.inCall : MutexPc Cv Hid → Prop
  | .away _ => False
  | .python _ _ => False
  | .leave _ => False
  | _ => True

/-- The call that locks at a program point, and the stack under it. -/
def MutexPc.lockingCall : MutexPc Cv Hid → Option (CallStack Cv Hid × MutexCall Cv Hid)
  | .tryLock k v o => some (k, .acquire v o)
  | .fn k q _ _ => some (k, q)
  | .reacquire k c h o _ _ => some (k, .wait c h o)
  | _ => none

/-- What a `with` statement gets. -/
inductive Entered
  | self
  | raised (e : Exc)
  /-- `failed to acquire mutex` -/
  | failed

/-- `mutex_enter`, `item_enter`: what they make of the end of `acquire()`. -/
def mutexEnter : Ending → Entered
  | .raised e => .raised e
  | .no => .failed
  | _ => .self

/-- The rest of a call after `ENOTRECOVERABLE`. -/
theorem MutexConfig.poisoned_tail (cfg : MutexConfig) {proc : Tid → Pid} {t : Tid}
    {p : MutexPc Cv Hid} {s s' : State Tid (MutexPc Cv Hid) (Shared Tid Pid Cv Hid)}
    (h : Poisoned (cfg.machine proc) t p s s') :
    ∃ k q ps, p.lockingCall = some (k, q) ∧
      Tail (cfg.machine proc) MutexPc.inCall ps (.ret k q (.raised .notRecoverable)) ∧
      ps.length ≤ 2 ∧ (∀ p ∈ ps, ¬ Unlocks (MutexPc.act p)) ∧
      s'.pc t = (ps ++ [MutexPc.ret k q (.raised .notRecoverable)]).head? := by
  obtain ⟨hpc, hlocks, e, r, sh, hr, hlock, rfl⟩ := h
  -- a slice and a re-acquire go through `posixipc_blocking_wait`
  have hslow : ∀ (k : CallStack Cv Hid) (q : MutexCall Cv Hid) (user : Option Deadline),
      Tail (cfg.machine proc) MutexPc.inCall
        [.gil k q user .enotrecoverable, .back k q user .enotrecoverable]
        (.ret k q (.raised .notRecoverable)) := by
    intro k q user
    refine ⟨⟨fun _ => rfl, fun r => ?_, trivial⟩, ?_, ?_, id⟩
    · cases q <;> simp [MutexConfig.machine, OsWorld.machine, MutexConfig.next,
        MutexPc.waitReturn, MutexPc.afterLock]
    · simp [MutexPc.inCall]
    · simp [Prompt, MutexConfig.machine, OsWorld.machine, MutexPc.act]
  have hquiet : ∀ (k : CallStack Cv Hid) (q : MutexCall Cv Hid) (user : Option Deadline),
      ∀ p ∈ [MutexPc.gil k q user .enotrecoverable, .back k q user .enotrecoverable],
        ¬ Unlocks (MutexPc.act p) := by
    simp [Unlocks, MutexPc.act, Act.mutexOp]
  cases p with
  | tryLock k v o =>
    refine ⟨k, .acquire v o, [], rfl, ⟨trivial, by simp, by simp, id⟩, by simp, by simp, ?_⟩
    simp [MutexConfig.machine, OsWorld.machine, MutexConfig.next, hlock, lockRc,
      MutexPc.afterLock]
  | fn k q user limit =>
    cases q with
    | acquire v o =>
      refine ⟨k, .acquire v o, _, rfl, hslow k _ user, le_rfl, hquiet k _ user, ?_⟩
      simp [MutexConfig.machine, OsWorld.machine, MutexConfig.next, hlock, lockRc]
    | wait c h o => rcases hlocks with h | h | h <;> cases h
  | reacquire k c h o user res =>
    refine ⟨k, .wait c h o, _, rfl, hslow k _ user, le_rfl, hquiet k _ user, ?_⟩
    simp [MutexConfig.machine, OsWorld.machine, MutexConfig.next, hlock, lockRc]
  | asleep k c h o user limit =>
    cases limit <;> rcases hlocks with h | h | h <;> cases h
  | _ => rcases hlocks with h | h | h <;> cases h

end Mutexes

/-! ## Queues -/

section Queues

variable {Tid Pid : Type} [DecidableEq Tid] [DecidableEq Pid]

theorem performFaulty_prompt {proc : Tid → Pid} {t : Tid} {a : Act Side Loc} (ha : Prompt a)
    (e : QueueAnswer Tid) (sh : Shared Tid Pid Side Loc)
    (hgil : a = .takeGil → sh.gil (proc t) = none) : (performFaulty proc t a e sh).isSome := by
  have hsome := perform_prompt ha e sh hgil
  rcases ha with rfl | rfl | rfl <;> exact hsome

/-- The first lock of a call. -/
def QueuePc.FirstLock (p : QueuePc) : Prop := ∃ q, p = .lockCall .first q

/-- `queue_put` and its siblings after a failed `queue_lock`. -/
theorem QueueConfig.first_tail (cfg : QueueConfig) (proc : Tid → Pid) (q : Request) :
    Tail (cfg.faultyMachine proc) QueueConfig.inCall [.lockGil q .enotrecoverable]
      (.python (some .notRecoverable)) := by
  refine ⟨⟨fun r => ?_, trivial⟩, ?_, ?_, id⟩
  · rfl
  · simp [QueueConfig.inCall]
  · simp [Prompt, QueueConfig.faultyMachine, QueueConfig.machine, OsWorld.machine, QueuePc.act]

/-- Their loop after a failed wait: they unlock in any case. -/
theorem QueueConfig.finish_tail (cfg : QueueConfig) (proc : Tid → Pid) :
    Tail (cfg.faultyMachine proc) QueueConfig.inCall [.finish (.error .enotrecoverable) .none]
      (.python (some (.error .enotrecoverable))) := by
  refine ⟨⟨fun r => ?_, trivial⟩, ?_, ?_, id⟩
  · rfl
  · simp [QueueConfig.inCall]
  · simp [Prompt, QueueConfig.faultyMachine, QueueConfig.machine, OsWorld.machine, QueuePc.act]

/-- `posixipc_blocking_wait` gives the code of the re-acquire to the loop. -/
theorem QueueConfig.wait_tail (cfg : QueueConfig) (proc : Tid → Pid) (q : Request)
    (user : Option Deadline) :
    Tail (cfg.faultyMachine proc) QueueConfig.inCall
      [.gil q .cond user .enotrecoverable, .back q .cond user .enotrecoverable,
        .finish (.error .enotrecoverable) .none]
      (.python (some (.error .enotrecoverable))) := by
  refine ⟨⟨fun r => rfl, fun r => ?_, (cfg.finish_tail proc).straight⟩, ?_, ?_, id⟩
  · simp [QueueConfig.faultyMachine, QueueConfig.machine, OsWorld.machine, QueueConfig.next,
      QueueConfig.waitReturn, QueueConfig.afterWait, condOwn]
  · simp [QueueConfig.inCall]
  · simp [Prompt, QueueConfig.faultyMachine, QueueConfig.machine, OsWorld.machine, QueuePc.act]

/-- The rest of a call after `ENOTRECOVERABLE`: only the first lock is mapped. -/
theorem QueueConfig.poisoned_tail (cfg : QueueConfig) {proc : Tid → Pid} {t : Tid} {p : QueuePc}
    {s s' : State Tid QueuePc (Shared Tid Pid Side Loc)}
    (h : Poisoned (cfg.faultyMachine proc) t p s s') :
    ∃ ps out, Tail (cfg.faultyMachine proc) QueueConfig.inCall ps (.python (some out)) ∧
      ps.length ≤ 3 ∧ s'.pc t = (ps ++ [QueuePc.python (some out)]).head? ∧
      ((p.FirstLock ∧ out = .notRecoverable ∧ ∀ p ∈ ps, ¬ Unlocks (QueuePc.act p)) ∨
        (¬ p.FirstLock ∧ out = .error .enotrecoverable ∧ ∃ p ∈ ps, Unlocks (QueuePc.act p))) := by
  obtain ⟨hpc, hlocks, e, r, sh, hr, hlock, rfl⟩ := h
  -- the queues neither try nor time out on the mutex itself
  have hops : p.act.mutexOp ≠ some .tryLock ∧ p.act.mutexOp ≠ some .timedLock := by
    rcases QueueConfig.mutexOp_cases p with hc | hc | hc | hc <;> rw [hc] <;>
      simp [OsWorld.Act.mutexOp]
  have hact : p.act = .mutex .lock := by
    rcases hlocks with h | h | h
    · exact h
    · exact absurd (congrArg Act.mutexOp h) hops.1
    · exact absurd (congrArg Act.mutexOp h) hops.2
  have hunlock : Unlocks (QueuePc.act (.finish (.error .enotrecoverable) .none)) := rfl
  have hnext : ∀ q, (cfg.faultyMachine proc).next (.lockCall .first q) r
      = .lockGil q .enotrecoverable := by
    intro q
    simp [QueueConfig.faultyMachine, QueueConfig.machine, OsWorld.machine, QueueConfig.next, hlock,
      lockRc, QueueConfig.siteFailed]
  have hlate : ∀ site q, site ≠ .first → (cfg.faultyMachine proc).next (.lockCall site q) r
      = .finish (.error .enotrecoverable) .none := by
    intro site q hsite
    cases site <;> simp_all [QueueConfig.faultyMachine, QueueConfig.machine, OsWorld.machine,
      QueueConfig.next, lockRc, QueueConfig.siteFailed, QueueConfig.afterWait]
  rcases QueuePc.act_eq_lock hact with ⟨site, q, rfl⟩ | ⟨q, user, res, rfl⟩
  · by_cases hsite : site = .first
    · subst hsite
      refine ⟨_, _, cfg.first_tail proc q, by simp, ?_, Or.inl ⟨⟨q, rfl⟩, rfl, ?_⟩⟩
      · simp [hnext]
      · simp [Unlocks, QueuePc.act, Act.mutexOp]
    · refine ⟨_, _, cfg.finish_tail proc, by simp, ?_, Or.inr ⟨?_, rfl, _, by simp, hunlock⟩⟩
      · simp [hlate site q hsite]
      · rintro ⟨q', hq⟩
        exact hsite (QueuePc.lockCall.inj hq).1
  · refine ⟨_, _, cfg.wait_tail proc q user, by simp, ?_, Or.inr ⟨?_, rfl, _, by simp, hunlock⟩⟩
    · simp [QueueConfig.faultyMachine, QueueConfig.machine, OsWorld.machine, QueueConfig.next,
        hlock, lockRc]
    · rintro ⟨q', hq⟩
      cases hq

end Queues

/-! ## The report -/

section Reports

variable {Tid Pid Cv Hid : Type} [DecidableEq Tid] [DecidableEq Pid] [DecidableEq Cv]
  [DecidableEq Hid]

/-- The call on the mutex has raised `NotRecoverableError`, and so does a `with` statement that
made it. -/
def MutexPc.RaisedIt (k : CallStack Cv Hid) (q : MutexCall Cv Hid) (p : MutexPc Cv Hid) : Prop :=
  ∃ out, p = .ret k q out ∧ out = .raised .notRecoverable ∧
    mutexEnter out = .raised .notRecoverable

/-- The call of `t` on the mutex, which has just got `ENOTRECOVERABLE` at `p`, reports it. -/
def MutexReports (cfg : MutexConfig) (proc : Tid → Pid) (t : Tid) (p : MutexPc Cv Hid)
    (s' : State Tid (MutexPc Cv Hid) (Shared Tid Pid Cv Hid)) : Prop :=
  ∃ k q, p.lockingCall = some (k, q) ∧ Completes (cfg.machine proc) proc t MutexPc.inCall 2 s' ∧
    ∀ as s₂ p₂, Rest (cfg.machine proc) t MutexPc.inCall s' as s₂ → s₂.pc t = some p₂ →
      ReportsAs MutexPc.inCall (MutexPc.RaisedIt k q) as p₂

/-- The call on the queue has raised `NotRecoverableError`. -/
def QueuePc.RaisedIt (p : QueuePc) : Prop := p = .python (some .notRecoverable)

/-- The call of `t` on the queue, which has just got `ENOTRECOVERABLE` at `p`, reports it
exactly when `p` is its first lock. -/
def QueueReportsIff (cfg : QueueConfig) (proc : Tid → Pid) (t : Tid) (p : QueuePc)
    (s' : State Tid QueuePc (Shared Tid Pid Side Loc)) : Prop :=
  Completes (cfg.faultyMachine proc) proc t QueueConfig.inCall 3 s' ∧
    ∀ as s₂ p₂, Rest (cfg.faultyMachine proc) t QueueConfig.inCall s' as s₂ →
      s₂.pc t = some p₂ →
      (p.FirstLock → ReportsAs QueueConfig.inCall QueuePc.RaisedIt as p₂) ∧
      (¬ QueueConfig.inCall p₂ →
        (ReportsAs QueueConfig.inCall QueuePc.RaisedIt as p₂ ↔ p.FirstLock))

omit [DecidableEq Pid] in
theorem Completes.mono {Chan Addr Time Req PC : Type}
    {M : OsMachine Tid Pid Chan Addr Time Req PC} {proc : Tid → Pid} {t : Tid} {inside : PC → Prop}
    {n m : ℕ} {s : State Tid PC (Shared Tid Pid Chan Addr)} (h : Completes M proc t inside n s)
    (hnm : n ≤ m) : Completes M proc t inside m s := by
  intro as s₂ hrest
  obtain ⟨hlen, hgo⟩ := h as s₂ hrest
  exact ⟨hlen.trans hnm, hgo⟩

theorem mutexReports (cfg : MutexConfig) {proc : Tid → Pid} {t : Tid} {p : MutexPc Cv Hid}
    {s s' : State Tid (MutexPc Cv Hid) (Shared Tid Pid Cv Hid)}
    (h : Poisoned (cfg.machine proc) t p s s') : MutexReports cfg proc t p s' := by
  obtain ⟨k, q, ps, hcall, htail, hlen, hun, hpc⟩ := cfg.poisoned_tail h
  refine ⟨k, q, hcall, ?_, ?_⟩
  · exact (htail.completes (fun a ha e sh hgil => perform_prompt ha e sh hgil) hpc).mono hlen
  · intro as s₂ p₂ hrest hp₂
    exact htail.reports hpc hun ⟨_, rfl, rfl, rfl⟩ hrest hp₂

theorem queueReportsIff (cfg : QueueConfig) {proc : Tid → Pid} {t : Tid} {p : QueuePc}
    {s s' : State Tid QueuePc (Shared Tid Pid Side Loc)}
    (h : Poisoned (cfg.faultyMachine proc) t p s s') : QueueReportsIff cfg proc t p s' := by
  obtain ⟨ps, out, htail, hlen, hpc, hcase⟩ := cfg.poisoned_tail h
  refine ⟨?_, fun as s₂ p₂ hrest hp₂ => ?_⟩
  · exact (htail.completes (fun a ha e sh hgil => performFaulty_prompt ha e sh hgil) hpc).mono hlen
  · rcases hcase with ⟨hfirst, rfl, hun⟩ | ⟨hlate, rfl, p', hp', hun⟩
    · have hrep : ReportsAs QueueConfig.inCall QueuePc.RaisedIt as p₂ :=
        htail.reports hpc hun rfl hrest hp₂
      exact ⟨fun _ => hrep, fun _ => ⟨fun _ => hfirst, fun _ => hrep⟩⟩
    · refine ⟨fun hfirst => absurd hfirst hlate, fun hout => ⟨fun hrep => ?_, fun hfirst =>
        absurd hfirst hlate⟩⟩
      -- the unlock of the loop is among the steps of a call that has ended
      obtain ⟨rfl, -⟩ := htail.ended hpc hrest hp₂ hout
      exact absurd hun (hrep.1 _ (List.mem_map_of_mem hp'))

/-- **Where a poisoned lock is reported.**  In any state, with any other threads and processes
around: whatever lock call of `acquire`, of a `with` statement or of `Condition.wait` answers
`ENOTRECOVERABLE`, the call raises `NotRecoverableError` and does not unlock.  A call of a queue
does so for its first lock, and for no lock call after a wait. -/
theorem poisoned_lock_reported_iff (mcfg : MutexConfig) (qcfg : QueueConfig) (proc : Tid → Pid)
    (t : Tid) :
    (∀ (p : MutexPc Cv Hid) s s', Poisoned (mcfg.machine proc) t p s s' →
        MutexReports mcfg proc t p s') ∧
      ∀ p s s', Poisoned (qcfg.faultyMachine proc) t p s s' → QueueReportsIff qcfg proc t p s' :=
  ⟨fun _ _ _ h => mutexReports mcfg h, fun _ _ _ h => queueReportsIff qcfg h⟩

end Reports

/-! ## Three processes -/

/-- A thread gets as far as the lock of a call. -/
def toLock {Tid : Type} (t : Tid) (q : Request) : List (Label Tid (QueueAnswer Tid)) :=
  request t q ++ steps t 2

/-- `1` dies with `put_lock`, and `2` fails to make it consistent again. -/
def poisonRun : List (Label (Fin 3) (QueueAnswer (Fin 3))) :=
  toLock 1 (.get .default) ++ [.die 1] ++ toLock 2 (.get .default) ++ steps 2 5 ++
    [.act 2 { calm with flag := true }] ++ steps 2 1

/-- The machine of three processes on a queue. -/
abbrev queueTrio : Machine (Fin 3) QueuePc (Act Side Loc) (QueueAnswer (Fin 3))
    (QueueAnswer (Fin 3)) (Shared (Fin 3) (Fin 3) Side Loc) :=
  smallQueue.faultyMachine id

/-- The queue before any call. -/
abbrev queueTrioStart : State (Fin 3) QueuePc (Shared (Fin 3) (Fin 3) Side Loc) :=
  smallQueue.start (Fin 3) (Fin 3) fun _ => 0

/-- The state after a run of the three. -/
def queueTrioAfter (ls : List (Label (Fin 3) (QueueAnswer (Fin 3)))) :
    State (Fin 3) QueuePc (Shared (Fin 3) (Fin 3) Side Loc) :=
  (queueTrio.run queueTrioStart ls).getD queueTrioStart

/-- `0` comes to its first lock after the mutex is lost. -/
def lateCall : List (Label (Fin 3) (QueueAnswer (Fin 3))) :=
  poisonRun ++ request 0 (.get .default) ++ steps 0 1

/-- `0` waits for an item while the mutex is lost, and wakes up. -/
def earlyWait : List (Label (Fin 3) (QueueAnswer (Fin 3))) :=
  request 0 (.get .default) ++ steps 0 9 ++ poisonRun ++ steps 0 1

/-- `0` waits on a condition while its mutex is lost, and wakes up. -/
def mutexTrioAfter (n : ℕ) :
    State (Fin 3) (MutexPc Unit (Fin 3)) (Shared (Fin 3) (Fin 3) Unit (Fin 3)) :=
  (trio.run trioStart (waitRun ++ ownerDies ++ recoveryRaises ++ trioSteps 0 n)).getD trioStart

/-- The wait of `0` re-acquires a lost mutex. -/
theorem mutexTrio_poisoned : Poisoned trio 0
    (.reacquire [] () 0 .default none .woken) (mutexTrioAfter 1) (mutexTrioAfter 2) :=
  ⟨rfl, Or.inl rfl, trioCalm, { trioCalm with lock := .notRecoverable }, _, rfl, rfl, rfl⟩

/-- The first lock of `0` finds a lost mutex. -/
theorem lateCall_poisoned : Poisoned queueTrio 0 (.lockCall .first (.get .default))
    (queueTrioAfter lateCall) (queueTrioAfter (lateCall ++ steps 0 1)) :=
  ⟨rfl, Or.inl rfl, calm, { calm with lock := .notRecoverable }, _, rfl, rfl, rfl⟩

theorem poisoned_lock_reported_iff_trio :
    MutexReports ⟨.monotonic, .monotonic⟩ id 0
        (.reacquire [] () (0 : Fin 3) .default none .woken) (mutexTrioAfter 2) ∧
      QueueReportsIff smallQueue id 0 (.lockCall .first (.get .default))
        (queueTrioAfter (lateCall ++ steps 0 1)) :=
  have hreports := poisoned_lock_reported_iff ⟨.monotonic, .monotonic⟩ smallQueue id 0
  ⟨hreports.1 _ _ _ mutexTrio_poisoned, hreports.2 _ _ _ lateCall_poisoned⟩

/-- The rest of that call. -/
def lostActs : List (Act Side Loc) := [.takeGil, .consult, .mutex .unlock]

/-- **A poisoned lock that is not reported**: the mutex is lost while `get` waits.  The call
unlocks a mutex that it does not own and raises an `OSError`. -/
theorem poisoned_relock_unlocks :
    queueTrio.Reach queueTrioStart (queueTrioAfter earlyWait) ∧
      Poisoned queueTrio 0
        (.reacquire (.get .default) none .woken)
        (queueTrioAfter earlyWait) (queueTrioAfter (earlyWait ++ steps 0 1)) ∧
      Rest queueTrio 0 QueueConfig.inCall (queueTrioAfter (earlyWait ++ steps 0 1)) lostActs
        (queueTrioAfter (earlyWait ++ steps 0 4)) ∧
      (queueTrioAfter (earlyWait ++ steps 0 4)).pc 0
        = some (.python (some (.error .enotrecoverable))) ∧
      ¬ ReportsAs QueueConfig.inCall QueuePc.RaisedIt lostActs
        (.python (some (.error .enotrecoverable))) := by
  refine ⟨Machine.Run.of_isSome (fun _ _ _ => trivial) rfl, ?_, ?_, rfl, ?_⟩
  · exact ⟨rfl, Or.inl rfl, calm, { calm with lock := .notRecoverable }, _, rfl, rfl, rfl⟩
  · have hsome : (queueTrio.ownSteps 0 (fun p _ _ => [QueuePc.act p]) (fun p _ _ => soloInside p)
        (queueTrioAfter (earlyWait ++ steps 0 1)) (List.replicate 3 calm)).isSome := rfl
    exact .of_ownSteps (fun _ _ _ _ hin => ⟨inCall_of_soloInside hin, trivial⟩) hsome
  · rintro ⟨hun, -⟩
    exact hun (.mutex .unlock) (by simp [lostActs]) rfl

end PosixIpc
