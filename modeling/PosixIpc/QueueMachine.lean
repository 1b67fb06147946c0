/-
# Threads calling `Queue` and `FutexQueue` (`py_queue.c`, `py_linux.c`, `py_wait.c`)

`put`, `get` and `qsize` of the two queue classes as code for `OsWorld`: a program point
for every place where another thread may step in, with the GIL taken and dropped where
`Py_BEGIN_ALLOW_THREADS` / `Py_END_ALLOW_THREADS` stand.  The ring operations are the
memory programs of `QueueRing`, run one access at a time.

The two classes share the structure of their calls, so they are one automaton with the
class in its configuration.  They differ in how a call waits (`queue_wait_cond` on a
condition variable, `fq_wait_word` on a futex word) and in how it announces a change.

The futex words are kept as the number of increments since `posixipc_futexq_init`; the
word itself is that number modulo `2 ^ 32`.
-/
import PosixIpc.QueueRing
import PosixIpc.Deadline
import PosixIpc.OsWorld

namespace PosixIpc

open StoreProg RobustMutex OsWorld ThreadMachine

/-! ## Requests and program points -/

/-- The two classes. -/
inductive QueueClass
  | queue
  | futexQueue
  deriving DecidableEq

/-- A bound handle: its class, its view and the clock of its condition variables. -/
structure QueueConfig where
  cls : QueueClass
  view : View
  clk : ClockId

/-- The condition variables of a `Queue`, the words of a `FutexQueue`. -/
inductive Side
  | notFull
  | notEmpty
  deriving DecidableEq

/-- A method call. -/
inductive Request
  | put (data : ℕ → UInt8) (opts : AcquireOpts)
  | get (opts : AcquireOpts)
  | qsize

/-- The options of a call; `qsize` takes none. -/
def Request.opts : Request → AcquireOpts
  | .put _ o => o
  | .get o => o
  | .qsize => .default

/-- Where a call waits. -/
def Request.waitSide : Request → Side
  | .put _ _ => .notFull
  | _ => .notEmpty

/-- Whom a successful call wakes. -/
def Request.wakeSide : Request → Side
  | .put _ _ => .notEmpty
  | _ => .notFull

/-- What a waiter on a side waits for. -/
def Ready (v : View) : Side → Mem → Prop
  | .notEmpty, m => 0 < m .count
  | .notFull, m => m .count < v.depth

instance (v : View) (side : Side) (m : Mem) : Decidable (Ready v side m) :=
  match side with
  | .notEmpty => inferInstanceAs (Decidable (0 < m .count))
  | .notFull => inferInstanceAs (Decidable (m .count < v.depth))

/-- How a call ends. -/
inductive Outcome
  | success (data : List UInt8)
  | size (n : ℕ)
  /-- `False` from `put`, `None` from `get`. -/
  | nothing
  | notRecoverable
  | error (rc : Rc)
  /-- The exception of a signal handler. -/
  | interrupted
  | noMemory
  deriving DecidableEq

/-- The callback of `posixipc_blocking_wait` with its argument. -/
inductive WaitFn
  | cond
  | futex (expected : ℕ)
  deriving DecidableEq

/-- Who called `queue_lock` / `fq_lock`, or recovers without it. -/
inductive LockSite
  /-- The first lock of a call. -/
  | first
  /-- `queue_wait_cond` after `EOWNERDEAD` from the condition wait. -/
  | condWake
  /-- `fq_wait_word` after a wait that ended with `rc`. -/
  | relock (rc : Rc)
  deriving DecidableEq

/-- The announcements after a recovery, in their order. -/
inductive Announce
  | addFull
  | addEmpty
  | wakeFull
  | wakeEmpty
  deriving DecidableEq

/-- A code that is not `0`. -/
abbrev Failure := { rc : Rc // rc ≠ .ok }

/-- The program points. -/
inductive QueuePc
  /-- Outside Python. -/
  | away
  | python (last : Option Outcome)
  | leave
  | beginLock (q : Request)
  | lockCall (site : LockSite) (q : Request)
  | recovering (site : LockSite) (q : Request) (p : RingProg Rc)
  | makeConsistent (site : LockSite) (q : Request)
  | unlockBad (site : LockSite) (q : Request) (rc : Failure)
  | announce (site : LockSite) (q : Request) (k : Announce)
  | lockGil (q : Request) (rc : Rc)
  | test (q : Request) (p : RingProg (Rc × ℕ))
  | ring (q : Request) (p : RingProg (Rc × List UInt8))
  | bump (q : Request) (rc : Rc) (data : List UInt8)
  | unlockOp (q : Request) (rc : Rc) (data : List UInt8)
  | wake (q : Request) (data : List UInt8)
  /-- The last unlock of a call that ends with `out`; `o` is what the thread then has. -/
  | finish (out : Outcome) (o : Own)
  | futexLoad (q : Request)
  | futexUnlock (q : Request) (expected : ℕ)
  | waitEnter (q : Request) (w : WaitFn)
  | slice (q : Request) (w : WaitFn) (user : Option Deadline)
  | drop (q : Request) (w : WaitFn) (user limit : Option Deadline)
  | park (q : Request) (w : WaitFn) (user limit : Option Deadline)
  | asleep (q : Request) (w : WaitFn) (user limit : Option Deadline)
  | reacquire (q : Request) (user : Option Deadline) (res : SleepResult)
  | gil (q : Request) (w : WaitFn) (user : Option Deadline) (rc : Rc)
  | back (q : Request) (w : WaitFn) (user : Option Deadline) (rc : Rc)
  | check (q : Request) (w : WaitFn) (user : Option Deadline)

/-- Answers of this world: clock readings, and the next request (`none`: leave Python). -/
abbrev QueueAnswer (Tid : Type) := Answer Tid (Option Timespec) (Option Request)

/-- What a thread has of the mutex after a condition wait that returned `rc`. -/
def condOwn : Rc → Own
  | .eownerdead => .inconsistent
  | .enotrecoverable => .none
  | .eperm => .none
  | _ => .consistent

/-! ## The code -/

/-- The action at a program point. -/
def QueuePc.act : QueuePc → Act Side Loc
  | .away => .takeGil
  | .python _ => .consult
  | .leave => .dropGil
  | .beginLock _ => .dropGil
  | .lockCall _ _ => .mutex .lock
  | .recovering _ _ (.load l _) => .load l
  | .recovering _ _ (.store l v _) => .store l v
  | .recovering _ _ (.ret _) => .consult
  | .makeConsistent _ _ => .mutex .consistent
  | .unlockBad _ _ _ => .mutex .unlock
  | .announce _ _ .addFull => .wordAdd .notFull
  | .announce _ _ .addEmpty => .wordAdd .notEmpty
  | .announce _ _ .wakeFull => .wakeAll .notFull
  | .announce _ _ .wakeEmpty => .wakeAll .notEmpty
  | .lockGil _ _ => .takeGil
  | .test _ (.load l _) => .load l
  | .test _ (.store l v _) => .store l v
  | .test _ (.ret _) => .consult
  | .ring _ (.load l _) => .load l
  | .ring _ (.store l v _) => .store l v
  | .ring _ (.ret _) => .consult
  | .bump q _ _ => .wordAdd q.wakeSide
  | .unlockOp _ _ _ => .mutex .unlock
  | .wake q _ => .wakeOne q.wakeSide
  | .finish _ _ => .mutex .unlock
  | .futexLoad q => .wordLoad q.waitSide
  | .futexUnlock _ _ => .mutex .unlock
  | .waitEnter _ _ => .consult
  | .slice _ _ _ => .consult
  | .drop _ _ _ _ => .dropGil
  | .park q .cond _ _ => .park q.waitSide
  | .park q (.futex expected) _ _ => .futexPark q.waitSide expected
  | .asleep q .cond _ none => .sleep q.waitSide []
  | .asleep q .cond _ (some _) => .sleep q.waitSide [.timedOut]
  | .asleep q (.futex _) _ _ => .sleep q.waitSide [.timedOut, .interrupted]
  | .reacquire _ _ _ => .mutex .lock
  | .gil _ _ _ _ => .takeGil
  | .back _ _ _ _ => .consult
  | .check _ _ _ => .consult

namespace QueueConfig

variable (cfg : QueueConfig)

/-- The ring operation of a request. -/
def ringOp : Request → RingProg (Rc × List UInt8)
  | .put data _ => do
    let rc ← posixipcQueuePut cfg.view data
    pure (rc, [])
  | _ => posixipcQueueGet cfg.view

/-- The caller's loop after the wait returned `rc` with `o` of the mutex. -/
def afterWait (q : Request) (rc : Rc) (o : Own) : QueuePc :=
  if rc = .etimedout then .finish .nothing o
  else if rc = .ok then .test q (posixipcQueueQsize cfg.view)
  else if rc = .interrupted then .finish .interrupted o
  else .finish (.error rc) o

/-- `posixipc_blocking_wait` returned `rc` to `queue_wait_cond` or `fq_wait_word`. -/
def waitReturn (q : Request) (w : WaitFn) (rc : Rc) (o : Own) : QueuePc :=
  match w with
  | .cond =>
    if rc = .eownerdead then .recovering .condWake q (posixipcQueueRecover cfg.view)
    else cfg.afterWait q rc o
  | .futex _ => .lockCall (.relock rc) q

/-- The lock call of a site succeeded. -/
def siteDone (site : LockSite) (q : Request) : QueuePc :=
  match site with
  | .first => .lockGil q .ok
  | .condWake => cfg.afterWait q .ok .consistent
  | .relock rc => cfg.afterWait q rc .consistent

/-- The lock call of a site failed with `rc`; the mutex is not held. -/
def siteFailed (site : LockSite) (q : Request) (rc : Failure) : QueuePc :=
  match site with
  | .first => .lockGil q rc.1
  | _ => cfg.afterWait q rc.1 .none

/-- Recovery failed: `queue_lock` and `fq_lock` unlock and return, `queue_wait_cond` only
returns. -/
def recoverFailed (site : LockSite) (q : Request) (rc : Failure) : QueuePc :=
  match site with
  | .condWake => cfg.afterWait q rc.1 .inconsistent
  | _ => .unlockBad site q rc

/-- The first announcement of a recovery. -/
def firstAnnounce : Announce :=
  match cfg.cls with
  | .queue => .wakeFull
  | .futexQueue => .addFull

/-- The test of the loop in `put` and `get`, and the end of `qsize`. -/
def afterTest (q : Request) (rc : Rc) (n : ℕ) : QueuePc :=
  if rc ≠ .ok then .finish (.error .einval) .consistent
  else
    match q with
    | .qsize => .finish (.size n) .consistent
    | .put _ o =>
      if n < cfg.view.depth then .ring q (cfg.ringOp q)
      else if o.noWait then .finish .nothing .consistent
      else
        match cfg.cls with
        | .queue => .waitEnter q .cond
        | .futexQueue => .futexLoad q
    | .get o =>
      if n > 0 then .ring q (cfg.ringOp q)
      else if o.noWait then .finish .nothing .consistent
      else
        match cfg.cls with
        | .queue => .waitEnter q .cond
        | .futexQueue => .futexLoad q

/-- The clock of a wait. -/
def waitClock : WaitFn → ClockId
  | .cond => cfg.clk
  | .futex _ => .monotonic

/-- The start of a wait: compute the user's deadline and enter `posixipc_blocking_wait`
(or `posixipc_cond_wait`, which has no limit). -/
def startWait (q : Request) (w : WaitFn) (reading : Option Timespec) : QueuePc :=
  match q.opts.deadline (cfg.waitClock w) reading with
  | .error rc =>
    match w with
    | .cond => cfg.afterWait q rc .consistent
    | .futex _ => .lockCall (.relock rc) q
  | .ok user =>
    if q.opts.interruptible then .slice q w user
    else
      match w, user with
      | .futex _, none => .drop q w none (some (farDeadline .monotonic))
      | _, user => .drop q w user user

/-- The program point after an action. -/
def next {Tid : Type} : QueuePc → QueueAnswer Tid → QueuePc
  | .away, _ => .python none
  | .python _, r =>
    match r.req with
    | none => .leave
    | some (.get o) => if r.flag then .python (some .noMemory) else .beginLock (.get o)
    | some q => .beginLock q
  | .leave, _ => .away
  | .beginLock q, _ => .lockCall .first q
  | .lockCall site q, r =>
    if h : lockRc r.lock = .ok then cfg.siteDone site q
    else if lockRc r.lock = .eownerdead then
      .recovering site q (posixipcQueueRecover cfg.view)
    else cfg.siteFailed site q ⟨lockRc r.lock, h⟩
  | .recovering site q (.load _ k), r => .recovering site q (k r.val)
  | .recovering site q (.store _ _ k), _ => .recovering site q k
  | .recovering site q (.ret rc), _ =>
    if h : rc = .ok then .makeConsistent site q else cfg.recoverFailed site q ⟨rc, h⟩
  | .makeConsistent site q, r =>
    if h : lockRc r.lock = .ok then .announce site q cfg.firstAnnounce
    else cfg.recoverFailed site q ⟨lockRc r.lock, h⟩
  | .unlockBad site q rc, _ => cfg.siteFailed site q rc
  | .announce site q .addFull, _ => .announce site q .addEmpty
  | .announce site q .addEmpty, _ => .announce site q .wakeFull
  | .announce site q .wakeFull, _ => .announce site q .wakeEmpty
  | .announce site q .wakeEmpty, _ => cfg.siteDone site q
  | .lockGil q rc, _ =>
    if rc = .ok then .test q (posixipcQueueQsize cfg.view)
    else if rc = .enotrecoverable then .python (some .notRecoverable)
    else .python (some (.error rc))
  | .test q (.load _ k), r => .test q (k r.val)
  | .test q (.store _ _ k), _ => .test q k
  | .test q (.ret (rc, n)), _ => cfg.afterTest q rc n
  | .ring q (.load _ k), r => .ring q (k r.val)
  | .ring q (.store _ _ k), _ => .ring q k
  | .ring q (.ret (rc, data)), _ =>
    match cfg.cls with
    | .queue => .unlockOp q rc data
    | .futexQueue => .bump q rc data
  | .bump q rc data, _ => .unlockOp q rc data
  | .unlockOp q rc data, _ =>
    if rc = .ok then .wake q data else .python (some (.error rc))
  | .wake q data, r =>
    match q with
    | .get _ => if r.flag then .python (some .noMemory) else .python (some (.success data))
    | _ => .python (some (.success data))
  | .finish out _, _ => .python (some out)
  | .futexLoad q, r => .futexUnlock q r.val
  | .futexUnlock q expected, r =>
    if r.lock = .ok then .waitEnter q (.futex expected)
    else cfg.afterWait q (lockRc r.lock) .none
  | .waitEnter q w, r => cfg.startWait q w r.reading
  | .slice q w user, r =>
    match posixipcNow r.reading with
    | .error rc => cfg.waitReturn q w rc .consistent
    | .ok now => .drop q w user (some (sliceDeadline (cfg.waitClock w) user now))
  | .drop q w user limit, _ => .park q w user limit
  | .park q .cond user limit, r =>
    if r.lock = .ok then .asleep q .cond user limit else .gil q .cond user (lockRc r.lock)
  | .park q (.futex expected) user limit, r =>
    if r.flag then .asleep q (.futex expected) user limit
    else .gil q (.futex expected) user .ok
  | .asleep q .cond user _, r => .reacquire q user r.sleep
  | .asleep q (.futex expected) user _, r => .gil q (.futex expected) user (sleepRc r.sleep)
  | .reacquire q user res, r =>
    if r.lock = .ok then .gil q .cond user (sleepRc res)
    else .gil q .cond user (lockRc r.lock)
  | .gil q w user rc, _ => .back q w user rc
  | .back q w user rc, r =>
    if q.opts.interruptible ∧ rc = .etimedout then
      if r.flag then cfg.waitReturn q w .interrupted .consistent else .check q w user
    else cfg.waitReturn q w rc (condOwn rc)
  | .check q w user, r =>
    match user with
    | none => .slice q w none
    | some d =>
      if posixipcDeadlineExpired d r.reading then cfg.waitReturn q w .etimedout .consistent
      else .slice q w (some d)

/-- The machine of a queue. -/
def machine {Tid Pid : Type} [DecidableEq Tid] [DecidableEq Pid] (proc : Tid → Pid) :
    Machine Tid QueuePc (Act Side Loc) (QueueAnswer Tid) (QueueAnswer Tid)
      (Shared Tid Pid Side Loc) :=
  OsWorld.machine proc QueuePc.act cfg.next

/-- All threads outside Python, the mutex and the words fresh, the ring initialised. -/
def start (Tid Pid : Type) (m : Mem) : State Tid QueuePc (Shared Tid Pid Side Loc) where
  pc := fun _ => some .away
  shared :=
    { gil := fun _ => none
      mutex := .unlocked
      waiters := fun _ => []
      word := fun _ => 0
      mem := (Prog.exec (posixipcQueueInitCtrl cfg.view) m).2 }

end QueueConfig

/-! ## What a thread holds at a program point -/

/-- Whether the GIL is held while a site locks or recovers. -/
def LockSite.holdsGil : LockSite → Bool
  | .first => false
  | .condWake => true
  | .relock _ => true

/-- The program points at which the thread holds the GIL. -/
def QueuePc.holdsGil : QueuePc → Bool
  | .away => false
  | .python _ => true
  | .leave => true
  | .beginLock _ => true
  | .lockCall site _ => site.holdsGil
  | .recovering site _ _ => site.holdsGil
  | .makeConsistent site _ => site.holdsGil
  | .unlockBad site _ _ => site.holdsGil
  | .announce site _ _ => site.holdsGil
  | .lockGil _ _ => false
  | .test _ _ => true
  | .ring _ _ => true
  | .bump _ _ _ => true
  | .unlockOp _ _ _ => true
  | .wake _ _ => true
  | .finish _ _ => true
  | .futexLoad _ => true
  | .futexUnlock _ _ => true
  | .waitEnter _ _ => true
  | .slice _ _ _ => true
  | .drop _ _ _ _ => true
  | .park _ _ _ _ => false
  | .asleep _ _ _ _ => false
  | .reacquire _ _ _ => false
  | .gil _ _ _ _ => false
  | .back _ _ _ _ => true
  | .check _ _ _ => true

/-- What a thread has of the mutex while it prepares a wait. -/
def WaitFn.own : WaitFn → Own
  | .cond => .consistent
  | .futex _ => .none

/-- What a thread has of the mutex after a wait that returned `rc`. -/
def WaitFn.ownAfter : WaitFn → Rc → Own
  | .cond, rc => condOwn rc
  | .futex _, _ => .none

/-- What a thread has of the mutex at a program point. -/
def QueuePc.own : QueuePc → Own
  | .away => .none
  | .python _ => .none
  | .leave => .none
  | .beginLock _ => .none
  | .lockCall _ _ => .none
  | .recovering _ _ _ => .inconsistent
  | .makeConsistent _ _ => .inconsistent
  | .unlockBad _ _ _ => .inconsistent
  | .announce _ _ _ => .consistent
  | .lockGil _ rc => if rc = .ok then .consistent else .none
  | .test _ _ => .consistent
  | .ring _ _ => .consistent
  | .bump _ _ _ => .consistent
  | .unlockOp _ _ _ => .consistent
  | .wake _ _ => .none
  | .finish _ o => o
  | .futexLoad _ => .consistent
  | .futexUnlock _ _ => .consistent
  | .waitEnter _ w => w.own
  | .slice _ w _ => w.own
  | .drop _ w _ _ => w.own
  | .park _ w _ _ => w.own
  | .asleep _ _ _ _ => .none
  | .reacquire _ _ _ => .none
  | .gil _ w _ rc => w.ownAfter rc
  | .back _ w _ rc => w.ownAfter rc
  | .check _ w _ => w.own

namespace QueueConfig

variable (cfg : QueueConfig) {Tid : Type}

/-- The loop of `put` and `get` holds the GIL. -/
theorem holdsGil_afterWait (q : Request) (rc : Rc) (o : Own) :
    (cfg.afterWait q rc o).holdsGil = true := by
  unfold afterWait
  split_ifs <;> rfl

/-- A wait function returns with the GIL. -/
theorem holdsGil_waitReturn (q : Request) (w : WaitFn) (rc : Rc) (o : Own) :
    (cfg.waitReturn q w rc o).holdsGil = true := by
  cases w with
  | cond =>
      rw [waitReturn]
      split_ifs
      · rfl
      · exact cfg.holdsGil_afterWait q rc o
  | futex e => rfl

/-- A lock site goes on with the GIL as it found it. -/
theorem holdsGil_siteDone (site : LockSite) (q : Request) :
    (cfg.siteDone site q).holdsGil = site.holdsGil := by
  cases site with
  | first => rfl
  | _ => exact cfg.holdsGil_afterWait _ _ _

/-- A lock site fails with the GIL as it found it. -/
theorem holdsGil_siteFailed (site : LockSite) (q : Request) (rc : Failure) :
    (cfg.siteFailed site q rc).holdsGil = site.holdsGil := by
  cases site with
  | first => rfl
  | _ => exact cfg.holdsGil_afterWait _ _ _

/-- A recovery fails with the GIL as it found it. -/
theorem holdsGil_recoverFailed (site : LockSite) (q : Request) (rc : Failure) :
    (cfg.recoverFailed site q rc).holdsGil = site.holdsGil := by
  cases site with
  | condWake => exact cfg.holdsGil_afterWait _ _ _
  | _ => rfl

/-- The test of the loop is made with the GIL. -/
theorem holdsGil_afterTest (q : Request) (rc : Rc) (n : ℕ) :
    (cfg.afterTest q rc n).holdsGil = true := by
  unfold afterTest
  repeat' split
  all_goals rfl

/-- A wait function starts with the GIL. -/
theorem holdsGil_startWait (q : Request) (w : WaitFn) (reading : Option Timespec) :
    (cfg.startWait q w reading).holdsGil = true := by
  unfold startWait
  repeat' split
  all_goals first
    | rfl
    | exact cfg.holdsGil_afterWait _ _ _

/-- **The program points know who holds the GIL.** -/
theorem gilDiscipline :
    GilDiscipline QueuePc.act (cfg.next : QueuePc → QueueAnswer Tid → QueuePc)
      QueuePc.holdsGil := by
  intro p r
  cases p with
  | away => exact ⟨rfl, rfl⟩
  | leave => exact ⟨rfl, rfl⟩
  | beginLock q => exact ⟨rfl, rfl⟩
  | drop q w user limit => exact ⟨rfl, rfl⟩
  | gil q w user rc => exact ⟨rfl, rfl⟩
  | lockGil q rc =>
      refine ⟨rfl, ?_⟩
      simp only [next]
      split_ifs <;> rfl
  | recovering site q p =>
      cases p with
      | ret rc =>
          simp only [QueuePc.act, next]
          split_ifs
          · rfl
          · exact cfg.holdsGil_recoverFailed _ _ _
      | _ => rfl
  | lockCall site q =>
      simp only [QueuePc.act, next]
      split_ifs
      · exact cfg.holdsGil_siteDone _ _
      · rfl
      · exact cfg.holdsGil_siteFailed _ _ _
  | makeConsistent site q =>
      simp only [QueuePc.act, next]
      split_ifs
      · rfl
      · exact cfg.holdsGil_recoverFailed _ _ _
  | unlockBad site q rc => exact cfg.holdsGil_siteFailed _ _ _
  | announce site q k =>
      cases k with
      | wakeEmpty => exact cfg.holdsGil_siteDone _ _
      | _ => rfl
  | test q p =>
      cases p with
      | ret x => exact cfg.holdsGil_afterTest _ _ _
      | _ => rfl
  | ring q p =>
      cases p with
      | ret x =>
          simp only [QueuePc.act, next]
          split <;> rfl
      | _ => rfl
  | waitEnter q w => exact cfg.holdsGil_startWait _ _ _
  | park q w user limit => cases w <;> simp only [QueuePc.act, next] <;> split_ifs <;> rfl
  | asleep q w user limit => cases w <;> cases limit <;> rfl
  | _ =>
      simp only [QueuePc.act, next]
      repeat' split
      all_goals first
        | rfl
        | exact cfg.holdsGil_waitReturn _ _ _ _
        | exact cfg.holdsGil_afterWait _ _ _

/-! The same for the mutex. -/

/-- After a wait the call owns `put_lock` as the wait has left it. -/
theorem own_afterWait (q : Request) (rc : Rc) (o : Own) (h : rc = .ok → o = .consistent) :
    (cfg.afterWait q rc o).own = o := by
  unfold afterWait
  split_ifs with h1 h2 h3
  · rfl
  · rw [h h2]
    rfl
  · rfl
  · rfl

/-- A lock site that is done owns a consistent mutex. -/
theorem own_siteDone (site : LockSite) (q : Request) : (cfg.siteDone site q).own = .consistent := by
  cases site with
  | first => rfl
  | condWake => exact cfg.own_afterWait q _ _ fun _ => rfl
  | relock rc => exact cfg.own_afterWait q _ _ fun _ => rfl

/-- A lock site that failed owns nothing. -/
theorem own_siteFailed (site : LockSite) (q : Request) (rc : Failure) :
    (cfg.siteFailed site q rc).own = .none := by
  cases site with
  | first =>
      simp only [siteFailed, QueuePc.own]
      rw [if_neg rc.2]
  | _ => exact cfg.own_afterWait q _ _ fun h => absurd h rc.2

/-- A failed recovery leaves the mutex inconsistent. -/
theorem own_recoverFailed (site : LockSite) (q : Request) (rc : Failure) :
    (cfg.recoverFailed site q rc).own = .inconsistent := by
  cases site with
  | condWake => exact cfg.own_afterWait q _ _ fun h => absurd h rc.2
  | _ => rfl

/-- The test of the loop keeps the mutex. -/
theorem own_afterTest (q : Request) (rc : Rc) (n : ℕ) :
    (cfg.afterTest q rc n).own = .consistent := by
  unfold afterTest
  repeat' split
  all_goals rfl

/-- A wait starts with what its function holds. -/
theorem own_startWait (q : Request) (w : WaitFn) (reading : Option Timespec) :
    (cfg.startWait q w reading).own = w.own := by
  unfold startWait
  repeat' split
  all_goals first
    | rfl
    | exact cfg.own_afterWait q _ _ fun _ => rfl

/-- A wait that returned `rc` leaves its caller with what `rc` says. -/
theorem own_waitReturn (q : Request) (w : WaitFn) (rc : Rc) (o : Own)
    (h1 : rc = .eownerdead → o = .inconsistent) (h2 : rc = .ok → o = .consistent) :
    (cfg.waitReturn q w rc o).own = match w with | .cond => o | .futex _ => .none := by
  cases w with
  | cond =>
      simp only [waitReturn]
      split_ifs with h
      · rw [h1 h]
        rfl
      · exact cfg.own_afterWait q rc o h2
  | futex e => rfl

/-- `EOWNERDEAD` hands over an inconsistent mutex. -/
theorem condOwn_eownerdead {rc : Rc} (h : rc = .eownerdead) : condOwn rc = .inconsistent := by
  rw [h]
  rfl

/-- Success hands over a consistent mutex. -/
theorem condOwn_ok {rc : Rc} (h : rc = .ok) : condOwn rc = .consistent := by
  rw [h]
  rfl

/-- **The program points know who owns the mutex.** -/
theorem lockDiscipline :
    LockDiscipline QueuePc.act (cfg.next : QueuePc → QueueAnswer Tid → QueuePc)
      QueuePc.own := by
  intro p r
  cases p with
  | lockCall site q =>
      intro h
      have hans : r.lock = .ok ∨ r.lock = .ownerDead ∨ r.lock = .notRecoverable := h
      rcases hans with hr | hr | hr
      · simp only [next, hr, lockRc, dite_true]
        exact cfg.own_siteDone site q
      · simp only [next, hr, lockRc, reduceCtorEq, dite_false, if_true]
        rfl
      · simp only [next, hr, lockRc, reduceCtorEq, dite_false, if_false]
        exact cfg.own_siteFailed site q _
  | recovering site q p =>
      cases p with
      | ret rc =>
          simp only [QueuePc.act, Act.mutexOp, next]
          split_ifs
          · rfl
          · exact cfg.own_recoverFailed _ _ _
      | _ => rfl
  | makeConsistent site q =>
      intro h
      have hr : r.lock = .ok := h
      simp only [next, hr, lockRc, dite_true]
      rfl
  | unlockBad site q rc =>
      intro h
      have hr : r.lock = .ok := h
      rw [hr]
      exact cfg.own_siteFailed site q rc
  | announce site q k =>
      cases k with
      | wakeEmpty => exact cfg.own_siteDone site q
      | _ => rfl
  | lockGil q rc =>
      simp only [QueuePc.act, Act.mutexOp, next]
      split_ifs with h1 h2
      · rw [h1]
        rfl
      · rw [h2]
        rfl
      · exact (if_neg h1).symm
  | test q p =>
      cases p with
      | ret x => exact cfg.own_afterTest _ _ _
      | _ => rfl
  | ring q p =>
      cases p with
      | ret x =>
          simp only [QueuePc.act, Act.mutexOp, next]
          split <;> rfl
      | _ => rfl
  | unlockOp q rc data =>
      intro h
      have hr : r.lock = .ok := h
      simp only [next, hr]
      split_ifs <;> rfl
  | finish out o =>
      intro h
      cases o with
      | none =>
          have hr : r.lock = .notOwner := h
          rw [hr]
          rfl
      | consistent =>
          have hr : r.lock = .ok := h
          rw [hr]
          rfl
      | inconsistent =>
          have hr : r.lock = .ok := h
          rw [hr]
          rfl
  | futexUnlock q e =>
      intro h
      have hr : r.lock = .ok := h
      simp only [next, hr, if_true]
      rfl
  | waitEnter q w => exact cfg.own_startWait _ _ _
  | slice q w user =>
      simp only [QueuePc.act, Act.mutexOp, next]
      split
      · rename_i rc h
        rw [posixipcNow_error h, cfg.own_waitReturn q w _ _ (by simp) (by simp)]
        cases w <;> rfl
      · rfl
  | park q w user limit =>
      cases w with
      | cond =>
          intro h
          have hr : r.lock = .ok := h
          simp only [next, hr, if_true]
          rfl
      | futex e =>
          simp only [QueuePc.act, Act.mutexOp, next]
          split_ifs <;> rfl
  | asleep q w user limit => cases w <;> cases limit <;> rfl
  | reacquire q user res =>
      intro h
      have hans : r.lock = .ok ∨ r.lock = .ownerDead ∨ r.lock = .notRecoverable := h
      rcases hans with hr | hr | hr
      · simp only [next, hr, if_true]
        cases res <;> rfl
      · simp only [next, hr, lockRc, reduceCtorEq, if_false]
        rfl
      · simp only [next, hr, lockRc, reduceCtorEq, if_false]
        rfl
  | back q w user rc =>
      simp only [QueuePc.act, Act.mutexOp, next]
      split_ifs with h1 h2
      · rw [cfg.own_waitReturn q w _ _ (by simp) (by simp), h1.2]
        cases w <;> rfl
      · rw [h1.2]
        cases w <;> rfl
      · rw [cfg.own_waitReturn q w _ _ condOwn_eownerdead condOwn_ok]
        cases w <;> rfl
  | check q w user =>
      simp only [QueuePc.act, Act.mutexOp, next]
      cases user with
      | none => rfl
      | some d =>
          simp only
          split_ifs
          · rw [cfg.own_waitReturn q w _ _ (by simp) (by simp)]
            cases w <;> rfl
          · rfl
  | _ =>
      simp only [QueuePc.act, Act.mutexOp, next]
      repeat' split
      all_goals rfl

end QueueConfig

/-! ## Program points by their action -/

/-- The program points that lock `put_lock`. -/
theorem QueuePc.act_eq_lock {p : QueuePc} (h : p.act = .mutex .lock) :
    (∃ site q, p = .lockCall site q) ∨ ∃ q user res, p = .reacquire q user res := by
  cases p with
  | lockCall site q => exact Or.inl ⟨site, q, rfl⟩
  | reacquire q user res => exact Or.inr ⟨q, user, res, rfl⟩
  | recovering site q p => cases p <;> simp [QueuePc.act] at h
  | test q p => cases p <;> simp [QueuePc.act] at h
  | ring q p => cases p <;> simp [QueuePc.act] at h
  | announce site q k => cases k <;> simp [QueuePc.act] at h
  | park q w user limit => cases w <;> simp [QueuePc.act] at h
  | asleep q w user limit => cases w <;> cases limit <;> simp [QueuePc.act] at h
  | _ => simp [QueuePc.act] at h

/-- The program points that take the GIL. -/
theorem QueuePc.act_eq_takeGil {p : QueuePc} (h : p.act = .takeGil) :
    p = .away ∨ (∃ q rc, p = .lockGil q rc) ∨ ∃ q w user rc, p = .gil q w user rc := by
  cases p with
  | away => exact Or.inl rfl
  | lockGil q rc => exact Or.inr (Or.inl ⟨q, rc, rfl⟩)
  | gil q w user rc => exact Or.inr (Or.inr ⟨q, w, user, rc, rfl⟩)
  | recovering site q p => cases p <;> simp [QueuePc.act] at h
  | test q p => cases p <;> simp [QueuePc.act] at h
  | ring q p => cases p <;> simp [QueuePc.act] at h
  | announce site q k => cases k <;> simp [QueuePc.act] at h
  | park q w user limit => cases w <;> simp [QueuePc.act] at h
  | asleep q w user limit => cases w <;> cases limit <;> simp [QueuePc.act] at h
  | _ => simp [QueuePc.act] at h

/-- The program points that release the GIL. -/
theorem QueuePc.act_eq_dropGil {p : QueuePc} (h : p.act = .dropGil) :
    p = .leave ∨ (∃ q, p = .beginLock q) ∨ ∃ q w user limit, p = .drop q w user limit := by
  cases p with
  | leave => exact Or.inl rfl
  | beginLock q => exact Or.inr (Or.inl ⟨q, rfl⟩)
  | drop q w user limit => exact Or.inr (Or.inr ⟨q, w, user, limit, rfl⟩)
  | recovering site q p => cases p <;> simp [QueuePc.act] at h
  | test q p => cases p <;> simp [QueuePc.act] at h
  | ring q p => cases p <;> simp [QueuePc.act] at h
  | announce site q k => cases k <;> simp [QueuePc.act] at h
  | park q w user limit => cases w <;> simp [QueuePc.act] at h
  | asleep q w user limit => cases w <;> cases limit <;> simp [QueuePc.act] at h
  | _ => simp [QueuePc.act] at h

/-- Only an owner writes to the ring. -/
theorem QueuePc.own_of_store {p : QueuePc} {l : Loc} {v : ℕ} (h : p.act = .store l v) :
    p.own ≠ .none := by
  cases p with
  | recovering site q p => simp [QueuePc.own]
  | test q p => simp [QueuePc.own]
  | ring q p => simp [QueuePc.own]
  | announce site q k => simp [QueuePc.own]
  | park q w user limit => cases w <;> simp [QueuePc.act] at h
  | asleep q w user limit => cases w <;> cases limit <;> simp [QueuePc.act] at h
  | _ => simp [QueuePc.act] at h

/-- Only an owner increments a word. -/
theorem QueuePc.own_of_wordAdd {p : QueuePc} {c : Side} (h : p.act = .wordAdd c) :
    p.own ≠ .none := by
  cases p with
  | recovering site q p => simp [QueuePc.own]
  | test q p => simp [QueuePc.own]
  | ring q p => simp [QueuePc.own]
  | announce site q k => simp [QueuePc.own]
  | bump q rc data => simp [QueuePc.own]
  | park q w user limit => cases w <;> simp [QueuePc.act] at h
  | asleep q w user limit => cases w <;> cases limit <;> simp [QueuePc.act] at h
  | _ => simp [QueuePc.act] at h

/-! ## The two classes do not mix -/

/-- The class that waits with this callback. -/
def WaitFn.cls : WaitFn → QueueClass
  | .cond => .queue
  | .futex _ => .futexQueue

/-- The sites of a class. -/
def LockSite.fits (c : QueueClass) : LockSite → Prop
  | .first => True
  | .condWake => c = .queue
  | .relock _ => c = .futexQueue

/-- The program points of a class. -/
def QueuePc.fits (c : QueueClass) : QueuePc → Prop
  | .lockCall site _ => site.fits c ∧ site ≠ .condWake
  | .recovering site _ _ => site.fits c
  | .makeConsistent site _ => site.fits c
  | .unlockBad site _ _ => site.fits c
  | .announce site _ _ => site.fits c
  | .futexLoad _ => c = .futexQueue
  | .futexUnlock _ _ => c = .futexQueue
  | .waitEnter _ w => w.cls = c
  | .slice _ w _ => w.cls = c
  | .drop _ w _ _ => w.cls = c
  | .park _ w _ _ => w.cls = c
  | .asleep _ w _ _ => w.cls = c
  | .reacquire _ _ _ => c = .queue
  | .gil _ w _ _ => w.cls = c
  | .back _ w _ _ => w.cls = c
  | .check _ w _ => w.cls = c
  | _ => True

namespace QueueConfig

variable (cfg : QueueConfig) {Tid : Type}

/-- The loop is the class's own. -/
theorem fits_afterWait (q : Request) (rc : Rc) (o : Own) :
    (cfg.afterWait q rc o).fits cfg.cls := by
  unfold afterWait
  split_ifs <;> trivial

/-- A lock site of the class goes on in the class. -/
theorem fits_siteDone (site : LockSite) (q : Request) : (cfg.siteDone site q).fits cfg.cls := by
  cases site with
  | first => trivial
  | _ => exact cfg.fits_afterWait _ _ _

/-- A lock site of the class fails in the class. -/
theorem fits_siteFailed (site : LockSite) (q : Request) (rc : Failure) :
    (cfg.siteFailed site q rc).fits cfg.cls := by
  cases site with
  | first => trivial
  | _ => exact cfg.fits_afterWait _ _ _

/-- A recovery of the class fails in the class. -/
theorem fits_recoverFailed {site : LockSite} (h : site.fits cfg.cls) (q : Request)
    (rc : Failure) : (cfg.recoverFailed site q rc).fits cfg.cls := by
  cases site with
  | condWake => exact cfg.fits_afterWait _ _ _
  | _ => exact h

/-- A wait of the class returns to the class. -/
theorem fits_waitReturn {w : WaitFn} (h : w.cls = cfg.cls) (q : Request) (rc : Rc) (o : Own) :
    (cfg.waitReturn q w rc o).fits cfg.cls := by
  cases w with
  | cond =>
      rw [waitReturn]
      split_ifs
      · exact h.symm
      · exact cfg.fits_afterWait _ _ _
  | futex e => exact ⟨h.symm, by simp⟩

/-- The test of the loop waits as the class does. -/
theorem fits_afterTest (q : Request) (rc : Rc) (n : ℕ) :
    (cfg.afterTest q rc n).fits cfg.cls := by
  unfold afterTest
  repeat' split
  all_goals first
    | trivial
    | (rename_i h; exact h.symm)

/-- A wait of the class starts in the class. -/
theorem fits_startWait {w : WaitFn} (h : w.cls = cfg.cls) (q : Request)
    (reading : Option Timespec) : (cfg.startWait q w reading).fits cfg.cls := by
  unfold startWait
  repeat' split
  all_goals first
    | exact h
    | exact cfg.fits_afterWait _ _ _
    | exact ⟨h.symm, by simp⟩

/-- **A call stays within the program points of its class.** -/
theorem fits_next {p : QueuePc} (h : p.fits cfg.cls) (r : QueueAnswer Tid) :
    (cfg.next p r).fits cfg.cls := by
  cases p with
  | lockCall site q =>
      simp only [next]
      split_ifs
      · exact cfg.fits_siteDone _ _
      · exact h.1
      · exact cfg.fits_siteFailed _ _ _
  | recovering site q p =>
      cases p with
      | ret rc =>
          simp only [next]
          split_ifs
          · exact h
          · exact cfg.fits_recoverFailed h _ _
      | _ => exact h
  | makeConsistent site q =>
      simp only [next]
      split_ifs
      · exact h
      · exact cfg.fits_recoverFailed h _ _
  | unlockBad site q rc => exact cfg.fits_siteFailed _ _ _
  | announce site q k =>
      cases k with
      | wakeEmpty => exact cfg.fits_siteDone _ _
      | _ => exact h
  | test q p =>
      cases p with
      | ret x => exact cfg.fits_afterTest _ _ _
      | _ => trivial
  | ring q p =>
      cases p with
      | ret x =>
          simp only [next]
          split <;> trivial
      | _ => trivial
  | beginLock q => exact ⟨trivial, by simp⟩
  | futexLoad q => exact h
  | futexUnlock q e =>
      simp only [next]
      split_ifs
      · exact h.symm
      · exact cfg.fits_afterWait _ _ _
  | waitEnter q w => exact cfg.fits_startWait h _ _
  | slice q w user =>
      simp only [next]
      split
      · exact cfg.fits_waitReturn h _ _ _
      · exact h
  | drop q w user limit => exact h
  | park q w user limit =>
      cases w <;> simp only [next] <;> split_ifs <;> exact h
  | asleep q w user limit =>
      cases w with
      | cond => exact h.symm
      | futex e => exact h
  | reacquire q user res =>
      simp only [next]
      split_ifs <;> exact h.symm
  | gil q w user rc => exact h
  | back q w user rc =>
      simp only [next]
      split_ifs
      · exact cfg.fits_waitReturn h _ _ _
      · exact h
      · exact cfg.fits_waitReturn h _ _ _
  | check q w user =>
      simp only [next]
      cases user with
      | none => exact h
      | some d =>
          simp only
          split_ifs
          · exact cfg.fits_waitReturn h _ _ _
          · exact h
  | _ =>
      simp only [next]
      repeat' split
      all_goals trivial

/-! ## The invariant common to all runs -/

section Runs

variable {Pid : Type} [DecidableEq Tid] [DecidableEq Pid] (proc : Tid → Pid)

/-- Who holds what, and the class. -/
structure BaseInv (s : State Tid QueuePc (Shared Tid Pid Side Loc)) : Prop where
  gil : GilInv proc QueuePc.holdsGil s
  lock : LockInv QueuePc.own s
  fits : ∀ t p, s.pc t = some p → p.fits cfg.cls

omit [DecidableEq Pid] in
/-- A mapped queue that nobody uses. -/
theorem baseInv_start (m : Mem) : BaseInv cfg proc (cfg.start Tid Pid m) := by
  constructor
  · intro t
    simp [start, QueuePc.holdsGil]
  · intro t
    simp [start, QueuePc.own, RobustMutex.State.own]
  · intro t p hp
    obtain rfl : QueuePc.away = p := by simpa [start] using hp
    trivial

variable {cfg proc}

/-- **Step lemma.** -/
theorem BaseInv.step {s : State Tid QueuePc (Shared Tid Pid Side Loc)} {t : Tid} {p : QueuePc}
    {e r : QueueAnswer Tid} {sh : Shared Tid Pid Side Loc} (h : BaseInv cfg proc s)
    (hp : s.pc t = some p) (hr : perform proc t p.act e s.shared = some (r, sh)) :
    BaseInv cfg proc ⟨Function.update s.pc t (some (cfg.next p r)), sh⟩ := by
  refine ⟨h.gil.step cfg.gilDiscipline hp hr, h.lock.step cfg.lockDiscipline hp hr, ?_⟩
  intro u q hq
  by_cases hu : u = t
  · subst hu
    obtain rfl : cfg.next p r = q := by simpa using hq
    exact cfg.fits_next (h.fits u p hp) r
  · exact h.fits u q (by simpa [hu] using hq)

omit [DecidableEq Pid] in
/-- The owner of the mutex is at a program point that says so. -/
theorem BaseInv.own_of_owned {s : State Tid QueuePc (Shared Tid Pid Side Loc)} {t : Tid}
    {p : QueuePc} (h : BaseInv cfg proc s) (hp : s.pc t = some p)
    (hown : s.shared.mutex.OwnedBy t) : p.own ≠ .none := by
  have ht := h.lock t
  rw [hp] at ht
  simp only [Option.elim_some] at ht
  rw [← ht]
  rcases hown with hm | hm <;> simp [hm, RobustMutex.State.own]

/-- A thread that does not own the mutex changes neither the ring nor the words. -/
theorem perform_of_own_none {t : Tid} {p : QueuePc} {e r : QueueAnswer Tid}
    {sh sh' : Shared Tid Pid Side Loc} (hown : p.own = .none)
    (hr : perform proc t p.act e sh = some (r, sh')) :
    sh'.mem = sh.mem ∧ sh'.word = sh.word := by
  constructor
  · rcases perform_mem hr with ⟨l, v, ha, -⟩ | ⟨-, hm⟩
    · exact absurd hown (QueuePc.own_of_store ha)
    · exact hm
  · rcases perform_word hr with ⟨c, ha, -⟩ | ⟨-, hw⟩
    · exact absurd hown (QueuePc.own_of_wordAdd ha)
    · exact hw

/-- A death takes the thread's claims with it. -/
theorem BaseInv.die {s : State Tid QueuePc (Shared Tid Pid Side Loc)} {t : Tid}
    (h : BaseInv cfg proc s) :
    BaseInv cfg proc ⟨Function.update s.pc t none, die proc t s.shared⟩ := by
  refine ⟨h.gil.die, h.lock.die, ?_⟩
  intro u q hq
  by_cases hu : u = t
  · subst hu
    simp at hq
  · exact h.fits u q (by simpa [hu] using hq)

end Runs

end QueueConfig

/-! ## Concrete queues and schedules -/

/-- A calm environment: wake-ups, no signal, a clock that stands still. -/
def calm {Tid : Type} : QueueAnswer Tid := ⟨.ok, .woken, false, 0, none, some ⟨0, 0⟩, none⟩

/-- `n` actions of a thread in a calm environment. -/
def steps {Tid : Type} (t : Tid) (n : ℕ) : List (Label Tid (QueueAnswer Tid)) :=
  List.replicate n (.act t calm)

/-- A thread takes the GIL and makes a request. -/
def request {Tid : Type} (t : Tid) (q : Request) : List (Label Tid (QueueAnswer Tid)) :=
  [.act t calm, .act t { calm with req := some q }]

/-- A `Queue` of depth 1 for items of one byte. -/
def smallQueue : QueueConfig := ⟨.queue, ⟨some 0, some 64, some 128, 1, 1, 64⟩, .monotonic⟩

/-- A `FutexQueue` of the same geometry. -/
def smallFutexQueue : QueueConfig :=
  ⟨.futexQueue, ⟨some 64, some 128, some 192, 1, 1, 64⟩, .monotonic⟩

end PosixIpc
