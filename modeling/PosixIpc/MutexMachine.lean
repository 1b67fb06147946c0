/-
# Threads on one mutex (`py_mutex.c`, `py_array.c`, the `Condition` part of `py_sync.c`)

The calls of a `Mutex` or `RobustMutex` handle, of a `MutexArray` (by index, or through an
item object) and of a `Condition`, as code in the world of `OsWorld`.  All threads use one
robust, error-checking mutex; a handle and an item each have a cell for their `locked` flag.

A call that gets `EOWNERDEAD` runs `on_owner_died`, which is Python code: the thread is
back at `python` with the call on its stack, and may make calls itself until the callback
returns or raises.

Left out: handles that are closed during a call, and `__enter__`, which is `acquire` with
the default options.
-/
import PosixIpc.OsWorld
import PosixIpc.Deadline

namespace PosixIpc

open RobustMutex OsWorld ThreadMachine

/-! ## Requests and outcomes -/

/-- The clocks of the mutex (`posixipc_mutex_clock`) and of the conditions. -/
structure MutexConfig where
  mutexClk : ClockId
  condClk : ClockId

/-- The object through which the mutex is used. -/
inductive Via (Hid : Type)
  /-- A `Mutex` or `RobustMutex`. -/
  | handle (h : Hid)
  /-- `MutexArray.acquire(i)` and `MutexArray.release(i)`. -/
  | index
  /-- `MutexArray[i]`. -/
  | item (h : Hid)
  deriving DecidableEq

/-- The cell of its `locked` flag. -/
def Via.flag {Hid : Type} : Via Hid → Option Hid
  | .handle h => some h
  | .index => none
  | .item h => some h

/-- The calls that lock the mutex. -/
inductive MutexCall (Cv Hid : Type)
  | acquire (v : Via Hid) (o : AcquireOpts)
  /-- `Condition.wait` on `c`, whose mutex is the handle `h`. -/
  | wait (c : Cv) (h : Hid) (o : AcquireOpts)
  deriving DecidableEq

namespace MutexCall

variable {Cv Hid : Type}

def opts : MutexCall Cv Hid → AcquireOpts
  | .acquire _ o => o
  | .wait _ _ o => o

def via : MutexCall Cv Hid → Via Hid
  | .acquire v _ => v
  | .wait _ h _ => .handle h

end MutexCall

/-- What raises. -/
inductive Exc
  /-- A bad argument, or a handle that is closed or not bound. -/
  | refused
  /-- `Condition.wait() cannot be non-blocking` -/
  | nonBlockingWait
  /-- `cannot wait on an un-acquired mutex` -/
  | unAcquired
  /-- `RobustMutex has no on_owner_died` -/
  | noCallback
  /-- The exception of `on_owner_died`. -/
  | callback
  | noMemory
  /-- `mutex is permanently unusable` -/
  | notRecoverable
  /-- `lock already held by this thread` -/
  | alreadyHeld
  /-- `release unlocked lock` -/
  | releaseUnlocked
  /-- The exception of a signal handler. -/
  | interrupted
  | os (rc : Rc)
  deriving DecidableEq

/-- How a call ends. -/
inductive Ending
  | yes
  | no
  | nothing
  | raised (e : Exc)
  deriving DecidableEq

/-- What Python code does next. -/
inductive PyStep (Cv Hid : Type)
  | call (q : MutexCall Cv Hid)
  | release (v : Via Hid)
  /-- `__exit__` -/
  | exit (v : Via Hid)
  | notify (c : Cv)
  | notifyAll (c : Cv)
  | callbackReturn
  | callbackRaise
  deriving DecidableEq

/-- What follows the store of 1 to a `locked` flag. -/
inductive AfterMark
  | recover
  | ends (out : Ending)
  deriving DecidableEq

/-- The calls whose callback is running, the innermost first. -/
abbrev CallStack (Cv Hid : Type) := List (MutexCall Cv Hid)

/-- The program points.  `k` is the stack. -/
inductive MutexPc (Cv Hid : Type)
  /-- Outside Python, without the GIL. -/
  | away (k : CallStack Cv Hid)
  | python (k : CallStack Cv Hid) (last : Option (PyStep Cv Hid × Ending))
  | leave (k : CallStack Cv Hid)
  | enter (k : CallStack Cv Hid) (q : MutexCall Cv Hid)
  | readFlag (k : CallStack Cv Hid) (c : Cv) (h : Hid) (o : AcquireOpts)
  | tryLock (k : CallStack Cv Hid) (v : Via Hid) (o : AcquireOpts)
  | waitEnter (k : CallStack Cv Hid) (q : MutexCall Cv Hid)
  | slice (k : CallStack Cv Hid) (q : MutexCall Cv Hid) (user : Option Deadline)
  | drop (k : CallStack Cv Hid) (q : MutexCall Cv Hid) (user limit : Option Deadline)
  /-- The blocking function: a lock call, or the first half of a condition wait. -/
  | fn (k : CallStack Cv Hid) (q : MutexCall Cv Hid) (user limit : Option Deadline)
  | asleep (k : CallStack Cv Hid) (c : Cv) (h : Hid) (o : AcquireOpts)
      (user limit : Option Deadline)
  | reacquire (k : CallStack Cv Hid) (c : Cv) (h : Hid) (o : AcquireOpts)
      (user : Option Deadline) (res : SleepResult)
  | gil (k : CallStack Cv Hid) (q : MutexCall Cv Hid) (user : Option Deadline) (rc : Rc)
  | back (k : CallStack Cv Hid) (q : MutexCall Cv Hid) (user : Option Deadline) (rc : Rc)
  | check (k : CallStack Cv Hid) (q : MutexCall Cv Hid) (user : Option Deadline)
  | mark (k : CallStack Cv Hid) (q : MutexCall Cv Hid) (h : Hid) (after : AfterMark)
  | ownerDied (k : CallStack Cv Hid) (q : MutexCall Cv Hid)
  | newItem (k : CallStack Cv Hid) (q : MutexCall Cv Hid)
  | makeConsistent (k : CallStack Cv Hid) (q : MutexCall Cv Hid)
  | unlockBad (k : CallStack Cv Hid) (q : MutexCall Cv Hid) (e : Exc)
  | unmark (k : CallStack Cv Hid) (q : MutexCall Cv Hid) (h : Hid) (e : Exc)
  | exitFlag (k : CallStack Cv Hid) (v : Via Hid) (h : Hid)
  | unlock (k : CallStack Cv Hid) (v : Via Hid)
  | released (k : CallStack Cv Hid) (v : Via Hid) (h : Hid)
  | notify (k : CallStack Cv Hid) (c : Cv)
  | notifyAll (k : CallStack Cv Hid) (c : Cv)

/-- Answers of this world: clock readings, and what Python does next (`none`: let another
thread run). -/
abbrev MutexAnswer (Tid Cv Hid : Type) := Answer Tid (Option Timespec) (Option (PyStep Cv Hid))

section Code

variable {Cv Hid : Type}

/-! ## The code -/

/-- The action at a program point. -/
def MutexPc.act : MutexPc Cv Hid → Act Cv Hid
  | .away _ => .takeGil
  | .python _ _ => .consult
  | .leave _ => .dropGil
  | .enter _ _ => .consult
  | .readFlag _ _ h _ => .load h
  | .tryLock _ _ _ => .mutex .tryLock
  | .waitEnter _ _ => .consult
  | .slice _ _ _ => .consult
  | .drop _ _ _ _ => .dropGil
  | .fn _ (.acquire _ _) _ none => .mutex .lock
  | .fn _ (.acquire _ _) _ (some _) => .mutex .timedLock
  | .fn _ (.wait c _ _) _ _ => .park c
  | .asleep _ c _ _ _ none => .sleep c []
  | .asleep _ c _ _ _ (some _) => .sleep c [.timedOut]
  | .reacquire _ _ _ _ _ _ => .mutex .lock
  | .gil _ _ _ _ => .takeGil
  | .back _ _ _ _ => .consult
  | .check _ _ _ => .consult
  | .mark _ _ h _ => .store h 1
  | .ownerDied _ _ => .consult
  | .newItem _ _ => .consult
  | .makeConsistent _ _ => .mutex .consistent
  | .unlockBad _ _ _ => .mutex .unlock
  | .unmark _ _ h _ => .store h 0
  | .exitFlag _ _ h => .load h
  | .unlock _ _ => .mutex .unlock
  | .released _ _ h => .store h 0
  | .notify _ c => .wakeOne c
  | .notifyAll _ c => .wakeAll c

namespace MutexPc

/-- A call returns to Python. -/
def ret (k : CallStack Cv Hid) (q : MutexCall Cv Hid) (out : Ending) : MutexPc Cv Hid :=
  .python k (some (.call q, out))

/-- The mutex is held and consistent: store the flag of the object and return `True`. -/
def lockDone (k : CallStack Cv Hid) (q : MutexCall Cv Hid) : MutexPc Cv Hid :=
  match q.via.flag with
  | some h => .mark k q h (.ends .yes)
  | none => .ret k q .yes

/-- `posixipc_mutex_after_lock` and `array_after_lock`.  Only a handle stores its flag
before the callback runs. -/
def afterLock (k : CallStack Cv Hid) (q : MutexCall Cv Hid) (rc : Rc) : MutexPc Cv Hid :=
  if rc = .ok then lockDone k q
  else if rc = .eownerdead then
    match q.via with
    | .handle h => .mark k q h .recover
    | _ => .ownerDied k q
  else if rc = .enotrecoverable then .ret k q (.raised .notRecoverable)
  else if rc = .etimedout ∨ rc = .ebusy then .ret k q .no
  else if rc = .edeadlk then .ret k q (.raised .alreadyHeld)
  else if rc = .interrupted then .ret k q (.raised .interrupted)
  else .ret k q (.raised (.os rc))

/-- `posixipc_blocking_wait` (or the plain call) returned `rc` to the method. -/
def waitReturn (k : CallStack Cv Hid) (q : MutexCall Cv Hid) (rc : Rc) : MutexPc Cv Hid :=
  match q with
  | .acquire _ _ => afterLock k q rc
  | .wait _ h _ =>
    if rc = .interrupted then .mark k q h (.ends (.raised .interrupted))
    else if rc = .etimedout then .mark k q h (.ends .no)
    else afterLock k q rc

/-- The recovery failed and the mutex is unlocked again. -/
def recoveryFailed (k : CallStack Cv Hid) (q : MutexCall Cv Hid) (e : Exc) : MutexPc Cv Hid :=
  match q.via with
  | .handle h => .unmark k q h e
  | _ => .ret k q (.raised e)

/-- What Python code does. -/
def dispatch (k : CallStack Cv Hid) : PyStep Cv Hid → MutexPc Cv Hid
  | .call q => .enter k q
  | .release v => .unlock k v
  | .exit v =>
    match v.flag with
    | some h => .exitFlag k v h
    | none => .python k none
  | .notify c => .notify k c
  | .notifyAll c => .notifyAll k c
  | .callbackReturn =>
    match k with
    | [] => .python [] none
    | q :: k => .makeConsistent k q
  | .callbackRaise =>
    match k with
    | [] => .python [] none
    | q :: k => .unlockBad k q .callback

end MutexPc

namespace MutexConfig

variable (cfg : MutexConfig)

/-- The clock of a call. -/
def clock : MutexCall Cv Hid → ClockId
  | .acquire _ _ => cfg.mutexClk
  | .wait _ _ _ => cfg.condClk

/-- The start of a wait: the user's deadline, and the way to wait. -/
def startWait (k : CallStack Cv Hid) (q : MutexCall Cv Hid) (reading : Option Timespec) :
    MutexPc Cv Hid :=
  match q.opts.deadline (cfg.clock q) reading with
  | .error rc => .ret k q (.raised (.os rc))
  | .ok user => if q.opts.interruptible then .slice k q user else .drop k q user user

/-- The program point after an action. -/
def next {Tid : Type} : MutexPc Cv Hid → MutexAnswer Tid Cv Hid → MutexPc Cv Hid
  | .away k, _ => .python k none
  | .python k _, r =>
    match r.req with
    | none => .leave k
    | some a => .dispatch k a
  | .leave k, _ => .away k
  | .enter k q, r =>
    if r.flag then .ret k q (.raised .refused)
    else
      match q with
      | .acquire v o => .tryLock k v o
      | .wait c h o =>
        if o.blocking then .readFlag k c h o else .ret k q (.raised .nonBlockingWait)
  | .readFlag k c h o, r =>
    if r.val = 0 then .ret k (.wait c h o) (.raised .unAcquired) else .waitEnter k (.wait c h o)
  | .tryLock k v o, r =>
    if lockRc r.lock ≠ .ebusy then .afterLock k (.acquire v o) (lockRc r.lock)
    else if o.noWait then .ret k (.acquire v o) .no
    else .waitEnter k (.acquire v o)
  | .waitEnter k q, r => cfg.startWait k q r.reading
  | .slice k q user, r =>
    match posixipcNow r.reading with
    | .error rc => .waitReturn k q rc
    | .ok now => .drop k q user (some (sliceDeadline (cfg.clock q) user now))
  | .drop k q user limit, _ => .fn k q user limit
  | .fn k (.acquire v o) user _, r => .gil k (.acquire v o) user (lockRc r.lock)
  | .fn k (.wait c h o) user limit, r =>
    if r.lock = .ok then .asleep k c h o user limit
    else .gil k (.wait c h o) user (lockRc r.lock)
  | .asleep k c h o user _, r => .reacquire k c h o user r.sleep
  | .reacquire k c h o user res, r =>
    if r.lock = .ok then .gil k (.wait c h o) user (sleepRc res)
    else .gil k (.wait c h o) user (lockRc r.lock)
  | .gil k q user rc, _ => .back k q user rc
  | .back k q user rc, r =>
    if q.opts.interruptible ∧ rc = .etimedout then
      if r.flag then .waitReturn k q .interrupted else .check k q user
    else .waitReturn k q rc
  | .check k q user, r =>
    match user with
    | none => .slice k q none
    | some d =>
      if posixipcDeadlineExpired d r.reading then .waitReturn k q .etimedout
      else .slice k q (some d)
  | .mark k q _ .recover, _ => .ownerDied k q
  | .mark k q _ (.ends out), _ => .ret k q out
  | .ownerDied k q, r =>
    if r.flag then .unlockBad k q .noCallback
    else
      match q.via with
      | .index => .newItem k q
      | _ => .python (q :: k) none
  | .newItem k q, r => if r.flag then .unlockBad k q .noMemory else .python (q :: k) none
  | .makeConsistent k q, r =>
    if lockRc r.lock ≠ .ok then .unlockBad k q (.os (lockRc r.lock))
    else
      match q.via with
      | .item h => .mark k q h (.ends .yes)
      | _ => .ret k q .yes
  | .unlockBad k q e, _ => .recoveryFailed k q e
  | .unmark k q _ e, _ => .ret k q (.raised e)
  | .exitFlag k v _, r => if r.val = 0 then .python k (some (.exit v, .nothing)) else .unlock k v
  | .unlock k v, r =>
    if lockRc r.lock = .eperm then .python k (some (.release v, .raised .releaseUnlocked))
    else if lockRc r.lock ≠ .ok then .python k (some (.release v, .raised (.os (lockRc r.lock))))
    else
      match v.flag with
      | some h => .released k v h
      | none => .python k (some (.release v, .nothing))
  | .released k v _, _ => .python k (some (.release v, .nothing))
  | .notify k c, _ => .python k (some (.notify c, .nothing))
  | .notifyAll k c, _ => .python k (some (.notifyAll c, .nothing))

/-- The machine of a mutex. -/
def machine {Tid Pid : Type} [DecidableEq Tid] [DecidableEq Pid] [DecidableEq Cv]
    [DecidableEq Hid] (proc : Tid → Pid) :
    Machine Tid (MutexPc Cv Hid) (Act Cv Hid) (MutexAnswer Tid Cv Hid) (MutexAnswer Tid Cv Hid)
      (Shared Tid Pid Cv Hid) :=
  OsWorld.machine proc MutexPc.act cfg.next

end MutexConfig

/-- All threads outside Python, the mutex free, every flag clear. -/
def mutexStart (Tid Pid Cv Hid : Type) : State Tid (MutexPc Cv Hid) (Shared Tid Pid Cv Hid) where
  pc := fun _ => some (.away [])
  shared :=
    { gil := fun _ => none
      mutex := .unlocked
      waiters := fun _ => []
      word := fun _ => 0
      mem := fun _ => 0 }

end Code

/-! ## Runs of three processes

Three threads, each in a process of its own and with a handle of its own, and one condition. -/

/-- A machine of three processes. -/
def trio : Machine (Fin 3) (MutexPc Unit (Fin 3)) (Act Unit (Fin 3))
    (MutexAnswer (Fin 3) Unit (Fin 3)) (MutexAnswer (Fin 3) Unit (Fin 3))
    (Shared (Fin 3) (Fin 3) Unit (Fin 3)) :=
  MutexConfig.machine ⟨.monotonic, .monotonic⟩ id

/-- The environment answers the actions that ask it for nothing special. -/
def trioCalm : MutexAnswer (Fin 3) Unit (Fin 3) := ⟨.ok, .woken, false, 0, none, some ⟨0, 0⟩, none⟩

/-- `n` actions of a thread. -/
def trioSteps (t : Fin 3) (n : ℕ) : List (Label (Fin 3) (MutexAnswer (Fin 3) Unit (Fin 3))) :=
  List.replicate n (.act t trioCalm)

/-- Python code does something. -/
def trioDo (t : Fin 3) (a : PyStep Unit (Fin 3)) :
    Label (Fin 3) (MutexAnswer (Fin 3) Unit (Fin 3)) :=
  .act t { trioCalm with req := some a }

/-- `acquire` by the own handle of a thread. -/
def trioAcquire (t : Fin 3) (o : AcquireOpts) : MutexCall Unit (Fin 3) := .acquire (.handle t) o

/-- The start of the three. -/
def trioStart : State (Fin 3) (MutexPc Unit (Fin 3)) (Shared (Fin 3) (Fin 3) Unit (Fin 3)) :=
  mutexStart (Fin 3) (Fin 3) Unit (Fin 3)

end PosixIpc
