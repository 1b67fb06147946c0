/-
# Result codes

The codes that travel through the C core: `0`, the errno values that the wrapped
calls are documented to return, and the private codes of `posixipc_result.h`.
-/
import PosixIpc.OsWorld

namespace PosixIpc

open OsWorld

/-- A result code of the core.  `ok` is `0`; `other` is any further errno value. -/
inductive Rc
  | ok
  | eperm
  | enoent
  | eintr
  | eagain
  | enomem
  | eacces
  | ebusy
  | eexist
  | einval
  | edeadlk
  | enosys
  | etimedout
  | eownerdead
  | enotrecoverable
  | layoutMismatch
  | notReady
  | broken
  | interrupted
  | other (code : ℕ)
  deriving DecidableEq, Repr

/-- The code of a mutex call. -/
def lockRc : RobustMutex.Result → Rc
  | .ok => .ok
  | .ownerDead => .eownerdead
  | .notRecoverable => .enotrecoverable
  | .deadlock => .edeadlk
  | .busy => .ebusy
  | .timedOut => .etimedout
  | .notOwner => .eperm
  | .invalid => .einval

/-- The code of a finished wait; `futex_wait_cb` turns `EINTR` into `ETIMEDOUT`. -/
def sleepRc : SleepResult → Rc
  | .woken => .ok
  | .timedOut => .etimedout
  | .interrupted => .etimedout

end PosixIpc
