/-
# Deadlines (`posixipc_time.c`, `py_wait.c`)

Absolute deadlines on one of two clocks.  A `double` number of seconds is taken as the
rational it denotes, or as infinite; a product of two is rounded, and the conversions to
`time_t` and `long` truncate what fits.  A clock reading is an input of the functions that
call `clock_gettime`, `none` standing for a failed call.
-/
import PosixIpc.BinaryRounding
import PosixIpc.Result

namespace PosixIpc

open BinaryRounding

/-- The two clocks in use. -/
inductive ClockId
  | monotonic
  | realtime
  deriving DecidableEq, Repr

/-- `struct timespec`. -/
structure Timespec where
  sec : ℤ
  nsec : ℤ
  deriving DecidableEq, Repr

/-- What `clock_gettime` stores. -/
def Timespec.Proper (ts : Timespec) : Prop := 0 ≤ ts.nsec ∧ ts.nsec < 1000000000

instance (ts : Timespec) : Decidable ts.Proper :=
  inferInstanceAs (Decidable (0 ≤ ts.nsec ∧ ts.nsec < 1000000000))

/-- `posixipc_deadline`. -/
structure Deadline where
  clk : ClockId
  ts : Timespec
  deriving DecidableEq, Repr

/-- `posixipc_now` on a given reading. -/
def posixipcNow : Option Timespec → Except Rc Timespec
  | none => .error .einval
  | some ts => .ok ts

/-- The clock fails with `EINVAL` only. -/
theorem posixipcNow_error {reading : Option Timespec} {rc : Rc}
    (h : posixipcNow reading = .error rc) : rc = .einval := by
  cases reading with
  | none => simpa [posixipcNow] using h.symm
  | some ts => simp [posixipcNow] at h

/-- The arithmetic of `double`. -/
def binary64 : Rounding 53 := .binary 53 (-1074) (by decide) (by decide)

/-- The conversion of a floating-point number to an integer type. -/
def truncate (x : ℚ) : ℤ := x.num.tdiv x.den

/-- The values of `time_t` and of `long`. -/
def InInt64 (x : ℤ) : Prop := -2 ^ 63 ≤ x ∧ x < 2 ^ 63

instance (x : ℤ) : Decidable (InInt64 x) :=
  inferInstanceAs (Decidable (-2 ^ 63 ≤ x ∧ x < 2 ^ 63))

/-- The conversion of a `double` to `time_t` or `long`; C defines it only if the truncated
number fits. -/
def toInt64 (x : ℚ) : Option ℤ :=
  if InInt64 (truncate x) then some (truncate x) else none

/-- `add_seconds`, where both of its conversions are defined. -/
def addSeconds (rnd : Rounding 53) (ts : Timespec) : WithTop ℚ → Option Timespec
  | ⊤ => none
  | (seconds : ℚ) => do
    let add ← toInt64 seconds
    let frac := max (seconds - add) 0
    let nsec ← toInt64 (rnd.round (frac * 1000000000))
    let add := if add > 100000000 then 100000000 else add
    let sec := ts.sec + add
    let nsec := ts.nsec + nsec
    return if nsec ≥ 1000000000 then ⟨sec + 1, nsec - 1000000000⟩ else ⟨sec, nsec⟩

/-- `posixipc_deadline_from_seconds`, where the conversions of `add_seconds` are defined. -/
def posixipcDeadlineFromSeconds (rnd : Rounding 53) (clk : ClockId) (seconds : WithTop ℚ)
    (reading : Option Timespec) : Option (Except Rc Deadline) :=
  if seconds < 0 then some (.error .einval)
  else
    match posixipcNow reading with
    | .error rc => some (.error rc)
    | .ok now => (addSeconds rnd now seconds).map fun ts => .ok ⟨clk, ts⟩

/-- `posixipc_deadline_min`. -/
def posixipcDeadlineMin (a b : Deadline) : Deadline :=
  if a.clk ≠ b.clk then a
  else if b.ts.sec < a.ts.sec ∨ (b.ts.sec = a.ts.sec ∧ b.ts.nsec < a.ts.nsec) then b
  else a

/-- `posixipc_deadline_expired`; a failed reading counts as expired. -/
def posixipcDeadlineExpired (d : Deadline) (reading : Option Timespec) : Bool :=
  match reading with
  | none => true
  | some now =>
    if now.sec > d.ts.sec then true
    else if now.sec < d.ts.sec then false
    else now.nsec ≥ d.ts.nsec

/-- `SLICE_NS`. -/
def sliceNs : ℤ := 50000000

/-- `add_ns`. -/
def addNs (ts : Timespec) (ns : ℤ) : Timespec :=
  if ts.nsec + ns ≥ 1000000000 then ⟨ts.sec + 1, ts.nsec + ns - 1000000000⟩
  else ⟨ts.sec, ts.nsec + ns⟩

/-- The deadline of one slice of `posixipc_blocking_wait`. -/
def sliceDeadline (clk : ClockId) (user : Option Deadline) (now : Timespec) : Deadline :=
  match user with
  | none => ⟨clk, addNs now sliceNs⟩
  | some d => posixipcDeadlineMin d ⟨d.clk, addNs now sliceNs⟩

/-- The deadline that stands for no deadline in an uninterruptible wait. -/
def farDeadline (clk : ClockId) : Deadline := ⟨clk, ⟨0x7fffffff, 0⟩⟩

/-- `posixipc_acquire_opts`. -/
structure AcquireOpts where
  timeoutNone : Bool
  timeout : WithTop ℚ
  blocking : Bool
  interruptible : Bool
  deriving DecidableEq

/-- The defaults of `posixipc_parse_acquire`. -/
def AcquireOpts.default : AcquireOpts := ⟨true, 0, true, true⟩

/-- A call with these options does not wait at all. -/
def AcquireOpts.noWait (o : AcquireOpts) : Bool :=
  !o.blocking || (!o.timeoutNone && decide (o.timeout = 0))

/-- What x86-64 stores where C leaves `add_seconds` undefined: both conversions give the
least number. -/
def Timespec.wrapped (ts : Timespec) : Timespec := ⟨ts.sec - 2 ^ 63, ts.nsec - 2 ^ 63⟩

/-- The user's deadline of a call, if it has one. -/
def AcquireOpts.deadline (o : AcquireOpts) (clk : ClockId) (reading : Option Timespec) :
    Except Rc (Option Deadline) :=
  if o.timeoutNone then .ok none
  else
    match posixipcDeadlineFromSeconds binary64 clk o.timeout reading with
    | some d => d.map some
    | none => (posixipcNow reading).map fun now => some ⟨clk, now.wrapped⟩

end PosixIpc
