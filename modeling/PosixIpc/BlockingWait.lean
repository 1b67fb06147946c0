/-
# Blocking calls (`py_wait.c` and its callers)

`posixipc_blocking_wait` repeats a timed call in slices of 50 ms.  Ten operations are built
on it; they differ in the clock, in the callback, in what they try before they wait and in
the codes that they report as `False` or `None`.  This module has the helper and the ten
operations as functions of one call's surroundings: what the clock read and what the wrapped
calls returned, in the order in which the call sees them.

* `posixipcBlockingWait` : the helper, on the passes of its loop;
* `BlockingOp.call` : an operation;
* `Script.Granted` : what the kernel may answer;
* `timeout_sound_iff` : when a reported timeout is one;
* `timeout_on_signal` : a signal that is reported as a timeout.

The clock does not fail here, and a recovery or a lock call that a queue makes around its
wait is one answer.
-/
import PosixIpc.DeadlineRange

namespace PosixIpc

/-! ## The helper -/

/-- A reading of a clock. -/
abbrev Reading := { ts : Timespec // ts.Proper }

/-- The clock has reached a deadline. -/
def Deadline.Reached (d : Deadline) (now : Reading) : Prop :=
  posixipcDeadlineExpired d (some now.1) = true

instance (d : Deadline) (now : Reading) : Decidable (d.Reached now) :=
  inferInstanceAs (Decidable (posixipcDeadlineExpired d (some now.1) = true))

/-- A normalised deadline is reached when the clock has its nanoseconds. -/
theorem Deadline.reached_iff {d : Deadline} (hd : d.ts.Proper) (now : Reading) :
    d.Reached now ↔ d.ts.ns ≤ now.1.ns := by
  obtain ⟨hd0, hd1⟩ := hd
  obtain ⟨hn0, hn1⟩ := now.2
  simp only [Deadline.Reached, posixipcDeadlineExpired, Timespec.ns]
  split_ifs <;> simp <;> omega

/-- A deadline that wrapped around is reached by every later reading. -/
theorem wrapped_reached (clk : ClockId) {entry now : Reading} (h : entry.1.ns ≤ now.1.ns) :
    (⟨clk, entry.1.wrapped⟩ : Deadline).Reached now := by
  obtain ⟨he0, he1⟩ := entry.2
  obtain ⟨hn0, hn1⟩ := now.2
  unfold Timespec.ns at h
  have hsec : entry.1.wrapped.sec < now.1.sec := by
    simp only [Timespec.wrapped]
    omega
  simp only [Deadline.Reached, posixipcDeadlineExpired, gt_iff_lt, if_pos hsec]

/-- One pass of the loop in `posixipc_blocking_wait`, which calls the callback once. -/
structure Round where
  /-- `posixipc_now` -/
  now : Reading
  /-- What the wrapped call returned, and the clock then. -/
  raw : Rc
  back : Reading
  /-- `PyErr_CheckSignals() < 0` -/
  raises : Bool
  /-- The reading in `posixipc_deadline_expired`. -/
  check : Reading
  deriving DecidableEq

/-- The readings of the passes do not go back, from `t` on. -/
def Follow : ℤ → List Round → Prop
  | _, [] => True
  | t, r :: rs => t ≤ r.now.1.ns ∧ r.now.1.ns ≤ r.back.1.ns ∧ r.back.1.ns ≤ r.check.1.ns ∧
      Follow r.check.1.ns rs

/-- The deadline that the callback gets. -/
def Round.limit (clk : ClockId) (user : Option Deadline) (interruptible : Bool) (r : Round) :
    Deadline :=
  if interruptible then sliceDeadline clk user r.now.1 else user.getD (farDeadline clk)

/-- `posixipc_blocking_wait`: the code and the pass in which it returns it; `none` when it still
waits after these passes. -/
def posixipcBlockingWait (cb : Rc → Rc) (user : Option Deadline) (interruptible : Bool) :
    List Round → Option (Rc × Round)
  | [] => none
  | r :: rs =>
    if !interruptible then some (cb r.raw, r)
    else if cb r.raw ≠ .etimedout then some (cb r.raw, r)
    else if r.raises then some (.interrupted, r)
    else
      match user with
      | none => posixipcBlockingWait cb user interruptible rs
      | some d =>
        if d.Reached r.check then some (.etimedout, r)
        else posixipcBlockingWait cb user interruptible rs

/-- `futex_wait_cb` -/
def futexWaitCb (rc : Rc) : Rc := if rc = .eintr then .etimedout else rc

/-! ## The operations -/

/-- The operations that wait with the helper. -/
inductive BlockingOp
  | mutex
  | mutexArray
  | rwlock
  | condition
  | semaphore
  | namedSemaphore
  | queue
  | futexQueue
  | futex
  | messageQueue
  deriving DecidableEq

/-- The clocks found when the module was loaded, or fixed when the object was made. -/
structure ClockSet where
  /-- `posixipc_mutex_clock` -/
  mutex : ClockId
  /-- `posixipc_rwlock_clock` -/
  rwlock : ClockId
  /-- `posixipc_sem_clock` -/
  sem : ClockId
  /-- `posixipc_cond_clock` of the condition, or of the conditions of the queue. -/
  cond : ClockId

namespace BlockingOp

/-- The clock of an operation. -/
def clock (c : ClockSet) : BlockingOp → ClockId
  | mutex => c.mutex
  | mutexArray => c.mutex
  | rwlock => c.rwlock
  | condition => c.cond
  | semaphore => c.sem
  | namedSemaphore => c.sem
  | queue => c.cond
  | futexQueue => .monotonic
  | futex => .monotonic
  | messageQueue => .realtime

/-- The callback of an operation, as a translation of what the wrapped call returned. -/
def callback : BlockingOp → Rc → Rc
  | futexQueue => futexWaitCb
  | futex => futexWaitCb
  | _ => id

/-- Without timeout and interruption the operation makes an untimed call. -/
def untimed : BlockingOp → Bool
  | namedSemaphore => false
  | futexQueue => false
  | futex => false
  | _ => true

/-- The codes that the method reports as `False` or `None`. -/
def noCodes : BlockingOp → List Rc
  | mutex => [.etimedout, .ebusy]
  | mutexArray => [.etimedout, .ebusy]
  | rwlock => [.etimedout, .ebusy]
  | condition => [.etimedout, .ebusy]
  | semaphore => [.etimedout, .eagain]
  | namedSemaphore => [.etimedout, .eagain]
  | queue => [.etimedout]
  | futexQueue => [.etimedout]
  | futex => [.etimedout]
  | messageQueue => [.etimedout, .eagain]

/-- The wrapped call is one for which `EINTR` is documented. -/
def mayInterrupt : BlockingOp → Bool
  | semaphore => true
  | namedSemaphore => true
  | futexQueue => true
  | futex => true
  | messageQueue => true
  | _ => false

end BlockingOp

/-- How a call ends.  `error` is a code that the method raises or, for `EOWNERDEAD`, hands to
the recovery. -/
inductive CallEnd
  | yes
  | no
  /-- `Condition.wait() cannot be non-blocking` -/
  | refused
  | error (rc : Rc)
  deriving DecidableEq

/-- One wait of a call. -/
structure Wait where
  /-- The reading from which the deadline is computed. -/
  entry : Reading
  /-- What the untimed call returns. -/
  untimed : Rc
  rounds : List Round
  deriving DecidableEq

/-- One pass of the loop in `put` and `get` of a queue. -/
structure Pass where
  /-- The test of the loop. -/
  ready : Bool
  wait : Wait
  /-- `fq_lock` after the wait of a `FutexQueue`; the recovery after `EOWNERDEAD` in
  `queue_wait_cond`. -/
  relock : Rc
  deriving DecidableEq

/-- What one call meets. -/
structure Script where
  /-- The first attempt, or the first lock of a queue. -/
  first : Rc
  /-- The word of a futex has another value than expected. -/
  changed : Bool
  wait : Wait
  passes : List Pass
  deriving DecidableEq

/-- A wait's code with the user's deadline and the pass in which it returned. -/
abbrev WaitInfo := Option (Option Deadline × Round)

namespace BlockingOp

variable (c : ClockSet) (op : BlockingOp) (o : AcquireOpts)

/-- The deadline and the wait, as all ten operations have them. -/
def waitOnce (w : Wait) : Option (Rc × WaitInfo) :=
  match o.deadline (op.clock c) (some w.entry.1) with
  | .error rc => some (rc, none)
  | .ok user =>
    if !o.interruptible && o.timeoutNone && op.untimed then some (w.untimed, none)
    else (posixipcBlockingWait op.callback user o.interruptible w.rounds).map
      fun x => (x.1, some (user, x.2))

/-- The code of a wait as the method reports it. -/
def finish (rc : Rc) : CallEnd :=
  if rc = .ok then .yes else if rc ∈ op.noCodes then .no else .error rc

/-- The wait of an operation that waits once. -/
def finishWait (w : Wait) : Option (CallEnd × WaitInfo) :=
  (op.waitOnce c o w).map fun x => (op.finish x.1, x.2)

/-- What the queue makes of the code of its wait. -/
def afterWait (p : Pass) (rc : Rc) : Rc :=
  match op with
  | futexQueue => if p.relock ≠ .ok then p.relock else rc
  | _ => if rc = .eownerdead then p.relock else rc

/-- The loop in `put` and `get` of a queue. -/
def queueLoop : List Pass → Option (CallEnd × WaitInfo)
  | [] => none
  | p :: ps =>
    if p.ready then some (.yes, none)
    else if o.noWait then some (.no, none)
    else
      match op.waitOnce c o p.wait with
      | none => none
      | some (rc, info) =>
        if op.afterWait p rc = .etimedout then some (.no, info)
        else if op.afterWait p rc = .ok then queueLoop ps
        else some (.error (op.afterWait p rc), info)

/-- An operation that tries before it waits. -/
def tryThenWait (busy : List Rc) (tried : Rc → CallEnd) (sc : Script) :
    Option (CallEnd × WaitInfo) :=
  if sc.first ∉ busy then some (tried sc.first, none)
  else if o.noWait then some (.no, none)
  else op.finishWait c o sc.wait

/-- `mutex_acquire` -/
def mutexAcquire : Script → Option (CallEnd × WaitInfo) :=
  mutex.tryThenWait c o [.ebusy] mutex.finish

/-- `array_lock_index` -/
def arrayLockIndex : Script → Option (CallEnd × WaitInfo) :=
  mutexArray.tryThenWait c o [.ebusy] mutexArray.finish

/-- `rwlock_acquire_mode` -/
def rwlockAcquireMode : Script → Option (CallEnd × WaitInfo) :=
  rwlock.tryThenWait c o [.ebusy] rwlock.finish

/-- The end of a first attempt on a semaphore. -/
def semTried (rc : Rc) : CallEnd := if rc = .ok then .yes else .error rc

/-- `sem_acquire` -/
def semAcquire : Script → Option (CallEnd × WaitInfo) :=
  semaphore.tryThenWait c o [.eagain, .ebusy] semTried

/-- `nsem_acquire` -/
def nsemAcquire : Script → Option (CallEnd × WaitInfo) :=
  namedSemaphore.tryThenWait c o [.eagain, .ebusy] semTried

/-- `cond_wait` -/
def condWait (sc : Script) : Option (CallEnd × WaitInfo) :=
  if !o.blocking then some (.refused, none) else condition.finishWait c o sc.wait

/-- `futex_wait` -/
def futexWait (sc : Script) : Option (CallEnd × WaitInfo) :=
  if o.noWait then some (if sc.changed then .yes else .no, none)
  else futex.finishWait c o sc.wait

/-- `nmq_put` and `nmq_get`; without blocking they try once. -/
def nmqTransfer (sc : Script) : Option (CallEnd × WaitInfo) :=
  if !o.blocking then some (messageQueue.finish sc.first, none)
  else messageQueue.finishWait c o sc.wait

/-- `put` and `get` of `Queue` and `FutexQueue`. -/
def queueTransfer (sc : Script) : Option (CallEnd × WaitInfo) :=
  if sc.first ≠ .ok then some (.error sc.first, none) else op.queueLoop c o sc.passes

/-- A call of an operation. -/
def call : BlockingOp → Script → Option (CallEnd × WaitInfo)
  | mutex => mutexAcquire c o
  | mutexArray => arrayLockIndex c o
  | rwlock => rwlockAcquireMode c o
  | condition => condWait c o
  | semaphore => semAcquire c o
  | namedSemaphore => nsemAcquire c o
  | queue => queue.queueTransfer c o
  | futexQueue => futexQueue.queueTransfer c o
  | futex => futexWait c o
  | messageQueue => nmqTransfer c o

end BlockingOp

/-! ## What the kernel may answer -/

section Kernel

variable (c : ClockSet) (op : BlockingOp) (o : AcquireOpts)

/-- The wrapped call times out only once the clock has reached its deadline, is interrupted
only where that is documented, and does not answer as a call that may not block. -/
structure Round.Granted (user : Option Deadline) (r : Round) : Prop where
  expired : r.raw = .etimedout → (r.limit (op.clock c) user o.interruptible).Reached r.back
  interrupted : r.raw = .eintr → op.mayInterrupt = true
  quiet : r.raw ≠ .ebusy ∧ r.raw ≠ .eagain

/-- The passes of a wait, on a clock that does not go back; an untimed call does not time out. -/
structure Wait.Granted (w : Wait) : Prop where
  follow : Follow w.entry.1.ns w.rounds
  rounds : ∀ user, o.deadline (op.clock c) (some w.entry.1) = .ok user →
    ∀ r ∈ w.rounds, r.Granted c op o user
  untimed : w.untimed ≠ .etimedout ∧ w.untimed ≠ .ebusy ∧ w.untimed ≠ .eagain

/-- All answers of a call; a lock call without deadline does not time out either. -/
structure Script.Granted (sc : Script) : Prop where
  first : sc.first ≠ .etimedout
  wait : sc.wait.Granted c op o
  passes : ∀ p ∈ sc.passes, p.wait.Granted c op o ∧ p.relock ≠ .etimedout

end Kernel

/-! ## One wait -/

section OneWait

variable {c : ClockSet} {op : BlockingOp} {o : AcquireOpts} {w : Wait} {rc : Rc}
  {info : WaitInfo}

/-- An interruptible wait looks at the clock before it reports a timeout. -/
theorem reached_of_interruptible {cb : Rc → Rc} {user : Option Deadline} {rs : List Round}
    {r : Round} (h : posixipcBlockingWait cb user true rs = some (.etimedout, r)) :
    ∃ d, user = some d ∧ d.Reached r.check := by
  induction rs with
  | nil => simp [posixipcBlockingWait] at h
  | cons r' rs ih =>
      unfold posixipcBlockingWait at h
      simp only [Bool.not_true, Bool.false_eq_true, if_false] at h
      by_cases hcb : cb r'.raw ≠ .etimedout
      · rw [if_pos hcb] at h
        obtain ⟨hrc, -⟩ := Prod.mk.inj (Option.some.inj h)
        exact absurd hrc hcb
      · rw [if_neg hcb] at h
        by_cases hsig : r'.raises = true
        · simp [hsig] at h
        · rw [if_neg hsig] at h
          cases user with
          | none => exact ih h
          | some d =>
              simp only at h
              by_cases hd : d.Reached r'.check
              · rw [if_pos hd] at h
                obtain ⟨-, rfl⟩ := Prod.mk.inj (Option.some.inj h)
                exact ⟨d, rfl, hd⟩
              · rw [if_neg hd] at h
                exact ih h

/-- No callback turns an answer into a refusal. -/
theorem callback_quiet (op : BlockingOp) {raw : Rc} (h : raw ≠ .ebusy ∧ raw ≠ .eagain) :
    op.callback raw ≠ .ebusy ∧ op.callback raw ≠ .eagain := by
  cases op <;> simp only [BlockingOp.callback, futexWaitCb, id] <;> first
    | exact h
    | (split_ifs <;> first | exact h | simp)

/-- A wait does not end as a call that may not block. -/
theorem blockingWait_quiet {user : Option Deadline} {interruptible : Bool} {rs : List Round}
    {r : Round} (hrs : ∀ r ∈ rs, r.raw ≠ .ebusy ∧ r.raw ≠ .eagain)
    (h : posixipcBlockingWait op.callback user interruptible rs = some (rc, r)) :
    rc ≠ .ebusy ∧ rc ≠ .eagain := by
  induction rs with
  | nil => simp [posixipcBlockingWait] at h
  | cons r' rs ih =>
      have hq := callback_quiet op (hrs r' (by simp))
      have hrest := ih fun x hx => hrs x (by simp [hx])
      unfold posixipcBlockingWait at h
      split_ifs at h
      · obtain ⟨rfl, -⟩ := Prod.mk.inj (Option.some.inj h)
        exact hq
      · obtain ⟨rfl, -⟩ := Prod.mk.inj (Option.some.inj h)
        exact hq
      · obtain ⟨rfl, -⟩ := Prod.mk.inj (Option.some.inj h)
        exact ⟨by simp, by simp⟩
      · cases user with
        | none => exact hrest h
        | some d =>
            simp only at h
            split_ifs at h
            · obtain ⟨rfl, -⟩ := Prod.mk.inj (Option.some.inj h)
              exact ⟨by simp, by simp⟩
            · exact hrest h

/-- The deadline of the user. -/
def Wait.user (c : ClockSet) (op : BlockingOp) (o : AcquireOpts) (w : Wait) : Option Deadline :=
  if o.timeoutNone then none else some ⟨op.clock c, o.due w.entry.1⟩

/-- One wait, with the deadline computed. -/
theorem waitOnce_eq (hpos : 0 ≤ o.timeout) (w : Wait) :
    op.waitOnce c o w =
      if !o.interruptible && o.timeoutNone && op.untimed then some (w.untimed, none)
      else (posixipcBlockingWait op.callback (w.user c op o) o.interruptible w.rounds).map
        fun x => (x.1, some (w.user c op o, x.2)) := by
  unfold BlockingOp.waitOnce
  rw [deadline_ok hpos]
  rfl

/-- One wait does not end as a call that may not block. -/
theorem waitOnce_quiet (hpos : 0 ≤ o.timeout) (hw : w.Granted c op o)
    (h : op.waitOnce c o w = some (rc, info)) : rc ≠ .ebusy ∧ rc ≠ .eagain := by
  rw [waitOnce_eq hpos] at h
  split_ifs at h
  · obtain ⟨rfl, -⟩ := Prod.mk.inj (Option.some.inj h)
    exact ⟨hw.untimed.2.1, hw.untimed.2.2⟩
  · obtain ⟨x, hx, hxe⟩ := Option.map_eq_some_iff.mp h
    obtain ⟨rfl, -⟩ := Prod.mk.inj hxe
    exact blockingWait_quiet (fun r hr => (hw.rounds _ (deadline_ok hpos _ _) r hr).quiet) hx

/-- A method reports a wait as `False` or `None` exactly if it timed out. -/
theorem finish_eq_no (h : rc ≠ .ebusy ∧ rc ≠ .eagain) :
    op.finish rc = .no ↔ rc = .etimedout := by
  obtain ⟨h1, h2⟩ := h
  constructor
  · intro hno
    unfold BlockingOp.finish at hno
    split_ifs at hno with hok hmem
    cases op <;> simp_all [BlockingOp.noCodes]
  · rintro rfl
    cases op <;> decide

/-- What a report of a timeout is worth: the user's deadline is one that the arithmetic gives, and
the clock has reached it. -/
def ReportSound (o : AcquireOpts) (info : WaitInfo) : Prop :=
  o.timeoutNone = false ∧
    match info with
    | none => o.timeout = 0
    | some (user, r) => o.timeout < 2 ^ 63 ∧
        ∃ d, user = some d ∧ d.Reached (if o.interruptible then r.check else r.back)

/-- The timeout, if there is one, is in the range of the arithmetic. -/
def AcquireOpts.InRange (o : AcquireOpts) : Prop := o.timeoutNone = true ∨ o.timeout < 2 ^ 63

/-- The one wrapped call of an uninterruptible wait does not run into the stand-in for an
infinite deadline, and the callback of a futex does not meet a signal before the deadline. -/
def Wait.SettledInRange (c : ClockSet) (op : BlockingOp) (o : AcquireOpts) (w : Wait) : Prop :=
  o.interruptible = true ∨ (o.timeoutNone = true ∧ op.untimed = true) ∨
    ∀ r ∈ w.rounds.head?,
      (r.raw = .etimedout → o.timeoutNone = false) ∧
      (r.raw = .eintr → op.callback .eintr = .etimedout →
        ∃ d, w.user c op o = some d ∧ d.Reached r.back)

/-- With a timeout beyond the range of the arithmetic the deadline has always passed: the first
wrapped call must not time out, unless a handler then raises. -/
def Wait.SettledBeyond (op : BlockingOp) (o : AcquireOpts) (w : Wait) : Prop :=
  ∀ r ∈ w.rounds.head?, op.callback r.raw = .etimedout →
    o.interruptible = true ∧ r.raises = true

/-- The wait does not report a timeout that is none. -/
def Wait.Settled (c : ClockSet) (op : BlockingOp) (o : AcquireOpts) (w : Wait) : Prop :=
  (o.InRange → w.SettledInRange c op o) ∧ (¬ o.InRange → w.SettledBeyond op o)

/-- A callback reports a timeout for a timeout, or a futex for a signal. -/
theorem callback_eq_etimedout {raw : Rc} :
    op.callback raw = .etimedout ↔
      raw = .etimedout ∨ (raw = .eintr ∧ op.callback .eintr = .etimedout) := by
  cases op <;> simp [BlockingOp.callback, futexWaitCb] <;> tauto

/-- The deadline of a user is in the range of the arithmetic if the options are. -/
theorem lt_of_user {d : Deadline} (hrange : o.InRange) (hd : w.user c op o = some d) :
    o.timeoutNone = false ∧ o.timeout < 2 ^ 63 := by
  unfold Wait.user at hd
  split_ifs at hd with hn
  exact ⟨by simpa using hn, hrange.resolve_left hn⟩

/-- An uninterruptible wait makes one call. -/
theorem blockingWait_deaf {cb : Rc → Rc} {user : Option Deadline} {rs : List Round} {r : Round}
    (h : posixipcBlockingWait cb user false rs = some (rc, r)) :
    rs.head? = some r ∧ cb r.raw = rc := by
  cases rs with
  | nil => simp [posixipcBlockingWait] at h
  | cons r' rs =>
      simp only [posixipcBlockingWait, Bool.not_false, if_true] at h
      obtain ⟨rfl, rfl⟩ := Prod.mk.inj (Option.some.inj h)
      exact ⟨rfl, rfl⟩

/-- The one call of an uninterruptible wait with options in the range of the arithmetic. -/
theorem deafRound_sound_iff {r : Round} (hrange : o.InRange) (hint : o.interruptible = false)
    (hg : r.Granted c op o (w.user c op o)) :
    (op.callback r.raw = .etimedout → ReportSound o (some (w.user c op o, r))) ↔
      (r.raw = .etimedout → o.timeoutNone = false) ∧
      (r.raw = .eintr → op.callback .eintr = .etimedout →
        ∃ d, w.user c op o = some d ∧ d.Reached r.back) := by
  have hreport : ∀ d, w.user c op o = some d → d.Reached r.back →
      ReportSound o (some (w.user c op o, r)) := by
    intro d hd hreach
    obtain ⟨hgiven, hlt⟩ := lt_of_user hrange hd
    exact ⟨hgiven, hlt, d, hd, by rw [hint]; exact hreach⟩
  constructor
  · intro hs
    refine ⟨fun e => (hs (callback_eq_etimedout.mpr (Or.inl e))).1, fun e htr => ?_⟩
    obtain ⟨-, -, d, hd, hreach⟩ := hs (callback_eq_etimedout.mpr (Or.inr ⟨e, htr⟩))
    rw [hint] at hreach
    exact ⟨d, hd, hreach⟩
  · rintro ⟨hstand, hsig⟩ hto
    rcases callback_eq_etimedout.mp hto with e | ⟨e, htr⟩
    · -- the call had the user's own deadline
      have hgiven := hstand e
      have hd : w.user c op o = some ⟨op.clock c, o.due w.entry.1⟩ := by
        simp [Wait.user, hgiven]
      have hreach := hg.expired e
      simp only [Round.limit, hd, hint, Bool.false_eq_true, if_false,
        Option.getD_some] at hreach
      exact hreport _ hd hreach
    · obtain ⟨d, hd, hreach⟩ := hsig e htr
      exact hreport d hd hreach

/-- One wait with options in the range of the arithmetic. -/
theorem waitOnce_inRange_iff (hpos : 0 ≤ o.timeout) (hrange : o.InRange)
    (hw : w.Granted c op o) (h : op.waitOnce c o w = some (rc, info)) :
    (rc = .etimedout → ReportSound o info) ↔ w.SettledInRange c op o := by
  rw [waitOnce_eq hpos] at h
  by_cases hplain : (!o.interruptible && o.timeoutNone && op.untimed) = true
  · rw [if_pos hplain] at h
    obtain ⟨rfl, rfl⟩ := Prod.mk.inj (Option.some.inj h)
    simp only [Bool.and_eq_true] at hplain
    exact iff_of_true (fun e => absurd e hw.untimed.1)
      (Or.inr (Or.inl ⟨hplain.1.2, hplain.2⟩))
  · rw [if_neg hplain] at h
    obtain ⟨⟨rc', r⟩, hx, hxe⟩ := Option.map_eq_some_iff.mp h
    obtain ⟨rfl, rfl⟩ := Prod.mk.inj hxe
    cases hint : o.interruptible with
    | true =>
        -- the loop of slices asks the clock before it gives up
        rw [hint] at hx
        refine iff_of_true ?_ (Or.inl hint)
        rintro rfl
        obtain ⟨d, hd, hreach⟩ := reached_of_interruptible hx
        obtain ⟨hgiven, hlt⟩ := lt_of_user hrange hd
        exact ⟨hgiven, hlt, d, hd, by rw [hint]; exact hreach⟩
    | false =>
        -- one wrapped call decides
        rw [hint] at hx hplain
        obtain ⟨hhead, rfl⟩ := blockingWait_deaf hx
        have hg := hw.rounds _ (deadline_ok hpos _ _) r (List.mem_of_mem_head? hhead)
        have huntimed : ¬ (o.timeoutNone = true ∧ op.untimed = true) := by simpa using hplain
        simp only [Wait.SettledInRange, hint, Bool.false_eq_true, huntimed, false_or, hhead,
          Option.mem_some_iff, forall_eq']
        exact deafRound_sound_iff hrange hint hg

/-- A wait whose deadline has passed before it starts returns in its first pass. -/
theorem blockingWait_passed {cb : Rc → Rc} {d : Deadline} {interruptible : Bool} {rs : List Round}
    {r : Round} (hd : ∀ r ∈ rs.head?, d.Reached r.check)
    (h : posixipcBlockingWait cb (some d) interruptible rs = some (rc, r)) :
    rs.head? = some r ∧
      (rc = .etimedout ↔ cb r.raw = .etimedout ∧ ¬ (interruptible = true ∧ r.raises = true)) := by
  cases rs with
  | nil => simp [posixipcBlockingWait] at h
  | cons r' rs =>
      have hd' := hd r' rfl
      unfold posixipcBlockingWait at h
      simp only [hd', if_true] at h
      split_ifs at h with hint hcb hraises <;>
        obtain ⟨rfl, rfl⟩ := Prod.mk.inj (Option.some.inj h) <;> simp_all

/-- One wait with a timeout beyond the range of the arithmetic. -/
theorem waitOnce_beyond_iff (hpos : 0 ≤ o.timeout) (hrange : ¬ o.InRange)
    (hw : w.Granted c op o) (h : op.waitOnce c o w = some (rc, info)) :
    (rc = .etimedout → ReportSound o info) ↔ w.SettledBeyond op o := by
  obtain ⟨hgiven, hbeyond⟩ : o.timeoutNone = false ∧ 2 ^ 63 ≤ o.timeout := by
    simpa [AcquireOpts.InRange] using hrange
  have huser : w.user c op o = some ⟨op.clock c, w.entry.1.wrapped⟩ := by
    simp [Wait.user, hgiven, due_beyond _ hbeyond]
  rw [waitOnce_eq hpos, huser, hgiven, Bool.and_false, Bool.false_and,
    if_neg Bool.false_ne_true] at h
  obtain ⟨⟨rc', r⟩, hx, hxe⟩ := Option.map_eq_some_iff.mp h
  obtain ⟨rfl, rfl⟩ := Prod.mk.inj hxe
  -- the clock does not go back before the reading that the deadline was computed from
  have hpassed : ∀ r ∈ w.rounds.head?, (⟨op.clock c, w.entry.1.wrapped⟩ : Deadline).Reached
      r.check := by
    have hfollow := hw.follow
    cases hrs : w.rounds with
    | nil => simp
    | cons r' rs =>
        rw [hrs] at hfollow
        obtain ⟨h1, h2, h3, -⟩ := hfollow
        rintro x hx'
        obtain rfl : r' = x := by simpa using hx'
        exact wrapped_reached _ (h1.trans (h2.trans h3))
  obtain ⟨hhead, hiff⟩ := blockingWait_passed hpassed hx
  have hnot : ¬ ReportSound o (some (some ⟨op.clock c, w.entry.1.wrapped⟩, r)) := fun hs =>
    absurd hs.2.1 (not_lt.mpr hbeyond)
  simp only [Wait.SettledBeyond, hhead, Option.mem_some_iff, forall_eq', hiff, hnot]
  tauto

/-- **One wait**: its timeout can be trusted exactly if it is settled. -/
theorem waitOnce_sound_iff (hpos : 0 ≤ o.timeout) (hw : w.Granted c op o)
    (h : op.waitOnce c o w = some (rc, info)) :
    (rc = .etimedout → ReportSound o info) ↔ w.Settled c op o := by
  unfold Wait.Settled
  by_cases hrange : o.InRange
  · simpa [hrange] using waitOnce_inRange_iff hpos hrange hw h
  · simpa [hrange] using waitOnce_beyond_iff hpos hrange hw h

end OneWait

/-! ## Whole calls -/

/-- The wait of an operation that tries first. -/
def triedWait (o : AcquireOpts) (busy : List Rc) (sc : Script) : Option Wait :=
  if sc.first ∈ busy ∧ o.noWait = false then some sc.wait else none

/-- The wait in the last pass of a queue call. -/
def passWait (op : BlockingOp) (o : AcquireOpts) (p : Pass) : Option Wait :=
  if p.ready = false ∧ o.noWait = false ∧ (op = .futexQueue → p.relock = .ok) then some p.wait
  else none

/-- The wait that decides a blocking call, if the call gets to wait. -/
def BlockingOp.lastWait (op : BlockingOp) (o : AcquireOpts) (sc : Script) : Option Wait :=
  match op with
  | mutex => triedWait o [.ebusy] sc
  | mutexArray => triedWait o [.ebusy] sc
  | rwlock => triedWait o [.ebusy] sc
  | condition => some sc.wait
  | semaphore => triedWait o [.eagain, .ebusy] sc
  | namedSemaphore => triedWait o [.eagain, .ebusy] sc
  | queue => if sc.first = .ok then sc.passes.getLast?.bind (passWait .queue o) else none
  | futexQueue =>
    if sc.first = .ok then sc.passes.getLast?.bind (passWait .futexQueue o) else none
  | futex => if o.noWait then none else some sc.wait
  | messageQueue => some sc.wait

/-- Every timeout that the call reports is one. -/
def TimeoutSound (c : ClockSet) (op : BlockingOp) (o : AcquireOpts) (sc : Script) : Prop :=
  ∀ info, op.call c o sc = some (.no, info) → ReportSound o info

section Calls

variable {c : ClockSet} {op : BlockingOp} {o : AcquireOpts} {sc : Script}

/-- A blocking call that does not wait has the timeout zero. -/
theorem reportSound_of_noWait (hb : o.blocking = true) (h : o.noWait = true) :
    ReportSound o none := by
  simpa [AcquireOpts.noWait, hb, ReportSound] using h

/-- A call that waits at once. -/
theorem finishWait_sound_iff {w : Wait} (hpos : 0 ≤ o.timeout) (hw : w.Granted c op o)
    (hret : (op.finishWait c o w).isSome) :
    (∀ info, op.finishWait c o w = some (.no, info) → ReportSound o info) ↔
      w.Settled c op o := by
  unfold BlockingOp.finishWait at hret ⊢
  cases hx : op.waitOnce c o w with
  | none => simp [hx] at hret
  | some x =>
      obtain ⟨rc, info⟩ := x
      rw [← waitOnce_sound_iff hpos hw hx]
      have hno : op.finish rc = .no ↔ rc = .etimedout :=
        finish_eq_no (waitOnce_quiet hpos hw hx)
      simp only [Option.map_some, Option.some.injEq, Prod.mk.injEq, hno]
      constructor
      · intro hs hrc
        exact hs info ⟨hrc, rfl⟩
      · rintro hs info' ⟨hrc, rfl⟩
        exact hs hrc

/-- A call that tries first and waits if it was refused. -/
theorem tryThenWait_sound_iff {busy : List Rc} {tried : Rc → CallEnd} (hb : o.blocking = true)
    (hpos : 0 ≤ o.timeout) (hk : sc.Granted c op o)
    (htried : sc.first ∉ busy → tried sc.first ≠ .no)
    (hret : (op.tryThenWait c o busy tried sc).isSome) :
    (∀ info, op.tryThenWait c o busy tried sc = some (.no, info) → ReportSound o info) ↔
      ∀ w ∈ triedWait o busy sc, w.Settled c op o := by
  unfold BlockingOp.tryThenWait at hret ⊢
  unfold triedWait
  by_cases hbusy : sc.first ∈ busy
  · simp only [hbusy, not_true_eq_false, if_false, true_and] at hret ⊢
    cases hnw : o.noWait with
    | true =>
        refine iff_of_true ?_ (by simp)
        intro info hinfo
        obtain rfl : none = info := by simpa using hinfo
        exact reportSound_of_noWait hb hnw
    | false =>
        rw [hnw] at hret
        simpa using finishWait_sound_iff hpos hk.wait hret
  · refine iff_of_true ?_ (by simp [hbusy])
    intro info hinfo
    simp only [hbusy, not_false_eq_true, if_true, Option.some.injEq, Prod.mk.injEq] at hinfo
    exact absurd hinfo.1 (htried hbusy)

/-! The loop of a queue returns in its last pass. -/

/-- The loop of a queue call ends in its last pass, by induction on the passes. -/
theorem queueLoop_last {ps : List Pass} {out : CallEnd × WaitInfo}
    (hlast : op.queueLoop c o ps.dropLast = none) (h : op.queueLoop c o ps = some out) :
    ∃ p, ps.getLast? = some p ∧ op.queueLoop c o [p] = some out := by
  induction ps with
  | nil => simp [BlockingOp.queueLoop] at h
  | cons p ps ih =>
      cases ps with
      | nil => exact ⟨p, rfl, h⟩
      | cons q qs =>
          rw [List.dropLast_cons_cons] at hlast
          unfold BlockingOp.queueLoop at hlast h
          by_cases hready : p.ready = true
          · simp [hready] at hlast
          · rw [if_neg hready] at hlast h
            by_cases hnw : o.noWait = true
            · simp [hnw] at hlast
            · rw [if_neg hnw] at hlast h
              cases hx : op.waitOnce c o p.wait with
              | none => simp [hx] at h
              | some x =>
                  obtain ⟨rc, info⟩ := x
                  simp only [hx] at hlast h
                  by_cases h1 : op.afterWait p rc = .etimedout
                  · simp [h1] at hlast
                  · rw [if_neg h1] at hlast h
                    by_cases h2 : op.afterWait p rc = .ok
                    · rw [if_pos h2] at hlast h
                      exact ih hlast h
                    · simp [h2] at hlast

/-- A pass times out if its wait does, and a `FutexQueue` has its lock back. -/
theorem afterWait_eq_etimedout {p : Pass} {rc : Rc} (hrel : p.relock ≠ .etimedout) :
    op.afterWait p rc = .etimedout ↔
      rc = .etimedout ∧ (op = .futexQueue → p.relock = .ok) := by
  by_cases hop : op = .futexQueue
  · subst hop
    simp only [BlockingOp.afterWait, forall_const]
    by_cases hok : p.relock = .ok
    · simp [hok]
    · simp [hok, hrel]
  · have hafter : op.afterWait p rc = if rc = .eownerdead then p.relock else rc := by
      cases op <;> first | rfl | exact absurd rfl hop
    rw [hafter]
    by_cases hdead : rc = .eownerdead
    · simp [hdead, hrel]
    · simp [hdead, hop]

/-- The last pass of a queue call. -/
theorem pass_sound_iff {p : Pass} {out : CallEnd × WaitInfo} (hb : o.blocking = true)
    (hpos : 0 ≤ o.timeout) (hw : p.wait.Granted c op o) (hrel : p.relock ≠ .etimedout)
    (h : op.queueLoop c o [p] = some out) :
    (∀ info, out = (.no, info) → ReportSound o info) ↔
      ∀ w ∈ passWait op o p, w.Settled c op o := by
  unfold BlockingOp.queueLoop at h
  by_cases hready : p.ready = true
  · rw [if_pos hready] at h
    obtain rfl := Option.some.inj h
    exact iff_of_true (by simp) (by simp [passWait, hready])
  · rw [if_neg hready] at h
    by_cases hnw : o.noWait = true
    · rw [if_pos hnw] at h
      obtain rfl := Option.some.inj h
      refine iff_of_true ?_ (by simp [passWait, hnw])
      intro info hinfo
      obtain rfl : none = info := by simpa using hinfo
      exact reportSound_of_noWait hb hnw
    · rw [if_neg hnw] at h
      cases hx : op.waitOnce c o p.wait with
      | none => simp [hx] at h
      | some x =>
          obtain ⟨rc, info⟩ := x
          have hiff := waitOnce_sound_iff hpos hw hx
          have hafter : op.afterWait p rc = .etimedout ↔
              rc = .etimedout ∧ (op = .futexQueue → p.relock = .ok) :=
            afterWait_eq_etimedout hrel
          simp only [hx] at h
          by_cases hlock : op = .futexQueue → p.relock = .ok
          · have hpass : passWait op o p = some p.wait := by
              simpa [passWait, hready, hnw] using hlock
            rw [hpass]
            simp only [Option.mem_def, Option.some.injEq, forall_eq', ← hiff]
            by_cases hto : rc = .etimedout
            · rw [if_pos (hafter.mpr ⟨hto, hlock⟩)] at h
              obtain rfl := Option.some.inj h
              simp [hto]
            · have hne : op.afterWait p rc ≠ .etimedout := fun e => hto (hafter.mp e).1
              rw [if_neg hne] at h
              split_ifs at h with hok
              · simp [BlockingOp.queueLoop] at h
              · obtain rfl := Option.some.inj h
                simp [hto]
          · have hne : op.afterWait p rc ≠ .etimedout := fun e => hlock (hafter.mp e).2
            rw [if_neg hne] at h
            refine iff_of_true ?_ (by simp [passWait, hlock])
            split_ifs at h with hok
            · simp [BlockingOp.queueLoop] at h
            · obtain rfl := Option.some.inj h
              simp

/-- `put` and `get`. -/
theorem queueTransfer_sound_iff (hb : o.blocking = true) (hpos : 0 ≤ o.timeout)
    (hk : sc.Granted c op o) (hlast : op.queueLoop c o sc.passes.dropLast = none)
    (hret : (op.queueTransfer c o sc).isSome) :
    (∀ info, op.queueTransfer c o sc = some (.no, info) → ReportSound o info) ↔
      ∀ w ∈ (if sc.first = .ok then sc.passes.getLast?.bind (passWait op o) else none),
        w.Settled c op o := by
  unfold BlockingOp.queueTransfer at hret ⊢
  by_cases hfirst : sc.first = .ok
  · simp only [hfirst, ne_eq, not_true_eq_false, if_false, if_true] at hret ⊢
    obtain ⟨out, hout⟩ := Option.isSome_iff_exists.mp hret
    obtain ⟨p, hp, hpass⟩ := queueLoop_last hlast hout
    obtain ⟨hw, hrel⟩ := hk.passes p (List.mem_of_getLast? hp)
    have hiff := pass_sound_iff hb hpos hw hrel hpass
    rw [hp, hout]
    simpa [eq_comm] using hiff
  · refine iff_of_true ?_ (by simp [hfirst])
    intro info hinfo
    simp [hfirst] at hinfo

/-- **When a reported timeout is one.**  For every operation and every blocking call with
options that `posixipc_parse_acquire` accepts, whatever the clock reads and the kernel may
answer: the call, which returns in the last of its passes, reports a timeout only of a user's
deadline that the clock has reached, if and only if its last wait is settled. -/
theorem timeout_sound_iff (c : ClockSet) (op : BlockingOp) (o : AcquireOpts) (sc : Script)
    (hb : o.blocking = true) (hpos : 0 ≤ o.timeout) (hk : sc.Granted c op o)
    (hlast : op.queueLoop c o sc.passes.dropLast = none)
    (hret : (op.call c o sc).isSome) :
    TimeoutSound c op o sc ↔ ∀ w ∈ op.lastWait o sc, w.Settled c op o := by
  have hlock : ∀ op' : BlockingOp, sc.first ∉ [Rc.ebusy] →
      op'.noCodes = [.etimedout, .ebusy] → op'.finish sc.first ≠ .no := by
    intro op' hbusy hcodes hno
    unfold BlockingOp.finish at hno
    split_ifs at hno with hok hmem
    rw [hcodes] at hmem
    simp only [List.mem_cons, List.not_mem_nil, or_false] at hmem hbusy
    exact hmem.elim hk.first hbusy
  have hsem : BlockingOp.semTried sc.first ≠ .no := by
    unfold BlockingOp.semTried
    split_ifs <;> simp
  cases op with
  | mutex => exact tryThenWait_sound_iff hb hpos hk (fun h => hlock .mutex h rfl) hret
  | mutexArray => exact tryThenWait_sound_iff hb hpos hk (fun h => hlock .mutexArray h rfl) hret
  | rwlock => exact tryThenWait_sound_iff hb hpos hk (fun h => hlock .rwlock h rfl) hret
  | semaphore => exact tryThenWait_sound_iff hb hpos hk (fun _ => hsem) hret
  | namedSemaphore => exact tryThenWait_sound_iff hb hpos hk (fun _ => hsem) hret
  | queue => exact queueTransfer_sound_iff hb hpos hk hlast hret
  | futexQueue => exact queueTransfer_sound_iff hb hpos hk hlast hret
  | condition =>
      simp only [TimeoutSound, BlockingOp.call, BlockingOp.condWait, hb, Bool.not_true,
        Bool.false_eq_true, if_false] at hret ⊢
      simpa [BlockingOp.lastWait] using finishWait_sound_iff hpos hk.wait hret
  | messageQueue =>
      simp only [TimeoutSound, BlockingOp.call, BlockingOp.nmqTransfer, hb, Bool.not_true,
        Bool.false_eq_true, if_false] at hret ⊢
      simpa [BlockingOp.lastWait] using finishWait_sound_iff hpos hk.wait hret
  | futex =>
      simp only [TimeoutSound, BlockingOp.call, BlockingOp.futexWait, BlockingOp.lastWait]
        at hret ⊢
      cases hnw : o.noWait with
      | true =>
          refine iff_of_true ?_ (by simp)
          intro info hinfo
          obtain ⟨-, rfl⟩ := Prod.mk.inj (Option.some.inj (by simpa using hinfo))
          exact reportSound_of_noWait hb hnw
      | false =>
          simp only [hnw, Bool.false_eq_true, if_false] at hret ⊢
          simpa using finishWait_sound_iff hpos hk.wait hret

end Calls

/-! ## Concrete calls -/

/-- A whole number of seconds. -/
def second (n : ℤ) : Reading := ⟨⟨n, 0⟩, le_refl 0, by norm_num⟩

/-- Monotonic clocks throughout. -/
def monotonicClocks : ClockSet := ⟨.monotonic, .monotonic, .monotonic, .monotonic⟩

/-- `interruptible=False` with a timeout of five seconds. -/
def deafFive : AcquireOpts := ⟨false, 5, true, false⟩

/-- `interruptible=False` without a timeout. -/
def deafForever : AcquireOpts := ⟨true, 0, true, false⟩

/-- A call that starts at second `0`, has to wait, and whose one wrapped call returns `raw` at
second `n`. -/
def oneRound (first raw : Rc) (n : ℤ) : Script :=
  ⟨first, false, ⟨second 0, .ok, [⟨second 0, raw, second n, false, second n⟩]⟩, []⟩

/-- The kernel may answer so. -/
theorem oneRound_granted {c : ClockSet} {op : BlockingOp} {o : AcquireOpts} {first raw : Rc}
    {n : ℤ} (hn : 0 ≤ n) (hfirst : first ≠ .etimedout)
    (hr : ∀ user, o.deadline (op.clock c) (some (second 0).1) = .ok user →
      Round.Granted c op o user ⟨second 0, raw, second n, false, second n⟩) :
    (oneRound first raw n).Granted c op o := by
  refine ⟨hfirst, ⟨?_, ?_, by simp [oneRound]⟩, by simp [oneRound]⟩
  · simpa [oneRound, Follow, second, Timespec.ns] using hn
  · intro user huser r hmem
    obtain rfl : r = ⟨second 0, raw, second n, false, second n⟩ := by
      simpa [oneRound] using hmem
    exact hr user huser

/-- A semaphore is not released within five seconds. -/
theorem timeout_sound_iff_five :
    BlockingOp.semaphore.call monotonicClocks deafFive (oneRound .eagain .etimedout 5)
      = some (.no, some (some ⟨.monotonic, ⟨5, 0⟩⟩, ⟨second 0, .etimedout, second 5, false,
          second 5⟩)) ∧
      TimeoutSound monotonicClocks .semaphore deafFive (oneRound .eagain .etimedout 5) := by
  have hk : (oneRound .eagain .etimedout 5).Granted monotonicClocks .semaphore deafFive := by
    refine oneRound_granted (by decide) (by decide) ?_
    intro user huser
    have h5 : deafFive.deadline (BlockingOp.semaphore.clock monotonicClocks)
        (some (second 0).1) = .ok (some ⟨.monotonic, ⟨5, 0⟩⟩) := by decide +kernel
    obtain rfl : some ⟨.monotonic, ⟨5, 0⟩⟩ = user := Except.ok.inj (h5.symm.trans huser)
    exact ⟨fun _ => by decide +kernel, by decide, by decide⟩
  refine ⟨by decide +kernel, ?_⟩
  refine (timeout_sound_iff monotonicClocks .semaphore deafFive _ rfl (by decide +kernel) hk rfl
    (by decide +kernel)).mpr ?_
  intro w hw
  obtain rfl : (oneRound .eagain .etimedout 5).wait = w :=
    Option.some.inj (show BlockingOp.semaphore.lastWait deafFive _ = some w from hw)
  refine ⟨fun _ => Or.inr (Or.inr ?_), fun hout => absurd (Or.inr (by decide +kernel)) hout⟩
  intro r hr
  obtain rfl : r = ⟨second 0, .etimedout, second 5, false, second 5⟩ := by
    simpa [oneRound] using hr.symm
  exact ⟨fun _ => rfl, by simp⟩

/-- **A signal is reported as a timeout**: `Futex.wait(timeout=5, interruptible=False)` returns
`False` after one second; and so is, without any timeout, the second at which the stand-in
deadline of an uninterruptible `NamedSemaphore.acquire` lies. -/
theorem timeout_on_signal :
    ((oneRound .ok .eintr 1).Granted monotonicClocks .futex deafFive ∧
      BlockingOp.futex.call monotonicClocks deafFive (oneRound .ok .eintr 1)
        = some (.no, some (some ⟨.monotonic, ⟨5, 0⟩⟩, ⟨second 0, .eintr, second 1, false,
            second 1⟩)) ∧
      ¬ TimeoutSound monotonicClocks .futex deafFive (oneRound .ok .eintr 1)) ∧
    ((oneRound .eagain .etimedout 0x7fffffff).Granted monotonicClocks .namedSemaphore
        deafForever ∧
      ¬ TimeoutSound monotonicClocks .namedSemaphore deafForever
        (oneRound .eagain .etimedout 0x7fffffff)) := by
  have hcall : BlockingOp.futex.call monotonicClocks deafFive (oneRound .ok .eintr 1)
      = some (.no, some (some ⟨.monotonic, ⟨5, 0⟩⟩, ⟨second 0, .eintr, second 1, false,
          second 1⟩)) := by decide +kernel
  have hcall' : BlockingOp.namedSemaphore.call monotonicClocks deafForever
      (oneRound .eagain .etimedout 0x7fffffff) = some (.no, some (none, ⟨second 0, .etimedout,
        second 0x7fffffff, false, second 0x7fffffff⟩)) := by decide +kernel
  refine ⟨⟨?_, hcall, ?_⟩, ?_, ?_⟩
  · exact oneRound_granted (by decide) (by decide) fun user _ => ⟨by simp, fun _ => rfl, by simp⟩
  · intro hs
    obtain ⟨-, -, d, hd, hreach⟩ := hs _ hcall
    obtain rfl : (⟨.monotonic, ⟨5, 0⟩⟩ : Deadline) = d := Option.some.inj hd
    exact absurd hreach (by decide +kernel)
  · refine oneRound_granted (by decide) (by decide) ?_
    intro user huser
    obtain rfl : none = user := Except.ok.inj huser
    exact ⟨fun _ => by decide +kernel, by decide, by decide⟩
  · intro hs
    exact absurd (hs _ hcall').1 (by decide)

end PosixIpc
