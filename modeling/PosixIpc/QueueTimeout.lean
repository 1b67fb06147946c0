/-
# The deadline of a waiting queue call (`py_queue.c`, `py_linux.c`)

`put` and `get` with a timeout compute the deadline in `queue_wait_cond` and
`fq_wait_word`, which the loop of the call enters anew after every wake-up that leaves it
nothing to do.  This module follows one call from its entry through any run of the other
threads, and compares the deadlines of its waits with the clock at the entry.

* `Timespec.plus` : a reading plus a timeout;
* `due_by` : what one computation of the deadline gives;
* `QueuePc.Due` : what each program point of the call knows about its deadlines;
* `queue_timeout_absolute` : the deadlines of a call whose clock stands still until it
  starts to wait, exactly and in whole nanoseconds;
* `queue_timeout_restarts` : the deadline after a stolen wake-up.
-/
import PosixIpc.DeadlineRange
import PosixIpc.QueueMachine

namespace PosixIpc

open StoreProg RobustMutex OsWorld ThreadMachine

/-! ## Deadlines as numbers -/

/-- A deadline on the clock `clk` that is not later than `x` nanoseconds, and whose whole seconds
alone are not either. -/
def Deadline.By (clk : ClockId) (x : WithTop ℚ) (d : Deadline) : Prop :=
  d.clk = clk ∧ ((d.ts.sec * 1000000000 : ℤ) : ℚ) ≤ x ∧ ((d.ts.ns : ℤ) : ℚ) ≤ x

/-- A reading plus a timeout, in nanoseconds; `count` counts the nanoseconds of the timeout. -/
def Timespec.plus (now : Timespec) (count : ℚ → ℚ) (timeout : WithTop ℚ) : WithTop ℚ :=
  timeout.map fun s => now.ns + count s

/-- The nanoseconds of a timeout. -/
def exactNanos (s : ℚ) : ℚ := s * 1000000000

/-- The least whole number of nanoseconds that a timeout lies within. -/
def wholeNanos (s : ℚ) : ℚ := (⌈s * 1000000000⌉ : ℤ)

/-- The nanoseconds that `add_seconds` counts before it caps them. -/
def doubleNanos (s : ℚ) : ℚ := ((⌊s⌋ * 1000000000 + nanos binary64 s : ℤ) : ℚ)

/-- The product of `add_seconds` is not rounded up to the next nanosecond. -/
def AcquireOpts.RoundsDown (o : AcquireOpts) : Prop :=
  ∀ s : ℚ, o.timeout = s → (nanos binary64 s : ℚ) ≤ Int.fract s * 1000000000

section Bounds

variable {o : AcquireOpts} {now now' : Timespec}

/-- An earlier start or a smaller count gives an earlier deadline. -/
theorem plus_le_plus {count count' : ℚ → ℚ} (hnow : now.ns ≤ now'.ns)
    (h : ∀ s : ℚ, o.timeout = s → count s ≤ count' s) :
    now.plus count o.timeout ≤ now'.plus count' o.timeout := by
  have hcast : ((now.ns : ℤ) : ℚ) ≤ now'.ns := by exact_mod_cast hnow
  cases hT : o.timeout with
  | top => exact le_top
  | coe s => exact WithTop.coe_le_coe.mpr (add_le_add hcast (h s hT))

/-- What is added never needs more whole nanoseconds than the timeout. -/
theorem doubleNanos_le_wholeNanos (s : ℚ) : doubleNanos s ≤ wholeNanos s := by
  have hceil := Int.le_ceil (s * 1000000000)
  have hfract : Int.fract s * 1000000000 ≤ ((⌈s * 1000000000⌉ - ⌊s⌋ * 1000000000 : ℤ) : ℚ) := by
    rw [Int.fract]
    push_cast
    linarith
  have hnanos := nanos_le_of_le binary64 hfract
  unfold doubleNanos wholeNanos
  exact_mod_cast (by omega : ⌊s⌋ * 1000000000 + nanos binary64 s ≤ ⌈s * 1000000000⌉)

/-- What is rounded down is at most the exact product. -/
theorem doubleNanos_le_exactNanos (h : o.RoundsDown) (s : ℚ) (hs : o.timeout = s) :
    doubleNanos s ≤ exactNanos s := by
  have hnanos := h s hs
  rw [Int.fract] at hnanos
  unfold doubleNanos exactNanos
  push_cast
  linarith

/-- No count of a non-negative timeout is negative. -/
theorem doubleNanos_nonneg {s : ℚ} (h : 0 ≤ s) : 0 ≤ doubleNanos s := by
  have hfloor : 0 ≤ ⌊s⌋ := Int.floor_nonneg.mpr h
  have hnanos := nanos_nonneg binary64 s
  unfold doubleNanos
  exact_mod_cast (by omega : 0 ≤ ⌊s⌋ * 1000000000 + nanos binary64 s)

/-- A deadline that wrapped around lies before the reading. -/
theorem wrapped_le (hnow : now.Proper) :
    now.wrapped.sec * 1000000000 ≤ now.ns ∧ now.wrapped.ns ≤ now.ns := by
  obtain ⟨hn0, hn1⟩ := hnow
  simp only [Timespec.wrapped, Timespec.ns]
  omega

/-- **One computation of the deadline**: not later than the reading plus what is added. -/
theorem due_by {clk : ClockId} (hnow : now.Proper) (hpos : 0 ≤ o.timeout) :
    (⟨clk, o.due now⟩ : Deadline).By clk (now.plus doubleNanos o.timeout) := by
  have hsec : ∀ ts : Timespec, 0 ≤ ts.nsec → ((ts.sec * 1000000000 : ℤ) : ℚ) ≤ (ts.ns : ℤ) := by
    intro ts hts
    exact_mod_cast (by unfold Timespec.ns; omega : ts.sec * 1000000000 ≤ ts.ns)
  refine ⟨rfl, ?_⟩
  rcases lt_or_ge o.timeout (2 ^ 63) with hlt | hge
  · obtain ⟨s, hs, h0, hproper, hns⟩ := due_below hnow hpos hlt
    have hle : (((o.due now).ns : ℤ) : ℚ) ≤ now.ns + doubleNanos s := by
      rw [hns]
      unfold doubleNanos
      exact_mod_cast (by omega)
    rw [hs]
    exact ⟨WithTop.coe_le_coe.mpr ((hsec _ hproper.1).trans hle), WithTop.coe_le_coe.mpr hle⟩
  · -- the deadline has wrapped into the past
    rw [due_beyond now hge]
    cases hT : o.timeout with
    | top => exact ⟨le_top, le_top⟩
    | coe s =>
        have h0 : 0 ≤ doubleNanos s :=
          doubleNanos_nonneg (by rw [hT] at hpos; exact_mod_cast hpos)
        obtain ⟨hsec, hns⟩ := wrapped_le hnow
        have hle : ∀ {a : ℤ}, a ≤ now.ns → (a : ℚ) ≤ now.ns + doubleNanos s := by
          intro a ha
          have hcast : (a : ℚ) ≤ now.ns := by exact_mod_cast ha
          linarith
        exact ⟨WithTop.coe_le_coe.mpr (hle hsec), WithTop.coe_le_coe.mpr (hle hns)⟩

end Bounds

/-- A slice ends with the user's deadline at the latest. -/
theorem sliceDeadline_due {clk : ClockId} {x : WithTop ℚ} {d : Deadline} {now : Timespec}
    (hnow : now.Proper) (h : d.By clk x) : (sliceDeadline clk (some d) now).By clk x := by
  rcases sliceDeadline_cases clk d now with heq | ⟨heq, hbefore⟩
  · rw [heq]
    exact h
  · obtain ⟨hclk, hsec, hle⟩ := h
    obtain ⟨h0, h1⟩ := addNs_proper hnow
    -- the slice ends in an earlier second, or in the same one before the deadline
    have hslice : (addNs now sliceNs).sec * 1000000000 ≤ d.ts.sec * 1000000000 ∧
        ((addNs now sliceNs).ns ≤ d.ts.sec * 1000000000 ∨ (addNs now sliceNs).ns ≤ d.ts.ns) := by
      unfold Timespec.NotAfter at hbefore
      unfold Timespec.ns
      omega
    have hcast : ∀ {a b : ℤ}, a ≤ b → ((b : ℚ) : WithTop ℚ) ≤ x → ((a : ℚ) : WithTop ℚ) ≤ x :=
      fun hab hb => le_trans (WithTop.coe_le_coe.mpr (by exact_mod_cast hab)) hb
    rw [heq]
    exact ⟨hclk, hcast hslice.1 hsec, hslice.2.elim (hcast · hsec) (hcast · hle)⟩

/-! ## One call -/

/-- There is a deadline, and it is not later than `x`. -/
def DueBy (clk : ClockId) (x : WithTop ℚ) (user : Option Deadline) : Prop :=
  ∃ d, user = some d ∧ d.By clk x

/-- What is due by a time is due by a later one. -/
theorem DueBy.mono {clk : ClockId} {x y : WithTop ℚ} {user : Option Deadline} (hxy : x ≤ y)
    (h : DueBy clk x user) : DueBy clk y user := by
  obtain ⟨d, hd, hclk, hsec, hle⟩ := h
  exact ⟨d, hd, hclk, hsec.trans hxy, hle.trans hxy⟩

/-- What the program points of the call `q` know about its deadlines. -/
def QueuePc.Due (cfg : QueueConfig) (q : Request) (x : WithTop ℚ) : QueuePc → Prop
  | .away => True
  | .python _ => True
  | .leave => True
  | .beginLock q' => q' = q
  | .lockCall _ q' => q' = q
  | .recovering _ q' _ => q' = q
  | .makeConsistent _ q' => q' = q
  | .unlockBad _ q' _ => q' = q
  | .announce _ q' _ => q' = q
  | .lockGil q' _ => q' = q
  | .test q' _ => q' = q
  | .ring q' _ => q' = q
  | .bump q' _ _ => q' = q
  | .unlockOp q' _ _ => q' = q
  | .wake q' _ => q' = q
  | .finish _ _ => True
  | .futexLoad q' => q' = q
  | .futexUnlock q' _ => q' = q
  | .waitEnter q' _ => q' = q
  | .slice q' w user => q' = q ∧ DueBy (cfg.waitClock w) x user
  | .drop q' w user limit =>
    q' = q ∧ DueBy (cfg.waitClock w) x user ∧ DueBy (cfg.waitClock w) x limit
  | .park q' w user limit =>
    q' = q ∧ DueBy (cfg.waitClock w) x user ∧ DueBy (cfg.waitClock w) x limit
  | .asleep q' w user limit =>
    q' = q ∧ DueBy (cfg.waitClock w) x user ∧ DueBy (cfg.waitClock w) x limit
  | .reacquire q' user _ => q' = q ∧ DueBy (cfg.waitClock .cond) x user
  | .gil q' w user _ => q' = q ∧ DueBy (cfg.waitClock w) x user
  | .back q' w user _ => q' = q ∧ DueBy (cfg.waitClock w) x user
  | .check q' w user => q' = q ∧ DueBy (cfg.waitClock w) x user

/-- The thread is between two calls. -/
def QueuePc.idle : QueuePc → Bool
  | .python _ => true
  | _ => false

/-- The thread starts a wait. -/
def QueuePc.startsWait : QueuePc → Bool
  | .waitEnter _ _ => true
  | _ => false

namespace QueueConfig

variable (cfg : QueueConfig) {q : Request} {x : WithTop ℚ}

/-- The loop keeps the request. -/
theorem due_afterWait (rc : Rc) (o : Own) : (cfg.afterWait q rc o).Due cfg q x := by
  unfold afterWait
  split_ifs <;> trivial

/-- A lock site that is done keeps the request. -/
theorem due_siteDone (site : LockSite) : (cfg.siteDone site q).Due cfg q x := by
  cases site with
  | first => rfl
  | _ => exact cfg.due_afterWait _ _

/-- A lock site that failed keeps the request. -/
theorem due_siteFailed (site : LockSite) (rc : Failure) :
    (cfg.siteFailed site q rc).Due cfg q x := by
  cases site with
  | first => rfl
  | _ => exact cfg.due_afterWait _ _

/-- A failed recovery keeps the request. -/
theorem due_recoverFailed (site : LockSite) (rc : Failure) :
    (cfg.recoverFailed site q rc).Due cfg q x := by
  cases site with
  | condWake => exact cfg.due_afterWait _ _
  | _ => rfl

/-- A wait that returns keeps the request. -/
theorem due_waitReturn (w : WaitFn) (rc : Rc) (o : Own) :
    (cfg.waitReturn q w rc o).Due cfg q x := by
  cases w with
  | cond =>
      rw [waitReturn]
      split_ifs
      · rfl
      · exact cfg.due_afterWait _ _
  | futex e => rfl

/-- The test of the loop keeps the request. -/
theorem due_afterTest (rc : Rc) (n : ℕ) : (cfg.afterTest q rc n).Due cfg q x := by
  unfold afterTest
  repeat' split
  all_goals trivial

/-- A wait that starts at a reading not later than the entry has its deadline in time. -/
theorem due_startWait {w : WaitFn} {reading : Option Timespec} {entry : Timespec}
    (hT : q.opts.timeoutNone = false) (hproper : ∀ now ∈ reading, now.Proper)
    (hentry : ∀ now ∈ reading, now.ns ≤ entry.ns) :
    (cfg.startWait q w reading).Due cfg q (entry.plus doubleNanos q.opts.timeout) := by
  unfold startWait
  cases hd : q.opts.deadline (cfg.waitClock w) reading with
  | error rc =>
      cases w with
      | cond => exact cfg.due_afterWait _ _
      | futex e => rfl
  | ok user =>
      obtain ⟨hpos, now, rfl, rfl⟩ := deadline_cases hT hd
      have hby : DueBy (cfg.waitClock w) (entry.plus doubleNanos q.opts.timeout)
          (some ⟨cfg.waitClock w, q.opts.due now⟩) :=
        DueBy.mono (plus_le_plus (hentry now rfl) fun _ _ => le_rfl)
          ⟨_, rfl, due_by (hproper now rfl) hpos⟩
      simp only
      split_ifs
      · exact ⟨rfl, hby⟩
      · cases w <;> exact ⟨rfl, hby, hby⟩

/-- **One step of the call.**  Only the start of a wait reads the clock for a deadline. -/
theorem due_next {Tid : Type} {p : QueuePc} {r : QueueAnswer Tid} {entry : Timespec}
    (hT : q.opts.timeoutNone = false) (hidle : p.idle = false)
    (hproper : ∀ now ∈ r.reading, now.Proper)
    (hentry : p.startsWait = true → ∀ now ∈ r.reading, now.ns ≤ entry.ns)
    (h : p.Due cfg q (entry.plus doubleNanos q.opts.timeout)) :
    (cfg.next p r).Due cfg q (entry.plus doubleNanos q.opts.timeout) := by
  cases p with
  | away => trivial
  | leave => trivial
  | finish out o => trivial
  | python last => simp [QueuePc.idle] at hidle
  | beginLock q' => exact h
  | lockCall site q' =>
      obtain rfl : q' = q := h
      simp only [next]
      split_ifs
      · exact cfg.due_siteDone _
      · rfl
      · exact cfg.due_siteFailed _ _
  | recovering site q' p =>
      obtain rfl : q' = q := h
      cases p with
      | ret rc =>
          simp only [next]
          split_ifs
          · rfl
          · exact cfg.due_recoverFailed _ _
      | _ => rfl
  | makeConsistent site q' =>
      obtain rfl : q' = q := h
      simp only [next]
      split_ifs
      · rfl
      · exact cfg.due_recoverFailed _ _
  | unlockBad site q' rc =>
      obtain rfl : q' = q := h
      exact cfg.due_siteFailed _ _
  | announce site q' k =>
      obtain rfl : q' = q := h
      cases k with
      | wakeEmpty => exact cfg.due_siteDone _
      | _ => rfl
  | test q' p =>
      obtain rfl : q' = q := h
      cases p with
      | ret y => exact cfg.due_afterTest _ _
      | _ => rfl
  | ring q' p =>
      obtain rfl : q' = q := h
      cases p with
      | ret y =>
          simp only [next]
          split <;> rfl
      | _ => rfl
  | bump q' rc data => exact h
  | futexLoad q' => exact h
  | futexUnlock q' e =>
      obtain rfl : q' = q := h
      simp only [next]
      split_ifs
      · rfl
      · exact cfg.due_afterWait _ _
  | waitEnter q' w =>
      obtain rfl : q' = q := h
      exact cfg.due_startWait hT hproper (hentry rfl)
  | slice q' w user =>
      obtain ⟨rfl, d, rfl, hd⟩ := h
      simp only [next]
      cases hnow : posixipcNow r.reading with
      | error rc => exact cfg.due_waitReturn _ _ _
      | ok now =>
          have hread : now ∈ r.reading := by
            cases hr : r.reading with
            | none => simp [hr, posixipcNow] at hnow
            | some c => simpa [hr, posixipcNow] using hnow
          exact ⟨rfl, ⟨d, rfl, hd⟩, _, rfl, sliceDeadline_due (hproper now hread) hd⟩
  | drop q' w user limit => exact h
  | park q' w user limit =>
      cases w <;> simp only [next] <;> split_ifs <;> first | exact h | exact ⟨h.1, h.2.1⟩
  | asleep q' w user limit => cases w <;> exact ⟨h.1, h.2.1⟩
  | reacquire q' user res =>
      simp only [next]
      split_ifs <;> exact h
  | gil q' w user rc => exact h
  | back q' w user rc =>
      obtain ⟨rfl, huser⟩ := h
      simp only [next]
      split_ifs
      · exact cfg.due_waitReturn _ _ _
      · exact ⟨rfl, huser⟩
      · exact cfg.due_waitReturn _ _ _
  | check q' w user =>
      obtain ⟨rfl, d, rfl, hd⟩ := h
      simp only [next]
      split_ifs
      · exact cfg.due_waitReturn _ _ _
      · exact ⟨rfl, d, rfl, hd⟩
  | _ =>
      simp only [next]
      repeat' split
      all_goals trivial

end QueueConfig

/-! ## Whole runs -/

section Runs

variable {Tid Pid : Type} [DecidableEq Tid] [DecidableEq Pid]

/-- The call of `t` goes on: `t` makes no further request.  The clock stores what a clock
stores. -/
def CallGoesOn (t : Tid) (s : State Tid QueuePc (Shared Tid Pid Side Loc)) :
    Label Tid (QueueAnswer Tid) → Prop
  | .act u e =>
    u = t → (s.pc t).elim false QueuePc.idle = false ∧ ∀ now ∈ e.reading, now.Proper
  | .die _ => True

/-- When `t` starts a wait, its clock has not moved on since the reading `entry`. -/
def ClockHeld (t : Tid) (entry : Option Timespec)
    (s : State Tid QueuePc (Shared Tid Pid Side Loc)) :
    Label Tid (QueueAnswer Tid) → Prop
  | .act u e =>
    u = t → (s.pc t).elim false QueuePc.startsWait = true →
      ∀ now ∈ e.reading, ∀ c ∈ entry, now.ns ≤ c.ns
  | .die _ => True

instance (t : Tid) (s : State Tid QueuePc (Shared Tid Pid Side Loc))
    (l : Label Tid (QueueAnswer Tid)) : Decidable (CallGoesOn t s l) :=
  match l with
  | .act u e => inferInstanceAs (Decidable (u = t →
      (s.pc t).elim false QueuePc.idle = false ∧ ∀ now ∈ e.reading, now.Proper))
  | .die _ => .isTrue trivial

instance (t : Tid) (entry : Option Timespec) (s : State Tid QueuePc (Shared Tid Pid Side Loc))
    (l : Label Tid (QueueAnswer Tid)) : Decidable (ClockHeld t entry s l) :=
  match l with
  | .act u e => inferInstanceAs (Decidable (u = t →
      (s.pc t).elim false QueuePc.startsWait = true →
        ∀ now ∈ e.reading, ∀ c ∈ entry, now.ns ≤ c.ns))
  | .die _ => .isTrue trivial

/-- If `t` enters a condition or futex wait, then with a deadline of the queue's clock that is
not later than `x` nanoseconds. -/
def WaitsBy (cfg : QueueConfig) (t : Tid) (x : WithTop ℚ)
    (s : State Tid QueuePc (Shared Tid Pid Side Loc)) : Prop :=
  ∀ q w user limit, s.pc t = some (.park q w user limit) → DueBy (cfg.waitClock w) x limit

/-- In a run of the call all deadlines come from the reading at its entry. -/
theorem waitsBy_run (cfg : QueueConfig) (proc : Tid → Pid) {t : Tid} {q : Request}
    {e : QueueAnswer Tid} {entry : Timespec} {last : Option Outcome}
    {s s₁ s₂ : State Tid QueuePc (Shared Tid Pid Side Loc)}
    (hT : q.opts.timeoutNone = false) (hs : s.pc t = some (.python last))
    (hreq : e.req = some q) (hentry : e.reading = some entry)
    (hstep : (cfg.machine proc).step s (.act t e) = some s₁)
    (hrun : (cfg.machine proc).Run
      (fun s l => CallGoesOn t s l ∧ ClockHeld t e.reading s l) s₁ s₂) :
    WaitsBy cfg t (entry.plus doubleNanos q.opts.timeout) s₂ := by
  have h0 : ∀ p, s₁.pc t = some p → p.Due cfg q (entry.plus doubleNanos q.opts.timeout) := by
    intro p hp
    obtain ⟨p₀, r, sh, hp₀, hr, rfl⟩ := Machine.step_act hstep
    obtain rfl : QueuePc.python last = p₀ := by simpa [hs] using hp₀
    obtain ⟨rfl, -⟩ :=
      Prod.mk.inj (Option.some.inj (show some (e, s.shared) = some (r, sh) from hr))
    obtain rfl : cfg.next (.python last) e = p := by
      simpa [QueueConfig.machine, OsWorld.machine] using hp
    simp only [QueueConfig.next, hreq]
    cases q with
    | get o =>
        simp only
        split_ifs <;> trivial
    | _ => rfl
  intro q' w user limit hp
  have hdue := Machine.Run.thread_invariant
    (J := fun p _ => p.Due cfg q (entry.plus doubleNanos q.opts.timeout)) h0 ?_ ?_ ?_ hrun _ hp
  · exact hdue.2.2
  · intro s p e' r sh hJ hok hp hr
    obtain ⟨hgo, hheld⟩ := hok
    obtain ⟨hidle, hproper⟩ := hgo rfl
    have hread : r.reading = e'.reading := perform_reading hr
    rw [hp] at hidle
    refine cfg.due_next hT hidle ?_ ?_ hJ
    · rw [hread]
      exact hproper
    · intro hstart now hnow
      exact hheld rfl (by rw [hp]; exact hstart) now (hread ▸ hnow) entry hentry
  · intro s p u p' e r sh _ hJ _ _ _ _
    exact hJ
  · intro p u sh _ hJ
    exact hJ

/-- **A call that starts its waits at its entry keeps its deadline.**  The call `q` of `t`
enters at the reading `entry`; in every run of any other threads in which the clock of `t`
has not moved on when it starts a wait, all its waits end at `entry` plus the timeout, in whole
nanoseconds, and exactly there if the product of `add_seconds` is not rounded up. -/
theorem queue_timeout_absolute (cfg : QueueConfig) (proc : Tid → Pid) {t : Tid} {q : Request}
    {e : QueueAnswer Tid} {entry : Timespec} {last : Option Outcome}
    {s s₁ s₂ : State Tid QueuePc (Shared Tid Pid Side Loc)}
    (hT : q.opts.timeoutNone = false) (hs : s.pc t = some (.python last))
    (hreq : e.req = some q) (hentry : e.reading = some entry)
    (hstep : (cfg.machine proc).step s (.act t e) = some s₁)
    (hrun : (cfg.machine proc).Run
      (fun s l => CallGoesOn t s l ∧ ClockHeld t e.reading s l) s₁ s₂) :
    WaitsBy cfg t (entry.plus wholeNanos q.opts.timeout) s₂ ∧
      (q.opts.RoundsDown → WaitsBy cfg t (entry.plus exactNanos q.opts.timeout) s₂) := by
  have hby := waitsBy_run cfg proc hT hs hreq hentry hstep hrun
  constructor
  · intro q' w user limit hp
    exact (hby q' w user limit hp).mono
      (plus_le_plus le_rfl fun s _ => doubleNanos_le_wholeNanos s)
  · intro hround q' w user limit hp
    exact (hby q' w user limit hp).mono
      (plus_le_plus le_rfl (doubleNanos_le_exactNanos hround))

end Runs

/-! ## A stolen wake-up -/

/-- The environment at `n` seconds; a signal goes to thread `0`. -/
def clockAt (n : ℤ) : QueueAnswer (Fin 3) :=
  { @calm (Fin 3) with reading := some ⟨n, 0⟩, who := some 0 }

/-- `get(timeout=5, interruptible=False)`. -/
def getFive : Request := .get ⟨false, (5 : ℚ), true, false⟩

/-- Thread `0` is in Python. -/
def beforeCall (cfg : QueueConfig) : State (Fin 3) QueuePc (Shared (Fin 3) (Fin 3) Side Loc) :=
  ((cfg.machine id).run (cfg.start (Fin 3) (Fin 3) fun _ => 0) [.act 0 (clockAt 0)]).getD
    (cfg.start (Fin 3) (Fin 3) fun _ => 0)

/-- Thread `0` calls `get` at second `0`. -/
def enterCall : QueueAnswer (Fin 3) := { clockAt 0 with req := some getFive }

/-- The call has begun. -/
def duringCall (cfg : QueueConfig) : State (Fin 3) QueuePc (Shared (Fin 3) (Fin 3) Side Loc) :=
  ((cfg.machine id).step (beforeCall cfg) (.act 0 enterCall)).getD (beforeCall cfg)

/-- `n` steps of a thread at one reading. -/
def stepsAt (t : Fin 3) (n : ℕ) (sec : ℤ) : List (Label (Fin 3) (QueueAnswer (Fin 3))) :=
  List.replicate n (.act t (clockAt sec))

/-- A request of a thread that was outside Python. -/
def requestAt (t : Fin 3) (q : Request) (sec : ℤ) : List (Label (Fin 3) (QueueAnswer (Fin 3))) :=
  [.act t (clockAt sec), .act t { clockAt sec with req := some q }]

/-- Thread `0` parks at second `0`, `1` puts an item at second `1` and wakes it, `2` takes the
item at second `2`, and `0` goes on at second `4`. -/
def stolenRun (park put get resume : ℕ) : List (Label (Fin 3) (QueueAnswer (Fin 3))) :=
  stepsAt 0 park 0 ++ requestAt 1 (.put (fun _ => 7) .default) 1 ++ stepsAt 1 put 1 ++
    requestAt 2 (.get .default) 2 ++ stepsAt 2 get 2 ++ stepsAt 0 resume 4

/-- The readings along a run. -/
def readings (ls : List (Label (Fin 3) (QueueAnswer (Fin 3)))) : List ℤ :=
  ls.filterMap fun
    | .act _ e => e.reading.map Timespec.ns
    | .die _ => none

/-- The end of a run of the call. -/
def afterRun (cfg : QueueConfig) (ls : List (Label (Fin 3) (QueueAnswer (Fin 3)))) :
    State (Fin 3) QueuePc (Shared (Fin 3) (Fin 3) Side Loc) :=
  ((cfg.machine id).runIf (CallGoesOn 0) (duringCall cfg) ls).getD (duringCall cfg)

/-- The deadline of the wait that thread `0` is about to enter, in nanoseconds. -/
def parkLimit (s : State (Fin 3) QueuePc (Shared (Fin 3) (Fin 3) Side Loc)) : Option ℤ :=
  match s.pc 0 with
  | some (.park _ _ _ (some d)) => some d.ts.ns
  | _ => none

/-- The getter `0` parks at second `0`. -/
def firstPark : State (Fin 3) QueuePc (Shared (Fin 3) (Fin 3) Side Loc) :=
  ((smallQueue.machine id).runIf
    (fun s l => CallGoesOn 0 s l ∧ ClockHeld 0 enterCall.reading s l) (duringCall smallQueue)
    (stepsAt 0 7 0)).getD (duringCall smallQueue)

/-- Five seconds are counted without rounding. -/
theorem getFive_roundsDown : getFive.opts.RoundsDown := by
  intro s hs
  obtain rfl : (5 : ℚ) = s := WithTop.coe_injective hs
  decide +kernel

theorem queue_timeout_absolute_first :
    parkLimit firstPark = some 5000000000 ∧
      WaitsBy smallQueue 0 (Timespec.plus ⟨0, 0⟩ exactNanos getFive.opts.timeout) firstPark := by
  have hrun : (smallQueue.machine id).Run
      (fun s l => CallGoesOn 0 s l ∧ ClockHeld 0 enterCall.reading s l)
      (duringCall smallQueue) firstPark := Machine.Run.of_runIf_isSome (by decide +kernel)
  have hstep : (smallQueue.machine id).step (beforeCall smallQueue) (.act 0 enterCall)
      = some (duringCall smallQueue) := rfl
  exact ⟨by decide +kernel,
    (queue_timeout_absolute smallQueue id rfl rfl rfl rfl hstep hrun).2 getFive_roundsDown⟩

/-- The getter waits past its deadline in a run of the call on an advancing clock. -/
def Restarts (cfg : QueueConfig) (ls : List (Label (Fin 3) (QueueAnswer (Fin 3)))) : Prop :=
  (beforeCall cfg).pc 0 = some (.python none) ∧
    (cfg.machine id).step (beforeCall cfg) (.act 0 enterCall) = some (duringCall cfg) ∧
    (cfg.machine id).Run (CallGoesOn 0) (duringCall cfg) (afterRun cfg ls) ∧
    (readings ls).Pairwise (· ≤ ·) ∧
    ¬ WaitsBy cfg 0 (Timespec.plus ⟨0, 0⟩ exactNanos getFive.opts.timeout) (afterRun cfg ls)

theorem not_waitsBy {cfg : QueueConfig} {x : ℤ}
    {s : State (Fin 3) QueuePc (Shared (Fin 3) (Fin 3) Side Loc)} (h : parkLimit s = some x)
    {y : ℚ} (hlate : y < x) : ¬ WaitsBy cfg 0 y s := by
  intro hby
  unfold parkLimit at h
  split at h
  · rename_i q w user d hp
    obtain rfl : d.ts.ns = x := by simpa using h
    obtain ⟨d', hd', -, -, hle⟩ := hby _ _ _ _ hp
    obtain rfl : d = d' := by simpa using hd'
    exact absurd (WithTop.coe_le_coe.mp hle) (not_le.mpr hlate)
  · simp at h

theorem getFive_due : Timespec.plus ⟨0, 0⟩ exactNanos getFive.opts.timeout = (5000000000 : ℚ) := by
  decide +kernel

/-- **The deadline is computed again after a stolen wake-up.**  Entered at second `0` with a
timeout of five seconds, the call enters a wait that ends at second `9`, for both classes. -/
theorem queue_timeout_restarts :
    Restarts smallQueue (stolenRun 8 16 17 8) ∧
      Restarts smallFutexQueue (stolenRun 10 17 18 10) := by
  refine ⟨⟨rfl, ?_, ?_, by decide +kernel, ?_⟩, ⟨rfl, ?_, ?_, by decide +kernel, ?_⟩⟩
  · rfl
  · exact Machine.Run.of_runIf_isSome (by decide +kernel)
  · rw [getFive_due]
    exact not_waitsBy (x := 9000000000) (by decide +kernel) (by norm_num)
  · rfl
  · exact Machine.Run.of_runIf_isSome (by decide +kernel)
  · rw [getFive_due]
    exact not_waitsBy (x := 9000000000) (by decide +kernel) (by norm_num)

end PosixIpc
