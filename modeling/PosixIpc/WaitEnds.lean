/-
# A timed call ends (`py_wait.c` and its callers)

How many slices a call with a timeout can wait for, and how late it can return, on the ten
operations of `BlockingOp` and whatever the kernel may answer.

* `Timely` : the readings of a wait follow each other with a bounded delay;
* `timeouts_lt` : each slice that times out has used up 50 ms of the timeout;
* `timed_call_ends` : a call is over when its slices have used up the timeout;
* `timed_call_prompt` : the delays of the slices do not add up.
-/
import PosixIpc.BlockingWait

namespace PosixIpc

/-! ## The clock during a wait -/

/-- The readings of the passes are at most `ε` late: a wrapped call returns at its deadline, or at
once if that has passed. -/
def Timely (ε : ℤ) (limit : Round → Deadline) : ℤ → List Round → Prop
  | _, [] => True
  | t, r :: rs => r.now.1.ns ≤ t + ε ∧ r.back.1.ns ≤ max (limit r).ts.ns r.now.1.ns + ε ∧
      r.check.1.ns ≤ r.back.1.ns + ε ∧ Timely ε limit r.check.1.ns rs

/-- The slices that timed out. -/
def timeouts (rs : List Round) : ℕ := rs.countP fun r => r.raw = .etimedout

section Slices

variable {cb : Rc → Rc} {d : Deadline} {rs : List Round} {r : Round} {rc : Rc} {t ε : ℤ}

/-- A wait that goes on after a pass has not reached its deadline. -/
theorem goes_on (h : posixipcBlockingWait cb (some d) true (r :: rs) = none) :
    ¬ d.Reached r.check ∧ posixipcBlockingWait cb (some d) true rs = none := by
  unfold posixipcBlockingWait at h
  simp only [Bool.not_true, Bool.false_eq_true, if_false] at h
  split_ifs at h with _ _ hd
  exact ⟨hd, h⟩

/-- **Each slice that times out has used up 50 ms**: a wait that goes on has time left. -/
theorem timeouts_lt (hd : d.ts.Proper) (hfollow : Follow t rs)
    (hgranted : ∀ r ∈ rs, r.raw = .etimedout →
      (sliceDeadline d.clk (some d) r.now.1).Reached r.back)
    (hwait : posixipcBlockingWait cb (some d) true rs = none) :
    timeouts rs = 0 ∨ t + timeouts rs * sliceNs < d.ts.ns := by
  induction rs generalizing t with
  | nil => exact Or.inl rfl
  | cons r rs ih =>
    obtain ⟨hnow, hback, hcheck, hrest⟩ := hfollow
    obtain ⟨hopen, hwait⟩ := goes_on hwait
    rw [Deadline.reached_iff hd, not_le] at hopen
    have ih := ih hrest (fun x hx => hgranted x (List.mem_cons_of_mem r hx)) hwait
    by_cases hraw : r.raw = .etimedout
    · -- the slice ended before the deadline, so it was a whole one
      obtain ⟨-, hproper, -, hns⟩ := slicesEndBy_of_proper d.clk hd r.now.1 r.now.2
      have hreached := (Deadline.reached_iff hproper r.back).mp
        (hgranted r List.mem_cons_self hraw)
      have hcount : timeouts (r :: rs) = timeouts rs + 1 := by simp [timeouts, hraw]
      rw [hns] at hreached
      have hslice : t + sliceNs ≤ r.check.1.ns := by
        rcases min_le_iff.mp hreached with hle | hle <;> omega
      rw [hcount]
      push_cast
      right
      rcases ih with hzero | hlt
      · rw [hzero]
        push_cast
        linarith
      · linarith
    · have hcount : timeouts (r :: rs) = timeouts rs := by simp [timeouts, hraw]
      rw [hcount]
      rcases ih with hzero | hlt
      · exact Or.inl hzero
      · exact Or.inr (by linarith)

/-- **The delays do not add up**: a wait whose slices end by `m`, and which goes on only before `m`,
returns soon after `m`. -/
theorem check_le {m : ℤ} (hle : t ≤ m) (hε : 0 ≤ ε)
    (hslice : ∀ now : Reading, (sliceDeadline d.clk (some d) now.1).ts.ns ≤ m)
    (hopen : ∀ now : Reading, ¬ d.Reached now → now.1.ns ≤ m)
    (hprompt : Timely ε (fun r => sliceDeadline d.clk (some d) r.now.1) t rs)
    (hend : posixipcBlockingWait cb (some d) true rs = some (rc, r)) :
    r.check.1.ns ≤ m + 3 * ε := by
  induction rs generalizing t with
  | nil => simp [posixipcBlockingWait] at hend
  | cons x rs ih =>
    obtain ⟨hnow, hback, hcheck, hrest⟩ := hprompt
    have hlimit : x.back.1.ns ≤ m + 2 * ε := by
      have hmax : max (sliceDeadline d.clk (some d) x.now.1).ts.ns x.now.1.ns ≤ m + ε :=
        max_le ((hslice x.now).trans (by linarith)) (by linarith)
      linarith
    unfold posixipcBlockingWait at hend
    simp only [Bool.not_true, Bool.false_eq_true, if_false] at hend
    split_ifs at hend with _ _ hreached
    · obtain ⟨-, rfl⟩ := Prod.mk.inj (Option.some.inj hend)
      linarith
    · obtain ⟨-, rfl⟩ := Prod.mk.inj (Option.some.inj hend)
      linarith
    · obtain ⟨-, rfl⟩ := Prod.mk.inj (Option.some.inj hend)
      linarith
    · exact ih (hopen x.check hreached) hrest hend

/-- The slices of a normalised deadline end by it, and those of one that wrapped around by the
reading from which it was computed. -/
theorem slice_le {clk : ClockId} {entry now : Reading} {due : Timespec}
    (hdue : due.Proper ∨ due = entry.1.wrapped) :
    (sliceDeadline clk (some ⟨clk, due⟩) now.1).ts.ns ≤ max entry.1.ns due.ns := by
  have hslice := addNs_proper now.2
  rcases sliceDeadline_cases clk ⟨clk, due⟩ now.1 with heq | ⟨heq, hle⟩
  · rw [heq]
    exact le_max_right _ _
  · rw [heq]
    rcases hdue with hproper | rfl
    · exact ((Timespec.notAfter_iff hslice hproper).mp hle).trans (le_max_right _ _)
    · -- the slice ends in the second of the wrapped deadline at the latest
      refine le_trans ?_ (le_max_left _ _)
      obtain ⟨hn0, hn1⟩ := hslice
      obtain ⟨he0, he1⟩ := entry.2
      simp only [Timespec.NotAfter, Timespec.wrapped] at hle
      simp only [Timespec.ns]
      omega

/-- A clock that has not reached a deadline, or the reading of one that wrapped around. -/
theorem open_le {clk : ClockId} {entry now : Reading} {due : Timespec}
    (hdue : due.Proper ∨ due = entry.1.wrapped)
    (hopen : ¬ (⟨clk, due⟩ : Deadline).Reached now) : now.1.ns ≤ max entry.1.ns due.ns := by
  rcases hdue with hproper | rfl
  · rw [Deadline.reached_iff hproper, not_le] at hopen
    exact hopen.le.trans (le_max_right _ _)
  · by_contra hlt
    rw [not_le, max_lt_iff] at hlt
    exact hopen (wrapped_reached clk hlt.1.le)

end Slices

/-! ## One wait -/

section OneWait

variable {c : ClockSet} {op : BlockingOp} {o : AcquireOpts} {w : Wait} {ε : ℤ}

/-- The slices that timed out have used up the timeout; one is enough for a timeout beyond the range
of the arithmetic. -/
def Wait.Long (o : AcquireOpts) (w : Wait) : Prop :=
  0 < timeouts w.rounds ∧ (((2 ^ 63 : ℚ) : WithTop ℚ) ≤ o.timeout ∨
    ∃ s : ℚ, o.timeout = s ∧ s * 1000000000 ≤ timeouts w.rounds * sliceNs)

/-- The wait of a call with a timeout, in slices. -/
theorem waitOnce_timed (hint : o.interruptible = true) (htimed : o.timeoutNone = false)
    (hpos : 0 ≤ o.timeout) (w : Wait) :
    op.waitOnce c o w = (posixipcBlockingWait op.callback
        (some ⟨op.clock c, o.due w.entry.1⟩) true w.rounds).map
      fun x => (x.1, some (some ⟨op.clock c, o.due w.entry.1⟩, x.2)) := by
  rw [waitOnce_eq hpos]
  simp [Wait.user, hint, htimed]

/-- The deadline of a call is normalised, or has wrapped around. -/
theorem due_cases (hpos : 0 ≤ o.timeout) (now : Reading) :
    (o.due now.1).Proper ∨ o.due now.1 = now.1.wrapped := by
  rcases lt_or_ge o.timeout (2 ^ 63) with hlt | hge
  · obtain ⟨s, -, -, hproper, -⟩ := due_below now.2 hpos hlt
    exact Or.inl hproper
  · exact Or.inr (due_beyond now.1 hge)

/-- A wait is over when its slices have used up the timeout. -/
theorem waitOnce_ends (hint : o.interruptible = true) (htimed : o.timeoutNone = false)
    (hpos : 0 ≤ o.timeout) (hw : w.Granted c op o) (hlong : w.Long o) :
    (op.waitOnce c o w).isSome := by
  rw [waitOnce_timed hint htimed hpos]
  by_contra hnone
  have hwait : posixipcBlockingWait op.callback (some ⟨op.clock c, o.due w.entry.1⟩) true
      w.rounds = none := by simpa using hnone
  have huser : o.deadline (op.clock c) (some w.entry.1)
      = .ok (some ⟨op.clock c, o.due w.entry.1⟩) := by
    rw [deadline_ok hpos]
    simp [htimed]
  obtain ⟨hn, hused⟩ := hlong
  rcases lt_or_ge o.timeout (2 ^ 63) with hlt | hge
  · -- each slice that timed out has used up 50 ms of the timeout
    obtain ⟨s, hs, hused⟩ := hused.resolve_left (not_le.mpr hlt)
    have hgranted : ∀ r ∈ w.rounds, r.raw = .etimedout →
        (sliceDeadline (op.clock c) (some ⟨op.clock c, o.due w.entry.1⟩) r.now.1).Reached
          r.back := by
      intro r hr hraw
      have hexp := (hw.rounds _ huser r hr).expired hraw
      simpa [Round.limit, hint] using hexp
    have hproper : (o.due w.entry.1).Proper := by
      obtain ⟨-, -, -, hproper, -⟩ := due_below w.entry.2 hpos hlt
      exact hproper
    have hdue := due_le w.entry.2 hpos hlt hs (n := timeouts w.rounds * sliceNs)
      (by exact_mod_cast hused)
    rcases timeouts_lt hproper hw.follow hgranted hwait with hzero | hlate
    · omega
    · simp only at hlate
      omega
  · -- the deadline has passed when the first slice ends
    rw [due_beyond _ hge] at hwait
    have hfollow := hw.follow
    cases hrs : w.rounds with
    | nil => simp [hrs, timeouts] at hn
    | cons r rs =>
      rw [hrs] at hfollow hwait
      obtain ⟨hnow, hback, hcheck, -⟩ := hfollow
      exact (goes_on hwait).1 (wrapped_reached _ (hnow.trans (hback.trans hcheck)))

/-- The readings of the wait are at most `ε` late. -/
def Wait.Timely (c : ClockSet) (op : BlockingOp) (o : AcquireOpts) (ε : ℤ) (w : Wait) : Prop :=
  PosixIpc.Timely ε (fun r => r.limit (op.clock c) (w.user c op o) o.interruptible)
    w.entry.1.ns w.rounds

/-- A wait returns soon after its deadline, or after its start if the deadline wrapped around. -/
theorem waitOnce_prompt (hint : o.interruptible = true) (htimed : o.timeoutNone = false)
    (hpos : 0 ≤ o.timeout) (hε : 0 ≤ ε) (hprompt : w.Timely c op o ε) {rc : Rc}
    {user : Option Deadline} {r : Round} (h : op.waitOnce c o w = some (rc, some (user, r))) :
    ∃ d, o.deadline (op.clock c) (some w.entry.1) = .ok (some d) ∧ user = some d ∧
      r.check.1.ns ≤ max w.entry.1.ns d.ts.ns + 3 * ε := by
  rw [waitOnce_timed hint htimed hpos] at h
  obtain ⟨x, hx, heq⟩ := Option.map_eq_some_iff.mp h
  simp only [Prod.mk.injEq, Option.some.injEq] at heq
  obtain ⟨-, rfl, rfl⟩ := heq
  refine ⟨_, by rw [deadline_ok hpos, htimed]; rfl, rfl, ?_⟩
  have hprompt' : PosixIpc.Timely ε (fun r => sliceDeadline (op.clock c)
      (some ⟨op.clock c, o.due w.entry.1⟩) r.now.1) w.entry.1.ns w.rounds := by
    simpa [Wait.Timely, Round.limit, Wait.user, hint, htimed] using hprompt
  have hdue := due_cases hpos w.entry
  exact check_le (le_max_left _ _) hε (fun _ => slice_le hdue) (fun _ => open_le hdue) hprompt' hx

end OneWait

/-! ## The calls -/

namespace BlockingOp

variable {c : ClockSet} {op : BlockingOp} {o : AcquireOpts} {sc : Script}

/-- The waits of a call. -/
def waits : BlockingOp → Script → List Wait
  | queue, sc => sc.passes.map Pass.wait
  | futexQueue, sc => sc.passes.map Pass.wait
  | _, sc => [sc.wait]

/-- The call has no loop around its wait. -/
def waitsOnce : BlockingOp → Bool
  | queue => false
  | futexQueue => false
  | _ => true

/-- The kernel's answers in each wait of a call. -/
theorem waits_granted (hsc : sc.Granted c op o) : ∀ w ∈ op.waits sc, w.Granted c op o := by
  intro w hw
  cases op with
  | queue =>
    obtain ⟨p, hp, rfl⟩ := List.mem_map.mp hw
    exact (hsc.passes p hp).1
  | futexQueue =>
    obtain ⟨p, hp, rfl⟩ := List.mem_map.mp hw
    exact (hsc.passes p hp).1
  | _ => exact List.mem_singleton.mp hw ▸ hsc.wait

/-- A call that tries first is over when its wait is. -/
theorem tryThenWait_isSome {busy : List Rc} {tried : Rc → CallEnd}
    (h : (op.waitOnce c o sc.wait).isSome) : (op.tryThenWait c o busy tried sc).isSome := by
  unfold tryThenWait finishWait
  by_cases hbusy : sc.first ∈ busy
  · rw [if_neg (not_not.mpr hbusy)]
    split_ifs
    · rfl
    · rw [Option.isSome_map]
      exact h
  · rw [if_pos hbusy]
    rfl

/-- A call that waits once is over when its wait is. -/
theorem call_isSome (hop : op.waitsOnce = true) (h : (op.waitOnce c o sc.wait).isSome) :
    (op.call c o sc).isSome := by
  cases op with
  | queue => simp [waitsOnce] at hop
  | futexQueue => simp [waitsOnce] at hop
  | condition =>
    simp only [call, condWait, finishWait]
    split_ifs
    · rfl
    · rw [Option.isSome_map]
      exact h
  | futex =>
    simp only [call, futexWait, finishWait]
    split_ifs
    · rfl
    · rfl
    · rw [Option.isSome_map]
      exact h
  | messageQueue =>
    simp only [call, nmqTransfer, finishWait]
    split_ifs
    · rfl
    · rw [Option.isSome_map]
      exact h
  | _ => exact tryThenWait_isSome h

/-- The wait in which a call has returned. -/
theorem finishWait_info {w : Wait} {out : CallEnd} {info : Option Deadline × Round}
    (h : op.finishWait c o w = some (out, some info)) :
    ∃ rc, op.waitOnce c o w = some (rc, some info) := by
  obtain ⟨⟨rc, info'⟩, hx, heq⟩ := Option.map_eq_some_iff.mp h
  obtain ⟨-, rfl⟩ := Prod.mk.inj heq
  exact ⟨rc, hx⟩

/-- A call that tries first was in its one wait. -/
theorem tryThenWait_info {busy : List Rc} {tried : Rc → CallEnd} {out : CallEnd}
    {info : Option Deadline × Round}
    (h : op.tryThenWait c o busy tried sc = some (out, some info)) :
    ∃ rc, op.waitOnce c o sc.wait = some (rc, some info) := by
  unfold tryThenWait at h
  split_ifs at h
  all_goals first
    | exact finishWait_info h
    | simp at h

/-- The loop of a queue call was in the wait of a pass, by induction on the passes. -/
theorem queueLoop_info {ps : List Pass} {out : CallEnd} {info : Option Deadline × Round}
    (h : op.queueLoop c o ps = some (out, some info)) :
    ∃ p ∈ ps, ∃ rc, op.waitOnce c o p.wait = some (rc, some info) := by
  induction ps with
  | nil => simp [queueLoop] at h
  | cons p ps ih =>
    unfold queueLoop at h
    by_cases hready : p.ready = true
    · simp [hready] at h
    · rw [if_neg hready] at h
      by_cases hnw : o.noWait = true
      · simp [hnw] at h
      · rw [if_neg hnw] at h
        cases hx : op.waitOnce c o p.wait with
        | none => simp [hx] at h
        | some x =>
          obtain ⟨rc, info'⟩ := x
          simp only [hx] at h
          by_cases htimeout : op.afterWait p rc = .etimedout
          · rw [if_pos htimeout] at h
            obtain ⟨-, rfl⟩ := Prod.mk.inj (Option.some.inj h)
            exact ⟨p, List.mem_cons_self, rc, hx⟩
          · rw [if_neg htimeout] at h
            by_cases hok : op.afterWait p rc = .ok
            · rw [if_pos hok] at h
              obtain ⟨q, hq, hw⟩ := ih h
              exact ⟨q, List.mem_cons_of_mem p hq, hw⟩
            · rw [if_neg hok] at h
              obtain ⟨-, rfl⟩ := Prod.mk.inj (Option.some.inj h)
              exact ⟨p, List.mem_cons_self, rc, hx⟩

/-- A call that was waiting when it returned was in one of its waits. -/
theorem call_info {out : CallEnd} {info : Option Deadline × Round}
    (h : op.call c o sc = some (out, some info)) :
    ∃ w ∈ op.waits sc, ∃ rc, op.waitOnce c o w = some (rc, some info) := by
  have hqueue : ∀ {op : BlockingOp}, op.queueTransfer c o sc = some (out, some info) →
      ∃ w ∈ sc.passes.map Pass.wait, ∃ rc, op.waitOnce c o w = some (rc, some info) := by
    intro op h
    unfold queueTransfer at h
    split_ifs at h
    · simp at h
    · obtain ⟨p, hp, hw⟩ := queueLoop_info h
      exact ⟨p.wait, List.mem_map_of_mem hp, hw⟩
  have hone : ∀ {op : BlockingOp}, (∃ rc, op.waitOnce c o sc.wait = some (rc, some info)) →
      ∃ w ∈ [sc.wait], ∃ rc, op.waitOnce c o w = some (rc, some info) := fun hw =>
    ⟨sc.wait, List.mem_singleton_self _, hw⟩
  cases op with
  | queue => exact hqueue h
  | futexQueue => exact hqueue h
  | condition =>
    simp only [call, condWait] at h
    split_ifs at h
    · simp at h
    · exact hone (finishWait_info h)
  | futex =>
    simp only [call, futexWait] at h
    split_ifs at h
    all_goals first
      | exact hone (finishWait_info h)
      | simp at h
  | messageQueue =>
    simp only [call, nmqTransfer] at h
    split_ifs at h
    · simp at h
    · exact hone (finishWait_info h)
  | _ => exact hone (tryThenWait_info h)

end BlockingOp

section Calls

variable {c : ClockSet} {op : BlockingOp} {o : AcquireOpts} {sc : Script}

/-- **A timed call ends**: whatever the kernel answers, a wait of an interruptible call is over when
the slices that timed out have used up its timeout, 50 ms each, and with it the call, if it waits
once. -/
theorem timed_call_ends (hint : o.interruptible = true) (htimed : o.timeoutNone = false)
    (hpos : 0 ≤ o.timeout) (hsc : sc.Granted c op o) (hlong : ∀ w ∈ op.waits sc, w.Long o) :
    (∀ w ∈ op.waits sc, (op.waitOnce c o w).isSome) ∧
      (op.waitsOnce = true → (op.call c o sc).isSome) := by
  have hends : ∀ w ∈ op.waits sc, (op.waitOnce c o w).isSome := fun w hw =>
    waitOnce_ends hint htimed hpos (BlockingOp.waits_granted hsc w hw) (hlong w hw)
  refine ⟨hends, fun hop => BlockingOp.call_isSome hop ?_⟩
  have hwait : op.waits sc = [sc.wait] := by
    cases op <;> first | rfl | simp [BlockingOp.waitsOnce] at hop
  exact hends sc.wait (by simp [hwait])

/-- A timeout of a tenth of a second. -/
def tenth : AcquireOpts := ⟨false, ((1 / 10 : ℚ) : WithTop ℚ), true, true⟩

/-- Hundredths of a second. -/
def hundredths (n : ℤ) (h : 0 ≤ n ∧ n < 100) : Reading :=
  ⟨⟨0, n * 10000000⟩, by constructor <;> simp only <;> omega⟩

/-- A mutex that stays locked: two slices, the second to the deadline. -/
def twoSlices : Script :=
  ⟨.ebusy, false, ⟨hundredths 0 (by decide), .ok,
    [⟨hundredths 0 (by decide), .etimedout, hundredths 5 (by decide), false,
        hundredths 6 (by decide)⟩,
      ⟨hundredths 6 (by decide), .etimedout, hundredths 10 (by decide), false,
        hundredths 10 (by decide)⟩]⟩, []⟩

/-- The kernel may answer so. -/
theorem twoSlices_granted : twoSlices.Granted monotonicClocks .mutex tenth := by
  refine ⟨by decide, ⟨?_, ?_, by decide, by decide, by decide⟩, by simp [twoSlices]⟩
  · exact ⟨by decide, by decide, by decide, by decide, by decide, by decide, trivial⟩
  · intro user huser r hr
    have hdeadline : tenth.deadline (BlockingOp.mutex.clock monotonicClocks)
        (some twoSlices.wait.entry.1) = .ok (some ⟨.monotonic, ⟨0, 100000000⟩⟩) := by
      decide +kernel
    obtain rfl := Except.ok.inj (hdeadline.symm.trans huser)
    simp only [twoSlices, List.mem_cons, List.not_mem_nil, or_false] at hr
    rcases hr with rfl | rfl
    · exact ⟨fun _ => by decide +kernel, by decide, by decide⟩
    · exact ⟨fun _ => by decide +kernel, by decide, by decide⟩

/-- There is one wait. -/
theorem twoSlices_wait : ∀ w ∈ BlockingOp.mutex.waits twoSlices, w = twoSlices.wait :=
  fun _ hw => List.mem_singleton.mp hw

theorem timed_call_ends_tenth :
    BlockingOp.mutex.call monotonicClocks tenth twoSlices
      = some (.no, some (some ⟨.monotonic, ⟨0, 100000000⟩⟩, ⟨hundredths 6 (by decide), .etimedout,
          hundredths 10 (by decide), false, hundredths 10 (by decide)⟩)) ∧
    (∀ w ∈ BlockingOp.mutex.waits twoSlices,
      (BlockingOp.mutex.waitOnce monotonicClocks tenth w).isSome) ∧
    (BlockingOp.mutex.waitsOnce = true →
      (BlockingOp.mutex.call monotonicClocks tenth twoSlices).isSome) := by
  refine ⟨by decide +kernel, timed_call_ends rfl rfl (by decide +kernel) twoSlices_granted ?_⟩
  intro w hw
  rw [twoSlices_wait w hw]
  exact ⟨by decide, Or.inr ⟨1 / 10, rfl, by decide +kernel⟩⟩

/-- **The delays of the slices do not add up**: an interruptible call that has waited returns at
most three delays after the deadline that it has computed for its last wait, or after the start of
that wait if it lies before, in however many slices. -/
theorem timed_call_prompt (hint : o.interruptible = true) (htimed : o.timeoutNone = false)
    (hpos : 0 ≤ o.timeout) {ε : ℤ} (hε : 0 ≤ ε) (hprompt : ∀ w ∈ op.waits sc, w.Timely c op o ε)
    {out : CallEnd} {user : Option Deadline} {r : Round}
    (h : op.call c o sc = some (out, some (user, r))) :
    ∃ w ∈ op.waits sc, op.waitOnce c o w ≠ none ∧
      ∃ d, o.deadline (op.clock c) (some w.entry.1) = .ok (some d) ∧ user = some d ∧
        r.check.1.ns ≤ max w.entry.1.ns d.ts.ns + 3 * ε := by
  obtain ⟨w, hw, rc, hwait⟩ := BlockingOp.call_info h
  exact ⟨w, hw, by simp [hwait], waitOnce_prompt hint htimed hpos hε (hprompt w hw) hwait⟩

theorem timed_call_prompt_tenth :
    ∃ w ∈ BlockingOp.mutex.waits twoSlices,
      BlockingOp.mutex.waitOnce monotonicClocks tenth w ≠ none ∧
      ∃ d, tenth.deadline (BlockingOp.mutex.clock monotonicClocks) (some w.entry.1)
          = .ok (some d) ∧
        some (⟨.monotonic, ⟨0, 100000000⟩⟩ : Deadline) = some d ∧
        (hundredths 10 (by decide)).1.ns ≤ max w.entry.1.ns d.ts.ns + 3 * 10000000 := by
  refine timed_call_prompt rfl rfl (by decide +kernel) (by decide) ?_
    (show BlockingOp.mutex.call monotonicClocks tenth twoSlices
      = some (.no, some (some ⟨.monotonic, ⟨0, 100000000⟩⟩, ⟨hundredths 6 (by decide), .etimedout,
          hundredths 10 (by decide), false, hundredths 10 (by decide)⟩)) by decide +kernel)
  intro w hw
  rw [twoSlices_wait w hw]
  exact ⟨by decide +kernel, by decide +kernel, by decide +kernel, by decide +kernel,
    by decide +kernel, by decide +kernel, trivial⟩

end Calls

end PosixIpc
