/-
# `Condition.wait` and `notify_all`

One `Condition.wait` is a loop of slices in `posixipc_blocking_wait`.  A notification that
comes while the waiter is parked ends the wait.  One that comes after its slice has expired
and before it has the mutex back is lost: the waiter sees `ETIMEDOUT` and parks again.

* `MutexPc.Waiting` : where a waiter can be that has released the mutex in its call;
* `MutexPc.Notified` : where it can be after a `notify_all` that found it parked or woken;
* `notifyAll_ends_wait` : after such a notification the waiter leaves the loop of slices.
-/
import PosixIpc.OwnerDeath

namespace PosixIpc

open RobustMutex OsWorld ThreadMachine

variable {Cv Hid : Type}

/-! ## The end of a wait -/

/-- The program points of a call after its last wait, the callback apart. -/
def MutexPc.Ending (k : CallStack Cv Hid) (q : MutexCall Cv Hid) : MutexPc Cv Hid → Prop
  | .mark k' q' _ _ => k' = k ∧ q' = q
  | .ownerDied k' q' => k' = k ∧ q' = q
  | .newItem k' q' => k' = k ∧ q' = q
  | .makeConsistent k' q' => k' = k ∧ q' = q
  | .unlockBad k' q' _ => k' = k ∧ q' = q
  | .unmark k' q' _ _ => k' = k ∧ q' = q
  | .python k' (some (.call q', _)) => k' = k ∧ q' = q
  | _ => False

/-- A call is past its waits. -/
def MutexPc.Past (k : CallStack Cv Hid) (q : MutexCall Cv Hid) (p : MutexPc Cv Hid) : Prop :=
  p.Ending k q ∨ q :: k <:+ p.stack

section Past

variable {k : CallStack Cv Hid} {q : MutexCall Cv Hid}

theorem ending_afterLock (rc : Rc) : (MutexPc.afterLock k q rc).Ending k q := by
  unfold MutexPc.afterLock
  split_ifs
  · unfold MutexPc.lockDone
    split <;> exact ⟨rfl, rfl⟩
  · split <;> exact ⟨rfl, rfl⟩
  all_goals exact ⟨rfl, rfl⟩

theorem ending_waitReturn (rc : Rc) : (MutexPc.waitReturn k q rc).Ending k q := by
  cases q with
  | acquire v a => exact ending_afterLock rc
  | wait c h a =>
      simp only [MutexPc.waitReturn]
      split_ifs
      · exact ⟨rfl, rfl⟩
      · exact ⟨rfl, rfl⟩
      · exact ending_afterLock rc

/-- **Step lemma**: a call does not come back to its waits. -/
theorem MutexPc.Past.next (cfg : MutexConfig) {Tid : Type} {p : MutexPc Cv Hid}
    {r : MutexAnswer Tid Cv Hid} (h : p.Past k q) (hnot : ¬ p.BackAt k) :
    (cfg.next p r).Past k q := by
  rcases h with h | hsuf
  · cases p with
    | mark k' q' hd after =>
        obtain ⟨rfl, rfl⟩ := h
        cases after <;> exact Or.inl ⟨rfl, rfl⟩
    | ownerDied k' q' =>
        obtain ⟨rfl, rfl⟩ := h
        simp only [MutexConfig.next]
        split_ifs
        · exact Or.inl ⟨rfl, rfl⟩
        · split
          · exact Or.inl ⟨rfl, rfl⟩
          · exact Or.inr (List.suffix_refl _)
    | newItem k' q' =>
        obtain ⟨rfl, rfl⟩ := h
        simp only [MutexConfig.next]
        split_ifs
        · exact Or.inl ⟨rfl, rfl⟩
        · exact Or.inr (List.suffix_refl _)
    | makeConsistent k' q' =>
        obtain ⟨rfl, rfl⟩ := h
        left
        simp only [MutexConfig.next]
        split_ifs
        · exact ⟨rfl, rfl⟩
        · split <;> exact ⟨rfl, rfl⟩
    | unlockBad k' q' e =>
        obtain ⟨rfl, rfl⟩ := h
        left
        simp only [MutexConfig.next, MutexPc.recoveryFailed]
        split <;> exact ⟨rfl, rfl⟩
    | unmark k' q' hd e =>
        obtain ⟨rfl, rfl⟩ := h
        exact Or.inl ⟨rfl, rfl⟩
    | python k' last =>
        -- the call has returned
        rcases last with _ | ⟨step, out⟩
        · exact h.elim
        · cases step with
          | call q' => exact absurd h.1 hnot
          | _ => exact h.elim
    | _ => exact h.elim
  · rcases MutexPc.callback_next cfg r hsuf with hs | hn | hn
    · exact Or.inr hs
    · rw [hn]
      exact Or.inl ⟨rfl, rfl⟩
    · rw [hn]
      exact Or.inl ⟨rfl, rfl⟩

end Past

/-! ## The waiter -/

/-- The program points between two slices: on the way back to `pthread_cond_timedwait`. -/
def MutexPc.InLoop (k : CallStack Cv Hid) (q : MutexCall Cv Hid) : MutexPc Cv Hid → Prop
  | .check k' q' _ => k' = k ∧ q' = q
  | .slice k' q' _ => k' = k ∧ q' = q
  | .drop k' q' _ _ => k' = k ∧ q' = q
  | .fn k' q' _ _ => k' = k ∧ q' = q
  | _ => False

/-- A waiter that has released the mutex in its call: asleep, on its way back to the mutex,
in the loop as the owner of the mutex, or past its waits. -/
def MutexPc.Waiting (k : CallStack Cv Hid) (c : Cv) (h : Hid) (a : AcquireOpts) (o : Own)
    (p : MutexPc Cv Hid) : Prop :=
  (∃ user limit, p = .asleep k c h a user limit) ∨
    (∃ user res, p = .reacquire k c h a user res) ∨
    (∃ user rc, (p = .gil k (.wait c h a) user rc ∨ p = .back k (.wait c h a) user rc) ∧
      (rc = .etimedout → o = .consistent)) ∨
    (p.InLoop k (.wait c h a) ∧ o = .consistent) ∨ p.Past k (.wait c h a)

/-- A waiter whose wait has been notified: `waits` says whether it is still parked. -/
def MutexPc.Notified (k : CallStack Cv Hid) (c : Cv) (h : Hid) (a : AcquireOpts) (waits : Prop)
    (p : MutexPc Cv Hid) : Prop :=
  (∃ user limit, p = .asleep k c h a user limit ∧ ¬ waits) ∨
    (∃ user res, p = .reacquire k c h a user res ∧ ¬ (a.interruptible ∧ sleepRc res = .etimedout)) ∨
    (∃ user rc, (p = .gil k (.wait c h a) user rc ∨ p = .back k (.wait c h a) user rc) ∧
      ¬ (a.interruptible ∧ rc = .etimedout)) ∨
    p.Past k (.wait c h a)

section Waiter

variable {k : CallStack Cv Hid} {c : Cv} {h : Hid} {a : AcquireOpts} {p : MutexPc Cv Hid}
  {o o' : Own}

/-- The answers of a lock call do not say that it has timed out. -/
theorem lockRc_ne_etimedout {op : RobustMutex.Op} {r : Result} (hop : op = .lock ∨ op = .unlock)
    (hans : o.Answers op r) : lockRc r ≠ .etimedout := by
  rcases hop with rfl | rfl <;> by_cases ho : o = .none <;> cases r <;>
    simp_all [Own.Answers, lockRc]

/-- **Step lemma** for a waiter, its own steps. -/
theorem MutexPc.Waiting.next (cfg : MutexConfig) {Tid : Type} {r : MutexAnswer Tid Cv Hid}
    (hp : p.Waiting k c h a o) (hnot : ¬ p.BackAt k)
    (ho : match p.act.mutexOp with
      | none => o' = o
      | some op => o.Answers op r.lock ∧ o' = o.after op r.lock) :
    (cfg.next p r).Waiting k c h a o' := by
  have hpast : ∀ rc, (MutexPc.waitReturn k (.wait c h a) rc).Waiting k c h a o' := by
    intro rc
    exact Or.inr (Or.inr (Or.inr (Or.inr (Or.inl (ending_waitReturn rc)))))
  rcases hp with ⟨user, limit, rfl⟩ | ⟨user, res, rfl⟩ | ⟨user, rc, hp, hrc⟩ | ⟨hp, rfl⟩ | hp
  · cases limit <;> exact Or.inr (Or.inl ⟨user, r.sleep, rfl⟩)
  · obtain ⟨hans, rfl⟩ := ho
    refine Or.inr (Or.inr (Or.inl ?_))
    simp only [MutexConfig.next]
    split_ifs with h1
    · refine ⟨user, _, Or.inl rfl, fun _ => ?_⟩
      rw [h1]
      rfl
    · exact ⟨user, _, Or.inl rfl, fun hto => absurd hto (lockRc_ne_etimedout (Or.inl rfl) hans)⟩
  · rcases hp with rfl | rfl
    · obtain rfl : o' = o := ho
      exact Or.inr (Or.inr (Or.inl ⟨user, rc, Or.inr rfl, hrc⟩))
    · obtain rfl : o' = o := ho
      simp only [MutexConfig.next]
      split_ifs with h1 h2
      · exact hpast _
      · exact Or.inr (Or.inr (Or.inr (Or.inl ⟨⟨rfl, rfl⟩, hrc h1.2⟩)))
      · exact hpast _
  · -- in the loop the waiter owns the mutex, so it can only park again
    have hloop : ∀ {p' : MutexPc Cv Hid}, p'.InLoop k (.wait c h a) → o' = .consistent →
        p'.Waiting k c h a o' := fun hp' ho' => Or.inr (Or.inr (Or.inr (Or.inl ⟨hp', ho'⟩)))
    cases p with
    | check k' q' user =>
        obtain ⟨rfl, rfl⟩ := hp
        obtain rfl : o' = .consistent := ho
        simp only [MutexConfig.next]
        cases user with
        | none => exact hloop ⟨rfl, rfl⟩ rfl
        | some d =>
            simp only
            split_ifs
            · exact hpast _
            · exact hloop ⟨rfl, rfl⟩ rfl
    | slice k' q' user =>
        obtain ⟨rfl, rfl⟩ := hp
        obtain rfl : o' = .consistent := ho
        simp only [MutexConfig.next]
        split
        · exact hpast _
        · exact hloop ⟨rfl, rfl⟩ rfl
    | drop k' q' user limit =>
        obtain ⟨rfl, rfl⟩ := hp
        obtain rfl : o' = .consistent := ho
        exact hloop ⟨rfl, rfl⟩ rfl
    | fn k' q' user limit =>
        obtain ⟨rfl, rfl⟩ := hp
        obtain ⟨hans, rfl⟩ := ho
        have hok : r.lock = .ok := by simpa [Own.Answers] using hans
        simp only [MutexConfig.next, hok, if_true]
        exact Or.inl ⟨user, limit, rfl⟩
    | _ => exact hp.elim
  · exact Or.inr (Or.inr (Or.inr (Or.inr (hp.next cfg hnot))))

/-- **Step lemma** for a notified waiter, its own steps. -/
theorem MutexPc.Notified.next (cfg : MutexConfig) {Tid : Type} {r : MutexAnswer Tid Cv Hid}
    {waits waits' : Prop} (hp : p.Notified k c h a waits) (hnot : ¬ p.BackAt k)
    (hsleep : ∀ user limit, p = .asleep k c h a user limit → ¬ waits → r.sleep = .woken)
    (hans : ∀ op, p.act.mutexOp = some op → o.Answers op r.lock) :
    (cfg.next p r).Notified k c h a waits' := by
  rcases hp with ⟨user, limit, rfl, hw⟩ | ⟨user, res, rfl, hres⟩ | ⟨user, rc, hp, hrc⟩ | hp
  · have hwoken : r.sleep = .woken := hsleep user limit rfl hw
    refine Or.inr (Or.inl ⟨user, r.sleep, rfl, ?_⟩)
    simp [hwoken, sleepRc]
  · refine Or.inr (Or.inr (Or.inl ?_))
    simp only [MutexConfig.next]
    split_ifs with h1
    · exact ⟨user, _, Or.inl rfl, hres⟩
    · exact ⟨user, _, Or.inl rfl,
        fun hto => lockRc_ne_etimedout (Or.inl rfl) (hans .lock rfl) hto.2⟩
  · rcases hp with rfl | rfl
    · exact Or.inr (Or.inr (Or.inl ⟨user, rc, Or.inr rfl, hrc⟩))
    · refine Or.inr (Or.inr (Or.inr (Or.inl ?_)))
      simp only [MutexConfig.next]
      rw [if_neg (show ¬ ((MutexCall.wait c h a).opts.interruptible ∧ rc = .etimedout) from hrc)]
      exact ending_waitReturn rc
  · exact Or.inr (Or.inr (Or.inr (hp.next cfg hnot)))

/-- A notified waiter is not on its way back to a wait. -/
theorem MutexPc.Notified.not_inLoop {waits : Prop} (hp : p.Notified k c h a waits) :
    ¬ p.InLoop k (.wait c h a) := by
  intro hloop
  rcases hp with ⟨user, limit, rfl, -⟩ | ⟨user, res, rfl, -⟩ | ⟨user, rc, hp, -⟩ | hp | hsuf
  · exact hloop
  · exact hloop
  · rcases hp with rfl | rfl <;> exact hloop
  · cases p <;> first | exact hloop | exact hp
  · -- its own program points have the stack of the call, not that of its callback
    have hstack : p.stack = k := by
      cases p <;> first | exact hloop.1 | exact hloop.elim
    rw [hstack] at hsuf
    exact absurd hsuf.length_le (by simp)

end Waiter

/-! ## Notifications -/

section Notify

variable {Tid Pid : Type} [DecidableEq Tid] [DecidableEq Pid] [DecidableEq Cv] [DecidableEq Hid]

/-- Whenever the owner of the mutex executes `notify_all`, no interruptible waiter of the
condition is between the end of its slice and the re-acquisition of the mutex. -/
def NotifiesParked (s : State Tid (MutexPc Cv Hid) (Shared Tid Pid Cv Hid))
    (l : Label Tid (MutexAnswer Tid Cv Hid)) : Prop :=
  ∀ u e k' c, l = .act u e → s.pc u = some (.notifyAll k' c) → s.shared.mutex.OwnedBy u →
    ∀ t k h a user res, s.pc t = some (.reacquire k c h a user res) → a.interruptible →
      sleepRc res ≠ .etimedout

variable {cfg : MutexConfig} {proc : Tid → Pid}
  {s s₁ s₂ : State Tid (MutexPc Cv Hid) (Shared Tid Pid Cv Hid)} {t : Tid}
  {k : CallStack Cv Hid} {c : Cv} {h : Hid} {a : AcquireOpts}

/-- **Run lemma** for a waiter that has parked. -/
theorem waiting_run {user limit : Option Deadline}
    (hp : s.pc t = some (.asleep k c h a user limit))
    (hrun : (cfg.machine proc).Run (Within t k) s s₁) (p : MutexPc Cv Hid)
    (hp₁ : s₁.pc t = some p) : p.Waiting k c h a (s₁.shared.mutex.own t) := by
  refine Machine.Run.thread_invariant (M := cfg.machine proc)
    (J := fun p sh => p.Waiting k c h a (sh.mutex.own t)) ?_ ?_ ?_ ?_ hrun p hp₁
  · intro p hp'
    obtain rfl : MutexPc.asleep k c h a user limit = p := by simpa [hp] using hp'
    exact Or.inl ⟨user, limit, rfl⟩
  · intro s' q e r sh hJ hok hq hr
    exact hJ.next cfg (hok rfl q hq) (perform_own hr).1
  · intro s' p u q e r sh hut hJ _ _ _ hr
    show p.Waiting k c h a (sh.mutex.own t)
    rw [(perform_own hr).2 t (Ne.symm hut)]
    exact hJ
  · intro p u sh hut hJ
    show p.Waiting k c h a ((RobustMutex.die u sh.mutex).own t)
    rw [(die_own u sh.mutex).2 t (Ne.symm hut)]
    exact hJ

/-- **Run lemma** for a notified waiter. -/
theorem notified_run
    (hp : ∀ p, s.pc t = some p → p.Notified k c h a (t ∈ s.shared.waiters c))
    (hrun : (cfg.machine proc).Run (Within t k) s s₁) (p : MutexPc Cv Hid)
    (hp₁ : s₁.pc t = some p) : p.Notified k c h a (t ∈ s₁.shared.waiters c) := by
  refine Machine.Run.thread_invariant (M := cfg.machine proc)
    (J := fun p sh => p.Notified k c h a (t ∈ sh.waiters c)) hp ?_ ?_ ?_ hrun p hp₁
  · intro s' q e r sh hJ hok hq hr
    refine hJ.next cfg (hok rfl q hq) (o := s'.shared.mutex.own t) ?_ ?_
    · rintro user limit rfl hn
      cases limit with
      | none =>
          have hr' : perform proc t (.sleep c []) e s'.shared = some (r, sh) := hr
          exact perform_sleep hr' hn
      | some d =>
          have hr' : perform proc t (.sleep c [.timedOut]) e s'.shared = some (r, sh) := hr
          exact perform_sleep hr' hn
    · intro op hop
      have hown := (perform_own hr).1
      rw [show (cfg.machine proc).act q = q.act from rfl, hop] at hown
      exact hown.1
  · intro s' p u q e r sh hut hJ _ _ _ hr
    rcases hJ with ⟨user, limit, rfl, hn⟩ | hJ
    · exact Or.inl ⟨user, limit, rfl, perform_waiters hr hut hn⟩
    · exact Or.inr hJ
  · intro p u sh _ hJ
    exact hJ

/-- **The notification** finds the waiter parked or woken: nobody else owns the mutex. -/
theorem MutexPc.Waiting.notified {p : MutexPc Cv Hid} {u : Tid} {e r : MutexAnswer Tid Cv Hid}
    {k' : CallStack Cv Hid} {sh : Shared Tid Pid Cv Hid} (hut : u ≠ t)
    (hp : s.pc t = some p) (hw : p.Waiting k c h a (s.shared.mutex.own t))
    (hu : s.pc u = some (.notifyAll k' c)) (hown : s.shared.mutex.OwnedBy u)
    (hok : NotifiesParked s (.act u e))
    (hr : perform proc u (.wakeAll c) e s.shared = some (r, sh)) :
    p.Notified k c h a (t ∈ sh.waiters c) := by
  have hnot : s.shared.mutex.own t ≠ .consistent := by
    intro ht
    rw [own_eq_consistent] at ht
    rcases hown with hm | hm
    · exact hut (by simpa [hm] using ht)
    · simp [hm] at ht
  obtain ⟨-, rfl⟩ := Prod.mk.inj (Option.some.inj hr).symm
  rcases hw with ⟨user, limit, rfl⟩ | ⟨user, res, rfl⟩ | ⟨user, rc, hw, hrc⟩ | ⟨-, ho⟩ | hw
  · exact Or.inl ⟨user, limit, rfl, by simp⟩
  · refine Or.inr (Or.inl ⟨user, res, rfl, ?_⟩)
    rintro ⟨hint, hto⟩
    exact hok u e k' c rfl hu hown t k h a user res hp hint hto
  · exact Or.inr (Or.inr (Or.inl ⟨user, rc, hw, fun hto => hnot (hrc hto.2)⟩))
  · exact absurd ho hnot
  · exact Or.inr (Or.inr (Or.inr hw))

/-- **`notify_all` ends a wait.**  A thread `t` in one `Condition.wait` has released the mutex
(it is `asleep` in `s`), and later in the same call, in `s₁`, the owner `u` of the mutex
executes `notify_all` while no slice is over that the mutex is not back from.  Then in the
rest of that call `t` never goes on to another `pthread_cond_timedwait`. -/
theorem notifyAll_ends_wait (cfg : MutexConfig) (proc : Tid → Pid)
    {s₃ : State Tid (MutexPc Cv Hid) (Shared Tid Pid Cv Hid)} {user limit : Option Deadline}
    (hp : s.pc t = some (.asleep k c h a user limit))
    (hwait : (cfg.machine proc).Run (Within t k) s s₁) {u : Tid} (hut : u ≠ t)
    {k' : CallStack Cv Hid} {e : MutexAnswer Tid Cv Hid} (hu : s₁.pc u = some (.notifyAll k' c))
    (hown : s₁.shared.mutex.OwnedBy u) (hok : NotifiesParked s₁ (.act u e))
    (hstep : (cfg.machine proc).step s₁ (.act u e) = some s₂)
    (hrun : (cfg.machine proc).Run (Within t k) s₂ s₃) (p : MutexPc Cv Hid)
    (hp₃ : s₃.pc t = some p) : ¬ p.InLoop k (.wait c h a) := by
  obtain ⟨q, r, sh, hq, hr, rfl⟩ := Machine.step_act hstep
  obtain rfl : MutexPc.notifyAll k' c = q := by simpa [hu] using hq
  refine (notified_run ?_ hrun p hp₃).not_inLoop
  intro p' hp'
  have hp₁ : s₁.pc t = some p' := by simpa [Ne.symm hut] using hp'
  have hwake : perform proc u (.wakeAll c) e s₁.shared = some (r, sh) := hr
  exact (waiting_run hp hwait p' hp₁).notified hut hp₁ hu hown hok hwake

end Notify

/-! ## A notification that is lost -/

/-- The call of the waiter `0`. -/
def trioWait : MutexCall Unit (Fin 3) := .wait () 0 .default

/-- `0` locks the mutex and waits. -/
def trioParked : State (Fin 3) (MutexPc Unit (Fin 3)) (Shared (Fin 3) (Fin 3) Unit (Fin 3)) :=
  (trio.run trioStart (trioSteps 0 1 ++ [trioLock 0] ++ trioSteps 0 3 ++
    [trioDo 0 (.call trioWait)] ++ trioSteps 0 6)).getD trioStart

/-- `1` locks the mutex and calls `notify_all`. -/
def trioNotify : List (Label (Fin 3) (MutexAnswer (Fin 3) Unit (Fin 3))) :=
  trioSteps 1 1 ++ [trioLock 1] ++ trioSteps 1 3 ++ [trioDo 1 (.notifyAll ())]

/-- `1` unlocks the mutex, and `0` goes on. -/
def trioGoOn (n : ℕ) : List (Label (Fin 3) (MutexAnswer (Fin 3) Unit (Fin 3))) :=
  [trioDo 1 (.release (.handle 1))] ++ trioSteps 1 2 ++ trioSteps 0 n

/-- `1` is at its `notify_all` while `0` is parked. -/
def parkedNotify : State (Fin 3) (MutexPc Unit (Fin 3)) (Shared (Fin 3) (Fin 3) Unit (Fin 3)) :=
  (trio.runIf (Within 0 []) trioParked trioNotify).getD trioParked

/-- After it. -/
def parkedNotified : State (Fin 3) (MutexPc Unit (Fin 3)) (Shared (Fin 3) (Fin 3) Unit (Fin 3)) :=
  (trio.run parkedNotify (trioSteps 1 1)).getD parkedNotify

/-- `0` is back from its wait. -/
def parkedWoken : State (Fin 3) (MutexPc Unit (Fin 3)) (Shared (Fin 3) (Fin 3) Unit (Fin 3)) :=
  (trio.runIf (Within 0 []) parkedNotified (trioGoOn 5)).getD parkedNotified

theorem notifyAll_ends_wait_parked :
    trio.Reach trioStart trioParked ∧
      parkedWoken.pc 0 = some (.python [] (some (.call trioWait, .yes))) ∧
      ¬ (MutexPc.python [] (some (.call trioWait, .yes)) : MutexPc Unit (Fin 3)).InLoop []
        trioWait := by
  have hreach : trio.Reach trioStart trioParked :=
    Machine.Run.of_isSome (fun _ _ _ => trivial) rfl
  have hwait : trio.Run (Within 0 []) trioParked parkedNotify :=
    Machine.Run.of_runIf_isSome rfl
  have hrun : trio.Run (Within 0 []) parkedNotified parkedWoken :=
    Machine.Run.of_runIf_isSome rfl
  have hok : NotifiesParked parkedNotify (.act 1 trioCalm) := by
    intro u e k' c _ _ _ t k h a user res ht
    fin_cases t <;> cases ht
  exact ⟨hreach, rfl, notifyAll_ends_wait ⟨.monotonic, .monotonic⟩ id rfl hwait (by decide) rfl
    (Or.inl rfl) hok rfl hrun _ rfl⟩

/-- The slice of `0` expires. -/
def trioExpire : Label (Fin 3) (MutexAnswer (Fin 3) Unit (Fin 3)) :=
  .act 0 { trioCalm with sleep := .timedOut }

/-- `1` is at its `notify_all` after the slice of `0` has expired. -/
def expiredNotify : State (Fin 3) (MutexPc Unit (Fin 3)) (Shared (Fin 3) (Fin 3) Unit (Fin 3)) :=
  (trio.runIf (Within 0 []) trioParked ([trioExpire] ++ trioNotify)).getD trioParked

/-- After it. -/
def expiredNotified :
    State (Fin 3) (MutexPc Unit (Fin 3)) (Shared (Fin 3) (Fin 3) Unit (Fin 3)) :=
  (trio.run expiredNotify (trioSteps 1 1)).getD expiredNotify

/-- `0` has the mutex back and goes on. -/
def expiredAgain : State (Fin 3) (MutexPc Unit (Fin 3)) (Shared (Fin 3) (Fin 3) Unit (Fin 3)) :=
  (trio.runIf (Within 0 []) expiredNotified (trioGoOn 6)).getD expiredNotified

/-- **A lost notification**: `0` has parked in its wait, `1` executes `notify_all` as the owner
of the mutex, and in the same wait `0` parks again. -/
theorem notifyAll_lost :
    trio.Reach trioStart trioParked ∧
      (∃ limit, trioParked.pc 0 = some (.asleep [] () 0 .default none limit)) ∧
      trio.Run (Within 0 []) trioParked expiredNotify ∧
      expiredNotify.pc 1 = some (.notifyAll [] ()) ∧ expiredNotify.shared.mutex.OwnedBy 1 ∧
      trio.step expiredNotify (.act 1 trioCalm) = some expiredNotified ∧
      trio.Run (Within 0 []) expiredNotified expiredAgain ∧
      ∃ limit, expiredAgain.pc 0 = some (.fn [] trioWait none limit) ∧
        (MutexPc.fn [] trioWait none limit).InLoop [] trioWait := by
  refine ⟨?_, ⟨_, rfl⟩, ?_, rfl, Or.inl rfl, rfl, ?_, ⟨_, rfl, rfl, rfl⟩⟩
  · exact Machine.Run.of_isSome (fun _ _ _ => trivial) rfl
  · exact Machine.Run.of_runIf_isSome rfl
  · exact Machine.Run.of_runIf_isSome rfl

end PosixIpc
