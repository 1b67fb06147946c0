/-
# The owner-death protocol of a mutex

What a call of `acquire` or `Condition.wait` says about the mutex when it returns, and what
happens between the death of an owner and the next `True`.

* `fits_discipline` : a call that reports success owns the mutex in the consistent state;
* `RecoveryInv` : from `EOWNERDEAD` until the end of its handling, nested calls of the
  callback included, the mutex is held inconsistent by the thread, or not recoverable;
* `CallInv` : a call of `acquire` from its entry to its return;
* `ownerDeath_protocol` : the protocol.
-/
import PosixIpc.MutexMachine

namespace PosixIpc

open RobustMutex OsWorld ThreadMachine

variable {Cv Hid : Type}

/-! ## Calls that report the mutex as held -/

/-- A code of the blocking function after which the call owns the mutex. -/
def MutexCall.Holds : MutexCall Cv Hid → Rc → Prop
  | .acquire _ _, rc => rc = .ok
  | .wait _ _ _, rc => rc = .ok ∨ rc = .etimedout ∨ rc = .ebusy

/-- An ending after which the call owns the mutex. -/
def MutexCall.EndsHolding : MutexCall Cv Hid → Ending → Prop
  | _, .yes => True
  | .wait _ _ _, .no => True
  | _, _ => False

/-- What a program point says about the thread's view of the mutex. -/
def MutexPc.Fits : MutexPc Cv Hid → Own → Prop
  | .python _ (some (.call q, out)), o => q.EndsHolding out → o = .consistent
  | .mark _ q _ (.ends out), o => q.EndsHolding out → o = .consistent
  | .gil _ q _ rc, o => q.Holds rc → o = .consistent
  | .back _ q _ rc, o => q.Holds rc → o = .consistent
  | .check _ (.wait _ _ _) _, o => o = .consistent
  | _, _ => True

section Fits

variable {k : CallStack Cv Hid} {q : MutexCall Cv Hid} {rc : Rc} {o : Own}

/-- An exception needs no mutex. -/
theorem fits_raised (e : Exc) : (MutexPc.ret k q (.raised e)).Fits o := by
  intro h
  cases q <;> exact h.elim

/-- A lock that is done holds the mutex. -/
theorem fits_lockDone (h : o = .consistent) : (MutexPc.lockDone k q).Fits o := by
  unfold MutexPc.lockDone
  split
  · exact fun _ => h
  · exact fun _ => h

/-- What follows a lock call fits its answer. -/
theorem fits_afterLock (h : q.Holds rc → o = .consistent) :
    (MutexPc.afterLock k q rc).Fits o := by
  unfold MutexPc.afterLock
  split_ifs with h1 h2 h3 h4 h5 h6
  · refine fits_lockDone (h ?_)
    cases q with
    | acquire v a => exact h1
    | wait c hd a => exact Or.inl h1
  · split <;> trivial
  · exact fits_raised _
  · -- `False`: only a wait claims to own the mutex then
    cases q with
    | acquire v a => exact fun hh => hh.elim
    | wait c hd a => exact fun _ => h (Or.inr h4)
  · exact fits_raised _
  · exact fits_raised _
  · exact fits_raised _

/-- What follows a wait fits its answer. -/
theorem fits_waitReturn (h : q.Holds rc → o = .consistent) :
    (MutexPc.waitReturn k q rc).Fits o := by
  cases q with
  | acquire v a => exact fits_afterLock h
  | wait c hd a =>
      simp only [MutexPc.waitReturn]
      split_ifs with h1 h2
      · exact fun hh => hh.elim
      · exact fun _ => h (Or.inr (Or.inl h2))
      · exact fits_afterLock h

/-- A wait that starts needs what its function needs. -/
theorem fits_startWait (cfg : MutexConfig) (reading : Option Timespec) :
    (cfg.startWait k q reading).Fits o := by
  unfold MutexConfig.startWait
  split
  · exact fits_raised _
  · split_ifs <;> trivial

/-- Only success is reported as success. -/
theorem lockRc_eq_ok {r : Result} : lockRc r = .ok ↔ r = .ok := by
  cases r <;> simp [lockRc]

/-- The codes of a lock call: only `0` counts as held. -/
theorem holds_lockRc {r : Result} (hr : r ≠ .timedOut ∧ r ≠ .busy) (h : q.Holds (lockRc r)) :
    r = .ok := by
  cases q <;> cases r <;> simp_all [MutexCall.Holds, lockRc]

/-- **The program points tell the truth**: the thread's own steps. -/
theorem fits_discipline (cfg : MutexConfig) {Tid : Type} :
    ViewDiscipline (MutexPc.act : MutexPc Cv Hid → Act Cv Hid)
      (cfg.next : MutexPc Cv Hid → MutexAnswer Tid Cv Hid → MutexPc Cv Hid) MutexPc.Fits := by
  intro p r o hp
  cases p with
  | away k => trivial
  | python k last =>
      simp only [MutexPc.act, Act.mutexOp, MutexConfig.next]
      split
      · trivial
      · rename_i a _
        cases a <;> simp only [MutexPc.dispatch]
        all_goals try split
        all_goals trivial
  | enter k q =>
      simp only [MutexPc.act, Act.mutexOp, MutexConfig.next]
      split_ifs with h1
      · exact fits_raised _
      · cases q with
        | acquire v a => trivial
        | wait c h a =>
            simp only
            split_ifs
            · trivial
            · exact fits_raised _
  | readFlag k c h a =>
      simp only [MutexPc.act, Act.mutexOp, MutexConfig.next]
      split_ifs
      · exact fits_raised _
      · trivial
  | tryLock k v a =>
      simp only [MutexPc.act, Act.mutexOp, MutexConfig.next]
      intro hans
      split_ifs with h1 h2
      · refine fits_afterLock fun hh => ?_
        rw [lockRc_eq_ok.mp hh]
        rfl
      · exact fun hh => hh.elim
      · trivial
  | waitEnter k q => exact fits_startWait cfg _
  | slice k q user =>
      simp only [MutexPc.act, Act.mutexOp, MutexConfig.next]
      split
      · rename_i rc hrc
        obtain rfl := posixipcNow_error hrc
        exact fits_waitReturn fun hh => by cases q <;> simp [MutexCall.Holds] at hh
      · trivial
  | fn k q user limit =>
      cases q with
      | acquire v a =>
          cases limit <;> simp only [MutexPc.act, Act.mutexOp, MutexConfig.next] <;>
            intro _ hh <;> rw [lockRc_eq_ok.mp hh] <;> rfl
      | wait c h a =>
          simp only [MutexPc.act, Act.mutexOp, MutexConfig.next]
          intro hans
          split_ifs with h1
          · trivial
          · intro hh
            refine absurd (holds_lockRc ?_ hh) h1
            by_cases ho : o = .none <;> simp_all [Own.Answers]
  | reacquire k c h a user res =>
      simp only [MutexPc.act, Act.mutexOp, MutexConfig.next]
      intro hans
      split_ifs with h1
      · intro _
        rw [h1]
        rfl
      · intro hh
        refine absurd (holds_lockRc ?_ hh) h1
        by_cases ho : o = .none
        · rcases (by simpa [Own.Answers, ho] using hans :
            r.lock = .ok ∨ r.lock = .ownerDead ∨ r.lock = .notRecoverable) with hr | hr | hr <;>
            simp [hr]
        · simp_all [Own.Answers]
  | back k q user rc =>
      simp only [MutexPc.act, Act.mutexOp, MutexConfig.next]
      split_ifs with h1 h2
      · exact fits_waitReturn fun hh => by cases q <;> simp [MutexCall.Holds] at hh
      · cases q with
        | acquire v a => trivial
        | wait c h a => exact hp (Or.inr (Or.inl h1.2))
      · exact fits_waitReturn hp
  | check k q user =>
      simp only [MutexPc.act, Act.mutexOp, MutexConfig.next]
      cases user with
      | none => trivial
      | some d =>
          simp only
          split_ifs
          · refine fits_waitReturn fun hh => ?_
            cases q with
            | acquire v a => exact absurd hh (by simp [MutexCall.Holds])
            | wait c h a => exact hp
          · trivial
  | mark k q h after =>
      cases after with
      | recover => trivial
      | ends out => exact hp
  | ownerDied k q =>
      simp only [MutexPc.act, Act.mutexOp, MutexConfig.next]
      split_ifs
      · trivial
      · split <;> trivial
  | newItem k q =>
      simp only [MutexPc.act, Act.mutexOp, MutexConfig.next]
      split_ifs <;> trivial
  | makeConsistent k q =>
      simp only [MutexPc.act, Act.mutexOp, MutexConfig.next]
      intro _
      split_ifs with h1
      · trivial
      · rw [lockRc_eq_ok.mp (not_not.mp h1)]
        split <;> exact fun _ => rfl
  | unlockBad k q e =>
      simp only [MutexPc.act, Act.mutexOp, MutexConfig.next]
      intro _
      unfold MutexPc.recoveryFailed
      split
      · trivial
      · exact fits_raised _
  | unmark k q h e => exact fits_raised _
  | exitFlag k v h =>
      simp only [MutexPc.act, Act.mutexOp, MutexConfig.next]
      split_ifs <;> trivial
  | unlock k v =>
      simp only [MutexPc.act, Act.mutexOp, MutexConfig.next]
      intro _
      split_ifs
      · trivial
      · trivial
      · split <;> trivial
  | asleep k c h a user limit =>
      cases limit <;> trivial
  | gil k q user rc => exact hp
  | _ => trivial

end Fits

/-! ## The stack of callbacks -/

namespace MutexPc

/-- The calls whose callback is running. -/
def stack : MutexPc Cv Hid → CallStack Cv Hid
  | .away k => k
  | .python k _ => k
  | .leave k => k
  | .enter k _ => k
  | .readFlag k _ _ _ => k
  | .tryLock k _ _ => k
  | .waitEnter k _ => k
  | .slice k _ _ => k
  | .drop k _ _ _ => k
  | .fn k _ _ _ => k
  | .asleep k _ _ _ _ _ => k
  | .reacquire k _ _ _ _ _ => k
  | .gil k _ _ _ => k
  | .back k _ _ _ => k
  | .check k _ _ => k
  | .mark k _ _ _ => k
  | .ownerDied k _ => k
  | .newItem k _ => k
  | .makeConsistent k _ => k
  | .unlockBad k _ _ => k
  | .unmark k _ _ _ => k
  | .exitFlag k _ _ => k
  | .unlock k _ => k
  | .released k _ _ => k
  | .notify k _ => k
  | .notifyAll k _ => k

/-- From `EOWNERDEAD` to the end of its handling, the callback apart. -/
def Recovering : MutexPc Cv Hid → Prop
  | .gil _ _ _ rc => rc = .eownerdead
  | .back _ _ _ rc => rc = .eownerdead
  | .mark _ _ _ .recover => True
  | .ownerDied _ _ => True
  | .newItem _ _ => True
  | .makeConsistent _ _ => True
  | .unlockBad _ _ _ => True
  | _ => False

/-- Where `posixipc_mutex_consistent` is called. -/
theorem mutexOp_consistent {p : MutexPc Cv Hid} (h : p.act.mutexOp = some .consistent) :
    ∃ k q, p = .makeConsistent k q := by
  cases p with
  | makeConsistent k q => exact ⟨k, q, rfl⟩
  | fn k q user limit => cases q <;> cases limit <;> simp [act, Act.mutexOp] at h
  | asleep k c hd a user limit => cases limit <;> simp [act, Act.mutexOp] at h
  | _ => simp [act, Act.mutexOp] at h

variable {k : CallStack Cv Hid} {q : MutexCall Cv Hid} {rc : Rc}

@[simp] theorem stack_ret (out : Ending) : (ret k q out).stack = k := rfl

@[simp] theorem stack_lockDone : (lockDone k q).stack = k := by
  unfold lockDone
  split <;> rfl

@[simp] theorem stack_afterLock : (afterLock k q rc).stack = k := by
  unfold afterLock
  split_ifs
  · exact stack_lockDone
  · split <;> rfl
  all_goals rfl

@[simp] theorem stack_waitReturn : (waitReturn k q rc).stack = k := by
  cases q with
  | acquire v a => exact stack_afterLock
  | wait c h a =>
      simp only [waitReturn]
      split_ifs
      · rfl
      · rfl
      · exact stack_afterLock

@[simp] theorem stack_recoveryFailed (e : Exc) : (recoveryFailed k q e).stack = k := by
  unfold recoveryFailed
  split <;> rfl

@[simp] theorem stack_startWait (cfg : MutexConfig) (reading : Option Timespec) :
    (cfg.startWait k q reading).stack = k := by
  unfold MutexConfig.startWait
  split
  · rfl
  · split_ifs <;> rfl

/-- A recovery starts only when the owner has died. -/
theorem recovering_afterLock (h : (afterLock k q rc).Recovering) : rc = .eownerdead := by
  by_contra hrc
  unfold afterLock at h
  rw [if_neg hrc] at h
  split_ifs at h
  · unfold lockDone at h
    split at h <;> exact h
  all_goals exact h

/-- A recovery starts only when the owner has died. -/
theorem recovering_waitReturn (h : (waitReturn k q rc).Recovering) : rc = .eownerdead := by
  cases q with
  | acquire v a => exact recovering_afterLock h
  | wait c hd a =>
      simp only [waitReturn] at h
      split_ifs at h
      · exact h.elim
      · exact h.elim
      · exact recovering_afterLock h

/-- A wait that starts is no recovery. -/
theorem not_recovering_startWait (cfg : MutexConfig) (reading : Option Timespec) :
    ¬ (cfg.startWait k q reading).Recovering := by
  unfold MutexConfig.startWait
  split
  · exact id
  · split_ifs <;> exact id

end MutexPc

/-! ## While the mutex is being recovered -/

section Recovery

variable {Tid Pid : Type}

/-- **The recovery invariant** of thread `t` at `p` with the mutex `m`.  A callback can not
get `EOWNERDEAD` again, so the stack has at most one call. -/
structure RecoveryInv (t : Tid) (m : RobustMutex.State Tid) (p : MutexPc Cv Hid) : Prop where
  depth : p.stack.length ≤ 1
  outermost : p.Recovering → p.stack = []
  spoiled : p.Recovering ∨ p.stack ≠ [] → m.SpoiledBy t

variable {t : Tid} {m m' : RobustMutex.State Tid} {p p' : MutexPc Cv Hid} {checks : Bool}

/-- A step within a call, outside the recovery. -/
theorem RecoveryInv.move (h : RecoveryInv t m p) (hstack : p'.stack = p.stack)
    (hrec : ¬ p'.Recovering) (hm : p.stack ≠ [] → m'.SpoiledBy t) : RecoveryInv t m' p' := by
  refine ⟨hstack ▸ h.depth, fun hr => absurd hr hrec, ?_⟩
  rintro (hr | hs)
  · exact absurd hr hrec
  · exact hm (hstack ▸ hs)

/-- The same with a mutex that did not change. -/
theorem RecoveryInv.stay (h : RecoveryInv t m p) (hstack : p'.stack = p.stack)
    (hrec : ¬ p'.Recovering) : RecoveryInv t m p' :=
  h.move hstack hrec fun hs => h.spoiled (Or.inr hs)

/-- A step within the recovery. -/
theorem RecoveryInv.advance (h : RecoveryInv t m p) (hrec : p.Recovering)
    (hstack : p'.stack = p.stack) : RecoveryInv t m p' :=
  ⟨hstack ▸ h.depth, fun _ => hstack.trans (h.outermost hrec),
    fun _ => h.spoiled (Or.inl hrec)⟩

/-- In a callback. -/
theorem RecoveryInv.in_callback {q : MutexCall Cv Hid} {k : CallStack Cv Hid}
    {last : Option (PyStep Cv Hid × Ending)} (h : RecoveryInv t m (.python (q :: k) last)) :
    k = [] ∧ m.SpoiledBy t := by
  have hlen : (q :: k).length ≤ 1 := h.depth
  exact ⟨List.length_eq_zero_iff.mp (by simpa using hlen),
    h.spoiled (Or.inr (List.cons_ne_nil q k))⟩

/-- The steps of other threads keep it. -/
theorem RecoveryInv.other (h : RecoveryInv t m p) (hm : m.SpoiledBy t → m'.SpoiledBy t) :
    RecoveryInv t m' p :=
  ⟨h.depth, h.outermost, fun hp => hm (h.spoiled hp)⟩

variable [DecidableEq Tid]

/-- A lock or unlock call outside the recovery: it may start one. -/
theorem RecoveryInv.call (h : RecoveryInv t m p) {op : RobustMutex.Op} {r : Result}
    (hop : op ≠ .consistent) (hm : RobustMutex.apply checks t m op = some (r, m'))
    (hstack : p'.stack = p.stack) (hrec : p'.Recovering → r = .ownerDead) :
    RecoveryInv t m' p' := by
  by_cases hp' : p'.Recovering
  · obtain rfl := hrec hp'
    obtain ⟨rfl, rfl⟩ := apply_ownerDead hm
    -- in a callback the mutex is not in the owner-dead state
    have hnil : p.stack = [] := by
      by_contra hs
      rcases h.spoiled (Or.inr hs) with hm | hm <;> exact absurd hm (by simp)
    exact ⟨hstack ▸ h.depth, fun _ => hstack.trans hnil, fun _ => Or.inl rfl⟩
  · exact h.move hstack hp' fun hs => ((h.spoiled (Or.inr hs)).apply_self hop hm).1

/-- Only a dead owner is reported as one. -/
theorem lockRc_eq_ownerDead {r : Result} (h : lockRc r = .eownerdead) : r = .ownerDead := by
  cases r <;> simp_all [lockRc]

/-- **Step lemma**, the thread's own steps. -/
theorem RecoveryInv.next (cfg : MutexConfig) {r : MutexAnswer Tid Cv Hid}
    (h : RecoveryInv t m p)
    (hm : match p.act.mutexOp with
      | none => m' = m
      | some op => RobustMutex.apply checks t m op = some (r.lock, m')) :
    RecoveryInv t m' (cfg.next p r) := by
  cases p with
  | python k last =>
      obtain rfl : m' = m := hm
      simp only [MutexConfig.next]
      split
      · exact h.stay rfl id
      · rename_i a _
        cases a with
        | callbackReturn =>
            cases k with
            | nil => exact h.stay rfl id
            | cons q k =>
                obtain ⟨rfl, hsp⟩ := h.in_callback
                exact ⟨by simp [MutexPc.dispatch, MutexPc.stack], fun _ => rfl, fun _ => hsp⟩
        | callbackRaise =>
            cases k with
            | nil => exact h.stay rfl id
            | cons q k =>
                obtain ⟨rfl, hsp⟩ := h.in_callback
                exact ⟨by simp [MutexPc.dispatch, MutexPc.stack], fun _ => rfl, fun _ => hsp⟩
        | exit v =>
            simp only [MutexPc.dispatch]
            split <;> exact h.stay rfl id
        | _ => exact h.stay rfl id
  | enter k q =>
      obtain rfl : m' = m := hm
      simp only [MutexConfig.next]
      split_ifs
      · exact h.stay rfl id
      · cases q with
        | acquire v a => exact h.stay rfl id
        | wait c hd a =>
            simp only
            split_ifs <;> exact h.stay rfl id
  | readFlag k c hd a =>
      obtain rfl : m' = m := hm
      simp only [MutexConfig.next]
      split_ifs <;> exact h.stay rfl id
  | tryLock k v a =>
      simp only [MutexConfig.next]
      split_ifs
      · exact h.call (by simp) hm MutexPc.stack_afterLock fun hr =>
          lockRc_eq_ownerDead (MutexPc.recovering_afterLock hr)
      · exact h.call (by simp) hm rfl fun hr => hr.elim
      · exact h.call (by simp) hm rfl fun hr => hr.elim
  | waitEnter k q =>
      obtain rfl : m' = m := hm
      exact h.stay (MutexPc.stack_startWait cfg _) (MutexPc.not_recovering_startWait cfg _)
  | slice k q user =>
      obtain rfl : m' = m := hm
      simp only [MutexConfig.next]
      split
      · rename_i rc hrc
        obtain rfl := posixipcNow_error hrc
        exact h.stay MutexPc.stack_waitReturn fun hr =>
          absurd (MutexPc.recovering_waitReturn hr) (by simp)
      · exact h.stay rfl id
  | fn k q user limit =>
      cases q with
      | acquire v a =>
          cases limit <;> exact h.call (by simp) hm rfl lockRc_eq_ownerDead
      | wait c hd a =>
          simp only [MutexConfig.next]
          split_ifs
          · exact h.call (by simp) hm rfl fun hr => hr.elim
          · exact h.call (by simp) hm rfl lockRc_eq_ownerDead
  | asleep k c hd a user limit =>
      cases limit <;> obtain rfl : m' = m := hm <;> exact h.stay rfl id
  | reacquire k c hd a user res =>
      simp only [MutexConfig.next]
      split_ifs
      · refine h.call (by simp) hm rfl fun hr => ?_
        cases res <;> simp [MutexPc.Recovering, sleepRc] at hr
      · exact h.call (by simp) hm rfl lockRc_eq_ownerDead
  | gil k q user rc =>
      obtain rfl : m' = m := hm
      by_cases hrc : rc = .eownerdead
      · exact h.advance hrc rfl
      · exact h.stay rfl hrc
  | back k q user rc =>
      obtain rfl : m' = m := hm
      simp only [MutexConfig.next]
      split_ifs with h1 h2
      · exact h.stay MutexPc.stack_waitReturn fun hr =>
          absurd (MutexPc.recovering_waitReturn hr) (by simp)
      · exact h.stay rfl id
      · by_cases hrc : rc = .eownerdead
        · exact h.advance hrc MutexPc.stack_waitReturn
        · exact h.stay MutexPc.stack_waitReturn fun hr =>
            hrc (MutexPc.recovering_waitReturn hr)
  | check k q user =>
      obtain rfl : m' = m := hm
      simp only [MutexConfig.next]
      cases user with
      | none => exact h.stay rfl id
      | some d =>
          simp only
          split_ifs
          · exact h.stay MutexPc.stack_waitReturn fun hr =>
              absurd (MutexPc.recovering_waitReturn hr) (by simp)
          · exact h.stay rfl id
  | mark k q hd after =>
      obtain rfl : m' = m := hm
      cases after with
      | recover => exact h.advance trivial rfl
      | ends out => exact h.stay rfl id
  | ownerDied k q =>
      obtain rfl : m' = m := hm
      have hk : k = [] := h.outermost trivial
      simp only [MutexConfig.next]
      split_ifs
      · exact h.advance trivial rfl
      · have hcb : RecoveryInv t m' (.python (q :: k) none) :=
          ⟨by simp [MutexPc.stack, hk], fun hr => hr.elim, fun _ => h.spoiled (Or.inl trivial)⟩
        split
        · exact h.advance trivial rfl
        · exact hcb
  | newItem k q =>
      obtain rfl : m' = m := hm
      have hk : k = [] := h.outermost trivial
      simp only [MutexConfig.next]
      split_ifs
      · exact h.advance trivial rfl
      · exact ⟨by simp [MutexPc.stack, hk], fun hr => hr.elim,
          fun _ => h.spoiled (Or.inl trivial)⟩
  | makeConsistent k q =>
      have hk : k = [] := h.outermost trivial
      simp only [MutexConfig.next]
      split_ifs with h1
      · -- `consistent` is refused only when the callback has spoiled the mutex for good
        have hm' : m'.SpoiledBy t := by
          rcases h.spoiled (Or.inl trivial) with rfl | rfl
          · have : r.lock = .ok := by
              simp only [RobustMutex.apply, consistent, MutexPc.act, Act.mutexOp, if_true,
                Option.some.injEq, Prod.mk.injEq] at hm
              exact hm.1.symm
            exact absurd (lockRc_eq_ok.mpr this) h1
          · exact Or.inr (apply_of_notRecoverable hm).1
        exact ⟨by simp [MutexPc.stack, hk], fun _ => hk, fun _ => hm'⟩
      · split <;> exact h.move rfl id fun hs => absurd hk hs
  | unlockBad k q e =>
      have hk : k = [] := h.outermost trivial
      refine h.move (MutexPc.stack_recoveryFailed e) ?_ fun hs => absurd hk hs
      show ¬ (MutexPc.recoveryFailed k q e).Recovering
      unfold MutexPc.recoveryFailed
      split <;> exact id
  | exitFlag k v hd =>
      obtain rfl : m' = m := hm
      simp only [MutexConfig.next]
      split_ifs <;> exact h.stay rfl id
  | unlock k v =>
      simp only [MutexConfig.next]
      split_ifs
      · exact h.call (by simp) hm rfl fun hr => hr.elim
      · exact h.call (by simp) hm rfl fun hr => hr.elim
      · split <;> exact h.call (by simp) hm rfl fun hr => hr.elim
  | _ =>
      obtain rfl : m' = m := hm
      exact h.stay rfl id

/-! ## The invariant of the machine -/

/-- What holds in every reachable state. -/
structure ProtocolInv (s : State Tid (MutexPc Cv Hid) (Shared Tid Pid Cv Hid)) : Prop where
  view : ViewInv MutexPc.Fits s
  recovery : ∀ t p, s.pc t = some p → RecoveryInv t s.shared.mutex p

variable [DecidableEq Pid] [DecidableEq Cv] [DecidableEq Hid] {cfg : MutexConfig} {proc : Tid → Pid}
  {s s' : State Tid (MutexPc Cv Hid) (Shared Tid Pid Cv Hid)} {sh : Shared Tid Pid Cv Hid}
  {e r : MutexAnswer Tid Cv Hid}

/-- A mutex spoiled by `u` after an action of another thread. -/
theorem spoiledBy_perform {u : Tid} (hut : u ≠ t)
    (hr : perform proc t p.act e s.shared = some (r, sh)) (hm : s.shared.mutex.SpoiledBy u) :
    sh.mutex.SpoiledBy u := by
  have hmut := perform_mutex hr
  cases hop : p.act.mutexOp with
  | none =>
      rw [hop] at hmut
      rw [show sh.mutex = s.shared.mutex from hmut]
      exact hm
  | some op =>
      rw [hop] at hmut
      exact hm.apply_other (Ne.symm hut) hmut

/-- **Step lemma.** -/
theorem ProtocolInv.step (h : ProtocolInv s) (hp : s.pc t = some p)
    (hr : perform proc t p.act e s.shared = some (r, sh)) :
    ProtocolInv ⟨Function.update s.pc t (some (cfg.next p r)), sh⟩ := by
  refine ⟨h.view.step (fits_discipline cfg) hp hr, ?_⟩
  intro u q hq
  by_cases hut : u = t
  · subst hut
    obtain rfl : cfg.next p r = q := by simpa using hq
    exact (h.recovery u p hp).next cfg (perform_mutex hr)
  · exact (h.recovery u q (by simpa [hut] using hq)).other (spoiledBy_perform hut hr)

omit [DecidableEq Cv] [DecidableEq Hid] in
/-- A death leaves the other threads where they are. -/
theorem ProtocolInv.die (h : ProtocolInv s) :
    ProtocolInv ⟨Function.update s.pc t none, OsWorld.die proc t s.shared⟩ := by
  refine ⟨h.view.die, ?_⟩
  intro u q hq
  by_cases hut : u = t
  · subst hut
    simp at hq
  · exact (h.recovery u q (by simpa [hut] using hq)).other
      fun hm => hm.die_other (Ne.symm hut)

/-- The invariant holds in every reachable state, and along every run from there. -/
theorem protocolInv_run {Ok : State Tid (MutexPc Cv Hid) (Shared Tid Pid Cv Hid) →
      Label Tid (MutexAnswer Tid Cv Hid) → Prop} (h : ProtocolInv s)
    (hrun : (cfg.machine proc).Run Ok s s') : ProtocolInv s' :=
  Machine.Run.invariant h (fun _ _ _ _ _ _ hI _ hp hr => hI.step hp hr)
    (fun _ _ _ hI _ _ => hI.die) hrun

omit [DecidableEq Pid] [DecidableEq Cv] [DecidableEq Hid] in
/-- At the start nobody is in a call. -/
theorem protocolInv_start : ProtocolInv (mutexStart Tid Pid Cv Hid) := by
  refine ⟨?_, ?_⟩
  · intro t p hp
    obtain rfl : MutexPc.away [] = p := by simpa [mutexStart] using hp
    trivial
  · intro t p hp
    obtain rfl : MutexPc.away [] = p := by simpa [mutexStart] using hp
    exact ⟨Nat.zero_le 1, fun hr => hr.elim, fun hr => (hr.elim id fun hs => hs rfl).elim⟩

end Recovery

/-! ## One call of `acquire` -/

namespace MutexPc

/-- **The stack**: a callback pushes its call and pops it when it ends. -/
theorem stack_next (cfg : MutexConfig) {Tid : Type} (p : MutexPc Cv Hid)
    (r : MutexAnswer Tid Cv Hid) :
    p.stack <:+ (cfg.next p r).stack ∨
      ∃ q k last, p = .python (q :: k) last ∧
        (cfg.next p r = .makeConsistent k q ∨ cfg.next p r = .unlockBad k q .callback) := by
  cases p with
  | python k last =>
      simp only [MutexConfig.next]
      split
      · exact Or.inl (List.suffix_refl k)
      · rename_i a _
        cases a with
        | callbackReturn =>
            cases k with
            | nil => exact Or.inl (List.suffix_refl [])
            | cons q k => exact Or.inr ⟨q, k, last, rfl, Or.inl rfl⟩
        | callbackRaise =>
            cases k with
            | nil => exact Or.inl (List.suffix_refl [])
            | cons q k => exact Or.inr ⟨q, k, last, rfl, Or.inr rfl⟩
        | exit v =>
            simp only [dispatch]
            split <;> exact Or.inl (List.suffix_refl k)
        | _ => exact Or.inl (List.suffix_refl k)
  | ownerDied k q =>
      left
      simp only [MutexConfig.next]
      split_ifs
      · exact List.suffix_refl k
      · split
        · exact List.suffix_refl k
        · exact List.suffix_cons q k
  | newItem k q =>
      left
      simp only [MutexConfig.next]
      split_ifs
      · exact List.suffix_refl k
      · exact List.suffix_cons q k
  | fn k q user limit =>
      left
      cases q with
      | acquire v a => exact List.suffix_refl k
      | wait c h a =>
          simp only [MutexConfig.next]
          split_ifs <;> exact List.suffix_refl k
  | mark k q h after => cases after <;> exact Or.inl (List.suffix_refl k)
  | _ =>
      left
      simp only [MutexConfig.next]
      repeat' split
      all_goals first
        | exact List.suffix_refl _
        | simp only [stack_afterLock, stack_waitReturn, stack_recoveryFailed, stack_startWait]
          exact List.suffix_refl _

/-- A running callback goes on, or its end brings the call back to its own program points. -/
theorem callback_next (cfg : MutexConfig) {Tid : Type} {p : MutexPc Cv Hid}
    (r : MutexAnswer Tid Cv Hid) {k : CallStack Cv Hid} {q : MutexCall Cv Hid}
    (h : q :: k <:+ p.stack) :
    q :: k <:+ (cfg.next p r).stack ∨ cfg.next p r = .makeConsistent k q ∨
      cfg.next p r = .unlockBad k q .callback := by
  rcases stack_next cfg p r with hs | ⟨q', k', last, rfl, hnext⟩
  · exact Or.inl (h.trans hs)
  · rcases List.suffix_cons_iff.mp h with heq | hsuf
    · obtain ⟨rfl, rfl⟩ : q = q' ∧ k = k' := by simpa using heq
      exact Or.inr hnext
    · left
      rcases hnext with hn | hn <;> rw [hn] <;> exact hsuf

end MutexPc

/-- The view of a caller that had `o₀` when it called, at an ending. -/
def EndView (o₀ o : Own) (out : Ending) : Prop := if out = .yes then o = .consistent else o = o₀

/-- The same at a code of the blocking function. -/
def RcView (o₀ o : Own) (rc : Rc) : Prop :=
  if rc = .ok then o = .consistent else if rc = .eownerdead then o₀ = .none else o = o₀

/-- **The call invariant**: where a call `q`, made at stack `k` with view `o₀`, can be, and
with which view `o`. -/
def MutexPc.CallInv (k : CallStack Cv Hid) (q : MutexCall Cv Hid) (o₀ o : Own) :
    MutexPc Cv Hid → Prop
  | .enter k' q' => k' = k ∧ q' = q ∧ o = o₀
  | .tryLock k' v a => k' = k ∧ .acquire v a = q ∧ o = o₀
  | .waitEnter k' q' => k' = k ∧ q' = q ∧ o = o₀
  | .slice k' q' _ => k' = k ∧ q' = q ∧ o = o₀
  | .drop k' q' _ _ => k' = k ∧ q' = q ∧ o = o₀
  | .fn k' q' _ _ => k' = k ∧ q' = q ∧ o = o₀
  | .check k' q' _ => k' = k ∧ q' = q ∧ o = o₀
  | .gil k' q' _ rc => k' = k ∧ q' = q ∧ RcView o₀ o rc
  | .back k' q' _ rc => k' = k ∧ q' = q ∧ RcView o₀ o rc
  | .mark k' q' _ .recover => k' = k ∧ q' = q ∧ o₀ = .none
  | .mark k' q' _ (.ends out) => k' = k ∧ q' = q ∧ EndView o₀ o out
  | .ownerDied k' q' => k' = k ∧ q' = q ∧ o₀ = .none
  | .newItem k' q' => k' = k ∧ q' = q ∧ o₀ = .none
  | .makeConsistent k' q' => k' = k ∧ q' = q ∧ o₀ = .none
  | .unlockBad k' q' _ => k' = k ∧ q' = q ∧ o₀ = .none
  | .unmark k' q' _ _ => k' = k ∧ q' = q ∧ o = o₀
  | .python k' (some (.call q', out)) => k' = k ∧ q' = q ∧ EndView o₀ o out
  | _ => False

/-- A call made at stack `k` has returned. -/
def MutexPc.BackAt (k : CallStack Cv Hid) : MutexPc Cv Hid → Prop
  | .python k' _ => k' = k
  | _ => False

instance [DecidableEq Cv] [DecidableEq Hid] (k : CallStack Cv Hid) (p : MutexPc Cv Hid) :
    Decidable (p.BackAt k) :=
  match p with
  | .python k' _ => inferInstanceAs (Decidable (k' = k))
  | .away _ | .leave _ | .enter _ _ | .readFlag _ _ _ _ | .tryLock _ _ _ | .waitEnter _ _
  | .slice _ _ _ | .drop _ _ _ _ | .fn _ _ _ _ | .asleep _ _ _ _ _ _ | .reacquire _ _ _ _ _ _
  | .gil _ _ _ _ | .back _ _ _ _ | .check _ _ _ | .mark _ _ _ _ | .ownerDied _ _ | .newItem _ _
  | .makeConsistent _ _ | .unlockBad _ _ _ | .unmark _ _ _ _ | .exitFlag _ _ _ | .unlock _ _
  | .released _ _ _ | .notify _ _ | .notifyAll _ _ => isFalse id

/-- The call is at one of its own program points, or its callback is running. -/
def MutexPc.InCall (k : CallStack Cv Hid) (q : MutexCall Cv Hid) (o₀ o : Own)
    (p : MutexPc Cv Hid) : Prop :=
  p.CallInv k q o₀ o ∨ (q :: k <:+ p.stack ∧ o₀ = .none)

section Call

variable {k : CallStack Cv Hid} {v : Via Hid} {a : AcquireOpts} {o₀ o : Own} {rc : Rc}

/-- A lock that is done. -/
theorem callInv_lockDone {q : MutexCall Cv Hid} (h : o = .consistent) :
    (MutexPc.lockDone k q).CallInv k q o₀ o := by
  have hend : EndView o₀ o .yes := by simp [EndView, h]
  unfold MutexPc.lockDone
  split
  · exact ⟨rfl, rfl, hend⟩
  · exact ⟨rfl, rfl, hend⟩

/-- What follows a lock call. -/
theorem callInv_afterLock {q : MutexCall Cv Hid} (h : RcView o₀ o rc) :
    (MutexPc.afterLock k q rc).CallInv k q o₀ o := by
  unfold MutexPc.afterLock
  unfold RcView at h
  split_ifs at h with h1 h2
  · rw [if_pos h1]
    exact callInv_lockDone h
  · rw [if_neg h1, if_pos h2]
    split <;> exact ⟨rfl, rfl, h⟩
  · rw [if_neg h1, if_neg h2]
    have hend : ∀ out, out ≠ .yes → EndView o₀ o out := by
      intro out hout
      simp [EndView, hout, h]
    split_ifs <;> exact ⟨rfl, rfl, hend _ (by simp)⟩

/-- The codes of a lock call and the views. -/
theorem rcView_lock {op : RobustMutex.Op} {r : Result} (hop : op ≠ .unlock ∧ op ≠ .consistent)
    (hans : o.Answers op r) : RcView o (o.after op r) (lockRc r) := by
  unfold RcView
  by_cases ho : o = .none
  · subst ho
    cases op <;> cases r <;> simp_all [Own.Answers, Own.after, lockRc]
  · cases op <;> cases r <;> simp_all [Own.Answers, Own.after, lockRc]

/-- **Step lemma**, the caller's own steps until it returns. -/
theorem MutexPc.InCall.next (cfg : MutexConfig) {Tid : Type} {p : MutexPc Cv Hid}
    {r : MutexAnswer Tid Cv Hid} {o' : Own} (h : p.InCall k (.acquire v a) o₀ o)
    (hnot : ¬ p.BackAt k)
    (ho : match p.act.mutexOp with
      | none => o' = o
      | some op => o.Answers op r.lock ∧ o' = o.after op r.lock) :
    (cfg.next p r).InCall k (.acquire v a) o₀ o' := by
  rcases h with h | ⟨hsuf, hnone⟩
  · cases p with
    | enter k' q' =>
        obtain rfl : o' = o := ho
        obtain ⟨rfl, rfl, rfl⟩ := h
        left
        simp only [MutexConfig.next]
        split_ifs
        · exact ⟨rfl, rfl, by simp [EndView]⟩
        · exact ⟨rfl, rfl, rfl⟩
    | tryLock k' v' a' =>
        obtain ⟨hans, rfl⟩ := ho
        obtain ⟨rfl, hq, rfl⟩ := h
        obtain ⟨rfl, rfl⟩ : v' = v ∧ a' = a := by simpa using hq
        left
        simp only [MutexConfig.next]
        have hview := rcView_lock (by simp) hans
        split_ifs with h1 h2
        · exact callInv_afterLock hview
        · refine ⟨rfl, rfl, ?_⟩
          have hbusy : r.lock = .busy := by
            cases hr : r.lock <;> simp_all [lockRc]
          simp [EndView, hbusy, Own.after]
        · have hbusy : r.lock = .busy := by
            cases hr : r.lock <;> simp_all [lockRc]
          exact ⟨rfl, rfl, by simp [hbusy, Own.after]⟩
    | waitEnter k' q' =>
        obtain rfl : o' = o := ho
        obtain ⟨rfl, rfl, rfl⟩ := h
        left
        simp only [MutexConfig.next, MutexConfig.startWait]
        split
        · exact ⟨rfl, rfl, by simp [EndView]⟩
        · split_ifs <;> exact ⟨rfl, rfl, rfl⟩
    | slice k' q' user =>
        obtain rfl : o' = o := ho
        obtain ⟨rfl, rfl, rfl⟩ := h
        left
        simp only [MutexConfig.next]
        split
        · rename_i rc hrc
          obtain rfl := posixipcNow_error hrc
          exact callInv_afterLock (by simp [RcView])
        · exact ⟨rfl, rfl, rfl⟩
    | drop k' q' user limit =>
        obtain rfl : o' = o := ho
        obtain ⟨rfl, rfl, rfl⟩ := h
        exact Or.inl ⟨rfl, rfl, rfl⟩
    | fn k' q' user limit =>
        obtain ⟨rfl, rfl, rfl⟩ := h
        left
        cases limit with
        | none =>
            obtain ⟨hans, rfl⟩ := ho
            exact ⟨rfl, rfl, rcView_lock (by simp) hans⟩
        | some d =>
            obtain ⟨hans, rfl⟩ := ho
            exact ⟨rfl, rfl, rcView_lock (by simp) hans⟩
    | gil k' q' user rc =>
        obtain rfl : o' = o := ho
        exact Or.inl h
    | back k' q' user rc =>
        obtain rfl : o' = o := ho
        obtain ⟨rfl, rfl, hview⟩ := h
        left
        simp only [MutexConfig.next]
        split_ifs with h1 h2
        · refine callInv_afterLock ?_
          simpa [RcView, h1.2] using hview
        · exact ⟨rfl, rfl, by simpa [RcView, h1.2] using hview⟩
        · exact callInv_afterLock hview
    | check k' q' user =>
        obtain rfl : o' = o := ho
        obtain ⟨rfl, rfl, rfl⟩ := h
        left
        simp only [MutexConfig.next]
        cases user with
        | none => exact ⟨rfl, rfl, rfl⟩
        | some d =>
            simp only
            split_ifs
            · exact callInv_afterLock (by simp [RcView])
            · exact ⟨rfl, rfl, rfl⟩
    | mark k' q' hd after =>
        obtain rfl : o' = o := ho
        cases after <;> exact Or.inl h
    | ownerDied k' q' =>
        obtain rfl : o' = o := ho
        obtain ⟨rfl, rfl, rfl⟩ := h
        simp only [MutexConfig.next]
        split_ifs
        · exact Or.inl ⟨rfl, rfl, rfl⟩
        · split
          · exact Or.inl ⟨rfl, rfl, rfl⟩
          · exact Or.inr ⟨List.suffix_refl _, rfl⟩
    | newItem k' q' =>
        obtain rfl : o' = o := ho
        obtain ⟨rfl, rfl, rfl⟩ := h
        simp only [MutexConfig.next]
        split_ifs
        · exact Or.inl ⟨rfl, rfl, rfl⟩
        · exact Or.inr ⟨List.suffix_refl _, rfl⟩
    | makeConsistent k' q' =>
        obtain ⟨hans, rfl⟩ := ho
        obtain ⟨rfl, rfl, rfl⟩ := h
        left
        simp only [MutexConfig.next]
        split_ifs with h1
        · exact ⟨rfl, rfl, rfl⟩
        · have hok : r.lock = .ok := lockRc_eq_ok.mp (not_not.mp h1)
          have hend : EndView .none (o.after .consistent r.lock) .yes := by
            simp [EndView, hok, Own.after]
          split <;> exact ⟨rfl, rfl, hend⟩
    | unlockBad k' q' e =>
        obtain ⟨hans, rfl⟩ := ho
        obtain ⟨rfl, rfl, rfl⟩ := h
        left
        -- whatever the callback did with the mutex, it is not owned after this unlock
        have hafter : o.after .unlock r.lock = .none := by
          by_cases hn : o = .none
          · simp_all [Own.Answers, Own.after]
          · simp_all [Own.Answers, Own.after]
        simp only [MutexConfig.next, MutexPc.recoveryFailed]
        rw [hafter]
        split <;> exact ⟨rfl, rfl, by simp [EndView]⟩
    | unmark k' q' hd e =>
        obtain rfl : o' = o := ho
        obtain ⟨rfl, rfl, rfl⟩ := h
        exact Or.inl ⟨rfl, rfl, by simp [EndView]⟩
    | python k' last =>
        -- the call has returned
        rcases last with _ | ⟨step, out⟩
        · exact h.elim
        · cases step with
          | call q' => exact absurd h.1 hnot
          | _ => exact h.elim
    | _ => exact h.elim
  · rcases MutexPc.callback_next cfg r hsuf with hs | hn | hn
    · exact Or.inr ⟨hs, hnone⟩
    · rw [hn]
      exact Or.inl ⟨rfl, rfl, hnone⟩
    · rw [hn]
      exact Or.inl ⟨rfl, rfl, hnone⟩

end Call

/-! ## The protocol -/

section Protocol

variable {Tid Pid : Type} [DecidableEq Tid] [DecidableEq Pid] [DecidableEq Cv] [DecidableEq Hid]

/-- `t` is back from the call `q`, which ended with `out`. -/
def Returned (s : State Tid (MutexPc Cv Hid) (Shared Tid Pid Cv Hid)) (t : Tid)
    (q : MutexCall Cv Hid) (out : Ending) : Prop :=
  ∃ k, s.pc t = some (.python k (some (.call q, out)))

/-- `t` makes no step of its own once a call it made at stack `k` has returned. -/
def Within (t : Tid) (k : CallStack Cv Hid)
    (s : State Tid (MutexPc Cv Hid) (Shared Tid Pid Cv Hid)) :
    Label Tid (MutexAnswer Tid Cv Hid) → Prop
  | .act u _ => u = t → ∀ p ∈ s.pc t, ¬ p.BackAt k
  | .die _ => True

instance (t : Tid) (k : CallStack Cv Hid)
    (s : State Tid (MutexPc Cv Hid) (Shared Tid Pid Cv Hid))
    (l : Label Tid (MutexAnswer Tid Cv Hid)) : Decidable (Within t k s l) :=
  match l with
  | .act u _ => inferInstanceAs (Decidable (u = t → ∀ p ∈ s.pc t, ¬ p.BackAt k))
  | .die _ => isTrue trivial

/-- An `on_owner_died` returns normally in a thread that owns the mutex. -/
def CallbackReturns (s : State Tid (MutexPc Cv Hid) (Shared Tid Pid Cv Hid))
    (l : Label Tid (MutexAnswer Tid Cv Hid)) : Prop :=
  ∃ t e q k last, l = .act t e ∧ s.pc t = some (.python (q :: k) last) ∧
    e.req = some .callbackReturn ∧ s.shared.mutex.OwnedBy t

/-- The `on_owner_died` that `t` runs raises. -/
def CallbackRaises (t : Tid) (s : State Tid (MutexPc Cv Hid) (Shared Tid Pid Cv Hid))
    (l : Label Tid (MutexAnswer Tid Cv Hid)) : Prop :=
  ∃ e q k last, l = .act t e ∧ s.pc t = some (.python (q :: k) last) ∧
    e.req = some .callbackRaise

/-- `t` dies between the exception of its callback and its unlock. -/
def DiesRaising (t : Tid) (s : State Tid (MutexPc Cv Hid) (Shared Tid Pid Cv Hid))
    (l : Label Tid (MutexAnswer Tid Cv Hid)) : Prop :=
  l = .die t ∧ ∃ k q, s.pc t = some (.unlockBad k q .callback)

variable {cfg : MutexConfig} {proc : Tid → Pid}
  {s s₁ s₂ : State Tid (MutexPc Cv Hid) (Shared Tid Pid Cv Hid)} {t : Tid}

omit [DecidableEq Pid] [DecidableEq Cv] [DecidableEq Hid] in
/-- A thread back from a call that says so owns the mutex. -/
theorem ProtocolInv.locked_of_returned (h : ProtocolInv s) {q : MutexCall Cv Hid} {out : Ending}
    (hret : Returned s t q out) (hout : q.EndsHolding out) : s.shared.mutex = .locked t := by
  obtain ⟨k, hk⟩ := hret
  exact own_eq_consistent.mp (h.view t _ hk hout)

omit [DecidableEq Pid] [DecidableEq Cv] [DecidableEq Hid] in
/-- While the mutex is spoiled nobody is back with `True`. -/
theorem ProtocolInv.not_returned (h : ProtocolInv s) (hsp : s.shared.mutex.Spoiled) (u : Tid)
    (q : MutexCall Cv Hid) : ¬ Returned s u q .yes := by
  intro hret
  have hlocked := h.locked_of_returned hret (by cases q <;> trivial)
  exact hsp.own_ne u (own_eq_consistent.mpr hlocked)

/-- **One call of `acquire`**, from its entry to its return. -/
theorem inCall_run {k : CallStack Cv Hid} {v : Via Hid} {a : AcquireOpts}
    (hp : s.pc t = some (.enter k (.acquire v a)))
    (hrun : (cfg.machine proc).Run (Within t k) s s₁) (p : MutexPc Cv Hid)
    (hp₁ : s₁.pc t = some p) :
    p.InCall k (.acquire v a) (s.shared.mutex.own t) (s₁.shared.mutex.own t) := by
  refine Machine.Run.thread_invariant (M := cfg.machine proc)
    (J := fun p sh => p.InCall k (.acquire v a) (s.shared.mutex.own t) (sh.mutex.own t))
    ?_ ?_ ?_ ?_ hrun p hp₁
  · intro p hp'
    obtain rfl : MutexPc.enter k (.acquire v a) = p := by simpa [hp] using hp'
    exact Or.inl ⟨rfl, rfl, rfl⟩
  · intro s' q e r sh hJ hok hq hr
    exact hJ.next cfg (hok rfl q hq) (perform_own hr).1
  · intro s' p u q e r sh hut hJ _ _ _ hr
    show p.InCall k _ _ (sh.mutex.own t)
    rw [(perform_own hr).2 t (Ne.symm hut)]
    exact hJ
  · intro p u sh hut hJ
    show p.InCall k _ _ ((RobustMutex.die u sh.mutex).own t)
    rw [(die_own u sh.mutex).2 t (Ne.symm hut)]
    exact hJ

omit [DecidableEq Tid] [DecidableEq Cv] [DecidableEq Hid] in
/-- Only a callback that returns leads to `posixipc_mutex_consistent`. -/
theorem next_eq_makeConsistent {p : MutexPc Cv Hid} {r : MutexAnswer Tid Cv Hid}
    {k : CallStack Cv Hid} {q : MutexCall Cv Hid} (h : cfg.next p r = .makeConsistent k q) :
    ∃ last, p = .python (q :: k) last ∧ r.req = some .callbackReturn := by
  -- the other program points that lead into the recovery
  have hafter : ∀ k' q' rc, MutexPc.afterLock k' q' rc ≠ .makeConsistent k q := by
    intro k' q' rc heq
    unfold MutexPc.afterLock MutexPc.lockDone MutexPc.ret at heq
    repeat' split at heq
    all_goals cases heq
  have hwait : ∀ k' q' rc, MutexPc.waitReturn k' q' rc ≠ .makeConsistent k q := by
    intro k' q' rc
    cases q' with
    | acquire v a => exact hafter _ _ _
    | wait c hd a =>
        simp only [MutexPc.waitReturn]
        split_ifs
        · simp
        · simp
        · exact hafter _ _ _
  cases p with
  | python k' last =>
      simp only [MutexConfig.next] at h
      split at h
      · cases h
      · rename_i b hb
        cases b with
        | callbackReturn =>
            cases k' with
            | nil => cases h
            | cons q' k' =>
                obtain ⟨rfl, rfl⟩ : k' = k ∧ q' = q := by simpa [MutexPc.dispatch] using h
                exact ⟨last, rfl, hb⟩
        | callbackRaise => cases k' <;> cases h
        | exit v =>
            simp only [MutexPc.dispatch] at h
            split at h <;> cases h
        | _ => cases h
  | tryLock k' v a =>
      simp only [MutexConfig.next, MutexPc.ret] at h
      split_ifs at h
      exact absurd h (hafter _ _ _)
  | slice k' q' user =>
      simp only [MutexConfig.next] at h
      split at h
      · exact absurd h (hwait _ _ _)
      · cases h
  | back k' q' user rc =>
      simp only [MutexConfig.next] at h
      split_ifs at h
      · exact absurd h (hwait _ _ _)
      · exact absurd h (hwait _ _ _)
  | check k' q' user =>
      simp only [MutexConfig.next] at h
      split at h
      · cases h
      · split_ifs at h
        exact absurd h (hwait _ _ _)
  | fn k' q' user limit =>
      cases q' with
      | acquire v a => cases h
      | wait c hd a =>
          simp only [MutexConfig.next] at h
          split_ifs at h
  | mark k' q' hd after => cases after <;> cases h
  | _ =>
      simp only [MutexConfig.next, MutexConfig.startWait, MutexPc.recoveryFailed,
        MutexPc.ret] at h
      repeat' split at h
      all_goals cases h

/-- The mutex is spoiled and nobody is about to declare it consistent. -/
structure Unrecovered (s : State Tid (MutexPc Cv Hid) (Shared Tid Pid Cv Hid)) : Prop where
  inv : ProtocolInv s
  spoiled : s.shared.mutex.Spoiled
  lost : ∀ t k q, s.pc t = some (.makeConsistent k q) → s.shared.mutex = .notRecoverable

/-- **Until a callback has returned**, a mutex whose owner has died stays spoiled. -/
theorem unrecovered_run (h : Unrecovered s)
    (hrun : (cfg.machine proc).Run (fun s l => ¬ CallbackReturns s l) s s₁) :
    Unrecovered s₁ := by
  refine Machine.Run.invariant h ?_ ?_ hrun
  · intro s u p e r sh hI hok hp hr
    have hmut := perform_mutex hr
    have hspoil : sh.mutex.Spoiled := by
      cases hop : p.act.mutexOp with
      | none =>
          rw [show (cfg.machine proc).act p = p.act from rfl, hop] at hmut
          rw [show sh.mutex = s.shared.mutex from hmut]
          exact hI.spoiled
      | some op =>
          rw [show (cfg.machine proc).act p = p.act from rfl, hop] at hmut
          rcases hI.spoiled.apply hmut with hsp | ⟨rfl, hm⟩
          · exact hsp
          · obtain ⟨k, q, rfl⟩ := MutexPc.mutexOp_consistent hop
            exact absurd (hI.lost u k q hp) (by simp [hm])
    refine ⟨hI.inv.step hp hr, hspoil, ?_⟩
    intro w k q hw
    have hkeep : s.shared.mutex = .notRecoverable → sh.mutex = .notRecoverable := by
      intro hm
      cases hop : p.act.mutexOp with
      | none =>
          rw [show (cfg.machine proc).act p = p.act from rfl, hop] at hmut
          exact (show sh.mutex = s.shared.mutex from hmut).trans hm
      | some op =>
          rw [show (cfg.machine proc).act p = p.act from rfl, hop, hm] at hmut
          exact (apply_of_notRecoverable hmut).1
    by_cases hwu : w = u
    · subst hwu
      have hnext : (cfg.machine proc).next p r = .makeConsistent k q := by simpa using hw
      obtain ⟨last, rfl, hreq⟩ := next_eq_makeConsistent hnext
      -- this step is the return of a callback, so its thread does not own the mutex
      obtain ⟨rfl, rfl⟩ := Prod.mk.inj (Option.some.inj hr).symm
      rcases (hI.inv.recovery w _ hp).in_callback.2 with hm | hm
      · exact absurd ⟨w, r, q, k, last, rfl, hp, hreq, Or.inr hm⟩ hok
      · exact hm
    · exact hkeep (hI.lost w k q (by simpa [hwu] using hw))
  · intro s u p hI _ hp
    refine ⟨hI.inv.die, hI.spoiled.die u, ?_⟩
    intro w k q hw
    by_cases hwu : w = u
    · subst hwu
      simp at hw
    · have hm := hI.lost w k q (by simpa [hwu] using hw)
      show RobustMutex.die u s.shared.mutex = .notRecoverable
      rw [hm]
      rfl

/-- **After a callback of `t` has raised** the mutex stays spoiled, unless `t` dies before
its unlock. -/
theorem raised_run
    (hm : s.shared.mutex = .notRecoverable ∨
      (s.shared.mutex = .inconsistent t ∧ ∃ k q, s.pc t = some (.unlockBad k q .callback)))
    (hrun : (cfg.machine proc).Run (fun s l => ¬ DiesRaising t s l) s s₁) :
    s₁.shared.mutex.SpoiledBy t := by
  have hall : s₁.shared.mutex = .notRecoverable ∨
      (s₁.shared.mutex = .inconsistent t ∧
        ∃ k q, s₁.pc t = some (.unlockBad k q .callback)) := by
    refine Machine.Run.invariant (M := cfg.machine proc)
      (I := fun s => s.shared.mutex = .notRecoverable ∨
        (s.shared.mutex = .inconsistent t ∧ ∃ k q, s.pc t = some (.unlockBad k q .callback)))
      hm ?_ ?_ hrun
    · intro s u p e r sh hI _ hp hr
      have hmut := perform_mutex hr
      rcases hI with hm | ⟨hm, k, q, hpc⟩
      · left
        cases hop : p.act.mutexOp with
        | none =>
            rw [show (cfg.machine proc).act p = p.act from rfl, hop] at hmut
            exact (show sh.mutex = s.shared.mutex from hmut).trans hm
        | some op =>
            rw [show (cfg.machine proc).act p = p.act from rfl, hop, hm] at hmut
            exact (apply_of_notRecoverable hmut).1
      · by_cases hut : u = t
        · subst hut
          -- the unlock of `unlockBad`
          obtain rfl : MutexPc.unlockBad k q .callback = p := by simpa [hpc] using hp
          have hun : some (RobustMutex.unlock u s.shared.mutex) = some (r.lock, sh.mutex) := hmut
          rw [hm] at hun
          left
          simpa [RobustMutex.unlock] using (congrArg Prod.snd (Option.some.inj hun)).symm
        · refine Or.inr ⟨?_, k, q, by simpa [Ne.symm hut] using hpc⟩
          cases hop : p.act.mutexOp with
          | none =>
              rw [show (cfg.machine proc).act p = p.act from rfl, hop] at hmut
              exact (show sh.mutex = s.shared.mutex from hmut).trans hm
          | some op =>
              rw [show (cfg.machine proc).act p = p.act from rfl, hop, hm] at hmut
              exact apply_of_inconsistent_other hut hmut
    · intro s u p hI hok hp
      rcases hI with hm | ⟨hm, k, q, hpc⟩
      · left
        show RobustMutex.die u s.shared.mutex = .notRecoverable
        rw [hm]
        rfl
      · have hut : u ≠ t := by
          rintro rfl
          exact hok ⟨rfl, k, q, hpc⟩
        refine Or.inr ⟨?_, k, q, by simpa [Ne.symm hut] using hpc⟩
        show RobustMutex.die u s.shared.mutex = .inconsistent t
        simp [hm, RobustMutex.die, Ne.symm hut]
  rcases hall with hm | ⟨hm, -⟩
  · exact Or.inr hm
  · exact Or.inl hm

variable (cfg proc)

/-- **The owner-death protocol** in a state `s`. -/
structure OwnerDeathProtocol (s : State Tid (MutexPc Cv Hid) (Shared Tid Pid Cv Hid)) :
    Prop where
  /-- An `acquire` that returns `True` leaves its caller the consistent owner. -/
  acquire_true : ∀ t v a, Returned s t (.acquire v a) .yes → s.shared.mutex = .locked t
  /-- An `acquire` that returns `False` or raises leaves its caller what it had. -/
  acquire_other : ∀ t k v a out s₁, s.pc t = some (.enter k (.acquire v a)) →
    (cfg.machine proc).Run (Within t k) s s₁ →
    s₁.pc t = some (.python k (some (.call (.acquire v a), out))) → out ≠ .yes →
    s₁.shared.mutex.own t = s.shared.mutex.own t
  /-- A `Condition.wait` that returns leaves its caller the consistent owner. -/
  wait_returns : ∀ t c h a out, Returned s t (.wait c h a) out → out = .yes ∨ out = .no →
    s.shared.mutex = .locked t
  /-- After the death of an owner no call returns `True` before a callback has returned. -/
  callback_first : ∀ t s₁ s₂, s.shared.mutex.OwnedBy t →
    (cfg.machine proc).step s (.die t) = some s₁ →
    (cfg.machine proc).Run (fun s l => ¬ CallbackReturns s l) s₁ s₂ →
    ∀ u q, ¬ Returned s₂ u q .yes
  /-- After a callback has raised no call returns `True`. -/
  raised_last : ∀ t l s₁ s₂, CallbackRaises t s l → (cfg.machine proc).step s l = some s₁ →
    (cfg.machine proc).Run (fun s l => ¬ DiesRaising t s l) s₁ s₂ →
    ∀ u q, ¬ Returned s₂ u q .yes

variable {cfg proc}

/-- An `acquire` that does not return `True`. -/
theorem own_of_not_true {k : CallStack Cv Hid} {v : Via Hid} {a : AcquireOpts} {out : Ending}
    (hp : s.pc t = some (.enter k (.acquire v a)))
    (hrun : (cfg.machine proc).Run (Within t k) s s₁)
    (hret : s₁.pc t = some (.python k (some (.call (.acquire v a), out)))) (hout : out ≠ .yes) :
    s₁.shared.mutex.own t = s.shared.mutex.own t := by
  rcases inCall_run hp hrun _ hret with ⟨-, -, hend⟩ | ⟨hsuf, -⟩
  · simpa [EndView, hout] using hend
  · exact absurd hsuf.length_le (by simp [MutexPc.stack])

/-- **The owner-death protocol of robust mutexes**: in every state that any number of
threads of any processes reach on one mutex, with deaths at any step. -/
theorem ownerDeath_protocol (cfg : MutexConfig) (proc : Tid → Pid)
    (hs : (cfg.machine proc).Reach (mutexStart Tid Pid Cv Hid) s) :
    OwnerDeathProtocol cfg proc s := by
  have hI : ProtocolInv s := protocolInv_run protocolInv_start hs
  refine ⟨?_, ?_, ?_, ?_, ?_⟩
  · intro t v a hret
    exact hI.locked_of_returned hret trivial
  · intro t k v a out s₁ hp hrun hret hout
    exact own_of_not_true hp hrun hret hout
  · intro t c h a out hret hout
    refine hI.locked_of_returned hret ?_
    rcases hout with rfl | rfl <;> trivial
  · intro t s₁ s₂ hown hstep hrun u q
    obtain ⟨p, hp, rfl⟩ := Machine.step_die hstep
    have hdead : RobustMutex.die t s.shared.mutex = .ownerDead := by
      rcases hown with hm | hm <;> simp [hm, RobustMutex.die]
    have hU : Unrecovered ⟨Function.update s.pc t none, OsWorld.die proc t s.shared⟩ := by
      refine ⟨hI.die, Or.inl hdead, ?_⟩
      intro w k q hw
      rcases (hI.die.recovery w _ hw).spoiled (Or.inl trivial) with hm | hm
      · exact absurd (hdead.symm.trans hm) (by simp)
      · exact hm
    have hend := unrecovered_run hU hrun
    exact hend.inv.not_returned hend.spoiled u q
  · rintro t l s₁ s₂ ⟨e, q, k, last, rfl, hp, hreq⟩ hstep hrun u q'
    obtain ⟨p, r, sh, hp', hr, rfl⟩ := Machine.step_act hstep
    obtain rfl : MutexPc.python (q :: k) last = p := by simpa [hp] using hp'
    obtain ⟨rfl, rfl⟩ := Prod.mk.inj (Option.some.inj hr).symm
    have hnext : (cfg.machine proc).next (.python (q :: k) last) r =
        .unlockBad k q .callback := by
      show cfg.next (.python (q :: k) last) r = .unlockBad k q .callback
      simp only [MutexConfig.next, hreq, MutexPc.dispatch]
    have hone : (cfg.machine proc).Reach s _ := .step .start trivial hstep
    have hI₁ := protocolInv_run hI hone
    have hm : s.shared.mutex = .notRecoverable ∨ s.shared.mutex = .inconsistent t :=
      (hI.recovery t _ hp).in_callback.2.symm
    have hspoil : s₂.shared.mutex.SpoiledBy t := by
      refine raised_run ?_ hrun
      rcases hm with hm | hm
      · exact Or.inl hm
      · exact Or.inr ⟨hm, k, q, by simpa using hnext⟩
    exact (protocolInv_run hI₁ hrun).not_returned hspoil.spoiled u q'

end Protocol

/-! ## Two runs -/

/-- A call to `acquire` by the own handle, with the default options. -/
def trioLock (t : Fin 3) : Label (Fin 3) (MutexAnswer (Fin 3) Unit (Fin 3)) :=
  trioDo t (.call (trioAcquire t .default))

/-- `0` dies as the owner; `1` locks the mutex and is in its callback. -/
def callbackRun : List (Label (Fin 3) (MutexAnswer (Fin 3) Unit (Fin 3))) :=
  trioSteps 0 1 ++ [trioLock 0] ++ trioSteps 0 3 ++ [.die 0] ++ trioSteps 1 1 ++ [trioLock 1] ++
    trioSteps 1 4

/-- The state that `callbackRun` reaches. -/
def callbackState : State (Fin 3) (MutexPc Unit (Fin 3)) (Shared (Fin 3) (Fin 3) Unit (Fin 3)) :=
  (trio.run trioStart callbackRun).getD trioStart

theorem ownerDeath_protocol_callback :
    callbackState.pc 1 = some (.python [trioAcquire 1 .default] none) ∧
      callbackState.shared.mutex = .inconsistent 1 ∧
      OwnerDeathProtocol ⟨.monotonic, .monotonic⟩ id callbackState := by
  have hreach : trio.Reach trioStart callbackState :=
    Machine.Run.of_isSome (fun _ _ _ => trivial) rfl
  exact ⟨rfl, rfl, ownerDeath_protocol ⟨.monotonic, .monotonic⟩ id hreach⟩

/-- `0` owns the mutex and makes a call that does not block. -/
def heldRun : List (Label (Fin 3) (MutexAnswer (Fin 3) Unit (Fin 3))) :=
  trioSteps 0 1 ++ [trioLock 0] ++ trioSteps 0 3 ++
    [trioDo 0 (.call (trioAcquire 0 ⟨true, 0, false, true⟩))] ++ trioSteps 0 2

/-- The state that `heldRun` reaches. -/
def heldState : State (Fin 3) (MutexPc Unit (Fin 3)) (Shared (Fin 3) (Fin 3) Unit (Fin 3)) :=
  (trio.run trioStart heldRun).getD trioStart

/-- The callback of `1` has raised. -/
def raisedState : State (Fin 3) (MutexPc Unit (Fin 3)) (Shared (Fin 3) (Fin 3) Unit (Fin 3)) :=
  (trio.run callbackState [trioDo 1 .callbackRaise]).getD callbackState

/-- `1` dies before its unlock; `2` locks the mutex, and its callback returns. -/
def recoveredRun : List (Label (Fin 3) (MutexAnswer (Fin 3) Unit (Fin 3))) :=
  [.die 1] ++ trioSteps 2 1 ++ [trioLock 2] ++ trioSteps 2 4 ++ [trioDo 2 .callbackReturn] ++
    trioSteps 2 1

/-- The state that `recoveredRun` reaches. -/
def recoveredState : State (Fin 3) (MutexPc Unit (Fin 3)) (Shared (Fin 3) (Fin 3) Unit (Fin 3)) :=
  (trio.run raisedState recoveredRun).getD raisedState

/-- **An `acquire` that returns `False` to the owner of the mutex, and one that returns `True`
after a callback has raised.** -/
theorem acquire_false_to_owner_and_true_after_raise :
    (trio.Reach trioStart heldState ∧
        Returned heldState 0 (trioAcquire 0 ⟨true, 0, false, true⟩) .no ∧
        heldState.shared.mutex = .locked 0) ∧
      (trio.Reach trioStart callbackState ∧
        CallbackRaises 1 callbackState (trioDo 1 .callbackRaise) ∧
        trio.step callbackState (trioDo 1 .callbackRaise) = some raisedState ∧
        trio.Reach raisedState recoveredState ∧
        Returned recoveredState 2 (trioAcquire 2 .default) .yes) := by
  refine ⟨⟨?_, ⟨[], rfl⟩, rfl⟩, ?_, ⟨_, _, _, _, rfl, rfl, rfl⟩, rfl, ?_, ⟨[], rfl⟩⟩
  · exact Machine.Run.of_isSome (fun _ _ _ => trivial) rfl
  · exact Machine.Run.of_isSome (fun _ _ _ => trivial) rfl
  · exact Machine.Run.of_isSome (fun _ _ _ => trivial) rfl

end PosixIpc
