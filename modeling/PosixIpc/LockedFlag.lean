/-
# The `locked` flag of a mutex handle (`py_mutex.c`, `py_sync.c`)

One thread uses a `Mutex` or `RobustMutex` through one handle, with `acquire`, `release`,
`__enter__`, `__exit__` and the `wait` of conditions on it; other threads and processes use
the same mutex through other handles and may die.  This module compares the handle's
`locked` flag with the ownership of the mutex.

* `MutexPc.Flagged` : the flag and the thread's view of the mutex at every program point;
* `MutexPc.Flagged.next` : one action of the thread keeps it;
* `locked_iff_owned` : the flag between the calls, in all runs in which no `wait` finds the
  mutex not recoverable;
* `locked_after_lost_mutex` : what happens in the other runs.
-/
import PosixIpc.MutexMachine

namespace PosixIpc

open RobustMutex OsWorld ThreadMachine

variable {Cv Hid : Type}

/-! ## The flag at a program point -/

/-- The flag agrees with the ownership, and no recovery is going on. -/
def Steady (o : Own) (f : ℕ) : Prop := (f = 1 ∧ o = .consistent) ∨ (f = 0 ∧ o = .none)

/-- The thread is in `on_owner_died`. -/
def InRecovery (o : Own) (f : ℕ) : Prop := f = 1 ∧ o = .inconsistent

/-- Python code runs: outside a call, or in the callback of one call through `h`. -/
def Between (h : Hid) (k : CallStack Cv Hid) (o : Own) (f : ℕ) : Prop :=
  (k = [] ∧ Steady o f) ∨ ∃ q, k = [q] ∧ q.via = .handle h ∧ InRecovery o f

/-- Before a call blocks: `wait` holds the mutex. -/
def MutexCall.Poised (o : Own) (f : ℕ) : MutexCall Cv Hid → Prop
  | .acquire _ _ => Steady o f
  | .wait _ _ _ => f = 1 ∧ o = .consistent

/-- After the blocking function of a call has returned `rc`. -/
def MutexCall.Returned (rc : Rc) (o : Own) (f : ℕ) : MutexCall Cv Hid → Prop
  | .acquire _ _ => (rc = .ok → o = .consistent) ∧ (rc = .eownerdead → o = .inconsistent) ∧
      (rc ≠ .ok → rc ≠ .eownerdead → Steady o f)
  | .wait _ _ _ => f = 1 ∧ (rc = .eownerdead → o = .inconsistent) ∧
      (rc ≠ .eownerdead → o = .consistent)

/-- The flag `f` of the handle `h` and the view `o` of its thread, at each program point. -/
def MutexPc.Flagged (h : Hid) (o : Own) (f : ℕ) : MutexPc Cv Hid → Prop
  | .away k => Between h k o f
  | .python k _ => Between h k o f
  | .leave k => Between h k o f
  | .enter k q => k = [] ∧ q.via = .handle h ∧ Steady o f
  | .readFlag k _ h' _ => k = [] ∧ h' = h ∧ Steady o f
  | .tryLock k v _ => k = [] ∧ v = .handle h ∧ Steady o f
  | .waitEnter k q => k = [] ∧ q.via = .handle h ∧ q.Poised o f
  | .slice k q _ => k = [] ∧ q.via = .handle h ∧ q.Poised o f
  | .drop k q _ _ => k = [] ∧ q.via = .handle h ∧ q.Poised o f
  | .fn k q _ _ => k = [] ∧ q.via = .handle h ∧ q.Poised o f
  | .asleep k _ h' _ _ _ => k = [] ∧ h' = h ∧ f = 1 ∧ o = .none
  | .reacquire k _ h' _ _ _ => k = [] ∧ h' = h ∧ f = 1 ∧ o = .none
  | .gil k q _ rc => k = [] ∧ q.via = .handle h ∧ q.Returned rc o f
  | .back k q _ rc => k = [] ∧ q.via = .handle h ∧ q.Returned rc o f
  | .check k q _ => k = [] ∧ q.via = .handle h ∧ q.Poised o f
  | .mark k q h' .recover => k = [] ∧ q.via = .handle h ∧ h' = h ∧ o = .inconsistent
  | .mark k q h' (.ends _) => k = [] ∧ q.via = .handle h ∧ h' = h ∧ o = .consistent
  | .ownerDied k q => k = [] ∧ q.via = .handle h ∧ InRecovery o f
  | .newItem _ _ => False
  | .makeConsistent k q => k = [] ∧ q.via = .handle h ∧ InRecovery o f
  | .unlockBad k q _ => k = [] ∧ q.via = .handle h ∧ InRecovery o f
  | .unmark k q h' _ => k = [] ∧ q.via = .handle h ∧ h' = h ∧ o = .none
  | .exitFlag k v h' => k = [] ∧ v = .handle h ∧ h' = h ∧ Steady o f
  | .unlock k v => k = [] ∧ v = .handle h ∧ Steady o f
  | .released k v h' => k = [] ∧ v = .handle h ∧ h' = h ∧ o = .none
  | .notify k _ => Between h k o f
  | .notifyAll k _ => Between h k o f

/-! ## What the thread may do -/

/-- A step of Python code that uses no handle but `h`. -/
def PyStep.Through (h : Hid) : PyStep Cv Hid → Prop
  | .call q => q.via = .handle h
  | .release v => v = .handle h
  | .exit v => v = .handle h
  | _ => True

/-- A step of Python code that does not use the mutex. -/
def PyStep.Aside : PyStep Cv Hid → Prop
  | .call _ => False
  | .release _ => False
  | .exit _ => False
  | _ => True

/-- Python code uses the handle `h` only, and the callback does not use it. -/
def MutexPc.Allows (h : Hid) (req : Option (PyStep Cv Hid)) : MutexPc Cv Hid → Prop
  | .python k _ => ∀ a ∈ req, a.Through h ∧ (k ≠ [] → a.Aside)
  | _ => True

/-- The next action writes the flag of `h`. -/
def MutexPc.Writes (h : Hid) (p : MutexPc Cv Hid) : Prop :=
  match p.act with
  | .store l _ => l = h
  | _ => False

section Decidable

variable [DecidableEq Hid]

instance (h : Hid) (a : PyStep Cv Hid) : Decidable (a.Through h) :=
  match a with
  | .call q => inferInstanceAs (Decidable (q.via = .handle h))
  | .release v => inferInstanceAs (Decidable (v = .handle h))
  | .exit v => inferInstanceAs (Decidable (v = .handle h))
  | .notify _ => .isTrue trivial
  | .notifyAll _ => .isTrue trivial
  | .callbackReturn => .isTrue trivial
  | .callbackRaise => .isTrue trivial

instance (a : PyStep Cv Hid) : Decidable a.Aside :=
  match a with
  | .call _ => .isFalse id
  | .release _ => .isFalse id
  | .exit _ => .isFalse id
  | .notify _ => .isTrue trivial
  | .notifyAll _ => .isTrue trivial
  | .callbackReturn => .isTrue trivial
  | .callbackRaise => .isTrue trivial

instance (h : Hid) (req : Option (PyStep Cv Hid)) (p : MutexPc Cv Hid) :
    Decidable (p.Allows h req) := by
  cases p <;> unfold MutexPc.Allows <;> infer_instance

instance (h : Hid) (p : MutexPc Cv Hid) : Decidable (p.Writes h) := by
  unfold MutexPc.Writes
  cases p.act <;> infer_instance

end Decidable

/-- A `wait` that takes the mutex back. -/
def MutexPc.retakes : MutexPc Cv Hid → Bool
  | .reacquire _ _ _ _ _ _ => true
  | _ => false

/-! ## One action of the thread -/

section Step

variable {h : Hid} {o : Own} {f : ℕ}

/-- A call that returns leaves the flag as it is. -/
theorem flagged_ret (q : MutexCall Cv Hid) (out : Ending) (hs : Steady o f) :
    (MutexPc.ret [] q out).Flagged h o f := Or.inl ⟨rfl, hs⟩

/-- What follows a lock call knows the flag. -/
theorem flagged_afterLock {q : MutexCall Cv Hid} {rc : Rc} (hq : q.via = .handle h)
    (h1 : rc = .ok → o = .consistent) (h2 : rc = .eownerdead → o = .inconsistent)
    (h3 : rc ≠ .ok → rc ≠ .eownerdead → Steady o f) :
    (MutexPc.afterLock [] q rc).Flagged h o f := by
  unfold MutexPc.afterLock
  by_cases hok : rc = .ok
  · rw [if_pos hok]
    simp only [MutexPc.lockDone, hq, Via.flag]
    exact ⟨rfl, hq, rfl, h1 hok⟩
  · rw [if_neg hok]
    by_cases hdead : rc = .eownerdead
    · rw [if_pos hdead]
      simp only [hq]
      exact ⟨rfl, hq, rfl, h2 hdead⟩
    · rw [if_neg hdead]
      have hs := h3 hok hdead
      split_ifs <;> exact flagged_ret q _ hs

/-- What follows a wait knows the flag. -/
theorem flagged_waitReturn {q : MutexCall Cv Hid} {rc : Rc} (hq : q.via = .handle h)
    (hr : q.Returned rc o f) : (MutexPc.waitReturn [] q rc).Flagged h o f := by
  cases q with
  | acquire v a => exact flagged_afterLock hq hr.1 hr.2.1 hr.2.2
  | wait c h' a =>
      obtain ⟨hf, hdead, hheld⟩ := hr
      obtain rfl : h' = h := by simpa [MutexCall.via] using hq
      simp only [MutexPc.waitReturn]
      split_ifs with h1 h2
      · exact ⟨rfl, rfl, rfl, hheld (by simp [h1])⟩
      · exact ⟨rfl, rfl, rfl, hheld (by simp [h2])⟩
      · exact flagged_afterLock rfl (fun hok => hheld (by simp [hok])) hdead
          fun _ hne => Or.inl ⟨hf, hheld hne⟩

/-- A code that is no lock answer leaves a poised call as it was. -/
theorem MutexCall.Poised.returned {q : MutexCall Cv Hid} {rc : Rc} (hp : q.Poised o f)
    (h1 : rc ≠ .ok) (h2 : rc ≠ .eownerdead) : q.Returned rc o f := by
  cases q with
  | acquire v a => exact ⟨fun e => absurd e h1, fun e => absurd e h2, fun _ _ => hp⟩
  | wait c h' a => exact ⟨hp.1, fun e => absurd e h2, fun _ => hp.2⟩

/-- After an expired slice the call is as it was before. -/
theorem MutexCall.Returned.poised {q : MutexCall Cv Hid} (hr : q.Returned .etimedout o f) :
    q.Poised o f := by
  cases q with
  | acquire v a => exact hr.2.2 (by simp) (by simp)
  | wait c h' a => exact ⟨hr.1, hr.2.2 (by simp)⟩

/-- A wait that starts knows the flag. -/
theorem flagged_startWait (cfg : MutexConfig) {q : MutexCall Cv Hid} (hq : q.via = .handle h)
    (hp : q.Poised o f) (reading : Option Timespec) :
    (cfg.startWait [] q reading).Flagged h o f := by
  have hsteady : Steady o f := by
    cases q with
    | acquire v a => exact hp
    | wait c h' a => exact Or.inl hp
  unfold MutexConfig.startWait
  split
  · exact flagged_ret q _ hsteady
  · split_ifs <;> exact ⟨rfl, hq, hp⟩

/-- A call that starts knows the flag. -/
theorem flagged_dispatch {k : CallStack Cv Hid} {a : PyStep Cv Hid} (hb : Between h k o f)
    (ha : a.Through h) (hk : k ≠ [] → a.Aside) : (MutexPc.dispatch k a).Flagged h o f := by
  rcases hb with ⟨rfl, hs⟩ | ⟨q, rfl, hq, hrec⟩
  · cases a with
    | call q => exact ⟨rfl, ha, hs⟩
    | release v => exact ⟨rfl, ha, hs⟩
    | exit v =>
        obtain rfl : v = .handle h := ha
        exact ⟨rfl, rfl, rfl, hs⟩
    | _ => exact Or.inl ⟨rfl, hs⟩
  · have haside : a.Aside := hk (by simp)
    cases a with
    | call q' => exact haside.elim
    | release v => exact haside.elim
    | exit v => exact haside.elim
    | callbackReturn => exact ⟨rfl, hq, hrec⟩
    | callbackRaise => exact ⟨rfl, hq, hrec⟩
    | _ => exact Or.inr ⟨q, rfl, hq, hrec⟩

/-- What a lock answer makes of a thread whose flag is `f`. -/
theorem returned_of_timedLock {v : Via Hid} {a : AcquireOpts} {res : Result} {op : RobustMutex.Op}
    (hop : op = .lock ∨ op = .timedLock) (hs : Steady o f) (hans : o.Answers op res) :
    (.acquire v a : MutexCall Cv Hid).Returned (lockRc res) (o.after op res) f := by
  rcases hs with ⟨rfl, rfl⟩ | ⟨rfl, rfl⟩
  · have hres : res = .deadlock := by rcases hop with rfl | rfl <;> simpa [Own.Answers] using hans
    subst hres
    rcases hop with rfl | rfl <;> simp [MutexCall.Returned, lockRc, Own.after, Steady]
  · have hres : res = .ok ∨ res = .ownerDead ∨ res = .notRecoverable ∨ res = .timedOut := by
      rcases hop with rfl | rfl
      · have hans' : res = .ok ∨ res = .ownerDead ∨ res = .notRecoverable := hans
        tauto
      · exact hans
    rcases hop with rfl | rfl <;> rcases hres with rfl | rfl | rfl | rfl <;>
      simp [MutexCall.Returned, lockRc, Own.after, Steady]

variable [DecidableEq Hid]

/-- **One action of the thread keeps the flag true**, unless a `wait` finds the mutex not
recoverable when it takes it back. -/
theorem MutexPc.Flagged.next (cfg : MutexConfig) {Tid : Type} {p : MutexPc Cv Hid}
    {r : MutexAnswer Tid Cv Hid} {o' : Own} {f' : ℕ} (hJ : p.Flagged h o f)
    (hreq : p.Allows h r.req) (hlost : p.retakes = true → r.lock ≠ .notRecoverable)
    (hown : match p.act.mutexOp with
      | none => o' = o
      | some op => o.Answers op r.lock ∧ o' = o.after op r.lock)
    (hmem : match p.act with
      | .store l x => f' = if l = h then x else f
      | _ => f' = f)
    (hload : ∀ l, p.act = .load l → l = h → r.val = f) : (cfg.next p r).Flagged h o' f' := by
  cases p with
  | away k =>
      obtain ⟨rfl, rfl⟩ : o' = o ∧ f' = f := ⟨hown, hmem⟩
      exact hJ
  | leave k =>
      obtain ⟨rfl, rfl⟩ : o' = o ∧ f' = f := ⟨hown, hmem⟩
      exact hJ
  | notify k c =>
      obtain ⟨rfl, rfl⟩ : o' = o ∧ f' = f := ⟨hown, hmem⟩
      exact hJ
  | notifyAll k c =>
      obtain ⟨rfl, rfl⟩ : o' = o ∧ f' = f := ⟨hown, hmem⟩
      exact hJ
  | python k last =>
      obtain ⟨rfl, rfl⟩ : o' = o ∧ f' = f := ⟨hown, hmem⟩
      simp only [MutexConfig.next]
      cases hr : r.req with
      | none => exact hJ
      | some a =>
          obtain ⟨ha, hk⟩ := hreq a hr
          exact flagged_dispatch hJ ha hk
  | enter k q =>
      obtain ⟨rfl, rfl⟩ : o' = o ∧ f' = f := ⟨hown, hmem⟩
      obtain ⟨rfl, hq, hs⟩ := hJ
      simp only [MutexConfig.next]
      by_cases hflag : r.flag = true
      · rw [if_pos hflag]
        exact flagged_ret q _ hs
      · rw [if_neg hflag]
        cases q with
        | acquire v a => exact ⟨rfl, hq, hs⟩
        | wait c h' a =>
            simp only
            split_ifs
            · exact ⟨rfl, by simpa [MutexCall.via] using hq, hs⟩
            · exact flagged_ret _ _ hs
  | readFlag k c h' a =>
      obtain ⟨rfl, rfl⟩ : o' = o ∧ f' = f := ⟨hown, hmem⟩
      obtain ⟨rfl, rfl, hs⟩ := hJ
      have hval : r.val = f' := hload h' rfl rfl
      simp only [MutexConfig.next]
      split_ifs with h0
      · exact flagged_ret _ _ hs
      · refine ⟨rfl, rfl, hs.resolve_right ?_⟩
        rintro ⟨hf, -⟩
        exact h0 (hval.trans hf)
  | tryLock k v a =>
      obtain ⟨hans, rfl⟩ := hown
      obtain rfl : f' = f := hmem
      obtain ⟨rfl, rfl, hs⟩ := hJ
      simp only [MutexConfig.next]
      by_cases hbusy : r.lock = .busy
      · simp only [hbusy, lockRc, Own.after]
        rw [if_neg (by simp)]
        split_ifs
        · exact flagged_ret _ _ hs
        · exact ⟨rfl, rfl, hs⟩
      · rw [if_pos (by cases hr : r.lock <;> simp_all [lockRc])]
        rcases hs with ⟨rfl, rfl⟩ | ⟨rfl, rfl⟩
        · -- the owner's own `trylock` is refused as a deadlock
          have hans' : r.lock = .busy ∨ r.lock = .deadlock := by simpa [Own.Answers] using hans
          have hdead := hans'.resolve_left hbusy
          refine flagged_afterLock rfl ?_ ?_ ?_ <;> simp [hdead, lockRc, Own.after, Steady]
        · have hans' : r.lock = .ok ∨ r.lock = .ownerDead ∨ r.lock = .notRecoverable ∨
              r.lock = .busy := hans
          refine flagged_afterLock rfl ?_ ?_ ?_ <;>
            rcases hans' with e | e | e | e <;> simp_all [lockRc, Own.after, Steady]
  | waitEnter k q =>
      obtain ⟨rfl, rfl⟩ : o' = o ∧ f' = f := ⟨hown, hmem⟩
      obtain ⟨rfl, hq, hp⟩ := hJ
      exact flagged_startWait cfg hq hp r.reading
  | slice k q user =>
      obtain ⟨rfl, rfl⟩ : o' = o ∧ f' = f := ⟨hown, hmem⟩
      obtain ⟨rfl, hq, hp⟩ := hJ
      simp only [MutexConfig.next]
      split
      · rename_i rc hnow
        rw [posixipcNow_error hnow]
        exact flagged_waitReturn hq (hp.returned (by simp) (by simp))
      · exact ⟨rfl, hq, hp⟩
  | drop k q user limit =>
      obtain ⟨rfl, rfl⟩ : o' = o ∧ f' = f := ⟨hown, hmem⟩
      exact hJ
  | fn k q user limit =>
      obtain ⟨rfl, hq, hp⟩ := hJ
      cases q with
      | acquire v a =>
          cases limit with
          | none =>
              obtain ⟨hans, rfl⟩ := hown
              obtain rfl : f' = f := hmem
              exact ⟨rfl, hq, returned_of_timedLock (Or.inl rfl) hp hans⟩
          | some d =>
              obtain ⟨hans, rfl⟩ := hown
              obtain rfl : f' = f := hmem
              exact ⟨rfl, hq, returned_of_timedLock (Or.inr rfl) hp hans⟩
      | wait c h' a =>
          obtain ⟨hans, rfl⟩ := hown
          obtain rfl : f' = f := hmem
          obtain ⟨hf, rfl⟩ := hp
          have hok : r.lock = .ok := by simpa [Own.Answers] using hans
          simp only [MutexConfig.next, hok, if_true, Own.after]
          exact ⟨rfl, by simpa [MutexCall.via] using hq, hf, rfl⟩
  | asleep k c h' a user limit =>
      obtain ⟨rfl, rfl⟩ : o' = o ∧ f' = f := by
        cases limit <;> exact ⟨hown, hmem⟩
      exact hJ
  | reacquire k c h' a user res =>
      obtain ⟨hans, rfl⟩ := hown
      obtain rfl : f' = f := hmem
      obtain ⟨rfl, rfl, hf, rfl⟩ := hJ
      have hans' : r.lock = .ok ∨ r.lock = .ownerDead ∨ r.lock = .notRecoverable := hans
      rcases hans' with e | e | e
      · simp only [MutexConfig.next, e, if_true, Own.after]
        exact ⟨rfl, rfl, hf, by cases res <;> simp [sleepRc], by simp⟩
      · simp only [MutexConfig.next, e, reduceCtorEq, if_false, Own.after, lockRc]
        exact ⟨rfl, rfl, hf, by simp, by simp⟩
      · exact absurd e (hlost rfl)
  | gil k q user rc =>
      obtain ⟨rfl, rfl⟩ : o' = o ∧ f' = f := ⟨hown, hmem⟩
      exact hJ
  | back k q user rc =>
      obtain ⟨rfl, rfl⟩ : o' = o ∧ f' = f := ⟨hown, hmem⟩
      obtain ⟨rfl, hq, hr⟩ := hJ
      simp only [MutexConfig.next]
      split_ifs with h1 h2
      · obtain ⟨-, rfl⟩ := h1
        exact flagged_waitReturn hq (hr.poised.returned (by simp) (by simp))
      · obtain ⟨-, rfl⟩ := h1
        exact ⟨rfl, hq, hr.poised⟩
      · exact flagged_waitReturn hq hr
  | check k q user =>
      obtain ⟨rfl, rfl⟩ : o' = o ∧ f' = f := ⟨hown, hmem⟩
      obtain ⟨rfl, hq, hp⟩ := hJ
      simp only [MutexConfig.next]
      cases user with
      | none => exact ⟨rfl, hq, hp⟩
      | some d =>
          simp only
          split_ifs
          · exact flagged_waitReturn hq (hp.returned (by simp) (by simp))
          · exact ⟨rfl, hq, hp⟩
  | mark k q h' after =>
      obtain rfl : o' = o := hown
      have hstore : f' = if h' = h then 1 else f := hmem
      cases after with
      | recover =>
          obtain ⟨rfl, hq, rfl, ho⟩ := hJ
          exact ⟨rfl, hq, by simpa using hstore, ho⟩
      | ends out =>
          obtain ⟨rfl, hq, rfl, ho⟩ := hJ
          exact flagged_ret q out (Or.inl ⟨by simpa using hstore, ho⟩)
  | ownerDied k q =>
      obtain ⟨rfl, rfl⟩ : o' = o ∧ f' = f := ⟨hown, hmem⟩
      obtain ⟨rfl, hq, hrec⟩ := hJ
      simp only [MutexConfig.next, hq]
      split_ifs
      · exact ⟨rfl, hq, hrec⟩
      · exact Or.inr ⟨q, rfl, hq, hrec⟩
  | newItem k q => exact hJ.elim
  | makeConsistent k q =>
      obtain ⟨hans, rfl⟩ := hown
      obtain rfl : f' = f := hmem
      obtain ⟨rfl, hq, hf, rfl⟩ := hJ
      have hok : r.lock = .ok := by simpa [Own.Answers] using hans
      simp only [MutexConfig.next, hok, lockRc, hq, Own.after]
      exact flagged_ret q _ (Or.inl ⟨hf, rfl⟩)
  | unlockBad k q exc =>
      obtain ⟨hans, rfl⟩ := hown
      obtain rfl : f' = f := hmem
      obtain ⟨rfl, hq, hf, rfl⟩ := hJ
      have hok : r.lock = .ok := by simpa [Own.Answers] using hans
      simp only [MutexConfig.next, MutexPc.recoveryFailed, hq, hok, Own.after]
      exact ⟨rfl, hq, rfl, rfl⟩
  | unmark k q h' exc =>
      obtain rfl : o' = o := hown
      obtain ⟨rfl, hq, rfl, ho⟩ := hJ
      have hstore : f' = if h' = h' then 0 else f := hmem
      exact flagged_ret q _ (Or.inr ⟨by simpa using hstore, ho⟩)
  | exitFlag k v h' =>
      obtain ⟨rfl, rfl⟩ : o' = o ∧ f' = f := ⟨hown, hmem⟩
      obtain ⟨rfl, rfl, rfl, hs⟩ := hJ
      simp only [MutexConfig.next]
      split_ifs
      · exact Or.inl ⟨rfl, hs⟩
      · exact ⟨rfl, rfl, hs⟩
  | unlock k v =>
      obtain ⟨hans, rfl⟩ := hown
      obtain rfl : f' = f := hmem
      obtain ⟨rfl, rfl, hs⟩ := hJ
      simp only [MutexConfig.next]
      rcases hs with ⟨rfl, rfl⟩ | ⟨rfl, rfl⟩
      · have hok : r.lock = .ok := by simpa [Own.Answers] using hans
        simp only [hok, lockRc, Own.after, Via.flag]
        exact ⟨rfl, rfl, rfl, rfl⟩
      · have hno : r.lock = .notOwner := by simpa [Own.Answers] using hans
        simp only [hno, lockRc, Own.after]
        exact Or.inl ⟨rfl, Or.inr ⟨rfl, rfl⟩⟩
  | released k v h' =>
      obtain rfl : o' = o := hown
      obtain ⟨rfl, rfl, rfl, ho⟩ := hJ
      have hstore : f' = if h' = h' then 0 else f := hmem
      exact Or.inl ⟨rfl, Or.inr ⟨by simpa using hstore, ho⟩⟩

end Step

/-! ## Whole runs -/

section Runs

variable {Tid Pid : Type} [DecidableEq Tid] [DecidableEq Pid] [DecidableEq Cv] [DecidableEq Hid]

/-- The machine of a mutex that is robust or not: only a robust one notices the death of its
owner. -/
def MutexConfig.handleMachine (cfg : MutexConfig) (robust : Bool) (proc : Tid → Pid) :
    Machine Tid (MutexPc Cv Hid) (Act Cv Hid) (MutexAnswer Tid Cv Hid) (MutexAnswer Tid Cv Hid)
      (Shared Tid Pid Cv Hid) :=
  { cfg.machine proc with
    die := fun t sh =>
      if robust then OsWorld.die proc t sh
      else { OsWorld.die proc t sh with mutex := sh.mutex } }

/-- The thread `t` uses the mutex through `h` only, its callbacks do not use it, and nobody
else writes the flag of `h`. -/
def OneHandle (t : Tid) (h : Hid) (s : State Tid (MutexPc Cv Hid) (Shared Tid Pid Cv Hid)) :
    Label Tid (MutexAnswer Tid Cv Hid) → Prop
  | .act u e => ∀ p ∈ s.pc u, (u = t → p.Allows h e.req) ∧ (u ≠ t → ¬ p.Writes h)
  | .die _ => True

/-- When a `wait` of `t` takes the mutex back, the mutex is still recoverable. -/
def RetakesMutex (t : Tid) (s : State Tid (MutexPc Cv Hid) (Shared Tid Pid Cv Hid)) :
    Label Tid (MutexAnswer Tid Cv Hid) → Prop
  | .act u _ => u = t → (s.pc t).elim false MutexPc.retakes = true →
      s.shared.mutex ≠ .notRecoverable
  | .die _ => True

variable {cfg : MutexConfig} {robust : Bool} {proc : Tid → Pid} {t : Tid} {h : Hid}
  {s : State Tid (MutexPc Cv Hid) (Shared Tid Pid Cv Hid)}

/-- What the thread knows in every run. -/
theorem flagged_run
    (hrun : (cfg.handleMachine robust proc).Run
      (fun s l => OneHandle t h s l ∧ RetakesMutex t s l) (mutexStart Tid Pid Cv Hid) s)
    {p : MutexPc Cv Hid} (hp : s.pc t = some p) :
    p.Flagged h (s.shared.mutex.own t) (s.shared.mem h) := by
  refine Machine.Run.thread_invariant
    (J := fun p sh => p.Flagged h (sh.mutex.own t) (sh.mem h)) ?_ ?_ ?_ ?_ hrun p hp
  · intro p hp'
    obtain rfl : MutexPc.away [] = p := by simpa [mutexStart] using hp'
    exact Or.inl ⟨rfl, Or.inr ⟨rfl, rfl⟩⟩
  · intro s p e r sh hJ hok hp hr
    have hr' : perform proc t p.act e s.shared = some (r, sh) := hr
    have hreq := (hok.1 p hp).1 rfl
    refine hJ.next cfg ?_ ?_ (perform_own hr').1 ?_ ?_
    · cases p with
      | python k last =>
          have hsame : some (e, s.shared) = some (r, sh) := hr'
          obtain ⟨rfl, -⟩ := Prod.mk.inj (Option.some.inj hsame)
          exact hreq
      | _ => trivial
    · intro hret hlock
      have hlive := hok.2 rfl (by rw [hp]; exact hret)
      cases p with
      | reacquire k c h' a user res =>
          have hm := perform_mutex hr'
          simp only [MutexPc.act, Act.mutexOp, RobustMutex.apply] at hm
          cases hst : s.shared.mutex with
          | notRecoverable => exact hlive hst
          | _ =>
              rw [hst] at hm
              simp only [RobustMutex.lock] at hm
              try split_ifs at hm
              all_goals simp_all
      | _ => simp [MutexPc.retakes] at hret
    · rcases perform_mem hr' with ⟨l, x, ha, hmem⟩ | ⟨ha, hmem⟩
      · rw [ha, hmem]
        by_cases hl : l = h
        · simp [hl]
        · simp [hl, Ne.symm hl]
      · rw [hmem]
        split
        · exact absurd ‹_› (ha _ _)
        · rfl
    · rintro l ha rfl
      rw [ha] at hr'
      exact (perform_load hr').1
  · intro s p u q e r sh hut hJ hok hp hq hr
    have hr' : perform proc u q.act e s.shared = some (r, sh) := hr
    have hstore := (hok.1 q hq).2 hut
    have hmem : sh.mem h = s.shared.mem h := by
      rcases perform_mem hr' with ⟨l, x, ha, hm⟩ | ⟨-, hm⟩
      · have hl : h ≠ l := by
          rintro rfl
          exact hstore (by simp [MutexPc.Writes, ha])
        rw [hm, Function.update_of_ne hl]
      · rw [hm]
    show p.Flagged h (sh.mutex.own t) (sh.mem h)
    rw [(perform_own hr').2 t (Ne.symm hut), hmem]
    exact hJ
  · intro p u sh hut hJ
    cases robust with
    | true =>
        show p.Flagged h ((RobustMutex.die u sh.mutex).own t) (sh.mem h)
        rw [(die_own u sh.mutex).2 t (Ne.symm hut)]
        exact hJ
    | false => exact hJ

/-- One action of a thread whose program point is known. -/
theorem handleMachine_step {p : MutexPc Cv Hid} {e : MutexAnswer Tid Cv Hid}
    {s' : State Tid (MutexPc Cv Hid) (Shared Tid Pid Cv Hid)} (hp : s.pc t = some p)
    (hstep : (cfg.handleMachine robust proc).step s (.act t e) = some s') :
    ∃ r sh, perform proc t p.act e s.shared = some (r, sh) ∧ s'.shared = sh ∧
      s'.pc t = some (cfg.next p r) := by
  obtain ⟨p', r, sh, hp', hr, rfl⟩ := Machine.step_act hstep
  obtain rfl : p = p' := Option.some.inj (hp.symm.trans hp')
  exact ⟨r, sh, hr, rfl, Function.update_self _ _ _⟩

/-- Only other threads act. -/
def OthersAct (t : Tid) : Label Tid (MutexAnswer Tid Cv Hid) → Prop
  | .act u _ => u ≠ t
  | .die u => u ≠ t

/-- The other threads move neither `t` nor its view of the mutex. -/
theorem own_of_others {s₁ s₂ : State Tid (MutexPc Cv Hid) (Shared Tid Pid Cv Hid)}
    (hrun : (cfg.handleMachine robust proc).Run (fun _ l => OthersAct t l) s₁ s₂) :
    s₂.pc t = s₁.pc t ∧ s₂.shared.mutex.own t = s₁.shared.mutex.own t := by
  refine Machine.Run.invariant (I := fun s => s.pc t = s₁.pc t ∧
    s.shared.mutex.own t = s₁.shared.mutex.own t) ⟨rfl, rfl⟩ ?_ ?_ hrun
  · intro s u p e r sh hI hok hp hr
    have hut : u ≠ t := hok
    have hr' : perform proc u p.act e s.shared = some (r, sh) := hr
    exact ⟨by simpa [Ne.symm hut] using hI.1, ((perform_own hr').2 t (Ne.symm hut)).trans hI.2⟩
  · intro s u p hI hok hp
    have hut : u ≠ t := hok
    refine ⟨by simpa [Ne.symm hut] using hI.1, ?_⟩
    cases robust with
    | true => exact ((die_own u s.shared.mutex).2 t (Ne.symm hut)).trans hI.2
    | false => exact hI.2

/-- The `locked` flag of `h` tells whether its thread `t` owns the mutex. -/
structure FlagTruth (cfg : MutexConfig) (robust : Bool) (proc : Tid → Pid) (t : Tid) (h : Hid)
    (s : State Tid (MutexPc Cv Hid) (Shared Tid Pid Cv Hid)) : Prop where
  /-- Between the calls of `t`. -/
  locked_iff : ∀ k last, s.pc t = some (.python k last) →
    (s.shared.mem h = 1 ↔ s.shared.mutex.OwnedBy t)
  /-- `__exit__` of a thread that does not own the mutex returns. -/
  exit_free : ∀ k e s₁, s.pc t = some (.exitFlag k (.handle h) h) →
    ¬ s.shared.mutex.OwnedBy t → (cfg.handleMachine robust proc).step s (.act t e) = some s₁ →
    s₁.pc t = some (.python k (some (.exit (.handle h), .nothing)))
  /-- `__exit__` of the owner unlocks the mutex, whatever the others do in between. -/
  exit_held : ∀ k e s₁ s₂ e' s₃, s.pc t = some (.exitFlag k (.handle h) h) →
    s.shared.mutex.OwnedBy t → (cfg.handleMachine robust proc).step s (.act t e) = some s₁ →
    (cfg.handleMachine robust proc).Run (fun _ l => OthersAct t l) s₁ s₂ →
    (cfg.handleMachine robust proc).step s₂ (.act t e') = some s₃ →
    s₂.shared.mutex.OwnedBy t ∧ ¬ s₃.shared.mutex.OwnedBy t ∧
      s₃.pc t = some (.released k (.handle h) h)

/-- Owning a mutex, consistent or not. -/
theorem ownedBy_iff {m : RobustMutex.State Tid} : m.OwnedBy t ↔ m.own t ≠ .none := by
  cases m <;> simp [RobustMutex.State.OwnedBy, RobustMutex.State.own]

/-- **The flag tells the truth as long as no `wait` loses the mutex for good.**  In every run
of any threads and processes on a robust or plain mutex, in which `t` uses the handle `h` and
nobody else does, and in which the mutex is recoverable whenever a `wait` of `t` takes it
back. -/
theorem locked_iff_owned (cfg : MutexConfig) (robust : Bool) (proc : Tid → Pid) (t : Tid)
    (h : Hid) {s : State Tid (MutexPc Cv Hid) (Shared Tid Pid Cv Hid)}
    (hrun : (cfg.handleMachine robust proc).Run
      (fun s l => OneHandle t h s l ∧ RetakesMutex t s l) (mutexStart Tid Pid Cv Hid) s) :
    FlagTruth cfg robust proc t h s := by
  constructor
  · intro k last hp
    rw [ownedBy_iff]
    rcases flagged_run hrun hp with ⟨-, hs⟩ | ⟨q, -, -, hf, ho⟩
    · rcases hs with ⟨hf, ho⟩ | ⟨hf, ho⟩ <;> simp [hf, ho]
    · simp [hf, ho]
  · intro k e s₁ hp hfree hstep
    obtain ⟨-, -, -, hs⟩ := flagged_run hrun hp
    have hflag : s.shared.mem h = 0 := by
      rcases hs with ⟨-, ho⟩ | ⟨hf, -⟩
      · exact absurd (ownedBy_iff.mpr (by simp [ho])) hfree
      · exact hf
    obtain ⟨r, sh, hr, -, hpc⟩ := handleMachine_step hp hstep
    have hval : r.val = s.shared.mem h := (perform_load hr).1
    rw [hpc]
    simp [MutexConfig.next, hval, hflag]
  · intro k e s₁ s₂ e' s₃ hp hown hstep hothers hstep'
    obtain ⟨-, -, -, hs⟩ := flagged_run hrun hp
    obtain ⟨hflag, hview⟩ : s.shared.mem h = 1 ∧ s.shared.mutex.own t = .consistent := by
      rcases hs with hs | ⟨-, ho⟩
      · exact hs
      · exact absurd ho (ownedBy_iff.mp hown)
    obtain ⟨r, sh, hr, hsh, hpc₁⟩ := handleMachine_step hp hstep
    obtain ⟨hval, rfl⟩ := perform_load hr
    have hnext : cfg.next (.exitFlag k (.handle h) h) r = .unlock k (.handle h) := by
      simp [MutexConfig.next, hval, hflag]
    -- from the load of the flag to the unlock only the other threads act
    obtain ⟨hpc₂, hown₂⟩ := own_of_others hothers
    have hpc : s₂.pc t = some (.unlock k (.handle h)) := by rw [hpc₂, hpc₁, hnext]
    have hview₂ : s₂.shared.mutex.own t = .consistent := by rw [hown₂, hsh, hview]
    obtain ⟨r', sh', hr', hsh', hpc₃⟩ := handleMachine_step hpc hstep'
    obtain ⟨hans, hafter⟩ := (perform_own hr').1
    rw [hview₂] at hans hafter
    have hok : r'.lock = .ok := by simpa [Own.Answers] using hans
    rw [hok] at hafter
    refine ⟨ownedBy_iff.mpr (by simp [hview₂]), ?_, ?_⟩
    · rw [ownedBy_iff, hsh', hafter]
      simp [Own.after]
    · rw [hpc₃]
      simp [MutexConfig.next, hok, lockRc, Via.flag]

instance (t : Tid) (h : Hid) (s : State Tid (MutexPc Cv Hid) (Shared Tid Pid Cv Hid))
    (l : Label Tid (MutexAnswer Tid Cv Hid)) : Decidable (OneHandle t h s l) :=
  match l with
  | .act u e => inferInstanceAs (Decidable
      (∀ p ∈ s.pc u, (u = t → p.Allows h e.req) ∧ (u ≠ t → ¬ p.Writes h)))
  | .die _ => .isTrue trivial

instance (t : Tid) (s : State Tid (MutexPc Cv Hid) (Shared Tid Pid Cv Hid))
    (l : Label Tid (MutexAnswer Tid Cv Hid)) : Decidable (RetakesMutex t s l) :=
  match l with
  | .act u _ => inferInstanceAs (Decidable (u = t →
      (s.pc t).elim false MutexPc.retakes = true → s.shared.mutex ≠ .notRecoverable))
  | .die _ => .isTrue trivial

end Runs

/-! ## Three processes -/

/-- Three processes on one `RobustMutex`, each with a handle of its own. -/
def robustTrio : Machine (Fin 3) (MutexPc Unit (Fin 3)) (Act Unit (Fin 3))
    (MutexAnswer (Fin 3) Unit (Fin 3)) (MutexAnswer (Fin 3) Unit (Fin 3))
    (Shared (Fin 3) (Fin 3) Unit (Fin 3)) :=
  MutexConfig.handleMachine ⟨.monotonic, .monotonic⟩ true id

/-- `0` acquires the mutex and waits on the condition. -/
def waitRun : List (Label (Fin 3) (MutexAnswer (Fin 3) Unit (Fin 3))) :=
  trioSteps 0 1 ++ [trioDo 0 (.call (trioAcquire 0 .default))] ++ trioSteps 0 3 ++
    [trioDo 0 (.call (.wait () 0 .default))] ++ trioSteps 0 6

/-- `1` dies with the mutex. -/
def ownerDies : List (Label (Fin 3) (MutexAnswer (Fin 3) Unit (Fin 3))) :=
  trioSteps 1 1 ++ [trioDo 1 (.call (trioAcquire 1 .default))] ++ trioSteps 1 3 ++ [.die 1]

/-- The callback of `2` raises. -/
def recoveryRaises : List (Label (Fin 3) (MutexAnswer (Fin 3) Unit (Fin 3))) :=
  trioSteps 2 1 ++ [trioDo 2 (.call (trioAcquire 2 .default))] ++ trioSteps 2 4 ++
    [trioDo 2 .callbackRaise] ++ trioSteps 2 2

/-- `0` wakes up and finds that `1` has died. -/
def wokenState : State (Fin 3) (MutexPc Unit (Fin 3)) (Shared (Fin 3) (Fin 3) Unit (Fin 3)) :=
  (robustTrio.runIf (fun s l => OneHandle 0 0 s l ∧ RetakesMutex 0 s l) trioStart
    (waitRun ++ ownerDies ++ trioSteps 0 6)).getD trioStart

theorem locked_iff_owned_woken :
    wokenState.pc 0 = some (.python [.wait () 0 .default] none) ∧
      wokenState.shared.mem 0 = 1 ∧
      FlagTruth ⟨.monotonic, .monotonic⟩ true id 0 0 wokenState :=
  ⟨rfl, by decide +kernel, locked_iff_owned ⟨.monotonic, .monotonic⟩ true id 0 0
    (Machine.Run.of_runIf_isSome (by decide +kernel))⟩

/-- `0` wakes up after the recovery of `2` has failed. -/
def lostState : State (Fin 3) (MutexPc Unit (Fin 3)) (Shared (Fin 3) (Fin 3) Unit (Fin 3)) :=
  (robustTrio.runIf (OneHandle 0 0) trioStart
    (waitRun ++ ownerDies ++ recoveryRaises ++ trioSteps 0 4)).getD trioStart

/-- The `__exit__` of `0` after that. -/
def lostExit : State (Fin 3) (MutexPc Unit (Fin 3)) (Shared (Fin 3) (Fin 3) Unit (Fin 3)) :=
  (robustTrio.run lostState ([trioDo 0 (.exit (.handle 0))] ++ trioSteps 0 2)).getD lostState

/-- **A `wait` that loses the mutex for good leaves the flag set.**  Its thread does not own
the mutex any more, and `__exit__` raises because of it. -/
theorem locked_after_lost_mutex :
    robustTrio.Run (OneHandle 0 0) trioStart lostState ∧
      lostState.pc 0 = some (.python [] (some (.call (.wait () 0 .default),
        .raised .notRecoverable))) ∧
      lostState.shared.mem 0 = 1 ∧ lostState.shared.mutex = .notRecoverable ∧
      ¬ FlagTruth ⟨.monotonic, .monotonic⟩ true id 0 0 lostState ∧
      lostExit.pc 0 = some (.python [] (some (.release (.handle 0),
        .raised .releaseUnlocked))) := by
  have hpc : lostState.pc 0 = some (.python [] (some (.call (.wait () 0 .default),
      .raised .notRecoverable))) := rfl
  have hflag : lostState.shared.mem 0 = 1 := by decide +kernel
  have hmutex : lostState.shared.mutex = .notRecoverable := by decide +kernel
  refine ⟨Machine.Run.of_runIf_isSome (by decide +kernel), hpc, hflag, hmutex, ?_, rfl⟩
  intro htruth
  have hown := (htruth.locked_iff _ _ hpc).mp hflag
  rw [hmutex] at hown
  rcases hown with hm | hm <;> simp at hm

end PosixIpc
