/-
# No lost wake-up of a `FutexQueue`

A waiter captures the futex word under `put_lock`, at a moment when it cannot proceed, and
sleeps only while the word still has that value.  Every thread that changes `count`
increments the word before it gives `put_lock` up, and recovery increments both words.

`WakeInv` states this as an invariant of the owner: a waiter whose captured word is current
while it could proceed exists only while the owner is between its change and its increment.
`futexQueue_no_lost_wakeup` reads it off for every reachable state.
-/
import PosixIpc.QueueMachine
import PosixIpc.QueueRingRecovery

namespace PosixIpc

open StoreProg RobustMutex OsWorld ThreadMachine Word32

/-! ## Waiters -/

/-- The word a thread waits on with the increment count it captured, from the capture to
the end of the wait. -/
def QueuePc.captured : QueuePc → Option (Side × ℕ)
  | .futexUnlock q e => some (q.waitSide, e)
  | .waitEnter q (.futex e) => some (q.waitSide, e)
  | .slice q (.futex e) _ => some (q.waitSide, e)
  | .drop q (.futex e) _ _ => some (q.waitSide, e)
  | .park q (.futex e) _ _ => some (q.waitSide, e)
  | .asleep q (.futex e) _ _ => some (q.waitSide, e)
  | .gil q (.futex e) _ _ => some (q.waitSide, e)
  | .back q (.futex e) _ _ => some (q.waitSide, e)
  | .check q (.futex e) _ => some (q.waitSide, e)
  | _ => none

namespace QueueConfig

variable (cfg : QueueConfig) {Tid Pid : Type}
  (proc : Tid → Pid)

theorem captured_afterWait (q : Request) (rc : Rc) (o : Own) :
    (cfg.afterWait q rc o).captured = none := by
  unfold afterWait
  split_ifs <;> rfl

theorem captured_siteDone (site : LockSite) (q : Request) :
    (cfg.siteDone site q).captured = none := by
  cases site with
  | first => rfl
  | _ => exact cfg.captured_afterWait _ _ _

theorem captured_siteFailed (site : LockSite) (q : Request) (rc : Failure) :
    (cfg.siteFailed site q rc).captured = none := by
  cases site with
  | first => rfl
  | _ => exact cfg.captured_afterWait _ _ _

theorem captured_recoverFailed (site : LockSite) (q : Request) (rc : Failure) :
    (cfg.recoverFailed site q rc).captured = none := by
  cases site with
  | condWake => exact cfg.captured_afterWait _ _ _
  | _ => rfl

theorem captured_waitReturn (q : Request) (w : WaitFn) (rc : Rc) (o : Own) :
    (cfg.waitReturn q w rc o).captured = none := by
  cases w with
  | cond =>
      rw [waitReturn]
      split_ifs
      · rfl
      · exact cfg.captured_afterWait _ _ _
  | futex e => rfl

theorem captured_afterTest (q : Request) (rc : Rc) (n : ℕ) :
    (cfg.afterTest q rc n).captured = none := by
  unfold afterTest
  repeat' split
  all_goals rfl

theorem captured_startWait (q : Request) (w : WaitFn) (reading : Option Timespec) {x : Side × ℕ}
    (h : (cfg.startWait q w reading).captured = some x) :
    (QueuePc.waitEnter q w).captured = some x := by
  unfold startWait at h
  cases w with
  | cond =>
      repeat' split at h
      all_goals first
        | exact h
        | exact absurd h (by simp [captured_afterWait])
  | futex e =>
      simp only at h
      repeat' split at h
      all_goals first
        | exact h
        | exact absurd h (by simp [QueuePc.captured])

/-- **Only `futexLoad` captures.** -/
theorem captured_next {p : QueuePc} (hp : ∀ q, p ≠ .futexLoad q) {r : QueueAnswer Tid}
    {x : Side × ℕ} (h : (cfg.next p r).captured = some x) : p.captured = some x := by
  cases p with
  | futexLoad q => exact absurd rfl (hp q)
  | lockCall site q =>
      simp only [next] at h
      split_ifs at h
      · simp [captured_siteDone] at h
      · exact h
      · simp [captured_siteFailed] at h
  | recovering site q p =>
      cases p with
      | ret rc =>
          simp only [next] at h
          split_ifs at h
          · exact h
          · simp [captured_recoverFailed] at h
      | _ => exact h
  | makeConsistent site q =>
      simp only [next] at h
      split_ifs at h
      · exact h
      · simp [captured_recoverFailed] at h
  | unlockBad site q rc => simp [next, captured_siteFailed] at h
  | announce site q k =>
      cases k with
      | wakeEmpty => simp [next, captured_siteDone] at h
      | _ => exact h
  | lockGil q rc =>
      simp only [next] at h
      split_ifs at h <;> exact h
  | test q p =>
      cases p with
      | ret y => simp [next, captured_afterTest] at h
      | _ => exact h
  | ring q p =>
      cases p with
      | ret y =>
          simp only [next] at h
          split at h <;> exact h
      | _ => exact h
  | futexUnlock q e =>
      simp only [next] at h
      split_ifs at h
      · exact h
      · simp [captured_afterWait] at h
  | waitEnter q w => exact cfg.captured_startWait _ _ _ h
  | slice q w user =>
      simp only [next] at h
      split at h
      · simp [captured_waitReturn] at h
      · cases w <;> exact h
  | drop q w user limit => cases w <;> exact h
  | park q w user limit =>
      cases w <;> simp only [next] at h <;> split_ifs at h <;> exact h
  | asleep q w user limit => cases w <;> exact h
  | reacquire q user res =>
      simp only [next] at h
      split_ifs at h <;> exact h
  | gil q w user rc => cases w <;> exact h
  | back q w user rc =>
      simp only [next] at h
      split_ifs at h
      · simp [captured_waitReturn] at h
      · cases w <;> exact h
      · simp [captured_waitReturn] at h
  | check q w user =>
      simp only [next] at h
      cases user with
      | none => cases w <;> exact h
      | some d =>
          simp only at h
          split_ifs at h
          · simp [captured_waitReturn] at h
          · cases w <;> exact h
  | _ =>
      simp only [next] at h
      repeat' split at h
      all_goals exact h

/-! ## The invariant -/

/-- No waiter on a side has a current capture. -/
def Clear (side : Side) (s : State Tid QueuePc (Shared Tid Pid Side Loc)) : Prop :=
  ∀ t p e, s.pc t = some p → p.captured = some (side, e) → e ≠ s.shared.word side

/-- A waiter on a side with a current capture could not proceed. -/
def Quiet (side : Side) (s : State Tid QueuePc (Shared Tid Pid Side Loc)) : Prop :=
  ∀ t p e, s.pc t = some p → p.captured = some (side, e) → e = s.shared.word side →
    ¬ Ready cfg.view side s.shared.mem

/-- What holds when the owner of the mutex is at a program point. -/
def OwnerInv (s : State Tid QueuePc (Shared Tid Pid Side Loc)) : QueuePc → Prop
  | .recovering _ _ p => (Prog.exec p s.shared.mem).1 = .ok
  | .makeConsistent _ _ => True
  | .unlockBad _ _ _ => False
  | .announce _ _ .addFull => True
  | .announce _ _ .addEmpty => Clear .notFull s
  | .ring q _ => Clear q.waitSide s ∧ q ≠ .qsize
  | .bump q _ _ => Clear q.waitSide s ∧ q ≠ .qsize
  | .test _ p => (∀ side, Quiet cfg side s) ∧
      (p = posixipcQueueQsize cfg.view ∨ p = .ret (.ok, s.shared.mem .count))
  | .futexLoad q => (∀ side, Quiet cfg side s) ∧ ¬ Ready cfg.view q.waitSide s.shared.mem
  | .finish _ o => (∀ side, Quiet cfg side s) ∧ o ≠ .inconsistent
  | _ => ∀ side, Quiet cfg side s

variable {cfg} {s : State Tid QueuePc (Shared Tid Pid Side Loc)}

theorem Clear.quiet {side : Side} (h : Clear side s) : Quiet cfg side s :=
  fun u q e hq hc heq => absurd heq (h u q e hq hc)

/-- A current waiter that could proceed does not exist: nobody has a current capture. -/
theorem Quiet.clear {side : Side} (h : Quiet cfg side s)
    (hready : Ready cfg.view side s.shared.mem) : Clear side s :=
  fun u q e hq hc heq => h u q e hq hc heq hready

/-- After the wait, and after a lock call, the owner is back at a quiet program point. -/
theorem ownerInv_afterWait {q : Request} {rc : Rc} {o : Own}
    (ho : o ≠ .inconsistent) (h : ∀ side, Quiet cfg side s) :
    OwnerInv cfg s (cfg.afterWait q rc o) := by
  unfold afterWait
  split_ifs
  · exact ⟨h, ho⟩
  · exact ⟨h, Or.inl rfl⟩
  · exact ⟨h, ho⟩
  · exact ⟨h, ho⟩

theorem ownerInv_siteDone {site : LockSite} {q : Request}
    (h : ∀ side, Quiet cfg side s) : OwnerInv cfg s (cfg.siteDone site q) := by
  cases site with
  | first => exact h
  | condWake => exact ownerInv_afterWait (by simp) h
  | relock rc => exact ownerInv_afterWait (by simp) h

/-- The test of the loop: on success nobody waits for what the call is about to consume. -/
theorem ownerInv_afterTest {q : Request} (hcls : cfg.cls = .futexQueue)
    (h : ∀ side, Quiet cfg side s) :
    OwnerInv cfg s (cfg.afterTest q .ok (s.shared.mem .count)) := by
  unfold afterTest
  rw [if_neg (by simp)]
  cases q with
  | qsize => exact ⟨h, by simp⟩
  | put data o =>
      simp only [hcls]
      split_ifs with h1 h2
      · exact ⟨(h _).clear h1, by simp⟩
      · exact ⟨h, by simp⟩
      · exact ⟨h, h1⟩
  | get o =>
      simp only [hcls]
      split_ifs with h1 h2
      · exact ⟨(h _).clear h1, by simp⟩
      · exact ⟨h, by simp⟩
      · exact ⟨h, h1⟩

variable (cfg) [DecidableEq Tid]

/-- The invariant of a futex queue. -/
structure WakeInv (s : State Tid QueuePc (Shared Tid Pid Side Loc)) : Prop where
  base : BaseInv cfg proc s
  captured_le : ∀ t p side e, s.pc t = some p → p.captured = some (side, e) →
    e ≤ s.shared.word side
  recoverable : s.shared.mutex ≠ .notRecoverable
  free : s.shared.mutex = .unlocked → ∀ side, Quiet cfg side s
  owner : ∀ t p, s.pc t = some p → p.own ≠ .none → OwnerInv cfg s p

variable {cfg proc} {sh : Shared Tid Pid Side Loc} {t : Tid} {p p' : QueuePc}

/-- A thread that captures nothing new keeps a side clear, if its word stays. -/
theorem Clear.move {side : Side} (h : Clear side s) (hp : s.pc t = some p)
    (hcap : ∀ x, p'.captured = some x → p.captured = some x)
    (hword : sh.word side = s.shared.word side) :
    Clear side ⟨Function.update s.pc t (some p'), sh⟩ := by
  intro u q e hq hc
  rw [hword]
  by_cases hu : u = t
  · subst hu
    obtain rfl : p' = q := by simpa using hq
    exact h u p e hp (hcap _ hc)
  · exact h u q e (by simpa [hu] using hq) hc

/-- The same for a quiet side, if the memory stays too. -/
theorem Quiet.move {side : Side} (h : Quiet cfg side s) (hp : s.pc t = some p)
    (hcap : ∀ x, p'.captured = some x → p.captured = some x)
    (hword : sh.word side = s.shared.word side) (hmem : sh.mem = s.shared.mem) :
    Quiet cfg side ⟨Function.update s.pc t (some p'), sh⟩ := by
  intro u q e hq hc heq
  rw [hword] at heq
  rw [hmem]
  by_cases hu : u = t
  · subst hu
    obtain rfl : p' = q := by simpa using hq
    exact h u p e hp (hcap _ hc) heq
  · exact h u q e (by simpa [hu] using hq) hc heq

/-- An increment clears its side. -/
theorem WakeInv.clear_add {side : Side} (h : WakeInv cfg proc s) (hp : s.pc t = some p)
    (hcap : ∀ x, p'.captured = some x → p.captured = some x)
    (hword : sh.word side = s.shared.word side + 1) :
    Clear side ⟨Function.update s.pc t (some p'), sh⟩ := by
  intro u q e hq hc
  rw [hword]
  by_cases hu : u = t
  · subst hu
    obtain rfl : p' = q := by simpa using hq
    have := h.captured_le u p side e hp (hcap _ hc)
    omega
  · have := h.captured_le u q side e (by simpa [hu] using hq) hc
    omega

/-- What holds for an owner survives a step of another thread. -/
theorem OwnerInv.move {q : QueuePc} (h : OwnerInv cfg s q) (hp : s.pc t = some p)
    (hcap : ∀ x, p'.captured = some x → p.captured = some x)
    (hword : sh.word = s.shared.word) (hmem : sh.mem = s.shared.mem) :
    OwnerInv cfg ⟨Function.update s.pc t (some p'), sh⟩ q := by
  have hq : (∀ side, Quiet cfg side s) →
      ∀ side, Quiet cfg side ⟨Function.update s.pc t (some p'), sh⟩ :=
    fun hall side => (hall side).move hp hcap (by rw [hword]) hmem
  have hc : ∀ side, Clear side s → Clear side ⟨Function.update s.pc t (some p'), sh⟩ :=
    fun side hs => hs.move hp hcap (by rw [hword])
  cases q with
  | recovering site q p => simpa only [OwnerInv, hmem] using h
  | makeConsistent site q => trivial
  | unlockBad site q rc => exact h
  | announce site q k =>
      cases k with
      | addFull => trivial
      | addEmpty => exact hc _ h
      | wakeFull => exact hq h
      | wakeEmpty => exact hq h
  | ring q p => exact ⟨hc _ h.1, h.2⟩
  | bump q rc data => exact ⟨hc _ h.1, h.2⟩
  | test q p => exact ⟨hq h.1, by simpa only [hmem] using h.2⟩
  | futexLoad q => exact ⟨hq h.1, by simpa only [hmem] using h.2⟩
  | finish out o => exact ⟨hq h.1, h.2⟩
  | _ => exact hq h

variable {e r : QueueAnswer Tid}

/-- A quiet state stays quiet under a step that changes neither words nor memory and
captures nothing. -/
theorem quiet_next (hquiet : ∀ side, Quiet cfg side s) (hp : s.pc t = some p)
    (hload : ∀ q, p ≠ .futexLoad q) (hword : sh.word = s.shared.word)
    (hmem : sh.mem = s.shared.mem) (side : Side) :
    Quiet cfg side ⟨Function.update s.pc t (some (cfg.next p r)), sh⟩ :=
  (hquiet side).move hp (fun _ hx => cfg.captured_next hload hx) (by rw [hword]) hmem

/-- A futex wait happens without the mutex. -/
theorem own_none_of_futex {w : WaitFn} (h : w.cls = cfg.cls) (hcls : cfg.cls = .futexQueue) :
    w.own = .none := by
  cases w with
  | cond => exact absurd (h.trans hcls) (by simp [WaitFn.cls])
  | futex c => rfl

theorem ownAfter_none_of_futex {w : WaitFn} {rc : Rc} (h : w.cls = cfg.cls)
    (hcls : cfg.cls = .futexQueue) : w.ownAfter rc = .none := by
  cases w with
  | cond => exact absurd (h.trans hcls) (by simp [WaitFn.cls])
  | futex c => rfl

variable [DecidableEq Pid]

/-- **The owner's own step.** -/
theorem WakeInv.owner_next (hv : cfg.view.Valid) (hcls : cfg.cls = .futexQueue)
    (h : WakeInv cfg proc s) (hp : s.pc t = some p)
    (hr : perform proc t p.act e s.shared = some (r, sh)) (hown : (cfg.next p r).own ≠ .none) :
    OwnerInv cfg ⟨Function.update s.pc t (some (cfg.next p r)), sh⟩ (cfg.next p r) := by
  have hdisc := cfg.lockDiscipline p r
  have hfits := h.base.fits t p hp
  -- facts about an action that writes neither to the memory nor to a word
  have hmem : (∀ l v, p.act ≠ .store l v) → sh.mem = s.shared.mem := by
    intro hno
    rcases perform_mem hr with ⟨l, v, ha, -⟩ | ⟨-, hm⟩
    · exact absurd ha (hno l v)
    · exact hm
  have hword : (∀ c, p.act ≠ .wordAdd c) → sh.word = s.shared.word := by
    intro hno
    rcases perform_word hr with ⟨c, ha, -⟩ | ⟨-, hw⟩
    · exact absurd ha (hno c)
    · exact hw
  cases p with
  | lockCall site q =>
      have hm : RobustMutex.lock t s.shared.mutex = some (r.lock, sh.mutex) := perform_mutex hr
      have hans := h.base.lock.answers hp hr rfl
      rcases (show r.lock = .ok ∨ r.lock = .ownerDead ∨ r.lock = .notRecoverable from hans) with
        hl | hl | hl
      · have hfree := h.free (lock_ok (hl ▸ hm)).1
        have hquiet := quiet_next (r := r) hfree hp (by simp) (hword (by simp [QueuePc.act]))
          (hmem (by simp [QueuePc.act]))
        have hnext : cfg.next (.lockCall site q) r = cfg.siteDone site q := by
          simp [next, hl, lockRc]
        rw [hnext] at hquiet ⊢
        exact ownerInv_siteDone hquiet
      · have hnext : cfg.next (.lockCall site q) r =
            .recovering site q (posixipcQueueRecover cfg.view) := by simp [next, hl, lockRc]
        rw [hnext]
        exact (posixipcQueueRecover_spec hv sh.mem).1
      · refine absurd ?_ hown
        have : cfg.next (.lockCall site q) r =
            cfg.siteFailed site q ⟨.enotrecoverable, by simp⟩ := by simp [next, hl, lockRc]
        rw [this]
        exact cfg.own_siteFailed _ _ _
  | recovering site q prog =>
      have hI := h.owner t _ hp (by simp [QueuePc.own])
      cases prog with
      | ret rc =>
          have hrc : rc = .ok := hI
          simp only [next, hrc, dite_true]
          trivial
      | load l k =>
          obtain ⟨hval, rfl⟩ := perform_load hr
          show (Prog.exec (k r.val) s.shared.mem).1 = .ok
          rw [hval]
          exact hI
      | store l v k =>
          obtain ⟨-, rfl⟩ := Prod.mk.inj (Option.some.inj hr).symm
          exact hI
  | makeConsistent site q =>
      have hl : r.lock = .ok := h.base.lock.answers hp hr rfl
      have hnext : cfg.next (.makeConsistent site q) r = .announce site q .addFull := by
        simp [next, hl, lockRc, firstAnnounce, hcls]
      rw [hnext]
      trivial
  | unlockBad site q rc => exact (h.owner t _ hp (by simp [QueuePc.own])).elim
  | announce site q k =>
      have hI := h.owner t _ hp (by simp [QueuePc.own])
      cases k with
      | addFull =>
          obtain ⟨-, rfl⟩ := Prod.mk.inj (Option.some.inj hr).symm
          exact h.clear_add hp (fun _ hx => cfg.captured_next (by simp) hx) (by simp)
      | addEmpty =>
          obtain ⟨-, rfl⟩ := Prod.mk.inj (Option.some.inj hr).symm
          have hfull : Clear .notFull s := hI
          intro side
          cases side with
          | notFull =>
              exact (hfull.move hp (fun _ hx => cfg.captured_next (by simp) hx)
                (by simp)).quiet
          | notEmpty =>
              exact (h.clear_add hp (fun _ hx => cfg.captured_next (by simp) hx)
                (by simp)).quiet
      | wakeFull =>
          exact quiet_next hI hp (by simp) (hword (by simp [QueuePc.act]))
            (hmem (by simp [QueuePc.act]))
      | wakeEmpty =>
          have hquiet := quiet_next (r := r) hI hp (by simp) (hword (by simp [QueuePc.act]))
            (hmem (by simp [QueuePc.act]))
          exact ownerInv_siteDone hquiet
  | lockGil q rc =>
      simp only [next] at hown ⊢
      split_ifs at hown ⊢ with h1 h2
      · have hI := h.owner t _ hp (by simp [QueuePc.own, h1])
        have hquiet := quiet_next (r := r) hI hp (by simp) (hword (by simp [QueuePc.act]))
          (hmem (by simp [QueuePc.act]))
        simp only [next, h1, if_true] at hquiet
        exact ⟨hquiet, Or.inl rfl⟩
      · exact absurd rfl hown
      · exact absurd rfl hown
  | test q prog =>
      obtain ⟨hI, hprog⟩ := h.owner t _ hp (by simp [QueuePc.own])
      rcases hprog with rfl | rfl
      · rw [posixipcQueueQsize_eq hv] at hp hr hown ⊢
        obtain ⟨hval, rfl⟩ := perform_load hr
        refine ⟨quiet_next hI hp (by simp) rfl rfl, Or.inr ?_⟩
        rw [hval]
      · obtain ⟨-, rfl⟩ := Prod.mk.inj (Option.some.inj hr).symm
        exact ownerInv_afterTest hcls (quiet_next (r := r) hI hp (by simp) rfl rfl)
  | ring q prog =>
      obtain ⟨hI, hq⟩ := h.owner t _ hp (by simp [QueuePc.own])
      have hclear : Clear q.waitSide
          ⟨Function.update s.pc t (some (cfg.next (.ring q prog) r)), sh⟩ := by
        refine hI.move hp (fun _ hx => cfg.captured_next (by simp) hx) ?_
        rw [hword (by cases prog <;> simp [QueuePc.act])]
      cases prog with
      | ret x =>
          simp only [next, hcls] at hclear ⊢
          exact ⟨hclear, hq⟩
      | load l k => exact ⟨hclear, hq⟩
      | store l v k => exact ⟨hclear, hq⟩
  | bump q rc data =>
      obtain ⟨hI, hq⟩ := h.owner t _ hp (by simp [QueuePc.own])
      obtain ⟨-, rfl⟩ := Prod.mk.inj (Option.some.inj hr).symm
      intro side
      by_cases hside : side = q.wakeSide
      · subst hside
        exact (h.clear_add hp (fun _ hx => cfg.captured_next (by simp) hx) (by simp)).quiet
      · have hwait : side = q.waitSide := by
          cases q <;> cases side <;> simp_all [Request.wakeSide, Request.waitSide]
        subst hwait
        exact (hI.move hp (fun _ hx => cfg.captured_next (by simp) hx)
          (by simp [hside])).quiet
  | futexLoad q =>
      obtain ⟨hI, hnot⟩ := h.owner t _ hp (by simp [QueuePc.own])
      obtain ⟨rfl, rfl⟩ := Prod.mk.inj (Option.some.inj hr).symm
      intro side u x c hx hc heq
      by_cases hu : u = t
      · -- the capture is current, and the owner has just seen that it cannot proceed
        subst hu
        obtain rfl : _ = x := by simpa using hx
        obtain ⟨rfl, -⟩ : q.waitSide = side ∧ _ := by simpa [next, QueuePc.captured] using hc
        exact hnot
      · exact hI side u x c (by simpa [hu] using hx) hc heq
  | unlockOp q rc data =>
      simp only [next] at hown
      split_ifs at hown <;> exact absurd rfl hown
  | finish out o => exact absurd rfl hown
  | futexUnlock q c =>
      have hl : r.lock = .ok := h.base.lock.answers hp hr rfl
      simp only [next, hl, if_true] at hown
      exact absurd rfl hown
  | reacquire q user res => exact absurd (hfits.symm.trans hcls) (by simp)
  | waitEnter q w => exact absurd (hdisc.trans (own_none_of_futex hfits hcls)) hown
  | slice q w user => exact absurd (hdisc.trans (own_none_of_futex hfits hcls)) hown
  | drop q w user limit => exact absurd (hdisc.trans (own_none_of_futex hfits hcls)) hown
  | check q w user => exact absurd (hdisc.trans (own_none_of_futex hfits hcls)) hown
  | gil q w user rc => exact absurd (hdisc.trans (ownAfter_none_of_futex hfits hcls)) hown
  | back q w user rc => exact absurd (hdisc.trans (ownAfter_none_of_futex hfits hcls)) hown
  | park q w user limit =>
      cases w with
      | cond => exact absurd (hfits.trans hcls) (by simp [WaitFn.cls])
      | futex c => exact absurd hdisc hown
  | asleep q w user limit =>
      cases w <;> cases limit <;> exact absurd hdisc hown
  | _ => exact absurd hdisc hown

omit [DecidableEq Tid] [DecidableEq Pid] in
/-- The owner that unlocks is consistent and leaves a quiet queue. -/
theorem OwnerInv.of_unlock (h : OwnerInv cfg s p) (hop : p.act.mutexOp = some .unlock)
    (hown : p.own ≠ .none) : p.own = .consistent ∧ ∀ side, Quiet cfg side s := by
  cases p with
  | unlockBad site q rc => exact h.elim
  | unlockOp q rc data => exact ⟨rfl, h⟩
  | futexUnlock q c => exact ⟨rfl, h⟩
  | finish out o =>
      refine ⟨?_, h.1⟩
      cases o with
      | none => exact absurd rfl hown
      | consistent => rfl
      | inconsistent => exact absurd rfl h.2
  | park q w user limit =>
      cases w with
      | cond => exact ⟨rfl, h⟩
      | futex c => exact absurd rfl hown
  | recovering site q p => cases p <;> simp [QueuePc.act, Act.mutexOp] at hop
  | test q p => cases p <;> simp [QueuePc.act, Act.mutexOp] at hop
  | ring q p => cases p <;> simp [QueuePc.act, Act.mutexOp] at hop
  | announce site q k => cases k <;> simp [QueuePc.act, Act.mutexOp] at hop
  | asleep q w user limit =>
      cases w <;> cases limit <;> simp [QueuePc.act, Act.mutexOp] at hop
  | _ => simp [QueuePc.act, Act.mutexOp] at hop

/-- A mutex call touches neither the ring nor the words. -/
theorem perform_of_mutexOp {op : RobustMutex.Op} (hop : p.act.mutexOp = some op)
    (hr : perform proc t p.act e s.shared = some (r, sh)) :
    sh.mem = s.shared.mem ∧ sh.word = s.shared.word := by
  constructor
  · rcases perform_mem hr with ⟨l, v, ha, -⟩ | ⟨-, hm⟩
    · simp [ha, Act.mutexOp] at hop
    · exact hm
  · rcases perform_word hr with ⟨c, ha, -⟩ | ⟨-, hw⟩
    · simp [ha, Act.mutexOp] at hop
    · exact hw

omit [DecidableEq Pid] in
/-- The view that a live thread has of the mutex. -/
theorem WakeInv.own_eq (h : WakeInv cfg proc s) (hp : s.pc t = some p) :
    s.shared.mutex.own t = p.own := by
  have ht := h.base.lock t
  rwa [hp] at ht

/-- Words only grow. -/
theorem word_le (hr : perform proc t p.act e s.shared = some (r, sh)) (side : Side) :
    s.shared.word side ≤ sh.word side := by
  rcases perform_word hr with ⟨c, -, hw⟩ | ⟨-, hw⟩
  · rw [hw]
    by_cases hside : side = c
    · subst hside
      simp
    · simp [hside]
  · rw [hw]

/-- **Step lemma.** -/
theorem WakeInv.step (hv : cfg.view.Valid) (hcls : cfg.cls = .futexQueue)
    (h : WakeInv cfg proc s) (hp : s.pc t = some p)
    (hr : perform proc t p.act e s.shared = some (r, sh)) :
    WakeInv cfg proc ⟨Function.update s.pc t (some (cfg.next p r)), sh⟩ := by
  have hm := perform_mutex hr
  have hown := h.own_eq hp
  -- a thread without the mutex changes nothing that the invariant speaks about
  have hframe : p.own = .none → (∀ q, p ≠ .futexLoad q) ∧ sh.mem = s.shared.mem ∧
      sh.word = s.shared.word := by
    intro hnone
    refine ⟨?_, perform_of_own_none hnone hr⟩
    rintro q rfl
    exact absurd hnone (by simp [QueuePc.own])
  constructor
  · exact h.base.step hp hr
  · intro u q side c hq hc
    by_cases hu : u = t
    · subst hu
      obtain rfl : cfg.next p r = q := by simpa using hq
      by_cases hload : ∃ q, p = .futexLoad q
      · obtain ⟨q, rfl⟩ := hload
        obtain ⟨rfl, rfl⟩ := Prod.mk.inj (Option.some.inj hr).symm
        obtain ⟨rfl, rfl⟩ : q.waitSide = side ∧ _ = c := by
          simpa [next, QueuePc.captured] using hc
        exact le_rfl
      · have hcap := cfg.captured_next (fun q hq => hload ⟨q, hq⟩) hc
        exact (h.captured_le u p side c hp hcap).trans (word_le hr side)
    · exact (h.captured_le u q side c (by simpa [hu] using hq) hc).trans (word_le hr side)
  · intro hbad
    have hbad' : sh.mutex = .notRecoverable := hbad
    cases hop : p.act.mutexOp with
    | none =>
        simp only [hop] at hm
        exact h.recoverable (hm.symm.trans hbad')
    | some op =>
        simp only [hop, hbad'] at hm
        obtain ⟨rfl, hinc⟩ := apply_notRecoverable hm h.recoverable
        have hpown : p.own = .inconsistent := by rw [← hown, own_eq_inconsistent, hinc]
        have hcon := ((h.owner t p hp (by simp [hpown])).of_unlock hop (by simp [hpown])).1
        rw [hpown] at hcon
        exact absurd hcon (by simp)
  · intro hfree side
    have hfree' : sh.mutex = .unlocked := hfree
    by_cases hun : s.shared.mutex = .unlocked
    · have hnone : p.own = .none := by rw [← hown, hun]; rfl
      obtain ⟨hload, hmem, hword⟩ := hframe hnone
      exact quiet_next (h.free hun) hp hload hword hmem side
    · cases hop : p.act.mutexOp with
      | none =>
          simp only [hop] at hm
          exact absurd (hm.symm.trans hfree') hun
      | some op =>
          simp only [hop, hfree'] at hm
          obtain ⟨rfl, hlocked⟩ := apply_unlocked hm hun
          have hpown : p.own = .consistent := by rw [← hown, own_eq_consistent, hlocked]
          obtain ⟨-, hquiet⟩ := (h.owner t p hp (by simp [hpown])).of_unlock hop (by simp [hpown])
          obtain ⟨hmem, hword⟩ := perform_of_mutexOp hop hr
          refine quiet_next hquiet hp ?_ hword hmem side
          rintro q rfl
          simp [QueuePc.act, Act.mutexOp] at hop
  · intro u q hq hqown
    by_cases hu : u = t
    · subst hu
      obtain rfl : cfg.next p r = q := by simpa using hq
      exact h.owner_next hv hcls hp hr hqown
    · have hq' : s.pc u = some q := by simpa [hu] using hq
      have hnone : p.own = .none := by
        by_contra hp'
        exact hu (h.base.lock.unique hq' hp hqown hp')
      obtain ⟨hload, hmem, hword⟩ := hframe hnone
      exact (h.owner u q hq' hqown).move hp (fun _ hx => cfg.captured_next hload hx) hword hmem

/-- Fewer threads, fewer waiters. -/
theorem Quiet.die {side : Side} (h : Quiet cfg side s) :
    Quiet cfg side ⟨Function.update s.pc t none, OsWorld.die proc t s.shared⟩ := by
  intro u q c hq
  by_cases hu : u = t
  · subst hu
    simp at hq
  · exact h u q c (by simpa [hu] using hq)

theorem Clear.die {side : Side} (h : Clear side s) :
    Clear side ⟨Function.update s.pc t none, OsWorld.die proc t s.shared⟩ := by
  intro u q c hq
  by_cases hu : u = t
  · subst hu
    simp at hq
  · exact h u q c (by simpa [hu] using hq)

theorem OwnerInv.die {q : QueuePc} (h : OwnerInv cfg s q) :
    OwnerInv cfg ⟨Function.update s.pc t none, OsWorld.die proc t s.shared⟩ q := by
  cases q with
  | announce site q k =>
      cases k with
      | addFull => trivial
      | addEmpty => exact Clear.die h
      | wakeFull => exact fun side => (h side).die
      | wakeEmpty => exact fun side => (h side).die
  | recovering site q p => exact h
  | makeConsistent site q => trivial
  | unlockBad site q rc => exact h
  | ring q p => exact ⟨h.1.die, h.2⟩
  | bump q rc data => exact ⟨h.1.die, h.2⟩
  | test q p => exact ⟨fun side => (h.1 side).die, h.2⟩
  | futexLoad q => exact ⟨fun side => (h.1 side).die, h.2⟩
  | finish out o => exact ⟨fun side => (h.1 side).die, h.2⟩
  | _ => exact fun side => (h side).die

/-- A death keeps the invariant: the mutex of a dead owner is not free. -/
theorem WakeInv.die (h : WakeInv cfg proc s) :
    WakeInv cfg proc ⟨Function.update s.pc t none, OsWorld.die proc t s.shared⟩ := by
  constructor
  · exact h.base.die
  · intro u q side c hq hc
    by_cases hu : u = t
    · subst hu
      simp at hq
    · exact h.captured_le u q side c (by simpa [hu] using hq) hc
  · intro hbad
    have hbad' : RobustMutex.die t s.shared.mutex = .notRecoverable := hbad
    exact h.recoverable (die_notRecoverable hbad')
  · intro hfree side
    have hfree' : RobustMutex.die t s.shared.mutex = .unlocked := hfree
    exact (h.free (die_unlocked hfree') side).die
  · intro u q hq hqown
    by_cases hu : u = t
    · subst hu
      simp at hq
    · exact (h.owner u q (by simpa [hu] using hq) hqown).die

/-- The invariant of every reachable state. -/
theorem wakeInv_reach (hv : cfg.view.Valid) (hcls : cfg.cls = .futexQueue) (m : Mem)
    (hreach : (cfg.machine proc).Reach (cfg.start Tid Pid m) s) : WakeInv cfg proc s := by
  refine Machine.Run.invariant ?_ ?_ ?_ hreach
  · have hpc : ∀ t p, (cfg.start Tid Pid m).pc t = some p → p = .away := by
      intro t p hp
      simpa [start] using hp.symm
    have hquiet : ∀ side, Quiet cfg side (cfg.start Tid Pid m) := by
      intro side t p c hp hc
      rw [hpc t p hp] at hc
      simp [QueuePc.captured] at hc
    refine ⟨cfg.baseInv_start proc m, ?_, by simp [start], fun _ => hquiet, ?_⟩
    · intro t p side c hp hc
      rw [hpc t p hp] at hc
      simp [QueuePc.captured] at hc
    · intro t p hp hown
      rw [hpc t p hp] at hown
      exact absurd rfl hown
  · intro s t p e r sh hI _ hp hr
    exact hI.step hv hcls hp hr
  · intro s t p hI _ _
    exact hI.die

end QueueConfig

/-! ## No lost wake-up -/

section NoLostWakeUp

variable {Tid Pid : Type} [DecidableEq Tid] [DecidableEq Pid]

/-- **No lost wake-up.**  In every state that any number of threads of any processes reach
on one mapped `FutexQueue`, with deaths at any step: if a thread is in its wait with a
captured word that is current (fewer than `2 ^ 32` increments since the capture) although
it could proceed, then `put_lock` is owned by a live thread or its owner has died. -/
theorem futexQueue_no_lost_wakeup {cacheline nbytes depth itemSize : ℕ} {bytes : Option ℕ}
    {fv : FutexqView} (hmap : posixipcFutexqMap cacheline bytes nbytes depth itemSize = .ok fv)
    (proc : Tid → Pid) (m : Mem) {s : State Tid QueuePc (Shared Tid Pid Side Loc)}
    (hreach : (QueueConfig.machine ⟨.futexQueue, fv.view, .monotonic⟩ proc).Reach
      (QueueConfig.start ⟨.futexQueue, fv.view, .monotonic⟩ Tid Pid m) s)
    {t : Tid} {p : QueuePc} {side : Side} {e : ℕ} (hp : s.pc t = some p)
    (hcap : p.captured = some (side, e)) (hfew : s.shared.word side < e + 2 ^ 32)
    (hcur : u32 e = u32 (s.shared.word side)) (hready : Ready fv.view side s.shared.mem) :
    (∃ u, s.pc u ≠ none ∧ s.shared.mutex.OwnedBy u) ∨ s.shared.mutex = .ownerDead := by
  obtain ⟨hv, -, -⟩ := posixipcFutexqMap_valid hmap
  have hI : QueueConfig.WakeInv ⟨.futexQueue, fv.view, .monotonic⟩ proc s :=
    QueueConfig.wakeInv_reach hv rfl m hreach
  have hle := hI.captured_le t p side e hp hcap
  have heq : e = s.shared.word side := by
    unfold u32 at hcur
    omega
  have hlive : ∀ u, s.shared.mutex.own u ≠ .none → s.pc u ≠ none := by
    intro u hown hnone
    have hu := hI.base.lock u
    rw [hnone] at hu
    exact hown hu
  cases hm : s.shared.mutex with
  | unlocked => exact absurd hready (hI.free hm side t p e hp hcap heq)
  | locked u =>
      exact Or.inl ⟨u, hlive u (by simp [hm, RobustMutex.State.own]), Or.inl rfl⟩
  | ownerDead => exact Or.inr rfl
  | inconsistent u =>
      exact Or.inl ⟨u, hlive u (by simp [hm, RobustMutex.State.own]), Or.inr rfl⟩
  | notRecoverable => exact absurd hm hI.recoverable

end NoLostWakeUp

/-- `false` sleeps in `get`; `true` has stored an item and not yet incremented the word. -/
def pendingRun : List (Label Bool (QueueAnswer Bool)) :=
  request false (.get .default) ++ steps false 11 ++
    request true (.put (fun _ => 7) .default) ++ steps true 14

/-- The state that `pendingRun` reaches. -/
def pendingState : State Bool QueuePc (Shared Bool Unit Side Loc) :=
  ((smallFutexQueue.machine fun _ => ()).run
    (smallFutexQueue.start Bool Unit fun _ => 0) pendingRun).getD
    (smallFutexQueue.start Bool Unit fun _ => 0)

/-- In that state the sleeper's captured word is current and `count` is `1`; `put_lock` is
owned. -/
theorem futexQueue_no_lost_wakeup_pending :
    (∃ p, pendingState.pc false = some p ∧ p.captured = some (.notEmpty, 0)) ∧
      pendingState.shared.word .notEmpty = 0 ∧ pendingState.shared.mem .count = 1 ∧
      ((∃ u, pendingState.pc u ≠ none ∧ pendingState.shared.mutex.OwnedBy u) ∨
        pendingState.shared.mutex = .ownerDead) := by
  have hmap : posixipcFutexqMap 64 (some 0) 256 1 1 =
      .ok ⟨some 0, some 4, smallFutexQueue.view⟩ := by decide
  have hreach : (smallFutexQueue.machine fun _ => ()).Reach
      (smallFutexQueue.start Bool Unit fun _ => 0) pendingState :=
    Machine.Run.of_isSome (fun _ _ _ => trivial) rfl
  have hword : pendingState.shared.word .notEmpty = 0 := rfl
  have hcount : pendingState.shared.mem .count = 1 := rfl
  obtain ⟨p, hp, hcap⟩ :
      ∃ p, pendingState.pc false = some p ∧ p.captured = some (.notEmpty, 0) := ⟨_, rfl, rfl⟩
  refine ⟨⟨p, hp, hcap⟩, hword, hcount, ?_⟩
  refine futexQueue_no_lost_wakeup hmap (fun _ => ()) (fun _ => 0) hreach hp hcap ?_ ?_ ?_
  · rw [hword]
    decide
  · rw [hword]
  · show 0 < pendingState.shared.mem .count
    rw [hcount]
    decide

end PosixIpc
