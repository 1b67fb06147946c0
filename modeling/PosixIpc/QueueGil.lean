/-
# The GIL and the queue lock

A thread that waits for `put_lock` while it holds the GIL, and another thread of its
process that owns `put_lock` and waits for the GIL, stop each other for ever
(`GilDeadlock`).  `Queue` drops the GIL around every lock call.  `fq_wait_word` takes
`put_lock` again with the GIL held, and a `FutexQueue` call in its first lock section owns
`put_lock` before it has the GIL back.

`gilDeadlock_free` : the deadlock needs such a re-lock to start while another thread of the
process is in its first lock section.
-/
import PosixIpc.QueueMachine

namespace PosixIpc

open StoreProg RobustMutex OsWorld ThreadMachine

/-- Between `Py_BEGIN_ALLOW_THREADS` and the end of `Py_END_ALLOW_THREADS` around the first
lock of a call. -/
def QueuePc.inFirstLock : QueuePc → Prop
  | .lockCall site _ => site = .first
  | .recovering site _ _ => site = .first
  | .makeConsistent site _ => site = .first
  | .unlockBad site _ _ => site = .first
  | .announce site _ _ => site = .first
  | .lockGil _ _ => True
  | _ => False

/-- At the lock call of `fq_wait_word`. -/
def QueuePc.atRelock : QueuePc → Prop
  | .lockCall site _ => site ≠ .first
  | _ => False

namespace QueueConfig

variable (cfg : QueueConfig) {Tid Pid : Type} [DecidableEq Tid] [DecidableEq Pid]
  (proc : Tid → Pid)

/-- `t` is blocked on `put_lock` with the GIL, and `u` of the same process owns `put_lock`
and waits for the GIL. -/
structure GilDeadlock (s : State Tid QueuePc (Shared Tid Pid Side Loc)) (t u : Tid) : Prop where
  same : proc t = proc u
  blocked : ∃ p, s.pc t = some p ∧ p.act = .mutex .lock ∧ RobustMutex.lock t s.shared.mutex = none
  holds : s.shared.gil (proc t) = some t
  owner : s.shared.mutex.OwnedBy u
  waits : ∃ p, s.pc u = some p ∧ p.act = .takeGil

/-- No thread starts the re-lock of `fq_wait_word` while another thread of its process is in
its first lock section.  A `Queue` has no such re-lock. -/
def RelockAlone (s : State Tid QueuePc (Shared Tid Pid Side Loc))
    (l : Label Tid (QueueAnswer Tid)) : Prop :=
  cfg.cls = .futexQueue → ∀ t e s', l = .act t e → (cfg.machine proc).step s l = some s' →
    (∃ p, s'.pc t = some p ∧ p.atRelock) →
    ∀ u q, u ≠ t → proc u = proc t → s.pc u = some q → ¬ q.inFirstLock

/-- A program point of the first lock section does not hold the GIL. -/
theorem inFirstLock_holdsGil {p : QueuePc} (h : p.inFirstLock) : p.holdsGil = false := by
  cases p with
  | lockGil q rc => rfl
  | lockCall site q => rw [show site = .first from h]; rfl
  | recovering site q p => rw [show site = .first from h]; rfl
  | makeConsistent site q => rw [show site = .first from h]; rfl
  | unlockBad site q rc => rw [show site = .first from h]; rfl
  | announce site q k => rw [show site = .first from h]; rfl
  | _ => exact absurd h (by simp [QueuePc.inFirstLock])

/-- A site without the GIL is the first one. -/
theorem site_eq_first {site : LockSite} (h : site.holdsGil = false) : site = .first := by
  cases site with
  | first => rfl
  | _ => exact absurd h (by simp [LockSite.holdsGil])

omit [DecidableEq Tid] in
/-- The GIL is lost by dropping it only. -/
theorem holdsGil_of_next {p : QueuePc} {r : QueueAnswer Tid}
    (h : (cfg.next p r).holdsGil = false) :
    (p.holdsGil = false ∧ p.act ≠ .takeGil) ∨ p.act = .dropGil := by
  have hd := cfg.gilDiscipline p r
  cases ha : p.act with
  | takeGil =>
      simp only [ha, h] at hd
      exact absurd hd.2 (by simp)
  | dropGil => exact Or.inr rfl
  | _ =>
      simp only [ha, h] at hd
      exact Or.inl ⟨hd.symm, by simp⟩

omit [DecidableEq Tid] in
/-- The first lock section is entered from `beginLock` only. -/
theorem inFirstLock_next {p : QueuePc} {r : QueueAnswer Tid} (h : (cfg.next p r).inFirstLock) :
    p.inFirstLock ∨ ∃ q, p = .beginLock q := by
  rcases cfg.holdsGil_of_next (inFirstLock_holdsGil h) with ⟨hg, hne⟩ | hdrop
  · left
    cases p with
    | lockCall site q => exact site_eq_first hg
    | recovering site q p => exact site_eq_first hg
    | makeConsistent site q => exact site_eq_first hg
    | unlockBad site q rc => exact site_eq_first hg
    | announce site q k => exact site_eq_first hg
    | away => exact absurd rfl hne
    | lockGil q rc => trivial
    | gil q w user rc => exact absurd rfl hne
    | park q w user limit =>
        cases w <;> simp only [next] at h <;> split_ifs at h <;>
          exact absurd h (by simp [QueuePc.inFirstLock])
    | asleep q w user limit => cases w <;> exact absurd h (by simp [next, QueuePc.inFirstLock])
    | reacquire q user res =>
        simp only [next] at h
        split_ifs at h <;> exact absurd h (by simp [QueuePc.inFirstLock])
    | _ => exact absurd hg (by simp [QueuePc.holdsGil])
  · rcases QueuePc.act_eq_dropGil hdrop with rfl | ⟨q, rfl⟩ | ⟨q, w, user, limit, rfl⟩
    · exact absurd h (by simp [next, QueuePc.inFirstLock])
    · exact Or.inr ⟨q, rfl⟩
    · exact absurd h (by simp [next, QueuePc.inFirstLock])

/-- While one thread re-locks, no other thread of its process is in its first lock
section. -/
structure RelockInv (s : State Tid QueuePc (Shared Tid Pid Side Loc)) : Prop where
  base : BaseInv cfg proc s
  alone : ∀ t u p q, s.pc t = some p → p.atRelock → u ≠ t → proc u = proc t →
    s.pc u = some q → ¬ q.inFirstLock

/-- Only a `FutexQueue` re-locks. -/
theorem cls_of_atRelock {c : QueueClass} {p : QueuePc} (hf : p.fits c) (h : p.atRelock) :
    c = .futexQueue := by
  cases p with
  | lockCall site q =>
      cases site with
      | first => exact absurd rfl h
      | condWake => exact absurd rfl hf.2
      | relock rc => exact hf.1
  | _ => exact absurd h (by simp [QueuePc.atRelock])

theorem atRelock_holdsGil {p : QueuePc} (h : p.atRelock) : p.holdsGil = true := by
  cases p with
  | lockCall site q =>
      cases site with
      | first => exact absurd rfl h
      | _ => rfl
  | _ => exact absurd h (by simp [QueuePc.atRelock])

variable {cfg proc}

/-- **Step lemma.** -/
theorem RelockInv.step {s : State Tid QueuePc (Shared Tid Pid Side Loc)} {t : Tid} {p : QueuePc}
    {e r : QueueAnswer Tid} {sh : Shared Tid Pid Side Loc} (h : RelockInv cfg proc s)
    (hok : RelockAlone cfg proc s (.act t e)) (hp : s.pc t = some p)
    (hr : perform proc t p.act e s.shared = some (r, sh)) :
    RelockInv cfg proc ⟨Function.update s.pc t (some (cfg.next p r)), sh⟩ := by
  have hbase := h.base.step hp hr
  have hstep : (cfg.machine proc).step s (.act t e) =
      some ⟨Function.update s.pc t (some (cfg.next p r)), sh⟩ := by
    simp only [Machine.step, hp]
    rw [show (cfg.machine proc).perform t ((cfg.machine proc).act p) e s.shared =
      some (r, sh) from hr]
    rfl
  refine ⟨hbase, ?_⟩
  intro a b pa pb ha hrel hab hproc hb hfirst
  have hcls := cls_of_atRelock (hbase.fits a pa ha) hrel
  by_cases hat : a = t
  · subst hat
    have hb' : s.pc b = some pb := by simpa [hab] using hb
    exact hok hcls a e _ rfl hstep ⟨pa, ha, hrel⟩ b pb hab hproc hb' hfirst
  · have ha' : s.pc a = some pa := by simpa [hat] using ha
    by_cases hbt : b = t
    · subst hbt
      obtain rfl : cfg.next p r = pb := by simpa using hb
      rcases cfg.inFirstLock_next hfirst with hin | ⟨q, rfl⟩
      · exact h.alone a b pa p ha' hrel hab hproc hp hin
      · -- both would hold the GIL of their process
        have h1 : s.shared.gil (proc a) = some a := (h.base.gil a).mpr (by
          rw [ha']
          exact atRelock_holdsGil hrel)
        have h2 : s.shared.gil (proc b) = some b := (h.base.gil b).mpr (by
          rw [hp]
          rfl)
        rw [hproc, h1] at h2
        exact hab (by simpa using h2.symm)
    · have hb' : s.pc b = some pb := by simpa [hbt] using hb
      exact h.alone a b pa pb ha' hrel hab hproc hb' hfirst

theorem RelockInv.die {s : State Tid QueuePc (Shared Tid Pid Side Loc)} {t : Tid}
    (h : RelockInv cfg proc s) :
    RelockInv cfg proc ⟨Function.update s.pc t none, OsWorld.die proc t s.shared⟩ := by
  refine ⟨h.base.die, ?_⟩
  intro a b pa pb ha hrel hab hproc hb hfirst
  by_cases hat : a = t
  · subst hat
    simp at ha
  · by_cases hbt : b = t
    · subst hbt
      simp at hb
    · exact h.alone a b pa pb (by simpa [hat] using ha) hrel hab hproc
        (by simpa [hbt] using hb) hfirst

omit [DecidableEq Pid] in
/-- The invariant excludes the deadlock. -/
theorem RelockInv.not_deadlock {s : State Tid QueuePc (Shared Tid Pid Side Loc)}
    (h : RelockInv cfg proc s) (t u : Tid) : ¬ GilDeadlock proc s t u := by
  rintro ⟨hsame, ⟨p, hp, hact, hblock⟩, hgil, hown, ⟨q, hq, htake⟩⟩
  have hholds : p.holdsGil = true := by
    have := (h.base.gil t).mp hgil
    rwa [hp] at this
  -- the owner is not the blocked thread, which would get `EDEADLK`
  have hne : u ≠ t := by
    rintro rfl
    rcases hown with hm | hm <;> simp [hm, RobustMutex.lock] at hblock
  have hrel : p.atRelock := by
    rcases QueuePc.act_eq_lock hact with ⟨site, q, rfl⟩ | ⟨q, user, res, rfl⟩
    · intro hsite
      rw [hsite] at hholds
      exact absurd hholds (by simp [QueuePc.holdsGil, LockSite.holdsGil])
    · exact absurd hholds (by simp [QueuePc.holdsGil])
  have hcls := cls_of_atRelock (h.base.fits t p hp) hrel
  have hq' := h.base.own_of_owned hq hown
  rcases QueuePc.act_eq_takeGil htake with rfl | ⟨r, rc, rfl⟩ | ⟨r, w, user, rc, rfl⟩
  · exact absurd rfl hq'
  · exact h.alone t u p _ hp hrel hne hsame.symm hq trivial
  · -- back from a condition wait, which a `FutexQueue` does not have
    have hw : w.cls = .futexQueue := (h.base.fits u _ hq).trans hcls
    cases w with
    | cond => exact absurd hw (by simp [WaitFn.cls])
    | futex e => exact absurd rfl hq'

variable (cfg proc)

/-- **No deadlock on the GIL.**  In every run of any number of threads of any processes on
one `Queue`, and in every run on one `FutexQueue` in which no thread starts the re-lock of
`fq_wait_word` while another thread of its process is in its first lock section, no state
has a thread blocked on `put_lock` with the GIL while another one owns `put_lock` and
waits for that GIL. -/
theorem gilDeadlock_free (m : Mem) {s : State Tid QueuePc (Shared Tid Pid Side Loc)}
    (hrun : (cfg.machine proc).Run (RelockAlone cfg proc) (cfg.start Tid Pid m) s) (t u : Tid) :
    ¬ GilDeadlock proc s t u := by
  have hinv : RelockInv cfg proc s := by
    refine Machine.Run.invariant ?_ ?_ ?_ hrun
    · refine ⟨cfg.baseInv_start proc m, ?_⟩
      intro a b pa pb ha hrel
      obtain rfl : QueuePc.away = pa := by simpa [start] using ha
      exact absurd hrel (by simp [QueuePc.atRelock])
    · intro s t p e r sh hI hok hp hr
      exact hI.step hok hp hr
    · intro s t p hI _ _
      exact hI.die
  exact hinv.not_deadlock t u

end QueueConfig

/-! ## The deadlock of two threads on one `FutexQueue` -/

/-- `false` calls `get` on the empty queue, sleeps and is woken; `true` calls `qsize` and
takes `put_lock` before it has the GIL back; `false` takes the GIL and starts to re-lock. -/
def gilDeadlockRun : List (Label Bool (QueueAnswer Bool)) :=
  request false (.get .default) ++ steps false 12 ++ request true .qsize ++ steps true 2 ++
    steps false 2

/-- The state that `gilDeadlockRun` reaches. -/
def gilDeadlockState : State Bool QueuePc (Shared Bool Unit Side Loc) :=
  ((smallFutexQueue.machine fun _ => ()).run
    (smallFutexQueue.start Bool Unit fun _ => 0) gilDeadlockRun).getD
    (smallFutexQueue.start Bool Unit fun _ => 0)

/-- **Two threads on one `FutexQueue` deadlock**: `false` waits for `put_lock` in
`fq_wait_word` with the GIL, `true` owns `put_lock` and waits for the GIL. -/
theorem futexQueue_gil_deadlock :
    (smallFutexQueue.machine fun _ => ()).Reach (smallFutexQueue.start Bool Unit fun _ => 0)
        gilDeadlockState ∧
      QueueConfig.GilDeadlock (fun _ => ()) gilDeadlockState false true := by
  refine ⟨Machine.Run.of_isSome (fun _ _ _ => trivial) rfl, rfl, ⟨_, rfl, rfl, rfl⟩, rfl,
    Or.inl rfl, ⟨_, rfl, rfl⟩⟩

/-- The same calls on a `Queue`: `false` waits for `put_lock` without the GIL. -/
def queueGilRun : List (Label Bool (QueueAnswer Bool)) :=
  request false (.get .default) ++ steps false 10 ++ request true .qsize ++ steps true 2

/-- The state that `queueGilRun` reaches. -/
def queueGilState : State Bool QueuePc (Shared Bool Unit Side Loc) :=
  ((smallQueue.machine fun _ => ()).run (smallQueue.start Bool Unit fun _ => 0)
    queueGilRun).getD (smallQueue.start Bool Unit fun _ => 0)

theorem gilDeadlock_free_queue :
    (∃ p, queueGilState.pc false = some p ∧ p.act = .mutex .lock) ∧
      queueGilState.shared.mutex = .locked true ∧
      ¬ QueueConfig.GilDeadlock (fun _ => ()) queueGilState false true := by
  have hrun : (smallQueue.machine fun _ => ()).Run (smallQueue.RelockAlone fun _ => ())
      (smallQueue.start Bool Unit fun _ => 0) queueGilState :=
    Machine.Run.of_isSome (fun _ _ _ h => absurd h (by decide)) rfl
  exact ⟨⟨_, rfl, rfl⟩, rfl,
    smallQueue.gilDeadlock_free (fun _ => ()) (fun _ => 0) hrun false true⟩

end PosixIpc
