/-
# Who touches the ring of a queue (`py_queue.c`, `py_linux.c`)

`put`, `get` and `qsize` of both classes take `put_lock` before they look at the ring and
give it back on every way out.  The machine here is the one of `QueueMachine`, except that
`pthread_mutex_consistent` may fail at will.

* `QueuePc.Accesses` : the program points at which the ring is read or written;
* `own_of_accesses` : they are points of an owner, and of the recovery if the owner has
  not declared the ring consistent;
* `mending_next` : a recovery comes before every such declaration;
* `queue_lock_discipline` : what follows for all runs.
-/
import PosixIpc.QueueMachine

namespace PosixIpc

open StoreProg RobustMutex OsWorld ThreadMachine

/-! ## A mutex whose `consistent` call may fail -/

section Faulty

variable {Tid Pid : Type} [DecidableEq Tid] [DecidableEq Pid]

/-- An action; the environment may let `pthread_mutex_consistent` fail. -/
def performFaulty (proc : Tid → Pid) (t : Tid) (a : Act Side Loc) (e : QueueAnswer Tid)
    (sh : Shared Tid Pid Side Loc) : Option (QueueAnswer Tid × Shared Tid Pid Side Loc) :=
  match a, e.flag with
  | .mutex .consistent, true => some ({ e with lock := .invalid }, sh)
  | a, _ => perform proc t a e sh

/-- A system call does its work, or `pthread_mutex_consistent` fails. -/
theorem performFaulty_cases {proc : Tid → Pid} {t : Tid} {a : Act Side Loc}
    {e r : QueueAnswer Tid} {sh sh' : Shared Tid Pid Side Loc}
    (h : performFaulty proc t a e sh = some (r, sh')) :
    (a = .mutex .consistent ∧ r.lock = .invalid ∧ sh' = sh) ∨
      perform proc t a e sh = some (r, sh') := by
  unfold performFaulty at h
  split at h
  · obtain ⟨rfl, rfl⟩ := Prod.mk.inj (Option.some.inj h).symm
    exact Or.inl ⟨rfl, rfl, rfl⟩
  · exact Or.inr h

/-- The machine of a queue over such a mutex. -/
def QueueConfig.faultyMachine (cfg : QueueConfig) (proc : Tid → Pid) :
    Machine Tid QueuePc (Act Side Loc) (QueueAnswer Tid) (QueueAnswer Tid)
      (Shared Tid Pid Side Loc) :=
  { cfg.machine proc with perform := performFaulty proc }

end Faulty

/-! ## Program points -/

/-- The next action reads or writes the cell `l` of the ring. -/
def QueuePc.Accesses (p : QueuePc) (l : Loc) : Prop := p.act = .load l ∨ ∃ v, p.act = .store l v

/-- **Only an owner accesses the ring**, and before the ring is consistent only a recovery. -/
theorem QueuePc.own_of_accesses {p : QueuePc} {l : Loc} (h : p.Accesses l) :
    p.own ≠ .none ∧ (p.own = .inconsistent → ∃ site q prog, p = .recovering site q prog) := by
  cases p with
  | recovering site q prog => exact ⟨by simp [QueuePc.own], fun _ => ⟨site, q, prog, rfl⟩⟩
  | test q prog => simp [QueuePc.own]
  | ring q prog => simp [QueuePc.own]
  | announce site q k => cases k <;> simp [QueuePc.Accesses, QueuePc.act] at h
  | park q w user limit => cases w <;> simp [QueuePc.Accesses, QueuePc.act] at h
  | asleep q w user limit =>
      cases w <;> cases limit <;> simp [QueuePc.Accesses, QueuePc.act] at h
  | _ => simp [QueuePc.Accesses, QueuePc.act] at h

/-- The program point that makes the mutex consistent. -/
theorem QueuePc.act_eq_consistent {p : QueuePc} (h : p.act = .mutex .consistent) :
    ∃ site q, p = .makeConsistent site q := by
  cases p with
  | makeConsistent site q => exact ⟨site, q, rfl⟩
  | recovering site q p => cases p <;> simp [QueuePc.act] at h
  | test q p => cases p <;> simp [QueuePc.act] at h
  | ring q p => cases p <;> simp [QueuePc.act] at h
  | announce site q k => cases k <;> simp [QueuePc.act] at h
  | park q w user limit => cases w <;> simp [QueuePc.act] at h
  | asleep q w user limit => cases w <;> cases limit <;> simp [QueuePc.act] at h
  | _ => simp [QueuePc.act] at h

/-- The recovery has come to its end, with success. -/
def QueuePc.recovered : QueuePc → Bool
  | .recovering _ _ (.ret .ok) => true
  | _ => false

/-- A recovery runs `posixipc_queue_recover`, and declaring the ring consistent needs `done`. -/
def QueuePc.Mending (v : View) (done : Prop) : QueuePc → Prop
  | .recovering _ _ prog => Prog.Residual (posixipcQueueRecover v) prog
  | .makeConsistent _ _ => done
  | _ => True

namespace QueueConfig

variable (cfg : QueueConfig) {done : Prop}

/-- The loop mends nothing. -/
theorem mending_afterWait (q : Request) (rc : Rc) (o : Own) :
    (cfg.afterWait q rc o).Mending cfg.view done := by
  unfold afterWait
  split_ifs <;> trivial

/-- A lock site that is done mends nothing. -/
theorem mending_siteDone (site : LockSite) (q : Request) :
    (cfg.siteDone site q).Mending cfg.view done := by
  cases site with
  | first => trivial
  | _ => exact cfg.mending_afterWait _ _ _

/-- A lock site that failed mends nothing. -/
theorem mending_siteFailed (site : LockSite) (q : Request) (rc : Failure) :
    (cfg.siteFailed site q rc).Mending cfg.view done := by
  cases site with
  | first => trivial
  | _ => exact cfg.mending_afterWait _ _ _

/-- A failed recovery mends nothing any more. -/
theorem mending_recoverFailed (site : LockSite) (q : Request) (rc : Failure) :
    (cfg.recoverFailed site q rc).Mending cfg.view done := by
  cases site with
  | condWake => exact cfg.mending_afterWait _ _ _
  | _ => trivial

/-- A wait that took over an inconsistent mutex starts the recovery. -/
theorem mending_waitReturn (q : Request) (w : WaitFn) (rc : Rc) (o : Own) :
    (cfg.waitReturn q w rc o).Mending cfg.view done := by
  cases w with
  | cond =>
      rw [waitReturn]
      split_ifs
      · exact .whole
      · exact cfg.mending_afterWait _ _ _
  | futex e => trivial

/-- The test of the loop mends nothing. -/
theorem mending_afterTest (q : Request) (rc : Rc) (n : ℕ) :
    (cfg.afterTest q rc n).Mending cfg.view done := by
  unfold afterTest
  repeat' split
  all_goals trivial

/-- A wait that starts mends nothing. -/
theorem mending_startWait (q : Request) (w : WaitFn) (reading : Option Timespec) :
    (cfg.startWait q w reading).Mending cfg.view done := by
  unfold startWait
  repeat' split
  all_goals first
    | trivial
    | exact cfg.mending_afterWait _ _ _

/-- **The ring is declared consistent after a recovery only.** -/
theorem mending_next {Tid : Type} {p : QueuePc} (hdone : p.recovered = true → done)
    (h : p.Mending cfg.view done) (r : QueueAnswer Tid) :
    (cfg.next p r).Mending cfg.view done := by
  cases p with
  | lockCall site q =>
      simp only [next]
      split_ifs
      · exact cfg.mending_siteDone _ _
      · exact .whole
      · exact cfg.mending_siteFailed _ _ _
  | recovering site q prog =>
      cases prog with
      | ret rc =>
          simp only [next]
          split_ifs with hrc
          · subst hrc
            exact hdone rfl
          · exact cfg.mending_recoverFailed _ _ _
      | load l k => exact .afterLoad h r.val
      | store l v k => exact .afterStore h
  | makeConsistent site q =>
      simp only [next]
      split_ifs
      · trivial
      · exact cfg.mending_recoverFailed _ _ _
  | unlockBad site q rc => exact cfg.mending_siteFailed _ _ _
  | announce site q k =>
      cases k with
      | wakeEmpty => exact cfg.mending_siteDone _ _
      | _ => trivial
  | test q p =>
      cases p with
      | ret x => exact cfg.mending_afterTest _ _ _
      | _ => trivial
  | ring q p =>
      cases p with
      | ret x =>
          simp only [next]
          split <;> trivial
      | _ => trivial
  | waitEnter q w => exact cfg.mending_startWait _ _ _
  | park q w user limit => cases w <;> simp only [next] <;> split_ifs <;> trivial
  | asleep q w user limit => cases w <;> trivial
  | _ =>
      simp only [next]
      repeat' split
      all_goals first
        | trivial
        | exact cfg.mending_waitReturn _ _ _ _
        | exact cfg.mending_afterWait _ _ _

/-! ## Runs -/

section Runs

variable {Tid Pid : Type} [DecidableEq Tid] [DecidableEq Pid] {cfg} {proc : Tid → Pid}
  {s : State Tid QueuePc (Shared Tid Pid Side Loc)} {sh : Shared Tid Pid Side Loc} {t : Tid}
  {p : QueuePc} {e r : QueueAnswer Tid}

/-- A failed declaration leaves the thread with the inconsistent mutex. -/
theorem lockInv_faulty (h : LockInv QueuePc.own s) (hp : s.pc t = some p)
    (hr : performFaulty proc t p.act e s.shared = some (r, sh)) :
    LockInv QueuePc.own ⟨Function.update s.pc t (some (cfg.next p r)), sh⟩ := by
  rcases performFaulty_cases hr with ⟨ha, hlock, rfl⟩ | hr
  · obtain ⟨site, q, rfl⟩ := QueuePc.act_eq_consistent ha
    have hnext : cfg.next (.makeConsistent site q) r =
        cfg.recoverFailed site q ⟨.einval, by decide⟩ := by
      simp [next, hlock, lockRc]
    have ht := h t
    rw [hp] at ht
    intro u
    by_cases hu : u = t
    · subst hu
      simp only [Function.update_self, Option.elim_some]
      rw [hnext, cfg.own_recoverFailed]
      exact ht
    · simpa [hu] using h u
  · exact h.step cfg.lockDiscipline hp hr

/-- Who owns the mutex, and who recovers. -/
structure LockedInv (cfg : QueueConfig) (done : Prop)
    (s : State Tid QueuePc (Shared Tid Pid Side Loc)) : Prop where
  lock : LockInv QueuePc.own s
  mending : ∀ t p, s.pc t = some p → p.Mending cfg.view done

/-- **Step lemma.** -/
theorem LockedInv.step (h : LockedInv cfg done s) (hdone : p.recovered = true → done)
    (hp : s.pc t = some p) (hr : performFaulty proc t p.act e s.shared = some (r, sh)) :
    LockedInv cfg done ⟨Function.update s.pc t (some (cfg.next p r)), sh⟩ := by
  refine ⟨lockInv_faulty h.lock hp hr, ?_⟩
  intro u p' hp'
  by_cases hu : u = t
  · subst hu
    obtain rfl : cfg.next p r = p' := by simpa using hp'
    exact cfg.mending_next hdone (h.mending u p hp) r
  · exact h.mending u p' (by simpa [hu] using hp')

/-- A death leaves the others where they are. -/
theorem LockedInv.die (h : LockedInv cfg done s) :
    LockedInv cfg done ⟨Function.update s.pc t none, OsWorld.die proc t s.shared⟩ := by
  refine ⟨h.lock.die, ?_⟩
  intro u p' hp'
  by_cases hu : u = t
  · subst hu
    simp at hp'
  · exact h.mending u p' (by simpa [hu] using hp')

/-- The invariant of every reachable state. -/
theorem lockedInv_reach {m : Mem}
    (hreach : (cfg.faultyMachine proc).Reach (cfg.start Tid Pid m) s) : LockedInv cfg True s := by
  refine Machine.Run.invariant ?_ ?_ ?_ hreach
  · refine ⟨(cfg.baseInv_start proc m).lock, ?_⟩
    intro t p hp
    obtain rfl : QueuePc.away = p := by simpa [start] using hp
    trivial
  · intro s t p e r sh hI _ hp hr
    exact hI.step (fun _ => trivial) hp hr
  · intro s t p hI _ _
    exact hI.die

omit [DecidableEq Pid] in
/-- An access to the ring by its owner. -/
theorem LockedInv.access {l : Loc} (h : LockedInv cfg done s) (hp : s.pc t = some p)
    (hl : p.Accesses l) : s.shared.mutex.own t = p.own ∧ s.shared.mutex.OwnedBy t := by
  have ht := h.lock t
  rw [hp] at ht
  simp only [Option.elim_some] at ht
  refine ⟨ht, ?_⟩
  have hne := (QueuePc.own_of_accesses hl).1
  rw [← ht] at hne
  cases hown : s.shared.mutex.own t with
  | none => exact absurd hown hne
  | consistent => exact Or.inl (own_eq_consistent.mp hown)
  | inconsistent => exact Or.inr (own_eq_inconsistent.mp hown)

/-- No step takes a successful recovery to its end. -/
def Unrecovered (s : State Tid QueuePc (Shared Tid Pid Side Loc)) :
    Label Tid (QueueAnswer Tid) → Prop
  | .act t _ => (s.pc t).elim false QueuePc.recovered = false
  | .die _ => True

/-- After the death of an owner the mutex stays spoiled until a recovery has ended. -/
theorem spoiled_run {s₁ s₂ : State Tid QueuePc (Shared Tid Pid Side Loc)}
    (hI : LockedInv cfg False s₁) (hm : s₁.shared.mutex.Spoiled)
    (hrun : (cfg.faultyMachine proc).Run Unrecovered s₁ s₂) :
    LockedInv cfg False s₂ ∧ s₂.shared.mutex.Spoiled := by
  refine Machine.Run.invariant
    (I := fun s => LockedInv cfg False s ∧ s.shared.mutex.Spoiled) ⟨hI, hm⟩ ?_ ?_ hrun
  · intro s t p e r sh hI hok hp hr
    have hnot : p.recovered = false := by
      have h : (s.pc t).elim false QueuePc.recovered = false := hok
      rwa [hp] at h
    refine ⟨hI.1.step (fun h => by simp [hnot] at h) hp hr, ?_⟩
    rcases performFaulty_cases hr with ⟨-, -, rfl⟩ | hr
    · exact hI.2
    · have hmutex := perform_mutex hr
      cases hop : (QueuePc.act p).mutexOp with
      | none =>
          rw [show (cfg.faultyMachine proc).act p = p.act from rfl, hop] at hmutex
          show sh.mutex.Spoiled
          rw [hmutex]
          exact hI.2
      | some op =>
          rw [show (cfg.faultyMachine proc).act p = p.act from rfl, hop] at hmutex
          rcases hI.2.apply hmutex with hsp | ⟨rfl, -⟩
          · exact hsp
          · -- the declaration that ends the spoiled state stands after the recovery
            have hact : p.act = .mutex .consistent := by
              cases hq : p.act with
              | mutex op => simpa [hq, Act.mutexOp] using hop
              | park c => simp [hq, Act.mutexOp] at hop
              | _ => simp [hq, Act.mutexOp] at hop
            obtain ⟨site, q, rfl⟩ := QueuePc.act_eq_consistent hact
            exact (hI.1.mending t _ hp).elim
  · intro s t p hI _ _
    exact ⟨hI.1.die, hI.2.die t⟩

end Runs

end QueueConfig

/-! ## The lock discipline -/

section Discipline

variable {Tid Pid : Type} [DecidableEq Tid] [DecidableEq Pid]

/-- The lock discipline in one state. -/
structure RingGuarded (cfg : QueueConfig) (proc : Tid → Pid)
    (s : State Tid QueuePc (Shared Tid Pid Side Loc)) : Prop where
  /-- A thread reads or writes the ring only while it owns `put_lock`. -/
  access : ∀ t p l, s.pc t = some p → p.Accesses l → s.shared.mutex.OwnedBy t
  /-- From the death of an owner to the end of a recovery only `posixipc_queue_recover`
  accesses the ring. -/
  recovery : ∀ u s₁ s₂, s.shared.mutex.OwnedBy u →
    (cfg.faultyMachine proc).step s (.die u) = some s₁ →
    (cfg.faultyMachine proc).Run QueueConfig.Unrecovered s₁ s₂ →
    ∀ t p l, s₂.pc t = some p → p.Accesses l →
      ∃ site q prog, p = .recovering site q prog ∧
        Prog.Residual (posixipcQueueRecover cfg.view) prog
  /-- A call that has returned or raised has left `put_lock`. -/
  returned : ∀ t last, s.pc t = some (.python last) → ¬ s.shared.mutex.OwnedBy t

/-- The death of the owner leaves a spoiled mutex and nobody in a recovery. -/
theorem lockedInv_of_death {cfg : QueueConfig} {proc : Tid → Pid} {u : Tid}
    {s s₁ : State Tid QueuePc (Shared Tid Pid Side Loc)} (hI : QueueConfig.LockedInv cfg True s)
    (hown : s.shared.mutex.OwnedBy u)
    (hdie : (cfg.faultyMachine proc).step s (.die u) = some s₁) :
    QueueConfig.LockedInv cfg False s₁ ∧ s₁.shared.mutex.Spoiled := by
  obtain ⟨p, hp, rfl⟩ := Machine.step_die hdie
  have hI₁ : QueueConfig.LockedInv cfg True
      ⟨Function.update s.pc u none, OsWorld.die proc u s.shared⟩ := hI.die
  have hdead : RobustMutex.die u s.shared.mutex = .ownerDead := by
    rcases hown with hm | hm <;> simp [hm, RobustMutex.die]
  refine ⟨⟨hI₁.lock, ?_⟩, Or.inl hdead⟩
  intro t p' hp'
  have ht := hI₁.lock t
  have hnone : (RobustMutex.die u s.shared.mutex).own t = .none := by
    rw [hdead]
    rfl
  have hfree : p'.own = .none := by
    rw [hp'] at ht
    exact ht.symm.trans hnone
  have hmend := hI₁.mending t p' hp'
  cases p' with
  | makeConsistent site q => simp [QueuePc.own] at hfree
  | recovering site q prog => exact hmend
  | _ => trivial

/-- **Lock discipline of the queues.**  In every run of any number of threads of any
processes on one queue of either class, with deaths, signals, failing clocks and failing
`pthread_mutex_consistent` calls. -/
theorem queue_lock_discipline (cfg : QueueConfig) (proc : Tid → Pid) (m : Mem)
    {s : State Tid QueuePc (Shared Tid Pid Side Loc)}
    (hreach : (cfg.faultyMachine proc).Reach (cfg.start Tid Pid m) s) :
    RingGuarded cfg proc s := by
  have hI := QueueConfig.lockedInv_reach hreach
  constructor
  · intro t p l hp hl
    exact (hI.access hp hl).2
  · intro u s₁ s₂ hown hdie hrun t p l hp hl
    obtain ⟨hI₁, hsp⟩ := lockedInv_of_death hI hown hdie
    obtain ⟨hI₂, hsp₂⟩ := QueueConfig.spoiled_run hI₁ hsp hrun
    obtain ⟨hview, howned⟩ := hI₂.access hp hl
    have hincon : p.own = .inconsistent := by
      rw [← hview]
      rcases howned with hm | hm
      · exact absurd (own_eq_consistent.mpr hm) (hsp₂.own_ne t)
      · exact own_eq_inconsistent.mpr hm
    obtain ⟨site, q, prog, rfl⟩ := (QueuePc.own_of_accesses hl).2 hincon
    exact ⟨site, q, prog, rfl, hI₂.mending t _ hp⟩
  · intro t last hp hown
    have ht := hI.lock t
    rw [hp] at ht
    rcases hown with hm | hm <;> simp [hm, RobustMutex.State.own, QueuePc.own] at ht

end Discipline

/-- `false` dies in the middle of a `put`, and `true` takes over in a `get`. -/
def takeOverRun : List (Label Bool (QueueAnswer Bool)) :=
  request false (.put (fun _ => 7) .default) ++ steps false 9 ++ [.die false] ++
    request true (.get .default) ++ steps true 2

/-- The state that `takeOverRun` reaches. -/
def takeOverState : State Bool QueuePc (Shared Bool Bool Side Loc) :=
  ((smallQueue.faultyMachine id).run (smallQueue.start Bool Bool fun _ => 0)
    takeOverRun).getD (smallQueue.start Bool Bool fun _ => 0)

theorem queue_lock_discipline_takeOver :
    takeOverState.pc true = some (.recovering .first (.get .default)
      (posixipcQueueRecover smallQueue.view)) ∧
      takeOverState.shared.mutex = .inconsistent true ∧
      RingGuarded smallQueue id takeOverState :=
  ⟨rfl, rfl, queue_lock_discipline smallQueue id (fun _ => 0)
    (Machine.Run.of_isSome (fun _ _ _ => trivial) rfl)⟩

end PosixIpc
