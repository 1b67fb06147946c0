/-
# When a `Queue` waiter parks

`put` and `get` of a `Queue` test `count` under `put_lock` and then call
`queue_wait_cond`.  An interruptible wait is a loop of slices inside
`posixipc_blocking_wait`; between two slices the loop does not test `count` again.

`queue_parks_unready` : in every run in which a waiter whose slice has expired takes
`put_lock` back only while the queue is still empty (full), every thread parks with
`put_lock` owned and the queue empty (full).
-/
import PosixIpc.QueueMachine
import PosixIpc.QueueRingRecovery

namespace PosixIpc

open StoreProg RobustMutex OsWorld ThreadMachine Word32

/-! ## `count` at every point of an operation -/

section CountLe

variable {v : View} {m : Mem}

/-- The bound that holds at every point of every operation. -/
def CountLe (v : View) (m : Mem) : Prop := m .count ≤ v.depth

/-- A store to another cell keeps the bound. -/
theorem CountLe.update (h : CountLe v m) {l : Loc} {x : ℕ} (hl : l ≠ .count) :
    CountLe v (Function.update m l x) := by
  unfold CountLe
  rw [Function.update_of_ne (Ne.symm hl)]
  exact h

theorem countLe_update_count {x : ℕ} (h : x ≤ v.depth) :
    CountLe v (Function.update m .count x) := by
  unfold CountLe
  rw [Function.update_self]
  exact h

/-- A copy into the payload keeps the bound. -/
theorem always_memcpyIn (h : CountLe v m) (idx : ℕ) (data : ℕ → UInt8) :
    Prog.Always (CountLe v) (memcpyIn v idx data) m := by
  rw [Prog.always_iff]
  intro m' hm'
  unfold CountLe
  rw [crashPoint_forFrom_frame hm' (fun _ _ _ => by simp)]
  exact h

/-- A copy out of the payload keeps everything. -/
theorem always_memcpyOut (h : CountLe v m) (off n : ℕ) :
    Prog.Always (CountLe v) (memcpyOut off n) m := by
  rw [Prog.always_iff]
  intro m' hm'
  rw [crashPoint_memcpyOut hm']
  exact h

/-- **Put** increments a `count` that it found below `depth`. -/
theorem always_posixipcQueuePut (h : CountLe v m) (data : ℕ → UInt8) :
    Prog.Always (CountLe v) (posixipcQueuePut v data) m := by
  unfold posixipcQueuePut
  by_cases h1 : v.ctrl = none
  · rw [if_pos h1]
    exact h
  rw [if_neg h1, Prog.always_bind, Prog.always_read, Prog.exec_read]
  refine ⟨h, ?_⟩
  by_cases h2 : m .count ≥ v.depth
  · rw [if_pos h2]
    exact h
  rw [if_neg h2, Prog.always_bind, Prog.always_read, Prog.exec_read]
  refine ⟨h, ?_⟩
  by_cases h3 : m .tail ≥ v.depth
  · rw [if_pos h3]
    exact h
  rw [if_neg h3]
  have hres : CountLe v (Function.update m (.state (m .tail)) queueReservedPut) :=
    h.update (by simp)
  have hcopy : CountLe v (Prog.exec (memcpyIn v (m .tail) data)
      (Function.update m (.state (m .tail)) queueReservedPut)).2 := by
    unfold CountLe
    rw [exec_memcpyIn_word _ _ _ _ (by simp)]
    exact hres
  have hlast : ∀ m' : Mem, m' .count = m .count → u32 (m' .count + 1) ≤ v.depth := by
    intro m' hm'
    rw [hm']
    have : u32 (m .count + 1) ≤ m .count + 1 := Nat.mod_le _ _
    omega
  simp only [Prog.always_bind, Prog.always_write, Prog.always_read, Prog.always_pure,
    Prog.exec_write, Prog.exec_read]
  refine ⟨⟨h, hres⟩, always_memcpyIn hres _ _, ⟨hcopy, hcopy.update (by simp)⟩,
    ⟨hcopy.update (by simp), (hcopy.update (by simp)).update (by simp)⟩,
    (hcopy.update (by simp)).update (by simp),
    ⟨(hcopy.update (by simp)).update (by simp), countLe_update_count (hlast _ ?_)⟩,
    countLe_update_count (hlast _ ?_)⟩
  · simp [exec_memcpyIn_word]
  · simp [exec_memcpyIn_word]

/-- **Get** decrements a `count` that it found nonzero. -/
theorem always_posixipcQueueGet (hv : v.Valid) (h : CountLe v m) :
    Prog.Always (CountLe v) (posixipcQueueGet v) m := by
  have hd31 := hv.depth_lt
  have hle : m .count ≤ v.depth := h
  unfold posixipcQueueGet
  rw [if_neg hv.ctrl_ne, Prog.always_bind, Prog.always_read, Prog.exec_read]
  refine ⟨h, ?_⟩
  by_cases h2 : m .count = 0
  · rw [if_pos h2]
    exact h
  rw [if_neg h2, Prog.always_bind, Prog.always_read, Prog.exec_read]
  refine ⟨h, ?_⟩
  by_cases h3 : m .head ≥ v.depth
  · rw [if_pos h3]
    exact h
  rw [if_neg h3, Prog.always_bind, Prog.always_read, Prog.exec_read]
  refine ⟨h, ?_⟩
  by_cases h4 : m (.state (m .head)) ≠ queueReady
  · rw [if_pos h4]
    exact h
  rw [if_neg h4]
  have hlast : ∀ m' : Mem, m' .count = m .count → dec32 (m' .count) ≤ v.depth := by
    intro m' hm'
    obtain ⟨c, hc⟩ : ∃ c, m .count = c + 1 := ⟨m .count - 1, by omega⟩
    rw [hm', hc, dec32_succ (by omega)]
    omega
  simp only [Prog.always_bind, Prog.always_write, Prog.always_read, Prog.always_pure,
    Prog.exec_write, Prog.exec_read, exec_memcpyOut]
  have h5 : CountLe v (Function.update m (.state (m .head)) queueReservedGet) :=
    h.update (by simp)
  have h6 := h5.update (l := .state (m .head)) (x := queueEmpty) (by simp)
  have h7 := h6.update (l := .head) (x := u32 (m .head + 1) % v.depth) (by simp)
  refine ⟨⟨h, h5⟩, always_memcpyOut h5 _ _, ⟨h5, h6⟩, ⟨h6, h7⟩, h7,
    ⟨h7, countLe_update_count (hlast _ ?_)⟩, countLe_update_count (hlast _ ?_)⟩
  · simp
  · simp

/-- The first loop of recovery writes to the states only. -/
theorem always_recoverScan (h : CountLe v m) (i n ready : ℕ) :
    Prog.Always (CountLe v) (recoverScan i n ready) m := by
  induction n generalizing i ready m with
  | zero => exact h
  | succ n ih =>
      rw [recoverScan, Prog.always_bind, Prog.always_read, Prog.exec_read]
      have hset : ∀ x, CountLe v (Function.update m (.state i) x) :=
        fun x => h.update (by simp)
      have hput : ∀ (x k : ℕ), Prog.Always (CountLe v)
          ((Prog.write (.state i) x : RingProg Unit) >>= fun _ => recoverScan (i + 1) n k) m := by
        intro x k
        rw [Prog.always_bind, Prog.always_write, Prog.exec_write]
        exact ⟨⟨h, hset x⟩, ih (hset x) _ _⟩
      refine ⟨h, ?_⟩
      by_cases h1 : m (.state i) = queueReservedPut
      · rw [if_pos h1]
        exact hput _ _
      rw [if_neg h1]
      by_cases h2 : m (.state i) = queueReservedGet
      · rw [if_pos h2]
        exact hput _ _
      rw [if_neg h2]
      by_cases h3 : m (.state i) = queueReady
      · rw [if_pos h3]
        exact ih h _ _
      rw [if_neg h3]
      by_cases h4 : m (.state i) ≠ queueEmpty
      · rw [if_pos h4]
        exact hput _ _
      · rw [if_neg h4]
        exact ih h _ _

/-- The second loop writes to `head` only. -/
theorem always_recoverHead (h : CountLe v m) (i n : ℕ) :
    Prog.Always (CountLe v) (recoverHead i n) m := by
  induction n generalizing i with
  | zero => exact h
  | succ n ih =>
      rw [recoverHead, Prog.always_bind, Prog.always_read, Prog.exec_read]
      refine ⟨h, ?_⟩
      by_cases h1 : m (.state i) = queueReady
      · rw [if_pos h1, Prog.always_write]
        exact ⟨h, h.update (by simp)⟩
      · rw [if_neg h1]
        exact ih _

/-- **Recovery** sets `count` to the number of live slots. -/
theorem always_posixipcQueueRecover (hv : v.Valid) (h : CountLe v m) :
    Prog.Always (CountLe v) (posixipcQueueRecover v) m := by
  have hd31 := hv.depth_lt
  unfold posixipcQueueRecover
  by_cases hnull : v.ctrl = none ∨ v.state = none
  · rw [if_pos hnull]
    exact h
  rw [if_neg hnull, Prog.always_bind]
  refine ⟨always_recoverScan h _ _ _, ?_⟩
  have hscan := Prog.Always.last (always_recoverScan h 0 v.depth 0)
  rw [exec_recoverScan 0 v.depth 0 m (by omega)] at hscan ⊢
  simp only [Nat.zero_add] at hscan ⊢
  have hcnt : CountLe v (Function.update (settle m 0 v.depth) .count
      (Nat.count (fun j => Live m j) v.depth)) := countLe_update_count (Nat.count_le _)
  rw [Prog.always_bind, Prog.always_write, Prog.exec_write]
  refine ⟨⟨hscan, hcnt⟩, ?_⟩
  split_ifs with h0
  · simp only [Prog.always_bind, Prog.always_write, Prog.always_pure, Prog.exec_write]
    exact ⟨⟨hcnt, hcnt.update (by simp)⟩, ⟨hcnt.update (by simp),
      (hcnt.update (by simp)).update (by simp)⟩, (hcnt.update (by simp)).update (by simp)⟩
  · have hhead := always_recoverHead hcnt 0 v.depth
    simp only [Prog.always_bind, Prog.always_write, Prog.always_read, Prog.always_pure,
      Prog.exec_write, Prog.exec_read]
    exact ⟨hhead, hhead.last, ⟨hhead.last, hhead.last.update (by simp)⟩,
      hhead.last.update (by simp)⟩

end CountLe

/-! ## The invariant -/

/-- What holds when the owner of the mutex is at a program point. -/
def QueuePc.WaitInv (v : View) (m : Mem) : QueuePc → Prop
  | .recovering _ _ p => Prog.Always (CountLe v) p m
  | .ring _ p => Prog.Always (CountLe v) p m
  | .test _ p => p = posixipcQueueQsize v ∨ p = .ret (.ok, m .count)
  | .waitEnter q .cond => ¬ Ready v q.waitSide m
  | .slice q .cond _ => ¬ Ready v q.waitSide m
  | .drop q .cond _ _ => ¬ Ready v q.waitSide m
  | .park q .cond _ _ => ¬ Ready v q.waitSide m
  | .check q .cond _ => ¬ Ready v q.waitSide m
  | .gil q .cond _ rc => q.opts.interruptible → rc = .etimedout → ¬ Ready v q.waitSide m
  | .back q .cond _ rc => q.opts.interruptible → rc = .etimedout → ¬ Ready v q.waitSide m
  | _ => True

/-- The request of an interruptible waiter whose slice has expired and that is taking
`put_lock` back. -/
def QueuePc.expiredWait : QueuePc → Option Request
  | .reacquire q _ res =>
    if sleepRc res = .etimedout ∧ q.opts.interruptible then some q else none
  | _ => none

namespace QueueConfig

variable (cfg : QueueConfig) {Tid Pid : Type} [DecidableEq Tid] [DecidableEq Pid]
  (proc : Tid → Pid)

/-- A waiter whose slice has expired takes `put_lock` back only while the queue is as it was
when it parked: still empty for `get`, still full for `put`. -/
def ExpiredUnready (s : State Tid QueuePc (Shared Tid Pid Side Loc))
    (l : Label Tid (QueueAnswer Tid)) : Prop :=
  match l with
  | .act t _ => ∀ p ∈ s.pc t, ∀ q ∈ p.expiredWait, s.shared.mutex = .unlocked →
      ¬ Ready cfg.view q.waitSide s.shared.mem
  | .die _ => True

instance (s : State Tid QueuePc (Shared Tid Pid Side Loc)) (l : Label Tid (QueueAnswer Tid)) :
    Decidable (ExpiredUnready cfg s l) :=
  match l with
  | .act _ _ => inferInstanceAs (Decidable (∀ p ∈ _, ∀ q ∈ _, _ → ¬ _))
  | .die _ => isTrue trivial

/-- The invariant of a queue under that condition. -/
structure ParkInv (s : State Tid QueuePc (Shared Tid Pid Side Loc)) : Prop where
  base : BaseInv cfg proc s
  count_le : CountLe cfg.view s.shared.mem
  owner : ∀ t p, s.pc t = some p → p.own ≠ .none → p.WaitInv cfg.view s.shared.mem

variable {m : Mem}

theorem waitInv_afterWait (q : Request) (rc : Rc) (o : Own) :
    (cfg.afterWait q rc o).WaitInv cfg.view m := by
  unfold afterWait
  split_ifs
  · trivial
  · exact Or.inl rfl
  · trivial
  · trivial

theorem waitInv_siteDone (site : LockSite) (q : Request) :
    (cfg.siteDone site q).WaitInv cfg.view m := by
  cases site with
  | first => trivial
  | _ => exact cfg.waitInv_afterWait _ _ _

theorem waitInv_siteFailed (site : LockSite) (q : Request) (rc : Failure) :
    (cfg.siteFailed site q rc).WaitInv cfg.view m := by
  cases site with
  | first => trivial
  | _ => exact cfg.waitInv_afterWait _ _ _

theorem waitInv_recoverFailed (site : LockSite) (q : Request) (rc : Failure) :
    (cfg.recoverFailed site q rc).WaitInv cfg.view m := by
  cases site with
  | condWake => exact cfg.waitInv_afterWait _ _ _
  | _ => trivial

theorem waitInv_waitReturn (hv : cfg.view.Valid) (h : CountLe cfg.view m) (q : Request)
    (w : WaitFn) (rc : Rc) (o : Own) : (cfg.waitReturn q w rc o).WaitInv cfg.view m := by
  cases w with
  | cond =>
      rw [waitReturn]
      split_ifs
      · exact always_posixipcQueueRecover hv h
      · exact cfg.waitInv_afterWait _ _ _
  | futex c => trivial

/-- The ring operation of a request keeps the bound. -/
theorem always_ringOp (hv : cfg.view.Valid) (h : CountLe cfg.view m) (q : Request) :
    Prog.Always (CountLe cfg.view) (cfg.ringOp q) m := by
  cases q with
  | put data o =>
      rw [ringOp, Prog.always_bind, Prog.always_pure]
      exact ⟨always_posixipcQueuePut h data, (always_posixipcQueuePut h data).last⟩
  | get o => exact always_posixipcQueueGet hv h
  | qsize => exact always_posixipcQueueGet hv h

/-- The test of the loop: a call that goes on to wait cannot proceed. -/
theorem waitInv_afterTest (hv : cfg.view.Valid) (h : CountLe cfg.view m) (q : Request) (rc : Rc) :
    (cfg.afterTest q rc (m .count)).WaitInv cfg.view m := by
  unfold afterTest
  by_cases hrc : rc ≠ .ok
  · rw [if_pos hrc]
    trivial
  rw [if_neg hrc]
  cases q with
  | qsize => trivial
  | put data o =>
      simp only
      split_ifs with h1 h2
      · exact cfg.always_ringOp hv h _
      · trivial
      · cases cfg.cls with
        | queue => exact h1
        | futexQueue => trivial
  | get o =>
      simp only
      split_ifs with h1 h2
      · exact cfg.always_ringOp hv h _
      · trivial
      · cases cfg.cls with
        | queue => exact h1
        | futexQueue => trivial

theorem waitInv_startWait (q : Request) (w : WaitFn) (reading : Option Timespec)
    (h : (QueuePc.waitEnter q w).WaitInv cfg.view m) :
    (cfg.startWait q w reading).WaitInv cfg.view m := by
  unfold startWait
  cases w with
  | cond =>
      simp only
      repeat' split
      all_goals first
        | exact h
        | exact cfg.waitInv_afterWait _ _ _
  | futex c =>
      simp only
      repeat' split
      all_goals trivial

variable {cfg proc} {s : State Tid QueuePc (Shared Tid Pid Side Loc)}
  {sh : Shared Tid Pid Side Loc} {t : Tid} {p : QueuePc} {e r : QueueAnswer Tid}

/-- A step that writes nothing keeps the memory. -/
theorem mem_eq_of_no_store (hno : ∀ l v, p.act ≠ .store l v)
    (hr : perform proc t p.act e s.shared = some (r, sh)) : sh.mem = s.shared.mem := by
  rcases perform_mem hr with ⟨l, v, ha, -⟩ | ⟨-, hm⟩
  · exact absurd ha (hno l v)
  · exact hm

/-- **The owner's own step** keeps the bound and leads to what the next program point
needs. -/
theorem ParkInv.owner_next (hv : cfg.view.Valid) (h : ParkInv cfg proc s)
    (hok : ExpiredUnready cfg s (.act t e)) (hp : s.pc t = some p)
    (hr : perform proc t p.act e s.shared = some (r, sh)) :
    CountLe cfg.view sh.mem ∧
      ((cfg.next p r).own ≠ .none → (cfg.next p r).WaitInv cfg.view sh.mem) := by
  have hcount := h.count_le
  -- most actions write nothing; then the bound is the old one
  have hquiet : (∀ l v, p.act ≠ .store l v) →
      ((cfg.next p r).own ≠ .none → (cfg.next p r).WaitInv cfg.view s.shared.mem) →
      CountLe cfg.view sh.mem ∧
        ((cfg.next p r).own ≠ .none → (cfg.next p r).WaitInv cfg.view sh.mem) := by
    intro hno hnext
    rw [mem_eq_of_no_store hno hr]
    exact ⟨hcount, hnext⟩
  cases p with
  | lockCall site q =>
      refine hquiet (by simp [QueuePc.act]) fun _ => ?_
      simp only [next]
      split_ifs
      · exact cfg.waitInv_siteDone _ _
      · exact always_posixipcQueueRecover hv hcount
      · exact cfg.waitInv_siteFailed _ _ _
  | recovering site q prog =>
      have hI : Prog.Always (CountLe cfg.view) prog s.shared.mem :=
        h.owner t _ hp (by simp [QueuePc.own])
      cases prog with
      | ret rc =>
          refine hquiet (by simp [QueuePc.act]) fun _ => ?_
          simp only [next]
          split_ifs
          · trivial
          · exact cfg.waitInv_recoverFailed _ _ _
      | load l k =>
          obtain ⟨hval, rfl⟩ := perform_load hr
          refine ⟨hcount, fun _ => ?_⟩
          show Prog.Always _ (k r.val) s.shared.mem
          rw [hval]
          exact hI.2
      | store l v k =>
          obtain ⟨-, rfl⟩ := Prod.mk.inj (Option.some.inj hr).symm
          exact ⟨hI.2.here, fun _ => hI.2⟩
  | makeConsistent site q =>
      refine hquiet (by simp [QueuePc.act]) fun _ => ?_
      simp only [next]
      split_ifs
      · trivial
      · exact cfg.waitInv_recoverFailed _ _ _
  | unlockBad site q rc =>
      exact hquiet (by simp [QueuePc.act]) fun _ => cfg.waitInv_siteFailed _ _ _
  | announce site q k =>
      refine hquiet (by cases k <;> simp [QueuePc.act]) fun _ => ?_
      cases k with
      | wakeEmpty => exact cfg.waitInv_siteDone _ _
      | _ => trivial
  | lockGil q rc =>
      refine hquiet (by simp [QueuePc.act]) fun _ => ?_
      simp only [next]
      split_ifs
      · exact Or.inl rfl
      · trivial
      · trivial
  | test q prog =>
      have hI := h.owner t _ hp (by simp [QueuePc.own])
      rcases hI with rfl | rfl
      · rw [posixipcQueueQsize_eq hv] at hr ⊢
        obtain ⟨hval, rfl⟩ := perform_load hr
        refine ⟨hcount, fun _ => Or.inr ?_⟩
        rw [hval]
      · exact hquiet (by simp [QueuePc.act]) fun _ => cfg.waitInv_afterTest hv hcount q _
  | ring q prog =>
      have hI : Prog.Always (CountLe cfg.view) prog s.shared.mem :=
        h.owner t _ hp (by simp [QueuePc.own])
      cases prog with
      | ret x =>
          refine hquiet (by simp [QueuePc.act]) fun _ => ?_
          simp only [next]
          split <;> trivial
      | load l k =>
          obtain ⟨hval, rfl⟩ := perform_load hr
          refine ⟨hcount, fun _ => ?_⟩
          show Prog.Always _ (k r.val) s.shared.mem
          rw [hval]
          exact hI.2
      | store l v k =>
          obtain ⟨-, rfl⟩ := Prod.mk.inj (Option.some.inj hr).symm
          exact ⟨hI.2.here, fun _ => hI.2⟩
  | futexUnlock q c =>
      refine hquiet (by simp [QueuePc.act]) fun _ => ?_
      simp only [next]
      split_ifs
      · trivial
      · exact cfg.waitInv_afterWait _ _ _
  | waitEnter q w =>
      refine hquiet (by simp [QueuePc.act]) fun _ => cfg.waitInv_startWait q w _ ?_
      cases w with
      | cond => exact h.owner t _ hp (by simp [QueuePc.own, WaitFn.own])
      | futex c => trivial
  | slice q w user =>
      refine hquiet (by simp [QueuePc.act]) fun _ => ?_
      simp only [next]
      split
      · exact cfg.waitInv_waitReturn hv hcount _ _ _ _
      · cases w with
        | cond =>
            have hI := h.owner t _ hp (by simp [QueuePc.own, WaitFn.own])
            exact hI
        | futex c => trivial
  | drop q w user limit =>
      refine hquiet (by simp [QueuePc.act]) fun _ => ?_
      cases w with
      | cond =>
          have hI := h.owner t _ hp (by simp [QueuePc.own, WaitFn.own])
          exact hI
      | futex c => trivial
  | park q w user limit =>
      cases w with
      | cond =>
          have hl : r.lock = .ok := h.base.lock.answers hp hr rfl
          refine hquiet (by simp [QueuePc.act]) fun _ => ?_
          simp only [next, hl, if_true]
          trivial
      | futex c =>
          refine hquiet (by simp [QueuePc.act]) fun _ => ?_
          simp only [next]
          split_ifs <;> trivial
  | asleep q w user limit =>
      refine hquiet (by cases w <;> cases limit <;> simp [QueuePc.act]) fun _ => ?_
      cases w <;> trivial
  | reacquire q user res =>
      have hm : RobustMutex.lock t s.shared.mutex = some (r.lock, sh.mutex) := perform_mutex hr
      have hans : r.lock = .ok ∨ r.lock = .ownerDead ∨ r.lock = .notRecoverable :=
        h.base.lock.answers hp hr rfl
      refine hquiet (by simp [QueuePc.act]) fun _ => ?_
      rcases hans with hl | hl | hl
      · simp only [next, hl, if_true]
        intro hint hrc
        exact hok _ hp q (by simp [QueuePc.expiredWait, hrc, hint]) (lock_ok (hl ▸ hm)).1
      · simp only [next, hl, lockRc, reduceCtorEq, if_false]
        intro _ hrc
        exact absurd hrc (by simp)
      · simp only [next, hl, lockRc, reduceCtorEq, if_false]
        intro _ hrc
        exact absurd hrc (by simp)
  | gil q w user rc =>
      refine hquiet (by simp [QueuePc.act]) fun hown => ?_
      cases w with
      | cond =>
          have hI := h.owner t _ hp hown
          exact hI
      | futex c => trivial
  | back q w user rc =>
      refine hquiet (by simp [QueuePc.act]) fun _ => ?_
      simp only [next]
      split_ifs with h1 h2
      · exact cfg.waitInv_waitReturn hv hcount _ _ _ _
      · cases w with
        | cond =>
            have hI := h.owner t _ hp (by simp [QueuePc.own, WaitFn.ownAfter, h1.2, condOwn])
            exact hI h1.1 h1.2
        | futex c => trivial
      · exact cfg.waitInv_waitReturn hv hcount _ _ _ _
  | check q w user =>
      refine hquiet (by simp [QueuePc.act]) fun _ => ?_
      have hI : (QueuePc.slice q w user).WaitInv cfg.view s.shared.mem := by
        cases w with
        | cond =>
            have hI := h.owner t _ hp (by simp [QueuePc.own, WaitFn.own])
            exact hI
        | futex c => trivial
      simp only [next]
      cases user with
      | none => exact hI
      | some d =>
          simp only
          split_ifs
          · exact cfg.waitInv_waitReturn hv hcount _ _ _ _
          · exact hI
  | _ =>
      refine hquiet (by simp [QueuePc.act]) fun _ => ?_
      simp only [next]
      repeat' split
      all_goals trivial

/-- **Step lemma.** -/
theorem ParkInv.step (hv : cfg.view.Valid) (h : ParkInv cfg proc s)
    (hok : ExpiredUnready cfg s (.act t e)) (hp : s.pc t = some p)
    (hr : perform proc t p.act e s.shared = some (r, sh)) :
    ParkInv cfg proc ⟨Function.update s.pc t (some (cfg.next p r)), sh⟩ := by
  obtain ⟨hcount, hnext⟩ := h.owner_next hv hok hp hr
  refine ⟨h.base.step hp hr, hcount, ?_⟩
  intro u q hq hqown
  by_cases hu : u = t
  · subst hu
    obtain rfl : cfg.next p r = q := by simpa using hq
    exact hnext hqown
  · have hq' : s.pc u = some q := by simpa [hu] using hq
    have hnone : p.own = .none := by
      by_contra hp'
      exact hu (h.base.lock.unique hq' hp hqown hp')
    show q.WaitInv cfg.view sh.mem
    rw [(perform_of_own_none hnone hr).1]
    exact h.owner u q hq' hqown

theorem ParkInv.die (h : ParkInv cfg proc s) :
    ParkInv cfg proc ⟨Function.update s.pc t none, OsWorld.die proc t s.shared⟩ := by
  refine ⟨h.base.die, h.count_le, ?_⟩
  intro u q hq hqown
  by_cases hu : u = t
  · subst hu
    simp at hq
  · exact h.owner u q (by simpa [hu] using hq) hqown

/-- The invariant of every run under the condition. -/
theorem parkInv_run (hv : cfg.view.Valid) (m : Mem)
    (hrun : (cfg.machine proc).Run (ExpiredUnready cfg) (cfg.start Tid Pid m) s) :
    ParkInv cfg proc s := by
  refine Machine.Run.invariant ?_ ?_ ?_ hrun
  · refine ⟨cfg.baseInv_start proc m, ?_, ?_⟩
    · have hcount := (posixipcQueueInitCtrl_spec hv m).2.count_eq
      show (Prog.exec (posixipcQueueInitCtrl cfg.view) m).2 .count ≤ cfg.view.depth
      rw [hcount]
      exact Nat.zero_le _
    · intro t p hp hown
      obtain rfl : QueuePc.away = p := by simpa [start] using hp
      exact absurd rfl hown
  · intro s t p e r sh hI hok hp hr
    exact hI.step hv hok hp hr
  · intro s t p hI _ _
    exact hI.die

end QueueConfig

/-! ## Parking -/

section Parking

variable {Tid Pid : Type} [DecidableEq Tid] [DecidableEq Pid]

/-- A thread about to park owns `put_lock`, and its call cannot proceed: `count = 0` for
`get`, `count = depth` for `put`. -/
def ParksUnready (v : View) (s : State Tid QueuePc (Shared Tid Pid Side Loc)) : Prop :=
  ∀ t q user limit, s.pc t = some (.park q .cond user limit) →
    s.shared.mutex = .locked t ∧
      match q with
      | .put _ _ => s.shared.mem .count = v.depth
      | _ => s.shared.mem .count = 0

/-- **A waiter parks only on an empty (full) queue it has locked.**  In every run of any
number of threads of any processes on one mapped `Queue`, deaths included, in which a
waiter whose slice has expired finds the queue unchanged when it takes `put_lock` back. -/
theorem queue_parks_unready {cacheline nbytes depth itemSize : ℕ} {bytes : Option ℕ}
    {v : View} (hmap : posixipcQueueMap cacheline bytes nbytes depth itemSize = .ok v)
    (clk : ClockId) (proc : Tid → Pid) (m : Mem)
    {s : State Tid QueuePc (Shared Tid Pid Side Loc)}
    (hrun : (QueueConfig.machine ⟨.queue, v, clk⟩ proc).Run
      (QueueConfig.ExpiredUnready ⟨.queue, v, clk⟩)
      (QueueConfig.start ⟨.queue, v, clk⟩ Tid Pid m) s) : ParksUnready v s := by
  obtain ⟨hv, -, -⟩ := posixipcQueueMap_valid hmap
  have hI : QueueConfig.ParkInv ⟨.queue, v, clk⟩ proc s := QueueConfig.parkInv_run hv m hrun
  intro t q user limit hp
  have hlock := hI.base.lock t
  rw [hp] at hlock
  have hnot : ¬ Ready v q.waitSide s.shared.mem :=
    hI.owner t _ hp (by simp [QueuePc.own, WaitFn.own])
  have hle : s.shared.mem .count ≤ v.depth := hI.count_le
  refine ⟨own_eq_consistent.mp hlock, ?_⟩
  cases q with
  | put data o =>
      have : ¬ s.shared.mem .count < v.depth := hnot
      show s.shared.mem .count = v.depth
      omega
  | get o =>
      have : ¬ 0 < s.shared.mem .count := hnot
      show s.shared.mem .count = 0
      omega
  | qsize =>
      have : ¬ 0 < s.shared.mem .count := hnot
      show s.shared.mem .count = 0
      omega

end Parking

/-- The slice of the getter `false` expires. -/
def expireSlice : Label Bool (QueueAnswer Bool) := .act false { calm with sleep := .timedOut }

/-- `false` waits in `get`, its slice expires, and it waits on. -/
def parkAgainRun : List (Label Bool (QueueAnswer Bool)) :=
  request false (.get .default) ++ steps false 9 ++ [expireSlice] ++ steps false 6

/-- The state that `parkAgainRun` reaches. -/
def parkAgainState : State Bool QueuePc (Shared Bool Unit Side Loc) :=
  ((smallQueue.machine fun _ => ()).runIf smallQueue.ExpiredUnready
    (smallQueue.start Bool Unit fun _ => 0) parkAgainRun).getD
    (smallQueue.start Bool Unit fun _ => 0)

theorem queue_parks_unready_again :
    (∃ user limit, parkAgainState.pc false = some (.park (.get .default) .cond user limit)) ∧
      ParksUnready smallQueue.view parkAgainState := by
  have hrun : (smallQueue.machine fun _ => ()).Run smallQueue.ExpiredUnready
      (smallQueue.start Bool Unit fun _ => 0) parkAgainState :=
    Machine.Run.of_runIf_isSome rfl
  have hmap : posixipcQueueMap 64 (some 0) 192 1 1 = .ok smallQueue.view := rfl
  exact ⟨⟨_, _, rfl⟩, queue_parks_unready hmap .monotonic (fun _ => ()) (fun _ => 0) hrun⟩

/-- The slice of `false` expires, `true` puts an item before `false` has `put_lock` back,
and `false` waits on. -/
def parkReadyRun : List (Label Bool (QueueAnswer Bool)) :=
  request false (.get .default) ++ steps false 9 ++ [expireSlice] ++
    request true (.put (fun _ => 7) .default) ++ steps true 18 ++ steps false 6

/-- The state that `parkReadyRun` reaches. -/
def parkReadyState : State Bool QueuePc (Shared Bool Unit Side Loc) :=
  ((smallQueue.machine fun _ => ()).run (smallQueue.start Bool Unit fun _ => 0)
    parkReadyRun).getD (smallQueue.start Bool Unit fun _ => 0)

/-- **A getter parks again although an item is there**: the signal came when nobody was
parked, and the loop of slices does not test `count`. -/
theorem queue_parks_ready :
    posixipcQueueMap 64 (some 0) 192 1 1 = .ok smallQueue.view ∧
      (smallQueue.machine fun _ => ()).Reach (smallQueue.start Bool Unit fun _ => 0)
        parkReadyState ∧
      (∃ user limit, parkReadyState.pc false = some (.park (.get .default) .cond user limit)) ∧
      parkReadyState.shared.mem .count = 1 ∧
      ¬ ParksUnready smallQueue.view parkReadyState := by
  refine ⟨rfl, Machine.Run.of_isSome (fun _ _ _ => trivial) rfl, ⟨_, _, rfl⟩, rfl, ?_⟩
  intro h
  have hzero : parkReadyState.shared.mem .count = 0 := (h false (.get .default) _ _ rfl).2
  exact absurd hzero (by decide)

end PosixIpc
