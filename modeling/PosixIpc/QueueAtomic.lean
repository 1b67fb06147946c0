/-
# Queue calls are all or nothing

A call of `put` or `get` is a stretch of a run of many threads.  What the call itself does to
the queue is the list of changes that its own steps make to the contents of the ring.

* `QueuePc.RingAt` : what the owner of `put_lock` knows of the ring at a program point;
* `AtomicInv` : the invariant of all runs whose recoveries are safe;
* `CallInv` : the changes that a call has made so far, at each of its program points;
* `QueueMethod.entry` : the checks in front of the lock, for the four methods.

The main result is `queue_calls_all_or_nothing`.  The two conditions on a run are those of
`CalmStep`: a recovery meets a ring that it can restore, and the bytes object for an item that
`get` has removed can be allocated.
-/
import PosixIpc.CallSpan
import PosixIpc.QueueContents
import PosixIpc.QueueLock
import PosixIpc.LayoutAdd

namespace PosixIpc

open StoreProg RobustMutex OsWorld ThreadMachine

/-! ## What the owner knows -/

/-- What a request does to the contents, and the bytes it gives back. -/
def Effect (v : View) : Request → List Item → List Item → List UInt8 → Prop
  | .put d _, q, q', data => q' = q ++ [bytesOf v d] ∧ data = []
  | .get _, q, q', data => q = data :: q'
  | .qsize, _, _, _ => False

/-- A call that has an effect changes the contents. -/
theorem Effect.ne {v : View} {req : Request} {q q' : List Item} {data : List UInt8}
    (h : Effect v req q q' data) : q ≠ q' := by
  rintro rfl
  cases req with
  | put d o => exact absurd (congrArg List.length h.1) (by simp)
  | get o =>
    have hq : q = data :: q := h
    exact absurd (congrArg List.length hq) (by simp)
  | qsize => exact h

/-- The ring operation has not taken effect. -/
def RingBefore (v : View) (q q' : List Item) (data : List UInt8) :
    RingProg (Rc × List UInt8) → Mem → Prop :=
  Prog.Commits (fun m => Holds v m q) (fun m => Holds v m q')
    (fun r m => r.1 ≠ .ok ∧ RingInv v m q) (fun r m => r = (.ok, data) ∧ RingInv v m q')

/-- The ring operation has taken effect. -/
def RingAfter (v : View) (q' : List Item) (data : List UInt8) :
    RingProg (Rc × List UInt8) → Mem → Prop :=
  Prog.Committed (fun m => Holds v m q') (fun r m => r = (.ok, data) ∧ RingInv v m q')

/-- The ring holds some queue, and nothing is under way. -/
def Whole (v : View) (m : Mem) : Prop := ∃ q, RingInv v m q

/-- What is true of the ring when its owner is at a program point. -/
def QueuePc.RingAt (v : View) (m : Mem) : QueuePc → Prop
  | .recovering _ _ p => ∃ q, Prog.Always (fun m' => Holds v m' q) p m ∧
      (Prog.exec p m).1 = .ok ∧ RingInv v (Prog.exec p m).2 q
  | .makeConsistent _ _ => Whole v m
  | .ring req p => ∃ q q' data, Effect v req q q' data ∧
      (RingBefore v q q' data p m ∨ RingAfter v q' data p m)
  | .test _ p => (p = posixipcQueueQsize v ∨ p = .ret (.ok, m .count)) ∧ Whole v m
  | .gil q w user rc => (rc = .eownerdead → RecoverySafe v m) ∧
      ((QueuePc.gil q w user rc).own = .consistent → Whole v m)
  | .back q w user rc => (rc = .eownerdead → RecoverySafe v m) ∧
      ((QueuePc.back q w user rc).own = .consistent → Whole v m)
  | p => p.own = .consistent → Whole v m

namespace QueueConfig

variable (cfg : QueueConfig) {m : Mem}

/-- The loop leaves the ring whole. -/
theorem ringAt_afterWait (q : Request) (rc : Rc) (o : Own)
    (h : (cfg.afterWait q rc o).own = .consistent → Whole cfg.view m) :
    (cfg.afterWait q rc o).RingAt cfg.view m := by
  unfold afterWait at h ⊢
  split_ifs at h ⊢
  · exact h
  · exact ⟨Or.inl rfl, h rfl⟩
  · exact h
  · exact h

/-- A lock site that is done leaves the ring whole. -/
theorem ringAt_siteDone (site : LockSite) (q : Request) (h : Whole cfg.view m) :
    (cfg.siteDone site q).RingAt cfg.view m := by
  cases site with
  | first => exact fun _ => h
  | condWake => exact cfg.ringAt_afterWait _ _ _ fun _ => h
  | relock rc => exact cfg.ringAt_afterWait _ _ _ fun _ => h

/-- A failed recovery needs nothing of the ring. -/
theorem ringAt_recoverFailed (site : LockSite) (q : Request) (rc : Failure) :
    (cfg.recoverFailed site q rc).RingAt cfg.view m := by
  have hown : (cfg.recoverFailed site q rc).own = .consistent → Whole cfg.view m := fun h =>
    absurd ((cfg.own_recoverFailed site q rc).symm.trans h) (by decide)
  cases site with
  | condWake => exact cfg.ringAt_afterWait _ _ _ hown
  | first => exact hown
  | relock rc' => exact hown

/-- A put or get starts on a ring that has room, or an item. -/
theorem ringBefore_ringOp (hv : cfg.view.Valid) {q : List Item} (h : RingInv cfg.view m q)
    (req : Request) (hreq : req ≠ .qsize)
    (hget : ∀ o, req = .get o → 0 < m .count) :
    ∃ q₀ q' data, Effect cfg.view req q₀ q' data ∧
      RingBefore cfg.view q₀ q' data (cfg.ringOp req) m := by
  cases req with
  | qsize => exact absurd rfl hreq
  | put d o =>
    refine ⟨q, q ++ [bytesOf cfg.view d], [], ⟨rfl, rfl⟩, ?_⟩
    exact (put_commits hv h d).map (fun _ _ hf => hf)
      (fun rc _ hd => ⟨by rw [hd.1], hd.2⟩)
  | get o =>
    cases q with
    | nil =>
      have hpos := hget o rfl
      rw [h.count_eq] at hpos
      exact absurd hpos (by simp)
    | cons x q => exact ⟨x :: q, q, x, rfl, get_commits hv h⟩

/-- The test of the loop leaves the ring whole. -/
theorem ringAt_afterTest (hv : cfg.view.Valid) (h : Whole cfg.view m) (q : Request) :
    (cfg.afterTest q .ok (m .count)).RingAt cfg.view m := by
  obtain ⟨w, hw⟩ := h
  have hwait : (QueuePc.waitEnter q .cond).RingAt cfg.view m := fun _ => ⟨w, hw⟩
  have hload : (QueuePc.futexLoad q).RingAt cfg.view m := fun _ => ⟨w, hw⟩
  unfold afterTest
  rw [if_neg (by simp)]
  cases q with
  | qsize => exact fun _ => ⟨w, hw⟩
  | put d o =>
    simp only
    split_ifs
    · obtain ⟨q₀, q', data, heff, hb⟩ := cfg.ringBefore_ringOp hv hw (.put d o) (by simp)
        (by simp)
      exact ⟨q₀, q', data, heff, Or.inl hb⟩
    · exact fun _ => ⟨w, hw⟩
    · cases cfg.cls with
      | queue => exact hwait
      | futexQueue => exact hload
  | get o =>
    simp only
    split_ifs with hpos
    · obtain ⟨q₀, q', data, heff, hb⟩ := cfg.ringBefore_ringOp hv hw (.get o) (by simp)
        (fun _ _ => hpos)
      exact ⟨q₀, q', data, heff, Or.inl hb⟩
    · exact fun _ => ⟨w, hw⟩
    · cases cfg.cls with
      | queue => exact hwait
      | futexQueue => exact hload

/-! ## The invariant -/

section Runs

variable {Tid Pid : Type} [DecidableEq Tid] [DecidableEq Pid] (proc : Tid → Pid)

/-- The bytes object of a `get` is allocated here. -/
def allocates : QueuePc → Bool
  | .wake (.get _) _ => true
  | _ => false

/-- A recovery meets a ring that it can restore, and the bytes object for an item that has been
removed can be allocated. -/
def CalmStep (s : State Tid QueuePc (Shared Tid Pid Side Loc)) :
    Label Tid (QueueAnswer Tid) → Prop
  | .act t e => ∀ p ∈ s.pc t,
      (p.act = .mutex .lock → s.shared.mutex = .ownerDead → RecoverySafe cfg.view s.shared.mem) ∧
      (allocates p = true → e.flag = false)
  | .die _ => True

/-- The invariant of all calm runs. -/
structure AtomicInv (s : State Tid QueuePc (Shared Tid Pid Side Loc)) : Prop where
  lock : LockInv QueuePc.own s
  holds : ∃ q, Holds cfg.view s.shared.mem q
  free : s.shared.mutex = .unlocked → Whole cfg.view s.shared.mem
  owner : ∀ t p, s.pc t = some p → p.own ≠ .none → p.RingAt cfg.view s.shared.mem

variable {cfg proc} {s : State Tid QueuePc (Shared Tid Pid Side Loc)}
  {sh : Shared Tid Pid Side Loc} {t : Tid} {p : QueuePc} {e r : QueueAnswer Tid}

/-- A thread that does not own the mutex does not change the ring. -/
theorem mem_of_own_none (hown : p.own = .none)
    (hr : performFaulty proc t p.act e s.shared = some (r, sh)) : sh.mem = s.shared.mem := by
  rcases performFaulty_cases hr with ⟨-, -, rfl⟩ | hr
  · rfl
  · exact (perform_of_own_none hown hr).1

/-- A thread takes the mutex: it finds a whole ring, or one to recover. -/
theorem AtomicInv.acquire (hv : cfg.view.Valid) (h : AtomicInv cfg s)
    (hok : CalmStep cfg s (.act t e)) (hp : s.pc t = some p) (hact : p.act = .mutex .lock)
    (hr : perform proc t p.act e s.shared = some (r, sh)) (hown : (cfg.next p r).own ≠ .none) :
    (cfg.next p r).RingAt cfg.view s.shared.mem := by
  have hm : RobustMutex.apply (e.lock = .deadlock) t s.shared.mutex .lock =
      some (r.lock, sh.mutex) := by
    have := perform_mutex hr
    rwa [hact] at this
  have hans : r.lock = .ok ∨ r.lock = .ownerDead ∨ r.lock = .notRecoverable := by
    have hnone : p.own = .none := by
      rcases QueuePc.act_eq_lock hact with ⟨site, q, rfl⟩ | ⟨q, user, res, rfl⟩ <;> rfl
    have hop : p.act.mutexOp = some .lock := by rw [hact]; rfl
    have hans := h.lock.answers hp hr hop
    rwa [hnone] at hans
  have hwhole : r.lock = .ok → Whole cfg.view s.shared.mem := fun hl =>
    h.free (lock_ok (hl ▸ hm)).1
  have hsafe : r.lock = .ownerDead → RecoverySafe cfg.view s.shared.mem := fun hl =>
    (hok p hp).1 hact (apply_ownerDead (hl ▸ hm)).1
  obtain ⟨q₀, hq₀⟩ := h.holds
  rcases QueuePc.act_eq_lock hact with ⟨site, q, rfl⟩ | ⟨q, user, res, rfl⟩
  · rcases hans with hl | hl | hl
    · simp only [next, hl, lockRc, dite_true]
      exact cfg.ringAt_siteDone site q (hwhole hl)
    · simp only [next, hl, lockRc, reduceCtorEq, dite_false, if_true]
      exact ⟨q₀, recover_holds hv hq₀ (hsafe hl)⟩
    · simp only [next, hl, lockRc, reduceCtorEq, dite_false, if_false] at hown ⊢
      exact absurd (cfg.own_siteFailed _ _ _) hown
  · rcases hans with hl | hl | hl
    · simp only [next, hl, if_true]
      refine ⟨fun hrc => ?_, fun _ => hwhole hl⟩
      cases res <;> exact absurd hrc (by decide)
    · simp only [next, hl, lockRc, reduceCtorEq, if_false]
      exact ⟨fun _ => hsafe hl, fun hc =>
        absurd (show Own.inconsistent = Own.consistent from hc) (by decide)⟩
    · simp only [next, hl, lockRc, reduceCtorEq, if_false] at hown ⊢
      exact absurd rfl hown

omit [DecidableEq Tid] in
/-- Who unlocks a consistent mutex leaves a whole ring. -/
theorem whole_of_unlock {m : Mem} (hop : p.act.mutexOp = some .unlock)
    (hown : p.own = .consistent) (h : p.RingAt cfg.view m) : Whole cfg.view m := by
  cases p with
  | unlockOp q rc data => exact h hown
  | finish out o => exact h hown
  | futexUnlock q c => exact h hown
  | park q w user limit => exact h hown
  | unlockBad site q rc => exact absurd hown (by simp [QueuePc.own])
  | recovering site q prog => cases prog <;> simp [QueuePc.act, Act.mutexOp] at hop
  | test q prog => cases prog <;> simp [QueuePc.act, Act.mutexOp] at hop
  | ring q prog => cases prog <;> simp [QueuePc.act, Act.mutexOp] at hop
  | announce site q k => cases k <;> simp [QueuePc.act, Act.mutexOp] at hop
  | asleep q w user limit => cases w <;> cases limit <;> simp [QueuePc.act, Act.mutexOp] at hop
  | _ => simp [QueuePc.act, Act.mutexOp] at hop

/-- The mutex is free after a step: it was before, or its owner has unlocked it. -/
theorem AtomicInv.free_next (h : AtomicInv cfg s) (hp : s.pc t = some p)
    (hr : performFaulty proc t p.act e s.shared = some (r, sh)) (hfree : sh.mutex = .unlocked) :
    Whole cfg.view s.shared.mem := by
  rcases performFaulty_cases hr with ⟨-, -, rfl⟩ | hr
  · exact h.free hfree
  · by_cases hm : s.shared.mutex = .unlocked
    · exact h.free hm
    · have hmutex := perform_mutex hr
      cases hop : p.act.mutexOp with
      | none =>
        rw [hop] at hmutex
        exact absurd (hmutex.symm.trans hfree) hm
      | some op =>
        rw [hop] at hmutex
        simp only at hmutex
        rw [hfree] at hmutex
        obtain ⟨rfl, hlocked⟩ := apply_unlocked hmutex hm
        have hown := h.lock t
        rw [hp, own_eq_consistent.mpr hlocked] at hown
        have hcons : p.own = .consistent := hown.symm
        exact whole_of_unlock hop hcons (h.owner t p hp (by rw [hcons]; decide))

/-- What a step does to the ring, and where it leads. -/
structure RingStep (v : View) (p p' : QueuePc) (m m' : Mem) : Prop where
  holds : ∃ q, Holds v m' q
  next : p'.own ≠ .none → p'.RingAt v m'
  quiet : (∀ req prog, p ≠ .ring req prog) → contents v m' = contents v m

omit [DecidableEq Pid] in
/-- A step that stores nothing leaves the contents. -/
theorem AtomicInv.quiet (h : AtomicInv cfg s) {m' : Mem} (hm : m' = s.shared.mem) {p' : QueuePc}
    (hnext : p'.own ≠ .none → p'.RingAt cfg.view s.shared.mem) :
    RingStep cfg.view p p' s.shared.mem m' := by
  subst hm
  exact ⟨h.holds, hnext, fun _ => rfl⟩

omit [DecidableEq Tid] in
/-- The code locks, unlocks and declares consistent; it does not try or time out. -/
theorem mutexOp_cases (p : QueuePc) : p.act.mutexOp = none ∨ p.act = .mutex .lock ∨
    p.act.mutexOp = some .unlock ∨ p.act.mutexOp = some .consistent := by
  cases p with
  | recovering site q prog => cases prog <;> simp [QueuePc.act, Act.mutexOp]
  | test q prog => cases prog <;> simp [QueuePc.act, Act.mutexOp]
  | ring q prog => cases prog <;> simp [QueuePc.act, Act.mutexOp]
  | announce site q k => cases k <;> simp [QueuePc.act, Act.mutexOp]
  | park q w user limit => cases w <;> simp [QueuePc.act, Act.mutexOp]
  | asleep q w user limit => cases w <;> cases limit <;> simp [QueuePc.act, Act.mutexOp]
  | _ => simp [QueuePc.act, Act.mutexOp]

/-- Only a lock call makes a thread the owner. -/
theorem own_next_of_none (h : AtomicInv cfg s) (hp : s.pc t = some p) (hown : p.own = .none)
    (hact : p.act ≠ .mutex .lock) (hr : perform proc t p.act e s.shared = some (r, sh)) :
    (cfg.next p r).own = .none := by
  have hd := cfg.lockDiscipline p r
  rcases mutexOp_cases p with hop | hlock | hop | hop
  · rw [hop] at hd
    exact hd.trans hown
  · exact absurd hlock hact
  · have hans := h.lock.answers hp hr hop
    rw [hop] at hd
    have hnext := hd hans
    rw [hown] at hnext hans
    have hl : r.lock = .notOwner := hans
    rwa [hl] at hnext
  · have hans := h.lock.answers hp hr hop
    rw [hop] at hd
    have hnext := hd hans
    rw [hown] at hnext hans
    have hl : r.lock = .invalid := hans
    rwa [hl] at hnext

/-- **The owner's own step.** -/
theorem AtomicInv.owner_next (hv : cfg.view.Valid) (h : AtomicInv cfg s)
    (hp : s.pc t = some p) (hown : p.own ≠ .none)
    (hr : perform proc t p.act e s.shared = some (r, sh)) :
    RingStep cfg.view p (cfg.next p r) s.shared.mem sh.mem := by
  have hat := h.owner t p hp hown
  -- at most points nothing is stored
  have hsame : (∀ l v, p.act ≠ .store l v) → sh.mem = s.shared.mem := by
    intro hno
    rcases perform_mem hr with ⟨l, v, ha, -⟩ | ⟨-, hm⟩
    · exact absurd ha (hno l v)
    · exact hm
  cases p with
  | recovering site q prog =>
    obtain ⟨w, halways, hrc, hring⟩ := hat
    cases prog with
    | ret rc =>
      refine h.quiet (hsame (by simp [QueuePc.act])) fun _ => ?_
      have hrc' : rc = .ok := hrc
      subst hrc'
      exact ⟨w, hring⟩
    | load l k =>
      obtain ⟨hval, rfl⟩ := perform_load hr
      refine h.quiet rfl fun _ => ⟨w, ?_⟩
      rw [hval]
      exact ⟨halways.2, hrc, hring⟩
    | store l x k =>
      obtain ⟨-, rfl⟩ := Prod.mk.inj (Option.some.inj hr).symm
      refine ⟨⟨w, halways.2.here⟩, fun _ => ⟨w, halways.2, hrc, hring⟩, fun _ => ?_⟩
      exact halways.2.here.contents_eq.trans halways.1.contents_eq.symm
  | makeConsistent site q =>
    refine h.quiet (hsame (by simp [QueuePc.act])) fun _ => ?_
    simp only [next]
    split_ifs
    · exact fun _ => hat
    · exact cfg.ringAt_recoverFailed _ _ _
  | unlockBad site q rc =>
    refine h.quiet (hsame (by simp [QueuePc.act])) fun hne => ?_
    exact absurd (cfg.own_siteFailed site q rc) hne
  | announce site q k =>
    refine h.quiet (hsame (by cases k <;> simp [QueuePc.act])) fun _ => ?_
    have hwhole := hat rfl
    cases k with
    | wakeEmpty => exact cfg.ringAt_siteDone site q hwhole
    | _ => exact fun _ => hwhole
  | lockGil q rc =>
    refine h.quiet (hsame (by simp [QueuePc.act])) fun hne => ?_
    have hrc : rc = .ok := by
      by_contra hrc
      exact hown (by simp [QueuePc.own, hrc])
    simp only [next, hrc, if_true]
    exact ⟨Or.inl rfl, hat (by simp [QueuePc.own, hrc])⟩
  | test q prog =>
    obtain ⟨hprog, hwhole⟩ := hat
    rcases hprog with rfl | rfl
    · rw [posixipcQueueQsize_eq hv] at hr ⊢
      obtain ⟨hval, rfl⟩ := perform_load hr
      refine h.quiet rfl fun _ => ⟨Or.inr ?_, hwhole⟩
      rw [hval]
    · exact h.quiet (hsame (by simp [QueuePc.act])) fun _ => cfg.ringAt_afterTest hv hwhole q
  | ring q prog =>
    obtain ⟨w, w', data, heff, hphase⟩ := hat
    cases prog with
    | ret x =>
      have hwhole : Whole cfg.view s.shared.mem := by
        rcases hphase with hb | ha
        · exact ⟨w, hb.2.2⟩
        · exact ⟨w', ha.result.2⟩
      refine h.quiet (hsame (by simp [QueuePc.act])) fun _ => ?_
      simp only [next]
      split <;> exact fun _ => hwhole
    | load l k =>
      obtain ⟨hval, rfl⟩ := perform_load hr
      refine h.quiet rfl fun _ => ⟨w, w', data, heff, ?_⟩
      rw [hval]
      exact hphase.imp (fun hb => hb.2) fun ha => ⟨ha.always.2, ha.result⟩
    | store l x k =>
      obtain ⟨-, rfl⟩ := Prod.mk.inj (Option.some.inj hr).symm
      have hphase' : RingBefore cfg.view w w' data k (Function.update s.shared.mem l x) ∨
          RingAfter cfg.view w' data k (Function.update s.shared.mem l x) := by
        rcases hphase with hb | ha
        · exact hb.2
        · exact Or.inr ⟨ha.always.2, ha.result⟩
      refine ⟨?_, fun _ => ⟨w, w', data, heff, hphase'⟩, fun hno => absurd rfl (hno _ _)⟩
      rcases hphase' with hb | ha
      · exact ⟨w, hb.here⟩
      · exact ⟨w', ha.here⟩
  | bump q rc data => exact h.quiet (hsame (by simp [QueuePc.act])) fun _ _ => hat rfl
  | unlockOp q rc data =>
    refine h.quiet (hsame (by simp [QueuePc.act])) fun hne => ?_
    simp only [next] at hne ⊢
    split_ifs at hne ⊢ <;> exact absurd rfl hne
  | finish out o =>
    exact h.quiet (hsame (by simp [QueuePc.act])) fun hne => absurd rfl hne
  | futexLoad q => exact h.quiet (hsame (by simp [QueuePc.act])) fun _ _ => hat rfl
  | futexUnlock q c =>
    refine h.quiet (hsame (by simp [QueuePc.act])) fun hne => ?_
    have hl : r.lock = .ok := h.lock.answers hp hr rfl
    simp only [next, hl, if_true] at hne ⊢
    exact absurd rfl hne
  | waitEnter q w =>
    refine h.quiet (hsame (by simp [QueuePc.act])) fun _ => ?_
    cases w with
    | futex c => exact absurd rfl hown
    | cond =>
      have hwhole := hat rfl
      simp only [next, startWait]
      repeat' split
      all_goals first
        | exact cfg.ringAt_afterWait _ _ _ fun _ => hwhole
        | exact fun _ => hwhole
  | slice q w user =>
    refine h.quiet (hsame (by simp [QueuePc.act])) fun hne => ?_
    cases w with
    | futex c => exact absurd rfl hown
    | cond =>
      have hwhole := hat rfl
      simp only [next] at hne ⊢
      split
      · rename_i rc hrc
        have hne' : rc ≠ .eownerdead := by
          rintro rfl
          unfold posixipcNow at hrc
          split at hrc <;> simp at hrc
        simp only [waitReturn, if_neg hne']
        exact cfg.ringAt_afterWait _ _ _ fun _ => hwhole
      · exact fun _ => hwhole
  | drop q w user limit =>
    refine h.quiet (hsame (by simp [QueuePc.act])) fun _ => ?_
    cases w with
    | futex c => exact absurd rfl hown
    | cond => exact fun _ => hat rfl
  | park q w user limit =>
    cases w with
    | futex c => exact absurd rfl hown
    | cond =>
      have hl : r.lock = .ok := h.lock.answers hp hr rfl
      refine h.quiet (hsame (by simp [QueuePc.act])) fun hne => ?_
      simp only [next, hl, if_true] at hne ⊢
      exact absurd rfl hne
  | gil q w user rc =>
    refine h.quiet (hsame (by simp [QueuePc.act])) fun _ => ?_
    exact ⟨hat.1, fun hc => hat.2 hc⟩
  | back q w user rc =>
    refine h.quiet (hsame (by simp [QueuePc.act])) fun hne => ?_
    cases w with
    | futex c => exact absurd rfl hown
    | cond =>
      obtain ⟨w, hw⟩ := h.holds
      have hret : rc = .eownerdead →
          (QueuePc.recovering .condWake q (posixipcQueueRecover cfg.view)).RingAt cfg.view
            s.shared.mem := fun hrc => ⟨w, recover_holds hv hw (hat.1 hrc)⟩
      have hcons : rc = .etimedout → Whole cfg.view s.shared.mem := fun hrc =>
        hat.2 (by rw [hrc]; rfl)
      simp only [next]
      split_ifs with h1 h2
      · simp only [waitReturn, reduceCtorEq, if_false]
        exact cfg.ringAt_afterWait _ _ _ fun _ => hcons h1.2
      · exact fun _ => hcons h1.2
      · simp only [waitReturn]
        split_ifs with hdead
        · exact hret hdead
        · refine cfg.ringAt_afterWait _ _ _ fun hc => ?_
          have howned := cfg.own_afterWait q rc (condOwn rc) condOwn_ok
          exact hat.2 (howned.symm.trans hc)
  | check q w user =>
    refine h.quiet (hsame (by simp [QueuePc.act])) fun _ => ?_
    cases w with
    | futex c => exact absurd rfl hown
    | cond =>
      have hwhole := hat rfl
      simp only [next]
      cases user with
      | none => exact fun _ => hwhole
      | some d =>
        simp only
        split_ifs
        · simp only [waitReturn, reduceCtorEq, if_false]
          exact cfg.ringAt_afterWait _ _ _ fun _ => hwhole
        · exact fun _ => hwhole
  | _ => exact absurd rfl hown

/-- **One step of any thread.** -/
theorem AtomicInv.step_ring (hv : cfg.view.Valid) (h : AtomicInv cfg s)
    (hok : CalmStep cfg s (.act t e)) (hp : s.pc t = some p)
    (hr : performFaulty proc t p.act e s.shared = some (r, sh)) :
    RingStep cfg.view p (cfg.next p r) s.shared.mem sh.mem := by
  rcases performFaulty_cases hr with ⟨ha, hlock, rfl⟩ | hr'
  · obtain ⟨site, q, rfl⟩ := QueuePc.act_eq_consistent ha
    have hnext : cfg.next (.makeConsistent site q) r
        = cfg.recoverFailed site q ⟨.einval, by decide⟩ := by
      simp [next, hlock, lockRc]
    rw [hnext]
    exact h.quiet rfl fun _ => cfg.ringAt_recoverFailed _ _ _
  · by_cases hown : p.own = .none
    · refine h.quiet (mem_of_own_none hown hr) fun hne => ?_
      by_cases hact : p.act = .mutex .lock
      · exact h.acquire hv hok hp hact hr' hne
      · exact absurd (own_next_of_none h hp hown hact hr') hne
    · exact h.owner_next hv hp hown hr'

/-- While the mutex is free after a step, the step has not changed the ring. -/
theorem AtomicInv.mem_of_free (h : AtomicInv cfg s) (hp : s.pc t = some p)
    (hr : performFaulty proc t p.act e s.shared = some (r, sh)) (hfree : sh.mutex = .unlocked) :
    sh.mem = s.shared.mem := by
  rcases performFaulty_cases hr with ⟨-, -, rfl⟩ | hr
  · rfl
  · rcases perform_mem hr with ⟨l, x, ha, -⟩ | ⟨-, hm⟩
    · have hmutex := perform_mutex hr
      rw [ha] at hmutex
      have hsame : sh.mutex = s.shared.mutex := hmutex
      have hown := h.lock t
      rw [hp, ← hsame, hfree] at hown
      exact absurd hown.symm (QueuePc.own_of_store ha)
    · exact hm

/-- **Step lemma.** -/
theorem AtomicInv.step (hv : cfg.view.Valid) (h : AtomicInv cfg s)
    (hok : CalmStep cfg s (.act t e)) (hp : s.pc t = some p)
    (hr : performFaulty proc t p.act e s.shared = some (r, sh)) :
    AtomicInv cfg ⟨Function.update s.pc t (some (cfg.next p r)), sh⟩ := by
  have hstep := h.step_ring hv hok hp hr
  refine ⟨lockInv_faulty h.lock hp hr, hstep.holds, fun hfree => ?_, fun u q hq hqown => ?_⟩
  · show Whole cfg.view sh.mem
    rw [h.mem_of_free hp hr hfree]
    exact h.free_next hp hr hfree
  · by_cases hu : u = t
    · subst hu
      obtain rfl : cfg.next p r = q := by simpa using hq
      exact hstep.next hqown
    · have hq' : s.pc u = some q := by simpa [hu] using hq
      have hnone : p.own = .none := by
        by_contra hp'
        exact hu (h.lock.unique hq' hp hqown hp')
      show q.RingAt cfg.view sh.mem
      rw [mem_of_own_none hnone hr]
      exact h.owner u q hq' hqown

/-- A death leaves the ring as it is. -/
theorem AtomicInv.die (h : AtomicInv cfg s) :
    AtomicInv cfg ⟨Function.update s.pc t none, OsWorld.die proc t s.shared⟩ := by
  refine ⟨h.lock.die, h.holds, fun hfree => ?_, fun u q hq hqown => ?_⟩
  · have hfree' : RobustMutex.die t s.shared.mutex = .unlocked := hfree
    apply h.free
    cases hm : s.shared.mutex with
    | unlocked => rfl
    | locked x =>
      rw [hm, RobustMutex.die] at hfree'
      split at hfree' <;> cases hfree'
    | inconsistent x =>
      rw [hm, RobustMutex.die] at hfree'
      split at hfree' <;> cases hfree'
    | ownerDead =>
      rw [hm] at hfree'
      cases hfree'
    | notRecoverable =>
      rw [hm] at hfree'
      cases hfree'
  · by_cases hu : u = t
    · subst hu
      simp at hq
    · exact h.owner u q (by simpa [hu] using hq) hqown

/-- The invariant of every calm run. -/
theorem atomicInv_run (hv : cfg.view.Valid) (m : Mem)
    (hrun : (cfg.faultyMachine proc).Run (CalmStep cfg) (cfg.start Tid Pid m) s) :
    AtomicInv cfg s := by
  have hring := (posixipcQueueInitCtrl_spec hv m).2
  refine Machine.Run.invariant ?_ ?_ ?_ hrun
  · refine ⟨(cfg.baseInv_start proc m).lock, ⟨[], hring.holds⟩, fun _ => ⟨[], hring⟩, ?_⟩
    intro t p hp hown
    obtain rfl : QueuePc.away = p := by simpa [start] using hp
    exact absurd rfl hown
  · intro s t p e r sh hI hok hp hr
    exact hI.step hv hok hp hr
  · intro s t p hI _ _
    exact hI.die

/-! ## What a call has done so far -/

/-- What a step does to the contents. -/
def change (v : View) (_ : QueuePc) (sh sh' : Shared Tid Pid Side Loc) :
    List (List Item × List Item) :=
  if contents v sh.mem = contents v sh'.mem then [] else [(contents v sh.mem, contents v sh'.mem)]

/-- The thread is in a call. -/
def inCall : QueuePc → Prop
  | .away => False
  | .python _ => False
  | .leave => False
  | _ => True

/-- The call that a program point belongs to. -/
def callOf : QueuePc → Option Request
  | .away => none
  | .python _ => none
  | .leave => none
  | .finish _ _ => none
  | .beginLock q => some q
  | .lockCall _ q => some q
  | .recovering _ q _ => some q
  | .makeConsistent _ q => some q
  | .unlockBad _ q _ => some q
  | .announce _ q _ => some q
  | .lockGil q _ => some q
  | .test q _ => some q
  | .ring q _ => some q
  | .bump q _ _ => some q
  | .unlockOp q _ _ => some q
  | .wake q _ => some q
  | .futexLoad q => some q
  | .futexUnlock q _ => some q
  | .waitEnter q _ => some q
  | .slice q _ _ => some q
  | .drop q _ _ _ => some q
  | .park q _ _ _ => some q
  | .asleep q _ _ _ => some q
  | .reacquire q _ _ => some q
  | .gil q _ _ _ => some q
  | .back q _ _ _ => some q
  | .check q _ _ => some q

/-- The end of a call and the changes it has made. -/
def CallEnds (v : View) (req : Request) (cs : List (List Item × List Item)) : Outcome → Prop
  | .success data => ∃ q q', Effect v req q q' data ∧ cs = [(q, q')]
  | _ => cs = []

/-- A result of the ring operation and the changes it has made. -/
def RingEnds (v : View) (req : Request) (cs : List (List Item × List Item)) (rc : Rc)
    (data : List UInt8) : Prop :=
  (rc ≠ .ok ∧ cs = []) ∨ (rc = .ok ∧ CallEnds v req cs (.success data))

/-- **The changes that a call has made**, at each of its program points. -/
def CallInv (v : View) (req : Request) (cs : List (List Item × List Item)) (p : QueuePc)
    (sh : Shared Tid Pid Side Loc) : Prop :=
  match p with
  | .python out => ∃ o, out = some o ∧ CallEnds v req cs o
  | .finish out _ => CallEnds v req cs out
  | .ring req' prog => req' = req ∧ ∃ q q' data, Effect v req q q' data ∧
      ((cs = [] ∧ RingBefore v q q' data prog sh.mem) ∨
        (cs = [(q, q')] ∧ RingAfter v q' data prog sh.mem))
  | .bump req' rc data => req' = req ∧ RingEnds v req cs rc data
  | .unlockOp req' rc data => req' = req ∧ RingEnds v req cs rc data
  | .wake req' data => req' = req ∧ CallEnds v req cs (.success data)
  | p => callOf p = some req ∧ cs = []

variable {req : Request} {cs : List (List Item × List Item)}

section BeforeRing

omit [DecidableEq Tid] [DecidableEq Pid]

/-- At a point before the ring operation nothing has been changed. -/
theorem callInv_afterWait (q : Request) (rc : Rc) (o : Own) (hq : q = req) (hcs : cs = []) :
    CallInv cfg.view req cs (cfg.afterWait q rc o) sh := by
  unfold afterWait
  split_ifs
  · exact hcs
  · exact ⟨congrArg some hq, hcs⟩
  · exact hcs
  · exact hcs

/-- A lock site that is done has changed nothing. -/
theorem callInv_siteDone (site : LockSite) (q : Request) (hq : q = req) (hcs : cs = []) :
    CallInv cfg.view req cs (cfg.siteDone site q) sh := by
  cases site with
  | first => exact ⟨congrArg some hq, hcs⟩
  | condWake => exact callInv_afterWait q _ _ hq hcs
  | relock rc => exact callInv_afterWait q _ _ hq hcs

/-- A lock site that failed has changed nothing. -/
theorem callInv_siteFailed (site : LockSite) (q : Request) (rc : Failure) (hq : q = req)
    (hcs : cs = []) : CallInv cfg.view req cs (cfg.siteFailed site q rc) sh := by
  cases site with
  | first => exact ⟨congrArg some hq, hcs⟩
  | condWake => exact callInv_afterWait q _ _ hq hcs
  | relock rc => exact callInv_afterWait q _ _ hq hcs

/-- A failed recovery has changed nothing. -/
theorem callInv_recoverFailed (site : LockSite) (q : Request) (rc : Failure) (hq : q = req)
    (hcs : cs = []) : CallInv cfg.view req cs (cfg.recoverFailed site q rc) sh := by
  cases site with
  | condWake => exact callInv_afterWait q _ _ hq hcs
  | first => exact ⟨congrArg some hq, hcs⟩
  | relock rc => exact ⟨congrArg some hq, hcs⟩

/-- A wait that returns has changed nothing. -/
theorem callInv_waitReturn (q : Request) (w : WaitFn) (rc : Rc) (o : Own) (hq : q = req)
    (hcs : cs = []) : CallInv cfg.view req cs (cfg.waitReturn q w rc o) sh := by
  cases w with
  | cond =>
    rw [waitReturn]
    split_ifs
    · exact ⟨congrArg some hq, hcs⟩
    · exact callInv_afterWait q _ _ hq hcs
  | futex c => exact ⟨congrArg some hq, hcs⟩

/-- A wait that starts has changed nothing. -/
theorem callInv_startWait (q : Request) (w : WaitFn) (reading : Option Timespec) (hq : q = req)
    (hcs : cs = []) : CallInv cfg.view req cs (cfg.startWait q w reading) sh := by
  unfold startWait
  repeat' split
  all_goals first
    | exact callInv_afterWait q _ _ hq hcs
    | exact ⟨congrArg some hq, hcs⟩

/-- The test of the loop has changed nothing. -/
theorem callInv_afterTest (hv : cfg.view.Valid) (hwhole : Whole cfg.view sh.mem) (q : Request)
    (hq : q = req) (hcs : cs = []) :
    CallInv cfg.view req cs (cfg.afterTest q .ok (sh.mem .count)) sh := by
  subst hq
  obtain ⟨w, hw⟩ := hwhole
  have hwait : CallInv cfg.view q cs (.waitEnter q .cond) sh := ⟨rfl, hcs⟩
  have hload : CallInv cfg.view q cs (.futexLoad q) sh := ⟨rfl, hcs⟩
  unfold afterTest
  rw [if_neg (by simp)]
  cases q with
  | qsize => exact hcs
  | put d o =>
    simp only
    split_ifs
    · obtain ⟨q₀, q', data, heff, hb⟩ := cfg.ringBefore_ringOp hv hw (.put d o) (by simp)
        (by simp)
      exact ⟨rfl, q₀, q', data, heff, Or.inl ⟨hcs, hb⟩⟩
    · exact hcs
    · cases cfg.cls with
      | queue => exact hwait
      | futexQueue => exact hload
  | get o =>
    simp only
    split_ifs with hpos
    · obtain ⟨q₀, q', data, heff, hb⟩ := cfg.ringBefore_ringOp hv hw (.get o) (by simp)
        (fun _ _ => hpos)
      exact ⟨rfl, q₀, q', data, heff, Or.inl ⟨hcs, hb⟩⟩
    · exact hcs
    · cases cfg.cls with
      | queue => exact hwait
      | futexQueue => exact hload

end BeforeRing

/-- **A step of the ring operation.**  The one change is seen at the commit. -/
theorem callInv_ring {prog : RingProg (Rc × List UInt8)}
    (h : CallInv cfg.view req cs (.ring req prog) s.shared)
    (hr : perform proc t (QueuePc.ring req prog).act e s.shared = some (r, sh)) :
    CallInv cfg.view req (cs ++ change cfg.view (.ring req prog) s.shared sh)
      (cfg.next (.ring req prog) r) sh := by
  obtain ⟨-, q, q', data, heff, hphase⟩ := h
  have hnone : ∀ {w : List Item}, contents cfg.view s.shared.mem = w →
      contents cfg.view sh.mem = w → change cfg.view (.ring req prog) s.shared sh = [] :=
    fun h1 h2 => if_pos (h1.trans h2.symm)
  cases prog with
  | ret x =>
    have hmem : sh = s.shared := by
      obtain ⟨-, rfl⟩ := Prod.mk.inj (Option.some.inj hr).symm
      rfl
    rw [hnone (w := contents cfg.view s.shared.mem) rfl (by rw [hmem]), List.append_nil, hmem]
    have hends : RingEnds cfg.view req cs x.1 x.2 := by
      rcases hphase with ⟨hcs, hb⟩ | ⟨hcs, ha⟩
      · exact Or.inl ⟨hb.2.1, hcs⟩
      · have hx : x = (.ok, data) := ha.result.1
        subst hx
        exact Or.inr ⟨rfl, q, q', heff, hcs⟩
    simp only [next]
    split <;> exact ⟨rfl, hends⟩
  | load l k =>
    obtain ⟨hval, rfl⟩ := perform_load hr
    rw [hnone rfl rfl, List.append_nil]
    refine ⟨rfl, q, q', data, heff, ?_⟩
    rw [hval]
    exact hphase.imp (fun hb => ⟨hb.1, hb.2.2⟩) fun ha => ⟨ha.1, ha.2.always.2, ha.2.result⟩
  | store l x k =>
    obtain ⟨-, rfl⟩ := Prod.mk.inj (Option.some.inj hr).symm
    refine ⟨rfl, q, q', data, heff, ?_⟩
    rcases hphase with ⟨hcs, hold, hb | ha⟩ | ⟨hcs, ha⟩
    · rw [hnone hold.contents_eq hb.here.contents_eq, List.append_nil]
      exact Or.inl ⟨hcs, hb⟩
    · -- the commit
      have hchange : change cfg.view (.ring req (.store l x k)) s.shared
          { s.shared with mem := Function.update s.shared.mem l x } = [(q, q')] := by
        unfold change
        rw [hold.contents_eq]
        simp only [ha.here.contents_eq]
        exact if_neg heff.ne
      rw [hchange, hcs, List.nil_append]
      exact Or.inr ⟨rfl, ha⟩
    · have ha' : RingAfter cfg.view q' data k (Function.update s.shared.mem l x) :=
        ⟨ha.always.2, ha.result⟩
      rw [hnone ha.here.contents_eq ha'.here.contents_eq, List.append_nil]
      exact Or.inr ⟨hcs, ha'⟩

/-- **A step of a call.** -/
theorem callInv_step (hv : cfg.view.Valid) (hI : AtomicInv cfg s)
    (hok : CalmStep cfg s (.act t e)) (hp : s.pc t = some p) (hin : inCall p)
    (hr : performFaulty proc t p.act e s.shared = some (r, sh))
    (h : CallInv cfg.view req cs p s.shared) :
    CallInv cfg.view req (cs ++ change cfg.view p s.shared sh) (cfg.next p r) sh := by
  have hstep := hI.step_ring hv hok hp hr
  by_cases hring : ∃ req' prog, p = .ring req' prog
  · obtain ⟨req', prog, rfl⟩ := hring
    obtain rfl : req' = req := h.1
    rcases performFaulty_cases hr with ⟨ha, -, -⟩ | hr
    · cases prog <;> simp [QueuePc.act] at ha
    · exact callInv_ring h hr
  -- all other steps leave the contents alone
  have hquiet : change cfg.view p s.shared sh = [] :=
    if_pos (hstep.quiet fun req' prog hpr => hring ⟨req', prog, hpr⟩).symm
  rw [hquiet, List.append_nil]
  cases p with
  | away => exact hin.elim
  | python out => exact hin.elim
  | leave => exact hin.elim
  | ring req' prog => exact absurd ⟨req', prog, rfl⟩ hring
  | beginLock q => exact h
  | lockCall site q =>
    obtain ⟨hq, hcs⟩ := h
    simp only [next]
    split_ifs
    · exact callInv_siteDone site q (Option.some.inj hq) hcs
    · exact ⟨hq, hcs⟩
    · exact callInv_siteFailed site q _ (Option.some.inj hq) hcs
  | recovering site q prog =>
    obtain ⟨hq, hcs⟩ := h
    cases prog with
    | ret rc =>
      simp only [next]
      split_ifs
      · exact ⟨hq, hcs⟩
      · exact callInv_recoverFailed site q _ (Option.some.inj hq) hcs
    | load l k => exact ⟨hq, hcs⟩
    | store l x k => exact ⟨hq, hcs⟩
  | makeConsistent site q =>
    obtain ⟨hq, hcs⟩ := h
    simp only [next]
    split_ifs
    · exact ⟨hq, hcs⟩
    · exact callInv_recoverFailed site q _ (Option.some.inj hq) hcs
  | unlockBad site q rc => exact callInv_siteFailed site q rc (Option.some.inj h.1) h.2
  | announce site q k =>
    cases k with
    | wakeEmpty => exact callInv_siteDone site q (Option.some.inj h.1) h.2
    | _ => exact h
  | lockGil q rc =>
    obtain ⟨hq, hcs⟩ := h
    simp only [next]
    split_ifs
    · exact ⟨hq, hcs⟩
    · exact ⟨_, rfl, hcs⟩
    · exact ⟨_, rfl, hcs⟩
  | test q prog =>
    obtain ⟨hq, hcs⟩ := h
    obtain ⟨hprog, hwhole⟩ := hI.owner t _ hp (by simp [QueuePc.own])
    rcases hprog with rfl | rfl
    · rw [posixipcQueueQsize_eq hv]
      exact ⟨hq, hcs⟩
    · have hsh : sh = s.shared := by
        rcases performFaulty_cases hr with ⟨-, -, rfl⟩ | hr
        · rfl
        · obtain ⟨-, rfl⟩ := Prod.mk.inj (Option.some.inj hr).symm
          rfl
      rw [hsh]
      exact callInv_afterTest hv hwhole q (Option.some.inj hq) hcs
  | bump q rc data => exact h
  | unlockOp q rc data =>
    obtain ⟨hq, hends⟩ := h
    simp only [next]
    split_ifs with hrc
    · rcases hends with ⟨hne, -⟩ | ⟨-, hsucc⟩
      · exact absurd hrc hne
      · exact ⟨hq, hsucc⟩
    · rcases hends with ⟨-, hcs⟩ | ⟨hrc', -⟩
      · exact ⟨_, rfl, hcs⟩
      · exact absurd hrc' hrc
  | wake q data =>
    obtain ⟨rfl, hsucc⟩ := h
    have hflag : r.flag = e.flag := by
      rcases performFaulty_cases hr with ⟨ha, -, -⟩ | hr
      · cases ha
      · simp only [QueuePc.act, perform] at hr
        grind
    cases q with
    | get o =>
      have hcalm : e.flag = false := (hok _ hp).2 rfl
      simp only [next, hflag, hcalm]
      exact ⟨_, rfl, hsucc⟩
    | put d o => exact ⟨_, rfl, hsucc⟩
    | qsize => exact ⟨_, rfl, hsucc⟩
  | finish out o => exact ⟨out, rfl, h⟩
  | futexLoad q => exact h
  | futexUnlock q c =>
    simp only [next]
    split_ifs
    · exact h
    · exact callInv_afterWait q _ _ (Option.some.inj h.1) h.2
  | waitEnter q w => exact callInv_startWait q w _ (Option.some.inj h.1) h.2
  | slice q w user =>
    simp only [next]
    split
    · exact callInv_waitReturn q w _ _ (Option.some.inj h.1) h.2
    · exact h
  | drop q w user limit => exact h
  | park q w user limit =>
    cases w <;> simp only [next] <;> split_ifs <;> exact h
  | asleep q w user limit => cases w <;> exact h
  | reacquire q user res =>
    simp only [next]
    split_ifs <;> exact h
  | gil q w user rc => exact h
  | back q w user rc =>
    simp only [next]
    split_ifs
    · exact callInv_waitReturn q w _ _ (Option.some.inj h.1) h.2
    · exact h
    · exact callInv_waitReturn q w _ _ (Option.some.inj h.1) h.2
  | check q w user =>
    simp only [next]
    cases user with
    | none => exact h
    | some d =>
      simp only
      split_ifs
      · exact callInv_waitReturn q w _ _ (Option.some.inj h.1) h.2
      · exact h

/-- While a thread is at a point of a call, the others cannot disturb what it knows. -/
theorem callInv_other (hI : AtomicInv cfg s) {l : Label Tid (QueueAnswer Tid)}
    {s' : State Tid QueuePc (Shared Tid Pid Side Loc)} (hne : l.thread ≠ t)
    (hs : (cfg.faultyMachine proc).step s l = some s') (hp : s.pc t = some p)
    (h : CallInv cfg.view req cs p s.shared) : CallInv cfg.view req cs p s'.shared := by
  -- only in a ring operation does the invariant speak of the memory, and then `t` owns the lock
  by_cases hring : ∃ req' prog, p = .ring req' prog
  · obtain ⟨req', prog, rfl⟩ := hring
    have hmem : s'.shared.mem = s.shared.mem := by
      cases l with
      | act u e =>
        obtain ⟨p', r, sh, hp', hr, rfl⟩ := Machine.step_act hs
        have hnone : p'.own = .none := by
          by_contra hown
          exact hne (hI.lock.unique hp' hp hown (by simp [QueuePc.own]))
        exact mem_of_own_none hnone hr
      | die u =>
        obtain ⟨p', -, rfl⟩ := Machine.step_die hs
        rfl
    unfold CallInv at h ⊢
    simp only [hmem]
    exact h
  · unfold CallInv at h ⊢
    cases p with
    | ring req' prog => exact absurd ⟨req', prog, rfl⟩ hring
    | _ => exact h

end Runs

end QueueConfig

/-! ## The methods -/

/-- The flags and pointers that `queue_check_open` and `fq_check_open` look at. -/
structure QueueFlags where
  closed : Bool
  bound : Bool
  putLock : Bool
  region : Bool

/-- `queue_check_open`, `fq_check_open`. -/
def queueCheckOpen (f : QueueFlags) : Except PyError Unit :=
  if f.closed then .error .closedError
  else if f.bound = false ∨ f.putLock = false ∨ f.region = false then
    .error (.runtimeError "handle is not bound; call Layout.create() or attach() first")
  else .ok ()

/-- The four methods.  `data` is what `PyObject_GetBuffer` finds in the argument, `opts` what
`posixipc_parse_acquire` finds in the others. -/
inductive QueueMethod
  | put (data : Except PyError (List UInt8)) (opts : Except PyError AcquireOpts)
  | putNowait (data : Except PyError (List UInt8))
  | get (opts : Except PyError AcquireOpts)
  | getNowait

/-- `queue_put`, `fq_put` up to the lock. -/
def putEntry (v : View) (f : QueueFlags) (data : Except PyError (List UInt8))
    (opts : Except PyError AcquireOpts) : Except PyError Request := do
  queueCheckOpen f
  let o ← opts
  let bytes ← data
  if bytes.length ≠ v.itemSize then
    .error (.valueError "put() data length must equal item_size")
  else .ok (.put (fun j => bytes.getD j 0) o)

/-- `queue_get`, `fq_get` up to the allocation of their buffer. -/
def getEntry (f : QueueFlags) (opts : Except PyError AcquireOpts) : Except PyError Request := do
  queueCheckOpen f
  let o ← opts
  .ok (.get o)

/-- The keyword argument `blocking=False`; its name and the tuple are allocated first. -/
def nowaitOpts (names tuple : Bool) : Except PyError AcquireOpts :=
  if names = false ∨ tuple = false then .error .memoryError
  else .ok { AcquireOpts.default with blocking := false }

/-- The checks of a method.  `names` and `tuple` say whether the two allocations of the
`nowait` methods succeed. -/
def QueueMethod.entry (v : View) (f : QueueFlags) (names tuple : Bool) :
    QueueMethod → Except PyError Request
  | .put data opts => putEntry v f data opts
  | .get opts => getEntry f opts
  | .putNowait data => do
    let o ← nowaitOpts names tuple
    putEntry v f data (.ok o)
  | .getNowait => do
    let o ← nowaitOpts names tuple
    getEntry f (.ok o)

/-- The bytes that a method is given. -/
def QueueMethod.data : QueueMethod → Option (List UInt8)
  | .put (.ok bytes) _ => some bytes
  | .putNowait (.ok bytes) => some bytes
  | _ => none

/-- How a method ends. -/
inductive MethodEnd
  | refused (e : PyError)
  | ended (out : Outcome)

/-- What a method may have done to the queue: a `put` that returns `True` has appended its
bytes, a `get` that returns bytes has removed them from the front, and every other call has
changed nothing. -/
def MethodEffect (c : QueueMethod) (fin : MethodEnd) (cs : List (List Item × List Item)) :
    Prop :=
  match fin with
  | .ended (.success out) =>
    match c with
    | .put _ _ => ∃ bytes q, c.data = some bytes ∧ cs = [(q, q ++ [bytes])]
    | .putNowait _ => ∃ bytes q, c.data = some bytes ∧ cs = [(q, q ++ [bytes])]
    | .get _ => ∃ q, cs = [(out :: q, q)]
    | .getNowait => ∃ q, cs = [(out :: q, q)]
  | _ => cs = []

section Methods

variable {Tid Pid : Type} [DecidableEq Tid] [DecidableEq Pid]

/-- **A call of a method** by thread `t` in a run from the initialised queue, its end, and the
changes it has made.  A call that its checks refuse takes no step. -/
inductive MethodRun (cfg : QueueConfig) (proc : Tid → Pid) (m : Mem)
    (Ok : State Tid QueuePc (Shared Tid Pid Side Loc) → Label Tid (QueueAnswer Tid) → Prop)
    (t : Tid) (c : QueueMethod) : MethodEnd → List (List Item × List Item) → Prop
  | refused (f : QueueFlags) (names tuple : Bool) (e : PyError)
      (hentry : c.entry cfg.view f names tuple = .error e) :
      MethodRun cfg proc m Ok t c (.refused e) []
  | entered (f : QueueFlags) (names tuple : Bool) (req : Request) (last : Option Outcome)
      (s₀ s₁ s₂ : State Tid QueuePc (Shared Tid Pid Side Loc)) (e : QueueAnswer Tid)
      (cs : List (List Item × List Item)) (out : Outcome)
      (hentry : c.entry cfg.view f names tuple = .ok req)
      (hrun : (cfg.faultyMachine proc).Run Ok (cfg.start Tid Pid m) s₀)
      (hpc : s₀.pc t = some (.python last)) (hreq : e.req = some req) (hok : Ok s₀ (.act t e))
      (hstep : (cfg.faultyMachine proc).step s₀ (.act t e) = some s₁)
      (hspan : (cfg.faultyMachine proc).Span Ok t QueueConfig.inCall
        (QueueConfig.change cfg.view) s₁ cs s₂)
      (hend : s₂.pc t = some (.python (some out))) :
      MethodRun cfg proc m Ok t c (.ended out)
        (QueueConfig.change cfg.view (.python last) s₀.shared s₁.shared ++ cs)

/-- A buffer of the right length is stored as it is. -/
theorem bytesOf_getD {v : View} {bytes : List UInt8} (h : bytes.length = v.itemSize) :
    bytesOf v (fun j => bytes.getD j 0) = bytes := by
  unfold bytesOf
  rw [← h]
  apply List.ext_getElem
  · simp
  · intro j hj hj'
    simp [hj']

/-- A `put` request carries the bytes of its method. -/
theorem putEntry_ok {v : View} {f : QueueFlags} {data : Except PyError (List UInt8)}
    {opts : Except PyError AcquireOpts} {req : Request} (h : putEntry v f data opts = .ok req) :
    ∃ bytes o, data = .ok bytes ∧ bytes.length = v.itemSize ∧
      req = .put (fun j => bytes.getD j 0) o := by
  unfold putEntry at h
  rcases hf : queueCheckOpen f with e | u
  · rw [hf] at h
    exact nomatch h
  · rcases opts with e | o
    · rw [hf] at h
      exact nomatch h
    · rcases data with e | bytes
      · rw [hf] at h
        exact nomatch h
      · rw [hf] at h
        by_cases hlen : bytes.length ≠ v.itemSize
        · simp only [bind, Except.bind, if_pos hlen] at h
          exact nomatch h
        · simp only [bind, Except.bind, if_neg hlen] at h
          exact ⟨bytes, o, rfl, not_not.mp hlen, (Except.ok.inj h).symm⟩

/-- `get` asks for an item. -/
theorem getEntry_ok {f : QueueFlags} {opts : Except PyError AcquireOpts} {req : Request}
    (h : getEntry f opts = .ok req) : ∃ o, req = .get o := by
  unfold getEntry at h
  rcases hf : queueCheckOpen f with e | u
  · rw [hf] at h
    exact nomatch h
  · rcases opts with e | o
    · rw [hf] at h
      exact nomatch h
    · rw [hf] at h
      exact ⟨o, (Except.ok.inj h).symm⟩

/-- What the request of a method does, said of the method. -/
theorem methodEffect_of_callEnds {v : View} {f : QueueFlags} {names tuple : Bool}
    {c : QueueMethod} {req : Request} {out : Outcome} {cs : List (List Item × List Item)}
    (hentry : c.entry v f names tuple = .ok req) (h : QueueConfig.CallEnds v req cs out) :
    MethodEffect c (.ended out) cs := by
  have hput : ∀ {data : Except PyError (List UInt8)} {opts : Except PyError AcquireOpts}
      {bs : List UInt8}, putEntry v f data opts = .ok req →
      QueueConfig.CallEnds v req cs (.success bs) →
      ∃ bytes q, data = .ok bytes ∧ cs = [(q, q ++ [bytes])] := by
    rintro data opts bs hreq ⟨q, q', heff, rfl⟩
    obtain ⟨bytes, o, rfl, hlen, rfl⟩ := putEntry_ok hreq
    obtain ⟨rfl, -⟩ := heff
    exact ⟨bytes, q, rfl, by rw [bytesOf_getD hlen]⟩
  have hget : ∀ {opts : Except PyError AcquireOpts} {bs : List UInt8},
      getEntry f opts = .ok req → QueueConfig.CallEnds v req cs (.success bs) →
      ∃ q, cs = [(bs :: q, q)] := by
    rintro opts bs hreq ⟨q, q', heff, rfl⟩
    obtain ⟨o, rfl⟩ := getEntry_ok hreq
    have hq : q = bs :: q' := heff
    exact ⟨q', by rw [hq]⟩
  cases out with
  | success bs =>
    cases c with
    | put data opts =>
      obtain ⟨bytes, q, hdata, hcs⟩ := hput hentry h
      exact ⟨bytes, q, by rw [hdata]; rfl, hcs⟩
    | get opts => exact hget hentry h
    | putNowait data =>
      rcases ho : nowaitOpts names tuple with e | o
      · rw [QueueMethod.entry, ho] at hentry
        exact nomatch hentry
      · rw [QueueMethod.entry, ho] at hentry
        obtain ⟨bytes, q, hdata, hcs⟩ := hput hentry h
        exact ⟨bytes, q, by rw [hdata]; rfl, hcs⟩
    | getNowait =>
      rcases ho : nowaitOpts names tuple with e | o
      · rw [QueueMethod.entry, ho] at hentry
        exact nomatch hentry
      · rw [QueueMethod.entry, ho] at hentry
        exact hget hentry h
  | _ => exact h

/-- **Queue calls are all or nothing.**  In every run of any number of threads of any processes
on one mapped `Queue` or `FutexQueue`, deaths and failed calls of the mutex included, in which
recoveries meet rings that they can restore and the bytes objects of `get` can be allocated. -/
theorem queue_calls_all_or_nothing {cacheline nbytes depth itemSize : ℕ} {bytes : Option ℕ}
    {v : View} (hmap : posixipcQueueMap cacheline bytes nbytes depth itemSize = .ok v)
    (cls : QueueClass) (clk : ClockId) (proc : Tid → Pid) (m : Mem) (t : Tid) (c : QueueMethod)
    {fin : MethodEnd} {cs : List (List Item × List Item)}
    (h : MethodRun ⟨cls, v, clk⟩ proc m (QueueConfig.CalmStep ⟨cls, v, clk⟩) t c fin cs) :
    MethodEffect c fin cs := by
  obtain ⟨hv, -, -⟩ := posixipcQueueMap_valid hmap
  cases h with
  | refused f names tuple e hentry => rfl
  | entered f names tuple req last s₀ s₁ s₂ e cs out hentry hrun hpc hreq hok hstep hspan hend =>
    obtain ⟨p, r, sh, hp, hr, rfl⟩ := Machine.step_act hstep
    obtain rfl := Option.some.inj (hpc.symm.trans hp)
    -- the first step only asks for the request
    have hfirst : r = e ∧ sh = s₀.shared := by
      obtain ⟨rfl, rfl⟩ := Prod.mk.inj (Option.some.inj hr).symm
      exact ⟨rfl, rfl⟩
    obtain ⟨rfl, rfl⟩ := hfirst
    have hnone : QueueConfig.change v (.python last) s₀.shared s₀.shared = [] := if_pos rfl
    rw [hnone, List.nil_append]
    refine methodEffect_of_callEnds hentry ?_
    have hrun₁ := hrun.step hok hstep
    have hinv := Machine.Span.invariant (J := QueueConfig.CallInv v req)
      (fun s hs => QueueConfig.atomicInv_run hv m hs) hrun₁ ?_
      (fun s l s' os p hI hne _ hs hp hJ => QueueConfig.callInv_other hI hne hs hp hJ)
      (fun s os p e r sh hI hok hp hin hr hJ => QueueConfig.callInv_step hv hI hok hp hin hr hJ)
      hspan _ hend
    · obtain ⟨o, ho, hends⟩ := hinv
      obtain rfl := Option.some.inj ho
      exact hends
    · intro p hp
      have hnext : QueueConfig.next ⟨cls, v, clk⟩ (.python last) r = p :=
        Option.some.inj ((Function.update_self t _ s₀.pc).symm.trans hp)
      rw [← hnext]
      simp only [QueueConfig.next, hreq]
      cases req with
      | get o =>
        simp only
        split_ifs
        · exact ⟨_, rfl, rfl⟩
        · exact ⟨rfl, rfl⟩
      | put d o => exact ⟨rfl, rfl⟩
      | qsize => exact ⟨rfl, rfl⟩

end Methods

/-! ## One thread on a queue of depth one -/

/-- A `Queue` of depth 1 for items of two bytes: the bytes object of one byte is shared and
never allocated. -/
def pairQueue : QueueConfig := ⟨.queue, ⟨some 0, some 64, some 128, 1, 2, 64⟩, .monotonic⟩

/-- A bound handle that is open. -/
def openHandle : QueueFlags := ⟨false, true, true, true⟩

/-- The machine of one thread. -/
abbrev soloMachine : Machine Unit QueuePc (Act Side Loc) (QueueAnswer Unit) (QueueAnswer Unit)
    (Shared Unit Unit Side Loc) :=
  pairQueue.faultyMachine fun _ => ()

/-- The queue before anyone has called. -/
abbrev soloStart : State Unit QueuePc (Shared Unit Unit Side Loc) :=
  pairQueue.start Unit Unit fun _ => 0

/-- A step in a call. -/
def soloInside : QueuePc → Bool
  | .away => false
  | .python _ => false
  | .leave => false
  | _ => true

/-- The mutex has no dead owner. -/
def soloAlive : RobustMutex.State Unit → Bool
  | .ownerDead => false
  | _ => true

/-- A step in a call that meets no dead owner and no failed allocation. -/
def soloGood (p : QueuePc) (s : State Unit QueuePc (Shared Unit Unit Side Loc))
    (e : QueueAnswer Unit) : Bool :=
  soloInside p && soloAlive s.shared.mutex && !e.flag

/-- A thread that runs alone is in its call. -/
theorem inCall_of_soloInside {p : QueuePc} (h : soloInside p = true) : QueueConfig.inCall p := by
  cases p with
  | away => exact nomatch h
  | python last => exact nomatch h
  | leave => exact nomatch h
  | _ => trivial

/-- A good step of a thread that runs alone is a calm one. -/
theorem soloGood_calm (p : QueuePc) (s : State Unit QueuePc (Shared Unit Unit Side Loc))
    (e : QueueAnswer Unit) (_ : s.pc () = some p) (h : soloGood p s e = true) :
    QueueConfig.inCall p ∧ QueueConfig.CalmStep pairQueue s (.act () e) := by
  obtain ⟨hpm, hflag⟩ := Bool.and_eq_true_iff.mp h
  obtain ⟨hin, halive⟩ := Bool.and_eq_true_iff.mp hpm
  refine ⟨inCall_of_soloInside hin, fun q hq => ⟨fun _ hdead => ?_, fun _ => ?_⟩⟩
  · rw [hdead] at halive
    exact nomatch halive
  · exact Bool.not_eq_true' _ ▸ hflag

/-- The first steps of the thread, up to the lock of its call. -/
theorem calmStep_outside {s : State Unit QueuePc (Shared Unit Unit Side Loc)} {p : QueuePc}
    {e : QueueAnswer Unit} (hp : s.pc () = some p) (hin : soloInside p = false) :
    QueueConfig.CalmStep pairQueue s (.act () e) := by
  intro q hq
  obtain rfl := Option.some.inj (hp.symm.trans hq)
  cases p with
  | away => exact ⟨fun h => (nomatch h), fun h => (nomatch h)⟩
  | python last => exact ⟨fun h => (nomatch h), fun h => (nomatch h)⟩
  | leave => exact ⟨fun h => (nomatch h), fun h => (nomatch h)⟩
  | _ => exact nomatch hin

/-- The state after the thread has taken the GIL. -/
def soloReady : State Unit QueuePc (Shared Unit Unit Side Loc) :=
  (soloMachine.run soloStart (steps () 1)).getD soloStart

/-- The request of `put(b"\x07\x08")`. -/
def pairRequest : Request := .put (fun j => [7, 8].getD j 0) .default

/-- The state after the first step of `put`. -/
def soloPut : State Unit QueuePc (Shared Unit Unit Side Loc) :=
  (soloMachine.run soloStart (request () pairRequest)).getD soloStart

theorem queue_calls_all_or_nothing_put :
    MethodRun pairQueue (fun _ : Unit => ()) (fun _ => 0) (QueueConfig.CalmStep pairQueue) ()
        (.put (.ok [7, 8]) (.ok .default)) (.ended (.success [])) [([], [[7, 8]])] ∧
      MethodEffect (.put (.ok [7, 8]) (.ok .default)) (.ended (.success [])) [([], [[7, 8]])] := by
  have hsome : (soloMachine.ownSteps () (QueueConfig.change pairQueue.view) soloGood soloPut
      (List.replicate 17 calm)).isSome := by decide +kernel
  have hspan := Machine.Span.of_ownSteps soloGood_calm hsome
  have hready : soloMachine.Run (QueueConfig.CalmStep pairQueue) soloStart soloReady :=
    .step (l := .act () calm) .start (calmStep_outside rfl rfl) rfl
  have hrun : MethodRun pairQueue (fun _ : Unit => ()) (fun _ => 0)
      (QueueConfig.CalmStep pairQueue) () (.put (.ok [7, 8]) (.ok .default))
      (.ended (.success [])) [([], [[7, 8]])] :=
    .entered openHandle true true pairRequest none soloReady soloPut _
      { calm with req := some pairRequest } _ (.success []) rfl hready rfl rfl
      (calmStep_outside rfl rfl) rfl hspan rfl
  have hmap : posixipcQueueMap 64 (some 0) 192 1 2 = .ok pairQueue.view := rfl
  exact ⟨hrun, queue_calls_all_or_nothing hmap .queue .monotonic (fun _ => ()) (fun _ => 0) ()
    (.put (.ok [7, 8]) (.ok .default)) hrun⟩

/-- The item is in the queue, and the thread is back in Python. -/
def soloFull : State Unit QueuePc (Shared Unit Unit Side Loc) :=
  (soloMachine.run soloStart (request () pairRequest ++ steps () 17)).getD soloStart

/-- The first step of `get()`. -/
def askGet : QueueAnswer Unit := { calm with req := some (.get .default) }

/-- The state after the first step of `get`. -/
def soloGet : State Unit QueuePc (Shared Unit Unit Side Loc) :=
  (soloMachine.step soloFull (.act () askGet)).getD soloStart

/-- **An item is lost**: `get` has removed it and unlocked, and then the bytes object that it
would return cannot be allocated. -/
theorem queue_get_loses_item :
    posixipcQueueMap 64 (some 0) 192 1 2 = .ok pairQueue.view ∧
      MethodRun pairQueue (fun _ : Unit => ()) (fun _ => 0) (fun _ _ => True) ()
        (.get (.ok .default)) (.ended .noMemory) [([[7, 8]], [])] ∧
      ¬ MethodEffect (.get (.ok .default)) (.ended .noMemory) [([[7, 8]], [])] := by
  have hsome : (soloMachine.ownSteps () (QueueConfig.change pairQueue.view)
      (fun p _ _ => soloInside p) soloGet
      (List.replicate 17 calm ++ [{ calm with flag := true }])).isSome := by decide +kernel
  have hspan : soloMachine.Span (fun _ _ => True) () QueueConfig.inCall _ soloGet _ _ :=
    .of_ownSteps (fun _ _ _ _ hin => ⟨inCall_of_soloInside hin, trivial⟩) hsome
  have hfull : soloMachine.Run (fun _ _ => True) soloStart soloFull :=
    Machine.Run.of_isSome (fun _ _ _ => trivial) rfl
  refine ⟨rfl, ?_, fun h => nomatch h⟩
  exact .entered openHandle true true (.get .default) (some (.success [])) soloFull soloGet _
    askGet _ .noMemory rfl hfull rfl rfl trivial rfl hspan rfl

end PosixIpc
