/-
# The robust mutex automaton

An error-checking robust mutex as POSIX describes it.  Its owner may die; the next
thread that locks it learns so and owns it in the inconsistent state, from which it either
declares the protected data consistent or, by unlocking, makes the mutex not recoverable.
`apply` gives `none` where the caller blocks.

`Own` is one thread's view of the mutex.  `apply_own` says how a call changes the view of
its caller, which answers the caller can get there, and that no other view changes.
-/
import Mathlib

namespace RobustMutex

variable {Tid : Type}

/-- The five states. -/
inductive State (Tid : Type)
  | unlocked
  | locked (t : Tid)
  | ownerDead
  | inconsistent (t : Tid)
  | notRecoverable
  deriving DecidableEq

/-- What the calls answer. -/
inductive Result
  | ok
  | ownerDead
  | notRecoverable
  | deadlock
  | busy
  | timedOut
  | notOwner
  | invalid
  deriving DecidableEq

/-- `t` owns the mutex, consistent or not. -/
def State.OwnedBy (m : State Tid) (t : Tid) : Prop := m = .locked t ∨ m = .inconsistent t

variable [DecidableEq Tid]

/-- `pthread_mutex_lock` by `t`. -/
def lock (t : Tid) : State Tid → Option (Result × State Tid)
  | .unlocked => some (.ok, .locked t)
  | .ownerDead => some (.ownerDead, .inconsistent t)
  | .notRecoverable => some (.notRecoverable, .notRecoverable)
  | .locked u => if u = t then some (.deadlock, .locked u) else none
  | .inconsistent u => if u = t then some (.deadlock, .inconsistent u) else none

/-- `pthread_mutex_trylock` by `t`.  To its owner the mutex is busy as to others, or, where the call
`checks`, a deadlock. -/
def tryLock (checks : Bool) (t : Tid) : State Tid → Result × State Tid
  | .unlocked => (.ok, .locked t)
  | .ownerDead => (.ownerDead, .inconsistent t)
  | .notRecoverable => (.notRecoverable, .notRecoverable)
  | .locked u => (if u = t ∧ checks then .deadlock else .busy, .locked u)
  | .inconsistent u => (if u = t ∧ checks then .deadlock else .busy, .inconsistent u)

/-- `pthread_mutex_timedlock` by `t`: where it would block, it may time out. -/
def timedLock (t : Tid) (m : State Tid) : Result × State Tid :=
  (lock t m).getD (.timedOut, m)

/-- `pthread_mutex_unlock` by `t`. -/
def unlock (t : Tid) : State Tid → Result × State Tid
  | .locked u => if u = t then (.ok, .unlocked) else (.notOwner, .locked u)
  | .inconsistent u => if u = t then (.ok, .notRecoverable) else (.notOwner, .inconsistent u)
  | m => (.notOwner, m)

/-- `pthread_mutex_consistent` by `t`. -/
def consistent (t : Tid) : State Tid → Result × State Tid
  | .inconsistent u => if u = t then (.ok, .locked t) else (.invalid, .inconsistent u)
  | m => (.invalid, m)

/-- The death of `t`. -/
def die (t : Tid) : State Tid → State Tid
  | .locked u => if u = t then .ownerDead else .locked u
  | .inconsistent u => if u = t then .ownerDead else .inconsistent u
  | m => m

/-- The calls. -/
inductive Op
  | lock
  | tryLock
  | timedLock
  | unlock
  | consistent
  deriving DecidableEq

/-- A call by `t`; `none` where it blocks. -/
def apply (checks : Bool) (t : Tid) (m : State Tid) : Op → Option (Result × State Tid)
  | .lock => lock t m
  | .tryLock => some (tryLock checks t m)
  | .timedLock => some (timedLock t m)
  | .unlock => some (unlock t m)
  | .consistent => some (consistent t m)

/-! ## One thread's view -/

/-- What a thread has of the mutex. -/
inductive Own
  | none
  | consistent
  | inconsistent
  deriving DecidableEq

/-- The view of `t`. -/
def State.own (m : State Tid) (t : Tid) : Own :=
  match m with
  | .locked u => if u = t then .consistent else .none
  | .inconsistent u => if u = t then .inconsistent else .none
  | _ => .none

/-- The caller's view after a call that answered `r`. -/
def Own.after (o : Own) : Op → Result → Own
  | .unlock, .ok => .none
  | .consistent, .ok => .consistent
  | .unlock, _ => o
  | .consistent, _ => o
  | _, .ok => .consistent
  | _, .ownerDead => .inconsistent
  | _, _ => o

/-- The answers a caller with view `o` can get. -/
def Own.Answers (o : Own) : Op → Result → Prop
  | .lock, r =>
    if o = .none then r = .ok ∨ r = .ownerDead ∨ r = .notRecoverable else r = .deadlock
  | .tryLock, r =>
    if o = .none then r = .ok ∨ r = .ownerDead ∨ r = .notRecoverable ∨ r = .busy
    else r = .busy ∨ r = .deadlock
  | .timedLock, r =>
    if o = .none then r = .ok ∨ r = .ownerDead ∨ r = .notRecoverable ∨ r = .timedOut
    else r = .deadlock
  | .unlock, r => if o = .none then r = .notOwner else r = .ok
  | .consistent, r => if o = .inconsistent then r = .ok else r = .invalid

theorem own_eq_consistent {m : State Tid} {t : Tid} : m.own t = .consistent ↔ m = .locked t := by
  cases m <;> simp [State.own]
  all_goals split <;> simp [*]

theorem own_eq_inconsistent {m : State Tid} {t : Tid} :
    m.own t = .inconsistent ↔ m = .inconsistent t := by
  cases m <;> simp [State.own]
  all_goals split <;> simp [*]

/-- At most one thread owns the mutex. -/
theorem own_unique {m : State Tid} {t u : Tid} (ht : m.own t ≠ .none) (hu : m.own u ≠ .none) :
    t = u := by
  cases m with
  | locked x =>
      simp only [State.own, ne_eq, ite_eq_right_iff, reduceCtorEq, imp_false, not_not] at ht hu
      rw [← ht, ← hu]
  | inconsistent x =>
      simp only [State.own, ne_eq, ite_eq_right_iff, reduceCtorEq, imp_false, not_not] at ht hu
      rw [← ht, ← hu]
  | _ => exact absurd rfl ht

theorem lock_own {t : Tid} {m m' : State Tid} {r : Result} (h : lock t m = some (r, m')) :
    (m.own t).Answers .lock r ∧ m'.own t = (m.own t).after .lock r ∧
      ∀ u, u ≠ t → m'.own u = m.own u := by
  cases m with
  | locked x =>
      by_cases hx : x = t
      · simp only [lock, hx, if_true, Option.some.injEq, Prod.mk.injEq] at h
        obtain ⟨rfl, rfl⟩ := h
        simp [State.own, Own.Answers, Own.after, hx]
      · simp [lock, hx] at h
  | inconsistent x =>
      by_cases hx : x = t
      · simp only [lock, hx, if_true, Option.some.injEq, Prod.mk.injEq] at h
        obtain ⟨rfl, rfl⟩ := h
        simp [State.own, Own.Answers, Own.after, hx]
      · simp [lock, hx] at h
  | _ =>
      simp only [lock, Option.some.injEq, Prod.mk.injEq] at h
      obtain ⟨rfl, rfl⟩ := h
      simp +contextual [State.own, Own.Answers, Own.after, eq_comm]

theorem tryLock_own (checks : Bool) (t : Tid) (m : State Tid) :
    (m.own t).Answers .tryLock (tryLock checks t m).1 ∧
      (tryLock checks t m).2.own t = (m.own t).after .tryLock (tryLock checks t m).1 ∧
      ∀ u, u ≠ t → (tryLock checks t m).2.own u = m.own u := by
  cases m with
  | locked x =>
      by_cases hx : x = t <;> cases checks <;>
        simp [tryLock, State.own, Own.Answers, Own.after, hx]
  | inconsistent x =>
      by_cases hx : x = t <;> cases checks <;>
        simp [tryLock, State.own, Own.Answers, Own.after, hx]
  | _ => simp +contextual [tryLock, State.own, Own.Answers, Own.after, eq_comm]

theorem timedLock_own (t : Tid) (m : State Tid) :
    (m.own t).Answers .timedLock (timedLock t m).1 ∧
      (timedLock t m).2.own t = (m.own t).after .timedLock (timedLock t m).1 ∧
      ∀ u, u ≠ t → (timedLock t m).2.own u = m.own u := by
  cases m with
  | locked x =>
      by_cases hx : x = t <;> simp [timedLock, lock, State.own, Own.Answers, Own.after, hx]
  | inconsistent x =>
      by_cases hx : x = t <;> simp [timedLock, lock, State.own, Own.Answers, Own.after, hx]
  | _ => simp +contextual [timedLock, lock, State.own, Own.Answers, Own.after, eq_comm]

theorem unlock_own (t : Tid) (m : State Tid) :
    (m.own t).Answers .unlock (unlock t m).1 ∧
      (unlock t m).2.own t = (m.own t).after .unlock (unlock t m).1 ∧
      ∀ u, u ≠ t → (unlock t m).2.own u = m.own u := by
  cases m with
  | locked x =>
      by_cases hx : x = t <;>
        simp +contextual [unlock, State.own, Own.Answers, Own.after, hx, eq_comm]
  | inconsistent x =>
      by_cases hx : x = t <;>
        simp +contextual [unlock, State.own, Own.Answers, Own.after, hx, eq_comm]
  | _ => simp [unlock, State.own, Own.Answers, Own.after]

theorem consistent_own (t : Tid) (m : State Tid) :
    (m.own t).Answers .consistent (consistent t m).1 ∧
      (consistent t m).2.own t = (m.own t).after .consistent (consistent t m).1 ∧
      ∀ u, u ≠ t → (consistent t m).2.own u = m.own u := by
  cases m with
  | inconsistent x =>
      by_cases hx : x = t <;>
        simp +contextual [consistent, State.own, Own.Answers, Own.after, hx, eq_comm]
  | locked x => by_cases hx : x = t <;> simp [consistent, State.own, Own.Answers, Own.after, hx]
  | _ => simp [consistent, State.own, Own.Answers, Own.after]

variable {checks : Bool}

/-- **A call and the views**: the answer is one the caller can get, its view changes by
`Own.after`, and no other view changes. -/
theorem apply_own {t : Tid} {m m' : State Tid} {op : Op} {r : Result}
    (h : apply checks t m op = some (r, m')) :
    (m.own t).Answers op r ∧ m'.own t = (m.own t).after op r ∧
      ∀ u, u ≠ t → m'.own u = m.own u := by
  cases op with
  | lock => exact lock_own h
  | tryLock =>
      obtain ⟨rfl, rfl⟩ := Prod.mk.inj (Option.some.inj h).symm
      exact tryLock_own checks t m
  | timedLock =>
      obtain ⟨rfl, rfl⟩ := Prod.mk.inj (Option.some.inj h).symm
      exact timedLock_own t m
  | unlock =>
      obtain ⟨rfl, rfl⟩ := Prod.mk.inj (Option.some.inj h).symm
      exact unlock_own t m
  | consistent =>
      obtain ⟨rfl, rfl⟩ := Prod.mk.inj (Option.some.inj h).symm
      exact consistent_own t m

/-- Only a free mutex is locked with the answer `ok`. -/
theorem lock_ok {t : Tid} {m m' : State Tid} (h : lock t m = some (.ok, m')) :
    m = .unlocked ∧ m' = .locked t := by
  cases m with
  | unlocked => exact ⟨rfl, by simpa [lock] using h.symm⟩
  | locked u => by_cases hu : u = t <;> simp [lock, hu] at h
  | inconsistent u => by_cases hu : u = t <;> simp [lock, hu] at h
  | _ => simp [lock] at h

/-- The mutex becomes free by the unlock of its consistent owner only. -/
theorem apply_unlocked {t : Tid} {m : State Tid} {op : Op} {r : Result}
    (h : apply checks t m op = some (r, .unlocked)) (hm : m ≠ .unlocked) :
    op = .unlock ∧ m = .locked t := by
  cases op with
  | lock =>
      cases m with
      | locked u => by_cases hu : u = t <;> simp [apply, lock, hu] at h
      | inconsistent u => by_cases hu : u = t <;> simp [apply, lock, hu] at h
      | _ => simp [apply, lock] at h
  | tryLock => cases m <;> simp [apply, tryLock] at h
  | timedLock =>
      cases m with
      | locked u => by_cases hu : u = t <;> simp [apply, timedLock, lock, hu] at h
      | inconsistent u => by_cases hu : u = t <;> simp [apply, timedLock, lock, hu] at h
      | _ => simp [apply, timedLock, lock] at h
  | unlock =>
      refine ⟨rfl, ?_⟩
      cases m with
      | locked u =>
          by_cases hu : u = t
          · rw [hu]
          · simp [apply, unlock, hu] at h
      | inconsistent u => by_cases hu : u = t <;> simp [apply, unlock, hu] at h
      | _ => simp_all [apply, unlock]
  | consistent =>
      cases m with
      | inconsistent u => by_cases hu : u = t <;> simp [apply, consistent, hu] at h
      | _ => simp_all [apply, consistent]

/-- The mutex becomes not recoverable by the unlock of its inconsistent owner only. -/
theorem apply_notRecoverable {t : Tid} {m : State Tid} {op : Op} {r : Result}
    (h : apply checks t m op = some (r, .notRecoverable)) (hm : m ≠ .notRecoverable) :
    op = .unlock ∧ m = .inconsistent t := by
  cases op with
  | lock =>
      cases m with
      | locked u => by_cases hu : u = t <;> simp [apply, lock, hu] at h
      | inconsistent u => by_cases hu : u = t <;> simp [apply, lock, hu] at h
      | _ => simp_all [apply, lock]
  | tryLock => cases m <;> simp_all [apply, tryLock]
  | timedLock =>
      cases m with
      | locked u => by_cases hu : u = t <;> simp [apply, timedLock, lock, hu] at h
      | inconsistent u => by_cases hu : u = t <;> simp [apply, timedLock, lock, hu] at h
      | _ => simp_all [apply, timedLock, lock]
  | unlock =>
      refine ⟨rfl, ?_⟩
      cases m with
      | locked u => by_cases hu : u = t <;> simp [apply, unlock, hu] at h
      | inconsistent u =>
          by_cases hu : u = t
          · rw [hu]
          · simp [apply, unlock, hu] at h
      | _ => simp_all [apply, unlock]
  | consistent =>
      cases m with
      | inconsistent u => by_cases hu : u = t <;> simp [apply, consistent, hu] at h
      | _ => simp_all [apply, consistent]

/-- The answer `ownerDead` makes the caller the inconsistent owner. -/
theorem apply_ownerDead {t : Tid} {m m' : State Tid} {op : Op}
    (h : apply checks t m op = some (.ownerDead, m')) : m = .ownerDead ∧ m' = .inconsistent t := by
  cases op with
  | lock =>
      cases m with
      | locked u => by_cases hu : u = t <;> simp [apply, lock, hu] at h
      | inconsistent u => by_cases hu : u = t <;> simp [apply, lock, hu] at h
      | _ => simp_all [apply, lock]
  | tryLock =>
      cases m with
      | locked u => by_cases hu : u = t ∧ checks = true <;> simp [apply, tryLock, hu] at h
      | inconsistent u => by_cases hu : u = t ∧ checks = true <;> simp [apply, tryLock, hu] at h
      | _ => simp_all [apply, tryLock]
  | timedLock =>
      cases m with
      | locked u => by_cases hu : u = t <;> simp [apply, timedLock, lock, hu] at h
      | inconsistent u => by_cases hu : u = t <;> simp [apply, timedLock, lock, hu] at h
      | _ => simp_all [apply, timedLock, lock]
  | unlock =>
      cases m with
      | locked u => by_cases hu : u = t <;> simp [apply, unlock, hu] at h
      | inconsistent u => by_cases hu : u = t <;> simp [apply, unlock, hu] at h
      | _ => simp [apply, unlock] at h
  | consistent =>
      cases m with
      | inconsistent u => by_cases hu : u = t <;> simp [apply, consistent, hu] at h
      | _ => simp [apply, consistent] at h

/-! ## A mutex whose owner has died -/

/-- From the death of an owner until its data is declared consistent. -/
def State.Spoiled (m : State Tid) : Prop :=
  m = .ownerDead ∨ (∃ u, m = .inconsistent u) ∨ m = .notRecoverable

/-- A not recoverable mutex stays so. -/
theorem apply_of_notRecoverable {t : Tid} {m' : State Tid} {op : Op} {r : Result}
    (h : RobustMutex.apply checks t .notRecoverable op = some (r, m')) :
    m' = .notRecoverable ∧ r ≠ .ownerDead := by
  cases op <;> simp [RobustMutex.apply, lock, tryLock, timedLock, unlock, consistent] at h <;>
    simp [← h.1, ← h.2]

theorem apply_of_ownerDead {t : Tid} {m' : State Tid} {op : Op} {r : Result}
    (h : RobustMutex.apply checks t .ownerDead op = some (r, m')) :
    m' = .ownerDead ∨ m' = .inconsistent t := by
  cases op <;> simp [RobustMutex.apply, lock, tryLock, timedLock, unlock, consistent] at h <;>
    simp [← h.2]

/-- The inconsistent owner keeps the mutex, spoils it for good or declares it consistent. -/
theorem apply_of_inconsistent {t : Tid} {m' : State Tid} {op : Op} {r : Result}
    (h : RobustMutex.apply checks t (.inconsistent t) op = some (r, m')) :
    (m' = .inconsistent t ∧ r ≠ .ownerDead) ∨ (m' = .notRecoverable ∧ r ≠ .ownerDead) ∨
      op = .consistent := by
  cases op with
  | consistent => exact Or.inr (Or.inr rfl)
  | tryLock =>
      cases checks <;> simp [RobustMutex.apply, tryLock] at h <;> simp [← h.1, ← h.2]
  | _ =>
      simp [RobustMutex.apply, lock, timedLock, unlock] at h
      simp [← h.1, ← h.2]

/-- The calls of other threads do not change an inconsistent mutex. -/
theorem apply_of_inconsistent_other {t u : Tid} {m' : State Tid} {op : Op} {r : Result}
    (hu : u ≠ t) (h : RobustMutex.apply checks u (.inconsistent t) op = some (r, m')) :
    m' = .inconsistent t := by
  rw [← own_eq_inconsistent, (apply_own h).2.2 t (Ne.symm hu)]
  simp [State.own]

/-- A spoiled mutex is declared consistent by its inconsistent owner, or stays spoiled. -/
theorem State.Spoiled.apply {t : Tid} {m m' : State Tid} {op : Op} {r : Result}
    (hm : m.Spoiled) (h : RobustMutex.apply checks t m op = some (r, m')) :
    m'.Spoiled ∨ (op = .consistent ∧ m = .inconsistent t) := by
  rcases hm with rfl | ⟨u, rfl⟩ | rfl
  · rcases apply_of_ownerDead h with rfl | rfl
    · exact Or.inl (Or.inl rfl)
    · exact Or.inl (Or.inr (Or.inl ⟨t, rfl⟩))
  · by_cases hu : u = t
    · subst hu
      rcases apply_of_inconsistent h with ⟨rfl, -⟩ | ⟨rfl, -⟩ | rfl
      · exact Or.inl (Or.inr (Or.inl ⟨u, rfl⟩))
      · exact Or.inl (Or.inr (Or.inr rfl))
      · exact Or.inr ⟨rfl, rfl⟩
    · exact Or.inl (Or.inr (Or.inl ⟨u, apply_of_inconsistent_other (Ne.symm hu) h⟩))
  · exact Or.inl (Or.inr (Or.inr (apply_of_notRecoverable h).1))

theorem State.Spoiled.die {m : State Tid} (hm : m.Spoiled) (t : Tid) :
    (RobustMutex.die t m).Spoiled := by
  rcases hm with rfl | ⟨u, rfl⟩ | rfl
  · exact Or.inl rfl
  · by_cases hu : u = t
    · exact Or.inl (by simp [RobustMutex.die, hu])
    · exact Or.inr (Or.inl ⟨u, by simp [RobustMutex.die, hu]⟩)
  · exact Or.inr (Or.inr rfl)

/-- A spoiled mutex has no consistent owner. -/
theorem State.Spoiled.own_ne {m : State Tid} (hm : m.Spoiled) (t : Tid) :
    m.own t ≠ .consistent := by
  intro h
  rw [own_eq_consistent] at h
  rcases hm with hm | ⟨u, hm⟩ | hm <;> simp [hm] at h

/-- The mutex is spoiled and nobody but `t` can change that. -/
def State.SpoiledBy (m : State Tid) (t : Tid) : Prop :=
  m = .inconsistent t ∨ m = .notRecoverable

omit [DecidableEq Tid] in
theorem State.SpoiledBy.spoiled {m : State Tid} {t : Tid} (h : m.SpoiledBy t) : m.Spoiled := by
  rcases h with rfl | rfl
  · exact Or.inr (Or.inl ⟨t, rfl⟩)
  · exact Or.inr (Or.inr rfl)

/-- The calls of other threads leave it so. -/
theorem State.SpoiledBy.apply_other {t u : Tid} {m m' : State Tid} {op : Op} {r : Result}
    (hm : m.SpoiledBy t) (hu : u ≠ t) (h : RobustMutex.apply checks u m op = some (r, m')) :
    m'.SpoiledBy t := by
  rcases hm with rfl | rfl
  · exact Or.inl (apply_of_inconsistent_other hu h)
  · exact Or.inr (apply_of_notRecoverable h).1

/-- So do the calls of `t` itself, `consistent` apart. -/
theorem State.SpoiledBy.apply_self {t : Tid} {m m' : State Tid} {op : Op} {r : Result}
    (hm : m.SpoiledBy t) (hop : op ≠ .consistent)
    (h : RobustMutex.apply checks t m op = some (r, m')) :
    m'.SpoiledBy t ∧ r ≠ .ownerDead := by
  rcases hm with rfl | rfl
  · rcases apply_of_inconsistent h with ⟨rfl, hr⟩ | ⟨rfl, hr⟩ | rfl
    · exact ⟨Or.inl rfl, hr⟩
    · exact ⟨Or.inr rfl, hr⟩
    · exact absurd rfl hop
  · obtain ⟨rfl, hr⟩ := apply_of_notRecoverable h
    exact ⟨Or.inr rfl, hr⟩

theorem State.SpoiledBy.die_other {t u : Tid} {m : State Tid} (hm : m.SpoiledBy t)
    (hu : u ≠ t) : (RobustMutex.die u m).SpoiledBy t := by
  rcases hm with rfl | rfl
  · left
    simp [RobustMutex.die, Ne.symm hu]
  · exact Or.inr rfl

/-! ## Deaths -/

/-- **A death and the views.** -/
theorem die_own (t : Tid) (m : State Tid) :
    (die t m).own t = .none ∧ ∀ u, u ≠ t → (die t m).own u = m.own u := by
  cases m with
  | locked x => by_cases hx : x = t <;> simp +contextual [die, State.own, hx, eq_comm]
  | inconsistent x => by_cases hx : x = t <;> simp +contextual [die, State.own, hx, eq_comm]
  | _ => simp [die, State.own]

/-- A death frees no mutex. -/
theorem die_unlocked {t : Tid} {m : State Tid} (h : die t m = .unlocked) : m = .unlocked := by
  cases m with
  | locked x => by_cases hx : x = t <;> simp [die, hx] at h
  | inconsistent x => by_cases hx : x = t <;> simp [die, hx] at h
  | _ => simp_all [die]

/-- A death spoils no mutex. -/
theorem die_notRecoverable {t : Tid} {m : State Tid} (h : die t m = .notRecoverable) :
    m = .notRecoverable := by
  cases m with
  | locked x => by_cases hx : x = t <;> simp [die, hx] at h
  | inconsistent x => by_cases hx : x = t <;> simp [die, hx] at h
  | _ => simp_all [die]

end RobustMutex
