/-
# A world for threads: interpreter locks, a robust mutex, wait channels, memory

The actions that the code of a thread is made of, as a `ThreadMachine.Machine`.  Threads
belong to processes, each with one interpreter lock.  All share one robust mutex, a set of
wait channels and a memory.  A channel has a queue of parked threads and a counter: a
condition variable uses the queue only, a futex word is the counter modulo `2 ^ 32`.

* `perform` : what an action does and what it answers;
* `perform_gil`, `perform_mutex`, `perform_mem`, `perform_word` : each part of the shared
  state after an action;
* `GilDiscipline`, `GilInv.step` : code whose program points know whether the thread holds
  the interpreter lock;
* `LockDiscipline`, `LockInv.step` : the same for the mutex;
* `ViewDiscipline`, `ViewInv.step` : code that only knows some of it.
-/
import PosixIpc.ThreadMachine
import PosixIpc.RobustMutex
import PosixIpc.Word32

namespace OsWorld

open ThreadMachine Word32

/-- How a parked thread comes back. -/
inductive SleepResult
  | woken
  | timedOut
  | interrupted
  deriving DecidableEq

/-- What the threads share. -/
structure Shared (Tid Pid Chan Addr : Type) where
  gil : Pid → Option Tid
  mutex : RobustMutex.State Tid
  waiters : Chan → List Tid
  word : Chan → ℕ
  mem : Addr → ℕ

/-- The actions. -/
inductive Act (Chan Addr : Type)
  /-- Wait for the interpreter lock of the own process. -/
  | takeGil
  | dropGil
  | mutex (op : RobustMutex.Op)
  /-- The first half of a condition wait: unlock and join the queue, in one step. -/
  | park (c : Chan)
  /-- Entry of a futex wait: join the queue if the word still has the expected value. -/
  | futexPark (c : Chan) (expected : ℕ)
  /-- Leave the queue: woken (by others or spuriously), or for one of the `may` reasons. -/
  | sleep (c : Chan) (may : List SleepResult)
  | wakeOne (c : Chan)
  | wakeAll (c : Chan)
  | wordLoad (c : Chan)
  | wordAdd (c : Chan)
  | load (l : Addr)
  | store (l : Addr) (v : ℕ)
  /-- A local step; it may use what the environment says (a clock, a signal, a request). -/
  | consult

/-- The answer to an action.  The environment proposes one; the action fills in the
fields it computes and leaves the others. -/
structure Answer (Tid Time Req : Type) where
  lock : RobustMutex.Result
  sleep : SleepResult
  flag : Bool
  val : ℕ
  who : Option Tid
  reading : Time
  req : Req

variable {Tid Pid Chan Addr Time Req PC : Type}
variable [DecidableEq Tid] [DecidableEq Pid] [DecidableEq Chan] [DecidableEq Addr]

/-- What an action of thread `t` does. -/
def perform (proc : Tid → Pid) (t : Tid) (a : Act Chan Addr) (e : Answer Tid Time Req)
    (sh : Shared Tid Pid Chan Addr) :
    Option (Answer Tid Time Req × Shared Tid Pid Chan Addr) :=
  match a with
  | .takeGil =>
    if sh.gil (proc t) = none then
      some (e, { sh with gil := Function.update sh.gil (proc t) (some t) })
    else none
  | .dropGil => some (e, { sh with gil := Function.update sh.gil (proc t) none })
  | .mutex op =>
    -- the environment decides how a try answers the owner of the mutex
    match RobustMutex.apply (e.lock = .deadlock) t sh.mutex op with
    | none => none
    | some (r, m) => some ({ e with lock := r }, { sh with mutex := m })
  | .park c =>
    match RobustMutex.unlock t sh.mutex with
    | (.ok, m) => some ({ e with lock := .ok },
        { sh with mutex := m, waiters := Function.update sh.waiters c (sh.waiters c ++ [t]) })
    | (r, _) => some ({ e with lock := r }, sh)
  | .futexPark c expected =>
    if u32 expected = u32 (sh.word c) then
      some ({ e with flag := true },
        { sh with waiters := Function.update sh.waiters c (sh.waiters c ++ [t]) })
    else some ({ e with flag := false }, sh)
  | .sleep c may =>
    if e.sleep = .woken ∨ (t ∈ sh.waiters c ∧ e.sleep ∈ may) then
      some (e, { sh with waiters := Function.update sh.waiters c ((sh.waiters c).erase t) })
    else none
  | .wakeOne c =>
    match sh.waiters c, e.who with
    | [], _ => some (e, sh)
    | ws, some u =>
      if u ∈ ws then some (e, { sh with waiters := Function.update sh.waiters c (ws.erase u) })
      else none
    | _, none => none
  | .wakeAll c => some (e, { sh with waiters := Function.update sh.waiters c [] })
  | .wordLoad c => some ({ e with val := sh.word c }, sh)
  | .wordAdd c => some (e, { sh with word := Function.update sh.word c (sh.word c + 1) })
  | .load l => some ({ e with val := sh.mem l }, sh)
  | .store l v => some (e, { sh with mem := Function.update sh.mem l v })
  | .consult => some (e, sh)

/-- The death of a thread.  Its interpreter lock goes with it. -/
def die (proc : Tid → Pid) (t : Tid) (sh : Shared Tid Pid Chan Addr) :
    Shared Tid Pid Chan Addr :=
  { sh with
    gil := if sh.gil (proc t) = some t then Function.update sh.gil (proc t) none else sh.gil
    mutex := RobustMutex.die t sh.mutex }

/-- The machine of a piece of code in this world. -/
def machine (proc : Tid → Pid) (act : PC → Act Chan Addr)
    (next : PC → Answer Tid Time Req → PC) :
    Machine Tid PC (Act Chan Addr) (Answer Tid Time Req) (Answer Tid Time Req)
      (Shared Tid Pid Chan Addr) where
  act := act
  next := next
  perform := perform proc
  die := die proc

/-! ## The parts of the shared state after an action -/

/-- The mutex call that an action makes. -/
def Act.mutexOp : Act Chan Addr → Option RobustMutex.Op
  | .mutex op => some op
  | .park _ => some .unlock
  | _ => none

section Perform

variable {proc : Tid → Pid} {t : Tid} {a : Act Chan Addr} {e r : Answer Tid Time Req}
  {sh sh' : Shared Tid Pid Chan Addr}

/-- Only the two interpreter lock actions change an interpreter lock. -/
theorem perform_gil (h : perform proc t a e sh = some (r, sh')) :
    (a = .takeGil ∧ sh.gil (proc t) = none ∧
        sh'.gil = Function.update sh.gil (proc t) (some t)) ∨
      (a = .dropGil ∧ sh'.gil = Function.update sh.gil (proc t) none) ∨
      (a ≠ .takeGil ∧ a ≠ .dropGil ∧ sh'.gil = sh.gil) := by
  unfold perform at h
  cases a with
  | takeGil =>
      left
      simp only at h
      split at h
      · rename_i hfree
        obtain ⟨-, rfl⟩ := Prod.mk.inj (Option.some.inj h).symm
        exact ⟨rfl, hfree, rfl⟩
      · simp at h
  | dropGil =>
      obtain ⟨-, rfl⟩ := Prod.mk.inj (Option.some.inj h).symm
      exact Or.inr (Or.inl ⟨rfl, rfl⟩)
  | _ =>
      refine Or.inr (Or.inr ⟨by simp, by simp, ?_⟩)
      simp only at h
      grind

/-- The mutex after an action: a call answered `r.lock`, or nothing happened. -/
theorem perform_mutex (h : perform proc t a e sh = some (r, sh')) :
    match a.mutexOp with
    | none => sh'.mutex = sh.mutex
    | some op =>
      RobustMutex.apply (e.lock = .deadlock) t sh.mutex op = some (r.lock, sh'.mutex) := by
  unfold perform at h
  cases a with
  | mutex op =>
      simp only [Act.mutexOp] at h ⊢
      cases hop : RobustMutex.apply (e.lock = .deadlock) t sh.mutex op with
      | none => simp [hop] at h
      | some rm =>
          simp only [hop] at h
          obtain ⟨rfl, rfl⟩ := Prod.mk.inj (Option.some.inj h).symm
          rfl
  | park c =>
      simp only [Act.mutexOp, RobustMutex.apply] at h ⊢
      -- a refused unlock leaves the mutex as it is
      cases hm : sh.mutex with
      | locked u => by_cases hu : u = t <;> simp_all [RobustMutex.unlock] <;> grind
      | inconsistent u => by_cases hu : u = t <;> simp_all [RobustMutex.unlock] <;> grind
      | _ =>
          simp_all [RobustMutex.unlock]
          grind
  | _ =>
      simp only [Act.mutexOp] at h ⊢
      grind

/-- The caller's view after its action, and the views of the others. -/
theorem perform_own (h : perform proc t a e sh = some (r, sh')) :
    (match a.mutexOp with
      | none => sh'.mutex.own t = sh.mutex.own t
      | some op => (sh.mutex.own t).Answers op r.lock ∧
          sh'.mutex.own t = (sh.mutex.own t).after op r.lock) ∧
      ∀ u, u ≠ t → sh'.mutex.own u = sh.mutex.own u := by
  have hm := perform_mutex h
  cases hop : a.mutexOp with
  | none =>
      rw [hop] at hm
      simp only at hm ⊢
      rw [hm]
      exact ⟨rfl, fun u _ => rfl⟩
  | some op =>
      rw [hop] at hm
      obtain ⟨hans, hown, hothers⟩ := RobustMutex.apply_own hm
      exact ⟨⟨hans, hown⟩, hothers⟩

/-- Only a store changes the memory. -/
theorem perform_mem (h : perform proc t a e sh = some (r, sh')) :
    (∃ l v, a = .store l v ∧ sh'.mem = Function.update sh.mem l v) ∨
      ((∀ l v, a ≠ .store l v) ∧ sh'.mem = sh.mem) := by
  unfold perform at h
  cases a with
  | store l v =>
      obtain ⟨-, rfl⟩ := Prod.mk.inj (Option.some.inj h).symm
      exact Or.inl ⟨l, v, rfl, rfl⟩
  | _ =>
      refine Or.inr ⟨by simp, ?_⟩
      simp only at h
      grind

/-- A load answers with the content of its cell. -/
theorem perform_load {l : Addr} (h : perform proc t (.load l) e sh = some (r, sh')) :
    r.val = sh.mem l ∧ sh' = sh := by
  obtain ⟨rfl, rfl⟩ := Prod.mk.inj (Option.some.inj h).symm
  exact ⟨rfl, rfl⟩

/-- Only an increment changes a counter. -/
theorem perform_word (h : perform proc t a e sh = some (r, sh')) :
    (∃ c, a = .wordAdd c ∧ sh'.word = Function.update sh.word c (sh.word c + 1)) ∨
      ((∀ c, a ≠ .wordAdd c) ∧ sh'.word = sh.word) := by
  unfold perform at h
  cases a with
  | wordAdd c =>
      obtain ⟨-, rfl⟩ := Prod.mk.inj (Option.some.inj h).symm
      exact Or.inl ⟨c, rfl, rfl⟩
  | _ =>
      refine Or.inr ⟨by simp, ?_⟩
      simp only at h
      grind

/-- An action leaves the clock reading to the environment. -/
theorem perform_reading (h : perform proc t a e sh = some (r, sh')) :
    r.reading = e.reading := by
  unfold perform at h
  cases a with
  | _ =>
      simp only at h
      grind

/-- A thread that is not in the queue does not time out. -/
theorem perform_sleep {c : Chan} {may : List SleepResult}
    (h : perform proc t (.sleep c may) e sh = some (r, sh')) (hn : t ∉ sh.waiters c) :
    r.sleep = .woken := by
  simp only [perform] at h
  split at h
  · rename_i hc
    obtain ⟨rfl, -⟩ := Prod.mk.inj (Option.some.inj h).symm
    exact hc.resolve_right fun hw => hn hw.1
  · simp at h

/-- A thread joins a queue by its own action only. -/
theorem perform_waiters (h : perform proc t a e sh = some (r, sh')) {u : Tid} (hu : t ≠ u)
    {c : Chan} (hn : u ∉ sh.waiters c) : u ∉ sh'.waiters c := by
  -- the two ways in which an action changes a queue
  have hgrow : ∀ d, u ∉ Function.update sh.waiters d (sh.waiters d ++ [t]) c := by
    intro d
    by_cases hd : c = d
    · subst hd
      simpa [Ne.symm hu] using hn
    · simpa [hd] using hn
  have hshrink : ∀ d w, u ∉ Function.update sh.waiters d ((sh.waiters d).erase w) c := by
    intro d w
    by_cases hd : c = d
    · subst hd
      simpa using fun hmem => hn (List.mem_of_mem_erase hmem)
    · simpa [hd] using hn
  unfold perform at h
  cases a with
  | park d =>
      simp only at h
      split at h
      · obtain ⟨-, rfl⟩ := Prod.mk.inj (Option.some.inj h).symm
        exact hgrow d
      · obtain ⟨-, rfl⟩ := Prod.mk.inj (Option.some.inj h).symm
        exact hn
  | futexPark d expected =>
      simp only at h
      split at h
      · obtain ⟨-, rfl⟩ := Prod.mk.inj (Option.some.inj h).symm
        exact hgrow d
      · obtain ⟨-, rfl⟩ := Prod.mk.inj (Option.some.inj h).symm
        exact hn
  | sleep d may =>
      simp only at h
      split at h
      · obtain ⟨-, rfl⟩ := Prod.mk.inj (Option.some.inj h).symm
        exact hshrink d t
      · simp at h
  | wakeOne d =>
      simp only at h
      split at h
      · obtain ⟨-, rfl⟩ := Prod.mk.inj (Option.some.inj h).symm
        exact hn
      · split at h
        · obtain ⟨-, rfl⟩ := Prod.mk.inj (Option.some.inj h).symm
          exact hshrink d _
        · simp at h
      · simp at h
  | wakeAll d =>
      obtain ⟨-, rfl⟩ := Prod.mk.inj (Option.some.inj h).symm
      by_cases hd : c = d
      · subst hd
        simp
      · simpa [hd] using hn
  | _ =>
      have hsame : sh'.waiters = sh.waiters := by
        simp only at h
        grind
      rw [hsame]
      exact hn

end Perform

/-! ## Code that knows what it holds -/

section Discipline

variable (proc : Tid → Pid) (act : PC → Act Chan Addr) (next : PC → Answer Tid Time Req → PC)

/-- Every program point knows whether its thread holds the interpreter lock. -/
def GilDiscipline (holds : PC → Bool) : Prop :=
  ∀ p r,
    match act p with
    | .takeGil => holds p = false ∧ holds (next p r) = true
    | .dropGil => holds p = true ∧ holds (next p r) = false
    | _ => holds (next p r) = holds p

/-- The interpreter locks are held by exactly the threads that know so. -/
def GilInv (holds : PC → Bool) (s : State Tid PC (Shared Tid Pid Chan Addr)) : Prop :=
  ∀ t, s.shared.gil (proc t) = some t ↔ (s.pc t).elim false holds = true

/-- Every program point knows what its thread has of the mutex. -/
def LockDiscipline (own : PC → RobustMutex.Own) : Prop :=
  ∀ p r,
    match (act p).mutexOp with
    | none => own (next p r) = own p
    | some op => (own p).Answers op r.lock → own (next p r) = (own p).after op r.lock

/-- The mutex is owned as the threads know. -/
def LockInv (own : PC → RobustMutex.Own) (s : State Tid PC (Shared Tid Pid Chan Addr)) : Prop :=
  ∀ t, s.shared.mutex.own t = (s.pc t).elim .none own

/-- What a program point says about its thread's view of the mutex stays true. -/
def ViewDiscipline (fits : PC → RobustMutex.Own → Prop) : Prop :=
  ∀ p r o, fits p o →
    match (act p).mutexOp with
    | none => fits (next p r) o
    | some op => o.Answers op r.lock → fits (next p r) (o.after op r.lock)

/-- What the program points say is true. -/
def ViewInv (fits : PC → RobustMutex.Own → Prop)
    (s : State Tid PC (Shared Tid Pid Chan Addr)) : Prop :=
  ∀ t p, s.pc t = some p → fits p (s.shared.mutex.own t)

variable {proc act next}
variable {holds : PC → Bool} {own : PC → RobustMutex.Own} {fits : PC → RobustMutex.Own → Prop}
  {s : State Tid PC (Shared Tid Pid Chan Addr)} {sh : Shared Tid Pid Chan Addr} {t : Tid} {p : PC}
  {e r : Answer Tid Time Req}

/-- An action keeps `GilInv`. -/
theorem GilInv.step (hd : GilDiscipline act next holds) (h : GilInv proc holds s)
    (hp : s.pc t = some p) (hr : perform proc t (act p) e s.shared = some (r, sh)) :
    GilInv proc holds ⟨Function.update s.pc t (some (next p r)), sh⟩ := by
  intro u
  have hdp := hd p r
  have ht := h t
  have hu := h u
  rw [hp] at ht
  simp only [Option.elim_some] at ht
  rcases perform_gil hr with ⟨ha, hfree, hgil⟩ | ⟨ha, hgil⟩ | ⟨h1, h2, hgil⟩
  · rw [ha] at hdp
    simp only at hdp
    rw [hgil]
    by_cases hut : u = t
    · subst hut
      simp [hdp.2]
    · by_cases hpr : proc u = proc t
      · rw [hpr, hfree] at hu
        simp only [reduceCtorEq, false_iff] at hu
        simp [hpr, hut, hu, Ne.symm hut]
      · simp [hpr, hut, hu]
  · rw [ha] at hdp
    simp only at hdp
    rw [hgil]
    by_cases hut : u = t
    · subst hut
      simp [hdp.2]
    · by_cases hpr : proc u = proc t
      · rw [hpr, ht.mpr hdp.1] at hu
        have hne : ¬ (s.pc u).elim false holds = true := by
          intro hh
          exact hut (by simpa using (hu.mpr hh).symm)
        simp [hpr, hut, hne]
      · simp [hpr, hut, hu]
  · have hsame : holds (next p r) = holds p := by
      split at hdp
      · exact absurd ‹_› h1
      · exact absurd ‹_› h2
      · exact hdp
    rw [hgil]
    by_cases hut : u = t
    · subst hut
      simp [hsame, ht]
    · simp [hut, hu]

omit [DecidableEq Chan] [DecidableEq Addr] in
/-- A death keeps `GilInv`. -/
theorem GilInv.die (h : GilInv proc holds s) :
    GilInv proc holds ⟨Function.update s.pc t none, die proc t s.shared⟩ := by
  intro u
  have hu := h u
  unfold OsWorld.die
  by_cases hut : u = t
  · subst hut
    by_cases hg : s.shared.gil (proc u) = some u
    · simp [hg]
    · simp [hg]
  · by_cases hg : s.shared.gil (proc t) = some t
    · by_cases hpr : proc u = proc t
      · rw [hpr, hg] at hu
        have hne : ¬ (s.pc u).elim false holds = true := by
          intro hh
          exact hut (by simpa using (hu.mpr hh).symm)
        simp [hg, hpr, hut, hne]
      · simp [hg, hpr, hut, hu]
    · simp [hg, hut, hu]

/-- The answer of a mutex call is one that the caller can get where it stands. -/
theorem LockInv.answers (h : LockInv own s) (hp : s.pc t = some p)
    (hr : perform proc t (act p) e s.shared = some (r, sh)) {op : RobustMutex.Op}
    (hop : (act p).mutexOp = some op) : (own p).Answers op r.lock := by
  have hm := perform_mutex hr
  rw [hop] at hm
  have ht := h t
  rw [hp] at ht
  simp only [Option.elim_some] at ht
  rw [← ht]
  exact (RobustMutex.apply_own hm).1

/-- An action keeps `LockInv`. -/
theorem LockInv.step (hd : LockDiscipline act next own) (h : LockInv own s)
    (hp : s.pc t = some p) (hr : perform proc t (act p) e s.shared = some (r, sh)) :
    LockInv own ⟨Function.update s.pc t (some (next p r)), sh⟩ := by
  intro u
  have hdp := hd p r
  have hm := perform_mutex hr
  have ht := h t
  rw [hp] at ht
  simp only [Option.elim_some] at ht
  cases hop : (act p).mutexOp with
  | none =>
      simp only [hop] at hm hdp
      by_cases hut : u = t
      · subst hut
        simp [hm, ht, hdp]
      · simpa [hm, hut] using h u
  | some op =>
      have hans := h.answers hp hr hop
      simp only [hop] at hm hdp
      obtain ⟨-, hown, hothers⟩ := RobustMutex.apply_own hm
      by_cases hut : u = t
      · subst hut
        simp [hown, ht, hdp hans]
      · simpa [hothers u hut, hut] using h u

omit [DecidableEq Chan] [DecidableEq Addr] in
/-- A death keeps `LockInv`. -/
theorem LockInv.die (h : LockInv own s) :
    LockInv own ⟨Function.update s.pc t none, die proc t s.shared⟩ := by
  intro u
  obtain ⟨hself, hothers⟩ := RobustMutex.die_own t s.shared.mutex
  by_cases hut : u = t
  · subst hut
    simpa [OsWorld.die] using hself
  · simpa [OsWorld.die, hothers u hut, hut] using h u

omit [DecidableEq Pid] [DecidableEq Chan] [DecidableEq Addr] in
/-- Two live threads do not own the mutex at the same time. -/
theorem LockInv.unique (h : LockInv own s) {u : Tid} {q : PC} (hp : s.pc t = some p)
    (hq : s.pc u = some q) (hop : own p ≠ .none) (hoq : own q ≠ .none) : t = u := by
  have ht := h t
  have hu := h u
  rw [hp] at ht
  rw [hq] at hu
  exact RobustMutex.own_unique (m := s.shared.mutex) (by rw [ht]; exact hop)
    (by rw [hu]; exact hoq)

/-- An action keeps `ViewInv`. -/
theorem ViewInv.step (hd : ViewDiscipline act next fits) (h : ViewInv fits s)
    (hp : s.pc t = some p) (hr : perform proc t (act p) e s.shared = some (r, sh)) :
    ViewInv fits ⟨Function.update s.pc t (some (next p r)), sh⟩ := by
  intro u q hq
  obtain ⟨hself, hothers⟩ := perform_own hr
  by_cases hut : u = t
  · subst hut
    obtain rfl : next p r = q := by simpa using hq
    have hdp := hd p r _ (h u p hp)
    show fits (next p r) (sh.mutex.own u)
    cases hop : (act p).mutexOp with
    | none =>
        rw [hop] at hself hdp
        rw [show sh.mutex.own u = s.shared.mutex.own u from hself]
        exact hdp
    | some op =>
        rw [hop] at hself hdp
        rw [hself.2]
        exact hdp hself.1
  · show fits q (sh.mutex.own u)
    rw [hothers u hut]
    exact h u q (by simpa [hut] using hq)

omit [DecidableEq Chan] [DecidableEq Addr] in
/-- A death keeps `ViewInv`. -/
theorem ViewInv.die (h : ViewInv fits s) :
    ViewInv fits ⟨Function.update s.pc t none, die proc t s.shared⟩ := by
  intro u q hq
  obtain ⟨-, hothers⟩ := RobustMutex.die_own t s.shared.mutex
  by_cases hut : u = t
  · subst hut
    simp at hq
  · show fits q ((RobustMutex.die t s.shared.mutex).own u)
    rw [hothers u hut]
    exact h u q (by simpa [hut] using hq)

end Discipline

end OsWorld
