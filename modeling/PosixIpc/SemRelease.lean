/-
# Releasing a semaphore several times

`Semaphore.release(n)` and `NamedSemaphore.release(n)` are the same loop of single posts behind
their own checks of the handle.  A post at the largest value of the platform fails, and the loop
ends there: what it has posted until then stays posted.

* `postLoop` : the loop, one post for each of the `n` turns;
* `AllOrNothing` : what a caller would like to know of a release.

The main result is `release_allOrNothing_iff`.
-/
import PosixIpc.LayoutAdd

namespace PosixIpc

/-! ## The handles -/

/-- The two classes. -/
inductive SemClass
  | semaphore
  | named
  deriving DecidableEq, Repr

/-- `PosixIPCSemaphoreObject`, `PosixIPCNamedSemObject`. -/
structure SemObj where
  closed : Bool
  bound : Bool
  /-- The value of the semaphore that `o->sem` points to, if it points to one. -/
  sem : Option ℕ
  deriving DecidableEq, Repr

/-- `posixipc_raise_unbound`. -/
def unboundError : PyError :=
  .runtimeError "handle is not bound; call Layout.create() or attach() first"

/-- `sem_check_open`. -/
def semCheckOpen (o : SemObj) : Except PyError Unit :=
  if o.closed then .error .closedError
  else if o.bound = false ∨ o.sem = none then .error unboundError
  else .ok ()

/-- `nsem_check_open`; a named semaphore does not ask for the `BOUND` flag. -/
def nsemCheckOpen (o : SemObj) : Except PyError Unit :=
  if o.closed then .error .closedError
  else if o.sem = none then .error unboundError
  else .ok ()

/-- The check of a class. -/
def SemClass.checkOpen : SemClass → SemObj → Except PyError Unit
  | .semaphore => semCheckOpen
  | .named => nsemCheckOpen

/-! ## Posting -/

/-- `posixipc_sem_post`: the code and what the pointer then points to.  `sem_post` fails at the
largest value. -/
def posixipcSemPost (valueMax : ℕ) : Option ℕ → Rc × Option ℕ
  | none => (.einval, none)
  | some v => if valueMax ≤ v then (eoverflow, some v) else (.ok, some (v + 1))

/-- The loop of `sem_release` with `n` turns to go. -/
def postLoop (valueMax : ℕ) : ℕ → Option ℕ → Except PyError Unit × Option ℕ
  | 0, sem => (.ok (), sem)
  | n + 1, sem =>
    let post := posixipcSemPost valueMax sem
    if post.1 ≠ .ok then (.error (posixipcErr post.1), post.2)
    else postLoop valueMax n post.2

/-- The unit `i` of an argument format: a Python integer as a C `int`. -/
def parseCInt (n : ℤ) : Except PyError ℤ :=
  if n < -2 ^ 63 ∨ 2 ^ 63 ≤ n then
    .error (.overflowError "Python int too large to convert to C long")
  else if 2 ^ 31 ≤ n then .error (.overflowError "signed integer is greater than maximum")
  else if n < -2 ^ 31 then .error (.overflowError "signed integer is less than minimum")
  else .ok n

/-- The body of both `release` methods; without an argument `n` is 1. -/
def releaseWith (check : SemObj → Except PyError Unit) (valueMax : ℕ) (arg : Option ℤ)
    (o : SemObj) : Except PyError Unit × SemObj :=
  match check o with
  | .error e => (.error e, o)
  | .ok () =>
    match parseCInt (arg.getD 1) with
    | .error e => (.error e, o)
    | .ok n =>
      if n < 1 then (.error (.valueError "n must be >= 1"), o)
      else
        let loop := postLoop valueMax n.toNat o.sem
        (loop.1, { o with sem := loop.2 })

/-- `sem_release`. -/
def semRelease : ℕ → Option ℤ → SemObj → Except PyError Unit × SemObj := releaseWith semCheckOpen

/-- `nsem_release`. -/
def nsemRelease : ℕ → Option ℤ → SemObj → Except PyError Unit × SemObj :=
  releaseWith nsemCheckOpen

/-- `release` of a class. -/
def SemClass.release : SemClass → ℕ → Option ℤ → SemObj → Except PyError Unit × SemObj
  | .semaphore => semRelease
  | .named => nsemRelease

/-! ## What a release does -/

variable {valueMax : ℕ}

/-- The loop posts as often as there is room. -/
theorem postLoop_eq (n v : ℕ) (hv : v ≤ valueMax) :
    postLoop valueMax n (some v)
      = if v + n ≤ valueMax then (.ok (), some (v + n))
        else (.error (.osError eoverflow), some valueMax) := by
  -- induction on the turns to go; each of them starts at the value the last one has left
  induction n generalizing v with
  | zero => exact (if_pos hv).symm
  | succ n ih =>
    by_cases hfull : valueMax ≤ v
    · have hmax : v = valueMax := Nat.le_antisymm hv hfull
      have hpost : posixipcSemPost valueMax (some v) = (eoverflow, some v) := if_pos hfull
      simp only [postLoop, hpost]
      rw [if_pos (by decide), if_neg (by omega), hmax]
      rfl
    · have hpost : posixipcSemPost valueMax (some v) = (.ok, some (v + 1)) := if_neg hfull
      simp only [postLoop, hpost]
      rw [if_neg (by decide), ih (v + 1) (by omega)]
      have hsum : v + 1 + n = v + (n + 1) := by omega
      rw [hsum]

/-- The release returns with `n` more, or raises and leaves the semaphore alone. -/
def AllOrNothing (n : ℤ) (o : SemObj) (out : Except PyError Unit × SemObj) : Prop :=
  (out.1 = .ok () ∧ out.2 = { o with sem := o.sem.map (· + n.toNat) }) ∨
    ((∃ e, out.1 = .error e) ∧ out.2 = o)

theorem SemClass.release_eq (c : SemClass) (arg : Option ℤ) (o : SemObj) :
    c.release valueMax arg o = releaseWith c.checkOpen valueMax arg o := by
  cases c <;> rfl

/-- A handle that passes its check has a semaphore. -/
theorem SemClass.sem_of_checkOpen {c : SemClass} {o : SemObj} (h : c.checkOpen o = .ok ()) :
    ∃ v, o.sem = some v := by
  rcases hsem : o.sem with _ | v
  · cases c
    · simp only [checkOpen, semCheckOpen, hsem, or_true, if_true] at h
      split at h <;> exact nomatch h
    · simp only [checkOpen, nsemCheckOpen, hsem, if_true] at h
      split at h <;> exact nomatch h
  · exact ⟨v, rfl⟩

/-- **When a release is all or nothing.**  Either the handle is refused, or there is room for
every post, or there is room for none. -/
theorem release_allOrNothing_iff (c : SemClass) (arg : Option ℤ) (n : ℤ) (o : SemObj)
    (harg : parseCInt (arg.getD 1) = .ok n) (hn : 1 ≤ n) (hv : ∀ v ∈ o.sem, v ≤ valueMax) :
    AllOrNothing n o (c.release valueMax arg o) ↔
      c.checkOpen o ≠ .ok () ∨ ∀ v ∈ o.sem, v + n ≤ valueMax ∨ v = valueMax := by
  rw [SemClass.release_eq]
  rcases hcheck : c.checkOpen o with e | ⟨⟩
  · have hout : releaseWith c.checkOpen valueMax arg o = (.error e, o) := by
      simp only [releaseWith, hcheck]
    rw [hout]
    exact iff_of_true (Or.inr ⟨⟨e, rfl⟩, rfl⟩) (Or.inl (by simp))
  · obtain ⟨v, hsem⟩ := SemClass.sem_of_checkOpen hcheck
    have hle : v ≤ valueMax := hv v (by rw [hsem]; rfl)
    have hout : releaseWith c.checkOpen valueMax arg o
        = ((postLoop valueMax n.toNat (some v)).1,
            { o with sem := (postLoop valueMax n.toNat (some v)).2 }) := by
      simp only [releaseWith, hcheck, harg, hsem]
      rw [if_neg (by omega)]
    rw [hout, postLoop_eq _ _ hle]
    simp only [AllOrNothing, hsem, Option.mem_def, Option.some.injEq, forall_eq', ne_eq,
      not_true_eq_false, false_or, Option.map_some]
    by_cases hroom : v + n.toNat ≤ valueMax
    · rw [if_pos hroom]
      exact iff_of_true (Or.inl ⟨rfl, rfl⟩) (Or.inl (by omega))
    · rw [if_neg hroom]
      constructor
      · rintro (⟨hok, -⟩ | ⟨-, hsame⟩)
        · exact nomatch hok
        · -- the loop has stopped at the largest value, so it must have started there
          have hval := congrArg SemObj.sem hsame
          rw [hsem] at hval
          exact Or.inr (Option.some.inj hval).symm
      · rintro (hfit | hmax)
        · omega
        · refine Or.inr ⟨⟨_, rfl⟩, ?_⟩
          cases o
          simp only at hsem
          rw [hsem, hmax]

/-- Room for three posts at a value of four. -/
theorem release_allOrNothing_iff_three :
    AllOrNothing 3 ⟨false, true, some 4⟩
      (SemClass.semaphore.release 7 (some 3) ⟨false, true, some 4⟩) :=
  (release_allOrNothing_iff .semaphore (some 3) 3 ⟨false, true, some 4⟩ rfl (by decide)
    (by simp)).mpr (Or.inr (by simp))

/-- Two posts at one below the largest value: the first stays. -/
theorem release_posts_part :
    semRelease 2147483647 (some 2) ⟨false, true, some 2147483646⟩
        = (.error (.osError eoverflow), ⟨false, true, some 2147483647⟩) ∧
      ¬ AllOrNothing 2 ⟨false, true, some 2147483646⟩
        (semRelease 2147483647 (some 2) ⟨false, true, some 2147483646⟩) := by
  have hout : semRelease 2147483647 (some 2) ⟨false, true, some 2147483646⟩
      = (.error (.osError eoverflow), ⟨false, true, some 2147483647⟩) := by
    decide +kernel
  refine ⟨hout, ?_⟩
  rw [hout]
  rintro (⟨hok, -⟩ | ⟨-, hsame⟩)
  · exact nomatch hok
  · exact absurd hsame (by decide)

end PosixIpc
