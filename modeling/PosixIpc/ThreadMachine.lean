/-
# Threads that run code over a shared state

A `Machine` is a piece of code, given as an automaton (`act p` is the action at the
program point `p`, `next p r` the point after it has answered `r`), run by any number of
threads over one shared state.  One step is one action of one thread, or the death of a
thread; a dead thread has no program point.  The environment (a clock, a signal, the
choice of a waiter) enters through the `Env` argument of `perform`.

* `step`, `run` : one labelled step and a sequence of them;
* `Run Ok s₀ s` : `s` is reached from `s₀` by steps that all meet `Ok`; `Reach` is the
  case without a condition;
* `Run.invariant` : the invariant rule, with one obligation for actions and one for deaths;
* `Run.thread_invariant` : the same for what one thread knows.
-/
import Mathlib

namespace ThreadMachine

/-- Code and the actions it is made of. -/
structure Machine (Tid PC Act Env Res Shared : Type) where
  act : PC → Act
  next : PC → Res → PC
  /-- What an action does; `none` when it is blocked or cannot answer so. -/
  perform : Tid → Act → Env → Shared → Option (Res × Shared)
  die : Tid → Shared → Shared

/-- A program point for every live thread, and what they share. -/
structure State (Tid PC Shared : Type) where
  pc : Tid → Option PC
  shared : Shared

/-- One step: an action of `t`, or its death. -/
inductive Label (Tid Env : Type)
  | act (t : Tid) (e : Env)
  | die (t : Tid)

/-- Runs of three threads write their numbers as literals. -/
instance neZeroThree : NeZero 3 := ⟨by decide⟩

namespace Machine

variable {Tid PC Act Env Res Shared : Type} [DecidableEq Tid]
variable (M : Machine Tid PC Act Env Res Shared)

/-- The step with a given label. -/
def step (s : State Tid PC Shared) : Label Tid Env → Option (State Tid PC Shared)
  | .act t e =>
    match s.pc t with
    | none => none
    | some p =>
      match M.perform t (M.act p) e s.shared with
      | none => none
      | some (r, sh) => some ⟨Function.update s.pc t (some (M.next p r)), sh⟩
  | .die t =>
    match s.pc t with
    | none => none
    | some _ => some ⟨Function.update s.pc t none, M.die t s.shared⟩

/-- A sequence of steps. -/
def run : State Tid PC Shared → List (Label Tid Env) → Option (State Tid PC Shared)
  | s, [] => some s
  | s, l :: ls =>
    match M.step s l with
    | none => none
    | some s' => run s' ls

/-- A sequence of steps that all meet `Ok`. -/
def runIf (Ok : State Tid PC Shared → Label Tid Env → Prop) [∀ s l, Decidable (Ok s l)] :
    State Tid PC Shared → List (Label Tid Env) → Option (State Tid PC Shared)
  | s, [] => some s
  | s, l :: ls =>
    if Ok s l then
      match M.step s l with
      | none => none
      | some s' => runIf Ok s' ls
    else none

/-- The states reached by steps that all meet `Ok`. -/
inductive Run (Ok : State Tid PC Shared → Label Tid Env → Prop) (s₀ : State Tid PC Shared) :
    State Tid PC Shared → Prop
  | start : Run Ok s₀ s₀
  | step {s s' : State Tid PC Shared} {l : Label Tid Env} (h : Run Ok s₀ s) (hok : Ok s l)
      (hs : M.step s l = some s') : Run Ok s₀ s'

/-- The reachable states. -/
def Reach (s₀ s : State Tid PC Shared) : Prop := M.Run (fun _ _ => True) s₀ s

variable {M}

theorem step_act {s s' : State Tid PC Shared} {t : Tid} {e : Env}
    (h : M.step s (.act t e) = some s') :
    ∃ p r sh, s.pc t = some p ∧ M.perform t (M.act p) e s.shared = some (r, sh) ∧
      s' = ⟨Function.update s.pc t (some (M.next p r)), sh⟩ := by
  unfold step at h
  cases hp : s.pc t with
  | none => simp [hp] at h
  | some p =>
      cases hr : M.perform t (M.act p) e s.shared with
      | none => simp [hp, hr] at h
      | some rs =>
          obtain ⟨r, sh⟩ := rs
          refine ⟨p, r, sh, rfl, hr, ?_⟩
          simpa [hp, hr] using h.symm

theorem step_die {s s' : State Tid PC Shared} {t : Tid} (h : M.step s (.die t) = some s') :
    ∃ p, s.pc t = some p ∧ s' = ⟨Function.update s.pc t none, M.die t s.shared⟩ := by
  unfold step at h
  cases hp : s.pc t with
  | none => simp [hp] at h
  | some p => exact ⟨p, rfl, by simpa [hp] using h.symm⟩

/-- **The invariant rule** for runs whose steps meet a condition. -/
theorem Run.invariant {Ok : State Tid PC Shared → Label Tid Env → Prop}
    {I : State Tid PC Shared → Prop} {s₀ s : State Tid PC Shared} (h0 : I s₀)
    (hact : ∀ s t p e r sh, I s → Ok s (.act t e) → s.pc t = some p →
      M.perform t (M.act p) e s.shared = some (r, sh) →
      I ⟨Function.update s.pc t (some (M.next p r)), sh⟩)
    (hdie : ∀ s t p, I s → Ok s (.die t) → s.pc t = some p →
      I ⟨Function.update s.pc t none, M.die t s.shared⟩)
    (h : M.Run Ok s₀ s) : I s := by
  induction h with
  | start => exact h0
  | @step s s' l _ hok hs ih =>
      cases l with
      | act t e =>
          obtain ⟨p, r, sh, hp, hr, rfl⟩ := step_act hs
          exact hact s t p e r sh ih hok hp hr
      | die t =>
          obtain ⟨p, hp, rfl⟩ := step_die hs
          exact hdie s t p ih hok hp

/-- **The invariant rule for one thread**: what its program point says of the shared state is
kept by its own steps and not disturbed by those of the others. -/
theorem Run.thread_invariant {Ok : State Tid PC Shared → Label Tid Env → Prop} {t : Tid}
    {J : PC → Shared → Prop} {s₀ s : State Tid PC Shared}
    (h0 : ∀ p, s₀.pc t = some p → J p s₀.shared)
    (hself : ∀ s p e r sh, J p s.shared → Ok s (.act t e) → s.pc t = some p →
      M.perform t (M.act p) e s.shared = some (r, sh) → J (M.next p r) sh)
    (hother : ∀ (s : State Tid PC Shared) p u q e r sh, u ≠ t → J p s.shared →
      Ok s (.act u e) → s.pc t = some p → s.pc u = some q →
      M.perform u (M.act q) e s.shared = some (r, sh) → J p sh)
    (hdie : ∀ p u sh, u ≠ t → J p sh → J p (M.die u sh))
    (h : M.Run Ok s₀ s) (p : PC) (hp : s.pc t = some p) : J p s.shared := by
  have hI : ∀ p, s.pc t = some p → J p s.shared := by
    refine Run.invariant (I := fun s => ∀ p, s.pc t = some p → J p s.shared) h0 ?_ ?_ h
    · intro s u q e r sh hI hok hq hr p hp
      by_cases hut : u = t
      · subst hut
        obtain rfl : M.next q r = p := by simpa using hp
        exact hself s q e r sh (hI q hq) hok hq hr
      · have hp' : s.pc t = some p := by simpa [Ne.symm hut] using hp
        exact hother s p u q e r sh hut (hI p hp') hok hp' hq hr
    · intro s u q hI _ hq p hp
      by_cases hut : u = t
      · subst hut
        simp at hp
      · exact hdie p u _ hut (hI p (by simpa [Ne.symm hut] using hp))
  exact hI p hp

/-- A computed sequence of steps is a run, when each of its steps meets the condition. -/
theorem Run.of_run {Ok : State Tid PC Shared → Label Tid Env → Prop}
    {s₀ s s' : State Tid PC Shared} {ls : List (Label Tid Env)} (h : M.Run Ok s₀ s)
    (hok : ∀ s l, l ∈ ls → Ok s l) (hrun : M.run s ls = some s') : M.Run Ok s₀ s' := by
  induction ls generalizing s with
  | nil =>
      obtain rfl : s = s' := by simpa [run] using hrun
      exact h
  | cons l ls ih =>
      unfold run at hrun
      cases hs : M.step s l with
      | none => simp [hs] at hrun
      | some s1 =>
          simp only [hs] at hrun
          exact ih (.step h (hok s l (by simp)) hs)
            (fun s' l' hl' => hok s' l' (by simp [hl'])) hrun

/-- The state at the end of a computed sequence of steps that did not get stuck. -/
theorem Run.of_isSome {Ok : State Tid PC Shared → Label Tid Env → Prop}
    {s₀ : State Tid PC Shared} {ls : List (Label Tid Env)} (hok : ∀ s l, l ∈ ls → Ok s l)
    (h : (M.run s₀ ls).isSome) : M.Run Ok s₀ ((M.run s₀ ls).getD s₀) := by
  obtain ⟨s, hs⟩ := Option.isSome_iff_exists.mp h
  rw [hs]
  exact Run.of_run .start hok hs

/-- The same for a sequence whose steps are tested as it is computed. -/
theorem Run.of_runIf {Ok : State Tid PC Shared → Label Tid Env → Prop}
    [∀ s l, Decidable (Ok s l)] {s₀ s s' : State Tid PC Shared} {ls : List (Label Tid Env)}
    (h : M.Run Ok s₀ s) (hrun : M.runIf Ok s ls = some s') : M.Run Ok s₀ s' := by
  induction ls generalizing s with
  | nil =>
      obtain rfl : s = s' := by simpa [runIf] using hrun
      exact h
  | cons l ls ih =>
      unfold runIf at hrun
      by_cases hok : Ok s l
      · cases hs : M.step s l with
        | none => simp [hok, hs] at hrun
        | some s1 =>
            simp only [if_pos hok, hs] at hrun
            exact ih (.step h hok hs) hrun
      · simp [hok] at hrun

theorem Run.of_runIf_isSome {Ok : State Tid PC Shared → Label Tid Env → Prop}
    [∀ s l, Decidable (Ok s l)] {s₀ : State Tid PC Shared} {ls : List (Label Tid Env)}
    (h : (M.runIf Ok s₀ ls).isSome) : M.Run Ok s₀ ((M.runIf Ok s₀ ls).getD s₀) := by
  obtain ⟨s, hs⟩ := Option.isSome_iff_exists.mp h
  rw [hs]
  exact Run.of_runIf .start hs

end Machine

end ThreadMachine
