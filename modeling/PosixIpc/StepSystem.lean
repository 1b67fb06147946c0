/-
# Runs of a step function

A system given by a partial step function `step : S → L → Option S` and a start state.

* `Run step s₀ Ok s` : `s` is reached from `s₀` by steps that all meet `Ok`;
* `Run.invariant` : the invariant rule;
* `runIf` : a sequence of steps, each tested before it is taken.
-/
import Mathlib

namespace StepSystem

variable {S L : Type} (step : S → L → Option S) (s₀ : S)

/-- The states reached by steps that all meet `Ok`. -/
inductive Run (Ok : S → L → Prop) : S → Prop
  | start : Run Ok s₀
  | step {s s' : S} {l : L} (h : Run Ok s) (hok : Ok s l) (hs : step s l = some s') : Run Ok s'

/-- A sequence of steps that all meet `Ok`. -/
def runIf (Ok : S → L → Prop) [∀ s l, Decidable (Ok s l)] : S → List L → Option S
  | s, [] => some s
  | s, l :: ls =>
    if Ok s l then
      match step s l with
      | none => none
      | some s' => runIf Ok s' ls
    else none

variable {step} {s₀}

/-- **The invariant rule.** -/
theorem Run.invariant {Ok : S → L → Prop} {I : S → Prop} {s : S} (h0 : I s₀)
    (hstep : ∀ s l s', I s → Ok s l → step s l = some s' → I s') (h : Run step s₀ Ok s) : I s := by
  induction h with
  | start => exact h0
  | step _ hok hs ih => exact hstep _ _ _ ih hok hs

theorem Run.of_runIf {Ok : S → L → Prop} [∀ s l, Decidable (Ok s l)] {s s' : S} {ls : List L}
    (h : Run step s₀ Ok s) (hrun : runIf step Ok s ls = some s') : Run step s₀ Ok s' := by
  induction ls generalizing s with
  | nil =>
      obtain rfl : s = s' := by simpa [runIf] using hrun
      exact h
  | cons l ls ih =>
      unfold runIf at hrun
      by_cases hok : Ok s l
      · cases hs : step s l with
        | none => simp [hok, hs] at hrun
        | some s1 =>
            simp only [if_pos hok, hs] at hrun
            exact ih (.step h hok hs) hrun
      · simp [hok] at hrun

/-- The state at the end of a computed sequence of steps that did not get stuck. -/
theorem Run.of_isSome {Ok : S → L → Prop} [∀ s l, Decidable (Ok s l)] {ls : List L}
    (h : (runIf step Ok s₀ ls).isSome) : Run step s₀ Ok ((runIf step Ok s₀ ls).getD s₀) := by
  obtain ⟨s, hs⟩ := Option.isSome_iff_exists.mp h
  rw [hs]
  exact Run.of_runIf .start hs

end StepSystem
