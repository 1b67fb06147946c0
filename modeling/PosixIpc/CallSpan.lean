/-
# One call in a run of many threads

A call of a thread is a stretch of a run: from a first state on the thread takes its own steps,
and between them the others take theirs.  `Span` is such a stretch, together with what is
observed of the thread's own steps, in their order.

* `Span.run` : the states of a span are states of the run;
* `Span.invariant` : the rule for what holds in the middle of a call, given an invariant of the
  whole run;
* `Straight`, `Span.straight` : code that goes from point to point whatever it is answered.
-/
import PosixIpc.ThreadMachine

namespace ThreadMachine

variable {Tid PC Act Env Res Shared Ob : Type} [DecidableEq Tid]

/-- The thread of a step. -/
def Label.thread : Label Tid Env → Tid
  | .act t _ => t
  | .die t => t

namespace Machine

/-- A stretch of a run from `s₀`.  Thread `t` takes steps only at points in `inside`; `ob` is
what is seen of such a step. -/
inductive Span (M : Machine Tid PC Act Env Res Shared)
    (Ok : State Tid PC Shared → Label Tid Env → Prop) (t : Tid) (inside : PC → Prop)
    (ob : PC → Shared → Shared → List Ob) (s₀ : State Tid PC Shared) :
    List Ob → State Tid PC Shared → Prop
  | start : Span M Ok t inside ob s₀ [] s₀
  | other {os : List Ob} {s s' : State Tid PC Shared} {l : Label Tid Env}
      (h : Span M Ok t inside ob s₀ os s) (hne : l.thread ≠ t) (hok : Ok s l)
      (hs : M.step s l = some s') : Span M Ok t inside ob s₀ os s'
  | own {os : List Ob} {s s' : State Tid PC Shared} {e : Env} {p : PC}
      (h : Span M Ok t inside ob s₀ os s) (hp : s.pc t = some p) (hin : inside p)
      (hok : Ok s (.act t e)) (hs : M.step s (.act t e) = some s') :
      Span M Ok t inside ob s₀ (os ++ ob p s.shared s'.shared) s'

variable {M : Machine Tid PC Act Env Res Shared}
  {Ok : State Tid PC Shared → Label Tid Env → Prop} {t : Tid} {inside : PC → Prop}
  {ob : PC → Shared → Shared → List Ob} {s₀ s₁ s : State Tid PC Shared} {os : List Ob}

/-- A span that continues a run stays in it. -/
theorem Span.run (h : M.Span Ok t inside ob s₁ os s) (hrun : M.Run Ok s₀ s₁) : M.Run Ok s₀ s := by
  induction h with
  | start => exact hrun
  | other _ _ hok hs ih => exact .step ih hok hs
  | own _ _ _ hok hs ih => exact .step ih hok hs

/-- A step of another thread leaves the program point of `t`. -/
theorem step_other_pc {s s' : State Tid PC Shared} {l : Label Tid Env} (hne : l.thread ≠ t)
    (hs : M.step s l = some s') : s'.pc t = s.pc t := by
  cases l with
  | act u e =>
    obtain ⟨p, r, sh, -, -, rfl⟩ := step_act hs
    exact Function.update_of_ne (Ne.symm hne) _ _
  | die u =>
    obtain ⟨p, -, rfl⟩ := step_die hs
    exact Function.update_of_ne (Ne.symm hne) _ _

/-- **The rule for a call.**  `I` holds in every state of the run; `J` says what the thread has
done so far at its program point.  `J` may speak of the shared state only through what the
others cannot change. -/
theorem Span.invariant {I : State Tid PC Shared → Prop} {J : List Ob → PC → Shared → Prop}
    (hI : ∀ s, M.Run Ok s₀ s → I s) (hrun : M.Run Ok s₀ s₁)
    (h0 : ∀ p, s₁.pc t = some p → J [] p s₁.shared)
    (hother : ∀ s l s' os p, I s → l.thread ≠ t → Ok s l → M.step s l = some s' →
      s.pc t = some p → J os p s.shared → J os p s'.shared)
    (hown : ∀ s os p e r sh, I s → Ok s (.act t e) → s.pc t = some p → inside p →
      M.perform t (M.act p) e s.shared = some (r, sh) → J os p s.shared →
      J (os ++ ob p s.shared sh) (M.next p r) sh)
    (h : M.Span Ok t inside ob s₁ os s) (p : PC) (hp : s.pc t = some p) : J os p s.shared := by
  induction h generalizing p with
  | start => exact h0 p hp
  | other h hne hok hs ih =>
    rw [step_other_pc hne hs] at hp
    exact hother _ _ _ _ _ (hI _ (h.run hrun)) hne hok hs hp (ih p hp)
  | own h hq hin hok hs ih =>
    obtain ⟨q, r, sh, hq', hr, rfl⟩ := step_act hs
    obtain rfl := Option.some.inj (hq'.symm.trans hq)
    obtain rfl : M.next q r = p := by simpa using hp
    exact hown _ _ _ _ _ _ (hI _ (h.run hrun)) hok hq hin hr (ih q hq)

/-- Own steps only, as far as they are `good`: the observations and the last state. -/
def ownSteps (M : Machine Tid PC Act Env Res Shared) (t : Tid)
    (ob : PC → Shared → Shared → List Ob) (good : PC → State Tid PC Shared → Env → Bool) :
    State Tid PC Shared → List Env → Option (List Ob × State Tid PC Shared)
  | s, [] => some ([], s)
  | s, e :: es =>
    match s.pc t with
    | none => none
    | some p =>
      if good p s e then
        match M.step s (.act t e) with
        | none => none
        | some s' => (ownSteps M t ob good s' es).map fun x => (ob p s.shared s'.shared ++ x.1, x.2)
      else none

/-- A computed sequence of own steps continues a span. -/
theorem Span.append_ownSteps {good : PC → State Tid PC Shared → Env → Bool}
    (hgood : ∀ p s e, s.pc t = some p → good p s e = true → inside p ∧ Ok s (.act t e))
    {es : List Env} {os' : List Ob} {s' : State Tid PC Shared}
    (h : M.Span Ok t inside ob s₀ os s) (hes : M.ownSteps t ob good s es = some (os', s')) :
    M.Span Ok t inside ob s₀ (os ++ os') s' := by
  induction es generalizing os os' s with
  | nil =>
    obtain ⟨rfl, rfl⟩ := Prod.mk.inj (Option.some.inj hes)
    rwa [List.append_nil]
  | cons e es ih =>
    unfold ownSteps at hes
    rcases hp : s.pc t with _ | p
    · simp [hp] at hes
    · by_cases hg : good p s e = true
      · rcases hs : M.step s (.act t e) with _ | s₁
        · simp [hp, hg, hs] at hes
        · simp only [hp, hg, hs, if_true, Option.map_eq_some_iff] at hes
          obtain ⟨⟨os₁, s₂⟩, hrest, heq⟩ := hes
          obtain ⟨rfl, rfl⟩ := Prod.mk.inj heq
          obtain ⟨hin, hok⟩ := hgood p s e hp hg
          rw [← List.append_assoc]
          exact ih (.own h hp hin hok hs) hrest
      · simp [hp, hg] at hes

/-- The span of a computed sequence of own steps that did not get stuck. -/
theorem Span.of_ownSteps {good : PC → State Tid PC Shared → Env → Bool}
    (hgood : ∀ p s e, s.pc t = some p → good p s e = true → inside p ∧ Ok s (.act t e))
    {es : List Env} (h : (M.ownSteps t ob good s₀ es).isSome) :
    M.Span Ok t inside ob s₀ ((M.ownSteps t ob good s₀ es).get h).1
      ((M.ownSteps t ob good s₀ es).get h).2 := by
  have hspan := Span.append_ownSteps hgood (.start : M.Span Ok t inside ob s₀ [] s₀)
    (Option.some_get h).symm
  exact hspan

/-! ## Straight code -/

/-- From each point of a list the code goes to the next one, whatever is answered. -/
def Straight (M : Machine Tid PC Act Env Res Shared) : List PC → Prop
  | p :: q :: ps => (∀ r, M.next p r = q) ∧ Straight M (q :: ps)
  | _ => True

omit [DecidableEq Tid] in
theorem Straight.next {pre post : List PC} {p q : PC} (h : M.Straight (pre ++ p :: q :: post))
    (r : Res) : M.next p r = q := by
  induction pre with
  | nil => exact h.1 r
  | cons a pre ih =>
    cases pre with
    | nil => exact ih h.2
    | cons b pre => exact ih h.2

/-- **The rule for straight code**: how far the thread has come, and the actions it has taken. -/
theorem Span.straight {path : List PC} {p : PC} {as : List Act} (hstr : M.Straight path)
    (hlast : ∀ q, path.getLast? = some q → ¬ inside q) (hhead : path.head? = some p)
    (hp : s₁.pc t = some p)
    (h : M.Span Ok t inside (fun q _ _ => [M.act q]) s₁ as s) :
    ∃ pre q post, path = pre ++ q :: post ∧ as = pre.map M.act ∧ s.pc t = some q := by
  induction h with
  | start =>
    obtain ⟨post, rfl⟩ := List.head?_eq_some_iff.mp hhead
    exact ⟨[], p, post, rfl, rfl, hp⟩
  | other _ hne _ hs ih =>
    obtain ⟨pre, q, post, hpath, has, hq⟩ := ih
    exact ⟨pre, q, post, hpath, has, (step_other_pc hne hs).trans hq⟩
  | own _ hq' hin _ hs ih =>
    obtain ⟨pre, q, post, rfl, rfl, hq⟩ := ih
    obtain rfl := Option.some.inj (hq'.symm.trans hq)
    obtain ⟨q', r, sh, hq'', -, rfl⟩ := step_act hs
    obtain rfl := Option.some.inj (hq''.symm.trans hq)
    cases post with
    | nil => exact absurd hin (hlast _ (by simp))
    | cons a post =>
      refine ⟨pre ++ [q'], a, post, by simp, by simp, ?_⟩
      simp [hstr.next]

end Machine

end ThreadMachine
