/-
# Programs that call the system

A program is a tree: it returns, or it makes a call and goes on with the answer.

* `Path t tr t'` : the calls `tr`, with their answers, lead from `t` to what is left, `t'`;
* `replay` : what a sequence of calls does to a state, given what each call does; `none` is a call
  that must not be made;
* `Wp` : the weakest precondition, for all answers that the calls may give.  It distributes over
  sequencing, and it is sound for every path (`Wp.path`).
-/
import Mathlib

namespace CallTree

/-- A program with calls `Q`, answers `R` and results `α`. -/
inductive Tree (Q R α : Type) : Type
  | ret (a : α) : Tree Q R α
  | ask (q : Q) (k : R → Tree Q R α) : Tree Q R α

namespace Tree

variable {Q R S α β : Type}

/-- Sequencing. -/
def seq : Tree Q R α → (α → Tree Q R β) → Tree Q R β
  | ret a, f => f a
  | ask q k, f => ask q fun r => (k r).seq f

instance : Monad (Tree Q R) where
  pure := ret
  bind := seq

/-- One call. -/
def call (q : Q) : Tree Q R R := ask q ret

/-- Calls with their answers lead from a program to what is left of it. -/
inductive Path : Tree Q R α → List (Q × R) → Tree Q R α → Prop
  | here (t : Tree Q R α) : Path t [] t
  | ask {q : Q} {k : R → Tree Q R α} {r : R} {tr : List (Q × R)} {t : Tree Q R α} :
      Path (k r) tr t → Path (Tree.ask q k) ((q, r) :: tr) t

/-- A run to the end. -/
def Run (t : Tree Q R α) (tr : List (Q × R)) (a : α) : Prop := Path t tr (ret a)

/-- The answers of a path are among those that are allowed. -/
def Lawful (ok : Q → R → Prop) (tr : List (Q × R)) : Prop := ∀ x ∈ tr, ok x.1 x.2

/-- What the calls do to a state. -/
def replay (step : S → Q → R → Option S) : S → List (Q × R) → Option S
  | s, [] => some s
  | s, (q, r) :: tr =>
    match step s q r with
    | none => none
    | some s' => replay step s' tr

/-- **The weakest precondition**: whatever the system answers, every call may be made, and the
result meets `post`. -/
def Wp (ok : Q → R → Prop) (step : S → Q → R → Option S) :
    Tree Q R α → (α → S → Prop) → S → Prop
  | ret a, post, s => post a s
  | ask q k, post, s => ∀ r, ok q r → ∃ s', step s q r = some s' ∧ Wp ok step (k r) post s'

section Wp

variable {ok : Q → R → Prop} {step : S → Q → R → Option S} {s : S}

@[simp] theorem wp_pure (a : α) (post : α → S → Prop) :
    Wp ok step (pure a) post s ↔ post a s := Iff.rfl

@[simp] theorem wp_call (q : Q) (post : R → S → Prop) :
    Wp ok step (call q) post s ↔ ∀ r, ok q r → ∃ s', step s q r = some s' ∧ post r s' := Iff.rfl

/-- Sequencing. -/
theorem wp_bind (t : Tree Q R α) (f : α → Tree Q R β) (post : β → S → Prop) :
    Wp ok step (t >>= f) post s ↔ Wp ok step t (fun a s' => Wp ok step (f a) post s') s := by
  show Wp ok step (t.seq f) post s ↔ _
  induction t generalizing s with
  | ret a => exact Iff.rfl
  | ask q k ih =>
    constructor
    · intro h r hr
      obtain ⟨s', hs, hw⟩ := h r hr
      exact ⟨s', hs, (ih r).mp hw⟩
    · intro h r hr
      obtain ⟨s', hs, hw⟩ := h r hr
      exact ⟨s', hs, (ih r).mpr hw⟩

/-- One call, and then the rest. -/
theorem wp_call_bind (q : Q) (f : R → Tree Q R β) (post : β → S → Prop) :
    Wp ok step (call q >>= f) post s ↔
      ∀ r, ok q r → ∃ s', step s q r = some s' ∧ Wp ok step (f r) post s' := Iff.rfl

/-- A weaker postcondition. -/
theorem Wp.mono {t : Tree Q R α} {post post' : α → S → Prop} (h : Wp ok step t post s)
    (hpost : ∀ a s', post a s' → post' a s') : Wp ok step t post' s := by
  induction t generalizing s with
  | ret a => exact hpost a s h
  | ask q k ih =>
    intro r hr
    obtain ⟨s', hs, hw⟩ := h r hr
    exact ⟨s', hs, ih r hw⟩

/-- **Soundness**: along every path the calls may be made, and the rest is still right. -/
theorem Wp.path {t t' : Tree Q R α} {tr : List (Q × R)} {post : α → S → Prop}
    (h : Wp ok step t post s) (hp : Path t tr t') (hl : Lawful ok tr) :
    ∃ s', replay step s tr = some s' ∧ Wp ok step t' post s' := by
  induction hp generalizing s with
  | here t => exact ⟨s, rfl, h⟩
  | @ask q k r tr t _ ih =>
    obtain ⟨s₁, hs, hw⟩ := h r (hl (q, r) List.mem_cons_self)
    obtain ⟨s', hs', hw'⟩ := ih hw fun x hx => hl x (List.mem_cons_of_mem _ hx)
    refine ⟨s', ?_, hw'⟩
    unfold replay
    rw [hs]
    exact hs'

theorem Wp.run {t : Tree Q R α} {tr : List (Q × R)} {a : α} {post : α → S → Prop}
    (h : Wp ok step t post s) (hr : Run t tr a) (hl : Lawful ok tr) :
    ∃ s', replay step s tr = some s' ∧ post a s' := h.path hr hl

end Wp

end Tree

end CallTree
