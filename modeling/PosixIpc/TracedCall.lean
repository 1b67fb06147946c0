/-
# Calls with events and exceptions

A call changes a state and reports events on its way.  It ends with a value or with an
exception; what it has done until then stays done.

* `Call S Ev Err α` is a monad; `look` inspects the state, `change` changes it, `note` adds an
  event, `raise` ends the call;
* `Notes P c s` says that every event of the call meets `P`.

The rules about events are equivalences, so that a condition on the events of a sequence can be
computed from conditions on its parts.
-/
import Mathlib

namespace TracedCall

/-- The end of a call: its events, the state that it leaves, and its value or exception. -/
structure Finish (S Ev Err α : Type) where
  trace : List Ev
  state : S
  result : Except Err α

/-- A call on states `S` with events `Ev` and exceptions `Err`. -/
def Call (S Ev Err α : Type) : Type := S → Finish S Ev Err α

namespace Call

variable {S Ev Err α β : Type}

/-- Sequencing: an exception ends the call. -/
def andThen (c : Call S Ev Err α) (f : α → Call S Ev Err β) : Call S Ev Err β := fun s =>
  match (c s).result with
  | .ok a =>
    let next := f a (c s).state
    ⟨(c s).trace ++ next.trace, next.state, next.result⟩
  | .error e => ⟨(c s).trace, (c s).state, .error e⟩

instance : Monad (Call S Ev Err) where
  pure a := fun s => ⟨[], s, .ok a⟩
  bind := andThen

/-- Inspect the state. -/
def look (f : S → α) : Call S Ev Err α := fun s => ⟨[], s, .ok (f s)⟩

/-- Change the state. -/
def change (f : S → S) : Call S Ev Err Unit := fun s => ⟨[], f s, .ok ()⟩

/-- Add an event. -/
def note (e : Ev) : Call S Ev Err Unit := fun s => ⟨[e], s, .ok ()⟩

/-- Raise an exception. -/
def raise (e : Err) : Call S Ev Err α := fun s => ⟨[], s, .error e⟩

/-- Every event of the call meets `P`. -/
def Notes (P : Ev → Prop) (c : Call S Ev Err α) (s : S) : Prop := ∀ e ∈ (c s).trace, P e

/-! ## Runs -/

@[simp] theorem pure_run (a : α) (s : S) : (pure a : Call S Ev Err α) s = ⟨[], s, .ok a⟩ := rfl

@[simp] theorem look_run (f : S → α) (s : S) :
    (look f : Call S Ev Err α) s = ⟨[], s, .ok (f s)⟩ := rfl

@[simp] theorem change_run (f : S → S) (s : S) :
    (change f : Call S Ev Err Unit) s = ⟨[], f s, .ok ()⟩ := rfl

@[simp] theorem note_run (e : Ev) (s : S) :
    (note e : Call S Ev Err Unit) s = ⟨[e], s, .ok ()⟩ := rfl

@[simp] theorem raise_run (e : Err) (s : S) :
    (raise e : Call S Ev Err α) s = ⟨[], s, .error e⟩ := rfl

/-- The call returns `a` and leaves the state `s'`. -/
def Returns (c : Call S Ev Err α) (s s' : S) (a : α) : Prop := ∃ t, c s = ⟨t, s', .ok a⟩

/-- The call raises `e` and leaves the state `s'`. -/
def Raises (c : Call S Ev Err α) (s s' : S) (e : Err) : Prop := ∃ t, c s = ⟨t, s', .error e⟩

/-- A call returns or raises. -/
theorem returns_or_raises (c : Call S Ev Err α) (s : S) :
    (∃ s' a, Returns c s s' a) ∨ ∃ s' e, Raises c s s' e := by
  rcases hc : c s with ⟨t, s', e | a⟩
  · exact Or.inr ⟨s', e, t, hc⟩
  · exact Or.inl ⟨s', a, t, hc⟩

/-- A call ends in one way. -/
theorem Returns.unique {c : Call S Ev Err α} {s s₁ s₂ : S} {a b : α} (h : Returns c s s₁ a)
    (h' : Returns c s s₂ b) : s₁ = s₂ ∧ a = b := by
  obtain ⟨t, h⟩ := h
  obtain ⟨t', h'⟩ := h'
  obtain ⟨-, hs, ha⟩ := Finish.mk.inj (h.symm.trans h')
  exact ⟨hs, Except.ok.inj ha⟩

/-- A call raises one error. -/
theorem Raises.unique {c : Call S Ev Err α} {s s₁ s₂ : S} {e f : Err} (h : Raises c s s₁ e)
    (h' : Raises c s s₂ f) : s₁ = s₂ ∧ e = f := by
  obtain ⟨t, h⟩ := h
  obtain ⟨t', h'⟩ := h'
  obtain ⟨-, hs, he⟩ := Finish.mk.inj (h.symm.trans h')
  exact ⟨hs, Except.error.inj he⟩

/-- A call that returns does not raise. -/
theorem Returns.not_raises {c : Call S Ev Err α} {s s₁ s₂ : S} {a : α} {e : Err}
    (h : Returns c s s₁ a) (h' : Raises c s s₂ e) : False := by
  obtain ⟨t, h⟩ := h
  obtain ⟨t', h'⟩ := h'
  obtain ⟨-, -, hr⟩ := Finish.mk.inj (h.symm.trans h')
  exact nomatch hr

@[simp] theorem returns_pure (a b : α) (s s' : S) :
    Returns (pure a : Call S Ev Err α) s s' b ↔ s' = s ∧ b = a := by
  constructor
  · rintro ⟨t, h⟩
    obtain ⟨-, rfl, hr⟩ := Finish.mk.inj h
    exact ⟨rfl, (Except.ok.inj hr).symm⟩
  · rintro ⟨rfl, rfl⟩
    exact ⟨[], rfl⟩

@[simp] theorem returns_change (f : S → S) (s s' : S) (u : Unit) :
    Returns (change f : Call S Ev Err Unit) s s' u ↔ s' = f s := by
  constructor
  · rintro ⟨t, h⟩
    exact (Finish.mk.inj h).2.1.symm
  · rintro rfl
    exact ⟨[], rfl⟩

@[simp] theorem raises_raise (e e' : Err) (s s' : S) :
    Raises (raise e : Call S Ev Err α) s s' e' ↔ s' = s ∧ e' = e := by
  constructor
  · rintro ⟨t, h⟩
    obtain ⟨-, rfl, hr⟩ := Finish.mk.inj h
    exact ⟨rfl, (Except.error.inj hr).symm⟩
  · rintro ⟨rfl, rfl⟩
    exact ⟨[], rfl⟩

/-- A sequence whose first part returns goes on with the second. -/
theorem bind_of_ok {c : Call S Ev Err α} {s s' : S} {t : List Ev} {a : α}
    (h : c s = ⟨t, s', .ok a⟩) (f : α → Call S Ev Err β) :
    (c >>= f) s = ⟨t ++ (f a s').trace, (f a s').state, (f a s').result⟩ := by
  show c.andThen f s = _
  simp only [andThen, h]

/-- A sequence whose first part raises ends there. -/
theorem bind_of_error {c : Call S Ev Err α} {s s' : S} {t : List Ev} {e : Err}
    (h : c s = ⟨t, s', .error e⟩) (f : α → Call S Ev Err β) :
    (c >>= f) s = ⟨t, s', .error e⟩ := by
  show c.andThen f s = _
  simp only [andThen, h]

/-- After a call that returns, the rest decides what is returned. -/
theorem Returns.bind_iff {c : Call S Ev Err α} {s s₁ s' : S} {a : α} {b : β}
    (h : Returns c s s₁ a) (f : α → Call S Ev Err β) :
    Returns (c >>= f) s s' b ↔ Returns (f a) s₁ s' b := by
  obtain ⟨t, h⟩ := h
  unfold Returns
  rw [bind_of_ok h]
  constructor
  · rintro ⟨t', h'⟩
    obtain ⟨-, hs, hr⟩ := Finish.mk.inj h'
    exact ⟨(f a s₁).trace, by rw [← hs, ← hr]⟩
  · rintro ⟨t', h'⟩
    exact ⟨t ++ t', by rw [h']⟩

/-- After a call that returns, the rest decides what is raised. -/
theorem Returns.bind_raises_iff {c : Call S Ev Err α} {s s₁ s' : S} {a : α} {e : Err}
    (h : Returns c s s₁ a) (f : α → Call S Ev Err β) :
    Raises (c >>= f) s s' e ↔ Raises (f a) s₁ s' e := by
  obtain ⟨t, h⟩ := h
  unfold Raises
  rw [bind_of_ok h]
  constructor
  · rintro ⟨t', h'⟩
    obtain ⟨-, hs, hr⟩ := Finish.mk.inj h'
    exact ⟨(f a s₁).trace, by rw [← hs, ← hr]⟩
  · rintro ⟨t', h'⟩
    exact ⟨t ++ t', by rw [h']⟩

/-- A call that raises skips the rest. -/
theorem Raises.bind {c : Call S Ev Err α} {s s' : S} {e : Err} (h : Raises c s s' e)
    (f : α → Call S Ev Err β) : Raises (c >>= f) s s' e := by
  obtain ⟨t, h⟩ := h
  exact ⟨t, bind_of_error h f⟩

/-- A sequence raises when one of its parts does. -/
theorem raises_bind_iff {c : Call S Ev Err α} {f : α → Call S Ev Err β} {s s' : S} {e : Err} :
    Raises (c >>= f) s s' e ↔
      Raises c s s' e ∨ ∃ s₁ a, Returns c s s₁ a ∧ Raises (f a) s₁ s' e := by
  rcases returns_or_raises c s with ⟨s₁, a, hc⟩ | ⟨s₁, e₁, hc⟩
  · rw [hc.bind_raises_iff]
    constructor
    · exact fun h => Or.inr ⟨s₁, a, hc, h⟩
    · rintro (h | ⟨s₂, b, h, h'⟩)
      · exact (hc.not_raises h).elim
      · obtain ⟨rfl, rfl⟩ := hc.unique h
        exact h'
  · constructor
    · intro h
      obtain ⟨rfl, rfl⟩ := (hc.bind f).unique h
      exact Or.inl hc
    · rintro (h | ⟨s₂, b, h, -⟩)
      · exact h.bind f
      · exact (h.not_raises hc).elim

/-- A sequence returns when both parts do. -/
theorem returns_bind_iff {c : Call S Ev Err α} {f : α → Call S Ev Err β} {s s' : S} {b : β} :
    Returns (c >>= f) s s' b ↔ ∃ s₁ a, Returns c s s₁ a ∧ Returns (f a) s₁ s' b := by
  rcases returns_or_raises c s with ⟨s₁, a, hc⟩ | ⟨s₁, e₁, hc⟩
  · rw [hc.bind_iff]
    constructor
    · exact fun h => ⟨s₁, a, hc, h⟩
    · rintro ⟨s₂, b, h, h'⟩
      obtain ⟨rfl, rfl⟩ := hc.unique h
      exact h'
  · constructor
    · exact fun h => (h.not_raises (hc.bind f)).elim
    · rintro ⟨s₂, b, h, -⟩
      exact (h.not_raises hc).elim

/-! ## Invariants -/

/-- However the call ends, it keeps `P`. -/
def Keeps (P : S → Prop) (c : Call S Ev Err α) : Prop := ∀ s, P s → P (c s).state

/-- A value changes nothing. -/
theorem keeps_pure (P : S → Prop) (a : α) : Keeps P (pure a : Call S Ev Err α) := fun _ h => h

/-- An error changes nothing. -/
theorem keeps_raise (P : S → Prop) (e : Err) : Keeps P (raise e : Call S Ev Err α) := fun _ h => h

/-- Two calls keep what each of them keeps. -/
theorem Keeps.bind {P : S → Prop} {c : Call S Ev Err α} {f : α → Call S Ev Err β}
    (hc : Keeps P c) (hf : ∀ a, Keeps P (f a)) : Keeps P (c >>= f) := by
  intro s hs
  have hP := hc s hs
  rcases h : c s with ⟨t, s', e | a⟩
  · rw [bind_of_error h]
    rwa [h] at hP
  · rw [bind_of_ok h]
    rw [h] at hP
    exact hf a s' hP

/-- What a call keeps holds after its return. -/
theorem Keeps.returns {P : S → Prop} {c : Call S Ev Err α} {s s' : S} {a : α} (hc : Keeps P c)
    (hs : P s) (h : Returns c s s' a) : P s' := by
  obtain ⟨t, h⟩ := h
  have hP := hc s hs
  rwa [h] at hP

/-- What a call keeps holds after its error. -/
theorem Keeps.raises {P : S → Prop} {c : Call S Ev Err α} {s s' : S} {e : Err} (hc : Keeps P c)
    (hs : P s) (h : Raises c s s' e) : P s' := by
  obtain ⟨t, h⟩ := h
  have hP := hc s hs
  rwa [h] at hP

/-! ## Events -/

@[simp] theorem notes_pure (P : Ev → Prop) (a : α) (s : S) :
    Notes P (pure a : Call S Ev Err α) s ↔ True :=
  iff_of_true (fun _ he => nomatch he) trivial

@[simp] theorem notes_raise (P : Ev → Prop) (e : Err) (s : S) :
    Notes P (raise e : Call S Ev Err α) s ↔ True :=
  iff_of_true (fun _ he => nomatch he) trivial

@[simp] theorem notes_change (P : Ev → Prop) (f : S → S) (s : S) :
    Notes P (change f : Call S Ev Err Unit) s ↔ True :=
  iff_of_true (fun _ he => nomatch he) trivial

@[simp] theorem notes_note (P : Ev → Prop) (e : Ev) (s : S) :
    Notes P (note e : Call S Ev Err Unit) s ↔ P e := by
  constructor
  · exact fun h => h e (List.mem_singleton.mpr rfl)
  · intro h x hx
    rwa [List.mem_singleton.mp hx]

/-- The events of a sequence are those of its first part, and those of the second one if the
first returns. -/
theorem notes_bind (P : Ev → Prop) (c : Call S Ev Err α) (f : α → Call S Ev Err β) (s : S) :
    Notes P (c >>= f) s ↔
      Notes P c s ∧ ∀ t s' a, c s = ⟨t, s', .ok a⟩ → Notes P (f a) s' := by
  unfold Notes
  rcases hc : c s with ⟨t₁, s₁, a | a⟩
  · rw [bind_of_error hc]
    simp
  · rw [bind_of_ok hc, List.forall_mem_append]
    refine and_congr_right fun _ => ?_
    constructor
    · intro h t s' a' heq
      obtain ⟨-, rfl, ha⟩ := Finish.mk.inj heq
      rwa [← Except.ok.inj ha]
    · exact fun h => h t₁ s₁ a rfl

/-- A sequence of calls that keep to `P` wherever they start. -/
theorem notes_bind_of {P : Ev → Prop} {c : Call S Ev Err α} {f : α → Call S Ev Err β}
    (hc : ∀ s, Notes P c s) (hf : ∀ a s, Notes P (f a) s) (s : S) : Notes P (c >>= f) s :=
  (notes_bind P c f s).mpr ⟨hc s, fun _ s' a _ => hf a s'⟩

/-- The events of a sequence whose first part returns `a`. -/
theorem notes_bind_ok (P : Ev → Prop) {c : Call S Ev Err α} {s s' : S} {t : List Ev} {a : α}
    (h : c s = ⟨t, s', .ok a⟩) (f : α → Call S Ev Err β) :
    Notes P (c >>= f) s ↔ (∀ e ∈ t, P e) ∧ Notes P (f a) s' := by
  unfold Notes
  rw [bind_of_ok h, List.forall_mem_append]

/-- The events of a sequence whose first part raises. -/
theorem notes_bind_error (P : Ev → Prop) {c : Call S Ev Err α} {s s' : S} {t : List Ev} {e : Err}
    (h : c s = ⟨t, s', .error e⟩) (f : α → Call S Ev Err β) :
    Notes P (c >>= f) s ↔ ∀ e ∈ t, P e := by
  unfold Notes
  rw [bind_of_error h]

end Call

end TracedCall
