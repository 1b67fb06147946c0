/-
# Programs that take effect at one store

A program on a memory may be read as an operation that takes effect at once: up to some store
the memory still shows the old state (`P`), from that store on it shows the new one (`Q`).

* `Committed` : the effect has been made;
* `Commits` : it has not been made yet; the program may also end without it.

The results of the two ways to end are `done` and `fail`.  The rules for sequencing cut a
program at its commit.
-/
import PosixIpc.StoreProg

namespace StoreProg

namespace Prog

variable {Addr Val α β : Type} [DecidableEq Addr]

/-- The rest of a program whose effect has been made. -/
structure Committed (Q : (Addr → Val) → Prop) (done : α → (Addr → Val) → Prop)
    (p : Prog Addr Val α) (m : Addr → Val) : Prop where
  always : Always Q p m
  result : done (exec p m).1 (exec p m).2

/-- The rest of a program whose effect has not been made. -/
def Commits (P Q : (Addr → Val) → Prop) (fail done : α → (Addr → Val) → Prop) :
    Prog Addr Val α → (Addr → Val) → Prop
  | ret a, m => P m ∧ fail a m
  | load l k, m => P m ∧ Commits P Q fail done (k (m l)) m
  | store l v k, m => P m ∧ (Commits P Q fail done k (Function.update m l v) ∨
      Committed Q done k (Function.update m l v))

variable {P Q : (Addr → Val) → Prop} {fail done : α → (Addr → Val) → Prop}

theorem Commits.here {p : Prog Addr Val α} {m : Addr → Val} (h : Commits P Q fail done p m) :
    P m := by
  cases p with
  | ret a => exact h.1
  | load l k => exact h.1
  | store l v k => exact h.1

theorem Committed.here {p : Prog Addr Val α} {m : Addr → Val} (h : Committed Q done p m) :
    Q m := h.always.here

/-- A part that keeps the old state comes before the commit. -/
theorem Commits.bind {p : Prog Addr Val β} {f : β → Prog Addr Val α} {m : Addr → Val}
    (hp : Always P p m) (hf : Commits P Q fail done (f (exec p m).1) (exec p m).2) :
    Commits P Q fail done (p >>= f) m := by
  induction p generalizing m with
  | ret a => exact hf
  | load l k ih => exact ⟨hp.1, ih (m l) hp.2 hf⟩
  | store l v k ih => exact ⟨hp.1, Or.inl (ih hp.2 hf)⟩

/-- The committing store. -/
theorem Commits.write {l : Addr} {v : Val} {f : Unit → Prog Addr Val α} {m : Addr → Val}
    (hP : P m) (hf : Committed Q done (f ()) (Function.update m l v)) :
    Commits P Q fail done (Prog.write l v >>= f) m := ⟨hP, Or.inr hf⟩

/-- A last part that only shapes the result. -/
theorem Commits.map {fail' done' : β → (Addr → Val) → Prop} {p : Prog Addr Val α} {g : α → β}
    {m : Addr → Val} (h : Commits P Q fail done p m)
    (hfail : ∀ a m, fail a m → fail' (g a) m) (hdone : ∀ a m, done a m → done' (g a) m) :
    Commits P Q fail' done' (p >>= fun a => pure (g a)) m := by
  have hrest : ∀ {p : Prog Addr Val α} {m}, Committed Q done p m →
      Committed Q done' (p >>= fun a => pure (g a)) m := by
    intro p m hc
    refine ⟨(always_bind _ _ _ _).mpr ⟨hc.always, hc.always.last⟩, ?_⟩
    rw [exec_bind]
    exact hdone _ _ hc.result
  induction p generalizing m with
  | ret a => exact ⟨h.1, hfail a m h.2⟩
  | load l k ih => exact ⟨h.1, ih (m l) h.2⟩
  | store l v k ih => exact ⟨h.1, h.2.imp (fun hc => ih hc) (fun hc => hrest hc)⟩

end Prog

end StoreProg
