/-
# Memory programs and their crash points

A sequential program that touches a memory one cell at a time, as a tree of loads
and stores.  The same program is read in three ways:

* `exec` runs it to its end and gives the returned value and the final memory;
* `crash p n m` is the memory left behind when the program dies after its first
  `n` accesses, and `CrashPoint p m m'` says that `m'` is such a memory;
* `step` performs one access, so that other programs may run in between.

`Always P p m` is the partial-correctness reading: `P` holds of the memory before
the first access and after every access.  The rules at the end of the file say how
`exec`, `CrashPoint` and `Always` distribute over sequencing and over loops.
-/
import Mathlib

namespace StoreProg

/-- A program over cells `Addr` holding values `Val`, returning an `α`. -/
inductive Prog (Addr Val α : Type) : Type
  | ret (a : α) : Prog Addr Val α
  | load (l : Addr) (k : Val → Prog Addr Val α) : Prog Addr Val α
  | store (l : Addr) (v : Val) (k : Prog Addr Val α) : Prog Addr Val α

namespace Prog

variable {Addr Val α β : Type}

/-- Sequencing. -/
def seq : Prog Addr Val α → (α → Prog Addr Val β) → Prog Addr Val β
  | ret a, f => f a
  | load l k, f => load l fun x => (k x).seq f
  | store l v k, f => store l v (k.seq f)

instance : Monad (Prog Addr Val) where
  pure := ret
  bind := seq

/-- Read one cell. -/
def read (l : Addr) : Prog Addr Val Val := load l ret

/-- Write one cell. -/
def write (l : Addr) (v : Val) : Prog Addr Val Unit := store l v (ret ())

variable [DecidableEq Addr]

/-- Run the program to its end. -/
def exec : Prog Addr Val α → (Addr → Val) → α × (Addr → Val)
  | ret a, m => (a, m)
  | load l k, m => (k (m l)).exec m
  | store l v k, m => k.exec (Function.update m l v)

/-- The memory when the program dies after `n` accesses (or has ended before). -/
def crash : Prog Addr Val α → ℕ → (Addr → Val) → (Addr → Val)
  | ret _, _, m => m
  | load _ _, 0, m => m
  | load l k, n + 1, m => (k (m l)).crash n m
  | store _ _ _, 0, m => m
  | store l v k, n + 1, m => k.crash n (Function.update m l v)

/-- One access; `none` once the program has returned. -/
def step : Prog Addr Val α → (Addr → Val) → Option (Prog Addr Val α × (Addr → Val))
  | ret _, _ => none
  | load l k, m => some (k (m l), m)
  | store l v k, m => some (k, Function.update m l v)

/-- What is left of a program after some of its accesses, whatever they loaded. -/
inductive Residual (p : Prog Addr Val α) : Prog Addr Val α → Prop
  | whole : Residual p p
  | afterLoad {l : Addr} {k : Val → Prog Addr Val α} (h : Residual p (load l k)) (x : Val) :
      Residual p (k x)
  | afterStore {l : Addr} {v : Val} {k : Prog Addr Val α} (h : Residual p (store l v k)) :
      Residual p k

/-- `m'` is a memory in which the program may have died. -/
def CrashPoint (p : Prog Addr Val α) (m m' : Addr → Val) : Prop :=
  ∃ n, p.crash n m = m'

/-- `P` holds of the memory at every point of the run. -/
def Always (P : (Addr → Val) → Prop) : Prog Addr Val α → (Addr → Val) → Prop
  | ret _, m => P m
  | load l k, m => P m ∧ Always P (k (m l)) m
  | store l v k, m => P m ∧ Always P k (Function.update m l v)

/-- Every store of the program, whatever it loads, meets `Q`. -/
def Stores (Q : Addr → Val → Prop) : Prog Addr Val α → Prop
  | ret _ => True
  | load _ k => ∀ v, Stores Q (k v)
  | store l v k => Q l v ∧ Stores Q k

/-- The cells that the run loads, in order. -/
def reads : Prog Addr Val α → (Addr → Val) → List Addr
  | ret _, _ => []
  | load l k, m => l :: (k (m l)).reads m
  | store l v k, m => k.reads (Function.update m l v)

/-- The cells that the run loads or stores, in order. -/
def touches : Prog Addr Val α → (Addr → Val) → List Addr
  | ret _, _ => []
  | load l k, m => l :: (k (m l)).touches m
  | store l v k, m => l :: k.touches (Function.update m l v)

/-- The same program on another memory, in which `f` says where the cells are. -/
def relocate {Addr' : Type} (f : Addr → Addr') : Prog Addr Val α → Prog Addr' Val α
  | ret a => ret a
  | load l k => load (f l) fun v => (k v).relocate f
  | store l v k => store (f l) v (k.relocate f)

/-! ## Running to the end -/

@[simp] theorem exec_pure (a : α) (m : Addr → Val) :
    exec (pure a : Prog Addr Val α) m = (a, m) := rfl

@[simp] theorem exec_bind (p : Prog Addr Val α) (f : α → Prog Addr Val β)
    (m : Addr → Val) : exec (p >>= f) m = (f (p.exec m).1).exec (p.exec m).2 := by
  show exec (p.seq f) m = _
  induction p generalizing m with
  | ret a => rfl
  | load l k ih => exact ih (m l) m
  | store l v k ih => exact ih (Function.update m l v)

@[simp] theorem exec_read (l : Addr) (m : Addr → Val) :
    exec (read l : Prog Addr Val Val) m = (m l, m) := rfl

@[simp] theorem exec_write (l : Addr) (v : Val) (m : Addr → Val) :
    exec (write l v : Prog Addr Val Unit) m = ((), Function.update m l v) := rfl

/-- A load hands its value on. -/
theorem exec_read_bind (l : Addr) (f : Val → Prog Addr Val β) (m : Addr → Val) :
    exec (read l >>= f) m = (f (m l)).exec m := rfl

@[simp] theorem reads_pure (a : α) (m : Addr → Val) :
    reads (pure a : Prog Addr Val α) m = [] := rfl

@[simp] theorem reads_read (l : Addr) (m : Addr → Val) :
    reads (read l : Prog Addr Val Val) m = [l] := rfl

/-- A load is read before what follows. -/
theorem reads_read_bind (l : Addr) (f : Val → Prog Addr Val β) (m : Addr → Val) :
    reads (read l >>= f) m = l :: (f (m l)).reads m := rfl

@[simp] theorem reads_bind (p : Prog Addr Val α) (f : α → Prog Addr Val β) (m : Addr → Val) :
    reads (p >>= f) m = p.reads m ++ (f (p.exec m).1).reads (p.exec m).2 := by
  show reads (p.seq f) m = _
  induction p generalizing m with
  | ret a => rfl
  | load l k ih => exact congrArg (l :: ·) (ih (m l) m)
  | store l v k ih => exact ih (Function.update m l v)

/-! ## The cells of a run -/

@[simp] theorem touches_pure (a : α) (m : Addr → Val) :
    touches (pure a : Prog Addr Val α) m = [] := rfl

@[simp] theorem touches_read (l : Addr) (m : Addr → Val) :
    touches (read l : Prog Addr Val Val) m = [l] := rfl

@[simp] theorem touches_write (l : Addr) (v : Val) (m : Addr → Val) :
    touches (write l v : Prog Addr Val Unit) m = [l] := rfl

@[simp] theorem touches_bind (p : Prog Addr Val α) (f : α → Prog Addr Val β) (m : Addr → Val) :
    touches (p >>= f) m = p.touches m ++ (f (p.exec m).1).touches (p.exec m).2 := by
  show touches (p.seq f) m = _
  induction p generalizing m with
  | ret a => rfl
  | load l k ih => exact congrArg (l :: ·) (ih (m l) m)
  | store l v k ih => exact congrArg (l :: ·) (ih (Function.update m l v))

/-- A relocated run touches the relocated cells. -/
theorem touches_relocate {Addr' : Type} [DecidableEq Addr'] {f : Addr → Addr'}
    (hf : Function.Injective f) (p : Prog Addr Val α) (m : Addr' → Val) :
    touches (p.relocate f) m = (touches p (m ∘ f)).map f := by
  induction p generalizing m with
  | ret a => rfl
  | load l k ih => exact congrArg (f l :: ·) (ih (m (f l)) m)
  | store l v k ih =>
      have hm : Function.update m (f l) v ∘ f = Function.update (m ∘ f) l v :=
        Function.update_comp_eq_of_injective m hf l v
      rw [relocate, touches, touches, ih, hm, List.map_cons]

/-- A relocated run is the run on the relocated cells. -/
theorem exec_relocate {Addr' : Type} [DecidableEq Addr'] {f : Addr → Addr'}
    (hf : Function.Injective f) (p : Prog Addr Val α) (m : Addr' → Val) :
    ((p.relocate f).exec m).1 = (p.exec (m ∘ f)).1 ∧
      ((p.relocate f).exec m).2 ∘ f = (p.exec (m ∘ f)).2 := by
  induction p generalizing m with
  | ret a => exact ⟨rfl, rfl⟩
  | load l k ih => exact ih (m (f l)) m
  | store l v k ih =>
      have hm : Function.update m (f l) v ∘ f = Function.update (m ∘ f) l v :=
        Function.update_comp_eq_of_injective m hf l v
      have hrest := ih (Function.update m (f l) v)
      rwa [hm] at hrest

/-! ## Crash points -/

/-- Dying before the first access leaves the memory as it was. -/
theorem crash_zero (p : Prog Addr Val α) (m : Addr → Val) : p.crash 0 m = m := by
  cases p <;> rfl

/-- A program may stop before it starts. -/
theorem crashPoint_self (p : Prog Addr Val α) (m : Addr → Val) : CrashPoint p m m :=
  ⟨0, crash_zero p m⟩

@[simp] theorem crashPoint_ret (a : α) (m m' : Addr → Val) :
    CrashPoint (ret a : Prog Addr Val α) m m' ↔ m' = m := by
  constructor
  · rintro ⟨n, rfl⟩
    cases n <;> rfl
  · rintro rfl
    exact crashPoint_self _ _

@[simp] theorem crashPoint_pure (a : α) (m m' : Addr → Val) :
    CrashPoint (pure a : Prog Addr Val α) m m' ↔ m' = m :=
  crashPoint_ret a m m'

/-- Nothing is stored by a load. -/
theorem crashPoint_load (l : Addr) (k : Val → Prog Addr Val α) (m m' : Addr → Val) :
    CrashPoint (load l k) m m' ↔ CrashPoint (k (m l)) m m' := by
  constructor
  · rintro ⟨n, rfl⟩
    cases n with
    | zero => exact crashPoint_self _ _
    | succ n => exact ⟨n, rfl⟩
  · rintro ⟨n, rfl⟩
    exact ⟨n + 1, rfl⟩

/-- A program may stop before a store or after it. -/
theorem crashPoint_store (l : Addr) (v : Val) (k : Prog Addr Val α) (m m' : Addr → Val) :
    CrashPoint (store l v k) m m' ↔ m' = m ∨ CrashPoint k (Function.update m l v) m' := by
  constructor
  · rintro ⟨n, rfl⟩
    cases n with
    | zero => exact Or.inl rfl
    | succ n => exact Or.inr ⟨n, rfl⟩
  · rintro (rfl | ⟨n, rfl⟩)
    · exact crashPoint_self _ _
    · exact ⟨n + 1, rfl⟩

/-- **Crash points of a sequence**: dying in the first part, or in the second part
started from where the first one ended. -/
@[simp] theorem crashPoint_bind (p : Prog Addr Val α) (f : α → Prog Addr Val β)
    (m m' : Addr → Val) :
    CrashPoint (p >>= f) m m' ↔
      CrashPoint p m m' ∨ CrashPoint (f (p.exec m).1) (p.exec m).2 m' := by
  show CrashPoint (p.seq f) m m' ↔ _
  induction p generalizing m with
  | ret a =>
      rw [crashPoint_ret]
      constructor
      · exact Or.inr
      · rintro (rfl | h)
        · exact crashPoint_self _ _
        · exact h
  | load l k ih =>
      rw [seq, crashPoint_load, crashPoint_load]
      exact ih (m l) m
  | store l v k ih =>
      rw [seq, crashPoint_store, crashPoint_store, ih (Function.update m l v), or_assoc]
      rfl

@[simp] theorem crashPoint_read (l : Addr) (m m' : Addr → Val) :
    CrashPoint (read l : Prog Addr Val Val) m m' ↔ m' = m := by
  rw [read, crashPoint_load, crashPoint_ret]

@[simp] theorem crashPoint_write (l : Addr) (v : Val) (m m' : Addr → Val) :
    CrashPoint (write l v : Prog Addr Val Unit) m m' ↔
      m' = m ∨ m' = Function.update m l v := by
  rw [write, crashPoint_store, crashPoint_ret]

/-- The memory at the end of the run is a crash point. -/
theorem crashPoint_exec (p : Prog Addr Val α) (m : Addr → Val) :
    CrashPoint p m (p.exec m).2 := by
  induction p generalizing m with
  | ret a => exact crashPoint_self _ _
  | load l k ih => exact (crashPoint_load l k m _).mpr (ih (m l) m)
  | store l v k ih =>
      exact (crashPoint_store l v k m _).mpr (Or.inr (ih (Function.update m l v)))

/-! ## Properties of every point of a run -/

/-- `Always P` speaks about exactly the crash points. -/
theorem always_iff (P : (Addr → Val) → Prop) (p : Prog Addr Val α) (m : Addr → Val) :
    Always P p m ↔ ∀ m', CrashPoint p m m' → P m' := by
  induction p generalizing m with
  | ret a => simp [Always]
  | load l k ih =>
      simp only [Always, crashPoint_load, ih (m l) m]
      constructor
      · exact fun h => h.2
      · exact fun h => ⟨h m (crashPoint_self _ _), h⟩
  | store l v k ih =>
      simp only [Always, crashPoint_store, ih (Function.update m l v)]
      constructor
      · rintro ⟨h, hk⟩ m' (rfl | hm')
        · exact h
        · exact hk m' hm'
      · exact fun h => ⟨h m (Or.inl rfl), fun m' hm' => h m' (Or.inr hm')⟩

@[simp] theorem always_pure (P : (Addr → Val) → Prop) (a : α) (m : Addr → Val) :
    Always P (pure a : Prog Addr Val α) m ↔ P m := Iff.rfl

@[simp] theorem always_read (P : (Addr → Val) → Prop) (l : Addr) (m : Addr → Val) :
    Always P (read l : Prog Addr Val Val) m ↔ P m := and_self_iff

@[simp] theorem always_write (P : (Addr → Val) → Prop) (l : Addr) (v : Val) (m : Addr → Val) :
    Always P (write l v : Prog Addr Val Unit) m ↔ P m ∧ P (Function.update m l v) := Iff.rfl

/-- **Sequencing** of properties of every point. -/
@[simp] theorem always_bind (P : (Addr → Val) → Prop) (p : Prog Addr Val α)
    (f : α → Prog Addr Val β) (m : Addr → Val) :
    Always P (p >>= f) m ↔ Always P p m ∧ Always P (f (p.exec m).1) (p.exec m).2 := by
  simp only [always_iff, crashPoint_bind]
  constructor
  · exact fun h => ⟨fun m' hm' => h m' (Or.inl hm'), fun m' hm' => h m' (Or.inr hm')⟩
  · rintro ⟨h1, h2⟩ m' (hm' | hm')
    · exact h1 m' hm'
    · exact h2 m' hm'

/-- One access keeps `Always`, and `P` holds after it. -/
theorem Always.step {P : (Addr → Val) → Prop} {p p' : Prog Addr Val α} {m m' : Addr → Val}
    (h : Always P p m) (hs : p.step m = some (p', m')) : Always P p' m' := by
  cases p with
  | ret a => simp [Prog.step] at hs
  | load l k =>
      obtain ⟨rfl, rfl⟩ : k (m l) = p' ∧ m = m' := by simpa [Prog.step] using hs
      exact h.2
  | store l v k =>
      obtain ⟨rfl, rfl⟩ : k = p' ∧ Function.update m l v = m' := by
        simpa [Prog.step] using hs
      exact h.2

/-- `P` holds where the program stands. -/
theorem Always.here {P : (Addr → Val) → Prop} {p : Prog Addr Val α} {m : Addr → Val}
    (h : Always P p m) : P m := by
  cases p with
  | ret a => exact h
  | load l k => exact h.1
  | store l v k => exact h.1

/-- `P` holds at the end of the run. -/
theorem Always.last {P : (Addr → Val) → Prop} {p : Prog Addr Val α} {m : Addr → Val}
    (h : Always P p m) : P (p.exec m).2 :=
  (always_iff P p m).mp h _ (crashPoint_exec p m)

/-! ## Where a program stores -/

section Stores

omit [DecidableEq Addr]

@[simp] theorem stores_pure (Q : Addr → Val → Prop) (a : α) :
    Stores Q (pure a : Prog Addr Val α) := trivial

@[simp] theorem stores_read (Q : Addr → Val → Prop) (l : Addr) :
    Stores Q (read l : Prog Addr Val Val) := fun _ => trivial

@[simp] theorem stores_write (Q : Addr → Val → Prop) (l : Addr) (v : Val) :
    Stores Q (write l v : Prog Addr Val Unit) ↔ Q l v := by
  simp [Stores, write]

/-- Two programs store what each of them stores. -/
theorem stores_bind {Q : Addr → Val → Prop} {p : Prog Addr Val α} {f : α → Prog Addr Val β}
    (hp : Stores Q p) (hf : ∀ a, Stores Q (f a)) : Stores Q (p >>= f) := by
  show Stores Q (p.seq f)
  induction p with
  | ret a => exact hf a
  | load l k ih => exact fun v => ih v (hp v)
  | store l v k ih => exact ⟨hp.1, ih hp.2⟩

/-- A relocated program stores to relocated cells. -/
theorem stores_relocate {Addr' : Type} {f : Addr → Addr'} {Q : Addr' → Val → Prop}
    (hQ : ∀ l v, Q (f l) v) (p : Prog Addr Val α) : Stores Q (p.relocate f) := by
  induction p with
  | ret a => trivial
  | load l k ih => exact ih
  | store l v k ih => exact ⟨hQ l v, ih⟩

/-- What the stores of a program meet, the stores of every rest of it meet. -/
theorem Stores.residual {Q : Addr → Val → Prop} {p q : Prog Addr Val α} (h : Stores Q p)
    (hr : Residual p q) : Stores Q q := by
  induction hr with
  | whole => exact h
  | afterLoad _ x ih => exact ih x
  | afterStore _ ih => exact ih.2

end Stores

/-- What every store keeps holds all the time. -/
theorem Stores.always {Q : Addr → Val → Prop} {P : (Addr → Val) → Prop}
    {p : Prog Addr Val α} {m : Addr → Val} (h : Stores Q p)
    (hQ : ∀ m l v, Q l v → P m → P (Function.update m l v)) (hm : P m) : Always P p m := by
  induction p generalizing m with
  | ret a => exact hm
  | load l k ih => exact ⟨hm, ih (m l) (h (m l)) hm⟩
  | store l v k ih => exact ⟨hm, ih h.2 (hQ m l v h.1 hm)⟩

end Prog

end StoreProg
