/-
# Ledgers

A counter that several kinds of objects hold shares of is right when it is the sum of the
shares.  `total w l` is the sum of the shares `w a` over the objects of a list; the rules say
how it changes when one object is replaced or a new one is added, and what a sum of zero says.
-/
import Mathlib

namespace Ledger

variable {α : Type} {w : α → ℕ} {l : List α} {a b : α} {i : ℕ}

/-- The sum of the shares of the objects of a list. -/
def total (w : α → ℕ) (l : List α) : ℕ := (l.map w).sum

@[simp] theorem total_nil : total w [] = 0 := rfl

/-- The head and the rest. -/
theorem total_cons : total w (a :: l) = w a + total w l := by
  simp [total]

/-- A new object adds its share. -/
@[simp] theorem total_snoc : total w (l ++ [a]) = total w l + w a := by
  simp [total]

/-- **One object replaced**: its old share goes and its new one comes. -/
theorem total_set (h : l[i]? = some a) : total w (l.set i b) + w a = total w l + w b := by
  induction l generalizing i with
  | nil => simp at h
  | cons c l ih =>
      cases i with
      | zero =>
          obtain rfl : c = a := by simpa using h
          simp only [List.set_cons_zero, total_cons]
          omega
      | succ i =>
          have hi := ih (by simpa using h)
          simp only [List.set_cons_succ, total_cons]
          omega

/-- An object replaced by one with the same share. -/
theorem total_set_eq (h : l[i]? = some a) (hw : w b = w a) : total w (l.set i b) = total w l := by
  have hset := total_set (w := w) (b := b) h
  omega

/-- No entry is more than the total. -/
theorem le_total_of_mem (h : a ∈ l) : w a ≤ total w l :=
  List.single_le_sum (by simp) _ (List.mem_map_of_mem h)

/-- No entry is more than the total. -/
theorem le_total (h : l[i]? = some a) : w a ≤ total w l :=
  le_total_of_mem (List.mem_of_getElem? h)

/-- Two objects have at most the sum of the shares. -/
theorem add_le_total {j : ℕ} (hi : l[i]? = some a) (hj : l[j]? = some b) (hij : i ≠ j) :
    w a + w b ≤ total w l := by
  induction l generalizing i j with
  | nil => simp at hi
  | cons c l ih =>
      rw [total_cons]
      cases i with
      | zero =>
          cases j with
          | zero => exact absurd rfl hij
          | succ j =>
              obtain rfl : c = a := by simpa using hi
              have hb : b ∈ l := List.mem_of_getElem? (by simpa using hj)
              exact Nat.add_le_add_left (le_total_of_mem hb) (w c)
      | succ i =>
          cases j with
          | zero =>
              obtain rfl : c = b := by simpa using hj
              have ha : a ∈ l := List.mem_of_getElem? (by simpa using hi)
              have hle := le_total_of_mem (w := w) ha
              omega
          | succ j =>
              have hle := ih (by simpa using hi) (by simpa using hj) (by omega)
              omega

/-- A sum of zero has only zero shares. -/
theorem eq_zero_of_total (h : total w l = 0) (ha : a ∈ l) : w a = 0 :=
  Nat.le_zero.mp (h ▸ le_total_of_mem ha)

/-- A list of zeros sums up to zero. -/
theorem total_eq_zero (h : ∀ a ∈ l, w a = 0) : total w l = 0 := List.sum_eq_zero (by simpa using h)

/-! ## Looking up after a change -/

/-- The entry that was written. -/
theorem getElem?_set_self (h : l[i]? = some a) : (l.set i b)[i]? = some b := by
  have hi : i < l.length := (List.getElem?_eq_some_iff.mp h).1
  simp [hi]

/-- An entry that was not written. -/
theorem getElem?_set_other {j : ℕ} (h : j ≠ i) : (l.set i b)[j]? = l[j]? := by
  simp [Ne.symm h]

/-- An entry before the new one. -/
theorem getElem?_snoc_of_some (h : l[i]? = some a) : (l ++ [b])[i]? = some a := by
  rw [List.getElem?_append_left (List.getElem?_eq_some_iff.mp h).1]
  exact h

/-- A member of a changed list is the new object or an old member. -/
theorem mem_of_set {c : α} (h : c ∈ l.set i b) : c ∈ l ∨ c = b :=
  List.mem_or_eq_of_mem_set h

end Ledger
