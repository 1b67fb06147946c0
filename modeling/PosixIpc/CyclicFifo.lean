/-
# Bounded FIFO queues in a cyclic array

The abstract queue of capacity `cap` (`BoundedFifo.put`, `BoundedFifo.get`) and the
usual way to keep it in an array of `d` cells: the `j`-th oldest item sits in cell
`(h + j) % d`, every other cell is empty.  `Shows d h cell q` states exactly this for
an arbitrary content function `cell : ℕ → Option Item`.

* `Shows.push` / `Shows.pop` : the two updates of the array;
* `Shows.ext` : the array and `h` determine the queue;
* `Shows.unwrapped_first` : when the window does not pass the end of the array, its
  first cell is the first nonempty one.
-/
import Mathlib

/-! ## The abstract queue -/

namespace BoundedFifo

variable {Item : Type}

/-- Append `x` unless `cap` items are stored; the flag says whether it was taken. -/
def put (cap : ℕ) (q : List Item) (x : Item) : Bool × List Item :=
  if q.length = cap then (false, q) else (true, q ++ [x])

/-- Remove the oldest item. -/
def get : List Item → Option Item × List Item
  | [] => (none, [])
  | x :: q => (some x, q)

end BoundedFifo

namespace CyclicFifo

/-! ## Cell indices -/

/-- Walking `j < d` cells from `h` meets no cell twice. -/
theorem slot_inj {d h i j : ℕ} (hi : i < d) (hj : j < d)
    (heq : (h + i) % d = (h + j) % d) : i = j := by
  have hmod : i ≡ j [MOD d] := Nat.ModEq.add_left_cancel' h heq
  have := hmod
  rwa [Nat.ModEq, Nat.mod_eq_of_lt hi, Nat.mod_eq_of_lt hj] at this

/-- Every cell is met. -/
theorem slot_surj {d h i : ℕ} (hh : h < d) (hi : i < d) :
    ∃ j, j < d ∧ (h + j) % d = i := by
  rcases Nat.lt_or_ge i h with hlt | hge
  · refine ⟨i + d - h, by omega, ?_⟩
    rw [show h + (i + d - h) = i + d by omega, Nat.add_mod_right, Nat.mod_eq_of_lt hi]
  · refine ⟨i - h, by omega, ?_⟩
    rw [show h + (i - h) = i by omega, Nat.mod_eq_of_lt hi]

/-- Advancing the start by one cell. -/
theorem slot_succ (d h j : ℕ) : ((h + 1) % d + j) % d = (h + (j + 1)) % d := by
  rw [Nat.mod_add_mod]
  congr 1
  omega

/-- Below the end of the array the index is a plain sum. -/
theorem slot_lt {d h j : ℕ} (hj : h + j < d) : (h + j) % d = h + j :=
  Nat.mod_eq_of_lt hj

/-- Past the end of the array the index starts again from `0`. -/
theorem slot_wrap {d h j : ℕ} (h1 : d ≤ h + j) (h2 : h + j < d + d) :
    (h + j) % d = h + j - d := by
  rw [Nat.mod_eq_sub_mod h1, Nat.mod_eq_of_lt (by omega)]

/-! ## Arrays that show a queue -/

variable {Item : Type} {d h : ℕ} {cell : ℕ → Option Item} {q : List Item}

/-- The `d` cells hold the queue `q`, oldest item in cell `h`. -/
def Shows (d h : ℕ) (cell : ℕ → Option Item) (q : List Item) : Prop :=
  ∀ j, j < d → cell ((h + j) % d) = q[j]?

/-- Only the `d` cells count. -/
theorem Shows.congr {cell' : ℕ → Option Item} (hd : 0 < d) (hs : Shows d h cell q)
    (heq : ∀ i, i < d → cell' i = cell i) : Shows d h cell' q := by
  intro j hj
  rw [heq _ (Nat.mod_lt _ hd), hs j hj]

/-- **Append**: filling the first free cell. -/
theorem Shows.push {cell' : ℕ → Option Item} {x : Item} (hd : 0 < d)
    (hs : Shows d h cell q) (hlen : q.length < d)
    (hx : cell' ((h + q.length) % d) = some x)
    (heq : ∀ i, i < d → i ≠ (h + q.length) % d → cell' i = cell i) :
    Shows d h cell' (q ++ [x]) := by
  intro j hj
  by_cases hjq : j = q.length
  · subst hjq
    rw [hx, List.getElem?_concat_length]
  · rw [heq _ (Nat.mod_lt _ hd) (fun h' => hjq (slot_inj hj hlen h')), hs j hj]
    rcases Nat.lt_or_ge j q.length with hlt | hge
    · rw [List.getElem?_append_left hlt]
    · rw [List.getElem?_eq_none hge, List.getElem?_eq_none (by simp; omega)]

/-- **Remove**: emptying the first cell of the window. -/
theorem Shows.pop {cell' : ℕ → Option Item} {x : Item} (hh : h < d)
    (hs : Shows d h cell (x :: q)) (hlen : q.length < d) (hx : cell' h = none)
    (heq : ∀ i, i < d → i ≠ h → cell' i = cell i) :
    Shows d ((h + 1) % d) cell' q := by
  have hd : 0 < d := by omega
  intro j hj
  rw [slot_succ]
  by_cases hlast : j + 1 = d
  · rw [hlast, Nat.add_mod_right, Nat.mod_eq_of_lt hh, hx, List.getElem?_eq_none (by omega)]
  · have hne : (h + (j + 1)) % d ≠ h := by
      intro h'
      have h0 : (h + (j + 1)) % d = (h + 0) % d := by
        rw [h', Nat.add_zero, Nat.mod_eq_of_lt hh]
      have := slot_inj (by omega) hd h0
      omega
    rw [heq _ (Nat.mod_lt _ hd) hne, hs (j + 1) (by omega), List.getElem?_cons_succ]

/-- **Uniqueness**: the array and its start determine the queue. -/
theorem Shows.ext {q' : List Item} (hs : Shows d h cell q) (hs' : Shows d h cell q')
    (hq : q.length ≤ d) (hq' : q'.length ≤ d) : q = q' := by
  apply List.ext_getElem?
  intro j
  rcases Nat.lt_or_ge j d with hlt | hge
  · rw [← hs j hlt, hs' j hlt]
  · rw [List.getElem?_eq_none (by omega), List.getElem?_eq_none (by omega)]

/-- The empty queue may start anywhere. -/
theorem Shows.empty_start {h' : ℕ} (hh : h < d) (hs : Shows d h cell []) :
    Shows d h' cell ([] : List Item) := by
  intro j hj
  obtain ⟨i, hi, heq⟩ := slot_surj hh (Nat.mod_lt (h' + j) (by omega : 0 < d))
  rw [← heq, hs i hi]
  rfl

/-- A cell is nonempty exactly inside the window. -/
theorem Shows.isSome_iff (hs : Shows d h cell q) {j : ℕ} (hj : j < d) :
    (cell ((h + j) % d)).isSome ↔ j < q.length := by
  rw [hs j hj, isSome_getElem?]

/-- An unwrapped nonempty window starts at the first nonempty cell. -/
theorem Shows.unwrapped_first (hh : h < d) (hs : Shows d h cell q)
    (hfit : h + q.length ≤ d) {i : ℕ} (hi : i < d) (hsome : (cell i).isSome) :
    h ≤ i ∧ i < h + q.length := by
  obtain ⟨j, hj, heq⟩ := slot_surj hh hi
  rw [← heq, hs.isSome_iff hj] at hsome
  rw [slot_lt (by omega)] at heq
  omega

/-- **Counting**: there are as many nonempty cells as items. -/
theorem Shows.count_isSome (hh : h < d) (hs : Shows d h cell q) (hq : q.length ≤ d) :
    Nat.count (fun i => (cell i).isSome) d = q.length := by
  rw [Nat.count_eq_card_filter_range, ← Finset.card_range q.length]
  symm
  apply Finset.card_bij fun j _ => (h + j) % d
  · intro j hj
    rw [Finset.mem_range] at hj
    rw [Finset.mem_filter, Finset.mem_range]
    exact ⟨Nat.mod_lt _ (by omega), (hs.isSome_iff (by omega)).mpr hj⟩
  · intro i hi j hj heq
    rw [Finset.mem_range] at hi hj
    exact slot_inj (by omega) (by omega) heq
  · intro i hi
    rw [Finset.mem_filter, Finset.mem_range] at hi
    obtain ⟨j, hj, rfl⟩ := slot_surj hh hi.1
    exact ⟨j, Finset.mem_range.mpr ((hs.isSome_iff hj).mp hi.2), rfl⟩

/-- The nonempty cells lie in one piece: nothing empty between two of them. -/
def Contiguous (d : ℕ) (cell : ℕ → Option Item) : Prop :=
  ∀ i j k, i ≤ j → j ≤ k → k < d → (cell i).isSome → (cell k).isSome → (cell j).isSome

/-- A window that does not pass the end of the array is in one piece. -/
theorem Shows.contiguous_of_unwrapped (hh : h < d) (hs : Shows d h cell q)
    (hfit : h + q.length ≤ d) : Contiguous d cell := by
  intro i j k hij hjk hk hi hk'
  have h1 := hs.unwrapped_first hh hfit (by omega) hi
  have h2 := hs.unwrapped_first hh hfit hk hk'
  have hj : (cell ((h + (j - h)) % d)).isSome := (hs.isSome_iff (by omega)).mpr (by omega)
  rwa [slot_lt (by omega), show h + (j - h) = j by omega] at hj

/-- A wrapped window that leaves a free cell is in two pieces. -/
theorem Shows.not_contiguous_of_wrapped (hh : h < d) (hs : Shows d h cell q)
    (hwrap : d < h + q.length) (hfree : q.length < d) : ¬ Contiguous d cell := by
  intro hc
  have hfirst : (cell 0).isSome := by
    have h0 := (hs.isSome_iff (j := d - h) (by omega)).mpr (by omega)
    rwa [slot_wrap (by omega) (by omega), show h + (d - h) - d = 0 by omega] at h0
  have hlast : (cell (d - 1)).isSome := by
    have h1 := (hs.isSome_iff (j := d - 1 - h) (by omega)).mpr (by omega)
    rwa [slot_lt (by omega), show h + (d - 1 - h) = d - 1 by omega] at h1
  have hmid := hc 0 ((h + q.length) % d) (d - 1) (Nat.zero_le _)
    (Nat.le_sub_one_of_lt (Nat.mod_lt _ (by omega))) (by omega) hfirst hlast
  rw [hs.isSome_iff hfree] at hmid
  omega

end CyclicFifo
