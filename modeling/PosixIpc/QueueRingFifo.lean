/-
# The queue ring refines a bounded FIFO of byte strings

`RingInv v m q` is the representation invariant that ties the control word, the state
array and the strided payload to the queue `q` of stored items.  It holds after
`posixipc_queue_init_ctrl`, is kept by every put and get, and determines their results:

* `posixipcQueuePut_spec`, `posixipcQueueGet_spec`, `posixipcQueueQsize_spec` : one call;
* `runCalls_spec` : any sequence of calls from any state with the invariant;
* `queueRing_refines_fifo` : the same from `posixipc_queue_init_ctrl`, for every
  geometry that `posixipc_queue_map` accepts.
-/
import PosixIpc.QueueRing
import PosixIpc.CyclicFifo

namespace PosixIpc

open StoreProg Word32 CyclicFifo

/-- A stored item: `item_size` bytes. -/
abbrev Item := List UInt8

/-! ## Loops of stores -/

section ForFrom

variable {f : ℕ → Loc} {g : ℕ → ℕ}

/-- A loop of stores leaves the other cells alone, wherever it is cut off. -/
theorem crashPoint_forFrom_frame {i n : ℕ} {m m' : Mem}
    (h : Prog.CrashPoint (forFrom (fun j => Prog.write (f j) (g j)) i n) m m') {l : Loc}
    (hl : ∀ j, i ≤ j → j < i + n → l ≠ f j) : m' l = m l := by
  induction n generalizing i m with
  | zero =>
      rw [forFrom, Prog.crashPoint_pure] at h
      rw [h]
  | succ n ih =>
      have hne : l ≠ f i := hl i le_rfl (by omega)
      rw [forFrom, Prog.crashPoint_bind, Prog.crashPoint_write] at h
      rcases h with (rfl | rfl) | h
      · rfl
      · exact Function.update_of_ne hne _ _
      · have hrest := ih h (fun j h1 h2 => hl j (by omega) (by omega))
        rw [hrest, Prog.exec_write]
        exact Function.update_of_ne hne _ _

/-- The same for a loop that ran to its end. -/
theorem exec_forFrom_frame {i n : ℕ} {m : Mem} {l : Loc}
    (hl : ∀ j, i ≤ j → j < i + n → l ≠ f j) :
    (Prog.exec (forFrom (fun j => Prog.write (f j) (g j)) i n) m).2 l = m l :=
  crashPoint_forFrom_frame (Prog.crashPoint_exec _ _) hl

/-- A completed loop of stores to distinct cells has written all of them. -/
theorem exec_forFrom_write (hf : Function.Injective f) {i n j : ℕ} {m : Mem}
    (h1 : i ≤ j) (h2 : j < i + n) :
    (Prog.exec (forFrom (fun j => Prog.write (f j) (g j)) i n) m).2 (f j) = g j := by
  induction n generalizing i m with
  | zero => omega
  | succ n ih =>
      rw [forFrom, Prog.exec_bind, Prog.exec_write]
      by_cases hij : i = j
      · subst hij
        rw [exec_forFrom_frame]
        · exact Function.update_self _ _ _
        · intro k hk _ heq
          have := hf heq
          omega
      · exact ih (by omega) (by omega)

end ForFrom

/-- The bytes a copy out of the payload returns. -/
theorem exec_memcpyOut (off n : ℕ) (m : Mem) :
    Prog.exec (memcpyOut off n) m =
      ((List.range n).map fun j => UInt8.ofNat (m (.payload (off + j))), m) := by
  induction n generalizing off with
  | zero => rfl
  | succ n ih =>
      simp only [memcpyOut, Prog.exec_bind, Prog.exec_read, ih, Prog.exec_pure,
        List.range_succ_eq_map, List.map_cons, List.map_map, Nat.add_zero]
      congr 2
      apply List.map_congr_left
      intro j _
      simp only [Function.comp, Nat.succ_eq_add_one]
      congr 3
      omega

/-! ## The representation invariant -/

/-- The item in slot `i`. -/
def itemAt (v : View) (m : Mem) (i : ℕ) : Item :=
  (List.range v.itemSize).map fun j => UInt8.ofNat (m (.payload (i * v.stride + j)))

/-- Slot `i` as a cell of the cyclic array: nonempty when it is `READY`. -/
def cell (v : View) (m : Mem) (i : ℕ) : Option Item :=
  if m (.state i) = queueReady then some (itemAt v m i) else none

/-- The item that `put` stores for a caller's buffer. -/
def bytesOf (v : View) (data : ℕ → UInt8) : Item := (List.range v.itemSize).map data

/-- **The representation invariant**: the ring holds the queue `q`. -/
structure RingInv (v : View) (m : Mem) (q : List Item) : Prop where
  head_lt : m .head < v.depth
  count_eq : m .count = q.length
  length_le : q.length ≤ v.depth
  tail_eq : m .tail = (m .head + q.length) % v.depth
  settled : ∀ i, i < v.depth → m (.state i) = queueEmpty ∨ m (.state i) = queueReady
  shows : Shows v.depth (m .head) (cell v m) q

/-- Two memories with the same payload in slot `i` hold the same item there. -/
theorem itemAt_congr {v : View} {m m' : Mem} {i : ℕ}
    (h : ∀ j, j < v.itemSize →
      m' (.payload (i * v.stride + j)) = m (.payload (i * v.stride + j))) :
    itemAt v m' i = itemAt v m i := by
  apply List.map_congr_left
  intro j hj
  rw [h j (List.mem_range.mp hj)]

/-- Payload cells of different slots are different. -/
theorem payload_ne {v : View} (hv : v.Valid) {i i' j j' : ℕ} (hj : j < v.itemSize)
    (hj' : j' < v.itemSize) (hne : i ≠ i') :
    Loc.payload (i * v.stride + j) ≠ Loc.payload (i' * v.stride + j') := by
  intro heq
  have heq' : i * v.stride + j = i' * v.stride + j' := by simpa using heq
  have hs : v.itemSize ≤ v.stride := hv.itemSize_le
  rcases Nat.lt_or_gt_of_ne hne with hlt | hgt
  · have := Nat.mul_le_mul_right v.stride (show i + 1 ≤ i' by omega)
    rw [Nat.add_mul] at this
    omega
  · have := Nat.mul_le_mul_right v.stride (show i' + 1 ≤ i by omega)
    rw [Nat.add_mul] at this
    omega

/-! ## Initialisation -/

/-- `posixipc_queue_init_ctrl` makes an empty ring out of any bytes. -/
theorem posixipcQueueInitCtrl_spec {v : View} (hv : v.Valid) (m : Mem) :
    (Prog.exec (posixipcQueueInitCtrl v) m).1 = .ok ∧
      RingInv v (Prog.exec (posixipcQueueInitCtrl v) m).2 [] := by
  have hnull : ¬ (v.ctrl = none ∨ v.state = none) := by
    rintro (h | h)
    · exact hv.ctrl_ne h
    · exact hv.state_ne h
  have hinj : Function.Injective Loc.state := fun a b h => by simpa using h
  rw [posixipcQueueInitCtrl, if_neg hnull]
  simp only [Prog.exec_bind, Prog.exec_write, Prog.exec_pure, true_and]
  have hst : ∀ (m : Mem) i, i < v.depth →
      (Prog.exec (forFrom (fun i => Prog.write (.state i) queueEmpty) 0 v.depth) m).2
        (.state i) = queueEmpty := by
    intro m i hi
    exact exec_forFrom_write (g := fun _ => queueEmpty) hinj (Nat.zero_le i) (by omega)
  have hctl : ∀ (m : Mem) (l : Loc), (∀ j, l ≠ .state j) →
      (Prog.exec (forFrom (fun i => Prog.write (.state i) queueEmpty) 0 v.depth) m).2 l
        = m l := by
    intro m l hl
    exact exec_forFrom_frame (g := fun _ => queueEmpty) fun j _ _ => hl j
  constructor
  · rw [hctl _ _ (by simp)]
    simpa using hv.depth_pos
  · rw [hctl _ _ (by simp)]
    simp
  · exact Nat.zero_le _
  · rw [hctl _ _ (by simp), hctl _ _ (by simp)]
    simp
  · intro i hi
    exact Or.inl (hst _ i hi)
  · intro j _
    rw [cell, if_neg]
    · rfl
    · rw [hst _ _ (Nat.mod_lt _ hv.depth_pos)]
      decide

/-! ## Put -/

/-- The memory after a successful put at slot `idx`. -/
def putMem (v : View) (m : Mem) (idx : ℕ) (data : ℕ → UInt8) : Mem :=
  let m1 := Function.update m (.state idx) queueReservedPut
  let m2 := (Prog.exec (memcpyIn v idx data) m1).2
  let m3 := Function.update m2 (.state idx) queueReady
  let m4 := Function.update m3 .tail (u32 (idx + 1) % v.depth)
  Function.update m4 .count (u32 (m4 .count + 1))

/-- A copy into the payload changes no word. -/
theorem exec_memcpyIn_word (v : View) (idx : ℕ) (data : ℕ → UInt8) (m : Mem) {l : Loc}
    (hl : ∀ off, l ≠ .payload off) : (Prog.exec (memcpyIn v idx data) m).2 l = m l :=
  exec_forFrom_frame fun _ _ _ => hl _

/-- A copy into the payload stores the caller's bytes in its slot. -/
theorem itemAt_memcpyIn_self (v : View) (idx : ℕ) (data : ℕ → UInt8) (m : Mem) :
    itemAt v (Prog.exec (memcpyIn v idx data) m).2 idx = bytesOf v data := by
  have hinj : Function.Injective fun j => Loc.payload (idx * v.stride + j) := by
    intro a b hab
    simpa using hab
  apply List.map_congr_left
  intro j hj
  have hw := exec_forFrom_write (g := fun j => (data j).toNat) (m := m) hinj (Nat.zero_le j)
    (by simpa using List.mem_range.mp hj)
  rw [memcpyIn, hw, UInt8.ofNat_toNat]

/-- A copy into the payload of one slot leaves the other items alone. -/
theorem itemAt_memcpyIn_of_ne {v : View} (hv : v.Valid) {idx i : ℕ} (data : ℕ → UInt8)
    (m : Mem) (hne : i ≠ idx) :
    itemAt v (Prog.exec (memcpyIn v idx data) m).2 i = itemAt v m i := by
  apply itemAt_congr
  intro j hj
  apply exec_forFrom_frame
  intro k _ hk
  exact payload_ne hv hj (by omega) hne

/-- The state array after a put. -/
theorem putMem_state (v : View) (m : Mem) (idx : ℕ) (data : ℕ → UInt8) (i : ℕ) :
    putMem v m idx data (.state i) = if i = idx then queueReady else m (.state i) := by
  by_cases hi : i = idx
  · subst hi
    simp [putMem]
  · simp [putMem, hi, exec_memcpyIn_word]

@[simp] theorem putMem_head (v : View) (m : Mem) (idx : ℕ) (data : ℕ → UInt8) :
    putMem v m idx data .head = m .head := by
  simp [putMem, exec_memcpyIn_word]

@[simp] theorem putMem_tail (v : View) (m : Mem) (idx : ℕ) (data : ℕ → UInt8) :
    putMem v m idx data .tail = u32 (idx + 1) % v.depth := by
  simp [putMem]

@[simp] theorem putMem_count (v : View) (m : Mem) (idx : ℕ) (data : ℕ → UInt8) :
    putMem v m idx data .count = u32 (m .count + 1) := by
  simp [putMem, exec_memcpyIn_word]

/-- The stored items after a put. -/
theorem itemAt_putMem {v : View} (hv : v.Valid) (m : Mem) (idx : ℕ) (data : ℕ → UInt8)
    (i : ℕ) : itemAt v (putMem v m idx data) i =
      if i = idx then bytesOf v data else itemAt v m i := by
  have hsame : itemAt v (putMem v m idx data) i =
      itemAt v (Prog.exec (memcpyIn v idx data)
        (Function.update m (.state idx) queueReservedPut)).2 i := by
    apply itemAt_congr
    intro j _
    simp [putMem]
  rw [hsame]
  by_cases hi : i = idx
  · subst hi
    rw [itemAt_memcpyIn_self, if_pos rfl]
  · rw [itemAt_memcpyIn_of_ne hv data _ hi, if_neg hi]
    apply itemAt_congr
    intro j _
    simp

/-- The cells after a put. -/
theorem cell_putMem {v : View} (hv : v.Valid) (m : Mem) (idx : ℕ) (data : ℕ → UInt8)
    (i : ℕ) : cell v (putMem v m idx data) i =
      if i = idx then some (bytesOf v data) else cell v m i := by
  by_cases hi : i = idx
  · simp [cell, putMem_state, itemAt_putMem hv, hi]
  · simp [cell, putMem_state, itemAt_putMem hv, hi]

/-- On a ring that is not full the put appends. -/
theorem ringInv_putMem {v : View} (hv : v.Valid) {m : Mem} {q : List Item}
    (h : RingInv v m q) (hlt : q.length < v.depth) (data : ℕ → UInt8) :
    RingInv v (putMem v m (m .tail) data) (q ++ [bytesOf v data]) := by
  have hd := hv.depth_pos
  have hd31 := hv.depth_lt
  have htlt : m .tail < v.depth := by rw [h.tail_eq]; exact Nat.mod_lt _ hd
  constructor
  · simpa using h.head_lt
  · rw [putMem_count, h.count_eq, u32_of_lt (by omega)]
    simp
  · simpa using hlt
  · rw [putMem_tail, putMem_head, u32_of_lt (by omega), h.tail_eq, Nat.mod_add_mod]
    simp [Nat.add_assoc]
  · intro i hi
    rw [putMem_state]
    by_cases hidx : i = m .tail
    · rw [if_pos hidx]
      exact Or.inr rfl
    · rw [if_neg hidx]
      exact h.settled i hi
  · rw [putMem_head]
    refine h.shows.push hd hlt ?_ ?_
    · rw [cell_putMem hv, if_pos h.tail_eq.symm]
    · intro i _ hne
      rw [cell_putMem hv, if_neg (by rw [h.tail_eq]; exact hne)]

/-- **One put.**  It fails with `EAGAIN` exactly on a full ring and appends otherwise. -/
theorem posixipcQueuePut_spec {v : View} (hv : v.Valid) {m : Mem} {q : List Item}
    (h : RingInv v m q) (data : ℕ → UInt8) :
    Prog.exec (posixipcQueuePut v data) m =
      if q.length = v.depth then (.eagain, m)
      else (.ok, putMem v m (m .tail) data) := by
  have htlt : m .tail < v.depth := by rw [h.tail_eq]; exact Nat.mod_lt _ hv.depth_pos
  rw [posixipcQueuePut, if_neg hv.ctrl_ne, Prog.exec_bind, Prog.exec_read]
  have hle := h.length_le
  by_cases hfull : q.length = v.depth
  · rw [if_pos hfull, if_pos (by rw [h.count_eq]; omega)]
    rfl
  · rw [if_neg hfull, if_neg (by rw [h.count_eq]; omega), Prog.exec_bind, Prog.exec_read,
      if_neg (not_le.mpr htlt)]
    simp only [Prog.exec_bind, Prog.exec_write, Prog.exec_read, Prog.exec_pure]
    rfl

/-! ## Get -/

/-- The memory after a successful get from slot `idx`. -/
def getMem (v : View) (m : Mem) (idx : ℕ) : Mem :=
  let m1 := Function.update m (.state idx) queueReservedGet
  let m2 := Function.update m1 (.state idx) queueEmpty
  let m3 := Function.update m2 .head (u32 (idx + 1) % v.depth)
  Function.update m3 .count (dec32 (m3 .count))

theorem getMem_state (v : View) (m : Mem) (idx i : ℕ) :
    getMem v m idx (.state i) = if i = idx then queueEmpty else m (.state i) := by
  by_cases hi : i = idx
  · subst hi
    simp [getMem]
  · simp [getMem, hi]

@[simp] theorem getMem_head (v : View) (m : Mem) (idx : ℕ) :
    getMem v m idx .head = u32 (idx + 1) % v.depth := by
  simp [getMem]

@[simp] theorem getMem_tail (v : View) (m : Mem) (idx : ℕ) :
    getMem v m idx .tail = m .tail := by
  simp [getMem]

@[simp] theorem getMem_count (v : View) (m : Mem) (idx : ℕ) :
    getMem v m idx .count = dec32 (m .count) := by
  simp [getMem]

/-- The cells after a get. -/
theorem cell_getMem (v : View) (m : Mem) (idx i : ℕ) :
    cell v (getMem v m idx) i = if i = idx then none else cell v m i := by
  have hitem : itemAt v (getMem v m idx) i = itemAt v m i := by
    apply itemAt_congr
    intro j _
    simp [getMem]
  by_cases hi : i = idx
  · have hne : queueEmpty ≠ queueReady := by decide
    simp [cell, getMem_state, hi, hne]
  · simp [cell, getMem_state, hitem, hi]

/-- A nonempty ring shows its oldest item in the `READY` slot `head`. -/
theorem RingInv.head_ready {v : View} {m : Mem} {x : Item} {q : List Item}
    (h : RingInv v m (x :: q)) :
    m (.state (m .head)) = queueReady ∧ itemAt v m (m .head) = x := by
  have hpos : 0 < v.depth := by have := h.head_lt; omega
  have hcell := h.shows 0 hpos
  rw [Nat.add_zero, Nat.mod_eq_of_lt h.head_lt, cell] at hcell
  by_cases hr : m (.state (m .head)) = queueReady
  · rw [if_pos hr] at hcell
    exact ⟨hr, by simpa using hcell⟩
  · rw [if_neg hr] at hcell
    simp at hcell

/-- On a nonempty ring the get removes the oldest item. -/
theorem ringInv_getMem {v : View} (hv : v.Valid) {m : Mem} {x : Item} {q : List Item}
    (h : RingInv v m (x :: q)) : RingInv v (getMem v m (m .head)) q := by
  have hd := hv.depth_pos
  have hd31 := hv.depth_lt
  have hh := h.head_lt
  have hle : q.length + 1 ≤ v.depth := by simpa using h.length_le
  have hhead : getMem v m (m .head) .head = (m .head + 1) % v.depth := by
    rw [getMem_head, u32_of_lt (by omega)]
  constructor
  · rw [hhead]
    exact Nat.mod_lt _ hd
  · rw [getMem_count, h.count_eq, List.length_cons, dec32_succ (by omega)]
  · omega
  · rw [hhead, getMem_tail, h.tail_eq, slot_succ, List.length_cons]
  · intro i hi
    rw [getMem_state]
    by_cases hidx : i = m .head
    · rw [if_pos hidx]
      exact Or.inl rfl
    · rw [if_neg hidx]
      exact h.settled i hi
  · rw [hhead]
    refine h.shows.pop hh (by omega) ?_ ?_
    · rw [cell_getMem, if_pos rfl]
    · intro i _ hne
      rw [cell_getMem, if_neg hne]

/-- The accesses of a get that passes all its tests. -/
theorem exec_posixipcQueueGet {v : View} (hv : v.Valid) {m : Mem} (hc : m .count ≠ 0)
    (hh : m .head < v.depth) (hr : m (.state (m .head)) = queueReady) :
    Prog.exec (posixipcQueueGet v) m =
      ((.ok, itemAt v m (m .head)), getMem v m (m .head)) := by
  rw [posixipcQueueGet, if_neg hv.ctrl_ne, Prog.exec_bind, Prog.exec_read, if_neg hc,
    Prog.exec_bind, Prog.exec_read, if_neg (not_le.mpr hh), Prog.exec_bind, Prog.exec_read,
    if_neg (not_not.mpr hr)]
  simp only [Prog.exec_bind, Prog.exec_write, Prog.exec_read, Prog.exec_pure, exec_memcpyOut]
  rfl

/-- **One get.**  It fails with `EAGAIN` exactly on an empty ring and otherwise returns
the oldest item byte for byte. -/
theorem posixipcQueueGet_spec {v : View} (hv : v.Valid) {m : Mem} {q : List Item}
    (h : RingInv v m q) :
    Prog.exec (posixipcQueueGet v) m =
      match q with
      | [] => ((.eagain, []), m)
      | x :: _ => ((.ok, x), getMem v m (m .head)) := by
  cases q with
  | nil =>
      have hc : m .count = 0 := h.count_eq
      rw [posixipcQueueGet, if_neg hv.ctrl_ne, Prog.exec_bind, Prog.exec_read, if_pos hc]
      rfl
  | cons x q =>
      obtain ⟨hr, hx⟩ := h.head_ready
      have hc : m .count ≠ 0 := by rw [h.count_eq]; simp
      rw [exec_posixipcQueueGet hv hc h.head_lt hr, hx]

/-- **One qsize.** -/
theorem posixipcQueueQsize_spec {v : View} (hv : v.Valid) {m : Mem} {q : List Item}
    (h : RingInv v m q) :
    Prog.exec (posixipcQueueQsize v) m = ((.ok, q.length), m) := by
  rw [posixipcQueueQsize, if_neg hv.ctrl_ne, Prog.exec_bind, Prog.exec_read, Prog.exec_pure,
    h.count_eq]

/-! ## Sequences of calls -/

/-- A call on the ring. -/
inductive Call
  | put (data : ℕ → UInt8)
  | get
  | qsize

/-- What a call gives back. -/
inductive Answer
  | put (rc : Rc)
  | get (rc : Rc) (data : List UInt8)
  | qsize (rc : Rc) (n : ℕ)
  deriving DecidableEq

/-- Run one call. -/
def runCall (v : View) (m : Mem) : Call → Answer × Mem
  | .put data =>
    let r := Prog.exec (posixipcQueuePut v data) m
    (.put r.1, r.2)
  | .get =>
    let r := Prog.exec (posixipcQueueGet v) m
    (.get r.1.1 r.1.2, r.2)
  | .qsize =>
    let r := Prog.exec (posixipcQueueQsize v) m
    (.qsize r.1.1 r.1.2, r.2)

/-- Run a sequence of calls. -/
def runCalls (v : View) : Mem → List Call → List Answer × Mem
  | m, [] => ([], m)
  | m, c :: cs =>
    let r := runCall v m c
    let rest := runCalls v r.2 cs
    (r.1 :: rest.1, rest.2)

/-- The abstract queue of capacity `depth` answers one call. -/
def specCall (v : View) (q : List Item) : Call → Answer × List Item
  | .put data =>
    match BoundedFifo.put v.depth q (bytesOf v data) with
    | (true, q') => (.put .ok, q')
    | (false, q') => (.put .eagain, q')
  | .get =>
    match BoundedFifo.get q with
    | (some x, q') => (.get .ok x, q')
    | (none, q') => (.get .eagain [], q')
  | .qsize => (.qsize .ok q.length, q)

/-- The abstract queue answers a sequence of calls. -/
def specCalls (v : View) : List Item → List Call → List Answer × List Item
  | q, [] => ([], q)
  | q, c :: cs =>
    let r := specCall v q c
    let rest := specCalls v r.2 cs
    (r.1 :: rest.1, rest.2)

/-- **Step lemma**: one call answers like the abstract queue and keeps the invariant. -/
theorem runCall_spec {v : View} (hv : v.Valid) {m : Mem} {q : List Item}
    (h : RingInv v m q) (c : Call) :
    (runCall v m c).1 = (specCall v q c).1 ∧
      RingInv v (runCall v m c).2 (specCall v q c).2 := by
  cases c with
  | put data =>
      have hle := h.length_le
      by_cases hfull : q.length = v.depth
      · simp only [runCall, posixipcQueuePut_spec hv h, specCall, BoundedFifo.put, hfull,
          if_true]
        exact ⟨trivial, h⟩
      · simp only [runCall, posixipcQueuePut_spec hv h, specCall, BoundedFifo.put, hfull,
          if_false]
        exact ⟨trivial, ringInv_putMem hv h (by omega) data⟩
  | get =>
      cases q with
      | nil =>
          simp only [runCall, posixipcQueueGet_spec hv h, specCall, BoundedFifo.get]
          exact ⟨trivial, h⟩
      | cons x q =>
          simp only [runCall, posixipcQueueGet_spec hv h, specCall, BoundedFifo.get]
          exact ⟨trivial, ringInv_getMem hv h⟩
  | qsize =>
      simp only [runCall, posixipcQueueQsize_spec hv h, specCall]
      exact ⟨trivial, h⟩

/-- **Run lemma**: the same for any sequence of calls. -/
theorem runCalls_spec {v : View} (hv : v.Valid) {m : Mem} {q : List Item}
    (h : RingInv v m q) (cs : List Call) :
    (runCalls v m cs).1 = (specCalls v q cs).1 ∧
      RingInv v (runCalls v m cs).2 (specCalls v q cs).2 := by
  induction cs generalizing m q with
  | nil => exact ⟨rfl, h⟩
  | cons c cs ih =>
      obtain ⟨hans, hinv⟩ := runCall_spec hv h c
      obtain ⟨hrest, hfin⟩ := ih hinv
      refine ⟨?_, hfin⟩
      simp only [runCalls, specCalls, hans, hrest]

/-! ## The refinement from initialisation -/

/-- The increments and decrements that a put or a get would do next do not wrap. -/
def NoWrap (v : View) (m : Mem) : Prop :=
  (m .count < v.depth → m .tail + 1 < 2 ^ 32 ∧ m .count + 1 < 2 ^ 32) ∧
    (m .count ≠ 0 → m .head + 1 < 2 ^ 32 ∧ 1 ≤ m .count)

theorem RingInv.noWrap {v : View} (hv : v.Valid) {m : Mem} {q : List Item}
    (h : RingInv v m q) : NoWrap v m := by
  have hd31 := hv.depth_lt
  have hh := h.head_lt
  have ht : m .tail < v.depth := by rw [h.tail_eq]; exact Nat.mod_lt _ hv.depth_pos
  constructor
  · intro hc
    omega
  · intro hc
    omega

/-- **The ring refines a bounded FIFO of byte strings.**  For every geometry that
`posixipc_queue_map` accepts, any content of the bytes and any sequence of calls after
`posixipc_queue_init_ctrl`, the answers are those of the abstract queue of capacity
`depth` (in particular none is `EINVAL`), and at every point of the run no increment or
decrement of `head`, `tail` or `count` wraps. -/
theorem queueRing_refines_fifo {cacheline nbytes depth itemSize : ℕ} {bytes : Option ℕ}
    {v : View} (hmap : posixipcQueueMap cacheline bytes nbytes depth itemSize = .ok v)
    (m : Mem) (cs : List Call) :
    let m0 := (Prog.exec (posixipcQueueInitCtrl v) m).2
    v.depth = depth ∧ v.itemSize = itemSize ∧
      (Prog.exec (posixipcQueueInitCtrl v) m).1 = .ok ∧
      (runCalls v m0 cs).1 = (specCalls v [] cs).1 ∧
      ∀ n, NoWrap v (runCalls v m0 (cs.take n)).2 := by
  obtain ⟨hv, hdepth, hitem⟩ := posixipcQueueMap_valid hmap
  obtain ⟨hok, hinv⟩ := posixipcQueueInitCtrl_spec hv m
  refine ⟨hdepth, hitem, hok, (runCalls_spec hv hinv cs).1, ?_⟩
  intro n
  exact (runCalls_spec hv hinv (cs.take n)).2.noWrap hv

/-- A cacheline of 64 bytes and three items of 5 bytes: the map succeeds, and the
refinement holds of every sequence of calls on the mapped ring. -/
theorem queueRing_refines_fifo_three :
    ∃ v, posixipcQueueMap 64 (some 4096) 320 3 5 = .ok v ∧
      ∀ (m : Mem) (cs : List Call),
        (runCalls v (Prog.exec (posixipcQueueInitCtrl v) m).2 cs).1 = (specCalls v [] cs).1 := by
  have hmap : posixipcQueueMap 64 (some 4096) 320 3 5 =
      .ok ⟨some 4096, some 4160, some 4224, 3, 5, 64⟩ := by decide
  exact ⟨_, hmap, fun m cs => (queueRing_refines_fifo hmap m cs).2.2.2.1⟩

end PosixIpc
