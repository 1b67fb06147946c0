/-
# The contents of a ring at every access

`contents v m` reads the FIFO contents off any memory: the items that recovery would keep, in
cyclic order from `head` on.  It is defined in the middle of an operation as well, where the
control words do not yet agree with the states.

* `Holds v m q` : the ring shows `q`, also to a later recovery;
* `put_commits`, `get_commits` : a put and a get change the contents at exactly one store, or
  not at all;
* `recover_holds` : a recovery that is safe changes them nowhere.
-/
import PosixIpc.StoreCommit
import PosixIpc.QueueRingSettle

namespace PosixIpc

open StoreProg Word32 CyclicFifo

/-! ## Reading the contents -/

/-- The items to keep, in cyclic order from slot `h` on. -/
def liveFrom (v : View) (m : Mem) (h : ℕ) : List Item :=
  (List.range v.depth).filterMap fun j => liveCell v m ((h + j) % v.depth)

/-- **The FIFO contents of the ring.** -/
def contents (v : View) (m : Mem) : List Item := liveFrom v m (m .head)

/-- A list is read back by its indices. -/
theorem filterMap_range_getElem? {q : List Item} {n : ℕ} (h : q.length ≤ n) :
    ((List.range n).filterMap fun j => q[j]?) = q := by
  induction q generalizing n with
  | nil => simp
  | cons x q ih =>
    obtain ⟨k, rfl⟩ : ∃ k, n = k + 1 := ⟨n - 1, by simp at h; omega⟩
    rw [List.range_succ_eq_map, List.filterMap_cons, List.filterMap_map]
    simp only [List.getElem?_cons_zero, List.cons.injEq, true_and]
    exact ih (by simpa using h)

/-- What is shown from `h` on is read from `h` on. -/
theorem liveFrom_of_shows {v : View} {m : Mem} {h : ℕ} {q : List Item}
    (hs : Shows v.depth h (liveCell v m) q) (hq : q.length ≤ v.depth) : liveFrom v m h = q := by
  rw [liveFrom, List.filterMap_congr fun j hj => hs j (List.mem_range.mp hj)]
  exact filterMap_range_getElem? hq

/-- An empty slot in front makes no difference. -/
theorem liveFrom_of_shows_succ {v : View} {m : Mem} {h : ℕ} {q : List Item}
    (hs : Shows v.depth ((h + 1) % v.depth) (liveCell v m) q) (hq : q.length < v.depth)
    (hh : h < v.depth) (hempty : liveCell v m h = none) : liveFrom v m h = q := by
  obtain ⟨d, hd⟩ : ∃ d, v.depth = d + 1 := ⟨v.depth - 1, by omega⟩
  have hrest : ∀ j ∈ List.range d, liveCell v m ((h + (j + 1)) % v.depth) = q[j]? := by
    intro j hj
    rw [← slot_succ]
    exact hs j (by have := List.mem_range.mp hj; omega)
  unfold liveFrom
  rw [hd, List.range_succ_eq_map, List.filterMap_cons, List.filterMap_map, ← hd,
    Nat.add_zero, Nat.mod_eq_of_lt hh, hempty]
  exact (List.filterMap_congr hrest).trans (filterMap_range_getElem? (by omega))

theorem liveFrom_congr {v : View} {m m' : Mem} (hd : 0 < v.depth) (h : ℕ)
    (hc : ∀ i, i < v.depth → liveCell v m' i = liveCell v m i) :
    liveFrom v m' h = liveFrom v m h :=
  List.filterMap_congr fun _ _ => hc _ (Nat.mod_lt _ hd)

/-! ## Rings that hold a queue -/

/-- The ring shows `q` from `head` on, and `q` is what a recovery has to restore. -/
structure Holds (v : View) (m : Mem) (q : List Item) : Prop where
  contents_eq : contents v m = q
  wreck : Wreck v m q

/-- Only `head` and the cells matter. -/
theorem Holds.congr {v : View} {m m' : Mem} {q : List Item} (h : Holds v m q)
    (hhead : m' .head = m .head) (hc : ∀ i, i < v.depth → liveCell v m' i = liveCell v m i) :
    Holds v m' q := by
  obtain ⟨hcont, hlen, w, hw, hs, hfull⟩ := h
  have hd : 0 < v.depth := by omega
  refine ⟨?_, hlen, w, hw, hs.congr hd hc, fun hq => by rw [hhead, hfull hq]⟩
  rw [contents, hhead, liveFrom_congr hd _ hc]
  exact hcont

theorem RingInv.holds {v : View} {m : Mem} {q : List Item} (h : RingInv v m q) :
    Holds v m q := by
  have hd : 0 < v.depth := by
    have := h.head_lt
    omega
  refine ⟨?_, h.wreck⟩
  exact liveFrom_of_shows (h.shows.congr hd fun i hi => h.liveCell_eq hi) h.length_le

/-! ## A put -/

/-- **A put takes effect at the store of `READY`.** -/
theorem put_commits {v : View} (hv : v.Valid) {m : Mem} {q : List Item} (h : RingInv v m q)
    (data : ℕ → UInt8) :
    Prog.Commits (fun m' => Holds v m' q) (fun m' => Holds v m' (q ++ [bytesOf v data]))
      (fun rc m' => rc ≠ .ok ∧ RingInv v m' q)
      (fun rc m' => rc = .ok ∧ RingInv v m' (q ++ [bytesOf v data])) (posixipcQueuePut v data)
      m := by
  have hread : ∀ l, Prog.Always (fun m' => Holds v m' q) (Prog.read l) m := fun l =>
    (Prog.always_read _ l m).mpr h.holds
  rw [posixipcQueuePut, if_neg hv.ctrl_ne]
  refine Prog.Commits.bind (hread _) ?_
  rw [Prog.exec_read]
  by_cases hfull : m .count ≥ v.depth
  · rw [if_pos hfull]
    exact ⟨h.holds, by decide, h⟩
  rw [if_neg hfull]
  have hlt : q.length < v.depth := by
    rw [← h.count_eq]
    omega
  have htlt : m .tail < v.depth := by
    rw [h.tail_eq]
    exact Nat.mod_lt _ hv.depth_pos
  refine Prog.Commits.bind (hread _) ?_
  rw [Prog.exec_read, if_neg (not_le.mpr htlt)]
  -- the slot at `tail` is free, and stays so until the commit
  have hfree : liveCell v m (m .tail) = none := by
    rw [h.liveCell_eq htlt, h.tail_eq, h.shows q.length hlt, List.getElem?_eq_none le_rfl]
  generalize hm1 : Function.update m (.state (m .tail)) queueReservedPut = m1
  have hcell1 : ∀ i, i < v.depth → liveCell v m1 i = liveCell v m i := by
    intro i _
    by_cases hi : i = m .tail
    · rw [hi, hfree]
      apply liveCell_eq_none
      rw [← hm1, Live, Function.update_self]
      decide
    · rw [← hm1, liveCell_update_state hi]
  have hholds1 : Holds v m1 q := h.holds.congr (by simp [← hm1]) hcell1
  refine Prog.Commits.bind ((Prog.always_write _ _ _ _).mpr ⟨h.holds, by rwa [hm1]⟩) ?_
  rw [Prog.exec_write, hm1]
  have hcopy : Prog.Always (fun m' => Holds v m' q) (memcpyIn v (m .tail) data) m1 := by
    rw [Prog.always_iff]
    intro m' hm'
    obtain ⟨hword, hother⟩ := crashPoint_memcpyIn hv hm'
    refine hholds1.congr (hword _ (by simp)) fun i hi => ?_
    by_cases hit : i = m .tail
    · rw [hit, hcell1 _ htlt, hfree]
      apply liveCell_eq_none
      rw [Live, hword _ (by simp), ← hm1, Function.update_self]
      decide
    · exact hother i hit
  refine Prog.Commits.bind hcopy ?_
  generalize hm2 : (Prog.exec (memcpyIn v (m .tail) data) m1).2 = m2
  refine Prog.Commits.write (hm2 ▸ hcopy.last) ?_
  -- from here on the cells are those of the finished put
  have hring : RingInv v (putMem v m (m .tail) data) (q ++ [bytesOf v data]) :=
    ringInv_putMem hv h hlt data
  have hput : putMem v m (m .tail) data
      = Function.update (Function.update (Function.update m2 (.state (m .tail)) queueReady) .tail
          (u32 (m .tail + 1) % v.depth)) .count (u32 (m2 .count + 1)) := by
    simp [putMem, hm1, hm2]
  rw [hput] at hring
  have hdone := hring.holds
  refine ⟨?_, ?_⟩
  · simp only [Prog.always_bind, Prog.always_write, Prog.always_read, Prog.always_pure,
      Prog.exec_write, Prog.exec_read]
    have h3 : Holds v (Function.update m2 (.state (m .tail)) queueReady)
        (q ++ [bytesOf v data]) := by
      refine hdone.congr (by simp) fun i _ => ?_
      rw [liveCell_update_word (l := .count) (by simp) (by simp),
        liveCell_update_word (l := .tail) (by simp) (by simp)]
    have h4 : Holds v (Function.update (Function.update m2 (.state (m .tail)) queueReady) .tail
        (u32 (m .tail + 1) % v.depth)) (q ++ [bytesOf v data]) := by
      refine hdone.congr (by simp) fun i _ => ?_
      rw [liveCell_update_word (l := .count) (by simp) (by simp)]
    refine ⟨⟨h3, h4⟩, h4, ⟨h4, ?_⟩, ?_⟩
    · simpa using hdone
    · simpa using hdone
  · refine ⟨rfl, ?_⟩
    simpa using hring

/-! ## A get -/

/-- **A get takes effect at the store of `EMPTY`.** -/
theorem get_commits {v : View} (hv : v.Valid) {m : Mem} {x : Item} {q : List Item}
    (h : RingInv v m (x :: q)) :
    Prog.Commits (fun m' => Holds v m' (x :: q)) (fun m' => Holds v m' q)
      (fun r m' => r.1 ≠ .ok ∧ RingInv v m' (x :: q))
      (fun r m' => r = (.ok, x) ∧ RingInv v m' q) (posixipcQueueGet v) m := by
  have hread : ∀ l, Prog.Always (fun m' => Holds v m' (x :: q)) (Prog.read l) m := fun l =>
    (Prog.always_read _ l m).mpr h.holds
  obtain ⟨hready, hitem⟩ := h.head_ready
  have hcount : m .count ≠ 0 := by
    rw [h.count_eq]
    simp
  have hlen : q.length < v.depth := by
    have := h.length_le
    simp only [List.length_cons] at this
    omega
  rw [posixipcQueueGet, if_neg hv.ctrl_ne]
  refine Prog.Commits.bind (hread _) ?_
  rw [Prog.exec_read, if_neg hcount]
  refine Prog.Commits.bind (hread _) ?_
  rw [Prog.exec_read, if_neg (not_le.mpr h.head_lt)]
  refine Prog.Commits.bind (hread _) ?_
  rw [Prog.exec_read, if_neg (not_not.mpr hready)]
  -- a slot that is being taken is kept by a recovery
  generalize hm1 : Function.update m (.state (m .head)) queueReservedGet = m1
  have hitems : ∀ i, itemAt v m1 i = itemAt v m i := fun i =>
    itemAt_congr fun j _ => by simp [← hm1]
  have hholds1 : Holds v m1 (x :: q) := by
    refine h.holds.congr (by simp [← hm1]) fun i _ => ?_
    by_cases hi : i = m .head
    · have hl : Live m i := Or.inl (by rw [hi]; exact hready)
      have hl1 : Live m1 i := Or.inr (by rw [hi, ← hm1, Function.update_self])
      rw [liveCell, liveCell, if_pos hl, if_pos hl1, hitems]
    · rw [← hm1, liveCell_update_state hi]
  refine Prog.Commits.bind ((Prog.always_write _ _ _ _).mpr ⟨h.holds, by rwa [hm1]⟩) ?_
  rw [Prog.exec_write, hm1]
  have hcopy : Prog.Always (fun m' => Holds v m' (x :: q))
      (memcpyOut (m .head * v.stride) v.itemSize) m1 := by
    rw [Prog.always_iff]
    intro m' hm'
    rw [crashPoint_memcpyOut hm']
    exact hholds1
  refine Prog.Commits.bind hcopy ?_
  rw [exec_memcpyOut]
  refine Prog.Commits.write hholds1 ?_
  have hring : RingInv v (getMem v m (m .head)) q := ringInv_getMem hv h
  have hget : getMem v m (m .head)
      = Function.update (Function.update (Function.update m1 (.state (m .head)) queueEmpty) .head
          (u32 (m .head + 1) % v.depth)) .count (dec32 (m1 .count)) := by
    simp [getMem, hm1]
  have hcells : ∀ i, liveCell v (Function.update m1 (.state (m .head)) queueEmpty) i
      = liveCell v (getMem v m (m .head)) i := by
    intro i
    rw [hget, liveCell_update_word (l := .count) (by simp) (by simp),
      liveCell_update_word (l := .head) (by simp) (by simp)]
  have hm1count : m1 .count = m .count := by simp [← hm1]
  -- `head` still names the slot that has just been emptied
  have h2 : Holds v (Function.update m1 (.state (m .head)) queueEmpty) q := by
    have hshows : Shows v.depth ((m .head + 1) % v.depth)
        (liveCell v (Function.update m1 (.state (m .head)) queueEmpty)) q := by
      have hhead : getMem v m (m .head) .head = (m .head + 1) % v.depth := by
        have := hv.depth_lt
        have := h.head_lt
        rw [getMem_head, u32_of_lt (by omega)]
      have hs := hring.shows.congr hv.depth_pos fun i hi => hring.liveCell_eq hi
      rw [hhead] at hs
      exact hs.congr hv.depth_pos fun i _ => hcells i
    have hgone : liveCell v (Function.update m1 (.state (m .head)) queueEmpty) (m .head)
        = none := by
      apply liveCell_eq_none
      rw [Live, Function.update_self]
      decide
    refine ⟨?_, by omega, _, Nat.mod_lt _ hv.depth_pos, hshows, fun hfull => by omega⟩
    have hhead : (Function.update m1 (.state (m .head)) queueEmpty) .head = m .head := by
      simp [← hm1]
    rw [contents, hhead]
    exact liveFrom_of_shows_succ hshows hlen h.head_lt hgone
  have hdone := hring.holds
  rw [hget] at hdone hring
  refine ⟨?_, ?_⟩
  · simp only [Prog.always_bind, Prog.always_write, Prog.always_read, Prog.always_pure,
      Prog.exec_write, Prog.exec_read]
    have h3 : Holds v (Function.update (Function.update m1 (.state (m .head)) queueEmpty) .head
        (u32 (m .head + 1) % v.depth)) q := by
      refine hdone.congr (by simp) fun i _ => ?_
      rw [liveCell_update_word (l := .count) (by simp) (by simp)]
    refine ⟨⟨h2, h3⟩, h3, ⟨h3, ?_⟩, ?_⟩
    · simpa using hdone
    · simpa using hdone
  · constructor
    · rw [← hitem, ← hitems]
      rfl
    · simpa using hring

/-! ## A recovery -/

/-- The first loop of a recovery does not store to `head`. -/
theorem stores_recoverScan {Q : Loc → ℕ → Prop} (hstate : ∀ i x, Q (.state i) x)
    (i n ready : ℕ) : Prog.Stores Q (recoverScan i n ready) := by
  induction n generalizing i ready with
  | zero => trivial
  | succ n ih =>
    refine Prog.stores_bind (Prog.stores_read _ _) fun st => ?_
    have hstore : ∀ x ready', Prog.Stores Q
        (Prog.write (.state i) x >>= fun _ => recoverScan (i + 1) n ready') := fun x ready' =>
      Prog.stores_bind ((Prog.stores_write _ _ _).mpr (hstate i x)) fun _ => ih _ _
    split_ifs
    · exact hstore _ _
    · exact hstore _ _
    · exact ih _ _
    · exact hstore _ _
    · exact ih _ _

/-- The second loop stores to `head` once, what it then leaves there. -/
theorem recoverHead_head (i n : ℕ) (m : Mem) :
    Prog.Always (fun m' => m' .head = m .head ∨ m' .head = (Prog.exec (recoverHead i n) m).2 .head)
      (recoverHead i n) m := by
  induction n generalizing i with
  | zero => exact Or.inl rfl
  | succ n ih =>
    rw [recoverHead, Prog.always_bind, Prog.always_read, Prog.exec_bind, Prog.exec_read]
    refine ⟨Or.inl rfl, ?_⟩
    by_cases hready : m (.state i) = queueReady
    · rw [if_pos hready, Prog.always_write, Prog.exec_write]
      exact ⟨Or.inl rfl, Or.inr rfl⟩
    · rw [if_neg hready]
      exact ih (i + 1)

/-- During a recovery `head` has its first or its last value. -/
theorem recover_head {v : View} (m : Mem) :
    Prog.Always (fun m' => m' .head = m .head ∨
        m' .head = (Prog.exec (posixipcQueueRecover v) m).2 .head) (posixipcQueueRecover v) m := by
  unfold posixipcQueueRecover
  split_ifs with hnull
  · exact Or.inl rfl
  · have hscan : Prog.Always (fun m' => m' .head = m .head) (recoverScan 0 v.depth 0) m :=
      (stores_recoverScan (Q := fun l _ => l ≠ Loc.head) (by simp) _ _ _).always
        (fun m' l x hl hm' => by rw [Function.update_of_ne (Ne.symm hl)]; exact hm') rfl
    rw [Prog.always_bind, Prog.exec_bind]
    generalize (Prog.exec (recoverScan 0 v.depth 0) m).1 = ready at *
    have hlast := hscan.last
    refine ⟨?_, ?_⟩
    · rw [Prog.always_iff] at hscan ⊢
      exact fun m' hm' => Or.inl (hscan m' hm')
    · generalize (Prog.exec (recoverScan 0 v.depth 0) m).2 = m1 at *
      rw [Prog.always_bind, Prog.always_write, Prog.exec_bind, Prog.exec_write]
      have hcount : (Function.update m1 .count ready) .head = m .head := by simpa using hlast
      refine ⟨⟨Or.inl hlast, Or.inl hcount⟩, ?_⟩
      generalize Function.update m1 .count ready = m2 at *
      by_cases hzero : ready = 0
      · simp only [hzero, if_true, Prog.always_bind, Prog.always_write, Prog.always_pure,
          Prog.exec_bind, Prog.exec_write, Prog.exec_pure]
        exact ⟨⟨Or.inl hcount, Or.inr (by simp)⟩, ⟨Or.inr (by simp), Or.inr (by simp)⟩,
          Or.inr (by simp)⟩
      · simp only [hzero, if_false, Prog.always_bind, Prog.always_write, Prog.always_read,
          Prog.always_pure, Prog.exec_bind, Prog.exec_write, Prog.exec_read, Prog.exec_pure]
        have hhead := recoverHead_head 0 v.depth m2
        rw [hcount] at hhead
        simp only [ne_eq, reduceCtorEq, not_false_eq_true, Function.update_of_ne]
        exact ⟨hhead, Or.inr trivial, ⟨Or.inr trivial, Or.inr trivial⟩, Or.inr trivial⟩

/-- **A safe recovery leaves the contents alone at every access**, and ends with a ring. -/
theorem recover_holds {v : View} (hv : v.Valid) {m : Mem} {q : List Item} (h : Holds v m q)
    (hsafe : RecoverySafe v m) :
    Prog.Always (fun m' => Holds v m' q) (posixipcQueueRecover v) m ∧
      (Prog.exec (posixipcQueueRecover v) m).1 = .ok ∧
      RingInv v (Prog.exec (posixipcQueueRecover v) m).2 q := by
  obtain ⟨hrc, hrec⟩ := posixipcQueueRecover_spec hv m
  have hring : RingInv v (Prog.exec (posixipcQueueRecover v) m).2 q := h.wreck.ringInv hrec hsafe
  refine ⟨?_, hrc, hring⟩
  have halike := (Prog.always_iff _ _ _).mp (always_alike v m)
  have hhead := (Prog.always_iff _ _ _).mp (recover_head (v := v) m)
  rw [Prog.always_iff]
  intro m' hm'
  have hcell : ∀ {a}, Alike v m a → ∀ i, i < v.depth → liveCell v a i = liveCell v m i := by
    intro a ha i hi
    have hitem : itemAt v a i = itemAt v m i :=
      itemAt_congr fun j _ => ha.frame _ (by simp [RecoveryCell])
    simp only [liveCell, ha.live i hi, hitem]
  rcases hhead m' hm' with hold | hnew
  · exact h.congr hold (hcell (halike m' hm'))
  · refine hring.holds.congr hnew fun i hi => ?_
    rw [hcell (halike m' hm') i hi, hcell (always_alike v m).last i hi]

end PosixIpc
