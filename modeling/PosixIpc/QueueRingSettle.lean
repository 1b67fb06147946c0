/-
# Recovery of an arbitrary ring, cut off anywhere

`posixipc_queue_recover` on any content, also on one that an earlier recovery has left half
done.

* `Alike v m m'` : the two memories differ only in cells that recovery writes, and the same
  slots are live.  Every point of a recovery is alike to its start (`always_alike`);
* `exec_recover_of_alike` : recovery gives the same result on alike memories;
* `recover_normalises` : what one run leaves, a second run, and a run after a run that died.
-/
import PosixIpc.QueueRingRecovery

namespace PosixIpc

open StoreProg Word32

/-! ## What recovery writes -/

/-- The cells that recovery writes. -/
def RecoveryCell (v : View) : Loc → Prop
  | .head => True
  | .tail => True
  | .count => True
  | .state i => i < v.depth
  | _ => False

/-- The two memories agree outside the cells that recovery writes, and on the live slots. -/
structure Alike (v : View) (m m' : Mem) : Prop where
  frame : ∀ l, ¬ RecoveryCell v l → m' l = m l
  live : ∀ i, i < v.depth → (Live m' i ↔ Live m i)

theorem Alike.refl (v : View) (m : Mem) : Alike v m m := ⟨fun _ _ => rfl, fun _ _ => Iff.rfl⟩

/-- A store to one of the three control words. -/
theorem Alike.update_word {v : View} {m m' : Mem} (h : Alike v m m') {l : Loc}
    (hl : RecoveryCell v l) (hstate : ∀ i, l ≠ .state i) (x : ℕ) :
    Alike v m (Function.update m' l x) := by
  constructor
  · intro k hk
    have hkl : k ≠ l := by
      rintro rfl
      exact hk hl
    rw [Function.update_of_ne hkl, h.frame k hk]
  · intro i hi
    rw [← h.live i hi, Live, Live, Function.update_of_ne (fun heq => hstate i heq.symm)]

/-- A store that settles a slot. -/
theorem Alike.update_state {v : View} {m m' : Mem} (h : Alike v m m') {i x : ℕ}
    (hi : i < v.depth) (hx : (x = queueReady ∨ x = queueReservedGet) ↔ Live m' i) :
    Alike v m (Function.update m' (.state i) x) := by
  constructor
  · intro k hk
    have hki : k ≠ .state i := by
      rintro rfl
      exact hk hi
    rw [Function.update_of_ne hki, h.frame k hk]
  · intro j hj
    by_cases hij : j = i
    · subst hij
      rw [← h.live j hj, Live, Function.update_self]
      exact hx
    · rw [live_update_of_ne hij, h.live j hj]

/-! ## Every point of a recovery -/

theorem alike_recoverScan {v : View} {m m' : Mem} {i n ready : ℕ} (h : Alike v m m')
    (hin : i + n ≤ v.depth) : Prog.Always (Alike v m) (recoverScan i n ready) m' := by
  induction n generalizing i ready m' with
  | zero => exact h
  | succ n ih =>
      have hi : i < v.depth := by omega
      have hempty : ¬Live m' i →
          Alike v m (Function.update m' (.state i) queueEmpty) := fun hl =>
        h.update_state hi (iff_of_false (by decide) hl)
      rw [recoverScan, Prog.always_bind, Prog.always_read, Prog.exec_read]
      refine ⟨h, ?_⟩
      simp only
      by_cases h1 : m' (.state i) = queueReservedPut
      · have hput := hempty (by rw [Live, h1]; decide)
        rw [if_pos h1, Prog.always_bind, Prog.always_write]
        exact ⟨⟨h, hput⟩, ih hput (by omega)⟩
      rw [if_neg h1]
      by_cases h2 : m' (.state i) = queueReservedGet
      · have hget : Alike v m (Function.update m' (.state i) queueReady) :=
          h.update_state hi (iff_of_true (Or.inl rfl) (Or.inr h2))
        rw [if_pos h2, Prog.always_bind, Prog.always_write]
        exact ⟨⟨h, hget⟩, ih hget (by omega)⟩
      rw [if_neg h2]
      by_cases h3 : m' (.state i) = queueReady
      · rw [if_pos h3]
        exact ih h (by omega)
      rw [if_neg h3]
      by_cases h4 : m' (.state i) ≠ queueEmpty
      · -- a value that is no state at all
        have hjunk := hempty (fun hl => hl.elim h3 h2)
        rw [if_pos h4, Prog.always_bind, Prog.always_write]
        exact ⟨⟨h, hjunk⟩, ih hjunk (by omega)⟩
      · rw [if_neg h4]
        exact ih h (by omega)

theorem alike_recoverHead {v : View} {m m' : Mem} {i n : ℕ} (h : Alike v m m') :
    Prog.Always (Alike v m) (recoverHead i n) m' := by
  induction n generalizing i with
  | zero => exact h
  | succ n ih =>
      rw [recoverHead, Prog.always_bind, Prog.always_read, Prog.exec_read]
      refine ⟨h, ?_⟩
      simp only
      by_cases h1 : m' (.state i) = queueReady
      · rw [if_pos h1, Prog.always_write]
        exact ⟨h, h.update_word (l := .head) trivial (by simp) i⟩
      · rw [if_neg h1]
        exact ih

/-- **Every point of a recovery is alike to its start.** -/
theorem always_alike (v : View) (m : Mem) :
    Prog.Always (Alike v m) (posixipcQueueRecover v) m := by
  have hword : ∀ {m'} {l : Loc}, Alike v m m' → RecoveryCell v l → (∀ i, l ≠ .state i) →
      ∀ x, Prog.Always (Alike v m) (Prog.write l x) m' := fun h hl hs x =>
    (Prog.always_write _ _ _ _).mpr ⟨h, h.update_word hl hs x⟩
  unfold posixipcQueueRecover
  split_ifs
  · exact .refl v m
  · have hscan : Prog.Always (Alike v m) (recoverScan 0 v.depth 0) m :=
      alike_recoverScan (Alike.refl v m) (by omega)
    rw [Prog.always_bind]
    refine ⟨hscan, ?_⟩
    have hcount := hword (l := .count) hscan.last trivial (by simp)
      (Prog.exec (recoverScan 0 v.depth 0) m).1
    rw [Prog.always_bind]
    refine ⟨hcount, ?_⟩
    by_cases h0 : (Prog.exec (recoverScan 0 v.depth 0) m).1 = 0
    · rw [if_pos h0, Prog.always_bind]
      have hhead := hword (l := .head) hcount.last trivial (by simp) 0
      refine ⟨hhead, ?_⟩
      rw [Prog.always_bind]
      have htail := hword (l := .tail) hhead.last trivial (by simp) 0
      exact ⟨htail, htail.last⟩
    · rw [if_neg h0, Prog.always_bind]
      have hhead := alike_recoverHead (i := 0) (n := v.depth) hcount.last
      refine ⟨hhead, ?_⟩
      rw [Prog.always_bind, Prog.always_read]
      refine ⟨hhead.last, ?_⟩
      rw [Prog.always_bind]
      have htail := fun x => hword (l := .tail) hhead.last trivial (by simp) x
      exact ⟨htail _, (htail _).last⟩

/-! ## The result of a recovery -/

theorem Alike.liveCount_eq {v : View} {m m' : Mem} (h : Alike v m m') :
    liveCount v m' = liveCount v m := by
  unfold liveCount
  simp only [Nat.count_eq_card_filter_range]
  congr 1
  apply Finset.filter_congr
  intro i hi
  exact h.live i (Finset.mem_range.mp hi)

theorem Alike.settledState_eq {v : View} {m m' : Mem} (h : Alike v m m') {i : ℕ}
    (hi : i < v.depth) : settledState m' i = settledState m i := by
  unfold settledState
  simp only [h.live i hi]

/-- What recovery computes is determined by the live slots. -/
theorem Recovered.ext {v : View} {m m' a b : Mem} (h : Alike v m m') (ha : Recovered v m a)
    (hb : Recovered v m' b) (hframe : ∀ l, ¬ RecoveryCell v l → b l = a l) : b = a := by
  have hends : b .head = a .head ∧ b .tail = a .tail := by
    by_cases h0 : liveCount v m = 0
    · obtain ⟨ha1, ha2⟩ := ha.empty h0
      obtain ⟨hb1, hb2⟩ := hb.empty (h.liveCount_eq.trans h0)
      exact ⟨hb1.trans ha1.symm, hb2.trans ha2.symm⟩
    · obtain ⟨j, hj, hl, hmin⟩ := exists_first_live h0
      obtain ⟨ha1, ha2⟩ := ha.first j hj hl hmin
      obtain ⟨hb1, hb2⟩ := hb.first j hj ((h.live j hj).mpr hl)
        (fun k hk hlk => hmin k hk ((h.live k (by omega)).mp hlk))
      rw [h.liveCount_eq] at hb2
      exact ⟨hb1.trans ha1.symm, hb2.trans ha2.symm⟩
  funext l
  by_cases hl : RecoveryCell v l
  · cases l with
    | head => exact hends.1
    | tail => exact hends.2
    | count => rw [ha.count_eq, hb.count_eq, h.liveCount_eq]
    | state i => rw [ha.state_eq i hl, hb.state_eq i hl, h.settledState_eq hl]
    | _ => exact hl.elim
  · exact hframe l hl

/-- **Recovery gives the same result on alike memories.** -/
theorem exec_recover_of_alike {v : View} (hv : v.Valid) {m m' : Mem} (h : Alike v m m') :
    Prog.exec (posixipcQueueRecover v) m' = Prog.exec (posixipcQueueRecover v) m := by
  obtain ⟨hrc, hrec⟩ := posixipcQueueRecover_spec hv m
  obtain ⟨hrc', hrec'⟩ := posixipcQueueRecover_spec hv m'
  refine Prod.ext (hrc'.trans hrc.symm) (hrec.ext h hrec' fun l hl => ?_)
  rw [(always_alike v m).last.frame l hl, (always_alike v m').last.frame l hl, h.frame l hl]

/-- A ring in which nothing is left to recover. -/
structure Normal (v : View) (m : Mem) : Prop where
  settled : ∀ i, i < v.depth → m (.state i) = queueEmpty ∨ m (.state i) = queueReady
  count_eq : m .count = Nat.count (fun i => m (.state i) = queueReady) v.depth
  count_le : m .count ≤ v.depth
  head_lt : m .head < v.depth
  tail_lt : m .tail < v.depth

theorem Recovered.normal {v : View} (hv : v.Valid) {m m' : Mem} (h : Recovered v m m') :
    Normal v m' := by
  have hready : ∀ i, i < v.depth → (m' (.state i) = queueReady ↔ Live m i) := by
    intro i hi
    rw [h.state_eq i hi]
    by_cases hl : Live m i
    · exact iff_of_true (settledState_of_live hl) hl
    · rw [settledState_of_not_live hl]
      exact iff_of_false (by decide) hl
  have hcount : Nat.count (fun i => m' (.state i) = queueReady) v.depth = liveCount v m := by
    unfold liveCount
    simp only [Nat.count_eq_card_filter_range]
    congr 1
    apply Finset.filter_congr
    intro i hi
    exact hready i (Finset.mem_range.mp hi)
  have hpos := hv.depth_pos
  have hends : m' .head < v.depth ∧ m' .tail < v.depth := by
    by_cases h0 : liveCount v m = 0
    · obtain ⟨h1, h2⟩ := h.empty h0
      rw [h1, h2]
      exact ⟨hpos, hpos⟩
    · obtain ⟨j, hj, hl, hmin⟩ := exists_first_live h0
      obtain ⟨h1, h2⟩ := h.first j hj hl hmin
      rw [h1, h2]
      exact ⟨hj, Nat.mod_lt _ hpos⟩
  refine ⟨fun i hi => h.settled hi, ?_, ?_, hends.1, hends.2⟩
  · rw [h.count_eq, hcount]
  · rw [h.count_eq]
    exact liveCount_le v m

/-- **Recovery normalises any content and can itself be interrupted**: for every view of
`posixipc_queue_map` and every content, a run returns `0` and leaves a normal ring with the
geometry, the flags and the payload as they were; a run on a memory in which an earlier run
has died anywhere, or has ended, leaves the same content. -/
theorem recover_normalises {cacheline nbytes depth itemSize : ℕ} {bytes : Option ℕ} {v : View}
    (h : posixipcQueueMap cacheline bytes nbytes depth itemSize = .ok v) (m : Mem) :
    (∃ m', Prog.exec (posixipcQueueRecover v) m = (.ok, m') ∧ Normal v m' ∧
      m' .depth = m .depth ∧ m' .itemSize = m .itemSize ∧ m' .flags = m .flags ∧
      (∀ off, m' (.payload off) = m (.payload off)) ∧
      Prog.exec (posixipcQueueRecover v) m' = (.ok, m') ∧
      ∀ cut, Prog.CrashPoint (posixipcQueueRecover v) m cut →
        Prog.exec (posixipcQueueRecover v) cut = (.ok, m')) := by
  obtain ⟨hv, -, -⟩ := posixipcQueueMap_valid h
  obtain ⟨hrc, hrec⟩ := posixipcQueueRecover_spec hv m
  have halike := (always_alike v m).last
  have hrun : Prog.exec (posixipcQueueRecover v) m
      = (.ok, (Prog.exec (posixipcQueueRecover v) m).2) := Prod.ext hrc rfl
  refine ⟨_, hrun, hrec.normal hv, halike.frame _ id, halike.frame _ id, halike.frame _ id,
    fun off => halike.frame _ id, ?_, fun cut hcut => ?_⟩
  · rw [exec_recover_of_alike hv halike, hrun]
  · have hmid := (Prog.always_iff _ _ _).mp (always_alike v m) cut hcut
    rw [exec_recover_of_alike hv hmid, hrun]

/-- Three slots with a value that is no state, one item, and an item that was being taken. -/
def junkRing : Mem
  | .state 0 => 7
  | .state 1 => queueReservedGet
  | .state 2 => queueReady
  | _ => 9

theorem recover_normalises_junk :
    ∃ v, posixipcQueueMap 64 (some 0) 512 3 8 = .ok v ∧
      ∃ m', Prog.exec (posixipcQueueRecover v) junkRing = (.ok, m') ∧ Normal v m' := by
  have hmap : posixipcQueueMap 64 (some 0) 512 3 8 =
      .ok ⟨some 0, some 64, some 128, 3, 8, 64⟩ := by decide +kernel
  obtain ⟨m', hrun, hnormal, -⟩ := recover_normalises hmap junkRing
  exact ⟨_, hmap, m', hrun, hnormal⟩

end PosixIpc
