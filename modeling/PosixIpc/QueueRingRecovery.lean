/-
# Crash recovery of the queue ring

What a lock holder leaves behind when it dies inside `posixipc_queue_put` or
`posixipc_queue_get`, and what `posixipc_queue_recover` makes of it.

* `liveCell` : the cells that recovery keeps (`READY` or `RESERVED_GET`);
* `posixipcQueueRecover_spec` : recovery on an arbitrary memory;
* `callCrash_window` : every crash point of a call shows the contents before or after it;
* `recover_atomic_iff` : recovery is atomic and keeps FIFO order exactly when the kept
  cells lie in one piece, and, on a full ring, reading from slot `0` reads from `head`.
-/
import PosixIpc.QueueRingFifo

namespace PosixIpc

open StoreProg Word32 CyclicFifo

/-! ## The cells that recovery keeps -/

/-- Slot `i` holds an item that recovery keeps. -/
def Live (m : Mem) (i : ℕ) : Prop :=
  m (.state i) = queueReady ∨ m (.state i) = queueReservedGet

instance (m : Mem) : DecidablePred (Live m) := fun _ =>
  inferInstanceAs (Decidable (_ ∨ _))

theorem live_update_of_ne {m : Mem} {i j x : ℕ} (hj : j ≠ i) :
    Live (Function.update m (.state i) x) j ↔ Live m j := by
  simp [Live, hj]

/-- Slot `i` as recovery sees it. -/
def liveCell (v : View) (m : Mem) (i : ℕ) : Option Item :=
  if Live m i then some (itemAt v m i) else none

@[simp] theorem liveCell_isSome (v : View) (m : Mem) (i : ℕ) :
    (liveCell v m i).isSome ↔ Live m i := by
  unfold liveCell
  split <;> simp [*]

/-- The state in which the first loop of recovery leaves a slot. -/
def settledState (m : Mem) (i : ℕ) : ℕ := if Live m i then queueReady else queueEmpty

theorem settledState_of_live {m : Mem} {i : ℕ} (h : Live m i) :
    settledState m i = queueReady := if_pos h

theorem settledState_of_not_live {m : Mem} {i : ℕ} (h : ¬ Live m i) :
    settledState m i = queueEmpty := if_neg h

/-- The memory after the first loop has settled the slots from `i` on. -/
def settle (m : Mem) (i n : ℕ) : Mem
  | .state j => if i ≤ j ∧ j < i + n then settledState m j else m (.state j)
  | l => m l

/-! ## The two loops of recovery -/

/-- One round of the first loop, all five branches together. -/
theorem exec_recoverScan_succ (i n ready : ℕ) (m : Mem) :
    Prog.exec (recoverScan i (n + 1) ready) m =
      Prog.exec (recoverScan (i + 1) n (if Live m i then u32 (ready + 1) else ready))
        (Function.update m (.state i) (settledState m i)) := by
  rw [recoverScan, Prog.exec_bind, Prog.exec_read]
  by_cases h1 : m (.state i) = queueReservedPut
  · have hl : ¬ Live m i := by rw [Live, h1]; decide
    rw [if_pos h1, settledState_of_not_live hl, if_neg hl, Prog.exec_bind, Prog.exec_write]
  rw [if_neg h1]
  by_cases h2 : m (.state i) = queueReservedGet
  · have hl : Live m i := Or.inr h2
    rw [if_pos h2, settledState_of_live hl, if_pos hl, Prog.exec_bind, Prog.exec_write]
  rw [if_neg h2]
  by_cases h3 : m (.state i) = queueReady
  · have hl : Live m i := Or.inl h3
    rw [if_pos h3, settledState_of_live hl, if_pos hl, ← h3, Function.update_eq_self]
  have hl : ¬ Live m i := by
    rintro (h | h)
    · exact h3 h
    · exact h2 h
  rw [if_neg h3, settledState_of_not_live hl, if_neg hl]
  by_cases h4 : m (.state i) = queueEmpty
  · rw [if_neg (not_not.mpr h4), ← h4, Function.update_eq_self]
  · rw [if_pos h4, Prog.exec_bind, Prog.exec_write]

/-- Settling slot `i` first and the later ones after it. -/
theorem settle_succ (m : Mem) (i n : ℕ) :
    settle (Function.update m (.state i) (settledState m i)) (i + 1) n = settle m i (n + 1) := by
  funext l
  cases l with
  | state j =>
      by_cases hj : j = i
      · subst hj
        simp [settle]
      · have hset : settledState (Function.update m (.state i) (settledState m i)) j =
            settledState m j := by
          unfold settledState
          simp only [live_update_of_ne hj]
        have hrange : (i + 1 ≤ j ∧ j < i + 1 + n) ↔ (i ≤ j ∧ j < i + (n + 1)) := by omega
        simp only [settle, hset, hrange, Function.update_of_ne (show Loc.state j ≠ .state i by
          simpa using hj)]
  | _ => simp [settle]

/-- **The first loop** settles every slot and counts the live ones. -/
theorem exec_recoverScan (i n ready : ℕ) (m : Mem) (hfit : ready + n < 2 ^ 32) :
    Prog.exec (recoverScan i n ready) m =
      (ready + Nat.count (fun j => Live m (i + j)) n, settle m i n) := by
  induction n generalizing i ready m with
  | zero =>
      have hm : settle m i 0 = m := by
        funext l
        cases l with
        | state j => simp only [settle, if_neg (show ¬ (i ≤ j ∧ j < i + 0) by omega)]
        | _ => rfl
      rw [recoverScan, Prog.exec_pure, hm, Nat.count_zero, Nat.add_zero]
  | succ n ih =>
      have hcount : Nat.count (fun j => Live (Function.update m (.state i) (settledState m i))
          (i + 1 + j)) n = Nat.count (fun j => Live m (i + (j + 1))) n := by
        have hiff : ∀ j, Live (Function.update m (.state i) (settledState m i)) (i + 1 + j) ↔
            Live m (i + (j + 1)) := by
          intro j
          rw [live_update_of_ne (by omega), show i + 1 + j = i + (j + 1) by omega]
        simp only [hiff]
      rw [exec_recoverScan_succ, Nat.count_succ']
      by_cases hl : Live m i
      · rw [if_pos hl, if_pos (by simpa using hl), u32_of_lt (by omega),
          ih _ _ _ (by omega), settle_succ, hcount]
        congr 1
        omega
      · rw [if_neg hl, if_neg (by simpa using hl), ih _ _ _ (by omega), settle_succ, hcount]
        rfl

/-- **The second loop** stops at the first `READY` slot. -/
theorem exec_recoverHead {i n j : ℕ} {m : Mem} (h1 : i ≤ j) (h2 : j < i + n)
    (hj : m (.state j) = queueReady) (hfirst : ∀ k, i ≤ k → k < j → m (.state k) ≠ queueReady) :
    Prog.exec (recoverHead i n) m = ((), Function.update m .head j) := by
  induction n generalizing i with
  | zero => omega
  | succ n ih =>
      rw [recoverHead, Prog.exec_bind, Prog.exec_read]
      by_cases hij : i = j
      · subst hij
        rw [if_pos hj, Prog.exec_write]
      · rw [if_neg (hfirst i le_rfl (by omega))]
        exact ih (by omega) (by omega) (fun k hk hkj => hfirst k (by omega) hkj)

/-! ## Recovery -/

/-- The number of live slots. -/
def liveCount (v : View) (m : Mem) : ℕ := Nat.count (Live m) v.depth

/-- The control words that recovery computes from the states of a memory `m`. -/
structure Recovered (v : View) (m m' : Mem) : Prop where
  count_eq : m' .count = liveCount v m
  state_eq : ∀ i, i < v.depth → m' (.state i) = settledState m i
  payload_eq : ∀ off, m' (.payload off) = m (.payload off)
  empty : liveCount v m = 0 → m' .head = 0 ∧ m' .tail = 0
  first : ∀ j, j < v.depth → Live m j → (∀ k, k < j → ¬ Live m k) →
    m' .head = j ∧ m' .tail = (j + liveCount v m) % v.depth

theorem liveCount_le (v : View) (m : Mem) : liveCount v m ≤ v.depth := Nat.count_le _

/-- The first live slot, if there is one. -/
theorem exists_first_live {v : View} {m : Mem} (h0 : liveCount v m ≠ 0) :
    ∃ j, j < v.depth ∧ Live m j ∧ ∀ k, k < j → ¬ Live m k := by
  have hex : ∃ j, j < v.depth ∧ Live m j := Nat.count_ne_iff_exists.mp h0
  refine ⟨Nat.find hex, (Nat.find_spec hex).1, (Nat.find_spec hex).2, ?_⟩
  intro k hk hlk
  have := (Nat.find_spec hex).1
  exact Nat.find_min hex hk ⟨by omega, hlk⟩

theorem settle_state_iff {v : View} {m : Mem} {i : ℕ} (hi : i < v.depth) :
    settle m 0 v.depth (.state i) = queueReady ↔ Live m i := by
  have hr : 0 ≤ i ∧ i < 0 + v.depth := by omega
  simp only [settle, hr, and_self, if_true]
  by_cases hl : Live m i
  · simp [settledState_of_live hl, hl]
  · have hne : queueEmpty ≠ queueReady := by decide
    simp [settledState_of_not_live hl, hl, hne]

/-- **Recovery on an arbitrary memory.** -/
theorem posixipcQueueRecover_spec {v : View} (hv : v.Valid) (m : Mem) :
    (Prog.exec (posixipcQueueRecover v) m).1 = .ok ∧
      Recovered v m (Prog.exec (posixipcQueueRecover v) m).2 := by
  have hnull : ¬ (v.ctrl = none ∨ v.state = none) := by
    rintro (h | h)
    · exact hv.ctrl_ne h
    · exact hv.state_ne h
  have hd31 := hv.depth_lt
  have hle := liveCount_le v m
  have hscan : Prog.exec (recoverScan 0 v.depth 0) m = (liveCount v m, settle m 0 v.depth) := by
    rw [exec_recoverScan 0 v.depth 0 m (by omega)]
    simp [liveCount]
  have hstate : ∀ i, i < v.depth → settle m 0 v.depth (.state i) = settledState m i := by
    intro i hi
    simp [settle, hi]
  rw [posixipcQueueRecover, if_neg hnull, Prog.exec_bind, hscan]
  simp only [Prog.exec_bind, Prog.exec_write]
  by_cases h0 : liveCount v m = 0
  · rw [if_pos h0]
    simp only [Prog.exec_bind, Prog.exec_write, Prog.exec_pure, true_and]
    constructor
    · simp
    · intro i hi
      simpa using hstate i hi
    · intro off
      simp [settle]
    · intro _
      simp
    · intro j hj hl _
      exact absurd hl (Nat.count_iff_forall_not.mp h0 j hj)
  · rw [if_neg h0]
    obtain ⟨j, hj, hl, hmin⟩ := exists_first_live h0
    have hhead := exec_recoverHead (i := 0) (n := v.depth) (j := j)
      (m := Function.update (settle m 0 v.depth) .count (liveCount v m)) (Nat.zero_le j)
      (by omega) (by simpa using (settle_state_iff hj).mpr hl)
      (fun k _ hk => by
        simpa using fun h => hmin k hk ((settle_state_iff (by omega)).mp h))
    simp only [Prog.exec_bind, hhead, Prog.exec_read, Prog.exec_write, Prog.exec_pure, true_and,
      Function.update_self]
    rw [u32_of_lt (by omega)]
    constructor
    · simp
    · intro i hi
      simpa using hstate i hi
    · intro off
      simp [settle]
    · intro h
      omega
    · intro k hk hlk hmink
      have hkj : k = j := by
        rcases Nat.lt_trichotomy k j with h | h | h
        · exact absurd hlk (hmin k h)
        · exact h
        · exact absurd hl (hmink j h)
      subst hkj
      simp

/-- The items that recovery keeps are the `READY` cells afterwards. -/
theorem Recovered.cell_eq {v : View} {m m' : Mem} (hr : Recovered v m m') {i : ℕ}
    (hi : i < v.depth) : cell v m' i = liveCell v m i := by
  have hitem : itemAt v m' i = itemAt v m i := itemAt_congr fun j _ => hr.payload_eq _
  unfold cell liveCell
  rw [hr.state_eq i hi, hitem]
  by_cases hl : Live m i
  · rw [settledState_of_live hl, if_pos rfl, if_pos hl]
  · rw [settledState_of_not_live hl, if_neg (by decide), if_neg hl]

/-- Recovery puts every slot into one of the two settled states. -/
theorem Recovered.settled {v : View} {m m' : Mem} (hr : Recovered v m m') {i : ℕ}
    (hi : i < v.depth) : m' (.state i) = queueEmpty ∨ m' (.state i) = queueReady := by
  rw [hr.state_eq i hi]
  unfold settledState
  split
  · exact Or.inr rfl
  · exact Or.inl rfl

/-! ## Draining -/

/-- Call `posixipc_queue_get` until it fails, at most `fuel` times: the items delivered
and the code of the last call. -/
def drain (v : View) : ℕ → Mem → List Item × Rc
  | 0, _ => ([], .ok)
  | fuel + 1, m =>
    match Prog.exec (posixipcQueueGet v) m with
    | ((.ok, x), m') => let r := drain v fuel m'; (x :: r.1, r.2)
    | ((rc, _), _) => ([], rc)

/-- A ring with the invariant drains to its contents. -/
theorem RingInv.drain_eq {v : View} (hv : v.Valid) {m : Mem} {q : List Item}
    (h : RingInv v m q) {f : ℕ} (hf : q.length < f) :
    drain v f m = (q, .eagain) := by
  induction q generalizing m f with
  | nil =>
      obtain ⟨n, rfl⟩ : ∃ n, f = n + 1 := ⟨f - 1, by simp at hf; omega⟩
      rw [drain, posixipcQueueGet_spec hv h]
  | cons x q ih =>
      simp only [List.length_cons] at hf
      obtain ⟨n, rfl⟩ : ∃ n, f = n + 1 := ⟨f - 1, by omega⟩
      rw [drain, posixipcQueueGet_spec hv h]
      simp only [ih (ringInv_getMem hv h) (f := n) (by omega)]

/-- A drain that meets an `EMPTY` slot while `count` is positive fails with `EINVAL`. -/
theorem drain_einval {v : View} (hv : v.Valid) {m : Mem} {k f : ℕ} (hf : k < f)
    (hk : m .head + k < v.depth) (hcount : k < m .count) (hc31 : m .count < 2 ^ 32)
    (hready : ∀ j, j < k → m (.state (m .head + j)) = queueReady)
    (hgap : m (.state (m .head + k)) ≠ queueReady) : (drain v f m).2 = .einval := by
  have hd31 := hv.depth_lt
  induction k generalizing m f with
  | zero =>
      obtain ⟨n, rfl⟩ : ∃ n, f = n + 1 := ⟨f - 1, by omega⟩
      have hc : m .count ≠ 0 := by omega
      have hh : ¬ m .head ≥ v.depth := by omega
      have hst : m (.state (m .head)) ≠ queueReady := hgap
      have hget : Prog.exec (posixipcQueueGet v) m = ((.einval, []), m) := by
        rw [posixipcQueueGet, if_neg hv.ctrl_ne, Prog.exec_bind, Prog.exec_read, if_neg hc,
          Prog.exec_bind, Prog.exec_read, if_neg hh, Prog.exec_bind, Prog.exec_read,
          if_pos hst, Prog.exec_pure]
      rw [drain, hget]
  | succ k ih =>
      obtain ⟨n, rfl⟩ : ∃ n, f = n + 1 := ⟨f - 1, by omega⟩
      have hhead : getMem v m (m .head) .head = m .head + 1 := by
        rw [getMem_head, u32_of_lt (by omega), Nat.mod_eq_of_lt (by omega)]
      have hcnt : getMem v m (m .head) .count + 1 = m .count := by
        rw [getMem_count]
        obtain ⟨c, hc⟩ : ∃ c, m .count = c + 1 := ⟨m .count - 1, by omega⟩
        rw [hc, dec32_succ (by omega)]
      have hst : ∀ j, getMem v m (m .head) (.state (m .head + 1 + j)) =
          m (.state (m .head + (j + 1))) := by
        intro j
        rw [getMem_state, if_neg (by omega), show m .head + 1 + j = m .head + (j + 1) by omega]
      rw [drain, exec_posixipcQueueGet hv (by omega) (by omega) (hready 0 (by omega))]
      refine ih (by omega) (by rw [hhead]; omega) (by omega) (by omega) ?_ ?_
      · intro j hj
        rw [hhead, hst]
        exact hready (j + 1) (by omega)
      · rw [hhead, hst]
        exact hgap

/-! ## Crash points -/

/-- What a dead lock holder left behind: a window of live cells that shows `q`, with
`head` in place when the window fills the ring. -/
structure Wreck (v : View) (m : Mem) (q : List Item) : Prop where
  length_le : q.length ≤ v.depth
  window : ∃ h, h < v.depth ∧ Shows v.depth h (liveCell v m) q ∧
    (q.length = v.depth → m .head = h)

/-- `m'` is a memory in which a call on `m` may have died. -/
def CallCrash (v : View) (m : Mem) : Call → Mem → Prop
  | .put data, m' => Prog.CrashPoint (posixipcQueuePut v data) m m'
  | .get, m' => Prog.CrashPoint (posixipcQueueGet v) m m'
  | .qsize, m' => Prog.CrashPoint (posixipcQueueQsize v) m m'

/-- Outside a call every item is kept and nothing else. -/
theorem RingInv.liveCell_eq {v : View} {m : Mem} {q : List Item} (h : RingInv v m q) {i : ℕ}
    (hi : i < v.depth) : liveCell v m i = cell v m i := by
  rcases h.settled i hi with hs | hs
  · have hl : ¬ Live m i := by rw [Live, hs]; decide
    rw [liveCell, if_neg hl, cell, hs, if_neg (by decide)]
  · have hl : Live m i := Or.inl hs
    rw [liveCell, if_pos hl, cell, if_pos hs]

/-- A holder that has not touched the ring leaves its contents. -/
theorem RingInv.wreck {v : View} {m : Mem} {q : List Item} (h : RingInv v m q) :
    Wreck v m q := by
  have hd : 0 < v.depth := by have := h.head_lt; omega
  exact ⟨h.length_le, m .head, h.head_lt,
    h.shows.congr hd fun i hi => h.liveCell_eq hi, fun _ => rfl⟩

/-- Two memories that agree on a slot show the same live cell. -/
theorem liveCell_congr {v : View} {m m' : Mem} {i : ℕ} (hs : m' (.state i) = m (.state i))
    (hp : itemAt v m' i = itemAt v m i) : liveCell v m' i = liveCell v m i := by
  have hl : Live m' i ↔ Live m i := by rw [Live, Live, hs]
  simp only [liveCell, hl, hp]

theorem liveCell_eq_none {v : View} {m : Mem} {i : ℕ} (hs : ¬ Live m i) :
    liveCell v m i = none := if_neg hs

/-- The control words do not matter to the cells. -/
theorem liveCell_update_word {v : View} {m : Mem} {l : Loc} {x i : ℕ}
    (hs : ∀ j, Loc.state j ≠ l) (hp : ∀ off, Loc.payload off ≠ l) :
    liveCell v (Function.update m l x) i = liveCell v m i := by
  apply liveCell_congr
  · exact Function.update_of_ne (hs i) _ _
  · apply itemAt_congr
    intro j _
    exact Function.update_of_ne (hp _) _ _

/-- Changing the state of slot `t` changes no other cell. -/
theorem liveCell_update_state {v : View} {m : Mem} {t x i : ℕ} (hi : i ≠ t) :
    liveCell v (Function.update m (.state t) x) i = liveCell v m i := by
  apply liveCell_congr
  · exact Function.update_of_ne (by simpa using hi) _ _
  · apply itemAt_congr
    intro j _
    exact Function.update_of_ne (by simp) _ _

/-- A copy into slot `t` that is cut off anywhere changes no word and no other cell. -/
theorem crashPoint_memcpyIn {v : View} (hv : v.Valid) {t : ℕ} {data : ℕ → UInt8} {m m' : Mem}
    (hc : Prog.CrashPoint (memcpyIn v t data) m m') :
    (∀ l, (∀ off, l ≠ .payload off) → m' l = m l) ∧
      ∀ i, i ≠ t → liveCell v m' i = liveCell v m i := by
  have hword : ∀ l, (∀ off, l ≠ .payload off) → m' l = m l := by
    intro l hl
    exact crashPoint_forFrom_frame hc fun _ _ _ => hl _
  refine ⟨hword, ?_⟩
  intro i hi
  apply liveCell_congr
  · exact hword _ (by simp)
  · apply itemAt_congr
    intro j hj
    apply crashPoint_forFrom_frame hc
    intro k _ hk
    exact payload_ne hv hj (by omega) hi

/-- `head` and every slot but `t` are as in `m`. -/
structure SameBut (v : View) (m : Mem) (t : ℕ) (m' : Mem) : Prop where
  head_eq : m' .head = m .head
  cell_eq : ∀ i, i ≠ t → liveCell v m' i = liveCell v m i

theorem SameBut.refl (v : View) (m : Mem) (t : ℕ) : SameBut v m t m := ⟨rfl, fun _ _ => rfl⟩

theorem SameBut.update_state {v : View} {m m' : Mem} {t x : ℕ} (h : SameBut v m t m') :
    SameBut v m t (Function.update m' (.state t) x) :=
  ⟨by simpa using h.head_eq, fun i hi => by rw [liveCell_update_state hi, h.cell_eq i hi]⟩

theorem SameBut.update_tail {v : View} {m m' : Mem} {t x : ℕ} (h : SameBut v m t m') :
    SameBut v m t (Function.update m' .tail x) :=
  ⟨by simpa using h.head_eq, fun i hi => by
    rw [liveCell_update_word (by simp) (by simp), h.cell_eq i hi]⟩

theorem SameBut.update_count {v : View} {m m' : Mem} {t x : ℕ} (h : SameBut v m t m') :
    SameBut v m t (Function.update m' .count x) :=
  ⟨by simpa using h.head_eq, fun i hi => by
    rw [liveCell_update_word (by simp) (by simp), h.cell_eq i hi]⟩

theorem SameBut.memcpyIn {v : View} (hv : v.Valid) {m m1 m' : Mem} {t : ℕ} {data : ℕ → UInt8}
    (h : SameBut v m t m1) (hc : Prog.CrashPoint (memcpyIn v t data) m1 m') :
    SameBut v m t m' := by
  obtain ⟨hword, hcell⟩ := crashPoint_memcpyIn hv hc
  refine ⟨by rw [hword _ (by simp), h.head_eq], ?_⟩
  intro i hi
  rw [hcell i hi, h.cell_eq i hi]

/-- **Crash points of a put** that found a free slot: the other slots are untouched, and
the slot at `tail` is still free or holds the whole new item. -/
theorem posixipcQueuePut_crash {v : View} (hv : v.Valid) {m m' : Mem} {q : List Item}
    (h : RingInv v m q) (hlt : q.length < v.depth) {data : ℕ → UInt8}
    (hc : Prog.CrashPoint (posixipcQueuePut v data) m m') :
    SameBut v m (m .tail) m' ∧
      (liveCell v m' (m .tail) = none ∨ liveCell v m' (m .tail) = some (bytesOf v data)) := by
  have htlt : m .tail < v.depth := by rw [h.tail_eq]; exact Nat.mod_lt _ hv.depth_pos
  have hcount : ¬ m .count ≥ v.depth := by rw [h.count_eq]; omega
  have hfree : liveCell v m (m .tail) = none := by
    rw [h.liveCell_eq htlt, h.tail_eq, h.shows q.length hlt, List.getElem?_eq_none le_rfl]
  rw [posixipcQueuePut, if_neg hv.ctrl_ne, Prog.crashPoint_bind, Prog.crashPoint_read,
    Prog.exec_read, if_neg hcount, Prog.crashPoint_bind, Prog.crashPoint_read, Prog.exec_read,
    if_neg (not_le.mpr htlt)] at hc
  simp only [Prog.crashPoint_bind, Prog.crashPoint_write, Prog.crashPoint_read,
    Prog.crashPoint_pure, Prog.exec_write, Prog.exec_read] at hc
  set t := m .tail with ht
  set m1 := Function.update m (.state t) queueReservedPut with hm1
  have hs1 : SameBut v m t m1 := (SameBut.refl v m t).update_state
  have hdead : ∀ mc, Prog.CrashPoint (memcpyIn v t data) m1 mc → liveCell v mc t = none := by
    intro mc hmc
    apply liveCell_eq_none
    rw [Live, (crashPoint_memcpyIn hv hmc).1 _ (by simp), hm1, Function.update_self]
    decide
  set m2 := (Prog.exec (memcpyIn v t data) m1).2 with hm2
  have hs2 : SameBut v m t m2 := hs1.memcpyIn hv (Prog.crashPoint_exec _ _)
  set m3 := Function.update m2 (.state t) queueReady with hm3
  have hitem : liveCell v m3 t = some (bytesOf v data) := by
    have hl : Live m3 t := Or.inl (by rw [hm3, Function.update_self])
    rw [liveCell, if_pos hl, ← itemAt_memcpyIn_self v t data m1, ← hm2]
    congr 1
  have hs3 : SameBut v m t m3 := hs2.update_state
  set m4 := Function.update m3 .tail (u32 (t + 1) % v.depth) with hm4
  have hs4 : SameBut v m t m4 := hs3.update_tail
  have hitem4 : liveCell v m4 t = some (bytesOf v data) := by
    rw [hm4, liveCell_update_word (by simp) (by simp), hitem]
  set m5 := Function.update m4 .count (u32 (m4 .count + 1)) with hm5
  have hitem5 : liveCell v m5 t = some (bytesOf v data) := by
    rw [hm5, liveCell_update_word (by simp) (by simp), hitem4]
  have hkeep : SameBut v m t m ∧
      (liveCell v m t = none ∨ liveCell v m t = some (bytesOf v data)) :=
    ⟨SameBut.refl v m t, Or.inl hfree⟩
  rcases hc with rfl | rfl | (rfl | rfl) | hcopy | (rfl | rfl) | (rfl | rfl) | rfl |
    (rfl | rfl) | rfl
  · exact hkeep
  · exact hkeep
  · exact hkeep
  · exact ⟨hs1, Or.inl (hdead m1 (Prog.crashPoint_self _ _))⟩
  · exact ⟨hs1.memcpyIn hv hcopy, Or.inl (hdead m' hcopy)⟩
  · exact ⟨hs2, Or.inl (hdead m2 (Prog.crashPoint_exec _ _))⟩
  · exact ⟨hs3, Or.inr hitem⟩
  · exact ⟨hs3, Or.inr hitem⟩
  · exact ⟨hs4, Or.inr hitem4⟩
  · exact ⟨hs4, Or.inr hitem4⟩
  · exact ⟨hs4, Or.inr hitem4⟩
  · exact ⟨hs4.update_count, Or.inr hitem5⟩
  · exact ⟨hs4.update_count, Or.inr hitem5⟩

/-- A copy out of the payload changes nothing. -/
theorem crashPoint_memcpyOut {off n : ℕ} {m m' : Mem}
    (hc : Prog.CrashPoint (memcpyOut off n) m m') : m' = m := by
  induction n generalizing off with
  | zero => simpa [memcpyOut] using hc
  | succ n ih =>
      simp only [memcpyOut, Prog.crashPoint_bind, Prog.crashPoint_read, Prog.exec_read,
        exec_memcpyOut, Prog.crashPoint_pure] at hc
      rcases hc with rfl | hc | rfl
      · rfl
      · exact ih hc
      · rfl

/-- **Crash points of a get** that found an item: all cells are as before, `head`
included, or exactly the oldest one is gone. -/
theorem posixipcQueueGet_crash {v : View} (hv : v.Valid) {m m' : Mem} {x : Item}
    {q : List Item} (h : RingInv v m (x :: q))
    (hc : Prog.CrashPoint (posixipcQueueGet v) m m') :
    (m' .head = m .head ∧ ∀ i, liveCell v m' i = liveCell v m i) ∨
      (liveCell v m' (m .head) = none ∧
        ∀ i, i ≠ m .head → liveCell v m' i = liveCell v m i) := by
  obtain ⟨hr, -⟩ := h.head_ready
  have hcount : m .count ≠ 0 := by rw [h.count_eq]; simp
  rw [posixipcQueueGet, if_neg hv.ctrl_ne, Prog.crashPoint_bind, Prog.crashPoint_read,
    Prog.exec_read, if_neg hcount, Prog.crashPoint_bind, Prog.crashPoint_read, Prog.exec_read,
    if_neg (not_le.mpr h.head_lt), Prog.crashPoint_bind, Prog.crashPoint_read, Prog.exec_read,
    if_neg (not_not.mpr hr)] at hc
  simp only [Prog.crashPoint_bind, Prog.crashPoint_write, Prog.crashPoint_read,
    Prog.crashPoint_pure, Prog.exec_write, Prog.exec_read, exec_memcpyOut] at hc
  set t := m .head with ht
  set m1 := Function.update m (.state t) queueReservedGet with hm1
  have hlive : liveCell v m1 t = liveCell v m t := by
    have hl1 : Live m1 t := Or.inr (by rw [hm1, Function.update_self])
    have hl : Live m t := Or.inl hr
    rw [liveCell, if_pos hl1, liveCell, if_pos hl]
    congr 1
  have hone : m1 .head = t ∧ ∀ i, liveCell v m1 i = liveCell v m i := by
    refine ⟨by simp [hm1, ht], ?_⟩
    intro i
    by_cases hi : i = t
    · rw [hi, hlive]
    · exact liveCell_update_state hi
  set m2 := Function.update m1 (.state t) queueEmpty with hm2
  have htwo : liveCell v m2 t = none ∧ ∀ i, i ≠ t → liveCell v m2 i = liveCell v m i := by
    refine ⟨?_, ?_⟩
    · apply liveCell_eq_none
      rw [Live, hm2, Function.update_self]
      decide
    · intro i hi
      rw [hm2, liveCell_update_state hi, hone.2 i]
  have hword : ∀ (mc : Mem) (l : Loc) (y : ℕ), (∀ j, Loc.state j ≠ l) →
      (∀ off, Loc.payload off ≠ l) →
      (liveCell v mc t = none ∧ ∀ i, i ≠ t → liveCell v mc i = liveCell v m i) →
      liveCell v (Function.update mc l y) t = none ∧
        ∀ i, i ≠ t → liveCell v (Function.update mc l y) i = liveCell v m i := by
    intro mc l y hs hp hmc
    refine ⟨by rw [liveCell_update_word hs hp, hmc.1], ?_⟩
    intro i hi
    rw [liveCell_update_word hs hp, hmc.2 i hi]
  set m3 := Function.update m2 .head (u32 (t + 1) % v.depth) with hm3
  have hthree := hword m2 .head (u32 (t + 1) % v.depth) (by simp) (by simp) htwo
  have hfour := hword m3 .count (dec32 (m3 .count)) (by simp) (by simp) hthree
  have hkeep : m .head = t ∧ ∀ i, liveCell v m i = liveCell v m i := ⟨rfl, fun _ => rfl⟩
  rcases hc with rfl | rfl | rfl | (rfl | rfl) | hcopy | (rfl | rfl) | (rfl | rfl) | rfl |
    (rfl | rfl) | rfl
  · exact Or.inl hkeep
  · exact Or.inl hkeep
  · exact Or.inl hkeep
  · exact Or.inl hkeep
  · exact Or.inl hone
  · rw [crashPoint_memcpyOut hcopy]
    exact Or.inl hone
  · exact Or.inl hone
  · exact Or.inr htwo
  · exact Or.inr htwo
  · exact Or.inr hthree
  · exact Or.inr hthree
  · exact Or.inr hthree
  · exact Or.inr hfour
  · exact Or.inr hfour

/-- A call that fails its first test leaves nothing behind. -/
theorem callCrash_refused {v : View} (hv : v.Valid) {m m' : Mem} {q : List Item}
    (h : RingInv v m q) {c : Call} (hc : CallCrash v m c m')
    (href : (∃ data, c = .put data ∧ q.length = v.depth) ∨ (c = .get ∧ q = []) ∨ c = .qsize) :
    m' = m := by
  rcases href with ⟨data, rfl, hfull⟩ | ⟨rfl, rfl⟩ | rfl
  · have hcount : m .count ≥ v.depth := by rw [h.count_eq]; omega
    rw [CallCrash, posixipcQueuePut, if_neg hv.ctrl_ne, Prog.crashPoint_bind,
      Prog.crashPoint_read, Prog.exec_read, if_pos hcount, Prog.crashPoint_pure, or_self] at hc
    exact hc
  · have hcount : m .count = 0 := h.count_eq
    rw [CallCrash, posixipcQueueGet, if_neg hv.ctrl_ne, Prog.crashPoint_bind,
      Prog.crashPoint_read, Prog.exec_read, if_pos hcount, Prog.crashPoint_pure, or_self] at hc
    exact hc
  · rw [CallCrash, posixipcQueueQsize, if_neg hv.ctrl_ne, Prog.crashPoint_bind,
      Prog.crashPoint_read, Prog.exec_read, Prog.crashPoint_pure, or_self] at hc
    exact hc

/-- **Every crash point shows the contents before the call or after it.** -/
theorem callCrash_window {v : View} (hv : v.Valid) {m m' : Mem} {q : List Item}
    (h : RingInv v m q) {c : Call} (hc : CallCrash v m c m') :
    ∃ q', (q' = q ∨ q' = (specCall v q c).2) ∧ Wreck v m' q' := by
  have hd := hv.depth_pos
  have hle := h.length_le
  cases c with
  | qsize =>
      obtain rfl := callCrash_refused hv h hc (Or.inr (Or.inr rfl))
      exact ⟨q, Or.inl rfl, h.wreck⟩
  | put data =>
      by_cases hfull : q.length = v.depth
      · obtain rfl := callCrash_refused hv h hc (Or.inl ⟨data, rfl, hfull⟩)
        exact ⟨q, Or.inl rfl, h.wreck⟩
      · have hlt : q.length < v.depth := by omega
        have hafter : (specCall v q (.put data)).2 = q ++ [bytesOf v data] := by
          simp [specCall, BoundedFifo.put, hfull]
        obtain ⟨hsame, hcell⟩ := posixipcQueuePut_crash hv h hlt hc
        have hlive := h.wreck.window
        obtain ⟨-, -, hshows, -⟩ := hlive
        have hkeep : ∀ i, i < v.depth → i ≠ (m .head + q.length) % v.depth →
            liveCell v m' i = cell v m i := by
          intro i hi hne
          rw [hsame.cell_eq i (by rw [h.tail_eq]; exact hne), h.liveCell_eq hi]
        rw [h.tail_eq] at hcell
        rcases hcell with hnone | hsome
        · refine ⟨q, Or.inl rfl, hle, m .head, h.head_lt, ?_, fun hf => absurd hf hfull⟩
          refine h.shows.congr hd fun i hi => ?_
          by_cases hit : i = (m .head + q.length) % v.depth
          · rw [hit, hnone, h.shows q.length hlt, List.getElem?_eq_none le_rfl]
          · exact hkeep i hi hit
        · refine ⟨q ++ [bytesOf v data], Or.inr hafter.symm, by simp; omega, m .head, h.head_lt,
            h.shows.push hd hlt hsome hkeep, fun _ => hsame.head_eq⟩
  | get =>
      cases q with
      | nil =>
          obtain rfl := callCrash_refused hv h hc (Or.inr (Or.inl ⟨rfl, rfl⟩))
          exact ⟨[], Or.inl rfl, h.wreck⟩
      | cons x q =>
          simp only [List.length_cons] at hle
          rcases posixipcQueueGet_crash hv h hc with ⟨hhead, hcell⟩ | ⟨hnone, hcell⟩
          · refine ⟨x :: q, Or.inl rfl, h.length_le, m .head, h.head_lt, ?_, fun _ => hhead⟩
            exact h.shows.congr hd fun i hi => by rw [hcell i, h.liveCell_eq hi]
          · refine ⟨q, Or.inr rfl, by omega, (m .head + 1) % v.depth, Nat.mod_lt _ hd, ?_,
              fun hf => by omega⟩
            exact h.shows.pop h.head_lt (by omega) hnone fun i hi hne => by
              rw [hcell i hne, h.liveCell_eq hi]

/-! ## When recovery is atomic -/

/-- After recovery the ring holds exactly `q`: it drains to `q`, and whatever is called
next, puts included, is answered as the queue `q` would answer it. -/
structure RecoversTo (v : View) (m : Mem) (q : List Item) : Prop where
  returns : (Prog.exec (posixipcQueueRecover v) m).1 = .ok
  drains : drain v (v.depth + 1) (Prog.exec (posixipcQueueRecover v) m).2 = (q, .eagain)
  answers : ∀ cs, (runCalls v (Prog.exec (posixipcQueueRecover v) m).2 cs).1 =
    (specCalls v q cs).1

/-- The condition on the memory a dead holder left behind: the slots to keep lie in one
piece, and if they fill the ring, the items from `head` on are the items from `0` on. -/
structure RecoverySafe (v : View) (m : Mem) : Prop where
  contiguous : ∀ i j k, i ≤ j → j ≤ k → k < v.depth → Live m i → Live m k → Live m j
  unrotated : (∀ i, i < v.depth → Live m i) → ∀ j, j < v.depth →
    itemAt v m ((m .head + j) % v.depth) = itemAt v m j

theorem contiguous_iff {v : View} {m : Mem} : Contiguous v.depth (liveCell v m) ↔
    ∀ i j k, i ≤ j → j ≤ k → k < v.depth → Live m i → Live m k → Live m j := by
  simp only [Contiguous, liveCell_isSome]

theorem liveCount_eq {v : View} {m : Mem} {h : ℕ} {q : List Item} (hh : h < v.depth)
    (hs : Shows v.depth h (liveCell v m) q) (hq : q.length ≤ v.depth) :
    liveCount v m = q.length := by
  rw [liveCount, ← hs.count_isSome hh hq]
  simp only [liveCell_isSome]

/-- A recovered window that starts where recovery put `head` is a ring again. -/
theorem Recovered.ringInv {v : View} {m m' : Mem} {q : List Item} {h : ℕ}
    (hr : Recovered v m m') (hh : h < v.depth) (hs : Shows v.depth h (liveCell v m) q)
    (hq : q.length ≤ v.depth) (hhead : m' .head = h)
    (htail : m' .tail = (h + q.length) % v.depth) : RingInv v m' q := by
  constructor
  · rw [hhead]
    exact hh
  · rw [hr.count_eq, liveCount_eq hh hs hq]
  · exact hq
  · rw [htail, hhead]
  · intro i hi
    exact hr.settled hi
  · rw [hhead]
    exact hs.congr (by omega) fun i hi => hr.cell_eq hi

/-- On a full wreck every slot is live and recovery starts at slot `0`. -/
theorem Recovered.full {v : View} {m m' : Mem} {q : List Item} {h : ℕ}
    (hr : Recovered v m m') (hh : h < v.depth) (hs : Shows v.depth h (liveCell v m) q)
    (hfull : q.length = v.depth) :
    (∀ i, i < v.depth → Live m i) ∧ m' .head = 0 ∧ m' .tail = (0 + q.length) % v.depth := by
  have hlive : ∀ i, i < v.depth → Live m i := by
    intro i hi
    obtain ⟨j, hj, rfl⟩ := slot_surj hh hi
    rw [← liveCell_isSome v, hs.isSome_iff hj]
    omega
  obtain ⟨hhead, htail⟩ := hr.first 0 (by omega) (hlive 0 (by omega)) (fun k hk => by omega)
  exact ⟨hlive, hhead, by rw [htail, liveCount_eq hh hs (by omega)]⟩

/-- **Under the condition** recovery restores the ring of the wreck's contents. -/
theorem Wreck.ringInv {v : View} {m m' : Mem} {q : List Item} (hw : Wreck v m q)
    (hr : Recovered v m m') (hsafe : RecoverySafe v m) : RingInv v m' q := by
  obtain ⟨hq, h, hh, hs, hfullhead⟩ := hw
  have hcount := liveCount_eq hh hs hq
  rcases Nat.eq_zero_or_pos q.length with h0 | hpos
  · obtain rfl := List.length_eq_zero_iff.mp h0
    obtain ⟨hhead, htail⟩ := hr.empty (by rw [hcount]; rfl)
    exact hr.ringInv (by omega) (hs.empty_start hh) hq hhead (by simpa using htail)
  · by_cases hfull : q.length = v.depth
    · obtain ⟨hlive, hhead, htail⟩ := hr.full hh hs hfull
      refine hr.ringInv (h := 0) (by omega) ?_ hq hhead htail
      intro j hj
      have hrot := hsafe.unrotated hlive j hj
      rw [hfullhead hfull] at hrot
      rw [← hs j hj, Nat.zero_add, Nat.mod_eq_of_lt hj, liveCell, if_pos (hlive j hj), liveCell,
        if_pos (hlive _ (Nat.mod_lt _ (by omega))), hrot]
    · have hfit : h + q.length ≤ v.depth := by
        by_contra hwrap
        exact hs.not_contiguous_of_wrapped hh (by omega) (by omega)
          (contiguous_iff.mpr hsafe.contiguous)
      have hfirst : Live m h := by
        have hz := (hs.isSome_iff (j := 0) (by omega)).mpr hpos
        rwa [slot_lt (by omega), Nat.add_zero, liveCell_isSome] at hz
      have hmin : ∀ k, k < h → ¬ Live m k := by
        intro k hk hl
        have := hs.unwrapped_first hh hfit (i := k) (by omega) ((liveCell_isSome v m k).mpr hl)
        omega
      obtain ⟨hhead, htail⟩ := hr.first h hh hfirst hmin
      exact hr.ringInv hh hs hq hhead (by rw [htail, hcount])

/-- **Outside the condition** a drain after recovery fails, or delivers as many items as
there are but not the right ones. -/
theorem Wreck.drain_ne {v : View} (hv : v.Valid) {m m' : Mem} {q r : List Item}
    (hw : Wreck v m q) (hr : Recovered v m m') (hsafe : ¬ RecoverySafe v m)
    (hdrain : drain v (v.depth + 1) m' = (r, .eagain)) : r.length = q.length ∧ r ≠ q := by
  have hd31 := hv.depth_lt
  obtain ⟨hq, h, hh, hs, hfullhead⟩ := hw
  have hcount := liveCount_eq hh hs hq
  by_cases hfull : q.length = v.depth
  · obtain ⟨hlive, hhead, htail⟩ := hr.full hh hs hfull
    have hs0 : Shows v.depth 0 (liveCell v m) ((List.range v.depth).map (itemAt v m)) := by
      intro j hj
      rw [Nat.zero_add, Nat.mod_eq_of_lt hj, liveCell, if_pos (hlive j hj)]
      simp [hj]
    have hring := hr.ringInv (h := 0) (by omega) hs0 (by simp) hhead (by simp [htail, hfull])
    have heq := hring.drain_eq hv (f := v.depth + 1) (by simp)
    rw [hdrain] at heq
    obtain ⟨rfl, -⟩ := Prod.mk.inj heq
    refine ⟨by simp [hfull], ?_⟩
    intro hrq
    apply hsafe
    constructor
    · intro i j k _ hjk hk _ _
      exact hlive j (by omega)
    · intro _ j hj
      have h1 := hs j hj
      rw [← hrq, ← hs0 j hj, Nat.zero_add, Nat.mod_eq_of_lt hj, liveCell,
        if_pos (hlive _ (Nat.mod_lt _ (by omega))), liveCell, if_pos (hlive j hj)] at h1
      rw [hfullhead hfull]
      simpa using h1
  · -- the window wraps: recovery reads its second piece and runs into the gap
    exfalso
    have hwrap : v.depth < h + q.length := by
      by_contra hfit
      apply hsafe
      refine ⟨contiguous_iff.mp (hs.contiguous_of_unwrapped hh (by omega)), ?_⟩
      intro hall
      have hgap := hall ((h + q.length) % v.depth) (Nat.mod_lt _ (by omega))
      rw [← liveCell_isSome v, hs.isSome_iff (by omega)] at hgap
      omega
    have hlow : ∀ i, i < h + q.length - v.depth → Live m i := by
      intro i hi
      have hl := (hs.isSome_iff (j := i + v.depth - h) (by omega)).mpr (by omega)
      rwa [slot_wrap (by omega) (by omega),
        show h + (i + v.depth - h) - v.depth = i by omega, liveCell_isSome] at hl
    have hgap : ¬ Live m (h + q.length - v.depth) := by
      have hl := hs.isSome_iff (j := q.length) (by omega)
      rw [slot_wrap (by omega) (by omega), liveCell_isSome] at hl
      rw [hl]
      omega
    obtain ⟨hhead, -⟩ := hr.first 0 (by omega) (hlow 0 (by omega)) (fun k hk => by omega)
    have hstate : ∀ i, i < v.depth → Live m i → m' (.state i) = queueReady := by
      intro i hi hl
      rw [hr.state_eq i hi, settledState_of_live hl]
    have herr := drain_einval hv (m := m') (k := h + q.length - v.depth) (f := v.depth + 1)
      (by omega) (by omega) (by rw [hr.count_eq, hcount]; omega)
      (by rw [hr.count_eq, hcount]; omega)
      (fun j hj => by
        rw [hhead, Nat.zero_add]
        exact hstate j (by omega) (hlow j hj))
      (by
        rw [hhead, Nat.zero_add, hr.state_eq _ (by omega), settledState_of_not_live hgap]
        decide)
    rw [hdrain] at herr
    simp at herr

/-- A call that changes the contents changes their number. -/
theorem specCall_length (v : View) (q : List Item) (c : Call) :
    (specCall v q c).2 = q ∨ (specCall v q c).2.length ≠ q.length := by
  cases c with
  | put data =>
      by_cases hfull : q.length = v.depth
      · left
        simp [specCall, BoundedFifo.put, hfull]
      · right
        simp [specCall, BoundedFifo.put, hfull]
  | get =>
      cases q with
      | nil => exact Or.inl rfl
      | cons x q => exact Or.inr (by simp [specCall, BoundedFifo.get])
  | qsize => exact Or.inl rfl

/-- **Recovery is atomic exactly under `RecoverySafe`.**  For every geometry that
`posixipc_queue_map` accepts, every run of completed calls from
`posixipc_queue_init_ctrl` and every point at which the next call may die, recovery
restores the contents before or after that call iff the live slots lie in one piece and a
full ring is not rotated. -/
theorem recover_atomic_iff {cacheline nbytes depth itemSize : ℕ} {bytes : Option ℕ} {v : View}
    (hmap : posixipcQueueMap cacheline bytes nbytes depth itemSize = .ok v) (m : Mem)
    (cs : List Call) (c : Call) {m' : Mem}
    (hcrash : CallCrash v (runCalls v (Prog.exec (posixipcQueueInitCtrl v) m).2 cs).2 c m') :
    let before := (specCalls v [] cs).2
    let after := (specCall v before c).2
    (RecoversTo v m' before ∨ RecoversTo v m' after) ↔ RecoverySafe v m' := by
  intro before after
  obtain ⟨hv, -, -⟩ := posixipcQueueMap_valid hmap
  have hinv := (runCalls_spec hv (posixipcQueueInitCtrl_spec hv m).2 cs).2
  obtain ⟨q, hq, hw⟩ := callCrash_window hv hinv hcrash
  obtain ⟨hok, hr⟩ := posixipcQueueRecover_spec hv m'
  constructor
  · intro hrec
    by_contra hsafe
    obtain ⟨r, hmem, hto⟩ : ∃ r, (r = before ∨ r = after) ∧ RecoversTo v m' r := by
      rcases hrec with h | h
      · exact ⟨before, Or.inl rfl, h⟩
      · exact ⟨after, Or.inr rfl, h⟩
    obtain ⟨hlen, hne⟩ := hw.drain_ne hv hr hsafe hto.drains
    -- `r` and `q` are the contents before and after, of one length but different
    rcases specCall_length v before c with heq | hlt
    · apply hne
      rcases hmem with rfl | rfl <;> rcases hq with rfl | rfl
      · rfl
      · exact heq.symm
      · exact heq
      · rfl
    · rcases hmem with rfl | rfl <;> rcases hq with rfl | rfl
      · exact hne rfl
      · exact hlt hlen.symm
      · exact hlt hlen
      · exact hne rfl
  · intro hsafe
    have hring := hw.ringInv hr hsafe
    have hto : RecoversTo v m' q :=
      ⟨hok, hring.drain_eq hv (by have := hring.length_le; omega),
        fun cs => (runCalls_spec hv hring cs).1⟩
    rcases hq with rfl | rfl
    · exact Or.inl hto
    · exact Or.inr hto

/-- The view of three one-byte items on cache lines of 64 bytes. -/
def threeSlots : View := ⟨some 0, some 64, some 128, 3, 1, 64⟩

/-- Two items pass through, then two more are stored: they sit in slots `2` and `0`. -/
def wrappedCalls : List Call :=
  [.put fun _ => 7, .put fun _ => 8, .get, .get, .put fun _ => 9, .put fun _ => 10]

/-- The ring after `wrappedCalls`. -/
def wrappedMem : Mem :=
  (runCalls threeSlots (Prog.exec (posixipcQueueInitCtrl threeSlots) fun _ => 0).2
    wrappedCalls).2

/-- Two items in slots `0` and `1`, nothing wrapped. -/
def storedMem : Mem :=
  (runCalls threeSlots (Prog.exec (posixipcQueueInitCtrl threeSlots) fun _ => 0).2
    [.put fun _ => 7, .put fun _ => 8]).2

/-- A holder died in `get`: slot `0` is `EMPTY` again, `head` and `count` still name it. -/
def diedInGet : Mem := (posixipcQueueGet threeSlots).crash 6 storedMem

/-- A holder died in `put`: slot `2` is reserved and filled, but not yet `READY`. -/
def diedInPut : Mem := (posixipcQueuePut threeSlots fun _ => 9).crash 4 storedMem

/-- **Two interrupted calls.**  On the ring of `7` and `8` a `get` dies after it has
emptied its slot and before it moves `head`: recovery leaves `8`.  A `put` dies after its
payload and before `READY`: recovery leaves `7` and `8`. -/
theorem recover_atomic_iff_interrupted :
    posixipcQueueMap 64 (some 0) 320 3 1 = .ok threeSlots ∧
      (diedInGet (.state 0) = queueEmpty ∧ diedInGet .head = 0 ∧ diedInGet .count = 2) ∧
      RecoversTo threeSlots diedInGet [[8]] ∧
      (diedInPut (.state 2) = queueReservedPut ∧ diedInPut .count = 2) ∧
      RecoversTo threeSlots diedInPut [[7], [8]] := by
  have hmap : posixipcQueueMap 64 (some 0) 320 3 1 = .ok threeSlots := by decide
  -- both dead holders leave the kept slots in one piece and slot `2` free
  have hsafe : ∀ {m : Mem} {k : ℕ}, k ≤ 1 → Live m 1 → ¬ Live m 2 → (Live m 0 ↔ k = 0) →
      RecoverySafe threeSlots m := by
    intro m k hk h1 h2 h0
    refine ⟨?_, fun hall => absurd (hall 2 (by decide)) h2⟩
    intro i j l hij hjl hl hi hlive
    have hl3 : l < 3 := hl
    have hl2 : l ≠ 2 := by
      rintro rfl
      exact h2 hlive
    rcases Nat.eq_zero_or_pos j with rfl | hj
    · rwa [show i = 0 by omega] at hi
    · rwa [show j = 1 by omega]
  refine ⟨hmap, by decide +kernel, ?_, by decide +kernel, ?_⟩
  · have hiff := recover_atomic_iff hmap (fun _ => 0)
      [.put fun _ => 7, .put fun _ => 8] .get ⟨6, (rfl : _ = diedInGet)⟩
    rcases hiff.mpr (hsafe (k := 1) le_rfl (by decide +kernel) (by decide +kernel)
      (by decide +kernel)) with h | h
    · have hne : drain threeSlots 4 (Prog.exec (posixipcQueueRecover threeSlots) diedInGet).2
          ≠ ([[7], [8]], .eagain) := by decide +kernel
      exact absurd h.drains hne
    · exact h
  · have hiff := recover_atomic_iff hmap (fun _ => 0)
      [.put fun _ => 7, .put fun _ => 8] (.put fun _ => 9) ⟨4, (rfl : _ = diedInPut)⟩
    rcases hiff.mpr (hsafe (k := 0) (by decide) (by decide +kernel) (by decide +kernel)
      (by decide +kernel)) with h | h
    · exact h
    · have hne : drain threeSlots 4 (Prog.exec (posixipcQueueRecover threeSlots) diedInPut).2
          ≠ ([[7], [8], [9]], .eagain) := by decide +kernel
      exact absurd h.drains hne

/-- **A wrapped window is not recovered.**  The items `9`, `10` are in slots `2` and `0`;
recovery puts `head` at slot `0`, so the drain delivers `10` and then fails with `EINVAL`
at slot `1`, and `9` is lost. -/
theorem recover_wrapped_fails :
    posixipcQueueMap 64 (some 0) 320 3 1 = .ok threeSlots ∧
      CallCrash threeSlots wrappedMem .get wrappedMem ∧
      (specCalls threeSlots [] wrappedCalls).2 = [[9], [10]] ∧
      drain threeSlots 4 (Prog.exec (posixipcQueueRecover threeSlots) wrappedMem).2
        = ([[10]], .einval) ∧
      ¬ (RecoversTo threeSlots wrappedMem (specCalls threeSlots [] wrappedCalls).2 ∨
        RecoversTo threeSlots wrappedMem
          (specCall threeSlots (specCalls threeSlots [] wrappedCalls).2 .get).2) := by
  have hdrain : drain threeSlots 4 (Prog.exec (posixipcQueueRecover threeSlots) wrappedMem).2
      = ([[10]], .einval) := by decide +kernel
  refine ⟨by decide, Prog.crashPoint_self _ _, by decide, hdrain, ?_⟩
  rintro (h | h)
  · have heq := hdrain.symm.trans h.drains
    simp at heq
  · have heq := hdrain.symm.trans h.drains
    simp at heq

end PosixIpc
