/-
# Rebuilding a handle from a segment that nobody has compared

The `_attach_` functions open the segment by its name alone, so that the header and the directory
may hold anything.  They compare the indices with the slot count, in sums that wrap, and
`posixipc_shm_offset_ptr` compares with the end of the directory, also a sum that wraps.

* `Access.Inside` : a record or a pointer in the mapping, in exact numbers;
* `scanned` : how many records the test of the kinds reads;
* `Pickled.Safe` : what must hold of the segment and of the tuple;
* `notes_checkKinds`, `notes_bindSlot` and their siblings : the accesses of each part;
* `attachPickled_inside_iff` : all accesses stay in the mapping exactly under this condition;
* `attach_queue_reads_outside` : a first slot just below `2 ^ 32`.
-/
import PosixIpc.PickleAttach

namespace PosixIpc

open StoreProg TracedCall Word32

/-! ## In the mapping -/

/-- What a call does with the mapping stays in it, in exact numbers. -/
def Access.Inside (m : SegMem) : Access → Prop
  | .record i => headerBytes + 16 * (i + 1) ≤ m (.header .totalSize)
  | .ptr offset size =>
    headerBytes + m (.header .directoryBytes) ≤ offset ∧ offset + size ≤ m (.header .totalSize)

/-- `total_size` and the offsets are `uint32_t`. -/
structure WordCells (m : SegMem) : Prop where
  total : m (.header .totalSize) < 2 ^ 32
  offset : ∀ i, m (.dir i .offset) < 2 ^ 32

/-- The first `n` records lie in the mapping. -/
def DirectoryTo (m : SegMem) (n : ℕ) : Prop := headerBytes + 16 * n ≤ m (.header .totalSize)

/-- The end of the directory does not wrap, or no pointer is handed out for record `i`. -/
def PointersFrom (m : SegMem) (i : ℕ) : Prop :=
  headerBytes + m (.header .directoryBytes) < 2 ^ 32 ∨ ¬ (recordAt m i).Fits m

/-- How many records the test of the kinds reads: it stops behind the first that differs. -/
def scanned (recs : ℕ → Slot) (first : ℕ) : ℕ → List ℕ → ℕ
  | _, [] => 0
  | i, kind :: rest =>
    if (recs (u32 (first + i))).kind = kind then scanned recs first (i + 1) rest + 1 else 1

theorem scanned_pos (recs : ℕ → Slot) (first i : ℕ) {kinds : List ℕ} (h : kinds ≠ []) :
    0 < scanned recs first i kinds := by
  cases kinds with
  | nil => exact absurd rfl h
  | cons kind rest =>
    rw [scanned]
    split_ifs <;> omega

/-- A test that passes reads all records. -/
theorem scanned_eq {recs : ℕ → Slot} {first i : ℕ} {kinds : List ℕ}
    (h : KindsAt recs first i kinds) : scanned recs first i kinds = kinds.length := by
  induction kinds generalizing i with
  | nil => rfl
  | cons kind rest ih =>
    obtain ⟨hkind, hrest⟩ := kindsAt_cons.mp h
    rw [scanned, if_pos hkind, ih hrest, List.length_cons]

/-- The kinds of one slot, other than a Condition, that `_attach_slot` rebuilds. -/
def Platform.Rebuilds (p : Platform) (kind : ℕ) : Prop :=
  kind = kindMutex ∨ kind = kindRobustMutex ∨ kind = kindBytes ∨ kind = kindRwlock ∨
    kind = kindSem ∨ kind = kindBarrier ∧ p.haveBarrier = true ∨
    kind = kindSpin ∧ p.haveSpinTrylock = true

/-- The mutex slot of a Condition. -/
def MutexSafe (m : SegMem) (index : ℕ) : Prop :=
  index < m (.header .slotCount) → DirectoryTo m (index + 1) ∧
    ((recordAt m index).kind = kindMutex ∨ (recordAt m index).kind = kindRobustMutex →
      PointersFrom m index)

/-- The slots of a queue that needs `need` bytes. -/
def RingSafe (m : SegMem) (front : List ℕ) (need first digest : ℕ) : Prop :=
  m (.header .layoutDigest) = digest → u32 (first + (front.length + 1)) ≤ m (.header .slotCount) →
    m (.header .slotCount) ≠ 0 →
    DirectoryTo m (first + scanned (recordAt m) first 0 (front ++ [kindBytes])) ∧
      (KindsAt (recordAt m) first 0 (front ++ [kindBytes]) → need ≠ 0 →
        need ≤ (recordAt m (u32 (first + front.length))).size → PointersFrom m first)

/-- **The calls that stay in the mapping**: the call is refused in front of the directory, or the
directory up to the last record that the test of the kinds reads lies in the mapping, and the end
of the directory does not wrap if the test passes. -/
def Pickled.Safe (p : Platform) (m : SegMem) : Pickled → Prop
  | .slot index kind digest =>
    m (.header .layoutDigest) = digest → index < m (.header .slotCount) →
      DirectoryTo m (index + 1) ∧ ((recordAt m index).kind = kind →
        if kind = kindCond then MutexSafe m (recordAt m index).aux
        else p.Rebuilds kind → PointersFrom m index)
  | .array first count kind digest =>
    count ≠ 0 → m (.header .layoutDigest) = digest → first < m (.header .slotCount) →
      u32 (first + count) ≤ m (.header .slotCount) →
      DirectoryTo m (first + scanned (recordAt m) first 0 (List.replicate count kind)) ∧
        (KindsAt (recordAt m) first 0 (List.replicate count kind) → PointersFrom m first)
  | .queue first depth itemSize digest =>
    depth ≠ 0 → itemSize ≠ 0 →
      RingSafe m queueFront (posixipcQueueBytesSize p.cacheline depth itemSize) first digest
  | .futexQueue first depth itemSize digest =>
    depth ≠ 0 → itemSize ≠ 0 →
      RingSafe m futexQueueFront (posixipcFutexqBytesSize p.cacheline depth itemSize) first digest

/-- `slot` or `first`, an `unsigned int`. -/
def Pickled.first : Pickled → ℕ
  | .slot index _ _ => index
  | .array first _ _ _ => first
  | .queue first _ _ _ => first
  | .futexQueue first _ _ _ => first

section Inside

variable {m : SegMem} {s : Slot} {first i n : ℕ}

/-- A pointer that is handed out stays in the mapping if the end of the directory does not wrap. -/
theorem ptr_inside_iff (hoff : s.offset < 2 ^ 32) (hfit : s.Fits m) :
    (Access.ptr s.offset s.size).Inside m ↔
      headerBytes + m (.header .directoryBytes) < 2 ^ 32 := by
  have hstart := hfit.start
  constructor
  · exact fun h => lt_of_le_of_lt h.1 hoff
  · intro hwrap
    rw [u32_of_lt hwrap] at hstart
    exact ⟨hstart, hfit.stop⟩

theorem recordAt_offset_lt (hw : WordCells m) (i : ℕ) : (recordAt m i).offset < 2 ^ 32 :=
  hw.offset i

/-- Records one after the other lie in the mapping if the directory up to the last one does. -/
theorem records_inside_iff (hw : WordCells m) (hfirst : first < 2 ^ 32) (hn : 0 < n) :
    (∀ j < n, (Access.record (u32 (first + j))).Inside m) ↔ DirectoryTo m (first + n) := by
  have htotal := hw.total
  unfold Access.Inside DirectoryTo headerBytes
  constructor
  · intro h
    -- no index wraps, since the record in front of it lies in the mapping
    have hall : ∀ j < n, 64 + 16 * (first + j + 1) ≤ m (.header .totalSize) := by
      intro j
      induction j with
      | zero =>
        intro hj
        have hrec := h 0 hj
        rwa [Nat.add_zero, u32_of_lt hfirst] at hrec
      | succ j ih =>
        intro hj
        have hprev := ih (by omega)
        have hrec := h (j + 1) hj
        rwa [u32_of_lt (by omega)] at hrec
    have hlast := hall (n - 1) (by omega)
    rwa [show first + (n - 1) + 1 = first + n by omega] at hlast
  · intro h j hj
    rw [u32_of_lt (by omega)]
    omega

end Inside

/-! ## The accesses of the parts -/

section Parts

open Call

variable {p : Platform} {m : SegMem} {r : ℕ} {P : Access → Prop} {st : BindState}

theorem notes_dirRecord_bind {α : Type} (i : ℕ) (f : Slot → BindCall α) :
    Notes P (dirRecord m i >>= f) st ↔ P (.record i) ∧ Notes P (f (recordAt m i)) st := by
  have hrun : dirRecord m i st = ⟨[.record i], st, .ok (recordAt m i)⟩ := rfl
  rw [notes_bind_ok P hrun, List.forall_mem_singleton]

theorem notes_shmOffsetPtr_bind {α : Type} {s : Slot} (f : Ptr → BindCall α) :
    Notes P (shmOffsetPtr m r s >>= f) st ↔
      (s.Fits m → P (.ptr s.offset s.size) ∧ Notes P (f (s.ptr r)) st) := by
  by_cases hfit : s.Fits m
  · rw [notes_bind_ok P (shmOffsetPtr_run_fits hfit), List.forall_mem_singleton]
    exact ⟨fun h _ => h, fun h => h hfit⟩
  · rw [notes_bind_error P (shmOffsetPtr_run_misfit hfit)]
    exact ⟨fun _ h => absurd h hfit, fun _ e he => nomatch he⟩

theorem notes_shmobjPin (faults : BindFaults) (st : BindState) :
    Notes P (shmobjPin faults) st := by
  unfold shmobjPin
  split_ifs
  · exact (notes_raise P _ st).mpr trivial
  · exact (notes_change P _ st).mpr trivial

theorem notes_setObj (f : HandleObj → HandleObj) (st : BindState) : Notes P (setObj f) st :=
  (notes_change P _ st).mpr trivial

theorem notes_checkKinds {text : String} {first i : ℕ} {kinds : List ℕ} :
    Notes P (checkKinds (dirRecord m) text first i kinds) st ↔
      ∀ j < scanned (recordAt m) first i kinds, P (.record (u32 (first + (i + j)))) := by
  induction kinds generalizing i with
  | nil =>
    rw [checkKinds, scanned]
    exact iff_of_true ((notes_pure P _ st).mpr trivial) fun j hj => absurd hj (Nat.not_lt_zero j)
  | cons kind rest ih =>
    rw [checkKinds, notes_dirRecord_bind, scanned]
    by_cases hkind : (recordAt m (u32 (first + i))).kind = kind
    · rw [if_neg (not_not.mpr hkind), if_pos hkind, ih]
      constructor
      · rintro ⟨h0, hrest⟩ j hj
        cases j with
        | zero => exact h0
        | succ j =>
          have hstep := hrest j (by omega)
          rwa [show i + 1 + j = i + (j + 1) by omega] at hstep
      · refine fun h => ⟨h 0 (by omega), fun j hj => ?_⟩
        have hstep := h (j + 1) (by omega)
        rwa [show i + (j + 1) = i + 1 + j by omega] at hstep
    · rw [if_pos hkind, if_neg hkind]
      constructor
      · rintro ⟨h0, -⟩ j hj
        obtain rfl : j = 0 := by omega
        exact h0
      · exact fun h => ⟨h 0 (by omega), (notes_raise P _ st).mpr trivial⟩

/-- Behind the test of the kinds, when it passes. -/
theorem notes_checkKinds_bind {α : Type} {text : String} {first i : ℕ} {kinds : List ℕ}
    (f : Unit → BindCall α) :
    Notes P (checkKinds (dirRecord m) text first i kinds >>= f) st ↔
      (∀ j < scanned (recordAt m) first i kinds, P (.record (u32 (first + (i + j))))) ∧
        (KindsAt (recordAt m) first i kinds → Notes P (f ()) st) := by
  have hsrc := source_dirRecord m
  rw [notes_bind, notes_checkKinds]
  refine and_congr_right fun _ => ?_
  by_cases hkinds : KindsAt (recordAt m) first i kinds
  · have hret : Returns (checkKinds (dirRecord m) text first i kinds) st st () :=
      checkKinds_returns hsrc hkinds
    obtain ⟨t, ht⟩ := hret
    constructor
    · exact fun h _ => h t st () ht
    · intro h t' st' a heq
      obtain ⟨-, rfl, -⟩ := Finish.mk.inj (ht.symm.trans heq)
      exact h hkinds
  · have hraise : Raises (checkKinds (dirRecord m) text first i kinds) st st _ :=
      checkKinds_raises hsrc hkinds
    obtain ⟨t, ht⟩ := hraise
    constructor
    · exact fun _ h => absurd h hkinds
    · intro _ t' st' a heq
      exact nomatch (Finish.mk.inj (ht.symm.trans heq)).2.2

theorem notes_bindSlot {faults : BindFaults} {keep : Bool}
    {type : Slot → HandleType → HandleType} {index : ℕ} :
    Notes P (bindSlot m r faults (dirRecord m) keep type index) st ↔
      P (.record index) ∧ ((recordAt m index).Fits m →
        P (.ptr (recordAt m index).offset (recordAt m index).size)) := by
  unfold bindSlot
  rw [notes_dirRecord_bind, notes_shmOffsetPtr_bind]
  refine and_congr_right fun _ => forall_congr' fun _ => ?_
  exact and_iff_left
    (notes_bind_of (notes_shmobjPin faults) (fun _ st => notes_setObj _ st) st)

/-- The loop of an array, if every pointer is in order that comes after pointers in order. -/
theorem notes_arrayLocks_of {kind first i n : ℕ}
    (hrec : ∀ j < n, P (.record (u32 (first + (i + j)))))
    (hptr : ∀ j < n, (∀ k ≤ j, (recordAt m (u32 (first + (i + k)))).Fits m) →
      P (.ptr (recordAt m (u32 (first + (i + j)))).offset
        (recordAt m (u32 (first + (i + j)))).size)) (st : BindState) :
    Notes P (arrayLocks m r (dirRecord m) kind first i n) st := by
  induction n generalizing i st with
  | zero => exact (notes_pure P _ st).mpr trivial
  | succ n ih =>
    rw [arrayLocks, notes_dirRecord_bind]
    refine ⟨hrec 0 (by omega), ?_⟩
    by_cases hkind : (recordAt m (u32 (first + i))).kind = kind
    · rw [if_neg (not_not.mpr hkind), notes_shmOffsetPtr_bind]
      refine fun hfit => ⟨hptr 0 (by omega) fun k hk => ?_, ?_⟩
      · obtain rfl : k = 0 := by omega
        exact hfit
      · refine notes_bind_of (fun st => ih (fun j hj => ?_) (fun j hj hfits => ?_) st)
          (fun rest st => (notes_pure P _ st).mpr trivial) st
        · have hstep := hrec (j + 1) (by omega)
          rwa [show i + (j + 1) = i + 1 + j by omega] at hstep
        · have hstep := hptr (j + 1) (by omega) fun k hk => ?_
          · rwa [show i + (j + 1) = i + 1 + j by omega] at hstep
          · cases k with
            | zero => exact hfit
            | succ k =>
              have hk' := hfits k (by omega)
              rwa [show i + 1 + k = i + (k + 1) by omega] at hk'
    · rw [if_pos hkind]
      exact (notes_raise P _ st).mpr trivial

/-- The loop over the slots in front of a ring, and what comes behind it. -/
theorem notes_storeFront_bind_of {α : Type} {first i n : ℕ} {f : Unit → BindCall α}
    (hrec : ∀ j < n, P (.record (u32 (first + (i + j)))))
    (hptr : ∀ j < n, (∀ k ≤ j, (recordAt m (u32 (first + (i + k)))).Fits m) →
      P (.ptr (recordAt m (u32 (first + (i + j)))).offset
        (recordAt m (u32 (first + (i + j)))).size))
    (hf : (∀ k < n, (recordAt m (u32 (first + (i + k)))).Fits m) → ∀ st, Notes P (f ()) st)
    (st : BindState) : Notes P (storeFront m r (dirRecord m) first i n >>= f) st := by
  have hloop : ∀ st, Notes P (storeFront m r (dirRecord m) first i n) st := by
    clear hf
    induction n generalizing i with
    | zero => exact fun st => (notes_pure P _ st).mpr trivial
    | succ n ih =>
      intro st
      rw [storeFront, notes_dirRecord_bind, notes_shmOffsetPtr_bind]
      refine ⟨hrec 0 (by omega), fun hfit => ⟨hptr 0 (by omega) fun k hk => ?_, ?_⟩⟩
      · obtain rfl : k = 0 := by omega
        exact hfit
      · refine notes_bind_of (fun st => notes_setObj _ st) (fun _ => ih (fun j hj => ?_)
          fun j hj hfits => ?_) st
        · have hstep := hrec (j + 1) (by omega)
          rwa [show i + (j + 1) = i + 1 + j by omega] at hstep
        · have hstep := hptr (j + 1) (by omega) fun k hk => ?_
          · rwa [show i + (j + 1) = i + 1 + j by omega] at hstep
          · cases k with
            | zero => exact hfit
            | succ k =>
              have hk' := hfits k (by omega)
              rwa [show i + 1 + k = i + (k + 1) by omega] at hk'
  refine (notes_bind P _ _ st).mpr ⟨hloop st, fun t st' u hrun => ?_⟩
  exact hf (storeFront_fits (source_dirRecord m) ⟨t, hrun⟩) st'

/-- The end of the `bind` of a queue touches no record and no pointer. -/
theorem notes_finishRing_of {faults : BindFaults} {view : Ptr → Except Rc RingView}
    {depth itemSize first i : ℕ} {ctrlText : String} {condFlags : BindCall Unit} {ptr : Ptr}
    (hcond : ∀ st, Notes P condFlags st) (st : BindState) :
    Notes P (finishRing m r faults view depth itemSize ctrlText condFlags first i ptr) st := by
  unfold finishRing
  split
  · exact (notes_raise P _ st).mpr trivial
  · refine notes_bind_of (fun st => notes_setObj _ st) (fun _ st => ?_) st
    split_ifs
    · exact (notes_raise P _ st).mpr trivial
    · exact notes_bind_of (notes_shmobjPin faults)
        (fun _ => notes_bind_of (fun st => notes_setObj _ st) fun _ => hcond) st

/-- The `bind` of a queue, if its records and its pointers are in order. -/
theorem notes_ringBind_of {faults : BindFaults} {front : List ℕ} {view : Ptr → Except Rc RingView}
    {depth itemSize first : ℕ} {kindText ctrlText : String} {condFlags : BindCall Unit}
    (hkinds : KindsAt (recordAt m) first 0 (front ++ [kindBytes]))
    (hrec : ∀ j ≤ front.length, P (.record (u32 (first + j))))
    (hptr : ∀ j ≤ front.length, (∀ k ≤ j, (recordAt m (u32 (first + k))).Fits m) →
      P (.ptr (recordAt m (u32 (first + j))).offset (recordAt m (u32 (first + j))).size))
    (hcond : ∀ st, Notes P condFlags st) (st : BindState) :
    Notes P (ringBind m r faults (dirRecord m) front view depth itemSize kindText ctrlText
      condFlags first) st := by
  have hlen : scanned (recordAt m) first 0 (front ++ [kindBytes]) = front.length + 1 := by
    rw [scanned_eq hkinds, List.length_append]
    rfl
  unfold ringBind
  rw [notes_checkKinds_bind]
  refine ⟨fun j hj => ?_, fun _ => ?_⟩
  · rw [Nat.zero_add]
    exact hrec j (by omega)
  · refine notes_storeFront_bind_of (fun j hj => ?_) (fun j hj hfits => ?_) (fun hfront st => ?_) st
    · rw [Nat.zero_add]
      exact hrec j (by omega)
    · simp only [Nat.zero_add] at hfits ⊢
      exact hptr j (by omega) hfits
    · simp only [Nat.zero_add] at hfront
      rw [notes_dirRecord_bind, notes_shmOffsetPtr_bind]
      refine ⟨hrec front.length le_rfl, fun hfit => ⟨hptr front.length le_rfl fun k hk => ?_,
        notes_finishRing_of hcond st⟩⟩
      rcases Nat.lt_or_eq_of_le hk with hk | rfl
      · exact hfront k hk
      · exact hfit

end Parts

/-! ## The four functions -/

section Functions

open Call

variable {p : Platform} {m : SegMem} {r : ℕ} {faults : PickleFaults} {P : Access → Prop}
  {st : BindState}

theorem pointersFrom_iff (hw : WordCells m) (i : ℕ) :
    PointersFrom m i ↔ ((recordAt m i).Fits m →
      (Access.ptr (recordAt m i).offset (recordAt m i).size).Inside m) := by
  have hiff := ptr_inside_iff (m := m) (recordAt_offset_lt hw i)
  unfold PointersFrom
  constructor
  · rintro (hwrap | hno) hfit
    · exact (hiff hfit).mpr hwrap
    · exact absurd hfit hno
  · intro h
    by_cases hfit : (recordAt m i).Fits m
    · exact Or.inl ((hiff hfit).mp (h hfit))
    · exact Or.inr hfit

theorem notes_newHandle_bind {α : Type} (fault : Bool) (h : LayoutHandle)
    (f : Unit → BindCall α) :
    Notes P (newHandle p fault h >>= f) st ↔
      (fault = false → Notes P (f ()) ⟨HandleObj.unbound p h, st.pins⟩) := by
  cases fault with
  | true =>
    have hrun : newHandle p true h st = ⟨[], st, .error .memoryError⟩ := rfl
    rw [notes_bind_error P hrun]
    exact iff_of_true (fun e he => nomatch he) fun hf => nomatch hf
  | false =>
    have hrun : newHandle p false h st = ⟨[], ⟨HandleObj.unbound p h, st.pins⟩, .ok ()⟩ := rfl
    rw [notes_bind_ok P hrun]
    exact ⟨fun hn _ => hn.2, fun hn => ⟨fun e he => absurd he List.not_mem_nil, hn rfl⟩⟩

theorem notes_shmobjFromCore_bind {α : Type} (f : Unit → BindCall α) :
    Notes P (shmobjFromCore faults >>= f) st ↔ (faults.region = false → Notes P (f ()) st) := by
  unfold shmobjFromCore
  cases hregion : faults.region with
  | true =>
    rw [if_pos rfl, notes_bind_error P (raise_run _ _)]
    exact iff_of_true (fun e he => nomatch he) fun hf => nomatch hf
  | false =>
    rw [if_neg (by simp), notes_bind_ok P (pure_run _ _)]
    exact ⟨fun hn _ => hn.2, fun hn => ⟨fun e he => absurd he List.not_mem_nil, hn rfl⟩⟩

theorem notes_rebuildHandle (h : LayoutHandle) (bind : BindCall Unit) :
    Notes P (rebuildHandle p faults h bind) st ↔
      (faults.handle = false → Notes P bind ⟨HandleObj.unbound p h, st.pins⟩) := by
  unfold rebuildHandle
  rw [notes_newHandle_bind]
  refine forall_congr' fun _ => ?_
  rw [notes_bind]
  exact and_iff_left fun _ _ _ _ => (notes_pure P _ _).mpr trivial

/-- A handle of one slot. -/
theorem notes_rebuildSlot {h : LayoutHandle} {keep : Bool} {type : Slot → HandleType → HandleType}
    {index : ℕ} :
    Notes P (rebuildHandle p faults h (bindSlot m r faults.bind (dirRecord m) keep type index)) st ↔
      (faults.handle = false → P (.record index) ∧ ((recordAt m index).Fits m →
        P (.ptr (recordAt m index).offset (recordAt m index).size))) := by
  rw [notes_rebuildHandle]
  exact forall_congr' fun _ => notes_bindSlot

/-- The branches of `_attach_slot`, but that for a Condition. -/
theorem notes_rebuildKind {slot kind : ℕ} {s : Slot} (hcond : kind ≠ kindCond) :
    Notes P (rebuildKind p m r faults slot kind s) st ↔
      (p.Rebuilds kind → faults.handle = false → P (.record slot) ∧ ((recordAt m slot).Fits m →
        P (.ptr (recordAt m slot).offset (recordAt m slot).size))) := by
  by_cases hk : p.Rebuilds kind
  · have hiff : Notes P (rebuildKind p m r faults slot kind s) st ↔
        (faults.handle = false → P (.record slot) ∧ ((recordAt m slot).Fits m →
          P (.ptr (recordAt m slot).offset (recordAt m slot).size))) := by
      unfold rebuildKind
      rcases hk with rfl | rfl | rfl | rfl | rfl | ⟨rfl, hb⟩ | ⟨rfl, hs⟩
      · exact notes_rebuildSlot
      · exact notes_rebuildSlot
      · exact notes_rebuildSlot
      · exact notes_rebuildSlot
      · exact notes_rebuildSlot
      · rw [if_neg (by decide), if_neg (by decide), if_neg (by decide), if_neg (by decide),
          if_neg (by decide), if_pos ⟨rfl, hb⟩]
        exact notes_rebuildSlot
      · rw [if_neg (by decide), if_neg (by decide), if_neg (by decide), if_neg (by decide),
          if_neg (by decide), if_neg (fun h => absurd h.1 (by decide)), if_pos ⟨rfl, hs⟩]
        exact notes_rebuildSlot
    rw [hiff]
    exact ⟨fun h _ => h, fun h => h hk⟩
  · -- a kind that is not supported
    refine iff_of_true ?_ fun h => absurd h hk
    unfold Platform.Rebuilds at hk
    push Not at hk
    obtain ⟨h1, h2, h3, h4, h5, h6, h7⟩ := hk
    unfold rebuildKind
    rw [if_neg (by tauto), if_neg h3, if_neg h4, if_neg hcond, if_neg h5, if_neg (by tauto),
      if_neg (by tauto)]
    exact (notes_raise P _ st).mpr trivial

/-- The branch for a Condition, if the records and the pointers of both slots are in order. -/
theorem notes_rebuildCondition_of {slot : ℕ} {s : Slot} (hslot : P (.record slot))
    (haux : s.aux < m (.header .slotCount) → P (.record s.aux))
    (hptr : s.aux < m (.header .slotCount) →
      (recordAt m s.aux).kind = kindMutex ∨ (recordAt m s.aux).kind = kindRobustMutex →
      (recordAt m s.aux).Fits m →
      P (.ptr (recordAt m s.aux).offset (recordAt m s.aux).size) ∧ ((recordAt m slot).Fits m →
        P (.ptr (recordAt m slot).offset (recordAt m slot).size))) :
    Notes P (rebuildCondition p m r faults slot s) st := by
  unfold rebuildCondition
  simp only
  by_cases hlt : s.aux ≥ m (.header .slotCount)
  · rw [if_pos hlt]
    exact (notes_raise P _ st).mpr trivial
  · rw [if_neg hlt, notes_dirRecord_bind]
    refine ⟨haux (by omega), ?_⟩
    by_cases hkind : (recordAt m s.aux).kind ≠ kindMutex ∧ (recordAt m s.aux).kind ≠ kindRobustMutex
    · rw [if_pos hkind]
      exact (notes_raise P _ st).mpr trivial
    · rw [if_neg hkind, notes_newHandle_bind]
      have hptr' := hptr (by omega) (by tauto)
      refine fun _ => (notes_bind P _ _ _).mpr ⟨notes_bindSlot.mpr ⟨haux (by omega), fun hfit =>
        (hptr' hfit).1⟩, fun t st₁ u hrun => ?_⟩
      -- the mutex is bound, so that its record fits
      have hfit : (recordAt m s.aux).Fits m := by
        by_contra hno
        have hraise : ∀ st, ∃ e, Raises (posixipcMutexBind m r faults.bindMutex (dirRecord m) s.aux)
            st st e := fun st => bindSlot_raises (source_dirRecord m) (Or.inl hno)
        obtain ⟨e, he⟩ := hraise _
        exact Returns.not_raises ⟨t, hrun⟩ he
      rw [notes_bind_ok P (look_run _ _)]
      refine ⟨fun e he => absurd he List.not_mem_nil, ?_⟩
      rw [notes_newHandle_bind]
      refine fun _ => (notes_bind P _ _ _).mpr ⟨notes_bindSlot.mpr ⟨hslot, (hptr' hfit).2⟩,
        fun _ _ _ _ => (notes_pure P _ _).mpr trivial⟩

/-- What the branch for a Condition reads, when nothing fails. -/
theorem notes_rebuildCondition_none {slot : ℕ} {s : Slot}
    (h : Notes P (rebuildCondition p m r .none slot s) st)
    (hlt : s.aux < m (.header .slotCount)) :
    P (.record s.aux) ∧
      ((recordAt m s.aux).kind = kindMutex ∨ (recordAt m s.aux).kind = kindRobustMutex →
        (recordAt m s.aux).Fits m →
        P (.ptr (recordAt m s.aux).offset (recordAt m s.aux).size)) := by
  unfold rebuildCondition at h
  simp only at h
  rw [if_neg (by omega), notes_dirRecord_bind] at h
  refine ⟨h.1, fun hkind => ?_⟩
  have hrest := h.2
  rw [if_neg (by tauto), notes_newHandle_bind, notes_bind] at hrest
  exact (notes_bindSlot.mp (hrest rfl).1).2

/-- The `bind` of an array, if its records and its pointers are in order. -/
theorem notes_mutexarrayBind_of {faults : BindFaults} {first count : ℕ}
    (hfirst : P (.record first)) (hrec : ∀ j < count, P (.record (u32 (first + j))))
    (hptr : ∀ j < count, (∀ k ≤ j, (recordAt m (u32 (first + k))).Fits m) →
      P (.ptr (recordAt m (u32 (first + j))).offset (recordAt m (u32 (first + j))).size))
    (st : BindState) :
    Notes P (posixipcMutexarrayBind m r faults (dirRecord m) first count) st := by
  unfold posixipcMutexarrayBind
  refine notes_bind_of (fun st e he => absurd he List.not_mem_nil) (fun o st => ?_) st
  split_ifs
  · exact (notes_raise P _ st).mpr trivial
  · exact (notes_raise P _ st).mpr trivial
  · refine notes_bind_of (fun st => notes_arrayLocks_of (fun j hj => ?_) (fun j hj hfits => ?_) st)
      (fun locks st => notes_bind_of (notes_shmobjPin faults) (fun _ st => ?_) st) st
    · rw [Nat.zero_add]
      exact hrec j hj
    · simp only [Nat.zero_add] at hfits ⊢
      exact hptr j hj hfits
    · exact notes_dirRecord_bind _ _ |>.mpr ⟨hfirst, notes_setObj _ _⟩

/-- The first pointer of an array, when nothing fails. -/
theorem notes_mutexarrayBind_none {first count : ℕ}
    (h : Notes P (posixipcMutexarrayBind m r noFaults (dirRecord m) first count) st)
    (htype : st.obj.handle.type = .mutexArray count) (hcount : count ≠ 0) (hfirst : first < 2 ^ 32)
    (hkind : (recordAt m first).kind = st.obj.handle.record.kind)
    (hfit : (recordAt m first).Fits m) :
    P (.ptr (recordAt m first).offset (recordAt m first).size) := by
  obtain ⟨n, rfl⟩ := Nat.exists_eq_succ_of_ne_zero hcount
  unfold posixipcMutexarrayBind at h
  rw [notes_bind_ok P (look_run _ _), if_neg (by simp [htype]), if_neg (by decide), notes_bind] at h
  have hloop := h.2.1
  rw [arrayLocks, notes_dirRecord_bind, Nat.add_zero, u32_of_lt hfirst,
    if_neg (not_not.mpr hkind), notes_shmOffsetPtr_bind] at hloop
  exact (hloop.2 hfit).1

/-- The first pointer of a queue. -/
theorem notes_ringBind_none {faults : BindFaults} {front : List ℕ}
    {view : Ptr → Except Rc RingView} {depth itemSize first : ℕ} {kindText ctrlText : String}
    {condFlags : BindCall Unit} (hfront : front ≠ []) (hfirst : first < 2 ^ 32)
    (hkinds : KindsAt (recordAt m) first 0 (front ++ [kindBytes]))
    (h : Notes P (ringBind m r faults (dirRecord m) front view depth itemSize kindText ctrlText
      condFlags first) st) (hfit : (recordAt m first).Fits m) :
    P (.ptr (recordAt m first).offset (recordAt m first).size) := by
  obtain ⟨n, hn⟩ := Nat.exists_eq_succ_of_ne_zero (List.length_pos_iff.mpr hfront).ne'
  unfold ringBind at h
  rw [notes_checkKinds_bind] at h
  have hrest := h.2 hkinds
  rw [notes_bind, hn, storeFront, notes_dirRecord_bind, Nat.add_zero, u32_of_lt hfirst,
    notes_shmOffsetPtr_bind] at hrest
  exact (hrest.1.2 hfit).1

/-- The pointers behind the first one, if the first is in order. -/
theorem ptrs_inside (hw : WordCells m) {first n : ℕ} (hfirst : first < 2 ^ 32)
    (h : PointersFrom m first) : ∀ j < n, (∀ k ≤ j, (recordAt m (u32 (first + k))).Fits m) →
      (Access.ptr (recordAt m (u32 (first + j))).offset
        (recordAt m (u32 (first + j))).size).Inside m := by
  intro j _ hfits
  refine (ptr_inside_iff (recordAt_offset_lt hw _) (hfits j le_rfl)).mpr ?_
  rcases h with hwrap | hno
  · exact hwrap
  · have h0 := hfits 0 (Nat.zero_le j)
    rw [Nat.add_zero, u32_of_lt hfirst] at h0
    exact absurd h0 hno

/-- `_attach_slot`. -/
theorem modAttachSlot_inside_iff (hw : WordCells m) (st : BindState) {index kind digest : ℕ} :
    (∀ faults, Notes (Access.Inside m) (modAttachSlot p m r faults index kind digest) st) ↔
      (Pickled.slot index kind digest).Safe p m := by
  unfold Pickled.Safe modAttachSlot
  by_cases hrej : m (.header .layoutDigest) ≠ digest ∨ index ≥ m (.header .slotCount)
  · refine iff_of_true (fun faults => ?_) fun hd hlt => ?_
    · rw [if_pos hrej]
      exact (notes_raise _ _ st).mpr trivial
    · rcases hrej with hrej | hrej
      · exact absurd hd hrej
      · omega
  · have hlt : index < m (.header .slotCount) := by omega
    simp only [if_neg hrej, if_neg (show m (.header .slotCount) ≠ 0 by omega),
      notes_dirRecord_bind]
    have hd : m (.header .layoutDigest) = digest := by tauto
    by_cases hkind : (recordAt m index).kind = kind
    · simp only [if_neg (not_not.mpr hkind), notes_shmobjFromCore_bind]
      by_cases hcond : kind = kindCond
      · -- a Condition, with its mutex
        have hbranch : ∀ faults, rebuildKind p m r faults index kind (recordAt m index) =
            rebuildCondition p m r faults index (recordAt m index) := by
          intro faults
          rw [hcond]
          rfl
        simp only [hbranch, if_pos hcond]
        constructor
        · intro h _ _
          refine ⟨(h .none).1, fun _ haux => ?_⟩
          obtain ⟨hrec, hptr⟩ := notes_rebuildCondition_none ((h .none).2 rfl) haux
          exact ⟨hrec, fun hm => (pointersFrom_iff hw _).mpr (hptr hm)⟩
        · intro h faults
          obtain ⟨hrec, hmutex⟩ := h hd hlt
          refine ⟨hrec, fun _ => notes_rebuildCondition_of hrec (fun haux => (hmutex hkind haux).1)
            fun haux hm hfit => ⟨(pointersFrom_iff hw _).mp ((hmutex hkind haux).2 hm) hfit,
              fun hfit' => ?_⟩⟩
          rcases (hmutex hkind haux).2 hm with hwrap | hno
          · exact (ptr_inside_iff (recordAt_offset_lt hw _) hfit').mpr hwrap
          · exact absurd hfit hno
      · simp only [notes_rebuildKind hcond, if_neg hcond]
        constructor
        · intro h _ _
          refine ⟨(h .none).1, fun _ hk => (pointersFrom_iff hw _).mpr ?_⟩
          exact ((h .none).2 rfl hk rfl).2
        · intro h faults
          obtain ⟨hrec, hptr⟩ := h hd hlt
          exact ⟨hrec, fun _ hk _ => ⟨hrec, (pointersFrom_iff hw _).mp (hptr hkind hk)⟩⟩
    · simp only [if_pos hkind, notes_raise, and_true]
      constructor
      · exact fun h _ _ => ⟨h .none, fun hk => absurd hk hkind⟩
      · exact fun h _ => (h hd hlt).1

/-- `_attach_array`. -/
theorem modAttachArray_inside_iff (hw : WordCells m) (st : BindState)
    {first count kind digest : ℕ} (hfirst : first < 2 ^ 32) (hcount : count ≠ 0) :
    (∀ faults, Notes (Access.Inside m) (modAttachArray p m r faults first count kind digest) st) ↔
      (Pickled.array first count kind digest).Safe p m := by
  unfold Pickled.Safe modAttachArray
  by_cases hrej : m (.header .layoutDigest) ≠ digest ∨ first ≥ m (.header .slotCount) ∨
      u32 (first + count) > m (.header .slotCount)
  · refine iff_of_true (fun faults => ?_) fun _ hd hlt hspan => ?_
    · rw [if_pos hrej]
      exact (notes_raise _ _ st).mpr trivial
    · rcases hrej with hrej | hrej | hrej
      · exact absurd hd hrej
      · omega
      · omega
  · obtain ⟨hd, hlt, hspan⟩ : m (.header .layoutDigest) = digest ∧
        first < m (.header .slotCount) ∧ u32 (first + count) ≤ m (.header .slotCount) := by
      refine ⟨by tauto, by omega, by omega⟩
    have hne : List.replicate count kind ≠ [] := by simpa using hcount
    have hscan : (∀ j < scanned (recordAt m) first 0 (List.replicate count kind),
        (Access.record (u32 (first + (0 + j)))).Inside m) ↔
        DirectoryTo m (first + scanned (recordAt m) first 0 (List.replicate count kind)) := by
      simp only [Nat.zero_add]
      exact records_inside_iff hw hfirst (scanned_pos _ _ _ hne)
    simp only [if_neg hrej, if_neg (show m (.header .slotCount) ≠ 0 by omega),
      notes_checkKinds_bind, notes_shmobjFromCore_bind, notes_dirRecord_bind, hscan,
      notes_rebuildHandle]
    constructor
    · intro h _ _ _ _
      refine ⟨(h .none).1, fun hkinds => (pointersFrom_iff hw _).mpr fun hfit => ?_⟩
      obtain ⟨-, hbind⟩ := (h .none).2 hkinds rfl
      refine notes_mutexarrayBind_none (hbind rfl) rfl hcount hfirst ?_ hfit
      have hk := hkinds 0 kind (by simp [List.getElem?_replicate]; omega)
      rwa [Nat.add_zero, u32_of_lt hfirst] at hk
    · intro h faults
      obtain ⟨hdir, hptr⟩ := h hcount hd hlt hspan
      refine ⟨hdir, fun hkinds _ => ?_⟩
      -- the test has read all records
      have hrec := hscan.mpr hdir
      rw [scanned_eq hkinds, List.length_replicate] at hrec
      simp only [Nat.zero_add] at hrec
      have hrec0 : (Access.record first).Inside m := by
        have h0 := hrec 0 (by omega)
        rwa [Nat.add_zero, u32_of_lt hfirst] at h0
      exact ⟨hrec0, fun _ => notes_mutexarrayBind_of hrec0 hrec
        (ptrs_inside hw hfirst (hptr hkinds)) _⟩

/-- What `_attach_queue` and `_attach_futex_queue` share. -/
theorem attachRing_inside_iff (hw : WordCells m) (st : BindState) {front : List ℕ}
    {need first digest : ℕ} (hfront : front ≠ []) (hfirst : first < 2 ^ 32)
    {spanText kindText sizeText bindText ctrlText : String} {h : LayoutHandle}
    {view : Ptr → Except Rc RingView} {depth itemSize : ℕ} {condFlags : BindCall Unit}
    (hcond : (∀ j ≤ front.length, (Access.record (u32 (first + j))).Inside m) →
      ∀ st, Notes (Access.Inside m) condFlags st) :
    (∀ faults, Notes (Access.Inside m) (attachRing p m faults front need spanText kindText sizeText
      h (ringBind m r faults.bind (dirRecord m) front view depth itemSize bindText ctrlText
        condFlags first) first digest) st) ↔ RingSafe m front need first digest := by
  unfold RingSafe attachRing
  by_cases hrej : m (.header .layoutDigest) ≠ digest ∨
      u32 (first + (front.length + 1)) > m (.header .slotCount)
  · refine iff_of_true (fun faults => ?_) fun hd hspan => ?_
    · rw [if_pos hrej]
      exact (notes_raise _ _ st).mpr trivial
    · rcases hrej with hrej | hrej
      · exact absurd hd hrej
      · omega
  · obtain ⟨hd, hspan⟩ : m (.header .layoutDigest) = digest ∧
        u32 (first + (front.length + 1)) ≤ m (.header .slotCount) := ⟨by tauto, by omega⟩
    by_cases hempty : m (.header .slotCount) = 0
    · refine iff_of_true (fun faults => ?_) fun _ _ hne => absurd hempty hne
      rw [if_neg hrej, if_pos hempty]
      exact (notes_raise _ _ st).mpr trivial
    · have hscan : (∀ j < scanned (recordAt m) first 0 (front ++ [kindBytes]),
          (Access.record (u32 (first + (0 + j)))).Inside m) ↔
          DirectoryTo m (first + scanned (recordAt m) first 0 (front ++ [kindBytes])) := by
        simp only [Nat.zero_add]
        exact records_inside_iff hw hfirst (scanned_pos _ _ _ (by simp))
      simp only [if_neg hrej, if_neg hempty, notes_checkKinds_bind, notes_dirRecord_bind, hscan]
      -- the records that the test has read
      have hread : DirectoryTo m (first + scanned (recordAt m) first 0 (front ++ [kindBytes])) →
          KindsAt (recordAt m) first 0 (front ++ [kindBytes]) →
          ∀ j ≤ front.length, (Access.record (u32 (first + j))).Inside m := by
        intro hdir hkinds j hj
        have hrec := hscan.mpr hdir
        rw [scanned_eq hkinds, List.length_append, List.length_singleton] at hrec
        have hj' := hrec j (by omega)
        rwa [Nat.zero_add] at hj'
      by_cases hneed : need = 0 ∨ (recordAt m (u32 (first + front.length))).size < need
      · simp only [if_pos hneed, notes_raise, and_true]
        constructor
        · intro h _ _ _
          exact ⟨(h .none).1, fun _ hn hle => by omega⟩
        · intro h _
          obtain ⟨hdir, -⟩ := h hd hspan hempty
          exact ⟨hdir, fun hkinds => hread hdir hkinds _ le_rfl⟩
      · simp only [if_neg hneed, notes_shmobjFromCore_bind, notes_rebuildHandle]
        constructor
        · intro h _ _ _
          refine ⟨(h .none).1, fun hkinds _ _ => (pointersFrom_iff hw _).mpr fun hfit => ?_⟩
          obtain ⟨-, hbind⟩ := (h .none).2 hkinds
          exact notes_ringBind_none hfront hfirst hkinds (hbind rfl rfl) hfit
        · intro h faults
          obtain ⟨hdir, hptr⟩ := h hd hspan hempty
          refine ⟨hdir, fun hkinds => ⟨hread hdir hkinds _ le_rfl, fun _ _ => ?_⟩⟩
          have hfrom : PointersFrom m first := hptr hkinds (by omega) (by omega)
          exact notes_ringBind_of hkinds (hread hdir hkinds)
            (fun j hj => ptrs_inside hw hfirst hfrom j (Nat.lt_succ_of_le hj))
            (hcond (hread hdir hkinds)) _

/-- The call on the mapped segment. -/
theorem rebuild_inside_iff (hw : WordCells m) (st : BindState) {x : Pickled}
    (hfirst : x.first < 2 ^ 32) (harg : x.argError = none) :
    (∀ faults, Notes (Access.Inside m) (x.rebuild p m r faults) st) ↔ x.Safe p m := by
  have hring : ∀ {front : List ℕ} {need depth itemSize first digest : ℕ},
      depth ≠ 0 → itemSize ≠ 0 →
      ((depth ≠ 0 → itemSize ≠ 0 → RingSafe m front need first digest) ↔
        RingSafe m front need first digest) :=
    fun hd hn => ⟨fun h => h hd hn, fun h _ _ => h⟩
  cases x with
  | slot index kind digest => exact modAttachSlot_inside_iff hw st
  | array first count kind digest =>
    refine modAttachArray_inside_iff hw st hfirst fun h0 => ?_
    rw [Pickled.argError, if_pos (by omega)] at harg
    exact nomatch harg
  | queue first depth itemSize digest =>
    by_cases hargs : depth < 1 ∨ itemSize < 1
    · rw [Pickled.argError, if_pos hargs] at harg
      exact nomatch harg
    · refine Iff.trans ?_ (hring (by omega) (by omega)).symm
      refine attachRing_inside_iff hw st (by decide) hfirst fun hrec st => ?_
      exact notes_dirRecord_bind _ _ |>.mpr ⟨hrec 2 (by decide), notes_setObj _ _⟩
  | futexQueue first depth itemSize digest =>
    by_cases hargs : depth < 1 ∨ itemSize < 1
    · rw [Pickled.argError, if_pos hargs] at harg
      exact nomatch harg
    · refine Iff.trans ?_ (hring (by omega) (by omega)).symm
      exact attachRing_inside_iff hw st (by decide) hfirst
        fun _ st => (notes_pure _ _ st).mpr trivial

end Functions

/-- A tuple whose arguments are refused is safe. -/
theorem Pickled.safe_of_argError {p : Platform} {m : SegMem} {x : Pickled} {e : PyError}
    (h : x.argError = some e) : x.Safe p m := by
  cases x with
  | slot index kind digest => exact nomatch h
  | array first count kind digest =>
    intro hcount
    rw [Pickled.argError, if_neg (by omega)] at h
    exact nomatch h
  | queue first depth itemSize digest =>
    intro hd hn
    rw [Pickled.argError, if_neg (by omega)] at h
    exact nomatch h
  | futexQueue first depth itemSize digest =>
    intro hd hn
    rw [Pickled.argError, if_neg (by omega)] at h
    exact nomatch h

/-- **The rebuild of a handle stays in the mapping exactly if the tuple is safe.**  The segment may
hold anything that `posixipc_shm_attach` accepts without an expectation, and the tuple any
numbers; no part of the call need succeed. -/
theorem attachPickled_inside_iff (p : Platform) (r : ℕ) {m : SegMem} (hw : WordCells m)
    {env : AttachEnv} {turns : ℕ} {name : List UInt8} {st : Stat}
    (hatt : attachResult env turns name st m none = some .ok) (x : Pickled)
    (hfirst : x.first < 2 ^ 32) :
    (∀ faults fin, attachPickled p m r faults env turns name st x = some fin →
      ∀ a ∈ fin.trace, a.Inside m) ↔ x.Safe p m := by
  cases harg : x.argError with
  | some e =>
    refine iff_of_true (fun faults fin hfin => ?_) (Pickled.safe_of_argError harg)
    unfold attachPickled at hfin
    rw [harg] at hfin
    rw [← Option.some.inj hfin]
    exact fun a ha => absurd ha List.not_mem_nil
  | none =>
    rw [← rebuild_inside_iff (r := r) hw (noHandle p) hfirst harg]
    constructor
    · intro h faults
      -- the call with the same faults, but for the clock
      have heq : attachPickled p m r { faults with deadline := none } env turns name st x =
          some (x.rebuild p m r faults (noHandle p)) := by
        rw [attachPickled_eq harg rfl hatt]
        cases x <;> rfl
      exact h _ _ heq
    · intro h faults fin hfin
      cases hdl : faults.deadline with
      | some rc =>
        unfold attachPickled at hfin
        rw [harg, hdl] at hfin
        rw [← Option.some.inj hfin]
        exact fun a ha => absurd ha List.not_mem_nil
      | none =>
        rw [attachPickled_eq harg hdl hatt] at hfin
        rw [← Option.some.inj hfin]
        exact h faults

/-! ## A segment of one mutex -/

theorem leNat_lt (bytes : List UInt8) : leNat bytes < 256 ^ bytes.length := by
  induction bytes with
  | nil => decide
  | cons b rest ih =>
    have hb : b.toNat < 256 := b.toNat_lt
    have hcons : leNat (b :: rest) = b.toNat + 256 * leNat rest := rfl
    rw [hcons, List.length_cons, Nat.pow_succ]
    omega

/-- The cells of a file hold words. -/
theorem wordCells_cellsOf (bytes : List UInt8) : WordCells (cellsOf bytes) := by
  have hword : ∀ off n, n ≤ 4 → leNat ((bytes.drop off).take n) < 2 ^ 32 := by
    intro off n hn
    have hlen : ((bytes.drop off).take n).length ≤ 4 := by
      rw [List.length_take]
      omega
    calc leNat ((bytes.drop off).take n)
        < 256 ^ ((bytes.drop off).take n).length := leNat_lt _
      _ ≤ 256 ^ 4 := Nat.pow_le_pow_right (by decide) hlen
      _ = 2 ^ 32 := by decide
  constructor
  · exact hword _ _ (by decide)
  · exact fun i => hword _ _ (by decide)

/-- The segment has one slot, and the sum of the first slot and five wraps to `0`: the test passes,
and the call reads a record far behind the mapping. -/
theorem attach_queue_reads_outside :
    attachResult calmEnv 1 queueName oneMutexFile.stat (cellsOf oneMutexFile.bytes) none =
      some .ok ∧
    ∃ fin, attachPickled glibcX86 (cellsOf oneMutexFile.bytes) 0 .none calmEnv 1 queueName
      oneMutexFile.stat (.queue 0xfffffffb 1 1 oneMutex.layoutDigest) = some fin ∧
      .record 0xfffffffb ∈ fin.trace ∧
      ¬ (Access.record 0xfffffffb).Inside (cellsOf oneMutexFile.bytes) := by
  have htrace : (attachPickled glibcX86 (cellsOf oneMutexFile.bytes) 0 .none calmEnv 1 queueName
      oneMutexFile.stat (.queue 0xfffffffb 1 1 oneMutex.layoutDigest)).map Finish.trace =
      some [.record 0xfffffffb] := by decide +kernel
  obtain ⟨fin, hfin, hmem⟩ := Option.map_eq_some_iff.mp htrace
  refine ⟨by decide +kernel, fin, hfin, by rw [hmem]; exact List.mem_singleton.mpr rfl, ?_⟩
  have htotal : cellsOf oneMutexFile.bytes (.header .totalSize) = 144 := by decide +kernel
  unfold Access.Inside headerBytes
  simp only [htotal]
  omega

/-- The mutex itself is rebuilt from its record and its bytes. -/
theorem attachPickled_inside_iff_mutex :
    ∃ fin, attachPickled glibcX86 (cellsOf oneMutexFile.bytes) 0 .none calmEnv 1 queueName
      oneMutexFile.stat (.slot 0 kindMutex oneMutex.layoutDigest) = some fin ∧
      fin.trace = [.record 0, .record 0, .ptr 80 64] ∧
      (Access.ptr 80 64).Inside (cellsOf oneMutexFile.bytes) := by
  have htrace : (attachPickled glibcX86 (cellsOf oneMutexFile.bytes) 0 .none calmEnv 1 queueName
      oneMutexFile.stat (.slot 0 kindMutex oneMutex.layoutDigest)).map Finish.trace =
      some [.record 0, .record 0, .ptr 80 64] := by decide +kernel
  have hsafe : (Pickled.slot 0 kindMutex oneMutex.layoutDigest).Safe glibcX86
      (cellsOf oneMutexFile.bytes) := by
    have hdir : cellsOf oneMutexFile.bytes (.header .directoryBytes) = 16 := by decide +kernel
    have htotal : cellsOf oneMutexFile.bytes (.header .totalSize) = 144 := by decide +kernel
    intro _ _
    refine ⟨?_, fun _ => ?_⟩
    · unfold DirectoryTo headerBytes
      omega
    · rw [if_neg (by decide)]
      refine fun _ => Or.inl ?_
      rw [hdir]
      decide
  have hiff := attachPickled_inside_iff glibcX86 0 (wordCells_cellsOf oneMutexFile.bytes)
    (by decide +kernel : attachResult calmEnv 1 queueName oneMutexFile.stat
      (cellsOf oneMutexFile.bytes) none = some .ok)
    (.slot 0 kindMutex oneMutex.layoutDigest) (by decide)
  obtain ⟨fin, hfin, hmem⟩ := Option.map_eq_some_iff.mp htrace
  exact ⟨fin, hfin, hmem, hiff.mpr hsafe .none fin hfin _ (by rw [hmem]; simp)⟩

end PosixIpc
