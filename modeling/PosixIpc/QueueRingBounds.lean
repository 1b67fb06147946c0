/-
# The bytes of a queue

Which bytes the cells of a ring are, and that no operation leaves them.

* `View.ranges` : the control word, the state array and one range for each item; a futex queue
  has its two words in front (`FutexqView.ranges`);
* `Placement` : what `posixipc_queue_map` computes, without overflow;
* `CoreCall` : the operations.  `Loc.home` is the range that an access is meant for.

The main result is `queue_storage_safe`.  The content of the bytes is arbitrary throughout: only
the geometry of the view decides where an operation reads and writes.
-/
import PosixIpc.ShmSegment

namespace PosixIpc

open StoreProg Word32

/-! ## Ranges -/

/-- The bytes from `start` up to `stop`. -/
structure ByteRange where
  start : ℕ
  stop : ℕ
  deriving DecidableEq, Repr

def ByteRange.Within (a b : ByteRange) : Prop := b.start ≤ a.start ∧ a.stop ≤ b.stop

def ByteRange.Disjoint (a b : ByteRange) : Prop := a.stop ≤ b.start ∨ b.stop ≤ a.start

namespace View

variable (v : View)

/-- `posixipc_queue_ctrl`. -/
def ctrlRange : ByteRange := ⟨v.ctrl.getD 0, v.ctrl.getD 0 + sizeofQueueCtrl⟩

/-- The state array. -/
def stateRange : ByteRange := ⟨v.state.getD 0, v.state.getD 0 + 4 * v.depth⟩

/-- The payload of item `i`. -/
def itemRange (i : ℕ) : ByteRange :=
  ⟨v.payload.getD 0 + i * v.stride, v.payload.getD 0 + i * v.stride + v.itemSize⟩

/-- The parts of a ring. -/
def ranges : List ByteRange :=
  v.ctrlRange :: v.stateRange :: (List.range v.depth).map v.itemRange

end View

/-- The parts of a futex queue. -/
def FutexqView.ranges (fv : FutexqView) : List ByteRange :=
  ⟨fv.notFull.getD 0, fv.notFull.getD 0 + 4⟩ :: ⟨fv.notEmpty.getD 0, fv.notEmpty.getD 0 + 4⟩ ::
    fv.view.ranges

/-- The bytes of a cell. -/
def Loc.range (v : View) : Loc → ByteRange
  | .head => ⟨v.ctrl.getD 0, v.ctrl.getD 0 + 4⟩
  | .tail => ⟨v.ctrl.getD 0 + 4, v.ctrl.getD 0 + 8⟩
  | .count => ⟨v.ctrl.getD 0 + 8, v.ctrl.getD 0 + 12⟩
  | .flags => ⟨v.ctrl.getD 0 + 12, v.ctrl.getD 0 + 16⟩
  | .depth => ⟨v.ctrl.getD 0 + 16, v.ctrl.getD 0 + 20⟩
  | .itemSize => ⟨v.ctrl.getD 0 + 20, v.ctrl.getD 0 + 24⟩
  | .state i => ⟨v.state.getD 0 + 4 * i, v.state.getD 0 + 4 * i + 4⟩
  | .payload off => ⟨v.payload.getD 0 + off, v.payload.getD 0 + off + 1⟩

/-- The part of the ring that an access to a cell is meant for. -/
def Loc.home (v : View) : Loc → ByteRange
  | .state _ => v.stateRange
  | .payload off => v.itemRange (off / v.stride)
  | _ => v.ctrlRange

/-- The cell is one of the ring. -/
def Loc.Fits (v : View) (l : Loc) : Prop := l.home v ∈ v.ranges ∧ (l.range v).Within (l.home v)

/-! ## What a map computes -/

/-- The parts of a view are where `posixipc_queue_map` puts them, and there is room. -/
structure Placement (cacheline base nbytes : ℕ) (v : View) : Prop where
  ctrl : v.ctrl = some base
  state : v.state = some (base + ctrlBytes cacheline)
  payload : v.payload = some (base + ctrlBytes cacheline + stateBytes cacheline v.depth)
  ctrl_le : sizeofQueueCtrl ≤ ctrlBytes cacheline
  state_le : 4 * v.depth ≤ stateBytes cacheline v.depth
  fits : ctrlBytes cacheline + stateBytes cacheline v.depth + v.depth * v.stride ≤ nbytes
  aligned : cacheline ∣ ctrlBytes cacheline ∨ cacheline ≤ 1

/-- A line to which something positive can be rounded up is a power of two that leaves room. -/
theorem alignUp_ne_zero {raw cacheline : ℕ} (hraw : 0 < raw) (h1 : 1 < cacheline)
    (h : alignUp raw cacheline ≠ 0) :
    cacheline &&& (cacheline - 1) = 0 ∧ cacheline ≤ 2 ^ 31 := by
  have hpow : cacheline &&& (cacheline - 1) = 0 := by
    by_contra hcon
    exact h (by rw [alignUp, if_neg (by omega)]; simp [hcon])
  have hmask : ¬raw > uint32Max - (cacheline - 1) := by
    intro hcon
    exact h (by rw [alignUp, if_neg (by omega)]; simp [hpow]; omega)
  obtain ⟨k, hk⟩ := (Nat.and_sub_one_eq_zero_iff_isPowerOfTwo (by omega)).mp hpow
  refine ⟨hpow, ?_⟩
  have hlt : cacheline < 2 ^ 32 := by
    unfold uint32Max at hmask
    omega
  rw [hk] at hlt ⊢
  have hk32 : k < 32 := (Nat.pow_lt_pow_iff_right (by norm_num)).mp hlt
  exact Nat.pow_le_pow_right (by norm_num) (by omega)

/-- On such a line every small number is rounded up to a multiple of it. -/
theorem alignUp_small {value raw cacheline : ℕ} (hv : 0 < value) (hle : value ≤ 2 ^ 31)
    (hraw : 0 < raw) (h : alignUp raw cacheline ≠ 0) :
    alignUp value cacheline ≠ 0 ∧ (cacheline ∣ alignUp value cacheline ∨ cacheline ≤ 1) := by
  by_cases h1 : cacheline ≤ 1
  · rw [alignUp, if_pos h1]
    exact ⟨hv.ne', Or.inr h1⟩
  · obtain ⟨hpow, hmax⟩ := alignUp_ne_zero hraw (by omega) h
    have heq : alignUp value cacheline = roundUp value cacheline :=
      alignUp_eq_roundUp (by omega) hpow (by unfold uint32Max; omega) (by unfold uint32Max; omega)
    have := le_roundUp value (show 0 < cacheline by omega)
    rw [heq]
    exact ⟨by omega, Or.inl (Dvd.intro _ rfl)⟩

/-- A state array that could be rounded up says the same about every small number. -/
theorem alignUp_of_stateBytes {cacheline depth value : ℕ} (h : stateBytes cacheline depth ≠ 0)
    (hv : 0 < value) (hle : value ≤ 2 ^ 31) :
    alignUp value cacheline ≠ 0 ∧ (cacheline ∣ alignUp value cacheline ∨ cacheline ≤ 1) := by
  unfold stateBytes at h
  split_ifs at h with hd
  · exact absurd rfl h
  · push Not at hd
    have hraw : u32 (depth * 4) = depth * 4 := u32_of_le (by unfold uint32Max at *; omega)
    rw [hraw] at h
    exact alignUp_small hv hle (by omega) h

/-- The control words have room, and end on a cache line. -/
theorem ctrlBytes_spec {cacheline depth : ℕ} (h : stateBytes cacheline depth ≠ 0) :
    sizeofQueueCtrl ≤ ctrlBytes cacheline ∧ (cacheline ∣ ctrlBytes cacheline ∨ cacheline ≤ 1) := by
  obtain ⟨hne, hdvd⟩ := alignUp_of_stateBytes h (show 0 < sizeofQueueCtrl by decide) (by decide)
  have hcb : ctrlBytes cacheline = alignUp sizeofQueueCtrl cacheline := if_neg hne
  rw [hcb]
  exact ⟨le_alignUp hne, hdvd⟩

/-- The futex words have room, and end on a cache line. -/
theorem posixipcFutexqPrefixSize_spec {cacheline depth : ℕ} (h : stateBytes cacheline depth ≠ 0) :
    8 ≤ posixipcFutexqPrefixSize cacheline ∧
      (cacheline ∣ posixipcFutexqPrefixSize cacheline ∨ cacheline ≤ 1) := by
  obtain ⟨hne, hdvd⟩ := alignUp_of_stateBytes h (show 0 < 8 by decide) (by decide)
  have hpre : posixipcFutexqPrefixSize cacheline = alignUp 8 cacheline := if_neg hne
  rw [hpre]
  exact ⟨le_alignUp hne, hdvd⟩

/-- The size is the sum of the three parts; no addition wraps. -/
theorem posixipcQueueBytesSize_eq {cacheline depth itemSize : ℕ}
    (h : posixipcQueueBytesSize cacheline depth itemSize ≠ 0) :
    posixipcQueueBytesSize cacheline depth itemSize
      = ctrlBytes cacheline + stateBytes cacheline depth
        + depth * alignUp itemSize cacheline := by
  obtain ⟨hd, hi, hsb, hst⟩ := posixipcQueueBytesSize_ne_zero h
  have hcb : ctrlBytes cacheline ≠ 0 := by
    have := (ctrlBytes_spec hsb).1
    unfold sizeofQueueCtrl at this
    omega
  unfold posixipcQueueBytesSize at h ⊢
  rw [if_neg (by omega)] at h ⊢
  simp only at h ⊢
  rw [if_neg (by tauto)] at h ⊢
  by_cases h1 : depth > uint32Max / alignUp itemSize cacheline
  · rw [if_pos h1] at h
    exact absurd rfl h
  · rw [if_neg h1] at h ⊢
    have hmul : depth * alignUp itemSize cacheline ≤ uint32Max :=
      (Nat.le_div_iff_mul_le (Nat.pos_of_ne_zero hst)).mp (by omega)
    rw [u32_of_le hmul] at h ⊢
    by_cases h2 : ctrlBytes cacheline > uint32Max - stateBytes cacheline depth
    · rw [if_pos h2] at h
      exact absurd rfl h
    · rw [if_neg h2] at h ⊢
      by_cases hs : stateBytes cacheline depth ≤ uint32Max
      · rw [u32_of_le (show ctrlBytes cacheline + stateBytes cacheline depth ≤ uint32Max by
          omega)] at h ⊢
        by_cases h3 : ctrlBytes cacheline + stateBytes cacheline depth
            > uint32Max - depth * alignUp itemSize cacheline
        · rw [if_pos h3] at h
          exact absurd rfl h
        · rw [if_neg h3, u32_of_le (by omega)]
      · omega

/-- The slot states have room. -/
theorem le_stateBytes {cacheline depth : ℕ} (h : stateBytes cacheline depth ≠ 0) :
    4 * depth ≤ stateBytes cacheline depth := by
  unfold stateBytes at h ⊢
  split_ifs at h with hd
  · exact absurd rfl h
  · push Not at hd
    rw [if_neg (by push Not; exact hd)]
    have hraw : u32 (depth * 4) = depth * 4 := u32_of_le (by unfold uint32Max at *; omega)
    have := le_alignUp h
    omega

/-- **A mapped queue** lies in its bytes. -/
theorem posixipcQueueMap_placement {cacheline base nbytes depth itemSize : ℕ} {v : View}
    (h : posixipcQueueMap cacheline (some base) nbytes depth itemSize = .ok v) :
    Placement cacheline base nbytes v := by
  unfold posixipcQueueMap at h
  simp only at h
  by_cases hneed : posixipcQueueBytesSize cacheline depth itemSize = 0 ∨
      nbytes < posixipcQueueBytesSize cacheline depth itemSize
  · rw [if_pos hneed] at h
    exact nomatch h
  · rw [if_neg hneed] at h
    push Not at hneed
    obtain ⟨hne, hfit⟩ := hneed
    obtain ⟨-, -, hsb, -⟩ := posixipcQueueBytesSize_ne_zero hne
    obtain ⟨hcb, hal⟩ := ctrlBytes_spec hsb
    rw [posixipcQueueBytesSize_eq hne] at hfit
    rw [← Except.ok.inj h]
    exact ⟨rfl, rfl, rfl, hcb, le_stateBytes hsb, hfit, hal⟩

/-- A futex queue is a ring behind its two words. -/
theorem posixipcFutexqMap_ok {cacheline base nbytes depth itemSize : ℕ} {fv : FutexqView}
    (h : posixipcFutexqMap cacheline (some base) nbytes depth itemSize = .ok fv) :
    ∃ pre v, fv = ⟨some base, some (base + 4), v⟩ ∧ 8 ≤ pre ∧ pre ≤ nbytes ∧
      (4 ∣ cacheline → 4 ∣ pre) ∧
      posixipcQueueMap cacheline (some (base + pre)) (nbytes - pre) depth itemSize = .ok v := by
  unfold posixipcFutexqMap at h
  simp only at h
  by_cases hneed : posixipcFutexqPrefixSize cacheline = 0 ∨
      posixipcFutexqBytesSize cacheline depth itemSize = 0 ∨
      nbytes < posixipcFutexqBytesSize cacheline depth itemSize
  · rw [if_pos hneed] at h
    exact nomatch h
  · rw [if_neg hneed] at h
    push Not at hneed
    obtain ⟨-, hne, hfit⟩ := hneed
    split at h
    · exact nomatch h
    · rename_i v hmap
      have hring : posixipcQueueBytesSize cacheline depth itemSize ≠ 0 := by
        intro h0
        exact hne (by simp [posixipcFutexqBytesSize, h0])
      obtain ⟨-, -, hsb, -⟩ := posixipcQueueBytesSize_ne_zero hring
      obtain ⟨hpre, hal⟩ := posixipcFutexqPrefixSize_spec hsb
      refine ⟨_, v, (Except.ok.inj h).symm, hpre, ?_, fun h4 => ?_, hmap⟩
      · unfold posixipcFutexqBytesSize at hne hfit
        simp only at hne hfit
        rw [if_neg (by push Not; exact ⟨by omega, hring⟩)] at hne hfit
        by_cases hover : posixipcFutexqPrefixSize cacheline
            > uint32Max - posixipcQueueBytesSize cacheline depth itemSize
        · rw [if_pos hover] at hne
          exact absurd rfl hne
        · rw [if_neg hover, u32_of_le (by omega)] at hfit
          omega
      · rcases hal with hdvd | hone
        · exact h4.trans hdvd
        · -- a line of no bytes at all: nothing is padded
          obtain rfl : cacheline = 0 := by omega
          decide

/-! ## The parts are disjoint and inside -/

/-- Where the parts of a view are. -/
structure Laid (cacheline base nbytes : ℕ) (v : View) (ranges : List ByteRange) : Prop where
  inside : ∀ r ∈ ranges, base ≤ r.start ∧ r.stop ≤ base + nbytes
  disjoint : ranges.Pairwise ByteRange.Disjoint
  /-- A cache line holds whole words. -/
  aligned : 4 ∣ cacheline → cacheline ∣ base → ∀ i, 4 ∣ (Loc.range v (.state i)).start

section Laid

variable {cacheline base nbytes : ℕ} {v : View}

/-- An item ends before the next one starts. -/
theorem View.itemRange_le (hv : v.Valid) {i j : ℕ} (hij : i < j) :
    (v.itemRange i).stop ≤ (v.itemRange j).start := by
  have hstride := Nat.mul_le_mul_right v.stride (show i + 1 ≤ j by omega)
  have := hv.itemSize_le
  simp only [View.itemRange]
  rw [Nat.add_mul] at hstride
  omega

/-- The slot states are aligned. -/
theorem Placement.state_aligned (h : Placement cacheline base nbytes v) (h4 : 4 ∣ cacheline)
    (hbase : 4 ∣ base) (i : ℕ) : 4 ∣ (Loc.range v (.state i)).start := by
  have hcb : 4 ∣ ctrlBytes cacheline := by
    rcases h.aligned with hdvd | hone
    · exact h4.trans hdvd
    · obtain rfl : cacheline = 0 := by omega
      decide
  show 4 ∣ v.state.getD 0 + 4 * i
  rw [h.state, Option.getD_some]
  exact Dvd.dvd.add (Dvd.dvd.add hbase hcb) (Dvd.intro _ rfl)

/-- The parts of a mapped queue do not overlap. -/
theorem Placement.laid (h : Placement cacheline base nbytes v) (hv : v.Valid) :
    Laid cacheline base nbytes v v.ranges := by
  have hitem : ∀ i, i < v.depth →
      base + ctrlBytes cacheline + stateBytes cacheline v.depth ≤ (v.itemRange i).start ∧
        (v.itemRange i).stop ≤ base + nbytes := by
    intro i hi
    have hlast := Nat.mul_le_mul_right v.stride (show i + 1 ≤ v.depth by omega)
    have := hv.itemSize_le
    have := h.fits
    simp only [View.itemRange, h.payload, Option.getD_some]
    rw [Nat.add_mul] at hlast
    omega
  have hctrl : v.ctrlRange = ⟨base, base + sizeofQueueCtrl⟩ := by
    rw [View.ctrlRange, h.ctrl, Option.getD_some]
  have hstate : v.stateRange
      = ⟨base + ctrlBytes cacheline, base + ctrlBytes cacheline + 4 * v.depth⟩ := by
    rw [View.stateRange, h.state, Option.getD_some]
  have h1 := h.ctrl_le
  have h2 := h.state_le
  have h3 := h.fits
  constructor
  · intro r hr
    simp only [View.ranges, List.mem_cons, List.mem_map, List.mem_range] at hr
    rcases hr with rfl | rfl | ⟨i, hi, rfl⟩
    · rw [hctrl]
      exact ⟨le_rfl, by simp only; omega⟩
    · rw [hstate]
      exact ⟨by simp only; omega, by simp only; omega⟩
    · obtain ⟨hlo, hhi⟩ := hitem i hi
      exact ⟨by omega, hhi⟩
  · simp only [View.ranges, List.pairwise_cons, List.mem_cons, List.mem_map, List.mem_range,
      List.pairwise_map]
    refine ⟨?_, ?_, ?_⟩
    · rintro r (rfl | ⟨i, hi, rfl⟩)
      · left
        rw [hctrl, hstate]
        simp only
        omega
      · left
        rw [hctrl]
        have := (hitem i hi).1
        simp only
        omega
    · rintro r ⟨i, hi, rfl⟩
      left
      rw [hstate]
      have := (hitem i hi).1
      simp only
      omega
    · exact List.pairwise_lt_range.imp fun hij => Or.inl (v.itemRange_le hv hij)
  · exact fun h4 hbase i => h.state_aligned h4 (h4.trans hbase) i

/-- The futex words stand in front of the ring. -/
theorem posixipcFutexqMap_laid {depth itemSize : ℕ} {fv : FutexqView}
    (h : posixipcFutexqMap cacheline (some base) nbytes depth itemSize = .ok fv) :
    Laid cacheline base nbytes fv.view fv.ranges := by
  obtain ⟨pre, v, rfl, hpre, hroom, hal, hmap⟩ := posixipcFutexqMap_ok h
  have hplace := posixipcQueueMap_placement hmap
  have hlaid := hplace.laid (posixipcQueueMap_valid hmap).1
  constructor
  · intro r hr
    simp only [FutexqView.ranges, List.mem_cons, Option.getD_some] at hr
    rcases hr with rfl | rfl | hr
    · exact ⟨le_rfl, by simp only; omega⟩
    · exact ⟨by simp only; omega, by simp only; omega⟩
    · obtain ⟨hlo, hhi⟩ := hlaid.inside r hr
      exact ⟨by omega, by omega⟩
  · simp only [FutexqView.ranges, List.pairwise_cons, List.mem_cons, Option.getD_some]
    refine ⟨?_, ?_, hlaid.disjoint⟩
    · rintro r (rfl | hr)
      · left
        simp only
        omega
      · have := (hlaid.inside r hr).1
        left
        simp only
        omega
    · intro r hr
      have := (hlaid.inside r hr).1
      left
      simp only
      omega
  · exact fun h4 hbase i =>
      hplace.state_aligned h4 (Dvd.dvd.add (h4.trans hbase) (hal h4)) i

end Laid

/-! ## The accesses -/

/-- A word of the control block or of the state array. -/
def Loc.isWord : Loc → Bool
  | .payload _ => false
  | _ => true

/-- Whatever the memory holds, every access is one to the ring, and at most `k` of them are to
words. -/
def Bounded {α : Type} (v : View) (k : ℕ) (p : RingProg α) : Prop :=
  ∀ m, (∀ l ∈ p.touches m, l.Fits v) ∧ (p.touches m).countP Loc.isWord ≤ k

section Bounded

variable {v : View} {α β : Type}

/-- A control word is in the ring's memory. -/
theorem Loc.fits_word {l : Loc} (hstate : ∀ i, l ≠ .state i) (hpayload : ∀ off, l ≠ .payload off) :
    l.Fits v := by
  cases l with
  | state i => exact absurd rfl (hstate i)
  | payload off => exact absurd rfl (hpayload off)
  | _ =>
      refine ⟨List.mem_cons_self, ?_, ?_⟩
      · simp only [Loc.range, Loc.home, View.ctrlRange]
        omega
      · simp only [Loc.range, Loc.home, View.ctrlRange, sizeofQueueCtrl]
        omega

/-- The state of a slot is in the ring's memory. -/
theorem Loc.fits_state {i : ℕ} (hi : i < v.depth) : (Loc.state i).Fits v := by
  refine ⟨List.mem_cons_of_mem _ List.mem_cons_self, ?_, ?_⟩
  · simp only [Loc.range, Loc.home, View.stateRange]
    omega
  · simp only [Loc.range, Loc.home, View.stateRange]
    omega

/-- Byte `j` of item `i`. -/
theorem Loc.fits_payload (hv : v.Valid) {i j : ℕ} (hi : i < v.depth) (hj : j < v.itemSize) :
    (Loc.payload (i * v.stride + j)).Fits v := by
  have hle := hv.itemSize_le
  have hdiv : (i * v.stride + j) / v.stride = i := by
    rw [Nat.mul_comm, Nat.mul_add_div (by omega), Nat.div_eq_of_lt (by omega), Nat.add_zero]
  have hhome : (Loc.payload (i * v.stride + j)).home v = v.itemRange i := by
    rw [Loc.home, hdiv]
  rw [Loc.Fits, hhome]
  refine ⟨?_, ?_, ?_⟩
  · exact List.mem_cons_of_mem _ (List.mem_cons_of_mem _
      (List.mem_map_of_mem (List.mem_range.mpr hi)))
  · simp only [Loc.range, View.itemRange]
    omega
  · simp only [Loc.range, View.itemRange]
    omega

/-- A larger bound is a bound. -/
theorem Bounded.mono {p : RingProg α} {k n : ℕ} (h : Bounded v k p) (hk : k ≤ n) :
    Bounded v n p := fun m => ⟨(h m).1, (h m).2.trans hk⟩

/-- A value makes no access. -/
theorem bounded_pure (a : α) : Bounded v 0 (pure a : RingProg α) := fun m =>
  ⟨by simp, by simp⟩

/-- A load is one access. -/
theorem bounded_read {l : Loc} (hl : l.Fits v) : Bounded v 1 (Prog.read l) := fun m =>
  ⟨by simpa using hl, (List.countP_le_length).trans (by simp)⟩

/-- A store is one access. -/
theorem bounded_write {l : Loc} (hl : l.Fits v) (x : ℕ) : Bounded v 1 (Prog.write l x) :=
  fun m => ⟨by simpa using hl, (List.countP_le_length).trans (by simp)⟩

/-- The accesses of two programs add up. -/
theorem Bounded.bind {p : RingProg α} {f : α → RingProg β} {a b : ℕ} (hp : Bounded v a p)
    (hf : ∀ x, Bounded v b (f x)) : Bounded v (a + b) (p >>= f) := by
  intro m
  obtain ⟨hp1, hp2⟩ := hp m
  obtain ⟨hf1, hf2⟩ := hf (p.exec m).1 (p.exec m).2
  rw [Prog.touches_bind]
  constructor
  · intro l hl
    rcases List.mem_append.mp hl with hl | hl
    · exact hp1 l hl
    · exact hf1 l hl
  · rw [List.countP_append]
    omega

/-- A loop whose rounds make at most `c` accesses to words each. -/
theorem bounded_forFrom {body : ℕ → RingProg Unit} {i n c : ℕ}
    (h : ∀ j, i ≤ j → j < i + n → Bounded v c (body j)) : Bounded v (c * n) (forFrom body i n) := by
  induction n generalizing i with
  | zero => exact bounded_pure ()
  | succ n ih =>
      rw [forFrom]
      refine ((h i le_rfl (by omega)).bind fun _ =>
        ih fun j hj hj' => h j (by omega) (by omega)).mono ?_
      rw [Nat.mul_succ]
      omega

/-- The scan reads a state and may write it, for each slot. -/
theorem bounded_recoverScan {i n ready : ℕ} (hin : i + n ≤ v.depth) :
    Bounded v (2 * n) (recoverScan i n ready) := by
  induction n generalizing i ready with
  | zero => exact bounded_pure _
  | succ n ih =>
      have hstate : (Loc.state i).Fits v := Loc.fits_state (by omega)
      have hrest : ∀ r, Bounded v (2 * n) (recoverScan (i + 1) n r) := fun r => ih (by omega)
      rw [recoverScan]
      refine ((bounded_read hstate).bind (b := 1 + 2 * n) fun st => ?_).mono (by omega)
      split_ifs
      · exact (bounded_write hstate _).bind fun _ => hrest _
      · exact (bounded_write hstate _).bind fun _ => hrest _
      · exact (hrest _).mono (by omega)
      · exact (bounded_write hstate _).bind fun _ => hrest _
      · exact (hrest _).mono (by omega)

/-- The search for the head reads a state for each slot. -/
theorem bounded_recoverHead {i n : ℕ} (hin : i + n ≤ v.depth) :
    Bounded v (n + 1) (recoverHead i n) := by
  induction n generalizing i with
  | zero => exact (bounded_pure ()).mono (by omega)
  | succ n ih =>
      rw [recoverHead]
      refine ((bounded_read (Loc.fits_state (by omega))).bind (b := n + 1) fun st => ?_).mono
        (by omega)
      split_ifs
      · exact (bounded_write (Loc.fits_word (by simp) (by simp)) _).mono (by omega)
      · exact ih (by omega)

/-- The bytes of an item are copied out without an access to a word. -/
theorem bounded_memcpyOut {off n : ℕ} (h : ∀ j, j < n → (Loc.payload (off + j)).Fits v) :
    Bounded v 0 (memcpyOut off n) := by
  induction n generalizing off with
  | zero => exact bounded_pure _
  | succ n ih =>
      have hread : Bounded v 0 (Prog.read (.payload off)) := fun m =>
        ⟨by simpa using h 0 (by omega), by simp [Loc.isWord]⟩
      rw [memcpyOut]
      refine hread.bind fun b => (ih fun j hj => ?_).bind fun rest => bounded_pure _
      rw [show off + 1 + j = off + (j + 1) by omega]
      exact h (j + 1) (by omega)

/-- The copy stays in the payload of its slot. -/
theorem bounded_memcpyIn {idx : ℕ} {data : ℕ → UInt8}
    (h : ∀ j, j < v.itemSize → (Loc.payload (idx * v.stride + j)).Fits v) :
    Bounded v 0 (memcpyIn v idx data) := by
  have hloop : Bounded v (0 * v.itemSize) (memcpyIn v idx data) := by
    refine bounded_forFrom fun j _ hj m => ?_
    exact ⟨by simpa using h j (by omega), by simp [Loc.isWord]⟩
  exact hloop.mono (by omega)

end Bounded

/-! ## The operations -/

/-- The functions of `posixipc_queue.c` that touch a ring. -/
inductive CoreCall
  | initCtrl
  | put (data : ℕ → UInt8)
  | get
  | recover
  | qsize

/-- Whatever the ring holds, the call stays inside it, and its accesses to words are bounded by
the depth. -/
def CoreCall.Safe (v : View) : CoreCall → Prop
  | .initCtrl => Bounded v (3 * v.depth + 8) (posixipcQueueInitCtrl v)
  | .put data => Bounded v (3 * v.depth + 8) (posixipcQueuePut v data)
  | .get => Bounded v (3 * v.depth + 8) (posixipcQueueGet v)
  | .recover => Bounded v (3 * v.depth + 8) (posixipcQueueRecover v)
  | .qsize => Bounded v (3 * v.depth + 8) (posixipcQueueQsize v)

section Operations

variable {v : View}

/-- `posixipc_queue_init_ctrl` stays in the ring's memory. -/
theorem bounded_initCtrl : Bounded v (v.depth + 8) (posixipcQueueInitCtrl v) := by
  have hword : ∀ {l : Loc} (x : ℕ), (∀ i, l ≠ .state i) → (∀ off, l ≠ .payload off) →
      Bounded v 1 (Prog.write l x) := fun x h1 h2 => bounded_write (Loc.fits_word h1 h2) x
  have hloop : Bounded v (1 * v.depth)
      (forFrom (fun i => Prog.write (.state i) queueEmpty) 0 v.depth) :=
    bounded_forFrom fun j _ hj => bounded_write (Loc.fits_state (by omega)) _
  unfold posixipcQueueInitCtrl
  split_ifs
  · exact (bounded_pure _).mono (by omega)
  · refine Bounded.mono ?_ (show 1 + (1 + (1 + (1 + (1 + (1 + (1 + (1 + (1 * v.depth + 0))))))))
      ≤ v.depth + 8 by omega)
    iterate 8 refine (hword _ (by simp) (by simp)).bind fun _ => ?_
    exact hloop.bind fun _ => bounded_pure _

/-- `posixipc_queue_put` stays in the ring's memory. -/
theorem bounded_put (hv : v.Valid) (data : ℕ → UInt8) :
    Bounded v 7 (posixipcQueuePut v data) := by
  have hcount : (Loc.count).Fits v := Loc.fits_word (by simp) (by simp)
  have htail : (Loc.tail).Fits v := Loc.fits_word (by simp) (by simp)
  rw [posixipcQueuePut, if_neg hv.ctrl_ne]
  refine (bounded_read hcount).bind (b := 6) fun c => ?_
  by_cases hfull : c ≥ v.depth
  · rw [if_pos hfull]
    exact (bounded_pure _).mono (by omega)
  rw [if_neg hfull]
  refine (bounded_read htail).bind (b := 5) fun idx => ?_
  by_cases hidx : idx ≥ v.depth
  · rw [if_pos hidx]
    exact (bounded_pure _).mono (by omega)
  rw [if_neg hidx]
  -- the index that was read from the ring is below the depth from here on
  have hstate : (Loc.state idx).Fits v := Loc.fits_state (by omega)
  refine (bounded_write hstate _).bind (b := 4) fun _ => ?_
  refine ((bounded_memcpyIn fun j hj => Loc.fits_payload hv (by omega) hj).bind (b := 4)
    fun _ => ?_).mono (by omega)
  refine (bounded_write hstate _).bind (b := 3) fun _ => ?_
  refine (bounded_write htail _).bind (b := 2) fun _ => ?_
  refine (bounded_read hcount).bind (b := 1) fun _ => ?_
  exact (bounded_write hcount _).bind fun _ => bounded_pure _

/-- `posixipc_queue_get` stays in the ring's memory. -/
theorem bounded_get (hv : v.Valid) : Bounded v 8 (posixipcQueueGet v) := by
  have hcount : (Loc.count).Fits v := Loc.fits_word (by simp) (by simp)
  have hhead : (Loc.head).Fits v := Loc.fits_word (by simp) (by simp)
  rw [posixipcQueueGet, if_neg hv.ctrl_ne]
  refine (bounded_read hcount).bind (b := 7) fun c => ?_
  by_cases hempty : c = 0
  · rw [if_pos hempty]
    exact (bounded_pure _).mono (by omega)
  rw [if_neg hempty]
  refine (bounded_read hhead).bind (b := 6) fun idx => ?_
  by_cases hidx : idx ≥ v.depth
  · rw [if_pos hidx]
    exact (bounded_pure _).mono (by omega)
  rw [if_neg hidx]
  have hstate : (Loc.state idx).Fits v := Loc.fits_state (by omega)
  refine (bounded_read hstate).bind (b := 5) fun st => ?_
  by_cases hready : st ≠ queueReady
  · rw [if_pos hready]
    exact (bounded_pure _).mono (by omega)
  rw [if_neg hready]
  refine (bounded_write hstate _).bind (b := 4) fun _ => ?_
  refine ((bounded_memcpyOut fun j hj => Loc.fits_payload hv (by omega) hj).bind (b := 4)
    fun data => ?_).mono (by omega)
  refine (bounded_write hstate _).bind (b := 3) fun _ => ?_
  refine (bounded_write hhead _).bind (b := 2) fun _ => ?_
  refine (bounded_read hcount).bind (b := 1) fun _ => ?_
  exact (bounded_write hcount _).bind fun _ => bounded_pure _

/-- `posixipc_queue_recover` stays in the ring's memory. -/
theorem bounded_recover : Bounded v (3 * v.depth + 4) (posixipcQueueRecover v) := by
  have hcount : (Loc.count).Fits v := Loc.fits_word (by simp) (by simp)
  have hhead : (Loc.head).Fits v := Loc.fits_word (by simp) (by simp)
  have htail : (Loc.tail).Fits v := Loc.fits_word (by simp) (by simp)
  unfold posixipcQueueRecover
  split_ifs
  · exact (bounded_pure _).mono (by omega)
  · refine ((bounded_recoverScan (i := 0) (n := v.depth) (by omega)).bind
      (b := v.depth + 4) fun ready => ?_).mono (by omega)
    refine ((bounded_write hcount _).bind (b := v.depth + 3) fun _ => ?_).mono (by omega)
    by_cases h0 : ready = 0
    · rw [if_pos h0]
      refine ((bounded_write hhead _).bind (b := 1) fun _ => ?_).mono (by omega)
      exact (bounded_write htail _).bind fun _ => bounded_pure _
    · rw [if_neg h0]
      refine ((bounded_recoverHead (i := 0) (n := v.depth) (by omega)).bind (b := 2)
        fun _ => ?_).mono (by omega)
      refine (bounded_read hhead).bind (b := 1) fun _ => ?_
      exact (bounded_write htail _).bind fun _ => bounded_pure _

/-- `posixipc_queue_qsize` stays in the ring's memory. -/
theorem bounded_qsize : Bounded v 1 (posixipcQueueQsize v) := by
  unfold posixipcQueueQsize
  split_ifs
  · exact (bounded_pure _).mono (by omega)
  · exact (bounded_read (Loc.fits_word (by simp) (by simp))).bind fun _ => bounded_pure _

/-- **Every core call** stays in the ring's memory. -/
theorem CoreCall.safe (hv : v.Valid) (call : CoreCall) : call.Safe v := by
  cases call with
  | initCtrl => exact bounded_initCtrl.mono (by omega)
  | put data => exact (bounded_put hv data).mono (by omega)
  | get => exact (bounded_get hv).mono (by omega)
  | recover => exact bounded_recover.mono (by omega)
  | qsize => exact bounded_qsize.mono (by omega)

end Operations

/-- The bytes of a cell of the futex queue in slot `slot`, and the part they are meant for. -/
def FutexqView.homeOf (fv : FutexqView) (slot : ℕ) : Cell → Option (ByteRange × ByteRange)
  | .notFull i =>
    let r := ⟨fv.notFull.getD 0, fv.notFull.getD 0 + 4⟩
    if i = slot then some (r, r) else none
  | .notEmpty i =>
    let r := ⟨fv.notEmpty.getD 0, fv.notEmpty.getD 0 + 4⟩
    if i = slot then some (r, r) else none
  | .ring i l => if i = slot then some (l.range fv.view, l.home fv.view) else none
  | _ => none

/-- The cell is one of the futex queue. -/
def FutexqView.Owns (fv : FutexqView) (slot : ℕ) (c : Cell) : Prop :=
  ∃ a b, fv.homeOf slot c = some (a, b) ∧ b ∈ fv.ranges ∧ a.Within b

/-- `posixipc_futexq_init` stays inside the storage of the futex queue. -/
theorem futexqInit_owns {fv : FutexqView} (slot : ℕ) (m : SegMem) {c : Cell}
    (hc : c ∈ Prog.touches (posixipcFutexqInit slot fv) m) : fv.Owns slot c := by
  have hinj : Function.Injective (Cell.ring slot) := fun a b h => by simpa using h
  rw [posixipcFutexqInit, Prog.touches_bind, Prog.touches_bind, Prog.touches_write,
    Prog.touches_write, Prog.touches_relocate hinj] at hc
  simp only [List.mem_append, List.mem_singleton, List.mem_map] at hc
  rcases hc with rfl | rfl | ⟨l, hl, rfl⟩
  · exact ⟨_, _, if_pos rfl, List.mem_cons_self, le_rfl, le_rfl⟩
  · exact ⟨_, _, if_pos rfl, List.mem_cons_of_mem _ List.mem_cons_self, le_rfl, le_rfl⟩
  · obtain ⟨hhome, hwithin⟩ := (bounded_initCtrl _).1 l hl
    exact ⟨_, _, if_pos rfl, List.mem_cons_of_mem _ (List.mem_cons_of_mem _ hhome), hwithin⟩

/-- A word of a futex queue. -/
def Cell.isWord : Cell → Bool
  | .ring _ l => l.isWord
  | _ => true

/-- The accesses of `posixipc_futexq_init` to words are bounded by the depth. -/
theorem countP_futexqInit (fv : FutexqView) (slot : ℕ) (m : SegMem) :
    (Prog.touches (posixipcFutexqInit slot fv) m).countP Cell.isWord ≤ fv.view.depth + 10 := by
  have hinj : Function.Injective (Cell.ring slot) := fun a b h => by simpa using h
  have hcomp : Cell.isWord ∘ Cell.ring slot = Loc.isWord := rfl
  have hring := (bounded_initCtrl (v := fv.view)
    (Function.update (Function.update m (.notFull slot) 0) (.notEmpty slot) 0 ∘ Cell.ring slot)).2
  rw [posixipcFutexqInit, Prog.touches_bind, Prog.touches_bind, Prog.touches_write,
    Prog.touches_write, Prog.touches_relocate hinj, List.countP_append, List.countP_append,
    List.countP_map, hcomp]
  simp only [Prog.exec_write, List.countP_singleton, Cell.isWord, if_true]
  omega

/-- **The storage of a queue is safe for every content.**  For every geometry and size that a
map accepts, the parts of the queue lie apart from one another inside the mapped bytes, with
aligned state words on an aligned base; and whatever the bytes hold, every access of an
operation falls into the part it is meant for, the accesses to words being bounded by the
depth. -/
theorem queue_storage_safe (cacheline base nbytes depth itemSize : ℕ) :
    (∀ v, posixipcQueueMap cacheline (some base) nbytes depth itemSize = .ok v →
      Laid cacheline base nbytes v v.ranges ∧ ∀ call : CoreCall, call.Safe v) ∧
    (∀ fv, posixipcFutexqMap cacheline (some base) nbytes depth itemSize = .ok fv →
      Laid cacheline base nbytes fv.view fv.ranges ∧
      (∀ call : CoreCall, call.Safe fv.view) ∧
      ∀ slot m, (∀ c ∈ Prog.touches (posixipcFutexqInit slot fv) m, fv.Owns slot c) ∧
        (Prog.touches (posixipcFutexqInit slot fv) m).countP Cell.isWord
          ≤ fv.view.depth + 10) := by
  constructor
  · intro v h
    have hv := (posixipcQueueMap_valid h).1
    exact ⟨(posixipcQueueMap_placement h).laid hv, fun call => call.safe hv⟩
  · intro fv h
    have hv := (posixipcFutexqMap_valid h).1
    exact ⟨posixipcFutexqMap_laid h, fun call => call.safe hv, fun slot m =>
      ⟨fun c hc => futexqInit_owns slot m hc, countP_futexqInit fv slot m⟩⟩

/-- A futex queue of four items of eight bytes, behind a header of 64 bytes. -/
theorem queue_storage_safe_four :
    ∃ fv, posixipcFutexqMap 64 (some 64) 512 4 8 = .ok fv ∧
      fv.ranges = [⟨64, 68⟩, ⟨68, 72⟩, ⟨128, 152⟩, ⟨192, 208⟩, ⟨256, 264⟩, ⟨320, 328⟩,
        ⟨384, 392⟩, ⟨448, 456⟩] ∧
      Laid 64 64 512 fv.view fv.ranges ∧ CoreCall.recover.Safe fv.view := by
  have hmap : posixipcFutexqMap 64 (some 64) 512 4 8
      = .ok ⟨some 64, some 68, ⟨some 128, some 192, some 256, 4, 8, 64⟩⟩ := by decide +kernel
  obtain ⟨hlaid, hsafe, -⟩ := (queue_storage_safe 64 64 512 4 8).2 _ hmap
  exact ⟨_, hmap, by decide +kernel, hlaid, hsafe .recover⟩

end PosixIpc
