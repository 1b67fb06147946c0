/-
# The size of a queue, exactly

`posixipc_queue_bytes_size` and `posixipc_futexq_bytes_size` compute with guarded 32-bit steps
and answer `0` when the geometry does not fit.  Here they are compared with the same sums over
the integers:

* `queueExtent`, `futexqExtent` : the bytes a geometry takes, with no bound on the numbers;
* `posixipcQueueBytesSizeChecked` and the like : the same code over an arithmetic that stops at
  the first operation whose exact result is not a 32-bit word.

The main result is `queue_sizes_exact`.
-/
import PosixIpc.QueueRingBounds

namespace PosixIpc

open Word32

/-! ## The exact sums -/

/-- The control words, the state array and the items, each on lines of its own. -/
def queueExtent (cacheline depth itemSize : ℕ) : ℕ :=
  roundUp sizeofQueueCtrl cacheline + roundUp (4 * depth) cacheline
    + depth * roundUp itemSize cacheline

/-- A futex queue has its two words in front. -/
def futexqExtent (cacheline depth itemSize : ℕ) : ℕ :=
  roundUp 8 cacheline + queueExtent cacheline depth itemSize

/-! ## The code over checked words -/

/-- `align_up`. -/
def alignUpChecked (value align : ℕ) : Option ℕ :=
  if align ≤ 1 then some value
  else do
    let mask ← checkedSub align 1
    if align &&& mask ≠ 0 then some 0
    else do
      let room ← checkedSub uint32Max mask
      if value > room then some 0
      else do
        let sum ← checked (value + mask)
        some (sum &&& not32 mask)

/-- `ctrl_bytes`. -/
def ctrlBytesChecked (cacheline : ℕ) : Option ℕ := do
  let n ← alignUpChecked sizeofQueueCtrl cacheline
  if n = 0 then some cacheline else some n

/-- `state_bytes`. -/
def stateBytesChecked (cacheline depth : ℕ) : Option ℕ :=
  if depth = 0 ∨ depth > uint32Max / 4 then some 0
  else do
    let raw ← checked (depth * 4)
    alignUpChecked raw cacheline

/-- `posixipc_queue_bytes_size`. -/
def posixipcQueueBytesSizeChecked (cacheline depth itemSize : ℕ) : Option ℕ :=
  if depth < 1 ∨ itemSize < 1 then some 0
  else do
    let cb ← ctrlBytesChecked cacheline
    let sb ← stateBytesChecked cacheline depth
    let stride ← alignUpChecked itemSize cacheline
    if cb = 0 ∨ sb = 0 ∨ stride = 0 then some 0
    else if depth > uint32Max / stride then some 0
    else do
      let payload ← checked (depth * stride)
      let room ← checkedSub uint32Max sb
      if cb > room then some 0
      else do
        let total ← checked (cb + sb)
        let rest ← checkedSub uint32Max payload
        if total > rest then some 0
        else checked (total + payload)

/-- `posixipc_futexq_prefix_size`. -/
def posixipcFutexqPrefixSizeChecked (cacheline : ℕ) : Option ℕ := do
  let n ← alignUpChecked 8 cacheline
  if n = 0 then some cacheline else some n

/-- `posixipc_futexq_bytes_size`. -/
def posixipcFutexqBytesSizeChecked (cacheline depth itemSize : ℕ) : Option ℕ := do
  let pre ← posixipcFutexqPrefixSizeChecked cacheline
  let ring ← posixipcQueueBytesSizeChecked cacheline depth itemSize
  if pre = 0 ∨ ring = 0 then some 0
  else do
    let room ← checkedSub uint32Max ring
    if pre > room then some 0
    else checked (pre + ring)

/-! ## No operation wraps -/

section Checked

variable {cacheline depth itemSize : ℕ}

/-- A `uint32_t` is rounded to a `uint32_t`. -/
theorem alignUp_le_max {value align : ℕ} (hv : value ≤ uint32Max) :
    alignUp value align ≤ uint32Max := by
  unfold alignUp
  split_ifs with h1
  · exact hv
  · simp only
    split_ifs
    · exact Nat.zero_le _
    · exact Nat.zero_le _
    · refine Nat.and_le_left.trans ?_
      unfold u32 uint32Max
      omega

/-- **No sum wraps around** in `posixipc_align_up`: the test before it refuses. -/
theorem alignUpChecked_eq {value align : ℕ} (ha : align ≤ uint32Max) :
    alignUpChecked value align = some (alignUp value align) := by
  unfold alignUpChecked alignUp
  by_cases h1 : align ≤ 1
  · rw [if_pos h1, if_pos h1]
  · rw [if_neg h1, if_neg h1, checkedSub_of_le (by omega)]
    simp only [Option.bind_eq_bind, Option.bind_some]
    by_cases hmask : align &&& (align - 1) ≠ 0
    · rw [if_pos hmask, if_pos hmask]
    · rw [if_neg hmask, if_neg hmask, checkedSub_of_le (by omega)]
      simp only [Option.bind_some]
      by_cases hroom : value > uint32Max - (align - 1)
      · rw [if_pos hroom, if_pos hroom]
      · have hsum : value + (align - 1) ≤ uint32Max := by omega
        rw [if_neg hroom, if_neg hroom, checked_of_le hsum, u32_of_le hsum]
        rfl

/-- No sum wraps around in the size of the control words. -/
theorem ctrlBytesChecked_eq (hC : cacheline ≤ uint32Max) :
    ctrlBytesChecked cacheline = some (ctrlBytes cacheline) := by
  unfold ctrlBytesChecked ctrlBytes
  rw [alignUpChecked_eq hC]
  exact (apply_ite some _ _ _).symm

/-- No sum wraps around in the size of the futex words. -/
theorem posixipcFutexqPrefixSizeChecked_eq (hC : cacheline ≤ uint32Max) :
    posixipcFutexqPrefixSizeChecked cacheline = some (posixipcFutexqPrefixSize cacheline) := by
  unfold posixipcFutexqPrefixSizeChecked posixipcFutexqPrefixSize
  rw [alignUpChecked_eq hC]
  exact (apply_ite some _ _ _).symm

/-- No product wraps around in the size of the slot states. -/
theorem stateBytesChecked_eq (hC : cacheline ≤ uint32Max) :
    stateBytesChecked cacheline depth = some (stateBytes cacheline depth) := by
  unfold stateBytesChecked stateBytes
  by_cases hd : depth = 0 ∨ depth > uint32Max / 4
  · rw [if_pos hd, if_pos hd]
  · have hraw : depth * 4 ≤ uint32Max := by
      unfold uint32Max at *
      omega
    rw [if_neg hd, if_neg hd, checked_of_le hraw, u32_of_le hraw]
    exact alignUpChecked_eq hC

/-- The size of the slot states is a `uint32_t`. -/
theorem stateBytes_le_max : stateBytes cacheline depth ≤ uint32Max := by
  unfold stateBytes
  split_ifs
  · exact Nat.zero_le _
  · exact alignUp_le_max (by unfold u32 uint32Max; omega)

/-- No sum or product wraps around in the size of a `Queue`. -/
theorem posixipcQueueBytesSizeChecked_eq (hC : cacheline ≤ uint32Max) :
    posixipcQueueBytesSizeChecked cacheline depth itemSize
      = some (posixipcQueueBytesSize cacheline depth itemSize) := by
  unfold posixipcQueueBytesSizeChecked posixipcQueueBytesSize
  by_cases hpos : depth < 1 ∨ itemSize < 1
  · rw [if_pos hpos, if_pos hpos]
  · rw [if_neg hpos, if_neg hpos, ctrlBytesChecked_eq hC, stateBytesChecked_eq hC,
      alignUpChecked_eq hC]
    simp only [Option.bind_eq_bind, Option.bind_some]
    have hsb : stateBytes cacheline depth ≤ uint32Max := stateBytes_le_max
    generalize ctrlBytes cacheline = cb
    generalize stateBytes cacheline depth = sb at hsb ⊢
    generalize alignUp itemSize cacheline = stride
    by_cases h0 : cb = 0 ∨ sb = 0 ∨ stride = 0
    · rw [if_pos h0, if_pos h0]
    rw [if_neg h0, if_neg h0]
    by_cases h1 : depth > uint32Max / stride
    · rw [if_pos h1, if_pos h1]
    have hpay : depth * stride ≤ uint32Max :=
      (Nat.le_div_iff_mul_le (by omega)).mp (Nat.not_lt.mp h1)
    rw [if_neg h1, if_neg h1, checked_of_le hpay, u32_of_le hpay, checkedSub_of_le hsb]
    simp only [Option.bind_some]
    by_cases h2 : cb > uint32Max - sb
    · rw [if_pos h2, if_pos h2]
    have htot : cb + sb ≤ uint32Max := by omega
    rw [if_neg h2, if_neg h2, checked_of_le htot, u32_of_le htot, checkedSub_of_le hpay]
    simp only [Option.bind_some]
    by_cases h3 : cb + sb > uint32Max - depth * stride
    · rw [if_pos h3, if_pos h3]
    have hall : cb + sb + depth * stride ≤ uint32Max := by omega
    rw [if_neg h3, if_neg h3, checked_of_le hall, u32_of_le hall]

/-- The size of a `Queue` is a `uint32_t`. -/
theorem posixipcQueueBytesSize_le_max :
    posixipcQueueBytesSize cacheline depth itemSize ≤ uint32Max := by
  have hword : ∀ n, u32 n ≤ uint32Max := by
    intro n
    unfold u32 uint32Max
    omega
  unfold posixipcQueueBytesSize
  split_ifs
  · exact Nat.zero_le _
  · simp only
    split_ifs <;> first | exact Nat.zero_le _ | exact hword _

/-- No sum or product wraps around in the size of a `FutexQueue`. -/
theorem posixipcFutexqBytesSizeChecked_eq (hC : cacheline ≤ uint32Max) :
    posixipcFutexqBytesSizeChecked cacheline depth itemSize
      = some (posixipcFutexqBytesSize cacheline depth itemSize) := by
  unfold posixipcFutexqBytesSizeChecked posixipcFutexqBytesSize
  rw [posixipcFutexqPrefixSizeChecked_eq hC, posixipcQueueBytesSizeChecked_eq hC]
  simp only [Option.bind_eq_bind, Option.bind_some]
  have hring : posixipcQueueBytesSize cacheline depth itemSize ≤ uint32Max :=
    posixipcQueueBytesSize_le_max
  generalize posixipcQueueBytesSize cacheline depth itemSize = ring at hring ⊢
  generalize posixipcFutexqPrefixSize cacheline = pre
  by_cases h0 : pre = 0 ∨ ring = 0
  · rw [if_pos h0, if_pos h0]
  rw [if_neg h0, if_neg h0, checkedSub_of_le hring]
  simp only [Option.bind_some]
  by_cases h1 : pre > uint32Max - ring
  · rw [if_pos h1, if_pos h1]
  have hsum : pre + ring ≤ uint32Max := by omega
  rw [if_neg h1, if_neg h1, checked_of_le hsum, u32_of_le hsum]

end Checked

/-! ## The values -/

section Exact

variable {k depth itemSize : ℕ}

/-- On a line that is a power of two the only failure of `align_up` is a result of more than
32 bits. -/
theorem alignUp_two_pow (value : ℕ) (hk : k < 32) :
    alignUp value (2 ^ k)
      = if roundUp value (2 ^ k) ≤ uint32Max then roundUp value (2 ^ k)
        else if k = 0 then value else 0 := by
  rcases Nat.eq_zero_or_pos k with rfl | hpos
  · have hone : roundUp value (2 ^ 0) = value := by simp [roundUp]
    rw [hone, alignUp, if_pos (by decide), if_pos rfl, ite_self]
  · have hgt : 1 < 2 ^ k := Nat.one_lt_two_pow hpos.ne'
    have hle : 2 ^ k ≤ uint32Max :=
      (Nat.pow_le_pow_right (by norm_num) (show k ≤ 31 by omega)).trans (by decide)
    have hmask : 2 ^ k &&& (2 ^ k - 1) = 0 := by simp
    by_cases hroom : value ≤ uint32Max - (2 ^ k - 1)
    · have hfit : roundUp value (2 ^ k) ≤ uint32Max := by
        refine (Nat.mul_div_le _ _).trans ?_
        omega
      rw [if_pos hfit, alignUp_eq_roundUp hgt hmask hroom hle]
    · -- the line divides `2 ^ 32`, so the rounded value has passed it
      have hbig : ¬ roundUp value (2 ^ k) ≤ uint32Max := by
        have hdvd : 2 ^ k ∣ 2 ^ 32 := pow_dvd_pow 2 hk.le
        have hge : 2 ^ 32 ≤ value + (2 ^ k - 1) := by
          unfold uint32Max at hroom hle
          omega
        have : 2 ^ 32 ≤ roundUp value (2 ^ k) := by
          calc 2 ^ 32 = 2 ^ k * (2 ^ 32 / 2 ^ k) := (Nat.mul_div_cancel' hdvd).symm
            _ ≤ roundUp value (2 ^ k) := Nat.mul_le_mul_left _ (Nat.div_le_div_right hge)
        unfold uint32Max
        omega
      rw [if_neg hbig, if_neg hpos.ne', alignUp, if_neg (by omega)]
      simp only [hmask, ne_eq, not_true_eq_false, if_false]
      rw [if_pos (by omega)]

/-- A word is rounded up exactly or not at all. -/
theorem alignUp_word {value : ℕ} (hk : k < 32) (hv : value ≤ uint32Max) :
    alignUp value (2 ^ k)
      = if roundUp value (2 ^ k) ≤ uint32Max then roundUp value (2 ^ k) else 0 := by
  rw [alignUp_two_pow value hk]
  by_cases hfit : roundUp value (2 ^ k) ≤ uint32Max
  · rw [if_pos hfit, if_pos hfit]
  · rcases Nat.eq_zero_or_pos k with rfl | hpos
    · exact absurd (by simpa [roundUp] using hv) hfit
    · rw [if_neg hfit, if_neg hfit, if_neg hpos.ne']

/-- The fixed parts are small: they are rounded up on every line. -/
theorem alignUp_const {value : ℕ} (hk : k < 32) (hpos : 0 < value) (hv : value ≤ 2 ^ 31) :
    alignUp value (2 ^ k) = roundUp value (2 ^ k) ∧ alignUp value (2 ^ k) ≠ 0 := by
  have hline : 2 ^ k ≤ 2 ^ 31 := Nat.pow_le_pow_right (by norm_num) (by omega)
  have hge : value ≤ roundUp value (2 ^ k) := le_roundUp value (Nat.two_pow_pos k)
  have hfit : roundUp value (2 ^ k) ≤ uint32Max := by
    refine (Nat.mul_div_le _ _).trans ?_
    unfold uint32Max
    omega
  rw [alignUp_two_pow value hk, if_pos hfit]
  exact ⟨rfl, by omega⟩

/-- The control words, for cache lines of `2 ^ k` bytes. -/
theorem ctrlBytes_two_pow (hk : k < 32) :
    ctrlBytes (2 ^ k) = roundUp sizeofQueueCtrl (2 ^ k) := by
  obtain ⟨heq, hne⟩ := alignUp_const hk (show 0 < sizeofQueueCtrl by decide) (by decide)
  unfold ctrlBytes
  rw [if_neg hne, heq]

/-- The futex words, for cache lines of `2 ^ k` bytes. -/
theorem posixipcFutexqPrefixSize_two_pow (hk : k < 32) :
    posixipcFutexqPrefixSize (2 ^ k) = roundUp 8 (2 ^ k) := by
  obtain ⟨heq, hne⟩ := alignUp_const hk (show 0 < 8 by decide) (by decide)
  unfold posixipcFutexqPrefixSize
  rw [if_neg hne, heq]

/-- The slot states, for cache lines of `2 ^ k` bytes; 0 if they do not fit. -/
theorem stateBytes_two_pow (hk : k < 32) (hd : 1 ≤ depth) :
    stateBytes (2 ^ k) depth
      = if roundUp (4 * depth) (2 ^ k) ≤ uint32Max then roundUp (4 * depth) (2 ^ k) else 0 := by
  have hge : 4 * depth ≤ roundUp (4 * depth) (2 ^ k) := le_roundUp _ (Nat.two_pow_pos k)
  unfold stateBytes
  by_cases hbig : depth > uint32Max / 4
  · rw [if_pos (Or.inr hbig), if_neg]
    unfold uint32Max at *
    omega
  · have hraw : depth * 4 ≤ uint32Max := by
      unfold uint32Max at *
      omega
    rw [if_neg (by omega), u32_of_le hraw, alignUp_word hk hraw, Nat.mul_comm depth 4]

/-- **The size of a ring**: the exact number of bytes, or `0` when that is not a word. -/
theorem posixipcQueueBytesSize_two_pow (hk : k < 32) (hi : itemSize ≤ uint32Max) :
    posixipcQueueBytesSize (2 ^ k) depth itemSize
      = if 1 ≤ depth ∧ 1 ≤ itemSize ∧ queueExtent (2 ^ k) depth itemSize ≤ uint32Max
        then queueExtent (2 ^ k) depth itemSize else 0 := by
  by_cases hpos : depth < 1 ∨ itemSize < 1
  · rw [posixipcQueueBytesSize, if_pos hpos, if_neg (by omega)]
  · push Not at hpos
    obtain ⟨hd1, hi1⟩ := hpos
    have hcb : sizeofQueueCtrl ≤ roundUp sizeofQueueCtrl (2 ^ k) :=
      le_roundUp _ (Nat.two_pow_pos k)
    have hsb : 4 * depth ≤ roundUp (4 * depth) (2 ^ k) := le_roundUp _ (Nat.two_pow_pos k)
    have hst : itemSize ≤ roundUp itemSize (2 ^ k) := le_roundUp _ (Nat.two_pow_pos k)
    unfold posixipcQueueBytesSize queueExtent
    rw [if_neg (by omega), ctrlBytes_two_pow hk, stateBytes_two_pow hk hd1, alignUp_word hk hi]
    generalize roundUp sizeofQueueCtrl (2 ^ k) = cb at hcb ⊢
    generalize roundUp (4 * depth) (2 ^ k) = sb at hsb ⊢
    generalize roundUp itemSize (2 ^ k) = stride at hst ⊢
    have hone : stride ≤ depth * stride := Nat.le_mul_of_pos_left _ hd1
    unfold sizeofQueueCtrl at hcb
    simp only [hd1, hi1, true_and]
    by_cases hsb' : sb ≤ uint32Max
    · by_cases hst' : stride ≤ uint32Max
      · rw [if_pos hsb', if_pos hst', if_neg (by omega)]
        by_cases hpay : depth * stride ≤ uint32Max
        · have hdiv : depth ≤ uint32Max / stride :=
            (Nat.le_div_iff_mul_le (by omega)).mpr hpay
          rw [if_neg (by omega), u32_of_le hpay]
          by_cases htot : cb + sb ≤ uint32Max
          · rw [if_neg (by omega), u32_of_le htot]
            by_cases hall : cb + sb + depth * stride ≤ uint32Max
            · rw [if_neg (by omega), u32_of_le hall, if_pos hall]
            · rw [if_pos (by omega), if_neg hall]
          · rw [if_pos (by omega), if_neg (by omega)]
        · have hdiv : ¬ depth ≤ uint32Max / stride := fun hle =>
            hpay ((Nat.le_div_iff_mul_le (by omega)).mp hle)
          rw [if_pos (by omega), if_neg (by omega)]
      · rw [if_neg hst', if_pos (by simp), if_neg (by omega)]
    · rw [if_neg hsb', if_pos (by simp), if_neg (by omega)]

/-- **The size of a futex queue.** -/
theorem posixipcFutexqBytesSize_two_pow (hk : k < 32) (hi : itemSize ≤ uint32Max) :
    posixipcFutexqBytesSize (2 ^ k) depth itemSize
      = if 1 ≤ depth ∧ 1 ≤ itemSize ∧ futexqExtent (2 ^ k) depth itemSize ≤ uint32Max
        then futexqExtent (2 ^ k) depth itemSize else 0 := by
  have hpre : 8 ≤ roundUp 8 (2 ^ k) := le_roundUp _ (Nat.two_pow_pos k)
  have hcb : sizeofQueueCtrl ≤ queueExtent (2 ^ k) depth itemSize := by
    have := le_roundUp sizeofQueueCtrl (Nat.two_pow_pos k)
    unfold queueExtent
    omega
  unfold sizeofQueueCtrl at hcb
  unfold posixipcFutexqBytesSize futexqExtent
  rw [posixipcFutexqPrefixSize_two_pow hk, posixipcQueueBytesSize_two_pow hk hi]
  generalize roundUp 8 (2 ^ k) = pre at hpre ⊢
  generalize queueExtent (2 ^ k) depth itemSize = ring at hcb ⊢
  simp only
  by_cases hring : 1 ≤ depth ∧ 1 ≤ itemSize ∧ ring ≤ uint32Max
  · rw [if_pos hring, if_neg (by omega)]
    by_cases hsum : pre + ring ≤ uint32Max
    · rw [if_neg (by omega), u32_of_le hsum, if_pos ⟨hring.1, hring.2.1, hsum⟩]
    · rw [if_pos (by omega), if_neg (fun h => hsum h.2.2)]
  · rw [if_neg hring, if_pos (Or.inr rfl), if_neg]
    intro h
    exact hring ⟨h.1, h.2.1, by omega⟩

/-- No queue is of size 0, so 0 can stand for a failure. -/
theorem queueExtent_pos : 0 < queueExtent (2 ^ k) depth itemSize := by
  have := le_roundUp sizeofQueueCtrl (Nat.two_pow_pos k)
  unfold queueExtent sizeofQueueCtrl at *
  omega

/-- **The sizes are exact.**  On a line of `2 ^ k` bytes both functions are nonzero exactly on
the geometries whose bytes can be counted in a word, they then return that count, and none of
their operations wraps. -/
theorem queue_sizes_exact (hk : k < 32) (hi : itemSize ≤ uint32Max) :
    (posixipcQueueBytesSize (2 ^ k) depth itemSize ≠ 0 ↔
      1 ≤ depth ∧ 1 ≤ itemSize ∧ queueExtent (2 ^ k) depth itemSize ≤ 2 ^ 32 - 1) ∧
    (posixipcQueueBytesSize (2 ^ k) depth itemSize ≠ 0 →
      posixipcQueueBytesSize (2 ^ k) depth itemSize = queueExtent (2 ^ k) depth itemSize) ∧
    (posixipcFutexqBytesSize (2 ^ k) depth itemSize ≠ 0 ↔
      1 ≤ depth ∧ 1 ≤ itemSize ∧ futexqExtent (2 ^ k) depth itemSize ≤ 2 ^ 32 - 1) ∧
    (posixipcFutexqBytesSize (2 ^ k) depth itemSize ≠ 0 →
      posixipcFutexqBytesSize (2 ^ k) depth itemSize = futexqExtent (2 ^ k) depth itemSize) ∧
    posixipcQueueBytesSizeChecked (2 ^ k) depth itemSize
      = some (posixipcQueueBytesSize (2 ^ k) depth itemSize) ∧
    posixipcFutexqBytesSizeChecked (2 ^ k) depth itemSize
      = some (posixipcFutexqBytesSize (2 ^ k) depth itemSize) := by
  have hring : queueExtent (2 ^ k) depth itemSize ≠ 0 := queueExtent_pos.ne'
  have hfutex : futexqExtent (2 ^ k) depth itemSize ≠ 0 := by
    unfold futexqExtent
    omega
  have hC : 2 ^ k ≤ uint32Max :=
    (Nat.pow_le_pow_right (by norm_num) (show k ≤ 31 by omega)).trans (by decide)
  rw [posixipcQueueBytesSizeChecked_eq hC, posixipcFutexqBytesSizeChecked_eq hC,
    posixipcQueueBytesSize_two_pow hk hi, posixipcFutexqBytesSize_two_pow hk hi]
  refine ⟨?_, ?_, ?_, ?_, rfl, rfl⟩
  · exact (Ne.ite_ne_right_iff hring).trans Iff.rfl
  · intro h
    exact if_pos ((Ne.ite_ne_right_iff hring).mp h)
  · exact (Ne.ite_ne_right_iff hfutex).trans Iff.rfl
  · intro h
    exact if_pos ((Ne.ite_ne_right_iff hfutex).mp h)

/-- One-byte items on lines of 64 bytes, at the last depth that fits and the next one, whose
ring would take exactly `2 ^ 32` bytes. -/
theorem queue_sizes_exact_boundary :
    posixipcQueueBytesSize (2 ^ 6) 63161281 1 = 2 ^ 32 - 64 ∧
      posixipcQueueBytesSize (2 ^ 6) 63161282 1 = 0 := by
  obtain ⟨hlast, hval, -⟩ := @queue_sizes_exact 6 63161281 1 (by decide) (by decide)
  obtain ⟨hnext, -⟩ := @queue_sizes_exact 6 63161282 1 (by decide) (by decide)
  constructor
  · exact hval (hlast.mpr (by decide))
  · by_contra hne
    exact absurd (hnext.mp hne) (by decide)

end Exact

end PosixIpc
