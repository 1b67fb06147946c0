/-
# The queue ring (`posixipc_queue.c`)

The control word, the per-slot state array and the strided payload of a queue, and
the operations on them, written as memory programs (`StoreProg.Prog`) so that every
load and store of the C code is a separate access.

* `Loc` names the cells: the six words of `posixipc_queue_ctrl`, `state[i]`, and the
  payload byte at an offset from `view->payload`.
* `posixipcQueueMap` computes the view of `nbytes` bytes; the three pointers are kept
  as offsets from the mapped bytes, `none` standing for `NULL`.
* `posixipcQueuePut`, `posixipcQueueGet`, `posixipcQueueQsize`, `posixipcQueueRecover`
  and `posixipcQueueInitCtrl` follow the C functions access by access.

All words are `uint32_t`; arithmetic on them is reduced with `u32`.  The cache line is
the configure-time constant `POSIXIPC_CACHELINE_BYTES`, a parameter here.
-/
import PosixIpc.StoreProg
import PosixIpc.Word32
import PosixIpc.Result

namespace PosixIpc

open StoreProg Word32

/-! ## Cells -/

/-- The cells of the mapped bytes. -/
inductive Loc
  | head
  | tail
  | count
  | flags
  | depth
  | itemSize
  | state (i : ℕ)
  | payload (off : ℕ)
  deriving DecidableEq

/-- The content of the mapped bytes: a word, or a byte in the payload cells. -/
abbrev Mem := Loc → ℕ

/-- Programs of the core on the mapped bytes. -/
abbrev RingProg := Prog Loc ℕ

/-- `POSIXIPC_QUEUE_EMPTY`. -/
def queueEmpty : ℕ := 0
/-- `POSIXIPC_QUEUE_RESERVED_PUT`. -/
def queueReservedPut : ℕ := 1
/-- `POSIXIPC_QUEUE_RESERVED_GET`. -/
def queueReservedGet : ℕ := 2
/-- `POSIXIPC_QUEUE_READY`. -/
def queueReady : ℕ := 3

/-! ## Sizes -/

/-- `align_up`: round `value` up to a multiple of `align` with a mask.  `0` stands for
an alignment that is no power of two and for a result past `UINT32_MAX`. -/
def alignUp (value align : ℕ) : ℕ :=
  if align ≤ 1 then value
  else
    let mask := align - 1
    if align &&& mask ≠ 0 then 0
    else if value > uint32Max - mask then 0
    else u32 (value + mask) &&& not32 mask

/-- `sizeof(posixipc_queue_ctrl)`. -/
def sizeofQueueCtrl : ℕ := 24

/-- `ctrl_bytes`. -/
def ctrlBytes (cacheline : ℕ) : ℕ :=
  let n := alignUp sizeofQueueCtrl cacheline
  if n = 0 then cacheline else n

/-- `state_bytes`. -/
def stateBytes (cacheline depth : ℕ) : ℕ :=
  if depth = 0 ∨ depth > uint32Max / 4 then 0
  else alignUp (u32 (depth * 4)) cacheline

/-- `posixipc_queue_bytes_size`; `0` stands for a geometry that does not fit. -/
def posixipcQueueBytesSize (cacheline depth itemSize : ℕ) : ℕ :=
  if depth < 1 ∨ itemSize < 1 then 0
  else
    let cb := ctrlBytes cacheline
    let sb := stateBytes cacheline depth
    let stride := alignUp itemSize cacheline
    if cb = 0 ∨ sb = 0 ∨ stride = 0 then 0
    else if depth > uint32Max / stride then 0
    else
      let payload := u32 (depth * stride)
      if cb > uint32Max - sb then 0
      else
        let total := u32 (cb + sb)
        if total > uint32Max - payload then 0
        else u32 (total + payload)

/-- `posixipc_queue_view`.  The pointers are offsets into the mapped bytes. -/
structure View where
  ctrl : Option ℕ
  state : Option ℕ
  payload : Option ℕ
  depth : ℕ
  itemSize : ℕ
  stride : ℕ
  deriving DecidableEq, Repr

/-- `posixipc_queue_map` on `nbytes` bytes that start at `bytes` (`none` is `NULL`). -/
def posixipcQueueMap (cacheline : ℕ) (bytes : Option ℕ) (nbytes depth itemSize : ℕ) :
    Except Rc View :=
  match bytes with
  | none => .error .einval
  | some base =>
    let need := posixipcQueueBytesSize cacheline depth itemSize
    if need = 0 ∨ nbytes < need then .error .einval
    else
      let cb := ctrlBytes cacheline
      let sb := stateBytes cacheline depth
      .ok { ctrl := some base
            state := some (base + cb)
            payload := some (base + cb + sb)
            depth := depth
            itemSize := itemSize
            stride := alignUp itemSize cacheline }

/-! ## Operations -/

/-- `for (i = from; n more times; i++) body(i)`. -/
def forFrom (body : ℕ → RingProg Unit) : ℕ → ℕ → RingProg Unit
  | _, 0 => pure ()
  | i, n + 1 => do
    body i
    forFrom body (i + 1) n

/-- `posixipc_queue_init_ctrl`: `memset` of the control word, the geometry, the states. -/
def posixipcQueueInitCtrl (v : View) : RingProg Rc :=
  if v.ctrl = none ∨ v.state = none then pure .einval
  else do
    Prog.write .head 0
    Prog.write .tail 0
    Prog.write .count 0
    Prog.write .flags 0
    Prog.write .depth 0
    Prog.write .itemSize 0
    Prog.write .depth v.depth
    Prog.write .itemSize v.itemSize
    forFrom (fun i => Prog.write (.state i) queueEmpty) 0 v.depth
    pure .ok

/-- The first loop of `posixipc_queue_recover`: settle `state[i]` and count the items. -/
def recoverScan : ℕ → ℕ → ℕ → RingProg ℕ
  | _, 0, ready => pure ready
  | i, n + 1, ready => do
    let st ← Prog.read (.state i)
    if st = queueReservedPut then do
      Prog.write (.state i) queueEmpty
      recoverScan (i + 1) n ready
    else if st = queueReservedGet then do
      Prog.write (.state i) queueReady
      recoverScan (i + 1) n (u32 (ready + 1))
    else if st = queueReady then recoverScan (i + 1) n (u32 (ready + 1))
    else if st ≠ queueEmpty then do
      Prog.write (.state i) queueEmpty
      recoverScan (i + 1) n ready
    else recoverScan (i + 1) n ready

/-- The second loop of `posixipc_queue_recover`: `head` is the first `READY` slot. -/
def recoverHead : ℕ → ℕ → RingProg Unit
  | _, 0 => pure ()
  | i, n + 1 => do
    let st ← Prog.read (.state i)
    if st = queueReady then Prog.write .head i
    else recoverHead (i + 1) n

/-- `posixipc_queue_recover`. -/
def posixipcQueueRecover (v : View) : RingProg Rc :=
  if v.ctrl = none ∨ v.state = none then pure .einval
  else do
    let ready ← recoverScan 0 v.depth 0
    Prog.write .count ready
    if ready = 0 then do
      Prog.write .head 0
      Prog.write .tail 0
      pure .ok
    else do
      recoverHead 0 v.depth
      let head ← Prog.read .head
      Prog.write .tail (u32 (head + ready) % v.depth)
      pure .ok

/-- `memcpy(v->payload + idx * stride, data, item_size)`, byte by byte. -/
def memcpyIn (v : View) (idx : ℕ) (data : ℕ → UInt8) : RingProg Unit :=
  forFrom (fun j => Prog.write (.payload (idx * v.stride + j)) (data j).toNat) 0 v.itemSize

/-- `memcpy(data, v->payload + base, n)`: the bytes read, in order. -/
def memcpyOut : ℕ → ℕ → RingProg (List UInt8)
  | _, 0 => pure []
  | off, n + 1 => do
    let b ← Prog.read (.payload off)
    let rest ← memcpyOut (off + 1) n
    pure (UInt8.ofNat b :: rest)

/-- `posixipc_queue_put`; `data j` is the `j`-th byte of the caller's buffer. -/
def posixipcQueuePut (v : View) (data : ℕ → UInt8) : RingProg Rc :=
  if v.ctrl = none then pure .einval
  else do
    let count ← Prog.read .count
    if count ≥ v.depth then pure .eagain
    else do
      let idx ← Prog.read .tail
      if idx ≥ v.depth then pure .einval
      else do
        Prog.write (.state idx) queueReservedPut
        memcpyIn v idx data
        Prog.write (.state idx) queueReady
        Prog.write .tail (u32 (idx + 1) % v.depth)
        let c ← Prog.read .count
        Prog.write .count (u32 (c + 1))
        pure .ok

/-- `posixipc_queue_get`; the second component is what was copied to the caller. -/
def posixipcQueueGet (v : View) : RingProg (Rc × List UInt8) :=
  if v.ctrl = none then pure (.einval, [])
  else do
    let count ← Prog.read .count
    if count = 0 then pure (.eagain, [])
    else do
      let idx ← Prog.read .head
      if idx ≥ v.depth then pure (.einval, [])
      else do
        let st ← Prog.read (.state idx)
        if st ≠ queueReady then pure (.einval, [])
        else do
          Prog.write (.state idx) queueReservedGet
          let data ← memcpyOut (idx * v.stride) v.itemSize
          Prog.write (.state idx) queueEmpty
          Prog.write .head (u32 (idx + 1) % v.depth)
          let c ← Prog.read .count
          Prog.write .count (dec32 c)
          pure (.ok, data)

/-- `posixipc_queue_qsize`; the second component is `*out`. -/
def posixipcQueueQsize (v : View) : RingProg (Rc × ℕ) :=
  if v.ctrl = none then pure (.einval, 0)
  else do
    let n ← Prog.read .count
    pure (.ok, n)

/-! ## What a successful map says about the geometry -/

/-- On its success branch the mask trick computes `roundUp`. -/
theorem alignUp_eq_roundUp {value align : ℕ} (h1 : 1 < align)
    (hpow : align &&& (align - 1) = 0) (hv : value ≤ uint32Max - (align - 1))
    (ha : align ≤ uint32Max) : alignUp value align = roundUp value align := by
  obtain ⟨k, hk⟩ := (Nat.and_sub_one_eq_zero_iff_isPowerOfTwo (by omega)).mp hpow
  have hsum : value + (align - 1) ≤ uint32Max := by omega
  have hlt : value + (align - 1) < 2 ^ 32 := by unfold uint32Max at hsum; omega
  rw [alignUp, if_neg (by omega)]
  simp only [hpow, ne_eq, not_true_eq_false, if_false]
  rw [if_neg (by omega), u32_of_le hsum, hk, land_not_mask _ _ (by rw [← hk]; exact hlt),
    roundUp]

/-- A nonzero aligned value is not below the value it was computed from. -/
theorem le_alignUp {value align : ℕ} (hne : alignUp value align ≠ 0) :
    value ≤ alignUp value align := by
  by_cases h1 : align ≤ 1
  · rw [alignUp, if_pos h1]
  · have hpow : align &&& (align - 1) = 0 := by
      by_contra hcon
      exact hne (by rw [alignUp, if_neg h1]; simp [hcon])
    have hv : value ≤ uint32Max - (align - 1) := by
      by_contra hcon
      exact hne (by rw [alignUp, if_neg h1]; simp [hpow]; omega)
    by_cases ha : align ≤ uint32Max
    · rw [alignUp_eq_roundUp (by omega) hpow hv ha]
      exact le_roundUp value (by omega)
    · omega

/-- What the ring code relies on in a view: mapped pointers, a nonempty ring whose
indices are far from `2 ^ 32`, and items that do not overlap. -/
structure View.Valid (v : View) : Prop where
  ctrl_ne : v.ctrl ≠ none
  state_ne : v.state ≠ none
  depth_pos : 0 < v.depth
  depth_lt : v.depth < 2 ^ 31
  itemSize_pos : 0 < v.itemSize
  itemSize_le : v.itemSize ≤ v.stride

/-- On a valid view `posixipc_queue_qsize` is one load. -/
theorem posixipcQueueQsize_eq {v : View} (hv : v.Valid) :
    posixipcQueueQsize v = .load .count fun n => .ret (.ok, n) := by
  rw [posixipcQueueQsize, if_neg hv.ctrl_ne]
  rfl

/-- A nonzero size comes from a geometry that passed every test of the C function. -/
theorem posixipcQueueBytesSize_ne_zero {cacheline depth itemSize : ℕ}
    (h : posixipcQueueBytesSize cacheline depth itemSize ≠ 0) :
    0 < depth ∧ 0 < itemSize ∧ stateBytes cacheline depth ≠ 0 ∧
      alignUp itemSize cacheline ≠ 0 := by
  unfold posixipcQueueBytesSize at h
  split at h
  · exact absurd rfl h
  · rename_i hpos
    simp only at h
    split at h
    · exact absurd rfl h
    · rename_i hne
      push Not at hpos hne
      exact ⟨by omega, by omega, hne.2.1, hne.2.2⟩

/-- **Every mapped view is valid.** -/
theorem posixipcQueueMap_valid {cacheline nbytes depth itemSize : ℕ} {bytes : Option ℕ}
    {v : View} (h : posixipcQueueMap cacheline bytes nbytes depth itemSize = .ok v) :
    v.Valid ∧ v.depth = depth ∧ v.itemSize = itemSize := by
  unfold posixipcQueueMap at h
  cases bytes with
  | none => simp at h
  | some base =>
      simp only at h
      split at h
      · simp at h
      · rename_i hneed
        push Not at hneed
        obtain ⟨hd, hi, hsb, hst⟩ := posixipcQueueBytesSize_ne_zero hneed.1
        simp only [Except.ok.injEq] at h
        subst h
        have hdlt : depth ≤ uint32Max / 4 := by
          by_contra hcon
          exact hsb (by rw [stateBytes, if_pos (Or.inr (by omega))])
        refine ⟨⟨by simp, by simp, hd, ?_, hi, le_alignUp hst⟩, rfl, rfl⟩
        show depth < 2 ^ 31
        unfold uint32Max at hdlt
        omega

/-! ## The storage of a futex queue (`posixipc_futexq.c`) -/

/-- `posixipc_futexq_prefix_size`. -/
def posixipcFutexqPrefixSize (cacheline : ℕ) : ℕ :=
  let n := alignUp 8 cacheline
  if n = 0 then cacheline else n

/-- `posixipc_futexq_bytes_size`. -/
def posixipcFutexqBytesSize (cacheline depth itemSize : ℕ) : ℕ :=
  let pre := posixipcFutexqPrefixSize cacheline
  let ring := posixipcQueueBytesSize cacheline depth itemSize
  if pre = 0 ∨ ring = 0 then 0
  else if pre > uint32Max - ring then 0
  else u32 (pre + ring)

/-- `posixipc_futexq_view`: the two words in front of the ring. -/
structure FutexqView where
  notFull : Option ℕ
  notEmpty : Option ℕ
  view : View
  deriving DecidableEq, Repr

/-- `posixipc_futexq_map`. -/
def posixipcFutexqMap (cacheline : ℕ) (bytes : Option ℕ) (nbytes depth itemSize : ℕ) :
    Except Rc FutexqView :=
  match bytes with
  | none => .error .einval
  | some base =>
    let pre := posixipcFutexqPrefixSize cacheline
    let need := posixipcFutexqBytesSize cacheline depth itemSize
    if pre = 0 ∨ need = 0 ∨ nbytes < need then .error .einval
    else
      match posixipcQueueMap cacheline (some (base + pre)) (nbytes - pre) depth itemSize with
      | .error rc => .error rc
      | .ok v => .ok { notFull := some base, notEmpty := some (base + 4), view := v }

/-- The ring of a mapped futex queue is a valid view. -/
theorem posixipcFutexqMap_valid {cacheline nbytes depth itemSize : ℕ} {bytes : Option ℕ}
    {fv : FutexqView} (h : posixipcFutexqMap cacheline bytes nbytes depth itemSize = .ok fv) :
    fv.view.Valid ∧ fv.view.depth = depth ∧ fv.view.itemSize = itemSize := by
  unfold posixipcFutexqMap at h
  cases bytes with
  | none => simp at h
  | some base =>
      simp only at h
      split at h
      · simp at h
      · split at h
        · simp at h
        · rename_i v hv
          simp only [Except.ok.injEq] at h
          subst h
          exact posixipcQueueMap_valid hv

end PosixIpc
