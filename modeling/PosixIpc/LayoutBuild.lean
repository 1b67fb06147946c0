/-
# Building a layout (`posixipc_layout.c`, `raw_expect` in `py_shm.c`)

From the list of slots to the header and the directory of a segment.

* `Platform` holds what the configuration and the C library fix: the cache line, the sizes
  and alignments of the primitives, and which of them exist;
* `buildSlots` is the placement loop of `posixipc_layout_build`; it fills in the slots where
  they stand, also those in front of a slot that it refuses;
* `Packed lo slots hi` says what a successful build gives: the slots follow one another
  between `lo` and `hi`, each at a multiple of its alignment.

The words are `uint32_t`, the alignment field of a slot is a `uint16_t`.
-/
import PosixIpc.ShmSegment

namespace PosixIpc

open Word32

/-! ## The platform -/

/-- The objects that a slot can hold. -/
inductive PrimType
  | mutex
  | rwlock
  | cond
  | sem
  | barrier
  | spin
  deriving DecidableEq, Repr

/-- `posixipc_config.h`, and what the compiler knows about the types of the C library. -/
structure Platform where
  /-- `POSIXIPC_CACHELINE_BYTES`. -/
  cacheline : ℕ
  /-- `POSIXIPC_LIBC_FAMILY`. -/
  libcFamily : ℕ
  /-- `POSIXIPC_ABI_TAG_SEED`. -/
  abiTagSeed : ℕ
  sizeof : PrimType → ℕ
  alignof : PrimType → ℕ
  /-- `POSIXIPC_HAVE_PTHREAD_BARRIER_WAIT`. -/
  haveBarrier : Bool
  /-- `POSIXIPC_HAVE_PTHREAD_SPIN_INIT`. -/
  haveSpinInit : Bool
  /-- `POSIXIPC_HAVE_PTHREAD_SPIN_TRYLOCK`. -/
  haveSpinTrylock : Bool
  /-- `POSIXIPC_HAVE_PTHREAD_CONDATTR_SETCLOCK`. -/
  haveSetclock : Bool
  cacheline_le : cacheline ≤ uint32Max
  /-- An alignment of C is a power of two. -/
  alignof_pow : ∀ t, (alignof t).isPowerOfTwo
  alignof_le : ∀ t, alignof t ≤ uint32Max

/-- The 64-bit x86 of glibc. -/
def glibcX86 : Platform where
  cacheline := 64
  libcFamily := 1
  abiTagSeed := 0x504f5349
  sizeof
    | .mutex => 40
    | .rwlock => 56
    | .cond => 48
    | .sem => 32
    | .barrier => 32
    | .spin => 4
  alignof
    | .spin => 4
    | _ => 8
  haveBarrier := true
  haveSpinInit := true
  haveSpinTrylock := true
  haveSetclock := true
  cacheline_le := by decide
  alignof_pow
    | .spin => ⟨2, rfl⟩
    | .mutex | .rwlock | .cond | .sem | .barrier => ⟨3, rfl⟩
  alignof_le := by intro t; cases t <;> decide

/-- The other slot kinds; `kindBytes` and `kindSpin` stand with the segment. -/
def kindMutex : ℕ := 2
def kindRobustMutex : ℕ := 3
def kindRwlock : ℕ := 4
def kindCond : ℕ := 5
def kindSem : ℕ := 6
def kindBarrier : ℕ := 7

/-- `EOVERFLOW`. -/
def eoverflow : Rc := .other 75

/-- `sizeof(posixipc_slot)`. -/
def sizeofSlot : ℕ := 16

/-- `POSIXIPC_LAYOUT_VERSION`. -/
def layoutVersionOne : ℕ := 1

/-- `align_up` of `posixipc_layout.c`.  Unlike the one of the queue it also takes an
alignment that is no power of two; `0` stands for a result past `UINT32_MAX`. -/
def layoutAlignUp (value align : ℕ) : ℕ :=
  if align ≤ 1 then value
  else
    let mask := align - 1
    if align &&& mask = 0 then
      if value > uint32Max - mask then 0
      else u32 (value + mask) &&& not32 mask
    else if value % align ≠ 0 then
      let add := align - value % align
      if value > uint32Max - add then 0
      else u32 (value + add)
    else value

namespace Platform

variable (p : Platform)

/-- The object in a slot of a kind, if the kind has one on this platform: the `case` labels
that `posixipc_kind_align` and `posixipc_kind_size` share. -/
def primOf (kind : ℕ) : Option PrimType :=
  if kind = kindMutex ∨ kind = kindRobustMutex then some .mutex
  else if kind = kindRwlock then some .rwlock
  else if kind = kindCond then some .cond
  else if kind = kindSem then some .sem
  else if kind = kindBarrier ∧ p.haveBarrier then some .barrier
  else if kind = kindSpin ∧ p.haveSpinInit then some .spin
  else none

/-- `posixipc_kind_align`. -/
def posixipcKindAlign (kind : ℕ) : ℕ :=
  match p.primOf kind with
  | some t => p.alignof t
  | none => if kind = kindBytes then p.cacheline else 1

/-- `posixipc_kind_size`. -/
def posixipcKindSize (kind requested : ℕ) : ℕ :=
  match p.primOf kind with
  | some t => layoutAlignUp (u32 (p.sizeof t)) p.cacheline
  | none => if kind = kindBytes then layoutAlignUp requested p.cacheline else 0

/-- `posixipc_abi_tag`. -/
def posixipcAbiTag : ℕ :=
  let tag := u32 p.abiTagSeed
  let tag := tag ^^^ u32 (p.alignof .mutex * 0x9e3779b1)
  let tag := tag ^^^ u32 (p.alignof .rwlock * 0x85ebca77)
  let tag := tag ^^^ u32 (p.alignof .cond * 0xc2b2ae3d)
  let tag := tag ^^^ u32 (p.alignof .sem * 0x27d4eb2f)
  let tag := if p.haveBarrier then tag ^^^ u32 (p.alignof .barrier * 0x165667b1) else tag
  let tag := if p.haveSpinInit then tag ^^^ u32 (p.alignof .spin * 0x85ebca6b) else tag
  let tag := tag ^^^ p.cacheline
  let tag := tag ^^^ u32 (p.libcFamily <<< 24)
  if tag = 0 then 1 else tag

end Platform

/-! ## The digest -/

/-- `feed_u8`: one step of FNV-1a. -/
def feedU8 (h b : ℕ) : ℕ := u32 ((h ^^^ b) * 0x01000193)

/-- `feed_u16_le`. -/
def feedU16Le (h v : ℕ) : ℕ := feedU8 (feedU8 h (v &&& 0xff)) ((v >>> 8) &&& 0xff)

/-- `feed_u32_le`. -/
def feedU32Le (h v : ℕ) : ℕ :=
  let h := feedU8 h (v &&& 0xff)
  let h := feedU8 h ((v >>> 8) &&& 0xff)
  let h := feedU8 h ((v >>> 16) &&& 0xff)
  feedU8 h ((v >>> 24) &&& 0xff)

/-- The body of the loop of `posixipc_layout_digest`; the offset is not part of it. -/
def feedSlot (h : ℕ) (s : Slot) : ℕ :=
  let h := feedU16Le h s.kind
  let h := feedU16Le h s.align
  let h := feedU32Le h s.size
  feedU32Le h s.initFlags

/-- `posixipc_layout_digest`. -/
def posixipcLayoutDigest (p : Platform) (layoutVersion abiTag : ℕ) (slots : List Slot) : ℕ :=
  let h := feedU16Le 0x811C9DC5 layoutVersion
  let h := feedU32Le h abiTag
  let h := feedU32Le h p.cacheline
  let h := slots.foldl feedSlot h
  if h = 0 then 1 else h

/-! ## The build -/

/-- The alignment of a slot: its own, or that of its kind. -/
def Slot.effAlign (p : Platform) (s : Slot) : ℕ :=
  if s.align ≠ 0 then s.align else p.posixipcKindAlign s.kind

/-- The size of a slot: its own, or that of its kind. -/
def Slot.effSize (p : Platform) (s : Slot) : ℕ :=
  if s.size ≠ 0 then s.size else p.posixipcKindSize s.kind 0

/-- What the build stores into a slot that goes to `off`. -/
def Slot.place (p : Platform) (s : Slot) (off : ℕ) : Slot :=
  { s with align := s.effAlign p % 2 ^ 16, size := s.effSize p, offset := off }

/-- The loop of `posixipc_layout_build`: the slots as it leaves them, and the end of the last
one or the code. -/
def buildSlots (p : Platform) : ℕ → List Slot → List Slot × Except Rc ℕ
  | cursor, [] => ([], .ok cursor)
  | cursor, s :: rest =>
    if s.effAlign p = 0 ∨ s.effSize p = 0 then (s :: rest, .error .einval)
    else
      let off := layoutAlignUp cursor (s.effAlign p)
      if off = 0 ∧ cursor ≠ 0 then (s :: rest, .error eoverflow)
      else
        -- the fields are stored before the last test, so a slot that is too long is changed
        if s.effSize p > uint32Max - off then (s.place p off :: rest, .error eoverflow)
        else
          let r := buildSlots p (u32 (off + s.effSize p)) rest
          (s.place p off :: r.1, r.2)

/-- `posixipc_layout_build` on the slots of a layout. -/
def posixipcLayoutBuild (p : Platform) (slots : List Slot) : List Slot × Except Rc Expect :=
  let dirBytes := u32 (slots.length * sizeofSlot)
  if slots.length ≠ 0 ∧ dirBytes / sizeofSlot ≠ slots.length then (slots, .error eoverflow)
  else
    let r := buildSlots p (u32 (headerBytes + dirBytes)) slots
    match r.2 with
    | .error rc => (r.1, .error rc)
    | .ok cursor =>
      if cursor = 0 then (r.1, .error eoverflow)
      else
        (r.1, .ok
          { layoutVersion := layoutVersionOne
            slotCount := slots.length
            abiTag := p.posixipcAbiTag
            flags := 0
            totalSize := cursor
            directoryBytes := dirBytes
            layoutDigest := posixipcLayoutDigest p layoutVersionOne p.posixipcAbiTag r.1
            slots := some r.1 })

/-- `raw_expect`. -/
def rawExpect (p : Platform) (payload : ℕ) : Expect where
  layoutVersion := layoutVersionOne
  slotCount := 0
  abiTag := p.posixipcAbiTag
  flags := 0
  totalSize := u32 (headerBytes + payload)
  directoryBytes := 0
  layoutDigest := 0
  slots := none

/-! ## Rounding up -/

/-- What `align_up` gives when it does not overflow. -/
theorem layoutAlignUp_spec {value align : ℕ} (ha : 0 < align) (hle : align ≤ uint32Max)
    (hv : value ≤ uint32Max) (h : layoutAlignUp value align ≠ 0 ∨ value = 0) :
    value ≤ layoutAlignUp value align ∧ align ∣ layoutAlignUp value align ∧
      layoutAlignUp value align ≤ uint32Max := by
  unfold layoutAlignUp at *
  by_cases h1 : align ≤ 1
  · rw [if_pos h1]
    obtain rfl : align = 1 := by omega
    exact ⟨le_rfl, one_dvd _, hv⟩
  · rw [if_neg h1] at h ⊢
    simp only at h ⊢
    by_cases hpow : align &&& (align - 1) = 0
    · rw [if_pos hpow] at h ⊢
      by_cases hmax : value > uint32Max - (align - 1)
      · -- an overflow is reported as `0`, and `0` itself never overflows
        rw [if_pos hmax] at h
        rcases h with h | h
        · exact absurd rfl h
        · omega
      · rw [if_neg hmax] at h ⊢
        have hsum : value + (align - 1) ≤ uint32Max := by omega
        obtain ⟨k, hk⟩ := (Nat.and_sub_one_eq_zero_iff_isPowerOfTwo (by omega)).mp hpow
        have hlt : value + (align - 1) < 2 ^ 32 := by unfold uint32Max at hsum; omega
        have hround : u32 (value + (align - 1)) &&& not32 (align - 1) = roundUp value align := by
          rw [u32_of_le hsum, hk, land_not_mask _ _ (by rw [← hk]; exact hlt), roundUp]
        rw [hround]
        refine ⟨le_roundUp value ha, Dvd.intro _ rfl, ?_⟩
        unfold roundUp
        have := Nat.div_mul_le_self (value + (align - 1)) align
        rw [Nat.mul_comm]
        omega
    · rw [if_neg hpow] at h ⊢
      by_cases hmod : value % align ≠ 0
      · rw [if_pos hmod] at h ⊢
        have hmlt := Nat.mod_lt value ha
        by_cases hmax : value > uint32Max - (align - value % align)
        · rw [if_pos hmax] at h
          rcases h with h | h
          · exact absurd rfl h
          · rw [h, Nat.zero_mod] at hmod
            exact absurd rfl hmod
        · rw [if_neg hmax, u32_of_le (by omega)]
          refine ⟨by omega, ?_, by omega⟩
          refine ⟨value / align + 1, ?_⟩
          have := Nat.div_add_mod value align
          rw [Nat.mul_add, Nat.mul_one]
          omega
      · rw [if_neg hmod]
        push Not at hmod
        exact ⟨le_rfl, Nat.dvd_of_mod_eq_zero hmod, hv⟩

/-! ## What a successful build gives -/

/-- The slots follow one another from `lo` to `hi`. -/
def Packed : ℕ → List Slot → ℕ → Prop
  | lo, [], hi => lo = hi
  | lo, s :: rest, hi => lo ≤ s.offset ∧ 0 < s.size ∧ Packed (s.offset + s.size) rest hi

theorem Packed.le {lo hi : ℕ} {slots : List Slot} (h : Packed lo slots hi) : lo ≤ hi := by
  induction slots generalizing lo with
  | nil => exact le_of_eq h
  | cons s rest ih =>
      have := ih h.2.2
      have := h.1
      omega

/-- Each slot lies between the bounds. -/
theorem Packed.mem {lo hi : ℕ} {slots : List Slot} (h : Packed lo slots hi) {s : Slot}
    (hs : s ∈ slots) : lo ≤ s.offset ∧ 0 < s.size ∧ s.offset + s.size ≤ hi := by
  induction slots generalizing lo with
  | nil => simp at hs
  | cons a rest ih =>
      rcases List.mem_cons.mp hs with rfl | hs
      · exact ⟨h.1, h.2.1, h.2.2.le⟩
      · obtain ⟨h1, h2, h3⟩ := ih h.2.2 hs
        have := h.1
        exact ⟨by omega, h2, h3⟩

/-- The loop succeeds one slot at a time. -/
theorem buildSlots_cons {p : Platform} {cursor total : ℕ} {s : Slot} {rest out : List Slot}
    (h : buildSlots p cursor (s :: rest) = (out, .ok total)) :
    ∃ out', s.effAlign p ≠ 0 ∧ s.effSize p ≠ 0 ∧
      (layoutAlignUp cursor (s.effAlign p) ≠ 0 ∨ cursor = 0) ∧
      s.effSize p ≤ uint32Max - layoutAlignUp cursor (s.effAlign p) ∧
      out = s.place p (layoutAlignUp cursor (s.effAlign p)) :: out' ∧
      buildSlots p (u32 (layoutAlignUp cursor (s.effAlign p) + s.effSize p)) rest
        = (out', .ok total) := by
  unfold buildSlots at h
  by_cases h1 : s.effAlign p = 0 ∨ s.effSize p = 0
  · rw [if_pos h1] at h
    exact absurd (congrArg Prod.snd h) (by simp)
  · rw [if_neg h1] at h
    simp only at h
    by_cases h2 : layoutAlignUp cursor (s.effAlign p) = 0 ∧ cursor ≠ 0
    · rw [if_pos h2] at h
      exact absurd (congrArg Prod.snd h) (by simp)
    · rw [if_neg h2] at h
      by_cases h3 : s.effSize p > uint32Max - layoutAlignUp cursor (s.effAlign p)
      · rw [if_pos h3] at h
        exact absurd (congrArg Prod.snd h) (by simp)
      · rw [if_neg h3] at h
        push Not at h1 h2 h3
        obtain ⟨hout, htotal⟩ := Prod.ext_iff.mp h
        refine ⟨_, h1.1, h1.2, ?_, h3, hout.symm, Prod.ext rfl htotal⟩
        by_cases h0 : layoutAlignUp cursor (s.effAlign p) = 0
        · exact Or.inr (h2 h0)
        · exact Or.inl h0

/-- The alignment of a kind is a word. -/
theorem Platform.posixipcKindAlign_le (p : Platform) (kind : ℕ) :
    p.posixipcKindAlign kind ≤ uint32Max := by
  unfold Platform.posixipcKindAlign
  split
  · exact p.alignof_le _
  · split_ifs
    · exact p.cacheline_le
    · unfold uint32Max
      omega

/-- The alignment field is a `uint16_t`. -/
def Slot.Short (s : Slot) : Prop := s.align < 2 ^ 16

theorem Slot.effAlign_le {p : Platform} {s : Slot} (hs : s.Short) :
    s.effAlign p ≤ uint32Max := by
  unfold Slot.effAlign Slot.Short at *
  split_ifs
  · unfold uint32Max
    omega
  · exact p.posixipcKindAlign_le s.kind

/-- **A successful build packs the slots.** -/
theorem packed_buildSlots {p : Platform} {cursor total : ℕ} {slots out : List Slot}
    (hshort : ∀ s ∈ slots, s.Short) (hc : cursor ≤ uint32Max)
    (h : buildSlots p cursor slots = (out, .ok total)) :
    Packed cursor out total ∧ total ≤ uint32Max := by
  induction slots generalizing cursor out with
  | nil =>
      obtain ⟨rfl, hok⟩ := Prod.ext_iff.mp h
      obtain rfl : cursor = total := by simpa [buildSlots] using hok
      exact ⟨rfl, hc⟩
  | cons s rest ih =>
      obtain ⟨out', hal, hsz, h0, hfit, rfl, hrest⟩ := buildSlots_cons h
      have hs := hshort s List.mem_cons_self
      obtain ⟨hle, -, hmax⟩ :=
        layoutAlignUp_spec (Nat.pos_of_ne_zero hal) (Slot.effAlign_le hs) hc h0
      rw [u32_of_le (by omega)] at hrest
      obtain ⟨hpack, htotal⟩ :=
        ih (fun x hx => hshort x (List.mem_cons_of_mem s hx)) (by omega) hrest
      exact ⟨⟨hle, Nat.pos_of_ne_zero hsz, hpack⟩, htotal⟩

/-- The build keeps the number of slots, their kinds and their flags. -/
theorem buildSlots_map {α : Type} (f : Slot → α) {p : Platform} {cursor total : ℕ}
    {slots out : List Slot} (hf : ∀ (s : Slot) off, f (s.place p off) = f s)
    (h : buildSlots p cursor slots = (out, .ok total)) : out.map f = slots.map f := by
  induction slots generalizing cursor out with
  | nil =>
      obtain rfl : ([] : List Slot) = out := congrArg Prod.fst h
      rfl
  | cons s rest ih =>
      obtain ⟨out', -, -, -, -, rfl, hrest⟩ := buildSlots_cons h
      rw [List.map_cons, List.map_cons, hf, ih hrest]

/-- What `posixipc_layout_build` returns comes from its loop. -/
theorem posixipcLayoutBuild_ok {p : Platform} {slots out : List Slot} {e : Expect}
    (hn : slots.length ≤ 0xffff) (h : posixipcLayoutBuild p slots = (out, .ok e)) :
    buildSlots p (headerBytes + 16 * slots.length) slots = (out, .ok e.totalSize) ∧
      e = { layoutVersion := layoutVersionOne
            slotCount := slots.length
            abiTag := p.posixipcAbiTag
            flags := 0
            totalSize := e.totalSize
            directoryBytes := 16 * slots.length
            layoutDigest := posixipcLayoutDigest p layoutVersionOne p.posixipcAbiTag out
            slots := some out } := by
  have hdir : u32 (slots.length * sizeofSlot) = 16 * slots.length := by
    rw [u32_of_lt (by unfold sizeofSlot; omega), sizeofSlot, Nat.mul_comm]
  have hcur : u32 (headerBytes + 16 * slots.length) = headerBytes + 16 * slots.length :=
    u32_of_lt (by unfold headerBytes; omega)
  unfold posixipcLayoutBuild at h
  simp only [hdir, hcur] at h
  rw [if_neg (by unfold sizeofSlot; omega)] at h
  cases hr : (buildSlots p (headerBytes + 16 * slots.length) slots).2 with
  | error rc =>
      rw [hr] at h
      exact absurd (congrArg Prod.snd h) (by simp)
  | ok cursor =>
      rw [hr] at h
      simp only at h
      by_cases h0 : cursor = 0
      · rw [if_pos h0] at h
        exact absurd (congrArg Prod.snd h) (by simp)
      · rw [if_neg h0] at h
        have hout := congrArg Prod.fst h
        simp only at hout
        have he : _ = e := Except.ok.inj (congrArg Prod.snd h)
        subst he
        rw [hout]
        exact ⟨Prod.ext hout hr, rfl⟩

end PosixIpc
