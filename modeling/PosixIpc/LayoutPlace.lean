/-
# The build computes the greedy placement

`posixipc_layout_build` against the same placement in unbounded integers.

* `greedy` : put each slot at the next multiple of its alignment;
* `layoutAlignUp_eq` : `align_up` is rounding up, or `0` when that is no word;
* `buildSlots_eq_greedy`, `buildSlots_overflow_iff` : the loop, one slot at a time;
* `layoutBuild_greedy` : the whole build.  Only the stored alignment can differ from the
  placement: the field has sixteen bits, and an alignment that is taken from the kind may
  have more.
-/
import PosixIpc.LayoutBuild

namespace PosixIpc

open Word32

/-! ## The placement -/

/-- Where a slot goes. -/
structure Place where
  align : ℕ
  offset : ℕ
  size : ℕ
  deriving DecidableEq, Repr

/-- The greedy placement from `cursor` on, and the end of the last slot. -/
def greedy (p : Platform) : ℕ → List Slot → List Place × ℕ
  | cursor, [] => ([], cursor)
  | cursor, s :: rest =>
    let off := roundUp cursor (s.effAlign p)
    let r := greedy p (off + s.effSize p) rest
    (⟨s.effAlign p, off, s.effSize p⟩ :: r.1, r.2)

/-- A built slot is at its place; the field of the alignment has sixteen bits. -/
structure Slot.PlacedAs (s : Slot) (q : Place) : Prop where
  offset : s.offset = q.offset
  size : s.size = q.size
  align : s.align = q.align % 2 ^ 16

/-! ## Rounding up -/

theorem roundUp_of_dvd {value align : ℕ} (ha : 0 < align) (h : value % align = 0) :
    roundUp value align = value := by
  obtain ⟨q, rfl⟩ := Nat.dvd_of_mod_eq_zero h
  rw [roundUp, Nat.mul_add_div ha, Nat.div_eq_of_lt (by omega), Nat.add_zero]

theorem roundUp_of_not_dvd {value align : ℕ} (ha : 0 < align) (h : value % align ≠ 0) :
    roundUp value align = value + (align - value % align) := by
  have hlt := Nat.mod_lt value ha
  have hdiv := Nat.div_add_mod value align
  generalize value % align = r at *
  generalize value / align = q at *
  have hsum : value + (align - 1) = (r - 1) + align * (q + 1) := by
    rw [Nat.mul_add, Nat.mul_one]
    omega
  rw [roundUp, hsum, Nat.add_mul_div_left _ _ ha, Nat.div_eq_of_lt (by omega), Nat.zero_add,
    Nat.mul_add, Nat.mul_one]
  omega

/-- A word is rounded up to a power of two without overflow unless the result is no word. -/
theorem roundUp_le_iff_of_pow {value k : ℕ} (hk : 2 ^ k ≤ uint32Max) :
    roundUp value (2 ^ k) ≤ uint32Max ↔ value + (2 ^ k - 1) ≤ uint32Max := by
  have hpos : 0 < 2 ^ k := Nat.two_pow_pos k
  constructor
  · intro h
    -- the largest multiple of `2 ^ k` below `2 ^ 32` is `2 ^ 32 - 2 ^ k`
    have hk32 : k < 32 := by
      refine (Nat.pow_lt_pow_iff_right (a := 2) (by norm_num)).mp ?_
      unfold uint32Max at hk
      omega
    obtain ⟨c, hc⟩ : 2 ^ k ∣ 2 ^ 32 := pow_dvd_pow 2 hk32.le
    have hle := le_roundUp value hpos
    have hq : (value + (2 ^ k - 1)) / 2 ^ k < c := by
      unfold roundUp uint32Max at h
      refine Nat.lt_of_mul_lt_mul_left (a := 2 ^ k) ?_
      omega
    have hlast := Nat.mul_le_mul_left (2 ^ k) (show (value + (2 ^ k - 1)) / 2 ^ k + 1 ≤ c from hq)
    rw [Nat.mul_add, Nat.mul_one] at hlast
    unfold roundUp at hle
    unfold uint32Max
    omega
  · intro h
    have := Nat.mul_div_le (value + (2 ^ k - 1)) (2 ^ k)
    unfold roundUp
    omega

/-- **`align_up` is rounding up**, and `0` stands for a result that is no word. -/
theorem layoutAlignUp_eq {value align : ℕ} (ha : 0 < align) (hle : align ≤ uint32Max)
    (hv : value ≤ uint32Max) :
    layoutAlignUp value align
      = if roundUp value align ≤ uint32Max then roundUp value align else 0 := by
  unfold layoutAlignUp
  by_cases h1 : align ≤ 1
  · obtain rfl : align = 1 := by omega
    have hround : roundUp value 1 = value := roundUp_of_dvd (by omega) (Nat.mod_one value)
    rw [if_pos h1, hround, if_pos hv]
  rw [if_neg h1]
  simp only
  by_cases hpow : align &&& (align - 1) = 0
  · obtain ⟨k, rfl⟩ := (Nat.and_sub_one_eq_zero_iff_isPowerOfTwo (by omega)).mp hpow
    rw [if_pos hpow]
    by_cases hmax : value + (2 ^ k - 1) ≤ uint32Max
    · have hlt : value + (2 ^ k - 1) < 2 ^ 32 := by unfold uint32Max at hmax; omega
      rw [if_neg (by omega), if_pos ((roundUp_le_iff_of_pow hle).mpr hmax), u32_of_le hmax,
        land_not_mask _ _ hlt, roundUp]
    · rw [if_pos (by omega), if_neg (fun h => hmax ((roundUp_le_iff_of_pow hle).mp h))]
  · rw [if_neg hpow]
    by_cases hmod : value % align ≠ 0
    · rw [if_pos hmod, roundUp_of_not_dvd ha hmod]
      have hmlt := Nat.mod_lt value ha
      by_cases hmax : value > uint32Max - (align - value % align)
      · rw [if_pos hmax, if_neg (by omega)]
      · rw [if_neg hmax, if_pos (by omega), u32_of_le (by omega)]
    · push Not at hmod
      rw [if_neg (not_not.mpr hmod), roundUp_of_dvd ha hmod, if_pos hv]

/-! ## The loop -/

section Loop

variable {p : Platform}

/-- The end of the placement is not before its start. -/
theorem le_greedy {slots : List Slot} (hal : ∀ s ∈ slots, s.effAlign p ≠ 0) (cursor : ℕ) :
    cursor ≤ (greedy p cursor slots).2 := by
  induction slots generalizing cursor with
  | nil => exact le_rfl
  | cons s rest ih =>
      have hround := le_roundUp cursor (Nat.pos_of_ne_zero (hal s List.mem_cons_self))
      have := ih (fun x hx => hal x (List.mem_cons_of_mem s hx))
        (roundUp cursor (s.effAlign p) + s.effSize p)
      show cursor ≤ (greedy p (roundUp cursor (s.effAlign p) + s.effSize p) rest).2
      omega

theorem aligned_greedy (slots : List Slot) (cursor : ℕ) :
    ∀ q ∈ (greedy p cursor slots).1, q.align ∣ q.offset := by
  induction slots generalizing cursor with
  | nil => simp [greedy]
  | cons s rest ih =>
      intro q hq
      rcases List.mem_cons.mp hq with rfl | hq
      · exact Dvd.intro _ rfl
      · exact ih _ q hq

/-- A successful loop places the slots. -/
theorem buildSlots_eq_greedy {slots out : List Slot} {cursor total : ℕ}
    (hshort : ∀ s ∈ slots, s.Short) (hc : cursor ≤ uint32Max)
    (h : buildSlots p cursor slots = (out, .ok total)) :
    List.Forall₂ Slot.PlacedAs out (greedy p cursor slots).1 ∧
      total = (greedy p cursor slots).2 := by
  induction slots generalizing cursor out with
  | nil =>
      obtain ⟨rfl, hok⟩ := Prod.ext_iff.mp h
      exact ⟨.nil, (Except.ok.inj hok).symm⟩
  | cons s rest ih =>
      obtain ⟨out', hal, hsz, h0, hfit, rfl, hrest⟩ := buildSlots_cons h
      have hpos := Nat.pos_of_ne_zero hal
      have hle := Slot.effAlign_le (p := p) (hshort s List.mem_cons_self)
      have hoff : layoutAlignUp cursor (s.effAlign p) = roundUp cursor (s.effAlign p) := by
        rw [layoutAlignUp_eq hpos hle hc] at h0 ⊢
        by_cases hmax : roundUp cursor (s.effAlign p) ≤ uint32Max
        · rw [if_pos hmax]
        · -- the code `0` is left: only a cursor of `0` is placed there
          rw [if_neg hmax] at h0
          obtain rfl : cursor = 0 := h0.resolve_left (fun h => h rfl)
          exact absurd (by rw [roundUp_of_dvd hpos (Nat.zero_mod _)]; omega) hmax
      have hbound := (layoutAlignUp_spec hpos hle hc h0).2.2
      rw [hoff] at hrest hfit hbound
      rw [u32_of_le (by omega)] at hrest
      obtain ⟨hplaced, htotal⟩ :=
        ih (fun x hx => hshort x (List.mem_cons_of_mem s hx)) (by omega) hrest
      rw [hoff]
      exact ⟨.cons ⟨rfl, rfl, rfl⟩ hplaced, htotal⟩

/-- **The loop reports an overflow exactly when the placement does not fit.** -/
theorem buildSlots_overflow_iff {slots : List Slot} {cursor : ℕ}
    (hshort : ∀ s ∈ slots, s.Short) (hal : ∀ s ∈ slots, s.effAlign p ≠ 0)
    (hsz : ∀ s ∈ slots, s.effSize p ≠ 0) (h0 : 0 < cursor) (hc : cursor ≤ uint32Max) :
    (buildSlots p cursor slots).2 = .error eoverflow ↔ uint32Max < (greedy p cursor slots).2 := by
  induction slots generalizing cursor with
  | nil => exact iff_of_false (fun h => nomatch h) (by show ¬uint32Max < cursor; omega)
  | cons s rest ih =>
      have hs := List.mem_cons_self (a := s) (l := rest)
      have hpos := Nat.pos_of_ne_zero (hal s hs)
      have hup := layoutAlignUp_eq hpos (Slot.effAlign_le (p := p) (hshort s hs)) hc
      have hround := le_roundUp cursor hpos
      have hrest : ∀ x ∈ rest, x ∈ s :: rest := fun x hx => List.mem_cons_of_mem s hx
      have hend := le_greedy (fun x hx => hal x (hrest x hx))
        (roundUp cursor (s.effAlign p) + s.effSize p)
      rw [buildSlots, if_neg (by push Not; exact ⟨hal s hs, hsz s hs⟩)]
      simp only
      show _ ↔ uint32Max < (greedy p (roundUp cursor (s.effAlign p) + s.effSize p) rest).2
      by_cases hmax : roundUp cursor (s.effAlign p) ≤ uint32Max
      · rw [hup, if_pos hmax, if_neg (by omega)]
        by_cases hfit : s.effSize p > uint32Max - roundUp cursor (s.effAlign p)
        · rw [if_pos hfit]
          exact iff_of_true rfl (by omega)
        · rw [if_neg hfit, u32_of_le (by omega)]
          exact ih (fun x hx => hshort x (hrest x hx)) (fun x hx => hal x (hrest x hx))
            (fun x hx => hsz x (hrest x hx)) (by omega) (by omega)
      · rw [hup, if_neg hmax, if_pos ⟨rfl, by omega⟩]
        exact iff_of_true rfl (by omega)

end Loop

/-! ## The build -/

/-- On a line of at least one byte every slot has an alignment. -/
theorem Slot.effAlign_ne_zero {p : Platform} (hc : 0 < p.cacheline) (s : Slot) :
    s.effAlign p ≠ 0 := by
  unfold Slot.effAlign
  split_ifs with h
  · exact h
  · unfold Platform.posixipcKindAlign
    split
    · rename_i t _
      obtain ⟨k, hk⟩ := p.alignof_pow t
      rw [hk]
      exact (Nat.two_pow_pos k).ne'
    · split_ifs
      · omega
      · omega

/-- The start of the first slot. -/
def firstOffset (slots : List Slot) : ℕ := headerBytes + sizeofSlot * slots.length

/-- What a successful build gives. -/
structure BuildLaw (p : Platform) (slots out : List Slot) (e : Expect) : Prop where
  /-- The slots are where the greedy placement puts them. -/
  placed : List.Forall₂ Slot.PlacedAs out (greedy p (firstOffset slots) slots).1
  total : e.totalSize = (greedy p (firstOffset slots) slots).2
  total_le : e.totalSize ≤ uint32Max
  aligned : ∀ q ∈ (greedy p (firstOffset slots) slots).1, q.align ∣ q.offset
  /-- From the end of the directory to the total size, one after the other, none empty. -/
  packed : Packed (firstOffset slots) out e.totalSize
  kept : out.map (fun s => (s.kind, s.initFlags)) = slots.map fun s => (s.kind, s.initFlags)

theorem posixipcLayoutBuild_overflow {p : Platform} {slots : List Slot}
    (hn : slots.length ≤ 0xffff) :
    (posixipcLayoutBuild p slots).2 = .error eoverflow ↔
      (buildSlots p (firstOffset slots) slots).2 = .error eoverflow ∨
        (buildSlots p (firstOffset slots) slots).2 = .ok 0 := by
  have hdir : u32 (slots.length * sizeofSlot) = slots.length * sizeofSlot :=
    u32_of_lt (by unfold sizeofSlot; omega)
  have hcur : u32 (headerBytes + slots.length * sizeofSlot) = firstOffset slots := by
    rw [firstOffset, Nat.mul_comm sizeofSlot]
    exact u32_of_lt (by unfold headerBytes sizeofSlot; omega)
  unfold posixipcLayoutBuild
  simp only [hdir, hcur]
  rw [if_neg (by unfold sizeofSlot; omega)]
  cases (buildSlots p (firstOffset slots) slots).2 with
  | error rc => simp
  | ok cursor =>
      simp only
      by_cases h0 : cursor = 0
      · rw [if_pos h0, h0]
        simp
      · rw [if_neg h0]
        simp [h0]

/-- **The build is the greedy placement**, for every list of slots that the caller can count and
every cache line that is a power of two: what a success returns, and when `EOVERFLOW` is
returned. -/
theorem layoutBuild_greedy {p : Platform} {slots : List Slot} (hc : p.cacheline.isPowerOfTwo)
    (hn : slots.length ≤ 0xffff) (hshort : ∀ s ∈ slots, s.Short) :
    (∀ out e, posixipcLayoutBuild p slots = (out, .ok e) → BuildLaw p slots out e) ∧
      ((∀ s ∈ slots, s.effSize p ≠ 0) →
        ((posixipcLayoutBuild p slots).2 = .error eoverflow ↔
          uint32Max < (greedy p (firstOffset slots) slots).2)) := by
  have hline : 0 < p.cacheline := by
    obtain ⟨k, hk⟩ := hc
    rw [hk]
    exact Nat.two_pow_pos k
  have hfirst : firstOffset slots ≤ uint32Max := by
    unfold firstOffset headerBytes sizeofSlot uint32Max
    omega
  constructor
  · intro out e hb
    obtain ⟨hloop, he⟩ := posixipcLayoutBuild_ok hn hb
    have hfo : headerBytes + 16 * slots.length = firstOffset slots := rfl
    rw [hfo] at hloop
    obtain ⟨hplaced, htotal⟩ := buildSlots_eq_greedy hshort hfirst hloop
    obtain ⟨hpack, hmax⟩ := packed_buildSlots hshort hfirst hloop
    exact ⟨hplaced, htotal, hmax, aligned_greedy _ _, hpack,
      buildSlots_map _ (fun _ _ => rfl) hloop⟩
  · intro hsz
    have hal : ∀ s ∈ slots, s.effAlign p ≠ 0 := fun s _ => s.effAlign_ne_zero hline
    have hpos : 0 < firstOffset slots := by
      unfold firstOffset headerBytes
      omega
    rw [posixipcLayoutBuild_overflow hn, ← buildSlots_overflow_iff hshort hal hsz hpos hfirst]
    refine or_iff_left fun h => ?_
    -- a loop that succeeds ends behind its start
    obtain ⟨hpack, -⟩ := packed_buildSlots hshort hfirst (Prod.ext rfl h)
    have := hpack.le
    omega

/-- A line of 2¹⁶ bytes. -/
def longLine : Platform := { glibcX86 with cacheline := 2 ^ 16, cacheline_le := by decide }

/-- A mutex and a blob whose alignment is no power of two. -/
def mutexAndBlob : List Slot := [⟨kindMutex, 0, 0, 0, 2⟩, ⟨kindBytes, 48, 0, 100, 0⟩]

theorem layoutBuild_greedy_mutex_blob :
    ∃ e, posixipcLayoutBuild glibcX86 mutexAndBlob
        = ([⟨kindMutex, 8, 96, 64, 2⟩, ⟨kindBytes, 48, 192, 100, 0⟩], .ok e) ∧
      BuildLaw glibcX86 mutexAndBlob
        [⟨kindMutex, 8, 96, 64, 2⟩, ⟨kindBytes, 48, 192, 100, 0⟩] e := by
  have hbuild : posixipcLayoutBuild glibcX86 mutexAndBlob
      = ([⟨kindMutex, 8, 96, 64, 2⟩, ⟨kindBytes, 48, 192, 100, 0⟩],
        .ok ⟨1, 2, 25489805, 0, 292, 32, 2622986336,
          some [⟨kindMutex, 8, 96, 64, 2⟩, ⟨kindBytes, 48, 192, 100, 0⟩]⟩) := by decide +kernel
  exact ⟨_, hbuild, (layoutBuild_greedy ⟨6, rfl⟩ (by decide)
    (by simp [mutexAndBlob, Slot.Short])).1 _ _ hbuild⟩

/-- The alignment that a blob takes from a long line does not fit its field. -/
theorem longLine_truncates :
    longLine.cacheline.isPowerOfTwo ∧
      ∃ out e, posixipcLayoutBuild longLine [⟨kindBytes, 0, 0, 100, 0⟩] = (out, .ok e) ∧
        out.map Slot.align ≠ (greedy longLine (firstOffset [⟨kindBytes, 0, 0, 100, 0⟩])
          [⟨kindBytes, 0, 0, 100, 0⟩]).1.map Place.align := by
  refine ⟨⟨16, rfl⟩, [⟨kindBytes, 0, 65536, 100, 0⟩],
    ⟨1, 1, 25555405, 0, 65636, 16, 1403055932, some [⟨kindBytes, 0, 65536, 100, 0⟩]⟩, ?_, ?_⟩
  · decide +kernel
  · decide +kernel

end PosixIpc
