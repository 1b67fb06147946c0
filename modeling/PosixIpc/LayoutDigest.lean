/-
# The digest (`posixipc_layout_digest`)

The digest of a layout is a hash of a byte string: the little-endian version, tag and cache
line, and for each slot its kind, alignment, size and flags.  An offset is not in the string; it
follows from the slots before it.

* `layoutBytes` : the byte string;
* `posixipcLayoutDigest_eq` : the fold over the fields is FNV-1a of the byte string;
* `digest_of_injective_encoding` : the digest, that it is not `0`, and what the byte string says.
-/
import PosixIpc.ByteEncoding
import PosixIpc.LayoutOpen

namespace PosixIpc

open Word32 ByteEncoding

/-! ## The documented encoding -/

/-- `posixipc_slot`, with the widths of its fields. -/
structure SlotRecord where
  kind : UInt16
  align : UInt16
  offset : UInt32
  size : UInt32
  initFlags : UInt32
  deriving DecidableEq, Repr

/-- The record as a slot of a layout. -/
def SlotRecord.slot (r : SlotRecord) : Slot :=
  ⟨r.kind.toNat, r.align.toNat, r.offset.toNat, r.size.toNat, r.initFlags.toNat⟩

/-- The fields of a record that are encoded. -/
def SlotRecord.encoded (r : SlotRecord) : UInt16 × UInt16 × UInt32 × UInt32 :=
  (r.kind, r.align, r.size, r.initFlags)

/-- The bytes of a slot. -/
def slotBytes (s : Slot) : List UInt8 :=
  le 2 s.kind ++ (le 2 s.align ++ (le 4 s.size ++ le 4 s.initFlags))

/-- The bytes in front of the slots. -/
def headBytes (cacheline layoutVersion abiTag : ℕ) : List UInt8 :=
  le 2 layoutVersion ++ (le 4 abiTag ++ le 4 cacheline)

/-- **The byte string of a layout.** -/
def layoutBytes (p : Platform) (layoutVersion abiTag : ℕ) (slots : List Slot) : List UInt8 :=
  headBytes p.cacheline layoutVersion abiTag ++ slots.flatMap slotBytes

/-- The hash of a byte string, where `0` is stored as `1`. -/
def digestOf (bytes : List UInt8) : ℕ :=
  if fnv1a32 bytes = 0 then 1 else (fnv1a32 bytes).toNat

/-! ## The fold is the hash -/

theorem feedU8_eq (h : UInt32) (b : UInt8) : feedU8 h.toNat b.toNat = (fnvStep h b).toNat :=
  (toNat_fnvStep h b).symm

/-- The low byte, as the source masks it. -/
theorem toNat_low (n : ℕ) : n &&& 0xff = (UInt8.ofNat n).toNat := by
  rw [show (0xff : ℕ) = 2 ^ 8 - 1 by norm_num, Nat.and_two_pow_sub_one_eq_mod]
  simp

theorem feedU16Le_eq (h : UInt32) (n : ℕ) :
    feedU16Le h.toNat n = ((le 2 n).foldl fnvStep h).toNat := by
  unfold feedU16Le
  rw [toNat_low, toNat_low, feedU8_eq, feedU8_eq, Nat.shiftRight_eq_div_pow]
  rfl

theorem feedU32Le_eq (h : UInt32) (n : ℕ) :
    feedU32Le h.toNat n = ((le 4 n).foldl fnvStep h).toNat := by
  have hdiv2 : n >>> 16 = n / 256 / 256 := by
    rw [Nat.shiftRight_eq_div_pow, Nat.div_div_eq_div_mul]
  have hdiv3 : n >>> 24 = n / 256 / 256 / 256 := by
    rw [Nat.shiftRight_eq_div_pow, Nat.div_div_eq_div_mul, Nat.div_div_eq_div_mul]
  unfold feedU32Le
  simp only [toNat_low, feedU8_eq, hdiv2, hdiv3]
  rw [Nat.shiftRight_eq_div_pow]
  rfl

theorem feedSlot_eq (h : UInt32) (s : Slot) :
    feedSlot h.toNat s = ((slotBytes s).foldl fnvStep h).toNat := by
  unfold feedSlot slotBytes
  simp only [feedU16Le_eq, feedU32Le_eq, List.foldl_append]

/-- The loop over the slots. -/
theorem foldl_feedSlot_eq (h : UInt32) (slots : List Slot) :
    slots.foldl feedSlot h.toNat = ((slots.flatMap slotBytes).foldl fnvStep h).toNat := by
  induction slots generalizing h with
  | nil => rfl
  | cons s slots ih => rw [List.foldl_cons, feedSlot_eq, ih, List.flatMap_cons, List.foldl_append]

/-- **The digest is the hash of the byte string.** -/
theorem posixipcLayoutDigest_eq (p : Platform) (layoutVersion abiTag : ℕ) (slots : List Slot) :
    posixipcLayoutDigest p layoutVersion abiTag slots =
      digestOf (layoutBytes p layoutVersion abiTag slots) := by
  have hfold : slots.foldl feedSlot (feedU32Le (feedU32Le (feedU16Le 0x811C9DC5 layoutVersion)
      abiTag) p.cacheline) = (fnv1a32 (layoutBytes p layoutVersion abiTag slots)).toNat := by
    rw [show (0x811C9DC5 : ℕ) = (0x811C9DC5 : UInt32).toNat from rfl, feedU16Le_eq, feedU32Le_eq,
      feedU32Le_eq, foldl_feedSlot_eq]
    unfold fnv1a32 layoutBytes headBytes
    simp only [List.foldl_append]
  unfold posixipcLayoutDigest digestOf
  simp only [hfold]
  exact if_congr (UInt32.toNat_inj (b := 0)) rfl rfl

/-- `0` is kept for segments without a layout. -/
theorem digestOf_ne_zero (bytes : List UInt8) : digestOf bytes ≠ 0 := by
  unfold digestOf
  split_ifs with h
  · exact one_ne_zero
  · exact fun h0 => h (UInt32.toNat_inj.mp h0)

/-! ## Nothing is lost -/

theorem slotBytes_inj {r r' : SlotRecord} (h : slotBytes r.slot = slotBytes r'.slot) :
    r.encoded = r'.encoded := by
  unfold slotBytes at h
  obtain ⟨hkind, h⟩ := append_inj (length_le 2 _) (length_le 2 _) h
  obtain ⟨halign, h⟩ := append_inj (length_le 2 _) (length_le 2 _) h
  obtain ⟨hsize, hflags⟩ := append_inj (length_le 4 _) (length_le 4 _) h
  have h1 : r.kind = r'.kind := UInt16.toNat_inj.mp (le_inj r.kind.toNat_lt r'.kind.toNat_lt hkind)
  have h2 : r.align = r'.align :=
    UInt16.toNat_inj.mp (le_inj r.align.toNat_lt r'.align.toNat_lt halign)
  have h3 : r.size = r'.size := UInt32.toNat_inj.mp (le_inj r.size.toNat_lt r'.size.toNat_lt hsize)
  have h4 : r.initFlags = r'.initFlags :=
    UInt32.toNat_inj.mp (le_inj r.initFlags.toNat_lt r'.initFlags.toNat_lt hflags)
  rw [SlotRecord.encoded, h1, h2, h3, h4]
  rfl

theorem length_slotBytes (s : Slot) : (slotBytes s).length = 12 := by
  simp [slotBytes]

theorem length_headBytes (cacheline layoutVersion abiTag : ℕ) :
    (headBytes cacheline layoutVersion abiTag).length = 10 := by
  simp [headBytes]

theorem headBytes_inj {cacheline : ℕ} {v v' : UInt16} {t t' : UInt32}
    (h : headBytes cacheline v.toNat t.toNat = headBytes cacheline v'.toNat t'.toNat) :
    v = v' ∧ t = t' := by
  obtain ⟨hv, h⟩ := append_inj (length_le 2 _) (length_le 2 _) h
  obtain ⟨ht, _⟩ := append_inj (length_le 4 _) (length_le 4 _) h
  exact ⟨UInt16.toNat_inj.mp (le_inj v.toNat_lt v'.toNat_lt hv),
    UInt32.toNat_inj.mp (le_inj t.toNat_lt t'.toNat_lt ht)⟩

/-- **The encoding is injective**, for lists of any length. -/
theorem layoutBytes_inj {p : Platform} {v v' : UInt16} {t t' : UInt32} {xs ys : List SlotRecord}
    (h : layoutBytes p v.toNat t.toNat (xs.map SlotRecord.slot) =
      layoutBytes p v'.toNat t'.toNat (ys.map SlotRecord.slot)) :
    v = v' ∧ t = t' ∧ xs.map SlotRecord.encoded = ys.map SlotRecord.encoded := by
  obtain ⟨hhead, hslots⟩ := append_inj (length_headBytes _ _ _) (length_headBytes _ _ _) h
  obtain ⟨hv, ht⟩ := headBytes_inj hhead
  refine ⟨hv, ht, ?_⟩
  rw [List.flatMap_map, List.flatMap_map] at hslots
  exact flatMap_inj (by norm_num) (fun r => length_slotBytes (SlotRecord.slot r))
    (fun _ _ => slotBytes_inj) hslots

/-- Slots with the same encoded fields are placed alike. -/
theorem alike_of_encoded (p : Platform) {xs ys : List SlotRecord}
    (h : xs.map SlotRecord.encoded = ys.map SlotRecord.encoded) :
    List.Forall₂ (Slot.Alike p) (xs.map SlotRecord.slot) (ys.map SlotRecord.slot) := by
  have hsame : List.Forall₂ (· = ·) (xs.map SlotRecord.encoded) (ys.map SlotRecord.encoded) := by
    rw [h]
    exact List.forall₂_refl _
  rw [List.forall₂_map_left_iff, List.forall₂_map_right_iff] at hsame ⊢
  refine hsame.imp ?_
  rintro ⟨kind, align, offset, size, flags⟩ ⟨kind', align', offset', size', flags'⟩ hr
  simp only [SlotRecord.encoded, Prod.mk.injEq] at hr
  -- the two records differ in the offset alone
  obtain ⟨rfl, rfl, rfl, rfl⟩ := hr
  exact ⟨rfl, rfl, rfl, rfl⟩

/-- In a layout that adds have built, the offsets follow from the encoded fields. -/
theorem slots_eq_of_encoded {p : Platform} {l l' : LayoutObj} {xs ys : List SlotRecord}
    (hl : Added p l) (hl' : Added p l') (hx : l.slots = xs.map SlotRecord.slot)
    (hy : l'.slots = ys.map SlotRecord.slot)
    (h : xs.map SlotRecord.encoded = ys.map SlotRecord.encoded) : l.slots = l'.slots := by
  obtain ⟨e, hb⟩ := hl.built
  obtain ⟨e', hb'⟩ := hl'.built
  have halike : List.Forall₂ (Slot.Alike p) l.slots l'.slots := by
    rw [hx, hy]
    exact alike_of_encoded p h
  have hb2 := posixipcLayoutBuild_congr hl.inv.count halike hb
  rw [hb'] at hb2
  exact (congrArg Prod.fst hb2).symm

/-! ## The digest -/

/-- **The digest implements its encoding, and the encoding loses nothing**: the digest is the
hash of the byte string and never `0`; two byte strings are the same only for the same version,
the same tag and the same slots, in number and in every encoded field.  For layouts that adds
have built the slots are then the same with their offsets. -/
theorem digest_of_injective_encoding (p : Platform) :
    (∀ (v : UInt16) (t : UInt32) (xs : List SlotRecord),
      posixipcLayoutDigest p v.toNat t.toNat (xs.map SlotRecord.slot) =
          digestOf (layoutBytes p v.toNat t.toNat (xs.map SlotRecord.slot)) ∧
        posixipcLayoutDigest p v.toNat t.toNat (xs.map SlotRecord.slot) ≠ 0) ∧
    (∀ (v v' : UInt16) (t t' : UInt32) (xs ys : List SlotRecord),
      layoutBytes p v.toNat t.toNat (xs.map SlotRecord.slot) =
          layoutBytes p v'.toNat t'.toNat (ys.map SlotRecord.slot) →
        v = v' ∧ t = t' ∧ xs.map SlotRecord.encoded = ys.map SlotRecord.encoded ∧
        ∀ l l' : LayoutObj, Added p l → Added p l' → l.slots = xs.map SlotRecord.slot →
          l'.slots = ys.map SlotRecord.slot → l.slots = l'.slots) := by
  constructor
  · intro v t xs
    rw [posixipcLayoutDigest_eq]
    exact ⟨rfl, digestOf_ne_zero _⟩
  · intro v v' t t' xs ys h
    obtain ⟨hv, ht, hfields⟩ := layoutBytes_inj h
    exact ⟨hv, ht, hfields, fun l l' hl hl' hx hy => slots_eq_of_encoded hl hl' hx hy hfields⟩

/-- A mutex of 40 bytes and a mutex of 44 bytes are told apart by their byte strings. -/
theorem digest_of_injective_encoding_two :
    layoutBytes glibcX86 (1 : UInt16).toNat (7 : UInt32).toNat
        ([⟨1, 8, 80, 40, 2⟩].map SlotRecord.slot) ≠
      layoutBytes glibcX86 (1 : UInt16).toNat (7 : UInt32).toNat
        ([⟨1, 8, 80, 44, 2⟩].map SlotRecord.slot) := by
  intro h
  have hfields := ((digest_of_injective_encoding glibcX86).2 1 1 7 7 _ _ h).2.2.1
  exact absurd hfields (by decide)

end PosixIpc
