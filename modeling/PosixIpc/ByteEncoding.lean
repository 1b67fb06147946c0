/-
# Byte encodings and the FNV-1a hash

* `le w n` : the `w` low bytes of a number, the lowest first.  `le_inj` says that nothing of a
  number that fits is lost;
* `flatMap_inj` : a list is known from the concatenation of codes of one length, which need no
  separators;
* `fnv1a32` : the 32-bit hash of a byte string.
-/
import Mathlib

namespace ByteEncoding

/-! ## Little-endian numbers -/

/-- The `w` low bytes of `n`, the lowest first. -/
def le : ℕ → ℕ → List UInt8
  | 0, _ => []
  | w + 1, n => UInt8.ofNat n :: le w (n / 256)

@[simp] theorem length_le (w n : ℕ) : (le w n).length = w := by
  induction w generalizing n with
  | zero => rfl
  | succ w ih => rw [le, List.length_cons, ih]

/-- **Nothing is lost** of a number that fits. -/
theorem le_inj {w m n : ℕ} (hm : m < 256 ^ w) (hn : n < 256 ^ w) (h : le w m = le w n) :
    m = n := by
  induction w generalizing m n with
  | zero =>
    rw [pow_zero] at hm hn
    omega
  | succ w ih =>
    obtain ⟨hlow, hrest⟩ := List.cons.inj h
    have hmod : m % 256 = n % 256 := by simpa using congrArg UInt8.toNat hlow
    have hdiv : m / 256 = n / 256 := ih (by omega) (by omega) hrest
    omega

/-! ## Codes of one length -/

/-- The two parts of a concatenation, when the first parts have one length. -/
theorem append_inj {α : Type} {w : ℕ} {a a' b b' : List α} (ha : a.length = w)
    (ha' : a'.length = w) (h : a ++ b = a' ++ b') : a = a' ∧ b = b' :=
  List.append_inj h (ha.trans ha'.symm)

/-- **A list is known from its codes**, also its length: `key` is what one code says. -/
theorem flatMap_inj {α β γ : Type} {code : α → List β} {key : α → γ} {w : ℕ} (hw : 0 < w)
    (hlen : ∀ a, (code a).length = w) (hkey : ∀ a b, code a = code b → key a = key b)
    {xs ys : List α} (h : xs.flatMap code = ys.flatMap code) : xs.map key = ys.map key := by
  have hlength := congrArg List.length h
  induction xs generalizing ys with
  | nil =>
    cases ys with
    | nil => rfl
    | cons y ys =>
      -- the code of `y` is not empty
      simp only [List.flatMap_nil, List.flatMap_cons, List.length_append, hlen, List.length_nil]
        at hlength
      omega
  | cons x xs ih =>
    cases ys with
    | nil =>
      simp only [List.flatMap_nil, List.flatMap_cons, List.length_append, hlen, List.length_nil]
        at hlength
      omega
    | cons y ys =>
      rw [List.flatMap_cons, List.flatMap_cons] at h
      obtain ⟨hx, hrest⟩ := append_inj (hlen x) (hlen y) h
      rw [List.map_cons, List.map_cons, hkey x y hx, ih hrest (congrArg List.length hrest)]

/-! ## FNV-1a -/

/-- One byte. -/
def fnvStep (h : UInt32) (b : UInt8) : UInt32 := (h ^^^ b.toUInt32) * 0x01000193

/-- The 32-bit FNV-1a hash. -/
def fnv1a32 (bytes : List UInt8) : UInt32 := bytes.foldl fnvStep 0x811C9DC5

-- the empty string and one letter
example : fnv1a32 [] = 2166136261 ∧ fnv1a32 [97] = 3826002220 := by decide

theorem toNat_fnvStep (h : UInt32) (b : UInt8) :
    (fnvStep h b).toNat = (h.toNat ^^^ b.toNat) * 0x01000193 % 2 ^ 32 := by
  simp [fnvStep, UInt32.toNat_mul, UInt32.toNat_xor]

end ByteEncoding
