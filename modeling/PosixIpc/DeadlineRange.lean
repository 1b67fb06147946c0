/-
# The range of the deadline arithmetic (`posixipc_time.c`, `py_wait.c`)

`add_seconds` converts the whole seconds to `time_t` before it caps them, and caps them
without their fraction.  This module says where its conversions are defined and what it then
stores, whatever the rounding of `double`, and follows the deadlines of two calls that read
the same clock.

* `nanos` : the nanoseconds of the fraction, which rounding keeps in order;
* `addSeconds_below`, `addSeconds_beyond` : where the conversions are defined;
* `AcquireOpts.due` : when a call with a timeout ends, on any timeout;
* `wellPlaced_addSeconds` : one deadline, and the slices that end with it;
* `deadlineSound_iff` : two deadlines, and exactly when they are in order.
-/
import PosixIpc.Deadline

namespace PosixIpc

open BinaryRounding

/-! ## Readings in order -/

/-- A reading in nanoseconds. -/
def Timespec.ns (ts : Timespec) : ℤ := ts.sec * 1000000000 + ts.nsec

/-- The order in which `posixipc_deadline_min` compares two readings. -/
def Timespec.NotAfter (a b : Timespec) : Prop :=
  a.sec < b.sec ∨ (a.sec = b.sec ∧ a.nsec ≤ b.nsec)

instance (a b : Timespec) : Decidable (a.NotAfter b) :=
  inferInstanceAs (Decidable (a.sec < b.sec ∨ (a.sec = b.sec ∧ a.nsec ≤ b.nsec)))

/-- On normalised readings the order is that of the nanoseconds. -/
theorem Timespec.notAfter_iff {a b : Timespec} (ha : a.Proper) (hb : b.Proper) :
    a.NotAfter b ↔ a.ns ≤ b.ns := by
  obtain ⟨ha0, ha1⟩ := ha
  obtain ⟨hb0, hb1⟩ := hb
  unfold NotAfter ns
  constructor
  · rintro (h | ⟨h, hn⟩) <;> omega
  · intro h
    omega

/-! ## The fraction of a second -/

/-- What is not negative is truncated to its floor. -/
theorem truncate_nonneg {x : ℚ} (h : 0 ≤ x) : truncate x = ⌊x⌋ := by
  have hnum : 0 ≤ x.num := Rat.num_nonneg.mpr h
  rw [truncate, Int.tdiv_eq_ediv_of_nonneg hnum, Rat.floor_def']

/-- The nanoseconds that `add_seconds` takes from the fraction of the seconds. -/
def nanos (rnd : Rounding 53) (seconds : ℚ) : ℤ :=
  ⌊rnd.round (Int.fract seconds * 1000000000)⌋

section Nanos

variable (rnd : Rounding 53) {s t : ℚ}

/-- The product with `10 ^ 9` is not negative. -/
theorem fraction_nonneg (seconds : ℚ) : 0 ≤ Int.fract seconds * 1000000000 := by
  have hfract := Int.fract_nonneg seconds
  positivity

/-- No fraction is counted as a negative number. -/
theorem nanos_nonneg (seconds : ℚ) : 0 ≤ nanos rnd seconds :=
  Int.floor_nonneg.mpr (rnd.round_nonneg (fraction_nonneg seconds))

/-- The product can be rounded up, but to a whole second at most. -/
theorem nanos_le (seconds : ℚ) : nanos rnd seconds ≤ 1000000000 := by
  have hfract := Int.fract_lt_one seconds
  have hle : Int.fract seconds * 1000000000 ≤ ((1000000000 : ℕ) : ℚ) := by
    push_cast
    linarith
  have hround := rnd.round_le (fraction_nonneg seconds) (by norm_num) hle
  have hfloor := (Int.floor_le _).trans hround
  exact_mod_cast hfloor

/-- An integer number of nanoseconds that is enough for the fraction is enough. -/
theorem nanos_le_of_le {n : ℤ} (h : Int.fract s * 1000000000 ≤ n) : nanos rnd s ≤ n := by
  obtain ⟨m, rfl⟩ := Int.eq_ofNat_of_zero_le
    (by exact_mod_cast (fraction_nonneg s).trans h : (0 : ℤ) ≤ n)
  by_cases hm : m < 2 ^ 53
  · have hfloor :=
      (Int.floor_le _).trans (rnd.round_le (fraction_nonneg s) hm (by exact_mod_cast h))
    exact_mod_cast hfloor
  · -- no fraction needs as many
    have hall := nanos_le rnd s
    omega

/-- With the same whole seconds the fraction decides. -/
theorem nanos_le_of_floor_eq (hle : s ≤ t) (hfloor : ⌊s⌋ = ⌊t⌋) : nanos rnd s ≤ nanos rnd t := by
  refine Int.floor_le_floor (rnd.mono (fraction_nonneg s) ?_)
  have hfract : Int.fract s ≤ Int.fract t := by
    rw [Int.fract, Int.fract, hfloor]
    linarith
  linarith

end Nanos

/-! ## Where the conversions are defined -/

section Conversions

variable (rnd : Rounding 53) {ts : Timespec} {s : ℚ}

/-- What is not negative converts below `2 ^ 63`. -/
theorem toInt64_of_nonneg (h : 0 ≤ s) : toInt64 s = if s < 2 ^ 63 then some ⌊s⌋ else none := by
  have hfloor : ⌊s⌋ < (2 ^ 63 : ℤ) ↔ s < ((2 ^ 63 : ℤ) : ℚ) := Int.floor_lt
  have h0 : 0 ≤ ⌊s⌋ := Int.floor_nonneg.mpr h
  have hin : InInt64 ⌊s⌋ ↔ s < 2 ^ 63 := by
    rw [InInt64, hfloor]
    push_cast
    exact ⟨fun h => h.2, fun h => ⟨by omega, h⟩⟩
  simp only [toInt64, truncate_nonneg h, hin]

/-- The product with `10 ^ 9` always converts. -/
theorem toInt64_nanos (seconds : ℚ) :
    toInt64 (rnd.round (Int.fract seconds * 1000000000)) = some (nanos rnd seconds) := by
  have hpos := rnd.round_nonneg (fraction_nonneg seconds)
  have hlt : rnd.round (Int.fract seconds * 1000000000) < 2 ^ 63 := by
    have hfloor := nanos_le rnd seconds
    have hadd := Int.lt_floor_add_one (rnd.round (Int.fract seconds * 1000000000))
    have hcast : ((nanos rnd seconds : ℤ) : ℚ) ≤ 1000000000 := by exact_mod_cast hfloor
    rw [nanos] at hcast
    linarith
  rw [toInt64_of_nonneg hpos, if_pos hlt, nanos]

/-- **Below `2 ^ 63` seconds** the sum is normalised: the whole seconds are capped, their
fraction is not. -/
theorem addSeconds_below (hts : ts.Proper) (h0 : 0 ≤ s) (h : s < 2 ^ 63) :
    ∃ due, addSeconds rnd ts s = some due ∧ due.Proper ∧
      due.ns = ts.ns + min ⌊s⌋ 100000000 * 1000000000 + nanos rnd s := by
  obtain ⟨hn0, hn1⟩ := hts
  have hpos := nanos_nonneg rnd s
  have hle := nanos_le rnd s
  have hfract : max (s - ((⌊s⌋ : ℤ) : ℚ)) 0 = Int.fract s := max_eq_left (Int.fract_nonneg s)
  have hcap : (if ⌊s⌋ > 100000000 then (100000000 : ℤ) else ⌊s⌋) = min ⌊s⌋ 100000000 := by
    split_ifs <;> omega
  refine ⟨_, by simp only [addSeconds, toInt64_of_nonneg h0, if_pos h, Option.bind_eq_bind,
    Option.bind_some, hfract, toInt64_nanos]; rfl, ?_, ?_⟩
  · split_ifs <;> constructor <;> simp only <;> omega
  · rw [hcap]
    generalize min ⌊s⌋ 100000000 = a
    -- the carry moves a second between the fields
    split_ifs <;> simp only [Timespec.ns] <;> ring

/-- **From `2 ^ 63` seconds on** the conversion of the whole seconds is not defined. -/
theorem addSeconds_beyond (ts : Timespec) {seconds : WithTop ℚ} (h : 2 ^ 63 ≤ seconds) :
    addSeconds rnd ts seconds = none := by
  cases seconds with
  | top => rfl
  | coe s =>
      have hle : 2 ^ 63 ≤ s := WithTop.coe_le_coe.mp h
      have h0 : 0 ≤ s := le_trans (by norm_num) hle
      simp only [addSeconds, toInt64_of_nonneg h0, if_neg (not_lt.mpr hle), Option.bind_eq_bind,
        Option.bind_none]

/-- With a clock reading and seconds that are not negative the sum decides. -/
theorem posixipcDeadlineFromSeconds_some (clk : ClockId) (now : Timespec) {seconds : WithTop ℚ}
    (h : 0 ≤ seconds) :
    posixipcDeadlineFromSeconds rnd clk seconds (some now) =
      (addSeconds rnd now seconds).map fun ts => .ok ⟨clk, ts⟩ := by
  rw [posixipcDeadlineFromSeconds, if_neg (not_lt.mpr h)]
  rfl

end Conversions

/-! ## When a call ends -/

section Due

variable {o : AcquireOpts} {now : Timespec} {clk : ClockId}

/-- When a call with these options, which has a timeout, ends. -/
def AcquireOpts.due (o : AcquireOpts) (now : Timespec) : Timespec :=
  (addSeconds binary64 now o.timeout).getD now.wrapped

/-- The deadline of a call with a timeout. -/
theorem deadline_cases {reading : Option Timespec} {user : Option Deadline}
    (hT : o.timeoutNone = false) (h : o.deadline clk reading = .ok user) :
    0 ≤ o.timeout ∧ ∃ now, reading = some now ∧ user = some ⟨clk, o.due now⟩ := by
  unfold AcquireOpts.deadline at h
  rw [hT, if_neg Bool.false_ne_true] at h
  by_cases hneg : o.timeout < 0
  · simp [posixipcDeadlineFromSeconds, hneg, Except.map] at h
  · refine ⟨not_lt.mp hneg, ?_⟩
    cases reading with
    | none => simp [posixipcDeadlineFromSeconds, hneg, posixipcNow, Except.map] at h
    | some now =>
        refine ⟨now, rfl, ?_⟩
        rw [posixipcDeadlineFromSeconds_some _ clk now (not_lt.mp hneg)] at h
        unfold AcquireOpts.due
        cases hadd : addSeconds binary64 now o.timeout <;>
          simpa [hadd, posixipcNow, Except.map, eq_comm] using h

/-- What `posixipc_parse_acquire` accepts always gives a deadline, or needs none. -/
theorem deadline_ok (hpos : 0 ≤ o.timeout) (clk : ClockId) (now : Timespec) :
    o.deadline clk (some now) = .ok (if o.timeoutNone then none else some ⟨clk, o.due now⟩) := by
  unfold AcquireOpts.deadline AcquireOpts.due
  split_ifs
  · rfl
  · rw [posixipcDeadlineFromSeconds_some _ clk now hpos]
    cases addSeconds binary64 now o.timeout <;> rfl

/-- A timeout in the range of the arithmetic. -/
theorem due_below (hnow : now.Proper) (hpos : 0 ≤ o.timeout) (h : o.timeout < 2 ^ 63) :
    ∃ s : ℚ, o.timeout = s ∧ 0 ≤ s ∧ (o.due now).Proper ∧
      (o.due now).ns = now.ns + min ⌊s⌋ 100000000 * 1000000000 + nanos binary64 s := by
  obtain ⟨s, hs⟩ := WithTop.ne_top_iff_exists.mp (ne_top_of_lt h)
  rw [← hs] at hpos h
  have h0 : 0 ≤ s := by exact_mod_cast hpos
  obtain ⟨due, hadd, hdue⟩ := addSeconds_below binary64 hnow h0 (WithTop.coe_lt_coe.mp h)
  have heq : o.due now = due := by rw [AcquireOpts.due, ← hs, hadd, Option.getD_some]
  exact ⟨s, hs.symm, h0, heq ▸ hdue⟩

/-- A timeout beyond the range of the arithmetic. -/
theorem due_beyond (now : Timespec) (h : 2 ^ 63 ≤ o.timeout) : o.due now = now.wrapped := by
  rw [AcquireOpts.due, addSeconds_beyond _ _ h, Option.getD_none]

/-- The deadline lies within any whole number of nanoseconds that the timeout lies within. -/
theorem due_le {s : ℚ} {n : ℤ} (hnow : now.Proper) (hpos : 0 ≤ o.timeout)
    (h : o.timeout < 2 ^ 63) (hs : o.timeout = s) (hn : s * 1000000000 ≤ n) :
    (o.due now).ns ≤ now.ns + n := by
  obtain ⟨s', hs', -, -, hns⟩ := due_below hnow hpos h
  obtain rfl : s = s' := WithTop.coe_injective (hs.symm.trans hs')
  have hfract : Int.fract s * 1000000000 ≤ ((n - ⌊s⌋ * 1000000000 : ℤ) : ℚ) := by
    rw [Int.fract]
    push_cast
    linarith
  have hnanos := nanos_le_of_le binary64 hfract
  omega

end Due

/-! ## One deadline -/

/-- A slice of a normalised reading is normalised. -/
theorem addNs_proper {ts : Timespec} (hts : ts.Proper) : (addNs ts sliceNs).Proper := by
  obtain ⟨h0, h1⟩ := hts
  unfold addNs sliceNs
  split_ifs <;> constructor <;> simp only <;> omega

/-- `add_ns` adds nanoseconds. -/
theorem addNs_ns (ts : Timespec) (n : ℤ) : (addNs ts n).ns = ts.ns + n := by
  unfold addNs
  split_ifs <;> simp only [Timespec.ns] <;> ring

/-- A slice is the deadline itself, or ends before it. -/
theorem sliceDeadline_cases (clk : ClockId) (d : Deadline) (now : Timespec) :
    sliceDeadline clk (some d) now = d ∨
      sliceDeadline clk (some d) now = ⟨d.clk, addNs now sliceNs⟩ ∧
        (addNs now sliceNs).NotAfter d.ts := by
  simp only [sliceDeadline, posixipcDeadlineMin, ne_eq, not_true_eq_false, if_false]
  split_ifs with hlt
  · exact Or.inr ⟨rfl, hlt.imp_right fun h => ⟨h.1, h.2.le⟩⟩
  · exact Or.inl rfl

/-- The slices of `posixipc_blocking_wait` up to the deadline `d`: each is normalised, ends
`SLICE_NS` after its reading or with the deadline, and is never later than the deadline.
Without a deadline the slice is normalised too. -/
def SlicesEndBy (clk : ClockId) (d : Deadline) : Prop :=
  ∀ now : Timespec, now.Proper →
    (sliceDeadline clk none now).ts.Proper ∧
    (sliceDeadline clk (some d) now).ts.Proper ∧
    (sliceDeadline clk (some d) now).ts.NotAfter d.ts ∧
    (sliceDeadline clk (some d) now).ts.ns = min (now.ns + sliceNs) d.ts.ns

/-- A slice is the earlier of its own end and the deadline. -/
theorem slicesEndBy_of_proper (clk : ClockId) {d : Deadline} (hd : d.ts.Proper) :
    SlicesEndBy clk d := by
  intro now hnow
  have hslice := addNs_proper hnow
  have hns := addNs_ns now sliceNs
  have horder : (addNs now sliceNs).NotAfter d.ts ↔ (addNs now sliceNs).ns ≤ d.ts.ns :=
    Timespec.notAfter_iff hslice hd
  unfold Timespec.NotAfter at horder
  refine ⟨hslice, ?_⟩
  simp only [sliceDeadline, posixipcDeadlineMin, ne_eq, not_true_eq_false, if_false]
  split_ifs with hlt
  · simp only at hlt ⊢
    have hle : (addNs now sliceNs).ns ≤ d.ts.ns := horder.mp (by omega)
    exact ⟨hslice, by unfold Timespec.NotAfter; omega, by omega⟩
  · obtain ⟨hd0, hd1⟩ := hd
    have hle : d.ts.ns ≤ (addNs now sliceNs).ns := by
      by_contra hgt
      have hnot := horder.mpr (by omega)
      -- an equal reading would have the same nanoseconds
      have heq : (addNs now sliceNs).sec = d.ts.sec ∧ (addNs now sliceNs).nsec = d.ts.nsec := by
        omega
      exact hgt (by simp [Timespec.ns, heq.1, heq.2])
    exact ⟨⟨hd0, hd1⟩, .inr ⟨rfl, le_refl _⟩, by omega⟩

/-- Where a deadline lies that was computed from the reading `now`: normalised, not before
the reading, and so close to it that no sum of seconds leaves `time_t`. -/
structure WellPlaced (clk : ClockId) (now : Timespec) (d : Deadline) : Prop where
  clock : d.clk = clk
  proper : d.ts.Proper
  notBefore : now.NotAfter d.ts
  near : d.ts.sec ≤ now.sec + 100000001
  slices : SlicesEndBy clk d

/-- **One deadline.** -/
theorem wellPlaced_addSeconds (rnd : Rounding 53) (clk : ClockId) {now due : Timespec}
    (hnow : now.Proper) {s : ℚ} (h0 : 0 ≤ s) (h : s < 2 ^ 63)
    (hdue : addSeconds rnd now s = some due) : WellPlaced clk now ⟨clk, due⟩ := by
  obtain ⟨due', hadd, hproper, hns⟩ := addSeconds_below rnd hnow h0 h
  obtain rfl : due = due' := Option.some.inj (hdue.symm.trans hadd)
  have hn0 := nanos_nonneg rnd s
  have hn1 := nanos_le rnd s
  have hfloor : 0 ≤ ⌊s⌋ := Int.floor_nonneg.mpr h0
  refine ⟨rfl, hproper, (Timespec.notAfter_iff hnow hproper).mpr (by omega), ?_,
    slicesEndBy_of_proper clk hproper⟩
  obtain ⟨hp0, hp1⟩ := hproper
  obtain ⟨h0, h1⟩ := hnow
  unfold Timespec.ns at hns
  simp only
  omega

/-! ## Two deadlines -/

/-- Two calls with `s` and `t` seconds read the clock at `now`: every conversion is defined,
both deadlines are well placed, and the first is not later than the second. -/
def DeadlineSound (rnd : Rounding 53) (clk : ClockId) (now : Timespec) (s t : ℚ) : Prop :=
  ∃ d e, posixipcDeadlineFromSeconds rnd clk s (some now) = some (.ok d) ∧
    posixipcDeadlineFromSeconds rnd clk t (some now) = some (.ok e) ∧
    WellPlaced clk now d ∧ WellPlaced clk now e ∧ d.ts.NotAfter e.ts

/-- The order of two sums depends on the fractions only once the cap has made the whole
seconds equal. -/
theorem capped_le_iff (rnd : Rounding 53) {s t : ℚ} (hle : s ≤ t) :
    min ⌊s⌋ 100000000 * 1000000000 + nanos rnd s ≤
        min ⌊t⌋ 100000000 * 1000000000 + nanos rnd t ↔
      s < 100000000 ∨ nanos rnd s ≤ nanos rnd t := by
  have hs1 := nanos_le rnd s
  have ht0 := nanos_nonneg rnd t
  have hfloors : ⌊s⌋ ≤ ⌊t⌋ := Int.floor_le_floor hle
  have hcap : ⌊s⌋ < (100000000 : ℤ) ↔ s < ((100000000 : ℤ) : ℚ) := Int.floor_lt
  have hsame : ⌊s⌋ = ⌊t⌋ → nanos rnd s ≤ nanos rnd t := nanos_le_of_floor_eq rnd hle
  constructor
  · intro h
    by_cases hlt : s < 100000000
    · exact .inl hlt
    · have hge : ¬ ⌊s⌋ < 100000000 := fun hf => hlt (by exact_mod_cast hcap.mp hf)
      exact .inr (by omega)
  · rintro (hlt | hn)
    · have hf : ⌊s⌋ < 100000000 := hcap.mpr (by exact_mod_cast hlt)
      rcases eq_or_lt_of_le hfloors with heq | hgt
      · have := hsame heq
        omega
      · omega
    · omega

/-- **The deadline arithmetic.**  Two timeouts read the same clock.  However products are
rounded, the conversions are defined, both deadlines are well placed and they are in order
exactly when the larger timeout is below `2 ^ 63` seconds and, where the smaller one reaches the
cap, its fraction of a second is not the larger one. -/
theorem deadlineSound_iff (rnd : Rounding 53) (clk : ClockId) {now : Timespec}
    (hnow : now.Proper) {s t : ℚ} (hs : 0 ≤ s) (hle : s ≤ t) :
    DeadlineSound rnd clk now s t ↔
      t < 2 ^ 63 ∧ (s < 100000000 ∨ nanos rnd s ≤ nanos rnd t) := by
  have ht : 0 ≤ t := le_trans hs hle
  unfold DeadlineSound
  rw [posixipcDeadlineFromSeconds_some rnd clk now (by exact_mod_cast hs),
    posixipcDeadlineFromSeconds_some rnd clk now (by exact_mod_cast ht)]
  by_cases hlt : t < 2 ^ 63
  · have hlt' : s < 2 ^ 63 := lt_of_le_of_lt hle hlt
    obtain ⟨d, hd, hdp, hdns⟩ := addSeconds_below rnd hnow hs hlt'
    obtain ⟨e, he, hep, hens⟩ := addSeconds_below rnd hnow ht hlt
    have horder : d.NotAfter e ↔ s < 100000000 ∨ nanos rnd s ≤ nanos rnd t := by
      rw [Timespec.notAfter_iff hdp hep, hdns, hens, ← capped_le_iff rnd hle]
      omega
    rw [hd, he]
    constructor
    · rintro ⟨d', e', hd', he', -, -, hde⟩
      obtain rfl : (⟨clk, d⟩ : Deadline) = d' := by simpa using hd'
      obtain rfl : (⟨clk, e⟩ : Deadline) = e' := by simpa using he'
      exact ⟨hlt, horder.mp hde⟩
    · rintro ⟨-, h⟩
      exact ⟨_, _, rfl, rfl, wellPlaced_addSeconds rnd clk hnow hs hlt' hd,
        wellPlaced_addSeconds rnd clk hnow ht hlt he, horder.mpr h⟩
  · rw [addSeconds_beyond rnd now (WithTop.coe_le_coe.mpr (not_lt.mp hlt))]
    constructor
    · rintro ⟨d, e, -, he, -⟩
      simp at he
    · rintro ⟨h, -⟩
      exact absurd h hlt

/-- Half a second and two seconds, read shortly before the clock's next second. -/
theorem deadlineSound_iff_half :
    (Timespec.mk 7 999999999).Proper ∧ (0 : ℚ) ≤ 1 / 2 ∧ (1 / 2 : ℚ) ≤ 2 ∧
      (DeadlineSound binary64 .monotonic ⟨7, 999999999⟩ (1 / 2) 2 ↔
        (2 : ℚ) < 2 ^ 63 ∧
          ((1 / 2 : ℚ) < 100000000 ∨ nanos binary64 (1 / 2) ≤ nanos binary64 2)) :=
  ⟨by decide, by norm_num, by norm_num,
    deadlineSound_iff binary64 .monotonic (by decide) (by norm_num) (by norm_num)⟩

/-- A timeout of `2 ^ 63` seconds has no deadline; and a timeout half a second beyond the cap
ends half a second later than a timeout one second beyond it. -/
theorem deadline_out_of_order :
    posixipcDeadlineFromSeconds binary64 .monotonic ((2 ^ 63 : ℚ) : WithTop ℚ)
        (some ⟨5, 0⟩) = none ∧
      ¬ DeadlineSound binary64 .monotonic ⟨5, 0⟩ 1 (2 ^ 63) ∧
      posixipcDeadlineFromSeconds binary64 .monotonic ((200000001 / 2 : ℚ) : WithTop ℚ)
        (some ⟨5, 0⟩) = some (.ok ⟨.monotonic, ⟨100000005, 500000000⟩⟩) ∧
      posixipcDeadlineFromSeconds binary64 .monotonic ((100000001 : ℚ) : WithTop ℚ)
        (some ⟨5, 0⟩) = some (.ok ⟨.monotonic, ⟨100000005, 0⟩⟩) ∧
      ¬ DeadlineSound binary64 .monotonic ⟨5, 0⟩ (200000001 / 2) 100000001 := by
  have huge : posixipcDeadlineFromSeconds binary64 .monotonic ((2 ^ 63 : ℚ) : WithTop ℚ)
      (some ⟨5, 0⟩) = none := by
    decide +kernel
  have half : posixipcDeadlineFromSeconds binary64 .monotonic ((200000001 / 2 : ℚ) : WithTop ℚ)
      (some ⟨5, 0⟩) = some (.ok ⟨.monotonic, ⟨100000005, 500000000⟩⟩) := by
    decide +kernel
  have whole : posixipcDeadlineFromSeconds binary64 .monotonic ((100000001 : ℚ) : WithTop ℚ)
      (some ⟨5, 0⟩) = some (.ok ⟨.monotonic, ⟨100000005, 0⟩⟩) := by
    decide +kernel
  refine ⟨huge, ?_, half, whole, ?_⟩
  · rintro ⟨d, e, -, he, -⟩
    rw [huge] at he
    cases he
  · rintro ⟨d, e, hd, he, -, -, hde⟩
    obtain rfl : (⟨.monotonic, ⟨100000005, 500000000⟩⟩ : Deadline) = d := by
      simpa only [half, Option.some.injEq, Except.ok.injEq] using hd
    obtain rfl : (⟨.monotonic, ⟨100000005, 0⟩⟩ : Deadline) = e := by
      simpa only [whole, Option.some.injEq, Except.ok.injEq] using he
    revert hde
    decide

end PosixIpc
