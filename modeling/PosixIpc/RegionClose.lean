/-
# What a region is unmapped under

The results about runs of the operations on regions and handles, each under a condition on the
operations that close or bind handles:

* `unmap_unreferenced` : nothing points into a mapping when it is unmapped;
* `pins_balanced` : a region that nothing points into has no pins, and can be closed;
* `close_spares_calls` : no mapping is unmapped under a blocking call.

Without the condition each of them fails: a `SharedBytes` handle may be closed while a buffer of
it is unreleased, a bound handle may be bound again, and a handle may be closed under a call.
-/
import PosixIpc.RegionRuns

namespace PosixIpc

open Ledger

variable {w : World} {r h : ℕ} {op : Op}

/-! ## Conditions -/

/-- The handle that the user closes. -/
def Op.closes : Op → List ℕ
  | .close h => [h]
  | _ => []

/-- The capsule that the user destroys. -/
def Op.destroys : Op → List ℕ
  | .dropCapsule i => [i]
  | _ => []

/-- The operations of a run without a condition. -/
abbrev World.anyOp : World → Op → Prop := fun _ _ => True

section Conditions

variable (w : World)

/-- The handles of the layout `l`. -/
def World.layoutHandles (l : ℕ) : List ℕ := ((w.layouts[l]?).map Layout.handles).getD []

/-- The bindings that an operation tries. -/
def World.binds : Op → List (ℕ × World.BindFault)
  | .openLayout l faults => attempts (w.layoutHandles l) faults
  | _ => []

instance (h : ℕ) : Decidable (w.NotExported h) :=
  inferInstanceAs (Decidable (∀ v ∈ w.views, v.released = false → v.exporter ≠ .bytes h))

instance (h : ℕ) : Decidable (w.NotInUse h) :=
  decidable_of_iff (∀ c ∈ w.calls, c.active → c.self ≠ h ∧ ∀ m ∈ c.mutex, m.1 ≠ h) (by
    simp [World.NotInUse])

/-- There are fewer than `2 ^ 32` pins on every region. -/
def World.Fits : Prop := ∀ r < w.nregions, (w.regions r).pins < 2 ^ 32

instance : Decidable w.Fits :=
  inferInstanceAs (Decidable (∀ r < w.nregions, (w.regions r).pins < 2 ^ 32))

/-- The handle `h` has no region and is open. -/
def World.Fresh (h : ℕ) : Prop := ∀ hd ∈ w.handles[h]?, hd.region = none ∧ hd.closed = false

instance (h : ℕ) : Decidable (w.Fresh h) :=
  inferInstanceAs (Decidable (∀ hd ∈ w.handles[h]?, hd.region = none ∧ hd.closed = false))

/-- The handle `h` is not a queue that is open and bound. -/
def World.NoOpenQueue (h : ℕ) : Prop :=
  ∀ hd ∈ w.handles[h]?, hd.kind = .queue → hd.closed = true ∨ hd.bound = false

instance (h : ℕ) : Decidable (w.NoOpenQueue h) :=
  inferInstanceAs (Decidable
    (∀ hd ∈ w.handles[h]?, hd.kind = .queue → hd.closed = true ∨ hd.bound = false))

/-- No `SharedBytes` handle is closed or bound again while a buffer of it is unreleased. -/
def World.KeepsExporters (op : Op) : Prop :=
  (∀ h ∈ op.closes, w.NotExported h) ∧ ∀ a ∈ w.binds op, a.2 = .none → w.NotExported a.1

instance (op : Op) : Decidable (w.KeepsExporters op) :=
  inferInstanceAs (Decidable (_ ∧ _))

/-- No `SharedBytes` handle is closed while a buffer of it is unreleased, a handle is bound only
once and before it is closed, and the `retain`s of a capsule are undone when it is destroyed. -/
def World.KeepsPins (op : Op) : Prop :=
  (∀ h ∈ op.closes, w.NotExported h) ∧ (∀ a ∈ w.binds op, a.2 = .none → w.Fresh a.1) ∧
    ∀ i ∈ op.destroys, ∀ c ∈ w.capsules[i]?, c.retains = 0

instance (op : Op) : Decidable (w.KeepsPins op) :=
  inferInstanceAs (Decidable (_ ∧ _ ∧ _))

/-- No binding of an open queue fails after it has stored its pointers. -/
def World.BindsWhole (op : Op) : Prop := ∀ a ∈ w.binds op, a.2 = .late → w.NoOpenQueue a.1

instance (op : Op) : Decidable (w.BindsWhole op) :=
  inferInstanceAs (Decidable (∀ a ∈ w.binds op, a.2 = .late → w.NoOpenQueue a.1))

/-- No handle is closed or bound again under a call in flight, no `SharedBytes` handle is bound
again while a buffer of it is unreleased, and no binding of an open queue fails half-way. -/
def World.KeepsCalls (op : Op) : Prop :=
  (∀ h ∈ op.closes, w.NotInUse h) ∧
    (∀ a ∈ w.binds op, a.2 = .none → w.NotExported a.1 ∧ w.NotInUse a.1) ∧ w.BindsWhole op

instance (op : Op) : Decidable (w.KeepsCalls op) :=
  inferInstanceAs (Decidable (_ ∧ _ ∧ _))

end Conditions

/-- The handles of a layout that exists. -/
theorem layoutHandles_of_get {l : ℕ} {x : Layout} (hx : w.layouts[l]? = some x) :
    w.layoutHandles l = x.handles := by
  simp [World.layoutHandles, hx]

/-- The conditions on one operation, from those on what it closes, binds and destroys. -/
theorem Mode.ok_of {M : Mode} (hfits : M.fits → w.Fits)
    (hclose : ∀ h ∈ op.closes, (M.views → w.NotExported h) ∧ (M.calls → w.NotInUse h))
    (hbind : ∀ a ∈ w.binds op, Bindable M w a.1 a.2)
    (hdrop : M.exact → ∀ i ∈ op.destroys, ∀ c ∈ w.capsules[i]?, c.retains = 0) : M.Ok w op := by
  refine ⟨hfits, ?_⟩
  cases op with
  | close h => exact hclose h (List.mem_singleton_self h)
  | openLayout l faults =>
      intro x hx a ha
      rw [← layoutHandles_of_get hx] at ha
      exact hbind a ha
  | dropCapsule i => exact fun he c hc => hdrop he i (List.mem_singleton_self i) c hc
  | _ => trivial

/-! ## Mappings outlive what points into them -/

/-- The mode in which the mappings matter, with or without raw pointers. -/
def Mode.mappings (pointers : Prop) : Mode :=
  ⟨False, True, True, False, pointers, fun _ => trivial, fun hM => hM.elim⟩

/-- Steps that meet the condition are the ones the account allows. -/
theorem Mode.ok_mappings {pointers : Prop} (hfits : w.Fits) (hok : w.KeepsExporters op)
    (hwhole : pointers → w.BindsWhole op) : (Mode.mappings pointers).Ok w op := by
  refine Mode.ok_of (fun _ => hfits) ?_ ?_ fun he => he.elim
  · exact fun h hh => ⟨fun _ => hok.1 h hh, fun hM => hM.elim⟩
  · intro a ha
    refine ⟨hok.2 a ha, fun hM => hM.elim, fun he => he.elim, ?_⟩
    exact fun hM hl hd hget => hwhole hM a ha hl hd hget

/-- **A mapping outlives what points into it**, in every run in which no `SharedBytes` handle is
closed or bound again while a buffer of it is unreleased; and it outlives the raw pointers of
the open handles too, if no binding of an open queue fails half-way. -/
theorem unmap_unreferenced (h : World.Run (fun w op => w.Fits ∧ w.KeepsExporters op) w) :
    (∀ e ∈ w.log, e.handles = false ∧ e.views = false ∧ e.capsules = false) ∧
    (World.Run (fun w op => w.Fits ∧ w.KeepsExporters op ∧ w.BindsWhole op) w →
      ∀ e ∈ w.log, e.pointers = false) := by
  constructor
  · have hb : Books (Mode.mappings False) w :=
      books_of_run (fun _ _ _ hok => Mode.ok_mappings hok.1 hok.2 fun hf => hf.elim) h
    intro e he
    obtain ⟨hhandles, hviews, hcaps, -⟩ := hb.log trivial e he
    exact ⟨hhandles, hviews trivial, hcaps⟩
  · intro hwhole e he
    have hb : Books (Mode.mappings True) w :=
      books_of_run (fun _ _ _ hok => Mode.ok_mappings hok.1 hok.2.1 fun _ => hok.2.2) hwhole
    obtain ⟨-, -, -, -, hpointers⟩ := hb.log trivial e he
    exact hpointers trivial

/-- The world at the end of operations that meet a condition. -/
abbrev World.after (Ok : World → Op → Prop) [∀ w op, Decidable (Ok w op)] (ops : List Op) : World :=
  (StepSystem.runIf World.step Ok World.empty ops).getD World.empty

/-- A layout with a mutex and a byte range is bound, used, closed and unmapped. -/
def tidyOps : List Op :=
  [.newLayout, .add 0 .mutex none, .add 0 .bytes none, .openLayout 0 [], .asCapsule 0,
    .memoryview 1, .retain 0, .releaseCapsule 0, .dropCapsule 0, .release 0, .close 0, .close 1,
    .closeRegion 0 false]

theorem unmap_unreferenced_tidy :
    (World.after (fun w op => w.Fits ∧ w.KeepsExporters op) tidyOps).log =
      [⟨0, false, false, false, false, false⟩] ∧
    ((∀ e ∈ (World.after (fun w op => w.Fits ∧ w.KeepsExporters op) tidyOps).log,
      e.handles = false ∧ e.views = false ∧ e.capsules = false) ∧
    (World.Run (fun w op => w.Fits ∧ w.KeepsExporters op ∧ w.BindsWhole op)
        (World.after (fun w op => w.Fits ∧ w.KeepsExporters op) tidyOps) →
      ∀ e ∈ (World.after (fun w op => w.Fits ∧ w.KeepsExporters op) tidyOps).log,
        e.pointers = false)) :=
  ⟨by decide +kernel, unmap_unreferenced (StepSystem.Run.of_isSome (by decide +kernel))⟩

/-- A bound queue is bound again and the binding fails half-way: the new mapping goes under its raw
pointers. -/
example : (World.after World.anyOp
    [.newLayout, .add 0 .queue none, .openLayout 0 [], .openLayout 0 [.late]]).log =
      [⟨1, false, false, false, false, true⟩] := by
  decide +kernel

/-- A `SharedBytes` handle is closed while a buffer of it is unreleased, and then the region is
dropped: its mapping goes under the buffer. -/
def danglingOps : List Op :=
  [.newLayout, .add 0 .bytes none, .openLayout 0 [], .memoryview 0, .close 0, .dropRegion 0]

theorem unmap_under_buffer : ¬ ∀ w, World.Run World.anyOp w →
    ∀ e ∈ w.log, e.handles = false ∧ e.views = false ∧ e.capsules = false := by
  intro hall
  have hsome : (StepSystem.runIf World.step World.anyOp World.empty danglingOps).isSome := by
    decide +kernel
  have hrun : World.Run World.anyOp _ := StepSystem.Run.of_isSome hsome
  have hlog := hall _ hrun ⟨0, false, true, false, false, false⟩ (by decide +kernel)
  exact absurd hlog.2.1 (by decide)

/-! ## Pins are balanced -/

/-- No open handle is bound to `r`, no buffer into `r` is unreleased and no capsule on `r` is
alive. -/
def World.Idle (w : World) (r : ℕ) : Prop :=
  w.handles.any (Handle.holds r) = false ∧ w.views.any (PyBuffer.holds r) = false ∧
    w.capsules.any (Capsule.holds r) = false

instance (w : World) (r : ℕ) : Decidable (w.Idle r) := inferInstanceAs (Decidable (_ ∧ _ ∧ _))

/-- The mode in which every pin matters. -/
def Mode.balance : Mode :=
  ⟨True, False, True, False, False, fun _ => trivial, fun hM => hM.elim⟩

/-- A fresh handle exports nothing. -/
theorem Books.notExported_of_fresh {M : Mode} (hb : Books M w) (hM : M.views) (hf : w.Fresh h) :
    w.NotExported h := by
  intro v hv hrel hx
  obtain ⟨hd, hget, hreg | ⟨-, hno⟩⟩ := hb.exported v hv hrel h hx
  · have hnone := (hf hd hget).1
    rw [hnone] at hreg
    cases hreg
  · exact hno hM

/-- Steps that keep pins are the ones the account allows. -/
theorem Mode.ok_balance (hb : Books Mode.balance w) (hok : w.KeepsPins op) :
    Mode.balance.Ok w op := by
  obtain ⟨hclose, hbind, hdrop⟩ := hok
  refine Mode.ok_of (fun hf => hf.elim) ?_ ?_ fun _ => hdrop
  · exact fun h hh => ⟨fun _ => hclose h hh, fun hM => hM.elim⟩
  · intro a ha
    refine ⟨fun hf => hb.notExported_of_fresh trivial (hbind a ha hf), fun hM => hM.elim, ?_,
      fun hM => hM.elim⟩
    exact fun _ hf hd hget => hbind a ha hf hd hget

/-- Nothing is held in a region that nothing points into. -/
theorem Books.held_of_idle {M : Mode} (hb : Books M w) (he : M.exact) (hidle : w.Idle r) :
    w.held r = 0 := by
  obtain ⟨hhandles, hviews, hcaps⟩ := hidle
  rw [List.any_eq_false] at hhandles hviews hcaps
  have h1 : total (Handle.regionRefs r) w.handles = 0 := by
    refine total_eq_zero fun hd hmem => ?_
    unfold Handle.regionRefs
    rw [if_neg]
    intro hreg
    -- a handle that is closed has let its region go
    cases hc : hd.closed with
    | true =>
        rw [hb.shut he hd hmem hc] at hreg
        cases hreg
    | false => exact hhandles hd hmem (by simp [Handle.holds, hc, hreg])
  have h2 : total (PyBuffer.share r) w.views = 0 := by
    refine total_eq_zero fun v hmem => ?_
    exact if_neg (hviews v hmem)
  have h3 : total (Capsule.share r) w.capsules = 0 := by
    refine total_eq_zero fun c hmem => ?_
    exact if_neg (hcaps c hmem)
  unfold World.held
  rw [h1, h2, h3]

/-- **Pins are balanced** in every run in which no `SharedBytes` handle is closed while a buffer of
it is unreleased and every handle is bound only once, before it is closed. -/
theorem pins_balanced (h : World.Run World.KeepsPins w) (r : ℕ) :
    0 ≤ (w.regions r).pins ∧
      (w.Idle r → (w.regions r).pins = 0 ∧ (w.posixipcShmobjClose r false false).2 = .ok) := by
  have hb : Books Mode.balance w := books_of_run (fun _ _ => Mode.ok_balance) h
  have hpins := hb.acc.pins_eq trivial r
  refine ⟨by omega, fun hidle => ?_⟩
  have hzero : (w.regions r).pins = 0 := by
    rw [hpins, hb.held_of_idle trivial hidle]
    rfl
  refine ⟨hzero, ?_⟩
  unfold World.posixipcShmobjClose
  by_cases hclosed : (w.regions r).isClosed = true
  · rw [if_pos hclosed]
  · have hnot : ¬ (false = false ∧ (w.regions r).pins % 2 ^ 32 ≠ 0) := by simp [hzero]
    rw [if_neg hclosed, if_neg hnot, if_neg Bool.false_ne_true]

theorem pins_balanced_tidy :
    ((World.after World.KeepsPins (tidyOps.take 12)).Idle 0 ∧
      ((World.after World.KeepsPins (tidyOps.take 12)).regions 0).isClosed = false) ∧
    (0 ≤ ((World.after World.KeepsPins (tidyOps.take 12)).regions 0).pins ∧
      ((World.after World.KeepsPins (tidyOps.take 12)).Idle 0 →
        ((World.after World.KeepsPins (tidyOps.take 12)).regions 0).pins = 0 ∧
        ((World.after World.KeepsPins (tidyOps.take 12)).posixipcShmobjClose 0 false false).2 =
          .ok)) :=
  ⟨by decide +kernel, pins_balanced (StepSystem.Run.of_isSome (by decide +kernel)) 0⟩

/-- A layout is bound twice, and then its only handle is closed: the pin on the first region is
never dropped. -/
def rebindOps : List Op :=
  [.newLayout, .add 0 .mutex none, .openLayout 0 [], .openLayout 0 [], .close 0]

theorem pin_leaked : ¬ ∀ w, World.Run World.anyOp w → ∀ r, 0 ≤ (w.regions r).pins ∧
    (w.Idle r → (w.regions r).pins = 0 ∧ (w.posixipcShmobjClose r false false).2 = .ok) := by
  intro hall
  have hrun : World.Run World.anyOp (World.after World.anyOp rebindOps) :=
    StepSystem.Run.of_isSome (by decide +kernel)
  have hclose := ((hall _ hrun 0).2 (by decide +kernel)).2
  exact absurd hclose (by decide +kernel)

/-! ## Calls in flight -/

/-- The mode in which the calls matter. -/
def Mode.inFlight : Mode :=
  ⟨False, True, False, True, True, fun he => he.elim, fun _ => trivial⟩

/-- Steps that keep calls are the ones the account allows. -/
theorem Mode.ok_inFlight (hfits : w.Fits) (hok : w.KeepsCalls op) : Mode.inFlight.Ok w op := by
  obtain ⟨hclose, hbind, hlate⟩ := hok
  refine Mode.ok_of (fun _ => hfits) ?_ ?_ fun he => he.elim
  · exact fun h hh => ⟨fun hM => hM.elim, fun _ => hclose h hh⟩
  · intro a ha
    refine ⟨fun hf => (hbind a ha hf).1, fun _ hf => (hbind a ha hf).2, fun he => he.elim, ?_⟩
    exact fun _ hl hd hget => hlate a ha hl hd hget

/-- A region that a handle refers to is pinned and mapped. -/
theorem Books.pinned_of_boundTo {M : Mode} (hb : Books M w) (hM : M.fits) (hbound : w.BoundTo h r) :
    (w.regions r).isClosed = false ∧ 0 < (w.regions r).pins := by
  obtain ⟨hd, hget, hreg⟩ := hbound
  have hle : hd.regionRefs r ≤ w.bindings r := le_total (w := Handle.regionRefs r) hget
  have hheld : w.bindings r ≤ w.held r := by
    unfold World.held World.bindings
    omega
  have hge := hb.acc.pins_ge r
  rw [Handle.regionRefs_some hreg, if_pos rfl] at hle
  exact ⟨hb.acc.live hM r (by omega), by omega⟩

/-- A region that is open, and pinned fewer than `2 ^ 32` times, is not closed. -/
theorem close_pinned (hopen : (w.regions r).isClosed = false) (hpos : 0 < (w.regions r).pins)
    (hfits : (w.regions r).pins < 2 ^ 32) (fails : Bool) :
    w.posixipcShmobjClose r false fails = (w, .bufferError) := by
  have hmod : (w.regions r).pins % 2 ^ 32 ≠ 0 := by omega
  unfold World.posixipcShmobjClose
  rw [hopen, if_neg Bool.false_ne_true, if_pos ⟨rfl, hmod⟩]

/-- **No mapping is unmapped under a call in flight**, in every run in which no handle is closed or
bound again under a call, no `SharedBytes` handle is bound again while a buffer of it is unreleased
and no binding of an open queue fails half-way: a call on a handle that was closed does not start,
and `SharedMemory.close` on a region that a call uses fails. -/
theorem close_spares_calls (h : World.Run (fun w op => w.Fits ∧ w.KeepsCalls op) w) :
    (∀ e ∈ w.log, e.calls = false) ∧
    (∀ c ∈ w.calls, ∀ r, c.holds r = true → (w.regions r).isClosed = false ∧
      ((w.regions r).pins < 2 ^ 32 →
        ∀ fails, w.posixipcShmobjClose r false fails = (w, .bufferError))) ∧
    ∀ h hd, w.handles[h]? = some hd → hd.closed = true → w.callOf h = none := by
  have hb : Books Mode.inFlight w := books_of_run (fun _ _ _ hok => Mode.ok_inFlight hok.1 hok.2) h
  refine ⟨fun e he => (hb.log trivial e he).2.2.2.1 trivial, ?_, ?_⟩
  · intro c hc r hholds
    obtain ⟨hactive, hptr⟩ : c.active = true ∧ (c.region = r ∨ ∃ m, c.mutex = some (m, r)) := by
      simpa [InFlight.holds, Option.any_eq_true] using hholds
    obtain ⟨hself, hmutex⟩ := hb.backed trivial c hc hactive
    have hbound : ∃ k, w.BoundTo k r := by
      rcases hptr with hptr | ⟨m, hm⟩
      · exact ⟨c.self, hptr ▸ hself⟩
      · exact ⟨m, (hmutex m r hm).1⟩
    obtain ⟨k, hk⟩ := hbound
    obtain ⟨hopen, hpos⟩ := hb.pinned_of_boundTo trivial hk
    exact ⟨hopen, fun hfits => close_pinned hopen hpos hfits⟩
  · intro k hd hget hclosed
    simp [World.callOf, hget, World.checkOpen, hclosed]

/-- A call is in flight while the region is closed in vain. -/
def busyOps : List Op :=
  [.newLayout, .add 0 .mutex none, .openLayout 0 [], .startCall 0, .closeRegion 0 false]

theorem close_spares_calls_busy :
    (World.after (fun w op => w.Fits ∧ w.KeepsCalls op) busyOps).calls = [⟨0, 0, none, true⟩] ∧
    ((∀ e ∈ (World.after (fun w op => w.Fits ∧ w.KeepsCalls op) busyOps).log, e.calls = false) ∧
    (∀ c ∈ (World.after (fun w op => w.Fits ∧ w.KeepsCalls op) busyOps).calls, ∀ r,
      c.holds r = true →
        ((World.after (fun w op => w.Fits ∧ w.KeepsCalls op) busyOps).regions r).isClosed = false ∧
        (((World.after (fun w op => w.Fits ∧ w.KeepsCalls op) busyOps).regions r).pins < 2 ^ 32 →
        ∀ fails, (World.after (fun w op => w.Fits ∧ w.KeepsCalls op) busyOps).posixipcShmobjClose r
          false fails =
            (World.after (fun w op => w.Fits ∧ w.KeepsCalls op) busyOps, .bufferError))) ∧
    ∀ h hd, (World.after (fun w op => w.Fits ∧ w.KeepsCalls op) busyOps).handles[h]? = some hd →
      hd.closed = true →
        (World.after (fun w op => w.Fits ∧ w.KeepsCalls op) busyOps).callOf h = none) :=
  ⟨by decide +kernel, close_spares_calls (StepSystem.Run.of_isSome (by decide +kernel))⟩

/-- A mutex is closed by another thread while a thread waits for it, and then its region. -/
def closeBusyOps : List Op :=
  [.newLayout, .add 0 .mutex none, .openLayout 0 [], .startCall 0, .close 0, .closeRegion 0 false]

theorem unmap_under_call : ¬ ∀ w, World.Run World.anyOp w → ∀ e ∈ w.log, e.calls = false := by
  intro hall
  have hrun : World.Run World.anyOp (World.after World.anyOp closeBusyOps) :=
    StepSystem.Run.of_isSome (by decide +kernel)
  have hlog := hall _ hrun ⟨0, false, false, false, true, false⟩ (by decide +kernel)
  exact absurd hlog (by decide)

end PosixIpc
