/-
# The directory says which bytes are which kind of queue

Two layouts with one directory use every slot alike (`LayoutInv.queueRing_iff` and its
siblings read the use off the directory).  A `Layout.attach` that succeeds has compared the
directories, so a queue is bound to the ring of a queue of its own kind.
-/
import PosixIpc.LayoutOpen

namespace PosixIpc

open StoreProg

/-! ## Segments of a layout -/

/-- The header and the directory of the segment are those of the layout. -/
def LayoutObj.SegmentOf (p : Platform) (l : LayoutObj) (m : SegMem) : Prop :=
  ∃ e, posixipcLayoutBuild p l.slots = (l.slots, .ok e) ∧ Agrees m e

/-- The records of a directory are its slots. -/
theorem DirAt.unique {m : SegMem} {xs ys : List Slot} (hx : DirAt m 0 xs) (hy : DirAt m 0 ys)
    (hlen : xs.length = ys.length) : xs = ys := by
  have hrec : ∀ {zs : List Slot}, DirAt m 0 zs → ∀ i < zs.length,
      zs[i]? = some (recordAt m i) := by
    intro zs hz i hi
    rw [recordAt_of_dirAt hz hi, List.getD_eq_getElem?_getD, List.getElem?_eq_getElem hi,
      Option.getD_some]
  refine List.ext_getElem? fun i => ?_
  by_cases hi : i < xs.length
  · rw [hrec hx i hi, hrec hy i (hlen ▸ hi)]
  · rw [List.getElem?_eq_none (by omega), List.getElem?_eq_none (by omega)]

/-- **A segment has one directory.** -/
theorem slots_eq_of_agrees {p : Platform} {a b : LayoutObj} {m : SegMem} {e e' : Expect}
    (ha : Added p a) (hb : Added p b) (hae : posixipcLayoutBuild p a.slots = (a.slots, .ok e))
    (hbe : posixipcLayoutBuild p b.slots = (b.slots, .ok e')) (hm : Agrees m e)
    (hm' : Agrees m e') : a.slots = b.slots := by
  obtain ⟨-, hs, hn, -⟩ := ha.expect hae
  obtain ⟨-, hs', hn', -⟩ := hb.expect hbe
  have hdir := hm.dir
  have hdir' := hm'.dir
  rw [hs, Option.getD_some] at hdir
  rw [hs', Option.getD_some] at hdir'
  refine hdir.unique hdir' ?_
  calc a.slots.length = e.slotCount := hn.symm
    _ = m (.header .slotCount) := hm.header.slotCount.symm
    _ = e'.slotCount := hm'.header.slotCount
    _ = b.slots.length := hn'

/-! ## The use of the slots -/

section Roles

variable {p : Platform} {a b : LayoutObj}

/-- A slot has one use. -/
theorem Added.queueRing_only (h : Added p a) {i : ℕ} (hi : a.QueueRing i) :
    ¬ a.FutexRing i ∧ ¬ a.Blob i := by
  rw [h.inv.queueRing_iff] at hi
  rw [h.inv.futexRing_iff, h.inv.blob_iff, hi]
  exact ⟨by simp, by simp⟩

theorem Added.futexRing_only (h : Added p a) {i : ℕ} (hi : a.FutexRing i) :
    ¬ a.QueueRing i ∧ ¬ a.Blob i := by
  rw [h.inv.futexRing_iff] at hi
  rw [h.inv.queueRing_iff, h.inv.blob_iff, hi]
  exact ⟨by simp, by simp⟩

theorem roles_of_slots_eq (ha : Added p a) (hb : Added p b) (hslots : a.slots = b.slots) (i : ℕ) :
    (a.QueueRing i ↔ b.QueueRing i) ∧ (a.FutexRing i ↔ b.FutexRing i) ∧
      (a.Blob i ↔ b.Blob i) := by
  rw [ha.inv.queueRing_iff, hb.inv.queueRing_iff, ha.inv.futexRing_iff, hb.inv.futexRing_iff,
    ha.inv.blob_iff, hb.inv.blob_iff, hslots]
  exact ⟨Iff.rfl, Iff.rfl, Iff.rfl⟩

/-- The handle of a queue stands on a ring that is, in the layout `a`, one of its own kind. -/
structure LayoutHandle.OnOwnKind (a : LayoutObj) (g : LayoutHandle) : Prop where
  queue : ∀ depth itemSize, g.type = .queue depth itemSize →
    a.QueueRing (g.slot + 4) ∧ ¬ a.FutexRing (g.slot + 4) ∧ ¬ a.Blob (g.slot + 4)
  futexQueue : ∀ depth itemSize, g.type = .futexQueue depth itemSize →
    a.FutexRing (g.slot + 2) ∧ ¬ a.QueueRing (g.slot + 2) ∧ ¬ a.Blob (g.slot + 2)

theorem onOwnKind_of_slots_eq (ha : Added p a) (hb : Added p b) (hslots : a.slots = b.slots)
    {g : LayoutHandle} (hg : g ∈ b.handles) : g.OnOwnKind a where
  queue d n ht := by
    have hring : a.QueueRing (g.slot + 4) :=
      (roles_of_slots_eq ha hb hslots _).1.mpr ⟨g, hg, d, n, ht, rfl⟩
    exact ⟨hring, ha.queueRing_only hring⟩
  futexQueue d n ht := by
    have hring : a.FutexRing (g.slot + 2) :=
      (roles_of_slots_eq ha hb hslots _).2.1.mpr ⟨g, hg, d, n, ht, rfl⟩
    exact ⟨hring, ha.futexRing_only hring⟩

/-- **The directory determines which bytes are which kind of queue**: layouts with one directory
use every slot alike; and where `Layout.attach` of the layout `b` succeeds on a segment of the
layout `a`, every handle of `b` is bound to the bytes of its slots in the directory of `a`, and
the ring of a queue is in `a` the ring of a queue of the same kind. -/
theorem directory_determines_roles (ha : Added p a) (hb : Added p b) :
    (a.slots = b.slots → ∀ i, (a.QueueRing i ↔ b.QueueRing i) ∧
      (a.FutexRing i ↔ b.FutexRing i) ∧ (a.Blob i ↔ b.Blob i)) ∧
    ∀ (m : SegMem) (r : ℕ) (faults : ℕ → BindFaults) (timeout region : Option PyError)
      (env : AttachEnv) (turns : ℕ) (name : List UInt8) (st : Stat) (x : OpenEnd),
      a.SegmentOf p m → env.Honest →
      layoutOpen p r faults (attachSegment timeout region env turns name st m) (b.inst p) =
        some x → x.result = .ok () →
      List.Forall₂ (fun g o => g.BoundTo p r a.slots o ∧ g.OnOwnKind a)
        b.handles x.inst.objs := by
  refine ⟨roles_of_slots_eq ha hb, ?_⟩
  intro m r faults timeout region env turns name st x hseg henv hx hok
  obtain ⟨e, hae, hagrees⟩ := hseg
  obtain ⟨e', hbe⟩ := hb.built
  obtain ⟨hagrees', -, hbound⟩ := hb.attach_ok hbe henv hx hok
  have hslots := slots_eq_of_agrees ha hb hae hbe hagrees hagrees'
  rw [hslots]
  rw [List.forall₂_iff_get] at hbound ⊢
  refine ⟨hbound.1, fun i hi hi' => ⟨hbound.2 i hi hi', ?_⟩⟩
  exact onOwnKind_of_slots_eq ha hb hslots (List.get_mem _ _)

end Roles

/-! ## A mutex, or an array of one mutex, and a futex queue -/

/-- `layout.add(FutexQueue, depth=1, item_size=1)`. -/
def addFutexQueue : AddOp := .add ⟨.futexQueue, .absent, false, true, none, 0, 0, 1, 1⟩

/-- The layout after two adds. -/
def addTwo (op op' : AddOp) : LayoutObj :=
  ((LayoutObj.empty.apply glibcX86 op .none).1.apply glibcX86 op' .none).1

theorem added_addTwo {op op' : AddOp}
    (h : (LayoutObj.empty.apply glibcX86 op .none).2 = .ok ())
    (h' : ((LayoutObj.empty.apply glibcX86 op .none).1.apply glibcX86 op' .none).2 = .ok ()) :
    Added glibcX86 (addTwo op op') :=
  (Added.empty.step (Prod.ext rfl h)).step (Prod.ext rfl h')

/-- A robust mutex, and a futex queue. -/
def robustThenFutex : LayoutObj :=
  addTwo (.add ⟨.robustMutex, .callable, false, true, none, 0, 0, 0, 0⟩) addFutexQueue

/-- An array of one robust mutex, and a futex queue. -/
def arrayThenFutex : LayoutObj :=
  addTwo (.addArray .robustMutex 1 .callable false true) addFutexQueue

/-- What both expect. -/
def robustThenFutexExpect : Expect :=
  (posixipcLayoutBuild glibcX86 robustThenFutex.slots).2.toOption.getD oneMutex

/-- The segment that the first creates. -/
def robustThenFutexSegment : SegMem :=
  Function.update (Prog.exec (initSegment 64 robustThenFutexExpect
    (ringSpecs robustThenFutex.handles)) fun _ => 0).2 (.header .state) stateReady

/-- `attach` of the second on the segment of the first. -/
def attachArrayThenFutex : Option OpenEnd :=
  layoutOpen glibcX86 0 (fun _ => noFaults)
    (attachSegment none none calmEnv 1 queueName ⟨1000, 384, robustThenFutexExpect.totalSize⟩
      robustThenFutexSegment) (arrayThenFutex.inst glibcX86)

/-- The array takes the place of the mutex; the futex queue is bound to the ring of the other. -/
theorem directory_determines_roles_array :
    robustThenFutex.slots = arrayThenFutex.slots ∧
      robustThenFutex.handles ≠ arrayThenFutex.handles ∧
      (∀ i, robustThenFutex.FutexRing i ↔ arrayThenFutex.FutexRing i) ∧
      ∃ x, attachArrayThenFutex = some x ∧
        List.Forall₂ (fun g o => g.BoundTo glibcX86 0 robustThenFutex.slots o ∧
          g.OnOwnKind robustThenFutex) arrayThenFutex.handles x.inst.objs := by
  have ha : Added glibcX86 robustThenFutex :=
    added_addTwo (by decide +kernel) (by decide +kernel)
  have hb : Added glibcX86 arrayThenFutex :=
    added_addTwo (by decide +kernel) (by decide +kernel)
  have hslots : robustThenFutex.slots = arrayThenFutex.slots := by decide +kernel
  have hbuild : posixipcLayoutBuild glibcX86 robustThenFutex.slots =
      (robustThenFutex.slots, .ok robustThenFutexExpect) := by decide +kernel
  have hseg : robustThenFutex.SegmentOf glibcX86 robustThenFutexSegment := by
    refine ⟨_, hbuild, ?_⟩
    rcases exec_compareExpect robustThenFutexSegment (ha.builtExpect hbuild).counted.1 with
      ⟨-, h⟩ | ⟨h, -⟩
    · exact h
    · have hok : (Prog.exec (compareExpect (some robustThenFutexExpect))
          robustThenFutexSegment).1 = .ok := by decide +kernel
      rw [h] at hok
      exact nomatch hok
  obtain ⟨x, hx⟩ : ∃ x, attachArrayThenFutex = some x :=
    Option.isSome_iff_exists.mp (by decide +kernel)
  have hres : attachArrayThenFutex.map OpenEnd.result = some (.ok ()) := by decide +kernel
  rw [hx] at hres
  obtain ⟨hroles, hattach⟩ := directory_determines_roles ha hb
  exact ⟨hslots, by decide +kernel, fun i => (hroles hslots i).2.1, x, hx,
    hattach _ _ _ _ _ _ _ _ _ x hseg calmEnv_clean.honest hx (Option.some.inj hres)⟩

end PosixIpc
