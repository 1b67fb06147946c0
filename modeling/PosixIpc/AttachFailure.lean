/-
# A layout that cannot be attached

`layout_bind_all` binds handle after handle and takes nothing back.  When a later handle cannot
be bound, the earlier ones stay bound to the region that the caller never gets, and a queue has
stored pointers before its last test.

* `Unchanged` : every handle has the binding that it had, no pin was taken, and the layout is
  sealed as before;
* `FailsAtOnce` : the bind of a handle raises before it writes;
* `failed_open_unchanged_iff` : exactly the calls that raise before the binding, or at once on
  the first handle, leave everything unchanged;
* `attach_leaves_bound` : a mutex that stays bound because the control words of a queue differ.
-/
import PosixIpc.LayoutBind

namespace PosixIpc

open TracedCall Word32

/-! ## What a failed call may change -/

/-- Two states of a handle with the same binding. -/
structure HandleObj.SameBinding (o o' : HandleObj) : Prop where
  bound : o'.bound = o.bound
  region : o'.region = o.region
  ptrs : o'.ptrs = o.ptrs
  view : o'.view = o.view

theorem HandleObj.SameBinding.refl (o : HandleObj) : o.SameBinding o := ⟨rfl, rfl, rfl, rfl⟩

/-- The call has bound nothing and pinned nothing. -/
structure LayoutInst.Unchanged (l : LayoutInst) (x : OpenEnd) : Prop where
  objs : List.Forall₂ HandleObj.SameBinding l.objs x.inst.objs
  pins : x.pins = 0
  sealed : x.inst.sealed = l.sealed

/-- No pointer of the layout leads into region `r`. -/
def LayoutInst.Fresh (l : LayoutInst) (r : ℕ) : Prop :=
  ∀ o ∈ l.objs, ∀ i ptr, o.ptrs i = some ptr → ptr.region ≠ r

/-- The bind of the handle raises before it writes. -/
def LayoutHandle.FailsAtOnce (m : SegMem) (faults : BindFaults) (slots : List Slot)
    (h : LayoutHandle) : Prop :=
  let recs := fun i => slots.getD i default
  match h.type with
  | .mutexArray count =>
    count = 0 ∨ faults.calloc = true ∨ ¬ ArrayFits m recs h.record.kind h.slot 0 count ∨
      faults.pin = true
  | .queue _ _ =>
    ¬ KindsAt recs h.slot 0 (queueFront ++ [kindBytes]) ∨ ¬ (recs (u32 h.slot)).Fits m
  | .futexQueue _ _ =>
    ¬ KindsAt recs h.slot 0 (futexQueueFront ++ [kindBytes]) ∨ ¬ (recs (u32 h.slot)).Fits m
  | _ => ¬ (recs h.slot).Fits m ∨ faults.pin = true

/-! ## One handle -/

section Handle

open Call

variable {p : Platform} {m : SegMem} {r : ℕ} {faults : BindFaults} {slots : List Slot}
  {st st' : BindState} {e : PyError}

theorem bindObj_failsAtOnce (h : st.obj.handle.FailsAtOnce m faults slots) :
    ∃ e, Raises (bindObj p m r faults (ownRecord slots)) st st e := by
  have hsrc := source_ownRecord slots
  unfold LayoutHandle.FailsAtOnce at h
  unfold bindObj
  simp only [(look_returns _).bind_raises_iff]
  cases htype : st.obj.handle.type with
  | mutexArray count =>
      rw [htype] at h
      exact mutexarrayBind_raises hsrc (by tauto)
  | queue depth itemSize =>
      rw [htype] at h
      exact ringBind_raises_early hsrc (by decide) h
  | futexQueue depth itemSize =>
      rw [htype] at h
      exact ringBind_raises_early hsrc (by decide) h
  | _ =>
      rw [htype] at h
      exact bindSlot_raises hsrc h

/-- A handle that fails later is a queue, which then has its first pointer already. -/
theorem bindObj_failsLate (h : ¬ st.obj.handle.FailsAtOnce m faults slots)
    (hr : Raises (bindObj p m r faults (ownRecord slots)) st st' e) :
    ∃ ptr, st'.obj.ptrs 0 = some ptr ∧ ptr.region = r := by
  have hsrc := source_ownRecord slots
  unfold LayoutHandle.FailsAtOnce at h
  unfold bindObj at hr
  rw [(look_returns _).bind_raises_iff] at hr
  cases htype : st.obj.handle.type with
  | mutexArray count =>
      rw [htype] at h hr
      simp only [not_or, not_not, Bool.not_eq_true] at h
      obtain ⟨hcount, hcalloc, hfit, hpin⟩ := h
      exact ((mutexarrayBind_returns hsrc htype hcount hfit hcalloc hpin).not_raises hr).elim
  | queue depth itemSize =>
      rw [htype] at h hr
      simp only [not_or, not_not] at h
      refine ⟨_, ringBind_raises_late hsrc (by decide) h.1 h.2 ?_ hr, rfl⟩
      exact fun x => (keeps_slots hsrc _ _).bind fun s => keeps_setObj fun st hst => hst
  | futexQueue depth itemSize =>
      rw [htype] at h hr
      simp only [not_or, not_not] at h
      refine ⟨_, ringBind_raises_late hsrc (by decide) h.1 h.2 ?_ hr, rfl⟩
      exact fun x => keeps_pure _ _
  | _ =>
      rw [htype] at h hr
      simp only [not_or, not_not, Bool.not_eq_true] at h
      exact ((bindSlot_returns hsrc h.1 h.2).not_raises hr).elim

/-- A bound handle has pinned the region. -/
theorem bindObj_pins (h : Returns (bindObj p m r faults (ownRecord slots)) st st' ()) :
    st.pins + 1 ≤ st'.pins := by
  have hsrc := source_ownRecord slots
  by_cases hfail : st.obj.handle.FailsAtOnce m faults slots
  · have hearly : ∃ e, Raises (bindObj p m r faults (ownRecord slots)) st st e :=
      bindObj_failsAtOnce hfail
    obtain ⟨e, he⟩ := hearly
    exact (h.not_raises he).elim
  · unfold LayoutHandle.FailsAtOnce at hfail
    unfold bindObj at h
    rw [(look_returns _).bind_iff] at h
    cases htype : st.obj.handle.type with
    | mutexArray count =>
        rw [htype] at hfail h
        simp only [not_or, not_not, Bool.not_eq_true] at hfail
        obtain ⟨hcount, hcalloc, hfit, hpin⟩ := hfail
        obtain ⟨rfl, -⟩ :=
          (mutexarrayBind_returns hsrc htype hcount hfit hcalloc hpin).unique h
        exact le_refl _
    | queue depth itemSize =>
        rw [htype] at h
        exact ringBind_returns_pins hsrc (fun k => (keeps_slots hsrc _ _).bind fun s =>
          keeps_setObj fun st hst => hst) h
    | futexQueue depth itemSize =>
        rw [htype] at h
        exact ringBind_returns_pins hsrc (fun k => keeps_pure _ _) h
    | _ =>
        rw [htype] at hfail h
        simp only [not_or, not_not, Bool.not_eq_true] at hfail
        obtain ⟨rfl, -⟩ := (bindSlot_returns hsrc hfail.1 hfail.2).unique h
        exact le_refl _

/-- No bind takes a pin back. -/
theorem bindObj_pins_le (h : Raises (bindObj p m r faults (ownRecord slots)) st st' e) :
    st.pins ≤ st'.pins := by
  have hsrc := source_ownRecord slots
  by_cases hfail : st.obj.handle.FailsAtOnce m faults slots
  · have hearly : ∃ e, Raises (bindObj p m r faults (ownRecord slots)) st st e :=
      bindObj_failsAtOnce hfail
    obtain ⟨e', he⟩ := hearly
    obtain ⟨rfl, -⟩ := h.unique he
    exact le_rfl
  · unfold LayoutHandle.FailsAtOnce at hfail
    unfold bindObj at h
    rw [(look_returns _).bind_raises_iff] at h
    cases htype : st.obj.handle.type with
    | mutexArray count =>
        rw [htype] at hfail h
        simp only [not_or, not_not, Bool.not_eq_true] at hfail
        obtain ⟨hcount, hcalloc, hfit, hpin⟩ := hfail
        exact ((mutexarrayBind_returns hsrc htype hcount hfit hcalloc hpin).not_raises h).elim
    | queue depth itemSize =>
        rw [htype] at h
        exact (keeps_ringBind_pins hsrc ((keeps_slots hsrc _ _).bind fun s =>
          keeps_setObj fun st hst => hst)).raises (le_refl st.pins) h
    | futexQueue depth itemSize =>
        rw [htype] at h
        exact (keeps_ringBind_pins hsrc (keeps_pure _ _)).raises (le_refl st.pins) h
    | _ =>
        rw [htype] at hfail h
        simp only [not_or, not_not, Bool.not_eq_true] at hfail
        exact ((bindSlot_returns hsrc hfail.1 hfail.2).not_raises h).elim

end Handle

/-! ## All handles -/

section All

open Call

variable {p : Platform} {m : SegMem} {r : ℕ} {faults : ℕ → BindFaults} {slots : List Slot}

theorem layoutBindAll_pins (i : ℕ) (objs : List HandleObj) (pins : ℕ) :
    pins ≤ (layoutBindAll p r faults m slots i objs pins).2.1 := by
  induction objs generalizing i pins with
  | nil => exact le_rfl
  | cons o rest ih =>
      rcases returns_or_raises (bindObj p m r (faults i) (ownRecord slots)) ⟨o, pins⟩ with
        ⟨st', u, h⟩ | ⟨st', e, h⟩
      · have hpins : pins + 1 ≤ st'.pins := bindObj_pins h
        rw [layoutBindAll_returns h]
        exact le_trans (by omega) (ih (i + 1) st'.pins)
      · rw [layoutBindAll_raises h]
        exact bindObj_pins_le h

/-- A failed binding leaves the handles and the pins as they were exactly when the first handle
fails at once. -/
theorem layoutBindAll_unchanged_iff {objs : List HandleObj} {e : PyError}
    (hfresh : ∀ o ∈ objs, ∀ i ptr, o.ptrs i = some ptr → ptr.region ≠ r)
    (herr : (layoutBindAll p r faults m slots 0 objs 0).2.2 = .error e) :
    (List.Forall₂ HandleObj.SameBinding objs (layoutBindAll p r faults m slots 0 objs 0).1 ∧
        (layoutBindAll p r faults m slots 0 objs 0).2.1 = 0) ↔
      ∃ o ∈ objs.head?, o.handle.FailsAtOnce m (faults 0) slots := by
  cases objs with
  | nil => exact nomatch herr
  | cons o rest =>
      have hhead : (∃ o' ∈ (o :: rest).head?, o'.handle.FailsAtOnce m (faults 0) slots) ↔
          o.handle.FailsAtOnce m (faults 0) slots := by simp
      have hearly : o.handle.FailsAtOnce m (faults 0) slots →
          ∃ e, Raises (bindObj p m r (faults 0) (ownRecord slots)) ⟨o, 0⟩ ⟨o, 0⟩ e :=
        fun hfail => bindObj_failsAtOnce hfail
      rw [hhead]
      rcases returns_or_raises (bindObj p m r (faults 0) (ownRecord slots)) ⟨o, 0⟩ with
        ⟨st', u, h⟩ | ⟨st', e', h⟩
      · refine iff_of_false ?_ fun hfail => ?_
        · -- the first handle is bound, and its pin stays
          rintro ⟨-, hzero⟩
          have hpins : 0 + 1 ≤ st'.pins := bindObj_pins h
          rw [layoutBindAll_returns h] at hzero
          have hle : st'.pins ≤ (layoutBindAll p r faults m slots (0 + 1) rest st'.pins).2.1 :=
            layoutBindAll_pins _ _ _
          simp only at hzero
          omega
        · obtain ⟨e', he⟩ := hearly hfail
          exact h.not_raises he
      · rw [layoutBindAll_raises h]
        by_cases hfail : o.handle.FailsAtOnce m (faults 0) slots
        · obtain ⟨e'', he⟩ := hearly hfail
          obtain ⟨rfl, -⟩ := h.unique he
          refine iff_of_true ⟨?_, rfl⟩ hfail
          exact List.forall₂_same.mpr fun x _ => HandleObj.SameBinding.refl x
        · refine iff_of_false ?_ hfail
          rintro ⟨hsame, -⟩
          have hlate : ∃ ptr, st'.obj.ptrs 0 = some ptr ∧ ptr.region = r :=
            bindObj_failsLate hfail h
          obtain ⟨ptr, hptr, hregion⟩ := hlate
          obtain ⟨hfirst, -⟩ := List.forall₂_cons.mp hsame
          refine hfresh o List.mem_cons_self 0 ptr ?_ hregion
          rw [← hptr, hfirst.ptrs]

end All

/-! ## The call -/

theorem length_syncHandles (slots : List Slot) (hs : List LayoutHandle) :
    (syncHandles slots hs).1.length = hs.length := by
  induction hs with
  | nil => rfl
  | cons h rest ih =>
      rw [syncHandles]
      split_ifs
      · rfl
      · simp [ih]

theorem length_layoutSync (p : Platform) (l : LayoutObj) :
    (layoutSync p l).1.handles.length = l.handles.length := by
  unfold layoutSync
  simp only
  split
  · rfl
  · exact length_syncHandles _ _

/-- `layout_sync` leaves the bindings of the handles. -/
theorem LayoutInst.sync_sameBinding (p : Platform) (l : LayoutInst) :
    List.Forall₂ HandleObj.SameBinding l.objs (l.sync p).1.objs := by
  have hlen : l.objs.length = (layoutSync p l.plain).1.handles.length := by
    rw [length_layoutSync, LayoutInst.plain, List.length_map]
  show List.Forall₂ _ l.objs (List.zipWith _ l.objs (layoutSync p l.plain).1.handles)
  generalize (layoutSync p l.plain).1.handles = hs at hlen
  generalize l.objs = objs at hlen
  induction objs generalizing hs with
  | nil => exact .nil
  | cons o rest ih =>
      cases hs with
      | nil => simp at hlen
      | cons h hs =>
          exact .cons ⟨rfl, rfl, rfl, rfl⟩ (ih hs (by simpa using hlen))

theorem HandleObj.SameBinding.trans {a b c : HandleObj} (h : a.SameBinding b)
    (h' : b.SameBinding c) : a.SameBinding c :=
  ⟨h'.bound.trans h.bound, h'.region.trans h.region, h'.ptrs.trans h.ptrs, h'.view.trans h.view⟩

theorem HandleObj.SameBinding.symm {a b : HandleObj} (h : a.SameBinding b) : b.SameBinding a :=
  ⟨h.bound.symm, h.region.symm, h.ptrs.symm, h.view.symm⟩

/-- The bindings of a list and of the synchronised list are the same. -/
theorem sameBinding_sync_iff {a b c : List HandleObj}
    (h : List.Forall₂ HandleObj.SameBinding a b) :
    List.Forall₂ HandleObj.SameBinding a c ↔ List.Forall₂ HandleObj.SameBinding b c := by
  induction h generalizing c with
  | nil => exact Iff.rfl
  | @cons x y xs ys hxy _ ih =>
      cases c with
      | nil => simp
      | cons z zs =>
          rw [List.forall₂_cons, List.forall₂_cons, ih]
          exact and_congr_left fun _ => ⟨hxy.symm.trans, hxy.trans⟩

theorem LayoutInst.Fresh.sync {l : LayoutInst} {r : ℕ} (h : l.Fresh r) (p : Platform) :
    ∀ o ∈ (l.sync p).1.objs, ∀ i ptr, o.ptrs i = some ptr → ptr.region ≠ r := by
  intro o ho i ptr hptr
  obtain ⟨k, hk, rfl⟩ := List.mem_iff_getElem.mp ho
  have hsame := l.sync_sameBinding p
  have hk' : k < l.objs.length := by rw [hsame.length_eq]; exact hk
  have hkth := List.Forall₂.get hsame hk' hk
  refine h (l.objs.get ⟨k, hk'⟩) (List.get_mem _ _) i ptr ?_
  rw [← hptr, ← hkth.ptrs]
  rfl

/-- **When a failed call leaves everything unchanged.**  `Layout.create`, `attach` and
`open_or_create` differ in the segment part.  A call of theirs that raises leaves the bindings,
the pins and the seal if and only if it raises before the binding, or the bind of the first
handle raises before it writes. -/
theorem failed_open_unchanged_iff (p : Platform) (r : ℕ) (faults : ℕ → BindFaults)
    (segment : Expect → Option (Except PyError SegMem)) (l : LayoutInst) {x : OpenEnd}
    {e : PyError} (hfresh : l.Fresh r) (hx : layoutOpen p r faults segment l = some x)
    (herr : x.result = .error e) :
    l.Unchanged x ↔ ∀ m, l.Mapped p segment m →
      ∃ o ∈ (l.sync p).1.objs.head?, o.handle.FailsAtOnce m (faults 0) (l.sync p).1.slots := by
  have hsync := l.sync_sameBinding p
  rcases layoutOpen_cases hx with ⟨e', rfl, hnot⟩ | ⟨m, hm, hbind⟩
  · exact iff_of_true ⟨hsync, rfl, rfl⟩ fun m hm => absurd hm (hnot m)
  · rcases hbind with ⟨objs, pins, e', hall, rfl⟩ | ⟨objs, pins, -, rfl⟩
    · have hiff := layoutBindAll_unchanged_iff (hfresh.sync p) (congrArg (·.2.2) hall)
      rw [hall] at hiff
      simp only [hm, forall_eq]
      rw [← hiff]
      constructor
      · exact fun h => ⟨(sameBinding_sync_iff hsync).mp h.objs, h.pins⟩
      · exact fun h => ⟨(sameBinding_sync_iff hsync).mpr h.1, h.2, rfl⟩
    · exact nomatch herr

/-! ## A mutex and a queue -/

/-- `layout.add(Mutex)` and `layout.add(Queue, depth=1, item_size=1)`. -/
def mutexThenQueue : LayoutObj :=
  ((LayoutObj.empty.apply glibcX86
      (.add ⟨.mutex, .absent, false, true, none, 0, 0, 0, 0⟩) .none).1.apply glibcX86
    (.add ⟨.queue, .absent, false, true, none, 0, 0, 1, 1⟩) .none).1

/-- A published segment of this layout whose queue has another depth in its control words. -/
def otherDepth : SegMem
  | .header .magic => magicWire
  | .header .layoutVersion => 1
  | .header .slotCount => 6
  | .header .abiTag => 25489805
  | .header .totalSize => 704
  | .header .directoryBytes => 96
  | .header .state => stateReady
  | .header .layoutDigest => 1362812053
  | .dir i f => (mutexThenQueue.slots.getD i default).field f
  | .ring 5 .depth => 7
  | .ring 5 .itemSize => 1
  | _ => 0

/-- `attach` on this segment, where the first `pins` handles can be pinned. -/
def attachOther (pins : ℕ) : Option OpenEnd :=
  layoutOpen glibcX86 0 (fun i => ⟨false, decide (pins ≤ i)⟩)
    (attachSegment none none calmEnv 1 queueName ⟨1000, 384, 704⟩ otherDepth)
    (mutexThenQueue.inst glibcX86)

theorem fresh_inst (p : Platform) (l : LayoutObj) (r : ℕ) : (l.inst p).Fresh r := by
  intro o ho i ptr hptr
  obtain ⟨h, -, rfl⟩ := List.mem_map.mp ho
  exact nomatch hptr

/-- Nothing happens when the first handle cannot be pinned. -/
theorem failed_open_unchanged_first :
    ∃ x, attachOther 0 = some x ∧ x.result = .error .closedError ∧
      (mutexThenQueue.inst glibcX86).Unchanged x := by
  obtain ⟨x, hx⟩ : ∃ x, attachOther 0 = some x :=
    Option.isSome_iff_exists.mp (by decide +kernel)
  have hres : (attachOther 0).map OpenEnd.result = some (.error .closedError) := by
    decide +kernel
  rw [hx] at hres
  have herr : x.result = .error .closedError := Option.some.inj hres
  refine ⟨x, hx, herr, ?_⟩
  refine (failed_open_unchanged_iff _ _ _ _ _ (fresh_inst _ _ _) hx herr).mpr fun m _ => ?_
  refine ⟨_, rfl, ?_⟩
  exact Or.inr (by decide)

/-- **`attach` raises and leaves a handle bound**: the control words of the queue do not match,
and the mutex in front of it stays bound to the region and keeps its pin. -/
theorem attach_leaves_bound :
    ∃ x, attachOther 2 = some x ∧
      x.result = .error (.layoutMismatchError "Queue control word does not match layout") ∧
      x.inst.objs.map HandleObj.bound = [true, false] ∧ x.pins = 1 ∧
      ¬ (mutexThenQueue.inst glibcX86).Unchanged x := by
  obtain ⟨x, hx⟩ : ∃ x, attachOther 2 = some x :=
    Option.isSome_iff_exists.mp (by decide +kernel)
  have hres : (attachOther 2).map (fun x => (x.result, x.inst.objs.map HandleObj.bound, x.pins))
      = some (.error (.layoutMismatchError "Queue control word does not match layout"),
        [true, false], 1) := by decide +kernel
  rw [hx] at hres
  obtain ⟨herr, hbound, hpins⟩ : x.result = _ ∧ x.inst.objs.map HandleObj.bound = _ ∧ x.pins = _ :=
    by simpa using hres
  refine ⟨x, hx, herr, hbound, hpins, fun h => ?_⟩
  exact absurd h.pins (by rw [hpins]; decide)

end PosixIpc
