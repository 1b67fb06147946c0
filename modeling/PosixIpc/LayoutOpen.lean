/-
# Opening a layout that adds have built

What `Layout.create` and `Layout.attach` do with a layout that successful adds have built, on a
segment with the header and the directory of the layout.

* `Added.sync_eq` : `layout_sync` changes nothing any more;
* `Added.fits` : `posixipc_shm_offset_ptr` hands out the bytes of every slot;
* `bindObj_returns` : every handle can be bound, but for a queue whose control words differ,
  which raises `LayoutMismatchError` (`bindObj_ctrl`).

The lemmas about `bind` are about any source of records that agrees with the layout, so that
they serve the rebuild of a pickled handle too.
-/
import PosixIpc.LayoutBind
import PosixIpc.LayoutIncremental

namespace PosixIpc

open StoreProg TracedCall Word32

/-! ## `layout_sync` -/

theorem applySlotMeta_idem (h : LayoutHandle) (s : Slot) :
    (h.applySlotMeta s).applySlotMeta s = h.applySlotMeta s := by
  unfold LayoutHandle.applySlotMeta
  cases htype : h.type <;> simp [htype]

theorem syncHandles_idem {slots : List Slot} {hs hs' : List LayoutHandle}
    (h : syncHandles slots hs = (hs', .ok ())) : syncHandles slots hs' = (hs', .ok ()) := by
  induction hs generalizing hs' with
  | nil =>
      obtain rfl : ([] : List LayoutHandle) = hs' := congrArg Prod.fst h
      rfl
  | cons g rest ih =>
      unfold syncHandles at h
      by_cases hc : g.count = 0 ∨ g.slot ≥ slots.length ∨ u32 (g.slot + g.count) > slots.length
      · rw [if_pos hc] at h
        exact absurd (congrArg Prod.snd h) (by simp)
      · rw [if_neg hc] at h
        obtain ⟨h1, h2⟩ := Prod.ext_iff.mp h
        simp only at h1 h2
        have hrest := ih (Prod.ext rfl h2)
        subst h1
        have hcount : (g.applySlotMeta (slots.getD g.slot default)).count = g.count := by
          unfold LayoutHandle.count
          rw [applySlotMeta_type]
        rw [syncHandles, applySlotMeta_slot, hcount, if_neg hc, hrest, applySlotMeta_idem]

/-- The layout as a build leaves it is built. -/
theorem layoutSync_idem {p : Platform} {l l' : LayoutObj} {e : Expect}
    (h : layoutSync p l = (l', .ok ()))
    (hbuild : posixipcLayoutBuild p l'.slots = (l'.slots, .ok e)) :
    layoutSync p l' = (l', .ok ()) := by
  obtain ⟨e₀, hb, -, -⟩ := layoutSync_ok h
  unfold layoutSync at h
  rw [hb] at h
  simp only at h
  obtain ⟨h1, h2⟩ := Prod.ext_iff.mp h
  have hsync : syncHandles l'.slots l.handles = (l'.handles, .ok ()) :=
    Prod.ext (congrArg LayoutObj.handles h1) h2
  unfold layoutSync
  rw [hbuild]
  simp only [syncHandles_idem hsync]

/-- What the adds leave is built: the expectation, and the slots in it. -/
theorem Added.built {p : Platform} {l : LayoutObj} (h : Added p l) :
    ∃ e, posixipcLayoutBuild p l.slots = (l.slots, .ok e) := by
  obtain ⟨req, hrun⟩ := h.run
  obtain ⟨e, hbuilt⟩ := hrun.built
  obtain ⟨hlen, hsound⟩ := hrun.requested
  have hn : req.length ≤ 0xffff := by
    rw [hlen]
    exact h.inv.count
  exact ⟨e, posixipcLayoutBuild_rebuild hn (fun s hs => (hsound s hs).steady) hbuilt⟩

/-- **`layout_sync` changes nothing after an add.** -/
theorem Added.sync_eq {p : Platform} {l : LayoutObj} (h : Added p l) :
    layoutSync p l = (l, .ok ()) := by
  obtain ⟨e, hbuild⟩ := h.built
  cases h with
  | empty => rfl
  | step _ hadd =>
      obtain ⟨_, _, _, happ⟩ := apply_ok hadd
      obtain ⟨cap, hsync⟩ := happ.sync
      exact layoutSync_idem hsync hbuild

@[simp] theorem LayoutObj.plain_inst (p : Platform) (l : LayoutObj) : (l.inst p).plain = l := by
  have hmap : (l.handles.map (HandleObj.unbound p)).map HandleObj.handle = l.handles := by
    rw [List.map_map]
    exact List.map_id l.handles
  unfold LayoutInst.plain LayoutObj.inst
  rw [hmap]

theorem Added.sync_inst {p : Platform} {l : LayoutObj} (h : Added p l) :
    (l.inst p).sync p = (l.inst p, .ok ()) := by
  unfold LayoutInst.sync
  simp only [LayoutObj.plain_inst, h.sync_eq]
  refine Prod.ext ?_ rfl
  unfold LayoutObj.inst
  simp only [LayoutInst.mk.injEq, true_and, and_true]
  induction l.handles with
  | nil => rfl
  | cons g rest ih => exact congrArg₂ List.cons rfl ih

/-! ## The expectation and the segment -/

section Segment

variable {p : Platform} {l : LayoutObj} {e : Expect} {m : SegMem}

/-- The fields of the expectation. -/
theorem Added.expect (h : Added p l) (hb : posixipcLayoutBuild p l.slots = (l.slots, .ok e)) :
    buildSlots p (headerBytes + 16 * l.nslots) l.slots = (l.slots, .ok e.totalSize) ∧
      e.slots = some l.slots ∧ e.slotCount = l.nslots ∧ e.directoryBytes = 16 * l.nslots := by
  obtain ⟨hloop, he⟩ := posixipcLayoutBuild_ok h.inv.count hb
  refine ⟨hloop, ?_, ?_, ?_⟩ <;> rw [he] <;> rfl

theorem Added.builtExpect (h : Added p l)
    (hb : posixipcLayoutBuild p l.slots = (l.slots, .ok e)) : Built p e :=
  .layout h.inv.count (fun s hs => (h.inv.sound s hs).short) hb

/-- An alignment that is stored in a built list is kept there. -/
theorem aligned_buildSlots {cursor total : ℕ} {slots : List Slot}
    (hshort : ∀ s ∈ slots, s.Short) (hc : cursor ≤ uint32Max)
    (h : buildSlots p cursor slots = (slots, .ok total)) :
    ∀ s ∈ slots, s.align ≠ 0 → s.align ∣ s.offset := by
  induction slots generalizing cursor with
  | nil => simp
  | cons s rest ih =>
      obtain ⟨out', hal, hsz, h0, hfit, heq, hrest⟩ := buildSlots_cons h
      have hs := hshort s List.mem_cons_self
      obtain ⟨hle, hdvd, hmax⟩ :=
        layoutAlignUp_spec (Nat.pos_of_ne_zero hal) (Slot.effAlign_le hs) hc h0
      obtain ⟨hs1, rfl⟩ := List.cons.inj heq
      have hoff : s.offset = layoutAlignUp cursor (s.effAlign p) := congrArg Slot.offset hs1
      rw [u32_of_le (by omega)] at hrest
      intro x hx hne
      rcases List.mem_cons.mp hx with rfl | hx
      · have heff : x.effAlign p = x.align := if_pos hne
        rw [heff] at hdvd hoff
        rw [hoff]
        exact hdvd
      · exact ih (fun y hy => hshort y (List.mem_cons_of_mem s hy)) (by omega) hrest x hx hne

/-- **The bytes of every slot can be handed out** in a segment of the layout. -/
theorem Added.fits (h : Added p l) (hb : posixipcLayoutBuild p l.slots = (l.slots, .ok e))
    (hm : HeaderAgrees m e) : ∀ s ∈ l.slots, s.Fits m := by
  obtain ⟨hloop, -, -, hdir⟩ := h.expect hb
  have hcount := h.inv.count
  have hshort : ∀ s ∈ l.slots, s.Short := fun s hs => (h.inv.sound s hs).short
  have hc : headerBytes + 16 * l.nslots ≤ uint32Max := by unfold headerBytes uint32Max; omega
  obtain ⟨hpack, -⟩ := packed_buildSlots hshort hc hloop
  intro s hs
  obtain ⟨hstart, hsize, hstop⟩ := hpack.mem hs
  refine ⟨?_, hsize.ne', ?_, fun hal => ?_⟩
  · rw [hm.directoryBytes, hdir, u32_of_le hc]
    exact hstart
  · rw [hm.totalSize]
    exact hstop
  · exact Nat.mod_eq_zero_of_dvd (aligned_buildSlots hshort hc hloop s hs (by omega))

/-- The directory gives back the slots. -/
theorem recordAt_of_dirAt {slots : List Slot} (hd : DirAt m 0 slots) {i : ℕ}
    (hi : i < slots.length) : recordAt m i = slots.getD i default := by
  have hget := hd i slots[i] (List.getElem?_eq_getElem hi)
  rw [Nat.zero_add] at hget
  have hgetD : slots.getD i default = slots[i] := by
    rw [List.getD_eq_getElem?_getD, List.getElem?_eq_getElem hi, Option.getD_some]
  rw [hgetD]
  unfold recordAt
  rw [hget, hget, hget, hget, hget]
  rfl

end Segment

/-! ## What a bound handle is bound to -/

/-- The number of pointers that a handle stores. -/
def LayoutHandle.ptrCount (h : LayoutHandle) : ℕ :=
  match h.type with
  | .mutexArray count => count
  | .queue _ _ => 4
  | .futexQueue _ _ => 2
  | .sharedBytes => 0
  | _ => 1

/-- The view of a queue on its ring. -/
def LayoutHandle.ringView (p : Platform) (r : ℕ) (slots : List Slot) (h : LayoutHandle) :
    Except Rc RingView :=
  match h.type with
  | .queue depth itemSize => queueView p depth itemSize ((slots.getD (h.slot + 4) default).ptr r)
  | .futexQueue depth itemSize =>
    futexqView p depth itemSize ((slots.getD (h.slot + 2) default).ptr r)
  | _ => .error .einval

/-- The object is the handle `h`, bound to the bytes of its slots in region `r`. -/
structure LayoutHandle.BoundTo (p : Platform) (r : ℕ) (slots : List Slot) (h : LayoutHandle)
    (o : HandleObj) : Prop where
  type : o.handle.type = h.type
  slot : o.handle.slot = h.slot
  record : h.HasRecord → o.handle.record = slots.getD h.slot default
  bound : o.bound = true
  region : o.region = some r
  ptrs : ∀ i < h.ptrCount, o.ptrs i = some ((slots.getD (h.slot + i) default).ptr r)
  view : ¬ h.HasRecord → ∃ v, h.ringView p r slots = .ok v ∧ o.view = some v
  condFlags : ∀ d n, h.type = .queue d n →
    o.condFlags = (slots.getD (h.slot + 2) default).initFlags

/-- The control words of a queue are those of its handle. -/
def LayoutHandle.CtrlMatches (m : SegMem) (h : LayoutHandle) : Prop :=
  match h.type with
  | .queue depth itemSize => CtrlAt m (h.slot + 4) depth itemSize
  | .futexQueue depth itemSize => CtrlAt m (h.slot + 2) depth itemSize
  | _ => True

theorem queueView_ok {p : Platform} {depth itemSize : ℕ} {ptr : Ptr}
    (hne : posixipcQueueBytesSize p.cacheline depth itemSize ≠ 0)
    (hle : posixipcQueueBytesSize p.cacheline depth itemSize ≤ ptr.size) :
    ∃ v, queueView p depth itemSize ptr = .ok v := by
  unfold queueView posixipcQueueMap
  simp only
  rw [if_neg (by omega)]
  exact ⟨_, rfl⟩

theorem futexqView_ok {p : Platform} {depth itemSize : ℕ} {ptr : Ptr}
    (hne : posixipcFutexqBytesSize p.cacheline depth itemSize ≠ 0)
    (hle : posixipcFutexqBytesSize p.cacheline depth itemSize ≤ ptr.size) :
    ∃ v, futexqView p depth itemSize ptr = .ok v := by
  -- the size is that of the words in front and of the ring
  have hparts : posixipcFutexqPrefixSize p.cacheline ≠ 0 ∧
      posixipcQueueBytesSize p.cacheline depth itemSize ≠ 0 ∧
      posixipcFutexqBytesSize p.cacheline depth itemSize =
        posixipcFutexqPrefixSize p.cacheline +
          posixipcQueueBytesSize p.cacheline depth itemSize := by
    unfold posixipcFutexqBytesSize at hne ⊢
    simp only at hne ⊢
    split_ifs at hne ⊢ with h1 h2
    · exact absurd rfl hne
    · exact absurd rfl hne
    · push Not at h1
      refine ⟨h1.1, h1.2, u32_of_le ?_⟩
      have := posixipcQueueBytesSize_le p.cacheline depth itemSize
      omega
  obtain ⟨hpre, hring, hsum⟩ := hparts
  unfold futexqView posixipcFutexqMap
  simp only
  rw [if_neg (by omega)]
  unfold posixipcQueueMap
  simp only
  rw [if_neg (by omega)]
  exact ⟨_, rfl⟩

section Bound

open Call

variable {p : Platform} {l : LayoutObj} {e : Expect} {m : SegMem} {r : ℕ} {faults : BindFaults}
  {slots : ℕ → BindCall Slot} {recs : ℕ → Slot} {g : LayoutHandle} {st : BindState}

/-- The slots of a handle, and where they stand. -/
theorem Added.block (h : Added p l) (hg : g ∈ l.handles) :
    ∃ blk, g.Serves p blk ∧ blk.length = g.count ∧ g.slot + g.count ≤ l.nslots ∧
      ∀ j s, blk[j]? = some s → l.slots[g.slot + j]? = some s := by
  obtain ⟨pre, blk, post, hslots, hslot, hlen, hserves⟩ := h.inv.blocks.mem hg
  rw [Nat.zero_add] at hslot
  refine ⟨blk, hserves, hlen, ?_, fun j s hs => ?_⟩
  · rw [LayoutObj.nslots, hslots, List.length_append, List.length_append, hslot, hlen]
    omega
  · have hj : j < blk.length := (List.getElem?_eq_some_iff.mp hs).1
    rw [hslots, hslot, List.append_assoc, List.getElem?_append_right (by omega),
      Nat.add_sub_cancel_left, List.getElem?_append_left hj, hs]

/-- A source that agrees with the slots of a layout. -/
def AgreesWith (recs : ℕ → Slot) (slots : List Slot) : Prop :=
  ∀ i < slots.length, recs i = slots.getD i default

/-- A slot of a handle as the source gives it. -/
theorem recs_block (h : Added p l) (hrec : AgreesWith recs l.slots) {i : ℕ} {s : Slot}
    (hs : l.slots[i]? = some s) : recs (u32 i) = s ∧ l.slots.getD i default = s ∧ s ∈ l.slots := by
  obtain ⟨hi, hget⟩ := List.getElem?_eq_some_iff.mp hs
  have hcount : l.slots.length ≤ 0xffff := h.inv.count
  have hgetD : l.slots.getD i default = s := by
    rw [List.getD_eq_getElem?_getD, hs, Option.getD_some]
  rw [u32_of_lt (by omega), hrec i hi]
  exact ⟨hgetD, hgetD, by rw [← hget]; exact List.getElem_mem hi⟩

/-- The records of a queue in a segment of its layout. -/
theorem ringFits_of_block (h : Added p l) (hfit : ∀ s ∈ l.slots, s.Fits m)
    (hrec : AgreesWith recs l.slots) {front : List ℕ} {need : ℕ} {blk : List Slot}
    {view : Ptr → Except Rc RingView} (hb : RingBlock front need blk)
    (hpos : ∀ j s, blk[j]? = some s → l.slots[g.slot + j]? = some s)
    (hview : need ≠ 0 → ∀ ptr : Ptr, need ≤ ptr.size → ∃ v, view ptr = .ok v) :
    ∃ v, view ((l.slots.getD (g.slot + front.length) default).ptr r) = .ok v ∧
      RingFits m r recs g.slot front view v := by
  obtain ⟨fs, ring, rfl, hkinds, hkind, -, hne, hle⟩ := hb
  have hlen : fs.length = front.length := by rw [← hkinds, List.length_map]
  have hat : ∀ j s, (fs ++ [ring])[j]? = some s →
      recs (u32 (g.slot + j)) = s ∧ l.slots.getD (g.slot + j) default = s ∧ s.Fits m := by
    intro j s hs
    obtain ⟨h1, h2, h3⟩ := recs_block h hrec (hpos j s hs)
    exact ⟨h1, h2, hfit s h3⟩
  have hring := hat front.length ring (by rw [← hlen]; simp)
  obtain ⟨v, hv⟩ := hview hne (ring.ptr r) hle
  refine ⟨v, by rw [hring.2.1]; exact hv, ?_, fun j hj => ?_, by rw [hring.1]; exact hv⟩
  · intro j kind hj
    have hmap : (front ++ [kindBytes]) = (fs ++ [ring]).map Slot.kind := by
      rw [List.map_append, hkinds, List.map_cons, List.map_nil, hkind]
    rw [hmap, List.getElem?_map] at hj
    obtain ⟨s, hs, rfl⟩ := Option.map_eq_some_iff.mp hj
    rw [Nat.zero_add, (hat j s hs).1]
  · have hlt : j < (fs ++ [ring]).length := by
      rw [List.length_append, hlen, List.length_singleton]
      omega
    obtain ⟨h1, -, h3⟩ := hat j _ (List.getElem?_eq_getElem hlt)
    rw [h1]
    exact h3

theorem u32_slot (h : Added p l) {i : ℕ} (hi : i < l.nslots) : u32 i = i := by
  have := h.inv.count
  exact u32_of_lt (by omega)

/-- The pointers in front of a ring, all at once. -/
theorem HandleObj.storeFront_eq (r : ℕ) (recs : ℕ → Slot) (first i n : ℕ) (o : HandleObj) :
    o.storeFront r recs first i n =
      { o with ptrs := fun j =>
          if i ≤ j ∧ j < i + n then some ((recs (u32 (first + j))).ptr r) else o.ptrs j } := by
  induction n generalizing i o with
  | zero =>
      have hptrs : o.ptrs = fun j =>
          if i ≤ j ∧ j < i + 0 then some ((recs (u32 (first + j))).ptr r) else o.ptrs j := by
        funext j
        rw [if_neg (by omega)]
      rw [← hptrs]
      rfl
  | succ n ih =>
      rw [HandleObj.storeFront, ih]
      simp only [HandleObj.mk.injEq, true_and, and_true]
      funext j
      by_cases hj : j = i
      · subst hj
        rw [if_neg (by omega), if_pos (by omega), Function.update_self]
      · rw [Function.update_of_ne hj]
        by_cases hin : i + 1 ≤ j ∧ j < i + 1 + n
        · rw [if_pos hin, if_pos (by omega)]
        · rw [if_neg hin, if_neg (by omega)]

/-- A handle of one slot. -/
theorem bindSlot_boundTo (hsrc : Source slots recs) {s : Slot} {keep : Bool}
    {type : Slot → HandleType → HandleType} (hrec : recs g.slot = s)
    (hget : l.slots.getD g.slot default = s) (hfit : s.Fits m) (hpin : faults.pin = false)
    (htype : type s st.obj.handle.type = g.type) (hhas : g.HasRecord)
    (hcount : g.ptrCount = if keep then 1 else 0) :
    ∃ o, Returns (bindSlot m r faults slots keep type g.slot) st ⟨o, st.pins + 1⟩ () ∧
      g.BoundTo p r l.slots o := by
  refine ⟨_, bindSlot_returns hsrc (by rw [hrec]; exact hfit) hpin, ?_⟩
  rw [hrec]
  refine ⟨htype, rfl, fun _ => hget.symm, rfl, rfl, fun i hi => ?_, fun hn => absurd hhas hn,
    fun d n ht => absurd ht (hhas.1 d n)⟩
  rw [hcount] at hi
  cases keep with
  | false => exact absurd hi (Nat.not_lt_zero i)
  | true =>
      obtain rfl : i = 0 := by simpa using hi
      rw [Nat.add_zero, hget]
      show Function.update st.obj.ptrs 0 (some (s.ptr r)) 0 = _
      rw [Function.update_self]

/-- The object of a queue that has been bound. -/
theorem boundTo_of_ring {front : List ℕ} {v : RingView} (h : Added p l)
    (hrec : AgreesWith recs l.slots) {blk : List Slot} (hlen : blk.length = front.length + 1)
    (hpos : ∀ j s, blk[j]? = some s → l.slots[g.slot + j]? = some s) (hno : ¬ g.HasRecord)
    (htype : st.obj.handle.type = g.type) (hcount : g.ptrCount = front.length)
    (hv : g.ringView p r l.slots = .ok v) (flags : ℕ)
    (hflags : ∀ d n, g.type = .queue d n →
      flags = (l.slots.getD (g.slot + 2) default).initFlags) :
    g.BoundTo p r l.slots
      { st.obj.bindRing r recs g.slot front.length v with condFlags := flags } := by
  have hfront : ∀ i < front.length,
      recs (u32 (g.slot + i)) = l.slots.getD (g.slot + i) default := by
    intro i hi
    have hlt : i < blk.length := by omega
    obtain ⟨h1, h2, -⟩ := recs_block h hrec (hpos i _ (List.getElem?_eq_getElem hlt))
    rw [h1, h2]
  unfold HandleObj.bindRing HandleObj.mapRing
  rw [HandleObj.storeFront_eq]
  refine ⟨htype, rfl, fun hr => absurd hr hno, rfl, rfl, fun i hi => ?_, fun _ => ⟨v, hv, rfl⟩,
    hflags⟩
  rw [hcount] at hi
  simp only
  rw [if_pos (by omega), hfront i hi]

theorem syncHandles_count {slots : List Slot} {hs hs' : List LayoutHandle}
    (h : syncHandles slots hs = (hs', .ok ())) : ∀ g ∈ hs, g.count ≠ 0 := by
  induction hs generalizing hs' with
  | nil => simp
  | cons g rest ih =>
      unfold syncHandles at h
      by_cases hc : g.count = 0 ∨ g.slot ≥ slots.length ∨ u32 (g.slot + g.count) > slots.length
      · rw [if_pos hc] at h
        exact absurd (congrArg Prod.snd h) (by simp)
      · rw [if_neg hc] at h
        intro x hx
        rcases List.mem_cons.mp hx with rfl | hx
        · exact fun h0 => hc (Or.inl h0)
        · obtain ⟨-, h2⟩ := Prod.ext_iff.mp h
          exact ih (Prod.ext rfl h2) x hx

/-- No handle is without slots. -/
theorem Added.count_ne (h : Added p l) (hg : g ∈ l.handles) : g.count ≠ 0 := by
  obtain ⟨e, hb⟩ := h.built
  have hsync := h.sync_eq
  unfold layoutSync at hsync
  rw [hb] at hsync
  simp only at hsync
  obtain ⟨-, h2⟩ := Prod.ext_iff.mp hsync
  exact syncHandles_count (Prod.ext rfl h2) g hg

/-- An array. -/
theorem mutexarrayBind_boundTo (h : Added p l) (hfit : ∀ s ∈ l.slots, s.Fits m)
    (hsrc : Source slots recs) (hrec : AgreesWith recs l.slots) {count : ℕ}
    (hty : g.type = .mutexArray count) (hcount : count ≠ 0)
    (htype : st.obj.handle.type = .mutexArray count)
    (hkind : st.obj.handle.record.kind = g.record.kind) {blk : List Slot}
    (hlen : blk.length = count) (hkinds : ∀ s ∈ blk, s.kind = g.record.kind)
    (hpos : ∀ j s, blk[j]? = some s → l.slots[g.slot + j]? = some s)
    (hcalloc : faults.calloc = false) (hpin : faults.pin = false) :
    ∃ o, Returns (posixipcMutexarrayBind m r faults slots g.slot count) st
      ⟨o, st.pins + 1⟩ () ∧ g.BoundTo p r l.slots o := by
  have hat : ∀ j < count, ∃ s, recs (u32 (g.slot + j)) = s ∧
      l.slots.getD (g.slot + j) default = s ∧ s.kind = g.record.kind ∧ s.Fits m := by
    intro j hj
    have hlt : j < blk.length := by omega
    obtain ⟨h1, h2, h3⟩ := recs_block h hrec (hpos j _ (List.getElem?_eq_getElem hlt))
    exact ⟨_, h1, h2, hkinds _ (List.getElem_mem hlt), hfit _ h3⟩
  have harray : ArrayFits m recs st.obj.handle.record.kind g.slot 0 count := by
    intro j hj
    obtain ⟨s, h1, -, h3, h4⟩ := hat j hj
    rw [Nat.zero_add, h1, hkind]
    exact ⟨h3, h4⟩
  refine ⟨_, mutexarrayBind_returns hsrc htype hcount harray hcalloc hpin, ?_⟩
  obtain ⟨s, h1, h2, h3, -⟩ := hat 0 (Nat.pos_of_ne_zero hcount)
  have hin : g.slot < l.nslots := by
    have hlt : 0 < blk.length := by omega
    exact (List.getElem?_eq_some_iff.mp (hpos 0 _ (List.getElem?_eq_getElem hlt))).1
  rw [Nat.add_zero] at h1 h2
  rw [u32_slot h hin] at h1
  have hhas : g.HasRecord := by simp [LayoutHandle.HasRecord, hty]
  refine ⟨hty.symm, rfl, fun _ => ?_, rfl, rfl, fun i hi => ?_, fun hn => absurd hhas hn,
    fun d n ht => absurd ht (hhas.1 d n)⟩
  · show ({ recs g.slot with kind := st.obj.handle.record.kind } : Slot) = _
    rw [h1, h2, hkind, ← h3]
  · have hi' : i < count := by simpa [LayoutHandle.ptrCount, hty] using hi
    obtain ⟨s', h1', h2', -, -⟩ := hat i hi'
    show (arrayPtrs r recs g.slot 0 count)[i]? = _
    rw [h2', ← h1', arrayPtrs, List.getElem?_map, List.getElem?_range hi', Option.map_some,
      Nat.zero_add]

/-- A `Queue` whose control words match. -/
theorem queueBind_boundTo (h : Added p l) (hfit : ∀ s ∈ l.slots, s.Fits m)
    (hsrc : Source slots recs) (hrec : AgreesWith recs l.slots) {depth itemSize : ℕ}
    (hty : g.type = .queue depth itemSize) (htype : st.obj.handle.type = g.type)
    {blk : List Slot}
    (hserves : RingBlock queueFront (posixipcQueueBytesSize p.cacheline depth itemSize) blk)
    (hlen : blk.length = queueSlotCount) (hend : g.slot + queueSlotCount ≤ l.nslots)
    (hpos : ∀ j s, blk[j]? = some s → l.slots[g.slot + j]? = some s)
    (hctrl : CtrlAt m (g.slot + 4) depth itemSize) (hpin : faults.pin = false) :
    ∃ o, Returns (posixipcQueueBind p m r faults slots depth itemSize g.slot) st
      ⟨o, st.pins + 1⟩ () ∧ g.BoundTo p r l.slots o := by
  unfold queueSlotCount at hlen hend
  have hfits : ∃ v, queueView p depth itemSize ((l.slots.getD (g.slot + 4) default).ptr r) = .ok v ∧
      RingFits m r recs g.slot queueFront (queueView p depth itemSize) v :=
    ringFits_of_block h hfit hrec hserves hpos fun hne ptr hle => queueView_ok hne hle
  obtain ⟨v, hv, hring⟩ := hfits
  have h4 : u32 (g.slot + 4) = g.slot + 4 := u32_slot h (by omega)
  have hctrl' : CtrlAt m (u32 (g.slot + queueFront.length)) depth itemSize := by
    show CtrlAt m (u32 (g.slot + 4)) depth itemSize
    rw [h4]
    exact hctrl
  have hview : g.ringView p r l.slots = .ok v := by
    unfold LayoutHandle.ringView
    rw [hty]
    exact hv
  have hno : ¬ g.HasRecord := fun hr => hr.1 depth itemSize hty
  have hcount : g.ptrCount = queueFront.length := by
    unfold LayoutHandle.ptrCount
    rw [hty]
    rfl
  refine ⟨{ st.obj.bindRing r recs g.slot queueFront.length v with
    condFlags := (recs (u32 (g.slot + 2))).initFlags }, ?_, ?_⟩
  · refine ((ringBind_fits hsrc hring).1 _).mpr ⟨hctrl', hpin, ?_⟩
    rw [(hsrc _ _).bind_iff]
    exact setObj_returns _
  · refine boundTo_of_ring h hrec hlen hpos hno htype hcount hview _ fun d n _ => ?_
    obtain ⟨h1, h2, -⟩ := recs_block h hrec
      (hpos 2 _ (List.getElem?_eq_getElem (show 2 < blk.length by omega)))
    rw [h1, h2]

/-- A `FutexQueue` whose control words match. -/
theorem futexqBind_boundTo (h : Added p l) (hfit : ∀ s ∈ l.slots, s.Fits m)
    (hsrc : Source slots recs) (hrec : AgreesWith recs l.slots) {depth itemSize : ℕ}
    (hty : g.type = .futexQueue depth itemSize) (htype : st.obj.handle.type = g.type)
    {blk : List Slot}
    (hserves : RingBlock futexQueueFront
      (posixipcFutexqBytesSize p.cacheline depth itemSize) blk)
    (hlen : blk.length = futexQueueSlotCount) (hend : g.slot + futexQueueSlotCount ≤ l.nslots)
    (hpos : ∀ j s, blk[j]? = some s → l.slots[g.slot + j]? = some s)
    (hctrl : CtrlAt m (g.slot + 2) depth itemSize) (hpin : faults.pin = false) :
    ∃ o, Returns (posixipcFutexqBind p m r faults slots depth itemSize g.slot) st
      ⟨o, st.pins + 1⟩ () ∧ g.BoundTo p r l.slots o := by
  unfold futexQueueSlotCount at hlen hend
  have hfits : ∃ v, futexqView p depth itemSize ((l.slots.getD (g.slot + 2) default).ptr r) =
        .ok v ∧ RingFits m r recs g.slot futexQueueFront (futexqView p depth itemSize) v :=
    ringFits_of_block h hfit hrec hserves hpos fun hne ptr hle => futexqView_ok hne hle
  obtain ⟨v, hv, hring⟩ := hfits
  have h2 : u32 (g.slot + 2) = g.slot + 2 := u32_slot h (by omega)
  have hctrl' : CtrlAt m (u32 (g.slot + futexQueueFront.length)) depth itemSize := by
    show CtrlAt m (u32 (g.slot + 2)) depth itemSize
    rw [h2]
    exact hctrl
  have hview : g.ringView p r l.slots = .ok v := by
    unfold LayoutHandle.ringView
    rw [hty]
    exact hv
  have hno : ¬ g.HasRecord := fun hr => hr.2 depth itemSize hty
  have hcount : g.ptrCount = futexQueueFront.length := by
    unfold LayoutHandle.ptrCount
    rw [hty]
    rfl
  refine ⟨st.obj.bindRing r recs g.slot futexQueueFront.length v, ?_, ?_⟩
  · exact ((ringBind_fits hsrc hring).1 _).mpr ⟨hctrl', hpin, ⟨[], rfl⟩⟩
  · exact boundTo_of_ring h hrec hlen hpos hno htype hcount hview _ fun d n ht => by
      rw [hty] at ht
      exact nomatch ht

/-- **Every handle of the layout can be bound**, through any records that agree with the layout,
if the control words of a queue match. -/
theorem bindObj_returns (h : Added p l) (hfit : ∀ s ∈ l.slots, s.Fits m)
    (hsrc : Source slots recs) (hrec : AgreesWith recs l.slots) (hg : g ∈ l.handles)
    (htype : st.obj.handle.type = g.type) (hslot : st.obj.handle.slot = g.slot)
    (hkind : ∀ count, g.type = .mutexArray count → st.obj.handle.record.kind = g.record.kind)
    (hctrl : g.CtrlMatches m)
    (hcalloc : ∀ count, g.type = .mutexArray count → faults.calloc = false)
    (hpin : faults.pin = false) :
    ∃ o, Returns (bindObj p m r faults slots) st ⟨o, st.pins + 1⟩ () ∧
      g.BoundTo p r l.slots o := by
  obtain ⟨blk, hserves, hlen, hend, hpos⟩ := h.block hg
  unfold bindObj
  simp only [(look_returns _).bind_iff]
  rw [htype, hslot]
  unfold LayoutHandle.Serves at hserves
  unfold LayoutHandle.CtrlMatches at hctrl
  unfold LayoutHandle.count at hlen hend
  -- a handle of one slot
  have hone : ∀ {s : Slot} {keep : Bool} {type : Slot → HandleType → HandleType}, blk = [s] →
      type s st.obj.handle.type = g.type → g.HasRecord → (g.ptrCount = if keep then 1 else 0) →
      ∃ o, Returns (bindSlot m r faults slots keep type g.slot) st ⟨o, st.pins + 1⟩ () ∧
        g.BoundTo p r l.slots o := by
    intro s keep type hblk hty hhas hcount
    have hs := hpos 0 s (by rw [hblk]; rfl)
    obtain ⟨h1, h2, h3⟩ := recs_block h hrec hs
    rw [Nat.add_zero] at h1 h2 hs
    rw [u32_slot h (List.getElem?_eq_some_iff.mp hs).1] at h1
    exact bindSlot_boundTo hsrc h1 h2 (hfit s h3) hpin hty hhas hcount
  cases hty : g.type with
  | mutexArray count =>
      rw [hty] at hserves
      have hcount : count ≠ 0 := by simpa [LayoutHandle.count, hty] using h.count_ne hg
      exact mutexarrayBind_boundTo h hfit hsrc hrec hty hcount (htype.trans hty) (hkind count hty)
        hserves.1
        hserves.2.2 hpos (hcalloc count hty) hpin
  | queue depth itemSize =>
      rw [hty] at hserves hctrl hlen hend
      exact queueBind_boundTo h hfit hsrc hrec hty htype hserves hlen hend hpos hctrl hpin
  | futexQueue depth itemSize =>
      rw [hty] at hserves hctrl hlen hend
      exact futexqBind_boundTo h hfit hsrc hrec hty htype hserves hlen hend hpos hctrl hpin
  | semaphore value =>
      rw [hty] at hserves
      obtain ⟨s, hblk, -, hparam, -⟩ := hserves
      refine hone hblk ?_ (by simp [LayoutHandle.HasRecord, hty])
        (by simp [LayoutHandle.ptrCount, hty])
      rw [hty, hparam value rfl]
  | barrier parties =>
      rw [hty] at hserves
      obtain ⟨s, hblk, -, hparam, -⟩ := hserves
      refine hone hblk ?_ (by simp [LayoutHandle.HasRecord, hty])
        (by simp [LayoutHandle.ptrCount, hty])
      rw [hty, hparam parties rfl]
  | _ =>
      rw [hty] at hserves
      obtain ⟨s, hblk, -, -, -⟩ := hserves
      exact hone hblk htype (by simp [LayoutHandle.HasRecord, hty])
        (by simp [LayoutHandle.ptrCount, hty])

/-- **A queue whose control words differ is refused.** -/
theorem bindObj_ctrl (h : Added p l) (hfit : ∀ s ∈ l.slots, s.Fits m) (hsrc : Source slots recs)
    (hrec : AgreesWith recs l.slots) (hg : g ∈ l.handles)
    (htype : st.obj.handle.type = g.type) (hslot : st.obj.handle.slot = g.slot)
    (hctrl : ¬ g.CtrlMatches m) :
    ∃ st' text, Raises (bindObj p m r faults slots) st st' (.layoutMismatchError text) := by
  obtain ⟨blk, hserves, hlen, hend, hpos⟩ := h.block hg
  unfold bindObj
  simp only [(look_returns _).bind_raises_iff]
  rw [htype, hslot]
  unfold LayoutHandle.Serves at hserves
  unfold LayoutHandle.CtrlMatches at hctrl
  unfold LayoutHandle.count at hend
  cases hty : g.type with
  | queue depth itemSize =>
      rw [hty] at hserves hctrl hend
      have hfits : ∃ v, queueView p depth itemSize
          ((l.slots.getD (g.slot + 4) default).ptr r) = .ok v ∧
            RingFits m r recs g.slot queueFront (queueView p depth itemSize) v :=
        ringFits_of_block h hfit hrec hserves hpos fun hne ptr hle => queueView_ok hne hle
      obtain ⟨v, -, hring⟩ := hfits
      refine ⟨_, _, (ringBind_fits hsrc hring).2 fun hc => hctrl ?_⟩
      have h4 : u32 (g.slot + 4) = g.slot + 4 :=
        u32_slot h (by simp only [queueSlotCount] at hend; omega)
      exact h4 ▸ hc
  | futexQueue depth itemSize =>
      rw [hty] at hserves hctrl hend
      have hfits : ∃ v, futexqView p depth itemSize
          ((l.slots.getD (g.slot + 2) default).ptr r) = .ok v ∧
            RingFits m r recs g.slot futexQueueFront (futexqView p depth itemSize) v :=
        ringFits_of_block h hfit hrec hserves hpos fun hne ptr hle => futexqView_ok hne hle
      obtain ⟨v, -, hring⟩ := hfits
      refine ⟨_, _, (ringBind_fits hsrc hring).2 fun hc => hctrl ?_⟩
      have h2 : u32 (g.slot + 2) = g.slot + 2 :=
        u32_slot h (by simp only [futexQueueSlotCount] at hend; omega)
      exact h2 ▸ hc
  | _ =>
      rw [hty] at hctrl
      exact absurd trivial hctrl

/-- A handle that cannot be pinned, or an array without memory, is not bound. -/
theorem bindObj_faults {st' : BindState} (hsrc : Source slots recs)
    (htype : st.obj.handle.type = g.type)
    (hret : Returns (bindObj p m r faults slots) st st' ()) :
    faults.pin = false ∧ ∀ count, g.type = .mutexArray count → faults.calloc = false := by
  unfold bindObj at hret
  rw [(look_returns _).bind_iff, htype] at hret
  cases hty : g.type with
  | mutexArray count =>
      rw [hty] at hret
      by_contra hno
      have hfail : faults.calloc = true ∨ faults.pin = true := by
        cases hc : faults.calloc <;> cases hp : faults.pin <;> simp_all
      obtain ⟨e, he⟩ : ∃ e, Raises (posixipcMutexarrayBind m r faults slots st.obj.handle.slot
          count) st st e := mutexarrayBind_raises hsrc (by tauto)
      exact hret.not_raises he
  | queue depth itemSize =>
      rw [hty] at hret
      obtain ⟨v, hv⟩ := ringBind_ringFits hsrc hret
      exact ⟨(((ringBind_fits hsrc hv).1 _).mp hret).2.1, fun _ h => nomatch h⟩
  | futexQueue depth itemSize =>
      rw [hty] at hret
      obtain ⟨v, hv⟩ := ringBind_ringFits hsrc hret
      exact ⟨(((ringBind_fits hsrc hv).1 _).mp hret).2.1, fun _ h => nomatch h⟩
  | _ =>
      rw [hty] at hret
      refine ⟨?_, fun _ h => nomatch h⟩
      cases hpin : faults.pin with
      | false => rfl
      | true =>
          obtain ⟨e, he⟩ := bindSlot_raises hsrc (Or.inr hpin)
          exact (hret.not_raises he).elim

/-- **What a successful bind gives.** -/
theorem bindObj_boundTo (h : Added p l) (hfit : ∀ s ∈ l.slots, s.Fits m)
    (hsrc : Source slots recs) (hrec : AgreesWith recs l.slots) (hg : g ∈ l.handles)
    (htype : st.obj.handle.type = g.type) (hslot : st.obj.handle.slot = g.slot)
    (hkind : st.obj.handle.record.kind = g.record.kind) {st' : BindState}
    (hret : Returns (bindObj p m r faults slots) st st' ()) :
    g.CtrlMatches m ∧ g.BoundTo p r l.slots st'.obj := by
  obtain ⟨hpin, hcalloc⟩ := bindObj_faults hsrc htype hret
  by_cases hctrl : g.CtrlMatches m
  · obtain ⟨o, ho, hbound⟩ :=
      bindObj_returns h hfit hsrc hrec hg htype hslot (fun _ _ => hkind) hctrl hcalloc hpin
    obtain ⟨rfl, -⟩ := hret.unique ho
    exact ⟨hctrl, hbound⟩
  · obtain ⟨st'', text, hr⟩ := bindObj_ctrl h hfit hsrc hrec hg htype hslot hctrl
    exact (hret.not_raises hr).elim

end Bound

/-! ## All handles -/

section All

open Call

variable {p : Platform} {l : LayoutObj} {m : SegMem} {r : ℕ} {faults : ℕ → BindFaults}

theorem agreesWith_own (slots : List Slot) :
    AgreesWith (fun i => slots.getD i default) slots := fun _ _ => rfl

variable (r faults) in
/-- The binding of all handles succeeds, or a handle has a fault, or a queue is refused. -/
theorem layoutBindAll_cases (h : Added p l) (hfit : ∀ s ∈ l.slots, s.Fits m) (i pins : ℕ)
    {hs : List LayoutHandle} (hsub : ∀ g ∈ hs, g ∈ l.handles) :
    (∃ objs pins', layoutBindAll p r faults m l.slots i (hs.map (HandleObj.unbound p)) pins =
        (objs, pins', .ok ()) ∧ List.Forall₂ (LayoutHandle.BoundTo p r l.slots) hs objs ∧
        ∀ g ∈ hs, g.CtrlMatches m) ∨
      ∃ objs pins' e, layoutBindAll p r faults m l.slots i (hs.map (HandleObj.unbound p)) pins =
        (objs, pins', .error e) ∧ ((∀ i, faults i = noFaults) →
          (∃ text, e = .layoutMismatchError text) ∧ ∃ g ∈ hs, ¬ g.CtrlMatches m) := by
  have hsrc := source_ownRecord l.slots
  have hrec := agreesWith_own l.slots
  induction hs generalizing i pins with
  | nil => exact Or.inl ⟨[], pins, rfl, .nil, by simp⟩
  | cons g rest ih =>
      have hg := hsub g List.mem_cons_self
      rcases returns_or_raises (bindObj p m r (faults i) (ownRecord l.slots))
          ⟨HandleObj.unbound p g, pins⟩ with ⟨st', u, hret⟩ | ⟨st', e, hraise⟩
      · obtain ⟨hctrl, hbound⟩ := bindObj_boundTo h hfit hsrc hrec hg rfl rfl rfl hret
        rw [List.map_cons, layoutBindAll_returns hret]
        rcases ih (i + 1) st'.pins fun x hx => hsub x (List.mem_cons_of_mem g hx) with
          ⟨objs, pins', heq, hall, hctrls⟩ | ⟨objs, pins', e, heq, hcalm⟩
        · rw [heq]
          exact Or.inl ⟨_, _, rfl, .cons hbound hall, List.forall_mem_cons.mpr ⟨hctrl, hctrls⟩⟩
        · rw [heq]
          refine Or.inr ⟨_, _, e, rfl, fun hf => ?_⟩
          obtain ⟨htext, x, hx, hno⟩ := hcalm hf
          exact ⟨htext, x, List.mem_cons_of_mem g hx, hno⟩
      · rw [List.map_cons, layoutBindAll_raises hraise]
        refine Or.inr ⟨_, _, e, rfl, fun hf => ?_⟩
        by_cases hctrl : g.CtrlMatches m
        · have hok : ∃ o, Returns (bindObj p m r (faults i) (ownRecord l.slots))
              ⟨HandleObj.unbound p g, pins⟩ ⟨o, pins + 1⟩ () ∧ g.BoundTo p r l.slots o :=
            bindObj_returns h hfit hsrc hrec hg rfl rfl (fun _ _ => rfl) hctrl
              (fun _ _ => by rw [hf i]; rfl)
              (by rw [hf i]; rfl)
          obtain ⟨o, ho, -⟩ := hok
          exact (ho.not_raises hraise).elim
        · have hctrlRaise : ∃ st' text, Raises (bindObj p m r (faults i) (ownRecord l.slots))
              ⟨HandleObj.unbound p g, pins⟩ st' (.layoutMismatchError text) :=
            bindObj_ctrl h hfit hsrc hrec hg rfl rfl hctrl
          obtain ⟨st'', text, hr⟩ := hctrlRaise
          obtain ⟨-, rfl⟩ := hraise.unique hr
          exact ⟨⟨text, rfl⟩, g, List.mem_cons_self, hctrl⟩

/-- The call gets as far as the binding exactly when the segment part succeeds. -/
theorem Added.mapped_iff (h : Added p l) {e : Expect}
    (hb : posixipcLayoutBuild p l.slots = (l.slots, .ok e))
    (segment : Expect → Option (Except PyError SegMem)) :
    (l.inst p).Mapped p segment m ↔ segment e = some (.ok m) := by
  unfold LayoutInst.Mapped
  rw [h.sync_inst]
  show (_ ∧ ∃ e', (posixipcLayoutBuild p l.slots).2 = .ok e' ∧ _) ↔ _
  rw [hb]
  constructor
  · rintro ⟨-, e', he, hseg⟩
    rwa [Except.ok.inj he]
  · exact fun hseg => ⟨rfl, e, rfl, hseg⟩

/-- `attach` maps the segment that `posixipc_shm_attach` accepts. -/
theorem attachSegment_ok {timeout region : Option PyError} {env : AttachEnv} {turns : ℕ}
    {name : List UInt8} {st : Stat} {m' : SegMem} {e : Expect}
    (h : attachSegment timeout region env turns name st m e = some (.ok m')) :
    m' = m ∧ attachResult env turns name st m (some e) = some .ok := by
  unfold attachSegment at h
  cases timeout with
  | some err => exact nomatch h
  | none =>
      obtain ⟨rc, hrc, hif⟩ := Option.map_eq_some_iff.mp h
      by_cases hne : rc ≠ .ok
      · rw [if_pos hne] at hif
        exact nomatch hif
      · rw [if_neg hne] at hif
        rw [hrc, not_not.mp hne]
        cases region with
        | some err => exact nomatch hif
        | none => exact ⟨(Except.ok.inj hif).symm, rfl⟩

/-- A call that succeeds has mapped a segment, and has bound the handles if the header is that of
the layout. -/
theorem Added.open_ok (h : Added p l) {e : Expect}
    (hb : posixipcLayoutBuild p l.slots = (l.slots, .ok e))
    {segment : Expect → Option (Except PyError SegMem)} {x : OpenEnd}
    (hx : layoutOpen p r faults segment (l.inst p) = some x) (hok : x.result = .ok ()) :
    ∃ m, segment e = some (.ok m) ∧ (HeaderAgrees m e →
      (∀ g ∈ l.handles, g.CtrlMatches m) ∧
        List.Forall₂ (LayoutHandle.BoundTo p r l.slots) l.handles x.inst.objs) := by
  rcases layoutOpen_cases hx with ⟨err, rfl, -⟩ | ⟨m, hm, hbind⟩
  · exact nomatch hok
  · refine ⟨m, (h.mapped_iff hb _).mp ((hm m).mpr rfl), fun hagree => ?_⟩
    rw [h.sync_inst] at hbind
    have hall := layoutBindAll_cases r faults h (h.fits hb hagree) 0 0 fun g hg => hg
    rcases hbind with ⟨objs, pins, err, -, rfl⟩ | ⟨objs, pins, heq, rfl⟩
    · exact nomatch hok
    · rcases hall with ⟨objs', pins', heq', hbound, hctrl⟩ | ⟨objs', pins', err, heq', -⟩
      · obtain ⟨rfl, -⟩ := Prod.ext_iff.mp (heq.symm.trans heq')
        exact ⟨hctrl, hbound⟩
      · exact nomatch congrArg (·.2.2) (heq.symm.trans heq')

/-- **What a successful `Layout.attach` has found and bound.** -/
theorem Added.attach_ok (h : Added p l) {e : Expect}
    (hb : posixipcLayoutBuild p l.slots = (l.slots, .ok e)) {timeout region : Option PyError}
    {env : AttachEnv} {turns : ℕ} {name : List UInt8} {st : Stat} {x : OpenEnd}
    (henv : env.Honest)
    (hx : layoutOpen p r faults (attachSegment timeout region env turns name st m) (l.inst p) =
      some x) (hok : x.result = .ok ()) :
    Agrees m e ∧ (∀ g ∈ l.handles, g.CtrlMatches m) ∧
      List.Forall₂ (LayoutHandle.BoundTo p r l.slots) l.handles x.inst.objs := by
  obtain ⟨m', hm', hbound⟩ := h.open_ok hb hx hok
  obtain ⟨rfl, hatt⟩ := attachSegment_ok hm'
  obtain ⟨-, -, -, hcmp⟩ := attachResult_ok henv hatt
  have hagrees : Agrees m' e := by
    rcases exec_compareExpect m' (h.builtExpect hb).counted.1 with ⟨-, ha⟩ | ⟨hne, -⟩
    · exact ha
    · rw [hne] at hcmp
      exact nomatch hcmp
  exact ⟨hagrees, hbound hagrees.header⟩

end All

end PosixIpc
