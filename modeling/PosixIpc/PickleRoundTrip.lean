/-
# Pickling a handle and rebuilding it

The tuple of `__reduce__` carries a slot, a kind and a digest, and for a queue its geometry; the
rest comes back from the directory: the number of a Semaphore, a Barrier or a Condition from the
upper half of the flags, and the bytes from the offsets and sizes.

* `HandleObj.SameOn` : a handle like another, on the same bytes through another mapping;
* `keeps_bindObj_closed` : a handle that is bound is open, so that it can be pickled;
* `newHandle_boundTo` : a new handle of the class of `g` is bound to the slots of `g`;
* `tuple_rebuilt` : the tuple of a handle is rebuilt, class by class;
* `pickle_round_trip` : the handles of a layout that was created, in a segment in use.
-/
import PosixIpc.QueueGeometry

namespace PosixIpc

open StoreProg TracedCall Word32

/-! ## The same handle in another mapping -/

/-- The same bytes in region `r`. -/
def Ptr.inRegion (r : ℕ) (ptr : Ptr) : Ptr := { ptr with region := r }

/-- The same view in region `r`. -/
def RingView.inRegion (r : ℕ) (v : RingView) : RingView := { v with region := r }

/-- `o'` is an open handle like `o`, bound to the same bytes through region `r`. -/
structure HandleObj.SameOn (r : ℕ) (o o' : HandleObj) : Prop where
  type : o'.handle.type = o.handle.type
  slot : o'.handle.slot = o.handle.slot
  /-- The kind, the flags, the offset and the size of the slot. -/
  record : o.handle.HasRecord → o'.handle.record = o.handle.record
  bound : o'.bound = true
  closed : o'.closed = false
  region : o'.region = some r
  ptrs : ∀ i < o.handle.ptrCount, ∃ ptr, o.ptrs i = some ptr ∧ o'.ptrs i = some (ptr.inRegion r)
  view : ¬ o.handle.HasRecord → ∃ v, o.view = some v ∧ o'.view = some (v.inRegion r)
  condFlags : ∀ d n, o.handle.type = .queue d n → o'.condFlags = o.condFlags

/-- The view of a queue does not depend on where the segment is mapped. -/
theorem LayoutHandle.ringView_region {p : Platform} {r r' : ℕ} {slots : List Slot}
    {g : LayoutHandle} {v : RingView} (h : g.ringView p r slots = .ok v) :
    g.ringView p r' slots = .ok (v.inRegion r') := by
  unfold LayoutHandle.ringView at *
  cases hty : g.type with
  | queue d n =>
    rw [hty] at h
    unfold queueView Slot.ptr at *
    simp only at h ⊢
    cases hmap : posixipcQueueMap p.cacheline (some (slots.getD (g.slot + 4) default).offset)
        (slots.getD (g.slot + 4) default).size d n with
    | error rc =>
      rw [hmap] at h
      exact nomatch h
    | ok w =>
      rw [hmap] at h
      rw [← Except.ok.inj h]
      rfl
  | futexQueue d n =>
    rw [hty] at h
    unfold futexqView Slot.ptr at *
    simp only at h ⊢
    cases hmap : posixipcFutexqMap p.cacheline (some (slots.getD (g.slot + 2) default).offset)
        (slots.getD (g.slot + 2) default).size d n with
    | error rc =>
      rw [hmap] at h
      exact nomatch h
    | ok w =>
      rw [hmap] at h
      rw [← Except.ok.inj h]
      rfl
  | _ =>
    rw [hty] at h
    exact nomatch h

/-- Two objects of one handle, each bound through its own mapping. -/
theorem LayoutHandle.BoundTo.sameOn {p : Platform} {r r' : ℕ} {slots : List Slot}
    {g : LayoutHandle} {o o' : HandleObj} (h : g.BoundTo p r slots o)
    (h' : g.BoundTo p r' slots o') (hopen : o'.closed = false) : o.SameOn r' o' := by
  have hhas : o.handle.HasRecord ↔ g.HasRecord := by
    unfold LayoutHandle.HasRecord
    rw [h.type]
  have hcount : o.handle.ptrCount = g.ptrCount := by
    unfold LayoutHandle.ptrCount
    rw [h.type]
  refine ⟨h'.type.trans h.type.symm, h'.slot.trans h.slot.symm, fun hr => ?_, h'.bound, hopen,
    h'.region, fun i hi => ?_, fun hn => ?_, fun d n hd => ?_⟩
  · rw [h'.record (hhas.mp hr), h.record (hhas.mp hr)]
  · rw [hcount] at hi
    exact ⟨_, h.ptrs i hi, h'.ptrs i hi⟩
  · obtain ⟨v, hv, hov⟩ := h.view fun hr => hn (hhas.mpr hr)
    obtain ⟨v', hv', hov'⟩ := h'.view fun hr => hn (hhas.mpr hr)
    rw [LayoutHandle.ringView_region hv] at hv'
    exact ⟨v, hov, by rw [hov', Except.ok.inj hv']⟩
  · rw [h.type] at hd
    rw [h'.condFlags d n hd, h.condFlags d n hd]

/-! ## A bound handle is open -/

section Open

open Call

variable {p : Platform} {m : SegMem} {r : ℕ} {faults : BindFaults} {slots : ℕ → BindCall Slot}
  {recs : ℕ → Slot}

/-- A write to the other fields. -/
theorem keeps_setObj_closed {f : HandleObj → HandleObj} (h : ∀ o, (f o).closed = o.closed) :
    Keeps (fun st => st.obj.closed = false) (setObj f) :=
  keeps_setObj fun st hst => (h st.obj).trans hst

theorem keeps_bindSlot_closed (hsrc : Source slots recs) {keep : Bool}
    {type : Slot → HandleType → HandleType} {index : ℕ} :
    Keeps (fun st => st.obj.closed = false) (bindSlot m r faults slots keep type index) := by
  unfold bindSlot
  refine (keeps_slots hsrc _ _).bind fun s => (keeps_shmOffsetPtr _ s).bind fun ptr => ?_
  exact Keeps.bind (keeps_shmobjPin fun st hst => hst) fun _ => keeps_setObj_closed fun o => rfl

theorem keeps_arrayLocks (hsrc : Source slots recs) (P : BindState → Prop) (kind first i n : ℕ) :
    Keeps P (arrayLocks m r slots kind first i n) := by
  induction n generalizing i with
  | zero => exact keeps_pure P _
  | succ n ih =>
    rw [arrayLocks]
    refine (keeps_slots hsrc P _).bind fun s => ?_
    split_ifs
    · exact keeps_raise P _
    · exact (keeps_shmOffsetPtr P s).bind fun ptr => (ih (i + 1)).bind fun rest => keeps_pure P _

theorem keeps_mutexarrayBind_closed (hsrc : Source slots recs) {first count : ℕ} :
    Keeps (fun st => st.obj.closed = false)
      (posixipcMutexarrayBind m r faults slots first count) := by
  unfold posixipcMutexarrayBind
  refine Keeps.bind (fun st hst => hst) fun o => ?_
  split_ifs
  · exact keeps_raise _ _
  · exact keeps_raise _ _
  · refine (keeps_arrayLocks hsrc _ _ _ _ _).bind fun locks => ?_
    refine Keeps.bind (keeps_shmobjPin fun st hst => hst) fun _ => ?_
    exact (keeps_slots hsrc _ _).bind fun s => keeps_setObj_closed fun o => rfl

theorem keeps_ringBind_closed (hsrc : Source slots recs) {front : List ℕ}
    {view : Ptr → Except Rc RingView} {depth itemSize first : ℕ} {kindText ctrlText : String}
    {condFlags : BindCall Unit} (hcond : Keeps (fun st => st.obj.closed = false) condFlags) :
    Keeps (fun st => st.obj.closed = false) (ringBind m r faults slots front view depth itemSize
      kindText ctrlText condFlags first) := by
  unfold ringBind
  refine (keeps_checkKinds hsrc _ _ _ _ _).bind fun _ => ?_
  refine Keeps.bind (keeps_storeFront hsrc _ fun st j ptr _ hst => hst) fun _ => ?_
  refine (keeps_slots hsrc _ _).bind fun s => (keeps_shmOffsetPtr _ s).bind fun ptr => ?_
  exact keeps_finishRing (fun st o _ ho hst => ho.trans hst) (fun st hst => hst) hcond

/-- **No bind closes the handle.** -/
theorem keeps_bindObj_closed (hsrc : Source slots recs) :
    Keeps (fun st => st.obj.closed = false) (bindObj p m r faults slots) := by
  unfold bindObj
  refine Keeps.bind (fun st hst => hst) fun o => ?_
  split
  · exact keeps_mutexarrayBind_closed hsrc
  · exact keeps_bindSlot_closed hsrc
  · exact keeps_bindSlot_closed hsrc
  · exact keeps_bindSlot_closed hsrc
  · exact keeps_bindSlot_closed hsrc
  · exact keeps_bindSlot_closed hsrc
  · exact keeps_bindSlot_closed hsrc
  · exact keeps_bindSlot_closed hsrc
  · exact keeps_bindSlot_closed hsrc
  · refine keeps_ringBind_closed hsrc ?_
    exact (keeps_slots hsrc _ _).bind fun s => keeps_setObj_closed fun o => rfl
  · exact keeps_ringBind_closed hsrc (keeps_pure _ _)

end Open

/-! ## The classes of the handles -/

/-- The platform has the class, and its numbers are positive. -/
def HandleType.Valid (p : Platform) : HandleType → Prop
  | .barrier _ => p.haveBarrier = true
  | .spinLock => p.haveSpinTrylock = true
  | .mutexArray count => count ≠ 0
  | .queue depth itemSize => depth ≠ 0 ∧ itemSize ≠ 0
  | .futexQueue depth itemSize => depth ≠ 0 ∧ itemSize ≠ 0
  | _ => True

/-- A futex queue of some size has a ring. -/
theorem posixipcFutexqBytesSize_ring {cacheline depth itemSize : ℕ}
    (h : posixipcFutexqBytesSize cacheline depth itemSize ≠ 0) :
    posixipcQueueBytesSize cacheline depth itemSize ≠ 0 := by
  intro h0
  unfold posixipcFutexqBytesSize at h
  simp only at h
  rw [if_pos (Or.inr h0)] at h
  exact h rfl

theorem SlotRequest.valid {p : Platform} {l : LayoutObj} {g : LayoutHandle} {blk : List Slot}
    (h : SlotRequest p l g blk) : g.type.Valid p := by
  cases h with
  | one hone =>
    cases hone with
    | barrier hb _ => exact hb
    | spinLock hs => exact hs
    | _ => trivial
  | bytes _ => trivial
  | array _ hcount => exact hcount
  | queue _ _ hne _ =>
    obtain ⟨hd, hn, -⟩ := posixipcQueueBytesSize_ne_zero hne
    exact ⟨by omega, by omega⟩
  | futexQueue _ _ hne _ =>
    obtain ⟨hd, hn, -⟩ := posixipcQueueBytesSize_ne_zero (posixipcFutexqBytesSize_ring hne)
    exact ⟨by omega, by omega⟩

/-- The adds make handles of valid classes only. -/
theorem Added.valid {p : Platform} {l : LayoutObj} (h : Added p l) :
    ∀ g ∈ l.handles, g.type.Valid p := by
  have hkeys : ∀ key ∈ l.keys, key.1.Valid p := by
    induction h with
    | empty => simp [LayoutObj.keys, LayoutObj.empty]
    | step hl hadd ih =>
      obtain ⟨g, blk, -, happ⟩ := apply_ok hadd
      rw [(happ.keys hl.inv).1]
      intro key hkey
      rcases List.mem_append.mp hkey with hkey | hkey
      · exact ih key hkey
      · rw [List.mem_singleton.mp hkey]
        exact happ.request.valid
  exact fun g hg => hkeys (g.type, g.slot) (List.mem_map_of_mem hg)

/-! ## Rebuilding -/

section Rebuild

open Call

variable {p : Platform} {l : LayoutObj} {m : SegMem} {r : ℕ} {g k : LayoutHandle}
  {st : BindState}

/-- The segment has the directory and the control words of the layout. -/
structure LayoutObj.InSegment (p : Platform) (l : LayoutObj) (m : SegMem) : Prop where
  added : Added p l
  fits : ∀ s ∈ l.slots, s.Fits m
  records : AgreesWith (recordAt m) l.slots
  slotCount : m (.header .slotCount) = l.nslots
  ctrl : ∀ g ∈ l.handles, g.CtrlMatches m

/-- **A new handle of the class of `g` is bound to the slots of `g`**, and the call goes on. -/
theorem newHandle_boundTo (h : l.InSegment p m) (hg : g ∈ l.handles) (htype : k.type = g.type)
    (hslot : k.slot = g.slot)
    (hkind : ∀ count, g.type = .mutexArray count → k.record.kind = g.record.kind)
    {bind : BindCall Unit}
    (hbind : ∀ st', Returns (bindObj p m r noFaults (dirRecord m))
      ⟨HandleObj.unbound p k, st.pins⟩ st' () →
      Returns bind ⟨HandleObj.unbound p k, st.pins⟩ st' ()) :
    ∃ o, (∀ {α : Type} (c : BindCall α) (st' : BindState) (a : α),
        Returns (do newHandle p false k; bind; c) st st' a ↔ Returns c ⟨o, st.pins + 1⟩ st' a) ∧
      g.BoundTo p r l.slots o ∧ o.closed = false := by
  have hsrc := source_dirRecord m
  have hfound : ∃ o, Returns (bindObj p m r noFaults (dirRecord m))
      ⟨HandleObj.unbound p k, st.pins⟩ ⟨o, st.pins + 1⟩ () ∧ g.BoundTo p r l.slots o :=
    bindObj_returns h.added h.fits hsrc h.records hg htype hslot hkind (h.ctrl g hg)
      (fun _ _ => rfl) rfl
  obtain ⟨o, ho, hbound⟩ := hfound
  have hnew : Returns (newHandle p false k) st ⟨HandleObj.unbound p k, st.pins⟩ () := ⟨[], rfl⟩
  refine ⟨o, fun c st' a => ?_, hbound, (keeps_bindObj_closed hsrc).returns rfl ho⟩
  rw [hnew.bind_iff, (hbind _ ho).bind_iff]

/-- A handle of one slot: its record in the directory. -/
theorem LayoutObj.InSegment.record (h : l.InSegment p m) {s : Slot}
    (hblk : l.slots[g.slot]? = some s) :
    recordAt m g.slot = s ∧ l.slots.getD g.slot default = s := by
  obtain ⟨h1, h2, -⟩ := recs_block h.added h.records hblk
  rw [u32_slot h.added (List.getElem?_eq_some_iff.mp hblk).1] at h1
  exact ⟨h1, h2⟩

end Rebuild

/-! ## The four functions -/

section Functions

open Call

variable {p : Platform} {l : LayoutObj} {m : SegMem} {r : ℕ} {g : LayoutHandle}
  {st : BindState}

/-- The mutex handle that comes back with a Condition: that of a mutex of the layout. -/
def LayoutHandle.HandsBack (p : Platform) (r : ℕ) (l : LayoutObj) (g : LayoutHandle)
    (mutex : Option HandleObj) : Prop :=
  ∀ index, g.type = .condition index → ∃ k ∈ l.handles, k.slot = index ∧
    (k.type = .mutex ∨ k.type = .robustMutex) ∧
    ∃ o, mutex = some o ∧ k.BoundTo p r l.slots o ∧ o.closed = false

/-- The call leaves an open handle on the slots of `g`. -/
def LayoutHandle.RebuiltBy (p : Platform) (r : ℕ) (l : LayoutObj) (g : LayoutHandle)
    (st : BindState) (c : BindCall (Option HandleObj)) : Prop :=
  ∃ o pins mutex, Returns c st ⟨o, pins⟩ mutex ∧ g.BoundTo p r l.slots o ∧ o.closed = false ∧
    g.HandsBack p r l mutex

/-- The classes of one slot. -/
def HandleType.IsSingle : HandleType → Prop
  | .mutexArray _ => False
  | .queue _ _ => False
  | .futexQueue _ _ => False
  | _ => True

/-- The record of a handle of one slot has the kind of its class, and its number. -/
theorem LayoutObj.InSegment.single (h : l.InSegment p m) (hg : g ∈ l.handles)
    (hsingle : g.type.IsSingle) :
    g.slot < l.nslots ∧ (recordAt m g.slot).kind = g.type.slotKind ∧
      (∀ n, g.type.param = some n → (recordAt m g.slot).aux = n) ∧
      l.slots.getD g.slot default = recordAt m g.slot := by
  obtain ⟨blk, hserves, -, -, hpos⟩ := h.added.block hg
  have hone : ∃ s, blk = [s] ∧ s.kind = g.type.slotKind ∧
      (∀ n, g.type.param = some n → s.aux = n) := by
    unfold LayoutHandle.Serves at hserves
    cases hty : g.type with
    | mutexArray count => exact absurd hsingle (by rw [hty]; exact id)
    | queue d n => exact absurd hsingle (by rw [hty]; exact id)
    | futexQueue d n => exact absurd hsingle (by rw [hty]; exact id)
    | _ =>
      rw [hty] at hserves
      obtain ⟨s, hblk, hkind, haux, -⟩ := hserves
      exact ⟨s, hblk, hkind, haux⟩
  obtain ⟨s, hblk, hkind, haux⟩ := hone
  have hget : l.slots[g.slot]? = some s := hpos 0 s (by rw [hblk]; rfl)
  obtain ⟨hrec, hgetD⟩ := h.record hget
  refine ⟨(List.getElem?_eq_some_iff.mp hget).1, ?_, ?_, ?_⟩ <;> rw [hrec]
  · exact hkind
  · exact haux
  · exact hgetD

/-- A rebuild that ends without a mutex handle. -/
theorem rebuiltBy_handle (h : l.InSegment p m) (hg : g ∈ l.handles) {k : LayoutHandle}
    (htype : k.type = g.type) (hslot : k.slot = g.slot)
    (hkind : ∀ count, g.type = .mutexArray count → k.record.kind = g.record.kind)
    (hno : ∀ index, g.type ≠ .condition index) {bind : BindCall Unit}
    (hbind : ∀ st', Returns (bindObj p m r noFaults (dirRecord m))
      ⟨HandleObj.unbound p k, st.pins⟩ st' () →
      Returns bind ⟨HandleObj.unbound p k, st.pins⟩ st' ()) :
    g.RebuiltBy p r l st (rebuildHandle p .none k bind) := by
  obtain ⟨o, hrest, hbound, hopen⟩ := newHandle_boundTo h hg htype hslot hkind hbind
  exact ⟨o, _, none, (hrest _ _ _).mpr ⟨[], rfl⟩, hbound, hopen,
    fun index hi => absurd hi (hno index)⟩

/-- The branch for a Condition: its mutex is bound first. -/
theorem rebuildCondition_rebuilt (h : l.InSegment p m) (hg : g ∈ l.handles) {index : ℕ}
    (hty : g.type = .condition index) :
    g.RebuiltBy p r l st (rebuildCondition p m r .none g.slot (recordAt m g.slot)) := by
  have hsrc := source_dirRecord m
  obtain ⟨-, -, haux, -⟩ := h.single hg (by rw [hty]; trivial)
  obtain ⟨k, hk, hslot, hmutex⟩ := h.added.inv.mutexes g hg index hty
  obtain ⟨hlt, hkind, -, -⟩ := h.single hk (by rcases hmutex with hm | hm <;> rw [hm] <;> trivial)
  rw [hslot] at hlt hkind
  have hlt' : ¬ index ≥ m (.header .slotCount) := by
    rw [h.slotCount]
    omega
  have hcode : (recordAt m index).kind = kindMutex ∧ k.type = .mutex ∨
      (recordAt m index).kind = kindRobustMutex ∧ k.type = .robustMutex := by
    rcases hmutex with hm | hm <;> rw [hm] at hkind
    · exact Or.inl ⟨hkind, hm⟩
    · exact Or.inr ⟨hkind, hm⟩
  have hclass : mutexType (recordAt m index).kind = k.type := by
    rcases hcode with ⟨hc, hm⟩ | ⟨hc, hm⟩ <;> rw [hc, hm] <;> rfl
  -- the mutex
  have hfoundM : ∃ o, (∀ {α : Type} (c : BindCall α) (st' : BindState) (a : α),
      Returns (do
        newHandle p false (LayoutHandle.newUnbound p (mutexType (recordAt m index).kind)
          (recordAt m index).kind (recordAt m index).initFlags index)
        posixipcMutexBind m r noFaults (dirRecord m) index
        c) st st' a ↔ Returns c ⟨o, st.pins + 1⟩ st' a) ∧
      k.BoundTo p r l.slots o ∧ o.closed = false := by
    refine newHandle_boundTo h hk hclass hslot.symm (fun count hc => ?_) fun st' hret => ?_
    · rcases hmutex with hm | hm <;> rw [hm] at hc <;> exact nomatch hc
    · unfold bindObj at hret
      rw [(look_returns _).bind_iff] at hret
      rcases hcode with ⟨hc, -⟩ | ⟨hc, -⟩ <;> rw [hc] at hret ⊢ <;> exact hret
  obtain ⟨μ, hrestM, hboundM, hopenM⟩ := hfoundM
  -- the Condition
  have hfound : ∃ o, (∀ {α : Type} (c : BindCall α) (st' : BindState) (a : α),
      Returns (do
        newHandle p false (LayoutHandle.newUnbound p (.condition index) kindCond
          (recordAt m g.slot).initFlags g.slot)
        posixipcCondBind m r noFaults (dirRecord m) g.slot
        c) ⟨μ, st.pins + 1⟩ st' a ↔ Returns c ⟨o, st.pins + 1 + 1⟩ st' a) ∧
      g.BoundTo p r l.slots o ∧ o.closed = false := by
    refine newHandle_boundTo h hg (by rw [hty]; rfl) (by rfl) (fun count hc => ?_)
      fun st' hret => ?_
    · rw [hty] at hc
      exact nomatch hc
    · exact ((look_returns _).bind_iff _).mp hret
  obtain ⟨o, hrest, hbound, hopen⟩ := hfound
  refine ⟨o, st.pins + 1 + 1, some μ, ?_, hbound, hopen, fun index' hi => ?_⟩
  · unfold rebuildCondition
    simp only
    rw [haux index (by rw [hty]; rfl), if_neg hlt', (hsrc index st).bind_iff,
      if_neg (by rcases hcode with ⟨hc, -⟩ | ⟨hc, -⟩ <;> simp [hc])]
    refine (hrestM _ _ _).mpr ?_
    rw [(look_returns _).bind_iff]
    exact (hrest _ _ _).mpr ⟨[], rfl⟩
  · rw [hty] at hi
    obtain rfl := HandleType.condition.inj hi
    exact ⟨k, hk, hslot, hmutex, μ, rfl, hboundM, hopenM⟩

/-- The branches of `_attach_slot`. -/
theorem rebuildKind_rebuilt (h : l.InSegment p m) (hg : g ∈ l.handles)
    (hsingle : g.type.IsSingle) :
    g.RebuiltBy p r l st
      (rebuildKind p m r .none g.slot g.type.slotKind (recordAt m g.slot)) := by
  obtain ⟨-, -, haux, -⟩ := h.single hg hsingle
  have hvalid := h.added.valid g hg
  have hbind : ∀ {k : LayoutHandle} {f : HandleObj → BindCall Unit} {st' : BindState},
      Returns (Call.look (fun st => st.obj) >>= f) ⟨HandleObj.unbound p k, st.pins⟩ st' () →
      Returns (f (HandleObj.unbound p k)) ⟨HandleObj.unbound p k, st.pins⟩ st' () :=
    fun hret => ((look_returns _).bind_iff _).mp hret
  have hnone : ∀ {type : HandleType}, g.type = type → (∀ count, type ≠ .mutexArray count) →
      ∀ {kind : ℕ}, ∀ count, g.type = .mutexArray count → kind = g.record.kind :=
    fun ht hno _ count hc => absurd (ht ▸ hc) (hno count)
  unfold rebuildKind
  cases hty : g.type with
  | mutexArray count => exact absurd hsingle (by rw [hty]; exact id)
  | queue d n => exact absurd hsingle (by rw [hty]; exact id)
  | futexQueue d n => exact absurd hsingle (by rw [hty]; exact id)
  | condition index => exact rebuildCondition_rebuilt h hg hty
  | mutex =>
    refine rebuiltBy_handle h hg (by rw [hty]; rfl) (by rfl) (hnone hty (by simp)) (by simp [hty])
      fun st' hret => hbind hret
  | robustMutex =>
    refine rebuiltBy_handle h hg (by rw [hty]; rfl) (by rfl) (hnone hty (by simp)) (by simp [hty])
      fun st' hret => hbind hret
  | sharedBytes =>
    refine rebuiltBy_handle h hg (by rw [hty]; rfl) (by rfl) (hnone hty (by simp)) (by simp [hty])
      fun st' hret => hbind hret
  | rwlock =>
    refine rebuiltBy_handle h hg (by rw [hty]; rfl) (by rfl) (hnone hty (by simp)) (by simp [hty])
      fun st' hret => hbind hret
  | semaphore n =>
    refine rebuiltBy_handle h hg (by rw [hty, ← haux n (by rw [hty]; rfl)]; rfl) (by rfl)
      (hnone hty (by simp)) (by simp [hty]) fun st' hret => hbind hret
  | barrier n =>
    rw [hty] at hvalid
    rw [show HandleType.slotKind (.barrier n) = kindBarrier from rfl, if_neg (by decide),
      if_neg (by decide), if_neg (by decide), if_neg (by decide), if_neg (by decide),
      if_pos ⟨rfl, hvalid⟩]
    refine rebuiltBy_handle h hg (by rw [hty, ← haux n (by rw [hty]; rfl)]; rfl) (by rfl)
      (hnone hty (by simp)) (by simp [hty]) fun st' hret => hbind hret
  | spinLock =>
    rw [hty] at hvalid
    rw [show HandleType.slotKind .spinLock = kindSpin from rfl, if_neg (by decide),
      if_neg (by decide), if_neg (by decide), if_neg (by decide), if_neg (by decide),
      if_neg (fun hc => absurd hc.1 (by decide)), if_pos ⟨rfl, hvalid⟩]
    refine rebuiltBy_handle h hg (by rw [hty]; rfl) (by rfl) (hnone hty (by simp)) (by simp [hty])
      fun st' hret => hbind hret

/-- `_attach_slot`. -/
theorem modAttachSlot_rebuilt (h : l.InSegment p m) (hg : g ∈ l.handles)
    (hsingle : g.type.IsSingle) :
    g.RebuiltBy p r l st (modAttachSlot p m r .none g.slot (l.slots.getD g.slot default).kind
      (m (.header .layoutDigest))) := by
  have hsrc := source_dirRecord m
  obtain ⟨hlt, hkind, -, hget⟩ := h.single hg hsingle
  have hcount := h.slotCount
  have hbranch : g.RebuiltBy p r l st
      (rebuildKind p m r .none g.slot g.type.slotKind (recordAt m g.slot)) :=
    rebuildKind_rebuilt h hg hsingle
  obtain ⟨o, pins, mutex, hret, hrest⟩ := hbranch
  have hregion : Returns (shmobjFromCore .none) st st () := ⟨[], rfl⟩
  refine ⟨o, pins, mutex, ?_, hrest⟩
  unfold modAttachSlot
  rw [if_neg (by omega), if_neg (by omega), (hsrc g.slot st).bind_iff, hget,
    if_neg (not_not.mpr rfl), hregion.bind_iff, hkind]
  exact hret

/-- `_attach_array`. -/
theorem modAttachArray_rebuilt (h : l.InSegment p m) (hg : g ∈ l.handles) {count : ℕ}
    (hty : g.type = .mutexArray count) :
    g.RebuiltBy p r l st (modAttachArray p m r .none g.slot count
      (l.slots.getD g.slot default).kind (m (.header .layoutDigest))) := by
  have hsrc := source_dirRecord m
  obtain ⟨blk, hserves, -, hend, hpos⟩ := h.added.block hg
  unfold LayoutHandle.Serves at hserves
  unfold LayoutHandle.count at hend
  rw [hty] at hserves hend
  obtain ⟨hlen, -, hkinds⟩ := hserves
  have hend : g.slot + count ≤ l.nslots := hend
  have hne : count ≠ 0 := by
    have := h.added.valid g hg
    rwa [hty] at this
  have hcount := h.slotCount
  have hnslots := h.added.inv.count
  -- the records of the block
  have hat : ∀ j < count, (recordAt m (u32 (g.slot + j))).kind = g.record.kind := by
    intro j hj
    have hlt : j < blk.length := by omega
    obtain ⟨h1, -, -⟩ := recs_block h.added h.records (hpos j _ (List.getElem?_eq_getElem hlt))
    rw [h1]
    exact hkinds _ (List.getElem_mem hlt)
  have hget : l.slots.getD g.slot default = recordAt m g.slot := (h.records _ (by
    show g.slot < l.nslots
    omega)).symm
  have hfirst : (recordAt m g.slot).kind = g.record.kind := by
    have := hat 0 (by omega)
    rwa [Nat.add_zero, u32_of_lt (by omega)] at this
  have hall : KindsAt (recordAt m) g.slot 0 (List.replicate count g.record.kind) := by
    intro j kind hj
    rw [List.getElem?_replicate] at hj
    by_cases hlt : j < count
    · rw [if_pos hlt] at hj
      rw [Nat.zero_add, ← Option.some.inj hj]
      exact hat j hlt
    · rw [if_neg hlt] at hj
      exact nomatch hj
  have hregion : Returns (shmobjFromCore .none) st st () := ⟨[], rfl⟩
  have hend' : g.RebuiltBy p r l st (rebuildHandle p .none
      (LayoutHandle.newUnbound p (.mutexArray count) g.record.kind
        (recordAt m g.slot).initFlags g.slot)
      (posixipcMutexarrayBind m r noFaults (dirRecord m) g.slot count)) :=
    rebuiltBy_handle h hg (by rw [hty]; rfl) (by rfl) (fun _ _ => by rfl) (by simp [hty])
      fun st' hret => ((look_returns _).bind_iff _).mp hret
  obtain ⟨o, pins, mutex, hret, hrest⟩ := hend'
  refine ⟨o, pins, mutex, ?_, hrest⟩
  unfold modAttachArray
  rw [hget, hfirst, if_neg (by rw [u32_of_lt (by omega)]; omega), if_neg (by omega),
    (checkKinds_returns hsrc hall).bind_iff, hregion.bind_iff, (hsrc g.slot st).bind_iff]
  exact hret

/-- What `_attach_queue` and `_attach_futex_queue` share. -/
theorem attachRing_rebuilt (h : l.InSegment p m) {front : List ℕ} {need : ℕ}
    {blk : List Slot} (hblk : RingBlock front need blk) (hlen : blk.length = front.length + 1)
    (hpos : ∀ j s, blk[j]? = some s → l.slots[g.slot + j]? = some s)
    (hend : g.slot + (front.length + 1) ≤ l.nslots) {view : Ptr → Except Rc RingView}
    (hview : need ≠ 0 → ∀ ptr : Ptr, need ≤ ptr.size → ∃ v, view ptr = .ok v)
    (spanText kindText sizeText : String) {k : LayoutHandle} {bind : BindCall Unit}
    (hbuilt : g.RebuiltBy p r l st (rebuildHandle p .none k bind)) :
    g.RebuiltBy p r l st (attachRing p m .none front need spanText kindText sizeText k bind g.slot
      (m (.header .layoutDigest))) := by
  have hsrc := source_dirRecord m
  have hcount := h.slotCount
  have hnslots := h.added.inv.count
  have hfits : ∃ v, view ((l.slots.getD (g.slot + front.length) default).ptr r) = .ok v ∧
      RingFits m r (recordAt m) g.slot front view v :=
    ringFits_of_block h.added h.fits h.records hblk hpos hview
  obtain ⟨v, -, hring⟩ := hfits
  obtain ⟨fs, ring, rfl, -, -, -, hne, hle⟩ := hblk
  have hrecord : recordAt m (u32 (g.slot + front.length)) = ring := by
    have hfs : fs.length = front.length := by simpa using hlen
    exact (recs_block h.added h.records (hpos front.length ring (by rw [← hfs]; simp))).1
  have hregion : Returns (shmobjFromCore .none) st st () := ⟨[], rfl⟩
  obtain ⟨o, pins, mutex, hret, hrest⟩ := hbuilt
  refine ⟨o, pins, mutex, ?_, hrest⟩
  unfold attachRing
  rw [if_neg (by rw [u32_of_lt (by omega)]; omega), if_neg (by omega),
    (checkKinds_returns hsrc hring.kinds).bind_iff, (hsrc _ st).bind_iff, hrecord,
    if_neg (by omega), hregion.bind_iff]
  exact hret

/-! ## The tuples -/

/-- The tuple of a handle whose slots are in a directory. -/
def LayoutHandle.tuple (slots : List Slot) (digest : ℕ) (g : LayoutHandle) : Pickled :=
  match g.type with
  | .mutexArray count => .array g.slot count (slots.getD g.slot default).kind digest
  | .queue depth itemSize => .queue g.slot depth itemSize digest
  | .futexQueue depth itemSize => .futexQueue g.slot depth itemSize digest
  | _ => .slot g.slot (slots.getD g.slot default).kind digest

/-- `__reduce__` of a handle that is bound and open. -/
theorem LayoutHandle.BoundTo.reduce {o : HandleObj} (h : g.BoundTo p r l.slots o)
    (hopen : o.closed = false) (digest : ℕ) :
    o.reduce (some digest) = .ok (g.tuple l.slots digest) := by
  have hrecord := h.record
  unfold LayoutHandle.HasRecord at hrecord
  unfold HandleObj.reduce LayoutHandle.tuple
  rw [if_neg (by simp [hopen]), if_neg (by simp [h.bound, h.region]), h.type, h.slot]
  cases hty : g.type with
  | queue d n => rfl
  | futexQueue d n => rfl
  | _ => rw [hrecord (by simp [hty])]

/-- The arguments of a tuple are accepted. -/
theorem LayoutHandle.tuple_argError (h : Added p l) (hg : g ∈ l.handles) (digest : ℕ) :
    (g.tuple l.slots digest).argError = none := by
  have hvalid := h.valid g hg
  unfold LayoutHandle.tuple
  cases hty : g.type with
  | mutexArray count =>
    rw [hty] at hvalid
    exact if_neg (by unfold HandleType.Valid at hvalid; omega)
  | queue d n =>
    rw [hty] at hvalid
    exact if_neg (by unfold HandleType.Valid at hvalid; omega)
  | futexQueue d n =>
    rw [hty] at hvalid
    exact if_neg (by unfold HandleType.Valid at hvalid; omega)
  | _ => rfl

/-- **The tuple of every handle is rebuilt.** -/
theorem tuple_rebuilt (h : l.InSegment p m) (hg : g ∈ l.handles) :
    g.RebuiltBy p r l st
      ((g.tuple l.slots (m (.header .layoutDigest))).rebuild p m r .none) := by
  obtain ⟨blk, hserves, hlen, hend, hpos⟩ := h.added.block hg
  unfold LayoutHandle.Serves at hserves
  unfold LayoutHandle.count at hlen hend
  unfold LayoutHandle.tuple
  cases hty : g.type with
  | mutexArray count => exact modAttachArray_rebuilt h hg hty
  | queue d n =>
    rw [hty] at hserves hlen hend
    refine attachRing_rebuilt h hserves hlen hpos hend
      (fun hn ptr hle => queueView_ok hn hle) _ _ _ ?_
    refine rebuiltBy_handle h hg (by rw [hty]; rfl) (by rfl) (by simp [hty]) (by simp [hty])
      fun st' hret => ((look_returns _).bind_iff _).mp hret
  | futexQueue d n =>
    rw [hty] at hserves hlen hend
    refine attachRing_rebuilt h hserves hlen hpos hend
      (fun hn ptr hle => futexqView_ok hn hle) _ _ _ ?_
    refine rebuiltBy_handle h hg (by rw [hty]; rfl) (by rfl) (by simp [hty]) (by simp [hty])
      fun st' hret => ((look_returns _).bind_iff _).mp hret
  | _ => exact modAttachSlot_rebuilt h hg (by rw [hty]; trivial)

end Functions

/-! ## The handles of a created layout -/

section Created

open Call

variable {p : Platform} {l : LayoutObj} {ops : List AddOp}

/-- A Condition and the mutex that it was added with, by their positions. -/
theorem Adds.condition_at {j i : ℕ} {a : AddArgs} (h : Adds p .empty ops l)
    (hj : ops[j]? = some (.add a)) (hkind : a.kind = .condition)
    (hmutex : a.mutex = some (.handle i)) :
    ∃ g k, l.handles[j]? = some g ∧ l.handles[i]? = some k ∧ g.type = .condition k.slot := by
  obtain ⟨hlt, hget⟩ := List.getElem?_eq_some_iff.mp hj
  have hsplit : ops = ops.take j ++ .add a :: ops.drop (j + 1) := by
    rw [← hget, List.getElem_cons_drop, List.take_append_drop]
  have hlen : (ops.take j).length = j := by
    rw [List.length_take]
    omega
  rw [hsplit] at h
  obtain ⟨l₁, l₂, f, hfront, hadd, ⟨rest, hprefix⟩, hat⟩ := h.handle_at
  rw [hlen] at hat
  obtain ⟨g₀, blk, hreq, happ⟩ := apply_ok hadd
  simp only [AddOp.request, AddArgs.request, hkind, hmutex] at hreq
  obtain ⟨index, hindex, hg₀⟩ := Option.map_eq_some_iff.mp hreq
  have htype : g₀.type = .condition index := by
    rw [← (Prod.mk.inj hg₀).1]
    rfl
  obtain ⟨g, hg, hgkey⟩ := hat _ (happ.keys (hfront.added .empty).inv).1
  -- the mutex stands in front
  rw [mutexIndex_eq] at hindex
  unfold keyIndex at hindex
  cases hkey : l₁.keys[i]? with
  | none =>
    rw [hkey] at hindex
    cases hindex
  | some key =>
    rw [hkey] at hindex
    have hslot : key.2 = index := by
      by_cases hm : key.1 = .mutex ∨ key.1 = .robustMutex
      · exact Option.some.inj (by simpa [hm] using hindex)
      · simp [hm] at hindex
    have hkey' : l.keys[i]? = some key := by
      rw [← hprefix, List.getElem?_append_left (List.getElem?_eq_some_iff.mp hkey).1, hkey]
    unfold LayoutObj.keys at hkey'
    rw [List.getElem?_map] at hkey'
    obtain ⟨k, hk, rfl⟩ := Option.map_eq_some_iff.mp hkey'
    refine ⟨g, k, hg, hk, ?_⟩
    rw [(Prod.mk.inj hgkey).1, htype, ← hslot]

/-- Two handles with one slot are one. -/
theorem Added.handle_unique (h : Added p l) {g g' : LayoutHandle} (hg : g ∈ l.handles)
    (hg' : g' ∈ l.handles) (hslot : g.slot = g'.slot) : g = g' := by
  have hc := h.count_ne hg
  have hc' := h.count_ne hg'
  exact h.inv.blocks.handle_unique hg hg' ⟨le_rfl, by omega⟩ ⟨hslot.ge, by omega⟩

/-- The objects of a layout that was created are bound and open. -/
theorem Added.created_at (h : Added p l) {e : Expect}
    (hb : posixipcLayoutBuild p l.slots = (l.slots, .ok e)) {fault : Option PyError} {r : ℕ}
    {faults : ℕ → BindFaults} {x : OpenEnd}
    (hx : layoutOpen p r faults (createSegment p fault (ringSpecs l.handles)) (l.inst p) = some x)
    (hok : x.result = .ok ()) {j : ℕ} {g : LayoutHandle} (hj : l.handles[j]? = some g) :
    ∃ o, x.inst.objs[j]? = some o ∧ g.BoundTo p r l.slots o ∧ o.closed = false := by
  obtain ⟨m, hm, hbound⟩ := h.open_ok hb hx hok
  obtain ⟨-, hagree, -⟩ := createSegment_content h hb hm
  obtain ⟨-, hall⟩ := hbound hagree.header
  obtain ⟨_, _, _, st, hret, hobj⟩ := h.opened_at hx hok hj
  obtain ⟨o, ho, hgo⟩ : ∃ o, x.inst.objs[j]? = some o ∧ g.BoundTo p r l.slots o := by
    obtain ⟨hlt, hget⟩ := List.getElem?_eq_some_iff.mp hj
    have hlt' : j < x.inst.objs.length := by
      rw [← hall.length_eq]
      exact hlt
    have hrel := hall.get hlt hlt'
    rw [List.get_eq_getElem, hget] at hrel
    exact ⟨_, List.getElem?_eq_getElem hlt', hrel⟩
  refine ⟨o, ho, hgo, ?_⟩
  rw [hobj] at ho
  rw [← Option.some.inj ho]
  exact (keeps_bindObj_closed (source_ownRecord l.slots)).returns rfl hret

end Created

/-- **Pickling a handle of a layout and rebuilding it.**  Adds build the layout, `create` binds
it, and the segment is in use, also between the pickling and the rebuild.  Then `__reduce__` of
every handle gives a tuple, and the call with it ends with an open handle of the same class and
slot, with the same numbers, bound to the same bytes through its own mapping; with a Condition
comes a handle like the mutex that it was added with. -/
theorem pickle_round_trip (p : Platform) {ops : List AddOp} {l : LayoutObj}
    (hl : Adds p .empty ops l) {fault : Option PyError} {r : ℕ} {faults : ℕ → BindFaults}
    {x : OpenEnd}
    (hx : layoutOpen p r faults (createSegment p fault (ringSpecs l.handles)) (l.inst p) = some x)
    (hok : x.result = .ok ()) {m₀ m₁ m₂ : SegMem}
    (hm₀ : (l.inst p).Mapped p (createSegment p fault (ringSpecs l.handles)) m₀)
    (h₁ : SegmentUse m₀ m₁) (h₂ : SegmentUse m₁ m₂) {j : ℕ} (hj : j < ops.length) :
    ∃ o t, x.inst.objs[j]? = some o ∧ o.reduce (some (m₁ (.header .layoutDigest))) = .ok t ∧
      ∀ (r' : ℕ) (env : AttachEnv) (turns : ℕ) (name : List UInt8) (st : Stat),
        m₂ (.header .totalSize) ≤ st.size → Undisturbed env turns name st →
        ∃ fin mutex, attachPickled p m₂ r' .none env turns name st t = some fin ∧
          fin.result = .ok mutex ∧ o.SameOn r' fin.state.obj ∧
          ∀ a i, ops[j]? = some (.add a) → a.kind = .condition → a.mutex = some (.handle i) →
            ∃ om μ, x.inst.objs[i]? = some om ∧ mutex = some μ ∧ om.SameOn r' μ := by
  have ha := hl.added .empty
  obtain ⟨e, hb⟩ := ha.built
  -- the segment, as it was created and as it is found
  obtain ⟨hready₀, hagree₀, hctrl₀⟩ := createSegment_content ha hb ((ha.mapped_iff hb _).mp hm₀)
  have hagree := h₂.agrees (h₁.agrees hagree₀)
  have hready : m₂ (.header .state) = stateReady :=
    ((h₂.settled (c := .header .state) trivial).trans
      (h₁.settled (c := .header .state) trivial)).trans hready₀
  have hdigest : m₁ (.header .layoutDigest) = m₂ (.header .layoutDigest) :=
    (h₂.settled (c := .header .layoutDigest) trivial).symm
  have hin : l.InSegment p m₂ := by
    refine ⟨ha, ha.fits hb hagree.header, ha.agreesWith_dir hb hagree, ?_, fun g hg => ?_⟩
    · rw [hagree.header.slotCount, (ha.expect hb).2.2.1]
    · refine LayoutHandle.ctrlMatches_iff.mpr fun q hq => ?_
      rw [h₂.ctrlAt_iff, h₁.ctrlAt_iff]
      exact LayoutHandle.ctrlMatches_iff.mp (hctrl₀ g hg) q hq
  -- the handle
  obtain ⟨g, hg⟩ : ∃ g, l.handles[j]? = some g := by
    have hlen := hl.length_keys .empty
    unfold LayoutObj.keys at hlen
    rw [List.length_map] at hlen
    exact ⟨_, List.getElem?_eq_getElem (by simpa [LayoutObj.empty, hlen] using hj)⟩
  have hgm := List.mem_of_getElem? hg
  obtain ⟨o, ho, hbound, hopen⟩ := ha.created_at hb hx hok hg
  refine ⟨o, g.tuple l.slots (m₁ (.header .layoutDigest)), ho, hbound.reduce hopen _,
    fun r' env turns name st hsize hcalm => ?_⟩
  have hhead : headerBytes ≤ m₂ (.header .totalSize) := by
    have htotal := (ha.builtExpect hb).counted.2
    rw [hagree.header.totalSize]
    omega
  have hatt := attachResult_none_ok hcalm hready hagree.magic hhead hsize
  rw [attachPickled_eq (LayoutHandle.tuple_argError ha hgm _) rfl hatt, hdigest]
  have hrebuilt : g.RebuiltBy p r' l (noHandle p)
      ((g.tuple l.slots (m₂ (.header .layoutDigest))).rebuild p m₂ r' .none) :=
    tuple_rebuilt hin hgm
  obtain ⟨o', pins, mutex, ⟨t, hret⟩, hbound', hopen', hback⟩ := hrebuilt
  refine ⟨_, mutex, rfl, by rw [hret], by rw [hret]; exact hbound.sameOn hbound' hopen',
    fun a i hop hkind hmutex => ?_⟩
  obtain ⟨g', k, hg', hk, htype⟩ := hl.condition_at hop hkind hmutex
  obtain rfl := Option.some.inj (hg.symm.trans hg')
  obtain ⟨k', hk', hslot, -, μ, hμ, hboundM, hopenM⟩ := hback k.slot htype
  obtain rfl := ha.handle_unique hk' (List.mem_of_getElem? hk) hslot
  obtain ⟨om, hom, hboundO, -⟩ := ha.created_at hb hx hok hk
  exact ⟨om, μ, hom, hμ, hboundO.sameOn hboundM hopenM⟩

/-! ## A mutex and its Condition -/

/-- What the layout expects. -/
def mutexAndCondExpect : Expect :=
  (posixipcLayoutBuild glibcX86 mutexAndCond.slots).2.toOption.getD oneMutex

/-- The segment that it creates. -/
def mutexAndCondSegment : SegMem :=
  Function.update (Prog.exec (initSegment 64 mutexAndCondExpect
    (ringSpecs mutexAndCond.handles)) fun _ => 0).2 (.header .state) stateReady

/-- How `Layout.create` ends. -/
def createMutexAndCond : Option OpenEnd :=
  layoutOpen glibcX86 0 (fun _ => noFaults)
    (createSegment glibcX86 none (ringSpecs mutexAndCond.handles))
    (mutexAndCond.inst glibcX86)

/-- A Condition is pickled after its mutex has been used, and rebuilt with the mutex. -/
theorem pickle_round_trip_condition : ∃ x o t fin μ,
    createMutexAndCond = some x ∧ x.inst.objs[1]? = some o ∧
      o.reduce (some (Function.update mutexAndCondSegment (.prim 0) 1
        (.header .layoutDigest))) = .ok t ∧
      attachPickled glibcX86 (Function.update mutexAndCondSegment (.prim 0) 1) 7 .none calmEnv 1
        queueName ⟨1000, 384, mutexAndCondExpect.totalSize⟩ t = some fin ∧
      fin.result = .ok (some μ) ∧ o.SameOn 7 fin.state.obj ∧
      ∃ om, x.inst.objs[0]? = some om ∧ om.SameOn 7 μ := by
  have hl : Adds glibcX86 .empty [addMutex, addCondition] mutexAndCond :=
    .cons (Prod.ext rfl (by decide +kernel)) (.cons (Prod.ext rfl (by decide +kernel)) (.nil _))
  obtain ⟨x, hx, hok⟩ : ∃ x, createMutexAndCond = some x ∧ x.result = .ok () := by
    have hres : createMutexAndCond.map OpenEnd.result = some (.ok ()) := by decide +kernel
    exact Option.map_eq_some_iff.mp hres
  have hm₀ : (mutexAndCond.inst glibcX86).Mapped glibcX86
      (createSegment glibcX86 none (ringSpecs mutexAndCond.handles))
      mutexAndCondSegment := by
    refine ((hl.added .empty).mapped_iff (e := mutexAndCondExpect) (by decide +kernel)
      _).mpr ?_
    have hinit : (Prog.exec (initSegment 64 mutexAndCondExpect
        (ringSpecs mutexAndCond.handles)) fun _ => 0).1 = .ok := by decide +kernel
    unfold createSegment
    exact if_neg (not_not.mpr hinit)
  have huse : SegmentUse mutexAndCondSegment
      (Function.update mutexAndCondSegment (.prim 0) 1) := .prim 0 1 .start
  have hsize : Function.update mutexAndCondSegment (.prim 0) 1 (.header .totalSize) ≤
      (⟨1000, 384, mutexAndCondExpect.totalSize⟩ : Stat).size := by
    decide +kernel
  have hcalm : Undisturbed calmEnv 1 queueName ⟨1000, 384, mutexAndCondExpect.totalSize⟩ :=
    ⟨calmEnv_clean, by decide, by decide, rfl, rfl, by decide⟩
  obtain ⟨o, t, ho, ht, hend⟩ :=
    pickle_round_trip glibcX86 hl hx hok hm₀ huse .start (j := 1) (by decide)
  obtain ⟨fin, mutex, hfin, hres, hsame, hmutex⟩ := hend 7 calmEnv 1 queueName _ hsize hcalm
  obtain ⟨om, μ, hom, rfl, hsame'⟩ := hmutex _ 0 rfl rfl rfl
  exact ⟨x, o, t, fin, μ, hx, ho, ht, hfin, hres, hsame, om, hom, hsame'⟩

end PosixIpc
