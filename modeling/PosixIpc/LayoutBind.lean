/-
# Binding handles to a segment (`layout_bind_all` and the `bind` functions)

A handle is bound when its raw pointers and its view lead into a region and the region is
pinned for it.  The eleven `bind` functions, `layout_bind_all`, and `Layout.attach`,
`open_or_create` and `create` around it, on a segment that does not change during the call.

* `HandleObj` is a handle with the fields that `bind` writes, `BindState` adds the pins of the
  region;
* a call reports as events which directory records it reads and which pointers
  `posixipc_shm_offset_ptr` hands out (`Access`); what it has written before an exception stays
  written;
* the functions read the records through `slots`: the array of the layout, or the directory of
  the segment (`dirRecord`).

An allocation or a pin that fails is an input (`BindFaults`).
-/
import PosixIpc.LayoutBlocks
import PosixIpc.TracedCall

namespace PosixIpc

open StoreProg TracedCall Word32

/-! ## Objects -/

/-- A raw pointer: the region, and the bytes for which it was handed out. -/
structure Ptr where
  region : ℕ
  offset : ℕ
  size : ℕ
  deriving DecidableEq, Repr

/-- The view of a queue; a `FutexQueue` also has pointers to its two words. -/
structure RingView where
  region : ℕ
  notFull : Option ℕ
  notEmpty : Option ℕ
  ring : View
  deriving DecidableEq, Repr

/-- A handle with the fields that the `bind` functions write. -/
structure HandleObj where
  handle : LayoutHandle
  /-- `POSIXIPC_FLAG_BOUND` and `POSIXIPC_FLAG_CLOSED`. -/
  bound : Bool
  closed : Bool
  region : Option ℕ
  /-- The pointer of a handle of one slot (a `SharedBytes` has none), the `locks` of an array,
  or `put_lock`, `get_lock`, `not_full` and `not_empty` of a queue. -/
  ptrs : ℕ → Option Ptr
  view : Option RingView
  /-- `cond_flags` of a `Queue`. -/
  condFlags : ℕ

/-- A handle that is not bound. -/
def HandleObj.unbound (p : Platform) (h : LayoutHandle) : HandleObj where
  handle := h
  bound := false
  closed := false
  region := none
  ptrs := fun _ => none
  view := none
  condFlags := flagProcessShared ||| p.condFlags

/-- The state of a `bind` call: the handle, and the pins of the region. -/
structure BindState where
  obj : HandleObj
  pins : ℕ

/-- What a call does with the mapping. -/
inductive Access
  /-- It reads a record of the directory. -/
  | record (i : ℕ)
  /-- It gets a pointer. -/
  | ptr (offset size : ℕ)
  deriving DecidableEq, Repr

/-- The parts of a `bind` call that fail. -/
structure BindFaults where
  calloc : Bool
  pin : Bool
  deriving DecidableEq, Repr

/-- Nothing fails. -/
def noFaults : BindFaults := ⟨false, false⟩

abbrev BindCall := TracedCall.Call BindState Access PyError

/-! ## The `bind` functions -/

/-- A record of the directory of a segment. -/
def recordAt (m : SegMem) (i : ℕ) : Slot where
  kind := m (.dir i .kind)
  align := m (.dir i .align)
  offset := m (.dir i .offset)
  size := m (.dir i .size)
  initFlags := m (.dir i .initFlags)

/-- `dir[i]`. -/
def dirRecord (m : SegMem) (i : ℕ) : BindCall Slot := do
  Call.note (.record i)
  pure (recordAt m i)

/-- `l->slots[i]`. -/
def ownRecord (slots : List Slot) (i : ℕ) : BindCall Slot := pure (slots.getD i default)

section Bind

variable (p : Platform) (m : SegMem) (r : ℕ) (faults : BindFaults) (slots : ℕ → BindCall Slot)

/-- `posixipc_shm_offset_ptr` on a record, with the exception that its callers raise. -/
def shmOffsetPtr (s : Slot) : BindCall Ptr :=
  match (Prog.exec (posixipcShmOffsetPtr s.offset s.size s.align) m).1 with
  | .error rc => Call.raise (posixipcErr rc)
  | .ok offset => do
    Call.note (.ptr offset s.size)
    pure ⟨r, offset, s.size⟩

/-- `posixipc_shmobj_pin`. -/
def shmobjPin : BindCall Unit :=
  if faults.pin then Call.raise .closedError
  else Call.change fun st => { st with pins := st.pins + 1 }

/-- Write fields of the handle. -/
def setObj (f : HandleObj → HandleObj) : BindCall Unit :=
  Call.change fun st => { st with obj := f st.obj }

/-- What the `bind` functions of the handles of one slot share.  `type` is the class of the
handle with the number that it takes from the record; `keep` says that the pointer is stored. -/
def bindSlot (keep : Bool) (type : Slot → HandleType → HandleType) (index : ℕ) :
    BindCall Unit := do
  let s ← slots index
  let ptr ← shmOffsetPtr m r s
  shmobjPin faults
  setObj fun o => { o with
    handle := ⟨type s o.handle.type, index, s⟩
    bound := true
    region := some r
    ptrs := if keep then Function.update o.ptrs 0 (some ptr) else o.ptrs }

/-- `posixipc_mutex_bind`, whose callers pass `do_init = 0`. -/
def posixipcMutexBind (index : ℕ) : BindCall Unit :=
  bindSlot m r faults slots true (fun _ type => type) index

/-- `posixipc_rwlock_bind`. -/
def posixipcRwlockBind (index : ℕ) : BindCall Unit :=
  bindSlot m r faults slots true (fun _ type => type) index

/-- `posixipc_cond_bind`. -/
def posixipcCondBind (index : ℕ) : BindCall Unit :=
  bindSlot m r faults slots true (fun _ type => type) index

/-- `posixipc_sem_bind`. -/
def posixipcSemBind (index : ℕ) : BindCall Unit :=
  bindSlot m r faults slots true (fun s _ => .semaphore s.aux) index

/-- `posixipc_barrier_bind`. -/
def posixipcBarrierBind (index : ℕ) : BindCall Unit :=
  bindSlot m r faults slots true (fun s _ => .barrier s.aux) index

/-- `posixipc_spin_bind`. -/
def posixipcSpinBind (index : ℕ) : BindCall Unit :=
  bindSlot m r faults slots true (fun _ type => type) index

/-- `posixipc_bytes_bind`, which checks the pointer and drops it. -/
def posixipcBytesBind (index : ℕ) : BindCall Unit :=
  bindSlot m r faults slots false (fun _ type => type) index

/-- The loop of `posixipc_mutexarray_bind` over `n` records from `first + i` on. -/
def arrayLocks (kind first : ℕ) : ℕ → ℕ → BindCall (List Ptr)
  | _, 0 => pure []
  | i, n + 1 => do
    let s ← slots (u32 (first + i))
    if s.kind ≠ kind then
      Call.raise (.layoutMismatchError "MutexArray slot kind does not match")
    else do
      let ptr ← shmOffsetPtr m r s
      let rest ← arrayLocks kind first (i + 1) n
      pure (ptr :: rest)

/-- `posixipc_mutexarray_bind`. -/
def posixipcMutexarrayBind (first count : ℕ) : BindCall Unit := do
  let o ← Call.look fun st => st.obj
  if count = 0 ∨ o.handle.type ≠ .mutexArray count then
    Call.raise (.valueError "MutexArray slot count mismatch")
  else if faults.calloc then Call.raise .memoryError
  else do
    let locks ← arrayLocks m r slots o.handle.record.kind first 0 count
    shmobjPin faults
    let s ← slots first
    setObj fun o => { o with
      handle := ⟨.mutexArray count, first, { s with kind := o.handle.record.kind }⟩
      bound := true
      region := some r
      ptrs := fun i => locks[i]? }

/-- The test of the slot kinds, which stops at the first that differs. -/
def checkKinds (text : String) (first : ℕ) : ℕ → List ℕ → BindCall Unit
  | _, [] => pure ()
  | i, kind :: rest => do
    let s ← slots (u32 (first + i))
    if s.kind ≠ kind then Call.raise (.layoutMismatchError text)
    else checkKinds text first (i + 1) rest

/-- The pointers to the `n` slots in front of a ring; each is stored as soon as it is known. -/
def storeFront (first : ℕ) : ℕ → ℕ → BindCall Unit
  | _, 0 => pure ()
  | i, n + 1 => do
    let s ← slots (u32 (first + i))
    let ptr ← shmOffsetPtr m r s
    setObj fun o => { o with ptrs := Function.update o.ptrs i (some ptr) }
    storeFront first (i + 1) n

/-- The end of `posixipc_queue_bind` and `posixipc_futexq_bind`, with the pointer to the ring in
slot `i`: the map, the control words and the pin. -/
def finishRing (view : Ptr → Except Rc RingView) (depth itemSize : ℕ) (ctrlText : String)
    (condFlags : BindCall Unit) (first i : ℕ) (ptr : Ptr) : BindCall Unit :=
  match view ptr with
  | .error rc => Call.raise (posixipcErr rc)
  | .ok v => do
    setObj fun o => { o with view := some v }
    if m (.ring i .depth) ≠ depth ∨ m (.ring i .itemSize) ≠ itemSize then
      Call.raise (.layoutMismatchError ctrlText)
    else do
      shmobjPin faults
      setObj fun o => { o with
        handle := { o.handle with slot := first }
        bound := true
        region := some r }
      condFlags

/-- What the two functions share: `front` are the kinds of the slots in front of the ring, `view`
is the map of the ring. -/
def ringBind (front : List ℕ) (view : Ptr → Except Rc RingView) (depth itemSize : ℕ)
    (kindText ctrlText : String) (condFlags : BindCall Unit) (first : ℕ) : BindCall Unit := do
  checkKinds slots kindText first 0 (front ++ [kindBytes])
  storeFront m r slots first 0 front.length
  let s ← slots (u32 (first + front.length))
  let ptr ← shmOffsetPtr m r s
  finishRing m r faults view depth itemSize ctrlText condFlags first
    (u32 (first + front.length)) ptr

/-- The view of a `Queue` on the bytes of a pointer. -/
def queueView (depth itemSize : ℕ) (ptr : Ptr) : Except Rc RingView :=
  (posixipcQueueMap p.cacheline (some ptr.offset) ptr.size depth itemSize).map
    fun v => ⟨ptr.region, none, none, v⟩

/-- The view of a `FutexQueue`.  The map of its ring cannot fail after the first test of
`posixipc_futexq_map`, so its `memset` is never reached. -/
def futexqView (depth itemSize : ℕ) (ptr : Ptr) : Except Rc RingView :=
  (posixipcFutexqMap p.cacheline (some ptr.offset) ptr.size depth itemSize).map
    fun v => ⟨ptr.region, v.notFull, v.notEmpty, v.view⟩

/-- `posixipc_queue_bind`. -/
def posixipcQueueBind (depth itemSize first : ℕ) : BindCall Unit :=
  ringBind m r faults slots queueFront (queueView p depth itemSize) depth itemSize
    "Queue slot sequence does not match" "Queue control word does not match layout"
    (do
      let s ← slots (u32 (first + 2))
      setObj fun o => { o with condFlags := s.initFlags })
    first

/-- `posixipc_futexq_bind`. -/
def posixipcFutexqBind (depth itemSize first : ℕ) : BindCall Unit :=
  ringBind m r faults slots futexQueueFront (futexqView p depth itemSize) depth itemSize
    "FutexQueue slot sequence does not match" "FutexQueue control word does not match layout"
    (pure ()) first

/-- The body of the loop of `layout_bind_all`. -/
def bindObj : BindCall Unit := do
  let o ← Call.look fun st => st.obj
  match o.handle.type with
  | .mutexArray count => posixipcMutexarrayBind m r faults slots o.handle.slot count
  | .mutex => posixipcMutexBind m r faults slots o.handle.slot
  | .robustMutex => posixipcMutexBind m r faults slots o.handle.slot
  | .sharedBytes => posixipcBytesBind m r faults slots o.handle.slot
  | .rwlock => posixipcRwlockBind m r faults slots o.handle.slot
  | .condition _ => posixipcCondBind m r faults slots o.handle.slot
  | .semaphore _ => posixipcSemBind m r faults slots o.handle.slot
  | .barrier _ => posixipcBarrierBind m r faults slots o.handle.slot
  | .spinLock => posixipcSpinBind m r faults slots o.handle.slot
  | .queue depth itemSize => posixipcQueueBind p m r faults slots depth itemSize o.handle.slot
  | .futexQueue depth itemSize =>
    posixipcFutexqBind p m r faults slots depth itemSize o.handle.slot

end Bind

/-! ## The layout -/

/-- `PosixIPCLayoutObject` with its handles. -/
structure LayoutInst where
  slots : List Slot
  cap : ℕ
  objs : List HandleObj
  sealed : Bool

/-- A layout as the adds leave it: no handle is bound. -/
def LayoutObj.inst (p : Platform) (l : LayoutObj) : LayoutInst :=
  ⟨l.slots, l.cap, l.handles.map (HandleObj.unbound p), l.sealed⟩

/-- The layout without what `bind` adds. -/
def LayoutInst.plain (l : LayoutInst) : LayoutObj :=
  ⟨l.slots, l.cap, l.objs.map HandleObj.handle, l.sealed⟩

/-- `layout_sync`, which writes the records of the handles. -/
def LayoutInst.sync (p : Platform) (l : LayoutInst) : LayoutInst × Except PyError Unit :=
  let x := layoutSync p l.plain
  ({ l with
      slots := x.1.slots
      objs := List.zipWith (fun o h => { o with handle := h }) l.objs x.1.handles }, x.2)

/-- How `Layout.create`, `attach` or `open_or_create` ends: the layout, the pins of the new
region, and the exception. -/
structure OpenEnd where
  inst : LayoutInst
  pins : ℕ
  result : Except PyError Unit

section Open

variable (p : Platform) (r : ℕ) (faults : ℕ → BindFaults)

/-- `layout_bind_all` from handle `i` on; the region has `pins` pins. -/
def layoutBindAll (m : SegMem) (slots : List Slot) :
    ℕ → List HandleObj → ℕ → List HandleObj × ℕ × Except PyError Unit
  | _, [], pins => ([], pins, .ok ())
  | i, o :: rest, pins =>
    let x := bindObj p m r (faults i) (ownRecord slots) ⟨o, pins⟩
    match x.result with
    | .error e => (x.state.obj :: rest, x.state.pins, .error e)
    | .ok () =>
      let y := layoutBindAll m slots (i + 1) rest x.state.pins
      (x.state.obj :: y.1, y.2)

/-- What `layout_create`, `layout_attach` and `layout_open_or_create` share.  The part between
the build and the binding gives the content of the mapped segment, or an exception; `none` is a
call that still waits. -/
def layoutOpen (segment : Expect → Option (Except PyError SegMem)) (l : LayoutInst) :
    Option OpenEnd :=
  let x := l.sync p
  match x.2 with
  | .error e => some ⟨x.1, 0, .error e⟩
  | .ok () =>
    match (posixipcLayoutBuild p x.1.slots).2 with
    | .error rc => some ⟨x.1, 0, .error (posixipcErr rc)⟩
    | .ok e =>
      match segment e with
      | none => none
      | some (.error e) => some ⟨x.1, 0, .error e⟩
      | some (.ok m) =>
        let y := layoutBindAll p r faults m x.1.slots 0 x.1.objs 0
        match y.2.2 with
        | .error e => some ⟨{ x.1 with objs := y.1 }, y.2.1, .error e⟩
        | .ok () => some ⟨{ x.1 with objs := y.1, sealed := true }, y.2.1, .ok ()⟩

end Open

/-- The segment part of `layout_attach`: `parse_attach_timeout`, `posixipc_shm_attach` on a
segment with the content `m`, and the region object.  `timeout` and `region` are the exceptions
of the first and the last. -/
def attachSegment (timeout region : Option PyError) (env : AttachEnv) (turns : ℕ)
    (name : List UInt8) (st : Stat) (m : SegMem) (e : Expect) :
    Option (Except PyError SegMem) :=
  match timeout with
  | some err => some (.error err)
  | none =>
    (attachResult env turns name st m (some e)).map fun rc =>
      if rc ≠ .ok then .error (posixipcErr rc)
      else
        match region with
        | some err => .error err
        | none => .ok m

/-- The queues of a list of handles, in the order of the two loops of
`layout_init_queue_ctrls`. -/
def ringSpecs (hs : List LayoutHandle) : List RingSpec :=
  hs.filterMap (fun h =>
    match h.type with
    | .queue depth itemSize => some ⟨h.slot + 4, false, depth, itemSize⟩
    | _ => none) ++
  hs.filterMap (fun h =>
    match h.type with
    | .futexQueue depth itemSize => some ⟨h.slot + 2, true, depth, itemSize⟩
    | _ => none)

/-- The segment part of `layout_create`, on fresh memory; `fault` is the exception of a system
call or an allocation that fails. -/
def createSegment (p : Platform) (fault : Option PyError) (rings : List RingSpec) (e : Expect) :
    Option (Except PyError SegMem) :=
  match fault with
  | some err => some (.error err)
  | none =>
    let x := Prog.exec (initSegment p.cacheline e rings) fun _ => 0
    if x.1 ≠ .ok then some (.error (posixipcErr x.1))
    else some (.ok (Function.update x.2 (.header .state) stateReady))

/-! ## Pointers and pins -/

/-- The bytes of a record that `posixipc_shm_offset_ptr` hands out. -/
structure Slot.Fits (m : SegMem) (s : Slot) : Prop where
  start : u32 (headerBytes + m (.header .directoryBytes)) ≤ s.offset
  size : s.size ≠ 0
  stop : s.offset + s.size ≤ m (.header .totalSize)
  aligned : 1 < s.align → s.offset % s.align = 0

/-- The offset check passes if and only if the slot lies in the mapping. -/
theorem exec_posixipcShmOffsetPtr (m : SegMem) (s : Slot) :
    (Prog.exec (posixipcShmOffsetPtr s.offset s.size s.align) m).1 = .ok s.offset ∧ s.Fits m ∨
      (Prog.exec (posixipcShmOffsetPtr s.offset s.size s.align) m).1 = .error .einval ∧
        ¬ s.Fits m := by
  unfold posixipcShmOffsetPtr
  rw [Prog.exec_read_bind]
  by_cases hstart : s.offset < u32 (headerBytes + m (.header .directoryBytes))
  · rw [if_pos hstart]
    exact Or.inr ⟨rfl, fun h => absurd h.start (by omega)⟩
  · rw [if_neg hstart, Prog.exec_read_bind]
    by_cases hsize : s.size = 0 ∨ s.offset > m (.header .totalSize)
    · rw [if_pos hsize]
      refine Or.inr ⟨rfl, fun h => ?_⟩
      have := h.size
      have := h.stop
      omega
    · rw [if_neg hsize]
      by_cases hstop : s.size > m (.header .totalSize) - s.offset
      · rw [if_pos hstop]
        refine Or.inr ⟨rfl, fun h => ?_⟩
        have := h.stop
        omega
      · rw [if_neg hstop]
        by_cases hal : s.align > 1 ∧ s.offset % s.align ≠ 0
        · rw [if_pos hal]
          exact Or.inr ⟨rfl, fun h => hal.2 (h.aligned hal.1)⟩
        · rw [if_neg hal]
          refine Or.inl ⟨rfl, by omega, by omega, by omega, fun h1 => ?_⟩
          by_contra hne
          exact hal ⟨h1, hne⟩

/-- The pointer to the bytes of a record. -/
def Slot.ptr (r : ℕ) (s : Slot) : Ptr := ⟨r, s.offset, s.size⟩

/-- The call reads the records `recs` through `slots`, and nothing else happens. -/
def Source (slots : ℕ → BindCall Slot) (recs : ℕ → Slot) : Prop :=
  ∀ i st, Call.Returns (slots i) st st (recs i)

/-- A record of the directory is read as it stands there. -/
theorem source_dirRecord (m : SegMem) : Source (dirRecord m) (recordAt m) :=
  fun i _ => ⟨[.record i], rfl⟩

/-- A record of the layout is read as it stands there. -/
theorem source_ownRecord (slots : List Slot) :
    Source (ownRecord slots) fun i => slots.getD i default :=
  fun _ _ => ⟨[], rfl⟩

section Spec

open Call

variable {p : Platform} {m : SegMem} {r : ℕ} {faults : BindFaults} {st st' : BindState}
  {s : Slot}

/-- A slot in the mapping gives its pointer. -/
theorem shmOffsetPtr_run_fits (h : s.Fits m) :
    shmOffsetPtr m r s st = ⟨[.ptr s.offset s.size], st, .ok (s.ptr r)⟩ := by
  rcases exec_posixipcShmOffsetPtr m s with ⟨he, -⟩ | ⟨-, hn⟩
  · unfold shmOffsetPtr
    rw [he]
    rfl
  · exact absurd h hn

/-- A slot beyond the mapping is refused. -/
theorem shmOffsetPtr_run_misfit (h : ¬ s.Fits m) :
    shmOffsetPtr m r s st = ⟨[], st, .error (.osError .einval)⟩ := by
  rcases exec_posixipcShmOffsetPtr m s with ⟨-, hf⟩ | ⟨he, -⟩
  · exact absurd hf h
  · unfold shmOffsetPtr
    rw [he]
    rfl

/-- A slot in the mapping gives its pointer. -/
theorem shmOffsetPtr_returns (h : s.Fits m) : Returns (shmOffsetPtr m r s) st st (s.ptr r) :=
  ⟨_, shmOffsetPtr_run_fits h⟩

/-- A slot beyond the mapping is refused. -/
theorem shmOffsetPtr_raises (h : ¬ s.Fits m) :
    Raises (shmOffsetPtr m r s) st st (.osError .einval) :=
  ⟨_, shmOffsetPtr_run_misfit h⟩

/-- An open region takes one more pin. -/
theorem shmobjPin_returns (h : faults.pin = false) :
    Returns (shmobjPin faults) st { st with pins := st.pins + 1 } () := by
  rw [shmobjPin, if_neg (by simp [h])]
  exact ⟨[], rfl⟩

/-- A closed region takes no pin. -/
theorem shmobjPin_raises (h : faults.pin = true) :
    Raises (shmobjPin faults) st st .closedError := by
  rw [shmobjPin, if_pos h]
  exact ⟨[], rfl⟩

/-- Writing the handle does not fail. -/
theorem setObj_returns (f : HandleObj → HandleObj) :
    Returns (setObj f) st { st with obj := f st.obj } () := ⟨[], rfl⟩

/-- Reading the handle changes nothing. -/
theorem look_returns (st : BindState) :
    Returns (Call.look fun st => st.obj : BindCall HandleObj) st st st.obj := ⟨[], rfl⟩

/-! ## Handles of one slot -/

section Source

variable {slots : ℕ → BindCall Slot} {recs : ℕ → Slot} (hsrc : Source slots recs)

include hsrc

/-- The handle of one slot that `bind` leaves. -/
def HandleObj.bindSlot (r : ℕ) (keep : Bool) (type : Slot → HandleType → HandleType)
    (index : ℕ) (s : Slot) (o : HandleObj) : HandleObj :=
  { o with
    handle := ⟨type s o.handle.type, index, s⟩
    bound := true
    region := some r
    ptrs := if keep then Function.update o.ptrs 0 (some (s.ptr r)) else o.ptrs }

/-- **Binding a handle of one slot**: one pointer and one pin. -/
theorem bindSlot_returns {keep : Bool} {type : Slot → HandleType → HandleType} {index : ℕ}
    (hfit : (recs index).Fits m) (hpin : faults.pin = false) :
    Returns (bindSlot m r faults slots keep type index) st
      ⟨st.obj.bindSlot r keep type index (recs index), st.pins + 1⟩ () := by
  unfold bindSlot
  rw [(hsrc index st).bind_iff, (shmOffsetPtr_returns hfit).bind_iff,
    (shmobjPin_returns hpin).bind_iff]
  exact setObj_returns _

/-- A handle of one slot that cannot be bound is left as it was. -/
theorem bindSlot_raises {keep : Bool} {type : Slot → HandleType → HandleType} {index : ℕ}
    (h : ¬ (recs index).Fits m ∨ faults.pin = true) :
    ∃ e, Raises (bindSlot m r faults slots keep type index) st st e := by
  unfold bindSlot
  by_cases hfit : (recs index).Fits m
  · refine ⟨.closedError, ?_⟩
    rw [(hsrc index st).bind_raises_iff, (shmOffsetPtr_returns hfit).bind_raises_iff]
    exact (shmobjPin_raises (h.resolve_left (not_not.mpr hfit))).bind _
  · refine ⟨.osError .einval, ?_⟩
    rw [(hsrc index st).bind_raises_iff]
    exact (shmOffsetPtr_raises hfit).bind _

/-! ## Arrays -/

/-- The records of an array can be bound. -/
def ArrayFits (m : SegMem) (recs : ℕ → Slot) (kind first i n : ℕ) : Prop :=
  ∀ j < n, (recs (u32 (first + (i + j)))).kind = kind ∧ (recs (u32 (first + (i + j)))).Fits m

omit hsrc in
/-- The first mutex of the rest and those after it. -/
theorem arrayFits_succ {kind first i n : ℕ} :
    ArrayFits m recs kind first i (n + 1) ↔
      ((recs (u32 (first + i))).kind = kind ∧ (recs (u32 (first + i))).Fits m) ∧
        ArrayFits m recs kind first (i + 1) n := by
  constructor
  · intro h
    refine ⟨h 0 (by omega), fun j hj => ?_⟩
    have := h (j + 1) (by omega)
    rwa [show i + (j + 1) = i + 1 + j by omega] at this
  · rintro ⟨h0, hrest⟩ j hj
    cases j with
    | zero => exact h0
    | succ j =>
        have := hrest j (by omega)
        rwa [show i + 1 + j = i + (j + 1) by omega] at this

/-- The pointers of an array. -/
def arrayPtrs (r : ℕ) (recs : ℕ → Slot) (first i n : ℕ) : List Ptr :=
  (List.range n).map fun j => (recs (u32 (first + (i + j)))).ptr r

omit hsrc in
/-- The first pointer of the rest and those after it. -/
theorem arrayPtrs_succ (r : ℕ) (recs : ℕ → Slot) (first i n : ℕ) :
    arrayPtrs r recs first i (n + 1) =
      (recs (u32 (first + i))).ptr r :: arrayPtrs r recs first (i + 1) n := by
  unfold arrayPtrs
  rw [List.range_succ_eq_map, List.map_cons, List.map_map]
  congr 1
  refine List.map_congr_left fun j _ => ?_
  show (recs (u32 (first + (i + (j + 1))))).ptr r = _
  rw [show i + (j + 1) = i + 1 + j by omega]

/-- A run of good slots gives their pointers. -/
theorem arrayLocks_returns {kind first i n : ℕ} (h : ArrayFits m recs kind first i n) :
    Returns (arrayLocks m r slots kind first i n) st st (arrayPtrs r recs first i n) := by
  induction n generalizing i with
  | zero => exact ⟨[], rfl⟩
  | succ n ih =>
      obtain ⟨⟨hkind, hfit⟩, hrest⟩ := arrayFits_succ.mp h
      rw [arrayLocks, (hsrc _ st).bind_iff, if_neg (not_not.mpr hkind),
        (shmOffsetPtr_returns hfit).bind_iff, (ih hrest).bind_iff, arrayPtrs_succ]
      exact ⟨[], rfl⟩

/-- A run with a bad slot is refused. -/
theorem arrayLocks_raises {kind first i n : ℕ} (h : ¬ ArrayFits m recs kind first i n) :
    ∃ e, Raises (arrayLocks m r slots kind first i n) st st e := by
  induction n generalizing i with
  | zero => exact absurd (fun j hj => absurd hj (Nat.not_lt_zero j)) h
  | succ n ih =>
      rw [arrayLocks]
      simp only [(hsrc _ st).bind_raises_iff]
      by_cases hkind : (recs (u32 (first + i))).kind = kind
      · rw [if_neg (not_not.mpr hkind)]
        by_cases hfit : (recs (u32 (first + i))).Fits m
        · obtain ⟨e, he⟩ := ih fun hrest => h (arrayFits_succ.mpr ⟨⟨hkind, hfit⟩, hrest⟩)
          refine ⟨e, ?_⟩
          rw [(shmOffsetPtr_returns hfit).bind_raises_iff]
          exact he.bind _
        · exact ⟨_, (shmOffsetPtr_raises hfit).bind _⟩
      · rw [if_pos hkind]
        exact ⟨_, [], rfl⟩

/-- The array handle that `bind` leaves. -/
def HandleObj.bindArray (r : ℕ) (recs : ℕ → Slot) (first count : ℕ) (o : HandleObj) :
    HandleObj :=
  { o with
    handle := ⟨.mutexArray count, first, { recs first with kind := o.handle.record.kind }⟩
    bound := true
    region := some r
    ptrs := fun i => (arrayPtrs r recs first 0 count)[i]? }

/-- **Binding a mutex array**: all its pointers and one pin. -/
theorem mutexarrayBind_returns {first count : ℕ} (htype : st.obj.handle.type = .mutexArray count)
    (hcount : count ≠ 0) (hfit : ArrayFits m recs st.obj.handle.record.kind first 0 count)
    (hcalloc : faults.calloc = false) (hpin : faults.pin = false) :
    Returns (posixipcMutexarrayBind m r faults slots first count) st
      ⟨st.obj.bindArray r recs first count, st.pins + 1⟩ () := by
  unfold posixipcMutexarrayBind
  rw [(look_returns _).bind_iff, if_neg (by simp [hcount, htype]), if_neg (by simp [hcalloc]),
    (arrayLocks_returns hsrc hfit).bind_iff, (shmobjPin_returns hpin).bind_iff,
    (hsrc first _).bind_iff]
  exact setObj_returns _

/-- An array that cannot be bound is left as it was. -/
theorem mutexarrayBind_raises {first count : ℕ}
    (h : count = 0 ∨ st.obj.handle.type ≠ .mutexArray count ∨ faults.calloc = true ∨
      ¬ ArrayFits m recs st.obj.handle.record.kind first 0 count ∨ faults.pin = true) :
    ∃ e, Raises (posixipcMutexarrayBind m r faults slots first count) st st e := by
  unfold posixipcMutexarrayBind
  simp only [(look_returns _).bind_raises_iff]
  by_cases hcount : count = 0 ∨ st.obj.handle.type ≠ .mutexArray count
  · rw [if_pos hcount]
    exact ⟨_, [], rfl⟩
  · rw [if_neg hcount]
    by_cases hcalloc : faults.calloc = true
    · rw [if_pos hcalloc]
      exact ⟨_, [], rfl⟩
    · rw [if_neg hcalloc]
      by_cases hfit : ArrayFits m recs st.obj.handle.record.kind first 0 count
      · have hpin : faults.pin = true := by tauto
        refine ⟨.closedError, ?_⟩
        rw [(arrayLocks_returns hsrc hfit).bind_raises_iff]
        exact (shmobjPin_raises hpin).bind _
      · have harray : ∃ e, Raises (arrayLocks m r slots st.obj.handle.record.kind first 0 count)
            st st e := arrayLocks_raises hsrc hfit
        obtain ⟨e, he⟩ := harray
        exact ⟨e, he.bind _⟩

/-! ## Queues -/

/-- The records have the kinds of a list. -/
def KindsAt (recs : ℕ → Slot) (first i : ℕ) (kinds : List ℕ) : Prop :=
  ∀ j kind, kinds[j]? = some kind → (recs (u32 (first + (i + j)))).kind = kind

omit hsrc in
/-- The first kind and those after it. -/
theorem kindsAt_cons {first i kind : ℕ} {kinds : List ℕ} :
    KindsAt recs first i (kind :: kinds) ↔
      (recs (u32 (first + i))).kind = kind ∧ KindsAt recs first (i + 1) kinds := by
  constructor
  · intro h
    refine ⟨h 0 kind rfl, fun j k hk => ?_⟩
    have := h (j + 1) k hk
    rwa [show i + (j + 1) = i + 1 + j by omega] at this
  · rintro ⟨h0, hrest⟩ j k hk
    cases j with
    | zero =>
        obtain rfl : kind = k := by simpa using hk
        exact h0
    | succ j =>
        have := hrest j k (by simpa using hk)
        rwa [show i + 1 + j = i + (j + 1) by omega] at this

/-- Slots of the right kinds pass the check. -/
theorem checkKinds_returns {text : String} {first i : ℕ} {kinds : List ℕ}
    (h : KindsAt recs first i kinds) :
    Returns (checkKinds slots text first i kinds) st st () := by
  induction kinds generalizing i with
  | nil => exact ⟨[], rfl⟩
  | cons kind kinds ih =>
      obtain ⟨hkind, hrest⟩ := kindsAt_cons.mp h
      rw [checkKinds, (hsrc _ st).bind_iff, if_neg (not_not.mpr hkind)]
      exact ih hrest

/-- A slot of a wrong kind is refused with the class's own text. -/
theorem checkKinds_raises {text : String} {first i : ℕ} {kinds : List ℕ}
    (h : ¬ KindsAt recs first i kinds) :
    Raises (checkKinds slots text first i kinds) st st (.layoutMismatchError text) := by
  induction kinds generalizing i with
  | nil => exact absurd (fun j k hk => by simp at hk) h
  | cons kind kinds ih =>
      rw [checkKinds, (hsrc _ st).bind_raises_iff]
      by_cases hkind : (recs (u32 (first + i))).kind = kind
      · rw [if_neg (not_not.mpr hkind)]
        exact ih fun hrest => h (kindsAt_cons.mpr ⟨hkind, hrest⟩)
      · rw [if_pos hkind]
        exact ⟨[], rfl⟩

/-- The handle after the pointers `i` to `i + n - 1` have been stored. -/
def HandleObj.storeFront (r : ℕ) (recs : ℕ → Slot) (first : ℕ) : ℕ → ℕ → HandleObj → HandleObj
  | _, 0, o => o
  | i, n + 1, o =>
    HandleObj.storeFront r recs first (i + 1) n
      { o with ptrs := Function.update o.ptrs i (some ((recs (u32 (first + i))).ptr r)) }

/-- The pointers before the ring are stored one by one. -/
theorem storeFront_returns {first i n : ℕ}
    (hfit : ∀ j < n, (recs (u32 (first + (i + j)))).Fits m) :
    Returns (storeFront m r slots first i n) st
      { st with obj := st.obj.storeFront r recs first i n } () := by
  induction n generalizing i st with
  | zero => exact ⟨[], rfl⟩
  | succ n ih =>
      have hfirst : (recs (u32 (first + i))).Fits m := hfit 0 (by omega)
      rw [storeFront, (hsrc _ st).bind_iff, (shmOffsetPtr_returns hfirst).bind_iff,
        (setObj_returns _).bind_iff]
      refine ih fun j hj => ?_
      have := hfit (j + 1) (by omega)
      rwa [show i + (j + 1) = i + 1 + j by omega] at this

section Ring

variable {front : List ℕ} {view : Ptr → Except Rc RingView} {depth itemSize first : ℕ}
  {kindText ctrlText : String} {condFlags : BindCall Unit}

/-- The records and the map of a queue, without its control words. -/
structure RingFits (m : SegMem) (r : ℕ) (recs : ℕ → Slot) (first : ℕ) (front : List ℕ)
    (view : Ptr → Except Rc RingView) (v : RingView) : Prop where
  kinds : KindsAt recs first 0 (front ++ [kindBytes])
  fits : ∀ j ≤ front.length, (recs (u32 (first + j))).Fits m
  view : view ((recs (u32 (first + front.length))).ptr r) = .ok v

/-- The control words in slot `i` are those of a geometry. -/
def CtrlAt (m : SegMem) (i depth itemSize : ℕ) : Prop :=
  m (.ring i .depth) = depth ∧ m (.ring i .itemSize) = itemSize

/-- The handle before the test of the control words. -/
def HandleObj.mapRing (r : ℕ) (recs : ℕ → Slot) (first n : ℕ) (v : RingView) (o : HandleObj) :
    HandleObj :=
  { o.storeFront r recs first 0 n with view := some v }

/-- The queue handle that `bind` leaves. -/
def HandleObj.bindRing (r : ℕ) (recs : ℕ → Slot) (first n : ℕ) (v : RingView) (o : HandleObj) :
    HandleObj :=
  let mapped := o.mapRing r recs first n v
  { mapped with
    handle := { mapped.handle with slot := first }
    bound := true
    region := some r }

/-- What is left of the call on records that fit. -/
theorem ringBind_fits {v : RingView} (h : RingFits m r recs first front view v) :
    (∀ st', Returns (ringBind m r faults slots front view depth itemSize kindText ctrlText
        condFlags first) st st' () ↔
      CtrlAt m (u32 (first + front.length)) depth itemSize ∧ faults.pin = false ∧
        Returns condFlags ⟨st.obj.bindRing r recs first front.length v, st.pins + 1⟩ st' ()) ∧
    (¬ CtrlAt m (u32 (first + front.length)) depth itemSize →
      Raises (ringBind m r faults slots front view depth itemSize kindText ctrlText condFlags
        first) st { st with obj := st.obj.mapRing r recs first front.length v }
        (.layoutMismatchError ctrlText)) := by
  have hfront : ∀ j < front.length, (recs (u32 (first + (0 + j)))).Fits m := by
    intro j hj
    rw [Nat.zero_add]
    exact h.fits j hj.le
  have hkinds : Returns (checkKinds slots kindText first 0 (front ++ [kindBytes])) st st () :=
    checkKinds_returns hsrc h.kinds
  have hstore : Returns (storeFront m r slots first 0 front.length) st
      { st with obj := st.obj.storeFront r recs first 0 front.length } () :=
    storeFront_returns hsrc hfront
  have hptr : ∀ st₁, Returns (shmOffsetPtr m r (recs (u32 (first + front.length)))) st₁ st₁
      ((recs (u32 (first + front.length))).ptr r) :=
    fun _ => shmOffsetPtr_returns (h.fits front.length le_rfl)
  unfold ringBind
  constructor
  · intro st'
    rw [hkinds.bind_iff, hstore.bind_iff, (hsrc _ _).bind_iff, (hptr _).bind_iff, finishRing,
      h.view]
    simp only
    rw [(setObj_returns _).bind_iff]
    by_cases hctrl : CtrlAt m (u32 (first + front.length)) depth itemSize
    · rw [if_neg (by unfold CtrlAt at hctrl; tauto)]
      cases hpin : faults.pin with
      | true =>
          simp only [hctrl, true_and, Bool.true_eq_false, false_and, iff_false]
          exact fun hret => hret.not_raises ((shmobjPin_raises hpin).bind _)
      | false =>
          rw [(shmobjPin_returns hpin).bind_iff, (setObj_returns _).bind_iff]
          simp only [hctrl, true_and]
          exact Iff.rfl
    · rw [if_pos (by unfold CtrlAt at hctrl; tauto)]
      simp only [hctrl, false_and, iff_false]
      rintro ⟨t, ht⟩
      exact nomatch (Finish.mk.inj ht).2.2
  · intro hctrl
    rw [hkinds.bind_raises_iff, hstore.bind_raises_iff, (hsrc _ _).bind_raises_iff,
      (hptr _).bind_raises_iff, finishRing, h.view]
    simp only
    rw [(setObj_returns _).bind_raises_iff, if_pos (by unfold CtrlAt at hctrl; tauto)]
    exact ⟨[], rfl⟩

/-- The loop over the front ends when all its records fit. -/
theorem storeFront_fits {first i n : ℕ}
    (h : Returns (storeFront m r slots first i n) st st' ()) :
    ∀ j < n, (recs (u32 (first + (i + j)))).Fits m := by
  induction n generalizing i st with
  | zero => exact fun j hj => absurd hj (Nat.not_lt_zero j)
  | succ n ih =>
      rw [storeFront, (hsrc _ st).bind_iff] at h
      by_cases hfit : (recs (u32 (first + i))).Fits m
      · rw [(shmOffsetPtr_returns hfit).bind_iff, (setObj_returns _).bind_iff] at h
        intro j hj
        cases j with
        | zero => exact hfit
        | succ j =>
            have := ih h j (by omega)
            rwa [show i + 1 + j = i + (j + 1) by omega] at this
      · exact (h.not_raises ((shmOffsetPtr_raises hfit).bind _)).elim

/-- A queue that is bound fits. -/
theorem ringBind_ringFits
    (h : Returns (ringBind m r faults slots front view depth itemSize kindText ctrlText condFlags
      first) st st' ()) : ∃ v, RingFits m r recs first front view v := by
  unfold ringBind at h
  by_cases hkinds : KindsAt recs first 0 (front ++ [kindBytes])
  · rw [(checkKinds_returns hsrc hkinds).bind_iff] at h
    obtain ⟨st₁, u, hfront, h⟩ := returns_bind_iff.mp h
    have hfits := storeFront_fits hsrc hfront
    rw [(hsrc _ st₁).bind_iff] at h
    by_cases hring : (recs (u32 (first + front.length))).Fits m
    · rw [(shmOffsetPtr_returns hring).bind_iff, finishRing] at h
      cases hv : view ((recs (u32 (first + front.length))).ptr r) with
      | error rc =>
          rw [hv] at h
          obtain ⟨t, ht⟩ := h
          exact nomatch (Finish.mk.inj ht).2.2
      | ok v =>
          refine ⟨v, hkinds, fun j hj => ?_, hv⟩
          rcases Nat.lt_or_eq_of_le hj with hj | rfl
          · have := hfits j hj
            rwa [Nat.zero_add] at this
          · exact hring
    · exact (h.not_raises ((shmOffsetPtr_raises hring).bind _)).elim
  · exact (h.not_raises ((checkKinds_raises hsrc hkinds).bind _)).elim

/-- A queue whose first record cannot be bound is left as it was. -/
theorem ringBind_raises_early (hfront : front ≠ [])
    (h : ¬ KindsAt recs first 0 (front ++ [kindBytes]) ∨ ¬ (recs (u32 first)).Fits m) :
    ∃ e, Raises (ringBind m r faults slots front view depth itemSize kindText ctrlText condFlags
      first) st st e := by
  unfold ringBind
  by_cases hkinds : KindsAt recs first 0 (front ++ [kindBytes])
  · obtain ⟨n, hn⟩ := Nat.exists_eq_succ_of_ne_zero (List.length_pos_iff.mpr hfront).ne'
    refine ⟨.osError .einval, ?_⟩
    rw [(checkKinds_returns hsrc hkinds).bind_raises_iff, hn, storeFront]
    refine Raises.bind ?_ _
    rw [(hsrc _ st).bind_raises_iff]
    exact (shmOffsetPtr_raises (h.resolve_left (not_not.mpr hkinds))).bind _
  · exact ⟨_, (checkKinds_raises hsrc hkinds).bind _⟩

omit hsrc in
/-- The offset check writes nothing. -/
theorem keeps_shmOffsetPtr (P : BindState → Prop) (s : Slot) : Keeps P (shmOffsetPtr m r s) := by
  unfold shmOffsetPtr
  split
  · exact keeps_raise P _
  · exact Keeps.bind (fun _ h => h) fun _ => keeps_pure P _

omit hsrc in
/-- A write keeps what does not depend on it. -/
theorem keeps_setObj {P : BindState → Prop} {f : HandleObj → HandleObj}
    (h : ∀ st, P st → P { st with obj := f st.obj }) : Keeps P (setObj f) := h

/-- Reading a record writes nothing. -/
theorem keeps_slots (P : BindState → Prop) (i : ℕ) : Keeps P (slots i) := by
  intro st h
  obtain ⟨t, ht⟩ := hsrc i st
  rwa [ht]

/-- The check of the kinds writes nothing. -/
theorem keeps_checkKinds (P : BindState → Prop) (text : String) (first i : ℕ) (kinds : List ℕ) :
    Keeps P (checkKinds slots text first i kinds) := by
  induction kinds generalizing i with
  | nil => exact keeps_pure P _
  | cons kind kinds ih =>
      rw [checkKinds]
      refine (keeps_slots hsrc P _).bind fun s => ?_
      split_ifs
      · exact keeps_raise P _
      · exact ih (i + 1)

/-- What the stores of the pointers from `i` on keep. -/
theorem keeps_storeFront {P : BindState → Prop} {first i : ℕ} (n : ℕ)
    (hP : ∀ st j ptr, i ≤ j → P st → P { st with obj :=
      { st.obj with ptrs := Function.update st.obj.ptrs j (some ptr) } }) :
    Keeps P (storeFront m r slots first i n) := by
  induction n generalizing i with
  | zero => exact keeps_pure P _
  | succ n ih =>
      rw [storeFront]
      refine (keeps_slots hsrc P _).bind fun s => (keeps_shmOffsetPtr P s).bind fun ptr => ?_
      refine Keeps.bind (keeps_setObj fun st => hP st i ptr le_rfl) fun _ => ih fun st j x hj => ?_
      exact hP st j x (by omega)

omit hsrc in
/-- A pin keeps what does not depend on the count. -/
theorem keeps_shmobjPin {P : BindState → Prop}
    (h : ∀ st, P st → P { st with pins := st.pins + 1 }) : Keeps P (shmobjPin faults) := by
  unfold shmobjPin
  split_ifs
  · exact keeps_raise P _
  · exact h

omit hsrc in
/-- What the end of the call keeps. -/
theorem keeps_finishRing {P : BindState → Prop} {i : ℕ} {ptr : Ptr}
    (hobj : ∀ st o, o.ptrs = st.obj.ptrs → o.closed = st.obj.closed → P st →
      P { st with obj := o })
    (hpin : ∀ st, P st → P { st with pins := st.pins + 1 }) (hcond : Keeps P condFlags) :
    Keeps P (finishRing m r faults view depth itemSize ctrlText condFlags first i ptr) := by
  unfold finishRing
  split
  · exact keeps_raise P _
  · refine Keeps.bind (keeps_setObj fun st => hobj st _ rfl rfl) fun _ => ?_
    split_ifs
    · exact keeps_raise P _
    · refine Keeps.bind (keeps_shmobjPin hpin) fun _ => ?_
      exact Keeps.bind (keeps_setObj fun st => hobj st _ rfl rfl) fun _ => hcond

/-- Otherwise its first pointer has been stored when the call raises. -/
theorem ringBind_raises_late (hfront : front ≠ [])
    (hkinds : KindsAt recs first 0 (front ++ [kindBytes])) (hfit : (recs (u32 first)).Fits m)
    (hcond : ∀ x, Keeps (fun st => st.obj.ptrs 0 = x) condFlags) {e : PyError}
    (h : Raises (ringBind m r faults slots front view depth itemSize kindText ctrlText condFlags
      first) st st' e) :
    st'.obj.ptrs 0 = some ((recs (u32 first)).ptr r) := by
  obtain ⟨n, hn⟩ := Nat.exists_eq_succ_of_ne_zero (List.length_pos_iff.mpr hfront).ne'
  have hfit0 : (recs (u32 (first + 0))).Fits m := hfit
  let P : BindState → Prop := fun st => st.obj.ptrs 0 = some ((recs (u32 first)).ptr r)
  have hkeep : Keeps P (storeFront m r slots first (0 + 1) n) := by
    refine keeps_storeFront hsrc n fun st j ptr hj hst => ?_
    exact (Function.update_of_ne (by omega) _ _).trans hst
  unfold ringBind at h
  rw [(checkKinds_returns hsrc hkinds).bind_raises_iff, hn, storeFront, raises_bind_iff,
    (hsrc _ st).bind_raises_iff, (shmOffsetPtr_returns hfit0).bind_raises_iff,
    (setObj_returns _).bind_raises_iff] at h
  rcases h with h | ⟨st₁, u, h, hrest⟩
  · exact hkeep.raises (by simp [P]) h
  · rw [(hsrc _ st).bind_iff, (shmOffsetPtr_returns hfit0).bind_iff,
      (setObj_returns _).bind_iff] at h
    have hst₁ : P st₁ := hkeep.returns (by simp [P]) h
    refine Keeps.raises (P := P) ?_ hst₁ hrest
    refine (keeps_slots hsrc P _).bind fun s => (keeps_shmOffsetPtr P s).bind fun ptr => ?_
    exact keeps_finishRing (fun st o ho _ hst => by simpa [P, ho] using hst) (fun st hst => hst)
      (hcond _)

/-- A queue takes no pin back. -/
theorem keeps_ringBind_pins {k : ℕ} (hcond : Keeps (fun st => k ≤ st.pins) condFlags) :
    Keeps (fun st => k ≤ st.pins) (ringBind m r faults slots front view depth itemSize kindText
      ctrlText condFlags first) := by
  unfold ringBind
  refine (keeps_checkKinds hsrc _ _ _ _ _).bind fun _ => ?_
  refine Keeps.bind (keeps_storeFront hsrc _ fun st j ptr _ hst => hst) fun _ => ?_
  refine (keeps_slots hsrc _ _).bind fun s => (keeps_shmOffsetPtr _ s).bind fun ptr => ?_
  exact keeps_finishRing (fun st o _ _ hst => hst) (fun st hst => by simp only; omega) hcond

/-- A queue is bound with one pin. -/
theorem ringBind_returns_pins (hcond : ∀ k, Keeps (fun st => k ≤ st.pins) condFlags)
    (h : Returns (ringBind m r faults slots front view depth itemSize kindText ctrlText condFlags
      first) st st' ()) : st.pins + 1 ≤ st'.pins := by
  obtain ⟨v, hv⟩ := ringBind_ringFits hsrc h
  obtain ⟨-, -, hret⟩ := ((ringBind_fits hsrc hv).1 st').mp h
  exact (hcond (st.pins + 1)).returns le_rfl hret

end Ring

end Source

/-! ## All handles -/

section All

variable {faults : ℕ → BindFaults} {slots : List Slot} {i pins : ℕ} {o : HandleObj}

/-- A handle that binds is followed by the rest. -/
theorem layoutBindAll_returns
    (h : Returns (bindObj p m r (faults i) (ownRecord slots)) ⟨o, pins⟩ st' ())
    (rest : List HandleObj) :
    layoutBindAll p r faults m slots i (o :: rest) pins =
      (st'.obj :: (layoutBindAll p r faults m slots (i + 1) rest st'.pins).1,
        (layoutBindAll p r faults m slots (i + 1) rest st'.pins).2) := by
  obtain ⟨t, ht⟩ := h
  rw [layoutBindAll, ht]

/-- A handle that does not bind ends the loop. -/
theorem layoutBindAll_raises {e : PyError}
    (h : Raises (bindObj p m r (faults i) (ownRecord slots)) ⟨o, pins⟩ st' e)
    (rest : List HandleObj) :
    layoutBindAll p r faults m slots i (o :: rest) pins =
      (st'.obj :: rest, st'.pins, .error e) := by
  obtain ⟨t, ht⟩ := h
  rw [layoutBindAll, ht]

end All

end Spec

/-- The call gets as far as the binding, on a segment with the content `m`. -/
def LayoutInst.Mapped (p : Platform) (segment : Expect → Option (Except PyError SegMem))
    (l : LayoutInst) (m : SegMem) : Prop :=
  (l.sync p).2 = .ok () ∧
    ∃ e, (posixipcLayoutBuild p (l.sync p).1.slots).2 = .ok e ∧ segment e = some (.ok m)

/-- What a call does: it raises before the binding, it raises in the binding, or it seals the
layout. -/
theorem layoutOpen_cases {p : Platform} {r : ℕ} {faults : ℕ → BindFaults}
    {segment : Expect → Option (Except PyError SegMem)} {l : LayoutInst} {x : OpenEnd}
    (hx : layoutOpen p r faults segment l = some x) :
    (∃ e, x = ⟨(l.sync p).1, 0, .error e⟩ ∧ ∀ m, ¬ l.Mapped p segment m) ∨
      ∃ m, (∀ m', l.Mapped p segment m' ↔ m' = m) ∧
        ((∃ objs pins e, layoutBindAll p r faults m (l.sync p).1.slots 0 (l.sync p).1.objs 0 =
            (objs, pins, .error e) ∧ x = ⟨{ (l.sync p).1 with objs := objs }, pins, .error e⟩) ∨
          ∃ objs pins, layoutBindAll p r faults m (l.sync p).1.slots 0 (l.sync p).1.objs 0 =
            (objs, pins, .ok ()) ∧
            x = ⟨{ (l.sync p).1 with objs := objs, sealed := true }, pins, .ok ()⟩) := by
  unfold layoutOpen at hx
  simp only at hx
  rcases hs : (l.sync p).2 with err | ⟨⟨⟩⟩
  · simp only [hs] at hx
    refine Or.inl ⟨err, (Option.some.inj hx).symm, ?_⟩
    rintro m ⟨hok, -⟩
    exact nomatch hs.symm.trans hok
  · simp only [hs] at hx
    rcases hb : (posixipcLayoutBuild p (l.sync p).1.slots).2 with rc | exp
    · simp only [hb] at hx
      refine Or.inl ⟨posixipcErr rc, (Option.some.inj hx).symm, ?_⟩
      rintro m ⟨-, e, hok, -⟩
      exact nomatch hb.symm.trans hok
    · simp only [hb] at hx
      have hmapped : ∀ m, l.Mapped p segment m ↔ segment exp = some (.ok m) := by
        intro m
        constructor
        · rintro ⟨-, e, hok, hm⟩
          rwa [Except.ok.inj (hb.symm.trans hok)]
        · exact fun hm => ⟨hs, exp, hb, hm⟩
      rcases hseg : segment exp with _ | err | m
      · simp only [hseg] at hx
        exact nomatch hx
      · simp only [hseg] at hx
        refine Or.inl ⟨err, (Option.some.inj hx).symm, fun m hm => ?_⟩
        exact nomatch hseg.symm.trans ((hmapped m).mp hm)
      · simp only [hseg] at hx
        refine Or.inr ⟨m, fun m' => ?_, ?_⟩
        · rw [hmapped, hseg]
          constructor
          · exact fun h => (Except.ok.inj (Option.some.inj h)).symm
          · exact fun h => by rw [h]
        · rcases hall : layoutBindAll p r faults m (l.sync p).1.slots 0 (l.sync p).1.objs 0 with
            ⟨objs, pins, err | ⟨⟨⟩⟩⟩
          · simp only [hall] at hx
            exact Or.inl ⟨objs, pins, err, rfl, (Option.some.inj hx).symm⟩
          · simp only [hall] at hx
            exact Or.inr ⟨objs, pins, rfl, (Option.some.inj hx).symm⟩

end PosixIpc
