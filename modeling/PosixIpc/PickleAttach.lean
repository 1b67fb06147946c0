/-
# Pickled handles (`__reduce__` and the `_attach_` functions)

The tuple that the `__reduce__` methods of the eleven handle classes give, and the four module
functions that rebuild a handle from it: `_attach_slot`, `_attach_array`, `_attach_queue` and
`_attach_futex_queue`.  They open the segment by its name without an expectation and find the
slots through the directory of the segment.

* `Pickled` is a tuple, `HandleObj.reduce` makes one;
* `modAttachSlot` and its siblings are what the functions do on the mapped segment; the value of
  such a call is the mutex handle of a Condition, and the handle is left in the state;
* `attachPickled` is the whole call.
-/
import PosixIpc.LayoutOpen

namespace PosixIpc

open StoreProg TracedCall Word32

/-! ## Tuples -/

/-- The arguments of the four functions after the name, as `PyArg_ParseTuple` stores them: each
is an `unsigned int`. -/
inductive Pickled
  | slot (index kind digest : ℕ)
  | array (first count kind digest : ℕ)
  | queue (first depth itemSize digest : ℕ)
  | futexQueue (first depth itemSize digest : ℕ)
  deriving DecidableEq, Repr

/-- The `__reduce__` methods.  `digest` is the digest in the header of the region, `none` when
the region is closed.  A `bind` function sets the process-shared bit with the bound bit. -/
def HandleObj.reduce (digest : Option ℕ) (o : HandleObj) : Except PyError Pickled :=
  if o.closed then .error .closedError
  else if o.bound = false ∨ o.region = none then
    .error (.typeError "cannot pickle a process-private or unbound handle")
  else
    match digest with
    | none => .error .closedError
    | some digest =>
      match o.handle.type with
      | .mutexArray count => .ok (.array o.handle.slot count o.handle.record.kind digest)
      | .queue depth itemSize => .ok (.queue o.handle.slot depth itemSize digest)
      | .futexQueue depth itemSize => .ok (.futexQueue o.handle.slot depth itemSize digest)
      | _ => .ok (.slot o.handle.slot o.handle.record.kind digest)

/-! ## Rebuilding -/

/-- The parts of a rebuild that fail: the clock, an allocation (the region object, the handle,
the handle of a Condition's mutex), or a part of a `bind`. -/
structure PickleFaults where
  deadline : Option Rc
  region : Bool
  handle : Bool
  mutex : Bool
  bind : BindFaults
  bindMutex : BindFaults

/-- Nothing fails. -/
def PickleFaults.none : PickleFaults := ⟨.none, false, false, false, noFaults, noFaults⟩

section Rebuild

variable (p : Platform) (m : SegMem) (r : ℕ) (faults : PickleFaults)

/-- `posixipc_shmobj_from_core`. -/
def shmobjFromCore : BindCall Unit :=
  if faults.region then Call.raise .memoryError else pure ()

/-- A `new_unbound` function: the call goes on with the new handle. -/
def newHandle (fault : Bool) (h : LayoutHandle) : BindCall Unit :=
  if fault then Call.raise .memoryError else setObj fun _ => HandleObj.unbound p h

/-- The end of the functions: the region, the handle and its `bind`. -/
def rebuildHandle (h : LayoutHandle) (bind : BindCall Unit) : BindCall (Option HandleObj) := do
  newHandle p faults.handle h
  bind
  pure none

/-- The class of a mutex slot. -/
def mutexType (kind : ℕ) : HandleType := if kind = kindRobustMutex then .robustMutex else .mutex

/-- The branch of `_attach_slot` for a Condition with the record `s`. -/
def rebuildCondition (slot : ℕ) (s : Slot) : BindCall (Option HandleObj) :=
  let mutexSlot := s.aux
  if mutexSlot ≥ m (.header .slotCount) then
    Call.raise (.layoutMismatchError "condition mutex slot is invalid")
  else do
    let t ← dirRecord m mutexSlot
    if t.kind ≠ kindMutex ∧ t.kind ≠ kindRobustMutex then
      Call.raise (.layoutMismatchError "condition mutex slot is invalid")
    else do
      newHandle p faults.mutex
        (LayoutHandle.newUnbound p (mutexType t.kind) t.kind t.initFlags mutexSlot)
      posixipcMutexBind m r faults.bindMutex (dirRecord m) mutexSlot
      let mutex ← Call.look fun st => st.obj
      newHandle p faults.handle
        (LayoutHandle.newUnbound p (.condition mutexSlot) kindCond s.initFlags slot)
      posixipcCondBind m r faults.bind (dirRecord m) slot
      pure (some mutex)

/-- The branches of `_attach_slot` on the kind of the record `s`. -/
def rebuildKind (slot kind : ℕ) (s : Slot) : BindCall (Option HandleObj) :=
  let dir := dirRecord m
  if kind = kindMutex ∨ kind = kindRobustMutex then
    rebuildHandle p faults (LayoutHandle.newUnbound p (mutexType kind) kind s.initFlags slot)
      (posixipcMutexBind m r faults.bind dir slot)
  else if kind = kindBytes then
    rebuildHandle p faults (posixipcBytesNewUnbound p s.size slot)
      (posixipcBytesBind m r faults.bind dir slot)
  else if kind = kindRwlock then
    rebuildHandle p faults (LayoutHandle.newUnbound p .rwlock kindRwlock s.initFlags slot)
      (posixipcRwlockBind m r faults.bind dir slot)
  else if kind = kindCond then rebuildCondition p m r faults slot s
  else if kind = kindSem then
    rebuildHandle p faults (LayoutHandle.newUnbound p (.semaphore s.aux) kindSem s.initFlags slot)
      (posixipcSemBind m r faults.bind dir slot)
  else if kind = kindBarrier ∧ p.haveBarrier = true then
    rebuildHandle p faults
      (LayoutHandle.newUnbound p (.barrier s.aux) kindBarrier s.initFlags slot)
      (posixipcBarrierBind m r faults.bind dir slot)
  else if kind = kindSpin ∧ p.haveSpinTrylock = true then
    rebuildHandle p faults (LayoutHandle.newUnbound p .spinLock kindSpin s.initFlags slot)
      (posixipcSpinBind m r faults.bind dir slot)
  else Call.raise (.typeError "unsupported pickled kind")

/-- `mod_attach_slot` on the mapped segment.  `posixipc_shm_directory` gives `NULL` for a
segment without slots. -/
def modAttachSlot (slot kind digest : ℕ) : BindCall (Option HandleObj) :=
  if m (.header .layoutDigest) ≠ digest ∨ slot ≥ m (.header .slotCount) then
    Call.raise (.layoutMismatchError "pickled slot does not match segment")
  else if m (.header .slotCount) = 0 then
    Call.raise (.layoutMismatchError "pickled slot kind does not match segment")
  else do
    let s ← dirRecord m slot
    if s.kind ≠ kind then
      Call.raise (.layoutMismatchError "pickled slot kind does not match segment")
    else do
      shmobjFromCore faults
      rebuildKind p m r faults slot kind s

/-- `mod_attach_array` on the mapped segment. -/
def modAttachArray (slot count kind digest : ℕ) : BindCall (Option HandleObj) :=
  if m (.header .layoutDigest) ≠ digest ∨ slot ≥ m (.header .slotCount) ∨
      u32 (slot + count) > m (.header .slotCount) then
    Call.raise (.layoutMismatchError "pickled array does not match segment")
  else if m (.header .slotCount) = 0 then
    Call.raise (.layoutMismatchError "pickled array does not match segment")
  else do
    checkKinds (dirRecord m) "pickled array kind does not match segment" slot 0
      (List.replicate count kind)
    shmobjFromCore faults
    let s ← dirRecord m slot
    rebuildHandle p faults
      (LayoutHandle.newUnbound p (.mutexArray count) kind s.initFlags slot)
      (posixipcMutexarrayBind m r faults.bind (dirRecord m) slot count)

/-- What `mod_attach_queue` and `mod_attach_futex_queue` share: `front` are the kinds in front
of the ring, which needs `need` bytes. -/
def attachRing (front : List ℕ) (need : ℕ) (spanText kindText sizeText : String)
    (h : LayoutHandle) (bind : BindCall Unit) (first digest : ℕ) :
    BindCall (Option HandleObj) :=
  if m (.header .layoutDigest) ≠ digest ∨
      u32 (first + (front.length + 1)) > m (.header .slotCount) then
    Call.raise (.layoutMismatchError spanText)
  else if m (.header .slotCount) = 0 then Call.raise (.layoutMismatchError kindText)
  else do
    checkKinds (dirRecord m) kindText first 0 (front ++ [kindBytes])
    let s ← dirRecord m (u32 (first + front.length))
    if need = 0 ∨ s.size < need then Call.raise (.layoutMismatchError sizeText)
    else do
      shmobjFromCore faults
      rebuildHandle p faults h bind

/-- `mod_attach_queue` on the mapped segment. -/
def modAttachQueue (first depth itemSize digest : ℕ) : BindCall (Option HandleObj) :=
  attachRing p m faults queueFront (posixipcQueueBytesSize p.cacheline depth itemSize)
    "pickled Queue does not match segment" "pickled Queue slot sequence does not match"
    "pickled Queue size does not match segment" (queueNewUnbound (.queue depth itemSize) first)
    (posixipcQueueBind p m r faults.bind (dirRecord m) depth itemSize first) first digest

/-- `mod_attach_futex_queue` on the mapped segment. -/
def modAttachFutexQueue (first depth itemSize digest : ℕ) : BindCall (Option HandleObj) :=
  attachRing p m faults futexQueueFront (posixipcFutexqBytesSize p.cacheline depth itemSize)
    "pickled FutexQueue does not match segment"
    "pickled FutexQueue slot sequence does not match"
    "pickled FutexQueue size does not match segment"
    (queueNewUnbound (.futexQueue depth itemSize) first)
    (posixipcFutexqBind p m r faults.bind (dirRecord m) depth itemSize first) first digest

/-- The call on the mapped segment. -/
def Pickled.rebuild : Pickled → BindCall (Option HandleObj)
  | .slot index kind digest => modAttachSlot p m r faults index kind digest
  | .array first count kind digest => modAttachArray p m r faults first count kind digest
  | .queue first depth itemSize digest => modAttachQueue p m r faults first depth itemSize digest
  | .futexQueue first depth itemSize digest =>
    modAttachFutexQueue p m r faults first depth itemSize digest

/-- The test of the arguments. -/
def Pickled.argError : Pickled → Option PyError
  | .slot _ _ _ => none
  | .array _ count _ _ =>
    if count < 1 then some (.valueError "array count must be positive") else none
  | .queue _ depth itemSize _ =>
    if depth < 1 ∨ itemSize < 1 then
      some (.valueError "Queue depth and item_size must be >= 1")
    else none
  | .futexQueue _ depth itemSize _ =>
    if depth < 1 ∨ itemSize < 1 then
      some (.valueError "FutexQueue depth and item_size must be >= 1")
    else none

/-- There is no handle yet, and the region has no pins. -/
def noHandle : BindState := ⟨HandleObj.unbound p ⟨.mutex, 0, default⟩, 0⟩

/-- A call of one of the four functions on a segment with the content `m`; `none` is a call
that still waits. -/
def attachPickled (env : AttachEnv) (turns : ℕ) (name : List UInt8) (st : Stat) (x : Pickled) :
    Option (Finish BindState Access PyError (Option HandleObj)) :=
  match x.argError with
  | some e => some (Call.raise e (noHandle p))
  | none =>
    match faults.deadline with
    | some rc => some (Call.raise (posixipcErr rc) (noHandle p))
    | none =>
      (attachResult env turns name st m none).map fun rc =>
        if rc ≠ .ok then Call.raise (posixipcErr rc) (noHandle p)
        else x.rebuild p m r faults (noHandle p)

end Rebuild

/-! ## The call without an expectation -/

section Call

open Call

variable {p : Platform} {m : SegMem} {r : ℕ} {faults : PickleFaults} {env : AttachEnv}
  {turns : ℕ} {name : List UInt8} {st : Stat} {x : Pickled}

/-- A published and complete segment is accepted by its magic number alone. -/
theorem attachResult_none_ok (h : Undisturbed env turns name st)
    (hstate : m (.header .state) = stateReady) (hmagic : m (.header .magic) = magicWire)
    (hheader : headerBytes ≤ m (.header .totalSize))
    (htotal : m (.header .totalSize) ≤ st.size) :
    attachResult env turns name st m none = some .ok := by
  rw [attachResult_ready h (by omega) hstate]
  unfold attachReady compareExpect
  rw [Prog.exec_read_bind, if_neg (by omega), h.clean.fstat, orFail_none, if_neg (by omega),
    if_neg (by simp), h.clean.mmapSegment, orFail_none, h.clean.close, orFail_none,
    Prog.exec_bind, Prog.exec_read_bind, if_neg (not_not.mpr hmagic), h.clean.dupName]
  rfl

/-- What the whole call is, once the segment is mapped. -/
theorem attachPickled_eq (harg : x.argError = none) (hdl : faults.deadline = none)
    (hatt : attachResult env turns name st m none = some .ok) :
    attachPickled p m r faults env turns name st x =
      some (x.rebuild p m r faults (noHandle p)) := by
  unfold attachPickled
  rw [harg, hdl, hatt]
  rfl

end Call

end PosixIpc
