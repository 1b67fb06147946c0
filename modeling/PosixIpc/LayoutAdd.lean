/-
# Adding to a layout (`py_layout.c`)

`Layout.add`, `Layout.add_bytes` and `Layout.add_array` as functions on the layout object.

* `LayoutObj` holds the slots, the capacity of their array and the handles; a Condition names
  its mutex handle by the slot of that handle;
* `layoutAdd`, `layoutAddBytes`, `layoutAddArray` return the layout they leave and the
  exception they raise, if any; `AllocFault` says which allocation fails;
* `Blocks` is the invariant of every sequence of adds: the slots are the blocks of the
  handles, one after the other.
-/
import PosixIpc.LayoutBuild

namespace PosixIpc

open Word32

/-! ## Exceptions -/

/-- The exceptions, with their texts. -/
inductive PyError
  | typeError (text : String)
  | valueError (text : String)
  | overflowError (text : String)
  | runtimeError (text : String)
  | notImplementedError (text : String)
  | timeoutError (text : String)
  | layoutMismatchError (text : String)
  | posixIPCError (text : String)
  | osError (rc : Rc)
  | memoryError
  /-- `ClosedError`, from `posixipc_raise_closed`. -/
  | closedError
  /-- The exception of a signal handler, which is already set. -/
  | pending
  deriving DecidableEq, Repr

/-- `posixipc_err` on a code that is not `0`. -/
def posixipcErr : Rc → PyError
  | .interrupted => .pending
  | .notReady => .timeoutError "shared memory segment not ready"
  | .broken => .layoutMismatchError "shared memory layout or ABI mismatch"
  | .layoutMismatch => .layoutMismatchError "shared memory layout or ABI mismatch"
  | .etimedout => .posixIPCError "internal posixipc error code"
  | .ebusy => .posixIPCError "internal posixipc error code"
  | rc => .osError rc

/-! ## Flags -/

/-- `POSIXIPC_FLAG_ROBUST`. -/
def flagRobust : ℕ := 1
/-- `POSIXIPC_FLAG_PROCESS_SHARED`. -/
def flagProcessShared : ℕ := 2
/-- `POSIXIPC_FLAG_PRIORITY_INHERIT`. -/
def flagPriorityInherit : ℕ := 32
/-- `POSIXIPC_FLAG_MONOTONIC`. -/
def flagMonotonic : ℕ := 64
/-- `POSIXIPC_SLOT_AUX_SHIFT`. -/
def slotAuxShift : ℕ := 16

/-- A number in the upper half of the flags of a slot. -/
def auxFlags (n : ℕ) : ℕ := u32 (n <<< slotAuxShift)

/-- The number in the upper half. -/
def Slot.aux (s : Slot) : ℕ := s.initFlags >>> slotAuxShift

/-- The clock bit of a condition. -/
def Platform.condFlags (p : Platform) : ℕ := if p.haveSetclock then flagMonotonic else 0

/-! ## Handles -/

/-- The class of a handle, with its own parameters. -/
inductive HandleType
  | mutex
  | robustMutex
  | rwlock
  /-- The slot of the mutex handle. -/
  | condition (mutex : ℕ)
  | semaphore (value : ℕ)
  | barrier (parties : ℕ)
  | spinLock
  | sharedBytes
  | mutexArray (count : ℕ)
  | queue (depth itemSize : ℕ)
  | futexQueue (depth itemSize : ℕ)
  deriving DecidableEq, Repr

/-- A handle of a layout, without the fields that `bind` adds. -/
structure LayoutHandle where
  type : HandleType
  /-- `slot` or `first_slot`. -/
  slot : ℕ
  /-- `kind`, `align`, `offset`, `size`, `init_flags`; a queue handle has no such fields. -/
  record : Slot
  deriving DecidableEq, Repr

/-- `POSIXIPC_QUEUE_SLOTS`. -/
def queueSlotCount : ℕ := 5
/-- `POSIXIPC_FUTEX_QUEUE_SLOTS`. -/
def futexQueueSlotCount : ℕ := 3

/-- The number of slots of a handle, from `layout_handle_span`. -/
def LayoutHandle.count (h : LayoutHandle) : ℕ :=
  match h.type with
  | .mutexArray count => count
  | .queue _ _ => queueSlotCount
  | .futexQueue _ _ => futexQueueSlotCount
  | _ => 1

/-- `posixipc_mutex_new_unbound` and its siblings for the other kinds of one slot. -/
def LayoutHandle.newUnbound (p : Platform) (type : HandleType) (kind initFlags slot : ℕ) :
    LayoutHandle where
  type := type
  slot := slot
  record := ⟨kind, p.posixipcKindAlign kind % 2 ^ 16, 0, p.posixipcKindSize kind 0, initFlags⟩

/-- `posixipc_bytes_new_unbound`. -/
def posixipcBytesNewUnbound (p : Platform) (size slot : ℕ) : LayoutHandle where
  type := .sharedBytes
  slot := slot
  record := ⟨kindBytes, p.posixipcKindAlign kindBytes % 2 ^ 16, 0, size, 0⟩

/-- `posixipc_queue_new_unbound` and `posixipc_futexq_new_unbound`. -/
def queueNewUnbound (type : HandleType) (slot : ℕ) : LayoutHandle := ⟨type, slot, default⟩

/-- `layout_apply_slot_meta`. -/
def LayoutHandle.applySlotMeta (h : LayoutHandle) (s : Slot) : LayoutHandle :=
  match h.type with
  | .queue _ _ => h
  | .futexQueue _ _ => h
  | _ => { h with record :=
      { h.record with align := s.align, offset := s.offset, size := s.size } }

/-! ## The layout object -/

/-- `PosixIPCLayoutObject`; `slots` are the first `nslots` entries of the array. -/
structure LayoutObj where
  slots : List Slot
  cap : ℕ
  handles : List LayoutHandle
  sealed : Bool
  deriving DecidableEq, Repr

/-- A fresh layout. -/
def LayoutObj.empty : LayoutObj := ⟨[], 0, [], false⟩

/-- `l->nslots`. -/
def LayoutObj.nslots (l : LayoutObj) : ℕ := l.slots.length

/-- The allocation of an add that fails. -/
inductive AllocFault
  | none
  | realloc
  | handle
  | append
  deriving DecidableEq, Repr

/-- The loop of `layout_ensure`; a capacity doubles at most sixteen times. -/
def growCap : ℕ → ℕ → ℕ → ℕ
  | 0, ncap, _ => ncap
  | fuel + 1, ncap, need =>
    if ncap < need then
      let next := ncap * 2 % 2 ^ 16
      if next ≤ ncap then 0xffff else growCap fuel next need
    else ncap

/-- `layout_ensure`. -/
def layoutEnsure (l : LayoutObj) (need : ℕ) (fault : AllocFault) : Except PyError LayoutObj :=
  if need > 0xffff then .error (.overflowError "too many layout slots")
  else if need ≤ l.cap then .ok l
  else if fault = .realloc then .error .memoryError
  else .ok { l with cap := growCap 16 (if l.cap = 0 then 4 else l.cap) need }

/-- The loop of `layout_sync` over the handles. -/
def syncHandles (slots : List Slot) : List LayoutHandle → List LayoutHandle × Except PyError Unit
  | [] => ([], .ok ())
  | h :: rest =>
    if h.count = 0 ∨ h.slot ≥ slots.length ∨ u32 (h.slot + h.count) > slots.length then
      (h :: rest, .error (.runtimeError "layout handle slot is invalid"))
    else
      let r := syncHandles slots rest
      (h.applySlotMeta (slots.getD h.slot default) :: r.1, r.2)

/-- `layout_sync`. -/
def layoutSync (p : Platform) (l : LayoutObj) : LayoutObj × Except PyError Unit :=
  let b := posixipcLayoutBuild p l.slots
  match b.2 with
  | .error rc => ({ l with slots := b.1 }, .error (posixipcErr rc))
  | .ok _ =>
    let r := syncHandles b.1 l.handles
    ({ l with slots := b.1, handles := r.1 }, r.2)

/-- What `layout_commit`, `layout_commit_n` and `layout_commit_span` share: append the handle,
count its slots, and take both back if the layout does not build. -/
def commitSlots (p : Platform) (l : LayoutObj) (h : LayoutHandle) (slots : List Slot)
    (fault : AllocFault) : LayoutObj × Except PyError Unit :=
  if fault = .append then (l, .error .memoryError)
  else
    let r := layoutSync p { l with slots := l.slots ++ slots, handles := l.handles ++ [h] }
    match r.2 with
    | .ok () => r
    | .error e =>
      ({ r.1 with slots := r.1.slots.take l.nslots, handles := r.1.handles.dropLast }, .error e)

/-- `layout_commit`. -/
def layoutCommit (p : Platform) (l : LayoutObj) (h : LayoutHandle) (slot : Slot)
    (fault : AllocFault) : LayoutObj × Except PyError Unit :=
  commitSlots p l h [slot] fault

/-- `layout_commit_n`. -/
def layoutCommitN (p : Platform) (l : LayoutObj) (h : LayoutHandle) (slot : Slot) (n : ℕ)
    (fault : AllocFault) : LayoutObj × Except PyError Unit :=
  if n = 0 then (l, .error (.valueError "array count must be positive"))
  else commitSlots p l h (List.replicate n slot) fault

/-- `layout_commit_span`. -/
def layoutCommitSpan (p : Platform) (l : LayoutObj) (h : LayoutHandle) (slots : List Slot)
    (fault : AllocFault) : LayoutObj × Except PyError Unit :=
  if slots.length = 0 then (l, .error (.valueError "slot span must be positive"))
  else commitSlots p l h slots fault

/-! ## The adds -/

/-- The arguments `kind` that the code tells apart; a subclass of a mutex class counts as the
class. -/
inductive AddKind
  | mutex
  | robustMutex
  | rwlock
  | condition
  | semaphore
  | barrier
  | spinLock
  | queue
  | futexQueue
  | futex
  | eventFD
  | memFD
  | namedMessageQueue
  | other
  deriving DecidableEq, Repr

/-- The argument `mutex`: a handle of this layout, or an object that is none. -/
inductive MutexRef
  | handle (i : ℕ)
  | foreign (isMutex : Bool)
  deriving DecidableEq, Repr

/-- The argument `on_owner_died`. -/
inductive OwnerDied
  | absent
  | callable
  | notCallable
  deriving DecidableEq, Repr

/-- The arguments of `Layout.add`; the numbers are `Py_ssize_t`. -/
structure AddArgs where
  kind : AddKind
  onOwnerDied : OwnerDied
  prioInherit : Bool
  processShared : Bool
  mutex : Option MutexRef
  value : ℤ
  parties : ℤ
  depth : ℤ
  itemSize : ℤ
  deriving DecidableEq, Repr

/-- An exception, with the layout as it was. -/
def LayoutObj.raise (l : LayoutObj) (e : PyError) : LayoutObj × Except PyError Unit :=
  (l, .error e)

/-- A slot as an add fills it in: no offset yet, and no size or alignment of its own. -/
def Slot.fresh (kind initFlags : ℕ) : Slot := ⟨kind, 0, 0, 0, initFlags⟩

/-- A slot of `size` bytes. -/
def Slot.bytes (p : Platform) (size initFlags : ℕ) : Slot :=
  ⟨kindBytes, p.posixipcKindAlign kindBytes % 2 ^ 16, 0, size, initFlags⟩

/-- The mix of the geometry in the flags of a ring; `0` is replaced. -/
def ringFlags (salt depth itemSize : ℕ) : ℕ :=
  let mix := u32 (depth * 0x9e3779b1) ^^^ u32 (itemSize * 0x85ebca77) ^^^ salt
  if mix = 0 then 1 else mix

/-- The five slots of a queue. -/
def queueSlots (p : Platform) (first depth itemSize padded : ℕ) : List Slot :=
  let mutexFlags := flagProcessShared ||| flagRobust
  [ Slot.fresh kindRobustMutex mutexFlags,
    Slot.fresh kindRobustMutex mutexFlags,
    Slot.fresh kindCond (flagProcessShared ||| auxFlags first ||| p.condFlags),
    Slot.fresh kindCond (flagProcessShared ||| auxFlags (first + 1) ||| p.condFlags),
    Slot.bytes p padded (ringFlags 0 depth itemSize) ]

/-- The three slots of a futex queue. -/
def futexQueueSlots (p : Platform) (depth itemSize padded : ℕ) : List Slot :=
  let mutexFlags := flagProcessShared ||| flagRobust
  [ Slot.fresh kindRobustMutex mutexFlags,
    Slot.fresh kindRobustMutex mutexFlags,
    Slot.bytes p padded (ringFlags 0x46555121 depth itemSize) ]

/-- `layout_add_queue`. -/
def layoutAddQueue (p : Platform) (l : LayoutObj) (depth itemSize : ℤ) (onOwnerDied : OwnerDied)
    (fault : AllocFault) : LayoutObj × Except PyError Unit :=
  if onOwnerDied ≠ .absent then l.raise (.typeError "Queue does not take on_owner_died")
  else if depth < 1 ∨ itemSize < 1 ∨ depth > 0xffffffff ∨ itemSize > 0xffffffff then
    l.raise (.valueError "Queue requires depth= and item_size= >= 1")
  else
    let nbytes := posixipcQueueBytesSize p.cacheline depth.toNat itemSize.toNat
    if nbytes = 0 then l.raise (.valueError "Queue size out of range")
    else
      let padded := p.posixipcKindSize kindBytes nbytes
      if padded = 0 then l.raise (.valueError "Queue size out of range")
      else
        match layoutEnsure l (l.nslots + queueSlotCount) fault with
        | .error e => l.raise e
        | .ok l =>
          if fault = .handle then l.raise .memoryError
          else
            layoutCommitSpan p l
              (queueNewUnbound (.queue depth.toNat itemSize.toNat) l.nslots)
              (queueSlots p l.nslots depth.toNat itemSize.toNat padded) fault

/-- `layout_add_futex_queue`. -/
def layoutAddFutexQueue (p : Platform) (l : LayoutObj) (depth itemSize : ℤ)
    (onOwnerDied : OwnerDied) (fault : AllocFault) : LayoutObj × Except PyError Unit :=
  if onOwnerDied ≠ .absent then l.raise (.typeError "FutexQueue does not take on_owner_died")
  else if depth < 1 ∨ itemSize < 1 ∨ depth > 0xffffffff ∨ itemSize > 0xffffffff then
    l.raise (.valueError "FutexQueue requires depth= and item_size= >= 1")
  else
    let nbytes := posixipcFutexqBytesSize p.cacheline depth.toNat itemSize.toNat
    if nbytes = 0 then l.raise (.valueError "FutexQueue size out of range")
    else
      let padded := p.posixipcKindSize kindBytes nbytes
      if padded = 0 then l.raise (.valueError "FutexQueue size out of range")
      else
        match layoutEnsure l (l.nslots + futexQueueSlotCount) fault with
        | .error e => l.raise e
        | .ok l =>
          if fault = .handle then l.raise .memoryError
          else
            layoutCommitSpan p l
              (queueNewUnbound (.futexQueue depth.toNat itemSize.toNat) l.nslots)
              (futexQueueSlots p depth.toNat itemSize.toNat padded) fault

/-- The flags of a mutex slot. -/
def mutexInitFlags (robust prioInherit : Bool) : ℕ :=
  let flags := if robust then flagProcessShared ||| flagRobust else flagProcessShared
  if prioInherit then flags ||| flagPriorityInherit else flags

/-- A mutex handle of the layout, by its position; `layout_mutex_index` gives its slot. -/
def LayoutObj.mutexIndex (l : LayoutObj) (i : ℕ) : Option ℕ :=
  match l.handles[i]? with
  | some h => if h.type = .mutex ∨ h.type = .robustMutex then some h.slot else none
  | none => none

/-- Make the handle of one slot and commit both. -/
def LayoutObj.addOne (p : Platform) (l : LayoutObj) (type : HandleType) (kind initFlags : ℕ)
    (fault : AllocFault) : LayoutObj × Except PyError Unit :=
  if fault = .handle then l.raise .memoryError
  else
    layoutCommit p l (LayoutHandle.newUnbound p type kind initFlags l.nslots)
      (Slot.fresh kind initFlags) fault

/-- `layout_add` after the queues were dealt with and a slot was reserved. -/
def layoutAddSlot (p : Platform) (l : LayoutObj) (a : AddArgs) (fault : AllocFault) :
    LayoutObj × Except PyError Unit :=
  match a.kind with
  | .mutex =>
    if a.onOwnerDied ≠ .absent then l.raise (.typeError "Mutex does not take on_owner_died")
    else l.addOne p .mutex kindMutex (mutexInitFlags false a.prioInherit) fault
  | .robustMutex =>
    match a.onOwnerDied with
    | .absent => l.raise (.typeError "RobustMutex requires on_owner_died")
    | .notCallable => l.raise (.typeError "on_owner_died must be callable")
    | .callable =>
      l.addOne p .robustMutex kindRobustMutex (mutexInitFlags true a.prioInherit) fault
  | .rwlock => l.addOne p .rwlock kindRwlock flagProcessShared fault
  | .condition =>
    match a.mutex with
    | none => l.raise (.typeError "Condition requires mutex=")
    | some (.foreign false) => l.raise (.typeError "mutex must be a posixipc.Mutex")
    | some (.foreign true) =>
      l.raise (.valueError "Condition mutex must be added to the same Layout")
    | some (.handle i) =>
      match l.mutexIndex i with
      | none => l.raise (.typeError "mutex must be a posixipc.Mutex")
      | some index =>
        l.addOne p (.condition index) kindCond
          (flagProcessShared ||| auxFlags index ||| p.condFlags) fault
  | .semaphore =>
    if a.value < 0 ∨ a.value > 0xffff then l.raise (.valueError "Semaphore value out of range")
    else
      l.addOne p (.semaphore a.value.toNat) kindSem
        (flagProcessShared ||| auxFlags a.value.toNat) fault
  | .barrier =>
    if p.haveBarrier = false then l.raise (.typeError "unsupported layout kind")
    else if a.parties < 1 ∨ a.parties > 0xffff then
      l.raise (.typeError "Barrier requires parties=")
    else
      l.addOne p (.barrier a.parties.toNat) kindBarrier
        (flagProcessShared ||| auxFlags a.parties.toNat) fault
  | .spinLock =>
    if p.haveSpinTrylock = false then l.raise (.typeError "unsupported layout kind")
    else l.addOne p .spinLock kindSpin flagProcessShared fault
  | _ => l.raise (.typeError "unsupported layout kind")

/-- `layout_add`. -/
def layoutAdd (p : Platform) (l : LayoutObj) (a : AddArgs) (fault : AllocFault) :
    LayoutObj × Except PyError Unit :=
  if l.sealed then l.raise (.runtimeError "layout is sealed")
  else if a.processShared = false then
    l.raise (.valueError "Layout.add() always creates process-shared slots")
  else if a.kind = .queue then layoutAddQueue p l a.depth a.itemSize a.onOwnerDied fault
  else if a.kind = .futexQueue then
    layoutAddFutexQueue p l a.depth a.itemSize a.onOwnerDied fault
  else if a.kind = .futex then l.raise (.typeError "Futex is not a Layout kind")
  else if a.kind = .eventFD then l.raise (.typeError "EventFD is not a Layout kind")
  else if a.kind = .memFD then l.raise (.typeError "MemFD is not a Layout kind")
  else if a.kind = .namedMessageQueue then
    l.raise (.typeError "NamedMessageQueue is not a Layout kind; use create() or attach()")
  else
    match layoutEnsure l (l.nslots + 1) fault with
    | .error e => l.raise e
    | .ok l => layoutAddSlot p l a fault

/-- `layout_add_bytes`. -/
def layoutAddBytes (p : Platform) (l : LayoutObj) (size : ℤ) (fault : AllocFault) :
    LayoutObj × Except PyError Unit :=
  if l.sealed then l.raise (.runtimeError "layout is sealed")
  else if size ≤ 0 ∨ size > uint32Max then l.raise (.valueError "size must be positive")
  else
    let padded := p.posixipcKindSize kindBytes size.toNat
    if padded = 0 then l.raise (.valueError "size out of range")
    else
      match layoutEnsure l (l.nslots + 1) fault with
      | .error e => l.raise e
      | .ok l =>
        if fault = .handle then l.raise .memoryError
        else
          commitSlots p l (posixipcBytesNewUnbound p padded l.nslots)
            [Slot.bytes p padded 0] fault

/-- `layout_add_array` after its arguments were checked: the slots and the array handle. -/
def addArraySlots (p : Platform) (l : LayoutObj) (kind initFlags count : ℕ)
    (fault : AllocFault) : LayoutObj × Except PyError Unit :=
  match layoutEnsure l (l.nslots + count) fault with
  | .error e => l.raise e
  | .ok l =>
    if fault = .handle then l.raise .memoryError
    else
      layoutCommitN p l (LayoutHandle.newUnbound p (.mutexArray count) kind initFlags l.nslots)
        (Slot.fresh kind initFlags) count fault

/-- `layout_add_array`. -/
def layoutAddArray (p : Platform) (l : LayoutObj) (kind : AddKind) (count : ℤ)
    (onOwnerDied : OwnerDied) (prioInherit processShared : Bool) (fault : AllocFault) :
    LayoutObj × Except PyError Unit :=
  if l.sealed then l.raise (.runtimeError "layout is sealed")
  else if processShared = false then
    l.raise (.valueError "Layout.add_array() always creates process-shared slots")
  else if count < 1 ∨ count > 0xffff then
    l.raise (.valueError "array count must be in 1..65535")
  else
    match kind with
    | .mutex =>
      if onOwnerDied ≠ .absent then l.raise (.typeError "Mutex does not take on_owner_died")
      else addArraySlots p l kindMutex (mutexInitFlags false prioInherit) count.toNat fault
    | .robustMutex =>
      match onOwnerDied with
      | .absent => l.raise (.typeError "RobustMutex requires on_owner_died")
      | .notCallable => l.raise (.typeError "on_owner_died must be callable")
      | .callable =>
        addArraySlots p l kindRobustMutex (mutexInitFlags true prioInherit) count.toNat fault
    | _ => l.raise (.typeError "add_array() supports Mutex and RobustMutex")

/-- The three methods that add. -/
inductive AddOp
  | add (a : AddArgs)
  | addBytes (size : ℤ)
  | addArray (kind : AddKind) (count : ℤ) (onOwnerDied : OwnerDied)
      (prioInherit processShared : Bool)
  deriving DecidableEq, Repr

def LayoutObj.apply (p : Platform) (l : LayoutObj) (op : AddOp) (fault : AllocFault) :
    LayoutObj × Except PyError Unit :=
  match op with
  | .add a => layoutAdd p l a fault
  | .addBytes size => layoutAddBytes p l size fault
  | .addArray kind count onOwnerDied prioInherit processShared =>
    layoutAddArray p l kind count onOwnerDied prioInherit processShared fault

/-- The handle and the slots of one add of one slot. -/
def LayoutObj.oneRequest (p : Platform) (l : LayoutObj) (type : HandleType) (kind initFlags : ℕ) :
    LayoutHandle × List Slot :=
  (LayoutHandle.newUnbound p type kind initFlags l.nslots, [Slot.fresh kind initFlags])

/-- The handle and the slots that `Layout.add` asks for; `none` for a kind it refuses. -/
def AddArgs.request (p : Platform) (l : LayoutObj) (a : AddArgs) :
    Option (LayoutHandle × List Slot) :=
  match a.kind with
  | .mutex => some (l.oneRequest p .mutex kindMutex (mutexInitFlags false a.prioInherit))
  | .robustMutex =>
    some (l.oneRequest p .robustMutex kindRobustMutex (mutexInitFlags true a.prioInherit))
  | .rwlock => some (l.oneRequest p .rwlock kindRwlock flagProcessShared)
  | .condition =>
    match a.mutex with
    | some (.handle i) => (l.mutexIndex i).map fun index =>
      l.oneRequest p (.condition index) kindCond
        (flagProcessShared ||| auxFlags index ||| p.condFlags)
    | _ => none
  | .semaphore =>
    some (l.oneRequest p (.semaphore a.value.toNat) kindSem
      (flagProcessShared ||| auxFlags a.value.toNat))
  | .barrier =>
    some (l.oneRequest p (.barrier a.parties.toNat) kindBarrier
      (flagProcessShared ||| auxFlags a.parties.toNat))
  | .spinLock => some (l.oneRequest p .spinLock kindSpin flagProcessShared)
  | .queue =>
    let depth := a.depth.toNat
    let itemSize := a.itemSize.toNat
    some (queueNewUnbound (.queue depth itemSize) l.nslots,
      queueSlots p l.nslots depth itemSize
        (p.posixipcKindSize kindBytes (posixipcQueueBytesSize p.cacheline depth itemSize)))
  | .futexQueue =>
    let depth := a.depth.toNat
    let itemSize := a.itemSize.toNat
    some (queueNewUnbound (.futexQueue depth itemSize) l.nslots,
      futexQueueSlots p depth itemSize
        (p.posixipcKindSize kindBytes (posixipcFutexqBytesSize p.cacheline depth itemSize)))
  | _ => none

/-- **The handle and the slots that a method asks for**, as they are before any build. -/
def AddOp.request (p : Platform) (l : LayoutObj) : AddOp → Option (LayoutHandle × List Slot)
  | .add a => a.request p l
  | .addBytes size =>
    let padded := p.posixipcKindSize kindBytes size.toNat
    some (posixipcBytesNewUnbound p padded l.nslots, [Slot.bytes p padded 0])
  | .addArray kind count _ prioInherit _ =>
    let robust := kind = .robustMutex
    let slotKind := if robust then kindRobustMutex else kindMutex
    let flags := mutexInitFlags robust prioInherit
    some (LayoutHandle.newUnbound p (.mutexArray count.toNat) slotKind flags l.nslots,
      List.replicate count.toNat (Slot.fresh slotKind flags))

/-- The layouts that successful adds build. -/
inductive Added (p : Platform) : LayoutObj → Prop
  | empty : Added p .empty
  | step {l l' : LayoutObj} {op : AddOp} {fault : AllocFault} : Added p l →
      l.apply p op fault = (l', .ok ()) → Added p l'

/-! ## What a successful add does -/

section Inversion

variable {p : Platform} {l l' : LayoutObj} {fault : AllocFault}

/-- A check that raises was passed. -/
theorem of_raise {c : Prop} [Decidable c] {e : PyError} {x : LayoutObj × Except PyError Unit}
    (h : (if c then l.raise e else x) = (l', .ok ())) : ¬c ∧ x = (l', .ok ()) := by
  by_cases hc : c
  · rw [if_pos hc] at h
    exact absurd (congrArg Prod.snd h) (by simp [LayoutObj.raise])
  · rw [if_neg hc] at h
    exact ⟨hc, h⟩

theorem raise_ne {e : PyError} (h : l.raise e = (l', .ok ())) : False :=
  absurd (congrArg Prod.snd h) (by simp [LayoutObj.raise])

/-- The handle and the slots of one add of one slot. -/
inductive OneSlot (p : Platform) (l : LayoutObj) : HandleType → ℕ → ℕ → Prop
  | mutex (prio : Bool) : OneSlot p l .mutex kindMutex (mutexInitFlags false prio)
  | robustMutex (prio : Bool) :
      OneSlot p l .robustMutex kindRobustMutex (mutexInitFlags true prio)
  | rwlock : OneSlot p l .rwlock kindRwlock flagProcessShared
  | condition {i index : ℕ} : l.mutexIndex i = some index →
      OneSlot p l (.condition index) kindCond
        (flagProcessShared ||| auxFlags index ||| p.condFlags)
  | semaphore {value : ℕ} : value ≤ 0xffff →
      OneSlot p l (.semaphore value) kindSem (flagProcessShared ||| auxFlags value)
  | barrier {parties : ℕ} : p.haveBarrier = true → parties ≤ 0xffff →
      OneSlot p l (.barrier parties) kindBarrier (flagProcessShared ||| auxFlags parties)
  | spinLock : p.haveSpinTrylock = true → OneSlot p l .spinLock kindSpin flagProcessShared

/-- The handle and the slots that an add appends. -/
inductive SlotRequest (p : Platform) (l : LayoutObj) : LayoutHandle → List Slot → Prop
  | one {type : HandleType} {kind flags : ℕ} : OneSlot p l type kind flags →
      SlotRequest p l (LayoutHandle.newUnbound p type kind flags l.nslots) [Slot.fresh kind flags]
  | bytes {padded : ℕ} : padded ≠ 0 →
      SlotRequest p l (posixipcBytesNewUnbound p padded l.nslots) [Slot.bytes p padded 0]
  | array {kind flags count : ℕ} : kind = kindMutex ∨ kind = kindRobustMutex → count ≠ 0 →
      SlotRequest p l (LayoutHandle.newUnbound p (.mutexArray count) kind flags l.nslots)
        (List.replicate count (Slot.fresh kind flags))
  | queue {depth itemSize : ℕ} : depth ≤ uint32Max → itemSize ≤ uint32Max →
      posixipcQueueBytesSize p.cacheline depth itemSize ≠ 0 →
      p.posixipcKindSize kindBytes (posixipcQueueBytesSize p.cacheline depth itemSize) ≠ 0 →
      SlotRequest p l (queueNewUnbound (.queue depth itemSize) l.nslots)
        (queueSlots p l.nslots depth itemSize
          (p.posixipcKindSize kindBytes (posixipcQueueBytesSize p.cacheline depth itemSize)))
  | futexQueue {depth itemSize : ℕ} : depth ≤ uint32Max → itemSize ≤ uint32Max →
      posixipcFutexqBytesSize p.cacheline depth itemSize ≠ 0 →
      p.posixipcKindSize kindBytes (posixipcFutexqBytesSize p.cacheline depth itemSize) ≠ 0 →
      SlotRequest p l (queueNewUnbound (.futexQueue depth itemSize) l.nslots)
        (futexQueueSlots p depth itemSize
          (p.posixipcKindSize kindBytes (posixipcFutexqBytesSize p.cacheline depth itemSize)))

/-- The slots and the handle are appended, and the layout is built anew. -/
structure Appends (p : Platform) (l : LayoutObj) (h : LayoutHandle) (blk : List Slot)
    (l' : LayoutObj) : Prop where
  request : SlotRequest p l h blk
  count : l.nslots + blk.length ≤ 0xffff
  sync : ∃ cap, layoutSync p
    { l with slots := l.slots ++ blk, cap := cap, handles := l.handles ++ [h] } = (l', .ok ())

theorem commitSlots_ok {h : LayoutHandle} {blk : List Slot}
    (hok : commitSlots p l h blk fault = (l', .ok ())) :
    layoutSync p { l with slots := l.slots ++ blk, handles := l.handles ++ [h] }
      = (l', .ok ()) := by
  unfold commitSlots at hok
  split_ifs at hok
  · exact absurd (congrArg Prod.snd hok) (by simp)
  · simp only at hok
    split at hok
    · exact hok
    · exact absurd (congrArg Prod.snd hok) (by simp)

/-- `layout_ensure` changes the capacity only. -/
theorem layoutEnsure_ok {need : ℕ} (h : layoutEnsure l need fault = .ok l') :
    need ≤ 0xffff ∧ l' = { l with cap := l'.cap } := by
  unfold layoutEnsure at h
  by_cases h1 : need > 0xffff
  · simp [h1] at h
  · rw [if_neg h1] at h
    refine ⟨by omega, ?_⟩
    by_cases h2 : need ≤ l.cap
    · rw [if_pos h2] at h
      rw [← Except.ok.inj h]
    · rw [if_neg h2] at h
      by_cases h3 : fault = .realloc
      · simp [h3] at h
      · rw [if_neg h3] at h
        rw [← Except.ok.inj h]

theorem layoutEnsure_nslots {need : ℕ} (h : layoutEnsure l need fault = .ok l') :
    l'.nslots = l.nslots := by
  rw [(layoutEnsure_ok h).2]
  rfl

/-- A request that is committed after the slots were reserved. -/
theorem appends_of_commit {l₁ : LayoutObj} {h : LayoutHandle} {blk : List Slot} {n : ℕ}
    (hens : layoutEnsure l (l.nslots + n) fault = .ok l₁) (hreq : SlotRequest p l h blk)
    (hlen : blk.length = n) (hok : commitSlots p l₁ h blk fault = (l', .ok ())) :
    Appends p l h blk l' := by
  obtain ⟨hn, hl⟩ := layoutEnsure_ok hens
  rw [hl] at hok
  exact ⟨hreq, by omega, l₁.cap, commitSlots_ok hok⟩

/-- Only the capacity differs, so the request is the same. -/
theorem oneSlot_cap {cap : ℕ} {type : HandleType} {kind flags : ℕ}
    (h : OneSlot p { l with cap := cap } type kind flags) : OneSlot p l type kind flags := by
  cases h with
  | mutex prio => exact .mutex prio
  | robustMutex prio => exact .robustMutex prio
  | rwlock => exact .rwlock
  | condition hi => exact .condition hi
  | semaphore hv => exact .semaphore hv
  | barrier hb hv => exact .barrier hb hv
  | spinLock hs => exact .spinLock hs

/-- A successful `addOne` commits its slot. -/
theorem addOne_ok {l₁ : LayoutObj} {type : HandleType} {kind flags : ℕ}
    (h : l₁.addOne p type kind flags fault = (l', .ok ())) :
    commitSlots p l₁ (LayoutHandle.newUnbound p type kind flags l₁.nslots)
      [Slot.fresh kind flags] fault = (l', .ok ()) := by
  unfold LayoutObj.addOne at h
  exact (of_raise h).2

/-- A successful add of one slot commits what it asks for. -/
theorem layoutAddSlot_ok {a : AddArgs} (h : layoutAddSlot p l a fault = (l', .ok ())) :
    ∃ type kind flags, OneSlot p l type kind flags ∧
      a.request p l = some (l.oneRequest p type kind flags) ∧
      commitSlots p l (LayoutHandle.newUnbound p type kind flags l.nslots)
        [Slot.fresh kind flags] fault = (l', .ok ()) := by
  unfold layoutAddSlot at h
  unfold AddArgs.request
  split at h
  · exact ⟨_, _, _, .mutex _, by simp only [*], addOne_ok (of_raise h).2⟩
  · split at h
    · exact (raise_ne h).elim
    · exact (raise_ne h).elim
    · exact ⟨_, _, _, .robustMutex _, by simp only [*], addOne_ok h⟩
  · exact ⟨_, _, _, .rwlock, by simp only [*], addOne_ok h⟩
  · split at h
    · exact (raise_ne h).elim
    · exact (raise_ne h).elim
    · exact (raise_ne h).elim
    · split at h
      · exact (raise_ne h).elim
      · rename_i hi
        exact ⟨_, _, _, .condition hi, by simp only [*, Option.map_some], addOne_ok h⟩
  · obtain ⟨hv, h⟩ := of_raise h
    exact ⟨_, _, _, .semaphore (by omega), by simp only [*], addOne_ok h⟩
  · obtain ⟨hb, h⟩ := of_raise h
    obtain ⟨hv, h⟩ := of_raise h
    exact ⟨_, _, _, .barrier (by simpa using hb) (by omega), by simp only [*], addOne_ok h⟩
  · obtain ⟨hs, h⟩ := of_raise h
    exact ⟨_, _, _, .spinLock (by simpa using hs), by simp only [*], addOne_ok h⟩
  · exact (raise_ne h).elim

theorem layoutAddQueue_ok {a : AddArgs} (hkind : a.kind = .queue)
    (h : layoutAddQueue p l a.depth a.itemSize a.onOwnerDied fault = (l', .ok ())) :
    ∃ g blk, a.request p l = some (g, blk) ∧ Appends p l g blk l' := by
  unfold layoutAddQueue at h
  obtain ⟨-, h⟩ := of_raise h
  obtain ⟨hrange, h⟩ := of_raise h
  simp only at h
  obtain ⟨hsize, h⟩ := of_raise h
  obtain ⟨hpad, h⟩ := of_raise h
  push Not at hrange
  split at h
  · exact (raise_ne h).elim
  · rename_i l₁ hens
    obtain ⟨-, h⟩ := of_raise h
    unfold layoutCommitSpan at h
    rw [if_neg (by simp [queueSlots])] at h
    rw [layoutEnsure_nslots hens] at h
    refine ⟨_, _, by simp only [AddArgs.request, hkind],
      appends_of_commit hens (.queue ?_ ?_ hsize hpad) rfl h⟩
    · unfold uint32Max
      omega
    · unfold uint32Max
      omega

theorem layoutAddFutexQueue_ok {a : AddArgs} (hkind : a.kind = .futexQueue)
    (h : layoutAddFutexQueue p l a.depth a.itemSize a.onOwnerDied fault = (l', .ok ())) :
    ∃ g blk, a.request p l = some (g, blk) ∧ Appends p l g blk l' := by
  unfold layoutAddFutexQueue at h
  obtain ⟨-, h⟩ := of_raise h
  obtain ⟨hrange, h⟩ := of_raise h
  simp only at h
  obtain ⟨hsize, h⟩ := of_raise h
  obtain ⟨hpad, h⟩ := of_raise h
  push Not at hrange
  split at h
  · exact (raise_ne h).elim
  · rename_i l₁ hens
    obtain ⟨-, h⟩ := of_raise h
    unfold layoutCommitSpan at h
    rw [if_neg (by simp [futexQueueSlots])] at h
    rw [layoutEnsure_nslots hens] at h
    refine ⟨_, _, by simp only [AddArgs.request, hkind],
      appends_of_commit hens (.futexQueue ?_ ?_ hsize hpad) rfl h⟩
    · unfold uint32Max
      omega
    · unfold uint32Max
      omega

theorem layoutAdd_ok {a : AddArgs} (h : layoutAdd p l a fault = (l', .ok ())) :
    ∃ g blk, a.request p l = some (g, blk) ∧ Appends p l g blk l' := by
  unfold layoutAdd at h
  obtain ⟨-, h⟩ := of_raise h
  obtain ⟨-, h⟩ := of_raise h
  by_cases hq : a.kind = .queue
  · rw [if_pos hq] at h
    exact layoutAddQueue_ok hq h
  · rw [if_neg hq] at h
    by_cases hf : a.kind = .futexQueue
    · rw [if_pos hf] at h
      exact layoutAddFutexQueue_ok hf h
    · rw [if_neg hf] at h
      iterate 4 replace h := (of_raise h).2
      split at h
      · exact (raise_ne h).elim
      · rename_i l₁ hens
        obtain ⟨type, kind, flags, hone, hreq, h⟩ := layoutAddSlot_ok h
        rw [(layoutEnsure_ok hens).2] at hone hreq
        rw [layoutEnsure_nslots hens] at h
        exact ⟨_, _, hreq, appends_of_commit hens (.one (oneSlot_cap hone)) rfl h⟩

theorem layoutAddBytes_ok {size : ℤ} (h : layoutAddBytes p l size fault = (l', .ok ())) :
    ∃ g blk, (AddOp.addBytes size).request p l = some (g, blk) ∧ Appends p l g blk l' := by
  unfold layoutAddBytes at h
  obtain ⟨-, h⟩ := of_raise h
  obtain ⟨-, h⟩ := of_raise h
  simp only at h
  obtain ⟨hpad, h⟩ := of_raise h
  split at h
  · exact (raise_ne h).elim
  · rename_i l₁ hens
    obtain ⟨-, h⟩ := of_raise h
    rw [layoutEnsure_nslots hens] at h
    exact ⟨_, _, rfl, appends_of_commit hens (.bytes hpad) rfl h⟩

theorem addArraySlots_ok {kind flags count : ℕ}
    (hkind : kind = kindMutex ∨ kind = kindRobustMutex)
    (h : addArraySlots p l kind flags count fault = (l', .ok ())) :
    Appends p l (LayoutHandle.newUnbound p (.mutexArray count) kind flags l.nslots)
      (List.replicate count (Slot.fresh kind flags)) l' := by
  unfold addArraySlots at h
  split at h
  · exact (raise_ne h).elim
  · rename_i l₁ hens
    obtain ⟨-, h⟩ := of_raise h
    unfold layoutCommitN at h
    obtain ⟨hne, h⟩ := of_raise h
    rw [layoutEnsure_nslots hens] at h
    exact appends_of_commit hens (.array hkind hne) List.length_replicate h

/-- **What a successful add does**: it appends what it asks for. -/
theorem apply_ok {op : AddOp} (h : l.apply p op fault = (l', .ok ())) :
    ∃ g blk, op.request p l = some (g, blk) ∧ Appends p l g blk l' := by
  cases op with
  | add a => exact layoutAdd_ok h
  | addBytes size => exact layoutAddBytes_ok h
  | addArray kind count died prio shared =>
      simp only [LayoutObj.apply, layoutAddArray] at h
      iterate 3 replace h := (of_raise h).2
      split at h
      · exact ⟨_, _, rfl, addArraySlots_ok (Or.inl rfl) (of_raise h).2⟩
      · split at h
        · exact (raise_ne h).elim
        · exact (raise_ne h).elim
        · exact ⟨_, _, rfl, addArraySlots_ok (Or.inr rfl) h⟩
      · exact (raise_ne h).elim

end Inversion

end PosixIpc
