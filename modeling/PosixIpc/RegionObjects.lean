/-
# Regions, handles, views and capsules (`py_shm.c`, `py_layout.c`, `py_mutex.c`, ...)

The Python objects of one process that point into shared memory, and the operations on them.
An operation is one step: none of them releases the GIL after it has looked at an object, but
for the blocking calls, which are two steps (`startCall` and `endCall`).

* `Region` is a `SharedMemory` object, with its references and its pins;
* `Handle` is an object of a layout; its `region` is the counted reference to the mapping and
  its `ptr` the raw pointers into it;
* `PyBuffer` is a buffer exported from a `SharedBytes` or a `SharedMemory`, `Capsule` a mutex
  capsule, `Call` a blocking call in flight;
* `World.step` : the operations.  Every `munmap` is recorded in the log, together with what
  still pointed into the mapping (`Unmap`).

The references to a region are counted as the source does (`Py_INCREF`, `Py_XSETREF`,
`Py_CLEAR`).  Those to a handle are what points to it: layouts, exported views, conditions
that use it as their mutex, calls, and the variables of the user (`ext`).
-/
import PosixIpc.Ledger
import PosixIpc.StepSystem

namespace PosixIpc

open Ledger

/-! ## Objects -/

/-- `PosixIPCSharedMemoryObject`.  The pins are counted exactly: the word `pins` of the source
is their residue modulo `2 ^ 32`. -/
structure Region where
  refs : ℕ
  pins : ℤ
  closed : Bool
  mapped : Bool
  deriving DecidableEq

/-- A region that has not been made. -/
instance : Inhabited Region := ⟨⟨0, 0, true, false⟩⟩

/-- `shm_is_closed`. -/
def Region.isClosed (r : Region) : Bool := r.closed || !r.mapped

/-- What the binding code tells apart. -/
inductive HandleKind
  | bytes
  /-- `Mutex`, `RobustMutex` and `MutexArray`, which have capsules. -/
  | mutex
  /-- `RWLock`, `Semaphore`, `Barrier` and `SpinLock`. -/
  | lock
  | condition
  /-- `Queue` and `FutexQueue`, which store their pointers before they pin the region. -/
  | queue
  deriving DecidableEq

/-- A handle of a layout. -/
structure Handle where
  kind : HandleKind
  /-- The user's references. -/
  ext : ℕ
  region : Option ℕ
  /-- The region the raw pointers of the handle lead into. -/
  ptr : Option ℕ
  /-- The mutex handle of a condition. -/
  mutex : Option ℕ
  bound : Bool
  closed : Bool
  deriving DecidableEq

/-- A handle as `Layout.add` makes it. -/
def Handle.unbound (kind : HandleKind) (mutex : Option ℕ) : Handle where
  kind := kind
  ext := 1
  region := none
  ptr := none
  mutex := mutex
  bound := false
  closed := false

/-- A `Layout`, with the user's references to it. -/
structure Layout where
  handles : List ℕ
  refs : ℕ
  deriving DecidableEq

/-- What a buffer was exported by. -/
inductive Exporter
  | region (r : ℕ)
  | bytes (h : ℕ)
  deriving DecidableEq

/-- A `Py_buffer`; its pointer leads into the region `target`. -/
structure PyBuffer where
  exporter : Exporter
  target : ℕ
  released : Bool
  deriving DecidableEq

/-- A mutex capsule, with the number of `retain`s that are not yet released. -/
structure Capsule where
  region : ℕ
  retains : ℕ
  alive : Bool
  deriving DecidableEq

/-- A blocking call in flight on the handle `self`, and the regions its raw pointers lead into;
`Condition.wait` also has the mutex handle and its pointer. -/
structure InFlight where
  self : ℕ
  region : ℕ
  mutex : Option (ℕ × ℕ)
  active : Bool
  deriving DecidableEq

/-- A `munmap`: the region, and whether an open handle, an unreleased buffer, a live capsule, a
call in flight or the raw pointers of an open and bound handle still pointed into it. -/
structure Unmap where
  region : ℕ
  handles : Bool
  views : Bool
  capsules : Bool
  calls : Bool
  pointers : Bool
  deriving DecidableEq

/-- The objects of a process. -/
structure World where
  nregions : ℕ
  regions : ℕ → Region
  handles : List Handle
  layouts : List Layout
  views : List PyBuffer
  capsules : List Capsule
  calls : List InFlight
  log : List Unmap

/-! ## What points where -/

section Shares

variable (r h : ℕ)

/-- The handle is open and bound to `r`. -/
def Handle.holds (hd : Handle) : Bool := !hd.closed && hd.region == some r

/-- The handle is open and bound, and its raw pointers lead into `r`; a `SharedBytes` has none. -/
def Handle.leads (hd : Handle) : Bool :=
  !hd.closed && hd.bound && hd.kind != .bytes && hd.ptr == some r

/-- The buffer is unreleased and leads into `r`. -/
def PyBuffer.holds (v : PyBuffer) : Bool := !v.released && v.target == r

/-- The capsule is alive and on `r`. -/
def Capsule.holds (c : Capsule) : Bool := c.alive && c.region == r

/-- The call is in flight and uses a pointer into `r`. -/
def InFlight.holds (c : InFlight) : Bool :=
  c.active && (c.region == r || c.mutex.any fun m => m.2 == r)

/-- The references to the handle `h`. -/
def Layout.refsTo (l : Layout) : ℕ := if l.refs = 0 then 0 else l.handles.count h
def PyBuffer.refsTo (v : PyBuffer) : ℕ :=
  if v.released = false ∧ v.exporter = .bytes h then 1 else 0
def Handle.refsTo (hd : Handle) : ℕ := if hd.mutex = some h then 1 else 0
def InFlight.refsTo (c : InFlight) : ℕ := if c.active ∧ c.self = h then 1 else 0

end Shares

namespace World

/-- The number of references to the handle `h` that are not the user's. -/
def heldRefs (w : World) (h : ℕ) : ℕ :=
  total (Layout.refsTo h) w.layouts + total (PyBuffer.refsTo h) w.views +
    total (Handle.refsTo h) w.handles + total (InFlight.refsTo h) w.calls

/-- A handle nothing refers to any more. -/
def unreferenced (w : World) (h : ℕ) : Bool :=
  match w.handles[h]? with
  | none => false
  | some hd => hd.ext = 0 ∧ w.heldRefs h = 0

/-- The record of a `munmap` of `r`. -/
def unmapRecord (w : World) (r : ℕ) : Unmap where
  region := r
  handles := w.handles.any (Handle.holds r)
  views := w.views.any (PyBuffer.holds r)
  capsules := w.capsules.any (Capsule.holds r)
  calls := w.calls.any (InFlight.holds r)
  pointers := w.handles.any (Handle.leads r)

def modRegion (w : World) (r : ℕ) (f : Region → Region) : World :=
  { w with regions := Function.update w.regions r (f (w.regions r)) }

def setHandle (w : World) (h : ℕ) (hd : Handle) : World :=
  { w with handles := w.handles.set h hd }

/-! ## Regions -/

/-- `posixipc_shmobj_pin`; `none` when the region is closed. -/
def posixipcShmobjPin (w : World) (r : ℕ) : Option World :=
  if (w.regions r).isClosed then none
  else some (w.modRegion r fun x => { x with pins := x.pins + 1 })

/-- `posixipc_shmobj_unpin`. -/
def posixipcShmobjUnpin (w : World) (r : ℕ) : World :=
  w.modRegion r fun x => { x with pins := x.pins - 1 }

/-- `posixipc_shm_close`: `munmap`. -/
def posixipcShmClose (w : World) (r : ℕ) : World :=
  { w.modRegion r fun x => { x with mapped := false } with log := w.log ++ [w.unmapRecord r] }

/-- How `SharedMemory.close` ends. -/
inductive CloseResult
  | ok
  | bufferError
  | osError
  deriving DecidableEq

/-- `posixipc_shmobj_close`; `fails` says that `munmap` fails. -/
def posixipcShmobjClose (w : World) (r : ℕ) (force fails : Bool) : World × CloseResult :=
  if (w.regions r).isClosed then (w.modRegion r fun x => { x with closed := true }, .ok)
  else if force = false ∧ (w.regions r).pins % 2 ^ 32 ≠ 0 then (w, .bufferError)
  else if fails then (w, .osError)
  else ((w.posixipcShmClose r).modRegion r fun x => { x with closed := true }, .ok)

/-- `Py_INCREF` on a region. -/
def incRegion (w : World) (r : ℕ) : World :=
  w.modRegion r fun x => { x with refs := x.refs + 1 }

/-- `shm_dealloc`. -/
def shmDealloc (w : World) (r : ℕ) : World :=
  if (w.regions r).isClosed then w else (w.posixipcShmobjClose r true false).1

/-- `Py_DECREF` on a region. -/
def decRegion (w : World) (r : ℕ) : World :=
  let w := w.modRegion r fun x => { x with refs := x.refs - 1 }
  if (w.regions r).refs = 0 then w.shmDealloc r else w

/-- `posixipc_shmobj_from_core`: a region for a mapped segment. -/
def newRegion (w : World) : World :=
  { w with
    nregions := w.nregions + 1
    regions := Function.update w.regions w.nregions ⟨1, 0, false, true⟩ }

/-! ## Handles -/

/-- Where a `bind` function fails: not at all, before it has stored a pointer, or after. -/
inductive BindFault
  | none
  | early
  | late
  deriving DecidableEq

/-- The `bind` functions; `false` is a failure. -/
def bindHandle (w : World) (h r : ℕ) (fault : BindFault) : World × Bool :=
  match w.handles[h]? with
  | none => (w, false)
  | some hd =>
    if fault = .early then (w, false)
    else
      -- a queue has its pointers before the last check and the pin
      let hd := if hd.kind = .queue then { hd with ptr := some r } else hd
      let w := w.setHandle h hd
      if fault = .late then (w, false)
      else
        match w.posixipcShmobjPin r with
        | none => (w, false)
        | some w =>
          let new := { hd with
            region := some r
            ptr := if hd.kind = .bytes then none else some r
            bound := true }
          let w := (w.incRegion r).setHandle h new
          match hd.region with
          | none => (w, true)
          | some old => (w.decRegion old, true)

/-- The part of a `close` method that is the same for all handles. -/
def closeLeaf (w : World) (h : ℕ) : World :=
  match w.handles[h]? with
  | none => w
  | some hd =>
    if hd.closed then w
    else
      let w :=
        match hd.region with
        | none => w
        | some r =>
          -- the end of the region does not look at the pointers of the handle
          ((w.posixipcShmobjUnpin r).setHandle h
            { hd with region := none, ptr := none }).decRegion r
      w.setHandle h { hd with region := none, ptr := none, mutex := none, closed := true }

/-- `Py_CLEAR(region)` at the end of a `dealloc` function; the object is freed after it. -/
def clearRegion (w : World) (h : ℕ) : World :=
  match w.handles[h]? with
  | none => w
  | some hd =>
    match hd.region with
    | none => w
    | some r => (w.setHandle h { hd with region := none, ptr := none }).decRegion r

/-- A reference to a handle that is no condition has gone. -/
def dropLeaf (w : World) (h : ℕ) : World :=
  if w.unreferenced h then (w.closeLeaf h).clearRegion h else w

/-- The mutex handle that a `close` of `h` lets go. -/
def mutexOf (w : World) (h : ℕ) : Option ℕ :=
  match w.handles[h]? with
  | none => none
  | some hd => if hd.closed then none else hd.mutex

/-- The `close` methods; that of a condition also clears its mutex. -/
def closeHandle (w : World) (h : ℕ) : World :=
  match w.mutexOf h with
  | none => w.closeLeaf h
  | some m => (w.closeLeaf h).dropLeaf m

/-- A reference to a handle has gone: the `dealloc` functions. -/
def dropHandle (w : World) (h : ℕ) : World :=
  if w.unreferenced h then (w.closeHandle h).clearRegion h else w

/-! ## Layouts -/

/-- `layout_bind_all`. -/
def layoutBindAll (r : ℕ) : World → List ℕ → List BindFault → World × Bool
  | w, [], _ => (w, true)
  | w, h :: hs, faults =>
    match w.bindHandle h r (faults.headD .none) with
    | (w, false) => (w, false)
    | (w, true) => layoutBindAll r w hs faults.tail

/-- The end of `layout_create`, `layout_attach` and `layout_open_or_create`, which have mapped
a segment. -/
def layoutOpen (w : World) (hs : List ℕ) (faults : List BindFault) : World :=
  match layoutBindAll w.nregions w.newRegion hs faults with
  | (w', true) => w'
  | (w', false) => w'.decRegion w.nregions

def setLayout (w : World) (l : ℕ) (x : Layout) : World := { w with layouts := w.layouts.set l x }

/-- The list of the handles of a layout is freed, from its end: `hs` are those that are left,
the last one first. -/
def drainLayout (l : ℕ) : World → List ℕ → World
  | w, [] => w.setLayout l ⟨[], 0⟩
  | w, h :: hs => drainLayout l ((w.setLayout l ⟨hs.reverse, 1⟩).dropHandle h) hs

/-! ## Buffers and capsules -/

/-- `bytes_check_open`, and the region of the handle. -/
def bytesOpen (hd : Handle) : Option ℕ :=
  if hd.closed = false ∧ hd.bound then hd.region else none

/-- `bytes_getbuffer`; `false` when it raises. -/
def bytesGetbuffer (w : World) (h : ℕ) : World × Bool :=
  match w.handles[h]? with
  | none => (w, false)
  | some hd =>
    match bytesOpen hd with
    | none => (w, false)
    | some r =>
      match w.posixipcShmobjPin r with
      | none => (w, false)
      | some w => ({ w with views := w.views ++ [⟨.bytes h, r, false⟩] }, true)

/-- `shm_getbuffer`. -/
def shmGetbuffer (w : World) (r : ℕ) : World :=
  match w.posixipcShmobjPin r with
  | none => w
  | some w => { w.incRegion r with views := w.views ++ [⟨.region r, r, false⟩] }

/-- `bytes_releasebuffer`, which unpins the region of the handle, if it has one. -/
def bytesReleasebuffer (w : World) (h : ℕ) : World :=
  match w.handles[h]? with
  | none => w
  | some hd =>
    match hd.region with
    | none => w
    | some r => w.posixipcShmobjUnpin r

/-- `PyBuffer_Release` on the buffer `i`: the exporter's function, then its reference. -/
def bufferRelease (w : World) (i : ℕ) : World :=
  match w.views[i]? with
  | none => w
  | some v =>
    match v.exporter with
    | .bytes h =>
      let w := w.bytesReleasebuffer h
      ({ w with views := w.views.set i { v with released := true } }).dropHandle h
    | .region r =>
      let w := w.posixipcShmobjUnpin r
      ({ w with views := w.views.set i { v with released := true } }).decRegion r

/-- `shm_get_payload`: a buffer of a `SharedBytes` that only the buffer refers to.  If the
binding fails there is no buffer either, since the new handle is unbound. -/
def shmGetPayload (w : World) (r : ℕ) (fault : BindFault) : World :=
  if (w.regions r).isClosed then w
  else
    let h := w.handles.length
    let w := { w with handles := w.handles ++ [Handle.unbound .bytes none] }
    let w := (w.bindHandle h r fault).1
    let w := (w.bytesGetbuffer h).1
    match w.handles[h]? with
    | none => w
    | some hd => (w.setHandle h { hd with ext := 0 }).dropHandle h

/-- `posixipc_mutex_capsule_new`, for a handle that is open. -/
def posixipcMutexCapsuleNew (w : World) (h : ℕ) : World :=
  match w.handles[h]? with
  | none => w
  | some hd =>
    if hd.kind ≠ .mutex then w
    else
      match bytesOpen hd with
      | none => w
      | some r =>
        match w.posixipcShmobjPin r with
        | none => w
        | some w => { w.incRegion r with capsules := w.capsules ++ [⟨r, 0, true⟩] }

/-- `capsule_retain`. -/
def capsuleRetain (w : World) (i : ℕ) (c : Capsule) : World :=
  match w.posixipcShmobjPin c.region with
  | none => w
  | some w => { w with capsules := w.capsules.set i { c with retains := c.retains + 1 } }

/-- `capsule_release`. -/
def capsuleRelease (w : World) (i : ℕ) (c : Capsule) : World :=
  let w := w.posixipcShmobjUnpin c.region
  { w with capsules := w.capsules.set i { c with retains := c.retains - 1 } }

/-- `capsule_destructor`. -/
def capsuleDestructor (w : World) (i : ℕ) (c : Capsule) : World :=
  let w := w.posixipcShmobjUnpin c.region
  ({ w with capsules := w.capsules.set i { c with alive := false } }).decRegion c.region

/-! ## Blocking calls -/

/-- The check that a blocking method makes, and the region its pointer leads into. -/
def checkOpen (hd : Handle) : Option ℕ :=
  if hd.closed = false ∧ hd.bound ∧ hd.kind ≠ .bytes then hd.ptr else none

/-- The start of a blocking call: the check and the pointers it keeps. -/
def callOf (w : World) (h : ℕ) : Option InFlight :=
  match w.handles[h]? with
  | none => none
  | some hd =>
    match checkOpen hd with
    | none => none
    | some r =>
      if hd.kind = .condition then
        match hd.mutex with
        | none => none
        | some m =>
          match w.handles[m]? with
          | none => none
          | some md =>
            -- it is a `Mutex` object, of which only the pointer is looked at
            match (if md.kind = .mutex then md.ptr else none) with
            | none => none
            | some r' => some ⟨h, r, some (m, r'), true⟩
      else some ⟨h, r, none, true⟩

end World

/-! ## The operations -/

/-- The operations. -/
inductive Op
  | newLayout
  | refLayout (l : ℕ)
  | dropLayout (l : ℕ)
  /-- `Layout.add` and its siblings. -/
  | add (l : ℕ) (kind : HandleKind) (mutex : Option ℕ)
  /-- `Layout.create`, `attach` and `open_or_create`, with the faults of the bindings. -/
  | openLayout (l : ℕ) (faults : List World.BindFault)
  /-- `SharedMemory.create` and its siblings. -/
  | openRaw
  | close (h : ℕ)
  | refHandle (h : ℕ)
  | dropHandle (h : ℕ)
  | memoryview (h : ℕ)
  | memoryviewRegion (r : ℕ)
  | payload (r : ℕ) (fault : World.BindFault)
  | release (i : ℕ)
  | asCapsule (h : ℕ)
  | retain (i : ℕ)
  | releaseCapsule (i : ℕ)
  | dropCapsule (i : ℕ)
  /-- `SharedMemory.close`; `munmap` may fail. -/
  | closeRegion (r : ℕ) (fails : Bool)
  | refRegion (r : ℕ)
  | dropRegion (r : ℕ)
  | startCall (h : ℕ)
  | endCall (i : ℕ)
  deriving DecidableEq

section Refs

variable (r : ℕ)

/-- The counted references to the region `r`. -/
def Handle.regionRefs (hd : Handle) : ℕ := if hd.region = some r then 1 else 0
def PyBuffer.regionRefs (v : PyBuffer) : ℕ :=
  if v.released = false ∧ v.exporter = .region r then 1 else 0
def Capsule.regionRefs (c : Capsule) : ℕ := if c.alive ∧ c.region = r then 1 else 0

end Refs

namespace World

/-- The references to the region `r` that are not the user's. -/
def heldRegionRefs (w : World) (r : ℕ) : ℕ :=
  total (Handle.regionRefs r) w.handles + total (PyBuffer.regionRefs r) w.views +
    total (Capsule.regionRefs r) w.capsules

/-- One operation; `none` when the objects it needs are not there. -/
def step (w : World) : Op → Option World
  | .newLayout => some { w with layouts := w.layouts ++ [⟨[], 1⟩] }
  | .refLayout l =>
    match w.layouts[l]? with
    | none => none
    | some x => if x.refs = 0 then none else some (w.setLayout l { x with refs := x.refs + 1 })
  | .dropLayout l =>
    match w.layouts[l]? with
    | none => none
    | some x =>
      if x.refs = 0 then none
      else if x.refs = 1 then some (drainLayout l w x.handles.reverse)
      else some (w.setLayout l { x with refs := x.refs - 1 })
  | .add l kind mutex =>
    match w.layouts[l]? with
    | none => none
    | some x =>
      if x.refs = 0 then none
      -- the mutex of a condition is a mutex of the same layout
      else if mutex.all (fun m => x.handles.contains m && kind == .condition &&
          (w.handles[m]?).any fun md => md.kind == .mutex) then
        some { w.setLayout l { x with handles := x.handles ++ [w.handles.length] } with
          handles := w.handles ++ [Handle.unbound kind mutex] }
      else none
  | .openLayout l faults =>
    match w.layouts[l]? with
    | none => none
    | some x => if x.refs = 0 then none else some (w.layoutOpen x.handles faults)
  | .openRaw => some w.newRegion
  | .close h =>
    match w.handles[h]? with
    | none => none
    | some _ => if w.unreferenced h then none else some (w.closeHandle h)
  | .refHandle h =>
    match w.handles[h]? with
    | none => none
    | some hd =>
      if w.unreferenced h then none else some (w.setHandle h { hd with ext := hd.ext + 1 })
  | .dropHandle h =>
    match w.handles[h]? with
    | none => none
    | some hd =>
      if hd.ext = 0 then none
      else some ((w.setHandle h { hd with ext := hd.ext - 1 }).dropHandle h)
  | .memoryview h =>
    match w.handles[h]? with
    | none => none
    | some hd =>
      if w.unreferenced h ∨ hd.kind ≠ .bytes then none else some (w.bytesGetbuffer h).1
  | .memoryviewRegion r => if (w.regions r).refs = 0 then none else some (w.shmGetbuffer r)
  | .payload r fault =>
    if (w.regions r).refs = 0 then none else some (w.shmGetPayload r fault)
  | .release i =>
    match w.views[i]? with
    | none => none
    | some v => if v.released then none else some (w.bufferRelease i)
  | .asCapsule h =>
    match w.handles[h]? with
    | none => none
    | some _ => if w.unreferenced h then none else some (w.posixipcMutexCapsuleNew h)
  | .retain i =>
    match w.capsules[i]? with
    | none => none
    | some c => if c.alive then some (w.capsuleRetain i c) else none
  | .releaseCapsule i =>
    match w.capsules[i]? with
    | none => none
    | some c => if c.alive ∧ c.retains ≠ 0 then some (w.capsuleRelease i c) else none
  | .dropCapsule i =>
    match w.capsules[i]? with
    | none => none
    | some c => if c.alive then some (w.capsuleDestructor i c) else none
  | .closeRegion r fails =>
    if (w.regions r).refs = 0 then none else some (w.posixipcShmobjClose r false fails).1
  | .refRegion r => if (w.regions r).refs = 0 then none else some (w.incRegion r)
  | .dropRegion r =>
    -- the user can only drop a reference of his own
    if (w.regions r).refs ≤ w.heldRegionRefs r then none else some (w.decRegion r)
  | .startCall h =>
    match w.handles[h]? with
    | none => none
    | some _ =>
      if w.unreferenced h then none
      else
        match w.callOf h with
        | none => some w
        | some c => some { w with calls := w.calls ++ [c] }
  | .endCall i =>
    match w.calls[i]? with
    | none => none
    | some c =>
      if c.active then
        some (({ w with calls := w.calls.set i { c with active := false } }).dropHandle c.self)
      else none

/-- No objects. -/
def empty : World where
  nregions := 0
  regions := fun _ => default
  handles := []
  layouts := []
  views := []
  capsules := []
  calls := []
  log := []

/-- The worlds reached by operations that all meet a condition. -/
abbrev Run (Ok : World → Op → Prop) : World → Prop := StepSystem.Run step empty Ok

end World

end PosixIpc
