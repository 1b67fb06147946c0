/-
# Create, publish, attach (`posixipc_shm.c`, `layout_create`, `layout_attach`,
`layout_open_or_create` in `py_layout.c`)

The calls on one valid name as code over a world of segment objects.  A thread of the machine
is one call, after any number of `unlink`s; a process that makes several calls is several
threads.

* `ShmShared` : which object the name denotes, and the objects, each with the call whose
  exclusive `shm_open` made it and the layout of that call;
* `ShmPc`, `ShmPc.act`, `ShmPc.next` : the calls, one system call or one memory access a step;
* the environment decides which system call fails (never with `EEXIST` or `ENOENT`, which
  only `shm_open` gives, according to the name), what the clock says, and when a call is made.
-/
import PosixIpc.ShmSegment
import PosixIpc.ThreadMachine

namespace PosixIpc

open StoreProg ThreadMachine

/-! ## The world -/

/-- The failure of a system call. -/
structure SysErr where
  rc : Rc
  ne : rc ≠ .ok ∧ rc ≠ .eexist ∧ rc ≠ .enoent

/-- A layout as the calls use it: what `posixipc_layout_build` computes, and its queues. -/
structure ShmLayout where
  expect : Expect
  rings : List RingSpec

/-- The layout of a call that has none, and of an object that has not been made. -/
def ShmLayout.empty : ShmLayout := ⟨⟨0, 0, 0, 0, 0, 0, 0, none⟩, []⟩

/-- What the calls share.  Objects are numbered in the order in which they are made. -/
structure ShmShared (Tid : Type) where
  name : Option ℕ
  made : ℕ
  creator : ℕ → Option Tid
  /-- The layout of the call that made the object.  No call reads it. -/
  layout : ℕ → ShmLayout
  size : ℕ → ℕ
  mem : ℕ → SegMem

/-- The actions. -/
inductive ShmAct
  /-- `shm_open` with `O_CREAT | O_EXCL`, in a call with the layout `l`. -/
  | openExcl (l : ShmLayout)
  | shmOpen
  | shmUnlink
  /-- `fstat`, for the size. -/
  | fstat (g : ℕ)
  | ftruncate (g n : ℕ)
  | load (g : ℕ) (c : Cell)
  | store (g : ℕ) (c : Cell) (v : ℕ)
  /-- Another system call, or a local step. -/
  | consult

/-- The calls. -/
inductive ShmCall
  | create (l : ShmLayout)
  | attach (l : ShmLayout)
  /-- `tries` is the loop counter of `posixipc_shm_open_or_create`. -/
  | openOrCreate (l : ShmLayout) (tries : ℕ)
  | unlink

def ShmCall.layout : ShmCall → ShmLayout
  | .create l => l
  | .attach l => l
  | .openOrCreate l _ => l
  | .unlink => .empty

/-- The answer of an action. -/
structure ShmAnswer where
  err : Option SysErr
  /-- `shm_open`: the object, or the code of its failure. -/
  opened : Except Rc ℕ
  val : ℕ
  flag : Bool
  call : Option ShmCall

variable {Tid : Type}

/-- A new, empty object for the name, made by `t` for the layout `l`. -/
def ShmShared.make (sh : ShmShared Tid) (t : Tid) (l : ShmLayout) : ShmShared Tid :=
  { name := some sh.made
    made := sh.made + 1
    creator := Function.update sh.creator sh.made (some t)
    layout := Function.update sh.layout sh.made l
    size := Function.update sh.size sh.made 0
    mem := Function.update sh.mem sh.made fun _ => 0 }

/-- What an action does. -/
def ShmAct.perform (t : Tid) (a : ShmAct) (e : ShmAnswer) (sh : ShmShared Tid) :
    Option (ShmAnswer × ShmShared Tid) :=
  match a with
  | .openExcl l =>
    match e.err, sh.name with
    | some err, _ => some ({ e with opened := .error err.rc }, sh)
    | none, some _ => some ({ e with opened := .error .eexist }, sh)
    | none, none => some ({ e with opened := .ok sh.made }, sh.make t l)
  | .shmOpen =>
    match e.err, sh.name with
    | some err, _ => some ({ e with opened := .error err.rc }, sh)
    | none, none => some ({ e with opened := .error .enoent }, sh)
    | none, some g => some ({ e with opened := .ok g }, sh)
  | .shmUnlink => some (e, { sh with name := none })
  | .fstat g => some ({ e with val := sh.size g }, sh)
  | .ftruncate g n =>
    match e.err with
    | some _ => some (e, sh)
    | none => some (e, { sh with size := Function.update sh.size g n })
  | .load g c => some ({ e with val := sh.mem g c }, sh)
  | .store g c v =>
    some (e, { sh with mem := Function.update sh.mem g (Function.update (sh.mem g) c v) })
  | .consult => some (e, sh)

/-! ## The code -/

/-- The part of the initialisation a creator is in, with what is left after it. -/
inductive Stage
  /-- The stores of `posixipc_shm_create`. -/
  | header
  /-- `layout_init_primitives` at slot `i`, which holds a primitive or not; `rest` are the
  slots after it. -/
  | slot (i : ℕ) (prim : Bool) (rest : List Slot)
  /-- `layout_init_queue_ctrls`. -/
  | ring (rest : List RingSpec)

/-- The program points. -/
inductive ShmPc
  | idle
  | unlinkName
  -- `posixipc_shm_create`
  | createOpen (c : ShmCall)
  | createStat (c : ShmCall) (g : ℕ)
  | createTruncate (c : ShmCall) (g : ℕ)
  | createMap (c : ShmCall) (g : ℕ)
  | createClose (c : ShmCall) (g : ℕ)
  | createName (c : ShmCall) (g : ℕ)
  /-- The `fail` label: close and unmap, then `shm_unlink`. -/
  | createFail (rc : Rc)
  /-- A memory program of the creator of `g`. -/
  | init (c : ShmCall) (g : ℕ) (stage : Stage) (p : SegProg Rc)
  | publish (c : ShmCall) (g : ℕ)
  -- `fail_created_shm`
  | markBroken (g : ℕ) (rc : Rc)
  | unlinkBroken (rc : Rc)
  -- `posixipc_shm_attach`
  | attachOpen (c : ShmCall)
  | attachSize (c : ShmCall) (g : ℕ)
  | attachSizeSleep (c : ShmCall) (g : ℕ)
  | attachWindow (c : ShmCall) (g : ℕ)
  | attachState (c : ShmCall) (g : ℕ)
  | attachStateSleep (c : ShmCall) (g : ℕ)
  | attachTotal (c : ShmCall) (g : ℕ)
  | attachFstat (c : ShmCall) (g total : ℕ)
  | attachMap (c : ShmCall) (g : ℕ)
  | attachClose (c : ShmCall) (g : ℕ)
  | attachCompare (c : ShmCall) (g : ℕ) (p : SegProg Rc)
  | attachName (c : ShmCall) (g : ℕ)
  -- the end of the method
  /-- `open_or_create` reads the state to learn whether it is the creator. -/
  | role (c : ShmCall) (g : ℕ)
  | region (c : ShmCall) (g : ℕ) (created : Bool)
  | unlinkRegion (rc : Rc)
  | bindAll (c : ShmCall) (g : ℕ) (created : Bool)
  | failed (rc : Rc)
  | done (c : ShmCall) (g : ℕ) (created : Bool)

namespace ShmPc

/-- The action at a program point. -/
def act : ShmPc → ShmAct
  | .idle => .consult
  | .unlinkName => .shmUnlink
  | .createOpen c => .openExcl c.layout
  | .createStat _ _ => .consult
  | .createTruncate c g => .ftruncate g c.layout.expect.totalSize
  | .createMap _ _ => .consult
  | .createClose _ _ => .consult
  | .createName _ _ => .consult
  | .createFail _ => .shmUnlink
  | .init _ g _ (.load c _) => .load g c
  | .init _ g _ (.store c v _) => .store g c v
  | .init _ _ _ (.ret _) => .consult
  | .publish _ g => .store g (.header .state) stateReady
  | .markBroken g _ => .store g (.header .state) stateBroken
  | .unlinkBroken _ => .shmUnlink
  | .attachOpen _ => .shmOpen
  | .attachSize _ g => .fstat g
  | .attachSizeSleep _ _ => .consult
  | .attachWindow _ _ => .consult
  | .attachState _ g => .load g (.header .state)
  | .attachStateSleep _ _ => .consult
  | .attachTotal _ g => .load g (.header .totalSize)
  | .attachFstat _ g _ => .fstat g
  | .attachMap _ _ => .consult
  | .attachClose _ _ => .consult
  | .attachCompare _ g (.load c _) => .load g c
  | .attachCompare _ g (.store c v _) => .store g c v
  | .attachCompare _ _ (.ret _) => .consult
  | .attachName _ _ => .consult
  | .role _ g => .load g (.header .state)
  | .region _ _ _ => .consult
  | .unlinkRegion _ => .shmUnlink
  | .bindAll _ _ _ => .consult
  | .failed _ => .consult
  | .done _ _ _ => .consult

/-- The start of a call.  A layout that is too small for a header is refused. -/
def start : ShmCall → ShmPc
  | .create l =>
    if l.expect.totalSize < headerBytes then .failed .einval else .createOpen (.create l)
  | .attach l => .attachOpen (.attach l)
  | .openOrCreate l tries =>
    if l.expect.totalSize < headerBytes then .failed .einval
    else .createOpen (.openOrCreate l tries)
  | .unlink => .unlinkName

/-- A system call of a step that can only fail with an error of its own. -/
def sysCall (e : ShmAnswer) (fail : Rc → ShmPc) (ok : ShmPc) : ShmPc :=
  match e.err with
  | some err => fail err.rc
  | none => ok

/-- The exclusive `shm_open` failed: `open_or_create` goes on if the name exists. -/
def createRefused (c : ShmCall) (rc : Rc) : ShmPc :=
  match c with
  | .openOrCreate _ _ => if rc = .eexist then .attachOpen c else .failed rc
  | _ => .failed rc

/-- `posixipc_shm_attach` found no object: `open_or_create` tries again, 32 times. -/
def attachRefused (c : ShmCall) (rc : Rc) : ShmPc :=
  match c with
  | .openOrCreate l tries =>
    if rc ≠ .enoent then .failed rc
    else if tries + 1 < 32 then .createOpen (.openOrCreate l (tries + 1))
    else .failed .notReady
  | _ => .failed rc

/-- Start the initialisation of the slots from `i` on, then that of the queues. -/
def startRings (cacheline : ℕ) (c : ShmCall) (g : ℕ) : List RingSpec → ShmPc
  | [] => .publish c g
  | q :: rest =>
    .init c g (.ring rest)
      (initRing cacheline ((c.layout.expect.slots.getD []).getD q.slot default) q)

def startSlots (cacheline : ℕ) (c : ShmCall) (g i : ℕ) : List Slot → ShmPc
  | [] => startRings cacheline c g c.layout.rings
  | s :: rest => .init c g (.slot i (isPrimitive s.kind) rest) (initSlot i s)

/-- The initialisation that follows a successful `posixipc_shm_create`. -/
def startInit (cacheline : ℕ) (c : ShmCall) (g : ℕ) : ShmPc :=
  startSlots cacheline c g 0 (c.layout.expect.slots.getD [])

/-- A memory program of the creator returned `rc`; the environment may have made the
`init` function of a primitive fail. -/
def initReturn (cacheline : ℕ) (c : ShmCall) (g : ℕ) (stage : Stage) (rc : Rc) (e : ShmAnswer) :
    ShmPc :=
  match stage with
  | .header => if rc ≠ .ok then .createFail rc else .createName c g
  | .slot i prim rest =>
    if rc ≠ .ok then .markBroken g rc
    else if prim then sysCall e (.markBroken g) (startSlots cacheline c g (i + 1) rest)
    else startSlots cacheline c g (i + 1) rest
  | .ring rest => if rc ≠ .ok then .markBroken g rc else startRings cacheline c g rest

/-- The program point after an action. -/
def next (cacheline : ℕ) : ShmPc → ShmAnswer → ShmPc
  | .idle, r =>
    match r.call with
    | none => .idle
    | some c => start c
  | .unlinkName, _ => .idle
  | .createOpen c, r =>
    match r.opened with
    | .error rc => createRefused c rc
    | .ok g => .createStat c g
  | .createStat c g, r =>
    sysCall r .createFail (if r.flag then .createFail .eacces else .createTruncate c g)
  | .createTruncate c g, r => sysCall r .createFail (.createMap c g)
  | .createMap c g, r => sysCall r .createFail (.createClose c g)
  | .createClose c g, r =>
    sysCall r .createFail (.init c g .header (shmCreateStores c.layout.expect))
  | .createName c g, r =>
    sysCall r .createFail
      (match c with
      | .openOrCreate _ _ => .role c g
      | _ => startInit cacheline c g)
  | .createFail rc, _ => .failed rc
  | .init c g stage (.load _ k), r => .init c g stage (k r.val)
  | .init c g stage (.store _ _ k), _ => .init c g stage k
  | .init c g stage (.ret rc), r => initReturn cacheline c g stage rc r
  | .publish c g, _ => .region c g true
  | .markBroken _ rc, _ => .unlinkBroken rc
  | .unlinkBroken rc, _ => .failed rc
  | .attachOpen c, r =>
    match r.opened with
    | .error rc => attachRefused c rc
    | .ok g => .attachSize c g
  | .attachSize c g, r =>
    sysCall r .failed
      (if r.flag then .failed .notReady
      else if headerBytes ≤ r.val then .attachWindow c g
      else .attachSizeSleep c g)
  | .attachSizeSleep c g, r => sysCall r .failed (.attachSize c g)
  | .attachWindow c g, r => sysCall r .failed (.attachState c g)
  | .attachState c g, r =>
    if r.flag then .failed .notReady
    else if r.val = stateReady then .attachTotal c g
    else if r.val = stateBroken then .failed .broken
    else .attachStateSleep c g
  | .attachStateSleep c g, r => sysCall r .failed (.attachState c g)
  | .attachTotal c g, r =>
    if r.val < headerBytes then .failed .layoutMismatch else .attachFstat c g r.val
  | .attachFstat c g total, r =>
    sysCall r .failed
      (if r.val < total then .failed .layoutMismatch
      else if total ≠ c.layout.expect.totalSize then .failed .layoutMismatch
      else .attachMap c g)
  | .attachMap c g, r => sysCall r .failed (.attachClose c g)
  | .attachClose c g, r =>
    sysCall r .failed (.attachCompare c g (compareExpect (some c.layout.expect)))
  | .attachCompare c g (.load _ k), r => .attachCompare c g (k r.val)
  | .attachCompare c g (.store _ _ k), _ => .attachCompare c g k
  | .attachCompare c g (.ret rc), _ => if rc ≠ .ok then .failed rc else .attachName c g
  | .attachName c g, r =>
    sysCall r .failed
      (match c with
      | .openOrCreate _ _ => .role c g
      | _ => .region c g false)
  | .role c g, r =>
    if r.val = stateInitializing then startInit cacheline c g else .region c g false
  | .region c g created, r =>
    sysCall r (fun rc => if created then .unlinkRegion rc else .failed rc) (.bindAll c g created)
  | .unlinkRegion rc, _ => .failed rc
  | .bindAll c g created, r => sysCall r .failed (.done c g created)
  | .failed rc, _ => .failed rc
  | .done c g created, _ => .done c g created

end ShmPc

/-- The machine of the calls on one name. -/
def shmMachine (Tid : Type) [DecidableEq Tid] (cacheline : ℕ) :
    Machine Tid ShmPc ShmAct ShmAnswer ShmAnswer (ShmShared Tid) where
  act := ShmPc.act
  next := ShmPc.next cacheline
  perform := ShmAct.perform
  die := fun _ sh => sh

/-- No call has been made and the name denotes nothing. -/
def shmStart (Tid : Type) : State Tid ShmPc (ShmShared Tid) where
  pc := fun _ => some .idle
  shared :=
    { name := none
      made := 0
      creator := fun _ => none
      layout := fun _ => .empty
      size := fun _ => 0
      mem := fun _ _ => 0 }

end PosixIpc
