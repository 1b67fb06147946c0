/-
# Descriptors and their objects (`py_linux.c`, `py_queue.c`)

The objects that own a file descriptor: `EventFD`, `MemFD` with its mapping, and
`NamedMessageQueue`, in one process.  A step is what happens between two points at which the GIL
may change hands; the reads, writes, sends and receives run without it, on a number that they have
read before.

* `Process` : the descriptors and mappings of the process, the objects, and the calls under way;
* `Process.step` : the steps, with every failure on the way to a new object;
* `Process.close` : the method `close`, with what it returns or raises.

A `NamedMessageQueue` that `tp_alloc` has made and `nmq_from_mq` has not filled in has zeros for
its flags and its descriptor, which count as open.  `NamedMessageQueue()` and a late failure drop
such an object; `NamedMessageQueue.__new__` gives it to the program.

Registrations for notifications are left out, and an object that is unpickled gets its descriptor
from elsewhere.  `munmap` of a whole mapping does not fail.
-/
import PosixIpc.StepSystem

namespace PosixIpc

/-! ## The process -/

/-- An open file of the table, and the object of the module that it was opened for. -/
structure OpenFile where
  file : ℕ
  owner : Option ℕ
  deriving DecidableEq, Repr

inductive FdKind
  | eventFD
  | memFD
  | namedMQ
  deriving DecidableEq, Repr

/-- `PosixIPCEventFDObject`, `PosixIPCMemFDObject` or `PosixIPCNamedMQObject`. -/
structure FdObject where
  kind : FdKind
  /-- `fd`, `core.fd` or `mq`; `none` is `-1`. -/
  fd : Option ℕ
  /-- `POSIXIPC_FLAG_BOUND`, set when a new object has been filled in.  No method looks at it. -/
  bound : Bool
  /-- `POSIXIPC_FLAG_CLOSED`. -/
  closed : Bool
  /-- `core.map`. -/
  map : Option ℕ
  size : ℕ
  pins : ℕ
  /-- The buffers that were handed out and not released yet. -/
  views : ℕ
  freed : Bool
  deriving DecidableEq, Repr

/-- A call that has passed its check of the object, and the number it has read, if it has. -/
structure FdCall where
  obj : ℕ
  fd : Option ℕ
  deriving DecidableEq, Repr

/-- A system call on a number: the object it was made for, and what the number stood for. -/
structure FdEvent where
  obj : ℕ
  fd : ℕ
  entry : Option OpenFile
  closes : Bool
  deriving DecidableEq, Repr

/-- The number stood for the descriptor of the object. -/
def FdEvent.Own (e : FdEvent) : Prop := ∃ f, e.entry = some ⟨f, some e.obj⟩

instance (e : FdEvent) : Decidable e.Own :=
  decidable_of_iff (e.entry.bind OpenFile.owner = some e.obj) (by
    simp only [FdEvent.Own, Option.bind_eq_some_iff]
    constructor
    · rintro ⟨⟨f, owner⟩, he, rfl⟩
      exact ⟨f, he⟩
    · rintro ⟨f, he⟩
      exact ⟨_, he, rfl⟩)

structure Process where
  table : ℕ → Option OpenFile
  maps : ℕ → Option ℕ
  objects : List FdObject
  calls : List FdCall
  log : List FdEvent

/-! ## The functions -/

/-- `tp_alloc`: all fields are zero, and a descriptor of zero is one. -/
def FdObject.zeroed (kind : FdKind) : FdObject :=
  ⟨kind, some 0, false, false, none, 0, 0, 0, false⟩

/-- `efd_from_fd` and `nmq_from_mq` at their end. -/
def FdObject.ofFd (kind : FdKind) (d : ℕ) : FdObject :=
  { zeroed kind with fd := some d, bound := true }

/-- `memfd_from_core` at its end. -/
def FdObject.ofCore (d m size : ℕ) : FdObject :=
  { zeroed .memFD with fd := some d, bound := true, map := some m, size := size }

/-- The object without its descriptor and its mapping. -/
def FdObject.bare (o : FdObject) : FdObject := { o with fd := none, map := none, size := 0 }

/-- The negation of `efd_is_closed` and `memfd_is_closed`, and the test of `nmq_check_open`. -/
def FdObject.isOpen (o : FdObject) : Bool :=
  match o.kind with
  | .eventFD => !o.closed && o.fd.isSome
  | .memFD => !o.closed && o.map.isSome
  | .namedMQ => !o.closed && o.fd.isSome

namespace Process

def openFd (i d f : ℕ) (s : Process) : Process :=
  { s with table := fun x => if x = d then some ⟨f, some i⟩ else s.table x }

def mapFile (i m : ℕ) (s : Process) : Process :=
  { s with maps := fun x => if x = m then some i else s.maps x }

/-- `munmap` and `close`, each if there is something: `posixipc_memfd_close`, and without a mapping
`posixipc_eventfd_close` and `posixipc_mq_close`. -/
def letGo (i : ℕ) (o : FdObject) (s : Process) : Process :=
  { s with
    table := fun x => if o.fd = some x then none else s.table x
    maps := fun m => if o.map = some m then none else s.maps m
    log := s.log ++ o.fd.toList.map fun d => ⟨i, d, s.table d, true⟩ }

def addObject (o : FdObject) (s : Process) : Process := { s with objects := s.objects ++ [o] }

def setObject (i : ℕ) (o : FdObject) (s : Process) : Process :=
  { s with objects := s.objects.set i o }

/-- `efd_from_fd`, for a descriptor that is new. -/
def efdFromFd (d : ℕ) (noMemory : Bool) (s : Process) : Process :=
  if noMemory then s.letGo s.objects.length (.ofFd .eventFD d)
  else s.addObject (.ofFd .eventFD d)

end Process

/-- What fails on the way to a new `MemFD`; unpickling does not truncate. -/
inductive MemfdFault
  | truncate
  | map
  | name
  | object
  deriving DecidableEq, Repr

/-- What fails on the way to a new `NamedMessageQueue`. -/
inductive NmqFault
  | object
  | attributes
  | name
  deriving DecidableEq, Repr

namespace Process

/-- `posixipc_memfd_create` or `posixipc_memfd_from_fd`, and `memfd_from_core`. -/
def memfdFromCore (d m size : ℕ) (fault : Option MemfdFault) (s : Process) : Process :=
  let i := s.objects.length
  match fault with
  | some .truncate => s.letGo i (.ofFd .memFD d)
  | some .map => s.letGo i (.ofFd .memFD d)
  | some .name => (s.mapFile i m).letGo i (.ofCore d m size)
  | some .object => (s.mapFile i m).letGo i (.ofCore d m size)
  | none => (s.mapFile i m).addObject (.ofCore d m size)

/-- `nmq_dealloc` of an object with nothing but zeros. -/
def nmqDropNew (s : Process) : Process := s.letGo s.objects.length (.zeroed .namedMQ)

/-- `nmq_from_mq`; after `tp_alloc` a failure drops the new object. -/
def nmqFromMq (d : ℕ) (fault : Option NmqFault) (s : Process) : Process :=
  let closed := s.letGo s.objects.length (.ofFd .namedMQ d)
  match fault with
  | some .object => closed
  | some .attributes => closed.nmqDropNew
  | some .name => closed.nmqDropNew
  | none => s.addObject (.ofFd .namedMQ d)

end Process

/-- What the method `close` returns or raises. -/
inductive CloseResult
  /-- `None`. -/
  | done
  /-- `BufferError`: there are views. -/
  | bufferError
  /-- `OSError`: the system call has failed. -/
  | osError
  deriving DecidableEq, Repr

namespace Process

/-- `efd_close`, `memfd_close` and `nmq_close`; `fails` says that `close` reports an error, which
only `memfd_close` looks at. -/
def closeObject (i : ℕ) (o : FdObject) (fails : Bool) (s : Process) : CloseResult × Process :=
  match o.kind with
  | .eventFD =>
    if o.isOpen then (.done, (s.letGo i o).setObject i { o.bare with closed := true })
    else (.done, s)
  | .memFD =>
    if !o.isOpen then (.done, s)
    else if 0 < o.pins % 2 ^ 32 then (.bufferError, s)
    else
      (if fails then .osError else .done,
        (s.letGo i o).setObject i { o.bare with closed := !fails })
  | .namedMQ =>
    if o.closed then (.done, s)
    else (.done, (s.letGo i o).setObject i { o.bare with closed := true })

/-- The method `close` of object `i`, while somebody has a reference to it. -/
def close (i : ℕ) (fails : Bool) (s : Process) : Option (CloseResult × Process) :=
  match s.objects[i]? with
  | none => none
  | some o => if o.freed then none else some (s.closeObject i o fails)

/-- `efd_dealloc`, `memfd_dealloc` and `nmq_dealloc`. -/
def dealloc (i : ℕ) (o : FdObject) (s : Process) : Process :=
  match o.kind with
  | .eventFD =>
    if o.isOpen then (s.letGo i o).setObject i { o.bare with closed := true, freed := true }
    else s.setObject i { o with freed := true }
  | .memFD =>
    if o.isOpen then (s.letGo i o).setObject i { o.bare with pins := 0, freed := true }
    else s.setObject i { o with freed := true }
  | .namedMQ =>
    if o.closed then s.setObject i { o with freed := true }
    else (s.letGo i o).setObject i { o.bare with freed := true }

end Process

/-! ## The steps -/

/-- The steps.  `d` is the number that the kernel gives to a new descriptor, `f` the file that it
stands for, and `m` a new mapping. -/
inductive FdOp
  /-- `EventFD()` or `_rebuild_eventfd`. -/
  | efd (d f : ℕ) (noMemory : Bool)
  /-- `MemFD.create` or `_rebuild_memfd`. -/
  | memfd (d f m size : ℕ) (fault : Option MemfdFault)
  /-- `create`, `attach` or `open_or_create` of a `NamedMessageQueue`. -/
  | nmq (d f : ℕ) (fault : Option NmqFault)
  /-- `NamedMessageQueue()`, whose `nmq_init` raises. -/
  | nmqCall
  /-- `NamedMessageQueue.__new__(NamedMessageQueue)`: `PyType_GenericNew`, without `nmq_init`. -/
  | nmqNew
  /-- `read`, `write`, `put` or `get` up to the release of the GIL.  A wait in slices has a copy
  of `o->mq`.  On a queue of zeros it is `get`: `put` refuses every length. -/
  | begin (i : ℕ) (copies : Bool)
  /-- The calls without a copy look at `o->fd` or `o->mq` without the GIL. -/
  | load (k : ℕ)
  /-- The system call of a call; a wait in slices makes several. -/
  | use (k : ℕ)
  | finish (k : ℕ)
  /-- `memfd_getbuffer`. -/
  | view (i : ℕ)
  /-- `memfd_releasebuffer`. -/
  | release (i : ℕ)
  | close (i : ℕ) (fails : Bool)
  /-- The last reference goes. -/
  | drop (i : ℕ)
  /-- `__reduce__`, which duplicates the descriptor for the rest of the program. -/
  | reduce (i d : ℕ)
  /-- The rest of the program opens a file, or closes one of its own. -/
  | otherOpen (d f : ℕ)
  | otherClose (d : ℕ)
  deriving DecidableEq, Repr

namespace Process

/-- A process before the first use of the module. -/
def start (table : ℕ → Option OpenFile) : Process := ⟨table, fun _ => none, [], [], []⟩

/-- One step; `none` when it is not possible. -/
def step (s : Process) : FdOp → Option Process
  | .efd d f noMemory =>
    if s.table d = none then some ((s.openFd s.objects.length d f).efdFromFd d noMemory) else none
  | .memfd d f m size fault =>
    if s.table d = none ∧ s.maps m = none ∧ 0 < size then
      some ((s.openFd s.objects.length d f).memfdFromCore d m size fault)
    else none
  | .nmq d f fault =>
    if s.table d = none then some ((s.openFd s.objects.length d f).nmqFromMq d fault) else none
  | .nmqCall => some s.nmqDropNew
  | .nmqNew => some (s.addObject (.zeroed .namedMQ))
  | .begin i copies =>
    match s.objects[i]? with
    | none => none
    | some o =>
      if o.freed then none
      else if !o.isOpen then some s
      else
        match o.kind with
        | .eventFD => some { s with calls := s.calls ++ [⟨i, none⟩] }
        | .memFD => none
        | .namedMQ => some { s with calls := s.calls ++ [⟨i, o.fd.filter fun _ => copies⟩] }
  | .load k =>
    match s.calls[k]? with
    | none => none
    | some c =>
      match s.objects[c.obj]? with
      | none => none
      | some o =>
        if c.fd = none then some { s with calls := s.calls.set k ⟨c.obj, o.fd⟩ } else none
  | .use k =>
    match s.calls[k]? with
    | none => none
    | some c =>
      some { s with log := s.log ++ c.fd.toList.map fun d => ⟨c.obj, d, s.table d, false⟩ }
  | .finish k => some { s with calls := s.calls.eraseIdx k }
  | .view i =>
    match s.objects[i]? with
    | none => none
    | some o =>
      if o.freed ∨ o.kind ≠ .memFD then none
      else if !o.isOpen then some s
      else some (s.setObject i { o with pins := o.pins + 1, views := o.views + 1 })
  | .release i =>
    match s.objects[i]? with
    | none => none
    | some o =>
      if o.views = 0 then none
      else some (s.setObject i { o with pins := o.pins - 1, views := o.views - 1 })
  | .close i fails => (s.close i fails).map Prod.snd
  | .drop i =>
    match s.objects[i]? with
    | none => none
    -- a view or a call under way has a reference
    | some o =>
      if o.freed ∨ o.views ≠ 0 ∨ ∃ c ∈ s.calls, c.obj = i then none else some (s.dealloc i o)
  | .reduce i d =>
    match s.objects[i]? with
    | none => none
    | some o =>
      if o.freed ∨ o.kind = .namedMQ ∨ s.table d ≠ none then none
      else if !o.isOpen then some s
      else
        match o.fd.bind s.table with
        | none => some s
        | some e =>
          some { s with table := fun x => if x = d then some ⟨e.file, none⟩ else s.table x }
  | .otherOpen d f =>
    if s.table d = none then
      some { s with table := fun x => if x = d then some ⟨f, none⟩ else s.table x }
    else none
  | .otherClose d =>
    match s.table d with
    | none => none
    | some e =>
      if e.owner = none then
        some { s with table := fun x => if x = d then none else s.table x }
      else none

end Process

end PosixIpc
