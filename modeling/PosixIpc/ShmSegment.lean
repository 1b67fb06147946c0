/-
# A shared-memory segment (`posixipc_shm.c`, the segment part of `py_layout.c`)

The header, the slot directory and the storage of the slots, and the code that writes and
reads them, as memory programs.

* `Cell` names the cells: the header fields, the fields of a directory record, one cell for
  the object of a primitive, and the words of a queue ring.
* `shmCreateStores` is what `posixipc_shm_create` writes, `initSlots` and `initRings` are
  `layout_init_primitives` and `layout_init_queue_ctrls`;
* `compareExpect` is the comparison of `posixipc_shm_attach`.
-/
import PosixIpc.QueueRing

namespace PosixIpc

open StoreProg

/-! ## Cells -/

/-- The fields of `posixipc_shm_header`; the reserved words are one field. -/
inductive HeaderField
  | magic
  | layoutVersion
  | slotCount
  | abiTag
  | flags
  | totalSize
  | directoryBytes
  | state
  | layoutDigest
  | reserved
  deriving DecidableEq

/-- The fields of `posixipc_slot`. -/
inductive SlotField
  | kind
  | align
  | offset
  | size
  | initFlags
  deriving DecidableEq

/-- The cells of a segment. -/
inductive Cell
  | header (f : HeaderField)
  | dir (i : ℕ) (f : SlotField)
  /-- The object of the primitive in slot `i`. -/
  | prim (i : ℕ)
  /-- The cells of the queue ring in slot `i`. -/
  | ring (i : ℕ) (l : Loc)
  /-- The two words in front of the ring of a futex queue. -/
  | notFull (i : ℕ)
  | notEmpty (i : ℕ)
  deriving DecidableEq

/-- The content of a segment. -/
abbrev SegMem := Cell → ℕ

/-- Programs on a segment. -/
abbrev SegProg := Prog Cell ℕ

/-- `magic_wire()`, the bytes `PIPC` as a little-endian word. -/
def magicWire : ℕ := 0x43504950
/-- `POSIXIPC_HEADER_BYTES`. -/
def headerBytes : ℕ := 64
/-- `POSIXIPC_STATE_INITIALIZING`. -/
def stateInitializing : ℕ := 1
/-- `POSIXIPC_STATE_READY`. -/
def stateReady : ℕ := 2
/-- `POSIXIPC_STATE_BROKEN`. -/
def stateBroken : ℕ := 3

/-- The slot kinds. -/
def kindBytes : ℕ := 1
def kindSpin : ℕ := 8

/-- A kind whose slot holds a primitive: `POSIXIPC_KIND_MUTEX` to `POSIXIPC_KIND_SPIN`. -/
def isPrimitive (kind : ℕ) : Bool := kindBytes < kind ∧ kind ≤ kindSpin

/-- `posixipc_slot`. -/
structure Slot where
  kind : ℕ
  align : ℕ
  offset : ℕ
  size : ℕ
  initFlags : ℕ
  deriving DecidableEq, Repr, Inhabited

def Slot.field (s : Slot) : SlotField → ℕ
  | .kind => s.kind
  | .align => s.align
  | .offset => s.offset
  | .size => s.size
  | .initFlags => s.initFlags

/-- `posixipc_shm_expect`; `none` is a `NULL` slot array. -/
structure Expect where
  layoutVersion : ℕ
  slotCount : ℕ
  abiTag : ℕ
  flags : ℕ
  totalSize : ℕ
  directoryBytes : ℕ
  layoutDigest : ℕ
  slots : Option (List Slot)
  deriving DecidableEq, Repr

/-! ## Writing a segment -/

/-- `write_header`: clear the header, then fill it in. -/
def writeHeader (e : Expect) : SegProg Unit := do
  Prog.write (.header .magic) 0
  Prog.write (.header .layoutVersion) 0
  Prog.write (.header .slotCount) 0
  Prog.write (.header .abiTag) 0
  Prog.write (.header .flags) 0
  Prog.write (.header .totalSize) 0
  Prog.write (.header .directoryBytes) 0
  Prog.write (.header .state) 0
  Prog.write (.header .layoutDigest) 0
  Prog.write (.header .reserved) 0
  Prog.write (.header .magic) magicWire
  Prog.write (.header .layoutVersion) e.layoutVersion
  Prog.write (.header .slotCount) e.slotCount
  Prog.write (.header .abiTag) e.abiTag
  Prog.write (.header .flags) e.flags
  Prog.write (.header .totalSize) e.totalSize
  Prog.write (.header .directoryBytes) e.directoryBytes
  Prog.write (.header .layoutDigest) e.layoutDigest

/-- Copy one directory record. -/
def writeSlot (i : ℕ) (s : Slot) : SegProg Unit := do
  Prog.write (.dir i .kind) s.kind
  Prog.write (.dir i .align) s.align
  Prog.write (.dir i .offset) s.offset
  Prog.write (.dir i .size) s.size
  Prog.write (.dir i .initFlags) s.initFlags

/-- Copy the records of a list, the first one to index `i`. -/
def writeSlots : ℕ → List Slot → SegProg Unit
  | _, [] => pure ()
  | i, s :: slots => do
    writeSlot i s
    writeSlots (i + 1) slots

/-- `write_directory`. -/
def writeDirectory (e : Expect) : SegProg Rc :=
  if e.slotCount = 0 then pure .ok
  else
    match e.slots with
    | none => pure .einval
    | some slots => do
      writeSlots 0 (slots.take (e.directoryBytes / 16))
      pure .ok

/-- What `posixipc_shm_create` writes to the mapped segment. -/
def shmCreateStores (e : Expect) : SegProg Rc := do
  writeHeader e
  let rc ← writeDirectory e
  if rc ≠ .ok then pure rc
  else do
    Prog.write (.header .state) stateInitializing
    pure .ok

/-- `posixipc_shm_offset_ptr`, with the pointer as an offset into the mapping. -/
def posixipcShmOffsetPtr (offset size align : ℕ) : SegProg (Except Rc ℕ) := do
  let dirBytes ← Prog.read (.header .directoryBytes)
  if offset < Word32.u32 (headerBytes + dirBytes) then pure (.error .einval)
  else do
    let total ← Prog.read (.header .totalSize)
    if size = 0 ∨ offset > total then pure (.error .einval)
    else if size > total - offset then pure (.error .einval)
    else if align > 1 ∧ offset % align ≠ 0 then pure (.error .einval)
    else pure (.ok offset)

/-- The body of the loop of `layout_init_primitives`: the object of slot `i` is written by
the `init` function of its kind. -/
def initSlot (i : ℕ) (s : Slot) : SegProg Rc := do
  let ptr ← posixipcShmOffsetPtr s.offset s.size s.align
  match ptr with
  | .error rc => pure rc
  | .ok _ =>
    if isPrimitive s.kind then do
      Prog.write (.prim i) 1
      pure .ok
    else pure .ok

/-- A queue of a layout: the slot of its ring, its class and its geometry. -/
structure RingSpec where
  slot : ℕ
  futex : Bool
  depth : ℕ
  itemSize : ℕ
  deriving DecidableEq, Repr

/-- `posixipc_futexq_init` on slot `i`. -/
def posixipcFutexqInit (i : ℕ) (fv : FutexqView) : SegProg Rc := do
  Prog.write (.notFull i) 0
  Prog.write (.notEmpty i) 0
  (posixipcQueueInitCtrl fv.view).relocate (.ring i)

/-- `posixipc_queue_init_on_shm` and `posixipc_futexq_init_on_shm`. -/
def initRing (cacheline : ℕ) (s : Slot) (q : RingSpec) : SegProg Rc := do
  let ptr ← posixipcShmOffsetPtr s.offset s.size s.align
  match ptr with
  | .error rc => pure rc
  | .ok base =>
    if q.futex then
      match posixipcFutexqMap cacheline (some base) s.size q.depth q.itemSize with
      | .error rc => pure rc
      | .ok fv => posixipcFutexqInit q.slot fv
    else
      match posixipcQueueMap cacheline (some base) s.size q.depth q.itemSize with
      | .error rc => pure rc
      | .ok v => (posixipcQueueInitCtrl v).relocate (.ring q.slot)

/-- Go on with `q` if `p` returned `0`. -/
def SegProg.andThen (p q : SegProg Rc) : SegProg Rc := do
  let rc ← p
  if rc ≠ .ok then pure rc else q

/-- `layout_init_primitives` from slot `i` on. -/
def initSlots : ℕ → List Slot → SegProg Rc
  | _, [] => pure .ok
  | i, s :: rest => SegProg.andThen (initSlot i s) (initSlots (i + 1) rest)

/-- `layout_init_queue_ctrls` on the queues of a list. -/
def initRings (cacheline : ℕ) (slots : List Slot) : List RingSpec → SegProg Rc
  | [] => pure .ok
  | q :: rest =>
    SegProg.andThen (initRing cacheline (slots.getD q.slot default) q)
      (initRings cacheline slots rest)

/-- **The initialisation of a segment**: header, directory, primitives and queue words. -/
def initSegment (cacheline : ℕ) (e : Expect) (rings : List RingSpec) : SegProg Rc :=
  SegProg.andThen (shmCreateStores e)
    (SegProg.andThen (initSlots 0 (e.slots.getD []))
      (initRings cacheline (e.slots.getD []) rings))

/-! ## Reading a segment -/

/-- Compare the directory records from index `i` on. -/
def compareSlots : ℕ → List Slot → SegProg Rc
  | _, [] => pure .ok
  | i, s :: slots => do
    let kind ← Prog.read (.dir i .kind)
    let align ← Prog.read (.dir i .align)
    let offset ← Prog.read (.dir i .offset)
    let size ← Prog.read (.dir i .size)
    let initFlags ← Prog.read (.dir i .initFlags)
    if kind ≠ s.kind ∨ align ≠ s.align ∨ offset ≠ s.offset ∨ size ≠ s.size ∨
        initFlags ≠ s.initFlags then
      pure .layoutMismatch
    else compareSlots (i + 1) slots

/-- `compare_expect`; `none` is `expect == NULL`. -/
def compareExpect (expect : Option Expect) : SegProg Rc := do
  let magic ← Prog.read (.header .magic)
  if magic ≠ magicWire then pure .layoutMismatch
  else
    match expect with
    | none => pure .ok
    | some e => do
      let layoutVersion ← Prog.read (.header .layoutVersion)
      let slotCount ← Prog.read (.header .slotCount)
      let abiTag ← Prog.read (.header .abiTag)
      let totalSize ← Prog.read (.header .totalSize)
      let directoryBytes ← Prog.read (.header .directoryBytes)
      let layoutDigest ← Prog.read (.header .layoutDigest)
      if layoutVersion ≠ e.layoutVersion ∨ slotCount ≠ e.slotCount ∨ abiTag ≠ e.abiTag ∨
          totalSize ≠ e.totalSize ∨ directoryBytes ≠ e.directoryBytes ∨
          layoutDigest ≠ e.layoutDigest then
        pure .layoutMismatch
      else if e.slotCount = 0 then pure .ok
      else
        match e.slots with
        | none => pure .layoutMismatch
        | some slots => compareSlots 0 (slots.take e.slotCount)

/-! ## What the programs store -/

/-- The second program runs if the first returned `OK`. -/
theorem SegProg.exec_andThen (p q : SegProg Rc) (m : SegMem) :
    Prog.exec (p.andThen q) m =
      if (Prog.exec p m).1 = .ok then Prog.exec q (Prog.exec p m).2 else Prog.exec p m := by
  unfold SegProg.andThen
  rw [Prog.exec_bind]
  by_cases h : (Prog.exec p m).1 = .ok
  · rw [if_pos h, if_neg (not_not.mpr h)]
  · rw [if_neg h, if_pos h]
    rfl

/-- A store that leaves the state word alone. -/
def OffState : Cell → ℕ → Prop := fun c _ => c ≠ .header .state

/-- A store that does not publish the segment. -/
def OffReady : Cell → ℕ → Prop := fun c v => c = .header .state → v ≠ stateReady

/-- The directory is not the state word. -/
theorem stores_writeSlots (i : ℕ) (slots : List Slot) :
    Prog.Stores OffState (writeSlots i slots) := by
  induction slots generalizing i with
  | nil => trivial
  | cons s slots ih =>
      refine Prog.stores_bind ?_ fun _ => ih (i + 1)
      simp only [writeSlot]
      repeat'
        first
        | refine Prog.stores_bind ?_ fun _ => ?_
        | exact (Prog.stores_write _ _ _).mpr (by simp [OffState])

/-- What is true of every store may be weakened. -/
theorem stores_mono {α : Type} {Q Q' : Cell → ℕ → Prop} {p : SegProg α}
    (hQ : ∀ c v, Q c v → Q' c v) (h : Prog.Stores Q p) : Prog.Stores Q' p := by
  induction p with
  | ret a => trivial
  | load l k ih => exact fun v => ih v (h v)
  | store l v k ih => exact ⟨hQ l v h.1, ih h.2⟩

/-- **Creating a segment does not store `READY`.** -/
theorem stores_shmCreateStores (e : Expect) : Prog.Stores OffReady (shmCreateStores e) := by
  have hheader : Prog.Stores OffReady (writeHeader e) := by
    unfold writeHeader
    repeat'
      first
      | refine Prog.stores_bind ?_ fun _ => ?_
      | exact (Prog.stores_write _ _ _).mpr (by simp [OffReady, stateReady])
  have hdir : Prog.Stores OffReady (writeDirectory e) := by
    unfold writeDirectory
    split_ifs
    · trivial
    · split
      · trivial
      · refine Prog.stores_bind ?_ fun _ => trivial
        exact stores_mono (fun c v h hc => absurd hc h) (stores_writeSlots 0 _)
  refine Prog.stores_bind hheader fun _ => Prog.stores_bind hdir fun rc => ?_
  split_ifs
  · trivial
  · refine Prog.stores_bind ?_ fun _ => trivial
    exact (Prog.stores_write _ _ _).mpr (by simp [OffReady, stateInitializing, stateReady])

/-- The offset check stores nothing. -/
theorem stores_posixipcShmOffsetPtr (Q : Cell → ℕ → Prop) (offset size align : ℕ) :
    Prog.Stores Q (posixipcShmOffsetPtr offset size align) := by
  refine Prog.stores_bind (Prog.stores_read _ _) fun d => ?_
  by_cases h : offset < Word32.u32 (headerBytes + d)
  · rw [if_pos h]
    trivial
  · rw [if_neg h]
    refine Prog.stores_bind (Prog.stores_read _ _) fun t => ?_
    split_ifs <;> trivial

/-- A primitive is initialised at its own cell. -/
theorem stores_initSlot {Q : Cell → ℕ → Prop} {i : ℕ} (hprim : Q (.prim i) 1) (s : Slot) :
    Prog.Stores Q (initSlot i s) := by
  refine Prog.stores_bind (stores_posixipcShmOffsetPtr _ _ _ _) fun ptr => ?_
  split
  · trivial
  · split_ifs
    · exact Prog.stores_bind ((Prog.stores_write _ _ _).mpr hprim) fun _ => trivial
    · trivial

/-- The words of a queue are initialised at their own cells. -/
theorem stores_initRing {Q : Cell → ℕ → Prop} (cacheline : ℕ) (s : Slot) {q : RingSpec}
    (hring : ∀ l v, Q (.ring q.slot l) v) (hfull : Q (.notFull q.slot) 0)
    (hempty : Q (.notEmpty q.slot) 0) : Prog.Stores Q (initRing cacheline s q) := by
  have hprog : ∀ p : RingProg Rc, Prog.Stores Q (p.relocate (Cell.ring q.slot)) :=
    fun p => Prog.stores_relocate hring p
  refine Prog.stores_bind (stores_posixipcShmOffsetPtr _ _ _ _) fun ptr => ?_
  split
  · trivial
  · split_ifs
    · split
      · trivial
      · refine Prog.stores_bind ((Prog.stores_write _ _ _).mpr hfull) fun _ => ?_
        exact Prog.stores_bind ((Prog.stores_write _ _ _).mpr hempty) fun _ => hprog _
    · split
      · trivial
      · exact hprog _

/-- The comparison of an attacher stores nothing. -/
theorem stores_compareExpect (expect : Option Expect) :
    Prog.Stores (fun _ _ => False) (compareExpect expect) := by
  have hslots : ∀ (slots : List Slot) (i : ℕ),
      Prog.Stores (fun _ _ => False) (compareSlots i slots) := by
    intro slots
    induction slots with
    | nil => exact fun _ => trivial
    | cons s slots ih =>
        intro i
        unfold compareSlots
        iterate 5 refine Prog.stores_bind (Prog.stores_read _ _) fun _ => ?_
        split_ifs
        · trivial
        · exact ih (i + 1)
  refine Prog.stores_bind (Prog.stores_read _ _) fun magic => ?_
  split_ifs
  · trivial
  · cases expect with
    | none => trivial
    | some e =>
        simp only
        iterate 6 refine Prog.stores_bind (Prog.stores_read _ _) fun _ => ?_
        split_ifs
        · trivial
        · trivial
        · split
          · trivial
          · exact hslots _ _

/-- A segment whose creation succeeded is marked as being initialised. -/
theorem shmCreateStores_state {e : Expect} {m m' : SegMem}
    (h : Prog.exec (shmCreateStores e) m = (.ok, m')) :
    m' (.header .state) = stateInitializing := by
  unfold shmCreateStores at h
  simp only [Prog.exec_bind] at h
  split_ifs at h with hrc
  · exact absurd (congrArg Prod.fst h) hrc
  · have hm := congrArg Prod.snd h
    simp only [Prog.exec_bind, Prog.exec_write, Prog.exec_pure] at hm
    rw [← hm]
    simp

end PosixIpc
