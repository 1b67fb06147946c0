/-
# Attaching to a segment (`posixipc_shm_attach`)

The call on a segment that nobody changes while it runs, byte for byte.

* `Cell.span` says which bytes a cell of the header or of the directory is, `cellsOf` reads
  the cells out of the bytes of a file;
* `posixipcShmAttach` is the call.  The environment answers its system calls and the checks
  of its deadline; `none` is a call that is still waiting after the given number of turns;
* `Accepts` says when a file is the expected segment.

The main result is `posixipcShmAttach_exact`: the call returns `0` for the expected segment
and for no other, and it reads the header and the checked directory, nothing else.
-/
import PosixIpc.LayoutBuild

namespace PosixIpc

open StoreProg Word32

/-! ## Bytes -/

/-- First byte and length of a header field. -/
def HeaderField.span : HeaderField → ℕ × ℕ
  | .magic => (0, 4)
  | .layoutVersion => (4, 2)
  | .slotCount => (6, 2)
  | .abiTag => (8, 4)
  | .flags => (12, 4)
  | .totalSize => (16, 4)
  | .directoryBytes => (20, 4)
  | .state => (24, 4)
  | .layoutDigest => (28, 4)
  | .reserved => (32, 32)

/-- First byte and length of a field within its directory record. -/
def SlotField.span : SlotField → ℕ × ℕ
  | .kind => (0, 2)
  | .align => (2, 2)
  | .offset => (4, 4)
  | .size => (8, 4)
  | .initFlags => (12, 4)

/-- The bytes of a cell; the storage of a slot is where its record says. -/
def Cell.span : Cell → Option (ℕ × ℕ)
  | .header f => some f.span
  | .dir i f => some (headerBytes + sizeofSlot * i + f.span.1, f.span.2)
  | .prim _ => none
  | .ring _ _ => none
  | .notFull _ => none
  | .notEmpty _ => none

/-- The bytes of the cell end at or before `bound`. -/
def Cell.Within (c : Cell) (bound : ℕ) : Prop :=
  match c.span with
  | some (off, n) => off + n ≤ bound
  | none => False

instance Cell.decidableWithin (c : Cell) (bound : ℕ) : Decidable (c.Within bound) :=
  match h : c.span with
  | some (off, n) => decidable_of_iff (off + n ≤ bound) (by rw [Cell.Within, h])
  | none => .isFalse (by rw [Cell.Within, h]; exact not_false)

theorem Cell.Within.mono {c : Cell} {a b : ℕ} (h : c.Within a) (hab : a ≤ b) : c.Within b := by
  unfold Cell.Within at *
  split at h
  · exact le_trans h hab
  · exact h

/-- The header fields are the bytes of the header. -/
theorem within_header (f : HeaderField) : (Cell.header f).Within headerBytes := by
  cases f <;> decide

theorem within_dir (i : ℕ) (f : SlotField) :
    (Cell.dir i f).Within (headerBytes + sizeofSlot * (i + 1)) := by
  show headerBytes + sizeofSlot * i + f.span.1 + f.span.2 ≤ headerBytes + sizeofSlot * (i + 1)
  have hf : f.span.1 + f.span.2 ≤ sizeofSlot := by cases f <;> decide
  rw [Nat.mul_succ]
  omega

/-- A little-endian number. -/
def leNat (bytes : List UInt8) : ℕ := bytes.foldr (fun b n => b.toNat + 256 * n) 0

/-- The header and the directory in the bytes of a file. -/
def cellsOf (bytes : List UInt8) : SegMem := fun c =>
  match c.span with
  | some (off, n) => leNat ((bytes.drop off).take n)
  | none => 0

/-! ## The call -/

/-- What the call uses of `struct stat`. -/
structure Stat where
  uid : ℕ
  mode : ℕ
  size : ℕ
  deriving DecidableEq, Repr

/-- A file. -/
structure ShmFile where
  uid : ℕ
  mode : ℕ
  bytes : List UInt8

def ShmFile.stat (file : ShmFile) : Stat := ⟨file.uid, file.mode, file.bytes.length⟩

/-- The answers of the system to one call: `none` is a system call that succeeds.  The checks
of the deadline and the calls of a loop are numbered. -/
structure AttachEnv where
  euid : ℕ
  expired : ℕ → Bool
  shmOpen : Option Rc
  fstat : ℕ → Option Rc
  nanosleep : ℕ → Option Rc
  mmapWindow : Option Rc
  mmapSegment : Option Rc
  close : Option Rc
  dupName : Option Rc

/-- No system call fails. -/
structure AttachEnv.Clean (env : AttachEnv) : Prop where
  shmOpen : env.shmOpen = none
  fstat : ∀ n, env.fstat n = none
  nanosleep : ∀ n, env.nanosleep n = none
  mmapWindow : env.mmapWindow = none
  mmapSegment : env.mmapSegment = none
  close : env.close = none
  dupName : env.dupName = none

/-- `posixipc_shm_validate_name` on the bytes of the name: `47` is a slash, `46` a dot. -/
def posixipcShmValidateName : List UInt8 → Rc
  | [] => .einval
  | c :: rest =>
    if c ≠ 47 then .einval
    else if rest = [] then .einval
    else if 47 ∈ rest then .einval
    else if rest = [46] ∨ rest = [46, 46] then .einval
    else if rest.length > 255 then .other 36
    else .ok

/-- `posixipc_shm_stat_permitted`; the mask is `077`. -/
def posixipcShmStatPermitted (env : AttachEnv) (st : Stat) : Bool :=
  st.uid == env.euid && st.mode &&& 63 == 0

/-- Go on unless a system call failed. -/
def orFail {α : Type} (err : Option Rc) (fail : Rc → α) (k : α) : α :=
  match err with
  | some rc => fail rc
  | none => k

/-- The first loop: wait until the file has room for a header.  `.ok n` gives the number of
checks of the deadline made so far, `none` is a loop that has used its turns. -/
def awaitSize (env : AttachEnv) (st : Stat) : ℕ → ℕ → Option (Except Rc ℕ)
  | 0, _ => none
  | turns + 1, n =>
    if env.expired n then some (.error .notReady)
    else orFail (env.fstat n) (fun rc => some (.error rc)) <|
      if posixipcShmStatPermitted env st = false then some (.error .eacces)
      else if headerBytes ≤ st.size then some (.ok (n + 1))
      else
        orFail (env.nanosleep n) (fun rc => some (.error rc)) (awaitSize env st turns (n + 1))

/-- The second loop: wait until the segment is published. -/
def awaitReady (env : AttachEnv) : ℕ → ℕ → SegProg (Option (Except Rc ℕ))
  | 0, _ => pure none
  | turns + 1, n =>
    if env.expired n then pure (some (.error .notReady))
    else do
      let state ← Prog.read (.header .state)
      if state = stateReady then pure (some (.ok (n + 1)))
      else if state = stateBroken then pure (some (.error .broken))
      else
        orFail (env.nanosleep n) (fun rc => pure (some (.error rc)))
          (awaitReady env turns (n + 1))

/-- The rest of the call, on a published segment. -/
def attachReady (env : AttachEnv) (size n : ℕ) (expect : Option Expect) : SegProg Rc := do
  let total ← Prog.read (.header .totalSize)
  if total < headerBytes then pure .layoutMismatch
  else orFail (env.fstat n) pure <|
    if size < total then pure .layoutMismatch
    else if expect.any fun e => total ≠ e.totalSize then pure .layoutMismatch
    else orFail env.mmapSegment pure <|
      orFail env.close pure do
        let rc ← compareExpect expect
        if rc ≠ .ok then pure rc
        else orFail env.dupName pure (pure .ok)

/-- `posixipc_shm_attach` on an existing file. -/
def posixipcShmAttach (env : AttachEnv) (turns : ℕ) (name : List UInt8) (st : Stat)
    (expect : Option Expect) : SegProg (Option Rc) :=
  if posixipcShmValidateName name ≠ .ok then pure (some (posixipcShmValidateName name))
  else orFail env.shmOpen (fun rc => pure (some rc)) <|
    match awaitSize env st turns 0 with
    | none => pure none
    | some (.error rc) => pure (some rc)
    | some (.ok n) =>
      orFail env.mmapWindow (fun rc => pure (some rc)) do
        let ready ← awaitReady env turns n
        match ready with
        | none => pure none
        | some (.error rc) => pure (some rc)
        | some (.ok n) => do
          let rc ← attachReady env st.size n expect
          pure (some rc)

/-! ## The comparison -/

/-- The directory records from `i` on are those of a list. -/
def DirAt (m : SegMem) (i : ℕ) (slots : List Slot) : Prop :=
  ∀ j s, slots[j]? = some s → ∀ f, m (.dir (i + j) f) = s.field f

theorem dirAt_cons {m : SegMem} {i : ℕ} {s : Slot} {slots : List Slot} :
    DirAt m i (s :: slots) ↔ (∀ f, m (.dir i f) = s.field f) ∧ DirAt m (i + 1) slots := by
  constructor
  · intro h
    refine ⟨fun f => h 0 s rfl f, fun j x hx f => ?_⟩
    have := h (j + 1) x (by simpa using hx) f
    rwa [show i + (j + 1) = i + 1 + j by omega] at this
  · rintro ⟨h0, hrest⟩ j x hx f
    cases j with
    | zero =>
        obtain rfl : s = x := by simpa using hx
        exact h0 f
    | succ j =>
        have := hrest j x (by simpa using hx) f
        rwa [show i + 1 + j = i + (j + 1) by omega] at this

/-- One record is compared field by field. -/
theorem record_iff (m : SegMem) (i : ℕ) (s : Slot) :
    (m (.dir i .kind) ≠ s.kind ∨ m (.dir i .align) ≠ s.align ∨ m (.dir i .offset) ≠ s.offset ∨
      m (.dir i .size) ≠ s.size ∨ m (.dir i .initFlags) ≠ s.initFlags) ↔
      ¬∀ f, m (.dir i f) = s.field f := by
  constructor
  · rintro (h | h | h | h | h) hall
    · exact h (hall .kind)
    · exact h (hall .align)
    · exact h (hall .offset)
    · exact h (hall .size)
    · exact h (hall .initFlags)
  · intro h
    by_contra hcon
    push Not at hcon
    refine h fun f => ?_
    cases f with
    | kind => exact hcon.1
    | align => exact hcon.2.1
    | offset => exact hcon.2.2.1
    | size => exact hcon.2.2.2.1
    | initFlags => exact hcon.2.2.2.2

/-- The five loads of a record, and what follows them. -/
theorem compareSlots_cons (m : SegMem) (i : ℕ) (s : Slot) (slots : List Slot) :
    ∃ q : SegProg Rc,
      (q = compareSlots (i + 1) slots ∧ (∀ f, m (.dir i f) = s.field f) ∨
        q = pure .layoutMismatch ∧ ¬∀ f, m (.dir i f) = s.field f) ∧
      Prog.exec (compareSlots i (s :: slots)) m = Prog.exec q m ∧
      Prog.reads (compareSlots i (s :: slots)) m =
        [.dir i .kind, .dir i .align, .dir i .offset, .dir i .size, .dir i .initFlags] ++
          Prog.reads q m := by
  refine ⟨if m (.dir i .kind) ≠ s.kind ∨ m (.dir i .align) ≠ s.align ∨
      m (.dir i .offset) ≠ s.offset ∨ m (.dir i .size) ≠ s.size ∨
      m (.dir i .initFlags) ≠ s.initFlags then pure .layoutMismatch
    else compareSlots (i + 1) slots, ?_, rfl, rfl⟩
  split_ifs with h
  · exact Or.inr ⟨rfl, (record_iff m i s).mp h⟩
  · exact Or.inl ⟨rfl, not_not.mp fun hne => h ((record_iff m i s).mpr hne)⟩

theorem exec_compareSlots (m : SegMem) (i : ℕ) (slots : List Slot) :
    Prog.exec (compareSlots i slots) m = (.ok, m) ∧ DirAt m i slots ∨
      Prog.exec (compareSlots i slots) m = (.layoutMismatch, m) ∧ ¬DirAt m i slots := by
  induction slots generalizing i with
  | nil => exact Or.inl ⟨rfl, fun j s hs => by simp at hs⟩
  | cons s slots ih =>
      obtain ⟨q, hq, hexec, -⟩ := compareSlots_cons m i s slots
      rw [hexec, dirAt_cons]
      rcases hq with ⟨rfl, hall⟩ | ⟨rfl, hne⟩
      · rcases ih (i + 1) with ⟨he, hd⟩ | ⟨he, hd⟩
        · exact Or.inl ⟨he, hall, hd⟩
        · exact Or.inr ⟨he, fun h => hd h.2⟩
      · exact Or.inr ⟨rfl, fun h => hne h.1⟩

theorem reads_compareSlots (m : SegMem) (i : ℕ) (slots : List Slot) {c : Cell}
    (hc : c ∈ Prog.reads (compareSlots i slots) m) :
    ∃ j f, c = .dir j f ∧ j < i + slots.length := by
  induction slots generalizing i with
  | nil => simp [compareSlots] at hc
  | cons s slots ih =>
      obtain ⟨q, hq, -, hreads⟩ := compareSlots_cons m i s slots
      rw [hreads, List.mem_append] at hc
      rw [List.length_cons]
      rcases hc with hc | hc
      · simp only [List.mem_cons, List.not_mem_nil, or_false] at hc
        rcases hc with rfl | rfl | rfl | rfl | rfl <;> exact ⟨i, _, rfl, by omega⟩
      · rcases hq with ⟨rfl, -⟩ | ⟨rfl, -⟩
        · obtain ⟨j, f, rfl, hj⟩ := ih (i + 1) hc
          exact ⟨j, f, rfl, by omega⟩
        · simp at hc

/-- The fields of the header that are compared. -/
structure HeaderAgrees (m : SegMem) (e : Expect) : Prop where
  layoutVersion : m (.header .layoutVersion) = e.layoutVersion
  slotCount : m (.header .slotCount) = e.slotCount
  abiTag : m (.header .abiTag) = e.abiTag
  totalSize : m (.header .totalSize) = e.totalSize
  directoryBytes : m (.header .directoryBytes) = e.directoryBytes
  layoutDigest : m (.header .layoutDigest) = e.layoutDigest

theorem headerAgrees_iff (m : SegMem) (e : Expect) :
    (m (.header .layoutVersion) ≠ e.layoutVersion ∨ m (.header .slotCount) ≠ e.slotCount ∨
      m (.header .abiTag) ≠ e.abiTag ∨ m (.header .totalSize) ≠ e.totalSize ∨
      m (.header .directoryBytes) ≠ e.directoryBytes ∨
      m (.header .layoutDigest) ≠ e.layoutDigest) ↔ ¬HeaderAgrees m e := by
  constructor
  · rintro (h | h | h | h | h | h) ha
    · exact h ha.layoutVersion
    · exact h ha.slotCount
    · exact h ha.abiTag
    · exact h ha.totalSize
    · exact h ha.directoryBytes
    · exact h ha.layoutDigest
  · intro h
    by_contra hcon
    push Not at hcon
    exact h ⟨hcon.1, hcon.2.1, hcon.2.2.1, hcon.2.2.2.1, hcon.2.2.2.2.1, hcon.2.2.2.2.2⟩

/-- The slot array of an expectation has one record for each slot. -/
def Expect.Counted (e : Expect) : Prop :=
  e.slotCount = (e.slots.getD []).length

/-- The magic number, the header and the directory are those of `e`. -/
structure Agrees (m : SegMem) (e : Expect) : Prop where
  magic : m (.header .magic) = magicWire
  header : HeaderAgrees m e
  dir : DirAt m 0 (e.slots.getD [])

/-- The loads of the header, and what follows them. -/
theorem compareExpect_some (m : SegMem) (e : Expect) :
    ∃ (q : SegProg Rc) (cells : List HeaderField),
      (q = pure .layoutMismatch ∧ ¬(m (.header .magic) = magicWire ∧ HeaderAgrees m e) ∨
        q = (if e.slotCount = 0 then pure .ok
          else match e.slots with
            | none => pure .layoutMismatch
            | some slots => compareSlots 0 (slots.take e.slotCount)) ∧
          m (.header .magic) = magicWire ∧ HeaderAgrees m e) ∧
      Prog.exec (compareExpect (some e)) m = Prog.exec q m ∧
      Prog.reads (compareExpect (some e)) m = cells.map .header ++ Prog.reads q m := by
  by_cases hmagic : m (.header .magic) = magicWire
  · refine ⟨if m (.header .layoutVersion) ≠ e.layoutVersion ∨
        m (.header .slotCount) ≠ e.slotCount ∨ m (.header .abiTag) ≠ e.abiTag ∨
        m (.header .totalSize) ≠ e.totalSize ∨ m (.header .directoryBytes) ≠ e.directoryBytes ∨
        m (.header .layoutDigest) ≠ e.layoutDigest then pure .layoutMismatch
      else if e.slotCount = 0 then pure .ok
      else match e.slots with
        | none => pure .layoutMismatch
        | some slots => compareSlots 0 (slots.take e.slotCount),
      [.magic, .layoutVersion, .slotCount, .abiTag, .totalSize, .directoryBytes, .layoutDigest],
      ?_, ?_, ?_⟩
    · by_cases hhead : HeaderAgrees m e
      · rw [if_neg (fun h => (headerAgrees_iff m e).mp h hhead)]
        exact Or.inr ⟨rfl, hmagic, hhead⟩
      · rw [if_pos ((headerAgrees_iff m e).mpr hhead)]
        exact Or.inl ⟨rfl, fun h => hhead h.2⟩
    · show Prog.exec (if m (.header .magic) ≠ magicWire then pure Rc.layoutMismatch else _) m = _
      rw [if_neg (not_not.mpr hmagic)]
      rfl
    · show Cell.header .magic ::
        Prog.reads (if m (.header .magic) ≠ magicWire then pure Rc.layoutMismatch else _) m = _
      rw [if_neg (not_not.mpr hmagic)]
      rfl
  · refine ⟨pure .layoutMismatch, [.magic], Or.inl ⟨rfl, fun h => hmagic h.1⟩, ?_, ?_⟩
    · show Prog.exec (if m (.header .magic) ≠ magicWire then pure Rc.layoutMismatch else _) m = _
      rw [if_pos hmagic]
    · show Cell.header .magic ::
        Prog.reads (if m (.header .magic) ≠ magicWire then pure Rc.layoutMismatch else _) m = _
      rw [if_pos hmagic]
      rfl

/-- **`compare_expect` decides `Agrees`.** -/
theorem exec_compareExpect (m : SegMem) {e : Expect} (he : e.Counted) :
    Prog.exec (compareExpect (some e)) m = (.ok, m) ∧ Agrees m e ∨
      Prog.exec (compareExpect (some e)) m = (.layoutMismatch, m) ∧ ¬Agrees m e := by
  obtain ⟨q, -, hq, hexec, -⟩ := compareExpect_some m e
  rw [hexec]
  rcases hq with ⟨rfl, hne⟩ | ⟨rfl, hmagic, hhead⟩
  · exact Or.inr ⟨rfl, fun h => hne ⟨h.magic, h.header⟩⟩
  · unfold Expect.Counted at he
    by_cases h0 : e.slotCount = 0
    · rw [if_pos h0]
      refine Or.inl ⟨rfl, hmagic, hhead, ?_⟩
      have hnil : e.slots.getD [] = [] := List.eq_nil_of_length_eq_zero (he ▸ h0)
      rw [hnil]
      exact fun j s hs => by simp at hs
    · rw [if_neg h0]
      cases hslots : e.slots with
      | none =>
          rw [hslots] at he
          exact absurd he h0
      | some slots =>
          rw [hslots] at he
          simp only [Option.getD_some] at he
          simp only [he, List.take_length]
          rcases exec_compareSlots m 0 slots with ⟨hx, hd⟩ | ⟨hx, hd⟩
          · exact Or.inl ⟨hx, hmagic, hhead, by rw [hslots]; exact hd⟩
          · refine Or.inr ⟨hx, fun h => hd ?_⟩
            have := h.dir
            rwa [hslots] at this

/-- The directory is read only after the header was found to be the expected one. -/
theorem reads_compareExpect {m : SegMem} {e : Expect} {c : Cell}
    (hc : c ∈ Prog.reads (compareExpect (some e)) m) :
    (∃ f, c = .header f) ∨ ∃ j f, c = .dir j f ∧ j < e.slotCount := by
  obtain ⟨q, cells, hq, -, hreads⟩ := compareExpect_some m e
  rw [hreads, List.mem_append, List.mem_map] at hc
  rcases hc with ⟨f, -, rfl⟩ | hc
  · exact Or.inl ⟨f, rfl⟩
  · rcases hq with ⟨rfl, -⟩ | ⟨rfl, -, -⟩
    · simp at hc
    · split_ifs at hc
      · simp at hc
      · split at hc
        · simp at hc
        · obtain ⟨j, f, rfl, hj⟩ := reads_compareSlots m 0 _ hc
          refine Or.inr ⟨j, f, rfl, ?_⟩
          rw [List.length_take] at hj
          omega

/-! ## The waiting loops -/

section Loops

variable {env : AttachEnv} {st : Stat} {m : SegMem}

@[simp] theorem orFail_none {α : Type} (fail : Rc → α) (k : α) : orFail none fail k = k := rfl

/-- A file that has room for a header ends the first loop at once. -/
theorem awaitSize_long (henv : env.Clean) (hperm : posixipcShmStatPermitted env st = true)
    (hsize : headerBytes ≤ st.size) {turns n : ℕ} (hdl : env.expired n = false) :
    awaitSize env st (turns + 1) n = some (.ok (n + 1)) := by
  rw [awaitSize, hdl, henv.fstat, orFail_none, hperm]
  simp [hsize]

/-- A shorter file is waited for until the deadline. -/
theorem awaitSize_short (henv : env.Clean) (hperm : posixipcShmStatPermitted env st = true)
    (hsize : st.size < headerBytes) (turns n : ℕ) :
    awaitSize env st turns n = none ∨
      awaitSize env st turns n = some (.error .notReady) := by
  induction turns generalizing n with
  | zero => exact Or.inl rfl
  | succ turns ih =>
      rw [awaitSize, henv.fstat, orFail_none, hperm, henv.nanosleep, orFail_none]
      by_cases hdl : env.expired n = true
      · rw [if_pos hdl]
        exact Or.inr rfl
      · rw [if_neg hdl, if_neg (by simp), if_neg (by omega)]
        exact ih (n + 1)

/-- The second loop reads the state word, and changes nothing. -/
theorem awaitReady_quiet (env : AttachEnv) (m : SegMem) (turns n : ℕ) :
    (Prog.exec (awaitReady env turns n) m).2 = m ∧
      ∀ c ∈ Prog.reads (awaitReady env turns n) m, c = .header .state := by
  induction turns generalizing n with
  | zero => exact ⟨rfl, by simp [awaitReady]⟩
  | succ turns ih =>
      unfold awaitReady
      by_cases hdl : env.expired n = true
      · rw [if_pos hdl]
        exact ⟨rfl, by simp⟩
      · rw [if_neg hdl, Prog.exec_read_bind, Prog.reads_read_bind]
        split_ifs
        · exact ⟨rfl, by simp⟩
        · exact ⟨rfl, by simp⟩
        · cases env.nanosleep n with
          | some rc => exact ⟨rfl, by simp [orFail]⟩
          | none =>
              refine ⟨(ih (n + 1)).1, fun c hc => ?_⟩
              rcases List.mem_cons.mp hc with rfl | hc
              · rfl
              · exact (ih (n + 1)).2 c hc

/-- A settled state ends the second loop at once. -/
theorem awaitReady_settled {turns n : ℕ} (hdl : env.expired n = false) :
    (m (.header .state) = stateReady →
      (Prog.exec (awaitReady env (turns + 1) n) m).1 = some (.ok (n + 1))) ∧
    (m (.header .state) = stateBroken →
      (Prog.exec (awaitReady env (turns + 1) n) m).1 = some (.error .broken)) := by
  unfold awaitReady
  rw [if_neg (by simp [hdl]), Prog.exec_read_bind]
  constructor
  · intro h
    rw [if_pos h]
    rfl
  · intro h
    rw [if_neg (by rw [h]; decide), if_pos h]
    rfl

/-- A state that is neither is waited for until the deadline. -/
theorem awaitReady_unsettled (henv : env.Clean) (hready : m (.header .state) ≠ stateReady)
    (hbroken : m (.header .state) ≠ stateBroken) (turns n : ℕ) :
    (Prog.exec (awaitReady env turns n) m).1 = none ∨
      (Prog.exec (awaitReady env turns n) m).1 = some (.error .notReady) := by
  induction turns generalizing n with
  | zero => exact Or.inl rfl
  | succ turns ih =>
      unfold awaitReady
      by_cases hdl : env.expired n = true
      · rw [if_pos hdl]
        exact Or.inr rfl
      · rw [if_neg hdl, Prog.exec_read_bind, if_neg hready, if_neg hbroken, henv.nanosleep]
        exact ih (n + 1)

end Loops

/-! ## The call as a whole -/

section Attach

variable {env : AttachEnv} {st : Stat} {m : SegMem} {e : Expect} {turns : ℕ}
  {name : List UInt8}

/-- What the published segment must be. -/
structure Fits (m : SegMem) (size : ℕ) (e : Expect) : Prop where
  header_le : headerBytes ≤ m (.header .totalSize)
  total_le : m (.header .totalSize) ≤ size
  agrees : Agrees m e

theorem exec_attachReady (henv : env.Clean) (he : e.Counted) (size n : ℕ) :
    Prog.exec (attachReady env size n (some e)) m = (.ok, m) ∧ Fits m size e ∨
      Prog.exec (attachReady env size n (some e)) m = (.layoutMismatch, m) ∧
        ¬Fits m size e := by
  unfold attachReady
  rw [Prog.exec_read_bind, henv.fstat, henv.mmapSegment, henv.close, henv.dupName]
  simp only [orFail_none, Option.any_some, decide_eq_true_eq]
  by_cases h1 : m (.header .totalSize) < headerBytes
  · rw [if_pos h1]
    exact Or.inr ⟨rfl, fun h => absurd h.header_le (by omega)⟩
  · rw [if_neg h1]
    by_cases h2 : size < m (.header .totalSize)
    · rw [if_pos h2]
      exact Or.inr ⟨rfl, fun h => absurd h.total_le (by omega)⟩
    · rw [if_neg h2]
      by_cases h3 : m (.header .totalSize) ≠ e.totalSize
      · rw [if_pos h3]
        exact Or.inr ⟨rfl, fun h => h3 h.agrees.header.totalSize⟩
      · rw [if_neg h3, Prog.exec_bind]
        rcases exec_compareExpect m he with ⟨hx, ha⟩ | ⟨hx, ha⟩
        · rw [hx]
          exact Or.inl ⟨rfl, by omega, by omega, ha⟩
        · rw [hx]
          exact Or.inr ⟨rfl, fun h => ha h.agrees⟩

/-- A failed system call reads nothing more. -/
theorem mem_reads_orFail {α : Type} {err : Option Rc} {fail : Rc → SegProg α} {k : SegProg α}
    {c : Cell} (hfail : ∀ rc, Prog.reads (fail rc) m = [])
    (hc : c ∈ Prog.reads (orFail err fail k) m) : c ∈ Prog.reads k m := by
  cases err with
  | none => exact hc
  | some rc =>
      rw [orFail, hfail rc] at hc
      simp at hc

/-- The directory is read only in a segment that has it. -/
theorem reads_attachReady {size n : ℕ} {c : Cell}
    (hc : c ∈ Prog.reads (attachReady env size n (some e)) m) :
    (∃ f, c = .header f) ∨ ∃ j f, c = .dir j f ∧ j < e.slotCount ∧
      m (.header .totalSize) = e.totalSize ∧ e.totalSize ≤ size := by
  have hpure : ∀ rc : Rc, Prog.reads (pure rc : SegProg Rc) m = [] := fun _ => rfl
  unfold attachReady at hc
  rw [Prog.reads_read_bind] at hc
  rcases List.mem_cons.mp hc with rfl | hc
  · exact Or.inl ⟨_, rfl⟩
  · simp only [Option.any_some, decide_eq_true_eq] at hc
    by_cases h1 : m (.header .totalSize) < headerBytes
    · rw [if_pos h1] at hc
      simp at hc
    · rw [if_neg h1] at hc
      replace hc := mem_reads_orFail hpure hc
      by_cases h2 : size < m (.header .totalSize)
      · rw [if_pos h2] at hc
        simp at hc
      · rw [if_neg h2] at hc
        by_cases h3 : m (.header .totalSize) ≠ e.totalSize
        · rw [if_pos h3] at hc
          simp at hc
        · rw [if_neg h3] at hc
          replace hc := mem_reads_orFail hpure (mem_reads_orFail hpure hc)
          rw [Prog.reads_bind, List.mem_append] at hc
          push Not at h3
          rcases hc with hc | hc
          · rcases reads_compareExpect hc with h | ⟨j, f, rfl, hj⟩
            · exact Or.inl h
            · exact Or.inr ⟨j, f, rfl, hj, h3, by omega⟩
          · split_ifs at hc
            · simp at hc
            · have := mem_reads_orFail (fun _ => rfl) hc
              simp at this

/-- What the callers of `posixipc_shm_attach` expect: a built layout, or a raw segment. -/
inductive Built (p : Platform) : Expect → Prop
  | layout {slots out : List Slot} {e : Expect} : slots.length ≤ 0xffff →
      (∀ s ∈ slots, s.Short) → posixipcLayoutBuild p slots = (out, .ok e) → Built p e
  | raw {payload : ℕ} : payload ≤ uint32Max - headerBytes → Built p (rawExpect p payload)

/-- The directory of an expectation has its records, and they are part of the segment. -/
theorem Built.counted {p : Platform} (h : Built p e) :
    e.Counted ∧ headerBytes + sizeofSlot * e.slotCount ≤ e.totalSize := by
  cases h with
  | layout hn hshort hb =>
      obtain ⟨hloop, he⟩ := posixipcLayoutBuild_ok hn hb
      have hlen := congrArg List.length (buildSlots_map (fun s => s.kind) (fun _ _ => rfl) hloop)
      rw [List.length_map, List.length_map] at hlen
      obtain ⟨hpack, -⟩ := packed_buildSlots hshort (by unfold headerBytes uint32Max; omega) hloop
      rw [he]
      exact ⟨hlen.symm, hpack.le⟩
  | raw hp =>
      refine ⟨rfl, ?_⟩
      show headerBytes + sizeofSlot * 0 ≤ u32 (headerBytes + _)
      rw [u32_of_le (by unfold headerBytes uint32Max at *; omega)]
      omega

/-- **The expected segment**: published, complete, with the header and the directory of `e`. -/
structure Accepts (m : SegMem) (size : ℕ) (e : Expect) : Prop where
  ready : m (.header .state) = stateReady
  total_le : m (.header .totalSize) ≤ size
  agrees : Agrees m e

/-- A call that nothing disturbs: no system call fails, the file may be used, and the deadline
has not passed at the two checks made before a settled state is seen. -/
structure Undisturbed (env : AttachEnv) (turns : ℕ) (name : List UInt8) (st : Stat) : Prop where
  clean : env.Clean
  name : posixipcShmValidateName name = .ok
  permitted : posixipcShmStatPermitted env st = true
  first : env.expired 0 = false
  second : env.expired 1 = false
  turns_pos : 0 < turns

/-- The result of a call, and the cells it reads. -/
def attachResult (env : AttachEnv) (turns : ℕ) (name : List UInt8) (st : Stat) (m : SegMem)
    (expect : Option Expect) : Option Rc :=
  (Prog.exec (posixipcShmAttach env turns name st expect) m).1

def attachReads (env : AttachEnv) (turns : ℕ) (name : List UInt8) (st : Stat) (m : SegMem)
    (expect : Option Expect) : List Cell :=
  Prog.reads (posixipcShmAttach env turns name st expect) m

/-- What the two loops leave of the call on a file that has room for a header. -/
theorem posixipcShmAttach_long (h : Undisturbed env turns name st) (hsize : headerBytes ≤ st.size)
    (expect : Option Expect) :
    posixipcShmAttach env turns name st expect = (do
      let ready ← awaitReady env turns 1
      match ready with
      | none => pure none
      | some (.error rc) => pure (some rc)
      | some (.ok n) => do
        let rc ← attachReady env st.size n expect
        pure (some rc)) := by
  obtain ⟨turns, rfl⟩ := Nat.exists_eq_succ_of_ne_zero h.turns_pos.ne'
  rw [posixipcShmAttach, if_neg (not_not.mpr h.name), h.clean.shmOpen, orFail_none,
    awaitSize_long h.clean h.permitted hsize h.first, h.clean.mmapWindow]
  rfl

/-- On a shorter file the call waits for its deadline and reads nothing. -/
theorem posixipcShmAttach_short (henv : env.Clean)
    (hname : posixipcShmValidateName name = .ok)
    (hperm : posixipcShmStatPermitted env st = true) (hsize : st.size < headerBytes)
    (turns : ℕ) (expect : Option Expect) :
    posixipcShmAttach env turns name st expect = pure none ∨
      posixipcShmAttach env turns name st expect = pure (some .notReady) := by
  rw [posixipcShmAttach, if_neg (not_not.mpr hname), henv.shmOpen, orFail_none]
  rcases awaitSize_short henv hperm hsize turns 0 with h | h
  · exact Or.inl (by rw [h])
  · exact Or.inr (by rw [h])

/-- What a call says about a segment, and what it reads of it. -/
structure AttachLaw (m : SegMem) (size : ℕ) (e : Expect) (result : Option Rc)
    (reads : List Cell) : Prop where
  ok_iff : result = some .ok ↔ Accepts m size e
  broken : headerBytes ≤ size → m (.header .state) = stateBroken → result = some .broken
  mismatch : headerBytes ≤ size → m (.header .state) = stateReady → ¬Accepts m size e →
    result = some .layoutMismatch
  /-- A file that is too short for a header is waited for. -/
  short : size < headerBytes → (result = none ∨ result = some .notReady) ∧ reads = []
  within : ∀ c ∈ reads, c.Within (min size (max headerBytes (m (.header .totalSize)))) ∧
    c.Within (min size e.totalSize)

theorem attachResult_ready (h : Undisturbed env turns name st) (hsize : headerBytes ≤ st.size)
    (hstate : m (.header .state) = stateReady) (expect : Option Expect) :
    attachResult env turns name st m expect =
      some (Prog.exec (attachReady env st.size 2 expect) m).1 := by
  obtain ⟨turns, rfl⟩ := Nat.exists_eq_succ_of_ne_zero h.turns_pos.ne'
  rw [attachResult, posixipcShmAttach_long h hsize, Prog.exec_bind,
    (awaitReady_settled h.second).1 hstate, (awaitReady_quiet env _ _ _).1]
  simp only [Prog.exec_bind, Prog.exec_pure]

theorem attachResult_broken (h : Undisturbed env turns name st) (hsize : headerBytes ≤ st.size)
    (hstate : m (.header .state) = stateBroken) (expect : Option Expect) :
    attachResult env turns name st m expect = some .broken := by
  obtain ⟨turns, rfl⟩ := Nat.exists_eq_succ_of_ne_zero h.turns_pos.ne'
  rw [attachResult, posixipcShmAttach_long h hsize, Prog.exec_bind,
    (awaitReady_settled h.second).2 hstate]
  rfl

theorem attachResult_unsettled (h : Undisturbed env turns name st)
    (hsize : headerBytes ≤ st.size) (hready : m (.header .state) ≠ stateReady)
    (hbroken : m (.header .state) ≠ stateBroken) (expect : Option Expect) :
    attachResult env turns name st m expect = none ∨
      attachResult env turns name st m expect = some .notReady := by
  rw [attachResult, posixipcShmAttach_long h hsize, Prog.exec_bind]
  rcases awaitReady_unsettled h.clean hready hbroken turns 1 with h | h
  · rw [h]
    exact Or.inl rfl
  · rw [h]
    exact Or.inr rfl

/-- A system call that fails has an error code. -/
structure AttachEnv.Honest (env : AttachEnv) : Prop where
  shmOpen : env.shmOpen ≠ some .ok
  fstat : ∀ n, env.fstat n ≠ some .ok
  nanosleep : ∀ n, env.nanosleep n ≠ some .ok
  mmapWindow : env.mmapWindow ≠ some .ok
  mmapSegment : env.mmapSegment ≠ some .ok
  close : env.close ≠ some .ok
  dupName : env.dupName ≠ some .ok

theorem AttachEnv.Clean.honest (h : env.Clean) : env.Honest where
  shmOpen := by simp [h.shmOpen]
  fstat := by simp [h.fstat]
  nanosleep := by simp [h.nanosleep]
  mmapWindow := by simp [h.mmapWindow]
  mmapSegment := by simp [h.mmapSegment]
  close := by simp [h.close]
  dupName := by simp [h.dupName]

theorem exec_orFail_ok {α : Type} {err : Option Rc} {fail : Rc → SegProg α} {k : SegProg α}
    {a : α} (hfail : ∀ rc, err = some rc → (Prog.exec (fail rc) m).1 ≠ a)
    (h : (Prog.exec (orFail err fail k) m).1 = a) : (Prog.exec k m).1 = a := by
  cases err with
  | none => exact h
  | some rc => exact absurd h (hfail rc rfl)

/-- What the rest of a successful call has found. -/
theorem attachReady_ok (henv : env.Honest) {size n : ℕ} {expect : Option Expect}
    (h : (Prog.exec (attachReady env size n expect) m).1 = .ok) :
    headerBytes ≤ m (.header .totalSize) ∧ m (.header .totalSize) ≤ size ∧
      (Prog.exec (compareExpect expect) m).1 = .ok := by
  have hcode : ∀ {err : Option Rc}, err ≠ some .ok → ∀ rc, err = some rc →
      (Prog.exec (pure rc : SegProg Rc) m).1 ≠ .ok := by
    rintro err hne rc rfl hrc
    exact hne (congrArg some hrc)
  unfold attachReady at h
  rw [Prog.exec_read_bind] at h
  by_cases h1 : m (.header .totalSize) < headerBytes
  · rw [if_pos h1] at h
    exact nomatch h
  · rw [if_neg h1] at h
    replace h := exec_orFail_ok (hcode (henv.fstat n)) h
    by_cases h2 : size < m (.header .totalSize)
    · rw [if_pos h2] at h
      exact nomatch h
    · rw [if_neg h2] at h
      split_ifs at h
      · exact nomatch h
      · replace h := exec_orFail_ok (hcode henv.close) (exec_orFail_ok (hcode henv.mmapSegment) h)
        rw [Prog.exec_bind] at h
        refine ⟨by omega, by omega, ?_⟩
        by_contra hne
        rw [if_pos hne] at h
        exact hne h

/-- The second loop ends well on a published segment only. -/
theorem awaitReady_ok {turns n n' : ℕ}
    (h : (Prog.exec (awaitReady env turns n) m).1 = some (.ok n')) :
    m (.header .state) = stateReady := by
  induction turns generalizing n with
  | zero => exact nomatch h
  | succ turns ih =>
      unfold awaitReady at h
      by_cases hdl : env.expired n = true
      · rw [if_pos hdl] at h
        exact nomatch h
      · rw [if_neg hdl, Prog.exec_read_bind] at h
        split_ifs at h with h1 h2
        · exact h1
        · exact nomatch h
        · exact ih (exec_orFail_ok (fun rc _ hrc => by simp at hrc) h)

/-- A loop that gives up has an error code. -/
theorem awaitSize_error (henv : env.Honest) {n : ℕ} {rc : Rc}
    (h : awaitSize env st turns n = some (.error rc)) : rc ≠ .ok := by
  rintro rfl
  induction turns generalizing n with
  | zero => exact nomatch h
  | succ turns ih =>
      unfold awaitSize at h
      by_cases hdl : env.expired n = true
      · rw [if_pos hdl] at h
        exact nomatch h
      · rw [if_neg hdl] at h
        rcases hf : env.fstat n with _ | rc
        · rw [hf, orFail_none] at h
          split_ifs at h
          · exact nomatch h
          · exact nomatch h
          · rcases hn : env.nanosleep n with _ | rc
            · rw [hn, orFail_none] at h
              exact ih h
            · rw [hn] at h
              obtain rfl : rc = .ok := by simpa [orFail] using h
              exact henv.nanosleep n hn
        · rw [hf] at h
          obtain rfl : rc = .ok := by simpa [orFail] using h
          exact henv.fstat n hf

theorem awaitReady_error (henv : env.Honest) {n : ℕ} {rc : Rc}
    (h : (Prog.exec (awaitReady env turns n) m).1 = some (.error rc)) : rc ≠ .ok := by
  rintro rfl
  induction turns generalizing n with
  | zero => exact nomatch h
  | succ turns ih =>
      unfold awaitReady at h
      by_cases hdl : env.expired n = true
      · rw [if_pos hdl] at h
        exact nomatch h
      · rw [if_neg hdl, Prog.exec_read_bind] at h
        split_ifs at h
        · exact nomatch h
        · exact nomatch h
        · rcases hn : env.nanosleep n with _ | rc
          · rw [hn, orFail_none] at h
            exact ih h
          · rw [hn] at h
            obtain rfl : rc = .ok := by simpa [orFail] using h
            exact henv.nanosleep n hn

/-- **What a successful call has found**: a published segment that is complete and passes the
comparison. -/
theorem attachResult_ok (henv : env.Honest) {expect : Option Expect}
    (h : attachResult env turns name st m expect = some .ok) :
    m (.header .state) = stateReady ∧ headerBytes ≤ m (.header .totalSize) ∧
      m (.header .totalSize) ≤ st.size ∧ (Prog.exec (compareExpect expect) m).1 = .ok := by
  have hcode : ∀ {err : Option Rc}, err ≠ some .ok → ∀ rc, err = some rc →
      (Prog.exec (pure (some rc) : SegProg (Option Rc)) m).1 ≠ some .ok := by
    rintro err hne rc rfl hrc
    exact hne hrc
  unfold attachResult posixipcShmAttach at h
  by_cases hname : posixipcShmValidateName name ≠ .ok
  · rw [if_pos hname] at h
    exact absurd (Option.some.inj h) hname
  · rw [if_neg hname] at h
    replace h := exec_orFail_ok (hcode henv.shmOpen) h
    rcases hsize : awaitSize env st turns 0 with _ | rc | n
    · simp only [hsize] at h
      exact nomatch h
    · simp only [hsize] at h
      exact absurd (Option.some.inj h) (awaitSize_error henv hsize)
    · simp only [hsize] at h
      replace h := exec_orFail_ok (hcode henv.mmapWindow) h
      rw [Prog.exec_bind] at h
      rcases hready : (Prog.exec (awaitReady env turns n) m).1 with _ | rc | n'
      · rw [hready] at h
        exact nomatch h
      · rw [hready] at h
        exact absurd (Option.some.inj h) (awaitReady_error henv hready)
      · rw [hready, (awaitReady_quiet env m turns n).1] at h
        simp only [Prog.exec_bind, Prog.exec_pure] at h
        exact ⟨awaitReady_ok hready, attachReady_ok henv (Option.some.inj h)⟩

/-- Every cell that a call reads is inside the file and inside the expected segment. -/
theorem within_attachReads {p : Platform} (he : Built p e) (h : Undisturbed env turns name st)
    (hsize : headerBytes ≤ st.size) {c : Cell}
    (hc : c ∈ attachReads env turns name st m (some e)) :
    c.Within (min st.size (max headerBytes (m (.header .totalSize)))) ∧
      c.Within (min st.size e.totalSize) := by
  obtain ⟨-, htotal⟩ := he.counted
  have hheader : ∀ f, (Cell.header f).Within
        (min st.size (max headerBytes (m (.header .totalSize)))) ∧
      (Cell.header f).Within (min st.size e.totalSize) := fun f =>
    ⟨(within_header f).mono (by omega), (within_header f).mono (by omega)⟩
  obtain ⟨hmem, hstate⟩ := awaitReady_quiet env m turns 1
  rw [attachReads, posixipcShmAttach_long h hsize, Prog.reads_bind, hmem, List.mem_append] at hc
  rcases hc with hc | hc
  · rw [hstate c hc]
    exact hheader _
  · split at hc
    · simp at hc
    · simp at hc
    · rw [Prog.reads_bind, Prog.reads_pure, List.append_nil] at hc
      rcases reads_attachReady hc with ⟨f, rfl⟩ | ⟨j, f, rfl, hj, hsame, hle⟩
      · exact hheader f
      · -- the record is one of the expected directory, which the total size covers
        have hdir : headerBytes + sizeofSlot * (j + 1) ≤ e.totalSize := by
          have := Nat.mul_le_mul_left sizeofSlot (show j + 1 ≤ e.slotCount from hj)
          omega
        rw [hsame]
        exact ⟨(within_dir j f).mono (by omega), (within_dir j f).mono (by omega)⟩

/-- The law of a call that nothing disturbs, over the cells of a segment. -/
theorem attachLaw {p : Platform} (he : Built p e) (h : Undisturbed env turns name st)
    (m : SegMem) :
    AttachLaw m st.size e (attachResult env turns name st m (some e))
      (attachReads env turns name st m (some e)) := by
  obtain ⟨hcount, htotal⟩ := he.counted
  have hlong : Accepts m st.size e → headerBytes ≤ st.size := by
    intro h
    have := h.agrees.header.totalSize
    have := h.total_le
    omega
  by_cases hsize : headerBytes ≤ st.size
  · have hwithin : ∀ c ∈ attachReads env turns name st m (some e), _ := fun c hc =>
      within_attachReads he h hsize hc
    by_cases hready : m (.header .state) = stateReady
    · have hres := attachResult_ready h hsize hready (some e)
      have hbroken : m (.header .state) ≠ stateBroken := by
        rw [hready]
        decide
      rcases exec_attachReady (m := m) h.clean hcount st.size 2 with ⟨hx, hfit⟩ | ⟨hx, hfit⟩
      · have hacc : Accepts m st.size e := ⟨hready, hfit.total_le, hfit.agrees⟩
        rw [hx] at hres
        exact ⟨iff_of_true hres hacc, fun _ h => absurd h hbroken, fun _ _ h => absurd hacc h,
          fun h => absurd h (by omega), hwithin⟩
      · have hacc : ¬Accepts m st.size e := fun h =>
          hfit ⟨by rw [h.agrees.header.totalSize]; omega, h.total_le, h.agrees⟩
        rw [hx] at hres
        exact ⟨iff_of_false (by rw [hres]; simp) hacc, fun _ h => absurd h hbroken,
          fun _ _ _ => hres, fun h => absurd h (by omega), hwithin⟩
    · have hacc : ¬Accepts m st.size e := fun h => hready h.ready
      by_cases hbroken : m (.header .state) = stateBroken
      · have hres := attachResult_broken h hsize hbroken (some e)
        exact ⟨iff_of_false (by rw [hres]; simp) hacc, fun _ _ => hres,
          fun _ h => absurd h hready, fun h => absurd h (by omega), hwithin⟩
      · have hres := attachResult_unsettled h hsize hready hbroken (some e)
        have hne : attachResult env turns name st m (some e) ≠ some .ok := by
          rcases hres with h | h <;> rw [h] <;> simp
        exact ⟨iff_of_false hne hacc, fun _ h => absurd h hbroken, fun _ h => absurd h hready,
          fun h => absurd h (by omega), hwithin⟩
  · have hprog := posixipcShmAttach_short h.clean h.name h.permitted (by omega) turns (some e)
    have hres : attachResult env turns name st m (some e) = none ∨
        attachResult env turns name st m (some e) = some .notReady := by
      unfold attachResult
      rcases hprog with h | h <;> rw [h] <;> simp
    have hreads : attachReads env turns name st m (some e) = [] := by
      unfold attachReads
      rcases hprog with h | h <;> rw [h] <;> rfl
    have hne : attachResult env turns name st m (some e) ≠ some .ok := by
      rcases hres with h | h <;> rw [h] <;> simp
    exact ⟨iff_of_false hne fun h => hsize (hlong h), fun h => absurd h hsize,
      fun h => absurd h hsize, fun _ => ⟨hres, hreads⟩, by simp [hreads]⟩

/-- **Attach accepts exactly the expected segment**: for every expectation of the callers and
every content and size of a file that does not change during an undisturbed call. -/
theorem posixipcShmAttach_exact {p : Platform} {file : ShmFile} (he : Built p e)
    (h : Undisturbed env turns name file.stat) :
    AttachLaw (cellsOf file.bytes) file.bytes.length e
      (attachResult env turns name file.stat (cellsOf file.bytes) (some e))
      (attachReads env turns name file.stat (cellsOf file.bytes) (some e)) :=
  attachLaw he h (cellsOf file.bytes)

end Attach

/-! ## Files -/

/-- Nothing fails and no deadline passes. -/
def calmEnv : AttachEnv where
  euid := 1000
  expired := fun _ => false
  shmOpen := none
  fstat := fun _ => none
  nanosleep := fun _ => none
  mmapWindow := none
  mmapSegment := none
  close := none
  dupName := none

theorem calmEnv_clean : calmEnv.Clean := ⟨rfl, fun _ => rfl, fun _ => rfl, rfl, rfl, rfl, rfl⟩

/-- The name `/q`. -/
def queueName : List UInt8 := [47, 113]

/-- A file of the caller's own. -/
def ownFile (bytes : List UInt8) : ShmFile := ⟨1000, 384, bytes⟩

/-- What a layout of one mutex expects. -/
def oneMutex : Expect where
  layoutVersion := 1
  slotCount := 1
  abiTag := 25489805
  flags := 0
  totalSize := 144
  directoryBytes := 16
  layoutDigest := 4021982773
  slots := some [⟨kindMutex, 8, 80, 64, 2⟩]

theorem built_oneMutex : Built glibcX86 oneMutex := by
  have hbuild : posixipcLayoutBuild glibcX86 [⟨kindMutex, 0, 0, 0, 2⟩]
      = ([⟨kindMutex, 8, 80, 64, 2⟩], .ok oneMutex) := by decide +kernel
  exact Built.layout (by decide) (by simp [Slot.Short]) hbuild

/-- Its segment. -/
def oneMutexFile : ShmFile :=
  ownFile ([80, 73, 80, 67, 1, 0, 1, 0, 141, 241, 132, 1, 0, 0, 0, 0, 144, 0, 0, 0, 16, 0, 0, 0,
    2, 0, 0, 0, 53, 150, 186, 239] ++ List.replicate 32 0 ++
    [2, 0, 8, 0, 80, 0, 0, 0, 64, 0, 0, 0, 2, 0, 0, 0] ++ List.replicate 64 0)

theorem posixipcShmAttach_exact_mutex :
    AttachLaw (cellsOf oneMutexFile.bytes) oneMutexFile.bytes.length oneMutex
      (attachResult calmEnv 1 queueName oneMutexFile.stat (cellsOf oneMutexFile.bytes)
        (some oneMutex))
      (attachReads calmEnv 1 queueName oneMutexFile.stat (cellsOf oneMutexFile.bytes)
        (some oneMutex)) ∧
    attachResult calmEnv 1 queueName oneMutexFile.stat (cellsOf oneMutexFile.bytes)
      (some oneMutex) = some .ok :=
  ⟨posixipcShmAttach_exact built_oneMutex
    ⟨calmEnv_clean, by decide, by decide, rfl, rfl, by decide⟩, by decide +kernel⟩

/-- A published header that is cut off after its state. -/
def shortFile : ShmFile := ownFile (List.replicate 24 0 ++ [2, 0, 0, 0])

/-- A published header whose total size is `0`. -/
def hollowFile : ShmFile := ownFile (List.replicate 24 0 ++ [2, 0, 0, 0] ++ List.replicate 36 0)

/-- A short published file is never reported as a mismatch, and of a header that gives a total
size of `0` the state is read all the same. -/
theorem attach_waits_on_short_and_reads_hollow :
    Built glibcX86 oneMutex ∧
    ((∀ turns, 0 < turns → Undisturbed calmEnv turns queueName shortFile.stat) ∧
      cellsOf shortFile.bytes (.header .state) = stateReady ∧
      ¬Accepts (cellsOf shortFile.bytes) shortFile.bytes.length oneMutex ∧
      ∀ turns, attachResult calmEnv turns queueName shortFile.stat (cellsOf shortFile.bytes)
        (some oneMutex) ≠ some .layoutMismatch) ∧
    (Undisturbed calmEnv 1 queueName hollowFile.stat ∧
      ∃ c ∈ attachReads calmEnv 1 queueName hollowFile.stat (cellsOf hollowFile.bytes)
          (some oneMutex),
        ¬c.Within (min hollowFile.bytes.length
          (cellsOf hollowFile.bytes (.header .totalSize)))) := by
  have hname : posixipcShmValidateName queueName = .ok := by decide
  have hperm : posixipcShmStatPermitted calmEnv shortFile.stat = true := by decide
  refine ⟨built_oneMutex, ⟨fun turns ht => ⟨calmEnv_clean, hname, hperm, rfl, rfl, ht⟩,
    by decide +kernel, ?_, ?_⟩,
    ⟨calmEnv_clean, hname, by decide, rfl, rfl, by decide⟩, .header .state, ?_, ?_⟩
  · intro h
    exact absurd h.agrees.magic (by decide +kernel)
  · intro turns
    unfold attachResult
    rcases posixipcShmAttach_short calmEnv_clean hname hperm (by decide) turns (some oneMutex)
      with h | h <;> rw [h] <;> simp
  · decide +kernel
  · decide +kernel

end PosixIpc
