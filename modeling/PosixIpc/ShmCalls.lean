/-
# The system calls of a segment (`posixipc_shm_create`, `posixipc_shm_attach`)

The two functions with every system call that they make: which descriptor they close, what they
unmap and with which length, when they remove the name.  The system answers as it likes, call
after call, and the words of the segment may change between two loads.

* `SysCall`, `Reply` : the calls and their answers, with the sentinel values of C: a descriptor
  below `0`, `MAP_FAILED`, a `NULL` pointer;
* `Holdings`, `SysCall.effect` : what a caller holds, and what each call does to it.  A
  descriptor that is closed and a range that is unmapped must be held, with that length, and only
  the name that the caller has made may be removed;
* `segment_calls_release` : after an error nothing is held, after a success one mapping.
-/
import PosixIpc.CallTree
import PosixIpc.Deadline
import PosixIpc.ShmAttach

namespace PosixIpc

open CallTree CallTree.Tree StoreProg

namespace ShmCalls

/-! ## Calls -/

/-- The calls of the two functions; loads and stores go to the mapping at an address. -/
inductive SysCall
  | shmOpen (excl : Bool) (name : List UInt8)
  | fstat (fd : ℤ)
  | ftruncate (fd : ℤ) (length : ℕ)
  | mmap (length : ℕ) (fd : ℤ)
  | munmap (addr : ℤ) (length : ℕ)
  | close (fd : ℤ)
  | shmUnlink (name : List UInt8)
  | nanosleep (ns : ℕ)
  | clockGettime (clk : ClockId)
  | malloc (size : ℕ)
  | load (addr : ℤ) (c : Cell)
  | store (addr : ℤ) (c : Cell) (v : ℕ)

/-- An answer: the return value, `errno`, and what is stored through a pointer or loaded. -/
structure Reply where
  ret : ℤ
  errno : Rc
  stat : Stat
  now : Timespec
  val : ℕ

/-- `MAP_FAILED`. -/
def mapFailed : ℤ := -1

/-- `posixipc_shm`; `0` is `NULL`. -/
structure ShmHandle where
  map : ℤ
  mapLen : ℕ
  hdr : ℤ
  name : ℤ
  deriving DecidableEq, Repr

/-- `reset_handle`. -/
def ShmHandle.null : ShmHandle := ⟨0, 0, 0, 0⟩

abbrev Code := Tree SysCall Reply

/-- The loads and stores of a program, on the mapping at `addr`. -/
def onMap {α : Type} (addr : ℤ) : SegProg α → Code α
  | .ret a => .ret a
  | .load c k => .ask (.load addr c) fun r => onMap addr (k r.val)
  | .store c v k => .ask (.store addr c v) fun _ => onMap addr k

/-! ## The functions -/

/-- `posixipc_shm_stat_permitted`. -/
def statPermitted (euid : ℕ) (st : Stat) : Bool := st.uid == euid && st.mode &&& 63 == 0

/-- `sleep_backoff`: the code, and the next value of the counter. -/
def sleepBackoff (n : ℕ) : Code (Rc × ℕ) := do
  let ms := if n < 1 then 1 else n
  let ms := if ms > 10 then 10 else ms
  let next := if ms < 10 then ms + 1 else 10
  let r ← call (.nanosleep (ms * 1000000))
  if r.ret ≠ 0 ∧ r.errno ≠ .eintr then pure (r.errno, next) else pure (.ok, next)

/-- `posixipc_deadline_expired`. -/
def deadlineExpired : Option Deadline → Code Bool
  | none => pure false
  | some d => do
    let r ← call (.clockGettime d.clk)
    pure (posixipcDeadlineExpired d (if r.ret ≠ 0 then none else some r.now))

/-- `dup_name`, with the pointer to the copy. -/
def dupName (name : List UInt8) : Code (Except Rc ℤ) := do
  let r ← call (.malloc (name.length + 1))
  if r.ret = 0 then pure (.error .enomem) else pure (.ok r.ret)

/-- The label `fail` of `posixipc_shm_create`. -/
def createFail (name : List UInt8) (e : Expect) (fd map : ℤ) (rc : Rc) :
    Code (Rc × Option ShmHandle) := do
  if fd ≥ 0 then
    let _ ← call (.close fd)
  if map ≠ mapFailed then
    let _ ← call (.munmap map e.totalSize)
  let _ ← call (.shmUnlink name)
  pure (rc, some .null)

/-- `posixipc_shm_create` after the descriptor was closed. -/
def createMapped (name : List UInt8) (e : Expect) (map : ℤ) : Code (Rc × Option ShmHandle) := do
  let rc ← onMap map (shmCreateStores e)
  if rc ≠ .ok then createFail name e (-1) map rc
  else
    match ← dupName name with
    | .error rc => createFail name e (-1) map rc
    | .ok copy => pure (.ok, some ⟨map, e.totalSize, map, copy⟩)

/-- `posixipc_shm_create` after its exclusive open. -/
def createOpened (euid : ℕ) (name : List UInt8) (e : Expect) (fd : ℤ) :
    Code (Rc × Option ShmHandle) := do
  let st ← call (.fstat fd)
  if st.ret ≠ 0 then createFail name e fd mapFailed st.errno
  else if statPermitted euid st.stat = false then createFail name e fd mapFailed .eacces
  else
    let r ← call (.ftruncate fd e.totalSize)
    if r.ret ≠ 0 then createFail name e fd mapFailed r.errno
    else
      let m ← call (.mmap e.totalSize fd)
      if m.ret = mapFailed then createFail name e fd m.ret m.errno
      else
        let r ← call (.close fd)
        if r.ret ≠ 0 then createFail name e (-1) m.ret r.errno
        else createMapped name e m.ret

/-- `posixipc_shm_create`: the code, and what `*out` is afterwards.  `none` is a `NULL` pointer. -/
def posixipcShmCreate (euid : ℕ) (name : List UInt8) (expect : Option Expect)
    (out : Option ShmHandle) : Code (Rc × Option ShmHandle) :=
  match out, expect with
  | none, _ => pure (.einval, none)
  | some out, none => pure (.einval, some out)
  | some _, some e =>
    if posixipcShmValidateName name ≠ .ok then
      pure (posixipcShmValidateName name, some .null)
    else if e.totalSize < headerBytes then pure (.einval, some .null)
    else do
      let r ← call (.shmOpen true name)
      if r.ret < 0 then pure (r.errno, some .null)
      else createOpened euid name e r.ret

/-- The label `fail` of `posixipc_shm_attach`. -/
def attachFail (fd window map : ℤ) (total : ℕ) (rc : Rc) :
    Code (Option (Rc × Option ShmHandle)) := do
  if fd ≥ 0 then
    let _ ← call (.close fd)
  if window ≠ mapFailed then
    let _ ← call (.munmap window headerBytes)
  if map ≠ mapFailed then
    let _ ← call (.munmap map (if total ≠ 0 then total else headerBytes))
  pure (some (rc, some .null))

/-- The first loop of `posixipc_shm_attach`; `none` is a loop that has used its turns. -/
def waitForSize (euid : ℕ) (deadline : Option Deadline) (fd : ℤ) :
    ℕ → ℕ → Code (Option (Except Rc Unit))
  | 0, _ => pure none
  | turns + 1, backoff => do
    if ← deadlineExpired deadline then pure (some (.error .notReady))
    else
      let st ← call (.fstat fd)
      if st.ret ≠ 0 then pure (some (.error st.errno))
      else if statPermitted euid st.stat = false then pure (some (.error .eacces))
      else if headerBytes ≤ st.stat.size then pure (some (.ok ()))
      else
        let (rc, next) ← sleepBackoff backoff
        if rc ≠ .ok then pure (some (.error rc)) else waitForSize euid deadline fd turns next

/-- The second loop. -/
def waitForState (deadline : Option Deadline) (window : ℤ) :
    ℕ → ℕ → Code (Option (Except Rc Unit))
  | 0, _ => pure none
  | turns + 1, backoff => do
    if ← deadlineExpired deadline then pure (some (.error .notReady))
    else
      let state ← call (.load window (.header .state))
      if state.val = stateReady then pure (some (.ok ()))
      else if state.val = stateBroken then pure (some (.error .broken))
      else
        let (rc, next) ← sleepBackoff backoff
        if rc ≠ .ok then pure (some (.error rc)) else waitForState deadline window turns next

/-- `posixipc_shm_attach` after the whole segment was mapped. -/
def attachMapped (name : List UInt8) (expect : Option Expect) (map : ℤ) (total : ℕ) :
    Code (Option (Rc × Option ShmHandle)) := do
  let rc ← onMap map (compareExpect expect)
  if rc ≠ .ok then attachFail (-1) mapFailed map total rc
  else
    match ← dupName name with
    | .error rc => attachFail (-1) mapFailed map total rc
    | .ok copy => pure (some (.ok, some ⟨map, total, map, copy⟩))

/-- `posixipc_shm_attach` on a segment that is ready, with the window to its header. -/
def attachWindow (name : List UInt8) (expect : Option Expect) (fd window : ℤ) :
    Code (Option (Rc × Option ShmHandle)) := do
  let r ← call (.load window (.header .totalSize))
  let total := r.val
  if total < headerBytes then attachFail fd window mapFailed total .layoutMismatch
  else
    let st ← call (.fstat fd)
    if st.ret ≠ 0 then attachFail fd window mapFailed total st.errno
    else if st.stat.size < total then attachFail fd window mapFailed total .layoutMismatch
    else if expect.any fun e => total ≠ e.totalSize then
      attachFail fd window mapFailed total .layoutMismatch
    else
      let _ ← call (.munmap window headerBytes)
      let m ← call (.mmap total fd)
      if m.ret = mapFailed then attachFail fd mapFailed m.ret total m.errno
      else
        let r ← call (.close fd)
        if r.ret ≠ 0 then attachFail (-1) mapFailed m.ret total r.errno
        else attachMapped name expect m.ret total

/-- `posixipc_shm_attach` after its open. -/
def attachOpened (euid turns : ℕ) (name : List UInt8) (expect : Option Expect)
    (deadline : Option Deadline) (fd : ℤ) : Code (Option (Rc × Option ShmHandle)) := do
  match ← waitForSize euid deadline fd turns 1 with
  | none => pure none
  | some (.error rc) => attachFail fd mapFailed mapFailed 0 rc
  | some (.ok ()) =>
    let w ← call (.mmap headerBytes fd)
    if w.ret = mapFailed then attachFail fd w.ret mapFailed 0 w.errno
    else
      match ← waitForState deadline w.ret turns 1 with
      | none => pure none
      | some (.error rc) => attachFail fd w.ret mapFailed 0 rc
      | some (.ok ()) => attachWindow name expect fd w.ret

/-- `posixipc_shm_attach`; `none` is a call that still waits after `turns` turns of a loop. -/
def posixipcShmAttach (euid turns : ℕ) (name : List UInt8) (expect : Option Expect)
    (deadline : Option Deadline) (out : Option ShmHandle) :
    Code (Option (Rc × Option ShmHandle)) :=
  match out with
  | none => pure (some (.einval, none))
  | some _ =>
    if posixipcShmValidateName name ≠ .ok then
      pure (some (posixipcShmValidateName name, some .null))
    else do
      let r ← call (.shmOpen false name)
      if r.ret < 0 then pure (some (r.errno, some .null))
      else attachOpened euid turns name expect deadline r.ret

/-! ## What a caller holds -/

/-- Descriptors, mappings with their lengths, copies of the name, the name that the caller has made,
and the first total size that it has read. -/
structure Holdings where
  fds : List ℤ
  maps : List (ℤ × ℕ)
  copies : List ℤ
  named : Option (List UInt8)
  total : Option ℕ
  deriving DecidableEq, Repr

/-- Nothing is held. -/
def Holdings.none : Holdings := ⟨[], [], [], .none, .none⟩

/-- A mapping at the address. -/
def Holdings.Maps (h : Holdings) (addr : ℤ) : Prop := ∃ x ∈ h.maps, x.1 = addr

instance (h : Holdings) (addr : ℤ) : Decidable (h.Maps addr) :=
  inferInstanceAs (Decidable (∃ x ∈ h.maps, x.1 = addr))

/-- **What a call does to the holdings**; `none` is a call that must not be made. -/
def SysCall.effect (h : Holdings) (q : SysCall) (r : Reply) : Option Holdings :=
  match q with
  | .shmOpen excl name =>
    if r.ret < 0 then some h
    else some { h with fds := r.ret :: h.fds, named := if excl then some name else h.named }
  | .fstat fd => if fd ∈ h.fds then some h else Option.none
  | .ftruncate fd _ => if fd ∈ h.fds then some h else Option.none
  | .mmap length fd =>
    if fd ∈ h.fds then
      if r.ret = mapFailed then some h else some { h with maps := (r.ret, length) :: h.maps }
    else Option.none
  | .munmap addr length =>
    if (addr, length) ∈ h.maps then some { h with maps := h.maps.erase (addr, length) }
    else Option.none
  -- a `close` that fails has released the descriptor
  | .close fd => if fd ∈ h.fds then some { h with fds := h.fds.erase fd } else Option.none
  | .shmUnlink name =>
    if h.named = some name then some { h with named := Option.none } else Option.none
  | .malloc _ => if r.ret = 0 then some h else some { h with copies := r.ret :: h.copies }
  | .load addr c =>
    if h.Maps addr then
      if c = .header .totalSize ∧ h.total = Option.none then some { h with total := some r.val }
      else some h
    else Option.none
  | .store addr _ _ => if h.Maps addr then some h else Option.none
  | .nanosleep _ => some h
  | .clockGettime _ => some h

/-- The answers: a call that fails sets `errno`, and the clean-up calls succeed. -/
def SysCall.Answers (q : SysCall) (r : Reply) : Prop :=
  match q with
  | .shmOpen _ _ => r.ret < 0 → r.errno ≠ .ok
  | .mmap _ _ => r.ret = mapFailed → r.errno ≠ .ok
  | .munmap _ _ => r.ret = 0
  | .shmUnlink _ => r.ret = 0
  | .malloc _ => True
  | .load _ _ => True
  | .store _ _ _ => True
  | _ => r.ret ≠ 0 → r.errno ≠ .ok

/-! ## The sentinels -/

/-- The code is right from `h` on: whatever the system answers, no call is made that must not be
made, and the result meets `post`. -/
abbrev Safe {α : Type} (t : Code α) (post : α → Holdings → Prop) (h : Holdings) : Prop :=
  Wp SysCall.Answers SysCall.effect t post h

/-- **The invariant of the two functions**: the values of `fd`, `window` and `map` say what is
held. -/
structure Sentinels (fd window map : ℤ) (total : ℕ) (named : Option (List UInt8))
    (h : Holdings) : Prop where
  fds : h.fds = if fd ≥ 0 then [fd] else []
  maps : h.maps = (if window ≠ mapFailed then [(window, headerBytes)] else []) ++
    if map ≠ mapFailed then [(map, total)] else []
  copies : h.copies = []
  named : h.named = named

/-- Nothing is held any more. -/
structure Holdings.Released (h : Holdings) : Prop where
  fds : h.fds = []
  maps : h.maps = []
  copies : h.copies = []
  named : h.named = Option.none

/-- One mapping, one copy of the name, and the handle that knows them. -/
structure Holdings.Keeps (h : Holdings) (total : ℕ) (named : Option (List UInt8))
    (out : ShmHandle) : Prop where
  fds : h.fds = []
  maps : h.maps = [(out.map, total)]
  copies : h.copies = [out.name]
  named : h.named = named
  handle : out = ⟨out.map, total, out.map, out.name⟩
  valid : out.map ≠ mapFailed ∧ out.name ≠ 0

section Specs

variable {fd window map : ℤ} {total : ℕ} {named : Option (List UInt8)} {h : Holdings}

theorem Sentinels.opened (hs : Sentinels fd window map total named h) (hfd : fd ≥ 0) :
    fd ∈ h.fds := by
  rw [hs.fds, if_pos hfd]
  exact List.mem_singleton_self fd

/-- Unmap the window that is there. -/
theorem Sentinels.munmapWindow {β : Type} {f : Reply → Code β} {post : β → Holdings → Prop}
    (hs : Sentinels fd window map total named h) (hw : window ≠ mapFailed)
    (hf : ∀ h', Sentinels fd mapFailed map total named h' → h'.total = h.total →
      ∀ r, Safe (f r) post h') :
    Safe (call (.munmap window headerBytes) >>= f) post h := by
  have hmem : (window, headerBytes) ∈ h.maps := by
    rw [hs.maps, if_pos hw]
    exact List.mem_cons_self
  refine (wp_call_bind _ _ _).mpr fun r _ =>
    ⟨{ h with maps := h.maps.erase (window, headerBytes) }, if_pos hmem,
      hf { h with maps := h.maps.erase (window, headerBytes) }
        ⟨hs.fds, ?_, hs.copies, hs.named⟩ rfl r⟩
  show h.maps.erase (window, headerBytes) = _
  rw [hs.maps, if_pos hw]
  simp

/-- Close the descriptor, and look at what `close` returns. -/
theorem Sentinels.closeFd {β : Type} {f : Reply → Code β} {post : β → Holdings → Prop}
    (hs : Sentinels fd window map total named h) (hfd : fd ≥ 0)
    (hf : ∀ r : Reply, (r.ret ≠ 0 → r.errno ≠ .ok) → ∀ h',
      Sentinels (-1) window map total named h' → h'.total = h.total → Safe (f r) post h') :
    Safe (call (.close fd) >>= f) post h := by
  refine (wp_call_bind _ _ _).mpr fun r hr => ?_
  refine ⟨{ h with fds := h.fds.erase fd }, if_pos (hs.opened hfd),
    hf r hr _ ⟨?_, hs.maps, hs.copies, hs.named⟩ rfl⟩
  rw [hs.fds, if_pos hfd]
  simp

/-- Close the descriptor, if it is open. -/
theorem Sentinels.close {β : Type} {f : Code β} {post : β → Holdings → Prop}
    (hs : Sentinels fd window map total named h)
    (hf : ∀ h', Sentinels (-1) window map total named h' → Safe f post h') :
    Safe (do
      if fd ≥ 0 then
        let _ ← call (.close fd)
      f) post h := by
  by_cases hfd : fd ≥ 0
  · simp only [if_pos hfd]
    exact hs.closeFd hfd fun r _ h' hs' _ => hf h' hs'
  · simp only [if_neg hfd]
    refine hf h ⟨?_, hs.maps, hs.copies, hs.named⟩
    rw [hs.fds, if_neg hfd]
    simp

/-- Unmap the window, if there is one. -/
theorem Sentinels.unmapWindow {β : Type} {f : Code β} {post : β → Holdings → Prop}
    (hs : Sentinels fd window map total named h)
    (hf : ∀ h', Sentinels fd mapFailed map total named h' → Safe f post h') :
    Safe (do
      if window ≠ mapFailed then
        let _ ← call (.munmap window headerBytes)
      f) post h := by
  by_cases hw : window ≠ mapFailed
  · simp only [if_pos hw]
    exact hs.munmapWindow hw fun h' hs' _ _ => hf h' hs'
  · simp only [if_neg hw]
    refine hf h ⟨hs.fds, ?_, hs.copies, hs.named⟩
    rw [hs.maps, if_neg hw]
    simp

/-- Unmap the segment, if it is mapped. -/
theorem Sentinels.unmap {β : Type} {f : Code β} {post : β → Holdings → Prop}
    (hs : Sentinels fd mapFailed map total named h) {length : ℕ}
    (hlen : map ≠ mapFailed → length = total)
    (hf : ∀ h', Sentinels fd mapFailed mapFailed total named h' → Safe f post h') :
    Safe (do
      if map ≠ mapFailed then
        let _ ← call (.munmap map length)
      f) post h := by
  by_cases hm : map ≠ mapFailed
  · simp only [if_pos hm]
    rw [hlen hm]
    have hmem : (map, total) ∈ h.maps := by
      rw [hs.maps, if_pos hm]
      simp
    refine (wp_call_bind _ _ _).mpr fun r _ =>
      ⟨{ h with maps := h.maps.erase (map, total) }, if_pos hmem,
        hf _ ⟨hs.fds, ?_, hs.copies, hs.named⟩⟩
    show h.maps.erase (map, total) = _
    rw [hs.maps, if_pos hm]
    simp
  · simp only [if_neg hm]
    refine hf h ⟨hs.fds, ?_, hs.copies, hs.named⟩
    rw [hs.maps, if_neg hm]
    simp

/-- How `posixipc_shm_create` ends. -/
def CreateEnd (name : List UInt8) (total : ℕ) (x : Rc × Option ShmHandle) (h : Holdings) : Prop :=
  x.1 ≠ .ok ∧ x.2 = some .null ∧ h.Released ∨
    x.1 = .ok ∧ ∃ out, x.2 = some out ∧ h.Keeps total (some name) out

/-- How `posixipc_shm_attach` ends: the mapping has the size that was read from the header. -/
def AttachEnd (expect : Option Expect) (x : Option (Rc × Option ShmHandle)) (h : Holdings) : Prop :=
  ∀ y, x = some y → y.1 ≠ .ok ∧ y.2 = some .null ∧ h.Released ∨
    y.1 = .ok ∧ ∃ out total, y.2 = some out ∧ h.Keeps total none out ∧ h.total = some total ∧
      ∀ e, expect = some e → total = e.totalSize

/-- **The label `fail` of `posixipc_shm_create` releases what is held.** -/
theorem createFail_safe {name : List UInt8} {e : Expect} {rc : Rc} (hrc : rc ≠ .ok)
    (hs : Sentinels fd mapFailed map e.totalSize (some name) h) :
    Safe (createFail name e fd map rc) (CreateEnd name e.totalSize) h := by
  unfold createFail
  refine hs.close fun h₁ h1 => ?_
  refine h1.unmap (fun _ => rfl) fun h₂ h2 => ?_
  intro r _
  refine ⟨{ h₂ with named := none }, if_pos h2.named, Or.inl ⟨hrc, rfl, ?_⟩⟩
  exact ⟨h2.fds, h2.maps, h2.copies, rfl⟩

/-- **The label `fail` of `posixipc_shm_attach` releases what is held.** -/
theorem attachFail_safe {expect : Option Expect} {rc : Rc} (hrc : rc ≠ .ok)
    (hs : Sentinels fd window map total none h) (htotal : map ≠ mapFailed → total ≠ 0) :
    Safe (attachFail fd window map total rc) (AttachEnd expect) h := by
  unfold attachFail
  refine hs.close fun h₁ h1 => ?_
  refine h1.unmapWindow fun h₂ h2 => ?_
  refine h2.unmap (fun hm => if_pos (htotal hm)) fun h₃ h3 => ?_
  intro y hy
  obtain rfl := Option.some.inj hy
  exact Or.inl ⟨hrc, rfl, h3.fds, h3.maps, h3.copies, h3.named⟩

/-- Loads and stores on a mapping leave what is held. -/
theorem onMap_safe {α : Type} (prog : SegProg α) {addr : ℤ} (hm : h.Maps addr) :
    Safe (onMap addr prog) (fun _ h' => h' = { h with total := h'.total } ∧
      ∀ n, h.total = some n → h'.total = some n) h := by
  induction prog generalizing h with
  | ret a => exact ⟨rfl, fun n hn => hn⟩
  | load c k ih =>
    intro r _
    by_cases hc : c = .header .totalSize ∧ h.total = Option.none
    · refine ⟨{ h with total := some r.val }, ?_, ?_⟩
      · show (if h.Maps addr then _ else _) = _
        rw [if_pos hm, if_pos hc]
      · have hm' : ({ h with total := some r.val } : Holdings).Maps addr := hm
        refine (ih r.val hm').mono ?_
        rintro a h' ⟨heq, -⟩
        refine ⟨heq, fun n hn => ?_⟩
        rw [hc.2] at hn
        cases hn
    · refine ⟨h, ?_, ih r.val hm⟩
      show (if h.Maps addr then _ else _) = _
      rw [if_pos hm, if_neg hc]
  | store c v k ih =>
    intro r _
    exact ⟨h, if_pos hm, ih hm⟩

/-- What was only read does not show in the sentinels. -/
theorem Sentinels.read (hs : Sentinels fd window map total named h) {h' : Holdings}
    (heq : h' = { h with total := h'.total }) : Sentinels fd window map total named h' := by
  rw [heq]
  exact ⟨hs.fds, hs.maps, hs.copies, hs.named⟩

theorem Sentinels.mapped (hs : Sentinels fd window map total named h) (hm : map ≠ mapFailed) :
    h.Maps map := by
  refine ⟨(map, total), ?_, rfl⟩
  rw [hs.maps, if_pos hm]
  exact List.mem_append_right _ (List.mem_singleton_self _)

theorem Sentinels.windowMapped (hs : Sentinels fd window map total named h)
    (hw : window ≠ mapFailed) : h.Maps window := by
  refine ⟨(window, headerBytes), ?_, rfl⟩
  rw [hs.maps, if_pos hw]
  exact List.mem_append_left _ (List.mem_singleton_self _)

/-- Map the segment. -/
theorem Sentinels.mmap {β : Type} {f : Reply → Code β} {post : β → Holdings → Prop}
    (hs : Sentinels fd mapFailed mapFailed total named h) (hfd : fd ≥ 0)
    (herr : ∀ m : Reply, m.errno ≠ .ok → m.ret = mapFailed → Safe (f m) post h)
    (hok : ∀ m : Reply, m.ret ≠ mapFailed → ∀ h', Sentinels fd mapFailed m.ret total named h' →
      h'.total = h.total → Safe (f m) post h') :
    Safe (call (.mmap total fd) >>= f) post h := by
  refine (wp_call_bind _ _ _).mpr fun m hm => ?_
  have heffect : SysCall.effect h (.mmap total fd) m
      = if m.ret = mapFailed then some h else some { h with maps := (m.ret, total) :: h.maps } :=
    if_pos (hs.opened hfd)
  rw [heffect]
  by_cases hret : m.ret = mapFailed
  · rw [if_pos hret]
    exact ⟨h, rfl, herr m (hm hret) hret⟩
  · rw [if_neg hret]
    refine ⟨_, rfl, hok m hret _ ⟨hs.fds, ?_, hs.copies, hs.named⟩ rfl⟩
    show (m.ret, total) :: h.maps = _
    rw [hs.maps]
    simp [hret]

/-- Map the header. -/
theorem Sentinels.mmapWindow {β : Type} {f : Reply → Code β} {post : β → Holdings → Prop}
    (hs : Sentinels fd mapFailed mapFailed total named h) (hfd : fd ≥ 0)
    (herr : ∀ m : Reply, m.errno ≠ .ok → m.ret = mapFailed → Safe (f m) post h)
    (hok : ∀ m : Reply, m.ret ≠ mapFailed → ∀ h', Sentinels fd m.ret mapFailed total named h' →
      h'.total = h.total → Safe (f m) post h') :
    Safe (call (.mmap headerBytes fd) >>= f) post h := by
  have hs' : Sentinels fd mapFailed mapFailed headerBytes named h :=
    ⟨hs.fds, hs.maps, hs.copies, hs.named⟩
  refine hs'.mmap hfd herr fun m hm h' hs₁ => hok m hm h' ⟨hs₁.fds, ?_, hs₁.copies, hs₁.named⟩
  rw [hs₁.maps]
  simp

/-- The copy of the name, at the end of both functions. -/
theorem Sentinels.dupName {β : Type} {f : Except Rc ℤ → Code β} {post : β → Holdings → Prop}
    {name : List UInt8} (hs : Sentinels (-1) mapFailed map total named h)
    (hm : map ≠ mapFailed) (herr : Safe (f (.error .enomem)) post h)
    (hok : ∀ copy h', h'.Keeps total named ⟨map, total, map, copy⟩ → h'.total = h.total →
      Safe (f (.ok copy)) post h') :
    Safe (ShmCalls.dupName name >>= f) post h := by
  have hmaps : h.maps = [(map, total)] := by
    rw [hs.maps, if_pos hm]
    simp
  have hfds : h.fds = [] := by
    rw [hs.fds]
    simp
  unfold ShmCalls.dupName
  refine (wp_bind _ _ _).mpr ((wp_call_bind _ _ _).mpr fun r _ => ?_)
  by_cases hr : r.ret = 0
  · refine ⟨h, if_pos hr, ?_⟩
    rw [if_pos hr]
    exact herr
  · refine ⟨{ h with copies := r.ret :: h.copies }, if_neg hr, ?_⟩
    rw [if_neg hr]
    refine hok r.ret _ ⟨hfds, hmaps, ?_, hs.named, rfl, hm, hr⟩ rfl
    show r.ret :: h.copies = [r.ret]
    rw [hs.copies]

/-! ## The functions -/

/-- `posixipc_shm_create` from the mapping on. -/
theorem createMapped_safe {name : List UInt8} {e : Expect} (hm : map ≠ mapFailed)
    (hs : Sentinels (-1) mapFailed map e.totalSize (some name) h) :
    Safe (createMapped name e map) (CreateEnd name e.totalSize) h := by
  unfold createMapped
  refine (wp_bind _ _ _).mpr ((onMap_safe (shmCreateStores e) (hs.mapped hm)).mono ?_)
  rintro rc h' ⟨heq, -⟩
  have hs' := hs.read heq
  by_cases hrc : rc ≠ .ok
  · rw [if_pos hrc]
    exact createFail_safe hrc hs'
  · rw [if_neg hrc]
    refine hs'.dupName hm ?_ fun copy h'' hkeeps _ => ?_
    · exact createFail_safe (by decide) hs'
    · exact Or.inr ⟨rfl, _, rfl, hkeeps⟩

/-- `posixipc_shm_create` from its exclusive open on. -/
theorem createOpened_safe {euid : ℕ} {name : List UInt8} {e : Expect} (hfd : fd ≥ 0)
    (hs : Sentinels fd mapFailed mapFailed e.totalSize (some name) h) :
    Safe (createOpened euid name e fd) (CreateEnd name e.totalSize) h := by
  unfold createOpened
  refine (wp_call_bind _ _ _).mpr fun st hst => ⟨h, if_pos (hs.opened hfd), ?_⟩
  by_cases h1 : st.ret ≠ 0
  · rw [if_pos h1]
    exact createFail_safe (hst h1) hs
  · rw [if_neg h1]
    by_cases h2 : statPermitted euid st.stat = false
    · rw [if_pos h2]
      exact createFail_safe (by decide) hs
    · rw [if_neg h2]
      refine (wp_call_bind _ _ _).mpr fun r hr => ⟨h, if_pos (hs.opened hfd), ?_⟩
      by_cases h3 : r.ret ≠ 0
      · rw [if_pos h3]
        exact createFail_safe (hr h3) hs
      · rw [if_neg h3]
        refine hs.mmap hfd (fun m hm hfail => ?_) fun m hne h₁ hs₁ _ => ?_
        · rw [if_pos hfail, hfail]
          exact createFail_safe hm hs
        · rw [if_neg hne]
          refine hs₁.closeFd hfd fun r hr h₂ hs₂ _ => ?_
          by_cases h5 : r.ret ≠ 0
          · rw [if_pos h5]
            exact createFail_safe (hr h5) hs₂
          · rw [if_neg h5]
            exact createMapped_safe hne hs₂

/-- **`posixipc_shm_create`.** -/
theorem posixipcShmCreate_safe (euid : ℕ) (name : List UInt8) (e : Expect) (out : ShmHandle) :
    Safe (posixipcShmCreate euid name (some e) (some out)) (CreateEnd name e.totalSize)
      Holdings.none := by
  unfold posixipcShmCreate
  simp only
  by_cases h1 : posixipcShmValidateName name ≠ .ok
  · rw [if_pos h1]
    exact Or.inl ⟨h1, rfl, rfl, rfl, rfl, rfl⟩
  · rw [if_neg h1]
    by_cases h2 : e.totalSize < headerBytes
    · rw [if_pos h2]
      exact Or.inl ⟨by decide, rfl, rfl, rfl, rfl, rfl⟩
    · rw [if_neg h2]
      refine (wp_call_bind _ _ _).mpr fun r hr => ?_
      by_cases h3 : r.ret < 0
      · refine ⟨Holdings.none, if_pos h3, ?_⟩
        rw [if_pos h3]
        exact Or.inl ⟨hr h3, rfl, rfl, rfl, rfl, rfl⟩
      · refine ⟨⟨[r.ret], [], [], some name, none⟩, if_neg h3, ?_⟩
        rw [if_neg h3]
        refine createOpened_safe (by omega) ⟨?_, ?_, rfl, rfl⟩
        · rw [if_pos (by omega)]
        · simp

theorem deadlineExpired_safe (d : Option Deadline) :
    Safe (deadlineExpired d) (fun _ h' => h' = h) h := by
  cases d with
  | none => rfl
  | some d => exact (wp_call_bind _ _ _).mpr fun r _ => ⟨h, rfl, rfl⟩

theorem sleepBackoff_safe (n : ℕ) : Safe (sleepBackoff n) (fun _ h' => h' = h) h := by
  unfold sleepBackoff
  refine (wp_call_bind _ _ _).mpr fun r _ => ⟨h, rfl, ?_⟩
  split_ifs <;> rfl

/-- What a loop of `posixipc_shm_attach` ends with; it holds what it held. -/
def LoopEnd (h : Holdings) (x : Option (Except Rc Unit)) (h' : Holdings) : Prop :=
  h' = h ∧ ∀ rc, x = some (.error rc) → rc ≠ .ok

theorem LoopEnd.error {rc : Rc} (hrc : rc ≠ .ok) : LoopEnd h (some (.error rc)) h := by
  refine ⟨rfl, fun rc' hrc' => ?_⟩
  rw [← Except.error.inj (Option.some.inj hrc')]
  exact hrc

theorem LoopEnd.none : LoopEnd h none h := ⟨rfl, fun _ h => nomatch h⟩

theorem LoopEnd.ok : LoopEnd h (some (.ok ())) h := ⟨rfl, fun _ h => nomatch Option.some.inj h⟩

/-- The first loop, by induction on its turns. -/
theorem waitForSize_safe {euid : ℕ} {deadline : Option Deadline} (hfd : fd ∈ h.fds)
    (turns backoff : ℕ) : Safe (waitForSize euid deadline fd turns backoff) (LoopEnd h) h := by
  induction turns generalizing backoff with
  | zero => exact .none
  | succ turns ih =>
    unfold waitForSize
    refine (wp_bind _ _ _).mpr ((deadlineExpired_safe deadline).mono ?_)
    rintro expired h' rfl
    cases expired with
    | true => exact .error (by decide)
    | false =>
      refine (wp_call_bind _ _ _).mpr fun st hst => ⟨h', if_pos hfd, ?_⟩
      by_cases h1 : st.ret ≠ 0
      · rw [if_pos h1]
        exact .error (hst h1)
      · rw [if_neg h1]
        by_cases h2 : statPermitted euid st.stat = false
        · rw [if_pos h2]
          exact .error (by decide)
        · rw [if_neg h2]
          by_cases h3 : headerBytes ≤ st.stat.size
          · rw [if_pos h3]
            exact .ok
          · rw [if_neg h3]
            refine (wp_bind _ _ _).mpr ((sleepBackoff_safe backoff).mono ?_)
            rintro ⟨rc, next⟩ h'' rfl
            by_cases h4 : rc ≠ .ok
            · simp only [if_pos h4]
              exact .error h4
            · simp only [if_neg h4]
              exact ih next

/-- The second loop. -/
theorem waitForState_safe {deadline : Option Deadline} (hw : h.Maps window) (turns backoff : ℕ) :
    Safe (waitForState deadline window turns backoff) (LoopEnd h) h := by
  induction turns generalizing backoff with
  | zero => exact .none
  | succ turns ih =>
    unfold waitForState
    refine (wp_bind _ _ _).mpr ((deadlineExpired_safe deadline).mono ?_)
    rintro expired h' rfl
    cases expired with
    | true => exact .error (by decide)
    | false =>
      have heffect : ∀ st, SysCall.effect h' (.load window (.header .state)) st = some h' := by
        intro st
        show (if h'.Maps window then _ else _) = _
        rw [if_pos hw, if_neg (by simp)]
      refine (wp_call_bind _ _ _).mpr fun st _ => ⟨h', heffect st, ?_⟩
      by_cases h1 : st.val = stateReady
      · rw [if_pos h1]
        exact .ok
      · rw [if_neg h1]
        by_cases h2 : st.val = stateBroken
        · rw [if_pos h2]
          exact .error (by decide)
        · rw [if_neg h2]
          refine (wp_bind _ _ _).mpr ((sleepBackoff_safe backoff).mono ?_)
          rintro ⟨rc, next⟩ h'' rfl
          by_cases h3 : rc ≠ .ok
          · simp only [if_pos h3]
            exact .error h3
          · simp only [if_neg h3]
            exact ih next

/-- `posixipc_shm_attach` from the mapping on. -/
theorem attachMapped_safe {name : List UInt8} {expect : Option Expect} (hm : map ≠ mapFailed)
    (hs : Sentinels (-1) mapFailed map total none h) (htotal : total ≠ 0)
    (hread : h.total = some total) (hexpect : ∀ e, expect = some e → total = e.totalSize) :
    Safe (attachMapped name expect map total) (AttachEnd expect) h := by
  unfold attachMapped
  refine (wp_bind _ _ _).mpr ((onMap_safe (compareExpect expect) (hs.mapped hm)).mono ?_)
  rintro rc h' ⟨heq, hkeep⟩
  have hs' := hs.read heq
  by_cases hrc : rc ≠ .ok
  · rw [if_pos hrc]
    exact attachFail_safe hrc hs' fun _ => htotal
  · rw [if_neg hrc]
    refine hs'.dupName hm ?_ fun copy h'' hkeeps ht => ?_
    · exact attachFail_safe (by decide) hs' fun _ => htotal
    · intro y hy
      obtain rfl := Option.some.inj hy
      exact Or.inr ⟨rfl, _, total, rfl, hkeeps, ht.trans (hkeep total hread), hexpect⟩

/-- `posixipc_shm_attach` from the window on. -/
theorem attachWindow_safe {name : List UInt8} {expect : Option Expect} (hfd : fd ≥ 0)
    (hw : window ≠ mapFailed) (hs : Sentinels fd window mapFailed total none h)
    (hnone : h.total = none) :
    Safe (attachWindow name expect fd window) (AttachEnd expect) h := by
  unfold attachWindow
  have heffect : ∀ r, SysCall.effect h (.load window (.header .totalSize)) r
      = some { h with total := some r.val } := by
    intro r
    show (if h.Maps window then _ else _) = _
    rw [if_pos (hs.windowMapped hw), if_pos ⟨rfl, hnone⟩]
  refine (wp_call_bind _ _ _).mpr fun r _ => ⟨_, heffect r, ?_⟩
  -- no mapping yet, so any length will do for it
  have hs₁ : Sentinels fd window mapFailed r.val none { h with total := some r.val } :=
    ⟨hs.fds, by rw [hs.maps]; simp, hs.copies, hs.named⟩
  have hnomap : ∀ n : ℕ, mapFailed ≠ mapFailed → n ≠ 0 := fun n hne => absurd rfl hne
  simp only
  by_cases h1 : r.val < headerBytes
  · rw [if_pos h1]
    exact attachFail_safe (by decide) hs₁ (hnomap _)
  · rw [if_neg h1]
    refine (wp_call_bind _ _ _).mpr fun st hst => ⟨_, if_pos (hs₁.opened hfd), ?_⟩
    by_cases h2 : st.ret ≠ 0
    · rw [if_pos h2]
      exact attachFail_safe (hst h2) hs₁ (hnomap _)
    · rw [if_neg h2]
      by_cases h3 : st.stat.size < r.val
      · rw [if_pos h3]
        exact attachFail_safe (by decide) hs₁ (hnomap _)
      · rw [if_neg h3]
        by_cases h4 : (expect.any fun e => r.val ≠ e.totalSize) = true
        · rw [if_pos h4]
          exact attachFail_safe (by decide) hs₁ (hnomap _)
        · rw [if_neg h4]
          have hexpect : ∀ e, expect = some e → r.val = e.totalSize := by
            rintro e rfl
            simpa using h4
          have htotal : r.val ≠ 0 := by
            unfold headerBytes at h1
            omega
          refine hs₁.munmapWindow hw fun h₂ hs₂ ht₂ _ => ?_
          refine hs₂.mmap hfd (fun m hm hfail => ?_) fun m hne h₃ hs₃ ht₃ => ?_
          · rw [if_pos hfail, hfail]
            exact attachFail_safe hm hs₂ (hnomap _)
          · rw [if_neg hne]
            refine hs₃.closeFd hfd fun c hc h₄ hs₄ ht₄ => ?_
            by_cases h5 : c.ret ≠ 0
            · rw [if_pos h5]
              exact attachFail_safe (hc h5) hs₄ fun _ => htotal
            · rw [if_neg h5]
              exact attachMapped_safe hne hs₄ htotal (ht₄.trans (ht₃.trans ht₂)) hexpect

/-- `posixipc_shm_attach` from its open on. -/
theorem attachOpened_safe {euid turns : ℕ} {name : List UInt8} {expect : Option Expect}
    {deadline : Option Deadline} (hfd : fd ≥ 0)
    (hs : Sentinels fd mapFailed mapFailed 0 none h) (hnone : h.total = none) :
    Safe (attachOpened euid turns name expect deadline fd) (AttachEnd expect) h := by
  have hnomap : mapFailed ≠ mapFailed → 0 ≠ 0 := fun hne => absurd rfl hne
  unfold attachOpened
  refine (wp_bind _ _ _).mpr ((waitForSize_safe (hs.opened hfd) turns 1).mono ?_)
  rintro x h' ⟨rfl, hrc⟩
  match x with
  | none => exact fun y hy => nomatch hy
  | some (.error rc) => exact attachFail_safe (hrc rc rfl) hs hnomap
  | some (.ok ()) =>
    refine hs.mmapWindow hfd (fun w hw hfail => ?_) fun w hne h₁ hs₁ ht₁ => ?_
    · rw [if_pos hfail, hfail]
      exact attachFail_safe hw hs hnomap
    · rw [if_neg hne]
      refine (wp_bind _ _ _).mpr ((waitForState_safe (hs₁.windowMapped hne) turns 1).mono ?_)
      rintro x h'' ⟨rfl, hrc'⟩
      match x with
      | none => exact fun y hy => nomatch hy
      | some (.error rc) => exact attachFail_safe (hrc' rc rfl) hs₁ hnomap
      | some (.ok ()) => exact attachWindow_safe hfd hne hs₁ (ht₁.trans hnone)

/-- **`posixipc_shm_attach`.** -/
theorem posixipcShmAttach_safe (euid turns : ℕ) (name : List UInt8) (expect : Option Expect)
    (deadline : Option Deadline) (out : ShmHandle) :
    Safe (posixipcShmAttach euid turns name expect deadline (some out)) (AttachEnd expect)
      Holdings.none := by
  have hreleased : ∀ rc, rc ≠ Rc.ok → AttachEnd expect (some (rc, some .null)) Holdings.none := by
    intro rc hrc y hy
    obtain rfl := Option.some.inj hy
    exact Or.inl ⟨hrc, rfl, rfl, rfl, rfl, rfl⟩
  unfold posixipcShmAttach
  simp only
  by_cases h1 : posixipcShmValidateName name ≠ .ok
  · rw [if_pos h1]
    exact hreleased _ h1
  · rw [if_neg h1]
    refine (wp_call_bind _ _ _).mpr fun r hr => ?_
    by_cases h2 : r.ret < 0
    · refine ⟨Holdings.none, if_pos h2, ?_⟩
      rw [if_pos h2]
      exact hreleased _ (hr h2)
    · refine ⟨⟨[r.ret], [], [], none, none⟩, if_neg h2, ?_⟩
      rw [if_neg h2]
      refine attachOpened_safe (by omega) ⟨?_, ?_, rfl, rfl⟩ rfl
      · rw [if_pos (by omega)]
      · simp

end Specs

/-! ## The result -/

/-- **Create and attach release everything on every failure.**  Whatever the system answers and
whatever stands in the segment, no descriptor is closed and no range unmapped that is not held,
and no name removed that the call has not made.  After an error nothing is held: the descriptors
are closed, the mappings unmapped, no copy of the name is left, the name that `create` made is
removed, and `*out` is all `NULL`.  After a success one mapping is held, of the total size, which
is the one in `*out`. -/
theorem segment_calls_release :
    (∀ euid name e out₀ tr rc out,
      Run (posixipcShmCreate euid name (some e) (some out₀)) tr (rc, out) →
      Lawful SysCall.Answers tr →
      ∃ h, replay SysCall.effect Holdings.none tr = some h ∧
        (rc ≠ .ok → out = some .null ∧ h.Released) ∧
        (rc = .ok → ∃ x, out = some x ∧ h.Keeps e.totalSize (some name) x)) ∧
    (∀ euid turns name expect deadline out₀ tr rc out,
      Run (posixipcShmAttach euid turns name expect deadline (some out₀)) tr (some (rc, out)) →
      Lawful SysCall.Answers tr →
      ∃ h, replay SysCall.effect Holdings.none tr = some h ∧
        (rc ≠ .ok → out = some .null ∧ h.Released) ∧
        (rc = .ok → ∃ x total, out = some x ∧ h.Keeps total none x ∧ h.total = some total ∧
          ∀ e, expect = some e → total = e.totalSize)) := by
  constructor
  · intro euid name e out₀ tr rc out hrun hlaw
    obtain ⟨h, hreplay, hend⟩ := (posixipcShmCreate_safe euid name e out₀).run hrun hlaw
    refine ⟨h, hreplay, fun hrc => ?_, fun hrc => ?_⟩
    · rcases hend with ⟨-, hout, hrel⟩ | ⟨hok, -⟩
      · exact ⟨hout, hrel⟩
      · exact absurd hok hrc
    · rcases hend with ⟨hne, -⟩ | ⟨-, hkeeps⟩
      · exact absurd hrc hne
      · exact hkeeps
  · intro euid turns name expect deadline out₀ tr rc out hrun hlaw
    obtain ⟨h, hreplay, hend⟩ :=
      (posixipcShmAttach_safe euid turns name expect deadline out₀).run hrun hlaw
    refine ⟨h, hreplay, fun hrc => ?_, fun hrc => ?_⟩
    · rcases hend _ rfl with ⟨-, hout, hrel⟩ | ⟨hok, -⟩
      · exact ⟨hout, hrel⟩
      · exact absurd hok hrc
    · rcases hend _ rfl with ⟨hne, -⟩ | ⟨-, hkeeps⟩
      · exact absurd hrc hne
      · exact hkeeps

/-- A system whose answers are these, one after the other. -/
def answered {α : Type} : Code α → List Reply → List (SysCall × Reply) × Option α
  | .ret a, _ => ([], some a)
  | .ask _ _, [] => ([], none)
  | .ask q k, r :: rest =>
    let x := answered (k r) rest
    ((q, r) :: x.1, x.2)

theorem run_of_answered {α : Type} (t : Code α) (rs : List Reply) {a : α}
    (h : (answered t rs).2 = some a) : Run t (answered t rs).1 a := by
  induction rs generalizing t with
  | nil =>
    cases t with
    | ret b =>
      obtain rfl := Option.some.inj h
      exact .here _
    | ask q k => exact nomatch h
  | cons r rest ih =>
    cases t with
    | ret b =>
      obtain rfl := Option.some.inj h
      exact .here _
    | ask q k => exact .ask (ih (k r) h)

/-- An answer without data. -/
def Reply.plain (ret : ℤ) (errno : Rc) : Reply := ⟨ret, errno, ⟨0, 0, 0⟩, ⟨0, 0⟩, 0⟩

/-- `mmap` fails in `create`: the descriptor is 5, the file belongs to user 1000. -/
def mmapFails : List Reply :=
  [.plain 5 .ok, { Reply.plain 0 .ok with stat := ⟨1000, 0o600, 0⟩ }, .plain 0 .ok,
    .plain mapFailed .enomem, .plain 0 .ok, .plain 0 .ok]

/-- `posixipc_shm_create("/a", …)` for a segment of 128 bytes, with an old handle in `*out`. -/
def createOnFailure : Code (Rc × Option ShmHandle) :=
  posixipcShmCreate 1000 [47, 97] (some ⟨1, 0, 0, 0, 128, 0, 0, none⟩) (some ⟨4096, 64, 4096, 7⟩)

/-- It closes the descriptor and removes the name, and `*out` is `NULL`. -/
theorem segment_calls_release_mmap :
    (answered createOnFailure mmapFails).1.map Prod.fst
        = [.shmOpen true [47, 97], .fstat 5, .ftruncate 5 128, .mmap 128 5, .close 5,
          .shmUnlink [47, 97]] ∧
      (answered createOnFailure mmapFails).2 = some (.enomem, some .null) ∧
      ∃ h, replay SysCall.effect Holdings.none (answered createOnFailure mmapFails).1 = some h ∧
        h.Released := by
  have hend : (answered createOnFailure mmapFails).2 = some (.enomem, some .null) := rfl
  have htrace : (answered createOnFailure mmapFails).1
      = List.zip [.shmOpen true [47, 97], .fstat 5, .ftruncate 5 128, .mmap 128 5, .close 5,
          .shmUnlink [47, 97]] mmapFails := rfl
  have hlaw : Lawful SysCall.Answers (answered createOnFailure mmapFails).1 := by
    rw [htrace]
    intro x hx
    simp only [mmapFails, List.zip_cons_cons, List.zip_nil_left, List.mem_cons, List.not_mem_nil,
      or_false] at hx
    rcases hx with rfl | rfl | rfl | rfl | rfl | rfl <;>
      simp [SysCall.Answers, Reply.plain, mapFailed]
  obtain ⟨h, hreplay, herr, -⟩ := segment_calls_release.1 _ _ _ _ _ _ _
    (run_of_answered createOnFailure mmapFails hend) hlaw
  exact ⟨rfl, hend, h, hreplay, (herr (by decide)).2⟩

end ShmCalls

end PosixIpc
