/-
# The index of a mutex array

`MutexArray` takes an index in four places: `acquire`, `release`, `as_capsule` and `a[i]`.  A
Python integer becomes a `Py_ssize_t`, and that becomes the `uint32_t` that the range check and
the access see.  The events of a call are the lock operations it makes, each with the index
into `a->locks`.

* `arrayParseIndex`, `arrayGetitem` : the two conversions;
* `ArrayOp.run` : the calls; for `a[i]` with everything that is done to the item later;
* `IndexExact` : a call acts on the lock that its index names, or on none.

The main result is `index_exact_iff`.
-/
import PosixIpc.LayoutAdd
import PosixIpc.Deadline
import PosixIpc.TracedCall

namespace PosixIpc

open Word32 TracedCall

/-! ## Arrays and their locks -/

/-- The exceptions of an array. -/
inductive ArrayExc
  | indexError (text : String)
  | typeError (text : String)
  | runtimeError (text : String)
  | notRecoverableError (text : String)
  | closedError
  | memoryError
  /-- The exception of `on_owner_died`. -/
  | callback
  /-- From `posixipc_err`, `posixipc_parse_acquire` or `posixipc_mutex_capsule_new`. -/
  | other (e : PyError)
  deriving DecidableEq, Repr

/-- An operation on `a->locks[k]`. -/
inductive Touch
  | trylock (k : ℕ)
  | lock (k : ℕ)
  | lockUntil (k : ℕ)
  | unlock (k : ℕ)
  | consistent (k : ℕ)
  | capsule (k : ℕ)
  deriving DecidableEq, Repr

/-- The lock. -/
def Touch.index : Touch → ℕ
  | .trylock k | .lock k | .lockUntil k | .unlock k | .consistent k | .capsule k => k

/-- What changes in a `PosixIPCMutexArrayObject`: its flags, and which pointers are set. -/
structure ArrayFlags where
  closed : Bool
  bound : Bool
  locks : Bool
  region : Bool
  onOwnerDied : Bool
  deriving DecidableEq, Repr

/-- `PosixIPCMutexArrayObject`; the count is a `uint32_t`. -/
structure ArrayObj where
  flags : ArrayFlags
  count : ℕ
  count_lt : count < 2 ^ 32

/-- What the calls that an operation makes answer. -/
structure ArrayEnv where
  trylock : Rc
  /-- `posixipc_deadline_from_seconds` -/
  deadline : Rc
  /-- The slices of `posixipc_blocking_wait`. -/
  slices : ℕ
  /-- The code of the blocking lock. -/
  waited : Rc
  /-- Whether `array_item_new` gets its memory. -/
  itemAlloc : Bool
  callbackRaises : Bool
  consistent : Rc
  unlock : Rc
  /-- `posixipc_mutex_capsule_new` -/
  capsule : Option PyError

/-- The state is the `locked` flag of the item in use. -/
abbrev ArrayCall := TracedCall.Call Bool Touch ArrayExc

def indexRange : ArrayExc := .indexError "MutexArray index out of range"

/-- `posixipc_err` as the end of a call. -/
def raiseRc {α : Type} (rc : Rc) : ArrayCall α := Call.raise (.other (posixipcErr rc))

/-- `array_check_open`. -/
def arrayCheckOpen (f : ArrayFlags) : ArrayCall Unit :=
  if f.closed then Call.raise .closedError
  else if f.bound = false ∨ f.locks = false ∨ f.region = false then
    Call.raise (.runtimeError "handle is not bound; call Layout.create() or attach() first")
  else pure ()

/-- `array_item_new`: the item keeps the index. -/
def arrayItemNew (env : ArrayEnv) (index : ℕ) : ArrayCall ℕ :=
  if env.itemAlloc then pure index else Call.raise .memoryError

/-- The store to `item->locked`, if there is an item. -/
def storeLocked (item : Bool) : ArrayCall Unit :=
  if item then Call.change fun _ => true else pure ()

/-- Unlock and raise. -/
def unlockAndRaise (index : ℕ) (e : ArrayExc) : ArrayCall Bool := do
  Call.note (.unlock index)
  Call.raise e

/-- `array_after_lock`. -/
def arrayAfterLock (a : ArrayObj) (env : ArrayEnv) (index : ℕ) (rc : Rc) (item : Bool) :
    ArrayCall Bool :=
  match rc with
  | .ok => do
    storeLocked item
    pure true
  | .eownerdead =>
    if a.flags.onOwnerDied = false then
      unlockAndRaise index (.typeError
        "RobustMutex has no on_owner_died; assign it or rebuild the Layout")
    else if item = false ∧ env.itemAlloc = false then unlockAndRaise index .memoryError
    else if env.callbackRaises then unlockAndRaise index .callback
    else do
      Call.note (.consistent index)
      if env.consistent ≠ .ok then unlockAndRaise index (.other (posixipcErr env.consistent))
      else do
        storeLocked item
        pure true
  | .enotrecoverable => Call.raise (.notRecoverableError "mutex is permanently unusable")
  | .etimedout | .ebusy => pure false
  | .edeadlk => Call.raise (.runtimeError "lock already held by this thread")
  | rc => raiseRc rc

/-- The calls of `array_lock_until_cb`. -/
def lockSlices (index : ℕ) : ℕ → ArrayCall Unit
  | 0 => pure ()
  | n + 1 => do
    Call.note (.lockUntil index)
    lockSlices index n

/-- The blocking part of `array_lock_index`. -/
def arrayLockWait (a : ArrayObj) (env : ArrayEnv) (index : ℕ) (opts : AcquireOpts)
    (item : Bool) : ArrayCall Bool :=
  if opts.noWait then pure false
  else if opts.timeoutNone = false ∧ env.deadline ≠ .ok then raiseRc env.deadline
  else if opts.interruptible = false ∧ opts.timeoutNone then do
    Call.note (.lock index)
    arrayAfterLock a env index env.waited item
  else do
    lockSlices index env.slices
    arrayAfterLock a env index env.waited item

/-- `array_lock_index`. -/
def arrayLockIndex (a : ArrayObj) (env : ArrayEnv) (index : ℕ) (opts : AcquireOpts)
    (item : Bool) : ArrayCall Bool := do
  arrayCheckOpen a.flags
  if index ≥ a.count then Call.raise indexRange
  else do
    Call.note (.trylock index)
    if env.trylock ≠ .ebusy then arrayAfterLock a env index env.trylock item
    else arrayLockWait a env index opts item

/-- `array_release_index`. -/
def arrayReleaseIndex (a : ArrayObj) (env : ArrayEnv) (index : ℕ) : ArrayCall Unit := do
  arrayCheckOpen a.flags
  if index ≥ a.count then Call.raise indexRange
  else do
    Call.note (.unlock index)
    if env.unlock = .eperm then Call.raise (.runtimeError "release unlocked lock")
    else if env.unlock ≠ .ok then raiseRc env.unlock
    else pure ()

/-- `posixipc_mutex_capsule_new` for `a->locks[index]`. -/
def capsuleNew (env : ArrayEnv) (index : ℕ) : ArrayCall Unit := do
  Call.note (.capsule index)
  match env.capsule with
  | some e => Call.raise (.other e)
  | none => pure ()

/-! ## The four places -/

/-- `PyNumber_AsSsize_t(obj, PyExc_IndexError)`. -/
def asSsize (i : ℤ) : ArrayCall ℤ :=
  if i < -2 ^ 63 ∨ 2 ^ 63 ≤ i then
    Call.raise (.indexError "cannot fit 'int' into an index-sized integer")
  else pure i

/-- `array_parse_index`. -/
def arrayParseIndex (i : ℤ) : ArrayCall ℕ := do
  let v ← asSsize i
  if v < 0 then Call.raise indexRange else pure (u32 v.toNat)

/-- `posixipc_parse_acquire`, given what it finds in the arguments. -/
def parsedOpts : Except PyError AcquireOpts → ArrayCall AcquireOpts
  | .error e => Call.raise (.other e)
  | .ok opts => pure opts

/-- `array_acquire`. -/
def arrayAcquire (a : ArrayObj) (env : ArrayEnv) (i : ℤ) (opts : Except PyError AcquireOpts) :
    ArrayCall Bool := do
  let index ← arrayParseIndex i
  let o ← parsedOpts opts
  arrayLockIndex a env index o false

/-- `array_release`. -/
def arrayRelease (a : ArrayObj) (env : ArrayEnv) (i : ℤ) : ArrayCall Unit := do
  let index ← arrayParseIndex i
  arrayReleaseIndex a env index

/-- `array_as_capsule`. -/
def arrayAsCapsule (a : ArrayObj) (env : ArrayEnv) (i : ℤ) : ArrayCall Unit := do
  arrayCheckOpen a.flags
  let index ← arrayParseIndex i
  if index ≥ a.count then Call.raise indexRange
  else capsuleNew env index

/-- What the interpreter adds to a negative index before `sq_item`. -/
def normalize (count : ℕ) (i : ℤ) : ℤ := if i < 0 then i + count else i

/-- `array_getitem`. -/
def arrayGetitem (a : ArrayObj) (env : ArrayEnv) (i : ℤ) : ArrayCall ℕ := do
  arrayCheckOpen a.flags
  if i < 0 ∨ u32 i.toNat ≥ a.count then Call.raise indexRange
  else arrayItemNew env (u32 i.toNat)

/-- `a[i]` : `PyObject_GetItem` on a sequence. -/
def arraySubscript (a : ArrayObj) (env : ArrayEnv) (i : ℤ) : ArrayCall ℕ := do
  let v ← asSsize i
  arrayGetitem a env (normalize a.count v)

/-! ## Items -/

/-- The methods of a `MutexArrayItem`. -/
inductive ItemOp
  | acquire (opts : Except PyError AcquireOpts)
  | release
  | asCapsule
  | enter
  | exit

/-- `item_acquire`. -/
def itemAcquire (a : ArrayObj) (env : ArrayEnv) (index : ℕ)
    (opts : Except PyError AcquireOpts) : ArrayCall Bool := do
  let o ← parsedOpts opts
  arrayLockIndex a env index o true

/-- `item_release`. -/
def itemRelease (a : ArrayObj) (env : ArrayEnv) (index : ℕ) : ArrayCall Unit := do
  arrayReleaseIndex a env index
  Call.change fun _ => false

/-- `item_as_capsule`; it does not look at the count. -/
def itemAsCapsule (a : ArrayObj) (env : ArrayEnv) (index : ℕ) : ArrayCall Unit := do
  arrayCheckOpen a.flags
  capsuleNew env index

/-- `item_enter`. -/
def itemEnter (a : ArrayObj) (env : ArrayEnv) (index : ℕ) : ArrayCall Unit := do
  let ok ← itemAcquire a env index (.ok .default)
  if ok = false then Call.raise (.runtimeError "failed to acquire mutex") else pure ()

/-- `item_exit`. -/
def itemExit (a : ArrayObj) (env : ArrayEnv) (index : ℕ) : ArrayCall Unit := do
  let locked ← Call.look id
  if locked then itemRelease a env index else pure ()

/-- A method of the item of lock `index`. -/
def ItemOp.call (a : ArrayObj) (env : ArrayEnv) (index : ℕ) : ItemOp → ArrayCall Unit
  | .acquire opts => do
    let _ ← itemAcquire a env index opts
    pure ()
  | .release => itemRelease a env index
  | .asCapsule => itemAsCapsule a env index
  | .enter => itemEnter a env index
  | .exit => itemExit a env index

/-- A later use of an item, with the state of the array at that time. -/
structure ItemUse where
  flags : ArrayFlags
  env : ArrayEnv
  op : ItemOp

/-- The lock operations of the uses of an item, one after the other; an exception of one does
not keep the caller from the next. -/
def itemTouches (a : ArrayObj) (index : ℕ) : List ItemUse → Bool → List Touch
  | [], _ => []
  | u :: us, locked =>
    let f := u.op.call { a with flags := u.flags } u.env index locked
    f.trace ++ itemTouches a index us f.state

/-- The operations that take an index. -/
inductive ArrayOp
  | acquire (opts : Except PyError AcquireOpts)
  | release
  | asCapsule
  | getItem (later : List ItemUse)

/-- What an operation does: the locks it touches, and its exception. -/
structure IndexEnd where
  touches : List Touch
  error : Option ArrayExc

/-- The end of a call. -/
def indexEnd {α : Type} (f : Finish Bool Touch ArrayExc α) : IndexEnd where
  touches := f.trace
  error := match f.result with
    | .ok _ => none
    | .error e => some e

/-- The operation on index `i`. -/
def ArrayOp.run (a : ArrayObj) (env : ArrayEnv) (i : ℤ) : ArrayOp → IndexEnd
  | .acquire opts => indexEnd (arrayAcquire a env i opts false)
  | .release => indexEnd (arrayRelease a env i false)
  | .asCapsule => indexEnd (arrayAsCapsule a env i false)
  | .getItem later =>
    let f := arraySubscript a env i false
    match f.result with
    | .ok index => ⟨f.trace ++ itemTouches a index later false, none⟩
    | .error e => ⟨f.trace, some e⟩

/-! ## Every touch is at the index of the call -/

section Touches

variable {a : ArrayObj} {env : ArrayEnv} {index : ℕ} {item : Bool}

/-- The lock operation is one on lock `index`, which the array has. -/
def TouchAt (a : ArrayObj) (index : ℕ) (t : Touch) : Prop := t.index = index ∧ index < a.count

/-- The check of the flags touches no item. -/
theorem notes_checkOpen (P : Touch → Prop) (f : ArrayFlags) (s : Bool) :
    (arrayCheckOpen f).Notes P s := by
  unfold arrayCheckOpen
  split_ifs <;> simp

/-- Caching the flag in an item handle is no touch. -/
theorem notes_storeLocked (P : Touch → Prop) (s : Bool) : (storeLocked item).Notes P s := by
  unfold storeLocked
  split_ifs <;> simp

/-- What is unlocked on the way out of a failure is the item of the call. -/
theorem notes_unlockAndRaise (h : index < a.count) (e : ArrayExc) (s : Bool) :
    (unlockAndRaise index e).Notes (TouchAt a index) s :=
  Call.notes_bind_of (fun _ => (Call.notes_note _ _ _).mpr ⟨rfl, h⟩)
    (fun _ _ => (Call.notes_raise _ _ _).mpr trivial) s

/-- What follows the lock stays at the item that was locked. -/
theorem notes_afterLock (h : index < a.count) (rc : Rc) (s : Bool) :
    (arrayAfterLock a env index rc item).Notes (TouchAt a index) s := by
  have hdone : ∀ s, (do storeLocked item; pure true : ArrayCall Bool).Notes (TouchAt a index) s :=
    Call.notes_bind_of (notes_storeLocked _) fun _ _ => (Call.notes_pure _ _ _).mpr trivial
  unfold arrayAfterLock raiseRc
  split
  · exact hdone s
  · split_ifs
    · exact notes_unlockAndRaise h _ s
    · exact notes_unlockAndRaise h _ s
    · exact notes_unlockAndRaise h _ s
    · exact Call.notes_bind_of (fun _ => (Call.notes_note _ _ _).mpr ⟨rfl, h⟩)
        (fun _ => notes_unlockAndRaise h _) s
    · exact Call.notes_bind_of (fun _ => (Call.notes_note _ _ _).mpr ⟨rfl, h⟩)
        (fun _ => hdone) s
  all_goals simp

/-- Every slice tries the same item. -/
theorem notes_lockSlices (h : index < a.count) (n : ℕ) (s : Bool) :
    (lockSlices index n).Notes (TouchAt a index) s := by
  induction n generalizing s with
  | zero => simp [lockSlices]
  | succ n ih =>
    exact Call.notes_bind_of (fun _ => (Call.notes_note _ _ _).mpr ⟨rfl, h⟩) (fun _ => ih) s

/-- The whole wait is at one item. -/
theorem notes_lockWait (h : index < a.count) (opts : AcquireOpts) (s : Bool) :
    (arrayLockWait a env index opts item).Notes (TouchAt a index) s := by
  unfold arrayLockWait raiseRc
  split_ifs
  · simp
  · simp
  · exact Call.notes_bind_of (fun _ => (Call.notes_note _ _ _).mpr ⟨rfl, h⟩)
      (fun _ => notes_afterLock h _) s
  · exact Call.notes_bind_of (notes_lockSlices h _) (fun _ => notes_afterLock h _) s

/-- **`acquire`** of an item touches that item only. -/
theorem notes_lockIndex (opts : AcquireOpts) (s : Bool) :
    (arrayLockIndex a env index opts item).Notes (TouchAt a index) s := by
  refine Call.notes_bind_of (notes_checkOpen _ _) (fun _ s' => ?_) s
  by_cases h : index ≥ a.count
  · simp [h]
  · have hlt : index < a.count := by omega
    rw [if_neg h]
    refine Call.notes_bind_of (fun _ => (Call.notes_note _ _ _).mpr ⟨rfl, hlt⟩)
      (fun _ s'' => ?_) s'
    by_cases hbusy : env.trylock ≠ .ebusy
    · rw [if_pos hbusy]
      exact notes_afterLock hlt _ s''
    · rw [if_neg hbusy]
      exact notes_lockWait hlt _ s''

/-- **`release`** of an item touches that item only. -/
theorem notes_releaseIndex (s : Bool) :
    (arrayReleaseIndex a env index).Notes (TouchAt a index) s := by
  refine Call.notes_bind_of (notes_checkOpen _ _) (fun _ s' => ?_) s
  by_cases h : index ≥ a.count
  · simp [h]
  · rw [if_neg h]
    refine Call.notes_bind_of (fun _ => (Call.notes_note _ _ _).mpr ⟨rfl, by omega⟩)
      (fun _ s'' => ?_) s'
    unfold raiseRc
    split_ifs <;> simp

/-- A capsule is made of the item it is asked for. -/
theorem notes_capsuleNew (h : index < a.count) (s : Bool) :
    (capsuleNew env index).Notes (TouchAt a index) s := by
  refine Call.notes_bind_of (fun _ => (Call.notes_note _ _ _).mpr ⟨rfl, h⟩) (fun _ s' => ?_) s
  split <;> simp

/-- Parsing the arguments touches no item. -/
theorem notes_parsedOpts (P : Touch → Prop) (opts : Except PyError AcquireOpts) (s : Bool) :
    (parsedOpts opts).Notes P s := by
  unfold parsedOpts
  split <;> simp

/-- A later `acquire` on an item handle touches its own item. -/
theorem notes_itemAcquire (opts : Except PyError AcquireOpts) (s : Bool) :
    (itemAcquire a env index opts).Notes (TouchAt a index) s :=
  Call.notes_bind_of (notes_parsedOpts _ _) (fun _ => notes_lockIndex _) s

/-- A later `release` on an item handle touches its own item. -/
theorem notes_itemRelease (s : Bool) : (itemRelease a env index).Notes (TouchAt a index) s :=
  Call.notes_bind_of notes_releaseIndex (fun _ _ => (Call.notes_change _ _ _).mpr trivial) s

/-- A method of an item acts on the lock of the item.  `as_capsule` does so because the index
of an item is one of the array. -/
theorem notes_itemOp (h : index < a.count) (op : ItemOp) (s : Bool) :
    (op.call a env index).Notes (TouchAt a index) s := by
  cases op with
  | acquire opts =>
    exact Call.notes_bind_of (notes_itemAcquire _)
      (fun _ _ => (Call.notes_pure _ _ _).mpr trivial) s
  | release => exact notes_itemRelease s
  | asCapsule =>
    exact Call.notes_bind_of (notes_checkOpen _ _) (fun _ => notes_capsuleNew h) s
  | enter =>
    refine Call.notes_bind_of (notes_itemAcquire _) (fun ok s' => ?_) s
    split_ifs <;> simp
  | exit =>
    refine Call.notes_bind_of (fun _ _ he => nomatch he) (fun locked s' => ?_) s
    cases locked with
    | true => exact notes_itemRelease s'
    | false => simp

/-- So do all its uses, whatever happens to the array in between. -/
theorem itemTouches_at (h : index < a.count) (us : List ItemUse) (locked : Bool) :
    ∀ t ∈ itemTouches a index us locked, TouchAt a index t := by
  induction us generalizing locked with
  | nil => exact fun t ht => nomatch ht
  | cons u us ih =>
    intro t ht
    rcases List.mem_append.mp ht with hop | hrest
    · exact notes_itemOp (a := { a with flags := u.flags }) h u.op locked t hop
    · exact ih _ t hrest

end Touches

/-! ## What a call does with a converted index -/

/-- The array passes `array_check_open`. -/
def ArrayFlags.Usable (f : ArrayFlags) : Prop :=
  f.closed = false ∧ f.bound = true ∧ f.locks = true ∧ f.region = true

/-- The call is not refused for another reason: the array is open and bound, and the other
arguments of the call are fine. -/
def ArrayOp.Accepted (a : ArrayObj) (op : ArrayOp) : Prop :=
  a.flags.Usable ∧
  match op with
  | .acquire opts => ∃ o, opts = .ok o
  | _ => True

/-- The index that the caller names. -/
def ArrayOp.named (a : ArrayObj) (i : ℤ) : ArrayOp → ℤ
  | .getItem _ => normalize a.count i
  | _ => i

/-- **A call acts on exactly the lock that its index names**, and if the array has no such
lock it raises `IndexError` and touches none. -/
def IndexExact (a : ArrayObj) (op : ArrayOp) (i : ℤ) (out : IndexEnd) : Prop :=
  (∀ t ∈ out.touches, 0 ≤ op.named a i ∧ op.named a i < a.count ∧ t.index = op.named a i) ∧
  (¬ (0 ≤ op.named a i ∧ op.named a i < a.count) →
    out.touches = [] ∧ ∃ e, out.error = some e ∧
      (op.Accepted a → ∃ text, e = .indexError text))

/-- What a call does once its index is the word `index`. -/
structure Checked (a : ArrayObj) (accepted : Prop) (index : ℕ) (out : IndexEnd) : Prop where
  inside : accepted → index < a.count →
    ¬ (out.touches = [] ∧ ∃ text, out.error = some (.indexError text))
  outside : accepted → a.count ≤ index → out.touches = [] ∧ out.error = some indexRange
  refused : ¬ accepted → out.touches = [] ∧ ∃ e, out.error = some e
  touches : ∀ t ∈ out.touches, TouchAt a index t

section Converted

variable {a : ArrayObj} {env : ArrayEnv} {index : ℕ} {item : Bool} {i : ℤ} {s : Bool}

/-- A bound and open array passes the check. -/
theorem checkOpen_usable {f : ArrayFlags} (h : f.Usable) :
    arrayCheckOpen f s = ⟨[], s, .ok ()⟩ := by
  obtain ⟨h1, h2, h3, h4⟩ := h
  simp [arrayCheckOpen, h1, h2, h3, h4]

/-- An array that is not bound or is closed raises. -/
theorem checkOpen_refused {f : ArrayFlags} (h : ¬ f.Usable) :
    ∃ e, arrayCheckOpen f s = ⟨[], s, .error e⟩ := by
  unfold arrayCheckOpen
  split_ifs with h1 h2
  · exact ⟨_, rfl⟩
  · exact ⟨_, rfl⟩
  · simp only [not_or, Bool.not_eq_false] at h2
    exact absurd ⟨by simpa using h1, h2⟩ h

/-- An index in the range of `Py_ssize_t` is taken as it is. -/
theorem asSsize_fits (hlo : -2 ^ 63 ≤ i) (hhi : i < 2 ^ 63) : asSsize i s = ⟨[], s, .ok i⟩ := by
  unfold asSsize
  rw [if_neg (by omega)]
  rfl

/-- `acquire`, `release` and `as_capsule` refuse a negative index. -/
theorem parseIndex_neg (hlo : -2 ^ 63 ≤ i) (hneg : i < 0) :
    arrayParseIndex i s = ⟨[], s, .error indexRange⟩ := by
  unfold arrayParseIndex
  rw [Call.bind_of_ok (asSsize_fits hlo (by omega)), if_pos hneg]
  rfl

/-- Any other index is cut to 32 bits. -/
theorem parseIndex_nonneg (hpos : 0 ≤ i) (hhi : i < 2 ^ 63) :
    arrayParseIndex i s = ⟨[], s, .ok (u32 i.toNat)⟩ := by
  unfold arrayParseIndex
  rw [Call.bind_of_ok (asSsize_fits (by omega) hhi), if_neg (by omega)]
  rfl

/-- Behind the checks of the array and of the range stands a first touch. -/
def guarded {α : Type} (a : ArrayObj) (index : ℕ) (first : Touch) (rest : ArrayCall α) :
    ArrayCall α := do
  arrayCheckOpen a.flags
  if index ≥ a.count then Call.raise indexRange
  else do
    Call.note first
    rest

/-- **The bound check** before the touch decides alone which index is accepted. -/
theorem guarded_checked {α : Type} {first : Touch} {rest : ArrayCall α}
    (htouch : (guarded a index first rest).Notes (TouchAt a index) s) :
    Checked a a.flags.Usable index (indexEnd (guarded a index first rest s)) := by
  refine ⟨fun hopen hin => ?_, fun hopen hout => ?_, fun hshut => ?_, htouch⟩
  · have hrun : (guarded a index first rest s).trace = first :: (rest s).trace := by
      unfold guarded
      rw [Call.bind_of_ok (checkOpen_usable hopen), if_neg (by omega),
        Call.bind_of_ok (Call.note_run first s)]
      rfl
    rintro ⟨hnone, -⟩
    exact List.cons_ne_nil _ _ (hrun.symm.trans hnone)
  · have hrun : guarded a index first rest s = ⟨[], s, .error indexRange⟩ := by
      unfold guarded
      rw [Call.bind_of_ok (checkOpen_usable hopen), if_pos hout]
      rfl
    rw [hrun]
    exact ⟨rfl, rfl⟩
  · obtain ⟨e, he⟩ := checkOpen_refused (s := s) hshut
    have hrun : guarded a index first rest s = ⟨[], s, .error e⟩ := by
      unfold guarded
      rw [Call.bind_of_error he]
    rw [hrun]
    exact ⟨rfl, e, rfl⟩

/-- `acquire` accepts the index, or raises without a touch. -/
theorem acquire_checked (opts : Except PyError AcquireOpts) (hpos : 0 ≤ i) (hhi : i < 2 ^ 63) :
    Checked a ((ArrayOp.acquire opts).Accepted a) (u32 i.toNat)
      ((ArrayOp.acquire opts).run a env i) := by
  rcases opts with e | o
  · -- the options are parsed after the index and before anything else
    have hrun : arrayAcquire a env i (.error e) false = ⟨[], false, .error (.other e)⟩ := by
      unfold arrayAcquire
      rw [Call.bind_of_ok (parseIndex_nonneg hpos hhi)]
      rfl
    have hno : ¬ (ArrayOp.acquire (.error e)).Accepted a := fun h => by
      obtain ⟨-, o, ho⟩ := h
      exact nomatch ho
    simp only [ArrayOp.run, hrun]
    exact ⟨fun h => absurd h hno, fun h => absurd h hno, fun _ => ⟨rfl, _, rfl⟩,
      fun t ht => nomatch ht⟩
  · have hrun : arrayAcquire a env i (.ok o) false
        = arrayLockIndex a env (u32 i.toNat) o false false := by
      unfold arrayAcquire
      rw [Call.bind_of_ok (parseIndex_nonneg hpos hhi)]
      rfl
    have hacc : (ArrayOp.acquire (.ok o)).Accepted a = a.flags.Usable :=
      propext (and_iff_left ⟨o, rfl⟩)
    rw [hacc]
    simp only [ArrayOp.run, hrun]
    exact guarded_checked (notes_lockIndex o false)

/-- `release` accepts the index, or raises without a touch. -/
theorem release_checked (hpos : 0 ≤ i) (hhi : i < 2 ^ 63) :
    Checked a (ArrayOp.release.Accepted a) (u32 i.toNat) (ArrayOp.release.run a env i) := by
  have hrun : arrayRelease a env i false = arrayReleaseIndex a env (u32 i.toNat) false := by
    unfold arrayRelease
    rw [Call.bind_of_ok (parseIndex_nonneg hpos hhi)]
    rfl
  have hacc : ArrayOp.release.Accepted a = a.flags.Usable := propext (and_iff_left trivial)
  rw [hacc]
  simp only [ArrayOp.run, hrun]
  exact guarded_checked (notes_releaseIndex false)

/-- `as_capsule` is a guarded touch, followed by what the capsule's construction may raise. -/
theorem asCapsule_eq (hpos : 0 ≤ i) (hhi : i < 2 ^ 63) (s : Bool) :
    arrayAsCapsule a env i s = guarded a (u32 i.toNat) (.capsule (u32 i.toNat))
      (match env.capsule with
        | some e => Call.raise (.other e)
        | none => pure ()) s := by
  unfold arrayAsCapsule guarded
  by_cases hopen : a.flags.Usable
  · rw [Call.bind_of_ok (checkOpen_usable hopen), Call.bind_of_ok (checkOpen_usable hopen),
      Call.bind_of_ok (parseIndex_nonneg hpos hhi)]
    rfl
  · obtain ⟨e, he⟩ := checkOpen_refused (s := s) hopen
    rw [Call.bind_of_error he, Call.bind_of_error he]

/-- `as_capsule` accepts the index, or raises without a touch. -/
theorem asCapsule_checked (hpos : 0 ≤ i) (hhi : i < 2 ^ 63) :
    Checked a (ArrayOp.asCapsule.Accepted a) (u32 i.toNat)
      (ArrayOp.asCapsule.run a env i) := by
  have hacc : ArrayOp.asCapsule.Accepted a = a.flags.Usable := propext (and_iff_left trivial)
  rw [hacc]
  simp only [ArrayOp.run, asCapsule_eq hpos hhi]
  refine guarded_checked (Call.notes_bind_of (notes_checkOpen _ _) (fun _ s' => ?_) false)
  by_cases hout : u32 i.toNat ≥ a.count
  · simp [hout]
  · rw [if_neg hout]
    exact notes_capsuleNew (by omega) s'

/-- Indexing normalises the index first, and later uses of the item keep to its mutex. -/
theorem getItem_checked (later : List ItemUse) (hlo : -2 ^ 63 ≤ i) (hhi : i < 2 ^ 63)
    (hpos : 0 ≤ normalize a.count i) :
    Checked a ((ArrayOp.getItem later).Accepted a) (u32 (normalize a.count i).toNat)
      ((ArrayOp.getItem later).run a env i) := by
  have hsub : arraySubscript a env i false = arrayGetitem a env (normalize a.count i) false := by
    unfold arraySubscript
    rw [Call.bind_of_ok (asSsize_fits hlo hhi)]
    rfl
  have hacc : (ArrayOp.getItem later).Accepted a = a.flags.Usable :=
    propext (and_iff_left trivial)
  rw [hacc]
  simp only [ArrayOp.run, hsub]
  by_cases hopen : a.flags.Usable
  · by_cases hout : a.count ≤ u32 (normalize a.count i).toNat
    · have hrun : arrayGetitem a env (normalize a.count i) false
          = ⟨[], false, .error indexRange⟩ := by
        unfold arrayGetitem
        rw [Call.bind_of_ok (checkOpen_usable hopen), if_pos (Or.inr hout)]
        rfl
      rw [hrun]
      exact ⟨fun _ hin => absurd hout (by omega), fun _ _ => ⟨rfl, rfl⟩,
        fun h => absurd hopen h, fun t ht => nomatch ht⟩
    · have hrun : arrayGetitem a env (normalize a.count i) false
          = arrayItemNew env (u32 (normalize a.count i).toNat) false := by
        unfold arrayGetitem
        rw [Call.bind_of_ok (checkOpen_usable hopen), if_neg (by omega)]
        rfl
      rw [hrun]
      unfold arrayItemNew
      split_ifs with halloc
      · refine ⟨fun _ _ h => ?_, fun _ h => absurd h hout, fun h => absurd hopen h, ?_⟩
        · obtain ⟨-, text, htext⟩ := h
          exact nomatch htext
        · exact itemTouches_at (by omega) later false
      · refine ⟨fun _ _ h => ?_, fun _ h => absurd h hout, fun h => absurd hopen h,
          fun t ht => nomatch ht⟩
        obtain ⟨-, text, htext⟩ := h
        exact nomatch htext
  · obtain ⟨e, he⟩ := checkOpen_refused (s := false) hopen
    have hrun : arrayGetitem a env (normalize a.count i) false = ⟨[], false, .error e⟩ := by
      unfold arrayGetitem
      rw [Call.bind_of_error he]
    rw [hrun]
    exact ⟨fun h => absurd h hopen, fun h => absurd h hopen, fun _ => ⟨rfl, e, rfl⟩,
      fun t ht => nomatch ht⟩

end Converted

/-! ## Exactness -/

variable {a : ArrayObj} {i : ℤ}

/-- A nonnegative index is looked up as the word that it is converted to. -/
theorem ArrayOp.checked (env : ArrayEnv) (op : ArrayOp) (hlo : -2 ^ 63 ≤ i) (hhi : i < 2 ^ 63)
    (hpos : 0 ≤ op.named a i) :
    Checked a (op.Accepted a) (u32 (op.named a i).toNat) (op.run a env i) := by
  cases op with
  | acquire opts => exact acquire_checked opts hpos hhi
  | release => exact release_checked hpos hhi
  | asCapsule => exact asCapsule_checked hpos hhi
  | getItem later => exact getItem_checked later hlo hhi hpos

/-- A negative index is refused. -/
theorem ArrayOp.run_neg (env : ArrayEnv) (op : ArrayOp) (hlo : -2 ^ 63 ≤ i) (hhi : i < 2 ^ 63)
    (hneg : op.named a i < 0) :
    (op.run a env i).touches = [] ∧ ∃ e, (op.run a env i).error = some e ∧
      (op.Accepted a → ∃ text, e = .indexError text) := by
  cases op with
  | acquire opts =>
    have hrun : arrayAcquire a env i opts false = ⟨[], false, .error indexRange⟩ := by
      unfold arrayAcquire
      rw [Call.bind_of_error (parseIndex_neg hlo hneg)]
    simp only [ArrayOp.run, hrun]
    exact ⟨rfl, _, rfl, fun _ => ⟨_, rfl⟩⟩
  | release =>
    have hrun : arrayRelease a env i false = ⟨[], false, .error indexRange⟩ := by
      unfold arrayRelease
      rw [Call.bind_of_error (parseIndex_neg hlo hneg)]
    simp only [ArrayOp.run, hrun]
    exact ⟨rfl, _, rfl, fun _ => ⟨_, rfl⟩⟩
  | asCapsule =>
    by_cases hopen : a.flags.Usable
    · have hrun : arrayAsCapsule a env i false = ⟨[], false, .error indexRange⟩ := by
        unfold arrayAsCapsule
        rw [Call.bind_of_ok (checkOpen_usable hopen), Call.bind_of_error (parseIndex_neg hlo hneg)]
        rfl
      simp only [ArrayOp.run, hrun]
      exact ⟨rfl, _, rfl, fun _ => ⟨_, rfl⟩⟩
    · obtain ⟨e, he⟩ := checkOpen_refused (s := false) hopen
      have hrun : arrayAsCapsule a env i false = ⟨[], false, .error e⟩ := by
        unfold arrayAsCapsule
        rw [Call.bind_of_error he]
      simp only [ArrayOp.run, hrun]
      exact ⟨rfl, e, rfl, fun h => absurd h.1 hopen⟩
  | getItem later =>
    have hsub : arraySubscript a env i false
        = arrayGetitem a env (normalize a.count i) false := by
      unfold arraySubscript
      rw [Call.bind_of_ok (asSsize_fits hlo hhi)]
      rfl
    simp only [ArrayOp.run, hsub]
    by_cases hopen : a.flags.Usable
    · have hrun : arrayGetitem a env (normalize a.count i) false
          = ⟨[], false, .error indexRange⟩ := by
        have hneg' : normalize a.count i < 0 := hneg
        unfold arrayGetitem
        rw [Call.bind_of_ok (checkOpen_usable hopen), if_pos (Or.inl hneg')]
        rfl
      rw [hrun]
      exact ⟨rfl, _, rfl, fun _ => ⟨_, rfl⟩⟩
    · obtain ⟨e, he⟩ := checkOpen_refused (s := false) hopen
      have hrun : arrayGetitem a env (normalize a.count i) false = ⟨[], false, .error e⟩ := by
        unfold arrayGetitem
        rw [Call.bind_of_error he]
      rw [hrun]
      exact ⟨rfl, e, rfl, fun h => absurd h.1 hopen⟩

/-- **When indexing is exact.**  The conversion to 32 bits must not bring an index from beyond
them back into the array. -/
theorem index_exact_iff (a : ArrayObj) (env : ArrayEnv) (op : ArrayOp) (i : ℤ)
    (hlo : -2 ^ 63 ≤ i) (hhi : i < 2 ^ 63) :
    IndexExact a op i (op.run a env i) ↔
      (op.Accepted a → ¬ (2 ^ 32 ≤ op.named a i ∧ op.named a i % 2 ^ 32 < a.count)) := by
  have hcount : (a.count : ℤ) < 2 ^ 32 := by exact_mod_cast a.count_lt
  rcases lt_or_ge (op.named a i) 0 with hneg | hpos
  · obtain ⟨hnone, hraise⟩ := op.run_neg env hlo hhi hneg
    refine iff_of_true ⟨?_, fun _ => ⟨hnone, hraise⟩⟩ (fun _ h => by omega)
    rw [hnone]
    exact fun t ht => nomatch ht
  · have hchk := op.checked env hlo hhi hpos
    have hword : (u32 (op.named a i).toNat : ℤ) = op.named a i % 2 ^ 32 := by
      unfold u32
      rw [Int.natCast_mod, Int.toNat_of_nonneg hpos]
      rfl
    unfold IndexExact
    generalize op.named a i = j at *
    generalize u32 j.toNat = k at *
    constructor
    · rintro ⟨-, hraise⟩ hacc ⟨hbig, hback⟩
      obtain ⟨hnone, e, he, htext⟩ := hraise (by omega)
      obtain ⟨text, rfl⟩ := htext hacc
      exact hchk.inside hacc (by omega) ⟨hnone, text, he⟩
    · intro hcond
      by_cases hacc : op.Accepted a
      · rcases lt_or_ge k a.count with hin | hout
        · -- the word is the index itself
          have hkj : (k : ℤ) = j := by
            have := hcond hacc
            omega
          refine ⟨fun t ht => ⟨hpos, by omega, ?_⟩, fun h => absurd ⟨hpos, by omega⟩ h⟩
          rw [(hchk.touches t ht).1, hkj]
        · obtain ⟨hnone, herr⟩ := hchk.outside hacc hout
          refine ⟨?_, fun _ => ⟨hnone, _, herr, fun _ => ⟨_, rfl⟩⟩⟩
          rw [hnone]
          exact fun t ht => nomatch ht
      · obtain ⟨hnone, e, herr⟩ := hchk.refused hacc
        refine ⟨?_, fun _ => ⟨hnone, e, herr, fun h => absurd h hacc⟩⟩
        rw [hnone]
        exact fun t ht => nomatch ht

/-- An array of three locks, open and bound. -/
def threeLocks : ArrayObj := ⟨⟨false, true, true, true, false⟩, 3, by decide⟩

/-- Everything the calls ask for succeeds. -/
def calmLocks : ArrayEnv := ⟨.ok, .ok, 1, .ok, true, false, .ok, .ok, none⟩

/-- `a[-1].acquire()` takes the last lock. -/
theorem index_exact_iff_last :
    IndexExact threeLocks (.getItem [⟨threeLocks.flags, calmLocks, .acquire (.ok .default)⟩]) (-1)
      ((ArrayOp.getItem [⟨threeLocks.flags, calmLocks, .acquire (.ok .default)⟩]).run threeLocks
        calmLocks (-1)) :=
  (index_exact_iff _ _ _ _ (by decide) (by decide)).mpr (fun _ h => absurd h.1 (by decide))

/-- `a.acquire(2 ** 32 + 1)` takes lock 1. -/
theorem index_wraps :
    (ArrayOp.acquire (.ok .default)).run threeLocks calmLocks (2 ^ 32 + 1)
        = ⟨[.trylock 1], none⟩ ∧
      ¬ IndexExact threeLocks (.acquire (.ok .default)) (2 ^ 32 + 1)
        ((ArrayOp.acquire (.ok .default)).run threeLocks calmLocks (2 ^ 32 + 1)) := by
  have hrun : (ArrayOp.acquire (.ok .default)).run threeLocks calmLocks (2 ^ 32 + 1)
      = ⟨[.trylock 1], none⟩ := rfl
  refine ⟨hrun, ?_⟩
  rw [hrun]
  rintro ⟨htouch, -⟩
  obtain ⟨-, hlt, -⟩ := htouch (.trylock 1) (List.mem_singleton.mpr rfl)
  exact absurd hlt (by decide)

end PosixIpc
