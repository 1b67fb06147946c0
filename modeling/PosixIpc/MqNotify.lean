/-
# Queue notifications (`nmq_request_notification` and its helpers in `py_queue.c`)

One `NamedMessageQueue` object, its registration with `mq_notify`, and the threads that
deliveries start.  A step is what happens between two points at which the GIL may change hands.
There are three inside the functions: a notification thread starts at any time after its delivery,
its callback runs Python code, and so may the destructor of a callable that `nmq_disarm` frees.

* `Nmq` : the object, the kernel's registration, and the threads and calls under way;
* `Nmq.step` : the steps;
* `notify_thread_alive` : a notification thread finds its object alive, and every reference taken
  by arming is dropped once, if nothing is disarmed between a delivery and its thread.
-/
import PosixIpc.StepSystem

namespace PosixIpc

/-! ## The object -/

/-- The argument of `request_notification`; `none` stands for `None` and for values that are
refused after `nmq_disarm`. -/
inductive NotifyTarget
  | none
  | signal
  | callable
  deriving DecidableEq

/-- A registration with `mq_notify`; that of a callable is known by its number. -/
inductive Sigev
  | signal
  | thread (reg : ℕ)
  deriving DecidableEq

/-- A call that has run `nmq_disarm`. -/
inductive NmqCall
  | request (target : NotifyTarget)
  | close
  deriving DecidableEq

/-- A run of `nmq_notify_thread`: the registration that started it, whether that had been
cancelled, replaced or closed, and the registration whose callable it invoked. -/
structure NotifyRun where
  reg : ℕ
  ended : Bool
  invoked : Option ℕ
  deriving DecidableEq

/-- `PosixIPCNamedMQObject`, and what happens around it. -/
structure Nmq where
  refs : ℕ
  /-- The references that are the user's. -/
  users : ℕ
  freed : Bool
  closed : Bool
  /-- The descriptor `mq` is not `-1`. -/
  hasMq : Bool
  notifyArmed : Bool
  /-- `notify_fn` and `notify_arg`, as the number of their registration. -/
  notifyFn : Option ℕ
  kernel : Option Sigev
  /-- Deliveries whose threads have not run yet. -/
  pending : List ℕ
  /-- The callables that notification threads have taken out and are done with not yet. -/
  running : List ℕ
  calls : List NmqCall
  /-- The number of the next registration. -/
  next : ℕ
  /-- The registrations whose reference was dropped. -/
  dropped : List ℕ
  /-- The registrations that `nmq_disarm` has ended. -/
  ended : List ℕ
  ran : List NotifyRun
  /-- A notification thread has run on the freed object. -/
  touched : Bool
  deriving DecidableEq

namespace Nmq

/-- `nmq_from_mq`. -/
def fresh : Nmq where
  refs := 1
  users := 1
  freed := false
  closed := false
  hasMq := true
  notifyArmed := false
  notifyFn := none
  kernel := none
  pending := []
  running := []
  calls := []
  next := 0
  dropped := []
  ended := []
  ran := []
  touched := false

/-! ## The functions -/

/-- `nmq_disarm`; the reference it drops is not the last one, since the caller has one. -/
def nmqDisarm (o : Nmq) : Nmq :=
  let o := if o.hasMq then { o with kernel := none } else o
  if o.notifyArmed then
    { o with
      notifyArmed := false
      notifyFn := none
      refs := o.refs - 1
      dropped := o.dropped ++ o.notifyFn.toList
      ended := o.ended ++ o.notifyFn.toList }
  else o

/-- `nmq_dealloc`. -/
def nmqDealloc (o : Nmq) : Nmq :=
  let o := if o.closed then o else { o.nmqDisarm with hasMq := false, kernel := none }
  { o with notifyFn := none, freed := true }

/-- `Py_DECREF`. -/
def decref (o : Nmq) : Nmq :=
  let o := { o with refs := o.refs - 1 }
  if o.refs = 0 then o.nmqDealloc else o

/-- `mq_notify` refuses: for a reason of its own, because there is a registration already, or
because the descriptor is not open. -/
def notifyFails (o : Nmq) (fails : Bool) : Bool := fails || o.kernel.isSome || !o.hasMq

/-- The end of `nmq_request_notification` for a callable. -/
def nmqArm (o : Nmq) (fails : Bool) : Nmq :=
  let reg := o.next
  let o := { o with notifyFn := some reg, notifyArmed := true, refs := o.refs + 1, next := reg + 1 }
  if o.notifyFails fails then
    { o with
      notifyArmed := false
      notifyFn := none
      refs := o.refs - 1
      dropped := o.dropped ++ [reg] }
  else { o with kernel := some (.thread reg) }

/-- `nmq_request_notification` for a signal number. -/
def nmqSignal (o : Nmq) (fails : Bool) : Nmq :=
  if o.notifyFails fails then o else { o with kernel := some .signal }

/-- The end of `nmq_close`; closing the descriptor removes the registration. -/
def nmqCloseMq (o : Nmq) : Nmq :=
  let o := if o.hasMq then { o with hasMq := false, kernel := none } else o
  { o with closed := true }

/-- The rest of a call. -/
def finishCall (o : Nmq) (c : NmqCall) (fails : Bool) : Nmq :=
  match c with
  | .request .none => o
  | .request .signal => o.nmqSignal fails
  | .request .callable => o.nmqArm fails
  | .close => o.nmqCloseMq

/-- `nmq_notify_thread` up to the call of the callable. -/
def nmqNotifyThread (o : Nmq) (reg : ℕ) : Nmq :=
  let ended := decide (reg ∈ o.ended) || o.closed
  if o.freed then { o with touched := true }
  else if o.notifyArmed = false then { o with ran := o.ran ++ [NotifyRun.mk reg ended none] }
  else
    let invoked := if o.closed then none else o.notifyFn
    let o := { o with notifyArmed := false, ran := o.ran ++ [NotifyRun.mk reg ended invoked] }
    match o.notifyFn with
    | none => o.decref
    | some fn => { o with notifyFn := none, running := o.running ++ [fn] }

end Nmq

/-! ## The steps -/

/-- The steps. -/
inductive NmqOp
  | incref
  | drop
  /-- `request_notification`, up to the end of `nmq_disarm`. -/
  | request (target : NotifyTarget)
  /-- `close`, up to the end of `nmq_disarm`. -/
  | close
  /-- The rest of the call `k`. -/
  | proceed (k : ℕ) (fails : Bool)
  /-- A message arrives on the empty queue. -/
  | deliver
  /-- The thread that a delivery has started. -/
  | thread (reg : ℕ)
  /-- The end of a thread that has taken out the callable `fn`. -/
  | finish (fn : ℕ)
  deriving DecidableEq

namespace Nmq

/-- One step; `none` when it is not possible. -/
def step (o : Nmq) : NmqOp → Option Nmq
  | .incref =>
    if o.users = 0 then none else some { o with users := o.users + 1, refs := o.refs + 1 }
  | .drop => if o.users = 0 then none else some { o with users := o.users - 1 }.decref
  | .request target =>
    if o.users = 0 then none
    -- `nmq_check_open` raises
    else if o.closed ∨ o.hasMq = false then some o
    else some { o.nmqDisarm with
      calls := o.calls ++ [.request target]
      refs := o.nmqDisarm.refs + 1 }
  | .close =>
    if o.users = 0 then none
    else if o.closed then some o
    else some { o.nmqDisarm with calls := o.calls ++ [.close], refs := o.nmqDisarm.refs + 1 }
  | .proceed k fails =>
    match o.calls[k]? with
    | none => none
    | some c => some ({ o with calls := o.calls.eraseIdx k }.finishCall c fails).decref
  | .deliver =>
    match o.kernel with
    | none => none
    | some .signal => some { o with kernel := none }
    | some (.thread reg) => some { o with kernel := none, pending := o.pending ++ [reg] }
  | .thread reg =>
    if reg ∈ o.pending then some ({ o with pending := o.pending.erase reg }.nmqNotifyThread reg)
    else none
  | .finish fn =>
    if fn ∈ o.running then
      some { o with running := o.running.erase fn, dropped := o.dropped ++ [fn] }.decref
    else none

/-- The objects reached by steps that all meet a condition. -/
abbrev Run (Ok : Nmq → NmqOp → Prop) : Nmq → Prop := StepSystem.Run step fresh Ok

/-! ## References -/

variable {o o' : Nmq} {op : NmqOp} {reg : ℕ}

/-- The references that something accounts for. -/
def accounted (o : Nmq) : ℕ :=
  o.users + o.calls.length + o.notifyArmed.toNat + o.running.length

/-- The slot is filled when the object is armed, and a registration needs the descriptor. -/
structure Tidy (o : Nmq) : Prop where
  slot : o.notifyArmed = o.notifyFn.isSome
  mq : o.hasMq = false → o.kernel = none

/-- The reference count is right. -/
structure Counted (o : Nmq) : Prop extends Tidy o where
  refs : o.refs = o.accounted
  freed : o.freed = true ↔ o.refs = 0

/-- The object is alive, and one reference is about to be dropped. -/
structure Owed (o : Nmq) : Prop extends Tidy o where
  refs : o.refs = o.accounted + 1
  alive : o.freed = false

/-- **`Py_DECREF`**: the count goes down; with the last reference the descriptor goes as well. -/
theorem Owed.decref_cases (h : Owed o) :
    (0 < o.accounted ∧ o.decref = { o with refs := o.accounted }) ∨
    (o.accounted = 0 ∧ ∃ k m, (k = o.kernel ∨ k = none) ∧ (m = false → k = none) ∧
      o.decref = { o with refs := 0, kernel := k, hasMq := m, freed := true }) := by
  have hrefs := h.refs
  unfold decref
  by_cases hzero : o.accounted = 0
  · right
    refine ⟨hzero, ?_⟩
    have harmed : o.notifyArmed = false := by
      unfold accounted at hzero
      cases ha : o.notifyArmed with
      | false => rfl
      | true => simp [ha] at hzero
    have hfn : o.notifyFn = none := by
      have hslot := h.slot
      rw [harmed] at hslot
      simpa using hslot.symm
    -- the object is not armed, so nothing is disarmed
    simp only [hrefs, hzero, nmqDealloc, nmqDisarm, harmed]
    by_cases hclosed : o.closed = true
    · exact ⟨o.kernel, o.hasMq, .inl rfl, h.mq, by simp [hclosed, hfn]⟩
    · by_cases hmq : o.hasMq = true
      · exact ⟨none, false, .inr rfl, fun _ => rfl, by simp [hclosed, hmq, hfn]⟩
      · exact ⟨none, false, .inr rfl, fun _ => rfl, by simp [hclosed, hmq, hfn]⟩
  · left
    refine ⟨Nat.pos_of_ne_zero hzero, ?_⟩
    simp only [hrefs, Nat.add_sub_cancel, if_neg hzero]

/-- A reference that was owed is dropped. -/
theorem Owed.counted_decref (h : Owed o) : Counted o.decref := by
  rcases h.decref_cases with ⟨hpos, heq⟩ | ⟨hzero, k, m, hk, hm, heq⟩
  · rw [heq]
    refine ⟨⟨h.slot, h.mq⟩, rfl, ?_⟩
    simp [h.alive, hpos.ne']
  · rw [heq]
    refine ⟨⟨h.slot, hm⟩, ?_, ?_⟩
    · exact hzero.symm
    · simp

/-- An armed object has a callable. -/
theorem fn_of_armed (h : Tidy o) (ha : o.notifyArmed = true) : ∃ reg, o.notifyFn = some reg := by
  have hslot := h.slot
  rw [ha] at hslot
  exact Option.isSome_iff_exists.mp hslot.symm

/-- An object that is not armed has none. -/
theorem fn_of_not_armed (h : Tidy o) (ha : o.notifyArmed = false) : o.notifyFn = none := by
  have hslot := h.slot
  rw [ha] at hslot
  simpa using hslot.symm

/-- An object with a reference is alive. -/
theorem Counted.alive (h : Counted o) (hpos : o.accounted ≠ 0) : o.freed = false := by
  have hne : ¬ o.freed = true := fun hf => hpos (h.refs ▸ h.freed.mp hf)
  simpa using hne

/-- An armed object is alive. -/
theorem Counted.alive_of_armed (h : Counted o) (ha : o.notifyArmed = true) : o.freed = false := by
  refine h.alive ?_
  simp [accounted, ha]

/-- After `nmq_disarm` the object is not armed, and there is no registration. -/
theorem disarm_cases (h : Tidy o) :
    (o.notifyArmed = false ∧ o.nmqDisarm = { o with kernel := none }) ∨
    ∃ reg, o.notifyArmed = true ∧ o.notifyFn = some reg ∧ o.nmqDisarm = { o with
      kernel := none
      notifyArmed := false
      notifyFn := none
      refs := o.refs - 1
      dropped := o.dropped ++ [reg]
      ended := o.ended ++ [reg] } := by
  have hkernel :
      (if o.hasMq then { o with kernel := none } else o) = { o with kernel := none } := by
    by_cases hmq : o.hasMq = true
    · rw [if_pos hmq]
    · rw [if_neg hmq, ← h.mq (by simpa using hmq)]
  unfold nmqDisarm
  simp only [hkernel]
  cases ha : o.notifyArmed with
  | false => exact .inl ⟨rfl, by simp⟩
  | true =>
      obtain ⟨reg, hreg⟩ := fn_of_armed h ha
      exact .inr ⟨reg, rfl, hreg, by simp [hreg]⟩

/-- A notification thread finds the object freed, not armed, or armed. -/
theorem thread_cases (h : Counted o) (ps : List ℕ) (reg : ℕ) :
    (o.freed = true ∧ { o with pending := ps }.nmqNotifyThread reg =
      { o with pending := ps, touched := true }) ∨
    (o.freed = false ∧ o.notifyArmed = false ∧ { o with pending := ps }.nmqNotifyThread reg =
      { o with
        pending := ps
        ran := o.ran ++ [⟨reg, decide (reg ∈ o.ended) || o.closed, none⟩] }) ∨
    ∃ fn, o.notifyArmed = true ∧ o.notifyFn = some fn ∧
      { o with pending := ps }.nmqNotifyThread reg = { o with
        pending := ps
        notifyArmed := false
        notifyFn := none
        running := o.running ++ [fn]
        ran := o.ran ++ [⟨reg, decide (reg ∈ o.ended) || o.closed,
          if o.closed then none else some fn⟩] } := by
  unfold nmqNotifyThread
  cases ha : o.notifyArmed with
  | false =>
      cases hf : o.freed with
      | true => exact .inl ⟨rfl, by simp⟩
      | false => exact .inr (.inl ⟨rfl, rfl, by simp⟩)
  | true =>
      obtain ⟨fn, hfn⟩ := fn_of_armed h.toTidy ha
      have hf := h.alive_of_armed ha
      exact .inr (.inr ⟨fn, rfl, hfn, by simp [hf, hfn]⟩)

/-- A call that disarms leaves the count right, with its own reference. -/
theorem Counted.disarm (h : Counted o) (c : NmqCall) (hu : o.users ≠ 0) :
    Counted { o.nmqDisarm with calls := o.calls ++ [c], refs := o.nmqDisarm.refs + 1 } := by
  have hrefs := h.refs
  have halive : o.freed = false := h.alive (by unfold accounted; omega)
  rcases disarm_cases h.toTidy with ⟨ha, heq⟩ | ⟨reg, ha, hreg, heq⟩
  · rw [heq]
    refine ⟨⟨h.slot, fun _ => rfl⟩, ?_, ?_⟩
    · simp only [accounted, List.length_append, List.length_singleton, ha] at hrefs ⊢
      omega
    · simp [halive]
  · rw [heq]
    refine ⟨⟨rfl, fun _ => rfl⟩, ?_, ?_⟩
    · simp only [accounted, List.length_append, List.length_singleton, ha, Bool.toNat_true,
        Bool.toNat_false] at hrefs ⊢
      omega
    · simp [halive]

/-- A call that ends owes its reference. -/
theorem Counted.owed_call {k : ℕ} {c : NmqCall} (h : Counted o) (hk : o.calls[k]? = some c) :
    Owed { o with calls := o.calls.eraseIdx k } := by
  have hlt : k < o.calls.length := (List.getElem?_eq_some_iff.mp hk).1
  have hrefs := h.refs
  refine ⟨⟨h.slot, h.mq⟩, ?_, h.alive (by unfold accounted; omega)⟩
  simp only [accounted, List.length_eraseIdx_of_lt hlt] at hrefs ⊢
  omega

/-- `mq_notify` succeeds only when there is no registration. -/
theorem not_notifyFails {fails : Bool} (h : o.notifyFails fails = false) :
    o.kernel = none ∧ o.hasMq = true := by
  simp only [notifyFails, Bool.or_eq_false_iff, Bool.not_eq_false'] at h
  obtain ⟨⟨-, hk⟩, hmq⟩ := h
  exact ⟨by simpa using hk, hmq⟩

/-- A registration of a signal is refused or made. -/
theorem signal_cases (o : Nmq) (fails : Bool) : o.nmqSignal fails = o ∨
    (o.kernel = none ∧ o.hasMq = true ∧ o.nmqSignal fails = { o with kernel := some .signal }) := by
  unfold nmqSignal
  split_ifs with hf
  · exact .inl rfl
  · obtain ⟨hk, hmq⟩ := not_notifyFails (by simpa using hf)
    exact .inr ⟨hk, hmq, rfl⟩

/-- A registration of a callable is refused or made. -/
theorem arm_cases (o : Nmq) (fails : Bool) :
    o.nmqArm fails = { o with
      notifyArmed := false
      notifyFn := none
      next := o.next + 1
      dropped := o.dropped ++ [o.next] } ∨
    (o.notifyFails fails = false ∧ o.nmqArm fails = { o with
      notifyArmed := true
      notifyFn := some o.next
      refs := o.refs + 1
      next := o.next + 1
      kernel := some (.thread o.next) }) := by
  unfold nmqArm
  simp only
  split_ifs with hf
  · exact .inl rfl
  · exact .inr ⟨Bool.eq_false_of_not_eq_true hf, rfl⟩

/-- The end of `nmq_close`. -/
theorem closeMq_eq (h : Tidy o) :
    o.nmqCloseMq = { o with hasMq := false, kernel := none, closed := true } := by
  unfold nmqCloseMq
  by_cases hmq : o.hasMq = true
  · simp only [if_pos hmq]
  · have hfalse : o.hasMq = false := by simpa using hmq
    simp only [if_neg hmq]
    rw [h.mq hfalse, hfalse]

/-- The end of a call keeps the account. -/
theorem Owed.finishCall {c : NmqCall} (h : Owed o) (fails : Bool)
    (harm : c = .request .callable → o.notifyArmed = false) : Owed (o.finishCall c fails) := by
  have hrefs := h.refs
  match c with
  | .request .none => exact h
  | .request .signal =>
      show Owed (o.nmqSignal fails)
      rcases signal_cases o fails with heq | ⟨-, hmq, heq⟩
      · rw [heq]
        exact h
      · rw [heq]
        exact ⟨⟨h.slot, fun hno => absurd hmq (by simpa using hno)⟩, h.refs, h.alive⟩
  | .request .callable =>
      have ha := harm rfl
      simp only [accounted, ha, Bool.toNat_false] at hrefs
      show Owed (o.nmqArm fails)
      rcases arm_cases o fails with heq | ⟨hf, heq⟩
      · rw [heq]
        exact ⟨⟨rfl, h.mq⟩, hrefs, h.alive⟩
      · have hmq := (not_notifyFails hf).2
        rw [heq]
        refine ⟨⟨rfl, fun hno => absurd hmq (by simpa using hno)⟩, ?_, h.alive⟩
        simp only [accounted, Bool.toNat_true]
        omega
  | .close =>
      show Owed o.nmqCloseMq
      rw [closeMq_eq h.toTidy]
      exact ⟨⟨h.slot, fun _ => rfl⟩, h.refs, h.alive⟩

/-- A user's reference that goes is owed. -/
theorem Counted.owed_drop (h : Counted o) (hu : o.users ≠ 0) :
    Owed { o with users := o.users - 1 } := by
  have hrefs := h.refs
  refine ⟨⟨h.slot, h.mq⟩, ?_, h.alive (by unfold accounted; omega)⟩
  simp only [accounted] at hrefs ⊢
  omega

/-- A thread that is done with its callable owes its reference. -/
theorem Counted.owed_finish {fn : ℕ} (h : Counted o) (hfn : fn ∈ o.running) :
    Owed { o with running := o.running.erase fn, dropped := o.dropped ++ [fn] } := by
  have hrefs := h.refs
  have hpos := List.length_pos_of_mem hfn
  have hlen := List.length_erase_of_mem hfn
  refine ⟨⟨h.slot, h.mq⟩, ?_, h.alive (by unfold accounted; omega)⟩
  simp only [accounted] at hrefs ⊢
  omega

/-- A thread takes over the reference of the registration whose callable it takes. -/
theorem Counted.thread (h : Counted o) (ps : List ℕ) (reg : ℕ) :
    Counted ({ o with pending := ps }.nmqNotifyThread reg) := by
  rcases thread_cases h ps reg with ⟨-, heq⟩ | ⟨-, -, heq⟩ | ⟨fn, ha, -, heq⟩
  · rw [heq]
    exact ⟨⟨h.slot, h.mq⟩, h.refs, h.freed⟩
  · rw [heq]
    exact ⟨⟨h.slot, h.mq⟩, h.refs, h.freed⟩
  · rw [heq]
    refine ⟨⟨rfl, h.mq⟩, ?_, h.freed⟩
    have hrefs := h.refs
    simp only [accounted, ha, List.length_append, List.length_singleton, Bool.toNat_true,
      Bool.toNat_false] at hrefs ⊢
    omega

/-- **The count is right after every step**, if nothing is armed twice. -/
theorem Counted.step (h : Counted o) (hs : o.step op = some o')
    (hok : ∀ k fails, op = .proceed k fails → o.calls[k]? = some (.request .callable) →
      o.notifyArmed = false) : Counted o' := by
  have hrefs := h.refs
  cases op with
  | incref =>
      simp only [Nmq.step] at hs
      split_ifs at hs with hu
      obtain rfl := Option.some.inj hs
      refine ⟨⟨h.slot, h.mq⟩, ?_, ?_⟩
      · simp only [accounted] at hrefs ⊢
        omega
      · simp [h.alive (by unfold accounted; omega)]
  | drop =>
      simp only [Nmq.step] at hs
      split_ifs at hs with hu
      obtain rfl := Option.some.inj hs
      exact (h.owed_drop hu).counted_decref
  | request target =>
      simp only [Nmq.step] at hs
      split_ifs at hs with hu hopen
      · obtain rfl := Option.some.inj hs
        exact h
      · obtain rfl := Option.some.inj hs
        exact h.disarm _ hu
  | close =>
      simp only [Nmq.step] at hs
      split_ifs at hs with hu hclosed
      · obtain rfl := Option.some.inj hs
        exact h
      · obtain rfl := Option.some.inj hs
        exact h.disarm _ hu
  | proceed k fails =>
      simp only [Nmq.step] at hs
      split at hs
      · cases hs
      · next c hc =>
          obtain rfl := Option.some.inj hs
          refine Owed.counted_decref ((h.owed_call hc).finishCall fails ?_)
          rintro rfl
          exact hok k fails rfl hc
  | deliver =>
      simp only [Nmq.step] at hs
      split at hs
      · cases hs
      · obtain rfl := Option.some.inj hs
        exact ⟨⟨h.slot, fun _ => rfl⟩, h.refs, h.freed⟩
      · obtain rfl := Option.some.inj hs
        exact ⟨⟨h.slot, fun _ => rfl⟩, h.refs, h.freed⟩
  | thread reg =>
      simp only [Nmq.step] at hs
      split_ifs at hs with hreg
      obtain rfl := Option.some.inj hs
      exact h.thread _ reg
  | finish fn =>
      simp only [Nmq.step] at hs
      split_ifs at hs with hfn
      obtain rfl := Option.some.inj hs
      exact (h.owed_finish hfn).counted_decref

/-! ## Notification threads find their object -/

/-- The reference of the registration `reg` is owed by the kernel's registration, by a delivery
whose thread has not run, or by a thread that is not done with its callable. -/
def owing (o : Nmq) (reg : ℕ) : ℕ :=
  (if o.kernel = some (.thread reg) then 1 else 0) + o.pending.count reg + o.running.count reg

/-- Every registration is where its reference is. -/
structure Tracked (o : Nmq) : Prop where
  short : o.pending.length ≤ 1
  pend : ∀ reg ∈ o.pending, o.notifyFn = some reg
  kern : ∀ reg, o.kernel = some (.thread reg) → o.notifyFn = some reg ∧ o.pending = []
  await : ∀ reg, o.notifyFn = some reg → o.kernel = some (.thread reg) ∨ reg ∈ o.pending
  once : ∀ reg, o.dropped.count reg + o.owing reg = if reg < o.next then 1 else 0
  touched : o.touched = false

/-- Nothing is disarmed between a delivery and its thread, and what arms or closes finds the
object disarmed, as it has left it. -/
def NotifySafe (o : Nmq) : NmqOp → Prop
  | .request _ => o.notifyArmed = true → o.pending = []
  | .close => o.notifyArmed = true → o.pending = []
  | .proceed k _ => o.calls[k]? = some (.request .callable) ∨ o.calls[k]? = some .close →
      o.notifyArmed = false
  | _ => True

/-- An object that is not armed has no registration and no delivery. -/
theorem Tracked.quiet (ht : Tracked o) (hfn : o.notifyFn = none) :
    o.pending = [] ∧ ∀ reg, o.kernel ≠ some (.thread reg) := by
  constructor
  · refine List.eq_nil_iff_forall_not_mem.mpr fun reg hreg => ?_
    have hsome := ht.pend reg hreg
    rw [hfn] at hsome
    cases hsome
  · intro reg hk
    have hsome := (ht.kern reg hk).1
    rw [hfn] at hsome
    cases hsome

/-- A change that leaves the registrations alone. -/
theorem Tracked.frame (ht : Tracked o) (hfn : o'.notifyFn = o.notifyFn)
    (hkernel : ∀ reg, o'.kernel = some (.thread reg) ↔ o.kernel = some (.thread reg))
    (hpending : o'.pending = o.pending) (hrunning : o'.running = o.running)
    (hdropped : o'.dropped = o.dropped) (hnext : o'.next = o.next)
    (htouched : o'.touched = o.touched) : Tracked o' where
  short := by rw [hpending]; exact ht.short
  pend := by rw [hpending, hfn]; exact ht.pend
  kern reg hk := by rw [hpending, hfn]; exact ht.kern reg ((hkernel reg).mp hk)
  await reg hr := by rw [hkernel, hpending]; exact ht.await reg (hfn ▸ hr)
  once reg := by
    have honce := ht.once reg
    simp only [owing, hkernel, hpending, hrunning, hdropped, hnext] at honce ⊢
    exact honce
  touched := htouched.trans ht.touched

/-- A dropped reference leaves the registrations where they are. -/
theorem Tracked.decref (ht : Tracked o) (h : Owed o) : Tracked o.decref := by
  rcases h.decref_cases with ⟨-, heq⟩ | ⟨hzero, k, m, hk, -, heq⟩
  · rw [heq]
    exact ht.frame rfl (fun _ => Iff.rfl) rfl rfl rfl rfl rfl
  · -- the object is not armed, so the registration that goes is not one of a callable
    have hfn : o.notifyFn = none := by
      refine fn_of_not_armed h.toTidy ?_
      unfold accounted at hzero
      cases ha : o.notifyArmed with
      | false => rfl
      | true => simp [ha] at hzero
    have hnone := (ht.quiet hfn).2
    rw [heq]
    refine ht.frame rfl (fun reg => ?_) rfl rfl rfl rfl rfl
    rcases hk with rfl | rfl
    · exact Iff.rfl
    · exact iff_of_false (by simp) (hnone reg)

/-- **`nmq_disarm`** with no delivery under way. -/
theorem Tracked.disarm (ht : Tracked o) (h : Tidy o) (c : List NmqCall) (n : ℕ)
    (hok : o.notifyArmed = true → o.pending = []) :
    Tracked { o.nmqDisarm with calls := c, refs := n } := by
  rcases disarm_cases h with ⟨ha, heq⟩ | ⟨reg, ha, hreg, heq⟩
  · have hnone := (ht.quiet (fn_of_not_armed h ha)).2
    rw [heq]
    refine ht.frame rfl (fun reg => ?_) rfl rfl rfl rfl rfl
    exact iff_of_false (by simp) (hnone reg)
  · have hpending := hok ha
    have hkernel : o.kernel = some (.thread reg) := by
      rcases ht.await reg hreg with hk | hmem
      · exact hk
      · rw [hpending] at hmem
        cases hmem
    rw [heq]
    refine ⟨by simp [hpending], by simp [hpending], by simp, by simp, fun x => ?_, ht.touched⟩
    -- the reference moves from the kernel's registration to the dropped ones
    have honce := ht.once x
    simp only [owing, hkernel, hpending, List.count_nil, List.count_append,
      Option.some.injEq, Sigev.thread.injEq, reduceCtorEq, if_false] at honce ⊢
    rw [List.count_singleton]
    simp only [beq_iff_eq]
    omega

/-- The end of a call. -/
theorem Tracked.finishCall {c : NmqCall} (ht : Tracked o) (h : Tidy o) (fails : Bool)
    (hok : c = .request .callable ∨ c = .close → o.notifyArmed = false) :
    Tracked (o.finishCall c fails) := by
  match c with
  | .request .none => exact ht
  | .request .signal =>
      show Tracked (o.nmqSignal fails)
      rcases signal_cases o fails with heq | ⟨hk, -, heq⟩
      · rw [heq]
        exact ht
      · rw [heq]
        refine ht.frame rfl (fun reg => ?_) rfl rfl rfl rfl rfl
        exact iff_of_false (by simp) (by simp [hk])
  | .request .callable =>
      obtain ⟨hpending, hnone⟩ := ht.quiet (fn_of_not_armed h (hok (.inl rfl)))
      show Tracked (o.nmqArm fails)
      rcases arm_cases o fails with heq | ⟨hf, heq⟩
      · rw [heq]
        refine ⟨ht.short, by simp [hpending], fun reg hx => absurd hx (hnone reg), by simp,
          fun x => ?_, ht.touched⟩
        have honce := ht.once x
        simp only [owing, List.count_append, List.count_singleton, beq_iff_eq] at honce ⊢
        split_ifs at honce ⊢ <;> omega
      · have hk := (not_notifyFails hf).1
        rw [heq]
        refine ⟨ht.short, by simp [hpending], ?_, by simp, fun x => ?_, ht.touched⟩
        · intro reg hx
          obtain rfl : o.next = reg := by simpa using hx
          exact ⟨rfl, hpending⟩
        · have honce := ht.once x
          simp only [owing, hk, reduceCtorEq, if_false, Option.some.injEq,
            Sigev.thread.injEq] at honce ⊢
          split_ifs at honce ⊢ <;> omega
  | .close =>
      have hnone := (ht.quiet (fn_of_not_armed h (hok (.inr rfl)))).2
      show Tracked o.nmqCloseMq
      rw [closeMq_eq h]
      refine ht.frame rfl (fun reg => ?_) rfl rfl rfl rfl rfl
      exact iff_of_false (by simp) (hnone reg)

/-- **`nmq_notify_thread`** finds the object alive and armed with its own registration. -/
theorem Tracked.thread (ht : Tracked o) (h : Counted o) (hreg : reg ∈ o.pending) :
    Tracked ({ o with pending := o.pending.erase reg }.nmqNotifyThread reg) := by
  have hfn := ht.pend reg hreg
  have hpending : o.pending = [reg] := by
    obtain ⟨x, hx⟩ := List.length_eq_one_iff.mp
      (le_antisymm ht.short (List.length_pos_of_mem hreg))
    rw [hx] at hreg ⊢
    rw [List.mem_singleton.mp hreg]
  have hnone : ∀ x, o.kernel ≠ some (.thread x) := by
    intro x hk
    have hnil := (ht.kern x hk).2
    rw [hpending] at hnil
    cases hnil
  have ha : o.notifyArmed = true := by rw [h.slot, hfn]; rfl
  rcases thread_cases h (o.pending.erase reg) reg with ⟨hf, -⟩ | ⟨-, hno, -⟩ | ⟨fn, -, hfn', heq⟩
  · rw [h.alive_of_armed ha] at hf
    cases hf
  · rw [ha] at hno
    cases hno
  · obtain rfl : reg = fn := by rw [hfn] at hfn'; exact Option.some.inj hfn'
    rw [heq]
    refine ⟨?_, ?_, fun x hk => absurd hk (hnone x), by simp, fun x => ?_, ht.touched⟩
    · simp [hpending]
    · simp [hpending]
    · have honce := ht.once x
      simp only [owing, hpending, List.erase_cons_head, List.count_nil,
        List.count_append] at honce ⊢
      omega

/-- A delivery takes the registration from the kernel to its thread. -/
theorem Tracked.deliver (ht : Tracked o) (hk : o.kernel = some (.thread reg)) :
    Tracked { o with kernel := none, pending := o.pending ++ [reg] } := by
  obtain ⟨hfn, hpending⟩ := ht.kern reg hk
  refine ⟨by simp [hpending], by simp [hpending, hfn], by simp, ?_, fun x => ?_, ht.touched⟩
  · intro x hx
    obtain rfl : reg = x := by rw [hfn] at hx; exact Option.some.inj hx
    simp
  · have honce := ht.once x
    simp only [owing, hk, hpending, List.count_nil, List.nil_append, List.count_singleton,
      Option.some.injEq, Sigev.thread.injEq, reduceCtorEq, if_false, beq_iff_eq] at honce ⊢
    omega

/-- The thread drops the reference. -/
theorem Tracked.finish {fn : ℕ} (ht : Tracked o) (hfn : fn ∈ o.running) :
    Tracked { o with running := o.running.erase fn, dropped := o.dropped ++ [fn] } := by
  refine ⟨ht.short, ht.pend, ht.kern, ht.await, fun x => ?_, ht.touched⟩
  have honce := ht.once x
  simp only [owing, List.count_append, List.count_singleton, beq_iff_eq] at honce ⊢
  by_cases hx : fn = x
  · subst hx
    have hcount := List.count_erase_self (a := fn) (l := o.running)
    have hone := List.count_pos_iff.mpr hfn
    rw [if_pos rfl]
    omega
  · rw [if_neg hx, List.count_erase_of_ne (Ne.symm hx)]
    omega

/-- **The step lemma.** -/
theorem Tracked.step (ht : Tracked o) (h : Counted o) (hok : o.NotifySafe op)
    (hs : o.step op = some o') : Tracked o' := by
  cases op with
  | incref =>
      simp only [Nmq.step] at hs
      split_ifs at hs
      obtain rfl := Option.some.inj hs
      exact ht.frame rfl (fun _ => Iff.rfl) rfl rfl rfl rfl rfl
  | drop =>
      simp only [Nmq.step] at hs
      split_ifs at hs with hu
      obtain rfl := Option.some.inj hs
      have ht1 : Tracked { o with users := o.users - 1 } :=
        ht.frame rfl (fun _ => Iff.rfl) rfl rfl rfl rfl rfl
      exact ht1.decref (h.owed_drop hu)
  | request target =>
      simp only [Nmq.step] at hs
      split_ifs at hs
      · obtain rfl := Option.some.inj hs
        exact ht
      · obtain rfl := Option.some.inj hs
        exact ht.disarm h.toTidy _ _ hok
  | close =>
      simp only [Nmq.step] at hs
      split_ifs at hs
      · obtain rfl := Option.some.inj hs
        exact ht
      · obtain rfl := Option.some.inj hs
        exact ht.disarm h.toTidy _ _ hok
  | proceed k fails =>
      simp only [Nmq.step] at hs
      split at hs
      · cases hs
      · next c hc =>
          obtain rfl := Option.some.inj hs
          have hcall : ∀ x, c = x → o.calls[k]? = some x := by
            rintro x rfl
            exact hc
          have howed := h.owed_call hc
          have ht1 : Tracked { o with calls := o.calls.eraseIdx k } :=
            ht.frame rfl (fun _ => Iff.rfl) rfl rfl rfl rfl rfl
          refine Tracked.decref (ht1.finishCall howed.toTidy fails ?_) (howed.finishCall fails ?_)
          · exact fun hx => hok (hx.imp (hcall _) (hcall _))
          · exact fun hx => hok (.inl (hcall _ hx))
  | deliver =>
      simp only [Nmq.step] at hs
      split at hs
      · cases hs
      · next hk =>
          obtain rfl := Option.some.inj hs
          refine ht.frame rfl (fun reg => ?_) rfl rfl rfl rfl rfl
          exact iff_of_false (by simp) (by simp [hk])
      · next reg hk =>
          obtain rfl := Option.some.inj hs
          exact ht.deliver hk
  | thread reg =>
      simp only [Nmq.step] at hs
      split_ifs at hs with hreg
      obtain rfl := Option.some.inj hs
      exact ht.thread h hreg
  | finish fn =>
      simp only [Nmq.step] at hs
      split_ifs at hs with hfn
      obtain rfl := Option.some.inj hs
      exact (ht.finish hfn).decref (h.owed_finish hfn)

/-- A new object has one reference. -/
theorem counted_fresh : Counted fresh := ⟨⟨rfl, by simp [fresh]⟩, rfl, by simp [fresh]⟩

/-- A new object has no registration. -/
theorem tracked_fresh : Tracked fresh :=
  ⟨by simp [fresh], by simp [fresh], by simp [fresh], by simp [fresh], by simp [fresh, owing], rfl⟩

/-- **A notification thread finds its object alive, and every reference taken by arming is dropped
once**, in every run in which nothing is disarmed between a delivery and its thread. -/
theorem notify_thread_alive (h : Run NotifySafe o) :
    o.touched = false ∧ ∀ reg < o.next, o.dropped.count reg + o.owing reg = 1 := by
  have hkept : Counted o ∧ Tracked o := by
    refine StepSystem.Run.invariant (I := fun o => Counted o ∧ Tracked o)
      ⟨counted_fresh, tracked_fresh⟩ ?_ h
    rintro o op o' ⟨hc, ht⟩ hok hs
    refine ⟨hc.step hs ?_, ht.step hc hok hs⟩
    rintro k fails rfl hk
    exact hok (.inl hk)
  refine ⟨hkept.2.touched, fun reg hreg => ?_⟩
  have honce := hkept.2.once reg
  rwa [if_pos hreg] at honce

instance (o : Nmq) (op : NmqOp) : Decidable (o.NotifySafe op) :=
  match op with
  | .request _ => inferInstanceAs (Decidable (o.notifyArmed = true → o.pending = []))
  | .close => inferInstanceAs (Decidable (o.notifyArmed = true → o.pending = []))
  | .proceed k _ => inferInstanceAs (Decidable (o.calls[k]? = some (.request .callable) ∨
      o.calls[k]? = some .close → o.notifyArmed = false))
  | .incref => isTrue trivial
  | .drop => isTrue trivial
  | .deliver => isTrue trivial
  | .thread _ => isTrue trivial
  | .finish _ => isTrue trivial

/-- The object at the end of steps that meet a condition. -/
abbrev after (Ok : Nmq → NmqOp → Prop) [∀ o op, Decidable (Ok o op)] (ops : List NmqOp) : Nmq :=
  (StepSystem.runIf Nmq.step Ok fresh ops).getD fresh

/-- Two registrations, one delivered and one cancelled by `close`, and the last reference goes. -/
def deliveredThenClosed : List NmqOp :=
  [.request .callable, .proceed 0 false, .deliver, .thread 0, .request .callable, .proceed 0 false,
    .finish 0, .close, .proceed 0 false, .drop]

theorem notify_thread_alive_closed :
    (after NotifySafe deliveredThenClosed).freed = true ∧
    (after NotifySafe deliveredThenClosed).next = 2 ∧
    (after NotifySafe deliveredThenClosed).touched = false ∧
    ∀ reg < (after NotifySafe deliveredThenClosed).next,
      (after NotifySafe deliveredThenClosed).dropped.count reg +
        (after NotifySafe deliveredThenClosed).owing reg = 1 :=
  ⟨by decide +kernel, by decide +kernel,
    notify_thread_alive (StepSystem.Run.of_isSome (by decide +kernel))⟩

/-- A registration is delivered, then cancelled and the object freed, before its thread runs. -/
def cancelledLate : List NmqOp :=
  [.request .callable, .proceed 0 false, .deliver, .request .none, .proceed 0 false, .drop,
    .thread 0]

theorem notify_thread_freed : ¬ ∀ o, Run (fun _ _ => True) o →
    o.touched = false ∧ ∀ reg < o.next, o.dropped.count reg + o.owing reg = 1 := by
  intro hall
  have hrun : Run (fun _ _ => True) (after (fun _ _ => True) cancelledLate) :=
    StepSystem.Run.of_isSome (by decide +kernel)
  exact absurd (hall _ hrun).1 (by decide +kernel)

end Nmq

end PosixIpc
