/-
# Whose callable a notification thread invokes (`nmq_notify_thread` in `py_queue.c`)

All registrations of a `NamedMessageQueue` share one armed flag and one slot for the callable.

* `Nmq.Owned` : the invariant.  A delivery whose thread has not run belongs to the registration in
  the slot or to one that has ended;
* `notify_own_callable` : a notification thread invokes the callable of its own registration, if
  no registration succeeds between a delivery and its thread.  Otherwise the late thread takes the
  callable of the new registration.
-/
import PosixIpc.MqNotify

namespace PosixIpc

namespace Nmq

variable {o o' : Nmq} {op : NmqOp} {reg : ℕ}

/-- The registrations that have come so far. -/
def Seen (o : Nmq) (reg : ℕ) : Prop :=
  o.notifyFn = some reg ∨ reg ∈ o.pending ∨ reg ∈ o.ran.map NotifyRun.reg ∨ reg ∈ o.ended

/-- A thread that runs on an armed object is the one of the registration in the slot, and the
threads that have run did what they should. -/
structure Owned (o : Nmq) : Prop where
  bound : ∀ reg, o.Seen reg → reg < o.next
  nodup : o.pending.Nodup
  ranNodup : (o.ran.map NotifyRun.reg).Nodup
  apart : ∀ reg ∈ o.pending, reg ∉ o.ran.map NotifyRun.reg
  kern : ∀ reg, o.kernel = some (.thread reg) →
    o.notifyFn = some reg ∧ reg ∉ o.pending ∧ reg ∉ o.ran.map NotifyRun.reg
  mine : o.notifyArmed = true → ∀ reg ∈ o.pending, o.notifyFn = some reg
  stale : ∀ reg ∈ o.pending, o.notifyFn = some reg ∨ reg ∈ o.ended
  live : ∀ reg, o.notifyFn = some reg → reg ∉ o.ended
  good : ∀ x ∈ o.ran, x.invoked = if x.ended then none else some x.reg

/-- The user keeps the object, nothing is armed on an armed object, and no registration succeeds
between a delivery and its thread. -/
def NotifyOwn (o : Nmq) : NmqOp → Prop
  | .drop => 1 < o.users
  | .proceed k fails => o.calls[k]? = some (.request .callable) →
      o.notifyArmed = false ∧ (o.notifyFails fails = false → o.pending = [])
  | _ => True

instance (o : Nmq) (op : NmqOp) : Decidable (o.NotifyOwn op) :=
  match op with
  | .drop => inferInstanceAs (Decidable (1 < o.users))
  | .proceed k fails => inferInstanceAs (Decidable (o.calls[k]? = some (.request .callable) →
      o.notifyArmed = false ∧ (o.notifyFails fails = false → o.pending = [])))
  | .incref => isTrue trivial
  | .request _ => isTrue trivial
  | .close => isTrue trivial
  | .deliver => isTrue trivial
  | .thread _ => isTrue trivial
  | .finish _ => isTrue trivial

/-- A change that leaves the registrations alone. -/
theorem Owned.frame (ho : Owned o) (harmed : o'.notifyArmed = o.notifyArmed)
    (hfn : o'.notifyFn = o.notifyFn)
    (hkernel : ∀ reg, o'.kernel = some (.thread reg) → o.kernel = some (.thread reg))
    (hpending : o'.pending = o.pending) (hran : o'.ran = o.ran) (hended : o'.ended = o.ended)
    (hnext : o'.next = o.next) : Owned o' where
  bound := by
    unfold Seen
    rw [hfn, hpending, hran, hended, hnext]
    exact ho.bound
  nodup := by rw [hpending]; exact ho.nodup
  ranNodup := by rw [hran]; exact ho.ranNodup
  apart := by rw [hpending, hran]; exact ho.apart
  kern reg hk := by rw [hfn, hpending, hran]; exact ho.kern reg (hkernel reg hk)
  mine := by rw [harmed, hpending, hfn]; exact ho.mine
  stale := by rw [hpending, hfn, hended]; exact ho.stale
  live := by rw [hfn, hended]; exact ho.live
  good := by rw [hran]; exact ho.good

/-- A reference goes that is not the last one. -/
theorem Owned.decref (ho : Owned o) (h : Owed o) : Owned o.decref := by
  rcases h.decref_cases with ⟨-, heq⟩ | ⟨-, k, m, hk, -, heq⟩
  · rw [heq]
    exact ho.frame rfl rfl (fun _ hx => hx) rfl rfl rfl rfl
  · rw [heq]
    refine ho.frame rfl rfl (fun reg hx => ?_) rfl rfl rfl rfl
    rcases hk with rfl | rfl
    · exact hx
    · cases hx

/-- **`nmq_disarm`** ends the registration in the slot. -/
theorem Owned.disarm (ho : Owned o) (h : Tidy o) (c : List NmqCall) (n : ℕ) :
    Owned { o.nmqDisarm with calls := c, refs := n } := by
  rcases disarm_cases h with ⟨-, heq⟩ | ⟨reg, -, hreg, heq⟩
  · rw [heq]
    exact ho.frame rfl rfl (fun _ hx => by cases hx) rfl rfl rfl rfl
  · rw [heq]
    refine ⟨?_, ho.nodup, ho.ranNodup, ho.apart, by simp, by simp, ?_, by simp, ho.good⟩
    · intro x hx
      have hseen : o.Seen x := by
        simp only [Seen, reduceCtorEq, List.mem_append, List.mem_singleton, false_or] at hx
        rcases hx with hx | hx | hx | rfl
        · exact .inr (.inl hx)
        · exact .inr (.inr (.inl hx))
        · exact .inr (.inr (.inr hx))
        · exact .inl hreg
      exact ho.bound x hseen
    · intro x hx
      refine .inr (List.mem_append.mpr ?_)
      rcases ho.stale x hx with hfn | hend
      · rw [hreg] at hfn
        exact .inr (List.mem_singleton.mpr (Option.some.inj hfn).symm)
      · exact .inl hend

/-- The end of a call. -/
theorem Owned.finishCall {c : NmqCall} (ho : Owned o) (h : Tidy o) (fails : Bool)
    (hok : c = .request .callable →
      o.notifyArmed = false ∧ (o.notifyFails fails = false → o.pending = [])) :
    Owned (o.finishCall c fails) := by
  match c with
  | .request .none => exact ho
  | .request .signal =>
      show Owned (o.nmqSignal fails)
      rcases signal_cases o fails with heq | ⟨-, -, heq⟩
      · rw [heq]
        exact ho
      · rw [heq]
        exact ho.frame rfl rfl (fun _ hx => by cases hx) rfl rfl rfl rfl
  | .request .callable =>
      obtain ⟨ha, hpending⟩ := hok rfl
      have hfn := fn_of_not_armed h ha
      have hfresh : ¬ o.Seen o.next := fun hx => absurd (ho.bound _ hx) (lt_irrefl _)
      show Owned (o.nmqArm fails)
      rcases arm_cases o fails with heq | ⟨hf, heq⟩
      · rw [heq]
        refine ⟨fun x hx => ?_, ho.nodup, ho.ranNodup, ho.apart, ?_, by simp, ?_, by simp, ho.good⟩
        · have hseen : o.Seen x := by
            unfold Seen at hx ⊢
            rw [hfn]
            exact hx
          exact Nat.lt_succ_of_lt (ho.bound x hseen)
        · intro x hk
          have hx := (ho.kern x hk).1
          rw [hfn] at hx
          cases hx
        · -- a thread that has not run belongs to a registration that has ended
          intro x hx
          rcases ho.stale x hx with hx | hend
          · rw [hfn] at hx
            cases hx
          · exact .inr hend
      · have hnil := hpending hf
        rw [heq]
        refine ⟨fun x hx => ?_, ho.nodup, ho.ranNodup, ho.apart, ?_, by simp [hnil],
          by simp [hnil], ?_, ho.good⟩
        · rcases hx with hx | hx
          · obtain rfl : o.next = x := by simpa using hx
            exact Nat.lt_succ_self _
          · exact Nat.lt_succ_of_lt (ho.bound x (.inr hx))
        · intro x hk
          obtain rfl : o.next = x := by simpa using hk
          exact ⟨rfl, fun hx => hfresh (.inr (.inl hx)), fun hx => hfresh (.inr (.inr (.inl hx)))⟩
        · intro x hx
          obtain rfl : o.next = x := by simpa using hx
          exact fun hend => hfresh (.inr (.inr (.inr hend)))
  | .close =>
      show Owned o.nmqCloseMq
      rw [closeMq_eq h]
      exact ho.frame rfl rfl (fun _ hx => by cases hx) rfl rfl rfl rfl

/-- **`nmq_notify_thread`** invokes its own callable, or none if its registration has ended. -/
theorem Owned.thread (ho : Owned o) (h : Counted o) (hu : o.users ≠ 0) (hreg : reg ∈ o.pending) :
    Owned ({ o with pending := o.pending.erase reg }.nmqNotifyThread reg) := by
  have hmem : ∀ x, x ∈ o.pending.erase reg → x ≠ reg ∧ x ∈ o.pending := by
    intro x hx
    exact (ho.nodup.mem_erase_iff).mp hx
  have hrun : ∀ y : NotifyRun, y.reg = reg → ((o.ran ++ [y]).map NotifyRun.reg).Nodup ∧
      ∀ x ∈ o.pending.erase reg, x ∉ (o.ran ++ [y]).map NotifyRun.reg := by
    intro y hy
    constructor
    · rw [List.map_append, List.nodup_append]
      refine ⟨ho.ranNodup, by simp, ?_⟩
      intro a ha b hb
      obtain rfl : b = y.reg := by simpa using hb
      rintro rfl
      exact ho.apart reg hreg (hy ▸ ha)
    · intro x hx
      rw [List.map_append, List.mem_append, not_or]
      refine ⟨ho.apart x (hmem x hx).2, ?_⟩
      simpa [hy] using (hmem x hx).1
  have hseen : ∀ (fn : Option ℕ) (y : NotifyRun) (x : ℕ), y.reg = reg →
      (fn = some x → o.notifyFn = some x) →
      (fn = some x ∨ x ∈ o.pending.erase reg ∨ x ∈ (o.ran ++ [y]).map NotifyRun.reg ∨ x ∈ o.ended) →
      x < o.next := by
    intro fn y x hy hfn hx
    refine ho.bound x ?_
    rw [List.map_append, List.mem_append] at hx
    rcases hx with hx | hx | (hx | hx) | hx
    · exact .inl (hfn hx)
    · exact .inr (.inl (hmem x hx).2)
    · exact .inr (.inr (.inl hx))
    · obtain rfl : x = reg := by simpa [hy] using hx
      exact .inr (.inl hreg)
    · exact .inr (.inr (.inr hx))
  rcases thread_cases h (o.pending.erase reg) reg with ⟨hf, -⟩ | ⟨-, ha, heq⟩ | ⟨fn, ha, hfn, heq⟩
  · rw [h.alive (by unfold accounted; omega)] at hf
    cases hf
  · -- the slot is empty: the registration of this thread has ended
    have hnone := fn_of_not_armed h.toTidy ha
    have hend : reg ∈ o.ended := by
      rcases ho.stale reg hreg with hfn | hend
      · rw [hnone] at hfn
        cases hfn
      · exact hend
    rw [heq]
    refine ⟨?_, ho.nodup.erase reg, (hrun _ rfl).1, (hrun _ rfl).2, ?_, ?_, ?_, ho.live, ?_⟩
    · exact fun x hx => hseen o.notifyFn _ x rfl id hx
    · intro x hk
      have hx := (ho.kern x hk).1
      rw [hnone] at hx
      cases hx
    · intro harmed
      rw [ha] at harmed
      cases harmed
    · exact fun x hx => ho.stale x (hmem x hx).2
    · intro y hy
      rcases List.mem_append.mp hy with hy | hy
      · exact ho.good y hy
      · obtain rfl := List.mem_singleton.mp hy
        simp [hend]
  · -- the slot holds the registration of this thread, which has not ended
    obtain rfl : reg = fn := Option.some.inj ((ho.mine ha reg hreg).symm.trans hfn)
    have hlive := ho.live reg hfn
    rw [heq]
    refine ⟨?_, ho.nodup.erase reg, (hrun _ rfl).1, (hrun _ rfl).2, ?_, by simp, ?_, by simp, ?_⟩
    · exact fun x hx => hseen none _ x rfl (fun hx => by cases hx) hx
    · intro x hk
      obtain ⟨hx, hnot, -⟩ := ho.kern x hk
      rw [hfn] at hx
      obtain rfl := Option.some.inj hx
      exact absurd hreg hnot
    · intro x hx
      obtain ⟨hne, hx⟩ := hmem x hx
      have hx' := ho.mine ha x hx
      rw [hfn] at hx'
      exact absurd (Option.some.inj hx').symm hne
    · intro y hy
      rcases List.mem_append.mp hy with hy | hy
      · exact ho.good y hy
      · obtain rfl := List.mem_singleton.mp hy
        simp [hlive]

/-- A delivery takes the registration from the kernel to its thread. -/
theorem Owned.deliver (ho : Owned o) (hk : o.kernel = some (.thread reg)) :
    Owned { o with kernel := none, pending := o.pending ++ [reg] } := by
  obtain ⟨hfn, hnot, hran⟩ := ho.kern reg hk
  have hmem : ∀ x, x ∈ o.pending ++ [reg] → x ∈ o.pending ∨ x = reg := by
    intro x hx
    simpa using hx
  refine ⟨?_, ?_, ho.ranNodup, ?_, by simp, ?_, ?_, ho.live, ho.good⟩
  · intro x hx
    rcases hx with hx | hx | hx
    · exact ho.bound x (.inl hx)
    · rcases hmem x hx with hx | rfl
      · exact ho.bound x (.inr (.inl hx))
      · exact ho.bound x (.inl hfn)
    · exact ho.bound x (.inr (.inr hx))
  · refine List.nodup_append.mpr ⟨ho.nodup, List.nodup_singleton reg, ?_⟩
    intro a ha b hb
    obtain rfl : b = reg := by simpa using hb
    rintro rfl
    exact hnot ha
  · intro x hx
    rcases hmem x hx with hx | rfl
    · exact ho.apart x hx
    · exact hran
  · intro ha x hx
    rcases hmem x hx with hx | rfl
    · exact ho.mine ha x hx
    · exact hfn
  · intro x hx
    rcases hmem x hx with hx | rfl
    · exact ho.stale x hx
    · exact .inl hfn

/-! ## Runs -/

theorem Owed.users_decref (h : Owed o) : o.decref.users = o.users := by
  rcases h.decref_cases with ⟨-, heq⟩ | ⟨-, k, m, -, -, heq⟩ <;> rw [heq]

theorem users_finishCall (h : Tidy o) (c : NmqCall) (fails : Bool) :
    (o.finishCall c fails).users = o.users := by
  match c with
  | .request .none => rfl
  | .request .signal =>
      show (o.nmqSignal fails).users = o.users
      rcases signal_cases o fails with heq | ⟨-, -, heq⟩ <;> rw [heq]
  | .request .callable =>
      show (o.nmqArm fails).users = o.users
      rcases arm_cases o fails with heq | ⟨-, heq⟩ <;> rw [heq]
  | .close =>
      show o.nmqCloseMq.users = o.users
      rw [closeMq_eq h]

/-- **The step lemma**: the user keeps a reference, and the threads run as they should. -/
theorem Owned.step (ho : Owned o) (h : Counted o) (hu : o.users ≠ 0) (hok : o.NotifyOwn op)
    (hs : o.step op = some o') : Owned o' ∧ o'.users ≠ 0 := by
  cases op with
  | incref =>
      simp only [Nmq.step] at hs
      split_ifs at hs
      obtain rfl := Option.some.inj hs
      exact ⟨ho.frame rfl rfl (fun _ hx => hx) rfl rfl rfl rfl, Nat.succ_ne_zero _⟩
  | drop =>
      simp only [Nmq.step] at hs
      split_ifs at hs
      obtain rfl := Option.some.inj hs
      have ho1 : Owned { o with users := o.users - 1 } :=
        ho.frame rfl rfl (fun _ hx => hx) rfl rfl rfl rfl
      have howed := h.owed_drop hu
      refine ⟨ho1.decref howed, ?_⟩
      rw [howed.users_decref]
      have hlt : 1 < o.users := hok
      show o.users - 1 ≠ 0
      omega
  | request target =>
      simp only [Nmq.step] at hs
      split_ifs at hs
      · obtain rfl := Option.some.inj hs
        exact ⟨ho, hu⟩
      · obtain rfl := Option.some.inj hs
        refine ⟨ho.disarm h.toTidy _ _, ?_⟩
        rcases disarm_cases h.toTidy with ⟨-, heq⟩ | ⟨reg, -, -, heq⟩ <;> rw [heq] <;> exact hu
  | close =>
      simp only [Nmq.step] at hs
      split_ifs at hs
      · obtain rfl := Option.some.inj hs
        exact ⟨ho, hu⟩
      · obtain rfl := Option.some.inj hs
        refine ⟨ho.disarm h.toTidy _ _, ?_⟩
        rcases disarm_cases h.toTidy with ⟨-, heq⟩ | ⟨reg, -, -, heq⟩ <;> rw [heq] <;> exact hu
  | proceed k fails =>
      simp only [Nmq.step] at hs
      split at hs
      · cases hs
      · next c hc =>
          obtain rfl := Option.some.inj hs
          have howed := h.owed_call hc
          have ho1 : Owned { o with calls := o.calls.eraseIdx k } :=
            ho.frame rfl rfl (fun _ hx => hx) rfl rfl rfl rfl
          have hown : c = .request .callable →
              o.notifyArmed = false ∧ (o.notifyFails fails = false → o.pending = []) := by
            rintro rfl
            exact hok hc
          have howed' := howed.finishCall fails fun hx => (hown hx).1
          refine ⟨Owned.decref (ho1.finishCall howed.toTidy fails hown) howed', ?_⟩
          rw [howed'.users_decref, users_finishCall howed.toTidy]
          exact hu
  | deliver =>
      simp only [Nmq.step] at hs
      split at hs
      · cases hs
      · obtain rfl := Option.some.inj hs
        exact ⟨ho.frame rfl rfl (fun _ hx => by cases hx) rfl rfl rfl rfl, hu⟩
      · next reg hk =>
          obtain rfl := Option.some.inj hs
          exact ⟨ho.deliver hk, hu⟩
  | thread reg =>
      simp only [Nmq.step] at hs
      split_ifs at hs with hreg
      obtain rfl := Option.some.inj hs
      refine ⟨ho.thread h hu hreg, ?_⟩
      rcases thread_cases h (o.pending.erase reg) reg with
        ⟨-, heq⟩ | ⟨-, -, heq⟩ | ⟨fn, -, -, heq⟩ <;>
        rw [heq] <;> exact hu
  | finish fn =>
      simp only [Nmq.step] at hs
      split_ifs at hs with hfn
      obtain rfl := Option.some.inj hs
      have howed := h.owed_finish hfn
      have ho1 : Owned { o with running := o.running.erase fn, dropped := o.dropped ++ [fn] } :=
        ho.frame rfl rfl (fun _ hx => hx) rfl rfl rfl rfl
      refine ⟨ho1.decref howed, ?_⟩
      rw [howed.users_decref]
      exact hu

theorem owned_fresh : Owned fresh := by
  refine ⟨?_, List.nodup_nil, List.nodup_nil, ?_, ?_, ?_, ?_, ?_, ?_⟩ <;> simp [fresh, Seen]

/-- **Notifications are one-shot and belong to their own registration**, in every run on an object
that the user keeps in which no registration succeeds between a delivery and its thread: none
has two threads, and a thread invokes the callable of its own registration, unless that was
cancelled, replaced or closed before, when it invokes none. -/
theorem notify_own_callable (h : Run NotifyOwn o) :
    (o.ran.map NotifyRun.reg).Nodup ∧
      ∀ x ∈ o.ran, x.invoked = if x.ended then none else some x.reg := by
  have hkept : Counted o ∧ Owned o ∧ o.users ≠ 0 := by
    refine StepSystem.Run.invariant (I := fun o => Counted o ∧ Owned o ∧ o.users ≠ 0)
      ⟨counted_fresh, owned_fresh, Nat.one_ne_zero⟩ ?_ h
    rintro o op o' ⟨hc, ho, hu⟩ hok hs
    refine ⟨hc.step hs ?_, ho.step hc hu hok hs⟩
    rintro k fails rfl hk
    exact (hok hk).1
  exact ⟨hkept.2.1.ranNodup, hkept.2.1.good⟩

/-- Three registrations: one delivered, one cancelled after its delivery, one delivered. -/
def threeCallables : List NmqOp :=
  [.request .callable, .proceed 0 false, .deliver, .thread 0, .finish 0,
    .request .callable, .proceed 0 false, .deliver, .request .none, .proceed 0 false, .thread 1,
    .request .callable, .proceed 0 false, .deliver, .thread 2]

theorem notify_own_callable_three :
    (after NotifyOwn threeCallables).ran =
      [⟨0, false, some 0⟩, ⟨1, true, none⟩, ⟨2, false, some 2⟩] ∧
    ((after NotifyOwn threeCallables).ran.map NotifyRun.reg).Nodup ∧
    ∀ x ∈ (after NotifyOwn threeCallables).ran, x.invoked = if x.ended then none else some x.reg :=
  ⟨by decide +kernel, notify_own_callable (StepSystem.Run.of_isSome (by decide +kernel))⟩

/-- A registration is delivered and then replaced, before its thread runs. -/
def replacedLate : List NmqOp :=
  [.request .callable, .proceed 0 false, .deliver, .request .callable, .proceed 0 false, .thread 0]

/-- The user keeps the object. -/
def Kept (o : Nmq) (op : NmqOp) : Prop := op = .drop → 1 < o.users

instance (o : Nmq) (op : NmqOp) : Decidable (o.Kept op) :=
  inferInstanceAs (Decidable (op = .drop → 1 < o.users))

theorem notify_other_callable : ¬ ∀ o, Run Kept o → (o.ran.map NotifyRun.reg).Nodup ∧
    ∀ x ∈ o.ran, x.invoked = if x.ended then none else some x.reg := by
  intro hall
  have hrun : Run Kept (after Kept replacedLate) := StepSystem.Run.of_isSome (by decide +kernel)
  exact absurd ((hall _ hrun).2 ⟨0, true, some 1⟩ (by decide +kernel)) (by decide)

end Nmq

end PosixIpc
