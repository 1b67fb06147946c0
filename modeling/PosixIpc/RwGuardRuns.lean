/-
# The lock is held as the guards say

The accounts of a read-write lock over runs of `RwWorld.step`, for threads of any processes.

* `RwWorld.Books` : the lock is held just as often as the guards and the program say;
* `rw_guards_account` : so it is in every run of careful steps, and a writer is alone;
* `books_kept_iff` : just the careful steps keep it so.
-/
import PosixIpc.RwGuards

namespace PosixIpc

/-! ## Sums over the guards -/

/-- Writing an entry moves a sum by the difference. -/
theorem sum_map_set {α M : Type} [AddCommMonoid M] (f : α → M) {l : List α} {i : ℕ} {a b : α}
    (h : l[i]? = some a) : ((l.set i b).map f).sum + f a = (l.map f).sum + f b := by
  induction l generalizing i with
  | nil => simp at h
  | cons x l ih =>
    cases i with
    | zero =>
      obtain rfl : x = a := by simpa using h
      simp only [List.set_cons_zero, List.map_cons, List.sum_cons]
      ac_rfl
    | succ i =>
      have hl := ih (i := i) (by simpa using h)
      simp only [List.set_cons_succ, List.map_cons, List.sum_cons]
      rw [add_assoc, hl, add_assoc]

namespace RwWorld

/-- The locks that the guards answer for. -/
def tickets (s : RwWorld) : Multiset RwHold := (s.guards.map RwGuard.ticket).sum

/-- **The books of the lock.** -/
structure Books (s : RwWorld) : Prop where
  account : (s.holds : Multiset RwHold) = s.direct + s.tickets
  alone : ∀ x ∈ s.holds, x.writer = true → s.holds = [x]
  defined : s.undefined = false

/-- A guard that a thread enters is there. -/
def Live (s : RwWorld) : Prop :=
  ∀ w ∈ s.waits, ∀ g, w.2 = .enter g → ∃ c, s.guards[g]? = some c ∧ c.freed = false

variable {s s' s₁ : RwWorld} {op : RwOp} {t g h : ℕ} {c c' : RwGuard}

/-- Writing a guard moves the tickets by the difference. -/
theorem tickets_setGuard (hc : s.guards[g]? = some c) :
    (s.setGuard g c').tickets + c.ticket = s.tickets + c'.ticket :=
  sum_map_set RwGuard.ticket hc

/-! ## The lock -/

/-- A thread's locks are all alike. -/
theorem Books.alike (hb : Books s) {x y : RwHold} (hx : x ∈ s.holds) (hy : y ∈ s.holds)
    (hthread : x.thread = y.thread) : x = y := by
  by_cases hxw : x.writer = true
  · rw [hb.alone x hx hxw] at hy
    exact (List.mem_singleton.mp hy).symm
  · by_cases hyw : y.writer = true
    · rw [hb.alone y hy hyw] at hx
      exact List.mem_singleton.mp hx
    · have hwriter : x.writer = y.writer := by
        rw [Bool.eq_false_of_not_eq_true hxw, Bool.eq_false_of_not_eq_true hyw]
      cases x
      cases y
      simp_all

/-- A hold that a thread gives back was one of its own. -/
theorem less_add {l : List RwHold} (hl : ∃ x ∈ l, x.thread = t) :
    ∃ x ∈ l, x.thread = t ∧ (less t l : Multiset RwHold) + {x} = l := by
  obtain ⟨x, hx, hxt⟩ := hl
  obtain ⟨y, l₁, l₂, -, hy, hl₁, hless⟩ :=
    List.exists_of_eraseP (p := fun x : RwHold => decide (x.thread = t)) hx (by simpa using hxt)
  refine ⟨y, by simp [hl₁], by simpa using hy, ?_⟩
  rw [less, hless, hl₁]
  simp only [← Multiset.coe_singleton, Multiset.coe_add, Multiset.coe_eq_coe]
  exact List.perm_append_comm.trans (@List.perm_middle _ y l₁ l₂).symm

/-- A thread without a hold gives nothing back. -/
theorem less_of_not {l : List RwHold} (hl : ¬ ∃ x ∈ l, x.thread = t) : less t l = l :=
  List.eraseP_of_forall_not fun x hx hxt => hl ⟨x, hx, by simpa using hxt⟩

/-- A lock that fewer hold. -/
theorem alone_less {l : List RwHold} (hl : ∀ x ∈ l, x.writer = true → l = [x]) :
    ∀ x ∈ less t l, x.writer = true → less t l = [x] := by
  intro x hx hw
  have hone := hl x (List.eraseP_sublist.subset hx) hw
  have hsub : (less t l).Sublist [x] := by
    rw [← hone]
    exact List.eraseP_sublist
  rcases List.sublist_singleton.mp hsub with hnil | hsingle
  · rw [hnil] at hx
    cases hx
  · exact hsingle

/-- A lock that one more holds. -/
theorem alone_lock {l : List RwHold} {x : RwHold} (ha : rwAvailable x.writer l = true) :
    ∀ y ∈ l ++ [x], y.writer = true → l ++ [x] = [y] := by
  intro y hy hw
  cases hx : x.writer with
  | true =>
    obtain rfl : l = [] := by simpa [rwAvailable, hx] using ha
    obtain rfl : y = x := by simpa using hy
    rfl
  | false =>
    -- nobody is a writer
    have hall : ∀ z ∈ l, z.writer = false := by simpa [rwAvailable, hx] using ha
    rcases List.mem_append.mp hy with hy | hy
    · simp [hall y hy] at hw
    · obtain rfl := List.mem_singleton.mp hy
      simp [hx] at hw

/-! ## The accounts -/

/-- Nothing that the books are about changes. -/
theorem Books.same (hb : Books s) (hholds : s₁.holds = s.holds) (hdirect : s₁.direct = s.direct)
    (htickets : s₁.tickets = s.tickets) (hdefined : s₁.undefined = s.undefined) : Books s₁ where
  account := by rw [hholds, hdirect, htickets, hb.account]
  alone := by rw [hholds]; exact hb.alone
  defined := hdefined.trans hb.defined

/-- **A guard lets go of a lock**: the books stay right just if the lock was its thread's and goes
back. -/
theorem Books.release_iff (hb : Books s) {k : RwHold} (hholds : s₁.holds = s.holds)
    (hdirect : s₁.direct = s.direct) (hdefined : s₁.undefined = s.undefined)
    (htickets : s₁.tickets + {k} = s.tickets) :
    Books (s₁.release t h) ↔ s₁.isOpen h = true ∧ k.thread = t := by
  have haccount : (s.holds : Multiset RwHold) = s₁.direct + s₁.tickets + {k} := by
    rw [hb.account, hdirect, add_assoc, htickets]
  have hk : k ∈ s.holds := by
    have hmem : k ∈ (s.holds : Multiset RwHold) := by simp [haccount]
    exact hmem
  by_cases hopen : s₁.isOpen h = true
  · by_cases hhas : ∃ x ∈ s.holds, x.thread = t
    · obtain ⟨x, hx, hxt, hless⟩ := less_add hhas
      have hany : (s₁.holds.any fun x => x.thread = t) = true := by simpa [hholds] using hhas
      simp only [release, hopen, if_true, unlock, hany, true_and]
      constructor
      · intro hb'
        have haccount' : (less t s.holds : Multiset RwHold) = s₁.direct + s₁.tickets := by
          rw [← hholds]
          exact hb'.account
        rw [haccount, haccount', add_right_inj, Multiset.singleton_inj] at hless
        exact hless ▸ hxt
      · intro hkt
        obtain rfl := hb.alike hx hk (hxt.trans hkt.symm)
        rw [haccount, add_left_inj] at hless
        refine ⟨?_, ?_, hdefined.trans hb.defined⟩
        · rw [← hholds] at hless
          exact hless
        · rw [hholds]
          exact alone_less hb.alone
    · have hany : (s₁.holds.any fun x => x.thread = t) = false := by
        simpa [hholds] using hhas
      simp only [release, hopen, if_true, unlock, hany, true_and]
      constructor
      · intro hb'
        exact absurd hb'.defined (by simp)
      · intro hkt
        exact absurd ⟨k, hk, hkt⟩ hhas
  · simp only [release, if_neg hopen]
    refine ⟨fun hb' => ?_, fun hk => absurd hk.1 hopen⟩
    -- the guard answers for nothing any more, and the thread still has the lock
    have haccount' := hb'.account
    rw [hholds, haccount] at haccount'
    simp at haccount'

/-- **A guard gets a lock**: the books stay right just if it had none. -/
theorem Books.lock_iff (hb : Books s) {x : RwHold} {m : Multiset RwHold}
    (htickets : s₁.tickets + m = s.tickets + {x}) (hholds : s₁.holds = s.holds ++ [x])
    (hdirect : s₁.direct = s.direct) (hdefined : s₁.undefined = s.undefined)
    (ha : rwAvailable x.writer s.holds = true) : Books s₁ ↔ m = 0 := by
  have haccount : (s₁.holds : Multiset RwHold) = s₁.direct + s₁.tickets + m := by
    rw [hholds, ← Multiset.coe_add, hb.account, hdirect, add_assoc, add_assoc, htickets]
    rfl
  constructor
  · intro hb'
    rw [hb'.account] at haccount
    simpa using haccount
  · rintro rfl
    rw [add_zero] at haccount
    exact ⟨haccount, hholds ▸ alone_lock ha, hdefined.trans hb.defined⟩

/-- A guard is forgotten: the books stay right just if it had no lock. -/
theorem Books.forget_iff (hb : Books s) {m : Multiset RwHold}
    (htickets : s₁.tickets + m = s.tickets) (hholds : s₁.holds = s.holds)
    (hdirect : s₁.direct = s.direct) (hdefined : s₁.undefined = s.undefined) :
    Books s₁ ↔ m = 0 := by
  constructor
  · intro hb'
    have haccount := hb.account
    rw [← hholds, hb'.account, ← htickets, hdirect, ← add_assoc] at haccount
    simpa using haccount
  · rintro rfl
    exact hb.same hholds hdirect (by simpa using htickets) hdefined

/-- The program lets go of a lock. -/
theorem Books.unlock_iff (hb : Books s) :
    Books { s.unlock t with direct := less t s.direct } ↔ ∃ x ∈ s.direct, x.thread = t := by
  have hsub : ∀ x ∈ s.direct, x ∈ s.holds := by
    intro x hx
    have hmem : x ∈ (s.holds : Multiset RwHold) := by simp [hb.account, hx]
    exact hmem
  by_cases hhas : ∃ x ∈ s.holds, x.thread = t
  · obtain ⟨x, hx, hxt, hless⟩ := less_add hhas
    have hany : (s.holds.any fun x => x.thread = t) = true := by simpa using hhas
    simp only [unlock, hany, if_true]
    constructor
    · intro hb'
      by_contra hdirect
      have haccount' : (less t s.holds : Multiset RwHold) = (less t s.direct : Multiset RwHold)
          + s.tickets := hb'.account
      rw [less_of_not hdirect, ← hb.account] at haccount'
      rw [haccount'] at hless
      simp at hless
    · intro hdirect
      obtain ⟨y, hy, hyt, hlessd⟩ := less_add hdirect
      obtain rfl := hb.alike hx (hsub y hy) (hxt.trans hyt.symm)
      refine ⟨?_, alone_less hb.alone, hb.defined⟩
      show (less t s.holds : Multiset RwHold) = (less t s.direct : Multiset RwHold) + s.tickets
      have haccount := hb.account
      rw [← hless, ← hlessd, add_right_comm, add_left_inj] at haccount
      exact haccount
  · have hany : (s.holds.any fun x => x.thread = t) = false := by simpa using hhas
    simp only [unlock, hany]
    constructor
    · intro hb'
      exact absurd hb'.defined (by simp)
    · rintro ⟨x, hx, hxt⟩
      exact absurd ⟨x, hsub x hx, hxt⟩ hhas

/-! ## The steps -/

/-- A guard that is held accounts for one hold. -/
theorem ticket_held {k : RwGuard} (hheld : k.held = true) (hfreed : k.freed = false) :
    k.ticket = {⟨k.thread, k.writer⟩} := by simp [RwGuard.ticket, hheld, hfreed]

/-- A guard that is not held accounts for none. -/
theorem ticket_not_held {k : RwGuard} (hheld : k.held = false) : k.ticket = 0 := by
  simp [RwGuard.ticket, hheld]

/-- `cm_enter` of a guard that gets a lock. -/
theorem Books.enter_iff (hb : Books s) (hc : s.guards[g]? = some c) (hfreed : c.freed = false)
    (ha : rwAvailable c.writer s.holds = true) :
    Books (((s.endCall t).lock ⟨t, c.writer⟩).setGuard g { c with held := true, thread := t }) ↔
      c.held = false := by
  have hsum : (((s.endCall t).lock ⟨t, c.writer⟩).setGuard g
      { c with held := true, thread := t }).tickets + c.ticket
        = s.tickets + {⟨t, c.writer⟩} := by
    rw [tickets_setGuard (by exact hc), ticket_held (k := { c with held := true, thread := t }) rfl
      hfreed]
    rfl
  rw [hb.lock_iff hsum rfl rfl rfl ha]
  cases hheld : c.held with
  | true => simp [ticket_held hheld hfreed]
  | false => simp [ticket_not_held hheld]

/-- `cm_exit` and `cm_dealloc` of a guard with a lock. -/
theorem Books.exit_iff (hb : Books s) (hc : s.guards[g]? = some c) (hheld : c.held = true)
    (hfreed : c.freed = false) (freed : Bool) :
    Books ((s.setGuard g { c with held := false, freed := freed }).release t c.rwlock) ↔
      s.isOpen c.rwlock = true ∧ c.thread = t := by
  refine hb.release_iff (k := ⟨c.thread, c.writer⟩) rfl rfl rfl ?_
  have hsum : (s.setGuard g { c with held := false, freed := freed }).tickets + c.ticket
      = s.tickets + RwGuard.ticket { c with held := false, freed := freed } :=
    tickets_setGuard hc
  rw [ticket_held hheld hfreed, ticket_not_held rfl, add_zero] at hsum
  exact hsum

/-- A call that is under way is the first of its thread. -/
theorem mem_waits {r : RwCall} (hr : s.waitOf t = some r) : (t, r) ∈ s.waits := by
  obtain ⟨⟨t', r'⟩, hw, rfl⟩ := Option.map_eq_some_iff.mp hr
  have ht : t' = t := by simpa using List.find?_some hw
  exact ht ▸ List.mem_of_find?_eq_some hw

/-- **Just the careful steps keep the books right.** -/
theorem Books.step_iff (hb : Books s) (hlive : Live s) (hstep : s.step op = some s') :
    Books s' ↔ s.careful op = true := by
  cases op with
  | attach =>
    simp only [step, Option.ite_none_left_eq_some, Option.some.injEq] at hstep
    exact iff_of_true (hstep.2 ▸ hb.same rfl rfl rfl rfl) rfl
  | new h writer =>
    simp only [step, Option.ite_none_right_eq_some, Option.some.injEq] at hstep
    refine iff_of_true (hstep.2 ▸ hb.same rfl rfl ?_ rfl) rfl
    simp [tickets, RwGuard.ticket]
  | enter t g =>
    simp only [step] at hstep
    cases hc : s.guards[g]? with
    | none => simp [hc] at hstep
    | some c =>
      simp only [hc] at hstep
      split_ifs at hstep
      all_goals exact iff_of_true (Option.some.inj hstep ▸ hb.same rfl rfl rfl rfl) rfl
  | acquire t h writer =>
    simp only [step] at hstep
    split_ifs at hstep
    all_goals exact iff_of_true (Option.some.inj hstep ▸ hb.same rfl rfl rfl rfl) rfl
  | grant t =>
    simp only [step] at hstep
    cases hr : s.waitOf t with
    | none => simp [hr] at hstep
    | some r =>
      cases r with
      | enter g =>
        obtain ⟨c, hc, hfreed⟩ := hlive _ (mem_waits hr) g rfl
        simp only [hr, hc, Option.ite_none_right_eq_some, Option.some.injEq] at hstep
        obtain ⟨ha, rfl⟩ := hstep
        rw [hb.enter_iff hc hfreed ha]
        simp [careful, hr, hc]
      | acquire writer =>
        simp only [hr, Option.ite_none_right_eq_some, Option.some.injEq] at hstep
        obtain ⟨ha, rfl⟩ := hstep
        refine iff_of_true ⟨?_, alone_lock ha, hb.defined⟩ (by simp [careful, hr])
        show ((s.holds ++ [⟨t, writer⟩] : List RwHold) : Multiset RwHold)
          = ((s.direct ++ [⟨t, writer⟩] : List RwHold) : Multiset RwHold) + s.tickets
        rw [← Multiset.coe_add, ← Multiset.coe_add, hb.account, add_right_comm]
  | giveUp t =>
    simp only [step, Option.ite_none_right_eq_some, Option.some.injEq] at hstep
    exact iff_of_true (hstep.2 ▸ hb.same rfl rfl rfl rfl) rfl
  | exit t g =>
    simp only [step] at hstep
    cases hc : s.guards[g]? with
    | none => simp [hc] at hstep
    | some c =>
      simp only [hc] at hstep
      split_ifs at hstep with hidle hheld
      · obtain rfl := Option.some.inj hstep
        have hfreed : c.freed = false := by simpa using fun hf => hidle (Or.inl hf)
        rw [hb.exit_iff hc hheld hfreed]
        simp [careful, hc, hheld]
      · exact iff_of_true (Option.some.inj hstep ▸ hb) (by simpa [careful, hc] using Or.inl hheld)
  | release t h =>
    simp only [step] at hstep
    split_ifs at hstep with hidle hopen
    · obtain rfl := Option.some.inj hstep
      rw [hb.unlock_iff]
      simp [careful, hopen]
    · exact iff_of_true (Option.some.inj hstep ▸ hb) (by simp [careful, hopen])
  | drop t g cleared =>
    simp only [step] at hstep
    cases hc : s.guards[g]? with
    | none => simp [hc] at hstep
    | some c =>
      simp only [hc] at hstep
      split_ifs at hstep with hidle hheld
      · obtain rfl := Option.some.inj hstep
        have hfreed : c.freed = false := by simpa using fun hf => hidle (Or.inl hf)
        simp only [Bool.and_eq_true, Bool.not_eq_true'] at hheld
        rw [hb.exit_iff hc hheld.1 hfreed]
        simp [careful, hc, hheld]
      · obtain rfl := Option.some.inj hstep
        have hfreed : c.freed = false := by simpa using fun hf => hidle (Or.inl hf)
        have hsum : (s.setGuard g { c with freed := true }).tickets + c.ticket = s.tickets := by
          rw [tickets_setGuard hc]
          simp [RwGuard.ticket]
        rw [hb.forget_iff hsum rfl rfl rfl]
        cases hh : c.held with
        | true =>
          have hcleared : cleared = true := by simpa [hh] using hheld
          simp [ticket_held hh hfreed, careful, hc, hh, hcleared]
        | false => simp [ticket_not_held hh, careful, hc, hh]
  | close h =>
    simp only [step] at hstep
    cases ho : s.handles[h]? with
    | none => simp [ho] at hstep
    | some o =>
      simp only [ho, Option.some.injEq] at hstep
      subst hstep
      cases hclosed : o.closed with
      | true =>
        exact iff_of_true (by simpa [close, hclosed] using hb) (by simp [careful, ho, hclosed])
      | false =>
        -- an owned lock is destroyed, which must not be in use
        have hundefined : (s.close h o).undefined
            = (o.owns && !(s.holds.isEmpty && s.waits.isEmpty)) := by
          simp [close, hclosed, hb.defined]
        have hkeep : Books (s.close h o) ↔ (s.close h o).undefined = false := by
          refine ⟨fun hb' => hb'.defined, fun hu => ⟨?_, ?_, hu⟩⟩
          · simpa [close, hclosed, tickets] using hb.account
          · simpa [close, hclosed] using hb.alone
        rw [hkeep, hundefined]
        simp only [careful, ho, Option.all_some, hclosed]
        cases o.owns <;> simp

section Calls

variable (s : RwWorld) (t h : ℕ)

@[simp] theorem unlock_guards : (s.unlock t).guards = s.guards := by
  unfold unlock
  split <;> rfl

@[simp] theorem unlock_waits : (s.unlock t).waits = s.waits := by
  unfold unlock
  split <;> rfl

@[simp] theorem release_guards : (s.release t h).guards = s.guards := by
  unfold release
  split
  · exact unlock_guards s t
  · rfl

@[simp] theorem release_waits : (s.release t h).waits = s.waits := by
  unfold release
  split
  · exact unlock_waits s t
  · rfl

@[simp] theorem close_guards (o : RwHandle) : (s.close h o).guards = s.guards := by
  unfold close
  split <;> rfl

@[simp] theorem close_waits (o : RwHandle) : (s.close h o).waits = s.waits := by
  unfold close
  split <;> rfl

end Calls

/-- No call begins, and the guards stay. -/
theorem Live.keep (hlive : Live s) (hwaits : ∀ w ∈ s₁.waits, w ∈ s.waits)
    (hguards : ∀ (g : ℕ) (c : RwGuard), s.guards[g]? = some c → s₁.guards[g]? = some c) :
    Live s₁ := by
  intro w hw g hg
  obtain ⟨c, hc, hf⟩ := hlive w (hwaits w hw) g hg
  exact ⟨c, hguards g c hc, hf⟩

/-- No call begins, and one guard changes, which no thread is entering if it is freed. -/
theorem Live.set (hlive : Live s) (hc : s.guards[g]? = some c)
    (hwaits : ∀ w ∈ s₁.waits, w ∈ s.waits) (hguards : s₁.guards = s.guards.set g c')
    (hcase : c'.freed = c.freed ∨ ¬ ∃ w ∈ s.waits, w.2 = RwCall.enter g) : Live s₁ := by
  intro w hw j hj
  obtain ⟨a, ha, hf⟩ := hlive w (hwaits w hw) j hj
  rw [hguards]
  by_cases hjg : j = g
  · subst hjg
    obtain rfl : c = a := by simpa [hc] using ha
    have hfreed := hcase.resolve_right fun hno => hno ⟨w, hwaits w hw, hj⟩
    exact ⟨c', List.getElem?_set_self (List.getElem?_eq_some_iff.mp hc).1, hfreed.trans hf⟩
  · exact ⟨a, by rw [List.getElem?_set_ne (Ne.symm hjg), ha], hf⟩

/-- The calls that wait on were waiting before. -/
theorem mem_endCall {w : ℕ × RwCall} (hw : w ∈ (s.endCall t).waits) : w ∈ s.waits :=
  (List.mem_filter.mp hw).1

/-- A guard that a thread enters stays. -/
theorem Live.step (hlive : Live s) (hstep : s.step op = some s') : Live s' := by
  cases op with
  | attach =>
    simp only [RwWorld.step, Option.ite_none_left_eq_some, Option.some.injEq] at hstep
    exact hstep.2 ▸ hlive.keep (fun w hw => hw) fun g c hc => hc
  | new h writer =>
    simp only [RwWorld.step, Option.ite_none_right_eq_some, Option.some.injEq] at hstep
    refine hstep.2 ▸ hlive.keep (fun w hw => hw) fun g c hc => ?_
    rw [List.getElem?_append_left (List.getElem?_eq_some_iff.mp hc).1, hc]
  | enter t g =>
    simp only [RwWorld.step] at hstep
    cases hc : s.guards[g]? with
    | none => simp [hc] at hstep
    | some c =>
      simp only [hc] at hstep
      split_ifs at hstep with hidle
      · obtain rfl := Option.some.inj hstep
        intro w hw j hj
        rcases List.mem_append.mp hw with hw | hw
        · exact hlive w hw j hj
        · obtain rfl := List.mem_singleton.mp hw
          obtain rfl : g = j := by simpa using hj
          exact ⟨c, hc, by simpa using fun hf => hidle (Or.inl hf)⟩
      · exact Option.some.inj hstep ▸ hlive
  | acquire t h writer =>
    simp only [RwWorld.step] at hstep
    split_ifs at hstep
    · obtain rfl := Option.some.inj hstep
      intro w hw j hj
      rcases List.mem_append.mp hw with hw | hw
      · exact hlive w hw j hj
      · rw [List.mem_singleton.mp hw] at hj
        cases hj
    · exact Option.some.inj hstep ▸ hlive
  | grant t =>
    simp only [RwWorld.step] at hstep
    cases hr : s.waitOf t with
    | none => simp [hr] at hstep
    | some r =>
      cases r with
      | enter g =>
        cases hc : s.guards[g]? with
        | none => simp [hr, hc] at hstep
        | some c =>
          simp only [hr, hc, Option.ite_none_right_eq_some, Option.some.injEq] at hstep
          exact hstep.2 ▸ hlive.set hc (fun w hw => mem_endCall hw) rfl (Or.inl rfl)
      | acquire writer =>
        simp only [hr, Option.ite_none_right_eq_some, Option.some.injEq] at hstep
        exact hstep.2 ▸ hlive.keep (fun w hw => mem_endCall hw) fun g c hc => hc
  | giveUp t =>
    simp only [RwWorld.step, Option.ite_none_right_eq_some, Option.some.injEq] at hstep
    exact hstep.2 ▸ hlive.keep (fun w hw => mem_endCall hw) fun g c hc => hc
  | exit t g =>
    simp only [RwWorld.step] at hstep
    cases hc : s.guards[g]? with
    | none => simp [hc] at hstep
    | some c =>
      simp only [hc] at hstep
      split_ifs at hstep
      · obtain rfl := Option.some.inj hstep
        exact hlive.set hc (fun w hw => by simpa [setGuard] using hw) (release_guards _ _ _)
          (Or.inl rfl)
      · exact Option.some.inj hstep ▸ hlive
  | release t h =>
    simp only [RwWorld.step] at hstep
    split_ifs at hstep
    · obtain rfl := Option.some.inj hstep
      exact hlive.keep (fun w hw => by simpa using hw) fun g c hc => by simpa using hc
    · exact Option.some.inj hstep ▸ hlive
  | drop t g cleared =>
    simp only [RwWorld.step] at hstep
    cases hc : s.guards[g]? with
    | none => simp [hc] at hstep
    | some c =>
      simp only [hc] at hstep
      split_ifs at hstep with hidle
      · obtain rfl := Option.some.inj hstep
        exact hlive.set hc (fun w hw => by simpa [setGuard] using hw) (release_guards _ _ _)
          (Or.inr fun hw => hidle (Or.inr (Or.inr hw)))
      · obtain rfl := Option.some.inj hstep
        exact hlive.set hc (fun w hw => hw) rfl (Or.inr fun hw => hidle (Or.inr (Or.inr hw)))
  | close h =>
    simp only [RwWorld.step] at hstep
    cases ho : s.handles[h]? with
    | none => simp [ho] at hstep
    | some o =>
      simp only [ho, Option.some.injEq] at hstep
      exact hstep ▸ hlive.keep (fun w hw => by simpa using hw) fun g c hc => by simpa using hc

/-! ## Runs -/

/-- A run of careful steps. -/
abbrev Run (owns : Bool) (s : RwWorld) : Prop :=
  StepSystem.Run step (start owns) (fun s op => s.careful op = true) s

/-- At the start there are no holds. -/
theorem books_start {owns : Bool} : Books (start owns) ∧ Live (start owns) := by
  refine ⟨⟨rfl, fun x hx => ?_, rfl⟩, fun w hw => ?_⟩
  · simp [start] at hx
  · simp [start] at hw

/-- The books after every careful run. -/
theorem books_of_run {owns : Bool} (hrun : Run owns s) : Books s ∧ Live s := by
  refine StepSystem.Run.invariant (I := fun s => Books s ∧ Live s) books_start ?_ hrun
  rintro s op s' ⟨hb, hlive⟩ hok hs
  exact ⟨(hb.step_iff hlive hs).mpr hok, hlive.step hs⟩

/-- Guards that have no lock answer for nothing. -/
theorem tickets_eq_zero (hguards : ∀ c ∈ s.guards, c.held = true → c.freed = true) :
    s.tickets = 0 := by
  refine List.sum_eq_zero fun m hm => ?_
  obtain ⟨c, hc, rfl⟩ := List.mem_map.mp hm
  cases hheld : c.held with
  | true => simp [RwGuard.ticket, hguards c hc hheld]
  | false => exact ticket_not_held hheld

/-- **The lock is held as the guards say**, in every run of careful steps: each thread has it just
as often as its guards and the program answer for, a writer has it alone, it is never unlocked by a
thread that does not hold it nor destroyed in use, and it is free when all guards are left. -/
theorem rw_guards_account {owns : Bool} (hrun : Run owns s) :
    (s.holds : Multiset RwHold) = s.direct + s.tickets ∧
    (∀ x ∈ s.holds, x.writer = true → s.holds = [x]) ∧ s.undefined = false ∧
    (s.direct = [] → (∀ c ∈ s.guards, c.held = true → c.freed = true) → s.holds = []) := by
  have hb := (books_of_run hrun).1
  refine ⟨hb.account, hb.alone, hb.defined, fun hdirect hguards => ?_⟩
  have haccount := hb.account
  rw [hdirect, tickets_eq_zero hguards] at haccount
  simpa using haccount

/-- A run that tests each step before it takes it. -/
def after (ops : List RwOp) : RwWorld :=
  (StepSystem.runIf step (fun s op => s.careful op = true) (start false) ops).getD (start false)

/-- Two readers with guards and a reader without one, a writer that waits for them, and a handle
that is closed. -/
def readersThenWriter : List RwOp :=
  [.attach, .new 0 false, .new 1 false, .new 1 true, .enter 1 0, .grant 1, .enter 2 1, .grant 2,
    .acquire 3 0 false, .grant 3, .enter 4 2, .exit 1 0, .drop 2 1 false, .release 3 0, .close 0,
    .grant 4]

theorem rw_guards_account_writer :
    (after readersThenWriter).holds = [⟨4, true⟩] ∧
    ((after readersThenWriter).holds : Multiset RwHold)
      = (after readersThenWriter).direct + (after readersThenWriter).tickets ∧
    (∀ x ∈ (after readersThenWriter).holds, x.writer = true →
      (after readersThenWriter).holds = [x]) ∧
    (after readersThenWriter).undefined = false ∧
    ((after readersThenWriter).direct = [] →
      (∀ c ∈ (after readersThenWriter).guards, c.held = true → c.freed = true) →
      (after readersThenWriter).holds = []) :=
  ⟨by decide +kernel, rw_guards_account (StepSystem.Run.of_isSome (by decide +kernel))⟩

/-- **Just the careful steps keep the books right**: entering a guard that has the lock, leaving it
from another thread, with the handle closed or through the garbage collector, releasing what a
guard holds, and closing a lock in use do not. -/
theorem books_kept_iff {owns : Bool} (hrun : Run owns s) (hstep : s.step op = some s') :
    Books s' ↔ s.careful op = true :=
  (books_of_run hrun).1.step_iff (books_of_run hrun).2 hstep

/-- A guard that is entered twice by its thread. -/
def enteredTwice : List RwOp := [.new 0 false, .enter 1 0, .grant 1, .enter 1 0]

/-- The second lock of the guard stays for good: it has one, and the thread has two. -/
theorem books_kept_iff_twice :
    ((after enteredTwice).step (.grant 1)).map holds = some [⟨1, false⟩, ⟨1, false⟩] ∧
    (Books (((after enteredTwice).step (.grant 1)).getD (start false)) ↔
      (after enteredTwice).careful (.grant 1) = true) ∧
    (after enteredTwice).careful (.grant 1) = false :=
  ⟨by decide +kernel, books_kept_iff (StepSystem.Run.of_isSome (by decide +kernel))
    (by decide +kernel), by decide +kernel⟩

end RwWorld

end PosixIpc
