/-
# Signals during a blocking call (`py_wait.c` and its callers)

Two runs of an interruptible call that differ in signals only: the second has more passes in
which the wrapped call was interrupted (`EINTR`) and the Python handler returned.  The
helper goes on after such a pass if the callback translates `EINTR`; otherwise the code
travels to the method.

* `Interrupted` : the second run's passes, from the first run's;
* `interrupted_cases` : either every signal is passed over, and the wait ends as without
  them, or the wait ends with a signal;
* `signals_invisible_iff` : the same for whole calls of all operations;
* `signal_breaks_acquire` : a semaphore whose `acquire` a signal ends.
-/
import PosixIpc.BlockingWait

namespace PosixIpc

/-! ## Passes with a signal -/

/-- The wrapped call was interrupted, and the handler returned. -/
def Round.Signal (r : Round) : Prop := r.raw = .eintr ∧ r.raises = false

instance (r : Round) : Decidable r.Signal :=
  inferInstanceAs (Decidable (r.raw = .eintr ∧ r.raises = false))

/-- The helper goes on after this pass. -/
def Round.Passes (cb : Rc → Rc) (user : Option Deadline) (r : Round) : Prop :=
  cb r.raw = .etimedout ∧ r.raises = false ∧ ∀ d ∈ user, ¬ d.Reached r.check

instance (cb : Rc → Rc) (user : Option Deadline) (r : Round) : Decidable (r.Passes cb user) :=
  inferInstanceAs (Decidable
    (cb r.raw = .etimedout ∧ r.raises = false ∧ ∀ d ∈ user, ¬ d.Reached r.check))

/-- The passes of two runs: the second has more signals.  None comes after the last pass of
the first run. -/
inductive Interrupted : List Round → List Round → Prop
  | nil : Interrupted [] []
  | keep (r : Round) {rs rs' : List Round} (h : Interrupted rs rs') :
      Interrupted (r :: rs) (r :: rs')
  | signal {i r : Round} {rs rs' : List Round} (hi : i.Signal) (h : Interrupted (r :: rs) rs') :
      Interrupted (r :: rs) (i :: rs')

/-- Without slices there is nothing to interrupt. -/
theorem Interrupted.of_nil {rs' : List Round} (h : Interrupted [] rs') : rs' = [] := by
  cases h
  rfl

section Helper

variable {cb : Rc → Rc} {user : Option Deadline} {r : Round} {rs rs' : List Round}

/-- A slice that passes is passed over. -/
theorem blockingWait_of_passes (h : r.Passes cb user) (rs : List Round) :
    posixipcBlockingWait cb user true (r :: rs) = posixipcBlockingWait cb user true rs := by
  obtain ⟨hcb, hsig, hd⟩ := h
  cases user with
  | none => simp [posixipcBlockingWait, hcb, hsig]
  | some d => simp [posixipcBlockingWait, hcb, hsig, hd d rfl]

/-- The helper returns in a pass that it does not pass over. -/
theorem blockingWait_of_not_passes (h : ¬ r.Passes cb user) (rs : List Round) :
    ∃ rc, posixipcBlockingWait cb user true (r :: rs) = some (rc, r) ∧
      (r.Signal → rc = cb .eintr) := by
  by_cases hcb : cb r.raw = .etimedout
  · cases hsig : r.raises with
    | true =>
        refine ⟨.interrupted, ?_, fun hs => by simp [hs.2] at hsig⟩
        simp [posixipcBlockingWait, hcb, hsig]
    | false =>
        cases user with
        | none => exact absurd ⟨hcb, hsig, by simp⟩ h
        | some d =>
            by_cases hd : d.Reached r.check
            · refine ⟨.etimedout, by simp [posixipcBlockingWait, hcb, hsig, hd], fun hs => ?_⟩
              rw [← hs.1, hcb]
            · refine absurd ⟨hcb, hsig, ?_⟩ h
              intro d' hd'
              obtain rfl : d = d' := by simpa using hd'
              exact hd
  · exact ⟨cb r.raw, by simp [posixipcBlockingWait, hcb], fun hs => by rw [hs.1]⟩

/-- A wait that goes on has passed its first slice. -/
theorem passes_of_none (h : posixipcBlockingWait cb user true (r :: rs) = none) :
    r.Passes cb user := by
  by_contra hnot
  obtain ⟨rc, hrc, -⟩ := blockingWait_of_not_passes hnot rs
  rw [hrc] at h
  exact absurd h (by simp)

/-- **A wait with more signals** ends as without them if they are all passed over, and with a
signal otherwise. -/
theorem interrupted_cases (h : Interrupted rs rs')
    (htight : posixipcBlockingWait cb user true rs.dropLast = none) :
    ((∀ r ∈ rs', r.Signal → r.Passes cb user) ∧
        posixipcBlockingWait cb user true rs' = posixipcBlockingWait cb user true rs ∧
        ∀ x, posixipcBlockingWait cb user true rs' = some x → ¬ x.2.Signal) ∨
      ((¬ ∀ r ∈ rs', r.Signal → r.Passes cb user) ∧
        ∃ r, posixipcBlockingWait cb user true rs' = some (cb .eintr, r) ∧ r.Signal) := by
  -- over the second run; what its head is decides the pass
  have hcons : ∀ {q : Round} {qs : List Round}, (q.Signal → q.Passes cb user) →
      ((∀ r ∈ q :: qs, r.Signal → r.Passes cb user) ↔
        ∀ r ∈ qs, r.Signal → r.Passes cb user) := by
    intro q qs hq
    rw [List.forall_mem_cons]
    exact and_iff_right hq
  have hend : ∀ {q : Round} (qs : List Round), q.Signal → ¬ q.Passes cb user →
      (¬ ∀ r ∈ q :: qs, r.Signal → r.Passes cb user) ∧
        ∃ r, posixipcBlockingWait cb user true (q :: qs) = some (cb .eintr, r) ∧ r.Signal := by
    intro q qs hq hp
    obtain ⟨rc, hrc, hcode⟩ := blockingWait_of_not_passes hp qs
    refine ⟨fun hall => hp (hall q (by simp) hq), q, ?_, hq⟩
    rw [hrc, hcode hq]
  induction h with
  | nil => exact Or.inl ⟨by simp, rfl, by simp [posixipcBlockingWait]⟩
  | @keep q qs qs' h ih =>
      by_cases hp : q.Passes cb user
      · rw [hcons fun _ => hp, blockingWait_of_passes hp, blockingWait_of_passes hp]
        cases qs with
        | nil => exact ih rfl
        | cons s ss =>
            rw [List.dropLast_cons_cons, blockingWait_of_passes hp] at htight
            exact ih htight
      · cases qs with
        | nil =>
            obtain rfl := h.of_nil
            by_cases hq : q.Signal
            · exact Or.inr (hend [] hq hp)
            · refine Or.inl ⟨by simpa using fun hs => absurd hs hq, rfl, ?_⟩
              intro x hx
              obtain ⟨rc, hrc, -⟩ := blockingWait_of_not_passes hp []
              rw [hrc] at hx
              obtain rfl := Option.some.inj hx
              exact hq
        | cons s ss =>
            rw [List.dropLast_cons_cons] at htight
            exact absurd (passes_of_none htight) hp
  | @signal i q qs qs' hi h ih =>
      by_cases hp : i.Passes cb user
      · rw [hcons fun _ => hp, blockingWait_of_passes hp]
        exact ih htight
      · exact Or.inr (hend qs' hi hp)

end Helper

/-! ## Calls -/

/-- Two waits that differ in signals. -/
structure Wait.Interrupted (w w' : Wait) : Prop where
  entry : w'.entry = w.entry
  untimed : w'.untimed = w.untimed
  rounds : PosixIpc.Interrupted w.rounds w'.rounds

/-- Two passes of a queue that differ in signals. -/
structure Pass.Interrupted (p p' : Pass) : Prop where
  ready : p'.ready = p.ready
  relock : p'.relock = p.relock
  wait : p.wait.Interrupted p'.wait

/-- Two calls that differ in signals. -/
structure Script.Interrupted (sc sc' : Script) : Prop where
  first : sc'.first = sc.first
  changed : sc'.changed = sc.changed
  wait : sc.wait.Interrupted sc'.wait
  passes : List.Forall₂ Pass.Interrupted sc.passes sc'.passes

section Tight

variable (c : ClockSet) (op : BlockingOp) (o : AcquireOpts)

/-- The wait returns in its last pass, or goes on after it. -/
def Wait.Tight (w : Wait) : Prop :=
  posixipcBlockingWait op.callback (w.user c op o) true w.rounds.dropLast = none

/-- A pass of a queue that does not wait has no passes of a wait. -/
structure Pass.Tight (p : Pass) : Prop where
  wait : p.wait.Tight c op o
  idle : p.ready = true ∨ o.noWait = true → p.wait.rounds = []

/-- The script has nothing that the call does not meet. -/
def Script.Tight (sc : Script) : Prop :=
  if op = .queue ∨ op = .futexQueue then
    sc.wait.rounds = [] ∧ (sc.first ≠ .ok → sc.passes = []) ∧
      op.queueLoop c o sc.passes.dropLast = none ∧ ∀ p ∈ sc.passes, p.Tight c op o
  else
    sc.passes = [] ∧ sc.wait.Tight c op o ∧ (op.lastWait o sc = none → sc.wait.rounds = [])

/-- Every signal is passed over: the callback translates `EINTR`, and the clock has not reached
the user's deadline when the handler has returned. -/
def Wait.Invisible (w : Wait) : Prop :=
  ∀ r ∈ w.rounds, r.Signal → r.Passes op.callback (w.user c op o)

/-- The second call ends as the first, and not with a signal. -/
def SameEnd (x y : Option (CallEnd × WaitInfo)) : Prop :=
  y.map Prod.fst = x.map Prod.fst ∧ ∀ e info, y = some (e, info) → ∀ z ∈ info, ¬ z.2.Signal

/-- The additional signals of the second call do not show. -/
def SignalsInvisible (sc sc' : Script) : Prop := SameEnd (op.call c o sc) (op.call c o sc')

end Tight

section Calls

variable {c : ClockSet} {op : BlockingOp} {o : AcquireOpts}

/-- A signal does not move the deadline. -/
theorem Wait.Interrupted.user {w w' : Wait} (h : w.Interrupted w') :
    w'.user c op o = w.user c op o := by
  unfold Wait.user
  rw [h.entry]

/-- A signal in a wait that did not take place is not seen. -/
theorem Wait.Interrupted.invisible_of_nil {w w' : Wait} (h : w.Interrupted w')
    (hnil : w.rounds = []) : w'.Invisible c op o := by
  have hr := h.rounds
  rw [hnil] at hr
  simp [Wait.Invisible, hr.of_nil]

/-- An interruptible wait is the helper. -/
theorem waitOnce_interruptible (hint : o.interruptible = true) (hpos : 0 ≤ o.timeout) (w : Wait) :
    op.waitOnce c o w =
      (posixipcBlockingWait op.callback (w.user c op o) true w.rounds).map
        fun x => (x.1, some (w.user c op o, x.2)) := by
  rw [waitOnce_eq hpos]
  simp [hint]

/-- One wait of two runs. -/
theorem waitOnce_cases {w w' : Wait} (hint : o.interruptible = true) (hpos : 0 ≤ o.timeout)
    (h : w.Interrupted w') (ht : w.Tight c op o) :
    (w'.Invisible c op o ∧ op.waitOnce c o w' = op.waitOnce c o w ∧
        ∀ rc info, op.waitOnce c o w' = some (rc, info) → ∀ z ∈ info, ¬ z.2.Signal) ∨
      (¬ w'.Invisible c op o ∧
        ∃ z, op.waitOnce c o w' = some (op.callback .eintr, some z) ∧ z.2.Signal) := by
  unfold Wait.Invisible
  rw [waitOnce_interruptible hint hpos, waitOnce_interruptible hint hpos, h.user]
  rcases interrupted_cases h.rounds ht with ⟨hall, heq, hnot⟩ | ⟨hall, r, hr, hsig⟩
  · refine Or.inl ⟨hall, by rw [heq], ?_⟩
    intro rc info hx z hz
    obtain ⟨y, hy, hye⟩ := Option.map_eq_some_iff.mp hx
    obtain ⟨-, rfl⟩ := Prod.mk.inj hye
    obtain rfl := Option.some.inj hz
    exact hnot y hy
  · exact Or.inr ⟨hall, (w.user c op o, r), by rw [hr]; rfl, hsig⟩

/-- **One wait** ends in the same way if and only if its signals are passed over. -/
theorem finishWait_iff {w w' : Wait} (hint : o.interruptible = true) (hpos : 0 ≤ o.timeout)
    (h : w.Interrupted w') (ht : w.Tight c op o) :
    SameEnd (op.finishWait c o w) (op.finishWait c o w') ↔ w'.Invisible c op o := by
  unfold BlockingOp.finishWait
  rcases waitOnce_cases hint hpos h ht with ⟨hinv, heq, hnot⟩ | ⟨hinv, z, hz, hsig⟩
  · refine iff_of_true ⟨by rw [heq], ?_⟩ hinv
    intro e info hx
    obtain ⟨⟨rc, info'⟩, hy, hye⟩ := Option.map_eq_some_iff.mp hx
    obtain ⟨-, rfl⟩ := Prod.mk.inj hye
    exact hnot rc info' hy
  · refine iff_of_false ?_ hinv
    rintro ⟨-, hend⟩
    rw [hz] at hend
    exact hend _ _ rfl z rfl hsig

/-- An end without a wait is the same as itself. -/
theorem sameEnd_of_noInfo {x : Option (CallEnd × WaitInfo)}
    (h : ∀ e info, x = some (e, info) → info = none) : SameEnd x x := by
  refine ⟨rfl, ?_⟩
  intro e info hx z hz
  rw [h e info hx] at hz
  exact absurd hz (by simp)

/-- The same for the calls that try first and wait then. -/
theorem tryThenWait_iff {busy : List Rc} {tried : Rc → CallEnd} {sc sc' : Script}
    (hint : o.interruptible = true) (hpos : 0 ≤ o.timeout) (h : sc.Interrupted sc')
    (ht : sc.wait.Tight c op o)
    (hidle : triedWait o busy sc = none → sc.wait.rounds = []) :
    SameEnd (op.tryThenWait c o busy tried sc) (op.tryThenWait c o busy tried sc') ↔
      sc'.wait.Invisible c op o := by
  unfold BlockingOp.tryThenWait
  unfold triedWait at hidle
  rw [h.first]
  by_cases hwait : sc.first ∈ busy ∧ o.noWait = false
  · simp only [hwait.1, hwait.2, not_true_eq_false, if_false, Bool.false_eq_true]
    exact finishWait_iff hint hpos h.wait ht
  · rw [if_neg hwait] at hidle
    refine iff_of_true ?_ (h.wait.invisible_of_nil (hidle rfl))
    by_cases hbusy : sc.first ∈ busy
    · have hnw : o.noWait = true := by simpa [hbusy] using hwait
      simp only [hbusy, hnw, not_true_eq_false, if_false, if_true]
      exact sameEnd_of_noInfo (by simp +contextual [eq_comm])
    · simp only [hbusy, not_false_eq_true, if_true]
      exact sameEnd_of_noInfo (by simp +contextual [eq_comm])

/-- A wait that ends with a signal ends the call of a queue. -/
theorem afterWait_signal (p : Pass) : op.afterWait p (op.callback .eintr) ≠ .ok := by
  cases op <;> simp only [BlockingOp.afterWait, BlockingOp.callback, futexWaitCb, id] <;>
    split_ifs <;> simp_all

/-- A pass in which the loop ends is the last. -/
theorem eq_nil_of_queueLoop {p : Pass} {ps : List Pass}
    (hlast : op.queueLoop c o (p :: ps).dropLast = none)
    (h : ∀ qs, (op.queueLoop c o (p :: qs)).isSome) : ps = [] := by
  cases ps with
  | nil => rfl
  | cons q qs =>
      rw [List.dropLast_cons_cons] at hlast
      have := h (q :: qs).dropLast
      rw [hlast] at this
      simp at this

/-- The same for the loop of a queue, by induction on its passes. -/
theorem queueLoop_iff {ps ps' : List Pass} (hint : o.interruptible = true)
    (hpos : 0 ≤ o.timeout) (h : List.Forall₂ Pass.Interrupted ps ps')
    (ht : ∀ p ∈ ps, p.Tight c op o) (hlast : op.queueLoop c o ps.dropLast = none)
    (hret : (op.queueLoop c o ps).isSome) :
    SameEnd (op.queueLoop c o ps) (op.queueLoop c o ps') ↔
      ∀ p ∈ ps', p.wait.Invisible c op o := by
  induction h with
  | nil => simp [BlockingOp.queueLoop] at hret
  | @cons p p' qs qs' hp hrest ih =>
      rw [List.forall_mem_cons]
      have htp := ht p (by simp)
      by_cases hidle : p.ready = true ∨ o.noWait = true
      · -- the call ends before it waits
        have hsome : ∀ qs, (op.queueLoop c o (p :: qs)).isSome := by
          intro qs
          rcases hidle with hr | hn
          · simp [BlockingOp.queueLoop, hr]
          · cases hr : p.ready <;> simp [BlockingOp.queueLoop, hr, hn]
        obtain rfl := eq_nil_of_queueLoop hlast hsome
        cases hrest
        refine iff_of_true ?_ ⟨hp.wait.invisible_of_nil (htp.idle hidle), by simp⟩
        have heq : op.queueLoop c o [p'] = op.queueLoop c o [p] := by
          rcases hidle with hr | hn
          · simp [BlockingOp.queueLoop, hp.ready, hr]
          · cases hr : p.ready <;> simp [BlockingOp.queueLoop, hp.ready, hr, hn]
        rw [heq]
        refine sameEnd_of_noInfo ?_
        intro e info hx
        rcases hidle with hr | hn
        · simp [BlockingOp.queueLoop, hr] at hx
          exact hx.2.symm
        · cases hr : p.ready <;> simp [BlockingOp.queueLoop, hr, hn] at hx <;> exact hx.2.symm
      · obtain ⟨hr, hn⟩ := not_or.mp hidle
        have hr' : ¬ p'.ready = true := by rw [hp.ready]; exact hr
        have hafter : op.afterWait p' = op.afterWait p := by
          funext rc
          cases op <;> simp [BlockingOp.afterWait, hp.relock]
        rcases waitOnce_cases hint hpos hp.wait htp.wait with
          ⟨hinv, heq, hnot⟩ | ⟨hinv, z, hz, hsig⟩
        · cases hx : op.waitOnce c o p.wait with
          | none => simp [BlockingOp.queueLoop, hr, hn, hx] at hret
          | some x =>
              obtain ⟨rc, info⟩ := x
              rw [hx] at heq
              by_cases hok : op.afterWait p rc = .ok
              · -- both loops go on
                have hgo : ∀ ps, op.queueLoop c o (p :: ps) = op.queueLoop c o ps := by
                  intro ps
                  simp [BlockingOp.queueLoop, hr, hn, hx, hok]
                have hgo' : op.queueLoop c o (p' :: qs') = op.queueLoop c o qs' := by
                  simp [BlockingOp.queueLoop, hr', hn, heq, hafter, hok]
                rw [hgo] at hret
                have hlast' : op.queueLoop c o qs.dropLast = none := by
                  cases qs with
                  | nil => rfl
                  | cons s ss =>
                      rw [List.dropLast_cons_cons, hgo] at hlast
                      exact hlast
                rw [hgo, hgo', ih (fun q hq => ht q (by simp [hq])) hlast' hret]
                exact (and_iff_right hinv).symm
              · have hsome : ∀ qs, (op.queueLoop c o (p :: qs)).isSome := by
                  intro qs
                  by_cases hto : op.afterWait p rc = .etimedout <;>
                    simp [BlockingOp.queueLoop, hr, hn, hx, hok, hto]
                obtain rfl := eq_nil_of_queueLoop hlast hsome
                cases hrest
                have hsame : op.queueLoop c o [p'] = op.queueLoop c o [p] := by
                  simp [BlockingOp.queueLoop, hr, hr', hn, hx, heq, hafter]
                refine iff_of_true ?_ ⟨hinv, by simp⟩
                refine ⟨by rw [hsame], ?_⟩
                intro e info' he
                have hinfo : info' = info := by
                  by_cases hto : op.afterWait p rc = .etimedout <;>
                    simp [BlockingOp.queueLoop, hr', hn, heq, hafter, hok, hto] at he <;>
                    exact he.2.symm
                rw [hinfo]
                exact hnot rc info heq
        · -- the second call ends with the signal
          refine iff_of_false ?_ (fun hall => hinv hall.1)
          rintro ⟨-, hend⟩
          have hne : op.afterWait p' (op.callback .eintr) ≠ .ok := afterWait_signal p'
          by_cases hto : op.afterWait p' (op.callback .eintr) = .etimedout
          · refine hend .no (some z) ?_ z rfl hsig
            simp [BlockingOp.queueLoop, hr', hn, hz, hto]
          · refine hend (.error (op.afterWait p' (op.callback .eintr))) (some z) ?_ z rfl hsig
            simp [BlockingOp.queueLoop, hr', hn, hz, hto, hne]

/-- A signal does not add a pass. -/
theorem Script.Interrupted.passes_nil {sc sc' : Script} (h : sc.Interrupted sc')
    (hnil : sc.passes = []) : sc'.passes = [] := by
  have hpasses := h.passes
  rw [hnil] at hpasses
  exact List.forall₂_nil_left_iff.mp hpasses

/-- The same for `put` and `get`. -/
theorem queueTransfer_iff {sc sc' : Script} (hint : o.interruptible = true)
    (hpos : 0 ≤ o.timeout) (h : sc.Interrupted sc') (hfirst : sc.first ≠ .ok → sc.passes = [])
    (hlast : op.queueLoop c o sc.passes.dropLast = none) (ht : ∀ p ∈ sc.passes, p.Tight c op o)
    (hret : (op.queueTransfer c o sc).isSome) :
    SameEnd (op.queueTransfer c o sc) (op.queueTransfer c o sc') ↔
      ∀ p ∈ sc'.passes, p.wait.Invisible c op o := by
  unfold BlockingOp.queueTransfer at hret ⊢
  rw [h.first]
  by_cases hok : sc.first = .ok
  · simp only [hok, ne_eq, not_true_eq_false, if_false] at hret ⊢
    exact queueLoop_iff hint hpos h.passes ht hlast hret
  · have hnil' := h.passes_nil (hfirst hok)
    simp only [ne_eq, hok, not_false_eq_true, if_true]
    refine iff_of_true (sameEnd_of_noInfo ?_) (by simp [hnil'])
    simp +contextual [eq_comm]

/-- **When signals do not show.**  For every operation and every interruptible blocking call,
and for any two runs of it of which the second has additional `EINTR` results with handlers
that return: the second ends as the first, and with no signal, if and only if it passes over
all signals. -/
theorem signals_invisible_iff (c : ClockSet) (op : BlockingOp) (o : AcquireOpts)
    {sc sc' : Script} (hb : o.blocking = true) (hint : o.interruptible = true)
    (hpos : 0 ≤ o.timeout) (h : sc.Interrupted sc') (ht : sc.Tight c op o)
    (hret : (op.call c o sc).isSome) :
    SignalsInvisible c op o sc sc' ↔
      sc'.wait.Invisible c op o ∧ ∀ p ∈ sc'.passes, p.wait.Invisible c op o := by
  have hsingle : sc.passes = [] → ((sc'.wait.Invisible c op o ∧
      ∀ p ∈ sc'.passes, p.wait.Invisible c op o) ↔ sc'.wait.Invisible c op o) := by
    intro hnil
    simp [h.passes_nil hnil]
  have hmany : sc.wait.rounds = [] → ((sc'.wait.Invisible c op o ∧
      ∀ p ∈ sc'.passes, p.wait.Invisible c op o) ↔
        ∀ p ∈ sc'.passes, p.wait.Invisible c op o) := fun hnil =>
    and_iff_right (h.wait.invisible_of_nil hnil)
  unfold Script.Tight at ht
  unfold SignalsInvisible
  cases op with
  | queue =>
      obtain ⟨hnil, hfirst, hlast, htight⟩ := ht
      rw [hmany hnil]
      exact queueTransfer_iff hint hpos h hfirst hlast htight hret
  | futexQueue =>
      obtain ⟨hnil, hfirst, hlast, htight⟩ := ht
      rw [hmany hnil]
      exact queueTransfer_iff hint hpos h hfirst hlast htight hret
  | condition =>
      obtain ⟨hnil, htight, -⟩ := ht
      rw [hsingle hnil]
      simp only [BlockingOp.call, BlockingOp.condWait, hb, Bool.not_true, Bool.false_eq_true,
        if_false]
      exact finishWait_iff hint hpos h.wait htight
  | messageQueue =>
      obtain ⟨hnil, htight, -⟩ := ht
      rw [hsingle hnil]
      simp only [BlockingOp.call, BlockingOp.nmqTransfer, hb, Bool.not_true, Bool.false_eq_true,
        if_false]
      exact finishWait_iff hint hpos h.wait htight
  | futex =>
      obtain ⟨hnil, htight, hidle⟩ := ht
      rw [hsingle hnil]
      simp only [BlockingOp.call, BlockingOp.futexWait, h.changed]
      cases hnw : o.noWait with
      | true =>
          have hrounds := hidle (by simp [BlockingOp.lastWait, hnw])
          refine iff_of_true (sameEnd_of_noInfo ?_) (h.wait.invisible_of_nil hrounds)
          intro e info hx
          simp at hx
          exact hx.2.symm
      | false =>
          simp only [Bool.false_eq_true, if_false]
          exact finishWait_iff hint hpos h.wait htight
  | _ =>
      obtain ⟨hnil, htight, hidle⟩ := ht
      rw [hsingle hnil]
      exact tryThenWait_iff hint hpos h htight hidle

end Calls

/-! ## Concrete calls -/

/-- A wait that starts at second `0`; the wrapped call is interrupted `n` times, at second `1`,
and then succeeds at second `2`. -/
def signalsThenOk (first : Rc) (n : ℕ) : Script :=
  ⟨first, false, ⟨second 0, .ok,
    List.replicate n ⟨second 0, .eintr, second 1, false, second 1⟩ ++
      [⟨second 1, .ok, second 2, false, second 2⟩]⟩, []⟩

theorem signalsThenOk_interrupted (first : Rc) (n : ℕ) :
    (signalsThenOk first 0).Interrupted (signalsThenOk first n) := by
  refine ⟨rfl, rfl, ⟨rfl, rfl, ?_⟩, .nil⟩
  induction n with
  | zero => exact .keep _ .nil
  | succ n ih => exact .signal ⟨rfl, rfl⟩ ih

/-- A signal during `Futex.wait` does not show. -/
theorem signals_invisible_futex :
    BlockingOp.futex.call monotonicClocks AcquireOpts.default (signalsThenOk .ok 1)
      = some (.yes, some (none, ⟨second 1, .ok, second 2, false, second 2⟩)) ∧
      SignalsInvisible monotonicClocks .futex AcquireOpts.default (signalsThenOk .ok 0)
        (signalsThenOk .ok 1) := by
  refine ⟨by decide +kernel, ?_⟩
  refine (signals_invisible_iff monotonicClocks .futex AcquireOpts.default rfl rfl (by decide)
    (signalsThenOk_interrupted .ok 1) ?_ (by decide +kernel)).mpr ⟨?_, by simp [signalsThenOk]⟩
  · exact ⟨rfl, rfl, fun h => absurd h (by decide +kernel)⟩
  · intro r hr hsig
    obtain rfl | rfl : r = ⟨second 0, .eintr, second 1, false, second 1⟩ ∨
        r = ⟨second 1, .ok, second 2, false, second 2⟩ := by
      simpa [signalsThenOk] using hr
    · exact ⟨rfl, rfl, by decide +kernel⟩
    · exact absurd hsig (by decide)

/-- **A signal ends `Semaphore.acquire`**, whose callback does not translate `EINTR`: without
the signal the call succeeds, and with it the method raises `OSError(EINTR)`. -/
theorem signal_breaks_acquire :
    (signalsThenOk .eagain 0).Interrupted (signalsThenOk .eagain 1) ∧
      BlockingOp.semaphore.call monotonicClocks AcquireOpts.default (signalsThenOk .eagain 0)
        = some (.yes, some (none, ⟨second 1, .ok, second 2, false, second 2⟩)) ∧
      BlockingOp.semaphore.call monotonicClocks AcquireOpts.default (signalsThenOk .eagain 1)
        = some (.error .eintr,
            some (none, ⟨second 0, .eintr, second 1, false, second 1⟩)) ∧
      ¬ SignalsInvisible monotonicClocks .semaphore AcquireOpts.default
        (signalsThenOk .eagain 0) (signalsThenOk .eagain 1) := by
  refine ⟨signalsThenOk_interrupted .eagain 1, by decide +kernel, by decide +kernel, ?_⟩
  rintro ⟨hsame, -⟩
  exact absurd hsame (by decide +kernel)

end PosixIpc
