/-
# A create that fails

What a `create` or `open_or_create` cleans up when it fails after its exclusive `shm_open`:
the `fail` label of `posixipc_shm_create`, `fail_created_shm`, and the `posixipc_shm_unlink`
after a region object that could not be made.

The mark is put on the object that the call has made, but the name is removed whatever it
denotes by then.

* `OwnCleanup` : what the clean-ups from a state on may do;
* `RecreatesAfterEnd` : a new segment is made only when no live call is in the middle of a
  create of its own;
* `cleanup_removes_own` : then every clean-up removes the call's own segment;
* `cleanup_removes_other` : a run without this in which it removes a published segment of
  another process.
-/
import PosixIpc.ShmProtocol

namespace PosixIpc

open StoreProg ThreadMachine

variable {Tid : Type} {cacheline : ℕ}

/-! ## The clean-up -/

namespace ShmPc

/-- A failed create removes the name. -/
def removesName : ShmPc → Bool
  | .createFail _ => true
  | .unlinkBroken _ => true
  | .unlinkRegion _ => true
  | _ => false

/-- A create that failed before the publication cleans up. -/
def failsEarly : ShmPc → Bool
  | .createFail _ => true
  | .markBroken _ _ => true
  | .unlinkBroken _ => true
  | _ => false

/-- No clean-up can follow any more. -/
def settled : ShmPc → Bool
  | .bindAll _ _ _ => true
  | .failed _ => true
  | .done _ _ _ => true
  | _ => false

/-- The exclusive `shm_open`. -/
def opensExcl : ShmPc → Bool
  | .createOpen _ => true
  | _ => false

end ShmPc

/-- The call has made a segment. -/
def ShmShared.MadeBy (sh : ShmShared Tid) (t : Tid) : Prop := ∃ g < sh.made, sh.creator g = some t

/-- A live call that has made a segment and may still have to clean up. -/
def CreateInProgress (s : State Tid ShmPc (ShmShared Tid)) (t : Tid) : Prop :=
  s.shared.MadeBy t ∧ (s.pc t).any (fun p => !p.settled) = true

/-- **A segment is made only when no create is in progress**: whoever removes the name of a
half-created segment recreates it after its creator has died, or has returned. -/
def RecreatesAfterEnd (s : State Tid ShmPc (ShmShared Tid)) : Label Tid ShmAnswer → Prop
  | .act t e => (s.pc t).any ShmPc.opensExcl = true → e.err.isNone = true →
      s.shared.name = none → ∀ u, ¬ CreateInProgress s u
  | .die _ => True

/-- **A failing create cleans up only its own segment.** -/
structure OwnCleanup [DecidableEq Tid] (cacheline : ℕ)
    (s : State Tid ShmPc (ShmShared Tid)) : Prop where
  /-- What a clean-up removes from the namespace is a segment of its own call. -/
  removes : ∀ t p g, s.pc t = some p → p.removesName = true → s.shared.name = some g →
    s.shared.creator g = some t
  /-- What it marks `BROKEN` is so too. -/
  marks : ∀ t g rc, s.pc t = some (.markBroken g rc) → s.shared.creator g = some t
  /-- The segment of a call that has failed before its publication never becomes `READY`. -/
  neverReady : ∀ t p g, s.pc t = some p → p.failsEarly = true → s.shared.creator g = some t →
    ∀ s', (shmMachine Tid cacheline).Reach s s' → s'.shared.mem g stateCell ≠ stateReady

/-! ## What a failing call knows -/

section Steps

variable {sh sh' : ShmShared Tid} {t u : Tid} {p : ShmPc} {e r : ShmAnswer}

/-- Only the program point of `shm_open` opens exclusively. -/
theorem act_openExcl {l : ShmLayout} (h : p.act = .openExcl l) : p.opensExcl = true := by
  cases p with
  | createOpen c => rfl
  | init c g stage q => cases q <;> exact nomatch h
  | attachCompare c g q => cases q <;> exact nomatch h
  | _ => exact nomatch h

/-- An object is made for a name that denotes nothing. -/
theorem perform_openExcl {l : ShmLayout} {g : ℕ}
    (hr : (ShmAct.openExcl l).perform u e sh = some (r, sh')) (ho : r.opened = .ok g) :
    e.err.isNone = true ∧ sh.name = none := by
  simp only [ShmAct.perform] at hr
  split at hr
  · obtain ⟨rfl, -⟩ : _ = r ∧ sh = sh' := by simpa using hr
    cases ho
  · obtain ⟨rfl, -⟩ : _ = r ∧ sh = sh' := by simpa using hr
    cases ho
  · next herr hname => exact ⟨by rw [herr]; rfl, hname⟩

/-- A settled call stays settled. -/
theorem settled_next (h : p.settled = true) : (p.next cacheline r).settled = true := by
  cases p with
  | bindAll c g created =>
      show (ShmPc.sysCall r ShmPc.failed (.done c g created)).settled = true
      unfold ShmPc.sysCall
      split <;> rfl
  | failed rc => rfl
  | done c g created => rfl
  | _ => exact nomatch h

/-- What a call that cleans up knows: it has made a segment, and has not published it if the
failure came before. -/
def ShmPc.Cleaning (sh : ShmShared Tid) (t : Tid) : ShmPc → Prop
  | .createFail _ => ∃ g, Mine sh t g ∧ sh.mem g stateCell ≠ stateReady
  | .unlinkBroken _ => ∃ g, Mine sh t g ∧ sh.mem g stateCell ≠ stateReady
  | .unlinkRegion _ => ∃ g, Mine sh t g
  | _ => True

/-- The other threads leave a call's segment alone. -/
theorem ShmPc.Cleaning.keep (h : p.Cleaning sh t) (k : Keeps sh sh' t) : p.Cleaning sh' t := by
  have hmine : (∃ g, Mine sh t g ∧ sh.mem g stateCell ≠ stateReady) →
      ∃ g, Mine sh' t g ∧ sh'.mem g stateCell ≠ stateReady := by
    rintro ⟨g, hg, hne⟩
    obtain ⟨hg', -, hmem⟩ := k.mine g hg
    exact ⟨g, hg', by rwa [hmem]⟩
  cases p with
  | createFail rc => exact hmine h
  | unlinkBroken rc => exact hmine h
  | unlinkRegion rc =>
      obtain ⟨g, hg⟩ := h
      exact ⟨g, (k.mine g hg).1⟩
  | _ => trivial

/-- A system call cleans up if both its ways do. -/
theorem cleaning_sysCall {fail : Rc → ShmPc} {ok : ShmPc}
    (hfail : ∀ rc, (fail rc).Cleaning sh t) (hok : ok.Cleaning sh t) :
    (ShmPc.sysCall e fail ok).Cleaning sh t := by
  unfold ShmPc.sysCall
  split
  · exact hfail _
  · exact hok

/-- A call that starts has nothing to clean up. -/
theorem cleaning_start (c : ShmCall) : (ShmPc.start c).Cleaning sh t := by
  unfold ShmPc.start
  split
  · split_ifs <;> trivial
  · trivial
  · split_ifs <;> trivial
  · trivial

/-- A refused create has nothing to clean up. -/
theorem cleaning_createRefused (c : ShmCall) (rc : Rc) :
    (ShmPc.createRefused c rc).Cleaning sh t := by
  unfold ShmPc.createRefused
  split
  · split_ifs <;> trivial
  · trivial

/-- A refused attach has nothing to clean up. -/
theorem cleaning_attachRefused (c : ShmCall) (rc : Rc) :
    (ShmPc.attachRefused c rc).Cleaning sh t := by
  unfold ShmPc.attachRefused
  split
  · split_ifs <;> trivial
  · trivial

/-- A create that goes on to its rings has nothing to clean up. -/
theorem cleaning_startRings (c : ShmCall) (g : ℕ) (rings : List RingSpec) :
    (ShmPc.startRings cacheline c g rings).Cleaning sh t := by
  cases rings <;> trivial

/-- A create that goes on to its slots has nothing to clean up. -/
theorem cleaning_startSlots (c : ShmCall) (g i : ℕ) (slots : List Slot) :
    (ShmPc.startSlots cacheline c g i slots).Cleaning sh t := by
  cases slots with
  | nil => exact cleaning_startRings c g _
  | cons s rest => trivial

/-- A failure of an initialiser goes to the cleanup. -/
theorem cleaning_initReturn {c : ShmCall} {g : ℕ} {stage : Stage} {rc : Rc}
    (hmine : Mine sh t g) (hne : sh.mem g stateCell ≠ stateReady) :
    (ShmPc.initReturn cacheline c g stage rc r).Cleaning sh t := by
  cases stage with
  | header =>
      unfold ShmPc.initReturn
      simp only
      split_ifs
      · exact ⟨g, hmine, hne⟩
      · trivial
  | slot i prim rest =>
      unfold ShmPc.initReturn
      simp only
      split_ifs
      · trivial
      · exact cleaning_sysCall (fun _ => trivial) (cleaning_startSlots c g _ rest)
      · exact cleaning_startSlots c g _ rest
  | ring rest =>
      unfold ShmPc.initReturn
      simp only
      split_ifs
      · trivial
      · exact cleaning_startRings c g rest

/-- **A call's own step.**  Before a clean-up starts the call knows its segment; the mark does
not publish it. -/
theorem ShmPc.Cleaning.next (h : p.Inv cacheline sh t)
    (hr : p.act.perform t e sh = some (r, sh')) : (p.next cacheline r).Cleaning sh' t := by
  have hfresh : ∀ {c : ShmCall} {g : ℕ}, quiet p.act = true →
      (MadeFor sh t c g ∧ sh.mem g = fun _ => 0) →
      ∃ g, Mine sh' t g ∧ sh'.mem g stateCell ≠ stateReady := by
    rintro c g hq ⟨hg, hzero⟩
    obtain ⟨hg', -, hmem⟩ := (quiet_step hq hr).mine g hg.1
    exact ⟨g, hg', by rw [hmem, hzero]; decide⟩
  cases p with
  | createStat c g =>
      refine cleaning_sysCall (fun _ => hfresh rfl h) ?_
      split_ifs
      · exact hfresh rfl h
      · trivial
  | createTruncate c g => exact cleaning_sysCall (fun _ => hfresh rfl h) trivial
  | createMap c g => exact cleaning_sysCall (fun _ => hfresh rfl h) trivial
  | createClose c g => exact cleaning_sysCall (fun _ => hfresh rfl h) trivial
  | createName c g =>
      refine cleaning_sysCall (fun _ => ?_) ?_
      · obtain ⟨hg', -, hmem⟩ := (quiet_step rfl hr).mine g h.1.1
        exact ⟨g, hg', by rw [hmem, h.2.2]; decide⟩
      · cases c with
        | openOrCreate l tries => trivial
        | _ => exact cleaning_startSlots _ g 0 _
  | init c g stage q =>
      cases q with
      | ret rc =>
          obtain ⟨hg', -, hmem⟩ := (quiet_step rfl hr).mine g h.1.1
          exact cleaning_initReturn hg' (by rw [hmem]; exact h.2.not_ready)
      | _ => trivial
  | markBroken g rc =>
      obtain rfl := perform_store hr
      exact ⟨g, h.1, by simp [stateBroken, stateReady]⟩
  | region c g created =>
      obtain ⟨-, hrole⟩ := h
      show (ShmPc.sysCall r (fun rc => if created then .unlinkRegion rc else .failed rc)
        (.bindAll c g created)).Cleaning sh' t
      refine cleaning_sysCall (fun _ => ?_) ?_
      · cases created with
        | false => trivial
        | true => exact ⟨g, ((quiet_step rfl hr).mine g hrole.1).1⟩
      · trivial
  | idle =>
      simp only [ShmPc.next]
      cases r.call with
      | none => trivial
      | some c => exact cleaning_start _
  | createOpen c =>
      simp only [ShmPc.next]
      cases r.opened with
      | error rc => exact cleaning_createRefused c _
      | ok g => trivial
  | attachOpen c =>
      simp only [ShmPc.next]
      cases r.opened with
      | error rc => exact cleaning_attachRefused c _
      | ok g => trivial
  | attachSize c g =>
      refine cleaning_sysCall (fun _ => trivial) ?_
      split_ifs <;> trivial
  | attachSizeSleep c g => exact cleaning_sysCall (fun _ => trivial) trivial
  | attachWindow c g => exact cleaning_sysCall (fun _ => trivial) trivial
  | attachState c g =>
      simp only [ShmPc.next]
      split_ifs <;> trivial
  | attachStateSleep c g => exact cleaning_sysCall (fun _ => trivial) trivial
  | attachTotal c g =>
      simp only [ShmPc.next]
      split_ifs <;> trivial
  | attachFstat c g total =>
      refine cleaning_sysCall (fun _ => trivial) ?_
      split_ifs <;> trivial
  | attachMap c g => exact cleaning_sysCall (fun _ => trivial) trivial
  | attachClose c g => exact cleaning_sysCall (fun _ => trivial) trivial
  | attachCompare c g q =>
      cases q with
      | ret rc =>
          simp only [ShmPc.next]
          split_ifs <;> trivial
      | _ => trivial
  | attachName c g =>
      refine cleaning_sysCall (fun _ => trivial) ?_
      cases c <;> trivial
  | role c g =>
      simp only [ShmPc.next]
      split_ifs
      · exact cleaning_startSlots c g 0 _
      · trivial
  | bindAll c g created => exact cleaning_sysCall (fun _ => trivial) trivial
  | _ => trivial

end Steps

/-! ## Runs -/

section Runs

variable [DecidableEq Tid] {s s' : State Tid ShmPc (ShmShared Tid)} {sh : ShmShared Tid}
  {t u : Tid} {p : ShmPc} {e r : ShmAnswer} {g : ℕ}

/-- What every run keeps. -/
structure CleanupInv (cacheline : ℕ) (s : State Tid ShmPc (ShmShared Tid)) : Prop where
  shm : ShmInv cacheline s
  /-- A call makes one segment. -/
  unique : ∀ t g g', Mine s.shared t g → Mine s.shared t g' → g = g'
  cleaning : ∀ t p, s.pc t = some p → p.Cleaning s.shared t

/-- **Step lemma.** -/
theorem CleanupInv.step (hinv : CleanupInv cacheline s) (hp : s.pc t = some p)
    (hr : p.act.perform t e s.shared = some (r, sh)) :
    CleanupInv cacheline ⟨Function.update s.pc t (some (p.next cacheline r)), sh⟩ where
  shm := hinv.shm.step hp hr
  unique u g g' hg hg' := by
    have hknows := hinv.shm.knows t p hp
    obtain ⟨-, hcreator, -⟩ | ⟨l, ha, -, rfl⟩ | ⟨_, _, _, -, rfl⟩ := perform_cases hr
    · simp only [Mine, hcreator] at hg hg'
      exact hinv.unique u g g' hg hg'
    · -- only a call that has made nothing yet makes an object
      have hnone : MadeNone s.shared t := by
        have hopens := act_openExcl ha
        cases p with
        | createOpen c => exact hknows
        | _ => cases hopens
      have hold : ∀ g, (s.shared.make t l).creator g = some u →
          g = s.shared.made ∧ u = t ∨ g ≠ s.shared.made ∧ Mine s.shared u g := by
        intro g hg
        by_cases hnew : g = s.shared.made
        · subst hnew
          exact Or.inl ⟨rfl, by simpa [ShmShared.make, eq_comm] using hg⟩
        · exact Or.inr ⟨hnew, by simpa [Mine, ShmShared.make, hnew] using hg⟩
      rcases hold g hg with ⟨h1, hu⟩ | ⟨-, h1⟩ <;> rcases hold g' hg' with ⟨h2, hu'⟩ | ⟨-, h2⟩
      · rw [h1, h2]
      · exact absurd (hu ▸ h2) (hnone g')
      · exact absurd (hu' ▸ h1) (hnone g)
      · exact hinv.unique u g g' h1 h2
    · exact hinv.unique u g g' hg hg'
  cleaning u q hq := by
    by_cases hut : u = t
    · subst hut
      obtain rfl : p.next cacheline r = q := by simpa using hq
      exact ShmPc.Cleaning.next (hinv.shm.knows u p hp) hr
    · have hq' : s.pc u = some q := by simpa [hut] using hq
      exact (hinv.cleaning u q hq').keep
        (keeps_of_other hinv.shm.fresh (hinv.shm.knows t p hp) (Ne.symm hut) hr)

/-- A death leaves the others' segments alone. -/
theorem CleanupInv.die (hinv : CleanupInv cacheline s) (t : Tid) :
    CleanupInv cacheline ⟨Function.update s.pc t none, s.shared⟩ where
  shm := hinv.shm.die t
  unique := hinv.unique
  cleaning u q hq := by
    by_cases hut : u = t
    · subst hut
      simp at hq
    · exact hinv.cleaning u q (by simpa [hut] using hq)

omit [DecidableEq Tid] in
/-- At the start there is no segment. -/
theorem cleanupInv_start : CleanupInv cacheline (shmStart Tid) where
  shm := shmInv_start
  unique t g g' hg := nomatch hg
  cleaning t p hp := by
    obtain rfl : ShmPc.idle = p := Option.some.inj hp
    trivial

/-! ### The segment of a failed create -/

/-- A call that failed before the publication only goes on to return. -/
def ShmPc.Sunk (p : ShmPc) : Prop := p.failsEarly = true ∨ ∃ rc, p = .failed rc

/-- A call that failed before the publication goes on failing. -/
theorem sunk_next (h : p.Sunk) : (p.next cacheline r).Sunk := by
  rcases h with h | ⟨rc, rfl⟩
  · cases p with
    | createFail rc => exact Or.inr ⟨rc, rfl⟩
    | markBroken g rc => exact Or.inl rfl
    | unlinkBroken rc => exact Or.inr ⟨rc, rfl⟩
    | _ => exact nomatch h
  · exact Or.inr ⟨rc, rfl⟩

/-- The only word that it still stores is the mark. -/
theorem sunk_act (h : p.Sunk) : (∀ l, p.act ≠ .openExcl l) ∧
    ∀ g l v, p.act = .store g l v → l = stateCell ∧ v = stateBroken := by
  rcases h with h | ⟨rc, rfl⟩
  · cases p with
    | createFail rc => simp [ShmPc.act]
    | markBroken g rc =>
        refine ⟨by simp [ShmPc.act], fun g' l v ha => ?_⟩
        obtain ⟨-, rfl, rfl⟩ : g = g' ∧ stateCell = l ∧ stateBroken = v := by
          simpa [ShmPc.act] using ha
        exact ⟨rfl, rfl⟩
    | unlinkBroken rc => simp [ShmPc.act]
    | _ => cases h
  · simp [ShmPc.act]

/-- Its segment does not become `READY` in any step. -/
theorem sunk_step (hinv : ShmInv cacheline s) (hmine : Mine s.shared t g)
    (hne : s.shared.mem g stateCell ≠ stateReady) (hsunk : ∀ q, s.pc t = some q → q.Sunk)
    (hp : s.pc u = some p) (hr : p.act.perform u e s.shared = some (r, sh)) :
    Mine sh t g ∧ sh.mem g stateCell ≠ stateReady := by
  by_cases hut : u = t
  · subst hut
    obtain ⟨hexcl, hstore⟩ := sunk_act (hsunk p hp)
    obtain ⟨-, hcreator, -, hmem, -⟩ | ⟨l, ha, -, -⟩ | ⟨g', l, v, ha, rfl⟩ := perform_cases hr
    · exact ⟨by rwa [Mine, hcreator], by rwa [hmem]⟩
    · exact absurd ha (hexcl l)
    · obtain ⟨rfl, rfl⟩ := hstore g' l v ha
      refine ⟨hmine, ?_⟩
      by_cases hg : g = g'
      · subst hg
        simp [stateBroken, stateReady]
      · simpa [hg] using hne
  · obtain ⟨hmine', -, hmem⟩ :=
      (keeps_of_other hinv.fresh (hinv.knows u p hp) hut hr).mine g hmine
    exact ⟨hmine', by rwa [hmem]⟩

/-- **The segment of a create that failed before its publication never becomes `READY`.** -/
theorem neverReady_of_failsEarly (hinv : CleanupInv cacheline s) (hp : s.pc t = some p)
    (hf : p.failsEarly = true) (hg : Mine s.shared t g)
    (h : (shmMachine Tid cacheline).Reach s s') : s'.shared.mem g stateCell ≠ stateReady := by
  have hne : s.shared.mem g stateCell ≠ stateReady := by
    have hcleaning := hinv.cleaning t p hp
    have hsome : ∃ g, Mine s.shared t g ∧ s.shared.mem g stateCell ≠ stateReady := by
      cases p with
      | createFail rc => exact hcleaning
      | markBroken g' rc => exact ⟨g', hinv.shm.knows t _ hp⟩
      | unlinkBroken rc => exact hcleaning
      | _ => exact nomatch hf
    obtain ⟨g', hg', hne⟩ := hsome
    rwa [hinv.unique t g g' hg hg']
  have hI : ShmInv cacheline s' ∧ Mine s'.shared t g ∧
      s'.shared.mem g stateCell ≠ stateReady ∧ ∀ q, s'.pc t = some q → q.Sunk := by
    refine Machine.Run.invariant
      (I := fun s' => ShmInv cacheline s' ∧ Mine s'.shared t g ∧
        s'.shared.mem g stateCell ≠ stateReady ∧ ∀ q, s'.pc t = some q → q.Sunk)
      ⟨hinv.shm, hg, hne, fun q hq => ?_⟩ ?_ ?_ h
    · obtain rfl : p = q := Option.some.inj (hp.symm.trans hq)
      exact Or.inl hf
    · rintro s u q e r sh ⟨hshm, hmine, hne, hsunk⟩ - hq hr
      obtain ⟨hmine', hne'⟩ := sunk_step hshm hmine hne hsunk hq hr
      refine ⟨hshm.step hq hr, hmine', hne', fun q' hq' => ?_⟩
      by_cases hut : u = t
      · subst hut
        obtain rfl : (shmMachine Tid cacheline).next q r = q' := by simpa using hq'
        exact sunk_next (hsunk q hq)
      · exact hsunk q' (by simpa [Ne.symm hut] using hq')
    · rintro s u q ⟨hshm, hmine, hne, hsunk⟩ - -
      refine ⟨hshm.die u, hmine, hne, fun q' hq' => ?_⟩
      by_cases hut : u = t
      · subst hut
        simp at hq'
      · exact hsunk q' (by simpa [Ne.symm hut] using hq')
  exact hI.2.2.1

/-! ### The name during a create -/

/-- While a create is in progress the name denotes its segment, or nothing. -/
def NameIsOwn (s : State Tid ShmPc (ShmShared Tid)) : Prop :=
  ∀ t, CreateInProgress s t → ∀ g, s.shared.name = some g → Mine s.shared t g

/-- A create that is in progress after a step that makes no object was so before it. -/
theorem inProgress_of_step (hp : s.pc t = some p) (hmade : sh.made = s.shared.made)
    (hcreator : sh.creator = s.shared.creator)
    (h : CreateInProgress ⟨Function.update s.pc t (some (p.next cacheline r)), sh⟩ u) :
    CreateInProgress s u := by
  obtain ⟨⟨g, hlt, hg⟩, hpc⟩ := h
  refine ⟨⟨g, hmade ▸ hlt, hcreator ▸ hg⟩, ?_⟩
  by_cases hut : u = t
  · subst hut
    have hnext : (p.next cacheline r).settled = false := by simpa using hpc
    rw [hp, Option.any_some]
    by_contra hset
    have hsettled : p.settled = true := by simpa using hset
    rw [settled_next hsettled] at hnext
    exact nomatch hnext
  · simpa [hut] using hpc

/-- **Step lemma** of the name. -/
theorem NameIsOwn.step (hown : NameIsOwn s) (hok : RecreatesAfterEnd s (.act t e))
    (hp : s.pc t = some p) (hr : p.act.perform t e s.shared = some (r, sh)) :
    NameIsOwn ⟨Function.update s.pc t (some (p.next cacheline r)), sh⟩ := by
  intro u hu g hg
  obtain ⟨hmade, hcreator, -, -, hname⟩ | ⟨l, ha, hopened, rfl⟩ | ⟨g', l, v, -, rfl⟩ :=
    perform_cases hr
  · rcases hname with hname | hname
    · have hmine := hown u (inProgress_of_step hp hmade hcreator hu) g (hname ▸ hg)
      rwa [Mine, hcreator]
    · cases hname.symm.trans hg
  · obtain rfl : s.shared.made = g := by simpa [ShmShared.make] using hg
    by_cases hut : u = t
    · subst hut
      simp [Mine, ShmShared.make]
    · -- the other create was in progress when this one made its segment
      rw [ha] at hr
      obtain ⟨herr, hnone⟩ := perform_openExcl hr hopened
      obtain ⟨⟨g, hlt, hg⟩, hpc⟩ := hu
      have hne : g ≠ s.shared.made := by
        rintro rfl
        exact hut (by simpa [ShmShared.make, eq_comm] using hg)
      refine absurd ⟨⟨g, ?_, ?_⟩, ?_⟩
        (hok (by rw [hp, Option.any_some]; exact act_openExcl ha) herr hnone u)
      · exact lt_of_le_of_ne (Nat.lt_succ_iff.mp hlt) hne
      · simpa [ShmShared.make, hne] using hg
      · simpa [hut] using hpc
  · exact hown u (inProgress_of_step hp rfl rfl hu) g hg

/-- A death leaves the name alone. -/
theorem NameIsOwn.die (hown : NameIsOwn s) (t : Tid) :
    NameIsOwn ⟨Function.update s.pc t none, s.shared⟩ := by
  rintro u ⟨hmade, hpc⟩
  refine hown u ⟨hmade, ?_⟩
  by_cases hut : u = t
  · subst hut
    simp at hpc
  · simpa [hut] using hpc

/-- The invariants of every run under the condition. -/
theorem cleanupInv_of_run
    (h : (shmMachine Tid cacheline).Run RecreatesAfterEnd (shmStart Tid) s) :
    CleanupInv cacheline s ∧ NameIsOwn s := by
  refine Machine.Run.invariant (I := fun s => CleanupInv cacheline s ∧ NameIsOwn s)
    ⟨cleanupInv_start, ?_⟩ ?_ ?_ h
  · rintro t - g hg
    exact nomatch hg
  · rintro s t p e r sh ⟨hinv, hown⟩ hok hp hr
    exact ⟨hinv.step hp hr, hown.step hok hp hr⟩
  · rintro s t p ⟨hinv, hown⟩ - -
    exact ⟨hinv.die t, hown.die t⟩

omit [DecidableEq Tid] in
/-- A call that is about to remove the name is in the middle of its create. -/
theorem CleanupInv.inProgress (hinv : CleanupInv cacheline s) (hp : s.pc t = some p)
    (hrem : p.removesName = true) : CreateInProgress s t := by
  have hcleaning := hinv.cleaning t p hp
  have hsome : (∃ g, Mine s.shared t g) ∧ p.settled = false := by
    cases p with
    | createFail rc => exact ⟨hcleaning.imp fun _ h => h.1, rfl⟩
    | unlinkBroken rc => exact ⟨hcleaning.imp fun _ h => h.1, rfl⟩
    | unlinkRegion rc => exact ⟨hcleaning, rfl⟩
    | _ => exact nomatch hrem
  obtain ⟨⟨g, hg⟩, hset⟩ := hsome
  refine ⟨⟨g, hg.lt_made hinv.shm.fresh, hg⟩, ?_⟩
  rw [hp, Option.any_some, hset]
  rfl

/-- **A failing create removes only its own segment**, in every run in which a segment is made
only when no create is in progress. -/
theorem cleanup_removes_own
    (h : (shmMachine Tid cacheline).Run RecreatesAfterEnd (shmStart Tid) s) :
    OwnCleanup cacheline s := by
  obtain ⟨hinv, hown⟩ := cleanupInv_of_run h
  refine ⟨?_, ?_, ?_⟩
  · intro t p g hp hrem hname
    exact hown t (hinv.inProgress hp hrem) g hname
  · intro t g rc hp
    exact (hinv.shm.knows t _ hp).1
  · intro t p g hp hf hg s' hreach
    exact neverReady_of_failsEarly hinv hp hf hg hreach

end Runs

/-! ## A recreated segment -/

instance (s : State Bool ShmPc (ShmShared Bool)) (t : Bool) : Decidable (CreateInProgress s t) :=
  inferInstanceAs (Decidable ((∃ g < s.shared.made, s.shared.creator g = some t) ∧ _))

instance decidableRecreatesAfterEnd (s : State Bool ShmPc (ShmShared Bool))
    (l : Label Bool ShmAnswer) : Decidable (RecreatesAfterEnd s l) :=
  match l with
  | .act t e => inferInstanceAs (Decidable ((s.pc t).any ShmPc.opensExcl = true →
      e.err.isNone = true → s.shared.name = none → ∀ u, ¬ CreateInProgress s u))
  | .die _ => .isTrue trivial

/-- A call of `create`. -/
def ShmAnswer.callCreate : ShmAnswer := { ShmAnswer.fine with call := some (.create pairLayout) }

/-- A system call fails. -/
def ShmAnswer.noMemory : ShmAnswer :=
  { ShmAnswer.fine with err := some ⟨.enomem, by decide⟩ }

/-- The first process makes a segment; the second removes its name and makes one of its own. -/
def recreate (first : List (Label Bool ShmAnswer)) (n : ℕ) : List (Label Bool ShmAnswer) :=
  [.act false .callCreate, .act false .fine] ++ first ++
  [.act true { ShmAnswer.fine with call := some .unlink }, .act true .fine,
    .act true .callCreate] ++ List.replicate n (.act true .fine)

/-- The first process has died, and the second fails to make its region object. -/
def recreatedFails : State Bool ShmPc (ShmShared Bool) :=
  ((shmMachine Bool 64).runIf RecreatesAfterEnd (shmStart Bool)
    (recreate [.die false] 57 ++ [.act true .noMemory])).getD (shmStart Bool)

theorem cleanup_removes_own_recreated :
    (recreatedFails.pc true).map ShmPc.removesName = some true ∧
      recreatedFails.shared.name = some 1 ∧ OwnCleanup 64 recreatedFails :=
  ⟨by decide +kernel, by decide +kernel,
    cleanup_removes_own (Machine.Run.of_runIf_isSome (by decide +kernel))⟩

/-- The first process is only slow: its `fstat` fails when the second has published its segment. -/
def slowFails : State Bool ShmPc (ShmShared Bool) :=
  ((shmMachine Bool 64).run (shmStart Bool)
    (recreate [] 59 ++ [.act false .noMemory])).getD (shmStart Bool)

/-- **The clean-up removes the name of a published segment of another process.** -/
theorem cleanup_removes_other :
    (shmMachine Bool 64).Reach (shmStart Bool) slowFails ∧
      (slowFails.pc false).map ShmPc.removesName = some true ∧
      slowFails.shared.name = some 1 ∧ slowFails.shared.creator 1 = some true ∧
      slowFails.shared.mem 1 stateCell = stateReady ∧
      ((shmMachine Bool 64).step slowFails (.act false .fine)).map (fun s => s.shared.name) =
        some none ∧
      ¬ OwnCleanup 64 slowFails := by
  have hpc : slowFails.pc false = some (.createFail .enomem) := rfl
  have hname : slowFails.shared.name = some 1 := by decide +kernel
  have hcreator : slowFails.shared.creator 1 = some true := by decide +kernel
  refine ⟨Machine.Run.of_isSome (fun _ _ _ => trivial) (by decide +kernel), by decide +kernel,
    hname, hcreator, by decide +kernel, by decide +kernel, fun h => ?_⟩
  have hown := h.removes false _ 1 hpc rfl hname
  rw [hcreator] at hown
  exact absurd hown (by decide)

end PosixIpc
