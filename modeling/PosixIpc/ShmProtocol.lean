/-
# The create / publish / attach protocol

Any number of calls of `create`, `attach`, `open_or_create` and `unlink` on one name, in any
interleaving and with deaths at any step.

* `Complete` : the content of a segment after the whole initialisation of a layout and its
  publication;
* `ShmPc.Inv` : what a call knows about the segment it works on;
* `ShmInv` : the invariant; a segment in the state `READY` is complete for the layout of the
  call that made it, and has no writer;
* `shm_protocol` : the protocol.
-/
import PosixIpc.ShmMachine

namespace PosixIpc

open StoreProg ThreadMachine

variable {Tid : Type} {cacheline : ℕ}

/-- The state word. -/
abbrev stateCell : Cell := .header .state

/-- **A complete segment of the layout `l`**: the whole initialisation of `l` (the header and
the directory, every primitive, every queue control word) ran on a fresh object to its end
without an error, then the state was set to `READY`, and nothing else was written. -/
def Complete (cacheline : ℕ) (l : ShmLayout) (m : SegMem) : Prop :=
  ∃ m₀ : SegMem, Prog.exec (initSegment cacheline l.expect l.rings) (fun _ => 0) = (.ok, m₀) ∧
    m = Function.update m₀ stateCell stateReady

/-! ## What a call knows -/

/-- The rest of the initialisation of a segment after the current program. -/
def Stage.rest (cacheline : ℕ) (l : ShmLayout) : Stage → SegProg Rc
  | .header => SegProg.andThen (initSlots 0 (l.expect.slots.getD []))
      (initRings cacheline (l.expect.slots.getD []) l.rings)
  | .slot i _ rest => SegProg.andThen (initSlots (i + 1) rest)
      (initRings cacheline (l.expect.slots.getD []) l.rings)
  | .ring rest => initRings cacheline (l.expect.slots.getD []) rest

/-- The whole initialisation on a fresh object. -/
def fullInit (cacheline : ℕ) (c : ShmCall) : Rc × SegMem :=
  Prog.exec (initSegment cacheline c.layout.expect c.layout.rings) fun _ => 0

/-- A creator with `p` and then `q` to run will have run the whole initialisation. -/
def OnTrack (cacheline : ℕ) (c : ShmCall) (p q : SegProg Rc) (m : SegMem) : Prop :=
  Prog.exec (SegProg.andThen p q) m = fullInit cacheline c

/-- The creator runs a memory program. -/
def InitInv (cacheline : ℕ) (c : ShmCall) (stage : Stage) (p : SegProg Rc) (m : SegMem) : Prop :=
  OnTrack cacheline c p (stage.rest cacheline c.layout) m ∧
    match stage with
    | .header => Prog.exec p m = Prog.exec (shmCreateStores c.layout.expect) (fun _ => 0) ∧
        Prog.Stores OffReady p ∧ m stateCell ≠ stateReady
    | _ => Prog.Stores OffState p ∧ m stateCell = stateInitializing

/-- `posixipc_shm_create` has succeeded on a fresh object. -/
def CreatedInv (cacheline : ℕ) (c : ShmCall) (m : SegMem) : Prop :=
  OnTrack cacheline c (pure .ok) (Stage.header.rest cacheline c.layout) m ∧
    m stateCell = stateInitializing

section World

variable (sh : ShmShared Tid) (t : Tid)

/-- `t` has made no object. -/
def MadeNone : Prop := ∀ g, sh.creator g ≠ some t

/-- The object `g` was made by `t`. -/
def Mine (g : ℕ) : Prop := sh.creator g = some t

/-- The object `g` was made by `t` for the layout of the call `c`. -/
def MadeFor (c : ShmCall) (g : ℕ) : Prop := Mine sh t g ∧ sh.layout g = c.layout

/-- The object `g` has been published. -/
def Published (g : ℕ) : Prop := g < sh.made ∧ sh.mem g stateCell = stateReady

end World

/-- **What a call of `t` knows** at a program point. -/
def ShmPc.Inv (cacheline : ℕ) (sh : ShmShared Tid) (t : Tid) : ShmPc → Prop
  | .idle => MadeNone sh t
  | .unlinkName => MadeNone sh t
  | .createOpen _ => MadeNone sh t
  | .createStat c g => MadeFor sh t c g ∧ sh.mem g = fun _ => 0
  | .createTruncate c g => MadeFor sh t c g ∧ sh.mem g = fun _ => 0
  | .createMap c g => MadeFor sh t c g ∧ sh.mem g = fun _ => 0
  | .createClose c g => MadeFor sh t c g ∧ sh.mem g = fun _ => 0
  | .createName c g => MadeFor sh t c g ∧ CreatedInv cacheline c (sh.mem g)
  | .createFail _ => True
  | .init c g stage p => MadeFor sh t c g ∧ InitInv cacheline c stage p (sh.mem g)
  | .publish c g => MadeFor sh t c g ∧ fullInit cacheline c = (.ok, sh.mem g) ∧
      sh.mem g stateCell = stateInitializing
  | .markBroken g _ => Mine sh t g ∧ sh.mem g stateCell ≠ stateReady
  | .unlinkBroken _ => True
  | .attachOpen _ => MadeNone sh t
  | .attachSize _ g => MadeNone sh t ∧ g < sh.made
  | .attachSizeSleep _ g => MadeNone sh t ∧ g < sh.made
  | .attachWindow _ g => MadeNone sh t ∧ g < sh.made
  | .attachState _ g => MadeNone sh t ∧ g < sh.made
  | .attachStateSleep _ g => MadeNone sh t ∧ g < sh.made
  | .attachTotal _ g => MadeNone sh t ∧ Published sh g
  | .attachFstat _ g _ => MadeNone sh t ∧ Published sh g
  | .attachMap _ g => MadeNone sh t ∧ Published sh g
  | .attachClose _ g => MadeNone sh t ∧ Published sh g
  | .attachCompare _ g p => MadeNone sh t ∧ Published sh g ∧ Prog.Stores (fun _ _ => False) p
  | .attachName _ g => MadeNone sh t ∧ Published sh g
  | .role c g => (MadeFor sh t c g ∧ CreatedInv cacheline c (sh.mem g)) ∨
      (MadeNone sh t ∧ Published sh g)
  | .region c g created => Published sh g ∧ if created then MadeFor sh t c g else MadeNone sh t
  | .unlinkRegion _ => True
  | .bindAll c g created => Published sh g ∧ if created then MadeFor sh t c g else MadeNone sh t
  | .failed _ => True
  | .done c g created => Published sh g ∧ if created then MadeFor sh t c g else MadeNone sh t

/-- **The invariant.** -/
structure ShmInv (cacheline : ℕ) (s : State Tid ShmPc (ShmShared Tid)) : Prop where
  named : ∀ g, s.shared.name = some g → g < s.shared.made
  fresh : ∀ g, s.shared.made ≤ g → s.shared.creator g = none
  owned : ∀ g, g < s.shared.made → ∃ t, s.shared.creator g = some t
  knows : ∀ t p, s.pc t = some p → p.Inv cacheline s.shared t
  ready : ∀ g, Published s.shared g → Complete cacheline (s.shared.layout g) (s.shared.mem g)

/-! ## The initialisation -/

section Init

variable {c : ShmCall} {g : ℕ} {m : SegMem} {sh : ShmShared Tid} {t : Tid}

/-- Sequences of initialisers may be regrouped. -/
theorem exec_andThen_assoc (a b d : SegProg Rc) (m : SegMem) :
    Prog.exec (SegProg.andThen a (SegProg.andThen b d)) m =
      Prog.exec (SegProg.andThen (SegProg.andThen a b) d) m := by
  simp only [SegProg.exec_andThen]
  by_cases ha : (Prog.exec a m).1 = .ok
  · simp [ha]
  · simp [ha]

/-- A load leaves the rest of the initialisation. -/
theorem InitInv.load {stage : Stage} {l : Cell} {k : ℕ → SegProg Rc}
    (h : InitInv cacheline c stage (.load l k) m) : InitInv cacheline c stage (k (m l)) m := by
  refine ⟨h.1, ?_⟩
  cases stage with
  | header => exact ⟨h.2.1, h.2.2.1 (m l), h.2.2.2⟩
  | slot i prim rest => exact ⟨h.2.1 (m l), h.2.2⟩
  | ring rest => exact ⟨h.2.1 (m l), h.2.2⟩

/-- A store of the creator; it does not publish the segment. -/
theorem InitInv.store {stage : Stage} {l : Cell} {v : ℕ} {k : SegProg Rc}
    (h : InitInv cacheline c stage (.store l v k) m) :
    InitInv cacheline c stage k (Function.update m l v) ∧
      Function.update m l v stateCell ≠ stateReady := by
  -- the stores after the header leave the state word alone
  have hoff : OffState l v → Function.update m l v stateCell = m stateCell :=
    fun hl => Function.update_of_ne (Ne.symm hl) _ _
  cases stage with
  | header =>
      have hstate : Function.update m l v stateCell ≠ stateReady := by
        by_cases hl : l = stateCell
        · subst hl
          rw [Function.update_self]
          exact h.2.2.1.1 rfl
        · rw [Function.update_of_ne (Ne.symm hl)]
          exact h.2.2.2
      exact ⟨⟨h.1, h.2.1, h.2.2.1.2, hstate⟩, hstate⟩
  | slot i prim rest =>
      have hkeep := (hoff h.2.1.1).trans h.2.2
      exact ⟨⟨h.1, h.2.1.2, hkeep⟩, by rw [hkeep]; decide⟩
  | ring rest =>
      have hkeep := (hoff h.2.1.1).trans h.2.2
      exact ⟨⟨h.1, h.2.1.2, hkeep⟩, by rw [hkeep]; decide⟩

/-- A segment is not `READY` during its initialisation. -/
theorem InitInv.not_ready {stage : Stage} {p : SegProg Rc} (h : InitInv cacheline c stage p m) :
    m stateCell ≠ stateReady := by
  cases stage with
  | header => exact h.2.2.2
  | _ =>
      rw [h.2.2]
      decide

/-- The queues are initialised after the slots. -/
theorem inv_startRings {rings : List RingSpec} (hmine : MadeFor sh t c g)
    (h : Prog.exec (initRings cacheline (c.layout.expect.slots.getD []) rings) (sh.mem g) =
      fullInit cacheline c) (hstate : sh.mem g stateCell = stateInitializing) :
    (ShmPc.startRings cacheline c g rings).Inv cacheline sh t := by
  cases rings with
  | nil => exact ⟨hmine, h.symm, hstate⟩
  | cons q rest =>
      exact ⟨hmine, h, stores_initRing _ _ (by simp [OffState]) (by simp [OffState])
        (by simp [OffState]), hstate⟩

/-- The slots are initialised after the directory. -/
theorem inv_startSlots {i : ℕ} {slots : List Slot} (hmine : MadeFor sh t c g)
    (h : Prog.exec (SegProg.andThen (initSlots i slots)
      (initRings cacheline (c.layout.expect.slots.getD []) c.layout.rings)) (sh.mem g) =
      fullInit cacheline c) (hstate : sh.mem g stateCell = stateInitializing) :
    (ShmPc.startSlots cacheline c g i slots).Inv cacheline sh t := by
  cases slots with
  | nil => exact inv_startRings hmine h hstate
  | cons s rest =>
      refine ⟨hmine, ?_, stores_initSlot (by simp [OffState]) _, hstate⟩
      show Prog.exec (SegProg.andThen _ (SegProg.andThen _ _)) _ = _
      rw [exec_andThen_assoc]
      exact h

/-- The initialisation of a created segment starts. -/
theorem inv_startInit (hmine : MadeFor sh t c g) (h : CreatedInv cacheline c (sh.mem g)) :
    (ShmPc.startInit cacheline c g).Inv cacheline sh t :=
  inv_startSlots hmine h.1 h.2

/-- A memory program of the creator has returned. -/
theorem inv_initReturn {stage : Stage} {rc : Rc} (e : ShmAnswer) (hmine : MadeFor sh t c g)
    (h : InitInv cacheline c stage (.ret rc) (sh.mem g)) :
    (ShmPc.initReturn cacheline c g stage rc e).Inv cacheline sh t := by
  have hbad : ∀ rc, (ShmPc.markBroken g rc).Inv cacheline sh t := fun _ => ⟨hmine.1, h.not_ready⟩
  unfold ShmPc.initReturn
  cases stage with
  | header =>
      simp only
      split_ifs with hrc
      · trivial
      · obtain rfl : rc = .ok := not_not.mp hrc
        exact ⟨hmine, h.1, shmCreateStores_state h.2.1.symm⟩
  | slot i prim rest =>
      simp only
      by_cases hrc : rc ≠ .ok
      · rw [if_pos hrc]
        exact hbad rc
      · rw [if_neg hrc]
        obtain rfl : rc = .ok := not_not.mp hrc
        have hnext : (ShmPc.startSlots cacheline c g (i + 1) rest).Inv cacheline sh t :=
          inv_startSlots hmine h.1 h.2.2
        split_ifs
        · unfold ShmPc.sysCall
          split
          · exact hbad _
          · exact hnext
        · exact hnext
  | ring rest =>
      simp only
      split_ifs with hrc
      · exact hbad rc
      · obtain rfl : rc = .ok := not_not.mp hrc
        exact inv_startRings hmine h.1 h.2.2

end Init

/-! ## The actions -/

section Actions

variable {sh sh' : ShmShared Tid} {t u : Tid} {e r : ShmAnswer}

/-- **What an action can do**: nothing to the objects (the name may go), make an object for a
name that denotes nothing, or store one word. -/
theorem perform_cases {a : ShmAct} (hr : a.perform u e sh = some (r, sh')) :
    (sh'.made = sh.made ∧ sh'.creator = sh.creator ∧ sh'.layout = sh.layout ∧
      sh'.mem = sh.mem ∧ (sh'.name = sh.name ∨ sh'.name = none)) ∨
    (∃ l, a = .openExcl l ∧ r.opened = .ok sh.made ∧ sh' = sh.make u l) ∨
    (∃ g c v, a = .store g c v ∧
      sh' = { sh with mem := Function.update sh.mem g (Function.update (sh.mem g) c v) }) := by
  unfold ShmAct.perform at hr
  cases a with
  | openExcl l =>
      simp only at hr
      split at hr
      · obtain ⟨-, rfl⟩ : _ ∧ sh = sh' := by simpa using hr
        exact .inl ⟨rfl, rfl, rfl, rfl, .inl rfl⟩
      · obtain ⟨-, rfl⟩ : _ ∧ sh = sh' := by simpa using hr
        exact .inl ⟨rfl, rfl, rfl, rfl, .inl rfl⟩
      · obtain ⟨rfl, rfl⟩ : _ = r ∧ sh.make u l = sh' := by simpa using hr
        exact .inr (.inl ⟨l, rfl, rfl, rfl⟩)
  | shmOpen =>
      simp only at hr
      split at hr
      all_goals
        obtain ⟨-, rfl⟩ : _ ∧ sh = sh' := by simpa using hr
        exact .inl ⟨rfl, rfl, rfl, rfl, .inl rfl⟩
  | shmUnlink =>
      obtain ⟨-, rfl⟩ : e = r ∧ { sh with name := none } = sh' := by simpa using hr
      exact .inl ⟨rfl, rfl, rfl, rfl, .inr rfl⟩
  | ftruncate g n =>
      simp only at hr
      split at hr
      all_goals
        obtain ⟨-, rfl⟩ : e = r ∧ _ = sh' := by simpa using hr
        exact .inl ⟨rfl, rfl, rfl, rfl, .inl rfl⟩
  | store g c v =>
      obtain ⟨-, rfl⟩ : e = r ∧ _ = sh' := by simpa using hr
      exact .inr (.inr ⟨g, c, v, rfl, rfl⟩)
  | _ =>
      obtain ⟨-, rfl⟩ : _ ∧ sh = sh' := by simpa using hr
      exact .inl ⟨rfl, rfl, rfl, rfl, .inl rfl⟩

/-- `shm_open` without `O_CREAT` opens what the name denotes. -/
theorem perform_shmOpen {g : ℕ} (hr : ShmAct.shmOpen.perform u e sh = some (r, sh'))
    (ho : r.opened = .ok g) : sh.name = some g := by
  simp only [ShmAct.perform] at hr
  split at hr
  · obtain ⟨rfl, -⟩ : _ = r ∧ sh = sh' := by simpa using hr
    cases ho
  · obtain ⟨rfl, -⟩ : _ = r ∧ sh = sh' := by simpa using hr
    cases ho
  · next hname =>
      obtain ⟨rfl, -⟩ : _ = r ∧ sh = sh' := by simpa using hr
      rw [hname]
      exact congrArg some (Except.ok.inj ho)

/-! ## What a step of the others keeps -/

/-- What a step keeps of what `t` may know. -/
structure Keeps (sh sh' : ShmShared Tid) (t : Tid) : Prop where
  unmade : MadeNone sh t → MadeNone sh' t
  mine : ∀ g, Mine sh t g →
    Mine sh' t g ∧ sh'.layout g = sh.layout g ∧ sh'.mem g = sh.mem g
  bound : ∀ g, g < sh.made → g < sh'.made
  pub : ∀ g, Published sh g → Published sh' g

/-- A step that stores nothing. -/
theorem Keeps.of_eq (hmade : sh'.made = sh.made) (hcreator : sh'.creator = sh.creator)
    (hlayout : sh'.layout = sh.layout) (hmem : sh'.mem = sh.mem) : Keeps sh sh' t where
  unmade h := by rwa [MadeNone, hcreator]
  mine g h := ⟨by rwa [Mine, hcreator], by rw [hlayout], by rw [hmem]⟩
  bound g h := by rwa [hmade]
  pub g h := by rwa [Published, hmade, hmem]

/-- A segment of a call has been made. -/
theorem Mine.lt_made {g : ℕ} (h : Mine sh t g)
    (hfresh : ∀ g, sh.made ≤ g → sh.creator g = none) : g < sh.made := by
  by_contra hg
  have hnone := hfresh g (not_lt.mp hg)
  rw [Mine, hnone] at h
  cases h

/-- A new object is not one that was there. -/
theorem Keeps.make (l : ShmLayout) (hfresh : ∀ g, sh.made ≤ g → sh.creator g = none)
    (hut : u ≠ t) : Keeps sh (sh.make u l) t where
  unmade h g := by
    by_cases hg : g = sh.made
    · subst hg
      simpa [ShmShared.make] using hut
    · simpa [ShmShared.make, hg] using h g
  mine g h := by
    have hg : g ≠ sh.made := (h.lt_made hfresh).ne
    exact ⟨by simpa [Mine, ShmShared.make, hg] using h, by simp [ShmShared.make, hg],
      by simp [ShmShared.make, hg]⟩
  bound g h := Nat.lt_succ_of_lt h
  pub g h := by
    have hg : g ≠ sh.made := h.1.ne
    exact ⟨Nat.lt_succ_of_lt h.1, by simpa [ShmShared.make, hg] using h.2⟩

/-- A store of the creator of `g`, before `g` is published. -/
theorem Keeps.store {g : ℕ} (m : SegMem) (hmine : Mine sh u g)
    (hstate : sh.mem g stateCell ≠ stateReady) (hut : u ≠ t) :
    Keeps sh { sh with mem := Function.update sh.mem g m } t where
  unmade h := h
  mine g' h := by
    have hg : g' ≠ g := by
      rintro rfl
      exact hut (Option.some.inj (hmine.symm.trans h))
    exact ⟨h, rfl, by simp [hg]⟩
  bound _ h := h
  pub g' h := by
    have hg : g' ≠ g := by
      rintro rfl
      exact hstate h.2
    exact ⟨h.1, by simpa [hg] using h.2⟩

/-- **A call still knows what it knew.** -/
theorem ShmPc.Inv.keep {p : ShmPc} (h : p.Inv cacheline sh t) (k : Keeps sh sh' t) :
    p.Inv cacheline sh' t := by
  have hmade : ∀ (c : ShmCall) (g : ℕ), MadeFor sh t c g → MadeFor sh' t c g :=
    fun c g hg => ⟨(k.mine g hg.1).1, (k.mine g hg.1).2.1.trans hg.2⟩
  have hmine : ∀ (c : ShmCall) (g : ℕ) (P : SegMem → Prop), MadeFor sh t c g ∧ P (sh.mem g) →
      MadeFor sh' t c g ∧ P (sh'.mem g) :=
    fun c g P hg => ⟨hmade c g hg.1, by rw [(k.mine g hg.1.1).2.2]; exact hg.2⟩
  have hrole : ∀ (c : ShmCall) (g : ℕ) (created : Bool),
      (Published sh g ∧ if created then MadeFor sh t c g else MadeNone sh t) →
      Published sh' g ∧ if created then MadeFor sh' t c g else MadeNone sh' t := by
    rintro c g (_ | _) ⟨hp, hr⟩
    · exact ⟨k.pub g hp, k.unmade hr⟩
    · exact ⟨k.pub g hp, hmade c g hr⟩
  cases p with
  | idle => exact k.unmade h
  | unlinkName => exact k.unmade h
  | createOpen c => exact k.unmade h
  | createStat c g => exact hmine c g (· = fun _ => 0) h
  | createTruncate c g => exact hmine c g (· = fun _ => 0) h
  | createMap c g => exact hmine c g (· = fun _ => 0) h
  | createClose c g => exact hmine c g (· = fun _ => 0) h
  | createName c g => exact hmine c g (CreatedInv cacheline c) h
  | createFail rc => trivial
  | init c g stage p => exact hmine c g (InitInv cacheline c stage p) h
  | publish c g =>
      exact hmine c g (fun m => fullInit cacheline c = (.ok, m) ∧ m stateCell = stateInitializing) h
  | markBroken g rc => exact ⟨(k.mine g h.1).1, by rw [(k.mine g h.1).2.2]; exact h.2⟩
  | unlinkBroken rc => trivial
  | attachOpen c => exact k.unmade h
  | attachSize c g => exact ⟨k.unmade h.1, k.bound g h.2⟩
  | attachSizeSleep c g => exact ⟨k.unmade h.1, k.bound g h.2⟩
  | attachWindow c g => exact ⟨k.unmade h.1, k.bound g h.2⟩
  | attachState c g => exact ⟨k.unmade h.1, k.bound g h.2⟩
  | attachStateSleep c g => exact ⟨k.unmade h.1, k.bound g h.2⟩
  | attachTotal c g => exact ⟨k.unmade h.1, k.pub g h.2⟩
  | attachFstat c g total => exact ⟨k.unmade h.1, k.pub g h.2⟩
  | attachMap c g => exact ⟨k.unmade h.1, k.pub g h.2⟩
  | attachClose c g => exact ⟨k.unmade h.1, k.pub g h.2⟩
  | attachCompare c g p => exact ⟨k.unmade h.1, k.pub g h.2.1, h.2.2⟩
  | attachName c g => exact ⟨k.unmade h.1, k.pub g h.2⟩
  | role c g =>
      rcases h with h | h
      · exact .inl (hmine c g (CreatedInv cacheline c) h)
      · exact .inr ⟨k.unmade h.1, k.pub g h.2⟩
  | region c g created => exact hrole c g created h
  | unlinkRegion rc => trivial
  | bindAll c g created => exact hrole c g created h
  | failed rc => trivial
  | done c g created => exact hrole c g created h

/-- A call that is about to store has made the object, and it is not yet published. -/
theorem ShmPc.Inv.store {p : ShmPc} {g v : ℕ} {l : Cell} (h : p.Inv cacheline sh t)
    (ha : p.act = .store g l v) : Mine sh t g ∧ sh.mem g stateCell ≠ stateReady := by
  cases p with
  | init c g' stage q =>
      cases q with
      | store l' v' k =>
          obtain ⟨rfl, -, -⟩ : g' = g ∧ l' = l ∧ v' = v := by simpa [ShmPc.act] using ha
          exact ⟨h.1.1, h.2.not_ready⟩
      | _ => simp [ShmPc.act] at ha
  | publish c g' =>
      obtain ⟨rfl, -, -⟩ : g' = g ∧ _ ∧ _ := by simpa [ShmPc.act] using ha
      exact ⟨h.1.1, by rw [h.2.2]; decide⟩
  | markBroken g' rc =>
      obtain ⟨rfl, -, -⟩ : g' = g ∧ _ ∧ _ := by simpa [ShmPc.act] using ha
      exact h
  | attachCompare c g' q =>
      cases q with
      | store l' v' k => exact absurd h.2.2.1 id
      | _ => simp [ShmPc.act] at ha
  | _ => simp [ShmPc.act] at ha

/-- A step of another call. -/
theorem keeps_of_other {p : ShmPc} (hfresh : ∀ g, sh.made ≤ g → sh.creator g = none)
    (h : p.Inv cacheline sh u) (hut : u ≠ t) (hr : p.act.perform u e sh = some (r, sh')) :
    Keeps sh sh' t := by
  obtain ⟨hmade, hcreator, hlayout, hmem, -⟩ | ⟨l, -, -, rfl⟩ | ⟨g, c, v, ha, rfl⟩ :=
    perform_cases hr
  · exact Keeps.of_eq hmade hcreator hlayout hmem
  · exact Keeps.make l hfresh hut
  · exact Keeps.store _ (h.store ha).1 (h.store ha).2 hut

/-! ## A call's own step -/

/-- A system call goes one of two ways. -/
theorem inv_sysCall {fail : Rc → ShmPc} {ok : ShmPc}
    (hfail : ∀ rc, (fail rc).Inv cacheline sh t) (hok : ok.Inv cacheline sh t) :
    (ShmPc.sysCall e fail ok).Inv cacheline sh t := by
  unfold ShmPc.sysCall
  split
  · exact hfail _
  · exact hok

/-- A call that starts has made nothing. -/
theorem inv_start (c : ShmCall) (h : MadeNone sh t) : (ShmPc.start c).Inv cacheline sh t := by
  unfold ShmPc.start
  cases c with
  | create l =>
      simp only
      split_ifs
      · trivial
      · exact h
  | attach l => exact h
  | openOrCreate l tries =>
      simp only
      split_ifs
      · trivial
      · exact h
  | unlink => exact h

/-- A refused create has made nothing. -/
theorem inv_createRefused (c : ShmCall) (rc : Rc) (h : MadeNone sh t) :
    (ShmPc.createRefused c rc).Inv cacheline sh t := by
  unfold ShmPc.createRefused
  split
  · split_ifs
    · exact h
    · trivial
  · trivial

/-- A refused attach has made nothing. -/
theorem inv_attachRefused (c : ShmCall) (rc : Rc) (h : MadeNone sh t) :
    (ShmPc.attachRefused c rc).Inv cacheline sh t := by
  unfold ShmPc.attachRefused
  split
  · split_ifs
    · trivial
    · exact h
    · trivial
  · trivial

/-- The object that an exclusive `shm_open` has just made. -/
theorem inv_make (c : ShmCall) :
    (ShmPc.createStat c sh.made).Inv cacheline (sh.make t c.layout) t :=
  ⟨⟨by simp [Mine, ShmShared.make], by simp [ShmShared.make]⟩, by simp [ShmShared.make]⟩

/-- A call that has made nothing stays so in a step that makes nothing. -/
theorem inv_createOpen {c : ShmCall} (h : MadeNone sh t)
    (hr : (ShmAct.openExcl c.layout).perform t e sh = some (r, sh')) :
    ((ShmPc.createOpen c).next cacheline r).Inv cacheline sh' t := by
  simp only [ShmAct.perform] at hr
  split at hr
  · obtain ⟨rfl, rfl⟩ : _ = r ∧ sh = sh' := by simpa using hr
    exact inv_createRefused c _ h
  · obtain ⟨rfl, rfl⟩ : _ = r ∧ sh = sh' := by simpa using hr
    exact inv_createRefused c _ h
  · obtain ⟨rfl, rfl⟩ : _ = r ∧ sh.make t c.layout = sh' := by simpa using hr
    exact inv_make c

/-- An action that makes no object and stores nothing. -/
def quiet : ShmAct → Bool
  | .openExcl _ => false
  | .store _ _ _ => false
  | _ => true

/-- A step that stores nothing and makes no object. -/
theorem quiet_step {a : ShmAct} (ha : quiet a = true) (hr : a.perform t e sh = some (r, sh')) :
    Keeps sh sh' t := by
  obtain ⟨hmade, hcreator, hlayout, hmem, -⟩ | ⟨l, rfl, -⟩ | ⟨g, c, v, rfl, -⟩ :=
    perform_cases hr
  · exact Keeps.of_eq hmade hcreator hlayout hmem
  · cases ha
  · cases ha

/-- A load gives the word and stores nothing. -/
theorem perform_load {g : ℕ} {l : Cell} (hr : (ShmAct.load g l).perform t e sh = some (r, sh')) :
    r.val = sh.mem g l ∧ sh = sh' := by
  obtain ⟨rfl, rfl⟩ : { e with val := sh.mem g l } = r ∧ sh = sh' := by
    simpa [ShmAct.perform] using hr
  exact ⟨rfl, rfl⟩

/-- A store changes one word of one segment. -/
theorem perform_store {g v : ℕ} {l : Cell}
    (hr : (ShmAct.store g l v).perform t e sh = some (r, sh')) :
    { sh with mem := Function.update sh.mem g (Function.update (sh.mem g) l v) } = sh' := by
  simpa [ShmAct.perform] using (Prod.mk.inj (Option.some.inj hr)).2

/-- The creator starts on its fresh object. -/
theorem initInv_start (c : ShmCall) :
    InitInv cacheline c .header (shmCreateStores c.layout.expect) fun _ => 0 :=
  ⟨rfl, rfl, stores_shmCreateStores _, by decide⟩

/-- **A call's own step**: it knows what its next program point says. -/
theorem ShmPc.Inv.next {p : ShmPc} (hnamed : ∀ g, sh.name = some g → g < sh.made)
    (hfresh : ∀ g, sh.made ≤ g → sh.creator g = none) (h : p.Inv cacheline sh t)
    (hr : p.act.perform t e sh = some (r, sh')) :
    (p.next cacheline r).Inv cacheline sh' t := by
  -- most steps touch no object: what was known is still known
  have hquiet : quiet p.act = true → p.Inv cacheline sh' t :=
    fun ha => h.keep (quiet_step ha hr)
  cases p with
  | idle =>
      have h' := hquiet rfl
      simp only [ShmPc.next]
      split
      · exact h'
      · exact inv_start _ h'
  | unlinkName => exact hquiet rfl
  | createOpen c => exact inv_createOpen h hr
  | createStat c g =>
      have h' := hquiet rfl
      refine inv_sysCall (fun _ => trivial) ?_
      split_ifs
      · trivial
      · exact h'
  | createTruncate c g =>
      exact inv_sysCall (fun _ => trivial) (hquiet rfl)
  | createMap c g =>
      exact inv_sysCall (fun _ => trivial) (hquiet rfl)
  | createClose c g =>
      have h' := hquiet rfl
      refine inv_sysCall (fun _ => trivial) ⟨h'.1, ?_⟩
      rw [h'.2]
      exact initInv_start c
  | createName c g =>
      have h' := hquiet rfl
      refine inv_sysCall (fun _ => trivial) ?_
      split
      · exact .inl h'
      · exact inv_startInit h'.1 h'.2
  | createFail rc => trivial
  | init c g stage q =>
      cases q with
      | ret rc =>
          have h' := hquiet rfl
          exact inv_initReturn r h'.1 h'.2
      | load l k =>
          obtain ⟨hval, rfl⟩ := perform_load hr
          refine ⟨h.1, ?_⟩
          rw [hval]
          exact h.2.load
      | store l v k =>
          obtain rfl := perform_store hr
          refine ⟨h.1, ?_⟩
          simpa using h.2.store.1
  | publish c g =>
      obtain rfl := perform_store hr
      exact ⟨⟨h.1.1.lt_made hfresh, by simp⟩, h.1⟩
  | markBroken g rc => trivial
  | unlinkBroken rc => trivial
  | attachOpen c =>
      have h' := hquiet rfl
      have hk := quiet_step rfl hr
      simp only [ShmPc.next]
      split
      · exact inv_attachRefused c _ h'
      · next g ho => exact ⟨h', hk.bound g (hnamed g (perform_shmOpen hr ho))⟩
  | attachSize c g =>
      have h' := hquiet rfl
      refine inv_sysCall (fun _ => trivial) ?_
      split_ifs
      · trivial
      · exact h'
      · exact h'
  | attachSizeSleep c g =>
      exact inv_sysCall (fun _ => trivial) (hquiet rfl)
  | attachWindow c g =>
      exact inv_sysCall (fun _ => trivial) (hquiet rfl)
  | attachState c g =>
      obtain ⟨hval, rfl⟩ := perform_load hr
      simp only [ShmPc.next]
      split_ifs with _ hready
      · trivial
      · exact ⟨h.1, h.2, hval.symm.trans hready⟩
      · trivial
      · exact h
  | attachStateSleep c g =>
      exact inv_sysCall (fun _ => trivial) (hquiet rfl)
  | attachTotal c g =>
      have h' := hquiet rfl
      simp only [ShmPc.next]
      split_ifs
      · trivial
      · exact h'
  | attachFstat c g total =>
      have h' := hquiet rfl
      refine inv_sysCall (fun _ => trivial) ?_
      split_ifs
      · trivial
      · trivial
      · exact h'
  | attachMap c g =>
      exact inv_sysCall (fun _ => trivial) (hquiet rfl)
  | attachClose c g =>
      have h' := hquiet rfl
      exact inv_sysCall (fun _ => trivial) ⟨h'.1, h'.2, stores_compareExpect _⟩
  | attachCompare c g q =>
      cases q with
      | ret rc =>
          have h' := hquiet rfl
          simp only [ShmPc.next]
          split_ifs
          · trivial
          · exact ⟨h'.1, h'.2.1⟩
      | load l k =>
          have h' := hquiet rfl
          exact ⟨h'.1, h'.2.1, h'.2.2 r.val⟩
      | store l v k => exact absurd h.2.2.1 id
  | attachName c g =>
      have h' := hquiet rfl
      refine inv_sysCall (fun _ => trivial) ?_
      split
      · exact .inr h'
      · exact ⟨h'.2, h'.1⟩
  | role c g =>
      obtain ⟨hval, rfl⟩ := perform_load hr
      simp only [ShmPc.next]
      rcases h with h | h
      · rw [if_pos (hval.trans h.2.2)]
        exact inv_startInit h.1 h.2
      · rw [if_neg (by rw [hval, h.2.2]; decide)]
        exact ⟨h.2, h.1⟩
  | region c g created =>
      have h' := hquiet rfl
      simp only [ShmPc.next]
      refine inv_sysCall (fun rc => ?_) h'
      cases created <;> trivial
  | unlinkRegion rc => trivial
  | bindAll c g created =>
      exact inv_sysCall (fun _ => trivial) (hquiet rfl)
  | failed rc => trivial
  | done c g created => exact hquiet rfl

end Actions

/-! ## Runs -/

section Runs

variable {s : State Tid ShmPc (ShmShared Tid)} {sh : ShmShared Tid} {t : Tid} {p : ShmPc}
  {e r : ShmAnswer}

/-- A store that gives a segment the state `READY` is the publication of a complete one. -/
theorem complete_of_store {g v : ℕ} {l : Cell} (h : p.Inv cacheline sh t)
    (ha : p.act = .store g l v) (hready : Function.update (sh.mem g) l v stateCell = stateReady) :
    Complete cacheline (sh.layout g) (Function.update (sh.mem g) l v) := by
  cases p with
  | init c g' stage q =>
      cases q with
      | store l' v' k =>
          obtain ⟨rfl, rfl, rfl⟩ : g' = g ∧ l' = l ∧ v' = v := by simpa [ShmPc.act] using ha
          exact absurd hready h.2.store.2
      | _ => simp [ShmPc.act] at ha
  | publish c g' =>
      obtain ⟨rfl, rfl, rfl⟩ : g' = g ∧ stateCell = l ∧ stateReady = v := by
        simpa [ShmPc.act] using ha
      rw [h.1.2]
      exact ⟨sh.mem g', h.2.1, rfl⟩
  | markBroken g' rc =>
      obtain ⟨rfl, rfl, rfl⟩ : g' = g ∧ stateCell = l ∧ stateBroken = v := by
        simpa [ShmPc.act] using ha
      rw [Function.update_self] at hready
      exact absurd hready (by decide)
  | attachCompare c g' q =>
      cases q with
      | store l' v' k => exact absurd h.2.2.1 id
      | _ => simp [ShmPc.act] at ha
  | _ => simp [ShmPc.act] at ha

/-- One step keeps what is known of the objects. -/
theorem ready_step (hinv : ShmInv cacheline s) (hp : s.pc t = some p)
    (hr : p.act.perform t e s.shared = some (r, sh)) (g : ℕ) (hg : Published sh g) :
    Complete cacheline (sh.layout g) (sh.mem g) := by
  obtain ⟨hmade, -, hlayout, hmem, -⟩ | ⟨l, -, -, rfl⟩ | ⟨g', l, v, ha, rfl⟩ := perform_cases hr
  · rw [Published, hmade, hmem] at hg
    rw [hlayout, hmem]
    exact hinv.ready g hg
  · by_cases hnew : g = s.shared.made
    · -- the content of a new object is zero, which is not `READY`
      subst hnew
      exact absurd hg.2 (by simp [ShmShared.make, stateReady])
    · have hold : g < s.shared.made := lt_of_le_of_ne (Nat.lt_succ_iff.mp hg.1) hnew
      have hg2 : s.shared.mem g stateCell = stateReady := by
        simpa [ShmShared.make, hnew] using hg.2
      simpa [ShmShared.make, hnew] using hinv.ready g ⟨hold, hg2⟩
  · by_cases hsame : g = g'
    · subst hsame
      have hready : Function.update (s.shared.mem g) l v stateCell = stateReady := by
        simpa using hg.2
      simpa using complete_of_store (hinv.knows t p hp) ha hready
    · have hg2 : s.shared.mem g stateCell = stateReady := by simpa [hsame] using hg.2
      simpa [hsame] using hinv.ready g ⟨hg.1, hg2⟩

variable [DecidableEq Tid]

/-- **The invariant is kept by every action.** -/
theorem ShmInv.step (hinv : ShmInv cacheline s) (hp : s.pc t = some p)
    (hr : p.act.perform t e s.shared = some (r, sh)) :
    ShmInv cacheline ⟨Function.update s.pc t (some (p.next cacheline r)), sh⟩ where
  named g hg := by
    obtain ⟨hmade, -, -, -, hname⟩ | ⟨l, -, -, rfl⟩ | ⟨g', l, v, -, rfl⟩ := perform_cases hr
    · rw [hmade]
      rcases hname with hname | hname
      · exact hinv.named g (hname ▸ hg)
      · rw [hname] at hg
        cases hg
    · obtain rfl : s.shared.made = g := by simpa [ShmShared.make] using hg
      exact Nat.lt_succ_self _
    · exact hinv.named g hg
  fresh g hg := by
    obtain ⟨hmade, hcreator, -⟩ | ⟨l, -, -, rfl⟩ | ⟨g', l, v, -, rfl⟩ := perform_cases hr
    · rw [hcreator]
      exact hinv.fresh g (hmade ▸ hg)
    · have hlt : s.shared.made < g := hg
      have hnone := hinv.fresh g hlt.le
      simpa [ShmShared.make, hlt.ne'] using hnone
    · exact hinv.fresh g hg
  owned g hg := by
    obtain ⟨hmade, hcreator, -⟩ | ⟨l, -, -, rfl⟩ | ⟨g', l, v, -, rfl⟩ := perform_cases hr
    · rw [hcreator]
      exact hinv.owned g (hmade ▸ hg)
    · by_cases hnew : g = s.shared.made
      · exact ⟨t, by simp [ShmShared.make, hnew]⟩
      · have hold : g < s.shared.made := lt_of_le_of_ne (Nat.lt_succ_iff.mp hg) hnew
        simpa [ShmShared.make, hnew] using hinv.owned g hold
    · exact hinv.owned g hg
  knows u q hq := by
    by_cases hut : u = t
    · subst hut
      obtain rfl : p.next cacheline r = q := by simpa using hq
      exact (hinv.knows u p hp).next hinv.named hinv.fresh hr
    · have hq' : s.pc u = some q := by simpa [hut] using hq
      exact (hinv.knows u q hq').keep
        (keeps_of_other hinv.fresh (hinv.knows t p hp) (Ne.symm hut) hr)
  ready := ready_step hinv hp hr

/-- A process that dies leaves the objects as they are. -/
theorem ShmInv.die (hinv : ShmInv cacheline s) (t : Tid) :
    ShmInv cacheline ⟨Function.update s.pc t none, s.shared⟩ where
  named := hinv.named
  fresh := hinv.fresh
  owned := hinv.owned
  knows u q hq := by
    by_cases hut : u = t
    · subst hut
      simp at hq
    · exact hinv.knows u q (by simpa [hut] using hq)
  ready := hinv.ready

omit [DecidableEq Tid] in
/-- At the start there is no segment. -/
theorem shmInv_start : ShmInv cacheline (shmStart Tid) where
  named g hg := by cases hg
  fresh _ _ := rfl
  owned g hg := absurd hg (Nat.not_lt_zero g)
  knows t p hp := by
    obtain rfl : ShmPc.idle = p := Option.some.inj hp
    intro g hg
    cases hg
  ready g hg := absurd hg.1 (Nat.not_lt_zero g)

/-- A layout with a mutex in slot 0 and a queue of two items of four bytes in slot 1. -/
def pairLayout : ShmLayout where
  expect :=
    { layoutVersion := 1
      slotCount := 2
      abiTag := 7
      flags := 0
      totalSize := 512
      directoryBytes := 32
      layoutDigest := 9
      slots := some [⟨2, 8, 128, 40, 0⟩, ⟨1, 64, 192, 256, 0⟩] }
  rings := [⟨1, false, 2, 4⟩]

/-- No system call fails. -/
def ShmAnswer.fine : ShmAnswer := ⟨none, .error .ok, 0, false, none⟩

end Runs

end PosixIpc
