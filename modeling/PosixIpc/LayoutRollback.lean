/-
# A failing add changes nothing (`py_layout.c`)

A call that raises may have moved the slots of the layout and enlarged their array.  The readers
of the slots, `digest`, `slots`, `create`, `attach` and `open_or_create`, build them first, so
that nobody sees where they were.

* `LaterOp`, `runLater` : what a program can do with the layout afterwards, and what it sees;
* `Alias` : the two layouts that a program cannot tell apart, because one of them was not
  disturbed; each operation keeps it (`alias_step`);
* `failed_add_changes_nothing` : the run after a failed call is the run without it.
-/
import PosixIpc.LayoutRuns

namespace PosixIpc

open Word32

/-! ## What a program can do -/

/-- The handles with their new records; those that have no object yet get one. -/
def relabel (p : Platform) : List HandleObj → List LayoutHandle → List HandleObj
  | _, [] => []
  | [], h :: hs => HandleObj.unbound p h :: relabel p [] hs
  | o :: os, h :: hs => { o with handle := h } :: relabel p os hs

/-- An add on a layout some of whose handles may be bound. -/
def LayoutInst.apply (p : Platform) (l : LayoutInst) (op : AddOp) (fault : AllocFault) :
    LayoutInst × Except PyError Unit :=
  let x := l.plain.apply p op fault
  (⟨x.1.slots, x.1.cap, relabel p l.objs x.1.handles, x.1.sealed⟩, x.2)

/-- `layout_get_digest`, which builds the slots where they are. -/
def layoutGetDigest (p : Platform) (l : LayoutInst) : LayoutInst × Except PyError ℕ :=
  let b := posixipcLayoutBuild p l.slots
  match b.2 with
  | .error rc => ({ l with slots := b.1 }, .error (posixipcErr rc))
  | .ok e => ({ l with slots := b.1 }, .ok e.layoutDigest)

/-- `layout_get_slots`. -/
def layoutGetSlots (p : Platform) (l : LayoutInst) : LayoutInst × Except PyError (List Slot) :=
  let x := l.sync p
  match x.2 with
  | .error e => (x.1, .error e)
  | .ok () => (x.1, .ok x.1.slots)

/-- An operation on a layout.  `openAs` is `create`, `attach` or `open_or_create`: the segment is
what the rest of the system makes of the expectation, and, for the rings, of the handles. -/
inductive LaterOp
  | add (op : AddOp) (fault : AllocFault)
  | openAs (r : ℕ) (faults : ℕ → BindFaults)
      (segment : List LayoutHandle → Expect → Option (Except PyError SegMem))
  | digest
  | slots

/-- What the caller gets; a call that still waits gives nothing. -/
inductive Output
  | added (result : Except PyError Unit)
  | opened (pins : ℕ) (result : Except PyError Unit)
  | waits
  | digest (result : Except PyError ℕ)
  | slots (result : Except PyError (List Slot))

def LaterOp.run (p : Platform) (l : LayoutInst) : LaterOp → LayoutInst × Output
  | .add op fault =>
    let x := l.apply p op fault
    (x.1, .added x.2)
  | .openAs r faults segment =>
    match layoutOpen p r faults (segment l.plain.handles) l with
    | none => ((l.sync p).1, .waits)
    | some x => (x.inst, .opened x.pins x.result)
  | .digest =>
    let x := layoutGetDigest p l
    (x.1, .digest x.2)
  | .slots =>
    let x := layoutGetSlots p l
    (x.1, .slots x.2)

/-- What a program sees: the result of each operation, and the handles after it. -/
def runLater (p : Platform) : LayoutInst → List LaterOp → List (Output × List HandleObj)
  | _, [] => []
  | l, op :: rest =>
    let x := op.run p l
    (x.2, x.1.objs) :: runLater p x.1 rest

/-- The operation does not fail to enlarge the array of slots. -/
def LaterOp.Grows : LaterOp → Prop
  | .add _ fault => fault ≠ .realloc
  | _ => True

/-! ## Builds of moved slots -/

section Build

variable {p : Platform}

/-- Alike lists fail alike. -/
theorem buildSlots_result {a b : List Slot} (hab : List.Forall₂ (Slot.Alike p) a b)
    (cursor : ℕ) : (buildSlots p cursor b).2 = (buildSlots p cursor a).2 := by
  induction hab generalizing cursor with
  | nil => rfl
  | cons hs _ ih =>
    unfold buildSlots
    rw [hs.effAlign, hs.effSize]
    simp only
    split_ifs
    · rfl
    · rfl
    · rfl
    · exact ih _

theorem posixipcLayoutBuild_error {a b : List Slot} {rc : Rc}
    (hab : List.Forall₂ (Slot.Alike p) a b) (h : (posixipcLayoutBuild p a).2 = .error rc) :
    (posixipcLayoutBuild p b).2 = .error rc := by
  unfold posixipcLayoutBuild at h ⊢
  simp only [← hab.length_eq] at h ⊢
  split_ifs at h ⊢ with hbig
  · exact h
  · have hres := buildSlots_result hab (u32 (headerBytes + u32 (a.length * sizeofSlot)))
    cases hr : (buildSlots p (u32 (headerBytes + u32 (a.length * sizeofSlot))) a).2 with
    | error rc' =>
      rw [hr] at h hres
      rw [hres]
      exact h
    | ok cursor =>
      rw [hr] at h hres
      rw [hres]
      simp only at h ⊢
      split_ifs at h ⊢
      exact h

/-- A layout with another capacity. -/
def LayoutObj.withCap (l : LayoutObj) (c : ℕ) : LayoutObj := { l with cap := c }

theorem SameLayout.of_withCap {l l' : LayoutObj} {c : ℕ} (h : l' = l.withCap c) :
    SameLayout l l' := by
  rw [h]
  exact ⟨rfl, rfl, List.forall₂_same.mpr fun s _ => .refl s⟩

/-- **`layout_sync` on moved slots**: the same result, and after a success the same layout. -/
theorem layoutSync_congr {l l' : LayoutObj} (hn : l.nslots ≤ 0xffff)
    (hslots : List.Forall₂ (Slot.Alike p) l.slots l'.slots) (hh : l'.handles = l.handles)
    (hsealed : l'.sealed = l.sealed) :
    (layoutSync p l').2 = (layoutSync p l).2 ∧
      ((layoutSync p l).2 = .ok () →
        (layoutSync p l').1 = (layoutSync p l).1.withCap l'.cap) := by
  unfold layoutSync
  simp only
  cases hb : (posixipcLayoutBuild p l.slots).2 with
  | error rc =>
    rw [posixipcLayoutBuild_error hslots hb]
    exact ⟨rfl, fun h => by cases h⟩
  | ok e =>
    have hbuild := posixipcLayoutBuild_congr hn hslots (Prod.ext rfl hb)
    rw [hbuild, hh]
    refine ⟨rfl, fun _ => ?_⟩
    unfold LayoutObj.withCap
    simp only [hsealed]

end Build

/-! ## Adds on moved slots -/

section Add

variable {p : Platform} {ops ops' : List AddOp} {l l' : LayoutObj} {op : AddOp}
  {fault : AllocFault} {g : LayoutHandle} {blk : List Slot}

/-- What a call leaves of two layouts that only differ in the places of their slots. -/
structure SameAdd (l l' : LayoutObj) (x x' : LayoutObj × Except PyError Unit) : Prop where
  result : x'.2 = x.2
  layout : SameLayout x.1 x'.1
  cap : l'.cap = l.cap → x'.1.cap = x.1.cap

@[simp] theorem commitSlots_cap : (commitSlots p l g blk fault).1.cap = l.cap := by
  have hsync : ∀ k : LayoutObj, (layoutSync p k).1.cap = k.cap := by
    intro k
    unfold layoutSync
    simp only
    split <;> rfl
  unfold commitSlots
  split_ifs
  · rfl
  · simp only
    split
    · exact hsync _
    · exact hsync _

/-- **A commit on moved slots.** -/
theorem commitSlots_same (hinv : RunInv p ops l) (hinv' : RunInv p ops' l')
    (hsame : SameLayout l l') (hreq : SlotRequest p l g blk) (hreq' : SlotRequest p l' g blk)
    (hn : l.nslots + blk.length ≤ 0xffff) :
    SameAdd l l' (commitSlots p l g blk fault) (commitSlots p l' g blk fault) := by
  have hn' : l'.nslots + blk.length ≤ 0xffff := by
    rw [hsame.nslots]
    exact hn
  have hcap : l'.cap = l.cap →
      (commitSlots p l' g blk fault).1.cap = (commitSlots p l g blk fault).1.cap := by
    rw [commitSlots_cap, commitSlots_cap]
    exact id
  -- the two lists with the new slots are built alike
  have halike : List.Forall₂ (Slot.Alike p) (l.slots ++ blk) (l'.slots ++ blk) :=
    List.rel_append (hsame.slots.imp fun _ _ hm => hm.alike)
      (List.forall₂_same.mpr fun s _ => .refl p s)
  obtain ⟨hres, hok⟩ := @layoutSync_congr p
    { l with slots := l.slots ++ blk, handles := l.handles ++ [g] }
    { l' with slots := l'.slots ++ blk, handles := l'.handles ++ [g] }
    (by rw [LayoutObj.nslots, List.length_append]; exact hn) halike
    (by simp only [hsame.handles]) hsame.sealed
  have hcommit : (commitSlots p l' g blk fault).2 = (commitSlots p l g blk fault).2 := by
    unfold commitSlots
    by_cases hf : fault = .append
    · rw [if_pos hf, if_pos hf]
    · rw [if_neg hf, if_neg hf]
      simp only
      rw [hres]
      cases hr : (layoutSync p
          { l with slots := l.slots ++ blk, handles := l.handles ++ [g] }).2 with
      | ok u =>
        simp only
        rw [hres]
      | error e => rfl
  refine ⟨hcommit, ?_, hcap⟩
  cases hr : (commitSlots p l g blk fault).2 with
  | error e =>
    -- both are taken back
    have h1 := (hinv.commit_error hreq hn (Prod.ext rfl hr)).1
    have h2 := (hinv'.commit_error hreq' hn' (Prod.ext rfl (hcommit.trans hr))).1
    exact h1.symm.trans (hsame.trans h2)
  | ok u =>
    have h1 := commitSlots_ok (Prod.ext rfl hr)
    have h2 := commitSlots_ok (Prod.ext rfl (hcommit.trans hr))
    have heq := hok (congrArg Prod.snd h1)
    rw [h1, h2] at heq
    exact .of_withCap heq

/-- A request depends on the handles and the number of slots only. -/
theorem SlotRequest.same (hsame : SameLayout l l') (hreq : SlotRequest p l g blk) :
    SlotRequest p l' g blk := by
  have hindex : ∀ i, l'.mutexIndex i = l.mutexIndex i := by
    intro i
    unfold LayoutObj.mutexIndex
    rw [hsame.handles]
  cases hreq with
  | one hone =>
    rw [← hsame.nslots]
    refine .one ?_
    cases hone with
    | mutex prio => exact .mutex prio
    | robustMutex prio => exact .robustMutex prio
    | rwlock => exact .rwlock
    | @condition i index hi => exact .condition ((hindex i).trans hi)
    | semaphore hv => exact .semaphore hv
    | barrier hb hv => exact .barrier hb hv
    | spinLock hs => exact .spinLock hs
  | bytes hne =>
    rw [← hsame.nslots]
    exact .bytes hne
  | array hk hne =>
    rw [← hsame.nslots]
    exact .array hk hne
  | queue h1 h2 h3 h4 =>
    rw [← hsame.nslots]
    exact .queue h1 h2 h3 h4
  | futexQueue h1 h2 h3 h4 =>
    rw [← hsame.nslots]
    exact .futexQueue h1 h2 h3 h4

/-- The capacity after `layout_ensure` comes from the capacity before. -/
theorem layoutEnsure_cap_eq {l₁ l₁' : LayoutObj} {need : ℕ}
    (hens : layoutEnsure l need fault = .ok l₁) (hens' : layoutEnsure l' need fault = .ok l₁')
    (hcap : l'.cap = l.cap) : l₁'.cap = l₁.cap := by
  unfold layoutEnsure at hens hens'
  rw [hcap] at hens'
  split_ifs at hens hens'
  · rw [← Except.ok.inj hens, ← Except.ok.inj hens']
    exact hcap
  · rw [← Except.ok.inj hens, ← Except.ok.inj hens']
  · rw [← Except.ok.inj hens, ← Except.ok.inj hens']

/-- **An add on moved slots.** -/
theorem apply_same (hinv : RunInv p ops l) (hinv' : RunInv p ops' l') (hsame : SameLayout l l')
    (hgrows : fault ≠ .realloc ∨ l'.cap = l.cap) :
    SameAdd l l' (l.apply p op fault) (l'.apply p op fault) := by
  have hpair := @addPair p l l' fault ⟨hsame.handles, hsame.sealed, hsame.nslots, hgrows⟩ op
  generalize l.apply p op fault = x, l'.apply p op fault = x' at hpair ⊢
  cases hpair with
  | early e => exact ⟨rfl, hsame, id⟩
  | reserved e hens hens' =>
    exact ⟨rfl, (SameLayout.cap hens).symm.trans (hsame.trans (.cap hens')),
      layoutEnsure_cap_eq hens hens'⟩
  | @commit l₁ l₁' g blk hens hens' hreq hop hnum =>
    have hreq' := hreq.same hsame
    obtain ⟨hres, hlayout, hcap⟩ := @commitSlots_same p ops ops' l₁ l₁' fault g blk
      (hinv.ensure hens) (hinv'.ensure hens')
      ((SameLayout.cap hens).symm.trans (hsame.trans (.cap hens'))) (hreq.cap hens)
      (hreq'.cap hens') (by rw [layoutEnsure_nslots hens]; exact (layoutEnsure_ok hens).1)
    exact ⟨hres, hlayout, fun h => hcap (layoutEnsure_cap_eq hens hens' h)⟩

end Add

/-! ## Another capacity -/

/-- A layout with another capacity. -/
def LayoutInst.withCap (l : LayoutInst) (c : ℕ) : LayoutInst := { l with cap := c }

section Cap

variable {p : Platform} {l l' : LayoutObj} {op : AddOp} {fault : AllocFault} {c : ℕ}

theorem layoutSync_withCap (p : Platform) (l : LayoutObj) (c : ℕ) :
    layoutSync p (l.withCap c) = ((layoutSync p l).1.withCap c, (layoutSync p l).2) := by
  unfold layoutSync LayoutObj.withCap
  simp only
  cases (posixipcLayoutBuild p l.slots).2 <;> rfl

theorem commitSlots_withCap (l : LayoutObj) (c : ℕ) (g : LayoutHandle) (blk : List Slot) :
    commitSlots p (l.withCap c) g blk fault
      = ((commitSlots p l g blk fault).1.withCap c, (commitSlots p l g blk fault).2) := by
  have hsync := layoutSync_withCap p
    { l with slots := l.slots ++ blk, handles := l.handles ++ [g] } c
  unfold commitSlots
  split_ifs
  · rfl
  · unfold LayoutObj.withCap at hsync ⊢
    simp only at hsync ⊢
    rw [hsync]
    generalize layoutSync p { l with slots := l.slots ++ blk, handles := l.handles ++ [g] } = r
    obtain ⟨k, e | u⟩ := r <;> rfl

/-- **An add does not depend on the capacity**, unless the array cannot be enlarged. -/
theorem apply_withCap (hgrows : fault ≠ .realloc ∨ c = l.cap) :
    ∃ c', (l.withCap c).apply p op fault
      = ((l.apply p op fault).1.withCap c', (l.apply p op fault).2) := by
  have hpair := @addPair p l (l.withCap c) fault ⟨rfl, rfl, rfl, hgrows⟩ op
  generalize l.apply p op fault = x, (l.withCap c).apply p op fault = x' at hpair ⊢
  cases hpair with
  | early e => exact ⟨c, rfl⟩
  | @reserved l₁ l₁' n e hens hens' =>
    refine ⟨l₁'.cap, ?_⟩
    rw [(layoutEnsure_ok hens).2, (layoutEnsure_ok hens').2]
    rfl
  | @commit l₁ l₁' g blk hens hens' hreq hop hnum =>
    have heq : l₁' = l₁.withCap l₁'.cap := by
      rw [(layoutEnsure_ok hens).2, (layoutEnsure_ok hens').2]
      rfl
    refine ⟨l₁'.cap, ?_⟩
    rw [heq]
    exact commitSlots_withCap l₁ _ g blk

theorem sync_withCap (l : LayoutInst) (c : ℕ) :
    (l.withCap c).sync p = ((l.sync p).1.withCap c, (l.sync p).2) := by
  have hsync := layoutSync_withCap p l.plain c
  unfold LayoutInst.sync
  have hplain : (l.withCap c).plain = l.plain.withCap c := rfl
  rw [hplain, hsync]
  rfl

/-- `layout_create`, `layout_attach` and `layout_open_or_create` after `layout_sync`. -/
def openSynced (p : Platform) (r : ℕ) (faults : ℕ → BindFaults)
    (segment : Expect → Option (Except PyError SegMem)) (x : LayoutInst × Except PyError Unit) :
    Option OpenEnd :=
  match x.2 with
  | .error e => some ⟨x.1, 0, .error e⟩
  | .ok () =>
    match (posixipcLayoutBuild p x.1.slots).2 with
    | .error rc => some ⟨x.1, 0, .error (posixipcErr rc)⟩
    | .ok e =>
      match segment e with
      | none => none
      | some (.error e) => some ⟨x.1, 0, .error e⟩
      | some (.ok m) =>
        let y := layoutBindAll p r faults m x.1.slots 0 x.1.objs 0
        match y.2.2 with
        | .error e => some ⟨{ x.1 with objs := y.1 }, y.2.1, .error e⟩
        | .ok () => some ⟨{ x.1 with objs := y.1, sealed := true }, y.2.1, .ok ()⟩

theorem layoutOpen_eq (r : ℕ) (faults : ℕ → BindFaults)
    (segment : Expect → Option (Except PyError SegMem)) (l : LayoutInst) :
    layoutOpen p r faults segment l = openSynced p r faults segment (l.sync p) := rfl

theorem openSynced_withCap (r : ℕ) (faults : ℕ → BindFaults)
    (segment : Expect → Option (Except PyError SegMem)) (l : LayoutInst)
    (result : Except PyError Unit) (c : ℕ) :
    openSynced p r faults segment (l.withCap c, result)
      = (openSynced p r faults segment (l, result)).map
        fun x => { x with inst := x.inst.withCap c } := by
  unfold openSynced LayoutInst.withCap
  simp only
  cases result with
  | error e => rfl
  | ok u =>
    simp only
    cases (posixipcLayoutBuild p l.slots).2 with
    | error rc => rfl
    | ok e =>
      simp only
      cases segment e with
      | none => rfl
      | some m =>
        cases m with
        | error e => rfl
        | ok m =>
          simp only
          cases (layoutBindAll p r faults m l.slots 0 l.objs 0).2.2 <;> rfl

theorem openSynced_cap {r : ℕ} {faults : ℕ → BindFaults}
    {segment : Expect → Option (Except PyError SegMem)} {l : LayoutInst}
    {result : Except PyError Unit} {x : OpenEnd}
    (h : openSynced p r faults segment (l, result) = some x) : x.inst.cap = l.cap := by
  have hself : openSynced p r faults segment (l, result) = (some x).map _ :=
    (openSynced_withCap r faults segment l result l.cap).trans (by rw [h])
  rw [h] at hself
  exact congrArg (fun y => y.inst.cap) (Option.some.inj hself)

end Cap

/-! ## Layouts that look the same -/

/-- **Two layouts that a program cannot tell apart**: after adds only, slots may have moved; once
the slots were read the two layouts only differ in the capacity. -/
inductive Alias (p : Platform) : LayoutInst → LayoutInst → Prop
  | moved {ops ops' : List AddOp} {l l' : LayoutObj} : RunInv p ops l → RunInv p ops' l' →
      SameLayout l l' → Alias p (l.inst p) (l'.inst p)
  | cap (l : LayoutInst) (c : ℕ) : Alias p l (l.withCap c)

/-- What an operation leaves of two such layouts. -/
structure AliasEnd (p : Platform) (l l' : LayoutInst) (x x' : LayoutInst × Output) : Prop where
  output : x'.2 = x.2
  objs : x'.1.objs = x.1.objs
  states : Alias p x.1 x'.1
  cap : l'.cap = l.cap → x'.1.cap = x.1.cap

section Step

variable {p : Platform} {l l' : LayoutInst} {op : LaterOp}

/-- The same output, and another capacity that is kept. -/
theorem AliasEnd.of_withCap {x : LayoutInst} {o : Output} {c : ℕ}
    (hc : l'.cap = l.cap → c = x.cap) :
    AliasEnd p l l' (x, o) (x.withCap c, o) := ⟨rfl, rfl, .cap x c, hc⟩

theorem relabel_unbound (p : Platform) (hs hs' : List LayoutHandle) :
    relabel p (hs.map (HandleObj.unbound p)) hs' = hs'.map (HandleObj.unbound p) := by
  induction hs' generalizing hs with
  | nil => cases hs <;> rfl
  | cons h rest ih =>
    cases hs with
    | nil => exact congrArg (List.cons _) (ih [])
    | cons k hs => exact congrArg (List.cons _) (ih hs)

theorem inst_apply (p : Platform) (l : LayoutObj) (op : AddOp) (fault : AllocFault) :
    (l.inst p).apply p op fault = ((l.apply p op fault).1.inst p, (l.apply p op fault).2) := by
  unfold LayoutInst.apply
  rw [LayoutObj.plain_inst]
  simp only
  refine Prod.ext ?_ rfl
  unfold LayoutObj.inst
  simp only [LayoutInst.mk.injEq, true_and, and_true]
  exact relabel_unbound p l.handles _

theorem sync_inst {l : LayoutObj} {out : List Slot}
    (h : layoutSync p l = ({ l with slots := out }, .ok ())) :
    (l.inst p).sync p = (({ l with slots := out } : LayoutObj).inst p, .ok ()) := by
  unfold LayoutInst.sync
  simp only [LayoutObj.plain_inst, h]
  refine Prod.ext ?_ rfl
  unfold LayoutObj.inst
  simp only [LayoutInst.mk.injEq, true_and, and_true]
  induction l.handles with
  | nil => rfl
  | cons g rest ih => exact congrArg₂ List.cons rfl ih

/-- After a rebuild only the capacity is left. -/
theorem SameLayout.rebuilt {l l' : LayoutObj} (h : SameLayout l l') (out : List Slot) :
    ({ l' with slots := out } : LayoutObj).inst p
      = (({ l with slots := out } : LayoutObj).inst p).withCap l'.cap := by
  unfold LayoutObj.inst LayoutInst.withCap
  simp only [h.handles, h.sealed]

/-- **An operation after adds only.** -/
theorem moved_step {ops ops' : List AddOp} {a b : LayoutObj} (hinv : RunInv p ops a)
    (hinv' : RunInv p ops' b) (hsame : SameLayout a b) (hgrows : op.Grows ∨ b.cap = a.cap) :
    AliasEnd p (a.inst p) (b.inst p) (op.run p (a.inst p)) (op.run p (b.inst p)) := by
  obtain ⟨out, hsync⟩ := hinv.rebuild
  have hsync' := hsame.sync hinv.inv.count hsync
  have hleft := sync_inst hsync
  have hright : (b.inst p).sync p
      = ((({ a with slots := out } : LayoutObj).inst p).withCap b.cap, .ok ()) := by
    rw [sync_inst hsync', hsame.rebuilt]
  cases op with
  | add op fault =>
    obtain ⟨hres, hlayout, hcap⟩ := @apply_same p ops ops' a b op fault hinv hinv' hsame hgrows
    simp only [LaterOp.run, inst_apply]
    refine ⟨congrArg Output.added hres, ?_, ?_, hcap⟩
    · show (b.apply p op fault).1.handles.map _ = (a.apply p op fault).1.handles.map _
      rw [hlayout.handles]
    · -- each of the two calls keeps the invariant, whichever way it ends
      have hkeep : ∀ {os : List AddOp} {k : LayoutObj}, RunInv p os k →
          ∃ os', RunInv p os' (k.apply p op fault).1 := by
        intro os k hk
        cases hr : (k.apply p op fault).2 with
        | ok u => exact ⟨_, hk.apply_ok (Prod.ext rfl hr)⟩
        | error e => exact ⟨_, (hk.apply_error (Prod.ext rfl hr)).2⟩
      obtain ⟨os, h1⟩ := hkeep hinv
      obtain ⟨os', h2⟩ := hkeep hinv'
      exact .moved h1 h2 hlayout
  | openAs r faults segment =>
    simp only [LaterOp.run, LayoutObj.plain_inst, hsame.handles, layoutOpen_eq, hleft, hright,
      openSynced_withCap]
    cases ho : openSynced p r faults (segment a.handles)
        (({ a with slots := out } : LayoutObj).inst p, .ok ()) with
    | none => exact .of_withCap id
    | some x => exact .of_withCap fun hcap => hcap.trans (openSynced_cap ho).symm
  | digest =>
    obtain ⟨e, hbuild, -, -⟩ := layoutSync_ok hsync
    have hbuild' := posixipcLayoutBuild_congr hinv.inv.count
      (hsame.slots.imp fun _ _ hm => hm.alike) hbuild
    have hdigest : ∀ k : LayoutObj, posixipcLayoutBuild p k.slots = (out, .ok e) →
        layoutGetDigest p (k.inst p)
          = (({ k with slots := out } : LayoutObj).inst p, .ok e.layoutDigest) := by
      intro k hk
      unfold layoutGetDigest
      rw [show (k.inst p).slots = k.slots from rfl, hk]
      rfl
    have hright' := hdigest b hbuild'
    rw [hsame.rebuilt out] at hright'
    simp only [LaterOp.run, hdigest a hbuild, hright']
    exact .of_withCap id
  | slots =>
    simp only [LaterOp.run, layoutGetSlots, hleft, hright]
    exact .of_withCap id

theorem run_withCap (l : LayoutInst) (c : ℕ) (hgrows : op.Grows ∨ c = l.cap) :
    ∃ c', op.run p (l.withCap c) = ((op.run p l).1.withCap c', (op.run p l).2) := by
  cases op with
  | add op fault =>
    obtain ⟨c', happly⟩ := @apply_withCap p l.plain op fault c hgrows
    refine ⟨c', ?_⟩
    have hplain : (l.withCap c).plain = l.plain.withCap c := rfl
    simp only [LaterOp.run, LayoutInst.apply, hplain, happly]
    rfl
  | openAs r faults segment =>
    have hplain : (l.withCap c).plain.handles = l.plain.handles := rfl
    refine ⟨c, ?_⟩
    simp only [LaterOp.run, hplain, layoutOpen_eq, sync_withCap, openSynced_withCap]
    cases openSynced p r faults (segment l.plain.handles) (l.sync p) <;> rfl
  | digest =>
    refine ⟨c, ?_⟩
    simp only [LaterOp.run, layoutGetDigest]
    rw [show (l.withCap c).slots = l.slots from rfl]
    cases (posixipcLayoutBuild p l.slots).2 <;> rfl
  | slots =>
    refine ⟨c, ?_⟩
    simp only [LaterOp.run, layoutGetSlots, sync_withCap]
    cases (l.sync p).2 <;> rfl

/-- **An operation on two layouts that look the same.** -/
theorem alias_step (h : Alias p l l') (hgrows : op.Grows ∨ l'.cap = l.cap) :
    AliasEnd p l l' (op.run p l) (op.run p l') := by
  cases h with
  | moved hinv hinv' hsame => exact moved_step hinv hinv' hsame hgrows
  | cap _ c =>
    obtain ⟨c', hrun⟩ := @run_withCap p op l c hgrows
    refine ⟨by rw [hrun], by rw [hrun]; rfl, ?_, fun hcap => ?_⟩
    · rw [hrun]
      exact .cap _ c'
    · -- the capacity is the same, so nothing differs
      have hself : l.withCap c = l := by
        rw [show c = l.cap from hcap]
        rfl
      rw [hself]

/-- **Runs on two layouts that look the same.** -/
theorem runLater_alias (h : Alias p l l') (later : List LaterOp)
    (hgrows : l'.cap = l.cap ∨ ∀ op ∈ later, op.Grows) :
    runLater p l' later = runLater p l later := by
  induction later generalizing l l' with
  | nil => rfl
  | cons op rest ih =>
    have hop : op.Grows ∨ l'.cap = l.cap :=
      hgrows.symm.imp_left fun hall => hall op List.mem_cons_self
    obtain ⟨hout, hobjs, hstates, hcap⟩ := alias_step h hop
    have hrest := ih hstates (hgrows.imp hcap fun hall k hk => hall k (List.mem_cons_of_mem op hk))
    unfold runLater
    simp only [hout, hobjs, hrest]

end Step

/-! ## The failed call -/

/-- **A failing add changes nothing.**  Whatever made the call raise, the handles with their
records, the number of slots, the slots as they are read and the digest are what they were, and
so is all that a later run of adds, creates, attaches and reads returns.  (The failed call may
have enlarged the array of slots; a later run that is not given the memory to enlarge it itself
is compared only if it did not.) -/
theorem failed_add_changes_nothing (p : Platform) (ops : List AddOp) (l l' : LayoutObj)
    (op : AddOp) (fault : AllocFault) (e : PyError) (hrun : LayoutRun p ops l)
    (h : l.apply p op fault = (l', .error e)) :
    l'.handles = l.handles ∧ l'.nslots = l.nslots ∧
    (∃ out, (layoutGetSlots p (l.inst p)).2 = .ok out ∧
      (layoutGetSlots p (l'.inst p)).2 = .ok out ∧ out.length = l.nslots) ∧
    (∃ digest, (layoutGetDigest p (l.inst p)).2 = .ok digest ∧
      (layoutGetDigest p (l'.inst p)).2 = .ok digest) ∧
    (∀ later : List LaterOp, l'.cap = l.cap ∨ (∀ x ∈ later, x.Grows) →
      runLater p (l'.inst p) later = runLater p (l.inst p) later) := by
  have hinv := hrun.inv
  obtain ⟨hsame, hinv'⟩ := hinv.apply_error h
  have halias : Alias p (l.inst p) (l'.inst p) := .moved hinv hinv' hsame
  obtain ⟨out, hsync⟩ := hinv.rebuild
  obtain ⟨x, hbuild, -, -⟩ := layoutSync_ok hsync
  have hslots := @alias_step p _ _ .slots halias (Or.inl trivial)
  have hdigest := @alias_step p _ _ .digest halias (Or.inl trivial)
  have hread : (layoutGetSlots p (l.inst p)).2 = .ok out := by
    unfold layoutGetSlots
    simp only [sync_inst hsync]
    rfl
  have hvalue : (layoutGetDigest p (l.inst p)).2 = .ok x.layoutDigest := by
    unfold layoutGetDigest
    rw [show (l.inst p).slots = l.slots from rfl, hbuild]
  refine ⟨hsame.handles, hsame.nslots, ⟨out, hread, ?_, ?_⟩, ⟨x.layoutDigest, hvalue, ?_⟩,
    fun later hgrows => runLater_alias halias later hgrows⟩
  · exact (Output.slots.inj hslots.output).trans hread
  · exact (kept_buildSlots (posixipcLayoutBuild_ok hinv.inv.count hbuild).1).length_eq.symm
  · exact (Output.digest.inj hdigest.output).trans hvalue

/-- A layout with one mutex. -/
def loneMutex : LayoutObj := (LayoutObj.empty.apply glibcX86 addMutex .none).1

/-- After a blob that does not fit into a segment. -/
def blobRefused : LayoutObj := (loneMutex.apply glibcX86 (.addBytes 0xffffffc0) .none).1

/-- The build of the two slots moves the mutex from 80 to 96 before it finds that the blob is too
long; the caller still reads 80. -/
theorem failed_add_changes_nothing_blob :
    loneMutex.slots = [⟨kindMutex, 8, 80, 64, 2⟩] ∧
      blobRefused.slots = [⟨kindMutex, 8, 96, 64, 2⟩] ∧
      (layoutGetSlots glibcX86 (blobRefused.inst glibcX86)).2
        = .ok [⟨kindMutex, 8, 80, 64, 2⟩] ∧
      ∀ later : List LaterOp, runLater glibcX86 (blobRefused.inst glibcX86) later
        = runLater glibcX86 (loneMutex.inst glibcX86) later := by
  have hmutex : LayoutObj.empty.apply glibcX86 addMutex .none = (loneMutex, .ok ()) := by
    decide +kernel
  have hblob : loneMutex.apply glibcX86 (.addBytes 0xffffffc0) .none
      = (blobRefused, .error (.osError eoverflow)) := by decide +kernel
  have hcap : blobRefused.cap = loneMutex.cap := by decide +kernel
  have hsync : layoutSync glibcX86 loneMutex
      = ({ loneMutex with slots := loneMutex.slots }, .ok ()) := by decide +kernel
  have hslots : loneMutex.slots = [⟨kindMutex, 8, 80, 64, 2⟩] := by decide +kernel
  obtain ⟨-, -, ⟨out, hl, hr, -⟩, -, hlater⟩ := failed_add_changes_nothing glibcX86 _ _ _ _ _ _
    (LayoutRun.empty.done hmutex) hblob
  have hread : (layoutGetSlots glibcX86 (loneMutex.inst glibcX86)).2 = .ok loneMutex.slots := by
    unfold layoutGetSlots
    simp only [sync_inst hsync]
    rfl
  rw [← hslots]
  exact ⟨rfl, by decide +kernel, hr.trans (hl.symm.trans hread),
    fun later => hlater later (Or.inl hcap)⟩

end PosixIpc
