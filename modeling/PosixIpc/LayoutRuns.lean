/-
# Runs of adds that succeed or fail (`py_layout.c`)

A call that raises takes its handle and its slots back, but it may have grown the array of
slots, and the build that failed may have moved the slots in front.

* `AddPair` : the three ways a call can go, on two layouts at once;
* `Slot.Moved`, `Slot.Settled` : a build moves a slot that was built before, and changes nothing
  else of it;
* `RunInv` : the invariant of all runs;
* `layout_run_invariant` : what it says of the slots, the handles and the capacity.
-/
import PosixIpc.LayoutOpen

namespace PosixIpc

open Word32

/-! ## The shape of a call -/

/-- The number that a method is given for the upper half of the flags, and the kind of the
slot. -/
def AddOp.number : AddOp → Option (ℕ × ℤ)
  | .add a =>
    match a.kind with
    | .semaphore => some (kindSem, a.value)
    | .barrier => some (kindBarrier, a.parties)
    | _ => none
  | _ => none

/-- The number that a handle has there. -/
def HandleType.number : HandleType → Option (ℕ × ℤ)
  | .semaphore value => some (kindSem, value)
  | .barrier parties => some (kindBarrier, parties)
  | _ => none

/-- **How a call can go** on two layouts that differ in their slots and their capacity: it raises
at once, it raises after it has reserved its slots, or it commits what it asks for.  It does the
same on both. -/
inductive AddPair (p : Platform) (l l' : LayoutObj) (op : AddOp) (fault : AllocFault) :
    LayoutObj × Except PyError Unit → LayoutObj × Except PyError Unit → Prop
  | early (e : PyError) : AddPair p l l' op fault (l.raise e) (l'.raise e)
  | reserved {l₁ l₁' : LayoutObj} {n : ℕ} (e : PyError)
      (hens : layoutEnsure l (l.nslots + n) fault = .ok l₁)
      (hens' : layoutEnsure l' (l.nslots + n) fault = .ok l₁') :
      AddPair p l l' op fault (l₁.raise e) (l₁'.raise e)
  | commit {l₁ l₁' : LayoutObj} {g : LayoutHandle} {blk : List Slot}
      (hens : layoutEnsure l (l.nslots + blk.length) fault = .ok l₁)
      (hens' : layoutEnsure l' (l.nslots + blk.length) fault = .ok l₁')
      (hreq : SlotRequest p l g blk) (hop : op.request p l = some (g, blk))
      (hnum : op.number = g.type.number) :
      AddPair p l l' op fault (commitSlots p l₁ g blk fault) (commitSlots p l₁' g blk fault)

/-- The two layouts are the same for all that a call asks before it builds. -/
structure Akin (fault : AllocFault) (l l' : LayoutObj) : Prop where
  handles : l'.handles = l.handles
  sealed : l'.sealed = l.sealed
  nslots : l'.nslots = l.nslots
  /-- The array grows in both, or in none of them. -/
  grows : fault ≠ .realloc ∨ l'.cap = l.cap

theorem Akin.refl (fault : AllocFault) (l : LayoutObj) : Akin fault l l := ⟨rfl, rfl, rfl, .inr rfl⟩

section Shape

variable {p : Platform} {l l' : LayoutObj} {op : AddOp} {fault : AllocFault}

theorem AddPair.guard {c : Prop} [Decidable c] {e : PyError}
    {x x' : LayoutObj × Except PyError Unit} (h : ¬c → AddPair p l l' op fault x x') :
    AddPair p l l' op fault (if c then l.raise e else x) (if c then l'.raise e else x') := by
  by_cases hc : c
  · rw [if_pos hc, if_pos hc]
    exact .early e
  · rw [if_neg hc, if_neg hc]
    exact h hc

/-- The slots are reserved in both layouts. -/
structure Reserved (l l' : LayoutObj) (n : ℕ) (fault : AllocFault) (l₁ l₁' : LayoutObj) : Prop where
  left : layoutEnsure l (l.nslots + n) fault = .ok l₁
  right : layoutEnsure l' (l.nslots + n) fault = .ok l₁'

/-- A check after the slots were reserved. -/
theorem AddPair.guardReserved {l₁ l₁' : LayoutObj} {n : ℕ}
    (hens : Reserved l l' n fault l₁ l₁') {c : Prop} [Decidable c] {e : PyError}
    {x x' : LayoutObj × Except PyError Unit} (h : ¬c → AddPair p l l' op fault x x') :
    AddPair p l l' op fault (if c then l₁.raise e else x) (if c then l₁'.raise e else x') := by
  by_cases hc : c
  · rw [if_pos hc, if_pos hc]
    exact .reserved e hens.left hens.right
  · rw [if_neg hc, if_neg hc]
    exact h hc

/-- `layout_ensure` does the same on both. -/
theorem AddPair.ensure (hakin : Akin fault l l') {n : ℕ}
    {f f' : LayoutObj → LayoutObj × Except PyError Unit}
    (h : ∀ l₁ l₁', Reserved l l' n fault l₁ l₁' → AddPair p l l' op fault (f l₁) (f' l₁')) :
    AddPair p l l' op fault
      (match layoutEnsure l (l.nslots + n) fault with
        | .error e => l.raise e
        | .ok l₁ => f l₁)
      (match layoutEnsure l' (l'.nslots + n) fault with
        | .error e => l'.raise e
        | .ok l₁ => f' l₁) := by
  rw [hakin.nslots]
  by_cases h1 : l.nslots + n > 0xffff
  · have hmany : ∀ k, layoutEnsure k (l.nslots + n) fault
        = .error (.overflowError "too many layout slots") := fun k => if_pos h1
    rw [hmany l, hmany l']
    exact .early _
  · -- the same array is too small in both, or memory is not what is missing
    have hens : ∀ k : LayoutObj, fault ≠ .realloc →
        ∃ k', layoutEnsure k (l.nslots + n) fault = .ok k' := by
      intro k hf
      unfold layoutEnsure
      rw [if_neg h1]
      split_ifs <;> exact ⟨_, rfl⟩
    cases hl : layoutEnsure l (l.nslots + n) fault with
    | error e =>
      have hf : fault = .realloc := by
        by_contra hf
        obtain ⟨k', hk⟩ := hens l hf
        rw [hl] at hk
        cases hk
      have hcap := hakin.grows.resolve_left (not_not.mpr hf)
      have hl' : layoutEnsure l' (l.nslots + n) fault = .error e := by
        unfold layoutEnsure at hl ⊢
        rw [hcap]
        split_ifs at hl ⊢
        exact hl
      rw [hl']
      exact .early e
    | ok l₁ =>
      have hl' : ∃ l₁', layoutEnsure l' (l.nslots + n) fault = .ok l₁' := by
        rcases hakin.grows with hf | hcap
        · exact hens l' hf
        · unfold layoutEnsure at hl ⊢
          rw [hcap]
          split_ifs at hl ⊢ <;> exact ⟨_, rfl⟩
      obtain ⟨l₁', hl'⟩ := hl'
      rw [hl']
      exact h l₁ l₁' ⟨hl, hl'⟩

/-- `addOne` after its slot was reserved. -/
theorem AddPair.addOne (hakin : Akin fault l l') {l₁ l₁' : LayoutObj} {type : HandleType}
    {kind flags : ℕ} (hens : Reserved l l' 1 fault l₁ l₁') (hone : OneSlot p l type kind flags)
    (hop : op.request p l = some (l.oneRequest p type kind flags))
    (hnum : op.number = type.number) :
    AddPair p l l' op fault (l₁.addOne p type kind flags fault)
      (l₁'.addOne p type kind flags fault) := by
  unfold LayoutObj.addOne
  refine .guardReserved hens fun _ => ?_
  unfold layoutCommit
  rw [layoutEnsure_nslots hens.left, layoutEnsure_nslots hens.right, hakin.nslots]
  exact .commit (by exact hens.left) (by exact hens.right) (.one hone) hop hnum

theorem Akin.mutexIndex (hakin : Akin fault l l') {n : ℕ} {l₁ l₁' : LayoutObj}
    (hens : Reserved l l' n fault l₁ l₁') (i : ℕ) :
    l₁.mutexIndex i = l.mutexIndex i ∧ l₁'.mutexIndex i = l.mutexIndex i := by
  rw [(layoutEnsure_ok hens.left).2, (layoutEnsure_ok hens.right).2]
  refine ⟨rfl, ?_⟩
  unfold LayoutObj.mutexIndex
  rw [show ({ l' with cap := l₁'.cap } : LayoutObj).handles = l.handles from hakin.handles]

theorem layoutAddSlot_pair (hakin : Akin fault l l') {l₁ l₁' : LayoutObj} {a : AddArgs}
    (hens : Reserved l l' 1 fault l₁ l₁') :
    AddPair p l l' (.add a) fault (layoutAddSlot p l₁ a fault) (layoutAddSlot p l₁' a fault) := by
  unfold layoutAddSlot
  cases hk : a.kind with
  | mutex =>
    refine .guardReserved hens fun _ => .addOne hakin hens (.mutex _) ?_ ?_
    · simp only [AddOp.request, AddArgs.request, hk]
    · simp only [AddOp.number, hk, HandleType.number]
  | robustMutex =>
    cases hd : a.onOwnerDied with
    | absent => exact .reserved _ hens.left hens.right
    | notCallable => exact .reserved _ hens.left hens.right
    | callable =>
      refine .addOne hakin hens (.robustMutex _) ?_ ?_
      · simp only [AddOp.request, AddArgs.request, hk]
      · simp only [AddOp.number, hk, HandleType.number]
  | rwlock =>
    refine .addOne hakin hens .rwlock ?_ ?_
    · simp only [AddOp.request, AddArgs.request, hk]
    · simp only [AddOp.number, hk, HandleType.number]
  | condition =>
    cases hm : a.mutex with
    | none => exact .reserved _ hens.left hens.right
    | some m =>
      cases m with
      | foreign b => cases b <;> exact .reserved _ hens.left hens.right
      | handle i =>
        simp only [(hakin.mutexIndex hens i).1, (hakin.mutexIndex hens i).2]
        cases hi : l.mutexIndex i with
        | none => exact .reserved _ hens.left hens.right
        | some index =>
          refine .addOne hakin hens (.condition hi) ?_ ?_
          · simp only [AddOp.request, AddArgs.request, hk, hm, hi, Option.map_some]
          · simp only [AddOp.number, hk, HandleType.number]
  | semaphore =>
    refine .guardReserved hens fun hv => .addOne hakin hens (.semaphore (by omega)) ?_ ?_
    · simp only [AddOp.request, AddArgs.request, hk]
    · simp only [AddOp.number, hk, HandleType.number]
      rw [Int.toNat_of_nonneg (by omega)]
  | barrier =>
    refine .guardReserved hens fun hb => .guardReserved hens fun hv =>
      .addOne hakin hens (.barrier (by simpa using hb) (by omega)) ?_ ?_
    · simp only [AddOp.request, AddArgs.request, hk]
    · simp only [AddOp.number, hk, HandleType.number]
      rw [Int.toNat_of_nonneg (by omega)]
  | spinLock =>
    refine .guardReserved hens fun hs =>
      .addOne hakin hens (.spinLock (by simpa using hs)) ?_ ?_
    · simp only [AddOp.request, AddArgs.request, hk]
    · simp only [AddOp.number, hk, HandleType.number]
  | _ => exact .reserved _ hens.left hens.right

theorem layoutAddQueue_pair (hakin : Akin fault l l') {a : AddArgs} (hkind : a.kind = .queue) :
    AddPair p l l' (.add a) fault
      (layoutAddQueue p l a.depth a.itemSize a.onOwnerDied fault)
      (layoutAddQueue p l' a.depth a.itemSize a.onOwnerDied fault) := by
  unfold layoutAddQueue
  refine .guard fun _ => .guard fun hrange => ?_
  simp only
  refine .guard fun hsize => .guard fun hpad => .ensure hakin fun l₁ l₁' hens => ?_
  refine .guardReserved hens fun _ => ?_
  unfold layoutCommitSpan
  rw [if_neg (by simp [queueSlots]), if_neg (by simp [queueSlots]),
    layoutEnsure_nslots hens.left, layoutEnsure_nslots hens.right, hakin.nslots]
  push Not at hrange
  refine .commit hens.left hens.right (.queue ?_ ?_ hsize hpad) ?_ ?_
  · unfold uint32Max
    omega
  · unfold uint32Max
    omega
  · simp only [AddOp.request, AddArgs.request, hkind]
  · simp only [AddOp.number, hkind]
    rfl

theorem layoutAddFutexQueue_pair (hakin : Akin fault l l') {a : AddArgs}
    (hkind : a.kind = .futexQueue) :
    AddPair p l l' (.add a) fault
      (layoutAddFutexQueue p l a.depth a.itemSize a.onOwnerDied fault)
      (layoutAddFutexQueue p l' a.depth a.itemSize a.onOwnerDied fault) := by
  unfold layoutAddFutexQueue
  refine .guard fun _ => .guard fun hrange => ?_
  simp only
  refine .guard fun hsize => .guard fun hpad => .ensure hakin fun l₁ l₁' hens => ?_
  refine .guardReserved hens fun _ => ?_
  unfold layoutCommitSpan
  rw [if_neg (by simp [futexQueueSlots]), if_neg (by simp [futexQueueSlots]),
    layoutEnsure_nslots hens.left, layoutEnsure_nslots hens.right, hakin.nslots]
  push Not at hrange
  refine .commit hens.left hens.right (.futexQueue ?_ ?_ hsize hpad) ?_ ?_
  · unfold uint32Max
    omega
  · unfold uint32Max
    omega
  · simp only [AddOp.request, AddArgs.request, hkind]
  · simp only [AddOp.number, hkind]
    rfl

theorem layoutAdd_pair (hakin : Akin fault l l') (a : AddArgs) :
    AddPair p l l' (.add a) fault (layoutAdd p l a fault) (layoutAdd p l' a fault) := by
  unfold layoutAdd
  rw [hakin.sealed]
  refine .guard fun _ => .guard fun _ => ?_
  by_cases hq : a.kind = .queue
  · rw [if_pos hq, if_pos hq]
    exact layoutAddQueue_pair hakin hq
  · rw [if_neg hq, if_neg hq]
    by_cases hf : a.kind = .futexQueue
    · rw [if_pos hf, if_pos hf]
      exact layoutAddFutexQueue_pair hakin hf
    · rw [if_neg hf, if_neg hf]
      refine .guard fun _ => .guard fun _ => .guard fun _ => .guard fun _ => ?_
      exact .ensure hakin fun l₁ l₁' hens => layoutAddSlot_pair hakin hens

theorem addArraySlots_pair (hakin : Akin fault l l') {kind : AddKind} {code flags : ℕ} {count : ℤ}
    {died : OwnerDied} {prio shared : Bool} (hcode : code = kindMutex ∨ code = kindRobustMutex)
    (hop : (AddOp.addArray kind count died prio shared).request p l
      = some (LayoutHandle.newUnbound p (.mutexArray count.toNat) code flags l.nslots,
        List.replicate count.toNat (Slot.fresh code flags))) :
    AddPair p l l' (.addArray kind count died prio shared) fault
      (addArraySlots p l code flags count.toNat fault)
      (addArraySlots p l' code flags count.toNat fault) := by
  unfold addArraySlots
  refine .ensure hakin fun l₁ l₁' hens => .guardReserved hens fun _ => ?_
  unfold layoutCommitN
  refine .guardReserved hens fun hne => ?_
  rw [layoutEnsure_nslots hens.left, layoutEnsure_nslots hens.right, hakin.nslots]
  refine .commit ?_ ?_ (.array hcode hne) hop rfl
  · rw [List.length_replicate]
    exact hens.left
  · rw [List.length_replicate]
    exact hens.right

/-- **How a call goes on two such layouts.** -/
theorem addPair (hakin : Akin fault l l') (op : AddOp) :
    AddPair p l l' op fault (l.apply p op fault) (l'.apply p op fault) := by
  cases op with
  | add a => exact layoutAdd_pair hakin a
  | addBytes size =>
    unfold LayoutObj.apply layoutAddBytes
    rw [hakin.sealed]
    refine .guard fun _ => .guard fun _ => ?_
    simp only
    refine .guard fun hpad => .ensure hakin fun l₁ l₁' hens => .guardReserved hens fun _ => ?_
    rw [layoutEnsure_nslots hens.left, layoutEnsure_nslots hens.right, hakin.nslots]
    exact .commit (by exact hens.left) (by exact hens.right) (.bytes hpad) rfl rfl
  | addArray kind count died prio shared =>
    unfold LayoutObj.apply layoutAddArray
    rw [hakin.sealed]
    refine .guard fun _ => .guard fun _ => .guard fun _ => ?_
    cases kind with
    | mutex => exact .guard fun _ => addArraySlots_pair hakin (Or.inl rfl) rfl
    | robustMutex =>
      cases died with
      | absent => exact .early _
      | notCallable => exact .early _
      | callable => exact addArraySlots_pair hakin (Or.inr rfl) rfl
    | _ => exact .early _

end Shape

/-! ## The capacity -/

/-- The loop of `layout_ensure` as the source has it: from `ncap` it ends with `r`. -/
inductive GrowEnds (need : ℕ) : ℕ → ℕ → Prop
  | enough {ncap : ℕ} (h : ¬ ncap < need) : GrowEnds need ncap ncap
  | full {ncap : ℕ} (h : ncap < need) (hwrap : ncap * 2 % 2 ^ 16 ≤ ncap) :
      GrowEnds need ncap 0xffff
  | double {ncap r : ℕ} (h : ncap < need) (hnext : ncap < ncap * 2 % 2 ^ 16)
      (hrest : GrowEnds need (ncap * 2 % 2 ^ 16) r) : GrowEnds need ncap r

/-- The loop ends, and its end is large enough: the capacity doubles until it is, or wraps
around and becomes the largest one. -/
theorem growCap_ends {need : ℕ} (hneed : need ≤ 0xffff) (fuel : ℕ) {ncap : ℕ} (hpos : 0 < ncap)
    (hcap : ncap ≤ 0xffff) (hfuel : 2 ^ 16 ≤ ncap * 2 ^ fuel) :
    GrowEnds need ncap (growCap fuel ncap need) ∧ need ≤ growCap fuel ncap need ∧
      ncap ≤ growCap fuel ncap need ∧ growCap fuel ncap need ≤ 0xffff := by
  induction fuel generalizing ncap with
  | zero => omega
  | succ fuel ih =>
    unfold growCap
    by_cases h : ncap < need
    · rw [if_pos h]
      simp only
      by_cases hwrap : ncap * 2 % 2 ^ 16 ≤ ncap
      · rw [if_pos hwrap]
        exact ⟨.full h hwrap, hneed, hcap, le_rfl⟩
      · rw [if_neg hwrap]
        have hnext : ncap * 2 % 2 ^ 16 = ncap * 2 := by omega
        rw [hnext]
        obtain ⟨hends, h1, h2, h3⟩ := @ih (ncap * 2) (by omega) (by omega)
          (by rw [Nat.mul_assoc, ← pow_succ']; exact hfuel)
        refine ⟨.double h (by omega) ?_, h1, by omega, h3⟩
        rw [hnext]
        exact hends
    · rw [if_neg h]
      exact ⟨.enough h, by omega, le_rfl, hcap⟩

/-- **The growth of the array.**  Sixteen rounds are enough from any capacity. -/
theorem growCap_spec {need ncap : ℕ} (hneed : need ≤ 0xffff) (hpos : 0 < ncap)
    (hcap : ncap ≤ 0xffff) :
    GrowEnds need ncap (growCap 16 ncap need) ∧ need ≤ growCap 16 ncap need ∧
      ncap ≤ growCap 16 ncap need ∧ growCap 16 ncap need ≤ 0xffff :=
  growCap_ends hneed 16 hpos hcap (by omega)

/-- What `layout_ensure` does to the capacity. -/
theorem layoutEnsure_cap {l l₁ : LayoutObj} {need : ℕ} {fault : AllocFault} (hcap : l.cap ≤ 0xffff)
    (h : layoutEnsure l need fault = .ok l₁) :
    need ≤ l₁.cap ∧ l.cap ≤ l₁.cap ∧ l₁.cap ≤ 0xffff := by
  unfold layoutEnsure at h
  by_cases h1 : need > 0xffff
  · simp [h1] at h
  · rw [if_neg h1] at h
    by_cases h2 : need ≤ l.cap
    · rw [if_pos h2] at h
      rw [← Except.ok.inj h]
      exact ⟨h2, le_rfl, hcap⟩
    · rw [if_neg h2] at h
      by_cases h3 : fault = .realloc
      · simp [h3] at h
      · rw [if_neg h3] at h
        rw [← Except.ok.inj h]
        obtain ⟨-, hn, hl, hm⟩ := @growCap_spec need (if l.cap = 0 then 4 else l.cap) (by omega)
          (by split_ifs <;> omega) (by split_ifs <;> omega)
        refine ⟨hn, le_trans ?_ hl, hm⟩
        split_ifs <;> omega

/-! ## Slots that a build moves -/

/-- The second slot is the first one somewhere else. -/
def Slot.Moved (s s' : Slot) : Prop := s' = { s with offset := s'.offset }

/-- A build only moves the slot. -/
def Slot.Settled (p : Platform) (s : Slot) : Prop := ∀ off, s.place p off = { s with offset := off }

theorem Slot.Moved.refl (s : Slot) : s.Moved s := rfl

theorem Slot.Moved.settled {p : Platform} {s s' : Slot} (h : s.Moved s') (hs : s.Settled p) :
    s'.Settled p := by
  intro off
  have hplace := hs off
  rw [h]
  exact hplace

/-- Moved slots are built alike. -/
theorem Slot.Moved.alike {p : Platform} {s s' : Slot} (h : s.Moved s') : Slot.Alike p s s' := by
  rw [h]
  exact ⟨rfl, rfl, rfl, rfl⟩

/-- What a build has placed is settled. -/
theorem Slot.settled_place {p : Platform} {s : Slot} (hs : s.Steady p) (hsize : s.effSize p ≠ 0)
    (off : ℕ) : (s.place p off).Settled p := by
  intro off'
  have hsize' : (s.place p off).effSize p = s.effSize p := if_pos hsize
  show Slot.mk s.kind ((s.place p off).effAlign p % 2 ^ 16) off'
    ((s.place p off).effSize p) s.initFlags = Slot.mk s.kind (s.effAlign p % 2 ^ 16) off'
    (s.effSize p) s.initFlags
  rw [hs off, hsize']

theorem settled_buildSlots {p : Platform} {cursor total : ℕ} {slots out : List Slot}
    (hs : ∀ s ∈ slots, s.Steady p) (h : buildSlots p cursor slots = (out, .ok total)) :
    ∀ s ∈ out, s.Settled p := by
  induction slots generalizing cursor out with
  | nil =>
    obtain rfl : ([] : List Slot) = out := congrArg Prod.fst h
    simp
  | cons s rest ih =>
    obtain ⟨out', -, hsz, -, -, rfl, hrest⟩ := buildSlots_cons h
    intro x hx
    rcases List.mem_cons.mp hx with rfl | hx
    · exact Slot.settled_place (hs s List.mem_cons_self) hsz _
    · exact ih (fun y hy => hs y (List.mem_cons_of_mem s hy)) hrest x hx

/-- **A build moves the settled slots in front, however it ends.** -/
theorem moved_buildSlots {p : Platform} (front : List Slot) (hs : ∀ s ∈ front, s.Settled p)
    (blk : List Slot) (cursor : ℕ) :
    List.Forall₂ Slot.Moved front
      ((buildSlots p cursor (front ++ blk)).1.take front.length) := by
  induction front generalizing cursor with
  | nil => simp
  | cons s front ih =>
    have hrefl : List.Forall₂ Slot.Moved front ((front ++ blk).take front.length) := by
      rw [List.take_left]
      exact List.forall₂_same.mpr fun x _ => .refl x
    have hplace : ∀ off, s.Moved (s.place p off) := by
      intro off
      rw [hs s List.mem_cons_self off]
      rfl
    rw [List.cons_append, List.length_cons]
    unfold buildSlots
    by_cases h1 : s.effAlign p = 0 ∨ s.effSize p = 0
    · rw [if_pos h1, List.take_succ_cons]
      exact .cons (.refl s) hrefl
    · rw [if_neg h1]
      simp only
      by_cases h2 : layoutAlignUp cursor (s.effAlign p) = 0 ∧ cursor ≠ 0
      · rw [if_pos h2, List.take_succ_cons]
        exact .cons (.refl s) hrefl
      · rw [if_neg h2]
        by_cases h3 : s.effSize p > uint32Max - layoutAlignUp cursor (s.effAlign p)
        · rw [if_pos h3, List.take_succ_cons]
          exact .cons (hplace _) hrefl
        · rw [if_neg h3, List.take_succ_cons]
          exact .cons (hplace _) (ih (fun x hx => hs x (List.mem_cons_of_mem s hx)) _)

theorem moved_layoutBuild {p : Platform} (front : List Slot) (hs : ∀ s ∈ front, s.Settled p)
    (blk : List Slot) :
    List.Forall₂ Slot.Moved front
      ((posixipcLayoutBuild p (front ++ blk)).1.take front.length) := by
  unfold posixipcLayoutBuild
  simp only
  by_cases h : (front ++ blk).length ≠ 0 ∧
      u32 ((front ++ blk).length * sizeofSlot) / sizeofSlot ≠ (front ++ blk).length
  · rw [if_pos h, List.take_left]
    exact List.forall₂_same.mpr fun x _ => .refl x
  · rw [if_neg h]
    split
    · exact moved_buildSlots front hs blk _
    · split_ifs
      · exact moved_buildSlots front hs blk _
      · exact moved_buildSlots front hs blk _

/-! ## The rebuild of the handles -/

/-- The span of every handle lies in the slots. -/
def SpansFit (hs : List LayoutHandle) (n : ℕ) : Prop :=
  ∀ g ∈ hs, g.count ≠ 0 ∧ g.slot + g.count ≤ n

theorem syncHandles_total {slots : List Slot} {hs : List LayoutHandle}
    (hfit : SpansFit hs slots.length) (hn : slots.length ≤ 0xffff) :
    (syncHandles slots hs).2 = .ok () := by
  induction hs with
  | nil => rfl
  | cons g rest ih =>
    obtain ⟨hc, hle⟩ := hfit g List.mem_cons_self
    have hguard : ¬(g.count = 0 ∨ g.slot ≥ slots.length ∨
        u32 (g.slot + g.count) > slots.length) := by
      rw [u32_of_lt (by omega)]
      omega
    unfold syncHandles
    rw [if_neg hguard]
    exact ih fun k hk => hfit k (List.mem_cons_of_mem g hk)

/-- The blocks of the handles lie in the slots. -/
theorem LayoutInv.spansFit {p : Platform} {l : LayoutObj} (hinv : LayoutInv p l)
    (hcounts : ∀ g ∈ l.handles, g.count ≠ 0) : SpansFit l.handles l.slots.length := by
  intro g hg
  obtain ⟨pre, blk, post, hslots, hslot, hlen, -⟩ := hinv.blocks.mem hg
  refine ⟨hcounts g hg, ?_⟩
  rw [hslots, List.length_append, List.length_append]
  omega

/-- The number of slots of a request is not `0`. -/
theorem SlotRequest.count_ne_zero {p : Platform} {l : LayoutObj} {g : LayoutHandle}
    {blk : List Slot} (h : SlotRequest p l g blk) : g.count ≠ 0 := by
  cases h with
  | one hone => cases hone <;> exact one_ne_zero
  | bytes hne => exact one_ne_zero
  | array hk hne => exact hne
  | queue => exact Nat.succ_ne_zero _
  | futexQueue => exact Nat.succ_ne_zero _

/-- A layout that no reader can tell from `l`: only slots have moved, and the array may be
larger. -/
structure SameLayout (l l' : LayoutObj) : Prop where
  handles : l'.handles = l.handles
  sealed : l'.sealed = l.sealed
  slots : List.Forall₂ Slot.Moved l.slots l'.slots

theorem Slot.Moved.symm {s s' : Slot} (h : s.Moved s') : s'.Moved s := by
  rw [h]
  rfl

theorem Slot.Moved.trans {s s' s'' : Slot} (h : s.Moved s') (h' : s'.Moved s'') : s.Moved s'' := by
  rw [h'] at *
  rw [h]
  rfl

theorem forall₂_moved_trans {xs ys zs : List Slot} (h : List.Forall₂ Slot.Moved xs ys)
    (h' : List.Forall₂ Slot.Moved ys zs) : List.Forall₂ Slot.Moved xs zs := by
  induction h generalizing zs with
  | nil => exact h'
  | cons hx _ ih =>
    cases h' with
    | cons hy hrest => exact .cons (hx.trans hy) (ih hrest)

theorem SameLayout.symm {l l' : LayoutObj} (h : SameLayout l l') : SameLayout l' l :=
  ⟨h.handles.symm, h.sealed.symm, h.slots.flip.imp fun _ _ hm => Slot.Moved.symm hm⟩

theorem SameLayout.trans {l l' l'' : LayoutObj} (h : SameLayout l l') (h' : SameLayout l' l'') :
    SameLayout l l'' :=
  ⟨h'.handles.trans h.handles, h'.sealed.trans h.sealed, forall₂_moved_trans h.slots h'.slots⟩

theorem SameLayout.cap {l l₁ : LayoutObj} {need : ℕ} {fault : AllocFault}
    (h : layoutEnsure l need fault = .ok l₁) : SameLayout l l₁ := by
  rw [(layoutEnsure_ok h).2]
  exact ⟨rfl, rfl, List.forall₂_same.mpr fun x _ => .refl x⟩

/-- **A commit that fails moves slots only.** -/
theorem commitSlots_error {p : Platform} {l l' : LayoutObj} {g : LayoutHandle} {blk : List Slot}
    {fault : AllocFault} {e : PyError} (hs : ∀ s ∈ l.slots, s.Settled p)
    (hfit : SpansFit (l.handles ++ [g]) (l.slots ++ blk).length)
    (hn : (l.slots ++ blk).length ≤ 0xffff)
    (h : commitSlots p l g blk fault = (l', .error e)) :
    SameLayout l l' ∧ l'.cap = l.cap := by
  unfold commitSlots at h
  by_cases hf : fault = .append
  · rw [if_pos hf] at h
    obtain ⟨rfl, -⟩ := Prod.mk.inj h
    exact ⟨⟨rfl, rfl, List.forall₂_same.mpr fun x _ => .refl x⟩, rfl⟩
  · rw [if_neg hf] at h
    have hmoved := moved_layoutBuild l.slots hs blk
    unfold layoutSync at h
    simp only at h
    cases hb : (posixipcLayoutBuild p (l.slots ++ blk)).2 with
    | error rc =>
      rw [hb] at h
      obtain ⟨rfl, -⟩ := Prod.mk.inj h
      exact ⟨⟨List.dropLast_concat, rfl, hmoved⟩, rfl⟩
    | ok x =>
      -- the handles of a list that was built are all told
      have hlen : (posixipcLayoutBuild p (l.slots ++ blk)).1.length = (l.slots ++ blk).length :=
        (kept_buildSlots (posixipcLayoutBuild_ok hn (Prod.ext rfl hb)).1).length_eq.symm
      have hsync := @syncHandles_total (posixipcLayoutBuild p (l.slots ++ blk)).1
        (l.handles ++ [g]) (by rw [hlen]; exact hfit) (by rw [hlen]; exact hn)
      rw [hb] at h
      simp only [hsync] at h
      exact absurd (congrArg Prod.snd h) (by simp)

/-! ## What the flags refer to -/

/-- Every condition has the index of a mutex slot in front of it in its flags. -/
def CondsRefer (slots : List Slot) : Prop :=
  ∀ (i : ℕ) (s : Slot), slots[i]? = some s → s.kind = kindCond → s.aux < i ∧
    ∃ t, slots[s.aux]? = some t ∧ (t.kind = kindMutex ∨ t.kind = kindRobustMutex)

/-- Below the number of a semaphore or of a barrier stands the flag of all slots, and nothing
else. -/
def LowFlags (slots : List Slot) : Prop :=
  ∀ s ∈ slots, s.kind = kindSem ∨ s.kind = kindBarrier → s.initFlags % 2 ^ 16 = flagProcessShared

/-- What a slot is for, without its place. -/
def Slot.tag (s : Slot) : ℕ × ℕ := (s.kind, s.initFlags)

theorem tag_eq {s s' : Slot} (h : s'.tag = s.tag) : s'.kind = s.kind ∧ s'.initFlags = s.initFlags :=
  Prod.ext_iff.mp h

theorem map_tag_of_moved {xs ys : List Slot} (h : List.Forall₂ Slot.Moved xs ys) :
    ys.map Slot.tag = xs.map Slot.tag := by
  induction h with
  | nil => rfl
  | cons hx _ ih =>
    rw [List.map_cons, List.map_cons, ih, hx]
    rfl

/-- A slot of one list, from the same place in the other. -/
theorem getElem?_of_tag {xs ys : List Slot} (h : ys.map Slot.tag = xs.map Slot.tag) {i : ℕ}
    {s' : Slot} (hs : ys[i]? = some s') : ∃ s, xs[i]? = some s ∧ s'.tag = s.tag := by
  have hi := congrArg (fun zs => zs[i]?) h
  simp only [List.getElem?_map, hs, Option.map_some] at hi
  cases hx : xs[i]? with
  | none =>
    rw [hx] at hi
    cases hi
  | some s =>
    rw [hx] at hi
    exact ⟨s, rfl, Option.some.inj hi⟩

theorem CondsRefer.keep {xs ys : List Slot} (hc : CondsRefer xs)
    (h : ys.map Slot.tag = xs.map Slot.tag) : CondsRefer ys := by
  intro i s' hs' hk
  obtain ⟨s, hs, htag⟩ := getElem?_of_tag h hs'
  obtain ⟨hkind, hflags⟩ := tag_eq htag
  obtain ⟨hlt, t, ht, hmutex⟩ := hc i s hs (by rw [← hkind]; exact hk)
  obtain ⟨t', ht', htag'⟩ := getElem?_of_tag h.symm ht
  have haux : s'.aux = s.aux := by
    unfold Slot.aux
    rw [hflags]
  rw [haux]
  refine ⟨hlt, t', ht', ?_⟩
  rw [← (tag_eq htag').1]
  exact hmutex

theorem LowFlags.keep {xs ys : List Slot} (hl : LowFlags xs)
    (h : ys.map Slot.tag = xs.map Slot.tag) : LowFlags ys := by
  intro s' hs' hk
  obtain ⟨i, hi⟩ := List.mem_iff_getElem?.mp hs'
  obtain ⟨s, hs, htag⟩ := getElem?_of_tag h hi
  obtain ⟨hkind, hflags⟩ := tag_eq htag
  rw [hflags]
  exact hl s (List.mem_of_getElem? hs) (by rw [← hkind]; exact hk)

/-- New conditions may refer to the old slots and to the new ones. -/
theorem CondsRefer.append {xs blk : List Slot} (hc : CondsRefer xs)
    (hblk : ∀ (i : ℕ) (s : Slot), blk[i]? = some s → s.kind = kindCond → s.aux < xs.length + i ∧
      ∃ t, (xs ++ blk)[s.aux]? = some t ∧ (t.kind = kindMutex ∨ t.kind = kindRobustMutex)) :
    CondsRefer (xs ++ blk) := by
  intro i s hs hk
  by_cases hi : i < xs.length
  · rw [List.getElem?_append_left hi] at hs
    obtain ⟨hlt, t, ht, hmutex⟩ := hc i s hs hk
    exact ⟨hlt, t, by rw [List.getElem?_append_left (by omega)]; exact ht, hmutex⟩
  · rw [List.getElem?_append_right (by omega)] at hs
    obtain ⟨hlt, ht⟩ := hblk _ s hs hk
    exact ⟨by omega, ht⟩

theorem LowFlags.append {xs blk : List Slot} (hx : LowFlags xs) (hb : LowFlags blk) :
    LowFlags (xs ++ blk) := by
  intro s hs
  rcases List.mem_append.mp hs with hs | hs
  · exact hx s hs
  · exact hb s hs

/-- The lower half of the flags comes back. -/
theorem low_auxFlags {low : ℕ} (hlow : low < 2 ^ 16) (n : ℕ) :
    (low ||| auxFlags n) % 2 ^ 16 = low := by
  have haux : auxFlags n % 2 ^ 16 = 0 := by
    unfold auxFlags u32 slotAuxShift
    rw [Nat.shiftLeft_eq]
    omega
  rw [Nat.or_mod_two_pow, haux, Nat.or_zero, Nat.mod_eq_of_lt hlow]

@[simp] theorem Slot.fresh_kind (kind flags : ℕ) : (Slot.fresh kind flags).kind = kind := rfl

@[simp] theorem Slot.bytes_kind (p : Platform) (size flags : ℕ) :
    (Slot.bytes p size flags).kind = kindBytes := rfl

section Request

variable {p : Platform} {l : LayoutObj} {g : LayoutHandle} {blk : List Slot}

/-- The slot of a mutex handle. -/
theorem LayoutInv.mutexSlot (hinv : LayoutInv p l) {i index : ℕ}
    (hi : l.mutexIndex i = some index) :
    ∃ t, l.slots[index]? = some t ∧ (t.kind = kindMutex ∨ t.kind = kindRobustMutex) := by
  unfold LayoutObj.mutexIndex at hi
  split at hi
  · rename_i g hg
    split_ifs at hi with htype
    obtain rfl := Option.some.inj hi
    obtain ⟨pre, blk, post, hslots, hslot, -, hserves⟩ :=
      hinv.blocks.mem (List.mem_of_getElem? hg)
    unfold LayoutHandle.Serves at hserves
    have hblock : ∃ t, blk = [t] ∧ (t.kind = kindMutex ∨ t.kind = kindRobustMutex) := by
      rcases htype with htype | htype
      · rw [htype] at hserves
        obtain ⟨t, rfl, hkind, -⟩ := hserves
        exact ⟨t, rfl, Or.inl hkind⟩
      · rw [htype] at hserves
        obtain ⟨t, rfl, hkind, -⟩ := hserves
        exact ⟨t, rfl, Or.inr hkind⟩
    obtain ⟨t, rfl, hkind⟩ := hblock
    refine ⟨t, ?_, hkind⟩
    rw [hslots, hslot, Nat.zero_add, List.append_assoc,
      List.getElem?_append_right (le_refl _), Nat.sub_self]
    rfl
  · simp at hi

/-- The conditions of a request refer to mutexes. -/
theorem SlotRequest.conds (hinv : LayoutInv p l) (h : SlotRequest p l g blk)
    (hn : l.nslots + blk.length ≤ 0xffff) (hc : CondsRefer l.slots) :
    CondsRefer (l.slots ++ blk) := by
  have hserved := h.serves hinv
  refine hc.append fun i s hs hk => ?_
  have hother : ∀ s', s'.kind ≠ kindCond → some s' ≠ some s := by
    rintro s' hne hs'
    obtain rfl := Option.some.inj hs'
    exact hne hk
  cases h with
  | one hone =>
    obtain ⟨rfl, rfl⟩ : i = 0 ∧ s = Slot.fresh _ _ := by
      cases i with
      | zero => exact ⟨rfl, (Option.some.inj hs).symm⟩
      | succ i => simp at hs
    cases hone with
    | condition hi =>
      obtain ⟨t, ht, hmutex⟩ := hinv.mutexSlot hi
      obtain ⟨s, hblk, -, hparam, -⟩ := hserved.serves
      have haux := hparam _ rfl
      obtain rfl := List.head_eq_of_cons_eq hblk
      rw [haux]
      have hlt := (List.getElem?_eq_some_iff.mp ht).1
      exact ⟨by omega, t, by rw [List.getElem?_append_left hlt]; exact ht, hmutex⟩
    | _ => exact absurd hk (by simp only [Slot.fresh_kind]; decide)
  | bytes hne =>
    rw [List.mem_singleton.mp (List.mem_of_getElem? hs)] at hk
    exact absurd hk (by simp only [Slot.bytes_kind]; decide)
  | array hkind hne =>
    rw [List.eq_of_mem_replicate (List.mem_of_getElem? hs)] at hk
    rcases hkind with rfl | rfl <;> exact absurd hk (by simp only [Slot.fresh_kind]; decide)
  | queue =>
    have hlen : l.slots.length + 5 ≤ 0xffff := hn
    have hlow : flagProcessShared ||| p.condFlags < 2 ^ 16 := by
      unfold Platform.condFlags
      split_ifs <;> decide
    have haux : ∀ n < 2 ^ 16,
        (flagProcessShared ||| auxFlags n ||| p.condFlags) >>> slotAuxShift = n := by
      intro n hlt
      rw [Nat.or_right_comm]
      exact aux_auxFlags hlow hlt
    -- the two conditions refer to the two mutexes of the block
    rcases i with _ | _ | _ | _ | _ | i
    · exact (hother _ (by simp only [Slot.fresh_kind]; decide) hs).elim
    · exact (hother _ (by simp only [Slot.fresh_kind]; decide) hs).elim
    · have hs2 : s.aux = l.nslots := by
        rw [← Option.some.inj hs]
        exact haux _ (by unfold LayoutObj.nslots; omega)
      rw [hs2]
      refine ⟨by unfold LayoutObj.nslots; omega, Slot.fresh kindRobustMutex
        (flagProcessShared ||| flagRobust), ?_, Or.inr rfl⟩
      unfold LayoutObj.nslots
      rw [List.getElem?_append_right le_rfl, Nat.sub_self]
      rfl
    · have hs3 : s.aux = l.nslots + 1 := by
        rw [← Option.some.inj hs]
        exact haux _ (by unfold LayoutObj.nslots; omega)
      rw [hs3]
      refine ⟨by unfold LayoutObj.nslots; omega, Slot.fresh kindRobustMutex
        (flagProcessShared ||| flagRobust), ?_, Or.inr rfl⟩
      unfold LayoutObj.nslots
      rw [List.getElem?_append_right (by omega), Nat.add_sub_cancel_left]
      rfl
    · exact (hother _ (by simp only [Slot.bytes_kind]; decide) hs).elim
    · simp [queueSlots] at hs
  | futexQueue =>
    rcases i with _ | _ | _ | i
    · exact (hother _ (by simp only [Slot.fresh_kind]; decide) hs).elim
    · exact (hother _ (by simp only [Slot.fresh_kind]; decide) hs).elim
    · exact (hother _ (by simp only [Slot.bytes_kind]; decide) hs).elim
    · simp [futexQueueSlots] at hs

theorem SlotRequest.lowFlags (h : SlotRequest p l g blk) : LowFlags blk := by
  have hshared : flagProcessShared < 2 ^ 16 := by decide
  intro s hs hk
  cases h with
  | one hone =>
    obtain rfl := List.mem_singleton.mp hs
    cases hone with
    | semaphore hv => exact low_auxFlags hshared _
    | barrier hb hv => exact low_auxFlags hshared _
    | _ => exact absurd hk (by simp only [Slot.fresh_kind]; decide)
  | bytes hne =>
    obtain rfl := List.mem_singleton.mp hs
    exact absurd hk (by simp only [Slot.bytes_kind]; decide)
  | array hkind hne =>
    obtain rfl := List.eq_of_mem_replicate hs
    rcases hkind with rfl | rfl <;> exact absurd hk (by simp only [Slot.fresh_kind]; decide)
  | queue =>
    simp only [queueSlots, List.mem_cons, List.not_mem_nil, or_false] at hs
    rcases hs with rfl | rfl | rfl | rfl | rfl <;>
      exact absurd hk (by simp only [Slot.fresh_kind, Slot.bytes_kind]; decide)
  | futexQueue =>
    simp only [futexQueueSlots, List.mem_cons, List.not_mem_nil, or_false] at hs
    rcases hs with rfl | rfl | rfl <;>
      exact absurd hk (by simp only [Slot.fresh_kind, Slot.bytes_kind]; decide)

end Request

/-! ## Runs -/

/-- The layouts that a program can make: each call may succeed or raise.  `ops` are the calls that
succeeded. -/
inductive LayoutRun (p : Platform) : List AddOp → LayoutObj → Prop
  | empty : LayoutRun p [] .empty
  | done {ops : List AddOp} {l l' : LayoutObj} {op : AddOp} {fault : AllocFault} :
      LayoutRun p ops l → l.apply p op fault = (l', .ok ()) → LayoutRun p (ops ++ [op]) l'
  | raised {ops : List AddOp} {l l' : LayoutObj} {op : AddOp} {fault : AllocFault} {e : PyError} :
      LayoutRun p ops l → l.apply p op fault = (l', .error e) → LayoutRun p ops l'

/-- **The invariant of the runs.** -/
structure RunInv (p : Platform) (ops : List AddOp) (l : LayoutObj) : Prop where
  inv : LayoutInv p l
  settled : ∀ s ∈ l.slots, s.Settled p
  counts : ∀ g ∈ l.handles, g.count ≠ 0
  room : l.nslots ≤ l.cap
  short : l.cap ≤ 0xffff
  conds : CondsRefer l.slots
  low : LowFlags l.slots
  /-- The handles have the numbers that were asked for. -/
  numbers : ops.map AddOp.number = l.handles.map fun g => g.type.number
  /-- A rebuild moves the slots back, and has nothing to tell the handles. -/
  rebuild : ∃ out, layoutSync p l = ({ l with slots := out }, .ok ())

section Step

variable {p : Platform} {ops : List AddOp} {l l' l₁ : LayoutObj} {op : AddOp}
  {fault : AllocFault} {g : LayoutHandle} {blk : List Slot} {e : PyError}

theorem SameLayout.nslots (h : SameLayout l l') : l'.nslots = l.nslots := h.slots.length_eq.symm

/-- Moved slots are rebuilt alike. -/
theorem SameLayout.sync (h : SameLayout l l') (hn : l.nslots ≤ 0xffff) {out : List Slot}
    (hsync : layoutSync p l = ({ l with slots := out }, .ok ())) :
    layoutSync p l' = ({ l' with slots := out }, .ok ()) := by
  obtain ⟨e, hbuild, -, -⟩ := layoutSync_ok hsync
  have hbuild' := posixipcLayoutBuild_congr hn (h.slots.imp fun _ _ hm => hm.alike) hbuild
  unfold layoutSync at hsync ⊢
  rw [hbuild] at hsync
  rw [hbuild', h.handles]
  simp only at hsync ⊢
  obtain ⟨h1, h2⟩ := Prod.ext_iff.mp hsync
  refine Prod.ext ?_ h2
  have hh : (syncHandles out l.handles).1 = l.handles := congrArg LayoutObj.handles h1
  simp only [hh]

/-- A call that leaves the layout as good as it was keeps the invariant. -/
theorem RunInv.same (hinv : RunInv p ops l) (h : SameLayout l l') (hle : l.cap ≤ l'.cap)
    (hcap : l'.cap ≤ 0xffff) : RunInv p ops l' := by
  have htags := map_tag_of_moved h.slots
  have hkept : List.Forall₂ Slot.Kept l.slots l'.slots := by
    refine h.slots.imp fun s s' hm => ?_
    rw [hm]
    exact ⟨rfl, rfl, fun _ => rfl⟩
  have hmem : ∀ s' ∈ l'.slots, ∃ s ∈ l.slots, s.Moved s' := by
    intro s' hs'
    obtain ⟨i, hi, rfl⟩ := List.mem_iff_getElem.mp hs'
    exact ⟨_, List.getElem_mem _, h.slots.get (by rw [h.slots.length_eq]; exact hi) hi⟩
  refine ⟨⟨?_, ?_, ?_, ?_⟩, ?_, ?_, ?_, hcap, hinv.conds.keep htags, hinv.low.keep htags, ?_, ?_⟩
  · rw [h.nslots]
    exact hinv.inv.count
  · intro s' hs'
    obtain ⟨s, hs, hm⟩ := hmem s' hs'
    obtain ⟨hshort, hbytes⟩ := hinv.inv.sound s hs
    rw [hm]
    exact ⟨hshort, hbytes⟩
  · rw [h.handles, ← List.map_id l.handles]
    exact hinv.inv.blocks.keep _ (fun g => ⟨rfl, rfl, rfl⟩) hkept
  · rw [h.handles]
    exact hinv.inv.mutexes
  · intro s' hs'
    obtain ⟨s, hs, hm⟩ := hmem s' hs'
    exact hm.settled (hinv.settled s hs)
  · rw [h.handles]
    exact hinv.counts
  · rw [h.nslots]
    exact hinv.room.trans hle
  · rw [h.handles]
    exact hinv.numbers
  · obtain ⟨out, hsync⟩ := hinv.rebuild
    exact ⟨out, h.sync hinv.inv.count hsync⟩

/-- The reserved array does not change the rest. -/
theorem RunInv.ensure (hinv : RunInv p ops l) {need : ℕ}
    (hens : layoutEnsure l need fault = .ok l₁) : RunInv p ops l₁ := by
  obtain ⟨-, hle, hcap⟩ := layoutEnsure_cap hinv.short hens
  exact hinv.same (.cap hens) hle hcap

/-- The spans still fit with the new handle. -/
theorem RunInv.spansFit (hinv : RunInv p ops l) (hreq : SlotRequest p l g blk)
    (hn : l.nslots + blk.length ≤ 0xffff) :
    SpansFit (l.handles ++ [g]) (l.slots ++ blk).length := by
  refine (hinv.inv.append hreq hn 0).spansFit fun k hk => ?_
  rcases List.mem_append.mp hk with hk | hk
  · exact hinv.counts k hk
  · rw [List.mem_singleton.mp hk]
    exact hreq.count_ne_zero

/-- **A commit keeps the invariant.** -/
theorem RunInv.commit (hinv : RunInv p ops l) (hreq : SlotRequest p l g blk)
    (hn : l.nslots + blk.length ≤ 0xffff) (hcap : l.nslots + blk.length ≤ l.cap)
    (hnum : op.number = g.type.number) (h : commitSlots p l g blk fault = (l', .ok ())) :
    RunInv p (ops ++ [op]) l' := by
  have hsync := commitSlots_ok h
  have happend := hinv.inv.append hreq hn l.cap
  obtain ⟨x, hbuild, hhandles, -⟩ := layoutSync_ok hsync
  obtain ⟨hloop, -⟩ := posixipcLayoutBuild_ok happend.count hbuild
  have hsteady : ∀ s ∈ l.slots ++ blk, s.Steady p := fun s hs => (happend.sound s hs).steady
  have htags : l'.slots.map Slot.tag = (l.slots ++ blk).map Slot.tag :=
    buildSlots_map Slot.tag (fun _ _ => rfl) hloop
  have hlen : l'.slots.length = l.slots.length + blk.length := by
    rw [← List.length_append]
    exact (kept_buildSlots hloop).length_eq.symm
  have hcapEq : l'.cap = l.cap := by
    unfold layoutSync at hsync
    rw [hbuild] at hsync
    exact (congrArg (fun r => r.1.cap) hsync).symm
  refine ⟨happend.sync hsync, settled_buildSlots hsteady hloop, ?_, ?_, ?_,
    (hreq.conds hinv.inv hn hinv.conds).keep htags, (hinv.low.append hreq.lowFlags).keep htags,
    ?_, ?_⟩
  · -- the classes of the handles, and with them their spans, are what they were
    rw [hhandles]
    intro k' hk'
    obtain ⟨k, hk, rfl⟩ := List.mem_map.mp hk'
    have hcount : (k.applySlotMeta (l'.slots.getD k.slot default)).count = k.count := by
      unfold LayoutHandle.count
      rw [applySlotMeta_type]
    rw [hcount]
    exact (hinv.spansFit hreq hn k hk).1
  · rw [LayoutObj.nslots, hlen, hcapEq]
    exact hcap
  · rw [hcapEq]
    exact hinv.short
  · rw [hhandles, List.map_append, hinv.numbers, List.map_map, List.map_append]
    simp [hnum]
  · have hre := posixipcLayoutBuild_rebuild happend.count hsteady hbuild
    exact ⟨l'.slots, layoutSync_idem hsync hre⟩

/-- A commit that raises keeps it too. -/
theorem RunInv.commit_error (hinv : RunInv p ops l) (hreq : SlotRequest p l g blk)
    (hn : l.nslots + blk.length ≤ 0xffff)
    (h : commitSlots p l g blk fault = (l', .error e)) :
    SameLayout l l' ∧ l'.cap = l.cap :=
  commitSlots_error hinv.settled (hinv.spansFit hreq hn)
    (by rw [List.length_append]; exact hn) h

/-- A request is the same after the array has grown. -/
theorem SlotRequest.cap (hreq : SlotRequest p l g blk) {need : ℕ}
    (hens : layoutEnsure l need fault = .ok l₁) : SlotRequest p l₁ g blk := by
  rw [(layoutEnsure_ok hens).2]
  cases hreq with
  | one hone =>
    refine .one ?_
    cases hone with
    | mutex prio => exact .mutex prio
    | robustMutex prio => exact .robustMutex prio
    | rwlock => exact .rwlock
    | condition hi => exact .condition hi
    | semaphore hv => exact .semaphore hv
    | barrier hb hv => exact .barrier hb hv
    | spinLock hs => exact .spinLock hs
  | bytes hne => exact .bytes hne
  | array hk hne => exact .array hk hne
  | queue h1 h2 h3 h4 => exact .queue h1 h2 h3 h4
  | futexQueue h1 h2 h3 h4 => exact .futexQueue h1 h2 h3 h4

/-- **A call that succeeds keeps the invariant.** -/
theorem RunInv.apply_ok (hinv : RunInv p ops l) (h : l.apply p op fault = (l', .ok ())) :
    RunInv p (ops ++ [op]) l' := by
  obtain ⟨x', hpair⟩ : ∃ x', AddPair p l l op fault (l', .ok ()) x' :=
    ⟨_, by rw [← h]; exact addPair (.refl fault l) op⟩
  generalize hx : (l', Except.ok ()) = x at hpair
  cases hpair with
  | early e => exact absurd (congrArg Prod.snd hx) (by simp [LayoutObj.raise])
  | reserved e hens hens' => exact absurd (congrArg Prod.snd hx) (by simp [LayoutObj.raise])
  | commit hens hens' hreq hop hnum =>
    have hinv₁ := hinv.ensure hens
    have hneed := layoutEnsure_cap hinv.short hens
    have hnslots := layoutEnsure_nslots hens
    refine hinv₁.commit (hreq.cap hens) ?_ ?_ hnum hx.symm
    · rw [hnslots]
      exact (layoutEnsure_ok hens).1
    · rw [hnslots]
      exact hneed.1

/-- **A call that raises leaves the layout as good as it was.** -/
theorem RunInv.apply_error (hinv : RunInv p ops l) (h : l.apply p op fault = (l', .error e)) :
    SameLayout l l' ∧ RunInv p ops l' := by
  obtain ⟨x', hpair⟩ : ∃ x', AddPair p l l op fault (l', .error e) x' :=
    ⟨_, by rw [← h]; exact addPair (.refl fault l) op⟩
  generalize hx : (l', Except.error e) = x at hpair
  cases hpair with
  | early e =>
    obtain rfl : l' = l := congrArg Prod.fst hx
    exact ⟨⟨rfl, rfl, List.forall₂_same.mpr fun s _ => .refl s⟩, hinv⟩
  | reserved e hens hens' =>
    obtain rfl := congrArg Prod.fst hx
    exact ⟨.cap hens, hinv.ensure hens⟩
  | @commit l₁ _ g blk hens hens' hreq hop hnum =>
    have hinv₁ := hinv.ensure hens
    obtain ⟨hsame, hcap⟩ := hinv₁.commit_error (hreq.cap hens)
      (by rw [layoutEnsure_nslots hens]; exact (layoutEnsure_ok hens).1) hx.symm
    refine ⟨(SameLayout.cap hens).trans hsame, hinv₁.same hsame (le_of_eq hcap.symm) ?_⟩
    rw [hcap]
    exact hinv₁.short

end Step

theorem LayoutRun.inv {p : Platform} {ops : List AddOp} {l : LayoutObj} (h : LayoutRun p ops l) :
    RunInv p ops l := by
  induction h with
  | empty =>
    refine ⟨⟨by decide, by simp [LayoutObj.empty], .nil 0, by simp [LayoutObj.empty]⟩,
      by simp [LayoutObj.empty], by simp [LayoutObj.empty], by decide, by decide, ?_, ?_, rfl,
      [], rfl⟩
    · intro i s hs
      simp [LayoutObj.empty] at hs
    · intro s hs
      simp [LayoutObj.empty] at hs
  | done _ hadd ih => exact ih.apply_ok hadd
  | raised _ hadd ih => exact (ih.apply_error hadd).2

/-! ## The spans of the handles -/

/-- The spans follow one another from `lo` to `hi`, without a gap. -/
def Covers : ℕ → List LayoutHandle → ℕ → Prop
  | lo, [], hi => lo = hi
  | lo, g :: rest, hi => g.slot = lo ∧ g.count ≠ 0 ∧ Covers (lo + g.count) rest hi

theorem Blocks.covers {p : Platform} {start : ℕ} {hs : List LayoutHandle} {slots : List Slot}
    (hb : Blocks p start hs slots) (hc : ∀ g ∈ hs, g.count ≠ 0) :
    Covers start hs (start + slots.length) := by
  induction hb with
  | nil start => rfl
  | @cons start g hs blk rest h1 h2 _ _ ih =>
    refine ⟨h1, hc g List.mem_cons_self, ?_⟩
    rw [List.length_append, h2, ← Nat.add_assoc]
    exact ih fun k hk => hc k (List.mem_cons_of_mem g hk)

/-- The handle of a slot. -/
theorem Blocks.owner {p : Platform} {start : ℕ} {hs : List LayoutHandle} {slots : List Slot}
    (hb : Blocks p start hs slots) {i : ℕ} {s : Slot} (hs' : slots[i]? = some s) :
    ∃ (k : ℕ) (g : LayoutHandle) (blk : List Slot) (j : ℕ), hs[k]? = some g ∧ g.Serves p blk ∧
      blk.length = g.count ∧ blk[j]? = some s ∧ g.slot + j = start + i := by
  induction hb generalizing i with
  | nil start => simp at hs'
  | @cons start g hs blk rest h1 h2 h3 _ ih =>
    by_cases hi : i < blk.length
    · rw [List.getElem?_append_left hi] at hs'
      exact ⟨0, g, blk, i, rfl, h3, h2, hs', by rw [h1]⟩
    · rw [List.getElem?_append_right (by omega)] at hs'
      obtain ⟨k, g', blk', j, hk, hserves, hlen, hj, hat⟩ := ih hs'
      exact ⟨k + 1, g', blk', j, hk, hserves, hlen, hj, by omega⟩

/-- The handle of a semaphore or a barrier has its number. -/
theorem LayoutHandle.Serves.number {p : Platform} {g : LayoutHandle} {blk : List Slot} {s : Slot}
    {j : ℕ} (h : g.Serves p blk) (hj : blk[j]? = some s)
    (hk : s.kind = kindSem ∨ s.kind = kindBarrier) :
    g.type.number = some (s.kind, (s.aux : ℤ)) ∧ j = 0 := by
  have hmem := List.mem_of_getElem? hj
  -- no slot in front of a ring, and no ring, is of such a kind
  have hring : ∀ kinds need, kindSem ∉ kinds → kindBarrier ∉ kinds →
      ¬RingBlock kinds need blk := by
    rintro kinds need h1 h2 ⟨front, ring, rfl, hfront, hbytes, -⟩
    rcases List.mem_append.mp hmem with hs | hs
    · have hin : s.kind ∈ kinds := by
        rw [← hfront]
        exact List.mem_map_of_mem hs
      rcases hk with hk | hk
      · exact h1 (hk ▸ hin)
      · exact h2 (hk ▸ hin)
    · rw [List.mem_singleton.mp hs, hbytes] at hk
      exact absurd hk (by decide)
  unfold LayoutHandle.Serves at h
  cases htype : g.type with
  | mutexArray count =>
    rw [htype] at h
    rw [h.2.2 s hmem] at hk
    rcases h.2.1 with hm | hm <;> rw [hm] at hk <;> exact absurd hk (by decide)
  | queue depth itemSize =>
    rw [htype] at h
    exact absurd h (hring _ _ (by decide) (by decide))
  | futexQueue depth itemSize =>
    rw [htype] at h
    exact absurd h (hring _ _ (by decide) (by decide))
  | semaphore n =>
    rw [htype] at h
    obtain ⟨t, rfl, hkind, hparam, -⟩ := h
    obtain ⟨rfl, rfl⟩ : j = 0 ∧ t = s := by simpa [List.getElem?_singleton] using hj
    rw [hparam n rfl, hkind]
    exact ⟨rfl, rfl⟩
  | barrier n =>
    rw [htype] at h
    obtain ⟨t, rfl, hkind, hparam, -⟩ := h
    obtain ⟨rfl, rfl⟩ : j = 0 ∧ t = s := by simpa [List.getElem?_singleton] using hj
    rw [hparam n rfl, hkind]
    exact ⟨rfl, rfl⟩
  | _ =>
    rw [htype] at h
    obtain ⟨t, rfl, hkind, -⟩ := h
    rw [List.mem_singleton.mp hmem, hkind] at hk
    exact absurd hk (by simp only [HandleType.slotKind]; decide)

/-- **The invariant of every run of adds**, successful or not.  The spans of the handles follow
one another and cover the slots; the capacity holds the slots and is a `uint16_t`, and the loop
that enlarges it ends, with room for any request that is one; a condition refers to a mutex in
front of it; and the flags of a semaphore or a barrier give back the number that the call was
given, above the one flag of all slots. -/
theorem layout_run_invariant (p : Platform) (ops : List AddOp) (l : LayoutObj)
    (hrun : LayoutRun p ops l) :
    Covers 0 l.handles l.nslots ∧
    (l.nslots ≤ l.cap ∧ l.cap ≤ 65535) ∧
    (∀ need ≤ 65535, ∃ ncap, GrowEnds need (if l.cap = 0 then 4 else l.cap) ncap ∧
      need ≤ ncap ∧ ncap ≤ 65535 ∧
      layoutEnsure l need .none = .ok { l with cap := if need ≤ l.cap then l.cap else ncap }) ∧
    CondsRefer l.slots ∧
    (∀ (i : ℕ) (s : Slot), l.slots[i]? = some s → s.kind = kindSem ∨ s.kind = kindBarrier →
      s.initFlags % 2 ^ 16 = flagProcessShared ∧
      ∃ (k : ℕ) (op : AddOp) (g : LayoutHandle), ops[k]? = some op ∧ l.handles[k]? = some g ∧
        g.slot = i ∧ op.number = some (s.kind, (s.aux : ℤ))) := by
  have hinv := hrun.inv
  refine ⟨?_, ⟨hinv.room, hinv.short⟩, fun need hneed => ?_, hinv.conds, fun i s hs hk => ?_⟩
  · have hcovers := hinv.inv.blocks.covers hinv.counts
    rwa [Nat.zero_add] at hcovers
  · have hshort := hinv.short
    obtain ⟨hends, hn, -, hm⟩ := @growCap_spec need (if l.cap = 0 then 4 else l.cap) hneed
      (by split_ifs <;> omega) (by split_ifs <;> omega)
    refine ⟨_, hends, hn, hm, ?_⟩
    unfold layoutEnsure
    rw [if_neg (by omega)]
    by_cases hfit : need ≤ l.cap
    · rw [if_pos hfit, if_pos hfit]
    · rw [if_neg hfit, if_neg (by decide), if_neg hfit]
  · refine ⟨hinv.low s (List.mem_of_getElem? hs) hk, ?_⟩
    obtain ⟨k, g, blk, j, hg, hserves, -, hj, hat⟩ := hinv.inv.blocks.owner hs
    obtain ⟨hnum, rfl⟩ := hserves.number hj hk
    have hops := congrArg (fun zs => zs[k]?) hinv.numbers
    simp only [List.getElem?_map, hg, Option.map_some, hnum] at hops
    obtain ⟨op, hop, hopnum⟩ := Option.map_eq_some_iff.mp hops
    exact ⟨k, op, g, hop, hg, by omega, hopnum⟩

/-- `layout.add(Condition, mutex=m)` with the mutex that was added first. -/
def addCondition : AddOp :=
  .add ⟨.condition, .absent, false, true, some (.handle 0), 0, 0, 0, 0⟩

/-- `layout.add(Semaphore, value=n)`. -/
def addSemaphore (n : ℤ) : AddOp := .add ⟨.semaphore, .absent, false, true, none, n, 0, 0, 0⟩

/-- A mutex and its condition. -/
def mutexAndCond : LayoutObj :=
  ((LayoutObj.empty.apply glibcX86 addMutex .none).1.apply glibcX86 addCondition .none).1

/-- Then a semaphore whose value is out of range. -/
def semaphoreRefused : LayoutObj := (mutexAndCond.apply glibcX86 (addSemaphore 65536) .none).1

/-- And one of value 7. -/
def semaphoreTaken : LayoutObj := (semaphoreRefused.apply glibcX86 (addSemaphore 7) .none).1

/-- The failed call leaves no slot: the third slot is the semaphore of value 7. -/
theorem layout_run_invariant_semaphore :
    semaphoreTaken.slots[2]? = some ⟨kindSem, 8, 240, 64, 0x70002⟩ ∧
      Covers 0 semaphoreTaken.handles 3 ∧ CondsRefer semaphoreTaken.slots := by
  have hmutex : LayoutObj.empty.apply glibcX86 addMutex .none
      = ((LayoutObj.empty.apply glibcX86 addMutex .none).1, .ok ()) := by decide +kernel
  have hcond : (LayoutObj.empty.apply glibcX86 addMutex .none).1.apply glibcX86 addCondition .none
      = (mutexAndCond, .ok ()) := by decide +kernel
  have hrange : mutexAndCond.apply glibcX86 (addSemaphore 65536) .none
      = (semaphoreRefused, .error (.valueError "Semaphore value out of range")) := by
    decide +kernel
  have hseven : semaphoreRefused.apply glibcX86 (addSemaphore 7) .none
      = (semaphoreTaken, .ok ()) := by decide +kernel
  obtain ⟨hcovers, -, -, hconds, -⟩ := layout_run_invariant glibcX86 _ _
    ((((LayoutRun.empty.done hmutex).done hcond).raised hrange).done hseven)
  have hslots : semaphoreTaken.nslots = 3 := by decide +kernel
  rw [hslots] at hcovers
  exact ⟨by decide +kernel, hcovers, hconds⟩

end PosixIpc
