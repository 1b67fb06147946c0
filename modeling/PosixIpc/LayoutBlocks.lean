/-
# The slots of a layout are the blocks of its handles

What holds of every layout that successful adds have built, and what follows for its directory.

* `Blocks` : the slots are the blocks of the handles in their order, a handle knows where its
  block starts, and a block has the kinds and flags of its handle (`LayoutHandle.Serves`);
* `LayoutInv` adds that the slots are built and that a Condition has its mutex in the layout;
  `Added.inv` proves it by induction over the adds;
* `roles` reads the use of each slot off the directory alone.  A ring differs from a blob by
  its flags, which are never `0`, and the two rings differ by the kind in front of them.

`LayoutRoles` draws the conclusions for two layouts with one directory.
-/
import PosixIpc.LayoutAdd
import PosixIpc.ShmAttach

namespace PosixIpc

open Word32

/-! ## Blocks -/

/-- The kind of the slot of a handle of one slot. -/
def HandleType.slotKind : HandleType → ℕ
  | .mutex => kindMutex
  | .robustMutex => kindRobustMutex
  | .rwlock => kindRwlock
  | .condition _ => kindCond
  | .semaphore _ => kindSem
  | .barrier _ => kindBarrier
  | .spinLock => kindSpin
  | _ => kindBytes

/-- The number that a handle of one slot keeps in the flags of its slot. -/
def HandleType.param : HandleType → Option ℕ
  | .condition m => some m
  | .semaphore n => some n
  | .barrier n => some n
  | _ => none

/-- The slots of a queue on `need` bytes: the kinds in front of the ring, and the ring. -/
def RingBlock (kinds : List ℕ) (need : ℕ) (blk : List Slot) : Prop :=
  ∃ front ring, blk = front ++ [ring] ∧ front.map Slot.kind = kinds ∧ ring.kind = kindBytes ∧
    ring.initFlags ≠ 0 ∧ need ≠ 0 ∧ need ≤ ring.size

/-- The slots in front of the ring of a queue. -/
def queueFront : List ℕ := [kindRobustMutex, kindRobustMutex, kindCond, kindCond]

/-- The slots in front of the ring of a futex queue. -/
def futexQueueFront : List ℕ := [kindRobustMutex, kindRobustMutex]

/-- The block is one that the handle can use. -/
def LayoutHandle.Serves (p : Platform) (h : LayoutHandle) (blk : List Slot) : Prop :=
  match h.type with
  | .mutexArray count =>
    blk.length = count ∧ (h.record.kind = kindMutex ∨ h.record.kind = kindRobustMutex) ∧
      ∀ s ∈ blk, s.kind = h.record.kind
  | .queue depth itemSize =>
    RingBlock queueFront (posixipcQueueBytesSize p.cacheline depth itemSize) blk
  | .futexQueue depth itemSize =>
    RingBlock futexQueueFront (posixipcFutexqBytesSize p.cacheline depth itemSize) blk
  | type =>
    ∃ s, blk = [s] ∧ s.kind = type.slotKind ∧ (∀ n, type.param = some n → s.aux = n) ∧
      (s.kind = kindBytes → s.initFlags = 0)

/-- The slots are the blocks of the handles, from index `start` on. -/
inductive Blocks (p : Platform) : ℕ → List LayoutHandle → List Slot → Prop
  | nil (start : ℕ) : Blocks p start [] []
  | cons {start : ℕ} {h : LayoutHandle} {hs : List LayoutHandle} {blk rest : List Slot} :
      h.slot = start → blk.length = h.count → h.Serves p blk →
      Blocks p (start + h.count) hs rest → Blocks p start (h :: hs) (blk ++ rest)

/-- One more handle, with the slots it serves. -/
theorem Blocks.snoc {p : Platform} {start : ℕ} {hs : List LayoutHandle} {slots blk : List Slot}
    {h : LayoutHandle} (hb : Blocks p start hs slots) (hslot : h.slot = start + slots.length)
    (hlen : blk.length = h.count) (hserves : h.Serves p blk) :
    Blocks p start (hs ++ [h]) (slots ++ blk) := by
  induction hb with
  | nil start =>
      have hslot : h.slot = start := by simpa using hslot
      have hone := Blocks.cons hslot hlen hserves (Blocks.nil _)
      rwa [List.append_nil] at hone
  | cons h1 h2 h3 _ ih =>
      rw [List.cons_append, List.append_assoc]
      refine Blocks.cons h1 h2 h3 (ih ?_)
      rw [hslot, List.length_append, h2]
      omega

/-- The block of a handle, and where it stands. -/
theorem Blocks.mem {p : Platform} {start : ℕ} {hs : List LayoutHandle} {slots : List Slot}
    {h : LayoutHandle} (hb : Blocks p start hs slots) (hh : h ∈ hs) :
    ∃ pre blk post, slots = pre ++ blk ++ post ∧ h.slot = start + pre.length ∧
      blk.length = h.count ∧ h.Serves p blk := by
  induction hb with
  | nil start => simp at hh
  | @cons start g hs blk rest h1 h2 h3 _ ih =>
      rcases List.mem_cons.mp hh with rfl | hh
      · exact ⟨[], blk, rest, by simp, by simp [h1], h2, h3⟩
      · obtain ⟨pre, b, post, rfl, hslot, hlen, hs⟩ := ih hh
        refine ⟨blk ++ pre, b, post, by simp, ?_, hlen, hs⟩
        rw [hslot, List.length_append, h2]
        omega

/-! ## Rebuilding keeps the blocks -/

/-- What a rebuild keeps of a slot. -/
structure Slot.Kept (s s' : Slot) : Prop where
  kind : s'.kind = s.kind
  initFlags : s'.initFlags = s.initFlags
  size : s.size ≠ 0 → s'.size = s.size

/-- Placing a slot keeps its kind, its flags and a size it has. -/
theorem Slot.Kept.place (p : Platform) (s : Slot) (off : ℕ) : s.Kept (s.place p off) where
  kind := rfl
  initFlags := rfl
  size := fun h => if_pos h

/-- Building a layout places its slots. -/
theorem kept_buildSlots {p : Platform} {cursor total : ℕ} {slots out : List Slot}
    (h : buildSlots p cursor slots = (out, .ok total)) : List.Forall₂ Slot.Kept slots out := by
  induction slots generalizing cursor out with
  | nil =>
      obtain rfl : ([] : List Slot) = out := congrArg Prod.fst h
      exact .nil
  | cons s rest ih =>
      obtain ⟨out', -, -, -, -, rfl, hrest⟩ := buildSlots_cons h
      exact .cons (.place p s _) (ih hrest)

/-- A relation along an appended list holds along its two parts. -/
theorem forall₂_append_left {α β : Type} {R : α → β → Prop} {xs ys : List α} {zs : List β}
    (h : List.Forall₂ R (xs ++ ys) zs) :
    ∃ us vs, zs = us ++ vs ∧ List.Forall₂ R xs us ∧ List.Forall₂ R ys vs := by
  induction xs generalizing zs with
  | nil => exact ⟨[], zs, rfl, .nil, h⟩
  | cons x xs ih =>
      cases h with
      | cons hx hrest =>
          obtain ⟨us, vs, rfl, hu, hv⟩ := ih hrest
          exact ⟨_ :: us, vs, rfl, .cons hx hu, hv⟩

/-- A rebuild keeps the kinds. -/
theorem map_kind_of_kept {xs ys : List Slot} (h : List.Forall₂ Slot.Kept xs ys) :
    ys.map Slot.kind = xs.map Slot.kind := by
  induction h with
  | nil => rfl
  | cons hx _ ih => rw [List.map_cons, List.map_cons, hx.kind, ih]

/-- The block of a queue stays one. -/
theorem RingBlock.keep {kinds : List ℕ} {need : ℕ} {blk blk' : List Slot}
    (h : RingBlock kinds need blk) (hk : List.Forall₂ Slot.Kept blk blk') :
    RingBlock kinds need blk' := by
  obtain ⟨front, ring, rfl, hfront, hkind, hflags, hne, hsize⟩ := h
  obtain ⟨us, vs, rfl, hu, hv⟩ := forall₂_append_left hk
  cases hv with
  | cons hr hnil =>
      cases hnil
      refine ⟨us, _, rfl, by rw [map_kind_of_kept hu, hfront], by rw [hr.kind, hkind],
        by rw [hr.initFlags]; exact hflags, hne, ?_⟩
      rw [hr.size (by omega)]
      exact hsize

/-- The handle may change in everything but its class, and its slots as a rebuild does. -/
theorem LayoutHandle.Serves.keep {p : Platform} {h h' : LayoutHandle} {blk blk' : List Slot}
    (hs : h.Serves p blk) (htype : h'.type = h.type) (hkind : h'.record.kind = h.record.kind)
    (hk : List.Forall₂ Slot.Kept blk blk') : h'.Serves p blk' := by
  unfold LayoutHandle.Serves at *
  rw [htype]
  cases htp : h.type with
  | mutexArray count =>
      rw [htp] at hs
      obtain ⟨hlen, hrec, hall⟩ := hs
      refine ⟨by rw [← hlen, hk.length_eq], by rw [hkind]; exact hrec, fun s' hs' => ?_⟩
      obtain ⟨i, hi, rfl⟩ := List.mem_iff_getElem.mp hs'
      have hkept := hk.get (by rw [hk.length_eq]; exact hi) hi
      rw [hkind]
      exact hkept.kind.trans (hall _ (List.get_mem _ _))
  | queue depth itemSize =>
      rw [htp] at hs
      exact RingBlock.keep hs hk
  | futexQueue depth itemSize =>
      rw [htp] at hs
      exact RingBlock.keep hs hk
  | _ =>
      rw [htp] at hs
      obtain ⟨s, rfl, hkd, hparam, hblob⟩ := hs
      cases hk with
      | cons hr hnil =>
          cases hnil
          refine ⟨_, rfl, hr.kind.trans hkd, fun n hn => ?_, fun hb => ?_⟩
          · rw [Slot.aux, hr.initFlags]
            exact hparam n hn
          · rw [hr.initFlags]
            exact hblob (hr.kind.symm.trans hb)

/-- The blocks stay when the slots are built again. -/
theorem Blocks.keep {p : Platform} {start : ℕ} {hs : List LayoutHandle} {slots slots' : List Slot}
    (hb : Blocks p start hs slots) (f : LayoutHandle → LayoutHandle)
    (hf : ∀ h, (f h).type = h.type ∧ (f h).slot = h.slot ∧ (f h).record.kind = h.record.kind)
    (hk : List.Forall₂ Slot.Kept slots slots') : Blocks p start (hs.map f) slots' := by
  induction hb generalizing slots' with
  | nil start =>
      cases hk
      exact .nil start
  | @cons start h hs blk rest h1 h2 h3 _ ih =>
      obtain ⟨us, vs, rfl, hu, hv⟩ := forall₂_append_left hk
      obtain ⟨htype, hslot, hkind⟩ := hf h
      have hcount : (f h).count = h.count := by rw [LayoutHandle.count, htype]; rfl
      refine .cons (by rw [hslot, h1]) (by rw [hcount, ← h2, hu.length_eq])
        (h3.keep htype hkind hu) ?_
      rw [hcount]
      exact ih hv

/-! ## The invariant of the adds -/

/-- The alignment field of a slot can be used: it is a `uint16_t`, and it is `0` for bytes only
when the cache line does not show in sixteen bits. -/
structure Slot.Sound (p : Platform) (s : Slot) : Prop where
  short : s.Short
  bytes : s.align = 0 → s.kind = kindBytes → p.cacheline % 2 ^ 16 = 0

/-- A placed slot is as sound as before. -/
theorem Slot.Sound.place {p : Platform} {s : Slot} (h : s.Sound p) (off : ℕ) :
    (s.place p off).Sound p where
  short := Nat.mod_lt _ (by norm_num)
  bytes := by
    intro h0 hkind
    by_cases ha : s.align = 0
    · exact h.bytes ha hkind
    · -- an alignment of the slot's own is stored as it is
      have hal : s.effAlign p = s.align := if_pos ha
      have h0' : s.align % 2 ^ 16 = 0 := by rw [← hal]; exact h0
      rw [Nat.mod_eq_of_lt h.short] at h0'
      exact absurd h0' ha

/-- The slots of a built layout are sound. -/
theorem sound_buildSlots {p : Platform} {cursor total : ℕ} {slots out : List Slot}
    (hs : ∀ s ∈ slots, s.Sound p) (h : buildSlots p cursor slots = (out, .ok total)) :
    ∀ s ∈ out, s.Sound p := by
  induction slots generalizing cursor out with
  | nil =>
      obtain rfl : ([] : List Slot) = out := congrArg Prod.fst h
      simp
  | cons s rest ih =>
      obtain ⟨out', -, -, -, -, rfl, hrest⟩ := buildSlots_cons h
      intro x hx
      rcases List.mem_cons.mp hx with rfl | hx
      · exact (hs s List.mem_cons_self).place _
      · exact ih (fun y hy => hs y (List.mem_cons_of_mem s hy)) hrest x hx

/-- What holds of a layout between adds. -/
structure LayoutInv (p : Platform) (l : LayoutObj) : Prop where
  count : l.nslots ≤ 0xffff
  sound : ∀ s ∈ l.slots, s.Sound p
  blocks : Blocks p 0 l.handles l.slots
  /-- A Condition was given a mutex handle of the layout. -/
  mutexes : ∀ h ∈ l.handles, ∀ m, h.type = .condition m →
    ∃ g ∈ l.handles, g.slot = m ∧ (g.type = .mutex ∨ g.type = .robustMutex)

/-- The record of a slot does not change what the handle is. -/
@[simp] theorem applySlotMeta_type (h : LayoutHandle) (s : Slot) :
    (h.applySlotMeta s).type = h.type := by
  unfold LayoutHandle.applySlotMeta
  split <;> rfl

/-- The record of a slot does not move the handle. -/
@[simp] theorem applySlotMeta_slot (h : LayoutHandle) (s : Slot) :
    (h.applySlotMeta s).slot = h.slot := by
  unfold LayoutHandle.applySlotMeta
  split <;> rfl

/-- The record of a slot does not change the handle's kind. -/
@[simp] theorem applySlotMeta_kind (h : LayoutHandle) (s : Slot) :
    (h.applySlotMeta s).record.kind = h.record.kind := by
  unfold LayoutHandle.applySlotMeta
  split <;> rfl

/-- Syncing gives every handle the record of its slot. -/
theorem syncHandles_ok {slots : List Slot} {hs hs' : List LayoutHandle}
    (h : syncHandles slots hs = (hs', .ok ())) :
    hs' = hs.map fun g => g.applySlotMeta (slots.getD g.slot default) := by
  induction hs generalizing hs' with
  | nil => exact (congrArg Prod.fst h).symm
  | cons g rest ih =>
      unfold syncHandles at h
      by_cases hc : g.count = 0 ∨ g.slot ≥ slots.length ∨ u32 (g.slot + g.count) > slots.length
      · rw [if_pos hc] at h
        exact absurd (congrArg Prod.snd h) (by simp)
      · rw [if_neg hc] at h
        obtain ⟨h1, h2⟩ := Prod.ext_iff.mp h
        rw [List.map_cons, ← ih (Prod.ext rfl h2)]
        exact h1.symm

/-- A successful `layout_sync` builds the slots and tells the handles. -/
theorem layoutSync_ok {p : Platform} {l l' : LayoutObj} (h : layoutSync p l = (l', .ok ())) :
    ∃ e, posixipcLayoutBuild p l.slots = (l'.slots, .ok e) ∧
      l'.handles = l.handles.map (fun g => g.applySlotMeta (l'.slots.getD g.slot default)) ∧
      l'.sealed = l.sealed := by
  unfold layoutSync at h
  simp only at h
  split at h
  · exact absurd (congrArg Prod.snd h) (by simp)
  · rename_i e he
    obtain ⟨h1, h2⟩ := Prod.ext_iff.mp h
    simp only at h1 h2
    subst h1
    exact ⟨e, Prod.ext rfl he, syncHandles_ok (Prod.ext rfl h2), rfl⟩

/-- A rebuild keeps the invariant. -/
theorem LayoutInv.sync {p : Platform} {l l' : LayoutObj} (hinv : LayoutInv p l)
    (h : layoutSync p l = (l', .ok ())) : LayoutInv p l' := by
  obtain ⟨e, hbuild, hhandles, -⟩ := layoutSync_ok h
  obtain ⟨hloop, -⟩ := posixipcLayoutBuild_ok hinv.count hbuild
  have hkept := kept_buildSlots hloop
  refine ⟨?_, sound_buildSlots hinv.sound hloop, ?_, ?_⟩
  · exact (le_of_eq hkept.length_eq.symm).trans hinv.count
  · rw [hhandles]
    exact hinv.blocks.keep _ (fun g => ⟨by simp, by simp, by simp⟩) hkept
  · rw [hhandles]
    intro g' hg' m hm
    obtain ⟨g, hg, rfl⟩ := List.mem_map.mp hg'
    obtain ⟨k, hk, hslot, htype⟩ := hinv.mutexes g hg m (by simpa using hm)
    exact ⟨_, List.mem_map_of_mem hk, by simpa using hslot, by simpa using htype⟩

/-- The number in the upper half of the flags comes back. -/
theorem aux_auxFlags {low n : ℕ} (hlow : low < 2 ^ 16) (hn : n < 2 ^ 16) :
    (low ||| auxFlags n) >>> slotAuxShift = n := by
  have hshift : n <<< slotAuxShift < 2 ^ 32 := by
    rw [slotAuxShift, Nat.shiftLeft_eq]
    omega
  rw [auxFlags, u32_of_lt hshift, Nat.shiftRight_or_distrib, Nat.shiftLeft_shiftRight,
    Nat.shiftRight_eq_div_pow, slotAuxShift, Nat.div_eq_of_lt hlow, Nat.zero_or]

/-- No mix of a geometry is `0`. -/
theorem ringFlags_ne_zero (salt depth itemSize : ℕ) : ringFlags salt depth itemSize ≠ 0 := by
  unfold ringFlags
  simp only
  split_ifs with h
  · decide
  · exact h

/-- The padded size of bytes covers them. -/
theorem Platform.le_posixipcKindSize {p : Platform} {n : ℕ} (hn : n ≤ uint32Max)
    (hne : p.posixipcKindSize kindBytes n ≠ 0) : n ≤ p.posixipcKindSize kindBytes n := by
  have hprim : p.primOf kindBytes = none := by
    unfold Platform.primOf
    simp [kindBytes, kindMutex, kindRobustMutex, kindRwlock, kindCond, kindSem, kindBarrier,
      kindSpin]
  have hsize : p.posixipcKindSize kindBytes n = layoutAlignUp n p.cacheline := by
    rw [Platform.posixipcKindSize, hprim]
    simp
  rw [hsize] at hne ⊢
  by_cases h0 : p.cacheline = 0
  · rw [layoutAlignUp, if_pos (by omega)]
  · exact (layoutAlignUp_spec (Nat.pos_of_ne_zero h0) p.cacheline_le hn (Or.inl hne)).1

/-- The size of a `Queue` is a `uint32_t`. -/
theorem posixipcQueueBytesSize_le (cacheline depth itemSize : ℕ) :
    posixipcQueueBytesSize cacheline depth itemSize ≤ uint32Max := by
  have hu : ∀ n, u32 n ≤ uint32Max := fun n => by
    have := Nat.mod_lt n (show 0 < 2 ^ 32 by norm_num)
    unfold u32 uint32Max
    omega
  unfold posixipcQueueBytesSize
  simp only
  split_ifs <;> first | exact Nat.zero_le _ | exact hu _

/-- The size of a `FutexQueue` is a `uint32_t`. -/
theorem posixipcFutexqBytesSize_le (cacheline depth itemSize : ℕ) :
    posixipcFutexqBytesSize cacheline depth itemSize ≤ uint32Max := by
  unfold posixipcFutexqBytesSize
  simp only
  split_ifs
  · exact Nat.zero_le _
  · exact Nat.zero_le _
  · have := Nat.mod_lt (posixipcFutexqPrefixSize cacheline +
      posixipcQueueBytesSize cacheline depth itemSize) (show 0 < 2 ^ 32 by norm_num)
    unfold u32 uint32Max
    omega

/-- A new slot of a primitive is sound. -/
theorem Slot.Sound.fresh (p : Platform) {kind flags : ℕ} (hk : kind ≠ kindBytes) :
    (Slot.fresh kind flags).Sound p where
  short := Nat.two_pow_pos 16
  bytes := fun _ h => absurd h hk

/-- A new slot of bytes is sound. -/
theorem Slot.Sound.of_bytes (p : Platform) (size flags : ℕ) :
    (Slot.bytes p size flags).Sound p where
  short := Nat.mod_lt _ (by norm_num)
  bytes := by
    intro h _
    have hal : p.posixipcKindAlign kindBytes = p.cacheline := by
      unfold Platform.posixipcKindAlign Platform.primOf
      simp [kindBytes, kindMutex, kindRobustMutex, kindRwlock, kindCond, kindSem, kindBarrier,
        kindSpin]
    rw [← hal]
    exact h

/-- What the handle and the slots of a request have to do with each other. -/
structure Served (p : Platform) (l : LayoutObj) (h : LayoutHandle) (blk : List Slot) : Prop where
  slot : h.slot = l.nslots
  length : blk.length = h.count
  serves : h.Serves p blk
  sound : ∀ s ∈ blk, s.Sound p

/-- A handle of one slot is served by it. -/
theorem OneSlot.serves {p : Platform} {l : LayoutObj} {type : HandleType} {kind flags : ℕ}
    (hinv : LayoutInv p l) (h : OneSlot p l type kind flags) :
    Served p l (LayoutHandle.newUnbound p type kind flags l.nslots) [Slot.fresh kind flags] := by
  have hshared : flagProcessShared < 2 ^ 16 := by decide
  have hsound : ∀ kind flags, kind ≠ kindBytes →
      ∀ s ∈ [Slot.fresh kind flags], s.Sound p := by
    intro kind flags hk s hs
    rw [List.mem_singleton.mp hs]
    exact .fresh p hk
  -- a class without a number of its own
  have hnone : ∀ s : Slot, ∀ n, (none : Option ℕ) = some n → s.aux = n := by
    intro s n hn
    cases hn
  -- a kind that is not bytes
  have hkind : ∀ kind flags, kind ≠ kindBytes →
      (Slot.fresh kind flags).kind = kindBytes → (Slot.fresh kind flags).initFlags = 0 :=
    fun kind flags hk h => absurd h hk
  cases h with
  | mutex prio =>
      exact ⟨rfl, rfl, ⟨_, rfl, rfl, hnone _, hkind _ _ (by decide)⟩, hsound _ _ (by decide)⟩
  | robustMutex prio =>
      exact ⟨rfl, rfl, ⟨_, rfl, rfl, hnone _, hkind _ _ (by decide)⟩, hsound _ _ (by decide)⟩
  | rwlock =>
      exact ⟨rfl, rfl, ⟨_, rfl, rfl, hnone _, hkind _ _ (by decide)⟩, hsound _ _ (by decide)⟩
  | spinLock hs =>
      exact ⟨rfl, rfl, ⟨_, rfl, rfl, hnone _, hkind _ _ (by decide)⟩, hsound _ _ (by decide)⟩
  | semaphore hv =>
      refine ⟨rfl, rfl, ⟨_, rfl, rfl, fun n hn => ?_, hkind _ _ (by decide)⟩,
        hsound _ _ (by decide)⟩
      obtain rfl := Option.some.inj hn
      exact aux_auxFlags hshared (by omega)
  | barrier hb hv =>
      refine ⟨rfl, rfl, ⟨_, rfl, rfl, fun n hn => ?_, hkind _ _ (by decide)⟩,
        hsound _ _ (by decide)⟩
      obtain rfl := Option.some.inj hn
      exact aux_auxFlags hshared (by omega)
  | @condition i index hi =>
      refine ⟨rfl, rfl, ⟨_, rfl, rfl, fun n hn => ?_, hkind _ _ (by decide)⟩,
        hsound _ _ (by decide)⟩
      obtain rfl := Option.some.inj hn
      have hlow : flagProcessShared ||| p.condFlags < 2 ^ 16 := by
        unfold Platform.condFlags
        split_ifs <;> decide
      have hindex : index < 2 ^ 16 := by
        unfold LayoutObj.mutexIndex at hi
        split at hi
        · rename_i g hg
          split_ifs at hi
          obtain rfl := Option.some.inj hi
          obtain ⟨pre, blk, post, hslots, hslot, -, -⟩ :=
            hinv.blocks.mem (List.mem_of_getElem? hg)
          have hcount := hinv.count
          rw [LayoutObj.nslots, hslots, List.length_append, List.length_append] at hcount
          omega
        · simp at hi
      show (flagProcessShared ||| auxFlags index ||| p.condFlags) >>> slotAuxShift = index
      rw [Nat.or_right_comm]
      exact aux_auxFlags hlow hindex

/-- **Every add** is served by the slots it asks for. -/
theorem SlotRequest.serves {p : Platform} {l : LayoutObj} {h : LayoutHandle} {blk : List Slot}
    (hinv : LayoutInv p l) (hreq : SlotRequest p l h blk) : Served p l h blk := by
  have hmutex : ∀ flags, (Slot.fresh kindRobustMutex flags).Sound p := fun _ =>
    .fresh p (by decide)
  have hcond : ∀ flags, (Slot.fresh kindCond flags).Sound p := fun _ => .fresh p (by decide)
  cases hreq with
  | one h => exact h.serves hinv
  | @bytes padded hne =>
      refine ⟨rfl, rfl, ⟨_, rfl, rfl, fun n hn => ?_, fun _ => rfl⟩, fun s hs => ?_⟩
      · exact (Option.some_ne_none n hn.symm).elim
      · rw [List.mem_singleton.mp hs]
        exact .of_bytes p padded 0
  | @array kind flags count hk hne =>
      refine ⟨rfl, List.length_replicate, ⟨List.length_replicate, hk, ?_⟩, ?_⟩
      · intro s hs
        rw [List.eq_of_mem_replicate hs]
        rfl
      · intro s hs
        rw [List.eq_of_mem_replicate hs]
        exact .fresh p (by rcases hk with rfl | rfl <;> decide)
  | @queue depth itemSize hd hi hne hpad =>
      refine ⟨rfl, rfl, ⟨(queueSlots p l.nslots depth itemSize 0).take 4,
        Slot.bytes p _ (ringFlags 0 depth itemSize), rfl, rfl, rfl,
        ringFlags_ne_zero 0 depth itemSize, hne,
        Platform.le_posixipcKindSize (posixipcQueueBytesSize_le _ _ _) hpad⟩, ?_⟩
      simp only [queueSlots, List.forall_mem_cons]
      exact ⟨hmutex _, hmutex _, hcond _, hcond _, .of_bytes p _ _, by simp⟩
  | @futexQueue depth itemSize hd hi hne hpad =>
      refine ⟨rfl, rfl, ⟨(futexQueueSlots p depth itemSize 0).take 2,
        Slot.bytes p _ (ringFlags 0x46555121 depth itemSize), rfl, rfl, rfl,
        ringFlags_ne_zero 0x46555121 depth itemSize, hne,
        Platform.le_posixipcKindSize (posixipcFutexqBytesSize_le _ _ _) hpad⟩, ?_⟩
      simp only [futexQueueSlots, List.forall_mem_cons]
      exact ⟨hmutex _, hmutex _, .of_bytes p _ _, by simp⟩

/-- The mutex of a new Condition is a handle of the layout. -/
theorem SlotRequest.mutex {p : Platform} {l : LayoutObj} {h : LayoutHandle} {blk : List Slot}
    (hreq : SlotRequest p l h blk) {m : ℕ} (hm : h.type = .condition m) :
    ∃ g ∈ l.handles, g.slot = m ∧ (g.type = .mutex ∨ g.type = .robustMutex) := by
  cases hreq with
  | one hone =>
      cases hone with
      | condition hi =>
          obtain rfl : _ = m := HandleType.condition.inj hm
          unfold LayoutObj.mutexIndex at hi
          split at hi
          · rename_i g hg
            split_ifs at hi with ht
            exact ⟨g, List.mem_of_getElem? hg, Option.some.inj hi, ht⟩
          · simp at hi
      | _ => cases hm
  | _ => cases hm

/-- The invariant of the list with the new slots and their handle, before it is built. -/
theorem LayoutInv.append {p : Platform} {l : LayoutObj} {h : LayoutHandle} {blk : List Slot}
    (hinv : LayoutInv p l) (hreq : SlotRequest p l h blk)
    (hn : l.nslots + blk.length ≤ 0xffff) (cap : ℕ) :
    LayoutInv p
      { l with slots := l.slots ++ blk, cap := cap, handles := l.handles ++ [h] } := by
  have hserved := hreq.serves hinv
  refine ⟨?_, ?_, ?_, ?_⟩
  · rw [LayoutObj.nslots, List.length_append]
    exact hn
  · intro s hs
    rcases List.mem_append.mp hs with hs | hs
    · exact hinv.sound s hs
    · exact hserved.sound s hs
  · refine hinv.blocks.snoc ?_ hserved.length hserved.serves
    rw [hserved.slot, Nat.zero_add, LayoutObj.nslots]
  · intro g hg m hm
    have hmem : ∃ k ∈ l.handles, k.slot = m ∧ (k.type = .mutex ∨ k.type = .robustMutex) := by
      rcases List.mem_append.mp hg with hg | hg
      · exact hinv.mutexes g hg m hm
      · rw [List.mem_singleton.mp hg] at hm
        exact hreq.mutex hm
    obtain ⟨k, hk, hrest⟩ := hmem
    exact ⟨k, List.mem_append_left _ hk, hrest⟩

/-- One successful add keeps the invariant. -/
theorem LayoutInv.add {p : Platform} {l l' : LayoutObj} {h : LayoutHandle} {blk : List Slot}
    (hinv : LayoutInv p l) (happ : Appends p l h blk l') : LayoutInv p l' := by
  obtain ⟨hreq, hn, cap, hsync⟩ := happ
  exact (hinv.append hreq hn cap).sync hsync

/-- **Every layout that successful adds have built meets the invariant.** -/
theorem Added.inv {p : Platform} {l : LayoutObj} (h : Added p l) : LayoutInv p l := by
  induction h with
  | empty => exact ⟨by decide, by simp [LayoutObj.empty], .nil 0, by simp [LayoutObj.empty]⟩
  | step _ hadd ih =>
      obtain ⟨h, blk, -, happ⟩ := apply_ok hadd
      exact ih.add happ

/-! ## The use of a slot -/

/-- What a slot is used for. -/
inductive Role
  | queueRing
  | futexRing
  | blob
  | other
  deriving DecidableEq, Repr

/-- The use of a slot, from its record and the kind of the slot in front of it. -/
def roleOf (prev : ℕ) (s : Slot) : Role :=
  if s.kind ≠ kindBytes then .other
  else if s.initFlags = 0 then .blob
  else if prev = kindCond then .queueRing
  else .futexRing

/-- The use of every slot, from the directory. -/
def roles : ℕ → List Slot → List Role
  | _, [] => []
  | prev, s :: rest => roleOf prev s :: roles s.kind rest

/-- The uses of the slots of a handle. -/
def LayoutHandle.roles (h : LayoutHandle) : List Role :=
  match h.type with
  | .queue _ _ => [.other, .other, .other, .other, .queueRing]
  | .futexQueue _ _ => [.other, .other, .futexRing]
  | .sharedBytes => [.blob]
  | .mutexArray count => List.replicate count .other
  | _ => [.other]

/-- A handle has a role for each of its slots. -/
theorem LayoutHandle.length_roles (h : LayoutHandle) : h.roles.length = h.count := by
  unfold LayoutHandle.roles LayoutHandle.count
  cases h.type <;> simp [queueSlotCount, futexQueueSlotCount]

/-- The kind of the last slot, or of the one in front. -/
def lastKind (prev : ℕ) (slots : List Slot) : ℕ := (slots.map Slot.kind).foldl (fun _ k => k) prev

/-- The roles of a list are read from left to right. -/
theorem roles_append (prev : ℕ) (xs ys : List Slot) :
    roles prev (xs ++ ys) = roles prev xs ++ roles (lastKind prev xs) ys := by
  induction xs generalizing prev with
  | nil => rfl
  | cons x xs ih =>
      rw [List.cons_append, roles, roles, ih, List.cons_append]
      rfl

/-- Without bytes there is no ring and no blob. -/
theorem roles_other {xs : List Slot} (h : ∀ s ∈ xs, s.kind ≠ kindBytes) (prev : ℕ) :
    roles prev xs = List.replicate xs.length .other := by
  induction xs generalizing prev with
  | nil => rfl
  | cons x xs ih =>
      rw [roles, ih (fun s hs => h s (List.mem_cons_of_mem x hs)), roleOf,
        if_pos (h x List.mem_cons_self), List.length_cons, List.replicate_succ]

/-- The slots of a queue: the kind in front of the ring tells which queue it is. -/
theorem RingBlock.roles {kinds : List ℕ} {need : ℕ} {blk : List Slot}
    (h : RingBlock kinds need blk) (hk : kindBytes ∉ kinds) (prev : ℕ) :
    PosixIpc.roles prev blk = List.replicate kinds.length .other ++
      [if kinds.foldl (fun _ k => k) prev = kindCond then .queueRing else .futexRing] := by
  obtain ⟨front, ring, rfl, hfront, hkind, hflags, -, -⟩ := h
  have hother : ∀ s ∈ front, s.kind ≠ kindBytes := by
    intro s hs heq
    refine hk ?_
    rw [← hfront, ← heq]
    exact List.mem_map_of_mem hs
  have hlen : front.length = kinds.length := by rw [← hfront, List.length_map]
  rw [roles_append, roles_other hother, hlen, lastKind, hfront]
  congr 1
  rw [PosixIpc.roles, roleOf, if_neg (not_not.mpr hkind), if_neg hflags]
  rfl

/-- **The kinds of a block tell the roles of its handle.** -/
theorem LayoutHandle.Serves.roles {p : Platform} {h : LayoutHandle} {blk : List Slot}
    (hs : h.Serves p blk) (prev : ℕ) : PosixIpc.roles prev blk = h.roles := by
  unfold LayoutHandle.Serves at hs
  unfold LayoutHandle.roles
  cases htype : h.type with
  | mutexArray count =>
      rw [htype] at hs
      obtain ⟨hlen, hrec, hall⟩ := hs
      rw [roles_other (fun s hs => ?_), hlen]
      rw [hall s hs]
      rcases hrec with h | h <;> rw [h] <;> decide
  | queue depth itemSize =>
      rw [htype] at hs
      exact RingBlock.roles hs (by decide) prev
  | futexQueue depth itemSize =>
      rw [htype] at hs
      exact RingBlock.roles hs (by decide) prev
  | sharedBytes =>
      rw [htype] at hs
      obtain ⟨s, rfl, hkind, -, hflags⟩ := hs
      simp [PosixIpc.roles, roleOf, hflags hkind, hkind, HandleType.slotKind]
  | _ =>
      rw [htype] at hs
      obtain ⟨s, rfl, hkind, -, -⟩ := hs
      have hne : s.kind ≠ kindBytes := by
        rw [hkind]
        simp only [HandleType.slotKind]
        decide
      rw [PosixIpc.roles, PosixIpc.roles, roleOf, if_pos hne]

/-- **The directory gives the uses of the slots.** -/
theorem Blocks.roles {p : Platform} {start : ℕ} {hs : List LayoutHandle} {slots : List Slot}
    (hb : Blocks p start hs slots) (prev : ℕ) :
    PosixIpc.roles prev slots = hs.flatMap LayoutHandle.roles := by
  induction hb generalizing prev with
  | nil start => rfl
  | cons _ _ hserves _ ih => rw [roles_append, hserves.roles, ih, List.flatMap_cons]

/-- The use at an index belongs to one handle. -/
theorem Blocks.role_iff {p : Platform} {start : ℕ} {hs : List LayoutHandle} {slots : List Slot}
    (hb : Blocks p start hs slots) (r : Role) (i : ℕ) :
    (hs.flatMap LayoutHandle.roles)[i]? = some r ↔
      ∃ h ∈ hs, ∃ j, h.roles[j]? = some r ∧ start + i = h.slot + j := by
  induction hb generalizing i with
  | nil start => simp
  | @cons start h hs blk rest hslot hlen hserves hrest ih =>
      have hroles := h.length_roles
      rw [List.flatMap_cons]
      by_cases hi : i < h.roles.length
      · rw [List.getElem?_append_left hi]
        constructor
        · exact fun hr => ⟨h, List.mem_cons_self, i, hr, by omega⟩
        · rintro ⟨g, hg, j, hr, hij⟩
          rcases List.mem_cons.mp hg with rfl | hg
          · rwa [show i = j by omega]
          · -- a later handle starts behind this block
            obtain ⟨pre, -, -, -, hpos, -, -⟩ := hrest.mem hg
            omega
      · rw [List.getElem?_append_right (by omega), ih]
        constructor
        · rintro ⟨g, hg, j, hr, hij⟩
          exact ⟨g, List.mem_cons_of_mem h hg, j, hr, by omega⟩
        · rintro ⟨g, hg, j, hr, hij⟩
          rcases List.mem_cons.mp hg with rfl | hg
          · have : j < g.roles.length := (List.getElem?_eq_some_iff.mp hr).1
            omega
          · exact ⟨g, hg, j, hr, by omega⟩

namespace LayoutObj

/-- Slot `i` is the ring storage of a Queue. -/
def QueueRing (l : LayoutObj) (i : ℕ) : Prop :=
  ∃ h ∈ l.handles, ∃ depth itemSize, h.type = .queue depth itemSize ∧ i = h.slot + 4

/-- Slot `i` is the ring storage of a FutexQueue. -/
def FutexRing (l : LayoutObj) (i : ℕ) : Prop :=
  ∃ h ∈ l.handles, ∃ depth itemSize, h.type = .futexQueue depth itemSize ∧ i = h.slot + 2

/-- Slot `i` is a plain `add_bytes` blob. -/
def Blob (l : LayoutObj) (i : ℕ) : Prop := ∃ h ∈ l.handles, h.type = .sharedBytes ∧ i = h.slot

end LayoutObj

/-- The fifth slot of a `Queue` is its ring. -/
theorem LayoutHandle.roles_queueRing {h : LayoutHandle} {j : ℕ} :
    h.roles[j]? = some .queueRing ↔ (∃ d n, h.type = .queue d n) ∧ j = 4 := by
  unfold LayoutHandle.roles
  cases h.type with
  | queue d n => rcases j with _ | _ | _ | _ | _ | j <;> simp
  | futexQueue d n => rcases j with _ | _ | _ | j <;> simp
  | mutexArray count => simp [List.getElem?_replicate]
  | _ => rcases j with _ | j <;> simp

/-- The third slot of a `FutexQueue` is its ring. -/
theorem LayoutHandle.roles_futexRing {h : LayoutHandle} {j : ℕ} :
    h.roles[j]? = some .futexRing ↔ (∃ d n, h.type = .futexQueue d n) ∧ j = 2 := by
  unfold LayoutHandle.roles
  cases h.type with
  | queue d n => rcases j with _ | _ | _ | _ | _ | j <;> simp
  | futexQueue d n => rcases j with _ | _ | _ | j <;> simp
  | mutexArray count => simp [List.getElem?_replicate]
  | _ => rcases j with _ | j <;> simp

/-- The slot of a `SharedBytes` is its blob. -/
theorem LayoutHandle.roles_blob {h : LayoutHandle} {j : ℕ} :
    h.roles[j]? = some .blob ↔ h.type = .sharedBytes ∧ j = 0 := by
  unfold LayoutHandle.roles
  cases h.type with
  | queue d n => rcases j with _ | _ | _ | _ | _ | j <;> simp
  | futexQueue d n => rcases j with _ | _ | _ | j <;> simp
  | mutexArray count => simp [List.getElem?_replicate]
  | _ => rcases j with _ | j <;> simp

section Roles

variable {p : Platform} {l : LayoutObj} (hinv : LayoutInv p l) (i : ℕ)

include hinv

/-- The rings of the `Queue`s, from the directory. -/
theorem LayoutInv.queueRing_iff : l.QueueRing i ↔ (roles 0 l.slots)[i]? = some .queueRing := by
  rw [hinv.blocks.roles, hinv.blocks.role_iff]
  constructor
  · rintro ⟨h, hh, d, n, ht, rfl⟩
    exact ⟨h, hh, 4, LayoutHandle.roles_queueRing.mpr ⟨⟨d, n, ht⟩, rfl⟩, by omega⟩
  · rintro ⟨h, hh, j, hr, hi⟩
    obtain ⟨⟨d, n, ht⟩, rfl⟩ := LayoutHandle.roles_queueRing.mp hr
    exact ⟨h, hh, d, n, ht, by omega⟩

/-- The rings of the `FutexQueue`s, from the directory. -/
theorem LayoutInv.futexRing_iff : l.FutexRing i ↔ (roles 0 l.slots)[i]? = some .futexRing := by
  rw [hinv.blocks.roles, hinv.blocks.role_iff]
  constructor
  · rintro ⟨h, hh, d, n, ht, rfl⟩
    exact ⟨h, hh, 2, LayoutHandle.roles_futexRing.mpr ⟨⟨d, n, ht⟩, rfl⟩, by omega⟩
  · rintro ⟨h, hh, j, hr, hi⟩
    obtain ⟨⟨d, n, ht⟩, rfl⟩ := LayoutHandle.roles_futexRing.mp hr
    exact ⟨h, hh, d, n, ht, by omega⟩

/-- The blobs, from the directory. -/
theorem LayoutInv.blob_iff : l.Blob i ↔ (roles 0 l.slots)[i]? = some .blob := by
  rw [hinv.blocks.roles, hinv.blocks.role_iff]
  constructor
  · rintro ⟨h, hh, ht, rfl⟩
    exact ⟨h, hh, 0, LayoutHandle.roles_blob.mpr ⟨ht, rfl⟩, by omega⟩
  · rintro ⟨h, hh, j, hr, hi⟩
    obtain ⟨ht, rfl⟩ := LayoutHandle.roles_blob.mp hr
    exact ⟨h, hh, ht, by omega⟩

end Roles

end PosixIpc
