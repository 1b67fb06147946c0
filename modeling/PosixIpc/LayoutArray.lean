/-
# An array of locks is so many locks (`layout_add_array`)

`add_array(kind, n)` copies one slot `n` times and builds once, `n` calls of `add(kind)` build
`n` times.  Both ask for the same slots, so that one build of the slots that were asked for gives
what both leave (`AddRun.built`).

* `Adds` : a list of calls that all succeed;
* `AddOp.shift` : the calls after the array, as the program with `n` handles in place of one makes
  them: a Condition names its mutex handle by its position;
* `Twins` : the two layouts, from the array on;
* `array_eq_single_adds` : the same slots, the same digest, and the same bytes for each lock.
-/
import PosixIpc.LayoutRuns

namespace PosixIpc

open TracedCall Word32

/-! ## Lists of calls -/

/-- The calls all succeed. -/
inductive Adds (p : Platform) : LayoutObj → List AddOp → LayoutObj → Prop
  | nil (l : LayoutObj) : Adds p l [] l
  | cons {l l₁ l' : LayoutObj} {op : AddOp} {ops : List AddOp} {fault : AllocFault} :
      l.apply p op fault = (l₁, .ok ()) → Adds p l₁ ops l' → Adds p l (op :: ops) l'

theorem Adds.append {p : Platform} {l l' : LayoutObj} {ops ops' : List AddOp}
    (h : Adds p l (ops ++ ops') l') : ∃ l₁, Adds p l ops l₁ ∧ Adds p l₁ ops' l' := by
  induction ops generalizing l with
  | nil => exact ⟨l, .nil l, h⟩
  | cons op ops ih =>
    cases h with
    | cons hadd hrest =>
      obtain ⟨l₁, h1, h2⟩ := ih hrest
      exact ⟨l₁, .cons hadd h1, h2⟩

/-- The mutex handle at another position: `n` handles stand in the place of handle `k`. -/
def MutexRef.shift (k n : ℕ) : MutexRef → MutexRef
  | .handle i => .handle (if i ≤ k then i else i + (n - 1))
  | .foreign isMutex => .foreign isMutex

/-- The call, with the positions of the handles after the array moved. -/
def AddOp.shift (k n : ℕ) : AddOp → AddOp
  | .add a => .add { a with mutex := a.mutex.map (MutexRef.shift k n) }
  | op => op

/-! ## The classes and the slots of the handles -/

/-- What the rebuilds keep of the handles. -/
def LayoutObj.keys (l : LayoutObj) : List (HandleType × ℕ) :=
  l.handles.map fun g => (g.type, g.slot)

/-- The mutex handle at a position, from the keys. -/
def keyIndex (keys : List (HandleType × ℕ)) (i : ℕ) : Option ℕ :=
  match keys[i]? with
  | some key => if key.1 = .mutex ∨ key.1 = .robustMutex then some key.2 else none
  | none => none

theorem mutexIndex_eq (l : LayoutObj) (i : ℕ) : l.mutexIndex i = keyIndex l.keys i := by
  unfold LayoutObj.mutexIndex keyIndex LayoutObj.keys
  rw [List.getElem?_map]
  cases l.handles[i]? <;> rfl

/-- What a successful call appends. -/
theorem Appends.keys {p : Platform} {l l' : LayoutObj} {g : LayoutHandle} {blk : List Slot}
    (h : Appends p l g blk l') (hinv : LayoutInv p l) :
    l'.keys = l.keys ++ [(g.type, l.nslots)] ∧ l'.nslots = l.nslots + blk.length ∧
      l'.sealed = l.sealed := by
  obtain ⟨cap, hsync⟩ := h.sync
  obtain ⟨e, hbuild, hhandles, hsealed⟩ := layoutSync_ok hsync
  have hlen := (kept_buildSlots (posixipcLayoutBuild_ok
    (by rw [List.length_append]; exact h.count) hbuild).1).length_eq
  refine ⟨?_, ?_, hsealed⟩
  · unfold LayoutObj.keys
    rw [hhandles, List.map_map, List.map_append]
    have hkey : (fun g : LayoutHandle => (g.type, g.slot)) ∘
        (fun g : LayoutHandle => g.applySlotMeta (l'.slots.getD g.slot default))
          = fun g : LayoutHandle => (g.type, g.slot) := by
      funext k
      simp
    rw [hkey, List.map_singleton, (h.request.serves hinv).slot]
  · rw [LayoutObj.nslots, ← hlen, List.length_append]
    rfl

/-! ## The two ways -/

/-- What one lock of a class asks for. -/
structure LockSlot (a : AddArgs) (type : HandleType) (code flags : ℕ) : Prop where
  one : ∀ (p : Platform) (l : LayoutObj),
    (AddOp.add a).request p l = some (l.oneRequest p type code flags)
  many : ∀ (p : Platform) (l : LayoutObj) (n : ℕ),
    (AddOp.addArray a.kind n a.onOwnerDied a.prioInherit a.processShared).request p l
      = some (LayoutHandle.newUnbound p (.mutexArray n) code flags l.nslots,
        List.replicate n (Slot.fresh code flags))
  isMutex : type = .mutex ∨ type = .robustMutex
  isKind : code = kindMutex ∨ code = kindRobustMutex

theorem lockSlot {a : AddArgs} (ha : a.kind = .mutex ∨ a.kind = .robustMutex) :
    ∃ type code flags, LockSlot a type code flags := by
  rcases ha with ha | ha
  · refine ⟨.mutex, kindMutex, mutexInitFlags false a.prioInherit, fun p l => ?_,
      fun p l n => ?_, Or.inl rfl, Or.inl rfl⟩
    · simp only [AddOp.request, AddArgs.request, ha]
    · simp [AddOp.request, ha]
  · refine ⟨.robustMutex, kindRobustMutex, mutexInitFlags true a.prioInherit, fun p l => ?_,
      fun p l n => ?_, Or.inr rfl, Or.inr rfl⟩
    · simp only [AddOp.request, AddArgs.request, ha]
    · simp [AddOp.request, ha]

section Ways

variable {p : Platform} {l l' : LayoutObj} {req : List Slot} {a : AddArgs} {type : HandleType}
  {code flags n : ℕ}

/-- **`n` single adds**: their slots, and their handles one after the other. -/
theorem AddRun.single_adds (hlock : LockSlot a type code flags) (n : ℕ) (hrun : AddRun p l req)
    (h : Adds p l (List.replicate n (.add a)) l') :
    AddRun p l' (req ++ List.replicate n (Slot.fresh code flags)) ∧
      l'.keys = l.keys ++ (List.range n).map (fun i => (type, l.nslots + i)) := by
  induction n generalizing l req with
  | zero =>
    cases h
    refine ⟨?_, ?_⟩
    · rw [List.replicate_zero, List.append_nil]
      exact hrun
    · rw [List.range_zero, List.map_nil, List.append_nil]
  | succ n ih =>
    rw [List.replicate_succ] at h
    cases h with
    | cons hadd hrest =>
      obtain ⟨g, blk, hreq, happ⟩ := apply_ok hadd
      rw [hlock.one p l] at hreq
      obtain ⟨rfl, rfl⟩ := Prod.mk.inj (Option.some.inj hreq)
      obtain ⟨hkeys, hslots, -⟩ := happ.keys hrun.added.inv
      obtain ⟨hrun', hkeys'⟩ := ih (hrun.step (hlock.one p l) hadd) hrest
      refine ⟨?_, ?_⟩
      · rw [List.append_assoc] at hrun'
        rw [List.replicate_succ]
        exact hrun'
      · rw [hkeys', hkeys, hslots, List.range_succ_eq_map, List.map_cons, List.map_map,
          List.append_assoc]
        have hshift : (fun i => (type, l.nslots + i)) ∘ Nat.succ
            = fun i => (type, l.nslots + 1 + i) := by
          funext i
          simp only [Function.comp_apply, Prod.mk.injEq, true_and]
          omega
        rw [hshift]
        rfl

/-- **One array**: the same slots, and one handle. -/
theorem AddRun.array (hlock : LockSlot a type code flags) (hrun : AddRun p l req)
    {fault : AllocFault}
    (h : l.apply p (.addArray a.kind n a.onOwnerDied a.prioInherit a.processShared) fault
      = (l', .ok ())) :
    AddRun p l' (req ++ List.replicate n (Slot.fresh code flags)) ∧
      l'.keys = l.keys ++ [(.mutexArray n, l.nslots)] := by
  obtain ⟨g, blk, hreq, happ⟩ := apply_ok h
  rw [hlock.many p l n] at hreq
  obtain ⟨rfl, rfl⟩ := Prod.mk.inj (Option.some.inj hreq)
  exact ⟨hrun.step (hlock.many p l n) h, (happ.keys hrun.added.inv).1⟩

end Ways

/-! ## The calls after the array -/

/-- **The layout with the array and the one with `n` locks**, after the same further calls: they
were asked for the same slots, and the handles after the array have moved. -/
structure Twins (p : Platform) (k n : ℕ) (la ls : LayoutObj) : Prop where
  asked : ∃ req, AddRun p la req ∧ AddRun p ls req
  keys : ∃ front back type first, (type = .mutex ∨ type = .robustMutex) ∧ front.length = k ∧
    la.keys = front ++ (.mutexArray n, first) :: back ∧
    ls.keys = front ++ (List.range n).map (fun i => (type, first + i)) ++ back

section Twins

variable {p : Platform} {k n : ℕ} {la ls la' ls' : LayoutObj} {op : AddOp}

theorem Twins.slots (h : Twins p k n la ls) : la.slots = ls.slots := by
  obtain ⟨req, hla, hls⟩ := h.asked
  obtain ⟨e, hbuilt⟩ := hla.built
  obtain ⟨e', hbuilt'⟩ := hls.built
  rw [hbuilt] at hbuilt'
  exact congrArg Prod.fst hbuilt'

/-- A mutex handle of the one is a mutex handle of the other. -/
theorem Twins.mutexIndex (h : Twins p k n la ls) (hn : 1 ≤ n) {i index : ℕ}
    (hi : la.mutexIndex i = some index) :
    ls.mutexIndex (if i ≤ k then i else i + (n - 1)) = some index := by
  obtain ⟨front, back, type, first, -, hk, hla, hls⟩ := h.keys
  rw [mutexIndex_eq] at hi ⊢
  have hkey : la.keys[i]? = ls.keys[if i ≤ k then i else i + (n - 1)]? := by
    rw [hla, hls]
    rcases lt_trichotomy i k with hlt | heq | hgt
    · rw [if_pos hlt.le, List.getElem?_append_left (by omega), List.append_assoc,
        List.getElem?_append_left (by omega)]
    · -- the array itself is no mutex
      have harr : la.keys[i]? = some (.mutexArray n, first) := by
        rw [hla, heq, ← hk, List.getElem?_append_right le_rfl, Nat.sub_self]
        rfl
      unfold keyIndex at hi
      rw [harr] at hi
      simp at hi
    · rw [if_neg (by omega), List.getElem?_append_right (by omega),
        List.getElem?_append_right (by
          rw [List.length_append, List.length_map, List.length_range]; omega),
        List.length_append, List.length_map, List.length_range,
        show i - front.length = (i - front.length - 1) + 1 by omega, List.getElem?_cons_succ]
      congr 1
      omega
  unfold keyIndex at hi ⊢
  rw [← hkey]
  exact hi

/-- The moved call asks for the same. -/
theorem Twins.request (h : Twins p k n la ls) (hn : 1 ≤ n) {x : LayoutHandle × List Slot}
    (hreq : op.request p la = some x) : (op.shift k n).request p ls = some x := by
  have hslots : ls.nslots = la.nslots := congrArg List.length h.slots.symm
  have hone : ∀ type kind flags, ls.oneRequest p type kind flags
      = la.oneRequest p type kind flags := by
    intro type kind flags
    unfold LayoutObj.oneRequest
    rw [hslots]
  cases op with
  | add a =>
    simp only [AddOp.shift, AddOp.request, AddArgs.request, hslots, hone] at hreq ⊢
    cases hkind : a.kind with
    | condition =>
      rw [hkind] at hreq
      simp only at hreq ⊢
      cases hm : a.mutex with
      | none =>
        rw [hm] at hreq
        cases hreq
      | some m =>
        rw [hm] at hreq
        cases m with
        | foreign b => cases hreq
        | handle i =>
          obtain ⟨index, hi, hx⟩ := Option.map_eq_some_iff.mp hreq
          simp only [Option.map_some, MutexRef.shift, h.mutexIndex hn hi, hx]
    | _ =>
      rw [hkind] at hreq
      exact hreq
  | addBytes size =>
    simp only [AddOp.shift, AddOp.request, hslots] at hreq ⊢
    exact hreq
  | addArray kind count died prio shared =>
    simp only [AddOp.shift, AddOp.request, hslots] at hreq ⊢
    exact hreq

/-- **A further call on both.** -/
theorem Twins.step (h : Twins p k n la ls) (hn : 1 ≤ n) {f f' : AllocFault}
    (ha : la.apply p op f = (la', .ok ()))
    (hs : ls.apply p (op.shift k n) f' = (ls', .ok ())) : Twins p k n la' ls' := by
  obtain ⟨req, hla, hls⟩ := h.asked
  have hslots : ls.nslots = la.nslots := congrArg List.length h.slots.symm
  obtain ⟨g, blk, hreq, happ⟩ := apply_ok ha
  obtain ⟨g', blk', hreq', happ'⟩ := apply_ok hs
  have htwin := h.request hn hreq
  obtain ⟨rfl, rfl⟩ := Prod.mk.inj (Option.some.inj (hreq'.symm.trans htwin))
  refine ⟨⟨req ++ blk', hla.step hreq ha, hls.step htwin hs⟩, ?_⟩
  obtain ⟨front, back, type, first, htype, hk, hkeys, hkeys'⟩ := h.keys
  refine ⟨front, back ++ [(g'.type, la.nslots)], type, first, htype, hk, ?_, ?_⟩
  · rw [(happ.keys hla.added.inv).1, hkeys, List.append_assoc, List.cons_append]
  · rw [(happ'.keys hls.added.inv).1, hkeys', hslots, List.append_assoc]

/-- **All further calls.** -/
theorem Twins.adds (h : Twins p k n la ls) (hn : 1 ≤ n) (ops : List AddOp) (ha : Adds p la ops la')
    (hs : Adds p ls (ops.map (AddOp.shift k n)) ls') : Twins p k n la' ls' := by
  induction ops generalizing la ls with
  | nil =>
    cases ha
    cases hs
    exact h
  | cons op ops ih =>
    cases ha with
    | cons ha1 ha2 =>
      cases hs with
      | cons hs1 hs2 => exact ih (h.step hn ha1 hs1) ha2 hs2

end Twins

/-- Both ways, up to the array. -/
theorem twins_of_array {p : Platform} {l la ls : LayoutObj} {a : AddArgs} {n : ℕ}
    {fault : AllocFault} (hl : Added p l) (ha : a.kind = .mutex ∨ a.kind = .robustMutex)
    (harr : l.apply p (.addArray a.kind n a.onOwnerDied a.prioInherit a.processShared) fault
      = (la, .ok ()))
    (hone : Adds p l (List.replicate n (.add a)) ls) : Twins p l.handles.length n la ls := by
  obtain ⟨type, code, flags, hlock⟩ := lockSlot ha
  obtain ⟨req, hrun⟩ := hl.run
  obtain ⟨hla, hkeys⟩ := hrun.array hlock harr
  obtain ⟨hls, hkeys'⟩ := hrun.single_adds hlock n hone
  exact ⟨⟨_, hla, hls⟩, l.keys, [], type, l.nslots, hlock.isMutex, List.length_map _, hkeys,
    by rw [hkeys', List.append_nil]⟩

/-! ## The bytes of the locks -/

section Bytes

open Call

variable {p : Platform} {m : SegMem} {r : ℕ} {slots : List Slot}

/-- The binding of one of the handles. -/
theorem layoutBindAll_at {faults : ℕ → BindFaults} {i pins pins' : ℕ} {objs objs' : List HandleObj}
    (h : layoutBindAll p r faults m slots i objs pins = (objs', pins', .ok ())) {j : ℕ}
    {o : HandleObj} (hj : objs[j]? = some o) :
    ∃ f q st', Returns (bindObj p m r f (ownRecord slots)) ⟨o, q⟩ st' () ∧
      objs'[j]? = some st'.obj := by
  induction objs generalizing i pins objs' j with
  | nil => simp at hj
  | cons x rest ih =>
    rcases returns_or_raises (bindObj p m r (faults i) (ownRecord slots)) ⟨x, pins⟩ with
      ⟨st', u, hret⟩ | ⟨st', e, hraise⟩
    · rw [layoutBindAll_returns hret] at h
      obtain ⟨hobjs, hrest⟩ := Prod.mk.inj h
      rw [← hobjs]
      cases j with
      | zero =>
        obtain rfl := Option.some.inj hj
        exact ⟨_, _, st', hret, rfl⟩
      | succ j => exact ih (Prod.ext rfl hrest) hj
    · rw [layoutBindAll_raises hraise] at h
      exact absurd (congrArg (fun y => y.2.2) h) (by simp)

/-- The locks of a bound array. -/
theorem bindObj_array {g : LayoutHandle} {n q : ℕ} {f : BindFaults} {st' : BindState}
    (htype : g.type = .mutexArray n) (hfit : g.slot + n ≤ 0xffff)
    (h : Returns (bindObj p m r f (ownRecord slots)) ⟨HandleObj.unbound p g, q⟩ st' ()) {i : ℕ}
    (hi : i < n) : st'.obj.ptrs i = some ((slots.getD (g.slot + i) default).ptr r) := by
  have hsrc := source_ownRecord slots
  unfold bindObj at h
  rw [(look_returns _).bind_iff,
    show (HandleObj.unbound p g).handle.type = .mutexArray n from htype] at h
  by_cases hbad : n = 0 ∨ (HandleObj.unbound p g).handle.type ≠ .mutexArray n ∨
      f.calloc = true ∨ ¬ ArrayFits m (fun i => slots.getD i default)
        (HandleObj.unbound p g).handle.record.kind (HandleObj.unbound p g).handle.slot 0 n ∨
      f.pin = true
  · -- none of these binds
    obtain ⟨e, he⟩ : ∃ e, Raises (posixipcMutexarrayBind m r f (ownRecord slots)
        (HandleObj.unbound p g).handle.slot n) ⟨HandleObj.unbound p g, q⟩
        ⟨HandleObj.unbound p g, q⟩ e := mutexarrayBind_raises hsrc hbad
    exact (h.not_raises he).elim
  · simp only [not_or, not_not, Bool.not_eq_true] at hbad
    obtain ⟨hcount, ht, hcalloc, hfits, hpin⟩ := hbad
    obtain ⟨rfl, -⟩ := (mutexarrayBind_returns hsrc ht hcount hfits hcalloc hpin).unique h
    show (arrayPtrs r (fun i => slots.getD i default) g.slot 0 n)[i]? = _
    unfold arrayPtrs
    rw [List.getElem?_map, List.getElem?_range hi, Option.map_some, Nat.zero_add,
      u32_of_lt (by omega)]

/-- The pointer of a bound mutex. -/
theorem bindObj_mutex {g : LayoutHandle} {q : ℕ} {f : BindFaults} {st' : BindState}
    (htype : g.type = .mutex ∨ g.type = .robustMutex)
    (h : Returns (bindObj p m r f (ownRecord slots)) ⟨HandleObj.unbound p g, q⟩ st' ()) :
    st'.obj.ptrs 0 = some ((slots.getD g.slot default).ptr r) := by
  have hsrc := source_ownRecord slots
  have hbind : Returns (bindSlot m r f (ownRecord slots) true (fun _ type => type) g.slot)
      ⟨HandleObj.unbound p g, q⟩ st' () := by
    unfold bindObj at h
    rw [(look_returns _).bind_iff] at h
    rcases htype with htype | htype
    · rw [show (HandleObj.unbound p g).handle.type = .mutex from htype] at h
      exact h
    · rw [show (HandleObj.unbound p g).handle.type = .robustMutex from htype] at h
      exact h
  by_cases hbad : ¬ (slots.getD g.slot default).Fits m ∨ f.pin = true
  · obtain ⟨e, he⟩ : ∃ e, Raises (bindSlot m r f (ownRecord slots) true (fun _ type => type) g.slot)
        ⟨HandleObj.unbound p g, q⟩ ⟨HandleObj.unbound p g, q⟩ e := bindSlot_raises hsrc hbad
    exact (hbind.not_raises he).elim
  · simp only [not_or, not_not, Bool.not_eq_true] at hbad
    obtain ⟨rfl, -⟩ := (bindSlot_returns hsrc hbad.1 hbad.2).unique hbind
    show Function.update (HandleObj.unbound p g).ptrs 0 (some _) 0 = _
    rw [Function.update_self]

/-- The objects of a layout that was created or attached. -/
theorem Added.opened_at {l : LayoutObj} (h : Added p l) {faults : ℕ → BindFaults}
    {segment : Expect → Option (Except PyError SegMem)} {x : OpenEnd}
    (hx : layoutOpen p r faults segment (l.inst p) = some x) (hok : x.result = .ok ()) {j : ℕ}
    {g : LayoutHandle} (hj : l.handles[j]? = some g) :
    ∃ m f q st', Returns (bindObj p m r f (ownRecord l.slots)) ⟨HandleObj.unbound p g, q⟩ st' () ∧
      x.inst.objs[j]? = some st'.obj := by
  have hobj : (l.inst p).objs[j]? = some (HandleObj.unbound p g) := by
    unfold LayoutObj.inst
    rw [List.getElem?_map, hj]
    rfl
  rcases layoutOpen_cases hx with ⟨err, rfl, -⟩ | ⟨m, -, hbind⟩
  · exact nomatch hok
  · rw [h.sync_inst] at hbind
    rcases hbind with ⟨objs, pins, err, -, rfl⟩ | ⟨objs, pins, heq, rfl⟩
    · exact nomatch hok
    · obtain ⟨f, q, st', hret, hobjs⟩ := layoutBindAll_at heq hobj
      exact ⟨m, f, q, st', hret, hobjs⟩

/-- **Lock `i` of the array has the bytes of the `i`-th lock.** -/
theorem Twins.bytes {k n : ℕ} {la ls : LayoutObj} (h : Twins p k n la ls)
    {faults faults' : ℕ → BindFaults} {segment segment' : Expect → Option (Except PyError SegMem)}
    {xa xs : OpenEnd} (hxa : layoutOpen p r faults segment (la.inst p) = some xa)
    (hoka : xa.result = .ok ()) (hxs : layoutOpen p r faults' segment' (ls.inst p) = some xs)
    (hoks : xs.result = .ok ()) {i : ℕ} (hi : i < n) :
    ∃ oa os bytes, xa.inst.objs[k]? = some oa ∧ xs.inst.objs[k + i]? = some os ∧
      oa.ptrs i = some bytes ∧ os.ptrs 0 = some bytes := by
  obtain ⟨req, hla, hls⟩ := h.asked
  obtain ⟨front, back, type, first, htype, hk, hkeys, hkeys'⟩ := h.keys
  -- the two handles
  have harr : la.keys[k]? = some (.mutexArray n, first) := by
    rw [hkeys, ← hk, List.getElem?_append_right le_rfl, Nat.sub_self]
    rfl
  have hone : ls.keys[k + i]? = some (type, first + i) := by
    rw [hkeys', List.append_assoc, List.getElem?_append_right (by omega),
      List.getElem?_append_left (by rw [List.length_map, List.length_range]; omega),
      List.getElem?_map, List.getElem?_range (by omega), Option.map_some, hk,
      Nat.add_sub_cancel_left]
  unfold LayoutObj.keys at harr hone
  rw [List.getElem?_map] at harr hone
  obtain ⟨ga, hga, hgakey⟩ := Option.map_eq_some_iff.mp harr
  obtain ⟨gs, hgs, hgskey⟩ := Option.map_eq_some_iff.mp hone
  obtain ⟨hgatype, hgaslot⟩ := Prod.mk.inj hgakey
  obtain ⟨hgstype, hgsslot⟩ := Prod.mk.inj hgskey
  -- the slots of the array are slots of the layout
  have hfit : ga.slot + n ≤ 0xffff := by
    have hinv := hla.added.inv
    obtain ⟨pre, blk, post, hslots, hslot, hlen, -⟩ := hinv.blocks.mem (List.mem_of_getElem? hga)
    have hcount : ga.count = n := by
      unfold LayoutHandle.count
      rw [hgatype]
    have hle := hinv.count
    rw [LayoutObj.nslots, hslots, List.length_append, List.length_append] at hle
    omega
  obtain ⟨_, _, _, sta, hreta, hobja⟩ := hla.added.opened_at hxa hoka hga
  obtain ⟨_, _, _, sts, hrets, hobjs⟩ := hls.added.opened_at hxs hoks hgs
  refine ⟨sta.obj, sts.obj, _, hobja, hobjs, bindObj_array hgatype hfit hreta hi, ?_⟩
  rw [bindObj_mutex (by rw [hgstype]; exact htype) hrets, hgsslot, hgaslot, h.slots]

end Bytes

/-! ## The array succeeds -/

section Succeeds

variable {p : Platform} {l l' ls : LayoutObj} {a : AddArgs} {fault : AllocFault} {n : ℕ}

/-- What the checks of `add` have found. -/
theorem layoutAdd_checks (ha : a.kind = .mutex ∨ a.kind = .robustMutex)
    (h : l.apply p (.add a) fault = (l', .ok ())) :
    l.sealed = false ∧ a.processShared = true ∧
      (a.kind = .mutex ∧ a.onOwnerDied = .absent ∨
        a.kind = .robustMutex ∧ a.onOwnerDied = .callable) := by
  unfold LayoutObj.apply layoutAdd at h
  obtain ⟨hsealed, h⟩ := of_raise h
  obtain ⟨hshared, h⟩ := of_raise h
  refine ⟨by simpa using hsealed, by simpa using hshared, ?_⟩
  rcases ha with ha | ha
  · simp only [ha, reduceCtorEq, if_false] at h
    cases hens : layoutEnsure l (l.nslots + 1) fault with
    | error e =>
      rw [hens] at h
      exact (raise_ne h).elim
    | ok l₁ =>
      rw [hens] at h
      unfold layoutAddSlot at h
      simp only [ha] at h
      exact Or.inl ⟨ha, not_not.mp (of_raise h).1⟩
  · simp only [ha, reduceCtorEq, if_false] at h
    cases hens : layoutEnsure l (l.nslots + 1) fault with
    | error e =>
      rw [hens] at h
      exact (raise_ne h).elim
    | ok l₁ =>
      rw [hens] at h
      unfold layoutAddSlot at h
      simp only [ha] at h
      cases hd : a.onOwnerDied with
      | callable => exact Or.inr ⟨ha, rfl⟩
      | absent =>
        rw [hd] at h
        exact (raise_ne h).elim
      | notCallable =>
        rw [hd] at h
        exact (raise_ne h).elim

/-- The slots of the array can be built behind those of the layout. -/
theorem commit_array (hl : Added p l) {code flags : ℕ}
    (hcode : code = kindMutex ∨ code = kindRobustMutex) (hn : n ≠ 0) {req : List Slot}
    (hrun : AddRun p l req) (hls : AddRun p ls (req ++ List.replicate n (Slot.fresh code flags)))
    {l₁ : LayoutObj} (hens : layoutEnsure l (l.nslots + n) .none = .ok l₁) :
    ∃ la, commitSlots p l₁ (LayoutHandle.newUnbound p (.mutexArray n) code flags l.nslots)
      (List.replicate n (Slot.fresh code flags)) .none = (la, .ok ()) := by
  obtain ⟨e₀, hbuilt₀⟩ := hrun.built
  obtain ⟨e, hbuilt⟩ := hls.built
  obtain ⟨hlen, hsound⟩ := hrun.requested
  obtain ⟨hlens, -⟩ := hls.requested
  have hle : (req ++ List.replicate n (Slot.fresh code flags)).length ≤ 0xffff := by
    rw [hlens]
    exact hls.added.inv.count
  have hreq : req.length ≤ 0xffff := by
    rw [List.length_append] at hle
    omega
  -- the slots of the layout are alike to those that were asked for
  have halike : List.Forall₂ (Slot.Alike p) (req ++ List.replicate n (Slot.fresh code flags))
      (l₁.slots ++ List.replicate n (Slot.fresh code flags)) := by
    rw [(layoutEnsure_ok hens).2]
    exact List.rel_append
      (forall₂_alike_build (fun s hs => (hsound s hs).steady)
        (posixipcLayoutBuild_ok hreq hbuilt₀).1)
      (List.forall₂_same.mpr fun s _ => .refl p s)
  have hbuild := posixipcLayoutBuild_congr hle halike hbuilt
  have hlslen : ls.slots.length ≤ 0xffff := hls.added.inv.count
  have hcount : l.nslots + (List.replicate n (Slot.fresh code flags)).length ≤ 0xffff := by
    rw [List.length_replicate]
    exact (layoutEnsure_ok hens).1
  have hinv := hl.inv.append (.array hcode hn : SlotRequest p l
    (LayoutHandle.newUnbound p (.mutexArray n) code flags l.nslots) _) hcount 0
  have hfit := hinv.spansFit fun g hg => by
    rcases List.mem_append.mp hg with hg | hg
    · exact hl.count_ne hg
    · rw [List.mem_singleton.mp hg]
      exact hn
  have hslots : ls.slots.length = (l.slots ++ List.replicate n (Slot.fresh code flags)).length := by
    rw [List.length_append, ← LayoutObj.nslots, ← LayoutObj.nslots, ← hlens, ← hlen,
      List.length_append]
  have hsync := @syncHandles_total ls.slots
    (l.handles ++ [LayoutHandle.newUnbound p (.mutexArray n) code flags l.nslots])
    (by rw [hslots]; exact hfit) hlslen
  have hhandles : l₁.handles = l.handles := by
    rw [(layoutEnsure_ok hens).2]
  unfold commitSlots
  rw [if_neg (by decide)]
  unfold layoutSync
  simp only [hbuild, hhandles, hsync]
  exact ⟨_, rfl⟩

/-- **`add_array` succeeds if the single adds do.** -/
theorem array_succeeds (hl : Added p l) (ha : a.kind = .mutex ∨ a.kind = .robustMutex) (hn : 1 ≤ n)
    (h : Adds p l (List.replicate n (.add a)) ls) :
    ∃ la, l.apply p (.addArray a.kind n a.onOwnerDied a.prioInherit a.processShared) .none
      = (la, .ok ()) := by
  -- the first of them has passed the checks
  have hchecks : l.sealed = false ∧ a.processShared = true ∧
      (a.kind = .mutex ∧ a.onOwnerDied = .absent ∨
        a.kind = .robustMutex ∧ a.onOwnerDied = .callable) := by
    obtain ⟨k, rfl⟩ : ∃ k, n = k + 1 := ⟨n - 1, by omega⟩
    rw [List.replicate_succ] at h
    cases h with
    | cons hadd _ => exact layoutAdd_checks ha hadd
  obtain ⟨hsealed, hshared, hkind⟩ := hchecks
  obtain ⟨type, code, flags, hlock⟩ := lockSlot ha
  obtain ⟨req, hrun⟩ := hl.run
  obtain ⟨hls, -⟩ := hrun.single_adds hlock n h
  have hcount : l.nslots + n ≤ 0xffff := by
    have hle := hls.added.inv.count
    rw [← hls.requested.1, List.length_append, List.length_replicate, hrun.requested.1] at hle
    exact hle
  have hens : ∃ l₁, layoutEnsure l (l.nslots + n) .none = .ok l₁ := by
    unfold layoutEnsure
    rw [if_neg (by omega)]
    by_cases hfit : l.nslots + n ≤ l.cap
    · rw [if_pos hfit]
      exact ⟨_, rfl⟩
    · rw [if_neg hfit, if_neg (by decide)]
      exact ⟨_, rfl⟩
  obtain ⟨l₁, hens⟩ := hens
  have hslots : ∀ code' flags',
      (AddOp.addArray a.kind n a.onOwnerDied a.prioInherit a.processShared).request p l
        = some (LayoutHandle.newUnbound p (.mutexArray n) code' flags' l.nslots,
          List.replicate n (Slot.fresh code' flags')) →
      code' = kindMutex ∨ code' = kindRobustMutex →
      ∃ la, addArraySlots p l code' flags' n .none = (la, .ok ()) := by
    intro code' flags' hreq hcode
    rw [hlock.many p l n] at hreq
    have hrep := (Prod.mk.inj (Option.some.inj hreq)).2
    rw [hrep] at hls
    obtain ⟨la, hla⟩ := commit_array hl hcode (by omega) hrun hls hens
    refine ⟨la, ?_⟩
    unfold addArraySlots layoutCommitN
    rw [hens]
    simp only
    rw [if_neg (by decide), if_neg (by omega), layoutEnsure_nslots hens]
    exact hla
  unfold LayoutObj.apply layoutAddArray
  simp only
  rw [if_neg (by simp [hsealed]), if_neg (by simp [hshared]), if_neg (by omega)]
  rcases hkind with ⟨hk, hd⟩ | ⟨hk, hd⟩
  · obtain ⟨la, hla⟩ := hslots kindMutex (mutexInitFlags false a.prioInherit)
      (by simp [AddOp.request, hk]) (Or.inl rfl)
    rw [hk, hd]
    exact ⟨la, hla⟩
  · obtain ⟨la, hla⟩ := hslots kindRobustMutex (mutexInitFlags true a.prioInherit)
      (by simp [AddOp.request, hk]) (Or.inr rfl)
    rw [hk, hd]
    exact ⟨la, hla⟩

end Succeeds

/-- **`add_array(kind, n)` is the same layout as `n` times `add(kind)`**, for Mutex and
RobustMutex, after any adds and before any adds.  The array can be added if the single locks can;
and if both programs run through, their slots with the offsets are the same, and so are the total
size and the digest, and lock `i` of the array is bound to the bytes of the `i`-th lock. -/
theorem array_eq_single_adds (p : Platform) (l : LayoutObj) (a : AddArgs) (n : ℕ)
    (suffix : List AddOp) (hl : Added p l) (ha : a.kind = .mutex ∨ a.kind = .robustMutex)
    (hn : 1 ≤ n) :
    (∀ ls, Adds p l (List.replicate n (.add a)) ls →
      ∃ la, l.apply p (.addArray a.kind n a.onOwnerDied a.prioInherit a.processShared) .none
        = (la, .ok ())) ∧
    (∀ la ls,
      Adds p l (.addArray a.kind n a.onOwnerDied a.prioInherit a.processShared :: suffix) la →
      Adds p l (List.replicate n (.add a) ++ suffix.map (AddOp.shift l.handles.length n)) ls →
      la.slots = ls.slots ∧
      (∃ e, posixipcLayoutBuild p la.slots = (la.slots, .ok e) ∧
        posixipcLayoutBuild p ls.slots = (ls.slots, .ok e)) ∧
      (∀ r faults faults' segment segment' xa xs,
        layoutOpen p r faults segment (la.inst p) = some xa → xa.result = .ok () →
        layoutOpen p r faults' segment' (ls.inst p) = some xs → xs.result = .ok () →
        ∀ i < n, ∃ oa os bytes, xa.inst.objs[l.handles.length]? = some oa ∧
          xs.inst.objs[l.handles.length + i]? = some os ∧
          oa.ptrs i = some bytes ∧ os.ptrs 0 = some bytes)) := by
  refine ⟨fun ls h => array_succeeds hl ha hn h, fun la ls hla hls => ?_⟩
  have htwins : Twins p l.handles.length n la ls := by
    obtain ⟨ls₁, hone, hrest⟩ := hls.append
    cases hla with
    | cons harr hrest' => exact (twins_of_array hl ha harr hone).adds hn suffix hrest' hrest
  obtain ⟨req, hrun, -⟩ := htwins.asked
  obtain ⟨e, hbuilt⟩ := hrun.added.built
  refine ⟨htwins.slots, ⟨e, hbuilt, ?_⟩, ?_⟩
  · rw [← htwins.slots]
    exact hbuilt
  · intro r faults faults' segment segment' xa xs hxa hoka hxs hoks i hi
    exact htwins.bytes hxa hoka hxs hoks hi

/-- The arguments of `layout.add(Mutex)`. -/
def mutexArgs : AddArgs := ⟨.mutex, .absent, false, true, none, 0, 0, 0, 0⟩

/-- `layout.add_array(Mutex, 2)`. -/
def twoLockArray : LayoutObj :=
  (LayoutObj.empty.apply glibcX86 (.addArray .mutex 2 .absent false true) .none).1

/-- `layout.add(Mutex)`, two times. -/
def twoLocks : LayoutObj :=
  ((LayoutObj.empty.apply glibcX86 (.add mutexArgs) .none).1.apply glibcX86
    (.add mutexArgs) .none).1

/-- Two locks and a blob, in both ways. -/
theorem array_eq_single_adds_two :
    (twoLockArray.apply glibcX86 (.addBytes 8) .none).1.slots
        = [⟨kindMutex, 8, 112, 64, 2⟩, ⟨kindMutex, 8, 176, 64, 2⟩, ⟨kindBytes, 64, 256, 64, 0⟩] ∧
      (twoLockArray.apply glibcX86 (.addBytes 8) .none).1.slots
        = (twoLocks.apply glibcX86 (.addBytes 8) .none).1.slots := by
  have harr : LayoutObj.empty.apply glibcX86 (.addArray .mutex 2 .absent false true) .none
      = (twoLockArray, .ok ()) := by decide +kernel
  have hone : LayoutObj.empty.apply glibcX86 (.add mutexArgs) .none
      = ((LayoutObj.empty.apply glibcX86 (.add mutexArgs) .none).1, .ok ()) := by decide +kernel
  have htwo : (LayoutObj.empty.apply glibcX86 (.add mutexArgs) .none).1.apply glibcX86
      (.add mutexArgs) .none = (twoLocks, .ok ()) := by decide +kernel
  have hblob : twoLockArray.apply glibcX86 (.addBytes 8) .none
      = ((twoLockArray.apply glibcX86 (.addBytes 8) .none).1, .ok ()) := by decide +kernel
  have hblob' : twoLocks.apply glibcX86 (.addBytes 8) .none
      = ((twoLocks.apply glibcX86 (.addBytes 8) .none).1, .ok ()) := by decide +kernel
  obtain ⟨-, hboth⟩ := array_eq_single_adds glibcX86 .empty mutexArgs 2 [.addBytes 8] .empty
    (Or.inl rfl) (by decide)
  obtain ⟨hslots, -, -⟩ := hboth _ _ (.cons harr (.cons hblob (.nil _)))
    (.cons hone (.cons htwo (.cons hblob' (.nil _))))
  exact ⟨by decide +kernel, hslots⟩

end PosixIpc
