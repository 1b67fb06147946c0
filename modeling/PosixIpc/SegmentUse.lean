/-
# A segment after its creation

What `Layout.create` leaves in the segment, and what the operations on its queues and
primitives keep of it.

* `Cell.Settled` : the cells that nobody writes after the creation, which are the header, the
  directory and the geometry of every ring;
* `createSegment_content` : the created segment is that of the layout, and every queue finds
  its geometry;
* `SegmentUse` : any accesses of any operations, in any order and with deaths in between;
* `SegmentUse.settled` : they leave the settled cells alone.
-/
import PosixIpc.LayoutRoles
import PosixIpc.QueueContents

namespace PosixIpc

open StoreProg TracedCall Word32

/-! ## The creation -/

section Create

/-- The words of the header after `write_header`. -/
def Expect.word (e : Expect) : HeaderField → ℕ
  | .magic => magicWire
  | .layoutVersion => e.layoutVersion
  | .slotCount => e.slotCount
  | .abiTag => e.abiTag
  | .flags => e.flags
  | .totalSize => e.totalSize
  | .directoryBytes => e.directoryBytes
  | .state => 0
  | .layoutDigest => e.layoutDigest
  | .reserved => 0

theorem exec_writeHeader (e : Expect) (m : SegMem) (f : HeaderField) :
    (Prog.exec (writeHeader e) m).2 (.header f) = e.word f := by
  simp only [writeHeader, Prog.exec_bind, Prog.exec_write]
  cases f <;> simp [Expect.word]

/-- The records from index `i` on. -/
theorem stores_writeSlots_from (i : ℕ) (slots : List Slot) :
    Prog.Stores (fun c _ => ∃ j f, i ≤ j ∧ c = Cell.dir j f) (writeSlots i slots) := by
  induction slots generalizing i with
  | nil => trivial
  | cons s rest ih =>
    refine Prog.stores_bind ?_ fun _ => ?_
    · have hone : ∀ (f : SlotField) (x : ℕ),
          Prog.Stores (fun c _ => ∃ j f, i ≤ j ∧ c = Cell.dir j f) (Prog.write (.dir i f) x) :=
        fun f x => (Prog.stores_write _ _ _).mpr ⟨i, f, le_rfl, rfl⟩
      exact Prog.stores_bind (hone _ _) fun _ => Prog.stores_bind (hone _ _) fun _ =>
        Prog.stores_bind (hone _ _) fun _ => Prog.stores_bind (hone _ _) fun _ => hone _ _
    · exact stores_mono (fun c _ ⟨j, f, hj, hc⟩ => ⟨j, f, by omega, hc⟩) (ih (i + 1))

theorem exec_writeSlot (i : ℕ) (s : Slot) (m : SegMem) (f : SlotField) :
    (Prog.exec (writeSlot i s) m).2 (.dir i f) = s.field f := by
  simp only [writeSlot, Prog.exec_bind, Prog.exec_write]
  cases f <;> simp [Slot.field]

theorem dirAt_writeSlots (i : ℕ) (slots : List Slot) (m : SegMem) :
    DirAt (Prog.exec (writeSlots i slots) m).2 i slots := by
  induction slots generalizing i m with
  | nil =>
    intro j s hj
    exact nomatch hj
  | cons s rest ih =>
    rw [writeSlots, Prog.exec_bind, dirAt_cons]
    refine ⟨fun f => ?_, ih (i + 1) _⟩
    -- the later records have other indices
    have hkeep := (stores_writeSlots_from (i + 1) rest).always
      (P := fun m' => m' (.dir i f) = (Prog.exec (writeSlot i s) m).2 (.dir i f))
      (fun m' c x ⟨j, g, hj, hc⟩ h => by
        rw [hc, Function.update_of_ne (by simp; omega)]
        exact h) rfl
    exact hkeep.last.trans (exec_writeSlot i s m f)

/-- The expectation has its directory. -/
structure Expect.Whole (e : Expect) (recs : List Slot) : Prop where
  slots : e.slots = some recs
  slotCount : e.slotCount = recs.length
  directoryBytes : e.directoryBytes = 16 * recs.length

/-- What `posixipc_shm_create` writes is the header and the directory. -/
theorem agrees_shmCreateStores {e : Expect} {slots : List Slot} (he : e.Whole slots)
    {m m' : SegMem} (h : Prog.exec (shmCreateStores e) m = (.ok, m')) : Agrees m' e := by
  set m₁ := (Prog.exec (writeHeader e) m).2 with hm₁
  have hword : ∀ f, m₁ (.header f) = e.word f := exec_writeHeader e m
  have hwhole : Prog.exec (writeDirectory e) m₁ = (.ok, (Prog.exec (writeSlots 0 slots) m₁).2) := by
    unfold writeDirectory
    by_cases h0 : e.slotCount = 0
    · have hnil : slots = [] := List.eq_nil_of_length_eq_zero (he.slotCount ▸ h0)
      rw [if_pos h0, hnil]
      rfl
    · rw [if_neg h0, he.slots, he.directoryBytes]
      simp only [Prog.exec_bind, Prog.exec_pure, Nat.mul_div_cancel_left _ (by norm_num : 0 < 16),
        List.take_length]
  -- the directory lies behind the header
  have hheader : ∀ f, (Prog.exec (writeSlots 0 slots) m₁).2 (.header f) = e.word f := by
    intro f
    have hkeep := (stores_writeSlots_from 0 slots).always
      (P := fun m' => m' (.header f) = e.word f)
      (fun m' c x ⟨j, g, _, hc⟩ h => by
        rw [hc, Function.update_of_ne (by simp)]
        exact h) (hword f)
    exact hkeep.last
  have hlast : m' = Function.update (Prog.exec (writeSlots 0 slots) m₁).2 (.header .state)
      stateInitializing := by
    unfold shmCreateStores at h
    rw [Prog.exec_bind, Prog.exec_bind, ← hm₁, hwhole] at h
    exact (congrArg Prod.snd h).symm
  have hfield : ∀ f, f ≠ .state → m' (.header f) = e.word f := by
    intro f hf
    rw [hlast, Function.update_of_ne (by simpa using hf)]
    exact hheader f
  refine ⟨hfield _ (by simp), ⟨?_, ?_, ?_, ?_, ?_, ?_⟩, ?_⟩
  any_goals exact hfield _ (by simp)
  rw [he.slots, Option.getD_some, hlast]
  intro j s hs f
  rw [Function.update_of_ne (by simp)]
  exact dirAt_writeSlots 0 slots m₁ j s hs f

/-- A store that leaves the header and the directory alone. -/
def OffContent : Cell → ℕ → Prop := fun c _ => (∀ f, c ≠ .header f) ∧ ∀ i f, c ≠ .dir i f

theorem Agrees.off {e : Expect} {m m' : SegMem} (h : Agrees m e)
    (hheader : ∀ f, f ≠ .state → m' (.header f) = m (.header f))
    (hdir : ∀ i f, m' (.dir i f) = m (.dir i f)) : Agrees m' e where
  magic := (hheader _ (by simp)).trans h.magic
  header :=
    { layoutVersion := (hheader _ (by simp)).trans h.header.layoutVersion
      slotCount := (hheader _ (by simp)).trans h.header.slotCount
      abiTag := (hheader _ (by simp)).trans h.header.abiTag
      totalSize := (hheader _ (by simp)).trans h.header.totalSize
      directoryBytes := (hheader _ (by simp)).trans h.header.directoryBytes
      layoutDigest := (hheader _ (by simp)).trans h.header.layoutDigest }
  dir := fun j s hs f => (hdir _ f).trans (h.dir j s hs f)

/-- A program with such stores. -/
theorem agrees_exec {α : Type} {p : SegProg α} (hp : Prog.Stores OffContent p) {e : Expect}
    {m : SegMem} (h : Agrees m e) : Agrees (Prog.exec p m).2 e := by
  refine Prog.Always.last (P := fun m' => Agrees m' e) (hp.always (fun m' c x hc hm' => ?_) h)
  refine hm'.off (fun f _ => ?_) fun i f => ?_
  · exact Function.update_of_ne (hc.1 f).symm _ _
  · exact Function.update_of_ne (hc.2 i f).symm _ _

theorem stores_initSlots {Q : Cell → ℕ → Prop} (hprim : ∀ i, Q (.prim i) 1) (i : ℕ)
    (slots : List Slot) : Prog.Stores Q (initSlots i slots) := by
  induction slots generalizing i with
  | nil => trivial
  | cons s rest ih =>
    refine Prog.stores_bind (stores_initSlot (hprim i) s) fun rc => ?_
    split_ifs
    · trivial
    · exact ih (i + 1)

theorem stores_initRings {Q : Cell → ℕ → Prop} (cacheline : ℕ) (slots : List Slot)
    {rings : List RingSpec} (hring : ∀ q ∈ rings, (∀ l v, Q (.ring q.slot l) v) ∧
      Q (.notFull q.slot) 0 ∧ Q (.notEmpty q.slot) 0) :
    Prog.Stores Q (initRings cacheline slots rings) := by
  induction rings with
  | nil => trivial
  | cons q rest ih =>
    obtain ⟨hword, hfull, hempty⟩ := hring q List.mem_cons_self
    refine Prog.stores_bind (stores_initRing cacheline _ hword hfull hempty) fun rc => ?_
    split_ifs
    · trivial
    · exact ih fun x hx => hring x (List.mem_cons_of_mem q hx)

/-- `posixipc_queue_init_ctrl` stores the geometry of the view. -/
theorem exec_posixipcQueueInitCtrl_geometry {v : View} (hctrl : v.ctrl ≠ none)
    (hstate : v.state ≠ none) (m : Mem) :
    (Prog.exec (posixipcQueueInitCtrl v) m).2 .depth = v.depth ∧
      (Prog.exec (posixipcQueueInitCtrl v) m).2 .itemSize = v.itemSize := by
  have hstates : ∀ (m : Mem) (l : Loc), (∀ j, l ≠ .state j) →
      (Prog.exec (forFrom (fun i => Prog.write (.state i) queueEmpty) 0 v.depth) m).2 l = m l :=
    fun m l hl => exec_forFrom_frame (g := fun _ => queueEmpty) fun j _ _ => hl j
  rw [posixipcQueueInitCtrl, if_neg (by simp [hctrl, hstate])]
  simp only [Prog.exec_bind, Prog.exec_write, Prog.exec_pure]
  rw [hstates _ _ (by simp), hstates _ _ (by simp)]
  exact ⟨by simp, by simp⟩

theorem posixipcQueueMap_error {cacheline nbytes depth itemSize : ℕ} {bytes : Option ℕ} {rc : Rc}
    (h : posixipcQueueMap cacheline bytes nbytes depth itemSize = .error rc) : rc = .einval := by
  unfold posixipcQueueMap at h
  cases bytes with
  | none => exact (Except.error.inj h).symm
  | some base =>
    simp only at h
    split_ifs at h
    exact (Except.error.inj h).symm

theorem posixipcFutexqMap_error {cacheline nbytes depth itemSize : ℕ} {bytes : Option ℕ} {rc : Rc}
    (h : posixipcFutexqMap cacheline bytes nbytes depth itemSize = .error rc) : rc = .einval := by
  unfold posixipcFutexqMap at h
  cases bytes with
  | none => exact (Except.error.inj h).symm
  | some base =>
    simp only at h
    split_ifs at h
    · exact (Except.error.inj h).symm
    · split at h
      · rename_i hmap
        rw [← Except.error.inj h]
        exact posixipcQueueMap_error hmap
      · exact nomatch h

/-- A ring that was initialised has its geometry. -/
theorem ctrlAt_initRing {cacheline : ℕ} {s : Slot} {q : RingSpec} {m m' : SegMem}
    (h : Prog.exec (initRing cacheline s q) m = (.ok, m')) :
    CtrlAt m' q.slot q.depth q.itemSize := by
  have hinj : Function.Injective (Cell.ring q.slot) := fun a b hab => by simpa using hab
  have hinit : ∀ (v : View) (m : SegMem), v.Valid → v.depth = q.depth → v.itemSize = q.itemSize →
      CtrlAt (Prog.exec ((posixipcQueueInitCtrl v).relocate (Cell.ring q.slot)) m).2 q.slot
        q.depth q.itemSize := by
    intro v m hv hd hi
    have hmem := (Prog.exec_relocate hinj (posixipcQueueInitCtrl v) m).2
    obtain ⟨h1, h2⟩ := exec_posixipcQueueInitCtrl_geometry hv.ctrl_ne hv.state_ne
      (m ∘ Cell.ring q.slot)
    rw [← hmem] at h1 h2
    exact ⟨h1.trans hd, h2.trans hi⟩
  unfold initRing at h
  rw [Prog.exec_bind] at h
  rcases hptr : (Prog.exec (posixipcShmOffsetPtr s.offset s.size s.align) m).1 with rc | base
  · -- the call has failed with a code that is not `0`
    rw [hptr] at h
    rcases exec_posixipcShmOffsetPtr m s with ⟨hok, -⟩ | ⟨herr, -⟩
    · exact nomatch hptr.symm.trans hok
    · obtain rfl := Except.error.inj (hptr.symm.trans herr)
      exact nomatch congrArg Prod.fst h
  · rw [hptr] at h
    simp only at h
    by_cases hf : q.futex = true
    · rw [if_pos hf] at h
      cases hmap : posixipcFutexqMap cacheline (some base) s.size q.depth q.itemSize with
      | error rc =>
        rw [hmap] at h
        obtain rfl := posixipcFutexqMap_error hmap
        exact nomatch congrArg Prod.fst h
      | ok fv =>
        rw [hmap] at h
        obtain ⟨hv, hd, hi⟩ := posixipcFutexqMap_valid hmap
        simp only [posixipcFutexqInit, Prog.exec_bind] at h
        have hm := congrArg Prod.snd h
        simp only at hm
        rw [← hm]
        exact hinit _ _ hv hd hi
    · rw [if_neg hf] at h
      cases hmap : posixipcQueueMap cacheline (some base) s.size q.depth q.itemSize with
      | error rc =>
        rw [hmap] at h
        obtain rfl := posixipcQueueMap_error hmap
        exact nomatch congrArg Prod.fst h
      | ok v =>
        rw [hmap] at h
        obtain ⟨hv, hd, hi⟩ := posixipcQueueMap_valid hmap
        have hm := congrArg Prod.snd h
        simp only at hm
        rw [← hm]
        exact hinit _ _ hv hd hi

/-- Rings in different slots do not disturb one another. -/
theorem ctrlAt_initRings {cacheline : ℕ} {slots : List Slot} {rings : List RingSpec}
    (hinj : ∀ q ∈ rings, ∀ q' ∈ rings, q.slot = q'.slot → q = q') {m m' : SegMem}
    (h : Prog.exec (initRings cacheline slots rings) m = (.ok, m')) :
    ∀ q ∈ rings, CtrlAt m' q.slot q.depth q.itemSize := by
  induction rings generalizing m with
  | nil => simp
  | cons q rest ih =>
    rw [initRings, SegProg.exec_andThen] at h
    by_cases hok : (Prog.exec (initRing cacheline (slots.getD q.slot default) q) m).1 = .ok
    · rw [if_pos hok] at h
      have hrest := ih (fun x hx y hy => hinj x (List.mem_cons_of_mem q hx) y
        (List.mem_cons_of_mem q hy)) h
      refine List.forall_mem_cons.mpr ⟨?_, hrest⟩
      by_cases hagain : ∃ x ∈ rest, x.slot = q.slot
      · obtain ⟨x, hx, hslot⟩ := hagain
        obtain rfl := hinj x (List.mem_cons_of_mem q hx) q List.mem_cons_self hslot
        exact hrest x hx
      · have hfirst := ctrlAt_initRing (Prod.ext hok rfl)
        have hoff : Prog.Stores (fun c _ => ∀ l, c ≠ Cell.ring q.slot l)
            (initRings cacheline slots rest) := by
          refine stores_initRings cacheline slots fun x hx => ⟨fun l _ l' heq => ?_, ?_, ?_⟩
          · exact hagain ⟨x, hx, (Cell.ring.inj heq).1⟩
          · simp
          · simp
        have hkeep := hoff.always
          (P := fun m' => CtrlAt m' q.slot q.depth q.itemSize) (fun m' c x hc hm' => by
            unfold CtrlAt at hm' ⊢
            rwa [Function.update_of_ne (hc _).symm, Function.update_of_ne (hc _).symm]) hfirst
        have hlast := hkeep.last
        rwa [h] at hlast
    · rw [if_neg hok] at h
      exact absurd (congrArg Prod.fst h) hok

end Create

/-! ## The queues of a layout -/

section Rings

variable {p : Platform} {l : LayoutObj} {e : Expect} {m : SegMem}

/-- A slot belongs to one handle. -/
theorem Blocks.handle_unique {start : ℕ} {hs : List LayoutHandle} {slots : List Slot}
    (hb : Blocks p start hs slots) {g g' : LayoutHandle} (hg : g ∈ hs) (hg' : g' ∈ hs) {i : ℕ}
    (hi : g.slot ≤ i ∧ i < g.slot + g.count) (hi' : g'.slot ≤ i ∧ i < g'.slot + g'.count) :
    g = g' := by
  induction hb with
  | nil start => exact nomatch hg
  | @cons start h hs blk rest h1 h2 h3 hrest ih =>
    -- the handles of the rest stand behind the first
    have hbehind : ∀ k ∈ hs, start + h.count ≤ k.slot := by
      intro k hk
      obtain ⟨pre, -, -, -, hslot, -, -⟩ := hrest.mem hk
      omega
    rcases List.mem_cons.mp hg with rfl | hrest₁
    · rcases List.mem_cons.mp hg' with rfl | hrest₂
      · rfl
      · have := hbehind g' hrest₂
        omega
    · rcases List.mem_cons.mp hg' with rfl | hrest₂
      · have := hbehind g hrest₁
        omega
      · exact ih hrest₁ hrest₂

/-- The queue that a handle stands for. -/
def LayoutHandle.ringSpec (g : LayoutHandle) : Option RingSpec :=
  match g.type with
  | .queue depth itemSize => some ⟨g.slot + 4, false, depth, itemSize⟩
  | .futexQueue depth itemSize => some ⟨g.slot + 2, true, depth, itemSize⟩
  | _ => none

theorem mem_ringSpecs {hs : List LayoutHandle} {q : RingSpec} :
    q ∈ ringSpecs hs ↔ ∃ g ∈ hs, g.ringSpec = some q := by
  unfold ringSpecs LayoutHandle.ringSpec
  rw [List.mem_append, List.mem_filterMap, List.mem_filterMap]
  constructor
  · rintro (⟨g, hg, h⟩ | ⟨g, hg, h⟩)
    · refine ⟨g, hg, ?_⟩
      cases ht : g.type <;> simp_all
    · refine ⟨g, hg, ?_⟩
      cases ht : g.type <;> simp_all
  · rintro ⟨g, hg, h⟩
    cases ht : g.type with
    | queue depth itemSize => exact Or.inl ⟨g, hg, by simpa [ht] using h⟩
    | futexQueue depth itemSize => exact Or.inr ⟨g, hg, by simpa [ht] using h⟩
    | _ => simp [ht] at h

/-- The ring stands among the slots of its handle. -/
theorem LayoutHandle.ringSpec_slot {g : LayoutHandle} {q : RingSpec} (h : g.ringSpec = some q) :
    g.slot ≤ q.slot ∧ q.slot < g.slot + g.count := by
  unfold LayoutHandle.ringSpec at h
  unfold LayoutHandle.count
  split at h
  · rename_i ht
    rw [ht, ← Option.some.inj h]
    simp only [queueSlotCount]
    omega
  · rename_i ht
    rw [ht, ← Option.some.inj h]
    simp only [futexQueueSlotCount]
    omega
  · cases h

/-- Two queues of a layout have their rings in different slots. -/
theorem Added.ringSpecs_inj (h : Added p l) : ∀ q ∈ ringSpecs l.handles,
    ∀ q' ∈ ringSpecs l.handles, q.slot = q'.slot → q = q' := by
  intro q hq q' hq' hslot
  obtain ⟨g, hg, hspec⟩ := mem_ringSpecs.mp hq
  obtain ⟨g', hg', hspec'⟩ := mem_ringSpecs.mp hq'
  have hin := LayoutHandle.ringSpec_slot hspec
  rw [hslot] at hin
  obtain rfl := h.inv.blocks.handle_unique hg hg' hin (LayoutHandle.ringSpec_slot hspec')
  exact Option.some.inj (hspec.symm.trans hspec')

theorem LayoutHandle.ctrlMatches_iff {g : LayoutHandle} :
    g.CtrlMatches m ↔ ∀ q, g.ringSpec = some q → CtrlAt m q.slot q.depth q.itemSize := by
  unfold LayoutHandle.CtrlMatches LayoutHandle.ringSpec
  cases g.type with
  | queue depth itemSize =>
    exact ⟨fun h q hq => by rwa [← Option.some.inj hq], fun h => h _ rfl⟩
  | futexQueue depth itemSize =>
    exact ⟨fun h q hq => by rwa [← Option.some.inj hq], fun h => h _ rfl⟩
  | _ =>
    simp only [reduceCtorEq, false_implies, implies_true, iff_self]

/-- **The created segment**: published, with the header and the directory of the layout, and
every queue finds its geometry. -/
theorem createSegment_content (h : Added p l)
    (hb : posixipcLayoutBuild p l.slots = (l.slots, .ok e)) {fault : Option PyError}
    (hm : createSegment p fault (ringSpecs l.handles) e = some (.ok m)) :
    m (.header .state) = stateReady ∧ Agrees m e ∧ ∀ g ∈ l.handles, g.CtrlMatches m := by
  obtain ⟨-, hslots, hcount, hdir⟩ := h.expect hb
  have hwhole : e.Whole l.slots := ⟨hslots, hcount, hdir⟩
  unfold createSegment at hm
  cases fault with
  | some err => exact nomatch hm
  | none =>
    simp only at hm
    by_cases hok : (Prog.exec (initSegment p.cacheline e (ringSpecs l.handles)) fun _ => 0).1 = .ok
    · rw [if_neg (not_not.mpr hok)] at hm
      obtain rfl := Except.ok.inj (Option.some.inj hm)
      -- the three parts have succeeded
      unfold initSegment at hok ⊢
      rw [SegProg.exec_andThen] at hok ⊢
      by_cases h1 : (Prog.exec (shmCreateStores e) fun _ => 0).1 = .ok
      · rw [if_pos h1, SegProg.exec_andThen] at hok ⊢
        have hagree := agrees_shmCreateStores hwhole (Prod.ext h1 rfl)
        set m₁ := (Prog.exec (shmCreateStores e) fun _ => 0).2
        by_cases h2 : (Prog.exec (initSlots 0 (e.slots.getD [])) m₁).1 = .ok
        · rw [if_pos h2] at hok ⊢
          have hoffSlots : Prog.Stores OffContent (initSlots 0 (e.slots.getD [])) :=
            stores_initSlots (fun i => by simp [OffContent]) 0 _
          have hagree₂ := agrees_exec hoffSlots hagree
          set m₂ := (Prog.exec (initSlots 0 (e.slots.getD [])) m₁).2
          have hoffRings : Prog.Stores OffContent
              (initRings p.cacheline (e.slots.getD []) (ringSpecs l.handles)) :=
            stores_initRings p.cacheline _ fun q _ => by simp [OffContent]
          have hagree₃ := agrees_exec hoffRings hagree₂
          have hrings := ctrlAt_initRings h.ringSpecs_inj (Prod.ext hok rfl)
          set m₃ := (Prog.exec (initRings p.cacheline (e.slots.getD [])
            (ringSpecs l.handles)) m₂).2
          refine ⟨Function.update_self _ _ _, hagree₃.off (fun f hf => ?_) (fun i f => ?_), ?_⟩
          · exact Function.update_of_ne (by simpa using hf) _ _
          · exact Function.update_of_ne (by simp) _ _
          · intro g hg
            refine LayoutHandle.ctrlMatches_iff.mpr fun q hq => ?_
            have hq' := hrings q (mem_ringSpecs.mpr ⟨g, hg, hq⟩)
            unfold CtrlAt at hq' ⊢
            rwa [Function.update_of_ne (by simp), Function.update_of_ne (by simp)]
        · rw [if_neg h2] at hok
          exact absurd hok h2
      · rw [if_neg h1] at hok
        exact absurd hok h1
    · rw [if_pos hok] at hm
      exact nomatch hm

end Rings

/-! ## The use of a segment -/

/-- The operations on a ring that is in use. -/
inductive RingOp
  | put (v : View) (data : ℕ → UInt8)
  | get (v : View)
  | qsize (v : View)
  | recover (v : View)

/-- The program of an operation, without its result. -/
def RingOp.prog : RingOp → RingProg Unit
  | .put v data => do
    let _ ← posixipcQueuePut v data
    pure ()
  | .get v => do
    let _ ← posixipcQueueGet v
    pure ()
  | .qsize v => do
    let _ ← posixipcQueueQsize v
    pure ()
  | .recover v => do
    let _ ← posixipcQueueRecover v
    pure ()

/-- **The contents that a segment can have in use.**  An operation on a ring makes any of its
stores, whatever it has loaded before, so that the operations of any number of processes may
interleave and may die at any access; the other cells that are in use are the objects of the
primitives and the words of the futex queues. -/
inductive SegmentUse (m : SegMem) : SegMem → Prop
  | start : SegmentUse m m
  | ring {m' : SegMem} {op : RingOp} {c : Loc} {x : ℕ} {k : RingProg Unit} (i : ℕ) :
      SegmentUse m m' → Prog.Residual op.prog (.store c x k) →
      SegmentUse m (Function.update m' (.ring i c) x)
  | prim {m' : SegMem} (i x : ℕ) : SegmentUse m m' →
      SegmentUse m (Function.update m' (.prim i) x)
  | notFull {m' : SegMem} (i x : ℕ) : SegmentUse m m' →
      SegmentUse m (Function.update m' (.notFull i) x)
  | notEmpty {m' : SegMem} (i x : ℕ) : SegmentUse m m' →
      SegmentUse m (Function.update m' (.notEmpty i) x)

/-- The cells that nobody writes any more. -/
def Cell.Settled : Cell → Prop
  | .header _ => True
  | .dir _ _ => True
  | .ring _ .depth => True
  | .ring _ .itemSize => True
  | _ => False

/-- A store that leaves the geometry alone. -/
def OffGeometry : Loc → ℕ → Prop := fun c _ => c ≠ .depth ∧ c ≠ .itemSize

section Ops

theorem stores_forFrom {Q : Loc → ℕ → Prop} {body : ℕ → RingProg Unit}
    (h : ∀ i, Prog.Stores Q (body i)) (i n : ℕ) : Prog.Stores Q (forFrom body i n) := by
  induction n generalizing i with
  | zero => trivial
  | succ n ih => exact Prog.stores_bind (h i) fun _ => ih (i + 1)

theorem stores_memcpyOut {Q : Loc → ℕ → Prop} (off n : ℕ) :
    Prog.Stores Q (memcpyOut off n) := by
  induction n generalizing off with
  | zero => trivial
  | succ n ih =>
    exact Prog.stores_bind (Prog.stores_read _ _) fun b =>
      Prog.stores_bind (ih (off + 1)) fun rest => trivial

theorem stores_recoverHead {Q : Loc → ℕ → Prop} (hhead : ∀ x, Q .head x) (i n : ℕ) :
    Prog.Stores Q (recoverHead i n) := by
  induction n generalizing i with
  | zero => trivial
  | succ n ih =>
    refine Prog.stores_bind (Prog.stores_read _ _) fun st => ?_
    split_ifs
    · exact (Prog.stores_write _ _ _).mpr (hhead i)
    · exact ih (i + 1)

/-- **No operation changes the geometry of its ring.** -/
theorem RingOp.stores (op : RingOp) : Prog.Stores OffGeometry op.prog := by
  have hread : ∀ c, Prog.Stores OffGeometry (Prog.read c : RingProg ℕ) := fun c =>
    Prog.stores_read _ c
  have hwrite : ∀ (c : Loc) (x : ℕ), c ≠ .depth → c ≠ .itemSize →
      Prog.Stores OffGeometry (Prog.write c x : RingProg Unit) :=
    fun c x h1 h2 => (Prog.stores_write _ c x).mpr ⟨h1, h2⟩
  cases op with
  | put v data =>
    refine Prog.stores_bind ?_ fun _ => trivial
    unfold posixipcQueuePut
    split_ifs
    · trivial
    · refine Prog.stores_bind (hread _) fun count => ?_
      split_ifs
      · trivial
      · refine Prog.stores_bind (hread _) fun idx => ?_
        split_ifs
        · trivial
        · refine Prog.stores_bind (hwrite _ _ (by simp) (by simp)) fun _ => ?_
          refine Prog.stores_bind (stores_forFrom (fun j => hwrite _ _ (by simp) (by simp)) _ _)
            fun _ => ?_
          refine Prog.stores_bind (hwrite _ _ (by simp) (by simp)) fun _ => ?_
          refine Prog.stores_bind (hwrite _ _ (by simp) (by simp)) fun _ => ?_
          refine Prog.stores_bind (hread _) fun c => ?_
          exact Prog.stores_bind (hwrite _ _ (by simp) (by simp)) fun _ => trivial
  | get v =>
    refine Prog.stores_bind ?_ fun _ => trivial
    unfold posixipcQueueGet
    split_ifs
    · trivial
    · refine Prog.stores_bind (hread _) fun count => ?_
      split_ifs
      · trivial
      · refine Prog.stores_bind (hread _) fun idx => ?_
        split_ifs
        · trivial
        · refine Prog.stores_bind (hread _) fun st => ?_
          split_ifs
          · trivial
          · refine Prog.stores_bind (hwrite _ _ (by simp) (by simp)) fun _ => ?_
            refine Prog.stores_bind (stores_memcpyOut _ _) fun data => ?_
            refine Prog.stores_bind (hwrite _ _ (by simp) (by simp)) fun _ => ?_
            refine Prog.stores_bind (hwrite _ _ (by simp) (by simp)) fun _ => ?_
            refine Prog.stores_bind (hread _) fun c => ?_
            exact Prog.stores_bind (hwrite _ _ (by simp) (by simp)) fun _ => trivial
  | qsize v =>
    refine Prog.stores_bind ?_ fun _ => trivial
    unfold posixipcQueueQsize
    split_ifs
    · trivial
    · exact Prog.stores_bind (hread _) fun n => trivial
  | recover v =>
    refine Prog.stores_bind ?_ fun _ => trivial
    unfold posixipcQueueRecover
    split_ifs
    · trivial
    · refine Prog.stores_bind (stores_recoverScan (by simp [OffGeometry]) _ _ _) fun ready => ?_
      refine Prog.stores_bind (hwrite _ _ (by simp) (by simp)) fun _ => ?_
      split_ifs
      · refine Prog.stores_bind (hwrite _ _ (by simp) (by simp)) fun _ => ?_
        exact Prog.stores_bind (hwrite _ _ (by simp) (by simp)) fun _ => trivial
      · refine Prog.stores_bind (stores_recoverHead (by simp [OffGeometry]) _ _) fun _ => ?_
        refine Prog.stores_bind (hread _) fun head => ?_
        exact Prog.stores_bind (hwrite _ _ (by simp) (by simp)) fun _ => trivial

end Ops

/-- **The settled cells stay.** -/
theorem SegmentUse.settled {m m' : SegMem} (h : SegmentUse m m') {c : Cell} (hc : c.Settled) :
    m' c = m c := by
  induction h with
  | start => rfl
  | @ring m' op l x k i _ hres ih =>
    have hoff : OffGeometry l x := ((RingOp.stores op).residual hres).1
    rw [Function.update_of_ne, ih]
    rintro rfl
    cases l with
    | depth => exact hoff.1 rfl
    | itemSize => exact hoff.2 rfl
    | _ => exact hc
  | prim i x _ ih =>
    rw [Function.update_of_ne, ih]
    rintro rfl
    exact hc
  | notFull i x _ ih =>
    rw [Function.update_of_ne, ih]
    rintro rfl
    exact hc
  | notEmpty i x _ ih =>
    rw [Function.update_of_ne, ih]
    rintro rfl
    exact hc

/-- The header and the directory of a segment in use. -/
theorem SegmentUse.agrees {m m' : SegMem} {e : Expect} (h : SegmentUse m m') (hm : Agrees m e) :
    Agrees m' e :=
  hm.off (fun _ _ => h.settled trivial) fun _ _ => h.settled trivial

/-- The geometry of a ring in use. -/
theorem SegmentUse.ctrlAt_iff {m m' : SegMem} (h : SegmentUse m m') (i depth itemSize : ℕ) :
    CtrlAt m' i depth itemSize ↔ CtrlAt m i depth itemSize := by
  unfold CtrlAt
  rw [h.settled (c := .ring i .depth) trivial, h.settled (c := .ring i .itemSize) trivial]

end PosixIpc
