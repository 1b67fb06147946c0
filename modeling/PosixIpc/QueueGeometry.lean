/-
# A queue with another geometry is refused

The directory carries the padded size of a ring and a mix of its geometry, and both may be the
same for two geometries.  What tells them apart is the control word: the creation stores the
geometry there, no operation on the queue changes it, and the `bind` functions compare it.

* `Adds.keys_congr` : two programs that ask for the same handles get the same slots;
* `attach_otherGeometry` : `Layout.attach` with a handle whose control words differ;
* `attachPickled_otherGeometry` : `_attach_queue` and `_attach_futex_queue` with other numbers;
* `other_geometry_refused` : both, in every segment that has been created and used.
-/
import PosixIpc.SegmentUse
import PosixIpc.PickleAttach
import PosixIpc.LayoutArray

namespace PosixIpc

open StoreProg TracedCall Word32

/-! ## The slots of two programs -/

section Keys

variable {p : Platform} {a b a' b' : LayoutObj}

/-- What an add asks for depends on the keys and the number of slots. -/
theorem AddOp.request_congr (hkeys : a.keys = b.keys) (hn : a.nslots = b.nslots) (op : AddOp) :
    op.request p a = op.request p b := by
  have hone : ∀ type kind flags,
      a.oneRequest p type kind flags = b.oneRequest p type kind flags := by
    intro type kind flags
    unfold LayoutObj.oneRequest
    rw [hn]
  cases op with
  | add x =>
    simp only [AddOp.request, AddArgs.request, hn, hone, mutexIndex_eq, hkeys]
  | addBytes size => simp only [AddOp.request, hn]
  | addArray kind count died prio shared => simp only [AddOp.request, hn]

/-- One call in two programs. -/
theorem apply_keys_congr (ha : Added p a) (hb : Added p b) (hkeys : a.keys = b.keys)
    (hn : a.nslots = b.nslots) {op : AddOp} {f f' : AllocFault}
    (hx : a.apply p op f = (a', .ok ())) (hy : b.apply p op f' = (b', .ok ())) :
    a'.keys = b'.keys ∧ a'.nslots = b'.nslots := by
  obtain ⟨g, blk, hreq, happ⟩ := apply_ok hx
  obtain ⟨g', blk', hreq', happ'⟩ := apply_ok hy
  rw [AddOp.request_congr hkeys hn, hreq'] at hreq
  obtain ⟨rfl, rfl⟩ := Prod.mk.inj (Option.some.inj hreq)
  obtain ⟨hk, hc, -⟩ := happ.keys ha.inv
  obtain ⟨hk', hc', -⟩ := happ'.keys hb.inv
  exact ⟨by rw [hk, hk', hkeys, hn], by rw [hc, hc', hn]⟩

theorem Adds.added {ops : List AddOp} (ha : Added p a) (h : Adds p a ops b) : Added p b := by
  induction h with
  | nil l => exact ha
  | cons hadd _ ih => exact ih (ha.step hadd)

/-- All calls in two programs. -/
theorem Adds.keys_congr {ops : List AddOp} (ha : Added p a) (hb : Added p b)
    (hkeys : a.keys = b.keys) (hn : a.nslots = b.nslots) (hx : Adds p a ops a')
    (hy : Adds p b ops b') : a'.keys = b'.keys ∧ a'.nslots = b'.nslots := by
  induction hx generalizing b with
  | nil l =>
    cases hy
    exact ⟨hkeys, hn⟩
  | cons hadd _ ih =>
    cases hy with
    | cons hadd' hrest' =>
      obtain ⟨hk, hc⟩ := apply_keys_congr ha hb hkeys hn hadd hadd'
      exact ih (ha.step hadd) (hb.step hadd') hk hc hrest'

/-- The handles that there are stay where they are. -/
theorem Adds.keys_prefix {ops : List AddOp} (ha : Added p a) (h : Adds p a ops b) :
    a.keys <+: b.keys := by
  induction h with
  | nil l => exact List.prefix_rfl
  | cons hadd _ ih =>
    obtain ⟨_, _, -, happ⟩ := apply_ok hadd
    have hstep := (happ.keys ha.inv).1
    exact List.IsPrefix.trans ⟨_, hstep.symm⟩ (ih (ha.step hadd))

/-- The class of a queue with its geometry. -/
def AddArgs.ringType (x : AddArgs) : HandleType :=
  if x.kind = .queue then .queue x.depth.toNat x.itemSize.toNat
  else .futexQueue x.depth.toNat x.itemSize.toNat

/-- A queue that was added: its handle stands behind the handles that there were, and its
numbers are positive. -/
theorem apply_queue {x : AddArgs} {f : AllocFault} (hkind : x.kind = .queue ∨ x.kind = .futexQueue)
    (ha : Added p a) (h : a.apply p (.add x) f = (b, .ok ())) :
    b.keys = a.keys ++ [(x.ringType, a.nslots)] ∧ 1 ≤ x.depth ∧ 1 ≤ x.itemSize := by
  obtain ⟨g, blk, hreq, happ⟩ := apply_ok h
  have hkeys := (happ.keys ha.inv).1
  have hadd := (of_raise (of_raise h).2).2
  have htype : g.type = x.ringType := by
    unfold AddArgs.ringType
    rcases hkind with hk | hk <;> simp only [AddOp.request, AddArgs.request, hk] at hreq
    · rw [if_pos hk, ← (Prod.mk.inj (Option.some.inj hreq)).1]
      rfl
    · rw [if_neg (by simp [hk]), ← (Prod.mk.inj (Option.some.inj hreq)).1]
      rfl
  refine ⟨by rw [hkeys, htype], ?_⟩
  rcases hkind with hk | hk
  · rw [if_pos hk] at hadd
    have hrange := (of_raise (of_raise hadd).2).1
    omega
  · rw [if_neg (by simp [hk]), if_pos hk] at hadd
    have hrange := (of_raise (of_raise hadd).2).1
    omega

end Keys

/-! ## `Layout.attach` -/

section Attach

open Call

variable {p : Platform} {l : LayoutObj} {e : Expect} {m : SegMem} {r : ℕ} {env : AttachEnv}
  {turns : ℕ} {name : List UInt8} {st : Stat} {g : LayoutHandle}

/-- **A layout with a queue whose control words differ is refused.** -/
theorem attach_otherGeometry (h : Added p l)
    (hb : posixipcLayoutBuild p l.slots = (l.slots, .ok e)) (hg : g ∈ l.handles)
    (hctrl : ¬ g.CtrlMatches m) (hready : m (.header .state) = stateReady)
    (hsize : headerBytes ≤ st.size) (hcalm : Undisturbed env turns name st) :
    ∃ x text, layoutOpen p r (fun _ => noFaults) (attachSegment none none env turns name st m)
      (l.inst p) = some x ∧ x.result = .error (.layoutMismatchError text) := by
  have hlaw := attachLaw (h.builtExpect hb) hcalm m
  have hbuild : (posixipcLayoutBuild p (l.inst p).slots).2 = .ok e := congrArg Prod.snd hb
  unfold layoutOpen
  simp only [h.sync_inst, hbuild]
  by_cases hacc : Accepts m st.size e
  · -- the segment is accepted, and the binding comes to the queue
    have hseg : attachSegment none none env turns name st m e = some (.ok m) := by
      simp only [attachSegment, hlaw.ok_iff.mpr hacc, Option.map_some]
      rfl
    rw [hseg]
    rcases layoutBindAll_cases r (fun _ => noFaults) h (h.fits hb hacc.agrees.header) 0 0
        (fun k hk => hk) with ⟨objs, pins, -, -, hall⟩ | ⟨objs, pins, err, heq, hno⟩
    · exact absurd (hall g hg) hctrl
    · obtain ⟨⟨text, rfl⟩, -⟩ := hno fun _ => rfl
      have hbind : layoutBindAll p r (fun _ => noFaults) m (l.inst p).slots 0 (l.inst p).objs 0 =
          (objs, pins, .error (.layoutMismatchError text)) := heq
      simp only [hbind]
      exact ⟨_, text, rfl, rfl⟩
  · have hseg : attachSegment none none env turns name st m e =
        some (.error (posixipcErr .layoutMismatch)) := by
      simp only [attachSegment, hlaw.mismatch hsize hready hacc, Option.map_some]
      rfl
    rw [hseg]
    exact ⟨_, _, rfl, rfl⟩

end Attach

/-! ## `_attach_queue` and `_attach_futex_queue` -/

section Pickle

open Call

variable {p : Platform} {l : LayoutObj} {e : Expect} {m : SegMem} {r : ℕ} {g : LayoutHandle}

/-- The directory of a segment gives back the slots of its layout. -/
theorem Added.agreesWith_dir (h : Added p l)
    (hb : posixipcLayoutBuild p l.slots = (l.slots, .ok e)) (hm : Agrees m e) :
    AgreesWith (recordAt m) l.slots := by
  obtain ⟨-, hslots, -, -⟩ := h.expect hb
  have hdir := hm.dir
  rw [hslots, Option.getD_some] at hdir
  exact fun i hi => recordAt_of_dirAt hdir hi

/-- What the two functions share refuses a ring whose control words differ. -/
theorem attachRing_otherGeometry (h : Added p l) (hfit : ∀ s ∈ l.slots, s.Fits m)
    (hrec : AgreesWith (recordAt m) l.slots) {front : List ℕ} {need need₀ : ℕ} {blk : List Slot}
    (hblk : RingBlock front need₀ blk)
    (hpos : ∀ j s, blk[j]? = some s → l.slots[g.slot + j]? = some s)
    {view : Ptr → Except Rc RingView}
    (hview : need ≠ 0 → ∀ ptr : Ptr, need ≤ ptr.size → ∃ v, view ptr = .ok v)
    {depth itemSize : ℕ} (hctrl : ¬ CtrlAt m (g.slot + front.length) depth itemSize)
    (spanText kindText sizeText bindText ctrlText : String) (k : LayoutHandle)
    (condFlags : BindCall Unit) (digest : ℕ) (st : BindState) :
    ∃ st' text, Raises (attachRing p m .none front need spanText kindText sizeText k
      (ringBind m r noFaults (dirRecord m) front view depth itemSize bindText ctrlText condFlags
        g.slot) g.slot digest) st st' (.layoutMismatchError text) := by
  have hsrc := source_dirRecord m
  have hraise : ∀ (e : PyError) (st : BindState),
      Raises (Call.raise e : BindCall (Option HandleObj)) st st e := fun e st => ⟨[], rfl⟩
  unfold attachRing
  by_cases hspan : m (.header .layoutDigest) ≠ digest ∨
      u32 (g.slot + (front.length + 1)) > m (.header .slotCount)
  · rw [if_pos hspan]
    exact ⟨st, _, hraise _ _⟩
  · rw [if_neg hspan]
    by_cases hempty : m (.header .slotCount) = 0
    · rw [if_pos hempty]
      exact ⟨st, _, hraise _ _⟩
    · rw [if_neg hempty]
      by_cases hkinds : KindsAt (recordAt m) g.slot 0 (front ++ [kindBytes])
      · obtain ⟨fs, ring, rfl, hfs, hring, hflags, -, -⟩ := hblk
        have hlen : fs.length = front.length := by rw [← hfs, List.length_map]
        obtain ⟨hrecord, -, -⟩ := recs_block h hrec (hpos front.length ring (by rw [← hlen]; simp))
        by_cases hneed : need = 0 ∨ ring.size < need
        · refine ⟨st, sizeText, ?_⟩
          rw [(checkKinds_returns hsrc hkinds).bind_raises_iff, (hsrc _ _).bind_raises_iff,
            hrecord, if_pos hneed]
          exact hraise _ _
        · -- the ring is long enough, and only the control words are left
          have hfits : ∃ v, view ((l.slots.getD (g.slot + front.length) default).ptr r) = .ok v ∧
              RingFits m r (recordAt m) g.slot front view v :=
            ringFits_of_block h hfit hrec
              ⟨fs, ring, rfl, hfs, hring, hflags, by omega, by omega⟩ hpos hview
          obtain ⟨v, -, hrf⟩ := hfits
          have hslot : u32 (g.slot + front.length) = g.slot + front.length := by
            have hat := hpos front.length ring (by rw [← hlen]; simp)
            exact u32_slot h (List.getElem?_eq_some_iff.mp hat).1
          refine ⟨⟨(HandleObj.unbound p k).mapRing r (recordAt m) g.slot front.length v, st.pins⟩,
            ctrlText, ?_⟩
          rw [(checkKinds_returns hsrc hkinds).bind_raises_iff, (hsrc _ _).bind_raises_iff,
            hrecord, if_neg hneed]
          have hregion : Returns (shmobjFromCore .none) st st () := ⟨[], rfl⟩
          have hnew : Returns (newHandle p PickleFaults.none.handle k) st
              { st with obj := HandleObj.unbound p k } () := ⟨[], rfl⟩
          rw [hregion.bind_raises_iff, rebuildHandle, hnew.bind_raises_iff]
          refine Raises.bind ((ringBind_fits hsrc hrf).2 ?_) _
          rwa [hslot]
      · exact ⟨st, kindText, (checkKinds_raises hsrc hkinds).bind _⟩

/-- The tuple of a queue of a class, with the geometry that `__reduce__` puts in or another. -/
def HandleType.pickled (type : HandleType) (first depth itemSize digest : ℕ) : Pickled :=
  match type with
  | .queue _ _ => .queue first depth itemSize digest
  | _ => .futexQueue first depth itemSize digest

/-- **A tuple with another geometry is refused.** -/
theorem attachPickled_otherGeometry (h : Added p l)
    (hb : posixipcLayoutBuild p l.slots = (l.slots, .ok e)) (hm : Agrees m e) (hg : g ∈ l.handles)
    {q : RingSpec} (hq : g.ringSpec = some q) (hctrl : g.CtrlMatches m) {depth itemSize : ℕ}
    (hdepth : 1 ≤ depth) (hitem : 1 ≤ itemSize) (hne : (depth, itemSize) ≠ (q.depth, q.itemSize))
    (digest : ℕ) (hready : m (.header .state) = stateReady) {env : AttachEnv} {turns : ℕ}
    {name : List UInt8} {st : Stat} (hsize : m (.header .totalSize) ≤ st.size)
    (hcalm : Undisturbed env turns name st) :
    ∃ fin text, attachPickled p m r .none env turns name st
      (g.type.pickled g.slot depth itemSize digest) = some fin ∧
      fin.result = .error (.layoutMismatchError text) := by
  have hhead : headerBytes ≤ m (.header .totalSize) := by
    have htotal := (h.builtExpect hb).counted.2
    rw [hm.header.totalSize]
    omega
  have hatt := attachResult_none_ok hcalm hready hm.magic hhead hsize
  have hfit := h.fits hb hm.header
  have hrec := h.agreesWith_dir hb hm
  obtain ⟨blk, hserves, -, -, hpos⟩ := h.block hg
  have hother : ∀ i, CtrlAt m i q.depth q.itemSize → ¬ CtrlAt m i depth itemSize := by
    intro i h1 h2
    exact hne (Prod.ext (h2.1.symm.trans h1.1) (h2.2.symm.trans h1.2))
  have hend : ∀ {c : BindCall (Option HandleObj)} {st' : BindState} {text : String},
      Raises c (noHandle p) st' (.layoutMismatchError text) →
      ∃ fin text, some (c (noHandle p)) = some fin ∧
        fin.result = .error (.layoutMismatchError text) := by
    rintro c st' text ⟨t, ht⟩
    exact ⟨_, text, rfl, by rw [ht]⟩
  have hmatch := LayoutHandle.ctrlMatches_iff.mp hctrl q hq
  unfold LayoutHandle.ringSpec at hq
  unfold LayoutHandle.Serves at hserves
  cases hty : g.type with
  | queue d n =>
    rw [hty] at hq hserves
    obtain rfl := Option.some.inj hq
    rw [attachPickled_eq (by simp [HandleType.pickled, Pickled.argError]; omega) rfl hatt]
    obtain ⟨st', text, hraise⟩ := attachRing_otherGeometry (p := p) (r := r) h hfit hrec hserves
      hpos (fun hn ptr hle => queueView_ok hn hle) (hother _ hmatch) _ _ _ _ _ _ _ digest _
    exact hend hraise
  | futexQueue d n =>
    rw [hty] at hq hserves
    obtain rfl := Option.some.inj hq
    rw [attachPickled_eq (by simp [HandleType.pickled, Pickled.argError]; omega) rfl hatt]
    obtain ⟨st', text, hraise⟩ := attachRing_otherGeometry (p := p) (r := r) h hfit hrec hserves
      hpos (fun hn ptr hle => futexqView_ok hn hle) (hother _ hmatch) _ _ _ _ _ _ _ digest _
    exact hend hraise
  | _ =>
    rw [hty] at hq
    exact nomatch hq

end Pickle

/-! ## Both -/

/-- Every call has made one handle. -/
theorem Adds.length_keys {p : Platform} {a b : LayoutObj} {ops : List AddOp} (ha : Added p a)
    (h : Adds p a ops b) : b.keys.length = a.keys.length + ops.length := by
  induction h with
  | nil l => rfl
  | cons hadd _ ih =>
    obtain ⟨_, _, -, happ⟩ := apply_ok hadd
    rw [ih (ha.step hadd), (happ.keys ha.inv).1, List.length_append, List.length_cons,
      List.length_cons, List.length_nil]
    omega

/-- One call between the others, and its handle. -/
theorem Adds.handle_at {p : Platform} {l : LayoutObj} {front back : List AddOp} {op : AddOp}
    (h : Adds p .empty (front ++ op :: back) l) :
    ∃ l₁ l₂ f, Adds p .empty front l₁ ∧ l₁.apply p op f = (l₂, .ok ()) ∧
      l₁.keys <+: l.keys ∧ ∀ key, l₂.keys = l₁.keys ++ [key] →
        ∃ g, l.handles[front.length]? = some g ∧ (g.type, g.slot) = key := by
  obtain ⟨l₁, hfront, hrest⟩ := h.append
  have hl₁ := hfront.added .empty
  cases hrest with
  | @cons _ l₂ _ _ _ f hadd hback =>
    have hprefix := hback.keys_prefix (hl₁.step hadd)
    obtain ⟨_, _, -, happ⟩ := apply_ok hadd
    refine ⟨l₁, l₂, f, hfront, hadd, ?_, fun key hkeys => ?_⟩
    · refine List.IsPrefix.trans ?_ hprefix
      rw [(happ.keys hl₁.inv).1]
      exact List.prefix_append _ _
    · obtain ⟨rest, hrest⟩ := hprefix
      have hlen : l₁.keys.length = front.length := by
        rw [hfront.length_keys .empty]
        exact Nat.zero_add _
      have hkey : l.keys[front.length]? = some key := by
        rw [← hrest, hkeys, ← hlen, List.append_assoc, List.getElem?_append_right le_rfl,
          Nat.sub_self]
        rfl
      unfold LayoutObj.keys at hkey
      rw [List.getElem?_map] at hkey
      exact Option.map_eq_some_iff.mp hkey

/-- The handle of a queue between other adds. -/
theorem Adds.queue_at {p : Platform} {l : LayoutObj} {front back : List AddOp} {x : AddArgs}
    (hkind : x.kind = .queue ∨ x.kind = .futexQueue)
    (h : Adds p .empty (front ++ .add x :: back) l) :
    ∃ l₁ g, Adds p .empty front l₁ ∧ l.handles[front.length]? = some g ∧ g.type = x.ringType ∧
      g.slot = l₁.nslots ∧ 1 ≤ x.depth ∧ 1 ≤ x.itemSize := by
  obtain ⟨l₁, l₂, f, hfront, hadd, -, hat⟩ := h.handle_at
  obtain ⟨hkeys, hd, hn⟩ := apply_queue hkind (hfront.added .empty) hadd
  obtain ⟨g, hg, hgkey⟩ := hat _ hkeys
  obtain ⟨htype, hslot⟩ := Prod.mk.inj hgkey
  exact ⟨l₁, g, hfront, hg, htype, hslot, hd, hn⟩

/-- A queue with its geometry, as an argument of `add`. -/
def AddArgs.withGeometry (x : AddArgs) (depth itemSize : ℤ) : AddArgs :=
  { x with depth := depth, itemSize := itemSize }

/-- **A queue with another geometry is always refused.**  A program adds a queue, of either
class, between any other adds; the layout is created, and the segment is in use, by operations
on its queues and primitives that may die at any access.  Then `Layout.attach` of the program
with another geometry in place raises `LayoutMismatchError`, and so does `_attach_queue` or
`_attach_futex_queue` with another geometry in the tuple of the handle. -/
theorem other_geometry_refused (p : Platform) (x : AddArgs) (depth itemSize : ℤ)
    (front back : List AddOp) {l l' : LayoutObj}
    (hkind : x.kind = .queue ∨ x.kind = .futexQueue)
    (hne : (depth, itemSize) ≠ (x.depth, x.itemSize))
    (hl : Adds p .empty (front ++ .add x :: back) l)
    (hl' : Adds p .empty (front ++ .add (x.withGeometry depth itemSize) :: back) l')
    {fault : Option PyError} {m₀ m : SegMem}
    (hm₀ : (l.inst p).Mapped p (createSegment p fault (ringSpecs l.handles)) m₀)
    (huse : SegmentUse m₀ m) (r : ℕ) {env : AttachEnv} {turns : ℕ} {name : List UInt8} {st : Stat}
    (hsize : m (.header .totalSize) ≤ st.size) (hcalm : Undisturbed env turns name st) :
    (∃ y text, layoutOpen p r (fun _ => noFaults) (attachSegment none none env turns name st m)
      (l'.inst p) = some y ∧ y.result = .error (.layoutMismatchError text)) ∧
    ∃ g, l.handles[front.length]? = some g ∧ g.type = x.ringType ∧
      ∀ digest, ∃ fin text, attachPickled p m r .none env turns name st
        (g.type.pickled g.slot depth.toNat itemSize.toNat digest) = some fin ∧
        fin.result = .error (.layoutMismatchError text) := by
  have ha := hl.added .empty
  have ha' := hl'.added .empty
  obtain ⟨l₁, g, hfront, hg, htype, hslot, hd, hn⟩ := hl.queue_at hkind
  obtain ⟨l₁', g', hfront', hg', htype', hslot', hd', hn'⟩ :=
    hl'.queue_at (x := x.withGeometry depth itemSize) hkind
  have hd' : 1 ≤ depth := hd'
  have hn' : 1 ≤ itemSize := hn'
  have hsame : g'.slot = g.slot := by
    rw [hslot, hslot']
    exact (hfront'.keys_congr .empty .empty rfl rfl hfront).2
  have hnat : (depth.toNat, itemSize.toNat) ≠ (x.depth.toNat, x.itemSize.toNat) := by
    intro heq
    obtain ⟨h1, h2⟩ := Prod.mk.inj heq
    exact hne (Prod.ext (by show depth = x.depth; omega) (by show itemSize = x.itemSize; omega))
  -- the segment
  obtain ⟨e, hb⟩ := ha.built
  obtain ⟨e', hb'⟩ := ha'.built
  obtain ⟨hready₀, hagree₀, hctrl₀⟩ := createSegment_content ha hb ((ha.mapped_iff hb _).mp hm₀)
  have hagree := huse.agrees hagree₀
  have hready : m (.header .state) = stateReady :=
    (huse.settled (c := .header .state) trivial).trans hready₀
  have hgm := List.mem_of_getElem? hg
  have hmatch : g.CtrlMatches m := LayoutHandle.ctrlMatches_iff.mpr fun q hq =>
    (huse.ctrlAt_iff _ _ _).mpr (LayoutHandle.ctrlMatches_iff.mp (hctrl₀ g hgm) q hq)
  have hhead : headerBytes ≤ st.size := by
    have htotal := (ha.builtExpect hb).counted.2
    have hword := hagree.header.totalSize
    omega
  -- the two handles have their rings in one slot
  have hrings : ∃ q, g.ringSpec = some q ∧
      (q.depth, q.itemSize) = (x.depth.toNat, x.itemSize.toNat) ∧
      g'.ringSpec = some { q with depth := depth.toNat, itemSize := itemSize.toNat } := by
    unfold LayoutHandle.ringSpec
    rw [htype, htype', hsame]
    unfold AddArgs.ringType AddArgs.withGeometry
    rcases hkind with hk | hk
    · simp only [hk, if_true]
      exact ⟨_, rfl, rfl, rfl⟩
    · simp only [hk, reduceCtorEq, if_false]
      exact ⟨_, rfl, rfl, rfl⟩
  obtain ⟨q, hq, hqeq, hq'⟩ := hrings
  constructor
  · refine attach_otherGeometry ha' hb' (List.mem_of_getElem? hg') ?_ hready hhead hcalm
    intro hmatch'
    obtain ⟨h1, h2⟩ := LayoutHandle.ctrlMatches_iff.mp hmatch q hq
    obtain ⟨h1', h2'⟩ := LayoutHandle.ctrlMatches_iff.mp hmatch' _ hq'
    refine hnat (hqeq ▸ Prod.ext ?_ ?_)
    · exact h1'.symm.trans h1
    · exact h2'.symm.trans h2
  · refine ⟨g, hg, htype, fun digest => ?_⟩
    exact attachPickled_otherGeometry ha hb hagree hgm hq hmatch (by omega) (by omega)
      (hqeq ▸ hnat) digest hready hsize hcalm

/-! ## A mutex and a queue of one item -/

/-- `layout.add(Queue, depth=, item_size=)`. -/
def queueArgs (depth itemSize : ℤ) : AddArgs :=
  ⟨.queue, .absent, false, true, none, 0, 0, depth, itemSize⟩

/-- A mutex, and a queue. -/
def mutexAndQueue (depth itemSize : ℤ) : LayoutObj :=
  addTwo addMutex (.add (queueArgs depth itemSize))

/-- What the layout with a queue of one item of one byte expects. -/
def mutexAndQueueExpect : Expect :=
  (posixipcLayoutBuild glibcX86 (mutexAndQueue 1 1).slots).2.toOption.getD oneMutex

/-- The segment that it creates. -/
def mutexAndQueueSegment : SegMem :=
  Function.update (Prog.exec (initSegment 64 mutexAndQueueExpect
    (ringSpecs (mutexAndQueue 1 1).handles)) fun _ => 0).2 (.header .state) stateReady

/-- The same after a `put` that died at its first store. -/
def mutexAndQueueBroken : SegMem :=
  Function.update mutexAndQueueSegment (.ring 5 (.state 0)) queueReservedPut

theorem adds_mutexAndQueue (depth itemSize : ℤ)
    (h : ((LayoutObj.empty.apply glibcX86 addMutex .none).1.apply glibcX86
      (.add (queueArgs depth itemSize)) .none).2 = .ok ()) :
    Adds glibcX86 .empty ([addMutex] ++ [.add (queueArgs depth itemSize)])
      (mutexAndQueue depth itemSize) :=
  .cons (Prod.ext rfl (by decide +kernel)) (.cons (Prod.ext rfl h) (.nil _))

/-- The first store of a `put` that has found the queue empty. -/
theorem put_reserves : ∃ k, Prog.Residual
    (RingOp.put ⟨some 0, some 0, some 0, 1, 1, 64⟩ fun _ => 0).prog
    (.store (.state 0) queueReservedPut k) := by
  obtain ⟨k, hcount, k', htail, k'', hstore⟩ :
      ∃ k, (RingOp.put ⟨some 0, some 0, some 0, 1, 1, 64⟩ fun _ => 0).prog = .load .count k ∧
        ∃ k', k 0 = .load .tail k' ∧
          ∃ k'', k' 0 = .store (.state 0) queueReservedPut k'' :=
    ⟨_, rfl, _, rfl, _, rfl⟩
  refine ⟨k'', ?_⟩
  rw [hcount, ← hstore]
  have h : Prog.Residual (.load .count k) (.load .tail k') := by
    rw [← htail]
    exact .afterLoad .whole 0
  exact .afterLoad h 0

/-- Items of one byte and of two bytes take the same bytes of the segment. -/
theorem other_geometry_refused_two :
    (mutexAndQueue 1 1).slots.map (fun s => (s.offset, s.size)) =
      (mutexAndQueue 1 2).slots.map (fun s => (s.offset, s.size)) ∧
    (∃ y text, layoutOpen glibcX86 0 (fun _ => noFaults)
      (attachSegment none none calmEnv 1 queueName ⟨1000, 384, mutexAndQueueExpect.totalSize⟩
        mutexAndQueueBroken) ((mutexAndQueue 1 2).inst glibcX86) = some y ∧
      y.result = .error (.layoutMismatchError text)) ∧
    ∃ g, (mutexAndQueue 1 1).handles[1]? = some g ∧ g.type = .queue 1 1 ∧
      ∀ digest, ∃ fin text, attachPickled glibcX86 mutexAndQueueBroken 0 .none calmEnv 1 queueName
        ⟨1000, 384, mutexAndQueueExpect.totalSize⟩ (g.type.pickled g.slot 1 2 digest) = some fin ∧
        fin.result = .error (.layoutMismatchError text) := by
  have hl := adds_mutexAndQueue 1 1 (by decide +kernel)
  have hl' := adds_mutexAndQueue 1 2 (by decide +kernel)
  have hm₀ : ((mutexAndQueue 1 1).inst glibcX86).Mapped glibcX86
      (createSegment glibcX86 none (ringSpecs (mutexAndQueue 1 1).handles))
      mutexAndQueueSegment := by
    refine ((hl.added .empty).mapped_iff (e := mutexAndQueueExpect) (by decide +kernel) _).mpr ?_
    have hok : (Prog.exec (initSegment 64 mutexAndQueueExpect
        (ringSpecs (mutexAndQueue 1 1).handles)) fun _ => 0).1 = .ok := by decide +kernel
    unfold createSegment
    exact if_neg (not_not.mpr hok)
  have huse : SegmentUse mutexAndQueueSegment mutexAndQueueBroken := by
    obtain ⟨k, hk⟩ := put_reserves
    exact .ring 5 .start hk
  have hsize : mutexAndQueueBroken (.header .totalSize) ≤
      (⟨1000, 384, mutexAndQueueExpect.totalSize⟩ : Stat).size := by
    decide +kernel
  have hcalm : Undisturbed calmEnv 1 queueName ⟨1000, 384, mutexAndQueueExpect.totalSize⟩ :=
    ⟨calmEnv_clean, by decide, by decide, rfl, rfl, by decide⟩
  obtain ⟨hattach, g, hg, htype, hpickle⟩ := other_geometry_refused glibcX86 (queueArgs 1 1) 1 2
    [addMutex] [] (Or.inl rfl) (by decide) hl hl' hm₀ huse 0 hsize hcalm
  exact ⟨by decide +kernel, hattach, g, hg, htype, hpickle⟩

end PosixIpc
