/-
# Incremental and one-shot builds

Every add builds the whole slot list anew, on slots that earlier builds have filled in.

* `Slot.Alike p` : the two slots have the same kind, effective alignment, effective size and
  flags; alike lists are built alike (`posixipcLayoutBuild_congr`);
* `Slot.Steady p` : a placed slot is alike to the slot that was asked for;
* `AddRun p l req` : the layout `l` is what successful adds have made of the slots `req` that
  they asked for;
* `incremental_eq_oneShot` : the layout is the one-shot build of `req`, and its handles know
  where their slots are.
-/
import PosixIpc.LayoutBlocks

namespace PosixIpc

open Word32

/-! ## Lists that are built alike -/

/-- What a build uses of a slot. -/
structure Slot.Alike (p : Platform) (s s' : Slot) : Prop where
  kind : s'.kind = s.kind
  effAlign : s'.effAlign p = s.effAlign p
  effSize : s'.effSize p = s.effSize p
  initFlags : s'.initFlags = s.initFlags

theorem Slot.Alike.refl (p : Platform) (s : Slot) : Slot.Alike p s s := ⟨rfl, rfl, rfl, rfl⟩

theorem Slot.Alike.symm {p : Platform} {s s' : Slot} (h : Slot.Alike p s s') :
    Slot.Alike p s' s := ⟨h.kind.symm, h.effAlign.symm, h.effSize.symm, h.initFlags.symm⟩

/-- Alike slots are stored as the same record. -/
theorem Slot.Alike.place {p : Platform} {s s' : Slot} (h : Slot.Alike p s s') (off : ℕ) :
    s'.place p off = s.place p off := by
  show Slot.mk s'.kind _ off _ s'.initFlags = Slot.mk s.kind _ off _ s.initFlags
  rw [h.kind, h.effAlign, h.effSize, h.initFlags]

section Congr

variable {p : Platform}

theorem buildSlots_congr {a b out : List Slot} {cursor total : ℕ}
    (hab : List.Forall₂ (Slot.Alike p) a b) (h : buildSlots p cursor a = (out, .ok total)) :
    buildSlots p cursor b = (out, .ok total) := by
  induction hab generalizing cursor out with
  | nil => exact h
  | @cons s s' a b hs _ ih =>
      obtain ⟨out', hal, hsz, h0, hfit, rfl, hrest⟩ := buildSlots_cons h
      rw [← hs.effAlign] at hal h0 hfit hrest
      rw [← hs.effSize] at hsz hfit hrest
      rw [buildSlots, if_neg (by push Not; exact ⟨hal, hsz⟩)]
      simp only
      rw [if_neg (by push Not; exact fun hzero => h0.resolve_left (not_not.mpr hzero)),
        if_neg (by omega), ih hrest, hs.place, hs.effAlign]

/-- **Lists with the same kinds, effective alignments, effective sizes and flags are built
alike**: they get the same records, total size and digest. -/
theorem posixipcLayoutBuild_congr {a b out : List Slot} {e : Expect}
    (hn : a.length ≤ 0xffff) (hab : List.Forall₂ (Slot.Alike p) a b)
    (h : posixipcLayoutBuild p a = (out, .ok e)) : posixipcLayoutBuild p b = (out, .ok e) := by
  have hfits : ¬(a.length ≠ 0 ∧ u32 (a.length * sizeofSlot) / sizeofSlot ≠ a.length) := by
    rw [u32_of_lt (by unfold sizeofSlot; omega)]
    unfold sizeofSlot
    omega
  unfold posixipcLayoutBuild at h ⊢
  simp only [← hab.length_eq] at h ⊢
  rw [if_neg hfits] at h ⊢
  cases hr : (buildSlots p (u32 (headerBytes + u32 (a.length * sizeofSlot))) a).2 with
  | error rc =>
      rw [hr] at h
      exact absurd (congrArg Prod.snd h) (by simp)
  | ok total =>
      rw [buildSlots_congr hab (Prod.ext rfl hr)]
      rw [hr] at h
      exact h

/-- A list that was built is alike to the list it was built from. -/
theorem forall₂_alike_build {a out : List Slot} {cursor total : ℕ}
    (hs : ∀ s ∈ a, ∀ off, (s.place p off).effAlign p = s.effAlign p)
    (h : buildSlots p cursor a = (out, .ok total)) : List.Forall₂ (Slot.Alike p) a out := by
  induction a generalizing cursor out with
  | nil =>
      obtain rfl : ([] : List Slot) = out := congrArg Prod.fst h
      exact .nil
  | cons s rest ih =>
      obtain ⟨out', -, hsz, -, -, rfl, hrest⟩ := buildSlots_cons h
      refine .cons ⟨rfl, hs s List.mem_cons_self _, ?_, rfl⟩
        (ih (fun x hx => hs x (List.mem_cons_of_mem s hx)) hrest)
      -- the size that was stored is not `0`, so it is used as it is
      exact if_pos hsz

end Congr

/-! ## The alignment survives its field -/

/-- The stored alignment means the alignment that it was computed from. -/
def Slot.Steady (p : Platform) (s : Slot) : Prop :=
  ∀ off, (s.place p off).effAlign p = s.effAlign p

/-- It does so if it fits the field, or if nothing of it is stored. -/
theorem Slot.steady_of {p : Platform} {s : Slot}
    (h : s.effAlign p < 2 ^ 16 ∨ s.effAlign p % 2 ^ 16 = 0 ∧ s.align = 0) : s.Steady p := by
  intro off
  have hplace : (s.place p off).align = s.effAlign p % 2 ^ 16 := rfl
  by_cases h0 : s.effAlign p % 2 ^ 16 = 0
  · -- the field is `0`: the next build asks the kind again
    have hkind : (s.place p off).effAlign p = p.posixipcKindAlign s.kind := by
      rw [Slot.effAlign, if_neg (not_not.mpr (hplace.trans h0))]
      rfl
    rw [hkind]
    unfold Slot.effAlign at h h0 ⊢
    by_cases ha : s.align = 0
    · rw [if_neg (not_not.mpr ha)]
    · rw [if_pos ha] at h h0
      rcases h with h | h
      · omega
      · exact absurd h.2 ha
  · rw [Slot.effAlign, if_pos (by rw [hplace]; exact h0), hplace]
    rcases h with h | h
    · exact Nat.mod_eq_of_lt h
    · exact absurd h.1 h0

/-- The alignment of a primitive is a power of two. -/
theorem pow_mod_sixteen (k : ℕ) : 2 ^ k < 2 ^ 16 ∨ 2 ^ k % 2 ^ 16 = 0 := by
  by_cases hk : k < 16
  · exact Or.inl (Nat.pow_lt_pow_right (by norm_num) hk)
  · exact Or.inr (Nat.mod_eq_zero_of_dvd (pow_dvd_pow 2 (by omega)))

theorem Slot.steady {p : Platform} {s : Slot} (hs : s.Short)
    (hbytes : s.align = 0 → s.kind = kindBytes →
      p.cacheline < 2 ^ 16 ∨ p.cacheline % 2 ^ 16 = 0) : s.Steady p := by
  by_cases ha : s.align = 0
  · have hal : s.effAlign p = p.posixipcKindAlign s.kind := if_neg (not_not.mpr ha)
    refine Slot.steady_of ?_
    rw [hal]
    unfold Platform.posixipcKindAlign
    cases hprim : p.primOf s.kind with
    | some t =>
        obtain ⟨k, hk⟩ := p.alignof_pow t
        simp only [hk]
        rcases pow_mod_sixteen k with h | h
        · exact Or.inl h
        · exact Or.inr ⟨h, ha⟩
    | none =>
        simp only
        by_cases hk : s.kind = kindBytes
        · rw [if_pos hk]
          rcases hbytes ha hk with h | h
          · exact Or.inl h
          · exact Or.inr ⟨h, ha⟩
        · rw [if_neg hk]
          exact Or.inl (by norm_num)
  · have hal : s.effAlign p = s.align := if_pos ha
    exact Slot.steady_of (Or.inl (by rw [hal]; exact hs))

theorem Slot.Sound.steady {p : Platform} {s : Slot} (h : s.Sound p) : s.Steady p :=
  Slot.steady h.short fun ha hk => Or.inr (h.bytes ha hk)

/-- **Building a built list changes nothing.** -/
theorem posixipcLayoutBuild_rebuild {p : Platform} {slots out : List Slot} {e : Expect}
    (hn : slots.length ≤ 0xffff) (hs : ∀ s ∈ slots, s.Steady p)
    (h : posixipcLayoutBuild p slots = (out, .ok e)) :
    posixipcLayoutBuild p out = (out, .ok e) :=
  posixipcLayoutBuild_congr hn (forall₂_alike_build hs (posixipcLayoutBuild_ok hn h).1) h

/-! ## Runs of adds -/

/-- The layout `l` is what successful adds have made of the slots that they asked for. -/
inductive AddRun (p : Platform) : LayoutObj → List Slot → Prop
  | empty : AddRun p .empty []
  | step {l l' : LayoutObj} {op : AddOp} {fault : AllocFault} {req blk : List Slot}
      {h : LayoutHandle} : AddRun p l req → op.request p l = some (h, blk) →
      l.apply p op fault = (l', .ok ()) → AddRun p l' (req ++ blk)

theorem AddRun.added {p : Platform} {l : LayoutObj} {req : List Slot} (h : AddRun p l req) :
    Added p l := by
  induction h with
  | empty => exact .empty
  | step _ _ hadd ih => exact ih.step hadd

/-- Every sequence of successful adds is such a run. -/
theorem Added.run {p : Platform} {l : LayoutObj} (h : Added p l) : ∃ req, AddRun p l req := by
  induction h with
  | empty => exact ⟨[], .empty⟩
  | step _ hadd ih =>
      obtain ⟨req, hrun⟩ := ih
      obtain ⟨h, blk, hreq, -⟩ := apply_ok hadd
      exact ⟨req ++ blk, hrun.step hreq hadd⟩

/-- The slots of a run: how many were asked for, and their alignments. -/
theorem AddRun.requested {p : Platform} {l : LayoutObj} {req : List Slot} (h : AddRun p l req) :
    req.length = l.nslots ∧ ∀ s ∈ req, s.Sound p := by
  induction h with
  | empty => exact ⟨rfl, by simp⟩
  | @step l l' op fault req blk g hrun hreq hadd ih =>
      obtain ⟨g', blk', hreq', happ⟩ := apply_ok hadd
      obtain ⟨rfl, rfl⟩ : g' = g ∧ blk' = blk := by simpa [hreq] using hreq'.symm
      obtain ⟨cap, hsync⟩ := happ.sync
      obtain ⟨e, hbuild, -, -⟩ := layoutSync_ok hsync
      have hlen := (kept_buildSlots (posixipcLayoutBuild_ok
        (by rw [List.length_append]; exact happ.count) hbuild).1).length_eq
      refine ⟨?_, fun s hs => ?_⟩
      · rw [List.length_append, ih.1, LayoutObj.nslots, LayoutObj.nslots, ← hlen,
          List.length_append]
      · rcases List.mem_append.mp hs with hs | hs
        · exact ih.2 s hs
        · exact (happ.request.serves hrun.added.inv).sound s hs

/-- **The incremental builds agree with the one-shot build.** -/
theorem AddRun.built {p : Platform} {l : LayoutObj} {req : List Slot} (h : AddRun p l req) :
    ∃ e, posixipcLayoutBuild p req = (l.slots, .ok e) := by
  induction h with
  | empty => exact ⟨_, rfl⟩
  | @step l l' op fault req blk g hrun hreq hadd ih =>
      obtain ⟨e₀, hbuilt⟩ := ih
      obtain ⟨g', blk', hreq', happ⟩ := apply_ok hadd
      obtain ⟨rfl, rfl⟩ : g' = g ∧ blk' = blk := by simpa [hreq] using hreq'.symm
      obtain ⟨hlen, hsound⟩ := hrun.requested
      obtain ⟨cap, hsync⟩ := happ.sync
      obtain ⟨e, hbuild, -, -⟩ := layoutSync_ok hsync
      refine ⟨e, posixipcLayoutBuild_congr (by rw [List.length_append]; exact happ.count) ?_
        hbuild⟩
      -- the old slots are alike to those that were asked for, the new ones are the same
      have hn : req.length ≤ 0xffff := by
        have := happ.count
        omega
      have hold := forall₂_alike_build (fun s hs => (hsound s hs).steady)
        (posixipcLayoutBuild_ok hn hbuilt).1
      refine List.rel_append (hold.flip.imp fun a b hab => hab.symm) ?_
      exact List.forall₂_same.mpr fun s _ => .refl p s

/-! ## What the handles know -/

/-- The handle knows where its first slot is. -/
def LayoutHandle.Tracks (h : LayoutHandle) (slots : List Slot) : Prop :=
  ∃ s, slots[h.slot]? = some s ∧
    h.record.offset = s.offset ∧ h.record.size = s.size ∧ h.record.align = s.align

/-- A handle of one slot, or a MutexArray; the handle of a queue has no such fields. -/
def LayoutHandle.HasRecord (h : LayoutHandle) : Prop :=
  (∀ d n, h.type ≠ .queue d n) ∧ ∀ d n, h.type ≠ .futexQueue d n

theorem syncHandles_range {slots : List Slot} {hs hs' : List LayoutHandle}
    (h : syncHandles slots hs = (hs', .ok ())) : ∀ g ∈ hs, g.slot < slots.length := by
  induction hs generalizing hs' with
  | nil => simp
  | cons g rest ih =>
      unfold syncHandles at h
      by_cases hc : g.count = 0 ∨ g.slot ≥ slots.length ∨ u32 (g.slot + g.count) > slots.length
      · rw [if_pos hc] at h
        exact absurd (congrArg Prod.snd h) (by simp)
      · rw [if_neg hc] at h
        push Not at hc
        obtain ⟨-, h2⟩ := Prod.ext_iff.mp h
        intro x hx
        rcases List.mem_cons.mp hx with rfl | hx
        · exact hc.2.1
        · exact ih (Prod.ext rfl h2) x hx

theorem LayoutHandle.HasRecord.applySlotMeta {h : LayoutHandle} (hr : h.HasRecord) (s : Slot) :
    h.applySlotMeta s = { h with record :=
      { h.record with align := s.align, offset := s.offset, size := s.size } } := by
  unfold LayoutHandle.applySlotMeta
  split
  · rename_i d n ht
    exact absurd ht (hr.1 d n)
  · rename_i d n ht
    exact absurd ht (hr.2 d n)
  · rfl

/-- After a build every such handle knows where its slot is. -/
theorem layoutSync_tracks {p : Platform} {l l' : LayoutObj} (h : layoutSync p l = (l', .ok ()))
    {g : LayoutHandle} (hg : g ∈ l'.handles) (hr : g.HasRecord) : g.Tracks l'.slots := by
  obtain ⟨e, hbuild, hhandles, -⟩ := layoutSync_ok h
  have hsync : syncHandles l'.slots l.handles = (l'.handles, .ok ()) := by
    unfold layoutSync at h
    rw [hbuild] at h
    simp only at h
    obtain ⟨h1, h2⟩ := Prod.ext_iff.mp h
    exact Prod.ext (congrArg LayoutObj.handles h1) h2
  rw [hhandles] at hg
  obtain ⟨k, hk, rfl⟩ := List.mem_map.mp hg
  have hrange := syncHandles_range hsync k hk
  have hkr : k.HasRecord := by
    simpa [LayoutHandle.HasRecord] using hr
  have hget : l'.slots.getD k.slot default = l'.slots[k.slot] := by
    rw [List.getD_eq_getElem?_getD, List.getElem?_eq_getElem hrange, Option.getD_some]
  rw [hkr.applySlotMeta]
  exact ⟨l'.slots[k.slot], List.getElem?_eq_getElem hrange, by rw [hget], by rw [hget],
    by rw [hget]⟩

theorem Added.tracks {p : Platform} {l : LayoutObj} (h : Added p l) {g : LayoutHandle}
    (hg : g ∈ l.handles) (hr : g.HasRecord) : g.Tracks l.slots := by
  cases h with
  | empty => simp [LayoutObj.empty] at hg
  | step _ hadd =>
      obtain ⟨_, _, _, happ⟩ := apply_ok hadd
      obtain ⟨cap, hsync⟩ := happ.sync
      exact layoutSync_tracks hsync hg hr

/-- **Incremental and one-shot builds agree**: after any successful adds the slots, the total
size and the digest are those of one build of the slots that were asked for, and a rebuild
changes nothing; alike lists are built alike; and the handles know where their slots are. -/
theorem incremental_eq_oneShot (p : Platform) :
    (∀ l req, AddRun p l req → ∃ e, posixipcLayoutBuild p req = (l.slots, .ok e) ∧
      posixipcLayoutBuild p l.slots = (l.slots, .ok e)) ∧
    (∀ slots out e, p.cacheline.isPowerOfTwo → slots.length ≤ 0xffff →
      (∀ s ∈ slots, s.Short) → posixipcLayoutBuild p slots = (out, .ok e) →
      posixipcLayoutBuild p out = (out, .ok e)) ∧
    (∀ a b out e, a.length ≤ 0xffff → List.Forall₂ (Slot.Alike p) a b →
      posixipcLayoutBuild p a = (out, .ok e) → posixipcLayoutBuild p b = (out, .ok e)) ∧
    (∀ l, Added p l → ∀ h ∈ l.handles, h.HasRecord → h.Tracks l.slots) := by
  refine ⟨fun l req hrun => ?_, fun slots out e hc hn hshort hb => ?_,
    fun a b out e hn hab hb => posixipcLayoutBuild_congr hn hab hb,
    fun l h g hg hr => h.tracks hg hr⟩
  · obtain ⟨e, hbuilt⟩ := hrun.built
    obtain ⟨hlen, hsound⟩ := hrun.requested
    have hn : req.length ≤ 0xffff := by
      rw [hlen]
      exact hrun.added.inv.count
    exact ⟨e, hbuilt,
      posixipcLayoutBuild_rebuild hn (fun s hs => (hsound s hs).steady) hbuilt⟩
  · refine posixipcLayoutBuild_rebuild hn (fun s hs => Slot.steady (hshort s hs) fun _ _ => ?_) hb
    obtain ⟨k, hk⟩ := hc
    rw [hk]
    exact pow_mod_sixteen k

/-- `layout.add(Mutex)`. -/
def addMutex : AddOp := .add ⟨.mutex, .absent, false, true, none, 0, 0, 0, 0⟩

/-- A mutex, and then a blob of 100 bytes. -/
def mutexThenBlob : LayoutObj :=
  ((LayoutObj.empty.apply glibcX86 addMutex .none).1.apply glibcX86 (.addBytes 100) .none).1

/-- The mutex moves from offset 80 to 96 when the blob is added. -/
theorem incremental_eq_oneShot_mutex_blob :
    mutexThenBlob.slots = [⟨kindMutex, 8, 96, 64, 2⟩, ⟨kindBytes, 64, 192, 128, 0⟩] ∧
      ∃ e, posixipcLayoutBuild glibcX86 [⟨kindMutex, 0, 0, 0, 2⟩, ⟨kindBytes, 64, 0, 128, 0⟩]
        = (mutexThenBlob.slots, .ok e) ∧
        posixipcLayoutBuild glibcX86 mutexThenBlob.slots = (mutexThenBlob.slots, .ok e) := by
  have hmutex : LayoutObj.empty.apply glibcX86 addMutex .none
      = ((LayoutObj.empty.apply glibcX86 addMutex .none).1, .ok ()) := by decide +kernel
  have hblob : (LayoutObj.empty.apply glibcX86 addMutex .none).1.apply glibcX86 (.addBytes 100)
      .none = (mutexThenBlob, .ok ()) := by decide +kernel
  have hrun : AddRun glibcX86 mutexThenBlob
      [⟨kindMutex, 0, 0, 0, 2⟩, ⟨kindBytes, 64, 0, 128, 0⟩] :=
    (AddRun.empty.step rfl hmutex).step (h := posixipcBytesNewUnbound glibcX86 128 1)
      (by decide +kernel) hblob
  exact ⟨by decide +kernel, (incremental_eq_oneShot glibcX86).1 _ _ hrun⟩

end PosixIpc
