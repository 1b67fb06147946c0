/-
# The pins of a region

What the pins and the references of a region count, in every run of the operations.

* `World.held` : the pins that open handles, unreleased buffers and live capsules account for;
* `Mode` : what is asked of a run: that no pin leaks (`exact`), that the counter does not wrap
  (`fits`), that buffers (`views`), calls in flight (`calls`) or raw pointers (`pointers`) are
  looked at;
* `Books` : the invariant, and what the parts of the operations do to it.
-/
import PosixIpc.RegionObjects

namespace PosixIpc

open Ledger

/-! ## Shares -/

section Shares

variable (r : ℕ)

/-- The pins that an object accounts for; a handle accounts for one pin of the region it refers
to. -/
def PyBuffer.share (v : PyBuffer) : ℕ := if v.holds r then 1 else 0
def Capsule.share (c : Capsule) : ℕ := if c.holds r then 1 + c.retains else 0

end Shares

/-- The pins of `r` that the objects account for. -/
def World.held (w : World) (r : ℕ) : ℕ :=
  total (Handle.regionRefs r) w.handles + total (PyBuffer.share r) w.views +
    total (Capsule.share r) w.capsules

/-- What is asked of a run. -/
structure Mode where
  /-- No pin leaks. -/
  exact : Prop
  /-- There are fewer than `2 ^ 32` pins. -/
  fits : Prop
  /-- A handle keeps the region that its buffers lead into. -/
  views : Prop
  /-- The handles of a call in flight stay as they are. -/
  calls : Prop
  /-- The raw pointers of a handle lead where it is bound to. -/
  pointers : Prop
  views_of_exact : exact → views
  pointers_of_calls : calls → pointers

variable {M : Mode} {w w' : World} {r h : ℕ} {hd hd' : Handle}

/-- The references of the handles to `r`. -/
def World.bindings (w : World) (r : ℕ) : ℕ := total (Handle.regionRefs r) w.handles

/-- The counters cover what they count. -/
structure Accounts (M : Mode) (w : World) : Prop where
  pins_ge : ∀ r, (w.held r : ℤ) ≤ (w.regions r).pins
  pins_eq : M.exact → ∀ r, (w.regions r).pins = w.held r
  refs_ge : ∀ r, w.heldRegionRefs r ≤ (w.regions r).refs
  unborn : ∀ r, w.nregions ≤ r → w.regions r = default
  /-- What a handle refers to is mapped. -/
  live : M.fits → ∀ r, w.bindings r ≠ 0 → (w.regions r).isClosed = false

/-- No unreleased buffer is exported by the handle `h`. -/
def World.NotExported (w : World) (h : ℕ) : Prop :=
  ∀ v ∈ w.views, v.released = false → v.exporter ≠ .bytes h

/-- No call in flight uses the handle `h`. -/
def World.NotInUse (w : World) (h : ℕ) : Prop :=
  ∀ c ∈ w.calls, c.active → c.self ≠ h ∧ ∀ m r, c.mutex = some (m, r) → m ≠ h

/-- The handle refers to `r`. -/
def World.BoundTo (w : World) (h r : ℕ) : Prop :=
  ∃ hd, w.handles[h]? = some hd ∧ hd.region = some r

/-- The handle that exported a buffer into `r` refers to `r`, or it has let `r` go. -/
def World.Exports (M : Mode) (w : World) (h r : ℕ) : Prop :=
  ∃ hd, w.handles[h]? = some hd ∧ (hd.region = some r ∨ (hd.region = none ∧ ¬ M.views))

/-- What a call in flight relies on: its handles refer to what its pointers lead into, and the
condition has still its mutex. -/
def World.Backed (w : World) (c : InFlight) : Prop :=
  w.BoundTo c.self c.region ∧ ∀ m r, c.mutex = some (m, r) →
    w.BoundTo m r ∧ ∃ hd, w.handles[c.self]? = some hd ∧ hd.mutex = some m

/-- Nothing pointed into the mapping. -/
def Unmap.Clean (M : Mode) (e : Unmap) : Prop :=
  e.handles = false ∧ (M.views → e.views = false) ∧ e.capsules = false ∧
    (M.calls → e.calls = false) ∧ (M.pointers → e.pointers = false)

/-- The raw pointers lead into the region; those of a queue if it is open and bound. -/
def Handle.Sound (hd : Handle) : Prop :=
  hd.kind ≠ .bytes → (hd.kind = .queue → hd.closed = false ∧ hd.bound = true) → hd.ptr = hd.region

/-- **The invariant.** -/
structure Books (M : Mode) (w : World) : Prop where
  acc : Accounts M w
  exported : ∀ v ∈ w.views, v.released = false → ∀ h, v.exporter = .bytes h →
    w.Exports M h v.target
  own : ∀ v ∈ w.views, ∀ r, v.exporter = .region r → v.target = r
  log : M.fits → ∀ e ∈ w.log, e.Clean M
  backed : M.calls → ∀ c ∈ w.calls, c.active → w.Backed c
  sound : M.pointers → ∀ hd ∈ w.handles, hd.Sound
  shut : M.exact → ∀ hd ∈ w.handles, hd.closed = true → hd.region = none

/-! ## Counting -/

/-- A step keeps the account if no region has fewer pins and references beyond those that are held
than before. -/
theorem Accounts.shift (h : Accounts M w) (hn : w'.nregions = w.nregions)
    (hpins : ∀ r, (w.regions r).pins - w.held r ≤ (w'.regions r).pins - w'.held r)
    (hexact : M.exact → ∀ r, (w'.regions r).pins - w'.held r = (w.regions r).pins - w.held r)
    (hrefs : ∀ r, (w.regions r).refs + w'.heldRegionRefs r ≤
      (w'.regions r).refs + w.heldRegionRefs r)
    (hunborn : ∀ r, w.nregions ≤ r → w'.regions r = w.regions r)
    (hlive : M.fits → ∀ r, w'.bindings r ≠ 0 → (w'.regions r).isClosed = false ∨
      (w.bindings r ≠ 0 ∧ (w'.regions r).isClosed = (w.regions r).isClosed)) :
    Accounts M w' where
  pins_ge r := by
    have h1 := h.pins_ge r
    have h2 := hpins r
    omega
  pins_eq he r := by
    have h1 := h.pins_eq he r
    have h2 := hexact he r
    omega
  refs_ge r := by
    have h1 := h.refs_ge r
    have h2 := hrefs r
    omega
  unborn r hr := by
    rw [hn] at hr
    rw [hunborn r hr, h.unborn r hr]
  live hf r hr := by
    rcases hlive hf r hr with hopen | ⟨hheld, hsame⟩
    · exact hopen
    · rw [hsame]
      exact h.live hf r hheld

/-- No handle is bound, and no region is closed or opened. -/
theorem live_same (hle : ∀ r, w'.bindings r ≤ w.bindings r)
    (hflag : ∀ r, (w'.regions r).isClosed = (w.regions r).isClosed) :
    M.fits → ∀ r, w'.bindings r ≠ 0 → (w'.regions r).isClosed = false ∨
      (w.bindings r ≠ 0 ∧ (w'.regions r).isClosed = (w.regions r).isClosed) := by
  intro _ r hr
  have hr' := hle r
  exact .inr ⟨by omega, hflag r⟩

/-- A region with a reference exists. -/
theorem Accounts.lt_nregions (h : Accounts M w) (hr : (w.regions r).refs ≠ 0) :
    r < w.nregions := by
  by_contra hlt
  rw [h.unborn r (not_lt.mp hlt)] at hr
  exact hr rfl

section Change

variable (w) (r)

/-- Writing a handle moves the pins of a region by what the handle holds of it. -/
theorem held_setHandle (hd' : Handle) (hh : w.handles[h]? = some hd) :
    (w.setHandle h hd').held r + hd.regionRefs r = w.held r + hd'.regionRefs r := by
  have hset := total_set (w := Handle.regionRefs r) (b := hd') hh
  simp only [World.held, World.setHandle]
  omega

/-- Writing a handle moves the bindings of a region by what the handle holds of it. -/
theorem bindings_setHandle (hd' : Handle) (hh : w.handles[h]? = some hd) :
    (w.setHandle h hd').bindings r + hd.regionRefs r = w.bindings r + hd'.regionRefs r :=
  total_set hh

/-- Writing a handle moves the references of a region by what the handle holds of it. -/
theorem heldRegionRefs_setHandle (hd' : Handle) (hh : w.handles[h]? = some hd) :
    (w.setHandle h hd').heldRegionRefs r + hd.regionRefs r =
      w.heldRegionRefs r + hd'.regionRefs r := by
  have hset := total_set (w := Handle.regionRefs r) (b := hd') hh
  simp only [World.heldRegionRefs, World.setHandle]
  omega

/-- The pins that are held do not depend on the regions. -/
@[simp] theorem held_modRegion (x : ℕ) (f : Region → Region) :
    (w.modRegion x f).held r = w.held r := rfl

/-- The references that are held do not depend on the regions. -/
@[simp] theorem heldRegionRefs_modRegion (x : ℕ) (f : Region → Region) :
    (w.modRegion x f).heldRegionRefs r = w.heldRegionRefs r := rfl

/-- Writing one region leaves the others. -/
theorem regions_modRegion (x : ℕ) (f : Region → Region) :
    (w.modRegion x f).regions r = if r = x then f (w.regions r) else w.regions r := by
  by_cases hr : r = x
  · subst hr
    simp [World.modRegion]
  · simp [World.modRegion, hr]

/-- A region stays open or closed under a change of its counts. -/
theorem isClosed_modRegion {x : ℕ} {f : Region → Region} (hf : ∀ y, (f y).isClosed = y.isClosed) :
    ((w.modRegion x f).regions r).isClosed = (w.regions r).isClosed := by
  rw [regions_modRegion]
  split_ifs
  · exact hf _
  · rfl

end Change

/-! ## Unmapping -/

/-- Nothing that is looked at points into `r`. -/
structure World.Unheld (M : Mode) (w : World) (r : ℕ) : Prop where
  handles : w.bindings r = 0
  views : M.views → total (PyBuffer.share r) w.views = 0
  capsules : total (Capsule.share r) w.capsules = 0

/-- A region with no pins held has no holder of any kind. -/
theorem unheld_of_held (hr : w.held r = 0) : w.Unheld M r := by
  unfold World.held at hr
  exact ⟨show total (Handle.regionRefs r) w.handles = 0 by omega, fun _ => by omega, by omega⟩

/-- No handle refers to a region without bindings. -/
theorem region_ne_of_bindings (hr : w.bindings r = 0) (hmem : hd ∈ w.handles) :
    hd.region ≠ some r := by
  intro hreg
  have hz := eq_zero_of_total (w := Handle.regionRefs r) (l := w.handles) hr hmem
  simp [Handle.regionRefs, hreg] at hz

/-- A region without counted references is not held. -/
theorem Books.unheld (hb : Books M w) (hr : w.heldRegionRefs r = 0) : w.Unheld M r := by
  unfold World.heldRegionRefs at hr
  have hhandles : w.bindings r = 0 := show total (Handle.regionRefs r) w.handles = 0 by omega
  refine ⟨hhandles, fun hM => total_eq_zero ?_, total_eq_zero ?_⟩
  · intro v hmem
    unfold PyBuffer.share
    rw [if_neg]
    intro hv
    obtain ⟨hrel, htarget⟩ : v.released = false ∧ v.target = r := by
      simpa [PyBuffer.holds] using hv
    cases hx : v.exporter with
    | region x =>
        -- the buffer itself refers to the region
        have hown := hb.own v hmem x hx
        have hz := eq_zero_of_total (w := PyBuffer.regionRefs r) (l := w.views) (by omega) hmem
        simp [PyBuffer.regionRefs, hrel, hx, ← hown, htarget] at hz
    | bytes x =>
        obtain ⟨hd, hget, hreg | ⟨-, hno⟩⟩ := hb.exported v hmem hrel x hx
        · exact region_ne_of_bindings hhandles (List.mem_of_getElem? hget) (htarget ▸ hreg)
        · exact hno hM
  · intro c hmem
    have hz := eq_zero_of_total (w := Capsule.regionRefs r) (l := w.capsules) (by omega) hmem
    unfold Capsule.share
    rw [if_neg]
    intro hc
    obtain ⟨halive, hreg⟩ : c.alive = true ∧ c.region = r := by simpa [Capsule.holds] using hc
    simp [Capsule.regionRefs, halive, hreg] at hz

/-- A region that is not held has nothing that points into it. -/
theorem Books.clean (hb : Books M w) (hr : w.Unheld M r) : (w.unmapRecord r).Clean M := by
  refine ⟨?_, ?_, ?_, ?_, ?_⟩
  · show w.handles.any (Handle.holds r) = false
    rw [List.any_eq_false]
    intro hd hmem hholds
    obtain ⟨-, hreg⟩ : hd.closed = false ∧ hd.region = some r := by
      simpa [Handle.holds] using hholds
    exact region_ne_of_bindings hr.handles hmem hreg
  · intro hM
    show w.views.any (PyBuffer.holds r) = false
    rw [List.any_eq_false]
    intro v hmem hholds
    have hz := eq_zero_of_total (hr.views hM) hmem
    simp [PyBuffer.share, hholds] at hz
  · show w.capsules.any (Capsule.holds r) = false
    rw [List.any_eq_false]
    intro c hmem hholds
    have hz := eq_zero_of_total hr.capsules hmem
    simp [Capsule.share, hholds] at hz
  · intro hM
    show w.calls.any (InFlight.holds r) = false
    have hnob : ∀ h, ¬ w.BoundTo h r := by
      rintro h ⟨hd, hget, hreg⟩
      exact region_ne_of_bindings hr.handles (List.mem_of_getElem? hget) hreg
    rw [List.any_eq_false]
    intro c hmem hholds
    obtain ⟨hactive, hptr⟩ : c.active = true ∧ (c.region = r ∨ ∃ m, c.mutex = some (m, r)) := by
      simpa [InFlight.holds, Option.any_eq_true] using hholds
    have hback := hb.backed hM c hmem hactive
    rcases hptr with hptr | ⟨m, hm⟩
    · exact hnob _ (hptr ▸ hback.1)
    · exact hnob _ (hback.2 m r hm).1
  · intro hM
    show w.handles.any (Handle.leads r) = false
    rw [List.any_eq_false]
    intro hd hmem hleads
    obtain ⟨⟨⟨hopen, hbound⟩, hkind⟩, hptr⟩ :
        ((hd.closed = false ∧ hd.bound = true) ∧ hd.kind ≠ .bytes) ∧ hd.ptr = some r := by
      simpa [Handle.leads] using hleads
    have hsound := hb.sound hM hd hmem hkind fun _ => ⟨hopen, hbound⟩
    exact region_ne_of_bindings hr.handles hmem (hsound.symm.trans hptr)

/-- A change that leaves handles, buffers and calls alone. -/
theorem Books.frame (hb : Books M w) (hacc : Accounts M w') (hh : w'.handles = w.handles)
    (hv : w'.views = w.views) (hc : w'.calls = w.calls)
    (hlog : M.fits → ∀ e ∈ w'.log, e.Clean M) : Books M w' where
  acc := hacc
  exported := by
    rw [hv]
    unfold World.Exports
    rw [hh]
    exact hb.exported
  own := by
    rw [hv]
    exact hb.own
  log := hlog
  backed := by
    rw [hc]
    unfold World.Backed World.BoundTo
    rw [hh]
    exact hb.backed
  sound := by
    rw [hh]
    exact hb.sound
  shut := by
    rw [hh]
    exact hb.shut

/-- The mapping of a region goes, or its closed flag changes. -/
theorem Books.unmap (hb : Books M w) (hlt : r < w.nregions)
    (hclean : M.fits → w.Unheld M r) :
    Books M ((w.posixipcShmClose r).modRegion r fun x => { x with closed := true }) := by
  refine hb.frame ?_ rfl rfl rfl ?_
  · refine hb.acc.shift rfl ?_ ?_ ?_ ?_ ?_
    · intro x
      by_cases hx : x = r
      · subst hx
        simp [World.posixipcShmClose, World.modRegion, World.held]
      · simp [World.posixipcShmClose, World.modRegion, World.held, hx]
    · intro _ x
      by_cases hx : x = r
      · subst hx
        simp [World.posixipcShmClose, World.modRegion, World.held]
      · simp [World.posixipcShmClose, World.modRegion, World.held, hx]
    · intro x
      by_cases hx : x = r
      · subst hx
        simp [World.posixipcShmClose, World.modRegion, World.heldRegionRefs]
      · simp [World.posixipcShmClose, World.modRegion, World.heldRegionRefs, hx]
    · intro x hx
      have hne : x ≠ r := by omega
      simp [World.posixipcShmClose, World.modRegion, hne]
    · intro hfits x hx
      have hne : x ≠ r := by
        rintro rfl
        exact hx (hclean hfits).handles
      exact .inr ⟨hx, by simp [World.posixipcShmClose, World.modRegion, hne]⟩
  · intro hfits e he
    have he' : e ∈ w.log ∨ e = w.unmapRecord r := by
      simpa [World.posixipcShmClose, World.modRegion] using he
    rcases he' with he' | rfl
    · exact hb.log hfits e he'
    · exact hb.clean (hclean hfits)

/-- A region loses a reference that nothing accounts for. -/
theorem Books.decRegion (hb : Books M w) (hr : w.heldRegionRefs r < (w.regions r).refs) :
    Books M (w.decRegion r) := by
  have hlt : r < w.nregions := hb.acc.lt_nregions (by omega)
  have hb1 : Books M (w.modRegion r fun x => { x with refs := x.refs - 1 }) := by
    refine hb.frame ?_ rfl rfl rfl hb.log
    refine ⟨?_, ?_, ?_, ?_, ?_⟩
    · intro x
      have hx := hb.acc.pins_ge x
      rw [regions_modRegion]
      split_ifs <;> exact hx
    · intro he x
      have hx := hb.acc.pins_eq he x
      rw [regions_modRegion]
      split_ifs <;> exact hx
    · intro x
      have hx := hb.acc.refs_ge x
      rw [regions_modRegion, heldRegionRefs_modRegion]
      split_ifs with hxr
      · subst hxr
        simp only
        omega
      · exact hx
    · intro x hx
      have hne : x ≠ r := by
        rintro rfl
        exact absurd hlt (not_lt.mpr hx)
      rw [regions_modRegion, if_neg hne]
      exact hb.acc.unborn x hx
    · intro hf x hx
      have hflag : ((w.modRegion r fun x => { x with refs := x.refs - 1 }).regions x).isClosed =
          (w.regions x).isClosed := isClosed_modRegion w x fun _ => rfl
      rw [hflag]
      exact hb.acc.live hf x hx
  unfold World.decRegion
  simp only
  split_ifs with hzero
  · -- the last reference: nothing is held, so nothing points into the mapping
    unfold World.shmDealloc
    split_ifs with hclosed
    · exact hb1
    · have hheld : (w.modRegion r fun x => { x with refs := x.refs - 1 }).Unheld M r := by
        refine hb1.unheld ?_
        have hge := hb1.acc.refs_ge r
        omega
      unfold World.posixipcShmobjClose
      rw [if_neg hclosed, if_neg (by simp), if_neg (by simp)]
      exact hb1.unmap hlt fun _ => hheld
  · exact hb1

/-- `SharedMemory.close` unmaps only what is not pinned. -/
theorem Books.closeRegion (hb : Books M w) (hlt : r < w.nregions)
    (hfits : M.fits → (w.regions r).pins < 2 ^ 32) (fails : Bool) :
    Books M (w.posixipcShmobjClose r false fails).1 := by
  unfold World.posixipcShmobjClose
  split_ifs with hclosed hpins hfail
  · refine hb.frame ?_ rfl rfl rfl hb.log
    refine hb.acc.shift rfl ?_ ?_ ?_ ?_ (live_same (fun _ => le_rfl) ?_)
    · intro x
      rw [regions_modRegion]
      split_ifs <;> exact le_rfl
    · intro _ x
      rw [regions_modRegion]
      split_ifs <;> rfl
    · intro x
      rw [regions_modRegion]
      split_ifs <;> exact le_rfl
    · intro x hx
      have hne : x ≠ r := by omega
      rw [regions_modRegion, if_neg hne]
    · intro x
      rw [regions_modRegion]
      split_ifs with hx
      · rw [hx, hclosed]
        rfl
      · rfl
  · exact hb
  · exact hb
  · refine hb.unmap hlt fun hf => ?_
    -- the residue is zero and the count is below `2 ^ 32`, so the count is zero
    have hge := hb.acc.pins_ge r
    have hlt := hfits hf
    have hmod : (w.regions r).pins % 2 ^ 32 = 0 := by
      simpa using hpins
    exact unheld_of_held (by omega)

/-! ## One handle changes -/

/-- Writing a handle leaves the bindings of the others. -/
theorem BoundTo.set_other {k x : ℕ} (hk : k ≠ h) (hbound : w.BoundTo k x)
    (hw' : w'.handles = w.handles.set h hd') : w'.BoundTo k x := by
  obtain ⟨kd, hget, hrest⟩ := hbound
  refine ⟨kd, ?_, hrest⟩
  rw [hw', getElem?_set_other hk]
  exact hget

/-- A handle that keeps its region stays bound to it. -/
theorem BoundTo.set_same {k x : ℕ} (hh : w.handles[h]? = some hd)
    (hregion : hd'.region = hd.region) (hbound : w.BoundTo k x)
    (hw' : w'.handles = w.handles.set h hd') : w'.BoundTo k x := by
  by_cases hk : k = h
  · subst hk
    obtain ⟨kd, hget, hreg⟩ := hbound
    obtain rfl : hd = kd := Option.some.inj (hh.symm.trans hget)
    exact ⟨hd', by rw [hw', getElem?_set_self hh], hregion.trans hreg⟩
  · exact BoundTo.set_other hk hbound hw'

/-- A handle is replaced, and the counters of the regions follow. -/
theorem Books.replace (hb : Books M w) (hh : w.handles[h]? = some hd)
    (hw' : w'.handles = w.handles.set h hd') (hviews : w'.views = w.views)
    (hcallsEq : w'.calls = w.calls) (hlog : w'.log = w.log) (hacc : Accounts M w')
    (hexp : w.NotExported h ∨ hd'.region = hd.region ∨ (hd'.region = none ∧ ¬ M.views))
    (huse : M.calls → w.NotInUse h ∨ (hd'.region = hd.region ∧ hd'.mutex = hd.mutex))
    (hsound : M.pointers → hd'.Sound)
    (hshut : M.exact → hd'.closed = true → hd'.region = none) : Books M w' where
  acc := hacc
  exported v hv hrel k hk := by
    rw [hviews] at hv
    obtain ⟨kd, hget, hkd⟩ := hb.exported v hv hrel k hk
    by_cases hkh : k = h
    · subst hkh
      obtain rfl : hd = kd := Option.some.inj (hh.symm.trans hget)
      refine ⟨hd', by rw [hw', getElem?_set_self hh], ?_⟩
      rcases hexp with hexp | hregion | hnone
      · exact absurd hk (hexp v hv hrel)
      · rw [hregion]
        exact hkd
      · exact .inr hnone
    · exact ⟨kd, by rw [hw', getElem?_set_other hkh]; exact hget, hkd⟩
  own := by
    rw [hviews]
    exact hb.own
  log := by
    rw [hlog]
    exact hb.log
  backed hM c hc hactive := by
    rw [hcallsEq] at hc
    obtain ⟨hself, hmutex⟩ := hb.backed hM c hc hactive
    rcases huse hM with huse | ⟨hregion, hm⟩
    · -- the call uses other handles
      obtain ⟨hne, hnem⟩ := huse c hc hactive
      refine ⟨BoundTo.set_other hne hself hw', fun m x hmx => ?_⟩
      obtain ⟨hbound, sd, hget, hsd⟩ := hmutex m x hmx
      refine ⟨BoundTo.set_other (hnem m x hmx) hbound hw', sd, ?_, hsd⟩
      rw [hw', getElem?_set_other hne]
      exact hget
    · refine ⟨BoundTo.set_same hh hregion hself hw', fun m x hmx => ?_⟩
      obtain ⟨hbound, sd, hget, hsd⟩ := hmutex m x hmx
      refine ⟨BoundTo.set_same hh hregion hbound hw', ?_⟩
      by_cases hk : c.self = h
      · rw [hk] at hget
        obtain rfl : hd = sd := Option.some.inj (hh.symm.trans hget)
        exact ⟨hd', by rw [hw', hk, getElem?_set_self hh], hm.trans hsd⟩
      · exact ⟨sd, by rw [hw', getElem?_set_other hk]; exact hget, hsd⟩
  sound hM kd hkd := by
    rw [hw'] at hkd
    rcases mem_of_set hkd with hkd | rfl
    · exact hb.sound hM kd hkd
    · exact hsound hM
  shut he kd hkd hc := by
    rw [hw'] at hkd
    rcases mem_of_set hkd with hkd | rfl
    · exact hb.shut he kd hkd hc
    · exact hshut he hc

/-- A handle changes in a way the counters do not see. -/
theorem Books.setHandle (hb : Books M w) (hh : w.handles[h]? = some hd)
    (hclosed : hd'.closed = hd.closed) (hregion : hd'.region = hd.region)
    (hmutex : hd'.mutex = hd.mutex) (hsound : M.pointers → hd'.Sound) :
    Books M (w.setHandle h hd') := by
  have hrefs : ∀ x, hd'.regionRefs x = hd.regionRefs x := by
    intro x
    simp [Handle.regionRefs, hregion]
  have hshut : M.exact → hd'.closed = true → hd'.region = none := by
    intro he hc
    rw [hregion]
    exact hb.shut he hd (List.mem_of_getElem? hh) (hclosed ▸ hc)
  refine hb.replace hh rfl rfl rfl rfl ?_ (.inr (.inl hregion)) (fun _ => .inr ⟨hregion, hmutex⟩)
    hsound hshut
  refine hb.acc.shift rfl ?_ ?_ ?_ (fun _ _ => rfl) (live_same ?_ fun _ => rfl)
  · intro x
    have hset := held_setHandle w x hd' hh
    rw [hrefs] at hset
    show (w.regions x).pins - _ ≤ (w.regions x).pins - _
    omega
  · intro _ x
    have hset := held_setHandle w x hd' hh
    rw [hrefs] at hset
    show (w.regions x).pins - _ = (w.regions x).pins - _
    omega
  · intro x
    have hset := heldRegionRefs_setHandle w x hd' hh
    rw [hrefs] at hset
    show (w.regions x).refs + _ ≤ (w.regions x).refs + _
    omega
  · intro x
    have hset := bindings_setHandle w x hd' hh
    rw [hrefs] at hset
    omega

/-- Dropping a reference of a region leaves the handles. -/
@[simp] theorem handles_decRegion : (w.decRegion r).handles = w.handles := by
  unfold World.decRegion World.shmDealloc World.posixipcShmobjClose
  simp only
  split_ifs <;> rfl

/-- Dropping a reference of a region leaves the views. -/
@[simp] theorem views_decRegion : (w.decRegion r).views = w.views := by
  unfold World.decRegion World.shmDealloc World.posixipcShmobjClose
  simp only
  split_ifs <;> rfl

/-- Dropping a reference of a region leaves the calls. -/
@[simp] theorem calls_decRegion : (w.decRegion r).calls = w.calls := by
  unfold World.decRegion World.shmDealloc World.posixipcShmobjClose
  simp only
  split_ifs <;> rfl

/-- Dropping a reference of a region leaves the layouts. -/
@[simp] theorem layouts_decRegion : (w.decRegion r).layouts = w.layouts := by
  unfold World.decRegion World.shmDealloc World.posixipcShmobjClose
  simp only
  split_ifs <;> rfl

/-- Dropping a reference of a region leaves the capsules. -/
@[simp] theorem capsules_decRegion : (w.decRegion r).capsules = w.capsules := by
  unfold World.decRegion World.shmDealloc World.posixipcShmobjClose
  simp only
  split_ifs <;> rfl

/-- A bound handle has a counted reference. -/
theorem Books.refs_pos (hb : Books M w) (hh : w.handles[h]? = some hd) (hr : hd.region = some r) :
    0 < (w.regions r).refs := by
  have hle : hd.regionRefs r ≤ w.heldRegionRefs r := by
    have hle := le_total (w := Handle.regionRefs r) hh
    unfold World.heldRegionRefs
    omega
  have hge := hb.acc.refs_ge r
  have hone : hd.regionRefs r = 1 := by simp [Handle.regionRefs, hr]
  omega

/-- A handle without a region holds nothing. -/
theorem Handle.regionRefs_none (hr : hd.region = none) (x : ℕ) : hd.regionRefs x = 0 := by
  simp [Handle.regionRefs, hr]

/-- A handle holds its region only. -/
theorem Handle.regionRefs_some (hr : hd.region = some r) (x : ℕ) :
    hd.regionRefs x = if x = r then 1 else 0 := by
  by_cases hx : x = r
  · simp [Handle.regionRefs, hr, hx]
  · simp [Handle.regionRefs, hr, hx, Ne.symm hx]

/-- The handle lets its region go: the pin if it was open, and the reference. -/
theorem Books.letGo (hb : Books M w) (hh : w.handles[h]? = some hd) (hr : hd.region = some r)
    (hnone : hd'.region = none) (hsound : hd'.Sound) (hnoexp : M.views → w.NotExported h)
    (huse : M.calls → w.NotInUse h) (regs : ℕ → Region)
    (hpins : ∀ x, (w.regions x).pins - hd.regionRefs x ≤ (regs x).pins)
    (hexact : M.exact → ∀ x, (regs x).pins = (w.regions x).pins - hd.regionRefs x)
    (hrefs : ∀ x, (regs x).refs = (w.regions x).refs)
    (hother : ∀ x, x ≠ r → regs x = w.regions x)
    (hflag : ∀ x, (regs x).isClosed = (w.regions x).isClosed) :
    Books M (({ w with regions := regs }.setHandle h hd').decRegion r) := by
  have hlt : r < w.nregions := hb.acc.lt_nregions (hb.refs_pos hh hr).ne'
  have hb1 : Books M ({ w with regions := regs }.setHandle h hd') := by
    have hexp : w.NotExported h ∨ hd'.region = hd.region ∨ (hd'.region = none ∧ ¬ M.views) := by
      by_cases hM : M.views
      · exact .inl (hnoexp hM)
      · exact .inr (.inr ⟨hnone, hM⟩)
    refine hb.replace hh rfl rfl rfl rfl ?_ hexp (fun hM => .inl (huse hM)) (fun _ => hsound)
      fun _ _ => hnone
    refine hb.acc.shift rfl ?_ ?_ ?_ ?_ (live_same ?_ hflag)
    · intro x
      have hset := held_setHandle w x hd' hh
      rw [Handle.regionRefs_none hnone] at hset
      show _ ≤ (regs x).pins - ((w.setHandle h hd').held x : ℤ)
      have hx := hpins x
      omega
    · intro he x
      have hset := held_setHandle w x hd' hh
      rw [Handle.regionRefs_none hnone] at hset
      show (regs x).pins - ((w.setHandle h hd').held x : ℤ) = _
      rw [hexact he]
      omega
    · intro x
      have hset := heldRegionRefs_setHandle w x hd' hh
      rw [Handle.regionRefs_none hnone] at hset
      show _ + (w.setHandle h hd').heldRegionRefs x ≤ (regs x).refs + _
      rw [hrefs]
      omega
    · intro x hx
      exact hother x (by omega)
    · intro x
      have hset := bindings_setHandle w x hd' hh
      rw [Handle.regionRefs_none hnone] at hset
      show (w.setHandle h hd').bindings x ≤ w.bindings x
      omega
  refine hb1.decRegion ?_
  have hset := heldRegionRefs_setHandle w r hd' hh
  have hone : hd.regionRefs r = 1 := by simp [Handle.regionRefs, hr]
  have hge := hb.acc.refs_ge r
  rw [Handle.regionRefs_none hnone, hone] at hset
  show (w.setHandle h hd').heldRegionRefs r < (regs r).refs
  rw [hrefs]
  omega

/-- The end of a `close`: a handle that holds nothing is marked as closed. -/
theorem Books.markClosed (hb : Books M w) (hh : w.handles[h]? = some hd) (hr : hd.region = none)
    (hptr' : hd'.ptr = none) (hr' : hd'.region = none) (huse : M.calls → w.NotInUse h) :
    Books M (w.setHandle h hd') := by
  refine hb.replace hh rfl rfl rfl rfl ?_ (.inr (.inl (hr'.trans hr.symm)))
    (fun hM => .inl (huse hM)) (fun _ _ _ => hptr'.trans hr'.symm) fun _ _ => hr'
  have hheld : ∀ x, (w.setHandle h hd').held x = w.held x := by
    intro x
    have hset := held_setHandle w x hd' hh
    rw [Handle.regionRefs_none hr, Handle.regionRefs_none hr'] at hset
    omega
  have hrefs : ∀ x, (w.setHandle h hd').heldRegionRefs x = w.heldRegionRefs x := by
    intro x
    have hset := heldRegionRefs_setHandle w x hd' hh
    rw [Handle.regionRefs_none hr, Handle.regionRefs_none hr'] at hset
    omega
  refine hb.acc.shift rfl ?_ ?_ ?_ (fun _ _ => rfl) (live_same ?_ fun _ => rfl)
  · intro x
    rw [hheld]
    exact le_rfl
  · intro _ x
    rw [hheld]
    rfl
  · intro x
    rw [hrefs]
    exact le_rfl
  · intro x
    have hset := bindings_setHandle w x hd' hh
    rw [Handle.regionRefs_none hr, Handle.regionRefs_none hr'] at hset
    omega

/-- **`close`** of a handle that exports no buffer and is in no call. -/
theorem Books.closeLeaf (hb : Books M w) (hnoexp : M.views → w.NotExported h)
    (huse : M.calls → w.NotInUse h) : Books M (w.closeLeaf h) := by
  unfold World.closeLeaf
  cases hh : w.handles[h]? with
  | none => exact hb
  | some hd =>
      simp only
      split_ifs with hclosed
      · exact hb
      · cases hr : hd.region with
        | none => exact hb.markClosed hh hr rfl rfl huse
        | some r =>
            simp only
            have hb1 : Books M (((w.posixipcShmobjUnpin r).setHandle h
                { hd with region := none, ptr := none }).decRegion r) := by
              have hpins : ∀ x, ((w.posixipcShmobjUnpin r).regions x).pins =
                  (w.regions x).pins - hd.regionRefs x := by
                intro x
                rw [World.posixipcShmobjUnpin, regions_modRegion, Handle.regionRefs_some hr]
                split_ifs <;> simp
              refine hb.letGo hh hr rfl (fun _ _ => rfl) hnoexp huse
                (w.posixipcShmobjUnpin r).regions (fun x => (hpins x).ge) (fun _ => hpins) ?_ ?_
                fun x => isClosed_modRegion w x fun _ => rfl
              · intro x
                rw [World.posixipcShmobjUnpin, regions_modRegion]
                split_ifs <;> rfl
              · intro x hx
                rw [World.posixipcShmobjUnpin, regions_modRegion, if_neg hx]
            have hget : (((w.posixipcShmobjUnpin r).setHandle h
                { hd with region := none, ptr := none }).decRegion r).handles[h]? =
                some { hd with region := none, ptr := none } := by
              rw [handles_decRegion]
              exact getElem?_set_self hh
            refine hb1.markClosed hget rfl rfl rfl ?_
            intro hM c hc
            rw [calls_decRegion] at hc
            exact huse hM c hc

/-! ## The end of a handle -/

/-- What closing and deallocating handles leave alone: buffers and calls, and that a handle is
closed. -/
structure Later (w w' : World) : Prop where
  views : w'.views = w.views
  calls : w'.calls = w.calls
  layouts : w'.layouts = w.layouts
  length : w'.handles.length = w.handles.length
  closed : ∀ (k : ℕ) (kd : Handle), w'.handles[k]? = some kd →
    ∃ kd₀, w.handles[k]? = some kd₀ ∧ (kd₀.closed = true → kd.closed = true)

/-- Later than later is later. -/
theorem Later.trans {w₁ w₂ w₃ : World} (h₁ : Later w₁ w₂) (h₂ : Later w₂ w₃) : Later w₁ w₃ where
  views := h₂.views.trans h₁.views
  calls := h₂.calls.trans h₁.calls
  layouts := h₂.layouts.trans h₁.layouts
  length := h₂.length.trans h₁.length
  closed k kd hk := by
    obtain ⟨kd₂, hk₂, himp₂⟩ := h₂.closed k kd hk
    obtain ⟨kd₁, hk₁, himp₁⟩ := h₁.closed k kd₂ hk₂
    exact ⟨kd₁, hk₁, fun hc => himp₂ (himp₁ hc)⟩

/-- A step that changes regions and capsules only. -/
theorem Later.of_handles (hv : w'.views = w.views) (hc : w'.calls = w.calls)
    (hl : w'.layouts = w.layouts) (hh : w'.handles = w.handles) : Later w w' where
  views := hv
  calls := hc
  layouts := hl
  length := by rw [hh]
  closed _ kd hk := ⟨kd, hh ▸ hk, id⟩

/-- Nothing has happened. -/
theorem Later.refl (w : World) : Later w w := Later.of_handles rfl rfl rfl rfl

/-- Dropping a reference of a region touches no handle. -/
theorem Later.decRegion : Later w (w.decRegion r) :=
  Later.of_handles views_decRegion calls_decRegion layouts_decRegion handles_decRegion

/-- A handle may be written as long as a closed one stays closed. -/
theorem Later.setHandle (hh : w.handles[h]? = some hd)
    (hclosed : hd.closed = true → hd'.closed = true) : Later w (w.setHandle h hd') where
  views := rfl
  calls := rfl
  layouts := rfl
  length := List.length_set ..
  closed k kd hk := by
    by_cases hkh : k = h
    · subst hkh
      have hself : (w.setHandle k hd').handles[k]? = some hd' := getElem?_set_self hh
      obtain rfl : hd' = kd := Option.some.inj (hself.symm.trans hk)
      exact ⟨hd, hh, hclosed⟩
    · have hother : (w.setHandle h hd').handles[k]? = w.handles[k]? := getElem?_set_other hkh
      exact ⟨kd, hother ▸ hk, id⟩

/-- `posixipc_shmobj_unpin` touches no handle. -/
theorem Later.unpin : Later w (w.posixipcShmobjUnpin r) := Later.of_handles rfl rfl rfl rfl

/-- A handle with no exports gets none on the way to a later state. -/
theorem Later.notExported (hl : Later w w') (hn : w.NotExported h) : w'.NotExported h := by
  intro v hv
  rw [hl.views] at hv
  exact hn v hv

/-- A handle that no call uses is not used in a later state. -/
theorem Later.notInUse (hl : Later w w') (hn : w.NotInUse h) : w'.NotInUse h := by
  intro c hc
  rw [hl.calls] at hc
  exact hn c hc

/-- Closing one handle. -/
theorem later_closeLeaf (w : World) (h : ℕ) : Later w (w.closeLeaf h) := by
  unfold World.closeLeaf
  cases hh : w.handles[h]? with
  | none => exact Later.refl w
  | some hd =>
      simp only
      split_ifs with hclosed
      · exact Later.refl w
      · cases hr : hd.region with
        | none => exact Later.setHandle hh fun _ => rfl
        | some r =>
            have hmid : Later w ((w.posixipcShmobjUnpin r).setHandle h
                { hd with region := none, ptr := none }) :=
              Later.unpin.trans (Later.setHandle hh id)
            have hget : (((w.posixipcShmobjUnpin r).setHandle h
                { hd with region := none, ptr := none }).decRegion r).handles[h]? =
                some { hd with region := none, ptr := none } := by
              rw [handles_decRegion]
              exact getElem?_set_self hh
            exact (hmid.trans Later.decRegion).trans (Later.setHandle hget fun _ => rfl)

/-- Clearing the region of one handle. -/
theorem later_clearRegion (w : World) (h : ℕ) : Later w (w.clearRegion h) := by
  unfold World.clearRegion
  cases hh : w.handles[h]? with
  | none => exact Later.refl w
  | some hd =>
      simp only
      cases hr : hd.region with
      | none => exact Later.refl w
      | some r =>
          have hset : Later w (w.setHandle h { hd with region := none, ptr := none }) :=
            Later.setHandle hh id
          exact hset.trans Later.decRegion

/-- Deallocating one handle. -/
theorem later_dropLeaf (w : World) (h : ℕ) : Later w (w.dropLeaf h) := by
  unfold World.dropLeaf
  split_ifs
  · exact (later_closeLeaf w h).trans (later_clearRegion _ h)
  · exact Later.refl w

/-- Closing a handle and those inside it. -/
theorem later_closeHandle (w : World) (h : ℕ) : Later w (w.closeHandle h) := by
  unfold World.closeHandle
  split
  · exact later_closeLeaf w h
  · exact (later_closeLeaf w h).trans (later_dropLeaf _ _)

/-- Deallocating a handle and those inside it. -/
theorem later_dropHandle (w : World) (h : ℕ) : Later w (w.dropHandle h) := by
  unfold World.dropHandle
  split_ifs
  · exact (later_closeHandle w h).trans (later_clearRegion _ h)
  · exact Later.refl w

/-- A closed handle is closed. -/
theorem closed_closeLeaf (hh : (w.closeLeaf h).handles[h]? = some hd) : hd.closed = true := by
  unfold World.closeLeaf at hh
  cases hg : w.handles[h]? with
  | none =>
      simp only [hg] at hh
      cases hh
  | some hd₀ =>
      simp only [hg] at hh
      split_ifs at hh with hclosed
      · obtain rfl : hd₀ = hd := Option.some.inj (hg.symm.trans hh)
        exact hclosed
      · cases hr : hd₀.region with
        | none =>
            simp only [hr] at hh
            have hself := Option.some.inj ((getElem?_set_self hg).symm.trans hh)
            rw [← hself]
        | some r =>
            simp only [hr] at hh
            have hget : (((w.posixipcShmobjUnpin r).setHandle h
                { hd₀ with region := none, ptr := none }).decRegion r).handles[h]? =
                some { hd₀ with region := none, ptr := none } := by
              rw [handles_decRegion]
              exact getElem?_set_self hg
            have hself := Option.some.inj ((getElem?_set_self hget).symm.trans hh)
            rw [← hself]

/-- A handle is closed after `close`. -/
theorem closed_closeHandle (hh : (w.closeHandle h).handles[h]? = some hd) : hd.closed = true := by
  unfold World.closeHandle at hh
  split at hh
  · exact closed_closeLeaf hh
  · obtain ⟨hd₀, hget, himp⟩ := (later_dropLeaf _ _).closed h hd hh
    exact himp (closed_closeLeaf hget)

/-- A handle nothing refers to exports no buffer. -/
theorem notExported_of_unreferenced (hu : w.unreferenced h = true) : w.NotExported h := by
  unfold World.unreferenced at hu
  cases hh : w.handles[h]? with
  | none => simp [hh] at hu
  | some hd =>
      have hzero : w.heldRefs h = 0 := by
        simp only [hh, decide_eq_true_eq] at hu
        exact hu.2
      unfold World.heldRefs at hzero
      intro v hv hrel hx
      have hz := eq_zero_of_total (w := PyBuffer.refsTo h) (l := w.views) (by omega) hv
      simp [PyBuffer.refsTo, hrel, hx] at hz

/-- Nor is it used by a call, as itself or as the mutex of a condition. -/
theorem Books.notInUse_of_unreferenced (hb : Books M w) (hM : M.calls)
    (hu : w.unreferenced h = true) : w.NotInUse h := by
  unfold World.unreferenced at hu
  cases hh : w.handles[h]? with
  | none => simp [hh] at hu
  | some hd =>
      have hzero : w.heldRefs h = 0 := by
        simp only [hh, decide_eq_true_eq] at hu
        exact hu.2
      unfold World.heldRefs at hzero
      intro c hc hactive
      refine ⟨?_, ?_⟩
      · intro hself
        have hz := eq_zero_of_total (w := InFlight.refsTo h) (l := w.calls) (by omega) hc
        simp [InFlight.refsTo, hactive, hself] at hz
      · rintro m x hm rfl
        obtain ⟨-, sd, hget, hsd⟩ := (hb.backed hM c hc hactive).2 m x hm
        have hz := eq_zero_of_total (w := Handle.refsTo m) (l := w.handles) (by omega)
          (List.mem_of_getElem? hget)
        simp [Handle.refsTo, hsd] at hz

/-- The last `Py_CLEAR` of a `dealloc`. -/
theorem Books.clearRegion (hb : Books M w)
    (hclosed : ∀ hd, w.handles[h]? = some hd → hd.closed = true)
    (hnoexp : w.NotExported h) (huse : M.calls → w.NotInUse h) : Books M (w.clearRegion h) := by
  unfold World.clearRegion
  cases hh : w.handles[h]? with
  | none => exact hb
  | some hd =>
      simp only
      cases hr : hd.region with
      | none => exact hb
      | some r =>
          -- a closed handle that was bound again; it never gives its pin back
          refine hb.letGo hh hr rfl (fun _ _ => rfl) (fun _ => hnoexp) huse w.regions ?_ ?_
            (fun _ => rfl) (fun _ _ => rfl) fun _ => rfl
          · intro x
            omega
          · intro he
            have hnone := hb.shut he hd (List.mem_of_getElem? hh) (hclosed hd hh)
            rw [hnone] at hr
            cases hr

/-- **A reference to a handle goes**, and with it perhaps the handle. -/
theorem Books.dropLeaf (hb : Books M w) : Books M (w.dropLeaf h) := by
  unfold World.dropLeaf
  split_ifs with hu
  · have hnoexp := notExported_of_unreferenced hu
    have huse : M.calls → w.NotInUse h := fun hM => hb.notInUse_of_unreferenced hM hu
    have hl := later_closeLeaf w h
    exact (hb.closeLeaf (fun _ => hnoexp) huse).clearRegion (fun hd hh => closed_closeLeaf hh)
      (hl.notExported hnoexp) fun hM => hl.notInUse (huse hM)
  · exact hb

/-- **`close`** of a handle, with those inside it: each gives back the pin it has. -/
theorem Books.closeHandle (hb : Books M w) (hnoexp : M.views → w.NotExported h)
    (huse : M.calls → w.NotInUse h) : Books M (w.closeHandle h) := by
  unfold World.closeHandle
  split
  · exact hb.closeLeaf hnoexp huse
  · exact (hb.closeLeaf hnoexp huse).dropLeaf

/-- **The deallocation** of a handle, with those inside it: each gives back what it has. -/
theorem Books.dropHandle (hb : Books M w) : Books M (w.dropHandle h) := by
  unfold World.dropHandle
  split_ifs with hu
  · have hnoexp := notExported_of_unreferenced hu
    have huse : M.calls → w.NotInUse h := fun hM => hb.notInUse_of_unreferenced hM hu
    have hl := later_closeHandle w h
    exact (hb.closeHandle (fun _ => hnoexp) huse).clearRegion (fun hd hh => closed_closeHandle hh)
      (hl.notExported hnoexp) fun hM => hl.notInUse (huse hM)
  · exact hb

/-! ## Binding -/

/-- The region is open and the running call has a reference of its own to it. -/
structure Caller (w : World) (r : ℕ) : Prop where
  isOpen : (w.regions r).isClosed = false
  spare : w.heldRegionRefs r < (w.regions r).refs

/-- Dropping a reference of a region leaves what the holders have. -/
@[simp] theorem heldRegionRefs_decRegion (x : ℕ) :
    (w.decRegion r).heldRegionRefs x = w.heldRegionRefs x := by
  simp [World.heldRegionRefs]

/-- Dropping a reference of one region leaves the others. -/
theorem regions_decRegion_other {x : ℕ} (hx : x ≠ r) :
    (w.decRegion r).regions x = w.regions x := by
  unfold World.decRegion World.shmDealloc World.posixipcShmobjClose World.posixipcShmClose
  simp only
  split_ifs <;> simp [World.modRegion, hx]

/-- A region with two references outlives the loss of one. -/
theorem regions_decRegion_self (hr : 2 ≤ (w.regions r).refs) :
    (w.decRegion r).regions r = { w.regions r with refs := (w.regions r).refs - 1 } := by
  unfold World.decRegion
  rw [if_neg]
  · simp [World.modRegion]
  · simp only [World.modRegion, Function.update_self]
    omega

/-- The caller keeps its reference when another one is dropped. -/
theorem Caller.decRegion {x : ℕ} (hc : Caller w x)
    (hspare : x = r → w.heldRegionRefs x + 1 < (w.regions x).refs) : Caller (w.decRegion r) x := by
  by_cases hx : x = r
  · subst hx
    have hlt := hspare rfl
    have hself := regions_decRegion_self (w := w) (r := x) (by omega)
    refine ⟨?_, ?_⟩
    · rw [hself]
      exact hc.isOpen
    · rw [hself, heldRegionRefs_decRegion]
      simp only
      omega
  · refine ⟨?_, ?_⟩
    · rw [regions_decRegion_other hx]
      exact hc.isOpen
    · rw [regions_decRegion_other hx, heldRegionRefs_decRegion]
      exact hc.spare

/-- The handle that a `bind` leaves behind. -/
def Handle.bindTo (hd : Handle) (r : ℕ) : Handle :=
  { hd with region := some r, ptr := if hd.kind = .bytes then none else some r, bound := true }

/-- A handle that was bound has a region. -/
theorem Handle.bindTo_sound (hd : Handle) (r : ℕ) : (hd.bindTo r).Sound := by
  intro hkind _
  have hkind' : hd.kind ≠ .bytes := hkind
  simp [Handle.bindTo, hkind']

/-- A region is pinned and referred to, and the handle is bound to it. -/
def World.bindPinned (w : World) (h r : ℕ) (hd : Handle) : World :=
  { w.modRegion r fun x => { x with pins := x.pins + 1, refs := x.refs + 1 } with
    handles := w.handles.set h (hd.bindTo r) }

/-- Binding adds one pin and one reference at the new region. -/
theorem regions_bindPinned (x : ℕ) : (w.bindPinned h r hd).regions x =
    if x = r then
      { w.regions x with pins := (w.regions x).pins + 1, refs := (w.regions x).refs + 1 }
    else w.regions x :=
  regions_modRegion w x r fun x => { x with pins := x.pins + 1, refs := x.refs + 1 }

/-- What `bindPinned` leaves of the books: the old region has a pin and a reference that
nothing accounts for. -/
theorem Books.bindPinned (hb : Books M w) (hlt : r < w.nregions)
    (hisOpen : (w.regions r).isClosed = false) (hh : w.handles[h]? = some hd)
    (hnoexp : w.NotExported h) (huse : M.calls → w.NotInUse h)
    (hfresh : M.exact → hd.region = none ∧ hd.closed = false) :
    Books M (w.bindPinned h r hd) ∧
      ∀ x, (w.regions x).refs + (w.bindPinned h r hd).heldRegionRefs x + hd.regionRefs x =
        ((w.bindPinned h r hd).regions x).refs + w.heldRegionRefs x := by
  have hnew : ∀ x, (hd.bindTo r).regionRefs x = if x = r then 1 else 0 := by
    intro x
    by_cases hx : x = r
    · simp [Handle.regionRefs, Handle.bindTo, hx]
    · simp [Handle.regionRefs, Handle.bindTo, hx, Ne.symm hx]
  have hregs : ∀ x, ((w.bindPinned h r hd).regions x).refs =
        (w.regions x).refs + (if x = r then 1 else 0) ∧
      ((w.bindPinned h r hd).regions x).pins = (w.regions x).pins + (if x = r then 1 else 0) := by
    intro x
    rw [regions_bindPinned]
    split_ifs <;> simp
  have hrefs : ∀ x, (w.bindPinned h r hd).heldRegionRefs x + hd.regionRefs x =
      w.heldRegionRefs x + if x = r then 1 else 0 := by
    intro x
    have hset := heldRegionRefs_setHandle w x (hd.bindTo r) hh
    rw [hnew] at hset
    exact hset
  have hheld : ∀ x, (w.bindPinned h r hd).held x + hd.regionRefs x =
      w.held x + if x = r then 1 else 0 := by
    intro x
    have hset := held_setHandle w x (hd.bindTo r) hh
    rw [hnew] at hset
    exact hset
  refine ⟨?_, ?_⟩
  · refine hb.replace hh rfl rfl rfl rfl ?_ (.inl hnoexp) (fun hM => .inl (huse hM))
      (fun _ => hd.bindTo_sound r) ?_
    · refine hb.acc.shift rfl ?_ ?_ ?_ ?_ ?_
      · intro x
        have h1 := hheld x
        rw [(hregs x).2]
        split_ifs at h1 ⊢ <;> omega
      · intro he x
        have h1 := hheld x
        rw [Handle.regionRefs_none (hfresh he).1] at h1
        rw [(hregs x).2]
        split_ifs at h1 ⊢ <;> omega
      · intro x
        have h1 := hrefs x
        rw [(hregs x).1]
        omega
      · intro x hx
        have hne : x ≠ r := by omega
        rw [regions_bindPinned, if_neg hne]
      · intro _ x hx
        have h1 : (w.bindPinned h r hd).bindings x + hd.regionRefs x =
            w.bindings x + (hd.bindTo r).regionRefs x := bindings_setHandle w x (hd.bindTo r) hh
        rw [hnew] at h1
        rw [regions_bindPinned]
        split_ifs at h1 ⊢ with hxr
        · rw [hxr]
          exact .inl hisOpen
        · exact .inr ⟨by omega, rfl⟩
    · intro he hc
      rw [show (hd.bindTo r).closed = false from (hfresh he).2] at hc
      cases hc
  · intro x
    have h1 := hrefs x
    rw [(hregs x).1]
    omega

/-- The conditions under which the books stay right when `h` is bound. -/
structure Bindable (M : Mode) (w : World) (h : ℕ) (fault : World.BindFault) : Prop where
  noexp : fault = .none → w.NotExported h
  unused : M.calls → fault = .none → w.NotInUse h
  fresh : M.exact → fault = .none → ∀ hd, w.handles[h]? = some hd →
    hd.region = none ∧ hd.closed = false
  late : M.pointers → fault = .late → ∀ hd, w.handles[h]? = some hd → hd.kind = .queue →
    hd.closed = true ∨ hd.bound = false

/-- **One binding** to a region that is open. -/
theorem Books.bindHandle {fault : World.BindFault} (hb : Books M w)
    (hisOpen : (w.regions r).isClosed = false) (hok : Bindable M w h fault) :
    Books M (w.bindHandle h r fault).1 ∧
      (w.heldRegionRefs r < (w.regions r).refs → Caller (w.bindHandle h r fault).1 r) := by
  have hlt : r < w.nregions := by
    by_contra hlt
    rw [hb.acc.unborn r (not_lt.mp hlt)] at hisOpen
    cases hisOpen
  unfold World.bindHandle
  cases hh : w.handles[h]? with
  | none => exact ⟨hb, fun hspare => ⟨hisOpen, hspare⟩⟩
  | some hd =>
      simp only
      by_cases hearly : fault = .early
      · rw [if_pos hearly]
        exact ⟨hb, fun hspare => ⟨hisOpen, hspare⟩⟩
      rw [if_neg hearly]
      obtain ⟨q, hq⟩ : ∃ q : Handle,
          q = if hd.kind = .queue then { hd with ptr := some r } else hd := ⟨_, rfl⟩
      rw [← hq]
      have hq_kind : q.kind = hd.kind := by rw [hq]; split_ifs <;> rfl
      have hq_closed : q.closed = hd.closed := by rw [hq]; split_ifs <;> rfl
      have hq_region : q.region = hd.region := by rw [hq]; split_ifs <;> rfl
      have hq_mutex : q.mutex = hd.mutex := by rw [hq]; split_ifs <;> rfl
      have hq_bind : q.bindTo r = hd.bindTo r := by rw [hq]; split_ifs <;> rfl
      have hcw : ∀ x, (w.setHandle h q).heldRegionRefs x = w.heldRegionRefs x := by
        intro x
        have hset := heldRegionRefs_setHandle w x q hh
        have heq : q.regionRefs x = hd.regionRefs x := by simp [Handle.regionRefs, hq_region]
        omega
      by_cases hlate : fault = .late
      · rw [if_pos hlate]
        refine ⟨hb.setHandle hh hq_closed hq_region hq_mutex fun hM => ?_, ?_⟩
        · -- the pointers of a queue that was bound would be wrong here
          by_cases hkind : hd.kind = .queue
          · intro _ hqueue
            obtain ⟨hopen, hbound⟩ := hqueue (hq_kind.trans hkind)
            rcases hok.late hM hlate hd hh hkind with hcl | hun
            · rw [hq_closed, hcl] at hopen
              cases hopen
            · have hq_bound : q.bound = hd.bound := by
                rw [hq, if_pos hkind]
              rw [hq_bound, hun] at hbound
              cases hbound
          · rw [if_neg hkind] at hq
            rw [hq]
            exact hb.sound hM hd (List.mem_of_getElem? hh)
        · exact fun hspare => ⟨hisOpen, by rw [hcw]; exact hspare⟩
      rw [if_neg hlate]
      have hpin : (w.setHandle h q).posixipcShmobjPin r =
          some ((w.setHandle h q).modRegion r fun x => { x with pins := x.pins + 1 }) := by
        unfold World.posixipcShmobjPin
        rw [if_neg]
        have hopen : ((w.setHandle h q).regions r).isClosed = false := hisOpen
        rw [hopen]
        exact Bool.false_ne_true
      rw [hpin]
      simp only
      -- the world in which the region is pinned and the handle bound
      have hworld : ((((w.setHandle h q).modRegion r
          fun x => { x with pins := x.pins + 1 }).incRegion r).setHandle h (q.bindTo r)) =
          w.bindPinned h r hd := by
        simp [World.setHandle, World.incRegion, World.modRegion, World.bindPinned, hq_bind]
      have hworld' : ((((w.setHandle h q).modRegion r
          fun x => { x with pins := x.pins + 1 }).incRegion r).setHandle h { q with
            region := some r, ptr := if q.kind = .bytes then none else some r, bound := true }) =
          w.bindPinned h r hd := hworld
      rw [hworld']
      have hnone : fault = .none := by
        cases fault with
        | none => rfl
        | early => exact absurd rfl hearly
        | late => exact absurd rfl hlate
      obtain ⟨hb1, hrefs⟩ := hb.bindPinned hlt hisOpen hh (hok.noexp hnone)
        (fun hM => hok.unused hM hnone) fun he => hok.fresh he hnone hd hh
      have hc1 : w.heldRegionRefs r < (w.regions r).refs → Caller (w.bindPinned h r hd) r := by
        intro hspare
        refine ⟨?_, ?_⟩
        · rw [regions_bindPinned, if_pos rfl]
          exact hisOpen
        · have h1 := hrefs r
          omega
      rw [hq_region]
      cases hr : hd.region with
      | none => exact ⟨hb1, hc1⟩
      | some old =>
          simp only
          have hone : hd.regionRefs old = 1 := by simp [Handle.regionRefs, hr]
          refine ⟨hb1.decRegion ?_, fun hspare => (hc1 hspare).decRegion ?_⟩
          · have h1 := hrefs old
            have h2 := hb.acc.refs_ge old
            omega
          · rintro rfl
            have h1 := hrefs r
            omega

/-- What a binding of `h` leaves alone. -/
structure OnlyHandle (w w' : World) (h : ℕ) : Prop where
  views : w'.views = w.views
  calls : w'.calls = w.calls
  layouts : w'.layouts = w.layouts
  length : w'.handles.length = w.handles.length
  other : ∀ k, k ≠ h → w'.handles[k]? = w.handles[k]?

/-- A step that writes one handle, and regions. -/
theorem OnlyHandle.of_set (hv : w'.views = w.views) (hc : w'.calls = w.calls)
    (hl : w'.layouts = w.layouts) (hh : w'.handles = w.handles.set h hd') : OnlyHandle w w' h where
  views := hv
  calls := hc
  layouts := hl
  length := by rw [hh, List.length_set]
  other k hk := by rw [hh, getElem?_set_other hk]

/-- A step that does nothing. -/
theorem onlyHandle_refl (w : World) (h : ℕ) : OnlyHandle w w h :=
  ⟨rfl, rfl, rfl, rfl, fun _ _ => rfl⟩

/-- Steps on one handle follow each other. -/
theorem OnlyHandle.trans {w₁ w₂ w₃ : World} (h₁ : OnlyHandle w₁ w₂ h) (h₂ : OnlyHandle w₂ w₃ h) :
    OnlyHandle w₁ w₃ h where
  views := h₂.views.trans h₁.views
  calls := h₂.calls.trans h₁.calls
  layouts := h₂.layouts.trans h₁.layouts
  length := h₂.length.trans h₁.length
  other k hk := (h₂.other k hk).trans (h₁.other k hk)

/-- Dropping a reference of a region writes no handle. -/
theorem OnlyHandle.decRegion (ho : OnlyHandle w w' h) : OnlyHandle w (w'.decRegion r) h where
  views := views_decRegion.trans ho.views
  calls := calls_decRegion.trans ho.calls
  layouts := layouts_decRegion.trans ho.layouts
  length := by rw [handles_decRegion, ho.length]
  other k hk := by rw [handles_decRegion, ho.other k hk]

/-- `posixipc_shmobj_pin` writes one region only. -/
theorem frame_pin (hpin : w.posixipcShmobjPin r = some w') :
    w'.views = w.views ∧ w'.calls = w.calls ∧ w'.layouts = w.layouts ∧ w'.handles = w.handles := by
  unfold World.posixipcShmobjPin at hpin
  split_ifs at hpin
  obtain rfl := Option.some.inj hpin
  exact ⟨rfl, rfl, rfl, rfl⟩

/-- Binding a handle writes that handle only, whether it fails or not. -/
theorem onlyHandle_bindHandle (w : World) (h r : ℕ) (fault : World.BindFault) :
    OnlyHandle w (w.bindHandle h r fault).1 h := by
  unfold World.bindHandle
  cases hh : w.handles[h]? with
  | none => exact onlyHandle_refl w h
  | some hd =>
      simp only
      by_cases hearly : fault = .early
      · rw [if_pos hearly]
        exact onlyHandle_refl w h
      rw [if_neg hearly]
      by_cases hlate : fault = .late
      · rw [if_pos hlate]
        exact OnlyHandle.of_set rfl rfl rfl rfl
      rw [if_neg hlate]
      generalize (if hd.kind = .queue then { hd with ptr := some r } else hd : Handle) = q
      cases hpin : (w.setHandle h q).posixipcShmobjPin r with
      | none => exact OnlyHandle.of_set rfl rfl rfl rfl
      | some w2 =>
          obtain ⟨hv, hcl, hla, hha⟩ := frame_pin hpin
          have hq : OnlyHandle w (w.setHandle h q) h := OnlyHandle.of_set rfl rfl rfl rfl
          have hset : ∀ kd, OnlyHandle w ((w2.incRegion r).setHandle h kd) h := by
            intro kd
            have hh2 : ((w2.incRegion r).setHandle h kd).handles =
                (w.setHandle h q).handles.set h kd := by
              rw [← hha]
              rfl
            exact hq.trans (OnlyHandle.of_set hv hcl hla hh2)
          cases hr : q.region with
          | none => exact hset _
          | some old => exact (hset _).decRegion

/-- A binding of another handle does not matter for the conditions on `k`. -/
theorem Bindable.other {k : ℕ} {fault : World.BindFault} (hok : Bindable M w k fault)
    (ho : OnlyHandle w w' h) (hk : k ≠ h) : Bindable M w' k fault where
  noexp hf v hv := hok.noexp hf v (ho.views ▸ hv)
  unused hM hf c hc := hok.unused hM hf c (ho.calls ▸ hc)
  fresh he hf hd hh := hok.fresh he hf hd (ho.other k hk ▸ hh)
  late hM hl hd hh := hok.late hM hl hd (ho.other k hk ▸ hh)

/-- The bindings that `layout_bind_all` tries: it ends with the first that fails. -/
def attempts : List ℕ → List World.BindFault → List (ℕ × World.BindFault)
  | [], _ => []
  | h :: hs, faults =>
    (h, faults.headD .none) :: if faults.headD .none = .none then attempts hs faults.tail else []

/-- An attempt is made on one of the handles. -/
theorem mem_of_attempts {hs : List ℕ} {faults : List World.BindFault} {a : ℕ × World.BindFault}
    (ha : a ∈ attempts hs faults) : a.1 ∈ hs := by
  induction hs generalizing faults with
  | nil => cases ha
  | cons h hs ih =>
      rw [attempts, List.mem_cons] at ha
      rcases ha with rfl | ha
      · exact List.mem_cons_self
      · split_ifs at ha
        · exact List.mem_cons_of_mem h (ih ha)
        · cases ha

/-- A binding with a fault fails. -/
theorem fault_of_bindHandle {fault : World.BindFault} (h1 : w.bindHandle h r fault = (w', true)) :
    fault = .none := by
  unfold World.bindHandle at h1
  split at h1
  · cases h1
  · cases fault with
    | none => rfl
    | early =>
        rw [if_pos rfl] at h1
        cases h1
    | late =>
        rw [if_neg (by simp)] at h1
        simp only [if_pos] at h1
        cases h1

/-- **All bindings of a layout**, whose handles are distinct. -/
theorem Books.layoutBindAll {hs : List ℕ} {faults : List World.BindFault} (hb : Books M w)
    (hc : Caller w r) (hnodup : hs.Nodup)
    (hok : ∀ a ∈ attempts hs faults, Bindable M w a.1 a.2) :
    Books M (World.layoutBindAll r w hs faults).1 ∧
      Caller (World.layoutBindAll r w hs faults).1 r := by
  induction hs generalizing w faults with
  | nil => exact ⟨hb, hc⟩
  | cons h hs ih =>
      unfold World.layoutBindAll
      obtain ⟨hnotin, hnodup'⟩ := List.nodup_cons.mp hnodup
      have hhead : Bindable M w h (faults.headD .none) :=
        hok (h, faults.headD .none) List.mem_cons_self
      have hbind := hb.bindHandle hc.isOpen hhead
      have ho := onlyHandle_bindHandle w h r (faults.headD .none)
      cases hres : w.bindHandle h r (faults.headD .none) with
      | mk w1 ok =>
          rw [hres] at hbind ho
          cases ok with
          | false => exact ⟨hbind.1, hbind.2 hc.spare⟩
          | true =>
              have hnone := fault_of_bindHandle hres
              refine ih hbind.1 (hbind.2 hc.spare) hnodup' ?_
              intro a ha
              have hmem : a ∈ attempts (h :: hs) faults := by
                rw [attempts, if_pos hnone]
                exact List.mem_cons_of_mem _ ha
              refine (hok a hmem).other ho ?_
              rintro rfl
              exact hnotin (mem_of_attempts ha)

end PosixIpc
