/-
# Runs of the operations on regions and handles

* `Mode.Ok` : the conditions on one operation and the world before it;
* `kept_step` : an operation that meets them keeps the books;
* `books_of_run` : the books are right in every run.
-/
import PosixIpc.RegionPins

namespace PosixIpc

open Ledger

variable {M : Mode} {w w' : World} {r h i : ℕ} {hd hd' : Handle}

/-! ## New regions, handles and layouts -/

/-- A new region has no references but the caller's. -/
theorem Books.newRegion (hb : Books M w) :
    Books M w.newRegion ∧ Caller w.newRegion w.nregions := by
  have hdef : w.regions w.nregions = default := hb.acc.unborn _ le_rfl
  have hpins := hb.acc.pins_ge w.nregions
  have hrefs := hb.acc.refs_ge w.nregions
  rw [hdef] at hpins hrefs
  have hheld0 : (w.held w.nregions : ℤ) ≤ 0 := hpins
  have hrefs0 : w.heldRegionRefs w.nregions ≤ 0 := hrefs
  have hother : ∀ x, x ≠ w.nregions → w.newRegion.regions x = w.regions x := by
    intro x hx
    simp [World.newRegion, hx]
  have hself : w.newRegion.regions w.nregions = ⟨1, 0, false, true⟩ := by simp [World.newRegion]
  refine ⟨hb.frame ⟨?_, ?_, ?_, ?_, ?_⟩ rfl rfl rfl hb.log, ?_, ?_⟩
  · intro x
    show (w.held x : ℤ) ≤ _
    by_cases hx : x = w.nregions
    · rw [hx, hself]
      exact hheld0
    · rw [hother x hx]
      exact hb.acc.pins_ge x
  · intro he x
    show _ = (w.held x : ℤ)
    by_cases hx : x = w.nregions
    · rw [hx, hself]
      show (0 : ℤ) = w.held w.nregions
      omega
    · rw [hother x hx]
      exact hb.acc.pins_eq he x
  · intro x
    show w.heldRegionRefs x ≤ _
    by_cases hx : x = w.nregions
    · rw [hx, hself]
      show w.heldRegionRefs w.nregions ≤ 1
      omega
    · rw [hother x hx]
      exact hb.acc.refs_ge x
  · intro x hx
    have hx' : w.nregions + 1 ≤ x := hx
    rw [hother x (by omega)]
    exact hb.acc.unborn x (by omega)
  · intro hf x hx
    by_cases hxn : x = w.nregions
    · rw [hxn, hself]
      rfl
    · rw [hother x hxn]
      exact hb.acc.live hf x hx
  · rw [hself]
    rfl
  · rw [hself]
    show w.heldRegionRefs w.nregions < 1
    omega

/-- A handle that refers to nothing is added. -/
theorem Books.pushHandle (hb : Books M w) (hr : hd.region = none) (hp : hd.ptr = none) :
    Books M { w with handles := w.handles ++ [hd] } where
  acc := by
    have hrefs : ∀ x, hd.regionRefs x = 0 := Handle.regionRefs_none hr
    refine hb.acc.shift rfl ?_ ?_ ?_ (fun _ _ => rfl) (live_same ?_ fun _ => rfl)
    · intro x
      simp [World.held, hrefs]
    · intro _ x
      simp [World.held, hrefs]
    · intro x
      simp [World.heldRegionRefs, hrefs]
    · intro x
      simp [World.bindings, hrefs]
  exported v hv hrel k hk := by
    obtain ⟨kd, hget, hkd⟩ := hb.exported v hv hrel k hk
    exact ⟨kd, getElem?_snoc_of_some hget, hkd⟩
  own := hb.own
  log := hb.log
  backed hM c hc hactive := by
    obtain ⟨⟨sd, hget, hreg⟩, hmutex⟩ := hb.backed hM c hc hactive
    refine ⟨⟨sd, getElem?_snoc_of_some hget, hreg⟩, fun m x hmx => ?_⟩
    obtain ⟨⟨md, hmget, hmreg⟩, sd', hget', hsd'⟩ := hmutex m x hmx
    exact ⟨⟨md, getElem?_snoc_of_some hmget, hmreg⟩, sd', getElem?_snoc_of_some hget', hsd'⟩
  sound hM kd hkd := by
    rcases List.mem_append.mp hkd with hkd | hkd
    · exact hb.sound hM kd hkd
    · obtain rfl : kd = hd := by simpa using hkd
      exact fun _ _ => hp.trans hr.symm
  shut he kd hkd hc := by
    rcases List.mem_append.mp hkd with hkd | hkd
    · exact hb.shut he kd hkd hc
    · obtain rfl : kd = hd := by simpa using hkd
      exact hr

/-- The layouts hold no region, so a new list of them leaves the account as it is. -/
theorem Books.ofLayouts (hb : Books M w) (ls : List Layout) : Books M { w with layouts := ls } :=
  hb.frame ⟨hb.acc.pins_ge, hb.acc.pins_eq, hb.acc.refs_ge, hb.acc.unborn, hb.acc.live⟩ rfl rfl rfl
    hb.log

/-- Emptying a layout drops its handles one by one. -/
theorem Books.drainLayout {l : ℕ} {hs : List ℕ} (hb : Books M w) :
    Books M (World.drainLayout l w hs) := by
  induction hs generalizing w with
  | nil => exact hb.ofLayouts _
  | cons k hs ih =>
      have hb1 : Books M (w.setLayout l ⟨hs.reverse, 1⟩) := hb.ofLayouts _
      exact ih hb1.dropHandle

/-- **`create`, `attach` and `open_or_create`.** -/
theorem Books.layoutOpen {hs : List ℕ} {faults : List World.BindFault} (hb : Books M w)
    (hnodup : hs.Nodup) (hok : ∀ a ∈ attempts hs faults, Bindable M w a.1 a.2) :
    Books M (w.layoutOpen hs faults) := by
  obtain ⟨hb1, hc1⟩ := hb.newRegion
  have hok1 : ∀ a ∈ attempts hs faults, Bindable M w.newRegion a.1 a.2 := by
    intro a ha
    exact ⟨(hok a ha).noexp, (hok a ha).unused, (hok a ha).fresh, (hok a ha).late⟩
  obtain ⟨hb2, hc2⟩ := hb1.layoutBindAll hc1 hnodup hok1
  unfold World.layoutOpen
  cases hres : World.layoutBindAll w.nregions w.newRegion hs faults with
  | mk w2 ok =>
      rw [hres] at hb2 hc2
      cases ok with
      | false => exact hb2.decRegion hc2.spare
      | true => exact hb2

/-! ## Buffers -/

/-- A pin succeeds only on an open region. -/
theorem pin_eq_some (hpin : w.posixipcShmobjPin r = some w') :
    w' = w.modRegion r fun x => { x with pins := x.pins + 1 } := by
  unfold World.posixipcShmobjPin at hpin
  split_ifs at hpin
  exact (Option.some.inj hpin).symm

section Counters

variable (w r) (x : ℕ)

/-- A pin is counted at its own region only. -/
theorem pins_pin : ((w.modRegion r fun y => { y with pins := y.pins + 1 }).regions x).pins =
    (w.regions x).pins + if x = r then 1 else 0 := by
  rw [regions_modRegion]
  split_ifs <;> simp

/-- A pin is not a reference. -/
theorem refs_pin : ((w.modRegion r fun y => { y with pins := y.pins + 1 }).regions x).refs =
    (w.regions x).refs := by
  rw [regions_modRegion]
  split_ifs <;> rfl

/-- `posixipc_shmobj_unpin` takes one pin from its own region. -/
theorem pins_unpin : ((w.posixipcShmobjUnpin r).regions x).pins =
    (w.regions x).pins - if x = r then 1 else 0 := by
  rw [World.posixipcShmobjUnpin, regions_modRegion]
  split_ifs <;> simp

/-- `posixipc_shmobj_unpin` drops no reference. -/
theorem refs_unpin : ((w.posixipcShmobjUnpin r).regions x).refs = (w.regions x).refs := by
  rw [World.posixipcShmobjUnpin, regions_modRegion]
  split_ifs <;> rfl

/-- A reference is not a pin. -/
theorem pins_incRegion : ((w.incRegion r).regions x).pins = (w.regions x).pins := by
  rw [World.incRegion, regions_modRegion]
  split_ifs <;> rfl

/-- A pin does not open or close a region. -/
theorem isClosed_pin : ((w.modRegion r fun y => { y with pins := y.pins + 1 }).regions x).isClosed =
    (w.regions x).isClosed := by
  refine isClosed_modRegion _ _ ?_
  intro y
  rfl

/-- `posixipc_shmobj_unpin` does not open or close a region. -/
theorem isClosed_unpin : ((w.posixipcShmobjUnpin r).regions x).isClosed =
    (w.regions x).isClosed := by
  unfold World.posixipcShmobjUnpin
  refine isClosed_modRegion _ _ ?_
  intro y
  rfl

/-- A reference does not open or close a region. -/
theorem isClosed_incRegion : ((w.incRegion r).regions x).isClosed = (w.regions x).isClosed := by
  unfold World.incRegion
  refine isClosed_modRegion _ _ ?_
  intro y
  rfl

/-- A reference is counted at its own region only. -/
theorem refs_incRegion : ((w.incRegion r).regions x).refs =
    (w.regions x).refs + if x = r then 1 else 0 := by
  rw [World.incRegion, regions_modRegion]
  split_ifs <;> simp

end Counters

/-- An open region exists. -/
theorem Accounts.lt_of_pin (hacc : Accounts M w) (hpin : w.posixipcShmobjPin r = some w') :
    r < w.nregions := by
  by_contra hlt
  unfold World.posixipcShmobjPin at hpin
  rw [hacc.unborn r (not_lt.mp hlt)] at hpin
  simp [default, Region.isClosed] at hpin

/-- A buffer into `r` is exported, with its pin and the references of its exporter. -/
theorem Books.pushView {v : PyBuffer} (hb : Books M w) (hlt : r < w.nregions) (regs : ℕ → Region)
    (hv : v.released = false) (htarget : v.target = r)
    (hpins : ∀ x, (regs x).pins = (w.regions x).pins + if x = r then 1 else 0)
    (hrefs : ∀ x, (regs x).refs = (w.regions x).refs + v.regionRefs x)
    (hother : ∀ x, x ≠ r → regs x = w.regions x)
    (hflag : ∀ x, (regs x).isClosed = (w.regions x).isClosed)
    (hbytes : ∀ h, v.exporter = .bytes h → w.BoundTo h r)
    (hregion : ∀ x, v.exporter = .region x → x = r) :
    Books M { w with regions := regs, views := w.views ++ [v] } where
  acc := by
    have hshare : ∀ x, v.share x = if x = r then 1 else 0 := by
      intro x
      by_cases hx : x = r
      · simp [PyBuffer.share, PyBuffer.holds, hv, htarget, hx]
      · simp [PyBuffer.share, PyBuffer.holds, hv, htarget, hx, Ne.symm hx]
    refine hb.acc.shift rfl ?_ ?_ ?_ ?_ (live_same (fun _ => le_rfl) hflag)
    · intro x
      simp only [World.held, total_snoc, hpins, hshare]
      split_ifs <;> omega
    · intro _ x
      simp only [World.held, total_snoc, hpins, hshare]
      split_ifs <;> omega
    · intro x
      simp only [World.heldRegionRefs, total_snoc, hrefs]
      omega
    · intro x hx
      exact hother x (by omega)
  exported u hu hrel k hk := by
    rcases List.mem_append.mp hu with hu | hu
    · exact hb.exported u hu hrel k hk
    · obtain rfl : u = v := by simpa using hu
      obtain ⟨kd, hget, hreg⟩ := hbytes k hk
      rw [htarget]
      exact ⟨kd, hget, .inl hreg⟩
  own u hu x hx := by
    rcases List.mem_append.mp hu with hu | hu
    · exact hb.own u hu x hx
    · obtain rfl : u = v := by simpa using hu
      rw [htarget]
      exact (hregion x hx).symm
  log := hb.log
  backed := hb.backed
  sound := hb.sound
  shut := hb.shut

/-- A view of a `Bytes` handle takes a pin and a reference of the handle's region. -/
theorem Books.bytesGetbuffer (hb : Books M w) : Books M (w.bytesGetbuffer h).1 := by
  unfold World.bytesGetbuffer
  cases hh : w.handles[h]? with
  | none => exact hb
  | some hd =>
      simp only
      cases ho : World.bytesOpen hd with
      | none => exact hb
      | some r =>
          simp only
          cases hpin : w.posixipcShmobjPin r with
          | none => exact hb
          | some w1 =>
              have hreg : hd.region = some r := by
                unfold World.bytesOpen at ho
                split_ifs at ho
                exact ho
              obtain rfl := pin_eq_some hpin
              have hno : ∀ x, (⟨.bytes h, r, false⟩ : PyBuffer).regionRefs x = 0 := by
                intro x
                simp [PyBuffer.regionRefs]
              refine hb.pushView (hb.acc.lt_of_pin hpin) _ rfl rfl ?_ ?_ ?_ (isClosed_pin w r) ?_ ?_
              · exact pins_pin w r
              · intro x
                rw [refs_pin, hno, Nat.add_zero]
              · intro x hx
                rw [regions_modRegion, if_neg hx]
              · intro k hk
                obtain rfl : h = k := by simpa using hk
                exact ⟨hd, hh, hreg⟩
              · intro x hx
                cases hx

/-- A view of a region takes a pin and a reference of it. -/
theorem Books.shmGetbuffer (hb : Books M w) : Books M (w.shmGetbuffer r) := by
  unfold World.shmGetbuffer
  cases hpin : w.posixipcShmobjPin r with
  | none => exact hb
  | some w1 =>
      obtain rfl := pin_eq_some hpin
      have hone : ∀ x,
          (⟨.region r, r, false⟩ : PyBuffer).regionRefs x = if x = r then 1 else 0 := by
        intro x
        by_cases hx : x = r
        · simp [PyBuffer.regionRefs, hx]
        · simp [PyBuffer.regionRefs, hx, Ne.symm hx]
      refine hb.pushView (hb.acc.lt_of_pin hpin) _ rfl rfl ?_ ?_ ?_
        (fun x => (isClosed_incRegion _ r x).trans (isClosed_pin w r x)) ?_ ?_
      · intro x
        rw [pins_incRegion, pins_pin]
      · intro x
        rw [refs_incRegion, refs_pin, hone]
      · intro x hx
        rw [World.incRegion, regions_modRegion, regions_modRegion, if_neg hx, if_neg hx]
      · intro k hk
        cases hk
      · intro x hx
        exact (Exporter.region.inj hx).symm

/-- A buffer is released: its share of the pins of its region goes, or leaks. -/
theorem Books.releaseView {v : PyBuffer} (hb : Books M w) (hi : w.views[i]? = some v)
    (hv : v.released = false) (regs : ℕ → Region)
    (hpins : ∀ x, (w.regions x).pins - (if x = v.target then 1 else 0) ≤ (regs x).pins)
    (hexact : M.exact → ∀ x, (regs x).pins = (w.regions x).pins - if x = v.target then 1 else 0)
    (hrefs : ∀ x, (regs x).refs = (w.regions x).refs)
    (hother : ∀ x, w.nregions ≤ x → regs x = w.regions x)
    (hflag : ∀ x, (regs x).isClosed = (w.regions x).isClosed) :
    Books M { w with regions := regs, views := w.views.set i { v with released := true } } where
  acc := by
    have hshare : ∀ x, v.share x = if x = v.target then 1 else 0 := by
      intro x
      by_cases hx : x = v.target
      · simp [PyBuffer.share, PyBuffer.holds, hv, hx]
      · simp [PyBuffer.share, PyBuffer.holds, hv, hx, Ne.symm hx]
    have hzero : ∀ x, ({ v with released := true } : PyBuffer).share x = 0 := by
      intro x
      simp [PyBuffer.share, PyBuffer.holds]
    have hnoref : ∀ x, ({ v with released := true } : PyBuffer).regionRefs x = 0 := by
      intro x
      simp [PyBuffer.regionRefs]
    have hheld : ∀ x, total (PyBuffer.share x) (w.views.set i { v with released := true }) +
        (if x = v.target then 1 else 0) = total (PyBuffer.share x) w.views := by
      intro x
      have hset := total_set (w := PyBuffer.share x) (b := { v with released := true }) hi
      rw [hshare, hzero] at hset
      exact hset
    refine hb.acc.shift rfl ?_ ?_ ?_ hother (live_same (fun _ => le_rfl) hflag)
    · intro x
      have h1 := hheld x
      have h2 := hpins x
      simp only [World.held]
      split_ifs at h1 h2 <;> omega
    · intro he x
      have h1 := hheld x
      have h2 := hexact he x
      simp only [World.held]
      split_ifs at h1 h2 <;> omega
    · intro x
      have hset := total_set (w := PyBuffer.regionRefs x) (b := { v with released := true }) hi
      rw [hnoref] at hset
      simp only [World.heldRegionRefs, hrefs]
      omega
  exported u hu hrel k hk := by
    rcases mem_of_set hu with hu | rfl
    · exact hb.exported u hu hrel k hk
    · cases hrel
  own u hu x hx := by
    rcases mem_of_set hu with hu | rfl
    · exact hb.own u hu x hx
    · exact hb.own v (List.mem_of_getElem? hi) x hx
  log := hb.log
  backed := hb.backed
  sound := hb.sound
  shut := hb.shut

/-- A buffer is released and its region unpinned. -/
theorem Books.releasePinned {v : PyBuffer} (hb : Books M w) (hi : w.views[i]? = some v)
    (hv : v.released = false) (hlt : v.target < w.nregions) :
    Books M { w.posixipcShmobjUnpin v.target with
      views := w.views.set i { v with released := true } } := by
  refine hb.releaseView hi hv (w.posixipcShmobjUnpin v.target).regions
    (fun x => (pins_unpin w v.target x).ge) (fun _ => pins_unpin w v.target)
    (refs_unpin w v.target) ?_ (isClosed_unpin w v.target)
  intro x hx
  rw [World.posixipcShmobjUnpin, regions_modRegion, if_neg (by omega)]

/-- **The release of a buffer.** -/
theorem Books.bufferRelease {v : PyBuffer} (hb : Books M w) (hi : w.views[i]? = some v)
    (hv : v.released = false) : Books M (w.bufferRelease i) := by
  have hmem := List.mem_of_getElem? hi
  unfold World.bufferRelease
  simp only [hi]
  cases hx : v.exporter with
  | bytes k =>
      obtain ⟨kd, hget, hreg | ⟨hreg, hno⟩⟩ := hb.exported v hmem hv k hx
      · -- the exporter still refers to the region the buffer leads into
        have hlt := hb.acc.lt_nregions (hb.refs_pos hget hreg).ne'
        have hrel : w.bytesReleasebuffer k = w.posixipcShmobjUnpin v.target := by
          unfold World.bytesReleasebuffer
          simp only [hget, hreg]
        simp only [hrel]
        have hb1 := hb.releasePinned hi hv hlt
        rw [hx] at hb1
        exact hb1.dropHandle
      · -- the exporter was closed before: nothing is unpinned
        have hrel : w.bytesReleasebuffer k = w := by
          unfold World.bytesReleasebuffer
          simp only [hget, hreg]
        simp only [hrel]
        have hb1 := hb.releaseView hi hv w.regions (fun x => by split_ifs <;> omega)
          (fun he => absurd (M.views_of_exact he) hno) (fun _ => rfl) (fun _ _ => rfl) fun _ => rfl
        rw [hx] at hb1
        exact hb1.dropHandle
  | region x =>
      have hown := hb.own v hmem x hx
      subst hown
      have hone : v.regionRefs v.target = 1 := by simp [PyBuffer.regionRefs, hv, hx]
      have hle := le_total (w := PyBuffer.regionRefs v.target) hi
      have hge := hb.acc.refs_ge v.target
      have hlt : v.target < w.nregions := by
        refine hb.acc.lt_nregions ?_
        unfold World.heldRegionRefs at hge
        omega
      have hb1 := hb.releasePinned hi hv hlt
      rw [hx] at hb1
      refine hb1.decRegion ?_
      rw [← hx]
      have hset := total_set (w := PyBuffer.regionRefs v.target)
        (b := { v with released := true }) hi
      have hzero : ({ v with released := true } : PyBuffer).regionRefs v.target = 0 := by
        simp [PyBuffer.regionRefs]
      show total (Handle.regionRefs v.target) w.handles +
          total (PyBuffer.regionRefs v.target) (w.views.set i { v with released := true }) +
          total (Capsule.regionRefs v.target) w.capsules <
        ((w.posixipcShmobjUnpin v.target).regions v.target).refs
      rw [refs_unpin]
      unfold World.heldRegionRefs at hge
      omega

/-- A new handle is not in use. -/
theorem Books.bindable_new (hb : Books M w) (fault : World.BindFault) :
    Bindable M { w with handles := w.handles ++ [Handle.unbound .bytes none] } w.handles.length
      fault := by
  have hlt : ∀ {k : ℕ} {kd : Handle}, w.handles[k]? = some kd → k ≠ w.handles.length :=
    fun hget => (List.getElem?_eq_some_iff.mp hget).1.ne
  have hnew : ∀ hd, (w.handles ++ [Handle.unbound .bytes none])[w.handles.length]? = some hd →
      hd = Handle.unbound .bytes none := by
    intro hd hh
    simpa using hh.symm
  refine ⟨?_, ?_, ?_, ?_⟩
  · intro _ v hv hrel hx
    obtain ⟨kd, hget, -⟩ := hb.exported v hv hrel _ hx
    exact hlt hget rfl
  · intro hM _ c hc hactive
    obtain ⟨⟨sd, hget, -⟩, hmutex⟩ := hb.backed hM c hc hactive
    refine ⟨hlt hget, fun m x hmx => ?_⟩
    obtain ⟨⟨md, hmget, -⟩, -⟩ := hmutex m x hmx
    exact hlt hmget
  · intro _ _ hd hh
    rw [hnew hd hh]
    exact ⟨rfl, rfl⟩
  · intro _ _ hd hh hkind
    rw [hnew hd hh] at hkind
    cases hkind

/-- The payload view goes through a `Bytes` handle of its own. -/
theorem Books.shmGetPayload {fault : World.BindFault} (hb : Books M w) :
    Books M (w.shmGetPayload r fault) := by
  unfold World.shmGetPayload
  by_cases hclosed : (w.regions r).isClosed = true
  · rw [if_pos hclosed]
    exact hb
  · rw [if_neg hclosed]
    have hb1 : Books M { w with handles := w.handles ++ [Handle.unbound .bytes none] } :=
      hb.pushHandle rfl rfl
    have hb2 := (hb1.bindHandle (r := r) (by simpa using hclosed) (hb.bindable_new fault)).1
    have hb3 := hb2.bytesGetbuffer (h := w.handles.length)
    simp only
    split
    · exact hb3
    · next hd hh =>
        have hsound : M.pointers → ({ hd with ext := 0 } : Handle).Sound :=
          fun hM => hb3.sound hM hd (List.mem_of_getElem? hh)
        have hb4 : Books M (World.setHandle _ w.handles.length { hd with ext := 0 }) :=
          hb3.setHandle hh rfl rfl rfl hsound
        exact hb4.dropHandle

/-! ## Capsules -/

/-- A change of the capsules and of the counters. -/
theorem Books.capsules (hb : Books M w) (regs : ℕ → Region) (cs : List Capsule)
    (hpins : ∀ x, (w.regions x).pins - total (Capsule.share x) w.capsules ≤
      (regs x).pins - total (Capsule.share x) cs)
    (hexact : M.exact → ∀ x, (regs x).pins - total (Capsule.share x) cs =
      (w.regions x).pins - total (Capsule.share x) w.capsules)
    (hrefs : ∀ x, (w.regions x).refs + total (Capsule.regionRefs x) cs ≤
      (regs x).refs + total (Capsule.regionRefs x) w.capsules)
    (hother : ∀ x, w.nregions ≤ x → regs x = w.regions x)
    (hflag : ∀ x, (regs x).isClosed = (w.regions x).isClosed) :
    Books M { w with regions := regs, capsules := cs } := by
  refine hb.frame (hb.acc.shift rfl ?_ ?_ ?_ hother (live_same (fun _ => le_rfl) hflag)) rfl rfl rfl
    hb.log
  · intro x
    have hx := hpins x
    simp only [World.held]
    push_cast
    omega
  · intro he x
    have hx := hexact he x
    simp only [World.held]
    push_cast
    omega
  · intro x
    have hx := hrefs x
    simp only [World.heldRegionRefs]
    omega

/-- A live capsule has a pin for itself and one for every retain. -/
theorem Capsule.share_alive {c : Capsule} (hc : c.alive = true) (x : ℕ) :
    c.share x = if x = c.region then 1 + c.retains else 0 := by
  by_cases hx : x = c.region
  · simp [Capsule.share, Capsule.holds, hc, hx]
  · simp [Capsule.share, Capsule.holds, hc, hx, Ne.symm hx]

/-- A live capsule has one reference, to its own region. -/
theorem Capsule.regionRefs_alive {c : Capsule} (hc : c.alive = true) (x : ℕ) :
    c.regionRefs x = if x = c.region then 1 else 0 := by
  by_cases hx : x = c.region
  · simp [Capsule.regionRefs, hc, hx]
  · simp [Capsule.regionRefs, hc, hx, Ne.symm hx]

/-- A new capsule takes a pin and a reference of the mutex's region. -/
theorem Books.asCapsule (hb : Books M w) : Books M (w.posixipcMutexCapsuleNew h) := by
  unfold World.posixipcMutexCapsuleNew
  cases hh : w.handles[h]? with
  | none => exact hb
  | some hd =>
      simp only
      split_ifs with hkind
      · exact hb
      · cases ho : World.bytesOpen hd with
        | none => exact hb
        | some r =>
            simp only
            cases hpin : w.posixipcShmobjPin r with
            | none => exact hb
            | some w1 =>
                have hlt := hb.acc.lt_of_pin hpin
                obtain rfl := pin_eq_some hpin
                have hshare : ∀ x, (⟨r, 0, true⟩ : Capsule).share x = if x = r then 1 + 0 else 0 :=
                  Capsule.share_alive rfl
                have hone : ∀ x, (⟨r, 0, true⟩ : Capsule).regionRefs x = if x = r then 1 else 0 :=
                  Capsule.regionRefs_alive rfl
                refine hb.capsules _ _ ?_ ?_ ?_ ?_ ?_
                · intro x
                  rw [pins_incRegion, pins_pin, total_snoc, hshare]
                  show _ ≤ _ - ((total (Capsule.share x) w.capsules + _ : ℕ) : ℤ)
                  split_ifs <;> push_cast <;> omega
                · intro _ x
                  rw [pins_incRegion, pins_pin, total_snoc, hshare]
                  show _ - ((total (Capsule.share x) w.capsules + _ : ℕ) : ℤ) = _
                  split_ifs <;> push_cast <;> omega
                · intro x
                  rw [refs_incRegion, refs_pin, total_snoc, hone]
                  show _ + (total (Capsule.regionRefs x) w.capsules + _) ≤ _
                  omega
                · intro x hx
                  rw [World.incRegion, regions_modRegion, regions_modRegion, if_neg (by omega),
                    if_neg (by omega)]
                · exact fun x => (isClosed_incRegion _ r x).trans (isClosed_pin w r x)

/-- A live capsule has a counted reference, so its region exists. -/
theorem Books.capsule_refs {c : Capsule} (hb : Books M w) (hi : w.capsules[i]? = some c)
    (hc : c.alive = true) : 0 < (w.regions c.region).refs := by
  have hle := le_total (w := Capsule.regionRefs c.region) hi
  have hge := hb.acc.refs_ge c.region
  rw [Capsule.regionRefs_alive hc, if_pos rfl] at hle
  unfold World.heldRegionRefs at hge
  omega

/-- `retain` takes one more pin for the capsule. -/
theorem Books.capsuleRetain {c : Capsule} (hb : Books M w) (hi : w.capsules[i]? = some c)
    (hc : c.alive = true) : Books M (w.capsuleRetain i c) := by
  unfold World.capsuleRetain
  cases hpin : w.posixipcShmobjPin c.region with
  | none => exact hb
  | some w1 =>
      have hlt := hb.acc.lt_of_pin hpin
      obtain rfl := pin_eq_some hpin
      have hnew := Capsule.share_alive (c := { c with retains := c.retains + 1 }) hc
      have hnewr := Capsule.regionRefs_alive (c := { c with retains := c.retains + 1 }) hc
      have hset : ∀ x,
          total (Capsule.share x) (w.capsules.set i { c with retains := c.retains + 1 }) =
          total (Capsule.share x) w.capsules + if x = c.region then 1 else 0 := by
        intro x
        have hx := total_set (w := Capsule.share x) (b := { c with retains := c.retains + 1 }) hi
        rw [Capsule.share_alive hc, hnew] at hx
        simp only at hx
        split_ifs at hx ⊢ <;> omega
      refine hb.capsules _ _ ?_ ?_ ?_ ?_ ?_
      · intro x
        rw [pins_pin]
        show _ ≤ _ - (total (Capsule.share x) (w.capsules.set i _) : ℤ)
        rw [hset]
        split_ifs <;> push_cast <;> omega
      · intro _ x
        rw [pins_pin]
        show _ - (total (Capsule.share x) (w.capsules.set i _) : ℤ) = _
        rw [hset]
        split_ifs <;> push_cast <;> omega
      · intro x
        rw [refs_pin]
        show _ + total (Capsule.regionRefs x) (w.capsules.set i _) ≤ _
        rw [total_set_eq hi (by rw [hnewr, Capsule.regionRefs_alive hc])]
      · intro x hx
        rw [regions_modRegion, if_neg (by omega)]
      · exact isClosed_pin w c.region

/-- `release` after a `retain`. -/
theorem Books.capsuleRelease {c : Capsule} (hb : Books M w) (hi : w.capsules[i]? = some c)
    (hc : c.alive = true) (hretains : c.retains ≠ 0) : Books M (w.capsuleRelease i c) := by
  have hlt := hb.acc.lt_nregions (hb.capsule_refs hi hc).ne'
  have hnew := Capsule.share_alive (c := { c with retains := c.retains - 1 }) hc
  have hnewr := Capsule.regionRefs_alive (c := { c with retains := c.retains - 1 }) hc
  have hset : ∀ x, total (Capsule.share x) (w.capsules.set i { c with retains := c.retains - 1 }) +
      (if x = c.region then 1 else 0) = total (Capsule.share x) w.capsules := by
    intro x
    have hx := total_set (w := Capsule.share x) (b := { c with retains := c.retains - 1 }) hi
    rw [Capsule.share_alive hc, hnew] at hx
    simp only at hx
    split_ifs at hx ⊢ <;> omega
  refine hb.capsules _ _ ?_ ?_ ?_ ?_ ?_
  · intro x
    have hx := hset x
    rw [pins_unpin]
    show _ ≤ _ - (total (Capsule.share x) (w.capsules.set i _) : ℤ)
    split_ifs at hx ⊢ <;> omega
  · intro _ x
    have hx := hset x
    rw [pins_unpin]
    show _ - (total (Capsule.share x) (w.capsules.set i _) : ℤ) = _
    split_ifs at hx ⊢ <;> omega
  · intro x
    rw [refs_unpin]
    show _ + total (Capsule.regionRefs x) (w.capsules.set i _) ≤ _
    rw [total_set_eq hi (by rw [hnewr, Capsule.regionRefs_alive hc])]
  · intro x hx
    rw [World.posixipcShmobjUnpin, regions_modRegion, if_neg (by omega)]
  · exact isClosed_unpin w c.region

/-- The end of a capsule; its own pin goes, and no other. -/
theorem Books.capsuleDestructor {c : Capsule} (hb : Books M w) (hi : w.capsules[i]? = some c)
    (hc : c.alive = true) (hretains : M.exact → c.retains = 0) :
    Books M (w.capsuleDestructor i c) := by
  have hlt := hb.acc.lt_nregions (hb.capsule_refs hi hc).ne'
  have hset : ∀ x, total (Capsule.share x) (w.capsules.set i { c with alive := false }) +
      (if x = c.region then 1 + c.retains else 0) = total (Capsule.share x) w.capsules := by
    intro x
    have hx := total_set (w := Capsule.share x) (b := { c with alive := false }) hi
    rw [Capsule.share_alive hc,
      show ({ c with alive := false } : Capsule).share x = 0 by
        simp [Capsule.share, Capsule.holds]] at hx
    exact hx
  have hrefs : ∀ x, total (Capsule.regionRefs x) (w.capsules.set i { c with alive := false }) +
      (if x = c.region then 1 else 0) = total (Capsule.regionRefs x) w.capsules := by
    intro x
    have hx := total_set (w := Capsule.regionRefs x) (b := { c with alive := false }) hi
    rw [Capsule.regionRefs_alive hc,
      show ({ c with alive := false } : Capsule).regionRefs x = 0 by
        simp [Capsule.regionRefs]] at hx
    exact hx
  have hb1 : Books M { w.posixipcShmobjUnpin c.region with
      capsules := w.capsules.set i { c with alive := false } } := by
    refine hb.capsules _ _ ?_ ?_ ?_ ?_ ?_
    · intro x
      have hx := hset x
      rw [pins_unpin]
      split_ifs at hx ⊢ <;> omega
    · intro he x
      have hx := hset x
      have hzero := hretains he
      rw [pins_unpin]
      split_ifs at hx ⊢ <;> omega
    · intro x
      have hx := hrefs x
      rw [refs_unpin]
      omega
    · intro x hx
      rw [World.posixipcShmobjUnpin, regions_modRegion, if_neg (by omega)]
    · exact isClosed_unpin w c.region
  refine hb1.decRegion ?_
  have hx := hrefs c.region
  have hge := hb.acc.refs_ge c.region
  rw [if_pos rfl] at hx
  show total (Handle.regionRefs c.region) w.handles + total (PyBuffer.regionRefs c.region) w.views +
      total (Capsule.regionRefs c.region) (w.capsules.set i { c with alive := false }) <
    ((w.posixipcShmobjUnpin c.region).regions c.region).refs
  rw [refs_unpin]
  unfold World.heldRegionRefs at hge
  omega

/-! ## Blocking calls -/

/-- The pointers that a call keeps lead into the regions of its handles. -/
theorem Books.callOf {c : InFlight} (hb : Books M w) (hM : M.calls) (hc : w.callOf h = some c) :
    w.Backed c := by
  unfold World.callOf at hc
  cases hh : w.handles[h]? with
  | none => simp [hh] at hc
  | some hd =>
      simp only [hh] at hc
      cases ho : World.checkOpen hd with
      | none => simp [ho] at hc
      | some x =>
          simp only [ho] at hc
          have hbound : w.BoundTo h x := by
            unfold World.checkOpen at ho
            split_ifs at ho with hcond
            obtain ⟨hopen, hbound, hkind⟩ := hcond
            have hptr := hb.sound (M.pointers_of_calls hM) hd (List.mem_of_getElem? hh) hkind
              fun _ => ⟨hopen, hbound⟩
            exact ⟨hd, hh, hptr.symm.trans ho⟩
          by_cases hcv : hd.kind = .condition
          · rw [if_pos hcv] at hc
            cases hm : hd.mutex with
            | none => simp [hm] at hc
            | some m =>
                simp only [hm] at hc
                cases hmget : w.handles[m]? with
                | none => simp [hmget] at hc
                | some md =>
                    simp only [hmget] at hc
                    by_cases hmk : md.kind = .mutex
                    · rw [if_pos hmk] at hc
                      cases hp : md.ptr with
                      | none => simp [hp] at hc
                      | some y =>
                          simp only [hp] at hc
                          obtain rfl := Option.some.inj hc
                          have hptr := hb.sound (M.pointers_of_calls hM) md
                            (List.mem_of_getElem? hmget) (by rw [hmk]; decide)
                            (by rw [hmk]; intro hq; cases hq)
                          refine ⟨hbound, fun m' y' hmy => ?_⟩
                          obtain ⟨rfl, rfl⟩ : m = m' ∧ y = y' := by simpa using hmy
                          exact ⟨⟨md, hmget, hptr.symm.trans hp⟩, hd, hh, hm⟩
                    · rw [if_neg hmk] at hc
                      cases hc
          · rw [if_neg hcv] at hc
            obtain rfl := Option.some.inj hc
            refine ⟨hbound, fun m y hmy => ?_⟩
            cases hmy

/-- Calls hold neither pins nor references; each needs a handle that backs it. -/
theorem Books.ofCalls {cs : List InFlight} (hb : Books M w)
    (hcs : M.calls → ∀ c ∈ cs, c.active → w.Backed c) : Books M { w with calls := cs } where
  acc := ⟨hb.acc.pins_ge, hb.acc.pins_eq, hb.acc.refs_ge, hb.acc.unborn, hb.acc.live⟩
  exported := hb.exported
  own := hb.own
  log := hb.log
  backed := hcs
  sound := hb.sound
  shut := hb.shut

/-- A call that starts is backed by the handle it was made on. -/
theorem Books.startCall {c : InFlight} (hb : Books M w) (hc : w.callOf h = some c) :
    Books M { w with calls := w.calls ++ [c] } := by
  refine hb.ofCalls fun hM d hd hactive => ?_
  rcases List.mem_append.mp hd with hd | hd
  · exact hb.backed hM d hd hactive
  · obtain rfl : d = c := by simpa using hd
    exact hb.callOf hM hc

/-- A call that has ended needs nothing. -/
theorem Books.endCall {c : InFlight} (hb : Books M w) :
    Books M { w with calls := w.calls.set i { c with active := false } } := by
  refine hb.ofCalls fun hM d hd hactive => ?_
  rcases mem_of_set hd with hd | rfl
  · exact hb.backed hM d hd hactive
  · cases hactive

/-! ## The handles of a layout -/

/-- The handles of a layout exist and are distinct. -/
def Tidy (w : World) : Prop :=
  ∀ l ∈ w.layouts, l.handles.Nodup ∧ ∀ h ∈ l.handles, h < w.handles.length

/-- No layout changes and no handle goes. -/
structure Grows (w w' : World) : Prop where
  layouts : w'.layouts = w.layouts
  length : w.handles.length ≤ w'.handles.length

/-- A step that keeps the layouts and drops no handle number keeps them tidy. -/
theorem Tidy.grows (ht : Tidy w) (hg : Grows w w') : Tidy w' := by
  intro l hl
  rw [hg.layouts] at hl
  exact ⟨(ht l hl).1, fun k hk => lt_of_lt_of_le ((ht l hl).2 k hk) hg.length⟩

/-- A layout whose handles are distinct and known may replace another. -/
theorem Tidy.setLayout {l : ℕ} {x : Layout} (ht : Tidy w) (hnodup : x.handles.Nodup)
    (hlt : ∀ k ∈ x.handles, k < w.handles.length) : Tidy (w.setLayout l x) := by
  intro y hy
  rcases mem_of_set hy with hy | rfl
  · exact ht y hy
  · exact ⟨hnodup, hlt⟩

/-- What a later state has grown from. -/
theorem Later.grows (hl : Later w w') : Grows w w' := ⟨hl.layouts, hl.length.ge⟩

/-- A step on one handle keeps the layouts. -/
theorem OnlyHandle.grows (ho : OnlyHandle w w' h) : Grows w w' := ⟨ho.layouts, ho.length.ge⟩

/-- Steps that grow follow each other. -/
theorem Grows.trans {w₁ w₂ w₃ : World} (h₁ : Grows w₁ w₂) (h₂ : Grows w₂ w₃) : Grows w₁ w₃ :=
  ⟨h₂.layouts.trans h₁.layouts, h₁.length.trans h₂.length⟩

/-- A step that changes neither handles nor layouts grows. -/
theorem Grows.of_eq (hl : w'.layouts = w.layouts) (hh : w'.handles = w.handles) : Grows w w' :=
  ⟨hl, by rw [hh]⟩

/-- Dropping a reference of a region keeps the layouts. -/
theorem Grows.decRegion (hg : Grows w w') : Grows w (w'.decRegion r) :=
  hg.trans Later.decRegion.grows

/-- Dropping a handle keeps its number and the layouts. -/
theorem Grows.dropHandle (hg : Grows w w') : Grows w (w'.dropHandle h) :=
  hg.trans (later_dropHandle w' h).grows

/-- A handle that is written keeps its number. -/
theorem Grows.setHandle (hg : Grows w w') : Grows w (w'.setHandle h hd) :=
  ⟨hg.layouts, hg.length.trans_eq (List.length_set ..).symm⟩

/-- Binding the handles of a layout one after the other, to its end or to the first failure. -/
theorem grows_layoutBindAll (hs : List ℕ) (faults : List World.BindFault) :
    Grows w (World.layoutBindAll r w hs faults).1 := by
  induction hs generalizing w faults with
  | nil => exact .of_eq rfl rfl
  | cons k hs ih =>
      unfold World.layoutBindAll
      have ho := (onlyHandle_bindHandle w k r (faults.headD .none)).grows
      cases hres : w.bindHandle k r (faults.headD .none) with
      | mk w1 ok =>
          rw [hres] at ho
          cases ok with
          | false => exact ho
          | true => exact ho.trans (ih faults.tail)

/-- `create` and `attach` keep the layouts, whether every handle binds or not. -/
theorem grows_layoutOpen (hs : List ℕ) (faults : List World.BindFault) :
    Grows w (w.layoutOpen hs faults) := by
  have hnew : Grows w w.newRegion := .of_eq rfl rfl
  have hbind := hnew.trans (grows_layoutBindAll (r := w.nregions) hs faults)
  unfold World.layoutOpen
  cases hres : World.layoutBindAll w.nregions w.newRegion hs faults with
  | mk w2 ok =>
      rw [hres] at hbind
      cases ok with
      | false => exact hbind.decRegion
      | true => exact hbind

/-- A view of a `Bytes` handle keeps the layouts. -/
theorem grows_bytesGetbuffer : Grows w (w.bytesGetbuffer h).1 := by
  unfold World.bytesGetbuffer
  cases hh : w.handles[h]? with
  | none => exact .of_eq rfl rfl
  | some hd =>
      simp only
      cases ho : World.bytesOpen hd with
      | none => exact .of_eq rfl rfl
      | some r =>
          simp only
          cases hpin : w.posixipcShmobjPin r with
          | none => exact .of_eq rfl rfl
          | some w1 =>
              obtain ⟨-, -, hl, hh⟩ := frame_pin hpin
              exact .of_eq hl hh

/-- A view of a region keeps the layouts. -/
theorem grows_shmGetbuffer : Grows w (w.shmGetbuffer r) := by
  unfold World.shmGetbuffer
  cases hpin : w.posixipcShmobjPin r with
  | none => exact .of_eq rfl rfl
  | some w1 =>
      obtain ⟨-, -, hl, hh⟩ := frame_pin hpin
      exact .of_eq hl hh

/-- The payload view adds a handle and keeps the layouts. -/
theorem grows_shmGetPayload {fault : World.BindFault} : Grows w (w.shmGetPayload r fault) := by
  unfold World.shmGetPayload
  by_cases hclosed : (w.regions r).isClosed = true
  · rw [if_pos hclosed]
    exact .of_eq rfl rfl
  · rw [if_neg hclosed]
    have hpush : Grows w { w with handles := w.handles ++ [Handle.unbound .bytes none] } :=
      ⟨rfl, by simp⟩
    have hbuf := (hpush.trans (onlyHandle_bindHandle _ w.handles.length r fault).grows).trans
      (grows_bytesGetbuffer (h := w.handles.length))
    simp only
    split
    · exact hbuf
    · exact hbuf.setHandle.dropHandle

/-- Releasing a view keeps the layouts. -/
theorem grows_bufferRelease : Grows w (w.bufferRelease i) := by
  have hrel : ∀ k, Grows w (w.bytesReleasebuffer k) := by
    intro k
    unfold World.bytesReleasebuffer
    split
    · exact .of_eq rfl rfl
    · split
      · exact .of_eq rfl rfl
      · exact .of_eq rfl rfl
  unfold World.bufferRelease
  split
  · exact .of_eq rfl rfl
  · split
    · next k _ => exact Grows.dropHandle ⟨(hrel k).layouts, (hrel k).length⟩
    · exact Grows.decRegion (.of_eq rfl rfl)

/-- A new capsule keeps the layouts. -/
theorem grows_asCapsule : Grows w (w.posixipcMutexCapsuleNew h) := by
  unfold World.posixipcMutexCapsuleNew
  cases hh : w.handles[h]? with
  | none => exact .of_eq rfl rfl
  | some hd =>
      simp only
      split_ifs
      · exact .of_eq rfl rfl
      · cases ho : World.bytesOpen hd with
        | none => exact .of_eq rfl rfl
        | some r =>
            simp only
            cases hpin : w.posixipcShmobjPin r with
            | none => exact .of_eq rfl rfl
            | some w1 =>
                obtain ⟨-, -, hl, hh⟩ := frame_pin hpin
                exact .of_eq hl hh

/-! ## The step lemma -/

/-- What is asked of an operation and the world before it. -/
def Mode.Ok (M : Mode) (w : World) (op : Op) : Prop :=
  (M.fits → ∀ r < w.nregions, (w.regions r).pins < 2 ^ 32) ∧
    match op with
    | .close h => (M.views → w.NotExported h) ∧ (M.calls → w.NotInUse h)
    | .openLayout l faults => ∀ x, w.layouts[l]? = some x → ∀ a ∈ attempts x.handles faults,
        Bindable M w a.1 a.2
    | .dropCapsule i => M.exact → ∀ c, w.capsules[i]? = some c → c.retains = 0
    | _ => True

/-- Emptying a layout whose handles are distinct and known. -/
theorem Tidy.drainLayout {l : ℕ} {hs : List ℕ} (ht : Tidy w) (hnodup : hs.Nodup)
    (hlt : ∀ k ∈ hs, k < w.handles.length) : Tidy (World.drainLayout l w hs) := by
  induction hs generalizing w with
  | nil => exact ht.setLayout List.nodup_nil (by simp)
  | cons k hs ih =>
      obtain ⟨-, hnodup'⟩ := List.nodup_cons.mp hnodup
      have hl := later_dropHandle (w.setLayout l ⟨hs.reverse, 1⟩) k
      refine ih ?_ hnodup' ?_
      · refine Tidy.grows (ht.setLayout (List.nodup_reverse.mpr hnodup') ?_) hl.grows
        intro x hx
        exact hlt x (by simp [List.mem_reverse.mp hx])
      · intro x hx
        rw [hl.length]
        exact hlt x (by simp [hx])

/-- A new reference to a region. -/
theorem Books.incRegion (hb : Books M w) (hlt : r < w.nregions) : Books M (w.incRegion r) := by
  refine hb.frame (hb.acc.shift rfl ?_ ?_ ?_ ?_ (live_same (fun _ => le_rfl)
    (isClosed_incRegion w r))) rfl rfl rfl hb.log
  · intro x
    rw [pins_incRegion]
    exact le_rfl
  · intro _ x
    rw [pins_incRegion]
    rfl
  · intro x
    rw [refs_incRegion]
    show _ + w.heldRegionRefs x ≤ _ + w.heldRegionRefs x
    omega
  · intro x hx
    rw [World.incRegion, regions_modRegion, if_neg (by omega)]

/-- The user's references to a handle change. -/
theorem Books.setExt (hb : Books M w) (hh : w.handles[h]? = some hd) (n : ℕ) :
    Books M (w.setHandle h { hd with ext := n }) :=
  hb.setHandle hh rfl rfl rfl fun hM => hb.sound hM hd (List.mem_of_getElem? hh)

/-- **The step lemma**: an operation that meets its condition keeps the books right and the
handles of a layout distinct. -/
theorem kept_step {op : Op} (hb : Books M w) (ht : Tidy w) (hok : M.Ok w op)
    (hs : w.step op = some w') : Books M w' ∧ Tidy w' := by
  cases op with
  | newLayout =>
      obtain rfl := Option.some.inj hs
      refine ⟨hb.ofLayouts _, fun y hy => ?_⟩
      rcases List.mem_append.mp hy with hy | hy
      · exact ht y hy
      · obtain rfl : y = ⟨[], 1⟩ := by simpa using hy
        exact ⟨List.nodup_nil, by simp⟩
  | refLayout l =>
      simp only [World.step] at hs
      split at hs
      · cases hs
      · next x hx =>
          split_ifs at hs
          obtain rfl := Option.some.inj hs
          have hl := ht x (List.mem_of_getElem? hx)
          exact ⟨hb.ofLayouts _, ht.setLayout hl.1 hl.2⟩
  | dropLayout l =>
      simp only [World.step] at hs
      split at hs
      · cases hs
      · next x hx =>
          have hl := ht x (List.mem_of_getElem? hx)
          split_ifs at hs
          · obtain rfl := Option.some.inj hs
            exact ⟨hb.drainLayout, ht.drainLayout (List.nodup_reverse.mpr hl.1)
              fun k hk => hl.2 k (List.mem_reverse.mp hk)⟩
          · obtain rfl := Option.some.inj hs
            exact ⟨hb.ofLayouts _, ht.setLayout hl.1 hl.2⟩
  | add l kind mutex =>
      simp only [World.step] at hs
      split at hs
      · cases hs
      · next x hx =>
          have hl := ht x (List.mem_of_getElem? hx)
          split_ifs at hs
          obtain rfl := Option.some.inj hs
          have hb1 :
              Books M (w.setLayout l { x with handles := x.handles ++ [w.handles.length] }) :=
            hb.ofLayouts _
          refine ⟨hb1.pushHandle rfl rfl, ?_⟩
          -- the new handle comes after all others
          have hnew : (x.handles ++ [w.handles.length]).Nodup := by
            refine List.nodup_append.mpr ⟨hl.1, List.nodup_singleton _, ?_⟩
            intro a ha b hb
            obtain rfl : b = w.handles.length := by simpa using hb
            exact (hl.2 a ha).ne
          intro y hy
          rcases mem_of_set hy with hy | rfl
          · refine ⟨(ht y hy).1, fun k hk => ?_⟩
            have hk' := (ht y hy).2 k hk
            simp only [List.length_append, List.length_singleton]
            omega
          · refine ⟨hnew, fun k hk => ?_⟩
            simp only [List.length_append, List.length_singleton]
            rcases List.mem_append.mp hk with hk | hk
            · have hk' := hl.2 k hk
              omega
            · obtain rfl : k = w.handles.length := by simpa using hk
              omega
  | openLayout l faults =>
      simp only [World.step] at hs
      split at hs
      · cases hs
      · next x hx =>
          split_ifs at hs
          obtain rfl := Option.some.inj hs
          have hl := ht x (List.mem_of_getElem? hx)
          exact ⟨hb.layoutOpen hl.1 (hok.2 x hx), ht.grows (grows_layoutOpen _ _)⟩
  | openRaw =>
      obtain rfl := Option.some.inj hs
      exact ⟨hb.newRegion.1, ht⟩
  | close h =>
      simp only [World.step] at hs
      split at hs
      · cases hs
      · split_ifs at hs
        obtain rfl := Option.some.inj hs
        exact ⟨hb.closeHandle hok.2.1 hok.2.2, ht.grows (later_closeHandle w h).grows⟩
  | refHandle h =>
      simp only [World.step] at hs
      split at hs
      · cases hs
      · next hd hh =>
          split_ifs at hs
          obtain rfl := Option.some.inj hs
          exact ⟨hb.setExt hh _, ht.grows (Grows.setHandle (.of_eq rfl rfl))⟩
  | dropHandle h =>
      simp only [World.step] at hs
      split at hs
      · cases hs
      · next hd hh =>
          split_ifs at hs
          obtain rfl := Option.some.inj hs
          exact ⟨(hb.setExt hh _).dropHandle,
            ht.grows (Grows.dropHandle (Grows.setHandle (.of_eq rfl rfl)))⟩
  | memoryview h =>
      simp only [World.step] at hs
      split at hs
      · cases hs
      · split_ifs at hs
        obtain rfl := Option.some.inj hs
        exact ⟨hb.bytesGetbuffer, ht.grows grows_bytesGetbuffer⟩
  | memoryviewRegion r =>
      simp only [World.step] at hs
      split_ifs at hs
      obtain rfl := Option.some.inj hs
      exact ⟨hb.shmGetbuffer, ht.grows grows_shmGetbuffer⟩
  | payload r fault =>
      simp only [World.step] at hs
      split_ifs at hs
      obtain rfl := Option.some.inj hs
      exact ⟨hb.shmGetPayload, ht.grows grows_shmGetPayload⟩
  | release i =>
      simp only [World.step] at hs
      split at hs
      · cases hs
      · next v hi =>
          split_ifs at hs with hrel
          obtain rfl := Option.some.inj hs
          exact ⟨hb.bufferRelease hi (by simpa using hrel), ht.grows grows_bufferRelease⟩
  | asCapsule h =>
      simp only [World.step] at hs
      split at hs
      · cases hs
      · split_ifs at hs
        obtain rfl := Option.some.inj hs
        exact ⟨hb.asCapsule, ht.grows grows_asCapsule⟩
  | retain i =>
      simp only [World.step] at hs
      split at hs
      · cases hs
      · next c hi =>
          split_ifs at hs with halive
          obtain rfl := Option.some.inj hs
          refine ⟨hb.capsuleRetain hi halive, ?_⟩
          unfold World.capsuleRetain
          split
          · exact ht
          · next hpin =>
              obtain ⟨-, -, hl, hh⟩ := frame_pin hpin
              exact ht.grows (.of_eq hl hh)
  | releaseCapsule i =>
      simp only [World.step] at hs
      split at hs
      · cases hs
      · next c hi =>
          split_ifs at hs with halive
          obtain rfl := Option.some.inj hs
          exact ⟨hb.capsuleRelease hi halive.1 halive.2, ht⟩
  | dropCapsule i =>
      simp only [World.step] at hs
      split at hs
      · cases hs
      · next c hi =>
          split_ifs at hs with halive
          obtain rfl := Option.some.inj hs
          exact ⟨hb.capsuleDestructor hi halive fun he => hok.2 he c hi,
            ht.grows (Grows.decRegion (.of_eq rfl rfl))⟩
  | closeRegion r fails =>
      simp only [World.step] at hs
      split_ifs at hs with hrefs
      obtain rfl := Option.some.inj hs
      have hlt := hb.acc.lt_nregions hrefs
      refine ⟨hb.closeRegion hlt (fun hf => hok.1 hf r hlt) fails, ?_⟩
      unfold World.posixipcShmobjClose
      split_ifs <;> exact ht
  | refRegion r =>
      simp only [World.step] at hs
      split_ifs at hs with hrefs
      obtain rfl := Option.some.inj hs
      exact ⟨hb.incRegion (hb.acc.lt_nregions hrefs), ht⟩
  | dropRegion r =>
      simp only [World.step] at hs
      split_ifs at hs with hrefs
      obtain rfl := Option.some.inj hs
      exact ⟨hb.decRegion (not_le.mp hrefs), ht.grows (Grows.decRegion (.of_eq rfl rfl))⟩
  | startCall h =>
      simp only [World.step] at hs
      split at hs
      · cases hs
      · split_ifs at hs
        split at hs
        · obtain rfl := Option.some.inj hs
          exact ⟨hb, ht⟩
        · next c hc =>
            obtain rfl := Option.some.inj hs
            exact ⟨hb.startCall hc, ht⟩
  | endCall i =>
      simp only [World.step] at hs
      split at hs
      · cases hs
      · split_ifs at hs
        obtain rfl := Option.some.inj hs
        exact ⟨hb.endCall.dropHandle, ht.grows (Grows.dropHandle (.of_eq rfl rfl))⟩

/-- The account of the process before the first call. -/
theorem books_empty : Books M World.empty where
  acc := ⟨fun _ => le_rfl, fun _ _ => rfl, fun _ => le_rfl, fun _ _ => rfl,
    fun _ _ hr => absurd rfl hr⟩
  exported v hv := by cases hv
  own v hv := by cases hv
  log _ e he := by cases he
  backed _ c hc := by cases hc
  sound _ hd hd' := by cases hd'
  shut _ hd hd' := by cases hd'

/-- **The books are right in every run** whose operations meet a condition that is enough. -/
theorem books_of_run {Ok : World → Op → Prop} (hok : ∀ w op, Books M w → Ok w op → M.Ok w op)
    (h : World.Run Ok w) : Books M w := by
  have hkept : Books M w ∧ Tidy w := by
    refine StepSystem.Run.invariant (I := fun w => Books M w ∧ Tidy w)
      ⟨books_empty, fun l hl => by cases hl⟩ ?_ h
    rintro w op w' ⟨hb, ht⟩ hw hs
    exact kept_step hb ht (hok w op hb hw) hs
  exact hkept.1

end PosixIpc
