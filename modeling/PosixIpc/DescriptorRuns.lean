/-
# Who owns a descriptor

Runs of the objects that own a descriptor, over every interleaving of calls that have released the
GIL and every failure on the way to a new object.

* `Process.Owned` : the invariant.  Every descriptor and mapping that the module has opened belongs
  to one open object, and every `close` was of the object's own descriptor;
* `descriptors_owned` : it holds in every run in which no `NamedMessageQueue` of zeros is closed or
  dropped;
* `stray_close_iff` : that closes descriptor 0, and nothing else closes what is not its own;
* `view_keeps_mapping` : while there are views, `close()` raises `BufferError` and changes nothing;
* `calls_hit_own_descriptor` : without a `close` under a call, and without a call of a queue of
  zeros, no call reaches another file.
-/
import PosixIpc.Descriptors

namespace PosixIpc

/-! ## The invariant -/

/-- What the fields of an object say about each other. -/
structure FdObject.Tidy (o : FdObject) : Prop where
  freed : o.freed = true → o.fd = none ∧ o.views = 0
  closed : o.closed = true → o.fd = none
  map : o.map.isSome = true ↔ o.kind = .memFD ∧ o.fd.isSome = true
  pins : o.pins = o.views
  fits : o.views < 2 ^ 32
  views : o.views ≠ 0 → o.map.isSome = true
  /-- What has not been filled in is a queue, and nothing has been done to it. -/
  raw : o.bound = false → o = .zeroed .namedMQ

namespace Process

/-- **The ownership of descriptors and mappings.** -/
structure Owned (s : Process) : Prop where
  fd : ∀ i o d, s.objects[i]? = some o → o.bound = true → o.fd = some d →
    ∃ f, s.table d = some ⟨f, some i⟩
  noLeak : ∀ d f i, s.table d = some ⟨f, some i⟩ →
    ∃ o, s.objects[i]? = some o ∧ o.bound = true ∧ o.fd = some d
  map : ∀ i o m, s.objects[i]? = some o → o.map = some m → s.maps m = some i
  mapped : ∀ m i, s.maps m = some i → ∃ o, s.objects[i]? = some o ∧ o.map = some m
  tidy : ∀ (i : ℕ) (o : FdObject), s.objects[i]? = some o → o.Tidy
  calls : ∀ c ∈ s.calls, ∃ o, s.objects[c.obj]? = some o ∧ o.freed = false
  own : ∀ e ∈ s.log, e.closes = true → e.Own

/-- The files that are open at the start are not the module's. -/
theorem owned_start {table : ℕ → Option OpenFile} (h : ∀ d f i, table d ≠ some ⟨f, some i⟩) :
    Owned (start table) where
  fd i o d ho := by simp [start] at ho
  noLeak d f i hd := absurd hd (h d f i)
  map i o m ho := by simp [start] at ho
  mapped m i hm := by simp [start] at hm
  tidy i o ho := by simp [start] at ho
  calls c hc := by simp [start] at hc
  own e he := by simp [start] at he

section Rules

variable {s t : Process} {i : ℕ} {o o' : FdObject}

/-- Nothing is owned by an object that does not exist. -/
theorem Owned.not_owner_length (h : Owned s) {d f : ℕ} :
    s.table d ≠ some ⟨f, some s.objects.length⟩ := by
  intro hd
  obtain ⟨o, ho, -⟩ := h.noLeak d f _ hd
  simp at ho

/-- A system call is added to the log. -/
theorem Owned.note (h : Owned s) {l : List FdEvent} (hl : ∀ e ∈ l, e.closes = true → e.Own) :
    Owned { s with log := s.log ++ l } :=
  { h with own := fun e he => (List.mem_append.mp he).elim (h.own e) (hl e) }

/-- A change of the calls under way. -/
theorem Owned.setCalls (h : Owned s) {l : List FdCall}
    (hl : ∀ c ∈ l, ∃ o, s.objects[c.obj]? = some o ∧ o.freed = false) :
    Owned { s with calls := l } := { h with calls := hl }

/-- A descriptor that is not the module's. -/
theorem Owned.other (h : Owned s) {d : ℕ} {e : Option OpenFile}
    (hd : ∀ f i, s.table d ≠ some ⟨f, some i⟩) (he : ∀ f i, e ≠ some ⟨f, some i⟩) :
    Owned { s with table := fun x => if x = d then e else s.table x } := by
  refine { h with fd := fun i o x ho hb hx => ?_, noLeak := fun x f i hx => ?_ }
  · obtain ⟨f, hf⟩ := h.fd i o x ho hb hx
    refine ⟨f, ?_⟩
    have hne : x ≠ d := fun hxd => hd f i (hxd ▸ hf)
    simpa only [if_neg hne] using hf
  · by_cases hxd : x = d
    · simp only [if_pos hxd] at hx
      exact absurd hx (he f i)
    · simp only [if_neg hxd] at hx
      exact h.noLeak x f i hx

/-- An entry after a write is the written one or an old one. -/
theorem lookup_set {l : List FdObject} {j : ℕ} {a b : FdObject} (hi : l[i]? = some a)
    (hj : (l.set i b)[j]? = some o) : (j = i ∧ o = b) ∨ (j ≠ i ∧ l[j]? = some o) := by
  by_cases hji : j = i
  · subst hji
    have hlt : j < l.length := (List.getElem?_eq_some_iff.mp hi).1
    simp only [List.getElem?_set_self hlt, Option.some.injEq] at hj
    exact Or.inl ⟨rfl, hj.symm⟩
  · rw [List.getElem?_set_ne (Ne.symm hji)] at hj
    exact Or.inr ⟨hji, hj⟩

/-- The objects that a change of one leaves. -/
theorem exists_set {l : List FdObject} {j : ℕ} {a b : FdObject} {p : FdObject → Prop}
    (hi : l[i]? = some a) (hj : ∃ o, l[j]? = some o ∧ p o) (hb : j = i → p b) :
    ∃ o, (l.set i b)[j]? = some o ∧ p o := by
  by_cases hji : j = i
  · have hlt : i < l.length := (List.getElem?_eq_some_iff.mp hi).1
    exact ⟨b, by rw [hji, List.getElem?_set_self hlt], hb hji⟩
  · obtain ⟨o, ho, hp⟩ := hj
    exact ⟨o, by rw [List.getElem?_set_ne (Ne.symm hji), ho], hp⟩

/-- The object keeps what it owns. -/
theorem Owned.setObject (h : Owned s) (ho : s.objects[i]? = some o) (hbound : o'.bound = o.bound)
    (hfd : o'.fd = o.fd) (hmap : o'.map = o.map) (htidy : o'.Tidy)
    (hcalls : o'.freed = true → ∀ c ∈ s.calls, c.obj ≠ i) : Owned (s.setObject i o') where
  fd j a d ha hb hd := by
    rcases lookup_set ho ha with ⟨rfl, rfl⟩ | ⟨-, ha⟩
    · exact h.fd j o d ho (hbound ▸ hb) (hfd ▸ hd)
    · exact h.fd j a d ha hb hd
  noLeak d f j hd := exists_set ho (h.noLeak d f j hd) fun hj => by
    obtain ⟨a, ha, hb, had⟩ := h.noLeak d f j hd
    obtain rfl : o = a := by simpa [hj, ho] using ha
    exact ⟨hbound.trans hb, hfd.trans had⟩
  map j a m ha hm := by
    rcases lookup_set ho ha with ⟨rfl, rfl⟩ | ⟨-, ha⟩
    · exact h.map j o m ho (hmap ▸ hm)
    · exact h.map j a m ha hm
  mapped m j hm := exists_set ho (h.mapped m j hm) fun hj => by
    obtain ⟨a, ha, ham⟩ := h.mapped m j hm
    obtain rfl : o = a := by simpa [hj, ho] using ha
    rw [hmap, ham]
  tidy j a ha := by
    rcases lookup_set ho ha with ⟨-, rfl⟩ | ⟨-, ha⟩
    · exact htidy
    · exact h.tidy j a ha
  calls c hc := exists_set ho (h.calls c hc) fun hj => by
    by_contra hfreed
    exact hcalls (by simpa using hfreed) c hc hj
  own := h.own

/-- **The object lets go of what it owns.** -/
theorem Owned.letGo (h : Owned s) (ho : s.objects[i]? = some o) (hbound : o.bound = true)
    (hfd : o'.fd = none) (hmap : o'.map = none) (htidy : o'.Tidy)
    (hcalls : o'.freed = true → ∀ c ∈ s.calls, c.obj ≠ i) :
    Owned ((s.letGo i o).setObject i o') where
  fd j a d ha hb hd := by
    rcases lookup_set ho ha with ⟨-, rfl⟩ | ⟨hj, ha⟩
    · rw [hfd] at hd
      cases hd
    · obtain ⟨f, hf⟩ := h.fd j a d ha hb hd
      refine ⟨f, ?_⟩
      have hne : o.fd ≠ some d := by
        intro hod
        obtain ⟨f', hf'⟩ := h.fd i o d ho hbound hod
        rw [hf'] at hf
        simp at hf
        exact hj hf.2.symm
      simpa only [Process.setObject, Process.letGo, if_neg hne] using hf
  noLeak d f j hd := by
    have hne : o.fd ≠ some d := by
      intro hod
      simp [Process.setObject, Process.letGo, hod] at hd
    simp only [Process.setObject, Process.letGo, if_neg hne] at hd
    refine exists_set ho (h.noLeak d f j hd) fun hj => ?_
    obtain ⟨a, ha, -, had⟩ := h.noLeak d f j hd
    obtain rfl : o = a := by simpa [hj, ho] using ha
    exact absurd had hne
  map j a m ha hm := by
    rcases lookup_set ho ha with ⟨-, rfl⟩ | ⟨hj, ha⟩
    · rw [hmap] at hm
      cases hm
    · have hjm := h.map j a m ha hm
      have hne : o.map ≠ some m := by
        intro hom
        have him := h.map i o m ho hom
        rw [him] at hjm
        exact hj (Option.some.inj hjm).symm
      simpa only [Process.setObject, Process.letGo, if_neg hne] using hjm
  mapped m j hm := by
    have hne : o.map ≠ some m := by
      intro hom
      simp [Process.setObject, Process.letGo, hom] at hm
    simp only [Process.setObject, Process.letGo, if_neg hne] at hm
    refine exists_set ho (h.mapped m j hm) fun hj => ?_
    obtain ⟨a, ha, ham⟩ := h.mapped m j hm
    obtain rfl : o = a := by simpa [hj, ho] using ha
    exact absurd ham hne
  tidy j a ha := by
    rcases lookup_set ho ha with ⟨-, rfl⟩ | ⟨-, ha⟩
    · exact htidy
    · exact h.tidy j a ha
  calls c hc := exists_set ho (h.calls c hc) fun hj => by
    by_contra hfreed
    exact hcalls (by simpa using hfreed) c hc hj
  own e he hcl := by
    rcases List.mem_append.mp he with he | he
    · exact h.own e he hcl
    · obtain ⟨d, hd, rfl⟩ := List.mem_map.mp he
      exact h.fd i o d ho hbound (by simpa using hd)

/-- **A new object** with a descriptor, and perhaps a mapping, that nobody had; or one of zeros. -/
theorem Owned.add (h : Owned s) {f : ℕ} (hobjects : t.objects = s.objects ++ [o])
    (hcalls : t.calls = s.calls) (hlog : t.log = s.log)
    (htable : ∀ x, t.table x
      = if o.bound = true ∧ o.fd = some x then some ⟨f, some s.objects.length⟩ else s.table x)
    (hmaps : ∀ x, t.maps x = if o.map = some x then some s.objects.length else s.maps x)
    (hfd : ∀ x, o.bound = true → o.fd = some x → s.table x = none)
    (hmap : ∀ x, o.map = some x → s.maps x = none)
    (htidy : o.Tidy) : Owned t := by
  have hold : ∀ {j : ℕ} {a : FdObject}, s.objects[j]? = some a → t.objects[j]? = some a := by
    intro j a ha
    rw [hobjects, List.getElem?_append_left (List.getElem?_eq_some_iff.mp ha).1, ha]
  have hnew : t.objects[s.objects.length]? = some o := by simp [hobjects]
  have hcases : ∀ {j : ℕ} {a : FdObject}, t.objects[j]? = some a →
      (j = s.objects.length ∧ a = o) ∨ s.objects[j]? = some a := by
    intro j a ha
    rw [hobjects] at ha
    by_cases hj : j < s.objects.length
    · rw [List.getElem?_append_left hj] at ha
      exact Or.inr ha
    · rw [List.getElem?_append_right (not_lt.mp hj)] at ha
      obtain ⟨hlt, hget⟩ := List.getElem?_eq_some_iff.mp ha
      have hlen : j - s.objects.length = 0 := by simpa using hlt
      refine Or.inl ⟨by omega, ?_⟩
      simpa using hget.symm
  constructor
  · intro j a d ha hb hd
    rcases hcases ha with ⟨rfl, rfl⟩ | ha
    · exact ⟨f, by rw [htable, if_pos ⟨hb, hd⟩]⟩
    · obtain ⟨g, hg⟩ := h.fd j a d ha hb hd
      refine ⟨g, ?_⟩
      rw [htable, if_neg, hg]
      rintro ⟨hob, hod⟩
      rw [hfd d hob hod] at hg
      cases hg
  · intro d g j hd
    rw [htable] at hd
    by_cases hod : o.bound = true ∧ o.fd = some d
    · rw [if_pos hod] at hd
      simp only [Option.some.injEq, OpenFile.mk.injEq] at hd
      exact ⟨o, hd.2 ▸ hnew, hod⟩
    · rw [if_neg hod] at hd
      obtain ⟨a, ha, had⟩ := h.noLeak d g j hd
      exact ⟨a, hold ha, had⟩
  · intro j a m ha hm
    rw [hmaps]
    rcases hcases ha with ⟨rfl, rfl⟩ | ha
    · rw [if_pos hm]
    · have hjm := h.map j a m ha hm
      rw [if_neg, hjm]
      intro hom
      rw [hmap m hom] at hjm
      cases hjm
  · intro m j hm
    rw [hmaps] at hm
    by_cases hom : o.map = some m
    · rw [if_pos hom] at hm
      exact ⟨o, Option.some.inj hm ▸ hnew, hom⟩
    · rw [if_neg hom] at hm
      obtain ⟨a, ha, ham⟩ := h.mapped m j hm
      exact ⟨a, hold ha, ham⟩
  · intro j a ha
    rcases hcases ha with ⟨-, rfl⟩ | ha
    · exact htidy
    · exact h.tidy j a ha
  · intro c hc
    rw [hcalls] at hc
    obtain ⟨a, ha, hf⟩ := h.calls c hc
    exact ⟨a, hold ha, hf⟩
  · intro e he
    rw [hlog] at he
    exact h.own e he

end Rules

end Process

/-! ## Objects -/

section Objects

variable {o : FdObject}

/-- An object that a descriptor has just filled in. -/
theorem FdObject.tidy_ofFd {kind : FdKind} (d : ℕ) (hkind : kind ≠ .memFD) :
    (ofFd kind d).Tidy where
  freed h := by simp [ofFd, zeroed] at h
  closed h := by simp [ofFd, zeroed] at h
  map := by simp [ofFd, zeroed, hkind]
  pins := rfl
  fits := by simp [ofFd, zeroed]
  views h := by simp [ofFd, zeroed] at h
  raw h := by simp [ofFd] at h

/-- What `tp_alloc` gives. -/
theorem FdObject.tidy_zeroed : (zeroed .namedMQ).Tidy where
  freed h := by simp [zeroed] at h
  closed h := by simp [zeroed] at h
  map := by simp [zeroed]
  pins := rfl
  fits := by simp [zeroed]
  views h := by simp [zeroed] at h
  raw _ := rfl

/-- A `MemFD` that has just been mapped. -/
theorem FdObject.tidy_ofCore (d m size : ℕ) : (ofCore d m size).Tidy where
  freed h := by simp [ofCore, zeroed] at h
  closed h := by simp [ofCore, zeroed] at h
  map := by simp [ofCore, zeroed]
  pins := rfl
  fits := by simp [ofCore, zeroed]
  views _ := rfl
  raw h := by simp [ofCore] at h

/-- An object that has let go of everything. -/
theorem FdObject.Tidy.bare (h : o.Tidy) (hbound : o.bound = true) (hviews : o.views = 0)
    (closed freed : Bool) :
    ({ o.bare with closed := closed, freed := freed } : FdObject).Tidy where
  freed _ := ⟨rfl, hviews⟩
  closed _ := rfl
  map := by simp [FdObject.bare]
  pins := h.pins
  fits := h.fits
  views hne := absurd hviews hne
  raw hraw := absurd (hbound.symm.trans hraw) (by decide)

/-- A `MemFD` has been filled in. -/
theorem FdObject.Tidy.bound_of_kind (h : o.Tidy) (hkind : o.kind ≠ .namedMQ) :
    o.bound = true := by
  by_contra hb
  exact hkind (congrArg FdObject.kind (h.raw (by simpa using hb)))

/-- No views, no pins. -/
theorem FdObject.Tidy.views_of_pins (h : o.Tidy) (hpins : ¬ 0 < o.pins % 2 ^ 32) : o.views = 0 := by
  have hmod : o.pins % 2 ^ 32 = o.views := by rw [h.pins, Nat.mod_eq_of_lt h.fits]
  omega

/-- Only a `MemFD` has views. -/
theorem FdObject.Tidy.views_of_kind (h : o.Tidy) (hkind : o.kind ≠ .memFD) : o.views = 0 := by
  by_contra hne
  exact hkind (h.map.mp (h.views hne)).1

/-- An object that is not open has nothing, but for a closed flag that is not set. -/
theorem FdObject.Tidy.fd_of_not_open (h : o.Tidy) (ho : o.isOpen = false) : o.fd = none := by
  cases hclosed : o.closed with
  | true => exact h.closed hclosed
  | false =>
    by_contra hne
    have hsome : o.fd.isSome = true := by simpa [Option.isSome_iff_ne_none] using hne
    cases hkind : o.kind with
    | memFD => simp [FdObject.isOpen, hkind, hclosed, h.map.mpr ⟨hkind, hsome⟩] at ho
    | eventFD => simp [FdObject.isOpen, hkind, hclosed, hsome] at ho
    | namedMQ => simp [FdObject.isOpen, hkind, hclosed, hsome] at ho

end Objects

/-- The step drops a `NamedMessageQueue` that `tp_alloc` has made and nothing has filled in. -/
def FdOp.dropsNew : FdOp → Bool
  | .nmq _ _ (some .attributes) => true
  | .nmq _ _ (some .name) => true
  | .nmqCall => true
  | _ => false

/-- The object that the step takes a view of. -/
def FdOp.viewed : FdOp → Option ℕ
  | .view i => some i
  | _ => none

/-- The object that the step closes. -/
def FdOp.closed : FdOp → Option ℕ
  | .close i _ => some i
  | _ => none

/-- The object that the step closes or destroys. -/
def FdOp.ended : FdOp → Option ℕ
  | .close i _ => some i
  | .drop i => some i
  | _ => none

/-- The object that the step calls. -/
def FdOp.called : FdOp → Option ℕ
  | .begin i _ => some i
  | _ => none

/-- The step closes the descriptor of a queue of zeros: it drops one that is half-made, or closes
or destroys one that `__new__` has made. -/
def Process.closesZero (s : Process) (op : FdOp) : Bool :=
  op.dropsNew || (op.ended.bind fun i => s.objects[i]?).any fun o => !o.bound && o.isOpen

namespace Process

variable {s s' : Process} {op : FdOp} {i d f : ℕ} {o : FdObject}

/-! ## A new object -/

/-- A descriptor that is opened and closed again. -/
theorem openFd_letGo (n : ℕ) (kind : FdKind) (hd : s.table d = none) :
    (s.openFd n d f).letGo n (.ofFd kind d)
      = { s with log := s.log ++ [⟨n, d, some ⟨f, some n⟩, true⟩] } := by
  have htable : ((s.openFd n d f).letGo n (.ofFd kind d)).table = s.table := by
    funext x
    by_cases hx : x = d
    · simp [letGo, openFd, FdObject.ofFd, hx, hd]
    · simp [letGo, openFd, FdObject.ofFd, hx, Ne.symm hx]
  have hmaps : ((s.openFd n d f).letGo n (.ofFd kind d)).maps = s.maps := by
    funext x
    simp [letGo, openFd, FdObject.ofFd, FdObject.zeroed]
  have hlog : ((s.openFd n d f).letGo n (.ofFd kind d)).log
      = s.log ++ [⟨n, d, some ⟨f, some n⟩, true⟩] := by
    simp [letGo, openFd, FdObject.ofFd]
  calc (s.openFd n d f).letGo n (.ofFd kind d)
      = ⟨((s.openFd n d f).letGo n (.ofFd kind d)).table,
          ((s.openFd n d f).letGo n (.ofFd kind d)).maps, s.objects, s.calls,
          ((s.openFd n d f).letGo n (.ofFd kind d)).log⟩ := rfl
    _ = _ := by rw [htable, hmaps, hlog]

/-- A descriptor and a mapping that are made and undone. -/
theorem mapFile_letGo (n m size : ℕ) (hd : s.table d = none) (hm : s.maps m = none) :
    ((s.openFd n d f).mapFile n m).letGo n (.ofCore d m size)
      = { s with log := s.log ++ [⟨n, d, some ⟨f, some n⟩, true⟩] } := by
  have htable : (((s.openFd n d f).mapFile n m).letGo n (.ofCore d m size)).table = s.table := by
    funext x
    by_cases hx : x = d
    · simp [letGo, openFd, mapFile, FdObject.ofCore, hx, hd]
    · simp [letGo, openFd, mapFile, FdObject.ofCore, hx, Ne.symm hx]
  have hmaps : (((s.openFd n d f).mapFile n m).letGo n (.ofCore d m size)).maps = s.maps := by
    funext x
    by_cases hx : x = m
    · simp [letGo, openFd, mapFile, FdObject.ofCore, hx, hm]
    · simp [letGo, openFd, mapFile, FdObject.ofCore, hx, Ne.symm hx]
  have hlog : (((s.openFd n d f).mapFile n m).letGo n (.ofCore d m size)).log
      = s.log ++ [⟨n, d, some ⟨f, some n⟩, true⟩] := by
    simp [letGo, openFd, mapFile, FdObject.ofCore]
  calc ((s.openFd n d f).mapFile n m).letGo n (.ofCore d m size)
      = ⟨(((s.openFd n d f).mapFile n m).letGo n (.ofCore d m size)).table,
          (((s.openFd n d f).mapFile n m).letGo n (.ofCore d m size)).maps, s.objects, s.calls,
          (((s.openFd n d f).mapFile n m).letGo n (.ofCore d m size)).log⟩ := rfl
    _ = _ := by rw [htable, hmaps, hlog]

/-- The descriptor that a failed call has opened was its own. -/
theorem Owned.undone (h : Owned s) (d f n : ℕ) :
    Owned { s with log := s.log ++ [⟨n, d, some ⟨f, some n⟩, true⟩] } :=
  h.note fun e he _ => ⟨f, by rw [List.mem_singleton.mp he]⟩

/-- A new object with a descriptor. -/
theorem Owned.addFd (h : Owned s) {kind : FdKind} (hkind : kind ≠ .memFD)
    (hd : s.table d = none) :
    Owned ((s.openFd s.objects.length d f).addObject (.ofFd kind d)) := by
  refine h.add (o := .ofFd kind d) (f := f) rfl rfl rfl (fun x => ?_) (fun x => ?_) (fun x _ => ?_)
    (fun x hx => ?_) (FdObject.tidy_ofFd d hkind)
  · simp [addObject, openFd, FdObject.ofFd, eq_comm]
  · simp [addObject, openFd, FdObject.ofFd, FdObject.zeroed]
  · intro hx
    obtain rfl : d = x := by simpa [FdObject.ofFd] using hx
    exact hd
  · simp [FdObject.ofFd, FdObject.zeroed] at hx

/-- A new object with a mapping too. -/
theorem Owned.addCore (h : Owned s) {m : ℕ} (size : ℕ) (hd : s.table d = none)
    (hm : s.maps m = none) :
    Owned (((s.openFd s.objects.length d f).mapFile s.objects.length m).addObject
      (.ofCore d m size)) := by
  refine h.add (o := .ofCore d m size) (f := f) rfl rfl rfl (fun x => ?_) (fun x => ?_)
    (fun x _ => ?_) (fun x hx => ?_) (FdObject.tidy_ofCore d m size)
  · simp [addObject, openFd, mapFile, FdObject.ofCore, eq_comm]
  · simp [addObject, openFd, mapFile, FdObject.ofCore, eq_comm]
  · intro hx
    obtain rfl : d = x := by simpa [FdObject.ofCore] using hx
    exact hd
  · obtain rfl : m = x := by simpa [FdObject.ofCore] using hx
    exact hm

/-- A new object of zeros. -/
theorem Owned.addZeroed (h : Owned s) : Owned (s.addObject (.zeroed .namedMQ)) := by
  refine h.add (o := .zeroed .namedMQ) (f := 0) rfl rfl rfl (fun x => ?_) (fun x => ?_)
    (fun x hx => ?_) (fun x hx => ?_) FdObject.tidy_zeroed
  · simp [addObject, FdObject.zeroed]
  · simp [addObject, FdObject.zeroed]
  · simp [FdObject.zeroed] at hx
  · simp [FdObject.zeroed] at hx

/-! ## The steps -/

/-- The counter of the views does not wrap around. -/
def Fits (s : Process) (op : FdOp) : Prop :=
  ∀ i ∈ op.viewed.toList, ∀ o ∈ s.objects[i]?.toList, o.views + 1 < 2 ^ 32

instance (s : Process) (op : FdOp) : Decidable (s.Fits op) :=
  inferInstanceAs (Decidable (∀ i ∈ op.viewed.toList, ∀ o ∈ s.objects[i]?.toList, _))

/-- A `close` is one of an object that is there. -/
theorem step_close {fails : Bool} (hstep : s.step (.close i fails) = some s') :
    ∃ o, s.objects[i]? = some o ∧ o.freed = false ∧ s' = (s.closeObject i o fails).2 := by
  simp only [Process.step, Process.close] at hstep
  cases ho : s.objects[i]? with
  | none => simp [ho] at hstep
  | some o =>
    cases hf : o.freed with
    | true => simp [ho, hf] at hstep
    | false => exact ⟨o, rfl, hf, by simpa [ho, hf] using hstep.symm⟩

/-- A call that begins has its object's descriptor or none yet; on a closed object it raises. -/
theorem step_begin {copies : Bool} (hstep : s.step (.begin i copies) = some s') :
    s' = s ∨ ∃ o fd, s.objects[i]? = some o ∧ o.freed = false ∧
      (∀ d, fd = some d → o.fd = some d) ∧ s' = { s with calls := s.calls ++ [⟨i, fd⟩] } := by
  simp only [Process.step] at hstep
  cases ho : s.objects[i]? with
  | none => simp [ho] at hstep
  | some o =>
    simp only [ho] at hstep
    split_ifs at hstep with hfreed hopen
    · exact Or.inl (Option.some.inj hstep).symm
    · have hfreed : o.freed = false := by simpa using hfreed
      cases hkind : o.kind with
      | eventFD =>
        simp only [hkind, Option.some.injEq] at hstep
        exact Or.inr ⟨o, none, rfl, hfreed, by simp, hstep.symm⟩
      | memFD => simp [hkind] at hstep
      | namedMQ =>
        simp only [hkind, Option.some.injEq] at hstep
        exact Or.inr ⟨o, _, rfl, hfreed, fun d hd => (Option.filter_eq_some_iff.mp hd).1,
          hstep.symm⟩

/-- A call loads the descriptor of its object. -/
theorem step_load {k : ℕ} (hstep : s.step (.load k) = some s') :
    ∃ c o, s.calls[k]? = some c ∧ s.objects[c.obj]? = some o ∧
      s' = { s with calls := s.calls.set k ⟨c.obj, o.fd⟩ } := by
  simp only [Process.step] at hstep
  cases hc : s.calls[k]? with
  | none => simp [hc] at hstep
  | some c =>
    cases ho : s.objects[c.obj]? with
    | none => simp [hc, ho] at hstep
    | some o =>
      simp only [hc, ho, Option.ite_none_right_eq_some, Option.some.injEq] at hstep
      exact ⟨c, o, rfl, ho, hstep.2.symm⟩

/-- A call uses the descriptor that it has loaded. -/
theorem step_use {k : ℕ} (hstep : s.step (.use k) = some s') :
    ∃ c, s.calls[k]? = some c ∧
      s' = { s with log := s.log ++ c.fd.toList.map fun d => ⟨c.obj, d, s.table d, false⟩ } := by
  simp only [Process.step] at hstep
  cases hc : s.calls[k]? with
  | none => simp [hc] at hstep
  | some c => exact ⟨c, rfl, by simpa [hc] using hstep.symm⟩

/-- A view is one of an open `MemFD`; on a closed one `memfd_getbuffer` raises. -/
theorem step_view (hstep : s.step (.view i) = some s') :
    s' = s ∨ ∃ o, s.objects[i]? = some o ∧ o.freed = false ∧ o.kind = .memFD ∧
      o.isOpen = true ∧
      s' = s.setObject i { o with pins := o.pins + 1, views := o.views + 1 } := by
  simp only [Process.step] at hstep
  cases ho : s.objects[i]? with
  | none => simp [ho] at hstep
  | some o =>
    simp only [ho] at hstep
    split_ifs at hstep with hkind hopen
    · exact Or.inl (Option.some.inj hstep).symm
    · simp only [not_or, ne_eq, not_not, Bool.not_eq_true] at hkind
      exact Or.inr ⟨o, rfl, hkind.1, hkind.2, by simpa using hopen,
        (Option.some.inj hstep).symm⟩

/-- Only a view that is there can be released. -/
theorem step_release (hstep : s.step (.release i) = some s') :
    ∃ o, s.objects[i]? = some o ∧ o.views ≠ 0 ∧
      s' = s.setObject i { o with pins := o.pins - 1, views := o.views - 1 } := by
  simp only [Process.step] at hstep
  cases ho : s.objects[i]? with
  | none => simp [ho] at hstep
  | some o =>
    simp only [ho, Option.ite_none_left_eq_some, Option.some.injEq] at hstep
    exact ⟨o, rfl, hstep.1, hstep.2.symm⟩

/-- An object that goes has neither views nor calls under way. -/
theorem step_drop (hstep : s.step (.drop i) = some s') :
    ∃ o, s.objects[i]? = some o ∧ o.views = 0 ∧ (∀ c ∈ s.calls, c.obj ≠ i) ∧
      s' = s.dealloc i o := by
  simp only [Process.step] at hstep
  cases ho : s.objects[i]? with
  | none => simp [ho] at hstep
  | some o =>
    simp only [ho, Option.ite_none_left_eq_some, Option.some.injEq, not_or, not_exists, not_and,
      not_not] at hstep
    exact ⟨o, rfl, hstep.1.2.1, hstep.1.2.2, hstep.2.symm⟩

/-- A duplicate has no owner in the module. -/
theorem step_reduce {d : ℕ} (hstep : s.step (.reduce i d) = some s') :
    s' = s ∨ s.table d = none ∧ ∃ f,
      s' = { s with table := fun x => if x = d then some ⟨f, none⟩ else s.table x } := by
  simp only [Process.step] at hstep
  cases ho : s.objects[i]? with
  | none => simp [ho] at hstep
  | some o =>
    simp only [ho] at hstep
    split_ifs at hstep with hbad hopen
    · exact Or.inl (Option.some.inj hstep).symm
    · cases he : o.fd.bind s.table with
      | none =>
        simp only [he, Option.some.injEq] at hstep
        exact Or.inl hstep.symm
      | some e =>
        simp only [he, Option.some.injEq] at hstep
        refine Or.inr ⟨?_, e.file, hstep.symm⟩
        by_contra hne
        exact hbad (Or.inr (Or.inr hne))

/-- The rest of the process closes descriptors of its own only. -/
theorem step_otherClose {d : ℕ} (hstep : s.step (.otherClose d) = some s') :
    ∃ e, s.table d = some e ∧ e.owner = none ∧
      s' = { s with table := fun x => if x = d then none else s.table x } := by
  simp only [Process.step] at hstep
  cases he : s.table d with
  | none => simp [he] at hstep
  | some e =>
    simp only [he, Option.ite_none_right_eq_some, Option.some.injEq] at hstep
    exact ⟨e, rfl, hstep.1, hstep.2.symm⟩

/-- `close` of an object that has been filled in. -/
theorem Owned.closeObject (h : Owned s) (ho : s.objects[i]? = some o) (hbound : o.bound = true)
    (hfreed : o.freed = false) (fails : Bool) : Owned (s.closeObject i o fails).2 := by
  have htidy := h.tidy i o ho
  have hlet : ∀ closed, o.views = 0 →
      Owned ((s.letGo i o).setObject i { o.bare with closed := closed }) := fun closed hviews =>
    h.letGo ho hbound rfl rfl (htidy.bare hbound hviews closed o.freed) fun hf =>
      absurd (hfreed.symm.trans hf) (by decide)
  unfold Process.closeObject
  split
  · next hkind =>
    split_ifs
    · exact hlet true (htidy.views_of_kind (by simp [hkind]))
    · exact h
  · next hkind =>
    split_ifs with hopen hpins
    · exact h
    · exact h
    · exact hlet _ (htidy.views_of_pins hpins)
    · exact hlet _ (htidy.views_of_pins hpins)
  · next hkind =>
    split_ifs
    · exact h
    · exact hlet true (htidy.views_of_kind (by simp [hkind]))

/-- The end of an object that has been filled in. -/
theorem Owned.dealloc (h : Owned s) (ho : s.objects[i]? = some o) (hbound : o.bound = true)
    (hviews : o.views = 0) (hcalls : ∀ c ∈ s.calls, c.obj ≠ i) :
    Owned (s.dealloc i o) := by
  have htidy := h.tidy i o ho
  have hlet : ∀ o' : FdObject, o'.fd = none → o'.map = none → o'.Tidy →
      Owned ((s.letGo i o).setObject i o') := fun o' hfd hmap ht =>
    h.letGo ho hbound hfd hmap ht fun _ => hcalls
  have hraw : o.bound = false → False := fun hb => absurd (hbound.symm.trans hb) (by decide)
  have hkeep : o.fd = none → Owned (s.setObject i { o with freed := true }) := fun hfd =>
    h.setObject ho rfl rfl rfl ⟨fun _ => ⟨hfd, hviews⟩, htidy.closed, htidy.map, htidy.pins,
      htidy.fits, htidy.views, fun hb => (hraw hb).elim⟩ fun _ => hcalls
  unfold Process.dealloc
  split
  · split_ifs with hopen
    · exact hlet _ rfl rfl (htidy.bare hbound hviews true true)
    · exact hkeep (htidy.fd_of_not_open (by simpa using hopen))
  · split_ifs with hopen
    · refine hlet _ rfl rfl ?_
      have hbare := htidy.bare hbound hviews o.closed true
      exact ⟨hbare.freed, hbare.closed, hbare.map, hviews.symm, hbare.fits, hbare.views,
        fun hb => (hraw hb).elim⟩
    · exact hkeep (htidy.fd_of_not_open (by simpa using hopen))
  · split_ifs with hclosed
    · exact hkeep (htidy.closed hclosed)
    · exact hlet _ rfl rfl (htidy.bare hbound hviews o.closed true)

/-- Who is closed or destroyed has been filled in, if the step does not close descriptor 0. -/
theorem Owned.bound_of_ended (h : Owned s) (hno : s.closesZero op = false) (hop : op.ended = some i)
    (ho : s.objects[i]? = some o) : o.bound = true := by
  by_contra hb
  have hraw := (h.tidy i o ho).raw (by simpa using hb)
  simp [closesZero, hop, ho, hraw, FdObject.zeroed, FdObject.isOpen] at hno

/-- **One step keeps the ownership**, if it closes no queue of zeros. -/
theorem Owned.step (h : Owned s) (hno : s.closesZero op = false) (hfits : s.Fits op)
    (hstep : s.step op = some s') : Owned s' := by
  cases op with
  | efd d f noMemory =>
    simp only [Process.step, Option.ite_none_right_eq_some, Option.some.injEq] at hstep
    obtain ⟨hd, rfl⟩ := hstep
    cases noMemory with
    | true =>
      show Owned ((s.openFd s.objects.length d f).letGo s.objects.length (.ofFd .eventFD d))
      rw [openFd_letGo _ _ hd]
      exact h.undone d f _
    | false => exact h.addFd (by decide) hd
  | memfd d f m size fault =>
    simp only [Process.step, Option.ite_none_right_eq_some, Option.some.injEq] at hstep
    obtain ⟨⟨hd, hm, -⟩, rfl⟩ := hstep
    have hfd : Owned ((s.openFd s.objects.length d f).letGo s.objects.length (.ofFd .memFD d)) := by
      rw [openFd_letGo _ _ hd]
      exact h.undone d f _
    have hcore : Owned (((s.openFd s.objects.length d f).mapFile s.objects.length m).letGo
        s.objects.length (.ofCore d m size)) := by
      rw [mapFile_letGo _ _ _ hd hm]
      exact h.undone d f _
    -- every failure closes the descriptor, and the last two have a mapping to undo
    rcases fault with _ | _ | _ | _ | _
    · exact h.addCore size hd hm
    · exact hfd
    · exact hfd
    · exact hcore
    · exact hcore
  | nmq d f fault =>
    simp only [Process.step, Option.ite_none_right_eq_some, Option.some.injEq] at hstep
    obtain ⟨hd, rfl⟩ := hstep
    rcases fault with _ | _ | _ | _
    · exact h.addFd (by decide) hd
    · show Owned ((s.openFd s.objects.length d f).letGo s.objects.length (.ofFd .namedMQ d))
      rw [openFd_letGo _ _ hd]
      exact h.undone d f _
    -- the late failures drop an object of zeros
    · simp [closesZero, FdOp.dropsNew] at hno
    · simp [closesZero, FdOp.dropsNew] at hno
  | nmqCall => simp [closesZero, FdOp.dropsNew] at hno
  | nmqNew =>
    simp only [Process.step, Option.some.injEq] at hstep
    exact hstep ▸ h.addZeroed
  | begin i copies =>
    obtain rfl | ⟨o, fd, ho, hfreed, -, rfl⟩ := step_begin hstep
    · exact h
    · refine h.setCalls fun c hc => (List.mem_append.mp hc).elim (h.calls c) fun hc => ?_
      obtain rfl := List.mem_singleton.mp hc
      exact ⟨o, ho, hfreed⟩
  | load k =>
    obtain ⟨c, o, hc, -, rfl⟩ := step_load hstep
    refine h.setCalls fun c' hc' => ?_
    rcases List.mem_or_eq_of_mem_set hc' with hmem | rfl
    · exact h.calls c' hmem
    · exact h.calls c (List.mem_of_getElem? hc)
  | use k =>
    obtain ⟨c, -, rfl⟩ := step_use hstep
    refine h.note fun e he hcl => ?_
    obtain ⟨d, -, rfl⟩ := List.mem_map.mp he
    simp at hcl
  | finish k =>
    simp only [Process.step, Option.some.injEq] at hstep
    exact hstep ▸ h.setCalls fun c hc => h.calls c (List.mem_of_mem_eraseIdx hc)
  | view i =>
    obtain rfl | ⟨o, ho, hfreed, hkind, hopen, rfl⟩ := step_view hstep
    · exact h
    · have htidy := h.tidy i o ho
      have hmap : o.map.isSome = true := by
        simp only [FdObject.isOpen, hkind] at hopen
        exact (Bool.and_eq_true_iff.mp hopen).2
      have hbound := htidy.bound_of_kind (by simp [hkind])
      refine h.setObject ho rfl rfl rfl
        ⟨fun hf => ?_, htidy.closed, htidy.map, ?_, ?_, fun _ => hmap, fun hb => ?_⟩ fun hf => ?_
      · simp [hfreed] at hf
      · exact congrArg (· + 1) htidy.pins
      · exact hfits i (by simp [FdOp.viewed]) o (by simp [ho])
      · exact absurd (hbound.symm.trans hb) (by decide)
      · simp [hfreed] at hf
  | release i =>
    obtain ⟨o, ho, hviews, rfl⟩ := step_release hstep
    have htidy := h.tidy i o ho
    -- an object with a view has not gone
    have hfreed : o.freed = false := by
      by_contra hf
      exact hviews (htidy.freed (by simpa using hf)).2
    have hbound := htidy.bound_of_kind
      (by simp [(htidy.map.mp (htidy.views hviews)).1])
    refine h.setObject ho rfl rfl rfl
      ⟨fun hf => ?_, htidy.closed, htidy.map, ?_, ?_, fun _ => ?_, fun hb => ?_⟩ fun hf => ?_
    · simp [hfreed] at hf
    · exact congrArg (· - 1) htidy.pins
    · exact (Nat.sub_le _ _).trans_lt htidy.fits
    · exact htidy.views hviews
    · exact absurd (hbound.symm.trans hb) (by decide)
    · simp [hfreed] at hf
  | close i fails =>
    obtain ⟨o, ho, hfreed, rfl⟩ := step_close hstep
    exact h.closeObject ho (h.bound_of_ended hno rfl ho) hfreed fails
  | drop i =>
    obtain ⟨o, ho, hviews, hcalls, rfl⟩ := step_drop hstep
    exact h.dealloc ho (h.bound_of_ended hno rfl ho) hviews hcalls
  | reduce i d =>
    obtain rfl | ⟨hd, f, rfl⟩ := step_reduce hstep
    · exact h
    · exact h.other (by simp [hd]) (by simp)
  | otherOpen d f =>
    simp only [Process.step, Option.ite_none_right_eq_some, Option.some.injEq] at hstep
    obtain ⟨hd, rfl⟩ := hstep
    exact h.other (by simp [hd]) (by simp)
  | otherClose d =>
    -- nobody else closes a descriptor of the module
    obtain ⟨e, he, howner, rfl⟩ := step_otherClose hstep
    refine h.other (fun f i hd => ?_) (by simp)
    rw [he] at hd
    simp [Option.some.inj hd] at howner

/-! ## Runs -/

/-- No queue of zeros is closed or dropped, and the views can be counted. -/
def Careful (s : Process) (op : FdOp) : Prop := s.closesZero op = false ∧ s.Fits op

instance (s : Process) (op : FdOp) : Decidable (s.Careful op) :=
  inferInstanceAs (Decidable (_ ∧ _))

/-- The ownership after every careful run. -/
theorem owned_of_run {table : ℕ → Option OpenFile} (htable : ∀ d f i, table d ≠ some ⟨f, some i⟩)
    (h : StepSystem.Run step (start table) Careful s) : Owned s :=
  h.invariant (owned_start htable) fun _ _ _ ho hok hs => ho.step hok.1 hok.2 hs

/-- An object with a descriptor is open. -/
theorem Owned.isOpen_of_fd (h : Owned s) (ho : s.objects[i]? = some o) (hd : o.fd = some d) :
    o.freed = false ∧ o.isOpen = true := by
  have htidy := h.tidy i o ho
  constructor
  · by_contra hf
    simp [(htidy.freed (by simpa using hf)).1] at hd
  · by_contra hopen
    simp [htidy.fd_of_not_open (by simpa using hopen)] at hd

/-- **Descriptors and mappings have their owners in every run** in which no queue of zeros is
closed or dropped: those of the module are just those of its open objects that have been filled
in, whatever has failed on the way to a new object, and each `close` was of a descriptor of its
own. -/
theorem descriptors_owned {table : ℕ → Option OpenFile}
    (htable : ∀ d f i, table d ≠ some ⟨f, some i⟩)
    (h : StepSystem.Run step (start table) Careful s) :
    (∀ e ∈ s.log, e.closes = true → e.Own) ∧
    (∀ d i, (∃ f, s.table d = some ⟨f, some i⟩) ↔
      ∃ o, s.objects[i]? = some o ∧ o.bound = true ∧ o.freed = false ∧ o.isOpen = true ∧
        o.fd = some d) ∧
    (∀ m i, s.maps m = some i ↔
      ∃ o, s.objects[i]? = some o ∧ o.freed = false ∧ o.isOpen = true ∧ o.map = some m) := by
  have howned := owned_of_run htable h
  refine ⟨howned.own, fun d i => ⟨?_, ?_⟩, fun m i => ⟨?_, ?_⟩⟩
  · rintro ⟨f, hf⟩
    obtain ⟨o, ho, hb, hd⟩ := howned.noLeak d f i hf
    have hopen := howned.isOpen_of_fd ho hd
    exact ⟨o, ho, hb, hopen.1, hopen.2, hd⟩
  · rintro ⟨o, ho, hb, -, -, hd⟩
    exact howned.fd i o d ho hb hd
  · intro hm
    obtain ⟨o, ho, hom⟩ := howned.mapped m i hm
    -- a mapping comes with a descriptor
    have hsome := ((howned.tidy i o ho).map.mp (by simp [hom])).2
    have hopen := howned.isOpen_of_fd ho (Option.eq_some_of_isSome hsome)
    exact ⟨o, ho, hopen.1, hopen.2, hom⟩
  · rintro ⟨o, ho, -, -, hm⟩
    exact howned.map i o m ho hm

/-- The standard streams. -/
def stdio : ℕ → Option OpenFile := fun d => if d < 3 then some ⟨d, none⟩ else none

/-- The first descriptors are the process's own. -/
theorem stdio_other (d f i : ℕ) : stdio d ≠ some ⟨f, some i⟩ := by
  unfold stdio
  split_ifs <;> simp

/-- The state after some steps that all meet a condition. -/
def after (Ok : Process → FdOp → Prop) [∀ s op, Decidable (Ok s op)] (ops : List FdOp) : Process :=
  (StepSystem.runIf step Ok (start stdio) ops).getD (start stdio)

/-- Two objects, one that could not be mapped, a view, a `close` under a call, and a queue of
zeros. -/
def viewed : List FdOp :=
  [.memfd 3 10 0 64 (some .map), .memfd 3 11 0 64 none, .efd 4 12 false, .view 0, .close 0 false,
    .begin 1 false, .load 0, .close 1 false, .finish 0, .nmqNew]

theorem descriptors_owned_viewed :
    (after Careful viewed).table 3 = some ⟨11, some 0⟩ ∧
    (∀ e ∈ (after Careful viewed).log, e.closes = true → e.Own) ∧
    (∀ d i, (∃ f, (after Careful viewed).table d = some ⟨f, some i⟩) ↔
      ∃ o, (after Careful viewed).objects[i]? = some o ∧ o.bound = true ∧ o.freed = false ∧
        o.isOpen = true ∧ o.fd = some d) ∧
    (∀ m i, (after Careful viewed).maps m = some i ↔
      ∃ o, (after Careful viewed).objects[i]? = some o ∧ o.freed = false ∧ o.isOpen = true ∧
        o.map = some m) :=
  ⟨by decide +kernel, descriptors_owned stdio_other (StepSystem.Run.of_isSome (by decide +kernel))⟩

/-- **A view's memory stays mapped**: an object with views has its mapping, and `close()` raises
`BufferError`, whether or not the system call would fail, and changes nothing. -/
theorem view_keeps_mapping {table : ℕ → Option OpenFile}
    (htable : ∀ d f i, table d ≠ some ⟨f, some i⟩)
    (h : StepSystem.Run step (start table) Careful s) (ho : s.objects[i]? = some o)
    (hviews : o.views ≠ 0) :
    (∃ m, o.map = some m ∧ s.maps m = some i) ∧
      ∀ fails, s.close i fails = some (.bufferError, s) := by
  have howned := owned_of_run htable h
  have htidy := howned.tidy i o ho
  have hmap := htidy.views hviews
  obtain ⟨hkind, hfd⟩ := htidy.map.mp hmap
  obtain ⟨hfreed, hopen⟩ := howned.isOpen_of_fd ho (Option.eq_some_of_isSome hfd)
  have hm := Option.eq_some_of_isSome hmap
  refine ⟨⟨_, hm, howned.map i o _ ho hm⟩, fun fails => ?_⟩
  have hpins : 0 < o.pins % 2 ^ 32 := by
    rw [htidy.pins, Nat.mod_eq_of_lt htidy.fits]
    exact Nat.pos_of_ne_zero hviews
  simp only [close, ho, hfreed, Process.closeObject, hkind, hopen, hpins]
  simp

theorem view_keeps_mapping_viewed :
    (∃ m, (⟨.memFD, some 3, true, false, some 0, 64, 1, 1, false⟩ : FdObject).map = some m ∧
      (after Careful viewed).maps m = some 0) ∧
    ∀ fails, (after Careful viewed).close 0 fails = some (.bufferError, after Careful viewed) :=
  view_keeps_mapping stdio_other (StepSystem.Run.of_isSome (by decide +kernel))
    (by decide +kernel) (by decide)

/-! ## Descriptor 0 -/

/-- An object of zeros lets go of descriptor 0. -/
theorem letGo_zeroed (i : ℕ) (t : Process) :
    (t.letGo i (.zeroed .namedMQ)).log = t.log ++ [⟨i, 0, t.table 0, true⟩] ∧
      (t.letGo i (.zeroed .namedMQ)).table = fun x => if x = 0 then none else t.table x := by
  refine ⟨by simp [letGo, FdObject.zeroed], ?_⟩
  funext x
  simp [letGo, FdObject.zeroed, eq_comm]

/-- Descriptor 0 is closed for object `i`, which does not own it. -/
def Strays (s s' : Process) : Prop :=
  (∃ e ∈ s'.log, e.closes = true ∧ e.fd = 0 ∧ ¬ e.Own) ∧
    s'.table = fun x => if x = 0 then none else s.table x

/-- An object of zeros that owns nothing closes what it does not own. -/
theorem strays_letGo {t : Process} (htable : t.table = s.table)
    (hi : ∀ f, s.table 0 ≠ some ⟨f, some i⟩) : Strays s (t.letGo i (.zeroed .namedMQ)) := by
  obtain ⟨hlog, hafter⟩ := letGo_zeroed i t
  refine ⟨⟨⟨i, 0, t.table 0, true⟩, ?_, rfl, rfl, ?_⟩, by rw [hafter, htable]⟩
  · rw [hlog]
    exact List.mem_append_right _ (List.mem_singleton_self _)
  · rintro ⟨f, hf⟩
    exact hi f (htable ▸ hf)

/-- A step that closes the descriptor of a queue of zeros closes descriptor 0, which is not the
queue's. -/
theorem Owned.stray (h : Owned s) (hzero : s.closesZero op = true) (hstep : s.step op = some s') :
    Strays s s' := by
  -- a failure after `tp_alloc` closes the new descriptor first
  have hlate : ∀ d f, s.table d = none → Strays s (((s.openFd s.objects.length d f).letGo
      s.objects.length (.ofFd .namedMQ d)).nmqDropNew) := by
    intro d f hd
    rw [openFd_letGo _ _ hd]
    exact strays_letGo rfl fun f => h.not_owner_length
  -- who is closed or destroyed is an object of zeros, and owns nothing
  have hkept : ∀ {op : FdOp} {i : ℕ} {o : FdObject}, s.closesZero op = true →
      op.dropsNew = false ∧ op.ended = some i → s.objects[i]? = some o →
      o = .zeroed .namedMQ ∧ ∀ f, s.table 0 ≠ some ⟨f, some i⟩ := by
    rintro op i o hzero ⟨hnew, hended⟩ ho
    have hb : o.bound = false := by
      have hboth : o.bound = false ∧ o.isOpen = true := by
        simpa [closesZero, hnew, hended, ho] using hzero
      exact hboth.1
    refine ⟨(h.tidy i o ho).raw hb, fun f hf => ?_⟩
    obtain ⟨a, ha, hab, -⟩ := h.noLeak 0 f i hf
    obtain rfl : o = a := Option.some.inj (ho.symm.trans ha)
    exact absurd (hb.symm.trans hab) (by decide)
  cases op with
  | nmq d f fault =>
    simp only [Process.step, Option.ite_none_right_eq_some, Option.some.injEq] at hstep
    obtain ⟨hd, rfl⟩ := hstep
    rcases fault with _ | _ | _ | _
    · simp [closesZero, FdOp.dropsNew, FdOp.ended] at hzero
    · simp [closesZero, FdOp.dropsNew, FdOp.ended] at hzero
    · exact hlate d f hd
    · exact hlate d f hd
  | nmqCall =>
    simp only [Process.step, Option.some.injEq] at hstep
    exact hstep ▸ strays_letGo rfl fun f => h.not_owner_length
  | close i fails =>
    obtain ⟨o, ho, -, rfl⟩ := step_close hstep
    obtain ⟨rfl, hi⟩ := hkept hzero ⟨rfl, rfl⟩ ho
    exact strays_letGo (s := s) rfl hi
  | drop i =>
    obtain ⟨o, ho, -, -, rfl⟩ := step_drop hstep
    obtain ⟨rfl, hi⟩ := hkept hzero ⟨rfl, rfl⟩ ho
    exact strays_letGo (s := s) rfl hi
  | _ => simp [closesZero, FdOp.dropsNew, FdOp.ended] at hzero

/-- **Only a queue of zeros closes what is not its own**, and it closes descriptor 0. -/
theorem stray_close_iff {table : ℕ → Option OpenFile}
    (htable : ∀ d f i, table d ≠ some ⟨f, some i⟩)
    (h : StepSystem.Run step (start table) Careful s) (hfits : s.Fits op)
    (hstep : s.step op = some s') :
    ((∃ e ∈ s'.log, e.closes = true ∧ ¬ e.Own) ↔ s.closesZero op = true) ∧
      (s.closesZero op = true → s'.table = fun x => if x = 0 then none else s.table x) := by
  have howned := owned_of_run htable h
  refine ⟨⟨?_, fun hzero => ?_⟩, fun hzero => (howned.stray hzero hstep).2⟩
  · rintro ⟨e, he, hcl, hown⟩
    by_contra hno
    exact hown ((howned.step (by simpa using hno) hfits hstep).own e he hcl)
  · obtain ⟨e, he, hcl, -, hown⟩ := (howned.stray hzero hstep).1
    exact ⟨e, he, hcl, hown⟩

/-- The `close()` of a queue that `__new__` has made closes the standard input. -/
theorem stray_close_iff_viewed :
    (((after Careful viewed).step (.close 2 false)).map fun s' => s'.table 0) = some none ∧
    (after Careful viewed).closesZero (.close 2 false) = true ∧
    ((∃ e ∈ ((after Careful viewed).closeObject 2 (.zeroed .namedMQ) false).2.log,
        e.closes = true ∧ ¬ e.Own) ↔
      (after Careful viewed).closesZero (.close 2 false) = true) ∧
    ((after Careful viewed).closesZero (.close 2 false) = true →
      ((after Careful viewed).closeObject 2 (.zeroed .namedMQ) false).2.table
        = fun x => if x = 0 then none else (after Careful viewed).table x) :=
  ⟨by decide +kernel, by decide +kernel,
    stray_close_iff stdio_other (StepSystem.Run.of_isSome (by decide +kernel))
      (by decide +kernel) rfl⟩

/-! ## Calls under way -/

/-- The calls know the descriptor of their object, and have used no other. -/
structure Aimed (s : Process) : Prop where
  calls : ∀ c ∈ s.calls, ∃ o, s.objects[c.obj]? = some o ∧ o.bound = true ∧
    ∀ d, c.fd = some d → o.fd = some d
  own : ∀ e ∈ s.log, e.closes = false → e.Own

/-- At the start there are no calls. -/
theorem aimed_start {table : ℕ → Option OpenFile} : Aimed (start table) where
  calls c hc := by simp [start] at hc
  own e he := by simp [start] at he

/-- No object is closed while a call of it is under way, and no queue of zeros is called. -/
def Alone (s : Process) (op : FdOp) : Prop :=
  (∀ i ∈ op.closed.toList, ∀ c ∈ s.calls, c.obj ≠ i) ∧
    ∀ i ∈ op.called.toList, ∀ o ∈ s.objects[i]?.toList, o.bound = true

instance (s : Process) (op : FdOp) : Decidable (s.Alone op) :=
  inferInstanceAs (Decidable ((∀ i ∈ op.closed.toList, ∀ c ∈ s.calls, c.obj ≠ i) ∧
    ∀ i ∈ op.called.toList, ∀ o ∈ s.objects[i]?.toList, o.bound = true))

section Aims

variable {t : Process}

/-- The objects of the calls keep their descriptors, and only `close`s are added to the log. -/
theorem Aimed.keep (h : Aimed s) (hcalls : t.calls = s.calls)
    (hobj : ∀ c ∈ s.calls, ∀ o, s.objects[c.obj]? = some o →
      ∃ o', t.objects[c.obj]? = some o' ∧ o'.bound = o.bound ∧ o'.fd = o.fd)
    (hlog : ∀ e ∈ t.log, e ∈ s.log ∨ e.closes = true) : Aimed t where
  calls c hc := by
    rw [hcalls] at hc
    obtain ⟨o, ho, hb, hod⟩ := h.calls c hc
    obtain ⟨o', ho', hbound, hfd⟩ := hobj c hc o ho
    exact ⟨o', ho', hbound.trans hb, fun d hd => hfd.trans (hod d hd)⟩
  own e he hcl := by
    rcases hlog e he with hmem | hcl'
    · exact h.own e hmem hcl
    · simp [hcl'] at hcl

/-- Objects are added at the end. -/
theorem Aimed.append (h : Aimed s) {l : List FdObject} (hcalls : t.calls = s.calls)
    (hobj : t.objects = s.objects ++ l) (hlog : ∀ e ∈ t.log, e ∈ s.log ∨ e.closes = true) :
    Aimed t :=
  h.keep hcalls (fun c _ o ho => ⟨o, by
    rw [hobj, List.getElem?_append_left (List.getElem?_eq_some_iff.mp ho).1, ho], rfl,
      rfl⟩) hlog

/-- An object that lets go is logged as a `close`. -/
theorem mem_letGo_log {e : FdEvent} (he : e ∈ (t.letGo i o).log) (hlog : t.log = s.log) :
    e ∈ s.log ∨ e.closes = true := by
  rcases List.mem_append.mp he with he | he
  · exact Or.inl (hlog ▸ he)
  · obtain ⟨d, -, rfl⟩ := List.mem_map.mp he
    exact Or.inr rfl

/-- An object that keeps its descriptor. -/
theorem Aimed.setObject (h : Aimed s) {o' : FdObject} (ho : s.objects[i]? = some o)
    (hbound : o'.bound = o.bound) (hfd : o'.fd = o.fd) : Aimed (s.setObject i o') := by
  refine h.keep rfl (fun c _ a ha => ?_) fun e he => Or.inl he
  refine exists_set ho ⟨a, ha, rfl, rfl⟩ fun hj => ?_
  obtain rfl : o = a := by simpa [hj, ho] using ha
  exact ⟨hbound, hfd⟩

/-- An object that no call is under way on. -/
theorem Aimed.letGo (h : Aimed s) {o' : FdObject} (hcalls : ∀ c ∈ s.calls, c.obj ≠ i) :
    Aimed ((s.letGo i o).setObject i o') := by
  refine h.keep rfl (fun c hc a ha => ⟨a, ?_, rfl, rfl⟩) fun e he => mem_letGo_log he rfl
  show (s.objects.set i o')[c.obj]? = some a
  rw [List.getElem?_set_ne (Ne.symm (hcalls c hc)), ha]

/-- `close` of an object that no call is under way on. -/
theorem Aimed.closeObject (h : Aimed s) (hcalls : ∀ c ∈ s.calls, c.obj ≠ i) (fails : Bool) :
    Aimed (s.closeObject i o fails).2 := by
  unfold Process.closeObject
  split
  · split_ifs
    · exact h.letGo hcalls
    · exact h
  · split_ifs
    · exact h
    · exact h
    · exact h.letGo hcalls
    · exact h.letGo hcalls
  · split_ifs
    · exact h
    · exact h.letGo hcalls

/-- The end of an object that no call is under way on. -/
theorem Aimed.dealloc (h : Aimed s) (ho : s.objects[i]? = some o)
    (hcalls : ∀ c ∈ s.calls, c.obj ≠ i) : Aimed (s.dealloc i o) := by
  unfold Process.dealloc
  split
  · split_ifs
    · exact h.letGo hcalls
    · exact h.setObject ho rfl rfl
  · split_ifs
    · exact h.letGo hcalls
    · exact h.setObject ho rfl rfl
  · split_ifs
    · exact h.setObject ho rfl rfl
    · exact h.letGo hcalls

end Aims

/-- **One step keeps the aim**, if it closes no object under a call and calls no queue of zeros. -/
theorem Aimed.step (h : Aimed s) (howned : Owned s) (halone : s.Alone op)
    (hstep : s.step op = some s') : Aimed s' := by
  cases op with
  | efd d f noMemory =>
    simp only [Process.step, Option.ite_none_right_eq_some, Option.some.injEq] at hstep
    obtain ⟨-, rfl⟩ := hstep
    cases noMemory with
    | true => exact h.append rfl (List.append_nil _).symm fun e he => mem_letGo_log he rfl
    | false => exact h.append rfl rfl fun e he => Or.inl he
  | memfd d f m size fault =>
    simp only [Process.step, Option.ite_none_right_eq_some, Option.some.injEq] at hstep
    obtain ⟨-, rfl⟩ := hstep
    rcases fault with _ | _ | _ | _ | _
    · exact h.append rfl rfl fun e he => Or.inl he
    all_goals exact h.append rfl (List.append_nil _).symm fun e he => mem_letGo_log he rfl
  | nmq d f fault =>
    simp only [Process.step, Option.ite_none_right_eq_some, Option.some.injEq] at hstep
    obtain ⟨-, rfl⟩ := hstep
    -- dropping a half-made queue logs `close`s only
    have hdropped : ∀ e ∈ (((s.openFd s.objects.length d f).letGo s.objects.length
        (.ofFd .namedMQ d)).nmqDropNew).log, e ∈ s.log ∨ e.closes = true := fun e he =>
      (mem_letGo_log he rfl).elim (fun he => mem_letGo_log he rfl) Or.inr
    rcases fault with _ | _ | _ | _
    · exact h.append rfl rfl fun e he => Or.inl he
    · exact h.append rfl (List.append_nil _).symm fun e he => mem_letGo_log he rfl
    · exact h.append rfl (List.append_nil _).symm hdropped
    · exact h.append rfl (List.append_nil _).symm hdropped
  | nmqCall =>
    simp only [Process.step, Option.some.injEq] at hstep
    subst hstep
    exact h.append rfl (List.append_nil _).symm fun e he => mem_letGo_log he rfl
  | nmqNew =>
    simp only [Process.step, Option.some.injEq] at hstep
    exact hstep ▸ h.append rfl rfl fun e he => Or.inl he
  | begin i copies =>
    obtain rfl | ⟨o, fd, ho, -, hfd, rfl⟩ := step_begin hstep
    · exact h
    · have hbound : o.bound = true := halone.2 i (by simp [FdOp.called]) o (by simp [ho])
      refine ⟨fun c hc => ?_, h.own⟩
      rcases List.mem_append.mp hc with hc | hc
      · exact h.calls c hc
      · obtain rfl := List.mem_singleton.mp hc
        exact ⟨o, ho, hbound, hfd⟩
  | load k =>
    obtain ⟨c, o, hc, ho, rfl⟩ := step_load hstep
    refine ⟨fun c' hc' => ?_, h.own⟩
    rcases List.mem_or_eq_of_mem_set hc' with hmem | rfl
    · exact h.calls c' hmem
    · -- the object of a call has been filled in
      obtain ⟨a, ha, hb, -⟩ := h.calls c (List.mem_of_getElem? hc)
      obtain rfl : o = a := Option.some.inj (ho.symm.trans ha)
      exact ⟨o, ho, hb, fun d hd => hd⟩
  | use k =>
    obtain ⟨c, hc, rfl⟩ := step_use hstep
    refine ⟨h.calls, fun e he hcl => ?_⟩
    rcases List.mem_append.mp he with he | he
    · exact h.own e he hcl
    · -- the number is still the object's descriptor
      obtain ⟨d, hd, rfl⟩ := List.mem_map.mp he
      obtain ⟨o, ho, hb, hod⟩ := h.calls c (List.mem_of_getElem? hc)
      exact howned.fd c.obj o d ho hb (hod d (by simpa using hd))
  | finish k =>
    simp only [Process.step, Option.some.injEq] at hstep
    exact hstep ▸ ⟨fun c hc => h.calls c (List.mem_of_mem_eraseIdx hc), h.own⟩
  | view i =>
    obtain rfl | ⟨o, ho, -, -, -, rfl⟩ := step_view hstep
    · exact h
    · exact h.setObject ho rfl rfl
  | release i =>
    obtain ⟨o, ho, -, rfl⟩ := step_release hstep
    exact h.setObject ho rfl rfl
  | close i fails =>
    obtain ⟨o, ho, -, rfl⟩ := step_close hstep
    exact h.closeObject (halone.1 i (by simp [FdOp.closed])) fails
  | drop i =>
    obtain ⟨o, ho, -, hcalls, rfl⟩ := step_drop hstep
    exact h.dealloc ho hcalls
  | reduce i d =>
    obtain rfl | ⟨-, f, rfl⟩ := step_reduce hstep
    · exact h
    · exact ⟨h.calls, h.own⟩
  | otherOpen d f =>
    simp only [Process.step, Option.ite_none_right_eq_some, Option.some.injEq] at hstep
    exact hstep.2 ▸ ⟨h.calls, h.own⟩
  | otherClose d =>
    obtain ⟨e, -, -, rfl⟩ := step_otherClose hstep
    exact ⟨h.calls, h.own⟩

/-- **Every system call is on the object's own descriptor**, in every run in which no object is
closed while a call of it is under way and no queue of zeros is called, closed or dropped. -/
theorem calls_hit_own_descriptor {table : ℕ → Option OpenFile}
    (htable : ∀ d f i, table d ≠ some ⟨f, some i⟩)
    (h : StepSystem.Run step (start table) (fun s op => s.Careful op ∧ s.Alone op) s) :
    ∀ e ∈ s.log, e.Own := by
  have hkept : Owned s ∧ Aimed s := by
    refine StepSystem.Run.invariant (I := fun s => Owned s ∧ Aimed s)
      ⟨owned_start htable, aimed_start⟩ ?_ h
    rintro s op s' ⟨ho, ha⟩ ⟨hok, halone⟩ hs
    exact ⟨ho.step hok.1 hok.2 hs, ha.step ho halone hs⟩
  intro e he
  cases hcl : e.closes with
  | true => exact hkept.1.own e he hcl
  | false => exact hkept.2.own e he hcl

/-- A queue that is closed after its calls, and an `EventFD`. -/
def called : List FdOp :=
  [.nmq 3 10 none, .begin 0 true, .use 0, .efd 4 11 false, .begin 1 false, .load 1, .use 1,
    .finish 0, .close 0 false, .use 0]

theorem calls_hit_own_descriptor_called :
    (after (fun s op => s.Careful op ∧ s.Alone op) called).log.length = 4 ∧
    ∀ e ∈ (after (fun s op => s.Careful op ∧ s.Alone op) called).log, e.Own :=
  ⟨by decide +kernel,
    calls_hit_own_descriptor stdio_other (StepSystem.Run.of_isSome (by decide +kernel))⟩

/-- A `put` that waits in slices while the queue is closed and another file gets the number. -/
def closedUnder : List FdOp :=
  [.nmq 3 10 none, .begin 0 true, .use 0, .close 0 false, .otherOpen 3 20, .use 0]

/-- A `close` under a call sends the call to another file, and a `get` on a queue of zeros asks
descriptor 0. -/
example :
    (∃ e ∈ (after Careful closedUnder).log, e.closes = false ∧ ¬ e.Own) ∧
      ∃ e ∈ (after Careful [.nmqNew, .begin 0 true, .use 0]).log, e.closes = false ∧ ¬ e.Own :=
  ⟨⟨⟨0, 3, some ⟨20, none⟩, false⟩, by decide +kernel, rfl, by decide⟩,
    ⟨⟨0, 0, some ⟨0, none⟩, false⟩, by decide +kernel, rfl, by decide⟩⟩

end Process

end PosixIpc
