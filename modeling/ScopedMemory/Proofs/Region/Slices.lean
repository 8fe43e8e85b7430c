import ScopedMemory.Heap.TwinHeaps
import ScopedMemory.Proofs.Region.Access

namespace ScopedMemory.Region

open Operation

variable {r s u : Region} {ctx : Context} {σ τ : Store}

/-! ### Spans of a part -/

theorem narrow_narrow (r : Region) (a la b lb : Word) :
    (r.narrow a la).narrow b lb = r.narrow (a + b) lb := by
  unfold narrow
  rw [UInt64.add_assoc]

/-- The end of a part is no nearer to the end of the address space than that of the whole. -/
theorem spans_narrow {a la b lb : Word} (h : r.Spans a la) :
    (r.narrow a la).Spans b lb ↔ b.toNat + lb.toNat ≤ la.toNat := by
  have hstart := toNat_start_narrow h
  have hend := h.2
  unfold Spans
  rw [hstart]
  change b.toNat + lb.toNat ≤ la.toNat ∧ _ ↔ _
  constructor
  · intro hspan
    exact hspan.1
  · intro hfit
    exact ⟨hfit, by omega⟩

theorem takes_narrow {a la b : Word} {n : Nat} (h : r.Spans a la) :
    (r.narrow a la).Takes b n ↔ b.toNat + n ≤ la.toNat := by
  have hstart := toNat_start_narrow h
  have hend := h.2
  unfold Takes
  rw [hstart]
  change b.toNat + n ≤ la.toNat ∧ _ ↔ _
  constructor
  · intro htake
    exact htake.1
  · intro hfit
    exact ⟨hfit, by omega⟩

/-- Offsets in a part add up without a carry. -/
theorem Spans.toNat_add {a la b : Word} (h : r.Spans a la) (hb : b.toNat ≤ la.toNat) :
    (a + b).toNat = a.toNat + b.toNat := by
  have hend := h.2
  rw [UInt64.toNat_add, Nat.mod_eq_of_lt (by omega)]

theorem Takes.add {a la b : Word} {n : Nat} (h : r.Spans a la) (hfit : b.toNat + n ≤ la.toNat) :
    r.Takes (a + b) n := by
  have hadd := h.toNat_add (b := b) (by omega)
  obtain ⟨hin, hend⟩ := h
  unfold Takes
  rw [hadd]
  exact ⟨by omega, by omega⟩

theorem Spans.add {a la b lb : Word} (h : r.Spans a la) (hfit : b.toNat + lb.toNat ≤ la.toNat) :
    r.Spans (a + b) lb :=
  takes_toNat.mp (Takes.add h hfit)

/-! ### Accesses by a part -/

theorem checkAccess_narrow {a la b lb : Word} (h : r.Spans a la)
    (hfit : b.toNat + lb.toNat ≤ la.toNat) (σ : Store) (t : Thread) :
    σ.checkAccess t (r.narrow a la) b lb = σ.checkAccess t r (a + b) lb := by
  have hpart := checkSpan_eq_ok_iff.mpr ((spans_narrow h).mpr hfit)
  have hwhole := checkSpan_eq_ok_iff.mpr (h.add hfit)
  rw [Store.checkAccess_eq, Store.checkAccess_eq, hpart, hwhole]
  rfl

theorem checkWrite_narrow {a la b : Word} {n : Nat} (h : r.Spans a la)
    (hfit : b.toNat + n ≤ la.toNat) (σ : Store) (t : Thread) :
    σ.checkWrite t (r.narrow a la) b n = σ.checkWrite t r (a + b) n := by
  have hpart := checkBuffer_eq_ok_iff.mpr ((takes_narrow h).mpr hfit)
  have hwhole := checkBuffer_eq_ok_iff.mpr (Takes.add h hfit)
  rw [Store.checkWrite_eq, Store.checkWrite_eq, hpart, hwhole]
  rfl

/-- In a part a slice is the slice of the whole that lies so much further on, whoever asks for it. -/
theorem run_slice_narrow {a la b lb : Word} (h : r.Spans a la)
    (hfit : b.toNat + lb.toNat ≤ la.toNat) (ctx : Context) (σ : Store) :
    ((r.narrow a la).slice b lb).run ctx σ = (r.slice (a + b) lb).run ctx σ := by
  rw [run_slice, run_slice, checkAccess_narrow h hfit, narrow_narrow]

theorem run_read_narrow {a la b lb : Word} (h : r.Spans a la)
    (hfit : b.toNat + lb.toNat ≤ la.toNat) (ctx : Context) (σ : Store) :
    ((r.narrow a la).read b lb).run ctx σ = (r.read (a + b) lb).run ctx σ := by
  have hstart : (r.narrow a la).start + b = r.start + (a + b) := UInt64.add_assoc _ _ _
  rw [run_read, run_read, checkAccess_narrow h hfit, hstart]

theorem run_write_narrow {a la b : Word} {bytes : Bytes} (h : r.Spans a la)
    (hfit : b.toNat + bytes.length ≤ la.toNat) (ctx : Context) (σ : Store) :
    ((r.narrow a la).write b bytes).run ctx σ = (r.write (a + b) bytes).run ctx σ := by
  have hstart : (r.narrow a la).start + b = r.start + (a + b) := UInt64.add_assoc _ _ _
  rw [run_write, run_write, checkWrite_narrow h hfit, hstart]

/-! ### Which accesses succeed -/

section

variable {offset length : Word}

theorem succeeds_slice_iff (hu : σ.checkUsable ctx.caller r.scope = .ok ()) :
    (r.slice offset length).Succeeds ctx σ ↔ r.Spans offset length := by
  rw [succeeds_iff_of_check (run_slice r offset length ctx σ), Store.checkAccess_eq_ok_iff]
  exact and_iff_right hu

theorem succeeds_read_iff (hu : σ.checkUsable ctx.caller r.scope = .ok ()) :
    (r.read offset length).Succeeds ctx σ ↔ r.Spans offset length := by
  rw [succeeds_iff_of_check (run_read r offset length ctx σ), Store.checkAccess_eq_ok_iff]
  exact and_iff_right hu

theorem succeeds_write_iff (hu : σ.checkUsable ctx.caller r.scope = .ok ()) {bytes : Bytes} :
    (r.write offset bytes).Succeeds ctx σ ↔ r.Takes offset bytes.length := by
  rw [succeeds_iff_of_check (run_write r offset ctx σ bytes), Store.checkWrite_eq_ok_iff]
  exact and_iff_right hu

theorem of_run_slice (h : (r.slice offset length).run ctx σ = .ok s τ) :
    r.Spans offset length ∧ s = r.narrow offset length ∧ τ = σ := by
  obtain ⟨hc, hs, hτ⟩ := Leads.ok leads_slice h
  exact ⟨(Store.checkAccess_eq_ok_iff.mp hc).2, hs, hτ⟩

/-- The rest from an offset on is the slice that ends where the region does. -/
theorem sliceFrom_of_le (h : offset.toNat ≤ r.size.toNat) :
    r.sliceFrom offset = r.slice offset (r.size - offset) := by
  unfold sliceFrom
  rw [Word.sub?, if_pos h]

theorem sliceFrom_of_lt (h : r.size.toNat < offset.toNat) :
    r.sliceFrom offset = throw (.outOfBounds offset 0 r.size) := by
  unfold sliceFrom
  rw [Word.sub?, if_neg (Nat.not_le_of_lt h)]

end

/-! ### Parts of parts -/

/-- The ways to make a region of another. -/
inductive Cut where
  | slice (offset length : Word)
  | rest (offset : Word)
deriving DecidableEq, Repr

def Cut.offset : Cut → Word
  | slice offset _ | rest offset => offset

def Cut.apply (r : Region) : Cut → Operation Region
  | slice offset length => r.slice offset length
  | rest offset => r.sliceFrom offset

/-- The newest cut comes first. Each was made of what the one before it had left, by any caller and
at any moment. -/
inductive Cuts (r : Region) : List Cut → Region → Prop
  | nil : Cuts r [] r
  | cons {cs c s u ctx σ τ} (h : Cuts r cs s) (hc : (Cut.apply s c).run ctx σ = .ok u τ) :
      Cuts r (c :: cs) u

theorem Cut.of_run {c : Cut} (h : (c.apply s).run ctx σ = .ok u τ) :
    s.Spans c.offset u.size ∧ u = s.narrow c.offset u.size := by
  cases c with
  | slice offset length =>
    obtain ⟨hspan, rfl, _⟩ := of_run_slice h
    exact ⟨hspan, rfl⟩
  | rest offset =>
    by_cases hle : offset.toNat ≤ s.size.toNat
    · rw [apply, sliceFrom_of_le hle] at h
      obtain ⟨hspan, rfl, _⟩ := of_run_slice h
      exact ⟨hspan, rfl⟩
    · rw [apply, sliceFrom_of_lt (Nat.lt_of_not_le hle)] at h
      cases h

/-- However many cuts there were, one slice at the sum of their offsets would have done. -/
theorem Cuts.narrow {cs : List Cut} (h : Cuts r cs u) (hne : cs ≠ []) :
    ∃ offset, offset.toNat = total (·.offset.toNat) cs ∧ r.Spans offset u.size ∧
      u = r.narrow offset u.size := by
  induction h with
  | nil => exact absurd rfl hne
  | @cons cs c s u ctx σ τ h hc ih =>
    obtain ⟨hspan, hu⟩ := Cut.of_run hc
    rw [total_cons]
    by_cases hfirst : cs = []
    · subst hfirst
      cases h
      exact ⟨c.offset, rfl, hspan, hu⟩
    · obtain ⟨a, ha, hs, hnarrow⟩ := ih hfirst
      rw [hnarrow] at hspan hu
      have hfit := (spans_narrow hs).mp hspan
      refine ⟨a + c.offset, ?_, hs.add hfit, ?_⟩
      · rw [hs.toNat_add (Nat.le_of_add_right_le hfit), ha, Nat.add_comm]
      · rw [narrow_narrow] at hu
        exact hu

theorem Cuts.within {cs : List Cut} (h : Cuts r cs u) :
    u.scope = r.scope ∧ r.start.toNat ≤ u.start.toNat ∧
      u.start.toNat + u.size.toNat ≤ r.start.toNat + r.size.toNat := by
  by_cases hne : cs = []
  · subst hne
    cases h
    exact ⟨rfl, Nat.le_refl _, Nat.le_refl _⟩
  · obtain ⟨offset, _, hspan, hu⟩ := h.narrow hne
    have hstart := toNat_start_narrow hspan
    have hfit := hspan.1
    have hscope : u.scope = r.scope := by rw [hu]; rfl
    rw [← hu] at hstart
    exact ⟨hscope, by omega, by omega⟩

/-! ### The laws of slices -/

/-- `s` is to be used as the part of `r` that begins at `a`. -/
structure IsPart (s r : Region) (a la : Word) : Prop where
  slices : ∀ {ctx σ}, σ.checkUsable ctx.caller r.scope = .ok () → ∀ b lb : Word,
    (s.slice b lb).Succeeds ctx σ ↔ b.toNat + lb.toNat ≤ la.toNat
  reads : ∀ {ctx σ}, σ.checkUsable ctx.caller r.scope = .ok () → ∀ b lb : Word,
    (s.read b lb).Succeeds ctx σ ↔ b.toNat + lb.toNat ≤ la.toNat
  writes : ∀ {ctx σ}, σ.checkUsable ctx.caller r.scope = .ok () → ∀ (b : Word) (bytes : Bytes),
    (s.write b bytes).Succeeds ctx σ ↔ b.toNat + bytes.length ≤ la.toNat
  /-- What can be had of the part can be had of the whole, at an offset that does not wrap. -/
  whole : ∀ {b lb : Word}, b.toNat + lb.toNat ≤ la.toNat →
    (a + b).toNat = a.toNat + b.toNat ∧ r.Spans (a + b) lb
  slice : ∀ {b lb : Word}, b.toNat + lb.toNat ≤ la.toNat → ∀ ctx σ,
    (s.slice b lb).run ctx σ = (r.slice (a + b) lb).run ctx σ
  read : ∀ {b lb : Word}, b.toNat + lb.toNat ≤ la.toNat → ∀ ctx σ,
    (s.read b lb).run ctx σ = (r.read (a + b) lb).run ctx σ
  write : ∀ {b : Word} {bytes : Bytes}, b.toNat + bytes.length ≤ la.toNat → ∀ ctx σ,
    (s.write b bytes).run ctx σ = (r.write (a + b) bytes).run ctx σ

theorem Spans.isPart {a la : Word} (h : r.Spans a la) : (r.narrow a la).IsPart r a la where
  slices hu _ _ := (succeeds_slice_iff (r := r.narrow a la) hu).trans (spans_narrow h)
  reads hu _ _ := (succeeds_read_iff (r := r.narrow a la) hu).trans (spans_narrow h)
  writes hu _ _ := (succeeds_write_iff (r := r.narrow a la) hu).trans (takes_narrow h)
  whole hfit := ⟨h.toNat_add (Nat.le_of_add_right_le hfit), h.add hfit⟩
  slice hfit ctx σ := run_slice_narrow h hfit ctx σ
  read hfit ctx σ := run_read_narrow h hfit ctx σ
  write hfit ctx σ := run_write_narrow h hfit ctx σ

/-- The region can be divided by numbers without a bound, also if it runs past the end of the
address space. -/
structure Divides (r : Region) : Prop where
  slices : ∀ {ctx σ}, σ.checkUsable ctx.caller r.scope = .ok () → ∀ offset length : Word,
    (r.slice offset length).Succeeds ctx σ ↔
      offset.toNat + length.toNat ≤ r.size.toNat ∧
        r.start.toNat + offset.toNat + length.toNat < 0x10000000000000000
  reads : ∀ {ctx σ}, σ.checkUsable ctx.caller r.scope = .ok () → ∀ offset length : Word,
    (r.read offset length).Succeeds ctx σ ↔
      offset.toNat + length.toNat ≤ r.size.toNat ∧
        r.start.toNat + offset.toNat + length.toNat < 0x10000000000000000
  writes : ∀ {ctx σ}, σ.checkUsable ctx.caller r.scope = .ok () → ∀ (offset : Word) (bytes : Bytes),
    (r.write offset bytes).Succeeds ctx σ ↔
      offset.toNat + bytes.length ≤ r.size.toNat ∧
        r.start.toNat + offset.toNat + bytes.length < 0x10000000000000000
  sliceFrom : ∀ {offset : Word}, offset.toNat ≤ r.size.toNat →
    r.sliceFrom offset = r.slice offset (r.size - offset)
  pastEnd : ∀ {offset : Word}, r.size.toNat < offset.toNat → ∀ ctx σ,
    ¬ (r.sliceFrom offset).Succeeds ctx σ
  /-- The part may have been made at another moment than it is used at. -/
  part : ∀ {ctx σ s τ} {a la : Word}, (r.slice a la).run ctx σ = .ok s τ → s.IsPart r a la
  chain : ∀ {cs : List Cut} {u : Region}, r.Cuts cs u →
    u.scope = r.scope ∧ r.start.toNat ≤ u.start.toNat ∧
      u.start.toNat + u.size.toNat ≤ r.start.toNat + r.size.toNat
  /-- One slice leads as far as all the cuts. -/
  chained : ∀ {cs : List Cut} {u : Region}, r.Cuts cs u → cs ≠ [] →
    ∃ offset : Word, offset.toNat = total (·.offset.toNat) cs ∧
      ∀ {ctx σ}, σ.checkUsable ctx.caller r.scope = .ok () →
        (r.slice offset u.size).run ctx σ = .ok u σ

theorem divides (r : Region) : r.Divides where
  slices hu _ _ := succeeds_slice_iff hu
  reads hu _ _ := succeeds_read_iff hu
  writes hu _ _ := succeeds_write_iff hu
  sliceFrom := sliceFrom_of_le
  pastEnd h ctx σ := by
    rw [sliceFrom_of_lt h]
    rintro ⟨s, τ, hr⟩
    cases hr
  part h := by
    obtain ⟨hspan, rfl, _⟩ := of_run_slice h
    exact hspan.isPart
  chain h := h.within
  chained h hne := by
    obtain ⟨offset, hsum, hspan, hu⟩ := h.narrow hne
    refine ⟨offset, hsum, fun {ctx σ} husable => ?_⟩
    have hc : σ.checkAccess ctx.caller r offset _ = .ok () :=
      Store.checkAccess_eq_ok_iff.mpr ⟨husable, hspan⟩
    rw [run_slice, hc, ← hu]

/-- Half of it lies past the end of the address space. -/
def highRegion : Region := ⟨0xfffffffffffffff0, 0x20, 0⟩

theorem highRegion_divides :
    let ctx : Context := ⟨0, TwinHeaps.system⟩
    Store.initial.checkUsable ctx.caller highRegion.scope = .ok () ∧
      (highRegion.slice 8 7).Succeeds ctx .initial ∧
      ¬ (highRegion.slice 8 8).Succeeds ctx .initial ∧
      ((highRegion.narrow 8 7).slice 4 3).Succeeds ctx .initial ∧
      ¬ ((highRegion.narrow 8 7).slice 4 4).Succeeds ctx .initial := by
  intro ctx
  have hu : Store.initial.checkUsable ctx.caller highRegion.scope = .ok () := rfl
  have hcut : (highRegion.slice 8 7).run ctx .initial = .ok (highRegion.narrow 8 7) .initial := rfl
  have hslices := (divides highRegion).slices hu
  have hpart := ((divides highRegion).part hcut).slices hu
  refine ⟨hu, (hslices 8 7).mpr ?_, fun h => ?_, (hpart 4 3).mpr ?_, fun h => ?_⟩
  · decide
  · exact absurd ((hslices 8 8).mp h) (by decide)
  · decide
  · exact absurd ((hpart 4 4).mp h) (by decide)

end ScopedMemory.Region
