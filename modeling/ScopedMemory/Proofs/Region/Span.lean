import ScopedMemory.Proofs.Store.Update

namespace ScopedMemory

def Region.Has (r : Region) (x : Nat) : Prop :=
  r.start.toNat ≤ x ∧ x < r.start.toNat + r.size.toNat

def Block.Has (b : Block) (x : Nat) : Prop :=
  b.base.toNat ≤ x ∧ x < b.base.toNat + b.size.toNat

/-- The region lies inside the block; an empty one may also stand at its end. -/
def Block.Encloses (b : Block) (r : Region) : Prop :=
  b.base.toNat ≤ r.start.toNat ∧ r.start.toNat + r.size.toNat ≤ b.base.toNat + b.size.toNat

theorem Block.Encloses.has {b : Block} {r : Region} (h : b.Encloses r) {x : Nat} (hx : r.Has x) :
    b.Has x := by
  obtain ⟨h₁, h₂⟩ := h
  obtain ⟨hx₁, hx₂⟩ := hx
  exact ⟨by omega, by omega⟩

theorem Block.Contains.encloses {b : Block} {start length : Word} {s : ScopeId}
    (h : b.Contains start length) : b.Encloses ⟨start, length, s⟩ := by
  obtain ⟨h₁, h₂, h₃⟩ := h
  rw [UInt64.le_iff_toNat_le] at h₁ h₂ h₃
  rw [UInt64.toNat_sub_of_le _ _ (UInt64.le_iff_toNat_le.mpr h₁),
    UInt64.toNat_sub_of_le _ _ (UInt64.le_iff_toNat_le.mpr h₂)] at h₃
  exact ⟨h₁, by change start.toNat + length.toNat ≤ _; omega⟩

theorem Block.contains_of_encloses {b : Block} {r : Region} (h : b.Encloses r) :
    b.Contains r.start r.size := by
  obtain ⟨h₁, h₂⟩ := h
  have hl : r.size ≤ b.size := by rw [UInt64.le_iff_toNat_le]; omega
  have hs : b.base ≤ r.start := by rw [UInt64.le_iff_toNat_le]; omega
  refine ⟨hs, hl, ?_⟩
  rw [UInt64.le_iff_toNat_le, UInt64.toNat_sub_of_le _ _ hs, UInt64.toNat_sub_of_le _ _ hl]
  omega

namespace Region

/-- The bounds test of a span, over the natural numbers. -/
def Spans (r : Region) (offset length : Word) : Prop :=
  offset.toNat + length.toNat ≤ r.size.toNat ∧
    r.start.toNat + offset.toNat + length.toNat < 0x10000000000000000

instance (r : Region) (offset length : Word) : Decidable (r.Spans offset length) :=
  inferInstanceAs (Decidable (_ ∧ _))

theorem checkSpan_eq (r : Region) (offset length : Word) :
    r.checkSpan offset length =
      if r.Spans offset length then .ok () else .error (.outOfBounds offset length r.size) := by
  have hfit : (offset ≤ r.size ∧ length ≤ r.size - offset) ↔
      offset.toNat + length.toNat ≤ r.size.toNat := by
    constructor
    · rintro ⟨ho, hl⟩
      rw [UInt64.le_iff_toNat_le, UInt64.toNat_sub_of_le _ _ ho] at hl
      rw [UInt64.le_iff_toNat_le] at ho
      omega
    · intro h
      have ho : offset ≤ r.size := by rw [UInt64.le_iff_toNat_le]; omega
      refine ⟨ho, ?_⟩
      rw [UInt64.le_iff_toNat_le, UInt64.toNat_sub_of_le _ _ ho]
      omega
  have hend : (Word.add? r.start offset).bind (Word.add? · length) = none ↔
      ¬ r.start.toNat + offset.toNat + length.toNat < 0x10000000000000000 := by
    by_cases h : r.start.toNat + offset.toNat < 0x10000000000000000
    · have ha : (r.start + offset).toNat = r.start.toNat + offset.toNat := by
        rw [UInt64.toNat_add, Nat.mod_eq_of_lt h]
      simp only [Word.add?, h, if_true, Option.bind_some, ha]
      by_cases h' : r.start.toNat + offset.toNat + length.toNat < 0x10000000000000000 <;> simp [h']
    · simp only [Word.add?, h, if_false, Option.bind_none, true_iff]
      omega
  unfold checkSpan Spans
  simp only [hfit]
  by_cases h₁ : offset.toNat + length.toNat ≤ r.size.toNat
  · simp only [h₁, if_true, true_and]
    by_cases h₂ : r.start.toNat + offset.toNat + length.toNat < 0x10000000000000000
    · rw [if_pos h₂]
      split
      next => rfl
      next he => exact absurd h₂ (hend.mp he)
    · rw [if_neg h₂, hend.mpr h₂]
  · simp [h₁]

theorem checkSpan_eq_ok_iff {r : Region} {offset length : Word} :
    r.checkSpan offset length = .ok () ↔ r.Spans offset length := by
  rw [checkSpan_eq]
  by_cases h : r.Spans offset length <;> simp [h]

/-- As `Spans`, for the bytes of a buffer. -/
def Takes (r : Region) (offset : Word) (n : Nat) : Prop :=
  offset.toNat + n ≤ r.size.toNat ∧ r.start.toNat + offset.toNat + n < 0x10000000000000000

theorem takes_toNat {r : Region} {offset length : Word} :
    r.Takes offset length.toNat ↔ r.Spans offset length := Iff.rfl

theorem checkBuffer_eq_ok_iff {r : Region} {offset : Word} {n : Nat} :
    r.checkBuffer offset n = .ok () ↔ r.Takes offset n := by
  have hs := r.size.toNat_lt
  unfold checkBuffer Takes
  split
  next h =>
    rw [checkSpan_eq_ok_iff, Spans, UInt64.toNat_ofNat', Nat.mod_eq_of_lt h]
  next h =>
    simp only [reduceCtorEq, false_iff]
    omega

theorem toNat_start_narrow {r : Region} {offset length : Word} (h : r.Spans offset length) :
    (r.narrow offset length).start.toNat = r.start.toNat + offset.toNat := by
  obtain ⟨_, h⟩ := h
  rw [narrow, UInt64.toNat_add, Nat.mod_eq_of_lt (by omega)]

theorem has_narrow {r : Region} {offset length : Word} (h : r.Spans offset length) {x : Nat}
    (hx : (r.narrow offset length).Has x) : r.Has x := by
  obtain ⟨h₁, h₂⟩ := hx
  rw [toNat_start_narrow h] at h₁ h₂
  have := h.1
  change x < r.start.toNat + offset.toNat + length.toNat at h₂
  exact ⟨by omega, by omega⟩

theorem encloses_narrow {b : Block} {r : Region} {offset length : Word} (hb : b.Encloses r)
    (h : r.Spans offset length) : b.Encloses (r.narrow offset length) := by
  obtain ⟨h₁, h₂⟩ := hb
  have := h.1
  unfold Block.Encloses
  rw [toNat_start_narrow h]
  change _ ∧ r.start.toNat + offset.toNat + length.toNat ≤ _
  exact ⟨by omega, by omega⟩

theorem overlaps_iff {r s : Region} (hr : r.size ≠ 0) (hs : s.size ≠ 0) :
    r.Overlaps s ↔ ∃ x, r.Has x ∧ s.Has x := by
  have hr' : 0 < r.size.toNat := by
    rcases Nat.eq_zero_or_pos r.size.toNat with h | h
    · exact absurd (UInt64.toNat_inj.mp h) hr
    · exact h
  have hs' : 0 < s.size.toNat := by
    rcases Nat.eq_zero_or_pos s.size.toNat with h | h
    · exact absurd (UInt64.toNat_inj.mp h) hs
    · exact h
  unfold Overlaps Has
  constructor
  · intro h
    obtain ⟨h₁, h₂⟩ := h
    refine ⟨max r.start.toNat s.start.toNat, ?_⟩
    omega
  · rintro ⟨x, hx⟩
    omega

end Region

namespace Store

/-- What every access by a region is checked for, in this order. -/
def checkAccess (σ : Store) (caller : Thread) (r : Region) (offset length : Word) :
    Except MemoryError Unit := do
  σ.checkUsable caller r.scope
  r.checkSpan offset length

theorem checkAccess_eq (σ : Store) (t : Thread) (r : Region) (offset length : Word) :
    σ.checkAccess t r offset length =
      match σ.checkUsable t r.scope with
      | .ok _ => r.checkSpan offset length
      | .error e => .error e := by
  unfold checkAccess
  cases σ.checkUsable t r.scope <;> rfl

theorem checkUsable_eq_ok_iff {σ : Store} {t : Thread} {s : ScopeId} :
    σ.checkUsable t s = .ok () ↔ σ.checkOwner t s = .ok () ∧ (σ.scope s).isAlive = true := by
  unfold checkUsable
  cases ho : σ.checkOwner t s with
  | error e => simp [bind, Except.bind]
  | ok u =>
    by_cases ha : (σ.scope s).isAlive <;> simp [ha, bind, Except.bind]

theorem checkAccess_eq_ok_iff {σ : Store} {t : Thread} {r : Region} {offset length : Word} :
    σ.checkAccess t r offset length = .ok () ↔
      σ.checkUsable t r.scope = .ok () ∧ r.Spans offset length := by
  rw [checkAccess_eq]
  cases hu : σ.checkUsable t r.scope with
  | error e => simp
  | ok u => simp [Region.checkSpan_eq_ok_iff]

/-- What every write by a region is checked for, in this order. -/
def checkWrite (σ : Store) (caller : Thread) (r : Region) (offset : Word) (n : Nat) :
    Except MemoryError Unit := do
  σ.checkUsable caller r.scope
  r.checkBuffer offset n

theorem checkWrite_eq (σ : Store) (t : Thread) (r : Region) (offset : Word) (n : Nat) :
    σ.checkWrite t r offset n =
      match σ.checkUsable t r.scope with
      | .ok _ => r.checkBuffer offset n
      | .error e => .error e := by
  unfold checkWrite
  cases σ.checkUsable t r.scope <;> rfl

theorem checkWrite_eq_ok_iff {σ : Store} {t : Thread} {r : Region} {offset : Word} {n : Nat} :
    σ.checkWrite t r offset n = .ok () ↔
      σ.checkUsable t r.scope = .ok () ∧ r.Takes offset n := by
  rw [checkWrite_eq]
  cases hu : σ.checkUsable t r.scope with
  | error e => simp
  | ok u => simp [Region.checkBuffer_eq_ok_iff]

@[simp] theorem checkAccess_setMemory (σ : Store) (m : Memory) (t : Thread) (r : Region)
    (offset length : Word) :
    (σ.setMemory m).checkAccess t r offset length = σ.checkAccess t r offset length := rfl

@[simp] theorem checkWrite_setMemory (σ : Store) (m : Memory) (t : Thread) (r : Region)
    (offset : Word) (n : Nat) :
    (σ.setMemory m).checkWrite t r offset n = σ.checkWrite t r offset n := rfl

theorem checkUsable_pin (σ : Store) (s : ScopeId) (t : Thread) (s' : ScopeId)
    (h : (σ.scope s).isAlive = true) :
    (σ.pin s).checkUsable t s' = σ.checkUsable t s' := by
  have hs : (σ.pin s).scope s' =
      if s' = s then { σ.scope s with lifetime := .live (σ.guards s + 1) } else σ.scope s' := by
    rw [pin, scope_setLifetime]
    simp [lt_length_of_isAlive h]
  unfold checkUsable checkOwner
  rw [hs]
  by_cases he : s' = s
  · subst s'
    have ha : (Scope.isAlive { σ.scope s with lifetime := .live (σ.guards s + 1) }) =
        (σ.scope s).isAlive := by rw [h]; rfl
    rw [if_pos rfl, ha]
    rfl
  · rw [if_neg he]

end Store
end ScopedMemory
