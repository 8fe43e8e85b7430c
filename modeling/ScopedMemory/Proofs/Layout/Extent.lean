import ScopedMemory.Proofs.Layout

namespace ScopedMemory

namespace Word

/-- What is there only where a word can tell it. -/
theorem eq_ite_of_eq_some_iff {o : Option Word} {n : Nat} (h : ∀ t, o = some t ↔ t.toNat = n) :
    o = if n < 0x10000000000000000 then some (.ofNat n) else none := by
  split
  next hlt => rw [h, UInt64.toNat_ofNat_of_lt' hlt]
  next hge =>
    rw [Option.eq_none_iff_forall_not_mem]
    intro t ht
    exact hge ((h t).mp ht ▸ t.toNat_lt)

theorem toNat_max (a b : Word) : (max a b).toNat = max a.toNat b.toNat := by
  show (if a ≤ b then b else a).toNat = _
  split
  next h => exact (Nat.max_eq_right (UInt64.le_iff_toNat_le.mp h)).symm
  next h =>
    rw [UInt64.le_iff_toNat_le] at h
    exact (Nat.max_eq_left (Nat.le_of_not_le h)).symm

end Word

namespace Layout

variable {l element : Layout} {members : List Layout} {total : Word}

theorem size_setHeader (h : LayoutHeader) (l : Layout) : (l.setHeader h).size = h.size := by
  cases l <;> rfl

theorem extent_setHeader {h : LayoutHeader} (hs : h.size = l.size) :
    (l.setHeader h).extent = l.extent := by
  cases l with
  | value | padding => exact congrArg UInt64.toNat hs
  | sequence | struct | union => rfl

/-- The size that the header declares is what the shape spans. -/
def Measured (l : Layout) : Prop := l.size.toNat = l.extent

theorem Measured.extent_lt (h : l.Measured) : l.extent < 0x10000000000000000 :=
  h ▸ l.size.toNat_lt

/-- Another alignment or order leaves the size and the shape. -/
theorem Measured.setHeader (h : l.Measured) {hd : LayoutHeader} (hs : hd.size = l.size) :
    (l.setHeader hd).Measured := by
  unfold Measured
  rw [size_setHeader, extent_setHeader hs, hs]
  exact h

theorem totalSize?_eq_some_iff (h : ∀ m ∈ members, m.Measured) :
    totalSize? members = some total ↔ total.toNat = totalExtent members := by
  induction members generalizing total with
  | nil =>
    unfold totalSize? totalExtent
    rw [Option.some.injEq, ← UInt64.toNat_inj, UInt64.toNat_zero]
    exact eq_comm
  | cons m ms ih =>
    have hms : ∀ {t}, totalSize? ms = some t ↔ t.toNat = totalExtent ms :=
      ih fun m' hm => h m' (List.mem_cons_of_mem m hm)
    unfold totalSize? totalExtent
    rw [Option.bind_eq_some_iff, ← h m List.mem_cons_self]
    constructor
    · rintro ⟨rest, hrest, hadd⟩
      rw [Word.add?_eq_some_iff.mp hadd, hms.mp hrest]
    · intro ht
      -- What is added up on the way is not more than the total.
      have hlt : totalExtent ms < 0x10000000000000000 :=
        Nat.lt_of_le_of_lt (Nat.le_add_left _ _) (ht ▸ total.toNat_lt)
      have hrest : (UInt64.ofNat (totalExtent ms)).toNat = totalExtent ms :=
        UInt64.toNat_ofNat_of_lt' hlt
      exact ⟨.ofNat (totalExtent ms), hms.mpr hrest,
        Word.add?_eq_some_iff.mpr (by rw [hrest, ht])⟩

theorem toNat_largestSize (h : ∀ m ∈ members, m.Measured) :
    (largestSize members).toNat = largestExtent members := by
  induction members with
  | nil => rfl
  | cons m ms ih =>
    have hms := ih fun m' hm => h m' (List.mem_cons_of_mem m hm)
    unfold largestExtent
    rw [← hms, ← h m List.mem_cons_self]
    exact Word.toNat_max _ _

/-- A sequence can be made as long as a word can count its bytes. -/
theorem ofSequence_eq (h : element.Measured) (count : Word) :
    ofSequence count element =
      if count.toNat * element.extent < 0x10000000000000000 then
        .ok (sequence ⟨.ofNat (count.toNat * element.extent), element.align, element.order⟩
          count element)
      else
        .error (.invalidArgument s!"sequence of {count} x {element.size} bytes overflows") := by
  have htotal := Word.eq_ite_of_eq_some_iff fun t => by
    rw [Word.mul?_eq_some_iff (a := element.size) (b := count) (c := t), h, Nat.mul_comm]
  unfold ofSequence
  rw [htotal]
  by_cases hlt : count.toNat * element.extent < 0x10000000000000000
  · rw [if_pos hlt, if_pos hlt]
  · rw [if_neg hlt, if_neg hlt]

/-- A struct can be made of members as long as a word can count their bytes. -/
theorem ofStruct_eq (h : ∀ m ∈ members, m.Measured) :
    ofStruct members =
      if totalExtent members < 0x10000000000000000 then
        .ok (struct ⟨.ofNat (totalExtent members), largestAlign members, .native⟩ members)
      else .error (.invalidArgument "struct layout size overflows") := by
  have htotal := Word.eq_ite_of_eq_some_iff fun _ => totalSize?_eq_some_iff h
  unfold ofStruct
  rw [htotal]
  by_cases hlt : totalExtent members < 0x10000000000000000
  · rw [if_pos hlt, if_pos hlt]
  · rw [if_neg hlt, if_neg hlt]

theorem ofSequence_error_iff (h : element.Measured) (count : Word) :
    (∃ e, ofSequence count element = .error e) ↔
      0x10000000000000000 ≤ count.toNat * element.extent := by
  rw [ofSequence_eq h]
  split
  next hlt => simp [Nat.not_le.mpr hlt]
  next hge => simp [Nat.not_lt.mp hge]

theorem ofStruct_error_iff (h : ∀ m ∈ members, m.Measured) :
    (∃ e, ofStruct members = .error e) ↔ 0x10000000000000000 ≤ totalExtent members := by
  rw [ofStruct_eq h]
  split
  next hlt => simp [Nat.not_le.mpr hlt]
  next hge => simp [Nat.not_lt.mp hge]

/-- Whatever a layout is put together of, its size is that of its shape. -/
theorem Made.measured (h : l.Made) : l.Measured := by
  induction h with
  | value _ _ h =>
    unfold ofValue at h
    split at h
    next =>
      cases h
      rfl
    next => cases h
  | scalar _ _ h =>
    unfold scalar? at h
    split at h
    next =>
      cases h
      rfl
    next => cases h
  | padding => rfl
  | sequence _ h ih =>
    rw [ofSequence_eq ih] at h
    split at h
    next hlt =>
      cases h
      exact UInt64.toNat_ofNat_of_lt' hlt
    next => cases h
  | struct _ h ih =>
    rw [ofStruct_eq ih] at h
    split at h
    next hlt =>
      cases h
      exact UInt64.toNat_ofNat_of_lt' hlt
    next => cases h
  | union _ ih => exact toNat_largestSize ih
  | withAlign _ h ih =>
    unfold Layout.withAlign at h
    split at h
    next =>
      cases h
      exact ih.setHeader rfl
    next => cases h
  | withOrder _ _ ih => exact ih.setHeader rfl

end Layout
end ScopedMemory
