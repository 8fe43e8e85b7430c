import Mathlib.Order.Bounds.Defs
import ScopedMemory.Proofs.Arena.Supply
import ScopedMemory.Proofs.Heap.Packing

namespace ScopedMemory

/-- The least multiple of `unit` that is not below `n`. -/
def roundUp (n unit : Nat) : Nat := (n + (unit - 1)) / unit * unit

section roundUp

variable {n m unit : Nat}

theorem dvd_roundUp (n unit : Nat) : unit ∣ roundUp n unit := Nat.dvd_mul_left unit _

theorem le_roundUp (hu : 0 < unit) : n ≤ roundUp n unit := by
  have hd := Nat.div_add_mod (n + (unit - 1)) unit
  have hm := Nat.mod_lt (n + (unit - 1)) hu
  rw [Nat.mul_comm] at hd
  unfold roundUp
  omega

theorem roundUp_lt (hu : 0 < unit) : roundUp n unit < n + unit := by
  have hle := Nat.div_mul_le_self (n + (unit - 1)) unit
  unfold roundUp
  omega

theorem roundUp_le (hu : 0 < unit) (hm : unit ∣ m) (h : n ≤ m) : roundUp n unit ≤ m := by
  have hlt : roundUp n unit < m + unit := Nat.lt_of_lt_of_le (roundUp_lt hu) (by omega)
  obtain ⟨p, hp⟩ := dvd_roundUp n unit
  obtain ⟨q, rfl⟩ := hm
  rw [hp, ← Nat.mul_succ] at hlt
  rw [hp]
  exact Nat.mul_le_mul_left unit (Nat.le_of_lt_succ (Nat.lt_of_mul_lt_mul_left hlt))

theorem roundUp_eq (hu : 0 < unit) (hm : unit ∣ m) (h : n ≤ m) (hlt : m < n + unit) :
    roundUp n unit = m := by
  refine Nat.le_antisymm (roundUp_le hu hm h) ?_
  have hle : n ≤ roundUp n unit := le_roundUp hu
  obtain ⟨p, hp⟩ := dvd_roundUp n unit
  obtain ⟨q, rfl⟩ := hm
  rw [hp] at hle ⊢
  have hq : unit * q < unit * (p + 1) := by
    rw [Nat.mul_succ]
    omega
  exact Nat.mul_le_mul_left unit (Nat.le_of_lt_succ (Nat.lt_of_mul_lt_mul_left hq))

theorem roundUp_of_dvd (hu : 0 < unit) (h : unit ∣ n) : roundUp n unit = n :=
  roundUp_eq hu h (Nat.le_refl n) (Nat.lt_add_of_pos_right hu)

/-- Multiples of the unit come through. -/
theorem roundUp_add (hu : 0 < unit) (h : unit ∣ m) : roundUp (m + n) unit = m + roundUp n unit := by
  have hle : n ≤ roundUp n unit := le_roundUp hu
  have hlt : roundUp n unit < n + unit := roundUp_lt hu
  refine roundUp_eq hu (Nat.dvd_add h (dvd_roundUp n unit)) ?_ ?_
  · omega
  · omega

end roundUp

namespace Frontier

variable {f : Frontier} {size align : Word}

/-- The least offset at or after the cursor whose address is a multiple of `align`. -/
def next (f : Frontier) (align : Word) : Nat :=
  roundUp (f.block.start.toNat + f.cursor.toNat) align.toNat - f.block.start.toNat

theorem start_add_next (ha : align.IsPowerOfTwo) :
    f.block.start.toNat + f.next align =
      roundUp (f.block.start.toNat + f.cursor.toNat) align.toNat := by
  have hle := le_roundUp (n := f.block.start.toNat + f.cursor.toNat) ha.pos
  unfold next
  omega

theorem cursor_le_next (ha : align.IsPowerOfTwo) : f.cursor.toNat ≤ f.next align := by
  have hle := le_roundUp (n := f.block.start.toNat + f.cursor.toNat) ha.pos
  unfold next
  omega

theorem next_le (ha : align.IsPowerOfTwo) {o : Nat} (hc : f.cursor.toNat ≤ o)
    (hd : align.toNat ∣ f.block.start.toNat + o) : f.next align ≤ o := by
  have hle := roundUp_le ha.pos hd (Nat.add_le_add_left hc f.block.start.toNat)
  unfold next
  omega

theorem isLeast_next (ha : align.IsPowerOfTwo) :
    IsLeast {o | f.cursor.toNat ≤ o ∧ align.toNat ∣ f.block.start.toNat + o} (f.next align) := by
  refine ⟨⟨cursor_le_next ha, ?_⟩, fun o ho => next_le ha ho.1 ho.2⟩
  rw [start_add_next ha]
  exact dvd_roundUp _ _

/-- In a block that is aligned offsets are as good as addresses. -/
theorem next_eq_roundUp (ha : align.IsPowerOfTwo) (hd : align.toNat ∣ f.block.start.toNat) :
    f.next align = roundUp f.cursor.toNat align.toNat := by
  unfold next
  rw [roundUp_add ha.pos hd, Nat.add_sub_cancel_left]

/-- What is served is served at the next aligned offset. -/
theorem toNat_start_of_fit? (ha : align.IsPowerOfTwo) {start : Word}
    (h : f.fit? size align = some start) : start.toNat = f.next align := by
  unfold Frontier.fit? at h
  simp only [Option.bind_eq_bind, Option.bind_eq_some_iff] at h
  obtain ⟨cursor, hcursor, padded, hpadded, finish, _, h⟩ := h
  rw [Word.add?_eq_some_iff] at hcursor hpadded
  rw [ha.toNat_sub_one, hcursor] at hpadded
  have hround : (padded.roundDown align).toNat =
      roundUp (f.block.start.toNat + f.cursor.toNat) align.toNat := by
    rw [Word.toNat_roundDown, hpadded]
    rfl
  have hstart : start = padded.roundDown align - f.block.start := by
    split at h
    · exact (Option.some.inj h).symm
    · cases h
  have hbase : f.block.start ≤ padded.roundDown align := by
    rw [UInt64.le_iff_toNat_le, hround]
    exact Nat.le_trans (Nat.le_add_right _ _) (le_roundUp ha.pos)
  rw [hstart, UInt64.toNat_sub_of_le _ _ hbase, hround]
  rfl

/-- The padded cursor stays below the end of the words where the next aligned address does, since
they end at a multiple of every power of two. -/
theorem fit?_of_next_le (ha : align.IsPowerOfTwo)
    (hend : f.block.start.toNat + f.block.size.toNat < 0x10000000000000000) {start : Word}
    (hstart : start.toNat = f.next align)
    (hsize : f.next align + size.toNat ≤ f.block.size.toNat) :
    f.fit? size align = some start := by
  have hpos := ha.pos
  have hpred := ha.toNat_sub_one
  have hnext := start_add_next (f := f) ha
  have hcursor : f.cursor.toNat ≤ f.next align := cursor_le_next ha
  have hsum : (f.block.start + start).toNat = f.block.start.toNat + f.next align := by
    rw [UInt64.toNat_add, hstart, Nat.mod_eq_of_lt (by omega)]
  have hdvd : align.toNat ∣ (f.block.start + start).toNat := by
    rw [hsum, hnext]
    exact dvd_roundUp _ _
  have hroom := ha.add_le hdvd
  have hadd : Word.add? f.block.start f.cursor = some (f.block.start + f.cursor) := by
    unfold Word.add?
    rw [if_pos (by omega)]
  have hcur := Word.add?_eq_some_iff.mp hadd
  have hpad : Word.add? (f.block.start + f.cursor) (align - 1) =
      some (f.block.start + f.cursor + (align - 1)) := by
    unfold Word.add?
    rw [if_pos (by omega)]
  have hpadded := Word.add?_eq_some_iff.mp hpad
  have hround : (f.block.start + f.cursor + (align - 1)).roundDown align =
      f.block.start + start := by
    rw [← UInt64.toNat_inj, Word.toNat_roundDown, hpadded, hcur, hpred, hsum, hnext]
    rfl
  have hoffset : f.block.start + start - f.block.start = start := by
    rw [UInt64.add_comm, UInt64.add_sub_cancel]
  have hfin : Word.add? start size = some (start + size) := by
    unfold Word.add?
    rw [if_pos (by omega)]
  have hfinish := Word.add?_eq_some_iff.mp hfin
  have hfits : start + size ≤ f.block.size := by
    rw [UInt64.le_iff_toNat_le]
    omega
  unfold Frontier.fit?
  simp only [Option.bind_eq_bind, hadd, hpad, hround, hoffset, hfin, Option.bind_some,
    if_pos hfits]

/-- In a block that ends below the end of the words a request is served at the next aligned offset
or, if it would not end inside the block, not at all. -/
theorem fit?_eq_some_iff (ha : align.IsPowerOfTwo)
    (hend : f.block.start.toNat + f.block.size.toNat < 0x10000000000000000) {start : Word} :
    f.fit? size align = some start ↔
      start.toNat = f.next align ∧ f.next align + size.toNat ≤ f.block.size.toNat := by
  constructor
  · intro h
    have hstart := toNat_start_of_fit? ha h
    exact ⟨hstart, hstart ▸ (Frontier.fit?_spec ha h).2.2⟩
  · rintro ⟨hstart, hsize⟩
    exact fit?_of_next_le ha hend hstart hsize

theorem fit?_eq_none_iff (ha : align.IsPowerOfTwo)
    (hend : f.block.start.toNat + f.block.size.toNat < 0x10000000000000000) :
    f.fit? size align = none ↔ f.block.size.toNat < f.next align + size.toNat := by
  constructor
  · intro h
    rcases Nat.lt_or_ge f.block.size.toNat (f.next align + size.toNat) with hlt | hle
    · exact hlt
    · have hsome : f.fit? size align = some (.ofNat (f.next align)) := by
        refine (fit?_eq_some_iff ha hend).mpr ⟨?_, hle⟩
        rw [UInt64.toNat_ofNat', Nat.mod_eq_of_lt (by omega)]
      rw [h] at hsome
      cases hsome
  · intro h
    cases hf : f.fit? size align with
    | none => rfl
    | some start =>
      have hle := ((fit?_eq_some_iff ha hend).mp hf).2
      omega

end Frontier
end ScopedMemory
