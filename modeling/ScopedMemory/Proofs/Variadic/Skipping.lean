import ScopedMemory.Proofs.Variadic.Position

namespace ScopedMemory

open Operation

variable {system : SystemAllocator} {strict : Prop} {waiting : List Block} {G : List Region}
  {ctx : Context} {σ τ ρ : Store}

namespace VariadicList

variable {v v' : VariadicList} {c : Cursor} {w : Allocator} {l : Layout}

/-! ### Skipping by count -/

theorem after_after (v : VariadicList) (i j : Nat) : (v.after i).after j = v.after (i + j) := by
  obtain ⟨k, s, cursor⟩ := v
  cases cursor with
  | none => rfl
  | some c =>
    have hsum : UInt64.ofNat (i + j) * k.slotSize =
        UInt64.ofNat i * k.slotSize + UInt64.ofNat j * k.slotSize := by
      rw [UInt64.ofNat_add, UInt64.add_mul]
    have hsub : ∀ a b c : Word, a - b - c = a - (b + c) := by grind
    unfold after Region.narrow
    simp only [Option.map_some, hsum, UInt64.add_assoc, hsub]

/-- Slots that are left lie next to each other from the cursor on. -/
theorem Sits.spans_slots (h : v.Sits c σ) {k : Nat} (hlt : k < 0x10000000000000000)
    (hk : k * v.convention.slotSize.toNat ≤ v.unread) :
    ∃ n, Word.mul? v.convention.slotSize (.ofNat k) = some n ∧ c.remaining.Spans 0 n := by
  have hend := Region.fits_iff.mp h.fits
  rw [unread_of_cursor h.cursor] at hk
  have hcount : (UInt64.ofNat k).toNat = k := UInt64.toNat_ofNat_of_lt' hlt
  have hbytes : k * v.convention.slotSize.toNat < 0x10000000000000000 :=
    Nat.lt_of_le_of_lt hk c.remaining.size.toNat_lt
  have hsize : (UInt64.ofNat (k * v.convention.slotSize.toNat)).toNat =
      k * v.convention.slotSize.toNat := UInt64.toNat_ofNat_of_lt' hbytes
  refine ⟨.ofNat (k * v.convention.slotSize.toNat), ?_, ?_, ?_⟩
  · rw [Word.mul?_eq_some_iff, hsize, hcount, Nat.mul_comm]
  · rw [hsize, UInt64.toNat_zero]
    omega
  · rw [hsize, UInt64.toNat_zero]
    omega

/-- Skipping succeeds exactly if the slots are left, and it moves over them. -/
theorem Sits.run_skip_iff (h : v.Sits c σ) {ls : List Layout}
    (hlt : ls.length < 0x10000000000000000) :
    (v.skip ls).run ctx τ = .ok v' ρ ↔
      τ.checkUsable ctx.caller v.scope = .ok () ∧
        ls.length * v.convention.slotSize.toNat ≤ v.unread ∧ v' = v.after ls.length ∧ ρ = τ := by
  constructor
  · intro hr
    obtain ⟨n, hn, hsp, hu, rfl, rfl⟩ := of_run_skip h.cursor hr
    rw [h.scope] at hu
    refine ⟨hu, ?_, (after_of_mul h.cursor hn).symm, rfl⟩
    rw [Word.mul?_eq_some_iff, UInt64.toNat_ofNat_of_lt' hlt, Nat.mul_comm] at hn
    have hle := hsp.1
    rw [UInt64.toNat_zero, Nat.zero_add, hn] at hle
    rwa [unread_of_cursor h.cursor]
  · rintro ⟨hu, hk, rfl, rfl⟩
    obtain ⟨n, hn, hsp⟩ := h.spans_slots hlt hk
    rw [h.run_skip hn hsp hu, after_of_mul h.cursor hn]

/-- As many bytes less are left as have been moved over. -/
theorem Sits.after (h : v.Sits c σ) {k : Nat} (hlt : k < 0x10000000000000000)
    (hk : k * v.convention.slotSize.toNat ≤ v.unread) :
    ∃ d, (v.after k).Sits d σ ∧
      (v.after k).unread = v.unread - k * v.convention.slotSize.toNat := by
  obtain ⟨n, hn, hsp⟩ := h.spans_slots hlt hk
  have hle := hsp.1
  rw [UInt64.toNat_zero, Nat.zero_add] at hle
  rw [after_of_mul h.cursor hn]
  refine ⟨_, h.moved hsp, ?_⟩
  rw [Word.mul?_eq_some_iff, UInt64.toNat_ofNat_of_lt' hlt, Nat.mul_comm] at hn
  rw [unread_of_cursor h.cursor, ← hn]
  exact UInt64.toNat_sub_of_le _ _ (UInt64.le_iff_toNat_le.mpr hle)

/-- Skipping twice is skipping once. -/
theorem Sits.run_skip_append (h : v.Sits c σ) {xs ys : List Layout}
    (hlt : (xs ++ ys).length < 0x10000000000000000) :
    (v.skip (xs ++ ys)).run ctx τ = .ok v' ρ ↔
      (do (← v.skip xs).skip ys : Operation VariadicList).run ctx τ = .ok v' ρ := by
  have hsum : (xs ++ ys).length = xs.length + ys.length := List.length_append
  have hx : xs.length < 0x10000000000000000 := by omega
  have hy : ys.length < 0x10000000000000000 := by omega
  rw [h.run_skip_iff hlt, hsum, Nat.add_mul, ← after_after]
  constructor
  · rintro ⟨hu, hk, rfl, rfl⟩
    obtain ⟨d, hd, hunread⟩ := h.after hx (by omega)
    rw [run_bind, (h.run_skip_iff hx).mpr ⟨hu, by omega, rfl, rfl⟩]
    refine (hd.run_skip_iff hy).mpr ⟨hu, ?_, rfl, rfl⟩
    rw [hunread]
    exact Nat.le_sub_of_add_le' hk
  · intro hr
    obtain ⟨r, ρ', hfirst, hrest⟩ := of_run_bind hr
    obtain ⟨hu, hk, rfl, rfl⟩ := (h.run_skip_iff hx).mp hfirst
    obtain ⟨d, hd, hunread⟩ := h.after hx hk
    obtain ⟨_, hk', rfl, rfl⟩ := (hd.run_skip_iff hy).mp hrest
    rw [hunread] at hk'
    refine ⟨hu, ?_, rfl, rfl⟩
    change _ * v.convention.slotSize.toNat ≤ _ at hk'
    omega

/-- A struct that is read changes the copy, and memory that comes into use for it. -/
theorem Sits.bytes_readSegment (h : v.Sits c σ) (hlaw : system.Lawful)
    (hs : σ.Sound system strict waiting) (hw : ctx.system.Within system) (hk : w.Known σ)
    {r : Region} (hr : (v.readSegment l w).run ctx σ = .ok (r, v') ρ) {x : Nat}
    (hx : ρ.memory.byte x ≠ σ.memory.byte x) : r.Has x ∨ ¬ σ.InUse x ∧ ρ.InUse x := by
  obtain ⟨_, _, _, hdecode, _⟩ := of_run_readSlot h.cursor hr
  obtain ⟨src, _, hsrc, hrest⟩ := of_run_bind hdecode
  obtain ⟨_, hsize, rfl⟩ := (leads_structSource_shape h.scope).ok hsrc
  obtain ⟨r', ρ', hgiven, hcopied⟩ := of_run_bind hrest
  obtain ⟨_, _, hcopy, hdone⟩ := of_run_bind hcopied
  cases hdone
  obtain ⟨_, _, rfl⟩ := Region.leads_copyFrom.ok hcopy
  have hg := (Allocator.leads_allocate hs hw hk l.size l.align).ok hgiven
  by_cases hin : r.Has x
  · exact Or.inl hin
  · refine Or.inr (hg.changes.taken hlaw.separate hs ?_)
    have hout : (ρ'.memory.write r.start.toNat
        (ρ'.memory.read src.start.toNat src.size.toNat)).byte x = ρ'.memory.byte x := by
      refine Memory.byte_write_of_not fun hwrite => hin ⟨hwrite.1, ?_⟩
      have hlt := hwrite.2
      rw [Memory.length_read, hsize] at hlt
      rwa [hg.size]
    exact fun he => hx (hout.trans he)

end VariadicList

namespace Reading

variable {v v' : VariadicList} {c : Cursor} {w : Allocator} {q : Reading} {ctx' : Context}

/-- A reading that succeeds had its slots, and moves over them. -/
theorem slots_of_run (h : v.Sits c σ) {x : Shown} (hr : (q.perform v w).run ctx σ = .ok (x, v') ρ)
    (hlt : q.slots < 0x10000000000000000) :
    v' = v.after q.slots ∧ q.slots * v.convention.slotSize.toNat ≤ v.unread := by
  obtain ⟨n, hn, hsp, _, rfl⟩ := of_run h.cursor hr
  refine ⟨(VariadicList.after_of_mul h.cursor hn).symm, ?_⟩
  rw [Word.mul?_eq_some_iff, UInt64.toNat_ofNat_of_lt' hlt, Nat.mul_comm] at hn
  have hle := hsp.1
  rw [UInt64.toNat_zero, Nat.zero_add, hn] at hle
  rwa [VariadicList.unread_of_cursor h.cursor]

/-- A reading can be replaced by a skip of as many slots. -/
theorem skip_of_run (h : v.Sits c σ) {x : Shown} (hr : (q.perform v w).run ctx σ = .ok (x, v') ρ)
    {ls : List Layout} (hlen : ls.length = q.slots)
    (hu : τ.checkUsable ctx'.caller v.scope = .ok ()) :
    (v.skip ls).run ctx' τ = .ok v' τ := by
  obtain ⟨n, hn, hsp, _, rfl⟩ := of_run h.cursor hr
  rw [← hlen] at hn
  exact h.run_skip hn hsp hu

end Reading
end ScopedMemory
