import ScopedMemory.Proofs.Scope.Lookup

namespace ScopedMemory

/-- How many bytes a block takes up, which is at least one. -/
def Block.footprint (b : Block) : Nat := max b.size.toNat 1

/-- Blocks that are apart take up no more than there is between two addresses that enclose them. -/
theorem total_footprint_le (bs : List Block) {first last : Nat} (hle : first ≤ last)
    (hp : bs.Pairwise Block.Apart) (hfirst : ∀ b ∈ bs, first ≤ b.base.toNat)
    (hlast : ∀ b ∈ bs, b.finish ≤ last) : total Block.footprint bs ≤ last - first := by
  -- Each block splits the others into those below it and those above.
  match bs with
  | [] => exact Nat.zero_le _
  | b :: bs =>
    obtain ⟨hb, hp⟩ := List.pairwise_cons.mp hp
    have hmem : ∀ c ∈ bs, c ∈ b :: bs := fun c => List.mem_cons_of_mem b
    have hbelow := total_footprint_le (bs.filter fun c => c.finish ≤ b.base.toNat)
      (hfirst b List.mem_cons_self) (hp.sublist List.filter_sublist)
      (fun c hc => hfirst c (hmem c (List.mem_filter.mp hc).1))
      fun c hc => of_decide_eq_true (List.mem_filter.mp hc).2
    have habove := total_footprint_le (bs.filter fun c => !decide (c.finish ≤ b.base.toNat))
      (hlast b List.mem_cons_self) (hp.sublist List.filter_sublist)
      (fun c hc => (hb c (List.mem_filter.mp hc).1).resolve_right
        (by simpa using (List.mem_filter.mp hc).2))
      fun c hc => hlast c (hmem c (List.mem_filter.mp hc).1)
    have hsplit := total_perm Block.footprint
      (List.filter_append_perm (fun c => c.finish ≤ b.base.toNat) bs)
    have hfirst' := hfirst b List.mem_cons_self
    have hlast' := hlast b List.mem_cons_self
    have hfinish : b.finish = b.base.toNat + b.footprint := rfl
    rw [total_append] at hsplit
    rw [total_cons]
    omega
termination_by bs.length
decreasing_by
  all_goals exact Nat.lt_succ_of_le (List.length_filter_le _ _)

namespace Store

variable {system : SystemAllocator} {strict : Prop} {waiting : List Block} {σ : Store}

theorem Sound.pairwise_blocks (hs : σ.Sound system strict waiting) (hsep : system.Separate)
    {s : ScopeId} (hl : s < σ.scopes.length) : (σ.scope s).blocks.Pairwise Block.Apart := by
  have hp := SystemAllocator.unfreed_pairwise_apart hsep hs.history
  obtain ⟨rest, hrest, _⟩ := blocks_modifyScope hl
  have hperm := hs.accounted.trans (hrest.append_right waiting)
  have hall := (hperm.pairwise_iff fun h => Block.Apart.symm h).mp hp
  rw [List.append_assoc] at hall
  exact (List.pairwise_append.mp hall).1

/-- The blocks of a scope take up less than the address space. -/
theorem Sound.footprint_lt (hs : σ.Sound system strict waiting) (hpack : system.Packs)
    {s : ScopeId} (hl : s < σ.scopes.length) :
    total Block.footprint (σ.scope s).blocks < 0x10000000000000000 := by
  have h : total Block.footprint (σ.scope s).blocks ≤ 0xffffffffffffffff - 0 :=
    total_footprint_le (σ.scope s).blocks (Nat.zero_le _) (hs.pairwise_blocks hpack.toSeparate hl)
      (fun _ _ => Nat.zero_le _) fun b hb => by
        have := SystemAllocator.finish_lt_of_mem_unfreed hpack hs.history b (hs.mem_unfreed hb)
        omega
  omega

theorem Sound.bytes_lt (hs : σ.Sound system strict waiting) (hpack : system.Packs)
    {s : ScopeId} (hl : s < σ.scopes.length) :
    total (·.size.toNat) (σ.scope s).blocks < 0x10000000000000000 := by
  have hfootprint := hs.footprint_lt hpack hl
  rw [total_eq_sum] at hfootprint ⊢
  refine Nat.lt_of_le_of_lt ?_ hfootprint
  exact List.sum_le_sum fun b _ => Nat.le_max_left b.size.toNat 1

theorem Sound.count_lt (hs : σ.Sound system strict waiting) (hpack : system.Packs)
    {s : ScopeId} (hl : s < σ.scopes.length) :
    (σ.scope s).blocks.length < 0x10000000000000000 := by
  have hfootprint := hs.footprint_lt hpack hl
  have hlength : ((σ.scope s).blocks.map Block.footprint).length ≤
      ((σ.scope s).blocks.map Block.footprint).sum := by
    apply List.length_le_sum_of_one_le
    intro n hn
    obtain ⟨b, _, rfl⟩ := List.mem_map.mp hn
    exact Nat.le_max_right b.size.toNat 1
  rw [List.length_map, ← total_eq_sum] at hlength
  omega

end Store

/-- The sum that a scope reports of its blocks does not wrap around. -/
theorem Scope.toNat_memoryBytes {sc : Scope}
    (h : total (·.size.toNat) sc.blocks < 0x10000000000000000) :
    sc.memoryBytes.toNat = total (·.size.toNat) sc.blocks := by
  unfold memoryBytes
  generalize sc.blocks = bs at h
  induction bs with
  | nil => rfl
  | cons b bs ih =>
    rw [total_cons] at h ⊢
    rw [List.foldr_cons, UInt64.toNat_add, ih (by omega), Nat.mod_eq_of_lt h]

end ScopedMemory
