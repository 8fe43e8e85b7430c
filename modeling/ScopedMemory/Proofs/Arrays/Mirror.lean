import ScopedMemory.Proofs.Arrays.Basic

namespace ScopedMemory

/-! ### Bytes -/

theorem Bytes.length_splice {cells bytes : Bytes} {start : Nat}
    (h : start + bytes.length ≤ cells.length) :
    (cells.splice start bytes).length = cells.length := by
  simp only [Bytes.splice, List.length_append, List.length_take, List.length_drop]
  omega

namespace Memory

theorem take_drop_read (m : Memory) (start : Nat) {n k l : Nat} (h : k + l ≤ n) :
    ((m.read start n).drop k).take l = m.read (start + k) l := by
  refine List.ext_getElem? fun i => ?_
  rw [List.getElem?_take, getElem?_read]
  split
  next hi =>
    have hk : k + i < n := by omega
    rw [List.getElem?_drop, getElem?_read, if_pos hk, Nat.add_assoc]
  next => rfl

/-- What is written within a range is spliced into what the range is read as. -/
theorem read_write_splice (m : Memory) (start : Nat) {n k : Nat} {bytes : Bytes}
    (h : k + bytes.length ≤ n) :
    (m.write (start + k) bytes).read start n = (m.read start n).splice k bytes := by
  have hlen : ((m.read start n).take k).length = k := by
    rw [List.length_take, length_read]
    omega
  refine List.ext_getElem? fun i => ?_
  rw [getElem?_read, byte_write, Bytes.splice, List.append_assoc, List.getElem?_append, hlen]
  by_cases hik : i < k
  · have hin : i < n := by omega
    have hlt : ¬ start + k ≤ start + i := by omega
    rw [if_pos hin, if_neg hlt, if_pos hik, List.getElem?_take, if_pos hik, getElem?_read,
      if_pos hin]
  · have hle : start + k ≤ start + i := by omega
    have hsub : start + i - (start + k) = i - k := by omega
    rw [if_neg hik, if_pos hle, hsub, List.getElem?_append]
    by_cases hib : i - k < bytes.length
    · have hin : i < n := by omega
      rw [if_pos hin, if_pos hib, List.getElem?_eq_getElem hib, Option.getD_some]
    · have hi : k + bytes.length + (i - k - bytes.length) = i := by omega
      rw [if_neg hib, List.getElem?_eq_none (Nat.le_of_not_lt hib), Option.getD_none,
        List.getElem?_drop, hi, getElem?_read]

theorem fill_eq_write (m : Memory) (start n : Nat) (value : UInt8) :
    m.fill start n value = m.write start (.replicate n value) := by
  have h : (m.fill start n value).byte = (m.write start (.replicate n value)).byte := by
    funext x
    rw [byte_fill, byte_write, List.getElem?_replicate]
    by_cases hs : start ≤ x
    · by_cases hx : x < start + n
      · have hlt : x - start < n := by omega
        rw [if_pos ⟨hs, hx⟩, if_pos hs, if_pos hlt, Option.getD_some]
      · have hge : ¬ x - start < n := by omega
        rw [if_neg fun h => hx h.2, if_pos hs, if_neg hge, Option.getD_none]
    · rw [if_neg fun h => hs h.1, if_neg hs]
  exact congrArg Memory.mk h

end Memory

/-! ### Views of regions handed out -/

/-- The region is the part that the view says of the region with the number of its array. -/
def View.Denotes (v : View) (G : List Region) (r : Region) : Prop :=
  ∃ g, G[v.array]? = some g ∧ r.scope = g.scope ∧ r.start.toNat = g.start.toNat + v.offset ∧
    r.size.toNat = v.length ∧ v.offset + v.length ≤ g.size.toNat

theorem View.Denotes.append {v : View} {G : List Region} {r : Region} (h : v.Denotes G r)
    (rs : List Region) : v.Denotes (G ++ rs) r := by
  obtain ⟨g, hg, h⟩ := h
  have hlt : v.array < G.length := (List.getElem?_eq_some_iff.mp hg).1
  exact ⟨g, by rwa [List.getElem?_append_left hlt], h⟩

theorem View.Denotes.narrow {v : View} {G : List Region} {r : Region} (h : v.Denotes G r)
    {offset length : Word} (hs : r.Spans offset length) :
    (v.narrow offset.toNat length.toNat).Denotes G (r.narrow offset length) := by
  obtain ⟨g, hg, hscope, hstart, hsize, hle⟩ := h
  have hfit := hs.1
  refine ⟨g, hg, hscope, ?_, rfl, ?_⟩
  · rw [Region.toNat_start_narrow hs, hstart, Nat.add_assoc]
    rfl
  · change v.offset + offset.toNat + length.toNat ≤ _
    omega

theorem View.denotes_new (G : List Region) (r : Region) :
    View.Denotes ⟨G.length, 0, r.size.toNat⟩ (G ++ [r]) r := by
  refine ⟨r, ?_, rfl, rfl, rfl, by simp⟩
  rw [List.getElem?_append_right (Nat.le_refl _), Nat.sub_self]
  rfl

/-! ### Memory and arrays -/

/-- While the region can be used it holds what the array holds. -/
def Region.Mirrored (r : Region) (σ : Store) (cells : Bytes) : Prop :=
  cells.length = r.size.toNat ∧
    (σ.IsAlive r.scope → σ.memory.read r.start.toNat r.size.toNat = cells)

/-- Every region handed out holds what its array holds, and what is yet to be handed out holds
zeros. -/
structure Store.Mirrors (σ : Store) (G : List Region) (arrays : List Bytes) : Prop where
  length : arrays.length = G.length
  cells : ∀ (i : Nat) (g : Region), G[i]? = some g →
    ∃ cells, arrays[i]? = some cells ∧ g.Mirrored σ cells
  clean : σ.Clean

namespace Store

variable {system : SystemAllocator} {strict : Prop} {waiting : List Block}
  {G rs : List Region} {arrays zs : List Bytes} {σ τ : Store} {v : View} {r : Region}

/-- Reading by a region gives what its part of an array holds. -/
theorem Mirrors.read (h : σ.Mirrors G arrays) (hv : v.Denotes G r) (ha : σ.IsAlive r.scope)
    {offset length : Nat} (hfit : offset + length ≤ r.size.toNat) :
    σ.memory.read (r.start.toNat + offset) length =
      (((arrays[v.array]?).getD []).drop (v.offset + offset)).take length := by
  obtain ⟨g, hg, hscope, hstart, hsize, hle⟩ := hv
  obtain ⟨cells, hcells, _, hread⟩ := h.cells v.array g hg
  rw [hcells, Option.getD_some, ← hread (hscope ▸ ha), Memory.take_drop_read _ _ (by omega), hstart,
    Nat.add_assoc]

theorem Ledger.apart_of_ne (hl : σ.Ledger G) {i j : Nat} {g g' : Region} (hg : G[i]? = some g)
    (hg' : G[j]? = some g') (hij : i ≠ j) : σ.Apart g g' := by
  obtain ⟨hi, rfl⟩ := List.getElem?_eq_some_iff.mp hg
  obtain ⟨hj, rfl⟩ := List.getElem?_eq_some_iff.mp hg'
  have hp := List.pairwise_iff_getElem.mp hl.apart
  rcases Nat.lt_or_gt_of_ne hij with hlt | hlt
  · exact hp i j hi hj hlt
  · exact fun ha ha' x hx hx' => hp j i hj hi hlt ha' ha x hx' hx

theorem Mirrors.write (h : σ.Mirrors G arrays) (hl : σ.Ledger G) (hv : v.Denotes G r)
    (ha : σ.IsAlive r.scope) {offset : Nat} {bytes : Bytes}
    (hfit : offset + bytes.length ≤ r.size.toNat) :
    (σ.setMemory (σ.memory.write (r.start.toNat + offset) bytes)).Mirrors G
      (arrays.modify v.array (·.splice (v.offset + offset) bytes)) := by
  obtain ⟨g₀, hg₀, hscope, hstart, hsize, hle⟩ := hv
  have hoff : r.start.toNat + offset = g₀.start.toNat + (v.offset + offset) := by omega
  have hwithin : ∀ x, r.start.toNat + offset ≤ x ∧ x < r.start.toNat + offset + bytes.length →
      g₀.Has x := fun x hx => ⟨by omega, by omega⟩
  refine ⟨by rw [List.length_modify]; exact h.length, fun i g hg => ?_, fun a haa x hx => ?_⟩
  · obtain ⟨cells, hcells, hlen, hread⟩ := h.cells i g hg
    rw [List.getElem?_modify, hcells]
    by_cases hi : v.array = i
    · subst hi
      cases hg₀.symm.trans hg
      refine ⟨cells.splice (v.offset + offset) bytes, by simp, ?_, fun hga => ?_⟩
      · rw [Bytes.length_splice (by omega), hlen]
      · rw [← hread hga, hoff]
        exact Memory.read_write_splice _ _ (by omega)
    · refine ⟨cells, by simp [hi], hlen, fun hga => ?_⟩
      rw [← hread hga]
      refine Memory.read_congr fun x h₁ h₂ => Memory.byte_write_of_not fun hx => ?_
      exact hl.apart_of_ne hg₀ hg hi (hscope ▸ ha) hga x (hwithin x hx) ⟨h₁, h₂⟩
  · have hc := h.clean a haa x hx
    rw [← hc]
    refine Memory.byte_write_of_not fun hw => ?_
    exact hl.free g₀ (List.mem_of_getElem? hg₀) a (hscope ▸ ha) haa x (hwithin x hw) hx

theorem Mirrors.changes (h : σ.Mirrors G arrays) (hsep : system.Separate)
    (hs : σ.Sound system strict waiting) (hl : σ.Ledger G) (hc : σ.Changes system False rs τ) :
    τ.Mirrors (G ++ rs) (arrays ++ (rs.map (·.size.toNat)).map .zeros) := by
  have hext := hc.extends
  refine ⟨by simp [h.length], fun i g hg => ?_, hc.clean hsep hs h.clean⟩
  by_cases hi : i < G.length
  · rw [List.getElem?_append_left hi] at hg
    obtain ⟨cells, hcells, hlen, hread⟩ := h.cells i g hg
    refine ⟨cells, ?_, hlen, fun hga => ?_⟩
    · rw [List.getElem?_append_left (h.length ▸ hi)]
      exact hcells
    · have hin := hl.inside g (List.mem_of_getElem? hg)
      have hga' := hext.alive _ hin.1 hga
      rw [← hread hga']
      exact Memory.read_congr fun x h₁ h₂ => hc.byte hsep hs (hs.inUse hin hga' ⟨h₁, h₂⟩)
  · have hle := Nat.le_of_not_lt hi
    rw [List.getElem?_append_right hle] at hg
    refine ⟨.zeros g.size.toNat, ?_, by simp [Bytes.zeros], fun hga => ?_⟩
    · rw [List.getElem?_append_right (h.length ▸ hle), h.length, List.getElem?_map,
        List.getElem?_map, hg]
      rfl
    · have hz := hc.blank hsep hs hl h.clean g (List.mem_of_getElem? hg) hga
      refine List.ext_getElem? fun k => ?_
      rw [Memory.getElem?_read, Bytes.zeros, List.getElem?_replicate]
      split
      next hk => rw [hz _ ⟨by omega, by omega⟩]
      next => rfl

/-- Regions that nobody was told of are left out. -/
theorem Mirrors.of_append (h : σ.Mirrors (G ++ rs) (arrays ++ zs))
    (hlen : arrays.length = G.length) : σ.Mirrors G arrays where
  length := hlen
  cells i g hg := by
    have hi : i < G.length := (List.getElem?_eq_some_iff.mp hg).1
    obtain ⟨cells, hcells, hm⟩ := h.cells i g (by rwa [List.getElem?_append_left hi])
    rw [List.getElem?_append_left (hlen ▸ hi)] at hcells
    exact ⟨cells, hcells, hm⟩
  clean := h.clean

/-- An update that leaves memory and arenas as they are. -/
theorem Mirrors.later (h : σ.Mirrors G arrays) (hs : σ.Sound system strict waiting)
    (hl : σ.Ledger G) (hlater : σ.Later τ) (hm : τ.memory = σ.memory)
    (ha : τ.arenas = σ.arenas) : τ.Mirrors G arrays where
  length := h.length
  cells i g hg := by
    obtain ⟨cells, hcells, hlen, hread⟩ := h.cells i g hg
    refine ⟨cells, hcells, hlen, fun hga => ?_⟩
    rw [hm]
    exact hread (hlater.alive _ (hl.inside g (List.mem_of_getElem? hg)).1 hga)
  clean a haa x hx := by
    have he : τ.arena a = σ.arena a := by
      unfold arena
      rw [ha]
    rw [he] at haa hx
    rw [hm]
    exact h.clean a (hlater.alive _ (hs.arenas a (lt_length_of_free hx)).scope haa) x hx

end Store
end ScopedMemory
