import ScopedMemory.Heap.TwinHeaps
import ScopedMemory.Proofs.Region.Span

namespace ScopedMemory

/-- The footprints of the blocks, which count at least one byte each, share none. -/
def Block.Apart (b c : Block) : Prop := b.finish ≤ c.base.toNat ∨ c.finish ≤ b.base.toNat

theorem Block.Apart.symm {b c : Block} (h : b.Apart c) : c.Apart b := Or.symm h

theorem Block.Apart.not_has {b c : Block} (h : b.Apart c) {x : Nat} (hb : b.Has x) : ¬ c.Has x := by
  rintro ⟨hc₁, hc₂⟩
  obtain ⟨hb₁, hb₂⟩ := hb
  unfold Block.Apart Block.finish at h
  omega

namespace SystemAllocator

/-- The part of the laws that keeps blocks from sharing bytes. -/
structure Separate (system : SystemAllocator) : Prop where
  apart {past pool size align base} (h : system.History past) (ha : Word.IsPowerOfTwo align)
    (hb : system.place past pool size align = some base) :
    ∀ b ∈ unfreed past, b.Apart ⟨base, size⟩

/-- The part of the laws that makes all blocks in use fit into the address space together. -/
structure Packs (system : SystemAllocator) : Prop extends system.Separate where
  bounded {past pool size align base} (h : system.History past) (ha : Word.IsPowerOfTwo align)
    (hb : system.place past pool size align = some base) :
    (Block.mk base size).finish < 0x10000000000000000

structure Aligns (system : SystemAllocator) : Prop where
  aligned {past pool size align base} (h : system.History past) (ha : Word.IsPowerOfTwo align)
    (hb : system.place past pool size align = some base) : align.toNat ∣ base.toNat

theorem Lawful.separate {system : SystemAllocator} (h : system.Lawful) : system.Separate where
  apart hp ha hb b hm := h.apart hp ha hb b hm

theorem Lawful.packs {system : SystemAllocator} (h : system.Lawful) : system.Packs where
  toSeparate := h.separate
  bounded hp ha hb := h.bounded hp ha hb

theorem Lawful.aligns {system : SystemAllocator} (h : system.Lawful) : system.Aligns where
  aligned hp ha hb := h.aligned hp ha hb

/-- `other` may refuse what `system` would serve, and serves nothing else. -/
def Within (other system : SystemAllocator) : Prop :=
  ∀ past pool size align base, other.place past pool size align = some base →
    system.place past pool size align = some base

theorem Within.refl (system : SystemAllocator) : system.Within system := fun _ _ _ _ _ h => h

theorem Within.place {other system : SystemAllocator} (h : other.Within system)
    {past : List HeapEvent} {pool : Pool} {size align base : Word}
    (hb : other.request past pool size align = some base) :
    system.place past pool size align = some base := by
  unfold request at hb
  split at hb
  next => exact h _ _ _ _ _ hb
  next => cases hb

/-- The blocks in use are apart from each other, whatever was placed and freed before. -/
theorem unfreed_pairwise_apart {system : SystemAllocator} (hs : system.Separate)
    {past : List HeapEvent} (h : system.History past) : (unfreed past).Pairwise Block.Apart := by
  induction h with
  | nil => exact List.Pairwise.nil
  | placed h ha hb ih =>
    refine List.pairwise_cons.mpr ⟨fun b hm => ?_, ih⟩
    exact (hs.apart h ha hb b hm).symm
  | freed _ b ih => exact ih.sublist List.erase_sublist

theorem finish_lt_of_mem_unfreed {system : SystemAllocator} (hs : system.Packs)
    {past : List HeapEvent} (h : system.History past) :
    ∀ b ∈ unfreed past, b.finish < 0x10000000000000000 := by
  induction h with
  | nil => simp [unfreed]
  | placed h ha hb ih =>
    intro b hm
    rcases List.mem_cons.mp hm with rfl | hm
    · exact hs.bounded h ha hb
    · exact ih b hm
  | freed _ c ih => exact fun b hm => ih b (List.mem_of_mem_erase hm)

theorem History.freedAll {system : SystemAllocator} {past : List HeapEvent}
    (h : system.History past) (bs : List Block) : system.History (bs.map .freed ++ past) := by
  induction bs with
  | nil => exact h
  | cons b bs ih => exact ih.freed b

end SystemAllocator

theorem unfreed_freed_perm {past : List HeapEvent} {bs rest : List Block}
    (h : (unfreed past).Perm (bs ++ rest)) :
    (unfreed (bs.map .freed ++ past)).Perm rest := by
  induction bs generalizing rest with
  | nil => exact h
  | cons b bs ih =>
    have hb : (unfreed (bs.map .freed ++ past)).Perm (b :: rest) :=
      ih (h.trans List.perm_middle.symm)
    have he := hb.erase b
    rwa [List.erase_cons_head] at he

end ScopedMemory
