import ScopedMemory.Proofs.Heap.Apart

namespace ScopedMemory

/-- Nothing is placed over a block that is not freed, and nothing but such a block is freed. -/
def HeapEvent.Orderly : List HeapEvent → Prop
  | [] => True
  | .placed _ b :: past => b ∉ unfreed past ∧ Orderly past
  | .freed b :: past => b ∈ unfreed past ∧ Orderly past

/-- The events tell of no block that it is freed. -/
def HeapEvent.Places (events : List HeapEvent) : Prop := ∀ b, HeapEvent.freed b ∉ events

theorem Block.Apart.ne {b c : Block} (h : b.Apart c) : b ≠ c := by
  rintro rfl
  unfold Block.Apart Block.finish at h
  omega

theorem SystemAllocator.nodup_unfreed {system : SystemAllocator} (hs : system.Separate)
    {past : List HeapEvent} (h : system.History past) : (unfreed past).Nodup :=
  (unfreed_pairwise_apart hs h).imp Block.Apart.ne

theorem SystemAllocator.History.of_cons {system : SystemAllocator} {e : HeapEvent}
    {past : List HeapEvent} (h : system.History (e :: past)) : system.History past := by
  cases h <;> assumption

theorem SystemAllocator.History.of_append {system : SystemAllocator} {newer past : List HeapEvent}
    (h : system.History (newer ++ past)) : system.History past := by
  induction newer with
  | nil => exact h
  | cons e newer ih => exact ih h.of_cons

namespace HeapEvent

variable {past newer between older news : List HeapEvent} {b : Block}

/-! ### Events that come -/

theorem Places.cons {e : HeapEvent} (h : Places (e :: news)) :
    (∃ pool b, e = .placed pool b) ∧ Places news := by
  refine ⟨?_, fun b hb => h b (List.mem_cons_of_mem _ hb)⟩
  cases e with
  | placed pool b => exact ⟨pool, b, rfl⟩
  | freed b => exact absurd List.mem_cons_self (h b)

theorem Orderly.placed {system : SystemAllocator} (hs : system.Separate) (h : Orderly past)
    (hn : Places news) (hh : system.History (news ++ past)) : Orderly (news ++ past) := by
  induction news with
  | nil => exact h
  | cons e news ih =>
    obtain ⟨⟨pool, b, rfl⟩, hnews⟩ := hn.cons
    cases hh with
    | placed hpast ha hb =>
      exact ⟨fun hm => (hs.apart hpast ha hb _ hm).ne rfl, ih hnews hpast⟩

/-- Blocks are freed that are all in use. -/
theorem Orderly.freed (h : Orderly past) {bs rest : List Block}
    (hp : (unfreed past).Perm (bs ++ rest)) : Orderly (bs.map .freed ++ past) := by
  induction bs generalizing rest with
  | nil => exact h
  | cons b bs ih =>
    have hmiddle := hp.trans List.perm_middle.symm
    exact ⟨(unfreed_freed_perm hmiddle).mem_iff.mpr List.mem_cons_self, ih hmiddle⟩

/-! ### Blocks that are freed once -/

theorem Orderly.of_append (h : Orderly (newer ++ older)) : Orderly older := by
  induction newer with
  | nil => exact h
  | cons e newer ih => cases e <;> exact ih h.2

/-- A block in use comes from being placed, and has been freed since never. -/
theorem mem_unfreed_append (hb : b ∈ unfreed (newer ++ older)) :
    (∃ pool, .placed pool b ∈ newer) ∨ b ∈ unfreed older := by
  induction newer with
  | nil => exact Or.inr hb
  | cons e newer ih =>
    have hlift : ((∃ pool, .placed pool b ∈ newer) ∨ b ∈ unfreed older) →
        (∃ pool, .placed pool b ∈ e :: newer) ∨ b ∈ unfreed older := fun h =>
      h.imp_left fun ⟨pool, hp⟩ => ⟨pool, List.mem_cons_of_mem _ hp⟩
    cases e with
    | placed pool c =>
      rcases List.mem_cons.mp hb with rfl | hb
      · exact Or.inl ⟨pool, List.mem_cons_self⟩
      · exact hlift (ih hb)
    | freed c => exact hlift (ih (List.mem_of_mem_erase hb))

/-- Between two times that a block is freed it is placed anew. -/
theorem Orderly.once {system : SystemAllocator} (hs : system.Separate)
    (hh : system.History (newer ++ .freed b :: (between ++ .freed b :: older)))
    (h : Orderly (newer ++ .freed b :: (between ++ .freed b :: older))) :
    ∃ pool, .placed pool b ∈ between := by
  have hb : b ∈ unfreed (between ++ .freed b :: older) := h.of_append.1
  refine (mem_unfreed_append hb).resolve_right fun hb => ?_
  have holder : system.History older := hh.of_append.of_cons.of_append.of_cons
  exact (SystemAllocator.nodup_unfreed hs holder).not_mem_erase hb

end HeapEvent
end ScopedMemory
