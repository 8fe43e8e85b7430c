import ScopedMemory.Proofs.Store.Sound

namespace ScopedMemory.Store

variable {system : SystemAllocator} {strict : Prop} {waiting : List Block} {G : List Region}
  {σ τ ρ : Store}

/-- Scopes neither end nor lose a block, and no block is freed. -/
structure Extends (σ τ : Store) : Prop extends σ.Later τ where
  lifetime : ∀ s < σ.scopes.length, (τ.scope s).lifetime = (σ.scope s).lifetime
  spares : σ.Spares τ
  unfreed : ∀ b ∈ unfreed σ.events, b ∈ ScopedMemory.unfreed τ.events

theorem Extends.refl (σ : Store) : σ.Extends σ where
  toLater := Later.refl σ
  lifetime _ _ := rfl
  spares _ h := h
  unfreed _ h := h

theorem Extends.trans (h : σ.Extends τ) (h' : τ.Extends ρ) : σ.Extends ρ where
  toLater := h.toLater.trans h'.toLater
  lifetime s hs := by
    rw [h'.lifetime s (Nat.lt_of_lt_of_le hs h.scopes), h.lifetime s hs]
  spares := h.spares.trans h'.spares
  unfreed b hb := h'.unfreed b (h.unfreed b hb)

theorem Extends.isAlive_iff (h : σ.Extends τ) {s : ScopeId} (hs : s < σ.scopes.length) :
    τ.IsAlive s ↔ σ.IsAlive s := by
  unfold IsAlive Scope.isAlive
  rw [h.lifetime s hs]

theorem Extends.isAlive (h : σ.Extends τ) {s : ScopeId} (ha : σ.IsAlive s) : τ.IsAlive s :=
  (h.isAlive_iff (lt_length_of_isAlive ha)).mpr ha

theorem Extends.checkUsable (h : σ.Extends τ) {s : ScopeId} (hs : s < σ.scopes.length)
    (t : Thread) : τ.checkUsable t s = σ.checkUsable t s := by
  have ha : (τ.scope s).isAlive = (σ.scope s).isAlive := by
    unfold Scope.isAlive
    rw [h.lifetime s hs]
  unfold Store.checkUsable
  rw [h.checkOwner hs, ha]

theorem Extends.inUse (h : σ.Extends τ) {x : Nat} (hx : σ.InUse x) : τ.InUse x := by
  obtain ⟨b, hb, hx⟩ := hx
  exact ⟨b, h.unfreed b hb, hx⟩

/-! ### What the updates of an allocation keep -/

theorem extends_addScope (σ : Store) (kind : ScopeKind) (t : Thread) :
    σ.Extends (σ.addScope kind t) := by
  have he : ∀ s < σ.scopes.length, (σ.addScope kind t).scope s = σ.scope s := fun s hs => by
    rw [scope_addScope, if_neg (Nat.ne_of_lt hs)]
  refine ⟨⟨by simp, Nat.le_refl _, Nat.le_refl _, ?_, ?_, ?_, fun _ _ => rfl⟩, ?_, ?_, fun _ h => h⟩
  · intro s hs h
    rwa [IsAlive, he s hs] at h
  · intro s hs _ b hb
    rwa [he s hs]
  · intro s hs
    rw [he s hs]
    exact ⟨rfl, rfl⟩
  · intro s hs
    rw [he s hs]
  · intro s hr
    rw [scope_addScope] at hr
    split at hr
    next => cases hr
    next => exact hr

theorem extends_addArena (σ : Store) (ar : Arena) : σ.Extends (σ.addArena ar) where
  scopes := Nat.le_refl _
  arenas := by simp
  tickets := Nat.le_refl _
  alive _ _ h := h
  blocks _ _ _ _ h := h
  owner _ _ := ⟨rfl, rfl⟩
  arenaScope a ha := by rw [arena_addArena, if_neg (Nat.ne_of_lt ha)]
  lifetime _ _ := rfl
  spares _ h := h
  unfreed _ h := h

theorem extends_modifyArena (σ : Store) (a : ArenaId) {f : Arena → Arena}
    (hf : ∀ ar, (f ar).scope = ar.scope) : σ.Extends (σ.modifyArena a f) where
  scopes := Nat.le_refl _
  arenas := by simp
  tickets := Nat.le_refl _
  alive _ _ h := h
  blocks _ _ _ _ h := h
  owner _ _ := ⟨rfl, rfl⟩
  arenaScope b _ := by
    rw [arena_modifyArena]
    split
    next h => rw [hf, h.1]
    next => rfl
  lifetime _ _ := rfl
  spares _ h := h
  unfreed _ h := h

theorem extends_setMemory (σ : Store) (m : Memory) : σ.Extends (σ.setMemory m) where
  toLater := ⟨Nat.le_refl _, Nat.le_refl _, Nat.le_refl _, fun _ _ h => h, fun _ _ _ _ h => h,
    fun _ _ => ⟨rfl, rfl⟩, fun _ _ => rfl⟩
  lifetime _ _ := rfl
  spares _ h := h
  unfreed _ h := h

theorem extends_addBlock (σ : Store) (s : ScopeId) (b : Block) : σ.Extends (σ.addBlock s b) := by
  have he : ∀ t, ((σ.addBlock s b).scope t).lifetime = (σ.scope t).lifetime ∧
      ((σ.addBlock s b).scope t).kind = (σ.scope t).kind ∧
      ((σ.addBlock s b).scope t).creator = (σ.scope t).creator ∧
      ∀ c ∈ (σ.scope t).blocks, c ∈ ((σ.addBlock s b).scope t).blocks := by
    intro t
    rw [scope_addBlock]
    split
    next h =>
      rw [h.1]
      exact ⟨rfl, rfl, rfl, fun c hc => List.mem_cons_of_mem _ hc⟩
    next => exact ⟨rfl, rfl, rfl, fun c hc => hc⟩
  refine ⟨⟨by simp, Nat.le_refl _, Nat.le_refl _, ?_, fun t _ _ => (he t).2.2.2,
    fun t _ => ⟨(he t).2.1, (he t).2.2.1⟩, fun _ _ => rfl⟩, fun t _ => (he t).1,
    fun t hr => (he t).1.symm.trans hr, fun c hc => List.mem_cons_of_mem _ hc⟩
  intro t _ h
  unfold IsAlive Scope.isAlive at h ⊢
  rwa [(he t).1] at h

theorem Sound.addScope (h : σ.Sound system strict waiting) (kind : ScopeKind) (t : Thread) :
    (σ.addScope kind t).Sound system strict waiting := by
  have hx := extends_addScope σ kind t
  refine ⟨h.history, ?_, ?_, ?_, fun a ha => (h.arenas a ha).later hx.toLater, ?_⟩
  · have hb : (σ.addScope kind t).blocks = σ.blocks := by simp [blocks, Store.addScope]
    rw [hb]
    exact h.accounted
  · intro s hs
    rw [IsAlive, scope_addScope] at hs
    rw [scope_addScope]
    by_cases hl : s = σ.scopes.length
    · rw [if_pos hl]
      exact ⟨rfl, rfl⟩
    · rw [if_neg hl] at hs ⊢
      exact h.ended s hs
  · have h0 := lt_length_of_isAlive h.eternal.2
    rw [IsAlive, scope_addScope, if_neg (Nat.ne_of_lt h0)]
    exact h.eternal
  · intro s p hp
    rw [scope_addScope] at hp
    by_cases hl : s = σ.scopes.length
    · rw [if_pos hl] at hp
      cases hp
    · rw [if_neg hl] at hp
      exact (h.actions s p hp).later hx.toLater hx.spares

theorem Sound.addArena (h : σ.Sound system strict waiting) {ar : Arena} (hs : σ.IsAlive ar.scope)
    (hf : ar.frontier = none) : (σ.addArena ar).Sound system strict waiting := by
  refine ⟨h.history, h.accounted, h.ended, h.eternal, fun a ha => ?_, fun s p hp => ?_⟩
  · rw [arena_addArena]
    split
    next => exact ⟨lt_length_of_isAlive hs, fun f hf' => by rw [hf] at hf'; cases hf'⟩
    next hn =>
      have hlt : a < σ.arenas.length := by
        rw [length_arenas_addArena] at ha
        exact Nat.lt_of_le_of_ne (Nat.le_of_lt_succ ha) hn
      exact (h.arenas a hlt).later (extends_addArena σ ar).toLater
  · have hx := extends_addArena σ ar
    exact (h.actions s p hp).later hx.toLater hx.spares

theorem Sound.addBlock (h : σ.Sound system strict waiting) {s : ScopeId} {base size align : Word}
    (hs : σ.IsAlive s) (ha : align.IsPowerOfTwo)
    (hb : system.place σ.events (σ.poolOf s) size align = some base) :
    (σ.addBlock s ⟨base, size⟩).Sound system strict waiting := by
  have hx := extends_addBlock σ s ⟨base, size⟩
  have hl := lt_length_of_isAlive hs
  refine ⟨.placed h.history ha hb, ?_, ?_, ?_, fun a ha => (h.arenas a ha).later hx.toLater, ?_⟩
  · obtain ⟨rest, h₁, h₂⟩ := blocks_modifyScope hl
    have hn : (σ.addBlock s ⟨base, size⟩).blocks.Perm (⟨base, size⟩ :: σ.blocks) :=
      (h₂ _).trans (h₁.symm.cons _)
    exact (h.accounted.cons _).trans (hn.symm.append_right waiting)
  · intro t ht
    have hd : ¬ σ.IsAlive t := fun ha => ht (hx.isAlive ha)
    rw [scope_addBlock, if_neg fun (he : t = s ∧ _) => hd (he.1 ▸ hs)]
    exact h.ended t hd
  · have h0 := lt_length_of_isAlive h.eternal.2
    exact ⟨(hx.owner 0 h0).1.trans h.eternal.1, hx.isAlive h.eternal.2⟩
  · intro t p hp
    have hp' : p ∈ (σ.scope t).actions := by
      rw [scope_addBlock] at hp
      split at hp
      next he => rw [he.1]; exact hp
      next => exact hp
    exact (h.actions t p hp').later hx.toLater hx.spares

theorem Sound.modifyArena (h : σ.Sound system strict waiting) {a : ArenaId} {f : Arena → Arena}
    (hf : ∀ ar, (f ar).scope = ar.scope)
    (hn : (σ.arena a).Sound σ → (f (σ.arena a)).Sound σ) :
    (σ.modifyArena a f).Sound system strict waiting := by
  have hx := extends_modifyArena σ a hf
  refine ⟨h.history, h.accounted, h.ended, h.eternal, fun b hb => ?_, fun s p hp => ?_⟩
  · rw [length_arenas_modifyArena] at hb
    rw [arena_modifyArena]
    split
    next he => exact (hn (h.arenas a he.2)).later hx.toLater
    next => exact (h.arenas b hb).later hx.toLater
  · exact (h.actions s p hp).later hx.toLater hx.spares

/-- What arenas have left belongs to arenas that were created. -/
theorem lt_length_of_free {a : ArenaId} {x : Nat} (h : (σ.arena a).Free x) :
    a < σ.arenas.length := by
  obtain ⟨f, hf, _⟩ := h
  exact lt_length_of_frontier hf

/-- An arena may go on to bytes that nobody had, and the others keep what they have left. -/
theorem Ledger.renew (h : σ.Ledger G) (hs : σ.Sound system strict waiting) (hl : σ.Later τ)
    (a₀ : ArenaId)
    (hf : ∀ a x, (τ.arena a).Free x → (σ.arena a).Free x ∨ (a = a₀ ∧ ¬ σ.InUse x)) :
    τ.Ledger G := by
  have ha : ∀ a x, (σ.arena a).Free x → τ.IsAlive (τ.arena a).scope →
      σ.IsAlive (σ.arena a).scope := fun a x hx hal => by
    have hb := lt_length_of_free hx
    rw [hl.arenaScope a hb] at hal
    exact hl.alive _ (hs.arenas a hb).scope hal
  refine ⟨fun r hr => (h.inside r hr).later hl, ?_, ?_, ?_⟩
  · refine h.apart.imp_of_mem fun hr hs' h' => ?_
    exact h'.later hl (h.inside _ hr).1 (h.inside _ hs').1
  · intro r hr a har haa x hx hfx
    have hra := hl.alive _ (h.inside r hr).1 har
    rcases hf a x hfx with hold | ⟨_, hnew⟩
    · exact h.free r hr a hra (ha a x hold haa) x hx hold
    · exact hnew (hs.inUse (h.inside r hr) hra hx)
  · intro a b hab haa hba x hxa hxb
    rcases hf a x hxa with hoa | ⟨hea, hna⟩ <;> rcases hf b x hxb with hob | ⟨heb, hnb⟩
    · exact h.arenas a b hab (ha a x hoa haa) (ha b x hob hba) x hoa hob
    · exact hnb (hs.inUse_free (ha a x hoa haa) hoa)
    · exact hna (hs.inUse_free (ha b x hob hba) hob)
    · exact hab (hea.trans heb.symm)

theorem Ledger.later (h : σ.Ledger G) (hs : σ.Sound system strict waiting) (hl : σ.Later τ)
    (hf : ∀ a x, (τ.arena a).Free x → (σ.arena a).Free x) : τ.Ledger G :=
  h.renew hs hl 0 fun a x hx => Or.inl (hf a x hx)

theorem Ledger.of_arenas (h : σ.Ledger G) (hs : σ.Sound system strict waiting) (hl : σ.Later τ)
    (ha : τ.arenas = σ.arenas) : τ.Ledger G := by
  refine h.later hs hl fun a x hx => ?_
  unfold arena at hx ⊢
  rwa [ha] at hx

theorem Ledger.grant (h : σ.Ledger G) {r : Region} (hr : r.Inside σ)
    (hg : ∀ g ∈ G, σ.Apart g r)
    (hf : ∀ a, σ.IsAlive r.scope → σ.IsAlive (σ.arena a).scope →
      ∀ x, r.Has x → ¬ (σ.arena a).Free x) : σ.Ledger (G ++ [r]) := by
  refine ⟨fun g hm => ?_, ?_, fun g hm => ?_, h.arenas⟩
  · rcases List.mem_append.mp hm with hm | hm
    · exact h.inside g hm
    · exact List.mem_singleton.mp hm ▸ hr
  · refine List.pairwise_append.mpr ⟨h.apart, List.pairwise_singleton _ _, fun g hm s hs => ?_⟩
    exact List.mem_singleton.mp hs ▸ hg g hm
  · rcases List.mem_append.mp hm with hm | hm
    · exact h.free g hm
    · rw [List.mem_singleton.mp hm]
      exact hf

end ScopedMemory.Store
