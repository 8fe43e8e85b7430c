import ScopedMemory.Proofs.Allocator

namespace ScopedMemory

open Operation

variable {system : SystemAllocator} {strict : Prop} {waiting : List Block} {G : List Region}
  {ctx : Context} {σ τ ρ : Store} {a : ArenaId} {W W' : Nat → Prop}

/-- The byte belongs to a block, and the arena does not hand it out any more. -/
def Store.Settled (σ : Store) (a : ArenaId) (x : Nat) : Prop :=
  σ.InUse x ∧ ¬ (σ.arena a).Free x

/-- What is settled stays so, and of it only the bytes of `W` are written to. -/
structure Store.Fills (σ : Store) (a : ArenaId) (W : Nat → Prop) (τ : Store) : Prop where
  settled : ∀ x, σ.Settled a x → τ.Settled a x
  byte : ∀ x, σ.Settled a x → ¬ W x → τ.memory.byte x = σ.memory.byte x

namespace Store

theorem Fills.refl (σ : Store) : σ.Fills a W σ := ⟨fun _ h => h, fun _ _ _ => rfl⟩

theorem Fills.trans (h : σ.Fills a W τ) (h' : τ.Fills a W ρ) : σ.Fills a W ρ where
  settled x hx := h'.settled x (h.settled x hx)
  byte x hx hw := by rw [h'.byte x (h.settled x hx) hw, h.byte x hx hw]

theorem Fills.mono (h : σ.Fills a W τ) (hW : ∀ x, W x → W' x) : σ.Fills a W' τ where
  settled := h.settled
  byte x hx hw := h.byte x hx fun hx' => hw (hW x hx')

theorem Fills.write (h : σ.Fills a W τ) {start : Nat} {bytes : Bytes}
    (hW : ∀ x, start ≤ x → x < start + bytes.length → σ.Settled a x → W x) :
    σ.Fills a W (τ.setMemory (τ.memory.write start bytes)) where
  settled := h.settled
  byte x hx hw := by
    have hb := h.byte x hx hw
    rw [← hb]
    exact Memory.byte_write_of_not fun hr => hw (hW x hr.1 hr.2 hx)

/-- What a region holds stays when its bytes are settled and not written to. -/
theorem Fills.read (h : σ.Fills a W τ) {r : Region} (hr : ∀ x, r.Has x → σ.Settled a x)
    (hW : ∀ x, r.Has x → ¬ W x) :
    τ.memory.read r.start.toNat r.size.toNat = σ.memory.read r.start.toNat r.size.toNat :=
  Memory.read_congr fun x h₁ h₂ => h.byte x (hr x ⟨h₁, h₂⟩) (hW x ⟨h₁, h₂⟩)

end Store

/-- The bytes of the region were not settled before, and are now. -/
structure Region.Settles (r : Region) (σ : Store) (a : ArenaId) (τ : Store) : Prop where
  fills : σ.Fills a (fun _ => False) τ
  new : ∀ x, r.Has x → ¬ σ.Settled a x
  settled : ∀ x, r.Has x → τ.Settled a x

namespace ArenaId

/-- What the arena hands out or has left was free in it before, or in no block. -/
def Draws (a : ArenaId) (σ : Store) (r : Region) (τ : Store) : Prop :=
  ∀ x, r.Has x ∨ (τ.arena a).Free x → (σ.arena a).Free x ∨ ¬ σ.InUse x

theorem leads_carve {f : Frontier} {start size : Word} (hl : a < σ.arenas.length)
    (hf : (σ.arena a).frontier = some f) (hc : f.cursor.toNat ≤ start.toNat) :
    (a.carve f start size).Leads ctx σ
      (fun r τ => ∀ x, r.Has x ∨ (τ.arena a).Free x → (σ.arena a).Free x) fun _ => True := by
  refine Region.leads_slice.chain (fun _ _ => trivial) fun r τ h => ?_
  obtain ⟨ha, rfl, rfl⟩ := h
  have hp := (Store.checkAccess_eq_ok_iff.mp ha).2
  refine Leads.bind (P := fun _ τ' => τ' = τ.modifyArena a fun ar =>
    { ar with
      frontier := some { f with cursor := start + size }
      stats := ar.stats.addServed size }) rfl fun _ τ' h => ?_
  subst h
  refine leads_pure fun x hx => ?_
  rcases hx with hx | hx
  · exact Store.free_of_carve hf hc hp hx
  · rw [Store.arena_modifyArena, if_pos ⟨rfl, hl⟩] at hx
    exact (Store.free_carved hf hc hp hx rfl).1

theorem draws_fit {f : Frontier} {size align : Word} {fault : MemoryError}
    (hl : a < σ.arenas.length) (hf : (σ.arena a).frontier = some f) (ha : align.IsPowerOfTwo) :
    (match f.fit? size align with
      | some start => a.carve f start size
      | none => throw fault : Operation Region).Leads ctx σ
        (fun r τ => ∀ x, r.Has x ∨ (τ.arena a).Free x → (σ.arena a).Free x) fun _ => True := by
  split
  next hfit => exact leads_carve hl hf (Frontier.fit?_spec ha hfit).1
  next => exact leads_throw trivial

theorem draws_block (hsep : system.Separate) (hs : σ.Sound system strict waiting)
    (hw : ctx.system.Within system) (s : ScopeId) (size align : Word) :
    (s.allocateNative size align).Leads ctx σ
      (fun r τ => (∀ x, r.Has x → ¬ σ.InUse x) ∧ τ.arenas = σ.arenas) fun _ => True := by
  refine (ScopeId.leads_allocateNative s size align).imp (fun r τ h => ?_) fun _ _ => trivial
  obtain ⟨_, ha, hb, hr, rfl⟩ := h
  refine ⟨fun x hx hin => ?_, rfl⟩
  rw [hr] at hx
  exact hs.fresh hsep ha (hw.place hb) hin hx

theorem draws_install (hsep : system.Separate) (hs : σ.Sound system strict waiting)
    (hw : ctx.system.Within system) {blockSize blockAlign size align : Word}
    {fault : Frontier → MemoryError} (hl : a < σ.arenas.length) (ha : align.IsPowerOfTwo) :
    (do
      let f ← a.install (← (σ.arena a).scope.allocateNative blockSize blockAlign)
      match f.fit? size align with
      | some start => a.carve f start size
      | none => throw (fault f) : Operation Region).Leads ctx σ (a.Draws σ) fun _ => True := by
  refine (draws_block hsep hs hw _ _ _).chain (fun _ _ => trivial) fun b τ hb => ?_
  obtain ⟨hnew, har⟩ := hb
  refine Leads.bind (P := fun f τ' => f = ⟨b, 0⟩ ∧ τ' = τ.modifyArena a fun ar =>
    { ar with frontier := some ⟨b, 0⟩, stats := ar.stats.addBlock b.size }) ⟨rfl, rfl⟩ ?_
  intro f ρ h
  obtain ⟨rfl, rfl⟩ := h
  have hl' : a < τ.arenas.length := by rwa [har]
  have hf : ((τ.modifyArena a fun ar =>
      { ar with frontier := some ⟨b, 0⟩, stats := ar.stats.addBlock b.size }).arena a).frontier =
        some ⟨b, 0⟩ := by
    rw [Store.arena_modifyArena, if_pos ⟨rfl, hl'⟩]
  refine (draws_fit (by rwa [Store.length_arenas_modifyArena]) hf ha).imp
    (fun r ρ h x hx => ?_) fun _ h => h
  obtain ⟨g, hg, _, hx⟩ := h x hx
  obtain rfl := Option.some.inj (hf.symm.trans hg)
  exact Or.inr (hnew x hx)

theorem draws_dedicated (hsep : system.Separate) (hs : σ.Sound system strict waiting)
    (hw : ctx.system.Within system) {size align : Word} :
    (a.allocateDedicated (σ.arena a) size align).Leads ctx σ (a.Draws σ) fun _ => True := by
  refine (draws_block hsep hs hw _ _ _).chain (fun _ _ => trivial) fun b τ hb => ?_
  obtain ⟨hnew, har⟩ := hb
  have harena : ∀ b, τ.arena b = σ.arena b := fun b => by
    unfold Store.arena
    rw [har]
  refine Leads.bind (P := fun _ τ' => τ' = τ.modifyArena a fun ar =>
    { ar with stats := ar.stats.addDedicated size }) rfl fun _ τ' h => ?_
  subst h
  refine leads_pure fun x hx => ?_
  rcases hx with hx | hx
  · exact Or.inr (hnew x hx)
  · obtain ⟨f, hf, hx⟩ := hx
    rw [Store.arena_modifyArena, harena] at hf
    refine Or.inl ⟨f, ?_, hx⟩
    split at hf
    next => exact hf
    next => exact hf

theorem leads_allocate_request (size align : Word) :
    (a.allocate size align).Leads ctx σ
      (fun _ _ => align.IsPowerOfTwo ∧ size.toNat < 0x8000000000000000) fun _ => True := by
  refine (leads_require (P := fun _ _ => align.IsPowerOfTwo ∧ size.toNat < 0x8000000000000000)
    (fun _ h => ?_) trivial).bind fun _ _ h => leads_of h
  unfold checkRequest at h
  split at h
  next => cases h
  next ha =>
    split at h
    next hs => exact ⟨Decidable.not_not.mp ha, hs⟩
    next => cases h

theorem draws_allocate (hsep : system.Separate) (hs : σ.Sound system strict waiting)
    (hw : ctx.system.Within system) (hl : a < σ.arenas.length) (size align : Word) :
    (a.allocate size align).Leads ctx σ (a.Draws σ) fun _ => True := by
  refine (leads_require (P := fun _ τ => σ = τ ∧ align.IsPowerOfTwo) (fun _ h => ⟨rfl, ?_⟩)
    trivial).bind ?_
  · unfold checkRequest at h
    split at h
    next => cases h
    next ha => exact Decidable.not_not.mp ha
  intro _ τ h
  obtain ⟨rfl, ha⟩ := h
  refine (leads_get (P := fun ρ τ => σ = ρ ∧ σ = τ) ⟨rfl, rfl⟩).bind fun _ _ h => ?_
  obtain ⟨rfl, rfl⟩ := h
  refine (leads_checkUsable (P := fun _ τ => σ = τ) (fun _ => rfl) trivial).bind fun _ _ h => ?_
  subst h
  have hfree : ∀ {x : Operation Region}, x.Leads ctx σ
      (fun r τ => ∀ x, r.Has x ∨ (τ.arena a).Free x → (σ.arena a).Free x) (fun _ => True) →
        x.Leads ctx σ (a.Draws σ) fun _ => True := fun h =>
    h.imp (fun _ _ h x hx => Or.inl (h x hx)) fun _ h => h
  refine leads_counting (Q := fun _ => True) ?_ fun _ h => h
  split
  next bytes _ =>
    unfold allocateBounded
    cases hf : (σ.arena a).frontier with
    | some f => exact hfree (draws_fit hl hf ha)
    | none => exact draws_install hsep hs hw hl ha
  next blockSize _ =>
    unfold allocateUnbounded
    split
    next f start h =>
      obtain ⟨g, hg, hfit⟩ := Option.bind_eq_some_iff.mp h
      obtain ⟨start', hstart, he⟩ := Option.map_eq_some_iff.mp hfit
      cases he
      exact hfree (leads_carve hl hg (Frontier.fit?_spec ha hstart).1)
    next =>
      split
      next => exact draws_dedicated hsep hs hw
      next => exact draws_install hsep hs hw hl ha

theorem settles_allocate (hsep : system.Separate) (hs : σ.Sound system strict waiting)
    (hlg : σ.Ledger G) (hw : ctx.system.Within system) (hl : a < σ.arenas.length)
    (size align : Word) :
    (a.allocate size align).Leads ctx σ
      (fun r τ => Store.Changes system False σ [r] τ ∧
        r.Meets system τ ctx.caller (σ.arena a).scope size align ∧ r.Settles σ a τ)
      (Store.Changes system False σ []) := by
  have hx : (a.allocate size align).Leads ctx σ _ _ := serves_allocate hs hw hl size align
  refine (hx.and (draws_allocate hsep hs hw hl size align)).imp (fun r τ h => ?_) fun _ h => h.1
  obtain ⟨⟨hc, hm⟩, hd⟩ := h
  have hτ := hc.ledger hsep hs hlg
  have hr : r ∈ G ++ [r] := List.mem_append_right _ (List.mem_singleton.mpr rfl)
  have ha : τ.IsAlive r.scope := (Store.checkUsable_eq_ok_iff.mp hm.usable).2
  have hhome : (τ.arena a).scope = r.scope := by
    rw [hc.extends.arenaScope a hl, hm.scope]
  have hold : ∀ x, σ.Settled a x → ¬ (r.Has x ∨ (τ.arena a).Free x) := by
    intro x hx hn
    exact (hd x hn).elim hx.2 fun hn => hn hx.1
  refine ⟨hc, hm, ⟨⟨fun x hx => ?_, fun x hx _ => ?_⟩, fun x hx => ?_, fun x hx => ?_⟩⟩
  · exact ⟨hc.extends.inUse hx.1, fun hf => hold x hx (Or.inr hf)⟩
  · exact hc.byte hsep hs hx.1
  · exact fun hs => hold x hs (Or.inl hx)
  · refine ⟨(hc.sound hs).inUse (hτ.inside r hr) ha hx, ?_⟩
    exact hτ.free r hr a ha (by rwa [hhome]) x hx

end ArenaId
end ScopedMemory
