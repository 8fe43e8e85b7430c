import ScopedMemory.Proofs.Store.Change

namespace ScopedMemory.Store

variable {system : SystemAllocator} {strict : Prop} {waiting : List Block} {G rs : List Region}
  {σ τ ρ : Store}

/-- One thing that an allocation can do, with the regions that it hands out by it. -/
inductive Change (system : SystemAllocator) : Store → List Region → Store → Prop
  | scope (σ : Store) (kind : ScopeKind) (t : Thread) : Change system σ [] (σ.addScope kind t)
  | arena {σ ar} (hs : σ.IsAlive ar.scope) (hf : ar.frontier = none) :
      Change system σ [] (σ.addArena ar)
  | block {σ s base size align} (hs : σ.IsAlive s) (ha : Word.IsPowerOfTwo align)
      (hb : system.place σ.events (σ.poolOf s) size align = some base) :
      Change system σ [⟨base, size, s⟩] (σ.addBlock s ⟨base, size⟩)
  | install {σ a base size align} (hl : a < σ.arenas.length) (hs : σ.IsAlive (σ.arena a).scope)
      (ha : Word.IsPowerOfTwo align)
      (hb : system.place σ.events (σ.poolOf (σ.arena a).scope) size align = some base) :
      Change system σ [] ((σ.addBlock (σ.arena a).scope ⟨base, size⟩).modifyArena a fun ar =>
        { ar with
          frontier := some ⟨⟨base, size, (σ.arena a).scope⟩, 0⟩
          stats := ar.stats.addBlock size })
  | carve {σ a f start size} (hl : a < σ.arenas.length) (hf : (σ.arena a).frontier = some f)
      (hc : f.cursor.toNat ≤ start.toNat) (hp : f.block.Spans start size) :
      Change system σ [f.block.narrow start size] (σ.modifyArena a fun ar =>
        { ar with
          frontier := some { f with cursor := start + size }
          stats := ar.stats.addServed size })
  | stats (σ : Store) (a : ArenaId) (g : ArenaStats → ArenaStats) :
      Change system σ [] (σ.modifyArena a fun ar => { ar with stats := g ar.stats })

theorem Change.extends (h : Change system σ rs τ) : σ.Extends τ := by
  cases h with
  | scope kind t => exact extends_addScope σ kind t
  | arena hs hf => exact extends_addArena σ _
  | block hs ha hb => exact extends_addBlock σ _ _
  | install hl hs ha hb =>
    exact (extends_addBlock σ _ _).trans (extends_modifyArena _ _ fun _ => rfl)
  | carve hl hf hc hp => exact extends_modifyArena σ _ fun _ => rfl
  | stats a g => exact extends_modifyArena σ a fun _ => rfl

theorem inside_addBlock {s : ScopeId} {base size : Word} (hs : σ.IsAlive s) :
    (Region.mk base size s).Inside (σ.addBlock s ⟨base, size⟩) := by
  have hl := lt_length_of_isAlive hs
  refine ⟨by rw [length_scopes_addBlock]; exact hl, fun _ => ⟨⟨base, size⟩, ?_, ?_⟩⟩
  · rw [scope_addBlock, if_pos ⟨rfl, hl⟩]
    exact List.mem_cons_self
  · exact ⟨Nat.le_refl _, Nat.le_refl _⟩

theorem Change.sound (h : Change system σ rs τ) (hs : σ.Sound system strict waiting) :
    τ.Sound system strict waiting := by
  cases h with
  | scope kind t => exact hs.addScope kind t
  | arena ha hf => exact hs.addArena ha hf
  | block ha hp hb => exact hs.addBlock ha hp hb
  | @install a base size align hl ha hp hb =>
    refine (hs.addBlock ha hp hb).modifyArena (fun _ => rfl) fun hn => ⟨hn.scope, fun f hf => ?_⟩
    cases hf
    exact ⟨rfl, inside_addBlock ha, Nat.zero_le _⟩
  | @carve a f start size hl hf hc hp =>
    refine hs.modifyArena (fun _ => rfl) fun hn => ⟨hn.scope, fun f' hf' => ?_⟩
    cases hf'
    obtain ⟨h₁, h₂, _⟩ := hn.frontier f hf
    refine ⟨h₁, h₂, ?_⟩
    have := hp.1
    have := f.block.size.toNat_lt
    simp only [UInt64.toNat_add]
    omega
  | stats a g => exact hs.modifyArena (fun _ => rfl) fun hn => ⟨hn.scope, hn.frontier⟩

/-- A new block has no byte of what is in use. -/
theorem Sound.fresh (hsep : system.Separate) (hs : σ.Sound system strict waiting) {pool : Pool}
    {base size align : Word} (ha : align.IsPowerOfTwo)
    (hb : system.place σ.events pool size align = some base) {x : Nat} (hx : σ.InUse x) :
    ¬ (Block.mk base size).Has x := by
  obtain ⟨b, hm, hx⟩ := hx
  exact (hsep.apart hs.history ha hb b hm).not_has hx

theorem free_of_carve {a : ArenaId} {f : Frontier} {start size : Word}
    (hf : (σ.arena a).frontier = some f) (hc : f.cursor.toNat ≤ start.toNat)
    (hp : f.block.Spans start size) {x : Nat} (hx : (f.block.narrow start size).Has x) :
    (σ.arena a).Free x := by
  have hb := Region.has_narrow hp hx
  obtain ⟨h₁, _⟩ := hx
  rw [Region.toNat_start_narrow hp] at h₁
  exact ⟨f, hf, by omega, hb⟩

/-- The bytes behind the new cursor were free before, and are not in what was carved. -/
theorem free_carved {a : ArenaId} {f : Frontier} {start size : Word}
    (hf : (σ.arena a).frontier = some f) (hc : f.cursor.toNat ≤ start.toNat)
    (hp : f.block.Spans start size) {x : Nat} {ar : Arena} (hx : ar.Free x)
    (he : ar.frontier = some { f with cursor := start + size }) :
    (σ.arena a).Free x ∧ ¬ (f.block.narrow start size).Has x := by
  obtain ⟨_, he', h₁, h₂⟩ := hx
  cases he.symm.trans he'
  have := hp.1
  have := f.block.size.toNat_lt
  have hn : (start + size).toNat = start.toNat + size.toNat := by
    rw [UInt64.toNat_add]
    omega
  simp only [hn] at h₁
  refine ⟨⟨f, hf, by omega, h₂⟩, fun hx => ?_⟩
  obtain ⟨_, hx⟩ := hx
  rw [Region.toNat_start_narrow hp] at hx
  change x < _ + size.toNat at hx
  omega

theorem Ledger.carve (h : σ.Ledger G) (hs : σ.Sound system strict waiting) {a : ArenaId}
    {f : Frontier} {start size : Word} (hl : a < σ.arenas.length)
    (hf : (σ.arena a).frontier = some f) (hc : f.cursor.toNat ≤ start.toNat)
    (hp : f.block.Spans start size) {st : Arena → ArenaStats} :
    (σ.modifyArena a fun ar =>
      { ar with frontier := some { f with cursor := start + size }, stats := st ar }).Ledger
        (G ++ [f.block.narrow start size]) := by
  have hx := extends_modifyArena σ a
    (f := fun ar => { ar with frontier := some { f with cursor := start + size }, stats := st ar })
    fun _ => rfl
  obtain ⟨hfs, hfi, _⟩ := (hs.arenas a hl).frontier f hf
  have hfree : ∀ b x, ((σ.modifyArena a fun ar => { ar with
      frontier := some { f with cursor := start + size }, stats := st ar }).arena b).Free x →
      (σ.arena b).Free x := by
    intro b x hx
    rw [arena_modifyArena] at hx
    split at hx
    next he => exact he.1 ▸ (free_carved hf hc hp hx rfl).1
    next => exact hx
  refine (h.later hs hx.toLater hfree).grant ((hfi.narrow hp).later hx.toLater) ?_ ?_
  · intro g hg hga hra x hgx hrx
    refine h.free g hg a hga ?_ x hgx (free_of_carve hf hc hp hrx)
    exact hfs ▸ hra
  · intro b hra hba x hrx hbx
    have hax := free_of_carve hf hc hp hrx
    rw [arena_modifyArena] at hba hbx
    split at hbx
    next he =>
      exact (free_carved hf hc hp hbx rfl).2 hrx
    next hn =>
      rw [if_neg hn] at hba
      have hab : a ≠ b := fun he => hn ⟨he.symm, hl⟩
      exact h.arenas a b hab (hfs ▸ hra) hba x hax hbx

theorem Ledger.addBlock (h : σ.Ledger G) (hsep : system.Separate)
    (hs : σ.Sound system strict waiting) {s : ScopeId} {base size align : Word}
    (ha : σ.IsAlive s) (hp : align.IsPowerOfTwo)
    (hb : system.place σ.events (σ.poolOf s) size align = some base) :
    (σ.addBlock s ⟨base, size⟩).Ledger (G ++ [⟨base, size, s⟩]) := by
  have hx := (extends_addBlock σ s ⟨base, size⟩).toLater
  refine (h.later hs hx fun _ _ hfree => hfree).grant (inside_addBlock ha) ?_ ?_
  · intro g hg hga _ x hgx hrx
    have hga' := hx.alive _ (h.inside g hg).1 hga
    exact hs.fresh hsep hp hb (hs.inUse (h.inside g hg) hga' hgx) hrx
  · intro a _ haa x hrx hax
    rw [arena_addBlock] at haa hax
    have hsc := (hs.arenas a (lt_length_of_free hax)).scope
    exact hs.fresh hsep hp hb (hs.inUse_free (hx.alive _ hsc haa) hax) hrx

theorem Ledger.install (h : σ.Ledger G) (hsep : system.Separate)
    (hs : σ.Sound system strict waiting) {a : ArenaId} {s : ScopeId} {base size align : Word}
    {st : Arena → ArenaStats} (hp : align.IsPowerOfTwo)
    (hb : system.place σ.events (σ.poolOf s) size align = some base) :
    ((σ.addBlock s ⟨base, size⟩).modifyArena a fun ar =>
      { ar with frontier := some ⟨⟨base, size, s⟩, 0⟩, stats := st ar }).Ledger G := by
  have hx := (extends_addBlock σ s ⟨base, size⟩).trans (extends_modifyArena _ a
    (f := fun ar => { ar with frontier := some ⟨⟨base, size, s⟩, 0⟩, stats := st ar }) fun _ => rfl)
  refine h.renew hs hx.toLater a fun b x hbx => ?_
  rw [arena_modifyArena] at hbx
  split at hbx
  next he =>
    obtain ⟨_, hf, _, hbx⟩ := hbx
    cases hf
    exact Or.inr ⟨he.1, fun hu => hs.fresh hsep hp hb hu hbx⟩
  next => exact Or.inl hbx

theorem Change.ledger (h : Change system σ rs τ) (hsep : system.Separate)
    (hs : σ.Sound system strict waiting) (hl : σ.Ledger G) : τ.Ledger (G ++ rs) := by
  have hx := h.extends.toLater
  cases h with
  | scope kind t =>
    rw [List.append_nil]
    exact hl.later hs hx fun _ _ hfree => hfree
  | @arena ar ha hf =>
    rw [List.append_nil]
    refine hl.later hs hx fun a x hfree => ?_
    rw [arena_addArena] at hfree
    split at hfree
    next =>
      obtain ⟨f, hf', _⟩ := hfree
      rw [hf] at hf'
      cases hf'
    next => exact hfree
  | block ha hp hb => exact hl.addBlock hsep hs ha hp hb
  | install _ _ hp hb =>
    rw [List.append_nil]
    exact hl.install hsep hs hp hb
  | carve hla hf hc hp => exact hl.carve hs hla hf hc hp
  | stats a g =>
    rw [List.append_nil]
    refine hl.later hs hx fun b x hfree => ?_
    rw [arena_modifyArena] at hfree
    split at hfree
    next he => exact he.1 ▸ hfree
    next => exact hfree

/-! ### Memory -/

/-- Arenas have only bytes left that nobody wrote to. -/
def Clean (σ : Store) : Prop :=
  ∀ a, σ.IsAlive (σ.arena a).scope → ∀ x, (σ.arena a).Free x → σ.memory.byte x = 0

/-- Nothing that is in use is written to by an allocation. -/
theorem Change.byte (h : Change system σ rs τ) (hsep : system.Separate)
    (hs : σ.Sound system strict waiting) {x : Nat} (hx : σ.InUse x) :
    τ.memory.byte x = σ.memory.byte x := by
  cases h with
  | scope | arena | carve | stats => rfl
  | block _ hp hb => exact Memory.byte_fill_of_not (hs.fresh hsep hp hb hx)
  | install _ _ hp hb => exact Memory.byte_fill_of_not (hs.fresh hsep hp hb hx)

/-- What an allocation takes into use is zero. -/
theorem Change.zero (h : Change system σ rs τ) {x : Nat} (hx : τ.InUse x) (hn : ¬ σ.InUse x) :
    τ.memory.byte x = 0 := by
  cases h with
  | scope | arena | carve | stats => exact absurd hx hn
  | block | install =>
    obtain ⟨b, hb, hbx⟩ := hx
    rcases List.mem_cons.mp hb with rfl | hb
    · exact if_pos hbx
    · exact absurd ⟨b, hb, hbx⟩ hn

theorem Change.clean (h : Change system σ rs τ) (hsep : system.Separate)
    (hs : σ.Sound system strict waiting) (hc : σ.Clean) : τ.Clean := by
  have hx := h.extends.toLater
  intro a haa x hax
  have hold : (σ.arena a).Free x → τ.memory.byte x = 0 := fun hax' => by
    have ha := lt_length_of_free hax'
    rw [hx.arenaScope a ha] at haa
    have haa' := hx.alive _ (hs.arenas a ha).scope haa
    rw [h.byte hsep hs (hs.inUse_free haa' hax')]
    exact hc a haa' x hax'
  cases h with
  | scope kind t => exact hold hax
  | @arena ar _ hf =>
    rw [arena_addArena] at hax
    split at hax
    next =>
      obtain ⟨f, hf', _⟩ := hax
      rw [hf] at hf'
      cases hf'
    next => exact hold hax
  | block _ hp hb => exact hold hax
  | install _ _ hp hb =>
    rw [arena_modifyArena] at hax
    split at hax
    next =>
      obtain ⟨_, hf, _, hbx⟩ := hax
      cases hf
      exact if_pos hbx
    next => exact hold hax
  | carve _ hf hcur hp =>
    rw [arena_modifyArena] at hax
    split at hax
    next he => exact hold (he.1 ▸ (free_carved hf hcur hp hax rfl).1)
    next => exact hold hax
  | stats b g =>
    rw [arena_modifyArena] at hax
    split at hax
    next he => exact hold (he.1 ▸ hax)
    next => exact hold hax

theorem Change.blank (h : Change system σ rs τ) (hs : σ.Sound system strict waiting)
    (hc : σ.Clean) :
    ∀ r ∈ rs, τ.IsAlive r.scope → ∀ x, r.Has x → τ.memory.byte x = 0 := by
  have hl := h.extends.toLater
  intro r hr hra x hx
  cases h with
  | scope | arena | install | stats => cases hr
  | block =>
    obtain rfl := List.mem_singleton.mp hr
    exact if_pos hx
  | @carve a f start size hla hf hcur hp =>
    obtain rfl := List.mem_singleton.mp hr
    have hfs := ((hs.arenas a hla).frontier f hf).1
    have hsc := (hs.arenas a hla).scope
    refine hc a (hl.alive _ hsc ?_) x (free_of_carve hf hcur hp hx)
    exact hfs ▸ hra

end ScopedMemory.Store
