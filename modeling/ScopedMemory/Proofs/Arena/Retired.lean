import ScopedMemory.Proofs.Session.Arithmetic

namespace ScopedMemory

variable {system : SystemAllocator} {strict : Prop} {waiting : List Block} {past : List Move}
  {ctx : Context} {σ τ : Store} {a : ArenaId} {r : Region} {ss : List Supply} {ps : List Purchase}

namespace Store

/-- The region lies in memory of the arena's scope, and the arena does not carve from there. -/
structure Retired (σ : Store) (a : ArenaId) (r : Region) : Prop where
  known : a < σ.arenas.length
  scope : r.scope = (σ.arena a).scope
  inside : r.Inside σ
  apart : ∀ f, (σ.arena a).frontier = some f → ∀ x, r.Has x → ¬ f.block.Has x

/-- The arena carves from the region, or it has retired it. -/
def HasHad (σ : Store) (a : ArenaId) (r : Region) : Prop :=
  (∃ f, (σ.arena a).frontier = some f ∧ f.block = r) ∨ σ.Retired a r

/-- The arena carves from the block that it carved from before, or from new memory. -/
def Renews (σ : Store) (a : ArenaId) (τ : Store) : Prop :=
  (τ.arena a).frontier.map (·.block) = (σ.arena a).frontier.map (·.block) ∨
    ∃ f, (τ.arena a).frontier = some f ∧ ∀ x, f.block.Has x → ¬ σ.InUse x

theorem renews_of_arena (h : (τ.arena a).frontier = (σ.arena a).frontier) : σ.Renews a τ :=
  Or.inl (by rw [h])

theorem renews_modifyArena (b : ArenaId) {f : Arena → Arena}
    (hf : ((f (σ.arena b)).frontier.map (·.block)) = (σ.arena b).frontier.map (·.block)) :
    σ.Renews a (σ.modifyArena b f) := by
  refine Or.inl ?_
  rw [arena_modifyArena]
  split
  next he => rw [he.1, hf]
  next => rfl

/-- Only a new block takes the place of the one that an arena carves from. -/
theorem Deal.renews (hd : Deal system σ ss ps τ) (hsep : system.Separate)
    (hs : σ.Sound system strict waiting) (hl : a < σ.arenas.length) : σ.Renews a τ := by
  cases hd with
  | scope | memory | direct => exact renews_of_arena rfl
  | arena =>
    refine renews_of_arena ?_
    rw [arena_addArena, if_neg (Nat.ne_of_lt hl)]
  | failed => exact renews_modifyArena _ rfl
  | carve _ hf =>
    refine renews_modifyArena _ ?_
    rw [hf]
    rfl
  | @install b base size align hl' _ ha hb =>
    by_cases he : a = b
    · subst he
      refine Or.inr ⟨⟨⟨base, size, (σ.arena a).scope⟩, 0⟩, ?_, fun x hx hin => ?_⟩
      · rw [arena_modifyArena, if_pos ⟨rfl, hl'⟩]
      · exact hs.fresh hsep ha hb hin hx
    · refine renews_of_arena ?_
      rw [arena_modifyArena, if_neg fun h => he h.1, arena_addBlock]
  | @dedicated b base size =>
    refine renews_of_arena ?_
    rw [arena_modifyArena]
    split
    next he => rw [arena_addBlock, he.1]
    next => rw [arena_addBlock]

/-- What holds of a store while the scope is alive, whatever allocations and other calls do, as long
as the arena carves from old blocks no more than it did. -/
def Lasts (system : SystemAllocator) (a : ArenaId) (s : ScopeId) (P : Store → Prop) : Prop :=
  ∀ {waiting : List Block} {σ τ : Store}, σ.Sound system False waiting → σ.IsAlive s →
    σ.Later τ → σ.Renews a τ → P σ → P τ

theorem lasts_retired (system : SystemAllocator) (a : ArenaId) (r : Region) :
    Lasts system a r.scope (·.Retired a r) := by
  intro waiting σ τ hs ha hl hr h
  refine ⟨Nat.lt_of_lt_of_le h.known hl.arenas, ?_, h.inside.later hl, fun f hf x hx => ?_⟩
  · rw [hl.arenaScope a h.known, h.scope]
  obtain hsame | ⟨g, hg, hnew⟩ := hr
  · rw [hf, Option.map_some] at hsame
    obtain ⟨g, hg, hb⟩ := Option.map_eq_some_iff.mp hsame.symm
    rw [← hb]
    exact h.apart g hg x hx
  · obtain rfl := Option.some.inj (hf.symm.trans hg)
    exact fun hin => hnew x hin (hs.inUse h.inside ha hx)

/-- The block that an arena carves from is retired when a new one takes its place. -/
theorem Sound.retired (hs : σ.Sound system strict waiting) (ha : σ.IsAlive (σ.arena a).scope)
    (hl : σ.Later τ) {f g : Frontier} (hf : (σ.arena a).frontier = some f)
    (hg : (τ.arena a).frontier = some g) (hnew : ∀ x, g.block.Has x → ¬ σ.InUse x) :
    τ.Retired a f.block := by
  have hlen := lt_length_of_frontier hf
  obtain ⟨hscope, hinside, _⟩ := (hs.arenas a hlen).frontier f hf
  refine ⟨Nat.lt_of_lt_of_le hlen hl.arenas, ?_, hinside.later hl, fun g' hg' x hx hin => ?_⟩
  · rw [hl.arenaScope a hlen, hscope]
  · obtain rfl := Option.some.inj (hg.symm.trans hg')
    exact hnew x hin (hs.inUse hinside (hscope ▸ ha) hx)

theorem lasts_hasHad (system : SystemAllocator) (a : ArenaId) (r : Region) :
    Lasts system a r.scope (·.HasHad a r) := by
  intro waiting σ τ hs ha hl hr h
  obtain ⟨f, hf, rfl⟩ | hret := h
  · have hscope := ((hs.arenas a (lt_length_of_frontier hf)).frontier f hf).1
    obtain hsame | ⟨g, hg, hnew⟩ := hr
    · rw [hf, Option.map_some] at hsame
      exact Or.inl (Option.map_eq_some_iff.mp hsame)
    · exact Or.inr (hs.retired (hscope ▸ ha) hl hf hg hnew)
  · exact Or.inr (lasts_retired system a r hs ha hl hr hret)

theorem Deals.lasts {P : Store → Prop} {s : ScopeId} (hd : Deals system σ ss ps τ)
    (hP : Lasts system a s P) (hsep : system.Separate) (hs : σ.Sound system False waiting)
    (hl : a < σ.arenas.length) (ha : σ.IsAlive s) (h : P σ) : P τ := by
  induction hd with
  | refl => exact h
  | deal hds hd ih =>
    obtain ⟨_, hc⟩ := hd.changes
    have hx := hds.extends
    have hlen := Nat.lt_of_lt_of_le hl hx.arenas
    exact hP (hds.sound hs) (hx.isAlive ha) hc.extends.toLater
      (hd.renews hsep (hds.sound hs) hlen) ih

/-- What a request to the arena is served with is not in what the arena has retired. -/
theorem Retired.not_has (h : σ.Retired a r) (hsep : system.Separate)
    (hs : σ.Sound system strict waiting) (hw : ctx.system.Within system) (ha : σ.IsAlive r.scope)
    {size align : Word} {r' : Region}
    (hrun : (a.allocate size align).run ctx σ = .ok r' τ) {x : Nat} (hx : r.Has x) :
    ¬ r'.Has x := by
  intro hx'
  have hdraws := (ArenaId.draws_allocate hsep hs hw h.known size align).ok hrun
  rcases hdraws x (Or.inl hx') with hfree | hnew
  · obtain ⟨f, hf, _, hin⟩ := hfree
    exact h.apart f hf x hx hin
  · exact hnew (hs.inUse h.inside ha hx)

end Store

/-- What lasts holds from there on, for as long as the scope is alive. -/
theorem play_lasts {P : Store → Prop} {s : ScopeId} (hP : Store.Lasts system a s P)
    (hsep : system.Separate) {past moves : List Move} (hw : ∀ m ∈ moves ++ past, m.Within system)
    (hl : a < (play past).store.arenas.length) (hs : s < (play past).store.scopes.length)
    (ha : (play (moves ++ past)).store.IsAlive s) (h : P (play past).store) :
    P (play (moves ++ past)).store := by
  induction moves with
  | nil => exact h
  | cons m moves ih =>
    have hpast : ∀ m ∈ moves ++ past, m.Within system := fun m' hm =>
      hw m' (List.mem_cons_of_mem m hm)
    have hS : (play (moves ++ past)).Sound system False _ := play_sound hsep hpast False.elim
    have hpast' : ∀ m ∈ past, m.Within system := fun m' hm =>
      hpast m' (List.mem_append_right moves hm)
    obtain ⟨_, _, hlater⟩ := play_follows hsep (play_sound hsep hpast' False.elim) moves
      (fun m' hm => hpast m' (List.mem_append_left past hm)) False.elim
    have hnext := (Session.follows_move hsep hS (hw m List.mem_cons_self) False.elim).later
    have ha' := hnext.alive s (Nat.lt_of_lt_of_le hs hlater.scopes) ha
    have hlen := Nat.lt_of_lt_of_le hl hlater.arenas
    have hbefore := ih hpast ha'
    have hquiet : (play (moves ++ past)).store.Quiet ((play (moves ++ past)).move m).store →
        P ((play (moves ++ past)).move m).store := fun hq => by
      refine hP hS.store ha' hnext (Store.renews_of_arena ?_) hbefore
      unfold Store.arena
      rw [hq.arenas]
    cases m with
    | chore ctx => exact hquiet ((play (moves ++ past)).quiet_advance ctx)
    | call ctx c =>
      cases c.settles hS (hw _ List.mem_cons_self) with
      | errand _ hd =>
        obtain ⟨_, _, hd⟩ := hd
        exact hd.lasts hP hsep hS.store hlen ha' hbefore
      | built _ _ hd =>
        obtain ⟨_, _, _, _, hd⟩ := hd
        exact hd.lasts hP hsep hS.store hlen ha' hbefore
      | made _ hd => exact hd.lasts hP hsep hS.store hlen ha' hbefore
      | quiet _ hq => exact hquiet hq

end ScopedMemory
