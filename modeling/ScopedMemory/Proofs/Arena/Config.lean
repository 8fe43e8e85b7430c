import ScopedMemory.Proofs.Session.Accounts

namespace ScopedMemory

variable {system : SystemAllocator} {ctx : Context} {σ τ : Store} {S : Session} {a : ArenaId}
  {capacity : ArenaCapacity} {align : Word} {ss : List Supply} {ps : List Purchase}

theorem ArenaConfig.isPowerOfTwo_of_validate {config : ArenaConfig}
    (h : config.validate = .ok ()) : config.blockAlign.IsPowerOfTwo := by
  unfold validate at h
  split at h
  next => cases h
  next =>
    split at h
    next ha => exact ha
    next => cases h

namespace Store

/-- The arena was made with this capacity and asks for blocks that are aligned like this. -/
structure Configures (σ : Store) (a : ArenaId) (capacity : ArenaCapacity) (align : Word) :
    Prop where
  known : a < σ.arenas.length
  capacity : (σ.arena a).capacity = capacity
  blockAlign : (σ.arena a).blockAlign = align

theorem Configures.of_arenas (h : σ.Configures a capacity align) (ha : τ.arenas = σ.arenas) :
    τ.Configures a capacity align := by
  have harena : τ.arena a = σ.arena a := by
    unfold arena
    rw [ha]
  exact ⟨ha ▸ h.known, harena ▸ h.capacity, harena ▸ h.blockAlign⟩

/-- Nothing that arenas do changes what they were made with. -/
theorem Configures.modifyArena (h : σ.Configures a capacity align) (b : ArenaId)
    {f : Arena → Arena} (hc : ∀ ar, (f ar).capacity = ar.capacity)
    (hb : ∀ ar, (f ar).blockAlign = ar.blockAlign) :
    (σ.modifyArena b f).Configures a capacity align := by
  refine ⟨by rw [length_arenas_modifyArena]; exact h.known, ?_, ?_⟩
  all_goals rw [arena_modifyArena]
  · split
    next he => rw [hc, ← he.1, h.capacity]
    next => exact h.capacity
  · split
    next he => rw [hb, ← he.1, h.blockAlign]
    next => exact h.blockAlign

theorem Deal.configures (hd : Deal system σ ss ps τ) (h : σ.Configures a capacity align) :
    τ.Configures a capacity align := by
  cases hd with
  | scope | memory | direct => exact h.of_arenas rfl
  | arena =>
    have hne : a ≠ σ.arenas.length := Nat.ne_of_lt h.known
    refine ⟨?_, ?_, ?_⟩
    · rw [length_arenas_addArena]
      exact Nat.lt_succ_of_lt h.known
    all_goals rw [arena_addArena, if_neg hne]
    · exact h.capacity
    · exact h.blockAlign
  | failed | carve => exact h.modifyArena _ (fun _ => rfl) fun _ => rfl
  | install | dedicated =>
    refine Configures.modifyArena ?_ _ (fun _ => rfl) fun _ => rfl
    exact h.of_arenas rfl

theorem Deals.configures (hd : Deals system σ ss ps τ) (h : σ.Configures a capacity align) :
    τ.Configures a capacity align := by
  induction hd with
  | refl => exact h
  | deal _ hd ih => exact hd.configures ih

/-- The arena was made with a configuration that passed its check. -/
def Configured (σ : Store) (a : ArenaId) : Prop :=
  ∃ (capacity : ArenaCapacity) (config : ArenaConfig), config.validate = .ok () ∧
    σ.Configures a capacity config.blockAlign

theorem Configured.imp (h : σ.Configured a)
    (hk : ∀ {capacity align}, σ.Configures a capacity align → τ.Configures a capacity align) :
    τ.Configured a := by
  obtain ⟨capacity, config, hvalid, hc⟩ := h
  exact ⟨capacity, config, hvalid, hk hc⟩

theorem Configured.isPowerOfTwo (h : σ.Configured a) :
    (σ.arena a).blockAlign.IsPowerOfTwo := by
  obtain ⟨_, config, hvalid, hc⟩ := h
  rw [hc.blockAlign]
  exact ArenaConfig.isPowerOfTwo_of_validate hvalid

end Store

/-- The call that makes an arena has its configuration checked. -/
theorem Call.configured_of_arenasMade {c : Call} (ha : a ∈ c.arenasMade ctx S) :
    (S.begin ctx c).2.store.Configured a := by
  obtain ⟨rfl, s, capacity, config, hvalid, hτ⟩ := c.makes_of_arenasMade ha
  rw [hτ]
  refine ⟨capacity, config, hvalid, ?_, ?_, ?_⟩
  · rw [Store.length_arenas_addArena]
    exact Nat.lt_succ_self _
  all_goals rw [Store.arena_addArena, if_pos rfl]

/-- The arenas that calls have made in a run are what they were made as. -/
theorem play_configured (hsep : system.Separate) {past : List Move}
    (hw : ∀ m ∈ past, m.Within system) :
    ∀ a ∈ arenasMade past, (play past).store.Configured a := by
  induction past with
  | nil => nofun
  | cons m past ih =>
    have hpast : ∀ m ∈ past, m.Within system := fun m' hm => hw m' (List.mem_cons_of_mem m hm)
    have hS : (play past).Sound system False _ := play_sound hsep hpast False.elim
    intro a ha
    rcases List.mem_append.mp ha with ha | ha
    · cases m with
      | call ctx c => exact Call.configured_of_arenasMade ha
      | chore ctx => cases ha
    · refine (ih hpast a ha).imp fun h => ?_
      cases m with
      | chore ctx => exact h.of_arenas ((play past).quiet_advance ctx).arenas
      | call ctx c =>
        cases c.settles hS (hw _ List.mem_cons_self) with
        | errand _ hd =>
          obtain ⟨_, _, hd⟩ := hd
          exact hd.configures h
        | built _ _ hd =>
          obtain ⟨_, _, _, _, hd⟩ := hd
          exact hd.configures h
        | made _ hd => exact hd.configures h
        | quiet _ hq => exact h.of_arenas hq.arenas

end ScopedMemory
