import ScopedMemory.Proofs.Lifetime.Avoid
import ScopedMemory.Proofs.Lifetime.References

namespace ScopedMemory

/-! ### What has power over a scope -/

/-- The scopes that can be closed, held open or given memory by the handle. A region has no such
power over its scope. -/
def Handle.commands (σ : Store) : Handle → List ScopeId
  | scope s | guard s => [s]
  | region .. => []
  | allocator w => w.commands σ
  | arena a _ => [(σ.arena a).scope]
  | builder b => [b.scope]
  | list v => [v.scope]

/-- The scope that the action was given by a handle of the scope itself. -/
def CloseAction.command? : CloseAction → Option ScopeId
  | probe _ s | close _ s | extend _ s => some s
  | say _ | fill .. | hold .. => none

def Chore.command? : Chore → Option ScopeId
  | perform p => p.action.command?
  | unguard s => some s
  | finish _ | write _ | letGo _ | free _ => none

/-- The handle has no power over what is shunned. -/
structure Handle.Aside (shun : ScopeId → Prop) (σ : Store) (h : Handle) : Prop where
  commands : ∀ s ∈ h.commands σ, ¬ shun s
  arena : ∀ a, h.arena? = some a → a < σ.arenas.length
  list : ∀ v, h = .list v → v.IsHome

/-- Nothing has power over what is shunned, ended scopes are empty, and lists lie in their
scopes. -/
structure Session.Aside (shun : ScopeId → Prop) (S : Session) : Prop where
  known : ∀ s, shun s → s ≠ 0 ∧ s < S.store.scopes.length
  handles : ∀ p ∈ S.handles, p.2.Aside shun S.store
  actions : ∀ t, ∀ p ∈ (S.store.scope t).actions, ∀ s, p.action.command? = some s → ¬ shun s
  chores : ∀ c ∈ S.chores, ∀ s, c.command? = some s → ¬ shun s
  emptied : ∀ s, ¬ S.store.IsAlive s → (S.store.scope s).blocks = []

/-- Nothing has come to have power over what is shunned, and what is shunned is as it was. -/
structure Session.Skips (shun : ScopeId → Prop) (S T : Session) : Prop where
  aside : T.Aside shun
  scope : ∀ s, shun s → T.store.scope s = S.store.scope s

variable {shun : ScopeId → Prop} {σ τ : Store} {h : Handle}

theorem Store.Avoids.scope (h : σ.Avoids shun τ) {s : ScopeId} (hl : s < σ.scopes.length)
    (hs : shun s) : τ.scope s = σ.scope s := by
  have hbare := h.old s hl
  have hblocks := h.blocks s hl (Or.inl hs)
  cases hτ : τ.scope s
  cases hσ : σ.scope s
  rw [hτ, hσ] at hbare hblocks
  cases hbare
  cases hblocks
  rfl

namespace Handle

theorem commands_keeps (ha : ∀ a, h.arena? = some a → a < σ.arenas.length) (hk : σ.Keeps τ) :
    h.commands τ = h.commands σ := by
  cases h with
  | arena a _ => simp only [commands, hk.arenaScope a (ha a rfl)]
  | allocator w =>
    cases w with
    | arena a => simp only [commands, Allocator.commands, hk.arenaScope a (ha a rfl)]
    | _ => rfl
  | _ => rfl

theorem Aside.keeps (hh : h.Aside shun σ) (hk : σ.Keeps τ) : h.Aside shun τ where
  commands s hs := by
    rw [commands_keeps hh.arena hk] at hs
    exact hh.commands s hs
  arena a ha := Nat.lt_of_lt_of_le (hh.arena a ha) hk.arenas
  list := hh.list

theorem Aside.of_arenas (hh : h.Aside shun σ) (ha : τ.arenas = σ.arenas) : h.Aside shun τ where
  commands s hs := by
    have harena : ∀ a, τ.arena a = σ.arena a := fun a => by
      unfold Store.arena
      rw [ha]
    have he : h.commands τ = h.commands σ := by
      cases h with
      | arena a _ => simp only [Handle.commands, harena]
      | allocator w => cases w <;> simp only [Handle.commands, Allocator.commands, harena]
      | _ => rfl
    exact hh.commands s (he ▸ hs)
  arena := by
    rw [ha]
    exact hh.arena
  list := hh.list

/-- A handle of no arena and no list. -/
theorem aside_of_commands (hs : ∀ s ∈ h.commands σ, ¬ shun s) (ha : h.arena? = none)
    (hl : ∀ v, h ≠ .list v) : h.Aside shun σ where
  commands := hs
  arena a he := by
    rw [ha] at he
    cases he
  list v hv := absurd hv (hl v)

theorem aside_region (r : Region) (adopted : Bool) : (region r adopted).Aside shun σ :=
  aside_of_commands (fun _ hs => nomatch hs) rfl fun _ hv => nomatch hv

theorem aside_list {v : VariadicList} (hs : ¬ shun v.scope) (hv : v.IsHome) :
    (list v).Aside shun σ where
  commands s hm := List.mem_singleton.mp hm ▸ hs
  arena a ha := nomatch ha
  list v' he := by
    cases he
    exact hv

theorem command?_dropChores (hh : h.Aside shun σ) :
    ∀ c ∈ h.dropChores σ, ∀ s, c.command? = some s → ¬ shun s := by
  have hletGo : ∀ ss : List ScopeId, ∀ c ∈ ss.map Chore.letGo, c.command? = none := by
    intro ss c hc
    obtain ⟨_, _, rfl⟩ := List.mem_map.mp hc
    rfl
  intro c hc s hs
  cases h with
  | guard t =>
    rcases List.mem_cons.mp hc with rfl | hc
    · cases hs
      exact hh.commands s (List.mem_singleton.mpr rfl)
    · rw [List.mem_singleton.mp hc] at hs
      cases hs
  | _ => rw [hletGo _ c hc] at hs; cases hs

end Handle

namespace Session

variable {S T U : Session}

theorem Skips.refl (hS : S.Aside shun) : S.Skips shun S := ⟨hS, fun _ _ => rfl⟩

theorem Skips.trans (h : S.Skips shun T) (h' : T.Skips shun U) : S.Skips shun U :=
  ⟨h'.aside, fun s hs => (h'.scope s hs).trans (h.scope s hs)⟩

namespace Aside

theorem find (hS : S.Aside shun) {name : Name} (hf : S.handles.find? name = some h) :
    h.Aside shun S.store := hS.handles _ (HandleTable.mem_of_find? hf)

theorem of_scope? (hS : S.Aside shun) {name : Name} {s : ScopeId} (hf : S.scope? name = some s) :
    ¬ shun s := by
  unfold scope? at hf
  split at hf
  next hn =>
    cases hf
    exact (hS.find hn).commands s (List.mem_singleton.mpr rfl)
  next => cases hf

theorem of_allocator? (hS : S.Aside shun) {name : Name} {w : Allocator}
    (hf : S.allocator? name = some w) : ∀ s ∈ w.commands S.store, ¬ shun s := by
  obtain ⟨h, hn, hw⟩ := Option.bind_eq_some_iff.mp hf
  intro s hs
  cases h <;> cases hw
  all_goals exact (hS.find hn).commands s hs

theorem of_sharedArena? (hS : S.Aside shun) {name : Name} {a : ArenaId}
    (hf : S.sharedArena? name = some a) :
    a < S.store.arenas.length ∧ ¬ shun (S.store.arena a).scope := by
  unfold sharedArena? at hf
  split at hf
  next hn =>
    cases hf
    exact ⟨(hS.find hn).arena a rfl, (hS.find hn).commands _ (List.mem_singleton.mpr rfl)⟩
  next => cases hf

theorem of_builder? (hS : S.Aside shun) {name : Name} {b : VariadicBuilder}
    (hf : S.builder? name = some b) : ¬ shun b.scope :=
  (hS.find (find?_of_builder? hf)).commands _ (List.mem_singleton.mpr rfl)

theorem of_list? (hS : S.Aside shun) {name : Name} {v : VariadicList}
    (hf : S.list? name = some v) : ¬ shun v.scope ∧ v.IsHome :=
  ⟨(hS.find (find?_of_list? hf)).commands _ (List.mem_singleton.mpr rfl),
    (hS.find (find?_of_list? hf)).list v rfl⟩

/-- The handles are others, and there is more left to be done. -/
theorem skips_handles (hS : S.Aside shun) {hs : HandleTable} {more : List Chore}
    (hh : ∀ p ∈ hs, p.2.Aside shun S.store)
    (hc : ∀ c ∈ more, ∀ s, c.command? = some s → ¬ shun s) :
    S.Skips shun { S with handles := hs, chores := S.chores ++ more } where
  aside := ⟨hS.known, hh, hS.actions,
    fun c hm => (List.mem_append.mp hm).elim (hS.chores c) (hc c), hS.emptied⟩
  scope _ _ := rfl

theorem skips_store (hS : S.Aside shun) (ha : S.store.Avoids shun τ) :
    S.Skips shun { S with store := τ } where
  scope s hs := ha.scope (hS.known s hs).2 hs
  aside := by
    refine ⟨ha.known hS.known, fun p hp => (hS.handles p hp).keeps ha.toKeeps, fun t p hp => ?_,
      hS.chores, fun s hs => ?_⟩
    · rw [ha.actions] at hp
      exact hS.actions t p hp
    · by_cases hl : s < S.store.scopes.length
      · have hd : ¬ S.store.IsAlive s := fun h => hs ((ha.isAlive_iff hl).mpr h)
        rw [ha.blocks s hl (Or.inr hd)]
        exact hS.emptied s hd
      · by_cases hl' : s < τ.scopes.length
        · obtain ⟨_, _, _, hb⟩ := ha.new s (Nat.le_of_not_lt hl) hl'
          have hlive : (τ.scope s).lifetime = .live 0 := by
            show (τ.scope s).bare.lifetime = _
            rw [hb]
          refine absurd ?_ hs
          rw [Store.IsAlive, Scope.isAlive, hlive]
        · exact congrArg Scope.blocks (Store.scope_of_length_le (Nat.le_of_not_lt hl'))

theorem skips_renamed (hS : S.Aside shun) (name : Name) (hh : h.Aside shun S.store) :
    S.Skips shun (S.renamed name h) := by
  refine hS.skips_handles (fun p hp => ?_) fun c hc => ?_
  · rcases HandleTable.mem_put hp with rfl | hp
    · exact hh
    · exact hS.handles p hp
  · cases hf : S.handles.find? name with
    | none =>
      rw [hf] at hc
      cases hc
    | some old =>
      rw [hf] at hc
      exact Handle.command?_dropChores (hS.find hf) c hc

theorem skips_lost (hS : S.Aside shun) (name : Name) : S.Skips shun (S.lost name) := by
  unfold lost
  cases hf : S.handles.find? name with
  | none => exact .refl hS
  | some old =>
    exact hS.skips_handles (fun p hp => hS.handles p (HandleTable.mem_of_mem_erase hp))
      (Handle.command?_dropChores (hS.find hf))

theorem skips_updated (hS : S.Aside shun) (name : Name) (hh : h.Aside shun S.store) :
    S.Skips shun { S with handles := S.handles.put name h } where
  aside := ⟨hS.known, fun p hp => (HandleTable.mem_put hp).elim (fun he => he ▸ hh) (hS.handles p),
    hS.actions, hS.chores, hS.emptied⟩
  scope _ _ := rfl

/-- The store has changed, but for its arenas, and what is left to be done. -/
theorem of_store (hS : S.Aside shun) {chores : List Chore}
    (hl : τ.scopes.length = S.store.scopes.length) (ha : τ.arenas = S.store.arenas)
    (hact : ∀ t, ∀ p ∈ (τ.scope t).actions, ∀ s, p.action.command? = some s → ¬ shun s)
    (hemp : ∀ s, ¬ τ.IsAlive s → (τ.scope s).blocks = [])
    (hc : ∀ c ∈ chores, ∀ s, c.command? = some s → ¬ shun s) :
    Aside shun { S with store := τ, chores := chores } where
  known s hs := ⟨(hS.known s hs).1, hl ▸ (hS.known s hs).2⟩
  handles p hp := (hS.handles p hp).of_arenas ha
  actions := hact
  chores := hc
  emptied := hemp

theorem of_scopes (hS : S.Aside shun) {chores : List Chore}
    (hs : τ.scopes = S.store.scopes) (ha : τ.arenas = S.store.arenas)
    (hc : ∀ c ∈ chores, ∀ s, c.command? = some s → ¬ shun s) :
    Aside shun { S with store := τ, chores := chores } := by
  have he : ∀ s, τ.scope s = S.store.scope s := fun s => by
    unfold Store.scope
    rw [hs]
  refine hS.of_store (by rw [hs]) ha (fun t => ?_) (fun s hd => ?_) hc
  · rw [he]
    exact hS.actions t
  · rw [Store.IsAlive, he] at hd
    rw [he]
    exact hS.emptied s hd

/-- A scope ends, and what it leaves comes to be done. -/
theorem ended (hS : S.Aside shun) (t : ScopeId) (l : Lifetime) {before after : List Chore}
    (hb : ∀ c ∈ before, ∀ s, c.command? = some s → ¬ shun s)
    (ha : ∀ c ∈ after, ∀ s, c.command? = some s → ¬ shun s) :
    Aside shun { S with
      store := S.store.endScope t l
      chores := before ++ (S.store.holdings t).chores ++ after } := by
  refine hS.of_store (by simp) rfl (fun u p hp => ?_) (fun s hd => ?_) fun c hc => ?_
  · exact hS.actions u p (Store.actions_endScope hp)
  · rw [Store.IsAlive, Store.scope_endScope] at hd
    rw [Store.scope_endScope]
    split
    next => rfl
    next h =>
      rw [if_neg h] at hd
      exact hS.emptied s hd
  · rcases List.mem_append.mp hc with hc | hc
    · rcases List.mem_append.mp hc with hc | hc
      · exact hb c hc
      · rcases List.mem_append.mp hc with hc | hc
        · obtain ⟨p, hp, rfl⟩ := List.mem_map.mp hc
          exact hS.actions t p hp
        · rw [List.mem_singleton.mp hc]
          intro _ hs
          cases hs
    · exact ha c hc

theorem skips_ended (hS : S.Aside shun) {t : ScopeId} (ht : ¬ shun t) (l : Lifetime)
    {before after : List Chore} (hc : S.chores = before ++ after) :
    S.Skips shun { S with
      store := S.store.endScope t l
      chores := before ++ (S.store.holdings t).chores ++ after } where
  aside := hS.ended t l
    (fun c hm => hS.chores c (hc ▸ List.mem_append_left _ hm))
    (fun c hm => hS.chores c (hc ▸ List.mem_append_right _ hm))
  scope s hs := by
    have hne : s ≠ t := by
      rintro rfl
      exact ht hs
    rw [Store.scope_endScope, if_neg fun h => hne h.1]

theorem skips_accepted (hS : S.Aside shun) {t : ScopeId} (ht : ¬ shun t) {a : CloseAction}
    (hact : ∀ s, a.command? = some s → ¬ shun s) :
    S.Skips shun { S with store := S.store.addAction t a } where
  aside := by
    refine hS.of_store (by simp) rfl (fun u p hp => ?_) (fun s hd => ?_) hS.chores
    · rw [Store.scope_addAction] at hp
      split at hp
      next =>
        rcases List.mem_cons.mp hp with rfl | hp
        · exact hact
        · exact hS.actions t p hp
      next => exact hS.actions u p hp
    · have hd' : ¬ S.store.IsAlive s := fun ha => hd ((S.store.isAlive_addAction t a).mpr ha)
      rw [Store.scope_addAction]
      split
      next h => exact h.1 ▸ hS.emptied s hd'
      next => exact hS.emptied s hd'
  scope s hs := by
    have hne : s ≠ t := by
      rintro rfl
      exact ht hs
    rw [Store.scope_addAction, if_neg fun h => hne h.1]

theorem skips_setLive (hS : S.Aside shun) {t : ScopeId} (ht : ¬ shun t) (n : Nat)
    {chores : List Chore} (hc : ∀ c ∈ chores, ∀ s, c.command? = some s → ¬ shun s) :
    S.Skips shun { S with store := S.store.setLifetime t (.live n), chores := chores } where
  aside := by
    refine hS.of_store (by simp) rfl (fun u p hp => ?_) (fun s hd => ?_) hc
    · rw [Store.scope_setLifetime] at hp
      split at hp
      next h => exact hS.actions t p hp
      next => exact hS.actions u p hp
    · rw [Store.IsAlive, Store.scope_setLifetime] at hd
      rw [Store.scope_setLifetime]
      split
      next h =>
        rw [if_pos h] at hd
        exact absurd rfl hd
      next h =>
        rw [if_neg h] at hd
        exact hS.emptied s hd
  scope s hs := by
    have hne : s ≠ t := by
      rintro rfl
      exact ht hs
    rw [Store.scope_setLifetime, if_neg fun h => hne h.1]

end Aside
end Session
end ScopedMemory
