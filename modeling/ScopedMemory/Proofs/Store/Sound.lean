import ScopedMemory.Proofs.Heap.Apart
import ScopedMemory.Proofs.Region.Access

namespace ScopedMemory

namespace Store

abbrev IsAlive (σ : Store) (s : ScopeId) : Prop := (σ.scope s).isAlive = true

/-- The scope was created and has not ended for want of references. -/
def Holds (σ : Store) (s : ScopeId) : Prop :=
  s < σ.scopes.length ∧ (σ.scope s).lifetime ≠ .reclaimed

def blocks (σ : Store) : List Block := σ.scopes.flatMap (·.blocks)

/-- The byte belongs to a block that is not freed. -/
def InUse (σ : Store) (x : Nat) : Prop := ∃ b ∈ unfreed σ.events, b.Has x

/-- Two regions share no byte as long as both of their scopes are alive. -/
def Apart (σ : Store) (r s : Region) : Prop :=
  σ.IsAlive r.scope → σ.IsAlive s.scope → ∀ x, r.Has x → ¬ s.Has x

/-- Nothing that is still there has moved: scopes keep their blocks while they live, and none comes
back to life. -/
structure Later (σ τ : Store) : Prop where
  scopes : σ.scopes.length ≤ τ.scopes.length
  arenas : σ.arenas.length ≤ τ.arenas.length
  tickets : σ.tickets ≤ τ.tickets
  alive : ∀ s < σ.scopes.length, τ.IsAlive s → σ.IsAlive s
  blocks : ∀ s < σ.scopes.length, τ.IsAlive s → ∀ b ∈ (σ.scope s).blocks, b ∈ (τ.scope s).blocks
  owner : ∀ s < σ.scopes.length,
    (τ.scope s).kind = (σ.scope s).kind ∧ (τ.scope s).creator = (σ.scope s).creator
  arenaScope : ∀ a < σ.arenas.length, (τ.arena a).scope = (σ.arena a).scope

/-- No scope ended on the way for want of references. -/
def Spares (σ τ : Store) : Prop :=
  ∀ s, (τ.scope s).lifetime = .reclaimed → (σ.scope s).lifetime = .reclaimed

theorem Later.refl (σ : Store) : σ.Later σ where
  scopes := Nat.le_refl _
  arenas := Nat.le_refl _
  tickets := Nat.le_refl _
  alive _ _ h := h
  blocks _ _ _ _ h := h
  owner _ _ := ⟨rfl, rfl⟩
  arenaScope _ _ := rfl

theorem Later.trans {σ τ ρ : Store} (h : σ.Later τ) (h' : τ.Later ρ) : σ.Later ρ where
  scopes := Nat.le_trans h.scopes h'.scopes
  arenas := Nat.le_trans h.arenas h'.arenas
  tickets := Nat.le_trans h.tickets h'.tickets
  alive s hs ha := h.alive s hs (h'.alive s (Nat.lt_of_lt_of_le hs h.scopes) ha)
  blocks s hs ha b hb := by
    have hs' := Nat.lt_of_lt_of_le hs h.scopes
    exact h'.blocks s hs' ha b (h.blocks s hs (h'.alive s hs' ha) b hb)
  owner s hs := by
    obtain ⟨h₁, h₂⟩ := h.owner s hs
    obtain ⟨h₃, h₄⟩ := h'.owner s (Nat.lt_of_lt_of_le hs h.scopes)
    exact ⟨h₃.trans h₁, h₄.trans h₂⟩
  arenaScope a ha := by
    rw [h'.arenaScope a (Nat.lt_of_lt_of_le ha h.arenas), h.arenaScope a ha]

theorem Later.checkOwner {σ τ : Store} (h : σ.Later τ) {s : ScopeId} (hs : s < σ.scopes.length)
    (t : Thread) : τ.checkOwner t s = σ.checkOwner t s := by
  obtain ⟨h₁, h₂⟩ := h.owner s hs
  simp only [Store.checkOwner, Scope.owner?, h₁, h₂]

theorem Spares.trans {σ τ ρ : Store} (h : σ.Spares τ) (h' : τ.Spares ρ) : σ.Spares ρ :=
  fun s he => h s (h' s he)

theorem Holds.later {σ τ : Store} {s : ScopeId} (h : σ.Holds s) (hl : σ.Later τ)
    (hr : σ.Spares τ) : τ.Holds s :=
  ⟨Nat.lt_of_lt_of_le h.1 hl.scopes, fun he => h.2 (hr s he)⟩

theorem IsAlive.holds {σ : Store} {s : ScopeId} (h : σ.IsAlive s) : σ.Holds s := by
  refine ⟨lt_length_of_isAlive h, fun he => ?_⟩
  unfold IsAlive Scope.isAlive at h
  rw [he] at h
  cases h

theorem mem_blocks {σ : Store} {s : ScopeId} {b : Block} (h : b ∈ (σ.scope s).blocks) :
    b ∈ σ.blocks := by
  by_cases hs : s < σ.scopes.length
  · exact List.mem_flatMap.mpr ⟨σ.scope s, scope_mem hs, h⟩
  · rw [scope_of_length_le (Nat.le_of_not_lt hs)] at h
    cases h

theorem blocks_modifyScope {σ : Store} {s : ScopeId} (hs : s < σ.scopes.length) :
    ∃ rest, σ.blocks.Perm ((σ.scope s).blocks ++ rest) ∧
      ∀ f, (σ.modifyScope s f).blocks.Perm ((f (σ.scope s)).blocks ++ rest) := by
  unfold blocks modifyScope
  have he : σ.scope s = σ.scopes[s] := by simp [scope, hs]
  have hsplit : σ.scopes = σ.scopes.take s ++ σ.scope s :: σ.scopes.drop (s + 1) := by
    rw [he, ← List.drop_eq_getElem_cons hs, List.take_append_drop]
  refine ⟨(σ.scopes.take s).flatMap (·.blocks) ++ (σ.scopes.drop (s + 1)).flatMap (·.blocks),
    ?_, fun f => ?_⟩
  · conv => lhs; rw [hsplit]
    rw [List.flatMap_append, List.flatMap_cons, ← List.append_assoc, ← List.append_assoc]
    exact List.perm_append_comm.append_right _
  · rw [List.modify_eq_take_cons_drop hs, ← he]
    simp only
    rw [List.flatMap_append, List.flatMap_cons, ← List.append_assoc, ← List.append_assoc]
    exact List.perm_append_comm.append_right _

end Store

/-- While its scope is alive the region lies in a block of it. -/
def Region.Inside (r : Region) (σ : Store) : Prop :=
  r.scope < σ.scopes.length ∧
    (σ.IsAlive r.scope → ∃ b ∈ (σ.scope r.scope).blocks, b.Encloses r)

theorem Region.Inside.later {r : Region} {σ τ : Store} (h : r.Inside σ) (hl : σ.Later τ) :
    r.Inside τ := by
  refine ⟨Nat.lt_of_lt_of_le h.1 hl.scopes, fun ha => ?_⟩
  obtain ⟨b, hb, he⟩ := h.2 (hl.alive _ h.1 ha)
  exact ⟨b, hl.blocks _ h.1 ha b hb, he⟩

theorem Region.Inside.narrow {r : Region} {σ : Store} (h : r.Inside σ) {offset length : Word}
    (hs : r.Spans offset length) : (r.narrow offset length).Inside σ := by
  refine ⟨h.1, fun ha => ?_⟩
  obtain ⟨b, hb, he⟩ := h.2 ha
  exact ⟨b, hb, Region.encloses_narrow he hs⟩

theorem Store.Apart.later {σ τ : Store} {r s : Region} (h : σ.Apart r s) (hl : σ.Later τ)
    (hr : r.scope < σ.scopes.length) (hs : s.scope < σ.scopes.length) : τ.Apart r s :=
  fun har has => h (hl.alive _ hr har) (hl.alive _ hs has)

def CloseAction.region? : CloseAction → Option Region
  | fill _ r => some r
  | _ => none

/-- The target can still be reached, and unless regions are adopted a region to be written lies in
its scope. -/
structure CloseAction.Sound (a : CloseAction) (σ : Store) (strict : Prop) : Prop where
  target : ∀ s, a.target? = some s → σ.Holds s
  region : strict → ∀ r, a.region? = some r → r.Inside σ

theorem CloseAction.Sound.later {a : CloseAction} {σ τ : Store} {strict : Prop}
    (h : a.Sound σ strict) (hl : σ.Later τ) (hr : ∀ s, a.target? = some s → τ.Holds s) :
    a.Sound τ strict where
  target := hr
  region hstrict r hre := (h.region hstrict r hre).later hl

/-- The action was accepted, and what it refers to is there. -/
def PendingAction.Sound (p : PendingAction) (σ : Store) (strict : Prop) : Prop :=
  p.ticket < σ.tickets ∧ p.action.Sound σ strict

theorem PendingAction.Sound.later {p : PendingAction} {σ τ : Store} {strict : Prop}
    (h : p.Sound σ strict) (hl : σ.Later τ) (hr : σ.Spares τ) : p.Sound τ strict :=
  ⟨Nat.lt_of_lt_of_le h.1 hl.tickets, h.2.later hl fun s hs => (h.2.target s hs).later hl hr⟩

def Arena.Free (ar : Arena) (x : Nat) : Prop :=
  ∃ f, ar.frontier = some f ∧ f.block.start.toNat + f.cursor.toNat ≤ x ∧ f.block.Has x

structure Arena.Sound (ar : Arena) (σ : Store) : Prop where
  scope : ar.scope < σ.scopes.length
  frontier : ∀ f, ar.frontier = some f →
    f.block.scope = ar.scope ∧ f.block.Inside σ ∧ f.cursor.toNat ≤ f.block.size.toNat

theorem Arena.Sound.later {ar : Arena} {σ τ : Store} (h : ar.Sound σ) (hl : σ.Later τ) :
    ar.Sound τ where
  scope := Nat.lt_of_lt_of_le h.scope hl.scopes
  frontier f hf := by
    obtain ⟨h₁, h₂, h₃⟩ := h.frontier f hf
    exact ⟨h₁, h₂.later hl, h₃⟩

/-- Every block that is not freed belongs to a scope that is alive or is among those that wait to be
freed, and arenas and actions refer to what is there. -/
structure Store.Sound (system : SystemAllocator) (strict : Prop) (waiting : List Block)
    (σ : Store) : Prop where
  history : system.History σ.events
  accounted : (unfreed σ.events).Perm (σ.blocks ++ waiting)
  ended : ∀ s, ¬ σ.IsAlive s → (σ.scope s).blocks = [] ∧ (σ.scope s).actions = []
  eternal : (σ.scope 0).kind = .global ∧ σ.IsAlive 0
  arenas : ∀ a < σ.arenas.length, (σ.arena a).Sound σ
  actions : ∀ s, ∀ p ∈ (σ.scope s).actions, p.Sound σ strict

/-- The regions handed out and what the arenas have left share no byte. -/
structure Store.Ledger (granted : List Region) (σ : Store) : Prop where
  inside : ∀ r ∈ granted, r.Inside σ
  apart : granted.Pairwise σ.Apart
  free : ∀ r ∈ granted, ∀ a, σ.IsAlive r.scope → σ.IsAlive (σ.arena a).scope →
    ∀ x, r.Has x → ¬ (σ.arena a).Free x
  arenas : ∀ a b, a ≠ b → σ.IsAlive (σ.arena a).scope → σ.IsAlive (σ.arena b).scope →
    ∀ x, (σ.arena a).Free x → ¬ (σ.arena b).Free x

namespace Store

theorem Sound.mem_unfreed {system : SystemAllocator} {strict : Prop} {waiting : List Block}
    {σ : Store} (h : σ.Sound system strict waiting) {s : ScopeId} {b : Block}
    (hb : b ∈ (σ.scope s).blocks) : b ∈ unfreed σ.events :=
  h.accounted.mem_iff.mpr (List.mem_append_left _ (mem_blocks hb))

theorem Sound.inUse {system : SystemAllocator} {strict : Prop} {waiting : List Block} {σ : Store}
    (h : σ.Sound system strict waiting) {r : Region} (hr : r.Inside σ) (ha : σ.IsAlive r.scope)
    {x : Nat} (hx : r.Has x) : σ.InUse x := by
  obtain ⟨b, hb, he⟩ := hr.2 ha
  exact ⟨b, h.mem_unfreed hb, he.has hx⟩

theorem Sound.inUse_free {system : SystemAllocator} {strict : Prop} {waiting : List Block}
    {σ : Store} (h : σ.Sound system strict waiting) {a : ArenaId}
    (ha : σ.IsAlive (σ.arena a).scope) {x : Nat} (hx : (σ.arena a).Free x) : σ.InUse x := by
  obtain ⟨f, hf, _, hx⟩ := hx
  obtain ⟨hs, hi, _⟩ := (h.arenas a (lt_length_of_frontier hf)).frontier f hf
  exact h.inUse hi (by rwa [hs]) hx

/-- Every thread may use the global scope at all times. -/
theorem Sound.checkUsable_global {system : SystemAllocator} {strict : Prop} {waiting : List Block}
    {σ : Store} (h : σ.Sound system strict waiting) (t : Thread) : σ.checkUsable t 0 = .ok () := by
  obtain ⟨hkind, ha⟩ := h.eternal
  refine checkUsable_eq_ok_iff.mpr ⟨?_, ha⟩
  unfold checkOwner Scope.owner?
  rw [hkind]
  rfl

theorem Ledger.sublist {G G' : List Region} {σ : Store} (h : σ.Ledger G) (hs : G'.Sublist G) :
    σ.Ledger G' where
  inside r hr := h.inside r (hs.subset hr)
  apart := h.apart.sublist hs
  free r hr := h.free r (hs.subset hr)
  arenas := h.arenas

/-- The store with its memory left out of sight. -/
theorem Sound.setMemory {system : SystemAllocator} {strict : Prop} {waiting : List Block}
    {σ : Store} (h : σ.Sound system strict waiting) (m : Memory) :
    (σ.setMemory m).Sound system strict waiting :=
  ⟨h.history, h.accounted, h.ended, h.eternal,
    fun a ha => ⟨(h.arenas a ha).scope, (h.arenas a ha).frontier⟩,
    fun s p hp => ⟨(h.actions s p hp).1, (h.actions s p hp).2.target, (h.actions s p hp).2.region⟩⟩

theorem Ledger.setMemory {G : List Region} {σ : Store} (h : σ.Ledger G) (m : Memory) :
    (σ.setMemory m).Ledger G := ⟨h.inside, h.apart, h.free, h.arenas⟩

end Store
end ScopedMemory
