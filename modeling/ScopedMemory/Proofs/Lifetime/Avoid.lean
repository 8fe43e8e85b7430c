import ScopedMemory.Proofs.Lifetime.Keep

namespace ScopedMemory

namespace Store

variable {shun : ScopeId → Prop} {σ τ ρ : Store}

/-- No block is added to a scope that is shunned, or to one that has ended. -/
structure Avoids (shun : ScopeId → Prop) (σ τ : Store) : Prop extends σ.Keeps τ where
  blocks : ∀ s < σ.scopes.length, shun s ∨ ¬ σ.IsAlive s → (τ.scope s).blocks = (σ.scope s).blocks

theorem Avoids.refl (σ : Store) : σ.Avoids shun σ where
  toKeeps := Keeps.refl σ
  blocks _ _ _ := rfl

theorem Avoids.trans (h : σ.Avoids shun τ) (h' : τ.Avoids shun ρ) : σ.Avoids shun ρ where
  toKeeps := h.toKeeps.trans h'.toKeeps
  blocks s hs hshun := by
    have hs' := Nat.lt_of_lt_of_le hs h.scopes
    have hshun' : shun s ∨ ¬ τ.IsAlive s :=
      hshun.imp_right fun hd ha => hd ((h.isAlive_iff hs).mp ha)
    rw [h'.blocks s hs' hshun', h.blocks s hs hshun]

/-- Scopes that are shunned are there, and the global scope is not one of them. -/
theorem Avoids.known (h : σ.Avoids shun τ) (hk : ∀ s, shun s → s ≠ 0 ∧ s < σ.scopes.length) :
    ∀ s, shun s → s ≠ 0 ∧ s < τ.scopes.length :=
  fun s hs => ⟨(hk s hs).1, Nat.lt_of_lt_of_le (hk s hs).2 h.scopes⟩

theorem Avoids.arena (h : σ.Avoids shun τ) {a : ArenaId} (hl : a < σ.arenas.length)
    (ha : ¬ shun (σ.arena a).scope) : ¬ shun (τ.arena a).scope := by
  rw [h.arenaScope a hl]
  exact ha

/-- What keeps the store and adds no block. -/
theorem Keeps.avoids (h : σ.Keeps τ)
    (hb : ∀ s < σ.scopes.length, (τ.scope s).blocks = (σ.scope s).blocks) : σ.Avoids shun τ where
  toKeeps := h
  blocks s hs _ := hb s hs

theorem avoids_addScope (σ : Store) {kind : ScopeKind} (hk : kind ≠ .global) (t : Thread) :
    σ.Avoids shun (σ.addScope kind t) :=
  (σ.keeps_addScope hk t).avoids fun s hs => by rw [scope_addScope, if_neg (Nat.ne_of_lt hs)]

theorem avoids_addArena (σ : Store) (ar : Arena) : σ.Avoids shun (σ.addArena ar) :=
  (σ.keeps_addArena ar).avoids fun _ _ => rfl

theorem avoids_modifyArena (σ : Store) (a : ArenaId) {f : Arena → Arena}
    (hf : ∀ ar, (f ar).scope = ar.scope) : σ.Avoids shun (σ.modifyArena a f) :=
  (σ.keeps_modifyArena a hf).avoids fun _ _ => rfl

theorem avoids_setMemory (σ : Store) (m : Memory) : σ.Avoids shun (σ.setMemory m) :=
  (σ.keeps_setMemory m).avoids fun _ _ => rfl

theorem avoids_addBlock {s : ScopeId} (ha : σ.IsAlive s) (hs : ¬ shun s) (b : Block) :
    σ.Avoids shun (σ.addBlock s b) where
  toKeeps := keeps_addBlock (lt_length_of_isAlive ha) b
  blocks t _ ht := by
    have hne : t ≠ s := by
      rintro rfl
      exact ht.elim hs fun hd => hd ha
    rw [scope_addBlock, if_neg fun h => hne h.1]

end Store

namespace Operation

variable {shun : ScopeId → Prop} {α β : Type} {x : Operation α} {f : α → Operation β}
  {ctx : Context} {σ : Store} {P P' : α → Store → Prop} {R : β → Store → Prop}

/-- However the operation ends, it avoids what is shunned. If it succeeds, `P` holds as well. -/
def Avoids (shun : ScopeId → Prop) (x : Operation α) (ctx : Context) (σ : Store)
    (P : α → Store → Prop) : Prop :=
  x.Leads ctx σ (fun a τ => σ.Avoids shun τ ∧ P a τ) (σ.Avoids shun)

theorem Avoids.bind (hx : x.Avoids shun ctx σ P)
    (hf : ∀ a τ, σ.Avoids shun τ → P a τ → (f a).Avoids shun ctx τ R) :
    (x >>= f).Avoids shun ctx σ R := by
  refine Leads.bind hx fun a τ h => ?_
  obtain ⟨ha, hp⟩ := h
  exact (hf a τ ha hp).imp (fun b ρ h => ⟨ha.trans h.1, h.2⟩) fun ρ h => ha.trans h

theorem Avoids.imp (hx : x.Avoids shun ctx σ P) (h : ∀ a τ, P a τ → P' a τ) :
    x.Avoids shun ctx σ P' :=
  Leads.imp hx (fun a τ hp => ⟨hp.1, h a τ hp.2⟩) fun _ hq => hq

theorem avoids_pure {a : α} (h : P a σ) : (pure a : Operation α).Avoids shun ctx σ P :=
  leads_pure ⟨.refl σ, h⟩

theorem avoids_throw (e : MemoryError) : (throw e : Operation α).Avoids shun ctx σ P :=
  leads_throw (.refl σ)

/-- An operation that leaves the store alone. -/
theorem avoids_of_same (h : x.Leads ctx σ (fun a τ => P a τ ∧ τ = σ) (· = σ)) :
    x.Avoids shun ctx σ P := by
  refine h.imp (fun a τ hp => ?_) fun τ hq => ?_
  · rw [hp.2]
    exact ⟨.refl σ, hp.2 ▸ hp.1⟩
  · rw [hq]
    exact .refl σ

/-- An operation that writes to memory and does no more, or fails and leaves the store alone. -/
theorem avoids_of_memory (h : x.Leads ctx σ (fun a τ => P a τ ∧ ∃ m, τ = σ.setMemory m) (· = σ)) :
    x.Avoids shun ctx σ P := by
  refine h.imp (fun a τ hp => ?_) fun τ hq => ?_
  · obtain ⟨hp, m, rfl⟩ := hp
    exact ⟨Store.avoids_setMemory σ m, hp⟩
  · rw [hq]
    exact .refl σ

theorem avoids_require (c : Except MemoryError α) :
    (require c).Avoids shun ctx σ fun _ τ => τ = σ :=
  leads_require (fun _ _ => ⟨.refl σ, rfl⟩) (.refl σ)

theorem avoids_modify {g : Store → Store} (h : σ.Avoids shun (g σ)) :
    (modify g : Operation PUnit).Avoids shun ctx σ fun _ τ => τ = g σ :=
  leads_modify ⟨h, rfl⟩

end Operation

open Operation

variable {shun : ScopeId → Prop} {ctx : Context} {σ : Store}

/-! ### Regions -/

namespace Region

variable {r src : Region} {offset length : Word} {l : Layout}

theorem avoids_slice :
    (r.slice offset length).Avoids shun ctx σ fun r' τ => r'.scope = r.scope ∧ τ = σ := by
  refine avoids_of_same (leads_slice.imp (fun r' τ h => ?_) fun _ h => h)
  obtain ⟨_, rfl, rfl⟩ := h
  exact ⟨⟨rfl, rfl⟩, rfl⟩

theorem avoids_set {x : Scalar} : (r.set l offset x).Avoids shun ctx σ fun _ _ => True :=
  avoids_of_memory (leads_set.imp (fun _ _ h => ⟨trivial, _, h.2.2⟩) fun _ h => h)

theorem avoids_setAddress {a : Word} :
    (r.setAddress l offset a).Avoids shun ctx σ fun _ _ => True := by
  refine avoids_of_memory (leads_setAddress.imp (fun _ _ h => ?_) fun _ h => h)
  obtain ⟨_, _, _, hτ⟩ := h
  exact ⟨trivial, _, hτ⟩

theorem avoids_copyFrom : (r.copyFrom src).Avoids shun ctx σ fun _ _ => True :=
  avoids_of_memory (leads_copyFrom.imp (fun _ _ h => ⟨trivial, _, h.2.2⟩) fun _ h => h)

end Region

/-! ### Allocations -/

theorem ScopeId.avoids_allocateNative {s : ScopeId} (hs : ¬ shun s) (size align : Word) :
    (ScopeId.allocateNative s size align).Avoids shun ctx σ fun r _ => r.scope = s := by
  refine (leads_allocateNative s size align).imp
    (fun r τ h => ?_) fun τ h => h ▸ Store.Avoids.refl τ
  obtain ⟨hu, _, _, hr, rfl⟩ := h
  have ha := Store.isAlive_of_checkUsable hu
  exact ⟨Store.avoids_addBlock ha hs _, congrArg Region.scope hr⟩

/-- A new scope cannot have been shunned. -/
theorem ScopeId.avoids_create (hk : ∀ s, shun s → s ≠ 0 ∧ s < σ.scopes.length) (kind : ScopeKind) :
    (ScopeId.create kind).Avoids shun ctx σ fun s _ => ¬ shun s := by
  refine (leads_create kind).imp (fun s τ h => ?_) fun _ h => h.elim
  rcases h with ⟨_, rfl, rfl⟩ | ⟨hg, rfl, rfl⟩
  · exact ⟨.refl _, fun hs => (hk 0 hs).1 rfl⟩
  · exact ⟨Store.avoids_addScope _ hg _, fun hs => Nat.lt_irrefl _ (hk _ hs).2⟩

/-- The block that the arena serves from is one of its scope. -/
def Arena.IsHome (ar : Arena) : Prop := ∀ f, ar.frontier = some f → f.block.scope = ar.scope

namespace ArenaId

variable (a : ArenaId)

theorem avoids_create (capacity : ArenaCapacity) (config : ArenaConfig) (s : ScopeId) :
    (ArenaId.create capacity config s).Avoids shun ctx σ fun a τ =>
      a < τ.arenas.length ∧ (τ.arena a).scope = s ∧ (τ.arena a).frontier = none := by
  refine (leads_create capacity config s).imp (fun a τ h => ?_) fun τ h => h ▸ Store.Avoids.refl τ
  obtain ⟨_, _, rfl, rfl⟩ := h
  refine ⟨Store.avoids_addArena _ _, by simp, ?_⟩
  rw [Store.arena_addArena, if_pos rfl]
  exact ⟨rfl, rfl⟩

theorem avoids_carve (f : Frontier) (start size : Word) :
    (a.carve f start size).Avoids shun ctx σ fun r _ => r.scope = f.block.scope := by
  refine Region.avoids_slice.bind fun r τ _ hr => ?_
  refine (avoids_modify (Store.avoids_modifyArena τ a fun _ => by rfl)).bind fun _ _ _ _ => ?_
  exact avoids_pure hr.1

theorem avoids_fit (f : Frontier) (size align : Word) (fault : MemoryError) :
    (match f.fit? size align with
      | some start => a.carve f start size
      | none => throw fault : Operation Region).Avoids shun ctx σ
        fun r _ => r.scope = f.block.scope := by
  split
  next => exact avoids_carve a f _ size
  next => exact avoids_throw _

theorem avoids_install (block : Region) :
    (a.install block).Avoids shun ctx σ fun f _ => f.block.scope = block.scope :=
  (avoids_modify (Store.avoids_modifyArena σ a fun _ => by rfl)).bind fun _ _ _ _ =>
    avoids_pure rfl

theorem avoids_counting {x : Operation Region} {P : Region → Store → Prop}
    (h : x.Avoids shun ctx σ P) : (a.counting x).Avoids shun ctx σ P := by
  unfold Operation.Avoids Leads run counting at *
  cases hr : x ctx σ with
  | ok r τ =>
    rw [hr] at h
    exact h
  | error e τ =>
    rw [hr] at h
    exact h.trans (Store.avoids_modifyArena τ a fun _ => rfl)

theorem avoids_allocateBounded {ar : Arena} (hs : ¬ shun ar.scope) (bytes size align : Word) :
    (a.allocateBounded ar bytes size align).Avoids shun ctx σ
      fun r _ => ar.IsHome → r.scope = ar.scope := by
  unfold allocateBounded
  cases hn : ar.frontier with
  | some f => exact (avoids_fit a f size align _).imp fun r _ hr hf => hr.trans (hf f hn)
  | none =>
    refine (ScopeId.avoids_allocateNative hs _ _).bind fun r τ _ hr => ?_
    refine (avoids_install a r).bind fun f ρ _ hb => ?_
    exact (avoids_fit a f size align _).imp fun r' _ h _ => h.trans (hb.trans hr)

theorem avoids_allocateUnbounded {ar : Arena} (hs : ¬ shun ar.scope)
    (blockSize size align : Word) :
    (a.allocateUnbounded ar blockSize size align).Avoids shun ctx σ
      fun r _ => ar.IsHome → r.scope = ar.scope := by
  unfold allocateUnbounded
  split
  next f start hfit =>
    obtain ⟨f', hn, hstart⟩ := Option.bind_eq_some_iff.mp hfit
    obtain ⟨_, _, he⟩ := Option.map_eq_some_iff.mp hstart
    cases he
    exact (avoids_carve a f start size).imp fun r _ hr hf => hr.trans (hf f hn)
  next =>
    split
    next =>
      refine (ScopeId.avoids_allocateNative hs _ _).bind fun r τ _ hr => ?_
      refine (avoids_modify (Store.avoids_modifyArena τ a fun _ => by rfl)).bind fun _ _ _ _ => ?_
      exact avoids_pure fun _ => hr
    next =>
      refine (ScopeId.avoids_allocateNative hs _ _).bind fun r τ _ hr => ?_
      refine (avoids_install a r).bind fun f ρ _ hb => ?_
      exact (avoids_fit a f size align _).imp fun r' _ h _ => h.trans (hb.trans hr)

theorem avoids_allocate (hs : ¬ shun (σ.arena a).scope) (size align : Word) :
    (a.allocate size align).Avoids shun ctx σ
      fun r _ => (σ.arena a).IsHome → r.scope = (σ.arena a).scope := by
  refine (avoids_require _).bind fun _ τ _ hτ => ?_
  subst hτ
  refine (avoids_of_same (P := fun ρ _ => ρ = τ) (leads_get ⟨rfl, rfl⟩)).bind fun ρ τ' _ hρ => ?_
  subst hρ
  refine (avoids_of_same (P := fun _ _ => True)
    (leads_checkUsable (fun _ => ⟨trivial, rfl⟩) rfl)).bind fun _ _ _ _ => ?_
  apply avoids_counting
  split
  next => exact avoids_allocateBounded a hs _ size align
  next => exact avoids_allocateUnbounded a hs _ size align

end ArenaId

/-! ### Allocators -/

namespace Allocator

/-- The scopes that the allocator takes blocks for. A scope for one request only is new. -/
def commands (σ : Store) : Allocator → List ScopeId
  | direct s => [s]
  | arena a => [(σ.arena a).scope]
  | perRequest _ | recycling _ => []

variable {w : Allocator} (hk : ∀ s, shun s → s ≠ 0 ∧ s < σ.scopes.length)
  (hw : ∀ s ∈ w.commands σ, ¬ shun s)

include hk hw

theorem avoids_allocate (size align : Word) :
    (w.allocate size align).Avoids shun ctx σ fun _ _ => True := by
  cases w with
  | direct s =>
    refine (avoids_require _).bind fun _ τ _ _ => ?_
    exact (ScopeId.avoids_allocateNative (hw s (List.mem_singleton.mpr rfl)) size align).imp
      fun _ _ _ => trivial
  | perRequest kind =>
    refine (avoids_require _).bind fun _ τ _ hτ => ?_
    refine (ScopeId.avoids_create (hτ ▸ hk) _).bind fun s ρ _ hs => ?_
    exact (ScopeId.avoids_allocateNative hs size align).imp fun _ _ _ => trivial
  | arena a =>
    exact (ArenaId.avoids_allocate a (hw _ (List.mem_singleton.mpr rfl)) size align).imp
      fun _ _ _ => trivial
  | recycling r =>
    simp only [allocate]
    split
    next => exact avoids_throw _
    next => exact Region.avoids_slice.imp fun _ _ _ => trivial

theorem avoids_serve (q : AllocationRequest) :
    (w.serve q).Avoids shun ctx σ fun _ _ => True :=
  leads_serve_of_allocate (.refl σ) (fun _ _ h => h.1)
    (fun _ τ m h => ⟨h.1.trans (Store.avoids_setMemory τ m), trivial⟩)
    fun size align _ => avoids_allocate hk hw size align

omit hw in
theorem avoids_allocateEach {a : ArenaId} (hl : a < σ.arenas.length)
    (ha : ¬ shun (σ.arena a).scope) (size align : Word) (threads : List Thread) :
    ((arena a).allocateEach size align threads).Avoids shun ctx σ fun _ _ => True := by
  unfold allocateEach
  induction threads generalizing σ with
  | nil => exact avoids_pure trivial
  | cons t threads ih =>
    rw [List.mapM_cons]
    have hw : ∀ s ∈ (arena a).commands σ, ¬ shun s := fun s hs => List.mem_singleton.mp hs ▸ ha
    have hone : (attempt (asThread t ((arena a).allocate size align))).Avoids shun ctx σ
        fun _ _ => True :=
      leads_attempt (Leads.imp (leads_asThread (avoids_allocate hk hw size align))
        (fun _ _ h => h) fun _ h _ => ⟨h, trivial⟩)
    refine hone.bind fun _ τ hτ _ => ?_
    exact (ih (hτ.known hk) (Nat.lt_of_lt_of_le hl hτ.arenas) (hτ.arena hl ha)).bind
      fun _ _ _ _ => avoids_pure trivial

end Allocator

/-! ### Lists of arguments -/

/-- What is left of the list lies in its scope. -/
def VariadicList.IsHome (v : VariadicList) : Prop :=
  ∀ c, v.cursor = some c → c.remaining.scope = v.scope

namespace VariadicBuilder

variable {c : Convention} {a : ArenaId}

theorem avoids_writeSlot (ha : ¬ shun (σ.arena a).scope)
    (hk : ∀ s, shun s → s ≠ 0 ∧ s < σ.scopes.length) (slot : Region) (arg : Argument) :
    (writeSlot c a slot arg).Avoids shun ctx σ fun _ _ => True := by
  unfold writeSlot
  split
  next => exact Region.avoids_set
  next => exact Region.avoids_set
  next => exact Region.avoids_set
  next => exact Region.avoids_setAddress
  next src _ =>
    refine (avoids_require _).bind fun found τ _ hτ => ?_
    subst hτ
    split
    next =>
      have hw : ∀ s ∈ (Allocator.arena a).commands τ, ¬ shun s := fun s hs =>
        List.mem_singleton.mp hs ▸ ha
      refine (Allocator.avoids_allocate hk hw _ _).bind fun copy ρ _ _ => ?_
      exact Region.avoids_copyFrom.bind fun _ _ _ _ => Region.avoids_setAddress
    next => exact Region.avoids_slice.bind fun _ _ _ _ => Region.avoids_copyFrom

theorem avoids_writeSlots (hl : a < σ.arenas.length) (ha : ¬ shun (σ.arena a).scope)
    (hk : ∀ s, shun s → s ≠ 0 ∧ s < σ.scopes.length) (buffer : Region) (index : Nat)
    (args : List Argument) :
    (writeSlots c a buffer index args).Avoids shun ctx σ fun _ _ => True := by
  induction args generalizing σ index with
  | nil => exact avoids_pure trivial
  | cons arg args ih =>
    refine Region.avoids_slice.bind fun slot τ _ hτ => ?_
    rw [hτ.2]
    refine (avoids_writeSlot ha hk slot arg).bind fun _ ρ hρ _ => ?_
    exact ih (Nat.lt_of_lt_of_le hl hρ.arenas) (hρ.arena hl ha) (hρ.known hk) (index + 1)

/-- A list that is built lies in memory of its scope. -/
theorem avoids_build {b : VariadicBuilder} (hb : ¬ shun b.scope)
    (hk : ∀ s, shun s → s ≠ 0 ∧ s < σ.scopes.length) :
    b.build.Avoids shun ctx σ fun v _ => (v.scope = 0 ∨ v.scope = b.scope) ∧ v.IsHome := by
  unfold build
  split
  next => exact avoids_pure ⟨Or.inl rfl, fun c hc => nomatch hc⟩
  next =>
    dsimp only
    split
    next => exact avoids_throw _
    next size _ =>
      refine (ArenaId.avoids_create _ _ _).bind fun a τ hτ h => ?_
      obtain ⟨hl, hs, hnone⟩ := h
      have ha : ¬ shun (τ.arena a).scope := hs ▸ hb
      have hhome : (τ.arena a).IsHome := fun f hf => by
        rw [hnone] at hf
        cases hf
      refine (ArenaId.avoids_allocate a ha size _).bind fun buffer ρ hρ hbuffer => ?_
      refine (avoids_writeSlots (Nat.lt_of_lt_of_le hl hρ.arenas) (hρ.arena hl ha)
        (hρ.known (hτ.known hk)) buffer 0 b.arguments).bind fun _ _ _ _ => ?_
      refine avoids_pure ⟨Or.inr rfl, fun c hc => ?_⟩
      cases hc
      exact (hbuffer hhome).trans hs

end VariadicBuilder

namespace VariadicList

variable {v : VariadicList}

theorem avoids_make {s : ScopeId} (hs : ¬ shun s) (hk : ∀ s, shun s → s ≠ 0 ∧ s < σ.scopes.length)
    (c : Convention) (args : List (Layout × ArgumentValue)) :
    (VariadicList.make c s args).Avoids shun ctx σ
      fun v _ => (v.scope = 0 ∨ v.scope = s) ∧ v.IsHome := by
  have hpush : ∀ (b : VariadicBuilder) (τ : Store),
      (args.foldlM (fun b arg => b.push arg.1 arg.2) b : Operation VariadicBuilder).Avoids shun
        ctx τ fun b' _ => b'.scope = b.scope := fun b τ =>
    avoids_of_same ((VariadicBuilder.leads_pushes args b).imp
      (fun _ _ h => ⟨by rw [h.2.1], h.1⟩) fun _ h => h)
  have hcreate : (VariadicBuilder.create c s).Avoids shun ctx σ fun b _ => b.scope = s := by
    refine avoids_of_same ((VariadicBuilder.leads_create c s).imp (fun b τ h => ?_) fun _ h => h)
    exact ⟨congrArg VariadicBuilder.scope h.2.1, h.2.2⟩
  refine hcreate.bind fun b τ hτ hb => (hpush b τ).bind fun b' ρ hρ hb' => ?_
  have hs' : b'.scope = s := hb'.trans hb
  rw [← hs']
  exact VariadicBuilder.avoids_build (hs' ▸ hs) (hρ.known (hτ.known hk))

theorem avoids_readSegment {w : Allocator} (hk : ∀ s, shun s → s ≠ 0 ∧ s < σ.scopes.length)
    (hw : ∀ s ∈ w.commands σ, ¬ shun s) (l : Layout) :
    (v.readSegment l w).Avoids shun ctx σ fun p _ => v.Advanced p.2 := by
  have hread : (v.readSegment l w).Leads ctx σ (fun p τ => σ.Avoids shun τ ∧ v.Advanced p.2)
      (σ.Avoids shun) := by
    refine leads_readSlot (P := fun (_ : Region) τ => σ.Avoids shun τ) (.refl σ)
      (fun c hc hsp => ?_) fun _ _ h => h
    refine (leads_structSource l c _).chain (fun τ h => h ▸ Store.Avoids.refl τ) fun src τ h => ?_
    subst h
    refine (Leads.imp (Allocator.avoids_allocate hk hw l.size l.align) (fun _ _ h => h)
      fun _ h => h).bind fun copy ρ h => ?_
    have hcopy : (copy.copyFrom src).Avoids shun ctx ρ fun _ _ => True := Region.avoids_copyFrom
    exact hcopy.chain (fun _ hq => h.1.trans hq) fun _ _ h' => leads_pure (h.1.trans h'.1)
  exact hread

end VariadicList
end ScopedMemory
