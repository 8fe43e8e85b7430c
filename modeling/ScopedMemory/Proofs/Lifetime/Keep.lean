import ScopedMemory.Proofs.Variadic.Builder
import ScopedMemory.Session.Allocations

namespace ScopedMemory

/-- The scope without its blocks. -/
def Scope.bare (sc : Scope) : Scope := { sc with blocks := [] }

namespace Store

variable {σ τ ρ : Store}

/-- The events tell of blocks that are placed, and scopes hold these. -/
def Placed (σ : Store) (news : List HeapEvent) : Prop :=
  ∀ e ∈ news, ∃ pool b s, e = .placed pool b ∧ b ∈ (σ.scope s).blocks

theorem placed_nil (σ : Store) : σ.Placed [] := fun _ he => nomatch he

/-- Scopes and arenas may have been added. The scopes that there were have at most more blocks, no
block was freed, and nothing was left for the end of a scope or run at it. -/
structure Keeps (σ τ : Store) : Prop where
  scopes : σ.scopes.length ≤ τ.scopes.length
  arenas : σ.arenas.length ≤ τ.arenas.length
  journal : τ.journal = σ.journal
  tickets : τ.tickets = σ.tickets
  old : ∀ s < σ.scopes.length, (τ.scope s).bare = (σ.scope s).bare
  new : ∀ s, σ.scopes.length ≤ s → s < τ.scopes.length →
    ∃ kind creator, kind ≠ .global ∧ (τ.scope s).bare = ⟨kind, creator, .live 0, [], []⟩
  arenaScope : ∀ a < σ.arenas.length, (τ.arena a).scope = (σ.arena a).scope
  held : ∀ s, ∀ b ∈ (σ.scope s).blocks, b ∈ (τ.scope s).blocks
  placed : ∃ news, τ.events = news ++ σ.events ∧ τ.Placed news

theorem Keeps.refl (σ : Store) : σ.Keeps σ where
  scopes := Nat.le_refl _
  arenas := Nat.le_refl _
  journal := rfl
  tickets := rfl
  old _ _ := rfl
  new _ h h' := absurd h' (Nat.not_lt.mpr h)
  arenaScope _ _ := rfl
  held _ _ hb := hb
  placed := ⟨[], rfl, placed_nil _⟩

theorem Keeps.trans (h : σ.Keeps τ) (h' : τ.Keeps ρ) : σ.Keeps ρ where
  scopes := Nat.le_trans h.scopes h'.scopes
  arenas := Nat.le_trans h.arenas h'.arenas
  journal := h'.journal.trans h.journal
  tickets := h'.tickets.trans h.tickets
  old s hs := (h'.old s (Nat.lt_of_lt_of_le hs h.scopes)).trans (h.old s hs)
  new s hs hs' := by
    by_cases hm : s < τ.scopes.length
    · rw [h'.old s hm]
      exact h.new s hs hm
    · exact h'.new s (Nat.le_of_not_lt hm) hs'
  arenaScope a ha := by
    rw [h'.arenaScope a (Nat.lt_of_lt_of_le ha h.arenas), h.arenaScope a ha]
  held s b hb := h'.held s b (h.held s b hb)
  placed := by
    obtain ⟨news, he, hn⟩ := h.placed
    obtain ⟨news', he', hn'⟩ := h'.placed
    refine ⟨news' ++ news, by rw [he', he, List.append_assoc], fun e hm => ?_⟩
    rcases List.mem_append.mp hm with hm | hm
    · exact hn' e hm
    · obtain ⟨pool, b, s, rfl, hb⟩ := hn e hm
      exact ⟨pool, b, s, rfl, h'.held s b hb⟩

/-- The states of the scopes that there were are as they were, and so are their actions. -/
theorem Keeps.lifetime (h : σ.Keeps τ) {s : ScopeId} (hs : s < σ.scopes.length) :
    (τ.scope s).lifetime = (σ.scope s).lifetime := by
  show (τ.scope s).bare.lifetime = (σ.scope s).bare.lifetime
  rw [h.old s hs]

theorem Keeps.kind (h : σ.Keeps τ) {s : ScopeId} (hs : s < σ.scopes.length) :
    (τ.scope s).kind = (σ.scope s).kind := by
  show (τ.scope s).bare.kind = (σ.scope s).bare.kind
  rw [h.old s hs]

theorem Keeps.actions (h : σ.Keeps τ) (s : ScopeId) :
    (τ.scope s).actions = (σ.scope s).actions := by
  show (τ.scope s).bare.actions = (σ.scope s).bare.actions
  by_cases hs : s < σ.scopes.length
  · rw [h.old s hs]
  · have hle := Nat.le_of_not_lt hs
    rw [scope_of_length_le hle]
    by_cases hs' : s < τ.scopes.length
    · obtain ⟨_, _, _, hb⟩ := h.new s hle hs'
      rw [hb]
      rfl
    · rw [scope_of_length_le (Nat.le_of_not_lt hs')]

theorem Keeps.isAlive_iff (h : σ.Keeps τ) {s : ScopeId} (hs : s < σ.scopes.length) :
    τ.IsAlive s ↔ σ.IsAlive s := by
  unfold IsAlive Scope.isAlive
  rw [h.lifetime hs]

theorem Keeps.isAlive (h : σ.Keeps τ) {s : ScopeId} (ha : σ.IsAlive s) : τ.IsAlive s :=
  (h.isAlive_iff (lt_length_of_isAlive ha)).mpr ha

theorem Keeps.holds (h : σ.Keeps τ) {s : ScopeId} (hs : σ.Holds s) : τ.Holds s := by
  refine ⟨Nat.lt_of_lt_of_le hs.1 h.scopes, ?_⟩
  rw [h.lifetime hs.1]
  exact hs.2

theorem keeps_addScope (σ : Store) {kind : ScopeKind} (hk : kind ≠ .global) (t : Thread) :
    σ.Keeps (σ.addScope kind t) where
  scopes := by simp
  arenas := Nat.le_refl _
  journal := rfl
  tickets := rfl
  old s hs := by rw [scope_addScope, if_neg (Nat.ne_of_lt hs)]
  new s hs hs' := by
    rw [length_scopes_addScope] at hs'
    have he : s = σ.scopes.length := by omega
    rw [scope_addScope, if_pos he]
    exact ⟨kind, t, hk, rfl⟩
  arenaScope _ _ := rfl
  held s b hb := by
    rw [scope_addScope]
    split
    next he =>
      rw [he, scope_of_length_le (Nat.le_refl _)] at hb
      cases hb
    next => exact hb
  placed := ⟨[], rfl, placed_nil _⟩

theorem keeps_addArena (σ : Store) (ar : Arena) : σ.Keeps (σ.addArena ar) where
  scopes := Nat.le_refl _
  arenas := by simp
  journal := rfl
  tickets := rfl
  old _ _ := rfl
  new _ hs hs' := absurd hs' (Nat.not_lt.mpr hs)
  arenaScope a ha := by rw [arena_addArena, if_neg (Nat.ne_of_lt ha)]
  held _ _ hb := hb
  placed := ⟨[], rfl, placed_nil _⟩

theorem keeps_modifyArena (σ : Store) (a : ArenaId) {f : Arena → Arena}
    (hf : ∀ ar, (f ar).scope = ar.scope) : σ.Keeps (σ.modifyArena a f) where
  scopes := Nat.le_refl _
  arenas := by simp
  journal := rfl
  tickets := rfl
  old _ _ := rfl
  new _ hs hs' := absurd hs' (Nat.not_lt.mpr hs)
  arenaScope b _ := by
    rw [arena_modifyArena]
    split
    next h => rw [hf, h.1]
    next => rfl
  held _ _ hb := hb
  placed := ⟨[], rfl, placed_nil _⟩

theorem keeps_setMemory (σ : Store) (m : Memory) : σ.Keeps (σ.setMemory m) where
  scopes := Nat.le_refl _
  arenas := Nat.le_refl _
  journal := rfl
  tickets := rfl
  old _ _ := rfl
  new _ hs hs' := absurd hs' (Nat.not_lt.mpr hs)
  arenaScope _ _ := rfl
  held _ _ hb := hb
  placed := ⟨[], rfl, placed_nil _⟩

theorem keeps_addBlock {s : ScopeId} (hs : s < σ.scopes.length) (b : Block) :
    σ.Keeps (σ.addBlock s b) where
  scopes := by simp
  arenas := Nat.le_refl _
  journal := rfl
  tickets := rfl
  old t _ := by
    rw [scope_addBlock]
    split
    next h =>
      rw [h.1]
      rfl
    next => rfl
  new t ht ht' := by
    rw [length_scopes_addBlock] at ht'
    exact absurd ht' (Nat.not_lt.mpr ht)
  arenaScope _ _ := rfl
  held t c hc := by
    rw [scope_addBlock]
    split
    next h => exact List.mem_cons_of_mem _ (h.1 ▸ hc)
    next => exact hc
  placed := by
    refine ⟨[.placed (σ.poolOf s) b], rfl, fun e he => ?_⟩
    refine ⟨_, b, s, List.mem_singleton.mp he, ?_⟩
    rw [scope_addBlock, if_pos ⟨rfl, hs⟩]
    exact List.mem_cons_self

end Store

namespace Operation

variable {α β : Type} {x : Operation α} {f : α → Operation β} {ctx : Context} {σ : Store}
  {P P' : α → Store → Prop} {R : β → Store → Prop}

/-- However the operation ends, it keeps the store as it was in the sense of `Store.Keeps`. If it
succeeds, `P` holds as well. -/
def Keeps (x : Operation α) (ctx : Context) (σ : Store) (P : α → Store → Prop) : Prop :=
  x.Leads ctx σ (fun a τ => σ.Keeps τ ∧ P a τ) σ.Keeps

theorem Keeps.bind (hx : x.Keeps ctx σ P) (hf : ∀ a τ, P a τ → (f a).Keeps ctx τ R) :
    (x >>= f).Keeps ctx σ R := by
  refine Leads.bind hx fun a τ h => ?_
  obtain ⟨hk, hp⟩ := h
  exact (hf a τ hp).imp (fun b ρ h => ⟨hk.trans h.1, h.2⟩) fun ρ h => hk.trans h

theorem Keeps.imp (hx : x.Keeps ctx σ P) (h : ∀ a τ, P a τ → P' a τ) : x.Keeps ctx σ P' :=
  Leads.imp hx (fun a τ hp => ⟨hp.1, h a τ hp.2⟩) fun _ hq => hq

theorem keeps_pure {a : α} (h : P a σ) : (pure a : Operation α).Keeps ctx σ P :=
  leads_pure ⟨.refl σ, h⟩

theorem keeps_throw (e : MemoryError) : (throw e : Operation α).Keeps ctx σ P :=
  leads_throw (.refl σ)

/-- An operation that leaves the store alone. -/
theorem keeps_of_same (h : x.Leads ctx σ (fun a τ => P a τ ∧ τ = σ) (· = σ)) :
    x.Keeps ctx σ P := by
  refine h.imp (fun a τ hp => ?_) fun τ hq => ?_
  · rw [hp.2]
    exact ⟨.refl σ, hp.2 ▸ hp.1⟩
  · rw [hq]
    exact .refl σ

/-- An operation that writes to memory and does no more, or fails and leaves the store alone. -/
theorem keeps_of_memory (h : x.Leads ctx σ (fun a τ => P a τ ∧ ∃ m, τ = σ.setMemory m) (· = σ)) :
    x.Keeps ctx σ P := by
  refine h.imp (fun a τ hp => ?_) fun τ hq => ?_
  · obtain ⟨hp, m, rfl⟩ := hp
    exact ⟨Store.keeps_setMemory σ m, hp⟩
  · rw [hq]
    exact .refl σ

theorem keeps_require (c : Except MemoryError α) :
    (require c).Keeps ctx σ fun a τ => c = .ok a ∧ τ = σ :=
  leads_require (fun _ h => ⟨.refl σ, h, rfl⟩) (.refl σ)

theorem keeps_checkUsable (s : ScopeId) :
    (checkUsable s).Keeps ctx σ fun _ τ => σ.IsAlive s ∧ τ = σ :=
  leads_checkUsable (fun h => ⟨.refl σ, Store.isAlive_of_checkUsable h, rfl⟩) (.refl σ)

theorem keeps_get : (get : Operation Store).Keeps ctx σ fun ρ τ => ρ = σ ∧ τ = σ :=
  leads_get ⟨.refl σ, rfl, rfl⟩

theorem keeps_modify {g : Store → Store} (h : σ.Keeps (g σ)) :
    (modify g : Operation PUnit).Keeps ctx σ fun _ τ => τ = g σ :=
  leads_modify ⟨h, rfl⟩

theorem keeps_attempt {P : α → Store → Prop} (h : x.Keeps ctx σ P) :
    (attempt x).Keeps ctx σ fun _ _ => True :=
  leads_attempt (Leads.imp h (fun _ _ hp => ⟨hp.1, trivial⟩) fun _ hq _ => ⟨hq, trivial⟩)

end Operation

open Operation

variable {ctx : Context} {σ : Store}

/-- An allocation: it keeps the store, and hands out a region of a scope that is alive. -/
abbrev Operation.Provides (x : Operation Region) (ctx : Context) (σ : Store) : Prop :=
  x.Keeps ctx σ fun r τ => τ.IsAlive r.scope

/-! ### Regions -/

namespace Region

variable {r src : Region} {offset length : Word} {l : Layout}

theorem keeps_slice : (r.slice offset length).Provides ctx σ := by
  refine keeps_of_same (leads_slice.imp (fun r' τ h => ?_) fun _ h => h)
  obtain ⟨ha, rfl, rfl⟩ := h
  exact ⟨(Store.checkUsable_eq_ok_iff.mp (Store.checkAccess_eq_ok_iff.mp ha).1).2, rfl⟩

theorem keeps_set {x : Scalar} : (r.set l offset x).Keeps ctx σ fun _ _ => True :=
  keeps_of_memory (leads_set.imp (fun _ _ h => ⟨trivial, _, h.2.2⟩) fun _ h => h)

theorem keeps_setAddress {a : Word} : (r.setAddress l offset a).Keeps ctx σ fun _ _ => True := by
  refine keeps_of_memory (leads_setAddress.imp (fun _ _ h => ?_) fun _ h => h)
  obtain ⟨_, _, _, hτ⟩ := h
  exact ⟨trivial, _, hτ⟩

theorem keeps_copyFrom : (r.copyFrom src).Keeps ctx σ fun _ τ => ∃ m, τ = σ.setMemory m :=
  keeps_of_memory (leads_copyFrom.imp (fun _ _ h => ⟨⟨_, h.2.2⟩, _, h.2.2⟩) fun _ h => h)

theorem keeps_contents : r.contents.Keeps ctx σ fun _ τ => τ = σ :=
  keeps_of_same (leads_contents.imp (fun _ _ h => ⟨h.2, h.2⟩) fun _ h => h)

end Region

/-! ### Allocations -/

theorem ScopeId.provides_allocateNative (s : ScopeId) (size align : Word) :
    (ScopeId.allocateNative s size align).Keeps ctx σ fun r τ => r.scope = s ∧ τ.IsAlive s := by
  refine (leads_allocateNative s size align).imp (fun r τ h => ?_) fun τ h => h ▸ .refl σ
  obtain ⟨hu, _, _, hr, rfl⟩ := h
  have ha := Store.isAlive_of_checkUsable hu
  have hk := Store.keeps_addBlock (Store.lt_length_of_isAlive ha) ⟨r.start, size⟩
  exact ⟨hk, congrArg Region.scope hr, hk.isAlive ha⟩

theorem ScopeId.keeps_create (kind : ScopeKind) :
    (ScopeId.create kind).Keeps ctx σ fun s τ => s = 0 ∨ τ.IsAlive s := by
  refine (leads_create kind).imp (fun s τ h => ?_) fun _ h => h.elim
  rcases h with ⟨_, rfl, rfl⟩ | ⟨hk, rfl, rfl⟩
  · exact ⟨.refl _, Or.inl rfl⟩
  · refine ⟨Store.keeps_addScope _ hk _, Or.inr ?_⟩
    rw [Store.IsAlive, Store.scope_addScope, if_pos rfl]
    rfl

namespace ArenaId

variable (a : ArenaId)

theorem keeps_create (capacity : ArenaCapacity) (config : ArenaConfig) (s : ScopeId) :
    (ArenaId.create capacity config s).Keeps ctx σ
      fun a τ => a < τ.arenas.length ∧ τ.IsAlive (τ.arena a).scope := by
  refine (leads_create capacity config s).imp (fun a τ h => ?_) fun τ h => h ▸ .refl σ
  obtain ⟨_, hu, rfl, rfl⟩ := h
  refine ⟨Store.keeps_addArena σ _, by simp, ?_⟩
  rw [Store.arena_addArena, if_pos rfl]
  exact Store.isAlive_of_checkUsable hu

theorem provides_carve (f : Frontier) (start size : Word) :
    (a.carve f start size).Provides ctx σ := by
  refine Region.keeps_slice.bind fun r τ hr => ?_
  refine (keeps_modify (Store.keeps_modifyArena τ a fun _ => by rfl)).bind fun _ ρ h => ?_
  subst h
  exact keeps_pure hr

theorem provides_fit (f : Frontier) (size align : Word) (fault : MemoryError) :
    (match f.fit? size align with
      | some start => a.carve f start size
      | none => throw fault : Operation Region).Provides ctx σ := by
  split
  next => exact provides_carve a f _ size
  next => exact keeps_throw _

theorem keeps_install (block : Region) : (a.install block).Keeps ctx σ fun _ _ => True :=
  (keeps_modify (Store.keeps_modifyArena σ a fun _ => by rfl)).bind fun _ _ _ => keeps_pure trivial

theorem provides_allocateBounded (ar : Arena) (bytes size align : Word) :
    (a.allocateBounded ar bytes size align).Provides ctx σ := by
  unfold allocateBounded
  cases ar.frontier with
  | some f => exact provides_fit a f size align _
  | none =>
    refine (ScopeId.provides_allocateNative _ _ _).bind fun r τ _ => ?_
    exact (keeps_install a r).bind fun f ρ _ => provides_fit a f size align _

theorem provides_allocateUnbounded (ar : Arena) (blockSize size align : Word) :
    (a.allocateUnbounded ar blockSize size align).Provides ctx σ := by
  unfold allocateUnbounded
  split
  next => exact provides_carve a _ _ size
  next =>
    split
    next =>
      refine (ScopeId.provides_allocateNative _ _ _).bind fun r τ hr => ?_
      refine (keeps_modify (Store.keeps_modifyArena τ a fun _ => by rfl)).bind fun _ ρ h => ?_
      subst h
      exact keeps_pure (hr.1.symm ▸ hr.2)
    next =>
      refine (ScopeId.provides_allocateNative _ _ _).bind fun r τ _ => ?_
      exact (keeps_install a r).bind fun f ρ _ => provides_fit a f size align _

theorem provides_counting {x : Operation Region} (h : x.Provides ctx σ) :
    (a.counting x).Provides ctx σ := by
  unfold Operation.Provides Operation.Keeps Leads run counting at *
  cases hr : x ctx σ with
  | ok r τ =>
    rw [hr] at h
    exact h
  | error e τ =>
    rw [hr] at h
    exact h.trans (Store.keeps_modifyArena τ a fun _ => rfl)

theorem provides_allocate (size align : Word) : (a.allocate size align).Provides ctx σ := by
  refine (keeps_require _).bind fun _ τ h => ?_
  refine keeps_get.bind fun _ ρ h' => ?_
  refine (keeps_checkUsable _).bind fun _ ρ' _ => ?_
  apply provides_counting
  split
  next => exact provides_allocateBounded a _ _ size align
  next => exact provides_allocateUnbounded a _ _ size align

end ArenaId

namespace Allocator

variable (w : Allocator)

theorem provides_allocate (size align : Word) : (w.allocate size align).Provides ctx σ := by
  have hnative : ∀ s (τ : Store), (ScopeId.allocateNative s size align).Provides ctx τ :=
    fun s τ => (ScopeId.provides_allocateNative s size align).imp fun r _ h => h.1.symm ▸ h.2
  cases w with
  | direct s => exact (keeps_require _).bind fun _ τ _ => hnative s τ
  | perRequest kind =>
    refine (keeps_require _).bind fun _ τ _ => ?_
    exact (ScopeId.keeps_create _).bind fun s ρ _ => hnative s ρ
  | arena a => exact ArenaId.provides_allocate a size align
  | recycling r =>
    simp only [allocate]
    split
    next => exact keeps_throw _
    next => exact Region.keeps_slice

theorem provides_serve (q : AllocationRequest) : (w.serve q).Provides ctx σ :=
  leads_serve_of_allocate (.refl σ) (fun _ _ h => h.1)
    (fun _ τ m h => ⟨h.1.trans (Store.keeps_setMemory τ m), h.2⟩)
    fun size align _ => provides_allocate w size align

theorem keeps_allocateEach (size align : Word) (threads : List Thread) :
    (w.allocateEach size align threads).Keeps ctx σ fun _ _ => True := by
  unfold allocateEach
  induction threads generalizing σ with
  | nil => exact keeps_pure trivial
  | cons t threads ih =>
    rw [List.mapM_cons]
    have hone : (Operation.attempt (Operation.asThread t (w.allocate size align))).Keeps ctx σ
        fun _ _ => True := by
      refine keeps_attempt (P := fun r τ => τ.IsAlive r.scope) ?_
      exact leads_asThread (provides_allocate w size align)
    exact hone.bind fun _ _ _ => ih.bind fun _ _ _ => keeps_pure trivial

end Allocator

/-! ### Lists of arguments -/

namespace VariadicBuilder

variable {c : Convention} {a : ArenaId}

theorem keeps_writeSlot (slot : Region) (arg : Argument) :
    (writeSlot c a slot arg).Keeps ctx σ fun _ _ => True := by
  unfold writeSlot
  split
  next => exact Region.keeps_set
  next => exact Region.keeps_set
  next => exact Region.keeps_set
  next => exact Region.keeps_setAddress
  next src _ =>
    refine (keeps_require _).bind fun found τ _ => ?_
    split
    next =>
      refine (Allocator.provides_allocate _ _ _).bind fun copy τ _ => ?_
      exact Region.keeps_copyFrom.bind fun _ ρ _ => Region.keeps_setAddress
    next =>
      refine Region.keeps_slice.bind fun slot' τ _ => ?_
      exact Region.keeps_copyFrom.imp fun _ _ _ => trivial

theorem keeps_writeSlots (buffer : Region) (index : Nat) (args : List Argument) :
    (writeSlots c a buffer index args).Keeps ctx σ fun _ _ => True := by
  induction args generalizing σ index with
  | nil => exact keeps_pure trivial
  | cons arg args ih =>
    refine Region.keeps_slice.bind fun slot τ _ => ?_
    exact (keeps_writeSlot slot arg).bind fun _ _ _ => ih (index + 1)

theorem keeps_build (b : VariadicBuilder) :
    b.build.Keeps ctx σ fun v _ => v.scope = 0 ∨ v.scope = b.scope := by
  unfold build
  split
  next => exact keeps_pure (Or.inl rfl)
  next =>
    dsimp only
    split
    next => exact keeps_throw _
    next size _ =>
      refine (ArenaId.keeps_create _ _ _).bind fun a τ _ => ?_
      refine (ArenaId.provides_allocate a size b.convention.slotSize).bind fun buffer ρ _ => ?_
      exact (keeps_writeSlots buffer 0 b.arguments).bind fun _ _ _ => keeps_pure (Or.inr rfl)

end VariadicBuilder

namespace VariadicList

variable {v : VariadicList}

theorem keeps_make (c : Convention) (s : ScopeId) (args : List (Layout × ArgumentValue)) :
    (VariadicList.make c s args).Keeps ctx σ fun v _ => v.scope = 0 ∨ v.scope = s := by
  have hpush : ∀ (b : VariadicBuilder) (τ : Store),
      (args.foldlM (fun b arg => b.push arg.1 arg.2) b : Operation VariadicBuilder).Keeps ctx τ
        fun b' _ => b'.scope = b.scope := fun b τ =>
    keeps_of_same ((VariadicBuilder.leads_pushes args b).imp
      (fun _ _ h => ⟨by rw [h.2.1], h.1⟩) fun _ h => h)
  have hcreate : (VariadicBuilder.create c s).Keeps ctx σ fun b _ => b.scope = s := by
    refine keeps_of_same ((VariadicBuilder.leads_create c s).imp (fun b τ h => ?_) fun _ h => h)
    exact ⟨congrArg VariadicBuilder.scope h.2.1, h.2.2⟩
  refine hcreate.bind fun b τ hb => ?_
  refine (hpush b τ).bind fun b' ρ hb' => ?_
  exact (VariadicBuilder.keeps_build b').imp fun v _ hv => hv.imp id fun h => h.trans (hb'.trans hb)

theorem keeps_readSegment (l : Layout) (w : Allocator) :
    (v.readSegment l w).Keeps ctx σ fun p τ => τ.IsAlive p.1.scope ∧ p.2.scope = v.scope := by
  have hread : (v.readSegment l w).Leads ctx σ
      (fun p τ => (σ.Keeps τ ∧ τ.IsAlive p.1.scope) ∧ v.Advanced p.2) σ.Keeps := by
    refine leads_readSlot (P := fun (r : Region) τ => σ.Keeps τ ∧ τ.IsAlive r.scope) (.refl σ)
      (fun c hc hsp => ?_) fun _ _ h => h.1
    refine (leads_structSource l c _).chain (fun _ h => h ▸ .refl σ) fun src τ h => ?_
    subst h
    refine (Allocator.provides_allocate w l.size l.align).bind fun copy ρ hr => ?_
    refine Region.keeps_copyFrom.bind fun _ τ h => ?_
    obtain ⟨m, rfl⟩ := h
    exact keeps_pure hr
  refine hread.imp (fun p τ h => ?_) fun _ h => h
  obtain ⟨⟨hk, hr⟩, c, _, _, _, _, hv⟩ := h
  refine ⟨hk, hr, ?_⟩
  rw [hv]

end VariadicList
end ScopedMemory
