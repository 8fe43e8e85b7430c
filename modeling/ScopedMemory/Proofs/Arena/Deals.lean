import ScopedMemory.Proofs.Variadic.Builder

namespace ScopedMemory

open Operation

/-- A request that was served, and what it was served by. -/
structure Supply where
  source : Allocator
  size : Word

/-- A block that was obtained from the system, and what for. -/
structure Purchase where
  buyer : Allocator
  block : Block

/-- How large the blocks are that requests are carved from. -/
def ArenaCapacity.blockSize : ArenaCapacity → Word
  | bounded n => n
  | unbounded n => n

variable {system : SystemAllocator} {strict : Prop} {waiting : List Block} {ctx : Context}
  {σ τ ρ : Store} {a : ArenaId} {w : Allocator} {ss ss' : List Supply} {ps ps' : List Purchase}

namespace Store

/-- One thing that an allocation can do, with all that goes into the counters of the arena. The
lists tell what is served by it and what is obtained for it. -/
inductive Deal (system : SystemAllocator) :
    Store → List Supply → List Purchase → Store → Prop
  | scope (σ : Store) (kind : ScopeKind) (t : Thread) : Deal system σ [] [] (σ.addScope kind t)
  | arena {σ s capacity align} (hs : σ.IsAlive s) :
      Deal system σ [] [] (σ.addArena ⟨s, capacity, align, none, {}⟩)
  | memory (σ : Store) (m : Memory) : Deal system σ [] [] (σ.setMemory m)
  | failed {σ : Store} {a : ArenaId} (hl : a < σ.arenas.length) :
      Deal system σ [] [] (σ.modifyArena a fun ar => { ar with stats := ar.stats.addFailed })
  | direct {σ s base size align} (hs : σ.IsAlive s) (ha : Word.IsPowerOfTwo align)
      (hb : system.place σ.events (σ.poolOf s) size align = some base) :
      Deal system σ [⟨.direct s, size⟩] [⟨.direct s, ⟨base, size⟩⟩] (σ.addBlock s ⟨base, size⟩)
  | carve {σ a f start size} (hl : a < σ.arenas.length) (hf : (σ.arena a).frontier = some f)
      (hc : f.cursor.toNat ≤ start.toNat) (hp : f.block.Spans start size) :
      Deal system σ [⟨.arena a, size⟩] [] (σ.modifyArena a fun ar =>
        { ar with
          frontier := some { f with cursor := start + size }
          stats := ar.stats.addServed size })
  /-- A bounded arena does so once. -/
  | install {σ a base size align} (hl : a < σ.arenas.length) (hs : σ.IsAlive (σ.arena a).scope)
      (ha : Word.IsPowerOfTwo align)
      (hb : system.place σ.events (σ.poolOf (σ.arena a).scope) size align = some base)
      (hfirst : (σ.arena a).IsBounded → (σ.arena a).frontier = none)
      (hsize : size = (σ.arena a).capacity.blockSize) :
      Deal system σ [] [⟨.arena a, ⟨base, size⟩⟩]
        ((σ.addBlock (σ.arena a).scope ⟨base, size⟩).modifyArena a fun ar =>
          { ar with
            frontier := some ⟨⟨base, size, (σ.arena a).scope⟩, 0⟩
            stats := ar.stats.addBlock size })
  | dedicated {σ a base size align n} (hl : a < σ.arenas.length)
      (hs : σ.IsAlive (σ.arena a).scope) (ha : Word.IsPowerOfTwo align)
      (hb : system.place σ.events (σ.poolOf (σ.arena a).scope) size align = some base)
      (hn : (σ.arena a).capacity = .unbounded n) (hlarge : n < size) :
      Deal system σ [⟨.arena a, size⟩] [⟨.arena a, ⟨base, size⟩⟩]
        ((σ.addBlock (σ.arena a).scope ⟨base, size⟩).modifyArena a fun ar =>
          { ar with stats := ar.stats.addDedicated size })

/-- Deals one after another, with the newest in front. -/
inductive Deals (system : SystemAllocator) (σ : Store) :
    List Supply → List Purchase → Store → Prop
  | refl : Deals system σ [] [] σ
  | deal {ss ss' : List Supply} {ps ps' : List Purchase} {τ ρ : Store}
      (h : Deals system σ ss ps τ) (hd : Deal system τ ss' ps' ρ) :
      Deals system σ (ss' ++ ss) (ps' ++ ps) ρ

theorem Deal.deals (h : Deal system σ ss ps τ) : Deals system σ ss ps τ := by
  have hd := Deals.refl.deal h
  rwa [List.append_nil, List.append_nil] at hd

theorem Deals.trans (h : Deals system σ ss ps τ) (h' : Deals system τ ss' ps' ρ) :
    Deals system σ (ss' ++ ss) (ps' ++ ps) ρ := by
  induction h' with
  | refl => exact h
  | deal _ hd ih =>
    rw [List.append_assoc, List.append_assoc]
    exact ih.deal hd

theorem Deal.changes (h : Deal system σ ss ps τ) : ∃ rs, Changes system True σ rs τ := by
  cases h with
  | scope kind t => exact ⟨_, (Change.scope σ kind t).changes⟩
  | arena hs => exact ⟨_, (Change.arena hs rfl).changes⟩
  | memory m => exact ⟨_, Changes.refl.memory trivial m⟩
  | @failed a => exact ⟨_, (Change.stats σ a (·.addFailed)).changes⟩
  | direct hs ha hb => exact ⟨_, (Change.block hs ha hb).changes⟩
  | carve hl hf hc hp => exact ⟨_, (Change.carve hl hf hc hp).changes⟩
  | install hl hs ha hb => exact ⟨_, (Change.install hl hs ha hb).changes⟩
  | @dedicated a _ size _ _ _ hs ha hb =>
    exact ⟨_, (Change.block hs ha hb).changes.after
      (Change.stats _ a (·.addDedicated size)).changes⟩

theorem Deals.extends (h : Deals system σ ss ps τ) : σ.Extends τ := by
  induction h with
  | refl => exact .refl σ
  | deal _ hd ih =>
    obtain ⟨_, hc⟩ := hd.changes
    exact ih.trans hc.extends

theorem Deals.sound (h : Deals system σ ss ps τ) (hs : σ.Sound system strict waiting) :
    τ.Sound system strict waiting := by
  induction h with
  | refl => exact hs
  | deal _ hd ih =>
    obtain ⟨_, hc⟩ := hd.changes
    exact hc.sound ih

end Store

def HeapEvent.placed? : HeapEvent → Option Block
  | placed _ b => some b
  | freed _ => none

namespace Store

/-- The blocks that were placed since, newest first. -/
def obtained (σ τ : Store) : List Block :=
  (τ.events.take (τ.events.length - σ.events.length)).filterMap HeapEvent.placed?

theorem obtained_of_events (news : List HeapEvent) (h : τ.events = news ++ σ.events) :
    σ.obtained τ = news.filterMap HeapEvent.placed? := by
  have hlen : τ.events.length - σ.events.length = news.length := by
    rw [h, List.length_append, Nat.add_sub_cancel]
  unfold obtained
  rw [hlen, h, List.take_left']
  rfl

theorem Deal.events (h : Deal system σ ss ps τ) :
    ∃ news, τ.events = news ++ σ.events ∧ news.filterMap HeapEvent.placed? = ps.map (·.block) := by
  cases h with
  | direct hs ha hb => exact ⟨[_], rfl, rfl⟩
  | install hl hs ha hb => exact ⟨[_], rfl, rfl⟩
  | dedicated hl hs ha hb => exact ⟨[_], rfl, rfl⟩
  | _ => exact ⟨[], rfl, rfl⟩

/-- What was obtained are the blocks that the system placed. -/
theorem Deals.obtained (h : Deals system σ ss ps τ) : σ.obtained τ = ps.map (·.block) := by
  have hevents : ∃ news, τ.events = news ++ σ.events ∧
      news.filterMap HeapEvent.placed? = ps.map (·.block) := by
    induction h with
    | refl => exact ⟨[], rfl, rfl⟩
    | deal _ hd ih =>
      obtain ⟨news, he, hn⟩ := ih
      obtain ⟨news', he', hn'⟩ := hd.events
      refine ⟨news' ++ news, by rw [he', he, List.append_assoc], ?_⟩
      rw [List.filterMap_append, hn, hn', List.map_append]
  obtain ⟨news, he, hn⟩ := hevents
  rw [obtained_of_events _ he, hn]

/-- Deals of which all that is obtained goes to one allocator. -/
def Buys (system : SystemAllocator) (σ : Store) (w : Allocator) (ss : List Supply) (τ : Store) :
    Prop :=
  ∃ ps, (∀ p ∈ ps, p.buyer = w) ∧ Deals system σ ss ps τ

theorem Buys.refl (system : SystemAllocator) (σ : Store) (w : Allocator) :
    Buys system σ w [] σ := ⟨[], fun _ hp => (List.not_mem_nil hp).elim, .refl⟩

theorem Deal.buys (h : Deal system σ ss ps τ) (hp : ∀ p ∈ ps, p.buyer = w) :
    Buys system σ w ss τ := ⟨ps, hp, h.deals⟩

theorem Buys.trans (h : Buys system σ w ss τ) (h' : Buys system τ w ss' ρ) :
    Buys system σ w (ss' ++ ss) ρ := by
  obtain ⟨ps, hp, hd⟩ := h
  obtain ⟨ps', hp', hd'⟩ := h'
  refine ⟨ps' ++ ps, fun p hm => ?_, hd.trans hd'⟩
  rcases List.mem_append.mp hm with hm | hm
  · exact hp' p hm
  · exact hp p hm

theorem Buys.memory (h : Buys system σ w ss τ) (m : Memory) :
    Buys system σ w ss (τ.setMemory m) :=
  h.trans ((Deal.memory τ m).buys fun _ hp => (List.not_mem_nil hp).elim)

theorem Buys.extends (h : Buys system σ w ss τ) : σ.Extends τ := by
  obtain ⟨_, _, hd⟩ := h
  exact hd.extends

end Store

/-! ### What allocations buy -/

namespace ArenaId

theorem buys_carve (hl : a < σ.arenas.length) {f : Frontier} {start size align : Word}
    (hf : (σ.arena a).frontier = some f) (ha : align.IsPowerOfTwo)
    (hfit : f.fit? size align = some start) :
    (a.carve f start size).Leads ctx σ
      (fun _ τ => σ.Buys system (.arena a) [⟨.arena a, size⟩] τ) (· = σ) := by
  obtain ⟨hc, _, _⟩ := Frontier.fit?_spec ha hfit
  refine Region.leads_slice.chain (fun _ h => h) fun r τ h => ?_
  obtain ⟨hac, _, rfl⟩ := h
  have hp := (Store.checkAccess_eq_ok_iff.mp hac).2
  exact (Store.Deal.carve hl hf hc hp).buys fun _ hp => (List.not_mem_nil hp).elim

/-- A request that installs a block first. -/
theorem buys_install (hw : ctx.system.Within system) (hl : a < σ.arenas.length)
    {blockSize blockAlign size align : Word} {fault : Frontier → MemoryError}
    (ha : align.IsPowerOfTwo) (hfirst : (σ.arena a).IsBounded → (σ.arena a).frontier = none)
    (hsize : blockSize = (σ.arena a).capacity.blockSize) :
    (do
      let f ← a.install (← (σ.arena a).scope.allocateNative blockSize blockAlign)
      match f.fit? size align with
      | some start => a.carve f start size
      | none => throw (fault f) : Operation Region).Leads ctx σ
        (fun _ τ => σ.Buys system (.arena a) [⟨.arena a, size⟩] τ)
        (σ.Buys system (.arena a) []) := by
  refine (ScopeId.leads_allocateNative _ _ _).chain (fun _ h => h ▸ .refl _ _ _) fun r τ h => ?_
  obtain ⟨hu, hp, hb, hr, rfl⟩ := h
  have halive := (Store.checkUsable_eq_ok_iff.mp hu).2
  have hd := Store.Deal.install hl halive hp (hw.place hb) hfirst hsize
  rw [← hr] at hd
  have hrs : r.size = blockSize := congrArg Region.size hr
  have hbuys : σ.Buys system (.arena a) []
      ((σ.addBlock (σ.arena a).scope ⟨r.start, blockSize⟩).modifyArena a fun ar =>
        { ar with frontier := some ⟨r, 0⟩, stats := ar.stats.addBlock r.size }) := by
    rw [hrs]
    exact hd.buys fun p hm => by rw [List.mem_singleton.mp hm]
  refine Leads.bind (P := fun f τ => f = ⟨r, 0⟩ ∧ τ = (σ.addBlock (σ.arena a).scope
    ⟨r.start, blockSize⟩).modifyArena a fun ar =>
      { ar with frontier := some ⟨r, 0⟩, stats := ar.stats.addBlock r.size }) ⟨rfl, rfl⟩ ?_
  rintro _ _ ⟨rfl, rfl⟩
  split
  next start hfit =>
    refine (buys_carve ?_ ?_ ha hfit).imp (fun _ _ h => hbuys.trans h) fun _ h => h ▸ hbuys
    · rw [Store.length_arenas_modifyArena]
      exact hl
    · rw [Store.arena_modifyArena, if_pos ⟨rfl, hl⟩]
  next => exact leads_throw hbuys

theorem buys_allocateBounded (hw : ctx.system.Within system) (hl : a < σ.arenas.length)
    {bytes size align : Word} (ha : align.IsPowerOfTwo)
    (hcap : (σ.arena a).capacity = .bounded bytes) :
    (a.allocateBounded (σ.arena a) bytes size align).Leads ctx σ
      (fun _ τ => σ.Buys system (.arena a) [⟨.arena a, size⟩] τ)
      (σ.Buys system (.arena a) []) := by
  unfold allocateBounded
  cases hf : (σ.arena a).frontier with
  | some f =>
    show Leads (match f.fit? size align with | some start => _ | none => _) _ _ _ _
    split
    next start hfit =>
      exact (buys_carve hl hf ha hfit).imp (fun _ _ h => h) fun _ h => h ▸ .refl _ _ _
    next => exact leads_throw (.refl _ _ _)
  | none =>
    refine buys_install hw hl ha (fun _ => hf) ?_
    rw [hcap]
    rfl

theorem buys_allocateUnbounded (hw : ctx.system.Within system) (hl : a < σ.arenas.length)
    {blockSize size align : Word} (ha : align.IsPowerOfTwo)
    (hcap : (σ.arena a).capacity = .unbounded blockSize) :
    (a.allocateUnbounded (σ.arena a) blockSize size align).Leads ctx σ
      (fun _ τ => σ.Buys system (.arena a) [⟨.arena a, size⟩] τ)
      (σ.Buys system (.arena a) []) := by
  have hbound : ¬ (σ.arena a).IsBounded := fun ⟨n, hn⟩ => by cases hcap.symm.trans hn
  unfold allocateUnbounded
  split
  next f start h =>
    obtain ⟨g, hg, hfit⟩ := Option.bind_eq_some_iff.mp h
    obtain ⟨start', hstart, he⟩ := Option.map_eq_some_iff.mp hfit
    cases he
    exact (buys_carve hl hg ha hstart).imp (fun _ _ h => h) fun _ h => h ▸ .refl _ _ _
  next =>
    split
    next hlarge =>
      refine (ScopeId.leads_allocateNative _ _ _).chain (fun _ h => h ▸ .refl _ _ _)
        fun r τ h => ?_
      obtain ⟨hu, hp, hb, hr, rfl⟩ := h
      have halive := (Store.checkUsable_eq_ok_iff.mp hu).2
      exact (Store.Deal.dedicated hl halive hp (hw.place hb) hcap hlarge).buys fun p hm => by
        rw [List.mem_singleton.mp hm]
    next =>
      refine buys_install hw hl ha (fun h => absurd h hbound) ?_
      rw [hcap]
      rfl

/-- All that a request to an arena does: it is served or not, and the arena may have obtained
a block for it. -/
theorem buys_allocate (hw : ctx.system.Within system) (hl : a < σ.arenas.length)
    (size align : Word) :
    (a.allocate size align).Leads ctx σ
      (fun _ τ => σ.Buys system (.arena a) [⟨.arena a, size⟩] τ)
      (σ.Buys system (.arena a) []) := by
  refine (leads_require (P := fun _ τ => σ = τ ∧ align.IsPowerOfTwo) (fun _ h => ⟨rfl, ?_⟩)
    (.refl _ _ _)).bind ?_
  · unfold checkRequest at h
    split at h
    next => cases h
    next ha => exact Decidable.not_not.mp ha
  rintro _ _ ⟨rfl, ha⟩
  refine (leads_get (P := fun ρ τ => σ = ρ ∧ σ = τ) ⟨rfl, rfl⟩).bind ?_
  rintro _ _ ⟨rfl, rfl⟩
  refine (leads_checkUsable (P := fun _ τ => σ = τ) (fun _ => rfl) (.refl _ _ _)).bind ?_
  rintro _ _ rfl
  have hfailed : ∀ τ, σ.Buys system (.arena a) [] τ → σ.Buys system (.arena a) []
      (τ.modifyArena a fun ar => { ar with stats := ar.stats.addFailed }) := fun τ h =>
    h.trans ((Store.Deal.failed (Nat.lt_of_lt_of_le hl h.extends.arenas)).buys
      fun _ hp => (List.not_mem_nil hp).elim)
  split
  next bytes hcap => exact leads_counting (buys_allocateBounded hw hl ha hcap) hfailed
  next blockSize hcap => exact leads_counting (buys_allocateUnbounded hw hl ha hcap) hfailed

end ArenaId
end ScopedMemory
