import ScopedMemory.Proofs.Arena.Serving

namespace ScopedMemory

open Operation

variable {system : SystemAllocator} {strict : Prop} {waiting : List Block} {ctx : Context}
  {σ τ : Store} {s : ScopeId} {a : ArenaId} {limit : Nat}

namespace Word

theorem IsPowerOfTwo.max {m n : Word} (hm : m.IsPowerOfTwo) (hn : n.IsPowerOfTwo) :
    (max m n).IsPowerOfTwo := by
  show (if m ≤ n then n else m).IsPowerOfTwo
  split
  next => exact hn
  next => exact hm

/-- From a multiple of a power of two there is room for another below the end of the words. -/
theorem IsPowerOfTwo.add_le {n base : Word} (hn : n.IsPowerOfTwo) (hd : n.toNat ∣ base.toNat) :
    base.toNat + n.toNat ≤ 0x10000000000000000 := by
  have hpos := hn.pos
  have hlt := n.toNat_lt
  obtain ⟨k, hk⟩ := hn
  obtain ⟨q, hq⟩ := hd
  have hk64 : k ≤ 64 := by
    rw [hk] at hlt
    exact Nat.le_of_lt ((Nat.pow_lt_pow_iff_right (by decide)).mp hlt)
  have hwords : n.toNat * 2 ^ (64 - k) = 0x10000000000000000 := by
    rw [hk, ← Nat.pow_add, Nat.add_sub_cancel' hk64]
  have hbase := base.toNat_lt
  change base.toNat < 0x10000000000000000 at hbase
  rw [hq, ← hwords] at hbase
  have hle := Nat.mul_le_mul_left n.toNat (Nat.lt_of_mul_lt_mul_left hbase)
  rw [Nat.mul_succ, hwords] at hle
  rw [hq]
  exact hle

end Word

/-- A block that is aligned for the request and not too small serves it from its beginning. -/
theorem Frontier.fit?_start {block : Region} {size align : Word} (ha : align.IsPowerOfTwo)
    (hd : align.toNat ∣ block.start.toNat) (hsize : size.toNat ≤ block.size.toNat) :
    (Frontier.mk block 0).fit? size align = some 0 := by
  have hpos := ha.pos
  have hroom := ha.add_le hd
  have hpred := ha.toNat_sub_one
  have hnext : Word.add? block.start 0 = some block.start := Word.add?_eq_some_iff.mpr rfl
  have hpadded : Word.add? block.start (align - 1) = some (block.start + (align - 1)) := by
    unfold Word.add?
    rw [if_pos (by omega)]
  have hround : (block.start + (align - 1)).roundDown align = block.start := by
    obtain ⟨q, hq⟩ := hd
    rw [← UInt64.toNat_inj, Word.toNat_roundDown, Word.add?_eq_some_iff.mp hpadded, hpred, hq,
      Nat.mul_add_div hpos, Nat.div_eq_of_lt (by omega), Nat.add_zero, Nat.mul_comm]
  have hfinish : Word.add? 0 size = some size := by
    rw [Word.add?_eq_some_iff, UInt64.toNat_zero, Nat.zero_add]
  have hle : size ≤ block.size := by
    rw [UInt64.le_iff_toNat_le]
    exact hsize
  unfold Frontier.fit?
  simp only [Option.bind_eq_bind, hnext, hpadded, hround, UInt64.sub_self, hfinish,
    Option.bind_some, if_pos hle]

/-- What `other` places in the pool, in any past that `system` allows, ends below the limit. -/
def SystemAllocator.PlacesBelow (other system : SystemAllocator) (pool : Pool) (limit : Nat) :
    Prop :=
  ∀ past size align base, system.History past → Word.IsPowerOfTwo align →
    other.place past pool size align = some base → (Block.mk base size).finish < limit

theorem SystemAllocator.Lawful.placesBelow (hlaw : system.Lawful) {other : SystemAllocator}
    (hw : other.Within system) (pool : Pool) :
    other.PlacesBelow system pool 0x10000000000000000 :=
  fun _ _ _ _ hh ha hb => hlaw.bounded hh ha (hw _ _ _ _ _ hb)

theorem SystemAllocator.PlacesBelow.request {other : SystemAllocator} {pool : Pool}
    (h : other.PlacesBelow system pool limit) {past : List HeapEvent} {size align base : Word}
    (hh : system.History past) (ha : align.IsPowerOfTwo)
    (hb : other.request past pool size align = some base) :
    base.toNat + size.toNat < limit := by
  have hf := h past size align base hh ha ((Within.refl other).place hb)
  change base.toNat + max size.toNat 1 < limit at hf
  omega

namespace Store

/-- The system has no block that would do for a request to an arena with blocks of 4096 bytes. -/
def Refuses (σ : Store) (system : SystemAllocator) (s : ScopeId) (size align : Word) : Prop :=
  system.request σ.events (σ.poolOf s) (max 4096 size) (max 16 align) = none

/-- The arena takes blocks of 4096 bytes from the scope, and they end below the limit. -/
structure Supplies (σ : Store) (a : ArenaId) (s : ScopeId) (limit : Nat) : Prop where
  known : a < σ.arenas.length
  scope : (σ.arena a).scope = s
  capacity : (σ.arena a).capacity = .unbounded 4096
  blockAlign : (σ.arena a).blockAlign = 16
  below : ∀ f, (σ.arena a).frontier = some f → f.block.start.toNat + f.block.size.toNat < limit

/-- An arena that has no block yet supplies what it is asked for from blocks to come. -/
theorem supplies_addArena :
    (σ.addArena ⟨s, .unbounded 4096, 16, none, {}⟩).Supplies σ.arenas.length s limit := by
  have harena : (σ.addArena ⟨s, .unbounded 4096, 16, none, {}⟩).arena σ.arenas.length =
      ⟨s, .unbounded 4096, 16, none, {}⟩ := by
    rw [arena_addArena, if_pos rfl]
  refine ⟨by simp, ?_, ?_, ?_, ?_⟩
  all_goals rw [harena]
  intro f hf
  cases hf

theorem Supplies.setMemory (h : σ.Supplies a s limit) (m : Memory) :
    (σ.setMemory m).Supplies a s limit :=
  ⟨h.known, h.scope, h.capacity, h.blockAlign, h.below⟩

theorem Supplies.addBlock (h : σ.Supplies a s limit) (t : ScopeId) (b : Block) :
    (σ.addBlock t b).Supplies a s limit :=
  ⟨h.known, h.scope, h.capacity, h.blockAlign, h.below⟩

theorem Supplies.stats (h : σ.Supplies a s limit) (g : ArenaStats → ArenaStats) :
    (σ.modifyArena a fun ar => { ar with stats := g ar.stats }).Supplies a s limit := by
  have harena : ((σ.modifyArena a fun ar => { ar with stats := g ar.stats }).arena a) =
      { σ.arena a with stats := g (σ.arena a).stats } := by
    rw [arena_modifyArena, if_pos ⟨rfl, h.known⟩]
  refine ⟨?_, ?_, ?_, ?_, ?_⟩
  · rw [length_arenas_modifyArena]
    exact h.known
  all_goals rw [harena]
  · exact h.scope
  · exact h.capacity
  · exact h.blockAlign
  · exact h.below

theorem Supplies.frontier (h : σ.Supplies a s limit) {f : Frontier}
    (hf : f.block.start.toNat + f.block.size.toNat < limit) (g : ArenaStats → ArenaStats) :
    (σ.modifyArena a fun ar =>
      { ar with frontier := some f, stats := g ar.stats }).Supplies a s limit := by
  have harena : ((σ.modifyArena a fun ar =>
      { ar with frontier := some f, stats := g ar.stats }).arena a) =
        { σ.arena a with frontier := some f, stats := g (σ.arena a).stats } := by
    rw [arena_modifyArena, if_pos ⟨rfl, h.known⟩]
  refine ⟨?_, ?_, ?_, ?_, ?_⟩
  · rw [length_arenas_modifyArena]
    exact h.known
  all_goals rw [harena]
  · exact h.scope
  · exact h.capacity
  · exact h.blockAlign
  · intro f' hf'
    cases hf'
    exact hf

end Store

/-- In a scope that can be used, only the system refuses a block. -/
theorem ScopeId.places_allocateNative {size align : Word}
    (hu : σ.checkUsable ctx.caller s = .ok ()) (ha : align.IsPowerOfTwo) :
    (s.allocateNative size align).Leads ctx σ
      (fun r τ => ctx.system.request σ.events (σ.poolOf s) size align = some r.start ∧
        r = ⟨r.start, size, s⟩ ∧ τ = σ.addBlock s ⟨r.start, size⟩)
      fun τ => τ = σ ∧ ctx.system.request σ.events (σ.poolOf s) size align = none := by
  unfold Leads ScopeId.allocateNative
  cases hb : ctx.system.request σ.events (σ.poolOf s) size align with
  | none => simp [hu, ha, hb]
  | some base => simp [hu, ha, hb]

namespace ArenaId

/-- The region ends below the limit, and the arena is as fit for the next request. -/
def Supplied (a : ArenaId) (s : ScopeId) (limit : Nat) (r : Region) (τ : Store) : Prop :=
  r.start.toNat + r.size.toNat < limit ∧ τ.Supplies a s limit

theorem supplied_carve (hs : σ.Sound system strict waiting) (h : σ.Supplies a s limit)
    (hlimit : limit ≤ 0x10000000000000000) (hu : σ.checkUsable ctx.caller s = .ok ())
    {f : Frontier} {start size align : Word} (hf : (σ.arena a).frontier = some f)
    (ha : align.IsPowerOfTwo) (hfit : f.fit? size align = some start) :
    (a.carve f start size).Leads ctx σ (a.Supplied s limit) fun _ => False := by
  obtain ⟨_, _, hend⟩ := Frontier.fit?_spec ha hfit
  have hbelow := h.below f hf
  have hscope := ((hs.arenas a h.known).frontier f hf).1
  have hspan : f.block.Spans start size := ⟨hend, by omega⟩
  have hc : σ.checkAccess ctx.caller f.block start size = .ok () := by
    refine Store.checkAccess_eq_ok_iff.mpr ⟨?_, hspan⟩
    rw [hscope, h.scope]
    exact hu
  have hstart := Region.toNat_start_narrow hspan
  unfold Leads carve
  simp only [run_bind, Region.run_slice, hc, run_modify, run_pure]
  refine ⟨?_, h.frontier (f := { f with cursor := start + size }) hbelow (·.addServed size)⟩
  rw [hstart]
  show f.block.start.toNat + start.toNat + size.toNat < limit
  omega

/-- A block of the usual size serves what the arena asked for it. -/
theorem supplied_fresh (hs : σ.Sound system strict waiting) (hw : ctx.system.Within system)
    (hal : system.Aligns) (h : σ.Supplies a s limit) (hlimit : limit ≤ 0x10000000000000000)
    (hbelow : ctx.system.PlacesBelow system (σ.poolOf s) limit)
    (hu : σ.checkUsable ctx.caller s = .ok ()) {size align : Word} (ha : align.IsPowerOfTwo)
    (hsize : ¬ 4096 < size) :
    (a.allocateFresh (σ.arena a) 4096 size align).Leads ctx σ (a.Supplied s limit)
      fun τ => τ.Refuses ctx.system s size align := by
  have hp : (max 16 align).IsPowerOfTwo := Word.IsPowerOfTwo.max (by decide) ha
  have hle : size.toNat ≤ (4096 : Word).toNat := by
    rw [UInt64.lt_iff_toNat_lt] at hsize
    omega
  have hmax : max 4096 size = 4096 := by
    show (if 4096 ≤ size then size else 4096) = 4096
    split
    next hge =>
      rw [UInt64.le_iff_toNat_le] at hge
      rw [← UInt64.toNat_inj]
      omega
    next => rfl
  have halive := (Store.checkUsable_eq_ok_iff.mp hu).2
  unfold allocateFresh
  rw [h.scope, h.blockAlign]
  refine (ScopeId.places_allocateNative hu hp).chain (fun τ hr => ?_) fun r τ hr => ?_
  · obtain ⟨rfl, hnone⟩ := hr
    unfold Store.Refuses
    rwa [hmax]
  obtain ⟨hb, hr, rfl⟩ := hr
  have hend := hbelow.request hs.history hp hb
  have hrs : r.size = 4096 := congrArg Region.size hr
  -- The arena goes on to the block.
  have hc : Store.Change system σ []
      ((σ.addBlock s ⟨r.start, 4096⟩).modifyArena a fun ar =>
        { ar with frontier := some ⟨r, 0⟩, stats := ar.stats.addBlock r.size }) := by
    rw [hr]
    have hi := Store.Change.install (a := a) h.known (by rwa [h.scope]) hp
      (by rw [h.scope]; exact hw.place hb)
    rwa [h.scope] at hi
  refine Leads.bind (P := fun f τ => f = ⟨r, 0⟩ ∧ τ = (σ.addBlock s ⟨r.start, 4096⟩).modifyArena a
    fun ar => { ar with frontier := some ⟨r, 0⟩, stats := ar.stats.addBlock r.size })
    ⟨rfl, rfl⟩ fun f τ hf => ?_
  obtain ⟨rfl, rfl⟩ := hf
  have hfit : (Frontier.mk r 0).fit? size align = some 0 := by
    refine Frontier.fit?_start ha ?_ (by rw [hrs]; exact hle)
    exact Nat.dvd_trans (ha.dvd_max hp) (hal.aligned hs.history hp (hw.place hb))
  rw [hfit]
  have hbl : (Frontier.mk r 0).block.start.toNat + (Frontier.mk r 0).block.size.toNat < limit := by
    show r.start.toNat + r.size.toNat < limit
    rw [hrs]
    exact hend
  have hτ := (h.addBlock s ⟨r.start, 4096⟩).frontier hbl (·.addBlock r.size)
  have hu' := (hc.extends.checkUsable (Store.lt_length_of_isAlive halive) ctx.caller).trans hu
  refine (supplied_carve (hc.sound hs) hτ hlimit hu' ?_ ha hfit).imp (fun _ _ h => h)
    fun _ h => h.elim
  rw [Store.arena_modifyArena, if_pos ⟨rfl, h.known⟩]

/-- A block of its own needs only be had from the system. -/
theorem supplied_dedicated (hs : σ.Sound system strict waiting) (h : σ.Supplies a s limit)
    (hbelow : ctx.system.PlacesBelow system (σ.poolOf s) limit)
    (hu : σ.checkUsable ctx.caller s = .ok ()) {size align : Word} (ha : align.IsPowerOfTwo)
    (hsize : 4096 < size) :
    (a.allocateDedicated (σ.arena a) size align).Leads ctx σ (a.Supplied s limit)
      fun τ => τ.Refuses ctx.system s size align := by
  have hp : (max 16 align).IsPowerOfTwo := Word.IsPowerOfTwo.max (by decide) ha
  have hmax : max 4096 size = size := if_pos (UInt64.le_of_lt hsize)
  unfold allocateDedicated
  rw [h.scope, h.blockAlign]
  refine (ScopeId.places_allocateNative hu hp).chain (fun τ hr => ?_) fun r τ hr => ?_
  · obtain ⟨rfl, hnone⟩ := hr
    unfold Store.Refuses
    rwa [hmax]
  obtain ⟨hb, hr, rfl⟩ := hr
  have hend := hbelow.request hs.history hp hb
  have hrs : r.size = size := congrArg Region.size hr
  refine ⟨?_, (h.addBlock s ⟨r.start, size⟩).stats (·.addDedicated size)⟩
  rw [hrs]
  exact hend

/-- A request of a size that can be asked for is served, unless the system refuses the block that
it takes. -/
theorem supplied_allocate (hs : σ.Sound system strict waiting) (hw : ctx.system.Within system)
    (hal : system.Aligns) (h : σ.Supplies a s limit) (hlimit : limit ≤ 0x10000000000000000)
    (hbelow : ctx.system.PlacesBelow system (σ.poolOf s) limit)
    (hu : σ.checkUsable ctx.caller s = .ok ()) {size align : Word} (ha : align.IsPowerOfTwo)
    (hsize : size.toNat < 0x8000000000000000) :
    (a.allocate size align).Leads ctx σ (a.Supplied s limit)
      fun τ => τ.Refuses ctx.system s size align := by
  have hcheck : checkRequest size align = .ok () := by
    unfold checkRequest
    rw [if_neg (not_not_intro ha), if_pos hsize]
  have hserved : (a.allocateUnbounded (σ.arena a) 4096 size align).Leads ctx σ (a.Supplied s limit)
      fun τ => τ.Refuses ctx.system s size align := by
    unfold allocateUnbounded
    split
    next f start hfit =>
      obtain ⟨g, hg, hfit⟩ := Option.bind_eq_some_iff.mp hfit
      obtain ⟨start', hstart, he⟩ := Option.map_eq_some_iff.mp hfit
      cases he
      exact (supplied_carve hs h hlimit hu hg ha hstart).imp (fun _ _ h => h) fun _ h => h.elim
    next =>
      split
      next hlt => exact supplied_dedicated hs h hbelow hu ha hlt
      next hlt => exact supplied_fresh hs hw hal h hlimit hbelow hu ha hlt
  refine leads_require_bind hcheck ?_
  refine (leads_get (P := fun ρ τ => σ = ρ ∧ σ = τ) ⟨rfl, rfl⟩).bind fun _ _ he => ?_
  obtain ⟨rfl, rfl⟩ := he
  refine leads_checkUsable_bind (by rwa [h.scope]) ?_
  rw [h.capacity]
  exact leads_counting hserved fun _ h => h

end ArenaId
end ScopedMemory
