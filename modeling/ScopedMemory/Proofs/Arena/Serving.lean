import ScopedMemory.Allocator
import ScopedMemory.Proofs.Store.Changes

namespace ScopedMemory

open Operation

namespace Word

theorem IsPowerOfTwo.pos {n : Word} (h : n.IsPowerOfTwo) : 0 < n.toNat := by
  obtain ⟨k, hk⟩ := h
  rw [hk]
  exact Nat.two_pow_pos k

theorem IsPowerOfTwo.toNat_sub_one {n : Word} (h : n.IsPowerOfTwo) :
    (n - 1).toNat = n.toNat - 1 :=
  UInt64.toNat_sub_of_le _ _ (UInt64.le_iff_toNat_le.mpr h.pos)

theorem IsPowerOfTwo.dvd_of_le {m n : Word} (hm : m.IsPowerOfTwo) (hn : n.IsPowerOfTwo)
    (h : m ≤ n) : m.toNat ∣ n.toNat := by
  obtain ⟨j, hj⟩ := hm
  obtain ⟨k, hk⟩ := hn
  rw [UInt64.le_iff_toNat_le, hj, hk] at h
  rw [hj, hk]
  exact Nat.pow_dvd_pow 2 ((Nat.pow_le_pow_iff_right (by decide)).mp h)

/-- The greater of two powers of two is a multiple of the other. -/
theorem IsPowerOfTwo.dvd_max {m n : Word} (hn : n.IsPowerOfTwo) (h : (max m n).IsPowerOfTwo) :
    n.toNat ∣ (max m n).toNat := by
  refine hn.dvd_of_le h ?_
  change n ≤ if m ≤ n then n else m
  split
  next => exact UInt64.le_refl n
  next hmn => exact UInt64.le_of_lt (UInt64.not_le.mp hmn)

theorem toNat_roundDown (n unit : Word) :
    (n.roundDown unit).toNat = n.toNat / unit.toNat * unit.toNat := by
  have h := Nat.div_add_mod n.toNat unit.toNat
  have hm : (n % unit).toNat = n.toNat % unit.toNat := UInt64.toNat_mod n unit
  rw [roundDown, UInt64.toNat_sub_of_le, hm]
  · rw [Nat.mul_comm] at h
    omega
  · rw [UInt64.le_iff_toNat_le, hm]
    exact Nat.mod_le _ _

end Word

/-- What fits lies behind the cursor, at a multiple of `align`, and inside the block. -/
theorem Frontier.fit?_spec {f : Frontier} {size align start : Word} (ha : align.IsPowerOfTwo)
    (h : f.fit? size align = some start) :
    f.cursor.toNat ≤ start.toNat ∧ align.toNat ∣ f.block.start.toNat + start.toNat ∧
      start.toNat + size.toNat ≤ f.block.size.toNat := by
  unfold Frontier.fit? at h
  simp only [Option.bind_eq_bind, Option.bind_eq_some_iff] at h
  obtain ⟨next, hn, padded, hp, finish, hf, h⟩ := h
  rw [Word.add?_eq_some_iff] at hn hp hf
  have hpos := ha.pos
  rw [ha.toNat_sub_one] at hp
  have hr := Word.toNat_roundDown padded align
  have hd := Nat.div_add_mod padded.toNat align.toNat
  have hm := Nat.mod_lt padded.toNat hpos
  rw [Nat.mul_comm] at hd
  change _ = _ + (align.toNat - 1) at hp
  have hle : f.block.start ≤ padded.roundDown align := by
    rw [UInt64.le_iff_toNat_le]
    omega
  split at h
  next hfs =>
    cases h
    rw [UInt64.le_iff_toNat_le] at hfs
    rw [UInt64.toNat_sub_of_le _ _ hle] at hf ⊢
    refine ⟨by omega, ?_, by omega⟩
    have hsum : f.block.start.toNat + ((padded.roundDown align).toNat - f.block.start.toNat) =
        padded.toNat / align.toNat * align.toNat := by omega
    rw [hsum]
    exact Nat.dvd_mul_left _ _
  next => cases h

variable {system : SystemAllocator} {strict : Prop} {waiting : List Block} {ctx : Context}
  {σ : Store}

/-- A block of its own is placed, or nothing changes. -/
theorem ScopeId.leads_allocateNative (s : ScopeId) (size align : Word) :
    (ScopeId.allocateNative s size align).Leads ctx σ
      (fun r τ => σ.checkUsable ctx.caller s = .ok () ∧ align.IsPowerOfTwo ∧
        ctx.system.request σ.events (σ.poolOf s) size align = some r.start ∧
        r = ⟨r.start, size, s⟩ ∧ τ = σ.addBlock s ⟨r.start, size⟩)
      (· = σ) := by
  unfold Leads ScopeId.allocateNative
  cases hu : σ.checkUsable ctx.caller s with
  | error e => simp [hu]
  | ok u =>
    by_cases ha : align.IsPowerOfTwo
    · cases hb : ctx.system.request σ.events (σ.poolOf s) size align with
      | none => simp [hu, ha, hb]
      | some base => simp [hu, ha, hb]
    · simp [hu, ha]

/-- There is no new global scope, and any other is alive from the start. -/
theorem ScopeId.leads_create (kind : ScopeKind) :
    (ScopeId.create kind).Leads ctx σ
      (fun s τ => (kind = .global ∧ s = 0 ∧ τ = σ) ∨
        (kind ≠ .global ∧ s = σ.scopes.length ∧ τ = σ.addScope kind ctx.caller))
      fun _ => False := by
  unfold Leads ScopeId.create
  by_cases hk : kind = .global
  · simp [hk]
  · simp [hk]

structure Region.Meets (r : Region) (system : SystemAllocator) (σ : Store) (caller : Thread)
    (s : ScopeId) (size align : Word) : Prop where
  scope : r.scope = s
  size : r.size = size
  align : system.Aligns → align.toNat ∣ r.start.toNat
  usable : σ.checkUsable caller r.scope = .ok ()

/-- An allocation hands out a region of the scope that meets the request, or nothing. -/
def Serves (system : SystemAllocator) (ctx : Context) (σ : Store) (s : ScopeId)
    (size align : Word) (x : Operation Region) : Prop :=
  x.Leads ctx σ
    (fun r τ => Store.Changes system False σ [r] τ ∧ r.Meets system τ ctx.caller s size align)
    (Store.Changes system False σ [])

theorem ScopeId.serves_allocateNative (hs : σ.Sound system strict waiting)
    (hw : ctx.system.Within system) (s : ScopeId) (size align : Word) :
    Serves system ctx σ s size align (ScopeId.allocateNative s size align) := by
  refine (leads_allocateNative s size align).imp (fun r τ h => ?_) fun τ h => h ▸ .refl
  obtain ⟨hu, ha, hb, hr, rfl⟩ := h
  have hp := hw.place hb
  have halive := (Store.checkUsable_eq_ok_iff.mp hu).2
  have hc : Store.Change system σ _ _ := .block halive ha hp
  refine ⟨?_, congrArg Region.scope hr, congrArg Region.size hr,
    fun hl => hl.aligned hs.history ha hp, ?_⟩
  · rw [hr]
    exact hc.changes
  · rw [hr, hc.extends.checkUsable (Store.lt_length_of_isAlive halive)]
    exact hu

namespace ArenaId

theorem leads_create (capacity : ArenaCapacity) (config : ArenaConfig) (s : ScopeId) :
    (ArenaId.create capacity config s).Leads ctx σ
      (fun a τ => config.validate = .ok () ∧ σ.checkUsable ctx.caller s = .ok () ∧
        a = σ.arenas.length ∧ τ = σ.addArena ⟨s, capacity, config.blockAlign, none, {}⟩)
      (· = σ) := by
  unfold Leads create
  cases hv : config.validate with
  | error e => simp
  | ok u => cases hu : σ.checkUsable ctx.caller s <;> simp [hu]

theorem serves_carve (hs : σ.Sound system strict waiting) {a : ArenaId} {f : Frontier}
    {start size align : Word} (hl : a < σ.arenas.length) (hf : (σ.arena a).frontier = some f)
    (ha : align.IsPowerOfTwo) (hfit : f.fit? size align = some start) :
    Serves system ctx σ (σ.arena a).scope size align (a.carve f start size) := by
  obtain ⟨hc, hd, _⟩ := Frontier.fit?_spec ha hfit
  unfold Serves Leads carve
  rw [run_bind, Region.run_slice]
  cases hac : σ.checkAccess ctx.caller f.block start size with
  | error e => exact .refl
  | ok u =>
    obtain ⟨hu, hp⟩ := Store.checkAccess_eq_ok_iff.mp hac
    have hch : Store.Change system σ _ _ := .carve hl hf hc hp
    have hx := hch.extends
    obtain ⟨hfs, hfi, _⟩ := (hs.arenas a hl).frontier f hf
    refine ⟨hch.changes, hfs, rfl, fun _ => ?_, ?_⟩
    · rw [Region.toNat_start_narrow hp]
      exact hd
    · exact (hx.checkUsable hfi.1 _).trans hu

/-- What is left of a request once the frontier is known. -/
theorem serves_fit (hs : σ.Sound system strict waiting) {a : ArenaId} {f : Frontier}
    {size align : Word} {fault : MemoryError} (hl : a < σ.arenas.length)
    (hf : (σ.arena a).frontier = some f) (ha : align.IsPowerOfTwo) :
    Serves system ctx σ (σ.arena a).scope size align
      (match f.fit? size align with
      | some start => a.carve f start size
      | none => throw fault) := by
  split
  next hfit => exact serves_carve hs hl hf ha hfit
  next => exact leads_throw .refl

/-- A request that installs a block of its arena's scope first. -/
theorem serves_install (hs : σ.Sound system strict waiting) (hw : ctx.system.Within system)
    {a : ArenaId} {blockSize blockAlign size align : Word} {fault : Frontier → MemoryError}
    (hl : a < σ.arenas.length) (ha : align.IsPowerOfTwo) :
    Serves system ctx σ (σ.arena a).scope size align (do
      let f ← a.install (← (σ.arena a).scope.allocateNative blockSize blockAlign)
      match f.fit? size align with
      | some start => a.carve f start size
      | none => throw (fault f)) := by
  refine (ScopeId.leads_allocateNative _ _ _).chain (fun _ h => h ▸ .refl) fun r τ h => ?_
  obtain ⟨hu, hp, hb, hr, rfl⟩ := h
  have halive := (Store.checkUsable_eq_ok_iff.mp hu).2
  have hf : (((σ.addBlock (σ.arena a).scope ⟨r.start, blockSize⟩).modifyArena a fun ar =>
      { ar with frontier := some ⟨r, 0⟩, stats := ar.stats.addBlock r.size }).arena a).frontier =
        some ⟨r, 0⟩ := by
    rw [Store.arena_modifyArena, if_pos ⟨rfl, hl⟩]
  have hcr : Store.Change system σ []
      ((σ.addBlock (σ.arena a).scope ⟨r.start, blockSize⟩).modifyArena a fun ar =>
        { ar with frontier := some ⟨r, 0⟩, stats := ar.stats.addBlock r.size }) := by
    rw [hr]
    exact .install hl halive hp (hw.place hb)
  refine Leads.bind (P := fun f τ => f = ⟨r, 0⟩ ∧ τ = (σ.addBlock (σ.arena a).scope
    ⟨r.start, blockSize⟩).modifyArena a fun ar =>
      { ar with frontier := some ⟨r, 0⟩, stats := ar.stats.addBlock r.size }) ⟨rfl, rfl⟩ ?_
  rintro _ _ ⟨rfl, rfl⟩
  have hlr : a < ((σ.addBlock (σ.arena a).scope ⟨r.start, blockSize⟩).modifyArena a fun ar =>
      { ar with frontier := some ⟨r, 0⟩, stats := ar.stats.addBlock r.size }).arenas.length := by
    rw [Store.length_arenas_modifyArena]
    exact hl
  refine (serves_fit (hcr.sound hs) hlr hf ha).imp (fun r' ρ h => ?_) fun ρ h => ?_
  · have hsc := h.2.scope
    rw [hcr.extends.arenaScope a hl] at hsc
    exact ⟨hcr.changes.before h.1, hsc, h.2.size, h.2.align, h.2.usable⟩
  · exact hcr.changes.before h

theorem serves_allocateBounded (hs : σ.Sound system strict waiting)
    (hw : ctx.system.Within system) {a : ArenaId} {bytes size align : Word}
    (hl : a < σ.arenas.length) (ha : align.IsPowerOfTwo) :
    Serves system ctx σ (σ.arena a).scope size align
      (a.allocateBounded (σ.arena a) bytes size align) := by
  unfold allocateBounded
  cases hf : (σ.arena a).frontier with
  | some f => exact serves_fit hs hl hf ha
  | none => exact serves_install hs hw hl ha

theorem serves_allocateDedicated (hs : σ.Sound system strict waiting)
    (hw : ctx.system.Within system) {a : ArenaId} {size align : Word} (ha : align.IsPowerOfTwo) :
    Serves system ctx σ (σ.arena a).scope size align
      (a.allocateDedicated (σ.arena a) size align) := by
  refine (ScopeId.leads_allocateNative _ _ _).chain (fun _ h => h ▸ .refl) fun r τ h => ?_
  obtain ⟨hu, hp, hb, hr, rfl⟩ := h
  have halive := (Store.checkUsable_eq_ok_iff.mp hu).2
  have hc : Store.Change system σ _ _ := .block halive hp (hw.place hb)
  have ht : Store.Changes system False σ [r] (σ.addBlock (σ.arena a).scope ⟨r.start, size⟩) := by
    rw [hr]
    exact hc.changes
  have hst : Store.Change system (σ.addBlock (σ.arena a).scope ⟨r.start, size⟩) [] _ :=
    .stats _ a (·.addDedicated size)
  refine ⟨ht.after hst.changes, congrArg Region.scope hr, congrArg Region.size hr,
    fun hlaw => ?_, ?_⟩
  · exact Nat.dvd_trans (ha.dvd_max hp) (hlaw.aligned hs.history hp (hw.place hb))
  · rw [(ht.after hst.changes).extends.checkUsable]
    · rw [hr]
      exact hu
    · rw [hr]
      exact Store.lt_length_of_isAlive halive

theorem serves_allocateUnbounded (hs : σ.Sound system strict waiting)
    (hw : ctx.system.Within system) {a : ArenaId} {blockSize size align : Word}
    (hl : a < σ.arenas.length) (ha : align.IsPowerOfTwo) :
    Serves system ctx σ (σ.arena a).scope size align
      (a.allocateUnbounded (σ.arena a) blockSize size align) := by
  unfold allocateUnbounded
  split
  next f start h =>
    obtain ⟨g, hg, hfit⟩ := Option.bind_eq_some_iff.mp h
    obtain ⟨start', hs', he⟩ := Option.map_eq_some_iff.mp hfit
    cases he
    exact serves_carve hs hl hg ha hs'
  next =>
    split
    next => exact serves_allocateDedicated hs hw ha
    next => exact serves_install hs hw hl ha

/-- Counting changes the outcome only where the request fails. -/
theorem leads_counting {a : ArenaId} {x : Operation Region} {P : Region → Store → Prop}
    {Q Q' : Store → Prop} (h : x.Leads ctx σ P Q)
    (hQ : ∀ τ, Q τ → Q' (τ.modifyArena a fun ar => { ar with stats := ar.stats.addFailed })) :
    (a.counting x).Leads ctx σ P Q' := by
  unfold Leads run counting at *
  cases hr : x ctx σ with
  | ok r τ =>
    rw [hr] at h
    exact h
  | error e τ =>
    rw [hr] at h
    exact hQ τ h

theorem serves_counting {a : ArenaId} {s : ScopeId} {size align : Word} {x : Operation Region}
    (h : Serves system ctx σ s size align x) : Serves system ctx σ s size align (a.counting x) :=
  leads_counting h fun τ hc => hc.after (Store.Change.stats τ a (·.addFailed)).changes

theorem serves_allocate (hs : σ.Sound system strict waiting) (hw : ctx.system.Within system)
    {a : ArenaId} (hl : a < σ.arenas.length) (size align : Word) :
    Serves system ctx σ (σ.arena a).scope size align (a.allocate size align) := by
  refine (leads_require (P := fun _ τ => σ = τ ∧ align.IsPowerOfTwo) (fun _ h => ⟨rfl, ?_⟩)
    .refl).bind ?_
  · unfold checkRequest at h
    split at h
    next => cases h
    next ha => exact Decidable.not_not.mp ha
  rintro _ _ ⟨rfl, ha⟩
  refine (leads_get (P := fun ρ τ => σ = ρ ∧ σ = τ) ⟨rfl, rfl⟩).bind ?_
  rintro _ _ ⟨rfl, rfl⟩
  refine (leads_checkUsable (P := fun _ τ => σ = τ) (fun _ => rfl) .refl).bind ?_
  rintro _ _ rfl
  apply serves_counting
  split
  next => exact serves_allocateBounded hs hw hl ha
  next => exact serves_allocateUnbounded hs hw hl ha

end ArenaId

end ScopedMemory
