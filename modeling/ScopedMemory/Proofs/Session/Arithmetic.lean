import ScopedMemory.Proofs.Session.Counts

namespace ScopedMemory

open Operation

/-! ### Words that are added and subtracted as numbers are -/

namespace Word

variable {a b : Word}

/-- The sum does not wrap around. -/
def AddExact (a b : Word) : Prop := (a + b).toNat = a.toNat + b.toNat

/-- Nothing is borrowed for the difference. -/
def SubExact (a b : Word) : Prop := ((a - b).toNat : Int) = a.toNat - b.toNat

def MulExact (a b : Word) : Prop := (a * b).toNat = a.toNat * b.toNat

theorem addExact_iff : AddExact a b ↔ a.toNat + b.toNat < 0x10000000000000000 := by
  unfold AddExact
  constructor
  · intro h
    have hlt := (a + b).toNat_lt
    rw [h] at hlt
    exact hlt
  · intro h
    rw [UInt64.toNat_add, Nat.mod_eq_of_lt h]

theorem subExact_iff : SubExact a b ↔ b.toNat ≤ a.toNat := by
  unfold SubExact
  constructor
  · intro h
    omega
  · intro h
    rw [UInt64.toNat_sub_of_le _ _ (UInt64.le_iff_toNat_le.mpr h)]
    omega

theorem mulExact_iff : MulExact a b ↔ a.toNat * b.toNat < 0x10000000000000000 := by
  unfold MulExact
  constructor
  · intro h
    have hlt := (a * b).toNat_lt
    rw [h] at hlt
    exact hlt
  · intro h
    rw [UInt64.toNat_mul, Nat.mod_eq_of_lt h]

end Word

variable {system : SystemAllocator} {past : List Move} {ctx : Context} {σ τ : Store} {a : ArenaId}
  {m n : Nat} {S T : Session}

/-- What lies before an aligned address is measured from the beginning of the block, which the
address does not fall below: the padding is less than the alignment. -/
theorem Frontier.subExact_base {f : Frontier} {align next padded : Word} (ha : align.IsPowerOfTwo)
    (hn : Word.add? f.block.start f.cursor = some next)
    (hp : Word.add? next (align - 1) = some padded) :
    Word.SubExact (padded.roundDown align) f.block.start := by
  have hpos := ha.pos
  have hpred := ha.toNat_sub_one
  rw [Word.add?_eq_some_iff] at hn hp
  rw [hpred] at hp
  have hd := Nat.div_add_mod padded.toNat align.toNat
  have hm := Nat.mod_lt padded.toNat hpos
  rw [Nat.mul_comm] at hd
  rw [Word.subExact_iff, Word.toNat_roundDown]
  omega

/-- All slots together fit, so each of them begins at a product that does. -/
theorem VariadicBuilder.mulExact_slot {b : VariadicBuilder} {size : Word} {index : Nat}
    (hb : b.arguments.length < 0x10000000000000000)
    (hsize : Word.mul? b.convention.slotSize (.ofNat b.arguments.length) = some size)
    (hi : index < b.arguments.length) :
    (UInt64.ofNat index).toNat = index ∧
      Word.MulExact (.ofNat index) b.convention.slotSize := by
  have hindex : (UInt64.ofNat index).toNat = index := by
    rw [UInt64.toNat_ofNat', Nat.mod_eq_of_lt (Nat.lt_trans hi hb)]
  rw [Word.mul?_eq_some_iff, UInt64.toNat_ofNat', Nat.mod_eq_of_lt hb] at hsize
  refine ⟨hindex, ?_⟩
  rw [Word.mulExact_iff, hindex, Nat.mul_comm]
  have hlt := size.toNat_lt
  rw [hsize] at hlt
  exact Nat.lt_of_le_of_lt (Nat.mul_le_mul_left _ (Nat.le_of_lt hi)) hlt

/-- Blocks are added up in any order. -/
theorem Scope.addExact_blocks {sc : Scope}
    (h : total (·.size.toNat) sc.blocks < 0x10000000000000000) {bs cs : List Block} {b : Block}
    (hp : (bs ++ b :: cs).Perm sc.blocks) :
    Word.AddExact ({ sc with blocks := bs } : Scope).memoryBytes b.size := by
  rw [← total_perm _ hp, total_append, total_cons] at h
  rw [Word.addExact_iff, Scope.toNat_memoryBytes (Nat.lt_of_le_of_lt (Nat.le_add_right _ _) h)]
  exact Nat.lt_of_le_of_lt (Nat.add_le_add_left (Nat.le_add_right _ _) _) h

/-! ### How far lists have been read -/

namespace Session

/-- No list has been read to before its beginning. -/
def Onward (S : Session) : Prop :=
  ∀ p ∈ S.handles, ∀ v c, p.2 = .list v → v.cursor = some c →
    c.start.toNat ≤ c.remaining.start.toNat

theorem Onward.stems (hS : S.Onward) (h : S.Stems T) : T.Onward := by
  intro p hp v c hv hc
  cases h p hp v hv with
  | kept hm => exact hS _ hm v c rfl hc
  | @advanced _ v₀ hm ha =>
    obtain ⟨c₀, offset, length, hc₀, hs, rfl⟩ := ha
    cases hc
    have hold := hS _ hm v₀ c₀ rfl hc₀
    have hstart := Region.toNat_start_narrow hs
    dsimp only
    omega
  | empty hn => cases hn.symm.trans hc
  | built hb =>
    obtain rfl := Option.some.inj (hb.cursor.symm.trans hc)
    exact hb.started
  | adopted hc' _ hs =>
    obtain rfl := Option.some.inj (hc'.symm.trans hc)
    exact Nat.le_of_eq (congrArg UInt64.toNat hs.symm)

end Session

theorem play_onward (hsep : system.Separate) (hw : ∀ m ∈ past, m.Within system) :
    (play past).Onward := by
  induction past with
  | nil => exact fun _ hp => by cases hp
  | cons m past ih =>
    have hpast : ∀ m ∈ past, m.Within system := fun m' hm => hw m' (List.mem_cons_of_mem m hm)
    have hS : (play past).Sound system False _ := play_sound hsep hpast False.elim
    refine (ih hpast).stems ?_
    cases m with
    | call ctx c => exact c.stems hsep hS (hw _ List.mem_cons_self)
    | chore ctx => exact (Session.ListsFrom.of_handles (Session.handles_advance _ ctx)).stems

/-! ### What calls pass through -/

/-- A store in the midst of a call after the run: allocations have changed it, and at most `n` of
the requests that the call made so far have failed. -/
structure Midway (system : SystemAllocator) (past : List Move) (n : Nat) (σ : Store) : Prop where
  deals : ∃ ss ps, (play past).store.Deals system ss ps σ
  fails : (play past).store.Misses n σ

theorem midway_play (system : SystemAllocator) (past : List Move) :
    Midway system past 0 (play past).store := ⟨⟨[], [], .refl⟩, Store.misses_of_arenas rfl⟩

/-- The counters of an arena after more was served and obtained, counted without a bound. -/
structure ArenaStats.Grows (st : ArenaStats) (sizes : List Word) (bs : List Block)
    (st' : ArenaStats) : Prop where
  served : st'.served.toNat = st.served.toNat + total UInt64.toNat sizes
  reserved : st'.reserved.toNat = st.reserved.toNat + total (·.size.toNat) bs
  blocks : st'.blocks.toNat + st'.dedicated.toNat =
    st.blocks.toNat + st.dedicated.toNat + bs.length

theorem Midway.mono (h : Midway system past m σ) (hmn : m ≤ n) : Midway system past n σ :=
  ⟨h.deals, h.fails.mono hmn⟩

namespace Midway

variable (hpack : system.Packs) (hpast : ∀ m ∈ past, m.Within system)

include hpack hpast

theorem sound (h : Midway system past n σ) :
    σ.Sound system False (play past).waiting := by
  obtain ⟨_, _, hd⟩ := h.deals
  have hS : (play past).Sound system False _ := play_sound hpack.toSeparate hpast False.elim
  exact hd.sound hS.store

theorem booked (h : Midway system past n σ) : ∃ ss ps, σ.Booked ss ps := by
  obtain ⟨_, _, hd⟩ := h.deals
  obtain ⟨_, _, hb, _⟩ := play_booked hpack hpast
  have hS : (play past).Sound system False _ := play_sound hpack.toSeparate hpast False.elim
  exact ⟨_, _, hd.booked hb hS.store hpack⟩

/-- The books of an arena before and after tell how its counters have grown. -/
theorem buys (h : Midway system past n σ) (hl : a < σ.arenas.length) {ss : List Supply}
    (hs : ∀ x ∈ ss, x.source = .arena a) (hb : σ.Buys system (.arena a) ss τ)
    (hf : σ.Misses m τ) :
    Midway system past (n + m) τ ∧
      (σ.arena a).stats.Grows (ss.map (·.size)) (σ.obtained τ) (τ.arena a).stats := by
  obtain ⟨ps, hp, hd⟩ := hb
  obtain ⟨ss₀, ps₀, hbooked⟩ := h.booked hpack hpast
  have hbooked' := hd.booked hbooked (h.sound hpack hpast) hpack
  have hbefore := hbooked.arenas a hl
  have hafter := hbooked'.arenas a (Nat.lt_of_lt_of_le hl hd.extends.arenas)
  rw [Supply.sizesOf_append, Purchase.blocksOf_append, Supply.sizesOf_eq_map hs,
    Purchase.blocksOf_eq_map hp, ← hd.obtained] at hafter
  refine ⟨⟨?_, h.fails.trans hf⟩, ?_, ?_, ?_⟩
  · obtain ⟨_, _, hd₀⟩ := h.deals
    exact ⟨_, _, hd₀.trans hd⟩
  · rw [hafter.served, hbefore.served, total_append, Nat.add_comm]
  · rw [hafter.reserved, hbefore.reserved, total_append, Nat.add_comm]
  · have hblocks := hbefore.blocks
    have hblocks' := hafter.blocks
    unfold Arena.blockCount at hblocks hblocks'
    rw [List.length_append] at hblocks'
    omega

theorem allocate (h : Midway system past n σ) (hw : ctx.system.Within system)
    (hl : a < σ.arenas.length) (size align : Word) :
    (a.allocate size align).Leads ctx σ
      (fun _ τ => Midway system past n τ ∧
        (σ.arena a).stats.Grows [size] (σ.obtained τ) (τ.arena a).stats)
      fun τ => Midway system past (n + 1) τ ∧
        (σ.arena a).stats.Grows [] (σ.obtained τ) (τ.arena a).stats :=
  ((ArenaId.buys_allocate hw hl size align).and (a.misses_allocate size align)).imp
    (fun _ _ hx => h.buys hpack hpast hl (fun _ hm => by rw [List.mem_singleton.mp hm]) hx.1 hx.2)
    fun _ hx => h.buys hpack hpast hl (fun _ hm => by cases hm) hx.1 hx.2

/-- What requests pass through that are made one after another. -/
theorem serveEach (h : Midway system past n σ) (hw : ctx.system.Within system)
    (hl : a < σ.arenas.length) (trace : List (Thread × Request)) :
    (a.serveEach trace).Leads ctx σ (fun _ τ => Midway system past (n + trace.length) τ)
      fun _ => False := by
  unfold ArenaId.serveEach
  induction trace generalizing σ n with
  | nil => exact leads_pure h
  | cons p trace ih =>
    rw [List.mapM_cons]
    have hone : (attempt (asThread p.1 (a.allocate p.2.size p.2.align))).Leads ctx σ
        (fun _ τ => Midway system past (n + 1) τ ∧ σ.Extends τ) fun _ => False := by
      have hw' : ({ ctx with caller := p.1 } : Context).system.Within system := hw
      refine leads_attempt (leads_asThread (((h.allocate hpack hpast hw' hl _ _).and
        (ArenaId.buys_allocate hw' hl _ _)).imp (fun _ τ hx => ⟨?_, hx.2.extends⟩)
          fun τ hx _ => ⟨hx.1.1, hx.2.extends⟩))
      exact hx.1.1.mono (Nat.le_succ n)
    refine hone.bind fun outcome τ ho => ?_
    refine (ih ho.1 (Nat.lt_of_lt_of_le hl ho.2.arenas)).bind fun outcomes ρ hρ => leads_pure ?_
    rw [List.length_cons, Nat.add_comm trace.length, ← Nat.add_assoc]
    exact hρ

omit hpack hpast in
/-- A list is built from an arena of its own, of which at most one request fails. -/
theorem build (h : Midway system past n σ) (hw : ctx.system.Within system)
    (b : VariadicBuilder) :
    b.build.Leads ctx σ (fun _ τ => Midway system past n τ) (Midway system past (n + 1)) := by
  obtain ⟨_, _, hd⟩ := h.deals
  refine ((b.trades_build hw).and b.misses_build).imp (fun _ τ hx => ⟨?_, h.fails.trans hx.2⟩)
    fun τ hx => ⟨?_, h.fails.trans hx.2⟩
  all_goals
    obtain ⟨_, _, _, _, hd'⟩ := hx.1
    exact ⟨_, _, hd.trans hd'⟩

theorem subExact_cursor (h : Midway system past n σ) {f : Frontier}
    (hf : (σ.arena a).frontier = some f) : Word.SubExact f.block.size f.cursor := by
  have hl := Store.lt_length_of_frontier hf
  exact Word.subExact_iff.mpr (((h.sound hpack hpast).arenas a hl).frontier f hf).2.2

theorem size_of_bounded (h : Midway system past n σ) {bytes : Word} {f : Frontier}
    (hcap : (σ.arena a).capacity = .bounded bytes) (hf : (σ.arena a).frontier = some f) :
    f.block.size = bytes := by
  obtain ⟨_, _, hb⟩ := h.booked hpack hpast
  rw [(hb.arenas a (Store.lt_length_of_frontier hf)).frontier f hf, hcap]
  rfl

/-- The counters leave room for a block that the system has for the arena. -/
theorem addExact_placed (h : Midway system past n σ) (hw : ctx.system.Within system)
    (hl : a < σ.arenas.length) (halive : σ.IsAlive (σ.arena a).scope) {size align base : Word}
    (ha : align.IsPowerOfTwo) (hb : ctx.system.request σ.events (σ.poolOf (σ.arena a).scope) size
      align = some base) :
    Word.AddExact (σ.arena a).stats.blocks 1 ∧ Word.AddExact (σ.arena a).stats.dedicated 1 ∧
      Word.AddExact (σ.arena a).stats.reserved size ∧
      Word.AddExact (σ.arena a).stats.served size := by
  obtain ⟨_, _, hbooked⟩ := h.booked hpack hpast
  have hcovered := UInt64.le_iff_toNat_le.mp (hbooked.arenas a hl).covered
  obtain ⟨hcount, hbytes⟩ :=
    hbooked.room (h.sound hpack hpast) hpack hl halive ha (hw.place hb)
  have hone : (1 : Word).toNat = 1 := rfl
  unfold Arena.blockCount at hcount
  simp only [Word.addExact_iff, hone]
  omega

/-- What is served from a block was counted with it. -/
theorem addExact_carved (h : Midway system past n σ) {f : Frontier}
    (hf : (σ.arena a).frontier = some f) {size align start : Word} (ha : align.IsPowerOfTwo)
    (hfit : f.fit? size align = some start) : Word.AddExact (σ.arena a).stats.served size := by
  obtain ⟨_, _, hbooked⟩ := h.booked hpack hpast
  obtain ⟨hc, _, hend⟩ := Frontier.fit?_spec ha hfit
  have hroom := (hbooked.arenas a (Store.lt_length_of_frontier hf)).room
  have hremaining : (f.block.size.toNat : Int) - f.cursor.toNat = (σ.arena a).remaining.toNat := by
    unfold Arena.remaining
    rw [hf]
    exact (h.subExact_cursor hpack hpast hf).symm
  have hlt := (σ.arena a).stats.reserved.toNat_lt
  rw [Word.addExact_iff]
  change _ < 0x10000000000000000 at hlt
  omega

theorem bytes_lt (h : Midway system past n σ) (s : ScopeId) :
    total (·.size.toNat) (σ.scope s).blocks < 0x10000000000000000 := by
  by_cases hl : s < σ.scopes.length
  · exact (h.sound hpack hpast).bytes_lt hpack hl
  · rw [Store.scope_of_length_le (Nat.le_of_not_lt hl)]
    decide

end Midway

theorem Midway.addExact_failed (h : Midway system past n σ)
    (hfew : callsIn past + n + 1 < 0x10000000000000000) (a : ArenaId) :
    Word.AddExact (σ.arena a).stats.failed 1 := by
  have hbefore := (play_modest past).failed a
  have hafter := h.fails a
  rw [Word.addExact_iff]
  show (σ.arena a).stats.failed.toNat + 1 < _
  omega

/-! ### All of it -/

/-- Whatever is asked for after the run, words are added, subtracted and multiplied as the numbers
that they stand for are, where nothing checks it. -/
structure Exact (system : SystemAllocator) (past : List Move) : Prop where
  fit : ∀ (f : Frontier) {size align : Word}, checkRequest size align = .ok () →
    Word.SubExact align 1 ∧
    (∀ {next padded}, Word.add? f.block.start f.cursor = some next →
      Word.add? next (align - 1) = some padded →
        Word.SubExact (padded.roundDown align) f.block.start) ∧
    ∀ {start}, f.fit? size align = some start → Word.AddExact start size
  remaining : ∀ {n σ}, Midway system past n σ → ∀ {a f}, (σ.arena a).frontier = some f →
    Word.SubExact f.block.size f.cursor
  /-- What a bounded arena has left when it refuses a request. -/
  available : ∀ {n σ}, Midway system past n σ → ∀ {a bytes f},
    (σ.arena a).capacity = .bounded bytes → (σ.arena a).frontier = some f →
    Word.SubExact bytes f.cursor
  span : ∀ (r : Region) {offset : Word}, (offset ≤ r.size → Word.SubExact r.size offset) ∧
    (∀ {length}, r.checkSpan offset length = .ok () → Word.AddExact r.start offset) ∧
    ∀ {length}, r.checkBuffer offset length = .ok () → Word.AddExact r.start offset
  contains : ∀ (b : Block) {start length : Word},
    (b.base ≤ start → Word.SubExact start b.base) ∧
    (length ≤ b.size → Word.SubExact b.size length)
  position : ∀ {name v c}, (play past).list? name = some v → v.cursor = some c →
    Word.SubExact c.remaining.start c.start
  slots : ∀ {b : VariadicBuilder}, b.arguments.length < 0x10000000000000000 → ∀ {size},
    Word.mul? b.convention.slotSize (.ofNat b.arguments.length) = some size →
    ∀ index < b.arguments.length, (UInt64.ofNat index).toNat = index ∧
      Word.MulExact (.ofNat index) b.convention.slotSize
  staged : ∀ {name b}, (play past).builder? name = some b → b.arguments.length ≤ callsIn past
  /-- What is counted when the system has a block. -/
  placed : ∀ {n σ}, Midway system past n σ → ∀ {ctx : Context} {a : ArenaId} {size align base},
    ctx.system.Within system → a < σ.arenas.length → σ.IsAlive (σ.arena a).scope →
    align.IsPowerOfTwo →
    ctx.system.request σ.events (σ.poolOf (σ.arena a).scope) size align = some base →
    Word.AddExact (σ.arena a).stats.blocks 1 ∧ Word.AddExact (σ.arena a).stats.dedicated 1 ∧
      Word.AddExact (σ.arena a).stats.reserved size ∧ Word.AddExact (σ.arena a).stats.served size
  carved : ∀ {n σ}, Midway system past n σ → ∀ {a f}, (σ.arena a).frontier = some f →
    ∀ {size align start}, checkRequest size align = .ok () → f.fit? size align = some start →
    Word.AddExact (σ.arena a).stats.served size
  start : Midway system past 0 (play past).store
  request : ∀ {n σ}, Midway system past n σ → ∀ {ctx : Context} {a : ArenaId},
    ctx.system.Within system → a < σ.arenas.length → ∀ size align,
    (a.allocate size align).Leads ctx σ
      (fun _ τ => Midway system past n τ ∧
        (σ.arena a).stats.Grows [size] (σ.obtained τ) (τ.arena a).stats)
      fun τ => Midway system past (n + 1) τ ∧
        (σ.arena a).stats.Grows [] (σ.obtained τ) (τ.arena a).stats
  requests : ∀ {n σ}, Midway system past n σ → ∀ {ctx : Context} {a : ArenaId},
    ctx.system.Within system → a < σ.arenas.length → ∀ trace,
    (a.serveEach trace).Leads ctx σ (fun _ τ => Midway system past (n + trace.length) τ)
      fun _ => False
  building : ∀ {n σ}, Midway system past n σ → ∀ {ctx : Context}, ctx.system.Within system →
    ∀ b : VariadicBuilder, b.build.Leads ctx σ (fun _ τ => Midway system past n τ)
      (Midway system past (n + 1))
  /-- The request that fails next is counted too. -/
  failed : ∀ {n σ}, Midway system past n σ → callsIn past + n + 1 < 0x10000000000000000 →
    ∀ a, Word.AddExact (σ.arena a).stats.failed 1
  memoryBytes : ∀ {n σ}, Midway system past n σ → ∀ s,
    (σ.scope s).memoryBytes.toNat = total (·.size.toNat) (σ.scope s).blocks ∧
    ∀ {bs b cs}, (bs ++ b :: cs).Perm (σ.scope s).blocks →
      Word.AddExact ({ σ.scope s with blocks := bs } : Scope).memoryBytes b.size

theorem play_exact (hpack : system.Packs) (hw : ∀ m ∈ past, m.Within system) :
    Exact system past where
  fit f size align hq := by
    have ha := ArenaId.isPowerOfTwo_of_checkRequest hq
    refine ⟨Word.subExact_iff.mpr ha.pos, Frontier.subExact_base ha, fun hfit => ?_⟩
    have hend := (Frontier.fit?_spec ha hfit).2.2
    rw [Word.addExact_iff]
    exact Nat.lt_of_le_of_lt hend f.block.size.toNat_lt
  remaining h _ _ hf := h.subExact_cursor hpack hw hf
  available h _ _ _ hcap hf := h.size_of_bounded hpack hw hcap hf ▸ h.subExact_cursor hpack hw hf
  span r offset := by
    have hspan : ∀ {length}, r.checkSpan offset length = .ok () →
        Word.AddExact r.start offset := fun h => by
      rw [Word.addExact_iff]
      exact Nat.lt_of_le_of_lt (Nat.le_add_right _ _) (Region.checkSpan_eq_ok_iff.mp h).2
    refine ⟨fun h => Word.subExact_iff.mpr (UInt64.le_iff_toNat_le.mp h), hspan, fun h => ?_⟩
    unfold Region.checkBuffer at h
    split at h
    next => exact hspan h
    next => cases h
  contains b start length := ⟨fun h => Word.subExact_iff.mpr (UInt64.le_iff_toNat_le.mp h),
    fun h => Word.subExact_iff.mpr (UInt64.le_iff_toNat_le.mp h)⟩
  position hv hc := Word.subExact_iff.mpr (play_onward hpack.toSeparate hw _
    (HandleTable.mem_of_find? (Session.find?_of_list? hv)) _ _ rfl hc)
  slots hb _ hsize _ hi := VariadicBuilder.mulExact_slot hb hsize hi
  staged hb := (play_modest past).staged _
    (HandleTable.mem_of_find? (Session.find?_of_builder? hb)) _ rfl
  placed h _ _ _ _ _ hctx hl halive ha hb :=
    h.addExact_placed hpack hw hctx hl halive ha hb
  carved h _ _ hf _ _ _ hq hfit :=
    h.addExact_carved hpack hw hf (ArenaId.isPowerOfTwo_of_checkRequest hq) hfit
  start := midway_play system past
  request h _ _ hctx hl size align := h.allocate hpack hw hctx hl size align
  requests h _ _ hctx hl trace := h.serveEach hpack hw hctx hl trace
  building h _ hctx b := h.build hctx b
  failed h hfew a := h.addExact_failed hfew a
  memoryBytes h s := ⟨Scope.toNat_memoryBytes (h.bytes_lt hpack hw s),
    Scope.addExact_blocks (h.bytes_lt hpack hw s)⟩

/-- A bounded arena that refuses a request, a list that ends at the last address, and a builder. -/
def edgeCalls : List (Thread × Call) :=
  [(0, .scope (.create .shared "s")),
    (0, .allocation (.arena "s" (.bounded 40) {} .confined "a")),
    (0, .allocation (.allocate (.raw 20 8) "a" none)),
    (0, .allocation (.allocate (.raw 0x7fffffffffffffff 0x8000000000000000) "a" none)),
    (0, .variadic (.adopt 0xffffffffffffffe0 "s" .win64 "v")),
    (0, .variadic (.skip [.cInt, .cInt] "v")),
    (0, .variadic (.builder "s" .win64 "b")),
    (0, .variadic (.push .cInt (.int 7) "b"))]

theorem edgeCalls_exact :
    (∀ m ∈ movesOf TwinHeaps.system edgeCalls, m.Within TwinHeaps.system) ∧
    (play (movesOf TwinHeaps.system edgeCalls)).list? "v" = some ⟨.win64, 1,
      some ⟨0xffffffffffffffe0, ⟨0xfffffffffffffff0, 15, 1⟩, true⟩⟩ ∧
    Word.SubExact 0xfffffffffffffff0 0xffffffffffffffe0 ∧
    ((play (movesOf TwinHeaps.system edgeCalls)).store.arena 0).frontier =
      some ⟨⟨0x20000010, 40, 1⟩, 20⟩ ∧
    Word.SubExact 40 20 ∧
    ((play (movesOf TwinHeaps.system edgeCalls)).store.arena 0).stats.failed = 1 ∧
    Word.AddExact 1 1 ∧
    ((play (movesOf TwinHeaps.system edgeCalls)).store.scope 1).memoryBytes.toNat = 40 := by
  have hw := within_movesOf TwinHeaps.system edgeCalls
  have h := play_exact TwinHeaps.lawful.packs hw
  have hlist : (play (movesOf TwinHeaps.system edgeCalls)).list? "v" = some ⟨.win64, 1,
      some ⟨0xffffffffffffffe0, ⟨0xfffffffffffffff0, 15, 1⟩, true⟩⟩ := rfl
  have hposition := h.position hlist rfl
  have harena : (play (movesOf TwinHeaps.system edgeCalls)).store.arena 0 =
      ⟨1, .bounded 40, 16, some ⟨⟨0x20000010, 40, 1⟩, 20⟩,
        { blocks := 1, served := 20, reserved := 40, failed := 1 }⟩ := by decide +kernel
  have hblocks : ((play (movesOf TwinHeaps.system edgeCalls)).store.scope 1).blocks =
      [⟨0x20000010, 40⟩] := by decide +kernel
  have hcapacity : ((play (movesOf TwinHeaps.system edgeCalls)).store.arena 0).capacity =
      .bounded 40 := by rw [harena]
  have hfrontier : ((play (movesOf TwinHeaps.system edgeCalls)).store.arena 0).frontier =
      some ⟨⟨0x20000010, 40, 1⟩, 20⟩ := by rw [harena]
  have havailable := h.available h.start hcapacity hfrontier
  have hfailed := h.failed h.start (by decide +kernel) 0
  rw [harena] at hfailed
  have hbytes : ((play (movesOf TwinHeaps.system edgeCalls)).store.scope 1).memoryBytes.toNat =
      40 := by
    rw [(h.memoryBytes h.start 1).1, hblocks]
    rfl
  exact ⟨hw, hlist, hposition, hfrontier, havailable, by rw [harena], hfailed, hbytes⟩

end ScopedMemory
