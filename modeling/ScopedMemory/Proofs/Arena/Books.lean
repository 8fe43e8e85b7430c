import ScopedMemory.Proofs.Arena.Deals
import ScopedMemory.Proofs.Heap.Packing

namespace ScopedMemory

variable {system : SystemAllocator} {strict : Prop} {waiting : List Block} {σ τ : Store}
  {a : ArenaId} {s : ScopeId} {ss ss' : List Supply} {ps ps' : List Purchase}

/-! ### What went to whom -/

/-- The sizes of what the allocator has served. -/
def Supply.sizesOf (w : Allocator) (ss : List Supply) : List Word :=
  (ss.filter (·.source = w)).map (·.size)

/-- The blocks that the allocator has obtained. -/
def Purchase.blocksOf (w : Allocator) (ps : List Purchase) : List Block :=
  (ps.filter (·.buyer = w)).map (·.block)

namespace Supply

@[simp] theorem sizesOf_append (w : Allocator) (ss ss' : List Supply) :
    sizesOf w (ss ++ ss') = sizesOf w ss ++ sizesOf w ss' := by
  simp only [sizesOf, List.filter_append, List.map_append]

theorem sizesOf_cons (w : Allocator) (x : Supply) (ss : List Supply) :
    sizesOf w (x :: ss) = (if x.source = w then [x.size] else []) ++ sizesOf w ss := by
  unfold sizesOf
  by_cases hw : x.source = w
  · rw [if_pos hw, List.filter_cons_of_pos (by simpa using hw)]
    rfl
  · rw [if_neg hw, List.filter_cons_of_neg (by simpa using hw)]
    rfl

theorem sizesOf_eq_nil {w : Allocator} (h : ∀ x ∈ ss, x.source ≠ w) : sizesOf w ss = [] := by
  unfold sizesOf
  rw [List.filter_eq_nil_iff.mpr fun x hx => by simpa using h x hx, List.map_nil]

theorem sizesOf_eq_map {w : Allocator} (h : ∀ x ∈ ss, x.source = w) :
    sizesOf w ss = ss.map (·.size) := by
  unfold sizesOf
  rw [List.filter_eq_self.mpr fun x hx => by simpa using h x hx]

end Supply

namespace Purchase

@[simp] theorem blocksOf_append (w : Allocator) (ps ps' : List Purchase) :
    blocksOf w (ps ++ ps') = blocksOf w ps ++ blocksOf w ps' := by
  simp only [blocksOf, List.filter_append, List.map_append]

theorem blocksOf_cons (w : Allocator) (p : Purchase) (ps : List Purchase) :
    blocksOf w (p :: ps) = (if p.buyer = w then [p.block] else []) ++ blocksOf w ps := by
  unfold blocksOf
  by_cases hw : p.buyer = w
  · rw [if_pos hw, List.filter_cons_of_pos (by simpa using hw)]
    rfl
  · rw [if_neg hw, List.filter_cons_of_neg (by simpa using hw)]
    rfl

theorem blocksOf_eq_nil {w : Allocator} (h : ∀ p ∈ ps, p.buyer ≠ w) : blocksOf w ps = [] := by
  unfold blocksOf
  rw [List.filter_eq_nil_iff.mpr fun x hx => by simpa using h x hx, List.map_nil]

theorem blocksOf_eq_map {w : Allocator} (h : ∀ p ∈ ps, p.buyer = w) :
    blocksOf w ps = ps.map (·.block) := by
  unfold blocksOf
  rw [List.filter_eq_self.mpr fun x hx => by simpa using h x hx]

end Purchase

/-! ### One arena -/

namespace Arena

/-- How many blocks the arena counts. -/
def blockCount (ar : Arena) : Nat := ar.stats.blocks.toNat + ar.stats.dedicated.toNat

/-- The counters of an arena tell what it served and what it obtained. -/
structure Accounts (ar : Arena) (sizes : List Word) (bs : List Block) : Prop where
  served : ar.stats.served.toNat = total UInt64.toNat sizes
  blocks : ar.blockCount = bs.length
  reserved : ar.stats.reserved.toNat = total (·.size.toNat) bs
  covered : ar.stats.served ≤ ar.stats.reserved
  bounded : ar.IsBounded → ar.stats.blocks ≤ 1 ∧ ar.stats.dedicated = 0
  /-- What is larger than a block is served by a dedicated one. -/
  unbounded : ∀ n, ar.capacity = .unbounded n →
    ar.stats.dedicated.toNat = (sizes.filter (n < ·)).length ∧
    ar.stats.reserved.toNat =
      n.toNat * ar.stats.blocks.toNat + total UInt64.toNat (sizes.filter (n < ·))

/-- The counters agree with the block that the arena carves from as well. -/
structure Books (ar : Arena) (sizes : List Word) (bs : List Block) : Prop
    extends ar.Accounts sizes bs where
  room : ar.stats.served.toNat + ar.remaining.toNat ≤ ar.stats.reserved.toNat
  unused : ar.IsBounded → ar.frontier = none → ar.stats.blocks = 0
  frontier : ∀ f, ar.frontier = some f → f.block.size = ar.capacity.blockSize

variable {ar : Arena} {sizes : List Word} {bs : List Block} {f : Frontier} {size start n : Word}

theorem books_new (s : ScopeId) (capacity : ArenaCapacity) (align : Word) :
    Books ⟨s, capacity, align, none, {}⟩ [] [] where
  served := rfl
  blocks := rfl
  reserved := rfl
  covered := UInt64.le_refl _
  bounded _ := ⟨UInt64.le_iff_toNat_le.mpr (Nat.zero_le _), rfl⟩
  unbounded n _ := ⟨rfl, (Nat.mul_zero n.toNat).symm⟩
  room := Nat.le_refl _
  unused _ _ := rfl
  frontier _ hf := by cases hf

theorem Books.failed (h : ar.Books sizes bs) :
    Books { ar with stats := ar.stats.addFailed } sizes bs :=
  ⟨⟨h.served, h.blocks, h.reserved, h.covered, h.bounded, h.unbounded⟩, h.room, h.unused,
    h.frontier⟩

/-- What is carved was left in the block, so it has been counted as reserved. -/
theorem Books.carve (h : ar.Books sizes bs) (hf : ar.frontier = some f)
    (hold : f.cursor.toNat ≤ f.block.size.toNat) (hc : f.cursor.toNat ≤ start.toNat)
    (hp : f.block.Spans start size) :
    Books { ar with
      frontier := some { f with cursor := start + size }
      stats := ar.stats.addServed size } (size :: sizes) bs := by
  have hroom := h.room
  have hlt := ar.stats.reserved.toNat_lt
  have hcursor : (start + size).toNat = start.toNat + size.toNat := by
    have := f.block.size.toNat_lt
    rw [UInt64.toNat_add, Nat.mod_eq_of_lt (by have := hp.1; omega)]
  have hbefore : ar.remaining.toNat = f.block.size.toNat - f.cursor.toNat := by
    unfold remaining
    rw [hf]
    exact UInt64.toNat_sub_of_le _ _ (UInt64.le_iff_toNat_le.mpr hold)
  have hafter : (f.block.size - (start + size)).toNat =
      f.block.size.toNat - (start.toNat + size.toNat) := by
    rw [UInt64.toNat_sub_of_le _ _ (UInt64.le_iff_toNat_le.mpr (by rw [hcursor]; exact hp.1)),
      hcursor]
  have hfits := hp.1
  have hserved : (ar.stats.served + size).toNat = ar.stats.served.toNat + size.toNat := by
    rw [UInt64.toNat_add, Nat.mod_eq_of_lt (by omega)]
  refine ⟨⟨?_, h.blocks, h.reserved, ?_, h.bounded, fun n hn => ?_⟩, ?_, fun _ hn => ?_,
    fun g hg => ?_⟩
  · show (ar.stats.served + size).toNat = _
    rw [hserved, h.served, total_cons, Nat.add_comm]
  · show ar.stats.served + size ≤ ar.stats.reserved
    rw [UInt64.le_iff_toNat_le, hserved]
    omega
  · have hn' : ¬ n < size := by
      have hblock : f.block.size = n := by
        rw [h.frontier f hf, hn]
        rfl
      rw [UInt64.lt_iff_toNat_lt, ← hblock]
      omega
    rw [List.filter_cons_of_neg (by simpa using hn')]
    exact h.unbounded n hn
  · show (ar.stats.served + size).toNat + (f.block.size - (start + size)).toNat ≤ _
    rw [hserved, hafter]
    show _ ≤ ar.stats.reserved.toNat
    omega
  · cases hn
  · cases hg
    exact h.frontier f hf

theorem Books.install (h : ar.Books sizes bs) {b : Block} {r : Region} (hr : r.size = b.size)
    (hfirst : ar.IsBounded → ar.frontier = none)
    (hsize : b.size = ar.capacity.blockSize)
    (hcount : ar.blockCount + 1 < 0x10000000000000000)
    (hbytes : ar.stats.reserved.toNat + b.size.toNat < 0x10000000000000000) :
    Books { ar with
      frontier := some ⟨r, 0⟩
      stats := ar.stats.addBlock b.size } sizes (b :: bs) := by
  have hroom := h.room
  unfold blockCount at hcount
  have hone : (ar.stats.blocks + 1).toNat = ar.stats.blocks.toNat + 1 := by
    rw [UInt64.toNat_add, Nat.mod_eq_of_lt (by show _ + 1 < _; omega)]
    rfl
  have hreserved : (ar.stats.reserved + b.size).toNat = ar.stats.reserved.toNat + b.size.toNat := by
    rw [UInt64.toNat_add, Nat.mod_eq_of_lt hbytes]
  refine ⟨⟨h.served, ?_, ?_, ?_, fun hb => ?_, fun n hn => ?_⟩, ?_, fun _ hn => ?_,
    fun g hg => ?_⟩
  · have hblocks := h.blocks
    show (ar.stats.blocks + 1).toNat + ar.stats.dedicated.toNat = bs.length + 1
    unfold blockCount at hblocks
    omega
  · show (ar.stats.reserved + b.size).toNat = _
    rw [hreserved, h.reserved, total_cons, Nat.add_comm]
  · show ar.stats.served ≤ ar.stats.reserved + b.size
    rw [UInt64.le_iff_toNat_le, hreserved]
    omega
  · refine ⟨?_, (h.bounded hb).2⟩
    show ar.stats.blocks + 1 ≤ 1
    rw [h.unused hb (hfirst hb)]
    decide
  · obtain ⟨hded, hres⟩ := h.unbounded n hn
    refine ⟨hded, ?_⟩
    show (ar.stats.reserved + b.size).toNat = n.toNat * (ar.stats.blocks + 1).toNat + _
    have hb : b.size = n := by
      rw [hsize, hn]
      rfl
    rw [hreserved, hone, hres, hb, Nat.mul_add]
    omega
  · show ar.stats.served.toNat + (r.size - 0).toNat ≤ (ar.stats.reserved + b.size).toNat
    rw [hr, UInt64.sub_zero, hreserved]
    omega
  · cases hn
  · cases hg
    exact hr.trans hsize

theorem Books.dedicated (h : ar.Books sizes bs) {b : Block} (hn : ar.capacity = .unbounded n)
    (hlarge : n < b.size) (hcount : ar.blockCount + 1 < 0x10000000000000000)
    (hbytes : ar.stats.reserved.toNat + b.size.toNat < 0x10000000000000000) :
    Books { ar with stats := ar.stats.addDedicated b.size } (b.size :: sizes) (b :: bs) := by
  have hroom := h.room
  obtain ⟨hded, hres⟩ := h.unbounded n hn
  unfold blockCount at hcount
  have hbound : ¬ ar.IsBounded := fun hb => by
    obtain ⟨m, hm⟩ := hb
    cases hn.symm.trans hm
  have hone : (ar.stats.dedicated + 1).toNat = ar.stats.dedicated.toNat + 1 := by
    rw [UInt64.toNat_add, Nat.mod_eq_of_lt (by show _ + 1 < _; omega)]
    rfl
  have hreserved : (ar.stats.reserved + b.size).toNat = ar.stats.reserved.toNat + b.size.toNat := by
    rw [UInt64.toNat_add, Nat.mod_eq_of_lt hbytes]
  have hserved : (ar.stats.served + b.size).toNat = ar.stats.served.toNat + b.size.toNat := by
    rw [UInt64.toNat_add, Nat.mod_eq_of_lt (by omega)]
  refine ⟨⟨?_, ?_, ?_, ?_, fun hb => absurd hb hbound, fun m hm => ?_⟩, ?_,
    fun hb => absurd hb hbound, h.frontier⟩
  · show (ar.stats.served + b.size).toNat = _
    rw [hserved, h.served, total_cons, Nat.add_comm]
  · have hblocks := h.blocks
    show ar.stats.blocks.toNat + (ar.stats.dedicated + 1).toNat = bs.length + 1
    unfold blockCount at hblocks
    omega
  · show (ar.stats.reserved + b.size).toNat = _
    rw [hreserved, h.reserved, total_cons, Nat.add_comm]
  · show ar.stats.served + b.size ≤ ar.stats.reserved + b.size
    rw [UInt64.le_iff_toNat_le, hserved, hreserved]
    omega
  · obtain rfl : n = m := by
      cases hn.symm.trans hm
      rfl
    rw [List.filter_cons_of_pos (by simpa using hlarge)]
    refine ⟨?_, ?_⟩
    · show (ar.stats.dedicated + 1).toNat = _
      rw [hone, hded, List.length_cons]
    · show (ar.stats.reserved + b.size).toNat = n.toNat * ar.stats.blocks.toNat + _
      rw [hreserved, hres, total_cons, Nat.add_assoc]
      exact congrArg _ (Nat.add_comm _ _)
  · show (ar.stats.served + b.size).toNat + ar.remaining.toNat ≤ (ar.stats.reserved + b.size).toNat
    rw [hserved, hreserved]
    omega

/-- How many blocks of the scope the arena counts. -/
def blocksIn (s : ScopeId) (ar : Arena) : Nat := if ar.scope = s then ar.blockCount else 0

/-- How many bytes of the scope the arena counts as reserved. -/
def bytesIn (s : ScopeId) (ar : Arena) : Nat :=
  if ar.scope = s then ar.stats.reserved.toNat else 0

end Arena

/-! ### All arenas and scopes -/

/-- The scope or the arena that the allocator stands for was created. -/
def Allocator.Exists (σ : Store) : Allocator → Prop
  | direct s => s < σ.scopes.length
  | arena a => a < σ.arenas.length
  | perRequest _ | recycling _ => True

theorem Allocator.Exists.mono {w : Allocator} (h : w.Exists σ)
    (hs : σ.scopes.length ≤ τ.scopes.length) (ha : σ.arenas.length ≤ τ.arenas.length) :
    w.Exists τ := by
  cases w with
  | direct s => exact Nat.lt_of_lt_of_le h hs
  | arena a => exact Nat.lt_of_lt_of_le h ha
  | _ => trivial

namespace Store

/-- The counters of all arenas, and the blocks of all scopes that are alive, tell what has been
served and obtained. -/
structure Booked (σ : Store) (ss : List Supply) (ps : List Purchase) : Prop where
  arenas : ∀ a < σ.arenas.length,
    (σ.arena a).Books (Supply.sizesOf (.arena a) ss) (Purchase.blocksOf (.arena a) ps)
  count : ∀ s, σ.IsAlive s → (σ.scope s).blockCount =
    (Supply.sizesOf (.direct s) ss).length + total (Arena.blocksIn s) σ.arenas
  bytes : ∀ s, σ.IsAlive s → total (·.size.toNat) (σ.scope s).blocks =
    total UInt64.toNat (Supply.sizesOf (.direct s) ss) + total (Arena.bytesIn s) σ.arenas
  sources : ∀ x ∈ ss, x.source.Exists σ
  buyers : ∀ p ∈ ps, p.buyer.Exists σ

/-- Arenas and the blocks of scopes stay as they are, though scopes may end. -/
structure Quiet (σ τ : Store) : Prop where
  arenas : τ.arenas = σ.arenas
  scopes : τ.scopes.length = σ.scopes.length
  blocks : ∀ s, τ.IsAlive s → σ.IsAlive s ∧ (τ.scope s).blocks = (σ.scope s).blocks

theorem Booked.quiet (h : σ.Booked ss ps) (hq : σ.Quiet τ) : τ.Booked ss ps := by
  have harena : ∀ a, τ.arena a = σ.arena a := fun a => by
    unfold arena
    rw [hq.arenas]
  have hexists : ∀ w : Allocator, w.Exists σ → w.Exists τ := fun w hw =>
    hw.mono (Nat.le_of_eq hq.scopes.symm) (Nat.le_of_eq (congrArg List.length hq.arenas.symm))
  refine ⟨fun a hl => ?_, fun s hs => ?_, fun s hs => ?_, fun x hx => hexists _ (h.sources x hx),
    fun p hp => hexists _ (h.buyers p hp)⟩
  · rw [hq.arenas] at hl
    rw [harena]
    exact h.arenas a hl
  · obtain ⟨ha, hb⟩ := hq.blocks s hs
    rw [Scope.blockCount, hb, hq.arenas]
    exact h.count s ha
  · obtain ⟨ha, hb⟩ := hq.blocks s hs
    rw [hb, hq.arenas]
    exact h.bytes s ha

theorem blocks_addBlock (hl : s < σ.scopes.length) (b : Block) (t : ScopeId) :
    ((σ.addBlock s b).scope t).blocks = (if t = s then [b] else []) ++ (σ.scope t).blocks := by
  rw [scope_addBlock]
  by_cases ht : t = s
  · rw [if_pos ⟨ht, hl⟩, if_pos ht, ht]
    rfl
  · rw [if_neg fun hc => ht hc.1, if_neg ht]
    rfl

theorem isAlive_of_addBlock {b : Block} (t : ScopeId) (ht : (σ.addBlock s b).IsAlive t) :
    σ.IsAlive t :=
  ((extends_addBlock σ s b).isAlive_iff
    (length_scopes_addBlock σ s b ▸ lt_length_of_isAlive ht)).mp ht

theorem arena_mem (hl : a < σ.arenas.length) : σ.arena a ∈ σ.arenas := by
  have he : σ.arena a = σ.arenas[a] := by simp [arena, hl]
  exact he ▸ List.getElem_mem hl

theorem total_modifyArena (σ : Store) (f : Arena → Nat) (g : Arena → Arena)
    (hl : a < σ.arenas.length) :
    total f (σ.modifyArena a g).arenas + f (σ.arena a) =
      total f σ.arenas + f (g (σ.arena a)) :=
  total_modify f g _ hl

/-- An arena gets blocks for its scope, or none, and counts what it gets. -/
theorem Booked.gain {f : Arena → Arena} (h : σ.Booked ss ps) (hl : a < σ.arenas.length)
    (bs : List Block) (hscopes : τ.scopes.length = σ.scopes.length)
    (harenas : τ.arenas = (σ.modifyArena a f).arenas) (halive : ∀ s, τ.IsAlive s → σ.IsAlive s)
    (hblocks : ∀ s, (τ.scope s).blocks =
      (if s = (σ.arena a).scope then bs else []) ++ (σ.scope s).blocks)
    (hscope : (f (σ.arena a)).scope = (σ.arena a).scope)
    (hcount : (f (σ.arena a)).blockCount = (σ.arena a).blockCount + bs.length)
    (hbytes : (f (σ.arena a)).stats.reserved.toNat =
      (σ.arena a).stats.reserved.toNat + total (·.size.toNat) bs)
    (hss : ∀ x ∈ ss', x.source = .arena a) (hps : ∀ p ∈ ps', p.buyer = .arena a)
    (hbooks : (f (σ.arena a)).Books (ss'.map (·.size) ++ Supply.sizesOf (.arena a) ss)
      (ps'.map (·.block) ++ Purchase.blocksOf (.arena a) ps)) :
    τ.Booked (ss' ++ ss) (ps' ++ ps) := by
  have hlen : τ.arenas.length = σ.arenas.length := by
    rw [harenas, length_arenas_modifyArena]
  have hdirect : ∀ s, Supply.sizesOf (.direct s) (ss' ++ ss) = Supply.sizesOf (.direct s) ss :=
    fun s => by
      rw [Supply.sizesOf_append, Supply.sizesOf_eq_nil fun x hx => by rw [hss x hx]; nofun]
      rfl
  have hexists : ∀ w : Allocator, w = .arena a ∨ w.Exists σ → w.Exists τ := by
    rintro w (rfl | hw)
    · exact Nat.lt_of_lt_of_eq hl hlen.symm
    · exact hw.mono (Nat.le_of_eq hscopes.symm) (Nat.le_of_eq hlen.symm)
  refine ⟨fun b hb => ?_, fun s hs => ?_, fun s hs => ?_, fun x hx => hexists _ ?_,
    fun p hp => hexists _ ?_⟩
  · have harena : τ.arena b = (σ.modifyArena a f).arena b := by
      unfold arena
      rw [harenas]
    rw [hlen] at hb
    rw [harena, arena_modifyArena, Supply.sizesOf_append, Purchase.blocksOf_append]
    by_cases hba : b = a
    · subst hba
      rw [if_pos ⟨rfl, hl⟩, Supply.sizesOf_eq_map hss, Purchase.blocksOf_eq_map hps]
      exact hbooks
    · have hne : (Allocator.arena a) ≠ .arena b := fun he => hba (Allocator.arena.inj he).symm
      rw [if_neg fun hc => hba hc.1, Supply.sizesOf_eq_nil fun x hx => by rw [hss x hx]; exact hne,
        Purchase.blocksOf_eq_nil fun p hp => by rw [hps p hp]; exact hne]
      exact h.arenas b hb
  · have ht := total_modifyArena σ (Arena.blocksIn s) f hl
    have hold := h.count s (halive s hs)
    unfold Scope.blockCount Arena.blocksIn at *
    rw [hdirect, hblocks, harenas, List.length_append]
    rw [hscope] at ht
    by_cases hse : s = (σ.arena a).scope
    · rw [if_pos hse.symm, if_pos hse.symm] at ht
      rw [if_pos hse]
      omega
    · rw [if_neg (Ne.symm hse), if_neg (Ne.symm hse)] at ht
      rw [if_neg hse, List.length_nil]
      omega
  · have ht := total_modifyArena σ (Arena.bytesIn s) f hl
    have hold := h.bytes s (halive s hs)
    unfold Arena.bytesIn at *
    rw [hdirect, hblocks, harenas, total_append]
    rw [hscope] at ht
    by_cases hse : s = (σ.arena a).scope
    · rw [if_pos hse.symm, if_pos hse.symm] at ht
      rw [if_pos hse]
      omega
    · rw [if_neg (Ne.symm hse), if_neg (Ne.symm hse)] at ht
      rw [if_neg hse, total_nil]
      omega
  · exact (List.mem_append.mp hx).imp (hss x) (h.sources x)
  · exact (List.mem_append.mp hp).imp (hps p) (h.buyers p)

theorem Booked.modifyArena {f : Arena → Arena} (h : σ.Booked ss ps) (hl : a < σ.arenas.length)
    (hscope : (f (σ.arena a)).scope = (σ.arena a).scope)
    (hcount : (f (σ.arena a)).blockCount = (σ.arena a).blockCount)
    (hbytes : (f (σ.arena a)).stats.reserved = (σ.arena a).stats.reserved)
    (hss : ∀ x ∈ ss', x.source = .arena a)
    (hbooks : (f (σ.arena a)).Books (ss'.map (·.size) ++ Supply.sizesOf (.arena a) ss)
      (Purchase.blocksOf (.arena a) ps)) : (σ.modifyArena a f).Booked (ss' ++ ss) ps := by
  show (σ.modifyArena a f).Booked (ss' ++ ss) ([] ++ ps)
  refine h.gain hl [] rfl rfl (fun _ hs => hs) (fun s => ?_) hscope hcount ?_ hss nofun hbooks
  · rw [ite_self]
    rfl
  · rw [hbytes]
    rfl

theorem Booked.buyBlock {f : Arena → Arena} (h : σ.Booked ss ps) (hl : a < σ.arenas.length)
    (halive : σ.IsAlive (σ.arena a).scope) (b : Block)
    (hscope : (f (σ.arena a)).scope = (σ.arena a).scope)
    (hss : ∀ x ∈ ss', x.source = .arena a)
    (hbooks : (f (σ.arena a)).Books (ss'.map (·.size) ++ Supply.sizesOf (.arena a) ss)
      (b :: Purchase.blocksOf (.arena a) ps)) :
    ((σ.addBlock (σ.arena a).scope b).modifyArena a f).Booked (ss' ++ ss)
      (⟨.arena a, b⟩ :: ps) := by
  have hold := h.arenas a hl
  show Booked _ (ss' ++ ss) ([⟨.arena a, b⟩] ++ ps)
  refine h.gain hl [b] (length_scopes_addBlock σ _ b) rfl isAlive_of_addBlock
    (blocks_addBlock (lt_length_of_isAlive halive) b) hscope ?_ ?_ hss
    (fun p hp => List.mem_singleton.mp hp ▸ rfl) hbooks
  · rw [hbooks.blocks, hold.blocks]
    rfl
  · rw [hbooks.reserved, hold.reserved, total_cons, Nat.add_comm]
    rfl

/-- Nothing has been served by a scope that is new, or obtained for it. -/
theorem Booked.addScope (h : σ.Booked ss ps) (hs : σ.Sound system strict waiting)
    (kind : ScopeKind) (t : Thread) : (σ.addScope kind t).Booked ss ps := by
  have hexists : ∀ w : Allocator, w.Exists σ → w.Exists (σ.addScope kind t) := fun w hw =>
    hw.mono (by simp) (Nat.le_refl _)
  have hscope : ∀ ar ∈ σ.arenas, ar.scope ≠ σ.scopes.length := fun ar hm => by
    obtain ⟨a, hl, rfl⟩ := List.mem_iff_getElem.mp hm
    have he : σ.arena a = σ.arenas[a] := by simp [arena, hl]
    exact he ▸ Nat.ne_of_lt (hs.arenas a hl).scope
  have hnew : Supply.sizesOf (.direct σ.scopes.length) ss = [] :=
    Supply.sizesOf_eq_nil fun x hx he => by
      have hx' := h.sources x hx
      rw [he] at hx'
      exact Nat.lt_irrefl _ hx'
  refine ⟨h.arenas, fun s ha => ?_, fun s ha => ?_, fun x hx => hexists _ (h.sources x hx),
    fun p hp => hexists _ (h.buyers p hp)⟩
  · rw [IsAlive, scope_addScope] at ha
    rw [scope_addScope]
    by_cases hn : s = σ.scopes.length
    · have hzero : total (Arena.blocksIn s) σ.arenas = 0 :=
        total_eq_zero fun ar hm => if_neg (hn ▸ hscope ar hm)
      rw [if_pos hn, hn, hnew, List.length_nil, Nat.zero_add]
      exact (hn ▸ hzero).symm
    · rw [if_neg hn] at ha ⊢
      exact h.count s ha
  · rw [IsAlive, scope_addScope] at ha
    rw [scope_addScope]
    by_cases hn : s = σ.scopes.length
    · have hzero : total (Arena.bytesIn s) σ.arenas = 0 :=
        total_eq_zero fun ar hm => if_neg (hn ▸ hscope ar hm)
      rw [if_pos hn, hn, hnew, total_nil, total_nil, Nat.zero_add]
      exact (hn ▸ hzero).symm
    · rw [if_neg hn] at ha ⊢
      exact h.bytes s ha

theorem Booked.addArena (h : σ.Booked ss ps) (s : ScopeId) (capacity : ArenaCapacity)
    (align : Word) : (σ.addArena ⟨s, capacity, align, none, {}⟩).Booked ss ps := by
  have hexists : ∀ w : Allocator, w.Exists σ →
      w.Exists (σ.addArena ⟨s, capacity, align, none, {}⟩) := fun w hw =>
    hw.mono (Nat.le_refl _) (by simp)
  have hnew : ∀ f : Arena → Nat, f ⟨s, capacity, align, none, {}⟩ = 0 →
      total f (σ.addArena ⟨s, capacity, align, none, {}⟩).arenas = total f σ.arenas := by
    intro f hf
    rw [Store.addArena, total_append, total_cons, hf, total_nil, Nat.add_zero]
  have hzero : ∀ (t : ScopeId), (if s = t then 0 else 0) = 0 := fun t => ite_self 0
  refine ⟨fun a hl => ?_, fun t ha => ?_, fun t ha => ?_, fun x hx => hexists _ (h.sources x hx),
    fun p hp => hexists _ (h.buyers p hp)⟩
  · rw [arena_addArena]
    by_cases hn : a = σ.arenas.length
    · have hfresh : ∀ w : Allocator, w.Exists σ → w ≠ .arena a := fun w hw he => by
        rw [he] at hw
        exact Nat.lt_irrefl _ (Nat.lt_of_lt_of_eq hw hn.symm)
      rw [if_pos hn, Supply.sizesOf_eq_nil fun x hx => hfresh _ (h.sources x hx),
        Purchase.blocksOf_eq_nil fun p hp => hfresh _ (h.buyers p hp)]
      exact Arena.books_new s capacity align
    · rw [if_neg hn]
      rw [length_arenas_addArena] at hl
      exact h.arenas a (by omega)
  · rw [hnew _ (hzero t)]
    exact h.count t ha
  · rw [hnew _ (hzero t)]
    exact h.bytes t ha

theorem Booked.addBlock (h : σ.Booked ss ps) (hs : σ.IsAlive s) (b : Block) :
    (σ.addBlock s b).Booked (⟨.direct s, b.size⟩ :: ss) (⟨.direct s, b⟩ :: ps) := by
  have hl := lt_length_of_isAlive hs
  have hexists : ∀ w : Allocator, w = .direct s ∨ w.Exists σ → w.Exists (σ.addBlock s b) := by
    rintro w (rfl | hw)
    · exact Nat.lt_of_lt_of_eq hl (length_scopes_addBlock σ s b).symm
    · exact hw.mono (Nat.le_of_eq (length_scopes_addBlock σ s b).symm) (Nat.le_refl _)
  have hblocks := blocks_addBlock hl b
  have hsizes : ∀ t, Supply.sizesOf (.direct t) (⟨.direct s, b.size⟩ :: ss) =
      (if t = s then [b.size] else []) ++ Supply.sizesOf (.direct t) ss := fun t => by
    rw [Supply.sizesOf_cons]
    by_cases ht : t = s
    · rw [if_pos ht, if_pos (congrArg _ ht.symm)]
    · rw [if_neg ht, if_neg fun he => ht (Allocator.direct.inj he).symm]
  refine ⟨fun a ha => ?_, fun t ht => ?_, fun t ht => ?_, fun x hx => hexists _ ?_,
    fun p hp => hexists _ ?_⟩
  · rw [Supply.sizesOf_cons, if_neg nofun, Purchase.blocksOf_cons, if_neg nofun]
    exact h.arenas a ha
  · have hold := h.count t (isAlive_of_addBlock t ht)
    unfold Scope.blockCount at *
    rw [hblocks, hsizes, List.length_append, List.length_append, hold, Nat.add_assoc]
    congr 1
    split <;> rfl
  · have hold := h.bytes t (isAlive_of_addBlock t ht)
    rw [hblocks, hsizes, total_append, total_append, hold, Nat.add_assoc]
    congr 1
    split <;> rfl
  · exact (List.mem_cons.mp hx).imp (congrArg Supply.source) (h.sources x)
  · exact (List.mem_cons.mp hp).imp (congrArg Purchase.buyer) (h.buyers p)

/-- The counters do not wrap around, as the blocks of a scope leave room for one another. -/
theorem Booked.room (h : σ.Booked ss ps) (hs : σ.Sound system strict waiting)
    (hpack : system.Packs) (hl : a < σ.arenas.length) (halive : σ.IsAlive (σ.arena a).scope)
    {base size align : Word} (ha : align.IsPowerOfTwo)
    (hb : system.place σ.events (σ.poolOf (σ.arena a).scope) size align = some base) :
    (σ.arena a).blockCount + 1 < 0x10000000000000000 ∧
      (σ.arena a).stats.reserved.toNat + size.toNat < 0x10000000000000000 := by
  have hsl := lt_length_of_isAlive halive
  have hs' := hs.addBlock halive ha hb
  have hlen : (σ.arena a).scope < (σ.addBlock (σ.arena a).scope ⟨base, size⟩).scopes.length := by
    rw [length_scopes_addBlock]
    exact hsl
  have hcount := hs'.count_lt hpack hlen
  have hbytes := hs'.bytes_lt hpack hlen
  rw [scope_addBlock, if_pos ⟨rfl, hsl⟩] at hcount hbytes
  have hc := le_total_of_mem (Arena.blocksIn (σ.arena a).scope) (arena_mem hl)
  have hr := le_total_of_mem (Arena.bytesIn (σ.arena a).scope) (arena_mem hl)
  have hblocks := h.count _ halive
  have hsum := h.bytes _ halive
  unfold Arena.blocksIn at hc hblocks
  unfold Arena.bytesIn at hr hsum
  unfold Scope.blockCount at hblocks
  rw [if_pos rfl] at hc hr
  rw [List.length_cons] at hcount
  rw [total_cons] at hbytes
  dsimp only at hbytes
  exact ⟨by omega, by omega⟩

theorem Deal.booked (hd : Deal system σ ss' ps' τ) (h : σ.Booked ss ps)
    (hs : σ.Sound system strict waiting) (hpack : system.Packs) :
    τ.Booked (ss' ++ ss) (ps' ++ ps) := by
  cases hd with
  | scope kind t => exact h.addScope hs kind t
  | arena _ => exact h.addArena _ _ _
  | memory m => exact ⟨h.arenas, h.count, h.bytes, h.sources, h.buyers⟩
  | direct halive _ _ => exact h.addBlock halive _
  | failed hl => exact h.modifyArena hl rfl rfl rfl nofun (h.arenas _ hl).failed
  | @carve a f start size hl hf hc hp =>
    have hold := ((hs.arenas a hl).frontier f hf).2.2
    have hbooks := (h.arenas a hl).carve hf hold hc hp
    exact h.modifyArena hl rfl rfl rfl (fun x hx => List.mem_singleton.mp hx ▸ rfl) hbooks
  | @install a base size align hl halive ha hb hfirst hsize =>
    obtain ⟨hcount, hbytes⟩ := h.room hs hpack hl halive ha hb
    have hbooks := (h.arenas a hl).install (b := ⟨base, size⟩)
      (r := ⟨base, size, (σ.arena a).scope⟩) rfl hfirst hsize hcount hbytes
    exact h.buyBlock hl halive ⟨base, size⟩ rfl nofun hbooks
  | @dedicated a base size align n hl halive ha hb hn hlarge =>
    obtain ⟨hcount, hbytes⟩ := h.room hs hpack hl halive ha hb
    have hbooks := (h.arenas a hl).dedicated (b := ⟨base, size⟩) hn hlarge hcount hbytes
    exact h.buyBlock hl halive ⟨base, size⟩ rfl (fun x hx => List.mem_singleton.mp hx ▸ rfl) hbooks

theorem Deals.booked (hd : Deals system σ ss' ps' τ) (h : σ.Booked ss ps)
    (hs : σ.Sound system strict waiting) (hpack : system.Packs) :
    τ.Booked (ss' ++ ss) (ps' ++ ps) := by
  induction hd with
  | refl => exact h
  | deal hds hd ih =>
    rw [List.append_assoc, List.append_assoc]
    exact hd.booked ih (hds.sound hs) hpack

end Store
end ScopedMemory
