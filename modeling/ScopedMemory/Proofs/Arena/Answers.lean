import ScopedMemory.Proofs.Arena.Fit

namespace ScopedMemory

open Operation

variable {system : SystemAllocator} {strict : Prop} {waiting : List Block} {ctx : Context}
  {σ : Store} {a : ArenaId} {size align : Word}

/-- The size and the alignment of the block that the arena asks its scope for to serve the request,
if it asks for one. -/
def Arena.order? (ar : Arena) (size align : Word) : Option (Word × Word) :=
  match ar.capacity with
  | .bounded bytes => if ar.frontier.isNone then some (bytes, ar.blockAlign) else none
  | .unbounded blockSize =>
    if (ar.frontier.bind (·.fit? size align)).isSome then none
    else some (if blockSize < size then size else blockSize, max ar.blockAlign align)

theorem Arena.order?_of_unbounded {ar : Arena} {n : Word} (hcap : ar.capacity = .unbounded n)
    (hfits : (ar.frontier.bind fun f => (f.fit? size align).map (f, ·)) = none) :
    ar.order? size align =
      some (if n < size then size else n, max ar.blockAlign align) := by
  have hnone : (ar.frontier.bind (·.fit? size align)).isSome = false := by
    cases hf : ar.frontier with
    | none => rfl
    | some f =>
      rw [hf] at hfits
      exact Option.isSome_eq_false_iff.mpr (by simpa using hfits)
  unfold Arena.order?
  rw [hcap]
  dsimp only
  rw [hnone]
  rfl

namespace Store

/-- The arena has handed out the `size` bytes at `start` of its block. -/
def carved (σ : Store) (a : ArenaId) (f : Frontier) (start size : Word) : Store :=
  σ.modifyArena a fun ar =>
    { ar with
      frontier := some { f with cursor := start + size }
      stats := ar.stats.addServed size }

/-- The arena has got a new block of its scope to carve from. -/
def installed (σ : Store) (a : ArenaId) (base bytes : Word) : Store :=
  (σ.addBlock (σ.arena a).scope ⟨base, bytes⟩).modifyArena a fun ar =>
    { ar with
      frontier := some ⟨⟨base, bytes, (σ.arena a).scope⟩, 0⟩
      stats := ar.stats.addBlock bytes }

/-- The arena has handed out a new block of its scope as a whole. -/
def dedicated (σ : Store) (a : ArenaId) (base size : Word) : Store :=
  (σ.addBlock (σ.arena a).scope ⟨base, size⟩).modifyArena a fun ar =>
    { ar with stats := ar.stats.addDedicated size }

def failed (σ : Store) (a : ArenaId) : Store :=
  σ.modifyArena a fun ar => { ar with stats := ar.stats.addFailed }

theorem arena_carved (hl : a < σ.arenas.length) (f : Frontier) (start size : Word) :
    (σ.carved a f start size).arena a =
      { σ.arena a with
        frontier := some { f with cursor := start + size }
        stats := (σ.arena a).stats.addServed size } := by
  unfold carved
  rw [arena_modifyArena, if_pos ⟨rfl, hl⟩]

theorem arena_installed (hl : a < σ.arenas.length) (base bytes : Word) :
    (σ.installed a base bytes).arena a =
      { σ.arena a with
        frontier := some ⟨⟨base, bytes, (σ.arena a).scope⟩, 0⟩
        stats := (σ.arena a).stats.addBlock bytes } := by
  unfold installed
  rw [arena_modifyArena, if_pos ⟨rfl, hl⟩, arena_addBlock]

theorem arena_dedicated (hl : a < σ.arenas.length) (base size : Word) :
    (σ.dedicated a base size).arena a =
      { σ.arena a with stats := (σ.arena a).stats.addDedicated size } := by
  unfold dedicated
  rw [arena_modifyArena, if_pos ⟨rfl, hl⟩, arena_addBlock]

theorem arena_failed (hl : a < σ.arenas.length) :
    (σ.failed a).arena a = { σ.arena a with stats := (σ.arena a).stats.addFailed } := by
  unfold failed
  rw [arena_modifyArena, if_pos ⟨rfl, hl⟩]

theorem length_arenas_installed (σ : Store) (a : ArenaId) (base bytes : Word) :
    (σ.installed a base bytes).arenas.length = σ.arenas.length := by
  unfold installed
  rw [length_arenas_modifyArena]
  rfl

/-- What a live arena carves from ends below the end of the words. -/
theorem Sound.frontier_lt (hs : σ.Sound system strict waiting) (hlaw : system.Lawful)
    (hl : a < σ.arenas.length) (ha : σ.IsAlive (σ.arena a).scope) {f : Frontier}
    (hf : (σ.arena a).frontier = some f) :
    f.block.start.toNat + f.block.size.toNat < 0x10000000000000000 := by
  obtain ⟨hscope, hinside, _⟩ := (hs.arenas a hl).frontier f hf
  obtain ⟨b, hb, he⟩ := hinside.2 (by rwa [hscope])
  have hlt : b.finish < 0x10000000000000000 :=
    SystemAllocator.finish_lt_of_mem_unfreed hlaw.packs hs.history b (hs.mem_unfreed hb)
  have hle := he.2
  unfold Block.finish at hlt
  omega

end Store

namespace ArenaId

/-- All that an admitted request can come to, with the store that it leaves. -/
inductive Answers (system : SystemAllocator) (a : ArenaId) (size align : Word) (σ : Store) :
    Except MemoryError Region → Store → Prop
  | carved {f start} (hf : (σ.arena a).frontier = some f)
      (hfit : f.fit? size align = some start) :
      Answers system a size align σ (.ok (f.block.narrow start size)) (σ.carved a f start size)
  /-- A bounded arena has a block, but not the room. -/
  | full {bytes f} (hcap : (σ.arena a).capacity = .bounded bytes)
      (hf : (σ.arena a).frontier = some f) (hfit : f.fit? size align = none) :
      Answers system a size align σ (.error (.outOfMemory size (bytes - f.cursor))) (σ.failed a)
  /-- The system has no block for the arena. -/
  | refused {bytes blockAlign} (ho : (σ.arena a).order? size align = some (bytes, blockAlign))
      (hb : system.request σ.events (σ.poolOf (σ.arena a).scope) bytes blockAlign = none) :
      Answers system a size align σ (.error (.outOfMemory bytes 0)) (σ.failed a)
  | dedicated {n blockAlign base} (hcap : (σ.arena a).capacity = .unbounded n)
      (hlarge : n < size) (ho : (σ.arena a).order? size align = some (size, blockAlign))
      (hb : system.request σ.events (σ.poolOf (σ.arena a).scope) size blockAlign = some base) :
      Answers system a size align σ (.ok ⟨base, size, (σ.arena a).scope⟩)
        (σ.dedicated a base size)
  | installed {bytes blockAlign base start}
      (ho : (σ.arena a).order? size align = some (bytes, blockAlign))
      (hsmall : ∀ n, (σ.arena a).capacity = .unbounded n → bytes = n ∧ ¬ n < size)
      (hb : system.request σ.events (σ.poolOf (σ.arena a).scope) bytes blockAlign = some base)
      (hfit : (Frontier.mk ⟨base, bytes, (σ.arena a).scope⟩ 0).fit? size align = some start) :
      Answers system a size align σ
        (.ok ((Region.mk base bytes (σ.arena a).scope).narrow start size))
        ((σ.installed a base bytes).carved a ⟨⟨base, bytes, (σ.arena a).scope⟩, 0⟩ start size)
  /-- The one block of a bounded arena is too small for its first request. -/
  | outgrown {bytes blockAlign base} (hcap : (σ.arena a).capacity = .bounded bytes)
      (ho : (σ.arena a).order? size align = some (bytes, blockAlign))
      (hb : system.request σ.events (σ.poolOf (σ.arena a).scope) bytes blockAlign = some base)
      (hfit : (Frontier.mk ⟨base, bytes, (σ.arena a).scope⟩ 0).fit? size align = none) :
      Answers system a size align σ (.error (.outOfMemory size bytes))
        ((σ.installed a base bytes).failed a)

/-! ### The operations, as equations -/

theorem run_attempt_counting (a : ArenaId) (x : Operation Region) (ctx : Context) (σ : Store) :
    (attempt (a.counting x)).run ctx σ =
      match x.run ctx σ with
      | .ok r τ => .ok (.ok r) τ
      | .error e τ => .ok (.error e) (τ.failed a) := by
  unfold run attempt counting Store.failed
  cases x ctx σ <;> rfl

theorem run_allocateNative {s : ScopeId} {bytes blockAlign : Word}
    (hu : σ.checkUsable ctx.caller s = .ok ()) (ha : blockAlign.IsPowerOfTwo) :
    (s.allocateNative bytes blockAlign).run ctx σ =
      match ctx.system.request σ.events (σ.poolOf s) bytes blockAlign with
      | none => .error (.outOfMemory bytes 0) σ
      | some base => .ok ⟨base, bytes, s⟩ (σ.addBlock s ⟨base, bytes⟩) := by
  unfold ScopeId.allocateNative
  cases hb : ctx.system.request σ.events (σ.poolOf s) bytes blockAlign with
  | none => simp [hu, ha, hb]
  | some base => simp [hu, ha, hb]

theorem run_carve {f : Frontier} {start : Word}
    (hc : σ.checkAccess ctx.caller f.block start size = .ok ()) :
    (a.carve f start size).run ctx σ =
      .ok (f.block.narrow start size) (σ.carved a f start size) := by
  unfold carve
  simp only [run_bind, Region.run_slice, hc, run_modify, run_pure]
  rfl

/-- What fits into a block that ends below the end of the words can be carved from it. -/
theorem run_carve_fit {f : Frontier} {start : Word} (ha : align.IsPowerOfTwo)
    (hu : σ.checkUsable ctx.caller f.block.scope = .ok ())
    (hend : f.block.start.toNat + f.block.size.toNat < 0x10000000000000000)
    (hfit : f.fit? size align = some start) :
    (a.carve f start size).run ctx σ =
      .ok (f.block.narrow start size) (σ.carved a f start size) := by
  obtain ⟨_, _, hsize⟩ := Frontier.fit?_spec ha hfit
  refine run_carve (Store.checkAccess_eq_ok_iff.mpr ⟨hu, hsize, ?_⟩)
  omega

/-- What comes of asking for a block and serving the request from it. -/
def freshResult (a : ArenaId) (ctx : Context) (σ : Store) (bytes blockAlign size align : Word)
    (fault : Frontier → MemoryError) : EStateM.Result MemoryError Store Region :=
  match ctx.system.request σ.events (σ.poolOf (σ.arena a).scope) bytes blockAlign with
  | none => .error (.outOfMemory bytes 0) σ
  | some base =>
    let f : Frontier := ⟨⟨base, bytes, (σ.arena a).scope⟩, 0⟩
    match f.fit? size align with
    | some start =>
      .ok (f.block.narrow start size) ((σ.installed a base bytes).carved a f start size)
    | none => .error (fault f) (σ.installed a base bytes)

theorem run_install (hlaw : system.Lawful) (hs : σ.Sound system strict waiting)
    (hw : ctx.system.Within system) (hl : a < σ.arenas.length)
    (hu : σ.checkUsable ctx.caller (σ.arena a).scope = .ok ()) (ha : align.IsPowerOfTwo)
    {bytes blockAlign : Word} (hp : blockAlign.IsPowerOfTwo) (fault : Frontier → MemoryError) :
    Operation.run (do
      let f ← a.install (← (σ.arena a).scope.allocateNative bytes blockAlign)
      match f.fit? size align with
      | some start => a.carve f start size
      | none => throw (fault f)) ctx σ =
      a.freshResult ctx σ bytes blockAlign size align fault := by
  have halive : σ.IsAlive (σ.arena a).scope := (Store.checkUsable_eq_ok_iff.mp hu).2
  rw [run_bind, run_allocateNative hu hp]
  unfold freshResult
  cases hb : ctx.system.request σ.events (σ.poolOf (σ.arena a).scope) bytes blockAlign with
  | none => rfl
  | some base =>
    have hplace := hw.place hb
    have hextends : σ.Extends (σ.installed a base bytes) :=
      (Store.Change.install hl halive hp hplace).extends
    have husable : (σ.installed a base bytes).checkUsable ctx.caller (σ.arena a).scope = .ok () :=
      (hextends.checkUsable (Store.lt_length_of_isAlive halive) _).trans hu
    have hend : base.toNat + bytes.toNat < 0x10000000000000000 := by
      have hlt := hlaw.bounded hs.history hp hplace
      unfold Block.finish at hlt
      dsimp only at hlt
      omega
    have hinstall : (a.install ⟨base, bytes, (σ.arena a).scope⟩).run ctx
        (σ.addBlock (σ.arena a).scope ⟨base, bytes⟩) =
          .ok ⟨⟨base, bytes, (σ.arena a).scope⟩, 0⟩ (σ.installed a base bytes) := rfl
    simp only [run_bind, hinstall]
    cases hfit : (Frontier.mk ⟨base, bytes, (σ.arena a).scope⟩ 0).fit? size align with
    | none => rfl
    | some start => exact run_carve_fit ha husable hend hfit

theorem run_allocateFresh (hlaw : system.Lawful) (hs : σ.Sound system strict waiting)
    (hw : ctx.system.Within system) (hl : a < σ.arenas.length)
    (hu : σ.checkUsable ctx.caller (σ.arena a).scope = .ok ()) (ha : align.IsPowerOfTwo)
    (hp : (max (σ.arena a).blockAlign align).IsPowerOfTwo) (n : Word) :
    (a.allocateFresh (σ.arena a) n size align).run ctx σ =
      a.freshResult ctx σ n (max (σ.arena a).blockAlign align) size align fun _ =>
        .outOfMemory size n := by
  unfold allocateFresh
  exact run_install hlaw hs hw hl hu ha hp _

theorem run_allocateDedicated (hu : σ.checkUsable ctx.caller (σ.arena a).scope = .ok ())
    (hp : (max (σ.arena a).blockAlign align).IsPowerOfTwo) :
    (a.allocateDedicated (σ.arena a) size align).run ctx σ =
      match ctx.system.request σ.events (σ.poolOf (σ.arena a).scope) size
        (max (σ.arena a).blockAlign align) with
      | none => .error (.outOfMemory size 0) σ
      | some base => .ok ⟨base, size, (σ.arena a).scope⟩ (σ.dedicated a base size) := by
  unfold allocateDedicated
  rw [run_bind, run_allocateNative hu hp]
  cases ctx.system.request σ.events (σ.poolOf (σ.arena a).scope) size
    (max (σ.arena a).blockAlign align) <;> rfl

/-- An admitted request leaves it to the capacity what is done. -/
theorem run_attempt_allocate (hu : σ.checkUsable ctx.caller (σ.arena a).scope = .ok ())
    (hq : checkRequest size align = .ok ()) {x : Operation Region}
    (hx : (match (σ.arena a).capacity with
      | .bounded bytes => a.allocateBounded (σ.arena a) bytes size align
      | .unbounded blockSize => a.allocateUnbounded (σ.arena a) blockSize size align) = x) :
    (attempt (a.allocate size align)).run ctx σ =
      match x.run ctx σ with
      | .ok r τ => .ok (.ok r) τ
      | .error e τ => .ok (.error e) (τ.failed a) := by
  subst hx
  have hrun : (a.allocate size align).run ctx σ = (a.counting
      (match (σ.arena a).capacity with
        | .bounded bytes => a.allocateBounded (σ.arena a) bytes size align
        | .unbounded blockSize => a.allocateUnbounded (σ.arena a) blockSize size align)).run ctx
          σ := by
    unfold allocate
    rw [run_bind, hq]
    refine (run_bind _ _ ctx σ).trans ((run_bind _ _ ctx σ).trans ?_)
    rw [run_checkUsable, hu]
    rfl
  rw [← run_attempt_counting]
  unfold run attempt
  unfold run at hrun
  rw [hrun]

theorem isPowerOfTwo_of_checkRequest (hq : checkRequest size align = .ok ()) :
    align.IsPowerOfTwo := by
  unfold checkRequest at hq
  split at hq
  next => cases hq
  next ha => exact Decidable.not_not.mp ha

section answers

variable (hlaw : system.Lawful) (hs : σ.Sound system strict waiting)
  (hw : ctx.system.Within system) (hl : a < σ.arenas.length)
  (hu : σ.checkUsable ctx.caller (σ.arena a).scope = .ok ())
  (hp : (σ.arena a).blockAlign.IsPowerOfTwo) (hq : checkRequest size align = .ok ())

include hlaw hs hl hu hq in
theorem run_carve_frontier {f : Frontier} {start : Word} (hf : (σ.arena a).frontier = some f)
    (hfit : f.fit? size align = some start) :
    (a.carve f start size).run ctx σ =
      .ok (f.block.narrow start size) (σ.carved a f start size) := by
  have hscope : f.block.scope = (σ.arena a).scope := ((hs.arenas a hl).frontier f hf).1
  have halive : σ.IsAlive (σ.arena a).scope := (Store.checkUsable_eq_ok_iff.mp hu).2
  have hend := hs.frontier_lt hlaw hl halive hf
  exact run_carve_fit (isPowerOfTwo_of_checkRequest hq) (hscope ▸ hu) hend hfit

include hlaw hs hw hl hu hp hq in
theorem answers_bounded {bytes : Word} (hcap : (σ.arena a).capacity = .bounded bytes) :
    ∃ o τ, (attempt (a.allocate size align)).run ctx σ = .ok o τ ∧
      a.Answers ctx.system size align σ o τ := by
  rw [run_attempt_allocate (x := a.allocateBounded (σ.arena a) bytes size align) hu hq
    (by rw [hcap])]
  cases hf : (σ.arena a).frontier with
  | some f =>
    have hrun : (a.allocateBounded (σ.arena a) bytes size align).run ctx σ =
        (match f.fit? size align with
          | some start => a.carve f start size
          | none => throw (MemoryError.outOfMemory size (bytes - f.cursor))).run ctx σ := by
      unfold allocateBounded
      rw [hf]
      rfl
    rw [hrun]
    cases hfit : f.fit? size align with
    | some start =>
      dsimp only
      rw [run_carve_frontier hlaw hs hl hu hq hf hfit]
      exact ⟨_, _, rfl, .carved hf hfit⟩
    | none => exact ⟨_, _, rfl, .full hcap hf hfit⟩
  | none =>
    have ho : (σ.arena a).order? size align = some (bytes, (σ.arena a).blockAlign) := by
      unfold Arena.order?
      rw [hcap, hf]
      rfl
    have hrun : (a.allocateBounded (σ.arena a) bytes size align).run ctx σ =
        a.freshResult ctx σ bytes (σ.arena a).blockAlign size align fun f =>
          .outOfMemory size (bytes - f.cursor) := by
      unfold allocateBounded
      rw [hf]
      exact run_install hlaw hs hw hl hu (isPowerOfTwo_of_checkRequest hq) hp _
    rw [hrun]
    unfold freshResult
    cases hb : ctx.system.request σ.events (σ.poolOf (σ.arena a).scope) bytes
      (σ.arena a).blockAlign with
    | none => exact ⟨_, _, rfl, .refused ho hb⟩
    | some base =>
      dsimp only
      cases hfit : (Frontier.mk ⟨base, bytes, (σ.arena a).scope⟩ 0).fit? size align with
      | some start =>
        refine ⟨_, _, rfl, .installed ho (fun n hn => ?_) hb hfit⟩
        cases hcap.symm.trans hn
      | none =>
        dsimp only
        rw [UInt64.sub_zero]
        exact ⟨_, _, rfl, .outgrown hcap ho hb hfit⟩

include hlaw hs hw hl hu hp hq in
theorem answers_unbounded {n : Word} (hcap : (σ.arena a).capacity = .unbounded n) :
    ∃ o τ, (attempt (a.allocate size align)).run ctx σ = .ok o τ ∧
      a.Answers ctx.system size align σ o τ := by
  have ha := isPowerOfTwo_of_checkRequest hq
  have hmax : (max (σ.arena a).blockAlign align).IsPowerOfTwo := hp.max ha
  rw [run_attempt_allocate (x := a.allocateUnbounded (σ.arena a) n size align) hu hq
    (by rw [hcap])]
  unfold allocateUnbounded
  cases hfits : (σ.arena a).frontier.bind fun f => (f.fit? size align).map (f, ·) with
  | some p =>
    obtain ⟨f, hf, hfit⟩ := Option.bind_eq_some_iff.mp hfits
    obtain ⟨start, hstart, rfl⟩ := Option.map_eq_some_iff.mp hfit
    dsimp only
    rw [run_carve_frontier hlaw hs hl hu hq hf hstart]
    exact ⟨_, _, rfl, .carved hf hstart⟩
  | none =>
    have ho := Arena.order?_of_unbounded hcap hfits
    dsimp only
    by_cases hlarge : n < size
    · rw [if_pos hlarge] at ho
      rw [if_pos hlarge, run_allocateDedicated hu hmax]
      cases hb : ctx.system.request σ.events (σ.poolOf (σ.arena a).scope) size
        (max (σ.arena a).blockAlign align) with
      | none => exact ⟨_, _, rfl, .refused ho hb⟩
      | some base => exact ⟨_, _, rfl, .dedicated hcap hlarge ho hb⟩
    · rw [if_neg hlarge] at ho
      rw [if_neg hlarge, run_allocateFresh hlaw hs hw hl hu ha hmax]
      unfold freshResult
      cases hb : ctx.system.request σ.events (σ.poolOf (σ.arena a).scope) n
        (max (σ.arena a).blockAlign align) with
      | none => exact ⟨_, _, rfl, .refused ho hb⟩
      | some base =>
        -- The block is aligned for the request, and no smaller.
        have hdvd : align.toNat ∣ base.toNat :=
          Nat.dvd_trans (ha.dvd_max hmax) (hlaw.aligned hs.history hmax (hw.place hb))
        have hsize : size.toNat ≤ n.toNat := by
          rw [UInt64.lt_iff_toNat_lt] at hlarge
          omega
        have hfit : (Frontier.mk ⟨base, n, (σ.arena a).scope⟩ 0).fit? size align = some 0 :=
          Frontier.fit?_start ha hdvd hsize
        dsimp only
        rw [hfit]
        refine ⟨_, _, rfl, .installed ho (fun n' hn => ?_) hb hfit⟩
        cases hcap.symm.trans hn
        exact ⟨rfl, hlarge⟩

/-- Every admitted request, made while the scope can be used, comes to one of the answers. -/
theorem answers_allocate (hlaw : system.Lawful) (hs : σ.Sound system strict waiting)
    (hw : ctx.system.Within system) (hl : a < σ.arenas.length)
    (hu : σ.checkUsable ctx.caller (σ.arena a).scope = .ok ())
    (hp : (σ.arena a).blockAlign.IsPowerOfTwo) (hq : checkRequest size align = .ok ()) :
    ∃ o τ, (attempt (a.allocate size align)).run ctx σ = .ok o τ ∧
      a.Answers ctx.system size align σ o τ := by
  cases hcap : (σ.arena a).capacity with
  | bounded bytes => exact answers_bounded hlaw hs hw hl hu hp hq hcap
  | unbounded n => exact answers_unbounded hlaw hs hw hl hu hp hq hcap

end answers

end ArenaId
end ScopedMemory
