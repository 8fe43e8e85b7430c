import Mathlib.Data.List.Forall2
import ScopedMemory.Proofs.Arena.Answers
import ScopedMemory.Proofs.Session.Run

namespace ScopedMemory

open Operation

structure Request where
  size : Word
  align : Word
deriving DecidableEq, Repr

/-- The requests of all clients in the order in which they come in, which for each client is its
own. -/
def Interleaves (clients : Thread → List Request) (trace : List (Thread × Request)) : Prop :=
  ∀ t, (trace.filter (·.1 = t)).map (·.2) = clients t

namespace Interleaves

variable {clients : Thread → List Request} {trace trace' : List (Thread × Request)}

theorem count_eq (h : Interleaves clients trace) (t : Thread) (q : Request) :
    trace.count (t, q) = (clients t).count q := by
  rw [← h t]
  clear h
  induction trace with
  | nil => rfl
  | cons p trace ih =>
    obtain ⟨u, q'⟩ := p
    by_cases hu : u = t
    · subst hu
      rw [List.filter_cons_of_pos (by simp), List.map_cons, List.count_cons, List.count_cons, ih]
      simp
    · rw [List.filter_cons_of_neg (by simp [hu]), List.count_cons, ih]
      simp [hu]

/-- Two interleavings are the same requests in another order. -/
theorem perm (h : Interleaves clients trace) (h' : Interleaves clients trace') :
    trace.Perm trace' := by
  rw [List.perm_iff_count]
  intro p
  obtain ⟨t, q⟩ := p
  rw [h.count_eq, h'.count_eq]

theorem mem (h : Interleaves clients trace) {p : Thread × Request} (hp : p ∈ trace) :
    p.2 ∈ clients p.1 := by
  rw [← h p.1]
  exact List.mem_map_of_mem (List.mem_filter.mpr ⟨hp, decide_eq_true rfl⟩)

end Interleaves

variable {system : SystemAllocator} {strict : Prop} {waiting : List Block} {ctx : Context}
  {σ τ : Store} {a : ArenaId} {s : ScopeId} {capacity : ArenaCapacity} {blockAlign : Word}
  {callers : Thread → Prop} {trace : List (Thread × Request)}

/-- The requests are made one after another, each by its own client. -/
def ArenaId.serveEach (a : ArenaId) (trace : List (Thread × Request)) :
    Operation (List (Except MemoryError Region)) :=
  trace.mapM fun p => attempt (asThread p.1 (a.allocate p.2.size p.2.align))

/-- Threads that ask for the same at the same time. -/
theorem ArenaId.serveEach_map (a : ArenaId) (size align : Word) (threads : List Thread) :
    a.serveEach (threads.map (·, ⟨size, align⟩)) =
      (Allocator.arena a).allocateEach size align threads := by
  unfold serveEach Allocator.allocateEach
  rw [List.mapM_map]
  rfl

/-- An arena of this kind is shared by callers who may all use its scope. -/
structure Store.Shares (system : SystemAllocator) (strict : Prop) (waiting : List Block)
    (a : ArenaId) (s : ScopeId) (capacity : ArenaCapacity) (blockAlign : Word)
    (callers : Thread → Prop) (σ : Store) : Prop where
  sound : σ.Sound system strict waiting
  known : a < σ.arenas.length
  scope : (σ.arena a).scope = s
  capacity : (σ.arena a).capacity = capacity
  blockAlign : (σ.arena a).blockAlign = blockAlign
  usable : ∀ t, callers t → σ.checkUsable t s = .ok ()

namespace ArenaId

theorem Answers.arena {size align : Word} {o : Except MemoryError Region}
    (h : a.Answers system size align σ o τ) (hl : a < σ.arenas.length) :
    (τ.arena a).capacity = (σ.arena a).capacity ∧
      (τ.arena a).blockAlign = (σ.arena a).blockAlign := by
  have hinst : ∀ base bytes, a < (σ.installed a base bytes).arenas.length := by
    intro base bytes
    rwa [Store.length_arenas_installed]
  cases h with
  | carved => rw [Store.arena_carved hl]; exact ⟨rfl, rfl⟩
  | full => rw [Store.arena_failed hl]; exact ⟨rfl, rfl⟩
  | refused => rw [Store.arena_failed hl]; exact ⟨rfl, rfl⟩
  | dedicated => rw [Store.arena_dedicated hl]; exact ⟨rfl, rfl⟩
  | installed => rw [Store.arena_carved (hinst _ _), Store.arena_installed hl]; exact ⟨rfl, rfl⟩
  | outgrown => rw [Store.arena_failed (hinst _ _), Store.arena_installed hl]; exact ⟨rfl, rfl⟩

/-- A request to an arena that is shared is answered, and the arena is shared afterwards. -/
theorem answers_shared (hlaw : system.Lawful) (hw : ctx.system.Within system)
    (hp : blockAlign.IsPowerOfTwo)
    (h : σ.Shares system strict waiting a s capacity blockAlign callers) {t : Thread}
    (ht : callers t) {size align : Word} (hq : checkRequest size align = .ok ()) :
    ∃ o τ, (attempt (asThread t (a.allocate size align))).run ctx σ = .ok o τ ∧
      a.Answers ctx.system size align σ o τ ∧
      τ.Shares system strict waiting a s capacity blockAlign callers ∧
      ∀ r, o = .ok r → r.scope = s ∧ r.size = size := by
  have hu : σ.checkUsable t (σ.arena a).scope = .ok () := by
    rw [h.scope]
    exact h.usable t ht
  have hpow : (σ.arena a).blockAlign.IsPowerOfTwo := by
    rw [h.blockAlign]
    exact hp
  have hw' : ({ ctx with caller := t } : Context).system.Within system := hw
  obtain ⟨o, τ, hrun, hanswer⟩ := answers_allocate hlaw h.sound hw' h.known hu hpow hq
  have hserves := serves_allocate h.sound hw' h.known size align
  have hchanges : (attempt (a.allocate size align)).Leads { ctx with caller := t } σ
      (fun o τ => (∃ rs, Store.Changes system False σ rs τ) ∧
        ∀ r, o = .ok r → r.scope = s ∧ r.size = size) fun _ => False := by
    refine leads_attempt (hserves.imp (fun r τ hr => ⟨⟨_, hr.1⟩, fun r' he => ?_⟩)
      fun τ hc e => ⟨⟨_, hc⟩, fun r he => nomatch he⟩)
    cases he
    exact ⟨hr.2.scope.trans h.scope, hr.2.size⟩
  obtain ⟨⟨rs, hc⟩, hregion⟩ := hchanges.ok hrun
  have hextends := hc.extends
  obtain ⟨hcap, halign⟩ := hanswer.arena h.known
  have hs : s < σ.scopes.length := h.scope ▸ (h.sound.arenas a h.known).scope
  refine ⟨o, τ, hrun, hanswer, ⟨hc.sound h.sound, ?_, ?_, ?_, ?_, fun t ht => ?_⟩, hregion⟩
  · exact Nat.lt_of_lt_of_le h.known hextends.arenas
  · rw [hextends.arenaScope a h.known, h.scope]
  · rw [hcap, h.capacity]
  · rw [halign, h.blockAlign]
  · rw [hextends.checkUsable hs]
    exact h.usable t ht

theorem run_serveEach_cons {p : Thread × Request} {trace : List (Thread × Request)}
    {o : Except MemoryError Region}
    (hrun : (attempt (asThread p.1 (a.allocate p.2.size p.2.align))).run ctx σ = .ok o τ)
    {outcomes : List (Except MemoryError Region)} {ρ : Store}
    (hrest : (a.serveEach trace).run ctx τ = .ok outcomes ρ) :
    (a.serveEach (p :: trace)).run ctx σ = .ok (o :: outcomes) ρ := by
  unfold serveEach at hrest ⊢
  rw [List.mapM_cons, run_bind, hrun]
  dsimp only
  rw [run_bind, hrest]
  rfl

/-! ### Arenas without a bound -/

/-- Whenever a request of the trace needs a block, the system has one. -/
def Ample (a : ArenaId) (ctx : Context) : Store → List (Thread × Request) → Prop
  | _, [] => True
  | σ, p :: trace =>
    (∀ order ∈ (σ.arena a).order? p.2.size p.2.align,
      (ctx.system.request σ.events (σ.poolOf (σ.arena a).scope) order.1 order.2).isSome) ∧
    a.Ample ctx
      (finalStore ((attempt (asThread p.1 (a.allocate p.2.size p.2.align))).run ctx σ)) trace

instance (a : ArenaId) (ctx : Context) :
    ∀ (σ : Store) (trace : List (Thread × Request)), Decidable (a.Ample ctx σ trace)
  | _, [] => inferInstanceAs (Decidable True)
  | σ, p :: trace =>
    -- by its name, since a search could find the one that goes through all pairs of words
    @instDecidableAnd _ _ (Option.decidableForallMem ((σ.arena a).order? p.2.size p.2.align))
      (instDecidableAmple a ctx
        (finalStore ((attempt (asThread p.1 (a.allocate p.2.size p.2.align))).run ctx σ)) trace)

/-- The blocks that requests are carved from have the usual size. -/
def Uniform (a : ArenaId) (n : Word) (σ : Store) : Prop :=
  ∀ f, (σ.arena a).frontier = some f → f.block.size = n

/-- A request that the system has a block for is served, and counted as its size says. -/
theorem Answers.serves {n size align : Word} {o : Except MemoryError Region}
    (h : a.Answers system size align σ o τ) (hl : a < σ.arenas.length)
    (hcap : (σ.arena a).capacity = .unbounded n) (huniform : a.Uniform n σ)
    (ha : align.IsPowerOfTwo)
    (hample : ∀ order ∈ (σ.arena a).order? size align,
      (system.request σ.events (σ.poolOf (σ.arena a).scope) order.1 order.2).isSome) :
    (∃ r, o = .ok r) ∧ a.Uniform n τ ∧
      (τ.arena a).stats.served = (σ.arena a).stats.served + size ∧
      (τ.arena a).stats.dedicated =
        (σ.arena a).stats.dedicated + (if n < size then 1 else 0) ∧
      (τ.arena a).stats.failed = (σ.arena a).stats.failed := by
  cases h with
  | @carved f start hf hfit =>
    have hsmall : ¬ n < size := by
      have hend := (Frontier.fit?_spec ha hfit).2.2
      rw [huniform f hf] at hend
      rw [UInt64.lt_iff_toNat_lt]
      omega
    have harena := Store.arena_carved hl f start size
    rw [if_neg hsmall, UInt64.add_zero, harena]
    refine ⟨⟨_, rfl⟩, fun g hg => ?_, rfl, rfl, rfl⟩
    rw [harena] at hg
    cases hg
    exact huniform f hf
  | full hbound => cases hcap.symm.trans hbound
  | refused ho hb =>
    have hsome := hample _ ho
    rw [hb] at hsome
    cases hsome
  | @dedicated n' blockAlign base hcap' hlarge ho hb =>
    cases hcap.symm.trans hcap'
    have harena := Store.arena_dedicated hl base size
    rw [if_pos hlarge, harena]
    refine ⟨⟨_, rfl⟩, fun g hg => ?_, rfl, rfl, rfl⟩
    rw [harena] at hg
    exact huniform g hg
  | @installed bytes blockAlign base start ho hsmall hb hfit =>
    obtain ⟨rfl, hsmall⟩ := hsmall n hcap
    have hl' : a < (σ.installed a base bytes).arenas.length := by
      rwa [Store.length_arenas_installed]
    have harena := Store.arena_carved hl' ⟨⟨base, bytes, (σ.arena a).scope⟩, 0⟩ start size
    rw [Store.arena_installed hl] at harena
    rw [if_neg hsmall, UInt64.add_zero, harena]
    refine ⟨⟨_, rfl⟩, fun g hg => ?_, rfl, rfl, rfl⟩
    rw [harena] at hg
    cases hg
    rfl
  | outgrown hbound => cases hcap.symm.trans hbound

/-- Of requests to an arena without a bound all are served, whatever their order. -/
theorem serves_each (hlaw : system.Lawful) (hw : ctx.system.Within system)
    (hp : blockAlign.IsPowerOfTwo) {n : Word} {trace : List (Thread × Request)}
    (hcallers : ∀ p ∈ trace, callers p.1)
    (hadmitted : ∀ p ∈ trace, checkRequest p.2.size p.2.align = .ok ())
    (h : σ.Shares system strict waiting a s (.unbounded n) blockAlign callers)
    (huniform : a.Uniform n σ) (hample : a.Ample ctx σ trace) :
    ∃ outcomes τ, (a.serveEach trace).run ctx σ = .ok outcomes τ ∧
      List.Forall₂ (fun p o => ∃ r, o = .ok r ∧ r.scope = s ∧ r.size = p.2.size)
        trace outcomes ∧
      (τ.arena a).stats.served =
        (σ.arena a).stats.served + .ofNat (total (·.2.size.toNat) trace) ∧
      (τ.arena a).stats.dedicated =
        (σ.arena a).stats.dedicated + .ofNat (trace.countP (n < ·.2.size)) ∧
      (τ.arena a).stats.failed = (σ.arena a).stats.failed := by
  induction trace generalizing σ with
  | nil => exact ⟨[], σ, rfl, .nil, (UInt64.add_zero _).symm, (UInt64.add_zero _).symm, rfl⟩
  | cons p trace ih =>
    have hq := hadmitted p List.mem_cons_self
    obtain ⟨o, ρ, hrun, hanswer, hshares, hregion⟩ :=
      answers_shared hlaw hw hp h (hcallers p List.mem_cons_self) hq
    obtain ⟨hneeds, hrest⟩ := hample
    rw [hrun] at hrest
    obtain ⟨⟨r, rfl⟩, huniform', hserved, hdedicated, hfailed⟩ :=
      hanswer.serves h.known h.capacity huniform (isPowerOfTwo_of_checkRequest hq) hneeds
    obtain ⟨outcomes, τ, hruns, hall, hserved', hdedicated', hfailed'⟩ :=
      ih (fun p hm => hcallers p (List.mem_cons_of_mem _ hm))
        (fun p hm => hadmitted p (List.mem_cons_of_mem _ hm)) hshares huniform' hrest
    refine ⟨.ok r :: outcomes, τ, run_serveEach_cons hrun hruns,
      .cons ⟨r, rfl, hregion r rfl⟩ hall, ?_, ?_, hfailed'.trans hfailed⟩
    · rw [hserved', hserved, total_cons, UInt64.ofNat_add, UInt64.ofNat_toNat, UInt64.add_assoc]
    · have hcount : UInt64.ofNat ((p :: trace).countP (n < ·.2.size)) =
          (if n < p.2.size then 1 else 0) + .ofNat (trace.countP (n < ·.2.size)) := by
        rw [List.countP_cons, UInt64.ofNat_add, UInt64.add_comm]
        by_cases hlarge : n < p.2.size <;> simp [hlarge]
      rw [hdedicated', hdedicated, hcount, UInt64.add_assoc]

/-! ### Bounded arenas -/

/-- How many requests of one size and alignment go into so many bytes. -/
def room (bytes size align : Word) : Nat :=
  if bytes < size then 0
  else (bytes.toNat - size.toNat) / roundUp size.toNat align.toNat + 1

theorem lt_room_iff {bytes size align : Word} (ha : align.IsPowerOfTwo) (hpos : 0 < size.toNat)
    {j : Nat} : j < room bytes size align ↔
      j * roundUp size.toNat align.toNat + size.toNat ≤ bytes.toNat := by
  have hstep : 0 < roundUp size.toNat align.toNat := Nat.lt_of_lt_of_le hpos (le_roundUp ha.pos)
  unfold room
  by_cases hlt : bytes < size
  · rw [if_pos hlt]
    rw [UInt64.lt_iff_toNat_lt] at hlt
    omega
  · rw [if_neg hlt, Nat.lt_succ_iff, Nat.le_div_iff_mul_le hstep]
    rw [UInt64.lt_iff_toNat_lt] at hlt
    omega

/-- So many requests of one size and alignment have been carved from the block. -/
def Filled (a : ArenaId) (block : Region) (size align : Word) (j : Nat) (σ : Store) : Prop :=
  ∃ cursor : Word, (σ.arena a).frontier = some ⟨block, cursor⟩ ∧
    roundUp cursor.toNat align.toNat = j * roundUp size.toNat align.toNat

/-- The next request is carved from the block as long as there is room, and fails from then on. -/
def Takes (a : ArenaId) (block : Region) (size align : Word) (j : Nat)
    (o : Except MemoryError Region) (τ : Store) : Prop :=
  (j < room block.size size align ∧ (∃ r, o = .ok r) ∧ a.Filled block size align (j + 1) τ) ∨
    (¬ j < room block.size size align ∧ (∃ available, o = .error (.outOfMemory size available)) ∧
      a.Filled block size align j τ)

/-- What fits is carved at the multiple of the rounded size that is next. -/
theorem takes_carved {block : Region} {size align cursor start : Word} {j : Nat}
    (ha : align.IsPowerOfTwo) (hpos : 0 < size.toNat) (hd : align.toNat ∣ block.start.toNat)
    (hend : block.start.toNat + block.size.toNat < 0x10000000000000000)
    (hc : roundUp cursor.toNat align.toNat = j * roundUp size.toNat align.toNat)
    (hfit : (Frontier.mk block cursor).fit? size align = some start)
    {r : Region} (hτ : (τ.arena a).frontier = some ⟨block, start + size⟩) :
    a.Takes block size align j (.ok r) τ := by
  obtain ⟨hstart, hsize⟩ := (Frontier.fit?_eq_some_iff ha hend).mp hfit
  have hnext : (Frontier.mk block cursor).next align = j * roundUp size.toNat align.toNat :=
    (Frontier.next_eq_roundUp ha hd).trans hc
  rw [hnext] at hstart hsize
  have hbytes := block.size.toNat_lt
  have hsum : (start + size).toNat = j * roundUp size.toNat align.toNat + size.toNat := by
    rw [UInt64.toNat_add, hstart, Nat.mod_eq_of_lt (Nat.lt_of_le_of_lt hsize hbytes)]
  refine Or.inl ⟨(lt_room_iff ha hpos).mpr hsize, ⟨r, rfl⟩, start + size, hτ, ?_⟩
  rw [hsum, roundUp_add ha.pos (Nat.dvd_mul_left_of_dvd (dvd_roundUp _ _) j), Nat.succ_mul]

theorem takes_failed {block : Region} {size align cursor : Word} {j : Nat}
    (ha : align.IsPowerOfTwo) (hpos : 0 < size.toNat) (hd : align.toNat ∣ block.start.toNat)
    (hend : block.start.toNat + block.size.toNat < 0x10000000000000000)
    (hc : roundUp cursor.toNat align.toNat = j * roundUp size.toNat align.toNat)
    (hfit : (Frontier.mk block cursor).fit? size align = none) (available : Word)
    (hτ : (τ.arena a).frontier = some ⟨block, cursor⟩) :
    a.Takes block size align j (.error (.outOfMemory size available)) τ := by
  have hnext : (Frontier.mk block cursor).next align = j * roundUp size.toNat align.toNat :=
    (Frontier.next_eq_roundUp ha hd).trans hc
  have hlt : block.size.toNat < j * roundUp size.toNat align.toNat + size.toNat := by
    rw [← hnext]
    exact (Frontier.fit?_eq_none_iff ha hend).mp hfit
  refine Or.inr ⟨fun hj => ?_, ⟨available, rfl⟩, cursor, hτ, hc⟩
  have hle := (lt_room_iff ha hpos).mp hj
  omega

/-- A request of the one size to a bounded arena that has its block. -/
theorem Answers.takes {bytes size align : Word} {block : Region} {j : Nat}
    {o : Except MemoryError Region} (h : a.Answers system size align σ o τ)
    (hl : a < σ.arenas.length) (hcap : (σ.arena a).capacity = .bounded bytes)
    (ha : align.IsPowerOfTwo) (hpos : 0 < size.toNat) (hd : align.toNat ∣ block.start.toNat)
    (hend : block.start.toNat + block.size.toNat < 0x10000000000000000)
    (hfilled : a.Filled block size align j σ) : a.Takes block size align j o τ := by
  obtain ⟨cursor, hfrontier, hc⟩ := hfilled
  have horder : (σ.arena a).order? size align = none := by
    unfold Arena.order?
    rw [hcap, hfrontier]
    rfl
  cases h with
  | @carved f start hf hfit =>
    cases hfrontier.symm.trans hf
    refine takes_carved ha hpos hd hend hc hfit ?_
    rw [Store.arena_carved hl]
  | @full _ f _ hf hfit =>
    cases hfrontier.symm.trans hf
    refine takes_failed ha hpos hd hend hc hfit _ ?_
    rw [Store.arena_failed hl]
    exact hfrontier
  | refused ho => cases horder.symm.trans ho
  | dedicated hcap' => cases hcap.symm.trans hcap'
  | installed ho => cases horder.symm.trans ho
  | outgrown _ ho => cases horder.symm.trans ho

/-- The first request to a bounded arena, for which the system has the one block. -/
theorem Answers.takes_first {bytes size align base : Word} {o : Except MemoryError Region}
    (h : a.Answers system size align σ o τ) (hl : a < σ.arenas.length)
    (hcap : (σ.arena a).capacity = .bounded bytes) (hnone : (σ.arena a).frontier = none)
    (hb : system.request σ.events (σ.poolOf (σ.arena a).scope) bytes (σ.arena a).blockAlign =
      some base)
    (ha : align.IsPowerOfTwo) (hpos : 0 < size.toNat) (hd : align.toNat ∣ base.toNat)
    (hend : base.toNat + bytes.toNat < 0x10000000000000000) :
    a.Takes ⟨base, bytes, (σ.arena a).scope⟩ size align 0 o τ := by
  have hl' : a < (σ.installed a base bytes).arenas.length := by
    rwa [Store.length_arenas_installed]
  have horder : (σ.arena a).order? size align = some (bytes, (σ.arena a).blockAlign) := by
    unfold Arena.order?
    rw [hcap, hnone]
    rfl
  have hc : roundUp (0 : Word).toNat align.toNat = 0 * roundUp size.toNat align.toNat := by
    rw [Nat.zero_mul]
    exact roundUp_of_dvd ha.pos (Nat.dvd_zero _)
  cases h with
  | carved hf => cases hnone.symm.trans hf
  | full _ hf => cases hnone.symm.trans hf
  | refused ho hb' =>
    cases horder.symm.trans ho
    cases hb.symm.trans hb'
  | dedicated hcap' => cases hcap.symm.trans hcap'
  | installed ho _ hb' hfit =>
    cases horder.symm.trans ho
    cases hb.symm.trans hb'
    refine takes_carved ha hpos hd hend hc hfit ?_
    rw [Store.arena_carved hl']
  | outgrown _ ho hb' hfit =>
    cases horder.symm.trans ho
    cases hb.symm.trans hb'
    refine takes_failed ha hpos hd hend hc hfit _ ?_
    rw [Store.arena_failed hl', Store.arena_installed hl]

/-- Of the requests of one size so many are answered with regions, and the others are told that
there is no room. -/
def Yields (a : ArenaId) (ctx : Context) (σ : Store) (trace : List (Thread × Request))
    (size : Word) (served : Nat) : Prop :=
  ∃ outcomes τ, (a.serveEach trace).run ctx σ = .ok outcomes τ ∧
    outcomes.length = trace.length ∧ outcomes.countP (·.isOk) = served ∧
    ∀ o ∈ outcomes, (∃ r, o = .ok r ∧ r.size = size) ∨
      ∃ available, o = .error (.outOfMemory size available)

theorem yields_nil (a : ArenaId) (ctx : Context) (σ : Store) (size : Word) :
    a.Yields ctx σ [] size 0 :=
  ⟨[], σ, rfl, rfl, rfl, fun o ho => by cases ho⟩

/-- One request more, before others that are made of what it leaves of the block. -/
theorem yields_cons (hlaw : system.Lawful) (hw : ctx.system.Within system)
    (hp : blockAlign.IsPowerOfTwo) {bytes size align : Word} {block : Region} {j : Nat}
    (hq : checkRequest size align = .ok ()) {t : Thread} (ht : callers t)
    (h : σ.Shares system strict waiting a s (.bounded bytes) blockAlign callers)
    (htakes : ∀ o ρ, a.Answers ctx.system size align σ o ρ → a.Takes block size align j o ρ)
    (hrest : ∀ ρ k, ρ.Shares system strict waiting a s (.bounded bytes) blockAlign callers →
      a.Filled block size align k ρ →
        a.Yields ctx ρ trace size (min trace.length (room block.size size align - k))) :
    a.Yields ctx σ ((t, ⟨size, align⟩) :: trace) size
      (min (trace.length + 1) (room block.size size align - j)) := by
  obtain ⟨o, ρ, hrun, hanswer, hshares, hregion⟩ := answers_shared hlaw hw hp h ht hq
  rcases htakes o ρ hanswer with ⟨hj, ⟨r, rfl⟩, hfilled⟩ | ⟨hj, ⟨available, rfl⟩, hfilled⟩
  · obtain ⟨outcomes, τ, hruns, hlen, hserved, heach⟩ := hrest ρ (j + 1) hshares hfilled
    refine ⟨_ :: outcomes, τ, run_serveEach_cons hrun hruns, congrArg (· + 1) hlen, ?_,
      fun o ho => ?_⟩
    · rw [List.countP_cons_of_pos rfl, hserved]
      omega
    · rcases List.mem_cons.mp ho with rfl | ho
      · exact Or.inl ⟨r, rfl, (hregion r rfl).2⟩
      · exact heach o ho
  · obtain ⟨outcomes, τ, hruns, hlen, hserved, heach⟩ := hrest ρ j hshares hfilled
    refine ⟨_ :: outcomes, τ, run_serveEach_cons hrun hruns, congrArg (· + 1) hlen, ?_,
      fun o ho => ?_⟩
    · rw [List.countP_cons_of_neg Bool.false_ne_true, hserved]
      omega
    · rcases List.mem_cons.mp ho with rfl | ho
      · exact Or.inr ⟨available, rfl⟩
      · exact heach o ho

/-- Of requests of one size as many are served as go into what is left of the block. -/
theorem yields_each (hlaw : system.Lawful) (hw : ctx.system.Within system)
    (hp : blockAlign.IsPowerOfTwo) {bytes size align : Word} {block : Region}
    (hq : checkRequest size align = .ok ()) (hpos : 0 < size.toNat)
    (hd : align.toNat ∣ block.start.toNat)
    (hend : block.start.toNat + block.size.toNat < 0x10000000000000000)
    (hcallers : ∀ p ∈ trace, callers p.1) (hsame : ∀ p ∈ trace, p.2 = ⟨size, align⟩)
    (h : σ.Shares system strict waiting a s (.bounded bytes) blockAlign callers) {j : Nat}
    (hfilled : a.Filled block size align j σ) :
    a.Yields ctx σ trace size (min trace.length (room block.size size align - j)) := by
  induction trace generalizing σ j with
  | nil =>
    rw [List.length_nil, Nat.zero_min]
    exact yields_nil a ctx σ size
  | cons p trace ih =>
    obtain ⟨t, q⟩ := p
    obtain rfl : q = ⟨size, align⟩ := hsame _ List.mem_cons_self
    refine yields_cons hlaw hw hp hq (hcallers _ List.mem_cons_self) h (fun o ρ hanswer => ?_)
      fun ρ k hshares hk => ?_
    · exact hanswer.takes h.known h.capacity (isPowerOfTwo_of_checkRequest hq) hpos hd hend hfilled
    · exact ih (fun p hm => hcallers p (List.mem_cons_of_mem _ hm))
        (fun p hm => hsame p (List.mem_cons_of_mem _ hm)) hshares hk

/-- Of requests of one size to a bounded arena that has no block yet, and for which the system has
one, as many are served as go into it. -/
theorem yields_all (hlaw : system.Lawful) (hw : ctx.system.Within system)
    (hp : blockAlign.IsPowerOfTwo) {bytes size align : Word}
    (hadmitted : ∀ p ∈ trace, checkRequest p.2.size p.2.align = .ok ()) (hpos : 0 < size.toNat)
    (hle : align ≤ blockAlign) (hcallers : ∀ p ∈ trace, callers p.1)
    (hsame : ∀ p ∈ trace, p.2 = ⟨size, align⟩)
    (h : σ.Shares system strict waiting a s (.bounded bytes) blockAlign callers)
    (hnone : (σ.arena a).frontier = none)
    (hb : (ctx.system.request σ.events (σ.poolOf s) bytes blockAlign).isSome) :
    a.Yields ctx σ trace size (min trace.length (room bytes size align)) := by
  cases trace with
  | nil =>
    rw [List.length_nil, Nat.zero_min]
    exact yields_nil a ctx σ size
  | cons p trace =>
    obtain ⟨t, q⟩ := p
    obtain rfl : q = ⟨size, align⟩ := hsame _ List.mem_cons_self
    have hq : checkRequest size align = .ok () := hadmitted _ List.mem_cons_self
    have ha := isPowerOfTwo_of_checkRequest hq
    obtain ⟨base, hbase⟩ := Option.isSome_iff_exists.mp hb
    have hplace := hw.place hbase
    have hd : align.toNat ∣ base.toNat :=
      Nat.dvd_trans (ha.dvd_of_le hp hle) (hlaw.aligned h.sound.history hp hplace)
    have hend : base.toNat + bytes.toNat < 0x10000000000000000 := by
      have hlt := hlaw.bounded h.sound.history hp hplace
      unfold Block.finish at hlt
      dsimp only at hlt
      omega
    have htakes : ∀ o ρ, a.Answers ctx.system size align σ o ρ →
        a.Takes ⟨base, bytes, s⟩ size align 0 o ρ := by
      intro o ρ hanswer
      rw [← h.scope]
      refine hanswer.takes_first h.known h.capacity hnone ?_ ha hpos hd hend
      rw [h.scope, h.blockAlign]
      exact hbase
    exact yields_cons hlaw hw hp hq (hcallers _ List.mem_cons_self) h htakes fun ρ k hshares hk =>
      yields_each hlaw hw hp hq hpos hd hend (fun p hm => hcallers p (List.mem_cons_of_mem _ hm))
        (fun p hm => hsame p (List.mem_cons_of_mem _ hm)) hshares hk

/-! ### New arenas -/

theorem shares_create (h : σ.Sound system strict waiting)
    {config : ArenaConfig}
    (hnew : (ArenaId.create capacity config s).run ctx σ = .ok a τ)
    (hopen : ∀ t, callers t → σ.checkUsable t s = .ok ()) :
    config.blockAlign.IsPowerOfTwo ∧ τ.arena a = ⟨s, capacity, config.blockAlign, none, {}⟩ ∧
      τ.Shares system strict waiting a s capacity config.blockAlign callers := by
  obtain ⟨hvalid, hu, rfl, rfl⟩ := (leads_create capacity config s).ok hnew
  have harena : (σ.addArena ⟨s, capacity, config.blockAlign, none, {}⟩).arena σ.arenas.length =
      ⟨s, capacity, config.blockAlign, none, {}⟩ := by
    rw [Store.arena_addArena, if_pos rfl]
  have hp : config.blockAlign.IsPowerOfTwo := by
    unfold ArenaConfig.validate at hvalid
    split at hvalid
    next => cases hvalid
    next =>
      split at hvalid
      next hp => exact hp
      next => cases hvalid
  refine ⟨hp, harena, h.addArena (Store.isAlive_of_checkUsable hu) rfl, ?_, ?_, ?_, ?_, hopen⟩
  · rw [Store.length_arenas_addArena]
    exact Nat.lt_succ_self _
  · rw [harena]
  · rw [harena]
  · rw [harena]

end ArenaId

/-- What the requests of some clients to a new arena of their own come to in whichever order they
come in, as long as nothing else happens to its scope. -/
structure Impartial (past : List Move) (ctx : Context) (s : ScopeId)
    (clients : Thread → List Request) : Prop where
  unbounded : ∀ {n config a σ},
    (ArenaId.create (.unbounded n) config s).run ctx (play past).store = .ok a σ →
    ∀ {trace trace'}, Interleaves clients trace → Interleaves clients trace' →
    a.Ample ctx σ trace → a.Ample ctx σ trace' →
    ∃ outcomes τ outcomes' τ', (a.serveEach trace).run ctx σ = .ok outcomes τ ∧
      (a.serveEach trace').run ctx σ = .ok outcomes' τ' ∧
      List.Forall₂ (fun p o => ∃ r, o = .ok r ∧ r.scope = s ∧ r.size = p.2.size) trace outcomes ∧
      List.Forall₂ (fun p o => ∃ r, o = .ok r ∧ r.scope = s ∧ r.size = p.2.size)
        trace' outcomes' ∧
      (τ.arena a).stats.served = (τ'.arena a).stats.served ∧
      (τ.arena a).stats.dedicated = (τ'.arena a).stats.dedicated ∧
      (τ.arena a).stats.failed = 0 ∧ (τ'.arena a).stats.failed = 0
  /-- The one block of the arena has room for so many requests of one size and alignment. -/
  bounded : ∀ {bytes config a σ},
    (ArenaId.create (.bounded bytes) config s).run ctx (play past).store = .ok a σ →
    (ctx.system.request σ.events (σ.poolOf s) bytes config.blockAlign).isSome →
    ∀ {size align : Word}, 1 ≤ size → align ≤ config.blockAlign →
    (∀ t, ∀ q ∈ clients t, q = ⟨size, align⟩) → ∀ {trace}, Interleaves clients trace →
      a.Yields ctx σ trace size (min trace.length (ArenaId.room bytes size align))

/-- Clients of a new arena whose requests come in between each other get as much as in any other
order. -/
theorem play_impartial (hlaw : system.Lawful) {past : List Move}
    (hpast : ∀ m ∈ past, m.Within system) (hw : ctx.system.Within system)
    {clients : Thread → List Request}
    (hadmitted : ∀ t, ∀ q ∈ clients t, checkRequest q.size q.align = .ok ())
    (hopen : ∀ t, clients t ≠ [] → (play past).store.checkUsable t s = .ok ()) :
    Impartial past ctx s clients := by
  have hsession : (play past).Sound system False ((handedOut past).map (·.region)) :=
    play_sound hlaw.separate hpast False.elim
  have hsound := hsession.store
  have hcallers : ∀ {trace}, Interleaves clients trace → ∀ p ∈ trace, clients p.1 ≠ [] :=
    fun h p hp => List.ne_nil_of_mem (h.mem hp)
  have hchecked : ∀ {trace}, Interleaves clients trace →
      ∀ p ∈ trace, checkRequest p.2.size p.2.align = .ok () :=
    fun h p hp => hadmitted p.1 p.2 (h.mem hp)
  refine ⟨fun hnew trace trace' ht ht' hample hample' => ?_,
    fun hnew hblock size align hpos hle hsame trace ht => ?_⟩
  · obtain ⟨hp, harena, hshares⟩ := ArenaId.shares_create hsound hnew hopen
    have huniform : ∀ n, ArenaId.Uniform _ n _ := fun n f hf => by
      rw [harena] at hf
      cases hf
    obtain ⟨outcomes, τ, hrun, hall, hserved, hdedicated, hfailed⟩ :=
      ArenaId.serves_each hlaw hw hp (hcallers ht) (hchecked ht) hshares (huniform _) hample
    obtain ⟨outcomes', τ', hrun', hall', hserved', hdedicated', hfailed'⟩ :=
      ArenaId.serves_each hlaw hw hp (hcallers ht') (hchecked ht') hshares (huniform _) hample'
    have hperm := ht.perm ht'
    have hzero := congrArg (·.stats.failed) harena
    refine ⟨outcomes, τ, outcomes', τ', hrun, hrun', hall, hall', ?_, ?_, hfailed.trans hzero,
      hfailed'.trans hzero⟩
    · rw [hserved, hserved', total_perm _ hperm]
    · rw [hdedicated, hdedicated', hperm.countP_eq]
  · obtain ⟨hp, harena, hshares⟩ := ArenaId.shares_create hsound hnew hopen
    exact ArenaId.yields_all hlaw hw hp (hchecked ht) (UInt64.le_iff_toNat_le.mp hpos) hle
      (hcallers ht) (fun p hp => hsame p.1 p.2 (ht.mem hp)) hshares (by rw [harena]) hblock

/-- A scope that all threads may use. -/
def openingCalls : List (Thread × Call) := [(0, .scope (.create .shared "s"))]

/-- A client whose first request is as large as three blocks, and another one. -/
def unequalClients : Thread → List Request
  | 1 => [⟨192, 16⟩, ⟨40, 8⟩]
  | 2 => [⟨30, 1⟩]
  | _ => []

def equalClients : Thread → List Request
  | 1 => [⟨12, 8⟩, ⟨12, 8⟩]
  | 2 => [⟨12, 8⟩]
  | _ => []

theorem openingCalls_impartial :
    (∀ m ∈ movesOf TwinHeaps.system openingCalls, m.Within TwinHeaps.system) ∧
    (∃ σ, (ArenaId.create (.unbounded 64) { blockSize := 64 } 1).run ⟨0, TwinHeaps.system⟩
        (play (movesOf TwinHeaps.system openingCalls)).store = .ok 0 σ ∧
      ∃ outcomes τ outcomes' τ',
        (ArenaId.serveEach 0 [(1, ⟨192, 16⟩), (1, ⟨40, 8⟩), (2, ⟨30, 1⟩)]).run
          ⟨0, TwinHeaps.system⟩ σ = .ok outcomes τ ∧
        (ArenaId.serveEach 0 [(2, ⟨30, 1⟩), (1, ⟨192, 16⟩), (1, ⟨40, 8⟩)]).run
          ⟨0, TwinHeaps.system⟩ σ = .ok outcomes' τ' ∧
        (τ.arena 0).stats.served = (τ'.arena 0).stats.served ∧
        (τ.arena 0).stats.dedicated = (τ'.arena 0).stats.dedicated ∧
        (τ.arena 0).stats.failed = 0 ∧ (τ'.arena 0).stats.failed = 0) ∧
    ∃ σ, (ArenaId.create (.bounded 40) {} 1).run ⟨0, TwinHeaps.system⟩
        (play (movesOf TwinHeaps.system openingCalls)).store = .ok 0 σ ∧
      ArenaId.Yields 0 ⟨0, TwinHeaps.system⟩ σ [(1, ⟨12, 8⟩), (2, ⟨12, 8⟩), (1, ⟨12, 8⟩)] 12 2 := by
  have hw := within_movesOf TwinHeaps.system openingCalls
  have hopen : ∀ t : Thread,
      (play (movesOf TwinHeaps.system openingCalls)).store.checkUsable t 1 = .ok () := fun _ => rfl
  have hunequal : Impartial (movesOf TwinHeaps.system openingCalls) ⟨0, TwinHeaps.system⟩ 1
      unequalClients := by
    refine play_impartial TwinHeaps.lawful hw (.refl _) (fun t => ?_) fun t _ => hopen t
    match t with
    | 0 => decide
    | 1 => decide
    | 2 => decide
    | t + 3 => exact fun q hq => by cases hq
  have hequal : Impartial (movesOf TwinHeaps.system openingCalls) ⟨0, TwinHeaps.system⟩ 1
      equalClients := by
    refine play_impartial TwinHeaps.lawful hw (.refl _) (fun t => ?_) fun t _ => hopen t
    match t with
    | 0 => decide
    | 1 => decide
    | 2 => decide
    | t + 3 => exact fun q hq => by cases hq
  have hsame : ∀ t, ∀ q ∈ equalClients t, q = ⟨12, 8⟩
    | 0 => by decide
    | 1 => by decide
    | 2 => by decide
    | t + 3 => fun q hq => by cases hq
  have horder : Interleaves unequalClients [(1, ⟨192, 16⟩), (1, ⟨40, 8⟩), (2, ⟨30, 1⟩)]
    | 0 => rfl
    | 1 => rfl
    | 2 => rfl
    | t + 3 => rfl
  have horder' : Interleaves unequalClients [(2, ⟨30, 1⟩), (1, ⟨192, 16⟩), (1, ⟨40, 8⟩)]
    | 0 => rfl
    | 1 => rfl
    | 2 => rfl
    | t + 3 => rfl
  have hturns : Interleaves equalClients [(1, ⟨12, 8⟩), (2, ⟨12, 8⟩), (1, ⟨12, 8⟩)]
    | 0 => rfl
    | 1 => rfl
    | 2 => rfl
    | t + 3 => rfl
  have hnew : (ArenaId.create (.unbounded 64) { blockSize := 64 } 1).run ⟨0, TwinHeaps.system⟩
      (play (movesOf TwinHeaps.system openingCalls)).store =
        .ok 0 ((play (movesOf TwinHeaps.system openingCalls)).store.addArena
          ⟨1, .unbounded 64, 16, none, {}⟩) := rfl
  refine ⟨hw, ⟨_, hnew, ?_⟩, ⟨_, rfl, ?_⟩⟩
  · obtain ⟨outcomes, τ, outcomes', τ', hrun, hrun', _, _, htotals⟩ :=
      hunequal.unbounded hnew horder horder' (by decide +kernel) (by decide +kernel)
    exact ⟨outcomes, τ, outcomes', τ', hrun, hrun', htotals⟩
  · have hbounded : (ArenaId.create (.bounded 40) {} 1).run ⟨0, TwinHeaps.system⟩
        (play (movesOf TwinHeaps.system openingCalls)).store =
          .ok 0 ((play (movesOf TwinHeaps.system openingCalls)).store.addArena
            ⟨1, .bounded 40, 16, none, {}⟩) := rfl
    exact hequal.bounded hbounded (by decide) (by decide) (by decide) hsame hturns

end ScopedMemory
