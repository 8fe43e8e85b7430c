import ScopedMemory.Proofs.Arena.Books
import ScopedMemory.Proofs.Session.Allocations

namespace ScopedMemory

open Operation

variable {system : SystemAllocator} {ctx : Context} {σ τ ρ : Store} {w : Allocator}
  {q : AllocationRequest} {ss ss' : List Supply}

/-- Whether the operation succeeds, as a number. -/
def Operation.successes {α : Type} (x : Operation α) (ctx : Context) (σ : Store) : Nat :=
  (x.value? ctx σ).toList.length

namespace Store

/-- As `Buys`, where the allocator serves all that is served. -/
def Trades (system : SystemAllocator) (σ : Store) (w : Allocator) (τ : Store) : Prop :=
  ∃ ss, (∀ x ∈ ss, x.source = w) ∧ σ.Buys system w ss τ

theorem Trades.refl (system : SystemAllocator) (σ : Store) (w : Allocator) :
    σ.Trades system w σ := ⟨[], nofun, .refl system σ w⟩

theorem Trades.trans (h : σ.Trades system w τ) (h' : τ.Trades system w ρ) :
    σ.Trades system w ρ := by
  obtain ⟨ss, hs, hb⟩ := h
  obtain ⟨ss', hs', hb'⟩ := h'
  refine ⟨ss' ++ ss, fun x hx => ?_, hb.trans hb'⟩
  exact (List.mem_append.mp hx).elim (hs' x) (hs x)

theorem Trades.memory (h : σ.Trades system w τ) (m : Memory) :
    σ.Trades system w (τ.setMemory m) := by
  obtain ⟨ss, hs, hb⟩ := h
  exact ⟨ss, hs, hb.memory m⟩

theorem Buys.trades {size : Word} (h : σ.Buys system w [⟨w, size⟩] τ) : σ.Trades system w τ :=
  ⟨_, fun _ hx => List.mem_singleton.mp hx ▸ rfl, h⟩

theorem Buys.trades_nil (h : σ.Buys system w [] τ) : σ.Trades system w τ := ⟨[], nofun, h⟩

theorem Trades.extends (h : σ.Trades system w τ) : σ.Extends τ := by
  obtain ⟨_, _, hb⟩ := h
  exact hb.extends

end Store

/-- What is done after a request was served, or failed, only writes to memory. -/
theorem Operation.Leads.buys {α β : Type} {x : Operation α} {f : α → Operation β} {size : Word}
    (hx : x.Leads ctx σ (fun _ τ => σ.Buys system w [⟨w, size⟩] τ) (σ.Buys system w []))
    (hf : ∀ a τ, (f a).Leads ctx τ (fun _ ρ => ∃ m, ρ = τ.setMemory m)
      fun ρ => ∃ m, ρ = τ.setMemory m) :
    (x >>= f).Leads ctx σ
      (fun _ τ => σ.Buys system w (List.replicate (x.successes ctx σ) ⟨w, size⟩) τ)
      (σ.Buys system w (List.replicate (x.successes ctx σ) ⟨w, size⟩)) := by
  unfold successes
  refine hx.value.chain (fun τ h => ?_) fun a τ h => ?_
  · rw [h.1]
    exact h.2
  · rw [h.1]
    refine (hf a τ).imp (fun _ ρ h' => ?_) fun ρ h' => ?_
    all_goals
      obtain ⟨m, rfl⟩ := h'
      exact h.2.memory m

/-! ### Allocators -/

/-- Who serves a request to the allocator: a scope, which may be new, or an arena. -/
def Allocator.source (σ : Store) : Allocator → Allocator
  | perRequest _ => direct σ.scopes.length
  | w => w

namespace Allocator

theorem buys_allocateNative (hw : ctx.system.Within system) (s : ScopeId) (size align : Word) :
    (s.allocateNative size align).Leads ctx σ
      (fun _ τ => σ.Buys system (direct s) [⟨direct s, size⟩] τ) (σ.Buys system (direct s) []) := by
  refine (ScopeId.leads_allocateNative s size align).imp (fun r τ h => ?_) fun τ h => ?_
  · obtain ⟨hu, ha, hb, _, rfl⟩ := h
    have halive := (Store.checkUsable_eq_ok_iff.mp hu).2
    exact (Store.Deal.direct halive ha (hw.place hb)).buys fun p hp =>
      List.mem_singleton.mp hp ▸ rfl
  · exact h ▸ .refl _ _ _

theorem buys_allocate (hw : ctx.system.Within system) (hk : w.Known σ) (hf : w.IsFresh)
    (size align : Word) :
    (w.allocate size align).Leads ctx σ
      (fun _ τ => σ.Buys system (w.source σ) [⟨w.source σ, size⟩] τ)
      (σ.Buys system (w.source σ) []) := by
  have hrefl := Store.Buys.refl system σ (w.source σ)
  cases w with
  | direct s =>
    refine (leads_require (P := fun _ τ => σ = τ) (fun _ _ => rfl) hrefl).bind ?_
    rintro _ _ rfl
    exact buys_allocateNative hw s size align
  | perRequest kind =>
    refine (leads_require (P := fun _ τ => σ = τ) (fun _ _ => rfl) hrefl).bind ?_
    rintro _ _ rfl
    have hne : (if kind = .global then .implicit else kind) ≠ ScopeKind.global := by
      split
      next => exact ScopeKind.noConfusion
      next hk => exact hk
    refine (ScopeId.leads_create _).chain (fun _ h => h.elim) fun s τ h => ?_
    obtain ⟨hg, _⟩ | ⟨_, rfl, rfl⟩ := h
    · exact absurd hg hne
    have hnew : σ.Buys system (direct σ.scopes.length) [] _ :=
      (Store.Deal.scope σ (if kind = .global then .implicit else kind) ctx.caller).buys nofun
    exact (buys_allocateNative hw _ size align).imp (fun _ _ h => hnew.trans h) fun _ h =>
      hnew.trans h
  | arena a => exact ArenaId.buys_allocate hw (hk a rfl) size align
  | recycling r => exact hf.elim

theorem leads_unchecked {e : MemoryError} (hd : q.checked = .error e) :
    (w.serve q).Leads ctx σ (fun _ _ => False) (· = σ) := by
  rw [serve_eq, hd]
  exact rfl

theorem buys_serve (hw : ctx.system.Within system) (hk : w.Known σ) (hf : w.IsFresh)
    {size align : Word} (hd : q.checked = .ok (size, align)) :
    (w.serve q).Leads ctx σ
      (fun _ τ => σ.Buys system (w.source σ)
        (List.replicate ((w.allocate size align).successes ctx σ) ⟨w.source σ, size⟩) τ)
      (σ.Buys system (w.source σ)
        (List.replicate ((w.allocate size align).successes ctx σ) ⟨w.source σ, size⟩)) := by
  rw [serve_eq, hd]
  refine (buys_allocate hw hk hf size align).buys fun r τ => ?_
  refine (q.leads_fill r).imp (fun _ ρ h => ?_) fun ρ h => ⟨τ.memory, h⟩
  obtain ⟨_, _, _, _, rfl⟩ := h
  exact ⟨_, rfl⟩

/-- To ask a recycling allocator changes nothing but memory. -/
theorem leads_serve_recycling (r : Region) :
    ((recycling r).serve q).Leads ctx σ (fun _ τ => ∃ m, τ = σ.setMemory m)
      fun τ => ∃ m, τ = σ.setMemory m := by
  refine leads_serve_of_allocate ⟨σ.memory, rfl⟩ (fun _ _ h => h) (fun _ τ m h => ?_)
    fun size align _ => ?_
  · obtain ⟨_, rfl⟩ := h
    exact ⟨m, rfl⟩
  · refine (leads_recycling r size align).imp (fun _ _ h => ?_) fun _ h => ⟨σ.memory, h⟩
    exact ⟨σ.memory, h.2.2.2⟩

theorem buys_allocateEach (hw : ctx.system.Within system) {a : ArenaId}
    (hl : a < σ.arenas.length) (size align : Word) (threads : List Thread) :
    ((arena a).allocateEach size align threads).Leads ctx σ
      (fun outcomes τ => σ.Buys system (arena a)
        (List.replicate (outcomes.filterMap Except.toOption).length ⟨arena a, size⟩) τ)
      fun _ => False := by
  unfold allocateEach
  induction threads generalizing σ with
  | nil => exact leads_pure (.refl system σ _)
  | cons t threads ih =>
    rw [List.mapM_cons]
    have hw' : ({ ctx with caller := t } : Context).system.Within system := hw
    have hone : (attempt (asThread t ((arena a).allocate size align))).Leads ctx σ
        (fun outcome τ => σ.Buys system (arena a)
          (List.replicate outcome.toOption.toList.length ⟨arena a, size⟩) τ) fun _ => False :=
      leads_attempt (leads_asThread ((ArenaId.buys_allocate hw' hl size align).imp
        (fun _ _ h => h) fun _ h _ => h))
    refine hone.bind fun outcome τ ho => ?_
    refine (ih (Nat.lt_of_lt_of_le hl ho.extends.arenas)).bind fun outcomes ρ hos => ?_
    have hsplit : ((outcome :: outcomes).filterMap Except.toOption).length =
        (outcomes.filterMap Except.toOption).length + outcome.toOption.toList.length := by
      cases outcome <;> rfl
    refine leads_pure ?_
    rw [hsplit, ← List.replicate_append_replicate]
    exact ho.trans hos

end Allocator

/-! ### Lists and builders -/

namespace VariadicList

/-- The part of reading a struct up to the answer of the allocator: where the struct is, and the
room for its copy. -/
def askSegment (v : VariadicList) (l : Layout) (w : Allocator) :
    Operation (Cursor × Region × Region) := do
  let c ← v.requireCursor
  require (Carrier.segment.check l v.convention.width)
  let slot ← c.remaining.slice 0 v.convention.slotSize
  let src ← v.structSource l c slot
  return (c, src, ← w.allocateLayout l)

variable {v : VariadicList} {l : Layout}

theorem readSegment_eq (v : VariadicList) (l : Layout) (w : Allocator) :
    v.readSegment l w = v.askSegment l w >>= fun p => do
      p.2.2.copyFrom p.2.1
      return (p.2.2, ← v.advance p.1 v.convention.slotSize) := by
  simp only [readSegment, readSlot, askSegment, bind_assoc, pure_bind]

theorem buys_askSegment (hw : ctx.system.Within system) (hk : w.Known σ) (hf : w.IsFresh) :
    (v.askSegment l w).Leads ctx σ
      (fun _ τ => σ.Buys system (w.source σ) [⟨w.source σ, l.size⟩] τ)
      (σ.Buys system (w.source σ) []) := by
  have hsame : ∀ τ, τ = σ → σ.Buys system (w.source σ) [] τ := fun τ h => h ▸ .refl _ _ _
  have hcursor : v.requireCursor.Leads ctx σ (fun _ τ => τ = σ) (· = σ) := by
    unfold requireCursor
    split
    next => exact leads_pure rfl
    next => exact leads_throw rfl
  refine hcursor.chain hsame fun c τ h => ?_
  subst h
  refine (leads_require (P := fun _ ρ => ρ = τ) (fun _ _ => rfl) (hsame τ rfl)).bind fun _ ρ h => ?_
  subst h
  refine Region.leads_slice.chain hsame fun slot τ h => ?_
  obtain ⟨_, _, rfl⟩ := h
  refine (leads_structSource l c slot).chain hsame fun src ρ h => ?_
  subst h
  exact (w.buys_allocate hw hk hf l.size l.align).bind fun _ _ h => leads_pure h

/-- The copy is written to, and then the list moves on. -/
theorem leads_copied (c : Cursor) (copy src : Region) {τ : Store} :
    (do
      copy.copyFrom src
      return (copy, ← v.advance c v.convention.slotSize) : Operation (Region × VariadicList)).Leads
        ctx τ (fun _ ρ => ∃ m, ρ = τ.setMemory m) fun ρ => ∃ m, ρ = τ.setMemory m := by
  refine Region.leads_copyFrom.chain (fun ρ h => ⟨τ.memory, h⟩) fun _ ρ h => ?_
  obtain ⟨_, _, rfl⟩ := h
  rw [advance, bind_assoc]
  refine Region.leads_sliceFrom.chain (fun _ h => ⟨_, h⟩) fun rest ρ h => ?_
  obtain ⟨_, _, _, _, rfl⟩ := h
  exact leads_pure ⟨_, rfl⟩

theorem buys_readSegment (hw : ctx.system.Within system) (hk : w.Known σ) (hf : w.IsFresh) :
    (v.readSegment l w).Leads ctx σ
      (fun _ τ => σ.Buys system (w.source σ)
        (List.replicate ((v.askSegment l w).successes ctx σ) ⟨w.source σ, l.size⟩) τ)
      (σ.Buys system (w.source σ)
        (List.replicate ((v.askSegment l w).successes ctx σ) ⟨w.source σ, l.size⟩)) := by
  rw [readSegment_eq]
  exact (buys_askSegment hw hk hf).buys fun p τ => leads_copied p.1 p.2.2 p.2.1

theorem leads_readSegment_recycling (r : Region) :
    (v.readSegment l (.recycling r)).Leads ctx σ (fun _ τ => ∃ m, τ = σ.setMemory m)
      fun τ => ∃ m, τ = σ.setMemory m := by
  have hsame : ∀ τ, τ = σ → ∃ m, τ = σ.setMemory m := fun τ h => ⟨σ.memory, h⟩
  refine (leads_readSlot (P := fun _ τ => ∃ m, τ = σ.setMemory m) (hsame σ rfl) (fun c _ _ => ?_)
    fun _ _ h => h).imp (fun _ _ h => h.1) fun _ h => h
  refine (leads_structSource l c _).chain hsame fun src τ h => ?_
  subst h
  refine (Allocator.leads_recycling r l.size l.align).chain hsame fun copy τ' h => ?_
  obtain ⟨_, _, _, rfl⟩ := h
  refine Region.leads_copyFrom.chain hsame fun _ ρ h => ?_
  exact leads_pure ⟨_, h.2.2⟩

end VariadicList

namespace VariadicBuilder

variable {c : Convention} {a : ArenaId} {b : VariadicBuilder}

theorem trades_writeSlot (hw : ctx.system.Within system) (ha : a < σ.arenas.length)
    (slot : Region) (arg : Argument) :
    (writeSlot c a slot arg).Leads ctx σ (fun _ τ => σ.Trades system (.arena a) τ)
      (σ.Trades system (.arena a)) := by
  have hrefl := Store.Trades.refl system σ (.arena a)
  have hsame : ∀ τ, τ = σ → σ.Trades system (.arena a) τ := fun τ h => h ▸ hrefl
  have hset : ∀ x, (slot.set arg.layout 0 x).Leads ctx σ
      (fun _ τ => σ.Trades system (.arena a) τ) (σ.Trades system (.arena a)) := fun x =>
    Region.leads_set.imp (fun _ τ h => h.2.2 ▸ hrefl.memory _) hsame
  unfold writeSlot
  split
  next x _ => exact hset ⟨.i32, x⟩
  next x _ => exact hset ⟨.i64, x⟩
  next x _ => exact hset ⟨.f64, x⟩
  next x _ =>
    refine Region.leads_setAddress.imp (fun _ τ h => ?_) hsame
    obtain ⟨_, _, _, rfl⟩ := h
    exact hrefl.memory _
  next src _ =>
    refine (leads_require (P := fun _ τ => τ = σ) (fun _ _ => rfl) hrefl).bind fun found τ h => ?_
    subst h
    split
    next =>
      refine (ArenaId.buys_allocate hw ha arg.layout.size arg.layout.align).chain
        (fun _ h => h.trades_nil) fun copy ρ h => ?_
      have hρ := h.trades
      refine Region.leads_copyFrom.chain (fun _ h => h ▸ hρ) fun _ ρ' h => ?_
      obtain ⟨_, _, rfl⟩ := h
      refine Region.leads_setAddress.imp (fun _ τ h => ?_) fun τ h => h ▸ hρ.memory _
      obtain ⟨_, _, _, rfl⟩ := h
      exact (hρ.memory _).memory _
    next =>
      refine Region.leads_slice.chain hsame fun slot' τ' h => ?_
      obtain ⟨_, rfl, rfl⟩ := h
      exact Region.leads_copyFrom.imp (fun _ τ h => h.2.2 ▸ hrefl.memory _) hsame

theorem trades_writeSlots (hw : ctx.system.Within system) (ha : a < σ.arenas.length)
    (buffer : Region) (index : Nat) (args : List Argument) :
    (writeSlots c a buffer index args).Leads ctx σ (fun _ τ => σ.Trades system (.arena a) τ)
      (σ.Trades system (.arena a)) := by
  induction args generalizing σ index with
  | nil => exact leads_pure (.refl system σ _)
  | cons arg args ih =>
    refine Region.leads_slice.chain (fun τ h => h ▸ .refl system σ _) fun slot τ h => ?_
    obtain ⟨_, _, rfl⟩ := h
    refine (trades_writeSlot hw ha slot arg).bind fun _ τ h => ?_
    exact (ih (Nat.lt_of_lt_of_le ha h.extends.arenas) (index + 1)).imp (fun _ _ h' => h.trans h')
      fun _ h' => h.trans h'

/-- A list is built from an arena of its own. -/
theorem trades_build (hw : ctx.system.Within system) :
    b.build.Leads ctx σ (fun _ τ => σ.Trades system (.arena σ.arenas.length) τ)
      (σ.Trades system (.arena σ.arenas.length)) := by
  have hrefl := Store.Trades.refl system σ (.arena σ.arenas.length)
  unfold build
  split
  next => exact leads_pure hrefl
  next =>
    dsimp only
    split
    next => exact leads_throw hrefl
    next size _ =>
      refine (ArenaId.leads_create _ _ _).chain (fun _ h => h ▸ hrefl) fun a τ h => ?_
      obtain ⟨_, hu, rfl, rfl⟩ := h
      have hnew : σ.Trades system (.arena σ.arenas.length)
          (σ.addArena ⟨b.scope, .unbounded 4096, 16, none, {}⟩) :=
        ((Store.Deal.arena (Store.checkUsable_eq_ok_iff.mp hu).2).buys nofun).trades_nil
      have hl : σ.arenas.length <
          (σ.addArena ⟨b.scope, .unbounded 4096, 16, none, {}⟩).arenas.length := by simp
      refine (ArenaId.buys_allocate hw hl size b.convention.slotSize).chain
        (fun _ h => hnew.trans h.trades_nil) fun buffer ρ h => ?_
      have hρ := hnew.trans h.trades
      refine (trades_writeSlots hw (Nat.lt_of_lt_of_le hl h.extends.arenas) buffer 0
        b.arguments).chain (fun _ h' => hρ.trans h') fun _ τ h' => ?_
      exact leads_pure (hρ.trans h')

end VariadicBuilder

theorem VariadicList.trades_make (hw : ctx.system.Within system) (c : Convention) (s : ScopeId)
    (args : List (Layout × ArgumentValue)) :
    (VariadicList.make c s args).Leads ctx σ
      (fun _ τ => σ.Trades system (.arena σ.arenas.length) τ)
      (σ.Trades system (.arena σ.arenas.length)) := by
  have hsame : ∀ τ, τ = σ → σ.Trades system (.arena σ.arenas.length) τ := fun τ h =>
    h ▸ .refl system σ _
  refine (VariadicBuilder.leads_create c s).chain hsame fun b τ h => ?_
  obtain ⟨_, _, rfl⟩ := h
  refine (VariadicBuilder.leads_pushes args b).chain hsame fun b ρ h => ?_
  obtain ⟨rfl, _⟩ := h
  exact VariadicBuilder.trades_build hw

end ScopedMemory
