import ScopedMemory.Proofs.Arena.Failures
import ScopedMemory.Proofs.Arena.Interleaving
import ScopedMemory.Proofs.Variadic.Builder

namespace ScopedMemory

open Operation

variable {α : Type} {B : ArenaId → Prop} {ctx : Context} {σ τ ρ : Store} {m n : Nat} {a : ArenaId}

/-! ### Lists and builders -/

theorem VariadicList.blames_readSegment (v : VariadicList) (l : Layout) {w : Allocator}
    (hB : ∀ a, w = .arena a → B a) : (v.readSegment l w).Blames B ctx σ := by
  have hcopy : ∀ c slot, Operation.Blames (do
      let src ← v.structSource l c slot
      let copy ← w.allocateLayout l
      copy.copyFrom src
      return copy) B ctx σ := fun c slot =>
    Blames.bind (even_aside (leads_structSource l c slot) fun _ _ h =>
      congrArg Store.arenas h).blames fun src _ =>
        Blames.bind (Allocator.blames_allocate hB) fun copy _ =>
          ((copy.even_copyFrom src).bind fun _ _ => through_pure copy).blames
  have hread : (v.readSegment l w).Leads ctx σ (fun p τ => σ.Even τ ∧ v.Advanced p.2)
      (σ.Blames B) :=
    leads_readSlot (P := fun _ τ => σ.Even τ) σ.blames_refl
      (fun c _ _ => hcopy c _) fun _ _ h => Or.inl h
  exact hread.imp (fun _ _ h => h.1) fun _ h => h

namespace VariadicBuilder

variable (ha : B a)

include ha

theorem blames_writeSlot (c : Convention) (slot : Region) (arg : Argument) :
    (writeSlot c a slot arg).Blames B ctx σ := by
  have hset : ∀ x, (slot.set arg.layout 0 x).Blames B ctx σ := fun x => by
    refine (even_aside Region.leads_set fun _ τ h => ?_).blames
    rw [h.2.2]
    rfl
  have haddress : ∀ {ρ} l x, (slot.setAddress l 0 x).Through Store.Even ctx ρ := fun l x => by
    refine even_aside Region.leads_setAddress fun _ τ h => ?_
    obtain ⟨_, _, _, rfl⟩ := h
    rfl
  unfold writeSlot
  split
  next x _ => exact hset ⟨.i32, x⟩
  next x _ => exact hset ⟨.i64, x⟩
  next x _ => exact hset ⟨.f64, x⟩
  next x _ => exact (haddress _ x).blames
  next src _ =>
    refine (through_require _).blames.bind fun found τ => ?_
    split
    next =>
      exact (ArenaId.blames_allocate ha).bind fun copy _ =>
        ((copy.even_copyFrom src).bind fun _ _ => haddress _ _).blames
    next => exact (slot.even_slice.bind fun bytes _ => bytes.even_copyFrom src).blames

theorem blames_writeSlots (c : Convention) (buffer : Region) (index : Nat)
    (args : List Argument) : (writeSlots c a buffer index args).Blames B ctx σ := by
  induction args generalizing σ index with
  | nil => exact (through_pure _).blames
  | cons arg args ih =>
    exact buffer.even_slice.blames.bind fun slot _ =>
      (blames_writeSlot ha c slot arg).bind fun _ _ => ih (index + 1)

omit ha

/-- Building stops at the first request that fails, and only the arena of the list counts it. -/
theorem blames_build (b : VariadicBuilder) (hB : B σ.arenas.length) :
    b.build.Blames B ctx σ := by
  unfold build
  split
  next => exact (through_pure _).blames
  next =>
    dsimp only
    split
    next => exact (through_throw _).blames
    next size _ =>
      refine Leads.chain (ArenaId.leads_create _ _ _) (fun _ h => h.symm ▸ σ.blames_refl)
        fun a τ h => ?_
      obtain ⟨_, _, rfl, rfl⟩ := h
      have hnew : σ.Even (σ.addArena ⟨b.scope, .unbounded 4096, 16, none, {}⟩) :=
        σ.even_addArena rfl
      have hbuffer : (ArenaId.allocate σ.arenas.length size b.convention.slotSize).Blames B ctx
          (σ.addArena ⟨b.scope, .unbounded 4096, 16, none, {}⟩) := ArenaId.blames_allocate hB
      have hbuild := hbuffer.bind fun buffer _ =>
        (blames_writeSlots hB b.convention buffer 0 b.arguments).bind fun _ _ =>
          (through_pure (VariadicList.ofBuffer b.convention buffer b.scope)).blames
      exact hbuild.imp (fun _ _ h => Trans.trans hnew h) fun _ h => hnew.blames h

end VariadicBuilder

theorem VariadicList.blames_make (c : Convention) (s : ScopeId)
    (args : List (Layout × ArgumentValue)) (hB : B σ.arenas.length) :
    (VariadicList.make c s args).Blames B ctx σ := by
  refine Leads.chain (VariadicBuilder.leads_create c s)
    (fun _ h => h.symm ▸ σ.blames_refl) fun b τ h => ?_
  obtain ⟨_, _, rfl⟩ := h
  refine Leads.chain (VariadicBuilder.leads_pushes args b)
    (fun _ h => h.symm ▸ Store.blames_refl _) fun b' τ h => ?_
  obtain ⟨rfl, _⟩ := h
  exact b'.blames_build hB

/-! ### How often requests fail -/

namespace Store

/-- Every arena has counted at most `n` more requests as failed. -/
def Misses (n : Nat) (σ τ : Store) : Prop :=
  ∀ a, (τ.arena a).stats.failed.toNat ≤ (σ.arena a).stats.failed.toNat + n

theorem Even.misses (h : σ.Even τ) : σ.Misses n τ := fun a => by
  rw [h.failed a]
  exact Nat.le_add_right _ n

theorem misses_of_arenas (h : τ.arenas = σ.arenas) : σ.Misses n τ := (even_of_arenas h).misses

theorem Misses.mono (h : σ.Misses m τ) (hmn : m ≤ n) : σ.Misses n τ :=
  fun a => Nat.le_trans (h a) (Nat.add_le_add_left hmn _)

theorem Misses.trans (h : σ.Misses m τ) (h' : τ.Misses n ρ) : σ.Misses (m + n) ρ := fun a => by
  have ha := h a
  have ha' := h' a
  omega

/-- The step that counts is the only one that raises the number, and it may start again at zero. -/
theorem misses_failed (σ : Store) (a : ArenaId) : σ.Misses 1 (σ.failed a) := fun b => by
  unfold failed
  rw [arena_modifyArena]
  split
  next h =>
    rw [h.1]
    show ((σ.arena a).stats.failed + 1).toNat ≤ (σ.arena a).stats.failed.toNat + 1
    rw [UInt64.toNat_add]
    exact Nat.mod_le _ _
  next => exact Nat.le_add_right _ 1

theorem Blames.misses (h : σ.Blames B τ) : σ.Misses 1 τ := by
  rcases h with h | ⟨ρ, a, _, h, rfl⟩
  · exact h.misses
  · exact Nat.zero_add 1 ▸ h.misses.trans (ρ.misses_failed a)

end Store

namespace Operation

variable {x : Operation α}

/-- At most `n` requests are counted as failed, and none if the operation succeeds. -/
def Misses (x : Operation α) (n : Nat) (ctx : Context) (σ : Store) : Prop :=
  x.Leads ctx σ (fun _ τ => σ.Misses 0 τ) (σ.Misses n)

theorem Blames.misses (h : x.Blames B ctx σ) : x.Misses 1 ctx σ :=
  Leads.imp h (fun _ _ h => h.misses) fun _ h => h.misses

theorem Through.misses (h : x.Through Store.Even ctx σ) : x.Misses n ctx σ :=
  Leads.imp h (fun _ _ h => h.misses) fun _ h => h.misses

/-- An operation that leaves the arenas alone. -/
theorem misses_aside {P : α → Store → Prop} (hx : x.Leads ctx σ P (· = σ))
    (hP : ∀ a τ, P a τ → τ.arenas = σ.arenas) : x.Misses n ctx σ := (even_aside hx hP).misses

end Operation

theorem ArenaId.misses_allocate (a : ArenaId) (size align : Word) :
    (a.allocate size align).Misses 1 ctx σ := (blames_allocate (B := (· = a)) rfl).misses

/-- Requests that are made one after another count as failed at most once each. -/
theorem ArenaId.misses_serveEach (a : ArenaId) (trace : List (Thread × Request)) :
    (a.serveEach trace).Leads ctx σ (fun _ τ => σ.Misses trace.length τ) fun _ => False := by
  unfold serveEach
  induction trace generalizing σ with
  | nil => exact leads_pure (Store.misses_of_arenas rfl)
  | cons p trace ih =>
    rw [List.mapM_cons]
    have hone : (attempt (asThread p.1 (a.allocate p.2.size p.2.align))).Leads ctx σ
        (fun _ τ => σ.Misses 1 τ) fun _ => False :=
      leads_attempt (leads_asThread ((misses_allocate a p.2.size p.2.align).imp
        (fun _ _ h => h.mono (Nat.zero_le 1)) fun _ h _ => h))
    refine hone.bind fun outcome τ h => (ih (σ := τ)).bind fun outcomes ρ h' => leads_pure ?_
    rw [List.length_cons, Nat.add_comm]
    exact h.trans h'

theorem Allocator.misses_serve (w : Allocator) (q : AllocationRequest) :
    (w.serve q).Misses 1 ctx σ := (blames_serve (B := (w = .arena ·)) q fun _ h => h).misses

theorem VariadicList.misses_readSegment (v : VariadicList) (l : Layout) (w : Allocator) :
    (v.readSegment l w).Misses 1 ctx σ :=
  (v.blames_readSegment l (B := (w = .arena ·)) fun _ h => h).misses

theorem VariadicBuilder.misses_build (b : VariadicBuilder) : b.build.Misses 1 ctx σ :=
  (b.blames_build (B := (· = σ.arenas.length)) rfl).misses

theorem VariadicList.misses_make (c : Convention) (s : ScopeId)
    (args : List (Layout × ArgumentValue)) : (VariadicList.make c s args).Misses 1 ctx σ :=
  (blames_make c s args (B := (· = σ.arenas.length)) rfl).misses

end ScopedMemory
