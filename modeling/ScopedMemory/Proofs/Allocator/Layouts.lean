import ScopedMemory.Heap.TwinHeaps
import ScopedMemory.Proofs.Arena.Answers
import ScopedMemory.Proofs.Arena.Config
import ScopedMemory.Proofs.Layout.Extent
import ScopedMemory.Proofs.Truth.Allocations

namespace ScopedMemory

open Operation

variable {α : Type} {system : SystemAllocator} {past : List Move} {ctx : Context} {σ : Store}
  {s : ScopeId} {a : ArenaId} {w : Allocator} {size align : Word} {e : MemoryError}

/-! ### What a request can be found fault with -/

namespace MemoryError

def IsArgument : MemoryError → Prop
  | invalidArgument _ => True
  | _ => False

/-- The other texts about arguments begin with other words. -/
theorem ne_badAlignment {reason : String} (h : reason.toList.take 3 ≠ "ali".toList) (n : Word) :
    invalidArgument reason ≠ badAlignment n := by
  intro he
  refine h ?_
  rw [invalidArgument.inj he, String.toList_append, String.toList_append]
  rfl

end MemoryError

theorem checkRequest_eq (size : Word) (ha : align.IsPowerOfTwo) :
    checkRequest size align =
      if size.toNat ≤ 0x7fffffffffffffff then .ok ()
      else .error (.invalidArgument s!"allocation size {size} is out of range") := by
  unfold checkRequest
  rw [if_neg (not_not.mpr ha)]
  by_cases h : size.toNat ≤ 0x7fffffffffffffff
  · rw [if_pos h, if_pos (Nat.lt_succ_of_le h)]
  · rw [if_neg h, if_neg fun hlt => h (Nat.le_of_lt_succ hlt)]

/-! ### Requests that have passed their check -/

/-- The operation may fail, but not because of what it was asked for. -/
abbrev Operation.Accepts (x : Operation α) (ctx : Context) (σ : Store) : Prop :=
  x.Tells ctx σ (¬ ·.IsArgument)

theorem Store.accepts_checkUsable (σ : Store) (t : Thread) (s : ScopeId) :
    σ.Tells t (¬ ·.IsArgument) s := by
  intro e he
  rcases σ.checkUsable_cases t s with ⟨_, h⟩ | ⟨_, _, h⟩ | ⟨_, _, h⟩ <;> cases h.symm.trans he
  · exact id
  · exact id

theorem Region.accepts_slice (r : Region) (offset length : Word) :
    (r.slice offset length).Accepts ctx σ := by
  intro e τ he
  rw [run_slice, Store.checkAccess_eq] at he
  cases hu : σ.checkUsable ctx.caller r.scope with
  | error fault =>
    rw [hu] at he
    cases he
    exact σ.accepts_checkUsable _ _ _ hu
  | ok u =>
    rw [hu, checkSpan_eq] at he
    dsimp only at he
    split at he
    next => cases he
    next fault hspan =>
      split at hspan
      next => cases hspan
      next =>
        cases hspan
        cases he
        exact id

theorem ScopeId.accepts_allocateNative (ha : align.IsPowerOfTwo) :
    (s.allocateNative size align).Accepts ctx σ := by
  refine tells_checkUsable_bind (σ.accepts_checkUsable _ _) fun hu => ?_
  intro e τ he
  cases hb : ctx.system.request σ.events (σ.poolOf s) size align <;> simp [ha, hb] at he
  rw [← he.1]
  exact id

namespace ArenaId

theorem accepts_carve (f : Frontier) (start : Word) : (a.carve f start size).Accepts ctx σ :=
  (f.block.accepts_slice start size).then fun _ _ => tells_modify.then fun _ _ => tells_pure _

theorem accepts_fit (f : Frontier) (available : Word) :
    (match f.fit? size align with
      | some start => a.carve f start size
      | none => throw (.outOfMemory size available) : Operation Region).Accepts ctx σ := by
  split
  next => exact accepts_carve f _
  next => exact tells_throw id

/-- What is asked of an arena whose blocks are aligned as they should be. -/
theorem accepts_allocate (hp : (σ.arena a).blockAlign.IsPowerOfTwo)
    (hq : checkRequest size align = .ok ()) : (a.allocate size align).Accepts ctx σ := by
  have hmax := hp.max (isPowerOfTwo_of_checkRequest hq)
  refine tells_require_bind (fun _ he => by cases hq.symm.trans he) fun _ _ => tells_get_bind ?_
  refine tells_checkUsable_bind (σ.accepts_checkUsable _ _) fun _ => tells_counting ?_
  have hinstall : ∀ (available : Frontier → Word) {bytes blockAlign : Word},
      blockAlign.IsPowerOfTwo → Operation.Accepts (do
        let f ← a.install (← (σ.arena a).scope.allocateNative bytes blockAlign)
        match f.fit? size align with
        | some start => a.carve f start size
        | none => throw (.outOfMemory size (available f)) : Operation Region) ctx σ := fun _ _ _ hb =>
    (ScopeId.accepts_allocateNative hb).then fun _ _ =>
      (tells_modify.then fun _ _ => tells_pure _).then fun f _ => accepts_fit f _
  split
  next bytes _ =>
    unfold allocateBounded
    split
    next f _ => exact accepts_fit f _
    next => exact hinstall (fun f => bytes - f.cursor) hp
  next blockSize _ =>
    unfold allocateUnbounded
    split
    next => exact accepts_carve _ _
    next =>
      split
      next =>
        exact (ScopeId.accepts_allocateNative hmax).then fun _ _ =>
          tells_modify.then fun _ _ => tells_pure _
      next => exact hinstall (fun _ => blockSize) hmax

end ArenaId

namespace Allocator

/-- The blocks of the allocator, if it is an arena, are aligned to a power of two. -/
def Regular (w : Allocator) (σ : Store) : Prop :=
  ∀ a, w = arena a → (σ.arena a).blockAlign.IsPowerOfTwo

theorem accepts_allocate (hf : w.IsFresh) (hp : w.Regular σ)
    (hq : checkRequest size align = .ok ()) : (w.allocate size align).Accepts ctx σ := by
  have ha := ArenaId.isPowerOfTwo_of_checkRequest hq
  have hcheck : ∀ e, checkRequest size align = .error e → ¬ e.IsArgument := fun e he => by
    cases hq.symm.trans he
  cases w with
  | direct s => exact tells_require_bind hcheck fun _ _ => ScopeId.accepts_allocateNative ha
  | perRequest kind =>
    exact tells_require_bind hcheck fun _ _ => (ScopeId.leads_create _).tells.then fun _ _ =>
      ScopeId.accepts_allocateNative ha
  | arena a => exact ArenaId.accepts_allocate (hp a rfl) hq
  | recycling r => exact hf.elim

/-- A request that does not pass its check does nothing. -/
theorem run_allocate_of_error (hf : w.IsFresh) (hq : checkRequest size align = .error e) :
    (w.allocate size align).run ctx σ = .error e σ := by
  cases w with
  | direct s => simp [allocate, hq]
  | perRequest kind => simp [allocate, hq]
  | arena a => simp [allocate, ArenaId.allocate, hq]
  | recycling r => exact hf.elim

/-- The allocator finds fault with a request exactly if its bytes are out of range, and otherwise
takes it as one for so many bytes. -/
structure Admits (w : Allocator) (q : AllocationRequest) (bytes : Nat) (align : Word)
    (ctx : Context) (σ : Store) : Prop where
  argument : (∃ reason τ, (w.serve q).run ctx σ = .error (.invalidArgument reason) τ) ↔
    0x7fffffffffffffff < bytes
  aligned : ∀ n τ, (w.serve q).run ctx σ ≠ .error (.badAlignment n) τ
  unchanged : 0x7fffffffffffffff < bytes → ∃ reason,
    (w.serve q).run ctx σ = .error (.invalidArgument reason) σ
  valid : bytes ≤ 0x7fffffffffffffff →
    checkRequest (.ofNat bytes) align = .ok () ∧ w.serve q = w.allocate (.ofNat bytes) align

variable {q : AllocationRequest} {bytes : Nat}

theorem Admits.of_valid (hf : w.IsFresh) (hp : w.Regular σ) (hb : bytes ≤ 0x7fffffffffffffff)
    (hq : checkRequest (.ofNat bytes) align = .ok ())
    (hs : w.serve q = w.allocate (.ofNat bytes) align) : w.Admits q bytes align ctx σ where
  argument := by
    refine ⟨fun ⟨reason, τ, he⟩ => ?_, fun hlt => absurd hlt (Nat.not_lt.mpr hb)⟩
    rw [hs] at he
    exact (accepts_allocate hf hp hq _ _ he trivial).elim
  aligned n τ he := by
    rw [hs] at he
    exact accepts_allocate hf hp hq _ _ he trivial
  unchanged hlt := absurd hlt (Nat.not_lt.mpr hb)
  valid _ := ⟨hq, hs⟩

theorem Admits.of_refused {reason : String} (hb : 0x7fffffffffffffff < bytes)
    (hr : (w.serve q).run ctx σ = .error (.invalidArgument reason) σ)
    (ht : reason.toList.take 3 ≠ "ali".toList) : w.Admits q bytes align ctx σ where
  argument := ⟨fun _ => hb, fun _ => ⟨reason, σ, hr⟩⟩
  aligned n τ he := by
    rw [hr] at he
    exact MemoryError.ne_badAlignment ht n (EStateM.Result.error.inj he).1
  unchanged _ := ⟨reason, hr⟩
  valid hle := absurd hb (Nat.not_lt.mpr hle)

/-- A request for as many bytes as a word can count. -/
theorem Admits.of_eq (hf : w.IsFresh) (hp : w.Regular σ) (ha : align.IsPowerOfTwo)
    (hb : bytes < 0x10000000000000000) (hs : w.serve q = w.allocate (.ofNat bytes) align) :
    w.Admits q bytes align ctx σ := by
  have hbytes : (UInt64.ofNat bytes).toNat = bytes := UInt64.toNat_ofNat_of_lt' hb
  have hcheck := checkRequest_eq (.ofNat bytes) ha
  rw [hbytes] at hcheck
  split at hcheck
  next hle => exact .of_valid hf hp hle hcheck hs
  next hgt =>
    refine .of_refused (Nat.lt_of_not_le hgt) (hs ▸ run_allocate_of_error hf hcheck) ?_
    rw [String.toList_append, String.toList_append]
    intro h
    cases h

end Allocator

namespace Layout

variable {l element : Layout}

theorem Measured.admits (h : l.Measured) (ha : l.align.IsPowerOfTwo) (hf : w.IsFresh)
    (hp : w.Regular σ) : w.Admits (.layout l) l.extent l.align ctx σ := by
  have hsize : l.size = .ofNat l.extent := by
    rw [← h, UInt64.ofNat_toNat]
  refine .of_eq hf hp ha h.extent_lt ?_
  rw [← hsize]
  rfl

theorem Measured.admits_arrayOf (h : element.Measured) (ha : element.align.IsPowerOfTwo)
    (count : Word) (hf : w.IsFresh) (hp : w.Regular σ) :
    w.Admits (.arrayOf element count) (count.toNat * element.extent) element.align ctx σ := by
  have hseq := ofSequence_eq h count
  have hserve : w.serve (.arrayOf element count) =
      require (ofSequence count element) >>= w.allocateLayout := rfl
  split at hseq
  next hlt =>
    rw [hseq] at hserve
    exact .of_eq hf hp ha hlt hserve
  next hge =>
    have hrun : (w.serve (.arrayOf element count)).run ctx σ = .error (.invalidArgument
        s!"sequence of {count} x {element.size} bytes overflows") σ := by
      rw [hserve, hseq]
      rfl
    refine .of_refused (by omega) hrun ?_
    rw [String.toList_append, String.toList_append, String.toList_append, String.toList_append]
    intro h
    cases h

end Layout

/-- Every layout that was put together is as large as its shape, and allocators that hand out new
regions find no fault with it or with an array of it but that it is too large. -/
structure Layout.Served (past : List Move) : Prop where
  align : ∀ l : Layout, l.Made → l.align.IsPowerOfTwo
  size : ∀ l : Layout, l.Made → l.size.toNat = l.extent ∧ l.extent < 0x10000000000000000
  sequence : ∀ element : Layout, element.Made → ∀ count,
    (∃ e, Layout.ofSequence count element = .error e) ↔
      0x10000000000000000 ≤ count.toNat * element.extent
  struct : ∀ members : List Layout, (∀ m ∈ members, m.Made) →
    ((∃ e, Layout.ofStruct members = .error e) ↔
      0x10000000000000000 ≤ Layout.totalExtent members)
  layout : ∀ w : Allocator, w.IsFresh → (∀ a, w = .arena a → a ∈ arenasMade past) →
    ∀ l : Layout, l.Made → ∀ ctx, w.Admits (.layout l) l.extent l.align ctx (play past).store
  array : ∀ w : Allocator, w.IsFresh → (∀ a, w = .arena a → a ∈ arenasMade past) →
    ∀ element : Layout, element.Made → ∀ count ctx,
      w.Admits (.arrayOf element count) (count.toNat * element.extent) element.align ctx
        (play past).store

theorem play_serves (hsep : system.Separate) (hpast : ∀ m ∈ past, m.Within system) :
    Layout.Served past := by
  have hregular : ∀ w : Allocator, (∀ a, w = .arena a → a ∈ arenasMade past) →
      w.Regular (play past).store := fun w hw a ha =>
    (play_configured hsep hpast a (hw a ha)).isPowerOfTwo
  exact
    { align := fun l h => h.isPowerOfTwo_align
      size := fun l h => ⟨h.measured, h.measured.extent_lt⟩
      sequence := fun element h => Layout.ofSequence_error_iff h.measured
      struct := fun members h => Layout.ofStruct_error_iff fun m hm => (h m hm).measured
      layout := fun w hf hw l h ctx =>
        h.measured.admits h.isPowerOfTwo_align hf (hregular w hw)
      array := fun w hf hw element h count ctx =>
        h.measured.admits_arrayOf h.isPowerOfTwo_align count hf (hregular w hw) }

/-- Three unions of a number and filler, before a number that is aligned far more than its size. -/
def nestedLayout : Layout :=
  .struct ⟨26, 64, .native⟩
    [.sequence ⟨18, 4, .native⟩ 3 (.union ⟨6, 4, .native⟩ [.cInt, .ofPadding 6]),
      .value ⟨8, 64, .big⟩]

/-- An arena, which nothing has been asked of. -/
def layingCalls : List (Thread × Call) :=
  [(0, .scope (.create .confined "s")),
    (0, .allocation (.arena "s" (.unbounded 64) {} .confined "a"))]

theorem layingCalls_serve :
    (∀ m ∈ movesOf TwinHeaps.system layingCalls, m.Within TwinHeaps.system) ∧
    nestedLayout.Made ∧ nestedLayout.size.toNat = 26 ∧ nestedLayout.align = 64 ∧
    (∀ ctx, (Allocator.arena 0).Admits (.layout nestedLayout) 26 64 ctx
      (play (movesOf TwinHeaps.system layingCalls)).store) ∧
    (∃ e, Layout.ofSequence 0x1000000000000000 nestedLayout = .error e) ∧
    (∃ e, Layout.ofStruct [nestedLayout, .ofPadding 0xffffffffffffffff] = .error e) ∧
    ∃ reason τ, ((Allocator.arena 0).serve (.arrayOf nestedLayout 0x500000000000000)).run
      ⟨1, TwinHeaps.system⟩ (play (movesOf TwinHeaps.system layingCalls)).store =
        .error (.invalidArgument reason) τ := by
  have hw := within_movesOf TwinHeaps.system layingCalls
  have hserve := play_serves TwinHeaps.lawful.separate hw
  have hmade : arenasMade (movesOf TwinHeaps.system layingCalls) = [0] := by decide +kernel
  have harena : ∀ a, Allocator.arena 0 = .arena a →
      a ∈ arenasMade (movesOf TwinHeaps.system layingCalls) := fun a ha => by
    rw [hmade, ← Allocator.arena.inj ha]
    exact List.mem_singleton.mpr rfl
  have hnested : nestedLayout.Made := by
    have hint : Layout.Made .cInt := .scalar 4 .native rfl
    have hunion : ∀ m ∈ [Layout.cInt, .ofPadding 6], m.Made :=
      List.forall_mem_cons.mpr ⟨hint, List.forall_mem_singleton.mpr (.padding 6)⟩
    have hlast : Layout.Made (.value ⟨8, 64, .big⟩) :=
      .withAlign (.withOrder (.scalar 8 .native rfl) .big)
        (show Layout.withAlign 64 (.withOrder .big .cLongLong) = _ from rfl)
    have hrow : Layout.Made (.sequence ⟨18, 4, .native⟩ 3 (.ofUnion [.cInt, .ofPadding 6])) :=
      .sequence (.union hunion) (show Layout.ofSequence 3 _ = _ from rfl)
    exact .struct (List.forall_mem_cons.mpr ⟨hrow, List.forall_mem_singleton.mpr hlast⟩) rfl
  have hpair : ∀ m ∈ [nestedLayout, .ofPadding 0xffffffffffffffff], m.Made :=
    List.forall_mem_cons.mpr ⟨hnested, List.forall_mem_singleton.mpr (.padding _)⟩
  have hextent : nestedLayout.extent = 26 := by decide
  refine ⟨hw, hnested, ?_, rfl, fun ctx => ?_, ?_, ?_, ?_⟩
  · rw [(hserve.size _ hnested).1, hextent]
  · exact hextent ▸ hserve.layout (.arena 0) trivial harena nestedLayout hnested ctx
  · rw [hserve.sequence _ hnested, hextent]
    decide
  · rw [hserve.struct _ hpair]
    decide
  · rw [(hserve.array (.arena 0) trivial harena _ hnested _ _).argument, hextent]
    decide

end ScopedMemory
