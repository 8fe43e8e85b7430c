import ScopedMemory.Proofs.Refusal.Inspection
import ScopedMemory.Proofs.Variadic.Reading

namespace ScopedMemory

open Operation

namespace ScopeId

variable {σ : Store} {ctx : Context} (s : ScopeId)

/-- Scopes of some kinds are never closed. -/
def checkClosable (σ : Store) : Except MemoryError Unit :=
  match (σ.scope s).kind with
  | .implicit | .global => .error (.scopeNotClosable s)
  | .confined | .shared => .ok ()

theorem run_close_of_owner (ho : σ.checkOwner ctx.caller s = .ok ()) (ha : ¬ σ.IsAlive s)
    (hk : (σ.scope s).kind = .confined ∨ (σ.scope s).kind = .shared) :
    (ScopeId.close s).run ctx σ = .error (.alreadyClosed s) σ := by
  unfold Store.IsAlive Scope.isAlive at ha
  rcases hk with hk | hk <;> cases hl : (σ.scope s).lifetime
  case inl.live | inr.live =>
    rw [hl] at ha
    exact absurd rfl ha
  all_goals simp [ScopeId.close, ho, hk, hl]

/-- No thread is kept from a scope that cannot be closed, so it makes no difference that the owner
is looked at before the kind. -/
theorem checks_close :
    (ScopeId.close s).Checks σ
      (Inquiry.check { first := fun _ => s.checkClosable σ, scope := s } σ) := by
  intro ctx e he
  replace he : (s.checkClosable σ >>= fun _ => σ.checkUsable ctx.caller s) = .error e := he
  have hnever : (σ.scope s).kind = .implicit ∨ (σ.scope s).kind = .global →
      (ScopeId.close s).run ctx σ = .error (.scopeNotClosable s) σ := by
    intro hk
    have ho : σ.checkOwner ctx.caller s = .ok () := by
      unfold Store.checkOwner Scope.owner?
      rcases hk with hk | hk <;> rw [hk, if_neg (by decide)]
    rcases hk with hk | hk <;> simp [ScopeId.close, ho, hk]
  have hwhile : (σ.scope s).kind = .confined ∨ (σ.scope s).kind = .shared →
      σ.checkUsable ctx.caller s = .error e → (ScopeId.close s).run ctx σ = .error e σ := by
    intro hk hu
    rcases σ.checkUsable_cases ctx.caller s with ⟨ho, hu'⟩ | ⟨ho, ha, hu'⟩ | ⟨_, _, hu'⟩ <;>
      cases hu.symm.trans hu'
    · simp [ScopeId.close, ho]
    · exact s.run_close_of_owner ho ha hk
  unfold checkClosable at he
  cases hk : (σ.scope s).kind <;> rw [hk] at he
  case implicit | global =>
    cases he
    exact hnever (by simp [hk])
  case confined | shared => exact hwhile (by simp [hk]) he

theorem checks_addAction (a : CloseAction) :
    (ScopeId.addAction s a).Checks σ (Inquiry.check { scope := s } σ) :=
  (checks_checkUsable s).bind

theorem checks_acquire : (ScopeId.acquire s).Checks σ (Inquiry.check { scope := s } σ) :=
  (checks_checkUsable s).bind

theorem checks_allocateNative (size align : Word) :
    (ScopeId.allocateNative s size align).Checks σ (Inquiry.check { scope := s } σ) :=
  (checks_checkUsable s).bind

theorem checks_resolve (start length : Word) :
    (ScopeId.resolve s start length).Checks σ (Inquiry.check { scope := s } σ) :=
  (checks_checkUsable s).bind

theorem looks_resolve (start length : Word) : (ScopeId.resolve s start length).Looks σ := by
  refine (looks_checkUsable s).bind fun _ => Inspects.looks
    (f := fun _ => .ok (if (σ.scope s).Owns start length then some ⟨start, length, s⟩ else none))
    ⟨fun ctx => ?_, Store.fair_const _⟩
  simp only [run_bind, run_get, run_ite, run_pure]
  split <;> rfl

end ScopeId

/-! ### Regions -/

namespace Region

variable {σ : Store} (r : Region) (offset length : Word)

theorem checks_ofAddress (start : Word) (s : ScopeId) :
    (ofAddress start length s).Checks σ (Inquiry.check { scope := s } σ) :=
  (checks_checkUsable s).bind

theorem looks_ofAddress (start : Word) (s : ScopeId) : (ofAddress start length s).Looks σ :=
  (looks_checkUsable s).bind fun _ => looks_pure _

theorem checks_slice : (r.slice offset length).Checks σ (Inquiry.check { scope := r.scope } σ) :=
  (checks_checkUsable r.scope).bind

theorem looks_slice : (r.slice offset length).Looks σ :=
  (looks_checkUsable r.scope).bind fun _ => (looks_require _).bind fun _ => looks_pure _

/-- The end of a region is looked at before its scope. -/
def checkStart (r : Region) (offset : Word) : Except MemoryError Unit :=
  match Word.sub? r.size offset with
  | some _ => .ok ()
  | none => .error (.outOfBounds offset 0 r.size)

theorem checks_sliceFrom :
    (r.sliceFrom offset).Checks σ
      (Inquiry.check { first := fun _ => r.checkStart offset, scope := r.scope } σ) := by
  intro ctx e he
  replace he : (r.checkStart offset >>= fun _ => σ.checkUsable ctx.caller r.scope) = .error e := he
  unfold checkStart at he
  rw [run_sliceFrom]
  cases hw : Word.sub? r.size offset with
  | none =>
    rw [hw] at he
    cases he
    rfl
  | some length =>
    rw [hw] at he
    exact checks_slice r offset length ctx e he

theorem checks_read : (r.read offset length).Checks σ (Inquiry.check { scope := r.scope } σ) :=
  checks_pinned

theorem checks_write (bytes : Bytes) :
    (r.write offset bytes).Checks σ (Inquiry.check { scope := r.scope } σ) :=
  checks_pinned

theorem checks_fill (value : UInt8) :
    (r.fill value).Checks σ (Inquiry.check { scope := r.scope } σ) :=
  checks_pinned

theorem checks_get (t : ScalarType) (l : Layout) :
    (r.get t l offset).Checks σ
      (Inquiry.check { form := t.carrier.check l .native, scope := r.scope } σ) :=
  checks_test_bind fun _ => (checks_read r offset _).bind

theorem checks_set (l : Layout) (x : Scalar) :
    (r.set l offset x).Checks σ
      (Inquiry.check { form := x.type.carrier.check l .native, scope := r.scope } σ) :=
  checks_test_bind fun _ => checks_write r offset _

theorem checks_getAddress (l : Layout) :
    (r.getAddress l offset).Checks σ
      (Inquiry.check { form := MemoryError.verdict (addressWidth l), scope := r.scope } σ) :=
  checks_require_bind fun _ _ => (checks_read r offset _).bind

theorem checks_setAddress (l : Layout) (a : Word) :
    (r.setAddress l offset a).Checks σ
      (Inquiry.check { form := MemoryError.verdict (addressBytes l a), scope := r.scope } σ) := by
  intro ctx e he
  replace he : (MemoryError.verdict (addressBytes l a) >>= fun _ =>
    σ.checkUsable ctx.caller r.scope) = .error e := he
  unfold addressBytes at he
  rw [run_setAddress]
  cases hw : addressWidth l with
  | error e' =>
    rw [hw] at he
    cases he
    rfl
  | ok w =>
    rw [hw] at he
    dsimp only at he ⊢
    cases hb : Address.encode w l.order a with
    | error e' =>
      rw [hb] at he
      cases he
      rfl
    | ok bytes =>
      rw [hb] at he
      exact checks_write r offset bytes ctx e he

theorem looks_read : (r.read offset length).Looks σ := by
  refine Inspects.looks (f := fun t => σ.checkAccess t r offset length >>= fun _ =>
    .ok (σ.memory.read (r.start + offset).toNat length.toNat)) ⟨fun ctx => ?_, ?_⟩
  · rw [run_read]
    cases σ.checkAccess ctx.caller r offset length <;> rfl
  · exact (σ.fair_checkAccess r offset length).bind fun _ => Store.fair_const _

theorem looks_getAddress (l : Layout) : (r.getAddress l offset).Looks σ :=
  (looks_require _).bind fun _ => (looks_read r offset _).bind fun _ => looks_pure _

/-- The source is looked at before the target, with its span. -/
theorem checks_copyFrom (src : Region) :
    (r.copyFrom src).Checks σ
      (Inquiry.check { first := fun t => σ.checkAccess t src 0 src.size, scope := r.scope } σ) := by
  intro ctx e he
  replace he : (σ.checkAccess ctx.caller src 0 src.size >>= fun _ =>
    σ.checkUsable ctx.caller r.scope) = .error e := he
  rw [run_copyFrom]
  cases hs : σ.checkAccess ctx.caller src 0 src.size with
  | error e' =>
    rw [hs] at he
    cases he
    rfl
  | ok _ =>
    rw [hs] at he
    rw [Store.checkAccess_error he]

theorem checks_copyFrom_source (src : Region) :
    (r.copyFrom src).Checks σ (Inquiry.check { scope := src.scope } σ) :=
  checks_pinned

theorem checks_contents (hr : r.size ≤ bufferLimit) :
    r.contents.Checks σ (Inquiry.check { scope := r.scope } σ) := by
  intro ctx e he
  rw [run_contents, if_pos hr, Store.checkAccess_error he]

end Region

/-! ### Allocations -/

namespace AllocationRequest

/-- A value has to fit the layout that it comes with. -/
def checkCarrier : AllocationRequest → Except MemoryError Unit
  | value l x => x.type.carrier.check l .native
  | address l _ => Carrier.address.check l .native
  | array t element _ => t.carrier.check element .native
  | addressArray element _ => Carrier.address.check element .native
  | raw .. | bytes _ | layout _ | arrayOf .. => .ok ()

end AllocationRequest

namespace Allocator

/-- What the size and the alignment are checked for. -/
def checkSize (size align : Word) : Allocator → Except MemoryError Unit
  | recycling r => if r.size < size then .error (.outOfMemory size r.size) else .ok ()
  | direct _ | perRequest _ | arena _ => checkRequest size align

def checkForm (w : Allocator) (q : AllocationRequest) : Except MemoryError Unit := do
  q.checkCarrier
  let (size, align) ← q.dimensions
  w.checkSize size align

variable {σ : Store} {w : Allocator} {s : ScopeId}

theorem checks_allocate (hs : s ∈ Handle.allocatorScopes σ w) (size align : Word) :
    (w.allocate size align).Checks σ
      (Inquiry.check { form := w.checkSize size align, scope := s } σ) := by
  cases w with
  | direct s' =>
    obtain rfl := List.mem_singleton.mp hs
    exact checks_test_bind fun _ => s.checks_allocateNative size align
  | perRequest kind => cases hs
  | arena a =>
    obtain rfl := List.mem_singleton.mp hs
    exact checks_test_bind fun _ => checks_get_bind (checks_checkUsable _).bind
  | recycling r =>
    obtain rfl := List.mem_singleton.mp hs
    intro ctx e he
    simp only [allocate, checkSize, Inquiry.check] at he ⊢
    by_cases hsize : r.size < size
    · rw [if_pos hsize] at he ⊢
      cases he
      rfl
    · rw [if_neg hsize] at he ⊢
      exact r.checks_slice 0 size ctx e he

theorem checks_serve (hs : s ∈ Handle.allocatorScopes σ w) (q : AllocationRequest) :
    (w.serve q).Checks σ (Inquiry.check { form := w.checkForm q, scope := s } σ) := by
  have hplain := fun size align => checks_allocate (w := w) hs size align
  -- The layout of an array is made before any memory is asked for.
  have harray : ∀ (count : Word) (element : Layout) (k : Region → Operation Region),
      (w.allocateArrayOf element count >>= k).Checks σ fun t =>
        (Layout.ofSequence count element).map (fun l => (l.size, l.align)) >>= fun p =>
          w.checkSize p.1 p.2 >>= fun _ => σ.checkUsable t s := by
    intro count element k
    refine Checks.bind fun ctx e he => ?_
    unfold allocateArrayOf
    cases hl : Layout.ofSequence count element with
    | error e' =>
      rw [hl] at he
      cases he
      rfl
    | ok l =>
      rw [hl] at he
      exact hplain l.size l.align ctx e he
  have hcarrier : ∀ {c : Except MemoryError Unit} {x : Operation Region}
      {d : Except MemoryError (Word × Word)},
      (x.Checks σ fun t => d >>= fun p => w.checkSize p.1 p.2 >>= fun _ => σ.checkUsable t s) →
        (require c >>= fun _ => x).Checks σ (Inquiry.check
          { form := c >>= fun _ => d >>= fun p => w.checkSize p.1 p.2, scope := s } σ) := by
    intro c x d hx
    refine (checks_test_bind fun _ => hx).imp fun t e he => ?_
    cases c with
    | error e' => exact he
    | ok _ =>
      cases d with
      | error e' => exact he
      | ok p => exact he
  cases q with
  | raw size align => exact hplain size align
  | bytes size => exact hplain size 1
  | layout l => exact hplain l.size l.align
  | arrayOf element count =>
    have h := hcarrier (c := .ok ()) (harray count element pure)
    rw [bind_pure] at h
    exact h
  | value l x => exact hcarrier (d := .ok (l.size, l.align)) (hplain l.size l.align).bind
  | address l a => exact hcarrier (d := .ok (l.size, l.align)) (hplain l.size l.align).bind
  | array t element xs => exact hcarrier (harray _ element _)
  | addressArray element xs => exact hcarrier (harray _ element _)

end Allocator

/-! ### Lists of arguments -/

namespace VariadicList

variable {σ : Store} {v : VariadicList} {c : Cursor}

theorem checks_ofAddress (conv : Convention) (start : Word) (s : ScopeId) :
    (ofAddress conv start s).Checks σ
      (Inquiry.check
        { form := if start = 0 then .error (.invalidArgument "variadic list address is null")
            else .ok ()
          scope := s } σ) := by
  unfold ofAddress
  by_cases h0 : start = 0
  · intro ctx e he
    simp only [h0, if_true, Inquiry.check] at he ⊢
    cases he
    rfl
  · simp only [h0, if_false]
    exact (Region.checks_ofAddress _ start s).bind

theorem checks_requireCursor_bind {α : Type} (hc : v.cursor = some c) {k : Cursor → Operation α}
    {check : Thread → Except MemoryError Unit} (hk : (k c).Checks σ check) :
    (v.requireCursor >>= k).Checks σ check := by
  unfold requireCursor
  rw [hc]
  exact hk

theorem checks_readSlot {α : Type} (hc : v.cursor = some c) (carrier : Carrier) (l : Layout)
    (decode : Cursor → Region → Operation α) :
    (v.readSlot carrier l decode).Checks σ
      (Inquiry.check
        { form := carrier.check l v.convention.width, scope := c.remaining.scope } σ) :=
  checks_requireCursor_bind hc
    (checks_test_bind fun _ => (Region.checks_slice c.remaining 0 _).bind)

theorem checks_readAs (hc : v.cursor = some c) (l : Layout) (type : ArgumentType) :
    (v.readAs l type).Checks σ
      (Inquiry.check
        { form := type.carrier.check l v.convention.width, scope := c.remaining.scope } σ) := by
  cases type <;> exact (checks_readSlot hc _ l _).bind

/-- Where the struct of the next slot lies. -/
def source (v : VariadicList) (l : Layout) (c : Cursor) : Operation Region := do
  let slot ← c.remaining.slice 0 v.convention.slotSize
  v.structSource l c slot

theorem looks_source (l : Layout) (c : Cursor) : (v.source l c).Looks σ := by
  refine (Region.looks_slice _ _ _).bind fun slot => (looks_require _).bind fun found => ?_
  split
  next =>
    refine (Region.looks_getAddress slot 0 _).bind fun start => ?_
    refine (ScopeId.looks_resolve v.scope start l.size).bind fun r? => ?_
    split
    next => exact looks_pure _
    next =>
      split
      next => exact Region.looks_ofAddress _ start v.scope
      next => exact looks_throw _
  next => exact Region.looks_slice slot 0 l.size

/-- The struct is looked for before there is any memory to copy it to. -/
theorem checks_readSegment (hc : v.cursor = some c) (l : Layout) {w : Allocator} {s : ScopeId}
    (hs : s ∈ Handle.allocatorScopes σ w) :
    (v.readSegment l w).Checks σ
      (Inquiry.check
        { form := Carrier.segment.check l v.convention.width
          first := fun t => MemoryError.verdict ((v.source l c).finding σ t) >>= fun _ =>
            w.checkSize l.size l.align
          scope := s } σ) := by
  refine checks_requireCursor_bind hc (checks_test_bind fun _ => ?_)
  have hsplit : ∀ k : Region → Region → Operation (Region × VariadicList),
      (do
        let slot ← c.remaining.slice 0 v.convention.slotSize
        let src ← v.structSource l c slot
        let copy ← w.allocateLayout l
        k src copy) =
      (do
        let src ← v.source l c
        let copy ← w.allocateLayout l
        k src copy) := by
    intro k
    unfold source
    rw [bind_assoc]
  simp only [bind_assoc, pure_bind]
  rw [hsplit]
  exact (looks_source l c).checks_bind fun src _ _ =>
    (Allocator.checks_allocate hs l.size l.align).bind

/-- The end of the list is looked at before its scope. -/
def checkSkip (v : VariadicList) (c : Cursor) (ls : List Layout) : Except MemoryError Unit :=
  let count : Word := .ofNat ls.length
  match Word.mul? v.convention.slotSize count with
  | some bytes => c.remaining.checkStart bytes
  | none => .error (.invalidArgument s!"skipping {count} slots overflows the address space")

theorem checks_skip (hc : v.cursor = some c) (ls : List Layout) :
    (v.skip ls).Checks σ
      (Inquiry.check { first := fun _ => v.checkSkip c ls, scope := c.remaining.scope } σ) := by
  refine checks_requireCursor_bind hc fun ctx e he => ?_
  unfold Inquiry.check checkSkip at he
  dsimp only at he ⊢
  cases hw : Word.mul? v.convention.slotSize (.ofNat ls.length) with
  | none =>
    rw [hw] at he
    cases he
    rfl
  | some bytes =>
    rw [hw] at he
    exact (Region.checks_sliceFrom c.remaining bytes).bind ctx e he

theorem checks_copy (hc : v.cursor = some c) :
    v.copy.Checks σ (Inquiry.check { scope := c.remaining.scope } σ) := by
  unfold copy
  rw [hc]
  exact (checks_checkUsable _).bind

end VariadicList

namespace VariadicBuilder

variable {σ : Store} {b : VariadicBuilder}

theorem checks_create (conv : Convention) (s : ScopeId) :
    (create conv s).Checks σ (Inquiry.check { scope := s } σ) :=
  (checks_checkUsable s).bind

/-- What a struct argument is checked for besides its scope. -/
def checkStruct (conv : Convention) (l : Layout) (r : Region) : Except MemoryError Unit := do
  Carrier.segment.check l conv.width
  if r.size ≠ l.size then .error (.layoutMismatch l.size r.size)
  else MemoryError.verdict (conv.classifyStruct l)

theorem looks_checkSegment (l : Layout) (r : Region) : (b.checkSegment l r).Looks σ := by
  unfold checkSegment
  by_cases hsize : r.size = l.size
  · rw [if_neg fun h => h hsize]
    exact (looks_require _).bind fun _ => looks_checkUsable r.scope
  · rw [if_pos hsize]
    exact looks_throw _

theorem looks_push (l : Layout) (x : ArgumentValue) : (b.push l x).Looks σ := by
  refine (looks_require _).bind fun _ => ?_
  cases x with
  | segment r => exact (looks_checkSegment l r).bind fun _ => looks_pure _
  | _ => exact looks_pure _

theorem checks_push (l : Layout) (r : Region) :
    (b.push l (.segment r)).Checks σ
      (Inquiry.check { form := checkStruct b.convention l r, scope := r.scope } σ) := by
  have hsegment : (b.checkSegment l r).Checks σ
      (Inquiry.check
        { form := if r.size ≠ l.size then .error (.layoutMismatch l.size r.size)
            else MemoryError.verdict (b.convention.classifyStruct l)
          scope := r.scope } σ) := by
    unfold checkSegment
    by_cases hsize : r.size = l.size
    · rw [if_neg fun h => h hsize, if_neg fun h => h hsize]
      exact checks_require_bind fun _ _ => checks_checkUsable r.scope
    · rw [if_pos hsize, if_pos hsize]
      intro ctx e he
      cases he
      rfl
  refine (checks_test_bind fun _ => hsegment.bind).imp fun t e he => ?_
  exact (bind_assoc _ _ _).symm.trans he

/-- What the number of slots is checked for. -/
def checkCount (b : VariadicBuilder) : Except MemoryError Unit :=
  let count : Word := .ofNat b.arguments.length
  match Word.mul? b.convention.slotSize count with
  | some _ => .ok ()
  | none => .error (.invalidArgument s!"{count} variadic slots overflow the address space")

theorem checks_build (hb : b.arguments ≠ []) :
    b.build.Checks σ (Inquiry.check { form := b.checkCount, scope := b.scope } σ) := by
  unfold build
  rw [if_neg hb]
  intro ctx e he
  unfold Inquiry.check checkCount at he
  dsimp only at he ⊢
  cases hw : Word.mul? b.convention.slotSize (.ofNat b.arguments.length) with
  | none =>
    rw [hw] at he
    cases he
    rfl
  | some size =>
    rw [hw] at he
    have hcreate : (ArenaId.create (.unbounded 4096) {} b.scope).Checks σ
        fun t => σ.checkUsable t b.scope := (checks_checkUsable b.scope).bind
    exact hcreate.bind ctx e he

/-- The builder with the first arguments of a list that is made. -/
def staged (conv : Convention) (s : ScopeId) (args : List (Layout × ArgumentValue)) :
    Operation VariadicBuilder := do
  let b ← create conv s
  args.foldlM (fun b arg => b.push arg.1 arg.2) b

theorem looks_pushes (b : VariadicBuilder) (args : List (Layout × ArgumentValue)) :
    (args.foldlM (fun b arg => b.push arg.1 arg.2) b : Operation VariadicBuilder).Looks σ := by
  induction args generalizing b with
  | nil => exact looks_pure b
  | cons arg args ih =>
    rw [List.foldlM_cons]
    exact (looks_push arg.1 arg.2).bind ih

theorem looks_staged (conv : Convention) (s : ScopeId) (args : List (Layout × ArgumentValue)) :
    (staged conv s args).Looks σ :=
  ((looks_checkUsable s).bind fun _ => looks_pure _).bind fun b => looks_pushes b args

theorem convention_staged {conv : Convention} {s : ScopeId}
    {args : List (Layout × ArgumentValue)} {t : Thread}
    (h : (staged conv s args).finding σ t = .ok b) : b.convention = conv := by
  have hstaged : ∀ ctx, (staged conv s args).Leads ctx σ (fun b _ => b.convention = conv)
      fun _ => True := fun ctx =>
    (leads_create conv s).chain (fun _ _ => trivial) fun b τ hb =>
      (leads_pushes args b).imp (fun _ _ h => by rw [h.2.1, hb.2.1]) fun _ _ => trivial
  unfold finding at h
  split at h
  next hr =>
    cases h
    exact (hstaged _).ok hr
  next => cases h

end VariadicBuilder

namespace VariadicList

variable {σ : Store}

theorem checks_make (conv : Convention) (s : ScopeId) (args : List (Layout × ArgumentValue)) :
    (VariadicList.make conv s args).Checks σ (Inquiry.check { scope := s } σ) :=
  (VariadicBuilder.checks_create conv s).bind

/-- A struct argument is looked at after the arguments before it. -/
theorem checks_make_struct (conv : Convention) (s : ScopeId)
    (before after : List (Layout × ArgumentValue)) (l : Layout) (r : Region) :
    (VariadicList.make conv s (before ++ (l, .segment r) :: after)).Checks σ
      (Inquiry.check
        { first := fun t =>
            MemoryError.verdict ((VariadicBuilder.staged conv s before).finding σ t) >>= fun _ =>
              VariadicBuilder.checkStruct conv l r
          scope := r.scope } σ) := by
  have hsplit : VariadicList.make conv s (before ++ (l, .segment r) :: after) =
      (do
        let b ← VariadicBuilder.staged conv s before
        let b ← b.push l (.segment r)
        let b ← after.foldlM (fun b arg => b.push arg.1 arg.2) b
        b.build) := by
    unfold VariadicList.make VariadicBuilder.staged
    simp only [List.foldlM_append, List.foldlM_cons, bind_assoc]
  rw [hsplit]
  refine ((VariadicBuilder.looks_staged conv s before).checks_bind fun b t hb => ?_).imp
    fun t e he => (bind_assoc _ _ _).symm.trans he
  have hpush := (VariadicBuilder.checks_push (σ := σ) (b := b) l r)
  rw [VariadicBuilder.convention_staged hb] at hpush
  exact hpush.bind

end VariadicList

end ScopedMemory
