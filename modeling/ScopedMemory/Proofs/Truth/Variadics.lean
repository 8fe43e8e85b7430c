import ScopedMemory.Proofs.Refusal.Operations
import ScopedMemory.Proofs.Truth.Allocations

namespace ScopedMemory

open Operation

variable {system : SystemAllocator} {strict : Prop} {waiting : List Block} {G : List Region}
  {E : MemoryError → Prop} {ctx : Context} {σ τ : Store} {s : ScopeId} {l : Layout}

/-! ### Lists -/

namespace VariadicList

variable {v : VariadicList} {c : Cursor}

theorem tells_requireCursor_bind {β : Type} {f : Cursor → Operation β} (hE : MemoryError.Plain E)
    (hf : ∀ c, v.cursor = some c → (f c).Tells ctx σ E) :
    (v.requireCursor >>= f).Tells ctx σ E := by
  unfold requireCursor
  split
  next c hc => exact hf c hc
  next => exact tells_throw (hE.unsupported _)

theorem tells_ofAddress (hE : MemoryError.Plain E) (hs : σ.Tells ctx.caller E s) (k : Convention)
    (start : Word) : (ofAddress k start s).Tells ctx σ E := by
  unfold ofAddress
  split
  next => exact tells_throw (hE.argument _)
  next => exact (Region.tells_ofAddress hs).then fun _ _ => tells_pure _

theorem tells_advance (hE : MemoryError.Plain E) (hc : c.remaining.Told σ ctx.caller E)
    (bytes : Word) : (v.advance c bytes).Tells ctx σ E :=
  (Region.tells_sliceFrom hE hc).then fun _ _ => tells_pure _

/-- Whatever keeps the thread from what is left of the list is in `E`. -/
def Tells (v : VariadicList) (σ : Store) (t : Thread) (E : MemoryError → Prop) : Prop :=
  ∀ c, v.cursor = some c → c.remaining.Told σ t E

variable (hE : MemoryError.Plain E) (hv : v.Tells σ ctx.caller E)
include hE hv

theorem tells_readSlot {α : Type} {carrier : Carrier} {decode : Cursor → Region → Operation α}
    (hl : ∀ c slot, (decode c slot).Leads ctx σ (fun _ τ => σ.Extends τ) fun _ => True)
    (hd : ∀ c, v.cursor = some c →
      σ.checkAccess ctx.caller c.remaining 0 v.convention.slotSize = .ok () →
      (decode c (v.slot c)).Tells ctx σ E) :
    (v.readSlot carrier l decode).Tells ctx σ E := by
  refine tells_requireCursor_bind hE fun c hc => ?_
  refine tells_require_bind (fun _ => Carrier.tells_check hE) fun _ _ => ?_
  refine (Region.tells_slice hE (hv c hc)).bind Region.leads_slice fun slot τ h => ?_
  obtain ⟨ha, rfl, rfl⟩ := h
  refine (hd c hc ha).bind (hl c _) fun x ρ hx => ?_
  exact (tells_advance hE ((hv c hc).later hx) _).then fun _ _ => tells_pure _

theorem tells_readScalar (t : ScalarType) : (v.readScalar t l).Tells ctx σ E := by
  refine tells_readSlot hE hv (fun c slot => ?_) fun c _ ha =>
    Region.tells_get hE ((Region.AtHand.narrow ha).told hE)
  exact Region.leads_get.imp (fun _ τ h => h.2.2 ▸ .refl σ) fun _ _ => trivial

theorem tells_readAddress : (v.readAddress l).Tells ctx σ E := by
  refine tells_readSlot hE hv (fun c slot => ?_) fun c _ ha =>
    Region.tells_getAddress hE ((Region.AtHand.narrow ha).told hE)
  refine Region.leads_getAddress.imp (fun _ τ h => ?_) fun _ _ => trivial
  obtain ⟨_, _, _, _, rfl⟩ := h
  exact .refl _

theorem tells_readAs (type : ArgumentType) : (v.readAs l type).Tells ctx σ E := by
  cases type with
  | address => exact (tells_readAddress hE hv).then fun _ _ => tells_pure _
  | _ => exact (tells_readScalar hE hv _).then fun _ _ => tells_pure _

theorem tells_skip (ls : List Layout) : (v.skip ls).Tells ctx σ E := by
  refine tells_requireCursor_bind hE fun c hc => ?_
  dsimp only
  split
  next => exact tells_advance hE (hv c hc) _
  next => exact tells_throw (hE.argument _)

omit hE in
theorem tells_copy : v.copy.Tells ctx σ E := by
  unfold copy
  split
  next => exact tells_pure _
  next c hc => exact tells_checkUsable_bind (hv c hc).usable fun _ => tells_pure _

omit hv

theorem tells_referenced (hs : σ.Tells ctx.caller E v.scope) (start length : Word) :
    (v.referenced c start length).Tells ctx σ E := by
  refine (ScopeId.tells_resolve hs start length).bind (leads_resolve v.scope start length)
    fun r? τ h => ?_
  obtain ⟨rfl, _⟩ := h
  split
  next => exact tells_pure _
  next =>
    split
    next => exact Region.tells_ofAddress hs
    next => exact tells_throw (hE.argument _)

theorem tells_structSource (hs : σ.Tells ctx.caller E v.scope)
    {slot : Region} (h : slot.AtHand σ ctx.caller) : (v.structSource l c slot).Tells ctx σ E := by
  have h := h.told hE
  refine tells_require_bind (fun _ => Convention.tells_classifyStruct hE) fun found _ => ?_
  split
  next =>
    refine (Region.tells_getAddress hE h).bind Region.leads_getAddress
      fun start τ ha => ?_
    obtain ⟨_, _, _, _, rfl⟩ := ha
    exact tells_referenced hE hs start l.size
  next => exact Region.tells_slice hE h

omit hE in
/-- The thread may use the memory where a struct was found to be. -/
theorem leads_structSource_usable (slot : Region) :
    (v.structSource l c slot).Leads ctx σ
      (fun src τ => τ = σ ∧ σ.checkUsable ctx.caller src.scope = .ok ()) fun _ => True := by
  refine (leads_require (P := fun _ τ => τ = σ) (fun _ _ => rfl) trivial).bind fun found τ h => ?_
  subst h
  split
  next =>
    refine Region.leads_getAddress.chain (fun _ _ => trivial) fun start ρ h => ?_
    obtain ⟨_, _, _, _, rfl⟩ := h
    refine (leads_resolve _ _ _).chain (fun _ _ => trivial) fun r? ρ' h => ?_
    obtain ⟨rfl, hr⟩ := h
    split
    next r =>
      obtain ⟨hu, rfl, _⟩ := hr r rfl
      exact leads_pure ⟨rfl, hu⟩
    next =>
      split
      next =>
        refine Region.leads_ofAddress.imp (fun r ρ h => ?_) fun _ _ => trivial
        obtain ⟨hu, rfl, rfl⟩ := h
        exact ⟨rfl, hu⟩
      next => exact leads_throw trivial
  next =>
    refine Region.leads_slice.imp (fun src ρ h => ?_) fun _ _ => trivial
    obtain ⟨ha, rfl, rfl⟩ := h
    exact ⟨rfl, (Store.checkAccess_eq_ok_iff.mp ha).1⟩

omit hE in
theorem value?_source {src : Region}
    (ha : σ.checkAccess ctx.caller c.remaining 0 v.convention.slotSize = .ok ())
    (hsrc : (v.structSource l c (v.slot c)).value? ctx σ = some src) :
    (v.source l c).value? ctx σ = some src := by
  unfold value? at hsrc ⊢
  unfold source
  rw [run_bind, Region.run_slice, ha]
  exact hsrc

theorem tells_readSegment (hv : v.Tells σ ctx.caller E) (hscope : σ.Tells ctx.caller E v.scope)
    (hsrc : ∀ c src, v.cursor = some c → (v.source l c).value? ctx σ = some src → src.Tells E)
    (hlaw : system.Lawful) (hs : σ.Sound system strict waiting) (hl : σ.Ledger G)
    (hw : ctx.system.Within system) {w : Allocator} (hk : w.Known σ)
    (hscopes : ∀ s ∈ Handle.allocatorScopes σ w, σ.Tells ctx.caller E s)
    (hrec : ∀ r, w = .recycling r → r.Told σ ctx.caller E) : (v.readSegment l w).Tells ctx σ E := by
  have hgive := Allocator.leads_allocate hs hw hk l.size l.align
  refine tells_readSlot hE hv (fun c slot => ?_) fun c hc ha => ?_
  · refine (leads_structSource_usable slot).bind fun src τ h => ?_
    obtain ⟨rfl, _⟩ := h
    refine hgive.chain (fun _ _ => trivial) fun copy ρ hg => ?_
    refine Region.leads_copyFrom.chain (fun _ _ => trivial) fun _ ρ' h => ?_
    obtain ⟨_, _, rfl⟩ := h
    exact leads_pure (hg.changes.extends.trans (Store.extends_setMemory _ _))
  · refine (tells_structSource hE hscope (.narrow ha)).bind (leads_structSource_usable _).value
      fun src τ h => ?_
    obtain ⟨hval, rfl, hu⟩ := h
    have hlt := Store.lt_length_of_isAlive (Store.checkUsable_eq_ok_iff.mp hu).2
    refine (Allocator.tells_allocate hE hlaw hs hw hk hscopes hrec _ _).bind hgive
      fun copy ρ hg => ?_
    have hsource : src.Told τ ctx.caller E :=
      ⟨hlt, Store.tells_of_usable hu, hsrc c src hc (value?_source ha hval)⟩
    exact (Region.tells_copyFrom hE ((hg.atHand hlaw hs hl).told hE)
      (hsource.later hg.changes.extends)).then fun _ _ => tells_pure _

end VariadicList

/-! ### Builders -/

/-- Whatever keeps the thread from the struct that an argument may be is in `E`. -/
def Argument.Tells (arg : Argument) (σ : Store) (t : Thread) (E : MemoryError → Prop) : Prop :=
  ∀ src, arg.value = .segment src → src.Told σ t E

namespace VariadicBuilder

variable {b : VariadicBuilder} {k : Convention} {a : ArenaId} {arg : Argument}

theorem tells_create (hs : σ.Tells ctx.caller E s) : (create k s).Tells ctx σ E :=
  tells_checkUsable_bind hs fun _ => tells_pure _

/-- A builder writes with the arena, which the thread may use. -/
structure Stocked (system : SystemAllocator) (strict : Prop) (waiting : List Block)
    (G : List Region) (σ : Store) (t : Thread) (a : ArenaId) : Prop where
  sound : σ.Sound system strict waiting
  ledger : σ.Ledger G
  known : a < σ.arenas.length
  usable : σ.checkUsable t (σ.arena a).scope = .ok ()

theorem Stocked.changes {rs : List Region} {writes : Prop} {t : Thread}
    (h : Stocked system strict waiting G σ t a) (hsep : system.Separate)
    (hc : Store.Changes system writes σ rs τ) :
    Stocked system strict waiting (G ++ rs) τ t a where
  sound := hc.sound h.sound
  ledger := hc.ledger hsep h.sound h.ledger
  known := Nat.lt_of_lt_of_le h.known hc.extends.arenas
  usable := by
    rw [hc.extends.arenaScope a h.known,
      hc.extends.checkUsable (h.sound.arenas a h.known).scope t]
    exact h.usable

variable (hE : MemoryError.Plain E)
include hE

theorem tells_push {v : ArgumentValue}
    (hv : ∀ r, v = .segment r → σ.Tells ctx.caller E r.scope) : (b.push l v).Tells ctx σ E := by
  refine tells_require_bind (fun _ => Carrier.tells_check hE) fun _ _ => ?_
  cases v with
  | segment r =>
    have hcheck : (b.checkSegment l r).Tells ctx σ E := by
      unfold checkSegment
      split
      next hne => exact tells_throw (hE.mismatch (Ne.symm hne))
      next =>
        exact tells_require_bind (fun _ => Convention.tells_classifyStruct hE) fun _ _ =>
          tells_checkUsable (hv r rfl)
    exact hcheck.then fun _ _ => tells_pure _
  | _ => exact tells_pure _

theorem tells_pushes {args : List (Layout × ArgumentValue)}
    (hargs : ∀ arg ∈ args, ∀ r, arg.2 = .segment r → σ.Tells ctx.caller E r.scope) :
    (args.foldlM (fun b arg => b.push arg.1 arg.2) b : Operation VariadicBuilder).Tells
      ctx σ E := by
  induction args generalizing b with
  | nil => exact tells_pure _
  | cons arg args ih =>
    rw [List.foldlM_cons]
    refine (tells_push hE (hargs arg (List.mem_cons_self ..))).bind (leads_push arg.1 arg.2)
      fun b' τ h => ?_
    obtain ⟨rfl, _⟩ := h
    exact ih fun arg h => hargs arg (List.mem_cons_of_mem _ h)

variable (hlaw : system.Lawful) (hw : ctx.system.Within system)
include hlaw hw

theorem tells_writeSlot (hst : Stocked system strict waiting G σ ctx.caller a)
    (harg : arg.Tells σ ctx.caller E) {slot : Region} (hslot : slot.AtHand σ ctx.caller) :
    (writeSlot k a slot arg).Tells ctx σ E := by
  unfold writeSlot
  split
  next => exact Region.tells_set hE (hslot.told hE)
  next => exact Region.tells_set hE (hslot.told hE)
  next => exact Region.tells_set hE (hslot.told hE)
  next => exact Region.tells_setAddress hE (hslot.told hE)
  next src hv =>
    refine tells_require_bind (fun _ => Convention.tells_classifyStruct hE) fun found _ => ?_
    split
    next =>
      have hk : (Allocator.arena a).Known σ := fun _ h => by cases h; exact hst.known
      have husable := Store.tells_of_usable (E := E) hst.usable
      refine (Allocator.tells_allocate hE hlaw hst.sound hw hk
        (fun s hs => List.mem_singleton.mp hs ▸ husable) nofun _ _).bind
        (Allocator.leads_allocate hst.sound hw hk _ _) fun copy ρ hg => ?_
      have hx := hg.changes.extends
      have hcopy := (hg.atHand hlaw hst.sound hst.ledger).told hE
      refine (Region.tells_copyFrom hE hcopy ((harg src hv).later hx)).bind
        Region.leads_copyFrom fun _ ρ' h => ?_
      obtain ⟨_, _, rfl⟩ := h
      exact Region.tells_setAddress hE
        ((hslot.later (hx.trans (Store.extends_setMemory _ _))).told hE)
    next =>
      refine (Region.tells_slice hE (hslot.told hE)).bind Region.leads_slice fun part τ h => ?_
      obtain ⟨ha, rfl, rfl⟩ := h
      exact Region.tells_copyFrom hE ((Region.AtHand.narrow ha).told hE) (harg src hv)

theorem tells_writeSlots {args : List Argument} {buffer : Region} {index : Nat}
    (hst : Stocked system strict waiting G σ ctx.caller a)
    (hargs : ∀ arg ∈ args, arg.Tells σ ctx.caller E) (hbuffer : buffer.AtHand σ ctx.caller) :
    (writeSlots k a buffer index args).Tells ctx σ E := by
  induction args generalizing σ G index with
  | nil => exact tells_pure _
  | cons arg args ih =>
    refine (Region.tells_slice hE (hbuffer.told hE)).bind Region.leads_slice fun slot τ h => ?_
    obtain ⟨ha, rfl, rfl⟩ := h
    refine (tells_writeSlot hE hlaw hw hst (hargs arg (List.mem_cons_self ..))
      (.narrow ha)).bind (leads_writeSlot hst.sound hw hst.known _ arg) fun _ τ h => ?_
    obtain ⟨rs, hc⟩ := h
    exact ih (hst.changes hlaw.separate hc)
      (fun arg h src hsrc => (hargs arg (List.mem_cons_of_mem _ h) src hsrc).later hc.extends)
      (hbuffer.later hc.extends)

theorem tells_build (hs : σ.Sound system strict waiting) (hl : σ.Ledger G)
    (hscope : σ.Tells ctx.caller E b.scope)
    (hargs : ∀ arg ∈ b.arguments, arg.Tells σ ctx.caller E) : b.build.Tells ctx σ E := by
  unfold build
  split
  next => exact tells_pure _
  next =>
    dsimp only
    split
    next => exact tells_throw (hE.argument _)
    next size _ =>
      refine (ArenaId.tells_create hE hscope _ _).bind (ArenaId.leads_create _ _ _)
        fun a τ h => ?_
      obtain ⟨_, hu, rfl, rfl⟩ := h
      have hc : Store.Change system σ []
          (σ.addArena ⟨b.scope, .unbounded 4096, 16, none, {}⟩) :=
        .arena (Store.checkUsable_eq_ok_iff.mp hu).2 rfl
      have hscope' := hc.extends.checkUsable
        (Store.lt_length_of_isAlive (Store.checkUsable_eq_ok_iff.mp hu).2) ctx.caller
      have hst : Stocked system strict waiting (G ++ []) _ ctx.caller σ.arenas.length :=
        ⟨hc.sound hs, hc.ledger hlaw.separate hs hl, by simp, by
          rw [Store.arena_addArena, if_pos rfl, hscope', hu]⟩
      have hk : (Allocator.arena σ.arenas.length).Known _ := fun _ h => by
        cases h
        exact hst.known
      have husable := Store.tells_of_usable (E := E) hst.usable
      refine (ArenaId.tells_allocate hE hlaw hst.sound hw hst.known husable _ _).bind
        (Allocator.leads_allocate (w := .arena _) hst.sound hw hk _ _) fun buffer ρ hg => ?_
      have hx := hg.changes.extends
      refine (tells_writeSlots hE hlaw hw (hst.changes hlaw.separate hg.changes)
        (fun arg h src hsrc => (hargs arg h src hsrc).later (hc.extends.trans hx))
        (hg.atHand hlaw hst.sound hst.ledger)).then fun _ _ => tells_pure _

end VariadicBuilder

theorem VariadicList.tells_make (hE : MemoryError.Plain E) (hlaw : system.Lawful)
    (hw : ctx.system.Within system) (hs : σ.Sound system strict waiting) (hl : σ.Ledger G)
    (hscope : σ.Tells ctx.caller E s) {args : List (Layout × ArgumentValue)}
    (hargs : ∀ arg ∈ args, Argument.Tells ⟨arg.1, arg.2⟩ σ ctx.caller E) (k : Convention) :
    (VariadicList.make k s args).Tells ctx σ E := by
  refine (VariadicBuilder.tells_create hscope).bind (VariadicBuilder.leads_create k s)
    fun b τ h => ?_
  obtain ⟨_, rfl, rfl⟩ := h
  refine (VariadicBuilder.tells_pushes hE fun arg h r hr => (hargs arg h r hr).usable).bind
    (VariadicBuilder.leads_pushes args _) fun b ρ h => ?_
  obtain ⟨rfl, rfl, _⟩ := h
  refine VariadicBuilder.tells_build hE hlaw hw hs hl hscope fun arg h => ?_
  obtain ⟨p, hp, rfl⟩ := List.mem_map.mp h
  exact hargs p hp

end ScopedMemory
