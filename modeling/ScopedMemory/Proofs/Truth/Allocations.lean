import ScopedMemory.Proofs.Truth.Faults
import ScopedMemory.Proofs.Variadic.Deals

namespace ScopedMemory

open Operation

variable {system : SystemAllocator} {strict : Prop} {waiting : List Block} {G : List Region}
  {E : MemoryError → Prop} {ctx : Context} {σ τ : Store} {s : ScopeId} {r : Region}
  {offset length : Word}

/-! ### Regions that are at hand -/

theorem Region.Spans.fits (h : r.Spans offset length) : (r.narrow offset length).Fits := by
  refine fits_iff.mpr ?_
  rw [toNat_start_narrow h]
  exact h.2

/-- The thread may use the region, and all of it lies in the address space. -/
structure Region.AtHand (r : Region) (σ : Store) (t : Thread) : Prop where
  usable : σ.checkUsable t r.scope = .ok ()
  fits : r.Fits

namespace Region.AtHand

variable {t : Thread}

theorem lt_length (h : r.AtHand σ t) : r.scope < σ.scopes.length :=
  Store.lt_length_of_isAlive (Store.checkUsable_eq_ok_iff.mp h.usable).2

theorem told (h : r.AtHand σ t) (hE : MemoryError.Plain E) : r.Told σ t E where
  scope := h.lt_length
  usable := Store.tells_of_usable h.usable
  span := h.fits.tells hE

theorem later (h : r.AtHand σ t) (hx : σ.Extends τ) : r.AtHand τ t where
  usable := (hx.checkUsable h.lt_length t).trans h.usable
  fits := h.fits

/-- A part of a region is at hand once it has been found to be one. -/
theorem narrow (h : σ.checkAccess t r offset length = .ok ()) :
    (r.narrow offset length).AtHand σ t where
  usable := (Store.checkAccess_eq_ok_iff.mp h).1
  fits := (Store.checkAccess_eq_ok_iff.mp h).2.fits

theorem of_inside (hlaw : system.Lawful) (hs : σ.Sound system strict waiting)
    (hu : σ.checkUsable t r.scope = .ok ()) (hin : r.Inside σ) : r.AtHand σ t where
  usable := hu
  fits := hin.fits hlaw hs (Store.checkUsable_eq_ok_iff.mp hu).2

end Region.AtHand

theorem Allocator.Gives.atHand {w : Allocator} {size align : Word}
    (h : w.Gives system ctx σ size align r τ) (hlaw : system.Lawful)
    (hs : σ.Sound system strict waiting) (hl : σ.Ledger G) : r.AtHand τ ctx.caller where
  usable := h.usable
  fits := by
    have hsp := h.spans hlaw hs hl
    rwa [← h.size] at hsp

/-! ### Scopes -/

namespace ScopeId

theorem tells_close (hs : σ.Tells ctx.caller E s)
    (hk : (σ.scope s).kind = .implicit ∨ (σ.scope s).kind = .global → E (.scopeNotClosable s))
    (hg : ∀ n, n ≠ 0 → (σ.scope s).lifetime = .live n → E (.scopeAcquired s n)) :
    (ScopeId.close s).Tells ctx σ E := by
  intro e τ he
  rcases σ.checkOwner_cases ctx.caller s with ho | ho
  · simp only [ScopeId.close, run_bind, run_checkOwner, ho, run_require_ok, run_get] at he
    split at he
    next hkind =>
      cases he
      exact hk (Or.inl hkind)
    next hkind =>
      cases he
      exact hk (Or.inr hkind)
    next => cases he
    next n hne hlive _ _ =>
      cases he
      exact hg n hne hlive
    next hdead =>
      cases he
      refine hs _ ?_
      unfold Store.checkUsable Scope.isAlive
      rw [ho]
      split
      next hlive => exact (hdead _ hlive).elim
      next => rfl
  · simp only [ScopeId.close, run_bind, run_checkOwner, ho, run_require_error] at he
    cases he
    refine hs _ ?_
    unfold Store.checkUsable
    rw [ho]
    rfl

theorem tells_addAction (hs : σ.Tells ctx.caller E s) (a : CloseAction) :
    (ScopeId.addAction s a).Tells ctx σ E :=
  tells_checkUsable_bind hs fun _ => tells_modify

theorem tells_acquire (hs : σ.Tells ctx.caller E s) : (ScopeId.acquire s).Tells ctx σ E :=
  tells_checkUsable_bind hs fun _ => tells_modify

theorem tells_resolve (hs : σ.Tells ctx.caller E s) (start length : Word) :
    (s.resolve start length).Tells ctx σ E := by
  refine tells_checkUsable_bind hs fun _ => tells_get_bind ?_
  split
  next => exact tells_pure _
  next => exact tells_pure _

variable (hE : MemoryError.Plain E)
include hE

theorem tells_allocateNative (hs : σ.Tells ctx.caller E s) (size align : Word) :
    (s.allocateNative size align).Tells ctx σ E := by
  intro e τ he
  rcases hu : σ.checkUsable ctx.caller s with e' | _
  · simp only [ScopeId.allocateNative, run_bind, run_checkUsable, hu, run_require_error] at he
    cases he
    exact hs _ hu
  · by_cases ha : align.IsPowerOfTwo
    · cases hb : ctx.system.request σ.events (σ.poolOf s) size align <;>
        simp [ScopeId.allocateNative, hu, ha, hb] at he
      rw [← he.1]
      exact hE.memory _ _
    · simp [ScopeId.allocateNative, hu, ha] at he
      rw [← he.1]
      exact hE.argument _

end ScopeId

/-- A new block is at hand. -/
theorem ScopeId.leads_allocateNative_atHand (hlaw : system.Lawful)
    (hs : σ.Sound system strict waiting) (hw : ctx.system.Within system) (size align : Word) :
    (s.allocateNative size align).Leads ctx σ
      (fun r τ => r.AtHand τ ctx.caller) fun _ => True := by
  refine (ScopeId.leads_allocateNative s size align).imp (fun r τ h => ?_) fun _ _ => trivial
  obtain ⟨hu, ha, hb, hr, rfl⟩ := h
  have halive := (Store.checkUsable_eq_ok_iff.mp hu).2
  have hx := Store.extends_addBlock σ s ⟨r.start, size⟩
  refine .of_inside hlaw (hs.addBlock halive ha (hw.place hb)) ?_
    (hr ▸ Store.inside_addBlock halive)
  rw [hr, hx.checkUsable (Store.lt_length_of_isAlive halive)]
  exact hu

/-- A new scope can be used by the thread that makes it. -/
theorem ScopeId.leads_create_usable {kind : ScopeKind} (hk : kind ≠ .global) :
    (ScopeId.create kind).Leads ctx σ (fun s τ => τ.checkUsable ctx.caller s = .ok ())
      fun _ => False := by
  refine (ScopeId.leads_create kind).imp (fun s τ h => ?_) fun _ h => h
  obtain ⟨hg, _⟩ | ⟨_, rfl, rfl⟩ := h
  · exact absurd hg hk
  unfold Store.checkUsable Store.checkOwner Scope.owner?
  rw [Store.scope_addScope, if_pos rfl]
  cases kind <;> simp [Scope.isAlive, bind, Except.bind]

/-! ### Arenas -/

namespace ArenaId

variable {a : ArenaId}

theorem tells_create (hE : MemoryError.Plain E) (hs : σ.Tells ctx.caller E s)
    (capacity : ArenaCapacity) (config : ArenaConfig) :
    (ArenaId.create capacity config s).Tells ctx σ E := by
  refine tells_require_bind (fun _ => ArenaConfig.tells_validate hE) fun _ _ => ?_
  exact tells_checkUsable_bind hs fun _ => tells_get_bind (tells_set.then fun _ _ => tells_pure _)

theorem tells_counting {x : Operation Region} (hx : x.Tells ctx σ E) :
    (a.counting x).Tells ctx σ E := by
  intro e τ he
  unfold run counting at he
  cases hr : x ctx σ with
  | ok r ρ =>
    rw [hr] at he
    cases he
  | error fault ρ =>
    rw [hr] at he
    cases he
    exact hx _ ρ hr

variable (hE : MemoryError.Plain E)
include hE

theorem tells_carve {f : Frontier} (hf : f.block.AtHand σ ctx.caller) (start size : Word) :
    (a.carve f start size).Tells ctx σ E :=
  (Region.tells_slice hE (hf.told hE)).then fun _ _ =>
    tells_modify.then fun _ _ => tells_pure _

/-- What is left of a request once the frontier is known. -/
theorem tells_fit {f : Frontier} (hf : f.block.AtHand σ ctx.caller) (size align available : Word) :
    (match f.fit? size align with
      | some start => a.carve f start size
      | none => throw (.outOfMemory size available) : Operation Region).Tells ctx σ E := by
  split
  next => exact tells_carve hE hf _ size
  next => exact tells_throw (hE.memory _ _)

/-- A request that a block has to be obtained for. -/
theorem tells_install (hlaw : system.Lawful) (hs : σ.Sound system strict waiting)
    (hw : ctx.system.Within system) (hsc : σ.Tells ctx.caller E s)
    (blockSize blockAlign size align : Word) (available : Frontier → Word) :
    (do
      let f ← a.install (← s.allocateNative blockSize blockAlign)
      match f.fit? size align with
      | some start => a.carve f start size
      | none => throw (.outOfMemory size (available f)) : Operation Region).Tells ctx σ E := by
  refine (ScopeId.tells_allocateNative hE hsc _ _).bind
    (ScopeId.leads_allocateNative_atHand hlaw hs hw _ _) fun r τ hr => ?_
  have hinstall : (a.install r).Leads ctx τ (fun f ρ => f.block.AtHand ρ ctx.caller)
      fun _ => False := hr.later (Store.extends_modifyArena _ a fun _ => rfl)
  exact hinstall.tells.bind hinstall fun f ρ hf => tells_fit hE hf size align (available f)

theorem tells_allocate (hlaw : system.Lawful) (hs : σ.Sound system strict waiting)
    (hw : ctx.system.Within system) (hl : a < σ.arenas.length)
    (hsc : σ.Tells ctx.caller E (σ.arena a).scope) (size align : Word) :
    (a.allocate size align).Tells ctx σ E := by
  refine tells_require_bind (fun _ => tells_checkRequest hE) fun _ _ => tells_get_bind ?_
  refine tells_checkUsable_bind hsc fun hu => tells_counting ?_
  have hblock : ∀ f, (σ.arena a).frontier = some f → f.block.AtHand σ ctx.caller := by
    intro f hf
    obtain ⟨hscope, hin, _⟩ := (hs.arenas a hl).frontier f hf
    exact .of_inside hlaw hs (hscope ▸ hu) hin
  split
  next bytes _ =>
    unfold allocateBounded
    cases hf : (σ.arena a).frontier with
    | some f => exact tells_fit hE (hblock f hf) _ _ _
    | none => exact tells_install hE hlaw hs hw hsc _ _ _ _ fun f => bytes - f.cursor
  next blockSize _ =>
    unfold allocateUnbounded
    split
    next f start hfit =>
      obtain ⟨g, hg, hstart⟩ := Option.bind_eq_some_iff.mp hfit
      obtain ⟨_, _, he⟩ := Option.map_eq_some_iff.mp hstart
      cases he
      exact tells_carve hE (hblock _ hg) _ _
    next =>
      split
      next =>
        exact (ScopeId.tells_allocateNative hE hsc _ _).then fun r τ =>
          tells_modify.then fun _ _ => tells_pure _
      next => exact tells_install hE hlaw hs hw hsc _ _ _ _ fun _ => blockSize

end ArenaId

/-! ### Allocators -/

/-- A list of which an item fails. -/
theorem exists_of_flatMapM {α β : Type} {f : α → Except MemoryError (List β)} {xs : List α}
    {e : MemoryError} (h : xs.flatMapM f = .error e) : ∃ x, f x = .error e := by
  induction xs with
  | nil => cases h
  | cons x xs ih =>
    rw [List.flatMapM_cons] at h
    cases hx : f x with
    | error fault =>
      rw [hx] at h
      cases h
      exact ⟨x, hx⟩
    | ok bs =>
      rw [hx] at h
      cases hxs : xs.flatMapM f with
      | error fault =>
        rw [hxs] at h
        cases h
        exact ih hxs
      | ok _ =>
        rw [hxs] at h
        cases h

namespace AllocationRequest

variable {q : AllocationRequest} {e : MemoryError}

/-- No buffer has more bytes than a word can tell. -/
def Countable (q : AllocationRequest) : Prop :=
  ∀ bytes, q.initial = .ok bytes → bytes.length < 0x10000000000000000

variable (hE : MemoryError.Plain E)
include hE

theorem tells_checked (he : q.checked = .error e) : E e := by
  have hmap : ∀ {α β : Type} {c : Except MemoryError α} {f : α → β},
      c.map f = .error e → c = .error e := by
    intro α β c f hc
    cases c with
    | ok _ => cases hc
    | error _ =>
      cases hc
      rfl
  have harray : ∀ {c : Except MemoryError Unit} {count : Word} {element : Layout},
      (c.bind fun _ => (Layout.ofSequence count element).map fun l => (l.size, l.align)) =
        .error e → (∀ fault, c = .error fault → E fault) → E e := by
    intro c count element hc hfault
    cases c with
    | ok _ => exact Layout.tells_ofSequence hE (hmap hc)
    | error _ =>
      cases hc
      exact hfault _ rfl
  cases q with
  | raw | bytes | layout => cases he
  | arrayOf => exact Layout.tells_ofSequence hE (hmap he)
  | value | address => exact Carrier.tells_check hE (hmap he)
  | array | addressArray => exact harray he fun _ => Carrier.tells_check hE

theorem tells_fill (hq : q.Countable) (hr : r.AtHand σ ctx.caller) : (q.fill r).Tells ctx σ E := by
  have hr := hr.told hE
  cases q with
  | value l x => exact (Region.tells_set hE hr).then fun _ _ => tells_pure _
  | address l a => exact (Region.tells_setAddress hE hr).then fun _ _ => tells_pure _
  | array t element xs =>
    exact (Region.tells_write hE hr (hq _ rfl)).then fun _ _ => tells_pure _
  | addressArray element xs =>
    have hencode : (xs.flatMapM fun a =>
        require (Address.encode .native element.order a) : Operation Bytes).Leads ctx σ
          (fun bytes τ => xs.flatMapM (Address.encode .native element.order) = .ok bytes ∧ τ = σ)
          fun _ => True := by
      unfold Leads
      rw [run_flatMapM_require]
      cases xs.flatMapM (Address.encode .native element.order) with
      | ok bytes => exact ⟨rfl, rfl⟩
      | error e => trivial
    refine Tells.bind (fun e τ he => ?_) hencode fun bytes τ h => ?_
    · rw [run_flatMapM_require] at he
      cases hxs : xs.flatMapM (Address.encode .native element.order) with
      | ok bytes =>
        rw [hxs] at he
        cases he
      | error fault =>
        rw [hxs] at he
        cases he
        obtain ⟨a, ha⟩ := exists_of_flatMapM hxs
        exact Address.tells_encode hE ha
    · obtain ⟨hbytes, rfl⟩ := h
      exact (Region.tells_write hE hr (hq _ hbytes)).then fun _ _ => tells_pure _
  | _ => exact tells_pure _

end AllocationRequest

namespace Allocator

variable {w : Allocator} (hE : MemoryError.Plain E) (hlaw : system.Lawful)
  (hs : σ.Sound system strict waiting) (hw : ctx.system.Within system) (hk : w.Known σ)
  (hscopes : ∀ s ∈ Handle.allocatorScopes σ w, σ.Tells ctx.caller E s)
  (hrec : ∀ r, w = .recycling r → r.Told σ ctx.caller E)
include hE hlaw hs hw hk hscopes hrec

theorem tells_allocate (size align : Word) : (w.allocate size align).Tells ctx σ E := by
  cases w with
  | direct s =>
    refine tells_require_bind (fun _ => tells_checkRequest hE) fun _ _ => ?_
    exact ScopeId.tells_allocateNative hE (hscopes s (List.mem_singleton.mpr rfl)) size align
  | perRequest kind =>
    refine tells_require_bind (fun _ => tells_checkRequest hE) fun _ _ => ?_
    have hne : (if kind = .global then .implicit else kind) ≠ ScopeKind.global := by
      split
      next => exact ScopeKind.noConfusion
      next hk => exact hk
    exact (ScopeId.leads_create_usable hne).tells.bind (ScopeId.leads_create_usable hne)
      fun s τ hu => ScopeId.tells_allocateNative hE (Store.tells_of_usable hu) size align
  | arena a =>
    exact ArenaId.tells_allocate hE hlaw hs hw (hk a rfl)
      (hscopes _ (List.mem_singleton.mpr rfl)) size align
  | recycling r =>
    simp only [allocate]
    split
    next => exact tells_throw (hE.memory _ _)
    next =>
      exact Region.tells_slice hE (hrec r rfl)

theorem tells_serve (hl : σ.Ledger G) {q : AllocationRequest} (hq : q.Countable) :
    (w.serve q).Tells ctx σ E := by
  rw [serve_eq]
  refine tells_require_bind (fun _ => AllocationRequest.tells_checked hE) fun d _ => ?_
  refine (tells_allocate hE hlaw hs hw hk hscopes hrec d.1 d.2).bind
    (leads_allocate hs hw hk d.1 d.2) fun r τ hg => ?_
  exact AllocationRequest.tells_fill hE hq (hg.atHand hlaw hs hl)

omit hE hk hscopes hrec hw in
/-- Requests of several threads, each of which is told what is known to be so for it. -/
theorem tells_allocateEach {F : Thread → MemoryError → Prop} (hF : ∀ t, MemoryError.Plain (F t))
    (hw : ctx.system.Within system) {a : ArenaId} (ha : a < σ.arenas.length)
    (hsc : ∀ t, σ.Tells t (F t) (σ.arena a).scope) (size align : Word) (threads : List Thread) :
    ((arena a).allocateEach size align threads).Leads ctx σ
      (fun outcomes _ => ∀ t e, (t, .error e) ∈ threads.zip outcomes → F t e) fun _ => False := by
  unfold allocateEach
  induction threads generalizing σ with
  | nil => exact leads_pure nofun
  | cons t threads ih =>
    rw [List.mapM_cons]
    have hw' : ({ ctx with caller := t } : Context).system.Within system := hw
    have hask : ((arena a).allocate size align).Leads { ctx with caller := t } σ
        (fun _ τ => ∃ rs, Store.Changes system False σ rs τ)
        fun τ => ∃ rs, Store.Changes system False σ rs τ :=
      (leads_allocate hs hw' (fun _ h => by cases h; exact ha) size align).imp
        (fun _ _ h => ⟨_, h.changes⟩) fun _ h => ⟨_, h⟩
    have htold : ((arena a).allocate size align).Tells { ctx with caller := t } σ (F t) :=
      ArenaId.tells_allocate (hF t) hlaw hs hw' ha (hsc t) size align
    refine Leads.bind (leads_asThread (htold.attempt hask)) fun outcome τ h => ?_
    obtain ⟨hout, rs, hc⟩ := h
    have hx := hc.extends
    refine (ih (hc.sound hs) (Nat.lt_of_lt_of_le ha hx.arenas) fun u => ?_).bind
      fun outcomes ρ hrest => leads_pure fun u e hu => ?_
    · rw [hx.arenaScope a ha]
      exact (hsc u).extends hx (hs.arenas a ha).scope
    · rcases List.mem_cons.mp hu with he | hu
      · cases he
        exact hout e rfl
      · exact hrest u e hu

end Allocator
end ScopedMemory
