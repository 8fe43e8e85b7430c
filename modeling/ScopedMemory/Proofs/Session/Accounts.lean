import ScopedMemory.Proofs.Lifetime.Fate
import ScopedMemory.Proofs.Session.Through
import ScopedMemory.Proofs.Variadic.Deals

namespace ScopedMemory

open Turn

variable {system : SystemAllocator} {strict : Prop} {G : List Region} {σ τ ρ : Store}
  {S T : Session} {ctx : Context}

/-! ### What leaves arenas and blocks as they are -/

namespace Store

theorem quiet_of_scopes (hs : τ.scopes = σ.scopes) (ha : τ.arenas = σ.arenas) : σ.Quiet τ := by
  have hscope : ∀ s, τ.scope s = σ.scope s := fun s => by
    unfold scope
    rw [hs]
  refine ⟨ha, congrArg List.length hs, fun s h => ?_⟩
  rw [IsAlive, hscope] at h
  rw [hscope]
  exact ⟨h, rfl⟩

theorem Quiet.trans (h : σ.Quiet τ) (h' : τ.Quiet ρ) : σ.Quiet ρ where
  arenas := h'.arenas.trans h.arenas
  scopes := h'.scopes.trans h.scopes
  blocks s hs := by
    obtain ⟨ha, hb⟩ := h'.blocks s hs
    obtain ⟨ha', hb'⟩ := h.blocks s ha
    exact ⟨ha', hb.trans hb'⟩

theorem quiet_endScope (σ : Store) (s : ScopeId) {l : Lifetime} (hl : ∀ n, l ≠ .live n) :
    σ.Quiet (σ.endScope s l) := by
  refine ⟨rfl, length_scopes_endScope σ s l, fun t ht => ?_⟩
  rw [IsAlive, scope_endScope] at ht
  rw [scope_endScope]
  split at ht
  next =>
    cases l with
    | live n => exact absurd rfl (hl n)
    | _ => cases ht
  next hn => exact ⟨ht, by rw [if_neg hn]⟩

theorem quiet_addAction (σ : Store) (s : ScopeId) (a : CloseAction) :
    σ.Quiet (σ.addAction s a) := by
  refine ⟨rfl, length_scopes_addAction σ s a, fun t ht => ⟨?_, blocks_addAction σ s a t⟩⟩
  rw [IsAlive, scope_addAction] at ht
  split at ht
  next h => exact h.1 ▸ ht
  next => exact ht

theorem quiet_setLive {s : ScopeId} (ha : σ.IsAlive s) (n : Nat) :
    σ.Quiet (σ.setLifetime s (.live n)) := by
  refine ⟨rfl, length_scopes_setLifetime σ s _, fun t ht => ⟨?_, blocks_setLifetime σ s _ t⟩⟩
  rw [IsAlive, scope_setLifetime] at ht
  split at ht
  next h => exact h.1 ▸ ha
  next => exact ht

theorem quiet_unpin (σ : Store) (s : ScopeId) : σ.Quiet (σ.unpin s) := by
  unfold unpin
  split
  next h => exact quiet_setLive h _
  next => exact quiet_of_scopes rfl rfl

end Store

theorem CloseAction.quiet_unfold (a : CloseAction) (ctx : Context) (σ : Store) :
    σ.Quiet (a.unfold ctx σ).1 := by
  obtain ⟨_, _, hu⟩ := a.unfold_cases ctx σ
  rcases hu with hu | ⟨_, s, _, _, _, hu⟩ | ⟨_, s, _, _, hu⟩ | ⟨_, hu⟩ <;> rw [hu]
  · exact Store.quiet_of_scopes rfl rfl
  · exact Store.quiet_endScope σ s fun _ => Lifetime.noConfusion
  · exact Store.quiet_addAction σ s _
  · exact Store.quiet_of_scopes rfl rfl

theorem Session.quiet_advance (S : Session) (ctx : Context) :
    S.store.Quiet (S.advance ctx).store := by
  cases hc : S.chores with
  | nil =>
    rw [advance_nil ctx hc]
    exact Store.quiet_of_scopes rfl rfl
  | cons c rest =>
    rw [advance_cons ctx hc]
    cases c with
    | perform p =>
      have hnote : S.store.Quiet (S.store.note (.began p.ticket)) := Store.quiet_of_scopes rfl rfl
      exact hnote.trans (p.action.quiet_unfold ctx _)
    | letGo s =>
      simp only [Chore.step]
      split
      next => exact Store.quiet_endScope _ s fun _ => Lifetime.noConfusion
      next => exact Store.quiet_of_scopes rfl rfl
    | unguard s => exact Store.quiet_unpin _ s
    | _ => exact Store.quiet_of_scopes rfl rfl

/-! ### What calls ask for -/

/-- What a call asks for: who has to serve it, the size, and how often it is served. -/
structure Errand where
  source : Allocator
  size : Word
  served : Nat

def ScopeCall.errand? (ctx : Context) (S : Session) : ScopeCall → Option Errand
  | allocateNative size align scope _ =>
    (S.scope? scope).map fun s =>
      ⟨.direct s, size, (s.allocateNative size align).successes ctx S.store⟩
  | _ => none

/-- A recycled region is not asked for anew. -/
def AllocationCall.errand? (ctx : Context) (S : Session) : AllocationCall → Option Errand
  | allocate q allocator _ =>
    match S.allocator? allocator, q.checked with
    | some w, .ok (size, align) =>
      if w.IsFresh then
        some ⟨w.source S.store, size, (w.allocate size align).successes ctx S.store⟩
      else none
    | _, _ => none
  | allocateParallel target size align threads count =>
    (S.sharedArena? target).map fun a =>
      let outcomes := ((Allocator.arena a).allocateEach size align (callers threads count)).value?
        ctx S.store
      ⟨.arena a, size, ((outcomes.getD []).filterMap Except.toOption).length⟩
  | _ => none

def VariadicCall.errand? (ctx : Context) (S : Session) : VariadicCall → Option Errand
  | readSegment l list allocator _ =>
    match S.list? list, S.allocator? allocator with
    | some v, some w =>
      if w.IsFresh then some ⟨w.source S.store, l.size, (v.askSegment l w).successes ctx S.store⟩
      else none
    | _, _ => none
  | _ => none

def Call.errand? (ctx : Context) (S : Session) : Call → Option Errand
  | scope c => c.errand? ctx S
  | allocation c => c.errand? ctx S
  | variadic c => c.errand? ctx S
  | handle _ | region _ => none

/-- The arena that a call makes for the caller. Those that lists are built from stay unnamed. -/
def Call.arenasMade (ctx : Context) (S : Session) : Call → List ArenaId
  | allocation (.arena target capacity config _ _) =>
    match S.scope? target with
    | some s => ((ArenaId.create capacity config s).value? ctx S.store).toList
    | none => []
  | _ => []

/-- What a call does to the counters of arenas and to the blocks of scopes. -/
inductive Session.Settles (system : SystemAllocator) (ctx : Context) (S : Session) (c : Call)
    (τ : Store) : Prop
  | errand {e} (he : c.errand? ctx S = some e)
    (h : S.store.Buys system e.source (List.replicate e.served ⟨e.source, e.size⟩) τ)
  /-- A list may have been built. -/
  | built (he : c.errand? ctx S = none) (hm : c.arenasMade ctx S = [])
    (h : S.store.Trades system (.arena S.store.arenas.length) τ)
  /-- A scope or an arena may have been made. -/
  | made (he : c.errand? ctx S = none) (h : S.store.Deals system [] [] τ)
  | quiet (he : c.errand? ctx S = none) (h : S.store.Quiet τ)

/-- However the call ends, it settles in one of these ways. -/
def Call.Settled (system : SystemAllocator) (ctx : Context) (S : Session) (c : Call) : Prop :=
  c.perform.Leads ctx S (fun _ T => S.Settles system ctx c T.store)
    fun T => S.Settles system ctx c T.store

section

variable {α : Type} {c : Call}

theorem Session.Settles.same (he : c.errand? ctx S = none) : S.Settles system ctx c S.store :=
  .quiet he (Store.quiet_of_scopes rfl rfl)

theorem Session.Settles.memory (he : c.errand? ctx S = none) (h : ∃ m, τ = S.store.setMemory m) :
    S.Settles system ctx c τ := by
  obtain ⟨m, rfl⟩ := h
  exact .quiet he (Store.quiet_of_scopes rfl rfl)

theorem Call.Settled.of_rests (he : c.errand? ctx S = none) (h : c.perform.Rests ctx S) :
    c.Settled system ctx S := by
  have hsame : ∀ T, S.SameStore T → S.Settles system ctx c T.store := fun T hT => by
    rw [hT]
    exact .same he
  exact Turn.Leads.imp h (fun _ T => hsame T) hsame

end

theorem HandleCall.rests (c : HandleCall) : c.perform.Rests ctx S := by
  cases c with
  | info name =>
    exact through_find.bind fun _ _ => through_get.bind fun _ _ =>
      through_read.bind fun _ _ => through_pure _
  | drop name =>
    exact through_find.bind fun _ _ => (rests_forget name).bind fun _ _ =>
      (rests_discard _).bind fun _ _ => through_pure _
  | clone name copy =>
    exact through_find.bind fun _ _ => (rests_rename copy _).bind fun _ _ => through_pure _
  | describe name => exact through_find.bind fun _ _ => through_pure _
  | misuse name => exact (rests_lose name).bind fun _ _ => through_throw _

theorem ScopeCall.settled (hw : ctx.system.Within system) (c : ScopeCall) :
    (Call.scope c).Settled system ctx S := by
  have hsame : ∀ {c : Call}, c.errand? ctx S = none → ∀ τ, τ = S.store →
      S.Settles system ctx c τ := fun he τ h => h ▸ .same he
  cases c with
  | create kind name =>
    have hx : (ScopeId.create kind).Leads ctx S.store
        (fun _ τ => S.Settles system ctx (.scope (.create kind name)) τ)
        (S.Settles system ctx (.scope (.create kind name))) := by
      refine (ScopeId.leads_create kind).imp (fun _ τ h => ?_) fun _ h => h.elim
      obtain ⟨_, _, rfl⟩ | ⟨_, _, rfl⟩ := h
      · exact .same rfl
      · exact .made rfl (Store.Deal.scope _ _ _).deals
    exact leads_lift_rests hx fun _ _ => through_get.bind fun _ _ => through_read.bind fun _ _ =>
      (rests_rename name _).bind fun _ _ => through_pure _
  | close scope =>
    refine leads_bind_find (.same rfl) fun s _ => ?_
    refine leads_lift_rests ?_ fun held _ => (rests_leave _).bind fun _ _ => through_pure _
    refine (ScopeId.leads_close s).imp (fun _ τ h => ?_) (hsame rfl)
    obtain ⟨_, _, _, _, rfl⟩ := h
    exact .quiet rfl (Store.quiet_endScope _ s nofun)
  | addAction scope label plan =>
    refine leads_bind_find (.same rfl) fun s _ => ?_
    have hplan : (plan.resolve label).Leads ctx S (fun _ T => T = S) (· = S) := by
      cases plan with
      | say => exact leads_pure rfl
      | _ => exact leads_find.bind fun _ _ h => leads_pure h.2
    refine hplan.chain (fun T h => h ▸ .same rfl) fun a T h => ?_
    subst h
    refine leads_lift_rests ?_ fun _ _ => through_pure _
    refine (ScopeId.leads_addAction s a).imp (fun _ τ h => ?_) (hsame rfl)
    exact h.2 ▸ .quiet rfl (Store.quiet_addAction _ s a)
  | acquire scope name =>
    refine leads_bind_find (.same rfl) fun s _ => ?_
    refine leads_lift_rests ?_ fun _ _ => (rests_rename name _).bind fun _ _ => through_pure _
    refine (ScopeId.leads_acquire s).imp (fun _ τ h => ?_) (hsame rfl)
    exact h.2 ▸ .quiet rfl (Store.quiet_setLive (Store.isAlive_of_checkUsable h.1) _)
  | same first second =>
    exact .of_rests rfl (through_find.bind fun _ _ => through_find.bind fun _ _ => through_pure _)
  | allocateNative size align scope name? =>
    refine leads_bind_lookup (fun hn => .same ?_) fun s hn => ?_
    · simp only [Call.errand?, ScopeCall.errand?, hn, Option.map_none]
    have he : Call.errand? ctx S (.scope (.allocateNative size align scope name?)) =
        some ⟨.direct s, size, (s.allocateNative size align).successes ctx S.store⟩ := by
      simp only [Call.errand?, ScopeCall.errand?, hn, Option.map_some]
    have hx := (Allocator.buys_allocateNative (σ := S.store) hw s size align).buys
      (f := pure) fun r τ => Operation.leads_pure ⟨τ.memory, rfl⟩
    rw [bind_pure] at hx
    exact leads_lift_rests (hx.imp (fun _ _ h => .errand he h) fun _ h => .errand he h)
      fun r _ => rests_keepRegion name? false r
  | resolve start length scope name? =>
    refine leads_bind_find (.same rfl) fun s _ => ?_
    refine leads_lift_rests ((VariadicList.leads_resolve s start length).imp
      (fun _ τ h => hsame rfl τ h.1) (hsame rfl)) fun r? _ => ?_
    cases r? with
    | none => exact through_pure _
    | some r => exact rests_keepRegion name? false r

theorem RegionCall.settled (c : RegionCall) : (Call.region c).Settled system ctx S := by
  have hsame : ∀ τ, τ = S.store → S.Settles system ctx (.region c) τ := fun τ h => h ▸ .same rfl
  -- An access to the region that the name stands for.
  have haccess : ∀ {α : Type} (name : Name) (x : Region → Operation α) (reply : α → Reply),
      (∀ r, (x r).Leads ctx S.store (fun _ τ => S.Settles system ctx (.region c) τ)
        (S.Settles system ctx (.region c))) →
      (do
        let p ← find Session.region? name
        return reply (← lift (x p.1)) : Turn Reply).Leads ctx S
          (fun _ T => S.Settles system ctx (.region c) T.store)
          fun T => S.Settles system ctx (.region c) T.store := by
    intro α name x reply hx
    exact leads_bind_find (.same rfl) fun p _ => leads_lift_rests (hx p.1) fun _ _ => through_pure _
  cases c with
  | adopt start length scope name? =>
    refine leads_bind_find (.same rfl) fun s _ => leads_lift_rests ?_ fun r _ =>
      rests_keepRegion name? true r
    exact Region.leads_ofAddress.imp (fun _ τ h => hsame τ h.2.2) hsame
  | slice region offset length name? =>
    refine leads_bind_find (.same rfl) fun p _ => leads_lift_rests ?_ fun r _ =>
      rests_keepRegion name? p.2 r
    exact Region.leads_slice.imp (fun _ τ h => hsame τ h.2.2) hsame
  | sliceFrom region offset name? =>
    refine leads_bind_find (.same rfl) fun p _ => leads_lift_rests ?_ fun r _ =>
      rests_keepRegion name? p.2 r
    refine Region.leads_sliceFrom.imp (fun _ τ h => ?_) hsame
    obtain ⟨_, _, _, _, hτ⟩ := h
    exact hsame τ hτ
  | belongs region scope =>
    exact .of_rests rfl (through_find.bind fun _ _ => through_find.bind fun _ _ => through_pure _)
  | read length region offset =>
    exact haccess region (·.read offset length) .bytes fun r =>
      Region.leads_read.imp (fun _ τ h => hsame τ h.2.2) hsame
  | write region offset bytes =>
    exact haccess region (·.write offset bytes) (fun _ => .done) fun r =>
      Region.leads_write.imp (fun _ _ h => .memory rfl ⟨_, h.2⟩) hsame
  | get layout offset type region =>
    exact haccess region (·.get type layout offset) .scalar fun r =>
      Region.leads_get.imp (fun _ τ h => hsame τ h.2.2) hsame
  | set layout offset region value =>
    exact haccess region (·.set layout offset value) (fun _ => .done) fun r =>
      Region.leads_set.imp (fun _ _ h => .memory rfl ⟨_, h.2.2⟩) hsame
  | getAddress region layout offset =>
    refine haccess region (·.getAddress layout offset) .address fun r =>
      Region.leads_getAddress.imp (fun _ τ h => ?_) hsame
    obtain ⟨_, _, _, _, hτ⟩ := h
    exact hsame τ hτ
  | setAddress value region layout offset =>
    refine haccess region (·.setAddress layout offset value) (fun _ => .done) fun r =>
      Region.leads_setAddress.imp (fun _ τ h => ?_) hsame
    obtain ⟨_, _, _, hτ⟩ := h
    exact .memory rfl ⟨_, hτ⟩
  | copyFrom region source =>
    refine leads_bind_find (.same rfl) fun p _ => leads_bind_find (.same rfl) fun q _ => ?_
    refine leads_lift_rests ?_ fun _ _ => through_pure _
    exact Region.leads_copyFrom.imp (fun _ _ h => .memory rfl ⟨_, h.2.2⟩) hsame
  | fill region value =>
    exact haccess region (·.fill value) (fun _ => .done) fun r =>
      Region.leads_fill.imp (fun _ _ h => .memory rfl ⟨_, h.2⟩) hsame
  | contents region =>
    refine leads_bind_find (.same rfl) fun p _ => leads_lift_rests ?_ fun bytes? _ => ?_
    · exact Region.leads_contents.imp (fun _ τ h => hsame τ h.2) hsame
    · cases bytes? with
      | none => exact through_throw _
      | some bytes => exact through_pure _

theorem AllocationCall.settled (h : S.Sound system strict G) (hw : ctx.system.Within system)
    (c : AllocationCall) : (Call.allocation c).Settled system ctx S := by
  cases c with
  | arena scope capacity config access name =>
    refine leads_bind_find (.same rfl) fun s _ => leads_lift_rests ?_ fun a _ =>
      rests_keepHandle name _
    refine (ArenaId.leads_create capacity config s).imp (fun _ τ h => ?_) fun _ h => h ▸ .same rfl
    obtain ⟨_, hu, _, rfl⟩ := h
    exact .made rfl (Store.Deal.arena (Store.checkUsable_eq_ok_iff.mp hu).2).deals
  | direct scope name =>
    exact .of_rests rfl (through_find.bind fun _ _ => (rests_rename name _).bind fun _ _ =>
      through_pure _)
  | perRequest kind name =>
    exact .of_rests rfl ((rests_rename name _).bind fun _ _ => through_pure _)
  | recycling region name =>
    exact .of_rests rfl (through_find.bind fun _ _ => (rests_rename name _).bind fun _ _ =>
      through_pure _)
  | allocate q allocator name? =>
    refine leads_bind_lookup (fun hn => .same ?_) fun w hn => ?_
    · simp only [Call.errand?, AllocationCall.errand?, hn]
    refine leads_lift_rests ?_ fun r _ => rests_keepRegion name? false r
    by_cases hf : w.IsFresh
    · cases hd : q.checked with
      | error e =>
        have he : Call.errand? ctx S (.allocation (.allocate q allocator name?)) = none := by
          simp only [Call.errand?, AllocationCall.errand?, hn, hd]
        exact (Allocator.leads_unchecked hd).imp (fun _ _ h => h.elim) fun _ h => h ▸ .same he
      | ok dims =>
        obtain ⟨size, align⟩ := dims
        have he : Call.errand? ctx S (.allocation (.allocate q allocator name?)) =
            some ⟨w.source S.store, size, (w.allocate size align).successes ctx S.store⟩ := by
          simp only [Call.errand?, AllocationCall.errand?, hn, hd, if_pos hf]
        exact (Allocator.buys_serve hw (h.of_allocator? hn).1 hf hd).imp
          (fun _ _ h => .errand he h) fun _ h => .errand he h
    · have he : Call.errand? ctx S (.allocation (.allocate q allocator name?)) = none := by
        simp only [Call.errand?, AllocationCall.errand?, hn]
        cases q.checked with
        | error e => rfl
        | ok dims => exact if_neg hf
      cases w with
      | recycling r =>
        exact (Allocator.leads_serve_recycling r).imp (fun _ _ h => .memory he h) fun _ h =>
          .memory he h
      | _ => exact absurd trivial hf
  | allocateParallel target size align threads count =>
    refine leads_bind_lookup (fun hn => .same ?_) fun a hn => ?_
    · simp only [Call.errand?, AllocationCall.errand?, hn, Option.map_none]
    refine leads_lift_rests ?_ fun _ _ => through_pure _
    refine (Allocator.buys_allocateEach hw (h.of_sharedArena? hn) size align
      (callers threads count)).value.imp (fun outcomes τ h => ?_) fun _ h => h.2.elim
    refine .errand (e := ⟨.arena a, size, (outcomes.filterMap Except.toOption).length⟩) ?_ h.2
    simp only [Call.errand?, AllocationCall.errand?, hn, Option.map_some, h.1, Option.getD_some]

theorem VariadicCall.settled_readSegment (h : S.Sound system strict G)
    (hw : ctx.system.Within system) (l : Layout) (list allocator : Name) (name? : Option Name) :
    (Call.variadic (.readSegment l list allocator name?)).Settled system ctx S := by
  refine leads_readSegment (fun hnone => .same ?_) fun v w hv hn => ?_
  · rcases hnone with hn | hn
    · simp only [Call.errand?, VariadicCall.errand?, hn]
    · simp only [Call.errand?, VariadicCall.errand?, hn]
      cases S.list? list <;> rfl
  by_cases hf : w.IsFresh
  · have he : Call.errand? ctx S (.variadic (.readSegment l list allocator name?)) =
        some ⟨w.source S.store, l.size, (v.askSegment l w).successes ctx S.store⟩ := by
      simp only [Call.errand?, VariadicCall.errand?, hv, hn, if_pos hf]
    exact (VariadicList.buys_readSegment hw (h.of_allocator? hn).1 hf).imp
      (fun _ _ h => .errand he h) fun _ h => .errand he h
  · have he : Call.errand? ctx S (.variadic (.readSegment l list allocator name?)) = none := by
      simp only [Call.errand?, VariadicCall.errand?, hv, hn, if_neg hf]
    cases w with
    | recycling r =>
      exact (VariadicList.leads_readSegment_recycling r).imp (fun _ _ h => .memory he h)
        fun _ h => .memory he h
    | _ => exact absurd trivial hf

theorem VariadicCall.settled (h : S.Sound system strict G) (hw : ctx.system.Within system)
    (c : VariadicCall) : (Call.variadic c).Settled system ctx S := by
  have hsame : ∀ {c : Call}, c.errand? ctx S = none → ∀ τ, τ = S.store →
      S.Settles system ctx c τ := fun he τ h => h ▸ .same he
  cases c with
  | builder scope convention name =>
    refine leads_bind_find (.same rfl) fun s _ => leads_lift_rests ?_ fun b _ =>
      rests_keepHandle name _
    exact (VariadicBuilder.leads_create convention s).imp (fun _ τ h => hsame rfl τ h.2.2)
      (hsame rfl)
  | push layout value target =>
    refine (ArgumentSource.leads_resolve h value).chain (fun T hT => hT ▸ .same rfl)
      fun v T hT => ?_
    obtain ⟨rfl, _⟩ := hT
    refine leads_bind_find (.same rfl) fun b _ => leads_lift_rests ?_ fun b' _ =>
      (rests_update target _).bind fun _ _ => through_pure _
    exact (VariadicBuilder.leads_push layout v).imp (fun _ τ h => hsame rfl τ h.1) (hsame rfl)
  | build source name =>
    refine leads_bind_find (.same rfl) fun b _ => ?_
    refine leads_forget.chain (fun _ hf => hf.elim) fun _ T hT => ?_
    subst hT
    refine leads_discard.chain (fun _ hf => hf.elim) fun _ T hT => ?_
    subst hT
    exact leads_lift_rests ((VariadicBuilder.trades_build hw).imp
      (fun _ _ h => .built rfl rfl h) fun _ h => .built rfl rfl h) fun v _ => rests_keepList name v
  | make arguments scope convention name =>
    refine (ArgumentSource.leads_resolveAll arguments).chain (fun T hT => hT ▸ .same rfl)
      fun args T hT => ?_
    subst hT
    refine leads_bind_find (.same rfl) fun s _ => ?_
    exact leads_lift_rests ((VariadicList.trades_make hw convention s args).imp
      (fun _ _ h => .built rfl rfl h) fun _ h => .built rfl rfl h) fun v _ => rests_keepList name v
  | empty convention name => exact .of_rests rfl (rests_keepList name _)
  | adopt start scope convention name =>
    refine leads_bind_find (.same rfl) fun s _ => leads_lift_rests ?_ fun v _ =>
      rests_keepList name v
    exact (VariadicList.leads_ofAddress convention start s).imp (fun _ τ h => hsame rfl τ h.1)
      (hsame rfl)
  | read layout type list =>
    refine leads_bind_find (.same rfl) fun v _ => leads_lift_rests ?_ fun p _ =>
      (rests_update list _).bind fun _ _ => through_pure _
    exact (VariadicList.leads_readAs layout type).imp (fun _ τ h => hsame rfl τ h.1) (hsame rfl)
  | readSegment layout list allocator name? =>
    exact settled_readSegment h hw layout list allocator name?
  | skip layouts list =>
    refine leads_bind_find (.same rfl) fun v _ => leads_lift_rests ?_ fun rest _ =>
      (rests_update list _).bind fun _ _ => through_pure _
    exact (VariadicList.leads_skip layouts).imp (fun _ τ h => hsame rfl τ h.2) (hsame rfl)
  | copy list name =>
    refine leads_bind_find (.same rfl) fun v _ => leads_lift_rests ?_ fun v' _ =>
      rests_keepList name v'
    exact VariadicList.leads_copy.imp (fun _ τ h => hsame rfl τ h.2) (hsame rfl)

/-- Every call settles in one of these ways. -/
theorem Call.settles (h : S.Sound system strict G) (hw : ctx.system.Within system) (c : Call) :
    S.Settles system ctx c (S.begin ctx c).2.store := by
  have hc : c.Settled system ctx S := by
    cases c with
    | handle c => exact .of_rests rfl c.rests
    | scope c => exact c.settled hw
    | region c => exact c.settled
    | allocation c => exact c.settled h hw
    | variadic c => exact c.settled h hw
  exact Turn.Leads.begin hc fun _ hT => hT

/-! ### What a run has served and obtained -/

/-- The sizes of what the allocator serves on an errand. -/
def Errand.sizes (e : Errand) (w : Allocator) : List Word :=
  if e.source = w then List.replicate e.served e.size else []

def Move.errand? (S : Session) : Move → Option Errand
  | call ctx c => c.errand? ctx S
  | chore _ => none

def Move.arenasMade (S : Session) : Move → List ArenaId
  | call ctx c => c.arenasMade ctx S
  | chore _ => []

/-- The sizes of all requests that the allocator served in a run, newest first. -/
def servedBy : List Move → Allocator → List Word
  | [], _ => []
  | m :: past, w => ((m.errand? (play past)).elim [] (·.sizes w)) ++ servedBy past w

/-- All blocks that the system placed in a run while the allocator was asked, newest first. -/
def obtainedBy : List Move → Allocator → List Block
  | [], _ => []
  | m :: past, w =>
    (if (m.errand? (play past)).map (·.source) = some w then
      (play past).store.obtained (play (m :: past)).store else []) ++ obtainedBy past w

/-- The arenas that calls made in a run. -/
def arenasMade : List Move → List ArenaId
  | [] => []
  | m :: past => m.arenasMade (play past) ++ arenasMade past

/-- The arena, if the allocator is one that was created, was made by a call. -/
def Allocator.Named (past : List Move) (w : Allocator) : Prop :=
  ∀ a, w = arena a → a < (play past).store.arenas.length → a ∈ arenasMade past

/-- The arena is new, and its configuration has passed its check. -/
def Store.Makes (σ : Store) (a : ArenaId) (τ : Store) : Prop :=
  a = σ.arenas.length ∧ ∃ (s : ScopeId) (capacity : ArenaCapacity) (config : ArenaConfig),
    config.validate = .ok () ∧ τ = σ.addArena ⟨s, capacity, config.blockAlign, none, {}⟩

theorem Call.makes_of_arenasMade {c : Call} {a : ArenaId} (ha : a ∈ c.arenasMade ctx S) :
    S.store.Makes a (S.begin ctx c).2.store := by
  have hc : c.perform.Leads ctx S (fun _ T => S.store.Makes a T.store)
      fun T => S.store.Makes a T.store := by
    unfold arenasMade at ha
    split at ha
    next target capacity config access name =>
      refine leads_bind_lookup (fun hn => ?_) fun s hn => ?_
      · rw [hn] at ha
        cases ha
      rw [hn] at ha
      refine leads_lift_rests (P := S.store.Makes a) ?_ fun b _ => rests_keepHandle name _
      refine (ArenaId.leads_create capacity config s).value.imp (fun b τ h => ?_) fun τ h => ?_
      · obtain ⟨hv, hvalid, _, hb, hτ⟩ := h
        have hab : a = b := by simpa [hv] using ha
        exact ⟨hab.trans hb, s, capacity, config, hvalid, hτ⟩
      · simp [h.1] at ha
    next => cases ha
  exact hc.begin fun _ hT => hT

theorem Call.of_arenasMade {c : Call} {a : ArenaId} (ha : a ∈ c.arenasMade ctx S) :
    a = S.store.arenas.length ∧ a < (S.begin ctx c).2.store.arenas.length := by
  obtain ⟨rfl, _, _, _, _, hτ⟩ := c.makes_of_arenasMade ha
  rw [hτ, Store.length_arenas_addArena]
  exact ⟨rfl, Nat.lt_succ_self _⟩

theorem play_arenasMade (hsep : system.Separate) {past : List Move}
    (hw : ∀ m ∈ past, m.Within system) :
    ∀ a ∈ arenasMade past, a < (play past).store.arenas.length := by
  induction past with
  | nil => nofun
  | cons m past ih =>
    have hpast : ∀ m ∈ past, m.Within system := fun m' hm => hw m' (List.mem_cons_of_mem m hm)
    have hS : (play past).Sound system False _ := play_sound hsep hpast False.elim
    have hf := Session.follows_move hsep hS (hw m List.mem_cons_self) False.elim
    intro a ha
    rcases List.mem_append.mp ha with ha | ha
    · cases m with
      | call ctx c => exact (Call.of_arenasMade ha).2
      | chore ctx => cases ha
    · exact Nat.lt_of_lt_of_le (ih hpast a ha) hf.later.arenas

theorem Store.booked_initial : Store.initial.Booked [] [] where
  arenas a ha := absurd ha (Nat.not_lt_zero a)
  count s hs := by
    by_cases h0 : s = 0
    · rw [h0]
      rfl
    · rw [IsAlive, Store.scope_of_length_le (Nat.one_le_iff_ne_zero.mpr h0)] at hs
      cases hs
  bytes s hs := by
    by_cases h0 : s = 0
    · rw [h0]
      rfl
    · rw [IsAlive, Store.scope_of_length_le (Nat.one_le_iff_ne_zero.mpr h0)] at hs
      cases hs
  sources := nofun
  buyers := nofun

/-- What an errand adds to the books is what it adds to the record of the run. -/
theorem Errand.agrees (e : Errand) (w : Allocator) {ps : List Purchase}
    (hp : ∀ p ∈ ps, p.buyer = e.source)
    (hd : Store.Deals system σ (List.replicate e.served ⟨e.source, e.size⟩) ps τ) :
    Supply.sizesOf w (List.replicate e.served ⟨e.source, e.size⟩) = e.sizes w ∧
      Purchase.blocksOf w ps = if some e.source = some w then σ.obtained τ else [] := by
  have hs : ∀ x ∈ List.replicate e.served (⟨e.source, e.size⟩ : Supply), x.source = e.source :=
    fun x hx => by rw [List.eq_of_mem_replicate hx]
  unfold Errand.sizes
  by_cases hw : e.source = w
  · subst hw
    rw [if_pos rfl, if_pos rfl, hd.obtained, Supply.sizesOf_eq_map hs, Purchase.blocksOf_eq_map hp,
      List.map_replicate]
    exact ⟨rfl, rfl⟩
  · rw [if_neg hw, if_neg fun he => hw (Option.some.inj he)]
    exact ⟨Supply.sizesOf_eq_nil fun x hx he => hw ((hs x hx).symm.trans he),
      Purchase.blocksOf_eq_nil fun p hm he => hw ((hp p hm).symm.trans he)⟩

/-- Without an errand nothing is added to the record. -/
theorem served_of_idle {past : List Move} {m : Move} (he : m.errand? (play past) = none)
    (w : Allocator) :
    servedBy (m :: past) w = servedBy past w ∧ obtainedBy (m :: past) w = obtainedBy past w := by
  simp only [servedBy, obtainedBy, he, Option.elim_none, Option.map_none, reduceCtorEq, if_false,
    List.nil_append, and_self]

/-- An arena that was there before the move was made before. -/
theorem Allocator.Named.of_cons {past : List Move} {m : Move} {w : Allocator}
    (hn : w.Named (m :: past))
    (hlen : (play past).store.arenas.length ≤ (play (m :: past)).store.arenas.length) :
    w.Named past := by
  intro a he hl
  rcases List.mem_append.mp (hn a he (Nat.lt_of_lt_of_le hl hlen)) with ha | ha
  · cases m with
    | call ctx c => exact absurd (Call.of_arenasMade ha).1 (Nat.ne_of_lt hl)
    | chore ctx => cases ha
  · exact ha

/-- The counters of all arenas and the blocks of all scopes agree with what was served and obtained
in the run. -/
theorem play_booked (hpack : system.Packs) {past : List Move} (hw : ∀ m ∈ past, m.Within system) :
    ∃ ss ps, (play past).store.Booked ss ps ∧ ∀ w : Allocator, w.Named past →
      Supply.sizesOf w ss = servedBy past w ∧ Purchase.blocksOf w ps = obtainedBy past w := by
  induction past with
  | nil => exact ⟨[], [], Store.booked_initial, fun _ _ => ⟨rfl, rfl⟩⟩
  | cons m past ih =>
    have hpast : ∀ m ∈ past, m.Within system := fun m' hm => hw m' (List.mem_cons_of_mem m hm)
    obtain ⟨ss, ps, hb, hag⟩ := ih hpast
    have hS : (play past).Sound system False _ := play_sound hpack.toSeparate hpast False.elim
    have hf := Session.follows_move hpack.toSeparate hS (hw m List.mem_cons_self) False.elim
    have hnamed : ∀ w : Allocator, w.Named (m :: past) → w.Named past := fun _ hn =>
      hn.of_cons hf.later.arenas
    have hidle (he : m.errand? (play past) = none) := served_of_idle he
    cases m with
    | chore ctx =>
      refine ⟨ss, ps, hb.quiet ((play past).quiet_advance ctx), fun w hn => ?_⟩
      rw [(hidle rfl w).1, (hidle rfl w).2]
      exact hag w (hnamed w hn)
    | call ctx c =>
      cases c.settles hS (hw _ List.mem_cons_self) with
      | @errand e he h =>
        obtain ⟨ps', hp, hd⟩ := h
        refine ⟨_, _, hd.booked hb hS.store hpack, fun w hn => ?_⟩
        obtain ⟨hsizes, hblocks⟩ := hag w (hnamed w hn)
        obtain ⟨hsizes', hblocks'⟩ := e.agrees w hp hd
        have he' : Move.errand? (play past) (.call ctx c) = some e := he
        rw [Supply.sizesOf_append, Purchase.blocksOf_append, hsizes, hblocks, hsizes', hblocks']
        simp only [servedBy, obtainedBy, he', Option.elim_some, Option.map_some]
        trivial
      | built he hm h =>
        obtain ⟨ss', hs, ps', hp, hd⟩ := h
        have hb' := hd.booked hb hS.store hpack
        refine ⟨_, _, hb', fun w hn => ?_⟩
        obtain ⟨hsizes, hblocks⟩ := hag w (hnamed w hn)
        -- The new arena, if there is one, has not been made by a call.
        have hnew : w = .arena (play past).store.arenas.length →
            ¬ w.Exists ((play past).begin ctx c).2.store := by
          rintro rfl hl
          have ha := hn _ rfl hl
          rw [arenasMade, Move.arenasMade, hm, List.nil_append] at ha
          exact Nat.lt_irrefl _ (play_arenasMade hpack.toSeparate hpast _ ha)
        have hss : Supply.sizesOf w ss' = [] := Supply.sizesOf_eq_nil fun x hx hxw =>
          hnew (hxw.symm.trans (hs x hx)) (hxw ▸ hb'.sources x (List.mem_append_left _ hx))
        have hps : Purchase.blocksOf w ps' = [] := Purchase.blocksOf_eq_nil fun p hm hpw =>
          hnew (hpw.symm.trans (hp p hm)) (hpw ▸ hb'.buyers p (List.mem_append_left _ hm))
        rw [Supply.sizesOf_append, Purchase.blocksOf_append, hss, hps, (hidle he w).1,
          (hidle he w).2]
        exact ⟨hsizes, hblocks⟩
      | made he h =>
        refine ⟨_, _, h.booked hb hS.store hpack, fun w hn => ?_⟩
        rw [(hidle he w).1, (hidle he w).2]
        exact hag w (hnamed w hn)
      | quiet he h =>
        refine ⟨ss, ps, hb.quiet h, fun w hn => ?_⟩
        rw [(hidle he w).1, (hidle he w).2]
        exact hag w (hnamed w hn)

/-- The books of an arena that a call has made are kept. -/
theorem play_books (hpack : system.Packs) {past : List Move} (hw : ∀ m ∈ past, m.Within system) :
    ∀ a ∈ arenasMade past, ((play past).store.arena a).Books (servedBy past (.arena a))
      (obtainedBy past (.arena a)) := by
  obtain ⟨ss, ps, hb, hag⟩ := play_booked hpack hw
  intro a ha
  have hn : (Allocator.arena a).Named past := fun b he _ => Allocator.arena.inj he ▸ ha
  obtain ⟨hsizes, hblocks⟩ := hag _ hn
  rw [← hsizes, ← hblocks]
  exact hb.arenas a (play_arenasMade hpack.toSeparate hw a ha)

/-- After every move of a run the counters of an arena tell what it served and what it obtained, and
the blocks of a scope that is alive are those that were placed for it directly and those of the
arenas over it. -/
theorem play_accounts (hlaw : system.Lawful) {past : List Move}
    (hw : ∀ m ∈ past, m.Within system) :
    (∀ a ∈ arenasMade past, ((play past).store.arena a).Accounts (servedBy past (.arena a))
      (obtainedBy past (.arena a))) ∧
    ∀ s, (play past).store.IsAlive s →
      ((play past).store.scope s).blockCount = (servedBy past (.direct s)).length +
        total (Arena.blocksIn s) (play past).store.arenas ∧
      ((play past).store.scope s).memoryBytes.toNat =
        total UInt64.toNat (servedBy past (.direct s)) +
          total (Arena.bytesIn s) (play past).store.arenas := by
  obtain ⟨ss, ps, hb, hag⟩ := play_booked hlaw.packs hw
  have hS : (play past).Sound system False _ := play_sound hlaw.separate hw False.elim
  refine ⟨fun a ha => (play_books hlaw.packs hw a ha).toAccounts, fun s hs => ?_⟩
  · have hn : (Allocator.direct s).Named past := nofun
    have hbytes := hS.store.bytes_lt hlaw.packs (Store.lt_length_of_isAlive hs)
    rw [← (hag _ hn).1, Scope.toNat_memoryBytes hbytes]
    exact ⟨hb.count s hs, hb.bytes s hs⟩

/-- A scope with a bounded arena that is asked for too much, an unbounded one that gets a second
and a dedicated block, and blocks of its own. -/
def servingCalls : List (Thread × Call) :=
  [(0, .scope (.create .shared "s")),
    (0, .allocation (.arena "s" (.bounded 64) {} .confined "a")),
    (0, .allocation (.arena "s" (.unbounded 32) {} .shared "b")),
    (1, .allocation (.allocate (.raw 80 8) "a" none)),
    (1, .allocation (.allocate (.raw 24 8) "a" none)),
    (1, .allocation (.allocateParallel "b" 20 4 2 1)),
    (1, .allocation (.allocate (.raw 100 1) "b" none)),
    (1, .allocation (.allocate (.layout .cInt) "s" none)),
    (1, .scope (.allocateNative 7 1 "s" none))]

theorem servingCalls_accounts :
    (∀ m ∈ movesOf TwinHeaps.system servingCalls, m.Within TwinHeaps.system) ∧
    ((play (movesOf TwinHeaps.system servingCalls)).store.arena 0).Accounts [24]
      [⟨0x20000010, 64⟩] ∧
    ((play (movesOf TwinHeaps.system servingCalls)).store.arena 1).Accounts [100, 20, 20]
      [⟨0x20000090, 100⟩, ⟨0x20000070, 32⟩, ⟨0x20000050, 32⟩] ∧
    ((play (movesOf TwinHeaps.system servingCalls)).store.scope 1).blockCount = 2 + (1 + 3) ∧
    ((play (movesOf TwinHeaps.system servingCalls)).store.scope 1).memoryBytes.toNat =
      (7 + 4) + (64 + 164) := by
  have hw := within_movesOf TwinHeaps.system servingCalls
  obtain ⟨harenas, hscopes⟩ := play_accounts TwinHeaps.lawful hw
  have hmade : arenasMade (movesOf TwinHeaps.system servingCalls) = [1, 0] := by decide +kernel
  have halive : (play (movesOf TwinHeaps.system servingCalls)).store.IsAlive 1 := by
    decide +kernel
  have hserved : servedBy (movesOf TwinHeaps.system servingCalls) (.arena 0) = [24] ∧
      servedBy (movesOf TwinHeaps.system servingCalls) (.arena 1) = [100, 20, 20] ∧
      servedBy (movesOf TwinHeaps.system servingCalls) (.direct 1) = [7, 4] := by decide +kernel
  have hobtained : obtainedBy (movesOf TwinHeaps.system servingCalls) (.arena 0) =
        [⟨0x20000010, 64⟩] ∧
      obtainedBy (movesOf TwinHeaps.system servingCalls) (.arena 1) =
        [⟨0x20000090, 100⟩, ⟨0x20000070, 32⟩, ⟨0x20000050, 32⟩] := by decide +kernel
  have hcounted : total (Arena.blocksIn 1)
        (play (movesOf TwinHeaps.system servingCalls)).store.arenas = 1 + 3 ∧
      total (Arena.bytesIn 1) (play (movesOf TwinHeaps.system servingCalls)).store.arenas =
        64 + 164 := by decide +kernel
  obtain ⟨hcount, hbytes⟩ := hscopes 1 halive
  have h0 := harenas 0 (by rw [hmade]; decide)
  have h1 := harenas 1 (by rw [hmade]; decide)
  rw [hserved.1, hobtained.1] at h0
  rw [hserved.2.1, hobtained.2] at h1
  rw [hserved.2.2, hcounted.1] at hcount
  rw [hserved.2.2, hcounted.2] at hbytes
  exact ⟨hw, h0, h1, hcount, hbytes⟩

end ScopedMemory
