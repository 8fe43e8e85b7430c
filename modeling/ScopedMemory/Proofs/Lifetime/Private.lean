import ScopedMemory.Proofs.Lifetime.Ended
import ScopedMemory.Proofs.Lifetime.Skip
import ScopedMemory.Proofs.Refusal.Calls

namespace ScopedMemory

open Operation

variable {ctx : Context} {σ τ : Store} {size align : Word} {r : Region} {kind : ScopeKind}

/-! ### Regions with a scope of their own -/

/-- The region has the size that was asked for, and a new scope that has its block and no other. -/
def Store.Bears (σ : Store) (size : Word) (r : Region) (τ : Store) : Prop :=
  r.scope = σ.scopes.length ∧ r.size = size ∧ ∃ kind creator, kind ≠ .global ∧
    τ.scope r.scope = ⟨kind, creator, .live 0, [⟨r.start, size⟩], []⟩

namespace Allocator

theorem bears_allocate (kind : ScopeKind) (size align : Word) :
    ((perRequest kind).allocate size align).Leads ctx σ (σ.Bears size) fun _ => True := by
  refine (leads_require (P := fun _ τ => σ = τ) (fun _ _ => rfl) trivial).bind ?_
  rintro _ _ rfl
  have hne : (if kind = .global then .implicit else kind) ≠ ScopeKind.global := by
    split
    next => exact ScopeKind.noConfusion
    next hk => exact hk
  refine (ScopeId.leads_create _).chain (fun _ h => h.elim) fun s τ h => ?_
  obtain ⟨hg, _⟩ | ⟨_, rfl, rfl⟩ := h
  · exact absurd hg hne
  refine (ScopeId.leads_allocateNative _ size align).imp (fun r ρ h => ?_) fun _ _ => trivial
  obtain ⟨_, _, _, hr, rfl⟩ := h
  have hscope : r.scope = σ.scopes.length := congrArg Region.scope hr
  refine ⟨hscope, congrArg Region.size hr, _, ctx.caller, hne, ?_⟩
  rw [hscope, Store.scope_addBlock, if_pos ⟨rfl, by simp⟩, Store.scope_addScope, if_pos rfl]

theorem bears_serve {q : AllocationRequest} (hd : q.dimensions = .ok (size, align)) :
    ((perRequest kind).serve q).Leads ctx σ (σ.Bears size) fun _ => True := by
  refine leads_serve_of_allocate trivial (fun _ _ _ => trivial) (fun _ _ _ h => h) ?_
  intro size' align' hd'
  cases hd.symm.trans hd'
  exact bears_allocate kind size align

end Allocator

theorem VariadicList.bears_readSegment {v : VariadicList} (l : Layout) :
    (v.readSegment l (.perRequest kind)).Leads ctx σ
      (fun p τ => σ.Bears l.size p.1 τ ∧ v.Advanced p.2) fun _ => True := by
  refine leads_readSlot trivial (fun c hc hsp => ?_) fun _ _ _ => trivial
  refine (leads_structSource l c _).chain (fun _ _ => trivial) fun src τ h => ?_
  subst h
  refine (Allocator.bears_allocate kind l.size l.align).bind fun copy ρ h => ?_
  refine Region.leads_copyFrom.chain (fun _ _ => trivial) fun _ ρ' h' => ?_
  obtain ⟨_, _, rfl⟩ := h'
  exact leads_pure h

/-! ### Nothing has power over a new scope -/

theorem Allocator.scopes_of_commands {w : Allocator} {s : ScopeId} (h : s ∈ w.commands σ) :
    s ∈ Handle.allocatorScopes σ w := by
  cases w with
  | perRequest | recycling => cases h
  | _ => exact h

theorem Handle.scopes_of_commands {h : Handle} {s : ScopeId} (hs : s ∈ h.commands σ) :
    s ∈ h.scopes σ := by
  cases h with
  | region => cases hs
  | allocator w => exact w.scopes_of_commands hs
  | builder b => exact List.mem_cons.mpr (Or.inl (List.mem_singleton.mp hs))
  | _ => exact hs

theorem CloseAction.target?_of_command? {a : CloseAction} {s : ScopeId}
    (h : a.command? = some s) : a.target? = some s := by
  cases a with
  | say | fill | hold => cases h
  | _ => exact h

theorem Chore.Followed.letGo_of_unguard {chores : List Chore} {s : ScopeId}
    (h : Followed chores) (hs : .unguard s ∈ chores) : .letGo s ∈ chores := by
  induction chores with
  | nil => cases hs
  | cons c chores ih =>
    rcases List.mem_cons.mp hs with rfl | hs
    · exact List.mem_cons_of_mem _ h.1
    · exact List.mem_cons_of_mem _ (ih h.tail hs)

namespace Session

variable {S T : Session} {s : ScopeId}

/-- What has power over a scope refers to it, but for a guard on its way out, and that is followed
by something that does. -/
theorem Counted.refers_of_command (h : S.Counted) {c : Chore} (hc : c ∈ S.chores)
    (hs : c.command? = some s) : S.Refers s := by
  have htarget : ∀ c ∈ S.chores, c.target? = some s → S.Refers s := fun c hc hs =>
    refers_iff.mpr (Or.inl (Or.inr (List.mem_filterMap.mpr ⟨c, hc, hs⟩)))
  cases c with
  | perform p => exact htarget _ hc (CloseAction.target?_of_command? hs)
  | unguard t =>
    cases hs
    exact htarget _ (h.followed.letGo_of_unguard hc) rfl
  | _ => cases hs

/-- The next scope that is made is one that nothing has power over. -/
theorem Aside.born (ha : S.Aside fun _ => False) (hS : S.Tidied) (hc : S.Counted)
    (hτ : S.store.Avoids (fun _ => False) τ) (hl : S.store.scopes.length < τ.scopes.length) :
    Aside (· = S.store.scopes.length) { S with store := τ } := by
  have hT := (ha.skips_store hτ).aside
  have hne : ∀ s, S.Refers s → s ≠ S.store.scopes.length := fun s hs =>
    Nat.ne_of_lt (hS.held s hs).1
  refine ⟨fun s hs => ?_, fun p hp => ⟨fun s hs => ?_, (hT.handles p hp).arena,
    (hT.handles p hp).list⟩, fun t p hp s hs => ?_, fun c hm s hs => ?_, hT.emptied⟩
  · rw [hs]
    exact ⟨Nat.ne_of_gt (hS.eternal 0 hS.global).holds.1, hl⟩
  · rw [Handle.commands_keeps (ha.handles p hp).arena hτ.toKeeps] at hs
    refine hne s (refers_iff.mpr (Or.inl (Or.inl (mem_roots.mpr ⟨p, hp, ?_⟩))))
    exact Handle.scopes_of_commands hs
  · rw [hτ.actions] at hp
    exact hne s (refers_iff.mpr (Or.inr (Or.inl ⟨t, p, hp, CloseAction.target?_of_command? hs⟩)))
  · exact hne s (hc.refers_of_command hm hs)

end Session

/-- With this move a region of the size is allocated under a scope of its own. -/
inductive Move.Mallocs (S : Session) : Move → Region → Word → Prop
  | allocate {ctx request allocator name? kind size align r τ}
    (hw : S.allocator? allocator = some (.perRequest kind))
    (hd : request.dimensions = .ok (size, align))
    (hr : ((Allocator.perRequest kind).serve request).run ctx S.store = .ok r τ) :
    Mallocs S (.call ctx (.allocation (.allocate request allocator name?))) r size
  | readSegment {ctx layout list allocator name? v kind r rest τ}
    (hv : S.list? list = some v) (hw : S.allocator? allocator = some (.perRequest kind))
    (hr : (v.readSegment layout (.perRequest kind)).run ctx S.store = .ok (r, rest) τ) :
    Mallocs S (.call ctx (.variadic (.readSegment layout list allocator name?))) r layout.size

section mallocs

variable {S : Session} {m : Move}

theorem Session.skips_begin {shun : ScopeId → Prop} {U : Session} {c : Call} {x : Turn Reply}
    (hrun : c.perform.run ctx S = x.run ctx U) (hx : x.Skips shun ctx U fun _ _ => True) :
    U.Skips shun (S.begin ctx c).2 := by
  have hleads : x.Leads ctx U (fun _ T => U.Skips shun T ∧ True) (U.Skips shun) := hx
  unfold begin
  rw [hrun]
  cases hr : x.run ctx U with
  | ok reply T => exact (hleads.ok hr).1.trans ((hleads.ok hr).1.aside.release _)
  | error e T => exact (hleads.error hr).trans ((hleads.error hr).aside.release _)

theorem Move.Mallocs.scope (h : m.Mallocs S r size) : r.scope = S.store.scopes.length := by
  cases h with
  | allocate hw hd hr => exact ((Allocator.bears_serve hd).ok hr).1
  | readSegment hv hw hr => exact ((VariadicList.bears_readSegment _).ok hr).1.1

/-- Once the region is there, the rest of the move leaves its scope as it is. -/
theorem Move.Mallocs.skips (h : m.Mallocs S r size) (hS : S.Tidied) (hc : S.Counted)
    (ha : S.Aside fun _ => False) :
    ∃ τ, S.store.Bears size r τ ∧
      Session.Skips (· = r.scope) { S with store := τ } (S.move m) := by
  have hborn : ∀ {τ r}, S.store.Avoids (fun _ => False) τ → S.store.Bears size r τ →
      Session.Aside (· = r.scope) { S with store := τ } := by
    intro τ r hτ hb
    obtain ⟨hs, _, kind, creator, _, he⟩ := hb
    rw [hs]
    refine ha.born hS hc hτ (Store.lt_length_of_isAlive ?_)
    rw [← hs, Scope.isAlive, he]
  cases h with
  | @allocate ctx request allocator name? kind size align r τ hw hd hr =>
    have hbears := (Allocator.bears_serve hd).ok hr
    have havoids := (Allocator.avoids_serve ha.known (ha.of_allocator? hw) request).ok hr
    refine ⟨τ, hbears, ?_⟩
    refine Session.skips_begin (x := Turn.keepRegion name? false r) ?_
      (Turn.skips_keepRegion (hborn havoids.1 hbears) name? false r)
    exact (Turn.run_bind_find hw _).trans (Turn.run_bind_lift hr _)
  | @readSegment ctx layout list allocator name? v kind r rest τ hv hw hr =>
    obtain ⟨hbears, hadv⟩ := (VariadicList.bears_readSegment layout).ok hr
    have havoids := (VariadicList.avoids_readSegment ha.known (ha.of_allocator? hw) layout).ok hr
    have hlist : ¬ v.scope = r.scope ∧ v.IsHome := by
      refine ⟨fun he => ?_, (ha.of_list? hv).2⟩
      have hlt := (hS.rooted.of_list? hv).1
      rw [he, hbears.1] at hlt
      exact Nat.lt_irrefl _ hlt
    refine ⟨τ, hbears, ?_⟩
    refine Session.skips_begin ?_
      (Turn.skips_copied (hborn havoids.1 hbears) list name? hlist hadv r)
    refine (Turn.run_bind_claim hv _).trans ((Turn.run_bind_find hw _).trans ?_)
    exact Turn.run_bind_lift hr _

/-- With the move a scope comes to be that nothing has power over. -/
theorem Move.Mallocs.born {past : List Move} (h : m.Mallocs (play past) r size) :
    r.scope = (play past).store.scopes.length ∧ r.size = size ∧
      (play (m :: past)).Aside (· = r.scope) ∧ ∃ kind creator, kind ≠ .global ∧
        (play (m :: past)).store.scope r.scope =
          ⟨kind, creator, .live 0, [⟨r.start, size⟩], []⟩ := by
  obtain ⟨τ, ⟨hs, hsize, kind, creator, hk, he⟩, hskips⟩ :=
    h.skips (play_tidied past) (play_counted past) (play_aside past)
  exact ⟨hs, hsize, hskips.aside, kind, creator, hk, (hskips.scope _ rfl).trans he⟩

end mallocs

/-! ### Scopes of one region -/

/-- The action holds a clone of a region or of a scope, and does nothing to the scope but to write
to a region of it. -/
def CloseAction.Clones (a : CloseAction) (s : ScopeId) : Prop :=
  (∃ label, a = .hold label s) ∨ ∃ label r, a = .fill label r ∧ r.scope = s

/-- The scope has one block as long as anything refers to it, and nothing but regions and clones of
them refers to it. -/
structure Session.Private (S : Session) (s : ScopeId) (b : Block) : Prop where
  alive : S.store.IsAlive s ↔ S.Refers s
  blocks : (S.store.scope s).blocks = if S.store.IsAlive s then [b] else []
  unclosed : (S.store.scope s).lifetime ≠ .closed
  unclosable : ∀ m : Move, ¬ m.Closes S s
  kind : (S.store.scope s).kind ≠ .global
  handles : ∀ p ∈ S.handles, s ∈ p.2.scopes S.store → ∃ r ∈ p.2.regions, r.scope = s
  pending : ∀ p : PendingAction, ((∃ t, p ∈ (S.store.scope t).actions) ∨ .perform p ∈ S.chores) →
    p.action.target? = some s → p.action.Clones s
  /-- No other region is ever allocated under the scope. -/
  apart : ∀ (m : Move) (r : Region) (size : Word), m.Mallocs S r size → r.scope ≠ s

theorem CloseAction.clones_of_target? {a : CloseAction} {s : ScopeId} (ht : a.target? = some s)
    (hc : a.command? ≠ some s) : a.Clones s := by
  cases a with
  | say => cases ht
  | fill label r =>
    cases ht
    exact Or.inr ⟨label, r, rfl, rfl⟩
  | hold label u =>
    cases ht
    exact Or.inl ⟨label, rfl⟩
  | _ => exact absurd ht hc

/-- A handle that has no power over a scope refers to it by a region. -/
theorem Handle.region_of_scopes {h : Handle} {s : ScopeId} (hs : s ∈ h.scopes σ)
    (hc : s ∉ h.commands σ) : ∃ r ∈ h.regions, r.scope = s := by
  cases h with
  | region r adopted => exact ⟨r, List.mem_singleton.mpr rfl, (List.mem_singleton.mp hs).symm⟩
  | allocator w =>
    cases w with
    | perRequest => cases hs
    | recycling r => exact ⟨r, List.mem_singleton.mpr rfl, (List.mem_singleton.mp hs).symm⟩
    | _ => exact absurd hs hc
  | builder b =>
    rcases List.mem_cons.mp hs with rfl | hs
    · exact absurd (List.mem_singleton.mpr rfl) hc
    · obtain ⟨r, hr, rfl⟩ := List.mem_map.mp hs
      exact ⟨r, hr, rfl⟩
  | _ => exact absurd hs hc

section lonely

variable {S : Session} {s : ScopeId} {b : Block}

/-- Nothing has power over the scope, and it is as it was made or reclaimed. -/
structure Session.Lonely (S : Session) (s : ScopeId) (b : Block) : Prop where
  aside : S.Aside (· = s)
  scope : ∃ kind creator, kind ≠ .global ∧
    (S.store.scope s = ⟨kind, creator, .live 0, [b], []⟩ ∨
      S.store.scope s = ⟨kind, creator, .reclaimed, [], []⟩)

theorem Session.Lonely.spares {T : Session} (h : S.Lonely s b) (hT : S.Spares (· = s) T) :
    T.Lonely s b := by
  obtain ⟨kind, creator, hk, hs⟩ := h.scope
  refine ⟨hT.aside, kind, creator, hk, ?_⟩
  rcases hT.scope s rfl with he | ⟨ha, he⟩
  · rw [he]
    exact hs
  · right
    have hlive : S.store.scope s = ⟨kind, creator, .live 0, [b], []⟩ := by
      refine hs.resolve_right fun hr => ?_
      rw [Store.IsAlive, Scope.isAlive, hr] at ha
      cases ha
    rw [he, Store.scope_endScope_of_isAlive ha, if_pos rfl, hlive]

theorem play_lonely {past : List Move} (h : (play past).Lonely s b) (later : List Move) :
    (play (later ++ past)).Lonely s b := by
  induction later with
  | nil => exact h
  | cons m later ih =>
    cases m with
    | call ctx c => exact ih.spares (ih.aside.begin ctx c).spares
    | chore ctx => exact ih.spares (ih.aside.advance ctx)

theorem Session.Lonely.private (h : S.Lonely s b) (hS : S.Tidied) : S.Private s b := by
  obtain ⟨kind, creator, hk, hs⟩ := h.scope
  refine ⟨⟨fun ha => hS.kept s (Store.lt_length_of_isAlive ha) ha, fun hr => ?_⟩, ?_, ?_,
    fun m hm => ?_, ?_, fun p hp hps => ?_, fun p hp ht => ?_, fun m r size hm => ?_⟩
  · have hheld := (hS.held s hr).2
    rcases hs with hs | hs
    · rw [Store.IsAlive, Scope.isAlive, hs]
    · rw [hs] at hheld
      exact absurd rfl hheld
  · rcases hs with hs | hs <;> simp [Store.IsAlive, Scope.isAlive, hs]
  · rcases hs with hs | hs <;> rw [hs] <;> simp
  · cases hm with
    | call hn _ => exact h.aside.of_scope? hn rfl
    | chore hc _ => exact h.aside.chores _ (hc ▸ List.mem_cons_self) s rfl rfl
  · rcases hs with hs | hs <;> rw [hs] <;> exact hk
  · exact Handle.region_of_scopes hps fun hc => (h.aside.handles p hp).commands s hc rfl
  · refine CloseAction.clones_of_target? ht fun hc => ?_
    rcases hp with ⟨t, hp⟩ | hp
    · exact h.aside.actions t p hp s hc rfl
    · exact h.aside.chores _ hp s hc rfl
  · rw [hm.scope]
    exact Nat.ne_of_gt (h.aside.known s rfl).2

end lonely
end ScopedMemory
