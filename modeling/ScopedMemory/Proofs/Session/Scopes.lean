import ScopedMemory.Proofs.Scope.Lookup
import ScopedMemory.Proofs.Session.Calls

namespace ScopedMemory

open Turn

variable {system : SystemAllocator} {strict : Prop} {G : List Region} {S : Session}
  {ctx : Context}

/-- However the turn ends, the session comes after `S` with these grants. -/
def Turn.Safe {α : Type} (system : SystemAllocator) (strict : Prop) (G : List Region)
    (gs : List Grant) (ctx : Context) (S : Session) (x : Turn α) : Prop :=
  x.Leads ctx S (fun _ T => S.Comes system strict G gs T) (S.Comes system strict G gs)

/-- An operation that hands out a region, with what else is known of its outcome. -/
theorem Turn.leads_granting {α : Type} {writes : Prop} (hsep : system.Separate)
    (h : S.Sound system strict G) {x : Operation α} {g : α → Region} {size align : Word}
    {E : α → Store → Prop}
    (hx : x.Leads ctx S.store
      (fun a τ => S.store.Changes system writes [g a] τ ∧
        Grant.Met ⟨g a, size, align⟩ system τ ∧ E a τ)
      fun τ => ∃ rs, S.store.Changes system writes rs τ) :
    (lift x).Leads ctx S
      (fun a T => S.Comes system strict G
          ((x.value? ctx S.store).toList.map fun a => ⟨g a, size, align⟩) T ∧
        T.handles = S.handles ∧ (g a).Inside T.store ∧ T.store.IsAlive (g a).scope ∧
        E a T.store)
      (S.Comes system strict G
        ((x.value? ctx S.store).toList.map fun a => ⟨g a, size, align⟩)) := by
  refine (leads_lift hx.value).imp (fun a T hT => ?_) fun T hT => ?_
  · obtain ⟨τ, ⟨hv, hc, hm, he⟩, hT⟩ := hT
    subst hT
    rw [hv]
    have hcomes : S.Comes system strict G [⟨g a, size, align⟩] { S with store := τ } :=
      .granted h hsep hc rfl fun _ hg => List.mem_singleton.mp hg ▸ hm
    refine ⟨hcomes, rfl, hcomes.sound.ledger.inside _ ?_, hm.alive, he⟩
    exact List.mem_append_right _ (List.mem_singleton.mpr rfl)
  · obtain ⟨τ, ⟨hv, rs, hc⟩, hT⟩ := hT
    subst hT
    rw [hv]
    exact .changes h hsep hc

/-- An operation that only writes to memory, if that. -/
theorem Turn.leads_writing {α : Type} (hsep : system.Separate) (h : S.Sound system strict G)
    {x : Operation α}
    (hx : x.Leads ctx S.store (fun _ τ => ∃ m, τ = S.store.setMemory m) (· = S.store)) :
    (lift x).Leads ctx S (fun _ T => S.Comes system strict G [] T)
      (S.Comes system strict G []) := by
  refine (leads_lift hx).imp (fun a T hT => ?_) fun T hT => ?_
  · obtain ⟨τ, ⟨m, rfl⟩, rfl⟩ := hT
    exact .memory h hsep m
  · obtain ⟨τ, rfl, rfl⟩ := hT
    exact .refl h

theorem HandleCall.safe (h : S.Sound system strict G) (c : HandleCall) :
    c.perform.Safe system strict G [] ctx S := by
  cases c with
  | info name =>
    refine leads_find.chain (fun _ hT => .of_eq h hT) ?_
    intro hd T hT
    refine (leads_get (P := fun _ T => T = S) hT.2).bind fun _ T hT => ?_
    refine (leads_read (P := fun _ T => T = S) hT).bind fun _ T hT => ?_
    exact leads_pure (.of_eq h hT)
  | drop name =>
    refine leads_bind_find (.refl h) fun hd hn => ?_
    refine leads_forget.chain (fun _ hf => hf.elim) fun _ T hT => ?_
    subst hT
    refine leads_discard.chain (fun _ hf => hf.elim) fun _ T hT => ?_
    subst hT
    exact leads_pure ((Session.Comes.refl h).handles rfl
      (((Session.Comes.refl h).sound.erase name).discard (h.find hn)))
  | clone name copy =>
    refine leads_bind_find (.refl h) fun hd hn => ?_
    have hd' := h.find (Option.filter_eq_some_iff.mp hn).1
    refine leads_rename.chain (fun _ hf => hf.elim) fun _ T hT => ?_
    subst hT
    exact leads_pure ((Session.Comes.refl h).renamed copy hd')
  | describe name =>
    exact leads_bind_find (.refl h) fun hd _ => leads_pure (.refl h)
  | misuse name =>
    refine leads_lose.chain (fun _ hf => hf.elim) fun _ T hT => ?_
    subst hT
    exact leads_throw ((Session.Comes.refl h).lost name)

theorem ActionPlan.leads_resolve (h : S.Sound system strict G) (plan : ActionPlan)
    (label : String) :
    (plan.resolve label).Leads ctx S (fun a T => T = S ∧ a.Sound S.store strict) (· = S) := by
  have hscope : ∀ (f : ScopeId → CloseAction) (target : Name),
      (∀ s, (f s).target? = some s ∧ (f s).region? = none) →
      (do return f (← find Session.scope? target) : Turn CloseAction).Leads ctx S
        (fun a T => T = S ∧ a.Sound S.store strict) (· = S) := by
    intro f target hf
    refine leads_find.bind fun s T hT => leads_pure ⟨hT.2, fun u hu => ?_, fun _ r hr => ?_⟩
    · rw [(hf s).1] at hu
      cases hu
      exact h.of_scope? hT.1
    · rw [(hf s).2] at hr
      cases hr
  cases plan with
  | say => exact leads_pure ⟨rfl, .say label⟩
  | probe target => exact hscope (.probe label) target fun _ => ⟨rfl, rfl⟩
  | close target => exact hscope (.close label) target fun _ => ⟨rfl, rfl⟩
  | extend target => exact hscope (.extend label) target fun _ => ⟨rfl, rfl⟩
  | fill target =>
    refine leads_find.bind fun p T hT => ?_
    obtain ⟨r, adopted⟩ := p
    obtain ⟨hh, hi⟩ := h.of_region? hT.1
    refine leads_pure ⟨hT.2, fun u hu => ?_, fun hstrict r' hr => ?_⟩
    · cases hu
      exact hh
    · cases hr
      exact hi hstrict
  | hold target =>
    refine leads_find.bind fun s T hT => leads_pure ⟨hT.2, fun u hu => ?_, fun _ r hr => ?_⟩
    · cases hu
      rcases Option.or_eq_some_iff.mp hT.1 with hs | ⟨_, hs⟩
      · exact h.of_scope? hs
      · obtain ⟨p, hp, rfl⟩ := Option.map_eq_some_iff.mp hs
        exact (h.of_region? hp).1
    · cases hr

namespace ScopeCall

theorem safe_create (hsep : system.Separate) (h : S.Sound system strict G) (kind : ScopeKind)
    (name : Name) : (create kind name).perform.Safe system strict G [] ctx S := by
  refine (leads_lift (ScopeId.leads_create kind)).chain (fun _ hT => ?_) fun s T hT => ?_
  · obtain ⟨_, hf, _⟩ := hT
    exact hf.elim
  obtain ⟨τ, hc, rfl⟩ := hT
  have hcomes : S.Comes system strict G [] { S with store := τ } ∧ τ.Holds s := by
    rcases hc with ⟨_, rfl, rfl⟩ | ⟨_, rfl, rfl⟩
    · exact ⟨.refl h, h.store.eternal.2.holds⟩
    · have hch : S.store.Changes system False [] _ :=
        (Store.Change.scope S.store kind ctx.caller).changes
      refine ⟨.changes h hsep hch, Store.IsAlive.holds ?_⟩
      rw [Store.IsAlive, Store.scope_addScope, if_pos rfl]
      rfl
  refine (leads_get (P := fun _ T => T = { S with store := τ }) rfl).bind fun _ T hT => ?_
  refine (leads_read (P := fun _ T => T = { S with store := τ }) hT).bind fun _ T hT => ?_
  subst hT
  refine leads_rename.chain (fun _ hf => hf.elim) fun _ T hT => ?_
  subst hT
  exact leads_pure (hcomes.1.renamed name (Handle.sound_scope hcomes.2))

theorem safe_close (h : S.Sound system strict G) (scope : Name) :
    (close scope).perform.Safe system strict G [] ctx S := by
  refine leads_bind_find (.refl h) fun s hn => ?_
  refine (leads_lift (ScopeId.leads_close s)).chain (fun _ hT => .of_same h hT) ?_
  intro held T' hT
  obtain ⟨τ, ⟨_, hg, hlive, rfl, rfl⟩, rfl⟩ := hT
  refine leads_leave.chain (fun _ hf => hf.elim) fun _ T' hT' => ?_
  subst hT'
  have halive : S.store.IsAlive s := by
    rw [Store.IsAlive, Scope.isAlive, hlive]
  have hu := CloseAction.Unfolds.close h.store hg halive
  refine leads_pure (.of_follows (h.next ?_ hu.later hu.spares rfl fun c hc => ?_) hu.spares)
  · rw [List.flatMap_append]
    exact hu.sound.perm List.perm_append_comm
  · rcases List.mem_append.mp hc with hc | hc
    · exact (h.chores c hc).later hu.later hu.spares
    · exact hu.chores c hc

theorem safe_addAction (h : S.Sound system strict G) (scope : Name) (label : String)
    (plan : ActionPlan) : (addAction scope label plan).perform.Safe system strict G [] ctx S := by
  refine leads_bind_find (.refl h) fun s hn => ?_
  refine (ActionPlan.leads_resolve h plan label).chain (fun _ hT => .of_eq h hT) ?_
  intro a T hT
  obtain ⟨rfl, ha⟩ := hT
  refine (leads_lift (ScopeId.leads_addAction s a)).chain (fun _ hT => .of_same h hT) ?_
  intro _ T' hT
  obtain ⟨τ, ⟨hu, rfl⟩, rfl⟩ := hT
  exact leads_pure (.setStore h (h.store.addAction (Store.checkUsable_eq_ok_iff.mp hu).2 ha)
    (Store.later_addAction _ s a) (Store.spares_addAction _ s a) rfl)

theorem safe_acquire (h : S.Sound system strict G) (scope name : Name) :
    (acquire scope name).perform.Safe system strict G [] ctx S := by
  refine leads_bind_find (.refl h) fun s hn => ?_
  refine (leads_lift (ScopeId.leads_acquire s)).chain (fun _ hT => .of_same h hT) ?_
  intro _ T' hT
  obtain ⟨τ, ⟨hu, rfl⟩, rfl⟩ := hT
  have ha := (Store.checkUsable_eq_ok_iff.mp hu).2
  have hl := Store.later_setLive S.store (S.store.guards s + 1) ha
  have hsp : S.store.Spares (S.store.pin s) := Store.spares_setLive S.store _
  have hc : S.Comes system strict G [] { S with store := S.store.pin s } :=
    .setStore h (h.store.setLive _ ha) hl hsp rfl
  refine leads_rename.chain (fun _ hf => hf.elim) fun _ T' hT => ?_
  subst hT
  exact leads_pure (hc.renamed name (Handle.sound_guard ((Store.IsAlive.holds ha).later hl hsp)))

theorem safe_allocateNative (hsep : system.Separate) (h : S.Sound system strict G)
    (hw : ctx.system.Within system) (size align : Word) (scope : Name) (name? : Option Name) :
    (allocateNative size align scope name?).perform.Safe system strict G
      (grants ctx S (.allocateNative size align scope name?)) ctx S := by
  refine leads_lookup.chain (fun T hT => ?_) fun s T hT => ?_
  · have hg : ScopeCall.grants ctx S (.allocateNative size align scope name?) = [] := by
      simp only [ScopeCall.grants, hT.1]
    rw [hg]
    exact .of_eq h hT.2
  obtain ⟨hn, rfl⟩ := hT
  have hg : ScopeCall.grants ctx T (.allocateNative size align scope name?) =
      ((s.allocateNative size align).value? ctx T.store).toList.map (⟨·, size, align⟩) := by
    simp only [ScopeCall.grants, hn]
  rw [hg]
  have hx := ScopeId.serves_allocateNative h.store hw s size align
  refine (leads_granting (g := id) (E := fun _ _ => True) hsep h (hx.imp
    (fun r τ hr => ⟨hr.1, ⟨hr.2.size, hr.2.align, ?_⟩, trivial⟩) fun τ hτ => ⟨[], hτ⟩)).bind ?_
  · exact (Store.checkUsable_eq_ok_iff.mp hr.2.usable).2
  intro r T' hT
  obtain ⟨hc, _, hi, ha, _⟩ := hT
  refine leads_keepRegion.imp (fun _ U hU => ?_) fun _ hf => hf.elim
  rw [hU.2]
  exact hc.kept name? (Handle.sound_region (Store.IsAlive.holds ha) fun _ => hi)

theorem safe_resolve (h : S.Sound system strict G) (start length : Word) (scope : Name)
    (name? : Option Name) :
    (resolve start length scope name?).perform.Safe system strict G [] ctx S := by
  refine leads_bind_find (.refl h) fun s hn => ?_
  refine (leads_lift (VariadicList.leads_resolve s start length)).chain
    (fun _ hT => .of_same h hT) ?_
  intro r? T' hT
  obtain ⟨τ, ⟨rfl, hr⟩, rfl⟩ := hT
  cases r? with
  | none => exact leads_pure (.refl h)
  | some r =>
    obtain ⟨hu, rfl, ho⟩ := hr r rfl
    refine leads_keepRegion.imp (fun _ T' hT => ?_) fun _ hf => hf.elim
    rw [hT.2]
    have ha := (Store.checkUsable_eq_ok_iff.mp hu).2
    exact (Session.Comes.refl h).kept name?
      (Handle.sound_region (Store.IsAlive.holds ha) fun _ => ho.inside ha)

theorem safe (hsep : system.Separate) (h : S.Sound system strict G)
    (hw : ctx.system.Within system) (c : ScopeCall) :
    c.perform.Safe system strict G (c.grants ctx S) ctx S := by
  cases c with
  | create kind name => exact safe_create hsep h kind name
  | close scope => exact safe_close h scope
  | addAction scope label plan => exact safe_addAction h scope label plan
  | acquire scope name => exact safe_acquire h scope name
  | same first second =>
    refine leads_bind_find (.refl h) fun s _ => ?_
    exact leads_bind_find (.refl h) fun t _ => leads_pure (.refl h)
  | allocateNative size align scope name? =>
    exact safe_allocateNative hsep h hw size align scope name?
  | resolve start length scope name? => exact safe_resolve h start length scope name?

end ScopeCall

end ScopedMemory
