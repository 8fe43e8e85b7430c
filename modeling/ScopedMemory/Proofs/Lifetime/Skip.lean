import ScopedMemory.Proofs.Lifetime.Aside

namespace ScopedMemory

namespace Turn

variable {shun : ScopeId → Prop} {α β : Type} {x : Turn α} {f : α → Turn β} {ctx : Context}
  {S : Session} {P : α → Session → Prop} {R : β → Session → Prop}

/-- However the turn ends, it skips what is shunned. If it is not refused, `P` holds as well. -/
def Skips (shun : ScopeId → Prop) (x : Turn α) (ctx : Context) (S : Session)
    (P : α → Session → Prop) : Prop :=
  x.Leads ctx S (fun a T => S.Skips shun T ∧ P a T) (S.Skips shun)

theorem Skips.bind (hx : x.Skips shun ctx S P)
    (hf : ∀ a T, T.Aside shun → P a T → (f a).Skips shun ctx T R) :
    (x >>= f).Skips shun ctx S R := by
  refine Leads.bind hx fun a T h => ?_
  obtain ⟨hs, hp⟩ := h
  exact (hf a T hs.aside hp).imp (fun b U h => ⟨hs.trans h.1, h.2⟩) fun U h => hs.trans h

/-- What follows does no more than to answer. -/
theorem Skips.answer {g : α → β} (hx : x.Skips shun ctx S P) :
    (do return g (← x) : Turn β).Skips shun ctx S fun _ _ => True :=
  hx.bind fun _ _ hT _ => leads_pure ⟨.refl hT, trivial⟩

theorem skips_pure (hS : S.Aside shun) {a : α} (h : P a S) :
    (pure a : Turn α).Skips shun ctx S P :=
  leads_pure ⟨.refl hS, h⟩

theorem skips_throw (hS : S.Aside shun) (e : Refusal) : (throw e : Turn α).Skips shun ctx S P :=
  leads_throw (.refl hS)

theorem skips_bind_find (hS : S.Aside shun) {lookup : Session → Name → Option α} {name : Name}
    (hf : ∀ a, lookup S name = some a → (f a).Skips shun ctx S R) :
    (find lookup name >>= f).Skips shun ctx S R :=
  leads_bind_find (.refl hS) hf

theorem skips_bind_get {f : Session → Turn β} (hf : (f S).Skips shun ctx S R) :
    ((get : Turn Session) >>= f).Skips shun ctx S R :=
  (leads_get (P := fun S' T => S' = S ∧ T = S) ⟨rfl, rfl⟩).bind fun S' T h => by
    obtain ⟨rfl, rfl⟩ := h
    exact hf

theorem skips_bind_read {f : Context → Turn β} (hf : (f ctx).Skips shun ctx S R) :
    ((read : Turn Context) >>= f).Skips shun ctx S R :=
  (leads_read (P := fun c T => c = ctx ∧ T = S) ⟨rfl, rfl⟩).bind fun c T h => by
    obtain ⟨rfl, rfl⟩ := h
    exact hf

theorem skips_lift (hS : S.Aside shun) {x : Operation α} {P : α → Store → Prop}
    (hx : x.Avoids shun ctx S.store P) :
    (lift x).Skips shun ctx S fun a T => ∃ τ, P a τ ∧ T = { S with store := τ } := by
  refine (leads_lift hx).imp (fun a T h => ?_) fun T h => ?_
  · obtain ⟨τ, ⟨ha, hp⟩, rfl⟩ := h
    exact ⟨hS.skips_store ha, τ, hp, rfl⟩
  · obtain ⟨τ, ha, rfl⟩ := h
    exact hS.skips_store ha

theorem skips_lose (hS : S.Aside shun) (name : Name) :
    (lose name).Skips shun ctx S fun _ _ => True :=
  leads_lose.imp (fun _ _ h => ⟨h ▸ hS.skips_lost name, trivial⟩) fun _ h => h.elim

theorem skips_bind_claim (hS : S.Aside shun) {lookup : Session → Name → Option α} {name : Name}
    (hf : ∀ a, lookup S name = some a → (f a).Skips shun ctx S R) :
    (claim lookup name >>= f).Skips shun ctx S R := by
  refine leads_claim.chain (fun T hT => ?_) fun a T hT => ?_
  · rw [hT.2]
    exact hS.skips_lost name
  · rw [hT.2]
    exact hf a hT.1

theorem skips_rename (hS : S.Aside shun) (name : Name) {h : Handle} (hh : h.Aside shun S.store) :
    (rename name h).Skips shun ctx S fun _ _ => True :=
  leads_rename.imp (fun _ _ hT => ⟨hT ▸ hS.skips_renamed name hh, trivial⟩) fun _ h => h.elim

theorem skips_update (hS : S.Aside shun) (name : Name) {h : Handle} (hh : h.Aside shun S.store) :
    (update name h).Skips shun ctx S fun _ _ => True :=
  leads_update.imp (fun _ _ hT => ⟨hT ▸ hS.skips_updated name hh, trivial⟩) fun _ h => h.elim

theorem skips_keep (hS : S.Aside shun) (name? : Option Name) {h : Handle}
    (hh : h.Aside shun S.store) : (keep name? h).Skips shun ctx S fun _ _ => True := by
  cases name? with
  | none =>
    refine leads_discard.imp (fun _ T hT => ⟨?_, trivial⟩) fun _ h => h.elim
    rw [hT]
    exact hS.skips_handles hS.handles (Handle.command?_dropChores hh)
  | some name => exact skips_rename hS name hh

theorem skips_keepRegion (hS : S.Aside shun) (name? : Option Name) (adopted : Bool) (r : Region) :
    (keepRegion name? adopted r).Skips shun ctx S fun _ _ => True :=
  skips_bind_get ((skips_keep hS name? (Handle.aside_region r adopted)).bind fun _ _ hT _ =>
    skips_pure hT trivial)

theorem skips_keepHandle (hS : S.Aside shun) (name : Name) {h : Handle}
    (hh : h.Aside shun S.store) : (keepHandle name h).Skips shun ctx S fun _ _ => True :=
  leads_keepHandle.imp (fun _ _ hT => ⟨hT.2 ▸ hS.skips_renamed name hh, trivial⟩) fun _ h => h.elim

theorem skips_keepList (hS : S.Aside shun) (name : Name) {v : VariadicList} (hs : ¬ shun v.scope)
    (hv : v.IsHome) : (keepList name v).Skips shun ctx S fun _ _ => True :=
  (skips_rename hS name (Handle.aside_list hs hv)).bind fun _ _ hT _ => skips_pure hT trivial

/-- An operation that gives a region, and the region kept. -/
theorem skips_provide (hS : S.Aside shun) (name? : Option Name) (adopted : Bool)
    {x : Operation Region} {P : Region → Store → Prop} (hx : x.Avoids shun ctx S.store P) :
    (do keepRegion name? adopted (← lift x) : Turn Reply).Skips shun ctx S fun _ _ => True :=
  (skips_lift hS hx).bind fun r _ hT _ => skips_keepRegion hT name? adopted r

/-- A look at memory or a change of it. -/
theorem skips_access (hS : S.Aside shun) {x : Operation α} (reply : α → Reply)
    (hx : x.Leads ctx S.store (fun _ τ => ∃ m, τ = S.store.setMemory m) (· = S.store)) :
    (do return reply (← lift x) : Turn Reply).Skips shun ctx S fun _ _ => True := by
  have ha : x.Avoids shun ctx S.store fun _ _ => True :=
    Operation.avoids_of_memory (hx.imp (fun _ _ h => ⟨trivial, h⟩) fun _ h => h)
  exact (skips_lift hS ha).answer

/-- A list that an operation makes is kept. -/
theorem skips_makeList (hS : S.Aside shun) (name : Name) {x : Operation VariadicList} {s : ScopeId}
    (hs : ¬ shun s)
    (hx : x.Avoids shun ctx S.store fun v _ => (v.scope = 0 ∨ v.scope = s) ∧ v.IsHome) :
    (do keepList name (← lift x) : Turn Reply).Skips shun ctx S fun _ _ => True := by
  refine (skips_lift hS hx).bind fun v T hT h => ?_
  obtain ⟨_, ⟨hv, hhome⟩, _⟩ := h
  refine skips_keepList hT name (fun h => ?_) hhome
  rcases hv with hv | hv
  · exact (hT.known _ h).1 hv
  · exact hs (hv ▸ h)

end Turn

open Turn

variable {shun : ScopeId → Prop} {ctx : Context} {S : Session}

theorem HandleCall.skips (hS : S.Aside shun) (c : HandleCall) :
    c.perform.Skips shun ctx S fun _ _ => True := by
  cases c with
  | info name =>
    exact skips_bind_find hS fun h _ => skips_bind_get (skips_bind_read (skips_pure hS trivial))
  | drop name =>
    refine skips_bind_find hS fun h hn => ?_
    refine leads_forget.chain (fun _ hf => hf.elim) fun _ T hT => ?_
    subst hT
    refine leads_discard.chain (fun _ hf => hf.elim) fun _ T hT => ?_
    have hlost : T = S.lost name := by
      unfold Session.handle? at hn
      unfold Session.lost
      rw [hT, hn]
    exact leads_pure ⟨hlost ▸ hS.skips_lost name, trivial⟩
  | clone name copy =>
    refine skips_bind_find hS fun h hn => ?_
    obtain ⟨hf, _⟩ := Option.filter_eq_some_iff.mp hn
    exact (skips_rename hS copy (hS.find hf)).answer (g := fun _ => Reply.done)
  | describe name => exact skips_bind_find hS fun h _ => skips_pure hS trivial
  | misuse name => exact (skips_lose hS name).bind fun _ _ hT _ => skips_throw hT _

/-- An action has no more power than the handle that its target was named by. -/
theorem ActionPlan.skips_resolve (hS : S.Aside shun) (plan : ActionPlan) (label : String) :
    (plan.resolve label).Skips shun ctx S fun a T =>
      T = S ∧ ∀ s, a.command? = some s → ¬ shun s := by
  have hscope : ∀ (f : ScopeId → CloseAction) (target : Name), (∀ s, (f s).command? = some s) →
      (do return f (← find Session.scope? target) : Turn CloseAction).Skips shun ctx S
        fun a T => T = S ∧ ∀ s, a.command? = some s → ¬ shun s := by
    intro f target hf
    refine skips_bind_find hS fun s hn => skips_pure hS ⟨rfl, fun u hu => ?_⟩
    rw [hf s] at hu
    cases hu
    exact hS.of_scope? hn
  cases plan with
  | say => exact skips_pure hS ⟨rfl, fun _ hs => nomatch hs⟩
  | probe target => exact hscope (.probe label) target fun _ => rfl
  | close target => exact hscope (.close label) target fun _ => rfl
  | extend target => exact hscope (.extend label) target fun _ => rfl
  | fill target => exact skips_bind_find hS fun p _ => skips_pure hS ⟨rfl, fun _ hs => nomatch hs⟩
  | hold target => exact skips_bind_find hS fun s _ => skips_pure hS ⟨rfl, fun _ hs => nomatch hs⟩

theorem ScopeCall.skips (hS : S.Aside shun) (c : ScopeCall) :
    c.perform.Skips shun ctx S fun _ _ => True := by
  have hfail : ∀ T, (∃ τ, τ = S.store ∧ T = { S with store := τ }) → S.Skips shun T := by
    rintro T ⟨_, rfl, rfl⟩
    exact .refl hS
  cases c with
  | create kind name =>
    refine (skips_lift hS (ScopeId.avoids_create hS.known kind)).bind fun s T hT h => ?_
    obtain ⟨τ, hs, rfl⟩ := h
    have hh : (Handle.scope s).Aside shun τ := Handle.aside_of_commands
      (fun t ht => List.mem_singleton.mp ht ▸ hs) rfl fun _ hv => nomatch hv
    exact skips_bind_get (skips_bind_read ((skips_rename hT name hh).bind fun _ _ hU _ =>
      skips_pure hU trivial))
  | close scope =>
    refine skips_bind_find hS fun s hn => ?_
    refine (leads_lift (ScopeId.leads_close s)).chain hfail fun held T hT => ?_
    obtain ⟨τ, ⟨_, _, _, rfl, rfl⟩, rfl⟩ := hT
    refine leads_leave.chain (fun _ hf => hf.elim) fun _ T hT => ?_
    have he := hS.skips_ended (hS.of_scope? hn) .closed (List.append_nil S.chores).symm
    rw [List.append_nil] at he
    exact leads_pure ⟨hT ▸ he, trivial⟩
  | addAction scope label plan =>
    refine skips_bind_find hS fun s hn => ?_
    refine (plan.skips_resolve hS label).bind fun a T hT h => ?_
    obtain ⟨rfl, ha⟩ := h
    refine (leads_lift (ScopeId.leads_addAction s a)).chain hfail fun _ T' hT' => ?_
    obtain ⟨τ, ⟨_, rfl⟩, rfl⟩ := hT'
    exact leads_pure ⟨hS.skips_accepted (hS.of_scope? hn) ha, trivial⟩
  | acquire scope name =>
    refine skips_bind_find hS fun s hn => ?_
    have hs := hS.of_scope? hn
    refine (leads_lift (ScopeId.leads_acquire s)).chain hfail fun _ T hT => ?_
    obtain ⟨τ, ⟨_, rfl⟩, rfl⟩ := hT
    have hpin := hS.skips_setLive hs (S.store.guards s + 1) hS.chores
    have hh : (Handle.guard s).Aside shun (S.store.pin s) := Handle.aside_of_commands
      (fun t ht => List.mem_singleton.mp ht ▸ hs) rfl fun _ hv => nomatch hv
    exact ((skips_rename hpin.aside name hh).bind fun _ _ hU _ => skips_pure hU trivial).imp
      (fun _ _ h => ⟨hpin.trans h.1, h.2⟩) fun _ h => hpin.trans h
  | same first second =>
    exact skips_bind_find hS fun s _ => skips_bind_find hS fun t _ => skips_pure hS trivial
  | allocateNative size align scope name? =>
    exact skips_bind_find hS fun s hn => skips_provide hS name? false
      (ScopeId.avoids_allocateNative (hS.of_scope? hn) size align)
  | resolve start length scope name? =>
    refine skips_bind_find hS fun s hn => ?_
    have ha : (s.resolve start length).Avoids shun ctx S.store fun _ _ => True :=
      Operation.avoids_of_same ((VariadicList.leads_resolve s start length).imp
        (fun _ _ h => ⟨trivial, h.1⟩) fun _ h => h)
    refine (skips_lift hS ha).bind fun r? T hT _ => ?_
    cases r? with
    | none => exact skips_pure hT trivial
    | some r => exact skips_keepRegion hT name? false r

theorem RegionCall.skips (hS : S.Aside shun) (c : RegionCall) :
    c.perform.Skips shun ctx S fun _ _ => True := by
  have hsame : ∀ τ : Store, τ = S.store → ∃ m, τ = S.store.setMemory m := fun τ hτ =>
    ⟨S.store.memory, hτ⟩
  cases c with
  | adopt start length scope name? =>
    refine skips_bind_find hS fun s _ => skips_provide (P := fun _ _ => True) hS name? true ?_
    exact Operation.avoids_of_same (Region.leads_ofAddress.imp (fun _ _ h => ⟨trivial, h.2.2⟩)
      fun _ h => h)
  | slice region offset length name? =>
    exact skips_bind_find hS fun p _ => skips_provide hS name? p.2 Region.avoids_slice
  | sliceFrom region offset name? =>
    refine skips_bind_find hS fun p _ => skips_provide (P := fun _ _ => True) hS name? p.2 ?_
    refine Operation.avoids_of_same (Region.leads_sliceFrom.imp (fun _ _ h => ⟨trivial, ?_⟩)
      fun _ h => h)
    obtain ⟨_, _, _, _, hτ⟩ := h
    exact hτ
  | belongs region scope =>
    exact skips_bind_find hS fun p _ => skips_bind_find hS fun s _ => skips_pure hS trivial
  | read length region offset =>
    refine skips_bind_find hS fun p _ => skips_access hS _ ?_
    exact Region.leads_read.imp (fun _ τ h => hsame τ h.2.2) fun _ h => h
  | write region offset bytes =>
    refine skips_bind_find hS fun p _ => skips_access hS (fun _ => Reply.done) ?_
    exact Region.leads_write.imp (fun _ _ h => ⟨_, h.2⟩) fun _ h => h
  | get layout offset type region =>
    refine skips_bind_find hS fun p _ => skips_access hS _ ?_
    exact Region.leads_get.imp (fun _ τ h => hsame τ h.2.2) fun _ h => h
  | set layout offset region value =>
    refine skips_bind_find hS fun p _ => skips_access hS (fun _ => Reply.done) ?_
    exact Region.leads_set.imp (fun _ _ h => ⟨_, h.2.2⟩) fun _ h => h
  | getAddress region layout offset =>
    refine skips_bind_find hS fun p _ => skips_access hS _ ?_
    refine Region.leads_getAddress.imp (fun _ τ h => ?_) fun _ h => h
    obtain ⟨_, _, _, _, hτ⟩ := h
    exact hsame τ hτ
  | setAddress value region layout offset =>
    refine skips_bind_find hS fun p _ => skips_access hS (fun _ => Reply.done) ?_
    refine Region.leads_setAddress.imp (fun _ τ h => ?_) fun _ h => h
    obtain ⟨_, _, _, hτ⟩ := h
    exact ⟨_, hτ⟩
  | copyFrom region source =>
    refine skips_bind_find hS fun p _ => skips_bind_find hS fun q _ => ?_
    refine skips_access hS (fun _ => Reply.done) ?_
    exact Region.leads_copyFrom.imp (fun _ _ h => ⟨_, h.2.2⟩) fun _ h => h
  | fill region value =>
    refine skips_bind_find hS fun p _ => skips_access hS (fun _ => Reply.done) ?_
    exact Region.leads_fill.imp (fun _ _ h => ⟨_, h.2⟩) fun _ h => h
  | contents region =>
    refine skips_bind_find hS fun p _ => ?_
    have ha : p.1.contents.Avoids shun ctx S.store fun _ _ => True :=
      Operation.avoids_of_same
        (Region.leads_contents.imp (fun _ _ h => ⟨trivial, h.2⟩) fun _ h => h)
    refine (skips_lift hS ha).bind fun bytes? T hT _ => ?_
    split
    next => exact skips_pure hT trivial
    next => exact skips_throw hT _

theorem AllocationCall.skips (hS : S.Aside shun) (c : AllocationCall) :
    c.perform.Skips shun ctx S fun _ _ => True := by
  cases c with
  | arena scope capacity config access name =>
    refine skips_bind_find hS fun s hn => ?_
    refine (skips_lift hS (ArenaId.avoids_create capacity config s)).bind fun a T hT h => ?_
    obtain ⟨τ, ⟨hl, hs, _⟩, rfl⟩ := h
    refine skips_keepHandle hT name ⟨fun t ht => ?_, fun b hb => ?_, fun _ hv => nomatch hv⟩
    · rw [List.mem_singleton.mp ht, hs]
      exact hS.of_scope? hn
    · cases hb
      exact hl
  | direct scope name =>
    refine skips_bind_find hS fun s hn => ?_
    have hh : (Handle.allocator (.direct s)).Aside shun S.store := Handle.aside_of_commands
      (fun t ht => List.mem_singleton.mp ht ▸ hS.of_scope? hn) rfl fun _ hv => nomatch hv
    exact (skips_rename hS name hh).answer (g := fun _ => Reply.done)
  | perRequest kind name =>
    have hh : (Handle.allocator (.perRequest kind)).Aside shun S.store :=
      Handle.aside_of_commands (fun _ ht => nomatch ht) rfl fun _ hv => nomatch hv
    exact (skips_rename hS name hh).answer (g := fun _ => Reply.done)
  | recycling region name =>
    refine skips_bind_find hS fun p _ => ?_
    have hh : (Handle.allocator (.recycling p.1)).Aside shun S.store :=
      Handle.aside_of_commands (fun _ ht => nomatch ht) rfl fun _ hv => nomatch hv
    exact (skips_rename hS name hh).answer (g := fun _ => Reply.done)
  | allocate request allocator name? =>
    exact skips_bind_find hS fun w hn => skips_provide hS name? false
      (Allocator.avoids_serve hS.known (hS.of_allocator? hn) request)
  | allocateParallel target size align threads count =>
    refine skips_bind_find hS fun a hn => ?_
    obtain ⟨hl, ha⟩ := hS.of_sharedArena? hn
    exact (skips_lift hS (Allocator.avoids_allocateEach hS.known hl ha size align _)).answer
      (g := fun outcomes => Reply.tally (.of align outcomes))

/-! ### Lists of arguments -/

theorem ArgumentSource.skips_resolve (hS : S.Aside shun) (source : ArgumentSource) :
    source.resolve.Skips shun ctx S fun _ T => T = S := by
  cases source with
  | segment region => exact skips_bind_find hS fun p _ => skips_pure hS rfl
  | _ => exact skips_pure hS rfl

theorem ArgumentSource.skips_resolveAll (hS : S.Aside shun)
    (arguments : List (Layout × ArgumentSource)) :
    (arguments.mapM fun arg => return (arg.1, ← arg.2.resolve) :
      Turn (List (Layout × ArgumentValue))).Skips shun ctx S fun _ T => T = S := by
  induction arguments with
  | nil => exact skips_pure hS rfl
  | cons arg arguments ih =>
    rw [List.mapM_cons]
    have hone : (do return (arg.1, ← arg.2.resolve) : Turn (Layout × ArgumentValue)).Skips shun
        ctx S fun _ T => T = S :=
      (arg.2.skips_resolve hS).bind fun v T hT h => skips_pure hT h
    refine hone.bind fun v T _ hT => ?_
    subst hT
    exact ih.bind fun _ _ hU h => skips_pure hU h

theorem VariadicList.Advanced.isHome {v v' : VariadicList} (h : v.Advanced v') (hv : v.IsHome) :
    v'.scope = v.scope ∧ v'.IsHome := by
  obtain ⟨c, _, _, hc, _, rfl⟩ := h
  refine ⟨rfl, fun c' hc' => ?_⟩
  cases hc'
  exact hv c hc

/-- The list under the name has been read from. -/
theorem Turn.skips_advance {T : Session} (hT : T.Aside shun) (name : Name) {v v' : VariadicList}
    (hv : ¬ shun v.scope ∧ v.IsHome) (ha : v.Advanced v') :
    (update name (.list v')).Skips shun ctx T fun _ _ => True := by
  obtain ⟨hs, hhome⟩ := ha.isHome hv.2
  exact skips_update hT name (Handle.aside_list (fun h => hv.1 (hs ▸ h)) hhome)

theorem Turn.skips_reading {α : Type} (hS : S.Aside shun) {name : Name} {v : VariadicList}
    (hn : S.list? name = some v) {x : Operation α} (rest : α → VariadicList) (reply : α → Reply)
    (hx : x.Leads ctx S.store (fun a τ => v.Advanced (rest a) ∧ τ = S.store) (· = S.store)) :
    (do
      let a ← lift x
      update name (.list (rest a))
      return reply a : Turn Reply).Skips shun ctx S fun _ _ => True := by
  refine (skips_lift hS (Operation.avoids_of_same hx)).bind fun a T hT h => ?_
  obtain ⟨_, ha, _⟩ := h
  exact (skips_advance hT name (hS.of_list? hn) ha).bind fun _ _ hU _ => skips_pure hU trivial

/-- What comes after a struct of a list is copied: the list is moved on and the copy is kept. -/
theorem Turn.skips_copied {T : Session} (hT : T.Aside shun) (list : Name) (name? : Option Name)
    {v v' : VariadicList} (hv : ¬ shun v.scope ∧ v.IsHome) (ha : v.Advanced v') (r : Region) :
    (do
      update list (.list v')
      let view := (← get).store.viewRegion r
      let contents ← lift (Operation.attempt r.contents)
      keep name? (.region r false)
      match contents with
      | .ok (some bytes) => return .copied view (.ok bytes)
      | .ok none => throw .tooLong
      | .error e => return .copied view (.error e) : Turn Reply).Skips shun ctx T
        fun _ _ => True := by
  refine (skips_advance hT list hv ha).bind fun _ U hU _ => ?_
  refine skips_bind_get ?_
  have hcon : (Operation.attempt r.contents).Avoids shun ctx U.store fun _ _ => True :=
    Operation.avoids_of_same (Operation.leads_attempt
      (Region.leads_contents.imp (fun _ _ h => ⟨trivial, h.2⟩) fun _ h _ => ⟨trivial, h⟩))
  refine (skips_lift hU hcon).bind fun contents V hV _ => ?_
  refine (skips_keep hV name? (Handle.aside_region r false)).bind fun _ W hW _ => ?_
  split
  next => exact skips_pure hW trivial
  next => exact skips_throw hW _
  next => exact skips_pure hW trivial

theorem VariadicCall.skips_readSegment (hS : S.Aside shun) (l : Layout) (list allocator : Name)
    (name? : Option Name) :
    (VariadicCall.readSegment l list allocator name?).perform.Skips shun ctx S
      fun _ _ => True := by
  refine skips_bind_claim hS fun v hn => skips_bind_find hS fun w hw => ?_
  refine (skips_lift hS (VariadicList.avoids_readSegment hS.known (hS.of_allocator? hw) l)).bind
    fun p T hT h => ?_
  obtain ⟨_, ha, _⟩ := h
  exact skips_copied hT list name? (hS.of_list? hn) ha p.1

theorem Handle.aside_builder {b : VariadicBuilder} {σ : Store} (hb : ¬ shun b.scope) :
    (Handle.builder b).Aside shun σ := by
  refine Handle.aside_of_commands (fun s hs => ?_) rfl fun _ hv => by cases hv
  rw [List.mem_singleton.mp hs]
  exact hb

theorem VariadicCall.skips_builder (hS : S.Aside shun) (scope : Name) (convention : Convention)
    (name : Name) :
    (VariadicCall.builder scope convention name).perform.Skips shun ctx S fun _ _ => True := by
  refine skips_bind_find hS fun s hn => ?_
  have ha : (VariadicBuilder.create convention s).Avoids shun ctx S.store
      fun b _ => b = ⟨convention, s, []⟩ :=
    Operation.avoids_of_same ((VariadicBuilder.leads_create convention s).imp
      (fun _ _ h => h.2) fun _ h => h)
  refine (skips_lift hS ha).bind fun b T hT h => ?_
  obtain ⟨_, rfl, _⟩ := h
  have hb : ¬ shun s := hS.of_scope? hn
  exact skips_keepHandle hT name (Handle.aside_builder hb)

theorem VariadicCall.skips_push (hS : S.Aside shun) (layout : Layout) (value : ArgumentSource)
    (target : Name) :
    (VariadicCall.push layout value target).perform.Skips shun ctx S fun _ _ => True := by
  refine (value.skips_resolve hS).bind fun v T _ hT => ?_
  subst hT
  refine skips_bind_find hS fun b hn => ?_
  have ha : (b.push layout v).Avoids shun ctx T.store
      fun b' _ => b' = { b with arguments := b.arguments ++ [⟨layout, v⟩] } :=
    Operation.avoids_of_same ((VariadicBuilder.leads_push layout v).imp
      (fun _ _ h => ⟨h.2.1, h.1⟩) fun _ h => h)
  refine (skips_lift hS ha).bind fun b' U hU h => ?_
  obtain ⟨_, rfl, _⟩ := h
  have hb : ¬ shun b.scope := hS.of_builder? hn
  have hh : (Handle.builder ⟨b.convention, b.scope, b.arguments ++ [⟨layout, v⟩]⟩).Aside shun
      U.store := Handle.aside_builder hb
  exact (skips_update hU target hh).answer (g := fun _ => Reply.done)

theorem VariadicCall.skips_build (hS : S.Aside shun) (source name : Name) :
    (VariadicCall.build source name).perform.Skips shun ctx S fun _ _ => True := by
  refine skips_bind_find hS fun b hn => ?_
  refine leads_forget.chain (fun _ hf => hf.elim) fun _ T hT => ?_
  subst hT
  refine leads_discard.chain (fun _ hf => hf.elim) fun _ T hT => ?_
  have hlost : T = S.lost source := by
    unfold Session.lost
    rw [hT, Session.find?_of_builder? hn]
  have hlose := hS.skips_lost source
  rw [← hlost] at hlose
  have hb := hS.of_builder? hn
  have hmake : (do keepList name (← lift b.build) : Turn Reply).Skips shun ctx T
      fun _ _ => True :=
    skips_makeList hlose.aside name hb (VariadicBuilder.avoids_build hb hlose.aside.known)
  exact hmake.imp (fun _ _ h => ⟨hlose.trans h.1, h.2⟩) fun _ h => hlose.trans h

theorem VariadicCall.skips (hS : S.Aside shun) (c : VariadicCall) :
    c.perform.Skips shun ctx S fun _ _ => True := by
  cases c with
  | builder scope convention name => exact skips_builder hS scope convention name
  | push layout value target => exact skips_push hS layout value target
  | build source name => exact skips_build hS source name
  | make arguments scope convention name =>
    refine (ArgumentSource.skips_resolveAll hS arguments).bind fun args T _ hT => ?_
    subst hT
    refine skips_bind_find hS fun s hn => ?_
    have hs := hS.of_scope? hn
    exact skips_makeList hS name hs (VariadicList.avoids_make hs hS.known convention args)
  | empty convention name =>
    exact skips_keepList hS name (fun h => (hS.known _ h).1 rfl) fun _ hc => nomatch hc
  | adopt start scope convention name =>
    refine skips_bind_find hS fun s hn => ?_
    refine skips_makeList hS name (hS.of_scope? hn) (Operation.avoids_of_same
      ((VariadicList.leads_ofAddress convention start s).imp (fun v τ h => ?_) fun _ h => h))
    obtain ⟨hτ, hs, length, hc⟩ := h
    refine ⟨⟨Or.inr hs, fun c hc' => ?_⟩, hτ⟩
    cases hc.symm.trans hc'
    exact hs.symm
  | read layout type list =>
    refine skips_bind_find hS fun v hn => skips_reading hS hn Prod.snd Prod.fst ?_
    exact (VariadicList.leads_readAs layout type).imp (fun _ _ h => ⟨h.2, h.1⟩) fun _ h => h
  | readSegment layout list allocator name? =>
    exact skips_readSegment hS layout list allocator name?
  | skip layouts list =>
    refine skips_bind_find hS fun v hn => skips_reading hS hn id (fun rest => .list rest.view) ?_
    exact VariadicList.leads_skip layouts
  | copy list name =>
    refine skips_bind_find hS fun v hn => ?_
    obtain ⟨hs, hhome⟩ := hS.of_list? hn
    refine skips_makeList hS name hs (Operation.avoids_of_same
      (VariadicList.leads_copy.imp (fun v' τ h => ⟨?_, h.2⟩) fun _ h => h))
    rcases h.1 with rfl | rfl
    · exact ⟨Or.inr rfl, hhome⟩
    · exact ⟨Or.inl rfl, fun _ hc => nomatch hc⟩

/-- A call leaves alone what nothing in the session has power over, however it ends. -/
theorem Call.skips (hS : S.Aside shun) (c : Call) :
    c.perform.Skips shun ctx S fun _ _ => True := by
  cases c with
  | handle c => exact c.skips hS
  | scope c => exact c.skips hS
  | region c => exact c.skips hS
  | allocation c => exact c.skips hS
  | variadic c => exact c.skips hS

/-! ### Moves -/

namespace Session

variable {T : Session} {rest : List Chore}

theorem Aside.release (hS : S.Aside shun) (firstNew : Nat) : S.Skips shun (S.release firstNew) := by
  refine hS.skips_handles hS.handles fun c hc s hs => ?_
  obtain ⟨_, _, rfl⟩ := List.mem_map.mp hc
  cases hs

theorem Aside.begin (hS : S.Aside shun) (ctx : Context) (c : Call) :
    S.Skips shun (S.begin ctx c).2 := by
  have hc : c.perform.Leads ctx S (fun _ T => S.Skips shun T ∧ True) (S.Skips shun) := c.skips hS
  exact Turn.Leads.begin (hc.imp (fun _ _ hT => hT.1) fun _ hT => hT) fun _ hT =>
    hT.trans (hT.aside.release _)

/-- What has no power over a scope may end it only where nothing refers to it any more. -/
structure Spares (shun : ScopeId → Prop) (S T : Session) : Prop where
  aside : T.Aside shun
  scope : ∀ s, shun s → T.store.scope s = S.store.scope s ∨
    S.store.IsAlive s ∧ T.store = S.store.endScope s .reclaimed

theorem Skips.spares (h : S.Skips shun T) : S.Spares shun T :=
  ⟨h.aside, fun s hs => Or.inl (h.scope s hs)⟩

theorem Aside.perform (hS : S.Aside shun) (ctx : Context) {p : PendingAction}
    (hc : S.chores = .perform p :: rest) : S.Skips shun (S.advance ctx) := by
  obtain ⟨more, hm, hu⟩ := p.action.unfold_cases ctx (S.store.note (.began p.ticket))
  have hcommand : ∀ s, p.action.command? = some s → ¬ shun s :=
    hS.chores (.perform p) (hc ▸ List.mem_cons_self)
  have hmore : ∀ c ∈ more ++ .finish p.ticket :: rest, ∀ s, c.command? = some s → ¬ shun s := by
    intro c hcm s hs
    rcases List.mem_append.mp hcm with hcm | hcm
    · rcases hm.only c hcm with ⟨_, rfl⟩ | ⟨_, _, rfl⟩ <;> cases hs
    · rcases List.mem_cons.mp hcm with rfl | hcm
      · cases hs
      · exact hS.chores c (hc ▸ List.mem_cons_of_mem _ hcm) s hs
  have hbegun : Aside shun { S with
      store := S.store.note (.began p.ticket)
      chores := more ++ .finish p.ticket :: rest } := hS.of_scopes rfl rfl hmore
  have hnoted : S.Skips shun { S with
      store := S.store.note (.began p.ticket)
      chores := more ++ .finish p.ticket :: rest } := ⟨hbegun, fun _ _ => rfl⟩
  rw [advance_cons ctx hc]
  simp only [Chore.step]
  rcases hu with hu | ⟨label, s, ha, _, _, hu⟩ | ⟨label, s, ha, _, hu⟩ | ⟨m, hu⟩
  · rw [hu]
    exact hnoted
  · rw [hu]
    have hs : ¬ shun s := hcommand s (by rw [ha]; rfl)
    have he := hbegun.skips_ended hs .closed (List.nil_append _).symm
    rw [List.nil_append, ← List.append_assoc] at he
    exact hnoted.trans he
  · rw [hu]
    have hs : ¬ shun s := hcommand s (by rw [ha]; rfl)
    refine hnoted.trans (hbegun.skips_accepted hs fun _ h => ?_)
    cases h
  · rw [hu]
    exact hnoted.trans (hbegun.skips_store (Store.avoids_setMemory _ m))

theorem Aside.advance (hS : S.Aside shun) (ctx : Context) : S.Spares shun (S.advance ctx) := by
  cases hc : S.chores with
  | nil =>
    rw [advance_nil ctx hc]
    exact (Skips.refl hS).spares
  | cons c rest =>
    have hrest : ∀ c ∈ rest, ∀ s, c.command? = some s → ¬ shun s := fun c hm =>
      hS.chores c (hc ▸ List.mem_cons_of_mem _ hm)
    have hstep := advance_cons ctx hc
    have hsame : ∀ {τ : Store}, τ.scopes = S.store.scopes → τ.arenas = S.store.arenas →
        S.Spares shun { S with store := τ, chores := rest } := by
      intro τ hs ha
      refine ⟨hS.of_scopes hs ha hrest, fun s _ => Or.inl ?_⟩
      show τ.scope s = S.store.scope s
      unfold Store.scope
      rw [hs]
    rw [hstep]
    cases c with
    | perform p => exact hstep ▸ (hS.perform ctx hc).spares
    | finish t => exact hsame rfl rfl
    | write text => exact hsame rfl rfl
    | free blocks => exact hsame rfl rfl
    | unguard t =>
      have ht : ¬ shun t := hS.chores (.unguard t) (hc ▸ List.mem_cons_self) t rfl
      simp only [Chore.step]
      unfold Store.unpin
      split
      next => exact (hS.skips_setLive ht _ hrest).spares
      next => exact hsame rfl rfl
    | letGo t =>
      simp only [Chore.step]
      split
      next hr =>
        refine ⟨hS.ended t .reclaimed (List.forall_mem_nil _) hrest, fun s _ => ?_⟩
        by_cases he : s = t
        · exact Or.inr ⟨he ▸ hr.1, he ▸ rfl⟩
        · left
          show (S.store.endScope t .reclaimed).scope s = _
          rw [Store.scope_endScope, if_neg fun h => he h.1]
      next => exact hsame rfl rfl

theorem aside_initial : Session.initial.Aside fun _ => False where
  known _ hs := hs.elim
  handles p hp := nomatch hp
  actions t p hp := fun _ _ h => h
  chores c hc := nomatch hc
  emptied s hs := by
    by_cases h0 : s = 0
    · subst h0
      exact absurd rfl hs
    · exact congrArg Scope.blocks (Store.scope_of_length_le (Nat.one_le_iff_ne_zero.mpr h0))

end Session

/-- In every session that a run leads to ended scopes are empty, and what is left of a list lies in
its scope. -/
theorem play_aside (past : List Move) : (play past).Aside fun _ => False := by
  induction past with
  | nil => exact Session.aside_initial
  | cons m past ih =>
    cases m with
    | call ctx c => exact (ih.begin ctx c).aside
    | chore ctx => exact (ih.advance ctx).aside

end ScopedMemory
