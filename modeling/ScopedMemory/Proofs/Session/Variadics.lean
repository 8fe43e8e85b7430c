import ScopedMemory.Proofs.Session.Allocations

namespace ScopedMemory

open Turn

variable {system : SystemAllocator} {strict : Prop} {G : List Region} {S : Session}
  {ctx : Context}

theorem Handle.sound_builder {b : VariadicBuilder} {σ : Store} (hs : σ.Holds b.scope)
    (ha : ∀ arg ∈ b.arguments, arg.Accepted b.convention ∧ ∀ r, arg.region? = some r →
      σ.Holds r.scope ∧ (strict → r.Inside σ)) : (builder b).Sound σ strict where
  scopes s hm := by
    rcases List.mem_cons.mp hm with rfl | hm
    · exact hs
    · obtain ⟨r, hr, rfl⟩ := List.mem_map.mp hm
      obtain ⟨arg, harg, hr⟩ := List.mem_filterMap.mp hr
      exact ((ha arg harg).2 r hr).1
  arena _ he := by cases he
  regions hstrict r hr := by
    obtain ⟨arg, harg, hr⟩ := List.mem_filterMap.mp hr
    exact ((ha arg harg).2 r hr).2 hstrict
  builder b' hb arg harg := by
    cases hb
    exact (ha arg harg).1
  list _ _ hv := by cases hv

theorem Handle.Sound.arguments {b : VariadicBuilder} {σ : Store}
    (h : (Handle.builder b).Sound σ strict) {arg : Argument} (ha : arg ∈ b.arguments) :
    arg.Accepted b.convention ∧ ∀ r, arg.region? = some r →
      σ.Holds r.scope ∧ (strict → r.Inside σ) := by
  refine ⟨h.builder b rfl arg ha, fun r hr => ?_⟩
  have hm : r ∈ b.arguments.filterMap Argument.region? := List.mem_filterMap.mpr ⟨arg, ha, hr⟩
  exact ⟨h.scopes _ (List.mem_cons_of_mem _ (List.mem_map.mpr ⟨r, hm, rfl⟩)),
    fun hst => h.regions hst r hm⟩

theorem ArgumentSource.leads_resolve (h : S.Sound system strict G) (source : ArgumentSource) :
    source.resolve.Leads ctx S
      (fun v T => T = S ∧ ∀ l r, Argument.region? ⟨l, v⟩ = some r →
        S.store.Holds r.scope ∧ (strict → r.Inside S.store))
      (· = S) := by
  cases source with
  | segment region =>
    refine leads_find.bind fun p T hT => leads_pure ⟨hT.2, fun l r hr => ?_⟩
    obtain ⟨r', adopted⟩ := p
    cases hr
    exact h.of_region? hT.1
  | _ => exact leads_pure ⟨rfl, fun l r hr => by cases hr⟩

theorem Handle.Sound.advanced {v v' : VariadicList} {σ : Store}
    (h : (Handle.list v).Sound σ strict) (ha : v.Advanced v') :
    (Handle.list v').Sound σ strict := by
  obtain ⟨c, offset, length, hc, hs, rfl⟩ := ha
  refine sound_list (h.scopes _ (List.mem_singleton.mpr rfl)) fun c' hc' => ?_
  cases hc'
  obtain ⟨hscope, hforeign⟩ := h.list v c rfl hc
  have hm : c.remaining ∈ (Handle.list v).regions := by
    simp [Handle.regions, hc]
  exact ⟨hscope, hforeign, fun hst => (h.regions hst _ hm).narrow hs⟩

theorem Session.Sound.sound_empty (h : S.Sound system strict G) (c : Convention) :
    (Handle.list (.empty c)).Sound S.store strict :=
  Handle.sound_list (Store.IsAlive.holds h.store.eternal.2) fun _ hc => by cases hc

/-- A list that was built stands for slots that were handed out for it, or for none. -/
theorem Session.Sound.built {writes : Prop} {rs : List Region} {τ : Store} {s : ScopeId}
    {c : Convention} {v : VariadicList} (hsep : system.Separate) (h : S.Sound system strict G)
    (hs : S.store.Holds s) (hc : S.store.Changes system writes rs τ)
    (hv : v = .empty c ∨ ∃ buffer ∈ rs, buffer.scope = s ∧ v = .ofBuffer c buffer s) :
    (Handle.list v).Sound τ strict := by
  have hT := h.changes hsep hc
  rcases hv with rfl | ⟨buffer, hb, hscope, rfl⟩
  · exact hT.sound_empty c
  · refine Handle.sound_list (hs.later hc.extends.toLater hc.extends.spares) fun c' hc' => ?_
    cases hc'
    exact ⟨hscope, fun _ => rfl, fun _ => hT.ledger.inside _ (List.mem_append_right _ hb)⟩

theorem VariadicList.leads_make {σ : Store} {waiting : List Block}
    (hs : σ.Sound system strict waiting) (hw : ctx.system.Within system) (c : Convention)
    (s : ScopeId) (args : List (Layout × ArgumentValue)) :
    (VariadicList.make c s args).Leads ctx σ
      (fun v τ => ∃ rs, σ.Changes system True rs τ ∧ (v = .empty c ∨
        ∃ buffer ∈ rs, buffer.scope = s ∧ v = .ofBuffer c buffer s))
      fun τ => ∃ rs, σ.Changes system True rs τ := by
  have hr : ∀ τ, τ = σ → ∃ rs, σ.Changes system True rs τ := fun τ h => h ▸ ⟨[], .refl⟩
  refine (VariadicBuilder.leads_create c s).chain hr fun b τ hb => ?_
  obtain ⟨_, rfl, rfl⟩ := hb
  refine (VariadicBuilder.leads_pushes args _).chain hr fun b τ hb => ?_
  obtain ⟨rfl, rfl, _⟩ := hb
  exact VariadicBuilder.leads_build hs hw _

theorem ArgumentSource.leads_resolveAll (arguments : List (Layout × ArgumentSource)) :
    (arguments.mapM fun arg => return (arg.1, ← arg.2.resolve) :
      Turn (List (Layout × ArgumentValue))).Leads ctx S (fun _ T => T = S) (· = S) := by
  induction arguments with
  | nil => exact leads_pure rfl
  | cons arg arguments ih =>
    rw [List.mapM_cons]
    have hone : arg.2.resolve.Leads ctx S (fun _ T => T = S) (· = S) := by
      cases arg.2 with
      | segment region => exact leads_find.bind fun _ _ hT => leads_pure hT.2
      | _ => exact leads_pure rfl
    refine (hone.bind fun v T hT => leads_pure (P := fun _ T => T = S) hT).bind fun v T hT => ?_
    subst hT
    exact ih.bind fun _ _ hT => leads_pure hT

theorem VariadicList.leads_readAs {v : VariadicList} {σ : Store} (l : Layout)
    (type : ArgumentType) :
    (v.readAs l type).Leads ctx σ (fun p τ => τ = σ ∧ v.Advanced p.2) (· = σ) := by
  have hscalar : ∀ t : ScalarType, (do
      let p ← v.readScalar t l
      return (Reply.scalar p.1, p.2) : Operation (Reply × VariadicList)).Leads ctx σ
        (fun p τ => τ = σ ∧ v.Advanced p.2) (· = σ) := fun t =>
    (leads_readScalar t l).bind fun _ _ h => Operation.leads_pure h
  cases type with
  | int => exact hscalar .i32
  | long => exact hscalar .i64
  | double => exact hscalar .f64
  | address => exact (leads_readAddress l).bind fun _ _ h => Operation.leads_pure h

/-- What is done with a struct that was read, and with the rest of the list. -/
theorem Turn.leads_copied {gs : List Grant} {T : Session} (h : S.Comes system strict G gs T)
    {list : Name} {name? : Option Name} {rest : VariadicList} {r : Region}
    (hl : (Handle.list rest).Sound T.store strict)
    (hr : (Handle.region r false).Sound T.store strict) :
    (do
      update list (.list rest)
      let view := (← get).store.viewRegion r
      let contents ← lift (Operation.attempt r.contents)
      keep name? (.region r false)
      match contents with
      | .ok (some bytes) => return .copied view (.ok bytes)
      | .ok none => throw .tooLong
      | .error e => return .copied view (.error e) : Turn Reply).Leads ctx T
        (fun _ U => S.Comes system strict G gs U) (S.Comes system strict G gs) := by
  refine leads_update.chain (fun _ hf => hf.elim) fun _ U hU => ?_
  have hcU : S.Comes system strict G gs U := by
    rw [hU]
    exact h.handles rfl (h.sound.put list hl)
  have hsU : U.store = T.store := by rw [hU]
  refine (leads_get (P := fun _ V => V = U) rfl).bind fun V W hW => ?_
  rw [hW]
  have hcon : (Operation.attempt r.contents).Leads ctx U.store (fun _ τ => τ = U.store)
      fun _ => False := Operation.leads_attempt
    (Region.leads_contents.imp (fun _ τ hτ => hτ.2) fun τ hτ _ => hτ)
  refine (leads_lift hcon).chain (fun _ hX => ?_) fun contents X hX => ?_
  · obtain ⟨_, hf, _⟩ := hX
    exact hf.elim
  obtain ⟨τ, rfl, rfl⟩ := hX
  refine leads_keep.chain (fun _ hf => hf.elim) fun _ Y hY => ?_
  have hY' : S.Comes system strict G gs Y := by
    rw [hY]
    exact hcU.kept name? (hsU ▸ hr)
  split
  next => exact leads_pure hY'
  next => exact leads_throw hY'
  next => exact leads_pure hY'

theorem VariadicCall.safe_readSegment (hsep : system.Separate) (h : S.Sound system strict G)
    (hw : ctx.system.Within system) (l : Layout) (list allocator : Name) (name? : Option Name) :
    (VariadicCall.readSegment l list allocator name?).perform.Safe system strict G
      (VariadicCall.grants ctx S (.readSegment l list allocator name?)) ctx S := by
  refine leads_claim.chain (fun T hT => ?_) fun v T hT => ?_
  · have hg : VariadicCall.grants ctx S (.readSegment l list allocator name?) = [] := by
      simp only [VariadicCall.grants, hT.1]
    rw [hg, hT.2]
    exact (Session.Comes.refl h).lost list
  obtain ⟨hv, rfl⟩ := hT
  refine leads_lookup.chain (fun U hU => ?_) fun w U hU => ?_
  · have hg : VariadicCall.grants ctx T (.readSegment l list allocator name?) = [] := by
      simp only [VariadicCall.grants, hv, hU.1]
    rw [hg, hU.2]
    exact .refl h
  obtain ⟨hn, rfl⟩ := hU
  have hlist := h.of_list? hv
  obtain ⟨hk, hrec⟩ := h.of_allocator? hn
  have hread : (v.readSegment l w).Leads ctx U.store _ _ :=
    VariadicList.leads_readSegment h.store hw hk l
  by_cases hf : w.IsFresh
  · have hg : VariadicCall.grants ctx U (.readSegment l list allocator name?) =
        ((v.readSegment l w).value? ctx U.store).toList.map (⟨·.1, l.size, l.align⟩) := by
      simp only [VariadicCall.grants, hv, hn, if_pos hf]
    rw [hg]
    have hx : (v.readSegment l w).Leads ctx U.store
        (fun p τ => U.store.Changes system True [p.1] τ ∧
          Grant.Met ⟨p.1, l.size, l.align⟩ system τ ∧ v.Advanced p.2)
        fun τ => ∃ rs, U.store.Changes system True rs τ := by
      refine hread.imp (fun p τ hp => ?_) fun _ h => h
      obtain ⟨⟨ρ, m, hgive, rfl⟩, ha⟩ := hp
      have hc := (hgive.changes.mono False.elim).memory trivial m
      rw [Allocator.grants_of_isFresh hf] at hc
      exact ⟨hc, ⟨hgive.size, hgive.align hf, (Store.checkUsable_eq_ok_iff.mp hgive.usable).2⟩, ha⟩
    refine (leads_granting (g := Prod.fst) (E := fun p _ => v.Advanced p.2) hsep h hx).bind ?_
    intro p T hT
    obtain ⟨hc, _, hi, halive, ha⟩ := hT
    exact leads_copied hc ((hlist.later hc.later hc.spares).advanced ha)
      (Handle.sound_region (Store.IsAlive.holds halive) fun _ => hi)
  · have hg : VariadicCall.grants ctx U (.readSegment l list allocator name?) = [] := by
      simp only [VariadicCall.grants, hv, hn, if_neg hf]
    rw [hg]
    refine (leads_lift hread).chain (fun T hT => ?_) fun p T hT => ?_
    · obtain ⟨τ, ⟨rs, hc⟩, rfl⟩ := hT
      exact .changes h hsep hc
    obtain ⟨τ, ⟨⟨ρ, m, hgive, rfl⟩, ha⟩, rfl⟩ := hT
    cases w with
    | recycling r₀ =>
      obtain ⟨hs, hr⟩ := hgive.recycled r₀ rfl
      have hc : U.Comes system strict G [] { U with store := ρ.setMemory m } :=
        .changes h hsep ((hgive.changes.mono False.elim).memory trivial m)
      refine leads_copied hc ((hlist.later hc.later hc.spares).advanced ha)
        (Handle.sound_region ?_ fun hst => ?_)
      · exact Store.IsAlive.holds (Store.checkUsable_eq_ok_iff.mp hgive.usable).2
      · rw [hr]
        exact (((hrec r₀ rfl).2 hst).later hc.later).narrow hs
    | _ => exact absurd trivial hf

/-- A list that was built is kept. `T` may have lost a builder since `S`. -/
theorem Turn.leads_built {x : Operation VariadicList} {s : ScopeId} {c : Convention} {name : Name}
    {T : Session} (hsep : system.Separate) (hT : T.Sound system strict G) (hST : T.store = S.store)
    (hx : x.Leads ctx T.store
      (fun v τ => ∃ rs, T.store.Changes system True rs τ ∧ (v = .empty c ∨
        ∃ buffer ∈ rs, buffer.scope = s ∧ v = .ofBuffer c buffer s))
      fun τ => ∃ rs, T.store.Changes system True rs τ) (hs : T.store.Holds s) :
    (do keepList name (← lift x) : Turn Reply).Leads ctx T
      (fun _ U => S.Comes system strict G [] U) (S.Comes system strict G []) := by
  have hback : ∀ U, T.Comes system strict G [] U → S.Comes system strict G [] U := fun U hU =>
    ⟨⟨hU.sound, hST ▸ hU.later⟩, hST ▸ hU.spares, hU.met⟩
  refine (leads_lift hx).chain (fun U hU => ?_) fun v U hU => ?_
  · obtain ⟨τ, ⟨rs, hc⟩, rfl⟩ := hU
    exact hback _ (.changes hT hsep hc)
  obtain ⟨τ, ⟨rs, hc, hv⟩, rfl⟩ := hU
  have hcU : T.Comes system strict G [] { T with store := τ } := .changes hT hsep hc
  refine leads_keepList.imp (fun _ V hV => ?_) fun _ hf => hf.elim
  rw [hV.2]
  exact hback _ (hcU.renamed name (hT.built hsep hs hc hv))

namespace VariadicCall

theorem safe_builder (h : S.Sound system strict G) (scope : Name) (convention : Convention)
    (name : Name) :
    (builder scope convention name).perform.Safe system strict G [] ctx S := by
  refine leads_bind_find (.refl h) fun s hn => ?_
  refine (leads_lift (VariadicBuilder.leads_create convention s)).chain
    (fun _ hT => .of_same h hT) ?_
  intro b U hU
  obtain ⟨τ, ⟨_, rfl, rfl⟩, rfl⟩ := hU
  refine leads_keepHandle.imp (fun _ V hV => ?_) fun _ hf => hf.elim
  rw [hV.2]
  exact (Session.Comes.refl h).renamed name
    (Handle.sound_builder (h.of_scope? hn) fun _ ha => by cases ha)

theorem safe_push (h : S.Sound system strict G) (layout : Layout) (value : ArgumentSource)
    (target : Name) : (push layout value target).perform.Safe system strict G [] ctx S := by
  refine (value.leads_resolve h).chain (fun _ hT => .of_eq h hT) ?_
  intro v T hT
  obtain ⟨rfl, hv⟩ := hT
  refine leads_bind_find (.refl h) fun b hn => ?_
  refine (leads_lift (VariadicBuilder.leads_push layout v)).chain (fun _ hT => .of_same h hT) ?_
  intro b' V hV
  obtain ⟨τ, ⟨rfl, rfl, hacc⟩, rfl⟩ := hV
  refine leads_update.chain (fun _ hf => hf.elim) fun _ W hW => ?_
  subst hW
  have hb := h.of_builder? hn
  refine leads_pure ((Session.Comes.refl h).handles rfl
    ((Session.Comes.refl h).sound.put target (Handle.sound_builder ?_ fun arg ha => ?_)))
  · exact hb.scopes _ List.mem_cons_self
  · rcases List.mem_append.mp ha with ha | ha
    · exact hb.arguments ha
    · obtain rfl := List.mem_singleton.mp ha
      exact ⟨hacc, hv layout⟩

theorem safe_build (hsep : system.Separate) (h : S.Sound system strict G)
    (hw : ctx.system.Within system) (source name : Name) :
    (build source name).perform.Safe system strict G [] ctx S := by
  refine leads_bind_find (.refl h) fun b hn => ?_
  refine leads_forget.chain (fun _ hf => hf.elim) fun _ U hU => ?_
  subst hU
  refine leads_discard.chain (fun _ hf => hf.elim) fun _ U hU => ?_
  have hb := h.of_builder? hn
  subst hU
  have hU : Session.Sound system strict G
      { S with
        handles := S.handles.erase source
        chores := S.chores ++ (Handle.builder b).dropChores S.store } :=
    (h.erase source).discard hb
  refine leads_built hsep hU rfl (VariadicBuilder.leads_build h.store hw b) ?_
  exact hb.scopes _ List.mem_cons_self

theorem safe_adopt (h : S.Sound system strict G) (hstrict : ¬ strict) (start : Word)
    (scope : Name) (convention : Convention) (name : Name) :
    (adopt start scope convention name).perform.Safe system strict G [] ctx S := by
  refine leads_bind_find (.refl h) fun s hn => ?_
  refine (leads_lift (VariadicList.leads_ofAddress convention start s)).chain
    (fun _ hT => .of_same h hT) ?_
  intro v U hU
  obtain ⟨τ, ⟨rfl, hv⟩, rfl⟩ := hU
  refine leads_keepList.imp (fun _ V hV => ?_) fun _ hf => hf.elim
  rw [hV.2]
  obtain ⟨hscope, length, hcur⟩ := hv
  refine (Session.Comes.refl h).renamed name (Handle.sound_list ?_ fun c hc => ?_)
  · rw [hscope]
    exact h.of_scope? hn
  · cases hcur.symm.trans hc
    exact ⟨hscope.symm, fun hst => absurd hst hstrict, fun hst => absurd hst hstrict⟩

/-- What is left of a list takes its place under its name. -/
theorem safe_advanced (h : S.Sound system strict G) {list : Name} {v rest : VariadicList}
    (hn : S.list? list = some v) (ha : v.Advanced rest) (reply : Reply) :
    (do
      update list (.list rest)
      return reply : Turn Reply).Safe system strict G [] ctx S := by
  have hrefl : S.Comes system strict G [] S := .refl h
  have hrest := (h.of_list? hn).advanced ha
  refine leads_update.chain (fun _ hf => hf.elim) fun _ T hT => ?_
  subst hT
  exact leads_pure (hrefl.handles rfl (hrefl.sound.put list hrest))

theorem safe_read (h : S.Sound system strict G) (layout : Layout) (type : ArgumentType)
    (list : Name) : (read layout type list).perform.Safe system strict G [] ctx S := by
  refine leads_bind_find (.refl h) fun v hn => ?_
  refine (leads_lift (VariadicList.leads_readAs layout type)).chain
    (fun _ hT => .of_same h hT) ?_
  intro p T hT
  obtain ⟨_, ⟨rfl, ha⟩, rfl⟩ := hT
  exact safe_advanced h hn ha p.1

theorem safe_skip (h : S.Sound system strict G) (layouts : List Layout) (list : Name) :
    (skip layouts list).perform.Safe system strict G [] ctx S := by
  refine leads_bind_find (.refl h) fun v hn => ?_
  refine (leads_lift (VariadicList.leads_skip layouts)).chain (fun _ hT => .of_same h hT) ?_
  intro rest T hT
  obtain ⟨_, ⟨ha, rfl⟩, rfl⟩ := hT
  exact safe_advanced h hn ha (.list rest.view)

theorem safe_copy (h : S.Sound system strict G) (list name : Name) :
    (copy list name).perform.Safe system strict G [] ctx S := by
  refine leads_bind_find (.refl h) fun v hn => ?_
  refine (leads_lift VariadicList.leads_copy).chain (fun _ hT => .of_same h hT) ?_
  intro v' U hU
  obtain ⟨τ, ⟨hv, rfl⟩, rfl⟩ := hU
  refine leads_keepList.imp (fun _ V hV => ?_) fun _ hf => hf.elim
  rw [hV.2]
  refine (Session.Comes.refl h).renamed name ?_
  rcases hv with rfl | rfl
  · exact h.of_list? hn
  · exact h.sound_empty _

theorem safe (hsep : system.Separate) (h : S.Sound system strict G)
    (hw : ctx.system.Within system) (c : VariadicCall)
    (hstrict : strict → ¬ (Call.variadic c).Adopts) :
    c.perform.Safe system strict G (c.grants ctx S) ctx S := by
  cases c with
  | builder scope convention name => exact safe_builder h scope convention name
  | push layout value target => exact safe_push h layout value target
  | build source name => exact safe_build hsep h hw source name
  | make arguments scope convention name =>
    refine (ArgumentSource.leads_resolveAll arguments).chain (fun _ hT => .of_eq h hT) ?_
    intro args T hT
    subst hT
    refine leads_bind_find (.refl h) fun s hn => ?_
    exact leads_built hsep h rfl (VariadicList.leads_make h.store hw convention s args)
      (h.of_scope? hn)
  | empty convention name =>
    refine leads_keepList.imp (fun _ T hT => ?_) fun _ hf => hf.elim
    rw [hT.2]
    exact (Session.Comes.refl h).renamed name (h.sound_empty convention)
  | adopt start scope convention name =>
    exact safe_adopt h (fun hst => hstrict hst trivial) start scope convention name
  | read layout type list => exact safe_read h layout type list
  | readSegment layout list allocator name? =>
    exact safe_readSegment hsep h hw layout list allocator name?
  | skip layouts list => exact safe_skip h layouts list
  | copy list name => exact safe_copy h list name

end VariadicCall

end ScopedMemory
