import ScopedMemory.Proofs.Lifetime.Edit
import ScopedMemory.Proofs.Session.Variadics

namespace ScopedMemory

open Turn

/-- The call puts a guard on a scope or closes one. -/
def ScopeCall.Governs : ScopeCall → Prop
  | close _ | acquire .. => True
  | _ => False

def Call.Governs : Call → Prop
  | scope c => c.Governs
  | _ => False

variable {governs : Prop} {ctx : Context} {S : Session}

theorem HandleCall.edits (hS : S.Rooted) (c : HandleCall) :
    c.perform.Edits governs ctx S fun _ _ => True := by
  cases c with
  | info name =>
    exact edits_bind_find fun h _ => edits_bind_get (edits_bind_read (edits_pure trivial))
  | drop name =>
    refine edits_bind_find fun h hn => ?_
    refine leads_forget.chain (fun _ hf => hf.elim) fun _ T hT => ?_
    subst hT
    refine leads_discard.chain (fun _ hf => hf.elim) fun _ T hT => ?_
    have hlost : T = S.lost name := by
      unfold Session.handle? at hn
      unfold Session.lost
      rw [hT, hn]
    exact leads_pure ⟨hlost ▸ (Session.Edit.lost name).edits, trivial⟩
  | clone name copy =>
    refine edits_bind_find fun h hn => ?_
    obtain ⟨hf, hc⟩ := Option.filter_eq_some_iff.mp hn
    have hp : h.Plain S.store := by
      refine ⟨hS.find hf, fun hg => ?_⟩
      cases h with
      | guard s => cases hc
      | _ => exact hg
    exact (edits_rename copy hp).bind fun _ _ _ => edits_pure trivial
  | describe name => exact edits_bind_find fun h _ => edits_pure trivial
  | misuse name => exact (edits_lose name).bind fun _ _ _ => edits_throw _

theorem ActionPlan.edits_resolve (hS : S.Rooted) (plan : ActionPlan) (label : String) :
    (plan.resolve label).Edits governs ctx S fun a T =>
      T = S ∧ ∀ u, a.target? = some u → S.store.Holds u := by
  have hscope : ∀ (f : ScopeId → CloseAction) (target : Name), (∀ s, (f s).target? = some s) →
      (do return f (← find Session.scope? target) : Turn CloseAction).Edits governs ctx S
        fun a T => T = S ∧ ∀ u, a.target? = some u → S.store.Holds u := by
    intro f target hf
    refine edits_bind_find fun s hn => edits_pure ⟨rfl, fun u hu => ?_⟩
    rw [hf s] at hu
    cases hu
    exact hS.of_scope? hn
  cases plan with
  | say => exact edits_pure ⟨rfl, fun u hu => by cases hu⟩
  | probe target => exact hscope (.probe label) target fun _ => rfl
  | close target => exact hscope (.close label) target fun _ => rfl
  | extend target => exact hscope (.extend label) target fun _ => rfl
  | fill target =>
    refine edits_bind_find fun p hn => edits_pure ⟨rfl, fun u hu => ?_⟩
    cases hu
    exact hS.of_region? hn
  | hold target =>
    refine edits_bind_find fun s hn => edits_pure ⟨rfl, fun u hu => ?_⟩
    cases hu
    rcases Option.or_eq_some_iff.mp hn with hs | ⟨_, hs⟩
    · exact hS.of_scope? hs
    · obtain ⟨p, hp, rfl⟩ := Option.map_eq_some_iff.mp hs
      exact hS.of_region? hp

theorem ScopeCall.edits (hS : S.Rooted) (c : ScopeCall) (hg : c.Governs → governs) :
    c.perform.Edits governs ctx S fun _ _ => True := by
  have hfail : ∀ T, (∃ τ, τ = S.store ∧ T = { S with store := τ }) → S.Edits governs T := by
    rintro T ⟨_, rfl, rfl⟩
    exact .refl S
  cases c with
  | create kind name =>
    refine (edits_lift (ScopeId.keeps_create kind)).bind fun s T hT => ?_
    obtain ⟨τ, hk, hs, rfl⟩ := hT
    have hh : τ.Holds s := by
      rcases hs with rfl | hs
      · exact hk.holds hS.global
      · exact hs.holds
    have hp : (Handle.scope s).Plain τ := Handle.plain_of_scope rfl rfl id hh
    refine edits_bind_get (edits_bind_read ?_)
    exact (edits_rename name hp).bind fun _ _ _ => edits_pure trivial
  | close scope =>
    refine edits_bind_find fun s _ => ?_
    refine (leads_lift (ScopeId.leads_close s)).chain hfail fun held T hT => ?_
    obtain ⟨τ, ⟨_, hk, hl, rfl, rfl⟩, rfl⟩ := hT
    refine leads_leave.chain (fun _ hf => hf.elim) fun _ T hT => ?_
    have he := Session.Edit.closed (hg trivial) (List.append_nil S.chores).symm hl hk
    rw [List.append_nil] at he
    exact leads_pure ⟨hT ▸ he.edits, trivial⟩
  | addAction scope label plan =>
    refine edits_bind_find fun s _ => ?_
    refine (plan.edits_resolve hS label).bind fun a T ha => ?_
    obtain ⟨rfl, ht⟩ := ha
    refine (leads_lift (ScopeId.leads_addAction s a)).chain hfail fun _ T' hT => ?_
    obtain ⟨τ, ⟨hu, rfl⟩, rfl⟩ := hT
    have ha := Store.isAlive_of_checkUsable hu
    exact leads_pure ⟨(Session.Edit.accepted ha ht).edits, trivial⟩
  | acquire scope name =>
    refine edits_bind_find fun s _ => ?_
    refine (leads_lift (ScopeId.leads_acquire s)).chain hfail fun _ T hT => ?_
    obtain ⟨τ, ⟨hu, rfl⟩, rfl⟩ := hT
    refine leads_rename.chain (fun _ hf => hf.elim) fun _ T hT => ?_
    have he := Session.Edit.acquired (hg trivial) name (Store.isAlive_of_checkUsable hu)
    exact leads_pure ⟨hT ▸ he.edits, trivial⟩
  | same first second =>
    exact edits_bind_find fun s _ => edits_bind_find fun t _ => edits_pure trivial
  | allocateNative size align scope name? =>
    refine edits_bind_find fun s _ => edits_provide name? ?_
    exact (ScopeId.provides_allocateNative s size align).imp fun r _ h => h.1.symm ▸ h.2
  | resolve start length scope name? =>
    refine edits_bind_find fun s _ => ?_
    have hk : (s.resolve start length).Keeps ctx S.store fun r? τ =>
        ∀ r, r? = some r → τ.IsAlive r.scope := by
      refine Operation.keeps_of_same ((VariadicList.leads_resolve s start length).imp
        (fun r? τ h => ?_) fun _ h => h)
      obtain ⟨rfl, hr⟩ := h
      refine ⟨fun r he => ?_, rfl⟩
      obtain ⟨hu, rfl, _⟩ := hr r he
      exact Store.isAlive_of_checkUsable hu
    refine (edits_lift hk).bind fun r? T hT => ?_
    obtain ⟨τ, _, hr, rfl⟩ := hT
    cases r? with
    | none => exact edits_pure trivial
    | some r => exact edits_keepRegion name? false (hr r rfl).holds

theorem RegionCall.edits (hS : S.Rooted) (c : RegionCall) :
    c.perform.Edits governs ctx S fun _ _ => True := by
  have hsame : ∀ τ : Store, τ = S.store → ∃ m, τ = S.store.setMemory m := fun τ hτ =>
    ⟨S.store.memory, hτ⟩
  cases c with
  | adopt start length scope name? =>
    refine edits_bind_find fun s hn => ?_
    have hk : (Region.ofAddress start length s).Keeps ctx S.store fun r _ => r.scope = s := by
      refine Operation.keeps_of_same (Region.leads_ofAddress.imp (fun r τ h => ?_) fun _ h => h)
      obtain ⟨_, rfl, rfl⟩ := h
      exact ⟨rfl, rfl⟩
    refine (edits_lift hk).bind fun r T hT => ?_
    obtain ⟨τ, hτ, hr, rfl⟩ := hT
    exact edits_keepRegion name? true (hr.symm ▸ hτ.holds (hS.of_scope? hn))
  | slice region offset length name? =>
    refine edits_bind_find fun p _ => ?_
    refine (edits_lift Region.keeps_slice).bind fun r T hT => ?_
    obtain ⟨τ, _, hr, rfl⟩ := hT
    exact edits_keepRegion name? p.2 hr.holds
  | sliceFrom region offset name? =>
    refine edits_bind_find fun p hn => ?_
    have hk : (p.1.sliceFrom offset).Keeps ctx S.store fun r _ => r.scope = p.1.scope := by
      refine Operation.keeps_of_same (Region.leads_sliceFrom.imp (fun r τ h => ?_) fun _ h => h)
      obtain ⟨length, _, _, rfl, rfl⟩ := h
      exact ⟨rfl, rfl⟩
    refine (edits_lift hk).bind fun r T hT => ?_
    obtain ⟨τ, hτ, hr, rfl⟩ := hT
    exact edits_keepRegion name? p.2 (hr.symm ▸ hτ.holds (hS.of_region? hn))
  | belongs region scope =>
    exact edits_bind_find fun p _ => edits_bind_find fun s _ => edits_pure trivial
  | read length region offset =>
    refine edits_bind_find fun p _ => edits_access _ ?_
    exact Region.leads_read.imp (fun _ τ h => hsame τ h.2.2) fun _ h => h
  | write region offset bytes =>
    refine edits_bind_find fun p _ => edits_access (fun _ => Reply.done) ?_
    exact Region.leads_write.imp (fun _ _ h => ⟨_, h.2⟩) fun _ h => h
  | get layout offset type region =>
    refine edits_bind_find fun p _ => edits_access _ ?_
    exact Region.leads_get.imp (fun _ τ h => hsame τ h.2.2) fun _ h => h
  | set layout offset region value =>
    refine edits_bind_find fun p _ => edits_access (fun _ => Reply.done) ?_
    exact Region.leads_set.imp (fun _ _ h => ⟨_, h.2.2⟩) fun _ h => h
  | getAddress region layout offset =>
    refine edits_bind_find fun p _ => edits_access _ ?_
    refine Region.leads_getAddress.imp (fun _ τ h => ?_) fun _ h => h
    obtain ⟨_, _, _, _, hτ⟩ := h
    exact hsame τ hτ
  | setAddress value region layout offset =>
    refine edits_bind_find fun p _ => edits_access (fun _ => Reply.done) ?_
    refine Region.leads_setAddress.imp (fun _ τ h => ?_) fun _ h => h
    obtain ⟨_, _, _, hτ⟩ := h
    exact ⟨_, hτ⟩
  | copyFrom region source =>
    refine edits_bind_find fun p _ => edits_bind_find fun q _ => ?_
    refine edits_access (fun _ => Reply.done) ?_
    exact Region.leads_copyFrom.imp (fun _ _ h => ⟨_, h.2.2⟩) fun _ h => h
  | fill region value =>
    refine edits_bind_find fun p _ => edits_access (fun _ => Reply.done) ?_
    exact Region.leads_fill.imp (fun _ _ h => ⟨_, h.2⟩) fun _ h => h
  | contents region =>
    refine edits_bind_find fun p _ => ?_
    refine (edits_lift Region.keeps_contents).bind fun bytes? T _ => ?_
    split
    next => exact edits_pure trivial
    next => exact edits_throw _

theorem AllocationCall.edits (hS : S.Rooted) (c : AllocationCall) :
    c.perform.Edits governs ctx S fun _ _ => True := by
  cases c with
  | arena scope capacity config access name =>
    refine edits_bind_find fun s _ => ?_
    refine (edits_lift (ArenaId.keeps_create capacity config s)).bind fun a T hT => ?_
    obtain ⟨τ, _, ⟨ha, halive⟩, rfl⟩ := hT
    refine edits_keepHandle name ⟨⟨fun t ht => ?_, fun b hb => ?_⟩, id⟩
    · obtain rfl := List.mem_singleton.mp ht
      exact halive.holds
    · cases hb
      exact ha
  | direct scope name =>
    refine edits_bind_find fun s hn => ?_
    have hp : (Handle.allocator (.direct s)).Plain S.store :=
      Handle.plain_of_scope rfl rfl id (hS.of_scope? hn)
    exact (edits_rename name hp).bind fun _ _ _ => edits_pure trivial
  | perRequest kind name =>
    have hp : (Handle.allocator (.perRequest kind)).Plain S.store :=
      ⟨⟨fun t ht => (List.not_mem_nil ht).elim, fun _ ha => by cases ha⟩, id⟩
    exact (edits_rename name hp).bind fun _ _ _ => edits_pure trivial
  | recycling region name =>
    refine edits_bind_find fun p hn => ?_
    have hp : (Handle.allocator (.recycling p.1)).Plain S.store :=
      Handle.plain_of_scope rfl rfl id (hS.of_region? hn)
    exact (edits_rename name hp).bind fun _ _ _ => edits_pure trivial
  | allocate request allocator name? =>
    exact edits_bind_find fun w _ => edits_provide name? (w.provides_serve request)
  | allocateParallel target size align threads count =>
    refine edits_bind_find fun a _ => ?_
    exact (edits_lift (Allocator.keeps_allocateEach _ size align _)).bind fun _ _ _ =>
      edits_pure trivial

/-! ### Lists of arguments -/

theorem ArgumentSource.edits_resolve (hS : S.Rooted) (source : ArgumentSource) :
    source.resolve.Edits governs ctx S fun v T =>
      T = S ∧ ∀ l r, Argument.region? ⟨l, v⟩ = some r → S.store.Holds r.scope := by
  cases source with
  | segment region =>
    refine edits_bind_find fun p hn => edits_pure ⟨rfl, fun l r hr => ?_⟩
    cases hr
    exact hS.of_region? hn
  | _ => exact edits_pure ⟨rfl, fun l r hr => by cases hr⟩

theorem ArgumentSource.edits_resolveAll (hS : S.Rooted)
    (arguments : List (Layout × ArgumentSource)) :
    (arguments.mapM fun arg => return (arg.1, ← arg.2.resolve) :
      Turn (List (Layout × ArgumentValue))).Edits governs ctx S fun _ T => T = S := by
  induction arguments with
  | nil => exact edits_pure rfl
  | cons arg arguments ih =>
    rw [List.mapM_cons]
    have hone : (do return (arg.1, ← arg.2.resolve) : Turn (Layout × ArgumentValue)).Edits
        governs ctx S fun _ T => T = S :=
      (arg.2.edits_resolve hS).bind fun v T hT => edits_pure hT.1
    refine hone.bind fun v T hT => ?_
    subst hT
    exact ih.bind fun _ _ hT => edits_pure hT

/-- The list under the name has been read from. -/
theorem Turn.edits_advance {name : Name} {v v' : VariadicList} (hS : S.Rooted)
    (hn : S.list? name = some v) (hv : v'.scope = v.scope) {τ : Store} (hk : S.store.Keeps τ) :
    (update name (.list v')).Edits governs ctx { S with store := τ } fun _ T =>
      T = { S with store := τ, handles := S.handles.put name (.list v') } := by
  have hh : τ.Holds v'.scope := by
    rw [hv]
    exact hk.holds (hS.of_list? hn)
  refine edits_update (Session.find?_of_list? hn) id (Handle.plain_of_scope rfl rfl id hh)
    fun s hs => ?_
  rw [List.mem_singleton.mp hs]
  exact List.mem_singleton.mpr hv.symm

theorem Turn.edits_reading {α : Type} {name : Name} {v : VariadicList} (hS : S.Rooted)
    (hn : S.list? name = some v) {x : Operation α} (rest : α → VariadicList) (reply : α → Reply)
    (hx : x.Leads ctx S.store (fun a τ => v.Advanced (rest a) ∧ τ = S.store) (· = S.store)) :
    (do
      let a ← lift x
      update name (.list (rest a))
      return reply a : Turn Reply).Edits governs ctx S fun _ _ => True := by
  have hk : x.Keeps ctx S.store fun a _ => (rest a).scope = v.scope := by
    refine Operation.keeps_of_same (hx.imp (fun a τ h => ?_) fun _ h => h)
    obtain ⟨⟨_, _, _, _, _, hr⟩, rfl⟩ := h
    rw [hr]
    exact ⟨rfl, rfl⟩
  refine (edits_lift hk).bind fun a T hT => ?_
  obtain ⟨τ, hτ, hr, rfl⟩ := hT
  exact (edits_advance hS hn hr hτ).bind fun _ _ _ => edits_pure trivial

theorem VariadicCall.edits_readSegment (hS : S.Rooted) (l : Layout) (list allocator : Name)
    (name? : Option Name) :
    (VariadicCall.readSegment l list allocator name?).perform.Edits governs ctx S
      fun _ _ => True := by
  refine edits_bind_claim fun v hn => edits_bind_find fun w _ => ?_
  refine (edits_lift (VariadicList.keeps_readSegment l w)).bind fun p T hT => ?_
  obtain ⟨r, rest⟩ := p
  obtain ⟨τ, hτ, ⟨hr, hrest⟩, rfl⟩ := hT
  refine (edits_advance hS hn hrest hτ).bind fun _ T hT => ?_
  subst hT
  refine edits_bind_get ?_
  have hcon : (Operation.attempt r.contents).Keeps ctx τ fun _ ρ => ρ = τ := by
    refine Operation.keeps_of_same (Operation.leads_attempt ?_)
    exact Region.leads_contents.imp (fun _ ρ h => ⟨h.2, h.2⟩) fun ρ h _ => ⟨h, h⟩
  refine (edits_lift hcon).bind fun contents U hU => ?_
  obtain ⟨ρ, _, rfl, rfl⟩ := hU
  refine (edits_keep name? (Handle.plain_of_scope rfl rfl id hr.holds)).bind fun _ V _ => ?_
  split
  next => exact edits_pure trivial
  next => exact edits_throw _
  next => exact edits_pure trivial

/-- A list that an operation makes is kept. -/
theorem Turn.edits_makeList {x : Operation VariadicList} {s : ScopeId} (name : Name)
    (h0 : S.store.Holds 0) (hs : S.store.Holds s)
    (hx : x.Keeps ctx S.store fun v _ => v.scope = 0 ∨ v.scope = s) :
    (do keepList name (← lift x) : Turn Reply).Edits governs ctx S fun _ _ => True := by
  refine (edits_lift hx).bind fun v T hT => ?_
  obtain ⟨τ, hτ, hv, rfl⟩ := hT
  refine edits_keepList name (hτ.holds ?_)
  rcases hv with hv | hv
  · rw [hv]
    exact h0
  · rw [hv]
    exact hs

/-- A builder refers to the scopes of its arguments besides its own. -/
theorem Handle.Rooted.push {σ : Store} {b : VariadicBuilder} (hb : Handle.Rooted (.builder b) σ)
    {arg : Argument} (ha : ∀ r, arg.region? = some r → σ.Holds r.scope) :
    Handle.Plain (.builder { b with arguments := b.arguments ++ [arg] }) σ := by
  refine ⟨⟨fun s hs => ?_, fun _ h => by cases h⟩, id⟩
  simp only [Handle.scopes, List.filterMap_append, List.map_append, List.mem_cons,
    List.mem_append] at hs
  rcases hs with rfl | hs | hs
  · exact hb.scopes _ List.mem_cons_self
  · exact hb.scopes s (List.mem_cons_of_mem _ hs)
  · obtain ⟨r, hm, rfl⟩ := List.mem_map.mp hs
    obtain ⟨arg', harg, hr⟩ := List.mem_filterMap.mp hm
    rw [List.mem_singleton.mp harg] at hr
    exact ha r hr

theorem VariadicCall.edits_builder (hS : S.Rooted) (scope : Name) (convention : Convention)
    (name : Name) :
    (VariadicCall.builder scope convention name).perform.Edits governs ctx S fun _ _ => True := by
  refine edits_bind_find fun s hn => ?_
  have hk : (VariadicBuilder.create convention s).Keeps ctx S.store
      fun b _ => b = ⟨convention, s, []⟩ :=
    Operation.keeps_of_same ((VariadicBuilder.leads_create convention s).imp
      (fun _ _ h => h.2) fun _ h => h)
  refine (edits_lift hk).bind fun b T hT => ?_
  obtain ⟨τ, hτ, rfl, rfl⟩ := hT
  have hs : τ.Holds s := hτ.holds (hS.of_scope? hn)
  exact edits_keepHandle name (Handle.plain_of_scope rfl rfl id hs)

theorem VariadicCall.edits_push (hS : S.Rooted) (layout : Layout) (value : ArgumentSource)
    (target : Name) :
    (VariadicCall.push layout value target).perform.Edits governs ctx S fun _ _ => True := by
  refine (value.edits_resolve hS).bind fun v T hT => ?_
  obtain ⟨rfl, hv⟩ := hT
  refine edits_bind_find fun b hn => ?_
  have hf := Session.find?_of_builder? hn
  have hk : (b.push layout v).Keeps ctx T.store
      fun b' _ => b' = { b with arguments := b.arguments ++ [⟨layout, v⟩] } :=
    Operation.keeps_of_same ((VariadicBuilder.leads_push layout v).imp
      (fun _ _ h => ⟨h.2.1, h.1⟩) fun _ h => h)
  refine (edits_lift hk).bind fun b' U hU => ?_
  obtain ⟨τ, hτ, rfl, rfl⟩ := hU
  have hb : Handle.Rooted (.builder b) τ :=
    ⟨fun s hs => hτ.holds ((hS.find hf).scopes s hs), fun _ ha => by cases ha⟩
  have hp : (Handle.builder { b with arguments := b.arguments ++ [⟨layout, v⟩] }).Plain τ :=
    hb.push fun r hr => hτ.holds (hv layout r hr)
  refine (edits_update (S := { T with store := τ }) hf id hp
    fun s hs => ?_).bind fun _ _ _ => edits_pure trivial
  rcases List.mem_cons.mp hs with rfl | hs
  · exact List.mem_cons_self
  · refine List.mem_cons_of_mem _ ?_
    rw [List.filterMap_append, List.map_append]
    exact List.mem_append_left _ hs

theorem VariadicCall.edits_build (hS : S.Rooted) (source name : Name) :
    (VariadicCall.build source name).perform.Edits governs ctx S fun _ _ => True := by
  refine edits_bind_find fun b hn => ?_
  have hf := Session.find?_of_builder? hn
  refine leads_forget.chain (fun _ hf => hf.elim) fun _ T hT => ?_
  subst hT
  refine leads_discard.chain (fun _ hf => hf.elim) fun _ T hT => ?_
  have hlost : T = S.lost source := by
    unfold Session.lost
    rw [hT, hf]
  have hstore : T.store = S.store := by rw [hT]
  have hmake : (do keepList name (← lift b.build) : Turn Reply).Edits governs ctx T
      fun _ _ => True := by
    refine edits_makeList name ?_ ?_ (VariadicBuilder.keeps_build b)
    · rw [hstore]
      exact hS.global
    · rw [hstore]
      exact (hS.find hf).scopes _ List.mem_cons_self
  have hlose : S.Edits governs T := hlost ▸ (Session.Edit.lost source).edits
  exact hmake.imp (fun _ _ h => ⟨hlose.trans h.1, h.2⟩) fun _ h => hlose.trans h

theorem VariadicCall.edits (hS : S.Rooted) (c : VariadicCall) :
    c.perform.Edits governs ctx S fun _ _ => True := by
  cases c with
  | builder scope convention name => exact edits_builder hS scope convention name
  | push layout value target => exact edits_push hS layout value target
  | build source name => exact edits_build hS source name
  | make arguments scope convention name =>
    refine (ArgumentSource.edits_resolveAll hS arguments).bind fun args T hT => ?_
    subst hT
    refine edits_bind_find fun s hn => ?_
    exact edits_makeList name hS.global (hS.of_scope? hn)
      (VariadicList.keeps_make convention s args)
  | empty convention name => exact edits_keepList name hS.global
  | adopt start scope convention name =>
    refine edits_bind_find fun s hn => ?_
    have hk : (VariadicList.ofAddress convention start s).Keeps ctx S.store
        fun v _ => v.scope = 0 ∨ v.scope = s :=
      Operation.keeps_of_same ((VariadicList.leads_ofAddress convention start s).imp
        (fun _ _ h => ⟨Or.inr h.2.1, h.1⟩) fun _ h => h)
    exact edits_makeList name hS.global (hS.of_scope? hn) hk
  | read layout type list =>
    refine edits_bind_find fun v hn => edits_reading hS hn Prod.snd Prod.fst ?_
    exact (VariadicList.leads_readAs layout type).imp (fun _ _ h => ⟨h.2, h.1⟩) fun _ h => h
  | readSegment layout list allocator name? =>
    exact edits_readSegment hS layout list allocator name?
  | skip layouts list =>
    refine edits_bind_find fun v hn => edits_reading hS hn id (fun rest => .list rest.view) ?_
    exact VariadicList.leads_skip layouts
  | copy list name =>
    refine edits_bind_find fun v hn => ?_
    refine edits_makeList name hS.global (hS.of_list? hn)
      (Operation.keeps_of_same (VariadicList.leads_copy.imp (fun v' τ h => ⟨?_, h.2⟩) fun _ h => h))
    rcases h.1 with rfl | rfl
    · exact Or.inr rfl
    · exact Or.inl rfl

/-- What a call does to a session is a number of edits, however it ends. -/
theorem Call.edits (hS : S.Rooted) (c : Call) (hg : c.Governs → governs) :
    c.perform.Edits governs ctx S fun _ _ => True := by
  cases c with
  | handle c => exact c.edits hS
  | scope c => exact c.edits hS hg
  | region c => exact c.edits hS
  | allocation c => exact c.edits hS
  | variadic c => exact c.edits hS

end ScopedMemory
