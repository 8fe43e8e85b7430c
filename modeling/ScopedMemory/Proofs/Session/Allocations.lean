import ScopedMemory.Proofs.Session.Scopes

namespace ScopedMemory

open Turn

variable {system : SystemAllocator} {strict : Prop} {G : List Region} {S : Session}
  {ctx : Context}

theorem Allocator.Known.later {w : Allocator} {σ τ : Store} (h : w.Known σ) (hl : σ.Later τ) :
    w.Known τ := fun a ha => Nat.lt_of_lt_of_le (h a ha) hl.arenas

/-- The outcomes of one request for every thread. -/
theorem Allocator.leads_allocateEach {w : Allocator} {waiting : List Block} {σ : Store}
    (hs : σ.Sound system strict waiting) (hw : ctx.system.Within system) (hk : w.Known σ)
    (hf : w.IsFresh) (size align : Word) (threads : List Thread) :
    (w.allocateEach size align threads).Leads ctx σ
      (fun outcomes τ => σ.Changes system False (outcomes.filterMap Except.toOption) τ ∧
        ∀ r ∈ outcomes.filterMap Except.toOption, Grant.Met ⟨r, size, align⟩ system τ)
      fun _ => False := by
  unfold allocateEach
  induction threads generalizing σ with
  | nil => exact Operation.leads_pure ⟨.refl, fun r hr => by cases hr⟩
  | cons t threads ih =>
    rw [List.mapM_cons]
    have hw' : ({ ctx with caller := t } : Context).system.Within system := hw
    have hx := serves_allocate hs hw' hk hf size align
    have hone : (Operation.attempt (Operation.asThread t (w.allocate size align))).Leads ctx σ
        (fun outcome τ => σ.Changes system False outcome.toOption.toList τ ∧
          ∀ r ∈ outcome.toOption.toList, Grant.Met ⟨r, size, align⟩ system τ) fun _ => False := by
      refine Operation.leads_attempt (Operation.leads_asThread (hx.imp (fun r τ hr => ?_) ?_))
      · refine ⟨hr.1, fun r' hr' => ?_⟩
        obtain rfl := List.mem_singleton.mp hr'
        exact ⟨hr.2.size, hr.2.align, (Store.checkUsable_eq_ok_iff.mp hr.2.usable).2⟩
      · exact fun τ hτ e => ⟨hτ, fun r hr => by cases hr⟩
    refine hone.bind fun outcome τ ho => ?_
    refine (ih (ho.1.sound hs) (hk.later ho.1.extends.toLater)).bind fun outcomes ρ hos => ?_
    have hsplit : (outcome :: outcomes).filterMap Except.toOption =
        outcome.toOption.toList ++ outcomes.filterMap Except.toOption := by
      cases outcome <;> rfl
    refine Operation.leads_pure ?_
    rw [hsplit]
    refine ⟨ho.1.trans hos.1, fun r hr => ?_⟩
    rcases List.mem_append.mp hr with hr | hr
    · have hm := ho.2 r hr
      exact ⟨hm.size, hm.align, hos.1.extends.isAlive hm.alive⟩
    · exact hos.2 r hr

theorem AllocationCall.safe_allocate (hsep : system.Separate) (h : S.Sound system strict G)
    (hw : ctx.system.Within system) (q : AllocationRequest) (allocator : Name)
    (name? : Option Name) :
    (AllocationCall.allocate q allocator name?).perform.Safe system strict G
      (AllocationCall.grants ctx S (.allocate q allocator name?)) ctx S := by
  refine leads_lookup.chain (fun T hT => ?_) fun w T hT => ?_
  · have hg : AllocationCall.grants ctx S (.allocate q allocator name?) = [] := by
      simp only [AllocationCall.grants, hT.1]
    rw [hg, hT.2]
    exact .refl h
  obtain ⟨hn, rfl⟩ := hT
  obtain ⟨hk, hrec⟩ := h.of_allocator? hn
  have hserve := Allocator.leads_serve h.store hw hk q
  by_cases hf : w.IsFresh
  · cases hd : q.dimensions with
    | error e =>
      have hg : AllocationCall.grants ctx T (.allocate q allocator name?) = [] := by
        simp only [AllocationCall.grants, hn, hd]
      rw [hg]
      refine (leads_lift hserve).chain (fun U hU => ?_) fun r U hU => ?_
      · obtain ⟨τ, ⟨rs, hc⟩, rfl⟩ := hU
        exact .changes h hsep hc
      · obtain ⟨_, ⟨_, _, _, _, hd', _⟩, _⟩ := hU
        cases hd.symm.trans hd'
    | ok dims =>
      obtain ⟨size, align⟩ := dims
      have hg : AllocationCall.grants ctx T (.allocate q allocator name?) =
          ((w.serve q).value? ctx T.store).toList.map (⟨·, size, align⟩) := by
        simp only [AllocationCall.grants, hn, hd, if_pos hf]
      rw [hg]
      have hx : (w.serve q).Leads ctx T.store
          (fun r τ => T.store.Changes system True [r] τ ∧
            Grant.Met ⟨r, size, align⟩ system τ ∧ True)
          fun τ => ∃ rs, T.store.Changes system True rs τ := by
        refine hserve.imp (fun r τ hr => ?_) fun τ hr => hr.imp fun _ hc => hc.mono False.elim
        obtain ⟨size', align', bytes, ρ, hd', _, hgive, _, rfl⟩ := hr
        cases hd.symm.trans hd'
        have hc := (hgive.changes.mono False.elim).memory trivial
          (ρ.memory.write r.start.toNat bytes)
        rw [Allocator.grants_of_isFresh hf] at hc
        exact ⟨hc, ⟨hgive.size, hgive.align hf, (Store.checkUsable_eq_ok_iff.mp hgive.usable).2⟩,
          trivial⟩
      refine (leads_granting (g := fun r => r) (E := fun _ _ => True) hsep h hx).bind ?_
      intro r U hU
      obtain ⟨hc, _, hi, ha, _⟩ := hU
      refine leads_keepRegion.imp (fun _ V hV => ?_) fun _ hf => hf.elim
      rw [hV.2]
      exact hc.kept name? (Handle.sound_region (Store.IsAlive.holds ha) fun _ => hi)
  · have hg : AllocationCall.grants ctx T (.allocate q allocator name?) = [] := by
      cases hd : q.dimensions with
      | error e => simp only [AllocationCall.grants, hn, hd]
      | ok dims => simp only [AllocationCall.grants, hn, hd, if_neg hf]
    rw [hg]
    refine (leads_lift hserve).chain (fun U hU => ?_) fun r U hU => ?_
    · obtain ⟨τ, ⟨rs, hc⟩, rfl⟩ := hU
      exact .changes h hsep hc
    obtain ⟨τ, ⟨size, align, bytes, ρ, _, _, hgive, _, rfl⟩, rfl⟩ := hU
    cases w with
    | recycling r₀ =>
      obtain ⟨hs, hr⟩ := hgive.recycled r₀ rfl
      have hx := hgive.changes.extends
      have hi := (hrec r₀ rfl).2
      have hc : T.Comes system strict G []
          { T with store := ρ.setMemory (ρ.memory.write r.start.toNat bytes) } :=
        .changes h hsep ((hgive.changes.mono False.elim).memory trivial _)
      refine leads_keepRegion.imp (fun _ V hV => ?_) fun _ hf => hf.elim
      rw [hV.2]
      refine hc.kept name? (Handle.sound_region ?_ fun hst => ?_)
      · exact Store.IsAlive.holds (Store.checkUsable_eq_ok_iff.mp hgive.usable).2
      · rw [hr]
        exact ((hi hst).later hx.toLater).narrow hs
    | _ => exact absurd trivial hf

theorem AllocationCall.safe (hsep : system.Separate) (h : S.Sound system strict G)
    (hw : ctx.system.Within system) (c : AllocationCall) :
    c.perform.Safe system strict G (c.grants ctx S) ctx S := by
  cases c with
  | arena scope capacity config access name =>
    refine leads_bind_find (.refl h) fun s hn => ?_
    refine (leads_lift (ArenaId.leads_create capacity config s)).chain
      (fun U hU => .of_same h hU) fun a U hU => ?_
    obtain ⟨τ, ⟨_, hu, rfl, rfl⟩, rfl⟩ := hU
    have ha := (Store.checkUsable_eq_ok_iff.mp hu).2
    have hch : S.store.Changes system False []
        (S.store.addArena ⟨s, capacity, config.blockAlign, none, {}⟩) :=
      (Store.Change.arena ha rfl).changes
    have hc : S.Comes system strict G [] { S with store := _ } := .changes h hsep hch
    refine leads_keepHandle.imp (fun _ V hV => ?_) fun _ hf => hf.elim
    rw [hV.2]
    refine hc.renamed name (Handle.sound_arena (by simp) ?_)
    simp only [Store.arena_addArena, if_true]
    exact (Store.IsAlive.holds ha).later hch.extends.toLater hch.extends.spares
  | direct scope name =>
    refine leads_bind_find (.refl h) fun s hn => ?_
    refine leads_rename.chain (fun _ hf => hf.elim) fun _ U hU => ?_
    subst hU
    exact leads_pure ((Session.Comes.refl h).renamed name (Handle.sound_direct (h.of_scope? hn)))
  | perRequest kind name =>
    refine leads_rename.chain (fun _ hf => hf.elim) fun _ U hU => ?_
    subst hU
    exact leads_pure ((Session.Comes.refl h).renamed name (Handle.sound_perRequest kind))
  | recycling region name =>
    refine leads_bind_find (.refl h) fun p hn => ?_
    obtain ⟨r, adopted⟩ := p
    obtain ⟨hh, hi⟩ := h.of_region? hn
    refine leads_rename.chain (fun _ hf => hf.elim) fun _ U hU => ?_
    subst hU
    exact leads_pure ((Session.Comes.refl h).renamed name (Handle.sound_recycling hh hi))
  | allocate q allocator name? => exact safe_allocate hsep h hw q allocator name?
  | allocateParallel target size align threads count =>
    refine leads_lookup.chain (fun T hT => ?_) fun a T hT => ?_
    · have hg : AllocationCall.grants ctx S
          (.allocateParallel target size align threads count) = [] := by
        simp only [AllocationCall.grants, hT.1]
      rw [hg]
      exact .of_eq h hT.2
    obtain ⟨hn, rfl⟩ := hT
    have hk : (Allocator.arena a).Known T.store := fun b hb => by
      cases hb
      exact h.of_sharedArena? hn
    have hx := (Allocator.leads_allocateEach h.store hw hk trivial size align
      (callers threads count)).value
    refine (leads_lift hx).chain (fun _ hU => ?_) fun outcomes U hU => ?_
    · obtain ⟨_, hf, _⟩ := hU
      exact hf.2.elim
    obtain ⟨τ, ⟨hv, hc, hm⟩, rfl⟩ := hU
    have hg : AllocationCall.grants ctx T (.allocateParallel target size align threads count) =
        (outcomes.filterMap Except.toOption).map (⟨·, size, align⟩) := by
      simp only [AllocationCall.grants, hn, hv, Option.getD_some]
    rw [hg]
    refine leads_pure (.granted h hsep hc ?_ fun g hg => ?_)
    · rw [List.map_map]
      exact List.map_id _
    · obtain ⟨r, hr, rfl⟩ := List.mem_map.mp hg
      exact hm r hr

end ScopedMemory
