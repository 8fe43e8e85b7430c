import ScopedMemory.Proofs.Arrays.Calls

namespace ScopedMemory

open Turn

variable {system : SystemAllocator} {strict : Prop} {G : List Region} {A : ArrayStore}
  {S : Session} {ctx : Context}

theorem Session.Mirrors.recycled {r₀ : Region} {v : View} {size : Word} {bytes : Bytes}
    (h : S.Mirrors G A) (hl : S.store.Ledger G) (hd : v.Denotes G r₀) (hs : r₀.Spans 0 size)
    (ha : S.store.IsAlive r₀.scope) (hfit : bytes.length ≤ size.toNat) (name? : Option Name)
    (adopted : Bool) :
    (Session.kept
      { S with
        store := S.store.setMemory
          (S.store.memory.write (r₀.narrow 0 size).start.toNat bytes) } name?
      (.region (r₀.narrow 0 size) adopted)).Mirrors G
        ((A.write v 0 bytes).keep name? (some (v.narrow 0 size.toNat))) := by
  have hstart : (r₀.narrow 0 size).start.toNat = r₀.start.toNat + 0 :=
    Region.toNat_start_narrow hs
  have hfit' : 0 + bytes.length ≤ r₀.size.toNat := by
    have := hs.1
    change 0 + size.toNat ≤ _ at this
    omega
  have hw := h.write hl hd ha hfit'
  rw [hstart]
  exact hw.kept name? (hd.narrow hs)

theorem AllocationCall.replays_allocate (hsep : system.Separate) (h : S.Mirrors G A)
    (hS : S.Sound system strict G) (hw : ctx.system.Within system) (q : AllocationRequest)
    (allocator : Name) (name? : Option Name) :
    (Call.allocation (.allocate q allocator name?)).Replays ctx S G A := by
  unfold Call.Replays
  have hnone : S.allocator? allocator = none →
      Call.grants ctx S (.allocation (.allocate q allocator name?)) = [] := fun hn => by
    simp only [Call.grants, AllocationCall.grants, hn]
  refine leads_lookup.chain (fun T hT _ => ?_) fun w T hT => ?_
  · rw [hnone hT.1, List.map_nil, List.append_nil, hT.2]
    exact h
  obtain ⟨hn, rfl⟩ := hT
  have hx := (Allocator.leads_serve hS.store hw (hS.of_allocator? hn).1 q).value
  have hfailed : (w.serve q).value? ctx T.store = none →
      Call.grants ctx T (.allocation (.allocate q allocator name?)) = [] := fun hv => by
    cases hq : q.dimensions with
    | error e => simp only [Call.grants, AllocationCall.grants, hn, hq]
    | ok dims =>
      simp only [Call.grants, AllocationCall.grants, hn, hq, hv, Option.toList_none,
        List.map_nil, ite_self]
  refine (leads_lift hx).chain (fun U hU _ => ?_) fun r U hU => ?_
  · obtain ⟨τ, ⟨hv, rs, hc⟩, rfl⟩ := hU
    rw [hfailed hv, List.map_nil, List.append_nil]
    exact h.unseen hS hsep hc
  obtain ⟨τ, ⟨hv, size, align, bytes, ρ, hq, hi, hg, ht, rfl⟩, rfl⟩ := hU
  have ha : ρ.IsAlive r.scope := (Store.checkUsable_eq_ok_iff.mp hg.usable).2
  have hfit : bytes.length ≤ r.size.toNat := by
    have := ht.1
    change 0 + bytes.length ≤ _ at this
    omega
  refine leads_keepRegion.imp (fun reply V hV => ?_) fun _ hf => hf.elim
  rw [hV.2]
  simp only [Call.replay, AllocationCall.replay, hq, hi]
  rcases h.of_allocator? hn with ⟨hf, hnamed⟩ | ⟨r₀, v, rfl, hnamed, hd⟩
  · have hgrants : Call.grants ctx T (.allocation (.allocate q allocator name?)) =
        [⟨r, size, align⟩] := by
      simp only [Call.grants, AllocationCall.grants, hn, hq, if_pos hf, hv, Option.toList_some,
        List.map_cons, List.map_nil]
    have hc := hg.changes
    rw [Allocator.grants_of_isFresh hf] at hc
    rw [hgrants, hnamed]
    have hT := h.allocated hS hsep hc ha hfit name? false
    rw [hg.size] at hT
    exact hT
  · have hgrants : Call.grants ctx T (.allocation (.allocate q allocator name?)) = [] := by
      have hnf : ¬ (Allocator.recycling r₀).IsFresh := id
      simp only [Call.grants, AllocationCall.grants, hn, hq, if_neg hnf]
    obtain ⟨hs, rfl⟩ := hg.recycled r₀ rfl
    have hc : T.store.Changes system False [] ρ := hg.changes
    have hρ := h.unseen hS hsep hc
    have hl : ρ.Ledger G := by
      have hl := hc.ledger hsep hS.store hS.ledger
      rwa [List.append_nil] at hl
    rw [hgrants, hnamed, List.map_nil, List.append_nil]
    exact hρ.recycled hl hd hs ha hfit name? false

theorem AllocationCall.replays_arena (hsep : system.Separate) (h : S.Mirrors G A)
    (hS : S.Sound system strict G) (scope : Name) (capacity : ArenaCapacity) (config : ArenaConfig)
    (access : ArenaAccess) (name : Name) :
    (Call.allocation (.arena scope capacity config access name)).Replays ctx S G A := by
  apply Call.replays_of rfl
  refine leads_bind_find (fun _ => h) fun s hn => ?_
  refine (leads_lift (ArenaId.leads_create capacity config s)).chain
    (fun _ hU _ => h.of_same hU) fun a U hU => ?_
  obtain ⟨τ, ⟨_, hu, _, rfl⟩, rfl⟩ := hU
  have hc : S.store.Changes system False []
      (S.store.addArena ⟨s, capacity, config.blockAlign, none, {}⟩) :=
    (Store.Change.arena (Store.checkUsable_eq_ok_iff.mp hu).2 rfl).changes
  refine leads_keepHandle.imp (fun _ V hV => ?_) fun _ hf => hf.elim
  rw [hV.2]
  exact (h.unseen hS hsep hc).renamed name trivial

/-- Every region that the requests in parallel were served with is a new array. -/
theorem AllocationCall.replays_allocateParallel (hsep : system.Separate) (h : S.Mirrors G A)
    (hS : S.Sound system strict G) (hw : ctx.system.Within system) (target : Name)
    (size align : Word) (threads count : Nat) :
    (Call.allocation (.allocateParallel target size align threads count)).Replays ctx S G A := by
  unfold Call.Replays
  refine leads_lookup.chain (fun T hT _ => ?_) fun a T hT => ?_
  · have hg : Call.grants ctx S
        (.allocation (.allocateParallel target size align threads count)) = [] := by
      simp only [Call.grants, AllocationCall.grants, hT.1]
    rw [hg, List.map_nil, List.append_nil, hT.2]
    exact h
  obtain ⟨hn, rfl⟩ := hT
  have hk : (Allocator.arena a).Known T.store := fun b hb => by
    cases hb
    exact hS.of_sharedArena? hn
  have hx := (Allocator.leads_allocateEach hS.store hw hk trivial size align
    (AllocationCall.callers threads count)).value
  refine (leads_lift hx).chain (fun U hU => ?_) fun outcomes U hU => ?_
  · obtain ⟨_, hf, _⟩ := hU
    exact hf.2.elim
  obtain ⟨τ, ⟨hv, hc, hm⟩, rfl⟩ := hU
  have hgrants : (Call.grants ctx T
      (.allocation (.allocateParallel target size align threads count))).map (·.region) =
      outcomes.filterMap Except.toOption := by
    simp only [Call.grants, AllocationCall.grants, hn, hv, Option.getD_some, List.map_map]
    exact List.map_id _
  have hsizes : (outcomes.filterMap Except.toOption).map (·.size.toNat) =
      List.replicate (outcomes.filterMap Except.toOption).length size.toNat := by
    refine List.eq_replicate_iff.mpr ⟨List.length_map _, fun n hn => ?_⟩
    obtain ⟨r, hr, rfl⟩ := List.mem_map.mp hn
    have hsize : r.size = size := (hm r hr).size
    rw [hsize]
  have hT := h.changes hS hsep hc
  rw [hsizes] at hT
  apply leads_pure
  rw [hgrants]
  exact hT

theorem AllocationCall.replays (hsep : system.Separate) (h : S.Mirrors G A)
    (hS : S.Sound system strict G) (hw : ctx.system.Within system) (c : AllocationCall) :
    (Call.allocation c).Replays ctx S G A := by
  cases c with
  | arena scope capacity config access name =>
    exact replays_arena hsep h hS scope capacity config access name
  | direct scope name =>
    apply Call.replays_of rfl
    refine leads_bind_find (fun _ => h) fun s hn => ?_
    refine leads_rename.chain (fun _ hf => hf.elim) fun _ U hU => ?_
    subst hU
    exact leads_pure (h.renamed name trivial)
  | perRequest kind name =>
    apply Call.replays_of rfl
    refine leads_rename.chain (fun _ hf => hf.elim) fun _ U hU => ?_
    subst hU
    exact leads_pure (h.renamed name trivial)
  | recycling region name =>
    apply Call.replays_of rfl
    refine leads_bind_find (fun _ => h) fun p hn => ?_
    obtain ⟨r, adopted⟩ := p
    obtain ⟨v, hv, hd⟩ := h.of_region? hn
    refine leads_rename.chain (fun _ hf => hf.elim) fun _ U hU => ?_
    subst hU
    refine leads_pure (h.renamed name ?_)
    rw [hv]
    exact hd
  | allocate q allocator name? => exact replays_allocate hsep h hS hw q allocator name?
  | allocateParallel target size align threads count =>
    exact replays_allocateParallel hsep h hS hw target size align threads count

end ScopedMemory
