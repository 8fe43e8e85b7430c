import ScopedMemory.Proofs.Session.Run

namespace ScopedMemory

open Turn

variable {system : SystemAllocator} {strict : Prop} {G : List Region} {S : Session}
  {ctx : Context} {size align : Word}

/-- The call asks for one new region of this size at this alignment. -/
def Call.Asks (S : Session) (size align : Word) : Call → Prop
  | .scope (.allocateNative size' align' _ _) => size' = size ∧ align' = align
  | .allocation (.allocate q allocator _) =>
    (∀ w, S.allocator? allocator = some w → w.IsFresh) ∧ q.dimensions = .ok (size, align)
  | _ => False

theorem ScopeCall.leads_allocateNative (h : S.Sound system strict G)
    (hw : ctx.system.Within system) (scope : Name) (name? : Option Name) :
    (ScopeCall.allocateNative size align scope name?).perform.Leads ctx S
      (fun reply _ => ∃ r, ScopeCall.grants ctx S (.allocateNative size align scope name?) =
        [⟨r, size, align⟩] ∧ reply = .region ⟨r.start, size, r.scope, true⟩)
      fun _ => True := by
  refine leads_bind_find trivial fun s hn => ?_
  have hx := (ScopeId.serves_allocateNative h.store hw s size align).value
  refine (leads_lift hx).chain (fun _ _ => trivial) fun r U hU => ?_
  obtain ⟨τ, ⟨hv, _, hm⟩, rfl⟩ := hU
  refine leads_keepRegion.imp (fun reply _ hr => ⟨r, ?_, ?_⟩) fun _ hf => hf.elim
  · simp only [ScopeCall.grants, hn, hv, Option.toList_some, List.map_cons, List.map_nil]
  · rw [hr.1, Store.viewRegion, hm.size, (Store.checkUsable_eq_ok_iff.mp hm.usable).2]

theorem AllocationCall.leads_allocate (h : S.Sound system strict G)
    (hw : ctx.system.Within system) {q : AllocationRequest} (hq : q.dimensions = .ok (size, align))
    {allocator : Name} (hf : ∀ w, S.allocator? allocator = some w → w.IsFresh)
    (name? : Option Name) :
    (AllocationCall.allocate q allocator name?).perform.Leads ctx S
      (fun reply _ => ∃ r, AllocationCall.grants ctx S (.allocate q allocator name?) =
        [⟨r, size, align⟩] ∧ reply = .region ⟨r.start, size, r.scope, true⟩)
      fun _ => True := by
  refine leads_bind_find trivial fun w hn => ?_
  have hx := (Allocator.leads_serve h.store hw (h.of_allocator? hn).1 q).value
  refine (leads_lift hx).chain (fun _ _ => trivial) fun r U hU => ?_
  obtain ⟨τ, ⟨hv, size', align', bytes, ρ, hd, _, hg, _, rfl⟩, rfl⟩ := hU
  cases hq.symm.trans hd
  refine leads_keepRegion.imp (fun reply _ hr => ⟨r, ?_, ?_⟩) fun _ hf => hf.elim
  · simp only [AllocationCall.grants, hn, hq, if_pos (hf w hn), hv, Option.toList_some,
      List.map_cons, List.map_nil]
  · have ha : ((ρ.setMemory (ρ.memory.write r.start.toNat bytes)).scope r.scope).isAlive = true :=
      (Store.checkUsable_eq_ok_iff.mp hg.usable).2
    rw [hr.1, Store.viewRegion, hg.size, ha]

/-- What a call that succeeds answers is what it hands out. -/
theorem Session.begin_asks (h : S.Sound system strict G) (hw : ctx.system.Within system)
    {c : Call} (hc : c.Asks S size align) {reply : Reply} (hr : (S.begin ctx c).1 = .ok reply) :
    ∃ r, c.grants ctx S = [⟨r, size, align⟩] ∧
      reply = .region ⟨r.start, size, r.scope, true⟩ := by
  have hl : c.perform.Leads ctx S
      (fun reply _ => ∃ r, c.grants ctx S = [⟨r, size, align⟩] ∧
        reply = .region ⟨r.start, size, r.scope, true⟩) fun _ => True := by
    cases c with
    | scope c =>
      cases c with
      | allocateNative size' align' scope name? =>
        obtain ⟨rfl, rfl⟩ := hc
        exact ScopeCall.leads_allocateNative h hw scope name?
      | _ => exact hc.elim
    | allocation c =>
      cases c with
      | allocate q allocator name? => exact AllocationCall.leads_allocate h hw hc.2 hc.1 name?
      | _ => exact hc.elim
    | _ => exact hc.elim
  obtain ⟨T, hrun, _⟩ := Session.run_of_begin_ok hr
  exact hl.ok hrun

/-- In every session that a run leads to, a call is answered with the region that it hands out. All
that a call hands out is as it was asked for and alive after it, and of all that was handed out in
the run no two share a byte while the scopes of both are alive. -/
theorem play_disjoint (hsep : system.Separate) (hal : system.Aligns) {past : List Move}
    (hw : ∀ m ∈ past, m.Within system) :
    (∀ ctx : Context, ctx.system.Within system → ∀ c : Call,
      (∀ size align, c.Asks (play past) size align →
        ∀ reply, ((play past).begin ctx c).1 = .ok reply →
          ∃ r, c.grants ctx (play past) = [⟨r, size, align⟩] ∧
            reply = .region ⟨r.start, size, r.scope, true⟩) ∧
      ∀ g ∈ c.grants ctx (play past), g.region.size = g.size ∧
        g.align.toNat ∣ g.region.start.toNat ∧
        ((play past).begin ctx c).2.store.IsAlive g.region.scope) ∧
    (handedOut past).Pairwise fun g h =>
      (play past).store.IsAlive g.region.scope → (play past).store.IsAlive h.region.scope →
        ∀ x, g.region.Has x → ¬ h.region.Has x := by
  have hs : (play past).Sound system False ((handedOut past).map (·.region)) :=
    play_sound hsep hw False.elim
  refine ⟨fun ctx hctx c => ⟨fun size align hc reply hr => ?_, fun g hg => ?_⟩, ?_⟩
  · exact Session.begin_asks hs hctx hc hr
  · have hm := (Session.comes_begin hsep hs hctx c False.elim).met g hg
    exact ⟨hm.size, hm.align hal, hm.alive⟩
  · exact List.pairwise_map.mp hs.ledger.apart

/-- Regions carved from one block, one too large for it and one without a byte. -/
def allocatingCalls : List (Thread × Call) :=
  [(0, .scope (.create .shared "s")),
    (0, .allocation (.arena "s" (.unbounded 64) {} .shared "a")),
    (1, .allocation (.allocate (.raw 3 1) "a" (some "r"))),
    (2, .allocation (.allocate (.raw 100 64) "a" none)),
    (1, .allocation (.allocate (.raw 8 8) "a" (some "q"))),
    (0, .scope (.allocateNative 0 32 "s" (some "e")))]

theorem allocatingCalls_disjoint :
    (∀ m ∈ movesOf TwinHeaps.system allocatingCalls, m.Within TwinHeaps.system) ∧
    (handedOut (movesOf TwinHeaps.system allocatingCalls)).map (·.region) =
      [⟨0x20000010, 3, 1⟩, ⟨0x200000c0, 100, 1⟩, ⟨0x20000018, 8, 1⟩, ⟨0x20000160, 0, 1⟩] ∧
    (∀ g ∈ (Call.allocation (.allocate (.raw 8 16) "a" none)).grants ⟨2, TwinHeaps.system⟩
        (play (movesOf TwinHeaps.system allocatingCalls)),
      g.region.size = g.size ∧ g.align.toNat ∣ g.region.start.toNat) ∧
    (handedOut (movesOf TwinHeaps.system allocatingCalls)).Pairwise fun g h =>
      (play (movesOf TwinHeaps.system allocatingCalls)).store.IsAlive g.region.scope →
      (play (movesOf TwinHeaps.system allocatingCalls)).store.IsAlive h.region.scope →
        ∀ x, g.region.Has x → ¬ h.region.Has x := by
  have hw := within_movesOf TwinHeaps.system allocatingCalls
  obtain ⟨hg, hd⟩ := play_disjoint TwinHeaps.lawful.separate TwinHeaps.lawful.aligns hw
  refine ⟨hw, by decide, fun g hmem => ?_, hd⟩
  obtain ⟨hsize, halign, _⟩ := (hg ⟨2, TwinHeaps.system⟩ (.refl _) _).2 g hmem
  exact ⟨hsize, halign⟩

end ScopedMemory
