import ScopedMemory.Proofs.Arena.Submissions

namespace ScopedMemory

open Operation Turn

variable {α : Type} {system : SystemAllocator} {past : List Move} {ctx : Context} {σ τ : Store}
  {a : ArenaId} {n : Nat} {S T : Session}

namespace Operation

variable {β : Type} {x : Operation α}

theorem successes_bind {f : α → Operation β} {r : α} (h : x.run ctx σ = .ok r τ) :
    (x >>= f).successes ctx σ = (f r).successes ctx τ := by
  unfold successes value?
  rw [run_bind, h]

theorem successes_bind_pure (g : α → β) :
    (x >>= fun r => pure (g r)).successes ctx σ = x.successes ctx σ := by
  unfold successes value?
  rw [run_bind]
  cases x.run ctx σ <;> rfl

end Operation

/-! ### What comes before and after the request -/

theorem Allocator.counts_serve {q : AllocationRequest} {size align : Word}
    (hd : q.checked = .ok (size, align)) :
    ((Allocator.arena a).serve q).Through (Store.Counts a
      (Submission.counted (a.submissions ctx [(ctx.caller, ⟨size, align⟩)] σ))) ctx σ := by
  rw [serve_eq, hd]
  refine leads_require_bind rfl (Operation.Leads.bind (a.counts_allocate ctx σ size align)
    fun r τ h => ?_)
  refine (q.leads_fill r).imp (fun _ ρ h' => ?_) fun ρ h' => ?_
  · obtain ⟨_, _, _, _, rfl⟩ := h'
    exact h.even (Store.even_of_arenas rfl)
  · exact h.even (Store.even_of_arenas (congrArg Store.arenas h'))

namespace VariadicList

variable {v : VariadicList} {l : Layout} {w : Allocator}

/-- The part of reading a struct before an allocator is asked: where the struct is. -/
def findSegment (v : VariadicList) (l : Layout) : Operation (Cursor × Region) := do
  let c ← v.requireCursor
  require (Carrier.segment.check l v.convention.width)
  let slot ← c.remaining.slice 0 v.convention.slotSize
  return (c, ← v.structSource l c slot)

theorem askSegment_eq (v : VariadicList) (l : Layout) (w : Allocator) :
    v.askSegment l w = v.findSegment l >>= fun p => do
      return (p.1, p.2, ← w.allocateLayout l) := by
  simp only [askSegment, findSegment, bind_assoc, pure_bind]

theorem leads_findSegment (v : VariadicList) (l : Layout) :
    (v.findSegment l).Leads ctx σ (fun _ τ => τ = σ) (· = σ) := by
  have hcursor : v.requireCursor.Leads ctx σ (fun _ τ => τ = σ) (· = σ) := by
    unfold requireCursor
    split
    next => exact Operation.leads_pure rfl
    next => exact Operation.leads_throw rfl
  refine hcursor.bind fun c τ h => ?_
  subst h
  refine (leads_require (P := fun _ ρ => ρ = τ) (Q := (· = τ)) (fun _ _ => rfl) rfl).bind
    fun _ ρ h => ?_
  subst h
  refine Operation.Leads.bind Region.leads_slice fun slot τ h => ?_
  obtain ⟨_, _, rfl⟩ := h
  exact (leads_structSource l c slot).bind fun _ _ h => Operation.leads_pure h

/-- The request that reading a struct makes of the allocator, if it comes to that. -/
def segmentRequests (v : VariadicList) (l : Layout) (ctx : Context) (σ : Store) :
    List (Thread × Request) :=
  if ((v.findSegment l).value? ctx σ).isSome then [(ctx.caller, ⟨l.size, l.align⟩)] else []

theorem counts_readSegment :
    (v.readSegment l (.arena a)).Through (Store.Counts a
      (Submission.counted (a.submissions ctx (v.segmentRequests l ctx σ) σ))) ctx σ := by
  rw [readSegment_eq, askSegment_eq, bind_assoc]
  unfold segmentRequests
  refine Operation.Leads.chain (v.leads_findSegment l).value (fun τ h => ?_) fun p τ h => ?_
  · obtain ⟨hv, rfl⟩ := h
    rw [hv]
    exact Store.Even.counts (Std.Refl.refl τ)
  · obtain ⟨hv, rfl⟩ := h
    rw [hv, bind_assoc]
    refine Operation.Leads.bind (a.counts_allocate ctx τ l.size l.align) fun copy ρ h => ?_
    rw [pure_bind]
    refine (leads_copied p.1 copy p.2).imp (fun _ ν h' => ?_) fun ν h' => ?_
    all_goals
      obtain ⟨m, rfl⟩ := h'
      exact h.even (Store.even_of_arenas rfl)

theorem servedSizes_segmentRequests :
    Submission.servedSizes (a.submissions ctx (v.segmentRequests l ctx σ) σ) =
      List.replicate ((v.askSegment l (.arena a)).successes ctx σ) l.size := by
  unfold segmentRequests
  rw [askSegment_eq]
  cases hrun : (v.findSegment l).run ctx σ with
  | error e τ =>
    have hv : (v.findSegment l).value? ctx σ = none := by rw [value?, hrun]
    rw [hv, Operation.successes, value?, Operation.run_bind, hrun]
    rfl
  | ok p τ =>
    obtain rfl := (v.leads_findSegment l).ok hrun
    have hv : (v.findSegment l).value? ctx τ = some p := by rw [value?, hrun]
    rw [hv, if_pos Option.isSome_some, ArenaId.servedSizes_single, Operation.successes_bind hrun,
      Operation.successes_bind_pure]
    rfl

end VariadicList

/-! ### What a call asks of an arena -/

/-- Threads that ask at the same time are served one after another. -/
def AllocationCall.requests (ctx : Context) (S : Session) (a : ArenaId) :
    AllocationCall → List (Thread × Request)
  | allocate q allocator _ =>
    match S.allocator? allocator, q.checked with
    | some w, .ok (size, align) => if w = .arena a then [(ctx.caller, ⟨size, align⟩)] else []
    | _, _ => []
  | allocateParallel target size align threads count =>
    if S.sharedArena? target = some a then
      (callers threads count).map (·, ⟨size, align⟩)
    else []
  | _ => []

def VariadicCall.requests (ctx : Context) (S : Session) (a : ArenaId) :
    VariadicCall → List (Thread × Request)
  | readSegment l list allocator _ =>
    match S.list? list, S.allocator? allocator with
    | some v, some w => if w = .arena a then v.segmentRequests l ctx S.store else []
    | _, _ => []
  | _ => []

/-- The requests that a call makes to an arena. What a list is built from is asked of an arena that
has no name. -/
def Call.requests (ctx : Context) (S : Session) (a : ArenaId) : Call → List (Thread × Request)
  | allocation c => c.requests ctx S a
  | variadic c => c.requests ctx S a
  | handle _ | scope _ | region _ => []

def Call.submissions (ctx : Context) (S : Session) (a : ArenaId) (c : Call) : List Submission :=
  a.submissions ctx (c.requests ctx S a) S.store

namespace Session

def Counts (a : ArenaId) (n : Nat) (S T : Session) : Prop := S.store.Counts a n T.store

theorem counts_of_arenas (h : T.store.arenas = S.store.arenas) : S.Counts a 0 T :=
  (Store.even_of_arenas h).counts

instance : Std.Refl (Counts a 0) := ⟨fun _ => counts_of_arenas rfl⟩

instance : Trans (Counts a 0) (Counts a 0) (Counts a 0) := ⟨fun h h' => Store.Counts.trans h h'⟩

theorem lenient_counts : Lenient (Counts a 0) where
  store _ _ h := counts_of_arenas h
  chores _ _ := counts_of_arenas rfl
  put _ _ _ _ := counts_of_arenas rfl
  erase _ _ := counts_of_arenas rfl

end Session

namespace Turn

variable {β : Type} {x : Operation α} {f : α → Turn β}

theorem counts_lift_rests (hx : x.Through (Store.Counts a n) ctx S.store)
    (hf : ∀ r T, (f r).Rests ctx T) : (lift x >>= f).Through (Session.Counts a n) ctx S :=
  leads_lift_rests (P := S.store.Counts a n) hx hf

theorem even_lift_rests (hx : x.Through Store.Even ctx S.store) (hf : ∀ r T, (f r).Rests ctx T) :
    (lift x >>= f).Through (Session.Counts a 0) ctx S :=
  counts_lift_rests (hx.imp fun _ h => h.counts) hf

theorem Rests.counts {y : Turn β} (hy : y.Rests ctx S) : y.Through (Session.Counts a 0) ctx S :=
  hy.imp (fun _ _ h => Session.counts_of_arenas (congrArg Store.arenas h)) fun _ h =>
    Session.counts_of_arenas (congrArg Store.arenas h)

end Turn

/-- However the call ends, the arena has counted those of its requests that it admitted in vain. -/
def Call.Tallies (a : ArenaId) (ctx : Context) (S : Session) (c : Call) : Prop :=
  c.perform.Through (Session.Counts a (Submission.counted (c.submissions ctx S a))) ctx S

namespace Call.Tallies

theorem of_requests {c : Call} (trace : List (Thread × Request)) (hr : c.requests ctx S a = trace)
    (hc : c.perform.Through (Session.Counts a
      (Submission.counted (a.submissions ctx trace S.store))) ctx S) : c.Tallies a ctx S := by
  unfold Tallies submissions
  rw [hr]
  exact hc

theorem idle {c : Call} (hr : c.requests ctx S a = [])
    (hc : c.perform.Through (Session.Counts a 0) ctx S) : c.Tallies a ctx S :=
  of_requests [] hr hc

end Call.Tallies

theorem AllocationCall.tallies_allocate (q : AllocationRequest) (allocator : Name)
    (name? : Option Name) : (Call.allocation (.allocate q allocator name?)).Tallies a ctx S := by
  -- Another allocator, or a request that does not come to be made, leaves the arena alone.
  have hidle :
      (∀ w, S.allocator? allocator = some w → w ≠ .arena a ∨ ∃ e, q.checked = .error e) →
      Turn.Through (Call.perform (.allocation (.allocate q allocator name?)))
        (Session.Counts a 0) ctx S := by
    intro hw
    refine leads_bind_lookup (fun _ => Std.Refl.refl S) fun w hn =>
      leads_lift_rests (P := S.store.Counts a 0) ?_ fun r _ => rests_keepRegion name? false r
    rcases hw w hn with hne | ⟨e, hd⟩
    · exact (w.blames_serve (B := (w = .arena ·)) q fun _ h => h).counts fun _ => hne
    · exact (Allocator.leads_unchecked hd).imp (fun _ _ h => h.elim) fun _ h =>
        (Store.even_of_arenas (congrArg Store.arenas h)).counts
  cases hn : S.allocator? allocator with
  | none =>
    refine .idle ?_ (hidle fun w h => by cases hn.symm.trans h)
    simp only [Call.requests, requests, hn]
  | some w =>
    cases hd : q.checked with
    | error e =>
      refine .idle ?_ (hidle fun _ _ => Or.inr ⟨e, hd⟩)
      simp only [Call.requests, requests, hn, hd]
    | ok d =>
      obtain ⟨size, align⟩ := d
      by_cases hw : w = .arena a
      · subst hw
        refine .of_requests [(ctx.caller, ⟨size, align⟩)] ?_ ?_
        · simp only [Call.requests, requests, hn, hd, if_true]
        refine leads_bind_lookup (fun h => by cases hn.symm.trans h) fun w h =>
          leads_lift_rests (P := S.store.Counts a _) ?_ fun r _ =>
            rests_keepRegion name? false r
        obtain rfl := Option.some.inj (hn.symm.trans h)
        exact Allocator.counts_serve hd
      · refine .idle ?_ (hidle fun w' h => Or.inl (Option.some.inj (hn.symm.trans h) ▸ hw))
        simp only [Call.requests, requests, hn, hd, if_neg hw]

theorem AllocationCall.tallies (c : AllocationCall) : (Call.allocation c).Tallies a ctx S := by
  cases c with
  | arena scope capacity config access name =>
    exact .idle rfl (through_find.bind fun s _ =>
      even_lift_rests (ArenaId.even_create capacity config s) fun _ _ => rests_keepHandle name _)
  | direct scope name =>
    exact .idle rfl (through_find.bind fun _ _ => (rests_rename name _).counts.bind fun _ _ =>
      Turn.through_pure _)
  | perRequest kind name =>
    exact .idle rfl ((rests_rename name _).counts.bind fun _ _ => Turn.through_pure _)
  | recycling region name =>
    exact .idle rfl (through_find.bind fun _ _ => (rests_rename name _).counts.bind fun _ _ =>
      Turn.through_pure _)
  | allocate q allocator name? => exact tallies_allocate q allocator name?
  | allocateParallel target size align threads count =>
    by_cases hn : S.sharedArena? target = some a
    · refine .of_requests ((callers threads count).map (·, ⟨size, align⟩)) ?_ ?_
      · simp only [Call.requests, requests, if_pos hn]
      refine leads_bind_lookup (fun h => by cases hn.symm.trans h) fun b h =>
        leads_lift_rests (P := S.store.Counts a _) ?_ fun _ _ => Turn.through_pure _
      obtain rfl := Option.some.inj (hn.symm.trans h)
      exact a.counts_allocateEach ctx S.store size align (callers threads count)
    · refine .idle (if_neg hn) ?_
      refine leads_bind_lookup (fun _ => Std.Refl.refl S) fun b h =>
        leads_lift_rests (P := S.store.Counts a 0) ?_ fun _ _ => Turn.through_pure _
      have hne : a ≠ b := fun he => hn (he ▸ h)
      exact through_mapM (fun t τ => Operation.Through.attempt (Operation.leads_asThread
        ((ArenaId.blames_allocate (B := (· = b)) rfl).counts fun _ => hne))) (callers threads count)

theorem VariadicCall.tallies_readSegment (l : Layout) (list allocator : Name)
    (name? : Option Name) :
    (Call.variadic (.readSegment l list allocator name?)).Tallies a ctx S := by
  have hidle : (Call.variadic (.readSegment l list allocator name?)).requests ctx S a = [] →
      (∀ v w, S.list? list = some v → S.allocator? allocator = some w → w ≠ .arena a) →
      (Call.variadic (.readSegment l list allocator name?)).Tallies a ctx S := fun hr hw =>
    .idle hr (leads_readSegment (P := S.store.Counts a 0) (fun _ => Std.Refl.refl S.store)
      fun v w hv hn => (v.blames_readSegment l (B := (w = .arena ·)) fun _ h => h).counts
        fun _ => hw v w hv hn)
  cases hv : S.list? list with
  | none =>
    refine hidle ?_ fun v w h => by cases hv.symm.trans h
    simp only [Call.requests, requests, hv]
  | some v =>
    cases hn : S.allocator? allocator with
    | none =>
      refine hidle ?_ fun v w _ h => by cases hn.symm.trans h
      simp only [Call.requests, requests, hv, hn]
    | some w =>
      by_cases hw : w = .arena a
      · subst hw
        refine .of_requests (v.segmentRequests l ctx S.store) ?_ ?_
        · simp only [Call.requests, requests, hv, hn, if_true]
        refine leads_readSegment (P := S.store.Counts a _) (fun h => ?_) fun v' w' hv' hn' => ?_
        · rw [hv, hn] at h
          simp at h
        · obtain rfl := Option.some.inj (hv.symm.trans hv')
          obtain rfl := Option.some.inj (hn.symm.trans hn')
          exact VariadicList.counts_readSegment
      · refine hidle ?_ fun _ w' _ h => Option.some.inj (hn.symm.trans h) ▸ hw
        simp only [Call.requests, requests, hv, hn, if_neg hw]

theorem VariadicCall.tallies (c : VariadicCall) : (Call.variadic c).Tallies a ctx S := by
  cases c with
  | builder scope convention name =>
    exact .idle rfl (through_find.bind fun s _ => even_lift_rests
      (even_aside (VariadicBuilder.leads_create convention s) fun _ _ h =>
        congrArg Store.arenas h.2.2) fun _ _ => rests_keepHandle name _)
  | push layout value target =>
    have hvalue : value.resolve.Rests ctx S := by
      cases value with
      | segment region => exact through_find.bind fun _ _ => Turn.through_pure _
      | _ => exact Turn.through_pure _
    exact .idle rfl (hvalue.counts.bind fun v _ => through_find.bind fun b _ => even_lift_rests
      (even_aside (VariadicBuilder.leads_push layout v) fun _ _ h => congrArg Store.arenas h.1)
        fun _ _ => (rests_update target _).bind fun _ _ => Turn.through_pure _)
  | build source name =>
    exact .idle rfl (through_find.bind fun b _ => (rests_forget source).counts.bind fun _ _ =>
      (rests_discard _).counts.bind fun _ T => counts_lift_rests
        ((b.blames_build (B := (· = T.store.arenas.length)) rfl).counts Nat.ne_of_lt)
          fun _ _ => rests_keepList name _)
  | make arguments scope convention name =>
    refine .idle rfl ((ArgumentSource.leads_resolveAll arguments).chain
      (fun T h => h ▸ Std.Refl.refl T) fun args T h => ?_)
    subst h
    exact through_find.bind fun s T => counts_lift_rests
      ((VariadicList.blames_make convention s args (B := (· = T.store.arenas.length)) rfl).counts
        Nat.ne_of_lt) fun _ _ => rests_keepList name _
  | empty convention name => exact .idle rfl (rests_keepList name _).counts
  | adopt start scope convention name =>
    exact .idle rfl (through_find.bind fun s _ => even_lift_rests
      (even_aside (VariadicList.leads_ofAddress convention start s) fun _ _ h =>
        congrArg Store.arenas h.1) fun _ _ => rests_keepList name _)
  | read layout type list =>
    exact .idle rfl (through_find.bind fun v _ => even_lift_rests
      (even_aside (VariadicList.leads_readAs layout type) fun _ _ h => congrArg Store.arenas h.1)
        fun _ _ => (rests_update list _).bind fun _ _ => Turn.through_pure _)
  | readSegment layout list allocator name? =>
    exact tallies_readSegment layout list allocator name?
  | skip layouts list =>
    exact .idle rfl (through_find.bind fun v _ => even_lift_rests
      (even_aside (VariadicList.leads_skip layouts) fun _ _ h => congrArg Store.arenas h.2)
        fun _ _ => (rests_update list _).bind fun _ _ => Turn.through_pure _)
  | copy list name =>
    exact .idle rfl (through_find.bind fun v _ => even_lift_rests
      (even_aside VariadicList.leads_copy fun _ _ h => congrArg Store.arenas h.2)
        fun _ _ => rests_keepList name _)

theorem Call.tallies (c : Call) : c.Tallies a ctx S := by
  have hR := Session.lenient_counts (a := a)
  cases c with
  | handle c => exact .idle rfl (c.through hR)
  | scope c => exact .idle rfl (c.through hR)
  | region c => exact .idle rfl (c.through hR)
  | allocation c => exact c.tallies
  | variadic c => exact c.tallies

theorem Call.counts (c : Call) (S : Session) :
    S.store.Counts a (Submission.counted (c.submissions ctx S a)) (S.begin ctx c).2.store :=
  Leads.begin c.tallies fun _ h => h

/-! ### What is served -/

/-- An errand of the arena tells the sizes it served, and another errand none of them. -/
theorem Allocator.servedSizes_eq (w : Allocator) {trace : List (Thread × Request)} {size : Word}
    (h : w = .arena a →
      Submission.servedSizes (a.submissions ctx trace σ) = List.replicate n size) :
    Submission.servedSizes (a.submissions ctx (if w = .arena a then trace else []) σ) =
      (if w.IsFresh then some (Errand.mk (w.source σ) size n) else none).elim []
        (·.sizes (.arena a)) := by
  by_cases hw : w = .arena a
  · subst hw
    have hfresh : (arena a).IsFresh := trivial
    rw [if_pos rfl, if_pos hfresh, h rfl]
    exact (if_pos rfl).symm
  · rw [if_neg hw]
    have hsource : w.source σ ≠ .arena a := by
      cases w <;> first | exact hw | exact nofun
    split
    · exact (if_neg hsource).symm
    · rfl

theorem AllocationCall.servedSizes_requests (c : AllocationCall) :
    Submission.servedSizes (a.submissions ctx (c.requests ctx S a) S.store) =
      (c.errand? ctx S).elim [] (·.sizes (.arena a)) := by
  cases c with
  | allocate q allocator name? =>
    cases hn : S.allocator? allocator with
    | none =>
      simp only [requests, errand?, hn]
      rfl
    | some w =>
      cases hd : q.checked with
      | error e =>
        simp only [requests, errand?, hn, hd]
        rfl
      | ok d =>
        simp only [requests, errand?, hn, hd]
        exact w.servedSizes_eq fun hw => hw ▸ a.servedSizes_single ctx S.store d.1 d.2
  | allocateParallel target size align threads count =>
    simp only [requests, errand?]
    cases S.sharedArena? target with
    | none => rfl
    | some b =>
      by_cases hb : b = a
      · subst hb
        rw [if_pos rfl, ArenaId.servedSizes_parallel]
        exact (if_pos rfl).symm
      · rw [if_neg fun h => hb (Option.some.inj h)]
        exact (if_neg fun h => hb (Allocator.arena.inj h)).symm
  | _ => rfl

theorem VariadicCall.servedSizes_requests (c : VariadicCall) :
    Submission.servedSizes (a.submissions ctx (c.requests ctx S a) S.store) =
      (c.errand? ctx S).elim [] (·.sizes (.arena a)) := by
  cases c with
  | readSegment l list allocator name? =>
    cases hv : S.list? list with
    | none =>
      simp only [requests, errand?, hv]
      rfl
    | some v =>
      cases hn : S.allocator? allocator with
      | none =>
        simp only [requests, errand?, hv, hn]
        rfl
      | some w =>
        simp only [requests, errand?, hv, hn]
        exact w.servedSizes_eq fun hw => hw ▸ VariadicList.servedSizes_segmentRequests
  | _ => rfl

theorem Call.servedSizes_submissions (c : Call) :
    Submission.servedSizes (c.submissions ctx S a) =
      (c.errand? ctx S).elim [] (·.sizes (.arena a)) := by
  unfold submissions
  cases c with
  | handle c => rfl
  | region c => rfl
  | scope c =>
    cases c with
    | allocateNative size align scope name? =>
      simp only [errand?, ScopeCall.errand?]
      cases S.scope? scope <;> rfl
    | _ => rfl
  | allocation c => exact c.servedSizes_requests
  | variadic c => exact c.servedSizes_requests

end ScopedMemory
