import ScopedMemory.Proofs.Heap.Orderly
import ScopedMemory.Proofs.Lifetime.Actions

namespace ScopedMemory

/-! ### Blocks before and after they are freed -/

namespace Store

variable {σ τ : Store} {past news : List HeapEvent} {bs : List Block} {b : Block}

/-- Since the events of the `past` the block was not freed. -/
def Retains (σ : Store) (past : List HeapEvent) (b : Block) : Prop :=
  ∃ newer, σ.events = newer ++ past ∧ .freed b ∉ newer

/-- Since the events of the `past` the block was freed. -/
def Returned (σ : Store) (past : List HeapEvent) (b : Block) : Prop :=
  ∃ newer between, σ.events = newer ++ .freed b :: (between ++ past) ∧ .freed b ∉ between

theorem Retains.grows (h : σ.Retains past b) (he : τ.events = news ++ σ.events)
    (hn : .freed b ∉ news) : τ.Retains past b := by
  obtain ⟨newer, hσ, hb⟩ := h
  refine ⟨news ++ newer, by rw [he, hσ, List.append_assoc], fun hm => ?_⟩
  exact (List.mem_append.mp hm).elim hn hb

theorem Returned.grows (h : σ.Returned past b) (he : τ.events = news ++ σ.events) :
    τ.Returned past b := by
  obtain ⟨newer, between, hσ, hb⟩ := h
  exact ⟨news ++ newer, between, by rw [he, hσ, List.append_assoc], hb⟩

theorem Placed.places (h : σ.Placed news) : HeapEvent.Places news := by
  intro b hb
  obtain ⟨_, _, _, he, _⟩ := h _ hb
  cases he

theorem not_mem_freed (hb : b ∉ bs) : HeapEvent.freed b ∉ bs.map .freed := by
  intro hm
  obtain ⟨c, hc, he⟩ := List.mem_map.mp hm
  cases he
  exact hb hc

/-- The block is among those that are freed. -/
theorem Retains.returned (h : σ.Retains past b) (he : τ.events = bs.map .freed ++ σ.events)
    (hb : b ∈ bs) (hn : bs.Nodup) : τ.Returned past b := by
  obtain ⟨newer, hσ, hnew⟩ := h
  obtain ⟨before, after, rfl⟩ := List.append_of_mem hb
  have hafter : b ∉ after := (List.nodup_cons.mp (List.nodup_append.mp hn).2.1).1
  refine ⟨before.map .freed, after.map .freed ++ newer, ?_, fun hm => ?_⟩
  · rw [he, hσ, List.map_append, List.map_cons]
    simp only [List.append_assoc, List.cons_append]
  · exact (List.mem_append.mp hm).elim (not_mem_freed hafter) hnew

/-- A block is not retained and returned. -/
theorem Retains.not_returned (h : σ.Retains past b) : ¬ σ.Returned past b := by
  rintro ⟨newer', between, hσ', _⟩
  obtain ⟨newer, hσ, hb⟩ := h
  have he : newer ++ past = (newer' ++ .freed b :: between) ++ past := by
    rw [← hσ, hσ', List.append_assoc, List.cons_append]
  rw [List.append_cancel_right he] at hb
  exact hb (List.mem_append_right _ List.mem_cons_self)

/-! ### Blocks of scopes -/

theorem blocks_addAction (σ : Store) (s : ScopeId) (a : CloseAction) (t : ScopeId) :
    ((σ.addAction s a).scope t).blocks = (σ.scope t).blocks := by
  rw [scope_addAction]
  split
  next h => rw [h.1]
  next => rfl

theorem blocks_setLifetime (σ : Store) (s : ScopeId) (l : Lifetime) (t : ScopeId) :
    ((σ.setLifetime s l).scope t).blocks = (σ.scope t).blocks := by
  rw [scope_setLifetime]
  split
  next h => rw [h.1]
  next => rfl

theorem blocks_unpin (σ : Store) (s t : ScopeId) :
    ((σ.unpin s).scope t).blocks = (σ.scope t).blocks := by
  unfold unpin
  split
  next => exact blocks_setLifetime σ s _ t
  next => rfl

end Store

namespace Session

variable {governs : Prop} {S T U : Session} {past : List HeapEvent} {s : ScopeId} {b : Block}

/-- What has become, since the `past`, of a block that the scope had then. -/
inductive Fate (past : List HeapEvent) (T : Session) (s : ScopeId) (b : Block) : Prop
  /-- The scope is open and has the block. -/
  | kept (ha : T.store.IsAlive s) (hb : b ∈ (T.store.scope s).blocks)
    (hr : T.store.Retains past b)
  /-- The scope has ended. The block is to be freed after what is left of the scope's actions. -/
  | waiting {l before bs after} (hd : T.Ended s l) (hc : T.chores = before ++ .free bs :: after)
    (hb : b ∈ bs) (hr : T.store.Retains past b)
    (hacts : ∀ t ∈ T.store.accepted s,
      JournalEntry.ended t ∈ T.store.journal ∨ .ended t ∈ before.flatMap Chore.due)
  /-- The scope has ended, all actions accepted for it have run, and the block is freed. -/
  | freed {l} (hd : T.Ended s l) (hr : T.store.Returned past b)
    (hacts : ∀ t ∈ T.store.accepted s, JournalEntry.ended t ∈ T.store.journal)

/-! ### Calls -/

/-- Nothing is freed, and nothing of what is left to be done is lost. -/
structure Passes (S T : Session) : Prop where
  chores : S.chores.Sublist T.chores
  journal : ∀ e ∈ S.store.journal, e ∈ T.store.journal
  events : ∃ news, T.store.events = news ++ S.store.events ∧ HeapEvent.Places news
  ended : ∀ s l, S.Ended s l → T.Ended s l ∧ T.store.accepted s = S.store.accepted s

/-- The store is the same, and there may be more to be done. -/
theorem passes_of_store (hs : T.store = S.store) (hc : S.chores.Sublist T.chores) :
    S.Passes T where
  chores := hc
  journal _ he := hs ▸ he
  events := ⟨[], hs ▸ rfl, fun _ => List.not_mem_nil⟩
  ended s l hd := ⟨hd.of_scope (by rw [hs]) (by rw [hs]), by rw [hs]⟩

theorem sublist_lost (S : Session) (name : Name) : S.chores.Sublist (S.lost name).chores := by
  unfold lost
  split
  next => exact List.sublist_append_left _ _
  next => exact .refl _

theorem sublist_ended {held before after : List Chore} (hc : S.chores = before ++ after) :
    S.chores.Sublist (before ++ held ++ after) := by
  rw [hc]
  exact (List.sublist_append_left _ _).append_right _

theorem Edit.passes (he : S.Edit governs T) : S.Passes T := by
  have hover := fun s l (hd : S.Ended s l) => hd.edit he
  cases he with
  | store hk =>
    obtain ⟨news, he, hn⟩ := hk.placed
    refine ⟨.refl _, fun e he => hk.journal ▸ he, ⟨news, he, hn.places⟩, fun s l hd => ?_⟩
    refine ⟨hover s l hd, ?_⟩
    unfold Store.accepted
    rw [hk.journal]
  | renamed name _ => exact passes_of_store rfl (List.sublist_append_left _ _)
  | discarded _ => exact passes_of_store rfl (List.sublist_append_left _ _)
  | lost name => exact passes_of_store (S.store_lost name) (S.sublist_lost name)
  | updated => exact passes_of_store rfl (.refl _)
  | acquired _ name _ =>
    exact ⟨List.sublist_append_left _ _, fun _ he => he, ⟨[], rfl, fun _ => List.not_mem_nil⟩,
      fun s l hd => ⟨hover s l hd, rfl⟩⟩
  | closed _ hc _ _ =>
    exact ⟨sublist_ended hc, fun _ he => he, ⟨[], rfl, fun _ => List.not_mem_nil⟩,
      fun s l hd => ⟨hover s l hd, rfl⟩⟩
  | @accepted u a ha _ =>
    refine ⟨.refl _, fun _ he => List.mem_cons_of_mem _ he, ⟨[], rfl, fun _ => List.not_mem_nil⟩,
      fun s l hd => ⟨hover s l hd, ?_⟩⟩
    rw [Store.accepted_addAction, if_neg (hd.ne ha).symm]

/-- More comes to be done before the block is freed, or after that. -/
theorem exists_chores_of_sublist {chores before after : List Chore} {c : Chore}
    (h : (before ++ c :: after).Sublist chores) :
    ∃ before' after', chores = before' ++ c :: after' ∧ before ⊆ before' := by
  obtain ⟨front, back, rfl, hfront, hback⟩ := List.append_sublist_iff.mp h
  obtain ⟨near, far, rfl, hc, _⟩ := List.cons_sublist_iff.mp hback
  obtain ⟨middle, rest, rfl⟩ := List.append_of_mem hc
  refine ⟨front ++ middle, rest ++ far, ?_, fun c hc => ?_⟩
  · simp only [List.append_assoc, List.cons_append]
  · exact List.mem_append_left _ (hfront.subset hc)

/-- A block of a scope that has ended is not concerned by calls. -/
theorem Fate.passes (h : S.Fate past s b) (hp : S.Passes T)
    (hk : S.store.IsAlive s → b ∈ (S.store.scope s).blocks → S.store.Retains past b →
      T.Fate past s b) : T.Fate past s b := by
  obtain ⟨news, he, hn⟩ := hp.events
  cases h with
  | kept ha hb hr => exact hk ha hb hr
  | @waiting l before bs after hd hc hb hr hacts =>
    obtain ⟨hd', hacc⟩ := hp.ended s l hd
    obtain ⟨before', after', hc', hsub⟩ := exists_chores_of_sublist (hc ▸ hp.chores)
    refine .waiting hd' hc' hb (hr.grows he (hn b)) fun t ht => ?_
    rw [hacc] at ht
    refine (hacts t ht).imp (hp.journal _) fun hm => ?_
    obtain ⟨c, hcm, hm⟩ := List.mem_flatMap.mp hm
    exact List.mem_flatMap.mpr ⟨c, hsub hcm, hm⟩
  | @freed l hd hr hacts =>
    obtain ⟨hd', hacc⟩ := hp.ended s l hd
    exact .freed hd' (hr.grows he) fun t ht => hp.journal _ (hacts t (hacc ▸ ht))

/-- The end of a scope puts the return of its blocks after all of its actions. -/
theorem Recorded.fate_ended (h : S.Recorded) (ha : S.store.IsAlive s)
    (hb : b ∈ (S.store.scope s).blocks) (hr : S.store.Retains past b) {l : Lifetime}
    (hl : ∀ n, l ≠ .live n) (before after : List Chore) :
    Fate past { S with
      store := S.store.endScope s l
      chores := before ++ (S.store.holdings s).chores ++ after } s b := by
  have hc : before ++ (S.store.holdings s).chores ++ after =
      (before ++ (S.store.scope s).actions.map .perform) ++
        .free (S.store.scope s).blocks :: after := by
    simp only [Holdings.chores, Store.holdings, List.append_assoc, List.cons_append,
      List.nil_append]
  refine .waiting ⟨?_, ?_, hl⟩ hc hb hr fun t ht => Or.inr ?_
  · rw [Store.length_scopes_endScope]
    exact Store.lt_length_of_isAlive ha
  · rw [Store.scope_endScope_of_isAlive ha, if_pos rfl]
  · have ht' : t ∈ S.store.accepted s := ht
    rw [← h.pending s ha] at ht'
    obtain ⟨p, hp, rfl⟩ := List.mem_map.mp ht'
    exact List.mem_flatMap.mpr ⟨.perform p, List.mem_append_right _ (List.mem_map_of_mem hp),
      mem_runOf.mpr (Or.inr rfl)⟩

/-- A scope ends, be it the one of the block or another. -/
theorem Recorded.fate_endScope (h : S.Recorded) (ha : S.store.IsAlive s)
    (hb : b ∈ (S.store.scope s).blocks) (hr : S.store.Retains past b) {u : ScopeId}
    (hu : S.store.IsAlive u) {l : Lifetime} (hl : ∀ n, l ≠ .live n) (before after : List Chore) :
    Fate past { S with
      store := S.store.endScope u l
      chores := before ++ (S.store.holdings u).chores ++ after } s b := by
  by_cases hsu : s = u
  · subst hsu
    exact h.fate_ended ha hb hr hl before after
  · have hscope : (S.store.endScope u l).scope s = S.store.scope s := by
      rw [Store.scope_endScope_of_isAlive hu, if_neg hsu]
    exact .kept (show Scope.isAlive _ = true from hscope ▸ ha) (hscope ▸ hb) hr

theorem Fate.edit (h : S.Fate past s b) (hS : S.Recorded) (he : S.Edit governs T) :
    T.Fate past s b := by
  refine h.passes he.passes fun ha hb hr => ?_
  cases he with
  | store hk =>
    obtain ⟨news, he, hn⟩ := hk.placed
    exact .kept (hk.isAlive ha) (hk.held s b hb) (hr.grows he (hn.places b))
  | renamed => exact .kept ha hb hr
  | discarded => exact .kept ha hb hr
  | lost name =>
    have hs := S.store_lost name
    exact .kept (hs ▸ ha) (hs ▸ hb) (hs ▸ hr)
  | updated => exact .kept ha hb hr
  | @acquired u _ name hu =>
    refine .kept (((Store.resembles_pin hu).alive s).mpr ha) ?_ hr
    exact (S.store.blocks_setLifetime u _ s).symm ▸ hb
  | @closed u before after _ hc hl hk =>
    have hu : S.store.IsAlive u := by
      rw [Store.IsAlive, Scope.isAlive, hl]
    exact hS.fate_endScope ha hb hr hu (by simp) before after
  | @accepted u a hu _ =>
    refine .kept ((S.store.isAlive_addAction u a).mpr ha) ?_ hr
    exact (S.store.blocks_addAction u a s).symm ▸ hb

theorem Fate.edits (h : S.Fate past s b) (hS : S.Recorded) (he : S.Edits governs T) :
    T.Fate past s b := by
  induction he with
  | refl => exact h
  | tail he' he ih => exact ih.edit (hS.edits he').recorded he

theorem Fate.begin (h : S.Fate past s b) (hS : S.Recorded) (hr : S.Rooted) (ctx : Context)
    (c : Call) : (S.begin ctx c).2.Fate past s b := by
  obtain ⟨T, he, hT⟩ := begin_cases hr ctx c
  rw [hT]
  refine (h.edits hS he).passes (passes_of_store rfl (List.sublist_append_left _ _)) ?_
  exact fun ha hb hr => .kept ha hb hr

/-! ### Chores -/

/-- What the first chore does, as far as blocks and actions are concerned. -/
structure Hands (S T : Session) (c : Chore) (rest : List Chore) : Prop where
  first : S.chores = c :: rest
  rest : ∃ new, T.chores = new ++ rest ∧ ∀ t, JournalEntry.ended t ∈ c.due →
    JournalEntry.ended t ∈ T.store.journal ∨ .ended t ∈ new.flatMap Chore.due
  journal : ∀ e ∈ S.store.journal, e ∈ T.store.journal
  events : T.store.events = c.blocks.map .freed ++ S.store.events
  accepted : ∀ s, T.store.accepted s = S.store.accepted s

theorem Work.hands (hw : S.Work T) : ∃ c rest, S.Hands T c rest := by
  -- A chore of which nothing is due.
  have hplain : ∀ {c rest} (new : List Chore), S.chores = c :: rest → T.chores = new ++ rest →
      c.due = [] → T.store.journal = S.store.journal →
      T.store.events = c.blocks.map .freed ++ S.store.events → ∃ c rest, S.Hands T c rest := by
    intro c rest new hc hT hdue hj he
    refine ⟨c, rest, hc, ⟨new, hT, fun t ht => ?_⟩, fun e hm => hj ▸ hm, he, fun s => ?_⟩
    · rw [hdue] at ht
      cases ht
    · unfold Store.accepted
      rw [hj]
  cases hw with
  | @begun p more rest hc hm =>
    refine ⟨_, rest, hc, ⟨more ++ [.finish p.ticket], by simp, fun t ht => Or.inr ?_⟩,
      fun _ he => List.mem_cons_of_mem _ he, rfl, fun _ => rfl⟩
    obtain rfl : t = p.ticket := ticket_eq_of_mem_runOf (mem_runOf.mpr (Or.inr rfl)) ht
    simp [Chore.due]
  | @ended t rest hc =>
    refine ⟨_, rest, hc, ⟨[], rfl, fun u hu => Or.inl ?_⟩,
      fun _ he => List.mem_cons_of_mem _ he, rfl, fun _ => rfl⟩
    cases List.mem_singleton.mp hu
    exact List.mem_cons_self
  | @written text rest hc =>
    refine ⟨_, rest, hc, ⟨[], rfl, fun u hu => ?_⟩,
      fun _ he => List.mem_cons_of_mem _ he, rfl, fun _ => rfl⟩
    cases hu
  | spared hc _ => exact hplain [] hc rfl rfl rfl rfl
  | reclaimed hc _ _ => exact hplain _ hc rfl rfl rfl rfl
  | @unguarded u rest hc =>
    refine hplain [] hc rfl rfl ?_ ?_
    · show (S.store.unpin u).journal = _
      unfold Store.unpin
      split <;> rfl
    · show (S.store.unpin u).events = _
      unfold Store.unpin
      split <;> rfl
  | freed hc => exact hplain [] hc rfl rfl rfl rfl

/-- A block of a scope that is open is not freed. -/
theorem Fate.work (h : S.Fate past s b) (hS : S.Recorded)
    (hn : (S.store.blocks ++ S.waiting).Nodup) (hw : S.Work T) : T.Fate past s b := by
  obtain ⟨c, rest, hc, ⟨new, hT, hdue⟩, hj, he, hacc⟩ := hw.hands
  have hwaiting : S.waiting = c.blocks ++ rest.flatMap Chore.blocks := by
    unfold Session.waiting
    rw [hc, List.flatMap_cons]
  rw [hwaiting] at hn
  obtain ⟨_, hwait, hapart⟩ := List.nodup_append.mp hn
  cases h with
  | kept ha hb hr =>
    have hfree : b ∉ c.blocks := fun hm =>
      hapart b (Store.mem_blocks hb) b (List.mem_append_left _ hm) rfl
    have hr' := hr.grows he (Store.not_mem_freed hfree)
    cases hw with
    | @reclaimed u rest' hc' hu hnr => exact hS.fate_endScope ha hb hr hu (by simp) [] rest'
    | @unguarded u rest' hc' =>
      refine .kept (((Store.resembles_unpin S.store u).alive s).mpr ha) ?_ hr'
      exact (S.store.blocks_unpin u s).symm ▸ hb
    | _ => exact .kept ha hb hr'
  | @waiting l before bs after hd hc' hb hr hacts =>
    have hd' := hd.work hw
    cases before with
    | nil =>
      cases hc.symm.trans hc'
      have hbs : bs.Nodup := (List.nodup_append.mp hwait).1
      refine .freed hd' (hr.returned he hb hbs) fun t ht => hj _ ?_
      rw [hacc] at ht
      exact (hacts t ht).resolve_right List.not_mem_nil
    | cons c' before =>
      obtain ⟨rfl, hrest⟩ : c = c' ∧ rest = before ++ .free bs :: after :=
        List.cons.inj (hc.symm.trans hc')
      subst hrest
      have hlater : b ∈ (before ++ .free bs :: after).flatMap Chore.blocks :=
        List.mem_flatMap.mpr ⟨.free bs, List.mem_append_right _ List.mem_cons_self, hb⟩
      have hfree : b ∉ c.blocks := fun hm => (List.nodup_append.mp hwait).2.2 b hm b hlater rfl
      rw [← List.append_assoc] at hT
      refine .waiting hd' hT hb (hr.grows he (Store.not_mem_freed hfree)) fun t ht => ?_
      rw [hacc] at ht
      rw [List.flatMap_append, List.mem_append]
      rcases hacts t ht with hm | hm
      · exact Or.inl (hj _ hm)
      · rw [List.flatMap_cons, List.mem_append] at hm
        rcases hm with hm | hm
        · exact (hdue t hm).imp_right Or.inl
        · exact Or.inr (Or.inr hm)
  | freed hd hr hacts =>
    exact .freed (hd.work hw) (hr.grows he) fun t ht => hj _ (hacts t (hacc s ▸ ht))

theorem Fate.advance (h : S.Fate past s b) (hS : S.Recorded)
    (hn : (S.store.blocks ++ S.waiting).Nodup) (ctx : Context) :
    (S.advance ctx).Fate past s b := by
  cases hc : S.chores with
  | nil =>
    rw [advance_nil ctx hc]
    exact h
  | cons c rest =>
    obtain ⟨T, hw, he⟩ := advance_cases ctx hc
    exact (h.work hS hn hw).edits (hS.work hw).recorded he

end Session
end ScopedMemory
