import ScopedMemory.Proofs.Session.Sound
import ScopedMemory.Session.Run

namespace ScopedMemory

/-- One step of a run: a call, or one of the things that calls left to be done. -/
inductive Move where
  | call (ctx : Context) (c : Call)
  | chore (ctx : Context)

namespace Session

/-- Scopes that are new are let go of at the end of the call that made them. -/
def release (S : Session) (firstNew : Nat) : Session :=
  { S with
    chores := S.chores ++
      (List.range' firstNew (S.store.scopes.length - firstNew)).map Chore.letGo }

/-- Makes a call and leaves what it has to do in the end for later. -/
def begin (S : Session) (ctx : Context) (c : Call) : Except Refusal Reply × Session :=
  match c.perform.run ctx S with
  | .ok reply T => (.ok reply, T.release S.store.scopes.length)
  | .error refusal T => (.error refusal, T.release S.store.scopes.length)

/-- Does the first thing that is left to be done. -/
def advance (S : Session) (ctx : Context) : Session :=
  match S.chores with
  | [] => S
  | c :: rest =>
    let (σ, chores) := c.step ctx S.roots S.store rest
    { S with store := σ, chores }

def move (S : Session) : Move → Session
  | .call ctx c => (S.begin ctx c).2
  | .chore ctx => S.advance ctx

variable {S T : Session} {ctx : Context} {c : Call}

theorem release_of_length {n : Nat} (h : S.store.scopes.length = n) : S.release n = S := by
  unfold release
  rw [h, Nat.sub_self]
  exact congrArg (Session.mk S.store S.handles) (List.append_nil S.chores)

/-- A call that makes no scope has nothing to let go of. -/
theorem begin_of_run_ok {reply : Reply} (h : c.perform.run ctx S = .ok reply T)
    (hT : T.store.scopes.length = S.store.scopes.length) : S.begin ctx c = (.ok reply, T) := by
  unfold begin
  rw [h]
  exact congrArg (Prod.mk _) (release_of_length hT)

theorem begin_of_run_error {r : Refusal} (h : c.perform.run ctx S = .error r T)
    (hT : T.store.scopes.length = S.store.scopes.length) : S.begin ctx c = (.error r, T) := by
  unfold begin
  rw [h]
  exact congrArg (Prod.mk _) (release_of_length hT)

/-- A call that is answered has been answered by what it does. -/
theorem run_of_begin_ok {reply : Reply} (h : (S.begin ctx c).1 = .ok reply) :
    ∃ T, c.perform.run ctx S = .ok reply T ∧
      (S.begin ctx c).2 = T.release S.store.scopes.length := by
  unfold begin at h ⊢
  cases hr : c.perform.run ctx S with
  | ok reply' T =>
    rw [hr] at h
    cases h
    exact ⟨T, rfl, rfl⟩
  | error r T =>
    rw [hr] at h
    cases h

/-- A call that is refused has been refused by what it does. -/
theorem run_of_begin_error {r : Refusal} (h : (S.begin ctx c).1 = .error r) :
    ∃ T, c.perform.run ctx S = .error r T ∧
      (S.begin ctx c).2 = T.release S.store.scopes.length := by
  unfold begin at h ⊢
  cases hr : c.perform.run ctx S with
  | ok reply T =>
    rw [hr] at h
    cases h
  | error r' T =>
    rw [hr] at h
    cases h
    exact ⟨T, rfl, rfl⟩

end Session

/-- What holds however a turn ends holds after the call that takes it. -/
theorem Turn.Leads.begin {S : Session} {ctx : Context} {c : Call} {P : Session → Prop}
    (h : c.perform.Leads ctx S (fun _ T => P T) P)
    (hP : ∀ T, P T → P (T.release S.store.scopes.length)) : P (S.begin ctx c).2 := by
  unfold Session.begin
  cases hr : c.perform.run ctx S with
  | ok reply T => exact hP T (h.ok hr)
  | error r T => exact hP T (h.error hr)

/-- The session after the moves, of which the newest comes first. Calls may come while there is
still something to be done for others. -/
def play : List Move → Session
  | [] => .initial
  | m :: past => (play past).move m

/-- Every call of the run finds the system allocator, which may refuse what it could serve. -/
def Move.Within (system : SystemAllocator) : Move → Prop
  | call ctx _ => ctx.system.Within system
  | chore _ => True

/-- The call makes a region or a list of an address. -/
def Call.Adopts : Call → Prop
  | .region (.adopt ..) | .variadic (.adopt ..) => True
  | _ => False

def Move.Adopts : Move → Prop
  | call _ c => c.Adopts
  | chore _ => False

instance : DecidablePred Call.Adopts := fun c => by
  unfold Call.Adopts
  split <;> infer_instance

/-- The moves of calls that are made one after another with the same system allocator. -/
def movesOf (system : SystemAllocator) (calls : List (Thread × Call)) : List Move :=
  (calls.map fun p => .call ⟨p.1, system⟩ p.2).reverse

theorem within_movesOf (system : SystemAllocator) (calls : List (Thread × Call)) :
    ∀ m ∈ movesOf system calls, m.Within system := by
  intro m hm
  obtain ⟨p, _, rfl⟩ := List.mem_map.mp (List.mem_reverse.mp hm)
  exact .refl system

theorem adopts_movesOf (system : SystemAllocator) {calls : List (Thread × Call)}
    (h : ∀ p ∈ calls, ¬ p.2.Adopts) : ∀ m ∈ movesOf system calls, ¬ m.Adopts := by
  intro m hm
  obtain ⟨p, hp, rfl⟩ := List.mem_map.mp (List.mem_reverse.mp hm)
  exact h p hp

/-! ### Chores -/

variable {system : SystemAllocator} {strict : Prop} {waiting : List Block} {G : List Region}
  {σ τ : Store} {S : Session} {ctx : Context} {more : List Chore}

theorem Holdings.blocks_chores (h : Holdings) : h.chores.flatMap Chore.blocks = h.blocks := by
  have hp : (h.actions.map Chore.perform).flatMap Chore.blocks = [] := by
    simp [List.flatMap_map, Chore.blocks]
  rw [Holdings.chores, List.flatMap_append, hp]
  simp [Chore.blocks]

/-- What a scope holds when it ends can still be done afterwards. -/
theorem Store.Sound.holdings (h : σ.Sound system strict waiting) {s : ScopeId} (hl : σ.Later τ)
    (hh : ∀ p ∈ (σ.scope s).actions, ∀ u, p.action.target? = some u → σ.Holds u → τ.Holds u) :
    ∀ c ∈ (σ.holdings s).chores, c.Sound τ strict := by
  intro c hc
  rcases List.mem_append.mp hc with hc | hc
  · obtain ⟨p, hp, rfl⟩ := List.mem_map.mp hc
    have hold := h.actions s p hp
    refine ⟨Nat.lt_of_lt_of_le hold.1 hl.tickets, hold.2.later hl fun u hu => ?_⟩
    exact hh p hp u hu (hold.2.target u hu)
  · rw [List.mem_singleton.mp hc]
    trivial

/-- What an action does keeps the store sound. What it has still to do is sound as well. -/
structure CloseAction.Unfolds (system : SystemAllocator) (strict : Prop) (waiting : List Block)
    (σ τ : Store) (more : List Chore) : Prop where
  sound : τ.Sound system strict (more.flatMap Chore.blocks ++ waiting)
  later : σ.Later τ
  spares : σ.Spares τ
  arenas : τ.arenas = σ.arenas
  chores : ∀ c ∈ more, c.Sound τ strict

theorem CloseAction.Unfolds.letGo (h : σ.Sound system strict waiting) (hl : τ.Later σ)
    (hsp : τ.Spares σ) (ha : σ.arenas = τ.arenas) {text : String} {s : ScopeId}
    (hs : τ.Holds s) : CloseAction.Unfolds system strict waiting τ σ [.write text, .letGo s] where
  sound := h
  later := hl
  spares := hsp
  arenas := ha
  chores c hc := by
    rcases List.mem_cons.mp hc with rfl | hc
    · trivial
    · obtain rfl := List.mem_singleton.mp hc
      exact hs.later hl hsp

theorem CloseAction.Unfolds.append (h : CloseAction.Unfolds system strict waiting σ τ more)
    {rest : List Chore} (hb : rest.flatMap Chore.blocks = [])
    (hr : ∀ c ∈ rest, c.Sound τ strict) :
    CloseAction.Unfolds system strict waiting σ τ (more ++ rest) where
  sound := by
    rw [List.flatMap_append, hb, List.append_nil]
    exact h.sound
  later := h.later
  spares := h.spares
  arenas := h.arenas
  chores c hc := (List.mem_append.mp hc).elim (h.chores c) (hr c)

theorem CloseAction.Unfolds.close (h : σ.Sound system strict waiting) {s : ScopeId}
    (hg : (σ.scope s).kind ≠ .global) (ha : σ.IsAlive s) :
    CloseAction.Unfolds system strict waiting σ (σ.endScope s .closed) (σ.holdings s).chores := by
  have hl : σ.Later (σ.endScope s .closed) := Store.later_endScope σ s (by simp)
  refine ⟨?_, hl, Store.spares_endScope σ s, rfl, h.holdings hl fun _ _ _ _ hu => ?_⟩
  · rw [Holdings.blocks_chores]
    refine (h.endScope (by simp) ha hg fun _ _ _ _ _ hu => ?_).perm List.perm_append_comm
    exact hu.endScope (Or.inr rfl)
  · exact hu.endScope (Or.inr rfl)

theorem CloseAction.Sound.say (label : String) : (CloseAction.say label).Sound σ strict where
  target _ h := by cases h
  region _ _ h := by cases h

theorem CloseAction.unfold_sound (ctx : Context) (h : σ.Sound system strict waiting)
    {a : CloseAction} (ha : a.Sound σ strict) :
    CloseAction.Unfolds system strict waiting σ (a.unfold ctx σ).1 (a.unfold ctx σ).2 := by
  have hsame : ∀ text s, σ.Holds s →
      CloseAction.Unfolds system strict waiting σ σ [.write text, .letGo s] := fun _ _ hs =>
    .letGo h (.refl σ) (fun _ h => h) rfl hs
  cases a with
  | say label =>
    refine ⟨h, .refl σ, fun _ h => h, rfl, fun c hc => ?_⟩
    rw [List.mem_singleton.mp hc]
    trivial
  | probe label s => exact hsame _ s (ha.target s rfl)
  | close label s =>
    have hs := ha.target s rfl
    have hc : (ScopeId.close s).Leads ctx σ _ _ := ScopeId.leads_close s
    simp only [CloseAction.unfold]
    cases hr : (ScopeId.close s).run ctx σ with
    | error e τ =>
      obtain rfl := hc.error hr
      exact hsame _ s hs
    | ok held τ =>
      obtain ⟨_, hg, hlive, rfl, rfl⟩ := hc.ok hr
      have halive : σ.IsAlive s := by
        rw [Store.IsAlive, Scope.isAlive, hlive]
      refine (CloseAction.Unfolds.close h hg halive).append rfl fun c hc => ?_
      rcases List.mem_cons.mp hc with rfl | hc
      · trivial
      · rw [List.mem_singleton.mp hc]
        exact hs.endScope (Or.inr rfl)
  | extend label s =>
    have hs := ha.target s rfl
    have hadd : (ScopeId.addAction s (.say (label ++ "\x27"))).Leads ctx σ _ _ :=
      ScopeId.leads_addAction s _
    simp only [CloseAction.unfold]
    cases hr : (ScopeId.addAction s (.say (label ++ "\x27"))).run ctx σ with
    | error e τ =>
      obtain rfl := hadd.error hr
      exact hsame _ s hs
    | ok u τ =>
      obtain ⟨hu, rfl⟩ := hadd.ok hr
      exact .letGo (h.addAction (Store.checkUsable_eq_ok_iff.mp hu).2 (.say _))
        (Store.later_addAction _ _ _) (Store.spares_addAction _ _ _) rfl hs
  | fill label r =>
    have hs := ha.target r.scope rfl
    have hf : (r.fill 0xee).Leads ctx σ _ _ := Region.leads_fill
    simp only [CloseAction.unfold]
    cases hr : (r.fill 0xee).run ctx σ with
    | error e τ =>
      obtain rfl := hf.error hr
      exact hsame _ _ hs
    | ok u τ =>
      obtain ⟨_, rfl⟩ := hf.ok hr
      have hx := Store.extends_setMemory σ (σ.memory.fill r.start.toNat r.size.toNat 0xee)
      exact .letGo (h.setMemory _) hx.toLater hx.spares rfl hs
  | hold label s =>
    refine ⟨h, .refl σ, fun _ h => h, rfl, fun c hc => ?_⟩
    simp only [CloseAction.unfold, List.mem_cons, List.not_mem_nil, or_false] at hc
    rcases hc with rfl | rfl | rfl
    · trivial
    · exact ha.target s rfl
    · trivial

/-- The second session is sound with the regions handed out, and all that is still there of the
first is where it was. -/
structure Session.Follows (system : SystemAllocator) (strict : Prop) (G : List Region)
    (S T : Session) : Prop where
  sound : T.Sound system strict G
  later : S.store.Later T.store

theorem Session.Sound.reclaim {chores : List Chore} {s : ScopeId}
    (h : Session.Sound system strict G { S with chores := .letGo s :: chores })
    (hs : S.store.IsAlive s) (hr : ¬ S.store.IsReferred S.roots chores s) :
    Session.Follows system strict G S
      { S with
        store := S.store.endScope s .reclaimed
        chores := (S.store.holdings s).chores ++ chores } := by
  have hl : S.store.Later (S.store.endScope s .reclaimed) := Store.later_endScope _ s (by simp)
  have hne : ∀ u, u ∈ S.roots ∨ u ∈ chores.filterMap Chore.target? ∨
      u ∈ S.store.actionTargets → u ≠ s := by
    intro u hu he
    subst he
    exact hr (by unfold Store.IsReferred; exact hu.imp id fun h => h.imp id Or.inl)
  have hact : ∀ t, ∀ p ∈ (S.store.scope t).actions, ∀ u, p.action.target? = some u →
      S.store.Holds u → (S.store.endScope s .reclaimed).Holds u := by
    intro t p hp u hu hh
    refine hh.endScope (Or.inl (hne u (Or.inr (Or.inr ?_))))
    have ht : t < S.store.scopes.length := by
      by_cases ht : t < S.store.scopes.length
      · exact ht
      · rw [Store.scope_of_length_le (Nat.le_of_not_lt ht)] at hp
        cases hp
    refine List.mem_flatMap.mpr ⟨_, Store.scope_mem ht, ?_⟩
    exact List.mem_filterMap.mpr ⟨p, hp, hu⟩
  have hg : (S.store.scope s).kind ≠ .global := fun he =>
    hr (Or.inr (Or.inr (Or.inr he)))
  have hw : Session.waiting { S with chores := Chore.letGo s :: chores } =
      chores.flatMap Chore.blocks := rfl
  refine ⟨⟨?_, h.ledger.of_arenas h.store hl rfl, fun p hp => ?_, fun c hc => ?_⟩, hl⟩
  · have hst := h.store.endScope (l := .reclaimed) (by simp) hs hg hact
    refine hst.perm ?_
    rw [hw]
    unfold Session.waiting
    rw [List.flatMap_append, Holdings.blocks_chores]
    exact List.perm_append_comm
  · have hp' := h.handles p hp
    refine hp'.later' hl fun u hu => (hp'.scopes u hu).endScope (Or.inl (hne u (Or.inl ?_)))
    exact List.mem_flatMap.mpr ⟨p, hp, hu⟩
  · rcases List.mem_append.mp hc with hc | hc
    · exact h.store.holdings hl (fun p hp u hu => hact s p hp u hu) c hc
    · have hc' := h.chores c (List.mem_cons_of_mem _ hc)
      have ht : ∀ u, c.target? = some u → u ≠ s := fun u hu =>
        hne u (Or.inr (Or.inl (List.mem_filterMap.mpr ⟨c, hc, hu⟩)))
      cases c with
      | perform p =>
        refine ⟨Nat.lt_of_lt_of_le hc'.1 hl.tickets, hc'.2.later hl fun u hu => ?_⟩
        exact (hc'.2.target u hu).endScope (Or.inl (ht u hu))
      | letGo u => exact Store.Holds.endScope hc' (Or.inl (ht u rfl))
      | _ => trivial

theorem Session.Sound.next {chores : List Chore} (h : S.Sound system strict G)
    (hst : τ.Sound system strict (chores.flatMap Chore.blocks)) (hl : S.store.Later τ)
    (hsp : S.store.Spares τ) (ha : τ.arenas = S.store.arenas)
    (hc : ∀ c ∈ chores, c.Sound τ strict) :
    Session.Follows system strict G S { S with store := τ, chores } where
  sound := ⟨hst, h.ledger.of_arenas h.store hl ha, fun p hp => (h.handles p hp).later hl hsp, hc⟩
  later := hl

theorem Session.Sound.advance (h : S.Sound system strict G) (ctx : Context) :
    S.Follows system strict G (S.advance ctx) := by
  obtain ⟨σ, handles, chores⟩ := S
  cases chores with
  | nil => exact ⟨h, .refl σ⟩
  | cons c rest =>
    have hc : c.Sound σ strict := h.chores c List.mem_cons_self
    have hrest : ∀ c' ∈ rest, c'.Sound σ strict := fun c' hc' =>
      h.chores c' (List.mem_cons_of_mem _ hc')
    have hst : σ.Sound system strict (c.blocks ++ rest.flatMap Chore.blocks) := h.store
    have hnote : ∀ e, σ.Later (σ.note e) := fun e => Store.later_note σ e
    cases c with
    | perform p =>
      have hu := CloseAction.unfold_sound ctx (hst.note (.began p.ticket))
        (hc.2.later (hnote _) hc.2.target)
      have hx := (hnote _).trans hu.later
      refine h.next ?_ hx hu.spares hu.arenas fun c' hc' => ?_
      · rw [List.flatMap_append, List.flatMap_cons]
        exact hu.sound
      · rcases List.mem_append.mp hc' with hc' | hc'
        · exact hu.chores c' hc'
        · rcases List.mem_cons.mp hc' with rfl | hc'
          · trivial
          · exact (hrest c' hc').later hx hu.spares
    | finish ticket =>
      exact h.next (hst.note _) (hnote _) (fun _ h => h) rfl fun c' hc' =>
        (hrest c' hc').later (hnote _) fun _ h => h
    | write text =>
      exact h.next (hst.note _) (hnote _) (fun _ h => h) rfl fun c' hc' =>
        (hrest c' hc').later (hnote _) fun _ h => h
    | letGo s =>
      unfold Session.advance Chore.step
      dsimp only
      split
      next hr => exact ⟨(h.reclaim hr.1 hr.2).sound, (h.reclaim hr.1 hr.2).later⟩
      next => exact h.next hst (.refl σ) (fun _ h => h) rfl hrest
    | unguard s =>
      unfold Session.advance Chore.step Store.unpin
      dsimp only
      split
      next ha =>
        have hx := Store.later_setLive σ (σ.guards s - 1) ha
        exact h.next (hst.setLive _ ha) hx (Store.spares_setLive σ _) rfl fun c' hc' =>
          (hrest c' hc').later hx (Store.spares_setLive σ _)
      next => exact h.next hst (.refl σ) (fun _ h => h) rfl hrest
    | free blocks =>
      have hx := Store.later_freeBlocks σ blocks
      exact h.next hst.freeBlocks hx (fun _ h => h) rfl fun c' hc' =>
        (hrest c' hc').later hx fun _ h => h

end ScopedMemory
