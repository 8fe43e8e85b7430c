import Mathlib.Data.List.Nodup
import Mathlib.Data.List.Perm.Subperm
import ScopedMemory.Proofs.Lifetime.Actions
import ScopedMemory.Proofs.Lifetime.Blocks
import ScopedMemory.Proofs.Refusal.Closed

namespace ScopedMemory

/-- From here the operation fails and changes nothing. -/
def Operation.Refuses {α : Type} (x : Operation α) (ctx : Context) (σ : Store) : Prop :=
  ∃ e, x.run ctx σ = .error e σ

theorem Operation.Leads.refuses {α : Type} {x : Operation α} {ctx : Context} {σ : Store}
    {P : α → Store → Prop} (h : x.Leads ctx σ P (· = σ)) (hP : ∀ a τ, ¬ P a τ) :
    x.Refuses ctx σ := by
  cases hr : x.run ctx σ with
  | ok a τ => exact absurd (h.ok hr) (hP a τ)
  | error e τ =>
    have hτ : τ = σ := h.error hr
    exact ⟨e, by rw [hr, hτ]⟩

/-! ### Actions that turn to a scope that has ended -/

/-- What somebody is told who tries to change a scope that has ended. -/
def MemoryError.Excludes (s : ScopeId) (e : MemoryError) : Prop :=
  e = .wrongThread s ∨ e = .scopeNotClosable s ∨ e = .alreadyClosed s

/-- What an action comes to when its call on the target fails with `e`. -/
def CloseAction.rebuffed (e : MemoryError) : CloseAction → List Chore
  | say label => [.write label]
  | probe label s => [.write s!"{label} alive={false} blocks={0}", .letGo s]
  | close label s =>
    let fault := e.name
    [.write s!"{label} close={fault}", .letGo s]
  | extend label s =>
    let fault := e.name
    [.write s!"{label} add={fault}", .letGo s]
  | fill label r =>
    let fault := e.name
    [.write s!"{label} fill={fault}", .letGo r.scope]
  | hold label s => [.write label, .letGo s, .write s!"{label} released"]

section ended

variable {σ : Store} {s : ScopeId} (ctx : Context)

theorem Store.checkUsable_excludes (hd : ¬ σ.IsAlive s) (t : Thread) :
    ∃ e, MemoryError.Excludes s e ∧ σ.checkUsable t s = .error e := by
  rcases σ.checkUsable_cases t s with ⟨_, h⟩ | ⟨_, _, h⟩ | ⟨_, ha, _⟩
  · exact ⟨_, Or.inl rfl, h⟩
  · exact ⟨_, Or.inr (Or.inr rfl), h⟩
  · exact absurd ha hd

theorem ScopeId.run_close_excludes (hd : ¬ σ.IsAlive s) :
    ∃ e, MemoryError.Excludes s e ∧ (ScopeId.close s).run ctx σ = .error e σ := by
  have hlive : ∀ n, (σ.scope s).lifetime ≠ .live n := by
    intro n hn
    rw [Store.IsAlive, Scope.isAlive, hn] at hd
    exact hd rfl
  unfold ScopeId.close
  simp only [Operation.run_bind, Operation.run_checkOwner]
  cases ho : σ.checkOwner ctx.caller s with
  | error e =>
    have he : e = .wrongThread s := by
      unfold Store.checkOwner at ho
      split at ho
      · split at ho
        · cases ho
        · exact (Except.error.inj ho).symm
      · cases ho
    exact ⟨e, Or.inl he, rfl⟩
  | ok u =>
    simp only [Operation.run_require_ok, Operation.run_get]
    split
    next => exact ⟨_, Or.inr (Or.inl rfl), rfl⟩
    next => exact ⟨_, Or.inr (Or.inl rfl), rfl⟩
    next hl _ _ => exact absurd hl (hlive 0)
    next n _ hl _ _ => exact absurd hl (hlive n)
    next => exact ⟨_, Or.inr (Or.inr rfl), rfl⟩

/-- An action that turns to a scope that has ended reports so, and that is all it does. -/
theorem CloseAction.unfold_excludes {a : CloseAction} (ht : a.target? = some s)
    (hd : ¬ σ.IsAlive s) (hb : (σ.scope s).blocks = []) :
    ∃ e, MemoryError.Excludes s e ∧ a.unfold ctx σ = (σ, a.rebuffed e) := by
  obtain ⟨e, he, hu⟩ := Store.checkUsable_excludes hd ctx.caller
  cases a with
  | say label => cases ht
  | probe label u =>
    cases ht
    refine ⟨e, he, ?_⟩
    have hcount : (σ.scope s).blockCount = 0 := congrArg List.length hb
    unfold CloseAction.unfold CloseAction.rebuffed
    dsimp only
    rw [Bool.eq_false_iff.mpr hd, hcount]
  | hold label u =>
    cases ht
    exact ⟨e, he, rfl⟩
  | close label u =>
    cases ht
    obtain ⟨e', he', hr⟩ := ScopeId.run_close_excludes ctx hd
    refine ⟨e', he', ?_⟩
    simp only [CloseAction.unfold, hr]
    rfl
  | extend label u =>
    cases ht
    have hr : (ScopeId.addAction s (.say (label ++ "\x27"))).run ctx σ = .error e σ := by
      simp [ScopeId.addAction, hu]
    refine ⟨e, he, ?_⟩
    simp only [CloseAction.unfold, hr]
    rfl
  | fill label r =>
    cases ht
    have hr : (r.fill 0xee).run ctx σ = .error e σ := by
      rw [Region.run_fill, Store.checkAccess_eq, hu]
    refine ⟨e, he, ?_⟩
    simp only [CloseAction.unfold, hr]
    rfl

end ended

namespace Session

variable {S : Session} {s : ScopeId}

/-- What is left of a scope that has ended, for whoever still refers to it, also while its own
actions are run. -/
structure Shut (S : Session) (s : ScopeId) : Prop where
  isAlive : (S.store.scope s).isAlive = false
  holdings : S.store.holdings s = ⟨[], []⟩
  close : ∀ ctx, (ScopeId.close s).Refuses ctx S.store
  addAction : ∀ ctx a, (ScopeId.addAction s a).Refuses ctx S.store
  fill : ∀ ctx (r : Region) value, r.scope = s → (r.fill value).Refuses ctx S.store
  write : ∀ ctx (r : Region) offset bytes, r.scope = s → (r.write offset bytes).Refuses ctx S.store
  set : ∀ ctx (r : Region) l offset x, r.scope = s → (r.set l offset x).Refuses ctx S.store
  setAddress : ∀ ctx (r : Region) l offset a, r.scope = s →
    (r.setAddress l offset a).Refuses ctx S.store
  copyFrom : ∀ ctx (r src : Region), r.scope = s → (r.copyFrom src).Refuses ctx S.store
  /-- An action that turns to the scope begins, reports that it is neither alive nor has blocks, or
  that its call failed, and lets go of it. -/
  performs : ∀ ctx p rest, S.chores = .perform p :: rest → p.action.target? = some s →
    ∃ e, MemoryError.Excludes s e ∧ S.advance ctx =
      { S with
        store := S.store.note (.began p.ticket)
        chores := p.action.rebuffed e ++ .finish p.ticket :: rest }

theorem Aside.shut (hS : S.Aside fun _ => False) (hT : S.Tidied) (hd : ¬ S.store.IsAlive s) :
    S.Shut s := by
  have hblocks : (S.store.scope s).blocks = [] := hS.emptied s hd
  have hactions : (S.store.scope s).actions = [] := hT.emptied s hd
  have hbarred : ∀ {t : Thread} {r : Region}, r.scope = s →
      S.store.checkUsable t r.scope ≠ .ok () := by
    rintro t r rfl hu
    exact hd (Store.isAlive_of_checkUsable hu)
  refine ⟨Bool.eq_false_iff.mpr hd, ?_, fun ctx => ?_, fun ctx a => ?_, ?_, ?_, ?_, ?_, ?_, ?_⟩
  · unfold Store.holdings
    rw [hblocks, hactions]
  · obtain ⟨e, _, hr⟩ := ScopeId.run_close_excludes ctx hd
    exact ⟨e, hr⟩
  · exact (ScopeId.leads_addAction s a).refuses fun _ _ h =>
      hd (Store.isAlive_of_checkUsable h.1)
  · intro ctx r value hr
    exact Region.leads_fill.refuses fun _ _ h =>
      hbarred hr (Store.checkAccess_eq_ok_iff.mp h.1).1
  · intro ctx r offset bytes hr
    exact Region.leads_write.refuses fun _ _ h =>
      hbarred hr (Store.checkWrite_eq_ok_iff.mp h.1).1
  · intro ctx r l offset x hr
    exact Region.leads_set.refuses fun _ _ h =>
      hbarred hr (Store.checkWrite_eq_ok_iff.mp h.2.1).1
  · intro ctx r l offset a hr
    refine Region.leads_setAddress.refuses fun _ _ h => ?_
    obtain ⟨_, _, hw, _⟩ := h
    exact hbarred hr (Store.checkWrite_eq_ok_iff.mp hw).1
  · intro ctx r src hr
    exact Region.leads_copyFrom.refuses fun _ _ h =>
      hbarred hr (Store.checkAccess_eq_ok_iff.mp h.2.1).1
  · intro ctx p rest hc ht
    obtain ⟨e, he, hu⟩ := CloseAction.unfold_excludes ctx
      (σ := S.store.note (.began p.ticket)) ht hd hblocks
    refine ⟨e, he, ?_⟩
    rw [advance_cons ctx hc]
    simp only [Chore.step, hu]

end Session

/-! ### Chores that come to an end -/

/-- As many chores as the weight of the store allows leave nothing to be done, whoever does them. -/
theorem play_chores (past : List Move) (ctxs : List Context) :
    (play (ctxs.map .chore ++ past)).chores = [] ∨
      (play (ctxs.map .chore ++ past)).store.weight (play (ctxs.map .chore ++ past)).chores +
        ctxs.length ≤ (play past).store.weight (play past).chores := by
  induction ctxs with
  | nil => exact Or.inr (Nat.le_refl _)
  | cons ctx ctxs ih =>
    have hnext : play ((ctx :: ctxs).map .chore ++ past) =
        (play (ctxs.map .chore ++ past)).advance ctx := rfl
    rw [hnext]
    cases hc : (play (ctxs.map .chore ++ past)).chores with
    | nil =>
      rw [Session.advance_nil ctx hc]
      exact Or.inl hc
    | cons c rest =>
      have hw := Session.weight_advance ctx hc
      have hbound := ih.resolve_left (by rw [hc]; exact List.cons_ne_nil c rest)
      rw [List.length_cons]
      omega

theorem play_chores_eq_nil (past : List Move) {ctxs : List Context}
    (h : (play past).store.weight (play past).chores ≤ ctxs.length) :
    (play (ctxs.map .chore ++ past)).chores = [] := by
  rcases play_chores past ctxs with hnil | hw
  · exact hnil
  · cases hc : (play (ctxs.map .chore ++ past)).chores with
    | nil => rfl
    | cons c rest =>
      have hlt := Session.weight_advance ⟨0, TwinHeaps.system⟩ hc
      omega

/-- What stands before the rest of the chores gets done first, and nothing of the rest meanwhile. -/
theorem play_front {front rest : List Chore} {past : List Move} {ctxs : List Context}
    (hc : (play past).chores = front ++ rest)
    (hw : (play past).store.weight (play past).chores ≤ ctxs.length) :
    ∃ newer older, ctxs = newer ++ older ∧ (play (older.map .chore ++ past)).chores = rest ∧
      ∀ done, done <:+ older → ∃ front', (play (done.map .chore ++ past)).chores =
        front' ++ rest := by
  induction hn : (play past).store.weight (play past).chores using Nat.strongRecOn
    generalizing past front ctxs with
  | ind n ih =>
    cases front with
    | nil =>
      refine ⟨ctxs, [], (List.append_nil _).symm, hc, fun done hd => ?_⟩
      rw [List.suffix_nil.mp hd]
      exact ⟨[], hc⟩
    | cons c front =>
      rcases List.eq_nil_or_concat ctxs with rfl | ⟨init, ctx, rfl⟩
      · have hlt := Session.weight_advance ⟨0, TwinHeaps.system⟩ hc
        have hzero : (play past).store.weight (play past).chores ≤ 0 := hw
        omega
      · have hlt := Session.weight_advance ctx hc
        obtain ⟨front', hfront⟩ := Session.advance_front ctx hc
        have hnext : (play (.chore ctx :: past)).chores = front' ++ rest := hfront
        have hinit : (play (.chore ctx :: past)).store.weight (play (.chore ctx :: past)).chores ≤
            init.length := by
          change ((play past).advance ctx).store.weight ((play past).advance ctx).chores ≤ _
          rw [List.length_concat] at hw
          omega
        obtain ⟨newer, older, he, hrest, hdone⟩ :=
          ih _ (hn ▸ hlt) hnext hinit rfl
        have hmove : ∀ xs : List Context, (xs ++ [ctx]).map Move.chore ++ past =
            xs.map .chore ++ .chore ctx :: past := by
          intro xs
          rw [List.map_append, List.append_assoc]
          rfl
        refine ⟨newer, older ++ [ctx], ?_, ?_, fun done hd => ?_⟩
        · rw [he, List.concat_eq_append, List.append_assoc]
        · rw [hmove]
          exact hrest
        · rcases List.suffix_concat_iff.mp hd with rfl | ⟨done', rfl, hd'⟩
          · exact ⟨c :: front, hc⟩
          · rw [hmove]
            exact hdone done' hd'

/-! ### Executions -/

namespace Store

variable {σ : Store} {t : Nat}

/-- The tickets of the actions that began to run, newest first. -/
def begun (σ : Store) : List Nat :=
  σ.journal.filterMap fun
    | .began t => some t
    | _ => none

/-- The tickets of the actions that were ever accepted, for whichever scope, newest first. -/
def taken (σ : Store) : List Nat :=
  σ.journal.filterMap fun
    | .accepted _ t => some t
    | _ => none

theorem mem_begun : t ∈ σ.begun ↔ .began t ∈ σ.journal := by
  unfold begun
  rw [List.mem_filterMap]
  constructor
  · rintro ⟨e, he, ht⟩
    cases e <;> cases ht
    exact he
  · intro h
    exact ⟨_, h, rfl⟩

theorem mem_taken {s : ScopeId} (h : t ∈ σ.accepted s) : t ∈ σ.taken := by
  obtain ⟨e, he, ht⟩ := List.mem_filterMap.mp h
  refine List.mem_filterMap.mpr ⟨e, he, ?_⟩
  cases e with
  | accepted u t' =>
    have hsome : (if u = s then some t' else none) = some t := ht
    by_cases hu : u = s
    · rwa [if_pos hu] at hsome
    · rw [if_neg hu] at hsome
      cases hsome
  | _ => cases ht

theorem begun_eq_runs : σ.begun = σ.runs.reverse.filterMap fun
    | .began t => some t
    | _ => none := by
  unfold begun runs
  rw [← List.filter_reverse, List.reverse_reverse, List.filterMap_filter]
  congr 1
  funext e
  cases e <;> rfl

end Store

namespace Session

variable {S : Session}

theorem Recorded.nodup_begun (h : S.Recorded) : S.store.begun.Nodup := by
  have hruns : S.store.runs.Nodup := h.nodup.sublist (List.sublist_append_left _ _)
  rw [Store.begun_eq_runs]
  refine (List.nodup_reverse.mpr hruns).filterMap fun e e' t he he' => ?_
  cases e <;> cases he
  cases e' <;> cases he'
  rfl

theorem Recorded.begun_subset (h : S.Recorded) : S.store.begun ⊆ S.store.taken := by
  intro t ht
  have hm : JournalEntry.began t ∈ S.timeline :=
    List.mem_append_left _ (Store.mem_runs.mpr ⟨Store.mem_begun.mp ht, rfl⟩)
  obtain ⟨s, _, u, hu, he⟩ := h.only _ hm
  obtain rfl : t = u := ticket_eq_of_mem_runOf (mem_runOf.mpr (Or.inl rfl)) he
  exact Store.mem_taken hu

/-- There are no more executions than actions that were accepted. -/
theorem Recorded.length_begun_le (h : S.Recorded) :
    S.store.begun.length ≤ S.store.taken.length :=
  (h.nodup_begun.subperm h.begun_subset).length_le

end Session

/-! ### Ends that lead to other ends -/

/-- How the ends of scopes that begin at this point of a run, and those that they lead to, come to
an end themselves. -/
structure Cascades (past : List Move) : Prop where
  /-- Whoever does the chores, there is a number of them after which none is left. -/
  drains : ∀ ctxs : List Context,
    (play past).store.weight (play past).chores ≤ ctxs.length →
      (play (ctxs.map .chore ++ past)).chores = []
  /-- A call comes back when all that it left to be done is done. -/
  answers : ∀ system t c, ∃ n,
    play (List.replicate n (.chore ⟨t, system⟩) ++ .call ⟨t, system⟩ c :: past) =
      ((play past).step system t c).2 ∧ ((play past).step system t c).2.chores = []
  /-- An action or a last reference that ends a scope comes back to what there was to do after it,
  of which nothing is done before. Meanwhile the scope is shut. -/
  returns : ∀ ctx s, (play past).store.IsAlive s → ¬ (play (.chore ctx :: past)).store.IsAlive s →
    ∃ more, (play (.chore ctx :: past)).chores =
        ((play past).store.holdings s).chores ++ more ∧
      ∀ ctxs : List Context, (play (.chore ctx :: past)).store.weight
          (play (.chore ctx :: past)).chores ≤ ctxs.length →
        ∃ newer older, ctxs = newer ++ older ∧
          (play (older.map .chore ++ .chore ctx :: past)).chores = more ∧
          ∀ done, done <:+ older →
            (∃ front, (play (done.map .chore ++ .chore ctx :: past)).chores = front ++ more) ∧
            (play (done.map .chore ++ .chore ctx :: past)).Shut s
  /-- A scope ends once, and then is shut for good. -/
  shut : ∀ m s, (play past).store.IsAlive s → ¬ (play (m :: past)).store.IsAlive s →
    ∀ later, (play (later ++ m :: past)).Shut s
  /-- A call or an action whose close is answered ends the scope so. While what the scope left is
  being done, and for good, the scope is shut, and no other move closes it. -/
  closes : ∀ m s, m.Closes (play past) s →
    (play past).store.IsAlive s ∧ ¬ (play (m :: past)).store.IsAlive s ∧
      ∀ later, (play (later ++ m :: past)).Shut s ∧
        ∀ m' : Move, ¬ m'.Closes (play (later ++ m :: past)) s
  /-- What was noted of runs and what is due tell of every run once. -/
  runs : (play past).timeline.Nodup
  executed : (play past).store.begun.Nodup ∧ (play past).store.begun ⊆ (play past).store.taken
  bounded : (play past).store.begun.length ≤ (play past).store.taken.length
  /-- No block is freed again unless it has been placed anew. -/
  freed : ∀ system : SystemAllocator, system.Separate → (∀ m ∈ past, m.Within system) →
    ∀ b newer between older,
      (play past).store.events = newer ++ .freed b :: (between ++ .freed b :: older) →
        ∃ pool, .placed pool b ∈ between

theorem play_shut {past : List Move} {m : Move} {s : ScopeId} (ha : (play past).store.IsAlive s)
    (hd : ¬ (play (m :: past)).store.IsAlive s) (later : List Move) :
    (play (later ++ m :: past)).Shut s := by
  have hknown : s < (play (m :: past)).store.scopes.length :=
    Nat.lt_of_lt_of_le (Store.lt_length_of_isAlive ha) (length_scopes_play past [m])
  have hended := play_ended (Session.ended_of_not_isAlive hknown hd) later
  exact (play_aside _).shut (play_tidied _) hended.not_isAlive

/-- Wherever a run has led to, no call that closes a scope or drops a last reference goes on for
ever, whatever the actions that it makes run do to each other's scopes. -/
theorem play_cascades (past : List Move) : Cascades past where
  drains ctxs h := play_chores_eq_nil past h
  answers system t c := by
    obtain ⟨n, hn, _⟩ := play_step past system t c
    exact ⟨n, hn, (play past).chores_step system t c⟩
  returns ctx s ha hd := by
    have hadvance : ¬ ((play past).advance ctx).store.IsAlive s := hd
    obtain ⟨more, hc, _⟩ := Session.advance_ends ha hadvance
    refine ⟨more, hc, fun ctxs hw => ?_⟩
    have hc : (play (.chore ctx :: past)).chores =
        ((play past).store.holdings s).chores ++ more := hc
    obtain ⟨newer, older, he, hmore, hdone⟩ := play_front hc hw
    exact ⟨newer, older, he, hmore, fun done hsuffix =>
      ⟨hdone done hsuffix, play_shut ha hd (done.map .chore)⟩⟩
  shut m s ha hd later := play_shut ha hd later
  closes m s h := by
    have hended : (play (m :: past)).Ended s .closed := h.ended
    have hd := hended.not_isAlive
    refine ⟨h.isAlive, hd, fun later => ?_⟩
    refine ⟨play_shut h.isAlive hd later, fun m' h' => ?_⟩
    exact (play_ended hended later).not_isAlive h'.isAlive
  runs := (play_recorded past).nodup
  executed := ⟨(play_recorded past).nodup_begun, (play_recorded past).begun_subset⟩
  bounded := (play_recorded past).length_begun_le
  freed system hsep hw b newer between older he := by
    have horderly := play_orderly hsep hw
    have hhistory := (play_sound hsep hw False.elim).store.history
    rw [he] at horderly hhistory
    exact horderly.once hsep hhistory

/-- Two scopes whose actions close each other, and one that asks for itself. -/
example : (Session.initial.run TwinHeaps.system
    [(0, .scope (.create .shared "a")), (0, .scope (.create .shared "b")),
      (0, .scope (.addAction "a" "x" (.close "b"))), (0, .scope (.addAction "b" "y" (.close "a"))),
      (0, .scope (.addAction "b" "z" (.probe "b"))), (0, .scope (.addAction "b" "w" (.extend "a"))),
      (0, .scope (.close "a"))]).2.store.journal.filterMap (fun
        | .line text => some text
        | _ => none) =
    ["x close=ok", "y close=AlreadyClosed", "z alive=false blocks=0", "w add=AlreadyClosed"] := by
  decide

end ScopedMemory
