import ScopedMemory.Proofs.Lifetime.Guards

namespace ScopedMemory

namespace Session

variable {governs : Prop} {S T : Session} {s : ScopeId} {l : Lifetime}

/-- The scope has come to its end, in the one way or the other. -/
structure Ended (S : Session) (s : ScopeId) (l : Lifetime) : Prop where
  known : s < S.store.scopes.length
  lifetime : (S.store.scope s).lifetime = l
  dead : ∀ n, l ≠ .live n

theorem Ended.not_isAlive (h : S.Ended s l) : ¬ S.store.IsAlive s := by
  unfold Store.IsAlive Scope.isAlive
  rw [h.lifetime]
  cases l with
  | live n => exact absurd rfl (h.dead n)
  | _ => exact Bool.false_ne_true

theorem ended_of_not_isAlive (hs : s < S.store.scopes.length) (hd : ¬ S.store.IsAlive s) :
    S.Ended s (S.store.scope s).lifetime := by
  refine ⟨hs, rfl, fun n hn => hd ?_⟩
  unfold Store.IsAlive Scope.isAlive
  rw [hn]

/-- What happens to another scope is nothing to one that has ended. -/
theorem Ended.ne (h : S.Ended s l) {t : ScopeId} (ht : S.store.IsAlive t) : s ≠ t := by
  rintro rfl
  exact h.not_isAlive ht

theorem Ended.of_scope (h : S.Ended s l) (hlen : T.store.scopes.length = S.store.scopes.length)
    (hs : T.store.scope s = S.store.scope s) : T.Ended s l :=
  ⟨hlen ▸ h.known, hs ▸ h.lifetime, h.dead⟩

theorem Ended.setLifetime (h : S.Ended s l) {t : ScopeId} (ht : S.store.IsAlive t)
    (l' : Lifetime) (hT : T.store = S.store.setLifetime t l') : T.Ended s l := by
  refine h.of_scope (by simp [hT]) ?_
  rw [hT, Store.scope_setLifetime, if_neg fun he => h.ne ht he.1]

theorem Ended.endScope (h : S.Ended s l) {t : ScopeId} (ht : S.store.IsAlive t)
    (l' : Lifetime) (hT : T.store = S.store.endScope t l') : T.Ended s l := by
  refine h.of_scope (by simp [hT]) ?_
  rw [hT, Store.scope_endScope, if_neg fun he => h.ne ht he.1]

/-- No call brings a scope back. -/
theorem Ended.edit (h : S.Ended s l) (he : S.Edit governs T) : T.Ended s l := by
  cases he with
  | store hk =>
    exact ⟨Nat.lt_of_lt_of_le h.known hk.scopes, hk.lifetime h.known ▸ h.lifetime, h.dead⟩
  | lost name => exact h.of_scope (by rw [S.store_lost]) (by rw [S.store_lost])
  | acquired _ _ ha => exact h.setLifetime ha _ rfl
  | @closed t _ _ _ _ hl _ =>
    refine h.endScope (t := t) ?_ _ rfl
    rw [Store.IsAlive, Scope.isAlive, hl]
  | @accepted t a ha _ =>
    refine h.of_scope (by simp) ?_
    rw [Store.scope_addAction, if_neg fun he => h.ne ha he.1]
  | _ => exact h.of_scope rfl rfl

theorem Ended.edits (h : S.Ended s l) (he : S.Edits governs T) : T.Ended s l := by
  induction he with
  | refl => exact h
  | tail _ he ih => exact ih.edit he

theorem Ended.unpin (h : S.Ended s l) {t : ScopeId} (hT : T.store = S.store.unpin t) :
    T.Ended s l := by
  unfold Store.unpin at hT
  split at hT
  next ht => exact h.setLifetime ht _ hT
  next => exact h.of_scope (by rw [hT]) (by rw [hT])

theorem Ended.work (h : S.Ended s l) (hw : S.Work T) : T.Ended s l := by
  cases hw with
  | reclaimed _ ha _ => exact h.endScope ha _ rfl
  | unguarded _ => exact h.unpin rfl
  | _ => exact h.of_scope rfl rfl

theorem Ended.begin (h : S.Ended s l) (hS : S.Rooted) (ctx : Context) (c : Call) :
    (S.begin ctx c).2.Ended s l := by
  obtain ⟨T, he, hT⟩ := begin_cases hS ctx c
  rw [hT]
  exact (h.edits he).of_scope rfl rfl

theorem Ended.advance (h : S.Ended s l) (ctx : Context) : (S.advance ctx).Ended s l := by
  cases hc : S.chores with
  | nil =>
    rw [advance_nil ctx hc]
    exact h
  | cons c rest =>
    obtain ⟨T, hw, he⟩ := advance_cases ctx hc
    exact (h.work hw).edits he

end Session

/-- A scope that has ended stays ended, and in the same way. -/
theorem play_ended {past : List Move} {s : ScopeId} {l : Lifetime} (h : (play past).Ended s l)
    (later : List Move) : (play (later ++ past)).Ended s l := by
  induction later with
  | nil => exact h
  | cons m later ih =>
    cases m with
    | call ctx c => exact ih.begin (play_tidied (later ++ past)).rooted ctx c
    | chore ctx => exact ih.advance ctx

/-- How a call ends, by how what it performs may end. -/
theorem Session.begin_leads {S : Session} {ctx : Context} {c : Call}
    {P : Reply → Session → Prop} {Q : Session → Prop} (h : c.perform.Leads ctx S P Q) :
    (∃ reply T, S.begin ctx c = (.ok reply, T.release S.store.scopes.length) ∧ P reply T) ∨
      ∃ e T, S.begin ctx c = (.error e, T.release S.store.scopes.length) ∧ Q T := by
  unfold begin
  cases hr : c.perform.run ctx S with
  | ok reply T => exact Or.inl ⟨reply, T, rfl, h.ok hr⟩
  | error e T => exact Or.inr ⟨e, T, rfl, h.error hr⟩

/-! ### Scopes that are closed -/

/-- With this move the scope is closed, by a call or by an action. -/
inductive Move.Closes (S : Session) : Move → ScopeId → Prop
  | call {ctx name s} (hs : S.scope? name = some s)
    (hr : (S.begin ctx (.scope (.close name))).1 = .ok .done) :
    Closes S (.call ctx (.scope (.close name))) s
  | chore {ctx ticket label s rest held τ}
    (hc : S.chores = .perform ⟨ticket, .close label s⟩ :: rest)
    (hr : (ScopeId.close s).run ctx (S.store.note (.began ticket)) = .ok held τ) :
    Closes S (.chore ctx) s

section closes

variable {S : Session} {s : ScopeId} {m : Move} {ctx : Context}

/-- What a scope leaves to be done when it is closed by a call comes after all the rest. -/
theorem ScopeCall.leads_close (name : Name) :
    (ScopeCall.close name).perform.Leads ctx S
      (fun reply T => reply = .done ∧ ∃ s, S.scope? name = some s ∧
        (S.store.scope s).lifetime = .live 0 ∧ T = { S with
          store := S.store.endScope s .closed
          chores := S.chores ++ (S.store.holdings s).chores })
      (· = S) := by
  refine Turn.leads_bind_find rfl fun s hs => ?_
  refine (Turn.leads_lift (ScopeId.leads_close s)).chain (fun T hT => ?_) fun held T hT => ?_
  · obtain ⟨_, rfl, rfl⟩ := hT
    rfl
  · obtain ⟨_, ⟨_, _, hl, rfl, rfl⟩, rfl⟩ := hT
    refine Turn.leads_leave.chain (fun _ hf => hf.elim) fun _ T hT => ?_
    exact Turn.leads_pure ⟨rfl, s, hs, hl, hT⟩

theorem ScopeCall.leads_acquire (scope name : Name) :
    (ScopeCall.acquire scope name).perform.Leads ctx S
      (fun _ T => ∃ s, S.store.IsAlive s ∧ T.store = S.store.pin s) (· = S) := by
  refine Turn.leads_bind_find rfl fun s _ => ?_
  refine (Turn.leads_lift (ScopeId.leads_acquire s)).chain (fun T hT => ?_) fun _ T hT => ?_
  · obtain ⟨_, rfl, rfl⟩ := hT
    rfl
  · obtain ⟨_, ⟨hu, rfl⟩, rfl⟩ := hT
    refine Turn.leads_rename.chain (fun _ hf => hf.elim) fun _ T hT => ?_
    exact Turn.leads_pure ⟨s, Store.isAlive_of_checkUsable hu, hT ▸ rfl⟩

/-- What a call that acquires or closes a scope comes to. -/
theorem Session.begin_governs (S : Session) (ctx : Context) {c : Call} (hg : c.Governs) :
    (∃ name s, c = .scope (.close name) ∧ S.scope? name = some s ∧
      (S.store.scope s).lifetime = .live 0 ∧ S.begin ctx c = (.ok .done, { S with
        store := S.store.endScope s .closed
        chores := S.chores ++ (S.store.holdings s).chores })) ∨
      (∃ s, S.store.IsAlive s ∧ (S.begin ctx c).2.store = S.store.pin s) ∨
      (S.begin ctx c).2 = S := by
  cases c with
  | scope c =>
    cases c with
    | close name =>
      rcases begin_leads (c := .scope (.close name)) (ScopeCall.leads_close name) with
        ⟨_, T, he, rfl, s, hs, hl, rfl⟩ | ⟨e, T, he, rfl⟩
      · have hlen : (S.store.endScope s .closed).scopes.length = S.store.scopes.length := by simp
        rw [release_of_length hlen] at he
        exact Or.inl ⟨name, s, rfl, hs, hl, he⟩
      · rw [he]
        exact Or.inr (Or.inr (release_of_length rfl))
    | acquire scope name =>
      rcases begin_leads (c := .scope (.acquire scope name))
        (ScopeCall.leads_acquire scope name) with ⟨_, T, he, s, ha, hT⟩ | ⟨e, T, he, rfl⟩
      · rw [he]
        exact Or.inr (Or.inl ⟨s, ha, hT⟩)
      · rw [he]
        exact Or.inr (Or.inr (release_of_length rfl))
    | _ => exact hg.elim
  | _ => exact hg.elim

theorem Move.Closes.isAlive (h : m.Closes S s) : S.store.IsAlive s := by
  unfold Store.IsAlive Scope.isAlive
  cases h with
  | @call ctx name s hs hr =>
    rcases Session.begin_leads (c := .scope (.close name)) (ScopeCall.leads_close name) with
      ⟨_, _, _, _, t, ht, hl, _⟩ | ⟨e, T, he, _⟩
    · cases hs.symm.trans ht
      rw [hl]
    · rw [he] at hr
      cases hr
  | chore hc hr =>
    obtain ⟨_, _, hl, _⟩ := (ScopeId.leads_close s).ok hr
    have hl' : (S.store.scope s).lifetime = .live 0 := hl
    rw [hl']

theorem Move.Closes.ended (h : m.Closes S s) : (S.move m).Ended s .closed := by
  have hclosed : ∀ T : Session, T.store.scopes = (S.store.endScope s .closed).scopes →
      T.Ended s .closed := by
    intro T hT
    refine ⟨?_, ?_, by simp⟩
    · rw [hT, Store.length_scopes_endScope]
      exact Store.lt_length_of_isAlive h.isAlive
    · unfold Store.scope
      rw [hT]
      show ((S.store.endScope s .closed).scope s).lifetime = .closed
      rw [Store.scope_endScope_of_isAlive h.isAlive, if_pos rfl]
  cases h with
  | @call ctx name s hs hr =>
    show (S.begin ctx (.scope (.close name))).2.Ended s .closed
    rcases Session.begin_leads (c := .scope (.close name)) (ScopeCall.leads_close name) with
      ⟨_, T, he, _, t, ht, _, hT⟩ | ⟨e, T, he, _⟩
    · cases hs.symm.trans ht
      rw [he, hT]
      exact hclosed _ rfl
    · rw [he] at hr
      cases hr
  | @chore ctx ticket label s rest held τ hc hr =>
    show (S.advance ctx).Ended s .closed
    obtain ⟨_, _, _, _, rfl⟩ := (ScopeId.leads_close s).ok hr
    rw [Session.advance_cons ctx hc]
    simp only [Chore.step, CloseAction.unfold, hr]
    exact hclosed _ rfl

/-- An action that ends a scope closes it. -/
theorem Session.closes_perform {p : PendingAction} {rest : List Chore}
    (hc : S.chores = .perform p :: rest) (ha : S.store.IsAlive s)
    (hd : ¬ (S.advance ctx).store.IsAlive s) : (Move.chore ctx).Closes S s := by
  obtain ⟨ticket, a⟩ := p
  obtain ⟨more, _, hu⟩ := a.unfold_cases ctx (S.store.note (.began ticket))
  rw [advance_cons ctx hc] at hd
  simp only [Chore.step] at hd
  rcases hu with hu | ⟨label, u, rfl, hl, _, hu⟩ | ⟨_, u, _, _, hu⟩ | ⟨m, hu⟩
  · rw [hu] at hd
    exact absurd ha hd
  · have hau : (S.store.note (.began ticket)).IsAlive u := by
      rw [Store.IsAlive, Scope.isAlive, hl]
    cases hr : (ScopeId.close u).run ctx (S.store.note (.began ticket)) with
    | error e τ =>
      obtain rfl := (ScopeId.leads_close u).error hr
      simp only [CloseAction.unfold, hr] at hd
      exact absurd ha hd
    | ok held τ =>
      rw [hu] at hd
      obtain rfl : s = u := Store.eq_of_endScope hau ha hd
      exact .chore hc hr
  · rw [hu] at hd
    exact absurd ((Store.isAlive_addAction _ u _).mpr ha) hd
  · rw [hu] at hd
    exact absurd ha hd

/-- A scope ends as closed with the moves that close it only. -/
theorem Move.closes_of_closed (hS : S.Rooted) (ha : S.store.IsAlive s)
    (hl : ((S.move m).store.scope s).lifetime = .closed) : m.Closes S s := by
  have hd : ¬ (S.move m).store.IsAlive s := by
    unfold Store.IsAlive Scope.isAlive
    rw [hl]
    exact Bool.false_ne_true
  have hknown := Store.lt_length_of_isAlive ha
  have hopen : (S.store.scope s).lifetime ≠ .closed := fun he => by
    rw [Store.IsAlive, Scope.isAlive, he] at ha
    cases ha
  cases m with
  | call ctx c =>
    have hd : ¬ (S.begin ctx c).2.store.IsAlive s := hd
    by_cases hg : c.Governs
    · rcases S.begin_governs ctx hg with
        ⟨name, t, rfl, ht, hlive, he⟩ | ⟨t, ht, he⟩ | he
      · have hat : S.store.IsAlive t := by
          rw [Store.IsAlive, Scope.isAlive, hlive]
        rw [he] at hd
        obtain rfl : s = t := Store.eq_of_endScope hat ha hd
        exact .call ht (by rw [he])
      · rw [he] at hd
        exact absurd (((Store.resembles_pin ht).alive s).mpr ha) hd
      · rw [he] at hd
        exact absurd ha hd
    · exact absurd ((Session.lifetime_begin hS ctx hg hknown).symm.trans hl) hopen
  | chore ctx =>
    have hd : ¬ (S.advance ctx).store.IsAlive s := hd
    have hl : ((S.advance ctx).store.scope s).lifetime = .closed := hl
    cases hc : S.chores with
    | nil =>
      rw [Session.advance_nil ctx hc] at hd
      exact absurd ha hd
    | cons c rest =>
      have hstep := Session.advance_cons ctx hc
      cases c with
      | perform p => exact Session.closes_perform hc ha hd
      | letGo t =>
        rw [hstep] at hd hl
        simp only [Chore.step] at hd hl
        by_cases hr : (S.store.scope t).isAlive = true ∧ ¬ S.store.IsReferred S.roots rest t
        · rw [if_pos hr] at hd hl
          obtain rfl : s = t := Store.eq_of_endScope hr.1 ha hd
          have hend : ((S.store.endScope s .reclaimed).scope s).lifetime = .reclaimed := by
            rw [Store.scope_endScope_of_isAlive ha, if_pos rfl]
          cases hend.symm.trans hl
        · rw [if_neg hr] at hd
          exact absurd ha hd
      | unguard t =>
        rw [hstep] at hd
        exact absurd (((Store.resembles_unpin S.store t).alive s).mpr ha) hd
      | _ =>
        rw [hstep] at hd
        exact absurd ha hd

end closes
end ScopedMemory
