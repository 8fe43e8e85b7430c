import Mathlib.Logic.Function.Iterate
import ScopedMemory.Proofs.Lifetime.Closing
import ScopedMemory.Proofs.Lifetime.Timeline
import ScopedMemory.Proofs.Session.Run

namespace ScopedMemory

namespace Store

variable {σ : Store} {s u : ScopeId} {e : JournalEntry}

theorem mem_runs : e ∈ σ.runs ↔ e ∈ σ.journal ∧ e.isRun = true := by
  unfold runs
  rw [List.mem_filter, List.mem_reverse]

theorem count_runs (he : e.isRun = true) : σ.runs.count e = σ.journal.count e := by
  unfold runs
  rw [List.count_filter he, List.count_reverse]

end Store

namespace Session

variable {S T : Session} {ctx : Context} {s : ScopeId} {t : Nat}

/-! ### Scopes that end while there is something to be done -/

/-- An action that ends a scope puts the actions of the scope before all that is left. -/
theorem perform_ends (hu : S.store.IsAlive s) (hd : ¬ (S.advance ctx).store.IsAlive s)
    {p : PendingAction} {rest : List Chore} (hc : S.chores = .perform p :: rest) :
    ∃ more, (S.advance ctx).chores = (S.store.holdings s).chores ++ more ∧
      S.timeline = (S.advance ctx).store.runs ++ more.flatMap Chore.due := by
  obtain ⟨more, hm, hcases⟩ := p.action.unfold_cases ctx (S.store.note (.began p.ticket))
  rw [advance_cons ctx hc] at hd ⊢
  simp only [Chore.step] at hd ⊢
  rcases hcases with he | ⟨_, u, _, hl, _, he⟩ | ⟨_, u, _, _, he⟩ | ⟨m, he⟩
  · rw [he] at hd
    exact absurd hu hd
  · rw [he] at hd ⊢
    have ha : (S.store.note (.began p.ticket)).IsAlive u := by
      rw [Store.IsAlive, Scope.isAlive, hl]
    obtain rfl : s = u := Store.eq_of_endScope ha hu hd
    refine ⟨more ++ .finish p.ticket :: rest, List.append_assoc _ _ _, ?_⟩
    have hruns : (S.store.note (.began p.ticket)).runs = S.store.runs ++ [.began p.ticket] :=
      Store.runs_note _ _
    show S.timeline = (S.store.note (.began p.ticket)).runs ++ _
    unfold timeline
    rw [hruns, hc, List.flatMap_append, hm.due]
    simp [Chore.due, runOf]
  · rw [he] at hd
    exact absurd ((Store.isAlive_addAction _ u _).mpr hu) hd
  · rw [he] at hd
    exact absurd hu hd

/-- So does every chore that ends a scope. -/
theorem advance_ends (hu : S.store.IsAlive s) (hd : ¬ (S.advance ctx).store.IsAlive s) :
    ∃ more, (S.advance ctx).chores = (S.store.holdings s).chores ++ more ∧
      S.timeline = (S.advance ctx).store.runs ++ more.flatMap Chore.due := by
  cases hc : S.chores with
  | nil =>
    rw [advance_nil ctx hc] at hd
    exact absurd hu hd
  | cons c rest =>
    have hstep := advance_cons ctx hc
    cases c with
    | perform p => exact perform_ends hu hd hc
    | letGo u =>
      rw [hstep] at hd ⊢
      simp only [Chore.step] at hd ⊢
      by_cases hr : (S.store.scope u).isAlive = true ∧ ¬ S.store.IsReferred S.roots rest u
      · rw [if_pos hr] at hd ⊢
        obtain rfl : s = u := Store.eq_of_endScope hr.1 hu hd
        refine ⟨rest, rfl, ?_⟩
        unfold timeline
        rw [hc]
        rfl
      · rw [if_neg hr] at hd
        exact absurd hu hd
    | unguard u =>
      rw [hstep] at hd
      exact absurd (((Store.resembles_unpin S.store u).alive s).mpr hu) hd
    | finish t =>
      rw [hstep] at hd
      exact absurd hu hd
    | write text =>
      rw [hstep] at hd
      exact absurd hu hd
    | free blocks =>
      rw [hstep] at hd
      exact absurd hu hd

/-- The actions of a scope run between the beginning and the end of the action that ends it. -/
theorem Recorded.nests (h : S.Recorded) (hu : S.store.IsAlive s)
    (hd : ¬ (S.advance ctx).store.IsAlive s)
    (hb : JournalEntry.began t ∈ (S.advance ctx).store.journal)
    (he : JournalEntry.ended t ∉ (S.advance ctx).store.journal) :
    (JournalEntry.began t :: runsOf (S.store.accepted s) ++ [JournalEntry.ended t]).Sublist
      (S.advance ctx).timeline := by
  obtain ⟨more, hc, htimeline⟩ := advance_ends hu hd
  have hbegan : JournalEntry.began t ∈ (S.advance ctx).store.runs := Store.mem_runs.mpr ⟨hb, rfl⟩
  have hended : JournalEntry.ended t ∈ more.flatMap Chore.due := by
    obtain ⟨v, hv, t', ht', hrun⟩ := h.only (.began t) (by
      rw [htimeline]
      exact List.mem_append_left _ hbegan)
    obtain rfl : t = t' := ticket_eq_of_mem_runOf (mem_runOf.mpr (Or.inl rfl)) hrun
    have hmem : JournalEntry.ended t ∈ S.timeline := (h.reversed v hv).subset
      (mem_runsOf.mpr ⟨t, ht', mem_runOf.mpr (Or.inr rfl)⟩)
    rw [htimeline] at hmem
    exact (List.mem_append.mp hmem).resolve_left fun hm => he (Store.mem_runs.mp hm).1
  unfold timeline
  rw [hc, List.flatMap_append, due_holdings]
  have hpending : (S.store.holdings s).actions.map (·.ticket) = S.store.accepted s :=
    h.pending s hu
  rw [hpending, List.cons_append]
  exact (List.singleton_sublist.mpr hbegan).append
    ((List.Sublist.refl _).append (List.singleton_sublist.mpr hended))

/-! ### Chores are done from the front -/

theorem advance_front (ctx : Context) {c : Chore} {front rest : List Chore}
    (hc : S.chores = c :: (front ++ rest)) :
    ∃ front', (S.advance ctx).chores = front' ++ rest := by
  rw [advance_cons ctx hc]
  cases c with
  | perform p =>
    refine ⟨(p.action.unfold ctx (S.store.note (.began p.ticket))).2 ++ .finish p.ticket :: front,
      ?_⟩
    rw [List.append_assoc]
    rfl
  | letGo u =>
    simp only [Chore.step]
    split
    next => exact ⟨_ ++ front, (List.append_assoc _ front rest).symm⟩
    next => exact ⟨front, rfl⟩
  | _ => exact ⟨front, rfl⟩

theorem weight_advance (ctx : Context) {c : Chore} {rest : List Chore} (hc : S.chores = c :: rest) :
    (S.advance ctx).store.weight (S.advance ctx).chores < S.store.weight S.chores := by
  rw [advance_cons ctx hc, hc]
  exact weight_step_lt ctx S.roots S.store c rest

/-- What stands before the rest of the chores gets done. -/
theorem exists_iterate_advance (ctx : Context) {front rest : List Chore}
    (hc : S.chores = front ++ rest) : ∃ n, ((·.advance ctx)^[n] S).chores = rest := by
  induction hw : S.store.weight S.chores using Nat.strongRecOn generalizing S front with
  | ind w ih =>
    cases front with
    | nil => exact ⟨0, hc⟩
    | cons c front =>
      obtain ⟨front', hfront⟩ := advance_front ctx hc
      obtain ⟨n, hn⟩ := ih _ (hw ▸ weight_advance ctx hc) hfront rfl
      exact ⟨n + 1, hn⟩

theorem Recorded.iterate (h : S.Recorded) (ctx : Context) (n : Nat) :
    S.Continues ((·.advance ctx)^[n] S) := by
  induction n generalizing S with
  | zero => exact ⟨h, .refl _⟩
  | succ n ih =>
    have hfirst := h.advance ctx
    have hnext := ih hfirst.recorded
    exact ⟨hnext.recorded, hfirst.grows.trans hnext.grows⟩

/-- By the time of what is left after the end of a scope, all its actions have run. -/
theorem Recorded.returns (h : S.Recorded) (hu : S.store.IsAlive s)
    (hd : ¬ (S.advance ctx).store.IsAlive s) :
    ∃ more n, (S.advance ctx).chores = (S.store.holdings s).chores ++ more ∧
      ((·.advance ctx)^[n] (S.advance ctx)).chores = more ∧
      ∀ t ∈ S.store.accepted s, ∀ e ∈ runOf t,
        ((·.advance ctx)^[n] (S.advance ctx)).store.journal.count e = 1 := by
  obtain ⟨more, hc, htimeline⟩ := advance_ends hu hd
  obtain ⟨n, hn⟩ := exists_iterate_advance ctx hc
  refine ⟨more, n, hc, hn, fun t ht e he => ?_⟩
  have hfirst := h.advance ctx
  have hafter := hfirst.recorded.iterate ctx n
  have hruns := mem_runsOf.mpr ⟨t, ht, he⟩
  have hmem : e ∈ (S.advance ctx).timeline := by
    unfold timeline
    rw [hc, List.flatMap_append, due_holdings]
    refine List.mem_append_right _ (List.mem_append_left _ ?_)
    have hpending : (S.store.holdings s).actions.map (·.ticket) = S.store.accepted s :=
      h.pending s hu
    rw [hpending]
    exact hruns
  have hdue : e ∉ more.flatMap Chore.due := fun hm => by
    refine h.not_mem_of_isAlive hu hruns ?_
    rw [htimeline]
    exact List.mem_append_right _ hm
  have hnoted : e ∈ ((·.advance ctx)^[n] (S.advance ctx)).store.runs := by
    have hm := hafter.grows.subset hmem
    unfold timeline at hm
    rw [hn] at hm
    exact (List.mem_append.mp hm).resolve_right hdue
  have hnodup := hafter.recorded.nodup.sublist (List.sublist_append_left _ _)
  rw [← Store.count_runs (Store.mem_runs.mp hnoted).2, hnodup.count, if_pos hnoted]

theorem Recorded.once (h : S.Recorded) {e : JournalEntry} (he : e.isRun = true) :
    S.store.journal.count e ≤ 1 := by
  have hnodup : S.store.runs.Nodup := h.nodup.sublist (List.sublist_append_left _ _)
  rw [← Store.count_runs he, hnodup.count]
  split <;> omega

/-- An action that has begun was accepted. -/
theorem Recorded.begun (h : S.Recorded) (hb : JournalEntry.began t ∈ S.store.journal) :
    ∃ s, ¬ S.store.IsAlive s ∧ t ∈ S.store.accepted s := by
  have hm : JournalEntry.began t ∈ S.timeline :=
    List.mem_append_left _ (Store.mem_runs.mpr ⟨hb, rfl⟩)
  obtain ⟨s, hd, t', ht', he⟩ := h.only _ hm
  obtain rfl : t = t' := ticket_eq_of_mem_runOf (mem_runOf.mpr (Or.inl rfl)) he
  exact ⟨s, hd, ht'⟩

theorem Recorded.not_begun (h : S.Recorded) (ha : S.store.IsAlive s)
    (ht : t ∈ S.store.accepted s) : JournalEntry.began t ∉ S.store.journal := by
  intro hb
  obtain ⟨u, hd, hu⟩ := h.begun hb
  obtain rfl : s = u := h.unique s u t ht hu
  exact hd ha

end Session

/-! ### Actions that are accepted or rejected -/

/-- With this move the action is accepted for the scope, from a call or from another action. -/
inductive Move.Accepts (S : Session) : Move → ScopeId → CloseAction → Prop
  | call {ctx name label plan s a} (hs : S.scope? name = some s)
    (ha : (plan.resolve label).run ctx S = .ok a S)
    (hr : (S.begin ctx (.scope (.addAction name label plan))).1 = .ok .done) :
    Accepts S (.call ctx (.scope (.addAction name label plan))) s a
  | chore {ctx ticket label s rest τ}
    (hc : S.chores = .perform ⟨ticket, .extend label s⟩ :: rest)
    (hr : (ScopeId.addAction s (.say (label ++ "\x27"))).run ctx
      (S.store.note (.began ticket)) = .ok ⟨⟩ τ) :
    Accepts S (.chore ctx) s (.say (label ++ "\x27"))

/-- With this move an action is rejected that a call or another action would have added. -/
inductive Move.Rejects (S : Session) : Move → Prop
  | call {ctx name label plan e}
    (hr : (S.begin ctx (.scope (.addAction name label plan))).1 = .error e) :
    Rejects S (.call ctx (.scope (.addAction name label plan)))
  | chore {ctx ticket label s rest e τ}
    (hc : S.chores = .perform ⟨ticket, .extend label s⟩ :: rest)
    (hr : (ScopeId.addAction s (.say (label ++ "\x27"))).run ctx
      (S.store.note (.began ticket)) = .error e τ) :
    Rejects S (.chore ctx)

section accepts

variable {S : Session} {ctx : Context} {m : Move} {s : ScopeId} {a : CloseAction}

theorem ActionPlan.run_resolve_cases (plan : ActionPlan) (label : String) (ctx : Context)
    (S : Session) :
    (∃ a, (plan.resolve label).run ctx S = .ok a S) ∨
      ∃ e, (plan.resolve label).run ctx S = .error e S := by
  have hfind : ∀ {α : Type} (lookup : Session → Name → Option α) (name : Name)
      (f : α → CloseAction),
      (∃ a, (do return f (← Turn.find lookup name) : Turn CloseAction).run ctx S = .ok a S) ∨
        ∃ e, (do return f (← Turn.find lookup name) : Turn CloseAction).run ctx S =
          .error e S := by
    intro α lookup name f
    cases hl : lookup S name with
    | none =>
      refine Or.inr ⟨.noHandle, ?_⟩
      simp only [Turn.find, Turn.run_bind, Turn.run_get, hl]
      rfl
    | some x => exact Or.inl ⟨f x, by simp [Turn.find, hl]⟩
  cases plan with
  | say => exact Or.inl ⟨_, rfl⟩
  | fill target => exact hfind Session.region? target fun p => .fill label p.1
  | hold target => exact hfind Session.holdable? target (.hold label)
  | _ target => exact hfind Session.scope? target _

theorem ScopeCall.leads_addAction (name : Name) (label : String) (plan : ActionPlan) :
    (ScopeCall.addAction name label plan).perform.Leads ctx S
      (fun reply T => reply = .done ∧ ∃ s a, S.scope? name = some s ∧
        (plan.resolve label).run ctx S = .ok a S ∧ S.store.IsAlive s ∧
        T = { S with store := S.store.addAction s a })
      (· = S) := by
  refine Turn.leads_bind_find rfl fun s hs => ?_
  have hplan : (plan.resolve label).Leads ctx S
      (fun a T => T = S ∧ (plan.resolve label).run ctx S = .ok a S) (· = S) := by
    unfold Turn.Leads
    rcases plan.run_resolve_cases label ctx S with ⟨a, hr⟩ | ⟨e, hr⟩
    · simp [hr]
    · simp [hr]
  refine hplan.bind fun a T hT => ?_
  obtain ⟨rfl, ha⟩ := hT
  refine (Turn.leads_lift (ScopeId.leads_addAction s a)).chain (fun U hU => ?_) fun _ U hU => ?_
  · obtain ⟨_, rfl, rfl⟩ := hU
    rfl
  · obtain ⟨_, ⟨hu, rfl⟩, rfl⟩ := hU
    exact Turn.leads_pure ⟨rfl, s, a, hs, ha, Store.isAlive_of_checkUsable hu, rfl⟩

theorem Store.accepted_note {e : JournalEntry} (he : ∀ s, JournalEntry.ticketFor? s e = none)
    (σ : Store) (s : ScopeId) : (σ.note e).accepted s = σ.accepted s :=
  List.filterMap_cons_none (he s)

/-- What is accepted is the newest of the actions of its scope. -/
theorem Move.Accepts.accepted (h : m.Accepts S s a) :
    (S.move m).store.accepted s = S.store.tickets :: S.store.accepted s ∧
      ((S.move m).store.scope s).actions =
        ⟨S.store.tickets, a⟩ :: (S.store.scope s).actions := by
  cases h with
  | @call ctx name label plan s a hs ha hr =>
    show (S.begin ctx (.scope (.addAction name label plan))).2.store.accepted s = _ ∧
      ((S.begin ctx (.scope (.addAction name label plan))).2.store.scope s).actions = _
    rcases Session.begin_leads (c := .scope (.addAction name label plan))
      (ScopeCall.leads_addAction name label plan) with ⟨_, T, he, _, u, b, hu, hb, halive, hT⟩ |
      ⟨e, T, he, _⟩
    · cases hs.symm.trans hu
      cases ha.symm.trans hb
      have hstore : (T.release S.store.scopes.length).store = S.store.addAction s a := by
        rw [hT]
        rfl
      rw [he]
      rw [hstore, Store.accepted_addAction, Store.actions_addAction halive]
      simp
    · rw [he] at hr
      cases hr
  | @chore ctx ticket label s rest τ hc hr =>
    obtain ⟨hu, rfl⟩ := (ScopeId.leads_addAction s _).ok hr
    have halive : (S.store.note (.began ticket)).IsAlive s := Store.isAlive_of_checkUsable hu
    have hstore : (S.move (.chore ctx)).store =
        (S.store.note (.began ticket)).addAction s (.say (label ++ "\x27")) := by
      show (S.advance ctx).store = _
      rw [Session.advance_cons ctx hc]
      simp only [Chore.step, CloseAction.unfold, hr]
    rw [hstore, Store.accepted_addAction, Store.actions_addAction halive,
      Store.accepted_note (e := .began ticket) fun _ => rfl]
    simp only [if_true]
    exact ⟨rfl, rfl⟩

/-- What is rejected is not among the actions of any scope. -/
theorem Move.Rejects.accepted (h : m.Rejects S) (u : ScopeId) :
    (S.move m).store.accepted u = S.store.accepted u ∧
      ((S.move m).store.scope u).actions = (S.store.scope u).actions := by
  cases h with
  | @call ctx name label plan e hr =>
    show (S.begin ctx (.scope (.addAction name label plan))).2.store.accepted u = _ ∧
      ((S.begin ctx (.scope (.addAction name label plan))).2.store.scope u).actions = _
    rcases Session.begin_leads (c := .scope (.addAction name label plan))
      (ScopeCall.leads_addAction name label plan) with ⟨_, T, he, _⟩ | ⟨e, T, he, rfl⟩
    · rw [he] at hr
      cases hr
    · rw [he]
      exact ⟨rfl, rfl⟩
  | @chore ctx ticket label s rest e τ hc hr =>
    obtain rfl := (ScopeId.leads_addAction s _).error hr
    have hstore : (S.move (.chore ctx)).store = S.store.note (.began ticket) := by
      show (S.advance ctx).store = _
      rw [Session.advance_cons ctx hc]
      simp only [Chore.step, CloseAction.unfold, hr]
    rw [hstore]
    exact ⟨Store.accepted_note (fun _ => rfl) _ u, rfl⟩

end accepts

/-! ### Actions that a scope holds -/

namespace Session

variable {governs : Prop} {S T : Session} {s : ScopeId}

/-- Only the end of a scope takes actions away from it. -/
theorem Edit.actions (he : S.Edit governs T) (ha : T.store.IsAlive s) :
    (S.store.scope s).actions <:+ (T.store.scope s).actions := by
  cases he with
  | store hk => exact hk.actions s ▸ List.suffix_refl _
  | lost name => exact S.store_lost name ▸ List.suffix_refl _
  | @acquired u _ _ hu => exact (Store.resembles_pin hu).actions s ▸ List.suffix_refl _
  | @closed u before after _ _ hl _ =>
    have hu : S.store.IsAlive u := by
      rw [Store.IsAlive, Scope.isAlive, hl]
    have hne := ((Store.isAlive_endScope hu (by simp)).mp ha).1
    have hscope := Store.scope_endScope_of_isAlive hu .closed s
    rw [if_neg hne] at hscope
    exact congrArg Scope.actions hscope ▸ List.suffix_refl _
  | @accepted u a hu _ =>
    have hactions := Store.actions_addAction hu a s
    by_cases hs : s = u
    · subst hs
      rw [if_pos rfl] at hactions
      exact hactions.symm ▸ List.suffix_cons _ _
    · rw [if_neg hs] at hactions
      exact hactions.symm ▸ List.suffix_refl _
  | _ => exact List.suffix_refl _

theorem Edits.actions (he : S.Edits governs T) (hs : s < S.store.scopes.length)
    (ha : T.store.IsAlive s) : (S.store.scope s).actions <:+ (T.store.scope s).actions := by
  induction he with
  | refl => exact List.suffix_refl _
  | @tail U V hU he ih =>
    have hopen : U.store.IsAlive s := by
      by_contra hd
      have hknown := Nat.lt_of_lt_of_le hs (Edits.length_scopes hU)
      exact ((ended_of_not_isAlive hknown hd).edit he).not_isAlive ha
    exact (ih hopen).trans (he.actions ha)

theorem Work.actions (hw : S.Work T) (ha : T.store.IsAlive s) :
    (S.store.scope s).actions <:+ (T.store.scope s).actions := by
  cases hw with
  | @reclaimed u rest _ hu _ =>
    have hne := ((Store.isAlive_endScope hu (by simp)).mp ha).1
    have hscope := Store.scope_endScope_of_isAlive hu .reclaimed s
    rw [if_neg hne] at hscope
    exact congrArg Scope.actions hscope ▸ List.suffix_refl _
  | @unguarded u _ _ => exact (S.store.resembles_unpin u).actions s ▸ List.suffix_refl _
  | _ => exact List.suffix_refl _

theorem Work.length_scopes (hw : S.Work T) : T.store.scopes.length = S.store.scopes.length := by
  cases hw with
  | reclaimed => simp
  | unguarded => exact (S.store.resembles_unpin _).length
  | _ => rfl

theorem actions_advance (ctx : Context) (hs : s < S.store.scopes.length)
    (ha : (S.advance ctx).store.IsAlive s) :
    (S.store.scope s).actions <:+ ((S.advance ctx).store.scope s).actions := by
  cases hc : S.chores with
  | nil =>
    have hsame := advance_nil ctx hc
    exact hsame.symm ▸ List.suffix_refl _
  | cons c rest =>
    obtain ⟨T, hw, he⟩ := advance_cases ctx hc
    have hknown : s < T.store.scopes.length := by
      rw [hw.length_scopes]
      exact hs
    have hopen : T.store.IsAlive s := by
      by_contra hd
      exact ((ended_of_not_isAlive hknown hd).edits he).not_isAlive ha
    exact (hw.actions hopen).trans (he.actions hknown ha)

/-- A scope that is alive after a move has kept its actions. -/
theorem actions_move (hS : S.Rooted) (m : Move) (hs : s < S.store.scopes.length)
    (ha : (S.move m).store.IsAlive s) :
    (S.store.scope s).actions <:+ ((S.move m).store.scope s).actions := by
  cases m with
  | call ctx c =>
    obtain ⟨T, he, hT⟩ := begin_cases hS ctx c
    have hmove : (S.move (.call ctx c)).store = T.store := by
      show (S.begin ctx c).2.store = T.store
      rw [hT]
      rfl
    rw [hmove] at ha ⊢
    exact he.actions hs ha
  | chore ctx => exact actions_advance ctx hs ha

end Session

/-! ### Actions along a run -/

section play

variable {past : List Move} {s : ScopeId} {t : Nat} {ctx : Context}

theorem play_timeline (past later : List Move) :
    (play past).timeline.Sublist (play (later ++ past)).timeline := by
  induction later with
  | nil => exact .refl _
  | cons m later ih =>
    have hrecorded := play_recorded (later ++ past)
    have hlast : (play (later ++ past)).timeline.Sublist
        (play (m :: (later ++ past))).timeline := by
      cases m with
      | call ctx c => exact (hrecorded.begin (play_tidied (later ++ past)).rooted ctx c).grows
      | chore ctx => exact (hrecorded.advance ctx).grows
    exact ih.trans hlast

/-- An open scope keeps the actions that it had. -/
theorem play_holds (later : List Move) (hs : Move.Open (later ++ past) s) :
    ((play past).store.scope s).actions <:+ ((play (later ++ past)).store.scope s).actions := by
  induction later with
  | nil => exact List.suffix_refl _
  | cons m later ih =>
    have ha : (play (m :: (later ++ past))).store.IsAlive s := Move.open_iff.mp hs
    by_cases hknown : s < (play (later ++ past)).store.scopes.length
    · have hopen : (play (later ++ past)).store.IsAlive s := by
        by_contra hd
        have hended := play_ended (Session.ended_of_not_isAlive hknown hd) [m]
        exact hended.not_isAlive ha
      have hlast := Session.actions_move (play_tidied (later ++ past)).rooted m hknown ha
      exact (ih (Move.open_iff.mpr hopen)).trans hlast
    · -- The scope is new with this move and had no actions before.
      have hlen := length_scopes_play past later
      have hnew : (play past).store.scopes.length ≤ s :=
        Nat.le_trans hlen (Nat.le_of_not_lt hknown)
      rw [Store.scope_of_length_le hnew]
      exact List.nil_suffix

/-- Once nothing is left to be done, the actions of a scope that came to its end have run. -/
theorem play_ran (later : List Move) (hs : ¬ Move.Open past s)
    (hc : (play (later ++ past)).chores = []) (ht : t ∈ (play past).store.accepted s) :
    (play (later ++ past)).store.journal.count (.began t) = 1 ∧
      (play (later ++ past)).store.journal.count (.ended t) = 1 := by
  have hd := mt Move.open_iff.mpr hs
  have hruns : (play (later ++ past)).timeline = (play (later ++ past)).store.runs := by
    unfold Session.timeline
    simp [hc]
  have hcount : ∀ e ∈ runOf t, e.isRun = true →
      (play (later ++ past)).store.journal.count e = 1 := by
    intro e he hrun
    have hdue : e ∈ (play past).timeline :=
      ((play_recorded past).reversed s hd).subset (mem_runsOf.mpr ⟨t, ht, he⟩)
    have hm := (play_timeline past later).subset hdue
    have hnodup := (play_recorded (later ++ past)).nodup
    rw [← Store.count_runs hrun, ← hruns, hnodup.count, if_pos hm]
  exact ⟨hcount _ (mem_runOf.mpr (Or.inl rfl)) rfl, hcount _ (mem_runOf.mpr (Or.inr rfl)) rfl⟩

theorem Session.outcome_step (system : SystemAllocator) (S : Session) (t : Thread) (c : Call) :
    (S.step system t c).1.outcome = (S.begin ⟨t, system⟩ c).1 := by
  unfold step begin
  dsimp only
  cases c.perform.run ⟨t, system⟩ S with
  | ok reply T => rfl
  | error e T => rfl

theorem Session.chores_step (system : SystemAllocator) (S : Session) (t : Thread) (c : Call) :
    (S.step system t c).2.chores = [] := by
  unfold step
  dsimp only
  cases c.perform.run ⟨t, system⟩ S with
  | ok reply T => rfl
  | error e T => rfl

/-- A call that is made with all that it leaves to be done. -/
theorem play_step (past : List Move) (system : SystemAllocator) (t : Thread) (c : Call) :
    ∃ n, play (List.replicate n (.chore ⟨t, system⟩) ++ .call ⟨t, system⟩ c :: past) =
        ((play past).step system t c).2 ∧
      (play (List.replicate n (.chore ⟨t, system⟩) ++ .call ⟨t, system⟩ c :: past)).chores =
        [] := by
  obtain ⟨n, hn⟩ := Session.step_isPlayed system (rfl : play past = play past) t c
  refine ⟨n, hn, ?_⟩
  rw [hn]
  exact (play past).chores_step system t c

/-- A call that closes a scope accepts nothing. -/
theorem Move.Closes.accepted_call {S : Session} {c : Call} (h : (Move.call ctx c).Closes S s)
    (u : ScopeId) : (S.begin ctx c).2.store.accepted u = S.store.accepted u := by
  cases h with
  | @call _ name _ hs hr =>
    rcases Session.begin_leads (c := .scope (.close name)) (ScopeCall.leads_close name) with
      ⟨_, T, he, _, _, _, _, rfl⟩ | ⟨e, T, he, _⟩
    · rw [he]
      rfl
    · rw [he] at hr
      cases hr

/-- What closes a scope leaves its actions to be done, and its blocks after them. -/
theorem Move.Closes.leaves {S : Session} {m : Move} (h : m.Closes S s) :
    ∃ before after, (S.move m).chores = before ++ (S.store.holdings s).chores ++ after := by
  cases h with
  | @call ctx name s hs hr =>
    have hclose : (Call.scope (.close name)).perform.Leads ctx S _ _ :=
      ScopeCall.leads_close name
    rcases Session.begin_leads hclose with ⟨_, T, he, _, u, hu, _, rfl⟩ | ⟨e, T, he, _⟩
    · cases hs.symm.trans hu
      have hlen : (S.store.endScope s .closed).scopes.length = S.store.scopes.length := by simp
      rw [Session.release_of_length hlen] at he
      refine ⟨S.chores, [], ?_⟩
      show (S.begin ctx (.scope (.close name))).2.chores = _
      rw [he, List.append_nil]
    · rw [he] at hr
      cases hr
  | @chore ctx ticket label s rest held τ hc hr =>
    obtain ⟨_, _, _, rfl, rfl⟩ := (ScopeId.leads_close s).ok hr
    refine ⟨[], [.write s!"{label} close=ok", .letGo s] ++ .finish ticket :: rest, ?_⟩
    show (S.advance ctx).chores = _
    rw [Session.advance_cons ctx hc]
    simp only [Chore.step, CloseAction.unfold, hr]
    rw [List.nil_append, ← List.append_assoc]
    rfl

/-- When the call that closed a scope comes back, each of its actions has run, and none before. -/
theorem play_close {system : SystemAllocator} {caller : Thread} {name : Name}
    (hs : (play past).scope? name = some s)
    (hr : ((play past).step system caller (.scope (.close name))).1.outcome = .ok .done)
    (ht : t ∈ (play past).store.accepted s) :
    JournalEntry.began t ∉ (play past).store.journal ∧
      ((play past).step system caller (.scope (.close name))).2.store.journal.count
        (.began t) = 1 ∧
      ((play past).step system caller (.scope (.close name))).2.store.journal.count
        (.ended t) = 1 := by
  rw [Session.outcome_step] at hr
  have hcloses : (Move.call ⟨caller, system⟩ (.scope (.close name))).Closes (play past) s :=
    .call hs hr
  have hbefore := (play_recorded past).not_begun hcloses.isAlive ht
  obtain ⟨n, hn, hc⟩ := play_step past system caller (.scope (.close name))
  have haccepted := hcloses.accepted_call s
  have hran := play_ran (List.replicate n (.chore ⟨caller, system⟩)) hcloses.ends.2 hc
    (haccepted.symm ▸ ht)
  rw [hn] at hran
  exact ⟨hbefore, hran⟩

/-- The actions of a scope that an action closes run inside of that action. -/
theorem play_inside {ticket : Nat} {label : String} {rest : List Chore}
    (hc : (play past).chores = .perform ⟨ticket, .close label s⟩ :: rest)
    (hcloses : (Move.chore ctx).Closes (play past) s) :
    (JournalEntry.began ticket :: runsOf ((play past).store.accepted s) ++
      [JournalEntry.ended ticket]).Sublist (play (.chore ctx :: past)).timeline := by
  have hrecorded := play_recorded past
  have hdead : ¬ ((play past).advance ctx).store.IsAlive s := hcloses.ended.not_isAlive
  obtain ⟨held, τ, hr⟩ : ∃ held τ, (ScopeId.close s).run ctx
      ((play past).store.note (.began ticket)) = .ok held τ := by
    cases hcloses with
    | chore hc' hr =>
      cases hc.symm.trans hc'
      exact ⟨_, _, hr⟩
  obtain ⟨_, _, _, _, rfl⟩ := (ScopeId.leads_close s).ok hr
  have hjournal : ((play past).advance ctx).store.journal =
      .began ticket :: (play past).store.journal := by
    rw [Session.advance_cons ctx hc]
    simp only [Chore.step, CloseAction.unfold, hr]
    rfl
  refine hrecorded.nests hcloses.isAlive hdead ?_ ?_
  · rw [hjournal]
    exact List.mem_cons_self
  · -- The end of the action is still due before it begins, and is noted once.
    rw [hjournal]
    intro hm
    have hnoted : JournalEntry.ended ticket ∈ (play past).store.journal := by
      simpa using hm
    have hleft := Store.mem_runs.mpr ⟨hnoted, rfl⟩
    have hright : JournalEntry.ended ticket ∈ (play past).chores.flatMap Chore.due := by
      rw [hc]
      simp [Chore.due, runOf]
    exact (List.nodup_append.mp hrecorded.nodup).2.2 _ hleft _ hright rfl

end play

/-- How the actions that are accepted for scopes come to run, by the moves that close scopes. -/
structure ActionsRun (past : List Move) : Prop where
  /-- An action that is accepted gets the next ticket, under which none was accepted before, and
  becomes the newest of its scope. -/
  accepts : ∀ m s a, m.Accepts (play past) s a →
    (play (m :: past)).store.accepted s =
        (play past).store.tickets :: (play past).store.accepted s ∧
      ((play (m :: past)).store.scope s).actions =
        ⟨(play past).store.tickets, a⟩ :: ((play past).store.scope s).actions ∧
      ∀ u, (play past).store.tickets ∉ (play past).store.accepted u
  /-- An action that is rejected gets none. -/
  rejects : ∀ m, m.Rejects (play past) → ∀ u,
    (play (m :: past)).store.accepted u = (play past).store.accepted u ∧
      ((play (m :: past)).store.scope u).actions = ((play past).store.scope u).actions
  newest : ∀ s, ((play past).store.accepted s).Pairwise (· > ·)
  stays : ∀ later s, (play past).store.accepted s <:+ (play (later ++ past)).store.accepted s
  once : ∀ t, (play past).store.journal.count (.began t) ≤ 1 ∧
    (play past).store.journal.count (.ended t) ≤ 1
  known : ∀ t, JournalEntry.began t ∈ (play past).store.journal →
    ∃ s, t ∈ (play past).store.accepted s
  /-- An open scope holds its actions, of which none runs. -/
  waits : ∀ s, Move.Open past s →
    ((play past).store.scope s).actions.map (·.ticket) = (play past).store.accepted s ∧
      ∀ t ∈ (play past).store.accepted s, JournalEntry.began t ∉ (play past).store.journal
  /-- It keeps them under their tickets. -/
  holds : ∀ later s, Move.Open (later ++ past) s →
    ((play past).store.scope s).actions <:+ ((play (later ++ past)).store.scope s).actions
  /-- A move that closes a scope ends it, and leaves its actions to be done. -/
  ends : ∀ m s, m.Closes (play past) s → Move.Open past s ∧ ¬ Move.Open (m :: past) s ∧
    ∃ before after, (play (m :: past)).chores =
      before ++ ((play past).store.holdings s).chores ++ after
  /-- When nothing is left to be done, the actions of the scopes that have ended have run. -/
  done : ∀ later, (play (later ++ past)).chores = [] → ∀ s, ¬ Move.Open past s →
    ∀ t ∈ (play past).store.accepted s,
      (play (later ++ past)).store.journal.count (.began t) = 1 ∧
        (play (later ++ past)).store.journal.count (.ended t) = 1
  /-- When the call that closed a scope comes back, its actions have run. -/
  closes : ∀ system caller name s, (play past).scope? name = some s →
    ((play past).step system caller (.scope (.close name))).1.outcome = .ok .done →
      ∀ t ∈ (play past).store.accepted s,
        JournalEntry.began t ∉ (play past).store.journal ∧
        ((play past).step system caller (.scope (.close name))).2.store.journal.count
          (.began t) = 1 ∧
        ((play past).step system caller (.scope (.close name))).2.store.journal.count
          (.ended t) = 1
  /-- When any call comes back, so have those of the scopes that nothing refers to any more. -/
  drops : ∀ system caller c s, ¬ ((play past).step system caller c).2.Refers s →
    ∀ t ∈ ((play past).step system caller c).2.store.accepted s,
      ((play past).step system caller c).2.store.journal.count (.began t) = 1 ∧
        ((play past).step system caller c).2.store.journal.count (.ended t) = 1
  /-- The actions of a scope that has ended run one after another, the newest first. -/
  reversed : ∀ s, ¬ Move.Open past s →
    (runsOf ((play past).store.accepted s)).Sublist (play past).timeline
  grows : ∀ later, (play past).timeline.Sublist (play (later ++ past)).timeline
  /-- The actions of a scope that an action closes run inside of that action. -/
  inside : ∀ ctx ticket label s rest,
    (play past).chores = .perform ⟨ticket, .close label s⟩ :: rest →
    (Move.chore ctx).Closes (play past) s →
      (JournalEntry.began ticket :: runsOf ((play past).store.accepted s) ++
        [JournalEntry.ended ticket]).Sublist (play (.chore ctx :: past)).timeline
  /-- So do those of a scope that ends in any other way while an action runs. -/
  nests : ∀ ctx s, Move.Open past s → ¬ Move.Open (.chore ctx :: past) s → ∀ t,
    JournalEntry.began t ∈ (play (.chore ctx :: past)).store.journal →
    JournalEntry.ended t ∉ (play (.chore ctx :: past)).store.journal →
      (JournalEntry.began t :: runsOf ((play past).store.accepted s) ++
        [JournalEntry.ended t]).Sublist (play (.chore ctx :: past)).timeline
  /-- They have run before anything is done of what there was to do after the end of the scope. -/
  returns : ∀ ctx s, Move.Open past s → ¬ Move.Open (.chore ctx :: past) s →
    ∃ more n, (play (.chore ctx :: past)).chores =
        ((play past).store.holdings s).chores ++ more ∧
      ((·.advance ctx)^[n] (play (.chore ctx :: past))).chores = more ∧
      ∀ t ∈ (play past).store.accepted s, ∀ e ∈ runOf t,
        ((·.advance ctx)^[n] (play (.chore ctx :: past))).store.journal.count e = 1
  /-- What an action refers to that has not run counts as referred to, and stays alive until a move
  closes it. -/
  kept : ∀ u, ((∃ s, ∃ p ∈ ((play past).store.scope s).actions, p.action.target? = some u) ∨
    ∃ p, Chore.perform p ∈ (play past).chores ∧ p.action.target? = some u) →
      (play past).Refers u ∧ (¬ Move.Closed [] past u → (play past).store.IsAlive u)
  /-- A call that is made with all that it leaves to be done leads to another session. -/
  answers : ∀ system caller c, ∃ n,
    play (List.replicate n (.chore ⟨caller, system⟩) ++ .call ⟨caller, system⟩ c :: past) =
        ((play past).step system caller c).2 ∧
      (play (List.replicate n (.chore ⟨caller, system⟩) ++
        .call ⟨caller, system⟩ c :: past)).chores = []

/-- In every session that a run leads to, actions run as they should: in order, once, and when
their scope has been closed or nothing refers to it, but not before. -/
theorem play_acts (past : List Move) : ActionsRun past where
  accepts m s a h := by
    have hfresh : ∀ u, (play past).store.tickets ∉ (play past).store.accepted u := fun u hu =>
      Nat.lt_irrefl _ ((play_recorded past).known u _ hu).2
    exact ⟨h.accepted.1, h.accepted.2, hfresh⟩
  rejects m h u := h.accepted u
  newest := (play_recorded past).newest
  stays := play_accepted past
  once t := ⟨(play_recorded past).once rfl, (play_recorded past).once rfl⟩
  known t ht := by
    obtain ⟨s, _, hs⟩ := (play_recorded past).begun ht
    exact ⟨s, hs⟩
  waits s hs := by
    have ha := Move.open_iff.mp hs
    exact ⟨(play_recorded past).pending s ha, fun t ht => (play_recorded past).not_begun ha ht⟩
  holds later s hs := play_holds later hs
  ends m s h := ⟨h.ends.1, h.ends.2, h.leaves⟩
  done later hc s hs t ht := play_ran later hs hc ht
  closes system caller name s hs hr t ht := play_close hs hr ht
  drops system caller c s hs t ht := by
    obtain ⟨n, hn, hc⟩ := play_step past system caller c
    rw [← hn] at hs ht ⊢
    exact play_ran [] (fun ho => hs ho.1) hc ht
  reversed s hs := (play_recorded past).reversed s (mt Move.open_iff.mpr hs)
  grows := play_timeline past
  inside ctx ticket label s rest hc h := play_inside hc h
  nests ctx s ho hd t hb he := by
    have hdead : ¬ (play (.chore ctx :: past)).store.IsAlive s := mt Move.open_iff.mpr hd
    exact (play_recorded past).nests (Move.open_iff.mp ho) hdead hb he
  returns ctx s ho hd := by
    have hdead : ¬ (play (.chore ctx :: past)).store.IsAlive s := mt Move.open_iff.mpr hd
    exact (play_recorded past).returns (Move.open_iff.mp ho) hdead
  kept u hu := by
    have hr : (play past).Refers u := by
      rcases hu with hu | ⟨p, hp, hu⟩
      · exact Session.refers_iff.mpr (Or.inr (Or.inl hu))
      · have hm : u ∈ (play past).chores.filterMap Chore.target? :=
          List.mem_filterMap.mpr ⟨_, hp, hu⟩
        exact Session.refers_iff.mpr (Or.inl (Or.inr hm))
    exact ⟨hr, fun hc => Move.open_iff.mp ⟨hr, hc⟩⟩
  answers := play_step past

/-- The one action of a scope closes another scope, which has two. -/
example : (Session.initial.run TwinHeaps.system
    [(0, .scope (.create .shared "outer")), (0, .scope (.create .shared "inner")),
      (0, .scope (.addAction "inner" "x" .say)), (0, .scope (.addAction "inner" "y" .say)),
      (0, .scope (.addAction "outer" "z" (.close "inner"))),
      (0, .scope (.close "outer"))]).2.store.runs =
    .began 2 :: runsOf [1, 0] ++ [.ended 2] := by decide

end ScopedMemory
