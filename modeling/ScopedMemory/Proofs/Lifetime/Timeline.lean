import ScopedMemory.Proofs.Lifetime.Tidy

namespace ScopedMemory

/-- The entry tells that an action begins to run or ends. -/
def JournalEntry.isRun : JournalEntry → Bool
  | began _ | ended _ => true
  | _ => false

/-- The ticket of an action that was accepted for the scope. -/
def JournalEntry.ticketFor? (s : ScopeId) : JournalEntry → Option Nat
  | accepted t ticket => if t = s then some ticket else none
  | _ => none

/-- One action runs from its beginning to its end. -/
def runOf (ticket : Nat) : List JournalEntry := [.began ticket, .ended ticket]

/-- The actions run one after another. -/
def runsOf (tickets : List Nat) : List JournalEntry := tickets.flatMap runOf

/-- What a chore is still going to note of runs. -/
def Chore.due : Chore → List JournalEntry
  | perform p => runOf p.ticket
  | finish ticket => [.ended ticket]
  | _ => []

namespace Store

/-- The tickets of the actions accepted for the scope, newest first. -/
def accepted (σ : Store) (s : ScopeId) : List Nat := σ.journal.filterMap (JournalEntry.ticketFor? s)

/-- What was noted of runs, oldest first. -/
def runs (σ : Store) : List JournalEntry := σ.journal.reverse.filter JournalEntry.isRun

end Store

/-- What was noted of runs, and what is going to be noted if nothing else ends any scope. -/
def Session.timeline (S : Session) : List JournalEntry :=
  S.store.runs ++ S.chores.flatMap Chore.due

/-! ### Runs -/

section runs

variable {t : Nat} {ts : List Nat} {e : JournalEntry}

theorem mem_runOf : e ∈ runOf t ↔ e = .began t ∨ e = .ended t := by
  unfold runOf
  rw [List.mem_cons, List.mem_singleton]

theorem mem_runsOf : e ∈ runsOf ts ↔ ∃ t ∈ ts, e ∈ runOf t := List.mem_flatMap

/-- No entry belongs to the runs of two actions. -/
theorem ticket_eq_of_mem_runOf {u : Nat} (ht : e ∈ runOf t) (hu : e ∈ runOf u) : t = u := by
  rcases mem_runOf.mp ht with rfl | rfl <;> rcases mem_runOf.mp hu with h | h <;> cases h <;> rfl

theorem nodup_runsOf (h : ts.Nodup) : (runsOf ts).Nodup := by
  induction ts with
  | nil => exact List.nodup_nil
  | cons t ts ih =>
    obtain ⟨ht, hts⟩ := List.nodup_cons.mp h
    have hone : (runOf t).Nodup := by simp [runOf]
    refine List.nodup_append.mpr ⟨hone, ih hts, fun e he e' he' heq => ?_⟩
    subst heq
    obtain ⟨u, hu, he'⟩ := mem_runsOf.mp he'
    exact ht (ticket_eq_of_mem_runOf he he' ▸ hu)

end runs

section dues

variable {σ : Store}

theorem due_letGo (ss : List ScopeId) : (ss.map .letGo).flatMap Chore.due = [] := by
  rw [List.flatMap_map]
  exact List.flatMap_eq_nil_iff.mpr fun _ _ => rfl

theorem due_dropChores (h : Handle) (σ : Store) : (h.dropChores σ).flatMap Chore.due = [] := by
  cases h with
  | guard s => rfl
  | _ => exact due_letGo _

theorem CloseAction.Leaves.due {a : CloseAction} {more : List Chore} (h : a.Leaves more) :
    more.flatMap Chore.due = [] := by
  refine List.flatMap_eq_nil_iff.mpr fun c hc => ?_
  rcases h.only c hc with ⟨text, rfl⟩ | ⟨u, _, rfl⟩
  · rfl
  · rfl

theorem due_holdings (held : Holdings) :
    held.chores.flatMap Chore.due = runsOf (held.actions.map (·.ticket)) := by
  unfold Holdings.chores runsOf
  rw [List.flatMap_append, List.flatMap_map, List.flatMap_map]
  exact List.append_nil _

theorem Store.runs_note (σ : Store) (e : JournalEntry) :
    (σ.note e).runs = σ.runs ++ if e.isRun then [e] else [] := by
  unfold Store.runs Store.note
  rw [List.reverse_cons, List.filter_append]
  cases h : e.isRun <;> simp [h]

theorem Store.accepted_addAction (σ : Store) (s : ScopeId) (a : CloseAction) (u : ScopeId) :
    (σ.addAction s a).accepted u =
      if s = u then σ.tickets :: σ.accepted u else σ.accepted u := by
  have hj : (σ.addAction s a).journal = .accepted s σ.tickets :: σ.journal := rfl
  unfold Store.accepted
  rw [hj, List.filterMap_cons]
  unfold JournalEntry.ticketFor?
  by_cases hs : s = u
  · simp only [if_pos hs]
  · simp only [if_neg hs]

end dues

namespace Session

variable {governs : Prop} {S T : Session} {s : ScopeId}

/-- The actions that were accepted and those that ran or are going to agree. -/
structure Recorded (S : Session) : Prop where
  known : ∀ s, ∀ t ∈ S.store.accepted s, s < S.store.scopes.length ∧ t < S.store.tickets
  unique : ∀ s u t, t ∈ S.store.accepted s → t ∈ S.store.accepted u → s = u
  newest : ∀ s, (S.store.accepted s).Pairwise (· > ·)
  /-- A scope that is alive holds all actions that were accepted for it. -/
  pending : ∀ s, S.store.IsAlive s →
    (S.store.scope s).actions.map (·.ticket) = S.store.accepted s
  only : ∀ e ∈ S.timeline, ∃ s, ¬ S.store.IsAlive s ∧ ∃ t ∈ S.store.accepted s, e ∈ runOf t
  nodup : S.timeline.Nodup
  reversed : ∀ s, ¬ S.store.IsAlive s → (runsOf (S.store.accepted s)).Sublist S.timeline

theorem Recorded.accepted_nodup (h : S.Recorded) (s : ScopeId) : (S.store.accepted s).Nodup :=
  (h.newest s).imp Nat.ne_of_gt

theorem Recorded.accepted_of_length_le (h : S.Recorded) (hs : S.store.scopes.length ≤ s) :
    S.store.accepted s = [] := by
  refine List.eq_nil_iff_forall_not_mem.mpr fun t ht => ?_
  exact absurd (h.known s t ht).1 (Nat.not_lt.mpr hs)

/-- The timeline says nothing of the actions of a scope that is alive. -/
theorem Recorded.not_mem_of_isAlive (h : S.Recorded) (ha : S.store.IsAlive s) {e : JournalEntry}
    (he : e ∈ runsOf (S.store.accepted s)) : e ∉ S.timeline := by
  intro hm
  obtain ⟨t, ht, het⟩ := mem_runsOf.mp he
  obtain ⟨u, hu, t', ht', het'⟩ := h.only e hm
  obtain rfl := ticket_eq_of_mem_runOf het het'
  exact hu (h.unique s u t ht ht' ▸ ha)

/-- Nothing is accepted and no scope ends. -/
theorem Recorded.same (h : S.Recorded) (htimeline : T.timeline = S.timeline)
    (haccepted : ∀ s, T.store.accepted s = S.store.accepted s)
    (htickets : T.store.tickets = S.store.tickets)
    (hlength : S.store.scopes.length ≤ T.store.scopes.length)
    (halive : ∀ s < S.store.scopes.length, (T.store.IsAlive s ↔ S.store.IsAlive s))
    (hactions : ∀ s, (T.store.scope s).actions = (S.store.scope s).actions) : T.Recorded where
  known s t ht := by
    rw [haccepted] at ht
    rw [htickets]
    exact ⟨Nat.lt_of_lt_of_le (h.known s t ht).1 hlength, (h.known s t ht).2⟩
  unique s u t hs hu := by
    rw [haccepted] at hs hu
    exact h.unique s u t hs hu
  newest s := by
    rw [haccepted]
    exact h.newest s
  pending s ha := by
    rw [haccepted, hactions]
    by_cases hs : s < S.store.scopes.length
    · exact h.pending s ((halive s hs).mp ha)
    · have hle := Nat.le_of_not_lt hs
      rw [h.accepted_of_length_le hle, Store.scope_of_length_le hle]
      rfl
  only e he := by
    rw [htimeline] at he
    obtain ⟨s, hs, t, ht, het⟩ := h.only e he
    refine ⟨s, fun ha => hs ?_, t, (haccepted s).symm ▸ ht, het⟩
    exact (halive s (h.known s t ht).1).mp ha
  nodup := by
    rw [htimeline]
    exact h.nodup
  reversed s hs := by
    rw [htimeline, haccepted]
    by_cases hl : s < S.store.scopes.length
    · exact h.reversed s fun ha => hs ((halive s hl).mpr ha)
    · rw [h.accepted_of_length_le (Nat.le_of_not_lt hl)]
      exact List.nil_sublist _

/-- A scope ends, and its actions take their place on the timeline. -/
theorem Recorded.ends (h : S.Recorded) {l : Lifetime} (hl : ∀ k, l ≠ .live k)
    (ha : S.store.IsAlive s) (hT : T.store = S.store.endScope s l)
    {before after : List JournalEntry}
    (hS : S.timeline = before ++ after)
    (htimeline : T.timeline = before ++ runsOf (S.store.accepted s) ++ after) : T.Recorded := by
  have haccepted : ∀ u, T.store.accepted u = S.store.accepted u := fun u => by
    rw [hT]
    rfl
  have halive : ∀ u, T.store.IsAlive u ↔ u ≠ s ∧ S.store.IsAlive u := fun u => by
    rw [hT]
    exact Store.isAlive_endScope ha hl
  have hperm : T.timeline.Perm (runsOf (S.store.accepted s) ++ S.timeline) := by
    rw [htimeline, hS, List.append_assoc]
    exact List.perm_append_comm_assoc _ _ _
  refine ⟨fun u t ht => ?_, fun u v t hu hv => ?_, fun u => ?_, fun u hu => ?_, fun e he => ?_, ?_,
    fun u hu => ?_⟩
  · rw [haccepted] at ht
    rw [hT, Store.length_scopes_endScope]
    exact h.known u t ht
  · rw [haccepted] at hu hv
    exact h.unique u v t hu hv
  · rw [haccepted]
    exact h.newest u
  · obtain ⟨hne, hu⟩ := (halive u).mp hu
    rw [haccepted, hT, Store.scope_endScope_of_isAlive ha, if_neg hne]
    exact h.pending u hu
  · rcases List.mem_append.mp (hperm.mem_iff.mp he) with he | he
    · obtain ⟨t, ht, het⟩ := mem_runsOf.mp he
      exact ⟨s, fun hs => ((halive s).mp hs).1 rfl, t, (haccepted s).symm ▸ ht, het⟩
    · obtain ⟨u, hu, t, ht, het⟩ := h.only e he
      exact ⟨u, fun hu' => hu ((halive u).mp hu').2, t, (haccepted u).symm ▸ ht, het⟩
  · refine hperm.nodup_iff.mpr (List.nodup_append.mpr ⟨?_, h.nodup, fun e he e' he' heq => ?_⟩)
    · exact nodup_runsOf (h.accepted_nodup s)
    · exact h.not_mem_of_isAlive ha he (heq ▸ he')
  · rw [haccepted, htimeline]
    by_cases hus : u = s
    · subst hus
      exact (List.sublist_append_right before _).trans (List.sublist_append_left _ after)
    · refine (h.reversed u fun ha' => hu ((halive u).mpr ⟨hus, ha'⟩)).trans ?_
      rw [hS]
      exact (List.sublist_append_left before _).append_right after

theorem timeline_addAction (S : Session) (s : ScopeId) (a : CloseAction) :
    Session.timeline { S with store := S.store.addAction s a } = S.timeline := by
  have hruns : (S.store.addAction s a).runs = S.store.runs := by
    show (S.store.note (.accepted s S.store.tickets)).runs = _
    rw [Store.runs_note]
    exact List.append_nil _
  unfold timeline
  rw [hruns]

theorem Recorded.accepted (h : S.Recorded) (ha : S.store.IsAlive s) (a : CloseAction) :
    Recorded { S with store := S.store.addAction s a } := by
  have hl := Store.lt_length_of_isAlive ha
  have hacc := Store.accepted_addAction S.store s a
  have halive : ∀ u, (S.store.addAction s a).IsAlive u ↔ S.store.IsAlive u := fun _ =>
    S.store.isAlive_addAction s a
  have hmem : ∀ u t, t ∈ (S.store.addAction s a).accepted u ↔
      (u = s ∧ t = S.store.tickets) ∨ t ∈ S.store.accepted u := by
    intro u t
    rw [hacc]
    by_cases hu : s = u
    · rw [if_pos hu, List.mem_cons]
      exact or_congr_left ⟨fun ht => ⟨hu.symm, ht⟩, fun ht => ht.2⟩
    · rw [if_neg hu]
      exact ⟨Or.inr, fun ht => ht.elim (fun ht => absurd ht.1.symm hu) id⟩
  have htimeline := timeline_addAction S s a
  have hfresh : ∀ u, S.store.tickets ∉ S.store.accepted u := fun u hu =>
    Nat.lt_irrefl _ (h.known u _ hu).2
  refine ⟨fun u t ht => ?_, fun u v t hu hv => ?_, fun u => ?_, fun u hu => ?_, fun e he => ?_, ?_,
    fun u hu => ?_⟩
  · rw [Store.length_scopes_addAction]
    show _ ∧ t < S.store.tickets + 1
    rcases (hmem u t).mp ht with ⟨rfl, rfl⟩ | ht
    · exact ⟨hl, Nat.lt_succ_self _⟩
    · exact ⟨(h.known u t ht).1, Nat.lt_succ_of_lt (h.known u t ht).2⟩
  · rcases (hmem u t).mp hu with ⟨hus, ht⟩ | hu'
    · rcases (hmem v t).mp hv with ⟨hvs, _⟩ | hv'
      · exact hus.trans hvs.symm
      · exact absurd (ht ▸ hv') (hfresh v)
    · rcases (hmem v t).mp hv with ⟨_, ht⟩ | hv'
      · exact absurd (ht ▸ hu') (hfresh u)
      · exact h.unique u v t hu' hv'
  · rw [hacc]
    split
    next => exact List.pairwise_cons.mpr ⟨fun t ht => (h.known u t ht).2, h.newest u⟩
    next => exact h.newest u
  · rw [hacc, Store.actions_addAction ha]
    by_cases hus : u = s
    · subst hus
      rw [if_pos rfl, if_pos rfl, List.map_cons, h.pending u ha]
    · rw [if_neg hus, if_neg (Ne.symm hus)]
      exact h.pending u ((halive u).mp hu)
  · rw [htimeline] at he
    obtain ⟨u, hu, t, ht, het⟩ := h.only e he
    exact ⟨u, fun hu' => hu ((halive u).mp hu'), t, (hmem u t).mpr (Or.inr ht), het⟩
  · rw [htimeline]
    exact h.nodup
  · have hus : s ≠ u := by
      rintro rfl
      exact hu ((halive s).mpr ha)
    rw [htimeline, hacc, if_neg hus]
    exact h.reversed u fun ha' => hu ((halive u).mpr ha')

/-! ### Moves -/

/-- Nothing is taken out of the journal. -/
theorem Edit.journal (he : S.Edit governs T) : S.store.journal <:+ T.store.journal := by
  cases he with
  | store hk => exact hk.journal ▸ List.suffix_refl _
  | lost name => exact S.store_lost name ▸ List.suffix_refl _
  | accepted => exact List.suffix_cons _ _
  | _ => exact List.suffix_refl _

theorem Edits.journal (he : S.Edits governs T) : S.store.journal <:+ T.store.journal := by
  induction he with
  | refl => exact List.suffix_refl _
  | tail _ he ih => exact ih.trans he.journal

theorem Work.journal (hw : S.Work T) : S.store.journal <:+ T.store.journal := by
  cases hw with
  | begun => exact List.suffix_cons _ _
  | ended => exact List.suffix_cons _ _
  | written => exact List.suffix_cons _ _
  | @unguarded s _ _ =>
    show _ <:+ (S.store.unpin s).journal
    unfold Store.unpin
    split <;> exact List.suffix_refl _
  | _ => exact List.suffix_refl _

theorem timeline_eq (hj : T.store.journal = S.store.journal)
    (hd : T.chores.flatMap Chore.due = S.chores.flatMap Chore.due) : T.timeline = S.timeline := by
  unfold timeline Store.runs
  rw [hj, hd]

/-- The session records what happens, and nothing is taken from the timeline. -/
structure Continues (S T : Session) : Prop where
  recorded : T.Recorded
  grows : S.timeline.Sublist T.timeline

/-- The scopes, the journal and what is due are the same. -/
theorem Recorded.continues (h : S.Recorded) (hj : T.store.journal = S.store.journal)
    (htickets : T.store.tickets = S.store.tickets)
    (hr : S.store.Resembles T.store)
    (hd : T.chores.flatMap Chore.due = S.chores.flatMap Chore.due) : S.Continues T := by
  have ht := timeline_eq hj hd
  refine ⟨h.same ht (fun s => ?_) htickets (Nat.le_of_eq hr.length.symm) (fun s _ => hr.alive s)
    hr.actions, ?_⟩
  · unfold Store.accepted
    rw [hj]
  · exact ht ▸ .refl _

theorem Recorded.closes (h : S.Recorded) {l : Lifetime} (hl : ∀ k, l ≠ .live k)
    (ha : S.store.IsAlive s) (hT : T.store = S.store.endScope s l) {before after : List Chore}
    (hS : S.chores.flatMap Chore.due = (before ++ after).flatMap Chore.due)
    (hc : T.chores = before ++ (S.store.holdings s).chores ++ after) : S.Continues T := by
  have hruns : T.store.runs = S.store.runs := by
    rw [hT]
    rfl
  have hbefore : S.timeline =
      (S.store.runs ++ before.flatMap Chore.due) ++ after.flatMap Chore.due := by
    unfold timeline
    rw [hS, List.flatMap_append, List.append_assoc]
  have hafter : T.timeline = (S.store.runs ++ before.flatMap Chore.due) ++
      runsOf (S.store.accepted s) ++ after.flatMap Chore.due := by
    unfold timeline
    rw [hruns, hc, List.flatMap_append, List.flatMap_append, due_holdings, ← h.pending s ha]
    simp only [List.append_assoc]
    rfl
  refine ⟨h.ends hl ha hT hbefore hafter, ?_⟩
  rw [hbefore, hafter]
  exact (List.sublist_append_left _ _).append_right _

theorem due_renamed (S : Session) (name : Name) (h : Handle) :
    (S.renamed name h).chores.flatMap Chore.due = S.chores.flatMap Chore.due := by
  unfold Session.renamed
  rw [List.flatMap_append]
  cases S.handles.find? name with
  | none => exact List.append_nil _
  | some old => rw [due_dropChores, List.append_nil]

theorem Recorded.edit (h : S.Recorded) (he : S.Edit governs T) : S.Continues T := by
  cases he with
  | @store τ hk =>
    have hj : S.timeline = Session.timeline { S with store := τ } :=
      (timeline_eq (T := { S with store := τ }) hk.journal rfl).symm
    refine ⟨h.same hj.symm (fun s => ?_) hk.tickets hk.scopes (fun s hs => hk.isAlive_iff hs)
      hk.actions, hj ▸ .refl _⟩
    show τ.accepted s = S.store.accepted s
    unfold Store.accepted
    rw [hk.journal]
  | renamed name _ => exact h.continues rfl rfl (.of_scopes rfl rfl) (due_renamed S name _)
  | discarded =>
    refine h.continues rfl rfl (.of_scopes rfl rfl) ?_
    show (S.chores ++ _).flatMap Chore.due = _
    rw [List.flatMap_append, due_dropChores, List.append_nil]
  | lost name =>
    have hs := S.store_lost name
    refine h.continues (by rw [hs]) (by rw [hs]) (.of_scopes (by rw [hs]) (by rw [hs])) ?_
    unfold Session.lost
    split
    next =>
      rw [List.flatMap_append, due_dropChores, List.append_nil]
    next => rfl
  | updated => exact h.continues rfl rfl (.of_scopes rfl rfl) rfl
  | @acquired s _ name ha =>
    have hdue := due_renamed { S with store := S.store.pin s } name (.guard s)
    exact h.continues rfl rfl (Store.resembles_pin ha) hdue
  | @closed s before after _ hc hl hk =>
    have ha : S.store.IsAlive s := by
      rw [Store.IsAlive, Scope.isAlive, hl]
    exact h.closes (l := .closed) (by simp) ha rfl (by rw [hc]) rfl
  | @accepted s a ha ht =>
    refine ⟨h.accepted ha a, ?_⟩
    exact (timeline_addAction S s a) ▸ .refl _

theorem Recorded.edits (h : S.Recorded) (he : S.Edits governs T) : S.Continues T := by
  induction he with
  | refl => exact ⟨h, .refl _⟩
  | tail _ he ih =>
    have hnext := ih.recorded.edit he
    exact ⟨hnext.recorded, ih.grows.trans hnext.grows⟩

/-- A run that begins or ends is noted where it was due. -/
theorem Recorded.noted (h : S.Recorded) {e : JournalEntry} {chores : List Chore}
    (ha : ∀ s, JournalEntry.ticketFor? s e = none)
    (hd : (if e.isRun then [e] else []) ++ chores.flatMap Chore.due = S.chores.flatMap Chore.due) :
    S.Continues { S with store := S.store.note e, chores := chores } := by
  have ht : Session.timeline { S with store := S.store.note e, chores := chores } = S.timeline := by
    unfold timeline
    show (S.store.note e).runs ++ chores.flatMap Chore.due = _
    rw [Store.runs_note, List.append_assoc, hd]
  refine ⟨h.same ht (fun s => ?_) rfl (Nat.le_refl _) (fun s _ => Iff.rfl) fun s => rfl, ?_⟩
  · exact List.filterMap_cons_none (ha s)
  · exact ht ▸ .refl _

theorem Recorded.work (h : S.Recorded) (hw : S.Work T) : S.Continues T := by
  cases hw with
  | @begun p more rest hc hm =>
    refine h.noted (fun _ => rfl) ?_
    rw [List.flatMap_append, hm.due, hc]
    rfl
  | ended hc => exact h.noted (fun _ => rfl) (by rw [hc]; rfl)
  | written hc => exact h.noted (fun _ => rfl) (by rw [hc]; rfl)
  | spared hc => exact h.continues rfl rfl (.of_scopes rfl rfl) (by rw [hc]; rfl)
  | @reclaimed s rest hc ha hr =>
    have hdue : S.chores.flatMap Chore.due = ([] ++ rest).flatMap Chore.due := by
      rw [hc]
      rfl
    exact h.closes (l := .reclaimed) (by simp) ha rfl hdue rfl
  | @unguarded s rest hc =>
    refine h.continues ?_ ?_ (Store.resembles_unpin _ s) (by rw [hc]; rfl)
    · show (S.store.unpin s).journal = _
      unfold Store.unpin
      split <;> rfl
    · show (S.store.unpin s).tickets = _
      unfold Store.unpin
      split <;> rfl
  | freed hc => exact h.continues rfl rfl (.of_scopes rfl rfl) (by rw [hc]; rfl)

theorem Recorded.advance (h : S.Recorded) (ctx : Context) :
    S.Continues (S.advance ctx) := by
  cases hc : S.chores with
  | nil =>
    rw [advance_nil ctx hc]
    exact ⟨h, .refl _⟩
  | cons c rest =>
    obtain ⟨T, hw, he⟩ := advance_cases ctx hc
    have hfirst := h.work hw
    have hnext := hfirst.recorded.edits he
    exact ⟨hnext.recorded, hfirst.grows.trans hnext.grows⟩

theorem Recorded.begin (h : S.Recorded) (hS : S.Rooted) (ctx : Context) (c : Call) :
    S.Continues (S.begin ctx c).2 := by
  obtain ⟨T, he, hT⟩ := begin_cases hS ctx c
  have hedits := h.edits he
  have hrelease : T.Continues (T.release S.store.scopes.length) := by
    refine hedits.recorded.continues rfl rfl (.of_scopes rfl rfl) ?_
    unfold Session.release
    rw [List.flatMap_append, due_letGo, List.append_nil]
  rw [hT]
  exact ⟨hrelease.recorded, hedits.grows.trans hrelease.grows⟩

theorem recorded_initial : Session.initial.Recorded where
  known s t ht := by cases ht
  unique s u t hs := by cases hs
  newest s := .nil
  pending s _ := by
    by_cases h0 : s = 0
    · rw [h0]
      rfl
    · show (Store.initial.scope s).actions.map _ = []
      rw [Store.scope_of_length_le (Nat.one_le_iff_ne_zero.mpr h0)]
      rfl
  only e he := by cases he
  nodup := .nil
  reversed s _ := .refl _

end Session

theorem play_journal (past later : List Move) :
    (play past).store.journal <:+ (play (later ++ past)).store.journal := by
  induction later with
  | nil => exact List.suffix_refl _
  | cons m later ih =>
    refine ih.trans ?_
    cases m with
    | call ctx c =>
      obtain ⟨T, he, hT⟩ := Session.begin_cases (play_tidied (later ++ past)).rooted ctx c
      show _ <:+ ((play (later ++ past)).begin ctx c).2.store.journal
      rw [hT]
      exact he.journal
    | chore ctx =>
      show _ <:+ ((play (later ++ past)).advance ctx).store.journal
      cases hc : (play (later ++ past)).chores with
      | nil =>
        have hsame := Session.advance_nil ctx hc
        exact hsame.symm ▸ List.suffix_refl _
      | cons c rest =>
        obtain ⟨T, hw, he⟩ := Session.advance_cases ctx hc
        exact hw.journal.trans he.journal

/-- An action that was accepted for a scope stays so. -/
theorem play_accepted (past later : List Move) (s : ScopeId) :
    (play past).store.accepted s <:+ (play (later ++ past)).store.accepted s :=
  (play_journal past later).filterMap _

theorem play_recorded (past : List Move) : (play past).Recorded := by
  induction past with
  | nil => exact Session.recorded_initial
  | cons m past ih =>
    cases m with
    | call ctx c => exact (ih.begin (play_tidied past).rooted ctx c).recorded
    | chore ctx => exact (ih.advance ctx).recorded

end ScopedMemory
