import ScopedMemory.Heap.TwinHeaps
import ScopedMemory.Proofs.Lifetime.Ended

namespace ScopedMemory

namespace Session

variable {S T : Session} {s : ScopeId} {ctx : Context} {name : Name}

/-! ### Scopes that are new -/

theorem Edits.isAlive_of_new (he : S.Edits False T) (hold : S.store.scopes.length ≤ s)
    (hnew : s < T.store.scopes.length) : T.store.IsAlive s := by
  induction he with
  | refl => exact absurd hnew (Nat.not_lt.mpr hold)
  | @tail U V _ he ih =>
    have hsame (hlen : V.store.scopes.length = U.store.scopes.length)
        (ha : U.store.IsAlive s → V.store.IsAlive s) : V.store.IsAlive s := by
      rw [hlen] at hnew
      exact ha (ih hnew)
    cases he with
    | @store τ hk =>
      by_cases hs : s < U.store.scopes.length
      · exact hk.isAlive (ih hs)
      · obtain ⟨kind, creator, _, hb⟩ := hk.new s (Nat.le_of_not_lt hs) hnew
        have hl : (τ.scope s).bare.lifetime = .live 0 := by rw [hb]
        have hl : (τ.scope s).lifetime = .live 0 := hl
        simp [Store.IsAlive, Scope.isAlive, hl]
    | lost name =>
      have hU := U.store_lost name
      exact hsame (by rw [hU]) fun ha => by rwa [hU]
    | acquired hg => exact hg.elim
    | closed hg => exact hg.elim
    | @accepted u a _ _ =>
      exact hsame (U.store.length_scopes_addAction u a) fun ha =>
        (U.store.isAlive_addAction u a).mpr ha
    | _ => exact hsame rfl id

/-- A scope is alive after the move that makes it. -/
theorem isAlive_of_new (hS : S.Rooted) (m : Move) (hold : S.store.scopes.length ≤ s)
    (hnew : s < (S.move m).store.scopes.length) : (S.move m).store.IsAlive s := by
  cases m with
  | chore ctx =>
    have hlen := length_scopes_advance S ctx
    exact absurd hnew (Nat.not_lt.mpr (Nat.le_trans (Nat.le_of_eq hlen) hold))
  | call ctx c =>
    have hnew : s < (S.begin ctx c).2.store.scopes.length := hnew
    by_cases hg : c.Governs
    · have hlen : (S.begin ctx c).2.store.scopes.length = S.store.scopes.length := by
        rcases S.begin_governs ctx hg with ⟨_, _, _, _, _, he⟩ | ⟨_, _, he⟩ | he
        · simp [he]
        · simp [he, Store.pin]
        · rw [he]
      exact absurd hnew (Nat.not_lt.mpr (Nat.le_trans (Nat.le_of_eq hlen) hold))
    · obtain ⟨T, he, hT⟩ := begin_cases hS ctx c
      have hedits : S.Edits False T := eq_false hg ▸ he
      have hstore : (S.begin ctx c).2.store = T.store := by
        rw [hT]
        rfl
      show (S.begin ctx c).2.store.IsAlive s
      rw [hstore] at hnew ⊢
      exact hedits.isAlive_of_new hold hnew

end Session

/-! ### The moves that closed a scope -/

variable {past later : List Move} {m : Move} {s : ScopeId}

theorem length_scopes_play (past later : List Move) :
    (play past).store.scopes.length ≤ (play (later ++ past)).store.scopes.length := by
  induction later with
  | nil => exact Nat.le_refl _
  | cons m later ih =>
    refine Nat.le_trans ih ?_
    cases m with
    | call ctx c =>
      obtain ⟨T, he, hT⟩ := Session.begin_cases (play_tidied (later ++ past)).rooted ctx c
      show _ ≤ ((play (later ++ past)).begin ctx c).2.store.scopes.length
      rw [hT]
      exact he.length_scopes
    | chore ctx => exact Nat.le_of_eq (Session.length_scopes_advance _ ctx).symm

namespace Move

/-- At some time after the `past` the scope was closed. -/
def Closed (past later : List Move) (s : ScopeId) : Prop :=
  ∃ newer m older, later = newer ++ m :: older ∧ m.Closes (play (older ++ past)) s

theorem Closed.ended (h : Closed past later s) : (play (later ++ past)).Ended s .closed := by
  obtain ⟨newer, m, older, rfl, hm⟩ := h
  rw [List.append_assoc]
  have hended : (play (m :: (older ++ past))).Ended s .closed := hm.ended
  exact play_ended hended newer

/-- What is closed and was not in the `past` has been closed since. -/
theorem closed_of_lifetime
    (ha : s < (play past).store.scopes.length → (play past).store.IsAlive s)
    (hs : s < (play (later ++ past)).store.scopes.length)
    (hl : ((play (later ++ past)).store.scope s).lifetime = .closed) :
    Closed past later s := by
  induction later with
  | nil =>
    have hl : ((play past).store.scope s).lifetime = .closed := hl
    have ha := ha hs
    rw [Store.IsAlive, Scope.isAlive, hl] at ha
    cases ha
  | cons m later ih =>
    have hS := play_tidied (later ++ past)
    by_cases ho : (play (later ++ past)).store.IsAlive s
    · exact ⟨[], m, later, rfl, closes_of_closed hS.rooted ho hl⟩
    · by_cases hknown : s < (play (later ++ past)).store.scopes.length
      · have hended := play_ended (Session.ended_of_not_isAlive hknown ho) [m]
        obtain ⟨newer, m', older, rfl, hm⟩ := ih hknown (hended.lifetime.symm.trans hl)
        exact ⟨m :: newer, m', older, rfl, hm⟩
      · -- The scope is new with this move, and nothing is closed when it is made.
        have hnew : (play (m :: (later ++ past))).store.IsAlive s :=
          Session.isAlive_of_new hS.rooted m (Nat.le_of_not_lt hknown) hs
        have hl : ((play (m :: (later ++ past))).store.scope s).lifetime = .closed := hl
        rw [Store.IsAlive, Scope.isAlive, hl] at hnew
        cases hnew

/-- A scope is closed if and only if a move of the run closed it. -/
theorem closed_iff (hs : s < (play past).store.scopes.length) :
    Closed [] past s ↔ ((play past).store.scope s).lifetime = .closed := by
  have hnil : past ++ [] = past := List.append_nil past
  constructor
  · intro h
    have hended := h.ended
    rw [hnil] at hended
    exact hended.lifetime
  · intro hl
    refine closed_of_lifetime (fun h0 => ?_) (hnil.symm ▸ hs) (hnil.symm ▸ hl)
    have h0 : s = 0 := Nat.lt_one_iff.mp h0
    rw [h0]
    rfl

theorem Closed.known (h : Closed [] past s) : s < (play past).store.scopes.length := by
  have hended := h.ended
  rw [List.append_nil] at hended
  exact hended.known

/-- What closed the scope once counts from then on. -/
theorem Closes.closed (h : m.Closes (play past) s) (later : List Move) :
    Closed [] (later ++ m :: past) s := by
  refine ⟨later, m, past, rfl, ?_⟩
  rw [List.append_nil]
  exact h

/-- The scope is referred to, and no move of the run has closed it. -/
def Open (past : List Move) (s : ScopeId) : Prop := (play past).Refers s ∧ ¬ Closed [] past s

theorem open_iff : Open past s ↔ (play past).store.IsAlive s := by
  have hS := play_tidied past
  constructor
  · intro h
    obtain ⟨hr, hc⟩ := h
    have hheld := hS.held s hr
    have hclosed := mt (closed_iff hheld.1).mpr hc
    unfold Store.IsAlive Scope.isAlive
    cases hl : ((play past).store.scope s).lifetime with
    | live n => rfl
    | closed => exact absurd hl hclosed
    | reclaimed => exact absurd hl hheld.2
  · intro ha
    have hknown := Store.lt_length_of_isAlive ha
    refine ⟨hS.kept s hknown ha, fun hc => ?_⟩
    have hl := (closed_iff hknown).mp hc
    rw [Store.IsAlive, Scope.isAlive, hl] at ha
    cases ha

/-- A scope is open until a move closes it. -/
theorem Closes.ends (h : m.Closes (play past) s) : Open past s ∧ ¬ Open (m :: past) s := by
  refine ⟨open_iff.mpr h.isAlive, fun hopen => ?_⟩
  exact hopen.2 (h.closed [])

end Move

/-! ### What closing answers -/

namespace Session

variable {S : Session} {ctx : Context} {name : Name}

/-- A call that closes a scope is answered as the scope answers, whatever its name. -/
theorem begin_close (hs : S.scope? name = some s) :
    (S.begin ctx (.scope (.close name))).1 =
      match (ScopeId.close s).run ctx S.store with
      | .ok _ _ => .ok .done
      | .error e _ => .error (.memory e) := by
  have hfind : (Turn.find Session.scope? name).run ctx S = .ok s S := by
    simp [Turn.find, hs]
  unfold begin
  simp only [Call.perform, ScopeCall.perform, Turn.run_bind, hfind, Turn.run_lift, Turn.leave,
    Turn.run_modify, Turn.run_pure]
  cases (ScopeId.close s).run ctx S.store with
  | ok held τ => rfl
  | error e τ => rfl

/-- A scope that is closed is the only one of which anything changes. -/
theorem lifetime_close {held : Holdings} {τ : Store}
    (hr : (ScopeId.close s).run ctx S.store = .ok held τ) :
    (τ.scope s).lifetime = .closed ∧
      ∀ t, t ≠ s → (τ.scope t).lifetime = (S.store.scope t).lifetime := by
  obtain ⟨_, _, hl, _, rfl⟩ := (ScopeId.leads_close s).ok hr
  have ha : S.store.IsAlive s := by
    rw [Store.IsAlive, Scope.isAlive, hl]
  refine ⟨?_, fun t ht => ?_⟩
  · rw [Store.scope_endScope_of_isAlive ha, if_pos rfl]
  · rw [Store.scope_endScope_of_isAlive ha, if_neg ht]

end Session

/-- How the words of scopes, the guards on them and the moves that closed them go together. -/
structure Guarded (past : List Move) : Prop where
  /-- The word of a scope is the number of guards on it until a move closes it. -/
  counts : ∀ s < (play past).store.scopes.length, ¬ Move.Closed [] past s →
    ((play past).store.scope s).lifetime.word = (play past).guardsOn s
  /-- Once a move has closed it, there is no guard on it and its word says that it is closed. -/
  closed : ∀ s, Move.Closed [] past s →
    ((play past).store.scope s).lifetime.word = -1 ∧ (play past).guardsOn s = 0
  /-- So it is from the move on that closes the scope. -/
  lasts : ∀ m s, m.Closes (play past) s → ∀ later,
    ((play (later ++ m :: past)).store.scope s).lifetime.word = -1 ∧
      (play (later ++ m :: past)).guardsOn s = 0
  /-- Only the calls that acquire or close a scope change the word of any. -/
  calls : ∀ ctx c, ¬ Call.Governs c → ∀ s < (play past).store.scopes.length,
    (((play past).begin ctx c).2.store.scope s).lifetime = ((play past).store.scope s).lifetime
  /-- So it is with actions. -/
  actions : ∀ ctx p rest, (play past).chores = .perform p :: rest → ¬ (Chore.perform p).Governs →
    ∀ s, (((play past).advance ctx).store.scope s).lifetime =
      ((play past).store.scope s).lifetime
  /-- Closing a scope succeeds if there is no guard on it and no move has closed it, else it says
  how many guards there are or that the scope was closed. -/
  closes : ∀ ctx s, (play past).Closable ctx s →
    ((∃ held σ, (ScopeId.close s).run ctx (play past).store = .ok held σ) ↔
      (play past).guardsOn s = 0 ∧ ¬ Move.Closed [] past s) ∧
    (∀ n, (ScopeId.close s).run ctx (play past).store =
        .error (.scopeAcquired s n) (play past).store ↔
      0 < (play past).guardsOn s ∧ n = (play past).guardsOn s) ∧
    ((ScopeId.close s).run ctx (play past).store = .error (.alreadyClosed s) (play past).store ↔
      Move.Closed [] past s)
  /-- A scope that is closed is the only one whose word changes. -/
  ends : ∀ ctx s held σ, (ScopeId.close s).run ctx (play past).store = .ok held σ →
    (σ.scope s).lifetime.word = -1 ∧
      ∀ t, t ≠ s → (σ.scope t).lifetime = ((play past).store.scope t).lifetime
  /-- A call that closes a scope by its name is answered so. -/
  answers : ∀ ctx name s, (play past).scope? name = some s → (play past).Closable ctx s →
    (((play past).begin ctx (.scope (.close name))).1 = .ok .done ↔
      (play past).guardsOn s = 0 ∧ ¬ Move.Closed [] past s) ∧
    (∀ n, ((play past).begin ctx (.scope (.close name))).1 =
        .error (.memory (.scopeAcquired s n)) ↔
      0 < (play past).guardsOn s ∧ n = (play past).guardsOn s) ∧
    (((play past).begin ctx (.scope (.close name))).1 = .error (.memory (.alreadyClosed s)) ↔
      Move.Closed [] past s)

theorem play_word (h : Move.Closed [] past s) :
    ((play past).store.scope s).lifetime.word = -1 ∧ (play past).guardsOn s = 0 :=
  ((play_counted past).word s).2 ((Move.closed_iff h.known).mp h)

/-- What closing a scope answers, by the guards on it and by the moves that closed it. -/
theorem play_run_close {ctx : Context} (hc : (play past).Closable ctx s) :
    (Move.Closed [] past s ∧ (play past).guardsOn s = 0 ∧
      (ScopeId.close s).run ctx (play past).store = .error (.alreadyClosed s) (play past).store) ∨
    (¬ Move.Closed [] past s ∧ (play past).guardsOn s = 0 ∧
      (ScopeId.close s).run ctx (play past).store =
        .ok ((play past).store.holdings s) ((play past).store.endScope s .closed)) ∨
    (¬ Move.Closed [] past s ∧ 0 < (play past).guardsOn s ∧
      (ScopeId.close s).run ctx (play past).store =
        .error (.scopeAcquired s ((play past).guardsOn s)) (play past).store) := by
  have htidy := play_tidied past
  have hrun := (play_counted past).run_close htidy hc
  have hiff := Move.closed_iff (htidy.held s hc.refers).1
  by_cases hclosed : Move.Closed [] past s
  · rw [if_pos (hiff.mp hclosed)] at hrun
    exact Or.inl ⟨hclosed, (play_word hclosed).2, hrun⟩
  · rw [if_neg (mt hiff.mpr hclosed)] at hrun
    by_cases h0 : (play past).guardsOn s = 0
    · rw [if_pos h0] at hrun
      exact Or.inr (Or.inl ⟨hclosed, h0, hrun⟩)
    · rw [if_neg h0] at hrun
      exact Or.inr (Or.inr ⟨hclosed, Nat.pos_of_ne_zero h0, hrun⟩)

/-- In every session that a run leads to, the word of a scope counts its guards until a move closes
it; only calls and actions that acquire or close a scope change it; and closing answers by it. -/
theorem play_guarded (past : List Move) : Guarded past where
  counts s hs hc := by
    have hl := mt (Move.closed_iff hs).mpr hc
    exact ((play_counted past).word s).1 hl
  closed s hc := play_word hc
  lasts m s hm later := play_word (hm.closed later)
  calls ctx c hc s hs := Session.lifetime_begin (play_tidied past).rooted ctx hc hs
  actions ctx p rest hc hp s := Session.lifetime_perform ctx hc hp s
  closes ctx s hs := by
    rcases play_run_close hs with ⟨hc, h0, hr⟩ | ⟨hc, h0, hr⟩ | ⟨hc, h0, hr⟩
    · simp [hc, h0, hr]
    · simp [hc, h0, hr]
    · have hne : (play past).guardsOn s ≠ 0 := by omega
      simp [hc, h0, hne, hr, eq_comm]
  ends ctx s held σ hr := by
    obtain ⟨hl, hother⟩ := Session.lifetime_close hr
    refine ⟨?_, hother⟩
    rw [hl]
    rfl
  answers ctx name s hn hs := by
    rw [Session.begin_close hn]
    rcases play_run_close hs with ⟨hc, h0, hr⟩ | ⟨hc, h0, hr⟩ | ⟨hc, h0, hr⟩
    · simp [hc, h0, hr]
    · simp [hc, h0, hr]
    · have hne : (play past).guardsOn s ≠ 0 := by omega
      simp [hc, h0, hne, hr, eq_comm]

/-- Two guards on a scope whose memory a thread that does not own it tries to write. -/
def guardingCalls : List (Thread × Call) :=
  [(0, .scope (.create .confined "s")),
    (0, .scope (.allocateNative 8 8 "s" (some "r"))),
    (0, .scope (.acquire "s" "g")),
    (0, .scope (.acquire "s" "h")),
    (1, .region (.fill "r" 7))]

/-- After those calls both guards are dropped and taken off. -/
def unguardingMoves : List Move :=
  List.replicate 4 (.chore ⟨1, TwinHeaps.system⟩) ++
    movesOf TwinHeaps.system
      (guardingCalls ++ [(1, .handle (.drop "g")), (0, .handle (.drop "h"))])

/-- The scope cannot be closed with the guards on it, is closed without them, and then is closed. -/
theorem guardingCalls_guarded :
    ¬ (Call.region (.fill "r" 7)).Governs ∧
    (play (movesOf TwinHeaps.system guardingCalls)).Closable ⟨0, TwinHeaps.system⟩ 1 ∧
    (((play (movesOf TwinHeaps.system guardingCalls)).store.scope 1).lifetime.word = 2) ∧
    ((((play (movesOf TwinHeaps.system guardingCalls)).begin ⟨0, TwinHeaps.system⟩
      (.region (.fill "r" 7))).2.store.scope 1).lifetime = .live 2) ∧
    (ScopeId.close 1).run ⟨0, TwinHeaps.system⟩
        (play (movesOf TwinHeaps.system guardingCalls)).store =
      .error (.scopeAcquired 1 2) (play (movesOf TwinHeaps.system guardingCalls)).store ∧
    (Move.call ⟨0, TwinHeaps.system⟩ (.scope (.close "s"))).Closes (play unguardingMoves) 1 ∧
    ((play (.call ⟨0, TwinHeaps.system⟩ (.scope (.close "s")) ::
      unguardingMoves)).store.scope 1).lifetime.word = -1 ∧
    ((play (.call ⟨0, TwinHeaps.system⟩ (.scope (.close "s")) :: unguardingMoves)).begin
      ⟨0, TwinHeaps.system⟩ (.scope (.close "s"))).1 = .error (.memory (.alreadyClosed 1)) := by
  have h := play_guarded (movesOf TwinHeaps.system guardingCalls)
  have h' := play_guarded unguardingMoves
  have hfill : ¬ (Call.region (.fill "r" 7)).Governs := id
  have hguards : (play (movesOf TwinHeaps.system guardingCalls)).guardsOn 1 = 2 := by decide
  have hopen : ¬ Move.Closed [] (movesOf TwinHeaps.system guardingCalls) 1 := fun hc =>
    absurd ((Move.closed_iff (by decide)).mp hc) (by decide)
  have hc : (play (movesOf TwinHeaps.system guardingCalls)).Closable ⟨0, TwinHeaps.system⟩ 1 :=
    ⟨by unfold Session.Refers; decide, by decide, rfl⟩
  have hopen' : ¬ Move.Closed [] unguardingMoves 1 := fun hc =>
    absurd ((Move.closed_iff (by decide)).mp hc) (by decide)
  have hc' : (play unguardingMoves).Closable ⟨0, TwinHeaps.system⟩ 1 :=
    ⟨by unfold Session.Refers; decide, by decide, rfl⟩
  have hname : (play unguardingMoves).scope? "s" = some 1 := by decide
  have hanswer := ((h'.answers _ _ _ hname hc').1).mpr ⟨by decide, hopen'⟩
  have hcloses : (Move.call ⟨0, TwinHeaps.system⟩ (.scope (.close "s"))).Closes
      (play unguardingMoves) 1 := .call hname hanswer
  have hlast := play_guarded (.call ⟨0, TwinHeaps.system⟩ (.scope (.close "s")) ::
    unguardingMoves)
  refine ⟨hfill, hc, ?_, ?_, ?_, hcloses, (h'.lasts _ 1 hcloses []).1, ?_⟩
  · rw [h.counts 1 (by decide) hopen, hguards]
    rfl
  · rw [h.calls _ _ hfill 1 (by decide)]
    decide
  · refine ((h.closes _ _ hc).2.1 2).mpr ?_
    rw [hguards]
    exact ⟨by decide, rfl⟩
  · have hagain : (play (.call ⟨0, TwinHeaps.system⟩ (.scope (.close "s")) ::
        unguardingMoves)).Closable ⟨0, TwinHeaps.system⟩ 1 :=
      ⟨by unfold Session.Refers; decide, by decide, rfl⟩
    exact (hlast.answers _ _ _ (by decide) hagain).2.2.mpr (hcloses.closed [])

end ScopedMemory
