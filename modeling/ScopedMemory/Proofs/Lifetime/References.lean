import ScopedMemory.Proofs.Lifetime.Work

namespace ScopedMemory

namespace Handle

variable {σ τ : Store} {h : Handle} {s : ScopeId}

theorem scopes_of_arenas (ha : τ.arenas = σ.arenas) : h.scopes τ = h.scopes σ := by
  have harena : ∀ a, τ.arena a = σ.arena a := fun a => by
    unfold Store.arena
    rw [ha]
  cases h with
  | arena a _ => simp only [scopes, harena]
  | allocator w => cases w <;> simp only [scopes, allocatorScopes, harena]
  | _ => rfl

/-- A handle that goes gives up its references one by one. -/
theorem mem_targets_dropChores :
    s ∈ (h.dropChores σ).filterMap Chore.target? ↔ s ∈ h.scopes σ := by
  have hmap : ∀ ss : List ScopeId, (ss.map Chore.letGo).filterMap Chore.target? = ss := by
    intro ss
    induction ss with
    | nil => rfl
    | cons t ss ih =>
      have hc : (Chore.letGo t).target? = some t := rfl
      rw [List.map_cons, List.filterMap_cons_some hc, ih]
  cases h with
  | guard t => simp [dropChores, scopes, Chore.target?, eq_comm]
  | _ => simp only [dropChores, hmap]

end Handle

theorem Chore.mem_targets_cons {c : Chore} {rest : List Chore} {s : ScopeId} :
    s ∈ (c :: rest).filterMap Chore.target? ↔
      c.target? = some s ∨ s ∈ rest.filterMap Chore.target? := by
  cases ht : c.target? with
  | none =>
    rw [List.filterMap_cons_none ht]
    simp
  | some u =>
    rw [List.filterMap_cons_some ht, List.mem_cons]
    simp [eq_comm]

/-- What an action leaves to be done refers to what the action refers to. -/
theorem CloseAction.Leaves.mem_targets {a : CloseAction} {more : List Chore} (h : a.Leaves more)
    {s : ScopeId} : s ∈ more.filterMap Chore.target? ↔ a.target? = some s := by
  constructor
  · intro hs
    obtain ⟨c, hc, hs⟩ := List.mem_filterMap.mp hs
    rcases h.only c hc with ⟨text, rfl⟩ | ⟨u, hu, rfl⟩
    · cases hs
    · cases hs
      exact hu
  · intro hs
    exact List.mem_filterMap.mpr ⟨_, h.target s hs, rfl⟩

theorem Store.mem_actionTargets {σ : Store} {s : ScopeId} :
    s ∈ σ.actionTargets ↔ ∃ t, ∃ p ∈ (σ.scope t).actions, p.action.target? = some s := by
  unfold Store.actionTargets
  constructor
  · intro h
    obtain ⟨sc, hsc, hm⟩ := List.mem_flatMap.mp h
    obtain ⟨p, hp, hs⟩ := List.mem_filterMap.mp hm
    obtain ⟨t, ht, rfl⟩ := List.mem_iff_getElem.mp hsc
    have he : σ.scope t = σ.scopes[t] := by simp [Store.scope, ht]
    rw [← he] at hp
    exact ⟨t, p, hp, hs⟩
  · rintro ⟨t, p, hp, hs⟩
    have ht : t < σ.scopes.length := by
      by_cases ht : t < σ.scopes.length
      · exact ht
      · rw [Store.scope_of_length_le (Nat.le_of_not_lt ht)] at hp
        cases hp
    exact List.mem_flatMap.mpr ⟨_, Store.scope_mem ht, List.mem_filterMap.mpr ⟨p, hp, hs⟩⟩

/-- What a scope leaves to be done refers to what its actions refer to. -/
theorem Store.mem_targets_holdings {σ : Store} {s u : ScopeId} :
    u ∈ (σ.holdings s).chores.filterMap Chore.target? ↔
      ∃ p ∈ (σ.scope s).actions, p.action.target? = some u := by
  simp only [Holdings.chores, Store.holdings, List.filterMap_append, List.filterMap_map]
  simp [Chore.target?]

/-! ### Scopes that end -/

namespace Store

variable {σ τ : Store} {s t : ScopeId} {l : Lifetime}

theorem scope_endScope_of_isAlive (ha : σ.IsAlive s) (l : Lifetime) (t : ScopeId) :
    (σ.endScope s l).scope t =
      if t = s then { σ.scope s with lifetime := l, blocks := [], actions := [] }
      else σ.scope t := by
  rw [scope_endScope]
  simp only [lt_length_of_isAlive ha, and_true]

theorem isAlive_endScope (ha : σ.IsAlive s) (hl : ∀ n, l ≠ .live n) :
    (σ.endScope s l).IsAlive t ↔ t ≠ s ∧ σ.IsAlive t := by
  unfold IsAlive
  rw [scope_endScope_of_isAlive ha]
  by_cases ht : t = s
  · rw [if_pos ht]
    refine ⟨fun h => ?_, fun h => absurd ht h.1⟩
    cases l with
    | live n => exact absurd rfl (hl n)
    | closed => cases h
    | reclaimed => cases h
  · rw [if_neg ht]
    exact ⟨fun h => ⟨ht, h⟩, fun h => h.2⟩

/-- Only the scope that ends is not alive any more. -/
theorem eq_of_endScope (ha : σ.IsAlive s) (ht : σ.IsAlive t) (hd : ¬ (σ.endScope s l).IsAlive t) :
    t = s := by
  by_cases hts : t = s
  · exact hts
  · refine absurd ?_ hd
    unfold IsAlive
    rw [scope_endScope_of_isAlive ha, if_neg hts]
    exact ht

theorem kind_endScope (ha : σ.IsAlive s) :
    ((σ.endScope s l).scope t).kind = (σ.scope t).kind := by
  rw [scope_endScope_of_isAlive ha]
  split
  next h => rw [h]
  next => rfl

theorem mem_actions_endScope (ha : σ.IsAlive s) {p : PendingAction} :
    p ∈ ((σ.endScope s l).scope t).actions ↔ t ≠ s ∧ p ∈ (σ.scope t).actions := by
  rw [scope_endScope_of_isAlive ha]
  by_cases ht : t = s
  · rw [if_pos ht]
    exact ⟨fun h => (List.not_mem_nil h).elim, fun h => absurd ht h.1⟩
  · rw [if_neg ht]
    exact ⟨fun h => ⟨ht, h⟩, fun h => h.2⟩

/-! ### Scopes that get an action -/

theorem kind_addAction (σ : Store) (s : ScopeId) (a : CloseAction) (t : ScopeId) :
    ((σ.addAction s a).scope t).kind = (σ.scope t).kind := by
  rw [scope_addAction]
  split
  next h => rw [h.1]
  next => rfl

theorem lifetime_addAction (σ : Store) (s : ScopeId) (a : CloseAction) (t : ScopeId) :
    ((σ.addAction s a).scope t).lifetime = (σ.scope t).lifetime := by
  rw [scope_addAction]
  split
  next h => rw [h.1]
  next => rfl

theorem isAlive_addAction (σ : Store) (s : ScopeId) (a : CloseAction) :
    (σ.addAction s a).IsAlive t ↔ σ.IsAlive t := by
  unfold IsAlive Scope.isAlive
  rw [lifetime_addAction]

theorem holds_addAction (σ : Store) (s : ScopeId) (a : CloseAction) :
    (σ.addAction s a).Holds t ↔ σ.Holds t := by
  unfold Holds
  rw [lifetime_addAction, length_scopes_addAction]

theorem actions_addAction (ha : σ.IsAlive s) (a : CloseAction) (t : ScopeId) :
    ((σ.addAction s a).scope t).actions =
      if t = s then ⟨σ.tickets, a⟩ :: (σ.scope s).actions else (σ.scope t).actions := by
  rw [scope_addAction]
  by_cases ht : t = s
  · rw [if_pos ⟨ht, lt_length_of_isAlive ha⟩, if_pos ht]
  · rw [if_neg fun h => ht h.1, if_neg ht]

theorem mem_actions_addAction (ha : σ.IsAlive s) {a : CloseAction} {p : PendingAction} :
    p ∈ ((σ.addAction s a).scope t).actions ↔
      t = s ∧ p = ⟨σ.tickets, a⟩ ∨ p ∈ (σ.scope t).actions := by
  rw [actions_addAction ha]
  by_cases ht : t = s
  · rw [if_pos ht, List.mem_cons, ht]
    exact or_congr_left (and_iff_right rfl).symm
  · rw [if_neg ht]
    exact ⟨Or.inr, fun h => h.resolve_left fun h => ht h.1⟩

/-- The stores differ at most in blocks, in memory and in what was noted, and in how many guards are
on the scopes that are alive. -/
structure Resembles (σ τ : Store) : Prop where
  length : τ.scopes.length = σ.scopes.length
  arenas : τ.arenas = σ.arenas
  kind : ∀ s, (τ.scope s).kind = (σ.scope s).kind
  actions : ∀ s, (τ.scope s).actions = (σ.scope s).actions
  alive : ∀ s, τ.IsAlive s ↔ σ.IsAlive s
  reclaimed : ∀ s, (τ.scope s).lifetime = .reclaimed ↔ (σ.scope s).lifetime = .reclaimed

theorem Resembles.of_scopes (hs : τ.scopes = σ.scopes) (ha : τ.arenas = σ.arenas) :
    σ.Resembles τ := by
  have he : ∀ s, τ.scope s = σ.scope s := fun s => by
    unfold scope
    rw [hs]
  refine ⟨by rw [hs], ha, ?_, ?_, ?_, ?_⟩
  all_goals
    intro s
    simp only [IsAlive, he]

theorem Resembles.holds (h : σ.Resembles τ) : τ.Holds s ↔ σ.Holds s := by
  unfold Holds
  rw [h.length, ne_eq, ne_eq, h.reclaimed]

theorem resembles_setLive (n : Nat) (ha : σ.IsAlive s) :
    σ.Resembles (σ.setLifetime s (.live n)) := by
  have hs : ∀ t, (σ.setLifetime s (.live n)).scope t =
      if t = s then { σ.scope s with lifetime := .live n } else σ.scope t := fun t => by
    rw [scope_setLifetime]
    simp only [lt_length_of_isAlive ha, and_true]
  have hne : (σ.scope s).lifetime ≠ .reclaimed := (IsAlive.holds ha).2
  refine ⟨by simp, rfl, fun t => ?_, fun t => ?_, fun t => ?_, fun t => ?_⟩
  · rw [hs]
    split
    next h => rw [h]
    next => rfl
  · rw [hs]
    split
    next h => rw [h]
    next => rfl
  · unfold IsAlive
    rw [hs]
    split
    next h =>
      rw [h]
      exact ⟨fun _ => ha, fun _ => rfl⟩
    next => exact Iff.rfl
  · rw [hs]
    split
    next h =>
      rw [h]
      exact ⟨fun hl => Lifetime.noConfusion hl, fun hl => absurd hl hne⟩
    next => exact Iff.rfl

theorem resembles_pin (ha : σ.IsAlive s) : σ.Resembles (σ.pin s) := resembles_setLive _ ha

theorem resembles_unpin (σ : Store) (s : ScopeId) : σ.Resembles (σ.unpin s) := by
  unfold unpin
  split
  next ha => exact resembles_setLive _ ha
  next => exact .of_scopes rfl rfl

end Store

namespace Session

variable {governs : Prop} {S T : Session} {n : Nat} {s : ScopeId}

/-- A handle or something left to be done refers to the scope. -/
def Names (S : Session) (s : ScopeId) : Prop :=
  s ∈ S.roots ∨ s ∈ S.chores.filterMap Chore.target?

/-- Something refers to the scope, be it an action left for the end of a scope, or it is global. -/
def Refers (S : Session) (s : ScopeId) : Prop := S.store.IsReferred S.roots S.chores s

theorem refers_iff : S.Refers s ↔
    S.Names s ∨ (∃ t, ∃ p ∈ (S.store.scope t).actions, p.action.target? = some s) ∨
      (S.store.scope s).kind = .global := by
  unfold Refers Store.IsReferred Names
  rw [Store.mem_actionTargets, or_assoc]

theorem mem_roots : s ∈ S.roots ↔ ∃ p ∈ S.handles, s ∈ p.2.scopes S.store := List.mem_flatMap

/-! ### What handles and chores refer to -/

theorem mem_roots_of_arenas {τ : Store} (ha : τ.arenas = S.store.arenas) (chores : List Chore) :
    s ∈ Session.roots { S with store := τ, chores := chores } ↔ s ∈ S.roots := by
  rw [mem_roots, mem_roots]
  simp only [Handle.scopes_of_arenas ha]

theorem names_leave {chores : List Chore} :
    Names { S with chores := S.chores ++ chores } s ↔
      S.Names s ∨ s ∈ chores.filterMap Chore.target? := by
  unfold Names
  rw [List.filterMap_append, List.mem_append, or_assoc]
  rfl

theorem names_renamed (hS : HandleTable.Sorted S.handles) (name : Name) (h : Handle) :
    (S.renamed name h).Names s ↔ S.Names s ∨ s ∈ h.scopes S.store := by
  have hroots : s ∈ (S.renamed name h).roots ↔
      s ∈ h.scopes S.store ∨ ∃ p ∈ S.handles, p.1 ≠ name ∧ s ∈ p.2.scopes S.store := by
    rw [mem_roots]
    constructor
    · rintro ⟨p, hp, hs⟩
      rcases hS.mem_put.mp hp with rfl | ⟨hp, hne⟩
      · exact Or.inl hs
      · exact Or.inr ⟨p, hp, hne, hs⟩
    · rintro (hs | ⟨p, hp, hne, hs⟩)
      · exact ⟨(name, h), hS.mem_put.mpr (Or.inl rfl), hs⟩
      · exact ⟨p, hS.mem_put.mpr (Or.inr ⟨hp, hne⟩), hs⟩
  have hchores : s ∈ (S.renamed name h).chores.filterMap Chore.target? ↔
      s ∈ S.chores.filterMap Chore.target? ∨
        ∃ old, S.handles.find? name = some old ∧ s ∈ old.scopes S.store := by
    unfold Session.renamed
    rw [List.filterMap_append, List.mem_append]
    cases hf : S.handles.find? name with
    | none => simp
    | some old => simp only [Handle.mem_targets_dropChores, Option.some.injEq, exists_eq_left']
  unfold Names
  rw [hroots, hchores, mem_roots]
  constructor
  · rintro ((hs | ⟨p, hp, _, hs⟩) | (hs | ⟨old, hf, hs⟩))
    · exact Or.inr hs
    · exact Or.inl (Or.inl ⟨p, hp, hs⟩)
    · exact Or.inl (Or.inr hs)
    · exact Or.inl (Or.inl ⟨_, HandleTable.mem_of_find? hf, hs⟩)
  · rintro ((⟨p, hp, hs⟩ | hs) | hs)
    · by_cases hn : p.1 = name
      · exact Or.inr (Or.inr ⟨p.2, hn ▸ hS.find? hp, hs⟩)
      · exact Or.inl (Or.inr ⟨p, hp, hn, hs⟩)
    · exact Or.inr (Or.inl hs)
    · exact Or.inl (Or.inl hs)

theorem names_lost (hS : HandleTable.Sorted S.handles) (name : Name) :
    (S.lost name).Names s ↔ S.Names s := by
  unfold Session.lost
  cases hf : S.handles.find? name with
  | none => exact Iff.rfl
  | some old =>
    have hroots : (∃ p ∈ S.handles.erase name, s ∈ p.2.scopes S.store) ∨
        s ∈ old.scopes S.store ↔ ∃ p ∈ S.handles, s ∈ p.2.scopes S.store := by
      constructor
      · rintro (⟨p, hp, hs⟩ | hs)
        · exact ⟨p, (HandleTable.mem_erase.mp hp).1, hs⟩
        · exact ⟨_, HandleTable.mem_of_find? hf, hs⟩
      · rintro ⟨p, hp, hs⟩
        by_cases hn : p.1 = name
        · right
          have hp' := hS.find? hp
          rw [hn, hf] at hp'
          cases hp'
          exact hs
        · exact Or.inl ⟨p, HandleTable.mem_erase.mpr ⟨hp, hn⟩, hs⟩
    unfold Names
    rw [List.filterMap_append, List.mem_append, Handle.mem_targets_dropChores, mem_roots, mem_roots,
      ← hroots]
    constructor
    · rintro (h | h | h)
      · exact Or.inl (Or.inl h)
      · exact Or.inr h
      · exact Or.inl (Or.inr h)
    · rintro ((h | h) | h)
      · exact Or.inl h
      · exact Or.inr (Or.inr h)
      · exact Or.inr (Or.inl h)

theorem names_updated (hS : HandleTable.Sorted S.handles) {name : Name} {old h : Handle}
    (hf : S.handles.find? name = some old) (hs : ∀ s ∈ old.scopes S.store, s ∈ h.scopes S.store) :
    Names { S with handles := S.handles.put name h } s ↔ S.Names s ∨ s ∈ h.scopes S.store := by
  have hroots : (∃ p ∈ S.handles.put name h, s ∈ p.2.scopes S.store) ↔
      (∃ p ∈ S.handles, s ∈ p.2.scopes S.store) ∨ s ∈ h.scopes S.store := by
    constructor
    · rintro ⟨p, hp, hm⟩
      rcases hS.mem_put.mp hp with rfl | ⟨hp, _⟩
      · exact Or.inr hm
      · exact Or.inl ⟨p, hp, hm⟩
    · rintro (⟨p, hp, hm⟩ | hm)
      · by_cases hn : p.1 = name
        · have hp' := hS.find? hp
          rw [hn, hf] at hp'
          cases hp'
          exact ⟨(name, h), hS.mem_put.mpr (Or.inl rfl), hs s hm⟩
        · exact ⟨p, hS.mem_put.mpr (Or.inr ⟨hp, hn⟩), hm⟩
      · exact ⟨(name, h), hS.mem_put.mpr (Or.inl rfl), hm⟩
  unfold Names
  rw [mem_roots, mem_roots, hroots]
  exact or_right_comm

theorem names_store {τ : Store} (hs : ∀ p ∈ S.handles, p.2.scopes τ = p.2.scopes S.store) :
    Names { S with store := τ } s ↔ S.Names s := by
  unfold Names
  rw [mem_roots, mem_roots]
  refine or_congr_left ⟨?_, ?_⟩
  · rintro ⟨p, hp, hm⟩
    exact ⟨p, hp, hs p hp ▸ hm⟩
  · rintro ⟨p, hp, hm⟩
    exact ⟨p, hp, (hs p hp).symm ▸ hm⟩

/-- A scope that ends leaves its actions to be done, with what they refer to. -/
theorem names_endScope {l : Lifetime} {u : ScopeId} (before after : List Chore) :
    Names { S with
        store := S.store.endScope s l
        chores := before ++ (S.store.holdings s).chores ++ after } u ↔
      Names { S with chores := before ++ after } u ∨
        ∃ p ∈ (S.store.scope s).actions, p.action.target? = some u := by
  have hroots := mem_roots_of_arenas (S := S) (s := u) (τ := S.store.endScope s l) rfl
    (before ++ (S.store.holdings s).chores ++ after)
  have hroots' := mem_roots_of_arenas (S := S) (s := u) (τ := S.store) rfl (before ++ after)
  unfold Names
  rw [hroots, hroots']
  simp only [List.filterMap_append, List.mem_append, Store.mem_targets_holdings]
  rw [or_right_comm (c := u ∈ after.filterMap Chore.target?), ← or_assoc]

/-- The references are in order: what is referred to has not ended for want of references, and below
`n` nothing is left alive that nothing refers to. -/
structure Tidy (n : Nat) (S : Session) : Prop where
  sorted : HandleTable.Sorted S.handles
  arenas : ∀ p ∈ S.handles, ∀ a, p.2.arena? = some a → a < S.store.arenas.length
  global : (S.store.scope 0).kind = .global
  eternal : ∀ s, (S.store.scope s).kind = .global → S.store.IsAlive s
  held : ∀ s, S.Refers s → S.store.Holds s
  kept : ∀ s < n, S.store.IsAlive s → S.Refers s
  bound : n ≤ S.store.scopes.length
  fresh : ∀ s, n ≤ s → (S.store.scope s).lifetime ≠ .reclaimed
  emptied : ∀ s, ¬ S.store.IsAlive s → (S.store.scope s).actions = []

theorem Tidy.rooted (h : S.Tidy n) : S.Rooted where
  handles p hp := by
    refine ⟨fun s hs => h.held s (refers_iff.mpr (Or.inl (Or.inl ?_))), h.arenas p hp⟩
    exact mem_roots.mpr ⟨p, hp, hs⟩
  global := (h.eternal 0 h.global).holds

/-- Handles and chores have changed, and the references that were given up are not missed. -/
theorem Tidy.resembles (h : S.Tidy n) (hr : S.store.Resembles T.store)
    (hsorted : HandleTable.Sorted T.handles)
    (harenas : ∀ p ∈ T.handles, ∀ a, p.2.arena? = some a → a < S.store.arenas.length)
    (hnew : ∀ s, T.Names s → S.Names s ∨ S.store.Holds s)
    (hold : ∀ s, S.store.IsAlive s → S.Names s → T.Refers s) : T.Tidy n where
  sorted := hsorted
  arenas := by
    rw [hr.arenas]
    exact harenas
  global := (hr.kind 0).trans h.global
  eternal s hs := (hr.alive s).mpr (h.eternal s ((hr.kind s).symm.trans hs))
  held s hs := by
    rw [hr.holds]
    rcases refers_iff.mp hs with hs | ⟨t, p, hp, hs⟩ | hs
    · rcases hnew s hs with hs | hs
      · exact h.held s (refers_iff.mpr (Or.inl hs))
      · exact hs
    · rw [hr.actions] at hp
      exact h.held s (refers_iff.mpr (Or.inr (Or.inl ⟨t, p, hp, hs⟩)))
    · rw [hr.kind] at hs
      exact (h.eternal s hs).holds
  kept s hs ha := by
    rw [hr.alive] at ha
    rcases refers_iff.mp (h.kept s hs ha) with hn | ⟨t, p, hp, hn⟩ | hk
    · exact hold s ha hn
    · rw [← hr.actions] at hp
      exact refers_iff.mpr (Or.inr (Or.inl ⟨t, p, hp, hn⟩))
    · rw [← hr.kind] at hk
      exact refers_iff.mpr (Or.inr (Or.inr hk))
  bound := by
    rw [hr.length]
    exact h.bound
  fresh s hs := by
    rw [ne_eq, hr.reclaimed]
    exact h.fresh s hs
  emptied s hs := by
    rw [hr.actions]
    exact h.emptied s fun ha => hs ((hr.alive s).mpr ha)

/-- As `Tidy.resembles`, where the handles are the same. -/
theorem Tidy.resembles_chores (h : S.Tidy n) {τ : Store} {chores : List Chore}
    (hr : S.store.Resembles τ)
    (hnew : ∀ s ∈ chores.filterMap Chore.target?, S.Names s)
    (hold : ∀ s ∈ S.chores.filterMap Chore.target?, S.store.IsAlive s →
      Refers { S with store := τ, chores := chores } s) :
    Tidy n { S with store := τ, chores := chores } := by
  have hroots : ∀ s, s ∈ Session.roots { S with store := τ, chores := chores } ↔ s ∈ S.roots :=
    fun s => mem_roots_of_arenas hr.arenas chores
  refine h.resembles hr h.sorted h.arenas (fun s hs => Or.inl ?_) fun s ha hs => ?_
  · rcases hs with hs | hs
    · exact Or.inl ((hroots s).mp hs)
    · exact hnew s hs
  · rcases hs with hs | hs
    · exact refers_iff.mpr (Or.inl (Or.inl ((hroots s).mpr hs)))
    · exact hold s hs ha

end Session
end ScopedMemory
