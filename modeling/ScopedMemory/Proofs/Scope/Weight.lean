import ScopedMemory.Proofs.Total
import ScopedMemory.Scope.Release

namespace ScopedMemory

namespace Store

def scopeWeight (σ : Store) : Nat := total Scope.weight σ.scopes

theorem weight_eq (σ : Store) (chores : List Chore) :
    σ.weight chores = σ.scopeWeight + total Chore.weight chores := rfl

@[simp] theorem scopeWeight_note (σ : Store) (e : JournalEntry) :
    (σ.note e).scopeWeight = σ.scopeWeight := rfl

@[simp] theorem scopeWeight_setMemory (σ : Store) (m : Memory) :
    (σ.setMemory m).scopeWeight = σ.scopeWeight := rfl

@[simp] theorem scopeWeight_freeBlocks (σ : Store) (bs : List Block) :
    (σ.freeBlocks bs).scopeWeight = σ.scopeWeight := rfl

/-- A scope that is alive has a number that was given out. -/
theorem lt_length_of_isAlive {σ : Store} {s : ScopeId} (h : (σ.scope s).isAlive = true) :
    s < σ.scopes.length := by
  by_cases hs : s < σ.scopes.length
  · exact hs
  · rw [scope, List.getD_eq_getElem?_getD, List.getElem?_eq_none (Nat.le_of_not_lt hs)] at h
    simp [Scope.isAlive] at h

theorem scopeWeight_modifyScope {σ : Store} {s : ScopeId} (f : Scope → Scope)
    (h : s < σ.scopes.length) :
    (σ.modifyScope s f).scopeWeight + (σ.scope s).weight =
      σ.scopeWeight + (f (σ.scope s)).weight :=
  total_modify Scope.weight f _ h

theorem scopeWeight_setLive {σ : Store} {s : ScopeId} (n : Nat) (h : (σ.scope s).isAlive = true) :
    (σ.setLifetime s (.live n)).scopeWeight = σ.scopeWeight := by
  have hm := scopeWeight_modifyScope (fun sc => { sc with lifetime := .live n })
    (lt_length_of_isAlive h)
  have hw : Scope.weight { σ.scope s with lifetime := .live n } = (σ.scope s).weight := by
    simp only [Scope.weight, h]
    rfl
  rw [hw] at hm
  exact Nat.add_right_cancel hm

theorem scopeWeight_pin {σ : Store} {s : ScopeId} (h : (σ.scope s).isAlive = true) :
    (σ.pin s).scopeWeight = σ.scopeWeight := scopeWeight_setLive _ h

@[simp] theorem scopeWeight_unpin (σ : Store) (s : ScopeId) :
    (σ.unpin s).scopeWeight = σ.scopeWeight := by
  unfold unpin
  split
  next h => exact scopeWeight_setLive _ h
  next => rfl

/-- The end of a scope takes its actions and a unit of its own away from the weight. -/
theorem scopeWeight_endScope {σ : Store} {s : ScopeId} {l : Lifetime}
    (h : (σ.scope s).isAlive = true) (hl : ∀ n, l ≠ .live n) :
    (σ.endScope s l).scopeWeight + (total (·.action.weight) (σ.scope s).actions + 1) =
      σ.scopeWeight := by
  have hm := scopeWeight_modifyScope
    (fun sc => { sc with lifetime := l, blocks := [], actions := [] }) (lt_length_of_isAlive h)
  have hw : Scope.weight { σ.scope s with lifetime := l, blocks := [], actions := [] } = 0 := by
    cases l with
    | live n => exact absurd rfl (hl n)
    | closed => rfl
    | reclaimed => rfl
  have hs : (σ.scope s).weight = total (·.action.weight) (σ.scope s).actions + 1 := by
    simp only [Scope.weight, h, if_true]
    omega
  rw [hw, hs, Nat.add_zero] at hm
  exact hm

theorem scopeWeight_addAction {σ : Store} {s : ScopeId} (a : CloseAction)
    (h : s < σ.scopes.length) :
    (σ.addAction s a).scopeWeight = σ.scopeWeight + a.weight := by
  have hm := scopeWeight_modifyScope
    (fun sc => { sc with actions := ⟨σ.tickets, a⟩ :: sc.actions }) h
  have hw : Scope.weight { σ.scope s with actions := ⟨σ.tickets, a⟩ :: (σ.scope s).actions } =
      (σ.scope s).weight + a.weight := by
    have hl : Scope.isAlive { σ.scope s with actions := ⟨σ.tickets, a⟩ :: (σ.scope s).actions } =
        (σ.scope s).isAlive := rfl
    simp only [Scope.weight, hl, total_cons]
    omega
  rw [hw] at hm
  have he : (σ.addAction s a).scopeWeight =
      (σ.modifyScope s fun sc => { sc with actions := ⟨σ.tickets, a⟩ :: sc.actions }).scopeWeight :=
    rfl
  omega

theorem isAlive_of_checkUsable {σ : Store} {t : Thread} {s : ScopeId}
    (h : σ.checkUsable t s = .ok ()) : (σ.scope s).isAlive = true := by
  unfold checkUsable at h
  cases ho : σ.checkOwner t s with
  | error e => rw [ho] at h; cases h
  | ok u =>
    rw [ho] at h
    by_cases ha : (σ.scope s).isAlive
    · exact ha
    · simp [ha, bind, Except.bind] at h

end Store

/-- The actions of an ended scope and the return of its blocks weigh what its end took away. -/
theorem weight_chores (held : Holdings) :
    total Chore.weight held.chores = total (·.action.weight) held.actions + 1 := by
  simp [Holdings.chores, Chore.weight]

def finalStore {α : Type} : EStateM.Result MemoryError Store α → Store
  | .ok _ σ => σ
  | .error _ σ => σ

theorem scopeWeight_pinned {α : Type} {s : ScopeId} {body : Operation α} {ctx : Context}
    (hb : ∀ σ, (finalStore (body ctx σ)).scopeWeight = σ.scopeWeight) (σ : Store) :
    (finalStore (Operation.pinned s body ctx σ)).scopeWeight = σ.scopeWeight := by
  unfold Operation.pinned
  cases hu : σ.checkUsable ctx.caller s with
  | error e => rfl
  | ok u =>
    have hp := Store.scopeWeight_pin (Store.isAlive_of_checkUsable hu)
    have hbp := hb (σ.pin s)
    cases hr : body ctx (σ.pin s) with
    | ok a τ => simp only [hr, finalStore, Store.scopeWeight_unpin] at hbp ⊢; omega
    | error e τ => simp only [hr, finalStore, Store.scopeWeight_unpin] at hbp ⊢; omega

/-- Closing fails and changes nothing, or ends a scope that is alive and without guards. -/
theorem run_close_cases (s : ScopeId) (ctx : Context) (σ : Store) :
    (∃ e, (ScopeId.close s).run ctx σ = .error e σ) ∨
      ((σ.scope s).lifetime = .live 0 ∧
        (ScopeId.close s).run ctx σ = .ok (σ.holdings s) (σ.endScope s .closed)) := by
  cases ho : σ.checkOwner ctx.caller s with
  | error e => exact Or.inl ⟨e, by simp [ScopeId.close, ho]⟩
  | ok u =>
    simp only [ScopeId.close, Operation.run_bind, Operation.run_checkOwner, ho,
      Operation.run_require_ok, Operation.run_get]
    split
    next => exact Or.inl ⟨_, rfl⟩
    next => exact Or.inl ⟨_, rfl⟩
    next hl _ _ => exact Or.inr ⟨hl, rfl⟩
    next => exact Or.inl ⟨_, rfl⟩
    next => exact Or.inl ⟨_, rfl⟩

/-- Leaving an action fails and changes nothing, or adds it to a scope that is alive. -/
theorem run_addAction_cases (s : ScopeId) (a : CloseAction) (ctx : Context) (σ : Store) :
    (∃ e, (ScopeId.addAction s a).run ctx σ = .error e σ) ∨
      ((σ.scope s).isAlive = true ∧
        (ScopeId.addAction s a).run ctx σ = .ok ⟨⟩ (σ.addAction s a)) := by
  cases hu : σ.checkUsable ctx.caller s with
  | error e => exact Or.inl ⟨e, by simp [ScopeId.addAction, hu]⟩
  | ok u =>
    exact Or.inr ⟨Store.isAlive_of_checkUsable hu, by simp [ScopeId.addAction, hu]⟩

theorem scopeWeight_fill (r : Region) (value : UInt8) (ctx : Context) (σ : Store) :
    (finalStore ((r.fill value).run ctx σ)).scopeWeight = σ.scopeWeight := by
  refine scopeWeight_pinned (fun τ => ?_) σ
  change (finalStore (Operation.run _ ctx τ)).scopeWeight = _
  cases hc : r.checkSpan 0 r.size with
  | error e => simp [finalStore]
  | ok u => simp [finalStore]

/-- An action weighs at least two more than what it turns into. -/
theorem weight_unfold (ctx : Context) (σ : Store) (a : CloseAction) :
    (a.unfold ctx σ).1.scopeWeight + total Chore.weight (a.unfold ctx σ).2 + 2 ≤
      σ.scopeWeight + a.weight := by
  cases a with
  | say label => simp [CloseAction.unfold, CloseAction.weight, Chore.weight]
  | probe label s => simp [CloseAction.unfold, CloseAction.weight, Chore.weight]
  | hold label s => simp [CloseAction.unfold, CloseAction.weight, Chore.weight]
  | close label s =>
    rcases run_close_cases s ctx σ with ⟨e, he⟩ | ⟨hl, hr⟩
    · simp [CloseAction.unfold, he, CloseAction.weight, Chore.weight]
    · have hw := Store.scopeWeight_endScope (l := .closed) (by simp [Scope.isAlive, hl])
        (by simp) (s := s) (σ := σ)
      have hc := weight_chores (σ.holdings s)
      simp only [Store.holdings] at hc
      simp only [CloseAction.unfold, hr, CloseAction.weight, total_append,
        total_cons, total_nil, Chore.weight, Store.holdings]
      omega
  | extend label s =>
    rcases run_addAction_cases s (.say (label ++ "\x27")) ctx σ with ⟨e, he⟩ | ⟨ha, hr⟩
    · simp [CloseAction.unfold, he, CloseAction.weight, Chore.weight]
    · have hw := Store.scopeWeight_addAction (.say (label ++ "\x27"))
        (Store.lt_length_of_isAlive ha)
      simp only [CloseAction.weight] at hw
      simp only [CloseAction.unfold, hr, CloseAction.weight, total_cons, total_nil,
        Chore.weight]
      omega
  | fill label r =>
    have hf := scopeWeight_fill r 0xee ctx σ
    cases hr : (r.fill 0xee).run ctx σ with
    | ok u τ =>
      simp only [hr, finalStore] at hf
      simp [CloseAction.unfold, hr, hf, CloseAction.weight, Chore.weight]
    | error e τ =>
      simp only [hr, finalStore] at hf
      simp [CloseAction.unfold, hr, hf, CloseAction.weight, Chore.weight]

theorem weight_step_lt (ctx : Context) (roots : List ScopeId) (σ : Store) (c : Chore)
    (rest : List Chore) :
    (c.step ctx roots σ rest).1.weight (c.step ctx roots σ rest).2 < σ.weight (c :: rest) := by
  simp only [Store.weight_eq, total_cons]
  cases c with
  | perform p =>
    have hu := weight_unfold ctx (σ.note (.began p.ticket)) p.action
    simp only [Store.scopeWeight_note] at hu
    simp only [Chore.step, total_append, total_cons, Chore.weight]
    omega
  | finish ticket => simp [Chore.step, Chore.weight]
  | write line => simp [Chore.step, Chore.weight]
  | unguard s => simp [Chore.step, Chore.weight]
  | free blocks => simp [Chore.step, Chore.weight]
  | letGo s =>
    simp only [Chore.step]
    split
    next h =>
      have hw := Store.scopeWeight_endScope (l := .reclaimed) h.1 (by simp)
      have hc := weight_chores (σ.holdings s)
      simp only [Store.holdings] at hc
      simp only [total_append, Chore.weight, Store.holdings]
      omega
    next => simp [Chore.weight]

/-- With as many steps as the weight allows nothing is left to do. -/
theorem doChores_eq_nil (ctx : Context) (roots : List ScopeId) {n : Nat} {σ : Store}
    {chores : List Chore} (h : σ.weight chores ≤ n) :
    (Store.doChores ctx roots n σ chores).2 = [] := by
  induction n generalizing σ chores with
  | zero =>
    cases chores with
    | nil => rfl
    | cons c rest =>
      have := weight_step_lt ctx roots σ c rest
      omega
  | succ n ih =>
    cases chores with
    | nil => rfl
    | cons c rest =>
      have := weight_step_lt ctx roots σ c rest
      exact ih (Nat.le_of_lt_succ (Nat.lt_of_lt_of_le this h))

end ScopedMemory
