import ScopedMemory.Arena.Allocation
import ScopedMemory.Proofs.Scope.Weight

namespace ScopedMemory.Store

theorem scope_modifyScope (σ : Store) (s t : ScopeId) (f : Scope → Scope) :
    (σ.modifyScope s f).scope t =
      if t = s ∧ s < σ.scopes.length then f (σ.scope s) else σ.scope t := by
  simp only [scope, modifyScope, List.getD_eq_getElem?_getD, List.getElem?_modify]
  by_cases hs : s = t
  · subst t
    by_cases hl : s < σ.scopes.length <;> simp [hl]
  · simp [hs, Ne.symm hs]

theorem scope_of_length_le {σ : Store} {s : ScopeId} (h : σ.scopes.length ≤ s) :
    σ.scope s = ⟨.shared, 0, .closed, [], []⟩ := by
  rw [scope, List.getD_eq_getElem?_getD, List.getElem?_eq_none h, Option.getD_none]

theorem scope_addScope (σ : Store) (kind : ScopeKind) (creator : Thread) (t : ScopeId) :
    (σ.addScope kind creator).scope t =
      if t = σ.scopes.length then ⟨kind, creator, .live 0, [], []⟩ else σ.scope t := by
  simp only [scope, addScope, List.getD_eq_getElem?_getD]
  rcases Nat.lt_trichotomy t σ.scopes.length with h | h | h
  · rw [List.getElem?_append_left h, if_neg (Nat.ne_of_lt h)]
  · rw [List.getElem?_append_right (Nat.le_of_eq h.symm), if_pos h]
    simp [h]
  · rw [if_neg (Nat.ne_of_gt h), List.getElem?_eq_none, List.getElem?_eq_none (Nat.le_of_lt h)]
    simp only [List.length_append, List.length_singleton]
    omega

theorem scope_mem {σ : Store} {s : ScopeId} (h : s < σ.scopes.length) :
    σ.scope s ∈ σ.scopes := by
  have he : σ.scope s = σ.scopes[s] := by simp [scope, h]
  exact he ▸ List.getElem_mem h

@[simp] theorem scope_setMemory (σ : Store) (m : Memory) (s : ScopeId) :
    (σ.setMemory m).scope s = σ.scope s := rfl

@[simp] theorem scope_note (σ : Store) (e : JournalEntry) (s : ScopeId) :
    (σ.note e).scope s = σ.scope s := rfl

@[simp] theorem scope_freeBlocks (σ : Store) (bs : List Block) (s : ScopeId) :
    (σ.freeBlocks bs).scope s = σ.scope s := rfl

@[simp] theorem scope_addArena (σ : Store) (ar : Arena) (s : ScopeId) :
    (σ.addArena ar).scope s = σ.scope s := rfl

@[simp] theorem scope_modifyArena (σ : Store) (a : ArenaId) (f : Arena → Arena) (s : ScopeId) :
    (σ.modifyArena a f).scope s = σ.scope s := rfl

theorem scope_addBlock (σ : Store) (s : ScopeId) (b : Block) (t : ScopeId) :
    (σ.addBlock s b).scope t =
      if t = s ∧ s < σ.scopes.length then
        { σ.scope s with blocks := b :: (σ.scope s).blocks } else σ.scope t :=
  scope_modifyScope σ s t _

theorem scope_endScope (σ : Store) (s : ScopeId) (l : Lifetime) (t : ScopeId) :
    (σ.endScope s l).scope t =
      if t = s ∧ s < σ.scopes.length then
        { σ.scope s with lifetime := l, blocks := [], actions := [] } else σ.scope t :=
  scope_modifyScope σ s t _

theorem scope_addAction (σ : Store) (s : ScopeId) (a : CloseAction) (t : ScopeId) :
    (σ.addAction s a).scope t =
      if t = s ∧ s < σ.scopes.length then
        { σ.scope s with actions := ⟨σ.tickets, a⟩ :: (σ.scope s).actions } else σ.scope t :=
  scope_modifyScope σ s t _

theorem scope_setLifetime (σ : Store) (s : ScopeId) (l : Lifetime) (t : ScopeId) :
    (σ.setLifetime s l).scope t =
      if t = s ∧ s < σ.scopes.length then { σ.scope s with lifetime := l } else σ.scope t :=
  scope_modifyScope σ s t _

theorem arena_modifyArena (σ : Store) (a b : ArenaId) (f : Arena → Arena) :
    (σ.modifyArena a f).arena b =
      if b = a ∧ a < σ.arenas.length then f (σ.arena a) else σ.arena b := by
  simp only [arena, modifyArena, List.getD_eq_getElem?_getD, List.getElem?_modify]
  by_cases hs : a = b
  · subst b
    by_cases hl : a < σ.arenas.length <;> simp [hl]
  · simp [hs, Ne.symm hs]

theorem arena_of_length_le {σ : Store} {a : ArenaId} (h : σ.arenas.length ≤ a) :
    σ.arena a = ⟨0, .bounded 0, 1, none, {}⟩ := by
  rw [arena, List.getD_eq_getElem?_getD, List.getElem?_eq_none h, Option.getD_none]

theorem lt_length_of_frontier {σ : Store} {a : ArenaId} {f : Frontier}
    (hf : (σ.arena a).frontier = some f) : a < σ.arenas.length := by
  by_cases hl : a < σ.arenas.length
  · exact hl
  · rw [arena_of_length_le (Nat.le_of_not_lt hl)] at hf
    cases hf

theorem arena_addArena (σ : Store) (ar : Arena) (b : ArenaId) :
    (σ.addArena ar).arena b = if b = σ.arenas.length then ar else σ.arena b := by
  simp only [arena, addArena, List.getD_eq_getElem?_getD]
  rcases Nat.lt_trichotomy b σ.arenas.length with h | h | h
  · rw [List.getElem?_append_left h, if_neg (Nat.ne_of_lt h)]
  · rw [List.getElem?_append_right (Nat.le_of_eq h.symm), if_pos h]
    simp [h]
  · rw [if_neg (Nat.ne_of_gt h), List.getElem?_eq_none, List.getElem?_eq_none (Nat.le_of_lt h)]
    simp only [List.length_append, List.length_singleton]
    omega

@[simp] theorem arena_setMemory (σ : Store) (m : Memory) (a : ArenaId) :
    (σ.setMemory m).arena a = σ.arena a := rfl

@[simp] theorem arena_modifyScope (σ : Store) (s : ScopeId) (f : Scope → Scope) (a : ArenaId) :
    (σ.modifyScope s f).arena a = σ.arena a := rfl

@[simp] theorem arena_addScope (σ : Store) (kind : ScopeKind) (creator : Thread) (a : ArenaId) :
    (σ.addScope kind creator).arena a = σ.arena a := rfl

@[simp] theorem arena_addBlock (σ : Store) (s : ScopeId) (b : Block) (a : ArenaId) :
    (σ.addBlock s b).arena a = σ.arena a := rfl

@[simp] theorem arena_endScope (σ : Store) (s : ScopeId) (l : Lifetime) (a : ArenaId) :
    (σ.endScope s l).arena a = σ.arena a := rfl

@[simp] theorem length_scopes_modifyScope (σ : Store) (s : ScopeId) (f : Scope → Scope) :
    (σ.modifyScope s f).scopes.length = σ.scopes.length := by
  simp [modifyScope]

@[simp] theorem length_scopes_addBlock (σ : Store) (s : ScopeId) (b : Block) :
    (σ.addBlock s b).scopes.length = σ.scopes.length := length_scopes_modifyScope σ s _

@[simp] theorem length_scopes_endScope (σ : Store) (s : ScopeId) (l : Lifetime) :
    (σ.endScope s l).scopes.length = σ.scopes.length := length_scopes_modifyScope σ s _

@[simp] theorem length_scopes_addAction (σ : Store) (s : ScopeId) (a : CloseAction) :
    (σ.addAction s a).scopes.length = σ.scopes.length := length_scopes_modifyScope σ s _

@[simp] theorem length_scopes_setLifetime (σ : Store) (s : ScopeId) (l : Lifetime) :
    (σ.setLifetime s l).scopes.length = σ.scopes.length := length_scopes_modifyScope σ s _

@[simp] theorem length_scopes_addScope (σ : Store) (kind : ScopeKind) (creator : Thread) :
    (σ.addScope kind creator).scopes.length = σ.scopes.length + 1 := by
  simp [addScope]

@[simp] theorem length_arenas_addArena (σ : Store) (ar : Arena) :
    (σ.addArena ar).arenas.length = σ.arenas.length + 1 := by
  simp [addArena]

@[simp] theorem length_arenas_modifyArena (σ : Store) (a : ArenaId) (f : Arena → Arena) :
    (σ.modifyArena a f).arenas.length = σ.arenas.length := by
  simp [modifyArena]

theorem setMemory_unpin_pin {σ : Store} {s : ScopeId} (m : Memory)
    (h : (σ.scope s).isAlive = true) : ((σ.pin s).setMemory m).unpin s = σ.setMemory m := by
  have hs := lt_length_of_isAlive h
  have hp : (σ.pin s).scope s = { σ.scope s with lifetime := .live (σ.guards s + 1) } := by
    rw [pin, scope_setLifetime, if_pos ⟨rfl, hs⟩]
  have hg : (σ.scope s).lifetime = .live (σ.guards s) := by
    unfold guards
    unfold Scope.isAlive at h
    split at h
    next n hl => rw [hl]
    next => cases h
  have hb : ((σ.pin s).setMemory m).guards s = σ.guards s + 1 := by
    rw [guards, scope_setMemory, hp]
  have ha : (((σ.pin s).setMemory m).scope s).isAlive = true := by
    rw [scope_setMemory, hp]
    rfl
  rw [unpin, if_pos ha, hb, Nat.add_sub_cancel]
  have hm : ((σ.scopes.modify s fun sc => { sc with lifetime := .live (σ.guards s + 1) }).modify s
      fun sc => { sc with lifetime := .live (σ.guards s) }) = σ.scopes := by
    rw [List.modify_modify_eq]
    refine List.ext_getElem? fun i => ?_
    rw [List.getElem?_modify]
    by_cases hi : s = i
    · subst i
      have he : σ.scopes[s]? = some (σ.scope s) := by simp [scope, hs]
      simp [he, ← hg]
    · simp [hi]
  exact congrArg (fun scopes => { σ with scopes, memory := m }) hm

theorem unpin_pin {σ : Store} {s : ScopeId} (h : (σ.scope s).isAlive = true) :
    (σ.pin s).unpin s = σ := setMemory_unpin_pin σ.memory h

end ScopedMemory.Store
