import ScopedMemory.Proofs.Store.Changes

namespace ScopedMemory

namespace Store

variable {system : SystemAllocator} {strict : Prop} {waiting waiting' : List Block}
  {G : List Region} {σ τ : Store} {s : ScopeId}

/-- Changing a scope keeps all that was there if it keeps who may use it, brings it not back to life
and takes no block from it while it lives. -/
theorem later_modifyScope (σ : Store) (s : ScopeId) {f : Scope → Scope}
    (hk : ∀ sc, (f sc).kind = sc.kind ∧ (f sc).creator = sc.creator)
    (ha : (f (σ.scope s)).isAlive = true →
      σ.IsAlive s ∧ ∀ b ∈ (σ.scope s).blocks, b ∈ (f (σ.scope s)).blocks) :
    σ.Later (σ.modifyScope s f) := by
  refine ⟨by simp, Nat.le_refl _, Nat.le_refl _, ?_, ?_, ?_, fun _ _ => rfl⟩
  · intro t _ h
    rw [IsAlive, scope_modifyScope] at h
    split at h
    next he => exact he.1 ▸ (ha h).1
    next => exact h
  · intro t _ h b hb
    rw [IsAlive, scope_modifyScope] at h
    rw [scope_modifyScope]
    split at h
    next he =>
      rw [if_pos he]
      exact (ha h).2 b (he.1 ▸ hb)
    next he =>
      rw [if_neg he]
      exact hb
  · intro t _
    rw [scope_modifyScope]
    split
    next he => rw [he.1]; exact hk _
    next => exact ⟨rfl, rfl⟩

/-- What the store is sound with follows to a changed scope: its blocks that it gave up wait. -/
theorem Sound.modifyScope (h : σ.Sound system strict waiting) {f : Scope → Scope}
    (hl : σ.Later (σ.modifyScope s f)) (hs : s < σ.scopes.length)
    (hw : ((σ.scope s).blocks ++ waiting).Perm ((f (σ.scope s)).blocks ++ waiting'))
    (he : (f (σ.scope s)).isAlive = false →
      (f (σ.scope s)).blocks = [] ∧ (f (σ.scope s)).actions = [])
    (h0 : s = 0 → (f (σ.scope s)).isAlive = true)
    (ha : ∀ t, ∀ p ∈ ((σ.modifyScope s f).scope t).actions, p.Sound (σ.modifyScope s f) strict) :
    (σ.modifyScope s f).Sound system strict waiting' := by
  obtain ⟨rest, h₁, h₂⟩ := blocks_modifyScope hs
  refine ⟨h.history, ?_, ?_, ?_, fun a ha => (h.arenas a ha).later hl, ha⟩
  · have hp : (unfreed σ.events).Perm ((f (σ.scope s)).blocks ++ rest ++ waiting') := by
      refine h.accounted.trans ((h₁.append_right waiting).trans ?_)
      have hcomm : ∀ xs ys : List Block, (xs ++ rest ++ ys).Perm (rest ++ (xs ++ ys)) := by
        intro xs ys
        rw [← List.append_assoc]
        exact List.perm_append_comm.append_right ys
      exact (hcomm _ _).trans ((hw.append_left rest).trans (hcomm _ _).symm)
    exact hp.trans ((h₂ f).symm.append_right waiting')
  · intro t ht
    rw [IsAlive, scope_modifyScope] at ht
    rw [scope_modifyScope]
    split at ht
    next hc =>
      rw [if_pos hc]
      exact he (Bool.eq_false_iff.mpr ht)
    next hc =>
      rw [if_neg hc]
      exact h.ended t ht
  · have hlen := lt_length_of_isAlive h.eternal.2
    refine ⟨(hl.owner 0 hlen).1.trans h.eternal.1, ?_⟩
    rw [IsAlive, scope_modifyScope]
    split
    next hc => exact h0 hc.1.symm
    next => exact h.eternal.2

theorem later_endScope (σ : Store) (s : ScopeId) {l : Lifetime} (hl : ∀ n, l ≠ .live n) :
    σ.Later (σ.endScope s l) := by
  refine later_modifyScope σ s (fun _ => ⟨rfl, rfl⟩) fun h => ?_
  cases l with
  | live n => exact absurd rfl (hl n)
  | closed => cases h
  | reclaimed => cases h

theorem actions_endScope {l : Lifetime} {t : ScopeId} {p : PendingAction}
    (h : p ∈ ((σ.endScope s l).scope t).actions) : p ∈ (σ.scope t).actions := by
  rw [scope_endScope] at h
  split at h
  next => cases h
  next => exact h

theorem Sound.endScope (h : σ.Sound system strict waiting) {l : Lifetime}
    (hl : ∀ n, l ≠ .live n) (ha : σ.IsAlive s) (hg : (σ.scope s).kind ≠ .global)
    (hr : ∀ t, ∀ p ∈ (σ.scope t).actions, ∀ u, p.action.target? = some u → σ.Holds u →
      (σ.endScope s l).Holds u) :
    (σ.endScope s l).Sound system strict (waiting ++ (σ.scope s).blocks) := by
  have hx := later_endScope σ s hl
  refine h.modifyScope hx (lt_length_of_isAlive ha) List.perm_append_comm
    (fun _ => ⟨rfl, rfl⟩) (fun he => ?_) fun t p hp => ?_
  · exact absurd (he ▸ h.eternal.1) hg
  · have hp' := actions_endScope hp
    have hold := h.actions t p hp'
    refine ⟨hold.1, hold.2.later hx fun u hu => ?_⟩
    exact hr t p hp' u hu (hold.2.target u hu)

theorem spares_endScope (σ : Store) (s : ScopeId) : σ.Spares (σ.endScope s .closed) := by
  intro t h
  rw [scope_endScope] at h
  split at h
  next => cases h
  next => exact h

theorem Holds.endScope {u : ScopeId} (h : σ.Holds u) {l : Lifetime} (hl : u ≠ s ∨ l = .closed) :
    (σ.endScope s l).Holds u := by
  refine ⟨by rw [length_scopes_endScope]; exact h.1, ?_⟩
  rw [scope_endScope]
  split
  next he =>
    rcases hl with hne | rfl
    · exact absurd he.1 hne
    · exact Lifetime.noConfusion
  next => exact h.2

theorem later_addAction (σ : Store) (s : ScopeId) (a : CloseAction) :
    σ.Later (σ.addAction s a) := by
  have h := later_modifyScope σ s
    (f := fun sc => { sc with actions := ⟨σ.tickets, a⟩ :: sc.actions })
    (fun _ => ⟨rfl, rfl⟩) fun h => ⟨h, fun _ hb => hb⟩
  exact ⟨h.scopes, h.arenas, Nat.le_succ _, h.alive, h.blocks, h.owner, h.arenaScope⟩

theorem spares_addAction (σ : Store) (s : ScopeId) (a : CloseAction) :
    σ.Spares (σ.addAction s a) := by
  intro t h
  rw [scope_addAction] at h
  split at h
  next he => rw [he.1]; exact h
  next => exact h

theorem Sound.addAction (h : σ.Sound system strict waiting) {a : CloseAction} (hs : σ.IsAlive s)
    (ha : a.Sound σ strict) : (σ.addAction s a).Sound system strict waiting := by
  have hx := later_addAction σ s a
  have hsp := spares_addAction σ s a
  have hlen := lt_length_of_isAlive hs
  obtain ⟨rest, h₁, h₂⟩ := blocks_modifyScope hlen
  refine ⟨h.history, ?_, ?_, ?_, fun b hb => (h.arenas b hb).later hx, ?_⟩
  · have hb : (σ.addAction s a).blocks.Perm σ.blocks := (h₂ _).trans h₁.symm
    exact h.accounted.trans (hb.symm.append_right waiting)
  · intro t ht
    rw [IsAlive, scope_addAction] at ht
    rw [scope_addAction]
    split at ht
    next he => exact absurd hs ht
    next he =>
      rw [if_neg he]
      exact h.ended t ht
  · have h0 := lt_length_of_isAlive h.eternal.2
    refine ⟨(hx.owner 0 h0).1.trans h.eternal.1, ?_⟩
    rw [IsAlive, scope_addAction]
    split
    next => exact hs
    next => exact h.eternal.2
  · intro t p hp
    rw [scope_addAction] at hp
    split at hp
    next he =>
      rcases List.mem_cons.mp hp with rfl | hp
      · exact ⟨Nat.lt_succ_self _, ha.later hx fun u hu => (ha.target u hu).later hx hsp⟩
      · exact (h.actions s p hp).later hx hsp
    next => exact (h.actions t p hp).later hx hsp

theorem later_setLive (σ : Store) (n : Nat) (hs : σ.IsAlive s) :
    σ.Later (σ.setLifetime s (.live n)) :=
  later_modifyScope σ s (fun _ => ⟨rfl, rfl⟩) fun _ => ⟨hs, fun _ hb => hb⟩

theorem spares_setLive (σ : Store) (n : Nat) : σ.Spares (σ.setLifetime s (.live n)) := by
  intro t h
  rw [scope_setLifetime] at h
  split at h
  next => cases h
  next => exact h

theorem Sound.setLive (h : σ.Sound system strict waiting) (n : Nat) (hs : σ.IsAlive s) :
    (σ.setLifetime s (.live n)).Sound system strict waiting := by
  have hx := later_setLive σ n hs
  refine h.modifyScope hx (lt_length_of_isAlive hs) (List.Perm.refl _) (fun he => ?_)
    (fun _ => rfl) fun t p hp => ?_
  · cases he
  · have hp' : p ∈ (σ.scope t).actions := by
      rw [scope_modifyScope] at hp
      split at hp
      next he => rw [he.1]; exact hp
      next => exact hp
    exact (h.actions t p hp').later hx (spares_setLive σ n)

theorem Sound.freeBlocks {bs : List Block} (h : σ.Sound system strict (bs ++ waiting)) :
    (σ.freeBlocks bs).Sound system strict waiting := by
  refine ⟨h.history.freedAll bs, ?_, h.ended, h.eternal, fun a ha => ?_, fun s p hp => ?_⟩
  · have hp : (unfreed σ.events).Perm (bs ++ (σ.blocks ++ waiting)) := by
      refine h.accounted.trans ?_
      rw [← List.append_assoc, ← List.append_assoc]
      exact List.perm_append_comm.append_right waiting
    exact unfreed_freed_perm hp
  · exact ⟨(h.arenas a ha).scope, (h.arenas a ha).frontier⟩
  · exact ⟨(h.actions s p hp).1, (h.actions s p hp).2.target, (h.actions s p hp).2.region⟩

theorem Sound.perm (h : σ.Sound system strict waiting) (hp : waiting.Perm waiting') :
    σ.Sound system strict waiting' :=
  ⟨h.history, h.accounted.trans (hp.append_left _), h.ended, h.eternal, h.arenas, h.actions⟩

theorem later_note (σ : Store) (e : JournalEntry) : σ.Later (σ.note e) :=
  ⟨Nat.le_refl _, Nat.le_refl _, Nat.le_refl _, fun _ _ h => h, fun _ _ _ _ h => h,
    fun _ _ => ⟨rfl, rfl⟩, fun _ _ => rfl⟩

theorem later_freeBlocks (σ : Store) (bs : List Block) : σ.Later (σ.freeBlocks bs) :=
  ⟨Nat.le_refl _, Nat.le_refl _, Nat.le_refl _, fun _ _ h => h, fun _ _ _ _ h => h,
    fun _ _ => ⟨rfl, rfl⟩, fun _ _ => rfl⟩

theorem Sound.note (h : σ.Sound system strict waiting) (e : JournalEntry) :
    (σ.note e).Sound system strict waiting :=
  ⟨h.history, h.accounted, h.ended, h.eternal,
    fun a ha => ⟨(h.arenas a ha).scope, (h.arenas a ha).frontier⟩,
    fun s p hp => ⟨(h.actions s p hp).1, (h.actions s p hp).2.target, (h.actions s p hp).2.region⟩⟩

end Store

namespace ScopeId

open Operation

variable {ctx : Context} {σ : Store}

theorem leads_close (s : ScopeId) :
    (close s).Leads ctx σ
      (fun held τ => (σ.scope s).kind ≠ .implicit ∧ (σ.scope s).kind ≠ .global ∧
        (σ.scope s).lifetime = .live 0 ∧ held = σ.holdings s ∧ τ = σ.endScope s .closed)
      (· = σ) := by
  refine (leads_require (P := fun _ τ => σ = τ) (Q := (· = σ)) (fun _ _ => rfl) rfl).bind ?_
  intro _ _ hτ
  subst hτ
  refine (leads_get (P := fun ρ τ => σ = ρ ∧ σ = τ) ⟨rfl, rfl⟩).bind ?_
  intro ρ τ h
  obtain ⟨rfl, rfl⟩ := h
  split
  next => exact leads_throw rfl
  next => exact leads_throw rfl
  next hl hi hg =>
    exact (leads_set rfl).bind fun _ τ h => leads_pure ⟨hi, hg, hl, rfl, h⟩
  next => exact leads_throw rfl
  next => exact leads_throw rfl

theorem leads_addAction (s : ScopeId) (a : CloseAction) :
    (ScopeId.addAction s a).Leads ctx σ
      (fun _ τ => σ.checkUsable ctx.caller s = .ok () ∧ τ = σ.addAction s a) (· = σ) := by
  refine (leads_checkUsable (P := fun _ τ => σ = τ ∧ σ.checkUsable ctx.caller s = .ok ())
    (Q := (· = σ)) (fun h => ⟨rfl, h⟩) rfl).bind ?_
  intro _ _ h
  obtain ⟨rfl, hu⟩ := h
  exact leads_modify ⟨hu, rfl⟩

theorem leads_acquire (s : ScopeId) :
    (acquire s).Leads ctx σ
      (fun _ τ => σ.checkUsable ctx.caller s = .ok () ∧ τ = σ.pin s) (· = σ) := by
  refine (leads_checkUsable (P := fun _ τ => σ = τ ∧ σ.checkUsable ctx.caller s = .ok ())
    (Q := (· = σ)) (fun h => ⟨rfl, h⟩) rfl).bind ?_
  intro _ _ h
  obtain ⟨rfl, hu⟩ := h
  exact leads_modify ⟨hu, rfl⟩

end ScopeId
end ScopedMemory
