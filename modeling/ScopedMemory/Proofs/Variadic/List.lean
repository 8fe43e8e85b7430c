import ScopedMemory.Proofs.Allocator
import ScopedMemory.Variadic.Builder

namespace ScopedMemory.VariadicList

open Operation

variable {system : SystemAllocator} {strict : Prop} {waiting : List Block} {ctx : Context}
  {σ : Store} {v v' : VariadicList}

/-- What has yet to be read of the one list is at the end of what the other has. -/
def Advanced (v v' : VariadicList) : Prop :=
  ∃ c offset length, v.cursor = some c ∧ c.remaining.Spans offset length ∧
    v' = { v with cursor := some { c with remaining := c.remaining.narrow offset length } }

theorem leads_advance {c : Cursor} (hc : v.cursor = some c) (bytes : Word) :
    (v.advance c bytes).Leads ctx σ (fun v' τ => v.Advanced v' ∧ τ = σ) (· = σ) := by
  refine Region.leads_sliceFrom.bind fun r τ h => ?_
  obtain ⟨length, _, ha, hr, hτ⟩ := h
  refine leads_pure ⟨⟨c, bytes, length, hc, (Store.checkAccess_eq_ok_iff.mp ha).2, ?_⟩, hτ⟩
  rw [hr]

theorem leads_readSlot {α : Type} {carrier : Carrier} {l : Layout}
    {decode : Cursor → Region → Operation α} {P : α → Store → Prop} {Q : Store → Prop} (hQ : Q σ)
    (hd : ∀ c, v.cursor = some c → c.remaining.Spans 0 v.convention.slotSize →
      (decode c (c.remaining.narrow 0 v.convention.slotSize)).Leads ctx σ P Q)
    (hPQ : ∀ a τ, P a τ → Q τ) :
    (v.readSlot carrier l decode).Leads ctx σ (fun p τ => P p.1 τ ∧ v.Advanced p.2) Q := by
  unfold readSlot requireCursor
  cases hc : v.cursor with
  | none => exact leads_throw hQ
  | some c =>
    refine (leads_require (P := fun _ τ => σ = τ) (fun _ _ => rfl) hQ).bind fun _ τ h => ?_
    subst h
    refine Region.leads_slice.chain (fun _ h => h ▸ hQ) fun slot τ h => ?_
    obtain ⟨ha, rfl, rfl⟩ := h
    refine (hd c hc (Store.checkAccess_eq_ok_iff.mp ha).2).bind fun x τ hx => ?_
    refine (leads_advance hc _).chain (fun _ h => h ▸ hPQ x τ hx) fun v' ρ h => ?_
    obtain ⟨hv, rfl⟩ := h
    exact leads_pure ⟨hx, hv⟩

theorem leads_readScalar (t : ScalarType) (l : Layout) :
    (v.readScalar t l).Leads ctx σ (fun p τ => τ = σ ∧ v.Advanced p.2) (· = σ) := by
  refine leads_readSlot (P := fun _ τ => τ = σ) rfl (fun c hc hs => ?_) fun _ _ h => h
  exact Region.leads_get.imp (fun x τ h => h.2.2) fun _ h => h

theorem leads_readAddress (l : Layout) :
    (v.readAddress l).Leads ctx σ (fun p τ => τ = σ ∧ v.Advanced p.2) (· = σ) := by
  refine leads_readSlot (P := fun _ τ => τ = σ) rfl (fun c hc hs => ?_) fun _ _ h => h
  refine Region.leads_getAddress.imp (fun x τ h => ?_) fun _ h => h
  obtain ⟨_, _, _, _, hτ⟩ := h
  exact hτ

theorem leads_ofAddress (c : Convention) (start : Word) (s : ScopeId) :
    (ofAddress c start s).Leads ctx σ
      (fun v τ => τ = σ ∧ v.scope = s ∧ ∃ length, v.cursor = some ⟨start, ⟨start, length, s⟩, true⟩)
      (· = σ) := by
  unfold ofAddress
  by_cases h0 : start = 0
  · rw [if_pos h0]
    exact leads_throw rfl
  · rw [if_neg h0]
    refine Region.leads_ofAddress.bind fun r τ hr => ?_
    obtain ⟨_, rfl, hτ⟩ := hr
    exact leads_pure ⟨hτ, rfl, _, rfl⟩

theorem leads_resolve (s : ScopeId) (start length : Word) :
    (s.resolve start length).Leads ctx σ
      (fun r? τ => τ = σ ∧ ∀ r, r? = some r →
        σ.checkUsable ctx.caller s = .ok () ∧ r = ⟨start, length, s⟩ ∧
          (σ.scope s).Owns start length)
      (· = σ) := by
  unfold Leads ScopeId.resolve
  cases hu : σ.checkUsable ctx.caller s with
  | error e => simp [hu]
  | ok u =>
    by_cases ho : (σ.scope s).Owns start length
    · simp [hu, ho]
    · simp [hu, ho]

theorem leads_referenced (c : Cursor) (start length : Word) :
    (v.referenced c start length).Leads ctx σ (fun _ τ => τ = σ) (· = σ) := by
  refine (leads_resolve _ _ _).bind fun r? τ h => ?_
  obtain ⟨rfl, _⟩ := h
  split
  next => exact leads_pure rfl
  next =>
    split
    next => exact Region.leads_ofAddress.imp (fun _ _ h => h.2.2) fun _ h => h
    next => exact leads_throw rfl

theorem leads_structSource (l : Layout) (c : Cursor) (slot : Region) :
    (v.structSource l c slot).Leads ctx σ (fun _ τ => τ = σ) (· = σ) := by
  refine (leads_require (P := fun _ τ => τ = σ) (Q := (· = σ)) (fun _ _ => rfl) rfl).bind
    fun found τ h => ?_
  subst h
  split
  next =>
    refine Region.leads_getAddress.bind fun start τ h => ?_
    obtain ⟨_, _, _, _, rfl⟩ := h
    exact leads_referenced c start l.size
  next => exact Region.leads_slice.imp (fun _ _ h => h.2.2) fun _ h => h

theorem leads_readSegment (hs : σ.Sound system strict waiting) (hw : ctx.system.Within system)
    {w : Allocator} (hk : w.Known σ) (l : Layout) :
    (v.readSegment l w).Leads ctx σ
      (fun p τ => (∃ ρ m, w.Gives system ctx σ l.size l.align p.1 ρ ∧ τ = ρ.setMemory m) ∧
        v.Advanced p.2)
      fun τ => ∃ rs, Store.Changes system True σ rs τ := by
  have hg : ∀ r τ, (∃ ρ m, w.Gives system ctx σ l.size l.align r ρ ∧ τ = ρ.setMemory m) →
      ∃ rs, Store.Changes system True σ rs τ := by
    rintro r τ ⟨ρ, m, h, rfl⟩
    exact ⟨_, (h.changes.mono fun _ => trivial).memory trivial m⟩
  refine leads_readSlot ⟨[], .refl⟩ (fun c hc hsp => ?_) hg
  refine (leads_structSource l c _).chain (fun _ h => h ▸ ⟨[], .refl⟩) fun src σ' h => ?_
  subst h
  have hgive := Allocator.leads_allocate hs hw hk l.size l.align
  refine hgive.chain (fun τ h => ⟨[], h.mono fun _ => trivial⟩) fun copy ρ hgive => ?_
  refine Region.leads_copyFrom.chain
    (fun _ h => h ▸ ⟨_, hgive.changes.mono fun _ => trivial⟩) fun _ τ h => ?_
  obtain ⟨_, _, rfl⟩ := h
  exact leads_pure ⟨ρ, _, hgive, rfl⟩

theorem leads_skip (ls : List Layout) :
    (v.skip ls).Leads ctx σ (fun v' τ => v.Advanced v' ∧ τ = σ) (· = σ) := by
  unfold skip requireCursor
  cases hc : v.cursor with
  | none => exact leads_throw rfl
  | some c =>
    refine (leads_pure (P := fun c' τ => c' = c ∧ τ = σ) ⟨rfl, rfl⟩).bind ?_
    rintro _ _ ⟨rfl, rfl⟩
    dsimp only
    split
    next => exact leads_advance hc _
    next => exact leads_throw rfl

theorem leads_copy :
    v.copy.Leads ctx σ (fun v' τ => (v' = v ∨ v' = empty v.convention) ∧ τ = σ) (· = σ) := by
  unfold copy
  split
  next => exact leads_pure ⟨Or.inr rfl, rfl⟩
  next =>
    refine (leads_checkUsable (P := fun _ τ => τ = σ) (Q := (· = σ)) (fun _ => rfl) rfl).bind ?_
    rintro _ _ rfl
    exact leads_pure ⟨Or.inl rfl, rfl⟩

end ScopedMemory.VariadicList
