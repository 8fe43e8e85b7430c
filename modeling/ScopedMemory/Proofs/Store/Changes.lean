import ScopedMemory.Proofs.Operation
import ScopedMemory.Proofs.Store.Grant

namespace ScopedMemory.Store

/-- What allocations do one after another, with the regions that they hand out. Between them memory
may be written to if `writes` holds. -/
inductive Changes (system : SystemAllocator) (writes : Prop) (σ : Store) :
    List Region → Store → Prop
  | refl : Changes system writes σ [] σ
  | change {rs rs' τ ρ} (h : Changes system writes σ rs τ) (hc : Change system τ rs' ρ) :
      Changes system writes σ (rs ++ rs') ρ
  | memory {rs τ} (h : Changes system writes σ rs τ) (hw : writes) (m : Memory) :
      Changes system writes σ rs (τ.setMemory m)

variable {system : SystemAllocator} {strict writes : Prop} {waiting : List Block}
  {G rs rs' : List Region} {σ τ ρ : Store}

theorem Change.changes (h : Change system σ rs τ) : Changes system writes σ rs τ :=
  Changes.change .refl h

theorem Changes.trans (h : Changes system writes σ rs τ) (h' : Changes system writes τ rs' ρ) :
    Changes system writes σ (rs ++ rs') ρ := by
  induction h' with
  | refl => rwa [List.append_nil]
  | change _ hc ih =>
    rw [← List.append_assoc]
    exact ih.change hc
  | memory _ hw m ih => exact ih.memory hw m

theorem Changes.before (h : Changes system writes σ [] τ) (h' : Changes system writes τ rs ρ) :
    Changes system writes σ rs ρ := h.trans h'

theorem Changes.after (h : Changes system writes σ rs τ) (h' : Changes system writes τ [] ρ) :
    Changes system writes σ rs ρ := by
  have ht := h.trans h'
  rwa [List.append_nil] at ht

theorem Changes.mono {writes' : Prop} (h : Changes system writes σ rs τ) (hw : writes → writes') :
    Changes system writes' σ rs τ := by
  induction h with
  | refl => exact Changes.refl
  | change _ hc ih => exact ih.change hc
  | memory _ h m ih => exact ih.memory (hw h) m

theorem Changes.extends (h : Changes system writes σ rs τ) : σ.Extends τ := by
  induction h with
  | refl => exact Extends.refl σ
  | change _ hc ih => exact ih.trans hc.extends
  | memory _ _ m ih => exact ih.trans (extends_setMemory _ m)

theorem Changes.sound (h : Changes system writes σ rs τ) (hs : σ.Sound system strict waiting) :
    τ.Sound system strict waiting := by
  induction h with
  | refl => exact hs
  | change _ hc ih => exact hc.sound ih
  | memory _ _ m ih => exact ih.setMemory m

theorem Changes.ledger (h : Changes system writes σ rs τ) (hsep : system.Separate)
    (hs : σ.Sound system strict waiting) (hl : σ.Ledger G) : τ.Ledger (G ++ rs) := by
  induction h with
  | refl => rwa [List.append_nil]
  | change h hc ih =>
    rw [← List.append_assoc]
    exact hc.ledger hsep (h.sound hs) ih
  | memory _ _ m ih => exact ih.setMemory m

theorem Changes.byte (h : Changes system False σ rs τ) (hsep : system.Separate)
    (hs : σ.Sound system strict waiting) {x : Nat} (hx : σ.InUse x) :
    τ.memory.byte x = σ.memory.byte x := by
  induction h with
  | refl => rfl
  | change h hc ih => rw [hc.byte hsep (h.sound hs) (h.extends.inUse hx), ih]
  | memory _ hw => exact hw.elim

theorem Changes.zero (h : Changes system False σ rs τ) (hsep : system.Separate)
    (hs : σ.Sound system strict waiting) {x : Nat} (hx : τ.InUse x) (hn : ¬ σ.InUse x) :
    τ.memory.byte x = 0 := by
  induction h with
  | refl => exact absurd hx hn
  | @change rs rs' τ ρ h hc ih =>
    by_cases hx' : τ.InUse x
    · rw [hc.byte hsep (h.sound hs) hx']
      exact ih hx'
    · exact hc.zero hx hx'
  | memory _ hw => exact hw.elim

theorem Changes.clean (h : Changes system False σ rs τ) (hsep : system.Separate)
    (hs : σ.Sound system strict waiting) (hc : σ.Clean) : τ.Clean := by
  induction h with
  | refl => exact hc
  | change h hc' ih => exact hc'.clean hsep (h.sound hs) ih
  | memory _ hw => exact hw.elim

theorem Changes.blank (h : Changes system False σ rs τ) (hsep : system.Separate)
    (hs : σ.Sound system strict waiting) (hl : σ.Ledger G) (hc : σ.Clean) :
    ∀ r ∈ rs, τ.IsAlive r.scope → ∀ x, r.Has x → τ.memory.byte x = 0 := by
  induction h with
  | refl => simp
  | @change rs rs' τ ρ h hc' ih =>
    intro r hr hra x hx
    rcases List.mem_append.mp hr with hr | hr
    · have hi : r.Inside τ := (h.ledger hsep hs hl).inside r (List.mem_append_right _ hr)
      have hra' := hc'.extends.alive _ hi.1 hra
      rw [hc'.byte hsep (h.sound hs) ((h.sound hs).inUse hi hra' hx)]
      exact ih r hr hra' x hx
    · exact hc'.blank (h.sound hs) (h.clean hsep hs hc) r hr hra x hx
  | memory _ hw => exact hw.elim

theorem Change.byte_of_not_inUse (h : Change system σ rs τ) {x : Nat} (hx : ¬ τ.InUse x) :
    τ.memory.byte x = σ.memory.byte x := by
  cases h with
  | scope | arena | carve | stats => rfl
  | block | install =>
    exact Memory.byte_fill_of_not fun hb => hx ⟨_, List.mem_cons_self, hb⟩

/-- Allocations change no byte but those that they take into use. -/
theorem Changes.taken (h : Changes system False σ rs τ) (hsep : system.Separate)
    (hs : σ.Sound system strict waiting) {x : Nat}
    (hx : τ.memory.byte x ≠ σ.memory.byte x) : ¬ σ.InUse x ∧ τ.InUse x := by
  refine ⟨fun hu => hx (h.byte hsep hs hu), ?_⟩
  induction h with
  | refl => exact absurd rfl hx
  | @change rs rs' τ ρ h hc ih =>
    by_cases hn : ρ.InUse x
    · exact hn
    · rw [hc.byte_of_not_inUse hn] at hx
      exact hc.extends.inUse (ih hx)
  | memory _ hw => exact hw.elim

end ScopedMemory.Store
