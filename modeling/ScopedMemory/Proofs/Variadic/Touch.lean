import ScopedMemory.Proofs.Arena.Touch
import ScopedMemory.Proofs.Scope.Lookup
import ScopedMemory.Proofs.Variadic.List
import ScopedMemory.Session.Variadics

namespace ScopedMemory

open Operation

variable {system : SystemAllocator} {strict : Prop} {waiting : List Block} {G : List Region}
  {ctx : Context} {σ τ : Store}

theorem Allocator.Gives.inside {w : Allocator} {size align : Word} {r : Region}
    (h : w.Gives system ctx σ size align r τ) (hsep : system.Separate)
    (hs : σ.Sound system strict waiting) (hl : σ.Ledger G)
    (hrec : ∀ r₀, w = .recycling r₀ → r₀.Inside σ) : r.Inside τ := by
  by_cases hf : w.IsFresh
  · refine (h.changes.ledger hsep hs hl).inside r (List.mem_append_right _ ?_)
    rw [grants_of_isFresh hf]
    exact List.mem_singleton.mpr rfl
  · cases w with
    | recycling r₀ =>
      obtain ⟨hsp, rfl⟩ := h.recycled r₀ rfl
      exact ((hrec r₀ rfl).later h.changes.extends.toLater).narrow hsp
    | _ => exact absurd trivial hf

namespace VariadicList

variable {v : VariadicList}

theorem touches_readSlot {α : Type} {carrier : Carrier} {l : Layout}
    {decode : Cursor → Region → Operation α}
    (hd : ∀ c, v.cursor = some c → c.remaining.Spans 0 v.convention.slotSize →
      (decode c (c.remaining.narrow 0 v.convention.slotSize)).Touches ctx σ) :
    (v.readSlot carrier l decode).Touches ctx σ := by
  unfold readSlot requireCursor
  cases hc : v.cursor with
  | none => exact touches_throw _
  | some c =>
    refine touches_bind_require fun _ _ => ?_
    refine (Region.touches_slice _ _).bind Region.leads_slice fun slot τ hslot => ?_
    obtain ⟨ha, rfl, rfl⟩ := hslot
    refine (hd c hc (Store.checkAccess_eq_ok_iff.mp ha).2).seq fun x τ => ?_
    exact ((Region.touches_sliceFrom _).seq fun _ _ => touches_pure _).seq fun _ _ =>
      touches_pure _

def Inside (v : VariadicList) (σ : Store) : Prop :=
  ∀ c, v.cursor = some c → c.remaining.Inside σ ∧ c.foreign = false

theorem touches_readScalar (hs : σ.Sound system strict waiting) (hv : v.Inside σ)
    (t : ScalarType) (l : Layout) : (v.readScalar t l).Touches ctx σ :=
  touches_readSlot fun c hc hsp => Region.touches_get hs ((hv c hc).1.narrow hsp) t l 0

theorem touches_readAddress (hs : σ.Sound system strict waiting) (hv : v.Inside σ)
    (l : Layout) : (v.readAddress l).Touches ctx σ :=
  touches_readSlot fun c hc hsp => Region.touches_getAddress hs ((hv c hc).1.narrow hsp) l 0

theorem touches_readAs (hs : σ.Sound system strict waiting) (hv : v.Inside σ) (l : Layout)
    (type : ArgumentType) : (v.readAs l type).Touches ctx σ := by
  cases type with
  | address => exact (touches_readAddress hs hv l).seq fun _ _ => touches_pure _
  | _ => exact (touches_readScalar hs hv _ l).seq fun _ _ => touches_pure _

theorem touches_resolve (s : ScopeId) (start length : Word) :
    (s.resolve start length).Touches ctx σ := by
  refine touches_bind_checkUsable fun _ => touches_bind_get (fun _ => rfl) ?_
  split
  next => exact touches_pure _
  next => exact touches_pure _

theorem touches_structSource (hs : σ.Sound system strict waiting) (l : Layout) (c : Cursor)
    {slot : Region} (hslot : slot.Inside σ) : (v.structSource l c slot).Touches ctx σ := by
  refine touches_bind_require fun cls _ => ?_
  split
  next =>
    refine (Region.touches_getAddress hs hslot _ _).seq fun start τ => ?_
    refine (touches_resolve _ _ _).seq fun r? τ => ?_
    split
    next => exact touches_pure _
    next =>
      split
      next => exact Region.touches_ofAddress _ _ _
      next => exact touches_throw _
  next => exact Region.touches_slice _ _

/-- A struct lies in its slot or in a block of the scope of the list. -/
theorem leads_structSource_inside {c : Cursor} (hc : c.foreign = false) (l : Layout)
    {slot : Region} (hslot : slot.Inside σ) :
    (v.structSource l c slot).Leads ctx σ (fun src τ => τ = σ ∧ src.Inside σ) (· = σ) := by
  refine (leads_require (P := fun _ τ => τ = σ) (Q := (· = σ)) (fun _ _ => rfl) rfl).bind ?_
  intro cls τ hτ
  subst hτ
  split
  next =>
    refine Region.leads_getAddress.bind fun start ρ h => ?_
    obtain ⟨_, _, _, _, rfl⟩ := h
    refine (leads_resolve _ _ _).bind fun r? ρ' h => ?_
    obtain ⟨rfl, hr⟩ := h
    split
    next r =>
      obtain ⟨hu, rfl, ho⟩ := hr r rfl
      exact leads_pure ⟨rfl, ho.inside (Store.checkUsable_eq_ok_iff.mp hu).2⟩
    next =>
      rw [hc]
      exact leads_throw rfl
  next =>
    refine Region.leads_slice.imp (fun src ρ h => ?_) fun _ h => h
    obtain ⟨ha, rfl, rfl⟩ := h
    exact ⟨rfl, hslot.narrow (Store.checkAccess_eq_ok_iff.mp ha).2⟩

theorem touches_readSegment (hsep : system.Separate) (hs : σ.Sound system strict waiting)
    (hl : σ.Ledger G) (hw : ctx.system.Within system) (hv : v.Inside σ) {w : Allocator}
    (hk : w.Known σ) (hrec : ∀ r₀, w = .recycling r₀ → r₀.Inside σ) (l : Layout) :
    (v.readSegment l w).Touches ctx σ := by
  refine touches_readSlot fun c hc hsp => ?_
  have hslot := (hv c hc).1.narrow hsp
  refine (touches_structSource hs l c hslot).bind (leads_structSource_inside (hv c hc).2 l hslot)
    fun src τ h => ?_
  obtain ⟨rfl, hsrc⟩ := h
  refine (Allocator.touches_allocate w l.size l.align).bind
    (Allocator.leads_allocate hs hw hk l.size l.align) fun copy ρ hg => ?_
  refine (Region.touches_copyFrom (hg.changes.sound hs) (hg.inside hsep hs hl hrec) ?_).seq
    fun _ _ => touches_pure _
  exact hsrc.later hg.changes.extends.toLater

end VariadicList
end ScopedMemory
