import ScopedMemory.Proofs.Variadic.List

namespace ScopedMemory

open Operation

variable {system : SystemAllocator} {strict : Prop} {waiting : List Block} {ctx : Context}
  {σ : Store} {b : VariadicBuilder} {c : Convention} {a : ArenaId}

structure Argument.Accepted (arg : Argument) (c : Convention) : Prop where
  carrier : arg.value.carrier.check arg.layout c.width = .ok ()
  segment : ∀ r, arg.value = .segment r →
    r.size = arg.layout.size ∧ ∃ found, c.classifyStruct arg.layout = .ok found

namespace VariadicBuilder

theorem leads_create (c : Convention) (s : ScopeId) :
    (create c s).Leads ctx σ
      (fun b τ => σ.checkUsable ctx.caller s = .ok () ∧ b = ⟨c, s, []⟩ ∧ τ = σ) (· = σ) := by
  refine (leads_checkUsable (P := fun _ τ => τ = σ ∧ σ.checkUsable ctx.caller s = .ok ())
    (Q := (· = σ)) (fun h => ⟨rfl, h⟩) rfl).bind ?_
  rintro _ _ ⟨rfl, hu⟩
  exact leads_pure ⟨hu, rfl, rfl⟩

theorem leads_checkSegment (l : Layout) (r : Region) :
    (b.checkSegment l r).Leads ctx σ
      (fun _ τ => τ = σ ∧ r.size = l.size ∧ (∃ found, b.convention.classifyStruct l = .ok found) ∧
        σ.checkUsable ctx.caller r.scope = .ok ())
      (· = σ) := by
  unfold Leads checkSegment
  by_cases hsize : r.size = l.size
  · cases hc : b.convention.classifyStruct l with
    | error e => simp [hsize]
    | ok found => cases hu : σ.checkUsable ctx.caller r.scope <;> simp [hsize, hu]
  · simp [hsize]

theorem leads_push (l : Layout) (v : ArgumentValue) :
    (b.push l v).Leads ctx σ
      (fun b' τ => τ = σ ∧ b' = { b with arguments := b.arguments ++ [⟨l, v⟩] } ∧
        Argument.Accepted ⟨l, v⟩ b.convention)
      (· = σ) := by
  refine (leads_require (P := fun _ τ => τ = σ ∧ v.carrier.check l b.convention.width = .ok ())
    (Q := (· = σ)) (fun _ h => ⟨rfl, h⟩) rfl).bind ?_
  rintro _ _ ⟨rfl, hc⟩
  cases v with
  | segment r =>
    refine (leads_checkSegment l r).bind ?_
    rintro _ _ ⟨rfl, hsize, hf, _⟩
    refine leads_pure ⟨rfl, rfl, hc, fun r' h => ?_⟩
    cases h
    exact ⟨hsize, hf⟩
  | _ => exact leads_pure ⟨rfl, rfl, hc, fun _ h => by cases h⟩

/-- All arguments are there, in the order in which they were added. -/
theorem leads_pushes (args : List (Layout × ArgumentValue)) (b : VariadicBuilder) :
    (args.foldlM (fun b arg => b.push arg.1 arg.2) b : Operation VariadicBuilder).Leads ctx σ
      (fun b' τ => τ = σ ∧
        b' = { b with arguments := b.arguments ++ args.map fun arg => ⟨arg.1, arg.2⟩ } ∧
        ∀ arg ∈ args, Argument.Accepted ⟨arg.1, arg.2⟩ b.convention)
      (· = σ) := by
  induction args generalizing b with
  | nil => exact leads_pure ⟨rfl, by simp, nofun⟩
  | cons arg args ih =>
    rw [List.foldlM_cons]
    refine (leads_push arg.1 arg.2).bind fun b' τ h => ?_
    obtain ⟨rfl, rfl, ha⟩ := h
    refine (ih _).imp (fun b'' ρ h => ?_) fun _ h => h
    obtain ⟨rfl, rfl, hall⟩ := h
    exact ⟨rfl, by simp, List.forall_mem_cons.mpr ⟨ha, hall⟩⟩

theorem leads_writeSlot (hs : σ.Sound system strict waiting) (hw : ctx.system.Within system)
    (ha : a < σ.arenas.length) (slot : Region) (arg : Argument) :
    (writeSlot c a slot arg).Leads ctx σ (fun _ τ => ∃ rs, Store.Changes system True σ rs τ)
      fun τ => ∃ rs, Store.Changes system True σ rs τ := by
  have hm : ∀ m, ∃ rs, Store.Changes system True σ rs (σ.setMemory m) := fun m =>
    ⟨[], Store.Changes.refl.memory trivial m⟩
  have hr : ∀ τ, τ = σ → ∃ rs, Store.Changes system True σ rs τ := fun τ h => h ▸ ⟨[], .refl⟩
  have hset : ∀ x, (slot.set arg.layout 0 x).Leads ctx σ
      (fun _ τ => ∃ rs, Store.Changes system True σ rs τ)
      fun τ => ∃ rs, Store.Changes system True σ rs τ := by
    intro x
    refine Region.leads_set.imp (fun _ τ h => ?_) hr
    rw [h.2.2]
    exact hm _
  unfold writeSlot
  split
  next x _ => exact hset ⟨.i32, x⟩
  next x _ => exact hset ⟨.i64, x⟩
  next x _ => exact hset ⟨.f64, x⟩
  next x _ =>
    refine Region.leads_setAddress.imp (fun _ τ h => ?_) hr
    obtain ⟨_, _, _, rfl⟩ := h
    exact hm _
  next src _ =>
    refine (leads_require (P := fun _ τ => τ = σ) (fun _ _ => rfl) (hr σ rfl)).bind ?_
    intro found τ h
    subst h
    split
    next =>
      have hg := Allocator.leads_allocate (w := .arena a) hs hw (fun _ h => by cases h; exact ha)
        arg.layout.size arg.layout.align
      refine hg.chain (fun τ h => ⟨[], h.mono fun _ => trivial⟩) fun copy ρ hgive => ?_
      have hch : Store.Changes system True _ _ ρ := hgive.changes.mono fun _ => trivial
      refine Region.leads_copyFrom.chain (fun _ h => h ▸ ⟨_, hch⟩) fun _ ρ' h => ?_
      obtain ⟨_, _, rfl⟩ := h
      refine Region.leads_setAddress.imp (fun _ τ h => ?_) fun τ h => ?_
      · obtain ⟨_, _, _, rfl⟩ := h
        exact ⟨_, (hch.memory trivial _).memory trivial _⟩
      · rw [h]
        exact ⟨_, hch.memory trivial _⟩
    next =>
      refine Region.leads_slice.chain hr fun slot' τ' h => ?_
      obtain ⟨_, rfl, rfl⟩ := h
      refine Region.leads_copyFrom.imp (fun _ τ h => ?_) hr
      rw [h.2.2]
      exact hm _

theorem leads_writeSlots (hs : σ.Sound system strict waiting) (hw : ctx.system.Within system)
    (ha : a < σ.arenas.length) (buffer : Region) (index : Nat) (args : List Argument) :
    (writeSlots c a buffer index args).Leads ctx σ
      (fun _ τ => ∃ rs, Store.Changes system True σ rs τ)
      fun τ => ∃ rs, Store.Changes system True σ rs τ := by
  induction args generalizing σ index with
  | nil => exact leads_pure ⟨[], .refl⟩
  | cons arg args ih =>
    refine Region.leads_slice.chain (fun τ h => h ▸ ⟨[], .refl⟩) fun slot τ h => ?_
    obtain ⟨_, _, rfl⟩ := h
    refine (leads_writeSlot hs hw ha slot arg).bind fun _ τ h => ?_
    obtain ⟨rs, h⟩ := h
    have hrest := ih (h.sound hs) (Nat.lt_of_lt_of_le ha h.extends.arenas) (index + 1)
    refine hrest.imp (fun _ ρ h' => ?_) fun ρ h' => ?_
    · obtain ⟨rs', h'⟩ := h'
      exact ⟨_, h.trans h'⟩
    · obtain ⟨rs', h'⟩ := h'
      exact ⟨_, h.trans h'⟩

/-- The list is empty, or all slots of a buffer that was handed out for it. -/
theorem leads_build (hs : σ.Sound system strict waiting) (hw : ctx.system.Within system)
    (b : VariadicBuilder) :
    b.build.Leads ctx σ
      (fun v τ => ∃ rs, Store.Changes system True σ rs τ ∧ (v = .empty b.convention ∨
        ∃ buffer ∈ rs, buffer.scope = b.scope ∧ v = .ofBuffer b.convention buffer b.scope))
      fun τ => ∃ rs, Store.Changes system True σ rs τ := by
  have hr : ∀ τ, τ = σ → ∃ rs, Store.Changes system True σ rs τ := fun τ h => h ▸ ⟨[], .refl⟩
  unfold build
  split
  next => exact leads_pure ⟨[], .refl, Or.inl rfl⟩
  next =>
    dsimp only
    split
    next => exact leads_throw (hr σ rfl)
    next size _ =>
      refine (ArenaId.leads_create _ _ _).chain hr fun a τ h => ?_
      obtain ⟨_, hu, rfl, rfl⟩ := h
      have hc : Store.Change system σ []
          (σ.addArena ⟨b.scope, .unbounded 4096, 16, none, {}⟩) :=
        .arena (Store.checkUsable_eq_ok_iff.mp hu).2 rfl
      have hch : Store.Changes system True σ [] _ := hc.changes
      have hs' := hc.sound hs
      have hl : σ.arenas.length <
          (σ.addArena ⟨b.scope, .unbounded 4096, 16, none, {}⟩).arenas.length := by simp
      have hserve := ArenaId.serves_allocate hs' hw hl size b.convention.slotSize
      refine Leads.chain hserve (fun τ h => ⟨[], hch.before (h.mono fun _ => trivial)⟩)
        fun buffer ρ h => ?_
      obtain ⟨hb, hm⟩ := h
      have hb' := hch.before (hb.mono fun _ => trivial)
      have hscope := hm.scope
      rw [Store.arena_addArena, if_pos rfl] at hscope
      have hslots := leads_writeSlots (c := b.convention) (hb.sound hs') hw
        (Nat.lt_of_lt_of_le hl hb.extends.arenas) buffer 0 b.arguments
      refine hslots.chain (fun τ h => ?_) fun _ τ h => ?_
      · obtain ⟨_, h⟩ := h
        exact ⟨_, hb'.trans h⟩
      obtain ⟨rs, h⟩ := h
      refine leads_pure ⟨_, hb'.trans h, Or.inr ⟨buffer, ?_, hscope, rfl⟩⟩
      exact List.mem_append_left _ (List.mem_singleton.mpr rfl)

end VariadicBuilder
end ScopedMemory
