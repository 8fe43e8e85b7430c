import ScopedMemory.Proofs.Arena.Touch

namespace ScopedMemory

open Operation

variable {ctx : Context} {σ : Store}

namespace Operation

variable {α β : Type} {x : Operation α} {f : α → Operation β}

/-- When the operation succeeds it succeeds with any other memory too, and gives the same. The bytes
in which the two memories agreed are still the same afterwards. -/
def Blind (x : Operation α) (ctx : Context) (σ : Store) : Prop :=
  ∀ m a τ, x.run ctx σ = .ok a τ → ∃ m', x.run ctx (σ.setMemory m) = .ok a (τ.setMemory m') ∧
    ∀ y, m.byte y = σ.memory.byte y → m'.byte y = τ.memory.byte y

theorem Blind.bind (hx : x.Blind ctx σ) (hf : ∀ a τ, (f a).Blind ctx τ) :
    (x >>= f).Blind ctx σ := by
  intro m b ρ hr
  rw [run_bind] at hr
  cases hx' : x.run ctx σ with
  | error e τ =>
    rw [hx'] at hr
    cases hr
  | ok a τ =>
    rw [hx'] at hr
    obtain ⟨m₁, h₁, hm₁⟩ := hx m a τ hx'
    obtain ⟨m₂, h₂, hm₂⟩ := hf a τ m₁ b ρ hr
    refine ⟨m₂, ?_, fun y hy => hm₂ y (hm₁ y hy)⟩
    rw [run_bind, h₁]
    exact h₂

/-- An operation that does no more than a check does. -/
theorem blind_still {c : Except MemoryError α}
    (h : ∀ m, x.run ctx (σ.setMemory m) = (require c).run ctx (σ.setMemory m)) :
    x.Blind ctx σ := by
  intro m a τ hr
  have hown : x.run ctx σ = (require c).run ctx σ := h σ.memory
  rw [hown] at hr
  cases c with
  | ok b =>
    cases hr
    exact ⟨m, h m, fun y hy => hy⟩
  | error e => cases hr

theorem blind_pure (a : α) : (pure a : Operation α).Blind ctx σ :=
  blind_still (c := .ok a) fun _ => rfl

theorem blind_throw (e : MemoryError) : (throw e : Operation α).Blind ctx σ :=
  blind_still (c := .error e) fun _ => rfl

theorem blind_require (c : Except MemoryError α) : (require c).Blind ctx σ :=
  blind_still fun _ => rfl

theorem blind_checkUsable (s : ScopeId) : (checkUsable s).Blind ctx σ :=
  blind_still (c := σ.checkUsable ctx.caller s) fun _ => rfl

/-- What goes on in the same way with any memory. -/
theorem blind_bind_get {f : Store → Operation β} (hf : ∀ m, f (σ.setMemory m) = f σ)
    (h : (f σ).Blind ctx σ) : ((get : Operation Store) >>= f).Blind ctx σ := by
  intro m b τ hr
  obtain ⟨m', hrun, hm'⟩ := h m b τ hr
  refine ⟨m', ?_, hm'⟩
  rw [run_bind, run_get]
  simp only [hf, hrun]

/-- A change of the store that leaves its memory alone. -/
theorem blind_modify {g : Store → Store} (hg : ∀ m, g (σ.setMemory m) = (g σ).setMemory m)
    (hm : (g σ).memory = σ.memory) : (modify g : Operation PUnit).Blind ctx σ := by
  intro m a τ hr
  cases hr
  refine ⟨m, ?_, fun y hy => by rw [hy, hm]⟩
  rw [run_modify, hg]

end Operation

theorem Region.blind_slice (r : Region) (offset length : Word) :
    (r.slice offset length).Blind ctx σ :=
  (blind_checkUsable _).bind fun _ _ => (blind_require _).bind fun _ _ => blind_pure _

theorem ScopeId.blind_create (kind : ScopeKind) : (ScopeId.create kind).Blind ctx σ := by
  unfold ScopeId.create
  split
  next => exact blind_pure _
  next =>
    intro m s τ hr
    cases hr
    exact ⟨m, rfl, fun _ hy => hy⟩

theorem ScopeId.blind_allocateNative (s : ScopeId) (size align : Word) :
    (ScopeId.allocateNative s size align).Blind ctx σ := by
  intro m r τ hr
  obtain ⟨hu, ha, hb, hreq, rfl⟩ := (ScopeId.leads_allocateNative s size align).ok hr
  refine ⟨m.fill r.start.toNat size.toNat 0, ?_, fun y hy => ?_⟩
  · have hu' : (σ.setMemory m).checkUsable ctx.caller s = .ok () := hu
    have hb' : ctx.system.request (σ.setMemory m).events ((σ.setMemory m).poolOf s) size align =
        some r.start := hb
    rw [hreq]
    simp only [allocateNative, run_bind, run_checkUsable, hu', run_require_ok, ha,
      not_true_eq_false, if_false, run_pure, run_get, run_read, hb', run_set]
    rfl
  · change (m.fill _ _ _).byte y = (σ.memory.fill _ _ _).byte y
    rw [Memory.byte_fill, Memory.byte_fill, hy]

namespace ArenaId

variable (a : ArenaId)

theorem blind_install (block : Region) : (a.install block).Blind ctx σ :=
  (blind_modify (fun _ => rfl) rfl).bind fun _ _ => blind_pure _

theorem blind_carve (f : Frontier) (start size : Word) : (a.carve f start size).Blind ctx σ :=
  (Region.blind_slice _ _ _).bind fun _ _ =>
    (blind_modify (fun _ => rfl) rfl).bind fun _ _ => blind_pure _

theorem blind_fit (f : Frontier) (size align left : Word) :
    (match f.fit? size align with
      | some start => a.carve f start size
      | none => throw (.outOfMemory size left) : Operation Region).Blind ctx σ := by
  split
  next => exact blind_carve a f _ size
  next => exact blind_throw _

theorem blind_allocateBounded (ar : Arena) (bytes size align : Word) :
    (a.allocateBounded ar bytes size align).Blind ctx σ := by
  unfold allocateBounded
  cases ar.frontier with
  | some f => exact blind_fit a f size align _
  | none =>
    exact (ScopeId.blind_allocateNative _ _ _).bind fun r _ =>
      (blind_install a r).bind fun f _ => blind_fit a f size align _

theorem blind_allocateUnbounded (ar : Arena) (blockSize size align : Word) :
    (a.allocateUnbounded ar blockSize size align).Blind ctx σ := by
  unfold allocateUnbounded
  split
  next => exact blind_carve a _ _ size
  next =>
    split
    next =>
      exact (ScopeId.blind_allocateNative _ _ _).bind fun r _ =>
        (blind_modify (fun _ => rfl) rfl).bind fun _ _ => blind_pure _
    next =>
      exact (ScopeId.blind_allocateNative _ _ _).bind fun r _ =>
        (blind_install a r).bind fun f _ => blind_fit a f size align _

theorem blind_counting {α : Type} {x : Operation α} (h : x.Blind ctx σ) :
    (a.counting x).Blind ctx σ := by
  intro m b τ hr
  unfold run counting at hr
  cases hx : x ctx σ with
  | error e ρ =>
    rw [hx] at hr
    cases hr
  | ok c ρ =>
    rw [hx] at hr
    cases hr
    obtain ⟨m', hrun, hm'⟩ := h m b _ hx
    refine ⟨m', ?_, hm'⟩
    unfold run counting
    unfold run at hrun
    rw [hrun]

theorem blind_allocate (size align : Word) : (a.allocate size align).Blind ctx σ := by
  refine (blind_require _).bind fun _ τ => blind_bind_get (fun _ => rfl) ?_
  refine (blind_checkUsable _).bind fun _ ρ => blind_counting a ?_
  split
  next => exact blind_allocateBounded a _ _ size align
  next => exact blind_allocateUnbounded a _ _ size align

end ArenaId

/-- Whether there is room does not depend on what is in memory, nor where. -/
theorem Allocator.blind_allocate (w : Allocator) (size align : Word) :
    (w.allocate size align).Blind ctx σ := by
  cases w with
  | direct s => exact (blind_require _).bind fun _ _ => ScopeId.blind_allocateNative s size align
  | perRequest kind =>
    exact (blind_require _).bind fun _ _ => (ScopeId.blind_create _).bind fun s _ =>
      ScopeId.blind_allocateNative s size align
  | arena a => exact ArenaId.blind_allocate a size align
  | recycling r =>
    simp only [allocate]
    split
    next => exact blind_throw _
    next => exact Region.blind_slice r 0 size

end ScopedMemory
