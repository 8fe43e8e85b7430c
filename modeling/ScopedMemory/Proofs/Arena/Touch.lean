import ScopedMemory.Proofs.Allocator
import ScopedMemory.Proofs.Region.Touch

namespace ScopedMemory

open Operation

variable {ctx : Context} {σ : Store}

theorem Store.touched_addBlock (s : ScopeId) (b : Block) {m : Memory} (hm : σ.Agrees m) :
    σ.Touched (σ.addBlock s b) m (m.fill b.base.toNat b.size.toNat 0) := by
  have hext := extends_addBlock σ s b
  refine ⟨fun x => hext.inUse, fun x hu => ?_, fun x hu => Memory.byte_fill_of_not fun hb => ?_⟩
  · change (m.fill _ _ _).byte x = (σ.memory.fill _ _ _).byte x
    rw [Memory.byte_fill, Memory.byte_fill]
    split
    next => rfl
    next hn =>
      obtain ⟨c, hc, hx⟩ := hu
      rcases List.mem_cons.mp hc with rfl | hc
      · exact absurd hx hn
      · exact hm x ⟨c, hc, hx⟩
  · exact hu ⟨b, List.mem_cons_self, hb⟩

theorem ScopeId.touches_allocateNative (s : ScopeId) (size align : Word) :
    (ScopeId.allocateNative s size align).Touches ctx σ := by
  refine touches_bind_checkUsable fun hu => ?_
  by_cases ha : align.IsPowerOfTwo
  · cases hb : ctx.system.request σ.events (σ.poolOf s) size align with
    | none =>
      refine touches_still (c := .error (.outOfMemory size 0)) fun m _ => ?_
      have hb' : ctx.system.request (σ.setMemory m).events ((σ.setMemory m).poolOf s) size align =
          none := hb
      simp [ha, hb']
    | some base =>
      refine touches_ok (a := ⟨base, size, s⟩) (τ := σ.addBlock s ⟨base, size⟩)
        (·.fill base.toNat size.toNat 0) (fun m _ => ?_) fun m hm => σ.touched_addBlock s _ hm
      have hb' : ctx.system.request (σ.setMemory m).events ((σ.setMemory m).poolOf s) size align =
          some base := hb
      simp only [ha, not_true_eq_false, if_false, run_bind, run_get, run_read, hb', run_set,
        run_pure]
      rfl
  · refine touches_still (c := .error (.badAlignment align)) fun m _ => ?_
    simp [ha]

theorem ScopeId.touches_create (kind : ScopeKind) : (ScopeId.create kind).Touches ctx σ := by
  unfold ScopeId.create
  split
  next => exact touches_pure _
  next =>
    refine touches_ok (a := σ.scopes.length) (τ := σ.addScope kind ctx.caller) id
      (fun m _ => rfl) fun m hm => ⟨fun _ hx => hx, hm, fun _ _ => rfl⟩

namespace ArenaId

variable (a : ArenaId)

theorem touches_install (block : Region) : (a.install block).Touches ctx σ :=
  (touches_modify (fun _ => rfl) rfl rfl).seq fun _ _ => touches_pure _

theorem touches_carve (f : Frontier) (start size : Word) :
    (a.carve f start size).Touches ctx σ := by
  refine (Region.touches_slice _ _).seq fun r τ => ?_
  exact (touches_modify (fun _ => rfl) rfl rfl).seq fun _ _ => touches_pure _

theorem touches_fit (f : Frontier) (size align left : Word) :
    (match f.fit? size align with
      | some start => a.carve f start size
      | none => throw (.outOfMemory size left) : Operation Region).Touches ctx σ := by
  split
  next => exact touches_carve a f _ size
  next => exact touches_throw _

theorem touches_allocateBounded (ar : Arena) (bytes size align : Word) :
    (a.allocateBounded ar bytes size align).Touches ctx σ := by
  unfold allocateBounded
  cases ar.frontier with
  | some f => exact touches_fit a f size align _
  | none =>
    refine (ScopeId.touches_allocateNative _ _ _).seq fun r _ => ?_
    exact (touches_install a r).seq fun f _ => touches_fit a f size align _

theorem touches_allocateUnbounded (ar : Arena) (blockSize size align : Word) :
    (a.allocateUnbounded ar blockSize size align).Touches ctx σ := by
  unfold allocateUnbounded
  split
  next => exact touches_carve a _ _ size
  next =>
    split
    next =>
      refine (ScopeId.touches_allocateNative _ _ _).seq fun r τ => ?_
      exact (touches_modify (fun _ => rfl) rfl rfl).seq fun _ _ => touches_pure _
    next =>
      refine (ScopeId.touches_allocateNative _ _ _).seq fun r _ => ?_
      exact (touches_install a r).seq fun f _ => touches_fit a f size align _

theorem touches_counting {α : Type} {x : Operation α} (h : x.Touches ctx σ) :
    (a.counting x).Touches ctx σ := by
  constructor
  · intro m hm b τ hr
    unfold run counting at hr ⊢
    cases hx : x ctx σ with
    | error e ρ =>
      rw [hx] at hr
      cases hr
    | ok c ρ =>
      rw [hx] at hr
      cases hr
      obtain ⟨m', hm', ht⟩ := h.ok m hm b _ hx
      refine ⟨m', ?_, ht⟩
      rw [run] at hm'
      rw [hm']
  · intro m hm e τ hr
    unfold run counting at hr ⊢
    cases hx : x ctx σ with
    | ok c ρ =>
      rw [hx] at hr
      cases hr
    | error e' ρ =>
      rw [hx] at hr
      cases hr
      obtain ⟨m', hm', ht⟩ := h.error m hm e _ hx
      refine ⟨m', ?_, ⟨ht.grows, ht.agrees, ht.off⟩⟩
      rw [run] at hm'
      rw [hm']
      rfl

theorem touches_allocate (size align : Word) : (a.allocate size align).Touches ctx σ := by
  refine touches_bind_require fun _ _ => touches_bind_get (fun _ => rfl) ?_
  refine touches_bind_checkUsable fun _ => touches_counting a ?_
  split
  next => exact touches_allocateBounded a _ _ size align
  next => exact touches_allocateUnbounded a _ _ size align

end ArenaId

theorem Allocator.touches_allocate (w : Allocator) (size align : Word) :
    (w.allocate size align).Touches ctx σ := by
  cases w with
  | direct s => exact touches_bind_require fun _ _ => ScopeId.touches_allocateNative s size align
  | perRequest kind =>
    refine touches_bind_require fun _ _ => ?_
    exact (ScopeId.touches_create _).seq fun s _ => ScopeId.touches_allocateNative s size align
  | arena a => exact ArenaId.touches_allocate a size align
  | recycling r =>
    simp only [allocate]
    split
    next => exact touches_throw _
    next => exact Region.touches_slice 0 size

end ScopedMemory
