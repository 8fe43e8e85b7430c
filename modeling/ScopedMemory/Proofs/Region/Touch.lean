import ScopedMemory.Proofs.Region.Access
import ScopedMemory.Proofs.Store.Change

namespace ScopedMemory

open Operation

/-- The memory is that of the store wherever a block is in use. -/
def Store.Agrees (σ : Store) (m : Memory) : Prop := ∀ x, σ.InUse x → m.byte x = σ.memory.byte x

/-- One came from `σ` with the memory `m` to `τ` with the memory `m'`. No block was freed, and every
byte that is in no block is as it was. -/
structure Store.Touched (σ τ : Store) (m m' : Memory) : Prop where
  grows : ∀ x, σ.InUse x → τ.InUse x
  agrees : τ.Agrees m'
  off : ∀ x, ¬ τ.InUse x → m'.byte x = m.byte x

theorem Store.Touched.refl {σ : Store} {m : Memory} (h : σ.Agrees m) : σ.Touched σ m m :=
  ⟨fun _ hx => hx, h, fun _ _ => rfl⟩

theorem Store.Touched.trans {σ τ ρ : Store} {m m' m'' : Memory} (h : σ.Touched τ m m')
    (h' : τ.Touched ρ m' m'') : σ.Touched ρ m m'' where
  grows x hx := h'.grows x (h.grows x hx)
  agrees := h'.agrees
  off x hx := by rw [h'.off x hx, h.off x fun hx' => hx (h'.grows x hx')]

namespace Operation

variable {α β : Type} {x : Operation α} {f : α → Operation β} {ctx : Context} {σ τ : Store}

/-- The operation looks only at bytes of blocks in use and writes to no other: with any other
bytes elsewhere it ends in the same way, and leaves those bytes alone. -/
structure Touches (x : Operation α) (ctx : Context) (σ : Store) : Prop where
  ok : ∀ m, σ.Agrees m → ∀ a τ, x.run ctx σ = .ok a τ →
    ∃ m', x.run ctx (σ.setMemory m) = .ok a (τ.setMemory m') ∧ σ.Touched τ m m'
  error : ∀ m, σ.Agrees m → ∀ e τ, x.run ctx σ = .error e τ →
    ∃ m', x.run ctx (σ.setMemory m) = .error e (τ.setMemory m') ∧ σ.Touched τ m m'

theorem Touches.bind {P : α → Store → Prop} {Q : Store → Prop} (hx : x.Touches ctx σ)
    (hl : x.Leads ctx σ P Q) (hf : ∀ a τ, P a τ → (f a).Touches ctx τ) :
    (x >>= f).Touches ctx σ := by
  constructor
  · intro m hm b ρ hr
    rw [run_bind] at hr ⊢
    cases hx' : x.run ctx σ with
    | error e τ =>
      rw [hx'] at hr
      cases hr
    | ok a τ =>
      rw [hx'] at hr
      obtain ⟨m₁, h₁, ht₁⟩ := hx.ok m hm a τ hx'
      obtain ⟨m₂, h₂, ht₂⟩ := (hf a τ (hl.ok hx')).ok m₁ ht₁.agrees b ρ hr
      refine ⟨m₂, ?_, ht₁.trans ht₂⟩
      rw [h₁]
      exact h₂
  · intro m hm e ρ hr
    rw [run_bind] at hr ⊢
    cases hx' : x.run ctx σ with
    | error e' τ =>
      rw [hx'] at hr
      cases hr
      obtain ⟨m₁, h₁, ht₁⟩ := hx.error m hm e ρ hx'
      refine ⟨m₁, ?_, ht₁⟩
      rw [h₁]
    | ok a τ =>
      rw [hx'] at hr
      obtain ⟨m₁, h₁, ht₁⟩ := hx.ok m hm a τ hx'
      obtain ⟨m₂, h₂, ht₂⟩ := (hf a τ (hl.ok hx')).error m₁ ht₁.agrees e ρ hr
      refine ⟨m₂, ?_, ht₁.trans ht₂⟩
      rw [h₁]
      exact h₂

/-- As `Touches.bind`, where what follows needs no more to be known. -/
theorem Touches.seq (hx : x.Touches ctx σ) (hf : ∀ a τ, (f a).Touches ctx τ) :
    (x >>= f).Touches ctx σ :=
  hx.bind (P := fun _ _ => True) (Q := fun _ => True)
    (leads_iff.mpr ⟨fun _ _ _ => trivial, fun _ _ _ => trivial⟩) fun a τ _ => hf a τ

/-- An operation that succeeds and does `g` to the memory. -/
theorem touches_ok {a : α} (g : Memory → Memory)
    (h : ∀ m, σ.Agrees m → x.run ctx (σ.setMemory m) = .ok a (τ.setMemory (g m)))
    (ht : ∀ m, σ.Agrees m → σ.Touched τ m (g m)) : x.Touches ctx σ := by
  have hrefl : σ.Agrees σ.memory := fun _ _ => rfl
  have hown : x.run ctx σ = .ok a (τ.setMemory (g σ.memory)) := h σ.memory hrefl
  constructor
  · intro m hm a' τ' hr
    rw [hown] at hr
    cases hr
    refine ⟨g m, h m hm, (ht m hm).grows, fun y hy => ?_, (ht m hm).off⟩
    have hy' : τ.InUse y := hy
    rw [(ht m hm).agrees y hy']
    exact ((ht σ.memory hrefl).agrees y hy').symm
  · intro m hm e τ' hr
    rw [hown] at hr
    cases hr

/-- An operation that does no more than a check does. -/
theorem touches_still {c : Except MemoryError α}
    (h : ∀ m, σ.Agrees m → x.run ctx (σ.setMemory m) = (require c).run ctx (σ.setMemory m)) :
    x.Touches ctx σ := by
  cases c with
  | ok a => exact touches_ok id h fun m hm => .refl hm
  | error e =>
    have hown : x.run ctx σ = .error e σ := h σ.memory fun _ _ => rfl
    constructor
    · intro m hm a τ hr
      rw [hown] at hr
      cases hr
    · intro m hm e' τ hr
      rw [hown] at hr
      cases hr
      exact ⟨m, h m hm, .refl hm⟩

theorem touches_pure (a : α) : (pure a : Operation α).Touches ctx σ :=
  touches_still (c := .ok a) fun _ _ => rfl

theorem touches_throw (e : MemoryError) : (throw e : Operation α).Touches ctx σ :=
  touches_still (c := .error e) fun _ _ => rfl

theorem touches_require (c : Except MemoryError α) : (require c).Touches ctx σ :=
  touches_still fun _ _ => rfl

theorem touches_checkUsable (s : ScopeId) : (checkUsable s).Touches ctx σ :=
  touches_still (c := σ.checkUsable ctx.caller s) fun _ _ => rfl

theorem touches_bind_require {c : Except MemoryError α} (h : ∀ a, c = .ok a → (f a).Touches ctx σ) :
    (require c >>= f).Touches ctx σ :=
  (touches_require c).bind (leads_require (P := fun a τ => τ = σ ∧ c = .ok a)
    (Q := fun _ => True) (fun _ hc => ⟨rfl, hc⟩) trivial) fun a _ h' => h'.1 ▸ h a h'.2

theorem touches_bind_checkUsable {s : ScopeId} {f : Unit → Operation β}
    (h : σ.checkUsable ctx.caller s = .ok () → (f ()).Touches ctx σ) :
    (checkUsable s >>= f).Touches ctx σ :=
  (touches_checkUsable s).bind (leads_checkUsable
    (P := fun _ τ => τ = σ ∧ σ.checkUsable ctx.caller s = .ok ()) (Q := fun _ => True)
    (fun hc => ⟨rfl, hc⟩) trivial) fun _ _ h' => h'.1 ▸ h h'.2

/-- What goes on in the same way with any memory. -/
theorem touches_bind_get {f : Store → Operation β} (hf : ∀ m, f (σ.setMemory m) = f σ)
    (h : (f σ).Touches ctx σ) : ((get : Operation Store) >>= f).Touches ctx σ := by
  have hrun : ∀ m, ((get : Operation Store) >>= f).run ctx (σ.setMemory m) =
      (f σ).run ctx (σ.setMemory m) := fun m => by
    rw [run_bind, run_get]
    simp only [hf]
  constructor
  · intro m hm a τ hr
    rw [hrun]
    exact h.ok m hm a τ ((hrun σ.memory).symm.trans hr)
  · intro m hm e τ hr
    rw [hrun]
    exact h.error m hm e τ ((hrun σ.memory).symm.trans hr)

/-- A change of the store that leaves memory and blocks as they are. -/
theorem touches_modify {g : Store → Store} (hg : ∀ m, g (σ.setMemory m) = (g σ).setMemory m)
    (hm : (g σ).memory = σ.memory) (he : (g σ).events = σ.events) :
    (modify g : Operation PUnit).Touches ctx σ := by
  have hu : ∀ x, (g σ).InUse x ↔ σ.InUse x := fun x => by
    unfold Store.InUse
    rw [he]
  refine touches_ok (a := ⟨⟩) (τ := g σ) id (fun m _ => ?_) fun m ha => ?_
  · rw [run_modify, hg]
    rfl
  · refine ⟨fun x hx => (hu x).mpr hx, fun x hx => ?_, fun _ _ => rfl⟩
    rw [hm]
    exact ha x ((hu x).mp hx)

theorem touches_attempt (h : x.Touches ctx σ) : (attempt x).Touches ctx σ := by
  constructor
  · intro m hm a τ hr
    unfold run attempt at hr ⊢
    cases hx : x ctx σ with
    | ok b ρ =>
      rw [hx] at hr
      cases hr
      obtain ⟨m', hm', ht⟩ := h.ok m hm b _ hx
      refine ⟨m', ?_, ht⟩
      rw [run] at hm'
      rw [hm']
    | error e ρ =>
      rw [hx] at hr
      cases hr
      obtain ⟨m', hm', ht⟩ := h.error m hm e _ hx
      refine ⟨m', ?_, ht⟩
      rw [run] at hm'
      rw [hm']
  · intro m hm e τ hr
    unfold run attempt at hr
    cases hx : x ctx σ with
    | ok b ρ =>
      rw [hx] at hr
      cases hr
    | error e ρ =>
      rw [hx] at hr
      cases hr

end Operation

/-! ### Accesses by regions -/

namespace Region

variable {system : SystemAllocator} {strict : Prop} {waiting : List Block} {ctx : Context}
  {σ : Store} {r : Region}

theorem inUse_of_check (hs : σ.Sound system strict waiting) (hi : r.Inside σ) {t : Thread}
    (hu : σ.checkUsable t r.scope = .ok ()) {x : Nat} (hx : r.Has x) : σ.InUse x :=
  hs.inUse hi (Store.checkUsable_eq_ok_iff.mp hu).2 hx

theorem read_agrees (hs : σ.Sound system strict waiting) (hi : r.Inside σ) {t : Thread}
    {offset length : Word} (hc : σ.checkAccess t r offset length = .ok ()) {m : Memory}
    (hm : σ.Agrees m) :
    m.read (r.start + offset).toNat length.toNat =
      σ.memory.read (r.start + offset).toNat length.toNat := by
  obtain ⟨hu, hsp⟩ := Store.checkAccess_eq_ok_iff.mp hc
  refine Memory.read_congr fun x h₁ h₂ => hm x (inUse_of_check hs hi hu ?_)
  exact has_narrow hsp ⟨h₁, h₂⟩

theorem touches_slice (offset length : Word) : (r.slice offset length).Touches ctx σ := by
  cases hc : σ.checkAccess ctx.caller r offset length with
  | error e =>
    refine touches_still (c := .error e) fun m _ => ?_
    rw [run_slice, Store.checkAccess_setMemory, hc, run_require_error]
  | ok u =>
    refine touches_still (c := .ok (r.narrow offset length)) fun m _ => ?_
    rw [run_slice, Store.checkAccess_setMemory, hc, run_require_ok]

theorem touches_sliceFrom (offset : Word) : (r.sliceFrom offset).Touches ctx σ := by
  unfold sliceFrom
  split
  next => exact touches_slice _ _
  next => exact touches_throw _

theorem touches_ofAddress (start length : Word) (s : ScopeId) :
    (ofAddress start length s).Touches ctx σ :=
  (touches_checkUsable s).seq fun _ _ => touches_pure _

theorem touches_read (hs : σ.Sound system strict waiting) (hi : r.Inside σ)
    (offset length : Word) : (r.read offset length).Touches ctx σ := by
  cases hc : σ.checkAccess ctx.caller r offset length with
  | error e =>
    refine touches_still (c := .error e) fun m _ => ?_
    rw [run_read, Store.checkAccess_setMemory, hc, run_require_error]
  | ok u =>
    refine touches_still (c := .ok (σ.memory.read (r.start + offset).toNat length.toNat))
      fun m hm => ?_
    rw [run_read, Store.checkAccess_setMemory, hc, run_require_ok]
    exact congrArg (EStateM.Result.ok · _) (read_agrees hs hi hc hm)

theorem touches_get (hs : σ.Sound system strict waiting) (hi : r.Inside σ) (t : ScalarType)
    (l : Layout) (offset : Word) : (r.get t l offset).Touches ctx σ := by
  refine touches_bind_require fun _ _ => ?_
  exact (touches_read hs hi _ _).seq fun _ _ => touches_pure _

theorem touches_getAddress (hs : σ.Sound system strict waiting) (hi : r.Inside σ) (l : Layout)
    (offset : Word) : (r.getAddress l offset).Touches ctx σ := by
  refine touches_bind_require fun _ _ => ?_
  exact (touches_read hs hi _ _).seq fun _ _ => touches_pure _

theorem touches_contents (hs : σ.Sound system strict waiting) (hi : r.Inside σ) :
    r.contents.Touches ctx σ := by
  unfold contents
  split
  next =>
    rw [map_eq_pure_bind]
    exact (touches_read hs hi _ _).seq fun _ _ => touches_pure _
  next => exact touches_pure _

/-- Bytes in use are written over with bytes that do not depend on others. -/
theorem touched_write (hs : σ.Sound system strict waiting) (hi : r.Inside σ) {t : Thread}
    (hu : σ.checkUsable t r.scope = .ok ()) {offset : Word} {bytes : Bytes}
    (ht : r.Takes offset bytes.length) {m : Memory} (hm : σ.Agrees m) :
    σ.Touched (σ.setMemory (σ.memory.write (r.start + offset).toNat bytes)) m
      (m.write (r.start + offset).toNat bytes) := by
  have hn : (r.start + offset).toNat = r.start.toNat + offset.toNat := by
    rw [UInt64.toNat_add, Nat.mod_eq_of_lt (by have := ht.2; omega)]
  refine ⟨fun _ hx => hx, fun x hx => ?_, fun x hx => Memory.byte_write_of_not fun hw => hx ?_⟩
  · change (m.write _ bytes).byte x = (σ.memory.write _ bytes).byte x
    rw [Memory.byte_write, Memory.byte_write, hm x hx]
  · have hlen := ht.1
    exact inUse_of_check hs hi hu ⟨by omega, by omega⟩

theorem touches_write (hs : σ.Sound system strict waiting) (hi : r.Inside σ) (offset : Word)
    (bytes : Bytes) : (r.write offset bytes).Touches ctx σ := by
  cases hc : σ.checkWrite ctx.caller r offset bytes.length with
  | error e =>
    refine touches_still (c := .error e) fun m _ => ?_
    rw [run_write, Store.checkWrite_setMemory, hc, run_require_error]
  | ok u =>
    obtain ⟨hu, ht⟩ := Store.checkWrite_eq_ok_iff.mp hc
    refine touches_ok (a := ⟨⟩) (·.write (r.start + offset).toNat bytes) (fun m _ => ?_)
      fun m hm => touched_write hs hi hu ht hm
    rw [run_write, Store.checkWrite_setMemory, hc]
    rfl

theorem touches_set (hs : σ.Sound system strict waiting) (hi : r.Inside σ) (l : Layout)
    (offset : Word) (x : Scalar) : (r.set l offset x).Touches ctx σ := by
  refine touches_bind_require fun _ _ => ?_
  exact touches_write hs hi _ _

theorem touches_setAddress (hs : σ.Sound system strict waiting) (hi : r.Inside σ) (l : Layout)
    (offset a : Word) : (r.setAddress l offset a).Touches ctx σ := by
  refine touches_bind_require fun _ _ => touches_bind_require fun _ _ => ?_
  exact touches_write hs hi _ _

theorem touches_fill (hs : σ.Sound system strict waiting) (hi : r.Inside σ) (value : UInt8) :
    (r.fill value).Touches ctx σ := by
  cases hc : σ.checkAccess ctx.caller r 0 r.size with
  | error e =>
    refine touches_still (c := .error e) fun m _ => ?_
    rw [run_fill, Store.checkAccess_setMemory, hc, run_require_error]
  | ok u =>
    obtain ⟨hu, _⟩ := Store.checkAccess_eq_ok_iff.mp hc
    refine touches_ok (a := ⟨⟩) (τ := σ.setMemory (σ.memory.fill r.start.toNat r.size.toNat value))
      (·.fill r.start.toNat r.size.toNat value) (fun m _ => ?_) fun m hm => ?_
    · rw [run_fill, Store.checkAccess_setMemory, hc]
      rfl
    · refine ⟨fun _ hx => hx, fun x hx => ?_, fun x hx => Memory.byte_fill_of_not fun hw => ?_⟩
      · change (m.fill _ _ _).byte x = (σ.memory.fill _ _ _).byte x
        rw [Memory.byte_fill, Memory.byte_fill, hm x hx]
      · exact hx (inUse_of_check hs hi hu hw)

theorem touches_copyFrom (hs : σ.Sound system strict waiting) (hi : r.Inside σ) {src : Region}
    (hsrc : src.Inside σ) : (r.copyFrom src).Touches ctx σ := by
  cases hc : σ.checkAccess ctx.caller src 0 src.size with
  | error e =>
    refine touches_still (c := .error e) fun m _ => ?_
    rw [run_copyFrom, Store.checkAccess_setMemory, hc, run_require_error]
  | ok u =>
    cases hc' : σ.checkAccess ctx.caller r 0 src.size with
    | error e =>
      refine touches_still (c := .error e) fun m _ => ?_
      rw [run_copyFrom, run_require_error]
      simp only [Store.checkAccess_setMemory, hc, hc']
    | ok u =>
      obtain ⟨hu, hsp⟩ := Store.checkAccess_eq_ok_iff.mp hc'
      have hbytes : ∀ m, σ.Agrees m → m.read src.start.toNat src.size.toNat =
          σ.memory.read src.start.toNat src.size.toNat := fun m hm => by
        have h := read_agrees hs hsrc hc hm
        rwa [UInt64.add_zero] at h
      refine touches_ok (a := ⟨⟩)
        (·.write (r.start + 0).toNat (σ.memory.read src.start.toNat src.size.toNat))
        (fun m hm => ?_) fun m hm => touched_write hs hi hu ?_ hm
      · rw [run_copyFrom]
        simp only [Store.checkAccess_setMemory, hc, hc']
        change EStateM.Result.ok _ (σ.setMemory (m.write _ (m.read _ _))) = _
        rw [hbytes m hm, UInt64.add_zero]
        rfl
      · rw [Memory.length_read]
        exact takes_toNat.mpr hsp

end Region
end ScopedMemory
