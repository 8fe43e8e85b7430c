import ScopedMemory.Proofs.Refusal.Inspection
import ScopedMemory.Proofs.Variadic.Copying

namespace ScopedMemory

/-! ### What errors are known to say -/

/-- Of errors that are about the arguments alone, or say nothing that could be false, `E` has all
that are true. -/
structure MemoryError.Plain (E : MemoryError → Prop) : Prop where
  mismatch {expected actual} (h : expected ≠ actual) : E (.layoutMismatch expected actual)
  bounds {offset length size : Word} (h : size.toNat < offset.toNat + length.toNat) :
    E (.outOfBounds offset length size)
  argument (reason : String) : E (.invalidArgument reason)
  memory (requested available : Word) : E (.outOfMemory requested available)
  unsupported (reason : String) : E (.unsupported reason)

/-- Whatever keeps the thread from using the scope is in `E`. -/
def Store.Tells (σ : Store) (t : Thread) (E : MemoryError → Prop) (s : ScopeId) : Prop :=
  ∀ e, σ.checkUsable t s = .error e → E e

/-- A span of the region that leaves the address space is in `E`. -/
def Region.Tells (E : MemoryError → Prop) (r : Region) : Prop :=
  ∀ offset length : Word,
    0x10000000000000000 ≤ r.start.toNat + offset.toNat + length.toNat →
      E (.outOfBounds offset length r.size)

/-- Whatever keeps the thread from a span of the region is in `E`. -/
structure Region.Told (r : Region) (σ : Store) (t : Thread) (E : MemoryError → Prop) : Prop where
  scope : r.scope < σ.scopes.length
  usable : σ.Tells t E r.scope
  span : r.Tells E

variable {α β : Type} {E : MemoryError → Prop} {ctx : Context} {σ τ : Store} {s : ScopeId}
  {t : Thread} {r src : Region} {offset length : Word} {e : MemoryError}

theorem Store.tells_of_usable (h : σ.checkUsable t s = .ok ()) : σ.Tells t E s :=
  fun e he => by cases h.symm.trans he

theorem Store.Tells.extends (h : σ.Tells t E s) (hx : σ.Extends τ) (hs : s < σ.scopes.length) :
    τ.Tells t E s := fun e he => h e ((hx.checkUsable hs t).symm.trans he)

theorem Region.Told.later (h : r.Told σ t E) (hx : σ.Extends τ) : r.Told τ t E where
  scope := Nat.lt_of_lt_of_le h.scope hx.scopes
  usable := h.usable.extends hx h.scope
  span := h.span

/-! ### Checks -/

section

variable (hE : MemoryError.Plain E)
include hE

theorem Region.Fits.tells (h : r.Fits) : r.Tells E := fun offset length he => by
  have hend := fits_iff.mp h
  exact hE.bounds (by omega)

theorem Region.Tells.checkSpan (h : r.Tells E) (he : r.checkSpan offset length = .error e) :
    E e := by
  rw [checkSpan_eq] at he
  split at he
  next => cases he
  next hn =>
    cases he
    by_cases hsize : r.size.toNat < offset.toNat + length.toNat
    · exact hE.bounds hsize
    · refine h offset length ?_
      unfold Spans at hn
      omega

theorem Region.Tells.checkBuffer (h : r.Tells E) {n : Nat} (hn : n < 0x10000000000000000)
    (he : r.checkBuffer offset n = .error e) : E e := by
  unfold Region.checkBuffer at he
  rw [if_pos hn] at he
  exact h.checkSpan hE he

theorem Region.Told.checkAccess (h : r.Told σ t E)
    (he : σ.checkAccess t r offset length = .error e) : E e := by
  rw [Store.checkAccess_eq] at he
  split at he
  next => exact h.span.checkSpan hE he
  next hu =>
    cases he
    exact h.usable e hu

theorem Carrier.tells_check {c : Carrier} {l : Layout} {w : AddressWidth}
    (he : c.check l w = .error e) : E e := by
  unfold check at he
  dsimp only at he
  split at he
  next size _ =>
    split at he
    next =>
      unfold checkSize at he
      split at he
      next => cases he
      next hne =>
        cases he
        exact hE.mismatch hne
    next =>
      cases he
      exact hE.argument _
  next =>
    split at he
    next => cases he
    next =>
      cases he
      exact hE.argument _

theorem Region.tells_addressWidth {l : Layout} (he : addressWidth l = .error e) : E e := by
  unfold addressWidth at he
  split at he
  next =>
    cases he
    exact hE.argument _
  next =>
    split at he
    next => cases he
    next =>
      split at he
      next => cases he
      next =>
        cases he
        exact hE.unsupported _

theorem Address.tells_encode {w : AddressWidth} {o : ByteOrder} {a : Word}
    (he : Address.encode w o a = .error e) : E e := by
  unfold Address.encode at he
  split at he
  next => cases he
  next =>
    split at he
    next => cases he
    next =>
      cases he
      exact hE.argument _

theorem Layout.tells_ofSequence {count : Word} {element : Layout}
    (he : Layout.ofSequence count element = .error e) : E e := by
  unfold Layout.ofSequence at he
  split at he
  next => cases he
  next =>
    cases he
    exact hE.argument _

theorem Convention.tells_classifyStruct {c : Convention} {l : Layout}
    (he : c.classifyStruct l = .error e) : E e := by
  unfold Convention.classifyStruct at he
  dsimp only at he
  split at he
  next =>
    cases he
    exact hE.unsupported _
  next =>
    split at he
    next => cases he
    next =>
      cases he
      exact hE.unsupported _

theorem tells_checkRequest {size align : Word} (he : checkRequest size align = .error e) :
    E e := by
  unfold checkRequest at he
  split at he
  next =>
    cases he
    exact hE.argument _
  next =>
    split at he
    next => cases he
    next =>
      cases he
      exact hE.argument _

theorem ArenaConfig.tells_validate {c : ArenaConfig} (he : c.validate = .error e) : E e := by
  unfold ArenaConfig.validate at he
  split at he
  next =>
    cases he
    exact hE.argument _
  next =>
    split at he
    next => cases he
    next =>
      cases he
      exact hE.argument _

end

/-! ### Operations -/

namespace Operation

variable {x : Operation α} {f : α → Operation β} {P : α → Store → Prop} {Q : Store → Prop}

/-- Whatever the operation fails with is in `E`. -/
def Tells (x : Operation α) (ctx : Context) (σ : Store) (E : MemoryError → Prop) : Prop :=
  ∀ e τ, x.run ctx σ = .error e τ → E e

theorem Tells.bind (hx : x.Tells ctx σ E) (hl : x.Leads ctx σ P Q)
    (hf : ∀ a τ, P a τ → (f a).Tells ctx τ E) : (x >>= f).Tells ctx σ E := by
  intro e τ he
  rw [run_bind] at he
  cases hr : x.run ctx σ with
  | ok a ρ =>
    rw [hr] at he
    exact hf a ρ (hl.ok hr) e τ he
  | error =>
    rw [hr] at he
    cases he
    exact hx e τ hr

/-- As `Tells.bind`, where nothing has to be known of the value. -/
theorem Tells.then (hx : x.Tells ctx σ E) (hf : ∀ a τ, (f a).Tells ctx τ E) :
    (x >>= f).Tells ctx σ E :=
  hx.bind (P := fun _ _ => True) (leads_run.imp (fun _ _ _ => trivial) fun _ h => h) fun a τ _ =>
    hf a τ

theorem tells_pure (a : α) : (pure a : Operation α).Tells ctx σ E := nofun

theorem tells_throw (h : E e) : (throw e : Operation α).Tells ctx σ E := fun _ _ he => by
  cases he
  exact h

theorem tells_require {c : Except MemoryError α} (h : ∀ e, c = .error e → E e) :
    (require c).Tells ctx σ E := by
  intro e τ he
  cases c with
  | ok a => cases he
  | error =>
    cases he
    exact h e rfl

theorem tells_require_bind {c : Except MemoryError α} (h : ∀ e, c = .error e → E e)
    (hf : ∀ a, c = .ok a → (f a).Tells ctx σ E) : (require c >>= f).Tells ctx σ E :=
  (tells_require h).bind (P := fun a τ => c = .ok a ∧ τ = σ) (Q := fun _ => True)
    (leads_require (fun _ hc => ⟨hc, rfl⟩) trivial) fun a _ h => h.2 ▸ hf a h.1

theorem tells_checkUsable (h : σ.Tells ctx.caller E s) : (checkUsable s).Tells ctx σ E :=
  tells_require h

theorem tells_checkUsable_bind {g : Unit → Operation β} (h : σ.Tells ctx.caller E s)
    (hg : σ.checkUsable ctx.caller s = .ok () → (g ()).Tells ctx σ E) :
    (checkUsable s >>= g).Tells ctx σ E :=
  (tells_checkUsable h).bind (P := fun _ τ => σ.checkUsable ctx.caller s = .ok () ∧ τ = σ)
    (Q := fun _ => True) (leads_checkUsable (fun hu => ⟨hu, rfl⟩) trivial) fun _ _ h =>
      h.2 ▸ hg h.1

theorem tells_get_bind {g : Store → Operation β} (h : (g σ).Tells ctx σ E) :
    ((get : Operation Store) >>= g).Tells ctx σ E := h

theorem tells_set : (set τ : Operation PUnit).Tells ctx σ E := nofun

theorem tells_modify {g : Store → Store} : (modify g : Operation PUnit).Tells ctx σ E := nofun

theorem Leads.tells (h : x.Leads ctx σ P fun _ => False) : x.Tells ctx σ E :=
  fun _ _ he => (h.error he).elim

/-- An attempt keeps what the operation fails with. -/
theorem Tells.attempt (hx : x.Tells ctx σ E) (hl : x.Leads ctx σ (fun _ τ => Q τ) Q) :
    (attempt x).Leads ctx σ (fun outcome τ => (∀ e, outcome = .error e → E e) ∧ Q τ)
      fun _ => False := by
  unfold Leads run Operation.attempt
  cases hr : x ctx σ with
  | ok a τ => exact ⟨nofun, hl.ok hr⟩
  | error e τ =>
    refine ⟨fun fault he => ?_, hl.error hr⟩
    cases he
    exact hx e τ hr

end Operation

open Operation

/-! ### Regions -/

namespace Region

theorem tells_ofAddress {start : Word} (hs : σ.Tells ctx.caller E s) :
    (ofAddress start length s).Tells ctx σ E :=
  (tells_checkUsable hs).then fun _ _ => tells_pure _

variable (hE : MemoryError.Plain E) (hr : r.Told σ ctx.caller E)
include hE hr

theorem tells_slice : (r.slice offset length).Tells ctx σ E := by
  intro e τ he
  rw [run_slice] at he
  split at he
  next => cases he
  next hc =>
    cases he
    exact hr.checkAccess hE hc

theorem tells_sliceFrom : (r.sliceFrom offset).Tells ctx σ E := by
  unfold sliceFrom
  split
  next => exact tells_slice hE hr
  next hn =>
    refine tells_throw (hE.bounds ?_)
    unfold Word.sub? at hn
    split at hn
    next => cases hn
    next h =>
      rw [UInt64.toNat_zero]
      omega

theorem tells_read : (r.read offset length).Tells ctx σ E := by
  intro e τ he
  rw [run_read] at he
  split at he
  next => cases he
  next hc =>
    cases he
    exact hr.checkAccess hE hc

theorem tells_write {bytes : Bytes} (hn : bytes.length < 0x10000000000000000) :
    (r.write offset bytes).Tells ctx σ E := by
  intro e τ he
  rw [run_write, Store.checkWrite_eq] at he
  split at he
  next => cases he
  next hc =>
    cases he
    split at hc
    next => exact hr.span.checkBuffer hE hn hc
    next hu =>
      cases hc
      exact hr.usable e hu

theorem tells_fill (value : UInt8) : (r.fill value).Tells ctx σ E := by
  intro e τ he
  rw [run_fill] at he
  split at he
  next => cases he
  next hc =>
    cases he
    exact hr.checkAccess hE hc

theorem tells_copyFrom (hsrc : src.Told σ ctx.caller E) :
    (r.copyFrom src).Tells ctx σ E := by
  intro e τ he
  rw [run_copyFrom] at he
  split at he
  next hc =>
    cases he
    exact hsrc.checkAccess hE hc
  next =>
    split at he
    next hc =>
      cases he
      exact hr.checkAccess hE hc
    next => cases he

theorem tells_contents : r.contents.Tells ctx σ E := by
  unfold contents
  split
  next =>
    rw [← bind_pure_comp]
    exact (tells_read hE hr).then fun _ _ => tells_pure _
  next => exact tells_pure _

theorem tells_get {t : ScalarType} {l : Layout} : (r.get t l offset).Tells ctx σ E :=
  tells_require_bind (fun _ => Carrier.tells_check hE) fun _ _ =>
    (tells_read hE hr).then fun _ _ => tells_pure _

theorem tells_set {l : Layout} {x : Scalar} : (r.set l offset x).Tells ctx σ E := by
  refine tells_require_bind (fun _ => Carrier.tells_check hE) fun _ _ => tells_write hE hr ?_
  have hsize : ∀ t : ScalarType, t.size < 0x10000000000000000 := fun t => by cases t <;> decide
  rw [Scalar.length_encode]
  exact hsize x.type

theorem tells_getAddress {l : Layout} : (r.getAddress l offset).Tells ctx σ E :=
  tells_require_bind (fun _ => tells_addressWidth hE) fun _ _ =>
    (tells_read hE hr).then fun _ _ => tells_pure _

theorem tells_setAddress {l : Layout} {a : Word} : (r.setAddress l offset a).Tells ctx σ E := by
  refine tells_require_bind (fun _ => tells_addressWidth hE) fun w _ =>
    tells_require_bind (fun _ => Address.tells_encode hE) fun bytes hb => tells_write hE hr ?_
  have hlength : bytes.length = w.bytes := by
    unfold Address.encode at hb
    split at hb
    next =>
      cases hb
      exact ByteOrder.length_encode ..
    next =>
      split at hb
      next =>
        cases hb
        exact ByteOrder.length_encode ..
      next => cases hb
  rw [hlength]
  cases w <;> decide

end Region
end ScopedMemory
