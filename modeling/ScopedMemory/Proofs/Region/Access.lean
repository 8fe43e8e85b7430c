import ScopedMemory.Proofs.Operation
import ScopedMemory.Proofs.Region.Span

namespace ScopedMemory

namespace Memory

theorem byte_write_of_not {m : Memory} {start : Nat} {bytes : Bytes} {x : Nat}
    (h : ¬ (start ≤ x ∧ x < start + bytes.length)) : (m.write start bytes).byte x = m.byte x := by
  rw [byte_write]
  split
  next hs => rw [List.getElem?_eq_none (by omega), Option.getD_none]
  next => rfl

theorem byte_fill_of_not {m : Memory} {start length : Nat} {value : UInt8} {x : Nat}
    (h : ¬ (start ≤ x ∧ x < start + length)) : (m.fill start length value).byte x = m.byte x := by
  rw [byte_fill, if_neg h]

theorem read_congr {m n : Memory} {start length : Nat}
    (h : ∀ x, start ≤ x → x < start + length → m.byte x = n.byte x) :
    m.read start length = n.read start length := by
  refine List.map_congr_left fun i hi => ?_
  have := List.mem_range.mp hi
  exact h _ (by omega) (by omega)

/-- Whole bytes written within a range are what the range is read as. -/
theorem read_write (m : Memory) (start : Nat) (bytes : Bytes) :
    (m.write start bytes).read start bytes.length = bytes := by
  refine List.ext_getElem? fun i => ?_
  rw [getElem?_read, byte_write, if_pos (Nat.le_add_right _ _), Nat.add_sub_cancel_left]
  split
  next h => rw [List.getElem?_eq_getElem h, Option.getD_some]
  next h => rw [List.getElem?_eq_none (Nat.le_of_not_lt h)]

/-- What has been copied is read as it was where it was copied from. -/
theorem read_write_read (m n : Memory) (target source length : Nat) :
    (m.write target (n.read source length)).read target length = n.read source length := by
  have h := read_write m target (n.read source length)
  rwa [length_read] at h

/-- Each byte of the copy is what stood at its source before, also where the copy lies over it. -/
theorem byte_copy (m : Memory) (target source length x : Nat) :
    (m.write target (m.read source length)).byte x =
      if target ≤ x ∧ x < target + length then m.byte (source + (x - target)) else m.byte x := by
  by_cases hx : target ≤ x ∧ x < target + length
  · have hin : x - target < length := by omega
    rw [if_pos hx, byte_write, if_pos hx.1, getElem?_read, if_pos hin, Option.getD_some]
  · rw [if_neg hx]
    exact byte_write_of_not (by rwa [length_read])

theorem write_read_self (m : Memory) (start length : Nat) :
    m.write start (m.read start length) = m := by
  have hbyte : ∀ y, (m.write start (m.read start length)).byte y = m.byte y := by
    intro y
    rw [byte_copy]
    split
    next hy => rw [Nat.add_sub_cancel' hy.1]
    next => rfl
  exact congrArg Memory.mk (funext hbyte)

end Memory

namespace Region

open Operation

variable (r : Region) (offset length : Word) (ctx : Context) (σ : Store)

theorem run_ofAddress (start : Word) (s : ScopeId) :
    (ofAddress start length s).run ctx σ =
      match σ.checkUsable ctx.caller s with
      | .ok _ => .ok ⟨start, length, s⟩ σ
      | .error e => .error e σ := by
  unfold ofAddress
  cases hu : σ.checkUsable ctx.caller s <;> simp [hu]

theorem run_slice :
    (r.slice offset length).run ctx σ =
      match σ.checkAccess ctx.caller r offset length with
      | .ok _ => .ok (r.narrow offset length) σ
      | .error e => .error e σ := by
  unfold slice
  rw [Store.checkAccess_eq]
  cases hu : σ.checkUsable ctx.caller r.scope with
  | error e => simp [hu]
  | ok u => cases hs : r.checkSpan offset length <;> simp [hu]

/-- What runs under a pin and a test sees the store as it is without the pin. -/
theorem run_pinned_require {α : Type} (s : ScopeId) (check : Except MemoryError Unit)
    (value : Memory → α) (change : Memory → Memory) {body : Operation α}
    (hb : ∀ ρ : Store, body.run ctx ρ = .ok (value ρ.memory) (ρ.setMemory (change ρ.memory))) :
    (pinned s (do require check; body)).run ctx σ =
      match σ.checkUsable ctx.caller s with
      | .error e => .error e σ
      | .ok _ =>
        match check with
        | .ok _ => .ok (value σ.memory) (σ.setMemory (change σ.memory))
        | .error e => .error e σ := by
  rw [run_pinned]
  cases hu : σ.checkUsable ctx.caller s with
  | error e => rfl
  | ok u =>
    have ha := (Store.checkUsable_eq_ok_iff.mp hu).2
    cases check with
    | error e => simp [Store.unpin_pin ha]
    | ok v =>
      have hm := Store.setMemory_unpin_pin (change σ.memory) ha
      simp only [run_bind, run_require_ok, hb]
      exact congrArg (EStateM.Result.ok (value σ.memory)) hm

theorem run_pinned_span {α : Type} (value : Memory → α) (change : Memory → Memory)
    {body : Operation α}
    (hb : ∀ ρ : Store, body.run ctx ρ = .ok (value ρ.memory) (ρ.setMemory (change ρ.memory))) :
    (pinned r.scope (do require (r.checkSpan offset length); body)).run ctx σ =
      match σ.checkAccess ctx.caller r offset length with
      | .ok _ => .ok (value σ.memory) (σ.setMemory (change σ.memory))
      | .error e => .error e σ := by
  rw [run_pinned_require ctx σ r.scope _ value change hb, Store.checkAccess_eq]
  cases σ.checkUsable ctx.caller r.scope <;> rfl

theorem run_read :
    (r.read offset length).run ctx σ =
      match σ.checkAccess ctx.caller r offset length with
      | .ok _ => .ok (σ.memory.read (r.start + offset).toNat length.toNat) σ
      | .error e => .error e σ :=
  run_pinned_span r offset length ctx σ
    (fun m => m.read (r.start + offset).toNat length.toNat) id fun _ => rfl

theorem run_write (bytes : Bytes) :
    (r.write offset bytes).run ctx σ =
      match σ.checkWrite ctx.caller r offset bytes.length with
      | .ok _ => .ok ⟨⟩ (σ.setMemory (σ.memory.write (r.start + offset).toNat bytes))
      | .error e => .error e σ := by
  unfold write
  rw [run_pinned_require ctx σ r.scope _ (fun _ => PUnit.unit)
    (fun m => m.write (r.start + offset).toNat bytes) fun _ => rfl, Store.checkWrite_eq]
  cases σ.checkUsable ctx.caller r.scope <;> rfl

theorem run_fill (value : UInt8) :
    (r.fill value).run ctx σ =
      match σ.checkAccess ctx.caller r 0 r.size with
      | .ok _ => .ok ⟨⟩ (σ.setMemory (σ.memory.fill r.start.toNat r.size.toNat value))
      | .error e => .error e σ :=
  run_pinned_span r 0 r.size ctx σ (fun _ => PUnit.unit)
    (fun m => m.fill r.start.toNat r.size.toNat value) fun _ => rfl

theorem run_copyFrom (src : Region) :
    (r.copyFrom src).run ctx σ =
      match σ.checkAccess ctx.caller src 0 src.size with
      | .error e => .error e σ
      | .ok _ =>
        match σ.checkAccess ctx.caller r 0 src.size with
        | .error e => .error e σ
        | .ok _ => .ok ⟨⟩ (σ.setMemory (σ.memory.write r.start.toNat
            (σ.memory.read src.start.toNat src.size.toNat))) := by
  have hin := run_pinned_span r 0 src.size ctx (σ.pin src.scope) (fun _ => PUnit.unit)
    (fun m => m.write r.start.toNat (m.read src.start.toNat src.size.toNat)) (fun ρ => by
      exact Operation.run_modify (fun ρ : Store => ρ.setMemory (ρ.memory.write r.start.toNat
        (ρ.memory.read src.start.toNat src.size.toNat))) ctx ρ)
  unfold copyFrom
  rw [run_pinned, Store.checkAccess_eq]
  cases hu : σ.checkUsable ctx.caller src.scope with
  | error e => rfl
  | ok u =>
    have ha := (Store.checkUsable_eq_ok_iff.mp hu).2
    cases hs : src.checkSpan 0 src.size with
    | error e => simp [Store.unpin_pin ha]
    | ok v =>
      have hc : (σ.pin src.scope).checkAccess ctx.caller r 0 src.size =
          σ.checkAccess ctx.caller r 0 src.size := by
        rw [Store.checkAccess_eq, Store.checkAccess_eq, Store.checkUsable_pin σ _ _ _ ha]
      simp only [run_bind, run_require_ok, hin, hc]
      cases hr : σ.checkAccess ctx.caller r 0 src.size with
      | error e => simp [Store.unpin_pin ha]
      | ok w => exact congrArg (EStateM.Result.ok PUnit.unit) (Store.setMemory_unpin_pin _ ha)

theorem run_sliceFrom :
    (r.sliceFrom offset).run ctx σ =
      match Word.sub? r.size offset with
      | some length => (r.slice offset length).run ctx σ
      | none => .error (.outOfBounds offset 0 r.size) σ := by
  unfold sliceFrom
  cases Word.sub? r.size offset <;> rfl

theorem run_get (t : ScalarType) (l : Layout) :
    (r.get t l offset).run ctx σ =
      match t.carrier.check l .native with
      | .ok _ =>
        match σ.checkAccess ctx.caller r offset (.ofNat t.size) with
        | .ok _ => .ok (.decode t l.order
            (σ.memory.read (r.start + offset).toNat (UInt64.ofNat t.size).toNat)) σ
        | .error e => .error e σ
      | .error e => .error e σ := by
  unfold get
  cases hc : t.carrier.check l .native with
  | error e => simp
  | ok u =>
    simp only [run_bind, run_require_ok, run_read]
    cases σ.checkAccess ctx.caller r offset (.ofNat t.size) <;> simp

theorem run_set (l : Layout) (x : Scalar) :
    (r.set l offset x).run ctx σ =
      match x.type.carrier.check l .native with
      | .ok _ => (r.write offset (x.encode l.order)).run ctx σ
      | .error e => .error e σ := by
  unfold set
  cases hc : x.type.carrier.check l .native <;> simp

theorem run_getAddress (l : Layout) :
    (r.getAddress l offset).run ctx σ =
      match addressWidth l with
      | .ok w =>
        match σ.checkAccess ctx.caller r offset (.ofNat w.bytes) with
        | .ok _ => .ok (Address.decode l.order
            (σ.memory.read (r.start + offset).toNat (UInt64.ofNat w.bytes).toNat)) σ
        | .error e => .error e σ
      | .error e => .error e σ := by
  unfold getAddress
  cases hw : addressWidth l with
  | error e => simp
  | ok w =>
    simp only [run_bind, run_require_ok, run_read]
    cases σ.checkAccess ctx.caller r offset (.ofNat w.bytes) <;> simp

theorem run_setAddress (l : Layout) (a : Word) :
    (r.setAddress l offset a).run ctx σ =
      match addressWidth l with
      | .ok w =>
        match Address.encode w l.order a with
        | .ok bytes => (r.write offset bytes).run ctx σ
        | .error e => .error e σ
      | .error e => .error e σ := by
  unfold setAddress
  cases hw : addressWidth l with
  | error e => simp
  | ok w =>
    simp only [run_bind, run_require_ok]
    cases Address.encode w l.order a <;> simp

theorem run_contents :
    r.contents.run ctx σ =
      if r.size ≤ bufferLimit then
        match σ.checkAccess ctx.caller r 0 r.size with
        | .ok _ => .ok (some (σ.memory.read r.start.toNat r.size.toNat)) σ
        | .error e => .error e σ
      else .ok none σ := by
  unfold contents
  by_cases h : r.size ≤ bufferLimit
  · simp only [h, if_true, run_map, run_read, UInt64.add_zero]
    cases σ.checkAccess ctx.caller r 0 r.size <;> simp
  · simp [h]

variable {r offset length ctx σ}

theorem leads_ofAddress {start : Word} {s : ScopeId} :
    (ofAddress start length s).Leads ctx σ
      (fun r τ => σ.checkUsable ctx.caller s = .ok () ∧ r = ⟨start, length, s⟩ ∧ τ = σ)
      (· = σ) := by
  unfold Leads
  rw [run_ofAddress]
  cases σ.checkUsable ctx.caller s with
  | ok u => exact ⟨rfl, rfl, rfl⟩
  | error e => rfl

theorem leads_slice :
    (r.slice offset length).Leads ctx σ
      (fun r' τ => σ.checkAccess ctx.caller r offset length = .ok () ∧
        r' = r.narrow offset length ∧ τ = σ)
      (· = σ) := by
  unfold Leads
  rw [run_slice]
  cases σ.checkAccess ctx.caller r offset length with
  | ok u => exact ⟨rfl, rfl, rfl⟩
  | error e => rfl

theorem leads_sliceFrom :
    (r.sliceFrom offset).Leads ctx σ
      (fun r' τ => ∃ length, Word.sub? r.size offset = some length ∧
        σ.checkAccess ctx.caller r offset length = .ok () ∧ r' = r.narrow offset length ∧ τ = σ)
      (· = σ) := by
  unfold sliceFrom
  split
  next length hl =>
    exact leads_slice.imp (fun _ _ h => ⟨length, hl, h⟩) fun _ h => h
  next => exact leads_throw rfl

theorem leads_read :
    (r.read offset length).Leads ctx σ
      (fun bytes τ => σ.checkAccess ctx.caller r offset length = .ok () ∧
        bytes = σ.memory.read (r.start + offset).toNat length.toNat ∧ τ = σ)
      (· = σ) := by
  unfold Leads
  rw [run_read]
  cases σ.checkAccess ctx.caller r offset length with
  | ok u => exact ⟨rfl, rfl, rfl⟩
  | error e => rfl

theorem leads_get {t : ScalarType} {l : Layout} :
    (r.get t l offset).Leads ctx σ
      (fun x τ => σ.checkAccess ctx.caller r offset (.ofNat t.size) = .ok () ∧
        x = .decode t l.order
          (σ.memory.read (r.start + offset).toNat (UInt64.ofNat t.size).toNat) ∧ τ = σ)
      (· = σ) := by
  unfold Leads
  rw [run_get]
  cases t.carrier.check l .native with
  | error e => rfl
  | ok u =>
    simp only
    cases σ.checkAccess ctx.caller r offset (.ofNat t.size) with
    | ok u => exact ⟨rfl, rfl, rfl⟩
    | error e => rfl

theorem leads_getAddress {l : Layout} :
    (r.getAddress l offset).Leads ctx σ
      (fun a τ => ∃ w, addressWidth l = .ok w ∧
        σ.checkAccess ctx.caller r offset (.ofNat w.bytes) = .ok () ∧
        a = Address.decode l.order
          (σ.memory.read (r.start + offset).toNat (UInt64.ofNat w.bytes).toNat) ∧ τ = σ)
      (· = σ) := by
  unfold Leads
  rw [run_getAddress]
  cases addressWidth l with
  | error e => rfl
  | ok w =>
    simp only
    cases ha : σ.checkAccess ctx.caller r offset (.ofNat w.bytes) with
    | ok u => exact ⟨w, rfl, ha, rfl, rfl⟩
    | error e => rfl

theorem leads_contents :
    r.contents.Leads ctx σ
      (fun bytes? τ => (∀ bytes, bytes? = some bytes →
        σ.checkAccess ctx.caller r 0 r.size = .ok () ∧
          bytes = σ.memory.read r.start.toNat r.size.toNat) ∧ τ = σ)
      (· = σ) := by
  unfold Leads
  rw [run_contents]
  by_cases h : r.size ≤ bufferLimit
  · rw [if_pos h]
    cases ha : σ.checkAccess ctx.caller r 0 r.size with
    | ok u => exact ⟨fun bytes hb => ⟨rfl, (Option.some.inj hb).symm⟩, rfl⟩
    | error e => rfl
  · rw [if_neg h]
    exact ⟨fun bytes hb => (Option.some_ne_none bytes hb.symm).elim, rfl⟩

theorem leads_write {bytes : Bytes} :
    (r.write offset bytes).Leads ctx σ
      (fun _ τ => σ.checkWrite ctx.caller r offset bytes.length = .ok () ∧
        τ = σ.setMemory (σ.memory.write (r.start + offset).toNat bytes))
      (· = σ) := by
  unfold Leads
  rw [run_write]
  cases σ.checkWrite ctx.caller r offset bytes.length with
  | ok u => exact ⟨rfl, rfl⟩
  | error e => rfl

theorem leads_set {l : Layout} {x : Scalar} :
    (r.set l offset x).Leads ctx σ
      (fun _ τ => x.type.carrier.check l .native = .ok () ∧
        σ.checkWrite ctx.caller r offset (x.encode l.order).length = .ok () ∧
        τ = σ.setMemory (σ.memory.write (r.start + offset).toNat (x.encode l.order)))
      (· = σ) := by
  unfold Leads
  rw [run_set]
  cases x.type.carrier.check l .native with
  | ok u => exact leads_write.imp (fun _ _ h => ⟨rfl, h⟩) fun _ h => h
  | error e => rfl

/-- What an address is in memory of that layout. -/
def addressBytes (l : Layout) (a : Word) : Except MemoryError Bytes :=
  match addressWidth l with
  | .ok w => Address.encode w l.order a
  | .error e => .error e

theorem leads_setAddress {l : Layout} {a : Word} :
    (r.setAddress l offset a).Leads ctx σ
      (fun _ τ => ∃ bytes, addressBytes l a = .ok bytes ∧
        σ.checkWrite ctx.caller r offset bytes.length = .ok () ∧
        τ = σ.setMemory (σ.memory.write (r.start + offset).toNat bytes))
      (· = σ) := by
  unfold Leads addressBytes
  rw [run_setAddress]
  cases addressWidth l with
  | error e => rfl
  | ok w =>
    simp only
    cases Address.encode w l.order a with
    | error e => rfl
    | ok bytes => exact leads_write.imp (fun _ _ h => ⟨bytes, rfl, h⟩) fun _ h => h

theorem leads_fill {value : UInt8} :
    (r.fill value).Leads ctx σ
      (fun _ τ => σ.checkAccess ctx.caller r 0 r.size = .ok () ∧
        τ = σ.setMemory (σ.memory.fill r.start.toNat r.size.toNat value))
      (· = σ) := by
  unfold Leads
  rw [run_fill]
  cases σ.checkAccess ctx.caller r 0 r.size with
  | ok u => exact ⟨rfl, rfl⟩
  | error e => rfl

theorem leads_copyFrom {src : Region} :
    (r.copyFrom src).Leads ctx σ
      (fun _ τ => σ.checkAccess ctx.caller src 0 src.size = .ok () ∧
        σ.checkAccess ctx.caller r 0 src.size = .ok () ∧
        τ = σ.setMemory (σ.memory.write r.start.toNat
          (σ.memory.read src.start.toNat src.size.toNat)))
      (· = σ) := by
  unfold Leads
  rw [run_copyFrom]
  cases σ.checkAccess ctx.caller src 0 src.size with
  | error e => rfl
  | ok u =>
    simp only [true_and]
    cases σ.checkAccess ctx.caller r 0 src.size with
    | error e => rfl
    | ok v => exact ⟨rfl, rfl⟩

end Region
end ScopedMemory
