import ScopedMemory.Heap.TwinHeaps
import ScopedMemory.Proofs.Region.Access

namespace ScopedMemory.Region

open Operation

variable {dst src : Region} {ctx : Context} {σ τ : Store}

theorem spans_zero {length : Word} :
    dst.Spans 0 length ↔ length.toNat ≤ dst.size.toNat ∧
      dst.start.toNat + length.toNat < 0x10000000000000000 := by
  unfold Spans
  rw [UInt64.toNat_zero, Nat.zero_add, Nat.add_zero]

theorem of_run_copyFrom (h : (dst.copyFrom src).run ctx σ = .ok ⟨⟩ τ) :
    src.Spans 0 src.size ∧ dst.Spans 0 src.size ∧
      τ = σ.setMemory (σ.memory.write dst.start.toNat
        (σ.memory.read src.start.toNat src.size.toNat)) := by
  obtain ⟨hsrc, hdst, hτ⟩ := Leads.ok leads_copyFrom h
  exact ⟨(Store.checkAccess_eq_ok_iff.mp hsrc).2, (Store.checkAccess_eq_ok_iff.mp hdst).2, hτ⟩

theorem succeeds_copyFrom_iff (hdst : σ.checkUsable ctx.caller dst.scope = .ok ())
    (hsrc : σ.checkUsable ctx.caller src.scope = .ok ()) :
    (dst.copyFrom src).Succeeds ctx σ ↔ src.Spans 0 src.size ∧ dst.Spans 0 src.size := by
  constructor
  · rintro ⟨u, τ, hr⟩
    obtain ⟨hfrom, hto, _⟩ := of_run_copyFrom hr
    exact ⟨hfrom, hto⟩
  · intro ⟨hfrom, hto⟩
    have hread : σ.checkAccess ctx.caller src 0 src.size = .ok () :=
      Store.checkAccess_eq_ok_iff.mpr ⟨hsrc, hfrom⟩
    have hwrite : σ.checkAccess ctx.caller dst 0 src.size = .ok () :=
      Store.checkAccess_eq_ok_iff.mpr ⟨hdst, hto⟩
    unfold Succeeds
    rw [run_copyFrom, hread, hwrite]
    exact ⟨⟨⟩, _, rfl⟩

/-- What a copy of all of `src` to the beginning of `dst` does, however the two lie. -/
structure Copies (dst src : Region) (ctx : Context) (σ : Store) : Prop where
  succeeds : σ.checkUsable ctx.caller dst.scope = .ok () →
    σ.checkUsable ctx.caller src.scope = .ok () →
    ((dst.copyFrom src).Succeeds ctx σ ↔
      src.size.toNat ≤ dst.size.toNat ∧
        dst.start.toNat + src.size.toNat < 0x10000000000000000 ∧
        src.start.toNat + src.size.toNat < 0x10000000000000000)
  copied : ∀ {τ}, (dst.copyFrom src).run ctx σ = .ok ⟨⟩ τ → ∀ i < src.size.toNat,
    τ.memory.byte (dst.start.toNat + i) = σ.memory.byte (src.start.toNat + i)
  kept : ∀ {τ}, (dst.copyFrom src).run ctx σ = .ok ⟨⟩ τ → ∀ x,
    (∀ i < src.size.toNat, x ≠ dst.start.toNat + i) → τ.memory.byte x = σ.memory.byte x
  still : ∀ {τ}, (dst.copyFrom src).run ctx σ = .ok ⟨⟩ τ → τ = σ.setMemory τ.memory
  /-- To read the copy gives what to read the source gave before. -/
  reads : ∀ {τ}, (dst.copyFrom src).run ctx σ = .ok ⟨⟩ τ →
    (dst.read 0 src.size).value? ctx τ = (src.read 0 src.size).value? ctx σ
  /-- A pin that was set for the one region is taken off where the other is refused. -/
  failed : ∀ {e τ}, (dst.copyFrom src).run ctx σ = .error e τ → τ = σ

theorem copies (dst src : Region) (ctx : Context) (σ : Store) : dst.Copies src ctx σ where
  succeeds hdst hsrc := by
    rw [succeeds_copyFrom_iff hdst hsrc, spans_zero, spans_zero]
    constructor
    · rintro ⟨⟨_, hfrom⟩, hfit, hto⟩
      exact ⟨hfit, hto, hfrom⟩
    · rintro ⟨hfit, hto, hfrom⟩
      exact ⟨⟨Nat.le_refl _, hfrom⟩, hfit, hto⟩
  copied {τ} h i hi := by
    obtain ⟨_, _, rfl⟩ := of_run_copyFrom h
    change (Memory.write _ _ _).byte _ = _
    rw [Memory.byte_copy, if_pos ⟨Nat.le_add_right _ _, by omega⟩, Nat.add_sub_cancel_left]
  kept {τ} h x hx := by
    obtain ⟨_, _, rfl⟩ := of_run_copyFrom h
    have hout : ¬ (dst.start.toNat ≤ x ∧ x < dst.start.toNat + src.size.toNat) := by
      intro hin
      exact hx (x - dst.start.toNat) (by omega) (by omega)
    change (Memory.write _ _ _).byte _ = _
    rw [Memory.byte_copy, if_neg hout]
  still h := by
    obtain ⟨_, _, rfl⟩ := of_run_copyFrom h
    rfl
  reads {τ} h := by
    obtain ⟨hread, hwrite, rfl⟩ := Leads.ok leads_copyFrom h
    unfold value?
    rw [run_read, run_read, Store.checkAccess_setMemory, hread, hwrite]
    change some (Memory.read (Memory.write _ _ _) _ _) = some _
    rw [UInt64.add_zero, UInt64.add_zero, Memory.read_write_read]
  failed h := (leads_iff.mp leads_copyFrom).2 _ _ h

/-- The target begins one byte after its source does. -/
theorem slid_copies :
    let ctx : Context := ⟨0, TwinHeaps.system⟩
    let σ := Store.initial.setMemory (Memory.blank.write 0x1000 [1, 2, 3, 4])
    let low : Region := ⟨0x1000, 3, 0⟩
    let high : Region := ⟨0x1001, 4, 0⟩
    (∃ τ, (high.copyFrom low).run ctx σ = .ok ⟨⟩ τ ∧
      (high.read 0 3).value? ctx τ = some [1, 2, 3] ∧
      τ.memory.byte 0x1000 = 1 ∧ τ.memory.byte 0x1004 = 0) ∧
      ¬ (low.copyFrom high).Succeeds ctx σ := by
  intro ctx σ low high
  have hlow : σ.checkUsable ctx.caller low.scope = .ok () := rfl
  have hhigh : σ.checkUsable ctx.caller high.scope = .ok () := rfl
  have hup := copies high low ctx σ
  have hdown := copies low high ctx σ
  obtain ⟨u, τ, hr⟩ := (hup.succeeds hhigh hlow).mpr (by decide)
  have hbefore := hup.kept hr 0x1000 (by decide)
  have hafter := hup.kept hr 0x1004 (by decide)
  refine ⟨⟨τ, hr, ?_, hbefore, hafter⟩, fun h => ?_⟩
  · have hread : (low.read 0 3).value? ctx σ = some [1, 2, 3] := by decide
    exact (hup.reads hr).trans hread
  · exact absurd ((hdown.succeeds hlow hhigh).mp h) (by decide)

end ScopedMemory.Region
