import ScopedMemory.Proofs.Region.Access

namespace ScopedMemory

/-- How many addresses there are of that width. -/
def AddressWidth.addresses : AddressWidth → Nat
  | bits32 => 0x100000000
  | bits64 => 0x10000000000000000

theorem AddressWidth.addresses_le (w : AddressWidth) : w.addresses ≤ 0x10000000000000000 := by
  cases w <;> decide

namespace Carrier

theorem check_eq_ok_iff {carrier : Carrier} {l : Layout} {w : AddressWidth} {size : Word}
    (hs : carrier.valueSize? w = some size) :
    carrier.check l w = .ok () ↔ l.IsValue ∧ l.size = size := by
  unfold check
  rw [hs]
  dsimp only
  by_cases hv : l.IsValue
  · rw [if_pos hv]
    unfold checkSize
    by_cases he : size = l.size
    · simp [hv, he]
    · simp [he, Ne.symm he]
  · simp [hv]

end Carrier

namespace Region

theorem addressWidth_eq_ok {l : Layout} {w : AddressWidth} (hv : l.IsValue)
    (hs : l.size.toNat = w.bytes) : addressWidth l = .ok w := by
  have hsize : l.size = .ofNat w.bytes := by
    rw [← UInt64.toNat_inj, hs]
    cases w <;> rfl
  unfold addressWidth
  rw [if_neg (not_not_intro hv), hsize]
  cases w <;> rfl

theorem addressWidth_eq_ok_iff {l : Layout} {w : AddressWidth} :
    addressWidth l = .ok w ↔ l.IsValue ∧ l.size.toNat = w.bytes := by
  constructor
  · intro h
    unfold addressWidth at h
    split at h
    next => cases h
    next hv =>
      split at h
      next hsize =>
        cases h
        exact ⟨Decidable.not_not.mp hv, by rw [hsize]; rfl⟩
      next =>
        split at h
        next hsize =>
          cases h
          exact ⟨Decidable.not_not.mp hv, by rw [hsize]; rfl⟩
        next => cases h
  · rintro ⟨hv, hsize⟩
    exact addressWidth_eq_ok hv hsize

/-- An address is as many bytes as its layout says, if it is narrow enough for them. -/
theorem addressBytes_eq_ok_iff {l : Layout} {w : AddressWidth} {x : Word} {bytes : Bytes}
    (hv : l.IsValue) (hs : l.size.toNat = w.bytes) :
    addressBytes l x = .ok bytes ↔
      x.toNat < w.addresses ∧ bytes = l.order.encode w.bytes x.toNat := by
  have hx := x.toNat_lt
  unfold addressBytes
  rw [addressWidth_eq_ok hv hs]
  cases w with
  | bits64 =>
    have hlt : x.toNat < AddressWidth.bits64.addresses := hx
    have hencode : Address.encode .bits64 l.order x = .ok (l.order.encode 8 x.toNat) := rfl
    dsimp only
    rw [hencode, Except.ok.injEq, eq_comm]
    exact (and_iff_right hlt).symm
  | bits32 =>
    dsimp only
    by_cases hlt : x.toNat < 0x100000000
    · have hencode : Address.encode .bits32 l.order x = .ok (l.order.encode 4 x.toNat) :=
        if_pos hlt
      rw [hencode, Except.ok.injEq, eq_comm]
      exact (and_iff_right hlt).symm
    · have hencode : ¬ Address.encode .bits32 l.order x = .ok bytes := by
        unfold Address.encode
        dsimp only
        rw [if_neg hlt]
        intro h
        cases h
      exact iff_of_false hencode fun h => hlt h.1

end Region
end ScopedMemory
