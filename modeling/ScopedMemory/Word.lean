namespace ScopedMemory

/-- A machine word: an address, a size, an offset or an alignment. -/
abbrev Word := UInt64

namespace Word

/-- The sum, where it is still a word, which is to say below 2⁶⁴. -/
def add? (a b : Word) : Option Word :=
  if a.toNat + b.toNat < 0x10000000000000000 then some (a + b) else none

/-- The difference, where nothing has to be borrowed. -/
def sub? (a b : Word) : Option Word :=
  if b.toNat ≤ a.toNat then some (a - b) else none

/-- The product, where it is still a word. -/
def mul? (a b : Word) : Option Word :=
  if a.toNat * b.toNat < 0x10000000000000000 then some (a * b) else none

def IsPowerOfTwo (n : Word) : Prop := n.toNat.isPowerOfTwo

instance (n : Word) : Decidable n.IsPowerOfTwo :=
  inferInstanceAs (Decidable n.toNat.isPowerOfTwo)

/-- The greatest multiple of `unit` that is not above `n`. -/
def roundDown (n unit : Word) : Word := n - n % unit

def hex (n : Word) : String := "0x" ++ String.ofList (Nat.toDigits 16 n.toNat)

theorem add?_eq_some_iff {a b c : Word} :
    add? a b = some c ↔ c.toNat = a.toNat + b.toNat := by
  have hc := c.toNat_lt
  unfold add?
  split
  next h =>
    rw [Option.some.injEq, ← UInt64.toNat_inj, UInt64.toNat_add, Nat.mod_eq_of_lt (by omega)]
    exact eq_comm
  next h => simp only [reduceCtorEq, false_iff]; omega

theorem sub?_eq_some_iff {a b c : Word} :
    sub? a b = some c ↔ a.toNat = c.toNat + b.toNat := by
  have ha := a.toNat_lt
  have hb := b.toNat_lt
  unfold sub?
  split
  next h =>
    rw [Option.some.injEq, ← UInt64.toNat_inj, UInt64.toNat_sub_of_le a b
      (UInt64.le_iff_toNat_le.mpr h)]
    omega
  next h => simp only [reduceCtorEq, false_iff]; omega

theorem mul?_eq_some_iff {a b c : Word} :
    mul? a b = some c ↔ c.toNat = a.toNat * b.toNat := by
  have hc := c.toNat_lt
  unfold mul?
  split
  next h =>
    rw [Option.some.injEq, ← UInt64.toNat_inj, UInt64.toNat_mul, Nat.mod_eq_of_lt (by omega)]
    exact eq_comm
  next h => simp only [reduceCtorEq, false_iff]; omega

end Word
end ScopedMemory
