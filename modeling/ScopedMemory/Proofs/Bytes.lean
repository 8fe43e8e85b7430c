import Mathlib.Algebra.Group.Nat.Defs
import ScopedMemory.Bytes

namespace ScopedMemory

variable {o o' : ByteOrder} {bs : Bytes} {count n i j : Nat}

/-- The digit to the base 256 that has `i` digits below it. -/
def digit (n i : Nat) : UInt8 := .ofNat (n / 256 ^ i)

theorem digit_succ (n i : Nat) : digit n (i + 1) = digit (n / 256) i := by
  unfold digit
  rw [Nat.pow_succ', Nat.div_div_eq_div_mul]

theorem getElem?_lowBytes (count n i : Nat) :
    (lowBytes count n)[i]? = if i < count then some (digit n i) else none := by
  induction count generalizing n i with
  | zero => rfl
  | succ count ih =>
    cases i with
    | zero => simp [lowBytes, digit]
    | succ i =>
      rw [lowBytes, List.getElem?_cons_succ, ih, digit_succ]
      simp only [Nat.add_lt_add_iff_right]

theorem ofLowBytes_lt (bs : Bytes) : ofLowBytes bs < 256 ^ bs.length := by
  induction bs with
  | nil => exact Nat.zero_lt_one
  | cons b bs ih =>
    have hb := b.toNat_lt
    rw [List.length_cons, Nat.pow_succ', ofLowBytes]
    omega

namespace ByteOrder

/-- How many digits are below the one that stands `j` bytes into a number of `count` bytes. -/
def place : ByteOrder → (count j : Nat) → Nat
  | little, _, j => j
  | big, count, j => count - 1 - j

theorem place_lt (o : ByteOrder) (h : j < count) : o.place count j < count := by
  cases o with
  | little => exact h
  | big => exact Nat.sub_one_sub_lt_of_lt h

theorem place_place (o : ByteOrder) (h : j < count) : o.place count (o.place count j) = j := by
  cases o with
  | little => rfl
  | big =>
    change count - 1 - (count - 1 - j) = j
    omega

/-- The orders count from opposite ends. -/
theorem place_of_ne (hne : o' ≠ o) (count j : Nat) :
    o.place count (o'.place count j) = count - 1 - j := by
  cases o with
  | little =>
    cases o' with
    | little => exact absurd rfl hne
    | big => rfl
  | big =>
    cases o' with
    | little => rfl
    | big => exact absurd rfl hne

theorem getElem?_encode (o : ByteOrder) (count n j : Nat) :
    (o.encode count n)[j]? = if j < count then some (digit n (o.place count j)) else none := by
  cases o with
  | little => exact getElem?_lowBytes count n j
  | big =>
    change (lowBytes count n).reverse[j]? = _
    by_cases h : j < count
    · have hplace : count - 1 - j < count := Nat.sub_one_sub_lt_of_lt h
      rw [List.getElem?_reverse (by rwa [length_lowBytes]), length_lowBytes, getElem?_lowBytes,
        if_pos hplace, if_pos h]
      rfl
    · rw [List.getElem?_eq_none (by rw [List.length_reverse, length_lowBytes]; omega), if_neg h]

theorem getElem?_eq_digit_decode (o : ByteOrder) (h : j < bs.length) :
    bs[j]? = some (digit (o.decode bs) (o.place bs.length j)) := by
  have hbytes := o.getElem?_encode bs.length (o.decode bs) j
  rwa [encode_decode, if_pos h] at hbytes

theorem decode_lt (o : ByteOrder) (bs : Bytes) : o.decode bs < 256 ^ bs.length := by
  have h := ofLowBytes_lt (o.arrange bs)
  rwa [length_arrange] at h

/-- A number that fits in the bytes is read back whole. -/
theorem decode_encode_of_lt (o : ByteOrder) (h : n < 256 ^ count) :
    o.decode (o.encode count n) = n := by
  have hpow : 2 ^ (8 * count) = 256 ^ count := Nat.pow_mul 2 8 count
  rw [decode_encode, BitVec.toNat_ofNat, hpow, Nat.mod_eq_of_lt h]

end ByteOrder
end ScopedMemory
