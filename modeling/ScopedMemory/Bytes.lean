namespace ScopedMemory

abbrev Bytes := List UInt8

inductive ByteOrder where
  | little
  | big
deriving DecidableEq, Repr

def ByteOrder.native : ByteOrder := .little

/-- The `count` lowest digits to the base 256, least significant first. -/
def lowBytes : (count n : Nat) → Bytes
  | 0, _ => []
  | count + 1, n => UInt8.ofNat n :: lowBytes count (n / 256)

/-- The number with these digits to the base 256, least significant first. -/
def ofLowBytes : Bytes → Nat
  | [] => 0
  | b :: bs => b.toNat + 256 * ofLowBytes bs

@[simp] theorem length_lowBytes (count n : Nat) : (lowBytes count n).length = count := by
  induction count generalizing n with
  | zero => rfl
  | succ count ih => simp [lowBytes, ih]

/-- Reading back keeps the lowest `8 * count` bits. -/
theorem ofLowBytes_lowBytes (count n : Nat) :
    ofLowBytes (lowBytes count n) = (BitVec.ofNat (8 * count) n).toNat := by
  induction count generalizing n with
  | zero => simp [lowBytes, ofLowBytes, Nat.mod_one]
  | succ count ih =>
    have hsplit : 2 ^ (8 * (count + 1)) = 256 * 2 ^ (8 * count) := by
      rw [Nat.mul_succ, Nat.pow_add, Nat.mul_comm]
    simp only [lowBytes, ofLowBytes, ih, UInt8.toNat_ofNat', BitVec.toNat_ofNat]
    rw [hsplit, Nat.mod_mul]

theorem lowBytes_ofLowBytes (bs : Bytes) : lowBytes bs.length (ofLowBytes bs) = bs := by
  induction bs with
  | nil => rfl
  | cons b bs ih =>
    have hb := b.toNat_lt
    have hlow : UInt8.ofNat (b.toNat + 256 * ofLowBytes bs) = b := by
      rw [← UInt8.toNat_inj, UInt8.toNat_ofNat']
      omega
    have hhigh : (b.toNat + 256 * ofLowBytes bs) / 256 = ofLowBytes bs := by omega
    simp only [List.length_cons, ofLowBytes, lowBytes, hlow, hhigh, ih]

namespace ByteOrder

/-- Turns least-significant-first into this order, and back. -/
def arrange : ByteOrder → Bytes → Bytes
  | little, bs => bs
  | big, bs => bs.reverse

@[simp] theorem arrange_arrange (o : ByteOrder) (bs : Bytes) : o.arrange (o.arrange bs) = bs := by
  cases o <;> simp [arrange]

@[simp] theorem length_arrange (o : ByteOrder) (bs : Bytes) :
    (o.arrange bs).length = bs.length := by
  cases o <;> simp [arrange]

def encode (o : ByteOrder) (count n : Nat) : Bytes := o.arrange (lowBytes count n)

def decode (o : ByteOrder) (bs : Bytes) : Nat := ofLowBytes (o.arrange bs)

@[simp] theorem length_encode (o : ByteOrder) (count n : Nat) :
    (o.encode count n).length = count := by
  simp [encode]

theorem decode_encode (o : ByteOrder) (count n : Nat) :
    o.decode (o.encode count n) = (BitVec.ofNat (8 * count) n).toNat := by
  simp [encode, decode, ofLowBytes_lowBytes]

theorem encode_decode (o : ByteOrder) (bs : Bytes) : o.encode bs.length (o.decode bs) = bs := by
  rw [encode, decode, ← o.length_arrange bs, lowBytes_ofLowBytes, arrange_arrange]

end ByteOrder

end ScopedMemory
