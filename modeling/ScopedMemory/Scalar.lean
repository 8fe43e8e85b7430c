import ScopedMemory.Carrier

namespace ScopedMemory

inductive ScalarType where
  | i8
  | u8
  | i16
  | u16
  | i32
  | u32
  | f32
  | i64
  | u64
  | f64
deriving DecidableEq, Repr

namespace ScalarType

def size : ScalarType → Nat
  | i8 | u8 => 1
  | i16 | u16 => 2
  | i32 | u32 | f32 => 4
  | i64 | u64 | f64 => 8

def carrier : ScalarType → Carrier
  | i8 | u8 => .byte
  | i16 => .short
  | u16 => .char
  | i32 | u32 => .int
  | f32 => .float
  | i64 | u64 => .long
  | f64 => .double

end ScalarType

/-- A number as its bit pattern; no arithmetic is done on it. -/
structure Scalar where
  type : ScalarType
  bits : BitVec (8 * type.size)
deriving DecidableEq, Repr

namespace Scalar

def encode (x : Scalar) (o : ByteOrder) : Bytes := o.encode x.type.size x.bits.toNat

def decode (t : ScalarType) (o : ByteOrder) (bs : Bytes) : Scalar := ⟨t, .ofNat _ (o.decode bs)⟩

@[simp] theorem length_encode (x : Scalar) (o : ByteOrder) :
    (x.encode o).length = x.type.size := by
  simp [encode]

@[simp] theorem decode_encode (x : Scalar) (o : ByteOrder) :
    decode x.type o (x.encode o) = x := by
  simp [decode, encode, ByteOrder.decode_encode]

end Scalar

end ScopedMemory
