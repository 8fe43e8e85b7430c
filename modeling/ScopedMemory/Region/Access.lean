import ScopedMemory.Address
import ScopedMemory.Scalar
import ScopedMemory.Operation

namespace ScopedMemory.Region

open Operation

/-- A view of memory that the scope does not own. -/
def ofAddress (start length : Word) (s : ScopeId) : Operation Region := do
  checkUsable s
  return ⟨start, length, s⟩

def slice (r : Region) (offset length : Word) : Operation Region := do
  checkUsable r.scope
  require (r.checkSpan offset length)
  return r.narrow offset length

/-- The rest from `offset` on. An offset past the end is refused before the scope is looked at. -/
def sliceFrom (r : Region) (offset : Word) : Operation Region :=
  match Word.sub? r.size offset with
  | some length => r.slice offset length
  | none => throw (.outOfBounds offset 0 r.size)

def read (r : Region) (offset length : Word) : Operation Bytes :=
  pinned r.scope do
    require (r.checkSpan offset length)
    return (← get).memory.read (r.start + offset).toNat length.toNat

def write (r : Region) (offset : Word) (bytes : Bytes) : Operation Unit :=
  pinned r.scope do
    require (r.checkBuffer offset bytes.length)
    modify fun σ => σ.setMemory (σ.memory.write (r.start + offset).toNat bytes)

def fill (r : Region) (value : UInt8) : Operation Unit :=
  pinned r.scope do
    require (r.checkSpan 0 r.size)
    modify fun σ => σ.setMemory (σ.memory.fill r.start.toNat r.size.toNat value)

/-- Copies all of `src` to the beginning of `r`; they may overlap. -/
def copyFrom (r src : Region) : Operation Unit :=
  pinned src.scope do
    require (src.checkSpan 0 src.size)
    pinned r.scope do
      require (r.checkSpan 0 src.size)
      modify fun σ =>
        let bytes := σ.memory.read src.start.toNat src.size.toNat
        σ.setMemory (σ.memory.write r.start.toNat bytes)

/-- No buffer holds more bytes than this. -/
def bufferLimit : Word := 0x7fffffffffffffff

/-- All bytes, or nothing if no buffer is long enough for them. -/
def contents (r : Region) : Operation (Option Bytes) :=
  if r.size ≤ bufferLimit then some <$> r.read 0 r.size else return none

def get (r : Region) (t : ScalarType) (l : Layout) (offset : Word) : Operation Scalar := do
  require (t.carrier.check l .native)
  return .decode t l.order (← r.read offset (.ofNat t.size))

def set (r : Region) (l : Layout) (offset : Word) (x : Scalar) : Operation Unit := do
  require (x.type.carrier.check l .native)
  r.write offset (x.encode l.order)

/-- Addresses in memory are as wide as their layout. -/
def addressWidth (l : Layout) : Except MemoryError AddressWidth :=
  if ¬ l.IsValue then .error (.invalidArgument "Address carrier requires a value layout")
  else if l.size = 4 then .ok .bits32
  else if l.size = 8 then .ok .bits64
  else
    let size := l.size
    .error (.unsupported s!"unsupported pointer size {size}")

def getAddress (r : Region) (l : Layout) (offset : Word) : Operation Word := do
  let w ← require (addressWidth l)
  return Address.decode l.order (← r.read offset (.ofNat w.bytes))

def setAddress (r : Region) (l : Layout) (offset : Word) (a : Word) : Operation Unit := do
  let w ← require (addressWidth l)
  r.write offset (← require (Address.encode w l.order a))

end ScopedMemory.Region
