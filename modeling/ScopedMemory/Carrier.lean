import ScopedMemory.Layout

namespace ScopedMemory

/-- What a value in memory is read into and written from. -/
inductive Carrier where
  | byte
  | char
  | short
  | int
  | float
  | long
  | double
  | address
  /-- A struct or union passed by value. -/
  | segment
deriving DecidableEq, Repr

inductive AddressWidth where
  | bits32
  | bits64
deriving DecidableEq, Repr

namespace AddressWidth

def native : AddressWidth := bits64

def bits : AddressWidth → Nat
  | bits32 => 32
  | bits64 => 64

def bytes : AddressWidth → Nat
  | bits32 => 4
  | bits64 => 8

def ofBits (n : Nat) : Except MemoryError AddressWidth :=
  if n = 32 then .ok bits32
  else if n = 64 then .ok bits64
  else .error (.unsupported s!"address width of {n} bits")

end AddressWidth

namespace Carrier

def name : Carrier → String
  | byte => "Byte"
  | char => "Char"
  | short => "Short"
  | int => "Int"
  | float => "Float"
  | long => "Long"
  | double => "Double"
  | address => "Address"
  | segment => "Segment"

def primitiveSize? : Carrier → Option Word
  | byte => some 1
  | char | short => some 2
  | int | float => some 4
  | long | double => some 8
  | address | segment => none

def checkSize (expected actual : Word) : Except MemoryError Unit :=
  if expected = actual then .ok () else .error (.layoutMismatch expected actual)

/-- The bytes that a value takes. Segments have no size of their own. -/
def valueSize? (w : AddressWidth) : Carrier → Option Word
  | address => some (.ofNat w.bytes)
  | c => c.primitiveSize?

/-- The name that a complaint about the layout begins with. -/
def subject : Carrier → String
  | segment => "segment"
  | address => "address"
  | c => c.name

/-- Numbers and addresses travel in values of exactly their size, segments in groups. -/
def check (c : Carrier) (l : Layout) (w : AddressWidth) : Except MemoryError Unit :=
  let subject := c.subject
  match c.valueSize? w with
  | some size =>
    if l.IsValue then checkSize size l.size
    else .error (.invalidArgument s!"{subject} carrier requires a value layout")
  | none =>
    if l.IsGroup then .ok ()
    else .error (.invalidArgument s!"{subject} carrier requires a struct or union layout")

end Carrier
end ScopedMemory
