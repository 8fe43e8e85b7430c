import ScopedMemory.Carrier

namespace ScopedMemory

namespace Address

def displace (a offset : Word) : Except MemoryError Word :=
  match Word.add? a offset with
  | some b => .ok b
  | none => .error (.invalidArgument "address arithmetic overflows")

/-- A narrow address has to fit in 32 bits. -/
def encode (w : AddressWidth) (o : ByteOrder) (a : Word) : Except MemoryError Bytes :=
  match w with
  | .bits64 => .ok (o.encode 8 a.toNat)
  | .bits32 =>
    if a.toNat < 0x100000000 then
      .ok (o.encode 4 a.toNat)
    else
      let text := a.hex
      .error (.invalidArgument s!"address {text} does not fit in 32 bits")

def decode (o : ByteOrder) (bs : Bytes) : Word := .ofNat (o.decode bs)

end Address
end ScopedMemory
