import ScopedMemory.Carrier

namespace ScopedMemory

inductive TypeClass where
  | integer
  | float
  | pointer
  /-- A struct whose bytes are in the slot. -/
  | structRegister
  /-- A struct elsewhere in memory, with its address in the slot. -/
  | structReference
deriving DecidableEq, Repr

namespace TypeClass

def name : TypeClass → String
  | integer => "Integer"
  | float => "Float"
  | pointer => "Pointer"
  | structRegister => "StructRegister"
  | structReference => "StructReference"

def IsStruct (c : TypeClass) : Prop := c = structRegister ∨ c = structReference

instance (c : TypeClass) : Decidable c.IsStruct := inferInstanceAs (Decidable (_ ∨ _))

/-- How numbers and addresses travel in every convention here. -/
def ofCarrier : Carrier → TypeClass
  | .address => pointer
  | .float | .double => float
  | _ => integer

end TypeClass

/-- The slots of a calling convention and what travels in them. -/
structure Convention where
  name : String
  slotSize : Word
  width : AddressWidth
  classify : Carrier → Layout → TypeClass
  /-- The layout of an address that stands for a struct. -/
  addressLayout : Layout

namespace Convention

/-- How a struct travels. One that would spill past its slot is refused, and so is a class that is
not for structs. -/
def classifyStruct (c : Convention) (l : Layout) : Except MemoryError TypeClass :=
  let found := c.classify .segment l
  let name := c.name
  if found = .structRegister ∧ c.slotSize < l.size then
    let size := l.size
    let slot := c.slotSize
    .error (.unsupported
      s!"{name}: in-register struct of {size} bytes exceeds the {slot}-byte slot")
  else if found.IsStruct then .ok found
  else
    let text := found.name
    .error (.unsupported s!"{name}: struct layout classified as {text}")

/-- A classification that sends structs by `structs` and all else by its carrier. -/
def classifyBy (structs : Layout → TypeClass) : Carrier → Layout → TypeClass
  | .segment, l => structs l
  | c, _ => .ofCarrier c

end Convention

/-! The types of C where `long` has 32 bits. -/
namespace Layout

def cChar : Layout := value ⟨1, 1, .little⟩
def cShort : Layout := value ⟨2, 2, .little⟩
def cInt : Layout := value ⟨4, 4, .little⟩
def cLong : Layout := value ⟨4, 4, .little⟩
def cLongLong : Layout := value ⟨8, 8, .little⟩
def cFloat : Layout := value ⟨4, 4, .little⟩
def cDouble : Layout := value ⟨8, 8, .little⟩
def cPointer : Layout := value ⟨8, 8, .little⟩

end Layout

namespace Convention

/-- A struct travels in its slot only if it is as large as some register. -/
def win64 : Convention where
  name := "win64"
  slotSize := 8
  width := .bits64
  classify := classifyBy fun l =>
    if l.size ∈ [1, 2, 4, 8] then .structRegister else .structReference
  addressLayout := .cPointer

/-- Every struct has to fit in its slot. -/
def greedy : Convention where
  name := "greedy"
  slotSize := 8
  width := .bits64
  classify := classifyBy fun _ => .structRegister
  addressLayout := .cPointer

/-- Wide slots with addresses in the other order. -/
def ref16 : Convention where
  name := "ref16"
  slotSize := 16
  width := .bits64
  classify := classifyBy fun _ => .structReference
  addressLayout := .value ⟨8, 8, .big⟩

/-- Narrow slots and addresses. -/
def abi32 : Convention where
  name := "abi32"
  slotSize := 4
  width := .bits32
  classify := classifyBy fun l => if l.size ≤ 4 then .structRegister else .structReference
  addressLayout := .cInt

/-- Slots that are no power of two. -/
def odd12 : Convention where
  name := "odd12"
  slotSize := 12
  width := .bits64
  classify := classifyBy fun _ => .structReference
  addressLayout := .cPointer

def nostruct : Convention where
  name := "nostruct"
  slotSize := 8
  width := .bits64
  classify := classifyBy fun _ => .integer
  addressLayout := .cPointer

end Convention
end ScopedMemory
