import ScopedMemory.Bytes

namespace ScopedMemory

structure Memory where
  byte : Nat → UInt8

namespace Memory

def blank : Memory := ⟨fun _ => 0⟩

/-- The `length` bytes from `start` on. -/
def read (m : Memory) (start length : Nat) : Bytes :=
  (List.range length).map fun i => m.byte (start + i)

/-- Puts `cells` over the bytes from `start` on. -/
def overlay (m : Memory) (start : Nat) (cells : Array UInt8) : Memory :=
  ⟨fun a => if start ≤ a then (cells[a - start]?).getD (m.byte a) else m.byte a⟩

def write (m : Memory) (start : Nat) (bytes : Bytes) : Memory := m.overlay start bytes.toArray

/-- Sets each of the `length` bytes from `start` on to `value`. -/
def fill (m : Memory) (start length : Nat) (value : UInt8) : Memory :=
  ⟨fun a => if start ≤ a ∧ a < start + length then value else m.byte a⟩

@[simp] theorem length_read (m : Memory) (start length : Nat) :
    (m.read start length).length = length := by
  simp [read]

theorem getElem?_read (m : Memory) (start length i : Nat) :
    (m.read start length)[i]? = if i < length then some (m.byte (start + i)) else none := by
  by_cases h : i < length <;> simp [read, h]

theorem byte_write (m : Memory) (start : Nat) (bytes : Bytes) (a : Nat) :
    (m.write start bytes).byte a =
      if start ≤ a then (bytes[a - start]?).getD (m.byte a) else m.byte a := by
  simp [write, overlay]

theorem byte_fill (m : Memory) (start length : Nat) (value : UInt8) (a : Nat) :
    (m.fill start length value).byte a =
      if start ≤ a ∧ a < start + length then value else m.byte a := rfl

end Memory
end ScopedMemory
