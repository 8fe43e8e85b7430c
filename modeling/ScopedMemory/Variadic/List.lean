import ScopedMemory.Allocator
import ScopedMemory.Variadic.Convention

namespace ScopedMemory

structure Cursor where
  start : Word
  remaining : Region
  /-- The list was adopted by its address, so its pointers are trusted. -/
  foreign : Bool
deriving DecidableEq, Repr

/-- A list of arguments that is read from front to back. Reading yields the list that is left, so a
failed call leaves the list as it was. -/
structure VariadicList where
  convention : Convention
  scope : ScopeId
  cursor : Option Cursor

namespace VariadicList

open Operation

/-- Nothing can be read from it, and it belongs to the global scope. -/
def empty (c : Convention) : VariadicList := ⟨c, 0, none⟩

def ofBuffer (c : Convention) (buffer : Region) (s : ScopeId) : VariadicList :=
  ⟨c, s, some ⟨buffer.start, buffer, false⟩⟩

/-- A list that lies at an address. Its end is not known, so it goes on to the last address. -/
def ofAddress (c : Convention) (start : Word) (s : ScopeId) : Operation VariadicList := do
  if start = 0 then throw (.invalidArgument "variadic list address is null")
  let remaining ← Region.ofAddress start (0xffffffffffffffff - start) s
  return ⟨c, s, some ⟨start, remaining, true⟩⟩

def address (v : VariadicList) : Word :=
  match v.cursor with
  | some c => c.remaining.start
  | none => 0

def position (v : VariadicList) : Word :=
  match v.cursor with
  | some c => c.remaining.start - c.start
  | none => 0

def IsEmpty (v : VariadicList) : Prop := v.cursor = none

instance (v : VariadicList) : Decidable v.IsEmpty := inferInstanceAs (Decidable (_ = none))

def requireCursor (v : VariadicList) : Operation Cursor :=
  match v.cursor with
  | some c => return c
  | none => throw (.unsupported "the empty variadic list has no arguments")

def advance (v : VariadicList) (c : Cursor) (bytes : Word) : Operation VariadicList := do
  let rest ← c.remaining.sliceFrom bytes
  return { v with cursor := some { c with remaining := rest } }

/-- Decodes the next slot and moves past it. -/
def readSlot {α : Type} (v : VariadicList) (carrier : Carrier) (l : Layout)
    (decode : Cursor → Region → Operation α) : Operation (α × VariadicList) := do
  let c ← v.requireCursor
  require (carrier.check l v.convention.width)
  let slot ← c.remaining.slice 0 v.convention.slotSize
  let x ← decode c slot
  return (x, ← v.advance c v.convention.slotSize)

def readScalar (v : VariadicList) (t : ScalarType) (l : Layout) :
    Operation (Scalar × VariadicList) :=
  v.readSlot t.carrier l fun _ slot => slot.get t l 0

def readAddress (v : VariadicList) (l : Layout) : Operation (Word × VariadicList) :=
  v.readSlot .address l fun _ slot => slot.getAddress l 0

/-- The bytes that an address in a slot stands for. They belong to the scope of the list, unless the
list was adopted. -/
def referenced (v : VariadicList) (c : Cursor) (start length : Word) : Operation Region := do
  match ← v.scope.resolve start length with
  | some r => return r
  | none =>
    if c.foreign then Region.ofAddress start length v.scope
    else
      let address := start.hex
      let scope := v.scope
      throw (.invalidArgument s!"struct argument at {address} is not owned by scope {scope}")

def structSource (v : VariadicList) (l : Layout) (c : Cursor) (slot : Region) :
    Operation Region := do
  match ← require (v.convention.classifyStruct l) with
  | .structReference =>
    let start ← slot.getAddress v.convention.addressLayout 0
    v.referenced c start l.size
  | _ => slot.slice 0 l.size

/-- The struct of the next slot, copied to where `w` has room for it. -/
def readSegment (v : VariadicList) (l : Layout) (w : Allocator) :
    Operation (Region × VariadicList) :=
  v.readSlot .segment l fun c slot => do
    let src ← v.structSource l c slot
    let copy ← w.allocateLayout l
    copy.copyFrom src
    return copy

/-- Moves over one slot for each layout and decodes nothing. -/
def skip (v : VariadicList) (ls : List Layout) : Operation VariadicList := do
  let c ← v.requireCursor
  let count : Word := .ofNat ls.length
  match Word.mul? v.convention.slotSize count with
  | some bytes => v.advance c bytes
  | none => throw (.invalidArgument s!"skipping {count} slots overflows the address space")

def copy (v : VariadicList) : Operation VariadicList := do
  match v.cursor with
  | none => return empty v.convention
  | some c =>
    checkUsable c.remaining.scope
    return v

end VariadicList
end ScopedMemory
