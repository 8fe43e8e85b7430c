import ScopedMemory.Variadic.List

namespace ScopedMemory

inductive ArgumentValue where
  | int (bits : BitVec 32)
  | long (bits : BitVec 64)
  | double (bits : BitVec 64)
  | address (a : Word)
  /-- A struct, copied when the list is built. -/
  | segment (r : Region)
deriving DecidableEq, Repr

def ArgumentValue.carrier : ArgumentValue → Carrier
  | int _ => .int
  | long _ => .long
  | double _ => .double
  | address _ => .address
  | segment _ => .segment

/-- A value whose layout has been checked. -/
structure Argument where
  layout : Layout
  value : ArgumentValue
deriving DecidableEq, Repr

structure VariadicBuilder where
  convention : Convention
  scope : ScopeId
  arguments : List Argument

namespace VariadicBuilder

open Operation

def create (c : Convention) (s : ScopeId) : Operation VariadicBuilder := do
  checkUsable s
  return ⟨c, s, []⟩

/-- What a struct argument has to fulfil besides its carrier. -/
def checkSegment (b : VariadicBuilder) (l : Layout) (r : Region) : Operation Unit := do
  if r.size ≠ l.size then throw (.layoutMismatch l.size r.size)
  let _ ← require (b.convention.classifyStruct l)
  checkUsable r.scope

def push (b : VariadicBuilder) (l : Layout) (v : ArgumentValue) : Operation VariadicBuilder := do
  require (v.carrier.check l b.convention.width)
  match v with
  | .segment r => b.checkSegment l r
  | _ => pure ()
  return { b with arguments := b.arguments ++ [⟨l, v⟩] }

/-- Writes one argument. Structs that do not travel in the slot get room from the arena. -/
def writeSlot (c : Convention) (a : ArenaId) (slot : Region) (arg : Argument) : Operation Unit :=
  match arg.value with
  | .int x => slot.set arg.layout 0 ⟨.i32, x⟩
  | .long x => slot.set arg.layout 0 ⟨.i64, x⟩
  | .double x => slot.set arg.layout 0 ⟨.f64, x⟩
  | .address x => slot.setAddress arg.layout 0 x
  | .segment src => do
    match ← require (c.classifyStruct arg.layout) with
    | .structReference =>
      let copy ← (Allocator.arena a).allocateLayout arg.layout
      copy.copyFrom src
      slot.setAddress c.addressLayout 0 copy.start
    | _ => (← slot.slice 0 arg.layout.size).copyFrom src

/-- Writes the arguments into the slots from number `index` on. -/
def writeSlots (c : Convention) (a : ArenaId) (buffer : Region) :
    (index : Nat) → List Argument → Operation Unit
  | _, [] => return ()
  | index, arg :: args => do
    let slot ← buffer.slice (.ofNat index * c.slotSize) c.slotSize
    writeSlot c a slot arg
    writeSlots c a buffer (index + 1) args

/-- Writes all arguments in memory of the scope. Without arguments this is the empty list. -/
def build (b : VariadicBuilder) : Operation VariadicList := do
  if b.arguments = [] then return .empty b.convention
  let count : Word := .ofNat b.arguments.length
  match Word.mul? b.convention.slotSize count with
  | none => throw (.invalidArgument s!"{count} variadic slots overflow the address space")
  | some size =>
    let config : ArenaConfig := {}
    let a ← ArenaId.create (.unbounded config.blockSize) config b.scope
    let buffer ← a.allocate size b.convention.slotSize
    writeSlots b.convention a buffer 0 b.arguments
    return .ofBuffer b.convention buffer b.scope

end VariadicBuilder

def VariadicList.make (c : Convention) (s : ScopeId) (args : List (Layout × ArgumentValue)) :
    Operation VariadicList := do
  let b ← VariadicBuilder.create c s
  let b ← args.foldlM (fun b arg => b.push arg.1 arg.2) b
  b.build

end ScopedMemory
