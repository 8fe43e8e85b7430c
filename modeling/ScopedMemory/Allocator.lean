import ScopedMemory.Arena.Allocation

namespace ScopedMemory

/-- Where regions can be had from. -/
inductive Allocator where
  /-- Every region is a block of the scope. -/
  | direct (s : ScopeId)
  /-- Every region is a block of a scope of its own. -/
  | perRequest (kind : ScopeKind)
  | arena (a : ArenaId)
  /-- Every region is the beginning of the same region. -/
  | recycling (r : Region)
deriving DecidableEq, Repr

namespace Allocator

open Operation

/-- A recycled region takes no notice of the alignment. -/
def allocate (size align : Word) : Allocator → Operation Region
  | direct s => do
    require (checkRequest size align)
    s.allocateNative size align
  | perRequest kind => do
    require (checkRequest size align)
    let s ← ScopeId.create (if kind = .global then .implicit else kind)
    s.allocateNative size align
  | arena a => a.allocate size align
  | recycling r =>
    if r.size < size then throw (.outOfMemory size r.size) else r.slice 0 size

def allocateBytes (size : Word) (w : Allocator) : Operation Region := w.allocate size 1

def allocateLayout (l : Layout) (w : Allocator) : Operation Region := w.allocate l.size l.align

def allocateArrayOf (element : Layout) (count : Word) (w : Allocator) : Operation Region := do
  w.allocateLayout (← require (Layout.ofSequence count element))

def allocateValue (l : Layout) (x : Scalar) (w : Allocator) : Operation Region := do
  require (x.type.carrier.check l .native)
  let r ← w.allocateLayout l
  r.set l 0 x
  return r

def allocateAddress (l : Layout) (a : Word) (w : Allocator) : Operation Region := do
  require (Carrier.address.check l .native)
  let r ← w.allocateLayout l
  r.setAddress l 0 a
  return r

def allocateArray (t : ScalarType) (element : Layout) (xs : List (BitVec (8 * t.size)))
    (w : Allocator) : Operation Region := do
  require (t.carrier.check element .native)
  let r ← w.allocateArrayOf element (.ofNat xs.length)
  r.write 0 (xs.flatMap fun x => Scalar.encode ⟨t, x⟩ element.order)
  return r

def allocateAddressArray (element : Layout) (xs : List Word) (w : Allocator) :
    Operation Region := do
  require (Carrier.address.check element .native)
  let r ← w.allocateArrayOf element (.ofNat xs.length)
  r.write 0 (← xs.flatMapM fun a => require (Address.encode .native element.order a))
  return r

end Allocator

/-- What can be asked of an allocator. -/
inductive AllocationRequest where
  | raw (size align : Word)
  | bytes (size : Word)
  | layout (l : Layout)
  | arrayOf (element : Layout) (count : Word)
  | value (l : Layout) (x : Scalar)
  | address (l : Layout) (a : Word)
  | array (t : ScalarType) (element : Layout) (xs : List (BitVec (8 * t.size)))
  | addressArray (element : Layout) (xs : List Word)

def Allocator.serve (w : Allocator) : AllocationRequest → Operation Region
  | .raw size align => w.allocate size align
  | .bytes size => w.allocateBytes size
  | .layout l => w.allocateLayout l
  | .arrayOf element count => w.allocateArrayOf element count
  | .value l x => w.allocateValue l x
  | .address l a => w.allocateAddress l a
  | .array t element xs => w.allocateArray t element xs
  | .addressArray element xs => w.allocateAddressArray element xs

end ScopedMemory
