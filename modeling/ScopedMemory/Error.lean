import ScopedMemory.Word

namespace ScopedMemory

/-- Scopes are numbered in the order of their creation; the global scope is `0`. -/
abbrev ScopeId := Nat

inductive MemoryError where
  /-- The layout has another size than the carrier or the address width asks for. -/
  | layoutMismatch (expected actual : Word)
  | invalidArgument (reason : String)
  /-- The span leaves its region or the address space. -/
  | outOfBounds (offset length size : Word)
  /-- The request cannot be served; the system allocator always has `0` bytes available. -/
  | outOfMemory (requested available : Word)
  | alreadyClosed (scope : ScopeId)
  /-- A confined scope was used by a thread that does not own it. -/
  | wrongThread (scope : ScopeId)
  /-- Implicit scopes and the global scope have no close point. -/
  | scopeNotClosable (scope : ScopeId)
  /-- The scope is held open by that many guards. -/
  | scopeAcquired (scope : ScopeId) (count : Nat)
  /-- The request is well formed but not provided for. -/
  | unsupported (reason : String)
deriving DecidableEq, Repr

inductive ErrorKind where
  | argumentMismatch
  | capacityExhausted
  | liveness
  | ownership
  | unsupported
deriving DecidableEq, Repr

def ErrorKind.name : ErrorKind → String
  | argumentMismatch => "ArgumentMismatch"
  | capacityExhausted => "CapacityExhausted"
  | liveness => "Liveness"
  | ownership => "Ownership"
  | unsupported => "Unsupported"

namespace MemoryError

def name : MemoryError → String
  | layoutMismatch .. => "LayoutMismatch"
  | invalidArgument .. => "InvalidArgument"
  | outOfBounds .. => "OutOfBounds"
  | outOfMemory .. => "OutOfMemory"
  | alreadyClosed .. => "AlreadyClosed"
  | wrongThread .. => "WrongThread"
  | scopeNotClosable .. => "ScopeNotClosable"
  | scopeAcquired .. => "ScopeAcquired"
  | unsupported .. => "Unsupported"

def kind : MemoryError → ErrorKind
  | layoutMismatch .. | invalidArgument .. | outOfBounds .. => .argumentMismatch
  | outOfMemory .. => .capacityExhausted
  | alreadyClosed .. => .liveness
  | wrongThread .. => .ownership
  | scopeNotClosable .. | scopeAcquired .. | unsupported .. => .unsupported

def message : MemoryError → String
  | layoutMismatch expected actual => s!"layout size mismatch: {actual} != {expected}"
  | invalidArgument reason => s!"invalid argument: {reason}"
  | outOfBounds offset length size =>
    s!"out of bounds access: offset {offset} length {length} on region of {size} bytes"
  | outOfMemory requested available =>
    s!"out of memory: requested {requested} bytes, {available} bytes available"
  | alreadyClosed scope => s!"scope {scope} is already closed"
  | wrongThread scope => s!"scope {scope} accessed outside of its owner thread"
  | scopeNotClosable scope => s!"scope {scope} cannot be closed"
  | scopeAcquired scope count => s!"scope {scope} is acquired by {count} guard(s)"
  | unsupported reason => s!"unsupported: {reason}"

/-- What a check found wrong. -/
def of? {α : Type} : Except MemoryError α → Option MemoryError
  | .ok _ => none
  | .error e => some e

/-- An alignment has to be a power of two. -/
def badAlignment (align : Word) : MemoryError :=
  invalidArgument s!"alignment must be a power of two (got {align})"

end MemoryError
end ScopedMemory
