import ScopedMemory.Region.Access
import ScopedMemory.Scope.Operations

namespace ScopedMemory

/-- A request is for less than half of the address space, at a power of two. -/
def checkRequest (size align : Word) : Except MemoryError Unit :=
  if ¬ align.IsPowerOfTwo then .error (.badAlignment align)
  else if size.toNat < 0x8000000000000000 then .ok ()
  else .error (.invalidArgument s!"allocation size {size} is out of range")

namespace Store

/-- A number that no arena has reads as an arena without room. -/
def arena (σ : Store) (a : ArenaId) : Arena := σ.arenas.getD a ⟨0, .bounded 0, 1, none, {}⟩

def addArena (σ : Store) (ar : Arena) : Store := { σ with arenas := σ.arenas ++ [ar] }

def modifyArena (σ : Store) (a : ArenaId) (f : Arena → Arena) : Store :=
  { σ with arenas := σ.arenas.modify a f }

end Store

namespace ArenaId

open Operation

/-- A new arena over a scope that the caller may use. It has no block before its first request. -/
def create (capacity : ArenaCapacity) (config : ArenaConfig) (s : ScopeId) :
    Operation ArenaId := do
  require config.validate
  checkUsable s
  let σ ← get
  set (σ.addArena ⟨s, capacity, config.blockAlign, none, {}⟩)
  return σ.arenas.length

/-- Requests are carved from the new block from now on. -/
def install (a : ArenaId) (block : Region) : Operation Frontier := do
  modify (·.modifyArena a fun ar =>
    { ar with frontier := some ⟨block, 0⟩, stats := ar.stats.addBlock block.size })
  return ⟨block, 0⟩

/-- Hands out the `size` bytes at `start` and moves the cursor behind them. -/
def carve (a : ArenaId) (f : Frontier) (start size : Word) : Operation Region := do
  let r ← f.block.slice start size
  modify (·.modifyArena a fun ar =>
    { ar with
      frontier := some { f with cursor := start + size }
      stats := ar.stats.addServed size })
  return r

/-- Everything comes from one block, obtained at the first request. -/
def allocateBounded (a : ArenaId) (ar : Arena) (bytes size align : Word) : Operation Region := do
  let f ← match ar.frontier with
    | some f => pure f
    | none => a.install (← ar.scope.allocateNative bytes ar.blockAlign)
  match f.fit? size align with
  | some start => a.carve f start size
  | none => throw (.outOfMemory size (bytes - f.cursor))

/-- A new block is installed and served from, and the old one is never used again. -/
def allocateFresh (a : ArenaId) (ar : Arena) (blockSize size align : Word) : Operation Region := do
  let f ← a.install (← ar.scope.allocateNative blockSize (max ar.blockAlign align))
  match f.fit? size align with
  | some start => a.carve f start size
  | none => throw (.outOfMemory size blockSize)

/-- A request larger than a block gets a block of its own and leaves the others as they are. -/
def allocateDedicated (a : ArenaId) (ar : Arena) (size align : Word) : Operation Region := do
  let r ← ar.scope.allocateNative size (max ar.blockAlign align)
  modify (·.modifyArena a fun ar => { ar with stats := ar.stats.addDedicated size })
  return r

def allocateUnbounded (a : ArenaId) (ar : Arena) (blockSize size align : Word) :
    Operation Region :=
  match ar.frontier.bind fun f => (f.fit? size align).map (f, ·) with
  | some (f, start) => a.carve f start size
  | none =>
    if blockSize < size then a.allocateDedicated ar size align
    else a.allocateFresh ar blockSize size align

def counting {α : Type} (a : ArenaId) (x : Operation α) : Operation α := fun ctx σ =>
  match x ctx σ with
  | .ok r σ' => .ok r σ'
  | .error e σ' =>
    .error e (σ'.modifyArena a fun ar => { ar with stats := ar.stats.addFailed })

/-- A request that is malformed or comes while the scope cannot be used does not count as failed. -/
def allocate (a : ArenaId) (size align : Word) : Operation Region := do
  require (checkRequest size align)
  let ar := (← get).arena a
  checkUsable ar.scope
  a.counting <|
    match ar.capacity with
    | .bounded bytes => a.allocateBounded ar bytes size align
    | .unbounded blockSize => a.allocateUnbounded ar blockSize size align

end ArenaId
end ScopedMemory
