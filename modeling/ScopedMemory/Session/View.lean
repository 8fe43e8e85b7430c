import ScopedMemory.Session.Turn

namespace ScopedMemory

structure ScopeView where
  id : ScopeId
  kind : ScopeKind
  owner? : Option Thread
  alive : Bool
  implicit : Bool
  /-- Why the viewer cannot use it. -/
  fault? : Option MemoryError
  bytes : Word
  blocks : Nat

structure RegionView where
  start : Word
  size : Word
  scope : ScopeId
  alive : Bool

structure ListView where
  address : Word
  position : Word
  empty : Bool
  scope : ScopeId

structure ArenaView where
  stats : ArenaStats
  remaining : Word
  bounded : Bool
  scope : ScopeId

inductive ValueView where
  | scalar (x : Scalar)
  | address (a : Word)
  | region (r : RegionView)

structure ArgumentView where
  carrier : Carrier
  size : Word
  value : ValueView

structure BuilderView where
  count : Nat
  scope : ScopeId
  arguments : List ArgumentView

inductive HandleView where
  | scope (view : ScopeView)
  | region (view : RegionView) (fault? : Option MemoryError)
  | guard (s : ScopeId)
  | direct (s : ScopeId)
  | perRequest (text : String)
  | arena (view : ArenaView)
  | adaptive (variant : String) (stats : ArenaStats)
  | recycling (view : RegionView)
  | builder (view : BuilderView)
  | list (view : ListView)

namespace Store

def viewScope (σ : Store) (viewer : Thread) (s : ScopeId) : ScopeView :=
  let sc := σ.scope s
  { id := s
    kind := sc.kind
    owner? := sc.owner?
    alive := sc.isAlive
    implicit := sc.kind = .implicit
    fault? := MemoryError.of? (σ.checkUsable viewer s)
    bytes := sc.memoryBytes
    blocks := sc.blockCount }

def viewRegion (σ : Store) (r : Region) : RegionView :=
  ⟨r.start, r.size, r.scope, (σ.scope r.scope).isAlive⟩

def viewArena (σ : Store) (a : ArenaId) : ArenaView :=
  let ar := σ.arena a
  ⟨ar.stats, ar.remaining, ar.IsBounded, ar.scope⟩

def viewValue (σ : Store) : ArgumentValue → ValueView
  | .int x => .scalar ⟨.i32, x⟩
  | .long x => .scalar ⟨.i64, x⟩
  | .double x => .scalar ⟨.f64, x⟩
  | .address a => .address a
  | .segment r => .region (σ.viewRegion r)

def viewBuilder (σ : Store) (b : VariadicBuilder) : BuilderView :=
  ⟨b.arguments.length, b.scope,
    b.arguments.map fun arg => ⟨arg.value.carrier, arg.layout.size, σ.viewValue arg.value⟩⟩

/-- The variant that an adaptive arena over the scope has. -/
def arenaVariant (σ : Store) (s : ScopeId) : String :=
  if (σ.scope s).kind = .confined then "Confined" else "Shared"

def viewAllocator (σ : Store) : Allocator → HandleView
  | .direct s => .direct s
  | .perRequest kind =>
    let text := kind.name
    .perRequest s!"MallocAllocator \x7b kind: {text} \x7d"
  | .arena a => .arena (σ.viewArena a)
  | .recycling r => .recycling (σ.viewRegion r)

end Store

def VariadicList.view (v : VariadicList) : ListView :=
  ⟨v.address, v.position, v.IsEmpty, v.scope⟩

namespace Handle

def view (σ : Store) (viewer : Thread) : Handle → HandleView
  | scope s => .scope (σ.viewScope viewer s)
  | region r _ => .region (σ.viewRegion r) (MemoryError.of? (σ.checkUsable viewer r.scope))
  | guard s => .guard s
  | allocator w => σ.viewAllocator w
  | arena a .adaptive => .adaptive (σ.arenaVariant (σ.arena a).scope) (σ.arena a).stats
  | arena a _ => .arena (σ.viewArena a)
  | builder b => .builder (σ.viewBuilder b)
  | list v => .list v.view

def describe? (σ : Store) : Handle → Option String
  | scope s =>
    let kind := (σ.scope s).kind.name
    let alive := (σ.scope s).isAlive
    some s!"ResourceScope \x7b id: ScopeId({s}), kind: {kind}, alive: {alive} \x7d"
  | region r _ =>
    let start := r.start
    let size := r.size
    let s := r.scope
    some (s!"Region \x7b address: MemoryAddress({start}), len: {size}, " ++
      s!"scope: ScopeId({s}) \x7d")
  | list v =>
    let c := v.convention.name
    let s := v.scope
    let start := v.address
    let position := v.position
    some (s!"VaList \x7b abi: \"{c}\", scope: ScopeId({s}), " ++
      s!"address: MemoryAddress({start}), position: {position} \x7d")
  | _ => none

end Handle
end ScopedMemory
