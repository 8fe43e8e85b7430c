import ScopedMemory.Scope.Release
import ScopedMemory.Variadic.Builder

namespace ScopedMemory

abbrev Name := String

inductive ArenaAccess where
  | confined
  | shared
  /-- Confined over a confined scope, shared over any other. -/
  | adaptive
deriving DecidableEq, Repr

inductive Handle where
  | scope (s : ScopeId)
  /-- An adopted region, or a part of one, was not allocated here. -/
  | region (r : Region) (adopted : Bool)
  | guard (s : ScopeId)
  | allocator (w : Allocator)
  | arena (a : ArenaId) (access : ArenaAccess)
  | builder (b : VariadicBuilder)
  | list (v : VariadicList)

def Argument.region? (arg : Argument) : Option Region :=
  match arg.value with
  | .segment r => some r
  | _ => none

namespace Handle

def allocatorScopes (σ : Store) : Allocator → List ScopeId
  | .direct s => [s]
  | .perRequest _ => []
  | .arena a => [(σ.arena a).scope]
  | .recycling r => [r.scope]

/-- The scopes that the handle refers to, in the order in which it lets go of them. -/
def scopes (σ : Store) : Handle → List ScopeId
  | scope s => [s]
  | region r _ => [r.scope]
  | guard s => [s]
  | allocator w => allocatorScopes σ w
  | arena a _ => [(σ.arena a).scope]
  | builder b => b.scope :: (b.arguments.filterMap Argument.region?).map (·.scope)
  | list v => [v.scope]

/-- What there is to do when the handle goes. -/
def dropChores (σ : Store) : Handle → List Chore
  | guard s => [.unguard s, .letGo s]
  | h => (h.scopes σ).map .letGo

/-- Scopes serve as allocators too. -/
def asAllocator? : Handle → Option Allocator
  | scope s => some (.direct s)
  | allocator w => some w
  | arena a _ => some (.arena a)
  | _ => none

/-- Guards, arenas, builders and lists are one of a kind. -/
def isClonable : Handle → Bool
  | scope _ | region .. | allocator _ => true
  | guard _ | arena .. | builder _ | list _ => false

end Handle

abbrev HandleTable := List (Name × Handle)

namespace HandleTable

def find? (hs : HandleTable) (name : Name) : Option Handle := hs.lookup name

def erase (hs : HandleTable) (name : Name) : HandleTable := hs.filter (·.1 ≠ name)

def put (name : Name) (h : Handle) : HandleTable → HandleTable
  | [] => [(name, h)]
  | (n, old) :: hs =>
    if name = n then (name, h) :: hs
    else if name < n then (name, h) :: (n, old) :: hs
    else (n, old) :: put name h hs

end HandleTable
end ScopedMemory
