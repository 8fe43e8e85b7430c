import ScopedMemory.Session.View

namespace ScopedMemory

/-- How the requests of several threads at once went. -/
structure Tally where
  served : Nat
  failed : Nat
  /-- No two of the regions share a byte. -/
  disjoint : Bool
  aligned : Bool
deriving DecidableEq, Repr

inductive Reply where
  | done
  | truth (value : Bool)
  | bytes (contents : Bytes)
  | scalar (x : Scalar)
  | address (a : Word)
  | text (line : String)
  | scope (view : ScopeView)
  | guard (s : ScopeId)
  | region (view : RegionView)
  /-- No region is there. -/
  | noRegion
  /-- A region with its contents, or why they cannot be read. -/
  | copied (view : RegionView) (contents : Except MemoryError Bytes)
  | list (view : ListView)
  | tally (count : Tally)
  | handle (view : HandleView)

namespace Turn

/-- Shows a region and keeps it under the name. -/
def keepRegion (name? : Option Name) (adopted : Bool) (r : Region) : Turn Reply := do
  let view := (← get).store.viewRegion r
  keep name? (.region r adopted)
  return .region view

/-- Shows a handle and keeps it under the name. -/
def keepHandle (name : Name) (h : Handle) : Turn Reply := do
  let view := h.view (← get).store (← read).caller
  rename name h
  return .handle view

def keepList (name : Name) (v : VariadicList) : Turn Reply := do
  rename name (.list v)
  return .list v.view

end Turn
end ScopedMemory
