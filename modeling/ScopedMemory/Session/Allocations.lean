import ScopedMemory.Session.Reply

namespace ScopedMemory

inductive AllocationCall where
  | arena (scope : Name) (capacity : ArenaCapacity) (config : ArenaConfig) (access : ArenaAccess)
      (name : Name)
  | direct (scope name : Name)
  | perRequest (kind : ScopeKind) (name : Name)
  | recycling (region name : Name)
  | allocate (request : AllocationRequest) (allocator : Name) (name? : Option Name)
  /-- Each of the threads asks `count` times. -/
  | allocateParallel (arena : Name) (size align : Word) (threads count : Nat)

/-- Calls come from the threads below this number; requests at the same time come from others. -/
def firstSpareThread : Thread := 3

/-- No two regions of the list share a byte. -/
def areDisjoint : List Region → Bool
  | [] => true
  | r :: rs => rs.all (fun s => ¬ r.Overlaps s) && areDisjoint rs

/-- Asks for the same once for every thread of the list. -/
def Allocator.allocateEach (w : Allocator) (size align : Word) (threads : List Thread) :
    Operation (List (Except MemoryError Region)) :=
  threads.mapM fun t => Operation.attempt (Operation.asThread t (w.allocate size align))

def Tally.of (align : Word) (outcomes : List (Except MemoryError Region)) : Tally :=
  let regions := outcomes.filterMap Except.toOption
  { served := regions.length
    failed := outcomes.length - regions.length
    disjoint := areDisjoint regions
    aligned := regions.all fun r => r.start % align = 0 }

namespace AllocationCall

open Turn

def perform : AllocationCall → Turn Reply
  | arena scope capacity config access name => do
    let s ← find Session.scope? scope
    keepHandle name (.arena (← lift (ArenaId.create capacity config s)) access)
  | direct scope name => do
    let s ← find Session.scope? scope
    rename name (.allocator (.direct s))
    return .done
  | perRequest kind name => do
    rename name (.allocator (.perRequest kind))
    return .done
  | recycling region name => do
    let (r, _) ← find Session.region? region
    rename name (.allocator (.recycling r))
    return .done
  | allocate request allocator name? => do
    let w ← find Session.allocator? allocator
    keepRegion name? false (← lift (w.serve request))
  | allocateParallel target size align threads count => do
    let a ← find Session.sharedArena? target
    let callers := (List.range threads).flatMap fun i => .replicate count (firstSpareThread + i)
    return .tally (.of align (← lift ((Allocator.arena a).allocateEach size align callers)))

end AllocationCall
end ScopedMemory
